import ScriptBase.Numeral.Literal
import ScriptBase.Text.Quoted

/-!
# Faults

What an operation can raise, by its cause. Each cause has a kind, which is what a script catches,
and a message, which is what a user sees. A message is shown up to its first NUL byte.

## Main definitions

* `ScriptBase.FaultKind`: the kinds, with the names that users see.
* `ScriptBase.SystemError`: why the system refuses a path.
* `ScriptBase.Fault`: the causes.
* `ScriptBase.Fault.kind`, `ScriptBase.Fault.message`: the kind and the message of a cause.
-/

namespace ScriptBase

/-- The kinds of faults. A foreign one comes from outside. -/
inductive FaultKind where
  | value
  | type
  | emptySequence
  | key
  | endOfInput
  | configuration
  | overflow
  | io
  | notImplemented
  | exit
  | foreign
  deriving DecidableEq, Repr

/-- The name of a kind. An empty sequence is a kind of its own that shares the name of a wrong
type. -/
def FaultKind.name : FaultKind → Text
  | value => "ValueError"
  | type => "TypeError"
  | emptySequence => "TypeError"
  | key => "KeyError"
  | endOfInput => "EOFError"
  | configuration => "ConfigError"
  | overflow => "OverflowError"
  | io => "IOError"
  | notImplemented => "NotImplementedError"
  | exit => "SystemExit"
  | foreign => "ForeignError"

/-- Why the system refuses to open a path. -/
inductive SystemError where
  | noEntry
  | notDirectory
  | isDirectory
  | nameTooLong
  deriving DecidableEq, Repr

namespace SystemError

/-- The number of a system error. -/
def code : SystemError → Int
  | noEntry => 2
  | notDirectory => 20
  | isDirectory => 21
  | nameTooLong => 36

/-- The wording of a system error. -/
def text : SystemError → Text
  | noEntry => "No such file or directory"
  | notDirectory => "Not a directory"
  | isDirectory => "Is a directory"
  | nameTooLong => "File name too long"

end SystemError

/-- What can be wrong with the size of the write buffer in the environment. -/
inductive BufferSizeFault where
  | malformed (fault : LiteralFault)
  | negative
  deriving DecidableEq, Repr

/-- The causes of faults. -/
inductive Fault where
  /-- A text that is no integer literal was to be read as one. -/
  | invalidInteger (literal : Text)
  /-- A template ends inside a conversion. -/
  | incompleteTemplate
  /-- A template has more conversions than there are arguments. -/
  | notEnoughArguments
  /-- A template has fewer conversions than there are arguments. -/
  | unusedArguments
  /-- A template has a conversion that is not known. -/
  | unknownConversion (letter : UInt8)
  /-- A numeric conversion met an argument that carries no number. -/
  | numberRequired (letter : UInt8) (shown : Text)
  /-- A sequence without elements has no sum. -/
  | emptySum
  /-- A range has more elements than an integer can count. -/
  | rangeTooLong
  /-- A dictionary has no such key. -/
  | missingKey
  /-- The environment holds no size of the write buffer. -/
  | bufferSize (fault : BufferSizeFault) (value : Text)
  /-- A class has no name. -/
  | unnamedClass
  /-- There is no resource to use. -/
  | nullResource
  /-- There is nothing under the name. -/
  | nothingNamed
  /-- A file was to be opened in an unknown mode. -/
  | invalidMode (mode : Text)
  /-- The system refuses a path. -/
  | cannotOpen (error : SystemError) (path : Text)
  /-- The file is closed. -/
  | closedFile
  /-- The file is not open for reading. -/
  | notForReading (name : Text)
  /-- The file is not open for writing. -/
  | notForWriting (name : Text)
  /-- Reading a file failed. -/
  | readFailed (name : Text)
  /-- Writing to a file failed. -/
  | writeFailed (name : Text)
  /-- Flushing a file failed. -/
  | flushFailed (name : Text)
  /-- Closing a file failed. -/
  | closeFailed (name : Text)
  /-- The input has no more lines. -/
  | endOfInput
  /-- Reading the standard input failed. -/
  | inputFailed
  /-- Writing to the standard output failed. -/
  | outputFailed
  /-- The script ends with a code. -/
  | exit (code : Int)
  /-- A script raised an input or output fault of its own. -/
  | raisedIO (code : Int) (message : Text)
  /-- A script raised another fault of its own. -/
  | raised (kind : FaultKind) (message : Text)
  deriving DecidableEq, Repr

namespace Fault

/-- The kind of a cause. -/
def kind : Fault → FaultKind
  | invalidInteger _ | incompleteTemplate | unknownConversion _ | nullResource | invalidMode _
  | closedFile => .value
  | notEnoughArguments | unusedArguments | numberRequired _ _ => .type
  | emptySum => .emptySequence
  | rangeTooLong => .overflow
  | missingKey => .key
  | bufferSize _ _ => .configuration
  | unnamedClass => .notImplemented
  | nothingNamed => .foreign
  | cannotOpen _ _ | notForReading _ | notForWriting _ | readFailed _ | writeFailed _
  | flushFailed _ | closeFailed _ | inputFailed | outputFailed | raisedIO _ _ => .io
  | endOfInput => .endOfInput
  | exit _ => .exit
  | raised kind _ => kind

/-- The system's number for a cause, zero where it has none. -/
def systemCode : Fault → Int
  | cannotOpen error _ => error.code
  | raisedIO code _ => code
  | _ => 0

/-- The hexadecimal numeral of a byte, without leading zeros. -/
def hexByte (b : UInt8) : Text :=
  if b < 16 then [Ascii.hexDigit b.toNat]
  else [Ascii.hexDigit (b.toNat / 16), Ascii.hexDigit (b.toNat % 16)]

/-- A text between apostrophes, as it is. -/
def cited (s : Text) : Text := Ascii.singleQuote :: s ++ [Ascii.singleQuote]

/-- The whole message of a cause. -/
def fullMessage : Fault → Text
  | invalidInteger literal => "invalid literal for int() with base 10: " ++ literal.quoted
  | incompleteTemplate => "incomplete format"
  | notEnoughArguments => "not enough arguments for format string"
  | unusedArguments => "not all arguments converted during string formatting"
  | unknownConversion letter =>
    "unsupported format character " ++ cited [letter] ++ " (0x" ++ hexByte letter ++ ")"
  | numberRequired letter shown =>
    "%" ++ letter :: (" format: a number is required, not " : Text) ++ shown
  | emptySum => "sum() of empty sequence"
  | rangeTooLong => "range has too many elements to fit in Int"
  | missingKey => "key not found in dict"
  | bufferSize (.malformed fault) value =>
    "PYSHIM_IO_BUFFER_SIZE: " ++ fault.message ++ ": " ++ cited value
  | bufferSize .negative value => "PYSHIM_IO_BUFFER_SIZE must not be negative: " ++ cited value
  | unnamedClass => "no class name registered for type"
  | nullResource => "with_() on a null resource"
  | nothingNamed => "nothing has that name"
  | invalidMode mode => "invalid mode: " ++ cited mode
  | cannotOpen error path =>
    "[Errno " ++ Decimal.ofInt error.code ++ "] " ++ error.text ++ ": " ++ cited path
  | closedFile => "I/O operation on closed file"
  | notForReading name => "File not open for reading: " ++ name
  | notForWriting name => "File not open for writing: " ++ name
  | readFailed name => "read error on " ++ name
  | writeFailed name => "write error on " ++ name
  | flushFailed name => "flush error on " ++ name
  | closeFailed name => "close error on " ++ name
  | endOfInput => "EOF when reading a line"
  | inputFailed => "read error on standard input"
  | outputFailed => "write error on standard output"
  | exit _ => "SystemExit"
  | raisedIO _ message => message
  | raised _ message => message

/-- The message of a cause as it is shown. -/
def message (fault : Fault) : Text := fault.fullMessage.throughNul

/-- Whether a cause is of the kind of input and output. -/
def isIO (fault : Fault) : Bool := fault.kind == .io

end Fault

end ScriptBase
