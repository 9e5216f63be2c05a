import ScriptBase.File.Basic
import ScriptBase.Numeral.Integer
import ScriptBase.Scope
import ScriptBase.Sequence
import ScriptBase.Template.Fill
import ScriptBase.Text.Find
import ScriptBase.Text.Strip

/-!
# Line statistics

The tool prints the lines of a file that are not blank, each behind its number, and then how many
lines there are, how many of them are blank and how many are integers, and the sum of these. A line
is an integer if it is one behind a minus sign or without a sign, apart from spaces around it. It
stops at the first integer that is out of range.

## Main definitions

* `ScriptBase.LineStat.Tally`: what is counted.
* `ScriptBase.LineStat.countLine`: what is done for a line.
* `ScriptBase.LineStat.report`: the tool on a path.
* `ScriptBase.LineStat.run`: the tool with its arguments, and its exit code.
-/

namespace ScriptBase.LineStat

variable [Platform]

/-- What is counted along the lines of a file. -/
structure Tally where
  lines : Nat
  blank : Nat
  /-- The integers in the order of their lines. -/
  numbers : List Int64
  deriving DecidableEq, Repr

/-- Nothing counted. -/
def Tally.zero : Tally := ⟨0, 0, []⟩

/-- Whether a text without spaces around it is a run of digits, possibly behind a minus sign. -/
def isInteger (s : Text) : Bool :=
  s.isDigits || (s.startsWith [Ascii.minus] && 1 < s.charCount && Text.isDigits (s.drop 1))

/-- How a line is printed: its number, and the line without the spaces at its end. -/
def lineTemplate : Text := "%4d  %s"

/-- The integer value of a count. -/
def countValue (n : Nat) : Value := .integer (Int64.ofNat n)

/-- Counts a line, and prints it if it is not blank. -/
def countLine (line : Text) (t : Tally) : Action Host Tally := do
  let t := { t with lines := t.lines + 1 }
  let content := line.strip
  if content.isEmpty then pure { t with blank := t.blank + 1 }
  else
    let shown ← Action.ofExcept (format lineTemplate [countValue t.lines, .text line.stripEnd])
    Host.print [.text shown]
    if isInteger content then
      let n ← Action.ofExcept (integerOf content)
      pure { t with numbers := t.numbers ++ [n] }
    else pure t

/-- A file that is scanned, the host, and what has been counted. -/
structure Scan where
  file : File
  host : Host
  tally : Tally

namespace Scan

/-- Runs an operation on the file. -/
def onFile {α : Type} (action : FileAction α) : Action Scan α :=
  Action.on (fun s => (s.file, s.host)) (fun state s => { s with file := state.1, host := state.2 })
    action

/-- Counts the lines that are left, `n` of them at most. -/
def lines : Nat → Action Scan Unit
  | 0 => pure ()
  | n + 1 => do
    match ← onFile File.readLine with
    | none => pure ()
    | some line =>
      let t := (← get).tally
      let t ← Action.on Scan.host (fun host s => { s with host }) (countLine line t)
      modify fun s => { s with tally := t }
      lines n

/-- Counts all lines that are left. -/
def allLines : Action Scan Unit := do
  let s ← get
  lines (s.file.lineBound s.host.disk)

end Scan

/-- Prints what was counted, and the sum of the integers if there are any. -/
def printTally (t : Tally) : Action Host Unit := do
  Host.print [.text "lines:", countValue t.lines, .text "blank:", countValue t.blank,
    .text "numeric:", countValue t.numbers.length]
  if !t.numbers.isEmpty then
    let sum ← Action.ofExcept (Sequence.total (· + ·) t.numbers)
    Host.print [.text "sum:", .integer sum]

/-- The tool on a path. -/
def report (path : Text) : Action Host Unit := do
  let file ← Host.openFile path OpenMode.default
  let host ← get
  let (result, scan) :=
    (withClosing Scan.allLines (Scan.onFile File.close)).outcome ⟨file, host, .zero⟩
  set scan.host
  Action.ofExcept result
  printTally scan.tally

/-- What the tool says if it is not given one argument. -/
def usage : Text := "usage: pyshim-linestat <file>"

/-- Writes a line to the standard error output. -/
def complain (host : Host) (line : Text) : Host :=
  { host with diagnostics := host.diagnostics ++ line ++ [Ascii.newline] }

/-- The tool with its arguments, NUL-terminated texts: its exit code and the host after it. A fault
is shown by its kind and its message. -/
def run (args : List Text) (host : Host) : Nat × Host :=
  match args with
  | [path] =>
    match (report path.throughNul).outcome host with
    | (.ok _, host) => (0, host)
    | (.error fault, host) => (1, complain host (fault.kind.name ++ ": " ++ fault.message))
  | _ => (2, complain host usage)

end ScriptBase.LineStat
