import ScriptBase.Text.Ascii

/-!
# Quoted texts

The quoted form of a text is a literal: the text between quotation marks, with an escape for each
byte that must not stand there. Single quotes enclose it, unless the text has single quotes and no
double quotes. A backslash and the enclosing quote are written after a backslash, newline, carriage
return and tab as `\n`, `\r` and `\t`, and any other control byte as `\x` with two hexadecimal
digits. All other bytes stand for themselves.

## Main definitions

* `ScriptBase.Text.enclosingQuote`: the quotation mark that a text takes.
* `ScriptBase.Text.escapeByte`: what a byte is written as.
* `ScriptBase.Text.quoted`: the quoted form.
* `ScriptBase.Text.unquoted?`: the text of a quoted form.
-/

namespace ScriptBase.Text

open Ascii

/-- The quotation mark that encloses the quoted form of a text. -/
def enclosingQuote (s : Text) : UInt8 :=
  if s.contains singleQuote && !s.contains doubleQuote then doubleQuote else singleQuote

/-- The bytes that stand for `b` between two marks `quote`. -/
def escapeByte (quote b : UInt8) : Text :=
  if b = backslash then [backslash, backslash]
  else if b = newline then "\\n"
  else if b = carriageReturn then "\\r"
  else if b = tab then "\\t"
  else if b = quote then [backslash, b]
  else if b < 0x20 || b = delete then
    "\\x" ++ [hexDigit (b.toNat / 16), hexDigit (b.toNat % 16)]
  else [b]

/-- The quoted form of a text. -/
def quoted (s : Text) : Text :=
  let quote := s.enclosingQuote
  quote :: s.flatMap (escapeByte quote) ++ [quote]

/-! ### Reading a quoted form -/

/-- The value of a hexadecimal digit in lower case. -/
def hexValue? (b : UInt8) : Option Nat :=
  if 0x30 ≤ b && b ≤ 0x39 then some (b - 0x30).toNat
  else if 0x61 ≤ b && b ≤ 0x66 then some (b - 0x57).toNat
  else none

/-- The byte that an escape stands for, by the byte after its backslash; `\x` is not among them. -/
def unescape? (quote b : UInt8) : Option UInt8 :=
  if b = backslash || b = quote then some b
  else if b = 0x6e then some newline
  else if b = 0x72 then some carriageReturn
  else if b = 0x74 then some tab
  else none

/-- The text that is written up to the closing mark, which has to be the last byte. -/
def unescaped? (quote : UInt8) : Text → Option Text
  | [] => none
  | backslash :: 0x78 :: h :: l :: s =>
    match hexValue? h, hexValue? l with
    | some h, some l => (unescaped? quote s).map (UInt8.ofNat (16 * h + l) :: ·)
    | _, _ => none
  | backslash :: b :: s =>
    match unescape? quote b with
    | some b => (unescaped? quote s).map (b :: ·)
    | none => none
  | b :: s =>
    if b = quote then if s.isEmpty then some [] else none
    else if b < 0x20 || b = delete || b = backslash then none
    else (unescaped? quote s).map (b :: ·)

/-- The text of which a text is a quoted form. -/
def unquoted? : Text → Option Text
  | [] => none
  | quote :: s =>
    if quote = singleQuote || quote = doubleQuote then unescaped? quote s else none

/-- A quoted form starts and ends with the same mark. -/
theorem quoted_eq (s : Text) :
    s.quoted =
      s.enclosingQuote :: (s.flatMap (escapeByte s.enclosingQuote) ++ [s.enclosingQuote]) :=
  rfl

/-- Double quotes enclose a text exactly if it has single quotes and no double quotes. -/
theorem enclosingQuote_eq_doubleQuote_iff (s : Text) :
    s.enclosingQuote = doubleQuote ↔ singleQuote ∈ s ∧ doubleQuote ∉ s := by
  have ne : singleQuote ≠ doubleQuote := by decide
  unfold enclosingQuote
  by_cases h : singleQuote ∈ s <;> by_cases h' : doubleQuote ∈ s <;> simp [h, h', ne]

end ScriptBase.Text
