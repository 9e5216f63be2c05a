import ScriptBase.Text.Basic

/-!
# ASCII bytes

The bytes that the rules of texts, numerals and templates name, and the two classes of bytes that
the numeral reader uses. Both classes hold ASCII bytes only; the classes of all characters are in
`ScriptBase.Text.Category`.

## Main definitions

* `ScriptBase.Ascii.isDigit`, `ScriptBase.Ascii.digitValue`, `ScriptBase.Ascii.digit`: decimal
  digits and their values.
* `ScriptBase.Ascii.isBlank`: the six blank bytes.
* `ScriptBase.Ascii.hexDigit`: hexadecimal digits in lower case.
-/

namespace ScriptBase.Ascii

/-- The byte that ends a line. -/
@[match_pattern] abbrev newline : UInt8 := 0x0a

/-- The byte that may stand between a line and its newline. -/
@[match_pattern] abbrev carriageReturn : UInt8 := 0x0d

/-- The horizontal tabulator. -/
@[match_pattern] abbrev tab : UInt8 := 0x09

/-- The space. -/
@[match_pattern] abbrev space : UInt8 := 0x20

/-- The double quotation mark. -/
@[match_pattern] abbrev doubleQuote : UInt8 := 0x22

/-- The percent sign. -/
@[match_pattern] abbrev percent : UInt8 := 0x25

/-- The apostrophe. -/
@[match_pattern] abbrev singleQuote : UInt8 := 0x27

/-- The plus sign. -/
@[match_pattern] abbrev plus : UInt8 := 0x2b

/-- The minus sign. -/
@[match_pattern] abbrev minus : UInt8 := 0x2d

/-- The full stop. -/
@[match_pattern] abbrev dot : UInt8 := 0x2e

/-- The slash between the names of a path. -/
@[match_pattern] abbrev slash : UInt8 := 0x2f

/-- The digit zero. -/
@[match_pattern] abbrev zero : UInt8 := 0x30

/-- The backslash. -/
@[match_pattern] abbrev backslash : UInt8 := 0x5c

/-- The control byte after the printable ones. -/
@[match_pattern] abbrev delete : UInt8 := 0x7f

/-- Whether a byte is one of the digits `0` to `9`. -/
def isDigit (b : UInt8) : Bool := 0x30 ≤ b && b ≤ 0x39

/-- The value of a digit. -/
def digitValue (b : UInt8) : Nat := (b - 0x30).toNat

/-- The digit of a value below ten. -/
def digit (n : Nat) : UInt8 := UInt8.ofNat (0x30 + n)

/-- Whether a byte is blank: the space, or one of tab, newline, vertical tab, form feed and
carriage return. -/
def isBlank (b : UInt8) : Bool := b == 0x20 || (0x09 ≤ b && b ≤ 0x0d)

/-- The hexadecimal digit of a value below sixteen, in lower case. -/
def hexDigit (n : Nat) : UInt8 := UInt8.ofNat (if n < 10 then 0x30 + n else 0x57 + n)

theorem isDigit_digit {n : Nat} (h : n < 10) : isDigit (digit n) = true := by
  have : n = 0 ∨ n = 1 ∨ n = 2 ∨ n = 3 ∨ n = 4 ∨ n = 5 ∨ n = 6 ∨ n = 7 ∨ n = 8 ∨ n = 9 := by omega
  rcases this with rfl | rfl | rfl | rfl | rfl | rfl | rfl | rfl | rfl | rfl <;> rfl

theorem digitValue_digit {n : Nat} (h : n < 10) : digitValue (digit n) = n := by
  have : n = 0 ∨ n = 1 ∨ n = 2 ∨ n = 3 ∨ n = 4 ∨ n = 5 ∨ n = 6 ∨ n = 7 ∨ n = 8 ∨ n = 9 := by omega
  rcases this with rfl | rfl | rfl | rfl | rfl | rfl | rfl | rfl | rfl | rfl <;> rfl

end ScriptBase.Ascii
