import ScriptBase.Text.Quoted
import ScriptBase.Value.Basic

/-!
# The texts of values

A value has two texts. The *plain* text is for a reader; in the *quoted* text a text or character is
quoted. A container writes its elements quoted in both. An optional value that is present is written
as the plain text of what it holds in both, so a text inside an optional value is never quoted.

## Main definitions

* `ScriptBase.Value.render`: both texts at once.
* `ScriptBase.Value.plain`, `ScriptBase.Value.quoted`: the two texts.
* `ScriptBase.printedLine`: the line that is printed for a list of values.
-/

namespace ScriptBase

namespace Value

/-- A text, quoted if it is to be. -/
def textAs (quoting : Bool) (s : Text) : Text := if quoting then s.quoted else s

/-- The text of an atom as the key of a dictionary. -/
def keyText : Atom → Text
  | .text s => s.quoted
  | .integer n => Decimal.ofInt n.toInt

mutual

/-- The text of a value, quoted or plain. -/
def render (quoting : Bool) : Value → Text
  | integer n => Decimal.ofInt n.toInt
  | natural n => Decimal.ofNat n.toNat
  | truth b => if b then "True" else "False"
  | real x => x.text
  | text s => textAs quoting s
  | byte b => textAs quoting [b]
  | char n => textAs quoting (Text.encode [scalarOrReplacement n.toNat])
  | none => "None"
  | some v => render false v
  | pair v w => ("(" : Text) ++ render true v ++ (", " : Text) ++ render true w ++ (")" : Text)
  | list vs => ("[" : Text) ++ Text.joinWith ", " (renderAll vs) ++ ("]" : Text)
  | dict entries =>
    ("\x7b" : Text) ++ Text.joinWith ", " (renderEntries entries) ++ ("\x7d" : Text)
  | span s =>
    ("[" : Text) ++ Text.joinWith ", " (s.toList.map fun n => Decimal.ofInt n.toInt) ++ ("]" : Text)

/-- The quoted texts of the elements of a list. -/
def renderAll : List Value → List Text
  | [] => []
  | v :: vs => render true v :: renderAll vs

/-- The texts of the entries of a dictionary. -/
def renderEntries : List (Atom × Value) → List Text
  | [] => []
  | (k, v) :: es => (keyText k ++ (": " : Text) ++ render true v) :: renderEntries es

end

/-- The plain text of a value. -/
def plain (v : Value) : Text := v.render false

/-- The quoted text of a value. -/
def quoted (v : Value) : Text := v.render true

theorem renderAll_eq_map (vs : List Value) : renderAll vs = vs.map quoted := by
  induction vs with
  | nil => simp [renderAll]
  | cons v vs ih => simp [renderAll, ih, quoted]

@[simp] theorem plain_text (s : Text) : (text s).plain = s := by
  simp [plain, render, textAs]

@[simp] theorem quoted_text (s : Text) : (text s).quoted = s.quoted := by
  simp [quoted, render, textAs]

/-- Both texts of an optional value are the plain text of what it holds. -/
@[simp] theorem quoted_some (v : Value) : (some v).quoted = v.plain := by
  simp [plain, quoted, render]

end Value

/-- The line that is printed for a list of values: their plain texts with spaces between them. -/
def printedLine (vs : List Value) : Text :=
  Text.joinWith [Ascii.space] (vs.map Value.plain) ++ [Ascii.newline]

end ScriptBase
