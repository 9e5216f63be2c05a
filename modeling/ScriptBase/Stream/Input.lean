import ScriptBase.Disk.Basic
import ScriptBase.Text.Line

/-!
# Input streams

An input stream holds bytes that it has already taken from its supply, and takes more when it needs
them. The supply may end, it may fail, or it may be a file, from which bytes are taken in blocks.
A stream that has met the end stays ended, and one that has met a failure stays failed, whatever its
supply has to offer later.

## Main definitions

* `ScriptBase.Supply`, `ScriptBase.InStream`: supplies and streams.
* `ScriptBase.InStream.visible`: the bytes that can be read.
* `ScriptBase.InStream.getLine`: reads a line.
* `ScriptBase.InStream.getAll`: reads all that is left.
-/

namespace ScriptBase

/-- Where an input stream takes bytes from when it holds none. -/
inductive Supply where
  /-- There are no more. -/
  | ends
  /-- Taking more fails. -/
  | fails
  /-- The bytes of a file from an offset on. -/
  | file (path : Path) (offset : Nat)
  deriving DecidableEq, Repr

/-- A stream that bytes are read from. -/
structure InStream where
  /-- The bytes that the stream has taken and nobody has read. -/
  held : Text
  supply : Supply
  /-- Whether reading has met the end. -/
  ended : Bool
  /-- Whether reading has met a failure. -/
  failed : Bool
  deriving DecidableEq, Repr

namespace InStream

/-- The number of bytes that are taken from a file at once. -/
def blockSize : Nat := 8191

/-- The stream of given bytes, which ends or fails after them. -/
def ofText (s : Text) (fails : Bool) : InStream :=
  ⟨s, if fails then .fails else .ends, false, false⟩

/-- The stream of what stands at a path of a disk. -/
def ofPath (p : Path) : InStream := ⟨[], .file p 0, false, false⟩

/-- The bytes that the supply has to offer. -/
def ahead (d : Disk) (s : InStream) : Text :=
  match s.supply with
  | .file p offset => (d.content p).drop offset
  | _ => []

/-- Whether there is a failure behind the bytes of the supply. A directory has none and fails. -/
def failsBehind (d : Disk) (s : InStream) : Bool :=
  match s.supply with
  | .ends => false
  | .fails => true
  | .file p _ => d.isDirectory p

/-- The bytes that can be read: those that are held, and those that the supply has to offer. -/
def visible (d : Disk) (s : InStream) : Text := s.held ++ s.ahead d

/-- The stream after its first `n` visible bytes were read. What has to be taken for that is taken
in whole blocks, as far as there are bytes. -/
def skip (d : Disk) (n : Nat) (s : InStream) : InStream :=
  if n ≤ s.held.length then { s with held := s.held.drop n }
  else
    let needed := n - s.held.length
    let taken := (s.ahead d).take ((needed + (blockSize - 1)) / blockSize * blockSize)
    { s with
      held := taken.drop needed
      supply :=
        match s.supply with
        | .file p offset => .file p (offset + taken.length)
        | other => other }

/-- The stream after all its visible bytes were read. -/
def skipAll (d : Disk) (s : InStream) : InStream := s.skip d (s.visible d).length

/-- Reads a line without its newline. What follows the last newline is a line too unless it is
empty, and with it the stream has met its end. A line that runs into a failure is lost. -/
def getLine (d : Disk) (s : InStream) : Option Text × InStream :=
  if s.ended || s.failed then (none, s)
  else
    match (s.visible d).breakLine with
    | some (line, _) => (some line, s.skip d (line.length + 1))
    | none =>
      if s.failsBehind d then (none, { s.skipAll d with failed := true })
      else
        (if (s.visible d).isEmpty then none else some (s.visible d),
          { s.skipAll d with ended := true })

/-- Reads all that is left. Only a stream without bytes meets its end or a failure by that. -/
def getAll (d : Disk) (s : InStream) : Text × InStream :=
  if s.ended || s.failed then ([], s)
  else if (s.visible d).isEmpty then
    ([], if s.failsBehind d then { s with failed := true } else { s with ended := true })
  else (s.visible d, s.skipAll d)

@[simp] theorem visible_ofText (d : Disk) (s : Text) (fails : Bool) :
    (ofText s fails).visible d = s := by
  cases fails <;> simp [ofText, visible, ahead]

theorem le_wholeBlocks (n : Nat) : n ≤ (n + (blockSize - 1)) / blockSize * blockSize := by
  unfold blockSize
  omega

/-- A list is cut at two places, the first of which lies before the second. -/
theorem drop_take_append_drop {α : Type} {k m : Nat} (h : k ≤ m) (xs : List α) :
    (xs.take m).drop k ++ xs.drop (xs.take m).length = xs.drop k := by
  have hx := congrArg (List.drop k) (List.take_append_drop m xs)
  rw [List.length_take]
  rcases Nat.le_total m xs.length with hm | hm
  · rw [Nat.min_eq_left hm]
    rwa [List.drop_append_of_le_length (by simp; omega)] at hx
  · rw [List.take_of_length_le hm, Nat.min_eq_right hm, List.drop_length, List.append_nil]

/-- What is visible after skipping is what was visible before, without the bytes that were read. -/
theorem visible_skip (d : Disk) (n : Nat) (s : InStream) :
    (s.skip d n).visible d = (s.visible d).drop n := by
  unfold skip
  by_cases h : n ≤ s.held.length
  · simp only [if_pos h]
    unfold visible ahead
    rw [List.drop_append_of_le_length h]
  · simp only [if_neg h]
    have hn := le_wholeBlocks (n - s.held.length)
    generalize (n - s.held.length + (blockSize - 1)) / blockSize * blockSize = m at hn
    have hd : (s.visible d).drop n = (s.ahead d).drop (n - s.held.length) := by
      unfold visible
      rw [List.drop_append, List.drop_of_length_le (by omega), List.nil_append]
    have ha := drop_take_append_drop hn (s.ahead d)
    rw [hd, ← ha]
    unfold visible ahead
    cases s.supply <;> simp

@[simp] theorem failed_skip (d : Disk) (n : Nat) (s : InStream) :
    (s.skip d n).failed = s.failed := by
  unfold skip
  split <;> rfl

@[simp] theorem ended_skip (d : Disk) (n : Nat) (s : InStream) :
    (s.skip d n).ended = s.ended := by
  unfold skip
  split <;> rfl

/-- Skipping moves on in the supply, and does not change what is behind it. -/
@[simp] theorem failsBehind_skip (d d' : Disk) (n : Nat) (s : InStream) :
    (s.skip d n).failsBehind d' = s.failsBehind d' := by
  unfold skip
  split
  · rfl
  · unfold failsBehind
    cases s.supply <;> rfl

/-- A stream that has met its end or a failure gives no more lines. -/
theorem getLine_of_done {d : Disk} {s : InStream} (h : (s.ended || s.failed) = true) :
    s.getLine d = (none, s) := by
  simp [getLine, h]

end InStream

end ScriptBase
