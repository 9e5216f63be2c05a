import ScriptBase.Disk.Resolve

/-!
# What creating a file does to a disk

To create a file for writing is to follow all names of a path but the last, and to put an empty file
behind the last if nothing stands there, or a file that is to lose its content. Nothing else on the
disk changes. Afterwards the same path leads to where the file was put.

## Main definitions

* `ScriptBase.Disk.Extends`: a disk on which what stood on another still stands.
* `ScriptBase.Disk.getsEmptyFile`: whether an empty file is put at a path.

## Main results

* `ScriptBase.Disk.create_eq_ok`: what is known of a creation that succeeds.
* `ScriptBase.Disk.node?_of_create_ne_iff`: what it changes.
* `ScriptBase.Disk.locate_of_create`: the path leads to what was created.
-/

namespace ScriptBase

namespace Disk

open Ascii (slash)

variable {d d' : Disk} {p q here : Path} {path name : Text} {truncating : Bool}

/-! ### Following names -/

/-- A disk *extends* another if it has the same directories and has lost nothing that stood on the
other; files may have other contents. -/
structure Extends (d' d : Disk) : Prop where
  workingDirectory : d'.workingDirectory = d.workingDirectory
  isDirectory : ∀ q, d'.isDirectory q = d.isDirectory q
  isSome : ∀ q, (d.node? q).isSome = true → (d'.node? q).isSome = true

namespace Extends

theorem refl (d : Disk) : d.Extends d := ⟨rfl, fun _ => rfl, fun _ h => h⟩

theorem trans {d'' : Disk} (h' : d''.Extends d') (h : d'.Extends d) : d''.Extends d where
  workingDirectory := h'.workingDirectory.trans h.workingDirectory
  isDirectory q := (h'.isDirectory q).trans (h.isDirectory q)
  isSome q hq := h'.isSome q (h.isSome q hq)

/-- What is put where no directory stands is in nobody's way. -/
theorem put (hp : d.isDirectory p = false) {n : Node} (hn : n ≠ .directory) :
    (d.put p n).Extends d where
  workingDirectory := rfl
  isDirectory q := by
    rw [Disk.isDirectory, Disk.isDirectory, node?_put]
    split
    · next hq =>
      have hn' : (some n == some Node.directory) = false := by simpa using hn
      exact hn'.trans (hq ▸ hp).symm
    · rfl
  isSome q hq := by
    rw [node?_put]
    split
    · rfl
    · exact hq

theorem follow (h : d'.Extends d) (hf : d.follow here name = .ok p) :
    d'.follow here name = .ok p := by
  rw [Disk.follow] at hf ⊢
  rw [h.isDirectory]
  split at hf
  · cases hf
  · next hd =>
    rw [if_neg hd]
    split at hf
    · cases hf
    · next hl =>
      rw [if_neg hl]
      split at hf
      · next hs => rw [if_pos (h.isSome _ hs), ← hf]
      · cases hf

theorem followAll (h : d'.Extends d) {names : List Text} (hf : d.followAll here names = .ok p) :
    d'.followAll here names = .ok p := by
  induction names generalizing here with
  | nil => exact hf
  | cons name names ih =>
    rw [Disk.followAll] at hf ⊢
    rcases hn : d.follow here name with error | next
    · simp [hn] at hf
    · rw [hn] at hf
      rw [h.follow hn]
      exact ih hf

theorem start (h : d'.Extends d) (path : Text) : d'.start path = d.start path := by
  rw [Disk.start, Disk.start, h.workingDirectory]

/-- A path that leads somewhere goes on leading there. -/
theorem locate (h : d'.Extends d) (hp : d.locate path = .ok p) : d'.locate path = .ok p := by
  rw [Disk.locate] at hp ⊢
  rcases hn : names path.throughNul with error | parts
  · simp [hn] at hp
  · rw [hn] at hp
    rw [h.start]
    exact h.followAll hp

end Extends

theorem followAll_append {there : Path} {names others : List Text}
    (h : d.followAll here names = .ok there) :
    d.followAll here (names ++ others) = d.followAll there others := by
  induction names generalizing here with
  | nil =>
    cases h
    rfl
  | cons name names ih =>
    rw [followAll] at h
    rw [List.cons_append, followAll]
    rcases hf : d.follow here name with error | next
    · simp [hf] at h
    · rw [hf] at h
      exact ih h

/-- A name that does not go up leads to itself, in a directory in which something stands there. -/
theorem follow_eq_ok (hd : d.isDirectory here = true) (hl : name.length ≤ longestName)
    (hs : staysHere name = false) (hu : goesUp name = false)
    (hn : (d.node? (here ++ [name])).isSome = true) :
    d.follow here name = .ok (here ++ [name]) := by
  have hstep : step here name = here ++ [name] := by simp [step, hs, hu]
  simp [follow, hd, Nat.not_lt.2 hl, hstep, hn]

/-! ### Creating -/

/-- Where the last of a row of names is not empty, the names before it are all others. -/
theorem splitLast_concat (names : List Text) {last : Text} (h : last ≠ []) :
    splitLast (names ++ [last]) = (names, some last) := by
  simp [splitLast, h]

/-- Whether an empty file is put at a path to which something is to be written: if nothing stands
there, and if a file does that is to lose its content. -/
def getsEmptyFile (d : Disk) (truncating : Bool) (p : Path) : Bool :=
  match d.node? p with
  | none => true
  | some (.file _) => truncating
  | some _ => false

theorem createIn_eq_ok (h : d.createIn truncating here name = .ok (p, d')) :
    name.length ≤ longestName ∧ p = here ++ [name] ∧ d.isDirectory p = false ∧
      d' = if d.getsEmptyFile truncating p then d.put p (.file []) else d := by
  rw [createIn] at h
  split at h
  · cases h
  · next hl =>
    refine ⟨Nat.not_lt.1 hl, ?_⟩
    split at h
    · next hn =>
      cases h
      exact ⟨rfl, by simp [isDirectory, hn], by simp [getsEmptyFile, hn]⟩
    · cases h
    · next hn =>
      cases h
      exact ⟨rfl, by simp [isDirectory, hn], by simp [getsEmptyFile, hn]⟩
    · next node hd hf hn =>
      cases h
      refine ⟨rfl, by simpa [isDirectory, hn] using hd, ?_⟩
      cases node with
      | file c => exact absurd rfl (hf c)
      | directory => exact absurd rfl hd
      | nullDevice => simp [getsEmptyFile, hn]
      | fullDevice => simp [getsEmptyFile, hn]

theorem names_eq_ok {parts : List Text} (h : names path = .ok parts) :
    path ≠ [] ∧ parts = path.splitOn slash := by
  rw [names] at h
  split at h
  · cases h
  · next he =>
    split at h
    · cases h
    · cases h
      exact ⟨by simpa using he, rfl⟩

/-- A path that does not end with a slash is split into its last name and those before it. -/
theorem splitLast_splitOn (hp : path ≠ []) (h : path.getLast? ≠ some slash) :
    ∃ parents name, path.splitOn slash = parents ++ [name] ∧
      splitLast (path.splitOn slash) = (parents, some name) := by
  obtain ⟨s, c, rfl⟩ := (List.eq_nil_or_concat path).resolve_left hp
  rw [List.concat_eq_append] at h ⊢
  have hc : c ≠ slash := by simpa using h
  obtain ⟨parents, last, hs⟩ := Text.splitOn_concat hc s
  exact ⟨parents, last ++ [c], hs, by rw [hs, splitLast_concat _ (by simp)]⟩

/-- A creation that succeeds has followed all names but the last, and the last is a name that does
not go up. -/
theorem create_eq_ok (h : d.create truncating path = .ok (p, d')) :
    ∃ parents name here, names path.throughNul = .ok (parents ++ [name]) ∧
      d.followAll (d.start path.throughNul) parents = .ok here ∧ d.isDirectory here = true ∧
      staysHere name = false ∧ goesUp name = false ∧
      d.createIn truncating here name = .ok (p, d') := by
  rw [create] at h
  rcases hn : names path.throughNul with error | parts
  · simp [hn] at h
  · obtain ⟨hp, rfl⟩ := names_eq_ok hn
    simp only [hn] at h
    rcases hf : d.followAll (d.start path.throughNul)
      (splitLast (path.throughNul.splitOn slash)).1 with error | here
    · simp [hf] at h
    · simp only [hf] at h
      by_cases hd : d.isDirectory here = true
      · rcases hl : (splitLast (path.throughNul.splitOn slash)).2 with _ | name
        · simp [hd, hl] at h
        · simp only [hd, hl, Bool.not_true, Bool.false_eq_true, if_false] at h
          split at h
          · cases h
          · next hg =>
            simp only [Bool.or_eq_true, decide_eq_true_eq, not_or, Bool.not_eq_true] at hg
            obtain ⟨⟨hs, hu⟩, hc⟩ := hg
            obtain ⟨parents, last, hsplit, hsplitLast⟩ := splitLast_splitOn hp hc
            rw [hsplitLast] at hf hl
            cases hl
            exact ⟨parents, name, here, by rw [hsplit], hf, hd, hs, hu, h⟩
      · simp [hd] at h

/-- A path that can be created can be created later on, if a file stands at its end then or
nothing. -/
theorem create_of_extends (h : d.create truncating path = .ok (p, d')) {e : Disk}
    (he : e.Extends d) (hn : e.node? p = none ∨ ∃ c, e.node? p = some (.file c))
    (truncating' : Bool) : ∃ e', e.create truncating' path = .ok (p, e') := by
  rw [create] at h ⊢
  rcases hparts : names path.throughNul with error | parts <;> rw [hparts] at h
  · cases h
  dsimp only at h ⊢
  rcases hf : d.followAll (d.start path.throughNul) (splitLast parts).1 with error | here <;>
    rw [hf] at h
  · cases h
  rw [he.start, he.followAll hf]
  dsimp only at h ⊢
  rw [he.isDirectory]
  split at h
  · cases h
  next hd =>
  rw [if_neg hd]
  rcases hlast : (splitLast parts).2 with _ | name <;> rw [hlast] at h
  · cases h
  dsimp only at h ⊢
  split at h
  · cases h
  next hs =>
  rw [if_neg hs]
  obtain ⟨hl, rfl, -, -⟩ := createIn_eq_ok h
  rw [createIn, if_neg (Nat.not_lt.2 hl)]
  rcases hn with hn | ⟨c, hn⟩ <;> rw [hn] <;> exact ⟨_, rfl⟩

/-- A creation that succeeds puts an empty file at its path or nothing anywhere, and no directory
stands at its path. -/
theorem put_of_create (h : d.create truncating path = .ok (p, d')) :
    d.isDirectory p = false ∧
      d' = if d.getsEmptyFile truncating p then d.put p (.file []) else d := by
  obtain ⟨_, _, _, -, -, -, -, -, hc⟩ := create_eq_ok h
  exact (createIn_eq_ok hc).2.2

/-- What a creation changes is that its path gets an empty file. -/
theorem node?_of_create_ne_iff (h : d.create truncating path = .ok (p, d')) (q : Path) :
    d'.node? q ≠ d.node? q ↔
      p = q ∧
        (d.node? q = none ∨ truncating = true ∧ ∃ c, c ≠ [] ∧ d.node? q = some (.file c)) := by
  obtain ⟨-, rfl⟩ := put_of_create h
  by_cases hq : p = q
  · subst hq
    rcases hn : d.node? p with _ | ⟨c⟩ | _ | _ | _
    · simp [getsEmptyFile, hn]
    · cases truncating <;> simp [getsEmptyFile, hn, eq_comm]
    all_goals simp [getsEmptyFile, hn]
  · split <;> simp [hq]

/-- Of a file that was created so that it loses its content nothing is left. -/
theorem eq_nil_of_create_truncating {c : Text} (h : d.create true path = .ok (p, d'))
    (hc : d'.node? p = some (.file c)) : c = [] := by
  obtain ⟨-, rfl⟩ := put_of_create h
  split at hc
  · simpa [eq_comm] using hc
  · next hg => simp [getsEmptyFile, hc] at hg

theorem extends_of_create (h : d.create truncating path = .ok (p, d')) : d'.Extends d := by
  obtain ⟨hp, rfl⟩ := put_of_create h
  split
  · exact .put hp (by simp)
  · exact .refl d

/-- Something stands at the path of a creation that succeeds. -/
theorem isSome_of_create (h : d.create truncating path = .ok (p, d')) :
    (d'.node? p).isSome = true := by
  obtain ⟨-, rfl⟩ := put_of_create h
  split
  · rw [node?_put, if_pos rfl]
    rfl
  · next hg =>
    rcases hn : d.node? p with _ | node
    · simp [getsEmptyFile, hn] at hg
    · rfl

/-- A path leads to what was created by it. -/
theorem locate_of_create (h : d.create truncating path = .ok (p, d')) :
    d'.locate path = .ok p := by
  have hd' := extends_of_create h
  have hp := isSome_of_create h
  obtain ⟨parents, name, here, hn, hf, hd, hs, hu, hc⟩ := create_eq_ok h
  obtain ⟨hl, rfl, -, -⟩ := createIn_eq_ok hc
  rw [locate, hn]
  dsimp only
  rw [hd'.start, followAll_append (hd'.followAll hf), followAll,
    follow_eq_ok ((hd'.isDirectory here).trans hd) hl hs hu hp]
  rfl

end Disk

end ScriptBase
