import ScriptBase.Proofs.Dict.Contents

/-!
# Merging dictionaries

An update answers for each key what the right dictionary has, or else what the left one has. Since
dictionaries are the same exactly if they answer the same for each key, what holds of this choice
holds of updates: they are associative and idempotent, the empty dictionary changes nothing on
either side, and two dictionaries can be exchanged if they agree where both have a value. The
entries of the right dictionary can be gone through in any order, as none of its keys comes twice.

## Main definitions

* `ScriptBase.Dict.commonKeys`: the keys for which two dictionaries have values.
* `ScriptBase.Dict.Agree`: two dictionaries have the same values for these.

## Main results

* `ScriptBase.Dict.same_update_comm_iff`: dictionaries that can be exchanged in an update.
* `ScriptBase.Dict.size_update_add`: how many keys have a value after an update.
* `ScriptBase.Dict.same_insertAll_update`: the order of the entries does not matter.
* `ScriptBase.Dict.update_laws`: the laws of updates.
-/

namespace ScriptBase

variable {κ ν : Type} [DecidableEq κ]

/-- A list of entries answers what the map is that it lists. -/
theorem Entries.Lists.get?_eq {es : Entries κ ν} {f : κ → Option ν} (h : es.Lists f) :
    es.get? = f := by
  ext1 key
  refine Option.ext fun value => ?_
  rw [← h.mem_iff, mem_iff_get?_eq_some h.nodup]

namespace Dict

variable (d e f : Dict κ ν)

/-- The keys for which two dictionaries have values. -/
def commonKeys : Set κ := {key | d.get? key ≠ none ∧ e.get? key ≠ none}

/-- Two dictionaries have the same values for the keys for which both have some. -/
def Agree : Prop := ∀ key ∈ d.commonKeys e, d.get? key = e.get? key

theorem finite_commonKeys : (d.commonKeys e).Finite := d.finite_keys.subset fun _ h => h.1

/-- After an update as many keys have a value as before in both, those counted once that had one in
both. -/
theorem size_update_add : (d.update e).size + (d.commonKeys e).ncard = d.size + e.size := by
  have hunion : {key | (d.update e).get? key ≠ none} =
      {key | d.get? key ≠ none} ∪ {key | e.get? key ≠ none} := by
    ext key
    simp only [Set.mem_union, Set.mem_ofPred_eq, get?_update, ne_eq, Option.or_eq_none_iff]
    tauto
  have hinter : d.commonKeys e = {key | d.get? key ≠ none} ∩ {key | e.get? key ≠ none} := rfl
  rw [size_eq_ncard, size_eq_ncard d, size_eq_ncard e, hunion, hinter,
    Set.ncard_union_add_ncard_inter _ _ d.finite_keys e.finite_keys]

section Same

variable [DecidableEq ν] {d e f}

/-- Being the same is an equivalence. -/
theorem same_equivalence : Equivalence fun d e : Dict κ ν => d.same e = true := by
  simp only [same_eq_true_iff]
  exact ⟨fun _ => rfl, Eq.symm, Eq.trans⟩

/-- Updates of dictionaries that are the same with dictionaries that are the same are the same. -/
theorem same_update_update {d' e' : Dict κ ν} (hd : d.same d' = true) (he : e.same e' = true) :
    (d.update e).same (d'.update e') = true := by
  rw [same_eq_true_iff] at hd he ⊢
  ext1 key
  rw [get?_update, get?_update, hd, he]

variable (d e f)

theorem same_update_assoc : ((d.update e).update f).same (d.update (e.update f)) = true := by
  refine same_eq_true_iff.2 (funext fun key => ?_)
  simp only [get?_update, Option.or_assoc]

theorem same_update_self : (d.update d).same d = true := by
  refine same_eq_true_iff.2 (funext fun key => ?_)
  rw [get?_update, Option.or_self]

theorem same_empty_update : (empty.update d).same d = true := by
  refine same_eq_true_iff.2 (funext fun key => ?_)
  rw [get?_update, get?_empty, Option.or_none]

theorem same_update_empty : (d.update empty).same d = true := by
  refine same_eq_true_iff.2 (funext fun key => ?_)
  rw [get?_update, get?_empty, Option.none_or]

/-- Updating a second time changes nothing. -/
theorem same_update_update_self : ((d.update e).update e).same (d.update e) = true :=
  same_equivalence.trans (same_update_assoc d e e)
    (same_update_update (same_equivalence.refl d) (same_update_self e))

/-- Dictionaries can be exchanged in an update exactly if they agree. -/
theorem same_update_comm_iff : (d.update e).same (e.update d) = true ↔ d.Agree e := by
  rw [same_eq_true_iff, funext_iff]
  refine forall_congr' fun key => ?_
  rw [get?_update, get?_update, commonKeys, Set.mem_ofPred_eq]
  cases d.get? key <;> cases e.get? key <;> simp [eq_comm]

/-- Whatever list of the entries of the right dictionary is gone through, the outcome is the
same. -/
theorem same_insertAll_update {es : Entries κ ν} (h : es.Lists e.get?) :
    (d.insertAll es).same (d.update e) = true := by
  refine same_eq_true_iff.2 (funext fun key => ?_)
  rw [get?_insertAll_of_nodup d h.nodup, get?_update, h.get?_eq]

/-- Two dictionaries are the same exactly if every key has the same value in both, or none in
either, in whatever order they came by their entries, and an update answers what the right one has,
or else what the left one has. Up to being the same, updates are associative and idempotent, the
empty dictionary changes nothing on either side, and dictionaries can be exchanged exactly if they
agree on their common keys. After an update as many keys have a value as before in both
dictionaries, less the common ones. It does not matter in which order the entries of the right one
are gone through, and which of the dictionaries that are the same are taken. -/
theorem update_laws :
    (d.same e = true ↔ ∀ key, d.get? key = e.get? key) ∧
      (∀ key, (d.update e).get? key = (e.get? key).or (d.get? key)) ∧
      ((d.update e).update f).same (d.update (e.update f)) = true ∧
      ((d.update d).same d = true ∧ ((d.update e).update e).same (d.update e) = true) ∧
      ((empty.update d).same d = true ∧ (d.update empty).same d = true) ∧
      ((d.update e).same (e.update d) = true ↔ d.Agree e) ∧
      ((d.commonKeys e).Finite ∧
        (d.update e).size + (d.commonKeys e).ncard = d.size + e.size) ∧
      (∀ es : Entries κ ν, es.Perm e.entries → (d.insertAll es).same (d.update e) = true) ∧
      ∀ d' e' : Dict κ ν, d.same d' = true → e.same e' = true →
        (d.update e).same (d'.update e') = true :=
  ⟨same_eq_true_iff.trans funext_iff, get?_update d e, same_update_assoc d e f,
    ⟨same_update_self d, same_update_update_self d e⟩, ⟨same_empty_update d, same_update_empty d⟩,
    same_update_comm_iff d e, ⟨finite_commonKeys d e, size_update_add d e⟩,
    fun _ h => same_insertAll_update d e (e.lists_entries.perm h),
    fun _ _ => same_update_update⟩

end Same

/-- Two dictionaries with one common key, and other lists of their entries. -/
theorem update_laws_two :
    let d : Dict ℕ ℕ := ofFirst [(1, 10), (2, 20)]
    let e : Dict ℕ ℕ := ofFirst [(2, 20), (3, 30)]
    d.Agree e ∧ (d.insertAll [(3, 30), (2, 20)]).same (d.update e) = true ∧
      (d.update e).same ((ofFirst [(2, 20), (1, 10)]).update e) = true ∧
      3 + (d.commonKeys e).ncard = 4 := by
  intro d e
  obtain ⟨-, -, -, -, -, hcomm, ⟨-, hsize⟩, hlist, hsame⟩ := update_laws d e empty
  exact ⟨hcomm.1 (by decide), hlist _ (by decide), hsame _ _ (by decide) (by decide), hsize⟩

end Dict

end ScriptBase
