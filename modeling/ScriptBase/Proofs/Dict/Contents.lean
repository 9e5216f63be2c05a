import Mathlib.Data.Set.Card
import Mathlib.Logic.Function.Basic
import ScriptBase.Dict.Basic

/-!
# Dictionaries as finite maps

A dictionary is known by what it answers for each key, a map from keys to optional values. Its
entries list this map: each key that has a value stands in one entry, with its value. So the size of
a dictionary is the number of keys that have a value, and two dictionaries are the same exactly if
they are the same map, whatever the order of their entries.

## Main definitions

* `ScriptBase.Entries.Lists`: a list of entries lists a map.

## Main results

* `ScriptBase.Dict.lists_entries`: the entries of a dictionary list what it maps.
* `ScriptBase.Dict.size_eq_ncard`: the size of a dictionary.
* `ScriptBase.Dict.same_eq_true_iff`: dictionaries that are the same.
* `ScriptBase.Dict.get?_ofFirst`: a dictionary that is made of entries with repeated keys.
-/

namespace ScriptBase

namespace Entries

variable {κ ν : Type} [DecidableEq κ] {es : Entries κ ν}

/-- A list of entries *lists* a map if it holds each key once, with the value that it is mapped to,
and no other key. -/
structure Lists (es : Entries κ ν) (f : κ → Option ν) : Prop where
  nodup : es.keys.Nodup
  mem_iff : ∀ key value, (key, value) ∈ es ↔ f key = some value

theorem mem_iff_get?_eq_some (h : es.keys.Nodup) {key : κ} {value : ν} :
    (key, value) ∈ es ↔ es.get? key = some value := by
  induction es with
  | nil => simp [get?]
  | cons e es ih =>
    obtain ⟨k, v⟩ := e
    simp only [keys, List.map_cons, List.nodup_cons] at h
    rw [List.mem_cons, get?]
    by_cases hk : k = key
    · -- no later entry has the key
      subst hk
      have hn : (k, value) ∉ es := fun hm => h.1 (List.mem_map_of_mem hm)
      simp [hn, eq_comm]
    · rw [if_neg hk, ih h.2]
      simp [Ne.symm hk]

omit [DecidableEq κ] in
theorem Lists.perm {es' : Entries κ ν} {f : κ → Option ν} (h : es.Lists f) (hp : es'.Perm es) :
    es'.Lists f where
  nodup := (hp.map Prod.fst).nodup_iff.2 h.nodup
  mem_iff key value := by rw [hp.mem_iff, h.mem_iff]

end Entries

namespace Dict

variable {κ ν : Type} [DecidableEq κ] {d : Dict κ ν}

/-- The entries of a dictionary list what it maps. -/
theorem lists_entries (d : Dict κ ν) : d.entries.Lists d.get? :=
  ⟨d.nodup_keys, fun _ _ => Entries.mem_iff_get?_eq_some d.nodup_keys⟩

theorem mem_entries_iff {key : κ} {value : ν} :
    (key, value) ∈ d.entries ↔ d.get? key = some value :=
  d.lists_entries.mem_iff key value

/-! ### The keys that have a value -/

/-- The keys of a dictionary are those that it has a value for. -/
theorem coe_toFinset_keys (d : Dict κ ν) :
    (d.entries.keys.toFinset : Set κ) = {key | d.get? key ≠ none} := by
  ext key
  rw [Finset.mem_coe, List.mem_toFinset, Set.mem_ofPred_eq, ne_eq, get?,
    Entries.get?_eq_none_iff, not_not]

theorem card_toFinset_keys (d : Dict κ ν) : d.entries.keys.toFinset.card = d.size := by
  rw [List.toFinset_card_of_nodup d.nodup_keys, Entries.keys, List.length_map, size]

/-- A dictionary has values for finitely many keys. -/
theorem finite_keys (d : Dict κ ν) : {key | d.get? key ≠ none}.Finite := by
  rw [← coe_toFinset_keys]
  exact Finset.finite_toSet _

/-- The size of a dictionary is the number of keys that it has a value for. -/
theorem size_eq_ncard (d : Dict κ ν) : d.size = {key | d.get? key ≠ none}.ncard := by
  rw [← coe_toFinset_keys, Set.ncard_coe_finset, card_toFinset_keys]

theorem isEmpty_eq_true_iff : d.isEmpty = true ↔ ∀ key, d.get? key = none := by
  rw [isEmpty, List.isEmpty_iff]
  constructor
  · intro h key
    rw [get?, h]
    rfl
  · intro h
    refine List.eq_nil_iff_forall_not_mem.2 fun e he => ?_
    have hs := mem_entries_iff.1 he
    rw [h e.1] at hs
    cases hs

/-! ### Dictionaries that are the same -/

/-- Two dictionaries are the same exactly if they map each key to the same value. -/
theorem same_eq_true_iff [DecidableEq ν] {other : Dict κ ν} :
    d.same other = true ↔ d.get? = other.get? := by
  rw [same, Bool.and_eq_true, beq_iff_eq, List.all_eq_true]
  constructor
  · rintro ⟨hsize, hall⟩
    have hsome {key : κ} {value : ν} (h : d.get? key = some value) :
        other.get? key = some value := by
      simpa using hall _ (mem_entries_iff.2 h)
    have hsub : d.entries.keys.toFinset ⊆ other.entries.keys.toFinset := by
      intro key hkey
      have hd : key ∈ {key | d.get? key ≠ none} := coe_toFinset_keys d ▸ hkey
      obtain ⟨value, hv⟩ := Option.ne_none_iff_exists'.1 hd
      have ho : key ∈ {key | other.get? key ≠ none} := by simp [hsome hv]
      rwa [← coe_toFinset_keys] at ho
    -- as many keys have a value in both, so no others have one in the second
    have heq : d.entries.keys.toFinset = other.entries.keys.toFinset :=
      Finset.eq_of_subset_of_card_le hsub (by rw [card_toFinset_keys, card_toFinset_keys, hsize])
    ext1 key
    cases hd : d.get? key with
    | some value => exact (hsome hd).symm
    | none =>
      have hn : key ∉ {key | other.get? key ≠ none} := by
        rw [← coe_toFinset_keys, ← heq, coe_toFinset_keys]
        simpa using hd
      rw [Set.mem_ofPred_eq, ne_eq, not_not] at hn
      exact hn.symm
  · intro h
    refine ⟨by rw [size_eq_ncard, size_eq_ncard, h], fun e he => ?_⟩
    rw [← h, mem_entries_iff.1 he]
    exact beq_self_eq_true _

/-! ### What the operations do to the map -/

theorem get?_insert_eq_update (d : Dict κ ν) (key : κ) (value : ν) :
    (d.insert key value).get? = Function.update d.get? key (some value) := by
  ext1 k
  rw [get?_insert, Function.update_apply]
  exact if_congr eq_comm rfl rfl

/-- Reading a key gives it the initial value unless it has one. -/
theorem get?_touch_eq_update (d : Dict κ ν) (key : κ) (value : ν) :
    (d.touch key value).2.get? = Function.update d.get? key (some ((d.get? key).getD value)) := by
  ext1 k
  rw [get?_touch, Function.update_apply, get]
  exact if_congr eq_comm rfl rfl

theorem get?_foldl_insertNew (d : Dict κ ν) (es : Entries κ ν) (k : κ) :
    (es.foldl (fun d e => d.insertNew e.1 e.2) d).get? k =
      (d.get? k).or ((es.find? fun e => e.1 = k).map Prod.snd) := by
  induction es generalizing d with
  | nil => simp
  | cons e es ih =>
    rw [List.foldl_cons, ih, get?_insertNew, List.find?_cons, get]
    by_cases hk : e.1 = k
    · subst hk
      cases d.get? e.1 <;> simp
    · simp [hk]

/-- Of entries with one key the first counts. -/
theorem get?_ofFirst (es : Entries κ ν) :
    (ofFirst es).get? = fun k => (es.find? fun e => e.1 = k).map Prod.snd := by
  ext1 k
  rw [ofFirst, get?_foldl_insertNew, get?_empty, Option.none_or]

end Dict

end ScriptBase
