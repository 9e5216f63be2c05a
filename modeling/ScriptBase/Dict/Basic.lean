import ScriptBase.Fault

/-!
# Dictionaries

A dictionary maps finitely many keys to values. It is kept as a list of entries, one for each key,
in the order in which the keys first came; no operation shows that order, so a dictionary is known
by what it answers for each key (`ScriptBase.Dict.get?`).

## Main definitions

* `ScriptBase.Entries`: lists of entries, their keys and look-up.
* `ScriptBase.Dict`: dictionaries.
* `ScriptBase.Dict.insert`, `ScriptBase.Dict.update`, `ScriptBase.Dict.touch`: assignment, merging,
  and reading that inserts what is missing.
* `ScriptBase.Dict.ofFirst`, `ScriptBase.Dict.ofLast`: dictionaries of lists in which keys may
  repeat.
* `ScriptBase.Dict.same`: whether two dictionaries map the same keys to the same values.

## Main results

* `ScriptBase.Dict.get?_insert`, `ScriptBase.Dict.get?_touch`, `ScriptBase.Dict.get?_update`: what
  the operations do to look-up.
-/

namespace ScriptBase

/-- Keys with their values. -/
abbrev Entries (κ ν : Type) := List (κ × ν)

namespace Entries

variable {κ ν : Type} [DecidableEq κ]

/-- The keys of a list of entries. -/
def keys (es : Entries κ ν) : List κ := es.map Prod.fst

/-- The value of the first entry with a key. -/
def get? : Entries κ ν → κ → Option ν
  | [], _ => none
  | (k, v) :: es, key => if k = key then some v else get? es key

/-- The entries with `value` in the first entry of `key`, in a new entry at the end if there is
none. -/
def put : Entries κ ν → κ → ν → Entries κ ν
  | [], key, value => [(key, value)]
  | (k, v) :: es, key, value =>
    if k = key then (k, value) :: es else (k, v) :: put es key value

theorem get?_put (es : Entries κ ν) (key k : κ) (value : ν) :
    (put es key value).get? k = if key = k then some value else es.get? k := by
  induction es with
  | nil => simp [put, get?]
  | cons e es ih =>
    obtain ⟨k', v⟩ := e
    by_cases h : k' = key
    · subst h
      by_cases hk : k' = k <;> simp [put, get?, hk]
    · by_cases hk : k' = k
      · subst hk
        simp [put, get?, h, Ne.symm h]
      · simp [put, get?, h, hk, ih]

theorem get?_eq_none_iff {es : Entries κ ν} {key : κ} : es.get? key = none ↔ key ∉ es.keys := by
  induction es with
  | nil => simp [get?, keys]
  | cons e es ih =>
    obtain ⟨k, v⟩ := e
    by_cases h : k = key
    · simp [get?, keys, h]
    · rw [get?, if_neg h, ih]
      simp [keys, Ne.symm h]

theorem mem_keys_put {es : Entries κ ν} {key k : κ} {value : ν} :
    k ∈ (put es key value).keys ↔ k = key ∨ k ∈ es.keys := by
  induction es with
  | nil => simp [put, keys]
  | cons e es ih =>
    obtain ⟨k', v⟩ := e
    simp only [keys] at ih
    by_cases h : k' = key
    · subst h
      simp [put, keys]
    · simp only [put, if_neg h, keys, List.map_cons, List.mem_cons, ih]
      constructor
      · rintro (h | h | h) <;> simp [h]
      · rintro (h | h | h) <;> simp [h]

theorem nodup_keys_put {es : Entries κ ν} (h : es.keys.Nodup) (key : κ) (value : ν) :
    (put es key value).keys.Nodup := by
  induction es with
  | nil => simp [put, keys]
  | cons e es ih =>
    obtain ⟨k, v⟩ := e
    simp only [keys, List.map_cons, List.nodup_cons] at h
    by_cases hk : k = key
    · simpa [put, keys, hk] using h
    · rw [put, if_neg hk]
      simp only [keys, List.map_cons, List.nodup_cons]
      refine ⟨fun hc => ?_, ih h.2⟩
      rcases mem_keys_put.1 hc with hc | hc
      · exact hk hc
      · exact h.1 hc

end Entries

/-- A finite map: entries with keys that are all different. -/
structure Dict (κ ν : Type) where
  entries : Entries κ ν
  nodup_keys : entries.keys.Nodup

namespace Dict

variable {κ ν : Type} [DecidableEq κ]

/-- The dictionary without keys. -/
def empty : Dict κ ν := ⟨[], List.nodup_nil⟩

/-- The value of a key, if it has one. -/
def get? (d : Dict κ ν) (key : κ) : Option ν := d.entries.get? key

/-- The value of a key, and `fallback` for a key without a value. -/
def get (d : Dict κ ν) (key : κ) (fallback : ν) : ν := (d.get? key).getD fallback

/-- The value of a key that has to have one. -/
def lookup (d : Dict κ ν) (key : κ) : Except Fault ν :=
  match d.get? key with
  | some value => .ok value
  | none => .error .missingKey

/-- Whether a key has a value. -/
def contains (d : Dict κ ν) (key : κ) : Bool := (d.get? key).isSome

/-- How many keys have a value. -/
def size (d : Dict κ ν) : Nat := d.entries.length

/-- Whether no key has a value. -/
def isEmpty (d : Dict κ ν) : Bool := d.entries.isEmpty

/-- The dictionary in which `key` has the value `value`. -/
def insert (d : Dict κ ν) (key : κ) (value : ν) : Dict κ ν :=
  ⟨d.entries.put key value, Entries.nodup_keys_put d.nodup_keys key value⟩

/-- The dictionary in which `key` has the value `value`, unless it had one before. -/
def insertNew (d : Dict κ ν) (key : κ) (value : ν) : Dict κ ν :=
  if d.contains key then d else d.insert key value

/-- The value of a key, which is inserted with `value` if it has none. -/
def touch (d : Dict κ ν) (key : κ) (value : ν) : ν × Dict κ ν :=
  (d.get key value, d.insertNew key value)

/-- The dictionary without a key. -/
def erase (d : Dict κ ν) (key : κ) : Dict κ ν :=
  ⟨d.entries.filter fun e => e.1 ≠ key, by
    have h := d.nodup_keys
    unfold Entries.keys at h ⊢
    exact h.sublist (List.filter_sublist.map Prod.fst)⟩

/-- The dictionary with the given assignments made in their order. -/
def insertAll (d : Dict κ ν) (es : Entries κ ν) : Dict κ ν :=
  es.foldl (fun d e => d.insert e.1 e.2) d

/-- The dictionary in which the keys of `other` have the values that they have there. -/
def update (d other : Dict κ ν) : Dict κ ν := d.insertAll other.entries

/-- The dictionary of a list of entries; of those with one key, the last counts. -/
def ofLast (es : Entries κ ν) : Dict κ ν := empty.insertAll es

/-- The dictionary of a list of entries; of those with one key, the first counts. -/
def ofFirst (es : Entries κ ν) : Dict κ ν := es.foldl (fun d e => d.insertNew e.1 e.2) empty

/-- Whether two dictionaries map the same keys to the same values. -/
def same [DecidableEq ν] (d other : Dict κ ν) : Bool :=
  d.size == other.size && d.entries.all fun e => other.get? e.1 == some e.2

/-! ### What the operations do to look-up -/

@[simp] theorem get?_empty (key : κ) : (empty : Dict κ ν).get? key = none := rfl

@[simp] theorem get?_insert (d : Dict κ ν) (key k : κ) (value : ν) :
    (d.insert key value).get? k = if key = k then some value else d.get? k :=
  Entries.get?_put d.entries key k value

/-- Dictionaries that agree along a function of values agree after an insertion. -/
theorem map_get?_insert {μ : Type} {f : ν → μ} {d : Dict κ ν} {d' : Dict κ μ}
    (h : ∀ k, (d.get? k).map f = d'.get? k) (key : κ) (value : ν) (k : κ) :
    ((d.insert key value).get? k).map f = (d'.insert key (f value)).get? k := by
  rw [get?_insert, get?_insert, ← h]
  split <;> rfl

theorem get?_insertNew (d : Dict κ ν) (key k : κ) (value : ν) :
    (d.insertNew key value).get? k = if key = k then some (d.get key value) else d.get? k := by
  unfold insertNew contains get
  cases h : d.get? key with
  | none => simp
  | some v =>
    by_cases hk : key = k
    · subst hk
      simp [h]
    · simp [hk]

theorem get?_touch (d : Dict κ ν) (key k : κ) (value : ν) :
    (d.touch key value).2.get? k = if key = k then some (d.get key value) else d.get? k :=
  get?_insertNew d key k value

theorem get?_insertAll_of_nodup (d : Dict κ ν) {es : Entries κ ν} (h : es.keys.Nodup) (k : κ) :
    (d.insertAll es).get? k = (es.get? k).or (d.get? k) := by
  induction es generalizing d with
  | nil => simp [insertAll, Entries.get?]
  | cons e es ih =>
    obtain ⟨key, value⟩ := e
    simp only [Entries.keys, List.map_cons, List.nodup_cons] at h
    rw [show d.insertAll ((key, value) :: es) = (d.insert key value).insertAll es from rfl,
      ih _ h.2, get?_insert, Entries.get?]
    by_cases hk : key = k
    · subst hk
      have : Entries.get? es key = none := Entries.get?_eq_none_iff.2 h.1
      simp [this]
    · simp [hk]

/-- After an update a key has the value of the right dictionary, or else that of the left one. -/
theorem get?_update (d other : Dict κ ν) (k : κ) :
    (d.update other).get? k = (other.get? k).or (d.get? k) :=
  get?_insertAll_of_nodup d other.nodup_keys k

@[simp] theorem lookup_eq_ok_iff {d : Dict κ ν} {key : κ} {value : ν} :
    d.lookup key = .ok value ↔ d.get? key = some value := by
  unfold lookup
  cases d.get? key <;> simp

end Dict

end ScriptBase
