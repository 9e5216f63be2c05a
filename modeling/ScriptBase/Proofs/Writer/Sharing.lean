import Mathlib.Logic.Function.Basic
import ScriptBase.Proofs.Writer.Unfailing

/-!
# Writers that share a stream

Any number of writers, each with a capacity of its own, may write to one stream that takes all
bytes. They are used in any order, and each of them may be closed or dropped while the others go on.
When a writer hands on bytes depends on what it holds, so the bytes do not come to the stream in the
order of the calls. But each byte that comes is of the writer that was used then. The bytes of one
writer come in their order, and what it holds is what is missing of the texts that were written
through it. A writer that ends hands on what it holds, and nothing of another.

## Main definitions

* `ScriptBase.WriterUse`: a call on a writer, or its being dropped.
* `ScriptBase.Writers`, `ScriptBase.Writers.perform`: writers on one stream, and a use of one.
* `ScriptBase.Writers.owned`: the bytes that come to the stream, each with its writer.
* `ScriptBase.Writers.writtenThrough`: the texts that are written through a writer.
* `ScriptBase.Writers.Account`: the account of all writers.

## Main results

* `ScriptBase.WriterUse.exists_taking`: what a use does to a writer and its stream.
* `ScriptBase.Writers.Account.perform`, `ScriptBase.Writers.Account.each`: every use keeps the
  account, and so does a row of uses.
* `ScriptBase.Writers.received_is_shuffle`: what comes to the stream.
-/

namespace ScriptBase

/-! ### Uses of a writer -/

/-- What happens to a writer: a call, or its end without its being closed. -/
inductive WriterUse where
  | call (c : WriterCall)
  | drop

namespace WriterUse

/-- The text that a use writes. -/
def text : WriterUse → Text
  | call c => c.text
  | drop => []

/-- Whether nothing can be written after a use. -/
def isEnd : WriterUse → Bool
  | call c => c.isClose
  | drop => true

/-- A use as an action on a writer with its stream and host. -/
def action : WriterUse → Action Writing Unit
  | call c => c.action
  | drop => Writing.drop

/-- What is left of a writer: nothing if it was dropped. -/
def leaves : WriterUse → Writer → Option Writer
  | call _, writer => some writer
  | drop, _ => none

theorem text_of_isEnd {use : WriterUse} (h : use.isEnd = true) : use.text = [] := by
  cases use with
  | call c =>
    obtain rfl := WriterCall.isClose_eq_true_iff.1 h
    rfl
  | drop => rfl

end WriterUse

namespace Writer

/-- The bytes that a writer holds, if it is there. -/
def held (writer : Option Writer) : Text := (writer.map pending).getD []

/-- Whether a writer is there and open. -/
def isOpen : Option Writer → Bool
  | some writer => !writer.closed
  | none => false

end Writer

namespace WriterUse

open Writing

variable {data : Text} {flushes : Nat} {w : Writing}

/-- An open writer on a stream that takes all bytes accounts for what it holds. -/
theorem accounted_of_taking (hs : w.stream = .taking data flushes) :
    Accounted (.taking data) w.writer.pending w :=
  ⟨[], w.writer.pending, rfl, ⟨flushes, by rw [hs, List.append_nil]⟩, fun _ => rfl⟩

/-- Nothing happens to a writer that is closed, unless it is dropped. -/
theorem snd_outcome_action_of_closed (use : WriterUse) (hc : w.writer.closed = true) :
    (use.action.outcome w).2 = w := by
  cases use with
  | call c => exact congrArg Prod.snd (c.outcome_action_of_closed hc)
  | drop => exact dropped_of_closed hc

/-- A writer that was used is open if it was open and the use does not end it. -/
theorem isOpen_leaves (use : WriterUse) (w : Writing) :
    Writer.isOpen (use.leaves (use.action.outcome w).2.writer) =
      (!w.writer.closed && !use.isEnd) := by
  cases use with
  | call c => exact (congrArg _ (c.closed_outcome_action w)).trans (Bool.not_or _ _)
  | drop => exact (Bool.and_false _).symm

/-- A writer that has ended holds nothing. -/
theorem held_leaves (use : WriterUse) (hw : w.writer.closed = true → w.writer.pending = [])
    (h : Writer.isOpen (use.leaves (use.action.outcome w).2.writer) = false) :
    Writer.held (use.leaves (use.action.outcome w).2.writer) = [] := by
  cases use with
  | drop => rfl
  | call c =>
    change (c.action.outcome w).2.writer.pending = []
    cases hc : w.writer.closed with
    | true =>
      rw [c.outcome_action_of_closed hc]
      exact hw hc
    | false =>
      rw [isOpen_leaves, hc] at h
      obtain rfl := WriterCall.isClose_eq_true_iff.1 (Bool.not_eq_eq_eq_not.1 h)
      exact pending_close hc

/-- A use of a writer on a stream that takes all bytes: what comes to the stream and what the writer
holds then make up what it held and the text that is written. -/
theorem exists_taking (use : WriterUse) (hs : w.stream = .taking data flushes)
    (hw : w.writer.closed = true → w.writer.pending = []) :
    let left := (use.action.outcome w).2
    ∃ came flushes', left.stream = .taking (data ++ came) flushes' ∧
      came ++ Writer.held (use.leaves left.writer) =
        w.writer.pending ++ if w.writer.closed then [] else use.text := by
  cases hc : w.writer.closed with
  | true =>
    have hheld := use.held_leaves hw (by rw [isOpen_leaves, hc]; rfl)
    rw [use.snd_outcome_action_of_closed hc] at hheld ⊢
    exact ⟨[], flushes, by rw [hs, List.append_nil], by rw [hheld, hw hc]; rfl⟩
  | false =>
    have ha := accounted_of_taking hs
    cases use with
    | call c =>
      obtain ⟨given, rest, ht, ⟨flushes', hs'⟩, hr⟩ := c.accounted_action hc ha
      obtain rfl := hr (congrArg OutStream.failed hs')
      exact ⟨given, flushes', hs', ht⟩
    | drop =>
      obtain ⟨given, rest, ht, ⟨flushes', hs'⟩, hr⟩ := holds_dropped ha
      obtain rfl := hr hc (congrArg OutStream.failed hs')
      exact ⟨given, flushes', hs', ht.trans (List.append_nil _).symm⟩

end WriterUse

/-! ### Writers on one stream -/

/-- Writers on one stream. -/
structure Writers (ι : Type) where
  /-- The writers that have not been dropped. -/
  writers : ι → Option Writer
  stream : OutStream
  host : Host

namespace Writers

variable {ι : Type} [DecidableEq ι]

/-- Writers that have just been made on a stream, each with a capacity of its own. -/
def start (names : ι → Text) (capacity : ι → Nat) (stream : OutStream) (host : Host) :
    Writers ι :=
  ⟨fun i => some (.opened (names i) (capacity i)), stream, host⟩

/-- Uses one of the writers. -/
def perform (use : ι × WriterUse) : Action (Writers ι) Unit := do
  match (← get).writers use.1 with
  | none => throw .nothingNamed
  | some writer =>
    Action.on (fun s => ⟨writer, s.stream, s.host⟩)
      (fun w s => ⟨Function.update s.writers use.1 (use.2.leaves w.writer), w.stream, w.host⟩)
      use.2.action

/-- The bytes that come to the stream as a writer is used: they are of this writer. -/
def gained (use : ι × WriterUse) (s : Writers ι) : List (ι × UInt8) :=
  (((perform use).outcome s).2.stream.received.drop s.stream.received.length).map (use.1, ·)

/-- The bytes that come to the stream in a row of uses, each with its writer. -/
def owned : List (ι × WriterUse) → Writers ι → List (ι × UInt8)
  | [], _ => []
  | use :: uses, s => gained use s ++ owned uses ((perform use).outcome s).2

/-- The bytes of one writer. -/
def bytesOf (i : ι) (bytes : List (ι × UInt8)) : Text :=
  (bytes.filter fun b => b.1 = i).map Prod.snd

/-- The texts that are written through a writer, one after another, up to its end. -/
def writtenThrough (i : ι) (uses : List (ι × WriterUse)) : Text :=
  (((uses.filter fun use => use.1 = i).map Prod.snd).takeWhile fun use => !use.isEnd).flatMap
    WriterUse.text

/-- The texts that a use writes, and what is written after it. -/
theorem writtenThrough_cons (i : ι) (use : ι × WriterUse) (uses : List (ι × WriterUse)) :
    writtenThrough i (use :: uses) =
      if use.1 = i then use.2.text ++ if use.2.isEnd then [] else writtenThrough i uses
      else writtenThrough i uses := by
  by_cases hi : use.1 = i
  · cases he : use.2.isEnd <;> simp [writtenThrough, hi, he, WriterUse.text_of_isEnd]
  · simp [writtenThrough, hi]

theorem bytesOf_append (i : ι) (bytes bytes' : List (ι × UInt8)) :
    bytesOf i (bytes ++ bytes') = bytesOf i bytes ++ bytesOf i bytes' := by
  rw [bytesOf, List.filter_append, List.map_append]
  rfl

theorem bytesOf_map (i j : ι) (s : Text) :
    bytesOf i (s.map (j, ·)) = if j = i then s else [] := by
  rw [bytesOf, List.filter_map, List.map_map]
  by_cases h : j = i <;> simp [h, Function.comp_def]

/-! ### One use -/

theorem outcome_perform (use : ι × WriterUse) (s : Writers ι) :
    (perform use).outcome s =
      match s.writers use.1 with
      | none => (.error .nothingNamed, s)
      | some writer =>
        let left := use.2.action.outcome ⟨writer, s.stream, s.host⟩
        (left.1, ⟨Function.update s.writers use.1 (use.2.leaves left.2.writer), left.2.stream,
          left.2.host⟩) := by
  rw [perform, Action.outcome_bind, Action.outcome_get]
  dsimp only
  cases s.writers use.1 with
  | none => rfl
  | some writer => rfl

/-- What a use of a writer does: bytes come to the stream, and these and what the writer holds then
make up what it held and the text that is written. If the writer is not open then, it holds nothing.
All other writers stay as they are. -/
structure Used (use : ι × WriterUse) (came : Text) (s s' : Writers ι) : Prop where
  stream : ∃ flushes, s'.stream = .taking (s.stream.received ++ came) flushes
  account : came ++ Writer.held (s'.writers use.1) =
    Writer.held (s.writers use.1) ++ if Writer.isOpen (s.writers use.1) then use.2.text else []
  isOpen : Writer.isOpen (s'.writers use.1) =
    (Writer.isOpen (s.writers use.1) && !use.2.isEnd)
  held_of_ended : Writer.isOpen (s'.writers use.1) = false → Writer.held (s'.writers use.1) = []
  others : ∀ j, j ≠ use.1 → s'.writers j = s.writers j

/-- A use of one of the writers on a stream that takes all bytes. -/
theorem exists_used (use : ι × WriterUse) {s : Writers ι} {data : Text} {flushes : Nat}
    (hs : s.stream = .taking data flushes)
    (he : Writer.isOpen (s.writers use.1) = false → Writer.held (s.writers use.1) = []) :
    ∃ came, Used use came s ((perform use).outcome s).2 := by
  obtain ⟨i, use⟩ := use
  have hreceived : s.stream.received = data := by
    rw [hs]
    rfl
  rw [outcome_perform]
  dsimp only at he ⊢
  cases hi : s.writers i with
  | none =>
    refine ⟨[], ⟨flushes, ?_⟩, ?_, ?_, ?_, fun _ _ => rfl⟩
    · rw [hreceived, hs, List.append_nil]
    all_goals simp [hi, Writer.held, Writer.isOpen]
  | some writer =>
    rw [hi] at he
    have hw (hc : writer.closed = true) : writer.pending = [] :=
      he (by rw [Writer.isOpen, hc]; rfl)
    obtain ⟨came, flushes', hs', ha⟩ :=
      use.exists_taking (w := ⟨writer, s.stream, s.host⟩) hs hw
    refine ⟨came, ⟨flushes', hreceived ▸ hs'⟩, ?_, ?_, ?_, fun j hj => ?_⟩ <;> dsimp only
    · rw [Function.update_self, hi, ha]
      cases hc : writer.closed <;> simp [Writer.isOpen, Writer.held, hc]
    · rw [Function.update_self, hi]
      exact use.isOpen_leaves _
    · rw [Function.update_self]
      exact use.held_leaves hw
    · exact Function.update_of_ne hj _ _

/-- The bytes that come to the stream are of the writer that is used. -/
theorem gained_eq {use : ι × WriterUse} {s : Writers ι} {came : Text}
    (h : Used use came s ((perform use).outcome s).2) : gained use s = came.map (use.1, ·) := by
  obtain ⟨flushes, hs⟩ := h.stream
  have hr : ((perform use).outcome s).2.stream.received = s.stream.received ++ came := by
    rw [hs]
    rfl
  rw [gained, hr, List.drop_left]

/-! ### The account -/

/-- The account of writers on a stream: which bytes have come to it behind those that it had, and
which texts were written through each writer. -/
structure Account (before : Text) (bytes : List (ι × UInt8)) (texts : ι → Text) (s : Writers ι) :
    Prop where
  stream : ∃ flushes, s.stream = .taking (before ++ bytes.map Prod.snd) flushes
  account : ∀ i, bytesOf i bytes ++ Writer.held (s.writers i) = texts i
  held_of_ended : ∀ i, Writer.isOpen (s.writers i) = false → Writer.held (s.writers i) = []

variable {before : Text} {bytes : List (ι × UInt8)} {texts : ι → Text} {s : Writers ι}

/-- Writers that have just been made hold nothing, and nothing was written through them. -/
theorem account_start (before : Text) (flushes : Nat) (names : ι → Text) (capacity : ι → Nat)
    (host : Host) :
    Account before [] (fun _ => []) (start names capacity (.taking before flushes) host) where
  stream := ⟨flushes, by rw [List.map_nil, List.append_nil]; rfl⟩
  account _ := rfl
  held_of_ended _ _ := rfl

/-- Every use keeps the account of all writers, with the text that it writes if its writer is
open. -/
theorem Account.perform (h : Account before bytes texts s) (use : ι × WriterUse) :
    Account before (bytes ++ gained use s)
      (Function.update texts use.1
        (texts use.1 ++ if Writer.isOpen (s.writers use.1) then use.2.text else []))
      ((perform use).outcome s).2 := by
  obtain ⟨flushes, hs⟩ := h.stream
  obtain ⟨came, hu⟩ := exists_used use hs (h.held_of_ended use.1)
  rw [gained_eq hu]
  refine ⟨?_, fun i => ?_, fun i ho => ?_⟩
  · obtain ⟨flushes', hs'⟩ := hu.stream
    refine ⟨flushes', ?_⟩
    rw [hs', hs, List.map_append, List.map_map, ← List.append_assoc]
    simp [OutStream.taking, OutStream.received, Function.comp_def]
  · rw [bytesOf_append, bytesOf_map]
    by_cases hi : i = use.1
    · subst hi
      rw [if_pos rfl, Function.update_self, List.append_assoc, hu.account, ← List.append_assoc,
        h.account]
    · rw [if_neg (Ne.symm hi), List.append_nil, Function.update_of_ne hi, hu.others i hi, h.account]
  · by_cases hi : i = use.1
    · subst hi
      exact hu.held_of_ended ho
    · rw [hu.others i hi] at ho ⊢
      exact h.held_of_ended i ho

theorem Account.congr {texts' : ι → Text} (h : Account before bytes texts s)
    (he : ∀ i, texts i = texts' i) : Account before bytes texts' s :=
  (funext he : texts = texts') ▸ h

/-- A row of uses keeps it, with the texts that are written through each writer up to its end. -/
theorem Account.each (h : Account before bytes texts s) (uses : List (ι × WriterUse)) :
    Account before (bytes ++ owned uses s)
      (fun i => texts i ++ if Writer.isOpen (s.writers i) then writtenThrough i uses else [])
      (Action.each Writers.perform uses s).2 := by
  induction uses generalizing bytes texts s with
  | nil => simpa [owned, Action.each, writtenThrough] using h
  | cons use uses ih =>
    obtain ⟨flushes, hs⟩ := h.stream
    obtain ⟨came, hu⟩ := exists_used use hs (h.held_of_ended use.1)
    have hrest := ih (h.perform use)
    rw [List.append_assoc] at hrest
    refine hrest.congr fun i => ?_
    rw [writtenThrough_cons]
    by_cases hi : i = use.1
    · subst hi
      rw [Function.update_self, hu.isOpen, if_pos rfl]
      cases Writer.isOpen (s.writers use.1) <;> cases use.2.isEnd <;> simp
    · rw [Function.update_of_ne hi, hu.others i hi, if_neg (Ne.symm hi)]

/-- Whatever is asked of writers that share a stream, and in whatever order: what comes to the
stream is a shuffle of their bytes. Those of one writer and what it holds make up the texts that
were written through it. Closing or dropping a writer hands on what it holds and leaves it with
nothing, and the other writers stay as they are. -/
theorem received_is_shuffle (before : Text) (flushes : Nat) (names : ι → Text)
    (capacity : ι → Nat) (host : Host) (uses : List (ι × WriterUse)) :
    let s := start names capacity (.taking before flushes) host
    let left := (Action.each perform uses s).2
    left.stream.failed = false ∧
      left.stream.received = before ++ (owned uses s).map Prod.snd ∧
      (∀ i, bytesOf i (owned uses s) ++ Writer.held (left.writers i) = writtenThrough i uses) ∧
      ∀ i ending, ending.isEnd = true →
        let ended := ((perform (i, ending)).outcome left).2
        ended.stream.received = left.stream.received ++ Writer.held (left.writers i) ∧
          Writer.held (ended.writers i) = [] ∧ ∀ j, j ≠ i → ended.writers j = left.writers j := by
  intro s left
  have h := (account_start before flushes names capacity host).each uses
  obtain ⟨flushes', hs⟩ := h.stream
  refine ⟨by rw [hs]; rfl, by rw [hs]; rfl, h.account, fun i ending he => ?_⟩
  obtain ⟨came, hu⟩ := exists_used (i, ending) hs (h.held_of_ended i)
  have hheld := hu.held_of_ended (by rw [hu.isOpen, he, Bool.not_true, Bool.and_false])
  have hcame := hu.account
  rw [hheld, WriterUse.text_of_isEnd he, ite_self, List.append_nil, List.append_nil] at hcame
  obtain ⟨_, hs'⟩ := hu.stream
  refine ⟨?_, hheld, hu.others⟩
  rw [hs', ← hcame]
  rfl

/-- Two writers that hold up to two and up to three bytes: the one that writes first comes
second. -/
example :
    (owned
      [(true, .call (.write [1])), (false, .call (.write [2, 3, 4])), (true, .call (.write [5])),
        (false, .call (.write [6])), (true, .drop), (false, .call .close)]
      (start (fun _ => []) (fun first => if first then 2 else 3) (.taking [] 0)
        (.start ⟨none, none⟩ .fresh none)) : List (Bool × UInt8)) =
      [(false, 2), (false, 3), (false, 4), (true, 1), (true, 5), (false, 6)] := by
  rfl

end Writers

end ScriptBase
