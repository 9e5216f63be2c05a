import Mathlib.Logic.Basic
import ScriptBase.Host

/-!
# Printing on an output with little room

A standard output may have room for so many bytes and fail for good when it gets more. All that it
has got, whether it has failed, and so what printing does to it, are told by the text that was given
to it, as if it had room for everything: it has got the first bytes of the text, as many as there is
room for, and has failed unless these are all. A line that is printed comes behind this text.

So of lines that are printed one after another, those return for which there is room together with
all lines before them, all others raise the fault of the output, and none of them prints anything
behind the first byte that was lost.

## Main definitions

* `ScriptBase.Host.showingIn`: a host whose standard output has room for so many bytes.
* `ScriptBase.printedText`: what is printed for a row of lists of values.

## Main results

* `ScriptBase.Host.outcome_print_showingIn`: printing a line.
* `ScriptBase.Host.each_print_showingIn`: printing lines one after another.
* `ScriptBase.Host.each_print_in_room`: what is printed, and which lines raise a fault.
-/

namespace ScriptBase

/-- The lines for a row of lists of values, one behind the other. -/
def printedText (calls : List (List Value)) : Text := calls.flatMap printedLine

theorem printedText_cons (vs : List Value) (calls : List (List Value)) :
    printedText (vs :: calls) = printedLine vs ++ printedText calls :=
  List.flatMap_cons

theorem printedText_take_append_drop (n : Nat) (calls : List (List Value)) :
    printedText (calls.take n) ++ printedText (calls.drop n) = printedText calls := by
  rw [printedText, printedText, ← List.flatMap_append, List.take_append_drop, printedText]

namespace Host

variable {room : Nat} {e : Environment} {d : Disk} {g s : Text}

/-! ### An output with so much room -/

/-- A host with a standard output that has room for `room` bytes and was given a text: it has got
the bytes for which there is room, and has failed unless these are all. -/
def showingIn (room : Nat) (e : Environment) (d : Disk) (diagnostics given : Text) : Host :=
  ⟨e, d, ⟨.sink ⟨given.take room, some (room - given.length), 0, false⟩, room < given.length⟩,
    diagnostics⟩

theorem start_eq_showingIn (e : Environment) (d : Disk) (room : Nat) :
    start e d (some room) = showingIn room e d [] [] := by
  simp [start, showingIn, OutStream.toSink, Sink.empty]

@[simp] theorem received_showingIn (s : Text) :
    (showingIn room e d g s).output.received = s.take room := rfl

/-- An output that has failed is given texts in vain. -/
theorem showingIn_append (h : room < s.length) (t : Text) :
    showingIn room e d g (s ++ t) = showingIn room e d g s := by
  have ht : room < (s ++ t).length := by
    rw [List.length_append]
    omega
  simp only [showingIn, h, ht, Nat.sub_eq_zero_of_le (Nat.le_of_lt h),
    Nat.sub_eq_zero_of_le (Nat.le_of_lt ht), List.take_append_of_le_length (Nat.le_of_lt h)]

/-- An output with room left takes the bytes that fit, and has failed if these are not all. -/
theorem write_showingIn (s bytes : Text) :
    (showingIn room e d g s).output.write d bytes =
      ((showingIn room e d g (s ++ bytes)).output, d) := by
  rcases Nat.lt_or_ge room s.length with hs | hs
  · rw [OutStream.write_of_failed (decide_eq_true hs), showingIn_append hs]
  · have hfit : (min (room - s.length) bytes.length == bytes.length) =
        !decide (room < s.length + bytes.length) := by
      rw [Bool.eq_iff_iff, beq_iff_eq, Bool.not_eq_true', decide_eq_false_iff_not]
      omega
    have hroom : room - s.length - min (room - s.length) bytes.length =
        room - (s.length + bytes.length) := by
      omega
    simp [showingIn, OutStream.write, Sink.write, Sink.fitting, Nat.not_lt.2 hs, hfit, hroom,
      List.take_append, List.take_of_length_le hs]

/-! ### Lines -/

/-- A line is printed behind what was given before, and raises a fault unless there is room for all
of this. -/
theorem outcome_print_showingIn (s : Text) (vs : List Value) :
    (print vs).outcome (showingIn room e d g s) =
      (if (s ++ printedLine vs).length ≤ room then .ok () else .error .outputFailed,
        showingIn room e d g (s ++ printedLine vs)) := by
  rw [outcome_print, show (showingIn room e d g s).disk = d from rfl, write_showingIn]
  have hg : (showingIn room e d g (s ++ printedLine vs)).output.good = true ↔
      (s ++ printedLine vs).length ≤ room := by
    simp [showingIn, OutStream.good]
  exact Prod.ext (if_congr hg rfl rfl) rfl

/-- Lines that are printed one after another raise a fault from the first one on for which there is
no room behind the others. -/
theorem each_print_showingIn (calls : List (List Value)) (s : Text) :
    Action.each print calls (showingIn room e d g s) =
      ((List.range calls.length).map fun k =>
          if (s ++ printedText (calls.take (k + 1))).length ≤ room then .ok ()
          else .error .outputFailed,
        showingIn room e d g (s ++ printedText calls)) := by
  induction calls generalizing s with
  | nil => simp [Action.each, printedText]
  | cons vs calls ih =>
    rw [Action.each, outcome_print_showingIn]
    dsimp only
    rw [ih, List.length_cons, List.range_succ_eq_map, List.map_cons, List.map_map, printedText_cons,
      ← List.append_assoc]
    simp only [List.take_succ_cons, printedText_cons, List.append_assoc, Function.comp_def]
    simp [printedText]

theorem each_print_start (calls : List (List Value)) (e : Environment) (d : Disk) (room : Nat) :
    Action.each print calls (start e d (some room)) =
      ((List.range calls.length).map fun k =>
          if (printedText (calls.take (k + 1))).length ≤ room then .ok ()
          else .error .outputFailed,
        showingIn room e d [] (printedText calls)) := by
  rw [start_eq_showingIn, each_print_showingIn]
  rfl

/-- How a line ends tells whether there is room for it and the lines before it. -/
theorem eq_of_getElem?_each_print {calls : List (List Value)} {k : Nat}
    {result : Except Fault Unit}
    (h : (Action.each print calls (start e d (some room))).1[k]? = some result) :
    result = if (printedText (calls.take (k + 1))).length ≤ room then .ok ()
      else .error .outputFailed := by
  rw [each_print_start, List.getElem?_map, Option.map_eq_some_iff] at h
  obtain ⟨i, hi, rfl⟩ := h
  obtain ⟨-, rfl⟩ := List.getElem?_eq_some_iff.1 hi
  rw [List.getElem_range]

/-- Lines are printed one after another on an output with room for so many bytes. The output gets
the first bytes of all of them, as many as there is room for, and nothing else changes. A line
raises an input or output fault exactly if there is no room for it together with the lines before
it. So all lines up to one that returns stand on the output, and behind one that raises the fault
nothing is printed. -/
theorem each_print_in_room (calls : List (List Value)) (e : Environment) (d : Disk) (room : Nat) :
    let host := start e d (some room)
    let printed := Action.each print calls host
    let text := printedText calls
    printed.2.output.received = text.take (min room text.length) ∧
      printed.2 = { host with output := printed.2.output } ∧
      (printed.1 = (List.range calls.length).map fun k =>
        if (printedText (calls.take (k + 1))).length ≤ room then .ok ()
        else .error .outputFailed) ∧
      Fault.outputFailed.kind = .io ∧
      (∀ k : Nat, printed.1[k]? = some (.ok ()) →
        printedText (calls.take (k + 1)) <+: printed.2.output.received) ∧
      ∀ (k : Nat) fault, printed.1[k]? = some (.error fault) →
        printed.2 = (Action.each print (calls.take (k + 1)) host).2 := by
  intro host printed text
  have hprinted : printed = _ := each_print_start calls e d room
  have hreceived : printed.2.output.received = text.take room := by
    rw [hprinted, received_showingIn]
  refine ⟨?_, ?_, by rw [hprinted], rfl, fun k hk => ?_,
    fun k fault hk => ?_⟩
  · rw [hreceived, List.take_eq_take_iff, Nat.min_assoc, Nat.min_self]
  · rw [hprinted]
    rfl
  · have hfit : (printedText (calls.take (k + 1))).length ≤ room := by
      have hr := eq_of_getElem?_each_print hk
      split at hr
      · assumption
      · cases hr
    have hp : printedText (calls.take (k + 1)) <+: text :=
      ⟨_, printedText_take_append_drop (k + 1) calls⟩
    rw [hreceived]
    exact List.prefix_take_iff.2 ⟨hp, hfit⟩
  · have hlost : room < (printedText (calls.take (k + 1))).length := by
      have hr := eq_of_getElem?_each_print hk
      split at hr
      · cases hr
      · exact Nat.lt_of_not_le ‹_›
    rw [each_print_start, hprinted]
    dsimp only
    rw [← printedText_take_append_drop (k + 1) calls, showingIn_append hlost]

end Host

end ScriptBase
