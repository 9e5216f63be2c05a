import ScriptBase.Proofs.LineStat.Reference
import ScriptBase.Proofs.Printing

/-!
# Line statistics on an output with little room

A standard output may have room for so many bytes and fail for good when it gets more. The line
statistics print on it what they print on one without a limit, up to the last byte for which there
is room. If that is not all of it, they end with the fault of the output that has failed: whatever
else would have become of them later does not come to pass. If it is all of it, nothing is
different.

Both outputs are described by the text that was given to them. So a part of the line statistics is
followed on both at once, and parts that are followed one after another make up the whole.

## Main definitions

* `ScriptBase.Host.StopsAt`: an action that prints, and stops where there is no more room.

## Main results

* `ScriptBase.Host.StopsAt.bind`: actions one after another.
* `ScriptBase.LineStat.exists_outcome_report_start`: what is reported with and without a limit.
* `ScriptBase.LineStat.run_in_room`: the line statistics with and without a limit.
-/

namespace ScriptBase

namespace Host

variable {room : Nat} {e : Environment} {d : Disk} {g s : Text}

/-! ### Actions that print -/

/-- An action that does nothing to the host but print *stops at* a room if, on an output with that
room, it does what it does on one without a limit as long as there is room for what is printed, and
raises the fault of the output if there is not. What it prints does not hang on the traces. -/
def StopsAt {α : Type} (room : Nat) (action : Action Host α) : Prop :=
  ∀ e d s, ∃ result t, ∀ g,
    action.outcome (showing e d g s) = (result, showing e d g (s ++ t)) ∧
      (s.length ≤ room →
        action.outcome (showingIn room e d g s) =
          (if (s ++ t).length ≤ room then result else .error .outputFailed,
            showingIn room e d g (s ++ t)))

variable {α β : Type}

theorem stopsAt_ofExcept (room : Nat) (result : Except Fault α) :
    StopsAt room (Action.ofExcept result) := by
  intro e d s
  refine ⟨result, [], fun g => ⟨?_, fun hs => ?_⟩⟩
  · rw [Action.outcome_ofExcept, List.append_nil]
  · rw [Action.outcome_ofExcept, List.append_nil, if_pos hs]

theorem stopsAt_pure (room : Nat) (a : α) : StopsAt room (pure a) := stopsAt_ofExcept room (.ok a)

theorem stopsAt_print (room : Nat) (vs : List Value) : StopsAt room (print vs) := fun _ _ s =>
  ⟨.ok (), printedLine vs, fun _ =>
    ⟨outcome_print_showing vs, fun _ => outcome_print_showingIn s vs⟩⟩

/-- On an output with a limit, an action that does not fit in is not followed by another. What the
other prints on an output without a limit makes no difference to one that has failed. -/
theorem StopsAt.bind {action : Action Host α} {next : α → Action Host β}
    (ha : StopsAt room action) (hn : ∀ a, StopsAt room (next a)) :
    StopsAt room (action >>= next) := by
  intro e d s
  obtain ⟨result, t, h⟩ := ha e d s
  simp only [Action.outcome_bind, fun g => (h g).1]
  rcases result with fault | a
  · refine ⟨.error fault, t, fun g => ⟨rfl, fun hs => ?_⟩⟩
    rw [(h g).2 hs]
    by_cases ht : (s ++ t).length ≤ room
    · rw [if_pos ht, if_pos ht]
    · rw [if_neg ht, if_neg ht]
  · obtain ⟨result, u, hu⟩ := hn a e d (s ++ t)
    rw [List.append_assoc] at hu
    refine ⟨result, t ++ u, fun g => ⟨(hu g).1, fun hs => ?_⟩⟩
    rw [(h g).2 hs]
    by_cases ht : (s ++ t).length ≤ room
    · rw [if_pos ht]
      exact (hu g).2 ht
    · have hlt := Nat.lt_of_not_le ht
      have hstu : ¬ (s ++ t ++ u).length ≤ room := by
        rw [List.length_append]
        omega
      rw [if_neg ht, ← List.append_assoc, if_neg hstu, showingIn_append hlt]

end Host

namespace LineStat

open Host

theorem stopsAt_printTally (room : Nat) (t : Tally) : StopsAt room (printTally t) := by
  refine (stopsAt_print room _).bind fun _ => ?_
  split
  · exact (stopsAt_ofExcept room _).bind fun sum => stopsAt_print room _
  · exact stopsAt_pure room _

variable [Platform]

theorem stopsAt_countLine (room : Nat) (line : Text) (t : Tally) :
    StopsAt room (countLine line t) := by
  rw [countLine]
  dsimp only
  split
  · exact stopsAt_pure room _
  · refine (stopsAt_ofExcept room _).bind fun shown => (stopsAt_print room _).bind fun _ => ?_
    split
    · exact (stopsAt_ofExcept room _).bind fun n => stopsAt_pure room _
    · exact stopsAt_pure room _

theorem stopsAt_countLines (room : Nat) (lines : List Text) (t : Tally) :
    StopsAt room (countLines lines t) := by
  induction lines generalizing t with
  | nil => exact stopsAt_pure room t
  | cons line lines ih => exact (stopsAt_countLine room line t).bind ih

/-! ### A whole file -/

variable {e : Environment} {d : Disk} {path : Text}

/-- What the lines of a file and the totals behind them print is printed up to the room, with the
same traces. -/
theorem exists_outcome_report_of_offers (room : Nat) {content : Text} {p : Path}
    {settings : Settings} (hp : d.locate path = .ok p)
    (ho : (InStream.ofPath p).Offers d content) (hs : e.settings = .ok settings) :
    ∃ result t,
      (report path.throughNul).outcome (showing e d [] []) =
          (result, showing e d (traces settings path) t) ∧
        (report path.throughNul).outcome (showingIn room e d [] []) =
          (if t.length ≤ room then result else .error .outputFailed,
            showingIn room e d (traces settings path) t) := by
  obtain ⟨counted, t, ht⟩ := stopsAt_countLines room content.lines .zero e d []
  obtain ⟨result, u, hu⟩ :=
    ((stopsAt_ofExcept room counted).bind (stopsAt_printTally room)) e d t
  have hfull := outcome_report_of_counted (showing e d [] []) (showing e d [] t) hp ho hs ⟨_, rfl⟩
    fun g => (ht g).1
  have hcut := outcome_report_of_counted (showingIn room e d [] []) (showingIn room e d [] t) hp ho
    hs ⟨_, rfl⟩ fun g => (ht g).2 (Nat.zero_le room)
  refine ⟨result, t ++ u, hfull.trans (hu _).1, hcut.trans ?_⟩
  by_cases hfit : t.length ≤ room
  · rw [List.nil_append, if_pos hfit]
    exact (hu _).2 hfit
  · -- the lines do not fit in, so the totals are not printed
    have hlong : ¬ (t ++ u).length ≤ room := by
      rw [List.length_append]
      omega
    rw [List.nil_append, if_neg hfit, if_neg hlong, showingIn_append (Nat.lt_of_not_le hfit)]
    rfl

/-- A directory is reported to be one that cannot be read, between the traces of a file. -/
theorem outcome_report_directory (host : Host) {p : Path} {settings : Settings}
    (hl : host.disk.locate path.throughNul = .ok p) (hd : host.disk.isDirectory p = true)
    (hs : host.environment.settings = .ok settings) :
    (report path.throughNul).outcome host =
      (.error (.readFailed path.throughNul),
        { host with diagnostics := host.diagnostics ++ traces settings path }) := by
  rw [outcome_report_of_directory hl hd hs, Host.snd_outcome_trace host hs]
  refine Prod.ext rfl ?_
  rw [← diagnostics_append_traces]
  exact Host.snd_outcome_trace
    { host with
      diagnostics := host.diagnostics ++
        if settings.tracing then (Event.opened path.throughNul .reading).line else [] } hs _

/-- What is reported without a limit is reported up to the room, with the same traces. -/
theorem exists_outcome_report_start (room : Nat) (e : Environment) (d : Disk) (path : Text) :
    ∃ result g t,
      (report path.throughNul).outcome (.start e d none) = (result, showing e d g t) ∧
      (report path.throughNul).outcome (.start e d (some room)) =
        (if t.length ≤ room then result else .error .outputFailed, showingIn room e d g t) := by
  rw [start_eq_showingIn]
  change ∃ result g t, (report path.throughNul).outcome (showing e d [] []) = _ ∧ _
  have hthrough := d.locate_throughNul path
  rcases hp : d.locate path with error | p
  · rw [hp] at hthrough
    exact ⟨_, [], [], outcome_report_of_missing hthrough, outcome_report_of_missing hthrough⟩
  rcases hs : e.settings with fault | settings
  · rw [hp] at hthrough
    exact ⟨_, [], [], outcome_report_of_malformed hthrough hs,
      outcome_report_of_malformed hthrough hs⟩
  cases hd : d.isDirectory p with
  | true =>
    have hl := hthrough.trans hp
    exact ⟨_, _, [], outcome_report_directory (showing e d [] []) hl hd hs,
      outcome_report_directory (showingIn room e d [] []) hl hd hs⟩
  | false =>
    obtain ⟨result, t, h⟩ :=
      exists_outcome_report_of_offers room hp (InStream.offers_content hd) hs
    exact ⟨result, _, t, h⟩

/-- The line statistics on an output with limited room print what they print on one without a limit,
up to the last byte for which there is room. If that is all of it, they end in the same way and with
the same diagnostics. If it is not, they end with the fault of the output, behind the traces that
there are without a limit. -/
theorem run_in_room (args : List Text) (e : Environment) (d : Disk) (room : Nat) :
    let full := run args (.start e d none)
    let cut := run args (.start e d (some room))
    cut.2.output.received = full.2.output.received.take room ∧
      (full.2.output.received.length ≤ room →
        cut.1 = full.1 ∧ cut.2.diagnostics = full.2.diagnostics) ∧
      (room < full.2.output.received.length →
        cut.1 = 1 ∧ ∃ traced, traced <+: full.2.diagnostics ∧
          cut.2.diagnostics =
            traced ++ "IOError: write error on standard output" ++ [Ascii.newline]) := by
  match args with
  | [] | _ :: _ :: _ =>
    refine ⟨?_, fun _ => ⟨rfl, rfl⟩, fun h => absurd h (Nat.not_lt_zero room)⟩
    exact (List.take_nil (i := room)).symm
  | [path] =>
    obtain ⟨result, g, t, hfull, hcut⟩ := exists_outcome_report_start room e d path
    by_cases ht : t.length ≤ room
    · rw [if_pos ht] at hcut
      rcases result with fault | _
      · rw [run_of_report_error hfull, run_of_report_error hcut]
        exact ⟨rfl, fun _ => ⟨rfl, rfl⟩, fun h => absurd ht (Nat.not_le_of_lt h)⟩
      · rw [run_of_report_ok hfull, run_of_report_ok hcut]
        exact ⟨rfl, fun _ => ⟨rfl, rfl⟩, fun h => absurd ht (Nat.not_le_of_lt h)⟩
    · rw [if_neg ht] at hcut
      rw [run_of_report_error hcut]
      rcases result with fault | _
      · rw [run_of_report_error hfull]
        have hg (line : Text) : g <+: (complain (showing e d g t) line).diagnostics :=
          (List.prefix_append _ _).trans (List.prefix_append _ _)
        exact ⟨rfl, fun h => absurd h ht, fun _ => ⟨rfl, g, hg _, rfl⟩⟩
      · rw [run_of_report_ok hfull]
        exact ⟨rfl, fun h => absurd h ht, fun _ => ⟨rfl, g, List.prefix_rfl, rfl⟩⟩

end LineStat

end ScriptBase
