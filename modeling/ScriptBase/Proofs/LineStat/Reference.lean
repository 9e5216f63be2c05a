import ScriptBase.Proofs.LineStat.Scanning
import ScriptBase.Proofs.Numeral.Runs
import ScriptBase.Proofs.Text.Characters
import ScriptBase.Proofs.Text.Stripping

/-!
# What the line statistics print

This module says in terms of the lines of a file what the line statistics print for it, and that
they do. After every line, what they have printed and what they have counted are functions of the
lines up to there. They go through all lines unless one is an integer that has more than 64 bits:
then they stop behind the first of these. The lines have to be addressable, so that all of their
characters are read.

## Main definitions

* `ScriptBase.LineStat.isBlankLine`, `ScriptBase.LineStat.integer?`: blank lines, and lines that are
  integers.
* `ScriptBase.LineStat.shown`: what is printed for lines.
* `ScriptBase.LineStat.totals`: what is printed at the end.
* `ScriptBase.LineStat.InRange`: lines that can be counted.

## Main results

* `ScriptBase.LineStat.outcome_countLine`: a line is counted.
* `ScriptBase.LineStat.outcome_countLines`: all lines are counted.
* `ScriptBase.LineStat.run_file`: the line statistics of a file.
-/

namespace ScriptBase

/-! ### Numerals -/

namespace Decimal

/-- Numerals are written with ASCII bytes. -/
theorem lt_of_mem_ofInt {n : Int} {b : UInt8} (h : b ∈ ofInt n) : b < 0x80 := by
  cases n with
  | ofNat n => exact Ascii.lt_of_isDigit (isDigit_of_mem_ofNat h)
  | negSucc n =>
    rcases List.mem_cons.1 h with rfl | h
    · decide
    · exact Ascii.lt_of_isDigit (isDigit_of_mem_ofNat h)

/-- An integer of 64 bits is written with twenty bytes at most. -/
theorem length_ofInt_le {n : Int} (h : IsInt64 n) : (ofInt n).length ≤ 20 := by
  have hle {m : Nat} (hm : m < 10 ^ 19) : (ofNat m).length ≤ 19 :=
    (digitCount_le_iff (by decide)).2 hm
  obtain ⟨hmin, hmax⟩ := h
  cases n with
  | ofNat n =>
    rw [Int.ofNat_eq_natCast] at hmax
    exact Nat.le_succ_of_le (hle (by omega))
  | negSucc n => exact Nat.succ_le_succ (hle (by omega))

end Decimal

namespace LineStat

open Ascii (isDigit minus space newline)

variable {s line : Text} {n : Int}

/-! ### Integers in digits -/

/-- The integer that digits stand for with a minus sign in front of them, or without one. There has
to be a digit. -/
def ofDigits? (negative : Bool) (digits : Text) : Option Int :=
  if digits ≠ [] ∧ digits.all isDigit then some (Sign.signed negative (Decimal.value digits))
  else none

/-- The integer that a text consists of: digits, possibly behind a minus sign. -/
def wholeInteger? (s : Text) : Option Int :=
  if s.head? = some minus then ofDigits? true s.tail else ofDigits? false s

theorem isSome_ofDigits? (negative : Bool) (digits : Text) :
    (ofDigits? negative digits).isSome = (!digits.isEmpty && digits.all isDigit) := by
  rw [ofDigits?]
  split
  · next h => simp [h]
  · next h =>
    cases digits with
    | nil => rfl
    | cons b digits => simpa using h

theorem spells_of_ofDigits? (sign : Sign) {digits : Text}
    (h : ofDigits? sign.isMinus digits = some n) : Spells (sign.text ++ digits) n := by
  rw [ofDigits?] at h
  split at h
  · next hd =>
    obtain rfl := Option.some.inj h
    exact sign.spells hd.1 (List.all_eq_true.1 hd.2)
  · cases h

/-- A text that consists of an integer spells it. -/
theorem spells_of_wholeInteger? (h : wholeInteger? s = some n) : Spells s n := by
  rw [wholeInteger?] at h
  split at h
  · next hm =>
    have hs := spells_of_ofDigits? .minus h
    obtain ⟨digits, rfl⟩ := List.head?_eq_some_iff.1 hm
    exact hs
  · exact spells_of_ofDigits? .none h

/-- The numeral of a count. Counts have 64 bits. -/
def numeral (n : Nat) : Text := Decimal.ofInt (Int64.ofNat n).toInt

/-- A number of lines that there can be is written by its own digits. -/
theorem numeral_of_lt {n : Nat} (h : n < 2 ^ 63) : numeral n = Decimal.ofNat n := by
  rw [numeral, Int64.toInt_ofNat_of_lt h, Decimal.ofInt_natCast]

theorem foldl_add_ofInt (n : Int) (ns : List Int) :
    (ns.map Int64.ofInt).foldl (· + ·) (Int64.ofInt n) = Int64.ofInt (n + ns.sum) := by
  induction ns generalizing n with
  | nil => simp
  | cons m ns ih =>
    rw [List.map_cons, List.foldl_cons, ← Int64.ofInt_add, ih, List.sum_cons, Int.add_assoc]

/-- The sum of integers is found if it has 64 bits itself. -/
theorem total_ofInt {ns : List Int} (hn : ns ≠ []) :
    Sequence.total (· + ·) (ns.map Int64.ofInt) = .ok (Int64.ofInt ns.sum) := by
  obtain ⟨n, ns, rfl⟩ := List.exists_cons_of_ne_nil hn
  rw [List.map_cons, Sequence.total, foldl_add_ofInt, List.sum_cons]

/-! ### Traces -/

/-- The traces of a file that is scanned. -/
def traces (settings : Settings) (path : Text) : Text :=
  if settings.tracing then (Event.opened path .reading).line ++ (Event.readerClosed path).line
  else []

theorem diagnostics_append_traces (host : Host) (settings : Settings) (path : Text) :
    host.diagnostics ++ (if settings.tracing then (Event.opened path.throughNul .reading).line
      else []) ++ (if settings.tracing then (Event.readerClosed path.throughNul).line else []) =
      host.diagnostics ++ traces settings path := by
  -- the path of a trace is shown up to its first NUL byte
  cases h : settings.tracing <;>
    simp [traces, h, Event.line, Event.wording, Text.throughNul_throughNul]

section Statistics

variable [Platform]

/-! ### The reference -/

/-- Whether a line has no characters but spaces. -/
def isBlankLine (line : Text) : Bool := line.glyphs.all Glyph.isSpace

/-- The integer that a line consists of, apart from the spaces around it. -/
def integer? (line : Text) : Option Int := wholeInteger? line.strip

/-- The integers among lines. -/
def integers (lines : List Text) : List Int := lines.filterMap integer?

/-- What is printed for a line with a number: nothing if it is blank, and otherwise the number,
moved to the right in four columns, and the line without the spaces at its end. -/
def shownLine (number : Nat) (line : Text) : Text :=
  if isBlankLine line then []
  else
    List.replicate (4 - (numeral number).length) space ++ numeral number ++ [space, space] ++
      line.stripEnd ++ [newline]

/-- What is printed for lines, which are numbered from one. -/
def shown (lines : List Text) : Text :=
  (lines.zipIdx 1).flatMap fun numbered => shownLine numbered.2 numbered.1

/-- What is printed behind all lines: how many there are, how many of them are blank, how many are
integers, and the sum of these if there are any. -/
def totals (lines : List Text) : Text :=
  Text.joinWith [space]
      ["lines:", numeral lines.length, "blank:", numeral (lines.countP isBlankLine),
        "numeric:", numeral (integers lines).length] ++ [newline] ++
    if integers lines = [] then []
    else Text.joinWith [space] ["sum:", Decimal.ofInt (integers lines).sum] ++ [newline]

/-- A line can be counted unless it is an integer that has more than 64 bits. -/
def InRange (line : Text) : Prop := ∀ n ∈ integer? line, IsInt64 n

instance (line : Text) : Decidable (InRange line) :=
  inferInstanceAs (Decidable (∀ n ∈ integer? line, IsInt64 n))

/-- What has been counted behind some lines. -/
def counted (lines : List Text) : Tally :=
  ⟨lines.length, lines.countP isBlankLine, (integers lines).map Int64.ofInt⟩

theorem counted_concat (before : List Text) (line : Text) :
    counted (before ++ [line]) =
      ⟨before.length + 1, before.countP isBlankLine + if isBlankLine line then 1 else 0,
        (integers before ++ (integer? line).toList).map Int64.ofInt⟩ := by
  have hi : integers (before ++ [line]) = integers before ++ (integer? line).toList := by
    rw [integers, List.filterMap_append]
    cases h : integer? line <;> simp [h, integers]
  rw [counted, hi]
  simp

theorem shown_concat (before : List Text) (line : Text) :
    shown (before ++ [line]) = shown before ++ shownLine (before.length + 1) line := by
  simp [shown, List.zipIdx_append, Nat.add_comm]

/-! ### What has been counted is reported -/

variable {e : Environment} {d : Disk} {g : Text}

/-- The totals are printed if the sum has 64 bits. -/
theorem outcome_printTally {lines : List Text} (h : IsInt64 (integers lines).sum) (s : Text) :
    (printTally (counted lines)).outcome (.showing e d g s) =
      (.ok (), .showing e d g (s ++ totals lines)) := by
  have hc (n : Nat) : (countValue n).plain = numeral n := by
    simp [countValue, Value.plain, Value.render, numeral]
  have hi : (Value.integer (Int64.ofInt (integers lines).sum)).plain =
      Decimal.ofInt (integers lines).sum := by
    simp [Value.plain, Value.render, h.toInt_ofInt]
  have hp : printedLine [.text "lines:", countValue lines.length, .text "blank:",
      countValue (lines.countP isBlankLine), .text "numeric:",
      countValue (integers lines).length] =
      Text.joinWith [space]
        ["lines:", numeral lines.length, "blank:", numeral (lines.countP isBlankLine),
          "numeric:", numeral (integers lines).length] ++ [newline] := by
    simp [printedLine, hc]
  have hs : printedLine [.text "sum:", .integer (Int64.ofInt (integers lines).sum)] =
      Text.joinWith [space] ["sum:", Decimal.ofInt (integers lines).sum] ++ [newline] := by
    simp [printedLine, hi]
  simp only [printTally, counted, Action.outcome_bind, List.length_map, Host.outcome_print_showing,
    hp, List.isEmpty_map]
  by_cases hn : integers lines = []
  · simp [hn, totals]
  · simp [hn, totals, Action.outcome_bind, total_ofInt hn, Host.outcome_print_showing, hs]

/-- With well-formed settings, what has come of the lines that a path offers decides what is
reported, whatever the traces are. -/
theorem outcome_report_of_counted (host host' : Host) {path content : Text} {p : Path}
    {settings : Settings} {result : Except Fault Tally} (hp : host.disk.locate path = .ok p)
    (ho : (InStream.ofPath p).Offers host.disk content)
    (hs : host.environment.settings = .ok settings) (hk : ∃ k, host.output.target = .sink k)
    (hc : ∀ g, (countLines content.lines .zero).outcome { host with diagnostics := g } =
      (result, { host' with diagnostics := g })) :
    (report path.throughNul).outcome host =
      (Action.ofExcept result >>= printTally).outcome
        { host' with diagnostics := host.diagnostics ++ traces settings path } := by
  have hl : host.disk.locate path.throughNul = .ok p := (Disk.locate_throughNul _ path).trans hp
  have hs' : host'.environment.settings = .ok settings := by
    have hkeep := (keeps_countLines content.lines .zero host ⟨rfl, rfl, hk⟩).environment_eq
    rw [show host = { host with diagnostics := host.diagnostics } from rfl, hc] at hkeep
    exact (congrArg Environment.settings hkeep).trans hs
  have hclosed (g : Text) :
      ((Host.trace (.readerClosed path.throughNul)).outcome { host' with diagnostics := g }).2 =
        { host' with
          diagnostics := g ++
            if settings.tracing then (Event.readerClosed path.throughNul).line else [] } :=
    Host.snd_outcome_trace { host' with diagnostics := g } hs' _
  rw [outcome_report hl ho hs hk, Host.snd_outcome_trace host hs, hc, Action.outcome_bind,
    Action.outcome_ofExcept]
  simp only [hclosed, diagnostics_append_traces]
  cases result <;> rfl

/-- With well-formed settings, what has come of the lines of a file decides what is reported. -/
theorem outcome_report_start {e : Environment} {d : Disk} {path content printed : Text} {p : Path}
    {settings : Settings} {result : Except Fault Tally} (hp : d.locate path = .ok p)
    (hf : d.node? p = some (.file content)) (hs : e.settings = .ok settings)
    (hc : ∀ g, (countLines content.lines (counted [])).outcome (.showing e d g (shown [])) =
      (result, .showing e d g printed)) :
    (report path.throughNul).outcome (.start e d none) =
      (Action.ofExcept result >>= printTally).outcome
        (.showing e d (traces settings path) printed) :=
  outcome_report_of_counted (.showing e d [] []) (.showing e d [] printed) hp
    (InStream.offers_ofPath hf) hs ⟨_, rfl⟩ hc

theorem run_of_report_ok {host host' : Host} {path : Text}
    (h : (report path.throughNul).outcome host = (.ok (), host')) :
    run [path] host = (0, host') := by
  rw [run, h]

theorem run_of_report_error {host host' : Host} {path : Text} {fault : Fault}
    (h : (report path.throughNul).outcome host = (.error fault, host')) :
    run [path] host = (1, complain host' (fault.kind.name ++ ": " ++ fault.message)) := by
  rw [run, h]

variable [LawfulPlatform]

/-! ### Lines -/

theorem strip_eq_nil_iff (ha : line.Addressable) : line.strip = [] ↔ isBlankLine line = true := by
  rw [Text.strip_eq_nil_iff ha, Text.decode_eq ha, isBlankLine]

theorem isEmpty_strip (ha : line.Addressable) : line.strip.isEmpty = isBlankLine line := by
  rw [Bool.eq_iff_iff, List.isEmpty_iff, strip_eq_nil_iff ha]

/-- What the line statistics take for an integer consists of an integer. -/
theorem isInteger_eq (ha : s.Addressable) (hs : s ≠ []) :
    isInteger s = (wholeInteger? s).isSome := by
  obtain ⟨b, rest, rfl⟩ := List.exists_cons_of_ne_nil hs
  have hrest : Text.Addressable rest := ha.of_le (Nat.le_succ _)
  rw [isInteger, Text.isDigits_eq ha, List.drop_one, List.tail_cons, Text.isDigits_eq hrest,
    wholeInteger?, List.head?_cons]
  by_cases hb : b = minus
  · subst hb
    have hc : decide (1 < Text.charCount (minus :: rest)) = !rest.isEmpty := by
      rw [Bool.eq_iff_iff, decide_eq_true_iff, Text.one_lt_charCount_iff (by decide) ha]
      simp
    rw [if_pos rfl, isSome_ofDigits?, hc]
    rfl
  · have hp : Text.startsWith (b :: rest) [minus] = false := by
      rw [Text.startsWith, List.isPrefixOf_cons_cons, beq_eq_false_iff_ne.2 (Ne.symm hb),
        Bool.false_and]
    rw [if_neg (by simpa using hb), isSome_ofDigits?, hp]
    simp

/-- A numeral has as many characters as bytes, since it is short and all of them are ASCII. -/
theorem charCount_numeral (number : Nat) :
    (numeral number).charCount = (numeral number).length := by
  have ha : (numeral number).Addressable :=
    Nat.lt_of_le_of_lt (Decimal.length_ofInt_le (isInt64_toInt _)) (by decide)
  have hlt : ∀ b ∈ numeral number, b < 0x80 := fun b hb => Decimal.lt_of_mem_ofInt hb
  rw [Text.charCount_eq ha, Text.length_glyphs_of_lt hlt]

/-- The text that is printed for a line that is not blank. -/
theorem format_lineTemplate (number : Nat) (s : Text) :
    format lineTemplate [countValue number, .text s] =
      .ok (List.replicate (4 - (numeral number).length) space ++ numeral number ++
        [space, space] ++ s) := by
  have hp : Template.parse lineTemplate =
      [.conversion ⟨false, false, 4, none, 0x64⟩, .literal space, .literal space,
        .conversion ⟨false, false, 0, none, 0x73⟩] := by decide
  have hd : Conversion.apply ⟨false, false, 4, none, 0x64⟩ (.ofValue (countValue number)) =
      .ok (List.replicate (4 - (numeral number).charCount) space ++ numeral number) := rfl
  have ht : Conversion.apply ⟨false, false, 0, none, 0x73⟩ (.ofValue (.text s)) = .ok s := by
    change Except.ok (List.replicate (0 - _) space ++ Value.plain (.text s)) = _
    rw [Nat.zero_sub, Value.plain_text]
    rfl
  rw [format, hp, List.map_cons, List.map_cons, List.map_nil]
  simp only [Template.fill, hd, ht, charCount_numeral]
  simp [Except.map]

/-! ### Line after line -/

/-- A line is counted, or it raises a fault behind what is printed for it. -/
theorem outcome_countLine (ha : line.Addressable) (before : List Text) :
    (countLine line (counted before)).outcome (.showing e d g (shown before)) =
      (if InRange line then .ok (counted (before ++ [line]))
        else .error (.invalidInteger line.strip),
        .showing e d g (shown (before ++ [line]))) := by
  rw [countLine, counted_concat, shown_concat, shownLine]
  dsimp only
  rw [isEmpty_strip ha]
  cases hb : isBlankLine line with
  | true =>
    have hs : line.strip = [] := (strip_eq_nil_iff ha).2 hb
    have hn : integer? line = none := by
      rw [integer?, hs]
      rfl
    simp [hn, InRange, counted]
  | false =>
    have hs : line.strip ≠ [] := fun h => by
      rw [(strip_eq_nil_iff ha).1 h] at hb
      cases hb
    have hp (s : Text) : printedLine [.text s] = s ++ [newline] := by
      rw [printedLine, List.map_singleton, Text.joinWith_singleton, Value.plain_text]
    simp only [Bool.false_eq_true, if_false, Action.outcome_bind, Action.outcome_ofExcept, counted,
      format_lineTemplate, Host.outcome_print_showing, hp,
      isInteger_eq (Text.addressable_strip ha).1 hs]
    rw [← integer?]
    rcases hn : integer? line with _ | n
    · simp [InRange, hn]
    · have hsp := spells_of_wholeInteger? hn
      simp only [Option.isSome_some, if_true, Action.outcome_bind, Action.outcome_ofExcept,
        integerOf_of_spells hsp]
      have hr : InRange line ↔ IsInt64 n := by simp [InRange, hn]
      by_cases hi : IsInt64 n <;> simp [hr, hi]

/-- Lines that can be counted are all counted. -/
theorem outcome_countLines {lines : List Text} (ha : ∀ line ∈ lines, line.Addressable)
    (h : ∀ line ∈ lines, InRange line) (before : List Text) :
    (countLines lines (counted before)).outcome (.showing e d g (shown before)) =
      (.ok (counted (before ++ lines)), .showing e d g (shown (before ++ lines))) := by
  induction lines generalizing before with
  | nil => simp [countLines]
  | cons line lines ih =>
    obtain ⟨hl, hlines⟩ := List.forall_mem_cons.1 h
    obtain ⟨hal, halines⟩ := List.forall_mem_cons.1 ha
    rw [countLines, Action.outcome_bind, outcome_countLine hal, if_pos hl]
    dsimp only
    rw [ih halines hlines, List.append_cons before line lines]

/-- The first line that cannot be counted is the last one that something is printed for. -/
theorem outcome_countLines_of_not_inRange {lines later : List Text} {bad : Text}
    (ha : ∀ line ∈ lines ++ bad :: later, line.Addressable) (h : ∀ line ∈ lines, InRange line)
    (hb : ¬ InRange bad) (before : List Text) :
    (countLines (lines ++ bad :: later) (counted before)).outcome
        (.showing e d g (shown before)) =
      (.error (.invalidInteger bad.strip), .showing e d g (shown (before ++ lines ++ [bad]))) := by
  obtain ⟨halines, habad⟩ := List.forall_mem_append.1 ha
  rw [countLines_append, Action.outcome_bind, outcome_countLines halines h]
  dsimp only
  rw [countLines, Action.outcome_bind, outcome_countLine (habad bad List.mem_cons_self), if_neg hb]

/-! ### The whole -/

/-- The line statistics of a file with addressable lines print these lines and the totals. If a
line is an integer that has more than 64 bits, they stop behind the first such line and end with a
fault of a wrong value. The standard error output gets that fault, and traces if they are asked for.
With malformed settings, nothing is printed but what is wrong with them, however long the lines
are. -/
theorem run_file (e : Environment) {d : Disk} {path content : Text} {p : Path}
    (hp : d.locate path = .ok p) (hf : d.node? p = some (.file content)) :
    let left := run [path] (.start e d none)
    let lines := content.lines
    (∀ settings, e.settings = .ok settings → (∀ line ∈ lines, line.Addressable) →
      (∀ before bad later, lines = before ++ bad :: later → (∀ line ∈ before, InRange line) →
        ¬ InRange bad →
          left = (1, .showing e d
            (traces settings path ++ ("ValueError: " ++ (Fault.invalidInteger bad.strip).message) ++
              [newline])
            (shown (before ++ [bad])))) ∧
      ((∀ line ∈ lines, InRange line) →
        (∀ first, first <+: integers lines → IsInt64 first.sum) →
          left = (0, .showing e d (traces settings path) (shown lines ++ totals lines)))) ∧
    ∀ fault, e.settings = .error fault →
      left = (1, .showing e d ("ConfigError: " ++ fault.message ++ [newline]) []) := by
  intro left lines
  refine ⟨fun settings hs ha => ⟨fun before bad later hl hin hb => ?_, fun hin hsum => ?_⟩,
    fun fault hs => ?_⟩
  · have hc g :=
      outcome_countLines_of_not_inRange (e := e) (d := d) (g := g) (hl ▸ ha) hin hb []
    rw [← hl] at hc
    have ho := outcome_report_start hp hf hs hc
    rw [Action.outcome_bind, Action.outcome_ofExcept] at ho
    exact run_of_report_error ho
  · have hc g := outcome_countLines (e := e) (d := d) (g := g) ha hin []
    have ho := outcome_report_start hp hf hs hc
    rw [Action.outcome_bind, Action.outcome_ofExcept] at ho
    dsimp only at ho
    rw [List.nil_append, outcome_printTally (hsum _ (List.prefix_refl _))] at ho
    exact run_of_report_ok ho
  · have ho : (report path.throughNul).outcome (.start e d none) = _ :=
      outcome_report_of_malformed ((d.locate_throughNul path).trans hp) hs
    have hr := run_of_report_error ho
    rw [Environment.kind_of_settings hs] at hr
    exact hr

end Statistics

open scoped ScriptBase.ReferencePlatform

/-- A file with two integers and two blank lines, one of which is a space of two bytes, and one
whose second integer is one past the greatest one. -/
theorem run_file_two :
    let d : Disk := ⟨Dict.ofLast [([], .directory), ([[0x61]], .file "7\n\u0085\n\n -8\n"),
      ([[0x62]], .file "5\n9223372036854775808\n6\n")], []⟩
    run [[0x61]] (.start ⟨none, none⟩ d none) =
        (0, .showing ⟨none, none⟩ d []
          "   1  7\n   4   -8\nlines: 4 blank: 2 numeric: 2\nsum: -1\n") ∧
      run [[0x62]] (.start ⟨none, none⟩ d none) =
        (1, .showing ⟨none, none⟩ d
          "ValueError: invalid literal for int() with base 10: '9223372036854775808'\n"
          "   1  5\n   2  9223372036854775808\n") := by
  intro d
  obtain ⟨h₁, -⟩ := run_file ⟨none, none⟩ (show d.locate [0x61] = .ok [[0x61]] from rfl) rfl
  obtain ⟨h₂, -⟩ := run_file ⟨none, none⟩ (show d.locate [0x62] = .ok [[0x62]] from rfl) rfl
  constructor
  · have hi : integers (Text.lines "7\n\u0085\n\n -8\n") = [7, -8] := by decide +kernel
    have hs : shown (Text.lines "7\n\u0085\n\n -8\n") ++
        totals (Text.lines "7\n\u0085\n\n -8\n") =
        "   1  7\n   4   -8\nlines: 4 blank: 2 numeric: 2\nsum: -1\n" := by decide +kernel
    rw [← hs]
    refine (h₁ _ rfl (by decide +kernel)).2 (by decide +kernel) fun first hf => ?_
    obtain rfl | ⟨_, rfl, rfl | rfl⟩ : first = [] ∨ ∃ t, first = 7 :: t ∧ (t = [] ∨ t = [-8]) := by
      simpa [hi, List.prefix_cons_iff] using hf
    all_goals decide
  · have hs : shown ["5", "9223372036854775808"] = "   1  5\n   2  9223372036854775808\n" := by
      decide +kernel
    rw [← hs]
    exact (h₂ _ rfl (by decide +kernel)).1 ["5"] "9223372036854775808" ["6"] (by decide +kernel)
      (by decide +kernel) (by decide +kernel)

/-- With malformed settings, a file without integers cannot be scanned. -/
theorem run_fails_of_malformed_settings :
    ¬ ∀ (e : Environment) (d : Disk) (path content : Text) (p : Path),
      d.locate path = .ok p → d.node? p = some (.file content) →
        (∀ line ∈ content.lines, InRange line) →
        (∀ first, first <+: integers content.lines → IsInt64 first.sum) →
          (run [path] (.start e d none)).1 = 0 := by
  intro h
  let d : Disk := ⟨Dict.ofLast [([], .directory), ([[0x66]], .file [])], []⟩
  have hr := h ⟨none, some [0x78]⟩ d [0x66] [] [[0x66]] rfl rfl nofun (by simp [integers, IsInt64])
  cases hr

end LineStat

end ScriptBase
