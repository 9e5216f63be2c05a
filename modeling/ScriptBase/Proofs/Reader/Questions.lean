import ScriptBase.Proofs.Reader.Pieces
import ScriptBase.Proofs.Writer.Unfailing

/-!
# Questions and the lines of a reader

Questions are put one after another on the same streams. Each prompt is written and flushed before
the answer to it is read, so that the output has got this prompt and all that came before, whether
they were answered or not. The answers are the lines that a reader on the same bytes gives, call by
call, and where the reader finds no line left the question raises the fault of an input at its end.
As many questions as calls leave the same bytes.

## Main definitions

* `ScriptBase.Dialogue.answer`: reads an answer, once the question is put.
* `ScriptBase.Dialogue.readings`: the streams as each of the answers is read.
* `ScriptBase.Dialogue.answerOf`: the answer that corresponds to what a reader gives.

## Main results

* `ScriptBase.Dialogue.getElem?_readings`: when an answer is read, its prompt was written and
  flushed last.
* `ScriptBase.Dialogue.contents_askAll`: what an output has got after some questions.
* `ScriptBase.Dialogue.askAll_reads_lines`: questions against a reader.
-/

namespace ScriptBase

namespace Reader

open InStream

/-- Reading line after line gives one line after another, then none, and leaves what stands behind
these lines. -/
theorem each_readLine_lineAt {r : Reader} {d : Disk} {content : Text} {source : InStream}
    (hr : r.closed = false) (n : Nat) (h : Offers d content source) :
    let read := Action.each (fun _ : Unit => r.readLine d) (List.replicate n ()) source
    (read.1 = (List.range n).map fun k => .ok content.lines[k]?) ∧
      Offers d (Text.afterLine^[n] content) read.2 := by
  obtain ⟨hlines, hleft⟩ := Action.each_lineAt (p := Offers d)
    (fun _ _ _ h => readLine_step hr h) (List.replicate n ()) h
  rw [List.length_replicate] at hlines hleft
  exact ⟨hlines.trans (List.map_congr_left fun _ _ => elim_ok_some _), hleft⟩

end Reader

namespace Dialogue

open InStream OutStream

variable {s : Dialogue}

/-! ### The answers -/

/-- The part of a question behind its prompt: reads the answer. -/
def answer : Action Dialogue Text := do
  let s ← get
  let (line, input) := s.input.getLine s.disk
  set { s with input }
  match line with
  | some line => pure line.dropReturn
  | none => if input.failed then throw .inputFailed else throw .endOfInput

/-- A question writes and flushes its prompt, and then reads the answer. -/
theorem outcome_ask_eq (prompt : Text) (s : Dialogue) :
    (ask prompt).outcome s = answer.outcome (s.prompted prompt) := rfl

/-- The answer to a question where a reader gives a line, finds none or fails. -/
def answerOf : Except Fault (Option Text) → Except Fault Text
  | .ok (some line) => .ok line
  | .ok none => .error .endOfInput
  | .error _ => .error .inputFailed

/-- Questions are answered with one line after another, then with the fault of an input at its end,
and leave what stands behind these lines. -/
theorem askAll_lineAt {rest : Text} (prompts : List Text) (hs : s.input.supply = .ends)
    (h : Offers s.disk rest s.input) :
    let asked := askAll prompts s
    (asked.1 = (List.range prompts.length).map fun k => answerOf (.ok rest.lines[k]?)) ∧
      asked.2.input.supply = .ends ∧
      Offers asked.2.disk (Text.afterLine^[prompts.length] rest) asked.2.input := by
  obtain ⟨hlines, hleft⟩ := Action.each_lineAt
    (p := fun rest (s : Dialogue) => s.input.supply = .ends ∧ Offers s.disk rest s.input)
    (fun prompt _ _ h => ask_of_offers prompt h.1 h.2) prompts ⟨hs, h⟩
  refine ⟨hlines.trans (List.map_congr_left fun k _ => ?_), hleft⟩
  cases rest.lines[k]? <;> rfl

/-! ### The streams as answers are read -/

/-- The streams as each of the answers is read, behind its prompt. -/
def readings : List Text → Dialogue → List Dialogue
  | [], _ => []
  | prompt :: prompts, s =>
    s.prompted prompt :: readings prompts (answer.outcome (s.prompted prompt)).2

/-- The answers are those that are read there. -/
theorem fst_askAll (prompts : List Text) (s : Dialogue) :
    (askAll prompts s).1 = (readings prompts s).map fun t => (answer.outcome t).1 := by
  induction prompts generalizing s with
  | nil => rfl
  | cons prompt prompts ih =>
    have h : (askAll (prompt :: prompts) s).1 = (answer.outcome (s.prompted prompt)).1 ::
        (askAll prompts (answer.outcome (s.prompted prompt)).2).1 := by
      rw [← outcome_ask_eq]
      rfl
    rw [h, ih, readings, List.map_cons]

/-- When an answer is read, the streams are those that the earlier questions have left, and the
prompt was written and flushed last. -/
theorem getElem?_readings (prompts : List Text) (k : Nat) (s : Dialogue) :
    (readings prompts s)[k]? =
      prompts[k]?.map fun prompt => (askAll (prompts.take k) s).2.prompted prompt := by
  induction prompts generalizing k s with
  | nil => rfl
  | cons prompt prompts ih =>
    cases k with
    | zero => rfl
    | succ k => exact ih k _

/-! ### The output -/

/-- A question leaves the output and the disk as its prompt does. -/
theorem snd_ask (prompt : Text) (s : Dialogue) :
    ((ask prompt).outcome s).2 =
      { s.prompted prompt with input := ((ask prompt).outcome s).2.input } := by
  rw [outcome_ask]

/-- A stream receives all prompts, one behind the other. -/
theorem receives_askAll (prompts : List Text) (s : Dialogue) :
    s.output.Receives s.disk (askAll prompts s).2.output (askAll prompts s).2.disk
      prompts.flatten := by
  -- the induction carries what the stream has received before
  suffices h : ∀ {o d t}, Receives o d s.output s.disk t →
      Receives o d (askAll prompts s).2.output (askAll prompts s).2.disk (t ++ prompts.flatten) from
    h .refl
  induction prompts generalizing s with
  | nil =>
    intro o d t h
    rw [List.flatten_nil, List.append_nil]
    exact h
  | cons prompt prompts ih =>
    intro o d t h
    rw [List.flatten_cons, ← List.append_assoc]
    refine ih ((ask prompt).outcome s).2 ?_
    rw [snd_ask]
    exact (h.write prompt).flush

/-- A prompt is flushed once it was written behind those of the earlier questions. -/
theorem receives_prompted (prompts : List Text) (prompt : Text) (s : Dialogue) :
    let t := (askAll prompts s).2.prompted prompt
    ∃ o d, s.output.Receives s.disk o d (prompts.flatten ++ prompt) ∧
      o.flush d = (t.output, t.disk) :=
  ⟨_, _, (receives_askAll prompts s).write prompt, rfl⟩

/-- A stream that never fails and holds nothing back has got a prompt, and those of the earlier
questions, before the answer is read. -/
theorem contents_prompted (hs : s.output.NeverFails s.disk)
    (hh : s.output.Holds s.disk (s.output.contents s.disk)) (prompts : List Text) (prompt : Text) :
    let t := (askAll prompts s).2.prompted prompt
    t.output.contents t.disk = s.output.contents s.disk ++ (prompts.flatten ++ prompt) := by
  intro t
  obtain ⟨o, d, hr, hf⟩ := receives_prompted prompts prompt s
  have hc := (hh.receives hs hr).contents_flush
  rwa [hf] at hc

/-- After some questions such a stream has got all their prompts. -/
theorem contents_askAll (hs : s.output.NeverFails s.disk)
    (hh : s.output.Holds s.disk (s.output.contents s.disk)) (prompts : List Text) :
    (askAll prompts s).2.output.contents (askAll prompts s).2.disk =
      s.output.contents s.disk ++ prompts.flatten := by
  rcases List.eq_nil_or_concat prompts with rfl | ⟨earlier, prompt, rfl⟩
  · exact (List.append_nil _).symm
  · have hlast : (askAll (earlier ++ [prompt]) s).2 =
        ((ask prompt).outcome (askAll earlier s).2).2 :=
      congrArg Prod.snd (Action.each_append ask earlier [prompt] s)
    have hp : (earlier ++ [prompt]).flatten = earlier.flatten ++ prompt := by simp
    rw [List.concat_eq_append, hlast, hp, snd_ask]
    exact contents_prompted hs hh earlier prompt

/-! ### Questions against a reader -/

/-- Questions are put on a stream of some bytes, and a reader that stands on any stream of the same
bytes is asked for as many lines. Call by call they give the same, where a question raises the fault
of an input at its end if the reader finds no line, and both leave the pieces behind these lines. If
the output never fails and holds nothing back, it has got all prompts at the end, whatever the
questions have raised. Each answer is read from what the earlier lines have left, right after the
output, having received this prompt and those before, was flushed and so has got them. -/
theorem askAll_reads_lines {output : OutStream} {disk d : Disk} {content : Text}
    {source : InStream} (hs : output.NeverFails disk)
    (hh : output.Holds disk (output.contents disk)) (hc : Offers d content source)
    (prompts : List Text) (name : Text) :
    let s : Dialogue := ⟨.ofText content false, output, disk⟩
    let asked := askAll prompts s
    let read := Action.each (fun _ : Unit => (Reader.opened name).readLine d)
      (List.replicate prompts.length ()) source
    let left (k : Nat) : Text := (content.pieces.drop k).flatten
    asked.1 = read.1.map answerOf ∧
      (read.1 = (List.range prompts.length).map fun k =>
        .ok (content.pieces[k]?.map Text.lineOf)) ∧
      Offers asked.2.disk (left prompts.length) asked.2.input ∧
      Offers d (left prompts.length) read.2 ∧
      asked.2.output.failed = false ∧
      asked.2.output.contents asked.2.disk = output.contents disk ++ prompts.flatten ∧
      (asked.1 = (readings prompts s).map fun t => (answer.outcome t).1) ∧
      ∀ k t, (readings prompts s)[k]? = some t →
        Offers t.disk (left k) t.input ∧
          t.output.contents t.disk = output.contents disk ++ (prompts.take (k + 1)).flatten ∧
          ∃ o d', output.Receives disk o d' (prompts.take (k + 1)).flatten ∧
            o.flush d' = (t.output, t.disk) := by
  intro s asked read left
  have hask (earlier : List Text) := askAll_lineAt (s := s) earlier rfl (offers_ofText disk content)
  have hread : _ ∧ Offers d _ read.2 :=
    Reader.each_readLine_lineAt (r := .opened name) rfl prompts.length hc
  simp only [Text.iterate_afterLine, Text.lines_eq_map_lineOf, List.getElem?_map] at hask hread
  have hlines : read.1 = _ := hread.1
  refine ⟨?_, hlines, (hask prompts).2.2, hread.2, hs _ _ _ (receives_askAll prompts s),
    contents_askAll hs hh prompts, fst_askAll prompts s, fun k t ht => ?_⟩
  · rw [hlines, List.map_map]
    exact (hask prompts).1
  · rw [getElem?_readings, Option.map_eq_some_iff] at ht
    obtain ⟨prompt, hk, rfl⟩ := ht
    obtain ⟨hlt, -⟩ := List.getElem?_eq_some_iff.1 hk
    have htake : (prompts.take (k + 1)).flatten = (prompts.take k).flatten ++ prompt := by
      rw [List.take_add_one, hk]
      simp
    obtain ⟨-, hends, hleft⟩ := hask (prompts.take k)
    rw [List.length_take_of_le (Nat.le_of_lt hlt)] at hleft
    rw [htake]
    exact ⟨hleft.of_ends hends _, contents_prompted hs hh (prompts.take k) prompt,
      receives_prompted (prompts.take k) prompt s⟩

/-- Two lines, the second of which ends with a carriage return and the text, and three questions,
against a reader on a file of the same bytes. -/
theorem askAll_reads_lines_three :
    let content := [0x61, 0x0d, 0x0a, 0x0d]
    let output := OutStream.toSink none false
    let disk := Disk.fresh.put [[0x66]] (.file content)
    let s : Dialogue := ⟨.ofText content false, output, disk⟩
    (output.NeverFails disk ∧ output.Holds disk (output.contents disk) ∧
        Offers disk content (.ofPath [[0x66]])) ∧
      (askAll [[0x31], [0x32], [0x33]] s).1 = [.ok [0x61], .ok [], .error .endOfInput] ∧
      (askAll [[0x31], [0x32], [0x33]] s).2.output.contents disk = [0x31, 0x32, 0x33] := by
  intro content output disk s
  have hs : output.NeverFails disk := neverFails_toSink disk
  have hh : output.Holds disk (output.contents disk) := .sink _ _ _
  have hc : Offers disk content (.ofPath [[0x66]]) := offers_ofPath rfl
  obtain ⟨hasked, hread, -, -, -, hcontents, -⟩ :=
    askAll_reads_lines hs hh hc [[0x31], [0x32], [0x33]] []
  refine ⟨⟨hs, hh, hc⟩, ?_, hcontents⟩
  rw [hasked, hread]
  rfl

end Dialogue

end ScriptBase
