import ScriptBase.Proofs.Reader.Pieces
import ScriptBase.Session.Basic

/-!
# Readers that share a stream

Any number of readers may read from one stream, each of them line by line, all lines or all bytes at
once, and by line cursors that go through its lines. Readers may be made and closed in between, and
going through lines may be given up at any line.

All this is told by one place in the bytes of the stream. Reading takes some of the bytes behind the
place, and what is answered is made of these and of nothing else: the first piece for a line, and
all for the rest. Closing a reader leaves the place where it is. So no byte is lost between two
readers, and none is read twice.

## Main definitions

* `ScriptBase.Sharing`: readers and line cursors on one stream.
* `ScriptBase.SharedCall`, `ScriptBase.SharedCall.action`: what can be asked of them, and what is
  done then.
* `ScriptBase.Place`, `ScriptBase.Place.read`: a place in a text, and reading there.
* `ScriptBase.SharedCall.atPlace`: what is asked of readers, done at a place.
* `ScriptBase.Sharing.At`: readers that share a stream are at a place.

## Main results

* `ScriptBase.SharedCall.refines_atPlace`: a call does at the stream what it does at the place.
* `ScriptBase.Sharing.each_eq_atPlace`: the same for a row of calls, with an account of the bytes.
-/

namespace ScriptBase

/-- What is asked of readers that share a stream. Readers and line cursors have names. -/
inductive SharedCall where
  /-- Makes a reader on the stream. -/
  | make (name shown : Text)
  | readLine (name : Text)
  | readLines (name : Text)
  | readAll (name : Text)
  /-- Begins to go through the lines of a reader. -/
  | beginLines (name cursor : Text)
  /-- Goes on with the next line. -/
  | nextLine (cursor : Text)
  | close (name : Text)

/-- The answer that is a line, if there is one. -/
def Answer.ofLine : Option Text → Answer
  | some s => .text s
  | none => .absent

/-! ### Readers on one stream -/

/-- Readers and line cursors on one stream. -/
structure Sharing where
  readers : Dict Text Reader
  cursors : Dict Text LineCursor
  stream : InStream
  host : Host

namespace Sharing

/-- A stream without readers. -/
def start (stream : InStream) (host : Host) : Sharing := ⟨Dict.empty, Dict.empty, stream, host⟩

/-- The reader under a name. -/
def reader (name : Text) : Action Sharing Reader := do
  match (← get).readers.get? name with
  | some r => pure r
  | none => throw .nothingNamed

/-- The name of the reader that a line cursor goes through. -/
def readerOf (cursor : Text) : Action Sharing Text := do
  match (← get).cursors.get? cursor with
  | some c => pure c.file
  | none => throw .nothingNamed

/-- Reads from the stream through the reader under a name. -/
def through {α : Type} (name : Text) (action : Reader → Disk → Action InStream α) :
    Action Sharing α := do
  let r ← reader name
  let s ← get
  Action.on Sharing.stream (fun stream s => { s with stream }) (action r s.host.disk)

/-- Reads the next line of a reader into a line cursor. -/
def advance (cursor name : Text) : Action Sharing (Option Text) := do
  let line ← through name Reader.readLine
  modify fun s => { s with cursors := s.cursors.insert cursor ⟨name, line⟩ }
  pure line

/-- Closes the reader under a name. -/
def close (name : Text) : Action Sharing Unit := do
  let r ← reader name
  Action.on (fun s => (r, s.host))
    (fun state s => { s with readers := s.readers.insert name state.1, host := state.2 })
    Reader.close

end Sharing

/-- A call as an action on the readers. -/
def SharedCall.action : SharedCall → Action Sharing Answer
  | make name shown => do
    modify fun s => { s with readers := s.readers.insert name (.opened shown) }
    pure .done
  | readLine name => .ofLine <$> Sharing.through name Reader.readLine
  | readLines name => .texts <$> Sharing.through name Reader.readLines
  | readAll name => .text <$> Sharing.through name Reader.readAll
  | beginLines name cursor => .ofLine <$> Sharing.advance cursor name
  | nextLine cursor => do
    let name ← Sharing.readerOf cursor
    .ofLine <$> Sharing.advance cursor name
  | close name => (fun _ => .done) <$> Sharing.close name

/-! ### A place in a text -/

/-- A place in a text: what was taken up to there, piece by piece, and what is left. It is shared by
readers that are open or closed, and by line cursors, each of which goes through a reader. -/
structure Place where
  taken : List Text
  rest : Text
  closed : Dict Text Bool
  readerOf : Dict Text Text

namespace Place

/-- The place at the start of a text. -/
def start (s : Text) : Place := ⟨[], s, Dict.empty, Dict.empty⟩

/-- The place behind the next bytes. -/
def take (bytes : Text) (p : Place) : Place :=
  { p with taken := p.taken ++ [bytes], rest := p.rest.drop bytes.length }

/-- Reads at a place through a reader: takes some of the bytes that are left and answers with them.
Where there is no reader, and where it is closed, this is a fault and the place stays. -/
def read {α : Type} (name : Text) (takes : Text → Text) (answer : Text → α) : Action Place α :=
  ExceptT.mk fun p =>
    match p.closed.get? name with
    | none => (.error .nothingNamed, p)
    | some true => (.error .closedFile, p)
    | some false => (.ok (answer (takes p.rest)), p.take (takes p.rest))

theorem outcome_read {α : Type} (name : Text) (takes : Text → Text) (answer : Text → α)
    (p : Place) :
    (read name takes answer).outcome p =
      match p.closed.get? name with
      | none => (.error .nothingNamed, p)
      | some true => (.error .closedFile, p)
      | some false => (.ok (answer (takes p.rest)), p.take (takes p.rest)) := rfl

/-- The line of the bytes up to a newline, none if there are no bytes. -/
def lineOf? (bytes : Text) : Option Text := if bytes = [] then none else some bytes.lineOf

/-- Reads the next line: takes the bytes up to and with the next newline, or all. -/
def readLine (name : Text) : Action Place (Option Text) := read name Text.firstPiece lineOf?

/-- Reads the next line for a line cursor, which goes through the reader from then on. -/
def advance (cursor name : Text) : Action Place (Option Text) := do
  let line ← readLine name
  modify fun p => { p with readerOf := p.readerOf.insert cursor name }
  pure line

/-- The reader that a line cursor goes through. -/
def nameOf (cursor : Text) : Action Place Text := do
  match (← get).readerOf.get? cursor with
  | some name => pure name
  | none => throw .nothingNamed

/-- Closes a reader, which takes no bytes. One that was open is closed also if the settings are
malformed. -/
def close (environment : Environment) (name : Text) : Action Place Unit :=
  ExceptT.mk fun p =>
    match p.closed.get? name with
    | none => (.error .nothingNamed, p)
    | some true => (.ok (), p)
    | some false =>
      (environment.settings.map fun _ => (), { p with closed := p.closed.insert name true })

theorem outcome_close (environment : Environment) (name : Text) (p : Place) :
    (close environment name).outcome p =
      match p.closed.get? name with
      | none => (.error .nothingNamed, p)
      | some true => (.ok (), p)
      | some false =>
        (environment.settings.map fun _ => (), { p with closed := p.closed.insert name true }) :=
  rfl

end Place

/-- A call as an action at a place. -/
def SharedCall.atPlace (environment : Environment) : SharedCall → Action Place Answer
  | make name _ => do
    modify fun p => { p with closed := p.closed.insert name false }
    pure .done
  | readLine name => .ofLine <$> Place.readLine name
  | readLines name => .texts <$> Place.read name id fun bytes => bytes.pieces.map Text.lineOf
  | readAll name => .text <$> Place.read name id id
  | beginLines name cursor => .ofLine <$> Place.advance cursor name
  | nextLine cursor => do
    let name ← Place.nameOf cursor
    .ofLine <$> Place.advance cursor name
  | close name => (fun _ => .done) <$> Place.close environment name

/-! ### Readers at a place -/

namespace Sharing

open InStream

/-- Readers that share a stream are *at a place* if the stream offers what is left there, and the
readers and the line cursors are those that share the place. -/
structure At (environment : Environment) (s : Sharing) (p : Place) : Prop where
  environment_eq : s.host.environment = environment
  offers : Offers s.host.disk p.rest s.stream
  closed : ∀ name, (s.readers.get? name).map Reader.closed = p.closed.get? name
  readerOf : ∀ cursor, (s.cursors.get? cursor).map LineCursor.file = p.readerOf.get? cursor

variable {environment : Environment}

theorem at_start {content : Text} {stream : InStream} {host : Host}
    (h : Offers host.disk content stream) :
    At host.environment (start stream host) (.start content) :=
  ⟨rfl, h, fun _ => rfl, fun _ => rfl⟩

theorem outcome_through {α : Type} (name : Text) (action : Reader → Disk → Action InStream α)
    (s : Sharing) :
    (through name action).outcome s =
      match s.readers.get? name with
      | none => (.error .nothingNamed, s)
      | some r => (((action r s.host.disk).outcome s.stream).1,
          { s with stream := ((action r s.host.disk).outcome s.stream).2 }) := by
  simp only [through, reader, Action.outcome_bind, Action.outcome_get]
  cases s.readers.get? name <;> rfl

theorem outcome_close (name : Text) (s : Sharing) :
    (close name).outcome s =
      match s.readers.get? name with
      | none => (.error .nothingNamed, s)
      | some r => ((Reader.close.outcome (r, s.host)).1,
          { s with
            readers := s.readers.insert name (Reader.close.outcome (r, s.host)).2.1
            host := (Reader.close.outcome (r, s.host)).2.2 }) := by
  simp only [close, reader, Action.outcome_bind, Action.outcome_get]
  cases s.readers.get? name <;> rfl

end Sharing

namespace Reader

open InStream

/-- What an open reader does to a stream that offers bytes: it takes some of them and answers with
them. A closed one leaves the stream and raises a fault. -/
structure Reads {α : Type} (action : Reader → Disk → Action InStream α) (takes : Text → Text)
    (answer : Text → α) : Prop where
  outcome_of_closed : ∀ {r : Reader}, r.closed = true → ∀ d s,
    (action r d).outcome s = (.error .closedFile, s)
  outcome_of_open : ∀ {r : Reader} {d rest s}, r.closed = false → Offers d rest s →
    ((action r d).outcome s).1 = .ok (answer (takes rest)) ∧
      Offers d (rest.drop (takes rest).length) ((action r d).outcome s).2

theorem reads_readLine : Reads readLine Text.firstPiece Place.lineOf? where
  outcome_of_closed := outcome_readLine_of_closed
  outcome_of_open hr h := by
    obtain ⟨hl, hs⟩ := readLine_of_offers hr h
    rw [Text.drop_length_firstPiece, hl, Text.head?_lines]
    exact ⟨rfl, hs⟩

theorem reads_readLines :
    Reads readLines id fun bytes => bytes.pieces.map Text.lineOf where
  outcome_of_closed := outcome_readLines_of_closed
  outcome_of_open hr h := by
    obtain ⟨hl, hs⟩ := readLines_of_offers hr h
    rw [id, List.drop_length, hl, Text.lines_eq_map_lineOf]
    exact ⟨rfl, hs⟩

theorem reads_readAll : Reads readAll id id where
  outcome_of_closed := outcome_readAll_of_closed
  outcome_of_open hr h := by
    obtain ⟨ha, hs⟩ := readAll_of_offers hr h
    refine ⟨ha, ?_⟩
    rw [id, List.drop_length]
    exact hs

end Reader

namespace Sharing

variable {environment : Environment}

/-! ### Steps -/

/-- Reading through one of the readers is reading at the place. -/
theorem refines_read {α : Type} {action : Reader → Disk → Action InStream α}
    {takes : Text → Text} {answer : Text → α} (ha : Reader.Reads action takes answer)
    (name : Text) :
    (through name action).Refines (At environment) (Place.read name takes answer) := by
  intro s p h
  rw [outcome_through, Place.outcome_read, ← h.closed]
  rcases s.readers.get? name with _ | r
  · exact ⟨rfl, h⟩
  · rw [Option.map_some]
    cases hr : r.closed with
    | true =>
      dsimp only
      rw [ha.outcome_of_closed hr]
      exact ⟨rfl, h⟩
    | false =>
      obtain ⟨he, hs⟩ := ha.outcome_of_open hr h.offers
      exact ⟨he, h.environment_eq, hs, h.closed, h.readerOf⟩

theorem refines_advance (cursor name : Text) :
    (advance cursor name).Refines (At environment) (Place.advance cursor name) := by
  refine (refines_read Reader.reads_readLine name).bind fun line s p h => ⟨rfl, ?_⟩
  exact ⟨h.environment_eq, h.offers, h.closed,
    Dict.map_get?_insert h.readerOf cursor ⟨name, line⟩⟩

theorem refines_readerOf (cursor : Text) :
    (readerOf cursor).Refines (At environment) (Place.nameOf cursor) := by
  intro s p h
  have hc := h.readerOf cursor
  simp only [readerOf, Place.nameOf, Action.outcome_bind, Action.outcome_get, ← hc]
  rcases s.cursors.get? cursor with _ | c
  · exact ⟨rfl, h⟩
  · exact ⟨rfl, h⟩

/-- Closing a reader leaves the stream where it is, and the other readers as they are. -/
theorem refines_close (name : Text) :
    (close name).Refines (At environment) (Place.close environment name) := by
  intro s p h
  rw [outcome_close, Place.outcome_close, ← h.closed]
  rcases hn : s.readers.get? name with _ | r
  · exact ⟨rfl, h⟩
  · rw [Option.map_some]
    dsimp only
    rw [Reader.outcome_close]
    cases hr : r.closed with
    | true =>
      -- the reader is put back as it was
      refine ⟨rfl, h.environment_eq, h.offers, fun k => ?_, h.readerOf⟩
      have hk := h.closed k
      simp only [if_true, Dict.get?_insert]
      split
      · next he => rw [← hk, ← he, hn]
      · exact hk
    | false =>
      have hk := Dict.map_get?_insert h.closed name { r with closed := true }
      have ho := h.offers
      rw [← Host.disk_trace (.readerClosed r.name)] at ho
      refine ⟨?_, (Host.environment_trace _ _).trans h.environment_eq, ho, hk, h.readerOf⟩
      rw [← h.environment_eq]
      exact Host.fst_outcome_trace _ _

theorem refines_make (name shown : Text) :
    (SharedCall.make name shown).action.Refines (At environment)
      ((SharedCall.make name shown).atPlace environment) := by
  intro s p h
  have hk := Dict.map_get?_insert h.closed name (.opened shown)
  exact ⟨rfl, h.environment_eq, h.offers, hk, h.readerOf⟩

end Sharing

/-- What is asked of readers that share a stream is done at the place where they are. -/
theorem SharedCall.refines_atPlace (environment : Environment) (call : SharedCall) :
    call.action.Refines (Sharing.At environment) (call.atPlace environment) := by
  cases call with
  | make name shown => exact Sharing.refines_make name shown
  | readLine name => exact (Sharing.refines_read Reader.reads_readLine name).map _
  | readLines name => exact (Sharing.refines_read Reader.reads_readLines name).map _
  | readAll name => exact (Sharing.refines_read Reader.reads_readAll name).map _
  | beginLines name cursor => exact (Sharing.refines_advance cursor name).map _
  | nextLine cursor =>
    exact (Sharing.refines_readerOf cursor).bind fun name =>
      (Sharing.refines_advance cursor name).map _
  | close name => exact (Sharing.refines_close name).map _

/-! ### What calls take -/

namespace Place

variable {q : List Text → Text → Prop}

/-- A property of what was taken and what is left that stays if some of the bytes that are left are
taken. -/
def KeptByTaking (q : List Text → Text → Prop) : Prop :=
  ∀ taken rest bytes, bytes <+: rest → q taken rest →
    q (taken ++ [bytes]) (rest.drop bytes.length)

theorem keeps_read {α : Type} (hq : KeptByTaking q) (name : Text) {takes : Text → Text}
    (ht : ∀ rest, takes rest <+: rest) (answer : Text → α) :
    (read name takes answer).Keeps fun p => q p.taken p.rest := by
  intro p hp
  rw [outcome_read]
  rcases p.closed.get? name with _ | _ | _
  · exact hp
  · exact hq _ _ _ (ht p.rest) hp
  · exact hp

theorem keeps_advance (hq : KeptByTaking q) (cursor name : Text) :
    (advance cursor name).Keeps fun p => q p.taken p.rest :=
  (keeps_read hq name Text.firstPiece_prefix lineOf?).bind fun _ _ hp => hp

theorem keeps_nameOf (cursor : Text) : (nameOf cursor).Keeps fun p => q p.taken p.rest := by
  intro p hp
  simp only [nameOf, Action.outcome_bind, Action.outcome_get]
  rcases p.readerOf.get? cursor with _ | _ <;> exact hp

theorem keeps_close (environment : Environment) (name : Text) :
    (close environment name).Keeps fun p => q p.taken p.rest := by
  intro p hp
  rw [outcome_close]
  rcases p.closed.get? name with _ | _ | _ <;> exact hp

/-- What stays if some bytes are taken stays whatever is called. -/
theorem keeps_atPlace (hq : KeptByTaking q) (environment : Environment) (call : SharedCall) :
    (call.atPlace environment).Keeps fun p => q p.taken p.rest := by
  cases call with
  | make name shown => exact fun _ hp => hp
  | readLine name => exact (keeps_read hq name Text.firstPiece_prefix _).map _
  | readLines name => exact (keeps_read hq name (fun _ => List.prefix_rfl) _).map _
  | readAll name => exact (keeps_read hq name (fun _ => List.prefix_rfl) _).map _
  | beginLines name cursor => exact (keeps_advance hq cursor name).map _
  | nextLine cursor =>
    exact (keeps_nameOf cursor).bind fun name => (keeps_advance hq cursor name).map _
  | close name => exact (keeps_close environment name).map _

/-- What is taken and what is left make up the same text all the time. -/
theorem keptByTaking_append (content : Text) :
    KeptByTaking fun taken rest => taken.flatten ++ rest = content := by
  intro taken rest bytes hb h
  have hr : bytes ++ rest.drop bytes.length = rest := List.prefix_iff_eq_append.1 hb
  rw [List.flatten_append, List.flatten_singleton, List.append_assoc, hr, h]

/-- Where nothing is left, nothing is left from then on. -/
theorem keptByTaking_nil : KeptByTaking fun _ rest => rest = [] := by
  intro taken rest bytes hb h
  rw [h, List.drop_nil]

end Place

namespace Sharing

open InStream

/-- At the end of the text, an open reader finds no line, no lines and no bytes. -/
theorem outcome_of_at_end {environment : Environment} {s : Sharing} {p : Place}
    (h : At environment s p) (hp : p.rest = []) {name : Text} {r : Reader}
    (hn : s.readers.get? name = some r) (hr : r.closed = false) :
    ((SharedCall.readLine name).action.outcome s).1 = .ok .absent ∧
      ((SharedCall.readLines name).action.outcome s).1 = .ok (.texts []) ∧
      ((SharedCall.readAll name).action.outcome s).1 = .ok (.text []) := by
  have hc : p.closed.get? name = some false := by rw [← h.closed, hn, Option.map_some, hr]
  have he := fun call => (SharedCall.refines_atPlace environment call s p h).1
  rw [he, he, he]
  simp only [SharedCall.atPlace, Place.readLine, Action.outcome_map, Place.outcome_read, hc, hp]
  exact ⟨rfl, rfl, rfl⟩

/-- Whatever is asked of readers that share a stream, and in whatever order, is answered as at one
place that moves on through the bytes that the stream offers. The place is where the stream is, what
was taken and what is left make up the bytes, and once nothing is left, no reader that is open finds
anything any more. -/
theorem each_eq_atPlace {content : Text} {stream : InStream} {host : Host}
    (h : Offers host.disk content stream) (calls : List SharedCall) :
    let shared := Action.each SharedCall.action calls (start stream host)
    let place := Action.each (SharedCall.atPlace host.environment) calls (Place.start content)
    shared.1 = place.1 ∧
      shared.2.stream.visible shared.2.host.disk = place.2.rest ∧
      place.2.taken.flatten ++ place.2.rest = content ∧
      (place.2.rest = [] → ∀ more name r,
        let later := (Action.each SharedCall.action more shared.2).2
        later.readers.get? name = some r → r.closed = false →
          ((SharedCall.readLine name).action.outcome later).1 = .ok .absent ∧
            ((SharedCall.readLines name).action.outcome later).1 = .ok (.texts []) ∧
            ((SharedCall.readAll name).action.outcome later).1 = .ok (.text [])) := by
  intro shared place
  have hrow := Action.Refines.each (SharedCall.refines_atPlace host.environment)
  obtain ⟨he, hat⟩ := hrow calls _ _ (at_start h)
  have hall := Action.Keeps.each
    (Place.keeps_atPlace (Place.keptByTaking_append content) host.environment) calls
    (Place.start content) rfl
  refine ⟨he, hat.offers.visible_eq, hall, ?_⟩
  intro hend more name r later hn hr
  obtain ⟨-, hat'⟩ := hrow more _ _ hat
  have hend' := Action.Keeps.each
    (Place.keeps_atPlace Place.keptByTaking_nil host.environment) more place.2 hend
  exact outcome_of_at_end hat' hend' hn hr

/-- Two readers on three lines: the first takes a line, the second begins to go through lines with
the next one, the first is closed, and the second takes what is left. -/
theorem each_eq_atPlace_two :
    let host := Host.start ⟨none, none⟩ Disk.fresh none
    let stream := InStream.ofText [0x61, 0x0a, 0x62, 0x0d, 0x0a, 0x63] false
    Offers host.disk [0x61, 0x0a, 0x62, 0x0d, 0x0a, 0x63] stream ∧
      (Action.each SharedCall.action
        [.make [1] [], .make [2] [], .readLine [1], .beginLines [2] [3], .close [1], .readLine [1],
          .readAll [2], .nextLine [3]] (start stream host)).1 =
        [.ok .done, .ok .done, .ok (.text [0x61]), .ok (.text [0x62]), .ok .done,
          .error .closedFile, .ok (.text [0x63]), .ok .absent] := by
  intro host stream
  have h : Offers host.disk [0x61, 0x0a, 0x62, 0x0d, 0x0a, 0x63] stream := offers_ofText _ _
  obtain ⟨he, -⟩ := each_eq_atPlace h
    [.make [1] [], .make [2] [], .readLine [1], .beginLines [2] [3], .close [1], .readLine [1],
      .readAll [2], .nextLine [3]]
  exact ⟨h, he⟩

end Sharing

end ScriptBase
