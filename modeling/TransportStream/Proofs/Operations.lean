import TransportStream.Demuxer.Basic

/-!
# Operations and their moments

Whoever owns a demultiplexer calls `run`, `push` and `flush` in any order, and goes on after errors
as well.  `Demuxer.afterAll` is the state that this leads to, and `Demuxer.shown` all that is shown
on the way.

A run is not one step.  Packets are taken one after the other, and the end of the stream may be
declared last; what holds in between matters as much as what holds afterwards.  So an operation is
divided into moments, each with the state it starts from and what comes of it.

* `Demuxer.moments`: the moments of an operation.
* `Demuxer.apply_eq_joined`: together they are the operation.
* `Demuxer.Act`, `Demuxer.act_of_mem_moments`: there are four kinds of moments.
* `Demuxer.holds_at_moments`, `Demuxer.holds_afterAll`: what every act keeps holds throughout.
-/

namespace TransportStream

namespace Demuxer

/-- What can be asked of a demultiplexer. -/
inductive Operation where
  /-- To take all packets of a byte source. -/
  | run (source : ByteSource)
  /-- To take one packet. -/
  | push (bytes : Bytes)
  /-- To declare the end of the stream. -/
  | flush
  deriving DecidableEq

/-- Does what is asked for. -/
def apply (d : Demuxer) : Operation → Outcome Demuxer
  | .run source => d.run source
  | .push bytes => d.push bytes
  | .flush => d.flush

/-- The state after operations.  Errors do not keep the later ones from being carried out. -/
def afterAll (d : Demuxer) (ops : List Operation) : Demuxer :=
  ops.foldl (fun d op => (d.apply op).state) d

/-- What comes of each of the operations. -/
def outcomes (d : Demuxer) : List Operation → List (Outcome Demuxer)
  | [] => []
  | op :: ops => d.apply op :: (d.apply op).state.outcomes ops

/-- All that is shown while operations are carried out, in order. -/
def shown (d : Demuxer) : List Operation → List Event
  | [] => []
  | op :: ops => (d.apply op).events ++ (d.apply op).state.shown ops

theorem afterAll_append (d : Demuxer) (ops later : List Operation) :
    d.afterAll (ops ++ later) = (d.afterAll ops).afterAll later :=
  List.foldl_append

theorem shown_append (d : Demuxer) (ops later : List Operation) :
    d.shown (ops ++ later) = d.shown ops ++ (d.afterAll ops).shown later := by
  induction ops generalizing d with
  | nil => rfl
  | cons op ops ih =>
    rw [List.cons_append, shown, ih, shown, List.append_assoc]
    rfl

/-! ## Moments -/

/-- A part of an operation that is not divided further. -/
structure Moment where
  /-- The state it starts from. -/
  before : Demuxer
  /-- What comes of it. -/
  outcome : Outcome Demuxer
  deriving DecidableEq

/-- The moments of taking the packets found in a byte source: one for each packet, up to an error,
and one for the end of the source. -/
def foundMoments (ending : Option SyncError) (d : Demuxer) : List PacketReader.Found → List Moment
  | [] => [⟨d, endRun ending d⟩]
  | f :: found =>
    let o := d.foundPacket f
    match o.error with
    | some _ => [⟨d, o⟩]
    | none => ⟨d, o⟩ :: foundMoments ending o.state found

/-- The moments of an operation, in order. -/
def moments (d : Demuxer) : Operation → List Moment
  | .run source =>
    let (found, ending) := ({ source } : PacketReader).readAll
    match d.flushed, found with
    | true, f :: _ => [⟨d, d.latePacket.after (Event.ofNotices f.notices)⟩]
    | _, _ => foundMoments ending d found
  | .push bytes => [⟨d, d.push bytes⟩]
  | .flush => [⟨d, d.flush⟩]

/-- Moments that follow each other from a state on, and what they come to. -/
inductive Joined : Demuxer → List Moment → Outcome Demuxer → Prop
  /-- The last moment. -/
  | last (m : Moment) : Joined m.before [m] m.outcome
  /-- A moment without an error is followed by the others. -/
  | cons {m : Moment} {ms : List Moment} {o : Outcome Demuxer} (first : m.outcome.error = none)
      (others : Joined m.outcome.state ms o) :
      Joined m.before (m :: ms) (o.after m.outcome.events)

theorem joined_foundMoments (ending : Option SyncError) (d : Demuxer)
    (found : List PacketReader.Found) :
    Joined d (foundMoments ending d found)
      (Outcome.forEach d found foundPacket (endRun ending)) := by
  induction found generalizing d with
  | nil =>
    rw [Outcome.forEach_nil]
    exact .last ⟨d, endRun ending d⟩
  | cons f found ih =>
    rw [Outcome.forEach_cons, foundMoments]
    cases h : (d.foundPacket f).error with
    | some e =>
      rw [Outcome.andThen, h]
      exact .last ⟨d, d.foundPacket f⟩
    | none =>
      rw [Outcome.andThen_of_error_eq_none h]
      exact .cons (m := ⟨d, d.foundPacket f⟩) h (ih (d.foundPacket f).state)

/-- An operation is what its moments come to. -/
theorem apply_eq_joined (d : Demuxer) (op : Operation) : Joined d (d.moments op) (d.apply op) := by
  cases op with
  | push bytes => exact .last ⟨d, d.push bytes⟩
  | flush => exact .last ⟨d, d.flush⟩
  | run source =>
    rw [moments, apply, run]
    generalize ({ source } : PacketReader).readAll = read
    obtain ⟨found, ending⟩ := read
    cases hflushed : d.flushed with
    | false => exact joined_foundMoments ending d found
    | true =>
      cases found with
      | nil => exact joined_foundMoments ending d []
      | cons f found => exact .last ⟨d, d.latePacket.after (Event.ofNotices f.notices)⟩

/-- What an operation shows is what is shown at its moments. -/
theorem Joined.events {d : Demuxer} {ms : List Moment} {o : Outcome Demuxer} (h : Joined d ms o) :
    o.events = ms.flatMap fun m => m.outcome.events := by
  induction h with
  | last m => simp
  | @cons m ms o first others ih =>
    rw [List.flatMap_cons, ← ih]
    rfl

/-! ## Kinds of moments -/

/-- The four things that can happen at a moment. -/
inductive Act (d : Demuxer) : Outcome Demuxer → Prop
  /-- A packet is taken. -/
  | packet (notices : List Notice) (offset : Nat) (bytes : Bytes) :
      Act d ((d.packetAt offset bytes).after (Event.ofNotices notices))
  /-- A packet after the end of the stream is found. -/
  | late (notices : List Notice) : Act d (d.latePacket.after (Event.ofNotices notices))
  /-- The end of the stream is declared. -/
  | flush : Act d d.flush
  /-- The byte source fails. -/
  | failure (e : DemuxError) : Act d { state := d, error := some e }

/-- A packet after the end of the stream changes nothing that was announced, and no state. -/
theorem directory_latePacket (d : Demuxer) : d.latePacket.state.directory = d.directory := by
  unfold latePacket
  split <;> rfl

theorem act_endRun (ending : Option SyncError) (d : Demuxer) : d.Act (endRun ending d) := by
  cases ending with
  | none => exact .flush
  | some e => exact .failure (.sync e)

variable {P : Demuxer → Prop}

theorem holds_at_foundMoments (h : ∀ d o, P d → d.Act o → P o.state) {ending : Option SyncError}
    {d : Demuxer} {found : List PacketReader.Found} {m : Moment} (hd : P d)
    (hm : m ∈ foundMoments ending d found) : m.before.Act m.outcome ∧ P m.before := by
  induction found generalizing d with
  | nil =>
    obtain rfl := List.mem_singleton.mp hm
    exact ⟨act_endRun ending d, hd⟩
  | cons f found ih =>
    have hact : d.Act (d.foundPacket f) := .packet f.notices f.offset f.bytes
    rw [foundMoments] at hm
    split at hm
    · obtain rfl := List.mem_singleton.mp hm
      exact ⟨hact, hd⟩
    · rcases List.mem_cons.mp hm with rfl | hm
      · exact ⟨hact, hd⟩
      · exact ih (h d _ hd hact) hm

/-- At each moment of an operation one of the four things happens, and what all of them keep holds
there if it holds at first. -/
theorem holds_at_moments (h : ∀ d o, P d → d.Act o → P o.state) {d : Demuxer} {op : Operation}
    {m : Moment} (hd : P d) (hm : m ∈ d.moments op) : m.before.Act m.outcome ∧ P m.before := by
  cases op with
  | push bytes =>
    obtain rfl := List.mem_singleton.mp hm
    exact ⟨.packet [] d.nextOffset bytes, hd⟩
  | flush =>
    obtain rfl := List.mem_singleton.mp hm
    exact ⟨.flush, hd⟩
  | run source =>
    unfold moments at hm
    dsimp only at hm
    split at hm
    · obtain rfl := List.mem_singleton.mp hm
      exact ⟨.late _, hd⟩
    · exact holds_at_foundMoments h hd hm

/-- What holds after all moments of an operation holds after it. -/
theorem Joined.holds (h : ∀ d o, P d → d.Act o → P o.state) {d : Demuxer} {ms : List Moment}
    {o : Outcome Demuxer} (hjoined : Joined d ms o)
    (hms : ∀ m ∈ ms, m.before.Act m.outcome ∧ P m.before) : P o.state := by
  induction hjoined with
  | last m =>
    obtain ⟨hact, hm⟩ := hms m List.mem_cons_self
    exact h _ _ hm hact
  | cons first others ih => exact ih fun m hm => hms m (List.mem_cons_of_mem _ hm)

/-- What every act keeps is kept by every operation. -/
theorem holds_apply (h : ∀ d o, P d → d.Act o → P o.state) {d : Demuxer} (hd : P d)
    (op : Operation) : P (d.apply op).state :=
  (d.apply_eq_joined op).holds h fun _ hm => holds_at_moments h hd hm

/-- What every act keeps holds after all operations if it holds at first. -/
theorem holds_afterAll (h : ∀ d o, P d → d.Act o → P o.state) {d : Demuxer} (hd : P d)
    (ops : List Operation) : P (d.afterAll ops) := by
  induction ops generalizing d with
  | nil => exact hd
  | cons op ops ih => exact ih (holds_apply h hd op)

end Demuxer

end TransportStream
