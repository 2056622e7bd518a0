import TransportStream.Event
import TransportStream.PacketReader

/-!
# Outcomes of demultiplexing

Every operation of the demultiplexer leaves a state, has shown events on the way, and may have been
stopped by an error.  The state is there also after an error: what is buffered stays buffered, and
the operations after it go on from there.
-/

namespace TransportStream

/-- What stops the demultiplexer. -/
inductive DemuxError where
  /-- No packet can be read, or what was given is not a packet. -/
  | sync (e : SyncError)
  /-- The header of the packet at `offset` is malformed. -/
  | packet (offset : Nat) (pid : Pid) (e : PacketError)
  /-- A section completed by the packet at `offset` cannot be used. -/
  | table (offset : Nat) (pid : Pid) (e : SectionError)
  /-- A PES packet starts with the packet at `offset` while the header of the one before is still
  incomplete. -/
  | pesIncomplete (offset : Nat) (pid : Pid)
  deriving DecidableEq

/-- The wording of the cause of an error, if the error is not its own cause. -/
def DemuxError.cause : DemuxError → Option String
  | sync e => some e.message
  | packet _ _ e => some e.message
  | table _ _ e => some e.message
  | pesIncomplete _ _ => none

/-- The wording of a demultiplexing error. -/
def DemuxError.message : DemuxError → String
  | sync e => e.message
  | packet offset pid e => s!"packet at offset {offset} on {pid.text}: " ++ e.message
  | table offset pid e => s!"section at offset {offset} on {pid.text}: " ++ e.message
  | pesIncomplete offset pid =>
    s!"PES packet at offset {offset} on {pid.text} started before previous PES header was complete"

/-- What an operation on a `σ` leaves, shows and fails with. -/
structure Outcome (σ : Type) where
  /-- The state afterwards. -/
  state : σ
  /-- What was shown on the way, in order. -/
  events : List Event := []
  /-- What stopped the operation. -/
  error : Option DemuxError := none
  deriving DecidableEq

namespace Outcome

variable {σ τ : Type}

/-- The same, with events that were shown before. -/
def after (o : Outcome σ) (events : List Event) : Outcome σ :=
  { o with events := events ++ o.events }

/-- The same, seen as an operation on the whole of which the state is a part. -/
def map (o : Outcome σ) (f : σ → τ) : Outcome τ :=
  { state := f o.state, events := o.events, error := o.error }

/-- Goes on with another operation, unless an error stopped this one. -/
def andThen (o : Outcome σ) (next : σ → Outcome σ) : Outcome σ :=
  match o.error with
  | some _ => o
  | none => (next o.state).after o.events

theorem andThen_of_error_eq_none {o : Outcome σ} (h : o.error = none) (next : σ → Outcome σ) :
    o.andThen next = (next o.state).after o.events := by
  rw [andThen, h]

/-- Operates on the elements of a list one after the other, up to an error, and then ends.  What
was shown so far is held with the last event in front. -/
def each {α : Type} (step : σ → α → Outcome σ) (ending : σ → Outcome σ) (shown : List Event)
    (s : σ) : List α → Outcome σ
  | [] => (ending s).after shown.reverse
  | a :: as =>
    let o := step s a
    match o.error with
    | some _ => o.after shown.reverse
    | none => each step ending (o.events.reverse ++ shown) o.state as

/-- Operates on the elements of a list one after the other, up to an error, and then ends. -/
def forEach {α : Type} (s : σ) (as : List α) (step : σ → α → Outcome σ)
    (ending : σ → Outcome σ) : Outcome σ :=
  each step ending [] s as

theorem each_eq {α : Type} (step : σ → α → Outcome σ) (ending : σ → Outcome σ)
    (shown : List Event) (s : σ) (as : List α) :
    each step ending shown s as = (forEach s as step ending).after shown.reverse := by
  unfold forEach
  induction as generalizing shown s with
  | nil => simp [each, after]
  | cons a as ih =>
    rw [each, each]
    split
    · simp [after]
    · rw [ih, ih (_ ++ [])]
      simp [after]

theorem forEach_nil {α : Type} (s : σ) (step : σ → α → Outcome σ) (ending : σ → Outcome σ) :
    forEach s [] step ending = ending s := by
  simp [forEach, each, after]

/-- The first element comes first, and the others follow unless it failed. -/
theorem forEach_cons {α : Type} (s : σ) (a : α) (as : List α) (step : σ → α → Outcome σ)
    (ending : σ → Outcome σ) :
    forEach s (a :: as) step ending = (step s a).andThen fun s => forEach s as step ending := by
  rw [forEach, each]
  split
  · next h =>
    rw [andThen, h]
    rfl
  · next h =>
    rw [each_eq, andThen_of_error_eq_none h]
    simp

end Outcome

end TransportStream
