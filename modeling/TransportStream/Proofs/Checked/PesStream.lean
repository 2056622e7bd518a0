import TransportStream.Demuxer.Directory
import TransportStream.Proofs.Checked.Packet
import TransportStream.Proofs.Checked.Pes
import TransportStream.Proofs.Checked.Video

/-!
# Streams that are cut into frames, by index

A packet is asked for its counter, and for its discontinuity indicator only where the counter is not
the next one.  Its payload goes to the PES packet in progress, and what that makes available to the
framer.

* `packet_eq`: a packet of the stream.
* `flush_eq`: the end of the stream.
-/

namespace TransportStream

namespace Checked

namespace Stream

/-- What the counter of a packet says about the packets before it. -/
def continuity (s : PesStream) (buf : Bytes) (counter : ContinuityCounter) : Option Continuity :=
  match s.lastCounter with
  | none => some .unbroken
  | some last => do
    if counter = last then
      if ← discontinuity buf then return .unbroken else return .duplicate
    else if counter.follows last then return .unbroken
    else if ← discontinuity buf then return .unbroken
    else return .gap last

/-- Adds data to what cuts a stream into frames. -/
def push (f : Framer) (data : Bytes) (unitStart : Bool) (timing : Timing) :
    Option (Framer × List Frame) :=
  match f with
  | .video s => (Video.push s data timing).map (·.map .video id)
  | .audio s => some ((s.push data unitStart timing).map .audio id)

/-- Takes the payload of a packet into the PES packet that it starts or carries on. -/
def accumulate (a : PesAccumulator) (buf payload : Bytes) : Option PesStep := do
  if ← unitStart buf then Pes.unitStart a payload else Pes.continuation a payload

/-- Takes the payload of a packet. -/
def take (s : PesStream) (offset : Nat) (buf payload : Bytes) : Option (Outcome PesStream) := do
  let step ← accumulate s.accumulator buf payload
  let s := { s with accumulator := step.accumulator }
  let noted := Event.ofNotices step.notices
  match step.result with
  | .ok (.ready first) =>
    let (framer, frames) ← push s.framer s.accumulator.available first s.accumulator.timing
    return { state := { s with framer }, events := noted ++ Event.ofFrames frames }
  | .ok .pending | .ok .ignored => return { state := s, events := noted }
  | .error (.needMoreData _ _) =>
    return { state := s, events := noted, error := some (.pesIncomplete offset s.pid) }
  | .error e => return { state := s, events := noted ++ [.notice (.pesDiscarded s.pid offset e)] }

/-- Takes the payload of a packet, if there is one. -/
def take? (s : PesStream) (offset : Nat) (buf : Bytes) : Option Bytes → Option (Outcome PesStream)
  | none => some { state := s }
  | some payload => take s offset buf payload

/-- Processes a packet whose payload has been located. -/
def packet (s : PesStream) (options : DemuxOptions) (offset : Nat) (buf : Bytes)
    (payload : Option Bytes) : Option (Outcome PesStream) := do
  if (← control buf).hasPayload then
    let counter ← counter buf
    let counted := { s with lastCounter := some counter }
    match ← continuity s buf counter with
    | .unbroken => take? counted offset buf payload
    | .duplicate =>
      return { state := counted, events := [.notice (.duplicatePacket s.pid counter)] }
    | .gap last =>
      let resumed :=
        if options.discardOnDiscontinuity then
          { counted with accumulator := counted.accumulator.discard }
        else counted
      let o ← take? resumed offset buf payload
      return o.after [.notice (.continuityGap s.pid last counter)]
  else take? s offset buf payload

/-- Gives what is left of an announced PID as its last frame. -/
def flush : PidState → Option (PidState × List Frame)
  | .pes s =>
    match s.framer with
    | .video f => (Video.flush f).map (·.map (fun f => .pes { s with framer := .video f }) id)
    | .audio f => some (f.flush.map (fun f => .pes { s with framer := .audio f }) id)
  | other => some (other, [])

/-! ## Nothing fails -/

variable {buf : Bytes} {p : Packet}

theorem continuity_eq (h : Reads buf p) (s : PesStream) :
    continuity s buf p.counter = some (s.continuity p) := by
  unfold continuity PesStream.continuity
  cases s.lastCounter with
  | none => rfl
  | some last =>
    simp only [h.discontinuity]
    cases p.discontinuity <;> by_cases hsame : p.counter = last <;>
      cases p.counter.follows last <;> simp [hsame]

theorem push_eq (f : Framer) (data : Bytes) (unitStart : Bool) (timing : Timing) :
    push f data unitStart timing = some (f.push data unitStart timing) := by
  cases f with
  | video s =>
    rw [push, Video.push_eq]
    rfl
  | audio s => rfl

theorem accumulate_eq (h : Reads buf p) (a : PesAccumulator) (payload : Bytes) :
    accumulate a buf payload =
      some (if p.unitStart then a.unitStart payload else a.continuation payload) := by
  rw [accumulate, h.unitStart]
  simp only [Option.bind_eq_bind, Option.bind_some, Pes.unitStart_eq, Pes.continuation_eq]
  exact (apply_ite some _ _ _).symm

theorem take_eq (h : Reads buf p) (s : PesStream) (offset : Nat) (payload : Bytes) :
    take s offset buf payload = some (s.take offset p.unitStart payload) := by
  unfold take PesStream.take
  rw [accumulate_eq h]
  simp only [Option.bind_eq_bind, Option.bind_some, push_eq]
  generalize (if p.unitStart = true then s.accumulator.unitStart payload
    else s.accumulator.continuation payload) = step
  obtain ⟨accumulator, notices, result⟩ := step
  cases result with
  | ok progress => cases progress <;> rfl
  | error e => cases e <;> rfl

theorem take?_eq (h : Reads buf p) (s : PesStream) (offset : Nat) (payload : Option Bytes) :
    take? s offset buf payload = some (s.take? offset p.unitStart payload) := by
  cases payload with
  | none => rfl
  | some payload => exact take_eq h s offset payload

/-- A packet is processed within its bytes. -/
theorem packet_eq (h : Reads buf p) (s : PesStream) (options : DemuxOptions) (offset : Nat)
    (payload : Option Bytes) :
    packet s options offset buf payload = some (s.packet options offset p payload) := by
  unfold packet PesStream.packet
  simp only [h.control, h.counter, continuity_eq h, take?_eq h, Option.bind_eq_bind,
    Option.bind_some]
  split
  · cases s.continuity p <;> rfl
  · rfl

theorem flush_eq (state : PidState) : flush state = some state.flush := by
  cases state with
  | psi s => rfl
  | unframed => rfl
  | pes s =>
    unfold flush PidState.flush PesStream.flush Framer.flush
    dsimp only
    cases s.framer with
    | audio f => rfl
    | video f =>
      dsimp only
      rw [Video.flush_eq]
      rfl

end Stream

end Checked

end TransportStream
