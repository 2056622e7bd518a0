import TransportStream.Demuxer.PesStream
import TransportStream.Proofs.PesEncoding
import TransportStream.Proofs.PesReassembly
import TransportStream.Proofs.VideoSplitting

/-!
# What an elementary stream delivers

An elementary stream is a list of PES packets, each cut into the payloads of transport packets.
What has to come out can be said without the cuts: a frame for each PES packet of audio, and the
segments of the whole for video.  This module says it, and proves it for the packets of one PID.

The proof has two halves.  The first goes through the packets and knows nothing about frames: each
PES packet reaches the framer as pieces of its payload, with the timestamps that apply to it
(`PesStream.yields_units`).  The second knows nothing about packets: such pieces make a framer give
the frames they should (`Framer.framesOfAll_audio`, `Framer.framesOfAll_video`).

* `OutgoingPes.contents`: the payloads of a stream and the timestamps that apply to them.
* `elementaryFrames`: the frames of a stream.
* `PesStream.Yields`: a stream takes packets without error, and gives certain frames in all.
* `PesStream.yields_elementaryFrames`: the two halves together.
-/

namespace TransportStream

/-! ## What has to come out -/

namespace OutgoingPes

/-- The timestamps that apply to a PES packet, given those that applied before.  Without a timestamp
for presentation they stay as they are, and without one for decoding it is the same. -/
def effectiveTiming (before : Timing) (p : OutgoingPes) : Timing :=
  match p.timing.pts with
  | none => before
  | some pts => { pts := some pts, dts := some (p.timing.dts.getD pts) }

/-- The payloads of PES packets, with the timestamps that apply to them. -/
def contents (before : Timing) : List OutgoingPes → List (Bytes × Timing)
  | [] => []
  | p :: ps =>
    (p.payload, p.effectiveTiming before) :: contents (p.effectiveTiming before) ps

end OutgoingPes

/-- The frames of a video stream: the segments of all its content. -/
def videoFrames (pid : Pid) (codec : Codec) (format : NalFormat)
    (content : List (Bytes × Timing)) : List Frame :=
  (format.segments (timedBytes content)).flatMap
    (VideoSplitter.framesOf { pid, codec, format })

/-- The frames of an audio stream: one for each PES packet, unless it is empty. -/
def audioFrames (pid : Pid) (codec : Codec) (content : List (Bytes × Timing)) : List Frame :=
  content.flatMap fun piece => Frame.unlessEmpty pid codec piece.1 piece.2

/-- The frames of an elementary stream. -/
def elementaryFrames (pid : Pid) (codec : Codec) (content : List (Bytes × Timing)) : List Frame :=
  match codec with
  | .h264 => videoFrames pid .h264 .h264 content
  | .h265 => videoFrames pid .h265 .h265 content
  | .aac => audioFrames pid .aac content
  | .mpegAudio => audioFrames pid .mpegAudio content
  | .unsupported => []

/-- The frames of a stream name its PID. -/
theorem pid_of_mem_elementaryFrames {pid : Pid} {codec : Codec} {content : List (Bytes × Timing)}
    {f : Frame} (h : f ∈ elementaryFrames pid codec content) : f.pid = pid := by
  have hone {codec : Codec} {payload : Bytes} {timing : Timing}
      (hf : f ∈ Frame.unlessEmpty pid codec payload timing) : f.pid = pid := by
    unfold Frame.unlessEmpty at hf
    split at hf
    · cases hf
    · rw [List.mem_singleton.mp hf]
  have hvideo {codec : Codec} {format : NalFormat}
      (hf : f ∈ videoFrames pid codec format content) : f.pid = pid := by
    obtain ⟨g, -, hg⟩ := List.mem_flatMap.mp hf
    exact hone hg
  have haudio {codec : Codec} (hf : f ∈ audioFrames pid codec content) : f.pid = pid := by
    obtain ⟨piece, -, hpiece⟩ := List.mem_flatMap.mp hf
    exact hone hpiece
  cases codec with
  | h264 => exact hvideo h
  | h265 => exact hvideo h
  | aac => exact haudio h
  | mpegAudio => exact haudio h
  | unsupported => cases h

/-- The payloads of packets in which the given units start one after the other: each in a packet
that says so, and then carried on. -/
def CutsInto : List Bytes → List OutgoingPacket → Prop
  | [], packets => packets = []
  | unit :: units, packets =>
    ∃ first rest later, packets = first :: rest ++ later ∧ first.unitStart = true ∧
      (∀ p ∈ rest, p.unitStart = false) ∧
      first.payload ++ (rest.map (·.payload)).flatten = unit ∧ CutsInto units later

/-- The packets are numbered without a gap after the given number, if there is one. -/
def CountsFrom : Option ContinuityCounter → List OutgoingPacket → Prop
  | _, [] => True
  | last, p :: ps => (∀ c ∈ last, p.counter.follows c = true) ∧ CountsFrom (some p.counter) ps

/-! ## Pieces in the framer -/

namespace Framer

/-- Adds a piece of payload, if there is one. -/
def feed (f : Framer) : Option PesPiece → Framer × List Frame
  | none => (f, [])
  | some piece => f.push piece.data piece.unitStart piece.timing

/-- Adds pieces one after the other. -/
def feedAll (f : Framer) : List PesPiece → Framer × List Frame
  | [] => (f, [])
  | piece :: pieces =>
    let (f, frames) := f.push piece.data piece.unitStart piece.timing
    let (f, later) := f.feedAll pieces
    (f, frames ++ later)

/-- The frames of pieces, and of what is left at the end. -/
def framesOfAll (f : Framer) (pieces : List PesPiece) : List Frame :=
  (f.feedAll pieces).2 ++ (f.feedAll pieces).1.flush.2

theorem feedAll_filterMap_cons (f : Framer) (step : PesStep) (steps : List PesStep) :
    f.feedAll ((step :: steps).filterMap PesStep.piece?) =
      (((f.feed step.piece?).1.feedAll (steps.filterMap PesStep.piece?)).1,
        (f.feed step.piece?).2 ++
          ((f.feed step.piece?).1.feedAll (steps.filterMap PesStep.piece?)).2) := by
  rw [List.filterMap_cons]
  cases step.piece? with
  | none => rfl
  | some piece => rfl

theorem framesOfAll_cons (f : Framer) (piece : PesPiece) (pieces : List PesPiece) :
    f.framesOfAll (piece :: pieces) =
      (f.push piece.data piece.unitStart piece.timing).2 ++
        (f.push piece.data piece.unitStart piece.timing).1.framesOfAll pieces := by
  simp [framesOfAll, feedAll]

theorem framesOfAll_append (f : Framer) (x y : List PesPiece) :
    f.framesOfAll (x ++ y) = (f.feedAll x).2 ++ (f.feedAll x).1.framesOfAll y := by
  induction x generalizing f with
  | nil => rfl
  | cons piece x ih =>
    rw [List.cons_append, framesOfAll_cons, ih, feedAll, List.append_assoc]

end Framer

/-- The pieces in which content reaches the framer: those of each PES packet come one after the
other, and only the first one of them is a start. -/
def ArrivesAs : List (Bytes × Timing) → List PesPiece → Prop
  | [], pieces => pieces = []
  | content :: contents, pieces =>
    ∃ (data : Bytes) (more : List Bytes) (later : List PesPiece),
      pieces = { unitStart := true, data, timing := content.2 } ::
        more.map (fun data => { unitStart := false, data, timing := content.2 }) ++ later ∧
      data ++ more.flatten = content.1 ∧ ArrivesAs contents later

/-! ## The accumulator after a whole packet -/

namespace PesAccumulator

/-- The accumulator after some steps. -/
def afterSteps (a : PesAccumulator) : List PesStep → PesAccumulator
  | [] => a
  | step :: steps => step.accumulator.afterSteps steps

theorem afterSteps_append_singleton (a : PesAccumulator) (steps : List PesStep) (step : PesStep) :
    a.afterSteps (steps ++ [step]) = step.accumulator := by
  induction steps generalizing a with
  | nil => rfl
  | cons _ steps ih => exact ih _

/-- Payload is available only when the header is complete. -/
theorem startBody_ready {a : PesAccumulator} {bytes : Bytes} {first : Bool}
    (h : (a.startBody bytes).result = .ok (.ready first)) :
    ¬ (a.startBody bytes).accumulator.IsHeaderPending := by
  rw [startBody] at h ⊢
  cases hread : PesHeader.ofBytes bytes with
  | ok header =>
    rintro ⟨held, requested, hstage⟩
    dsimp only at hstage
    rw [(supply_eq _ _ _ _).1] at hstage
    cases hstage
  | error e =>
    rw [hread] at h
    cases e <;> cases h

theorem continuation_ready {a : PesAccumulator} {chunk : Bytes} {first : Bool}
    (h : (a.continuation chunk).result = .ok (.ready first)) :
    ¬ (a.continuation chunk).accumulator.IsHeaderPending := by
  unfold continuation at h ⊢
  split
  · next hstage =>
    rw [hstage] at h
    cases h
  · next hstage =>
    rw [hstage] at h
    cases h
  · next held requested hstage =>
    rw [hstage] at h
    exact startBody_ready h
  · next available remaining hstage =>
    rintro ⟨held, requested, hpending⟩
    rw [(supply_eq _ _ _ _).1] at hpending
    cases hpending

theorem carryOn_ready {a : PesAccumulator} {chunks : List Bytes} {step : PesStep} {first : Bool}
    (hstep : step ∈ a.carryOn chunks) (h : step.result = .ok (.ready first)) :
    ¬ step.accumulator.IsHeaderPending := by
  induction chunks generalizing a with
  | nil => cases hstep
  | cons chunk chunks ih =>
    rcases List.mem_cons.mp hstep with rfl | hstep
    · exact continuation_ready h
    · exact ih hstep

/-- Nor is the header incomplete in the steps over a whole packet that make payload available. -/
theorem deliver_ready {a : PesAccumulator} (ha : ¬ a.IsHeaderPending) {chunk : Bytes}
    {chunks : List Bytes} {step : PesStep} {first : Bool} (hstep : step ∈ a.deliver chunk chunks)
    (h : step.result = .ok (.ready first)) : ¬ step.accumulator.IsHeaderPending := by
  obtain ⟨hacc, hresult⟩ := unitStart_eq ha chunk
  rcases List.mem_cons.mp hstep with rfl | hstep
  · rw [hacc]
    exact startBody_ready (hresult ▸ h)
  · exact carryOn_ready hstep h

/-- A step that makes payload available hands it over with the timestamps in force. -/
theorem timing_of_ready {steps : List PesStep} {step : PesStep} {first : Bool} {timing : Timing}
    (hpieces : ∀ piece ∈ steps.filterMap PesStep.piece?, piece.timing = timing)
    (hstep : step ∈ steps) (h : step.result = .ok (.ready first)) :
    step.accumulator.timing = timing := by
  have hpiece : step.piece? = some {
      unitStart := first
      data := step.accumulator.available
      timing := step.accumulator.timing } := by
    rw [PesStep.piece?, h]
  exact hpieces _ (List.mem_filterMap.mpr ⟨step, hstep, hpiece⟩)

/-- The results of the steps over a whole packet with a good header, which is completed after the
first chunks. -/
def goodResults (early late : List Bytes) : List (Except PesError PesProgress) :=
  early.map (fun _ => .ok .pending) ++
    .ok (.ready true) :: late.map (fun _ => .ok (.ready false))

theorem exists_ok_of_mem_goodResults {early late : List Bytes}
    {result : Except PesError PesProgress} (h : result ∈ goodResults early late) :
    ∃ progress, result = .ok progress := by
  rcases List.mem_append.mp h with h | h
  · obtain ⟨_, -, rfl⟩ := List.mem_map.mp h
    exact ⟨_, rfl⟩
  · rcases List.mem_cons.mp h with rfl | h
    · exact ⟨_, rfl⟩
    · obtain ⟨_, -, rfl⟩ := List.mem_map.mp h
      exact ⟨_, rfl⟩

/-- The last one makes payload available. -/
theorem goodResults_eq_append (early late : List Bytes) :
    ∃ results first, goodResults early late = results ++ [.ok (.ready first)] := by
  rcases List.eq_nil_or_concat late with rfl | ⟨late, x, rfl⟩
  · exact ⟨early.map fun _ => .ok .pending, true, rfl⟩
  · refine ⟨goodResults early late, false, ?_⟩
    rw [goodResults, goodResults, List.concat_eq_append, List.map_append, List.append_assoc]
    rfl

/-- A whole packet with a good header: no step fails, its payload comes in pieces, and afterwards
the next packet can start. -/
theorem deliver_of_ok {a : PesAccumulator} (ha : ¬ a.IsHeaderPending) {chunk : Bytes}
    {chunks : List Bytes} {header : PesHeader}
    (h : PesHeader.ofBytes (chunk ++ chunks.flatten) = .ok header) :
    (∀ step ∈ a.deliver chunk chunks, ∃ progress, step.result = .ok progress) ∧
      (∃ (data : Bytes) (more : List Bytes), data ++ more.flatten = limited header.payloadLength
          ((chunk ++ chunks.flatten).drop header.headerLength) ∧
        (a.deliver chunk chunks).filterMap PesStep.piece? =
          { unitStart := true, data, timing := inherit a.timing header.timing } ::
            more.map fun data =>
              { unitStart := false, data, timing := inherit a.timing header.timing }) ∧
      ¬ (a.afterSteps (a.deliver chunk chunks)).IsHeaderPending ∧
      (a.afterSteps (a.deliver chunk chunks)).timing = inherit a.timing header.timing := by
  obtain ⟨hacc, hresult⟩ := unitStart_eq ha chunk
  obtain ⟨early, first, late, -, -, -, hresults, data, more, hdata, hpieces⟩ :=
    steps_of_ok a [] chunk (a.unitStart chunk)
      (show AsksForMore (PesHeader.ofBytes []) from trivial) h hacc hresult
  have hresults : (a.deliver chunk chunks).map (fun step => step.result) =
      goodResults early late := hresults
  have htimings : ∀ piece ∈ (a.deliver chunk chunks).filterMap PesStep.piece?,
      piece.timing = inherit a.timing header.timing := by
    intro piece hpiece
    rw [deliver, hpieces] at hpiece
    exact timing_of_mem_pieces hpiece
  -- the accumulator afterwards is that of the last step, which has made payload available
  obtain ⟨steps, last, hsteps⟩ : ∃ steps last, a.deliver chunk chunks = steps ++ [last] :=
    ⟨_, _, (List.dropLast_concat_getLast (List.cons_ne_nil _ _)).symm⟩
  have hmem : last ∈ a.deliver chunk chunks := by
    rw [hsteps]
    exact List.mem_append_right _ List.mem_cons_self
  obtain ⟨results, flag, hlast⟩ := goodResults_eq_append early late
  have hready : last.result = .ok (.ready flag) := by
    rw [hsteps, List.map_append, hlast] at hresults
    exact List.head_eq_of_cons_eq (List.append_inj' hresults rfl).2
  refine ⟨fun step hstep => ?_, ⟨data, more, hdata, hpieces⟩, ?_, ?_⟩
  · have hresult : step.result ∈ goodResults early late := by
      rw [← hresults]
      exact List.mem_map_of_mem hstep
    exact exists_ok_of_mem_goodResults hresult
  · rw [hsteps, afterSteps_append_singleton]
    exact deliver_ready ha hmem hready
  · rw [hsteps, afterSteps_append_singleton]
    exact timing_of_ready htimings hmem hready

end PesAccumulator

/-! ## Packets in a stream -/

/-- What stops a stream at a step: the start of a PES packet within the header of another one. -/
def PesStep.error? (step : PesStep) (offset : Nat) (pid : Pid) : Option DemuxError :=
  match step.result with
  | .error (.needMoreData _ _) => some (.pesIncomplete offset pid)
  | _ => none

/-- The step for the payload of a packet. -/
def PesAccumulator.accept (a : PesAccumulator) (unitStart : Bool) (payload : Bytes) : PesStep :=
  if unitStart then a.unitStart payload else a.continuation payload

namespace PesStream

/-- The stream takes packets one after the other without an error, and what it hands out together
with what is left at the end are the given frames. -/
def Yields (options : DemuxOptions) : PesStream → List OutgoingPacket → List Frame → Prop
  | s, [], frames => s.flush.2 = frames
  | s, p :: ps, frames => ∃ next emitted later, frames = emitted ++ later ∧
      (∀ offset, ∃ events,
        s.packet options offset p.packet (some p.payload) = { state := next, events } ∧
          events.filterMap Event.frame? = emitted) ∧
      Yields options next ps later

theorem hasPayload_packet (p : OutgoingPacket) : p.packet.control.hasPayload = true := by
  rw [OutgoingPacket.packet, OutgoingPacket.control]
  split <;> rfl

/-- A packet that is numbered as expected is no repetition, and nothing is missing. -/
theorem continuity_of_follows {s : PesStream} {p : Packet}
    (h : ∀ c ∈ s.lastCounter, p.counter.follows c = true) : s.continuity p = .unbroken := by
  unfold continuity
  cases hlast : s.lastCounter with
  | none => rfl
  | some last =>
    have hfollows := h last (by rw [hlast]; rfl)
    dsimp only
    rw [if_neg (ContinuityCounter.ne_of_follows hfollows), if_pos hfollows]
    exact ite_self _

/-- The stream after one step of its accumulator. -/
def afterStep (s : PesStream) (counter : ContinuityCounter) (step : PesStep) : PesStream :=
  { s with
    accumulator := step.accumulator
    framer := (s.framer.feed step.piece?).1
    lastCounter := some counter }

/-- The step of the accumulator for a packet. -/
def stepFor (s : PesStream) (p : OutgoingPacket) : PesStep :=
  if p.unitStart then s.accumulator.unitStart p.payload else s.accumulator.continuation p.payload

/-- What a packet with a payload does to the accumulator.  A repetition does nothing, and after a
gap the current PES packet is given up first, if the options say so. -/
def stepOn (s : PesStream) (options : DemuxOptions) (p : Packet) (payload : Bytes) : PesStep :=
  match s.continuity p with
  | .unbroken => s.accumulator.accept p.unitStart payload
  | .duplicate => { accumulator := s.accumulator, result := .ok .ignored }
  | .gap _ =>
    (if options.discardOnDiscontinuity then s.accumulator.discard else s.accumulator).accept
      p.unitStart payload

/-- Whatever becomes of a payload, the framer is fed with the piece that the step hands over. -/
theorem take_eq (s : PesStream) (offset : Nat) (unitStart : Bool) (payload : Bytes) :
    let step := s.accumulator.accept unitStart payload
    ∃ events, s.take offset unitStart payload = {
        state := {
          s with accumulator := step.accumulator, framer := (s.framer.feed step.piece?).1 }
        events
        error := step.error? offset s.pid } ∧
      events.filterMap Event.frame? = (s.framer.feed step.piece?).2 := by
  intro step
  unfold take
  rw [show (if unitStart = true then s.accumulator.unitStart payload
    else s.accumulator.continuation payload) = step from rfl]
  dsimp only
  rw [PesStep.piece?, PesStep.error?]
  cases step.result with
  | ok progress =>
    cases progress with
    | ready first =>
      refine ⟨_, rfl, ?_⟩
      rw [List.filterMap_append, Event.filterMap_frame?_ofNotices, Event.filterMap_frame?_ofFrames]
      rfl
    | pending => exact ⟨_, rfl, Event.filterMap_frame?_ofNotices _⟩
    | ignored => exact ⟨_, rfl, Event.filterMap_frame?_ofNotices _⟩
  | error e =>
    cases e with
    | needMoreData => exact ⟨_, rfl, Event.filterMap_frame?_ofNotices _⟩
    | _ =>
      refine ⟨_, rfl, ?_⟩
      rw [List.filterMap_append, Event.filterMap_frame?_ofNotices]
      rfl

/-- What comes of a packet with a payload, by the step of the accumulator. -/
theorem packet_eq (s : PesStream) (options : DemuxOptions) (offset : Nat) {p : Packet}
    (hp : p.control.hasPayload = true) (payload : Bytes) :
    let step := s.stepOn options p payload
    ∃ events, s.packet options offset p (some payload) = {
        state := s.afterStep p.counter step
        events
        error := step.error? offset s.pid } ∧
      events.filterMap Event.frame? = (s.framer.feed step.piece?).2 := by
  intro step
  unfold packet
  rw [if_pos hp]
  cases hcontinuity : s.continuity p with
  | unbroken =>
    have hstep : step = s.accumulator.accept p.unitStart payload := by
      show s.stepOn options p payload = _
      rw [stepOn, hcontinuity]
    rw [hstep]
    exact take_eq { s with lastCounter := some p.counter } offset p.unitStart payload
  | duplicate =>
    have hstep : step = { accumulator := s.accumulator, result := .ok .ignored } := by
      show s.stepOn options p payload = _
      rw [stepOn, hcontinuity]
    rw [hstep]
    exact ⟨_, rfl, rfl⟩
  | gap last =>
    let a := if options.discardOnDiscontinuity then s.accumulator.discard else s.accumulator
    have hstep : step = a.accept p.unitStart payload := by
      show s.stepOn options p payload = _
      rw [stepOn, hcontinuity]
    obtain ⟨events, htake, hframes⟩ := take_eq
      { s with accumulator := a, lastCounter := some p.counter } offset p.unitStart payload
    have hresumed : (if options.discardOnDiscontinuity then
          ({ s with lastCounter := some p.counter
                    accumulator := s.accumulator.discard } : PesStream)
        else { s with lastCounter := some p.counter }) =
        { s with accumulator := a, lastCounter := some p.counter } := by
      by_cases hdiscard : options.discardOnDiscontinuity = true
      · simp only [a, if_pos hdiscard]
      · simp only [a, if_neg hdiscard]
    dsimp only
    rw [hresumed, take?, htake, hstep]
    exact ⟨_, rfl, hframes⟩

/-- A packet that is numbered as expected goes through the accumulator into the framer. -/
theorem packet_of_follows (options : DemuxOptions) {s : PesStream} {p : OutgoingPacket}
    (h : ∀ c ∈ s.lastCounter, p.counter.follows c = true) {progress : PesProgress}
    (hok : (s.stepFor p).result = .ok progress) (offset : Nat) :
    ∃ events, s.packet options offset p.packet (some p.payload) =
        { state := s.afterStep p.counter (s.stepFor p), events } ∧
      events.filterMap Event.frame? = (s.framer.feed (s.stepFor p).piece?).2 := by
  have hcontinuity : s.continuity p.packet = .unbroken := continuity_of_follows h
  have hstep : s.stepOn options p.packet p.payload = s.stepFor p := by
    rw [stepOn, hcontinuity]
    rfl
  have hnone : (s.stepFor p).error? offset s.pid = none := by
    rw [PesStep.error?, hok]
  obtain ⟨events, hpacket, hframes⟩ :=
    packet_eq s options offset (hasPayload_packet p) p.payload
  rw [hstep] at hpacket hframes
  rw [hnone] at hpacket
  exact ⟨events, hpacket, hframes⟩

/-- Packets that carry on a PES packet, and packets after them. -/
theorem yields_carryOn (options : DemuxOptions) {s : PesStream} {ps qs : List OutgoingPacket}
    (hunit : ∀ p ∈ ps, p.unitStart = false) (hcounts : CountsFrom s.lastCounter (ps ++ qs))
    (hok : ∀ step ∈ s.accumulator.carryOn (ps.map (·.payload)), ∃ progress,
      step.result = .ok progress) :
    ∃ next : PesStream,
      next.accumulator = s.accumulator.afterSteps (s.accumulator.carryOn (ps.map (·.payload))) ∧
      next.framer = (s.framer.feedAll ((s.accumulator.carryOn (ps.map (·.payload))).filterMap
        PesStep.piece?)).1 ∧
      CountsFrom next.lastCounter qs ∧
      ∀ later, Yields options next qs later → Yields options s (ps ++ qs)
        ((s.framer.feedAll ((s.accumulator.carryOn (ps.map (·.payload))).filterMap
          PesStep.piece?)).2 ++ later) := by
  induction ps generalizing s with
  | nil => exact ⟨s, rfl, rfl, hcounts, fun later hlater => hlater⟩
  | cons p ps ih =>
    obtain ⟨hp, hunit⟩ := List.forall_mem_cons.mp hunit
    obtain ⟨hfollows, hcounts⟩ := hcounts
    have hstep : s.stepFor p = s.accumulator.continuation p.payload := by
      rw [stepFor, hp]
      rfl
    rw [List.map_cons, PesAccumulator.carryOn, ← hstep] at hok ⊢
    rw [Framer.feedAll_filterMap_cons]
    obtain ⟨⟨progress, hprogress⟩, hok⟩ := List.forall_mem_cons.mp hok
    obtain ⟨next, hacc, hframer, hnext, hyields⟩ :=
      @ih (s.afterStep p.counter (s.stepFor p)) hunit hcounts hok
    refine ⟨next, hacc, hframer, hnext, ?_⟩
    intro later hlater
    rw [List.append_assoc]
    exact ⟨s.afterStep p.counter (s.stepFor p), _, _, rfl,
      packet_of_follows options hfollows hprogress, hyields later hlater⟩

/-- The packets of one PES packet, and packets after them. -/
theorem yields_unit (options : DemuxOptions) {s : PesStream} {p : OutgoingPacket}
    {ps qs : List OutgoingPacket} (hp : p.unitStart = true)
    (hunit : ∀ p ∈ ps, p.unitStart = false)
    (hcounts : CountsFrom s.lastCounter (p :: ps ++ qs))
    (hok : ∀ step ∈ s.accumulator.deliver p.payload (ps.map (·.payload)), ∃ progress,
      step.result = .ok progress) :
    ∃ next : PesStream,
      next.accumulator = s.accumulator.afterSteps
        (s.accumulator.deliver p.payload (ps.map (·.payload))) ∧
      next.framer = (s.framer.feedAll ((s.accumulator.deliver p.payload
        (ps.map (·.payload))).filterMap PesStep.piece?)).1 ∧
      CountsFrom next.lastCounter qs ∧
      ∀ later, Yields options next qs later → Yields options s (p :: ps ++ qs)
        ((s.framer.feedAll ((s.accumulator.deliver p.payload
          (ps.map (·.payload))).filterMap PesStep.piece?)).2 ++ later) := by
  obtain ⟨hfollows, hcounts⟩ := hcounts
  have hstep : s.stepFor p = s.accumulator.unitStart p.payload := by
    rw [stepFor, hp]
    rfl
  rw [PesAccumulator.deliver, ← hstep] at hok ⊢
  rw [Framer.feedAll_filterMap_cons]
  obtain ⟨⟨progress, hprogress⟩, hok⟩ := List.forall_mem_cons.mp hok
  obtain ⟨next, hacc, hframer, hnext, hyields⟩ :=
    @yields_carryOn options (s.afterStep p.counter (s.stepFor p)) ps qs hunit hcounts hok
  refine ⟨next, hacc, hframer, hnext, ?_⟩
  intro later hlater
  rw [List.append_assoc]
  exact ⟨s.afterStep p.counter (s.stepFor p), _, _, rfl,
    packet_of_follows options hfollows hprogress, hyields later hlater⟩

/-- **Packets reach the framer.**  The payload of each PES packet arrives in pieces, with the
timestamps that apply to it. -/
theorem yields_units (options : DemuxOptions) {s : PesStream} {units : List OutgoingPes}
    {packets : List OutgoingPacket} (ha : ¬ s.accumulator.IsHeaderPending)
    (hcut : CutsInto (units.map OutgoingPes.bytes) packets)
    (hcounts : CountsFrom s.lastCounter packets) :
    ∃ pieces, ArrivesAs (OutgoingPes.contents s.accumulator.timing units) pieces ∧
      Yields options s packets (s.framer.framesOfAll pieces) := by
  induction units generalizing s packets with
  | nil =>
    obtain rfl : packets = [] := hcut
    exact ⟨[], rfl, rfl⟩
  | cons unit units ih =>
    obtain ⟨first, rest, later, rfl, hfirst, hrest, hbytes, hcut⟩ := hcut
    have hread : PesHeader.ofBytes (first.payload ++ (rest.map (·.payload)).flatten) =
        .ok unit.header := hbytes ▸ unit.ofBytes_bytes
    obtain ⟨hok, ⟨data, more, hdata, hpieces⟩, hpending, htiming⟩ :=
      PesAccumulator.deliver_of_ok ha hread
    obtain ⟨next, hacc, hframer, hcounts, hyields⟩ := yields_unit options hfirst hrest hcounts hok
    rw [← hacc] at hpending htiming
    obtain ⟨pieces, harrives, hlater⟩ := ih hpending hcut hcounts
    have heffective : PesAccumulator.inherit s.accumulator.timing unit.header.timing =
        unit.effectiveTiming s.accumulator.timing := rfl
    have hpayload : data ++ more.flatten = unit.payload := by
      rw [hdata, hbytes, OutgoingPes.bytes]
      rw [show unit.header.headerLength = unit.headerBytes.length from rfl, List.drop_left]
      cases hlength : unit.header.payloadLength with
      | none => rfl
      | some n => rw [unit.payloadLength_header hlength, limited, List.take_length]
    rw [heffective] at hpieces htiming
    rw [hframer] at hlater
    rw [hpieces] at hlater hyields
    refine ⟨_ ++ pieces, ⟨data, more, pieces, rfl, hpayload, htiming ▸ harrives⟩, ?_⟩
    rw [Framer.framesOfAll_append]
    exact hyields _ hlater

end PesStream

/-! ## Frames of audio -/

namespace AudioSegmenter

/-- The segmenter waits with the given data, which has the given timestamps. -/
structure Holds (s : AudioSegmenter) (pid : Pid) (codec : Codec) (data : Bytes)
    (timing : Timing) : Prop where
  /-- The PID. -/
  pid : s.pid = pid
  /-- The codec. -/
  codec : s.codec = codec
  /-- The data. -/
  payload : s.buffer.payload = data
  /-- The timestamps, if there is data. -/
  pending : data ≠ [] → s.buffer.pending = timing

variable {s : AudioSegmenter} {pid : Pid} {codec : Codec} {held : Bytes} {before : Timing}

theorem Holds.isEmpty (h : s.Holds pid codec held before) :
    s.buffer.isEmpty = true ↔ held = [] := by
  rw [FrameBuffer.isEmpty_iff_payload_eq_nil, h.payload]

/-- What is left becomes a frame, unless nothing is. -/
theorem Holds.flush (h : s.Holds pid codec held before) :
    s.flush.2 = Frame.unlessEmpty pid codec held before ∧ s.flush.1.Holds pid codec [] before := by
  obtain ⟨rfl, rfl, rfl, hpending⟩ := h
  refine ⟨?_, rfl, rfl, rfl, fun hne => absurd rfl hne⟩
  rw [AudioSegmenter.flush, Frame.unlessEmpty, Frame.unlessEmpty]
  split
  · rfl
  · next hne => rw [hpending (by simpa using hne)]

theorem Holds.append (h : s.Holds pid codec held before) (data : Bytes) {timing : Timing}
    (hsame : held ≠ [] → timing = before) :
    Holds { s with buffer := s.buffer.append data timing } pid codec (held ++ data) timing := by
  refine ⟨h.pid, h.codec, ?_, fun _ => ?_⟩
  · rw [FrameBuffer.payload_append, h.payload]
  · rw [FrameBuffer.append]
    split
    · rfl
    · next hne =>
      have hheld : held ≠ [] := fun hnil => hne (h.isEmpty.mpr hnil)
      rw [h.pending hheld, hsame hheld]

/-- Data that starts a PES packet completes the frame before it. -/
theorem Holds.push_start (h : s.Holds pid codec held before) (data : Bytes) (timing : Timing) :
    (s.push data true timing).2 = Frame.unlessEmpty pid codec held before ∧
      (s.push data true timing).1.Holds pid codec data timing := by
  by_cases hheld : held = []
  · have hcloses : s.closes true timing = false := by
      rw [closes, h.isEmpty.mpr hheld]
      rfl
    subst hheld
    rw [push, hcloses]
    exact ⟨rfl, h.append data fun hne => absurd rfl hne⟩
  · have hcloses : s.closes true timing = true := by
      have hne : s.buffer.isEmpty = false :=
        Bool.eq_false_iff.mpr fun hempty => hheld (h.isEmpty.mp hempty)
      rw [closes, hne]
      rfl
    obtain ⟨hflush, hflushed⟩ := h.flush
    rw [push, hcloses, if_pos rfl]
    exact ⟨hflush, hflushed.append data fun hne => absurd rfl hne⟩

/-- Data that carries it on belongs to the same frame. -/
theorem Holds.push_more (h : s.Holds pid codec held before) (data : Bytes) :
    (s.push data false before).2 = [] ∧
      (s.push data false before).1.Holds pid codec (held ++ data) before := by
  have hcloses : s.closes false before = false := by
    by_cases hheld : held = []
    · rw [closes, h.isEmpty.mpr hheld]
      rfl
    · rw [closes, h.pending hheld]
      simp
  rw [push, hcloses]
  exact ⟨rfl, h.append data fun _ => rfl⟩

end AudioSegmenter

namespace Framer

/-- The pieces that carry on a PES packet complete no frame. -/
theorem framesOfAll_more {s : AudioSegmenter} {pid : Pid} {codec : Codec} {held : Bytes}
    {timing : Timing} (h : s.Holds pid codec held timing) (more : List Bytes)
    (later : List PesPiece) :
    ∃ s' : AudioSegmenter, s'.Holds pid codec (held ++ more.flatten) timing ∧
      (audio s).framesOfAll (more.map (fun data => { unitStart := false, data, timing }) ++ later) =
        (audio s').framesOfAll later := by
  induction more generalizing s held with
  | nil => exact ⟨s, by simpa using h, rfl⟩
  | cons data more ih =>
    obtain ⟨hframes, hpush⟩ := h.push_more data
    obtain ⟨s', hs', hlater⟩ := ih hpush
    refine ⟨s', by simpa using hs', ?_⟩
    rw [List.map_cons, List.cons_append, framesOfAll_cons, ← hlater,
      show ((audio s).push data false timing).2 = (s.push data false timing).2 from rfl, hframes]
    rfl

/-- The frames of an audio stream: that of the data at hand, and one for each PES packet. -/
theorem framesOfAll_audio {s : AudioSegmenter} {pid : Pid} {codec : Codec} {held : Bytes}
    {before : Timing} (h : s.Holds pid codec held before) {contents : List (Bytes × Timing)}
    {pieces : List PesPiece} (harrives : ArrivesAs contents pieces) :
    (audio s).framesOfAll pieces =
      Frame.unlessEmpty pid codec held before ++ audioFrames pid codec contents := by
  induction contents generalizing s held before pieces with
  | nil =>
    obtain rfl : pieces = [] := harrives
    rw [audioFrames, List.flatMap_nil, List.append_nil, ← h.flush.1]
    rfl
  | cons content contents ih =>
    obtain ⟨data, more, later, rfl, hdata, harrives⟩ := harrives
    obtain ⟨hframes, hpush⟩ := h.push_start data content.2
    obtain ⟨s', hs', hlater⟩ := framesOfAll_more hpush more later
    rw [List.cons_append, framesOfAll_cons,
      show ((audio s).push data true content.2).2 = (s.push data true content.2).2 from rfl,
      hframes,
      show ((audio s).push data true content.2).1 = audio (s.push data true content.2).1 from rfl,
      hlater, ih hs' harrives, hdata]
    rfl

/-! ## Frames of video -/

/-- Where PES packets start does not matter to video. -/
theorem framesOfAll_video (s : VideoSplitter) (pieces : List PesPiece) :
    (video s).framesOfAll pieces =
      (s.pushAll (pieces.map fun piece => (piece.data, piece.timing))).2.flatten ++
        (s.pushAll (pieces.map fun piece => (piece.data, piece.timing))).1.flush.2 := by
  induction pieces generalizing s with
  | nil => rfl
  | cons piece pieces ih =>
    rw [framesOfAll_cons,
      show ((video s).push piece.data piece.unitStart piece.timing).1 =
        video (s.push piece.data piece.timing).1 from rfl, ih]
    simp only [List.map_cons, VideoSplitter.pushAll, List.flatten_cons, List.append_assoc]
    rfl

theorem timedBytes_arrivesAs {contents : List (Bytes × Timing)} {pieces : List PesPiece}
    (h : ArrivesAs contents pieces) :
    timedBytes (pieces.map fun piece => (piece.data, piece.timing)) = timedBytes contents := by
  induction contents generalizing pieces with
  | nil =>
    obtain rfl : pieces = [] := h
    rfl
  | cons content contents ih =>
    obtain ⟨data, more, later, rfl, hdata, harrives⟩ := h
    have hmore :
        (more.flatMap fun data => timed data content.2) = timed more.flatten content.2 := by
      rw [timed, List.map_flatten, List.flatMap_def]
      rfl
    have hlater := ih harrives
    simp only [timedBytes, List.map_append, List.map_cons, List.map_map, List.flatMap_append,
      List.flatMap_cons, List.flatMap_map, Function.comp_def] at hlater ⊢
    rw [hmore, hlater, ← hdata, timed, timed, timed, List.map_append]

end Framer

namespace Framer

/-- A new splitter gives the segments of the whole stream. -/
theorem framesOfAll_new_video (pid : Pid) (codec : Codec) (format : NalFormat)
    {contents : List (Bytes × Timing)} {pieces : List PesPiece} (h : ArrivesAs contents pieces) :
    (video { pid, codec, format }).framesOfAll pieces = videoFrames pid codec format contents := by
  rw [framesOfAll_video, (VideoSplitter.isFresh_new pid codec format).flatten_pushAll,
    timedBytes_arrivesAs h]
  rfl

/-- A new segmenter gives a frame for each PES packet. -/
theorem framesOfAll_new_audio (pid : Pid) (codec : Codec) {contents : List (Bytes × Timing)}
    {pieces : List PesPiece} (h : ArrivesAs contents pieces) :
    (audio { pid, codec }).framesOfAll pieces = audioFrames pid codec contents := by
  have hnew : AudioSegmenter.Holds { pid, codec } pid codec [] {} :=
    ⟨rfl, rfl, rfl, fun hne => absurd rfl hne⟩
  rw [framesOfAll_audio hnew h]
  rfl

end Framer

namespace PesStream

/-- A stream that has just been announced: nothing has arrived, and its framer gives the frames of
what does. -/
theorem of_ofBinding? {binding : StreamBinding} {s : PesStream}
    (h : ofBinding? binding = some s) :
    s.accumulator = {} ∧ s.lastCounter = none ∧
      ∀ contents pieces, ArrivesAs contents pieces →
        s.framer.framesOfAll pieces = elementaryFrames binding.pid binding.codec contents := by
  unfold ofBinding? at h
  unfold elementaryFrames
  cases hcodec : binding.codec with
  | h264 =>
    rw [hcodec] at h
    cases h
    exact ⟨rfl, rfl, fun contents pieces => Framer.framesOfAll_new_video _ _ _⟩
  | h265 =>
    rw [hcodec] at h
    cases h
    exact ⟨rfl, rfl, fun contents pieces => Framer.framesOfAll_new_video _ _ _⟩
  | aac =>
    rw [hcodec] at h
    cases h
    exact ⟨rfl, rfl, fun contents pieces => Framer.framesOfAll_new_audio _ _⟩
  | mpegAudio =>
    rw [hcodec] at h
    cases h
    exact ⟨rfl, rfl, fun contents pieces => Framer.framesOfAll_new_audio _ _⟩
  | unsupported =>
    rw [hcodec] at h
    cases h

/-- **What an elementary stream delivers.**  A stream that has just been announced takes its packets
without an error, and gives its frames. -/
theorem yields_elementaryFrames (options : DemuxOptions) {binding : StreamBinding} {s : PesStream}
    (hs : ofBinding? binding = some s) {units : List OutgoingPes} {packets : List OutgoingPacket}
    (hcut : CutsInto (units.map OutgoingPes.bytes) packets) (hcounts : CountsFrom none packets) :
    Yields options s packets
      (elementaryFrames binding.pid binding.codec (OutgoingPes.contents {} units)) := by
  obtain ⟨haccumulator, hcounter, hframes⟩ := of_ofBinding? hs
  have hidle : ¬ s.accumulator.IsHeaderPending := by
    rintro ⟨held, requested, hstage⟩
    rw [haccumulator] at hstage
    cases hstage
  obtain ⟨pieces, harrives, hyields⟩ := yields_units options hidle hcut (hcounter ▸ hcounts)
  rw [haccumulator] at harrives
  rwa [hframes _ _ harrives] at hyields

end PesStream

end TransportStream
