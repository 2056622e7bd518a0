import TransportStream.Proofs.IntactPackets
import TransportStream.Proofs.StreamDelivery

/-!
# Packets on a PID that is cut into frames

Intact packets on a PID that carries audio or video are pushed into a demultiplexer.  Each of them
is a step of the accumulator of the PID, which may hand a piece of payload to the framer.  This
module says which pieces these are, whatever the counters of the packets are, and proves that
nothing else reaches the framer.

* `PesStream.steps`: the steps of the accumulator, without the demultiplexer.
* `Demuxer.handed`: the pieces that pushing packets hands to the framer.
* `Demuxer.pushed_pes`: pushing the packets is taking the steps.
* `Demuxer.framer_of_handed`: the frames that come out are those of the pieces.
-/

namespace TransportStream

namespace PesStream

variable {pid : Pid} {s : PesStream} {options : DemuxOptions}

/-- The steps of the accumulator for intact packets. -/
def steps (s : PesStream) (options : DemuxOptions) : List (IntactPacket pid) → List PesStep
  | [] => []
  | p :: ps =>
    let step := s.stepOn options p.packet p.payload
    step :: (s.afterStep p.packet.counter step).steps options ps

/-- The stream after intact packets. -/
def afterPackets (s : PesStream) (options : DemuxOptions) (packets : List (IntactPacket pid)) :
    PesStream :=
  packets.foldl
    (fun s p => s.afterStep p.packet.counter (s.stepOn options p.packet p.payload)) s

theorem afterPackets_append (s : PesStream) (options : DemuxOptions)
    (ps qs : List (IntactPacket pid)) :
    s.afterPackets options (ps ++ qs) = (s.afterPackets options ps).afterPackets options qs :=
  List.foldl_append

theorem steps_append (s : PesStream) (options : DemuxOptions) (ps qs : List (IntactPacket pid)) :
    s.steps options (ps ++ qs) =
      s.steps options ps ++ (s.afterPackets options ps).steps options qs := by
  induction ps generalizing s with
  | nil => rfl
  | cons p ps ih =>
    rw [List.cons_append, steps, ih]
    rfl

/-- The accumulator afterwards is that of the last step. -/
theorem accumulator_afterPackets (s : PesStream) (options : DemuxOptions)
    (packets : List (IntactPacket pid)) :
    (s.afterPackets options packets).accumulator =
      s.accumulator.afterSteps (s.steps options packets) := by
  induction packets generalizing s with
  | nil => rfl
  | cons p packets ih => exact ih _

/-- The framer afterwards has been fed with the pieces that the steps hand over. -/
theorem framer_afterPackets (s : PesStream) (options : DemuxOptions)
    (packets : List (IntactPacket pid)) :
    (s.afterPackets options packets).framer =
      (s.framer.feedAll ((s.steps options packets).filterMap PesStep.piece?)).1 := by
  induction packets generalizing s with
  | nil => rfl
  | cons p packets ih =>
    rw [steps, Framer.feedAll_filterMap_cons]
    exact ih _

/-- The last counter is that of the last packet. -/
theorem lastCounter_afterPackets_ne_none {packets : List (IntactPacket pid)}
    (h : packets ≠ [] ∨ s.lastCounter ≠ none) :
    (s.afterPackets options packets).lastCounter ≠ none := by
  induction packets generalizing s with
  | nil => exact h.resolve_left fun hne => hne rfl
  | cons p packets ih => exact ih (.inr (Option.some_ne_none _))

end PesStream

namespace Demuxer

variable {d : Demuxer} {pid : Pid} {s : PesStream}

/-- The piece of payload that pushing a packet hands to the framer of its PID, if it does. -/
def handed? (d : Demuxer) (p : IntactPacket pid) : Option PesPiece :=
  match d.flushed, d.directory.state? pid with
  | false, some (.pes s) => (s.stepOn d.options p.packet p.payload).piece?
  | _, _ => none

/-- The pieces that pushing packets one after the other hands to the framer. -/
def handed (d : Demuxer) : List (IntactPacket pid) → List PesPiece
  | [] => []
  | p :: ps => (d.handed? p).toList ++ (d.push p.bytes).state.handed ps

/-! ## Before the end of the stream -/

/-- What pushing packets on a PID with frames leads to, and what is shown. -/
structure Takes (d : Demuxer) (s : PesStream) (packets : List (IntactPacket pid)) : Prop where
  /-- The stream of the PID has taken the packets, and the other streams are as before. -/
  directory : (d.afterAll (packets.map IntactPacket.pushed)).directory =
    d.directory.setState pid (.pes (s.afterPackets d.options packets))
  /-- The end of the stream has not been declared. -/
  isOpen : (d.afterAll (packets.map IntactPacket.pushed)).flushed = false
  /-- The options are the same. -/
  options : (d.afterAll (packets.map IntactPacket.pushed)).options = d.options
  /-- The pieces are those of the steps. -/
  handed : d.handed packets = (s.steps d.options packets).filterMap PesStep.piece?
  /-- The frames are those that the framer gives for the pieces. -/
  frames : (d.shown (packets.map IntactPacket.pushed)).filterMap Event.frame? =
    (s.framer.feedAll ((s.steps d.options packets).filterMap PesStep.piece?)).2
  /-- Nothing fails if no step does. -/
  error : (∀ step ∈ s.steps d.options packets, ∃ progress, step.result = .ok progress) →
    ∀ o ∈ d.outcomes (packets.map IntactPacket.pushed), o.error = none

/-- **Packets with PES data.**  Pushing intact packets on a PID with frames is taking the steps of
its accumulator. -/
theorem pushed_pes (hopen : d.flushed = false) (hstate : d.directory.state? pid = some (.pes s))
    (packets : List (IntactPacket pid)) : d.Takes s packets := by
  induction packets generalizing d s with
  | nil =>
    refine ⟨?_, hopen, rfl, rfl, rfl, fun _ o ho => absurd ho List.not_mem_nil⟩
    exact (Directory.setState_of_state? hstate).symm
  | cons p packets ih =>
    let step := s.stepOn d.options p.packet p.payload
    let s' := s.afterStep p.packet.counter step
    let next : Demuxer := { d with
      nextOffset := d.nextOffset + Packet.size
      directory := d.directory.setState pid (.pes s') }
    obtain ⟨events, hpacket, hframes⟩ :=
      s.packet_eq d.options d.nextOffset p.hasPayload p.payload
    have hpush : d.push p.bytes = {
        state := next
        events := .packet p.packet :: events
        error := step.error? d.nextOffset s.pid } := by
      rw [push_of_pes hopen p hstate, hpacket]
    have hpiece : d.handed? p = step.piece? := by
      unfold handed?
      rw [hopen, hstate]
    have hnext : next.directory.state? pid = some (.pes s') :=
      Directory.state?_setState_self _ _ _
    have hlater := ih (show next.flushed = false from hopen) hnext
    have hstate : (d.apply p.pushed).state = next := by
      show (d.push p.bytes).state = next
      rw [hpush]
    have hafter : d.afterAll ((p :: packets).map IntactPacket.pushed) =
        next.afterAll (packets.map IntactPacket.pushed) := by
      show (d.apply p.pushed).state.afterAll (packets.map IntactPacket.pushed) = _
      rw [hstate]
    constructor
    · rw [hafter, hlater.directory]
      exact Directory.setState_setState _ _ _ _
    · rw [hafter]
      exact hlater.isOpen
    · rw [hafter]
      exact hlater.options
    · rw [handed, hpiece, hpush, hlater.handed, PesStream.steps, List.filterMap_cons]
      cases step.piece? with
      | none => rfl
      | some piece => rfl
    · rw [List.map_cons, shown, hstate, List.filterMap_append, hlater.frames, PesStream.steps,
        Framer.feedAll_filterMap_cons]
      show ((d.push p.bytes).events.filterMap Event.frame?) ++ _ = _
      rw [hpush, List.filterMap_cons_none rfl, hframes]
      rfl
    · intro hok o ho
      obtain ⟨⟨progress, hprogress⟩, hok⟩ := List.forall_mem_cons.mp hok
      rw [List.map_cons, outcomes, hstate] at ho
      rcases List.mem_cons.mp ho with rfl | ho
      · show (d.push p.bytes).error = none
        rw [hpush]
        show step.error? d.nextOffset s.pid = none
        rw [PesStep.error?, hprogress]
      · exact hlater.error hok o ho

/-- The stream of the PID has taken the packets. -/
theorem Takes.state? {packets : List (IntactPacket pid)} (h : d.Takes s packets) :
    (d.afterAll (packets.map IntactPacket.pushed)).directory.state? pid =
      some (.pes (s.afterPackets d.options packets)) := by
  rw [h.directory]
  exact Directory.state?_setState_self _ _ _

/-! ## After it -/

/-- Pushing packets has no effect. -/
structure Ignores (d : Demuxer) (packets : List (IntactPacket pid)) : Prop where
  /-- All streams are as before. -/
  directory : (d.afterAll (packets.map IntactPacket.pushed)).directory = d.directory
  /-- The end of the stream has been declared. -/
  isFlushed : (d.afterAll (packets.map IntactPacket.pushed)).flushed = true
  /-- Nothing is handed to the framer. -/
  handed : d.handed packets = []
  /-- No frames are shown. -/
  frames : (d.shown (packets.map IntactPacket.pushed)).filterMap Event.frame? = []
  /-- Nothing fails. -/
  error : ∀ o ∈ d.outcomes (packets.map IntactPacket.pushed), o.error = none

/-- Once the end of the stream has been declared, packets have no effect. -/
theorem pushed_late (hflushed : d.flushed = true) (packets : List (IntactPacket pid)) :
    d.Ignores packets := by
  induction packets generalizing d with
  | nil => exact ⟨rfl, hflushed, rfl, rfl, fun o ho => absurd ho List.not_mem_nil⟩
  | cons p packets ih =>
    have hpush : d.push p.bytes =
        ({ d with nextOffset := d.nextOffset + Packet.size } : Demuxer).latePacket := by
      unfold push packetAt
      rw [p.ofBytes?_bytes]
      exact if_pos hflushed
    obtain ⟨hdirectory, hstill, hevents, herror⟩ : (d.push p.bytes).state.directory = d.directory ∧
        (d.push p.bytes).state.flushed = true ∧
        (d.push p.bytes).events.filterMap Event.frame? = [] ∧ (d.push p.bytes).error = none := by
      rw [hpush]
      unfold latePacket
      split
      · exact ⟨rfl, hflushed, rfl, rfl⟩
      · exact ⟨rfl, hflushed, rfl, rfl⟩
    have hpiece : d.handed? p = none := by
      unfold handed?
      rw [hflushed]
    have hlater := ih hstill
    constructor
    · exact hlater.directory.trans hdirectory
    · exact hlater.isFlushed
    · rw [handed, hpiece, hlater.handed]
      rfl
    · rw [List.map_cons, shown, List.filterMap_append]
      show (d.push p.bytes).events.filterMap Event.frame? ++
        ((d.push p.bytes).state.shown _).filterMap Event.frame? = []
      rw [hevents, hlater.frames]
      rfl
    · intro o ho
      rcases List.mem_cons.mp ho with rfl | ho
      · exact herror
      · exact hlater.error o ho

/-- **Nothing else reaches the framer.**  The frames that are shown are those that the framer gives
for the pieces handed to it, and it is left as they leave it. -/
theorem framer_of_handed (hstate : d.directory.state? pid = some (.pes s))
    (packets : List (IntactPacket pid)) :
    (d.shown (packets.map IntactPacket.pushed)).filterMap Event.frame? =
        (s.framer.feedAll (d.handed packets)).2 ∧
      ∃ s', (d.afterAll (packets.map IntactPacket.pushed)).directory.state? pid = some (.pes s') ∧
        s'.framer = (s.framer.feedAll (d.handed packets)).1 := by
  cases hflushed : d.flushed with
  | true =>
    have hlate := pushed_late hflushed packets
    rw [hlate.handed, hlate.frames, hlate.directory]
    exact ⟨rfl, s, hstate, rfl⟩
  | false =>
    have htakes := pushed_pes hflushed hstate packets
    rw [htakes.handed, htakes.frames]
    exact ⟨rfl, _, htakes.state?, s.framer_afterPackets d.options packets⟩

end Demuxer

end TransportStream
