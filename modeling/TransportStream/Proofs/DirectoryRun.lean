import TransportStream.Demuxer.Basic
import TransportStream.Proofs.AlignedReading
import TransportStream.Proofs.Multiplex

/-!
# Runs, seen in the directory

What a demultiplexer does with a packet depends on its directory, apart from what it shows beside
frames.  So a run over the packets of a multiplex is a sequence of directories, and the rest of the
state and the offsets of the packets are dealt with here, once.

* `Directory.Step`: a packet changes the directory in this way, and these frames are handed out.
* `Directory.step_of_none`, `step_of_unframed`, `step_of_pes`, `step_of_psi`: the steps, by the
  state of the PID.
* `Directory.Run`, `Directory.Run.of_invariant`: runs, and the way to prove something about them.
* `Demuxer.run_of_run`: a run of the directory is what happens when a demultiplexer reads packets.
-/

namespace TransportStream

/-- The demultiplexer has not been configured, and the end of the stream has not been declared. -/
structure Demuxer.IsOpen (x : Demuxer) (d : Directory) : Prop where
  /-- The stream is checked as usual. -/
  options : x.options = {}
  /-- The end is to come. -/
  flushed : x.flushed = false
  /-- The directory is the given one. -/
  directory : x.directory = d

namespace Directory

/-- A demultiplexer with this directory takes the packet without an error, wherever it stands.  It
hands out the given frames, and has the directory `next` afterwards. -/
def Step (d : Directory) (p : MuxPacket) (next : Directory) (frames : List Frame) : Prop :=
  ∀ (x : Demuxer) (offset : Nat), x.IsOpen d → ∃ y events,
    x.packetAt offset p.bytes = { state := y, events } ∧ y.IsOpen next ∧
      events.filterMap Event.frame? = frames

variable {d next last : Directory} {frames : List Frame}

/-! ## Steps -/

/-- A packet is passed to the stream it belongs to. -/
theorem step_of_route {p : MuxPacket} {packet : Packet}
    (hpacket : Packet.ofBytes? p.bytes = some packet)
    (h : ∀ (x : Demuxer) (offset : Nat), x.IsOpen d → ∃ y events,
      x.route offset packet = { state := y, events } ∧ y.IsOpen next ∧
        events.filterMap Event.frame? = frames) :
    d.Step p next frames := by
  intro x offset hx
  obtain ⟨y, events, hroute, hy, hframes⟩ :=
    h { x with nextOffset := offset + Packet.size } offset ⟨hx.options, hx.flushed, hx.directory⟩
  refine ⟨y, .packet packet :: events, ?_, hy, hframes⟩
  rw [Demuxer.packetAt_of_open hx.flushed hpacket, hroute]
  rfl

/-- A packet on a PID without announcement is ignored. -/
theorem step_of_none {p : MuxPacket} (h : d.state? p.pid = none) : d.Step p d [] := by
  obtain ⟨packet, hpacket, hpid⟩ := p.ofBytes?_bytes
  refine step_of_route hpacket ?_
  intro x offset hx
  have hroute : x.route offset packet = x.unannouncedPacket packet.pid := by
    rw [Demuxer.route, hx.directory, hpid, h]
  rw [hroute]
  unfold Demuxer.unannouncedPacket
  split
  · exact ⟨x, [], rfl, hx, rfl⟩
  · exact ⟨_, _, rfl, ⟨hx.options, hx.flushed, hx.directory⟩, rfl⟩

/-- So is one of a stream that is not cut into frames. -/
theorem step_of_unframed {p : MuxPacket} (h : d.state? p.pid = some .unframed) : d.Step p d [] := by
  obtain ⟨packet, hpacket, hpid⟩ := p.ofBytes?_bytes
  refine step_of_route hpacket fun x offset hx => ⟨x, [], ?_, hx, rfl⟩
  rw [Demuxer.route, hx.directory, hpid, h]

/-- The payload of a packet that is not damaged is located. -/
theorem withPayload_packet {p : OutgoingPacket} (hgood : p.transportError = false) (x : Demuxer)
    (offset : Nat) (use : Option Bytes → Outcome Demuxer) :
    x.withPayload offset p.packet use = use (if p.payload = [] then none else some p.payload) := by
  have herror : p.packet.transportError = false := hgood
  rw [Demuxer.withPayload, herror, if_neg Bool.false_ne_true, p.payload_packet]

/-- A packet of a stream that is cut into frames. -/
theorem step_of_pes {p : OutgoingPacket} {s s' : PesStream} (h : d.state? p.pid = some (.pes s))
    (hgood : p.transportError = false) (hne : p.payload ≠ [])
    (hs : ∀ offset, ∃ events,
      s.packet {} offset p.packet (some p.payload) = { state := s', events } ∧
        events.filterMap Event.frame? = frames) :
    d.Step (.planned p) (d.setState p.pid (.pes s')) frames := by
  refine step_of_route p.ofBytes?_bytes fun x offset hx => ?_
  obtain ⟨events, hpacket, hframes⟩ := hs offset
  have hstate : x.directory.state? p.packet.pid = some (.pes s) := hx.directory ▸ h
  refine ⟨{ x with directory := d.setState p.pid (.pes s') }, events, ?_,
    ⟨hx.options, hx.flushed, rfl⟩, hframes⟩
  rw [Demuxer.route, hstate]
  dsimp only
  rw [withPayload_packet hgood, if_neg hne, hx.options, hpacket, hx.directory]
  rfl

/-- A packet that carries sections, all of which are accepted. -/
theorem step_of_psi {p : OutgoingPacket} {s : PsiStream} {r : SectionReceiver}
    {buffer : SectionBuffer} (h : d.state? p.pid = some (.psi s)) (hgood : p.transportError = false)
    (hne : p.payload ≠ [])
    (hs : (s.buffer.push p.unitStart p.payload).drive
      (SectionReceiver.receive true p.pid s.kind) { directory := d, versions := s.versions } =
        (r, buffer, none)) :
    d.Step (.planned p)
      (r.directory.setState p.pid (.psi { s with buffer, versions := r.versions })) [] := by
  refine step_of_route p.ofBytes?_bytes fun x offset hx => ?_
  have hstate : x.directory.state? p.packet.pid = some (.psi s) := hx.directory ▸ h
  refine ⟨{ x with
      directory := r.directory.setState p.pid (.psi { s with buffer, versions := r.versions }) },
    Event.ofNotices r.notices, ?_, ⟨hx.options, hx.flushed, rfl⟩,
    Event.filterMap_frame?_ofNotices r.notices⟩
  rw [Demuxer.route, hstate]
  dsimp only
  rw [withPayload_packet hgood, if_neg hne]
  dsimp only
  rw [Demuxer.sectionPacket, hx.options, hx.directory]
  rw [show (s.buffer.push p.packet.unitStart p.payload).drive
    (SectionReceiver.receive ({} : DemuxOptions).verifyCrc p.packet.pid s.kind)
      { directory := d, versions := s.versions } = (r, buffer, none) from hs]
  rfl

/-- A packet on such a PID that has no payload is ignored. -/
theorem step_of_psi_nil {p : OutgoingPacket} {s : PsiStream} (h : d.state? p.pid = some (.psi s))
    (hgood : p.transportError = false) (hnil : p.payload = []) : d.Step (.planned p) d [] := by
  refine step_of_route p.ofBytes?_bytes fun x offset hx => ⟨x, [], ?_, hx, rfl⟩
  have hstate : x.directory.state? p.packet.pid = some (.psi s) := hx.directory ▸ h
  rw [Demuxer.route, hstate]
  dsimp only
  rw [withPayload_packet hgood, if_pos hnil]

/-! ## Runs -/

/-- The packets are taken one after the other.  The frames are those of all steps, in order. -/
inductive Run : Directory → List MuxPacket → Directory → List Frame → Prop
  /-- Without packets nothing happens. -/
  | nil (d : Directory) : Run d [] d []
  /-- The first packet is followed by the others. -/
  | cons {d next last : Directory} {p : MuxPacket} {ps : List MuxPacket}
      {frames later : List Frame} (first : d.Step p next frames) (others : Run next ps last later) :
      Run d (p :: ps) last (frames ++ later)

/-- Runs can follow each other. -/
theorem Run.append {mid : Directory} {ps qs : List MuxPacket} {later : List Frame}
    (h : Run d ps mid frames) (h' : Run mid qs last later) :
    Run d (ps ++ qs) last (frames ++ later) := by
  induction h with
  | nil d => exact h'
  | cons first others ih =>
    rw [List.append_assoc]
    exact .cons first (ih h')

/-- What holds at first and is preserved by each step holds at last.  It may speak of the packets
that are to come, of the frames that have been handed out, and of the directory. -/
theorem Run.of_invariant (Inv : List MuxPacket → List Frame → Directory → Prop)
    (step : ∀ p ps shown d, Inv (p :: ps) shown d →
      ∃ next frames, d.Step p next frames ∧ Inv ps (shown ++ frames) next)
    {ps : List MuxPacket} {shown : List Frame} (h : Inv ps shown d) :
    ∃ last frames, Run d ps last frames ∧ Inv [] (shown ++ frames) last := by
  induction ps generalizing d shown with
  | nil => exact ⟨d, [], .nil d, by rwa [List.append_nil]⟩
  | cons p ps ih =>
    obtain ⟨next, frames, hstep, hnext⟩ := step p ps shown d h
    obtain ⟨last, later, hrun, hlast⟩ := ih hnext
    exact ⟨last, frames ++ later, .cons hstep hrun, by rwa [← List.append_assoc]⟩

/-- The frames that are left in the streams, in the order of the PIDs. -/
def leftover (d : Directory) : List Frame :=
  d.states.values.flatMap fun state => state.flush.2

end Directory

namespace Demuxer

open Directory

/-- A demultiplexer that takes the packets one after the other, wherever they start. -/
theorem forEach_of_run {d last : Directory} {ps : List MuxPacket} {frames : List Frame}
    (h : Run d ps last frames) {x : Demuxer} (hx : x.IsOpen d) (offset : Nat)
    (ending : Demuxer → Outcome Demuxer) :
    ∃ y events, y.IsOpen last ∧ events.filterMap Event.frame? = frames ∧
      Outcome.forEach x (PacketReader.placed offset (ps.map MuxPacket.bytes)) foundPacket ending =
        (ending y).after events := by
  induction h generalizing x offset with
  | nil d => exact ⟨x, [], hx, rfl, Outcome.forEach_nil x foundPacket ending⟩
  | @cons d next last p ps frames later first others ih =>
    obtain ⟨y, events, hpacket, hy, hframes⟩ := first x offset hx
    obtain ⟨z, more, hz, hmore, hothers⟩ := ih hy (offset + Packet.size)
    refine ⟨z, events ++ more, hz, ?_, ?_⟩
    · rw [List.filterMap_append, hframes, hmore]
    · have hfound : foundPacket x { offset, notices := [], bytes := p.bytes } =
          { state := y, events } := by
        rw [foundPacket, hpacket]
        rfl
      rw [List.map_cons, PacketReader.placed, Outcome.forEach_cons, hfound,
        Outcome.andThen_of_error_eq_none rfl]
      dsimp only
      rw [hothers]
      simp [Outcome.after]

/-- **A demultiplexer reads packets.**  If the directory takes them, there is no error, and the
frames are those of the run and then those that are left. -/
theorem run_of_run {last : Directory} {ps : List MuxPacket} {frames : List Frame}
    (h : Run {} ps last frames) {steps : List ReadStep} (hsteps : ∀ step ∈ steps, step.IsCalm) :
    let o := run {} { data := (ps.map MuxPacket.bytes).flatten, steps }
    o.error = none ∧ o.events.filterMap Event.frame? = frames ++ last.leftover := by
  have hcalm : PacketReader.IsCalm
      { source := { data := (ps.map MuxPacket.bytes).flatten, steps } } :=
    ⟨hsteps, fun hexhausted => absurd hexhausted Bool.false_ne_true⟩
  have hpackets : ∀ b ∈ ps.map MuxPacket.bytes,
      b.length = Packet.size ∧ b[0]? = some Packet.syncByte := by
    intro b hb
    obtain ⟨p, -, rfl⟩ := List.mem_map.mp hb
    exact ⟨p.length_bytes, p.getElem?_bytes⟩
  have hread := PacketReader.readAll_aligned hcalm hpackets rfl
  obtain ⟨y, events, hy, hframes, htaken⟩ :=
    forEach_of_run h (x := {}) ⟨rfl, rfl, rfl⟩ 0 (endRun none)
  have hrun : run {} { data := (ps.map MuxPacket.bytes).flatten, steps } =
      (endRun none y).after events := by
    unfold run
    rw [hread]
    exact htaken
  have hend : endRun none y = {
      state := { y with
        flushed := true
        directory := {
          y.directory with states := y.directory.states.map fun state => state.flush.1 } }
      events := Event.ofFrames y.directory.leftover } := by
    rw [endRun, flush, hy.flushed]
    rfl
  dsimp only
  rw [hrun, hend]
  refine ⟨rfl, ?_⟩
  rw [Outcome.after, List.filterMap_append, hframes, Event.filterMap_frame?_ofFrames, hy.directory]

end Demuxer

end TransportStream
