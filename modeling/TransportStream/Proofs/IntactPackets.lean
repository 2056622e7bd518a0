import TransportStream.Proofs.Operations
import TransportStream.Proofs.PacketEncoding

/-!
# Pushing intact packets

A packet that is not marked as damaged, and whose payload can be located, reaches the stream it
belongs to.  What pushing it does is what that stream does with its payload: the rest of the state
moves on in the same way for all of them.

* `IntactPacket`: such packets.
* `Demuxer.push_of_psi`, `Demuxer.push_of_pes`: what pushing one does, by the state of its PID.
-/

namespace TransportStream

/-- A packet on the given PID that is not damaged and has a payload. -/
structure IntactPacket (pid : Pid) where
  /-- The bytes that are pushed. -/
  bytes : Bytes
  /-- What they are decoded to. -/
  packet : Packet
  /-- The payload. -/
  payload : Bytes
  /-- The bytes are those of the packet. -/
  ofBytes?_bytes : Packet.ofBytes? bytes = some packet
  /-- It is on the PID. -/
  pid_eq : packet.pid = pid
  /-- It is not marked as damaged. -/
  transportError_eq : packet.transportError = false
  /-- The payload is found in it. -/
  payload_eq : packet.payload = .ok (some payload)

/-- A packet with a payload that a multiplexer writes is intact, unless it is marked as damaged. -/
def OutgoingPacket.intact (p : OutgoingPacket) (hgood : p.transportError = false)
    (hne : p.payload ≠ []) : IntactPacket p.pid where
  bytes := p.bytes
  packet := p.packet
  payload := p.payload
  ofBytes?_bytes := p.ofBytes?_bytes
  pid_eq := rfl
  transportError_eq := hgood
  payload_eq := by rw [p.payload_packet, if_neg hne]

namespace IntactPacket

variable {pid : Pid}

/-- The payload of the packet, with whether something starts in it. -/
def content (p : IntactPacket pid) : Bool × Bytes :=
  (p.packet.unitStart, p.payload)

/-- The packet is pushed. -/
def pushed (p : IntactPacket pid) : Demuxer.Operation :=
  .push p.bytes

/-- The payload is announced. -/
theorem hasPayload (p : IntactPacket pid) : p.packet.control.hasPayload = true := by
  have hpayload := p.payload_eq
  unfold Packet.payload at hpayload
  cases hcontrol : p.packet.control with
  | reserved =>
    rw [hcontrol] at hpayload
    cases hpayload
  | adaptationFieldOnly =>
    rw [hcontrol] at hpayload
    cases hpayload
  | payloadOnly => rfl
  | adaptationFieldAndPayload => rfl

end IntactPacket

namespace Demuxer

variable {d : Demuxer} {pid : Pid}

/-- Nothing keeps the payload of an intact packet from being used. -/
theorem withPayload_of_intact (p : IntactPacket pid) (d : Demuxer) (offset : Nat)
    (use : Option Bytes → Outcome Demuxer) :
    d.withPayload offset p.packet use = use (some p.payload) := by
  rw [withPayload, p.transportError_eq, if_neg Bool.false_ne_true, p.payload_eq]

/-- An intact packet is routed, unless the end of the stream has been declared. -/
theorem push_of_open (hopen : d.flushed = false) (p : IntactPacket pid) :
    d.push p.bytes = (({ d with nextOffset := d.nextOffset + Packet.size } : Demuxer).route
      d.nextOffset p.packet).after [.packet p.packet] :=
  packetAt_of_open hopen p.ofBytes?_bytes d.nextOffset

/-- What receives the sections of a PID. -/
def receiverFor (d : Demuxer) (s : PsiStream) : SectionReceiver where
  directory := d.directory
  versions := s.versions

/-- A packet that carries sections. -/
theorem push_of_psi (hopen : d.flushed = false) (p : IntactPacket pid) {s : PsiStream}
    (hstate : d.directory.state? pid = some (.psi s)) :
    let driven := (s.buffer.push p.packet.unitStart p.payload).drive
      (SectionReceiver.receive d.options.verifyCrc pid s.kind) (d.receiverFor s)
    d.push p.bytes = {
      state := { d with
        nextOffset := d.nextOffset + Packet.size
        directory := driven.1.directory.setState pid
          (.psi { s with buffer := driven.2.1, versions := driven.1.versions }) }
      events := .packet p.packet :: Event.ofNotices driven.1.notices
      error := driven.2.2.map (.table d.nextOffset pid) } := by
  rw [push_of_open hopen, route]
  dsimp only
  rw [p.pid_eq, hstate]
  dsimp only
  rw [withPayload_of_intact]
  dsimp only
  rw [sectionPacket, p.pid_eq]
  rfl

/-- A packet of a stream that is cut into frames. -/
theorem push_of_pes (hopen : d.flushed = false) (p : IntactPacket pid) {s : PesStream}
    (hstate : d.directory.state? pid = some (.pes s)) :
    let o := s.packet d.options d.nextOffset p.packet (some p.payload)
    d.push p.bytes = {
      state := { d with
        nextOffset := d.nextOffset + Packet.size
        directory := d.directory.setState pid (.pes o.state) }
      events := .packet p.packet :: o.events
      error := o.error } := by
  rw [push_of_open hopen, route]
  dsimp only
  rw [p.pid_eq, hstate]
  dsimp only
  rw [withPayload_of_intact]
  rfl

end Demuxer

end TransportStream
