import TransportStream.Demuxer.Directory

/-!
# The demultiplexer

A demultiplexer takes the packets of a transport stream one after the other, follows the tables, and
hands out the frames of the audio and video streams they announce.

* `Demuxer.push` takes one packet.
* `Demuxer.run` takes all packets of a byte source, and declares the end of the stream when the
  source ends cleanly.
* `Demuxer.flush` declares the end of the stream: what is left in the streams becomes their last
  frames, in the order of the PIDs.  Packets that arrive later are ignored.

## What happens to a packet

Packets on PIDs that no table has announced, and on PIDs whose streams are not cut into frames, are
not looked into; so a malformed one among them is no error.  A packet marked as damaged is not used
either.  Only then is the payload located.
-/

namespace TransportStream

/-- The state of a demultiplexer. -/
structure Demuxer where
  /-- How strictly the stream is checked. -/
  options : DemuxOptions := {}
  /-- What has been announced, and the state of each announced PID. -/
  directory : Directory := {}
  /-- The PIDs without announcement on which packets have been seen. -/
  unannounced : List Pid := []
  /-- The offset of the next packet in the stream, if it follows directly. -/
  nextOffset : Nat := 0
  /-- The end of the stream has been declared. -/
  flushed : Bool := false
  /-- Packets after the end have been noted. -/
  lateNoted : Bool := false
  deriving DecidableEq

namespace Demuxer

/-- The programs and streams announced so far. -/
def table (d : Demuxer) : ProgramTable :=
  d.directory.table

/-- Declares the end of the stream.  Only the first time has an effect. -/
def flush (d : Demuxer) : Outcome Demuxer :=
  if d.flushed then { state := d }
  else {
    state := {
      d with
      flushed := true
      directory := {
        d.directory with states := d.directory.states.map fun state => state.flush.1 } }
    events := Event.ofFrames (d.directory.states.values.flatMap fun state => state.flush.2) }

/-- Ignores a packet that arrived after the end of the stream. -/
def latePacket (d : Demuxer) : Outcome Demuxer :=
  if d.lateNoted then { state := d }
  else { state := { d with lateNoted := true }, events := [.notice .latePackets] }

/-- Ignores a packet on a PID that no table has announced. -/
def unannouncedPacket (d : Demuxer) (pid : Pid) : Outcome Demuxer :=
  if pid ∈ d.unannounced then { state := d }
  else {
    state := { d with unannounced := pid :: d.unannounced }
    events := [.notice (.unannouncedPid pid)] }

/-- Takes the payload of a packet that carries sections. -/
def sectionPacket (d : Demuxer) (s : PsiStream) (offset : Nat) (p : Packet) (payload : Bytes) :
    Outcome Demuxer :=
  let receiver := { directory := d.directory, versions := s.versions }
  let (r, buffer, error) := (s.buffer.push p.unitStart payload).drive
    (SectionReceiver.receive d.options.verifyCrc p.pid s.kind) receiver
  { state := {
      d with
      directory := r.directory.setState p.pid (.psi { s with buffer, versions := r.versions }) }
    events := Event.ofNotices r.notices
    error := error.map (.table offset p.pid) }

/-- Locates the payload of a packet and goes on with it, unless the packet is damaged. -/
def withPayload (d : Demuxer) (offset : Nat) (p : Packet)
    (next : Option Bytes → Outcome Demuxer) : Outcome Demuxer :=
  if p.transportError then
    { state := d, events := [.notice (.transportError p.pid offset)] }
  else
    match p.payload with
    | .error e => { state := d, error := some (.packet offset p.pid e) }
    | .ok payload => next payload

/-- Passes a packet to the stream it belongs to. -/
def route (d : Demuxer) (offset : Nat) (p : Packet) : Outcome Demuxer :=
  match d.directory.state? p.pid with
  | none => d.unannouncedPacket p.pid
  | some .unframed => { state := d }
  | some (.pes s) =>
    d.withPayload offset p fun payload =>
      (s.packet d.options offset p payload).map fun s =>
        { d with directory := d.directory.setState p.pid (.pes s) }
  | some (.psi s) =>
    d.withPayload offset p fun
      | none => { state := d }
      | some payload => d.sectionPacket s offset p payload

/-- Takes the packet at the given offset.  It is shown before anything is done with it. -/
def packetAt (d : Demuxer) (offset : Nat) (bytes : Bytes) : Outcome Demuxer :=
  match Packet.ofBytes? bytes with
  | none => { state := d, error := some (.sync (.syncLost offset bytes)) }
  | some p =>
    let d := { d with nextOffset := offset + Packet.size }
    if d.flushed then d.latePacket else (d.route offset p).after [.packet p]

/-- Takes one packet.  Its offset is that of a stream in which packets follow each other directly.
Anything else than a packet is an error. -/
def push (d : Demuxer) (bytes : Bytes) : Outcome Demuxer :=
  d.packetAt d.nextOffset bytes

/-- Takes a packet that was found in a byte source. -/
def foundPacket (d : Demuxer) (f : PacketReader.Found) : Outcome Demuxer :=
  (d.packetAt f.offset f.bytes).after (Event.ofNotices f.notices)

/-- Does what the end of a byte source asks for: it is an error, or the end of the stream. -/
def endRun (ending : Option SyncError) (d : Demuxer) : Outcome Demuxer :=
  match ending with
  | some e => { state := d, error := some (.sync e) }
  | none => d.flush

/-- Takes all packets of a byte source, up to an error.  Once the end of the stream was declared
nothing is taken, and the first packet is the last that is looked for. -/
def run (d : Demuxer) (source : ByteSource) : Outcome Demuxer :=
  let (found, ending) := ({ source } : PacketReader).readAll
  match d.flushed, found with
  | true, f :: _ => d.latePacket.after (Event.ofNotices f.notices)
  | _, _ => Outcome.forEach d found foundPacket (endRun ending)

/-- Before the end of the stream a packet is shown, and routed. -/
theorem packetAt_of_open {d : Demuxer} (hopen : d.flushed = false) {bytes : Bytes} {p : Packet}
    (hp : Packet.ofBytes? bytes = some p) (offset : Nat) :
    d.packetAt offset bytes =
      (({ d with nextOffset := offset + Packet.size } : Demuxer).route offset p).after
        [.packet p] := by
  have hstill : ¬ d.flushed = true := by
    rw [hopen]
    exact Bool.false_ne_true
  unfold packetAt
  rw [hp]
  exact if_neg hstill

end Demuxer

end TransportStream
