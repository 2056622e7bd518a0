import TransportStream.Frame.Basic
import TransportStream.ContinuityCounter
import TransportStream.Pes.Header
import TransportStream.Section.Error
import TransportStream.StreamType

/-!
# Notices

What is notable about a stream but stops nothing is reported as a notice: data that is skipped or
missing, what the tables announce, and every frame that is handed out.  A notice is a value that
says what happened; how urgent it is and how it is worded are functions on that value.
-/

namespace TransportStream

/-- How urgent a notice is. -/
inductive Severity where
  /-- The stream is damaged or contradicts itself. -/
  | warn
  /-- An event in the life of a stream. -/
  | debug
  /-- An event that happens all the time. -/
  | trace
  deriving DecidableEq

/-- Something notable that stops nothing. -/
inductive Notice where
  /-- Packets were found again at `offset`, after `skipped` bytes without. -/
  | resynchronised (offset skipped : Nat)
  /-- A section goes on whose start was not seen. -/
  | continuationWithoutStart
  /-- A section starts while another one, of which `collected` bytes are there, is incomplete. -/
  | sectionCutShort (collected : Nat)
  /-- The rest of a program map section is not read, because an entry does not fit. -/
  | malformedStreamEntry (e : SectionError)
  /-- A program claims a PID for its map table that carries something else. -/
  | programOnUsedPid (program : Nat) (pid : Pid)
  /-- A program is announced for the first time. -/
  | programFound (program : Nat) (pid : Pid)
  /-- The PID of the network information table is announced. -/
  | networkTableIgnored (pid : Pid)
  /-- A program claims a PID for an elementary stream that carries tables. -/
  | streamOnTablePid (program : Nat) (pmtPid pid : Pid)
  /-- A program announces an elementary stream with another codec than it was bound to. -/
  | codecConflict (pid : Pid) (announced : Codec) (program : Nat) (kept : Codec)
  /-- An elementary stream is announced for the first time. -/
  | streamFound (program : Nat) (type : StreamType) (pid : Pid) (codec : Codec)
  /-- A bounded PES packet ended early. -/
  | pesEndedShort (missing : Nat)
  /-- Data follows the end of a bounded PES packet. -/
  | bytesBeyondPes (count : Nat)
  /-- A frame is handed out. -/
  | frameReady (frame : Frame)
  /-- A packet was sent twice. -/
  | duplicatePacket (pid : Pid) (counter : ContinuityCounter)
  /-- Packets of a stream are missing. -/
  | continuityGap (pid : Pid) (last counter : ContinuityCounter)
  /-- A PES packet is not used because of its header. -/
  | pesDiscarded (pid : Pid) (offset : Nat) (e : PesError)
  /-- Packets arrived after the end of the stream was declared. -/
  | latePackets
  /-- Packets of a stream arrived that no table has announced. -/
  | unannouncedPid (pid : Pid)
  /-- A packet is marked as damaged. -/
  | transportError (pid : Pid) (offset : Nat)
  /-- A section of another table than expected arrived. -/
  | unexpectedTable (pid : Pid) (expected actual : UInt8)
  /-- A section of the program association table is used. -/
  | patAccepted (pid : Pid) (version : Nat)
  /-- A section of a program map table is used. -/
  | pmtAccepted (pid : Pid) (program version : Nat)
  deriving DecidableEq

namespace Notice

/-- How urgent a notice is. -/
def severity : Notice → Severity
  | resynchronised .. | continuationWithoutStart | sectionCutShort _ | malformedStreamEntry _
  | programOnUsedPid .. | streamOnTablePid .. | codecConflict .. | pesEndedShort _
  | continuityGap .. | pesDiscarded .. | latePackets | transportError ..
  | unexpectedTable .. => .warn
  | programFound .. | networkTableIgnored _ | streamFound .. | bytesBeyondPes _
  | duplicatePacket .. | unannouncedPid _ | patAccepted .. | pmtAccepted .. => .debug
  | frameReady _ => .trace

/-- The ticks of a timestamp that may be missing. -/
def ticksText : Option Timestamp → String
  | none => "None"
  | some t => Text.wrapped "Some" (toString t.ticks)

/-- The wording of a notice. -/
def text : Notice → String
  | resynchronised offset skipped =>
    s!"resynchronised at offset {offset} after skipping {skipped} bytes"
  | continuationWithoutStart => "PSI continuation packet without a preceding section start"
  | sectionCutShort collected =>
    s!"new section started before previous section of {collected} bytes completed"
  | malformedStreamEntry e => "stopping at malformed PMT stream entry: " ++ e.message
  | programOnUsedPid program pid =>
    s!"program {program} PMT on {pid.text} which already carries other data"
  | programFound program pid => s!"new program {program} with PMT on {pid.text}"
  | networkTableIgnored pid => s!"ignoring network information table on {pid.text}"
  | streamOnTablePid program pmtPid pid =>
    s!"program {program} (PMT on {pmtPid.text}) lists elementary stream on PSI pid {pid.text}"
  | codecConflict pid announced program kept =>
    s!"{pid.text} announced as {announced.name} by program {program}, " ++
      s!"keeping earlier binding as {kept.name}"
  | streamFound program type pid codec =>
    s!"program {program} stream {type.inspect} on {pid.text} framed as {codec.name}"
  | pesEndedShort missing => s!"PES packet ended {missing} bytes short of PES_packet_length"
  | bytesBeyondPes count => s!"dropping {count} bytes beyond end of PES packet"
  | frameReady frame =>
    s!"{frame.pid.text} {frame.codec.name} frame of {frame.payload.length} bytes, " ++
      s!"pts={ticksText frame.timing.pts} dts={ticksText frame.timing.dts}"
  | duplicatePacket pid counter => s!"{pid.text} duplicate packet cc={counter.count.val}"
  | continuityGap pid last counter =>
    s!"{pid.text} continuity counter gap, {last.count.val} followed by {counter.count.val}"
  | pesDiscarded pid offset e =>
    s!"{pid.text} discarding PES packet at offset {offset}: " ++ e.message
  | latePackets => "ignoring packets given after the demuxer was flushed"
  | unannouncedPid pid => s!"ignoring packets on unannounced {pid.text}"
  | transportError pid offset =>
    s!"{pid.text} packet at offset {offset} has transport_error_indicator set"
  | unexpectedTable pid expected actual =>
    s!"{pid.text} expected table_id " ++ Text.markedHex 2 expected.toNat ++ ", but got " ++
      Text.markedHex 2 actual.toNat
  | patAccepted pid version => s!"{pid.text} PAT version {version}"
  | pmtAccepted pid program version =>
    s!"{pid.text} PMT for program {program} version {version}"

end Notice

end TransportStream
