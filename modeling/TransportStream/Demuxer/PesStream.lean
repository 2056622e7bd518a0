import TransportStream.Demuxer.Outcome
import TransportStream.Frame.AccessUnits
import TransportStream.Frame.AudioFrames
import TransportStream.Pes.Accumulator
import TransportStream.Program.Table

/-!
# Streams that are cut into frames

An elementary stream that is audio or video passes through two stages: the accumulator takes the
PES packets apart, and a framer cuts their payload into frames.  Before both of them the continuity
counter is checked, so that data is not joined across a loss.

## Duplicates, gaps and announced jumps

A packet that carries the counter of the one before it is a repetition and is not used.  Any other
counter than the next one reveals a loss; what was lost may have been part of the current PES
packet, so the rest of that is given up, unless the options say otherwise, and the packet itself is
used.  A packet that announces a discontinuity may have any counter.  Packets without payload are
not counted.
-/

namespace TransportStream

/-- How strictly a stream is checked. -/
structure DemuxOptions where
  /-- Sections with a wrong checksum are errors. -/
  verifyCrc : Bool := true
  /-- The rest of a PES packet is given up when data of it is missing. -/
  discardOnDiscontinuity : Bool := true
  deriving DecidableEq

/-- What cuts a stream into frames. -/
inductive Framer where
  | video (s : VideoSplitter)
  | audio (s : AudioSegmenter)
  deriving DecidableEq

namespace Framer

/-- Adds data, and gives the frames it completes.  Where PES packets start matters to audio
alone. -/
def push (f : Framer) (data : Bytes) (unitStart : Bool) (timing : Timing) :
    Framer × List Frame :=
  match f with
  | video s => (s.push data timing).map video id
  | audio s => (s.push data unitStart timing).map audio id

/-- Gives what is left as the last frame. -/
def flush : Framer → Framer × List Frame
  | video s => s.flush.map video id
  | audio s => s.flush.map audio id

end Framer

/-- An elementary stream that is cut into frames. -/
structure PesStream where
  /-- The PID that carries it. -/
  pid : Pid
  /-- The PES packet in progress. -/
  accumulator : PesAccumulator := {}
  /-- The frame in progress. -/
  framer : Framer
  /-- The counter of the last packet with payload. -/
  lastCounter : Option ContinuityCounter := none
  deriving DecidableEq

/-- What the counter of a packet says about the packets before it. -/
inductive Continuity where
  /-- Nothing is missing, or nothing can be said. -/
  | unbroken
  /-- The packet is a repetition. -/
  | duplicate
  /-- Packets are missing since the one with the counter `last`. -/
  | gap (last : ContinuityCounter)
  deriving DecidableEq

namespace PesStream

/-- What the counter of a packet says about the packets before it. -/
def continuity (s : PesStream) (p : Packet) : Continuity :=
  match s.lastCounter with
  | none => .unbroken
  | some last =>
    if p.discontinuity then .unbroken
    else if p.counter = last then .duplicate
    else if p.counter.follows last then .unbroken
    else .gap last

/-- Takes the payload of a packet. -/
def take (s : PesStream) (offset : Nat) (unitStart : Bool) (payload : Bytes) :
    Outcome PesStream :=
  let step :=
    if unitStart then s.accumulator.unitStart payload else s.accumulator.continuation payload
  let s := { s with accumulator := step.accumulator }
  let noted := Event.ofNotices step.notices
  match step.result with
  | .ok (.ready first) =>
    let (framer, frames) :=
      s.framer.push s.accumulator.available first s.accumulator.timing
    { state := { s with framer }, events := noted ++ Event.ofFrames frames }
  | .ok .pending | .ok .ignored => { state := s, events := noted }
  | .error (.needMoreData _ _) =>
    { state := s, events := noted, error := some (.pesIncomplete offset s.pid) }
  | .error e => { state := s, events := noted ++ [.notice (.pesDiscarded s.pid offset e)] }

/-- Takes the payload of a packet, if there is one. -/
def take? (s : PesStream) (offset : Nat) (unitStart : Bool) : Option Bytes → Outcome PesStream
  | none => { state := s }
  | some payload => s.take offset unitStart payload

/-- Processes a packet whose payload has been located. -/
def packet (s : PesStream) (options : DemuxOptions) (offset : Nat) (p : Packet)
    (payload : Option Bytes) : Outcome PesStream :=
  if p.control.hasPayload then
    let counted := { s with lastCounter := some p.counter }
    match s.continuity p with
    | .unbroken => counted.take? offset p.unitStart payload
    | .duplicate =>
      { state := counted, events := [.notice (.duplicatePacket s.pid p.counter)] }
    | .gap last =>
      let resumed :=
        if options.discardOnDiscontinuity then
          { counted with accumulator := counted.accumulator.discard }
        else counted
      (resumed.take? offset p.unitStart payload).after
        [.notice (.continuityGap s.pid last p.counter)]
  else s.take? offset p.unitStart payload

/-- Gives what is left as the last frame. -/
def flush (s : PesStream) : PesStream × List Frame :=
  s.framer.flush.map (fun framer => { s with framer }) id

/-- The stream for a binding, if its codec is one that is cut into frames. -/
def ofBinding? (b : StreamBinding) : Option PesStream :=
  match b.codec with
  | .h264 =>
    some { pid := b.pid, framer := .video { pid := b.pid, codec := b.codec, format := .h264 } }
  | .h265 =>
    some { pid := b.pid, framer := .video { pid := b.pid, codec := b.codec, format := .h265 } }
  | .aac | .mpegAudio =>
    some { pid := b.pid, framer := .audio { pid := b.pid, codec := b.codec } }
  | .unsupported => none

end PesStream

end TransportStream
