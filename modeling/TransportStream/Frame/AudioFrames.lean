import TransportStream.Frame.Basic

/-!
# Frames of audio streams

The syntax of audio data is not looked into.  Audio is cut where a PES packet starts, and where the
presentation timestamp changes.  The timestamp compared with is that of the data which is waiting,
so as long as none is waiting nothing is cut.
-/

namespace TransportStream

/-- The data of one audio stream that has not become part of a frame yet. -/
structure AudioSegmenter where
  /-- The PID the stream is carried on. -/
  pid : Pid
  /-- The codec of the stream. -/
  codec : Codec
  /-- The data that is waiting. -/
  buffer : FrameBuffer := {}
  deriving DecidableEq

namespace AudioSegmenter

/-- Gives what is left as the last frame. -/
def flush (s : AudioSegmenter) : AudioSegmenter × List Frame :=
  ({ s with buffer := s.buffer.clear },
    Frame.unlessEmpty s.pid s.codec s.buffer.payload s.buffer.pending)

/-- True if data with the given presentation timestamp does not belong to the same frame as the
data that is waiting. -/
def closes (s : AudioSegmenter) (unitStart : Bool) (timing : Timing) : Bool :=
  !s.buffer.isEmpty && (unitStart || timing.pts != s.buffer.pending.pts)

/-- Adds data that arrived with the given timestamps, and gives the frame it completes, if it does.
`unitStart` is set for the first data of a PES packet. -/
def push (s : AudioSegmenter) (data : Bytes) (unitStart : Bool) (timing : Timing) :
    AudioSegmenter × List Frame :=
  let (s, frames) := if s.closes unitStart timing then s.flush else (s, [])
  ({ s with buffer := s.buffer.append data timing }, frames)

end AudioSegmenter

end TransportStream
