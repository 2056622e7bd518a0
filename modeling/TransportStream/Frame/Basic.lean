import TransportStream.Codec
import TransportStream.Pid
import TransportStream.Timestamp

/-!
# Frames

A frame is one complete access unit of an elementary stream, with the timestamps that apply to it.
Until its end has arrived its data waits in a `FrameBuffer`, together with the timestamps of the
oldest frame that is still incomplete.

## Pending timestamps

Timestamps arrive with pieces of data, and a frame has those of the piece that its first byte
arrived in.  So data that is added to an empty buffer brings its timestamps with it, and data that
is added behind other data does not.  The pending timestamps are not reset when the buffer is
emptied: nothing reads them before the next piece replaces them.
-/

namespace TransportStream

/-- One complete access unit of an elementary stream. -/
structure Frame where
  /-- The PID the stream is carried on. -/
  pid : Pid
  /-- The codec of the stream. -/
  codec : Codec
  /-- The data of the access unit. -/
  payload : Bytes
  /-- The timestamps that apply to it. -/
  timing : Timing
  deriving DecidableEq

/-- The frame with the given content, unless the content is empty: there are no empty frames. -/
def Frame.unlessEmpty (pid : Pid) (codec : Codec) (payload : Bytes) (timing : Timing) :
    List Frame :=
  if payload.isEmpty then [] else [{ pid, codec, payload, timing }]

/-- Data of an elementary stream that has not become part of a frame yet. -/
structure FrameBuffer where
  /-- The data, the last byte first. -/
  backwards : Bytes := []
  /-- The timestamps of the frame that the data starts with. -/
  pending : Timing := {}
  deriving DecidableEq

namespace FrameBuffer

/-- The data. -/
def payload (b : FrameBuffer) : Bytes :=
  b.backwards.reverse

/-- True if no data is waiting. -/
def isEmpty (b : FrameBuffer) : Bool :=
  b.backwards.isEmpty

/-- Adds data that arrived with the given timestamps. -/
def append (b : FrameBuffer) (data : Bytes) (timing : Timing) : FrameBuffer where
  backwards := data.reverse ++ b.backwards
  pending := if b.isEmpty then timing else b.pending

/-- Drops all data. -/
def clear (b : FrameBuffer) : FrameBuffer :=
  { b with backwards := [] }

@[simp] theorem payload_append (b : FrameBuffer) (data : Bytes) (timing : Timing) :
    (b.append data timing).payload = b.payload ++ data := by
  simp [payload, append]

@[simp] theorem payload_clear (b : FrameBuffer) : b.clear.payload = [] := rfl

theorem isEmpty_iff_payload_eq_nil (b : FrameBuffer) : b.isEmpty = true ↔ b.payload = [] := by
  simp [isEmpty, payload]

end FrameBuffer

end TransportStream
