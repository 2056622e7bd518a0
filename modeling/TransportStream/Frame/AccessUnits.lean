import TransportStream.Frame.Basic
import TransportStream.Nal.Unit

/-!
# Access units of video streams

A video stream does not mark where a picture ends; the end shows only when something arrives that
cannot belong to the same access unit.  That is the case when, after coded picture data, a
parameter set, supplemental information or a delimiter comes, or a slice that starts a picture.
The stream is cut before the start code of such a unit.

## Data in pieces

Data arrives in pieces that have nothing to do with NAL units, so a start code, a header or the
byte that decides about a slice can be split between two pieces.  The splitter goes over the data
once, byte by byte, and stands between what it has passed, `behind`, and what it has not, `ahead`.
It stops in front of a start code whose unit has not arrived far enough, and in front of the last
two bytes, which may be the beginning of a start code; there the next piece goes on.  What has been
passed is held with the last byte first, so that the byte in front of a start code is at hand, and
so that no piece is gone over again, however long the access unit gets.

* `VideoSplitter.push` adds a piece and gives the frames it completes.
* `VideoSplitter.flush` gives what is left as the last frame.
-/

namespace TransportStream

/-- True if a unit starts a new access unit, given whether coded picture data has been seen in the
current one. -/
def NalUnit.startsAccessUnit (u : NalUnit) (seenVcl : Bool) : Bool :=
  seenVcl && match u.kind with
    | .marker => true
    | .vcl => u.topBit
    | .other => false

/-- The data of one video stream that has not become part of a frame yet. -/
structure VideoSplitter where
  /-- The PID the stream is carried on. -/
  pid : Pid
  /-- The codec of the stream. -/
  codec : Codec
  /-- The format of its NAL units. -/
  format : NalFormat
  /-- The data that has been gone over, the last byte first. -/
  behind : Bytes := []
  /-- The data that has not been gone over. -/
  ahead : Bytes := []
  /-- The timestamps of the current access unit. -/
  pending : Timing := {}
  /-- Coded picture data has been seen in the current access unit. -/
  seenVcl : Bool := false
  deriving DecidableEq

namespace VideoSplitter

/-- All data that is waiting, with the timestamps of the current access unit. -/
def buffer (s : VideoSplitter) : FrameBuffer where
  backwards := s.ahead.reverse ++ s.behind
  pending := s.pending

/-- How far a walk over the data has come. -/
structure Walk where
  /-- What has been passed of the current access unit, the last byte first. -/
  behind : Bytes
  /-- The timestamps of the current access unit. -/
  timing : Timing
  /-- Coded picture data has been seen in the current access unit. -/
  seenVcl : Bool
  /-- The frames that were completed, the last one first. -/
  frames : List Frame := []
  deriving DecidableEq

/-- The frame in a part of the data, without delimiters at its start. -/
def frameOf (s : VideoSplitter) (unit : Bytes) (timing : Timing) : List Frame :=
  Frame.unlessEmpty s.pid s.codec (s.format.stripLeadingAuds unit) timing

/-- The bytes behind a start code's `00 00 01`, divided into those before the start code and the
zero that belongs to it, if there is one. -/
def splitAtCode : Bytes → Bytes × Bytes
  | [] => ([], [])
  | b :: before => if b = 0 then (before, [b]) else (b :: before, [])

/-- Cuts the data in front of the start code that comes next.  The access unit before it is
complete, and the new one has the timestamps of the piece that completed it. -/
def Walk.cut (s : VideoSplitter) (timing : Timing) (w : Walk) : Walk :=
  let (before, zero) := splitAtCode w.behind
  { behind := zero
    timing := timing
    seenVcl := false
    frames := (s.frameOf before.reverse w.timing).reverse ++ w.frames }

/-- Passes one byte. -/
def Walk.pass (w : Walk) (b : UInt8) : Walk :=
  { w with behind := b :: w.behind }

/-- Passes a start code, given the unit after it, and cuts the data before it if the unit starts an
access unit. -/
def Walk.passCode (s : VideoSplitter) (timing : Timing) (w : Walk) (u : NalUnit) : Walk :=
  let w := if u.startsAccessUnit w.seenVcl then w.cut s timing else w
  { w with behind := 1 :: 0 :: 0 :: w.behind, seenVcl := w.seenVcl || u.kind == .vcl }

/-- Goes over data that arrived with the given timestamps, up to where it cannot be judged, and
gives what is left. -/
def Walk.over (s : VideoSplitter) (timing : Timing) (w : Walk) : Bytes → Walk × Bytes
  | a :: b :: c :: rest =>
    if a = 0 ∧ b = 0 ∧ c = 1 then
      match s.format.unit? rest with
      | none => (w, a :: b :: c :: rest)
      | some u => Walk.over s timing (w.passCode s timing u) rest
    else Walk.over s timing (w.pass a) (b :: c :: rest)
  | short => (w, short)

/-- Adds data that arrived with the given timestamps, and gives the frames it completes. -/
def push (s : VideoSplitter) (data : Bytes) (timing : Timing) : VideoSplitter × List Frame :=
  let start : Walk := {
    behind := s.behind
    timing := if s.buffer.isEmpty then timing else s.pending
    seenVcl := s.seenVcl }
  let (walk, ahead) := start.over s timing (s.ahead ++ data)
  ({ s with behind := walk.behind, ahead, pending := walk.timing, seenVcl := walk.seenVcl },
    walk.frames.reverse)

/-- Gives what is left as the last frame.  Without data nothing happens. -/
def flush (s : VideoSplitter) : VideoSplitter × List Frame :=
  if s.buffer.isEmpty then (s, [])
  else
    ({ s with behind := [], ahead := [], seenVcl := false },
      s.frameOf s.buffer.payload s.pending)

end VideoSplitter

end TransportStream
