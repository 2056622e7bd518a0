import TransportStream.Codec
import TransportStream.Descriptor
import TransportStream.Pid
import TransportStream.Section.Error
import TransportStream.StreamType

/-!
# The program map table

The map of a program lists its elementary streams.  The body of a section gives the PID that
carries the clock of the program, descriptors of the program as a whole, and then the streams, each
with its type, its PID and descriptors of its own.

## Damaged lists

The part before the streams has to be whole for the section to be of use.  The list of streams is
read as far as its entries fit: an entry that leads past the end hides only what would come after
it (`StreamInfo.listOfBytes`).
-/

namespace TransportStream

/-- One elementary stream of a program, as its map lists it. -/
structure StreamInfo where
  /-- How the stream is coded. -/
  streamType : StreamType
  /-- The PID that carries it. -/
  pid : Pid
  /-- The loop of its descriptors. -/
  info : Bytes
  deriving DecidableEq

namespace StreamInfo

/-- The number of bytes before the descriptors. -/
def headerSize : Nat := 5

/-- Reads the entry at the front of a byte string, and gives what follows it. -/
def ofBytes : Bytes → Except SectionError (StreamInfo × Bytes)
  | b₀ :: b₁ :: b₂ :: b₃ :: b₄ :: rest =>
    match splitFront? (wordField 4 b₃ b₄) rest with
    | none =>
      .error (.notEnoughData .esInfo (headerSize + wordField 4 b₃ b₄) (headerSize + rest.length))
    | some (info, after) => .ok ({ streamType := ⟨b₀⟩, pid := .ofBytes b₁ b₂, info }, after)
  | short => .error (.notEnoughData .streamInfo headerSize short.length)

theorem length_lt_of_ofBytes {bytes rest : Bytes} {s : StreamInfo}
    (h : ofBytes bytes = .ok (s, rest)) : rest.length < bytes.length := by
  unfold ofBytes at h
  split at h
  · split at h
    · cases h
    · next hs =>
      cases h
      have := length_of_splitFront? hs
      simp only [List.length_cons]
      omega
  · cases h

/-- Takes an entry off the front of a byte string. -/
def read : ItemReader StreamInfo := fun bytes =>
  match h : ofBytes bytes with
  | .error _ => none
  | .ok (s, rest) => some (s, ⟨rest, length_lt_of_ofBytes h⟩)

/-- What is wrong with the bytes after the last entry of a list, if there are some. -/
def remainderError? (rest : Bytes) : Option SectionError :=
  if rest.isEmpty then none
  else
    match ofBytes rest with
    | .error e => some e
    | .ok _ => none

/-- Reads entries up to the end, or up to one that does not fit, and what is wrong with that. -/
def listOfBytes (bytes : Bytes) : List StreamInfo × Option SectionError :=
  let (streams, rest) := readItems read bytes
  (streams, remainderError? rest)

/-- The descriptors of the stream. -/
def descriptors (s : StreamInfo) : List (Except DescriptorError Descriptor) :=
  Descriptor.list s.info

/-- True if a registration descriptor of the stream names the given format. -/
def isRegisteredAs (s : StreamInfo) (identifier : Bytes) : Bool :=
  s.descriptors.any fun
    | .ok (.registration r) => r.isFormat identifier
    | _ => false

/-- The codec of the stream.  Private data is H.265 video if a registration descriptor says so. -/
def codec (s : StreamInfo) : Codec :=
  if s.streamType = .h264 then .h264
  else if s.streamType = .h265 then .h265
  else if s.streamType = .adts ∨ s.streamType = .latm then .aac
  else if s.streamType = .mpeg1Audio ∨ s.streamType = .mpeg2Audio then .mpegAudio
  else if s.streamType = .privateData ∧ s.isRegisteredAs Registration.hevc then .h265
  else .unsupported

/-- The first language that a descriptor of the stream names. -/
def language (s : StreamInfo) : Option String :=
  s.descriptors.findSome? fun
    | .ok (.iso639Language (l :: _)) => some l.code
    | _ => none

/-- The stream in a description. -/
def inspect (s : StreamInfo) : String :=
  Text.record "StreamInfo" [
    ("stream_type", s.streamType.inspect),
    ("elementary_pid", s.pid.inspect),
    ("descriptors", Text.listing (s.descriptors.map Descriptor.inspectItem))]

end StreamInfo

/-- A section of a program map table. -/
structure PmtSection where
  /-- The PID that carries the clock of the program. -/
  pcrPid : Pid
  /-- The loop of descriptors of the program. -/
  programInfo : Bytes
  /-- The list of streams. -/
  streamInfo : Bytes
  deriving DecidableEq

namespace PmtSection

/-- The number of bytes before the descriptors. -/
def headerSize : Nat := 4

/-- Reads the body of a section. -/
def ofBytes : Bytes → Except SectionError PmtSection
  | b₀ :: b₁ :: b₂ :: b₃ :: rest =>
    match splitFront? (wordField 4 b₂ b₃) rest with
    | none =>
      .error (.notEnoughData .programInfo (headerSize + wordField 4 b₂ b₃)
        (headerSize + rest.length))
    | some (programInfo, streamInfo) => .ok { pcrPid := .ofBytes b₀ b₁, programInfo, streamInfo }
  | short => .error (.notEnoughData .programMap headerSize short.length)

/-- The descriptors of the program. -/
def descriptors (p : PmtSection) : List (Except DescriptorError Descriptor) :=
  Descriptor.list p.programInfo

/-- The streams of the program, and what is wrong with the entry at which the list breaks off. -/
def streams (p : PmtSection) : List StreamInfo × Option SectionError :=
  StreamInfo.listOfBytes p.streamInfo

/-- The section in a description. -/
def inspect (p : PmtSection) : String :=
  Text.record "PmtSection" [
    ("pcr_pid", p.pcrPid.inspect),
    ("descriptors", Text.listing (p.descriptors.map Descriptor.inspectItem)),
    ("streams", Text.listing (p.streams.1.map StreamInfo.inspect))]

end PmtSection

end TransportStream
