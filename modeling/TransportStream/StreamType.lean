import TransportStream.Text.Inspect

/-!
# Stream types

A program map section gives each elementary stream a type, one byte that says how the stream is
coded.  Any byte can occur; the few that matter for framing have names.
-/

namespace TransportStream

/-- The type of an elementary stream. -/
structure StreamType where
  /-- The byte that stands for it. -/
  code : UInt8
  deriving DecidableEq

namespace StreamType

/-- MPEG-1 audio. -/
def mpeg1Audio : StreamType := ⟨0x03⟩

/-- MPEG-2 audio. -/
def mpeg2Audio : StreamType := ⟨0x04⟩

/-- Private data in PES packets, whose coding a registration descriptor may tell. -/
def privateData : StreamType := ⟨0x06⟩

/-- AAC audio in ADTS frames. -/
def adts : StreamType := ⟨0x0f⟩

/-- AAC audio in LATM frames. -/
def latm : StreamType := ⟨0x11⟩

/-- H.264 video. -/
def h264 : StreamType := ⟨0x1b⟩

/-- H.265 video. -/
def h265 : StreamType := ⟨0x24⟩

/-- The name of a type in descriptions, for the types that have one. -/
def name? (t : StreamType) : Option String :=
  if t = mpeg1Audio then some "ISO_11172_AUDIO"
  else if t = mpeg2Audio then some "ISO_138183_AUDIO"
  else if t = privateData then some "H222_0_PES_PRIVATE_DATA"
  else if t = adts then some "ADTS"
  else if t = latm then some "LATM"
  else if t = h264 then some "H264"
  else if t = h265 then some "H265"
  else none

/-- The type in a description: by name if it has one, by number otherwise. -/
def inspect (t : StreamType) : String :=
  match t.name? with
  | some name => "StreamType::" ++ name
  | none => Text.wrapped "StreamType" (Text.markedHex 2 t.code.toNat)

end StreamType

end TransportStream
