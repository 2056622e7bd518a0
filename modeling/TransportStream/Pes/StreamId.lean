import TransportStream.Bytes

/-!
# Stream identifiers of PES packets

Each PES packet says in one byte what kind of stream it belongs to.  For the decoder of PES headers
the kinds fall into two classes: those whose header goes on with the optional fields, timestamps
among them, and those whose payload starts right after the packet length.
-/

namespace TransportStream

/-- The kind of stream a PES packet belongs to. -/
inductive StreamId where
  | programStreamMap
  | privateStream1
  | paddingStream
  | privateStream2
  | audio (number : Nat)
  | video (number : Nat)
  | ecmStream
  | emmStream
  | dsmCc
  | h2221TypeE
  | programStreamDirectory
  | other (code : UInt8)
  deriving DecidableEq

namespace StreamId

/-- The kind a byte stands for. -/
def ofByte (b : UInt8) : StreamId :=
  if b = 0xbc then programStreamMap
  else if b = 0xbd then privateStream1
  else if b = 0xbe then paddingStream
  else if b = 0xbf then privateStream2
  else if bitField b 5 3 = 0b110 then audio (bitField b 0 5)
  else if bitField b 4 4 = 0b1110 then video (bitField b 0 4)
  else if b = 0xf0 then ecmStream
  else if b = 0xf1 then emmStream
  else if b = 0xf2 then dsmCc
  else if b = 0xf8 then h2221TypeE
  else if b = 0xff then programStreamDirectory
  else other b

/-- True of the kinds whose header has the optional fields. -/
def hasOptionalFields : StreamId → Bool
  | programStreamMap | paddingStream | privateStream2 | ecmStream | emmStream
  | programStreamDirectory | dsmCc | h2221TypeE => false
  | privateStream1 | audio _ | video _ | other _ => true

end StreamId

end TransportStream
