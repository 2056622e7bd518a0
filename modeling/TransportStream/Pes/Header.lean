import TransportStream.Pes.StreamId
import TransportStream.Timestamp

/-!
# Headers of PES packets

An elementary stream is cut into PES packets.  The header of such a packet starts with a start
code, the stream identifier and the packet length --- zero if the packet simply lasts until the
next one starts --- and goes on, for most kinds of stream, with optional fields whose total length
it gives.  Of these only the timestamps are read; whatever else the header holds is skipped by
length.

## More data or a mistake

A header can be split across transport stream packets anywhere, so the decoder is asked again and
again with more and more of it.  It answers `needMoreData` as long as the bytes at hand decide
nothing, names the number of bytes up to which it wants to read next, and reports a mistake as soon
as it has the bytes that show it.
-/

namespace TransportStream

/-- Why the header of a PES packet cannot be read. -/
inductive PesError where
  /-- The header goes on after the `available` bytes; `requested` are needed for the next step. -/
  | needMoreData (requested available : Nat)
  /-- The three bytes in place of the start code. -/
  | invalidStartCode (found : Nat)
  /-- The two bits that start the optional fields are not `10`. -/
  | checkBits (actual : Nat)
  /-- A decode timestamp is announced without a presentation timestamp. -/
  | ptsDtsFlagsInvalid
  /-- The announced timestamps need more bytes than the optional fields have. -/
  | headerDataTooShort (length required : Nat)
  /-- A timestamp is malformed. -/
  | timestamp (e : TimestampError)
  deriving DecidableEq

/-- The wording of a PES error. -/
def PesError.message : PesError → String
  | needMoreData requested available =>
    s!"PES header needs {requested} bytes, {available} available"
  | invalidStartCode found =>
    "invalid packet_start_code_prefix " ++ Text.markedHex 6 found ++ ", expected 0x000001"
  | checkBits actual =>
    "unexpected check-bits value " ++ Text.markedBinary actual ++ ", expected 0b10"
  | ptsDtsFlagsInvalid => "invalid PTS_DTS_flags value 0b01"
  | headerDataTooShort length required =>
    s!"PES_header_data_length {length} too short for {required} bytes of timestamps"
  | timestamp e => "bad timestamp: " ++ e.inspect

/-- The header of a PES packet. -/
structure PesHeader where
  /-- The kind of stream. -/
  streamId : StreamId
  /-- The number of bytes after the length field, or none if the packet is unbounded. -/
  packetLength : Option Nat
  /-- The timestamps the header gives. -/
  timing : Timing
  /-- The number of bytes up to the payload. -/
  headerLength : Nat
  deriving DecidableEq

namespace PesHeader

/-- The number of bytes that every header has. -/
def fixedSize : Nat := 6

/-- The number of bytes up to the timestamps, in headers that can have some. -/
def extendedSize : Nat := 9

/-- Which timestamps a header announces. -/
inductive TimingFlags where
  | nothing
  | ptsOnly
  | ptsAndDts
  deriving DecidableEq

/-- The meaning of the two-bit field; one of its four values is forbidden. -/
def TimingFlags.ofField? : Nat → Option TimingFlags
  | 0 => some nothing
  | 2 => some ptsOnly
  | 3 => some ptsAndDts
  | _ => none

/-- The number of bytes the announced timestamps take. -/
def TimingFlags.size : TimingFlags → Nat
  | nothing => 0
  | ptsOnly => 5
  | ptsAndDts => 10

/-- Reads the announced timestamps from the optional fields.  Only a presentation timestamp that
stands alone has its lead-in checked. -/
def readTiming (flags : TimingFlags) (fields : Bytes) : Except TimestampError Timing :=
  match flags with
  | .nothing => .ok {}
  | .ptsOnly => do
    let pts ← Timestamp.ofPtsBytes fields
    .ok { pts := some pts }
  | .ptsAndDts => do
    let pts ← Timestamp.ofBytes fields
    let dts ← Timestamp.ofDtsBytes (fields.drop 5)
    .ok { pts := some pts, dts := some dts }

/-- Reads what follows the packet length in a header with optional fields: the length of the whole
header, and the timestamps. -/
def readOptional (rest : Bytes) : Except PesError (Nat × Timing) :=
  match rest with
  | checks :: flags :: dataLength :: fields =>
    let headerLength := extendedSize + dataLength.toNat
    if bitField checks 6 2 ≠ 0b10 then .error (.checkBits (bitField checks 6 2))
    else
      match TimingFlags.ofField? (bitField flags 6 2) with
      | none => .error .ptsDtsFlagsInvalid
      | some announced =>
        if dataLength.toNat < announced.size then
          .error (.headerDataTooShort dataLength.toNat announced.size)
        else if fields.length < dataLength.toNat then
          .error (.needMoreData headerLength (extendedSize + fields.length))
        else
          match readTiming announced fields with
          | .error e => .error (.timestamp e)
          | .ok timing => .ok (headerLength, timing)
  | short => .error (.needMoreData extendedSize (fixedSize + short.length))

/-- Reads the header at the front of a byte string. -/
def ofBytes (bytes : Bytes) : Except PesError PesHeader :=
  match bytes with
  | b₀ :: b₁ :: b₂ :: b₃ :: b₄ :: b₅ :: rest =>
    let found := b₀.toNat * 65536 + word16 b₁ b₂
    let streamId := StreamId.ofByte b₃
    let packetLength := if word16 b₄ b₅ = 0 then none else some (word16 b₄ b₅)
    if found ≠ 1 then .error (.invalidStartCode found)
    else if streamId.hasOptionalFields then
      match readOptional rest with
      | .error e => .error e
      | .ok (headerLength, timing) => .ok { streamId, packetLength, timing, headerLength }
    else .ok { streamId, packetLength, timing := {}, headerLength := fixedSize }
  | short => .error (.needMoreData fixedSize short.length)

/-- The number of payload bytes of the packet, or none if it is unbounded.  A packet that ends
within its own header has no payload. -/
def payloadLength (h : PesHeader) : Option Nat :=
  h.packetLength.map fun length => length + fixedSize - h.headerLength

end PesHeader

end TransportStream
