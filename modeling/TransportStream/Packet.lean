import TransportStream.Pid
import TransportStream.ContinuityCounter

/-!
# Transport stream packets

A packet is 188 bytes: the synchronisation byte, three bytes of header fields, and a body of 184
bytes that holds an adaptation field, a payload, both or neither.  `Packet.ofBytes?` reads the
header once; what is left is the body, and the two questions asked of it are where the payload is
(`payload`) and whether a jump of the continuity counter was announced (`discontinuity`).

## Where the payload is

If an adaptation field is present, its length comes first in the body and the payload, if any,
after the field.  A field that fills the body exactly leaves no payload, which is not an error; a
field longer than the body is one, but only where a payload is announced: otherwise nobody looks
for what follows the field.  So a payload, when there is one, is never empty.
-/

namespace TransportStream

/-- What the body of a packet holds, as the two bits of the header field say. -/
inductive AdaptationControl where
  /-- A value without a meaning so far. -/
  | reserved
  /-- A payload alone. -/
  | payloadOnly
  /-- An adaptation field alone. -/
  | adaptationFieldOnly
  /-- An adaptation field with a payload after it. -/
  | adaptationFieldAndPayload
  deriving DecidableEq

namespace AdaptationControl

/-- The meaning of a value of the two-bit field. -/
def ofField : Nat → AdaptationControl
  | 0 => reserved
  | 1 => payloadOnly
  | 2 => adaptationFieldOnly
  | _ => adaptationFieldAndPayload

/-- True if a payload is announced. -/
def hasPayload : AdaptationControl → Bool
  | reserved | adaptationFieldOnly => false
  | payloadOnly | adaptationFieldAndPayload => true

/-- True if an adaptation field is announced. -/
def hasAdaptationField : AdaptationControl → Bool
  | reserved | payloadOnly => false
  | adaptationFieldOnly | adaptationFieldAndPayload => true

/-- The name of the case in descriptions. -/
def name : AdaptationControl → String
  | reserved => "Reserved"
  | payloadOnly => "PayloadOnly"
  | adaptationFieldOnly => "AdaptationFieldOnly"
  | adaptationFieldAndPayload => "AdaptationFieldAndPayload"

end AdaptationControl

/-- Why the payload of a packet cannot be located. -/
inductive PacketError where
  /-- The adaptation field is said to have `length` bytes, but at most `max` fit. -/
  | adaptationFieldTooLong (length max : Nat)
  deriving DecidableEq

/-- The wording of a packet error. -/
def PacketError.message : PacketError → String
  | adaptationFieldTooLong length max =>
    s!"adaptation_field_length {length} exceeds the {max} bytes available"

/-- A transport stream packet: the fields of its header, and its body. -/
structure Packet where
  /-- Set by a receiver that could not correct an error in this packet. -/
  transportError : Bool
  /-- Set if a section or a PES packet starts in the payload. -/
  unitStart : Bool
  /-- The stream the packet belongs to. -/
  pid : Pid
  /-- What the body holds. -/
  control : AdaptationControl
  /-- The number of the packet among those of its stream. -/
  counter : ContinuityCounter
  /-- Everything after the header. -/
  body : Bytes
  /-- The body has all bytes that the header leaves of the packet. -/
  length_body : body.length = 184
  deriving DecidableEq

namespace Packet

/-- The number of bytes of a packet. -/
def size : Nat := 188

/-- The value of the first byte of every packet. -/
def syncByte : UInt8 := 0x47

/-- Reads a packet from exactly its bytes; refuses another number of bytes, and bytes that do not
start with the synchronisation byte. -/
def ofBytes? : Bytes → Option Packet
  | sync :: b₁ :: b₂ :: b₃ :: body =>
    if h : sync = syncByte ∧ body.length = 184 then
      some {
        transportError := bitFlag b₁ 7
        unitStart := bitFlag b₁ 6
        pid := .ofBytes b₁ b₂
        control := .ofField (bitField b₃ 4 2)
        counter := ⟨⟨bitField b₃ 0 4, bitField_lt b₃ 0 4⟩⟩
        body := body
        length_body := h.2 }
    else none
  | _ => none

/-- The length of the adaptation field, and the part of the body that starts with the field, if
one is announced. -/
def adaptationField? (p : Packet) : Option (Nat × Bytes) :=
  if p.control.hasAdaptationField then
    match p.body with
    | length :: rest => some (length.toNat, rest)
    | [] => none
  else none

/-- The discontinuity indicator: the top bit of the first byte of the adaptation field.  An empty
field has no such byte, and what follows it is payload, not flags. -/
def discontinuity (p : Packet) : Bool :=
  match p.adaptationField? with
  | some (length, flags :: _) => 0 < length && bitFlag flags 7
  | _ => false

/-- The payload, if the packet has one. -/
def payload (p : Packet) : Except PacketError (Option Bytes) :=
  match p.control with
  | .reserved | .adaptationFieldOnly => .ok none
  | .payloadOnly => .ok (some p.body)
  | .adaptationFieldAndPayload =>
    match p.adaptationField? with
    | none => .ok none
    | some (length, rest) =>
      if rest.length < length then .error (.adaptationFieldTooLong length rest.length)
      else if length = rest.length then .ok none
      else .ok (some (rest.drop length))

/-- The packet in a description. -/
def inspect (p : Packet) : String :=
  Text.record "Packet" [
    ("pid", p.pid.inspect),
    ("pusi", toString p.unitStart),
    ("cc", toString p.counter.count.val),
    ("adaptation_control", p.control.name)]

end Packet

end TransportStream
