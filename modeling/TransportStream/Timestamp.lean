import TransportStream.Bytes
import TransportStream.Text.Inspect

/-!
# Timestamps

Presentation and decode timestamps count ticks of a 90 kHz clock in 33 bits.  On the wire the bits
are spread over five bytes: four bits of lead-in that tell the kinds of timestamp apart, then three
groups of 3, 15 and 15 bits, each closed by a marker bit that is always set.

## Reading a field that is too short

The checks look at one byte each, in the order lead-in, first, second and third marker, and the
first check that fails decides.  A field that ends before the byte a check needs is `truncated`
only when that check is reached; a reader that makes sure of five bytes never meets it
(`Timestamp.ofBytes_ne_truncated`).
-/

namespace TransportStream

/-- Why a timestamp cannot be read. -/
inductive TimestampError where
  /-- The lead-in does not belong to the kind of timestamp expected. -/
  | incorrectPrefixBits (expected actual : Nat)
  /-- A marker bit, counted from the most significant bit of the field, is not set. -/
  | markerBitNotSet (bit : Nat)
  /-- The field ends too early. -/
  | truncated
  deriving DecidableEq

/-- The error in a description. -/
def TimestampError.inspect : TimestampError → String
  | incorrectPrefixBits expected actual =>
    Text.record "IncorrectPrefixBits" [
      ("expected", toString expected), ("actual", toString actual)]
  | markerBitNotSet bit => Text.record "MarkerBitNotSet" [("bit_number", toString bit)]
  | truncated => "Truncated"

/-- A time in ticks of the 90 kHz clock, which wraps around after 33 bits. -/
structure Timestamp where
  /-- The number of ticks. -/
  ticks : Nat
  /-- It has 33 bits. -/
  isLt : ticks < 0x200000000
  deriving DecidableEq

namespace Timestamp

/-- The timestamp with the given number of ticks, if there is one. -/
def ofNat? (n : Nat) : Option Timestamp :=
  if h : n < 0x200000000 then some ⟨n, h⟩ else none

/-- The last timestamp before the clock wraps around. -/
def max : Timestamp :=
  ⟨0x1ffffffff, by decide⟩

/-- The time in whole milliseconds. -/
def millis (t : Timestamp) : Nat :=
  t.ticks / 90

/-- The timestamp spread over five bytes, whatever their lead-in and marker bits. -/
def ofFields (b₀ b₁ b₂ b₃ b₄ : UInt8) : Timestamp where
  ticks := bitField b₀ 1 3 * 0x40000000 + b₁.toNat * 0x400000 + bitField b₂ 1 7 * 0x8000 +
    b₃.toNat * 0x80 + bitField b₄ 1 7
  isLt := by
    have h₀ := bitField_lt b₀ 1 3
    have h₁ := b₁.toNat_lt
    have h₂ := bitField_lt b₂ 1 7
    have h₃ := b₃.toNat_lt
    have h₄ := bitField_lt b₄ 1 7
    omega

/-- Checks the lead-in of a field. -/
def checkLead (field : Bytes) (expected : Nat) : Except TimestampError Unit :=
  match field with
  | [] => .error .truncated
  | b :: _ =>
    if bitField b 4 4 = expected then .ok ()
    else .error (.incorrectPrefixBits expected (bitField b 4 4))

/-- Checks one marker bit of a field. -/
def checkMarker (field : Bytes) (bit : Nat) : Except TimestampError Unit :=
  match field[bit / 8]? with
  | none => .error .truncated
  | some b => if bitFlag b (7 - bit % 8) then .ok () else .error (.markerBitNotSet bit)

/-- Reads a timestamp from the front of a byte string, with any lead-in: the first timestamp of a
pair has one of its own. -/
def ofBytes (field : Bytes) : Except TimestampError Timestamp := do
  checkMarker field 7
  checkMarker field 23
  checkMarker field 39
  match field with
  | b₀ :: b₁ :: b₂ :: b₃ :: b₄ :: _ => .ok (ofFields b₀ b₁ b₂ b₃ b₄)
  | _ => .error .truncated

/-- Reads a presentation timestamp that stands alone. -/
def ofPtsBytes (field : Bytes) : Except TimestampError Timestamp := do
  checkLead field 0b0010
  ofBytes field

/-- Reads a decode timestamp. -/
def ofDtsBytes (field : Bytes) : Except TimestampError Timestamp := do
  checkLead field 0b0001
  ofBytes field

theorem checkMarker_ne_truncated {field : Bytes} (bit : Nat) (h : bit / 8 < field.length) :
    checkMarker field bit ≠ .error .truncated := by
  unfold checkMarker
  rw [List.getElem?_eq_getElem h]
  dsimp only
  split <;> simp

/-- Five bytes are enough for every check. -/
theorem ofBytes_ne_truncated {field : Bytes} (h : 5 ≤ field.length) :
    ofBytes field ≠ .error .truncated := by
  have h₁ : checkMarker field 7 ≠ .error .truncated := checkMarker_ne_truncated 7 (by omega)
  have h₂ : checkMarker field 23 ≠ .error .truncated := checkMarker_ne_truncated 23 (by omega)
  have h₃ : checkMarker field 39 ≠ .error .truncated := checkMarker_ne_truncated 39 (by omega)
  unfold ofBytes
  simp only [bind, Except.bind]
  cases e₁ : checkMarker field 7 with
  | error e => simpa [e₁] using h₁
  | ok _ =>
    cases e₂ : checkMarker field 23 with
    | error e => simpa [e₂] using h₂
    | ok _ =>
      cases e₃ : checkMarker field 39 with
      | error e => simpa [e₃] using h₃
      | ok _ =>
        match field, h with
        | b₀ :: b₁ :: b₂ :: b₃ :: b₄ :: rest, _ => simp

end Timestamp

/-- The two timestamps that go with a piece of an elementary stream, as far as they are known. -/
structure Timing where
  /-- When to present it. -/
  pts : Option Timestamp := none
  /-- When to decode it. -/
  dts : Option Timestamp := none
  deriving DecidableEq

end TransportStream
