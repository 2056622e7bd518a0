import TransportStream.Nal.StartCode

/-!
# NAL units

A video stream is a sequence of NAL units, and the type in the first byte of each says what it
holds.  Three things matter for finding the boundaries between pictures: coded picture data,
parameter sets and other units that can only stand before the picture data of an access unit, and
the rest.  H.264 and H.265 differ in the layout of the header and in the numbering of the types, and
that difference is the type `NalFormat`.

* `NalFormat.unit?` reads as much of a unit as boundaries depend on.
* `NalFormat.stripLeadingAuds` drops access unit delimiters from the front of an access unit.
-/

namespace TransportStream

/-- What a NAL unit means for the boundaries of access units. -/
inductive NalClass where
  /-- A parameter set, supplemental information or a delimiter, which stands before the coded
  picture of an access unit. -/
  | marker
  /-- A slice of a coded picture. -/
  | vcl
  /-- A unit without influence on boundaries. -/
  | other
  deriving DecidableEq

/-- The format of NAL units. -/
inductive NalFormat where
  | h264
  | h265
  deriving DecidableEq

/-- The start of a NAL unit, as far as boundaries depend on it. -/
structure NalUnit where
  /-- What the unit means for boundaries. -/
  kind : NalClass
  /-- The most significant bit of the first byte after the header.  In a slice it is set for the
  first slice of a picture: in H.264 as the whole code of macroblock address zero, in H.265 as a
  flag. -/
  topBit : Bool
  deriving DecidableEq

namespace NalFormat

/-- The number of bytes of the header of a unit. -/
def headerLength : NalFormat → Nat
  | h264 => 1
  | h265 => 2

/-- The type of the unit whose header starts with the given byte. -/
def unitType (f : NalFormat) (header : UInt8) : Nat :=
  match f with
  | h264 => bitField header 0 5
  | h265 => bitField header 1 6

/-- The type of access unit delimiters. -/
def delimiterType : NalFormat → Nat
  | h264 => 9
  | h265 => 35

/-- What the unit whose header starts with the given byte means for boundaries. -/
def classify (f : NalFormat) (header : UInt8) : NalClass :=
  let type := f.unitType header
  match f with
  | h264 =>
    if 1 ≤ type ∧ type ≤ 5 then .vcl
    else if 6 ≤ type ∧ type ≤ 9 then .marker
    else .other
  | h265 =>
    if type ≤ 9 ∨ 16 ≤ type ∧ type ≤ 21 then .vcl
    else if 32 ≤ type ∧ type ≤ 35 ∨ type = 39 then .marker
    else .other

/-- True if the unit whose header starts with the given byte is an access unit delimiter. -/
def isDelimiter (f : NalFormat) (header : UInt8) : Bool :=
  f.unitType header == f.delimiterType

/-- The unit at the front of a byte string, once its header and one more byte are there. -/
def unit? (f : NalFormat) (bytes : Bytes) : Option NalUnit :=
  match bytes.head?, bytes[f.headerLength]? with
  | some header, some first => some { kind := f.classify header, topBit := bitFlag first 7 }
  | _, _ => none

/-- An access unit without the delimiters at its very start.  A delimiter reaches to the next start
code, or to the end. -/
def stripLeadingAuds (f : NalFormat) (unit : Bytes) : Bytes :=
  match StartCode.find? unit 0 with
  | none => unit
  | some code =>
    if code.start = 0 ∧ (unit[code.nalStart]?).any f.isDelimiter then
      match _h : StartCode.find? unit code.nalStart with
      | none => []
      | some next => f.stripLeadingAuds (unit.drop next.start)
    else unit
termination_by unit.length
decreasing_by
  have hb := StartCode.bounds_of_find? _h
  simp only [StartCode.nalStart, List.length_drop] at *
  omega

end NalFormat

end TransportStream
