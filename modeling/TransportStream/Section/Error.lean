import TransportStream.Text.Numeral

/-!
# What can be wrong with a section

Sections go wrong in three places: in the packets that carry them, in the frame of length and
checksum around them, and in the table inside.  One type covers all three, because whoever feeds
payloads into a section buffer receives them through one door.
-/

namespace TransportStream

/-- The structures that a section is read as, from the outside in. -/
inductive SectionPart where
  | sectionHeader
  | pointerField
  | tableSection
  | programAssociation
  | programMap
  | programInfo
  | streamInfo
  | esInfo
  deriving DecidableEq

/-- The name of a structure in messages. -/
def SectionPart.name : SectionPart → String
  | sectionHeader => "section header"
  | pointerField => "pointer_field"
  | tableSection => "table section"
  | programAssociation => "program_association_section"
  | programMap => "program_map_section"
  | programInfo => "program_info"
  | streamInfo => "stream info"
  | esInfo => "ES_info"

/-- Why a section cannot be used. -/
inductive SectionError where
  /-- Fewer bytes are there than the structure takes. -/
  | notEnoughData (part : SectionPart) (expected actual : Nat)
  /-- The pointer to the first section start leads past the end of the payload. -/
  | pointerBeyondPayload (pointer available : Nat)
  /-- The length field exceeds what the standard allows for tables of this kind. -/
  | sectionTooLong (length : Nat)
  /-- A table that needs the long form of section came in the short form. -/
  | shortForm (tableId : UInt8)
  /-- The checksum at the end does not match the bytes before it. -/
  | crcMismatch (tableId : UInt8)
  deriving DecidableEq

/-- The wording of a section error. -/
def SectionError.message : SectionError → String
  | notEnoughData part expected actual =>
    part.name ++ s!" requires {expected} bytes, only {actual} available"
  | pointerBeyondPayload pointer available =>
    s!"pointer_field {pointer} beyond end of payload ({available} bytes)"
  | sectionTooLong length => s!"section_length {length} too long"
  | shortForm tableId =>
    "table_id " ++ Text.markedHex 2 tableId.toNat ++ " requires section syntax"
  | crcMismatch tableId =>
    "section crc check failed for table_id " ++ Text.markedHex 2 tableId.toNat

end TransportStream
