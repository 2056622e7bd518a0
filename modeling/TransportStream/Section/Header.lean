import TransportStream.Bytes
import TransportStream.Section.Error
import TransportStream.Text.Inspect

/-!
# Section headers

Every section starts with three bytes: which table it belongs to, two flags, and how many bytes
follow.  Sections of the long form go on with five more bytes that place the section within its
table: which instance of the table, in which version, and which part of it.
-/

namespace TransportStream

/-- The fields that start every section. -/
structure SectionHeader where
  /-- The kind of table. -/
  tableId : UInt8
  /-- Set if the section has the long form, with a `TableHeader` and a checksum. -/
  longForm : Bool
  /-- The flag left to the definition of the table. -/
  privateIndicator : Bool
  /-- The number of bytes after these fields. -/
  length : Nat
  deriving DecidableEq

namespace SectionHeader

/-- The number of bytes these fields take. -/
def size : Nat := 3

/-- The largest length that the tables handled here may have. -/
def maxLength : Nat := 1021

/-- Reads the fields from the front of a byte string. -/
def ofBytes : Bytes → Except SectionError SectionHeader
  | b₀ :: b₁ :: b₂ :: _ => .ok {
      tableId := b₀
      longForm := bitFlag b₁ 7
      privateIndicator := bitFlag b₁ 6
      length := wordField 4 b₁ b₂ }
  | short => .error (.notEnoughData .sectionHeader size short.length)

/-- The number of bytes of the whole section. -/
def totalSize (h : SectionHeader) : Nat :=
  size + h.length

end SectionHeader

/-- Whether a section is already in force. -/
inductive CurrentNext where
  /-- It applies from now on. -/
  | current
  /-- It announces what will apply at a later time. -/
  | next
  deriving DecidableEq

/-- The name of the case in descriptions. -/
def CurrentNext.name : CurrentNext → String
  | current => "Current"
  | next => "Next"

/-- The fields that place a long section within its table. -/
structure TableHeader where
  /-- The instance of the table: the transport stream of an association table, the program of a
  map table. -/
  tableExtension : Nat
  /-- A number that changes when the content of the table does. -/
  version : Nat
  /-- Whether the section is already in force. -/
  currentNext : CurrentNext
  /-- The number of the section in its table. -/
  sectionNumber : UInt8
  /-- The number of the last section of the table. -/
  lastSectionNumber : UInt8
  deriving DecidableEq

namespace TableHeader

/-- The number of bytes these fields take. -/
def size : Nat := 5

/-- Reads the fields from the front of a byte string, if it is long enough. -/
def ofBytes? : Bytes → Option TableHeader
  | b₀ :: b₁ :: b₂ :: b₃ :: b₄ :: _ => some {
      tableExtension := word16 b₀ b₁
      version := bitField b₂ 1 5
      currentNext := if bitFlag b₂ 0 then .current else .next
      sectionNumber := b₃
      lastSectionNumber := b₄ }
  | _ => none

/-- The fields in a description. -/
def inspect (h : TableHeader) : String :=
  Text.record "TableSyntaxHeader" [
    ("id", toString h.tableExtension),
    ("version", toString h.version),
    ("current_next_indicator", h.currentNext.name),
    ("section_number", toString h.sectionNumber.toNat),
    ("last_section_number", toString h.lastSectionNumber.toNat)]

end TableHeader

end TransportStream
