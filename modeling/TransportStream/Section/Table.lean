import TransportStream.Checksum
import TransportStream.Section.Header

/-!
# Sections of the long form

A section of the long form is a `SectionHeader`, a `TableHeader`, the content of the table, and
four bytes of checksum.  `TableSection.ofBytes` accepts a byte string that starts with such a
section; bytes after its end have no influence, and the checksum is looked at only on request.

The order of the checks shows when several things are wrong at once: the form comes before the
length, and the length before the checksum, because each check needs what the one before it
established.
-/

namespace TransportStream

/-- A section of the long form, taken apart. -/
structure TableSection where
  /-- The fields that start every section. -/
  header : SectionHeader
  /-- The fields that place it within its table. -/
  table : TableHeader
  /-- What stands between those fields and the checksum. -/
  body : Bytes
  deriving DecidableEq

namespace TableSection

/-- The number of bytes of the checksum. -/
def crcSize : Nat := 4

/-- The number of bytes of a long section without content. -/
def minSize : Nat := SectionHeader.size + TableHeader.size + crcSize

/-- Reads a long section from the front of a byte string.  With `verifyCrc` the checksum over the
whole section, its own field included, has to be zero. -/
def ofBytes (data : Bytes) (verifyCrc : Bool) : Except SectionError TableSection := do
  let header ← SectionHeader.ofBytes data
  let size := header.totalSize
  let truncated := SectionError.notEnoughData .tableSection (max size minSize) data.length
  let whole := data.take size
  if !header.longForm then
    .error (.shortForm header.tableId)
  else if size < minSize ∨ data.length < size then
    .error truncated
  else if verifyCrc && Checksum.sum whole != 0 then
    .error (.crcMismatch header.tableId)
  else
    match TableHeader.ofBytes? (whole.drop SectionHeader.size) with
    | none => .error truncated
    | some table => .ok {
        header := header
        table := table
        body := (whole.drop (SectionHeader.size + TableHeader.size)).take (size - minSize) }

end TableSection

end TransportStream
