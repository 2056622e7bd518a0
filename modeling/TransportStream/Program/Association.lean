import TransportStream.Items
import TransportStream.Pid
import TransportStream.Section.Error

/-!
# The program association table

The table on PID 0 lists the programs of a transport stream, four bytes each: a program number, and
the PID that carries the map of the program.  Program number zero stands for the network
information table instead.
-/

namespace TransportStream

/-- One entry of the program association table. -/
inductive PatEntry where
  /-- The PID of the network information table. -/
  | network (pid : Pid)
  /-- A program, and the PID of its map table. -/
  | program (number : Nat) (pid : Pid)
  deriving DecidableEq

namespace PatEntry

/-- The number of bytes of an entry. -/
def size : Nat := 4

/-- The entry in four bytes. -/
def ofFields (b₀ b₁ b₂ b₃ : UInt8) : PatEntry :=
  if word16 b₀ b₁ = 0 then network (.ofBytes b₂ b₃) else program (word16 b₀ b₁) (.ofBytes b₂ b₃)

theorem length_lt_length_entry (b₀ b₁ b₂ b₃ : UInt8) (rest : Bytes) :
    rest.length < (b₀ :: b₁ :: b₂ :: b₃ :: rest).length := by
  simp only [List.length_cons]
  omega

/-- Takes an entry off the front of a byte string. -/
def read : ItemReader PatEntry
  | b₀ :: b₁ :: b₂ :: b₃ :: rest =>
    some (ofFields b₀ b₁ b₂ b₃, ⟨rest, length_lt_length_entry b₀ b₁ b₂ b₃ rest⟩)
  | _ => none

/-- Reads an entry from the front of a byte string, if it is long enough. -/
def ofBytes? (bytes : Bytes) : Option PatEntry :=
  (read bytes).map (·.1)

/-- Reads entries as long as there are whole ones. -/
def listOfBytes (bytes : Bytes) : List PatEntry :=
  (readItems read bytes).1

end PatEntry

/-- A section of the program association table. -/
structure PatSection where
  /-- Its entries, in order. -/
  entries : List PatEntry
  deriving DecidableEq

/-- Reads the body of a section, which has to consist of whole entries. -/
def PatSection.ofBytes (body : Bytes) : Except SectionError PatSection :=
  if body.length % PatEntry.size = 0 then .ok ⟨PatEntry.listOfBytes body⟩
  else
    .error (.notEnoughData .programAssociation
      ((body.length / PatEntry.size + 1) * PatEntry.size) body.length)

end TransportStream
