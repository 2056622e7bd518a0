import TransportStream.Bytes
import TransportStream.SortedMap
import TransportStream.Text.Inspect

/-!
# Packet identifiers

A transport stream is many streams in one, and the thirteen-bit packet identifier in each packet
header says which of them the packet belongs to.  The bound is part of the type, so an identifier
read from two header bytes needs no check, and one made from a number needs exactly one
(`Pid.ofNat?`).
-/

namespace TransportStream

/-- A packet identifier: a number of thirteen bits. -/
structure Pid where
  /-- The number. -/
  value : Nat
  /-- It has thirteen bits. -/
  isLt : value < 0x2000
  deriving DecidableEq

namespace Pid

/-- The identifier with the given number, if there is one. -/
def ofNat? (n : Nat) : Option Pid :=
  if h : n < 0x2000 then some ⟨n, h⟩ else none

/-- The identifier in the low thirteen bits of two bytes; the three bits above it belong to other
fields or are reserved. -/
def ofBytes (hi lo : UInt8) : Pid :=
  ⟨wordField 5 hi lo, wordField_lt 5 hi lo⟩

/-- The identifier on which the program association table is always carried. -/
def pat : Pid :=
  ⟨0, by decide⟩

/-- The identifier of packets that only fill the stream up to a constant rate. -/
def stuffing : Pid :=
  ⟨0x1fff, by decide⟩

/-- Identifiers are ordered by their number. -/
instance : Ranked Pid where
  rank := Pid.value
  rank_injective := by
    intro a b h
    cases a
    cases b
    cases h
    rfl

@[simp] theorem rank_eq_value (p : Pid) : rank p = p.value := rfl

@[simp] theorem ofNat?_value (p : Pid) : ofNat? p.value = some p := dif_pos p.isLt

/-- The identifier as messages write it, such as `0x0100`. -/
def text (p : Pid) : String :=
  Text.markedHex 4 p.value

/-- The identifier inside a description, such as `Pid(0100)`. -/
def inspect (p : Pid) : String :=
  Text.wrapped "Pid" (Text.hex 4 p.value)

end Pid

end TransportStream
