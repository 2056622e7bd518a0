/-!
# Byte strings and bit fields

Everything that arrives in a transport stream arrives as bytes, and every header packs its fields
into them without regard for byte boundaries.  This module fixes how the rest of the library reads
such fields: as natural numbers, by shift and remainder.

## Why natural numbers

A field is used as a length, an identifier or a number of clock ticks, and all of these are
compared, added and subtracted together with the lengths of lists.  Reading a field straight into
`Nat` keeps one arithmetic for all of it; the width of the field survives as a bound
(`bitField_lt`, `wordField_lt`), which is all that later arguments need of it.

## Why lists

Bytes are a `List UInt8`: every decoder here either takes a few bytes off the front or walks to
the end, and a list is what such a walk can be reasoned about on.  The one thing that a list does
badly is to tell its length, so a decoder that only wants to know whether a field fits does not ask
for it: `splitFront?` looks at no more bytes than the field has.
-/

namespace TransportStream

/-- A string of bytes, the first one received in front. -/
abbrev Bytes := List UInt8

/-- The field of `width` bits in `b` whose least significant bit is bit number `low`, counting
from zero at the least significant end. -/
def bitField (b : UInt8) (low width : Nat) : Nat :=
  (b.toNat >>> low) % (1 <<< width)

/-- A field is smaller than its width allows. -/
theorem bitField_lt (b : UInt8) (low width : Nat) : bitField b low width < 1 <<< width :=
  Nat.mod_lt _ (by rw [Nat.one_shiftLeft]; exact Nat.two_pow_pos width)

/-- A one-bit field, as a flag. -/
def bitFlag (b : UInt8) (low : Nat) : Bool :=
  bitField b low 1 == 1

/-- The field made of the lowest `highBits` bits of `hi` followed by all of `lo`, which is how
every identifier and length longer than a byte is laid out. -/
def wordField (highBits : Nat) (hi lo : UInt8) : Nat :=
  bitField hi 0 highBits * 256 + lo.toNat

theorem wordField_lt (highBits : Nat) (hi lo : UInt8) :
    wordField highBits hi lo < (1 <<< highBits) * 256 := by
  have h := bitField_lt hi 0 highBits
  have l := lo.toNat_lt
  unfold wordField
  omega

/-- The two bytes together, as a sixteen-bit number. -/
def word16 (hi lo : UInt8) : Nat :=
  wordField 8 hi lo

theorem word16_lt (hi lo : UInt8) : word16 hi lo < 65536 :=
  wordField_lt 8 hi lo

/-- The first `n` bytes and what follows them, if there are so many. -/
def splitFront? (n : Nat) (bytes : Bytes) : Option (Bytes × Bytes) :=
  let front := bytes.take n
  if front.length = n then some (front, bytes.drop n) else none

/-- A split is a way of writing the bytes as two parts, the first of the wanted length. -/
theorem splitFront?_eq_some_iff {n : Nat} {bytes front rest : Bytes} :
    splitFront? n bytes = some (front, rest) ↔ bytes = front ++ rest ∧ front.length = n := by
  unfold splitFront?
  dsimp only
  constructor
  · intro h
    split at h
    · next hn =>
      cases h
      exact ⟨(List.take_append_drop n bytes).symm, hn⟩
    · cases h
  · rintro ⟨rfl, rfl⟩
    simp

/-- A split fails only for lack of bytes. -/
theorem splitFront?_eq_none_iff {n : Nat} {bytes : Bytes} :
    splitFront? n bytes = none ↔ bytes.length < n := by
  unfold splitFront?
  dsimp only
  split
  · next h =>
    rw [List.length_take] at h
    simp only [reduceCtorEq, false_iff]
    omega
  · next h =>
    rw [List.length_take] at h
    simp only [true_iff]
    omega

/-- A split of enough bytes is one into those taken and those dropped. -/
theorem splitFront?_of_le {n : Nat} {bytes : Bytes} (h : n ≤ bytes.length) :
    splitFront? n bytes = some (bytes.take n, bytes.drop n) :=
  splitFront?_eq_some_iff.mpr
    ⟨(List.take_append_drop n bytes).symm, List.length_take_of_le h⟩

/-- A split neither adds nor loses a byte. -/
theorem length_of_splitFront? {n : Nat} {bytes front rest : Bytes}
    (h : splitFront? n bytes = some (front, rest)) : bytes.length = n + rest.length := by
  obtain ⟨rfl, hn⟩ := splitFront?_eq_some_iff.mp h
  rw [List.length_append, hn]

end TransportStream
