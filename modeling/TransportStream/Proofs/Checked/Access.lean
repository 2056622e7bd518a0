import TransportStream.Packet

/-!
# Checked accesses

The library takes byte strings apart by their shape, and so cannot reach beyond their ends.  A
program that works with indices can: an index or the end of a slice can be too large, the difference
of two lengths can be below zero, a condition that it relies on can fail, and a loop can go on
forever.

The modules below `Checked` do what the library does with indices, one function for each function
of the library that looks at bytes or at lengths.  Each access is checked, and `none` stands for one
that fails.  What is shown for each of the functions is that its result is `some`, with the
library's result in it.

## Why the loops end

Each round of a loop gets nearer to the end of the bytes, by what its own accesses have checked:
what is left behind an offset is shorter by it (`behind?`).  Where a round consists of more than an
access, the loop stands behind the lemma that says what a round gives.

* `check`: a condition is relied on.
* `sub?`: a difference is taken.
* `slice?`, `from?`, `behind?`: part of a byte string is taken.
-/

namespace TransportStream

namespace Checked

/-- Relies on a condition. -/
def check (condition : Prop) [Decidable condition] : Option Unit :=
  if condition then some () else none

/-- The difference of two numbers, which has to be one. -/
def sub? (a b : Nat) : Option Nat :=
  if b ≤ a then some (a - b) else none

/-- The bytes from one offset up to another one. -/
def slice? (bytes : Bytes) (first last : Nat) : Option Bytes :=
  if first ≤ last ∧ last ≤ bytes.length then some ((bytes.take last).drop first) else none

/-- The bytes from an offset on. -/
def from? (bytes : Bytes) (first : Nat) : Option Bytes :=
  slice? bytes first bytes.length

theorem length_drop_add {bytes : Bytes} {first : Nat} (h : first ≤ bytes.length) :
    (bytes.drop first).length + first = bytes.length := by
  rw [List.length_drop, Nat.sub_add_cancel h]

/-- The bytes from an offset on, which are fewer by it. -/
def behind? (bytes : Bytes) (first : Nat) :
    Option { rest : Bytes // rest.length + first = bytes.length } :=
  if h : first ≤ bytes.length then some ⟨bytes.drop first, length_drop_add h⟩ else none

theorem check_of {condition : Prop} [Decidable condition] (h : condition) :
    check condition = some () :=
  if_pos h

theorem sub?_of_le {a b : Nat} (h : b ≤ a) : sub? a b = some (a - b) :=
  if_pos h

theorem slice?_of_le {bytes : Bytes} {first last : Nat} (h : first ≤ last)
    (hlast : last ≤ bytes.length) : slice? bytes first last = some ((bytes.take last).drop first) :=
  if_pos ⟨h, hlast⟩

/-- The bytes up to an offset. -/
theorem slice?_zero {bytes : Bytes} {last : Nat} (h : last ≤ bytes.length) :
    slice? bytes 0 last = some (bytes.take last) :=
  slice?_of_le (Nat.zero_le last) h

theorem from?_of_le {bytes : Bytes} {first : Nat} (h : first ≤ bytes.length) :
    from? bytes first = some (bytes.drop first) := by
  rw [from?, slice?_of_le h (Nat.le_refl _), List.take_length]

theorem eq_of_from? {bytes rest : Bytes} {first : Nat} (h : from? bytes first = some rest) :
    first ≤ bytes.length ∧ rest = bytes.drop first := by
  rw [from?, slice?] at h
  split at h
  · next hle =>
    cases h
    rw [List.take_length]
    exact ⟨hle.1, rfl⟩
  · cases h

theorem behind?_of_le {bytes : Bytes} {first : Nat} (h : first ≤ bytes.length) :
    behind? bytes first = some ⟨bytes.drop first, length_drop_add h⟩ :=
  dif_pos h

end Checked

end TransportStream
