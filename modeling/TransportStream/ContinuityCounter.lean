/-!
# Continuity counters

The packets of one PID that carry payload are numbered modulo sixteen, so that the loss of a few of
them can be noticed.  Arithmetic on `Fin 16` is that numbering.
-/

namespace TransportStream

/-- The four-bit number of a packet among those of its PID. -/
structure ContinuityCounter where
  /-- The number. -/
  count : Fin 16
  deriving DecidableEq

namespace ContinuityCounter

/-- The counter with the given number, if there is one. -/
def ofNat? (n : Nat) : Option ContinuityCounter :=
  if h : n < 16 then some ⟨⟨n, h⟩⟩ else none

/-- True if `a` is the number after `b`; zero is the number after fifteen. -/
def follows (a b : ContinuityCounter) : Bool :=
  a.count == b.count + 1

theorem eq_iff (a b : ContinuityCounter) : a = b ↔ a.count.val = b.count.val := by
  cases a
  cases b
  rw [mk.injEq, Fin.ext_iff]

theorem follows_iff (a b : ContinuityCounter) :
    a.follows b = true ↔ a.count.val = (b.count.val + 1) % 16 := by
  rw [follows, beq_iff_eq, Fin.ext_iff, Fin.val_add]
  rfl

/-- No number follows itself. -/
theorem ne_of_follows {a b : ContinuityCounter} (h : a.follows b = true) : a ≠ b := by
  have hlt := b.count.isLt
  rw [follows_iff] at h
  rw [Ne, eq_iff]
  omega

end ContinuityCounter

end TransportStream
