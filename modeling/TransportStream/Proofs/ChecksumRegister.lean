import Mathlib.Data.List.GetD
import TransportStream.Proofs.SectionEncoding

/-!
# The checksum, bit by bit

A cyclic redundancy check is defined by a register that the bits of the data enter one by one.  What
happens to it is linear over the field of two elements, and the generator ends in a one, so a bit
that the generator has left in the register at its lowest place comes out again only after as many
steps as the register has places.  From these two facts follows everything here, for a register of
any width.

* `Register.enterAll_xor`: registers and bits can be added before they meet or afterwards.
* `Register.enterAll_eq_zero_iff`: few bits empty a register if they are what is in it, and not
  otherwise.
* `Register.eq_of_enterAll_eq`: few bits can be told from what they make of a register.
* `Register.enterAll_injective`: registers that differ go on to differ.
* `Checksum.toBitVec_step`: one look into the table is eight steps of such a register.
* `Checksum.sum_serial`: the checksum is what is in the register at the end, and four bytes behind
  the data make it zero if they are the checksum of the data, and not otherwise.
-/

namespace TransportStream

/-! ## The bits of a byte string -/

/-- The bits of a byte, the most significant one first. -/
def bitsOfByte (b : UInt8) : List Bool :=
  (List.range 8).map fun i => bitFlag b (7 - i)

/-- The bits of a byte string, in the order in which they are sent. -/
def bits (bytes : Bytes) : List Bool :=
  bytes.flatMap bitsOfByte

theorem bits_cons (b : UInt8) (bytes : Bytes) : bits (b :: bytes) = bitsOfByte b ++ bits bytes :=
  List.flatMap_cons

theorem bits_append (x y : Bytes) : bits (x ++ y) = bits x ++ bits y :=
  List.flatMap_append

theorem length_bitsOfByte (b : UInt8) : (bitsOfByte b).length = 8 := by
  rw [bitsOfByte, List.length_map, List.length_range]

theorem length_bits (bytes : Bytes) : (bits bytes).length = bytes.length * 8 := by
  induction bytes with
  | nil => rfl
  | cons b bytes ih =>
    rw [bits_cons, List.length_append, length_bitsOfByte, ih, List.length_cons]
    omega

theorem bitFlag_eq_getLsbD (b : UInt8) (i : Nat) : bitFlag b i = b.toBitVec.getLsbD i := by
  rw [bitFlag, bitField, BitVec.getLsbD, Nat.testBit_eq_decide_div_mod_eq,
    Nat.shiftRight_eq_div_pow]
  rfl

theorem getElem?_bitsOfByte (b : UInt8) {i : Nat} (h : i < 8) :
    (bitsOfByte b)[i]? = some (b.toBitVec.getMsbD i) := by
  rw [bitsOfByte, List.getElem?_map, List.getElem?_range h, BitVec.getMsbD_eq_getLsbD,
    decide_eq_true h, Option.map_some, bitFlag_eq_getLsbD]
  rfl

theorem getD_bitsOfByte (b : UInt8) (i : Nat) :
    (bitsOfByte b).getD i false = b.toBitVec.getMsbD i := by
  rw [List.getD_eq_getElem?_getD]
  by_cases h : i < 8
  · rw [getElem?_bitsOfByte b h, Option.getD_some]
  · rw [List.getElem?_eq_none (by rw [length_bitsOfByte]; omega), Option.getD_none,
      BitVec.getMsbD_of_ge _ _ (by omega)]

theorem bitsOfByte_xor (a b : UInt8) :
    bitsOfByte (a ^^^ b) = List.zipWith xor (bitsOfByte a) (bitsOfByte b) := by
  simp only [bitsOfByte, bitFlag_eq_getLsbD, UInt8.toBitVec_xor, BitVec.getLsbD_xor,
    List.zipWith_map, List.zipWith_self]

theorem bitsOfByte_injective {a b : UInt8} (h : bitsOfByte a = bitsOfByte b) : a = b := by
  refine UInt8.toBitVec_inj.mp (BitVec.eq_of_getMsbD_eq fun i _ => ?_)
  rw [← getD_bitsOfByte, ← getD_bitsOfByte, h]

theorem bits_injective {x y : Bytes} (h : bits x = bits y) : x = y := by
  have hlength : x.length = y.length := by
    have hbits := congrArg List.length h
    rw [length_bits, length_bits] at hbits
    omega
  induction x generalizing y with
  | nil => exact (List.length_eq_zero_iff.mp hlength.symm).symm
  | cons a x ih =>
    match y with
    | b :: y =>
      rw [bits_cons, bits_cons] at h
      obtain ⟨hbyte, hbits⟩ := List.append_inj h (by rw [length_bitsOfByte, length_bitsOfByte])
      rw [bitsOfByte_injective hbyte, ih hbits (Nat.succ.inj hlength)]

/-! ## A register of any width -/

namespace Register

variable {n : Nat}

/-- A register after one more bit.  Its own bits move up by one place; if the one that leaves at the
top is not the one that enters, the generator is added. -/
def enter (generator register : BitVec n) (bit : Bool) : BitVec n :=
  if register.msb = bit then register <<< 1 else (register <<< 1) ^^^ generator

/-- A register after all bits of a list. -/
def enterAll (generator register : BitVec n) (sent : List Bool) : BitVec n :=
  sent.foldl (enter generator) register

variable {generator a b : BitVec n} {ps qs : List Bool}

@[simp] theorem enterAll_nil (register : BitVec n) : enterAll generator register [] = register :=
  rfl

@[simp] theorem enterAll_cons (register : BitVec n) (p : Bool) (ps : List Bool) :
    enterAll generator register (p :: ps) = enterAll generator (enter generator register p) ps :=
  rfl

theorem enterAll_append (register : BitVec n) (ps qs : List Bool) :
    enterAll generator register (ps ++ qs) =
      enterAll generator (enterAll generator register ps) qs :=
  List.foldl_append

/-! ### Linearity -/

theorem enter_eq (register : BitVec n) (p : Bool) :
    enter generator register p =
      (register <<< 1) ^^^ if register.msb ^^ p then generator else 0#n := by
  unfold enter
  cases register.msb <;> cases p <;> simp

theorem enter_xor (generator a b : BitVec n) (p q : Bool) :
    enter generator (a ^^^ b) (p ^^ q) = enter generator a p ^^^ enter generator b q := by
  have hadded : ∀ s t : Bool, (if s ^^ t then generator else 0#n) =
      (if s then generator else 0#n) ^^^ if t then generator else 0#n := by
    intro s t
    cases s <;> cases t <;> simp
  have hbits : ((a.msb ^^ b.msb) ^^ (p ^^ q)) = ((a.msb ^^ p) ^^ (b.msb ^^ q)) := by
    simp only [Bool.xor_assoc, Bool.xor_left_comm]
  rw [enter_eq, enter_eq, enter_eq, BitVec.msb_xor, BitVec.shiftLeft_xor_distrib, hbits, hadded]
  ac_rfl

/-- Registers and bits can be added before they meet or afterwards. -/
theorem enterAll_xor (generator a b : BitVec n) (h : ps.length = qs.length) :
    enterAll generator (a ^^^ b) (List.zipWith xor ps qs) =
      enterAll generator a ps ^^^ enterAll generator b qs := by
  induction ps generalizing a b qs with
  | nil =>
    cases List.length_eq_zero_iff.mp h.symm
    rfl
  | cons p ps ih =>
    match qs with
    | q :: qs =>
      rw [List.zipWith_cons_cons, enterAll_cons, enter_xor, ih _ _ (Nat.succ.inj h)]
      rfl

/-! ### What bits make of a register -/

/-- Bits that are those at the top of the register only move the others up. -/
theorem enterAll_of_top (h : ∀ i, i < ps.length → a.getMsbD i = ps.getD i false) :
    enterAll generator a ps = a <<< ps.length := by
  induction ps generalizing a with
  | nil => exact (BitVec.shiftLeft_zero a).symm
  | cons p ps ih =>
    have htop : a.msb = p := by
      rw [BitVec.msb_eq_getMsbD_zero]
      exact h 0 (Nat.succ_pos _)
    have hrest : ∀ i, i < ps.length → (a <<< 1).getMsbD i = ps.getD i false := by
      intro i hi
      rw [BitVec.getMsbD_shiftLeft]
      exact h (i + 1) (Nat.succ_lt_succ hi)
    rw [enterAll_cons, enter, if_pos htop, ih hrest, ← BitVec.shiftLeft_add, List.length_cons,
      Nat.add_comm]

/-- **What empties a register.**  No more bits than it has places empty a register if they are those
at its top and there are no others in it, and not otherwise. -/
theorem enterAll_eq_zero_iff (hodd : generator.getLsbD 0 = true) (h : ps.length ≤ n) :
    enterAll generator a ps = 0#n ↔ ∀ i, a.getMsbD i = ps.getD i false := by
  induction ps generalizing a with
  | nil =>
    simp only [enterAll_nil, List.getD_nil]
    constructor
    · rintro rfl i
      exact BitVec.getMsbD_zero
    · intro hzero
      exact BitVec.eq_of_getMsbD_eq fun i _ => (hzero i).trans BitVec.getMsbD_zero.symm
  | cons p ps ih =>
    have hlength : ps.length < n := h
    rw [enterAll_cons, ih (Nat.le_of_lt hlength)]
    by_cases htop : a.msb = p
    · simp only [enter, if_pos htop, BitVec.getMsbD_shiftLeft]
      constructor
      · intro hall i
        cases i with
        | zero => rw [← BitVec.msb_eq_getMsbD_zero, htop, List.getD_cons_zero]
        | succ i => rw [List.getD_cons_succ, ← hall i]
      · intro hall i
        rw [hall (i + 1), List.getD_cons_succ]
    · -- the generator comes in, and too few bits are left for its last one to leave
      have hin : (enter generator a p).getMsbD (n - 1) = true := by
        rw [enter, if_neg htop, BitVec.getMsbD_xor, BitVec.getMsbD_shiftLeft,
          BitVec.getMsbD_of_ge _ _ (by omega), Bool.false_xor, BitVec.getMsbD_eq_getLsbD,
          decide_eq_true (by omega), Bool.true_and, Nat.sub_self, hodd]
      have hout : ps.getD (n - 1) false = false := List.getD_eq_default _ _ (by omega)
      refine iff_of_false (fun hall => ?_) fun hall => htop ?_
      · exact Bool.noConfusion (hin.symm.trans ((hall (n - 1)).trans hout))
      · rw [BitVec.msb_eq_getMsbD_zero, hall 0, List.getD_cons_zero]

/-- Registers that differ go on to differ. -/
theorem enterAll_injective (hodd : generator.getLsbD 0 = true)
    (h : enterAll generator a ps = enterAll generator b ps) : a = b := by
  have hpos : 1 ≤ n := by
    refine Nat.pos_of_ne_zero ?_
    rintro rfl
    simp at hodd
  induction ps generalizing a b with
  | nil => exact h
  | cons p ps ih =>
    have hone : enter generator a p = enter generator b p := ih h
    have hsum : enterAll generator (a ^^^ b) [false] = 0#n := by
      rw [enterAll_cons, ← Bool.xor_self p, enter_xor, hone, BitVec.xor_self, enterAll_nil]
    have hzero : a ^^^ b = 0#n := by
      refine BitVec.eq_of_getMsbD_eq fun i _ => ?_
      rw [(enterAll_eq_zero_iff hodd (show [false].length ≤ n from hpos)).mp hsum i,
        BitVec.getMsbD_zero]
      cases i <;> rfl
    exact BitVec.xor_eq_zero_iff.mp hzero

/-- No more bits than a register has places can be told from what they make of it. -/
theorem eq_of_enterAll_eq (hodd : generator.getLsbD 0 = true) (hlength : ps.length = qs.length)
    (hle : ps.length ≤ n) (h : enterAll generator a ps = enterAll generator a qs) : ps = qs := by
  have hsum : enterAll generator 0#n (List.zipWith xor ps qs) = 0#n := by
    have hboth := enterAll_xor generator a a hlength
    rwa [h, BitVec.xor_self, BitVec.xor_self] at hboth
  have hwidth : (List.zipWith xor ps qs).length ≤ n := by
    rw [List.length_zipWith, ← hlength, Nat.min_self]
    exact hle
  have hzero := (enterAll_eq_zero_iff hodd hwidth).mp hsum
  refine List.ext_getElem hlength fun i hp hq => ?_
  have hi := hzero i
  rw [BitVec.getMsbD_zero, List.getD_eq_getElem _ _ (by rw [List.length_zipWith]; omega),
    List.getElem_zipWith] at hi
  simpa using hi.symm

end Register

/-! ## The register of the checksum -/

namespace Checksum

open Register

/-- One step of the register is one in which a zero enters. -/
theorem toBitVec_shift (register : UInt32) :
    (shift register).toBitVec = enter 0x04c11db7#32 register.toBitVec false := by
  have htop : (register &&& 0x80000000 = 0) ↔ register.toBitVec.msb = false := by
    have hmask : (0x80000000 : UInt32).toBitVec = BitVec.twoPow 32 31 := by decide
    rw [← UInt32.toBitVec_inj, UInt32.toBitVec_and, hmask, BitVec.and_twoPow,
      BitVec.msb_eq_getLsbD_last]
    cases register.toBitVec.getLsbD 31 <;> simp
  unfold shift enter
  by_cases h : register &&& 0x80000000 = 0
  · rw [if_pos h, if_pos (htop.mp h)]
    rfl
  · rw [if_neg h, if_neg (mt htop.mpr h)]
    rfl

theorem toBitVec_shiftByte (register : UInt32) :
    (shiftByte register).toBitVec = enterAll 0x04c11db7#32 register.toBitVec (bitsOfByte 0) := by
  have hzero : bitsOfByte 0 = List.replicate 8 false := by decide
  simp only [shiftByte, toBitVec_shift, hzero]
  rfl

/-- The byte at the top of a register. -/
def topByte (register : UInt32) : UInt8 :=
  (register >>> 24).toUInt8

theorem getMsbD_topByte (register : UInt32) (i : Nat) :
    (topByte register).toBitVec.getMsbD i =
      (decide (i < 8) && register.toBitVec.getMsbD i) := by
  have hshift : (register >>> 24).toBitVec = register.toBitVec >>> 24 := rfl
  have hplace : i + 32 - 8 = i + 24 := by omega
  have hlt : i + 24 < 32 ↔ i < 8 := by omega
  have hge : ¬ i + 24 < 24 := by omega
  rw [topByte, UInt32.toBitVec_toUInt8, hshift, BitVec.getMsbD_setWidth,
    BitVec.getMsbD_ushiftRight, hplace]
  simp [hlt, hge]

/-- A register with the given byte at its top and nothing else in it. -/
def atTop (b : UInt8) : UInt32 :=
  UInt32.ofNat b.toNat <<< 24

theorem getMsbD_atTop (b : UInt8) (i : Nat) :
    (atTop b).toBitVec.getMsbD i = b.toBitVec.getMsbD i := by
  have hshift : (atTop b).toBitVec = b.toBitVec.setWidth 32 <<< 24 := by
    rw [atTop, UInt32.toBitVec_shiftLeft, UInt32.toBitVec_ofNat', ← UInt8.toNat_toBitVec,
      BitVec.ofNat_toNat]
    rfl
  rw [hshift, BitVec.getMsbD_shiftLeft, BitVec.getMsbD_setWidth]
  simp

/-- **One look into the table is eight steps.** -/
theorem toBitVec_step (register : UInt32) (b : UInt8) :
    (step register b).toBitVec = enterAll 0x04c11db7#32 register.toBitVec (bitsOfByte b) := by
  let found := topByte register ^^^ b
  have hstep : (step register b).toBitVec =
      register.toBitVec <<< 8 ^^^ (shiftByte (atTop found)).toBitVec := by
    rw [step, get_table]
    rfl
  -- without the byte that is looked up, the register has at its top the byte that enters
  have hleft : enterAll 0x04c11db7#32 ((atTop found).toBitVec ^^^ register.toBitVec)
      (bitsOfByte b) = register.toBitVec <<< 8 := by
    rw [enterAll_of_top, length_bitsOfByte, BitVec.shiftLeft_xor_distrib]
    · have hout : (atTop found).toBitVec <<< 8 = 0#32 := by
        refine BitVec.eq_of_getMsbD_eq fun i _ => ?_
        rw [BitVec.getMsbD_shiftLeft, getMsbD_atTop, BitVec.getMsbD_of_ge _ _ (by omega),
          BitVec.getMsbD_zero]
      rw [hout, BitVec.zero_xor]
    · intro i hi
      rw [length_bitsOfByte] at hi
      rw [BitVec.getMsbD_xor, getMsbD_atTop, UInt8.toBitVec_xor, BitVec.getMsbD_xor,
        getMsbD_topByte, getD_bitsOfByte, decide_eq_true hi, Bool.true_and, Bool.xor_comm,
        ← Bool.xor_assoc, Bool.xor_self, Bool.false_xor]
  have hregister : register.toBitVec =
      (atTop found).toBitVec ^^^ ((atTop found).toBitVec ^^^ register.toBitVec) := by
    rw [← BitVec.xor_assoc, BitVec.xor_self, BitVec.zero_xor]
  have hbits : bitsOfByte b = List.zipWith xor (bitsOfByte 0) (bitsOfByte b) := by
    rw [← bitsOfByte_xor, UInt8.zero_xor]
  have hlength : (bitsOfByte 0).length = (bitsOfByte b).length := rfl
  calc
    (step register b).toBitVec
    _ = (shiftByte (atTop found)).toBitVec ^^^ register.toBitVec <<< 8 := by
      rw [hstep, BitVec.xor_comm]
    _ = enterAll 0x04c11db7#32 (atTop found).toBitVec (bitsOfByte 0) ^^^
        enterAll 0x04c11db7#32 ((atTop found).toBitVec ^^^ register.toBitVec) (bitsOfByte b) := by
      rw [toBitVec_shiftByte, hleft]
    _ = enterAll 0x04c11db7#32 register.toBitVec (bitsOfByte b) := by
      rw [← enterAll_xor _ _ _ hlength, ← hregister, ← hbits]

theorem toBitVec_foldl_step (register : UInt32) (data : Bytes) :
    (data.foldl step register).toBitVec =
      enterAll 0x04c11db7#32 register.toBitVec (bits data) := by
  induction data generalizing register with
  | nil => rfl
  | cons b data ih =>
    rw [List.foldl_cons, ih, toBitVec_step, bits_cons, enterAll_append]

/-- The checksum is what is in the register after all bits. -/
theorem toBitVec_sum (data : Bytes) :
    (sum data).toBitVec = enterAll 0x04c11db7#32 0xffffffff#32 (bits data) :=
  toBitVec_foldl_step initial data

/-- The generator ends in a one. -/
theorem getLsbD_generator : (0x04c11db7#32).getLsbD 0 = true := by
  decide

/-- Four bytes behind the data verify only if they are the checksum of the data. -/
theorem eq_field_of_sum_eq_zero {data : Bytes} {c₀ c₁ c₂ c₃ : UInt8}
    (h : sum (data ++ [c₀, c₁, c₂, c₃]) = 0) : [c₀, c₁, c₂, c₃] = field (sum data) := by
  have hsame : sum (data ++ [c₀, c₁, c₂, c₃]) = sum (data ++ field (sum data)) :=
    h.trans (sum_append_field data).symm
  rw [← UInt32.toBitVec_inj, toBitVec_sum, toBitVec_sum, bits_append, bits_append,
    enterAll_append, enterAll_append] at hsame
  refine bits_injective (eq_of_enterAll_eq getLsbD_generator ?_ ?_ hsame)
  · rw [length_bits, length_bits]
    rfl
  · rw [length_bits]
    exact Nat.le_refl 32

/-- **The checksum.**  It is what is in a register of 32 bits with the generator `0x04c11db7`, all
of them set at first, after the bits of the data have entered it, those of each byte from the most
significant one on.  And four bytes behind the data make the whole have the checksum zero if they
are the checksum of the data, the most significant byte first, and not otherwise. -/
theorem sum_serial (data : Bytes) :
    (sum data).toBitVec = enterAll 0x04c11db7#32 0xffffffff#32 (bits data) ∧
      ∀ c₀ c₁ c₂ c₃ : UInt8,
        sum (data ++ [c₀, c₁, c₂, c₃]) = 0 ↔ [c₀, c₁, c₂, c₃] = field (sum data) := by
  refine ⟨toBitVec_sum data, fun c₀ c₁ c₂ c₃ => ⟨eq_field_of_sum_eq_zero, fun hfield => ?_⟩⟩
  rw [hfield, sum_append_field]

-- the check value of this register: the digits from 1 to 9
example : sum [0x31, 0x32, 0x33, 0x34, 0x35, 0x36, 0x37, 0x38, 0x39] = 0x0376e6e7 := by
  decide +kernel

end Checksum

end TransportStream
