import TransportStream.Proofs.ChecksumRegister
import TransportStream.Proofs.SectionFormat

/-!
# Bursts of errors

Noise damages bits that are close together.  If all damaged bits of a byte string lie within as many
bits as a register has places, the register tells: up to the window both byte strings leave the same
in it, in the window they part, and behind it they do not meet again.  So a section that arrives
with such damage is refused, unless the damage has changed its length.

* `Register.eq_of_enterAll_eq_of_window`: what differs only within a window can be told.
* `Checksum.sum_ne_of_isBurst`: a burst changes the checksum.
* `TableSection.ofBytes_of_isBurst`: and a section with a burst in it is refused.
-/

namespace TransportStream

/-- Two byte strings of the same length that differ, but have the same bits outside of some window
of the given width. -/
structure IsBurst (width : Nat) (sent received : Bytes) : Prop where
  /-- No bit is lost, and none is added. -/
  length_eq : sent.length = received.length
  /-- Some bit is wrong. -/
  ne : sent ≠ received
  /-- All wrong bits lie in the window. -/
  window : ∃ first, ∀ i, (bits sent)[i]? ≠ (bits received)[i]? → first ≤ i ∧ i < first + width

namespace Register

variable {n : Nat} {generator a : BitVec n} {ps qs : List Bool}

/-- Lists of bits that differ at most within as many bits as a register has places can be told from
what they make of it. -/
theorem eq_of_enterAll_eq_of_window (hodd : generator.getLsbD 0 = true)
    (hlength : ps.length = qs.length) {first : Nat}
    (hwindow : ∀ i, ps[i]? ≠ qs[i]? → first ≤ i ∧ i < first + n)
    (h : enterAll generator a ps = enterAll generator a qs) : ps = qs := by
  have hsplit : ∀ l : List Bool, l = l.take first ++ ((l.drop first).take n ++
      l.drop (first + n)) := by
    intro l
    rw [← List.drop_drop, List.take_append_drop, List.take_append_drop]
  have hfront : ps.take first = qs.take first := by
    refine List.ext_getElem? fun i => ?_
    rw [List.getElem?_take, List.getElem?_take]
    by_cases hi : i < first
    · rw [if_pos hi, if_pos hi]
      exact Decidable.byContradiction fun hne => Nat.not_le.mpr hi (hwindow i hne).1
    · rw [if_neg hi, if_neg hi]
  have hback : ps.drop (first + n) = qs.drop (first + n) := by
    refine List.ext_getElem? fun i => ?_
    rw [List.getElem?_drop, List.getElem?_drop]
    exact Decidable.byContradiction fun hne =>
      Nat.not_lt.mpr (Nat.le_add_right _ i) (hwindow _ hne).2
  have hmiddle : (ps.drop first).take n = (qs.drop first).take n := by
    rw [hsplit ps, hsplit qs, enterAll_append, enterAll_append, enterAll_append, enterAll_append,
      hfront, hback] at h
    refine eq_of_enterAll_eq hodd ?_ ?_ (enterAll_injective hodd h)
    · rw [List.length_take, List.length_take, List.length_drop, List.length_drop, hlength]
    · exact List.length_take_le n _
  rw [hsplit ps, hsplit qs, hfront, hmiddle, hback]

end Register

/-- A burst that fits into the register changes the checksum. -/
theorem Checksum.sum_ne_of_isBurst {sent received : Bytes} (h : IsBurst 32 sent received) :
    sum sent ≠ sum received := by
  intro hsum
  obtain ⟨first, hwindow⟩ := h.window
  rw [← UInt32.toBitVec_inj, toBitVec_sum, toBitVec_sum] at hsum
  have hlength : (bits sent).length = (bits received).length := by
    rw [length_bits, length_bits, h.length_eq]
  exact h.ne (bits_injective
    (Register.eq_of_enterAll_eq_of_window getLsbD_generator hlength hwindow hsum))

/-! ## Bits and fields -/

theorem getElem?_bits {bytes : Bytes} {k i : Nat} (hk : k < bytes.length) (hi : i < 8) :
    (bits bytes)[k * 8 + i]? = some (bitFlag (bytes.getD k 0) (7 - i)) := by
  induction bytes generalizing k with
  | nil => cases hk
  | cons b bytes ih =>
    have hlength := length_bitsOfByte b
    rw [bits_cons]
    cases k with
    | zero =>
      rw [List.getElem?_append_left (by omega), Nat.zero_mul, Nat.zero_add,
        getElem?_bitsOfByte b hi, BitVec.getMsbD_eq_getLsbD, decide_eq_true hi,
        List.getD_cons_zero, bitFlag_eq_getLsbD]
      rfl
    | succ k =>
      rw [List.getElem?_append_right (by omega), hlength, List.getD_cons_succ,
        show (k + 1) * 8 + i - 8 = k * 8 + i by omega]
      exact ih (Nat.lt_of_succ_lt_succ hk)

/-- A field is made up of its bits. -/
theorem bitField_eq_of_bitFlag {a b : UInt8} {width : Nat}
    (h : ∀ i < width, bitFlag a i = bitFlag b i) : bitField a 0 width = bitField b 0 width := by
  simp only [bitField, Nat.shiftRight_zero, Nat.one_shiftLeft]
  refine Nat.eq_of_testBit_eq fun i => ?_
  rw [Nat.testBit_mod_two_pow, Nat.testBit_mod_two_pow]
  by_cases hi : i < width
  · have hbit := h i hi
    rw [bitFlag_eq_getLsbD, bitFlag_eq_getLsbD] at hbit
    rw [decide_eq_true hi, Bool.true_and, Bool.true_and]
    exact hbit
  · rw [decide_eq_false hi, Bool.false_and, Bool.false_and]

namespace TableSection

/-- The length of a section is made up of the twelve bits from the thirteenth on. -/
theorem sectionLength_eq_of_bits {x y : Bytes} (hx : 3 ≤ x.length) (hy : 3 ≤ y.length)
    (h : ∀ i, 12 ≤ i → i < 24 → (bits x)[i]? = (bits y)[i]?) :
    sectionLength x = sectionLength y := by
  have hflag : ∀ k i, k < 3 → i < 8 → 12 ≤ k * 8 + (7 - i) →
      bitFlag (x.getD k 0) i = bitFlag (y.getD k 0) i := by
    intro k i hk hi hfirst
    have hbit := h (k * 8 + (7 - i)) hfirst (by omega)
    rw [getElem?_bits (by omega) (by omega), getElem?_bits (by omega) (by omega),
      Nat.sub_sub_self (by omega)] at hbit
    exact Option.some.inj hbit
  have hhigh : bitField (x.getD 1 0) 0 4 = bitField (y.getD 1 0) 0 4 :=
    bitField_eq_of_bitFlag fun i hi => hflag 1 i (by decide) (by omega) (by omega)
  have hlow : bitField (x.getD 2 0) 0 8 = bitField (y.getD 2 0) 0 8 :=
    bitField_eq_of_bitFlag fun i hi => hflag 2 i (by decide) hi (by omega)
  have hbyte : ∀ b : UInt8, bitField b 0 8 = b.toNat := fun b => Nat.mod_eq_of_lt b.toNat_lt
  rw [hbyte, hbyte] at hlow
  rw [sectionLength, sectionLength, wordField, wordField, hhigh, hlow]

/-- **Bursts.**  If what is received differs from what was sent, but only within 32 bits, the
checksums differ.  If what was sent is one whole section that is accepted, and the bits of its
length have arrived, then what is received is refused: for its form, if the bit that tells the form
is among the wrong ones, and otherwise for its checksum. -/
theorem ofBytes_of_isBurst {sent received : Bytes} (h : IsBurst 32 sent received) :
    Checksum.sum sent ≠ Checksum.sum received ∧
      ∀ s, ofBytes sent true = .ok s → sent.length = 3 + s.header.length →
        (∀ i, 12 ≤ i → i < 24 → (bits received)[i]? = (bits sent)[i]?) →
          ofBytes received true = .error
            (if (bits received)[8]? = (bits sent)[8]? then .crcMismatch (received.getD 0 0)
            else .shortForm (received.getD 0 0)) := by
  have hsum := Checksum.sum_ne_of_isBurst h
  refine ⟨hsum, fun s hread hwhole hbits => ?_⟩
  obtain ⟨hformat, rfl⟩ := ofBytes_eq_ok_iff.mp hread
  have hsent : sent.length = 3 + sectionLength sent := hwhole
  have hheader := hformat.header
  have hroom := hformat.room
  have hreceived : received.length = 3 + sectionLength sent := h.length_eq.symm.trans hsent
  have hlength : sectionLength received = sectionLength sent :=
    sectionLength_eq_of_bits (by omega) hheader hbits
  have hsame : (bits received)[8]? = (bits sent)[8]? ↔ bitFlag (received.getD 1 0) 7 = true := by
    have hbit : ∀ x : Bytes, 3 ≤ x.length → (bits x)[8]? = some (bitFlag (x.getD 1 0) 7) :=
      fun x hx => getElem?_bits (show 1 < x.length by omega) (show 0 < 8 by decide)
    rw [hbit received (by omega), hbit sent hheader, hformat.longForm, Option.some.injEq]
  have hcrc : Checksum.sum (received.take (3 + sectionLength sent)) ≠ 0 := by
    have hzero := hformat.crc rfl
    rw [← hsent, List.take_length] at hzero
    rw [← hreceived, List.take_length]
    exact fun hreceivedZero => hsum (hzero.trans hreceivedZero.symm)
  rw [ofBytes_eq, if_neg (by omega), hlength]
  by_cases hform : bitFlag (received.getD 1 0) 7 = true
  · rw [if_pos (hsame.mpr hform), if_neg (by rw [hform]; exact Bool.noConfusion),
      if_neg (by omega), if_pos ⟨rfl, hcrc⟩]
  · rw [if_neg (mt hsame.mp hform), if_pos (Bool.eq_false_iff.mpr hform)]

/-- A window that begins and ends within bytes, with the bits at both of its ends wrong. -/
theorem ofBytes_of_isBurst_across_bytes :
    let sent : Bytes := [0x00, 0xb0, 0x0d, 0x00, 0x01, 0xc1, 0x00, 0x00,
      0x00, 0x01, 0xe0, 0x20, 0xa2, 0xc3, 0x29, 0x41]
    let received : Bytes := [0x00, 0xb0, 0x0d, 0x00, 0x01, 0xc1, 0x00, 0x08,
      0x5a, 0x01, 0xe1, 0x30, 0xa2, 0xc3, 0x29, 0x41]
    IsBurst 32 sent received ∧ ofBytes sent true = .ok (fields sent) ∧
      sent.length = 3 + (fields sent).header.length ∧
      (∀ i < 24, (bits received)[i]? = (bits sent)[i]?) ∧
      Checksum.sum sent ≠ Checksum.sum received ∧
      ofBytes received true = .error (.crcMismatch 0x00) := by
  intro sent received
  have hburst : IsBurst 32 sent received := by
    refine ⟨rfl, by decide, 60, fun i hi => ?_⟩
    have hlt : i < 128 := by
      refine Nat.not_le.mp fun hle => hi ?_
      rw [List.getElem?_eq_none hle, List.getElem?_eq_none hle]
    have hall : ∀ i < 128, (bits sent)[i]? ≠ (bits received)[i]? → 60 ≤ i ∧ i < 60 + 32 := by
      decide +kernel
    exact hall i hlt hi
  have hformat : HasFormat sent true :=
    ⟨by decide, by decide, by decide, by decide, fun _ => by decide +kernel⟩
  have hread : ofBytes sent true = .ok (fields sent) := ofBytes_eq_ok_iff.mpr ⟨hformat, rfl⟩
  have hlength : sent.length = 3 + (fields sent).header.length := by decide
  have hbits : ∀ i < 24, (bits received)[i]? = (bits sent)[i]? := by decide +kernel
  obtain ⟨hsum, hrefused⟩ := ofBytes_of_isBurst hburst
  exact ⟨hburst, hread, hlength, hbits, hsum,
    hrefused (fields sent) hread hlength fun i _ hi => hbits i hi⟩

end TableSection

end TransportStream
