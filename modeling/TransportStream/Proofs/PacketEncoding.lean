import Mathlib.Algebra.Group.Nat.Defs
import TransportStream.Packet

/-!
# Writing packets

What a multiplexer writes is said field by field: a packet is a value for each field of its header,
an adaptation field if it has one, and a payload that fills the rest.  The decoder gives all of this
back, whatever the fields are that it does not look at.

* `bitField_ofNat`, `wordField_ofNat`: what a field of an encoded number is.
* `Packet.ofBytes?_header`: what is read from the four bytes of a header.
* `OutgoingPacket.bytes`: the encoding.
* `OutgoingPacket.ofBytes?_bytes`: decoding inverts it.
* `OutgoingPacket.payload_packet`: the payload is found behind the adaptation field.
-/

namespace TransportStream

/-! ## Fields of encoded numbers -/

theorem bitField_ofNat (n low width : Nat) :
    bitField (UInt8.ofNat n) low width = n % 256 / 2 ^ low % 2 ^ width := by
  rw [bitField, UInt8.toNat_ofNat', Nat.shiftRight_eq_div_pow, Nat.one_shiftLeft]

theorem bitFlag_ofNat (n low : Nat) :
    bitFlag (UInt8.ofNat n) low = decide (n % 256 / 2 ^ low % 2 = 1) := by
  rw [bitFlag, bitField_ofNat, Nat.pow_one]
  rfl

/-- A number in the lowest bits of two bytes, with other bits above it, is read as it was
written. -/
theorem wordField_ofNat {highBits n : Nat} (hbits : highBits ≤ 8) (h : n < 2 ^ highBits * 256)
    (above : Nat) :
    wordField highBits (UInt8.ofNat (above * 2 ^ highBits + n / 256)) (UInt8.ofNat n) = n := by
  have hdvd : 2 ^ highBits ∣ 256 := Nat.pow_dvd_pow 2 hbits
  have hhigh : n / 256 < 2 ^ highBits := by
    rw [Nat.div_lt_iff_lt_mul (by decide)]
    exact h
  rw [wordField, bitField_ofNat, UInt8.toNat_ofNat', Nat.pow_zero, Nat.div_one,
    Nat.mod_mod_of_dvd _ hdvd, Nat.mul_comm above, Nat.mul_add_mod, Nat.mod_eq_of_lt hhigh]
  exact Nat.div_add_mod' n 256

/-- A byte written from a number that ends like it. -/
theorem ofNat_eq_of_mod {n : Nat} {b : UInt8} (h : n % 256 = b.toNat) : UInt8.ofNat n = b := by
  rw [← UInt8.toNat_inj, UInt8.toNat_ofNat']
  exact h

/-- The byte with the upper part of a number is written as it was read, together with the bits above
that number. -/
theorem ofNat_wordField_high (highBits : Nat) (hi lo : UInt8) :
    UInt8.ofNat (hi.toNat / 2 ^ highBits * 2 ^ highBits + wordField highBits hi lo / 256) = hi := by
  have hupper : wordField highBits hi lo / 256 = hi.toNat % 2 ^ highBits := by
    rw [wordField, bitField, Nat.shiftRight_zero, Nat.one_shiftLeft, Nat.mul_comm,
      Nat.mul_add_div (by decide), Nat.div_eq_of_lt lo.toNat_lt, Nat.add_zero]
  rw [hupper, Nat.div_add_mod', UInt8.ofNat_toNat]

/-- So is the byte with the lower part. -/
theorem ofNat_wordField_low (highBits : Nat) (hi lo : UInt8) :
    UInt8.ofNat (wordField highBits hi lo) = lo := by
  refine ofNat_eq_of_mod ?_
  rw [wordField, Nat.mul_comm, Nat.mul_add_mod, Nat.mod_eq_of_lt lo.toNat_lt]

theorem word16_ofNat {n : Nat} (h : n < 65536) :
    word16 (UInt8.ofNat (n / 256)) (UInt8.ofNat n) = n := by
  have hword := wordField_ofNat (Nat.le_refl 8) h 0
  rwa [Nat.zero_mul, Nat.zero_add] at hword

theorem Pid.ofBytes_ofNat (pid : Pid) (above : Nat) :
    Pid.ofBytes (UInt8.ofNat (above * 32 + pid.value / 256)) (UInt8.ofNat pid.value) = pid := by
  obtain ⟨value, hvalue⟩ := pid
  unfold Pid.ofBytes
  congr 1
  exact wordField_ofNat (show 5 ≤ 8 by decide) hvalue above

/-! ## Packets -/

/-- Four bytes that hold the fields of a header, with a body behind them, are a packet with these
fields. -/
theorem Packet.ofBytes?_header (transportError unitStart priority : Bool) (pid : Pid)
    (scrambling control : Fin 4) (counter : ContinuityCounter) {body : Bytes}
    (hbody : body.length = 184) :
    Packet.ofBytes? (Packet.syncByte ::
        UInt8.ofNat ((transportError.toNat * 4 + unitStart.toNat * 2 + priority.toNat) * 32 +
          pid.value / 256) ::
        UInt8.ofNat pid.value ::
        UInt8.ofNat (scrambling.val * 64 + control.val * 16 + counter.count.val) :: body) =
      some {
        transportError := transportError
        unitStart := unitStart
        pid := pid
        control := .ofField control.val
        counter := counter
        body := body
        length_body := hbody } := by
  have hpid := pid.isLt
  have hcounter := counter.count.isLt
  have hscrambling := scrambling.isLt
  have hcontrol := control.isLt
  rw [Packet.ofBytes?.eq_def]
  dsimp only
  rw [dif_pos ⟨rfl, hbody⟩]
  congr 2
  · rw [bitFlag_ofNat]
    cases transportError <;> cases unitStart <;> cases priority <;> simp <;> omega
  · rw [bitFlag_ofNat]
    cases transportError <;> cases unitStart <;> cases priority <;> simp <;> omega
  · exact Pid.ofBytes_ofNat pid _
  · have hfield : bitField (UInt8.ofNat (scrambling.val * 64 + control.val * 16 +
        counter.count.val)) 4 2 = control.val := by
      rw [bitField_ofNat]
      omega
    rw [hfield]
  · have hcount : bitField (UInt8.ofNat (scrambling.val * 64 + control.val * 16 +
        counter.count.val)) 0 4 = counter.count.val := by
      rw [bitField_ofNat]
      omega
    exact congrArg ContinuityCounter.mk (Fin.ext hcount)

/-- What a multiplexer writes into one packet. -/
structure OutgoingPacket where
  /-- The packet is marked as damaged. -/
  transportError : Bool := false
  /-- A section or a PES packet starts in the payload. -/
  unitStart : Bool
  /-- The packet is more important than others of its PID. -/
  priority : Bool := false
  /-- The stream the packet belongs to. -/
  pid : Pid
  /-- How the payload is scrambled. -/
  scrambling : Fin 4 := 0
  /-- The number of the packet among those of its stream. -/
  counter : ContinuityCounter
  /-- The adaptation field, without the byte that gives its length. -/
  adaptation : Option Bytes := none
  /-- The payload. -/
  payload : Bytes
  /-- Both together fill the packet. -/
  length_eq : (adaptation.elim 0 fun field => field.length + 1) + payload.length = 184
  deriving DecidableEq

namespace OutgoingPacket

variable (p : OutgoingPacket)

/-- What the body holds. -/
def control : AdaptationControl :=
  if p.adaptation.isSome then .adaptationFieldAndPayload else .payloadOnly

/-- Everything after the header. -/
def body : Bytes :=
  (p.adaptation.elim [] fun field => UInt8.ofNat field.length :: field) ++ p.payload

/-- The bytes of the packet. -/
def bytes : Bytes :=
  Packet.syncByte ::
    UInt8.ofNat ((p.transportError.toNat * 4 + p.unitStart.toNat * 2 + p.priority.toNat) * 32 +
      p.pid.value / 256) ::
    UInt8.ofNat p.pid.value ::
    UInt8.ofNat (p.scrambling.val * 64 + (if p.adaptation.isSome then 3 else 1) * 16 +
      p.counter.count.val) ::
    p.body

theorem length_body : p.body.length = 184 := by
  have h := p.length_eq
  unfold body
  cases hfield : p.adaptation with
  | none => simpa [hfield] using h
  | some field =>
    rw [hfield, Option.elim_some] at h
    simp only [Option.elim_some, List.length_append, List.length_cons]
    exact h

theorem length_bytes : p.bytes.length = Packet.size := by
  simp [bytes, length_body, Packet.size]

/-- The packet as the decoder has to give it. -/
def packet : Packet where
  transportError := p.transportError
  unitStart := p.unitStart
  pid := p.pid
  control := p.control
  counter := p.counter
  body := p.body
  length_body := p.length_body

/-- **Decoding inverts encoding.** -/
theorem ofBytes?_bytes : Packet.ofBytes? p.bytes = some p.packet := by
  have hread (control : Fin 4) := Packet.ofBytes?_header p.transportError p.unitStart p.priority
    p.pid p.scrambling control p.counter p.length_body
  unfold bytes packet control
  cases p.adaptation with
  | none => exact hread 1
  | some field => exact hread 3

/-- **The payload is found**, unless there is none. -/
theorem payload_packet :
    p.packet.payload = .ok (if p.payload = [] then none else some p.payload) := by
  have hlength := p.length_eq
  unfold Packet.payload packet
  cases hfield : p.adaptation with
  | none =>
    have hne : p.payload ≠ [] := by
      rintro hnil
      simp [hfield, hnil] at hlength
    simp [control, hfield, body, hne]
  | some field =>
    rw [hfield, Option.elim_some] at hlength
    have hbyte : (UInt8.ofNat field.length).toNat = field.length :=
      UInt8.toNat_ofNat_of_lt' (show field.length < 256 by omega)
    have hbody : p.body = UInt8.ofNat field.length :: (field ++ p.payload) := by
      rw [body, hfield]
      rfl
    simp only [control, hfield, Option.isSome_some, if_true, Packet.adaptationField?,
      AdaptationControl.hasAdaptationField, hbody, hbyte, List.length_append, List.drop_left]
    rw [if_neg (by omega)]
    by_cases hpayload : p.payload = []
    · rw [if_pos (by simp [hpayload]), if_pos hpayload]
    · have := List.length_pos_iff.mpr hpayload
      rw [if_neg (by omega), if_neg hpayload]

/-- A jump of the counter is announced in the first byte of the adaptation field, if it has one. -/
theorem discontinuity_packet :
    p.packet.discontinuity =
      p.adaptation.any fun field => field.head?.any fun flags => bitFlag flags 7 := by
  have hlength := p.length_eq
  unfold Packet.discontinuity Packet.adaptationField? packet
  cases hfield : p.adaptation with
  | none =>
    simp [control, hfield, AdaptationControl.hasAdaptationField]
  | some field =>
    rw [hfield, Option.elim_some] at hlength
    have hbyte : (UInt8.ofNat field.length).toNat = field.length :=
      UInt8.toNat_ofNat_of_lt' (show field.length < 256 by omega)
    have hbody : p.body = UInt8.ofNat field.length :: (field ++ p.payload) := by
      rw [body, hfield]
      rfl
    simp only [control, hfield, Option.isSome_some, if_true,
      AdaptationControl.hasAdaptationField, hbody, hbyte]
    cases field with
    | nil =>
      -- what follows an empty field is payload
      cases p.payload with
      | nil => rfl
      | cons b payload => rfl
    | cons flags field =>
      simp

end OutgoingPacket

end TransportStream
