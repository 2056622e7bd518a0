import TransportStream.Proofs.Checked.Packet
import TransportStream.Proofs.PacketEncoding

/-!
# The format of packets

The two bits that say what the body of a packet holds are independent of each other: one announces
an adaptation field, the other one a payload.  Whatever the bits and the length of the field are, a
packet that was written is read as it was written, and the flags of the field are read from the
field and from nowhere else.

Not every packet that arrives was written that way, since the length of the field can be more than
what is there.  That is noticed where a payload is looked for behind the field.  In all other cases
a payload is the end of the packet, from some byte behind the header on.

* `PacketLayout.ofBytes?_bytes`, `PacketLayout.payload_packet`, `PacketLayout.discontinuity_packet`:
  what was written is read.
* `Packet.payload_cases`: all that a payload can be, by the bytes of the packet.
* `Packet.decodes_layouts`: both together.
-/

namespace TransportStream

/-- What a packet can hold by its format.  If it announces no payload, the bytes that follow the
adaptation field only fill it. -/
structure PacketLayout extends OutgoingPacket where
  /-- A payload is announced. -/
  announced : Bool
  deriving DecidableEq

/-! ## What was written -/

/-- The flags of the adaptation field do not depend on whether a payload is announced. -/
theorem Packet.discontinuity_congr {p q : Packet} (hbody : p.body = q.body)
    (hfield : p.control.hasAdaptationField = q.control.hasAdaptationField) :
    p.discontinuity = q.discontinuity := by
  rw [discontinuity, discontinuity, adaptationField?, adaptationField?, hbody, hfield]

namespace PacketLayout

variable (w : PacketLayout)

/-- What the body holds. -/
def control : AdaptationControl :=
  match w.adaptation.isSome, w.announced with
  | false, false => .reserved
  | false, true => .payloadOnly
  | true, false => .adaptationFieldOnly
  | true, true => .adaptationFieldAndPayload

/-- The two bits that say what the body holds. -/
def controlBits : Fin 4 :=
  ⟨w.adaptation.isSome.toNat * 2 + w.announced.toNat, by
    cases w.adaptation.isSome <;> cases w.announced <;> decide⟩

/-- The bytes of the packet. -/
def bytes : Bytes :=
  Packet.syncByte ::
    UInt8.ofNat ((w.transportError.toNat * 4 + w.unitStart.toNat * 2 + w.priority.toNat) * 32 +
      w.pid.value / 256) ::
    UInt8.ofNat w.pid.value ::
    UInt8.ofNat (w.scrambling.val * 64 + w.controlBits.val * 16 + w.counter.count.val) ::
    w.body

/-- The packet as the decoder has to give it. -/
def packet : Packet :=
  { w.toOutgoingPacket.packet with control := w.control }

theorem ofField_controlBits : AdaptationControl.ofField w.controlBits.val = w.control := by
  change AdaptationControl.ofField (w.adaptation.isSome.toNat * 2 + w.announced.toNat) = _
  rw [control]
  cases w.adaptation.isSome <;> cases w.announced <;> rfl

theorem hasAdaptationField_control : w.control.hasAdaptationField = w.adaptation.isSome := by
  rw [control]
  cases w.adaptation.isSome <;> cases w.announced <;> rfl

/-- **Decoding inverts encoding.** -/
theorem ofBytes?_bytes : Packet.ofBytes? w.bytes = some w.packet := by
  have hread := Packet.ofBytes?_header w.transportError w.unitStart w.priority w.pid w.scrambling
    w.controlBits w.counter w.length_body
  rw [w.ofField_controlBits] at hread
  exact hread

/-- A payload is found if one is announced and there is one. -/
theorem payload_packet :
    w.packet.payload =
      .ok (if w.announced = true ∧ w.payload ≠ [] then some w.payload else none) := by
  cases hannounced : w.announced with
  | false =>
    have hcontrol : w.control = .reserved ∨ w.control = .adaptationFieldOnly := by
      rw [control, hannounced]
      cases w.adaptation.isSome
      · exact .inl rfl
      · exact .inr rfl
    rw [if_neg (fun h => Bool.false_ne_true h.1), Packet.payload, packet]
    rcases hcontrol with h | h <;> rw [h]
  | true =>
    have hpacket : w.packet = w.toOutgoingPacket.packet := by
      have hcontrol : w.control = w.toOutgoingPacket.control := by
        rw [control, hannounced, OutgoingPacket.control]
        cases w.adaptation.isSome <;> rfl
      rw [packet, hcontrol]
      rfl
    rw [hpacket, OutgoingPacket.payload_packet]
    by_cases hnil : w.payload = [] <;> simp [hnil]

/-- A jump of the counter is announced by the top bit of the first byte of the adaptation field. -/
theorem discontinuity_packet :
    w.packet.discontinuity = match w.adaptation with
      | some (flags :: _) => bitFlag flags 7
      | _ => false := by
  have hfield : w.toOutgoingPacket.packet.control.hasAdaptationField = w.adaptation.isSome := by
    change w.toOutgoingPacket.control.hasAdaptationField = _
    rw [OutgoingPacket.control]
    cases w.adaptation.isSome <;> rfl
  have hsame : w.packet.discontinuity = w.toOutgoingPacket.packet.discontinuity :=
    Packet.discontinuity_congr rfl (w.hasAdaptationField_control.trans hfield.symm)
  rw [hsame, OutgoingPacket.discontinuity_packet]
  rcases w.adaptation with _ | _ | ⟨flags, field⟩
  · rfl
  · rfl
  · rfl

end PacketLayout

/-! ## What arrives -/

namespace Packet

variable {bytes : Bytes} {p : Packet}

/-- Packets are told by their length and their first byte. -/
theorem exists_ofBytes?_iff :
    (∃ p, ofBytes? bytes = some p) ↔ bytes.length = size ∧ bytes[0]? = some syncByte := by
  constructor
  · rintro ⟨p, h⟩
    exact ⟨(Checked.reads_of_ofBytes? h).length, (Checked.reads_of_ofBytes? h).sync⟩
  · rintro ⟨hlength, hsync⟩
    exact Checked.exists_ofBytes? hlength hsync

theorem control_of_ofBytes? (h : ofBytes? bytes = some p) :
    p.control = .ofField (bitField (bytes.getD 3 0) 4 2) := by
  obtain ⟨b₁, b₂, b₃, rfl, -, -, -, hcontrol, -⟩ := (Checked.reads_of_ofBytes? h).exists_eq
  exact hcontrol

/-- The length of the adaptation field, as a packet gives it. -/
def fieldLength (bytes : Bytes) : Nat :=
  (bytes.getD 4 0).toNat

/-- Where the payload is, given what the packet announces.  An adaptation field of 183 bytes leaves
nothing, and a longer one does not fit. -/
inductive Locates (bytes : Bytes) : AdaptationControl → Except PacketError (Option Bytes) → Prop
  | unannounced {control : AdaptationControl} (h : control.hasPayload = false) :
    Locates bytes control (.ok none)
  | alone : Locates bytes .payloadOnly (.ok (some (bytes.drop 4)))
  | behind (h : fieldLength bytes < 183) :
    Locates bytes .adaptationFieldAndPayload (.ok (some (bytes.drop (5 + fieldLength bytes))))
  | filled (h : fieldLength bytes = 183) : Locates bytes .adaptationFieldAndPayload (.ok none)
  | exceeded (h : 183 < fieldLength bytes) :
    Locates bytes .adaptationFieldAndPayload
      (.error (.adaptationFieldTooLong (fieldLength bytes) 183))

/-- All that a payload can be. -/
theorem payload_cases (h : ofBytes? bytes = some p) : Locates bytes p.control p.payload := by
  obtain ⟨length, rest, hbody, hrest, -, -⟩ := (Checked.reads_of_ofBytes? h).fieldLength
  obtain ⟨b₁, b₂, b₃, hbytes, -⟩ := (Checked.reads_of_ofBytes? h).exists_eq
  have hfield : fieldLength bytes = length.toNat := by
    rw [hbytes, hbody]
    rfl
  have hdrop : bytes.drop (5 + fieldLength bytes) = rest.drop length.toNat := by
    rw [← List.drop_drop, hfield, hbytes, hbody]
    rfl
  unfold payload adaptationField?
  cases hcontrol : p.control with
  | reserved => exact .unannounced rfl
  | adaptationFieldOnly => exact .unannounced rfl
  | payloadOnly =>
    have hfour : bytes.drop 4 = p.body := by
      rw [hbytes]
      rfl
    exact hfour ▸ .alone
  | adaptationFieldAndPayload =>
    rw [hbody]
    simp only [AdaptationControl.hasAdaptationField, if_true, hrest]
    by_cases hlong : 183 < length.toNat
    · rw [if_pos hlong, ← hfield]
      exact .exceeded (hfield ▸ hlong)
    · rw [if_neg hlong]
      by_cases hfull : length.toNat = 183
      · rw [if_pos hfull]
        exact .filled (hfield ▸ hfull)
      · rw [if_neg hfull, ← hdrop]
        exact .behind (by omega)

/-- An error says how long the adaptation field should be, and how long it could be. -/
theorem payload_eq_error_iff (h : ofBytes? bytes = some p) (e : PacketError) :
    p.payload = .error e ↔
      p.control = .adaptationFieldAndPayload ∧ 183 < fieldLength bytes ∧
        e = .adaptationFieldTooLong (fieldLength bytes) 183 := by
  have hcases := payload_cases h
  generalize p.control = control, p.payload = result at hcases
  cases hcases with
  | unannounced hnone =>
    constructor
    · intro herror
      cases herror
    · rintro ⟨rfl, -⟩
      cases hnone
  | alone => simp
  | behind hshort => simp [Nat.lt_asymm hshort]
  | filled hfull => simp [hfull]
  | exceeded hlong => simp [hlong, eq_comm]

/-- A payload is the end of the packet, from some byte behind the header on. -/
theorem exists_drop_of_payload (h : ofBytes? bytes = some p) {payload : Bytes}
    (hpayload : p.payload = .ok (some payload)) :
    ∃ n, 4 ≤ n ∧ n < bytes.length ∧ payload = bytes.drop n := by
  have hlength : bytes.length = 188 := (Checked.reads_of_ofBytes? h).length
  have hcases := payload_cases h
  generalize p.control = control at hcases
  rw [hpayload] at hcases
  cases hcases with
  | alone => exact ⟨4, Nat.le_refl 4, by omega, rfl⟩
  | behind hshort => exact ⟨5 + fieldLength bytes, by omega, by omega, rfl⟩

/-- **Packets.**  A packet that was written is accepted and read as it was written, with its payload
if one is announced and there is one.  Bytes are accepted by their number and the first of them.  In
an accepted packet the payload cannot be located just if it is announced behind an adaptation field
of more than 183 bytes; and a payload that is located is the end of the packet, from some byte
behind the header on, and not empty. -/
theorem decodes_layouts :
    (∀ w : PacketLayout, ∃ p, ofBytes? w.bytes = some p ∧
        p.transportError = w.transportError ∧ p.unitStart = w.unitStart ∧ p.pid = w.pid ∧
        p.control = w.control ∧ p.counter = w.counter ∧
        p.payload = .ok (if w.announced = true ∧ w.payload ≠ [] then some w.payload else none) ∧
        p.discontinuity = match w.adaptation with
          | some (flags :: _) => bitFlag flags 7
          | _ => false) ∧
      (∀ bytes, (∃ p, ofBytes? bytes = some p) ↔
        bytes.length = size ∧ bytes[0]? = some syncByte) ∧
      ∀ bytes p, ofBytes? bytes = some p →
        p.control = .ofField (bitField (bytes.getD 3 0) 4 2) ∧
          (∀ e, p.payload = .error e ↔
            p.control = .adaptationFieldAndPayload ∧ 183 < fieldLength bytes ∧
              e = .adaptationFieldTooLong (fieldLength bytes) 183) ∧
          ∀ payload, p.payload = .ok (some payload) →
            payload ≠ [] ∧ ∃ n, 4 ≤ n ∧ payload = bytes.drop n := by
  refine ⟨fun w => ⟨w.packet, w.ofBytes?_bytes, rfl, rfl, rfl, rfl, rfl, w.payload_packet,
    w.discontinuity_packet⟩, fun bytes => exists_ofBytes?_iff, fun bytes p h =>
    ⟨control_of_ofBytes? h, payload_eq_error_iff h, fun payload hpayload => ?_⟩⟩
  obtain ⟨n, hfrom, hlt, rfl⟩ := exists_drop_of_payload h hpayload
  exact ⟨List.ne_nil_of_length_pos (by rw [List.length_drop]; omega), n, hfrom, rfl⟩

/-- An adaptation field of 200 bytes does not fit. -/
theorem decodes_layouts_field_too_long :
    ∃ p, ofBytes? ([0x47, 0, 0, 0x30, 200] ++ List.replicate 183 0) = some p ∧
      p.payload = .error (.adaptationFieldTooLong 200 183) := by
  obtain ⟨-, haccepted, hpayload⟩ := decodes_layouts
  obtain ⟨p, hp⟩ := (haccepted ([0x47, 0, 0, 0x30, 200] ++ List.replicate 183 0)).mpr
    ⟨by rw [List.length_append, List.length_replicate]; rfl, rfl⟩
  obtain ⟨hcontrol, herror, -⟩ := hpayload _ p hp
  exact ⟨p, hp, (herror _).mpr ⟨hcontrol.trans (by decide), by decide, rfl⟩⟩

end Packet

end TransportStream
