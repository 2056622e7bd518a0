import TransportStream.Proofs.PesEncoding
import TransportStream.Proofs.PesReassembly

/-!
# The format of a PES header

The decoder looks at a header step by step, and at each step first asks whether enough of it is
there.  What it accepts in the end can be said without any steps, by what stands at which place:
this is the format.  What a multiplexer writes has it, whatever stands in the bits that nobody
reads, and is read as it was written; and the timestamps that are read from a header in the format
can be written again, with the lead-in that was there, and give the bytes that they were read from.

* `PesHeader.HasFormat`: what stands at which place.
* `PesHeader.exists_ofBytes_iff`: these headers are accepted, and no others.
* `PesHeader.ofBytes_of_take`: what follows a header has no influence on it.
* `OutgoingHeader.ofBytes_bytes`: a header is read as it was written.
* `Timestamp.fieldBytes_ofFields`: a timestamp is written as it was read.
* `PesHeader.decodes_format`: all of it.
-/

namespace TransportStream

/-! ## Kinds of stream -/

namespace StreamId

/-- The bytes of those kinds of stream whose header has no optional fields. -/
def bare : List UInt8 :=
  [0xbc, 0xbe, 0xbf, 0xf0, 0xf1, 0xf2, 0xf8, 0xff]

theorem hasOptionalFields_ofByte (b : UInt8) :
    (ofByte b).hasOptionalFields = true ↔ b ∉ bare := by
  have hall : ∀ n : Fin 256,
      (ofByte (.ofNat n)).hasOptionalFields = true ↔ UInt8.ofNat n ∉ bare := by
    decide +kernel
  have hb := hall ⟨b.toNat, b.toNat_lt⟩
  rwa [UInt8.ofNat_toNat] at hb

end StreamId

/-! ## Timestamps -/

namespace Timestamp

/-- The three marker bits at the front of a byte string are set. -/
def HasMarkers (field : Bytes) : Prop :=
  bitFlag (field.getD 0 0) 0 = true ∧ bitFlag (field.getD 2 0) 0 = true ∧
    bitFlag (field.getD 4 0) 0 = true

variable {field : Bytes}

/-- A timestamp is accepted if its marker bits are set. -/
theorem ofBytes_eq_ok_iff {b₀ b₁ b₂ b₃ b₄ : UInt8} {rest : Bytes} {t : Timestamp} :
    ofBytes (b₀ :: b₁ :: b₂ :: b₃ :: b₄ :: rest) = .ok t ↔
      HasMarkers (b₀ :: b₁ :: b₂ :: b₃ :: b₄ :: rest) ∧ ofFields b₀ b₁ b₂ b₃ b₄ = t := by
  have h₇ : checkMarker (b₀ :: b₁ :: b₂ :: b₃ :: b₄ :: rest) 7 =
      if bitFlag b₀ 0 then .ok () else .error (.markerBitNotSet 7) := rfl
  have h₂₃ : checkMarker (b₀ :: b₁ :: b₂ :: b₃ :: b₄ :: rest) 23 =
      if bitFlag b₂ 0 then .ok () else .error (.markerBitNotSet 23) := rfl
  have h₃₉ : checkMarker (b₀ :: b₁ :: b₂ :: b₃ :: b₄ :: rest) 39 =
      if bitFlag b₄ 0 then .ok () else .error (.markerBitNotSet 39) := rfl
  simp only [ofBytes, HasMarkers, h₇, h₂₃, h₃₉, List.getD_cons_zero, List.getD_cons_succ]
  cases bitFlag b₀ 0 <;> cases bitFlag b₂ 0 <;> cases bitFlag b₄ 0 <;>
    simp [bind, Except.bind]

theorem exists_ofBytes_iff (h : 5 ≤ field.length) :
    (∃ t, ofBytes field = .ok t) ↔ HasMarkers field := by
  match field, h with
  | b₀ :: b₁ :: b₂ :: b₃ :: b₄ :: rest, _ =>
    simp only [ofBytes_eq_ok_iff, exists_and_left, exists_eq', and_true]

/-- A timestamp is accepted from no less than its five bytes. -/
theorem length_of_ofBytes {t : Timestamp} (h : ofBytes field = .ok t) : 5 ≤ field.length := by
  have hlast : checkMarker field 39 = .ok () := by
    unfold ofBytes at h
    cases h₇ : checkMarker field 7 <;> cases h₂₃ : checkMarker field 23 <;>
      cases h₃₉ : checkMarker field 39 <;> simp_all [bind, Except.bind]
  refine Nat.not_lt.mp fun hshort => ?_
  rw [checkMarker, List.getElem?_eq_none (by omega)] at hlast
  cases hlast

/-- A timestamp is written as it was read. -/
theorem fieldBytes_ofFields {b₀ b₁ b₂ b₃ b₄ : UInt8}
    (h : HasMarkers [b₀, b₁, b₂, b₃, b₄]) :
    (ofFields b₀ b₁ b₂ b₃ b₄).fieldBytes (bitField b₀ 4 4) = [b₀, b₁, b₂, b₃, b₄] := by
  have hmarker : ∀ b : UInt8, bitFlag b 0 = true → b.toNat % 2 = 1 := by
    intro b hb
    simpa [bitFlag, bitField] using hb
  obtain ⟨h₇, h₂₃, h₃₉⟩ := h
  have hb₀ := hmarker b₀ h₇
  have hb₂ := hmarker b₂ h₂₃
  have hb₄ := hmarker b₄ h₃₉
  have hlt₀ := b₀.toNat_lt
  have hlt₁ := b₁.toNat_lt
  have hlt₂ := b₂.toNat_lt
  have hlt₃ := b₃.toNat_lt
  have hlt₄ := b₄.toNat_lt
  simp only [fieldBytes, ofFields, bitField, Nat.shiftRight_eq_div_pow, Nat.one_shiftLeft,
    List.cons.injEq, and_true]
  refine ⟨?_, ?_, ?_, ?_, ?_⟩ <;> exact ofNat_eq_of_mod (by omega)

/-- What is read at the front of a byte string can be written there again. -/
theorem fieldBytes_of_ofBytes {t : Timestamp} (h : ofBytes field = .ok t) :
    t.fieldBytes (bitField (field.getD 0 0) 4 4) = field.take 5 := by
  have hlength := length_of_ofBytes h
  match field, hlength, h with
  | b₀ :: b₁ :: b₂ :: b₃ :: b₄ :: rest, _, h =>
    obtain ⟨hmarkers, rfl⟩ := ofBytes_eq_ok_iff.mp h
    exact fieldBytes_ofFields hmarkers

/-- A lead-in is accepted if it is the expected one. -/
theorem checkLead_eq_ok_iff (h : 1 ≤ field.length) (expected : Nat) :
    checkLead field expected = .ok () ↔ bitField (field.getD 0 0) 4 4 = expected := by
  match field, h with
  | b :: rest, _ =>
    simp only [checkLead, List.getD_cons_zero]
    split <;> simp_all

end Timestamp

namespace PesHeader

/-- The number of timestamps that the two-bit field announces. -/
def announced (field : Nat) : Nat :=
  if field = 0b10 then 1 else if field = 0b11 then 2 else 0

/-- The optional fields have their format. -/
structure HasFields (bytes : Bytes) : Prop where
  /-- The header data are there. -/
  size : 9 + (bytes.getD 8 0).toNat ≤ bytes.length
  /-- The check bits are right. -/
  checks : bitField (bytes.getD 6 0) 6 2 = 0b10
  /-- There is no timestamp for decoding alone. -/
  flags : bitField (bytes.getD 7 0) 6 2 ≠ 0b01
  /-- The header data have room for the timestamps. -/
  room : announced (bitField (bytes.getD 7 0) 6 2) * 5 ≤ (bytes.getD 8 0).toNat
  /-- The marker bits are set in each of them. -/
  markers : ∀ i < announced (bitField (bytes.getD 7 0) 6 2),
    Timestamp.HasMarkers (bytes.drop (9 + i * 5))
  /-- A timestamp for presentation that stands alone has its lead-in. -/
  ptsLead : bitField (bytes.getD 7 0) 6 2 = 0b10 → bitField (bytes.getD 9 0) 4 4 = 0b0010
  /-- So does one for decoding. -/
  dtsLead : bitField (bytes.getD 7 0) 6 2 = 0b11 → bitField (bytes.getD 14 0) 4 4 = 0b0001

/-- A byte string starts with a header that has its format. -/
structure HasFormat (bytes : Bytes) : Prop where
  /-- The fixed part is there. -/
  size : 6 ≤ bytes.length
  /-- It starts with the start code. -/
  startCode : bytes.take 3 = [0, 0, 1]
  /-- The optional fields have their format, if the kind of stream has some. -/
  fields : bytes.getD 3 0 ∉ StreamId.bare → HasFields bytes

/-- One step after the other is accepted if both are. -/
theorem bind_eq_ok_iff {ε α β : Type} {x : Except ε α} {f : α → Except ε β} {b : β} :
    x >>= f = .ok b ↔ ∃ a, x = .ok a ∧ f a = .ok b := by
  cases x <;> simp [bind, Except.bind]

theorem exists_bind_eq_ok_iff {ε α β : Type} {x : Except ε α} {f : α → Except ε β} :
    (∃ b, x >>= f = .ok b) ↔ ∃ a, x = .ok a ∧ ∃ b, f a = .ok b := by
  simp only [bind_eq_ok_iff]
  exact ⟨fun ⟨b, a, hx, hf⟩ => ⟨a, hx, b, hf⟩, fun ⟨a, hx, b, hf⟩ => ⟨b, a, hx, hf⟩⟩

/-- A timestamp with a lead-in is accepted if the lead-in is the expected one, and the marker bits
are set. -/
theorem exists_led_iff {field : Bytes} (h : 5 ≤ field.length) (lead : Nat) :
    (∃ t, (do Timestamp.checkLead field lead; Timestamp.ofBytes field) = .ok t) ↔
      bitField (field.getD 0 0) 4 4 = lead ∧ Timestamp.HasMarkers field := by
  rw [exists_bind_eq_ok_iff]
  constructor
  · rintro ⟨_, hlead, ht⟩
    exact ⟨(Timestamp.checkLead_eq_ok_iff (by omega) lead).mp hlead,
      (Timestamp.exists_ofBytes_iff h).mp ht⟩
  · rintro ⟨hlead, ht⟩
    exact ⟨(), (Timestamp.checkLead_eq_ok_iff (by omega) lead).mpr hlead,
      (Timestamp.exists_ofBytes_iff h).mpr ht⟩

/-- A field with a meaning announces as many timestamps as it means. -/
theorem TimingFlags.of_ofField? {field : Nat} {flags : TimingFlags}
    (h : ofField? field = some flags) :
    flags = .nothing ∧ field = 0b00 ∨ flags = .ptsOnly ∧ field = 0b10 ∨
      flags = .ptsAndDts ∧ field = 0b11 := by
  unfold ofField? at h
  split at h <;> simp_all

/-- A field with a meaning has room for as many timestamps as it announces. -/
theorem TimingFlags.size_of_ofField? {field : Nat} {flags : TimingFlags}
    (h : ofField? field = some flags) : announced field * 5 = flags.size ∧ field ≠ 0b01 := by
  obtain ⟨rfl, rfl⟩ | ⟨rfl, rfl⟩ | ⟨rfl, rfl⟩ := of_ofField? h
  · exact ⟨rfl, by decide⟩
  · exact ⟨rfl, by decide⟩
  · exact ⟨rfl, by decide⟩

theorem TimingFlags.exists_ofField? {field : Nat} (h : field < 4) (hsome : field ≠ 0b01) :
    ∃ flags, ofField? field = some flags := by
  match field, h, hsome with
  | 0, _, _ => exact ⟨.nothing, rfl⟩
  | 2, _, _ => exact ⟨.ptsOnly, rfl⟩
  | 3, _, _ => exact ⟨.ptsAndDts, rfl⟩

/-- The timestamps are accepted if they have their format. -/
theorem exists_readTiming_iff {field : Nat} {flags : TimingFlags} {fields : Bytes}
    (hflags : TimingFlags.ofField? field = some flags) (h : flags.size ≤ fields.length) :
    (∃ timing, readTiming flags fields = .ok timing) ↔
      (∀ i < announced field, Timestamp.HasMarkers (fields.drop (i * 5))) ∧
        (field = 0b10 → bitField (fields.getD 0 0) 4 4 = 0b0010) ∧
        (field = 0b11 → bitField (fields.getD 5 0) 4 4 = 0b0001) := by
  have hfifth : fields.getD 5 0 = (fields.drop 5).getD 0 0 := by
    rw [List.getD_eq_getElem?_getD, List.getD_eq_getElem?_getD, List.getElem?_drop]
  rw [hfifth]
  obtain ⟨rfl, rfl⟩ | ⟨rfl, rfl⟩ | ⟨rfl, rfl⟩ := TimingFlags.of_ofField? hflags
  · simp [readTiming, announced]
  · have hfive : 5 ≤ fields.length := h
    rw [readTiming, exists_bind_eq_ok_iff]
    simp only [Timestamp.ofPtsBytes, Except.ok.injEq, exists_eq', and_true, exists_led_iff hfive]
    simp [announced, and_comm]
  · have hfive : 5 ≤ fields.length := Nat.le_trans (by decide) h
    have hrest : 5 ≤ (fields.drop 5).length := by
      rw [List.length_drop]
      exact Nat.le_sub_of_add_le h
    have htwo : (∀ i < 2, Timestamp.HasMarkers (fields.drop (i * 5))) ↔
        Timestamp.HasMarkers fields ∧ Timestamp.HasMarkers (fields.drop 5) := by
      constructor
      · exact fun hall => ⟨hall 0 (by decide), hall 1 (by decide)⟩
      · rintro ⟨hpts, hdts⟩ i hi
        obtain rfl | rfl : i = 0 ∨ i = 1 := by omega
        · exact hpts
        · exact hdts
    have hcount : announced 0b11 = 2 := rfl
    rw [readTiming, exists_bind_eq_ok_iff, hcount, htwo]
    simp only [exists_bind_eq_ok_iff, Timestamp.ofDtsBytes, Except.ok.injEq, exists_eq', and_true,
      exists_and_right, exists_led_iff hrest, Timestamp.exists_ofBytes_iff hfive]
    constructor
    · rintro ⟨hpts, hlead, hdts⟩
      exact ⟨⟨hpts, hdts⟩, fun h => absurd h (by decide), fun _ => hlead⟩
    · rintro ⟨⟨hpts, hdts⟩, -, hlead⟩
      exact ⟨hpts, hlead trivial, hdts⟩

/-- The optional fields are accepted if they have their format. -/
theorem exists_readOptional_iff {b₀ b₁ b₂ b₃ b₄ b₅ : UInt8} {rest : Bytes} :
    (∃ read, readOptional rest = .ok read) ↔
      HasFields (b₀ :: b₁ :: b₂ :: b₃ :: b₄ :: b₅ :: rest) := by
  match rest with
  | [] | [_] | [_, _] =>
    constructor
    · rintro ⟨read, hread⟩
      cases hread
    · intro h
      have hsize := h.size
      simp only [List.length_cons, List.length_nil] at hsize
      omega
  | checks :: flags :: dataLength :: fields =>
    have hdrop : ∀ i, (b₀ :: b₁ :: b₂ :: b₃ :: b₄ :: b₅ :: checks :: flags :: dataLength ::
        fields).drop (9 + i * 5) = fields.drop (i * 5) := by
      intro i
      rw [Nat.add_comm]
      rfl
    constructor
    · rintro ⟨⟨headerLength, timing⟩, hread⟩
      obtain ⟨_, _, _, _, timestamps, heq, hchecks, hflags, hroom, hsize, htiming, -⟩ :=
        of_readOptional hread
      cases heq
      obtain ⟨hmarkers, hpts, hdts⟩ :=
        (exists_readTiming_iff hflags (Nat.le_trans hroom hsize)).mp ⟨timing, htiming⟩
      obtain ⟨hannounced, hsome⟩ := TimingFlags.size_of_ofField? hflags
      refine ⟨?_, hchecks, hsome, ?_, ?_, hpts, hdts⟩
      · simp only [List.getD_cons_succ, List.getD_cons_zero, List.length_cons]
        omega
      · exact hannounced ▸ hroom
      · exact fun i hi => (hdrop i).symm ▸ hmarkers i hi
    · intro h
      have hsize : 9 + dataLength.toNat ≤ fields.length + 9 := h.size
      have hchecks : bitField checks 6 2 = 0b10 := h.checks
      have hroom : announced (bitField flags 6 2) * 5 ≤ dataLength.toNat := h.room
      obtain ⟨timestamps, hflags⟩ := TimingFlags.exists_ofField? (bitField_lt flags 6 2) h.flags
      obtain ⟨hannounced, -⟩ := TimingFlags.size_of_ofField? hflags
      rw [hannounced] at hroom
      obtain ⟨timing, htiming⟩ := (exists_readTiming_iff hflags (by omega)).mpr
        ⟨fun i hi => hdrop i ▸ h.markers i hi, h.ptsLead, h.dtsLead⟩
      refine ⟨(extendedSize + dataLength.toNat, timing), ?_⟩
      simp only [readOptional, hflags, htiming]
      rw [if_neg (not_not_intro hchecks), if_neg (Nat.not_lt.mpr hroom), if_neg (by omega)]

/-- The number in place of the start code is one where its bytes are. -/
theorem startCode_eq_one_iff (b₀ b₁ b₂ : UInt8) :
    b₀.toNat * 65536 + word16 b₁ b₂ = 1 ↔ [b₀, b₁, b₂] = [0, 0, 1] := by
  have hword : word16 b₁ b₂ = b₁.toNat * 256 + b₂.toNat := by
    have hbyte : bitField b₁ 0 8 = b₁.toNat := Nat.mod_eq_of_lt b₁.toNat_lt
    rw [word16, wordField, hbyte]
  have h₂ := b₂.toNat_lt
  simp only [hword, List.cons.injEq, and_true, ← UInt8.toNat_inj, UInt8.toNat_zero, UInt8.toNat_one]
  omega

/-- **The format.**  The headers that have it are accepted, and no others. -/
theorem exists_ofBytes_iff (bytes : Bytes) :
    (∃ header, ofBytes bytes = .ok header) ↔ HasFormat bytes := by
  match bytes with
  | [] | [_] | [_, _] | [_, _, _] | [_, _, _, _] | [_, _, _, _, _] =>
    constructor
    · rintro ⟨header, hheader⟩
      cases hheader
    · intro h
      exact absurd h.size (by simp)
  | b₀ :: b₁ :: b₂ :: b₃ :: b₄ :: b₅ :: rest =>
    have hsize : 6 ≤ (b₀ :: b₁ :: b₂ :: b₃ :: b₄ :: b₅ :: rest).length := by simp
    have hread := @exists_readOptional_iff b₀ b₁ b₂ b₃ b₄ b₅ rest
    have hkind := StreamId.hasOptionalFields_ofByte b₃
    simp only [ofBytes]
    constructor
    · rintro ⟨header, hheader⟩
      split at hheader
      · cases hheader
      · next hcode =>
        refine ⟨hsize, (startCode_eq_one_iff b₀ b₁ b₂).mp (Decidable.not_not.mp hcode), ?_⟩
        intro hfields
        rw [if_pos (hkind.mpr hfields)] at hheader
        refine hread.mp ?_
        cases hoptional : readOptional rest with
        | error e =>
          rw [hoptional] at hheader
          cases hheader
        | ok read => exact ⟨read, rfl⟩
    · intro h
      have hcode := (startCode_eq_one_iff b₀ b₁ b₂).mpr h.startCode
      rw [if_neg (not_not_intro hcode)]
      by_cases hfields : (StreamId.ofByte b₃).hasOptionalFields = true
      · obtain ⟨⟨headerLength, timing⟩, hoptional⟩ := hread.mpr (h.fields (hkind.mp hfields))
        rw [if_pos hfields, hoptional]
        exact ⟨_, rfl⟩
      · rw [if_neg hfields]
        exact ⟨_, rfl⟩

/-- What follows a header has no influence on it. -/
theorem ofBytes_of_take {bytes other : Bytes} {header : PesHeader}
    (h : ofBytes bytes = .ok header)
    (hsame : other.take header.headerLength = bytes.take header.headerLength) :
    ofBytes other = .ok header := by
  have hle := headerLength_le_length h
  -- The header can be read from as many bytes as it has.
  have hfront : ofBytes (bytes.take header.headerLength) = .ok header := by
    have hsplit : ofBytes (bytes.take header.headerLength ++ bytes.drop header.headerLength) =
        .ok header := by
      rw [List.take_append_drop]
      exact h
    have hfinal : ¬ AsksForMore (ofBytes (bytes.take header.headerLength)) := by
      intro hasks
      have hlt := length_lt_headerLength hasks hsplit
      rw [List.length_take_of_le hle] at hlt
      exact Nat.lt_irrefl _ hlt
    exact (ofBytes_append hfinal _).symm.trans hsplit
  have hfinal : ¬ AsksForMore (ofBytes (other.take header.headerLength)) := by
    rw [hsame, hfront]
    exact id
  calc
    ofBytes other =
        ofBytes (other.take header.headerLength ++ other.drop header.headerLength) := by
      rw [List.take_append_drop]
    _ = ofBytes (other.take header.headerLength) := ofBytes_append hfinal _
    _ = .ok header := by rw [hsame, hfront]

end PesHeader

/-! ## Written headers -/

/-- What a multiplexer can write into a header with optional fields. -/
structure OutgoingHeader where
  /-- The byte that tells the kind of stream. -/
  streamId : UInt8
  /-- The length of the packet, or zero. -/
  length : Fin 65536
  /-- The optional fields. -/
  fields : OutgoingFields
  /-- The lead-in of the first timestamp of a pair. -/
  lead : Fin 16
  /-- The kind of stream has optional fields. -/
  hasFields : streamId ∉ StreamId.bare
  deriving DecidableEq

namespace OutgoingHeader

variable (o : OutgoingHeader)

/-- The bytes that are counted by the length of the header data. -/
def data : Bytes :=
  PesHeader.ledBytes o.lead o.fields.timing ++ o.fields.extra

/-- The bytes of the header. -/
def bytes : Bytes :=
  [0, 0, 1, o.streamId, UInt8.ofNat (o.length / 256), UInt8.ofNat o.length,
    UInt8.ofNat (0b10 * 64 + o.fields.options),
    UInt8.ofNat (PesHeader.announce o.fields.timing * 64 + o.fields.flags),
    UInt8.ofNat o.data.length] ++ o.data

/-- The header as the decoder has to give it. -/
def header : PesHeader where
  streamId := .ofByte o.streamId
  packetLength := if o.length.val = 0 then none else some o.length
  timing := o.fields.timing
  headerLength := 9 + o.data.length

/-- **Decoding inverts encoding.**  The bits that are not read have no influence, and neither has
what follows. -/
theorem ofBytes_bytes (more : Bytes) : PesHeader.ofBytes (o.bytes ++ more) = .ok o.header := by
  have hlength := word16_ofNat o.length.isLt
  have hstart : ¬ (0 : UInt8).toNat * 65536 + word16 0 1 ≠ 1 := by decide
  have hdata :
      (PesHeader.ledBytes o.lead o.fields.timing).length + o.fields.extra.length < 256 := by
    rw [PesHeader.length_ledBytes]
    exact o.fields.length_lt
  have hread := PesHeader.readOptional_written o.fields.pts_isSome o.lead o.fields.options
    o.fields.flags hdata more
  simp only [bytes, List.cons_append, List.nil_append, PesHeader.ofBytes, hlength]
  rw [if_neg hstart, if_pos ((StreamId.hasOptionalFields_ofByte o.streamId).mpr o.hasFields), data,
    hread]
  rfl

end OutgoingHeader

/-! ## Timestamps, written again -/

namespace PesHeader

/-- The timestamps stand one behind the other. -/
theorem of_readTiming {flags : TimingFlags} {fields : Bytes} {timing : Timing}
    (h : readTiming flags fields = .ok timing) :
    (∀ pts, timing.pts = some pts → Timestamp.ofBytes fields = .ok pts) ∧
      ∀ dts, timing.dts = some dts → Timestamp.ofBytes (fields.drop 5) = .ok dts := by
  cases flags with
  | nothing =>
    cases h
    exact ⟨fun pts hpts => (by cases hpts), fun dts hdts => (by cases hdts)⟩
  | ptsOnly =>
    obtain ⟨stamp, hstamp, htiming⟩ := bind_eq_ok_iff.mp h
    obtain ⟨-, -, hread⟩ := bind_eq_ok_iff.mp hstamp
    cases htiming
    refine ⟨fun pts hpts => ?_, fun dts hdts => (by cases hdts)⟩
    cases hpts
    exact hread
  | ptsAndDts =>
    obtain ⟨first, hfirst, hsecond⟩ := bind_eq_ok_iff.mp h
    obtain ⟨second, hstamp, htiming⟩ := bind_eq_ok_iff.mp hsecond
    obtain ⟨-, -, hread⟩ := bind_eq_ok_iff.mp hstamp
    cases htiming
    refine ⟨fun pts hpts => ?_, fun dts hdts => ?_⟩
    · cases hpts
      exact hfirst
    · cases hdts
      exact hread

/-- The timestamps of a header stand behind the length of the header data. -/
theorem of_ofBytes {bytes : Bytes} {header : PesHeader} (h : ofBytes bytes = .ok header) :
    (∀ pts, header.timing.pts = some pts → Timestamp.ofBytes (bytes.drop 9) = .ok pts) ∧
      ∀ dts, header.timing.dts = some dts → Timestamp.ofBytes (bytes.drop 14) = .ok dts := by
  have hnone : (∀ pts, ({} : Timing).pts = some pts → Timestamp.ofBytes (bytes.drop 9) = .ok pts) ∧
      ∀ dts, ({} : Timing).dts = some dts → Timestamp.ofBytes (bytes.drop 14) = .ok dts :=
    ⟨fun pts hpts => (by cases hpts), fun dts hdts => (by cases hdts)⟩
  unfold ofBytes at h
  split at h
  · next rest =>
    dsimp only at h
    split at h
    · cases h
    · split at h
      · split at h
        · cases h
        · next hread =>
          cases h
          obtain ⟨checks, flags, dataLength, fields, announced, rfl, -, -, -, -, htiming, -⟩ :=
            of_readOptional hread
          exact of_readTiming htiming
      · cases h
        exact hnone
  · cases h

/-- **Headers.**  Those that have the format are accepted, and no others, and what follows them has
no influence on the result.  A header that was written with any values in the bits that nobody reads
is read as it was written.  A timestamp that was read has 33 bits, and is written as it was read. -/
theorem decodes_format :
    (∀ bytes, (∃ header, ofBytes bytes = .ok header) ↔ HasFormat bytes) ∧
      (∀ bytes other header, ofBytes bytes = .ok header →
        other.take header.headerLength = bytes.take header.headerLength →
          ofBytes other = .ok header) ∧
      (∀ (o : OutgoingHeader) (more : Bytes), ofBytes (o.bytes ++ more) = .ok o.header) ∧
      ∀ bytes header, ofBytes bytes = .ok header →
        (∀ pts, header.timing.pts = some pts → pts.ticks ≤ 2 ^ 33 - 1 ∧
          pts.fieldBytes (bitField (bytes.getD 9 0) 4 4) = (bytes.drop 9).take 5) ∧
        ∀ dts, header.timing.dts = some dts → dts.ticks ≤ 2 ^ 33 - 1 ∧
          dts.fieldBytes (bitField (bytes.getD 14 0) 4 4) = (bytes.drop 14).take 5 := by
  have hstamp : ∀ (bytes : Bytes) (first : Nat) (t : Timestamp),
      Timestamp.ofBytes (bytes.drop first) = .ok t → t.ticks ≤ 2 ^ 33 - 1 ∧
        t.fieldBytes (bitField (bytes.getD first 0) 4 4) = (bytes.drop first).take 5 := by
    intro bytes first t ht
    have hlead : (bytes.drop first).getD 0 0 = bytes.getD first 0 := by
      rw [List.getD_eq_getElem?_getD, List.getD_eq_getElem?_getD, List.getElem?_drop, Nat.add_zero]
    rw [← hlead]
    exact ⟨Nat.le_pred_of_lt t.isLt, Timestamp.fieldBytes_of_ofBytes ht⟩
  refine ⟨exists_ofBytes_iff, fun bytes other header h hsame => ofBytes_of_take h hsame,
    OutgoingHeader.ofBytes_bytes, fun bytes header h => ?_⟩
  obtain ⟨hpts, hdts⟩ := of_ofBytes h
  exact ⟨fun pts heq => hstamp bytes 9 pts (hpts pts heq),
    fun dts heq => hstamp bytes 14 dts (hdts dts heq)⟩

end PesHeader

end TransportStream
