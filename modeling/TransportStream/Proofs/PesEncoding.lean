import TransportStream.Pes.Header
import TransportStream.Proofs.PacketEncoding

/-!
# Writing PES packets

A PES packet is written from its stream identifier, its timestamps, whatever else stands in its
header, and its payload.  Its length is given or left open; if it is given, it is the right one.

* `Timestamp.ofBytes_fieldBytes`: a timestamp is read as it was written.
* `PesHeader.readOptional_written`: so are the optional fields, whatever the lead-in of the first of
  two timestamps.
* `OutgoingPes.ofBytes_bytes`: so is the header of a packet.
* `OutgoingPes.payloadLength_header`: a length that is given counts the whole payload.
-/

namespace TransportStream

namespace Timestamp

/-- The five bytes of a timestamp, with the given lead-in. -/
def fieldBytes (lead : Nat) (t : Timestamp) : Bytes :=
  [UInt8.ofNat (lead * 16 + t.ticks / 0x40000000 * 2 + 1),
    UInt8.ofNat (t.ticks / 0x400000),
    UInt8.ofNat (t.ticks / 0x8000 * 2 + 1),
    UInt8.ofNat (t.ticks / 0x80),
    UInt8.ofNat (t.ticks * 2 + 1)]

/-- A timestamp is read as it was written. -/
theorem ofBytes_fieldBytes (lead : Nat) (t : Timestamp) (more : Bytes) :
    ofBytes (t.fieldBytes lead ++ more) = .ok t := by
  obtain ⟨ticks, hticks⟩ := t
  have h₇ : bitFlag (UInt8.ofNat (lead * 16 + ticks / 0x40000000 * 2 + 1)) 0 = true := by
    rw [bitFlag_ofNat, decide_eq_true_iff]
    omega
  have h₂₃ : bitFlag (UInt8.ofNat (ticks / 0x8000 * 2 + 1)) 0 = true := by
    rw [bitFlag_ofNat, decide_eq_true_iff]
    omega
  have h₃₉ : bitFlag (UInt8.ofNat (ticks * 2 + 1)) 0 = true := by
    rw [bitFlag_ofNat, decide_eq_true_iff]
    omega
  have hfields : ofFields (UInt8.ofNat (lead * 16 + ticks / 0x40000000 * 2 + 1))
      (UInt8.ofNat (ticks / 0x400000)) (UInt8.ofNat (ticks / 0x8000 * 2 + 1))
      (UInt8.ofNat (ticks / 0x80)) (UInt8.ofNat (ticks * 2 + 1)) = ⟨ticks, hticks⟩ := by
    simp only [ofFields, mk.injEq, bitField_ofNat, UInt8.toNat_ofNat']
    omega
  simp only [ofBytes, fieldBytes, checkMarker, List.cons_append, bind, Except.bind,
    List.getElem?_cons_zero, List.getElem?_cons_succ, Nat.reduceDiv, Nat.reduceMod, Nat.reduceSub,
    h₇, h₂₃, h₃₉, if_true, hfields]

theorem checkLead_fieldBytes {lead : Nat} (h : lead < 16) (t : Timestamp) (more : Bytes) :
    checkLead (t.fieldBytes lead ++ more) lead = .ok () := by
  have hticks := t.isLt
  have hlead : bitField (UInt8.ofNat (lead * 16 + t.ticks / 0x40000000 * 2 + 1)) 4 4 = lead := by
    rw [bitField_ofNat]
    omega
  simp only [fieldBytes, List.cons_append, checkLead, hlead, if_true]

end Timestamp

namespace PesHeader

/-- The two-bit field that announces the given timestamps. -/
def announce (timing : Timing) : Nat :=
  match timing.pts, timing.dts with
  | none, _ => 0
  | some _, none => 2
  | some _, some _ => 3

/-- The bytes of the given timestamps. -/
def timingBytes (timing : Timing) : Bytes :=
  match timing.pts, timing.dts with
  | none, _ => []
  | some pts, none => pts.fieldBytes 0b0010
  | some pts, some dts => pts.fieldBytes 0b0011 ++ dts.fieldBytes 0b0001

/-- The bytes of the given timestamps, with any lead-in for the first one of a pair. -/
def ledBytes (lead : Nat) (timing : Timing) : Bytes :=
  match timing.pts, timing.dts with
  | none, _ => []
  | some pts, none => pts.fieldBytes 0b0010
  | some pts, some dts => pts.fieldBytes lead ++ dts.fieldBytes 0b0001

theorem length_ledBytes (lead : Nat) (timing : Timing) :
    (ledBytes lead timing).length = (timingBytes timing).length := by
  unfold ledBytes timingBytes
  split <;> rfl

/-- Timestamps are read as they were written, and the lead-in of the first one of a pair does not
matter. -/
theorem readTiming_ledBytes {timing : Timing} (h : timing.dts.isSome → timing.pts.isSome)
    (lead : Nat) (more : Bytes) :
    ∃ flags, TimingFlags.ofField? (announce timing) = some flags ∧
      flags.size = (ledBytes lead timing).length ∧
      readTiming flags (ledBytes lead timing ++ more) = .ok timing := by
  obtain ⟨pts, dts⟩ := timing
  cases pts with
  | none =>
    cases dts with
    | none => exact ⟨.nothing, rfl, rfl, rfl⟩
    | some dts => simp at h
  | some pts =>
    cases dts with
    | none =>
      refine ⟨.ptsOnly, rfl, rfl, ?_⟩
      simp only [ledBytes, readTiming, Timestamp.ofPtsBytes, bind, Except.bind,
        Timestamp.checkLead_fieldBytes (show 2 < 16 by decide), Timestamp.ofBytes_fieldBytes]
    | some dts =>
      refine ⟨.ptsAndDts, rfl, rfl, ?_⟩
      have hdrop : (pts.fieldBytes lead ++ (dts.fieldBytes 1 ++ more)).drop 5 =
          dts.fieldBytes 1 ++ more := rfl
      simp only [ledBytes, readTiming, List.append_assoc, Timestamp.ofDtsBytes, bind, Except.bind,
        hdrop, Timestamp.checkLead_fieldBytes (show 1 < 16 by decide), Timestamp.ofBytes_fieldBytes]

/-- The optional fields are read as they were written. -/
theorem readOptional_written {timing : Timing} (h : timing.dts.isSome → timing.pts.isSome)
    (lead : Nat) (options flags : Fin 64) {extra : Bytes}
    (hlength : (ledBytes lead timing).length + extra.length < 256) (more : Bytes) :
    readOptional (UInt8.ofNat (2 * 64 + options.val) ::
      UInt8.ofNat (announce timing * 64 + flags.val) ::
      UInt8.ofNat (ledBytes lead timing ++ extra).length ::
      ((ledBytes lead timing ++ extra) ++ more)) =
      .ok (extendedSize + (ledBytes lead timing ++ extra).length, timing) := by
  have hoptions := options.isLt
  have hflagsLt := flags.isLt
  have hannounce : announce timing < 4 := by
    unfold announce
    split <;> decide
  obtain ⟨announced, hflags, hsize, htiming⟩ := readTiming_ledBytes h lead (extra ++ more)
  have hdata : (UInt8.ofNat (ledBytes lead timing ++ extra).length).toNat =
      (ledBytes lead timing ++ extra).length := by
    refine UInt8.toNat_ofNat_of_lt' (show (ledBytes lead timing ++ extra).length < 256 from ?_)
    rw [List.length_append]
    exact hlength
  have hcheck : bitField (UInt8.ofNat (2 * 64 + options.val)) 6 2 = 2 := by
    rw [bitField_ofNat]
    omega
  have hfield : bitField (UInt8.ofNat (announce timing * 64 + flags.val)) 6 2 =
      announce timing := by
    rw [bitField_ofNat]
    omega
  have hfits : ¬ (ledBytes lead timing ++ extra).length < announced.size := by
    rw [hsize, List.length_append]
    omega
  have hwhole : ¬ ((ledBytes lead timing ++ extra) ++ more).length <
      (ledBytes lead timing ++ extra).length := by
    rw [List.length_append]
    omega
  simp only [readOptional, hcheck, hfield, hflags, hdata, if_neg hfits]
  rw [if_neg (by simp), if_neg hwhole, List.append_assoc, htiming]

end PesHeader

/-- What a multiplexer writes into the optional fields of a PES header. -/
structure OutgoingFields where
  /-- The bits after the two check bits. -/
  options : Fin 64 := 0
  /-- The bits after the two that announce timestamps. -/
  flags : Fin 64 := 0
  /-- The timestamps. -/
  timing : Timing := {}
  /-- What follows the timestamps. -/
  extra : Bytes := []
  /-- No timestamp for decoding comes without one for presentation. -/
  pts_isSome : timing.dts.isSome → timing.pts.isSome
  /-- The length fits into its byte. -/
  length_lt : (PesHeader.timingBytes timing).length + extra.length < 256
  deriving DecidableEq

namespace OutgoingFields

/-- The bytes that are counted by the length of the header data. -/
def data (o : OutgoingFields) : Bytes :=
  PesHeader.timingBytes o.timing ++ o.extra

/-- The bytes of the fields. -/
def bytes (o : OutgoingFields) : Bytes :=
  UInt8.ofNat (2 * 64 + o.options.val) ::
    UInt8.ofNat (PesHeader.announce o.timing * 64 + o.flags.val) ::
    UInt8.ofNat o.data.length :: o.data

/-- The fields are read as they were written. -/
theorem readOptional_bytes (o : OutgoingFields) (more : Bytes) :
    PesHeader.readOptional (o.bytes ++ more) =
      .ok (PesHeader.fixedSize + o.bytes.length, o.timing) := by
  have hlength : PesHeader.extendedSize + o.data.length =
      PesHeader.fixedSize + o.bytes.length := by
    simp only [bytes, List.length_cons, PesHeader.extendedSize, PesHeader.fixedSize]
    omega
  rw [← hlength]
  -- `timingBytes` has the lead-in `0011`
  exact PesHeader.readOptional_written o.pts_isSome 0b0011 o.options o.flags o.length_lt more

end OutgoingFields

/-- What a multiplexer writes into one PES packet. -/
structure OutgoingPes where
  /-- The byte that tells the kind of stream. -/
  streamId : UInt8
  /-- The length of the packet is given. -/
  bounded : Bool
  /-- The optional fields. -/
  fields : Option OutgoingFields
  /-- The payload. -/
  payload : Bytes
  /-- The optional fields are there in those kinds of stream that have some. -/
  fields_isSome : fields.isSome = (StreamId.ofByte streamId).hasOptionalFields
  /-- If the length is given, it fits into its field. -/
  length_lt : bounded = true →
    (fields.elim 0 fun o => o.bytes.length) + payload.length < 65536
  deriving DecidableEq

namespace OutgoingPes

variable (p : OutgoingPes)

/-- The bytes of the optional fields. -/
def fieldBytes : Bytes :=
  p.fields.elim [] OutgoingFields.bytes

/-- The length in the header: the number of bytes after it, or zero. -/
def length : Nat :=
  if p.bounded then p.fieldBytes.length + p.payload.length else 0

/-- The bytes of the header. -/
def headerBytes : Bytes :=
  [0, 0, 1, p.streamId, UInt8.ofNat (p.length / 256), UInt8.ofNat p.length] ++ p.fieldBytes

/-- The bytes of the packet. -/
def bytes : Bytes :=
  p.headerBytes ++ p.payload

/-- The timestamps in the header. -/
def timing : Timing :=
  p.fields.elim {} OutgoingFields.timing

/-- The header as the decoder has to give it. -/
def header : PesHeader where
  streamId := .ofByte p.streamId
  packetLength := if p.length = 0 then none else some p.length
  timing := p.timing
  headerLength := p.headerBytes.length

theorem length_lt_65536 : p.length < 65536 := by
  unfold length fieldBytes
  split
  · next h =>
    have := p.length_lt h
    cases hfields : p.fields with
    | none => simpa [hfields] using this
    | some o => simpa [hfields] using this
  · omega

/-- **Decoding inverts encoding.** -/
theorem ofBytes_bytes : PesHeader.ofBytes p.bytes = .ok p.header := by
  have hlength := word16_ofNat p.length_lt_65536
  simp only [bytes, headerBytes, List.cons_append, List.nil_append, PesHeader.ofBytes, hlength]
  have hstart : ¬ (0 : UInt8).toNat * 65536 + word16 0 1 ≠ 1 := by decide
  rw [if_neg hstart, ← p.fields_isSome]
  cases hfields : p.fields with
  | none =>
    have hbytes : p.fieldBytes = [] := by
      rw [fieldBytes, hfields]
      rfl
    have htiming : p.timing = {} := by
      rw [timing, hfields]
      rfl
    rw [header, headerBytes, hbytes, htiming]
    rfl
  | some o =>
    have hbytes : p.fieldBytes = o.bytes := by
      rw [fieldBytes, hfields]
      rfl
    have htiming : p.timing = o.timing := by
      rw [timing, hfields]
      rfl
    rw [header, headerBytes, hbytes, htiming, o.readOptional_bytes]
    simp only [Option.isSome_some, if_true, PesHeader.fixedSize, List.length_append,
      List.length_cons, List.length_nil]

/-- A length that is given is the right one. -/
theorem payloadLength_header {n : Nat} (h : p.header.payloadLength = some n) :
    n = p.payload.length := by
  have hheader : p.headerBytes.length = PesHeader.fixedSize + p.fieldBytes.length := by
    rw [headerBytes, List.length_append]
    rfl
  obtain ⟨length, hlength, rfl⟩ := Option.map_eq_some_iff.mp h
  by_cases hzero : p.length = 0
  · simp [header, hzero] at hlength
  · have hgiven : length = p.length := by
      simpa [header, hzero] using hlength.symm
    have hbounded : p.bounded = true := by
      refine Decidable.byContradiction fun hopen => hzero ?_
      rw [OutgoingPes.length, if_neg hopen]
    have hheaderLength : p.header.headerLength = PesHeader.fixedSize + p.fieldBytes.length :=
      hheader
    rw [hgiven, hheaderLength, OutgoingPes.length, if_pos hbounded]
    omega

end OutgoingPes

end TransportStream
