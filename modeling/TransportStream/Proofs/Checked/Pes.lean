import TransportStream.Proofs.Checked.Access
import TransportStream.Proofs.PesReassembly

/-!
# PES packets, by index

The header of a PES packet is read from what has been collected of it.  Each step first asks for as
many bytes as it looks at, and the announced timestamps are compared with the length of the optional
fields, so that they lie within the header; the header lies within the bytes
(`headerLength_le_length`), and is dropped from their front.  What a bounded packet may still have
is counted down by what it is given, which is never more.

* `timestamp_eq`, `header_eq`: a header and the timestamps in it.
* `unitStart_eq`, `continuation_eq`: a piece of a PES packet.
-/

namespace TransportStream

namespace Checked

namespace Pes

/-- Goes on with what was read, unless there was an error. -/
def andThen {ε α β : Type} (a : Option (Except ε α)) (next : α → Option (Except ε β)) :
    Option (Except ε β) := do
  match ← a with
  | .error e => return .error e
  | .ok a => next a

/-- Checks the lead-in of a timestamp. -/
def checkLead (field : Bytes) (expected : Nat) : Option (Except TimestampError Unit) := do
  let b ← field[0]?
  if bitField b 4 4 = expected then return .ok ()
  else return .error (.incorrectPrefixBits expected (bitField b 4 4))

/-- Checks one marker bit of a timestamp. -/
def checkMarker (field : Bytes) (bit : Nat) : Option (Except TimestampError Unit) := do
  let b ← field[bit / 8]?
  let low ← sub? 7 (bit % 8)
  if bitFlag b low then return .ok () else return .error (.markerBitNotSet bit)

/-- Reads a timestamp with any lead-in. -/
def timestamp (field : Bytes) : Option (Except TimestampError Timestamp) :=
  andThen (checkMarker field 7) fun _ =>
    andThen (checkMarker field 23) fun _ =>
      andThen (checkMarker field 39) fun _ => do
        let b₀ ← field[0]?
        let b₁ ← field[1]?
        let b₂ ← field[2]?
        let b₃ ← field[3]?
        let b₄ ← field[4]?
        return .ok (.ofFields b₀ b₁ b₂ b₃ b₄)

/-- Reads a timestamp with the given lead-in. -/
def ledTimestamp (lead : Nat) (field : Bytes) : Option (Except TimestampError Timestamp) :=
  andThen (checkLead field lead) fun _ => timestamp field

/-- Reads the announced timestamps from the optional fields. -/
def timing (flags : PesHeader.TimingFlags) (fields : Bytes) :
    Option (Except TimestampError Timing) :=
  match flags with
  | .nothing => some (.ok {})
  | .ptsOnly => andThen (ledTimestamp 0b0010 fields) fun pts => some (.ok { pts := some pts })
  | .ptsAndDts =>
    andThen (timestamp fields) fun pts => do
      let rest ← from? fields 5
      andThen (ledTimestamp 0b0001 rest) fun dts =>
        some (.ok { pts := some pts, dts := some dts })

/-- Reads the length of the whole header and the timestamps, from the bytes after the packet
length.  `length` is that of the bytes from the start of the header. -/
def optional (parsed : Bytes) (length : Nat) : Option (Except PesError (Nat × Timing)) := do
  let checks ← parsed[0]?
  if bitField checks 6 2 ≠ 0b10 then return .error (.checkBits (bitField checks 6 2))
  else
    let dataLength ← parsed[2]?
    let headerLength := PesHeader.extendedSize + dataLength.toNat
    let flags ← parsed[1]?
    match PesHeader.TimingFlags.ofField? (bitField flags 6 2) with
    | none => return .error .ptsDtsFlagsInvalid
    | some announced =>
      if dataLength.toNat < announced.size then
        return .error (.headerDataTooShort dataLength.toNat announced.size)
      else if length < headerLength then return .error (.needMoreData headerLength length)
      else
        match ← timing announced (← from? parsed 3) with
        | .error e => return .error (.timestamp e)
        | .ok timing => return .ok (headerLength, timing)

/-- Reads what follows the start code of a header. -/
def fields (bytes : Bytes) : Option (Except PesError PesHeader) := do
  let b₃ ← bytes[3]?
  let b₄ ← bytes[4]?
  let b₅ ← bytes[5]?
  let streamId := StreamId.ofByte b₃
  let packetLength := if word16 b₄ b₅ = 0 then none else some (word16 b₄ b₅)
  if !streamId.hasOptionalFields then
    return .ok { streamId, packetLength, timing := {}, headerLength := PesHeader.fixedSize }
  else if bytes.length < PesHeader.extendedSize then
    return .error (.needMoreData PesHeader.extendedSize bytes.length)
  else
    match ← optional (← from? bytes PesHeader.fixedSize) bytes.length with
    | .error e => return .error e
    | .ok (headerLength, timing) => return .ok { streamId, packetLength, timing, headerLength }

/-- The first three bytes of a header, as a number. -/
def startCode (bytes : Bytes) : Option Nat := do
  let b₀ ← bytes[0]?
  let b₁ ← bytes[1]?
  let b₂ ← bytes[2]?
  return b₀.toNat * 65536 + word16 b₁ b₂

/-- Reads the header at the front of a byte string. -/
def header (bytes : Bytes) : Option (Except PesError PesHeader) :=
  if bytes.length < PesHeader.fixedSize then
    some (.error (.needMoreData PesHeader.fixedSize bytes.length))
  else do
    let found ← startCode bytes
    if found ≠ 1 then return .error (.invalidStartCode found) else fields bytes

/-! ## Pieces of PES packets -/

/-- Makes payload available, as far as the packet may have it. -/
def supply (timing : Timing) (payload : Bytes) (remaining : Option Nat) (first : Bool) :
    Option PesStep :=
  match remaining with
  | none => some {
      accumulator := { stage := .body payload none, timing }
      result := .ok (.ready first) }
  | some limit => do
    let notices ←
      if limit < payload.length then (sub? payload.length limit).map ([.bytesBeyondPes ·])
      else some []
    let payload := payload.take limit
    let left ← sub? limit payload.length
    return {
      accumulator := { stage := .body payload (some left), timing }
      notices
      result := .ok (.ready first) }

/-- Reads the header from all that is there of the PES packet, drops it, and makes the rest
available. -/
def startBody (a : PesAccumulator) (bytes : Bytes) : Option PesStep := do
  match ← header bytes with
  | .ok header =>
    let payload ← from? bytes header.headerLength
    supply (PesAccumulator.inherit a.timing header.timing) payload header.payloadLength true
  | .error (.needMoreData requested _) => return {
      accumulator := { a with stage := .headerPending bytes requested }
      result := .ok .pending }
  | .error e => return { accumulator := { a with stage := .discarding }, result := .error e }

/-- Takes data that starts a PES packet. -/
def unitStart (a : PesAccumulator) (data : Bytes) : Option PesStep :=
  match a.stage with
  | .headerPending held requested => some {
      accumulator := { a with stage := .idle }
      result := .error (.needMoreData requested held.length) }
  | _ => do
    let step ← startBody a data
    return { step with notices := a.endingNotices ++ step.notices }

/-- Takes data that carries on the current PES packet. -/
def continuation (a : PesAccumulator) (data : Bytes) : Option PesStep :=
  match a.stage with
  | .idle | .discarding => some { accumulator := a, result := .ok .ignored }
  | .headerPending held _ => startBody a (held ++ data)
  | .body _ remaining => supply a.timing data remaining false

/-! ## Nothing fails -/

variable {field : Bytes}

theorem checkLead_eq (h : 5 ≤ field.length) (expected : Nat) :
    checkLead field expected = some (Timestamp.checkLead field expected) := by
  match field, h with
  | b :: _, _ =>
    simp only [checkLead, Timestamp.checkLead]
    by_cases hlead : bitField b 4 4 = expected <;> simp [hlead]

theorem checkMarker_eq {bit : Nat} (h : bit / 8 < field.length) :
    checkMarker field bit = some (Timestamp.checkMarker field bit) := by
  have hlow : bit % 8 ≤ 7 := Nat.lt_succ_iff.mp (Nat.mod_lt bit (by decide))
  rw [checkMarker, Timestamp.checkMarker, List.getElem?_eq_getElem h, sub?_of_le hlow]
  simp only [Option.bind_eq_bind, Option.bind_some]
  split <;> rfl

/-- Five bytes are enough for a timestamp. -/
theorem timestamp_eq (h : 5 ≤ field.length) : timestamp field = some (Timestamp.ofBytes field) := by
  unfold timestamp Timestamp.ofBytes
  rw [checkMarker_eq (show 7 / 8 < field.length by omega),
    checkMarker_eq (show 23 / 8 < field.length by omega),
    checkMarker_eq (show 39 / 8 < field.length by omega)]
  match field, h with
  | b₀ :: b₁ :: b₂ :: b₃ :: b₄ :: rest, _ =>
    cases Timestamp.checkMarker (b₀ :: b₁ :: b₂ :: b₃ :: b₄ :: rest) 7 <;>
      cases Timestamp.checkMarker (b₀ :: b₁ :: b₂ :: b₃ :: b₄ :: rest) 23 <;>
        cases Timestamp.checkMarker (b₀ :: b₁ :: b₂ :: b₃ :: b₄ :: rest) 39 <;> rfl

theorem timing_eq {flags : PesHeader.TimingFlags} (h : flags.size ≤ field.length) :
    timing flags field = some (PesHeader.readTiming flags field) := by
  cases flags with
  | nothing => rfl
  | ptsOnly =>
    have hfive : 5 ≤ field.length := h
    rw [timing, ledTimestamp, checkLead_eq hfive, timestamp_eq hfive]
    simp only [PesHeader.readTiming, Timestamp.ofPtsBytes]
    cases Timestamp.checkLead field 0b0010 <;> cases Timestamp.ofBytes field <;> rfl
  | ptsAndDts =>
    have hfive : 5 ≤ field.length := Nat.le_trans (by decide) h
    have hrest : 5 ≤ (field.drop 5).length := by
      rw [List.length_drop]
      exact Nat.le_sub_of_add_le h
    rw [timing, timestamp_eq hfive, from?_of_le hfive]
    simp only [PesHeader.readTiming, Timestamp.ofDtsBytes, ledTimestamp, Option.bind_eq_bind,
      Option.bind_some, checkLead_eq hrest, timestamp_eq hrest]
    cases Timestamp.ofBytes field with
    | error e => rfl
    | ok pts =>
      cases Timestamp.checkLead (field.drop 5) 0b0001 <;>
        cases Timestamp.ofBytes (field.drop 5) <;> rfl

/-- The optional fields lie within the bytes when the timestamps are read from them. -/
theorem optional_eq {parsed : Bytes} {length : Nat}
    (h : length = PesHeader.fixedSize + parsed.length)
    (hsize : PesHeader.extendedSize ≤ length) :
    optional parsed length = some (PesHeader.readOptional parsed) := by
  have hthree : 3 ≤ parsed.length := by
    simp only [PesHeader.fixedSize, PesHeader.extendedSize] at h hsize
    omega
  rcases parsed with _ | ⟨checks, _ | ⟨flags, _ | ⟨dataLength, fields⟩⟩⟩
  · exact absurd hthree (by simp)
  · exact absurd hthree (by simp)
  · exact absurd hthree (by simp)
  · have hlength : length = PesHeader.extendedSize + fields.length := by
      rw [h, PesHeader.fixedSize, PesHeader.extendedSize]
      simp only [List.length_cons]
      omega
    have hfields : from? (checks :: flags :: dataLength :: fields) 3 = some fields :=
      from?_of_le (by simp only [List.length_cons]; omega)
    simp only [optional, PesHeader.readOptional, List.getElem?_cons_zero, List.getElem?_cons_succ,
      Option.bind_eq_bind, Option.bind_some, hfields, hlength, Nat.add_lt_add_iff_left]
    split
    · rfl
    · cases PesHeader.TimingFlags.ofField? (bitField flags 6 2) with
      | none => rfl
      | some announced =>
        by_cases hsmall : dataLength.toNat < announced.size
        · simp [hsmall]
        · by_cases hmore : fields.length < dataLength.toNat
          · simp [hsmall, hmore]
          · have htiming : announced.size ≤ fields.length := by omega
            simp only [hsmall, hmore, if_false, timing_eq htiming, Option.bind_some]
            cases PesHeader.readTiming announced fields <;> rfl

/-- What follows the start code lies within the bytes, if the fixed part does. -/
theorem fields_eq (b₀ b₁ b₂ b₃ b₄ b₅ : UInt8) (rest : Bytes) :
    fields (b₀ :: b₁ :: b₂ :: b₃ :: b₄ :: b₅ :: rest) =
      some (
        let streamId := StreamId.ofByte b₃
        let packetLength := if word16 b₄ b₅ = 0 then none else some (word16 b₄ b₅)
        if streamId.hasOptionalFields then
          match PesHeader.readOptional rest with
          | .error e => .error e
          | .ok (headerLength, timing) => .ok { streamId, packetLength, timing, headerLength }
        else
          .ok { streamId, packetLength, timing := {}, headerLength := PesHeader.fixedSize }) := by
  have hlength : (b₀ :: b₁ :: b₂ :: b₃ :: b₄ :: b₅ :: rest).length =
      PesHeader.fixedSize + rest.length := Nat.add_comm rest.length 6
  have hrest : from? (b₀ :: b₁ :: b₂ :: b₃ :: b₄ :: b₅ :: rest) PesHeader.fixedSize =
      some rest := from?_of_le (by rw [hlength]; exact Nat.le_add_right _ _)
  simp only [fields, List.getElem?_cons_zero, List.getElem?_cons_succ, Option.bind_eq_bind,
    Option.bind_some, hrest]
  cases (StreamId.ofByte b₃).hasOptionalFields with
  | false => simp
  | true =>
    simp only [Bool.not_true, Bool.false_eq_true, if_false, if_true]
    by_cases hshort : (b₀ :: b₁ :: b₂ :: b₃ :: b₄ :: b₅ :: rest).length < PesHeader.extendedSize
    · have hless : rest.length < 3 := by
        rw [hlength, PesHeader.fixedSize, PesHeader.extendedSize] at hshort
        omega
      rw [if_pos hshort, hlength]
      rcases rest with _ | ⟨_, _ | ⟨_, _ | ⟨_, _⟩⟩⟩
      · rfl
      · rfl
      · rfl
      · exact absurd hless (by simp)
    · rw [if_neg hshort, optional_eq hlength (Nat.not_lt.mp hshort)]
      simp only [Option.bind_some]
      cases PesHeader.readOptional rest <;> rfl

theorem header_eq (bytes : Bytes) : header bytes = some (PesHeader.ofBytes bytes) := by
  match bytes with
  | [] => rfl
  | [_] => rfl
  | [_, _] => rfl
  | [_, _, _] => rfl
  | [_, _, _, _] => rfl
  | [_, _, _, _, _] => rfl
  | b₀ :: b₁ :: b₂ :: b₃ :: b₄ :: b₅ :: rest =>
    have hlong : ¬ (b₀ :: b₁ :: b₂ :: b₃ :: b₄ :: b₅ :: rest).length < PesHeader.fixedSize :=
      Nat.not_lt.mpr (Nat.le_add_left 6 rest.length)
    have hstart : startCode (b₀ :: b₁ :: b₂ :: b₃ :: b₄ :: b₅ :: rest) =
        some (b₀.toNat * 65536 + word16 b₁ b₂) := rfl
    rw [header, if_neg hlong, hstart, PesHeader.ofBytes, Option.bind_eq_bind, Option.bind_some]
    split
    · rfl
    · exact fields_eq b₀ b₁ b₂ b₃ b₄ b₅ rest

theorem supply_eq (timing : Timing) (payload : Bytes) (remaining : Option Nat) (first : Bool) :
    supply timing payload remaining first =
      some (PesAccumulator.supply timing payload remaining first) := by
  cases remaining with
  | none => rfl
  | some limit =>
    have hleft : sub? limit (payload.take limit).length = some (limit - payload.length) := by
      rw [sub?_of_le (List.length_take_le limit payload), List.length_take]
      congr 1
      omega
    rw [supply, PesAccumulator.supply]
    by_cases hlong : limit < payload.length
    · simp [hlong, sub?_of_le (Nat.le_of_lt hlong), hleft, -List.length_take]
    · simp [hlong, hleft, -List.length_take]

/-- The header that is dropped is there. -/
theorem startBody_eq (a : PesAccumulator) (bytes : Bytes) :
    startBody a bytes = some (a.startBody bytes) := by
  rw [startBody, header_eq, PesAccumulator.startBody]
  cases hheader : PesHeader.ofBytes bytes with
  | ok header =>
    have hle := PesHeader.headerLength_le_length hheader
    simp [from?_of_le hle, supply_eq]
  | error e => cases e <;> rfl

theorem unitStart_eq (a : PesAccumulator) (data : Bytes) :
    unitStart a data = some (a.unitStart data) := by
  unfold unitStart PesAccumulator.unitStart
  rw [startBody_eq]
  cases a.stage <;> rfl

theorem continuation_eq (a : PesAccumulator) (data : Bytes) :
    continuation a data = some (a.continuation data) := by
  unfold continuation PesAccumulator.continuation
  cases a.stage with
  | idle => rfl
  | headerPending held _ => exact startBody_eq a (held ++ data)
  | body _ remaining => exact supply_eq a.timing data remaining false
  | discarding => rfl

end Pes

end Checked

end TransportStream
