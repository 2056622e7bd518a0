import TransportStream.Pes.Accumulator

/-!
# PES packets in chunks

The data of a PES packet reaches the accumulator in chunks that are cut without regard for the
header.  This module proves that the cuts do not matter: what the chunks bring to light is what
reading the header from all of them together says.

## The decoder on more data

The accumulator asks the decoder again for every chunk, so the answers to different prefixes of the
packet have to fit together.  Three facts do that, and none of them mentions chunks:

* `PesHeader.ofBytes_append`: an answer other than "more data" does not change when data is added;
* `PesHeader.headerLength_le_length`: a header that was read lies within the data;
* `PesHeader.length_lt_headerLength`: "more data" is never the answer once the header is complete.

Each is proved for the optional fields first (`readOptional`), where the only subtle point is that
the timestamps are looked for in all the data at hand, of which they need no more than the optional
fields have.

## The accumulator on chunks

`deliver` gives the accumulator the chunks of one packet.  Once the header is complete the payload
is handed over chunk by chunk and counted down (`carryOn_body`), so the chunks of payload put
together are the payload, cut off where the packet length says.

* `steps_of_ok`, `steps_of_error`, `steps_of_incomplete`: the three things that can happen.
* `deliver_reads_whole`: all of it in one statement.
-/

namespace TransportStream

/-- True of the answer that asks for more data. -/
def AsksForMore {α : Type} : Except PesError α → Prop
  | .error (.needMoreData _ _) => True
  | _ => False

/-! ## Timestamps -/

/-- Data behind the five bytes of a timestamp has no influence on it. -/
theorem Timestamp.ofBytes_append {field : Bytes} (h : 5 ≤ field.length) (more : Bytes) :
    ofBytes (field ++ more) = ofBytes field := by
  match field, h with
  | b₀ :: b₁ :: b₂ :: b₃ :: b₄ :: rest, _ => rfl

theorem Timestamp.checkLead_append {field : Bytes} (h : 1 ≤ field.length) (more : Bytes)
    (expected : Nat) : checkLead (field ++ more) expected = checkLead field expected := by
  match field, h with
  | b :: rest, _ => rfl

namespace PesHeader

/-- The timestamps are read from no more data than they are announced to take. -/
theorem readTiming_append {flags : TimingFlags} {fields : Bytes} (h : flags.size ≤ fields.length)
    (more : Bytes) : readTiming flags (fields ++ more) = readTiming flags fields := by
  cases flags with
  | nothing => rfl
  | ptsOnly =>
    have h5 : 5 ≤ fields.length := h
    simp only [readTiming, Timestamp.ofPtsBytes, Timestamp.ofBytes_append h5,
      Timestamp.checkLead_append (show 1 ≤ fields.length by omega)]
  | ptsAndDts =>
    have h10 : 10 ≤ fields.length := h
    have hdrop : 5 ≤ (fields.drop 5).length := by
      rw [List.length_drop]
      omega
    simp only [readTiming, Timestamp.ofDtsBytes,
      Timestamp.ofBytes_append (show 5 ≤ fields.length by omega),
      List.drop_append_of_le_length (show 5 ≤ fields.length by omega),
      Timestamp.ofBytes_append hdrop,
      Timestamp.checkLead_append (show 1 ≤ (fields.drop 5).length by omega)]

/-! ## Optional fields -/

/-- An answer about the optional fields does not change when data is added. -/
theorem readOptional_append {rest : Bytes} (h : ¬ AsksForMore (readOptional rest)) (more : Bytes) :
    readOptional (rest ++ more) = readOptional rest := by
  match rest, h with
  | [], h => exact absurd trivial h
  | [_], h => exact absurd trivial h
  | [_, _], h => exact absurd trivial h
  | checks :: flags :: dataLength :: fields, h =>
    simp only [readOptional, List.cons_append] at h ⊢
    split
    · rfl
    · next hchecks =>
      rw [if_neg hchecks] at h
      cases hflags : TimingFlags.ofField? (bitField flags 6 2) with
      | none => rfl
      | some announced =>
        rw [hflags] at h
        dsimp only at h ⊢
        split
        · rfl
        · next hannounced =>
          rw [if_neg hannounced] at h
          by_cases hlength : fields.length < dataLength.toNat
          · rw [if_pos hlength] at h
            exact absurd trivial h
          · have hmore : ¬ (fields ++ more).length < dataLength.toNat := by
              rw [List.length_append]
              omega
            rw [if_neg hlength, if_neg hmore, readTiming_append (by omega)]

/-- What stands in optional fields that are accepted. -/
theorem of_readOptional {rest : Bytes} {headerLength : Nat} {timing : Timing}
    (h : readOptional rest = .ok (headerLength, timing)) :
    ∃ (checks flags dataLength : UInt8) (fields : Bytes) (announced : TimingFlags),
      rest = checks :: flags :: dataLength :: fields ∧ bitField checks 6 2 = 0b10 ∧
        TimingFlags.ofField? (bitField flags 6 2) = some announced ∧
        announced.size ≤ dataLength.toNat ∧ dataLength.toNat ≤ fields.length ∧
        readTiming announced fields = .ok timing ∧
        headerLength = extendedSize + dataLength.toNat := by
  unfold readOptional at h
  split at h
  · next checks flags dataLength fields =>
    dsimp only at h
    split at h
    · cases h
    · next hchecks =>
      split at h
      · cases h
      · next announced hflags =>
        split at h
        · cases h
        · next hroom =>
          split at h
          · cases h
          · next hsize =>
            split at h
            · cases h
            · next htiming =>
              cases h
              exact ⟨checks, flags, dataLength, fields, announced, rfl,
                Decidable.not_not.mp hchecks, hflags, Nat.not_lt.mp hroom, Nat.not_lt.mp hsize,
                htiming, rfl⟩
  · cases h

/-- What was read of a header with optional fields tells a length within the data. -/
theorem bounds_of_readOptional {rest : Bytes} {headerLength : Nat} {timing : Timing}
    (h : readOptional rest = .ok (headerLength, timing)) :
    extendedSize ≤ headerLength ∧ headerLength ≤ fixedSize + rest.length := by
  obtain ⟨checks, flags, dataLength, fields, -, rfl, -, -, -, hlength, -, rfl⟩ := of_readOptional h
  simp only [extendedSize, fixedSize, List.length_cons]
  omega

/-- More data is asked for only as long as the optional fields are not complete. -/
theorem length_lt_of_readOptional {rest more : Bytes} {headerLength : Nat} {timing : Timing}
    (hmore : AsksForMore (readOptional rest))
    (h : readOptional (rest ++ more) = .ok (headerLength, timing)) :
    fixedSize + rest.length < headerLength := by
  match rest, hmore, h with
  | [], _, h =>
    have := (bounds_of_readOptional h).1
    simp only [fixedSize, extendedSize, List.length_nil] at *
    omega
  | [_], _, h =>
    have := (bounds_of_readOptional h).1
    simp only [fixedSize, extendedSize, List.length_cons, List.length_nil] at *
    omega
  | [_, _], _, h =>
    have := (bounds_of_readOptional h).1
    simp only [fixedSize, extendedSize, List.length_cons, List.length_nil] at *
    omega
  | checks :: flags :: dataLength :: fields, hmore, h =>
    simp only [readOptional, List.cons_append] at hmore h
    split at h
    · cases h
    · next hchecks =>
      rw [if_neg hchecks] at hmore
      split at h
      · cases h
      · next announced hflags =>
        rw [hflags] at hmore
        dsimp only at hmore
        split at h
        · cases h
        · next hannounced =>
          rw [if_neg hannounced] at hmore
          split at h
          · cases h
          · split at h
            · cases h
            · cases h
              by_cases hlength : fields.length < dataLength.toNat
              · simp only [fixedSize, extendedSize, List.length_cons]
                omega
              · rw [if_neg hlength] at hmore
                split at hmore <;> exact absurd hmore id

/-! ## Whole headers -/

/-- **More data changes nothing.**  An answer other than a request for more data is final. -/
theorem ofBytes_append {bytes : Bytes} (h : ¬ AsksForMore (ofBytes bytes)) (more : Bytes) :
    ofBytes (bytes ++ more) = ofBytes bytes := by
  match bytes, h with
  | [], h => exact absurd trivial h
  | [_], h => exact absurd trivial h
  | [_, _], h => exact absurd trivial h
  | [_, _, _], h => exact absurd trivial h
  | [_, _, _, _], h => exact absurd trivial h
  | [_, _, _, _, _], h => exact absurd trivial h
  | b₀ :: b₁ :: b₂ :: b₃ :: b₄ :: b₅ :: rest, h =>
    simp only [ofBytes, List.cons_append] at h ⊢
    split
    · rfl
    · next hcode =>
      rw [if_neg hcode] at h
      split
      · next hfields =>
        rw [if_pos hfields] at h
        have hrest : ¬ AsksForMore (readOptional rest) := by
          intro hasks
          cases hread : readOptional rest with
          | ok read =>
            rw [hread] at hasks
            exact hasks
          | error e =>
            rw [hread] at h hasks
            exact h (by cases e <;> exact hasks)
        rw [readOptional_append hrest]
      · rfl

/-- A header that was read lies within the data. -/
theorem headerLength_le_length {bytes : Bytes} {header : PesHeader}
    (h : ofBytes bytes = .ok header) : header.headerLength ≤ bytes.length := by
  unfold ofBytes at h
  split at h
  · next rest =>
    dsimp only at h
    split at h
    · cases h
    · split at h
      · split at h
        · cases h
        · next hread =>
          cases h
          have := (bounds_of_readOptional hread).2
          simp only [fixedSize, List.length_cons] at *
          omega
      · cases h
        simp only [fixedSize, List.length_cons]
        omega
  · cases h

/-- A header has at least the fixed part. -/
theorem fixedSize_le_headerLength {bytes : Bytes} {header : PesHeader}
    (h : ofBytes bytes = .ok header) : fixedSize ≤ header.headerLength := by
  unfold ofBytes at h
  split at h
  · dsimp only at h
    split at h
    · cases h
    · split at h
      · split at h
        · cases h
        · next hread =>
          cases h
          have := (bounds_of_readOptional hread).1
          simp only [fixedSize, extendedSize] at *
          omega
      · cases h
        exact Nat.le_refl _
  · cases h

/-- More data is asked for only as long as the header is not complete. -/
theorem length_lt_headerLength {bytes more : Bytes} {header : PesHeader}
    (hmore : AsksForMore (ofBytes bytes)) (h : ofBytes (bytes ++ more) = .ok header) :
    bytes.length < header.headerLength := by
  by_cases hshort : bytes.length < fixedSize
  · exact Nat.lt_of_lt_of_le hshort (fixedSize_le_headerLength h)
  · match bytes, hshort, hmore, h with
    | b₀ :: b₁ :: b₂ :: b₃ :: b₄ :: b₅ :: rest, _, hmore, h =>
      simp only [ofBytes, List.cons_append] at hmore h
      split at h
      · cases h
      · next hcode =>
        rw [if_neg hcode] at hmore
        split at h
        · next hfields =>
          rw [if_pos hfields] at hmore
          split at h
          · cases h
          · next headerLength timing hread =>
            cases h
            have hrest : AsksForMore (readOptional rest) := by
              cases hfirst : readOptional rest with
              | ok read =>
                rw [hfirst] at hmore
                exact absurd hmore id
              | error e =>
                rw [hfirst] at hmore
                cases e <;> exact hmore
            have := length_lt_of_readOptional hrest hread
            simp only [fixedSize, List.length_cons] at *
            omega
        · next hfields =>
          rw [if_neg hfields] at hmore
          exact absurd hmore id
    | [], hshort, _, _ | [_], hshort, _, _ | [_, _], hshort, _, _ | [_, _, _], hshort, _, _
    | [_, _, _, _], hshort, _, _ | [_, _, _, _, _], hshort, _, _ =>
      exact absurd (by simp [fixedSize]) hshort

end PesHeader

/-! ## Chunks of one packet -/

/-- A piece of payload that is handed over. -/
structure PesPiece where
  /-- It is the first one of its PES packet. -/
  unitStart : Bool
  /-- The payload. -/
  data : Bytes
  /-- The timestamps in force. -/
  timing : Timing
  deriving DecidableEq

/-- All pieces of one packet have the same timestamps. -/
theorem timing_of_mem_pieces {data : Bytes} {more : List Bytes} {timing : Timing} {piece : PesPiece}
    (h : piece ∈ ({ unitStart := true, data, timing } : PesPiece) ::
      more.map fun data => { unitStart := false, data, timing }) : piece.timing = timing := by
  rcases List.mem_cons.mp h with rfl | h
  · rfl
  · obtain ⟨_, -, rfl⟩ := List.mem_map.mp h
    rfl

/-- The piece of payload that a step hands over, if it does. -/
def PesStep.piece? (step : PesStep) : Option PesPiece :=
  match step.result with
  | .ok (.ready first) => some {
      unitStart := first
      data := step.accumulator.available
      timing := step.accumulator.timing }
  | _ => none

/-- As much of some payload as a packet may still have. -/
def limited (remaining : Option Nat) (payload : Bytes) : Bytes :=
  match remaining with
  | none => payload
  | some limit => payload.take limit

theorem limited_append (remaining : Option Nat) (x y : Bytes) :
    limited remaining (x ++ y) =
      limited remaining x ++ limited (remaining.map (· - x.length)) y := by
  cases remaining with
  | none => rfl
  | some limit => exact List.take_append

namespace PesAccumulator

/-- The steps for chunks that carry on a PES packet. -/
def carryOn (a : PesAccumulator) : List Bytes → List PesStep
  | [] => []
  | chunk :: chunks =>
    let step := a.continuation chunk
    step :: step.accumulator.carryOn chunks

/-- The steps for all chunks of a PES packet: the first one starts it. -/
def deliver (a : PesAccumulator) (first : Bytes) (chunks : List Bytes) : List PesStep :=
  let step := a.unitStart first
  step :: step.accumulator.carryOn chunks

/-- True if the header of the current packet is incomplete. -/
def IsHeaderPending (a : PesAccumulator) : Prop :=
  ∃ held requested, a.stage = .headerPending held requested

/-- Supplying payload hands over as much of it as the packet may have, and counts it down. -/
theorem supply_eq (timing : Timing) (payload : Bytes) (remaining : Option Nat) (first : Bool) :
    (supply timing payload remaining first).accumulator =
        { stage := .body (limited remaining payload) (remaining.map (· - payload.length))
          timing } ∧
      (supply timing payload remaining first).result = .ok (.ready first) := by
  cases remaining with
  | none => exact ⟨rfl, rfl⟩
  | some limit => exact ⟨rfl, rfl⟩

/-- A packet that does not start within the header of another one starts anew. -/
theorem unitStart_eq {a : PesAccumulator} (h : ¬ a.IsHeaderPending) (data : Bytes) :
    (a.unitStart data).accumulator = (a.startBody data).accumulator ∧
      (a.unitStart data).result = (a.startBody data).result := by
  unfold unitStart
  split
  · next held requested hstage => exact absurd ⟨held, requested, hstage⟩ h
  · exact ⟨rfl, rfl⟩

/-- Once the header is complete, every chunk is payload. -/
theorem carryOn_body {a : PesAccumulator} {available : Bytes} {remaining : Option Nat}
    (h : a.stage = .body available remaining) (chunks : List Bytes) :
    ((a.carryOn chunks).map fun step => step.result) = chunks.map (fun _ => .ok (.ready false)) ∧
      ∃ pieces : List Bytes, pieces.flatten = limited remaining chunks.flatten ∧
        (a.carryOn chunks).filterMap PesStep.piece? =
          pieces.map fun data => { unitStart := false, data, timing := a.timing } := by
  induction chunks generalizing a available remaining with
  | nil =>
    refine ⟨rfl, [], ?_, rfl⟩
    cases remaining with
    | none => rfl
    | some limit => exact List.take_nil.symm
  | cons chunk chunks ih =>
    have hstep : a.continuation chunk = supply a.timing chunk remaining false := by
      rw [continuation, h]
    obtain ⟨hacc, hresult⟩ := supply_eq a.timing chunk remaining false
    have hstage : (supply a.timing chunk remaining false).accumulator.stage =
        .body (limited remaining chunk) (remaining.map (· - chunk.length)) := by
      rw [hacc]
    have hpiece : (supply a.timing chunk remaining false).piece? =
        some { unitStart := false, data := limited remaining chunk, timing := a.timing } := by
      rw [PesStep.piece?, hresult, hacc]
      rfl
    obtain ⟨hresults, pieces, hflatten, hpieces⟩ := ih hstage
    rw [carryOn, hstep]
    refine ⟨?_, limited remaining chunk :: pieces, ?_, ?_⟩
    · rw [List.map_cons, List.map_cons, hresult, hresults]
    · rw [List.flatten_cons, List.flatten_cons, hflatten, limited_append]
    · rw [List.filterMap_cons, hpiece, hpieces, hacc]
      rfl

/-- After a mistake in the header, nothing of the packet is used. -/
theorem carryOn_discarding {a : PesAccumulator} (h : a.stage = .discarding) (chunks : List Bytes) :
    a.carryOn chunks = chunks.map fun _ => { accumulator := a, result := .ok .ignored } := by
  induction chunks with
  | nil => rfl
  | cons chunk chunks ih =>
    have hstep : a.continuation chunk = { accumulator := a, result := .ok .ignored } := by
      rw [continuation, h]
    rw [carryOn, hstep, ih]
    rfl

/-! ## Reading the header chunk by chunk -/

theorem startBody_of_ok (a : PesAccumulator) {bytes : Bytes} {header : PesHeader}
    (h : PesHeader.ofBytes bytes = .ok header) :
    a.startBody bytes = supply (inherit a.timing header.timing) (bytes.drop header.headerLength)
      header.payloadLength true := by
  rw [startBody, h]

theorem startBody_of_asksForMore (a : PesAccumulator) {bytes : Bytes}
    (h : AsksForMore (PesHeader.ofBytes bytes)) :
    ∃ requested, a.startBody bytes =
      { accumulator := { a with stage := .headerPending bytes requested }
        result := .ok .pending } := by
  cases hread : PesHeader.ofBytes bytes with
  | ok header =>
    rw [hread] at h
    exact absurd h id
  | error e =>
    rw [hread] at h
    cases e with
    | needMoreData requested available =>
      exact ⟨requested, by rw [startBody, hread]⟩
    | _ => exact absurd h id

theorem startBody_of_error (a : PesAccumulator) {bytes : Bytes} {e : PesError}
    (h : PesHeader.ofBytes bytes = .error e)
    (hfinal : ¬ AsksForMore (PesHeader.ofBytes bytes)) :
    a.startBody bytes = { accumulator := { a with stage := .discarding }, result := .error e } := by
  rw [h] at hfinal
  rw [startBody, h]
  cases e with
  | needMoreData requested available => exact absurd trivial hfinal
  | _ => rfl

/-- The payload among the bytes of a packet: what follows the header, as far as the packet length
says. -/
theorem limited_payloadLength (header : PesHeader) (payload : Bytes) :
    limited header.payloadLength payload =
      match header.packetLength with
      | none => payload
      | some length => payload.take (length + PesHeader.fixedSize - header.headerLength) := by
  unfold PesHeader.payloadLength
  cases header.packetLength <;> rfl

variable (a : PesAccumulator) (held chunk : Bytes) (step : PesStep)

/-- The chunk that completes a good header starts the payload, and those after it carry it on. -/
theorem steps_of_complete {bytes : Bytes} {header : PesHeader} (chunks : List Bytes)
    (h : PesHeader.ofBytes bytes = .ok header)
    (hacc : step.accumulator = (a.startBody bytes).accumulator)
    (hresult : step.result = (a.startBody bytes).result) :
    ((step :: step.accumulator.carryOn chunks).map fun step => step.result) =
        .ok (.ready true) :: chunks.map (fun _ => .ok (.ready false)) ∧
      ∃ (data : Bytes) (more : List Bytes), data ++ more.flatten = limited header.payloadLength
          ((bytes ++ chunks.flatten).drop header.headerLength) ∧
        (step :: step.accumulator.carryOn chunks).filterMap PesStep.piece? =
          { unitStart := true, data, timing := inherit a.timing header.timing } ::
            more.map fun data =>
              { unitStart := false, data, timing := inherit a.timing header.timing } := by
  obtain ⟨hsupply, hready⟩ := supply_eq (inherit a.timing header.timing)
    (bytes.drop header.headerLength) header.payloadLength true
  rw [startBody_of_ok a h, hsupply] at hacc
  rw [startBody_of_ok a h, hready] at hresult
  have hstage : step.accumulator.stage =
      .body (limited header.payloadLength (bytes.drop header.headerLength))
        (header.payloadLength.map (· - (bytes.drop header.headerLength).length)) := by
    rw [hacc]
  have hpiece : step.piece? = some {
      unitStart := true
      data := limited header.payloadLength (bytes.drop header.headerLength)
      timing := inherit a.timing header.timing } := by
    rw [PesStep.piece?, hresult, hacc]
    rfl
  obtain ⟨hresults, more, hflatten, hpieces⟩ := carryOn_body hstage chunks
  refine ⟨?_, limited header.payloadLength (bytes.drop header.headerLength), more, ?_, ?_⟩
  · rw [List.map_cons, hresult, hresults]
  · rw [hflatten, ← limited_append,
      List.drop_append_of_le_length (PesHeader.headerLength_le_length h)]
  · rw [List.filterMap_cons, hpiece, hpieces, hacc]

/-- A packet with a good header, of which the given bytes are held: the chunks are pending until the
header is complete, and hand over the payload from there on. -/
theorem steps_of_ok {header : PesHeader} {chunks : List Bytes}
    (hheld : AsksForMore (PesHeader.ofBytes held))
    (h : PesHeader.ofBytes (held ++ (chunk ++ chunks.flatten)) = .ok header)
    (hacc : step.accumulator = (a.startBody (held ++ chunk)).accumulator)
    (hresult : step.result = (a.startBody (held ++ chunk)).result) :
    ∃ early first late, chunk :: chunks = early ++ first :: late ∧
      (held ++ early.flatten).length < header.headerLength ∧
      header.headerLength ≤ (held ++ (early.flatten ++ first)).length ∧
      ((step :: step.accumulator.carryOn chunks).map fun step => step.result) =
        early.map (fun _ => .ok .pending) ++
          .ok (.ready true) :: late.map (fun _ => .ok (.ready false)) ∧
      ∃ (data : Bytes) (more : List Bytes), data ++ more.flatten = limited header.payloadLength
          ((held ++ (chunk ++ chunks.flatten)).drop header.headerLength) ∧
        (step :: step.accumulator.carryOn chunks).filterMap PesStep.piece? =
          { unitStart := true, data, timing := inherit a.timing header.timing } ::
            more.map fun data =>
              { unitStart := false, data, timing := inherit a.timing header.timing } := by
  induction chunks generalizing a held chunk step with
  | nil =>
    have hlt := PesHeader.length_lt_headerLength hheld h
    rw [List.flatten_nil, List.append_nil] at h
    refine ⟨[], chunk, [], rfl, by simpa using hlt, ?_, ?_⟩
    · simpa using PesHeader.headerLength_le_length h
    · simpa using steps_of_complete a step [] h hacc hresult
  | cons next chunks ih =>
    have hlt := PesHeader.length_lt_headerLength hheld h
    rw [← List.append_assoc] at h
    by_cases hmore : AsksForMore (PesHeader.ofBytes (held ++ chunk))
    · -- the header goes on in the next chunk, and what is held grows by this one
      obtain ⟨requested, hstart⟩ := a.startBody_of_asksForMore hmore
      rw [hstart] at hacc hresult
      have hpiece : step.piece? = none := by
        rw [PesStep.piece?, hresult]
      obtain ⟨early, first, late, hchunks, hearly, hfirst, hresults, data, more, hdata, hpieces⟩ :=
        ih step.accumulator (held ++ chunk) next (step.accumulator.continuation next) hmore h
          (by rw [hacc]; rfl) (by rw [hacc]; rfl)
      refine ⟨chunk :: early, first, late, by rw [hchunks]; rfl, ?_, ?_, ?_, data, more, ?_, ?_⟩
      · simpa using hearly
      · simpa using hfirst
      · rw [List.map_cons, hresult, carryOn, hresults]
        rfl
      · simpa using hdata
      · rw [List.filterMap_cons, hpiece, carryOn, hpieces, hacc]
    · -- the header is complete with this chunk
      have hread : PesHeader.ofBytes (held ++ chunk) = .ok header :=
        (PesHeader.ofBytes_append hmore _).symm.trans h
      refine ⟨[], chunk, next :: chunks, rfl, by simpa using hlt, ?_, ?_⟩
      · simpa using PesHeader.headerLength_le_length hread
      · rw [← List.append_assoc]
        exact steps_of_complete a step (next :: chunks) hread hacc hresult

/-- A packet with a mistake in its header, of which the given bytes are held: the chunks are pending
until the mistake shows, and ignored from there on. -/
theorem steps_of_error {e : PesError} {chunks : List Bytes}
    (hheld : AsksForMore (PesHeader.ofBytes held))
    (h : PesHeader.ofBytes (held ++ (chunk ++ chunks.flatten)) = .error e)
    (hfinal : ¬ AsksForMore (PesHeader.ofBytes (held ++ (chunk ++ chunks.flatten))))
    (hacc : step.accumulator = (a.startBody (held ++ chunk)).accumulator)
    (hresult : step.result = (a.startBody (held ++ chunk)).result) :
    ∃ early wrong late, chunk :: chunks = early ++ wrong :: late ∧
      ((step :: step.accumulator.carryOn chunks).map fun step => step.result) =
        early.map (fun _ => .ok .pending) ++ .error e :: late.map (fun _ => .ok .ignored) ∧
      ∀ s ∈ step :: step.accumulator.carryOn chunks,
        s.accumulator.available = [] ∧ s.accumulator.timing = a.timing := by
  induction chunks generalizing a held chunk step with
  | nil =>
    rw [List.flatten_nil, List.append_nil] at h hfinal
    rw [startBody_of_error a h hfinal] at hacc hresult
    refine ⟨[], chunk, [], rfl, ?_, fun s hs => ?_⟩
    · rw [carryOn, List.map_cons, hresult]
      rfl
    · rw [carryOn, List.mem_singleton] at hs
      rw [hs, hacc]
      exact ⟨rfl, rfl⟩
  | cons next chunks ih =>
    rw [← List.append_assoc] at h hfinal
    by_cases hmore : AsksForMore (PesHeader.ofBytes (held ++ chunk))
    · -- nothing is wrong so far
      obtain ⟨requested, hstart⟩ := a.startBody_of_asksForMore hmore
      rw [hstart] at hacc hresult
      obtain ⟨early, wrong, late, hchunks, hresults, hquiet⟩ :=
        ih step.accumulator (held ++ chunk) next (step.accumulator.continuation next) hmore h
          hfinal (by rw [hacc]; rfl) (by rw [hacc]; rfl)
      refine ⟨chunk :: early, wrong, late, by rw [hchunks]; rfl, ?_, fun s hs => ?_⟩
      · rw [List.map_cons, hresult, carryOn, hresults]
        rfl
      · rcases List.mem_cons.mp hs with rfl | hs
        · rw [hacc]
          exact ⟨rfl, rfl⟩
        · obtain ⟨havailable, htiming⟩ := hquiet s hs
          exact ⟨havailable, htiming.trans (by rw [hacc])⟩
    · -- the mistake shows in this chunk
      have hread : PesHeader.ofBytes (held ++ chunk) = .error e :=
        (PesHeader.ofBytes_append hmore _).symm.trans h
      rw [startBody_of_error a hread hmore] at hacc hresult
      have hlate := carryOn_discarding (a := step.accumulator) (by rw [hacc]) (next :: chunks)
      refine ⟨[], chunk, next :: chunks, rfl, ?_, fun s hs => ?_⟩
      · rw [List.map_cons, hresult, hlate, List.map_map]
        rfl
      · have hs : s.accumulator = step.accumulator := by
          rw [hlate] at hs
          rcases List.mem_cons.mp hs with rfl | hs
          · rfl
          · obtain ⟨_, -, rfl⟩ := List.mem_map.mp hs
            rfl
        rw [hs, hacc]
        exact ⟨rfl, rfl⟩

/-- A packet whose header never gets complete, of which the given bytes are held: all chunks are
pending. -/
theorem steps_of_incomplete {chunks : List Bytes}
    (h : AsksForMore (PesHeader.ofBytes (held ++ (chunk ++ chunks.flatten))))
    (hacc : step.accumulator = (a.startBody (held ++ chunk)).accumulator)
    (hresult : step.result = (a.startBody (held ++ chunk)).result) :
    ((step :: step.accumulator.carryOn chunks).map fun step => step.result) =
      (chunk :: chunks).map fun _ => .ok .pending := by
  induction chunks generalizing a held chunk step with
  | nil =>
    rw [List.flatten_nil, List.append_nil] at h
    obtain ⟨requested, hstart⟩ := a.startBody_of_asksForMore h
    rw [carryOn, List.map_cons, hresult, hstart]
    rfl
  | cons next chunks ih =>
    rw [← List.append_assoc] at h
    have hmore : AsksForMore (PesHeader.ofBytes (held ++ chunk)) := by
      refine Classical.byContradiction ?_
      intro hfinal
      rw [PesHeader.ofBytes_append hfinal] at h
      exact hfinal h
    obtain ⟨requested, hstart⟩ := a.startBody_of_asksForMore hmore
    rw [hstart] at hacc hresult
    rw [List.map_cons, hresult, carryOn,
      ih step.accumulator (held ++ chunk) next _ h (by rw [hacc]; rfl) (by rw [hacc]; rfl)]
    rfl

/-- **Chunks do not matter.**  Whatever the state before --- unless a header is incomplete --- and
however a PES packet is cut into chunks, what the chunks bring to light is what the header of the
whole packet says.

If the header is good, the chunks are pending up to the one that completes it, and from there on
hand over the payload, of which the packet length may leave only a part; the timestamps are those of
the header, or the ones before if it has none.  If there is a mistake in the header, it is reported
once, the chunks after it are ignored, and nothing is handed over.  If the header is not complete,
neither is any chunk of use. -/
theorem deliver_reads_whole {a : PesAccumulator} (h : ¬ a.IsHeaderPending) (chunk : Bytes)
    (chunks : List Bytes) :
    (∀ header, PesHeader.ofBytes (chunk ++ chunks.flatten) = .ok header →
      ∃ early first late, chunk :: chunks = early ++ first :: late ∧
        early.flatten.length < header.headerLength ∧
        header.headerLength ≤ (early.flatten ++ first).length ∧
        ((a.deliver chunk chunks).map fun step => step.result) =
          early.map (fun _ => .ok .pending) ++
            .ok (.ready true) :: late.map (fun _ => .ok (.ready false)) ∧
        (((a.deliver chunk chunks).filterMap PesStep.piece?).flatMap fun piece => piece.data) =
          (match header.packetLength with
          | none => (chunk ++ chunks.flatten).drop header.headerLength
          | some length =>
            ((chunk ++ chunks.flatten).drop header.headerLength).take
              (length + 6 - header.headerLength)) ∧
        ∀ piece ∈ (a.deliver chunk chunks).filterMap PesStep.piece?, piece.timing =
          match header.timing.pts with
          | none => a.timing
          | some pts => { pts := some pts, dts := some (header.timing.dts.getD pts) }) ∧
    (∀ e, PesHeader.ofBytes (chunk ++ chunks.flatten) = .error e →
      (∀ requested available, e ≠ .needMoreData requested available) →
      ∃ early wrong late, chunk :: chunks = early ++ wrong :: late ∧
        ((a.deliver chunk chunks).map fun step => step.result) =
          early.map (fun _ => .ok .pending) ++ .error e :: late.map (fun _ => .ok .ignored) ∧
        ∀ step ∈ a.deliver chunk chunks,
          step.accumulator.available = [] ∧ step.accumulator.timing = a.timing) ∧
    (∀ requested available,
      PesHeader.ofBytes (chunk ++ chunks.flatten) = .error (.needMoreData requested available) →
      ((a.deliver chunk chunks).map fun step => step.result) =
        (chunk :: chunks).map fun _ => .ok .pending) := by
  obtain ⟨hacc, hresult⟩ := unitStart_eq h chunk
  have hnothing : AsksForMore (PesHeader.ofBytes []) := trivial
  refine ⟨?_, ?_, ?_⟩
  · intro header hread
    obtain ⟨early, first, late, hchunks, hearly, hfirst, hresults, data, more, hdata, hpieces⟩ :=
      steps_of_ok a [] chunk _ hnothing hread hacc hresult
    refine ⟨early, first, late, hchunks, hearly, hfirst, hresults, ?_, ?_⟩
    · rw [deliver, hpieces]
      refine Eq.trans ?_ (limited_payloadLength header _)
      simpa [List.flatMap_map] using hdata
    · intro piece hpiece
      rw [deliver, hpieces] at hpiece
      exact timing_of_mem_pieces hpiece
  · intro e hread hfinal
    refine steps_of_error a [] chunk _ hnothing hread ?_ hacc hresult
    rw [List.nil_append, hread]
    intro hasks
    cases e with
    | needMoreData requested available => exact hfinal requested available rfl
    | _ => exact hasks
  · intro requested available hread
    exact steps_of_incomplete a [] chunk _ (by rw [List.nil_append, hread]; trivial) hacc hresult

/-- A bounded packet whose header is cut twice, with a byte too much at its end, after a packet that
ended early. -/
theorem deliver_reads_whole_cut_header :
    ¬ IsHeaderPending { stage := .body [0xee] (some 3) } ∧
      ∃ (early : List Bytes) (first : Bytes) (late : List Bytes),
        [[0, 0, 1], [0xc0, 0, 10, 0x80, 0x80, 5, 0x21], [0, 1, 2, 3, 0xaa], [0xbb, 0xcc]] =
            early ++ first :: late ∧
          early.flatten.length < 14 ∧ 14 ≤ (early.flatten ++ first).length ∧
          ((deliver { stage := .body [0xee] (some 3) } [0, 0, 1]
              [[0xc0, 0, 10, 0x80, 0x80, 5, 0x21], [0, 1, 2, 3, 0xaa], [0xbb, 0xcc]]).map
              fun step => step.result) =
            early.map (fun _ => .ok .pending) ++
              .ok (.ready true) :: late.map (fun _ => .ok (.ready false)) ∧
          ((deliver { stage := .body [0xee] (some 3) } [0, 0, 1]
              [[0xc0, 0, 10, 0x80, 0x80, 5, 0x21], [0, 1, 2, 3, 0xaa], [0xbb, 0xcc]]).filterMap
              PesStep.piece?).flatMap (fun piece => piece.data) = [0xaa, 0xbb] ∧
          ∀ piece ∈ (deliver { stage := .body [0xee] (some 3) } [0, 0, 1]
              [[0xc0, 0, 10, 0x80, 0x80, 5, 0x21], [0, 1, 2, 3, 0xaa], [0xbb, 0xcc]]).filterMap
              PesStep.piece?,
            piece.timing = { pts := some ⟨257, by decide⟩, dts := some ⟨257, by decide⟩ } := by
  have hidle : ¬ IsHeaderPending { stage := .body [0xee] (some 3) } := by
    rintro ⟨held, requested, h⟩
    cases h
  have hread : PesHeader.ofBytes ([0, 0, 1] ++
      [[0xc0, 0, 10, 0x80, 0x80, 5, 0x21], [0, 1, 2, 3, 0xaa], [0xbb, 0xcc]].flatten) =
      .ok { streamId := .audio 0
            packetLength := some 10
            timing := { pts := some ⟨257, by decide⟩ }
            headerLength := 14 } := by
    cbv
  exact ⟨hidle, (deliver_reads_whole hidle [0, 0, 1]
    [[0xc0, 0, 10, 0x80, 0x80, 5, 0x21], [0, 1, 2, 3, 0xaa], [0xbb, 0xcc]]).1 _ hread⟩

end PesAccumulator

end TransportStream
