import Mathlib.Algebra.Group.Nat.Defs
import TransportStream.Proofs.Checked.Access
import TransportStream.Section.Reassembly
import TransportStream.Section.Table

/-!
# Sections, by index

The section of a payload is found by its length field, and a section that was started in an earlier
payload is completed by as many bytes as are missing of it.  That number is a difference of lengths,
and it is one because of what is in progress: less than a whole section (`Sound`).  A section whose
header is still incomplete gets its header first, and only then is it known how much is missing.

* `continueSection_eq`, `startSections_eq`: the two ways of completing sections.
* `push_eq`, `sound_push`: a payload, and what it leaves in progress.
* `tableSection_eq`: a section of the long form, down to its checksum.
-/

namespace TransportStream

namespace Checked

namespace Sections

/-! ## Headers and checksum -/

/-- Reads the fields that start every section. -/
def header (bytes : Bytes) : Option (Except SectionError SectionHeader) :=
  if bytes.length < SectionHeader.size then
    some (.error (.notEnoughData .sectionHeader SectionHeader.size bytes.length))
  else do
    let b₀ ← bytes[0]?
    let b₁ ← bytes[1]?
    let b₂ ← bytes[2]?
    return .ok {
      tableId := b₀
      longForm := bitFlag b₁ 7
      privateIndicator := bitFlag b₁ 6
      length := wordField 4 b₁ b₂ }

/-- Reads the fields that place a section within its table, relying on it that they are there. -/
def tableHeader (bytes : Bytes) : Option TableHeader := do
  check (TableHeader.size ≤ bytes.length)
  let b₀ ← bytes[0]?
  let b₁ ← bytes[1]?
  let b₂ ← bytes[2]?
  let b₃ ← bytes[3]?
  let b₄ ← bytes[4]?
  return {
    tableExtension := word16 b₀ b₁
    version := bitField b₂ 1 5
    currentNext := if bitFlag b₂ 0 then .current else .next
    sectionNumber := b₃
    lastSectionNumber := b₄ }

/-- The register of the checksum after one more byte.  The entry of the table is found by the byte
that leaves the register. -/
def checksumStep (register : UInt32) (b : UInt8) : Option UInt32 := do
  let entry ← Checksum.table[((register >>> 24) ^^^ b.toUInt32).toNat]?
  return (register <<< 8) ^^^ entry

/-- The checksum of a byte string. -/
def checksum (bytes : Bytes) : Option UInt32 :=
  bytes.foldlM checksumStep Checksum.initial

/-- Reads a section of the long form. -/
def tableSection (data : Bytes) (verifyCrc : Bool) :
    Option (Except SectionError TableSection) := do
  match ← header data with
  | .error e => return .error e
  | .ok header =>
    let size := header.totalSize
    if !header.longForm then return .error (.shortForm header.tableId)
    else if size < TableSection.minSize ∨ data.length < size then
      return .error (.notEnoughData .tableSection (max size TableSection.minSize) data.length)
    else
      let whole ← slice? data 0 size
      let register ← if verifyCrc then checksum whole else some 0
      if register != 0 then return .error (.crcMismatch header.tableId)
      else
        let table ← tableHeader (← from? whole SectionHeader.size)
        let bodyEnd ← sub? whole.length TableSection.crcSize
        let body ← slice? whole (SectionHeader.size + TableHeader.size) bodyEnd
        return .ok { header, table, body }

theorem header_eq (bytes : Bytes) : header bytes = some (SectionHeader.ofBytes bytes) := by
  match bytes with
  | [] => rfl
  | [_] => rfl
  | [_, _] => rfl
  | b₀ :: b₁ :: b₂ :: rest =>
    have : ¬ (b₀ :: b₁ :: b₂ :: rest).length < SectionHeader.size := by
      simp only [List.length_cons, SectionHeader.size]
      omega
    rw [header, if_neg this]
    rfl

/-- Where the fields are relied on, they are there. -/
theorem exists_tableHeader {bytes : Bytes} (h : TableHeader.size ≤ bytes.length) :
    ∃ table, TableHeader.ofBytes? bytes = some table ∧ tableHeader bytes = some table := by
  rw [tableHeader, check_of h]
  match bytes, h with
  | _ :: _ :: _ :: _ :: _ :: _, _ => exact ⟨_, rfl, rfl⟩

/-- The byte that leaves the register is a byte. -/
theorem topByte_lt (register : UInt32) : (register >>> 24).toNat < 2 ^ 8 := by
  have := register.toNat_lt
  rw [UInt32.toNat_shiftRight, Nat.shiftRight_eq_div_pow,
    show (24 : UInt32).toNat % 32 = 24 from rfl]
  omega

/-- An index into the table of the checksum is within the table. -/
theorem checksumStep_eq (register : UInt32) (b : UInt8) :
    checksumStep register b = some (Checksum.step register b) := by
  have htop := topByte_lt register
  have hindex : ((register >>> 24) ^^^ b.toUInt32).toNat =
      (((register >>> 24).toUInt8 ^^^ b).toFin : Nat) := by
    change _ = ((register >>> 24).toUInt8 ^^^ b).toNat
    rw [UInt32.toNat_xor, UInt8.toNat_xor, UInt8.toNat_toUInt32, UInt32.toNat_toUInt8,
      Nat.mod_eq_of_lt htop]
  rw [checksumStep, Checksum.step, hindex, Vector.getElem?_eq_getElem (Fin.isLt _)]
  rfl

theorem checksum_eq (bytes : Bytes) : checksum bytes = some (Checksum.sum bytes) := by
  have hpure : checksumStep = fun register b => pure (Checksum.step register b) :=
    funext fun register => funext fun b => checksumStep_eq register b
  rw [checksum, hpure, List.foldlM_pure]
  rfl

/-- A section of the long form is read within its bytes: its header is there once its length is
known to be enough. -/
theorem tableSection_eq (data : Bytes) (verifyCrc : Bool) :
    tableSection data verifyCrc = some (TableSection.ofBytes data verifyCrc) := by
  unfold tableSection TableSection.ofBytes
  rw [header_eq]
  cases hheader : SectionHeader.ofBytes data with
  | error e => rfl
  | ok header =>
    cases hform : header.longForm with
    | false => simp [bind, Except.bind, hform]
    | true =>
      by_cases hsize : header.totalSize < TableSection.minSize ∨ data.length < header.totalSize
      · simp [bind, Except.bind, hform, hsize]
      · have hle : header.totalSize ≤ data.length := by omega
        have hmin : 12 ≤ header.totalSize := Nat.not_lt.mp fun h => hsize (.inl h)
        have hwhole : slice? data 0 header.totalSize = some (data.take header.totalSize) :=
          slice?_zero hle
        have hlength : (data.take header.totalSize).length = header.totalSize := by
          rw [List.length_take, Nat.min_eq_left hle]
        generalize htake : data.take header.totalSize = whole at hwhole hlength
        have hfront : from? whole SectionHeader.size = some (whole.drop SectionHeader.size) :=
          from?_of_le (by rw [SectionHeader.size]; omega)
        obtain ⟨table, htable, hchecked⟩ := exists_tableHeader
          (show TableHeader.size ≤ (whole.drop SectionHeader.size).length by
            rw [List.length_drop, TableHeader.size, SectionHeader.size]
            omega)
        have hend : sub? whole.length TableSection.crcSize = some (header.totalSize - 4) := by
          rw [sub?_of_le (by rw [TableSection.crcSize]; omega), hlength]
          rfl
        have hbody : slice? whole (SectionHeader.size + TableHeader.size) (header.totalSize - 4) =
            some ((whole.drop (SectionHeader.size + TableHeader.size)).take
              (header.totalSize - TableSection.minSize)) := by
          rw [slice?_of_le (by rw [SectionHeader.size, TableHeader.size]; omega) (by omega),
            List.drop_take, show header.totalSize - 4 - (SectionHeader.size + TableHeader.size) =
              header.totalSize - TableSection.minSize from Nat.sub_sub _ 4 8]
        cases verifyCrc with
        | false =>
          simp [bind, Except.bind, hform, hsize, htake, hwhole, hfront, hchecked, htable, hend,
            hbody]
        | true =>
          by_cases hsum : Checksum.sum whole = 0 <;>
            simp [bind, Except.bind, hform, hsize, htake, hwhole, hfront, hchecked, htable, hend,
              hbody, checksum_eq, hsum]

/-! ## Completing sections -/

section Completing

variable {σ : Type} (section? : σ → Bytes → Option (σ × Option SectionError))
  (note : σ → Notice → σ)

/-- Adds data to the section in progress.  What is missing of its header is added first. -/
def continueSection (state : σ) (part data : Bytes) :
    Option (σ × SectionBuffer × Option SectionError) :=
  if part.length < SectionHeader.size then do
    let needed := min (← sub? SectionHeader.size part.length) data.length
    let longer := part ++ (← slice? data 0 needed)
    if longer.length < SectionHeader.size then return (state, .collecting longer, none)
    else continueSection state longer (← from? data needed)
  else do
    match ← header part with
    | .error e => return (state, .collecting part, some e)
    | .ok header =>
      if SectionHeader.maxLength < header.length then
        return (state, .idle, some (.sectionTooLong header.length))
      else
        let remaining ← sub? header.totalSize part.length
        if data.length < remaining then return (state, .collecting (part ++ data), none)
        else
          let (state, e) ← section? state (part ++ (← slice? data 0 remaining))
          return (state, .idle, e)
termination_by SectionHeader.size - part.length
decreasing_by
  simp only [longer, List.length_append] at *
  omega

/-- Takes sections off the front of the data, as long as there are some. -/
def startSections (state : σ) (rest : Bytes) : Option (σ × SectionBuffer × Option SectionError) :=
  if rest.length = 0 then some (state, .idle, none)
  else do
    let first ← rest[0]?
    if first = SectionBuffer.stuffing then return (state, .idle, none)
    else if rest.length < SectionHeader.size then return (state, .collecting rest, none)
    else
      match ← header rest with
      | .error e => return (state, .idle, some e)
      | .ok header =>
        if SectionHeader.maxLength < header.length then
          return (state, .idle, some (.sectionTooLong header.length))
        else if rest.length < header.totalSize then return (state, .collecting rest, none)
        else
          let front ← slice? rest 0 header.totalSize
          let ⟨behind, _hbehind⟩ ← behind? rest header.totalSize
          match ← section? state front with
          | (state, some e) => return (state, .idle, some e)
          | (state, none) => startSections state behind
termination_by rest.length
decreasing_by
  rw [SectionHeader.totalSize, SectionHeader.size] at _hbehind
  omega

/-- Takes the payload of one packet.  `unitStart` is set if a section starts in it. -/
def push (state : σ) (buffer : SectionBuffer) (unitStart : Bool) (payload : Bytes) :
    Option (σ × SectionBuffer × Option SectionError) :=
  if !unitStart then
    match buffer with
    | .idle => some (note state .continuationWithoutStart, .idle, none)
    | .collecting part => continueSection section? state part payload
  else if payload.length = 0 then
    some (state, .idle, some (.notEnoughData .pointerField 1 0))
  else do
    let pointer ← payload[0]?
    let rest ← from? payload 1
    if rest.length < pointer.toNat then
      return (state, .idle, some (.pointerBeyondPayload pointer.toNat rest.length))
    else
      let tail ← slice? rest 0 pointer.toNat
      let starts ← from? rest pointer.toNat
      match buffer with
      | .idle => startSections section? state starts
      | .collecting part =>
        match ← continueSection section? state part tail with
        | (state, buffer, some e) => return (state, buffer, some e)
        | (state, .idle, none) => startSections section? state starts
        | (state, .collecting part, none) =>
          startSections section? (note state (.sectionCutShort part.length)) starts

/-! ## Nothing fails

Whoever receives the sections is a function that may fail, and that follows a receiver of the
library. -/

variable {section? note} {receive : σ → SectionOutput → σ × Option SectionError}
  (hsection : ∀ state bytes, section? state bytes = some (receive state (.whole bytes)))
  (hnote : ∀ state n, receive state (.notice n) = (note state n, none))

/-- The bytes do not reach beyond the section they start. -/
structure Within (part : Bytes) : Prop where
  /-- The header is there. -/
  size_le : SectionHeader.size ≤ part.length
  /-- The section is as long as the bytes, or longer. -/
  length_le : ∀ header, SectionHeader.ofBytes part = .ok header →
    header.length ≤ SectionHeader.maxLength → part.length ≤ header.totalSize

/-- The header stands in the first three bytes. -/
theorem exists_header {part : Bytes} (h : SectionHeader.size ≤ part.length) :
    ∃ header, ∀ more, SectionHeader.ofBytes (part ++ more) = .ok header :=
  match part, h with
  | _ :: _ :: _ :: _, _ => ⟨_, fun _ => rfl⟩

/-- How far bytes with a complete header reach, by lengths. -/
theorem front_of_header {bytes : Bytes} {header : SectionHeader}
    (h : SectionHeader.ofBytes bytes = .ok header) :
    SectionFront.of bytes =
      if SectionHeader.maxLength < header.length then .tooLong header.length
      else if bytes.length < header.totalSize then .partly
      else .whole (bytes.take header.totalSize) (bytes.drop header.totalSize) := by
  unfold SectionFront.of
  rw [h]
  dsimp only
  by_cases hshort : bytes.length < header.totalSize
  · rw [splitFront?_eq_none_iff.mpr hshort, if_pos hshort]
  · have hle : header.totalSize ≤ bytes.length := Nat.not_lt.mp hshort
    simp [splitFront?, hshort, Nat.min_eq_left hle]

/-- A section in progress is not there as a whole. -/
theorem within_of_partly {part : Bytes} (h : SectionFront.of part = .partly)
    (hsize : SectionHeader.size ≤ part.length) : Within part := by
  refine ⟨hsize, fun header hheader hmax => ?_⟩
  rw [front_of_header hheader, if_neg (Nat.not_lt.mpr hmax)] at h
  split at h
  · next hshort => exact Nat.le_of_lt hshort
  · cases h

/-- A complete header may be all of a section, but is not more than that. -/
theorem within_of_length_eq {part : Bytes} (h : part.length = SectionHeader.size) : Within part :=
  ⟨Nat.le_of_eq h.symm, fun header _ _ => h ▸ Nat.le_add_right _ header.length⟩

/-- What comes to light first is received first. -/
theorem drive_after (state : σ) (output : SectionOutput) (f : Feed) :
    (f.after [output]).drive receive state =
      match receive state output with
      | (state, some e) => (state, .idle, some e)
      | (state, none) => f.drive receive state := by
  simp only [Feed.drive, Feed.after, List.cons_append, List.nil_append, driveOutputs]
  cases hreceive : receive state output with
  | mk state e => cases e <;> rfl

theorem drive_whole (state : σ) (front : Bytes) :
    ({ outputs := [.whole front] } : Feed).drive receive state =
      ((receive state (.whole front)).1, .idle, (receive state (.whole front)).2) := by
  have hfeed : ({ outputs := [.whole front] } : Feed) = ({} : Feed).after [.whole front] := rfl
  rw [hfeed, drive_after]
  cases hreceive : receive state (.whole front) with
  | mk state e => cases e <;> rfl

include hsection in
/-- With a complete header, as much is added as is missing. -/
theorem continueSection_of_within {part : Bytes} (h : Within part) (state : σ) (data : Bytes) :
    continueSection section? state part data =
      some ((SectionBuffer.resume part data).drive receive state) := by
  obtain ⟨header, hheader⟩ := exists_header h.size_le
  have hpart : SectionHeader.ofBytes part = .ok header := by simpa using hheader []
  rw [continueSection, if_neg (Nat.not_lt.mpr h.size_le), header_eq, hpart, SectionBuffer.resume,
    front_of_header (hheader data)]
  by_cases hmax : SectionHeader.maxLength < header.length
  · simp [hmax]
    rfl
  · have hle := h.length_le header hpart (Nat.not_lt.mp hmax)
    rw [List.length_append]
    by_cases hshort : data.length < header.totalSize - part.length
    · have hpartly : part.length + data.length < header.totalSize := by omega
      simp [hmax, sub?_of_le hle, hshort, hpartly]
      rfl
    · have hwhole : ¬ part.length + data.length < header.totalSize := by omega
      have hfront : (part ++ data).take header.totalSize =
          part ++ data.take (header.totalSize - part.length) := by
        rw [List.take_append, List.take_of_length_le hle]
      simp [hmax, sub?_of_le hle, hshort, hwhole, slice?_zero (Nat.not_lt.mp hshort), hsection,
        hfront, drive_whole]

/-- Bytes without a complete header start a section at best. -/
theorem front_of_short {bytes : Bytes} (h : bytes.length < SectionHeader.size) :
    SectionFront.of bytes = .partly :=
  match bytes, h with
  | [], _ => rfl
  | [_], _ => rfl
  | [_, _], _ => rfl

include hsection in
/-- A section in progress is continued, also where its header is cut. -/
theorem continueSection_eq {part : Bytes} (h : SectionFront.of part = .partly) (state : σ)
    (data : Bytes) :
    continueSection section? state part data =
      some ((SectionBuffer.resume part data).drive receive state) := by
  by_cases hheader : part.length < SectionHeader.size
  · rw [continueSection, if_pos hheader, sub?_of_le (Nat.le_of_lt hheader)]
    by_cases hshort : data.length < SectionHeader.size - part.length
    · have hpartly : (part ++ data).length < SectionHeader.size := by
        rw [List.length_append]
        omega
      simp only [Option.bind_eq_bind, Option.bind_some, Nat.min_eq_right (Nat.le_of_lt hshort),
        slice?_zero (Nat.le_refl _), List.take_length, hpartly, if_true, SectionBuffer.resume,
        front_of_short hpartly]
      rfl
    · have hmissing : SectionHeader.size - part.length ≤ data.length := Nat.not_lt.mp hshort
      have hlength : (part ++ data.take (SectionHeader.size - part.length)).length =
          SectionHeader.size := by
        rw [List.length_append, List.length_take]
        omega
      have hcomplete : ¬ (part ++ data.take (SectionHeader.size - part.length)).length <
          SectionHeader.size := by
        rw [hlength]
        exact Nat.lt_irrefl _
      simp only [Option.bind_eq_bind, Option.bind_some, Nat.min_eq_left hmissing,
        slice?_zero hmissing, hcomplete, if_false, from?_of_le hmissing,
        continueSection_of_within hsection (within_of_length_eq hlength)]
      rw [SectionBuffer.resume, List.append_assoc, List.take_append_drop, SectionBuffer.resume]
  · exact continueSection_of_within hsection (within_of_partly h (Nat.not_lt.mp hheader)) state data

/-- The library's loop, where a section is there. -/
theorem startSections_of_whole {bytes front rest : Bytes}
    (hstuffed : SectionBuffer.isStuffed bytes = false)
    (h : SectionFront.of bytes = .whole front rest) :
    SectionBuffer.startSections bytes =
      (SectionBuffer.startSections rest).after [.whole front] := by
  have hread : ∃ hlt, SectionBuffer.readSection bytes = some (front, ⟨rest, hlt⟩) := by
    unfold SectionBuffer.readSection
    rw [if_neg (by simp [hstuffed])]
    split
    · next hfront =>
      rw [h] at hfront
      cases hfront
      exact ⟨SectionFront.length_lt_of_whole h, rfl⟩
    · next hfront => exact absurd h (hfront front rest)
  obtain ⟨hlt, hread⟩ := hread
  simp [SectionBuffer.startSections, readItems_of_some hread, Feed.after]

/-- The library's loop, where none is there. -/
theorem startSections_of_not_whole {bytes : Bytes}
    (h : SectionBuffer.isStuffed bytes = true ∨
      ∀ front rest, SectionFront.of bytes ≠ .whole front rest) :
    SectionBuffer.startSections bytes = SectionBuffer.endPayload bytes := by
  have hread : SectionBuffer.readSection bytes = none := by
    unfold SectionBuffer.readSection
    by_cases hstuffed : SectionBuffer.isStuffed bytes = true
    · rw [if_pos hstuffed]
    · rw [if_neg hstuffed]
      split
      · next hfront => exact absurd hfront (h.resolve_left hstuffed _ _)
      · rfl
  rw [SectionBuffer.startSections, readItems_of_none hread]
  rfl

/-- One round of the loop: what is done depends on how far the bytes reach. -/
theorem startSections_step {bytes : Bytes} (hstuffed : SectionBuffer.isStuffed bytes = false)
    (state : σ) :
    startSections section? state bytes =
      match SectionFront.of bytes with
      | .partly => some (state, .collecting bytes, none)
      | .tooLong length => some (state, .idle, some (.sectionTooLong length))
      | .whole front rest =>
        (section? state front).bind fun
          | (state, some e) => some (state, .idle, some e)
          | (state, none) => startSections section? state rest := by
  obtain ⟨b, hfirst, hstuffing, hempty⟩ :
      ∃ b, bytes[0]? = some b ∧ b ≠ SectionBuffer.stuffing ∧ bytes.length ≠ 0 :=
    match bytes, hstuffed with
    | b :: _, hstuffed => ⟨b, rfl, by simpa [SectionBuffer.isStuffed] using hstuffed, by simp⟩
  rw [startSections, if_neg hempty, hfirst]
  simp only [Option.bind_eq_bind, Option.bind_some, hstuffing, if_false]
  by_cases hsize : bytes.length < SectionHeader.size
  · rw [if_pos hsize, front_of_short hsize]
    rfl
  · obtain ⟨header, hheader⟩ := exists_header (Nat.not_lt.mp hsize)
    have hheader : SectionHeader.ofBytes bytes = .ok header := by simpa using hheader []
    rw [if_neg hsize, header_eq, hheader, front_of_header hheader]
    by_cases hmax : SectionHeader.maxLength < header.length
    · simp [hmax]
    · by_cases hshort : bytes.length < header.totalSize
      · simp [hmax, hshort]
      · have hle := Nat.not_lt.mp hshort
        simp only [Option.bind_some, hmax, hshort, if_false, slice?_zero hle, behind?_of_le hle]
        rfl

include hsection in
/-- Each section that is there is taken off the front, which ends with the last one. -/
theorem startSections_eq (state : σ) (bytes : Bytes) :
    startSections section? state bytes =
      some ((SectionBuffer.startSections bytes).drive receive state) := by
  by_cases hstuffed : SectionBuffer.isStuffed bytes = true
  · rw [startSections_of_not_whole (.inl hstuffed), SectionBuffer.endPayload, if_pos hstuffed,
      startSections]
    match bytes, hstuffed with
    | [], _ => rfl
    | b :: _, hstuffed =>
      obtain rfl : b = SectionBuffer.stuffing := by simpa [SectionBuffer.isStuffed] using hstuffed
      simp
      rfl
  · have hopen : SectionBuffer.isStuffed bytes = false := by simpa using hstuffed
    rw [startSections_step hopen]
    match hfront : SectionFront.of bytes with
    | .partly =>
      rw [startSections_of_not_whole (.inr fun _ _ => by rw [hfront]; simp),
        SectionBuffer.endPayload, if_neg hstuffed, hfront]
      rfl
    | .tooLong length =>
      rw [startSections_of_not_whole (.inr fun _ _ => by rw [hfront]; simp),
        SectionBuffer.endPayload, if_neg hstuffed, hfront]
      rfl
    | .whole front rest =>
      have hlt := SectionFront.length_lt_of_whole hfront
      have ih (state : σ) := startSections_eq state rest
      rw [startSections_of_whole hopen hfront, drive_after]
      simp only [hsection, Option.bind_some, ih]
      generalize receive state (.whole front) = received
      obtain ⟨state, e⟩ := received
      cases e <;> rfl
termination_by bytes.length

/-! ## Payloads -/

/-- A section in progress is not there as a whole. -/
def Sound (buffer : SectionBuffer) : Prop :=
  ∀ part, buffer = .collecting part → SectionFront.of part = .partly

theorem sound_idle : Sound .idle :=
  fun _ h => SectionBuffer.noConfusion h

include hsection hnote in
/-- A payload is taken within its bytes, whatever it says about them. -/
theorem push_eq {buffer : SectionBuffer} (h : Sound buffer) (state : σ) (unitStart : Bool)
    (payload : Bytes) :
    push section? note state buffer unitStart payload =
      some ((buffer.push unitStart payload).drive receive state) := by
  cases unitStart with
  | false =>
    cases buffer with
    | idle => simp [push, SectionBuffer.push, Feed.drive, driveOutputs, hnote]
    | collecting part => exact continueSection_eq hsection (h part rfl) state payload
  | true =>
    cases payload with
    | nil => rfl
    | cons pointer rest =>
      have hrest : from? (pointer :: rest) 1 = some rest := from?_of_le (by simp)
      simp only [push, Bool.not_true, Bool.false_eq_true, if_false, List.length_cons,
        Nat.succ_ne_zero, List.getElem?_cons_zero, Option.bind_eq_bind, Option.bind_some, hrest,
        SectionBuffer.push, if_true]
      by_cases hlong : rest.length < pointer.toNat
      · simp only [hlong, if_true]
        rfl
      · have hpointer := Nat.not_lt.mp hlong
        simp only [hlong, if_false, slice?_zero hpointer, from?_of_le hpointer, Option.bind_some]
        generalize rest.take pointer.toNat = tail
        generalize rest.drop pointer.toNat = starts
        cases buffer with
        | idle => exact startSections_eq hsection state starts
        | collecting part =>
          have hstart (state : σ) := startSections_eq hsection state starts
          simp only [continueSection_eq hsection (h part rfl), Option.bind_some,
            SectionBuffer.pushStart, SectionBuffer.resume]
          cases SectionFront.of (part ++ tail) with
          | partly =>
            simp only [drive_after, hnote, hstart]
            rfl
          | tooLong length => rfl
          | whole front after =>
            simp only [drive_whole, drive_after, hstart]
            generalize receive state (.whole front) = received
            obtain ⟨state, e⟩ := received
            cases e <;> rfl

end Completing

/-! ## What is in progress -/

theorem sound_collecting {part : Bytes} (h : SectionFront.of part = .partly) :
    Sound (.collecting part) := by
  intro part' heq
  cases heq
  exact h

theorem sound_resume (part data : Bytes) : Sound (SectionBuffer.resume part data).buffer := by
  unfold SectionBuffer.resume
  dsimp only
  split
  · next hpartly => exact sound_collecting hpartly
  · exact sound_idle
  · exact sound_idle

/-- What is left of a payload is no whole section, since these have been taken off. -/
theorem sound_startSections (data : Bytes) : Sound (SectionBuffer.startSections data).buffer := by
  have hlast := read_remainder SectionBuffer.readSection data
  change Sound (SectionBuffer.endPayload (readItems SectionBuffer.readSection data).2).buffer
  generalize (readItems SectionBuffer.readSection data).2 = rest at hlast
  unfold SectionBuffer.endPayload
  split
  · exact sound_idle
  · next hopen =>
    split
    · exact sound_idle
    · next hshort =>
      refine sound_collecting ?_
      cases hfront : SectionFront.of rest with
      | partly => rfl
      | tooLong length => exact absurd hfront (hshort length)
      | whole front after =>
        unfold SectionBuffer.readSection at hlast
        rw [if_neg hopen] at hlast
        split at hlast
        · cases hlast
        · next hnone => exact absurd hfront (hnone front after)

theorem sound_push (buffer : SectionBuffer) (unitStart : Bool) (payload : Bytes) :
    Sound (buffer.push unitStart payload).buffer := by
  unfold SectionBuffer.push
  split
  · split
    · exact sound_idle
    · split
      · exact sound_idle
      · unfold SectionBuffer.pushStart
        split
        · exact sound_startSections _
        · dsimp only
          split
          · exact sound_resume _ _
          · exact sound_startSections _
          · exact sound_startSections _
  · split
    · exact sound_idle
    · exact sound_resume _ _

/-- What a payload leaves in progress is not there as a whole. -/
theorem sound_drive {σ : Type} (receive : σ → SectionOutput → σ × Option SectionError) (state : σ)
    {f : Feed} (h : Sound f.buffer) : Sound (f.drive receive state).2.1 := by
  unfold Feed.drive
  split
  · exact sound_idle
  · exact h

end Sections

end Checked

end TransportStream
