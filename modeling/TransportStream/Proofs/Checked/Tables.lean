import TransportStream.Program.Table
import TransportStream.Proofs.Checked.Access

/-!
# Tables, by index

The entries of the tables and the descriptors within them come as runs of items, each of which says
where it ends.  So all of them are taken off the front in the same way (`items`), and differ in how
far an item is looked at: as long as its length has been compared with what is left, the bytes it is
read from are there.

* `items_eq`: a run of items, for any kind of item.
* `patSection_eq`, `pmtSection_eq`, `streams_eq`, `descriptors_eq`: what the tables consist of.
* `applyPat_eq`, `applyPmt_eq`: following a table, which keeps account of the PIDs in sets that have
  room for each of them.
-/

namespace TransportStream

namespace Checked

namespace Tables

/-! ## Runs of items -/

variable {α β : Type}

/-- Each item that is taken off the front leaves less. -/
def Shrinks (next : Bytes → Option (Option (α × Bytes))) : Prop :=
  ∀ bytes item rest, next bytes = some (some (item, rest)) → rest.length < bytes.length

/-- Takes items off the front as long as there are some. -/
def items (next : Bytes → Option (Option (α × Bytes))) (h : Shrinks next) (bytes : Bytes) :
    Option (List α × Bytes) :=
  match _hnext : next bytes with
  | none => none
  | some none => some ([], bytes)
  | some (some (item, rest)) => do
    let (others, remainder) ← items next h rest
    return (item :: others, remainder)
termination_by bytes.length
decreasing_by exact h bytes item rest _hnext

theorem items_of_none {next : Bytes → Option (Option (α × Bytes))} (h : Shrinks next)
    {bytes : Bytes} (hnext : next bytes = some none) : items next h bytes = some ([], bytes) := by
  rw [items]
  split <;> simp_all

theorem items_of_some {next : Bytes → Option (Option (α × Bytes))} (h : Shrinks next) {item : α}
    {bytes rest : Bytes} (hnext : next bytes = some (some (item, rest))) :
    items next h bytes =
      (items next h rest).bind fun found => some (item :: found.1, found.2) := by
  rw [items]
  split <;> simp_all

section

variable {next : Bytes → Option (Option (β × Bytes))} {read : ItemReader α} {f : α → β}
  (h : ∀ bytes, next bytes = some ((read bytes).map fun item => (f item.1, item.2.1)))

include h

/-- The items of the library leave less. -/
theorem Shrinks.of_eq : Shrinks next := by
  intro bytes item rest hnext
  rw [h] at hnext
  obtain ⟨⟨_, remainder⟩, -, heq⟩ := Option.map_eq_some_iff.mp (Option.some.inj hnext)
  cases heq
  exact remainder.2

/-- A run of items is the one that the library finds. -/
theorem items_eq (hshrinks : Shrinks next) (bytes : Bytes) :
    items next hshrinks bytes =
      some ((readItems read bytes).1.map f, (readItems read bytes).2) := by
  have hnext := h bytes
  match hread : read bytes with
  | none =>
    rw [hread] at hnext
    rw [readItems_of_none hread, items_of_none hshrinks hnext]
    rfl
  | some (item, rest) =>
    rw [hread] at hnext
    have ih := items_eq hshrinks rest.1
    rw [readItems_of_some hread, items_of_some hshrinks hnext, ih]
    rfl
termination_by bytes.length
decreasing_by exact rest.2

end

/-- The identifier with the given number, which has to be one. -/
def newPid (hi lo : UInt8) : Option Pid :=
  Pid.ofNat? (wordField 5 hi lo)

theorem newPid_eq (hi lo : UInt8) : newPid hi lo = some (.ofBytes hi lo) :=
  dif_pos (wordField_lt 5 hi lo)

/-! ## The association table -/

/-- The entry in four bytes. -/
def patEntry (chunk : Bytes) : Option PatEntry := do
  let b₀ ← chunk[0]?
  let b₁ ← chunk[1]?
  let b₂ ← chunk[2]?
  let b₃ ← chunk[3]?
  let pid ← newPid b₂ b₃
  if word16 b₀ b₁ = 0 then return .network pid else return .program (word16 b₀ b₁) pid

/-- Takes four bytes off the front, if they are there, and reads the entry in them. -/
def nextPatEntry (bytes : Bytes) : Option (Option (PatEntry × Bytes)) :=
  if bytes.length < PatEntry.size then some none
  else do
    let chunk ← slice? bytes 0 PatEntry.size
    let rest ← from? bytes PatEntry.size
    return some (← patEntry chunk, rest)

theorem nextPatEntry_eq (bytes : Bytes) :
    nextPatEntry bytes = some ((PatEntry.read bytes).map fun item => (id item.1, item.2.1)) := by
  match bytes with
  | [] => rfl
  | [_] => rfl
  | [_, _] => rfl
  | [_, _, _] => rfl
  | b₀ :: b₁ :: b₂ :: b₃ :: rest =>
    have hlong : ¬ (b₀ :: b₁ :: b₂ :: b₃ :: rest).length < PatEntry.size := by
      simp only [List.length_cons, PatEntry.size]
      omega
    have hsize := Nat.not_lt.mp hlong
    rw [nextPatEntry, if_neg hlong, slice?_zero hsize, from?_of_le hsize]
    by_cases hnumber : word16 b₀ b₁ = 0 <;>
      simp [PatEntry.size, patEntry, newPid_eq, PatEntry.read, PatEntry.ofFields, hnumber]

/-- Reads the body of a section, which has to consist of whole entries. -/
def patSection (body : Bytes) : Option (Except SectionError PatSection) :=
  if body.length % PatEntry.size = 0 then do
    let (entries, _) ← items nextPatEntry (.of_eq nextPatEntry_eq) body
    return .ok ⟨entries⟩
  else
    some (.error (.notEnoughData .programAssociation
      ((body.length / PatEntry.size + 1) * PatEntry.size) body.length))

theorem patSection_eq (body : Bytes) : patSection body = some (PatSection.ofBytes body) := by
  unfold patSection PatSection.ofBytes
  by_cases hwhole : body.length % PatEntry.size = 0
  · rw [if_pos hwhole, if_pos hwhole, items_eq nextPatEntry_eq, List.map_id]
    rfl
  · rw [if_neg hwhole, if_neg hwhole]

/-! ## Descriptors -/

/-- True if the format has the given identifier. -/
def isFormat (r : Registration) (identifier : Bytes) : Option Bool := do
  return (← slice? r.data 0 4) == identifier

/-- Reads an entry of a language descriptor, which has to have four bytes. -/
def language (chunk : Bytes) : Option Language := do
  check (chunk.length = 4)
  let code ← slice? chunk 0 3
  let kind ← chunk[3]?
  return ⟨latin1 code, .ofByte kind⟩

/-- The entries in the payload of a language descriptor. -/
def languages (payload : Bytes) : Option (List Language) :=
  if payload.length < 4 then some []
  else do
    let first ← language (← slice? payload 0 4)
    let ⟨rest, _hrest⟩ ← behind? payload 4
    let others ← languages rest
    return first :: others
termination_by payload.length
decreasing_by omega

/-- Reads a descriptor from exactly its bytes. -/
def descriptor (bytes : Bytes) : Option (Except DescriptorError Descriptor) :=
  if bytes.length < 2 then some (.error (.bufferTooShort bytes.length))
  else do
    let tag ← bytes[0]?
    let length ← bytes[1]?
    if bytes.length < length.toNat + 2 then
      return .error (.tagTooLongForBuffer length.toNat bytes.length)
    else
      let payload ← slice? bytes 2 (length.toNat + 2)
      if tag = Registration.tag then return (Registration.ofPayload payload).map .registration
      else if tag = Language.tag then return .ok (.iso639Language (← languages payload))
      else return .ok (.unknown tag payload)

/-- Takes a descriptor off the front of a loop. -/
def nextDescriptor (bytes : Bytes) :
    Option (Option (Except DescriptorError Descriptor × Bytes)) :=
  if bytes.length < 2 then some none
  else do
    let length ← bytes[1]?
    let room ← sub? bytes.length 2
    if room < length.toNat then return none
    else
      let framed ← slice? bytes 0 (length.toNat + 2)
      let rest ← from? bytes (length.toNat + 2)
      return some (← descriptor framed, rest)

/-- What is wrong with bytes that start no descriptor. -/
def framingError (bytes : Bytes) : Option DescriptorError :=
  if bytes.length < 2 then some (.bufferTooShort bytes.length)
  else do
    let length ← bytes[1]?
    return .tagTooLongForBuffer length.toNat bytes.length

theorem language_eq {a b c kind : UInt8} :
    language [a, b, c, kind] = some ⟨latin1 [a, b, c], .ofByte kind⟩ :=
  rfl

theorem languages_eq (payload : Bytes) :
    languages payload = some (Language.listOfPayload payload) := by
  match payload with
  | [] => rw [languages]; rfl
  | [_] => rw [languages]; rfl
  | [_, _] => rw [languages]; rfl
  | [_, _, _] => rw [languages]; rfl
  | a :: b :: c :: kind :: rest =>
    have hlong : ¬ (a :: b :: c :: kind :: rest).length < 4 := by simp
    have hsize := Nat.not_lt.mp hlong
    have ih := languages_eq rest
    rw [languages, if_neg hlong, slice?_zero hsize, behind?_of_le hsize]
    simp [language_eq, ih, Language.listOfPayload]

theorem descriptor_eq (bytes : Bytes) : descriptor bytes = some (Descriptor.ofBytes bytes) := by
  match bytes with
  | [] => rfl
  | [_] => rfl
  | tag :: length :: rest =>
    have htwo : ¬ (tag :: length :: rest).length < 2 := by simp
    rw [descriptor, if_neg htwo, Descriptor.ofBytes]
    by_cases hlong : rest.length < length.toNat
    · rw [Descriptor.readFramed_of_lt hlong]
      simp [hlong, Descriptor.framingError]
    · have hle := Nat.not_lt.mp hlong
      obtain ⟨hlt, hread⟩ := Descriptor.readFramed_of_le hle
      have hpayload : slice? (tag :: length :: rest) 2 (length.toNat + 2) =
          some (rest.take length.toNat) := by
        rw [slice?_of_le (Nat.le_add_left 2 _) (by simp only [List.length_cons]; omega)]
        rfl
      have hwhole : ¬ (tag :: length :: rest).length < length.toNat + 2 := by
        simp only [List.length_cons]
        omega
      rw [hread]
      simp only [List.getElem?_cons_zero, List.getElem?_cons_succ, Option.bind_eq_bind,
        Option.bind_some, hwhole, if_false, hpayload, languages_eq, Descriptor.ofPayload]
      split
      · rfl
      · split <;> rfl

theorem nextDescriptor_eq (bytes : Bytes) :
    nextDescriptor bytes = some ((Descriptor.readFramed bytes).map fun item =>
      (Descriptor.ofPayload item.1.1 item.1.2, item.2.1)) := by
  match bytes with
  | [] => rfl
  | [_] => rfl
  | tag :: length :: rest =>
    have htwo : ¬ (tag :: length :: rest).length < 2 := by simp
    rw [nextDescriptor, if_neg htwo, sub?_of_le (Nat.not_lt.mp htwo)]
    by_cases hlong : rest.length < length.toNat
    · rw [Descriptor.readFramed_of_lt hlong]
      simp [hlong]
    · have hle := Nat.not_lt.mp hlong
      have hwhole : length.toNat + 2 ≤ (tag :: length :: rest).length := by
        simp only [List.length_cons]
        omega
      obtain ⟨hlt, hread⟩ := @Descriptor.readFramed_of_le tag _ _ hle
      obtain ⟨_, hown⟩ := @Descriptor.readFramed_of_le tag length (rest.take length.toNat)
        (Nat.le_of_eq (List.length_take_of_le hle).symm)
      have hroom : ¬ (tag :: length :: rest).length - 2 < length.toNat := hlong
      rw [hread]
      simp only [List.getElem?_cons_succ, List.getElem?_cons_zero, Option.bind_eq_bind,
        Option.bind_some, hroom, if_false, slice?_zero hwhole, from?_of_le hwhole, descriptor_eq,
        List.take_succ_cons, Descriptor.ofBytes, hown, List.take_take, Nat.min_self]
      rfl

theorem framingError_eq (bytes : Bytes) :
    framingError bytes = some (Descriptor.framingError bytes) := by
  match bytes with
  | [] => rfl
  | [_] => rfl
  | _ :: _ :: _ => simp [framingError, Descriptor.framingError]

theorem shrinks_nextDescriptor : Shrinks nextDescriptor :=
  .of_eq (f := fun framed : UInt8 × Bytes => Descriptor.ofPayload framed.1 framed.2)
    nextDescriptor_eq

/-- Reads a loop of descriptors. -/
def descriptors (bytes : Bytes) : Option (List (Except DescriptorError Descriptor)) := do
  let (found, rest) ← items nextDescriptor shrinks_nextDescriptor bytes
  if rest.length = 0 then return found
  else return found ++ [.error (← framingError rest)]

/-- A loop of descriptors ends, and each of them is read within its own bytes. -/
theorem descriptors_eq (bytes : Bytes) : descriptors bytes = some (Descriptor.list bytes) := by
  have hitems := items_eq
    (f := fun framed : UInt8 × Bytes => Descriptor.ofPayload framed.1 framed.2) nextDescriptor_eq
  rw [descriptors, Descriptor.list, hitems]
  simp only [Option.bind_eq_bind, Option.bind_some, framingError_eq, List.length_eq_zero_iff,
    List.isEmpty_iff]
  split
  · simp
  · rfl

/-! ## The map table -/

/-- Reads the entry at the front of a byte string, and gives what follows it. -/
def streamInfo (bytes : Bytes) : Option (Except SectionError (StreamInfo × Bytes)) :=
  if bytes.length < StreamInfo.headerSize then
    some (.error (.notEnoughData .streamInfo StreamInfo.headerSize bytes.length))
  else do
    let b₃ ← bytes[3]?
    let b₄ ← bytes[4]?
    let size := StreamInfo.headerSize + wordField 4 b₃ b₄
    if bytes.length < size then return .error (.notEnoughData .esInfo size bytes.length)
    else
      let entry ← slice? bytes 0 size
      let rest ← from? bytes size
      let b₀ ← entry[0]?
      let b₁ ← entry[1]?
      let b₂ ← entry[2]?
      let pid ← newPid b₁ b₂
      let info ← from? entry StreamInfo.headerSize
      return .ok ({ streamType := ⟨b₀⟩, pid, info }, rest)

/-- Takes an entry off the front of a byte string, if one is there. -/
def nextStream (bytes : Bytes) : Option (Option (StreamInfo × Bytes)) := do
  match ← streamInfo bytes with
  | .error _ => return none
  | .ok (s, rest) => return some (s, rest)

/-- Reads the body of a section. -/
def pmtSection (body : Bytes) : Option (Except SectionError PmtSection) :=
  if body.length < PmtSection.headerSize then
    some (.error (.notEnoughData .programMap PmtSection.headerSize body.length))
  else do
    let b₂ ← body[2]?
    let b₃ ← body[3]?
    let infoEnd := PmtSection.headerSize + wordField 4 b₂ b₃
    if body.length < infoEnd then return .error (.notEnoughData .programInfo infoEnd body.length)
    else
      let b₀ ← body[0]?
      let b₁ ← body[1]?
      let pcrPid ← newPid b₀ b₁
      let programInfo ← slice? body PmtSection.headerSize infoEnd
      let streamInfo ← from? body infoEnd
      return .ok { pcrPid, programInfo, streamInfo }

theorem streamInfo_eq (bytes : Bytes) : streamInfo bytes = some (StreamInfo.ofBytes bytes) := by
  match bytes with
  | [] => rfl
  | [_] => rfl
  | [_, _] => rfl
  | [_, _, _] => rfl
  | [_, _, _, _] => rfl
  | b₀ :: b₁ :: b₂ :: b₃ :: b₄ :: rest =>
    have hlength : (b₀ :: b₁ :: b₂ :: b₃ :: b₄ :: rest).length =
        StreamInfo.headerSize + rest.length := Nat.add_comm rest.length 5
    rw [streamInfo, if_neg (by rw [hlength]; exact Nat.not_lt.mpr (Nat.le_add_right _ _)), hlength]
    simp only [List.getElem?_cons_succ, List.getElem?_cons_zero, Option.bind_eq_bind,
      Option.bind_some, StreamInfo.ofBytes]
    generalize wordField 4 b₃ b₄ = length
    by_cases hlong : rest.length < length
    · rw [splitFront?_eq_none_iff.mpr hlong, if_pos (Nat.add_lt_add_left hlong _)]
      rfl
    · have hle : length ≤ rest.length := Nat.not_lt.mp hlong
      have hsize := hlength ▸ Nat.add_le_add_left hle StreamInfo.headerSize
      rw [splitFront?_of_le hle, if_neg (Nat.not_lt.mpr (Nat.add_le_add_left hle _)),
        slice?_zero hsize, from?_of_le hsize, Nat.add_comm StreamInfo.headerSize]
      simp only [StreamInfo.headerSize, List.take_succ_cons, List.getElem?_cons_succ,
        List.getElem?_cons_zero, List.drop_succ_cons, Option.bind_some, newPid_eq]
      rw [from?_of_le (by simp only [List.length_cons]; omega)]
      rfl

theorem nextStream_eq (bytes : Bytes) :
    nextStream bytes = some ((StreamInfo.read bytes).map fun item => (id item.1, item.2.1)) := by
  rw [nextStream, streamInfo_eq]
  unfold StreamInfo.read
  split
  · next hfail => simp [hfail]
  · next hread => simp [hread]

/-- Reads entries up to the end, or up to one that does not fit, and what is wrong with that. -/
def streams (bytes : Bytes) : Option (List StreamInfo × Option SectionError) := do
  let (streams, rest) ← items nextStream (.of_eq nextStream_eq) bytes
  if rest.length = 0 then return (streams, none)
  else
    match ← streamInfo rest with
    | .error e => return (streams, some e)
    | .ok _ => return (streams, none)

/-- The list of streams ends, and each entry is read within the list. -/
theorem streams_eq (bytes : Bytes) : streams bytes = some (StreamInfo.listOfBytes bytes) := by
  rw [streams, items_eq nextStream_eq, List.map_id, StreamInfo.listOfBytes]
  generalize readItems StreamInfo.read bytes = found
  obtain ⟨streams, rest⟩ := found
  simp only [Option.bind_eq_bind, Option.bind_some, streamInfo_eq, StreamInfo.remainderError?,
    List.length_eq_zero_iff, List.isEmpty_iff]
  split
  · rfl
  · cases StreamInfo.ofBytes rest <;> rfl

theorem pmtSection_eq (body : Bytes) : pmtSection body = some (PmtSection.ofBytes body) := by
  match body with
  | [] => rfl
  | [_] => rfl
  | [_, _] => rfl
  | [_, _, _] => rfl
  | b₀ :: b₁ :: b₂ :: b₃ :: rest =>
    have hlength : (b₀ :: b₁ :: b₂ :: b₃ :: rest).length =
        PmtSection.headerSize + rest.length := Nat.add_comm rest.length 4
    rw [pmtSection, if_neg (by rw [hlength]; exact Nat.not_lt.mpr (Nat.le_add_right _ _)), hlength]
    simp only [List.getElem?_cons_succ, List.getElem?_cons_zero, Option.bind_eq_bind,
      Option.bind_some, PmtSection.ofBytes, newPid_eq]
    generalize wordField 4 b₂ b₃ = length
    by_cases hlong : rest.length < length
    · rw [splitFront?_eq_none_iff.mpr hlong, if_pos (Nat.add_lt_add_left hlong _)]
      rfl
    · have hle : length ≤ rest.length := Nat.not_lt.mp hlong
      have hsize := hlength ▸ Nat.add_le_add_left hle PmtSection.headerSize
      rw [splitFront?_of_le hle, if_neg (Nat.not_lt.mpr (Nat.add_le_add_left hle _)),
        slice?_of_le (Nat.le_add_right _ _) hsize, from?_of_le hsize,
        Nat.add_comm PmtSection.headerSize]
      rfl

/-! ## Following a table -/

variable {σ ω : Type}

/-- Goes over a list with a state. -/
def gather (step : σ → α → Option (σ × List ω)) (s : σ) : List α → Option (σ × List ω)
  | [] => some (s, [])
  | a :: as => do
    let (next, outputs) ← step s a
    let (last, others) ← gather step next as
    return (last, outputs ++ others)

theorem gather_eq {step : σ → α → Option (σ × List ω)} {step' : σ → α → σ × List ω}
    (h : ∀ s a, step s a = some (step' s a)) (s : σ) (as : List α) :
    gather step s as = some (TransportStream.gather step' s as) := by
  induction as generalizing s with
  | nil => rfl
  | cons a as ih =>
    rw [gather, h, gather_cons]
    simp [ih]

/-- Relies on it that there is a place for a PID.  There is one for each number of thirteen bits. -/
def place (pid : Pid) : Option Unit :=
  check (pid.value < 0x2000)

@[simp] theorem place_eq (pid : Pid) : place pid = some () :=
  check_of pid.isLt

/-- Follows one entry of the association table. -/
def addProgram (t : ProgramTable) (entry : PatEntry) : Option (ProgramTable × List Notice) :=
  match entry with
  | .network pid => some (t, [.networkTableIgnored pid])
  | .program number pid =>
    if { number, pid } ∈ t.programs then some (t, [])
    else if pid = .pat ∨ t.isElementaryPid pid then some (t, [.programOnUsedPid number pid])
    else do
      place pid
      return ({ t with programs := t.programs ++ [{ number, pid }] }, [.programFound number pid])

/-- Follows a section of the association table. -/
def applyPat (t : ProgramTable) (pat : PatSection) : Option (ProgramTable × List Notice) :=
  gather addProgram t pat.entries

/-- True if a registration descriptor of the stream names the given format. -/
def isRegisteredAs (s : StreamInfo) (identifier : Bytes) : Option Bool := do
  (← descriptors s.info).anyM fun
    | .ok (.registration r) => isFormat r identifier
    | _ => some false

/-- The codec of the stream. -/
def codec (s : StreamInfo) : Option Codec :=
  if s.streamType = .h264 then some .h264
  else if s.streamType = .h265 then some .h265
  else if s.streamType = .adts ∨ s.streamType = .latm then some .aac
  else if s.streamType = .mpeg1Audio ∨ s.streamType = .mpeg2Audio then some .mpegAudio
  else if s.streamType = .privateData then do
    if ← isRegisteredAs s Registration.hevc then return .h265 else return .unsupported
  else some .unsupported

/-- The binding of a stream that a program lists. -/
def binding (program : Nat) (s : StreamInfo) : Option StreamBinding := do
  let codec ← codec s
  let language := (← descriptors s.info).findSome? fun
    | .ok (.iso639Language (l :: _)) => some l.code
    | _ => none
  return { pid := s.pid, streamType := s.streamType, codec, program, language }

/-- Follows one entry of a map table. -/
def addStream (t : ProgramTable) (binding : StreamBinding) :
    Option (ProgramTable × List Announcement) := do
  let announcement := t.judge binding
  match announcement.added? with
  | some added =>
    place added.pid
    return ({ t with streams := t.streams.insert added.pid added }, [announcement])
  | none => return (t, [announcement])

/-- Follows a section of the map table of a program, received on the given PID. -/
def applyPmt (t : ProgramTable) (pmtPid : Pid) (program : Nat) (pmt : PmtSection) :
    Option ProgramTable.Additions := do
  let (streams, malformed) ← streams pmt.streamInfo
  let bindings ← streams.mapM (binding program)
  let (table, announcements) ← gather addStream t bindings
  return {
    table
    added := announcements.filterMap Announcement.added?
    notices :=
      announcements.filterMap (Announcement.notice? pmtPid) ++
        malformed.toList.map .malformedStreamEntry }

theorem addProgram_eq (t : ProgramTable) (entry : PatEntry) :
    addProgram t entry = some (t.addProgram entry) := by
  cases entry with
  | network pid => rfl
  | program number pid =>
    simp only [addProgram, ProgramTable.addProgram, place_eq]
    split
    · rfl
    · split <;> rfl

theorem applyPat_eq (t : ProgramTable) (pat : PatSection) :
    applyPat t pat = some (t.applyPat pat) :=
  gather_eq addProgram_eq t pat.entries

theorem isFormat_eq (r : Registration) (identifier : Bytes) :
    isFormat r identifier = some (r.isFormat identifier) := by
  rw [isFormat, slice?_zero r.four_le_length]
  rfl

theorem isRegisteredAs_eq (s : StreamInfo) (identifier : Bytes) :
    isRegisteredAs s identifier = some (s.isRegisteredAs identifier) := by
  rw [isRegisteredAs, descriptors_eq, StreamInfo.isRegisteredAs, StreamInfo.descriptors]
  refine Eq.trans (congrArg (List.anyM · (Descriptor.list s.info)) (funext fun d => ?_))
    List.anyM_pure
  cases d with
  | error e => rfl
  | ok d => cases d <;> first | exact isFormat_eq _ identifier | rfl

theorem codec_eq (s : StreamInfo) : codec s = some s.codec := by
  unfold codec StreamInfo.codec
  rw [isRegisteredAs_eq]
  simp only [apply_ite some, Option.bind_eq_bind, Option.bind_some]
  by_cases hprivate : s.streamType = .privateData <;>
    by_cases hregistered : s.isRegisteredAs Registration.hevc = true <;>
      simp [hprivate, hregistered]

theorem binding_eq (program : Nat) (s : StreamInfo) :
    binding program s = some (.ofInfo program s) := by
  rw [binding, codec_eq, descriptors_eq]
  rfl

theorem addStream_eq (t : ProgramTable) (binding : StreamBinding) :
    addStream t binding = some (t.addStream binding) := by
  rw [addStream, ProgramTable.addStream]
  cases (t.judge binding).added? <;> simp

theorem applyPmt_eq (t : ProgramTable) (pmtPid : Pid) (program : Nat) (pmt : PmtSection) :
    applyPmt t pmtPid program pmt = some (t.applyPmt pmtPid program pmt) := by
  have hbinding : binding program = fun s => pure (StreamBinding.ofInfo program s) :=
    funext (binding_eq program)
  rw [applyPmt, streams_eq, hbinding]
  simp only [Option.bind_eq_bind, Option.bind_some, List.mapM_pure, gather_eq addStream_eq]
  rfl

end Tables

end Checked

end TransportStream
