import TransportStream.Program.Association
import TransportStream.Program.Map
import TransportStream.Proofs.PacketEncoding
import TransportStream.Proofs.SectionCarriage
import TransportStream.Section.Table

/-!
# Writing sections

A section of the long form is written from the fields that place it in its table and from its body;
the lengths follow, and so does the checksum.  The checksum works because appending the register to
the data shifts it out to zero: each byte of it meets its own value at the top of the register.

* `Checksum.sum_append_field`: data with its checksum behind it has checksum zero.
* `OutgoingSection.ofBytes_bytes`: decoding a section inverts encoding it.
* `OutgoingProgram.ofBytes_bytes`, `OutgoingStream.listOfBytes_bytes`, `OutgoingMap.ofBytes_bytes`:
  so it does for the bodies of association and map tables.
-/

namespace TransportStream

/-! ## The checksum field -/

namespace Checksum

/-- The four bytes of a register, the most significant one first. -/
def field (register : UInt32) : Bytes :=
  [(register >>> 24).toUInt8, (register >>> 16).toUInt8, (register >>> 8).toUInt8, register.toUInt8]

/-- A byte that equals the top byte of the register moves it out, and adds nothing. -/
theorem step_topByte (register : UInt32) :
    step register (register >>> 24).toUInt8 = register <<< 8 := by
  have hzero : shiftByte (UInt32.ofNat (0 : UInt8).toFin.val <<< 24) = 0 := by decide
  rw [step, UInt8.xor_self, get_table, hzero, UInt32.xor_zero]

/-- The register after its own bytes is zero. -/
theorem foldl_step_field (register : UInt32) : (field register).foldl step register = 0 := by
  have h₁ : (register >>> 16).toUInt8 = ((register <<< 8) >>> 24).toUInt8 := by
    refine UInt8.toNat_inj.mp ?_
    simp [Nat.shiftLeft_eq, Nat.shiftRight_eq_div_pow]
    omega
  have h₂ : (register >>> 8).toUInt8 = ((register <<< 8 <<< 8) >>> 24).toUInt8 := by
    refine UInt8.toNat_inj.mp ?_
    simp [Nat.shiftLeft_eq, Nat.shiftRight_eq_div_pow]
    omega
  have h₃ : register.toUInt8 = ((register <<< 8 <<< 8 <<< 8) >>> 24).toUInt8 := by
    refine UInt8.toNat_inj.mp ?_
    simp [Nat.shiftLeft_eq, Nat.shiftRight_eq_div_pow]
    omega
  have hout : register <<< 8 <<< 8 <<< 8 <<< 8 = 0 := by
    refine UInt32.toNat_inj.mp ?_
    simp [Nat.shiftLeft_eq]
    omega
  rw [field, List.foldl_cons, step_topByte, h₁, List.foldl_cons, step_topByte, h₂, List.foldl_cons,
    step_topByte, h₃, List.foldl_cons, step_topByte, List.foldl_nil, hout]

/-- **The checksum verifies.** -/
theorem sum_append_field (data : Bytes) : sum (data ++ field (sum data)) = 0 := by
  rw [sum_append, foldl_step_field]

end Checksum

/-! ## Sections -/

/-- What a multiplexer writes into one section of the long form. -/
structure OutgoingSection where
  /-- The kind of table. -/
  tableId : UInt8
  /-- The flag left to the definition of the table. -/
  privateIndicator : Bool := false
  /-- The two reserved bits before the length. -/
  reserved : Fin 4 := .last 3
  /-- The fields that place the section within its table. -/
  table : TableHeader
  /-- The two reserved bits before the version. -/
  reservedInTable : Fin 4 := .last 3
  /-- The content. -/
  body : Bytes
  /-- The extension has sixteen bits. -/
  tableExtension_lt : table.tableExtension < 65536
  /-- The version has five bits. -/
  version_lt : table.version < 32
  /-- The length fits into its field. -/
  length_body_le : body.length ≤ 4086
  deriving DecidableEq

namespace OutgoingSection

variable (s : OutgoingSection)

/-- The number of bytes after the length field. -/
def length : Nat :=
  s.body.length + (TableHeader.size + TableSection.crcSize)

/-- The bytes of the section before its checksum. -/
def front : Bytes :=
  [s.tableId,
    UInt8.ofNat ((8 + s.privateIndicator.toNat * 4 + s.reserved.val) * 2 ^ 4 + s.length / 256),
    UInt8.ofNat s.length,
    UInt8.ofNat (s.table.tableExtension / 256),
    UInt8.ofNat s.table.tableExtension,
    UInt8.ofNat (s.reservedInTable.val * 64 + s.table.version * 2 +
      if s.table.currentNext = .current then 1 else 0),
    s.table.sectionNumber,
    s.table.lastSectionNumber] ++ s.body

/-- The bytes of the section. -/
def bytes : Bytes :=
  s.front ++ Checksum.field (Checksum.sum s.front)

theorem length_bytes : s.bytes.length = SectionHeader.size + s.length := by
  simp only [bytes, front, Checksum.field, length, List.length_append, List.length_cons,
    List.length_nil, SectionHeader.size, TableHeader.size, TableSection.crcSize]
  omega

/-- The first fields of the section, as the decoder has to give them. -/
def header : SectionHeader where
  tableId := s.tableId
  longForm := true
  privateIndicator := s.privateIndicator
  length := s.length

theorem wordField_length :
    wordField 4
      (UInt8.ofNat ((8 + s.privateIndicator.toNat * 4 + s.reserved.val) * 2 ^ 4 + s.length / 256))
      (UInt8.ofNat s.length) = s.length := by
  have := s.length_body_le
  refine wordField_ofNat (by decide) ?_ _
  simp only [length, TableHeader.size, TableSection.crcSize]
  omega

theorem ofBytes_header (more : Bytes) : SectionHeader.ofBytes (s.bytes ++ more) = .ok s.header := by
  have hlength : s.length < 4096 := by
    have := s.length_body_le
    simp only [length, TableHeader.size, TableSection.crcSize]
    omega
  have hreserved := s.reserved.isLt
  simp only [bytes, front, List.cons_append, SectionHeader.ofBytes, s.wordField_length]
  rw [header]
  congr 2
  · rw [bitFlag_ofNat, decide_eq_true_iff]
    cases s.privateIndicator <;> simp only [Bool.toNat_false, Bool.toNat_true] <;> omega
  · rw [bitFlag_ofNat]
    cases s.privateIndicator <;> simp <;> omega

theorem ofBytes?_table (more : Bytes) :
    TableHeader.ofBytes? ((s.bytes ++ more).drop SectionHeader.size) = some s.table := by
  have hversion := s.version_lt
  have hreserved := s.reservedInTable.isLt
  simp only [bytes, front, List.cons_append, SectionHeader.size, List.drop_succ_cons,
    List.drop_zero, TableHeader.ofBytes?, word16_ofNat s.tableExtension_lt]
  rw [bitField_ofNat, bitFlag_ofNat]
  generalize s.table = table at hversion ⊢
  obtain ⟨tableExtension, version, currentNext, sectionNumber, lastSectionNumber⟩ := table
  dsimp only at hversion ⊢
  cases currentNext with
  | current =>
    have hfield :
        (s.reservedInTable.val * 64 + version * 2 + 1) % 256 / 2 ^ 1 % 2 ^ 5 = version := by
      omega
    have hflag : (s.reservedInTable.val * 64 + version * 2 + 1) % 256 / 2 ^ 0 % 2 = 1 := by omega
    simp only [if_true, hfield, hflag, decide_true]
  | next =>
    have hfield :
        (s.reservedInTable.val * 64 + version * 2 + 0) % 256 / 2 ^ 1 % 2 ^ 5 = version := by
      omega
    have hflag : (s.reservedInTable.val * 64 + version * 2 + 0) % 256 / 2 ^ 0 % 2 = 0 := by omega
    simp only [reduceCtorEq, if_false, hfield, hflag, Nat.zero_ne_one, decide_false,
      Bool.false_eq_true]

/-- **Decoding inverts encoding**, with or without a look at the checksum, and whatever follows. -/
theorem ofBytes_bytes (more : Bytes) (verifyCrc : Bool) :
    TableSection.ofBytes (s.bytes ++ more) verifyCrc =
      .ok { header := s.header, table := s.table, body := s.body } := by
  have hlength := s.length_bytes
  have hsize : s.header.totalSize = s.bytes.length := hlength.symm
  have hwhole : (s.bytes ++ more).take s.header.totalSize = s.bytes := by
    rw [hsize, List.take_left]
  have hbody : (s.bytes.drop (SectionHeader.size + TableHeader.size)).take
      (s.header.totalSize - TableSection.minSize) = s.body := by
    have hcount : s.header.totalSize - TableSection.minSize = s.body.length := by
      simp only [SectionHeader.totalSize, header, length, TableSection.minSize, SectionHeader.size,
        TableHeader.size, TableSection.crcSize]
      omega
    rw [hcount, bytes, front, List.append_assoc]
    exact List.take_left
  have hmin : ¬ (s.header.totalSize < TableSection.minSize ∨
      (s.bytes ++ more).length < s.header.totalSize) := by
    rw [hsize, hlength, List.length_append, hlength]
    simp only [length, TableSection.minSize, SectionHeader.size, TableHeader.size,
      TableSection.crcSize]
    omega
  have hcrc : Checksum.sum s.bytes = 0 := Checksum.sum_append_field s.front
  have htable := s.ofBytes?_table []
  rw [List.append_nil] at htable
  unfold TableSection.ofBytes
  rw [s.ofBytes_header more]
  simp only [bind, Except.bind, hwhole, hcrc, htable, hbody, if_neg hmin]
  simp [header]

theorem ofBytes_alone (verifyCrc : Bool) :
    TableSection.ofBytes s.bytes verifyCrc =
      .ok { header := s.header, table := s.table, body := s.body } := by
  have hbytes := s.ofBytes_bytes [] verifyCrc
  rwa [List.append_nil] at hbytes

/-- The bytes of a section are one section for a buffer, if it is short enough and does not start
like stuffing. -/
theorem isSection_bytes (hid : s.tableId ≠ SectionBuffer.stuffing)
    (hlength : s.length ≤ SectionHeader.maxLength) : IsSection s.bytes := by
  have hbytes := s.length_bytes
  have hword := s.wordField_length
  rw [bytes, front] at hbytes ⊢
  simp only [List.cons_append, List.length_cons, SectionHeader.size] at hbytes ⊢
  refine ⟨hid, ?_, ?_⟩
  · rw [hword]
    simp only [List.length_cons]
    omega
  · simp only [List.length_cons]
    omega

end OutgoingSection

/-! ## Association tables -/

/-- What a multiplexer writes into one entry of an association table. -/
structure OutgoingProgram where
  /-- The number of the program, or zero for the network information table. -/
  number : Nat
  /-- The reserved bits. -/
  reserved : Fin 8 := .last 7
  /-- The PID. -/
  pid : Pid
  /-- The number has sixteen bits. -/
  number_lt : number < 65536
  deriving DecidableEq

namespace OutgoingProgram

/-- The bytes of the entry. -/
def bytes (e : OutgoingProgram) : Bytes :=
  [UInt8.ofNat (e.number / 256), UInt8.ofNat e.number,
    UInt8.ofNat (e.reserved.val * 32 + e.pid.value / 256), UInt8.ofNat e.pid.value]

/-- The entry as the decoder has to give it. -/
def entry (e : OutgoingProgram) : PatEntry :=
  if e.number = 0 then .network e.pid else .program e.number e.pid

theorem ofFields_bytes (e : OutgoingProgram) :
    PatEntry.ofFields (UInt8.ofNat (e.number / 256)) (UInt8.ofNat e.number)
      (UInt8.ofNat (e.reserved.val * 32 + e.pid.value / 256)) (UInt8.ofNat e.pid.value) =
        e.entry := by
  rw [PatEntry.ofFields, word16_ofNat e.number_lt, Pid.ofBytes_ofNat, entry]

/-- The entries are read off the body one after the other. -/
theorem readItems_bytes (entries : List OutgoingProgram) :
    readItems PatEntry.read (entries.flatMap bytes) = (entries.map entry, []) := by
  have hread (e : OutgoingProgram) (rest : Bytes) :
      ∃ hlt, PatEntry.read (e.bytes ++ rest) = some (e.entry, ⟨rest, hlt⟩) :=
    ⟨PatEntry.length_lt_length_entry _ _ _ _ _, by
      simp only [bytes, List.cons_append, List.nil_append, PatEntry.read, ofFields_bytes]⟩
  have hitems := readItems_flatMap_append hread entries []
  have hnone : PatEntry.read [] = none := rfl
  rw [readItems_of_none hnone, List.append_nil, List.append_nil] at hitems
  exact hitems

/-- **Decoding inverts encoding.** -/
theorem ofBytes_bytes (entries : List OutgoingProgram) :
    PatSection.ofBytes (entries.flatMap bytes) = .ok ⟨entries.map entry⟩ := by
  have hlength : (entries.flatMap bytes).length = entries.length * PatEntry.size := by
    induction entries with
    | nil => rfl
    | cons e entries ih =>
      rw [List.flatMap_cons, List.length_append, ih, List.length_cons, Nat.add_one_mul,
        Nat.add_comm]
      rfl
  rw [PatSection.ofBytes, hlength, if_pos (Nat.mul_mod_left _ _), PatEntry.listOfBytes,
    readItems_bytes]

end OutgoingProgram

/-! ## Map tables -/

/-- What a multiplexer writes into one entry of a map table. -/
structure OutgoingStream where
  /-- How the stream is coded. -/
  streamType : StreamType
  /-- The reserved bits before the PID. -/
  reserved : Fin 8 := .last 7
  /-- The PID that carries the stream. -/
  pid : Pid
  /-- The reserved bits before the length of the descriptors. -/
  reservedInfo : Fin 16 := .last 15
  /-- The loop of descriptors. -/
  info : Bytes
  /-- The length of the descriptors fits into its field. -/
  length_info_lt : info.length < 4096
  deriving DecidableEq

namespace OutgoingStream

/-- The bytes of the entry. -/
def bytes (e : OutgoingStream) : Bytes :=
  [e.streamType.code,
    UInt8.ofNat (e.reserved.val * 32 + e.pid.value / 256), UInt8.ofNat e.pid.value,
    UInt8.ofNat (e.reservedInfo.val * 2 ^ 4 + e.info.length / 256), UInt8.ofNat e.info.length] ++
    e.info

/-- The entry as the decoder has to give it. -/
def entry (e : OutgoingStream) : StreamInfo where
  streamType := e.streamType
  pid := e.pid
  info := e.info

theorem ofBytes_bytes_append (e : OutgoingStream) (rest : Bytes) :
    StreamInfo.ofBytes (e.bytes ++ rest) = .ok (e.entry, rest) := by
  have hsplit : splitFront? e.info.length (e.info ++ rest) = some (e.info, rest) :=
    splitFront?_eq_some_iff.mpr ⟨rfl, rfl⟩
  simp only [bytes, List.cons_append, List.nil_append, StreamInfo.ofBytes,
    wordField_ofNat (show 4 ≤ 8 by decide) e.length_info_lt, hsplit, Pid.ofBytes_ofNat]
  rfl

theorem read_bytes_append (e : OutgoingStream) (rest : Bytes) :
    StreamInfo.read (e.bytes ++ rest) = some (e.entry, ⟨rest,
      StreamInfo.length_lt_of_ofBytes (e.ofBytes_bytes_append rest)⟩) := by
  unfold StreamInfo.read
  split
  · next h =>
    rw [e.ofBytes_bytes_append] at h
    cases h
  · next h =>
    rw [e.ofBytes_bytes_append] at h
    cases h
    rfl

/-- Entries are read off the front one after the other, whatever follows them. -/
theorem readItems_bytes_append (entries : List OutgoingStream) (rest : Bytes) :
    readItems StreamInfo.read (entries.flatMap bytes ++ rest) =
      (entries.map entry ++ (readItems StreamInfo.read rest).1,
        (readItems StreamInfo.read rest).2) :=
  readItems_flatMap_append (fun e rest => ⟨_, e.read_bytes_append rest⟩) entries rest

theorem listOfBytes_bytes (entries : List OutgoingStream) :
    StreamInfo.listOfBytes (entries.flatMap bytes) = (entries.map entry, none) := by
  have hnone : StreamInfo.read [] = none := rfl
  have hitems := readItems_bytes_append entries []
  rw [readItems_of_none hnone, List.append_nil, List.append_nil] at hitems
  rw [StreamInfo.listOfBytes, hitems]
  rfl

end OutgoingStream

/-- What a multiplexer writes into the body of a section of a map table. -/
structure OutgoingMap where
  /-- The reserved bits before the PID. -/
  reserved : Fin 8 := .last 7
  /-- The PID that carries the clock of the program. -/
  pcrPid : Pid
  /-- The reserved bits before the length of the descriptors. -/
  reservedInfo : Fin 16 := .last 15
  /-- The loop of descriptors of the program. -/
  programInfo : Bytes := []
  /-- The streams. -/
  streams : List OutgoingStream
  /-- The length of the descriptors fits into its field. -/
  length_programInfo_lt : programInfo.length < 4096
  deriving DecidableEq

namespace OutgoingMap

/-- The bytes of the body. -/
def bytes (m : OutgoingMap) : Bytes :=
  [UInt8.ofNat (m.reserved.val * 32 + m.pcrPid.value / 256), UInt8.ofNat m.pcrPid.value,
    UInt8.ofNat (m.reservedInfo.val * 2 ^ 4 + m.programInfo.length / 256),
    UInt8.ofNat m.programInfo.length] ++ (m.programInfo ++ m.streams.flatMap OutgoingStream.bytes)

/-- **Decoding inverts encoding.** -/
theorem ofBytes_bytes (m : OutgoingMap) :
    PmtSection.ofBytes m.bytes = .ok {
      pcrPid := m.pcrPid
      programInfo := m.programInfo
      streamInfo := m.streams.flatMap OutgoingStream.bytes } := by
  have hsplit : splitFront? m.programInfo.length
      (m.programInfo ++ m.streams.flatMap OutgoingStream.bytes) =
        some (m.programInfo, m.streams.flatMap OutgoingStream.bytes) :=
    splitFront?_eq_some_iff.mpr ⟨rfl, rfl⟩
  simp only [bytes, List.cons_append, List.nil_append, PmtSection.ofBytes,
    wordField_ofNat (show 4 ≤ 8 by decide) m.length_programInfo_lt, hsplit, Pid.ofBytes_ofNat]

end OutgoingMap

end TransportStream
