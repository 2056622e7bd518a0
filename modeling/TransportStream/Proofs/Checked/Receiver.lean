import TransportStream.Demuxer.Basic
import TransportStream.Proofs.Checked.Sections
import TransportStream.Proofs.Checked.Tables

/-!
# Following sections, by index

The states of the PIDs stand in an arena with a place for each PID, and the sections of a table that
have been seen in a set with a place for each section number.  Whatever a section announces, it
announces within these: a PID has thirteen bits and a section number eight.

* `whole_eq`: a section is taken, down to the states it gives to PIDs.
* `sectionPacket_eq`: the payload of a packet that carries sections.
-/

namespace TransportStream

namespace Checked

namespace Receiver

open Tables (place place_eq)

/-- Takes a section for seen.  There is a place for each number of eight bits. -/
def record (f : VersionFilter) (h : TableHeader) : Option VersionFilter := do
  check (h.sectionNumber.toNat < 256)
  return f.record h

/-- Gives a PID a state, in its place of the arena, unless it has one. -/
def ensure (states : SortedMap Pid PidState) (pid : Pid) (state : PidState) :
    Option (SortedMap Pid PidState) := do
  place pid
  return Directory.ensure states pid state

/-- Follows a section of the association table. -/
def applyPat (d : Directory) (pat : PatSection) : Option (Directory × List Notice) := do
  let (table, notices) ← Tables.applyPat d.table pat
  let states ← table.programs.foldlM
    (fun states program => ensure states program.pid (.psi { kind := .pmt })) d.states
  return ({ table, states }, notices)

/-- Follows a section of the map table of a program, received on the given PID. -/
def applyPmt (d : Directory) (pmtPid : Pid) (program : Nat) (pmt : PmtSection) :
    Option (Directory × List Notice) := do
  let additions ← Tables.applyPmt d.table pmtPid program pmt
  let states ← additions.added.foldlM
    (fun states binding => ensure states binding.pid (.ofBinding binding)) d.states
  return ({ table := additions.table, states }, additions.notices)

/-- Follows the content of a section. -/
def follow (r : SectionReceiver) (pid : Pid) (kind : TableKind) (s : TableSection) :
    Option (SectionReceiver × Option SectionError) :=
  match kind with
  | .pat => do
    match ← Tables.patSection s.body with
    | .error e => return (r, some e)
    | .ok pat =>
      let (directory, notices) ← applyPat r.directory pat
      return ({ r with directory }.note (.patAccepted pid s.table.version :: notices), none)
  | .pmt => do
    match ← Tables.pmtSection s.body with
    | .error e => return (r, some e)
    | .ok pmt =>
      let (directory, notices) ← applyPmt r.directory pid s.table.tableExtension pmt
      return ({ r with directory }.note
        (.pmtAccepted pid s.table.tableExtension s.table.version :: notices), none)

/-- Takes a section of the long form. -/
def table (r : SectionReceiver) (pid : Pid) (kind : TableKind) (s : TableSection) :
    Option (SectionReceiver × Option SectionError) :=
  if s.header.tableId ≠ kind.tableId then
    some (r.note [.unexpectedTable pid kind.tableId s.header.tableId], none)
  else if s.table.currentNext = .next then some (r, none)
  else
    let filter := r.filterFor s.table
    if filter.isNew s.table then do
      let versions := r.versions.insert s.table.tableExtension (← record filter s.table)
      follow { r with versions } pid kind s
    else some (r, none)

/-- Takes a section that is there as a whole. -/
def whole (verifyCrc : Bool) (pid : Pid) (kind : TableKind) (r : SectionReceiver) (bytes : Bytes) :
    Option (SectionReceiver × Option SectionError) := do
  match ← Sections.tableSection bytes verifyCrc with
  | .error e => return (r, some e)
  | .ok s => table r pid kind s

/-- Takes the payload of a packet that carries sections. -/
def sectionPacket (d : Demuxer) (s : PsiStream) (offset : Nat) (pid : Pid) (unitStart : Bool)
    (payload : Bytes) : Option (Outcome Demuxer) := do
  let (r, buffer, error) ← Sections.push (whole d.options.verifyCrc pid s.kind)
    (fun r n => r.note [n]) { directory := d.directory, versions := s.versions } s.buffer unitStart
    payload
  place pid
  return {
    state := {
      d with
      directory := r.directory.setState pid (.psi { s with buffer, versions := r.versions }) }
    events := Event.ofNotices r.notices
    error := error.map (.table offset pid) }

/-! ## Nothing fails -/

theorem record_eq (f : VersionFilter) (h : TableHeader) : record f h = some (f.record h) := by
  rw [record, check_of h.sectionNumber.toNat_lt]
  rfl

theorem ensure_eq (states : SortedMap Pid PidState) (pid : Pid) (state : PidState) :
    ensure states pid state = some (Directory.ensure states pid state) := by
  rw [ensure, place_eq]
  rfl

theorem applyPat_eq (d : Directory) (pat : PatSection) :
    applyPat d pat = some (d.applyPat pat) := by
  unfold applyPat Directory.applyPat
  simp only [Tables.applyPat_eq, Option.bind_eq_bind, Option.bind_some, ensure_eq]
  exact congrArg (Option.bind · _) List.foldlM_pure

theorem applyPmt_eq (d : Directory) (pmtPid : Pid) (program : Nat) (pmt : PmtSection) :
    applyPmt d pmtPid program pmt = some (d.applyPmt pmtPid program pmt) := by
  unfold applyPmt Directory.applyPmt
  simp only [Tables.applyPmt_eq, Option.bind_eq_bind, Option.bind_some, ensure_eq]
  exact congrArg (Option.bind · _) List.foldlM_pure

theorem follow_eq (r : SectionReceiver) (pid : Pid) (kind : TableKind) (s : TableSection) :
    follow r pid kind s = some (r.follow pid kind s) := by
  cases kind with
  | pat =>
    rw [follow, SectionReceiver.follow, Tables.patSection_eq]
    cases PatSection.ofBytes s.body with
    | error e => rfl
    | ok pat => simp [applyPat_eq]
  | pmt =>
    rw [follow, SectionReceiver.follow, Tables.pmtSection_eq]
    cases PmtSection.ofBytes s.body with
    | error e => rfl
    | ok pmt => simp [applyPmt_eq]

theorem table_eq (r : SectionReceiver) (pid : Pid) (kind : TableKind) (s : TableSection) :
    table r pid kind s = some (r.table pid kind s) := by
  unfold table SectionReceiver.table
  split
  · rfl
  · split
    · rfl
    · simp only [record_eq, Option.bind_eq_bind, Option.bind_some, follow_eq]
      exact (apply_ite some _ _ _).symm

/-- A section is read and followed without failing. -/
theorem whole_eq (verifyCrc : Bool) (pid : Pid) (kind : TableKind) (r : SectionReceiver)
    (bytes : Bytes) :
    whole verifyCrc pid kind r bytes =
      some (SectionReceiver.receive verifyCrc pid kind r (.whole bytes)) := by
  rw [whole, SectionReceiver.receive, Sections.tableSection_eq]
  cases TableSection.ofBytes bytes verifyCrc with
  | error e => rfl
  | ok s => exact table_eq r pid kind s

theorem sectionPacket_eq (d : Demuxer) {s : PsiStream} (h : Sections.Sound s.buffer) (offset : Nat)
    (p : Packet) (payload : Bytes) :
    sectionPacket d s offset p.pid p.unitStart payload =
      some (d.sectionPacket s offset p payload) := by
  have hpush := Sections.push_eq (whole_eq d.options.verifyCrc p.pid s.kind) (fun _ _ => rfl) h
    { directory := d.directory, versions := s.versions } p.unitStart payload
  rw [sectionPacket, hpush]
  simp only [place_eq, Option.bind_eq_bind, Option.bind_some]
  rfl

end Receiver

end Checked

end TransportStream
