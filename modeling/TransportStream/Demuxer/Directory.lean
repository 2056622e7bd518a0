import TransportStream.Demuxer.PesStream
import TransportStream.Section.Reassembly
import TransportStream.Section.Table
import TransportStream.Section.Version

/-!
# The directory of announced streams

A PID gets a state of its own when a table announces it, and keeps it from then on: the PIDs of map
tables a state that puts sections together, the PIDs of elementary streams a state that cuts frames.
The directory is the program table together with these states.  A section changes both at once, so
that what the table announces is what the states are there for; it never touches a state that is
already there.

## Which sections are followed

A section is followed if it belongs to the table expected on its PID, is already in force, and has
not been seen in the current version of its table.  One PID can carry the maps of several programs,
so versions are kept for each of them apart.
-/

namespace TransportStream

/-- The tables that are followed. -/
inductive TableKind where
  /-- The program association table. -/
  | pat
  /-- A program map table. -/
  | pmt
  deriving DecidableEq

/-- The identifier that sections of the table carry. -/
def TableKind.tableId : TableKind → UInt8
  | pat => 0x00
  | pmt => 0x02

/-- The state of a PID that carries sections. -/
structure PsiStream where
  /-- The table expected. -/
  kind : TableKind
  /-- The section in progress. -/
  buffer : SectionBuffer := .idle
  /-- The sections seen, for each instance of the table. -/
  versions : SortedMap Nat VersionFilter := .empty
  deriving DecidableEq

/-- The state of an announced PID. -/
inductive PidState where
  /-- It carries sections. -/
  | psi (s : PsiStream)
  /-- It carries an elementary stream that is cut into frames. -/
  | pes (s : PesStream)
  /-- It carries an elementary stream that is not cut into frames. -/
  | unframed
  deriving DecidableEq

namespace PidState

/-- The state for a binding. -/
def ofBinding (b : StreamBinding) : PidState :=
  match PesStream.ofBinding? b with
  | some s => pes s
  | none => unframed

/-- Gives what is left of an elementary stream as its last frame. -/
def flush : PidState → PidState × List Frame
  | pes s => s.flush.map pes id
  | other => (other, [])

end PidState

/-- What has been announced, and the state of each announced PID. -/
structure Directory where
  /-- The programs and streams announced. -/
  table : ProgramTable := {}
  /-- The states. -/
  states : SortedMap Pid PidState := SortedMap.empty.insert .pat (.psi { kind := .pat })
  deriving DecidableEq

namespace Directory

/-- Gives a PID a state, unless it has one. -/
def ensure (states : SortedMap Pid PidState) (pid : Pid) (state : PidState) :
    SortedMap Pid PidState :=
  if states.contains pid then states else states.insert pid state

/-- Follows a section of the association table. -/
def applyPat (d : Directory) (pat : PatSection) : Directory × List Notice :=
  let (table, notices) := d.table.applyPat pat
  let states := table.programs.foldl
    (fun states program => ensure states program.pid (.psi { kind := .pmt })) d.states
  ({ table, states }, notices)

/-- Follows a section of the map table of a program, received on the given PID. -/
def applyPmt (d : Directory) (pmtPid : Pid) (program : Nat) (pmt : PmtSection) :
    Directory × List Notice :=
  let additions := d.table.applyPmt pmtPid program pmt
  let states := additions.added.foldl
    (fun states binding => ensure states binding.pid (.ofBinding binding)) d.states
  ({ table := additions.table, states }, additions.notices)

/-- Sets the state of a PID. -/
def setState (d : Directory) (pid : Pid) (state : PidState) : Directory :=
  { d with states := d.states.insert pid state }

/-- The state of a PID, if it has been announced. -/
def state? (d : Directory) (pid : Pid) : Option PidState :=
  d.states.get? pid

@[simp] theorem state?_setState_self (d : Directory) (pid : Pid) (state : PidState) :
    (d.setState pid state).state? pid = some state :=
  SortedMap.get?_insert_self _ pid state

theorem state?_setState_of_ne (d : Directory) {pid pid' : Pid} (h : pid ≠ pid')
    (state : PidState) : (d.setState pid state).state? pid' = d.state? pid' :=
  SortedMap.get?_insert_of_ne _ h state

/-- A PID that has a state is given the same one again. -/
theorem setState_of_state? {d : Directory} {pid : Pid} {state : PidState}
    (h : d.state? pid = some state) : d.setState pid state = d := by
  have hstates : d.states.insert pid state = d.states := by
    refine SortedMap.ext_get? ?_
    intro pid'
    rw [SortedMap.get?_insert]
    split
    · next heq =>
      subst heq
      exact h.symm
    · rfl
  rw [setState, hstates]

/-- Of the states that a PID is given one after the other the last one counts. -/
theorem setState_setState (d : Directory) (pid : Pid) (state state' : PidState) :
    (d.setState pid state).setState pid state' = d.setState pid state' := by
  have hstates : (d.states.insert pid state).insert pid state' = d.states.insert pid state' := by
    refine SortedMap.ext_get? ?_
    intro pid'
    rw [SortedMap.get?_insert, SortedMap.get?_insert, SortedMap.get?_insert]
    split
    · rfl
    · rfl
  rw [setState, setState, setState, hstates]

end Directory

/-! ## Following the sections of one PID -/

/-- What the sections of one PID change. -/
structure SectionReceiver where
  /-- What has been announced. -/
  directory : Directory
  /-- The sections seen on the PID. -/
  versions : SortedMap Nat VersionFilter
  /-- What was notable, in order. -/
  notices : List Notice := []
  deriving DecidableEq

namespace SectionReceiver

/-- Adds to what was notable. -/
def note (r : SectionReceiver) (notices : List Notice) : SectionReceiver :=
  { r with notices := r.notices ++ notices }

/-- Follows the content of a section. -/
def follow (r : SectionReceiver) (pid : Pid) (kind : TableKind) (s : TableSection) :
    SectionReceiver × Option SectionError :=
  match kind with
  | .pat =>
    match PatSection.ofBytes s.body with
    | .error e => (r, some e)
    | .ok pat =>
      let (directory, notices) := r.directory.applyPat pat
      ({ r with directory }.note (.patAccepted pid s.table.version :: notices), none)
  | .pmt =>
    match PmtSection.ofBytes s.body with
    | .error e => (r, some e)
    | .ok pmt =>
      let (directory, notices) := r.directory.applyPmt pid s.table.tableExtension pmt
      ({ r with directory }.note
        (.pmtAccepted pid s.table.tableExtension s.table.version :: notices), none)

/-- The sections seen of the table that a section belongs to. -/
def filterFor (r : SectionReceiver) (h : TableHeader) : VersionFilter :=
  (r.versions.get? h.tableExtension).getD {}

/-- Takes a section of the long form.  It counts as seen before its content is looked at. -/
def table (r : SectionReceiver) (pid : Pid) (kind : TableKind) (s : TableSection) :
    SectionReceiver × Option SectionError :=
  if s.header.tableId ≠ kind.tableId then
    (r.note [.unexpectedTable pid kind.tableId s.header.tableId], none)
  else if s.table.currentNext = .next then (r, none)
  else
    let filter := r.filterFor s.table
    if filter.isNew s.table then
      let versions := r.versions.insert s.table.tableExtension (filter.record s.table)
      { r with versions }.follow pid kind s
    else (r, none)

/-- Takes what the payload of a packet brings to light. -/
def receive (verifyCrc : Bool) (pid : Pid) (kind : TableKind) (r : SectionReceiver) :
    SectionOutput → SectionReceiver × Option SectionError
  | .notice n => (r.note [n], none)
  | .whole bytes =>
    match TableSection.ofBytes bytes verifyCrc with
    | .error e => (r, some e)
    | .ok s => r.table pid kind s

end SectionReceiver

end TransportStream
