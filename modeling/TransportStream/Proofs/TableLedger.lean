import TransportStream.Proofs.SectionHistory

/-!
# Tables that keep what they could look up

What a PID is used for can be looked up among the programs and streams of a table, and how a stream
is cut into frames follows from its codec.  A ledger is a table that does not look it up: it has a
set of the PIDs of map tables and one of the PIDs of streams, which are all it asks before it adds
something, and it notes the role of a stream with the stream.  That is quicker, and it can go wrong,
since the same thing is written down twice.

It does not.  Whatever sections a ledger follows, it records what a program table says that has
followed the same ones, so that its sets are exact.

* `Ledger.Records`: a ledger records a table.
* `Ledger.Records.follow`: it goes on doing so when both follow a section, and the same is new.
* `Ledger.IsConsistent`: what is written down twice agrees, and every PID has one use.
* `Ledger.consistent_followAll`: ledgers and tables after any sections.
-/

namespace TransportStream

/-- A set of PIDs, with a mark for each of them. -/
structure PidSet where
  /-- True of the PIDs in the set. -/
  isMarked : Pid → Bool := fun _ => false

/-- Puts a PID into the set. -/
def PidSet.mark (s : PidSet) (pid : Pid) : PidSet where
  isMarked other := decide (pid = other) || s.isMarked other

/-- What a ledger says about a stream. -/
structure Ledger.Entry where
  /-- What was announced. -/
  binding : StreamBinding
  /-- How the stream is cut into frames. -/
  role : FramingRole

/-- A program table that keeps what it could look up. -/
structure Ledger where
  /-- The programs, in the order of their discovery. -/
  programs : List Program := []
  /-- The PIDs that carry the map table of a program. -/
  pmtPids : PidSet := {}
  /-- The PIDs that carry an elementary stream. -/
  elementaryPids : PidSet := {}
  /-- The streams, by PID. -/
  streams : SortedMap Pid Ledger.Entry := .empty

namespace Ledger

/-! ## Following sections -/

/-- The entry of a stream that a program lists. -/
def Entry.ofInfo (program : Nat) (s : StreamInfo) : Entry where
  binding := .ofInfo program s
  role := s.codec.role

/-- Follows one entry of the association table. -/
def addProgram (l : Ledger) : PatEntry → Ledger
  | .network _ => l
  | .program number pid =>
    if { number, pid } ∈ l.programs then l
    else if pid = .pat ∨ l.elementaryPids.isMarked pid then l
    else { l with
      programs := l.programs ++ [{ number, pid }]
      pmtPids := l.pmtPids.mark pid }

/-- Follows one entry of a map table, and gives it back if it is new. -/
def addStream (l : Ledger) (e : Entry) : Ledger × List Entry :=
  if l.pmtPids.isMarked e.binding.pid ∨ e.binding.pid = .pat then (l, [])
  else
    match l.streams.get? e.binding.pid with
    | some _ => (l, [])
    | none =>
      ({ l with
          elementaryPids := l.elementaryPids.mark e.binding.pid
          streams := l.streams.insert e.binding.pid e }, [e])

/-- Follows a section, and gives the entries that are new. -/
def follow (l : Ledger) : ReadSection → Ledger × List Entry
  | .pat content _ => (content.entries.foldl addProgram l, [])
  | .pmt _ program content _ => gather addStream l (content.streams.1.map (Entry.ofInfo program))

/-- Follows sections one after the other. -/
def followAll (l : Ledger) (sections : List ReadSection) : Ledger :=
  sections.foldl (fun l s => (l.follow s).1) l

/-! ## In step with a table -/

/-- The entry of a stream. -/
def Entry.of (b : StreamBinding) : Entry where
  binding := b
  role := b.role

/-- The ledger records what the table says. -/
structure Records (l : Ledger) (t : ProgramTable) : Prop where
  /-- The programs are the same. -/
  programs : l.programs = t.programs
  /-- The set has the PIDs on which the table finds programs. -/
  pmtPids : ∀ pid, l.pmtPids.isMarked pid = t.isPmtPid pid
  /-- The set has the PIDs on which the table finds streams. -/
  elementaryPids : ∀ pid, l.elementaryPids.isMarked pid = t.isElementaryPid pid
  /-- The streams are the same, with their roles. -/
  streams : ∀ pid, l.streams.get? pid = (t.binding? pid).map Entry.of

variable {l : Ledger} {t : ProgramTable}

theorem records_empty : ({} : Ledger).Records {} :=
  ⟨rfl, fun _ => rfl, fun _ => rfl, fun _ => rfl⟩

theorem Records.addProgram (h : l.Records t) (entry : PatEntry) :
    (l.addProgram entry).Records (t.addProgram entry).1 := by
  cases entry with
  | network pid => exact h
  | program number pid =>
    unfold Ledger.addProgram ProgramTable.addProgram
    dsimp only
    rw [h.programs, h.elementaryPids]
    split
    · exact h
    · split
      · exact h
      · refine ⟨rfl, fun other => ?_, h.elementaryPids, h.streams⟩
        rw [ProgramTable.isPmtPid_append, ← h.pmtPids, Bool.or_comm]
        rfl

/-- A ledger adds a stream if its PID is free. -/
theorem Records.addStream_eq (h : l.Records t) (b : StreamBinding) :
    l.addStream (.of b) =
      if b.IsFree t then
        ({ l with
            elementaryPids := l.elementaryPids.mark b.pid
            streams := l.streams.insert b.pid (.of b) }, [.of b])
      else (l, []) := by
  have hpid : (Entry.of b).binding.pid = b.pid := rfl
  unfold Ledger.addStream
  rw [hpid, h.pmtPids, h.streams]
  unfold StreamBinding.IsFree
  cases t.isPmtPid b.pid with
  | true => rfl
  | false =>
    by_cases hpat : b.pid = .pat
    · simp [hpat]
    · cases t.binding? b.pid <;> simp [hpat]

/-- Both add the same stream, or none. -/
theorem Records.addStream (h : l.Records t) (b : StreamBinding) :
    (l.addStream (.of b)).1.Records (t.addStream b).1 ∧
      (l.addStream (.of b)).2 =
        ((t.addStream b).2.filterMap Announcement.added?).map Entry.of := by
  rw [h.addStream_eq]
  cases hfree : b.IsFree t with
  | false =>
    obtain ⟨htable, hadded⟩ := ProgramTable.addStream_of_not_isFree hfree
    rw [htable, hadded]
    exact ⟨h, rfl⟩
  | true =>
    obtain ⟨htable, hadded⟩ := ProgramTable.addStream_of_isFree hfree
    rw [htable, hadded]
    refine ⟨⟨h.programs, h.pmtPids, fun pid => ?_, fun pid => ?_⟩, rfl⟩
    · show (decide (b.pid = pid) || l.elementaryPids.isMarked pid) = _
      rw [h.elementaryPids]
      show _ = Option.isSome (ProgramTable.binding? _ pid)
      rw [ProgramTable.binding?_insert]
      by_cases hpid : b.pid = pid
      · simp [hpid]
      · simp [hpid]
        rfl
    · show (l.streams.insert b.pid (.of b)).get? pid = _
      rw [SortedMap.get?_insert, ProgramTable.binding?_insert, h.streams]
      split <;> rfl

/-- **One section.**  The ledger goes on recording the table, and the same streams are new. -/
theorem Records.follow (h : l.Records t) (s : ReadSection) :
    (l.follow s).1.Records (t.follow s).1 ∧ (l.follow s).2 = (t.follow s).2.map Entry.of := by
  cases s with
  | pat content readable =>
    refine ⟨?_, rfl⟩
    show (content.entries.foldl Ledger.addProgram l).Records
      (gather ProgramTable.addProgram t content.entries).1
    induction content.entries generalizing l t with
    | nil => exact h
    | cons entry entries ih =>
      rw [gather_cons]
      exact ih (h.addProgram entry)
  | pmt pmtPid program content readable =>
    have hlisted : content.streams.1.map (Entry.ofInfo program) =
        (content.listed program).map Entry.of := by
      rw [PmtSection.listed, List.map_map]
      rfl
    show (gather Ledger.addStream l (content.streams.1.map (Entry.ofInfo program))).1.Records
        (gather ProgramTable.addStream t (content.listed program)).1 ∧
      (gather Ledger.addStream l (content.streams.1.map (Entry.ofInfo program))).2 =
        ((gather ProgramTable.addStream t (content.listed program)).2.filterMap
          Announcement.added?).map Entry.of
    rw [hlisted]
    induction content.listed program generalizing l t with
    | nil => exact ⟨h, rfl⟩
    | cons b listed ih =>
      obtain ⟨hnext, hadded⟩ := h.addStream b
      obtain ⟨hlast, hothers⟩ := ih hnext
      rw [List.map_cons, gather_cons, gather_cons, List.filterMap_append, List.map_append]
      dsimp only
      rw [hadded, hothers]
      exact ⟨hlast, rfl⟩

theorem records_followAll (h : l.Records t) (sections : List ReadSection) :
    (l.followAll sections).Records (t.followAll sections) := by
  induction sections generalizing l t with
  | nil => exact h
  | cons s sections ih => exact ih (h.follow s).1

/-- There is one way to record a table. -/
theorem Records.unique {l' : Ledger} (h : l.Records t) (h' : l'.Records t) : l = l' := by
  obtain ⟨programs, ⟨pmtPids⟩, ⟨elementaryPids⟩, streams⟩ := l
  obtain ⟨programs', ⟨pmtPids'⟩, ⟨elementaryPids'⟩, streams'⟩ := l'
  obtain rfl : programs = programs' := h.programs.trans h'.programs.symm
  obtain rfl : pmtPids = pmtPids' := funext fun pid => (h.pmtPids pid).trans (h'.pmtPids pid).symm
  obtain rfl : elementaryPids = elementaryPids' :=
    funext fun pid => (h.elementaryPids pid).trans (h'.elementaryPids pid).symm
  obtain rfl : streams = streams' :=
    SortedMap.ext_get? fun pid => (h.streams pid).trans (h'.streams pid).symm
  rfl

/-! ## What is written down twice -/

/-- What is written down twice agrees, and every PID has one use. -/
structure IsConsistent (l : Ledger) : Prop where
  /-- No program is listed twice. -/
  nodup : l.programs.Nodup
  /-- No program has the number zero. -/
  number_ne_zero : ∀ program ∈ l.programs, program.number ≠ 0
  /-- The one set has the PIDs of the programs. -/
  pmtPids : ∀ pid, l.pmtPids.isMarked pid = true ↔ ∃ program ∈ l.programs, program.pid = pid
  /-- The other one has the PIDs of the streams. -/
  elementaryPids : ∀ pid, l.elementaryPids.isMarked pid = true ↔
    ∃ e, l.streams.get? pid = some e
  /-- A stream is listed under its own PID, with the role that its codec asks for. -/
  entry : ∀ {pid e}, l.streams.get? pid = some e →
    e.binding.pid = pid ∧ e.role = e.binding.codec.role
  /-- No PID is in both sets. -/
  apart : ∀ pid, l.pmtPids.isMarked pid = false ∨ l.elementaryPids.isMarked pid = false
  /-- The PID of the association table is in none of them. -/
  pat : l.pmtPids.isMarked .pat = false ∧ l.elementaryPids.isMarked .pat = false

/-- What records a proper table is consistent. -/
theorem Records.isConsistent (h : l.Records t) (ht : t.IsProper) : l.IsConsistent := by
  have hfree : ∀ {pid}, t.binding? pid = none → l.elementaryPids.isMarked pid = false := by
    intro pid hnone
    rw [h.elementaryPids, ProgramTable.isElementaryPid, SortedMap.contains,
      show t.streams.get? pid = none from hnone]
    rfl
  refine ⟨h.programs ▸ ht.nodup, h.programs ▸ ht.number_ne_zero, fun pid => ?_, fun pid => ?_,
    fun {pid e} he => ?_, fun pid => ?_, ?_, ?_⟩
  · rw [h.pmtPids, h.programs]
    exact ProgramTable.isPmtPid_iff
  · rw [h.elementaryPids, h.streams]
    show (t.binding? pid).isSome = true ↔ _
    cases t.binding? pid <;> simp
  · rw [h.streams] at he
    obtain ⟨b, hb, rfl⟩ := Option.map_eq_some_iff.mp he
    exact ⟨ht.sound.pid_eq hb, rfl⟩
  · cases hb : t.binding? pid with
    | none => exact .inr (hfree hb)
    | some b => exact .inl ((h.pmtPids pid).trans (ht.sound.apart hb).1)
  · exact (h.pmtPids .pat).trans ht.sound.isPmtPid_pat
  · cases hb : t.binding? .pat with
    | none => exact hfree hb
    | some b => exact absurd rfl (ht.sound.apart hb).2

/-- **Ledgers and tables after any sections.**  Both have recorded the same, and the ledger is
consistent.  A section that comes next adds what it is the first to list, in both, and changes
nothing else; and if it was followed before, it changes nothing at all. -/
theorem consistent_followAll (sections : List ReadSection) :
    let l := ({} : Ledger).followAll sections
    let t := ({} : ProgramTable).followAll sections
    l.Records t ∧ l.IsConsistent ∧
      (∀ s, t.Adds s ∧ (l.follow s).1.Records (t.follow s).1 ∧
        (l.follow s).2 = (t.follow s).2.map Entry.of) ∧
      ∀ s ∈ sections, t.follow s = (t, []) ∧ l.follow s = (l, []) := by
  intro l t
  have hrecords : l.Records t := records_followAll records_empty sections
  have hproper : t.IsProper := ProgramTable.isProper_followAll ProgramTable.isProper_empty sections
  refine ⟨hrecords, hrecords.isConsistent hproper, fun s => ?_, fun s hs => ?_⟩
  · exact ⟨t.adds_follow s, hrecords.follow s⟩
  · have hsame : t.follow s = (t, []) :=
      ProgramTable.follow_of_isSettled (ProgramTable.isSettled_followAll {} sections s hs)
    obtain ⟨hafter, hadded⟩ := hrecords.follow s
    rw [hsame] at hafter hadded
    exact ⟨hsame, Prod.ext (hafter.unique hrecords) hadded⟩

end Ledger

end TransportStream
