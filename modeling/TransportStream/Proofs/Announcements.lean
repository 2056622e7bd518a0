import TransportStream.Demuxer.Directory
import TransportStream.Proofs.SectionEncoding

/-!
# What sections announce

An entry of a table adds something that is not known yet, or nothing.  So what the program table
knows after a section can be looked up in two places, first in what it knew before and then among
the entries, and the same is true of the states of the PIDs.

The entries here do not contradict what the PIDs are used for: map tables are not on the PID of the
association table or on those of streams, and streams not on the PIDs of tables.

* `ProgramTable.isPmtPid_applyPat`: the map tables announced.
* `ProgramTable.gather_addStream`: the streams announced, and the new ones among them.
* `Directory.get?_foldl_ensure`: the states of the PIDs.
* `Directory.state?_applyPat`, `state?_applyPmt`: what both come to in the directory.
-/

namespace TransportStream

namespace ProgramTable

variable {t : ProgramTable}

/-! ## Programs -/

theorem isPmtPid_iff {pid : Pid} :
    t.isPmtPid pid = true ↔ ∃ program ∈ t.programs, program.pid = pid := by
  rw [isPmtPid, List.any_eq_true]
  constructor
  · rintro ⟨program, hmem, heq⟩
    exact ⟨program, hmem, of_decide_eq_true heq⟩
  · rintro ⟨program, hmem, heq⟩
    exact ⟨program, hmem, decide_eq_true heq⟩

theorem streams_addProgram (entry : PatEntry) : (t.addProgram entry).1.streams = t.streams := by
  unfold addProgram
  split
  · rfl
  · split
    · rfl
    · split <;> rfl

/-- An entry of an association table announces the map table of its program. -/
theorem isPmtPid_addProgram {e : OutgoingProgram} (hstream : t.binding? e.pid = none)
    (hpat : e.number ≠ 0 → e.pid ≠ .pat) (pid : Pid) :
    (t.addProgram e.entry).1.isPmtPid pid = true ↔
      t.isPmtPid pid = true ∨ (e.number ≠ 0 ∧ e.pid = pid) := by
  by_cases hnumber : e.number = 0
  · rw [OutgoingProgram.entry, if_pos hnumber]
    exact ⟨.inl, fun h => h.resolve_right fun h => h.1 hnumber⟩
  · have hused : ¬ (e.pid = .pat ∨ t.isElementaryPid e.pid = true) := by
      rintro (heq | helementary)
      · exact hpat hnumber heq
      · have hnone : t.streams.get? e.pid = none := hstream
        rw [isElementaryPid, SortedMap.contains, hnone] at helementary
        exact Bool.false_ne_true helementary
    rw [OutgoingProgram.entry, if_neg hnumber, addProgram]
    by_cases hmem : { number := e.number, pid := e.pid } ∈ t.programs
    · rw [if_pos hmem]
      refine ⟨.inl, fun h => h.elim id ?_⟩
      rintro ⟨-, rfl⟩
      exact isPmtPid_iff.mpr ⟨_, hmem, rfl⟩
    · rw [if_neg hmem, if_neg hused, isPmtPid_iff, isPmtPid_iff]
      dsimp only
      constructor
      · rintro ⟨program, hprogram, rfl⟩
        rcases List.mem_append.mp hprogram with hprogram | hprogram
        · exact .inl ⟨program, hprogram, rfl⟩
        · rw [List.mem_singleton.mp hprogram]
          exact .inr ⟨hnumber, rfl⟩
      · rintro (⟨program, hprogram, rfl⟩ | ⟨-, rfl⟩)
        · exact ⟨program, List.mem_append_left _ hprogram, rfl⟩
        · exact ⟨_, List.mem_append_right _ List.mem_cons_self, rfl⟩

theorem streams_applyPat (pat : PatSection) : (t.applyPat pat).1.streams = t.streams := by
  obtain ⟨entries⟩ := pat
  show (gather addProgram t entries).1.streams = t.streams
  induction entries generalizing t with
  | nil => rfl
  | cons entry entries ih =>
    rw [gather_cons]
    dsimp only
    rw [ih, streams_addProgram]

/-- A section of an association table announces the map tables of its programs. -/
theorem isPmtPid_applyPat {entries : List OutgoingProgram}
    (hstream : ∀ e ∈ entries, t.binding? e.pid = none)
    (hpat : ∀ e ∈ entries, e.number ≠ 0 → e.pid ≠ .pat) (pid : Pid) :
    (t.applyPat ⟨entries.map OutgoingProgram.entry⟩).1.isPmtPid pid = true ↔
      t.isPmtPid pid = true ∨ ∃ e ∈ entries, e.number ≠ 0 ∧ e.pid = pid := by
  show (gather addProgram t (entries.map OutgoingProgram.entry)).1.isPmtPid pid = true ↔ _
  induction entries generalizing t with
  | nil => simp
  | cons e entries ih =>
    obtain ⟨hfirst, hstream⟩ := List.forall_mem_cons.mp hstream
    obtain ⟨hhead, hpat⟩ := List.forall_mem_cons.mp hpat
    have hstream' : ∀ e' ∈ entries, (t.addProgram e.entry).1.binding? e'.pid = none := by
      intro e' he'
      rw [binding?, streams_addProgram]
      exact hstream e' he'
    rw [List.map_cons, gather_cons]
    dsimp only
    rw [ih hstream' hpat, isPmtPid_addProgram hfirst hhead, or_assoc]
    simp only [List.mem_cons, or_and_right, exists_or, exists_eq_left]

/-! ## Streams -/

/-- The streams of a section can be announced: their PIDs do not carry tables. -/
def Admits (t : ProgramTable) (bindings : List StreamBinding) : Prop :=
  ∀ b ∈ bindings, t.isPmtPid b.pid = false ∧ b.pid ≠ .pat

/-- A stream is added unless it is known. -/
theorem added?_judge {b : StreamBinding} (h : t.isPmtPid b.pid = false ∧ b.pid ≠ .pat) :
    (t.judge b).added? = if (t.binding? b.pid).isSome then none else some b := by
  have htable : ¬ (t.isPmtPid b.pid = true ∨ b.pid = .pat) := by
    rintro (hpmt | hpat)
    · rw [h.1] at hpmt
      exact Bool.false_ne_true hpmt
    · exact h.2 hpat
  rw [judge, if_neg htable]
  cases t.binding? b.pid with
  | none => rfl
  | some known =>
    dsimp only
    by_cases hcodec : known.codec = b.codec
    · rw [if_pos hcodec]
      rfl
    · rw [if_neg hcodec]
      rfl

theorem addStream_of_some {b known : StreamBinding}
    (h : t.isPmtPid b.pid = false ∧ b.pid ≠ .pat) (hknown : t.binding? b.pid = some known) :
    (t.addStream b).1 = t ∧ (t.addStream b).2.filterMap Announcement.added? = [] := by
  have hadded : (t.judge b).added? = none := by
    rw [added?_judge h, hknown]
    rfl
  unfold addStream
  simp only [hadded, List.filterMap_cons, List.filterMap_nil, and_self]

theorem addStream_of_none {b : StreamBinding} (h : t.isPmtPid b.pid = false ∧ b.pid ≠ .pat)
    (hnone : t.binding? b.pid = none) :
    (t.addStream b).1 = { t with streams := t.streams.insert b.pid b } ∧
      (t.addStream b).2.filterMap Announcement.added? = [b] := by
  have hadded : (t.judge b).added? = some b := by
    rw [added?_judge h, hnone]
    rfl
  unfold addStream
  simp only [hadded, List.filterMap_cons, List.filterMap_nil, and_self]

/-- The programs do not change. -/
theorem programs_addStream (b : StreamBinding) : (t.addStream b).1.programs = t.programs := by
  unfold addStream
  dsimp only
  split <;> rfl

theorem programs_gather (bindings : List StreamBinding) :
    (gather addStream t bindings).1.programs = t.programs := by
  induction bindings generalizing t with
  | nil => rfl
  | cons b bindings ih =>
    rw [gather_cons]
    dsimp only
    rw [ih, programs_addStream]

/-- The streams known after a section, and those that it has added. -/
theorem gather_addStream {bindings : List StreamBinding} (h : t.Admits bindings) (pid : Pid) :
    (gather addStream t bindings).1.binding? pid =
        (t.binding? pid).or (bindings.find? fun b => b.pid = pid) ∧
      ((gather addStream t bindings).2.filterMap Announcement.added?).find? (fun b => b.pid = pid) =
        if (t.binding? pid).isSome then none else bindings.find? fun b => b.pid = pid := by
  induction bindings generalizing t with
  | nil => simp
  | cons b bindings ih =>
    obtain ⟨hb, hothers⟩ := List.forall_mem_cons.mp h
    have hadmits : (t.addStream b).1.Admits bindings := by
      intro other hother
      rw [isPmtPid, programs_addStream]
      exact hothers other hother
    obtain ⟨hbinding, hadded⟩ := ih hadmits
    rw [gather_cons, List.filterMap_append, List.find?_append]
    dsimp only
    rw [hbinding, hadded]
    cases hknown : t.binding? b.pid with
    | some known =>
      obtain ⟨htable, hnew⟩ := addStream_of_some hb hknown
      rw [htable, hnew, List.find?_nil, Option.none_or]
      by_cases hpid : b.pid = pid
      · subst hpid
        simp [hknown]
      · rw [List.find?_cons_of_neg (by simpa using hpid)]
        exact ⟨rfl, rfl⟩
    | none =>
      obtain ⟨htable, hnew⟩ := addStream_of_none hb hknown
      have hlookup : ({ t with streams := t.streams.insert b.pid b } : ProgramTable).binding? pid =
          if b.pid = pid then some b else t.binding? pid := SortedMap.get?_insert _ _ _ _
      rw [htable, hnew, hlookup]
      by_cases hpid : b.pid = pid
      · subst hpid
        simp [hknown]
      · simp [hpid]

end ProgramTable

/-! ## The directory -/

namespace Directory

variable {d : Directory}

/-- The states after some PIDs have been given one, unless they have one: first those that were
there, then the first that was meant for the PID. -/
theorem get?_foldl_ensure {β : Type} (key : β → Pid) (value : β → PidState) (bs : List β)
    (states : SortedMap Pid PidState) (pid : Pid) :
    (bs.foldl (fun states b => ensure states (key b) (value b)) states).get? pid =
      (states.get? pid).or ((bs.find? fun b => key b = pid).map value) := by
  induction bs generalizing states with
  | nil => simp
  | cons b bs ih =>
    have hensure : (ensure states (key b) (value b)).get? pid =
        (states.get? pid).or (if key b = pid then some (value b) else none) := by
      unfold ensure SortedMap.contains
      cases hstate : states.get? (key b) with
      | some state =>
        by_cases hpid : key b = pid
        · subst hpid
          simp [hstate]
        · simp [hpid]
      | none =>
        by_cases hpid : key b = pid
        · subst hpid
          simp [hstate]
        · simp [hpid, SortedMap.get?_insert_of_ne]
    rw [List.foldl_cons, ih, hensure, Option.or_assoc]
    by_cases hpid : key b = pid <;> simp [hpid]

/-- A PID that has no state gets one if it carries a map table. -/
theorem state?_applyPat (pat : PatSection) (pid : Pid) :
    (d.applyPat pat).1.state? pid = (d.state? pid).or
      (if (d.table.applyPat pat).1.isPmtPid pid then some (.psi { kind := .pmt }) else none) := by
  have hfold := get?_foldl_ensure (fun program : Program => program.pid)
    (fun _ => .psi { kind := .pmt }) (d.table.applyPat pat).1.programs d.states pid
  refine hfold.trans (congrArg _ ?_)
  cases hfind : (d.table.applyPat pat).1.programs.find? fun program => program.pid = pid with
  | some program =>
    have hpmt : (d.table.applyPat pat).1.isPmtPid pid = true :=
      ProgramTable.isPmtPid_iff.mpr
        ⟨program, List.mem_of_find?_eq_some hfind, by simpa using List.find?_some hfind⟩
    rw [if_pos hpmt]
    rfl
  | none =>
    have hpmt : ¬ (d.table.applyPat pat).1.isPmtPid pid = true := by
      rw [ProgramTable.isPmtPid_iff]
      rintro ⟨program, hmem, hpid⟩
      exact List.find?_eq_none.mp hfind program hmem (decide_eq_true hpid)
    rw [if_neg hpmt]
    rfl

/-- What the entries of a map table announce. -/
def announced (program : Nat) (map : OutgoingMap) : List StreamBinding :=
  map.streams.map fun e => .ofInfo program e.entry

/-- The section that a map table is decoded as. -/
def sectionOf (map : OutgoingMap) : PmtSection where
  pcrPid := map.pcrPid
  programInfo := map.programInfo
  streamInfo := map.streams.flatMap OutgoingStream.bytes

variable {pmtPid : Pid} {program : Nat} {map : OutgoingMap}

theorem table_applyPmt :
    (d.applyPmt pmtPid program (sectionOf map)).1.table =
      (gather ProgramTable.addStream d.table (announced program map)).1 := by
  show (d.table.applyPmt pmtPid program (sectionOf map)).table = _
  rw [ProgramTable.applyPmt, PmtSection.streams, sectionOf, OutgoingStream.listOfBytes_bytes,
    announced]
  dsimp only
  rw [List.map_map]
  rfl

/-- The programs stay as they are, and the streams known are those that were, and those
announced. -/
theorem binding?_applyPmt (h : d.table.Admits (announced program map)) (pid : Pid) :
    (d.applyPmt pmtPid program (sectionOf map)).1.table.binding? pid =
      (d.table.binding? pid).or ((announced program map).find? fun b => b.pid = pid) := by
  rw [table_applyPmt]
  exact (ProgramTable.gather_addStream h pid).1

theorem isPmtPid_applyPmt (pid : Pid) :
    (d.applyPmt pmtPid program (sectionOf map)).1.table.isPmtPid pid = d.table.isPmtPid pid := by
  rw [table_applyPmt, ProgramTable.isPmtPid, ProgramTable.programs_gather]
  rfl

/-- A PID that has no state gets one if its stream is new. -/
theorem state?_applyPmt (h : d.table.Admits (announced program map)) (pid : Pid) :
    (d.applyPmt pmtPid program (sectionOf map)).1.state? pid = (d.state? pid).or
      (if (d.table.binding? pid).isSome then none
        else ((announced program map).find? fun b => b.pid = pid).map .ofBinding) := by
  have hadded : (d.table.applyPmt pmtPid program (sectionOf map)).added =
      (gather ProgramTable.addStream d.table (announced program map)).2.filterMap
        Announcement.added? := by
    rw [ProgramTable.applyPmt, PmtSection.streams, sectionOf, OutgoingStream.listOfBytes_bytes,
      announced]
    dsimp only
    rw [List.map_map]
    rfl
  refine (get?_foldl_ensure (fun b : StreamBinding => b.pid) .ofBinding _ d.states pid).trans ?_
  rw [hadded, (ProgramTable.gather_addStream h pid).2]
  split <;> rfl

end Directory

end TransportStream
