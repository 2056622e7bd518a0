import TransportStream.Proofs.Announcements

/-!
# How the program table grows

Sections can say anything, so what an entry does to the table depends on the entry and on what is
known.  All that can happen is that a program is appended or that a stream gets its PID; everything
else leaves the table as it is (`addProgram_cases`, `addStream_cases`).  Whatever sections are
followed, two things are the outcome.

* `ProgramTable.IsSound`: a PID has one use.  Tables and streams are on different PIDs, and neither
  map tables nor streams are on the PID of the association table.
* `ProgramTable.Extends`: what was announced stays announced.
-/

namespace TransportStream

namespace ProgramTable

/-- A PID has one use. -/
structure IsSound (t : ProgramTable) : Prop where
  /-- The PID of the association table carries no map table. -/
  isPmtPid_pat : t.isPmtPid .pat = false
  /-- A stream is listed under its own PID. -/
  pid_eq : ∀ {pid b}, t.binding? pid = some b → b.pid = pid
  /-- The PIDs of streams carry no tables. -/
  apart : ∀ {pid b}, t.binding? pid = some b → t.isPmtPid pid = false ∧ pid ≠ .pat

/-- All that a table has announced has been announced by the other one as well. -/
structure Extends (t t' : ProgramTable) : Prop where
  /-- Programs are only appended. -/
  programs : t.programs <+: t'.programs
  /-- Streams stay as they are. -/
  streams : ∀ {pid b}, t.binding? pid = some b → t'.binding? pid = some b

variable {t t' t'' : ProgramTable}

theorem Extends.refl (t : ProgramTable) : t.Extends t :=
  ⟨List.prefix_refl _, id⟩

theorem Extends.trans (h : t.Extends t') (h' : t'.Extends t'') : t.Extends t'' :=
  ⟨h.programs.trans h'.programs, fun hb => h'.streams (h.streams hb)⟩

/-- A PID that carries a map table goes on carrying it. -/
theorem Extends.isPmtPid (h : t.Extends t') {pid : Pid} (hpid : t.isPmtPid pid = true) :
    t'.isPmtPid pid = true := by
  obtain ⟨program, hmem, heq⟩ := isPmtPid_iff.mp hpid
  exact isPmtPid_iff.mpr ⟨program, h.programs.subset hmem, heq⟩

/-- Nothing is announced at first. -/
theorem isSound_empty : ({} : ProgramTable).IsSound where
  isPmtPid_pat := rfl
  pid_eq h := by cases h
  apart h := by cases h

/-! ## Programs -/

/-- An entry of an association table appends a program that is not known, on a PID that is free for
it, or does nothing. -/
theorem addProgram_cases (t : ProgramTable) (entry : PatEntry) :
    (t.addProgram entry).1 = t ∨
    ∃ number pid, entry = .program number pid ∧ { number, pid } ∉ t.programs ∧ pid ≠ .pat ∧
      t.binding? pid = none ∧
      (t.addProgram entry).1 = { t with programs := t.programs ++ [{ number, pid }] } := by
  cases entry with
  | network pid => exact .inl rfl
  | program number pid =>
    unfold addProgram
    dsimp only
    split
    · exact .inl rfl
    · next hunknown =>
      split
      · exact .inl rfl
      · next hused =>
        rw [not_or] at hused
        refine .inr ⟨number, pid, rfl, hunknown, hused.1, ?_, rfl⟩
        rw [isElementaryPid, SortedMap.contains, Bool.not_eq_true,
          Option.isSome_eq_false_iff] at hused
        exact Option.isNone_iff_eq_none.mp hused.2

theorem isPmtPid_append (t : ProgramTable) (program : Program) (pid : Pid) :
    ({ t with programs := t.programs ++ [program] } : ProgramTable).isPmtPid pid =
      (t.isPmtPid pid || decide (program.pid = pid)) := by
  simp [isPmtPid]

theorem IsSound.addProgram (h : t.IsSound) (entry : PatEntry) : (t.addProgram entry).1.IsSound := by
  rcases t.addProgram_cases entry with hsame | ⟨number, pid, -, -, hpat, hfree, hadded⟩
  · rwa [hsame]
  · rw [hadded]
    refine ⟨?_, h.pid_eq, fun {pid' b} hb => ⟨?_, (h.apart hb).2⟩⟩
    · rw [isPmtPid_append, h.isPmtPid_pat, Bool.false_or, decide_eq_false_iff_not]
      exact hpat
    · rw [isPmtPid_append, (h.apart hb).1, Bool.false_or, decide_eq_false_iff_not]
      rintro rfl
      rw [show t.binding? pid = some b from hb] at hfree
      cases hfree

theorem extends_addProgram (t : ProgramTable) (entry : PatEntry) :
    t.Extends (t.addProgram entry).1 := by
  rcases t.addProgram_cases entry with hsame | ⟨number, pid, -, -, -, -, hadded⟩
  · rw [hsame]
    exact .refl t
  · rw [hadded]
    exact ⟨List.prefix_append _ _, id⟩

theorem IsSound.applyPat (h : t.IsSound) (pat : PatSection) : (t.applyPat pat).1.IsSound :=
  gather_of_invariant (P := IsSound) (fun _ entry hs => hs.addProgram entry) h pat.entries

theorem extends_applyPat (t : ProgramTable) (pat : PatSection) : t.Extends (t.applyPat pat).1 :=
  gather_of_invariant (P := t.Extends)
    (fun s entry hs => hs.trans (s.extends_addProgram entry)) (.refl t) pat.entries

/-! ## Streams -/

/-- An entry of a map table gives a stream its PID, if that is free, or does nothing. -/
theorem addStream_cases (t : ProgramTable) (b : StreamBinding) :
    ((t.addStream b).1 = t ∧ (t.addStream b).2.filterMap Announcement.added? = []) ∨
    (t.isPmtPid b.pid = false ∧ b.pid ≠ .pat ∧ t.binding? b.pid = none ∧
      (t.addStream b).1 = { t with streams := t.streams.insert b.pid b } ∧
      (t.addStream b).2.filterMap Announcement.added? = [b]) := by
  by_cases hfree : t.isPmtPid b.pid = false ∧ b.pid ≠ .pat
  · cases hknown : t.binding? b.pid with
    | some known => exact .inl (addStream_of_some hfree hknown)
    | none => exact .inr ⟨hfree.1, hfree.2, rfl, addStream_of_none hfree hknown⟩
  · have htable : t.isPmtPid b.pid = true ∨ b.pid = .pat := by
      rw [Classical.not_and_iff_not_or_not, Bool.not_eq_false, ne_eq,
        Decidable.not_not] at hfree
      exact hfree
    have hjudge : t.judge b = .onTablePid b := by rw [judge, if_pos htable]
    refine .inl ?_
    unfold addStream
    rw [hjudge]
    exact ⟨rfl, rfl⟩

theorem binding?_insert (t : ProgramTable) (b : StreamBinding) (pid : Pid) :
    ({ t with streams := t.streams.insert b.pid b } : ProgramTable).binding? pid =
      if b.pid = pid then some b else t.binding? pid :=
  SortedMap.get?_insert _ _ _ _

theorem IsSound.addStream (h : t.IsSound) (b : StreamBinding) : (t.addStream b).1.IsSound := by
  rcases t.addStream_cases b with ⟨hsame, -⟩ | ⟨htable, hpat, -, hadded, -⟩
  · rwa [hsame]
  · rw [hadded]
    refine ⟨h.isPmtPid_pat, fun {pid c} hc => ?_, fun {pid c} hc => ?_⟩
    · rw [binding?_insert] at hc
      split at hc
      · next heq => exact Option.some.inj hc ▸ heq
      · exact h.pid_eq hc
    · rw [binding?_insert] at hc
      split at hc
      · next heq => exact heq ▸ ⟨htable, hpat⟩
      · exact h.apart hc

theorem extends_addStream (t : ProgramTable) (b : StreamBinding) :
    t.Extends (t.addStream b).1 := by
  rcases t.addStream_cases b with ⟨hsame, -⟩ | ⟨-, -, hfree, hadded, -⟩
  · rw [hsame]
    exact .refl t
  · rw [hadded]
    refine ⟨List.prefix_refl _, fun {pid c} hc => ?_⟩
    rw [binding?_insert, if_neg ?_]
    · exact hc
    · rintro rfl
      rw [hfree] at hc
      cases hc

/-- A PID is bound to what it was bound to before, or else to the stream that is added on it. -/
theorem binding?_gather (t : ProgramTable) (bindings : List StreamBinding) (pid : Pid) :
    (gather addStream t bindings).1.binding? pid =
      (t.binding? pid).or
        (((gather addStream t bindings).2.filterMap Announcement.added?).find?
          fun b => b.pid = pid) := by
  induction bindings generalizing t with
  | nil => simp
  | cons b bindings ih =>
    have hothers := ih (t.addStream b).1
    rw [gather_cons, List.filterMap_append, List.find?_append]
    dsimp only
    rw [hothers]
    rcases t.addStream_cases b with ⟨hsame, hnew⟩ | ⟨-, -, hfree, hadded, hnew⟩
    · rw [hsame, hnew, List.find?_nil, Option.none_or]
    · rw [hadded, hnew, binding?_insert]
      by_cases hpid : b.pid = pid
      · have hfind : [b].find? (fun b => b.pid = pid) = some b := by simp [hpid]
        rw [hpid] at hfree
        rw [if_pos hpid, hfind, hfree, Option.none_or]
      · have hfind : [b].find? (fun b => b.pid = pid) = none := by simp [hpid]
        rw [if_neg hpid, hfind, Option.none_or]

variable (pmtPid : Pid) (program : Nat) (pmt : PmtSection)

theorem IsSound.applyPmt (h : t.IsSound) : (t.applyPmt pmtPid program pmt).table.IsSound :=
  gather_of_invariant (P := IsSound) (fun _ b hs => hs.addStream b) h _

theorem extends_applyPmt (t : ProgramTable) : t.Extends (t.applyPmt pmtPid program pmt).table :=
  gather_of_invariant (P := t.Extends) (fun s b hs => hs.trans (s.extends_addStream b)) (.refl t) _

theorem isPmtPid_applyPmt (t : ProgramTable) (pid : Pid) :
    (t.applyPmt pmtPid program pmt).table.isPmtPid pid = t.isPmtPid pid :=
  congrArg (fun programs : List Program => programs.any (·.pid = pid)) (programs_gather _)

/-- A PID that was not bound before is bound to the stream that a section adds there, if any. -/
theorem binding?_applyPmt (t : ProgramTable) (pid : Pid) :
    (t.applyPmt pmtPid program pmt).table.binding? pid =
      (t.binding? pid).or ((t.applyPmt pmtPid program pmt).added.find? fun b => b.pid = pid) :=
  binding?_gather t _ pid

end ProgramTable

end TransportStream
