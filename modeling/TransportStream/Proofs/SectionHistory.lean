import TransportStream.Proofs.TableGrowth

/-!
# Tables that have followed sections

What sections say can be repeated, contradictory, or refer to PIDs that are in use.  A table that
follows them stays consistent all the same, and it matters when a section came first, not how often
it came: once an entry was judged, whatever followed it cannot change the judgement.  An entry that
was added is known, and one that was refused finds its PID used for something else, for good.

* `ReadSection`: a section that can be read, and `ProgramTable.follow`, what comes of it.
* `ProgramTable.IsProper`: no program is listed twice, none has the number zero, and a PID has one
  use.
* `StreamBinding.firstOnPids`: of the streams in a listing, the first one on each PID.
* `ProgramTable.added_applyPmt`: the streams that are new are those of them whose PIDs are free.
* `ReadSection.IsSettled`: a section has nothing to add any more.
* `ProgramTable.isSettled_followAll`: that is so for all sections that were followed.
-/

namespace TransportStream

/-! ## Sections -/

/-- A section that can be read, with what is known about where it came from. -/
inductive ReadSection where
  /-- A section of the association table. -/
  | pat (content : PatSection) (readable : ∃ body, PatSection.ofBytes body = .ok content)
  /-- A section of the map table of a program, received on a PID. -/
  | pmt (pmtPid : Pid) (program : Nat) (content : PmtSection)
    (readable : ∃ body, PmtSection.ofBytes body = .ok content)

/-- The streams that a section of the map table of a program lists. -/
def PmtSection.listed (content : PmtSection) (program : Nat) : List StreamBinding :=
  content.streams.1.map (StreamBinding.ofInfo program)

/-- The streams that a section lists. -/
def ReadSection.listed : ReadSection → List StreamBinding
  | .pat _ _ => []
  | .pmt _ program content _ => content.listed program

namespace ProgramTable

/-- Follows a section, and gives the streams that are new. -/
def follow (t : ProgramTable) : ReadSection → ProgramTable × List StreamBinding
  | .pat content _ => ((t.applyPat content).1, [])
  | .pmt pmtPid program content _ =>
    ((t.applyPmt pmtPid program content).table, (t.applyPmt pmtPid program content).added)

/-- Follows sections one after the other. -/
def followAll (t : ProgramTable) (sections : List ReadSection) : ProgramTable :=
  sections.foldl (fun t s => (t.follow s).1) t

variable {t t' : ProgramTable}

theorem extends_follow (t : ProgramTable) (s : ReadSection) : t.Extends (t.follow s).1 := by
  cases s with
  | pat content readable => exact t.extends_applyPat content
  | pmt pmtPid program content readable => exact extends_applyPmt pmtPid program content t

/-! ## What is always so -/

/-- No program is listed twice, none has the number zero, and every PID has one use. -/
structure IsProper (t : ProgramTable) : Prop where
  /-- No program is listed twice. -/
  nodup : t.programs.Nodup
  /-- The number zero stands for something else. -/
  number_ne_zero : ∀ program ∈ t.programs, program.number ≠ 0
  /-- A PID has one use. -/
  sound : t.IsSound

theorem isProper_empty : ({} : ProgramTable).IsProper :=
  ⟨.nil, fun _ h => absurd h List.not_mem_nil, isSound_empty⟩

end ProgramTable

/-- What is read as an item stands somewhere among the bytes. -/
theorem exists_read_of_mem_readItems {α : Type} {read : ItemReader α} {bytes : Bytes} {item : α}
    (h : item ∈ (readItems read bytes).1) : ∃ bytes rest, read bytes = some (item, rest) := by
  match hread : read bytes with
  | none =>
    rw [readItems_of_none hread] at h
    cases h
  | some (first, rest) =>
    rw [readItems_of_some hread] at h
    rcases List.mem_cons.mp h with rfl | h
    · exact ⟨bytes, rest, hread⟩
    · exact exists_read_of_mem_readItems h
termination_by bytes.length
decreasing_by exact rest.2

/-- An entry for a program has a number that is not zero. -/
def PatEntry.IsNumbered (entry : PatEntry) : Prop :=
  ∀ number pid, entry = .program number pid → number ≠ 0

/-- The number zero is read as something else than a program. -/
theorem PatSection.isNumbered {content : PatSection}
    (h : ∃ body, PatSection.ofBytes body = .ok content) {entry : PatEntry}
    (hentry : entry ∈ content.entries) : entry.IsNumbered := by
  rintro number pid rfl
  obtain ⟨body, hread⟩ := h
  unfold ofBytes at hread
  split at hread
  · cases hread
    obtain ⟨bytes, rest, hitem⟩ := exists_read_of_mem_readItems hentry
    unfold PatEntry.read at hitem
    split at hitem
    · obtain ⟨hfields, -⟩ := Prod.mk.inj (Option.some.inj hitem)
      unfold PatEntry.ofFields at hfields
      split at hfields
      · cases hfields
      · next hnumber =>
        cases hfields
        exact hnumber
    · cases hitem
  · cases hread

namespace ProgramTable

variable {t t' : ProgramTable}

theorem IsProper.addProgram (h : t.IsProper) {entry : PatEntry}
    (hnumbered : entry.IsNumbered) : (t.addProgram entry).1.IsProper := by
  have hsound := h.sound.addProgram entry
  rcases t.addProgram_cases entry with hsame | ⟨number, pid, rfl, hnew, -, -, hadded⟩
  · rwa [hsame]
  · rw [hadded] at hsound ⊢
    refine ⟨?_, fun program hprogram => ?_, hsound⟩
    · refine List.nodup_append.mpr ⟨h.nodup, List.pairwise_singleton _ _, ?_⟩
      rintro program hprogram other hother rfl
      exact hnew (List.mem_singleton.mp hother ▸ hprogram)
    · rcases List.mem_append.mp hprogram with hprogram | hprogram
      · exact h.number_ne_zero program hprogram
      · rw [List.mem_singleton.mp hprogram]
        exact hnumbered number pid rfl

/-- **What is always so.**  A section keeps it. -/
theorem IsProper.follow (h : t.IsProper) (s : ReadSection) : (t.follow s).1.IsProper := by
  cases s with
  | pmt pmtPid program content readable =>
    have hprograms : (t.applyPmt pmtPid program content).table.programs = t.programs :=
      programs_gather _
    refine ⟨?_, ?_, h.sound.applyPmt pmtPid program content⟩
    · exact hprograms ▸ h.nodup
    · exact hprograms ▸ h.number_ne_zero
  | pat content readable =>
    have hnumbered : ∀ entry ∈ content.entries, entry.IsNumbered :=
      fun entry => PatSection.isNumbered readable
    show (gather ProgramTable.addProgram t content.entries).1.IsProper
    generalize content.entries = entries at hnumbered
    induction entries generalizing t with
    | nil => exact h
    | cons entry entries ih =>
      obtain ⟨hfirst, hothers⟩ := List.forall_mem_cons.mp hnumbered
      rw [gather_cons]
      exact ih (h.addProgram hfirst) hothers

theorem isProper_followAll (h : t.IsProper) (sections : List ReadSection) :
    (t.followAll sections).IsProper := by
  induction sections generalizing t with
  | nil => exact h
  | cons s sections ih => exact ih (h.follow s)

end ProgramTable

/-! ## What is new -/

/-- The PID of the stream is not in use. -/
def StreamBinding.IsFree (t : ProgramTable) (b : StreamBinding) : Bool :=
  !t.isPmtPid b.pid && b.pid != .pat && (t.binding? b.pid).isNone

/-- Of the streams in a listing, the first one on each PID. -/
def StreamBinding.firstOnPids : List StreamBinding → List StreamBinding
  | [] => []
  | b :: listed => b :: (firstOnPids listed).filter fun c => c.pid ≠ b.pid

theorem StreamBinding.pairwise_firstOnPids (listed : List StreamBinding) :
    (firstOnPids listed).Pairwise fun b c => b.pid ≠ c.pid := by
  induction listed with
  | nil => exact .nil
  | cons b listed ih =>
    refine List.pairwise_cons.mpr ⟨fun c hc => ?_, ih.filter _⟩
    exact (of_decide_eq_true (List.mem_filter.mp hc).2).symm

/-- If no two streams are on the same PID, a stream is found on its PID. -/
theorem StreamBinding.find?_pid {listed : List StreamBinding}
    (h : listed.Pairwise fun b c => b.pid ≠ c.pid) {b : StreamBinding} (hb : b ∈ listed) :
    listed.find? (fun c => c.pid = b.pid) = some b := by
  induction listed with
  | nil => cases hb
  | cons first listed ih =>
    obtain ⟨hfirst, hothers⟩ := List.pairwise_cons.mp h
    rcases List.mem_cons.mp hb with rfl | hb
    · exact List.find?_cons_of_pos (decide_eq_true rfl)
    · rw [List.find?_cons_of_neg (by simpa using hfirst b hb), ih hothers hb]

namespace ProgramTable

variable {t t' : ProgramTable}

theorem isFree_iff {b : StreamBinding} :
    b.IsFree t = true ↔ t.isPmtPid b.pid = false ∧ b.pid ≠ .pat ∧ t.binding? b.pid = none := by
  unfold StreamBinding.IsFree
  rw [Bool.and_eq_true, Bool.and_eq_true, Bool.not_eq_true', bne_iff_ne,
    Option.isNone_iff_eq_none, and_assoc]

theorem isFree_of_pid_eq {b c : StreamBinding} (h : c.pid = b.pid) (t : ProgramTable) :
    c.IsFree t = b.IsFree t := by
  unfold StreamBinding.IsFree
  rw [h]

/-- A stream whose PID is free is added, and takes it. -/
theorem addStream_of_isFree {b : StreamBinding} (h : b.IsFree t = true) :
    (t.addStream b).1 = { t with streams := t.streams.insert b.pid b } ∧
      (t.addStream b).2.filterMap Announcement.added? = [b] := by
  obtain ⟨hpmt, hpat, hnone⟩ := isFree_iff.mp h
  exact addStream_of_none ⟨hpmt, hpat⟩ hnone

/-- Any other stream is not. -/
theorem addStream_of_not_isFree {b : StreamBinding} (h : b.IsFree t = false) :
    (t.addStream b).1 = t ∧ (t.addStream b).2.filterMap Announcement.added? = [] := by
  rcases t.addStream_cases b with hsame | ⟨hpmt, hpat, hnone, -⟩
  · exact hsame
  · rw [isFree_iff.mpr ⟨hpmt, hpat, hnone⟩] at h
    cases h

/-- Once a stream has its PID, that PID is not free, and all others are as before. -/
theorem isFree_insert (t : ProgramTable) (b c : StreamBinding) :
    c.IsFree { t with streams := t.streams.insert b.pid b } = (c.IsFree t && c.pid ≠ b.pid) := by
  unfold StreamBinding.IsFree
  rw [binding?_insert]
  by_cases hpid : c.pid = b.pid
  · simp [hpid]
  · simp [hpid, Ne.symm hpid]
    rfl

/-- The streams that entries add are the first ones on their PIDs, where these are free. -/
theorem added_gather (t : ProgramTable) (listed : List StreamBinding) :
    (gather addStream t listed).2.filterMap Announcement.added? =
      (StreamBinding.firstOnPids listed).filter fun b => b.IsFree t := by
  induction listed generalizing t with
  | nil => rfl
  | cons b listed ih =>
    rw [gather_cons, List.filterMap_append, ih, StreamBinding.firstOnPids]
    cases hfree : b.IsFree t with
    | true =>
      obtain ⟨htable, hadded⟩ := addStream_of_isFree hfree
      rw [htable, hadded, List.filter_cons_of_pos hfree, List.filter_filter]
      refine congrArg (b :: ·) (List.filter_congr fun c _ => ?_)
      exact isFree_insert t b c
    | false =>
      obtain ⟨htable, hadded⟩ := addStream_of_not_isFree hfree
      have hdropped : ¬ b.IsFree t = true := by
        rw [hfree]
        exact Bool.false_ne_true
      rw [htable, hadded, List.filter_cons_of_neg hdropped, List.filter_filter]
      refine List.filter_congr fun c _ => ?_
      by_cases hpid : c.pid = b.pid
      · rw [isFree_of_pid_eq hpid, hfree]
        rfl
      · simp [hpid]

variable (pmtPid : Pid) (program : Nat) (content : PmtSection)

/-- **What is new.**  A section adds the streams that it lists first on their PIDs, where these are
free. -/
theorem added_applyPmt (t : ProgramTable) :
    (t.applyPmt pmtPid program content).added =
      (StreamBinding.firstOnPids (content.listed program)).filter fun b => b.IsFree t :=
  added_gather t _

/-- No two of them are on the same PID. -/
theorem pairwise_added_applyPmt (t : ProgramTable) :
    (t.applyPmt pmtPid program content).added.Pairwise fun b c => b.pid ≠ c.pid := by
  rw [added_applyPmt]
  exact (StreamBinding.pairwise_firstOnPids _).filter _

/-- They are exactly those that have got their PIDs with the section. -/
theorem mem_added_applyPmt (t : ProgramTable) (b : StreamBinding) :
    b ∈ (t.applyPmt pmtPid program content).added ↔
      t.binding? b.pid = none ∧
        (t.applyPmt pmtPid program content).table.binding? b.pid = some b := by
  rw [binding?_applyPmt]
  constructor
  · intro hb
    have hfree : b.IsFree t = true := by
      rw [added_applyPmt] at hb
      exact (List.mem_filter.mp hb).2
    have hnone : t.binding? b.pid = none := (isFree_iff.mp hfree).2.2
    rw [hnone, Option.none_or]
    exact ⟨rfl, StreamBinding.find?_pid (t.pairwise_added_applyPmt pmtPid program content) hb⟩
  · rintro ⟨hnone, hfind⟩
    rw [hnone, Option.none_or] at hfind
    exact List.mem_of_find?_eq_some hfind

/-- What has to come of a section. -/
structure Adds (t : ProgramTable) (s : ReadSection) : Prop where
  /-- What was announced stays announced. -/
  grows : t.Extends (t.follow s).1
  /-- The streams that are new are exactly those that have got their PIDs. -/
  mem_iff : ∀ b, b ∈ (t.follow s).2 ↔
    t.binding? b.pid = none ∧ (t.follow s).1.binding? b.pid = some b
  /-- They are in the order in which the section lists them first. -/
  order : (t.follow s).2 = (StreamBinding.firstOnPids s.listed).filter fun b => b.IsFree t
  /-- No two of them are on the same PID. -/
  distinct : (t.follow s).2.Pairwise fun b c => b.pid ≠ c.pid

/-- **One section** adds what it is the first to list. -/
theorem adds_follow (t : ProgramTable) (s : ReadSection) : t.Adds s := by
  cases s with
  | pat content readable =>
    refine ⟨t.extends_applyPat content, fun b => ?_, rfl, .nil⟩
    have hsame : (t.applyPat content).1.binding? b.pid = t.binding? b.pid :=
      congrArg (fun streams => SortedMap.get? streams b.pid) (streams_applyPat content)
    refine iff_of_false List.not_mem_nil ?_
    rintro ⟨hnone, hsome⟩
    cases hnone.symm.trans (hsame.symm.trans hsome)
  | pmt pmtPid program content readable =>
    exact ⟨extends_applyPmt pmtPid program content t, mem_added_applyPmt pmtPid program content t,
      added_applyPmt pmtPid program content t, pairwise_added_applyPmt pmtPid program content t⟩

end ProgramTable

/-! ## What is settled -/

/-- If every step settles its element, and no step unsettles another one, then all elements of a
list are settled after it. -/
theorem gather_settles {σ α ω : Type} {step : σ → α → σ × List ω} {IsSettled : σ → α → Prop}
    (hsettles : ∀ s a, IsSettled (step s a).1 a)
    (hkeeps : ∀ s a b, IsSettled s b → IsSettled (step s a).1 b) (s : σ) (as : List α) :
    ∀ a ∈ as, IsSettled (gather step s as).1 a := by
  induction as generalizing s with
  | nil => exact fun a ha => absurd ha List.not_mem_nil
  | cons first as ih =>
    rw [gather_cons]
    refine List.forall_mem_cons.mpr ⟨?_, ih (step s first).1⟩
    exact gather_of_invariant (P := fun s => IsSettled s first) (fun s a h => hkeeps s a first h)
      (hsettles s first) as

/-- Steps for elements that are settled leave the state as it is. -/
theorem gather_of_isSettled {σ α ω : Type} {step : σ → α → σ × List ω} {s : σ} {as : List α}
    (h : ∀ a ∈ as, (step s a).1 = s) : (gather step s as).1 = s := by
  induction as with
  | nil => rfl
  | cons a as ih =>
    obtain ⟨hfirst, hothers⟩ := List.forall_mem_cons.mp h
    rw [gather_cons, hfirst]
    exact ih hothers

/-- An entry of the association table has nothing to add: its program is known, or is refused
because of what its PID is used for. -/
def PatEntry.IsSettled (t : ProgramTable) : PatEntry → Prop
  | .network _ => True
  | .program number pid => { number, pid } ∈ t.programs ∨ pid = .pat ∨ t.isElementaryPid pid = true

/-- An entry of a map table has nothing to add. -/
def StreamBinding.IsSettled (t : ProgramTable) (b : StreamBinding) : Prop :=
  b.IsFree t = false

namespace ProgramTable

variable {t t' : ProgramTable}

theorem Extends.isElementaryPid (h : t.Extends t') {pid : Pid}
    (hpid : t.isElementaryPid pid = true) : t'.isElementaryPid pid = true := by
  obtain ⟨b, hb⟩ := Option.isSome_iff_exists.mp hpid
  exact Option.isSome_iff_exists.mpr ⟨b, h.streams hb⟩

/-- What is refused or known stays so while the table is extended. -/
theorem Extends.isSettled_entry (h : t.Extends t') {entry : PatEntry} (hentry : entry.IsSettled t) :
    entry.IsSettled t' := by
  cases entry with
  | network pid => trivial
  | program number pid =>
    exact hentry.imp (fun hknown => h.programs.subset hknown) (.imp_right h.isElementaryPid)

theorem Extends.isFree (h : t.Extends t') {b : StreamBinding} (hb : b.IsFree t' = true) :
    b.IsFree t = true := by
  obtain ⟨hpmt, hpat, hnone⟩ := isFree_iff.mp hb
  refine isFree_iff.mpr ⟨?_, hpat, ?_⟩
  · cases hold : t.isPmtPid b.pid with
    | false => rfl
    | true =>
      rw [h.isPmtPid hold] at hpmt
      cases hpmt
  · cases hold : t.binding? b.pid with
    | none => rfl
    | some known =>
      rw [h.streams hold] at hnone
      cases hnone

theorem Extends.isSettled_stream (h : t.Extends t') {b : StreamBinding} (hb : b.IsSettled t) :
    b.IsSettled t' :=
  Bool.eq_false_iff.mpr fun hfree => Bool.eq_false_iff.mp hb (h.isFree hfree)

theorem addProgram_of_isSettled {entry : PatEntry} (h : entry.IsSettled t) :
    (t.addProgram entry).1 = t := by
  cases entry with
  | network pid => rfl
  | program number pid =>
    unfold addProgram
    dsimp only
    split
    · rfl
    · next hunknown => rw [if_pos (h.resolve_left hunknown)]

theorem isSettled_addProgram (t : ProgramTable) (entry : PatEntry) :
    entry.IsSettled (t.addProgram entry).1 := by
  cases entry with
  | network pid => trivial
  | program number pid =>
    unfold addProgram
    dsimp only
    split
    · next hknown => exact .inl hknown
    · split
      · next hused => exact .inr hused
      · exact .inl (List.mem_append_right _ List.mem_cons_self)

theorem isSettled_addStream (t : ProgramTable) (b : StreamBinding) :
    b.IsSettled (t.addStream b).1 := by
  unfold StreamBinding.IsSettled
  cases hfree : b.IsFree t with
  | true =>
    rw [(addStream_of_isFree hfree).1, isFree_insert, hfree]
    simp
  | false => rw [(addStream_of_not_isFree hfree).1, hfree]

end ProgramTable

/-- A section has nothing to add. -/
def ReadSection.IsSettled (t : ProgramTable) : ReadSection → Prop
  | .pat content _ => ∀ entry ∈ content.entries, entry.IsSettled t
  | .pmt _ program content _ => ∀ b ∈ content.listed program, b.IsSettled t

namespace ProgramTable

variable {t t' : ProgramTable}

theorem Extends.isSettled (h : t.Extends t') {s : ReadSection} (hs : s.IsSettled t) :
    s.IsSettled t' := by
  cases s with
  | pat content readable => exact fun entry hentry => h.isSettled_entry (hs entry hentry)
  | pmt pmtPid program content readable => exact fun b hb => h.isSettled_stream (hs b hb)

/-- A section that was followed has nothing to add. -/
theorem isSettled_follow (t : ProgramTable) (s : ReadSection) : s.IsSettled (t.follow s).1 := by
  cases s with
  | pat content readable =>
    exact gather_settles isSettled_addProgram
      (fun t entry other => (t.extends_addProgram entry).isSettled_entry) t content.entries
  | pmt pmtPid program content readable =>
    exact gather_settles isSettled_addStream
      (fun t b other => (t.extends_addStream b).isSettled_stream) t (content.listed program)

/-- A section that has nothing to add changes nothing. -/
theorem follow_of_isSettled {s : ReadSection} (h : s.IsSettled t) : t.follow s = (t, []) := by
  cases s with
  | pat content readable =>
    have htable : (t.applyPat content).1 = t :=
      gather_of_isSettled fun entry hentry => addProgram_of_isSettled (h entry hentry)
    rw [follow, htable]
  | pmt pmtPid program content readable =>
    have htable : (t.applyPmt pmtPid program content).table = t :=
      gather_of_isSettled fun b hb => (addStream_of_not_isFree (h b hb)).1
    have hadded : (t.applyPmt pmtPid program content).added = [] := by
      refine List.eq_nil_iff_forall_not_mem.mpr fun b hb => ?_
      obtain ⟨hnone, hsome⟩ := (mem_added_applyPmt pmtPid program content t b).mp hb
      rw [htable, hnone] at hsome
      cases hsome
    rw [follow, htable, hadded]

theorem extends_followAll (t : ProgramTable) (sections : List ReadSection) :
    t.Extends (t.followAll sections) := by
  induction sections generalizing t with
  | nil => exact .refl t
  | cons s sections ih => exact (t.extends_follow s).trans (ih (t.follow s).1)

/-- **Sections that were followed have nothing to add**, whatever was followed in between. -/
theorem isSettled_followAll (t : ProgramTable) (sections : List ReadSection) :
    ∀ s ∈ sections, s.IsSettled (t.followAll sections) := by
  induction sections generalizing t with
  | nil => exact fun s hs => absurd hs List.not_mem_nil
  | cons first sections ih =>
    refine List.forall_mem_cons.mpr ⟨?_, ih (t.follow first).1⟩
    exact ((t.follow first).1.extends_followAll sections).isSettled (t.isSettled_follow first)

end ProgramTable

end TransportStream
