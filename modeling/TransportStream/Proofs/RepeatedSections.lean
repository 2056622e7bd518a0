import Mathlib.Data.List.Induction
import TransportStream.Proofs.RejectedSections

/-!
# Which sections are looked into

Tables are sent again and again, and each time the receiver has to decide whether it has seen a
section.  What it keeps for that is a version and some section numbers for each instance of the
table.  What this amounts to is said here by the sections that have arrived: a section is a
repetition if one with its number has arrived since the version of its table changed for the last
time.  Sections that do not belong to the table, or are not in force, do not count, and neither do
other instances of the table.

* `TableSection.IsDue`: a section has to be looked into.
* `VersionFilter.isNew_record_iff`: what a section does to a filter.
* `Recalls`: what is kept tells repetitions from other sections.
* `SectionReceiver.looksInto_iff_isDue`, `SectionReceiver.recalls_table`: one section.
* `SectionVisit.decided_each`, `SectionVisit.decided_among`: any number of them.
-/

namespace TransportStream

/-! ## Repetitions -/

/-- An element of a longer list is the last one, or it stands before that. -/
theorem append_singleton_eq_iff {α : Type} {xs earlier later : List α} {x first : α} :
    xs ++ [x] = earlier ++ first :: later ↔ (xs = earlier ∧ x = first ∧ later = []) ∨
      ∃ more, later = more ++ [x] ∧ xs = earlier ++ first :: more := by
  constructor
  · intro h
    obtain rfl | ⟨more, last, rfl⟩ := List.eq_nil_or_concat later
    · obtain ⟨rfl, hlast⟩ := List.append_inj' h rfl
      exact .inl ⟨rfl, List.singleton_inj.mp hlast, rfl⟩
    · have hassoc : xs ++ [x] = (earlier ++ first :: more) ++ [last] := by simpa using h
      obtain ⟨rfl, hlast⟩ := List.append_inj' hassoc rfl
      obtain rfl := List.singleton_inj.mp hlast
      exact .inr ⟨more, List.concat_eq_append, rfl⟩
  · rintro (⟨rfl, rfl, rfl⟩ | ⟨more, rfl, rfl⟩)
    · rfl
    · simp

namespace TableSection

variable {kind : TableKind} {before : List TableSection} {s t : TableSection}

/-- The section belongs to the table, and is in force. -/
def IsEligible (kind : TableKind) (s : TableSection) : Prop :=
  s.header.tableId = kind.tableId ∧ s.table.currentNext = .current

instance : Decidable (IsEligible kind s) :=
  inferInstanceAs (Decidable (_ ∧ _))

/-- The other section counts for this one: it is eligible, and belongs to the same instance of the
table. -/
def Concerns (kind : TableKind) (s t : TableSection) : Prop :=
  t.IsEligible kind ∧ t.table.tableExtension = s.table.tableExtension

instance : Decidable (Concerns kind s t) :=
  inferInstanceAs (Decidable (_ ∧ _))

/-- A section with the same number has arrived, and since then the table has had the same
version. -/
def IsRepeated (kind : TableKind) (before : List TableSection) (s : TableSection) : Prop :=
  ∃ earlier first later, before = earlier ++ first :: later ∧ Concerns kind s first ∧
    first.table.sectionNumber = s.table.sectionNumber ∧
    ∀ t ∈ first :: later, Concerns kind s t → t.table.version = s.table.version

/-- The section has to be looked into. -/
def IsDue (kind : TableKind) (before : List TableSection) (s : TableSection) : Prop :=
  s.IsEligible kind ∧ ¬ IsRepeated kind before s

theorem not_isRepeated_nil (kind : TableKind) (s : TableSection) : ¬ IsRepeated kind [] s := by
  rintro ⟨earlier, first, later, hbefore, -⟩
  cases earlier <;> cases hbefore

/-- One more section.  If it counts it has to have the same version, and it may be the one that is
repeated. -/
theorem isRepeated_append_iff :
    IsRepeated kind (before ++ [t]) s ↔ (Concerns kind s t → t.table.version = s.table.version) ∧
      (Concerns kind s t ∧ t.table.sectionNumber = s.table.sectionNumber ∨
        IsRepeated kind before s) := by
  constructor
  · rintro ⟨earlier, first, later, hbefore, hfirst, hnumber, hsame⟩
    obtain ⟨rfl, rfl, rfl⟩ | ⟨more, rfl, rfl⟩ := append_singleton_eq_iff.mp hbefore
    · exact ⟨hsame t List.mem_cons_self, .inl ⟨hfirst, hnumber⟩⟩
    · have hlast : t ∈ first :: (more ++ [t]) :=
        List.mem_cons_of_mem _ (List.mem_append_right more List.mem_cons_self)
      have hold : ∀ u ∈ first :: more, u ∈ first :: (more ++ [t]) :=
        fun u hu => List.mem_append_left [t] hu
      exact ⟨hsame t hlast, .inr ⟨earlier, first, more, rfl, hfirst, hnumber,
        fun u hu => hsame u (hold u hu)⟩⟩
  · rintro ⟨hversion, ⟨hconcerns, hnumber⟩ | ⟨earlier, first, later, rfl, hfirst, hnumber, hsame⟩⟩
    · refine ⟨before, t, [], rfl, hconcerns, hnumber, fun u hu => ?_⟩
      obtain rfl := List.mem_singleton.mp hu
      exact hversion
    · refine ⟨earlier, first, later ++ [t], by simp, hfirst, hnumber, fun u hu => ?_⟩
      rcases List.mem_append.mp (show u ∈ (first :: later) ++ [t] from hu) with hold | hnew
      · exact hsame u hold
      · obtain rfl := List.mem_singleton.mp hnew
        exact hversion

/-- A section that does not count changes nothing. -/
theorem isRepeated_append_of_not_concerns (h : ¬ Concerns kind s t) :
    IsRepeated kind (before ++ [t]) s ↔ IsRepeated kind before s := by
  rw [isRepeated_append_iff]
  exact ⟨fun ⟨_, hrepeated⟩ => hrepeated.resolve_left fun hc => h hc.1,
    fun hrepeated => ⟨fun hc => absurd hc h, .inr hrepeated⟩⟩

theorem isRepeated_append_of_concerns (h : Concerns kind s t) :
    IsRepeated kind (before ++ [t]) s ↔ t.table.version = s.table.version ∧
      (t.table.sectionNumber = s.table.sectionNumber ∨ IsRepeated kind before s) := by
  rw [isRepeated_append_iff]
  simp only [h, true_imp_iff, true_and]

/-- **What counts.**  Whether a section is a repetition can be told from those sections before it
that are eligible and belong to the same instance of the table. -/
theorem isRepeated_filter_iff :
    IsRepeated kind (before.filter fun t => Concerns kind s t) s ↔ IsRepeated kind before s := by
  induction before using List.reverseRecOn with
  | nil => rfl
  | append_singleton before t ih =>
    rw [List.filter_append]
    by_cases hconcerns : Concerns kind s t
    · have hsingleton : [t].filter (fun t => Concerns kind s t) = [t] :=
        List.filter_cons_of_pos (decide_eq_true hconcerns)
      rw [hsingleton, isRepeated_append_of_concerns hconcerns,
        isRepeated_append_of_concerns hconcerns, ih]
    · have hnone : [t].filter (fun t => Concerns kind s t) = [] :=
        List.filter_cons_of_neg (mt of_decide_eq_true hconcerns)
      rw [hnone, List.append_nil, ih, isRepeated_append_of_not_concerns hconcerns]

end TableSection

/-! ## Filters -/

namespace VersionFilter

variable {f : VersionFilter} {h h' : TableHeader}

/-- What a section does to a filter: another one is as new as it was if it has the same version and
another number, and is new if it has another version. -/
theorem isNew_record_iff :
    (f.record h).isNew h' = true ↔
      (h.version = h'.version → f.isNew h' = true ∧ h.sectionNumber ≠ h'.sectionNumber) := by
  by_cases hversion : h.version = h'.version
  · by_cases hnumber : h.sectionNumber = h'.sectionNumber
    · rw [f.isNew_record_self hversion.symm hnumber.symm]
      simp [hversion, hnumber]
    · refine ⟨fun hnew _ => ⟨?_, hnumber⟩, fun hall => ?_⟩
      · have hseen : (f.record h).seenIn h'.version = (f.record h).seen :=
          if_pos (congrArg some hversion)
        rw [isNew, hseen, record] at hnew
        rw [isNew, ← hversion]
        dsimp only at hnew
        split at hnew
        · rw [List.contains_cons, Bool.not_or, Bool.and_eq_true] at hnew
          exact hnew.2
        · exact hnew
      · exact isNew_record (Ne.symm hnumber) (hall hversion).1
  · have hseen : (f.record h).seenIn h'.version = [] :=
      if_neg fun heq => hversion (Option.some.inj heq)
    rw [isNew, hseen]
    simp [hversion]

/-- A section that is not new leaves the filter as it is. -/
theorem record_of_not_isNew (hold : f.isNew h = false) : f.record h = f := by
  have hcontains : (f.seenIn h.version).contains h.sectionNumber = true := by
    rwa [isNew, Bool.not_eq_false'] at hold
  have hversion : f.version = some h.version := by
    by_contra hne
    rw [seenIn, if_neg hne] at hcontains
    cases hcontains
  have hseen : f.seenIn h.version = f.seen := if_pos hversion
  rw [record, hold, if_neg Bool.false_ne_true, hseen, ← hversion]

end VersionFilter

/-! ## What is kept -/

/-- What is kept of the sections that have arrived tells those that are repeated from the
others. -/
def Recalls (kind : TableKind) (versions : SortedMap Nat VersionFilter)
    (before : List TableSection) : Prop :=
  ∀ s : TableSection, ((versions.get? s.table.tableExtension).getD {}).isNew s.table = true ↔
    ¬ TableSection.IsRepeated kind before s

section

variable {kind : TableKind} {versions : SortedMap Nat VersionFilter} {before : List TableSection}
  {t : TableSection}

/-- At first nothing is repeated. -/
theorem recalls_nil (kind : TableKind) : Recalls kind .empty [] :=
  fun s => iff_of_true rfl (TableSection.not_isRepeated_nil kind s)

/-- A section that is not eligible need not be remembered. -/
theorem Recalls.skip (h : Recalls kind versions before) (ht : ¬ t.IsEligible kind) :
    Recalls kind versions (before ++ [t]) := by
  intro s
  rw [h s, TableSection.isRepeated_append_of_not_concerns fun hc => ht hc.1]

/-- An eligible section is remembered by the filter of its instance of the table. -/
theorem Recalls.insert (h : Recalls kind versions before) (ht : t.IsEligible kind) :
    Recalls kind (versions.insert t.table.tableExtension
      (((versions.get? t.table.tableExtension).getD {}).record t.table)) (before ++ [t]) := by
  intro s
  rw [SortedMap.get?_insert]
  split
  · next hsame =>
    have hconcerns : TableSection.Concerns kind s t := ⟨ht, hsame⟩
    rw [Option.getD_some, VersionFilter.isNew_record_iff, hsame, h s,
      TableSection.isRepeated_append_of_concerns hconcerns, not_and, not_or]
    exact forall_congr' fun _ => and_comm
  · next hother =>
    rw [h s, TableSection.isRepeated_append_of_not_concerns fun hc => hother hc.2]

/-- One that is repeated is remembered already. -/
theorem Recalls.again (h : Recalls kind versions before) (ht : t.IsEligible kind)
    (hold : ((versions.get? t.table.tableExtension).getD {}).isNew t.table = false) :
    Recalls kind versions (before ++ [t]) := by
  intro s
  rw [← h.insert ht s, SortedMap.get?_insert]
  split
  · next hsame => rw [Option.getD_some, VersionFilter.record_of_not_isNew hold, hsame]
  · rfl

end

/-! ## Receivers -/

namespace SectionReceiver

variable {r : SectionReceiver} {pid : Pid} {kind : TableKind} {s : TableSection}
  {before : List TableSection}

/-- The receiver looks into the section: what comes of it is what comes of its content, whatever
else has been kept of it. -/
def LooksInto (r : SectionReceiver) (pid : Pid) (kind : TableKind) (s : TableSection) : Prop :=
  ∃ versions, r.table pid kind s = ({ r with versions } : SectionReceiver).follow pid kind s

/-- The receiver passes the section over: at most it notes that it belongs to another table. -/
def PassesOver (r : SectionReceiver) (pid : Pid) (kind : TableKind) (s : TableSection) : Prop :=
  r.table pid kind s = (r, none) ∨
    r.table pid kind s = (r.note [.unexpectedTable pid kind.tableId s.header.tableId], none)

/-- Content never goes unnoticed: it is an error, or a notice says that it was accepted. -/
theorem exists_of_follow_eq_note {versions : SortedMap Nat VersionFilter} {notices : List Notice}
    (h : ({ r with versions } : SectionReceiver).follow pid kind s = (r.note notices, none)) :
    ∃ accepted more, notices = accepted :: more ∧ (accepted = .patAccepted pid s.table.version ∨
      accepted = .pmtAccepted pid s.table.tableExtension s.table.version) := by
  unfold follow at h
  cases kind with
  | pat =>
    dsimp only at h
    cases hread : PatSection.ofBytes s.body with
    | error e =>
      rw [hread] at h
      cases congrArg Prod.snd h
    | ok content =>
      rw [hread] at h
      have hall : r.notices ++ (.patAccepted pid s.table.version ::
          (r.directory.applyPat content).2) = r.notices ++ notices :=
        congrArg (fun received => received.1.notices) h
      exact ⟨_, _, (List.append_cancel_left hall).symm, .inl rfl⟩
  | pmt =>
    dsimp only at h
    cases hread : PmtSection.ofBytes s.body with
    | error e =>
      rw [hread] at h
      cases congrArg Prod.snd h
    | ok content =>
      rw [hread] at h
      have hall : r.notices ++ (.pmtAccepted pid s.table.tableExtension s.table.version ::
          (r.directory.applyPmt pid s.table.tableExtension content).2) = r.notices ++ notices :=
        congrArg (fun received => received.1.notices) h
      exact ⟨_, _, (List.append_cancel_left hall).symm, .inr rfl⟩

/-- **One section.**  It is passed over, or looked into and remembered. -/
theorem table_cases (r : SectionReceiver) (pid : Pid) (kind : TableKind) (s : TableSection) :
    (¬ s.IsEligible kind ∧ r.PassesOver pid kind s) ∨
      (s.IsEligible kind ∧ (r.filterFor s.table).isNew s.table = false ∧
        r.table pid kind s = (r, none)) ∨
      (s.IsEligible kind ∧ (r.filterFor s.table).isNew s.table = true ∧
        r.table pid kind s = (r.marked s.table).follow pid kind s) := by
  by_cases hid : s.header.tableId = kind.tableId
  · have hexpected : ¬ s.header.tableId ≠ kind.tableId := not_not_intro hid
    cases hcurrent : s.table.currentNext with
    | next =>
      refine .inl ⟨fun heligible => ?_, .inl ?_⟩
      · cases hcurrent.symm.trans heligible.2
      · rw [table, if_neg hexpected, if_pos hcurrent]
    | current =>
      have hforce : ¬ s.table.currentNext = .next := by
        rw [hcurrent]
        exact CurrentNext.noConfusion
      refine .inr ?_
      rw [table, if_neg hexpected, if_neg hforce]
      dsimp only
      cases hnew : (r.filterFor s.table).isNew s.table with
      | false => exact .inl ⟨⟨hid, hcurrent⟩, rfl, if_neg Bool.false_ne_true⟩
      | true => exact .inr ⟨⟨hid, hcurrent⟩, rfl, if_pos rfl⟩
  · refine .inl ⟨fun heligible => hid heligible.1, .inr ?_⟩
    rw [table, if_pos hid]

/-- A section that is passed over is not looked into. -/
theorem PassesOver.not_looksInto (h : r.PassesOver pid kind s) : ¬ r.LooksInto pid kind s := by
  rintro ⟨versions, hlooks⟩
  rcases h with h | h
  · have hnote : r.note [] = r := by rw [note, List.append_nil]
    have hnothing : ({ r with versions } : SectionReceiver).follow pid kind s =
        (r.note [], none) := by
      rw [← hlooks, h, hnote]
    obtain ⟨accepted, more, hnone, -⟩ := exists_of_follow_eq_note hnothing
    cases hnone
  · obtain ⟨accepted, more, heq, haccepted⟩ := exists_of_follow_eq_note (hlooks.symm.trans h)
    obtain ⟨rfl, -⟩ := List.cons.inj heq
    rcases haccepted with haccepted | haccepted <;> cases haccepted

/-- **One section.**  It is looked into if it is due, by what is kept, and passed over
otherwise. -/
theorem looksInto_iff_isDue (h : Recalls kind r.versions before) :
    (r.LooksInto pid kind s ↔ s.IsDue kind before) ∧
      (r.PassesOver pid kind s ↔ ¬ s.IsDue kind before) := by
  have hnew := h s
  rcases r.table_cases pid kind s with
    ⟨hnot, hpasses⟩ | ⟨helig, hold, hsame⟩ | ⟨helig, hfresh, hlooks⟩
  · have hundue : ¬ s.IsDue kind before := fun hdue => hnot hdue.1
    exact ⟨iff_of_false hpasses.not_looksInto hundue, iff_of_true hpasses hundue⟩
  · have hpasses : r.PassesOver pid kind s := .inl hsame
    have hundue : ¬ s.IsDue kind before := by
      intro hdue
      have htrue := hnew.mpr hdue.2
      rw [filterFor] at hold
      rw [hold] at htrue
      cases htrue
    exact ⟨iff_of_false hpasses.not_looksInto hundue, iff_of_true hpasses hundue⟩
  · have hinto : r.LooksInto pid kind s := ⟨_, hlooks⟩
    have hdue : s.IsDue kind before := ⟨helig, hnew.mp hfresh⟩
    exact ⟨iff_of_true hinto hdue,
      iff_of_false (fun hpasses => hpasses.not_looksInto hinto) (not_not_intro hdue)⟩

theorem versions_follow (r : SectionReceiver) (pid : Pid) (kind : TableKind) (s : TableSection) :
    (r.follow pid kind s).1.versions = r.versions := by
  unfold follow
  cases kind with
  | pat => cases PatSection.ofBytes s.body <;> rfl
  | pmt => cases PmtSection.ofBytes s.body <;> rfl

/-- Afterwards the section is remembered with the others, whatever its content. -/
theorem recalls_table (h : Recalls kind r.versions before) (pid : Pid) (s : TableSection) :
    Recalls kind (r.table pid kind s).1.versions (before ++ [s]) := by
  rcases r.table_cases pid kind s with ⟨hnot, hpasses⟩ | ⟨helig, hold, hsame⟩ | ⟨helig, -, hlooks⟩
  · rcases hpasses with hsame | hsame
    · rw [hsame]
      exact h.skip hnot
    · rw [hsame]
      exact h.skip hnot
  · rw [hsame]
    exact h.again helig hold
  · rw [hlooks, versions_follow]
    exact h.insert helig

end SectionReceiver

/-! ## Visits -/

/-- The arrival of a section that can be taken apart. -/
structure SectionVisit where
  /-- The receiver that it arrives at. -/
  receiver : SectionReceiver
  /-- The section. -/
  found : TableSection

namespace SectionVisit

/-- The section that arrives at a receiver, if it is one that can be taken apart. -/
def arriving (verifyCrc : Bool) (r : SectionReceiver) : SectionOutput → List SectionVisit
  | .notice _ => []
  | .whole bytes =>
    match TableSection.ofBytes bytes verifyCrc with
    | .error _ => []
    | .ok found => [⟨r, found⟩]

/-- The sections in what a payload brings to light, up to the first one that is refused. -/
def among (verifyCrc : Bool) (pid : Pid) (kind : TableKind) :
    SectionReceiver → List SectionOutput → List SectionVisit
  | _, [] => []
  | r, output :: outputs =>
    match r.receive verifyCrc pid kind output with
    | (_, some _) => arriving verifyCrc r output
    | (next, none) => arriving verifyCrc r output ++ among verifyCrc pid kind next outputs

/-- Sections that arrive at a receiver one after the other, whatever becomes of their content. -/
def each (pid : Pid) (kind : TableKind) : SectionReceiver → List TableSection → List SectionVisit
  | _, [] => []
  | r, s :: sections => ⟨r, s⟩ :: each pid kind (r.table pid kind s).1 sections

/-- The section is looked into if it is due, after those that arrived before, and passed over
otherwise. -/
structure IsDecided (pid : Pid) (kind : TableKind) (before : List TableSection)
    (v : SectionVisit) : Prop where
  /-- It is looked into if it is due. -/
  looksInto_iff : v.receiver.LooksInto pid kind v.found ↔ v.found.IsDue kind before
  /-- It is passed over if it is not. -/
  passesOver_iff : v.receiver.PassesOver pid kind v.found ↔ ¬ v.found.IsDue kind before

/-- Each of the sections is decided. -/
def Decided (pid : Pid) (kind : TableKind) : List TableSection → List SectionVisit → Prop
  | _, [] => True
  | before, v :: later =>
    v.IsDecided pid kind before ∧ Decided pid kind (before ++ [v.found]) later

variable {pid : Pid} {kind : TableKind} {before : List TableSection}
  {visits later : List SectionVisit}

theorem Decided.append (h : Decided pid kind before visits)
    (hlater : Decided pid kind (before ++ visits.map found) later) :
    Decided pid kind before (visits ++ later) := by
  induction visits generalizing before with
  | nil => simpa using hlater
  | cons v visits ih =>
    refine ⟨h.1, ih h.2 ?_⟩
    rw [List.append_assoc]
    exact hlater

/-- What is decided about one of the sections. -/
theorem Decided.of_eq {earlier : List SectionVisit} {v : SectionVisit}
    (h : Decided pid kind before (earlier ++ v :: later)) :
    v.IsDecided pid kind (before ++ earlier.map found) := by
  induction earlier generalizing before with
  | nil => simpa using h.1
  | cons u earlier ih => simpa using ih h.2

/-- A section that arrives at a receiver that remembers the earlier ones is decided. -/
theorem isDecided_of_recalls {r : SectionReceiver} (h : Recalls kind r.versions before)
    (pid : Pid) (s : TableSection) : IsDecided pid kind before ⟨r, s⟩ :=
  let ⟨hinto, hover⟩ := SectionReceiver.looksInto_iff_isDue h
  ⟨hinto, hover⟩

theorem map_found_each (r : SectionReceiver) (pid : Pid) (kind : TableKind)
    (sections : List TableSection) : (each pid kind r sections).map found = sections := by
  induction sections generalizing r with
  | nil => rfl
  | cons s sections ih => exact congrArg (s :: ·) (ih _)

/-- **Any sections.**  They are decided one after the other. -/
theorem decided_each {r : SectionReceiver} (h : Recalls kind r.versions before) (pid : Pid)
    (sections : List TableSection) : Decided pid kind before (each pid kind r sections) := by
  induction sections generalizing r before with
  | nil => trivial
  | cons s sections ih =>
    exact ⟨isDecided_of_recalls h pid s, ih (SectionReceiver.recalls_table h pid s)⟩

theorem decided_arriving {r : SectionReceiver} (h : Recalls kind r.versions before)
    (verifyCrc : Bool) (pid : Pid) (output : SectionOutput) :
    Decided pid kind before (arriving verifyCrc r output) ∧
      Recalls kind (r.receive verifyCrc pid kind output).1.versions
        (before ++ (arriving verifyCrc r output).map found) := by
  have hnothing : Decided pid kind before [] ∧ Recalls kind r.versions (before ++ []) :=
    ⟨trivial, (List.append_nil before).symm ▸ h⟩
  cases output with
  | notice n => exact hnothing
  | whole bytes =>
    rw [arriving, SectionReceiver.receive]
    cases TableSection.ofBytes bytes verifyCrc with
    | error e => exact hnothing
    | ok s => exact ⟨⟨isDecided_of_recalls h pid s, trivial⟩,
        SectionReceiver.recalls_table h pid s⟩

/-- **A payload.**  What it brings to light is decided section by section, and remembered. -/
theorem decided_among {r : SectionReceiver} (h : Recalls kind r.versions before)
    (verifyCrc : Bool) (pid : Pid) (outputs : List SectionOutput) :
    Decided pid kind before (among verifyCrc pid kind r outputs) ∧
      Recalls kind
        (driveOutputs (SectionReceiver.receive verifyCrc pid kind) r outputs).1.versions
        (before ++ (among verifyCrc pid kind r outputs).map found) := by
  induction outputs generalizing r before with
  | nil =>
    refine ⟨trivial, ?_⟩
    rw [among, List.map_nil, List.append_nil]
    exact h
  | cons output outputs ih =>
    obtain ⟨hdecided, hrecalls⟩ := decided_arriving h verifyCrc pid output
    rw [among, driveOutputs]
    rcases hreceived : r.receive verifyCrc pid kind output with ⟨next, _ | e⟩
    · rw [hreceived] at hrecalls
      obtain ⟨hlater, hall⟩ := ih hrecalls
      refine ⟨hdecided.append hlater, ?_⟩
      rw [List.map_append, ← List.append_assoc]
      exact hall
    · rw [hreceived] at hrecalls
      exact ⟨hdecided, hrecalls⟩

end SectionVisit

end TransportStream
