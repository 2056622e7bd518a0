import TransportStream.Proofs.RoundTrip
import TransportStream.Proofs.TableReception

/-!
# Sections with a content that cannot be read

A section counts as seen before its content is looked at.  So if the content cannot be read, nothing
is announced, and yet the section counts as seen: when the same section is sent again, and arrives
in good order, it is taken for a repetition and not followed.  It takes a new version of the table
for the announcement to come through.

* `VersionFilter.isNew_record_self`: a section that was recorded is not new.
* `SectionReceiver.receive_of_seen`: a section that counts as seen is not followed.
* `SectionReceiver.Rejects`: the content of a section cannot be read, though the section is due.
* `Demuxer.rejected_section`: what that leaves, and what becomes of the section when it is repeated.
-/

namespace TransportStream

/-- A section that was recorded is not new any more. -/
theorem VersionFilter.isNew_record_self (f : VersionFilter) {h h' : TableHeader}
    (hversion : h'.version = h.version) (hnumber : h'.sectionNumber = h.sectionNumber) :
    (f.record h).isNew h' = false := by
  have hseen : (f.record h).seenIn h'.version = (f.record h).seen :=
    if_pos (congrArg some hversion.symm)
  rw [isNew, hseen, hnumber, record, Bool.not_eq_false']
  dsimp only
  split
  · simp
  · next hold =>
    rw [isNew, Bool.not_eq_true', Bool.not_eq_false] at hold
    exact hold

/-- What is wrong with the content of a section, as the one of a table of the given kind. -/
def TableKind.bodyError? (kind : TableKind) (body : Bytes) : Option SectionError :=
  match kind with
  | .pat =>
    match PatSection.ofBytes body with
    | .error e => some e
    | .ok _ => none
  | .pmt =>
    match PmtSection.ofBytes body with
    | .error e => some e
    | .ok _ => none

/-- Outputs that are accepted are followed by the others. -/
theorem driveOutputs_append {σ : Type} {receive : σ → SectionOutput → σ × Option SectionError}
    {state next : σ} {before : List SectionOutput}
    (h : driveOutputs receive state before = (next, none)) (later : List SectionOutput) :
    driveOutputs receive state (before ++ later) = driveOutputs receive next later := by
  induction before generalizing state with
  | nil =>
    obtain rfl : state = next := congrArg Prod.fst h
    rfl
  | cons output before ih =>
    rw [List.cons_append, driveOutputs]
    rw [driveOutputs] at h
    generalize receive state output = received at h ⊢
    obtain ⟨mid, e⟩ := received
    cases e with
    | some e => cases congrArg Prod.snd h
    | none => exact ih h

namespace SectionReceiver

variable {r : SectionReceiver} {verifyCrc : Bool} {kind : TableKind} {x : Bytes} {s : TableSection}
  {e : SectionError}

/-- A section with the given place counts as seen. -/
def marked (r : SectionReceiver) (h : TableHeader) : SectionReceiver :=
  { r with versions := r.versions.insert h.tableExtension ((r.filterFor h).record h) }

/-- The section is the next one to be followed, but its content cannot be read. -/
structure Rejects (r : SectionReceiver) (verifyCrc : Bool) (kind : TableKind) (x : Bytes)
    (s : TableSection) (e : SectionError) : Prop where
  /-- It can be taken apart. -/
  read : TableSection.ofBytes x verifyCrc = .ok s
  /-- It belongs to the table expected. -/
  tableId : s.header.tableId = kind.tableId
  /-- It is in force. -/
  current : s.table.currentNext = .current
  /-- It has not been seen. -/
  isNew : (r.filterFor s.table).isNew s.table = true
  /-- Its content cannot be read. -/
  body : kind.bodyError? s.body = some e

theorem follow_of_bodyError (h : kind.bodyError? s.body = some e) (r : SectionReceiver)
    (pid : Pid) : r.follow pid kind s = (r, some e) := by
  unfold TableKind.bodyError? at h
  unfold follow
  cases kind with
  | pat =>
    dsimp only at h ⊢
    cases hread : PatSection.ofBytes s.body with
    | error e' =>
      rw [hread] at h
      obtain rfl : e' = e := Option.some.inj h
      rfl
    | ok content =>
      rw [hread] at h
      cases h
  | pmt =>
    dsimp only at h ⊢
    cases hread : PmtSection.ofBytes s.body with
    | error e' =>
      rw [hread] at h
      obtain rfl : e' = e := Option.some.inj h
      rfl
    | ok content =>
      rw [hread] at h
      cases h

/-- A section whose content cannot be read counts as seen, and nothing else changes. -/
theorem Rejects.receive_eq (h : r.Rejects verifyCrc kind x s e) (pid : Pid) :
    r.receive verifyCrc pid kind (.whole x) = (r.marked s.table, some e) := by
  have htable : ¬ s.header.tableId ≠ kind.tableId := fun hne => hne h.tableId
  have hcurrent : ¬ s.table.currentNext = .next := by
    rw [h.current]
    exact CurrentNext.noConfusion
  rw [receive, h.read]
  dsimp only
  rw [table, if_neg htable, if_neg hcurrent]
  dsimp only
  rw [if_pos h.isNew]
  exact follow_of_bodyError h.body _ pid

/-- A section that counts as seen changes nothing, whatever its content. -/
theorem receive_of_seen (hread : TableSection.ofBytes x verifyCrc = .ok s)
    (hseen : (r.filterFor s.table).isNew s.table = false) (pid : Pid) (kind : TableKind) :
    (r.receive verifyCrc pid kind (.whole x)).2 = none ∧
      Alike Eq r (r.receive verifyCrc pid kind (.whole x)).1 := by
  rw [receive, hread]
  dsimp only
  rw [table]
  split
  · exact ⟨rfl, rfl, rfl⟩
  · split
    · exact ⟨rfl, rfl, rfl⟩
    · dsimp only
      rw [hseen, if_neg Bool.false_ne_true]
      exact ⟨rfl, rfl, rfl⟩

/-- A section at a place that counts as seen is not new. -/
theorem isNew_marked (r : SectionReceiver) {h h' : TableHeader}
    (hextension : h'.tableExtension = h.tableExtension) (hversion : h'.version = h.version)
    (hnumber : h'.sectionNumber = h.sectionNumber) :
    ((r.marked h).filterFor h').isNew h' = false := by
  have hfilter : (r.marked h).filterFor h' = (r.filterFor h).record h := by
    rw [filterFor, marked, hextension, SortedMap.get?_insert_self]
    rfl
  rw [hfilter]
  exact (r.filterFor h).isNew_record_self hversion hnumber

end SectionReceiver

namespace Demuxer

variable {d : Demuxer} {pid : Pid} {s : PsiStream} {p : IntactPacket pid} {x : Bytes}
  {found : TableSection} {e : SectionError} {r : SectionReceiver}
  {before later : List SectionOutput}

/-- **Content that cannot be read.**  A packet completes a section whose content cannot be read.  It
is refused, and what was announced is what the sections before that one announced.  But the section
counts as seen, so packets that carry another one with the same place, however good, announce
nothing. -/
theorem rejected_section (hopen : d.flushed = false)
    (hstate : d.directory.state? pid = some (.psi s))
    (houtputs : (s.buffer.push p.packet.unitStart p.payload).outputs = before ++ .whole x :: later)
    (hbefore : driveOutputs (SectionReceiver.receive d.options.verifyCrc pid s.kind)
      (d.receiverFor s) before = (r, none))
    (hrejects : r.Rejects d.options.verifyCrc s.kind x found e) :
    let o := d.push p.bytes
    let s' : PsiStream :=
      { s with buffer := .idle, versions := (r.marked found.table).versions }
    o.error = some (.table d.nextOffset pid e) ∧
      o.state.directory = r.directory.setState pid (.psi s') ∧
      ∀ (again : Bytes) (repeated : TableSection) (packets : List (IntactPacket pid)),
        TableSection.ofBytes again d.options.verifyCrc = .ok repeated →
        repeated.table.tableExtension = found.table.tableExtension →
        repeated.table.version = found.table.version →
        repeated.table.sectionNumber = found.table.sectionNumber →
        o.state.Brings s' [again] packets →
        (o.state.outcomes (packets.map IntactPacket.pushed)).map (·.error) =
            packets.map (fun _ => none) ∧
          (o.state.afterAll (packets.map IntactPacket.pushed)).directory = o.state.directory := by
  intro o s'
  have hdrive : (s.buffer.push p.packet.unitStart p.payload).drive
      (SectionReceiver.receive d.options.verifyCrc pid s.kind) (d.receiverFor s) =
        (r.marked found.table, .idle, some e) := by
    rw [Feed.drive, houtputs, driveOutputs_append hbefore, driveOutputs, hrejects.receive_eq]
  have hpush := push_of_psi hopen p hstate
  dsimp only at hpush
  rw [hdrive] at hpush
  have herror : o.error = some (.table d.nextOffset pid e) := congrArg Outcome.error hpush
  have hstate' : o.state = { d with
      nextOffset := d.nextOffset + Packet.size
      directory := r.directory.setState pid (.psi s') } := congrArg Outcome.state hpush
  refine ⟨herror, congrArg directory hstate', ?_⟩
  intro again repeated packets hread hextension hversion hnumber hbrings
  have hoptions : o.state.options = d.options := by rw [hstate']
  rw [← hoptions] at hread
  have hseen : ((o.state.receiverFor s').filterFor repeated.table).isNew repeated.table = false :=
    r.isNew_marked hextension hversion hnumber
  obtain ⟨haccepted, halike⟩ :=
    SectionReceiver.receive_of_seen hread hseen pid s'.kind
  have hall := SectionReceiver.receiveAll_singleton haccepted
  obtain ⟨herrors, hdirectory⟩ := hbrings.of_accepted (congrArg Prod.snd hall)
  refine ⟨herrors, ?_⟩
  rw [hdirectory, hall, ← halike.directory, ← halike.versions]
  exact Directory.setState_of_state? hbrings.state

/-- A section of an association table in its first version, with the given content. -/
def patWith (body : Bytes) (h : body.length ≤ 8) : OutgoingSection :=
  { Multiplex.smallPat.outgoing with body, length_body_le := Nat.le_trans h (by decide) }

/-- An association table that breaks off within an entry, and then the whole one. -/
theorem rejected_section_cut_entry :
    let cut := patWith [0x00, 0x01, 0xe0] (by decide)
    let whole := patWith [0x00, 0x01, 0xe0, 0x20] (by decide)
    let found : TableSection := { header := cut.header, table := cut.table, body := cut.body }
    let p := Multiplex.shortPacket true .pat 0 (0 :: cut.bytes) (by decide)
    let q := Multiplex.shortPacket true .pat 1 (0 :: whole.bytes) (by decide)
    let o := ({} : Demuxer).push p.bytes
    (receiverFor {} { kind := .pat }).Rejects true .pat cut.bytes found
        (.notEnoughData .programAssociation 4 3) ∧
      PatSection.ofBytes whole.body = .ok ⟨[.program 1 (.ofBytes 0xe0 0x20)]⟩ ∧
      o.error = some (.table 0 .pat (.notEnoughData .programAssociation 4 3)) ∧
      (o.state.outcomes [.push q.bytes]).map (·.error) = [none] ∧
      (o.state.afterAll [.push q.bytes]).table = {} := by
  intro cut whole found p q o
  have hrejects : (receiverFor {} { kind := .pat }).Rejects true .pat cut.bytes found
      (.notEnoughData .programAssociation 4 3) :=
    ⟨cut.ofBytes_alone true, rfl, rfl, rfl, by decide⟩
  have hcut : IsSection cut.bytes := cut.isSection_bytes (by decide) (by decide)
  have hwhole : IsSection whole.bytes := whole.isSection_bytes (by decide) (by decide)
  have houtputs : (SectionBuffer.idle.push true (0 :: cut.bytes)).outputs =
      [] ++ .whole cut.bytes :: [] := by
    rw [SectionBuffer.push_singleton hcut]
    rfl
  obtain ⟨herror, hdirectory, hrepeated⟩ := rejected_section (d := {}) (s := { kind := .pat })
    (p := p.intact rfl (by decide)) rfl rfl houtputs rfl hrejects
  have hopen : o.state.flushed = false :=
    congrArg (fun o => o.state.flushed)
      (push_of_psi (d := {}) (s := { kind := .pat }) rfl (p.intact rfl (by decide)) rfl)
  have hstate := (congrArg (Directory.state? · p.pid) hdirectory).trans
    (Directory.state?_setState_self _ _ _)
  obtain ⟨herrors, hsame⟩ := hrepeated whole.bytes _ [q.intact rfl (by decide)]
    (whole.ofBytes_alone true) rfl rfl rfl (brings_singleton hopen hstate rfl hwhole rfl)
  have hbody : whole.body = [0x00, 0x01, 0xe0, 0x20] := rfl
  have hcontent : PatSection.ofBytes whole.body = .ok ⟨[.program 1 (.ofBytes 0xe0 0x20)]⟩ := by
    have hentries : PatEntry.listOfBytes whole.body = [.program 1 (.ofBytes 0xe0 0x20)] := by
      decide +kernel
    rw [PatSection.ofBytes, hentries, hbody, if_pos (by decide)]
  refine ⟨hrejects, hcontent, herror, herrors, ?_⟩
  have htable : (o.state.afterAll [.push q.bytes]).directory = _ := hsame.trans hdirectory
  rw [table, htable]
  rfl

end Demuxer

end TransportStream
