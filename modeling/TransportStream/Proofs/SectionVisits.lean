import TransportStream.Proofs.DirectoryAgreement
import TransportStream.Proofs.RepeatedSections

/-!
# The sections that arrive on a PID

A PID that carries tables keeps what it has to know about the sections that have arrived on it, and
it does so through all that can happen: packets of other PIDs, which may announce it in the first
place, packets that are damaged or fail, sections whose content is refused, the end of the stream,
and one run after another.  So the sections that arrive on it are decided as one sequence, whatever
happens in between.

* `Demuxer.visitsOf`, `Demuxer.visits`: the sections that arrive on a PID, in a packet and in any
  operations.
* `Demuxer.HasVisited`: what is kept for a PID remembers them.
* `Demuxer.HasVisited.act`: so it does after every act.
* `Demuxer.sections_decided`: which sections are looked into.
-/

namespace TransportStream

/-- The table expected on a PID that carries one. -/
def TableKind.on (pid : Pid) : TableKind :=
  if pid = .pat then .pat else .pmt

/-- A payload leaves the receiver as its outputs do. -/
theorem Feed.drive_fst {σ : Type} (f : Feed)
    (receive : σ → SectionOutput → σ × Option SectionError) (state : σ) :
    (f.drive receive state).1 = (driveOutputs receive state f.outputs).1 := by
  rw [drive]
  generalize driveOutputs receive state f.outputs = driven
  obtain ⟨last, _ | e⟩ := driven <;> rfl

namespace Directory

/-- What has a state on a PID keeps it, and a new one has seen no sections. -/
structure Starts (pid : Pid) (d d' : Directory) : Prop where
  /-- A state that is there stays the same. -/
  kept : ∀ {state}, d.state? pid = some state → d'.state? pid = some state
  /-- A new one has seen no sections. -/
  fresh : d.state? pid = none → ∀ s, d'.state? pid = some (.psi s) → s.versions = .empty

variable {pid : Pid} {d d' : Directory}

theorem Starts.refl (pid : Pid) (d : Directory) : Starts pid d d := by
  refine ⟨id, fun hnone s hs => ?_⟩
  rw [hnone] at hs
  cases hs

/-- Starting goes on as long as what is added has seen no sections. -/
theorem Starts.add (h : Starts pid d d') {d'' : Directory} {added : Option PidState}
    (hadd : d''.state? pid = (d'.state? pid).or added)
    (hfresh : ∀ s, added = some (.psi s) → s.versions = .empty) : Starts pid d d'' := by
  refine ⟨fun hstate => ?_, fun hnone s hs => ?_⟩
  · rw [hadd, h.kept hstate, Option.some_or]
  · rw [hadd] at hs
    cases hold : d'.state? pid with
    | some state =>
      rw [hold, Option.some_or] at hs
      exact h.fresh hnone s (hold.trans hs)
    | none =>
      rw [hold, Option.none_or] at hs
      exact hfresh s hs

theorem Starts.applyPat (h : Starts pid d d') (pat : PatSection) :
    Starts pid d (d'.applyPat pat).1 := by
  refine h.add (state?_applyPat pat pid) fun s hs => ?_
  split at hs
  · cases hs
    rfl
  · cases hs

theorem Starts.applyPmt (h : Starts pid d d') (pmtPid : Pid) (program : Nat) (pmt : PmtSection) :
    Starts pid d (d'.applyPmt pmtPid program pmt).1 := by
  refine h.add (d'.state?_applyPmt_added pmtPid program pmt pid) fun s hs => ?_
  obtain ⟨b, -, hb⟩ := Option.map_eq_some_iff.mp hs
  unfold PidState.ofBinding at hb
  split at hb <;> cases hb

theorem Starts.setState (h : Starts pid d d') {other : Pid} (hne : other ≠ pid)
    (state : PidState) : Starts pid d (d'.setState other state) := by
  have hsame := d'.state?_setState_of_ne hne state
  exact ⟨fun hstate => hsame.trans (h.kept hstate),
    fun hnone s hs => h.fresh hnone s (hsame.symm.trans hs)⟩

/-- A PID that carries sections carries those of the table expected on it. -/
theorem Fits.kind_eq (h : d.Fits) {s : PsiStream} (hs : d.state? pid = some (.psi s)) :
    s.kind = .on pid := by
  have hfits := h.states pid
  rw [hs] at hfits
  rcases hfits with ⟨rfl, hkind⟩ | ⟨hpmt, hkind⟩
  · exact hkind
  · have hne : pid ≠ .pat := by
      rintro rfl
      rw [h.table.isPmtPid_pat] at hpmt
      cases hpmt
    rw [hkind, TableKind.on, if_neg hne]

end Directory

/-! ## Visits -/

namespace Demuxer

/-- The sections that a packet brings to light on a PID. -/
def visitsOf (d : Demuxer) (pid : Pid) (p : Packet) : List SectionVisit :=
  if p.pid = pid ∧ p.transportError = false then
    match d.directory.state? pid, p.payload with
    | some (.psi s), .ok (some payload) =>
      SectionVisit.among d.options.verifyCrc pid s.kind (d.receiverFor s)
        (s.buffer.push p.unitStart payload).outputs
    | _, _ => []
  else []

/-- The sections that arrive on a PID in the packets that are shown.  Those are the packets that are
taken. -/
def visitsAmong (d : Demuxer) (pid : Pid) (events : List Event) : List SectionVisit :=
  events.flatMap fun
    | .packet p => d.visitsOf pid p
    | _ => []

/-- The sections that arrive on a PID at a moment. -/
def Moment.visits (pid : Pid) (m : Moment) : List SectionVisit :=
  m.before.visitsAmong pid m.outcome.events

/-- The sections that arrive on a PID in the course of operations. -/
def visits (d : Demuxer) (pid : Pid) : List Operation → List SectionVisit
  | [] => []
  | op :: ops => (d.moments op).flatMap (Moment.visits pid) ++ (d.apply op).state.visits pid ops

/-- What is kept for a PID remembers the sections that have arrived on it, and each of them has been
decided. -/
structure HasVisited (pid : Pid) (seen : List SectionVisit) (d : Demuxer) : Prop where
  /-- Every PID has the state for its use. -/
  fits : d.directory.Fits
  /-- The sections have been decided. -/
  decided : SectionVisit.Decided pid (.on pid) [] seen
  /-- They are remembered. -/
  remembered : ∀ s, d.directory.state? pid = some (.psi s) →
    Recalls (.on pid) s.versions (seen.map SectionVisit.found)
  /-- There are none before there is a state for the PID. -/
  nothing : d.directory.state? pid = none → seen = []

variable {pid : Pid} {seen : List SectionVisit} {d d' : Demuxer}

/-- A new demultiplexer has seen nothing. -/
theorem hasVisited_new (pid : Pid) (options : DemuxOptions) :
    HasVisited pid [] ({ options } : Demuxer) := by
  refine ⟨Directory.fits_new, trivial, fun s hs => ?_, fun _ => rfl⟩
  have hnew := (Directory.state?_new pid).symm.trans hs
  split at hnew
  · cases hnew
    exact recalls_nil _
  · cases hnew

/-- Where no section arrives, what is there stays remembered. -/
theorem HasVisited.of_starts (h : HasVisited pid seen d) (hfits : d'.directory.Fits)
    (hstarts : d.directory.Starts pid d'.directory) : HasVisited pid seen d' := by
  refine ⟨hfits, h.decided, fun s hs => ?_, fun hnone => ?_⟩
  · cases hstate : d.directory.state? pid with
    | some state => exact h.remembered s (hstate.trans ((hstarts.kept hstate).symm.trans hs))
    | none =>
      rw [h.nothing hstate, hstarts.fresh hstate s hs]
      exact recalls_nil _
  · cases hstate : d.directory.state? pid with
    | some state => cases (hstarts.kept hstate).symm.trans hnone
    | none => exact h.nothing hstate

theorem HasVisited.of_directory_eq (h : HasVisited pid seen d)
    (heq : d'.directory = d.directory) : HasVisited pid seen d' :=
  ⟨heq ▸ h.fits, h.decided, heq ▸ h.remembered, heq ▸ h.nothing⟩

/-- **The packet of the PID.**  The sections in it are decided, and remembered. -/
theorem HasVisited.sectionPacket (h : HasVisited pid seen d) {s : PsiStream} {p : Packet}
    (hpid : p.pid = pid) (hstate : d.directory.state? pid = some (.psi s)) (offset : Nat)
    (payload : Bytes) (hfits : (d.sectionPacket s offset p payload).state.directory.Fits) :
    HasVisited pid
      (seen ++ SectionVisit.among d.options.verifyCrc pid s.kind (d.receiverFor s)
        (s.buffer.push p.unitStart payload).outputs)
      (d.sectionPacket s offset p payload).state := by
  subst hpid
  have hkind := h.fits.kind_eq hstate
  have hearlier : SectionVisit.Decided p.pid s.kind [] seen := hkind ▸ h.decided
  have hbefore : Recalls s.kind (d.receiverFor s).versions (seen.map SectionVisit.found) :=
    hkind ▸ h.remembered s hstate
  obtain ⟨hdecided, hrecalls⟩ := SectionVisit.decided_among hbefore d.options.verifyCrc p.pid
    (s.buffer.push p.unitStart payload).outputs
  have hdirectory : ∃ (grown : Directory) (next : PsiStream),
      (d.sectionPacket s offset p payload).state.directory = grown.setState p.pid (.psi next) ∧
        next.versions = (driveOutputs (SectionReceiver.receive d.options.verifyCrc p.pid s.kind)
          (d.receiverFor s) (s.buffer.push p.unitStart payload).outputs).1.versions := by
    refine ⟨_, _, rfl, ?_⟩
    rw [← Feed.drive_fst]
    rfl
  obtain ⟨grown, next, hgrown, hversions⟩ := hdirectory
  have hafter := (congrArg (·.state? p.pid) hgrown).trans (Directory.state?_setState_self _ _ _)
  refine ⟨hfits, ?_, fun s' hs' => ?_, fun hnone => ?_⟩
  · rw [← hkind]
    exact hearlier.append hdecided
  · cases hafter.symm.trans hs'
    rw [← hkind, hversions, List.map_append]
    exact hrecalls
  · cases hafter.symm.trans hnone

/-- A packet of a PID that carries tables is routed there. -/
theorem HasVisited.route_own (h : HasVisited pid seen d) (offset : Nat) {p : Packet}
    (hpid : p.pid = pid) {s : PsiStream} (hstate : d.directory.state? pid = some (.psi s)) :
    HasVisited pid (seen ++ d.visitsOf pid p) (d.route offset p).state := by
  subst hpid
  have hfits := (fits_orderly_of_routed h.fits (routed_route d offset p) []).1
  unfold Demuxer.route visitsOf at *
  rw [hstate] at hfits ⊢
  dsimp only [withPayload] at hfits ⊢
  cases htransport : p.transportError with
  | true => simpa [htransport] using h
  | false =>
    cases hpayload : p.payload with
    | error e => simpa [htransport, hpayload] using h
    | ok payload =>
      cases payload with
      | none => simpa [htransport, hpayload] using h
      | some payload =>
        simp only [htransport, hpayload, Bool.false_eq_true, if_false, and_self, if_true]
          at hfits ⊢
        exact h.sectionPacket rfl hstate offset payload hfits

/-- No section arrives in any other packet. -/
theorem visitsOf_of_other {p : Packet}
    (hother : p.pid = pid → ∀ s, d.directory.state? pid ≠ some (.psi s)) :
    d.visitsOf pid p = [] := by
  unfold visitsOf
  split
  · next hboth =>
    split
    · next s _ hstate _ => exact absurd hstate (hother hboth.1 s)
    · rfl
  · rfl

/-- Any other packet may announce the PID. -/
theorem HasVisited.route_other (h : HasVisited pid seen d) (offset : Nat) {p : Packet}
    (hother : p.pid = pid → ∀ s, d.directory.state? pid ≠ some (.psi s)) :
    HasVisited pid seen (d.route offset p).state := by
  have hrouted := routed_route d offset p
  have hfits := (fits_orderly_of_routed h.fits hrouted []).1
  generalize d.route offset p = o at hrouted hfits
  cases hrouted with
  | nowhere notices state events => exact h.of_directory_eq (by rw [state])
  | @pes s payload state =>
    by_cases hpid : p.pid = pid
    · subst hpid
      have hafter := d.directory.state?_setState_self p.pid
        (.pes (s.packet d.options offset p payload).state)
      refine ⟨hfits, h.decided, fun s' hs' => ?_, fun hnone => ?_⟩
      · cases hafter.symm.trans hs'
      · cases hafter.symm.trans hnone
    · exact h.of_starts hfits ((Directory.Starts.refl pid d.directory).setState hpid _)
  | @psi s payload state =>
    have hpid : p.pid ≠ pid := by
      rintro rfl
      exact hother rfl s state
    obtain ⟨grown, next, hgrown, -, -, hdirectory, -⟩ :=
      sectionPacket_cases (P := d.directory.Starts pid) (fun _ pat h => h.applyPat pat)
        (fun _ pmtPid program pmt h => h.applyPmt pmtPid program pmt)
        (Directory.Starts.refl pid d.directory) s offset p payload
    exact h.of_starts hfits (hdirectory ▸ hgrown.setState hpid _)

/-- A packet, wherever it goes. -/
theorem HasVisited.route (h : HasVisited pid seen d) (offset : Nat) (p : Packet) :
    HasVisited pid (seen ++ d.visitsOf pid p) (d.route offset p).state := by
  by_cases hown : p.pid = pid ∧ ∃ s, d.directory.state? pid = some (.psi s)
  · obtain ⟨hpid, s, hstate⟩ := hown
    exact h.route_own offset hpid hstate
  · have hother : p.pid = pid → ∀ s, d.directory.state? pid ≠ some (.psi s) :=
      fun hpid s hstate => hown ⟨hpid, s, hstate⟩
    rw [visitsOf_of_other hother, List.append_nil]
    exact h.route_other offset hother

/-- What arrives in a run of events in which no packet is shown. -/
theorem visitsAmong_of_no_packet {events : List Event} (h : ∀ p, Event.packet p ∉ events) :
    d.visitsAmong pid events = [] := by
  refine List.flatMap_eq_nil_iff.mpr fun event hevent => ?_
  cases event with
  | packet p => exact absurd hevent (h p)
  | _ => rfl

/-- Where a packet is taken it is the only one that is shown. -/
theorem visitsAmong_of_packet {p : Packet} {events : List Event}
    (h : ∀ q, Event.packet q ∉ events) (notices : List Notice) :
    d.visitsAmong pid (Event.ofNotices notices ++ ([.packet p] ++ events)) = d.visitsOf pid p := by
  have hnotices : d.visitsAmong pid (Event.ofNotices notices) = [] :=
    visitsAmong_of_no_packet fun q => Event.packet_notMem_ofNotices q notices
  have hevents : d.visitsAmong pid events = [] := visitsAmong_of_no_packet h
  unfold visitsAmong at *
  rw [List.flatMap_append, List.flatMap_append, hnotices, hevents, List.flatMap_singleton,
    List.nil_append, List.append_nil]

/-- Where no packet is shown no section arrives, and if no state changes none is forgotten. -/
theorem HasVisited.still (h : HasVisited pid seen d) {o : Outcome Demuxer}
    (hpackets : ∀ p, Event.packet p ∉ o.events) (hdirectory : o.state.directory = d.directory) :
    HasVisited pid (seen ++ d.visitsAmong pid o.events) o.state := by
  rw [visitsAmong_of_no_packet hpackets, List.append_nil]
  exact h.of_directory_eq hdirectory

/-- The end of the stream brings no sections to light. -/
theorem HasVisited.flush (h : HasVisited pid seen d) :
    HasVisited pid (seen ++ d.visitsAmong pid d.flush.events) d.flush.state := by
  unfold Demuxer.flush
  split
  · exact h.still (fun p hp => by cases hp) rfl
  · rw [visitsAmong_of_no_packet fun p => Event.packet_notMem_ofFrames p _, List.append_nil]
    have hflushed := d.directory.state?_flushed pid
    refine ⟨h.fits.flush, h.decided, fun s hs => h.remembered s ?_, fun hnone => h.nothing ?_⟩
    · obtain ⟨state, hstate, hflush⟩ := Option.map_eq_some_iff.mp (hflushed.symm.trans hs)
      cases state <;> cases hflush
      exact hstate
    · exact Option.map_eq_none_iff.mp (hflushed.symm.trans hnone)

/-- A packet after the end of the stream brings none to light either. -/
theorem HasVisited.latePacket (h : HasVisited pid seen d) (notices : List Notice) :
    HasVisited pid (seen ++ d.visitsAmong pid (d.latePacket.after (Event.ofNotices notices)).events)
      (d.latePacket.after (Event.ofNotices notices)).state := by
  refine h.still (fun p hp => ?_) d.directory_latePacket
  rcases List.mem_append.mp hp with hp | hp
  · exact Event.packet_notMem_ofNotices p notices hp
  · unfold Demuxer.latePacket at hp
    split at hp <;> simp at hp

/-- A packet, as it is found. -/
theorem HasVisited.packetAt (h : HasVisited pid seen d) (notices : List Notice) (offset : Nat)
    (bytes : Bytes) :
    HasVisited pid
      (seen ++ d.visitsAmong pid ((d.packetAt offset bytes).after (Event.ofNotices notices)).events)
      ((d.packetAt offset bytes).after (Event.ofNotices notices)).state := by
  unfold Demuxer.packetAt
  split
  · refine h.still (fun p hp => ?_) rfl
    have hnotice : .packet p ∈ Event.ofNotices notices ++ [] := hp
    rw [List.append_nil] at hnotice
    exact Event.packet_notMem_ofNotices p notices hnotice
  · next p _ =>
    -- Where the next packet is expected makes no difference to the sections.
    have hmoved : HasVisited pid seen { d with nextOffset := offset + Packet.size } :=
      h.of_directory_eq rfl
    dsimp only
    split
    · exact hmoved.latePacket notices
    · have hnext := hmoved.route offset p
      rw [← visitsAmong_of_packet (routed_route _ offset p).packets notices] at hnext
      exact hnext

/-- **One act.**  The sections that arrive are decided, and remembered. -/
theorem HasVisited.act (h : HasVisited pid seen d) {o : Outcome Demuxer} (hact : d.Act o) :
    HasVisited pid (seen ++ d.visitsAmong pid o.events) o.state := by
  cases hact with
  | failure e => exact h.still (fun p hp => by cases hp) rfl
  | late notices => exact h.latePacket notices
  | flush => exact h.flush
  | packet notices offset bytes => exact h.packetAt notices offset bytes

/-- All moments of an operation. -/
theorem HasVisited.joined {ms : List Moment} {o : Outcome Demuxer} (h : HasVisited pid seen d)
    (hjoined : Joined d ms o) (hacts : ∀ m ∈ ms, m.before.Act m.outcome) :
    HasVisited pid (seen ++ ms.flatMap (Moment.visits pid)) o.state := by
  induction hjoined generalizing seen with
  | last m =>
    rw [List.flatMap_singleton]
    exact h.act (hacts m List.mem_cons_self)
  | @cons m ms o first others ih =>
    have hfirst := h.act (hacts m List.mem_cons_self)
    rw [List.flatMap_cons, ← List.append_assoc]
    exact ih hfirst fun m hm => hacts m (List.mem_cons_of_mem _ hm)

/-- All operations. -/
theorem HasVisited.afterAll (h : HasVisited pid seen d) (ops : List Operation) :
    HasVisited pid (seen ++ d.visits pid ops) (d.afterAll ops) := by
  induction ops generalizing seen d with
  | nil =>
    rw [visits, List.append_nil]
    exact h
  | cons op ops ih =>
    have hacts : ∀ m ∈ d.moments op, m.before.Act m.outcome := fun m hm =>
      (holds_at_moments (P := fun _ => True) (fun _ _ _ _ => trivial) trivial hm).1
    rw [visits, ← List.append_assoc]
    exact ih (h.joined (apply_eq_joined d op) hacts)

/-- **Which sections are looked into.**  Of any sections that arrive one after the other where none
have arrived yet, exactly those are looked into that belong to the expected table, are in force, and
do not repeat one since which the table has had the same version; the others are passed over.  So it
is on each PID, whatever operations bring the sections there.  For this only those sections count
that are eligible themselves and belong to the same instance of the table. -/
theorem sections_decided (pid : Pid) :
    (∀ (kind : TableKind) (directory : Directory) (sections : List TableSection),
      let received := SectionVisit.each pid kind { directory, versions := .empty } sections
      received.map SectionVisit.found = sections ∧
        ∀ earlier v later, received = earlier ++ v :: later →
          v.IsDecided pid kind (earlier.map SectionVisit.found)) ∧
      (∀ (options : DemuxOptions) (ops : List Operation) (earlier : List SectionVisit)
        (v : SectionVisit) (later : List SectionVisit),
        ({ options } : Demuxer).visits pid ops = earlier ++ v :: later →
          v.IsDecided pid (.on pid) (earlier.map SectionVisit.found)) ∧
      ∀ (kind : TableKind) (before : List TableSection) (s : TableSection), s.IsDue kind before ↔
        s.IsDue kind (before.filter fun t => s.Concerns kind t) := by
  refine ⟨fun kind directory sections => ?_, fun options ops earlier v later hvisits => ?_,
    fun kind before s => ?_⟩
  · have hdecided := SectionVisit.decided_each (r := { directory, versions := .empty })
      (recalls_nil kind) pid sections
    refine ⟨SectionVisit.map_found_each _ pid kind sections, fun earlier v later hreceived => ?_⟩
    rw [hreceived] at hdecided
    exact hdecided.of_eq
  · have hdecided := ((hasVisited_new pid options).afterAll ops).decided
    rw [List.nil_append, hvisits] at hdecided
    exact hdecided.of_eq
  · rw [TableSection.IsDue, TableSection.IsDue, TableSection.isRepeated_filter_iff]

end Demuxer

end TransportStream
