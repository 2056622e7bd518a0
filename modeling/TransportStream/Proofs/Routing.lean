import TransportStream.Demuxer.Basic
import TransportStream.Proofs.TableGrowth

/-!
# What one packet changes

A packet is passed to the stream of its PID, and what that changes is listed here once, for all that
is said about states and frames later.

* `PesStream.feeds_packet`: a stream cuts the data of a packet into frames, or leaves its framer as
  it is.
* `Directory.Grows`: what is announced stays announced, and states that are there stay the same.
* `SectionReceiver.grows_drive`: sections let the directory grow, and do nothing else to it.
* `SectionReceiver.Alike.drive`: two receivers of the same payload stay alike.
* `Demuxer.routed_route`: a packet goes to a stream that is cut into frames, to one that carries
  sections, or nowhere.
-/

namespace TransportStream

/-! ## Packets of streams that are cut into frames -/

namespace PesStream

/-- What data comes to for a stream: either the framer has taken it, and the frames are those that
it has completed, or it is the same framer and there are no frames. -/
structure Feeds (s : PesStream) (o : Outcome PesStream) : Prop where
  /-- The PID stays the same. -/
  pid : o.state.pid = s.pid
  /-- Packets are shown before, if at all. -/
  packets : ∀ p, Event.packet p ∉ o.events
  /-- The framer takes the data, or does not. -/
  framer : (o.state.framer = s.framer ∧ o.events.filterMap Event.frame? = []) ∨
    ∃ data unitStart timing,
      s.framer.push data unitStart timing = (o.state.framer, o.events.filterMap Event.frame?)

variable {s : PesStream}

/-- Nothing is taken where only notices are shown. -/
theorem feeds_of_notices {o : Outcome PesStream} (notices : List Notice)
    (hpid : o.state.pid = s.pid) (hframer : o.state.framer = s.framer)
    (hevents : o.events = Event.ofNotices notices) : s.Feeds o := by
  refine ⟨hpid, fun p => ?_, .inl ⟨hframer, ?_⟩⟩
  · rw [hevents]
    exact Event.packet_notMem_ofNotices p notices
  · rw [hevents]
    exact Event.filterMap_frame?_ofNotices notices

theorem feeds_take (s : PesStream) (offset : Nat) (unitStart : Bool) (payload : Bytes) :
    s.Feeds (s.take offset unitStart payload) := by
  unfold take
  generalize (if unitStart then s.accumulator.unitStart payload
    else s.accumulator.continuation payload) = step
  dsimp only
  split
  · next first _ =>
    refine ⟨rfl, fun p hp => ?_,
      .inr ⟨step.accumulator.available, first, step.accumulator.timing, ?_⟩⟩
    · rcases List.mem_append.mp hp with hp | hp
      · exact Event.packet_notMem_ofNotices p _ hp
      · exact Event.packet_notMem_ofFrames p _ hp
    · rw [List.filterMap_append, Event.filterMap_frame?_ofNotices,
        Event.filterMap_frame?_ofFrames, List.nil_append]
  · exact feeds_of_notices step.notices rfl rfl rfl
  · exact feeds_of_notices step.notices rfl rfl rfl
  · exact feeds_of_notices step.notices rfl rfl rfl
  · next e _ _ =>
    exact feeds_of_notices (step.notices ++ [.pesDiscarded s.pid offset e]) rfl rfl
      (by simp [Event.ofNotices])

theorem feeds_take? (s : PesStream) (offset : Nat) (unitStart : Bool) (payload : Option Bytes) :
    s.Feeds (s.take? offset unitStart payload) := by
  cases payload with
  | none => exact feeds_of_notices [] rfl rfl rfl
  | some payload => exact s.feeds_take offset unitStart payload

/-- A notice in front changes nothing. -/
theorem Feeds.after {o : Outcome PesStream} (h : s.Feeds o) (n : Notice) :
    s.Feeds (o.after [.notice n]) := by
  refine ⟨h.pid, fun p hp => ?_, h.framer⟩
  rcases List.mem_cons.mp hp with heq | hp
  · cases heq
  · exact h.packets p hp

/-- A packet is data for the framer, or nothing to it. -/
theorem feeds_packet (s : PesStream) (options : DemuxOptions) (offset : Nat) (p : Packet)
    (payload : Option Bytes) : s.Feeds (s.packet options offset p payload) := by
  -- The counter, and a loss, change parts that have no influence on the framer.
  have hchanged : ∀ changed : PesStream, changed.pid = s.pid → changed.framer = s.framer →
      s.Feeds (changed.take? offset p.unitStart payload) := by
    intro changed hpid hframer
    have h := changed.feeds_take? offset p.unitStart payload
    exact ⟨h.pid.trans hpid, h.packets, hframer ▸ h.framer⟩
  unfold packet
  split
  · split
    · exact hchanged _ rfl rfl
    · exact feeds_of_notices [.duplicatePacket s.pid p.counter] rfl rfl rfl
    · dsimp only
      split
      · refine Feeds.after ?_ _
        exact hchanged _ rfl rfl
      · refine Feeds.after ?_ _
        exact hchanged _ rfl rfl
  · exact hchanged s rfl rfl

end PesStream

/-! ## Sections -/

namespace Directory

/-- What was announced is announced, and what had a state has the same state. -/
structure Grows (d d' : Directory) : Prop where
  /-- The table is extended. -/
  table : d.table.Extends d'.table
  /-- States that are there stay the same. -/
  states : ∀ {pid state}, d.state? pid = some state → d'.state? pid = some state

variable {d d' d'' : Directory}

theorem Grows.refl (d : Directory) : d.Grows d :=
  ⟨.refl d.table, id⟩

theorem Grows.trans (h : d.Grows d') (h' : d'.Grows d'') : d.Grows d'' :=
  ⟨h.table.trans h'.table, fun hs => h'.states (h.states hs)⟩

theorem grows_applyPat (d : Directory) (pat : PatSection) : d.Grows (d.applyPat pat).1 := by
  refine ⟨d.table.extends_applyPat pat, fun {pid state} hstate => ?_⟩
  rw [state?_applyPat, hstate, Option.some_or]

/-- A PID that has no state gets one if a stream is added on it. -/
theorem state?_applyPmt_added (d : Directory) (pmtPid : Pid) (program : Nat) (pmt : PmtSection)
    (pid : Pid) :
    (d.applyPmt pmtPid program pmt).1.state? pid = (d.state? pid).or
      (((d.table.applyPmt pmtPid program pmt).added.find? fun b => b.pid = pid).map
        .ofBinding) :=
  get?_foldl_ensure (fun b : StreamBinding => b.pid) .ofBinding _ d.states pid

theorem grows_applyPmt (d : Directory) (pmtPid : Pid) (program : Nat) (pmt : PmtSection) :
    d.Grows (d.applyPmt pmtPid program pmt).1 := by
  refine ⟨ProgramTable.extends_applyPmt pmtPid program pmt d.table, fun {pid state} hstate => ?_⟩
  rw [state?_applyPmt_added, hstate, Option.some_or]

end Directory

namespace SectionReceiver

variable {P : Directory → Prop}

/-- What the sections of both tables keep is kept by everything that a payload brings to light. -/
theorem holds_receive (hpat : ∀ d pat, P d → P (d.applyPat pat).1)
    (hpmt : ∀ d pmtPid program pmt, P d → P (d.applyPmt pmtPid program pmt).1)
    {r : SectionReceiver} (hr : P r.directory) (verifyCrc : Bool) (pid : Pid) (kind : TableKind)
    (output : SectionOutput) : P (r.receive verifyCrc pid kind output).1.directory := by
  have hfollow : ∀ (r : SectionReceiver) (s : TableSection), P r.directory →
      P (r.follow pid kind s).1.directory := by
    intro r s hr
    unfold follow
    split
    · split
      · exact hr
      · exact hpat _ _ hr
    · split
      · exact hr
      · exact hpmt _ _ _ _ hr
  cases output with
  | notice n => exact hr
  | whole bytes =>
    rw [receive]
    split
    · exact hr
    · next s _ =>
      unfold table
      split
      · exact hr
      · split
        · exact hr
        · dsimp only
          split
          · exact hfollow _ s hr
          · exact hr

theorem holds_driveOutputs (hpat : ∀ d pat, P d → P (d.applyPat pat).1)
    (hpmt : ∀ d pmtPid program pmt, P d → P (d.applyPmt pmtPid program pmt).1)
    {r : SectionReceiver} (hr : P r.directory) (verifyCrc : Bool) (pid : Pid) (kind : TableKind)
    (outputs : List SectionOutput) :
    P (driveOutputs (receive verifyCrc pid kind) r outputs).1.directory := by
  induction outputs generalizing r with
  | nil => exact hr
  | cons output outputs ih =>
    have hnext := holds_receive hpat hpmt hr verifyCrc pid kind output
    rw [driveOutputs]
    generalize r.receive verifyCrc pid kind output = received at hnext
    obtain ⟨next, e⟩ := received
    cases e with
    | some e => exact hnext
    | none => exact ih hnext

/-- What the sections of both tables keep is kept by a payload. -/
theorem holds_drive (hpat : ∀ d pat, P d → P (d.applyPat pat).1)
    (hpmt : ∀ d pmtPid program pmt, P d → P (d.applyPmt pmtPid program pmt).1)
    {r : SectionReceiver} (hr : P r.directory) (verifyCrc : Bool) (pid : Pid) (kind : TableKind)
    (f : Feed) : P (f.drive (receive verifyCrc pid kind) r).1.directory := by
  have h := holds_driveOutputs hpat hpmt hr verifyCrc pid kind f.outputs
  rw [Feed.drive]
  generalize driveOutputs (receive verifyCrc pid kind) r f.outputs = driven at h
  obtain ⟨last, e⟩ := driven
  cases e <;> exact h

/-- Sections announce something or nothing. -/
theorem grows_drive (r : SectionReceiver) (verifyCrc : Bool) (pid : Pid) (kind : TableKind)
    (f : Feed) : r.directory.Grows (f.drive (receive verifyCrc pid kind) r).1.directory :=
  holds_drive (P := r.directory.Grows) (fun d pat h => h.trans (d.grows_applyPat pat))
    (fun d pmtPid program pmt h => h.trans (d.grows_applyPmt pmtPid program pmt))
    (.refl r.directory) verifyCrc pid kind f

end SectionReceiver

/-! ## Two receivers of the same sections -/

/-- A relation of directories that holds after a section of either table if it holds before. -/
structure Directory.IsKept (R : Directory → Directory → Prop) : Prop where
  /-- Sections of the association table keep it. -/
  applyPat : ∀ {d d'} (pat : PatSection), R d d' → R (d.applyPat pat).1 (d'.applyPat pat).1
  /-- Sections of the map table of a program keep it. -/
  applyPmt : ∀ {d d'} (pmtPid : Pid) (program : Nat) (pmt : PmtSection), R d d' →
    R (d.applyPmt pmtPid program pmt).1 (d'.applyPmt pmtPid program pmt).1

namespace SectionReceiver

/-- The directories of the receivers are related, and both have seen the same sections. -/
structure Alike (R : Directory → Directory → Prop) (r r' : SectionReceiver) : Prop where
  /-- The directories are related. -/
  directory : R r.directory r'.directory
  /-- The same sections have been seen. -/
  versions : r.versions = r'.versions

variable {R : Directory → Directory → Prop} {r r' : SectionReceiver}

theorem Alike.follow (hR : Directory.IsKept R) (h : Alike R r r') (pid : Pid) (kind : TableKind)
    (s : TableSection) :
    Alike R (r.follow pid kind s).1 (r'.follow pid kind s).1 ∧
      (r.follow pid kind s).2 = (r'.follow pid kind s).2 := by
  unfold SectionReceiver.follow
  cases kind with
  | pat =>
    cases PatSection.ofBytes s.body with
    | error e => exact ⟨h, rfl⟩
    | ok pat => exact ⟨⟨hR.applyPat pat h.directory, h.versions⟩, rfl⟩
  | pmt =>
    cases PmtSection.ofBytes s.body with
    | error e => exact ⟨h, rfl⟩
    | ok pmt => exact ⟨⟨hR.applyPmt pid _ pmt h.directory, h.versions⟩, rfl⟩

theorem Alike.table (hR : Directory.IsKept R) (h : Alike R r r') (pid : Pid) (kind : TableKind)
    (s : TableSection) :
    Alike R (r.table pid kind s).1 (r'.table pid kind s).1 ∧
      (r.table pid kind s).2 = (r'.table pid kind s).2 := by
  have hfilter : r.filterFor s.table = r'.filterFor s.table := by
    rw [filterFor, filterFor, h.versions]
  unfold SectionReceiver.table
  dsimp only
  rw [hfilter]
  split
  · exact ⟨⟨h.directory, h.versions⟩, rfl⟩
  · split
    · exact ⟨h, rfl⟩
    · split
      · refine Alike.follow hR ?_ pid kind s
        exact ⟨h.directory, by rw [h.versions]⟩
      · exact ⟨h, rfl⟩

/-- What a payload brings to light leaves the receivers alike. -/
theorem Alike.receive (hR : Directory.IsKept R) (h : Alike R r r') (verifyCrc : Bool) (pid : Pid)
    (kind : TableKind) (output : SectionOutput) :
    Alike R (r.receive verifyCrc pid kind output).1 (r'.receive verifyCrc pid kind output).1 ∧
      (r.receive verifyCrc pid kind output).2 = (r'.receive verifyCrc pid kind output).2 := by
  cases output with
  | notice n => exact ⟨⟨h.directory, h.versions⟩, rfl⟩
  | whole bytes =>
    rw [SectionReceiver.receive, SectionReceiver.receive]
    cases TableSection.ofBytes bytes verifyCrc with
    | error e => exact ⟨h, rfl⟩
    | ok s => exact h.table hR pid kind s

theorem Alike.driveOutputs (hR : Directory.IsKept R) (h : Alike R r r') (verifyCrc : Bool)
    (pid : Pid) (kind : TableKind) (outputs : List SectionOutput) :
    Alike R (driveOutputs (SectionReceiver.receive verifyCrc pid kind) r outputs).1
        (driveOutputs (SectionReceiver.receive verifyCrc pid kind) r' outputs).1 ∧
      (driveOutputs (SectionReceiver.receive verifyCrc pid kind) r outputs).2 =
        (driveOutputs (SectionReceiver.receive verifyCrc pid kind) r' outputs).2 := by
  induction outputs generalizing r r' with
  | nil => exact ⟨h, rfl⟩
  | cons output outputs ih =>
    obtain ⟨hnext, herror⟩ := h.receive hR verifyCrc pid kind output
    rw [TransportStream.driveOutputs, TransportStream.driveOutputs]
    generalize r.receive verifyCrc pid kind output = received at hnext herror
    generalize r'.receive verifyCrc pid kind output = received' at hnext herror
    obtain ⟨next, e⟩ := received
    obtain ⟨next', e'⟩ := received'
    obtain rfl : e = e' := herror
    cases e with
    | some e => exact ⟨hnext, rfl⟩
    | none => exact ih hnext

/-- A payload leaves the receivers alike, and the same is in progress afterwards. -/
theorem Alike.drive (hR : Directory.IsKept R) (h : Alike R r r') (verifyCrc : Bool) (pid : Pid)
    (kind : TableKind) (f : Feed) :
    Alike R (f.drive (SectionReceiver.receive verifyCrc pid kind) r).1
        (f.drive (SectionReceiver.receive verifyCrc pid kind) r').1 ∧
      (f.drive (SectionReceiver.receive verifyCrc pid kind) r).2 =
        (f.drive (SectionReceiver.receive verifyCrc pid kind) r').2 := by
  obtain ⟨hlast, herror⟩ := h.driveOutputs hR verifyCrc pid kind f.outputs
  rw [Feed.drive, Feed.drive]
  generalize TransportStream.driveOutputs (SectionReceiver.receive verifyCrc pid kind) r
    f.outputs = driven at hlast herror
  generalize TransportStream.driveOutputs (SectionReceiver.receive verifyCrc pid kind) r'
    f.outputs = driven' at hlast herror
  obtain ⟨last, e⟩ := driven
  obtain ⟨last', e'⟩ := driven'
  obtain rfl : e = e' := herror
  cases e with
  | some e => exact ⟨hlast, rfl⟩
  | none => exact ⟨hlast, rfl⟩

end SectionReceiver

/-! ## Routing -/

namespace Demuxer

/-- Where a packet can go. -/
inductive Routed (d : Demuxer) (offset : Nat) (p : Packet) : Outcome Demuxer → Prop
  /-- Nowhere: at most the PID is noted. -/
  | nowhere {o : Outcome Demuxer} (notices : List Notice)
      (state : o.state = { d with unannounced := o.state.unannounced })
      (events : o.events = Event.ofNotices notices) : Routed d offset p o
  /-- To a stream that is cut into frames. -/
  | pes {s : PesStream} (payload : Option Bytes)
      (state : d.directory.state? p.pid = some (.pes s)) :
      Routed d offset p ((s.packet d.options offset p payload).map fun s =>
        { d with directory := d.directory.setState p.pid (.pes s) })
  /-- To a stream that carries sections. -/
  | psi {s : PsiStream} (payload : Bytes) (state : d.directory.state? p.pid = some (.psi s)) :
      Routed d offset p (d.sectionPacket s offset p payload)

variable {d : Demuxer} {offset : Nat} {p : Packet}

theorem routed_withPayload {next : Option Bytes → Outcome Demuxer}
    (h : ∀ payload, Routed d offset p (next payload)) :
    Routed d offset p (d.withPayload offset p next) := by
  unfold withPayload
  split
  · exact .nowhere [.transportError p.pid offset] rfl rfl
  · split
    · exact .nowhere [] rfl rfl
    · exact h _

/-- A packet goes to the stream of its PID, or nowhere. -/
theorem routed_route (d : Demuxer) (offset : Nat) (p : Packet) :
    Routed d offset p (d.route offset p) := by
  unfold route
  split
  · unfold unannouncedPacket
    split
    · exact .nowhere [] rfl rfl
    · exact .nowhere [.unannouncedPid p.pid] rfl rfl
  · exact .nowhere [] rfl rfl
  · next s hstate => exact routed_withPayload fun payload => .pes payload hstate
  · next s hstate =>
    refine routed_withPayload fun payload => ?_
    cases payload with
    | none => exact .nowhere [] rfl rfl
    | some payload => exact .psi payload hstate

/-- A packet does not end the stream. -/
theorem flushed_packetAt (h : d.flushed = false) (offset : Nat) (bytes : Bytes) :
    (d.packetAt offset bytes).state.flushed = false := by
  unfold packetAt
  split
  · exact h
  · next p _ =>
    have hrouted := routed_route { d with nextOffset := offset + Packet.size } offset p
    simp only [h, Bool.false_eq_true, if_false] at hrouted ⊢
    change (route _ offset p).state.flushed = false
    generalize route _ offset p = o at hrouted ⊢
    cases hrouted with
    | nowhere notices state events => rw [state]
    | pes payload state => rfl
    | psi payload state => rfl

/-- Where a packet goes shows no packets. -/
theorem Routed.packets {o : Outcome Demuxer} (h : Routed d offset p o) (q : Packet) :
    .packet q ∉ o.events := by
  cases h with
  | nowhere notices state events =>
    rw [events]
    exact Event.packet_notMem_ofNotices q _
  | @pes s payload state => exact (s.feeds_packet d.options offset p payload).packets q
  | psi payload state => exact Event.packet_notMem_ofNotices q _

/-- A packet that carries sections lets the directory grow, in a way that keeps what the sections of
both tables keep, and its stream goes on.  It completes no frames. -/
theorem sectionPacket_cases {P : Directory → Prop} (hpat : ∀ d pat, P d → P (d.applyPat pat).1)
    (hpmt : ∀ d pmtPid program pmt, P d → P (d.applyPmt pmtPid program pmt).1)
    (hd : P d.directory) (s : PsiStream) (offset : Nat) (p : Packet) (payload : Bytes) :
    ∃ grown next, P grown ∧ d.directory.Grows grown ∧ next.kind = s.kind ∧
      (d.sectionPacket s offset p payload).state.directory = grown.setState p.pid (.psi next) ∧
      (d.sectionPacket s offset p payload).events.filterMap Event.frame? = [] := by
  let driven := (s.buffer.push p.unitStart payload).drive
    (SectionReceiver.receive d.options.verifyCrc p.pid s.kind)
    { directory := d.directory, versions := s.versions }
  refine ⟨driven.1.directory, { s with buffer := driven.2.1, versions := driven.1.versions },
    ?_, ?_, rfl, rfl, Event.filterMap_frame?_ofNotices _⟩
  · exact SectionReceiver.holds_drive hpat hpmt hd _ _ _ _
  · exact SectionReceiver.grows_drive { directory := d.directory, versions := s.versions } _ _ _ _

end Demuxer

end TransportStream
