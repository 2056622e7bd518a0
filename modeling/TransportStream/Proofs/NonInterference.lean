import TransportStream.Proofs.DirectoryAgreement

/-!
# Streams do not interfere

What is handed out for a PID depends on its own packets and on those that carry tables.  Packets on
other PIDs can be put in, left out and put in another order, whether or not they are announced, cut
into frames, malformed or in error.

Two demultiplexers are compared that take different packets.  For one PID they are alike if they
know the same table, have the same state for that PID, and have states of the same kind for all
others, where states that carry sections have to be the same altogether.

* `Directory.Like`, `Demuxer.Like`: the relation.
* `Demuxer.like_push`: it is kept by a packet that both take.
* `Demuxer.like_of_aside`: it is kept by a packet that one of them takes, if that is not on the PID
  and carries no sections.
* `Demuxer.like_afterAll`: so it is kept while one of them takes the packets that concern the PID,
  and the other one these and more.
* `Demuxer.frames_independent`: what is handed out for a PID depends on these packets alone.
-/

namespace TransportStream

/-- The state without what is known about elementary streams. -/
def PidState.veil : PidState → PidState
  | psi s => psi s
  | pes _ => unframed
  | unframed => unframed

/-! ## Directories -/

namespace Directory

/-- The directories are the same to one PID. -/
structure Like (pid : Pid) (d d' : Directory) : Prop where
  /-- The same is announced. -/
  table : d.table = d'.table
  /-- The state of the PID is the same. -/
  own : d.state? pid = d'.state? pid
  /-- The states of all PIDs are of the same kind, and the same if they carry sections. -/
  others : ∀ other, (d.state? other).map PidState.veil = (d'.state? other).map PidState.veil

variable {pid : Pid} {d d' d'' : Directory}

theorem Like.refl (pid : Pid) (d : Directory) : Like pid d d :=
  ⟨rfl, rfl, fun _ => rfl⟩

theorem Like.symm (h : Like pid d d') : Like pid d' d :=
  ⟨h.table.symm, h.own.symm, fun other => (h.others other).symm⟩

theorem Like.trans (h : Like pid d d') (h' : Like pid d' d'') : Like pid d d'' :=
  ⟨h.table.trans h'.table, h.own.trans h'.own,
    fun other => (h.others other).trans (h'.others other)⟩

/-- A state that carries sections is the same in both. -/
theorem Like.state?_psi (h : Like pid d d') {other : Pid} {s : PsiStream}
    (hs : d.state? other = some (.psi s)) : d'.state? other = some (.psi s) := by
  have hveil := h.others other
  rw [hs] at hveil
  match hs' : d'.state? other with
  | some (.psi s') =>
    rw [hs'] at hveil
    obtain rfl : s = s' := by simpa [PidState.veil] using hveil
    rfl
  | some (.pes s') => simp [hs', PidState.veil] at hveil
  | some .unframed => simp [hs', PidState.veil] at hveil
  | none => simp [hs'] at hveil

/-- What announces the same to both leaves them alike. -/
theorem Like.of_announced (h : Like pid d d') {e e' : Directory} {new : Pid → Option PidState}
    (htable : e.table = e'.table) (he : ∀ other, e.state? other = (d.state? other).or (new other))
    (he' : ∀ other, e'.state? other = (d'.state? other).or (new other)) : Like pid e e' := by
  refine ⟨htable, ?_, fun other => ?_⟩
  · rw [he, he', h.own]
  · rw [he, he', Option.map_or, Option.map_or, h.others other]

theorem Like.applyPat (h : Like pid d d') (pat : PatSection) :
    Like pid (d.applyPat pat).1 (d'.applyPat pat).1 := by
  have htable : (d.table.applyPat pat).1 = (d'.table.applyPat pat).1 := by rw [h.table]
  refine h.of_announced htable (state?_applyPat pat) fun other => ?_
  rw [state?_applyPat, htable]

theorem Like.applyPmt (h : Like pid d d') (pmtPid : Pid) (program : Nat) (pmt : PmtSection) :
    Like pid (d.applyPmt pmtPid program pmt).1 (d'.applyPmt pmtPid program pmt).1 := by
  have htable : d.table.applyPmt pmtPid program pmt = d'.table.applyPmt pmtPid program pmt := by
    rw [h.table]
  refine h.of_announced (congrArg ProgramTable.Additions.table htable)
    (d.state?_applyPmt_added pmtPid program pmt) fun other => ?_
  rw [state?_applyPmt_added, htable]

theorem isKept_like (pid : Pid) : IsKept (Like pid) :=
  ⟨fun pat h => h.applyPat pat, fun pmtPid program pmt h => h.applyPmt pmtPid program pmt⟩

/-- The same state, set in both, leaves them alike. -/
theorem Like.setState (h : Like pid d d') (other : Pid) (state : PidState) :
    Like pid (d.setState other state) (d'.setState other state) := by
  have hset : ∀ q, (d.setState other state).state? q = (d'.setState other state).state? q ∨
      (d.setState other state).state? q = d.state? q ∧
        (d'.setState other state).state? q = d'.state? q := by
    intro q
    by_cases hq : other = q
    · subst hq
      exact .inl (by rw [state?_setState_self, state?_setState_self])
    · exact .inr ⟨state?_setState_of_ne d hq state, state?_setState_of_ne d' hq state⟩
  refine ⟨h.table, ?_, fun q => ?_⟩
  · rcases hset pid with heq | ⟨hd, hd'⟩
    · exact heq
    · rw [hd, hd', h.own]
  · rcases hset q with heq | ⟨hd, hd'⟩
    · rw [heq]
    · rw [hd, hd', h.others q]

/-- A new state of an elementary stream on another PID is nothing to the PID. -/
theorem like_setState_pes {other : Pid} (hne : other ≠ pid) {s s' : PesStream}
    (hs : d.state? other = some (.pes s)) : Like pid (d.setState other (.pes s')) d := by
  refine ⟨rfl, state?_setState_of_ne d hne _, fun q => ?_⟩
  by_cases hq : other = q
  · subst hq
    rw [state?_setState_self, hs]
    rfl
  · rw [state?_setState_of_ne d hq]

end Directory

/-! ## Receiving sections -/

namespace SectionReceiver

/-- The receivers are the same to one PID, apart from what was notable. -/
structure Like (pid : Pid) (r r' : SectionReceiver) : Prop where
  /-- The directories are the same to it. -/
  directory : Directory.Like pid r.directory r'.directory
  /-- The same sections have been seen. -/
  versions : r.versions = r'.versions

variable {pid : Pid} {r r' : SectionReceiver}

/-- A payload leaves them alike, and the same is in progress afterwards. -/
theorem Like.drive (h : Like pid r r') (verifyCrc : Bool) (own : Pid) (kind : TableKind)
    (f : Feed) :
    Like pid (f.drive (SectionReceiver.receive verifyCrc own kind) r).1
        (f.drive (SectionReceiver.receive verifyCrc own kind) r').1 ∧
      (f.drive (SectionReceiver.receive verifyCrc own kind) r).2 =
        (f.drive (SectionReceiver.receive verifyCrc own kind) r').2 := by
  have halike : Alike (Directory.Like pid) r r' := ⟨h.directory, h.versions⟩
  obtain ⟨hlast, herror⟩ := halike.drive (Directory.isKept_like pid) verifyCrc own kind f
  exact ⟨⟨hlast.directory, hlast.versions⟩, herror⟩

end SectionReceiver

/-! ## Packets of elementary streams -/

namespace PesStream

/-- Where a packet starts is told in messages, and has no influence beside that. -/
theorem take_offset (s : PesStream) (offset offset' : Nat) (unitStart : Bool) (payload : Bytes) :
    (s.take offset unitStart payload).state = (s.take offset' unitStart payload).state ∧
      (s.take offset unitStart payload).events.filterMap Event.frame? =
        (s.take offset' unitStart payload).events.filterMap Event.frame? := by
  unfold take
  generalize (if unitStart then s.accumulator.unitStart payload
    else s.accumulator.continuation payload) = step
  dsimp only
  split
  · exact ⟨rfl, rfl⟩
  · exact ⟨rfl, rfl⟩
  · exact ⟨rfl, rfl⟩
  · exact ⟨rfl, rfl⟩
  · refine ⟨rfl, ?_⟩
    rw [List.filterMap_append, List.filterMap_append]
    rfl

theorem packet_offset (s : PesStream) (options : DemuxOptions) (offset offset' : Nat) (p : Packet)
    (payload : Option Bytes) :
    (s.packet options offset p payload).state = (s.packet options offset' p payload).state ∧
      (s.packet options offset p payload).events.filterMap Event.frame? =
        (s.packet options offset' p payload).events.filterMap Event.frame? := by
  have htake : ∀ s : PesStream,
      (s.take? offset p.unitStart payload).state = (s.take? offset' p.unitStart payload).state ∧
        (s.take? offset p.unitStart payload).events.filterMap Event.frame? =
          (s.take? offset' p.unitStart payload).events.filterMap Event.frame? := by
    intro s
    cases payload with
    | none => exact ⟨rfl, rfl⟩
    | some payload => exact s.take_offset offset offset' p.unitStart payload
  unfold packet
  split
  · split
    · exact htake _
    · exact ⟨rfl, rfl⟩
    · dsimp only
      split
      · exact htake _
      · exact htake _
  · exact htake s

end PesStream

/-! ## Demultiplexers -/

namespace Demuxer

/-- The demultiplexers are the same to one PID. -/
structure Like (pid : Pid) (d d' : Demuxer) : Prop where
  /-- They check equally strictly. -/
  options : d.options = d'.options
  /-- The end of the stream has been declared in both or in none. -/
  flushed : d.flushed = d'.flushed
  /-- The directories are the same to it. -/
  directory : Directory.Like pid d.directory d'.directory

/-- The frames of one PID among events. -/
def framesOf (pid : Pid) (events : List Event) : List Frame :=
  (events.filterMap Event.frame?).filter fun f => f.pid = pid

theorem framesOf_append (pid : Pid) (events later : List Event) :
    framesOf pid (events ++ later) = framesOf pid events ++ framesOf pid later := by
  rw [framesOf, List.filterMap_append, List.filter_append]
  rfl

theorem framesOf_ofNotices (pid : Pid) (notices : List Notice) :
    framesOf pid (Event.ofNotices notices) = [] := by
  rw [framesOf, Event.filterMap_frame?_ofNotices]
  rfl

variable {pid : Pid} {d d' d'' : Demuxer}

theorem Like.refl (pid : Pid) (d : Demuxer) : Like pid d d :=
  ⟨rfl, rfl, .refl pid d.directory⟩

theorem Like.symm (h : Like pid d d') : Like pid d' d :=
  ⟨h.options.symm, h.flushed.symm, h.directory.symm⟩

theorem Like.trans (h : Like pid d d') (h' : Like pid d' d'') : Like pid d d'' :=
  ⟨h.options.trans h'.options, h.flushed.trans h'.flushed, h.directory.trans h'.directory⟩

/-- What an outcome is to a PID that it does not concern: nothing. -/
def IsAside (pid : Pid) (d : Demuxer) (o : Outcome Demuxer) : Prop :=
  Like pid o.state d ∧ framesOf pid o.events = []

theorem aside_of_nowhere {o : Outcome Demuxer} {unannounced : List Pid} {notices : List Notice}
    (hstate : o.state = { d with unannounced })
    (hevents : o.events = Event.ofNotices notices) : IsAside pid d o := by
  refine ⟨?_, ?_⟩
  · rw [hstate]
    exact ⟨rfl, rfl, .refl pid d.directory⟩
  · rw [hevents, framesOf_ofNotices]

theorem aside_latePacket (pid : Pid) (d : Demuxer) : IsAside pid d d.latePacket := by
  unfold latePacket
  split
  · exact ⟨.refl pid d, rfl⟩
  · exact ⟨⟨rfl, rfl, .refl pid d.directory⟩, rfl⟩

theorem aside_unannouncedPacket (pid : Pid) (d : Demuxer) (other : Pid) :
    IsAside pid d (d.unannouncedPacket other) := by
  unfold unannouncedPacket
  split
  · exact ⟨.refl pid d, rfl⟩
  · exact ⟨⟨rfl, rfl, .refl pid d.directory⟩, rfl⟩

/-- A packet on another PID that carries no sections is nothing to the PID. -/
theorem aside_route {p : Packet} (hd : d.directory.Fits) (hne : p.pid ≠ pid)
    (hpsi : ∀ s, d.directory.state? p.pid ≠ some (.psi s)) (offset : Nat) :
    IsAside pid d (d.route offset p) := by
  have hrouted := d.routed_route offset p
  generalize d.route offset p = o at hrouted
  cases hrouted with
  | nowhere notices state events => exact aside_of_nowhere state events
  | psi payload state => exact absurd state (hpsi _)
  | @pes s payload state =>
    have hfits := hd.states p.pid
    rw [state] at hfits
    obtain ⟨b, hb, hfor⟩ := hfits
    have hfrom := (hfor.of_feeds (s.feeds_packet d.options offset p payload)).2
    refine ⟨⟨rfl, rfl, Directory.like_setState_pes hne state⟩, ?_⟩
    refine List.filter_eq_nil_iff.mpr fun f hf heq => hne ?_
    rw [← of_decide_eq_true heq, (hfrom f hf).1, hd.table.pid_eq hb]

/-- A packet that carries sections leaves them alike. -/
theorem like_sectionPacket (h : Like pid d d') (s : PsiStream) (offset offset' : Nat) (p : Packet)
    (payload : Bytes) :
    Like pid (d.sectionPacket s offset p payload).state
        (d'.sectionPacket s offset' p payload).state ∧
      framesOf pid (d.sectionPacket s offset p payload).events =
        framesOf pid (d'.sectionPacket s offset' p payload).events := by
  have hreceiver : SectionReceiver.Like pid
      { directory := d.directory, versions := s.versions }
      { directory := d'.directory, versions := s.versions } := ⟨h.directory, rfl⟩
  obtain ⟨hlast, hrest⟩ := hreceiver.drive d.options.verifyCrc p.pid s.kind
    (s.buffer.push p.unitStart payload)
  refine ⟨⟨h.options, h.flushed, ?_⟩, ?_⟩
  · rw [sectionPacket, sectionPacket, ← h.options]
    dsimp only
    rw [congrArg Prod.fst hrest, hlast.versions]
    exact hlast.directory.setState p.pid _
  · exact (framesOf_ofNotices pid _).trans (framesOf_ofNotices pid _).symm

/-- What is nothing to the PID on both sides leaves them alike. -/
theorem Like.of_aside (h : Like pid d d') {o o' : Outcome Demuxer} (ho : IsAside pid d o)
    (ho' : IsAside pid d' o') :
    Like pid o.state o'.state ∧ framesOf pid o.events = framesOf pid o'.events :=
  ⟨ho.1.trans (h.trans ho'.1.symm), ho.2.trans ho'.2.symm⟩

theorem like_withPayload (h : Like pid d d') {next next' : Option Bytes → Outcome Demuxer}
    (hnext : ∀ payload, Like pid (next payload).state (next' payload).state ∧
      framesOf pid (next payload).events = framesOf pid (next' payload).events)
    (offset offset' : Nat) (p : Packet) :
    Like pid (d.withPayload offset p next).state (d'.withPayload offset' p next').state ∧
      framesOf pid (d.withPayload offset p next).events =
        framesOf pid (d'.withPayload offset' p next').events := by
  unfold withPayload
  split
  · exact ⟨h, rfl⟩
  · cases p.payload with
    | error e => exact ⟨h, rfl⟩
    | ok payload => exact hnext payload

/-- A packet that both take leaves them alike. -/
theorem like_route (h : Like pid d d') (hd : d.directory.Fits) (hd' : d'.directory.Fits)
    (offset offset' : Nat) (p : Packet) :
    Like pid (d.route offset p).state (d'.route offset' p).state ∧
      framesOf pid (d.route offset p).events = framesOf pid (d'.route offset' p).events := by
  by_cases hpsi : ∃ s, d.directory.state? p.pid = some (.psi s)
  · obtain ⟨s, hs⟩ := hpsi
    have hs' := h.directory.state?_psi hs
    unfold route
    rw [hs, hs']
    refine like_withPayload h (fun payload => ?_) offset offset' p
    cases payload with
    | none => exact ⟨h, rfl⟩
    | some payload => exact like_sectionPacket h s offset offset' p payload
  · have hnot : ∀ s, d.directory.state? p.pid ≠ some (.psi s) := fun s hs => hpsi ⟨s, hs⟩
    have hnot' : ∀ s, d'.directory.state? p.pid ≠ some (.psi s) := fun s hs =>
      hpsi ⟨s, h.symm.directory.state?_psi hs⟩
    by_cases hne : p.pid = pid
    · -- It is a packet of the PID itself, whose state is the same in both.
      have hsame : d.directory.state? p.pid = d'.directory.state? p.pid := hne ▸ h.directory.own
      unfold route
      rw [← hsame]
      match hs : d.directory.state? p.pid with
      | none =>
        exact h.of_aside (aside_unannouncedPacket pid d _) (aside_unannouncedPacket pid d' _)
      | some .unframed => exact ⟨h, rfl⟩
      | some (.psi s) => exact absurd hs (hnot s)
      | some (.pes s) =>
        refine like_withPayload h (fun payload => ?_) offset offset' p
        obtain ⟨hstate, hframes⟩ := s.packet_offset d.options offset offset' p payload
        rw [← h.options]
        refine ⟨⟨rfl, h.flushed, ?_⟩, congrArg (List.filter fun f : Frame => f.pid = pid) hframes⟩
        have hset := h.directory.setState p.pid
          (.pes (s.packet d.options offset' p payload).state)
        rw [← hstate] at hset
        rw [Outcome.map, Outcome.map, ← hstate]
        exact hset
    · exact h.of_aside (aside_route hd hne hnot offset) (aside_route hd' hne hnot' offset')

/-- Bytes that both take leave them alike. -/
theorem like_push (h : Like pid d d') (hd : d.directory.Fits) (hd' : d'.directory.Fits)
    (bytes : Bytes) :
    Like pid (d.push bytes).state (d'.push bytes).state ∧
      framesOf pid (d.push bytes).events = framesOf pid (d'.push bytes).events := by
  unfold push packetAt
  cases Packet.ofBytes? bytes with
  | none => exact ⟨h, rfl⟩
  | some p =>
    have hnow : Like pid { d with nextOffset := d.nextOffset + Packet.size }
        { d' with nextOffset := d'.nextOffset + Packet.size } :=
      ⟨h.options, h.flushed, h.directory⟩
    dsimp only
    by_cases hflushed : d.flushed = true
    · rw [if_pos hflushed, if_pos (h.flushed ▸ hflushed)]
      exact hnow.of_aside (aside_latePacket pid _) (aside_latePacket pid _)
    · rw [if_neg hflushed, if_neg (h.flushed ▸ hflushed)]
      exact like_route hnow hd hd' _ _ p

/-- Bytes that do not concern a PID are nothing to it: no packet, or one on another PID that carries
no sections. -/
theorem aside_push {bytes : Bytes} (hd : d.directory.Fits)
    (h : ∀ p, Packet.ofBytes? bytes = some p →
      p.pid ≠ pid ∧ ∀ s, d.directory.state? p.pid ≠ some (.psi s)) :
    IsAside pid d (d.push bytes) := by
  unfold push packetAt
  cases hp : Packet.ofBytes? bytes with
  | none => exact ⟨.refl pid d, rfl⟩
  | some p =>
    obtain ⟨hne, hpsi⟩ := h p hp
    have hnow : Like pid { d with nextOffset := d.nextOffset + Packet.size } d :=
      ⟨rfl, rfl, .refl pid d.directory⟩
    dsimp only
    split
    · have hlate := aside_latePacket pid { d with nextOffset := d.nextOffset + Packet.size }
      exact ⟨hlate.1.trans hnow, hlate.2⟩
    · have hroute := aside_route (d := { d with nextOffset := d.nextOffset + Packet.size }) hd hne
        hpsi d.nextOffset
      exact ⟨hroute.1.trans hnow, hroute.2⟩

/-- What is left on a PID at the end of the stream is what the state of that PID leaves. -/
theorem framesOf_leftover (hd : d.directory.Fits) (pid : Pid) :
    framesOf pid (Event.ofFrames (d.directory.states.values.flatMap fun state => state.flush.2)) =
      ((d.directory.state? pid).map fun state => state.flush.2).getD [] := by
  rw [framesOf, Event.filterMap_frame?_ofFrames]
  refine SortedMap.filter_flatMap_values d.directory.states _ Frame.pid ?_ pid
  intro other state hstate f hf
  have hfits := hd.states other
  rw [show d.directory.state? other = some state from hstate] at hfits
  cases state with
  | psi s => cases hf
  | unframed => cases hf
  | pes s =>
    obtain ⟨b, hb, hfor⟩ := hfits
    rw [(hfor.flush.2 f hf).1, hd.table.pid_eq hb]

/-- The end of the stream leaves them alike. -/
theorem like_flush (h : Like pid d d') (hd : d.directory.Fits) (hd' : d'.directory.Fits) :
    d.flush.state.table = d'.flush.state.table ∧
      framesOf pid d.flush.events = framesOf pid d'.flush.events := by
  unfold flush
  by_cases hflushed : d.flushed = true
  · rw [if_pos hflushed, if_pos (h.flushed ▸ hflushed)]
    exact ⟨h.directory.table, rfl⟩
  · rw [if_neg hflushed, if_neg (h.flushed ▸ hflushed)]
    refine ⟨h.directory.table, ?_⟩
    rw [framesOf_leftover hd, framesOf_leftover hd', h.directory.own]

/-! ## Announcements last -/

/-- What was announced goes on being announced. -/
theorem extends_of_act {o : Outcome Demuxer} (h : d.Act o) : d.table.Extends o.state.table := by
  have hlate (d : Demuxer) : d.latePacket.state.table = d.table :=
    congrArg Directory.table d.directory_latePacket
  cases h with
  | failure e => exact .refl d.table
  | late notices =>
    show d.table.Extends d.latePacket.state.table
    rw [hlate]
    exact .refl d.table
  | flush =>
    unfold flush
    split <;> exact .refl d.table
  | packet notices offset bytes =>
    unfold packetAt
    split
    · exact .refl d.table
    · next p hp =>
      dsimp only
      split
      · show d.table.Extends (latePacket _).state.table
        rw [hlate]
        exact .refl d.table
      · have hrouted := routed_route { d with nextOffset := offset + Packet.size } offset p
        generalize route { d with nextOffset := offset + Packet.size } offset p = o at hrouted
        cases hrouted with
        | nowhere noted state events =>
          have htable : o.state.table = d.table := by
            rw [state]
            rfl
          show d.table.Extends o.state.table
          rw [htable]
          exact .refl d.table
        | pes payload state => exact .refl d.table
        | @psi s payload state =>
          exact (SectionReceiver.grows_drive { directory := d.directory, versions := s.versions }
            _ _ _ _).table

theorem extends_afterAll (d : Demuxer) (ops : List Operation) :
    d.table.Extends (d.afterAll ops).table :=
  holds_afterAll (P := fun later => d.table.Extends later.table)
    (fun _ _ hextends h => hextends.trans (extends_of_act h)) (.refl d.table) ops

/-! ## Whole streams -/

/-- The bytes are a packet that concerns the PID: it is on that PID, or on one that carries tables
of which the given one knows. -/
def concerns (t : ProgramTable) (pid : Pid) (bytes : Bytes) : Bool :=
  match Packet.ofBytes? bytes with
  | some p => decide (p.pid = pid) || decide (p.pid = .pat) || t.isPmtPid p.pid
  | none => false

/-- One takes packets, and the other one those that concern the PID.  The table that decides about
that may know all tables that are known to either of them at last. -/
theorem like_afterAll {t : ProgramTable} {packets : List Bytes} (h : Like pid d d')
    (hd : d.directory.Fits) (hd' : d'.directory.Fits)
    (ht : (d.afterAll (packets.map .push)).table.Extends t ∨
      (d'.afterAll ((packets.filter (concerns t pid)).map .push)).table.Extends t) :
    Like pid (d.afterAll (packets.map .push))
        (d'.afterAll ((packets.filter (concerns t pid)).map .push)) ∧
      framesOf pid (d.shown (packets.map .push)) =
        framesOf pid (d'.shown ((packets.filter (concerns t pid)).map .push)) := by
  induction packets generalizing d d' with
  | nil => exact ⟨h, rfl⟩
  | cons bytes packets ih =>
    have hfits : ∀ {d : Demuxer}, d.directory.Fits → (d.push bytes).state.directory.Fits :=
      fun {d} hd => (fits_orderly_of_act hd (.packet [] d.nextOffset bytes)).1
    by_cases hconcerns : concerns t pid bytes = true
    · rw [List.filter_cons_of_pos hconcerns] at ht ⊢
      obtain ⟨hnext, hframes⟩ := like_push h hd hd' bytes
      obtain ⟨hlast, hlater⟩ := ih hnext (hfits hd) (hfits hd') ht
      have happly : framesOf pid (d.apply (.push bytes)).events =
          framesOf pid (d'.apply (.push bytes)).events := hframes
      refine ⟨hlast, ?_⟩
      rw [List.map_cons, List.map_cons, shown, shown, framesOf_append, framesOf_append, happly]
      exact congrArg (framesOf pid (d'.apply (.push bytes)).events ++ ·) hlater
    · rw [List.filter_cons_of_neg hconcerns] at ht ⊢
      -- The packet carries no sections: a PID that does has been announced, and stays so.
      have haside : IsAside pid d (d.push bytes) := by
        refine aside_push hd fun p hp => ?_
        rw [concerns, hp] at hconcerns
        simp only [Bool.or_eq_true, decide_eq_true_eq, not_or, Bool.not_eq_true] at hconcerns
        obtain ⟨⟨hne, hpat⟩, hpmt⟩ := hconcerns
        refine ⟨hne, fun s hs => ?_⟩
        have hstate := hd.states p.pid
        rw [hs] at hstate
        rcases hstate with ⟨heq, -⟩ | ⟨hknown, -⟩
        · exact hpat heq
        · have hextends : d.table.Extends t := by
            rcases ht with ht | ht
            · exact (d.extends_afterAll _).trans ht
            · rw [show d.table = d'.table from h.directory.table]
              exact (d'.extends_afterAll _).trans ht
          rw [hextends.isPmtPid hknown] at hpmt
          cases hpmt
      obtain ⟨hlast, hlater⟩ := ih (haside.1.trans h) (hfits hd) hd' ht
      have happly : framesOf pid (d.apply (.push bytes)).events = [] := haside.2
      refine ⟨hlast, ?_⟩
      rw [List.map_cons, shown, framesOf_append, happly, List.nil_append]
      exact hlater

/-- The packets of a stream, and its end. -/
def wholeStream (packets : List Bytes) : List Operation :=
  packets.map .push ++ [.flush]

/-- What becomes of a whole stream, seen by one PID, is what becomes of the packets that concern
it. -/
theorem wholeStream_filter (options : DemuxOptions) (pid : Pid) (packets : List Bytes)
    {t : ProgramTable}
    (ht : (({ options } : Demuxer).afterAll (wholeStream packets)).table = t ∨
      (({ options } : Demuxer).afterAll
        (wholeStream (packets.filter (concerns t pid)))).table = t) :
    (({ options } : Demuxer).afterAll (wholeStream packets)).table =
        (({ options } : Demuxer).afterAll
          (wholeStream (packets.filter (concerns t pid)))).table ∧
      framesOf pid (({ options } : Demuxer).shown (wholeStream packets)) =
        framesOf pid (({ options } : Demuxer).shown
          (wholeStream (packets.filter (concerns t pid)))) := by
  have hend : ∀ packets : List Bytes,
      (({ options } : Demuxer).afterAll (wholeStream packets)).table =
        (({ options } : Demuxer).afterAll (packets.map .push)).flush.state.table := by
    intro packets
    rw [wholeStream, afterAll_append]
    rfl
  have htable : ∀ d : Demuxer, d.flush.state.table = d.table := by
    intro d
    unfold flush
    split <;> rfl
  have hfits : ∀ packets : List Bytes,
      (({ options } : Demuxer).afterAll (packets.map .push)).directory.Fits :=
    fun packets => fits_afterAll options _
  have hbound : (({ options } : Demuxer).afterAll (packets.map .push)).table.Extends t ∨
      (({ options } : Demuxer).afterAll
        ((packets.filter (concerns t pid)).map .push)).table.Extends t := by
    refine ht.imp (fun h => ?_) fun h => ?_
    · rw [← htable, ← hend, h]
      exact .refl t
    · rw [← htable, ← hend, h]
      exact .refl t
  obtain ⟨hlike, hframes⟩ := like_afterAll (.refl pid { options }) Directory.fits_new
    Directory.fits_new hbound
  obtain ⟨hlast, hleft⟩ := like_flush hlike (hfits _) (hfits _)
  have hflush : ∀ d : Demuxer, framesOf pid (d.shown [.flush]) = framesOf pid d.flush.events := by
    intro d
    rw [shown, shown, List.append_nil]
    rfl
  refine ⟨by rw [hend, hend, hlast], ?_⟩
  rw [wholeStream, wholeStream, shown_append, shown_append, framesOf_append, framesOf_append,
    hframes, hflush, hflush, hleft]

/-- **Streams do not interfere.**  Whatever is pushed, errors or not, the table at last and the
frames of a PID stay the same when everything is left out but the packets that concern the PID,
those on it and those on the PIDs of tables; and they are the same for any other stream with the
same packets among them in the same order. -/
theorem frames_independent (options : DemuxOptions) (packets : List Bytes) (pid : Pid) :
    let last (packets : List Bytes) :=
      (({ options } : Demuxer).afterAll (wholeStream packets)).table
    let frames (packets : List Bytes) :=
      framesOf pid (({ options } : Demuxer).shown (wholeStream packets))
    let concerning := concerns (last packets) pid
    (last (packets.filter concerning) = last packets ∧
        frames (packets.filter concerning) = frames packets) ∧
      ∀ others : List Bytes, others.filter concerning = packets.filter concerning →
        last others = last packets ∧ frames others = frames packets := by
  intro last frames concerning
  obtain ⟨htable, hframes⟩ := wholeStream_filter options pid packets (t := last packets) (.inl rfl)
  refine ⟨⟨htable.symm, hframes.symm⟩, fun others hsame => ?_⟩
  have hlast : last (others.filter concerning) = last packets := by
    rw [hsame]
    exact htable.symm
  obtain ⟨htable', hframes'⟩ := wholeStream_filter options pid others (t := last packets)
    (.inr hlast)
  refine ⟨htable'.trans hlast, hframes'.trans ?_⟩
  rw [show others.filter (concerns (last packets) pid) = packets.filter concerning from hsame]
  exact hframes.symm

end Demuxer

end TransportStream
