import TransportStream.Proofs.NonInterference
import TransportStream.Proofs.PacketLocations

/-!
# Reading a source and pushing its packets

A demultiplexer gets its packets in one of two ways: it reads a byte source, or the packets of that
source are found by somebody else and pushed one after the other.  Both come to the same.  What is
handed out is the same, and so is the state that is left; the first packet that fails is the same
one, and it fails in the same way.  If none fails, the stream ends as the source does.

## Where a packet is

The only thing that differs is what is told about the place of a packet.  A run knows its offset in
the source; whoever pushes counts the packets, as if there were nothing between them.  The offset is
not looked at by anything that decides about the packet (`Demuxer.tellsPlace_route`), so all that
changes with it is the offset in errors and notices.

* `Failure`: what stops a demultiplexer at a packet, apart from where the packet is.
* `Outcome.TellsPlace`: the offset of a packet is told, and has no influence beside that.
* `Demuxer.pushUpTo`: pushing packets up to the first one that fails, and then ending as the source
  does.
* `Demuxer.comesToSame_forEach`: each packet that a run takes is a packet that is pushed.
* `Demuxer.run_comesToSame`: a run comes to the same as pushing its packets, and its errors are
  about the part of the data that they tell.
-/

namespace TransportStream

/-! ## Failures and their places -/

/-- What stops a demultiplexer at a packet, apart from where the packet is. -/
inductive Failure where
  /-- Its header is malformed. -/
  | packet (e : PacketError)
  /-- It completes a section that cannot be used. -/
  | table (e : SectionError)
  /-- A PES packet starts with it while the header of the one before is still incomplete. -/
  | pesIncomplete
  deriving DecidableEq

/-- The error for a packet at an offset, on a PID. -/
def Failure.error (offset : Nat) (pid : Pid) : Failure → DemuxError
  | packet e => .packet offset pid e
  | table e => .table offset pid e
  | pesIncomplete => .pesIncomplete offset pid

/-- The error is about the data it says it is about: a packet on its PID is at its offset, and what
is given up was read there. -/
def DemuxError.IsIn (data : Bytes) : DemuxError → Prop
  | sync e => e.IsIn data
  | packet offset pid _ | table offset pid _ | pesIncomplete offset pid =>
    data[offset]? = some Packet.syncByte ∧
      ∃ p, Packet.ofBytes? ((data.drop offset).take Packet.size) = some p ∧ p.pid = pid

/-- An error about a packet that was found is about the data it was found in. -/
theorem Failure.isIn_error {data : Bytes} {f : PacketReader.Found} (h : f.IsIn data) {p : Packet}
    (hp : Packet.ofBytes? f.bytes = some p) (failure : Failure) :
    (failure.error f.offset p.pid).IsIn data := by
  have hread := hp
  rw [h.bytes] at hread
  have hsync : data[f.offset]? = some Packet.syncByte := by
    obtain ⟨b₁, b₂, b₃, hbytes, -⟩ := Checked.reads_of_ofBytes? hread
    have hpos : 0 < Packet.size := by decide
    have hfirst : ((data.drop f.offset).take Packet.size)[0]? = some Packet.syncByte := by
      rw [hbytes]
      rfl
    rwa [List.getElem?_take_of_lt hpos, List.getElem?_drop] at hfirst
  cases failure <;> exact ⟨hsync, p, hread, rfl⟩

/-- True of packets and frames, which whoever runs a demultiplexer gets to work with. -/
def Event.isHandedOut : Event → Bool
  | packet _ | frame _ => true
  | notice _ => false

theorem Event.filter_isHandedOut_ofNotices (notices : List Notice) :
    (ofNotices notices).filter isHandedOut = [] := by
  refine List.filter_eq_nil_iff.mpr fun event hevent => ?_
  obtain ⟨n, -, rfl⟩ := List.mem_map.mp hevent
  exact Bool.false_ne_true

/-- Where no packet is shown the frames are what is handed out. -/
theorem Event.filter_isHandedOut_of_notMem {events : List Event}
    (h : ∀ p, Event.packet p ∉ events) :
    events.filter isHandedOut = (events.filterMap frame?).map frame := by
  induction events with
  | nil => rfl
  | cons event events ih =>
    have hothers := ih fun p hp => h p (List.mem_cons_of_mem _ hp)
    cases event with
    | packet p => exact absurd List.mem_cons_self (h p)
    | frame f => exact congrArg (Event.frame f :: ·) hothers
    | notice n => exact hothers

/-- What comes of a packet that may be at any offset.  The offset is told if the packet fails, and
has no influence beside that. -/
structure Outcome.TellsPlace {σ : Type} (pid : Pid) (taken : Nat → Outcome σ) : Prop where
  /-- It has no influence on the state. -/
  state : ∀ offset offset', (taken offset).state = (taken offset').state
  /-- It has none on the frames. -/
  frames : ∀ offset offset', (taken offset).events.filterMap Event.frame? =
    (taken offset').events.filterMap Event.frame?
  /-- It has none on whether the packet fails, and in which way. -/
  error : ∃ failure : Option Failure, ∀ offset,
    (taken offset).error = failure.map (Failure.error offset pid)

theorem Outcome.tellsPlace_const {σ : Type} (pid : Pid) {taken : Nat → Outcome σ} {o : Outcome σ}
    (herror : o.error = none) (h : ∀ offset, taken offset = o) : TellsPlace pid taken := by
  refine ⟨fun offset offset' => ?_, fun offset offset' => ?_, none, fun offset => ?_⟩
  · rw [h, h]
  · rw [h, h]
  · rw [h, herror]
    rfl

theorem Outcome.andThen_of_error {σ : Type} {o : Outcome σ} {e : DemuxError} (h : o.error = some e)
    (next : σ → Outcome σ) : o.andThen next = o := by
  rw [andThen, h]

/-- What was shown before does not matter to what follows. -/
theorem Outcome.andThen_after {σ : Type} (o : Outcome σ) (events : List Event)
    (next : σ → Outcome σ) : (o.after events).andThen next = (o.andThen next).after events := by
  cases h : o.error with
  | some e => rw [andThen_of_error (o := o.after events) h, andThen_of_error h]
  | none =>
    rw [andThen_of_error_eq_none (o := o.after events) h, andThen_of_error_eq_none h]
    exact congrArg (fun shown => { next o.state with events := shown })
      (List.append_assoc events o.events _)

/-! ## Packets of elementary streams -/

namespace PesStream

variable (s : PesStream)

/-- Data fails, if it does, because the header of a PES packet is still incomplete. -/
theorem exists_failure_take (unitStart : Bool) (payload : Bytes) :
    ∃ failure : Option Failure, ∀ offset,
      (s.take offset unitStart payload).error = failure.map (Failure.error offset s.pid) := by
  unfold take
  generalize (if unitStart then s.accumulator.unitStart payload
    else s.accumulator.continuation payload) = step
  dsimp only
  cases step.result with
  | ok progress => cases progress <;> exact ⟨none, fun _ => rfl⟩
  | error e =>
    cases e with
    | needMoreData requested available => exact ⟨some .pesIncomplete, fun _ => rfl⟩
    | _ => exact ⟨none, fun _ => rfl⟩

theorem exists_failure_take? (unitStart : Bool) (payload : Option Bytes) :
    ∃ failure : Option Failure, ∀ offset,
      (s.take? offset unitStart payload).error = failure.map (Failure.error offset s.pid) := by
  cases payload with
  | none => exact ⟨none, fun _ => rfl⟩
  | some payload => exact s.exists_failure_take unitStart payload

theorem exists_failure_packet (options : DemuxOptions) (p : Packet) (payload : Option Bytes) :
    ∃ failure : Option Failure, ∀ offset,
      (s.packet options offset p payload).error = failure.map (Failure.error offset s.pid) := by
  unfold packet
  split
  · cases s.continuity p with
    | unbroken => exact exists_failure_take? { s with lastCounter := some p.counter } _ _
    | duplicate => exact ⟨none, fun _ => rfl⟩
    | gap last =>
      dsimp only
      split
      · exact exists_failure_take? { s with
          lastCounter := some p.counter, accumulator := s.accumulator.discard } _ _
      · exact exists_failure_take? { s with lastCounter := some p.counter } _ _
  · exact s.exists_failure_take? _ _

theorem tellsPlace_packet (options : DemuxOptions) (p : Packet) (payload : Option Bytes) :
    Outcome.TellsPlace s.pid fun offset => s.packet options offset p payload where
  state offset offset' := (s.packet_offset options offset offset' p payload).1
  frames offset offset' := (s.packet_offset options offset offset' p payload).2
  error := s.exists_failure_packet options p payload

end PesStream

/-! ## Packets of any stream -/

namespace Demuxer

variable {d : Demuxer}

theorem tellsPlace_withPayload {p : Packet} {next : Nat → Option Bytes → Outcome Demuxer}
    (h : ∀ payload, Outcome.TellsPlace p.pid fun offset => next offset payload) :
    Outcome.TellsPlace p.pid fun offset => d.withPayload offset p (next offset) := by
  unfold withPayload
  split
  · exact ⟨fun _ _ => rfl, fun _ _ => rfl, none, fun _ => rfl⟩
  · cases p.payload with
    | error e => exact ⟨fun _ _ => rfl, fun _ _ => rfl, some (.packet e), fun _ => rfl⟩
    | ok payload => exact h payload

theorem tellsPlace_sectionPacket (s : PsiStream) (p : Packet) (payload : Bytes) :
    Outcome.TellsPlace p.pid fun offset => d.sectionPacket s offset p payload := by
  let driven := (s.buffer.push p.unitStart payload).drive
    (SectionReceiver.receive d.options.verifyCrc p.pid s.kind)
    { directory := d.directory, versions := s.versions }
  refine ⟨fun _ _ => rfl, fun _ _ => rfl, driven.2.2.map .table, fun offset => ?_⟩
  show driven.2.2.map (DemuxError.table offset p.pid) = _
  rw [Option.map_map]
  rfl

/-- A packet is routed whatever its offset. -/
theorem tellsPlace_route (hd : d.directory.Fits) (p : Packet) :
    Outcome.TellsPlace p.pid fun offset => d.route offset p := by
  have hfits := hd.states p.pid
  unfold route
  match hstate : d.directory.state? p.pid with
  | none =>
    refine Outcome.tellsPlace_const p.pid (o := d.unannouncedPacket p.pid) ?_ fun _ => rfl
    unfold unannouncedPacket
    split <;> rfl
  | some .unframed => exact Outcome.tellsPlace_const p.pid rfl fun _ => rfl
  | some (.pes s) =>
    rw [hstate] at hfits
    obtain ⟨b, hb, hfor⟩ := hfits
    have hpid : s.pid = p.pid := hfor.pid.trans (hd.table.pid_eq hb)
    refine tellsPlace_withPayload fun payload => ?_
    obtain ⟨hsame, hframes, herror⟩ := s.tellsPlace_packet d.options p payload
    exact ⟨fun offset offset' => congrArg (fun s : PesStream =>
      { d with directory := d.directory.setState p.pid (.pes s) }) (hsame offset offset'),
      hframes, hpid ▸ herror⟩
  | some (.psi s) =>
    refine tellsPlace_withPayload fun payload => ?_
    cases payload with
    | none => exact Outcome.tellsPlace_const p.pid rfl fun _ => rfl
    | some payload => exact tellsPlace_sectionPacket s p payload

/-- The offset of the next packet is not looked at when a packet is routed. -/
theorem route_nextOffset (d : Demuxer) (next offset : Nat) (p : Packet) :
    ({ d with nextOffset := next } : Demuxer).route offset p =
      (d.route offset p).map fun d => { d with nextOffset := next } := by
  have hpayload : ∀ {use use' : Option Bytes → Outcome Demuxer},
      (∀ payload, use' payload = (use payload).map fun d => { d with nextOffset := next }) →
      ({ d with nextOffset := next } : Demuxer).withPayload offset p use' =
        (d.withPayload offset p use).map fun d => { d with nextOffset := next } := by
    intro use use' huse
    unfold withPayload
    split
    · rfl
    · cases p.payload with
      | error e => rfl
      | ok payload => exact huse payload
  unfold route
  dsimp only
  match d.directory.state? p.pid with
  | none =>
    dsimp only
    unfold unannouncedPacket
    dsimp only
    split <;> rfl
  | some .unframed => rfl
  | some (.pes s) => exact hpayload fun payload => rfl
  | some (.psi s) =>
    refine hpayload fun payload => ?_
    cases payload <;> rfl

/-- So a packet is routed first, and the next one is expected behind it. -/
theorem packetAt_eq_routed (hopen : d.flushed = false) {bytes : Bytes} {p : Packet}
    (hp : Packet.ofBytes? bytes = some p) (offset : Nat) :
    d.packetAt offset bytes =
      ((d.route offset p).map fun d => { d with nextOffset := offset + Packet.size }).after
        [Event.packet p] := by
  rw [packetAt_of_open hopen hp, route_nextOffset]

/-- **One packet.**  Taken at another offset, by a demultiplexer that expects another one, it comes
to the same. -/
theorem packetAt_moved (hd : d.directory.Fits) (hopen : d.flushed = false) {bytes : Bytes}
    {p : Packet} (hp : Packet.ofBytes? bytes = some p) (next offset offset' : Nat) :
    let o := d.packetAt offset bytes
    let o' := ({ d with nextOffset := next } : Demuxer).packetAt offset' bytes
    o'.state = { o.state with nextOffset := offset' + Packet.size } ∧
      o.events.filter Event.isHandedOut = o'.events.filter Event.isHandedOut ∧
      ∃ failure : Option Failure, o.error = failure.map (Failure.error offset p.pid) ∧
        o'.error = failure.map (Failure.error offset' p.pid) := by
  have hshown : ∀ offset, ([Event.packet p] ++ (d.route offset p).events).filter Event.isHandedOut =
      Event.packet p :: ((d.route offset p).events.filterMap Event.frame?).map .frame := by
    intro offset
    rw [List.filter_append,
      Event.filter_isHandedOut_of_notMem (d.routed_route offset p).packets]
    rfl
  obtain ⟨hsame, hframes, failure, herror⟩ := tellsPlace_route hd p
  intro o o'
  have ho : o = _ := packetAt_eq_routed hopen hp offset
  have ho' : o' = _ := packetAt_eq_routed (d := { d with nextOffset := next }) hopen hp offset'
  rw [route_nextOffset] at ho'
  rw [ho, ho']
  refine ⟨?_, ?_, failure, herror offset, herror offset'⟩
  · show ({ (d.route offset' p).state with nextOffset := _ } : Demuxer) = _
    rw [hsame offset' offset]
    rfl
  · show ([Event.packet p] ++ (d.route offset p).events).filter Event.isHandedOut =
      ([Event.packet p] ++ (d.route offset' p).events).filter Event.isHandedOut
    rw [hshown, hshown, hframes offset offset']

/-! ## Pushing packets one after the other -/

/-- Pushes packets, up to the first one that fails. -/
def pushEach (d : Demuxer) : List Bytes → Outcome Demuxer
  | [] => { state := d }
  | bytes :: more => (d.push bytes).andThen fun d => d.pushEach more

/-- Pushes packets, up to the first one that fails.  If none does, their stream ends as the byte
source does that they were found in: with its error, or else by the end being declared. -/
def pushUpTo (d : Demuxer) (packets : List Bytes) (ending : Option SyncError) : Outcome Demuxer :=
  (d.pushEach packets).andThen fun d =>
    match ending with
    | some e => { state := d, error := some (.sync e) }
    | none => d.flush

theorem pushEach_cons_of_error_eq_none {bytes : Bytes} (h : (d.push bytes).error = none)
    (more : List Bytes) :
    d.pushEach (bytes :: more) = ((d.push bytes).state.pushEach more).after (d.push bytes).events :=
  Outcome.andThen_of_error_eq_none h _

theorem pushUpTo_cons_of_error_eq_none {bytes : Bytes} (h : (d.push bytes).error = none)
    (more : List Bytes) (ending : Option SyncError) :
    d.pushUpTo (bytes :: more) ending =
      ((d.push bytes).state.pushUpTo more ending).after (d.push bytes).events := by
  rw [pushUpTo, pushEach_cons_of_error_eq_none h, pushUpTo]
  exact Outcome.andThen_after _ _ _

theorem pushUpTo_cons_of_error {bytes : Bytes} {e : DemuxError} (h : (d.push bytes).error = some e)
    (more : List Bytes) (ending : Option SyncError) :
    d.pushUpTo (bytes :: more) ending = d.push bytes := by
  have hfirst : d.pushEach (bytes :: more) = d.push bytes := Outcome.andThen_of_error h _
  rw [pushUpTo, hfirst, Outcome.andThen_of_error h]

/-! ## Both ways compared -/

/-- The error of a run, and the one that ends the pushing of its packets.  Either no packet fails,
and both are that of the byte source, or it is the same packet that fails first, in the same way. -/
inductive SameError (d : Demuxer) (found : List PacketReader.Found) (ending : Option SyncError) :
    Option DemuxError → Option DemuxError → Prop
  /-- No packet fails. -/
  | ending (all : (d.pushEach (found.map (·.bytes))).error = none) :
    SameError d found ending (ending.map .sync) (ending.map .sync)
  /-- The packet with this index fails, and none before it.  A run tells where it is, and whoever
  pushes counts the packets before it. -/
  | packet (i : Nat) {f : PacketReader.Found} {p : Packet} (failure : Failure)
    (at_index : found[i]? = some f) (reads : Packet.ofBytes? f.bytes = some p)
    (before : (d.pushEach ((found.take i).map (·.bytes))).error = none)
    (fails : (d.pushEach ((found.take (i + 1)).map (·.bytes))).error =
      some (failure.error (d.nextOffset + i * Packet.size) p.pid)) :
    SameError d found ending (some (failure.error f.offset p.pid))
      (some (failure.error (d.nextOffset + i * Packet.size) p.pid))

/-- A run, and pushing its packets, come to the same. -/
structure ComesToSame (d : Demuxer) (found : List PacketReader.Found) (ending : Option SyncError)
    (ran pushed : Outcome Demuxer) : Prop where
  /-- The same packets are shown, and the same frames, in the same order. -/
  handedOut : ran.events.filter Event.isHandedOut = pushed.events.filter Event.isHandedOut
  /-- The state is the same, up to where the next packet is expected. -/
  state : ran.state = { pushed.state with nextOffset := ran.state.nextOffset }
  /-- The error is the same, up to the offset of the packet that failed. -/
  error : SameError d found ending ran.error pushed.error

variable {found : List PacketReader.Found} {ending : Option SyncError}

/-- A packet in front that does not fail is one more before the one that does. -/
theorem SameError.cons {f : PacketReader.Found} {ran pushed : Option DemuxError}
    (hok : (d.push f.bytes).error = none)
    (hnext : (d.push f.bytes).state.nextOffset = d.nextOffset + Packet.size)
    (h : SameError (d.push f.bytes).state found ending ran pushed) :
    SameError d (f :: found) ending ran pushed := by
  have hafter : ∀ more : List PacketReader.Found,
      (d.pushEach ((f :: more).map (·.bytes))).error =
        ((d.push f.bytes).state.pushEach (more.map (·.bytes))).error := by
    intro more
    rw [List.map_cons, pushEach_cons_of_error_eq_none hok]
    rfl
  cases h with
  | ending all => exact .ending ((hafter found).trans all)
  | packet i failure at_index reads before fails =>
    have hoffset : (d.push f.bytes).state.nextOffset + i * Packet.size =
        d.nextOffset + (i + 1) * Packet.size := by
      rw [hnext, Nat.succ_mul, Nat.add_assoc, Nat.add_comm Packet.size]
    rw [hoffset] at fails ⊢
    exact .packet (i + 1) failure at_index reads ((hafter (found.take i)).trans before)
      ((hafter (found.take (i + 1))).trans fails)

/-- **Packets in a row.**  What is expected next has no influence, so the induction is on the
packets, with any two expectations. -/
theorem comesToSame_forEach (hd : d.directory.Fits) (hopen : d.flushed = false) (next : Nat)
    (hread : ∀ f ∈ found, ∃ p, Packet.ofBytes? f.bytes = some p) :
    ComesToSame { d with nextOffset := next } found ending
      (Outcome.forEach d found foundPacket (endRun ending))
      (({ d with nextOffset := next } : Demuxer).pushUpTo (found.map (·.bytes)) ending) := by
  induction found generalizing d next with
  | nil =>
    rw [Outcome.forEach_nil]
    cases ending with
    | some e => exact ⟨rfl, rfl, .ending rfl⟩
    | none =>
      have hpushed : (({ d with nextOffset := next } : Demuxer).pushUpTo [] none) =
          (endRun none d).map fun d => { d with nextOffset := next } := by
        show (({ d with nextOffset := next } : Demuxer).flush).after [] = d.flush.map _
        rw [flush_of_open hopen, flush_of_open (d := { d with nextOffset := next }) hopen]
        rfl
      rw [List.map_nil, hpushed, endRun, flush_of_open hopen]
      exact ⟨rfl, rfl, .ending rfl⟩
  | cons f found ih =>
    obtain ⟨p, hp⟩ := hread f List.mem_cons_self
    obtain ⟨hstate, hevents, failure, herror, herror'⟩ :=
      packetAt_moved hd hopen hp next f.offset next
    have hshown : (d.foundPacket f).events.filter Event.isHandedOut =
        (({ d with nextOffset := next } : Demuxer).push f.bytes).events.filter
          Event.isHandedOut := by
      refine Eq.trans ?_ hevents
      show (Event.ofNotices f.notices ++ (d.packetAt f.offset f.bytes).events).filter _ = _
      rw [List.filter_append, Event.filter_isHandedOut_ofNotices, List.nil_append]
    have hran : (d.foundPacket f).error = failure.map (Failure.error f.offset p.pid) := herror
    have hpushed : (({ d with nextOffset := next } : Demuxer).push f.bytes).error =
        failure.map (Failure.error next p.pid) := herror'
    have hmoved : (({ d with nextOffset := next } : Demuxer).push f.bytes).state =
        { (d.foundPacket f).state with nextOffset := next + Packet.size } := hstate
    cases failure with
    | none =>
      have hfits : (d.foundPacket f).state.directory.Fits :=
        (fits_orderly_of_act hd (.packet f.notices f.offset f.bytes)).1
      have hothers := ih hfits (flushed_packetAt hopen f.offset f.bytes) (next + Packet.size)
        fun g hg => hread g (List.mem_cons_of_mem _ hg)
      rw [← hmoved] at hothers
      rw [Outcome.forEach_cons, Outcome.andThen_of_error_eq_none hran, List.map_cons,
        pushUpTo_cons_of_error_eq_none hpushed]
      refine ⟨?_, hothers.state, hothers.error.cons hpushed ?_⟩
      · show ((d.foundPacket f).events ++ _).filter _ = (Outcome.events _ ++ _).filter _
        rw [List.filter_append, hshown, hothers.handedOut, List.filter_append]
      · rw [hmoved]
    | some failure =>
      rw [Outcome.forEach_cons, Outcome.andThen_of_error hran, List.map_cons,
        pushUpTo_cons_of_error hpushed]
      refine ⟨hshown, ?_, ?_⟩
      · rw [hmoved]
      · have hcounted : (({ d with nextOffset := next } : Demuxer).push f.bytes).error =
            some (failure.error (next + 0 * Packet.size) p.pid) := by
          rw [hpushed, Nat.zero_mul, Nat.add_zero]
          rfl
        rw [hran, hcounted]
        refine .packet 0 failure rfl hp rfl ?_
        show (Outcome.andThen _ _).error = _
        rw [Outcome.andThen_of_error hcounted, hcounted]

/-- The error of a run is about the data it was found in. -/
theorem SameError.isIn {data : Bytes} (hfound : ∀ f ∈ found, f.IsIn data)
    (hending : ∀ e, ending = some e → e.IsIn data) {ran pushed : Option DemuxError}
    (h : SameError d found ending ran pushed) : ∀ e, ran = some e → e.IsIn data := by
  intro e he
  cases h with
  | ending all =>
    obtain ⟨e, hsync, rfl⟩ := Option.map_eq_some_iff.mp he
    exact hending e hsync
  | packet i failure at_index reads before fails =>
    obtain rfl := Option.some.inj he
    exact failure.isIn_error (hfound _ (List.mem_of_getElem? at_index)) reads

/-- **A run is its packets, pushed.**  The requests to a byte source give packets up to its end, or
its error.  A new demultiplexer that runs over the source comes to the same as one that these
packets are pushed to, up to the offsets that are told; and if the run fails, its error is about the
part of the data that it tells. -/
theorem run_comesToSame (options : DemuxOptions) (source : ByteSource) :
    let d : Demuxer := { options }
    ∃ found ending,
      ({ source } : PacketReader).answers (found.length + 1) =
        found.map .packet ++ [Answer.ofEnding ending] ∧
      ComesToSame d found ending (d.run source) (d.pushUpTo (found.map (·.bytes)) ending) ∧
      ∀ e, (d.run source).error = some e → e.IsIn source.data := by
  intro d
  have hlocated := PacketReader.located_readAll source
  have hanswers := PacketReader.answers_readAll { source }
  have hrun : d.run source =
      Outcome.forEach d ({ source } : PacketReader).readAll.1 foundPacket
        (endRun ({ source } : PacketReader).readAll.2) := rfl
  revert hlocated hanswers hrun
  generalize ({ source } : PacketReader).readAll = read
  obtain ⟨found, ending⟩ := read
  rintro ⟨hfound, hending⟩ hanswers hrun
  have hsame : ComesToSame d found ending (Outcome.forEach d found foundPacket (endRun ending)) _ :=
    comesToSame_forEach (d := d) Directory.fits_new rfl 0 fun f hf => (hfound f hf).packet
  rw [← hrun] at hsame
  exact ⟨found, ending, hanswers, hsame, hsame.error.isIn hfound hending⟩

end Demuxer

end TransportStream
