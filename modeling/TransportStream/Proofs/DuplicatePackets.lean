import Mathlib.Logic.Relation
import TransportStream.Proofs.FailedPackets

/-!
# Repeated packets

A packet may be sent twice, so that it is not missing if one of the two gets lost.  On the PID of an
audio or video stream the second one is recognised by its counter, which is that of the packet
before it, and is dropped.  What the first one did to the stream does not matter for that: its
counter is noted before anything else is done with it, and it stays noted if the packet fails.

## What may lie between the two

Anything may, as long as it leaves the noted counter alone.  On other PIDs all packets do, also
those that bring tables.  On the same PID packets without a payload are not counted, and neither are
damaged ones and those whose payload cannot be located.  Further repetitions note the same counter
again.

## What is told about places

A repetition that is pushed is one more packet, so all packets that are pushed after it are expected
one packet length further on.  This is told in errors and notices, and has no influence beside that
(`Demuxer.sameButPlaces_apply`).

* `Packet.IsCounted`: the packets whose counter is noted.
* `Demuxer.Remembers`: the counter of a packet is the last one that was noted on its PID.
* `Demuxer.Remembers.afterAll`: it stays so while no packet with another counter is counted.
* `Demuxer.push_again`: the packet is dropped then.
* `Demuxer.Repeats`: operations, and the same ones with a repetition.
* `Demuxer.duplicates_invisible`: repetitions change neither frames nor tables.
-/

namespace TransportStream

/-- The counter of the packet is noted: it is not damaged, it announces a payload, and nothing
keeps that from being located. -/
structure Packet.IsCounted (p : Packet) : Prop where
  /-- It is not damaged. -/
  intact : p.transportError = false
  /-- It announces a payload. -/
  announced : p.control.hasPayload = true
  /-- The payload can be located. -/
  located : ∃ payload, p.payload = .ok payload

instance (p : Packet) : Decidable p.IsCounted :=
  decidable_of_iff
    (p.transportError = false ∧ p.control.hasPayload = true ∧ p.payload.isOk = true) <| by
    constructor
    · rintro ⟨intact, announced, located⟩
      refine ⟨intact, announced, ?_⟩
      cases hpayload : p.payload with
      | ok payload => exact ⟨payload, rfl⟩
      | error e =>
        rw [hpayload] at located
        cases located
    · rintro ⟨intact, announced, payload, located⟩
      rw [located]
      exact ⟨intact, announced, rfl⟩

namespace PesStream

variable (s : PesStream)

theorem lastCounter_take (offset : Nat) (unitStart : Bool) (payload : Bytes) :
    (s.take offset unitStart payload).state.lastCounter = s.lastCounter := by
  unfold take
  generalize (if unitStart then s.accumulator.unitStart payload
    else s.accumulator.continuation payload) = step
  dsimp only
  split <;> rfl

theorem lastCounter_take? (offset : Nat) (unitStart : Bool) (payload : Option Bytes) :
    (s.take? offset unitStart payload).state.lastCounter = s.lastCounter := by
  cases payload with
  | none => rfl
  | some payload => exact s.lastCounter_take offset unitStart payload

/-- The counter of a packet is noted if it announces a payload, whatever becomes of that. -/
theorem lastCounter_packet (options : DemuxOptions) (offset : Nat) (p : Packet)
    (payload : Option Bytes) :
    (s.packet options offset p payload).state.lastCounter =
      if p.control.hasPayload then some p.counter else s.lastCounter := by
  unfold packet
  split
  · cases s.continuity p with
    | unbroken => exact lastCounter_take? { s with lastCounter := some p.counter } _ _ _
    | duplicate => rfl
    | gap last =>
      dsimp only
      split
      · exact lastCounter_take? { s with
          lastCounter := some p.counter, accumulator := s.accumulator.discard } _ _ _
      · exact lastCounter_take? { s with lastCounter := some p.counter } _ _ _
  · exact s.lastCounter_take? _ _ _

/-- A packet with the counter that was noted last is dropped, unless it announces a jump. -/
theorem packet_again (options : DemuxOptions) (offset : Nat) {p : Packet}
    (hannounced : p.control.hasPayload = true) (hsteady : p.discontinuity = false)
    (hlast : s.lastCounter = some p.counter) (payload : Option Bytes) :
    s.packet options offset p payload =
      { state := s, events := [.notice (.duplicatePacket s.pid p.counter)] } := by
  have hduplicate : s.continuity p = .duplicate := by
    have hjump : ¬ p.discontinuity = true := Bool.eq_false_iff.mp hsteady
    unfold continuity
    rw [hlast]
    dsimp only
    rw [if_neg hjump, if_pos rfl]
  unfold packet
  rw [if_pos hannounced, hduplicate, ← hlast]

end PesStream

/-- The packet that an event shows. -/
def Event.packet? : Event → Option Packet
  | packet p => some p
  | _ => none

namespace Demuxer

variable {d : Demuxer} {p : Packet} {bytes : Bytes}

/-! ## The counter that was noted last -/

/-- The counter of the packet is the last one that was noted on its PID, where audio or video is. -/
def Remembers (d : Demuxer) (p : Packet) : Prop :=
  ∃ s, d.directory.state? p.pid = some (.pes s) ∧ s.lastCounter = some p.counter

/-- Of the packets that are shown, those that are counted on the PID of the packet have its
counter. -/
def IsQuiet (p : Packet) (events : List Event) : Prop :=
  ∀ q, Event.packet q ∈ events → q.pid = p.pid → q.IsCounted → q.counter = p.counter

instance (p : Packet) (events : List Event) : Decidable (IsQuiet p events) :=
  decidable_of_iff (∀ event ∈ events, ∀ q ∈ event.packet?,
      q.pid = p.pid → q.IsCounted → q.counter = p.counter) <| by
    constructor
    · exact fun h q hq => h _ hq q rfl
    · intro h event hevent q hq
      cases event with
      | packet q' =>
        obtain rfl := Option.some.inj hq
        exact h q' hevent
      | frame f => cases hq
      | notice n => cases hq

/-- The packet can be repeated: audio or video is announced on its PID, it is counted, and announces
no jump of the counter. -/
structure IsRepeatable (d : Demuxer) (p : Packet) : Prop where
  /-- The end of the stream has not been declared. -/
  isOpen : d.flushed = false
  /-- Its PID is that of an audio or video stream. -/
  announced : ∃ b, d.table.binding? p.pid = some b ∧ (b.role = .video ∨ b.role = .audio)
  /-- It is counted. -/
  counted : p.IsCounted
  /-- It announces no jump. -/
  steady : p.discontinuity = false

/-- Where a packet whose payload is located goes, on a PID with audio or video. -/
theorem route_of_located {s : PesStream} (hstate : d.directory.state? p.pid = some (.pes s))
    (hintact : p.transportError = false) {payload : Option Bytes}
    (hlocated : p.payload = .ok payload) (offset : Nat) :
    d.route offset p = (s.packet d.options offset p payload).map fun s =>
      { d with directory := d.directory.setState p.pid (.pes s) } := by
  have hsound : ¬ p.transportError = true := Bool.eq_false_iff.mp hintact
  unfold route
  rw [hstate]
  dsimp only
  rw [withPayload, if_neg hsound, hlocated]

/-- A packet that is routed to audio or video, on its own PID: either its counter is noted, or the
one that was noted before it stays. -/
theorem remembers_route {q : Packet} (h : d.Remembers p) (hpid : q.pid = p.pid)
    (hquiet : q.IsCounted → q.counter = p.counter) (offset : Nat) :
    (d.route offset q).state.Remembers p := by
  obtain ⟨s, hstate, hlast⟩ := h
  rw [← hpid] at hstate
  cases hdamaged : q.transportError with
  | true =>
    unfold route
    rw [hstate]
    dsimp only
    rw [withPayload, if_pos hdamaged]
    exact ⟨s, hpid ▸ hstate, hlast⟩
  | false =>
    cases hlocated : q.payload with
    | error e =>
      have hsound : ¬ q.transportError = true := Bool.eq_false_iff.mp hdamaged
      unfold route
      rw [hstate]
      dsimp only
      rw [withPayload, if_neg hsound, hlocated]
      exact ⟨s, hpid ▸ hstate, hlast⟩
    | ok payload =>
      rw [route_of_located hstate hdamaged hlocated]
      refine ⟨(s.packet d.options offset q payload).state, ?_, ?_⟩
      · rw [← hpid]
        exact Directory.state?_setState_self _ _ _
      · rw [s.lastCounter_packet]
        split
        · next hannounced => rw [hquiet ⟨hdamaged, hannounced, payload, hlocated⟩]
        · exact hlast

/-- What is not a packet is an error, and changes nothing. -/
theorem packetAt_of_unread (hread : Packet.ofBytes? bytes = none) (offset : Nat) :
    d.packetAt offset bytes =
      { state := d, error := some (.sync (.syncLost offset bytes)) } := by
  unfold packetAt
  rw [hread]

/-- After the end of the stream a packet is late. -/
theorem packetAt_of_flushed (hflushed : d.flushed = true)
    (hread : Packet.ofBytes? bytes = some p) (offset : Nat) :
    d.packetAt offset bytes =
      ({ d with nextOffset := offset + Packet.size } : Demuxer).latePacket := by
  unfold packetAt
  rw [hread]
  exact if_pos hflushed

/-- **One act.**  It leaves the counter alone, unless it shows a packet with another one. -/
theorem Remembers.act (hd : d.directory.Fits) (h : d.Remembers p) {o : Outcome Demuxer}
    (hact : d.Act o) (hquiet : IsQuiet p o.events) : o.state.Remembers p := by
  have horderly := (fits_orderly_of_act hd hact).2
  obtain ⟨s, hstate, hlast⟩ := h
  cases hact with
  | failure e => exact ⟨s, hstate, hlast⟩
  | late notices =>
    refine ⟨s, ?_, hlast⟩
    show d.latePacket.state.directory.state? p.pid = _
    rw [directory_latePacket]
    exact hstate
  | flush =>
    cases hflushed : d.flushed with
    | true =>
      rw [flush, if_pos hflushed]
      exact ⟨s, hstate, hlast⟩
    | false =>
      rw [flush_of_open hflushed]
      refine ⟨s.flush.1, ?_, hlast⟩
      show d.directory.flushed.state? p.pid = _
      rw [Directory.state?_flushed, hstate]
      rfl
  | packet notices offset taken =>
    cases hread : Packet.ofBytes? taken with
    | none =>
      rw [packetAt_of_unread hread]
      exact ⟨s, hstate, hlast⟩
    | some q =>
      cases hflushed : d.flushed with
      | true =>
        rw [packetAt_of_flushed hflushed hread]
        refine ⟨s, ?_, hlast⟩
        show (latePacket _).state.directory.state? p.pid = _
        rw [directory_latePacket]
        exact hstate
      | false =>
        rw [packetAt_of_open hflushed hread] at hquiet horderly ⊢
        have hshown : Event.packet q ∈ Event.ofNotices notices ++ ([.packet q] ++
            (({ d with nextOffset := offset + Packet.size } : Demuxer).route offset q).events) :=
          List.mem_append_right _ List.mem_cons_self
        by_cases hpid : q.pid = p.pid
        · exact remembers_route (d := { d with nextOffset := offset + Packet.size })
            ⟨s, hstate, hlast⟩ hpid (hquiet q hshown hpid) offset
        · exact ⟨s, horderly.others hshown (Ne.symm hpid) hstate, hlast⟩

/-- So do moments that follow each other. -/
theorem Remembers.joined {ms : List Moment} {o : Outcome Demuxer} (hjoined : Joined d ms o)
    (hacts : ∀ m ∈ ms, m.before.Act m.outcome) (hd : d.directory.Fits) (h : d.Remembers p)
    (hquiet : IsQuiet p o.events) : o.state.Remembers p := by
  induction hjoined with
  | last m => exact h.act hd (hacts m List.mem_cons_self) hquiet
  | @cons m ms o first others ih =>
    have hact := hacts m List.mem_cons_self
    refine ih (fun m hm => hacts m (List.mem_cons_of_mem _ hm)) (fits_orderly_of_act hd hact).1
      (h.act hd hact fun q hq => hquiet q (List.mem_append_left _ hq))
      fun q hq => hquiet q (List.mem_append_right _ hq)

/-- So do operations. -/
theorem Remembers.apply (hd : d.directory.Fits) (h : d.Remembers p) {op : Operation}
    (hquiet : IsQuiet p (d.apply op).events) : (d.apply op).state.Remembers p :=
  Remembers.joined (d.apply_eq_joined op)
    (fun _ hm => (holds_at_moments (P := fun _ => True) (fun _ _ _ _ => trivial) trivial hm).1)
    hd h hquiet

/-- An operation leaves a directory that fits. -/
theorem fits_apply (hd : d.directory.Fits) (op : Operation) : (d.apply op).state.directory.Fits :=
  holds_apply (P := fun d => d.directory.Fits) (fun _ _ hd h => (fits_orderly_of_act hd h).1) hd op

/-- **Any operations.**  The counter stays noted while no packet with another one is counted. -/
theorem Remembers.afterAll (hd : d.directory.Fits) (h : d.Remembers p) {ops : List Operation}
    (hquiet : IsQuiet p (d.shown ops)) : (d.afterAll ops).Remembers p := by
  induction ops generalizing d with
  | nil => exact h
  | cons op ops ih =>
    exact ih (fits_apply hd op) (h.apply hd fun q hq => hquiet q (List.mem_append_left _ hq))
      fun q hq => hquiet q (List.mem_append_right _ hq)

/-! ## The first packet, and the second -/

/-- **The first one.**  Its counter is noted, and it fails in one way at most. -/
theorem remembers_push (hd : d.directory.Fits) (h : d.IsRepeatable p)
    (hread : Packet.ofBytes? bytes = some p) :
    (d.push bytes).state.Remembers p ∧ ((d.push bytes).error = none ∨
      (d.push bytes).error = some (.pesIncomplete d.nextOffset p.pid)) := by
  obtain ⟨b, hb, hrole⟩ := h.announced
  obtain ⟨payload, hlocated⟩ := h.counted.located
  obtain ⟨s, hstate⟩ := (hd.uses (hd.table.apart hb).2).2.1.mpr h.announced
  have hpid : s.pid = p.pid := by
    have hfor := (hd.agrees.isFor hstate hb).2
    exact hfor.pid.trans (hd.table.pid_eq hb)
  have hpush : d.push bytes = _ := packetAt_eq_routed h.isOpen hread d.nextOffset
  rw [hpush, route_of_located hstate h.counted.intact hlocated]
  refine ⟨⟨(s.packet d.options d.nextOffset p payload).state, ?_, ?_⟩, ?_⟩
  · exact Directory.state?_setState_self _ _ _
  · rw [s.lastCounter_packet, if_pos h.counted.announced]
  · show (s.packet d.options d.nextOffset p payload).error = none ∨
      (s.packet d.options d.nextOffset p payload).error = some (.pesIncomplete d.nextOffset p.pid)
    cases herror : (s.packet d.options d.nextOffset p payload).error with
    | none => exact .inl rfl
    | some e =>
      obtain ⟨rfl, -⟩ := PesStream.leaves_packet hlocated herror
      rw [hpid]
      exact .inr rfl

/-- A repetition is noted where it is routed, and changes nothing. -/
theorem route_again (hd : d.directory.Fits) (h : d.Remembers p) (hcounted : p.IsCounted)
    (hsteady : p.discontinuity = false) (offset : Nat) :
    d.route offset p = { state := d, events := [.notice (.duplicatePacket p.pid p.counter)] } := by
  obtain ⟨s, hstate, hlast⟩ := h
  obtain ⟨payload, hlocated⟩ := hcounted.located
  have hfits := hd.states p.pid
  rw [hstate] at hfits
  obtain ⟨b, hb, hfor⟩ := hfits
  have hpid : s.pid = p.pid := hfor.pid.trans (hd.table.pid_eq hb)
  rw [route_of_located hstate hcounted.intact hlocated,
    s.packet_again d.options offset hcounted.announced hsteady hlast, Outcome.map]
  dsimp only
  rw [Directory.setState_of_state? hstate, hpid]

/-- What comes of a repetition: it is shown and noted, and the next packet is expected behind it. -/
def dropped (d : Demuxer) (p : Packet) : Outcome Demuxer where
  state := { d with nextOffset := d.nextOffset + Packet.size }
  events := [.packet p, .notice (.duplicatePacket p.pid p.counter)]

/-- **The second one.** -/
theorem push_again (hd : d.directory.Fits) (hopen : d.flushed = false) (h : d.Remembers p)
    (hcounted : p.IsCounted) (hsteady : p.discontinuity = false)
    (hread : Packet.ofBytes? bytes = some p) : d.push bytes = d.dropped p := by
  have hpush : d.push bytes = _ := packetAt_eq_routed hopen hread d.nextOffset
  rw [hpush, route_again hd h hcounted hsteady]
  rfl

/-! ## Places do not matter -/

/-- The outcomes differ in what is told about places, and in nothing else that matters. -/
structure SameButPlaces (o o' : Outcome Demuxer) : Prop where
  /-- The state is the same, up to where the next packet is expected. -/
  state : o'.state = { o.state with nextOffset := o'.state.nextOffset }
  /-- The frames are the same. -/
  frames : o'.events.filterMap Event.frame? = o.events.filterMap Event.frame?
  /-- Both fail, or neither does. -/
  error : o'.error = none ↔ o.error = none

theorem SameButPlaces.refl (o : Outcome Demuxer) : SameButPlaces o o :=
  ⟨rfl, rfl, Iff.rfl⟩

theorem SameButPlaces.trans {o o' o'' : Outcome Demuxer} (h : SameButPlaces o o')
    (h' : SameButPlaces o' o'') : SameButPlaces o o'' := by
  refine ⟨?_, h'.frames.trans h.frames, h'.error.trans h.error⟩
  rw [h'.state, h.state]

theorem SameButPlaces.after {o o' : Outcome Demuxer} (h : SameButPlaces o o')
    {events events' : List Event}
    (hevents : events'.filterMap Event.frame? = events.filterMap Event.frame?) :
    SameButPlaces (o.after events) (o'.after events') := by
  refine ⟨h.state, ?_, h.error⟩
  show (events' ++ o'.events).filterMap _ = (events ++ o.events).filterMap _
  rw [List.filterMap_append, List.filterMap_append, hevents, h.frames]

/-- A packet after the end is noted, or has been, wherever the next one is expected. -/
theorem sameButPlaces_latePacket (d : Demuxer) (next : Nat) :
    SameButPlaces d.latePacket ({ d with nextOffset := next } : Demuxer).latePacket := by
  unfold latePacket
  dsimp only
  split <;> exact ⟨rfl, rfl, Iff.rfl⟩

/-- Frames are handed out, so they are among what is. -/
theorem filterMap_frame?_filter_isHandedOut (events : List Event) :
    (events.filter Event.isHandedOut).filterMap Event.frame? = events.filterMap Event.frame? := by
  rw [List.filterMap_filter]
  congr 1
  funext event
  cases event <;> rfl

theorem sameButPlaces_packetAt (hd : d.directory.Fits) (next offset offset' : Nat)
    (bytes : Bytes) :
    SameButPlaces (d.packetAt offset bytes)
      (({ d with nextOffset := next } : Demuxer).packetAt offset' bytes) := by
  let moved : Demuxer := { d with nextOffset := next }
  show SameButPlaces (d.packetAt offset bytes) (moved.packetAt offset' bytes)
  cases hread : Packet.ofBytes? bytes with
  | none =>
    rw [packetAt_of_unread hread, packetAt_of_unread hread]
    exact ⟨rfl, rfl, iff_of_false (Option.some_ne_none _) (Option.some_ne_none _)⟩
  | some p =>
    rcases Bool.eq_false_or_eq_true d.flushed with hflushed | hopen
    · rw [packetAt_of_flushed hflushed hread, packetAt_of_flushed (d := moved) hflushed hread]
      exact sameButPlaces_latePacket { d with nextOffset := offset + Packet.size }
        (offset' + Packet.size)
    · obtain ⟨hstate, hshown, failure, herror, herror'⟩ :=
        packetAt_moved hd hopen hread next offset offset'
      refine ⟨?_, ?_, ?_⟩
      · rw [hstate]
      · rw [← filterMap_frame?_filter_isHandedOut, ← hshown, filterMap_frame?_filter_isHandedOut]
      · rw [herror, herror', Option.map_eq_none_iff, Option.map_eq_none_iff]

/-- Packets in a row, up to the first that fails. -/
theorem sameButPlaces_forEach (hd : d.directory.Fits) (next : Nat)
    (found : List PacketReader.Found) (ending : Option SyncError) :
    SameButPlaces (Outcome.forEach d found foundPacket (endRun ending))
      (Outcome.forEach { d with nextOffset := next } found foundPacket (endRun ending)) := by
  induction found generalizing d next with
  | nil =>
    rw [Outcome.forEach_nil, Outcome.forEach_nil]
    cases ending with
    | some e => exact ⟨rfl, rfl, Iff.rfl⟩
    | none =>
      unfold endRun flush
      dsimp only
      split <;> exact ⟨rfl, rfl, Iff.rfl⟩
  | cons f found ih =>
    let moved : Demuxer := { d with nextOffset := next }
    have hfirst : SameButPlaces (d.foundPacket f) (moved.foundPacket f) :=
      (sameButPlaces_packetAt hd next f.offset f.offset f.bytes).after rfl
    show SameButPlaces _ (Outcome.forEach moved (f :: found) foundPacket (endRun ending))
    rw [Outcome.forEach_cons, Outcome.forEach_cons]
    cases herror : (d.foundPacket f).error with
    | none =>
      have hfits : (d.foundPacket f).state.directory.Fits :=
        (fits_orderly_of_act hd (.packet f.notices f.offset f.bytes)).1
      have hothers := ih hfits (moved.foundPacket f).state.nextOffset
      rw [← hfirst.state] at hothers
      rw [Outcome.andThen_of_error_eq_none herror,
        Outcome.andThen_of_error_eq_none (hfirst.error.mpr herror)]
      exact hothers.after hfirst.frames
    | some e =>
      have hfails : (moved.foundPacket f).error ≠ none :=
        fun hnone => Option.some_ne_none e (herror.symm.trans (hfirst.error.mp hnone))
      obtain ⟨e', herror'⟩ := Option.ne_none_iff_exists'.mp hfails
      rw [Outcome.andThen_of_error herror, Outcome.andThen_of_error herror']
      exact hfirst

/-- **One operation.**  Where the next packet is expected has no influence on it. -/
theorem sameButPlaces_apply (hd : d.directory.Fits) (next : Nat) (op : Operation) :
    SameButPlaces (d.apply op) (({ d with nextOffset := next } : Demuxer).apply op) := by
  cases op with
  | push bytes => exact sameButPlaces_packetAt hd next d.nextOffset next bytes
  | flush =>
    unfold apply flush
    dsimp only
    split <;> exact ⟨rfl, rfl, Iff.rfl⟩
  | run source =>
    let moved : Demuxer := { d with nextOffset := next }
    show SameButPlaces (d.run source) (moved.run source)
    have hflushed : moved.flushed = d.flushed := rfl
    unfold run
    generalize ({ source } : PacketReader).readAll = read
    obtain ⟨found, ending⟩ := read
    rw [hflushed]
    cases d.flushed with
    | false => exact sameButPlaces_forEach hd next found ending
    | true =>
      cases found with
      | nil => exact sameButPlaces_forEach hd next [] ending
      | cons f found => exact (sameButPlaces_latePacket d next).after rfl

/-- **Any operations.** -/
theorem sameButPlaces_afterAll (hd : d.directory.Fits) (next : Nat) (ops : List Operation) :
    SameButPlaces { state := d.afterAll ops, events := d.shown ops }
      { state := ({ d with nextOffset := next } : Demuxer).afterAll ops
        events := ({ d with nextOffset := next } : Demuxer).shown ops } := by
  induction ops generalizing d next with
  | nil => exact ⟨rfl, rfl, Iff.rfl⟩
  | cons op ops ih =>
    have hfirst := sameButPlaces_apply hd next op
    have hothers := ih (fits_apply hd op)
      (({ d with nextOffset := next } : Demuxer).apply op).state.nextOffset
    rw [← hfirst.state] at hothers
    exact hothers.after hfirst.frames

/-! ## Repetitions -/

/-- Any number of repetitions in a row. -/
theorem push_again_all (hd : d.directory.Fits) (hopen : d.flushed = false) (h : d.Remembers p)
    (hcounted : p.IsCounted) (hsteady : p.discontinuity = false)
    (hread : Packet.ofBytes? bytes = some p) (count : Nat) :
    d.afterAll (List.replicate count (.push bytes)) =
        { d with nextOffset := d.nextOffset + count * Packet.size } ∧
      ∀ o ∈ d.outcomes (List.replicate count (.push bytes)),
        o.error = none ∧ o.events.filterMap Event.frame? = [] := by
  induction count generalizing d with
  | zero =>
    rw [Nat.zero_mul]
    exact ⟨rfl, fun o ho => absurd ho List.not_mem_nil⟩
  | succ count ih =>
    have hfirst : d.apply (.push bytes) = d.dropped p :=
      push_again hd hopen h hcounted hsteady hread
    obtain ⟨hstate, houtcomes⟩ := ih (d := (d.dropped p).state) hd hopen h
    rw [List.replicate_succ, outcomes, hfirst]
    refine ⟨?_, List.forall_mem_cons.mpr ⟨⟨rfl, rfl⟩, houtcomes⟩⟩
    show (d.apply (.push bytes)).state.afterAll _ = _
    rw [hfirst, hstate]
    show ({ d with nextOffset := d.nextOffset + Packet.size + count * Packet.size } : Demuxer) = _
    rw [Nat.succ_mul, Nat.add_assoc, Nat.add_comm Packet.size]

/-- Operations, and the same ones with one repetition: a packet that is pushed, and can be repeated,
is pushed once more before one with another counter is counted on its PID. -/
inductive Repeats (new : Demuxer) : List Operation → List Operation → Prop
  /-- The repetition comes after the operations `between`. -/
  | push {before between later : List Operation} {bytes : Bytes} {p : Packet}
    (reads : Packet.ofBytes? bytes = some p) (repeatable : (new.afterAll before).IsRepeatable p)
    (quiet : IsQuiet p (((new.afterAll before).push bytes).state.shown between))
    (isOpen : (((new.afterAll before).push bytes).state.afterAll between).flushed = false) :
    Repeats new (before ++ .push bytes :: (between ++ later))
      (before ++ .push bytes :: (between ++ .push bytes :: later))

/-- What operations come to, all of them together. -/
def together (d : Demuxer) (ops : List Operation) : Outcome Demuxer where
  state := d.afterAll ops
  events := d.shown ops

theorem together_append (d : Demuxer) (ops later : List Operation) :
    d.together (ops ++ later) = ((d.afterAll ops).together later).after (d.shown ops) := by
  rw [together, afterAll_append, shown_append]
  rfl

theorem fits_of_afterAll (hd : d.directory.Fits) (ops : List Operation) :
    (d.afterAll ops).directory.Fits :=
  holds_afterAll (P := fun d => d.directory.Fits) (fun _ _ hd h => (fits_orderly_of_act hd h).1) hd
    ops

/-- The counter of a packet that is pushed is still noted where it is pushed again. -/
theorem remembers_between (hd : d.directory.Fits) (h : d.IsRepeatable p)
    (hread : Packet.ofBytes? bytes = some p) {between : List Operation}
    (hquiet : IsQuiet p ((d.push bytes).state.shown between)) :
    ((d.push bytes).state.afterAll between).Remembers p :=
  (remembers_push hd h hread).1.afterAll (fits_apply hd (.push bytes)) hquiet

/-- **One repetition more.** -/
theorem Repeats.sameButPlaces (hd : d.directory.Fits) {ops ops' : List Operation}
    (h : d.Repeats ops ops') : SameButPlaces (d.together ops) (d.together ops') := by
  cases h with
  | @push before between later bytes p reads repeatable quiet isOpen =>
    let reached := ((d.afterAll before).push bytes).state.afterAll between
    have hbefore : (d.afterAll before).directory.Fits := fits_of_afterAll hd before
    have hreached : reached.directory.Fits :=
      fits_of_afterAll (fits_apply hbefore (.push bytes)) between
    have hdropped : reached.push bytes = reached.dropped p :=
      push_again hreached isOpen (remembers_between hbefore repeatable reads quiet)
        repeatable.counted repeatable.steady reads
    -- All that is different is behind the repetition, and starts from the state that it leaves.
    have hlater :
        SameButPlaces (reached.together later) (reached.together (.push bytes :: later)) := by
      have hmoved := sameButPlaces_afterAll hreached (reached.nextOffset + Packet.size) later
      have hsplit : reached.together (.push bytes :: later) =
          ((reached.push bytes).state.together later).after (reached.push bytes).events := rfl
      have hnone : (reached.dropped p).events.filterMap Event.frame? =
        ([] : List Event).filterMap Event.frame? := rfl
      rw [hsplit, hdropped]
      exact hmoved.after hnone
    have hcommon : ∀ rest, d.together (before ++ .push bytes :: (between ++ rest)) =
        (reached.together rest).after (d.shown (before ++ .push bytes :: between)) := by
      intro rest
      have hreach : d.afterAll (before ++ .push bytes :: between) = reached :=
        afterAll_append d before _
      rw [← List.cons_append, ← List.append_assoc, together_append, hreach]
    rw [hcommon, hcommon]
    exact hlater.after rfl

/-- **Repetitions are invisible.**  Before the end of the stream a packet of audio or video is
pushed, and then anything that brings no packet with another counter on its PID.  From there on it
may be pushed again, as often as one likes: it is taken, brings no frame, and changes nothing but
where the next packet is expected.  So operations with repetitions, wherever they are, give the same
frames and the same table. -/
theorem duplicates_invisible (options : DemuxOptions) :
    let new : Demuxer := { options }
    (∀ ops bytes p, Packet.ofBytes? bytes = some p → (new.afterAll ops).IsRepeatable p →
      let d := new.afterAll ops
      let first := d.push bytes
      (first.error = none ∨ first.error = some (.pesIncomplete d.nextOffset p.pid)) ∧
      ∀ between, IsQuiet p (first.state.shown between) →
        let d' := first.state.afterAll between
        d'.flushed = false → d'.push bytes = d'.dropped p ∧
          ∀ count, d'.afterAll (List.replicate count (.push bytes)) =
              { d' with nextOffset := d'.nextOffset + count * Packet.size } ∧
            ∀ o ∈ d'.outcomes (List.replicate count (.push bytes)),
              o.error = none ∧ o.events.filterMap Event.frame? = []) ∧
    ∀ ops ops', Relation.ReflTransGen new.Repeats ops ops' →
      (new.shown ops').filterMap Event.frame? = (new.shown ops).filterMap Event.frame? ∧
      (new.afterAll ops').table = (new.afterAll ops).table ∧
      new.afterAll ops' =
        { new.afterAll ops with nextOffset := (new.afterAll ops').nextOffset } := by
  intro new
  have hnew : new.directory.Fits := Directory.fits_new
  refine ⟨fun ops bytes p hread h => ?_, fun ops ops' hops => ?_⟩
  · have hd : (new.afterAll ops).directory.Fits := fits_afterAll options ops
    refine ⟨(remembers_push hd h hread).2, fun between hquiet hopen => ?_⟩
    have hfits := fits_of_afterAll (fits_apply hd (.push bytes)) between
    have hnoted := remembers_between hd h hread hquiet
    exact ⟨push_again hfits hopen hnoted h.counted h.steady hread,
      push_again_all hfits hopen hnoted h.counted h.steady hread⟩
  · have hsame : SameButPlaces (new.together ops) (new.together ops') := by
      induction hops with
      | refl => exact .refl _
      | tail _ hlast ih => exact ih.trans (hlast.sameButPlaces hnew)
    have htable : (new.afterAll ops').table = (new.afterAll ops).table := by
      have hstate : new.afterAll ops' = _ := hsame.state
      rw [hstate]
      rfl
    exact ⟨hsame.frames, htable, hsame.state⟩

/-- A stream of H.264 video, with tables whose checksums are not verified, and a first packet that
is sent twice.  Between the two there are a packet of stuffing, and one of the same PID that has
another counter and no payload. -/
theorem duplicates_invisible_small :
    let packet (front : Bytes) : Bytes := front ++ List.replicate (188 - front.length) 0xff
    let tables : List Operation := [
      .push (packet [0x47, 0x40, 0x00, 0x10, 0x00, 0x00, 0xb0, 0x0d, 0x00, 0x01, 0xc1, 0x00, 0x00,
        0x00, 0x01, 0xe0, 0x20, 0x00, 0x00, 0x00, 0x00]),
      .push (packet [0x47, 0x40, 0x20, 0x10, 0x00, 0x02, 0xb0, 0x12, 0x00, 0x01, 0xc1, 0x00, 0x00,
        0xe1, 0x00, 0xf0, 0x00, 0x1b, 0xe1, 0x00, 0xf0, 0x00, 0x00, 0x00, 0x00, 0x00])]
    let video := packet [0x47, 0x41, 0x00, 0x15, 0x00, 0x00, 0x01, 0xe0, 0x00, 0x00, 0x80, 0x00,
      0x00, 0x00, 0x00, 0x01, 0x65]
    let between : List Operation := [
      .push (packet [0x47, 0x1f, 0xff, 0x10]), .push (packet [0x47, 0x01, 0x00, 0x29, 0xb7, 0x00])]
    let new : Demuxer := { options := { verifyCrc := false } }
    let first := (new.afterAll tables).push video
    let reached := first.state.afterAll between
    let p : Packet := {
      transportError := false
      unitStart := true
      pid := .ofBytes 0x41 0x00
      control := .payloadOnly
      counter := ⟨5⟩
      body := video.drop 4
      length_body := by decide +kernel }
    Packet.ofBytes? video = some p ∧ (new.afterAll tables).IsRepeatable p ∧
      IsQuiet p (first.state.shown between) ∧ reached.flushed = false ∧
      first.error = none ∧ reached.push video = reached.dropped p ∧
      ∀ later, (new.shown (tables ++ .push video :: (between ++ .push video :: later))).filterMap
          Event.frame? =
        (new.shown (tables ++ .push video :: (between ++ later))).filterMap Event.frame? := by
  intro packet tables video between new first reached p
  have hread : Packet.ofBytes? video = some p := by decide +kernel
  have hbound : ((new.afterAll tables).table.binding? p.pid).map StreamBinding.role =
      some .video := by decide +kernel
  have hrepeatable : (new.afterAll tables).IsRepeatable p := by
    obtain ⟨b, hb, hrole⟩ := Option.map_eq_some_iff.mp hbound
    exact ⟨by decide +kernel, ⟨b, hb, .inl hrole⟩, by decide +kernel, by decide +kernel⟩
  have hquiet : IsQuiet p (first.state.shown between) := by decide +kernel
  have hopen : reached.flushed = false := by decide +kernel
  obtain ⟨hone, hmany⟩ := duplicates_invisible { verifyCrc := false }
  obtain ⟨-, hagain⟩ := hone tables video p hread hrepeatable
  refine ⟨hread, hrepeatable, hquiet, hopen, by decide +kernel, (hagain between hquiet hopen).1,
    fun later => ?_⟩
  exact (hmany _ _ (.single (.push hread hrepeatable hquiet hopen))).1

end Demuxer

end TransportStream
