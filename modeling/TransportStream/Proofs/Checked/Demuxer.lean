import TransportStream.Proofs.Checked.PacketReader
import TransportStream.Proofs.Checked.PesStream
import TransportStream.Proofs.Checked.Receiver
import TransportStream.Proofs.DirectoryAgreement

/-!
# The demultiplexer, by index

A packet is asked for its PID, for its flags and for its payload, and handed to the stream in the
place of its PID.  A byte source is read packet by packet: the next packet is asked for when the one
before has been dealt with.

Operations follow each other on one demultiplexer, and each relies on what those before it left.
What they have to leave are sections in progress that are not there as a whole (`Intact`).

* `packet_eq`, `runFrom_eq`, `flush_eq`: what is done with a packet, with a byte source, and at the
  end of the stream.
* `performAll_eq_outcomes`: **no operation fails**, in whatever order operations follow each other,
  and what comes of them is what the library gives.
-/

namespace TransportStream

namespace Checked

namespace Demux

open Tables (place place_eq)
open Demuxer (Operation)

/-- Locates the payload of a packet and goes on with it, unless the packet is damaged. -/
def withPayload (d : Demuxer) (offset : Nat) (pid : Pid) (buf : Bytes)
    (next : Option Bytes → Option (Outcome Demuxer)) : Option (Outcome Demuxer) := do
  if ← transportError buf then
    return { state := d, events := [.notice (.transportError pid offset)] }
  else
    match ← payload buf with
    | .error e => return { state := d, error := some (.packet offset pid e) }
    | .ok payload => next payload

/-- Passes a packet to the stream in the place of its PID.  The PIDs without announcement have a
place each as well. -/
def route (d : Demuxer) (offset : Nat) (buf : Bytes) : Option (Outcome Demuxer) := do
  let pid ← pid buf
  place pid
  match d.directory.state? pid with
  | none => return d.unannouncedPacket pid
  | some .unframed => return { state := d }
  | some (.pes s) =>
    withPayload d offset pid buf fun payload => do
      let o ← Stream.packet s d.options offset buf payload
      return o.map fun s => { d with directory := d.directory.setState pid (.pes s) }
  | some (.psi s) =>
    withPayload d offset pid buf fun
      | none => some { state := d }
      | some payload => do
        Receiver.sectionPacket d s offset pid (← unitStart buf) payload

/-- Shows a packet, and does what is to be done with it. -/
def packet (d : Demuxer) (offset : Nat) (buf : Bytes) : Option (Outcome Demuxer) := do
  let shown ← shown buf
  let o ← route { d with nextOffset := offset + Packet.size } offset buf
  return o.after [.packet shown]

/-- Takes one packet. -/
def push (d : Demuxer) (buf : Bytes) : Option (Outcome Demuxer) := do
  if ← tryPacket buf then
    if d.flushed then
      return Demuxer.latePacket { d with nextOffset := d.nextOffset + Packet.size }
    else packet d d.nextOffset buf
  else return { state := d, error := some (.sync (.syncLost d.nextOffset buf)) }

/-- Flushes the state of one PID after those before it, and adds its frame to theirs. -/
def flushState (flushed : SortedMap Pid PidState × List Frame) (entry : Pid × PidState) :
    Option (SortedMap Pid PidState × List Frame) := do
  let (state, frames) ← Stream.flush entry.2
  return (flushed.1.insert entry.1 state, flushed.2 ++ frames)

/-- Declares the end of the stream. -/
def flush (d : Demuxer) : Option (Outcome Demuxer) :=
  if d.flushed then some { state := d }
  else do
    let (states, frames) ← d.directory.states.entries.foldlM flushState (d.directory.states, [])
    return {
      state := { d with flushed := true, directory := { d.directory with states } }
      events := Event.ofFrames frames }

/-- Takes the packets of a byte source one after the other, up to an error, and declares the end of
the stream where the source ends. -/
def runFrom (d : Demuxer) (r : PacketReader) : Option (Outcome Demuxer) := do
  match ← (Reader.next r).attachWith
    (fun found => ∀ notices buf, found.2 = .packet notices buf → found.1.ahead < r.ahead)
    fun _ => Reader.ahead_of_next with
  | ⟨(_, .error e), _⟩ => return { state := d, error := some (.sync e) }
  | ⟨(_, .endOfData), _⟩ => flush d
  | ⟨(next, .packet notices buf), _hnext⟩ =>
    if d.flushed then
      let late := d.latePacket.after (Event.ofNotices notices)
      let o ← flush late.state
      return o.after late.events
    else
      newPacket buf
      let o ← packet d next.offset buf
      let o := o.after (Event.ofNotices notices)
      match o.error with
      | some _ => return o
      | none => return (← runFrom o.state next).after o.events
termination_by r.ahead
decreasing_by exact _hnext notices buf rfl

/-- Does what is asked for. -/
def perform (d : Demuxer) : Operation → Option (Outcome Demuxer)
  | .run source => runFrom d { source }
  | .push bytes => push d bytes
  | .flush => flush d

/-- What comes of operations that follow each other. -/
def performAll (d : Demuxer) : List Operation → Option (List (Outcome Demuxer))
  | [] => some []
  | op :: ops => do
    let o ← perform d op
    return o :: (← performAll o.state ops)

/-! ## What operations leave -/

/-- The sections in progress are not there as a whole. -/
def Intact (d : Directory) : Prop :=
  ∀ pid s, d.state? pid = some (.psi s) → Sections.Sound s.buffer

section Directories

variable {d : Directory}

theorem intact_new : Intact {} := by
  intro pid s hstate
  rw [Directory.state?_new] at hstate
  split at hstate
  · cases hstate
    exact Sections.sound_idle
  · cases hstate

/-- States that are added have no section in progress. -/
theorem Intact.add (h : Intact d) {d' : Directory} {new : Pid → Option PidState}
    (hstates : ∀ pid, d'.state? pid = (d.state? pid).or (new pid))
    (hnew : ∀ pid s, new pid = some (.psi s) → s.buffer = .idle) : Intact d' := by
  intro pid s hstate
  rw [hstates] at hstate
  cases hold : d.state? pid with
  | some state =>
    rw [hold, Option.some_or] at hstate
    exact h pid s (hold.trans hstate)
  | none =>
    rw [hold, Option.none_or] at hstate
    rw [hnew pid s hstate]
    exact Sections.sound_idle

theorem Intact.applyPat (h : Intact d) (pat : PatSection) : Intact (d.applyPat pat).1 := by
  refine h.add (Directory.state?_applyPat pat) fun pid s hnew => ?_
  split at hnew
  · cases hnew
    rfl
  · cases hnew

theorem Intact.applyPmt (h : Intact d) (pmtPid : Pid) (program : Nat) (pmt : PmtSection) :
    Intact (d.applyPmt pmtPid program pmt).1 := by
  refine h.add (d.state?_applyPmt_added pmtPid program pmt) fun pid s hnew => ?_
  obtain ⟨b, -, hb⟩ := Option.map_eq_some_iff.mp hnew
  unfold PidState.ofBinding at hb
  split at hb <;> cases hb

theorem Intact.setState (h : Intact d) (pid : Pid) {state : PidState}
    (hstate : ∀ s, state = .psi s → Sections.Sound s.buffer) : Intact (d.setState pid state) := by
  intro pid' s hs
  by_cases hpid : pid = pid'
  · subst hpid
    rw [Directory.state?_setState_self] at hs
    exact hstate s (Option.some.inj hs)
  · rw [Directory.state?_setState_of_ne d hpid] at hs
    exact h pid' s hs

theorem Intact.flush (h : Intact d) : Intact d.flushed := by
  intro pid s hs
  rw [Directory.state?_flushed] at hs
  obtain ⟨state, hstate, hflush⟩ := Option.map_eq_some_iff.mp hs
  cases state with
  | psi s' =>
    cases hflush
    exact h pid s hstate
  | pes s' => cases hflush
  | unframed => cases hflush

end Directories

section Acts

variable {d : Demuxer}

/-- What a packet leaves is intact. -/
theorem Intact.route (h : Intact d.directory) (offset : Nat) (p : Packet) :
    Intact (d.route offset p).state.directory := by
  have hrouted := d.routed_route offset p
  generalize d.route offset p = o at hrouted
  cases hrouted with
  | nowhere notices state events =>
    rw [state]
    exact h
  | pes payload state => exact h.setState p.pid fun s heq => PidState.noConfusion heq
  | @psi s payload state =>
    refine Intact.setState ?_ p.pid fun next heq => ?_
    · exact SectionReceiver.holds_drive (fun _ pat h => h.applyPat pat)
        (fun _ pmtPid program pmt h => h.applyPmt pmtPid program pmt) h _ _ _ _
    · cases heq
      exact Sections.sound_drive _ _ (Sections.sound_push s.buffer p.unitStart payload)

theorem Intact.packetAt (h : Intact d.directory) (offset : Nat) (bytes : Bytes) :
    Intact (d.packetAt offset bytes).state.directory := by
  unfold Demuxer.packetAt
  split
  · exact h
  · next p _ =>
    have hroute := Intact.route (d := { d with nextOffset := offset + Packet.size }) h offset p
    dsimp only
    split
    · rw [Demuxer.directory_latePacket]
      exact h
    · exact hroute

/-- What an act leaves is intact. -/
theorem Intact.act (h : Intact d.directory) {o : Outcome Demuxer} (hact : d.Act o) :
    Intact o.state.directory := by
  cases hact with
  | packet notices offset bytes => exact h.packetAt offset bytes
  | late notices =>
    change Intact d.latePacket.state.directory
    rw [Demuxer.directory_latePacket]
    exact h
  | flush =>
    unfold Demuxer.flush
    split
    · exact h
    · exact h.flush
  | failure e => exact h

end Acts

/-! ## Nothing fails -/

section Packets

variable {buf : Bytes} {p : Packet}

theorem withPayload_eq (h : Reads buf p) (d : Demuxer) (offset : Nat)
    {next : Option Bytes → Option (Outcome Demuxer)} {next' : Option Bytes → Outcome Demuxer}
    (hnext : ∀ payload, next payload = some (next' payload)) :
    withPayload d offset p.pid buf next = some (d.withPayload offset p next') := by
  unfold withPayload Demuxer.withPayload
  simp only [h.transportError, h.payload, Option.bind_eq_bind, Option.bind_some]
  split
  · rfl
  · cases p.payload with
    | error e => rfl
    | ok payload => exact hnext payload

theorem route_eq (h : Reads buf p) {d : Demuxer} (hd : Intact d.directory) (offset : Nat) :
    route d offset buf = some (d.route offset p) := by
  unfold route Demuxer.route
  simp only [h.pid, place_eq, Option.bind_eq_bind, Option.bind_some]
  cases hstate : d.directory.state? p.pid with
  | none => rfl
  | some state =>
    cases state with
    | unframed => rfl
    | pes s =>
      refine withPayload_eq h d offset fun payload => ?_
      rw [Stream.packet_eq h]
      rfl
    | psi s =>
      refine withPayload_eq h d offset fun payload => ?_
      cases payload with
      | none => rfl
      | some payload =>
        simp only [h.unitStart, Option.bind_some]
        exact Receiver.sectionPacket_eq d (hd p.pid s hstate) offset p payload

/-- A packet is taken within its bytes. -/
theorem packet_eq (hp : Packet.ofBytes? buf = some p) {d : Demuxer} (hd : Intact d.directory)
    (hopen : d.flushed = false) (offset : Nat) :
    packet d offset buf = some (d.packetAt offset buf) := by
  have h := reads_of_ofBytes? hp
  have hroute := route_eq h (d := { d with nextOffset := offset + Packet.size }) hd offset
  rw [packet, h.shown, Demuxer.packetAt, hp]
  simp only [hopen] at hroute
  simp only [Option.bind_eq_bind, Option.bind_some, hroute, hopen, Bool.false_eq_true, if_false]
  rfl

/-- Any bytes can be given for a packet. -/
theorem push_eq {d : Demuxer} (hd : Intact d.directory) (buf : Bytes) :
    push d buf = some (d.push buf) := by
  rw [push, tryPacket_eq, Demuxer.push]
  cases hp : Packet.ofBytes? buf with
  | none =>
    rw [Demuxer.packetAt, hp]
    rfl
  | some p =>
    cases hflushed : d.flushed with
    | false => simp [packet_eq hp hd hflushed]
    | true =>
      rw [Demuxer.packetAt, hp]
      simp [hflushed]

end Packets

/-! ## The end of the stream -/

/-- What each key has after all entries were put in place. -/
theorem get?_foldl_insert {α : Type} (f : α → α) {entries : List (Pid × α)}
    (h : entries.Pairwise fun a b => rank a.1 < rank b.1) (m : SortedMap Pid α) (pid : Pid) :
    (entries.foldl (fun m entry => m.insert entry.1 (f entry.2)) m).get? pid =
      ((SortedMap.lookup pid entries).map f).or (m.get? pid) := by
  induction entries generalizing m with
  | nil => rfl
  | cons entry entries ih =>
    obtain ⟨hhead, hrest⟩ := List.pairwise_cons.mp h
    rw [List.foldl_cons, ih hrest, SortedMap.lookup, SortedMap.get?_insert]
    by_cases hpid : entry.1 = pid
    · subst hpid
      rw [if_pos rfl, if_pos rfl, SortedMap.lookup_eq_none hhead]
      rfl
    · rw [if_neg hpid, if_neg fun hrank => hpid (rank_injective hrank)]

theorem foldlM_flushState (entries : List (Pid × PidState))
    (flushed : SortedMap Pid PidState × List Frame) :
    entries.foldlM flushState flushed =
      some (entries.foldl (fun m entry => m.insert entry.1 entry.2.flush.1) flushed.1,
        flushed.2 ++ (entries.map (·.2)).flatMap fun state => state.flush.2) := by
  induction entries generalizing flushed with
  | nil => simp
  | cons entry entries ih =>
    rw [List.foldlM_cons, flushState, Stream.flush_eq]
    simp [ih, List.append_assoc]

/-- Every state is flushed once. -/
theorem flush_eq (d : Demuxer) : flush d = some d.flush := by
  have hstates : d.directory.states.entries.foldl
      (fun m entry => m.insert entry.1 entry.2.flush.1) d.directory.states =
      d.directory.states.map fun state => state.flush.1 := by
    refine SortedMap.ext_get? fun pid => ?_
    rw [get?_foldl_insert (fun state => state.flush.1) d.directory.states.sorted,
      SortedMap.get?_map]
    change (Option.map _ (d.directory.states.get? pid)).or _ = _
    cases d.directory.states.get? pid <;> rfl
  unfold flush Demuxer.flush
  split
  · rfl
  · simp [foldlM_flushState, hstates, SortedMap.values]

/-! ## Byte sources -/

/-- A byte source is read packet by packet, up to its end or an error. -/
theorem runFrom_eq {r : PacketReader} (hr : Reader.Sound r) {d : Demuxer} (hd : Intact d.directory)
    (hopen : d.flushed = false) :
    runFrom d r = some (Outcome.forEach d r.readAll.1 Demuxer.foundPacket
      (Demuxer.endRun r.readAll.2)) := by
  obtain ⟨hchecked, hsound⟩ := hr.next
  rw [runFrom]
  match hnext : r.next with
  | (r', .endOfData) =>
    rw [hnext] at hchecked
    simp only [hchecked, Option.attachWith_some]
    rw [PacketReader.readAll_of_endOfData hnext, Outcome.forEach_nil]
    exact flush_eq d
  | (r', .error e) =>
    rw [hnext] at hchecked
    simp only [hchecked, Option.attachWith_some]
    rw [PacketReader.readAll_of_error hnext, Outcome.forEach_nil]
    rfl
  | (r', .packet notices bytes) =>
    obtain ⟨p, hp⟩ := Reader.exists_packet_of_next hnext
    have hless := PacketReader.ahead_next_lt hnext
    let f : PacketReader.Found := { offset := r'.offset, notices, bytes }
    have hintact : Intact (d.foundPacket f).state.directory := hd.packetAt f.offset f.bytes
    have hstill : (d.foundPacket f).state.flushed = false :=
      Demuxer.flushed_packetAt hopen f.offset f.bytes
    rw [hnext] at hchecked hsound
    have hothers : runFrom (d.foundPacket f).state r' = _ := runFrom_eq hsound hintact hstill
    have hfound : (d.packetAt r'.offset bytes).after (Event.ofNotices notices) =
        d.foundPacket f := rfl
    rw [PacketReader.readAll_of_packet hnext, Outcome.forEach_cons, Outcome.andThen]
    simp only [hchecked, Option.attachWith_some, hopen, Bool.false_eq_true, if_false,
      (reads_of_ofBytes? hp).newPacket, packet_eq hp hd hopen, Option.bind_eq_bind,
      Option.bind_some, hfound, hothers]
    cases (d.foundPacket f).error <;> rfl
termination_by r.ahead

/-- After the end of the stream the first packet is the last one that is asked for. -/
theorem runFrom_of_flushed {r : PacketReader} (hr : Reader.Sound r) {d : Demuxer}
    (hflushed : d.flushed = true) :
    runFrom d r = some (match r.readAll.1 with
      | f :: _ => d.latePacket.after (Event.ofNotices f.notices)
      | [] => Demuxer.endRun r.readAll.2 d) := by
  have hchecked := hr.next.1
  rw [runFrom]
  match hnext : r.next with
  | (r', .endOfData) =>
    rw [hnext] at hchecked
    simp only [hchecked, Option.attachWith_some]
    rw [PacketReader.readAll_of_endOfData hnext]
    exact flush_eq d
  | (r', .error e) =>
    rw [hnext] at hchecked
    simp only [hchecked, Option.attachWith_some]
    rw [PacketReader.readAll_of_error hnext]
    rfl
  | (r', .packet notices bytes) =>
    rw [hnext] at hchecked
    rw [PacketReader.readAll_of_packet hnext]
    simp only [hchecked, Option.attachWith_some, hflushed, if_true, flush_eq, Option.bind_eq_bind,
      Option.bind_some]
    -- there is nothing left to flush
    unfold Demuxer.latePacket
    split <;> simp [Demuxer.flush, Outcome.after, hflushed]

/-! ## Operations -/

/-- A new reader has nothing in its window. -/
theorem sound_new (source : ByteSource) : Reader.Sound { source } :=
  ⟨Nat.zero_le _, fun hheld => Bool.noConfusion hheld⟩

/-- No operation fails. -/
theorem perform_eq {d : Demuxer} (hd : Intact d.directory) (op : Operation) :
    perform d op = some (d.apply op) := by
  cases op with
  | push bytes => exact push_eq hd bytes
  | flush => exact flush_eq d
  | run source =>
    have hreader := sound_new source
    change runFrom d { source } = some (d.run source)
    unfold Demuxer.run
    cases hflushed : d.flushed with
    | false => exact runFrom_eq hreader hd hflushed
    | true =>
      rw [runFrom_of_flushed hreader hflushed]
      generalize ({ source } : PacketReader).readAll = read
      obtain ⟨found, ending⟩ := read
      cases found with
      | nil => rfl
      | cons f found => rfl

theorem performAll_eq {d : Demuxer} (hd : Intact d.directory) (ops : List Operation) :
    performAll d ops = some (d.outcomes ops) := by
  induction ops generalizing d with
  | nil => rfl
  | cons op ops ih =>
    rw [performAll, perform_eq hd]
    have hnext : Intact (d.apply op).state.directory :=
      Demuxer.holds_apply (P := fun d => Intact d.directory) (fun _ _ h hact => h.act hact) hd op
    simp [ih hnext, Demuxer.outcomes]

/-- **Nothing fails.**  Whatever the options, and in whatever order byte sources, packets and ends
of the stream are given, every access is within its bounds, every condition that is relied on holds
and every loop ends.  Each operation comes to what the library gives: a state, what was shown on the
way, and an error or none. -/
theorem performAll_eq_outcomes (options : DemuxOptions) (ops : List Operation) :
    performAll { options } ops = some (Demuxer.outcomes { options } ops) :=
  performAll_eq intact_new ops

end Demux

end Checked

end TransportStream
