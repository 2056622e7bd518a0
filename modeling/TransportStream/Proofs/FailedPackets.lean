import TransportStream.Proofs.EndOfStream
import TransportStream.Proofs.PacketByPacket
import TransportStream.Proofs.RoundTrip

/-!
# What a packet that fails leaves

A packet can fail at four depths: it is no packet at all, its header is malformed, a PES packet
starts in it too early, or a section that it completes cannot be used.  Something may have happened
before that: a counter was noted, or sections earlier in the same payload were followed.  None of it
touches the data that is waiting in the streams.  It is neither lost nor handed out, so the end of
the stream brings what it would have brought without the packet.

* `PesStream.leaves_packet`: a stream that fails has given up a header, and keeps its framer.
* `Feed.FailsAfter`: a payload fails at one of the sections in it, or behind the last one.
* `Demuxer.Leaves`: what each failure leaves.
* `Demuxer.leaves_route`: a packet that fails leaves this.
* `Demuxer.Leaves.keeps`: whatever it is, all data that is waiting is still there.
* `Demuxer.failed_packet`: what a packet leaves that fails after any operations.
-/

namespace TransportStream

/-! ## Streams that are cut into frames -/

namespace PesAccumulator

variable {a : PesAccumulator} {data : Bytes} {requested held : Nat}

theorem supply_ok (timing : Timing) (payload : Bytes) (remaining : Option Nat) (first : Bool) :
    (supply timing payload remaining first).result = .ok (.ready first) := by
  cases remaining <;> rfl

/-- A header that is incomplete is no error where it is read. -/
theorem startBody_ne_needMoreData :
    (a.startBody data).result ≠ .error (.needMoreData requested held) := by
  intro h
  unfold startBody at h
  cases hread : PesHeader.ofBytes data with
  | ok header =>
    rw [hread] at h
    cases (supply_ok _ _ _ _).symm.trans h
  | error e =>
    rw [hread] at h
    cases e <;> cases h

/-- It is one where the next PES packet starts.  Both are given up. -/
theorem unitStart_of_needMoreData
    (h : (a.unitStart data).result = .error (.needMoreData requested held)) :
    (∃ part count, a.stage = .headerPending part count) ∧
      (a.unitStart data).accumulator = { a with stage := .idle } := by
  unfold unitStart at h ⊢
  cases hstage : a.stage with
  | headerPending part count => exact ⟨⟨part, count, rfl⟩, rfl⟩
  | _ =>
    rw [hstage] at h
    exact absurd h startBody_ne_needMoreData

theorem continuation_ne_needMoreData :
    (a.continuation data).result ≠ .error (.needMoreData requested held) := by
  intro h
  unfold continuation at h
  cases hstage : a.stage with
  | headerPending part count =>
    rw [hstage] at h
    exact startBody_ne_needMoreData h
  | body available remaining =>
    rw [hstage] at h
    cases (supply_ok _ _ _ _).symm.trans h
  | _ =>
    rw [hstage] at h
    cases h

end PesAccumulator

namespace PesStream

variable {s : PesStream} {offset : Nat} {unitStart : Bool} {e : DemuxError}

/-- Data that fails has been given up, together with the header that was waiting. -/
theorem leaves_take {payload : Bytes} (h : (s.take offset unitStart payload).error = some e) :
    (∃ part count, s.accumulator.stage = .headerPending part count) ∧
      e = .pesIncomplete offset s.pid ∧
      (s.take offset unitStart payload).state =
        { s with accumulator := { s.accumulator with stage := .idle } } ∧
      (s.take offset unitStart payload).events.filterMap Event.frame? = [] := by
  have hstep : ∀ requested held,
      (if unitStart then s.accumulator.unitStart payload
        else s.accumulator.continuation payload).result = .error (.needMoreData requested held) →
      (∃ part count, s.accumulator.stage = .headerPending part count) ∧
        (if unitStart then s.accumulator.unitStart payload
          else s.accumulator.continuation payload).accumulator =
          { s.accumulator with stage := .idle } := by
    intro requested held hresult
    cases unitStart with
    | true => exact PesAccumulator.unitStart_of_needMoreData hresult
    | false => exact absurd hresult PesAccumulator.continuation_ne_needMoreData
  unfold take at h ⊢
  revert h hstep
  generalize (if unitStart then s.accumulator.unitStart payload
    else s.accumulator.continuation payload) = step
  intro h hstep
  dsimp only at h ⊢
  cases hresult : step.result with
  | ok progress =>
    rw [hresult] at h
    cases progress <;> cases h
  | error cause =>
    cases cause with
    | needMoreData requested held =>
      obtain ⟨hstage, hidle⟩ := hstep requested held hresult
      rw [hresult] at h
      dsimp only at h ⊢
      refine ⟨hstage, (Option.some.inj h).symm, ?_, Event.filterMap_frame?_ofNotices _⟩
      rw [hidle]
    | _ =>
      rw [hresult] at h
      cases h

/-- A packet that fails has been given up, together with the header that was waiting.  Its counter
is noted. -/
theorem leaves_packet {options : DemuxOptions} {p : Packet} {payload : Option Bytes}
    (hpayload : p.payload = .ok payload)
    (h : (s.packet options offset p payload).error = some e) :
    e = .pesIncomplete offset s.pid ∧
      (s.packet options offset p payload).state = { s with
        lastCounter := some p.counter
        accumulator := { s.accumulator with stage := .idle } } ∧
      (s.packet options offset p payload).events.filterMap Event.frame? = [] := by
  cases payload with
  | none =>
    -- Without payload nothing can fail.
    exfalso
    unfold packet at h
    split at h
    · split at h
      · cases h
      · cases h
      · dsimp only at h
        split at h <;> cases h
    · cases h
  | some payload =>
    have hcounted : p.control.hasPayload = true := by
      unfold Packet.payload at hpayload
      cases hcontrol : p.control <;> rw [hcontrol] at hpayload <;> first | rfl | cases hpayload
    unfold packet at h ⊢
    rw [if_pos hcounted] at h ⊢
    cases hcontinuity : s.continuity p with
    | unbroken =>
      rw [hcontinuity] at h
      exact (leaves_take h).2
    | duplicate =>
      rw [hcontinuity] at h
      cases h
    | gap last =>
      rw [hcontinuity] at h
      dsimp only at h ⊢
      by_cases hdiscard : options.discardOnDiscontinuity = true
      · -- The header has been given up already.
        rw [if_pos hdiscard] at h
        obtain ⟨⟨part, count, hstage⟩, -⟩ := leaves_take h
        cases hstage
      · rw [if_neg hdiscard] at h ⊢
        exact (leaves_take h).2

end PesStream

/-! ## Sections -/

/-- A payload fails with an error, after a receiver has got to a state. -/
inductive Feed.FailsAfter {σ : Type} (f : Feed)
    (receive : σ → SectionOutput → σ × Option SectionError) (start : σ) (e : SectionError) :
    σ → Prop
  /-- What came to light before is accepted, and what comes next is refused. -/
  | refused {before after : List SectionOutput} {output : SectionOutput} {reached : σ}
    (outputs : f.outputs = before ++ output :: after)
    (accepted : driveOutputs receive start before = (reached, none))
    (refused : (receive reached output).2 = some e) : f.FailsAfter receive start e reached
  /-- Everything is accepted, and the rest of the payload is malformed. -/
  | rest {reached : σ} (accepted : driveOutputs receive start f.outputs = (reached, none))
    (error : f.error = some e) : f.FailsAfter receive start e reached

section

variable {σ : Type} {receive : σ → SectionOutput → σ × Option SectionError} {start last : σ}
  {e : SectionError}

/-- Where a receiver refuses something, it has accepted what came to light before. -/
theorem exists_refused_of_driveOutputs {outputs : List SectionOutput}
    (h : driveOutputs receive start outputs = (last, some e)) :
    ∃ before output after reached, outputs = before ++ output :: after ∧
      driveOutputs receive start before = (reached, none) ∧
      receive reached output = (last, some e) := by
  induction outputs generalizing start with
  | nil => cases h
  | cons output outputs ih =>
    rw [driveOutputs] at h
    rcases hreceive : receive start output with ⟨state, _ | e'⟩
    · rw [hreceive] at h
      obtain ⟨before, refused, after, reached, rfl, haccepted, hrefused⟩ := ih h
      refine ⟨output :: before, refused, after, reached, rfl, ?_, hrefused⟩
      rw [driveOutputs, hreceive]
      exact haccepted
    · rw [hreceive] at h
      obtain ⟨rfl, he⟩ := Prod.mk.inj h
      obtain rfl := Option.some.inj he
      exact ⟨[], output, outputs, start, rfl, rfl, hreceive⟩

/-- A payload that fails does so after some state of the receiver, and what a refusal does not
change is the same in the end. -/
theorem Feed.exists_failsAfter {τ : Type} (part : σ → τ)
    (hpart : ∀ state output e, (receive state output).2 = some e →
      part (receive state output).1 = part state)
    {f : Feed} (h : (f.drive receive start).2.2 = some e) :
    ∃ reached, f.FailsAfter receive start e reached ∧
      part (f.drive receive start).1 = part reached := by
  unfold drive at h ⊢
  match hdriven : driveOutputs receive start f.outputs with
  | (last, some e') =>
    rw [hdriven] at h
    obtain rfl : e' = e := Option.some.inj h
    obtain ⟨before, output, after, reached, houtputs, haccepted, hrefused⟩ :=
      exists_refused_of_driveOutputs hdriven
    have herror : (receive reached output).2 = some e' := by rw [hrefused]
    refine ⟨reached, .refused houtputs haccepted herror, ?_⟩
    rw [← hpart reached output e' herror, hrefused]
  | (last, none) =>
    rw [hdriven] at h
    exact ⟨last, .rest hdriven h, rfl⟩

end

namespace SectionReceiver

variable {verifyCrc : Bool} {pid : Pid} {kind : TableKind} {e : SectionError}

/-- Content that cannot be read changes nothing. -/
theorem follow_of_refused {r : SectionReceiver} {s : TableSection}
    (h : (r.follow pid kind s).2 = some e) : (r.follow pid kind s).1 = r := by
  unfold follow at h ⊢
  cases kind with
  | pat =>
    cases hread : PatSection.ofBytes s.body with
    | error cause => rfl
    | ok pat =>
      rw [hread] at h
      cases h
  | pmt =>
    cases hread : PmtSection.ofBytes s.body with
    | error cause => rfl
    | ok pmt =>
      rw [hread] at h
      cases h

/-- A section that is refused announces nothing.  It may count as seen. -/
theorem directory_of_refused (r : SectionReceiver) (output : SectionOutput) (e : SectionError)
    (h : (r.receive verifyCrc pid kind output).2 = some e) :
    (r.receive verifyCrc pid kind output).1.directory = r.directory := by
  cases output with
  | notice n => cases h
  | whole bytes =>
    rw [receive] at h ⊢
    cases hread : TableSection.ofBytes bytes verifyCrc with
    | error cause => rfl
    | ok s =>
      rw [hread] at h
      dsimp only at h ⊢
      unfold table at h ⊢
      by_cases hforeign : s.header.tableId ≠ kind.tableId
      · rw [if_pos hforeign] at h
        cases h
      · rw [if_neg hforeign] at h ⊢
        by_cases hnext : s.table.currentNext = .next
        · rw [if_pos hnext] at h
          cases h
        · rw [if_neg hnext] at h ⊢
          dsimp only at h ⊢
          split
          · next hnew =>
            rw [if_pos hnew] at h
            rw [follow_of_refused h]
          · rfl

end SectionReceiver

/-! ## What is waiting -/

/-- The frames that a stream on the PID would leave now. -/
def Directory.waiting (d : Directory) (pid : Pid) : List Frame :=
  ((d.state? pid).map fun state => state.flush.2).getD []

/-- Nothing is waiting in a stream that has just been announced. -/
theorem PidState.flush_ofBinding (b : StreamBinding) : (ofBinding b).flush.2 = [] := by
  unfold ofBinding PesStream.ofBinding?
  cases b.codec <;> rfl

namespace Directory

variable {d : Directory}

/-- A section of the association table leaves what is waiting. -/
theorem waiting_applyPat (d : Directory) (pat : PatSection) (pid : Pid) :
    (d.applyPat pat).1.waiting pid = d.waiting pid := by
  rw [waiting, waiting, state?_applyPat]
  cases d.state? pid with
  | some state => rfl
  | none =>
    rw [Option.none_or]
    split <;> rfl

/-- So does one of the map table of a program. -/
theorem waiting_applyPmt (d : Directory) (pmtPid : Pid) (program : Nat) (pmt : PmtSection)
    (pid : Pid) : (d.applyPmt pmtPid program pmt).1.waiting pid = d.waiting pid := by
  rw [waiting, waiting, state?_applyPmt_added]
  cases d.state? pid with
  | some state => rfl
  | none =>
    rw [Option.none_or]
    cases (d.table.applyPmt pmtPid program pmt).added.find? fun b => b.pid = pid with
    | none => rfl
    | some b => exact PidState.flush_ofBinding b

/-- All data that is waiting in one directory is waiting in the other one, and no other data. -/
structure KeepsWaiting (d d' : Directory) : Prop where
  /-- The framers are the same. -/
  framers : ∀ {pid s}, d.state? pid = some (.pes s) →
    ∃ s' : PesStream, d'.state? pid = some (.pes s') ∧ s'.framer = s.framer
  /-- At the end of the stream the same frames are left on each PID. -/
  waiting : ∀ pid, d'.waiting pid = d.waiting pid

theorem KeepsWaiting.refl (d : Directory) : d.KeepsWaiting d :=
  ⟨fun {_ s} hs => ⟨s, hs, rfl⟩, fun _ => rfl⟩

/-- A PID may be given a state that has the same framer, or that carries sections as it did. -/
theorem KeepsWaiting.setState {d' : Directory} (h : d.KeepsWaiting d') {pid : Pid}
    {state : PidState}
    (hframer : ∀ {s}, d.state? pid = some (.pes s) →
      ∃ s' : PesStream, state = .pes s' ∧ s'.framer = s.framer)
    (hwaiting : state.flush.2 = d.waiting pid) : d.KeepsWaiting (d'.setState pid state) := by
  refine ⟨fun {pid' s} hs => ?_, fun pid' => ?_⟩
  · by_cases hpid : pid = pid'
    · subst hpid
      obtain ⟨s', rfl, hsame⟩ := hframer hs
      exact ⟨s', state?_setState_self d' pid _, hsame⟩
    · rw [state?_setState_of_ne d' hpid]
      exact h.framers hs
  · by_cases hpid : pid = pid'
    · subst hpid
      rw [Directory.waiting, state?_setState_self]
      exact hwaiting
    · rw [← h.waiting, Directory.waiting, state?_setState_of_ne d' hpid]
      rfl

/-- Sections that a receiver accepts leave all data that is waiting. -/
theorem keepsWaiting_driveOutputs (r : SectionReceiver) (verifyCrc : Bool) (pid : Pid)
    (kind : TableKind) (outputs : List SectionOutput) :
    r.directory.KeepsWaiting
      (driveOutputs (SectionReceiver.receive verifyCrc pid kind) r outputs).1.directory := by
  obtain ⟨hgrows, hwaiting⟩ := SectionReceiver.holds_driveOutputs
    (P := fun d => r.directory.Grows d ∧ ∀ pid, d.waiting pid = r.directory.waiting pid)
    (fun d pat h => ⟨h.1.trans (d.grows_applyPat pat),
      fun pid => (d.waiting_applyPat pat pid).trans (h.2 pid)⟩)
    (fun d pmtPid program pmt h => ⟨h.1.trans (d.grows_applyPmt pmtPid program pmt),
      fun pid => (d.waiting_applyPmt pmtPid program pmt pid).trans (h.2 pid)⟩)
    ⟨.refl r.directory, fun _ => rfl⟩ verifyCrc pid kind outputs
  exact ⟨fun {_ s} hs => ⟨s, hgrows.states hs, rfl⟩, hwaiting⟩

end Directory

namespace Demuxer

/-! ## Failures -/

/-- What a failure at a packet leaves of a demultiplexer, apart from where the next packet is
expected. -/
inductive Leaves (d : Demuxer) (p : Packet) : Failure → Demuxer → Prop
  /-- A malformed header changes nothing. -/
  | packet (e : PacketError) : d.Leaves p (.packet e) d
  /-- A PES packet that starts too early is given up, together with the header of the one before.
  The counter of the packet is noted, and the timestamps stay in force. -/
  | pesIncomplete {s : PesStream} (own : d.directory.state? p.pid = some (.pes s)) :
    d.Leaves p .pesIncomplete { d with
      directory := d.directory.setState p.pid (.pes { s with
        lastCounter := some p.counter
        accumulator := { s.accumulator with stage := .idle } }) }
  /-- A section that cannot be used ends the payload.  The sections before it in the same payload
  have been followed, and the stream of the PID goes on. -/
  | table {s next : PsiStream} {payload : Bytes} {e : SectionError} {reached : SectionReceiver}
    (own : d.directory.state? p.pid = some (.psi s)) (located : p.payload = .ok (some payload))
    (sections : (s.buffer.push p.unitStart payload).FailsAfter
      (SectionReceiver.receive d.options.verifyCrc p.pid s.kind)
      { directory := d.directory, versions := s.versions } e reached)
    (kind : next.kind = s.kind) :
    d.Leaves p (.table e)
      { d with directory := reached.directory.setState p.pid (.psi next) }

variable {d : Demuxer} {p : Packet} {offset : Nat}

/-- If a packet fails, no frame is completed by it, and the failure leaves what it may leave. -/
def LeavesOnError (d : Demuxer) (offset : Nat) (p : Packet) (o : Outcome Demuxer) : Prop :=
  ∀ e, o.error = some e → o.events.filterMap Event.frame? = [] ∧
    ∃ failure : Failure, e = failure.error offset p.pid ∧ d.Leaves p failure o.state

theorem leavesOnError_of_none {o : Outcome Demuxer} (h : o.error = none) :
    d.LeavesOnError offset p o := by
  intro e he
  cases h.symm.trans he

/-- A packet whose payload cannot be located has a malformed header. -/
theorem leaves_withPayload {use : Option Bytes → Outcome Demuxer}
    (h : ∀ payload, p.payload = .ok payload → d.LeavesOnError offset p (use payload)) :
    d.LeavesOnError offset p (d.withPayload offset p use) := by
  unfold withPayload
  split
  · exact leavesOnError_of_none rfl
  · cases hlocated : p.payload with
    | error cause =>
      intro e he
      obtain rfl := Option.some.inj he
      exact ⟨rfl, .packet cause, rfl, .packet cause⟩
    | ok payload => exact h payload hlocated

/-- A packet of a stream that is cut into frames starts a PES packet too early. -/
theorem leaves_pesPacket {s : PesStream} {payload : Option Bytes}
    (own : d.directory.state? p.pid = some (.pes s)) (hpid : s.pid = p.pid)
    (located : p.payload = .ok payload) :
    d.LeavesOnError offset p ((s.packet d.options offset p payload).map fun s =>
      { d with directory := d.directory.setState p.pid (.pes s) }) := by
  intro e he
  obtain ⟨rfl, hleft, hframes⟩ := PesStream.leaves_packet located he
  refine ⟨hframes, .pesIncomplete, congrArg (DemuxError.pesIncomplete offset) hpid, ?_⟩
  show d.Leaves p .pesIncomplete { d with
    directory := d.directory.setState p.pid (.pes (s.packet d.options offset p payload).state) }
  rw [hleft]
  exact .pesIncomplete own

/-- A packet that carries sections fails at one of them, or behind the last one. -/
theorem leaves_sectionPacket {s : PsiStream} {payload : Bytes}
    (own : d.directory.state? p.pid = some (.psi s)) (located : p.payload = .ok (some payload)) :
    d.LeavesOnError offset p (d.sectionPacket s offset p payload) := by
  intro e he
  obtain ⟨cause, hcause, rfl⟩ := Option.map_eq_some_iff.mp he
  obtain ⟨reached, hsections, hdirectory⟩ :=
    Feed.exists_failsAfter SectionReceiver.directory SectionReceiver.directory_of_refused hcause
  refine ⟨Event.filterMap_frame?_ofNotices _, .table cause, rfl, ?_⟩
  unfold sectionPacket
  dsimp only
  rw [hdirectory]
  exact .table own located hsections rfl

/-- **A packet that fails where it is routed.** -/
theorem leaves_route (hd : d.directory.Fits) :
    d.LeavesOnError offset p (d.route offset p) := by
  have hfits := hd.states p.pid
  unfold route
  match hstate : d.directory.state? p.pid with
  | none =>
    refine leavesOnError_of_none ?_
    unfold unannouncedPacket
    dsimp only
    split <;> rfl
  | some .unframed => exact leavesOnError_of_none rfl
  | some (.pes s) =>
    rw [hstate] at hfits
    obtain ⟨b, hb, hfor⟩ := hfits
    exact leaves_withPayload fun payload located =>
      leaves_pesPacket hstate (hfor.pid.trans (hd.table.pid_eq hb)) located
  | some (.psi s) =>
    refine leaves_withPayload fun payload located => ?_
    cases payload with
    | none => exact leavesOnError_of_none rfl
    | some payload => exact leaves_sectionPacket hstate located

/-- **Nothing is lost.**  Whatever the failure, all data that is waiting is still there. -/
theorem Leaves.keeps {failure : Failure} {left : Demuxer} (h : d.Leaves p failure left) :
    d.directory.KeepsWaiting left.directory := by
  cases h with
  | packet e => exact .refl d.directory
  | pesIncomplete own =>
    refine Directory.KeepsWaiting.setState (.refl d.directory) (fun {s} hs => ?_) ?_
    · rw [own] at hs
      cases hs
      exact ⟨_, rfl, rfl⟩
    · rw [Directory.waiting, own]
      rfl
  | @table s next payload e reached own located sections kind =>
    have hreached : d.directory.KeepsWaiting reached.directory := by
      have hkeeps := Directory.keepsWaiting_driveOutputs
        { directory := d.directory, versions := s.versions } d.options.verifyCrc p.pid s.kind
      cases sections with
      | @refused before _ _ _ outputs accepted refused =>
        have hbefore := hkeeps before
        rwa [accepted] at hbefore
      | rest accepted error =>
        have hall := hkeeps (s.buffer.push p.unitStart payload).outputs
        rwa [accepted] at hall
    refine hreached.setState (fun {s'} hs => ?_) ?_
    · rw [own] at hs
      cases hs
    · rw [Directory.waiting, own]
      rfl

/-- A demultiplexer in which the same data is waiting ends in the same way. -/
theorem framesOf_flush_of_keeps {left : Demuxer} (hd : d.directory.Fits)
    (hleft : left.directory.Fits) (hopen : d.flushed = false) (hstill : left.flushed = false)
    (h : d.directory.KeepsWaiting left.directory) (pid : Pid) :
    framesOf pid left.flush.events = framesOf pid d.flush.events := by
  rw [flush_of_open hopen, flush_of_open hstill, framesOf_leftover hd, framesOf_leftover hleft]
  exact h.waiting pid

/-- What has to come of a packet that fails, besides what it leaves. -/
structure Spares (d : Demuxer) (o : Outcome Demuxer) : Prop where
  /-- No frame is handed out. -/
  frames : ∀ f, Event.frame f ∉ o.events
  /-- All data that is waiting is still there, in the same framers. -/
  directory : d.directory.KeepsWaiting o.state.directory
  /-- The end of the stream brings what it would have brought. -/
  flush : ∀ pid, framesOf pid o.state.flush.events = framesOf pid d.flush.events

/-- A packet that fails before the end of the stream. -/
theorem spares_push (hd : d.directory.Fits) (hopen : d.flushed = false) {bytes : Bytes}
    (hread : Packet.ofBytes? bytes = some p) {e : DemuxError}
    (he : (d.push bytes).error = some e) :
    d.Spares (d.push bytes) ∧ ∃ failure left,
      e = Failure.error d.nextOffset p.pid failure ∧ d.Leaves p failure left ∧
        (d.push bytes).state = { left with nextOffset := d.nextOffset + Packet.size } := by
  have hafter : (d.push bytes).state.directory.Fits :=
    (fits_orderly_of_act hd (.packet [] d.nextOffset bytes)).1
  have hstill : (d.push bytes).state.flushed = false := flushed_packetAt hopen d.nextOffset bytes
  have hpush : d.push bytes = _ := packetAt_eq_routed hopen hread d.nextOffset
  have hleft : (d.push bytes).state = { (d.route d.nextOffset p).state with
      nextOffset := d.nextOffset + Packet.size } := congrArg Outcome.state hpush
  obtain ⟨hframes, failure, rfl, hleaves⟩ :=
    leaves_route hd e ((congrArg Outcome.error hpush).symm.trans he)
  have hnone : (d.push bytes).events.filterMap Event.frame? = [] := by
    rw [hpush]
    exact hframes
  have hkeeps : d.directory.KeepsWaiting (d.push bytes).state.directory := by
    rw [hleft]
    exact hleaves.keeps
  refine ⟨⟨fun f hf => ?_, hkeeps, ?_⟩, failure, _, rfl, hleaves, hleft⟩
  · rw [Event.frame_mem_iff, hnone] at hf
    cases hf
  · exact framesOf_flush_of_keeps hd hafter hopen hstill hkeeps

/-- **A packet that fails.**  It takes nothing from the streams, and hands out nothing.  Unless it
is no packet, which changes nothing at all, the next one is expected behind it, and the failure
leaves what it may leave. -/
theorem failed_packet (options : DemuxOptions) (ops : List Operation) (bytes : Bytes) :
    let d := ({ options } : Demuxer).afterAll ops
    let o := d.push bytes
    ∀ e, o.error = some e → d.Spares o ∧
      (e = .sync (.syncLost d.nextOffset bytes) ∧ o.state = d ∨
        ∃ p failure left, Packet.ofBytes? bytes = some p ∧
          e = failure.error d.nextOffset p.pid ∧ d.Leaves p failure left ∧
          o.state = { left with nextOffset := d.nextOffset + Packet.size }) := by
  intro d o e he
  cases hread : Packet.ofBytes? bytes with
  | none =>
    have ho : o = { state := d, error := some (.sync (.syncLost d.nextOffset bytes)) } := by
      show d.packetAt d.nextOffset bytes = _
      rw [packetAt, hread]
    rw [ho] at he ⊢
    obtain rfl := Option.some.inj he
    exact ⟨⟨fun f => List.not_mem_nil, .refl d.directory, fun pid => rfl⟩, .inl ⟨rfl, rfl⟩⟩
  | some p =>
    have hopen : d.flushed = false := by
      cases hflushed : d.flushed with
      | false => rfl
      | true =>
        have hbytes := Checked.reads_of_ofBytes? hread
        have hnone := error_push_of_flushed hflushed bytes
        rw [if_pos ⟨hbytes.length, hbytes.sync⟩] at hnone
        cases hnone.symm.trans he
    obtain ⟨hspares, failure, left, herror, hleaves, hleft⟩ :=
      spares_push (fits_afterAll options ops) hopen hread he
    exact ⟨hspares, .inr ⟨p, failure, left, rfl, herror, hleaves, hleft⟩⟩

/-- Behind the small multiplex a frame of audio and one of video are waiting, and the header of
another PES packet of audio has begun.  Failures at all four depths leave both frames to the end of
the stream: there is no packet, the adaptation field of a packet of video is too long, the next PES
packet of audio starts too early, or a section of the association table has no content. -/
theorem failed_packet_small :
    let audio := Multiplex.smallAudio
    let video := Multiplex.smallVideo
    let pes := Multiplex.smallAudioPes
    let begun := Multiplex.shortPacket true audio.pid 1 (pes.bytes.take 2) (by decide)
    let early := Multiplex.shortPacket true audio.pid 2 pes.bytes (by decide)
    let short := Multiplex.shortPacket true .pat 1 [0x00, 0x00, 0xb0, 0x00] (by decide)
    let long := [0x47, 0x01, 0x02, 0x34] ++ List.replicate 184 0xff
    let d := ({} : Demuxer).afterAll
      (Multiplex.small.packets.map (fun p => .push p.bytes) ++ [.push begun.bytes])
    let failures : List (Bytes × DemuxError) := [
      ([], .sync (.syncLost 1316 [])),
      (long, .packet 1316 video.pid (.adaptationFieldTooLong 255 183)),
      (early.bytes, .pesIncomplete 1316 audio.pid),
      (short.bytes, .table 1316 .pat (.notEnoughData .tableSection 12 3))]
    let waiting (pid : Pid) (d : Demuxer) := (framesOf pid d.flush.events).map fun f => f.payload
    waiting audio.pid d = [[0xaa, 0xbb]] ∧ waiting video.pid d = [[0, 0, 1, 0x65, 0x88]] ∧
      ∀ failure ∈ failures,
        let o := d.push failure.1
        o.error = some failure.2 ∧ d.Spares o ∧
          waiting audio.pid o.state = [[0xaa, 0xbb]] ∧
          waiting video.pid o.state = [[0, 0, 1, 0x65, 0x88]] := by
  intro audio video pes begun early short long d failures waiting
  obtain ⟨haudio, hvideo, herrors⟩ :
      waiting audio.pid d = [[0xaa, 0xbb]] ∧ waiting video.pid d = [[0, 0, 1, 0x65, 0x88]] ∧
        ∀ failure ∈ failures, (d.push failure.1).error = some failure.2 := by
    decide +kernel
  refine ⟨haudio, hvideo, fun failure hfailure => ?_⟩
  have herror := herrors failure hfailure
  obtain ⟨hspares, -⟩ := failed_packet {} _ failure.1 failure.2 herror
  have hsame (pid : Pid) : waiting pid (d.push failure.1).state = waiting pid d :=
    congrArg (List.map _) (hspares.flush pid)
  exact ⟨herror, hspares, (hsame _).trans haudio, (hsame _).trans hvideo⟩

end Demuxer

end TransportStream
