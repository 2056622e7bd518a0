import TransportStream.Proofs.DirectoryAgreement
import TransportStream.Proofs.VideoSplitting
import TransportStream.Proofs.Checked.Packet

/-!
# The end of the stream

When the end of the stream is declared, the data that is waiting in the streams becomes their last
frames.  Each stream leaves one frame or none, so that the order of the PIDs is the order of the
frames.  What has been announced stays announced, and a PES packet in progress is not touched.

The end is declared by `Demuxer.flush`, and by a run over a byte source that ends without an error.
It is final.  Packets can still arrive, and are taken for what they are, but nothing comes of them.

* `Framer.leftover?`: the frame that a stream leaves.
* `Demuxer.Completes`: what has to come of the end of a stream.
* `Demuxer.completes_flush`: it comes of it if the directory fits.
* `Demuxer.Silent`, `Demuxer.silent_of_act`: after the end there are notices, and nothing else.
* `Demuxer.flushed_afterAll`: the operations that declare the end.
* `Demuxer.ends_once_and_for_all`: the end of the stream, at any moment and after any operations.
-/

namespace TransportStream

/-! ## What is left in a stream -/

/-- The frame in a list of at most one. -/
theorem Frame.unlessEmpty_eq (pid : Pid) (codec : Codec) (payload : Bytes) (timing : Timing) :
    unlessEmpty pid codec payload timing =
      (if payload = [] then none else some { pid, codec, payload, timing }).toList := by
  cases payload with
  | nil => rfl
  | cons b payload => rfl

namespace Framer

/-- The frame that a stream leaves: all data that is waiting, with the timestamps that are pending.
Delimiters at its start do not count for video.  Without data there is no frame. -/
def leftover? : Framer → Option Frame
  | video s =>
    let unit := s.format.stripLeadingAuds s.buffer.payload
    if unit = [] then none
    else some { pid := s.pid, codec := s.codec, payload := unit, timing := s.buffer.pending }
  | audio s =>
    if s.buffer.payload = [] then none
    else some {
      pid := s.pid, codec := s.codec, payload := s.buffer.payload, timing := s.buffer.pending }

/-- For video it is the frame in all data that is waiting. -/
theorem frameOf_eq_leftover? (s : VideoSplitter) :
    s.frameOf s.buffer.payload s.pending = (video s).leftover?.toList :=
  Frame.unlessEmpty_eq _ _ _ _

theorem leftover?_video_of_isEmpty {s : VideoSplitter} (h : s.buffer.isEmpty = true) :
    (video s).leftover? = none := by
  have hframe := frameOf_eq_leftover? s
  rw [(s.buffer.isEmpty_iff_payload_eq_nil).mp h, s.frameOf_nil] at hframe
  exact Option.toList_eq_nil_iff.mp hframe.symm

/-- The frame that is left is what a framer gives at the end. -/
theorem flush_eq (f : Framer) : f.flush.2 = f.leftover?.toList := by
  cases f with
  | audio s => exact Frame.unlessEmpty_eq _ _ _ _
  | video s =>
    show s.flush.2 = _
    rw [VideoSplitter.flush]
    split
    · next hempty =>
      rw [leftover?_video_of_isEmpty hempty]
      rfl
    · exact frameOf_eq_leftover? s

/-- After the end nothing is left. -/
theorem leftover?_flush (f : Framer) : f.flush.1.leftover? = none := by
  cases f with
  | audio s => rfl
  | video s =>
    refine leftover?_video_of_isEmpty (s := s.flush.1) ?_
    rw [VideoSplitter.flush]
    split
    · next hempty => exact hempty
    · rfl

end Framer

/-- The frame that is left on a PID. -/
def PidState.leftover? : PidState → Option Frame
  | pes s => s.framer.leftover?
  | _ => none

theorem PidState.flush_eq (state : PidState) : state.flush.2 = state.leftover?.toList := by
  cases state with
  | pes s => exact s.framer.flush_eq
  | psi s => rfl
  | unframed => rfl

/-- A frame that is left on a PID is from the stream on that PID. -/
theorem Directory.Fits.pid_eq_of_leftover {d : Directory} (h : d.Fits) {pid : Pid}
    {state : PidState} (hstate : d.state? pid = some state) {f : Frame}
    (hf : state.leftover? = some f) : f.pid = pid := by
  have hfits := h.states pid
  rw [hstate] at hfits
  cases state with
  | psi s => cases hf
  | unframed => cases hf
  | pes s =>
    obtain ⟨b, hb, hfor⟩ := hfits
    have hmem : f ∈ s.flush.2 := by
      show f ∈ s.framer.flush.2
      rw [s.framer.flush_eq]
      exact Option.mem_toList.mpr hf
    exact (hfor.flush.2 f hmem).1.trans (h.table.pid_eq hb)

namespace Demuxer

/-! ## What comes of the end -/

/-- What has to come of the end of a stream. -/
structure Completes (d : Demuxer) (o : Outcome Demuxer) : Prop where
  /-- Nothing but frames is shown.  They are those that the streams leave, and each frame has a
  higher PID than the one before it. -/
  frames : ∃ frames, o.events = Event.ofFrames frames ∧
    (frames.Pairwise fun f f' => f.pid.value < f'.pid.value) ∧
    ∀ f, f ∈ frames ↔
      ∃ s, d.directory.state? f.pid = some (.pes s) ∧ s.framer.leftover? = some f
  /-- The frame that a stream leaves is on its PID. -/
  pid_eq : ∀ {pid s f}, d.directory.state? pid = some (.pes s) → s.framer.leftover? = some f →
    f.pid = pid
  /-- It does not fail. -/
  error : o.error = none
  /-- What has been announced is the same. -/
  table : o.state.table = d.table
  /-- The streams are the same, up to the data that was waiting. -/
  streams : ∀ {pid s}, d.directory.state? pid = some (.pes s) → ∃ framer : Framer,
    framer.leftover? = none ∧ o.state.directory.state? pid = some (.pes { s with framer })
  /-- The states of the other PIDs are the same. -/
  others : ∀ {pid}, (∀ s, d.directory.state? pid ≠ some (.pes s)) →
    o.state.directory.state? pid = d.directory.state? pid
  /-- Everything else is the same. -/
  rest : o.state = { d with flushed := true, directory := o.state.directory }

variable {d : Demuxer}

/-- **The end.**  Every stream leaves what was waiting in it. -/
theorem completes_flush (hd : d.directory.Fits) (hopen : d.flushed = false) :
    d.Completes d.flush := by
  have hleft : (fun state : PidState => state.flush.2) = fun state => state.leftover?.toList :=
    funext PidState.flush_eq
  rw [flush_of_open hopen, hleft]
  refine ⟨⟨_, rfl, ?_, fun f => ?_⟩, ?_, rfl, rfl, ?_, ?_, rfl⟩
  · exact d.directory.states.pairwise_flatMap_values PidState.leftover? (fun f : Frame => f.pid)
      fun pid state hstate f hf => hd.pid_eq_of_leftover hstate hf
  · rw [List.mem_flatMap]
    constructor
    · rintro ⟨state, hstate, hf⟩
      obtain ⟨pid, hpid⟩ := SortedMap.exists_get?_of_mem_values hstate
      have hleftover := Option.mem_toList.mp hf
      obtain rfl := hd.pid_eq_of_leftover hpid hleftover
      cases state with
      | psi s => cases hleftover
      | unframed => cases hleftover
      | pes s => exact ⟨s, hpid, hleftover⟩
    · rintro ⟨s, hs, hf⟩
      exact ⟨.pes s, SortedMap.mem_values_of_get? hs, Option.mem_toList.mpr hf⟩
  · intro pid s f hs hf
    exact hd.pid_eq_of_leftover hs hf
  · intro pid s hs
    refine ⟨s.framer.flush.1, s.framer.leftover?_flush, ?_⟩
    show d.directory.flushed.state? pid = _
    rw [Directory.state?_flushed, hs]
    rfl
  · intro pid hother
    show d.directory.flushed.state? pid = _
    rw [Directory.state?_flushed]
    match hstate : d.directory.state? pid with
    | some (.pes s) => exact absurd hstate (hother s)
    | some (.psi s) => rfl
    | some .unframed => rfl
    | none => rfl

/-! ## After the end -/

/-- What comes of anything after the end: notices are shown, and nothing that was announced
changes. -/
structure Silent (d : Demuxer) (o : Outcome Demuxer) : Prop where
  /-- Nothing but notices is shown. -/
  events : ∀ event ∈ o.events, ∃ n, event = Event.notice n
  /-- What has been announced is the same, and so are the states. -/
  directory : o.state.directory = d.directory
  /-- The end is still declared. -/
  flushed : o.state.flushed = true

theorem exists_notice_of_mem_ofNotices {notices : List Notice} {event : Event}
    (h : event ∈ Event.ofNotices notices) : ∃ n, event = Event.notice n := by
  obtain ⟨n, -, rfl⟩ := List.mem_map.mp h
  exact ⟨n, rfl⟩

theorem silent_latePacket (h : d.flushed = true) : d.Silent d.latePacket := by
  unfold latePacket
  split
  · exact ⟨fun event hevent => absurd hevent List.not_mem_nil, rfl, h⟩
  · exact ⟨fun event hevent => ⟨_, List.mem_singleton.mp hevent⟩, rfl, h⟩

theorem Silent.after_notices {o : Outcome Demuxer} (h : d.Silent o) (notices : List Notice) :
    d.Silent (o.after (Event.ofNotices notices)) := by
  refine ⟨fun event hevent => ?_, h.directory, h.flushed⟩
  rcases List.mem_append.mp hevent with hnotice | hevent
  · exact exists_notice_of_mem_ofNotices hnotice
  · exact h.events event hevent

/-- **Every act after the end is silent.** -/
theorem silent_of_act {o : Outcome Demuxer} (h : d.flushed = true) (hact : d.Act o) :
    d.Silent o := by
  have hstill : d.Silent { state := d } :=
    ⟨fun event hevent => absurd hevent List.not_mem_nil, rfl, h⟩
  cases hact with
  | failure e => exact ⟨hstill.events, rfl, h⟩
  | late notices => exact (silent_latePacket h).after_notices notices
  | flush =>
    rw [flush, if_pos h]
    exact hstill
  | packet notices offset bytes =>
    refine Silent.after_notices ?_ notices
    unfold packetAt
    split
    · exact ⟨hstill.events, rfl, h⟩
    · dsimp only
      rw [if_pos h]
      have hlate := silent_latePacket (d := { d with nextOffset := offset + Packet.size }) h
      exact ⟨hlate.events, hlate.directory, hlate.flushed⟩

/-- So is every operation. -/
theorem silent_apply (h : d.flushed = true) (op : Operation) : d.Silent (d.apply op) := by
  let Kept := fun x : Demuxer => x.flushed = true ∧ x.directory = d.directory
  have hkept : ∀ x o, Kept x → x.Act o → Kept o.state := by
    intro x o hx hact
    have hsilent := silent_of_act hx.1 hact
    exact ⟨hsilent.flushed, hsilent.directory.trans hx.2⟩
  obtain ⟨hflushed, hdirectory⟩ := holds_apply (P := Kept) hkept ⟨h, rfl⟩ op
  refine ⟨fun event hevent => ?_, hdirectory, hflushed⟩
  rw [(d.apply_eq_joined op).events] at hevent
  obtain ⟨m, hm, hevent⟩ := List.mem_flatMap.mp hevent
  obtain ⟨hact, hbefore⟩ := holds_at_moments (P := Kept) hkept ⟨h, rfl⟩ hm
  exact (silent_of_act hbefore.1 hact).events event hevent

/-- **So are all operations after the end.** -/
theorem silent_afterAll (h : d.flushed = true) (later : List Operation) :
    d.Silent { state := d.afterAll later, events := d.shown later } := by
  induction later generalizing d with
  | nil => exact ⟨fun event hevent => absurd hevent List.not_mem_nil, rfl, h⟩
  | cons op later ih =>
    have hfirst := silent_apply h op
    have hothers := ih hfirst.flushed
    refine ⟨fun event hevent => ?_, hothers.directory.trans hfirst.directory, hothers.flushed⟩
    rcases List.mem_append.mp hevent with hevent | hevent
    · exact hfirst.events event hevent
    · exact hothers.events event hevent

/-- A packet that comes after the end is taken, and what is not a packet is an error. -/
theorem error_push_of_flushed (h : d.flushed = true) (bytes : Bytes) :
    (d.push bytes).error =
      if bytes.length = Packet.size ∧ bytes[0]? = some Packet.syncByte then none
      else some (.sync (.syncLost d.nextOffset bytes)) := by
  unfold push packetAt
  cases hp : Packet.ofBytes? bytes with
  | none =>
    rw [if_neg]
    rintro ⟨hlength, hsync⟩
    obtain ⟨p, hread⟩ := Checked.exists_ofBytes? hlength hsync
    cases hp.symm.trans hread
  | some p =>
    have hread := Checked.reads_of_ofBytes? hp
    rw [if_pos ⟨hread.length, hread.sync⟩]
    dsimp only
    rw [if_pos h]
    unfold latePacket
    split <;> rfl

/-! ## Which operations declare the end -/

/-- The operation declares the end: it is asked for, or a byte source ends without an error. -/
inductive Ends (d : Demuxer) : Operation → Prop
  /-- It is asked for. -/
  | flush : Ends d .flush
  /-- A byte source ends without an error. -/
  | run {source : ByteSource} (clean : (d.run source).error = none) : Ends d (.run source)

/-- One of the operations declares the end. -/
def HasEnded (d : Demuxer) : List Operation → Prop
  | [] => False
  | op :: ops => d.Ends op ∨ (d.apply op).state.HasEnded ops

/-- Packets that are found in a byte source do not declare the end, and neither does a source that
fails. -/
theorem flushed_forEach (hopen : d.flushed = false) (found : List PacketReader.Found)
    (ending : Option SyncError) :
    let o := Outcome.forEach d found foundPacket (endRun ending)
    o.state.flushed = true ↔ o.error = none := by
  induction found generalizing d with
  | nil =>
    rw [Outcome.forEach_nil]
    cases ending with
    | none =>
      rw [endRun, flush_of_open hopen]
      exact iff_of_true rfl rfl
    | some e =>
      refine iff_of_false ?_ (Option.some_ne_none _)
      show ¬ d.flushed = true
      rw [hopen]
      exact Bool.false_ne_true
  | cons f found ih =>
    have hstill : (d.foundPacket f).state.flushed = false :=
      flushed_packetAt hopen f.offset f.bytes
    rw [Outcome.forEach_cons]
    cases herror : (d.foundPacket f).error with
    | none =>
      rw [Outcome.andThen_of_error_eq_none herror]
      exact ih hstill
    | some e =>
      rw [Outcome.andThen, herror]
      dsimp only
      rw [hstill, herror]
      exact iff_of_false Bool.false_ne_true (Option.some_ne_none e)

theorem flushed_apply (d : Demuxer) (op : Operation) :
    (d.apply op).state.flushed = true ↔ d.flushed = true ∨ d.Ends op := by
  cases hflushed : d.flushed with
  | true => exact iff_of_true (silent_apply hflushed op).flushed (.inl rfl)
  | false =>
    rw [or_iff_right Bool.false_ne_true]
    cases op with
    | flush =>
      refine iff_of_true ?_ .flush
      show d.flush.state.flushed = true
      rw [flush_of_open hflushed]
    | push bytes =>
      refine iff_of_false ?_ fun hends => nomatch hends
      show ¬ (d.push bytes).state.flushed = true
      rw [push, flushed_packetAt hflushed]
      exact Bool.false_ne_true
    | run source =>
      have hiff : (d.run source).state.flushed = true ↔ (d.run source).error = none := by
        unfold run
        rw [hflushed]
        exact flushed_forEach hflushed _ _
      exact hiff.trans ⟨.run, fun | .run clean => clean⟩

/-- The end is declared after operations of which one declares it. -/
theorem flushed_afterAll (d : Demuxer) (ops : List Operation) :
    (d.afterAll ops).flushed = true ↔ d.flushed = true ∨ d.HasEnded ops := by
  induction ops generalizing d with
  | nil => exact (or_iff_left id).symm
  | cons op ops ih =>
    show ((d.apply op).state.afterAll ops).flushed = true ↔ _
    rw [ih, flushed_apply, or_assoc]
    rfl

/-- **The end of the stream is complete, and final.**  Wherever a demultiplexer is, between
operations or at one of the moments they are made of, and the end has not been declared: if it is
declared now, what is waiting in each stream is handed out, in the order of the PIDs, and nothing
else changes.  Once an operation has declared it, nothing but notices is ever shown again, what has
been announced stays as it is, and a packet is accepted if it is one. -/
theorem ends_once_and_for_all (options : DemuxOptions) (ops : List Operation) :
    let new : Demuxer := { options }
    let d := new.afterAll ops
    (d.flushed = true ↔ new.HasEnded ops) ∧
    (∀ op, ∀ m ∈ d.moments op, m.before.flushed = false → m.before.Completes m.before.flush) ∧
    (new.HasEnded ops → ∀ later,
      (∀ event ∈ d.shown later, ∃ n, event = Event.notice n) ∧
      (d.afterAll later).table = d.table ∧
      ∀ bytes, ((d.afterAll later).push bytes).error =
        if bytes.length = Packet.size ∧ bytes[0]? = some Packet.syncByte then none
        else some (.sync (.syncLost (d.afterAll later).nextOffset bytes))) := by
  intro new d
  have hended : d.flushed = true ↔ new.HasEnded ops :=
    (flushed_afterAll new ops).trans (or_iff_right Bool.false_ne_true)
  refine ⟨hended, fun op m hm hopen => ?_, fun hend later => ?_⟩
  · obtain ⟨-, hfits⟩ := holds_at_moments (P := fun d => d.directory.Fits)
      (fun _ _ hd h => (fits_orderly_of_act hd h).1) (fits_afterAll options ops) hm
    exact completes_flush hfits hopen
  · have hsilent := silent_afterAll (hended.mpr hend) later
    exact ⟨hsilent.events, congrArg Directory.table hsilent.directory,
      error_push_of_flushed hsilent.flushed⟩

end Demuxer

end TransportStream
