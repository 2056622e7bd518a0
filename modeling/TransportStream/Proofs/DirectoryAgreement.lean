import TransportStream.Proofs.Operations
import TransportStream.Proofs.Routing

/-!
# The states agree with the table

Sections can announce any PID, in any order, as often as they like: the one they are received on,
the PID of the association table, PIDs that are used for something else.  Whatever they say, and
whatever errors occur, the state of each PID is the one that the program table asks for.

* `Directory.Fits`: the invariant, with one statement for each kind of state.
* `Directory.Fits.applyPat`, `Fits.applyPmt`, `Fits.setState`, `Fits.flush`: what keeps it.
* `Demuxer.fits_act`: so every act of a demultiplexer keeps it.
* `Directory.Agrees`: what it comes to, as equivalences.
* `Demuxer.directory_agrees`: the states agree with the table after any operations, and at every
  moment of the next one.
-/

namespace TransportStream

/-! ## Frames of a binding -/

/-- The frame says that it is from the stream of the binding. -/
def Frame.IsOf (f : Frame) (b : StreamBinding) : Prop :=
  f.pid = b.pid ∧ f.codec = b.codec

theorem Frame.isOf_of_mem_unlessEmpty {f : Frame} {b : StreamBinding} {pid : Pid} {codec : Codec}
    {payload : Bytes} {timing : Timing} (hpid : pid = b.pid) (hcodec : codec = b.codec)
    (h : f ∈ Frame.unlessEmpty pid codec payload timing) : f.IsOf b := by
  unfold Frame.unlessEmpty at h
  split at h
  · cases h
  · obtain rfl := List.mem_singleton.mp h
    exact ⟨hpid, hcodec⟩

/-- The framer is the one for the binding: it is for the right kind of stream, expects the units of
its codec, and knows its PID and its codec. -/
def Framer.IsFor (f : Framer) (b : StreamBinding) : Prop :=
  match f with
  | .video v =>
    b.role = .video ∧ v.pid = b.pid ∧ v.codec = b.codec ∧
      (v.format = .h264 ↔ b.codec = .h264) ∧ (v.format = .h265 ↔ b.codec = .h265)
  | .audio a => b.role = .audio ∧ a.pid = b.pid ∧ a.codec = b.codec

variable {b : StreamBinding}

theorem VideoSplitter.isOf_of_mem_over {s : VideoSplitter} (hpid : s.pid = b.pid)
    (hcodec : s.codec = b.codec) (timing : Timing) (w : Walk) (bytes : Bytes)
    (hw : ∀ f ∈ w.frames, f.IsOf b) : ∀ f ∈ (w.over s timing bytes).1.frames, f.IsOf b := by
  match bytes with
  | [] => exact hw
  | [_] => exact hw
  | [_, _] => exact hw
  | a :: b :: c :: rest =>
    rw [Walk.over]
    split
    · cases s.format.unit? rest with
      | none => exact hw
      | some u =>
        refine isOf_of_mem_over hpid hcodec timing (w.passCode s timing u) rest fun f hf => ?_
        unfold Walk.passCode at hf
        dsimp only at hf
        split at hf
        · unfold Walk.cut at hf
          dsimp only at hf
          rcases List.mem_append.mp hf with hf | hf
          · exact Frame.isOf_of_mem_unlessEmpty hpid hcodec (List.mem_reverse.mp hf)
          · exact hw f hf
        · exact hw f hf
    · exact isOf_of_mem_over hpid hcodec timing (w.pass a) (b :: c :: rest) hw
termination_by bytes.length

namespace Framer

/-- A framer goes on being the one for its binding, and its frames are from there. -/
theorem IsFor.push {f : Framer} (h : f.IsFor b) (data : Bytes) (unitStart : Bool)
    (timing : Timing) :
    (f.push data unitStart timing).1.IsFor b ∧
      ∀ frame ∈ (f.push data unitStart timing).2, frame.IsOf b := by
  cases f with
  | video v =>
    have hpid : v.pid = b.pid := h.2.1
    have hcodec : v.codec = b.codec := h.2.2.1
    refine ⟨h, fun frame hframe => ?_⟩
    refine VideoSplitter.isOf_of_mem_over hpid hcodec timing _ (v.ahead ++ data) ?_ frame
      (List.mem_reverse.mp hframe)
    intro f hf
    cases hf
  | audio a =>
    have hpid : a.pid = b.pid := h.2.1
    have hcodec : a.codec = b.codec := h.2.2
    rw [Framer.push, AudioSegmenter.push]
    by_cases hcloses : a.closes unitStart timing = true
    · rw [if_pos hcloses]
      exact ⟨h, fun frame hframe => Frame.isOf_of_mem_unlessEmpty hpid hcodec hframe⟩
    · rw [if_neg hcloses]
      exact ⟨h, fun frame hframe => by cases hframe⟩

theorem IsFor.flush {f : Framer} (h : f.IsFor b) :
    f.flush.1.IsFor b ∧ ∀ frame ∈ f.flush.2, frame.IsOf b := by
  cases f with
  | video v =>
    have hpid : v.pid = b.pid := h.2.1
    have hcodec : v.codec = b.codec := h.2.2.1
    rw [Framer.flush, VideoSplitter.flush]
    split
    · exact ⟨h, fun frame hframe => by cases hframe⟩
    · exact ⟨h, fun frame hframe => Frame.isOf_of_mem_unlessEmpty hpid hcodec hframe⟩
  | audio a =>
    have hpid : a.pid = b.pid := h.2.1
    have hcodec : a.codec = b.codec := h.2.2
    exact ⟨h, fun frame hframe => Frame.isOf_of_mem_unlessEmpty hpid hcodec hframe⟩

/-- Only audio and video are cut into frames. -/
theorem IsFor.role {f : Framer} (h : f.IsFor b) : b.role = .video ∨ b.role = .audio := by
  cases f with
  | video v => exact .inl h.1
  | audio a => exact .inr h.1

end Framer

namespace PesStream

/-- The stream is the one for the binding. -/
structure IsFor (s : PesStream) (b : StreamBinding) : Prop where
  /-- It is on the PID. -/
  pid : s.pid = b.pid
  /-- It is cut into frames by the right framer. -/
  framer : s.framer.IsFor b

theorem isFor_of_ofBinding? {s : PesStream} (h : ofBinding? b = some s) : s.IsFor b := by
  unfold ofBinding? at h
  split at h <;> cases h <;> constructor <;>
    simp_all [Framer.IsFor, StreamBinding.role, Codec.role]

theorem role_of_ofBinding?_eq_none (h : ofBinding? b = none) : b.role = .other := by
  unfold ofBinding? at h
  rw [StreamBinding.role]
  split at h
  · cases h
  · cases h
  · cases h
  · cases h
  · next hcodec => rw [hcodec, Codec.role]

/-- A stream that has taken data goes on being the one for its binding, and the frames are from
there. -/
theorem IsFor.of_feeds {s : PesStream} {o : Outcome PesStream} (h : s.IsFor b)
    (hfeeds : s.Feeds o) :
    o.state.IsFor b ∧ ∀ f ∈ o.events.filterMap Event.frame?, f.IsOf b := by
  obtain ⟨hpid, -, ⟨hframer, hframes⟩ | ⟨data, unitStart, timing, hpush⟩⟩ := hfeeds
  · refine ⟨⟨hpid.trans h.pid, hframer ▸ h.framer⟩, fun f hf => ?_⟩
    rw [hframes] at hf
    cases hf
  · obtain ⟨hnext, hframes⟩ := h.framer.push data unitStart timing
    rw [hpush] at hnext hframes
    exact ⟨⟨hpid.trans h.pid, hnext⟩, hframes⟩

theorem IsFor.flush {s : PesStream} (h : s.IsFor b) :
    s.flush.1.IsFor b ∧ ∀ f ∈ s.flush.2, f.IsOf b :=
  ⟨⟨h.pid, h.framer.flush.1⟩, h.framer.flush.2⟩

end PesStream

/-! ## The invariant -/

/-- The state is the one that the table asks for. -/
def PidState.Fits (t : ProgramTable) (pid : Pid) : Option PidState → Prop
  | some (.psi s) => (pid = .pat ∧ s.kind = .pat) ∨ (t.isPmtPid pid = true ∧ s.kind = .pmt)
  | some (.pes s) => ∃ b, t.binding? pid = some b ∧ s.IsFor b
  | some .unframed => ∃ b, t.binding? pid = some b ∧ b.role = .other
  | none => pid ≠ .pat ∧ t.isPmtPid pid = false ∧ t.binding? pid = none

/-- A state goes on being the right one when more is announced. -/
theorem PidState.Fits.of_extends {t t' : ProgramTable} (h : t.Extends t') {pid : Pid}
    {state : PidState} (hs : Fits t pid (some state)) : Fits t' pid (some state) := by
  cases state with
  | psi s => exact hs.imp_right fun ⟨hpmt, hkind⟩ => ⟨h.isPmtPid hpmt, hkind⟩
  | pes s =>
    obtain ⟨b, hb, hfor⟩ := hs
    exact ⟨b, h.streams hb, hfor⟩
  | unframed =>
    obtain ⟨b, hb, hrole⟩ := hs
    exact ⟨b, h.streams hb, hrole⟩

/-- A new stream has the right state. -/
theorem PidState.fits_ofBinding {t : ProgramTable} {pid : Pid} (h : t.binding? pid = some b) :
    Fits t pid (some (.ofBinding b)) := by
  unfold ofBinding
  split
  · next s hs => exact ⟨b, h, PesStream.isFor_of_ofBinding? hs⟩
  · next hnone => exact ⟨b, h, PesStream.role_of_ofBinding?_eq_none hnone⟩

namespace Directory

/-- Every PID has one use, and the state for it. -/
structure Fits (d : Directory) : Prop where
  /-- Every PID has one use. -/
  table : d.table.IsSound
  /-- Every PID has the state for its use. -/
  states : ∀ pid, PidState.Fits d.table pid (d.state? pid)

variable {d : Directory}

/-- At first there is the PID of the association table, and nothing else. -/
theorem state?_new (pid : Pid) :
    ({} : Directory).state? pid = if Pid.pat = pid then some (.psi { kind := .pat }) else none :=
  SortedMap.get?_insert SortedMap.empty Pid.pat pid (PidState.psi { kind := .pat })

theorem fits_new : ({} : Directory).Fits := by
  refine ⟨ProgramTable.isSound_empty, fun pid => ?_⟩
  rw [state?_new]
  split
  · next heq => exact .inl ⟨heq.symm, rfl⟩
  · next hne => exact ⟨Ne.symm hne, rfl, rfl⟩

theorem Fits.applyPat (h : d.Fits) (pat : PatSection) : (d.applyPat pat).1.Fits := by
  have hextends := d.table.extends_applyPat pat
  refine ⟨h.table.applyPat pat, fun pid => ?_⟩
  have hold := h.states pid
  rw [state?_applyPat]
  cases hstate : d.state? pid with
  | some state =>
    rw [hstate] at hold
    exact hold.of_extends hextends
  | none =>
    rw [hstate] at hold
    obtain ⟨hpat, -, hbinding⟩ := hold
    rw [Option.none_or]
    split
    · next hpmt => exact .inr ⟨hpmt, rfl⟩
    · next hpmt =>
      refine ⟨hpat, Bool.eq_false_iff.mpr hpmt, ?_⟩
      rw [ProgramTable.binding?, show (d.applyPat pat).1.table.streams = d.table.streams from
        ProgramTable.streams_applyPat pat]
      exact hbinding

theorem Fits.applyPmt (h : d.Fits) (pmtPid : Pid) (program : Nat) (pmt : PmtSection) :
    (d.applyPmt pmtPid program pmt).1.Fits := by
  refine ⟨h.table.applyPmt pmtPid program pmt, fun pid => ?_⟩
  have hold := h.states pid
  rw [state?_applyPmt_added]
  cases hstate : d.state? pid with
  | some state =>
    rw [hstate] at hold
    exact hold.of_extends (ProgramTable.extends_applyPmt pmtPid program pmt d.table)
  | none =>
    rw [hstate] at hold
    obtain ⟨hpat, hpmt, hnone⟩ := hold
    -- The PID had no binding before, so it is bound to what is added on it, if anything is.
    have hbinding := ProgramTable.binding?_applyPmt pmtPid program pmt d.table pid
    rw [hnone, Option.none_or] at hbinding
    rw [Option.none_or]
    cases hadded : (d.table.applyPmt pmtPid program pmt).added.find? fun b => b.pid = pid with
    | some b => exact PidState.fits_ofBinding (hbinding.trans hadded)
    | none =>
      have hstill := ProgramTable.isPmtPid_applyPmt pmtPid program pmt d.table pid
      exact ⟨hpat, hstill.trans hpmt, hbinding.trans hadded⟩

theorem Fits.setState (h : d.Fits) {pid : Pid} {state : PidState}
    (hstate : PidState.Fits d.table pid (some state)) : (d.setState pid state).Fits := by
  refine ⟨h.table, fun pid' => ?_⟩
  by_cases hpid : pid = pid'
  · subst hpid
    rw [state?_setState_self]
    exact hstate
  · rw [state?_setState_of_ne d hpid]
    exact h.states pid'

/-- The directory after the end of the stream. -/
def flushed (d : Directory) : Directory :=
  { d with states := d.states.map fun state => state.flush.1 }

theorem state?_flushed (d : Directory) (pid : Pid) :
    d.flushed.state? pid = (d.state? pid).map fun state => state.flush.1 :=
  SortedMap.get?_map d.states _ pid

theorem Fits.flush (h : d.Fits) : d.flushed.Fits := by
  refine ⟨h.table, fun pid => ?_⟩
  have hold := h.states pid
  rw [state?_flushed]
  generalize d.state? pid = state at hold
  match state with
  | some (.pes s) =>
    obtain ⟨b, hb, hfor⟩ := hold
    exact ⟨b, hb, hfor.flush.1⟩
  | some (.psi s) => exact hold
  | some .unframed => exact hold
  | none => exact hold

/-- What is left at the end of the stream is from streams that are announced. -/
theorem Fits.leftover (h : d.Fits) {f : Frame}
    (hf : f ∈ d.states.values.flatMap fun state => state.flush.2) :
    ∃ pid b, d.table.binding? pid = some b ∧ f.IsOf b ∧ (b.role = .video ∨ b.role = .audio) := by
  obtain ⟨state, hstate, hf⟩ := List.mem_flatMap.mp hf
  obtain ⟨pid, hpid⟩ := SortedMap.exists_get?_of_mem_values hstate
  have hfits := h.states pid
  rw [show d.state? pid = some state from hpid] at hfits
  cases state with
  | psi s => cases hf
  | unframed => cases hf
  | pes s =>
    obtain ⟨b, hb, hfor⟩ := hfits
    exact ⟨pid, b, hb, hfor.flush.2 f hf, hfor.framer.role⟩

end Directory

/-! ## Acts -/

namespace Demuxer

/-- The first declaration of the end gives what is left in all streams. -/
theorem flush_of_open {d : Demuxer} (hopen : d.flushed = false) :
    d.flush = {
      state := { d with flushed := true, directory := d.directory.flushed }
      events :=
        Event.ofFrames (d.directory.states.values.flatMap fun state => state.flush.2) } := by
  have hstill : ¬ d.flushed = true := by
    rw [hopen]
    exact Bool.false_ne_true
  exact if_neg hstill

/-- The frame is from a stream in the table that is cut into frames. -/
def Announces (t : ProgramTable) (f : Frame) : Prop :=
  ∃ b, t.binding? f.pid = some b ∧ f.codec = b.codec ∧ (b.role = .video ∨ b.role = .audio)

theorem announces_of_isOf {t : ProgramTable} (ht : t.IsSound) {pid : Pid} {f : Frame}
    (hb : t.binding? pid = some b) (hf : f.IsOf b) (hrole : b.role = .video ∨ b.role = .audio) :
    Announces t f := by
  refine ⟨b, ?_, hf.2, hrole⟩
  rw [hf.1, ht.pid_eq hb]
  exact hb

/-- What a moment may do.  The states that are there stay as they are, apart from that of the PID
of a packet that is taken, which goes on being of its kind; and where frames are completed the table
announces them and does not change. -/
structure IsOrderly (d : Demuxer) (o : Outcome Demuxer) : Prop where
  /-- A packet leaves the states of the other PIDs alone. -/
  others : ∀ {p}, Event.packet p ∈ o.events → ∀ {pid state}, pid ≠ p.pid →
    d.directory.state? pid = some state → o.state.directory.state? pid = some state
  /-- A packet on a PID that carries tables leaves it a PID that carries the same ones. -/
  own : ∀ {p}, Event.packet p ∈ o.events → ∀ {s}, d.directory.state? p.pid = some (.psi s) →
    ∃ s' : PsiStream, s'.kind = s.kind ∧ o.state.directory.state? p.pid = some (.psi s')
  /-- Frames are announced. -/
  frames : ∀ {f}, Event.frame f ∈ o.events → Announces d.table f ∧ o.state.table = d.table

variable {d : Demuxer}

/-- Nothing out of order happens where the directory stays the same and nothing but packets and
notices is shown. -/
theorem orderly_of_still {o : Outcome Demuxer} (hdirectory : o.state.directory = d.directory)
    (hframes : ∀ {f}, Event.frame f ∉ o.events) : d.IsOrderly o where
  others _ _ _ _ h := hdirectory ▸ h
  own _ s h := ⟨s, rfl, hdirectory ▸ h⟩
  frames hf := absurd hf hframes

/-- A packet that is routed, as it is shown. -/
theorem fits_orderly_of_routed {offset : Nat} {p : Packet} {o : Outcome Demuxer}
    (hd : d.directory.Fits) (h : Routed d offset p o) (notices : List Notice) :
    o.state.directory.Fits ∧
      d.IsOrderly ((o.after [Event.packet p]).after (Event.ofNotices notices)) := by
  have hpackets : ∀ {q}, .packet q ∈ Event.ofNotices notices ++ ([.packet p] ++ o.events) →
      q = p := by
    intro q hq
    rcases List.mem_append.mp hq with hq | hq
    · exact absurd hq (Event.packet_notMem_ofNotices q notices)
    · rcases List.mem_cons.mp hq with heq | hq
      · cases heq
        rfl
      · exact absurd hq (h.packets q)
  have hframes : ∀ {f}, .frame f ∈ Event.ofNotices notices ++ ([.packet p] ++ o.events) →
      f ∈ o.events.filterMap Event.frame? := by
    intro f hf
    rw [Event.frame_mem_iff, List.filterMap_append, Event.filterMap_frame?_ofNotices] at hf
    exact hf
  cases h with
  | nowhere noted state events =>
    have directory : o.state.directory = d.directory := by rw [state]
    refine ⟨directory ▸ hd, orderly_of_still directory fun hf => ?_⟩
    have hmem := hframes hf
    rw [events, Event.filterMap_frame?_ofNotices] at hmem
    cases hmem
  | @pes s payload state =>
    have hfits := hd.states p.pid
    rw [state] at hfits
    obtain ⟨b, hb, hfor⟩ := hfits
    obtain ⟨hnext, hfrom⟩ := hfor.of_feeds (s.feeds_packet d.options offset p payload)
    refine ⟨hd.setState ⟨b, hb, hnext⟩, ?_, ?_, ?_⟩
    · intro q hq pid old hpid hold
      obtain rfl := hpackets hq
      exact (Directory.state?_setState_of_ne _ (Ne.symm hpid) _).trans hold
    · intro q hq s' hs'
      obtain rfl := hpackets hq
      rw [state] at hs'
      cases hs'
    · intro f hf
      exact ⟨announces_of_isOf hd.table hb (hfrom f (hframes hf)) hfor.framer.role, rfl⟩
  | @psi s payload state =>
    have hfits := hd.states p.pid
    rw [state] at hfits
    obtain ⟨grown, next, hgrown, hgrows, hkind, hdirectory, hnone⟩ :=
      sectionPacket_cases (P := Directory.Fits) (fun _ pat h => Directory.Fits.applyPat h pat)
        (fun _ pmtPid program pmt h => Directory.Fits.applyPmt h pmtPid program pmt) hd s offset p
        payload
    have hown : PidState.Fits grown.table p.pid (some (.psi next)) := by
      have hextended := PidState.Fits.of_extends hgrows.table hfits
      rw [PidState.Fits, hkind]
      exact hextended
    refine ⟨hdirectory ▸ hgrown.setState hown, ?_, ?_, ?_⟩
    · intro q hq pid old hpid hold
      obtain rfl := hpackets hq
      refine (congrArg (·.state? pid) hdirectory).trans ?_
      exact (Directory.state?_setState_of_ne _ (Ne.symm hpid) _).trans (hgrows.states hold)
    · intro q hq s' hs'
      obtain rfl := hpackets hq
      obtain rfl : s = s' := by
        rw [state] at hs'
        cases hs'
        rfl
      refine ⟨next, hkind, (congrArg (·.state? q.pid) hdirectory).trans ?_⟩
      exact Directory.state?_setState_self grown q.pid (.psi next)
    · intro f hf
      have hmem := hframes hf
      rw [hnone] at hmem
      cases hmem

/-- The notice about a packet after the end of the stream is the only thing it leads to. -/
theorem fits_orderly_latePacket {d' : Demuxer} (hd : d.directory.Fits)
    (hsame : d'.directory = d.directory) (notices : List Notice) :
    (d'.latePacket.after (Event.ofNotices notices)).state.directory.Fits ∧
      d.IsOrderly (d'.latePacket.after (Event.ofNotices notices)) := by
  have hstate : d'.latePacket.state.directory = d.directory :=
    d'.directory_latePacket.trans hsame
  have hframes : ∀ {f}, Event.frame f ∉ Event.ofNotices notices ++ d'.latePacket.events := by
    intro f hf
    rw [Event.frame_mem_iff, List.filterMap_append, Event.filterMap_frame?_ofNotices] at hf
    unfold latePacket at hf
    split at hf <;> cases hf
  exact ⟨hstate ▸ hd, orderly_of_still hstate hframes⟩

/-- Every act leaves a directory that fits, and is orderly. -/
theorem fits_orderly_of_act {o : Outcome Demuxer} (hd : d.directory.Fits) (h : d.Act o) :
    o.state.directory.Fits ∧ d.IsOrderly o := by
  cases h with
  | failure e => exact ⟨hd, orderly_of_still rfl fun hf => by cases hf⟩
  | late notices => exact fits_orderly_latePacket hd rfl notices
  | flush =>
    unfold flush
    split
    · exact ⟨hd, orderly_of_still rfl fun hf => by cases hf⟩
    · refine ⟨hd.flush, ?_, ?_, ?_⟩
      · intro p hp
        exact absurd hp (Event.packet_notMem_ofFrames p _)
      · intro p hp
        exact absurd hp (Event.packet_notMem_ofFrames p _)
      · intro f hf
        have hmem := Event.frame_mem_iff.mp hf
        rw [Event.filterMap_frame?_ofFrames] at hmem
        obtain ⟨pid, b, hb, hof, hrole⟩ := hd.leftover hmem
        exact ⟨announces_of_isOf hd.table hb hof hrole, rfl⟩
  | packet notices offset bytes =>
    unfold packetAt
    split
    · refine ⟨hd, orderly_of_still rfl fun {f} hf => ?_⟩
      have hnil : f ∈ (Event.ofNotices notices ++ []).filterMap Event.frame? :=
        Event.frame_mem_iff.mp hf
      rw [List.append_nil, Event.filterMap_frame?_ofNotices] at hnil
      cases hnil
    · next p hp =>
      dsimp only
      split
      · refine fits_orderly_latePacket hd ?_ notices
        rfl
      · obtain ⟨hfits, horderly⟩ := fits_orderly_of_routed
          (d := { d with nextOffset := offset + Packet.size }) hd (routed_route _ offset p) notices
        exact ⟨hfits, horderly.others, horderly.own, horderly.frames⟩

end Demuxer

/-! ## What it comes to -/

/-- The states are those that the table asks for. -/
structure Directory.Agrees (d : Directory) : Prop where
  /-- The PID of the association table carries it. -/
  pat : ∃ s : PsiStream, d.state? .pat = some (.psi s) ∧ s.kind = .pat
  /-- The PIDs of map tables carry map tables, and no others do. -/
  psi_iff : ∀ {pid}, pid ≠ .pat →
    ((∃ s : PsiStream, d.state? pid = some (.psi s) ∧ s.kind = .pmt) ↔
      d.table.isPmtPid pid = true)
  /-- Audio and video streams, and no others, are cut into frames. -/
  pes_iff : ∀ {pid}, pid ≠ .pat →
    ((∃ s, d.state? pid = some (.pes s)) ↔
      ∃ b, d.table.binding? pid = some b ∧ (b.role = .video ∨ b.role = .audio))
  /-- They are cut by the framer for the stream that is announced. -/
  isFor : ∀ {pid s b}, d.state? pid = some (.pes s) → d.table.binding? pid = some b →
    b.pid = pid ∧ s.IsFor b
  /-- Streams of other codecs are known, and not cut into frames. -/
  unframed_iff : ∀ {pid}, pid ≠ .pat →
    (d.state? pid = some .unframed ↔ ∃ b, d.table.binding? pid = some b ∧ b.role = .other)
  /-- PIDs without announcement, and no others, have no state. -/
  none_iff : ∀ {pid}, pid ≠ .pat →
    (d.state? pid = none ↔ d.table.isPmtPid pid = false ∧ d.table.binding? pid = none)

namespace Directory

variable {d : Directory}

/-- The state of the PID of the association table. -/
theorem Fits.state?_pat (h : d.Fits) :
    ∃ s : PsiStream, d.state? .pat = some (.psi s) ∧ s.kind = .pat := by
  have hstate := h.states .pat
  match hs : d.state? .pat with
  | some (.psi s) =>
    rw [hs] at hstate
    rcases hstate with ⟨-, hkind⟩ | ⟨hpmt, -⟩
    · exact ⟨s, rfl, hkind⟩
    · rw [h.table.isPmtPid_pat] at hpmt
      cases hpmt
  | some (.pes s) =>
    rw [hs] at hstate
    obtain ⟨b, hb, -⟩ := hstate
    exact absurd rfl (h.table.apart hb).2
  | some .unframed =>
    rw [hs] at hstate
    obtain ⟨b, hb, -⟩ := hstate
    exact absurd rfl (h.table.apart hb).2
  | none =>
    rw [hs] at hstate
    exact absurd rfl hstate.1

/-- The four uses of the other PIDs, which exclude each other. -/
theorem Fits.uses (h : d.Fits) {pid : Pid} (hpid : pid ≠ .pat) :
    ((∃ s : PsiStream, d.state? pid = some (.psi s) ∧ s.kind = .pmt) ↔
      d.table.isPmtPid pid = true) ∧
    ((∃ s, d.state? pid = some (.pes s)) ↔
      ∃ b, d.table.binding? pid = some b ∧ (b.role = .video ∨ b.role = .audio)) ∧
    (d.state? pid = some .unframed ↔ ∃ b, d.table.binding? pid = some b ∧ b.role = .other) ∧
    (d.state? pid = none ↔ d.table.isPmtPid pid = false ∧ d.table.binding? pid = none) := by
  have hstate := h.states pid
  match hs : d.state? pid with
  | some (.psi s) =>
    rw [hs] at hstate
    obtain ⟨hpmt, hkind⟩ := hstate.resolve_left fun hpat => hpid hpat.1
    have hnone : d.table.binding? pid = none := by
      cases hb : d.table.binding? pid with
      | none => rfl
      | some b =>
        rw [(h.table.apart hb).1] at hpmt
        cases hpmt
    simp [hpmt, hkind, hnone]
  | some (.pes s) =>
    rw [hs] at hstate
    obtain ⟨b, hb, hfor⟩ := hstate
    have hpmt := (h.table.apart hb).1
    rcases hfor.framer.role with hrole | hrole <;> simp [hb, hpmt, hrole]
  | some .unframed =>
    rw [hs] at hstate
    obtain ⟨b, hb, hrole⟩ := hstate
    have hpmt := (h.table.apart hb).1
    simp [hb, hpmt, hrole]
  | none =>
    rw [hs] at hstate
    obtain ⟨-, hpmt, hnone⟩ := hstate
    simp [hpmt, hnone]

/-- A directory that fits agrees with its table. -/
theorem Fits.agrees (h : d.Fits) : d.Agrees where
  pat := h.state?_pat
  psi_iff hpid := (h.uses hpid).1
  pes_iff hpid := (h.uses hpid).2.1
  isFor {pid s b} hs hb := by
    have hstate := h.states pid
    rw [hs] at hstate
    obtain ⟨b', hb', hfor⟩ := hstate
    obtain rfl := Option.some.inj (hb.symm.trans hb')
    exact ⟨h.table.pid_eq hb, hfor⟩
  unframed_iff hpid := (h.uses hpid).2.2.1
  none_iff hpid := (h.uses hpid).2.2.2

end Directory

namespace Demuxer

/-- The directory fits after any operations. -/
theorem fits_afterAll (options : DemuxOptions) (ops : List Operation) :
    (({ options } : Demuxer).afterAll ops).directory.Fits :=
  holds_afterAll (P := fun d => d.directory.Fits) (fun _ _ hd h => (fits_orderly_of_act hd h).1)
    (d := { options }) Directory.fits_new ops

/-- **The states always agree with the table.**  They do so after any operations on a new
demultiplexer, whether or not there were errors, and before and after each of the moments that make
up the next operation; and those moments are orderly. -/
theorem directory_agrees (options : DemuxOptions) (ops : List Operation) :
    let d := ({ options } : Demuxer).afterAll ops
    d.directory.Agrees ∧ ∀ op, Joined d (d.moments op) (d.apply op) ∧ ∀ m ∈ d.moments op,
      m.before.directory.Agrees ∧ m.outcome.state.directory.Agrees ∧
        m.before.IsOrderly m.outcome := by
  have hfits := fits_afterAll options ops
  refine ⟨hfits.agrees, fun op => ⟨apply_eq_joined _ op, fun m hm => ?_⟩⟩
  obtain ⟨hact, hbefore⟩ := holds_at_moments (P := fun d => d.directory.Fits)
    (fun _ _ hd h => (fits_orderly_of_act hd h).1) hfits hm
  obtain ⟨hafter, horderly⟩ := fits_orderly_of_act hbefore hact
  exact ⟨hbefore.agrees, hafter.agrees, horderly⟩

end Demuxer

end TransportStream
