import TransportStream.Proofs.StreamPhase
import TransportStream.Proofs.TablePhase

/-!
# What a multiplex carries comes out

A new demultiplexer that reads a multiplex hands out the frames of its streams, on each PID in
order, and no others.  The tables are followed first, and leave a directory in which each listed
stream has a new state with its codec; from there every PID owes the frames of its PES packets.

* `Multiplex.delivers_frames`: after the tables, the invariant of the streams holds.
* `Multiplex.run_frames`: the round trip.
* `Multiplex.small`: a multiplex with an audio stream and a video stream.
-/

namespace TransportStream

/-- A stream that is not cut into frames has none. -/
theorem elementaryFrames_of_unframed {b : StreamBinding} (h : PesStream.ofBinding? b = none)
    (pid : Pid) (content : List (Bytes × Timing)) : elementaryFrames pid b.codec content = [] := by
  unfold PesStream.ofBinding? at h
  cases hcodec : b.codec with
  | unsupported => rfl
  | _ =>
    rw [hcodec] at h
    cases h

theorem MuxPacket.mem_on {p : OutgoingPacket} {packets : List MuxPacket}
    (h : planned p ∈ packets) : p ∈ on p.pid packets :=
  List.mem_filterMap.mpr ⟨_, h, if_pos rfl⟩

namespace Multiplex

open Directory

variable {m : Multiplex} {d : Directory}

/-- The frames that a PID has to give, as far as the directory knows. -/
def framesFor (m : Multiplex) (d : Directory) (pid : Pid) : List Frame :=
  (d.table.binding? pid).elim [] fun b =>
    elementaryFrames pid b.codec (OutgoingPes.contents {} (m.content pid))

/-- Packets of streams are not on PIDs that carry tables. -/
theorem IsValid.pid_ne_of_table (hm : m.IsValid) {pid : Pid} (h : pid = .pat ∨ m.IsMapPid pid) :
    ∀ p ∈ m.streamPackets, p.pid ≠ pid := by
  rintro p hp rfl
  have hbelong := hm.stream_belong p hp
  cases p with
  | foreign => exact hbelong (h.imp_right .inl)
  | planned p =>
    obtain ⟨⟨e, hlists, hpid⟩, -⟩ := hbelong
    obtain ⟨hpat, hmap⟩ := hm.stream_ne_table e hlists
    exact h.elim (fun heq => hpat (hpid.trans heq)) fun hmap' => hmap (hpid ▸ hmap')

/-- Packets on the PID of a listed stream can be used. -/
theorem IsValid.isUsable (hm : m.IsValid) {e : OutgoingStream} (h : m.Lists e) {p : MuxPacket}
    (hp : p ∈ m.streamPackets) (hpid : p.pid = e.pid) : p.IsUsable := by
  have hbelong := hm.stream_belong p hp
  cases p with
  | foreign => exact absurd (.inr (.inr ⟨e, h, hpid.symm⟩)) hbelong
  | planned p =>
    have hpid : p.pid = e.pid := hpid
    exact ⟨hbelong.2, hm.payload_ne_nil e h p (hpid ▸ MuxPacket.mem_on hp)⟩

/-- **After the tables.**  Each PID owes the frames of its PES packets. -/
theorem delivers_frames (hm : m.IsValid) (h : m.KnowsStreams d) :
    d.Delivers (m.framesFor d) m.streamPackets [] := by
  intro pid
  refine ⟨m.framesFor d pid, rfl, ?_⟩
  by_cases htable : pid = .pat ∨ m.IsMapPid pid
  · have hnone : d.table.binding? pid = none := by
      refine Option.eq_none_iff_forall_ne_some.mpr ?_
      intro b hb
      obtain ⟨-, e, hlists, rfl, -⟩ := h.streams pid b hb
      obtain ⟨hpat, hmap⟩ := hm.stream_ne_table e hlists
      exact htable.elim hpat hmap
    obtain ⟨s, hs⟩ := h.tables pid htable
    rw [hs, framesFor, hnone]
    exact ⟨rfl, hm.pid_ne_of_table htable⟩
  · obtain ⟨hpat, hmap⟩ := not_or.mp htable
    rw [h.states pid hpat hmap, framesFor]
    cases hb : d.table.binding? pid with
    | none => exact rfl
    | some b =>
      obtain ⟨hpid, e, hlists, rfl, -⟩ := h.streams pid b hb
      show PidState.Owes e.pid m.streamPackets _ (some (.ofBinding b))
      unfold PidState.ofBinding
      cases hs : PesStream.ofBinding? b with
      | none => exact elementaryFrames_of_unframed hs _ _
      | some s =>
        have hyields := PesStream.yields_elementaryFrames {} hs (hm.stream_cut e hlists)
          (hm.stream_counts e hlists)
        rw [hpid] at hyields
        exact ⟨hyields, fun f hf => pid_of_mem_elementaryFrames hf,
          fun p hp hpid => hm.isUsable hlists hp hpid⟩

/-- **The round trip.**  A new demultiplexer that reads a multiplex, from a source that may give its
bytes in portions and be interrupted, succeeds.  The frames on the PID of each listed stream are
those of its PES packets, in order, and there are no frames on other PIDs. -/
theorem run_frames (m : Multiplex) (hm : m.IsValid) (steps : List ReadStep)
    (hsteps : ∀ step ∈ steps, step.IsCalm) :
    let o := Demuxer.run {} { data := m.bytes, steps }
    let framesOn := fun pid => (o.events.filterMap Event.frame?).filter fun f => f.pid = pid
    o.error = none ∧ (∀ e, m.Lists e → framesOn e.pid = m.frames e) ∧
      ∀ pid, (∀ e, m.Lists e → e.pid ≠ pid) → framesOn pid = [] := by
  obtain ⟨d₁, s, hpat, hprograms, hstate⟩ := run_patPackets hm
  obtain ⟨d₂, hmap, hstreams, hknown⟩ := run_mapPackets hm hprograms hstate
  obtain ⟨last, frames, hstream, hframes⟩ := run_of_delivers (delivers_frames hm hstreams)
  obtain ⟨herror, hevents⟩ := Demuxer.run_of_run (hpat.append (hmap.append hstream)) hsteps
  dsimp only
  refine ⟨herror, ?_, ?_⟩
  · intro e he
    obtain ⟨b, hb⟩ := Option.isSome_iff_exists.mp (hknown e he)
    obtain ⟨-, e', he', hpid, hcodec⟩ := hstreams.streams e.pid b hb
    rw [bytes, packets, hevents, List.nil_append, List.nil_append, hframes e.pid, framesFor, hb,
      Option.elim_some, Multiplex.frames, ← hcodec, hm.codec_eq e' e he' he hpid]
  · intro pid hpid
    rw [bytes, packets, hevents, List.nil_append, List.nil_append, hframes pid, framesFor]
    cases hb : d₂.table.binding? pid with
    | none => rfl
    | some b =>
      obtain ⟨-, e, he, heq, -⟩ := hstreams.streams pid b hb
      exact absurd heq (hpid e he)

/-! ## A small multiplex -/

/-- The PID of the map table. -/
def smallMapPid : Pid :=
  ⟨0x100, by decide⟩

/-- An association table with one program. -/
def smallPat : PatPart where
  outgoing := {
    tableId := 0x00
    table := ⟨1, 0, .current, 0, 0⟩
    body := [0x00, 0x01, 0xe1, 0x00]
    tableExtension_lt := by decide
    version_lt := by decide
    length_body_le := by decide }
  content := [{ number := 1, pid := smallMapPid, number_lt := by decide }]
  tableId_eq := rfl
  current := rfl
  body_eq := by decide
  length_le := by decide

/-- An audio stream. -/
def smallAudio : OutgoingStream where
  streamType := .adts
  pid := ⟨0x101, by decide⟩
  info := []
  length_info_lt := by decide

/-- A video stream. -/
def smallVideo : OutgoingStream where
  streamType := .h264
  pid := ⟨0x102, by decide⟩
  info := []
  length_info_lt := by decide

/-- The map table of the program, which lists both streams. -/
def smallMap : MapPart where
  outgoing := {
    tableId := 0x02
    table := ⟨1, 0, .current, 0, 0⟩
    body := [0xe1, 0x01, 0xf0, 0x00, 0x0f, 0xe1, 0x01, 0xf0, 0x00, 0x1b, 0xe1, 0x02, 0xf0, 0x00]
    tableExtension_lt := by decide
    version_lt := by decide
    length_body_le := by decide }
  content := {
    pcrPid := smallAudio.pid
    streams := [smallAudio, smallVideo]
    length_programInfo_lt := by decide }
  tableId_eq := rfl
  current := rfl
  body_eq := by decide
  length_le := by decide

/-- A PES packet with a timestamp. -/
def smallAudioPes : OutgoingPes where
  streamId := 0xc0
  bounded := true
  fields := some {
    timing := { pts := some ⟨90000, by decide⟩ }
    pts_isSome := by decide
    length_lt := by decide }
  payload := [0xaa, 0xbb]
  fields_isSome := rfl
  length_lt := by decide

/-- A PES packet without one, which does not give its length. -/
def smallVideoPes : OutgoingPes where
  streamId := 0xe0
  bounded := false
  fields := some { pts_isSome := by decide, length_lt := by decide }
  payload := [0, 0, 1, 0x09, 0xf0, 0, 0, 1, 0x65, 0x88]
  fields_isSome := rfl
  length_lt := by decide

/-- The PES packet of audio is cut within its start code, and the one of video stands in between. -/
def small : Multiplex where
  patParts := [smallPat]
  mapParts _ := [smallMap]
  content pid :=
    if pid = smallAudio.pid then [smallAudioPes]
    else if pid = smallVideo.pid then [smallVideoPes]
    else []
  patPackets := [.planned (shortPacket true .pat 0 (0 :: smallPat.bytes) (by decide))]
  mapPackets := [.planned (shortPacket true smallMapPid 0 (0 :: smallMap.bytes) (by decide))]
  streamPackets := [
    .planned (shortPacket true smallAudio.pid 15 (smallAudioPes.bytes.take 2) (by decide)),
    .planned (shortPacket true smallVideo.pid 3 smallVideoPes.bytes (by decide)),
    .foreign 0x1f 0xff 0x10 (List.replicate 184 0xff) rfl,
    .planned (shortPacket false smallAudio.pid 0 (smallAudioPes.bytes.drop 2) (by decide))]

theorem isMapPid_small (pid : Pid) : small.IsMapPid pid ↔ pid = smallMapPid := by
  simp [IsMapPid, small, smallPat, eq_comm]

theorem lists_small (e : OutgoingStream) : small.Lists e ↔ e = smallAudio ∨ e = smallVideo := by
  have hstreams : smallMap.content.streams = [smallAudio, smallVideo] := rfl
  constructor
  · rintro ⟨pid, -, part, hpart, he⟩
    obtain rfl : part = smallMap := List.mem_singleton.mp hpart
    simpa [hstreams] using he
  · intro he
    refine ⟨smallMapPid, (isMapPid_small _).mpr rfl, smallMap, List.mem_cons_self, ?_⟩
    simpa [hstreams] using he

theorem isValid_small : small.IsValid := by
  have hmap := (isMapPid_small _).mpr rfl
  have haudio := (lists_small _).mpr (.inl rfl)
  have hvideo := (lists_small _).mpr (.inr rfl)
  have hforeign : ¬ small.Announces (.ofBytes 0x1f 0xff) := by
    rintro (hpid | hpid | ⟨e, he, hpid⟩)
    · cases hpid
    · cases (isMapPid_small _).mp hpid
    · rcases (lists_small e).mp he with rfl | rfl <;> cases hpid
  constructor
  · rw [isMapPid_small]
    decide
  · intro e he
    rw [isMapPid_small]
    rcases (lists_small e).mp he with rfl | rfl <;> decide
  · intro e e' he he' hpid
    rcases (lists_small e).mp he with rfl | rfl <;> rcases (lists_small e').mp he' with rfl | rfl
    · rfl
    · cases hpid
    · cases hpid
    · rfl
  · exact List.pairwise_singleton _ _
  · exact fun pid _ => List.pairwise_singleton _ _
  · intro p hp
    obtain rfl := List.mem_singleton.mp hp
    exact ⟨rfl, rfl⟩
  · intro p hp
    obtain rfl := List.mem_singleton.mp hp
    exact ⟨hmap, rfl⟩
  · simp only [Belong, small, List.forall_mem_cons, List.not_mem_nil, false_implies, implies_true,
      and_true]
    exact ⟨⟨⟨_, haudio, rfl⟩, rfl⟩, ⟨⟨_, hvideo, rfl⟩, rfl⟩, hforeign, ⟨_, haudio, rfl⟩, rfl⟩
  · exact TablePart.areCarried_singleton smallPat rfl rfl
  · intro pid hpid
    obtain rfl := (isMapPid_small pid).mp hpid
    exact TablePart.areCarried_singleton smallMap rfl rfl
  · intro e he
    rcases (lists_small e).mp he with rfl | rfl
    · exact ⟨_, [_], [], rfl, rfl, by decide, by decide, rfl⟩
    · exact ⟨_, [], [], rfl, rfl, by decide, by decide, rfl⟩
  · intro e he
    rcases (lists_small e).mp he with rfl | rfl <;> decide
  · intro e he
    rcases (lists_small e).mp he with rfl | rfl
    · exact ⟨by simp, by rintro c ⟨⟩; rfl, trivial⟩
    · exact ⟨by simp, trivial⟩

/-- The small multiplex, from a source whose first calls give five bytes and are interrupted. -/
theorem run_frames_small :
    small.IsValid ∧ (∀ step ∈ [.atMost 5, .interrupted], ReadStep.IsCalm step) ∧
      let o := Demuxer.run {} { data := small.bytes, steps := [.atMost 5, .interrupted] }
      let framesOn := fun pid => (o.events.filterMap Event.frame?).filter fun f => f.pid = pid
      o.error = none ∧
        framesOn smallAudio.pid = [{
          pid := smallAudio.pid
          codec := .aac
          payload := [0xaa, 0xbb]
          timing := { pts := some ⟨90000, by decide⟩, dts := some ⟨90000, by decide⟩ } }] ∧
        framesOn smallVideo.pid = [{
          pid := smallVideo.pid
          codec := .h264
          payload := [0, 0, 1, 0x65, 0x88]
          timing := {} }] ∧
        framesOn .stuffing = [] := by
  have hsteps : ∀ step ∈ [.atMost 5, .interrupted], ReadStep.IsCalm step := by
    simp [ReadStep.IsCalm]
  obtain ⟨herror, hframes, hothers⟩ := run_frames small isValid_small _ hsteps
  refine ⟨isValid_small, hsteps, herror, ?_, ?_, hothers .stuffing ?_⟩
  · refine (hframes smallAudio ((lists_small _).mpr (.inl rfl))).trans ?_
    show elementaryFrames _ .aac (OutgoingPes.contents {} [smallAudioPes]) = _
    rfl
  · refine (hframes smallVideo ((lists_small _).mpr (.inr rfl))).trans ?_
    show elementaryFrames _ .h264 (OutgoingPes.contents {} [smallVideoPes]) = _
    decide +kernel
  · intro e he
    rcases (lists_small e).mp he with rfl | rfl <;> decide

end Multiplex

end TransportStream
