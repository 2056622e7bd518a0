import TransportStream.Proofs.StreamDelivery

/-!
# Groups of audio data

Audio arrives in pieces, and which of them make up a frame can be said without a segmenter: the list
of pieces is cut into groups.  A piece does not belong to the group before it if that group has
data, and the piece starts a PES packet or has another presentation timestamp than the group.

## Empty pieces

Pieces can be empty, because a header can fill its packet, and nothing is left of a bounded PES
packet that has all its bytes.  An empty piece closes a group like any other.  But it has no
timestamps to give: those of a group are the ones of its first piece with data, and a group without
data goes on until there is some.

* `AudioGroup.groupsFrom`, `AudioGroup.groups`: the groups.
* `AudioSegmenter.Holds.pushPiece`: one piece.
* `AudioSegmenter.push_push`: pieces of one delivery are as good as the whole.
* `AudioSegmenter.pushAll_groups`: the frames are the groups that have data.
-/

namespace TransportStream

/-- Pieces of audio that belong together. -/
abbrev AudioGroup := List PesPiece

namespace AudioGroup

/-- The data of the pieces. -/
def data (group : AudioGroup) : Bytes :=
  group.flatMap fun piece => piece.data

/-- The first piece that has data. -/
def leader? (group : AudioGroup) : Option PesPiece :=
  group.find? fun piece => !piece.data.isEmpty

/-- The timestamps of the first piece that has data. -/
def timing (group : AudioGroup) : Timing :=
  (group.leader?.map fun leader => leader.timing).getD {}

/-- True if the group has data and the piece behind it does not belong to it. -/
def isClosedBy (group : AudioGroup) (piece : PesPiece) : Bool :=
  group.leader?.any fun leader => piece.unitStart || piece.timing.pts != leader.timing.pts

/-- The groups of the pieces that follow a group in progress. -/
def groupsFrom (group : AudioGroup) : List PesPiece → List AudioGroup
  | [] => [group]
  | piece :: pieces =>
    if group.isClosedBy piece then group :: groupsFrom [piece] pieces
    else groupsFrom (group ++ [piece]) pieces

/-- The groups of pieces. -/
def groups (pieces : List PesPiece) : List AudioGroup :=
  groupsFrom [] pieces

/-- The group in progress after one more piece. -/
def next (group : AudioGroup) (piece : PesPiece) : AudioGroup :=
  if group.isClosedBy piece then [piece] else group ++ [piece]

/-- The group in progress after pieces. -/
def inProgress (pieces : List PesPiece) : AudioGroup :=
  pieces.foldl next []

theorem data_append (group : AudioGroup) (pieces : List PesPiece) :
    data (group ++ pieces) = group.data ++ data pieces :=
  List.flatMap_append

theorem data_singleton (piece : PesPiece) : data [piece] = piece.data :=
  List.flatMap_singleton _ _

theorem data_flatten (groups : List AudioGroup) : data groups.flatten = groups.flatMap data := by
  induction groups with
  | nil => rfl
  | cons group groups ih => rw [List.flatten_cons, data_append, ih, List.flatMap_cons]

theorem leader?_eq_none_iff {group : AudioGroup} : group.leader? = none ↔ group.data = [] := by
  rw [leader?, List.find?_eq_none, data, List.flatMap_eq_nil_iff]
  refine forall₂_congr fun piece _ => ?_
  simp

/-- What a group with data is, and nothing behind it changes. -/
theorem leader?_append {group : AudioGroup} (h : group.data ≠ []) (pieces : List PesPiece) :
    leader? (group ++ pieces) = group.leader? := by
  obtain ⟨leader, hleader⟩ : ∃ leader, group.leader? = some leader :=
    Option.ne_none_iff_exists'.mp fun hnone => h (leader?_eq_none_iff.mp hnone)
  rw [leader?, List.find?_append]
  show group.leader?.or _ = _
  rw [hleader]
  rfl

theorem timing_append {group : AudioGroup} (h : group.data ≠ []) (pieces : List PesPiece) :
    timing (group ++ pieces) = group.timing := by
  rw [timing, leader?_append h, timing]

/-- The first piece with data gives its timestamps to the group. -/
theorem timing_append_singleton {group : AudioGroup} (h : group.data = []) {piece : PesPiece}
    (hpiece : piece.data ≠ []) : timing (group ++ [piece]) = piece.timing := by
  have hleader : leader? (group ++ [piece]) = some piece := by
    rw [leader?, List.find?_append]
    show group.leader?.or _ = _
    rw [leader?_eq_none_iff.mpr h, Option.none_or]
    exact List.find?_cons_of_pos (by simpa using hpiece)
  rw [timing, hleader]
  rfl

/-- The groups are the pieces, in order. -/
theorem flatten_groupsFrom (group : AudioGroup) (pieces : List PesPiece) :
    (groupsFrom group pieces).flatten = group ++ pieces := by
  induction pieces generalizing group with
  | nil => rw [groupsFrom, List.flatten_singleton, List.append_nil]
  | cons piece pieces ih =>
    rw [groupsFrom]
    split
    · rw [List.flatten_cons, ih, List.singleton_append]
    · rw [ih, List.append_assoc, List.singleton_append]

/-- The last group is the one in progress. -/
theorem getLast?_groupsFrom (group : AudioGroup) (pieces : List PesPiece) :
    (groupsFrom group pieces).getLast? = some (pieces.foldl next group) := by
  induction pieces generalizing group with
  | nil => rfl
  | cons piece pieces ih =>
    rw [groupsFrom, List.foldl_cons, next]
    split
    · rw [List.getLast?_cons, ih, Option.getD_some]
    · exact ih _

end AudioGroup

namespace AudioSegmenter

open AudioGroup

variable {s : AudioSegmenter} {pid : Pid} {codec : Codec} {group : AudioGroup}

/-- The frame of a group, unless the group is empty. -/
def frameOf (s : AudioSegmenter) (group : AudioGroup) : List Frame :=
  Frame.unlessEmpty s.pid s.codec group.data group.timing

/-- Adds pieces one after the other, and gives the frames that each of them completes. -/
def pushAll (s : AudioSegmenter) : List PesPiece → AudioSegmenter × List (List Frame)
  | [] => (s, [])
  | piece :: pieces =>
    let (s, frames) := s.push piece.data piece.unitStart piece.timing
    let (s, later) := s.pushAll pieces
    (s, frames :: later)

/-! ## One piece -/

/-- The segmenter closes the group that it waits with where the group is closed. -/
theorem Holds.closes_eq (h : s.Holds pid codec group.data group.timing) (piece : PesPiece) :
    s.closes piece.unitStart piece.timing = group.isClosedBy piece := by
  rw [closes, isClosedBy]
  cases hleader : group.leader? with
  | none =>
    have hempty : s.buffer.isEmpty = true := h.isEmpty.mpr (leader?_eq_none_iff.mp hleader)
    rw [hempty]
    rfl
  | some leader =>
    have hdata : group.data ≠ [] := by
      rw [Ne, ← leader?_eq_none_iff, hleader]
      exact Option.some_ne_none leader
    have hfull : s.buffer.isEmpty = false :=
      Bool.eq_false_iff.mpr fun hempty => hdata (h.isEmpty.mp hempty)
    have htiming : group.timing = leader.timing := by
      rw [timing, hleader]
      rfl
    rw [hfull, h.pending hdata, htiming]
    rfl

/-- A piece that belongs to the group goes to its end. -/
theorem Holds.appendPiece (h : s.Holds pid codec group.data group.timing) (piece : PesPiece) :
    Holds { s with buffer := s.buffer.append piece.data piece.timing } pid codec
      (data (group ++ [piece])) (timing (group ++ [piece])) := by
  refine ⟨h.pid, h.codec, ?_, fun hne => ?_⟩
  · rw [FrameBuffer.payload_append, h.payload, data_append, data_singleton]
  · rw [FrameBuffer.append]
    by_cases hdata : group.data = []
    · have hpiece : piece.data ≠ [] := by
        rwa [data_append, data_singleton, hdata, List.nil_append] at hne
      rw [if_pos (h.isEmpty.mpr hdata), timing_append_singleton hdata hpiece]
    · rw [if_neg fun hempty => hdata (h.isEmpty.mp hempty), h.pending hdata, timing_append hdata]

/-- **One piece.**  It closes the group if it does not belong to it, and then the group becomes a
frame. -/
theorem Holds.pushPiece (h : s.Holds pid codec group.data group.timing) (piece : PesPiece) :
    (s.push piece.data piece.unitStart piece.timing).2 =
        (if group.isClosedBy piece then Frame.unlessEmpty pid codec group.data group.timing
          else []) ∧
      (s.push piece.data piece.unitStart piece.timing).1.Holds pid codec
        (group.next piece).data (group.next piece).timing := by
  rw [push, h.closes_eq piece, next]
  cases group.isClosedBy piece with
  | true =>
    obtain ⟨hframe, hpid, hcodec, hpayload, -⟩ := h.flush
    have hflushed : s.flush.1.Holds pid codec (data []) (timing []) :=
      ⟨hpid, hcodec, hpayload, fun hne => absurd rfl hne⟩
    exact ⟨hframe, hflushed.appendPiece piece⟩
  | false => exact ⟨rfl, h.appendPiece piece⟩

/-! ## All pieces -/

theorem length_pushAll (s : AudioSegmenter) (pieces : List PesPiece) :
    (s.pushAll pieces).2.length = pieces.length := by
  induction pieces generalizing s with
  | nil => rfl
  | cons piece pieces ih => exact congrArg (· + 1) (ih _)

theorem pushAll_append (s : AudioSegmenter) (pieces later : List PesPiece) :
    s.pushAll (pieces ++ later) =
      (((s.pushAll pieces).1.pushAll later).1,
        (s.pushAll pieces).2 ++ ((s.pushAll pieces).1.pushAll later).2) := by
  induction pieces generalizing s with
  | nil => rfl
  | cons piece pieces ih =>
    rw [List.cons_append, pushAll]
    dsimp only
    rw [ih]
    rfl

/-- **A run.**  All frames are those of the groups, each piece gives the frame of the group that it
closes, and the segmenter waits with the last group. -/
theorem Holds.pushAll (h : s.Holds pid codec group.data group.timing) (pieces : List PesPiece) :
    (s.pushAll pieces).2.flatten ++ (s.pushAll pieces).1.flush.2 =
        (groupsFrom group pieces).flatMap (frameOf { pid, codec }) ∧
      (s.pushAll pieces).1.Holds pid codec (pieces.foldl next group).data
        (pieces.foldl next group).timing ∧
      ∀ before piece after, pieces = before ++ piece :: after →
        (s.pushAll pieces).2[before.length]? =
          some (if (before.foldl next group).isClosedBy piece then
            frameOf { pid, codec } (before.foldl next group) else []) := by
  induction pieces generalizing s group with
  | nil =>
    refine ⟨?_, h, fun before piece after hsplit => ?_⟩
    · rw [groupsFrom, List.flatMap_singleton]
      exact h.flush.1
    · simp at hsplit
  | cons piece pieces ih =>
    obtain ⟨hframes, hnext⟩ := h.pushPiece piece
    obtain ⟨hall, hlast, heach⟩ := ih hnext
    refine ⟨?_, hlast, fun before p after hsplit => ?_⟩
    · rw [AudioSegmenter.pushAll]
      dsimp only
      rw [List.flatten_cons, List.append_assoc, hall, hframes, groupsFrom, next]
      split
      · rw [List.flatMap_cons]
        rfl
      · rfl
    · cases before with
      | nil =>
        obtain ⟨rfl, rfl⟩ := List.cons.inj hsplit
        exact congrArg some hframes
      | cons first before =>
        obtain ⟨rfl, rfl⟩ := List.cons.inj hsplit
        exact heach before p after rfl

/-! ## A delivery in pieces -/

/-- A piece, cut into smaller ones.  Only the first of these can be the start of a PES packet. -/
def cut (piece : PesPiece) (first : Bytes) (more : List Bytes) : List PesPiece :=
  { piece with data := first } ::
    more.map fun data => { unitStart := false, data, timing := piece.timing }

/-- Data appended in two steps, with the same timestamps. -/
theorem append_append (b : FrameBuffer) (x y : Bytes) (timing : Timing) :
    (b.append x timing).append y timing = b.append (x ++ y) timing := by
  have hpending : (if (b.append x timing).isEmpty then timing else (b.append x timing).pending) =
      (b.append (x ++ y) timing).pending := by
    simp only [FrameBuffer.append, FrameBuffer.isEmpty, List.isEmpty_iff, List.append_eq_nil_iff]
    split
    · next hempty => rw [if_pos hempty.2]
    · rfl
  rw [FrameBuffer.append, hpending]
  simp [FrameBuffer.append]

/-- Data that goes on with the same timestamps closes nothing. -/
theorem push_push (s : AudioSegmenter) (x y : Bytes) (unitStart : Bool) (timing : Timing) :
    (s.push x unitStart timing).1.push y false timing =
      ((s.push (x ++ y) unitStart timing).1, []) := by
  have hpush : ∃ b : FrameBuffer, (b.isEmpty = true ∨ b.pending.pts = timing.pts) ∧
      ∀ data, (s.push data unitStart timing).1 = { s with buffer := b.append data timing } := by
    cases hcloses : s.closes unitStart timing with
    | true =>
      refine ⟨s.buffer.clear, .inl rfl, fun data => ?_⟩
      rw [push, hcloses]
      rfl
    | false =>
      refine ⟨s.buffer, ?_, fun data => ?_⟩
      · rw [closes, Bool.and_eq_false_iff, Bool.or_eq_false_iff] at hcloses
        refine hcloses.imp (fun hfull => by simpa using hfull) fun hsame => ?_
        exact (by simpa using hsame.2 : timing.pts = s.buffer.pending.pts).symm
      · rw [push, hcloses]
        rfl
  obtain ⟨b, hb, hafter⟩ := hpush
  have hpending : (b.append x timing).pending.pts = timing.pts := by
    rw [FrameBuffer.append]
    split
    · rfl
    · next hfull => exact hb.resolve_left hfull
  have hcloses : closes { s with buffer := b.append x timing } false timing = false := by
    rw [closes, hpending]
    simp
  rw [hafter, push, hcloses, hafter, ← append_append]
  rfl

/-- **A delivery in pieces.**  The first one closes what the whole closes, the others close nothing,
and the same data is waiting afterwards. -/
theorem pushAll_cut (s : AudioSegmenter) {piece : PesPiece} {first : Bytes} {more : List Bytes}
    (h : first ++ more.flatten = piece.data) :
    s.pushAll (cut piece first more) =
      ((s.push piece.data piece.unitStart piece.timing).1,
        (s.push piece.data piece.unitStart piece.timing).2 :: more.map fun _ => []) := by
  have hframes : (s.push first piece.unitStart piece.timing).2 =
      (s.push piece.data piece.unitStart piece.timing).2 := rfl
  have hmore : ∀ x : Bytes, (s.push x piece.unitStart piece.timing).1.pushAll
      (more.map fun data => { unitStart := false, data, timing := piece.timing }) =
        ((s.push (x ++ more.flatten) piece.unitStart piece.timing).1, more.map fun _ => []) := by
    clear h
    induction more with
    | nil =>
      intro x
      rw [List.flatten_nil, List.append_nil]
      rfl
    | cons y more ih =>
      intro x
      rw [List.map_cons, AudioSegmenter.pushAll]
      dsimp only
      rw [push_push, ih, List.flatten_cons, List.append_assoc]
      rfl
  rw [cut, AudioSegmenter.pushAll]
  dsimp only
  rw [hmore, h, hframes]

/-! ## The frames -/

/-- No data is waiting. -/
def IsFresh (s : AudioSegmenter) : Prop :=
  s.buffer.isEmpty = true

/-- A new segmenter is fresh. -/
theorem isFresh_new (pid : Pid) (codec : Codec) : IsFresh { pid, codec } :=
  rfl

/-- So is one that has been flushed. -/
theorem isFresh_flush (s : AudioSegmenter) : s.flush.1.IsFresh :=
  rfl

/-- The data of the frame of a group is that of the group. -/
theorem flatMap_payload_frameOf (s : AudioSegmenter) (group : AudioGroup) :
    (s.frameOf group).flatMap (fun f => f.payload) = group.data := by
  rw [frameOf, Frame.unlessEmpty]
  split
  · next hempty =>
    rw [List.isEmpty_iff.mp hempty]
    rfl
  · exact List.flatMap_singleton _ _

/-- **Frames are groups.**  Whatever pieces audio arrives in, empty ones included, the frames are
the groups that have data, each with the timestamps of its first piece with data.  A frame comes out
with the piece that closes its group, and the last one with the flush.  Nothing is lost, and
delivering a piece in smaller ones changes no frame. -/
theorem pushAll_groups {s : AudioSegmenter} (h : s.IsFresh) (pieces : List PesPiece) :
    let run := s.pushAll pieces
    let frames := run.2.flatten ++ run.1.flush.2
    frames = (groups pieces).flatMap s.frameOf ∧
      (groups pieces).flatten = pieces ∧
      (groups pieces).getLast? = some (inProgress pieces) ∧
      run.2.length = pieces.length ∧
      (∀ before piece after, pieces = before ++ piece :: after → run.2[before.length]? = some
        (if (inProgress before).isClosedBy piece then s.frameOf (inProgress before) else [])) ∧
      run.1.flush.2 = s.frameOf (inProgress pieces) ∧
      run.1.flush.1.IsFresh ∧
      (frames.flatMap fun f => f.payload) = (pieces.flatMap fun piece => piece.data) ∧
      ∀ before piece after first more, pieces = before ++ piece :: after →
        first ++ more.flatten = piece.data →
        ∃ front back, run.2 = front ++ back ∧ front.length = before.length + 1 ∧
          s.pushAll (before ++ cut piece first more ++ after) =
            (run.1, front ++ more.map (fun _ => []) ++ back) := by
  intro run frames
  have hempty : s.buffer.payload = [] := (s.buffer.isEmpty_iff_payload_eq_nil).mp h
  have hholds : s.Holds s.pid s.codec (data []) (timing []) :=
    ⟨rfl, rfl, hempty, fun hne => absurd rfl hne⟩
  obtain ⟨hall, hlast, heach⟩ := hholds.pushAll pieces
  have hflatten : (groups pieces).flatten = pieces := flatten_groupsFrom [] pieces
  refine ⟨hall, hflatten, getLast?_groupsFrom [] pieces, s.length_pushAll pieces, heach,
    hlast.flush.1, isFresh_flush _, ?_, ?_⟩
  · calc
      (frames.flatMap fun f => f.payload)
          = ((groups pieces).flatMap s.frameOf).flatMap fun f => f.payload :=
            congrArg (List.flatMap _) hall
      _ = (groups pieces).flatMap data := by
        rw [List.flatMap_assoc]
        simp only [flatMap_payload_frameOf]
      _ = data (groups pieces).flatten := (data_flatten _).symm
      _ = data pieces := by rw [hflatten]
  · rintro before piece after first more rfl hdata
    let mid := (s.pushAll before).1
    let pushed := mid.push piece.data piece.unitStart piece.timing
    refine ⟨(s.pushAll before).2 ++ [pushed.2], (pushed.1.pushAll after).2, ?_, ?_, ?_⟩
    · show (s.pushAll _).2 = _
      rw [pushAll_append, List.append_assoc]
      rfl
    · rw [List.length_append, length_pushAll]
      rfl
    · have hrun : run.1 = (pushed.1.pushAll after).1 := by
        show (s.pushAll _).1 = _
        rw [pushAll_append]
        rfl
      rw [pushAll_append, pushAll_append, pushAll_cut mid hdata, hrun]
      simp [pushed]

/-- Three groups: the first is closed by an empty piece with another timestamp, which leads none,
and the second by an empty start of a PES packet. -/
theorem pushAll_groups_empty_pieces :
    let s : AudioSegmenter := { pid := ⟨257, by decide⟩, codec := .aac }
    let at1 : Timing := { pts := some ⟨1, by decide⟩, dts := some ⟨1, by decide⟩ }
    let at5 : Timing := { pts := some ⟨5, by decide⟩, dts := some ⟨4, by decide⟩ }
    let pieces : List PesPiece := [
      { unitStart := true, data := [0xa1], timing := at1 },
      { unitStart := false, data := [0xa2], timing := { at1 with dts := none } },
      { unitStart := false, data := [], timing := at5 },
      { unitStart := true, data := [0xb1], timing := {} },
      { unitStart := true, data := [], timing := {} },
      { unitStart := false, data := [0xc1, 0xc2], timing := at5 }]
    let run := s.pushAll pieces
    s.IsFresh ∧
      run.2.flatten ++ run.1.flush.2 = [
        { pid := ⟨257, by decide⟩, codec := .aac, payload := [0xa1, 0xa2], timing := at1 },
        { pid := ⟨257, by decide⟩, codec := .aac, payload := [0xb1], timing := {} },
        { pid := ⟨257, by decide⟩, codec := .aac, payload := [0xc1, 0xc2], timing := at5 }] ∧
      run.2[2]? = some [
        { pid := ⟨257, by decide⟩, codec := .aac, payload := [0xa1, 0xa2], timing := at1 }] := by
  intro s at1 at5 pieces run
  have hfresh : s.IsFresh := isFresh_new _ _
  obtain ⟨hall, -, -, -, heach, -⟩ := pushAll_groups hfresh pieces
  refine ⟨hfresh, hall.trans ?_, (heach (pieces.take 2) _ (pieces.drop 3) rfl).trans ?_⟩
  · decide +kernel
  · decide +kernel

end AudioSegmenter

end TransportStream
