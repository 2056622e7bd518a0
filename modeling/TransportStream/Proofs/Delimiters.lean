import TransportStream.Proofs.LeadingDelimiters
import TransportStream.Proofs.VideoSplitting

/-!
# Access unit delimiters in frames

The splitter takes delimiters away from the very start of an access unit, and nowhere else.  So a
delimiter can be left in a frame if something stands in front of it: bytes before the first start
code, or a parameter set.  After a slice it cannot be, since a delimiter that follows a slice begins
an access unit of its own.  There is one exception: at the end of the stream a delimiter of which
nothing but the header has arrived is never judged, and stays in the last frame.

A frame is a window of the stream, and a start code in it is a start code of the stream.

* `NalFormat.exists_boundary_between`: a slice and a delimiter behind it have a boundary in between.
* `NalFormat.spans_of_mem_segments`: a segment is a window without a boundary inside.
* `NalFormat.stripLeadingAuds_spec`: no delimiter is left at the start.
* `VideoSplitter.frames_delimiters`: where delimiters can be in the frames of a stream.
-/

namespace TransportStream

namespace NalFormat

/-- True if the unit behind the code at the given position is an access unit delimiter. -/
def isDelimiterAt (f : NalFormat) (data : Bytes) (p : Nat) : Bool :=
  (data[p + 3]?).any f.isDelimiter

/-- The start codes of a byte string that a delimiter follows. -/
def delimiters (f : NalFormat) (bytes : Bytes) : List StartCode :=
  (StartCode.all bytes).filter fun c => f.isDelimiterAt bytes c.mark

/-- The start codes of a byte string that coded picture data follows. -/
def slices (f : NalFormat) (bytes : Bytes) : List StartCode :=
  (StartCode.all bytes).filter fun c => f.isVclAt bytes c.mark

variable {f : NalFormat}

theorem mem_delimiters_iff {bytes : Bytes} {c : StartCode} :
    c ∈ f.delimiters bytes ↔ c ∈ StartCode.all bytes ∧ f.isDelimiterAt bytes c.mark = true :=
  List.mem_filter

theorem mem_slices_iff {bytes : Bytes} {c : StartCode} :
    c ∈ f.slices bytes ↔ c ∈ StartCode.all bytes ∧ f.isVclAt bytes c.mark = true :=
  List.mem_filter

/-- A delimiter cannot follow coded picture data in the same access unit. -/
theorem classify_of_isDelimiter {header : UInt8} (h : f.isDelimiter header = true) :
    f.classify header = .marker := by
  have htype : f.unitType header = f.delimiterType := by
    simpa [isDelimiter] using h
  cases f with
  | h264 =>
    rw [classify, htype]
    rfl
  | h265 =>
    rw [classify, htype]
    rfl

theorem opensAt_of_isDelimiterAt {data : Bytes} {p : Nat} (h : f.isDelimiterAt data p = true) :
    f.opensAt data p = true := by
  obtain ⟨header, hheader, hdelimiter⟩ := (Option.any_eq_true _ _).mp h
  rw [opensAt, hheader, Option.any_some, classify_of_isDelimiter hdelimiter]

theorem isVclAt_of_isDelimiterAt {data : Bytes} {p : Nat} (h : f.isDelimiterAt data p = true) :
    f.isVclAt data p = false := by
  obtain ⟨header, hheader, hdelimiter⟩ := (Option.any_eq_true _ _).mp h
  rw [isVclAt, hheader, Option.any_some, classify_of_isDelimiter hdelimiter]
  rfl

/-! ## Boundaries between codes -/

/-- Where coded picture data was seen before, a unit that cannot follow it has a boundary in front
of it. -/
theorem exists_boundary_le {data : Bytes} {ps : List Nat} (hps : ps.Pairwise (· < ·)) {p : Nat}
    (hp : p ∈ ps) (hopens : f.opensAt data p = true) :
    ∃ r ∈ f.boundariesAmong data true ps, r ≤ p := by
  induction ps with
  | nil => cases hp
  | cons x ps ih =>
    obtain ⟨hx, hps⟩ := List.pairwise_cons.mp hps
    rw [boundariesAmong, Bool.true_and, Bool.true_or]
    by_cases hopen : f.opensAt data x = true
    · rw [if_pos hopen]
      refine ⟨x, List.mem_cons_self, ?_⟩
      rcases List.mem_cons.mp hp with rfl | hp
      · exact Nat.le_refl p
      · exact Nat.le_of_lt (hx p hp)
    · rw [if_neg hopen]
      rcases List.mem_cons.mp hp with rfl | hp
      · exact absurd hopens hopen
      · exact ih hps hp

/-- A slice and a unit behind it that cannot follow it have a boundary in between. -/
theorem exists_boundary_between {data : Bytes} {seenVcl : Bool} {ps : List Nat}
    (hps : ps.Pairwise (· < ·)) {q p : Nat} (hq : q ∈ ps) (hp : p ∈ ps) (hqp : q < p)
    (hvcl : f.isVclAt data q = true) (hopens : f.opensAt data p = true) :
    ∃ r ∈ f.boundariesAmong data seenVcl ps, q < r ∧ r ≤ p := by
  induction ps generalizing seenVcl with
  | nil => cases hq
  | cons x ps ih =>
    obtain ⟨hx, hrest⟩ := List.pairwise_cons.mp hps
    have hlate : p ∈ ps := by
      rcases List.mem_cons.mp hp with rfl | hp
      · rcases List.mem_cons.mp hq with rfl | hq
        · exact absurd hqp (Nat.lt_irrefl _)
        · exact absurd (hx q hq) (Nat.lt_asymm hqp)
      · exact hp
    rw [boundariesAmong]
    rcases List.mem_cons.mp hq with rfl | hq
    -- behind the slice itself coded picture data was seen, whether it is a boundary or not
    · obtain ⟨r, hr, hle⟩ := exists_boundary_le hrest hlate hopens
      have hlt : q < r := hx r ((boundariesAmong_sublist _ _ _).subset hr)
      rw [hvcl, Bool.or_true]
      split
      · exact ⟨r, List.mem_cons_of_mem _ hr, hlt, hle⟩
      · exact ⟨r, hr, hlt, hle⟩
    · split
      · obtain ⟨r, hr, hbetween⟩ := ih hrest hq hlate
        exact ⟨r, List.mem_cons_of_mem _ hr, hbetween⟩
      · exact ih hrest hq hlate

theorem mem_codes_iff {data : Bytes} {p : Nat} :
    p ∈ f.codes data ↔ StartCode.IsMark data p ∧ p + 3 + f.headerLength < data.length := by
  rw [codes, List.mem_filter, isCode_iff, List.mem_range]
  constructor
  · rintro ⟨-, h₀, h₁, h₂, hlength⟩
    exact ⟨⟨h₀, h₁, h₂⟩, hlength⟩
  · rintro ⟨⟨h₀, h₁, h₂⟩, hlength⟩
    exact ⟨by omega, h₀, h₁, h₂, hlength⟩

theorem mem_codes_of_mem_boundaries {data : Bytes} {p : Nat} (h : p ∈ f.boundaries data) :
    p ∈ f.codes data :=
  (boundariesAmong_sublist _ _ _).subset h

/-- A delimiter that can be judged, behind a slice, has a boundary in front of it that leaves the
slice before the cut. -/
theorem exists_cut_between {data : Bytes} {q p : Nat} (hq : StartCode.IsMark data q)
    (hp : p ∈ f.codes data) (hqp : q < p) (hvcl : f.isVclAt data q = true)
    (hopens : f.opensAt data p = true) :
    ∃ r ∈ f.boundaries data, q < cutAt data r ∧ cutAt data r ≤ p := by
  have hlength := (mem_codes_iff.mp hp).2
  have hq' : q ∈ f.codes data := mem_codes_iff.mpr ⟨hq, by omega⟩
  obtain ⟨r, hr, hlt, hle⟩ := exists_boundary_between (f.pairwise_codes data) hq' hp hqp hvcl hopens
  have hfar := hq.add_three_le (mem_codes_iff.mp (mem_codes_of_mem_boundaries hr)).1 hlt
  refine ⟨r, hr, ?_, Nat.le_trans (cutAt_le data r) hle⟩
  unfold cutAt
  split <;> omega

/-! ## Segments as windows -/

/-- A segment is the window of a stream from one position to another, and none of the given
boundaries is inside. -/
structure Spans (f : NalFormat) (stream : List TimedByte) (ps : List Nat) (g : Segment)
    (lo hi : Nat) : Prop where
  /-- Its bytes. -/
  bytes : g.bytes = ((bytesOf stream).take hi).drop lo
  /-- It is cut nowhere. -/
  uncut : ∀ p ∈ ps, cutAt (bytesOf stream) p ≤ lo ∨ hi ≤ cutAt (bytesOf stream) p
  /-- It ends with the stream, or at a boundary. -/
  ends : (hi = stream.length ∧ g.decidedAt = stream.length) ∨
    ∃ r ∈ ps, hi = cutAt (bytesOf stream) r

theorem cutAt_mono (data : Bytes) {p q : Nat} (h : p < q) : cutAt data p ≤ cutAt data q := by
  unfold cutAt
  split <;> split <;> omega

theorem spans_of_mem_segmentsFrom {stream : List TimedByte} {start : Nat} {timing : Timing}
    {ps : List Nat} (hps : ps.Pairwise (· < ·)) {g : Segment}
    (hg : g ∈ f.segmentsFrom stream start timing ps) :
    ∃ lo hi, Spans f stream ps g lo hi ∧
      (lo = start ∨ ∃ p ∈ ps, lo = cutAt (bytesOf stream) p) := by
  induction ps generalizing start timing with
  | nil =>
    rw [segmentsFrom, List.mem_singleton] at hg
    subst hg
    refine ⟨start, stream.length, ⟨?_, fun p hp => absurd hp List.not_mem_nil, .inl ⟨rfl, rfl⟩⟩,
      .inl rfl⟩
    rw [List.take_of_length_le (by simp [bytesOf])]
  | cons p ps ih =>
    obtain ⟨hp, hps⟩ := List.pairwise_cons.mp hps
    rw [segmentsFrom] at hg
    rcases List.mem_cons.mp hg with rfl | hg
    · refine ⟨start, cutAt (bytesOf stream) p, ⟨rfl, ?_, .inr ⟨p, List.mem_cons_self, rfl⟩⟩,
        .inl rfl⟩
      intro q hq
      rcases List.mem_cons.mp hq with rfl | hq
      · exact .inr (Nat.le_refl _)
      · exact .inr (cutAt_mono _ (hp q hq))
    · obtain ⟨lo, hi, hspans, hlo⟩ := ih hps hg
      refine ⟨lo, hi, ⟨hspans.bytes, ?_, ?_⟩, .inr ?_⟩
      · intro q hq
        rcases List.mem_cons.mp hq with rfl | hq
        -- what comes behind the first cut starts there or later
        · rcases hlo with rfl | ⟨r, hr, rfl⟩
          · exact .inl (Nat.le_refl _)
          · exact .inl (cutAt_mono _ (hp r hr))
        · exact hspans.uncut q hq
      · refine hspans.ends.imp_right ?_
        rintro ⟨r, hr, hends⟩
        exact ⟨r, List.mem_cons_of_mem _ hr, hends⟩
      · rcases hlo with rfl | ⟨r, hr, rfl⟩
        · exact ⟨p, List.mem_cons_self, rfl⟩
        · exact ⟨r, List.mem_cons_of_mem _ hr, rfl⟩

/-- A segment is a window of the stream without a boundary inside. -/
theorem spans_of_mem_segments {stream : List TimedByte} {g : Segment}
    (hg : g ∈ f.segments stream) :
    ∃ lo hi, Spans f stream (f.boundaries (bytesOf stream)) g lo hi := by
  obtain ⟨lo, hi, hspans, -⟩ := spans_of_mem_segmentsFrom (f.pairwise_boundaries _) hg
  exact ⟨lo, hi, hspans⟩

/-! ## Start codes in a window -/

theorem getElem?_of_window {data : Bytes} {lo hi i : Nat} {b : UInt8}
    (h : ((data.take hi).drop lo)[i]? = some b) : lo + i < hi ∧ data[lo + i]? = some b := by
  rw [List.getElem?_drop, List.getElem?_take] at h
  split at h
  · next hlt => exact ⟨hlt, h⟩
  · cases h

theorem any_of_window {data : Bytes} {lo hi i : Nat} {P : UInt8 → Bool}
    (h : (((data.take hi).drop lo)[i]?).any P = true) :
    lo + i < hi ∧ (data[lo + i]?).any P = true := by
  obtain ⟨b, hb, hP⟩ := (Option.any_eq_true _ _).mp h
  obtain ⟨hlt, hb⟩ := getElem?_of_window hb
  exact ⟨hlt, (Option.any_eq_true _ _).mpr ⟨b, hb, hP⟩⟩

theorem isMark_of_window {data : Bytes} {lo hi p : Nat}
    (h : StartCode.IsMark ((data.take hi).drop lo) p) :
    StartCode.IsMark data (lo + p) ∧ lo + p + 3 ≤ hi := by
  obtain ⟨h₀, h₁, h₂⟩ := h
  obtain ⟨hlt, h₂⟩ := getElem?_of_window h₂
  exact ⟨⟨(getElem?_of_window h₀).2, (getElem?_of_window h₁).2, h₂⟩, hlt⟩

/-- A start code of a window that has a byte before its `00 00 01` is a start code of the whole. -/
theorem mem_all_of_window {data : Bytes} {lo hi : Nat} {c : StartCode}
    (hc : c ∈ StartCode.all ((data.take hi).drop lo)) (hpos : 0 < c.mark) :
    { start := lo + c.start, mark := lo + c.mark } ∈ StartCode.all data := by
  obtain ⟨hmark, hcode⟩ := StartCode.mem_all_iff.mp hc
  obtain ⟨hmark', hle⟩ := isMark_of_window hmark
  have hbefore : ((data.take hi).drop lo)[c.mark - 1]? = data[lo + c.mark - 1]? := by
    rw [List.getElem?_drop, List.getElem?_take_of_lt (by omega), Nat.add_sub_assoc hpos]
  refine StartCode.mem_all_iff.mpr ⟨hmark', ?_⟩
  have hstart := congrArg StartCode.start hcode
  have hpos' : 0 < lo + c.mark := by omega
  rw [hstart, StartCode.codeAt, StartCode.codeAt, hbefore]
  congr 1
  by_cases hzero : data[lo + c.mark - 1]? = some 0
  · rw [if_pos ⟨hpos, hzero⟩, if_pos ⟨hpos', hzero⟩, Nat.add_sub_assoc hpos]
  · rw [if_neg (fun h => hzero h.2), if_neg (fun h => hzero h.2)]

/-- A start code starts where the stream would be cut. -/
theorem cutAt_mark {data : Bytes} {c : StartCode} (hc : c ∈ StartCode.all data) :
    cutAt data c.mark = c.start :=
  (congrArg StartCode.start (StartCode.mem_all_iff.mp hc).2).symm

/-! ## The start of an access unit -/

/-- No delimiter is left at the very start, and nothing but a part in front is taken away. -/
theorem stripLeadingAuds_spec (f : NalFormat) (unit : Bytes) :
    (∃ k, f.stripLeadingAuds unit = unit.drop k) ∧
      ∀ c ∈ f.delimiters (f.stripLeadingAuds unit), 0 < c.start := by
  obtain ⟨units, hunit, -, hleft⟩ := f.exists_run unit
  refine ⟨⟨units.flatten.length, ?_⟩, fun c hc => ?_⟩
  · have hdrop := congrArg (List.drop units.flatten.length) hunit
    rw [List.drop_left] at hdrop
    exact hdrop.symm
  · obtain ⟨hall, hheader⟩ := mem_delimiters_iff.mp hc
    obtain ⟨hmark, hcode⟩ := StartCode.mem_all_iff.mp hall
    exact Nat.pos_of_ne_zero fun hzero => hleft (begins_of_start hmark hcode hzero hheader)

/-! ## Delimiters that are left -/

/-- A delimiter that is left in a segment is one of the stream, but no boundary, and does not stand
at the very start. -/
theorem left_of_spans {stream : List TimedByte} {ps : List Nat} {g : Segment} {lo hi : Nat}
    (hspans : Spans f stream ps g lo hi) :
    ∃ front, lo ≤ front ∧
      f.stripLeadingAuds g.bytes = ((bytesOf stream).take hi).drop front ∧
      ∀ c ∈ f.delimiters (f.stripLeadingAuds g.bytes),
        0 < c.start ∧ front + c.mark + 3 < hi ∧ front + c.mark ∉ ps ∧
          { start := front + c.start, mark := front + c.mark } ∈ f.delimiters (bytesOf stream) := by
  obtain ⟨⟨k, hk⟩, hfront⟩ := f.stripLeadingAuds_spec g.bytes
  rw [hspans.bytes, List.drop_drop] at hk
  refine ⟨lo + k, Nat.le_add_right lo k, hspans.bytes ▸ hk, fun c hc => ?_⟩
  have hstart : 0 < c.start := hfront c hc
  rw [hspans.bytes, hk] at hc
  obtain ⟨hall, hdelimiter⟩ := mem_delimiters_iff.mp hc
  obtain ⟨hlt, hdelimiter⟩ := any_of_window hdelimiter
  have hmark : c.start ≤ c.mark := by
    rw [← cutAt_mark hall]
    exact cutAt_le _ _
  have hwhole := mem_all_of_window hall (Nat.lt_of_lt_of_le hstart hmark)
  have hcut : cutAt (bytesOf stream) (lo + k + c.mark) = lo + k + c.start := cutAt_mark hwhole
  refine ⟨hstart, hlt, fun hboundary => ?_, mem_delimiters_iff.mpr ⟨hwhole, hdelimiter⟩⟩
  rcases hspans.uncut _ hboundary with hle | hle
  · omega
  · omega

/-- A delimiter that is left in a segment stands before all its slices, unless the segment is the
last one and nothing but the header of the delimiter has arrived. -/
theorem lt_slice_of_left {stream : List TimedByte} {g : Segment} (hg : g ∈ f.segments stream)
    {c c' : StartCode} (hc : c ∈ f.delimiters (f.stripLeadingAuds g.bytes))
    (hc' : c' ∈ f.slices (f.stripLeadingAuds g.bytes)) :
    c.mark < c'.mark ∨ stream.length ≤ g.decidedAt ∧
      (f.stripLeadingAuds g.bytes).length ≤ c.nalStart + f.headerLength := by
  obtain ⟨lo, hi, hspans⟩ := spans_of_mem_segments hg
  obtain ⟨front, hlo, hwindow, hleft⟩ := left_of_spans hspans
  obtain ⟨-, hwithin, -, hdelimiter⟩ := hleft c hc
  obtain ⟨hall, hdelimiter⟩ := mem_delimiters_iff.mp hdelimiter
  have hmark : StartCode.IsMark (bytesOf stream) (front + c.mark) :=
    (StartCode.mem_all_iff.mp hall).1
  rw [hwindow] at hc' ⊢
  obtain ⟨hall', hvcl⟩ := mem_slices_iff.mp hc'
  obtain ⟨hmark', -⟩ := isMark_of_window (StartCode.mem_all_iff.mp hall').1
  have hvcl : f.isVclAt (bytesOf stream) (front + c'.mark) = true := (any_of_window hvcl).2
  refine Decidable.or_iff_not_imp_left.mpr fun hbehind => ?_
  have hne : front + c'.mark ≠ front + c.mark := by
    intro hsame
    rw [hsame, isVclAt_of_isDelimiterAt hdelimiter] at hvcl
    cases hvcl
  -- a code that can be judged would have a boundary in front of it
  have hlate : (bytesOf stream).length ≤ front + c.mark + 3 + f.headerLength := by
    refine Nat.not_lt.mp fun hearly => ?_
    obtain ⟨r, hr, hslice, hcut⟩ := exists_cut_between hmark'
      (mem_codes_iff.mpr ⟨hmark, hearly⟩) (by omega) hvcl (opensAt_of_isDelimiterAt hdelimiter)
    rcases hspans.uncut r hr with hle | hle
    · omega
    · omega
  rcases hspans.ends with ⟨rfl, hdecided⟩ | ⟨r, hr, rfl⟩
  · refine ⟨Nat.le_of_eq hdecided.symm, ?_⟩
    rw [List.length_drop, List.length_take, StartCode.nalStart]
    omega
  · have := f.boundaries_lt hr
    have := cutAt_le (bytesOf stream) r
    omega

end NalFormat

namespace VideoSplitter

variable {s : VideoSplitter}

theorem payload_of_mem_framesOf {g : Segment} {frame : Frame} (h : frame ∈ s.framesOf g) :
    frame.payload = s.format.stripLeadingAuds g.bytes := by
  unfold framesOf frameOf Frame.unlessEmpty at h
  split at h
  · cases h
  · rw [List.mem_singleton.mp h]

/-- **Delimiters in frames.**  No frame starts with a delimiter, and a delimiter that is left in a
frame stands before all slices of that frame; only in the frame of the flush it can also stand at
the very end, with nothing behind its header.  A stream in which every delimiter begins an access
unit has none in its frames. -/
theorem frames_delimiters (h : s.IsFresh) (pieces : List (Bytes × Timing)) :
    let run := s.pushAll pieces
    let data := bytesOf (timedBytes pieces)
    (∀ frame ∈ run.2.flatten, ∀ c ∈ s.format.delimiters frame.payload,
      0 < c.start ∧ ∀ c' ∈ s.format.slices frame.payload, c.mark < c'.mark) ∧
    (∀ frame ∈ run.1.flush.2, ∀ c ∈ s.format.delimiters frame.payload,
      0 < c.start ∧ ∀ c' ∈ s.format.slices frame.payload,
        c.mark < c'.mark ∨ frame.payload.length ≤ c.nalStart + s.format.headerLength) ∧
    ((∀ c ∈ s.format.delimiters data, c.start = 0 ∨ c.mark ∈ s.format.boundaries data) →
      ∀ frame ∈ run.2.flatten ++ run.1.flush.2, s.format.delimiters frame.payload = []) := by
  intro run data
  obtain ⟨hfollows, -, -, hflatten⟩ := h.follows.pushAll pieces
  obtain ⟨-, -, hflush⟩ := hfollows.flush
  refine ⟨?_, ?_, ?_⟩
  · intro frame hframe c hc
    rw [hflatten] at hframe
    obtain ⟨g, hg, hframe⟩ := List.mem_flatMap.mp hframe
    obtain ⟨hg, hdecided⟩ := List.mem_filter.mp hg
    rw [payload_of_mem_framesOf hframe] at hc ⊢
    refine ⟨(s.format.stripLeadingAuds_spec g.bytes).2 c hc, fun c' hc' => ?_⟩
    rcases NalFormat.lt_slice_of_left hg hc hc' with hlt | ⟨hlast, -⟩
    · exact hlt
    · simp only [Bool.and_eq_true, decide_eq_true_iff] at hdecided
      exact absurd hdecided.2 (Nat.not_lt.mpr hlast)
  · intro frame hframe c hc
    rw [hflush] at hframe
    obtain ⟨g, hg, hframe⟩ := List.mem_flatMap.mp hframe
    have hg : g ∈ s.format.segments (timedBytes pieces) := (List.mem_filter.mp hg).1
    rw [payload_of_mem_framesOf hframe] at hc ⊢
    refine ⟨(s.format.stripLeadingAuds_spec g.bytes).2 c hc, fun c' hc' => ?_⟩
    exact (NalFormat.lt_slice_of_left hg hc hc').imp_right And.right
  · intro hopen frame hframe
    rw [h.flatten_pushAll pieces] at hframe
    obtain ⟨g, hg, hframe⟩ := List.mem_flatMap.mp hframe
    obtain ⟨lo, hi, hspans⟩ := NalFormat.spans_of_mem_segments hg
    obtain ⟨front, -, -, hleft⟩ := NalFormat.left_of_spans hspans
    rw [payload_of_mem_framesOf hframe]
    refine List.eq_nil_iff_forall_not_mem.mpr fun c hc => ?_
    obtain ⟨hstart, -, hboundary, hdelimiter⟩ := hleft c hc
    rcases hopen _ hdelimiter with hzero | hopens
    · dsimp only at hzero
      omega
    · exact hboundary hopens

/-- Two delimiters that each begin an access unit, arriving in pieces that cut the second one. -/
theorem frames_delimiters_of_two_units :
    let s : VideoSplitter := { pid := ⟨256, by decide⟩, codec := .h264, format := .h264 }
    let pieces : List (Bytes × Timing) := [
      ([0, 0, 1, 9, 0xf0, 0, 0, 1, 0x65, 0x88, 0, 0], {}),
      ([0, 1, 9, 0xf0, 0, 0, 1, 0x41, 0x9a, 0xbb], {})]
    let run := s.pushAll pieces
    s.IsFresh ∧
      s.format.delimiters (bytesOf (timedBytes pieces)) = [⟨0, 0⟩, ⟨10, 11⟩] ∧
      s.format.boundaries (bytesOf (timedBytes pieces)) = [11] ∧
      run.2.flatten.length = 1 ∧ run.1.flush.2.length = 1 ∧
      ∀ frame ∈ run.2.flatten ++ run.1.flush.2, s.format.delimiters frame.payload = [] := by
  intro s pieces run
  have hfresh : s.IsFresh := isFresh_new _ _ _
  have hdelimiters : s.format.delimiters (bytesOf (timedBytes pieces)) = [⟨0, 0⟩, ⟨10, 11⟩] := by
    decide +kernel
  have hboundaries : s.format.boundaries (bytesOf (timedBytes pieces)) = [11] := by
    decide
  obtain ⟨-, -, hnone⟩ := frames_delimiters hfresh pieces
  refine ⟨hfresh, hdelimiters, hboundaries, by decide +kernel, by decide +kernel, hnone ?_⟩
  rw [hdelimiters, hboundaries]
  decide

/-- A delimiter that stands behind a parameter set stays in the frame. -/
theorem delimiter_behind_parameter_set :
    ¬ ∀ s : VideoSplitter, s.IsFresh → ∀ pieces : List (Bytes × Timing),
      ∀ frame ∈ (s.pushAll pieces).2.flatten ++ (s.pushAll pieces).1.flush.2,
        s.format.delimiters frame.payload = [] := by
  intro hnone
  let s : VideoSplitter := { pid := ⟨256, by decide⟩, codec := .h264, format := .h264 }
  let data : Bytes := [0, 0, 0, 1, 0x67, 0x42, 0xc0, 0x1e, 0, 0, 0, 1, 9, 0xf0, 0, 0, 1, 0x65, 0x88]
  have hframes : (s.pushAll [(data, {})]).2.flatten ++ (s.pushAll [(data, {})]).1.flush.2 =
      [{ pid := ⟨256, by decide⟩, codec := .h264, payload := data, timing := {} }] := by
    decide +kernel
  have hdelimiters : s.format.delimiters data = [⟨8, 9⟩] := by
    decide +kernel
  have hnil : s.format.delimiters data = [] :=
    hnone s (isFresh_new _ _ _) [(data, {})] _ (hframes ▸ List.mem_singleton.mpr rfl)
  rw [hnil] at hdelimiters
  cases hdelimiters

end VideoSplitter

end TransportStream
