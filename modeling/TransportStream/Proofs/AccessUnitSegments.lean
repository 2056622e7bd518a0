import TransportStream.Nal.Unit
import TransportStream.Timestamp

/-!
# Access units, all at once

Where access units end can be said without a scan that keeps a state: by positions in the whole
stream.  This module says it, and is what the splitter is measured against.

Every byte of the stream carries the timestamps that it arrived with.  A *code* is a position at
which `00 00 01` stands, with the header of a unit and one more byte behind it; that byte is the
last one needed to judge the unit.  A code is a *boundary* if coded picture data was seen since the
boundary before and the unit cannot belong to the same access unit.  The stream is cut at the
boundaries, each time in front of the zero that belongs to the start code, if there is one.

* `codes`, `boundaries`, `cutAt`, `segments`: the definitions.
* `codesFrom_of_code`, `codesFrom_of_not_code`: the codes from a position on, one step further.
* `filter_segments_take`: the segments that a part of the stream decides are segments of the whole.
-/

namespace TransportStream

/-- A byte of a video stream, with the timestamps that it arrived with. -/
structure TimedByte where
  /-- The byte. -/
  value : UInt8
  /-- The timestamps. -/
  timing : Timing
  deriving DecidableEq

/-- The bytes of data that arrives with the given timestamps. -/
def timed (data : Bytes) (timing : Timing) : List TimedByte :=
  data.map fun b => ⟨b, timing⟩

/-- The bytes of a stream that arrives in pieces. -/
def timedBytes (pieces : List (Bytes × Timing)) : List TimedByte :=
  pieces.flatMap fun piece => timed piece.1 piece.2

/-- The bytes alone. -/
def bytesOf (stream : List TimedByte) : Bytes :=
  stream.map (·.value)

/-- A part of a video stream from one cut to the next. -/
structure Segment where
  /-- Its bytes. -/
  bytes : Bytes
  /-- The timestamps that apply to it. -/
  timing : Timing
  /-- The position of the byte that shows its end.  Nothing shows the end of the last segment; there
  it is the length of the stream. -/
  decidedAt : Nat
  deriving DecidableEq

/-- A list that ascends by a key is divided by any bound on the key. -/
theorem eq_filter_append_filter {α : Type} (key : α → Nat) {l : List α}
    (h : l.Pairwise fun a b => key a < key b) (m : Nat) :
    l = (l.filter fun a => key a < m) ++ l.filter fun a => m ≤ key a := by
  induction l with
  | nil => rfl
  | cons a l ih =>
    obtain ⟨ha, hl⟩ := List.pairwise_cons.mp h
    by_cases hlt : key a < m
    · rw [List.filter_cons_of_pos (by simpa using hlt),
        List.filter_cons_of_neg (by simpa using hlt), List.cons_append, ← ih hl]
    · have hge : ∀ b ∈ a :: l, m ≤ key b := by
        intro b hb
        rcases List.mem_cons.mp hb with rfl | hb
        · omega
        · have := ha b hb
          omega
      rw [List.filter_eq_nil_iff.mpr fun b hb => by simpa using hge b hb, List.nil_append,
        List.filter_eq_self.mpr fun b hb => by simpa using hge b hb]

namespace NalFormat

variable (f : NalFormat)

/-- True if `00 00 01` stands at the given position, and the unit behind it can be judged. -/
def isCode (data : Bytes) (p : Nat) : Bool :=
  data[p]? == some 0 && data[p + 1]? == some 0 && data[p + 2]? == some 1 &&
    decide (p + 3 + f.headerLength < data.length)

/-- The codes of a stream, in order. -/
def codes (data : Bytes) : List Nat :=
  (List.range data.length).filter (f.isCode data)

/-- True if the unit behind the code at the given position is coded picture data. -/
def isVclAt (data : Bytes) (p : Nat) : Bool :=
  (data[p + 3]?).any fun header => f.classify header == .vcl

/-- True if the unit behind the code at the given position cannot follow coded picture data in the
same access unit: it is a marker, or the first slice of a picture. -/
def opensAt (data : Bytes) (p : Nat) : Bool :=
  (data[p + 3]?).any fun header =>
    match f.classify header with
    | .marker => true
    | .vcl => (data[p + 3 + f.headerLength]?).any fun first => bitFlag first 7
    | .other => false

/-- The boundaries among codes, given whether coded picture data was seen before them. -/
def boundariesAmong (data : Bytes) : Bool → List Nat → List Nat
  | _, [] => []
  | seenVcl, p :: ps =>
    if seenVcl && f.opensAt data p then p :: boundariesAmong data (f.isVclAt data p) ps
    else boundariesAmong data (seenVcl || f.isVclAt data p) ps

/-- The boundaries of a stream. -/
def boundaries (data : Bytes) : List Nat :=
  f.boundariesAmong data false (f.codes data)

/-- Where the stream is cut at a boundary: before a zero byte in front of the `00 00 01`, or else
right there. -/
def cutAt (data : Bytes) (p : Nat) : Nat :=
  if 0 < p ∧ data[p - 1]? = some 0 then p - 1 else p

/-- The timestamps that the byte at a position arrived with. -/
def timingAt (stream : List TimedByte) (i : Nat) : Timing :=
  ((stream[i]?).map (·.timing)).getD {}

/-- The segments from a cut on, given the boundaries behind it. -/
def segmentsFrom (stream : List TimedByte) (start : Nat) (timing : Timing) :
    List Nat → List Segment
  | [] => [{
      bytes := (bytesOf stream).drop start
      timing := timing
      decidedAt := stream.length }]
  | p :: ps =>
    let cut := cutAt (bytesOf stream) p
    let decider := p + 3 + f.headerLength
    { bytes := ((bytesOf stream).take cut).drop start
      timing := timing
      decidedAt := decider } :: segmentsFrom stream cut (timingAt stream decider) ps

/-- The segments of a stream.  The first one has the timestamps of the first byte, and every other
one those of the byte that showed its beginning. -/
def segments (stream : List TimedByte) : List Segment :=
  f.segmentsFrom stream 0 (timingAt stream 0) (f.boundaries (bytesOf stream))

/-! ## Codes from a position on -/

/-- The codes from a position on. -/
def codesFrom (data : Bytes) (i : Nat) : List Nat :=
  (List.range' i (data.length - i)).filter (f.isCode data)

theorem codes_eq_codesFrom (data : Bytes) : f.codes data = f.codesFrom data 0 := by
  rw [codes, codesFrom, List.range_eq_range', Nat.sub_zero]

theorem isCode_iff {data : Bytes} {p : Nat} :
    f.isCode data p = true ↔ data[p]? = some 0 ∧ data[p + 1]? = some 0 ∧ data[p + 2]? = some 1 ∧
      p + 3 + f.headerLength < data.length := by
  simp [isCode, and_assoc]

variable {f}

theorem codesFrom_of_not_code {data : Bytes} {i : Nat} (h : f.isCode data i = false) :
    f.codesFrom data i = f.codesFrom data (i + 1) := by
  unfold codesFrom
  rcases Nat.lt_or_ge i data.length with hi | hi
  · obtain ⟨n, hn⟩ : ∃ n, data.length - i = n + 1 := ⟨data.length - i - 1, by omega⟩
    have hn' : data.length - (i + 1) = n := by omega
    rw [hn, hn', List.range'_succ, List.filter_cons_of_neg (by simp [h])]
  · rw [Nat.sub_eq_zero_of_le hi, Nat.sub_eq_zero_of_le (by omega : data.length ≤ i + 1)]
    rfl

/-- No code starts within the `00 00 01` of another one. -/
theorem codesFrom_of_code {data : Bytes} {i : Nat} (h : f.isCode data i = true) :
    f.codesFrom data i = i :: f.codesFrom data (i + 3) := by
  obtain ⟨-, h₁, h₂, hlength⟩ := f.isCode_iff.mp h
  have hfirst : f.codesFrom data i = i :: f.codesFrom data (i + 1) := by
    obtain ⟨n, hn⟩ : ∃ n, data.length - i = n + 1 := ⟨data.length - i - 1, by omega⟩
    have hn' : data.length - (i + 1) = n := by omega
    rw [codesFrom, codesFrom, hn, hn', List.range'_succ, List.filter_cons_of_pos h]
  have hsecond : f.isCode data (i + 1) = false := by
    simp [isCode, h₂]
  have hthird : f.isCode data (i + 2) = false := by
    simp [isCode, h₂]
  rw [hfirst, codesFrom_of_not_code hsecond, codesFrom_of_not_code hthird]

/-- Near the end of the data nothing can be judged. -/
theorem codesFrom_eq_nil {data : Bytes} {i : Nat} (h : data.length ≤ i + 3 + f.headerLength) :
    f.codesFrom data i = [] := by
  refine List.filter_eq_nil_iff.mpr ?_
  intro p hp hcode
  have := (List.mem_range'_1.mp hp).1
  have := (f.isCode_iff.mp hcode).2.2.2
  omega

theorem headerLength_pos : 0 < f.headerLength := by
  cases f <;> decide

/-! ## A part of the stream -/

theorem isCode_take (data : Bytes) (m p : Nat) :
    f.isCode (data.take m) p = (f.isCode data p && decide (p + 3 + f.headerLength < m)) := by
  rw [Bool.eq_iff_iff, Bool.and_eq_true, isCode_iff, isCode_iff, decide_eq_true_iff]
  constructor
  · rintro ⟨h₀, h₁, h₂, hlength⟩
    rw [List.length_take] at hlength
    rw [List.getElem?_take_of_lt (by omega)] at h₀ h₁ h₂
    exact ⟨⟨h₀, h₁, h₂, by omega⟩, by omega⟩
  · rintro ⟨⟨h₀, h₁, h₂, hlength⟩, hm⟩
    rw [List.getElem?_take_of_lt (by omega), List.getElem?_take_of_lt (by omega),
      List.getElem?_take_of_lt (by omega), List.length_take]
    exact ⟨h₀, h₁, h₂, by omega⟩

/-- The codes of a part of the stream are those that it decides. -/
theorem codes_take {data : Bytes} {m : Nat} (h : m ≤ data.length) :
    f.codes (data.take m) = (f.codes data).filter fun p => p + 3 + f.headerLength < m := by
  obtain ⟨n, hn⟩ := Nat.exists_eq_add_of_le h
  have hcodes : f.isCode (data.take m) = fun p =>
      f.isCode data p && decide (p + 3 + f.headerLength < m) := funext (isCode_take data m)
  have hlate : (List.range' m n).filter
      (fun p => f.isCode data p && decide (p + 3 + f.headerLength < m)) = [] := by
    refine List.filter_eq_nil_iff.mpr ?_
    intro p hp hcode
    have := (List.mem_range'_1.mp hp).1
    simp only [Bool.and_eq_true, decide_eq_true_iff] at hcode
    omega
  rw [codes, codes, List.filter_filter, hcodes, List.length_take, Nat.min_eq_left h, hn,
    List.range_eq_range', List.range_eq_range', ← List.range'_append_1, List.filter_append]
  simp only [Nat.zero_add, Bool.and_comm] at hlate ⊢
  rw [hlate, List.append_nil]

theorem opensAt_take {data : Bytes} {m p : Nat} (h : p + 3 + f.headerLength < m) :
    f.opensAt (data.take m) p = f.opensAt data p := by
  have h₃ : p + 3 < m := by omega
  rw [opensAt, opensAt, List.getElem?_take_of_lt h₃, List.getElem?_take_of_lt h]

theorem isVclAt_take {data : Bytes} {m p : Nat} (h : p + 3 + f.headerLength < m) :
    f.isVclAt (data.take m) p = f.isVclAt data p := by
  rw [isVclAt, isVclAt, List.getElem?_take_of_lt (by omega)]

theorem boundariesAmong_sublist (data : Bytes) (seenVcl : Bool) (ps : List Nat) :
    (f.boundariesAmong data seenVcl ps).Sublist ps := by
  induction ps generalizing seenVcl with
  | nil => exact List.Sublist.slnil
  | cons p ps ih =>
    rw [boundariesAmong]
    split
    · exact (ih _).cons_cons p
    · exact (ih _).cons p

theorem boundariesAmong_take {data : Bytes} {m : Nat} {seenVcl : Bool} {ps : List Nat}
    (h : ∀ p ∈ ps, p + 3 + f.headerLength < m) :
    f.boundariesAmong (data.take m) seenVcl ps = f.boundariesAmong data seenVcl ps := by
  induction ps generalizing seenVcl with
  | nil => rfl
  | cons p ps ih =>
    obtain ⟨hp, hps⟩ := List.forall_mem_cons.mp h
    rw [boundariesAmong, boundariesAmong, opensAt_take hp, isVclAt_take hp, ih hps, ih hps]

/-- Whether a code is a boundary does not depend on those behind it. -/
theorem exists_boundariesAmong_append (data : Bytes) (seenVcl : Bool) (ps qs : List Nat) :
    ∃ seen, f.boundariesAmong data seenVcl (ps ++ qs) =
      f.boundariesAmong data seenVcl ps ++ f.boundariesAmong data seen qs := by
  induction ps generalizing seenVcl with
  | nil => exact ⟨seenVcl, rfl⟩
  | cons p ps ih =>
    rw [List.cons_append, boundariesAmong, boundariesAmong]
    split
    · obtain ⟨seen, h⟩ := ih (f.isVclAt data p)
      exact ⟨seen, by rw [h, List.cons_append]⟩
    · exact ih (seenVcl || f.isVclAt data p)

theorem pairwise_codes (f : NalFormat) (data : Bytes) : (f.codes data).Pairwise (· < ·) :=
  List.pairwise_lt_range.filter _

/-- The boundaries of a part of the stream are the first ones of the whole. -/
theorem boundaries_eq_append (f : NalFormat) {data : Bytes} {m : Nat} (h : m ≤ data.length) :
    ∃ late, f.boundaries data = f.boundaries (data.take m) ++ late ∧
      (∀ p ∈ f.boundaries (data.take m), p + 3 + f.headerLength < m) ∧
      ∀ p ∈ late, m ≤ p + 3 + f.headerLength := by
  have hsplit := eq_filter_append_filter (fun p => p + 3 + f.headerLength)
    ((f.pairwise_codes data).imp fun hlt => by omega) m
  have hearly : ∀ p ∈ (f.codes data).filter (fun p => p + 3 + f.headerLength < m),
      p + 3 + f.headerLength < m := fun p hp => by
    simpa using (List.mem_filter.mp hp).2
  obtain ⟨seen, happend⟩ := exists_boundariesAmong_append (f := f) data false
    ((f.codes data).filter fun p => p + 3 + f.headerLength < m)
    ((f.codes data).filter fun p => m ≤ p + 3 + f.headerLength)
  rw [← hsplit] at happend
  rw [boundaries, boundaries, codes_take h, boundariesAmong_take hearly]
  refine ⟨_, happend, fun p hp => hearly p ((boundariesAmong_sublist _ _ _).subset hp),
    ?_⟩
  intro p hp
  simpa using (List.mem_filter.mp ((boundariesAmong_sublist _ _ _).subset hp)).2

/-! ## Segments -/

theorem boundaries_lt (f : NalFormat) {data : Bytes} {p : Nat} (h : p ∈ f.boundaries data) :
    p + 3 + f.headerLength < data.length := by
  have hcode := (List.mem_filter.mp ((boundariesAmong_sublist _ _ _).subset h)).2
  exact (f.isCode_iff.mp hcode).2.2.2

theorem pairwise_boundaries (f : NalFormat) (data : Bytes) :
    (f.boundaries data).Pairwise (· < ·) :=
  (f.pairwise_codes data).sublist (boundariesAmong_sublist _ _ _)

theorem decidedAt_of_mem_segmentsFrom {stream : List TimedByte} {start : Nat} {timing : Timing}
    {ps : List Nat} {g : Segment} (h : g ∈ f.segmentsFrom stream start timing ps) :
    g.decidedAt = stream.length ∨ ∃ p ∈ ps, g.decidedAt = p + 3 + f.headerLength := by
  induction ps generalizing start timing with
  | nil =>
    rw [segmentsFrom, List.mem_singleton] at h
    exact .inl (by rw [h])
  | cons p ps ih =>
    rw [segmentsFrom] at h
    rcases List.mem_cons.mp h with rfl | h
    · exact .inr ⟨p, List.mem_cons_self, rfl⟩
    · exact (ih h).imp_right fun ⟨q, hq, hg⟩ => ⟨q, List.mem_cons_of_mem _ hq, hg⟩

/-- Segments are decided one after the other. -/
theorem pairwise_segmentsFrom {stream : List TimedByte} {start : Nat} {timing : Timing}
    {ps : List Nat} (hps : ps.Pairwise (· < ·))
    (hlt : ∀ p ∈ ps, p + 3 + f.headerLength < stream.length) :
    (f.segmentsFrom stream start timing ps).Pairwise fun g g' => g.decidedAt < g'.decidedAt := by
  induction ps generalizing start timing with
  | nil => exact List.pairwise_singleton _ _
  | cons p ps ih =>
    obtain ⟨hp, hps⟩ := List.pairwise_cons.mp hps
    obtain ⟨hplt, hpslt⟩ := List.forall_mem_cons.mp hlt
    refine List.pairwise_cons.mpr ⟨?_, ih hps hpslt⟩
    intro g hg
    rcases decidedAt_of_mem_segmentsFrom hg with hg | ⟨q, hq, hg⟩
    · rw [hg]
      exact hplt
    · have := hp q hq
      dsimp only
      omega

theorem pairwise_segments (f : NalFormat) (stream : List TimedByte) :
    (f.segments stream).Pairwise fun g g' => g.decidedAt < g'.decidedAt :=
  pairwise_segmentsFrom (f.pairwise_boundaries _) fun p hp => by
    simpa [bytesOf] using f.boundaries_lt hp

theorem cutAt_le (data : Bytes) (p : Nat) : cutAt data p ≤ p := by
  unfold cutAt
  split <;> omega

theorem cutAt_take {data : Bytes} {m p : Nat} (h : p < m) :
    cutAt (data.take m) p = cutAt data p := by
  rw [cutAt, cutAt, List.getElem?_take_of_lt (by omega)]

/-- A segment that a part of the stream decides is the same in the whole. -/
theorem filter_segmentsFrom_take {stream : List TimedByte} {m : Nat} (hm : m ≤ stream.length)
    {early late : List Nat} (hearly : ∀ p ∈ early, p + 3 + f.headerLength < m)
    (hlate : ∀ p ∈ late, m ≤ p + 3 + f.headerLength) (start : Nat) (timing : Timing) :
    (f.segmentsFrom (stream.take m) start timing early).filter (fun g => g.decidedAt < m) =
      (f.segmentsFrom stream start timing (early ++ late)).filter fun g => g.decidedAt < m := by
  induction early generalizing start timing with
  | nil =>
    have hwhole : ∀ g ∈ f.segmentsFrom stream start timing late, m ≤ g.decidedAt := by
      intro g hg
      rcases decidedAt_of_mem_segmentsFrom hg with hg | ⟨p, hp, hg⟩
      · omega
      · rw [hg]
        exact hlate p hp
    have hnone : (f.segmentsFrom stream start timing late).filter (fun g => g.decidedAt < m) = [] :=
      List.filter_eq_nil_iff.mpr fun g hg => by simpa using hwhole g hg
    rw [List.nil_append, hnone]
    simp [segmentsFrom, Nat.min_eq_left hm]
  | cons p early ih =>
    obtain ⟨hp, hearly⟩ := List.forall_mem_cons.mp hearly
    have htake : bytesOf (stream.take m) = (bytesOf stream).take m := List.map_take
    have hcut : cutAt (bytesOf (stream.take m)) p = cutAt (bytesOf stream) p := by
      rw [htake]
      exact cutAt_take (by omega)
    have hbytes : (bytesOf (stream.take m)).take (cutAt (bytesOf stream) p) =
        (bytesOf stream).take (cutAt (bytesOf stream) p) := by
      have := cutAt_le (bytesOf stream) p
      rw [htake, List.take_take, Nat.min_eq_left (by omega)]
    have htiming : timingAt (stream.take m) (p + 3 + f.headerLength) =
        timingAt stream (p + 3 + f.headerLength) := by
      rw [timingAt, timingAt, List.getElem?_take_of_lt hp]
    rw [List.cons_append, segmentsFrom, segmentsFrom, List.filter_cons_of_pos (by simpa using hp),
      List.filter_cons_of_pos (by simpa using hp), hcut, hbytes, htiming, ih hearly]

/-- **A part of the stream.**  The segments that it decides are the segments of the whole that are
decided there. -/
theorem filter_segments_take (f : NalFormat) {stream : List TimedByte} {m : Nat}
    (hm : m ≤ stream.length) :
    (f.segments (stream.take m)).filter (fun g => g.decidedAt < m) =
      (f.segments stream).filter fun g => g.decidedAt < m := by
  rcases Nat.eq_zero_or_pos m with rfl | hpos
  · have hnone (l : List Segment) : l.filter (fun g => g.decidedAt < 0) = [] :=
      List.filter_eq_nil_iff.mpr fun g _ => by simp
    rw [hnone, hnone]
  · obtain ⟨late, happend, hearly, hlate⟩ :=
      f.boundaries_eq_append (show m ≤ (bytesOf stream).length by simpa [bytesOf] using hm)
    have hfirst : timingAt (stream.take m) 0 = timingAt stream 0 := by
      rw [timingAt, timingAt, List.getElem?_take_of_lt hpos]
    have hbytes : bytesOf (stream.take m) = (bytesOf stream).take m := List.map_take
    rw [segments, segments, happend, hfirst, hbytes,
      filter_segmentsFrom_take hm hearly hlate]

end NalFormat

end TransportStream
