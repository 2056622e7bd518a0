import Mathlib.Data.List.TakeDrop
import TransportStream.Frame.AccessUnits
import TransportStream.Proofs.AccessUnitSegments

/-!
# The splitter gives the access units of the whole stream

A splitter gets its stream in pieces, and has to keep what it cannot judge yet for the next piece.
Nothing of that shows in the frames: they are the segments of the whole stream, wherever the pieces
were cut.

The bridge is a walk that has the whole stream before it, `Walk.overTimed`.  It takes the timestamps
of a new access unit from the stream itself, where the splitter takes those of the piece at hand.

* `Walk.overTimed_append`: it makes no difference for the walk where the stream is cut.
* `Walk.over_eq_overTimed`: with one piece at hand, it is the walk of the splitter.
* `Walk.overTimed_segments`: from a position on, it closes the segments from there on.
* `VideoSplitter.pushAll_segments`: the frames of each piece, and those of the whole stream.
-/

namespace TransportStream

namespace VideoSplitter

/-- The frame in a segment, if there is one. -/
def framesOf (s : VideoSplitter) (g : Segment) : List Frame :=
  s.frameOf g.bytes g.timing

/-- Goes over a stream whose bytes have timestamps of their own, up to where it cannot be judged,
and gives what is left. -/
def Walk.overTimed (s : VideoSplitter) (w : Walk) : List TimedByte → Walk × List TimedByte
  | a :: b :: c :: rest =>
    if a.value = 0 ∧ b.value = 0 ∧ c.value = 1 then
      match s.format.unit? (bytesOf rest) with
      | none => (w, a :: b :: c :: rest)
      | some u =>
        Walk.overTimed s (w.passCode s (NalFormat.timingAt rest s.format.headerLength) u) rest
    else Walk.overTimed s (w.pass a.value) (b :: c :: rest)
  | short => (w, short)

end VideoSplitter

namespace NalFormat

variable {f : NalFormat}

/-- A unit can be read once its header and one more byte are there. -/
theorem unit?_eq_none_iff {bytes : Bytes} :
    f.unit? bytes = none ↔ bytes.length ≤ f.headerLength := by
  have hpos := f.headerLength_pos
  unfold unit?
  cases bytes with
  | nil => simp
  | cons header rest =>
    rw [List.head?_cons]
    cases hfirst : (header :: rest)[f.headerLength]? with
    | none => simpa using hfirst
    | some first =>
      have := (List.getElem?_eq_some_iff.mp hfirst).1
      simp only [reduceCtorEq, false_iff]
      omega

theorem headerLength_lt_of_unit? {bytes : Bytes} {u : NalUnit} (h : f.unit? bytes = some u) :
    f.headerLength < bytes.length := by
  rw [← Nat.not_le, ← unit?_eq_none_iff, h]
  simp

/-- What is read of a unit does not change when more bytes arrive. -/
theorem unit?_append {bytes : Bytes} {u : NalUnit} (h : f.unit? bytes = some u) (more : Bytes) :
    f.unit? (bytes ++ more) = some u := by
  have hlength := headerLength_lt_of_unit? h
  rw [← h, unit?, unit?, List.getElem?_append_left hlength]
  cases bytes with
  | nil => simp at hlength
  | cons header rest => rfl

end NalFormat

namespace VideoSplitter.Walk

variable {s : VideoSplitter}

/-- **Cuts do not matter.**  A walk over a first part of a stream, and then over what is left of it
with the rest of the stream behind, is a walk over the whole. -/
theorem overTimed_append (w : Walk) (xs ys : List TimedByte) :
    overTimed s w (xs ++ ys) = overTimed s (overTimed s w xs).1 ((overTimed s w xs).2 ++ ys) := by
  fun_induction overTimed s w xs with
  | case1 => rfl
  | case2 w a b c rest hcode u hu ih =>
    have hlength : s.format.headerLength < rest.length := by
      simpa [bytesOf] using NalFormat.headerLength_lt_of_unit? hu
    have hmore : s.format.unit? (bytesOf (rest ++ ys)) = some u := by
      rw [bytesOf, List.map_append]
      exact NalFormat.unit?_append hu _
    have htiming : NalFormat.timingAt (rest ++ ys) s.format.headerLength =
        NalFormat.timingAt rest s.format.headerLength := by
      rw [NalFormat.timingAt, NalFormat.timingAt, List.getElem?_append_left hlength]
    rw [← ih, List.cons_append, List.cons_append, List.cons_append, overTimed, if_pos hcode, hmore]
    dsimp only
    rw [htiming]
  | case3 w a b c rest hcode ih =>
    rw [← ih, List.cons_append, List.cons_append, List.cons_append, overTimed, if_neg hcode]
  | case4 => rfl

/-- What cannot be judged is short. -/
theorem length_overTimed_le (w : Walk) (xs : List TimedByte) :
    (overTimed s w xs).2.length ≤ 3 + s.format.headerLength := by
  have hpos := s.format.headerLength_pos
  fun_induction overTimed s w xs with
  | case1 w a b c rest hcode hu =>
    have := NalFormat.unit?_eq_none_iff.mp hu
    simp only [bytesOf, List.length_map, List.length_cons] at this ⊢
    omega
  | case2 w a b c rest hcode u hu ih => exact ih
  | case3 w a b c rest hcode ih => exact ih
  | case4 w short hshort =>
    dsimp only
    rcases short with _ | ⟨a, _ | ⟨b, _ | ⟨c, rest⟩⟩⟩
    · simp
    · simp only [List.length_cons, List.length_nil]
      omega
    · simp only [List.length_cons, List.length_nil]
      omega
    · exact absurd rfl (hshort a b c rest)

/-- The walk of the splitter, when all bytes that can decide about a unit arrived together. -/
theorem over_eq_overTimed (w : Walk) (xs : List TimedByte) (timing : Timing)
    (h : ∀ x ∈ xs.drop (3 + s.format.headerLength), x.timing = timing) :
    Walk.over s timing w (bytesOf xs) = ((overTimed s w xs).1, bytesOf (overTimed s w xs).2) := by
  fun_induction overTimed s w xs with
  | case1 w a b c rest hcode hu =>
    simp only [bytesOf, List.map_cons] at hu ⊢
    rw [Walk.over, if_pos hcode, hu]
  | case2 w a b c rest hcode u hu ih =>
    have hlength : s.format.headerLength < rest.length := by
      simpa [bytesOf] using NalFormat.headerLength_lt_of_unit? hu
    have hdrop : (a :: b :: c :: rest).drop (3 + s.format.headerLength) =
        rest.drop s.format.headerLength := by
      rw [Nat.add_comm]
      rfl
    rw [hdrop] at h
    have htiming : NalFormat.timingAt rest s.format.headerLength = timing := by
      rw [NalFormat.timingAt, List.getElem?_eq_getElem hlength]
      refine h _ ?_
      rw [List.drop_eq_getElem_cons hlength]
      exact List.mem_cons_self
    rw [← ih fun x hx => h x ((List.drop_sublist_drop_left _ (by omega)).subset hx), htiming]
    simp only [bytesOf, List.map_cons] at hu ⊢
    rw [Walk.over, if_pos hcode, hu]
  | case3 w a b c rest hcode ih =>
    have hrest : ∀ x ∈ (b :: c :: rest).drop (3 + s.format.headerLength), x.timing = timing := by
      intro x hx
      rw [← List.drop_succ_cons] at hx
      exact h x ((List.drop_sublist_drop_left _ (Nat.le_succ _)).subset hx)
    rw [← ih hrest]
    simp only [bytesOf, List.map_cons]
    rw [Walk.over, if_neg hcode]
  | case4 w short hshort =>
    rcases short with _ | ⟨a, _ | ⟨b, _ | ⟨c, rest⟩⟩⟩
    · rfl
    · rfl
    · rfl
    · exact absurd rfl (hshort a b c rest)

/-! ## Positions -/

/-- The walk stands at a position of a stream, and the current access unit starts at another. -/
structure At (w : Walk) (data : Bytes) (i start : Nat) : Prop where
  /-- The position is not behind the end. -/
  le_length : i ≤ data.length
  /-- The access unit does not start behind the position. -/
  start_le : start ≤ i
  /-- What has been passed. -/
  reverse_behind : w.behind.reverse = (data.take i).drop start

theorem drop_eq_append (data : Bytes) {i start : Nat} (h : start ≤ i) :
    data.drop start = (data.take i).drop start ++ data.drop i := by
  obtain ⟨n, rfl⟩ := Nat.exists_eq_add_of_le h
  rw [List.drop_take, Nat.add_sub_cancel_left, List.drop_take_append_drop]

/-- One step further. -/
theorem At.advance {w : Walk} {data : Bytes} {i start : Nat} (h : w.At data i start)
    (passed : Bytes) {rest : Bytes} (hdrop : data.drop i = passed ++ rest) {w' : Walk}
    (hbehind : w'.behind = passed.reverse ++ w.behind) :
    w'.At data (i + passed.length) start := by
  have hlength : data.length - i = passed.length + rest.length := by
    rw [← List.length_drop, hdrop, List.length_append]
  have := h.le_length
  have := h.start_le
  have htake : data.take (i + passed.length) = data.take i ++ passed := by
    rw [List.take_add, hdrop, List.take_left]
  refine ⟨by omega, by omega, ?_⟩
  rw [hbehind, List.reverse_append, List.reverse_reverse, h.reverse_behind, htake,
    List.drop_append_of_le_length (by rw [List.length_take]; omega)]

/-- What is cut off reaches from the start of the access unit to the cut, and what is kept from the
cut to the position. -/
theorem At.splitAtCode {w : Walk} {data : Bytes} {i start : Nat} (h : w.At data i start)
    (hlt : i = 0 ∨ start < i) :
    start ≤ NalFormat.cutAt data i ∧
      (splitAtCode w.behind).1.reverse = (data.take (NalFormat.cutAt data i)).drop start ∧
      (splitAtCode w.behind).2.reverse = (data.take i).drop (NalFormat.cutAt data i) := by
  obtain ⟨hlength, hle, hbehind⟩ := h
  rcases hlt with rfl | hlt
  · have : w.behind = [] := by simpa using hbehind
    have : start = 0 := by omega
    simp_all [VideoSplitter.splitAtCode, NalFormat.cutAt]
  · obtain ⟨j, rfl⟩ : ∃ j, i = j + 1 := ⟨i - 1, by omega⟩
    have hj : j < data.length := by omega
    have htake : (data.take (j + 1)).drop start = (data.take j).drop start ++ [data[j]] := by
      rw [List.take_add_one, List.getElem?_eq_getElem hj, Option.toList_some,
        List.drop_append_of_le_length (by rw [List.length_take]; omega)]
    have hbehind' : w.behind = data[j] :: ((data.take j).drop start).reverse := by
      rw [← List.reverse_reverse w.behind, hbehind, htake, List.reverse_append]
      rfl
    rw [hbehind', VideoSplitter.splitAtCode, NalFormat.cutAt, Nat.add_sub_cancel,
      List.getElem?_eq_getElem hj]
    by_cases hzero : data[j] = 0
    · rw [if_pos hzero, if_pos ⟨by omega, by rw [hzero]⟩]
      refine ⟨by omega, List.reverse_reverse _, ?_⟩
      rw [List.take_add_one, List.getElem?_eq_getElem hj, Option.toList_some,
        List.drop_append_of_le_length (by rw [List.length_take]; omega), List.drop_take_self, hzero]
      rfl
    · rw [if_neg hzero, if_neg fun hand => hzero (Option.some.inj hand.2)]
      refine ⟨by omega, ?_, ?_⟩
      · rw [List.reverse_cons, List.reverse_reverse, htake]
      · rw [List.drop_take_self]
        rfl

end VideoSplitter.Walk

namespace NalFormat

variable {f : NalFormat}

/-- What the definitions by positions say of a unit that can be read. -/
theorem of_unit? {data : Bytes} {p : Nat} {u : NalUnit}
    (h : f.unit? (data.drop (p + 3)) = some u) :
    f.isVclAt data p = (u.kind == .vcl) ∧
      ∀ seenVcl, u.startsAccessUnit seenVcl = (seenVcl && f.opensAt data p) := by
  have hlength := headerLength_lt_of_unit? h
  rw [List.length_drop] at hlength
  have hheader : data[p + 3]? = some data[p + 3] := List.getElem?_eq_getElem (by omega)
  have hfirst : data[p + 3 + f.headerLength]? = some data[p + 3 + f.headerLength] :=
    List.getElem?_eq_getElem (by omega)
  rw [unit?, List.head?_drop, List.getElem?_drop, hheader, hfirst] at h
  cases h
  refine ⟨?_, fun seenVcl => ?_⟩
  · rw [isVclAt, hheader]
    rfl
  · rw [opensAt, hheader, hfirst]
    rfl

/-- A unit behind a `00 00 01` can be read where the code can be judged. -/
theorem isCode_of_drop_eq {data rest : Bytes} {p : Nat} {a b c : UInt8}
    (h : data.drop p = a :: b :: c :: rest) :
    f.isCode data p = (decide (a = 0 ∧ b = 0 ∧ c = 1) && (f.unit? rest).isSome) := by
  have hlength : data.length - p = rest.length + 3 := by
    rw [← List.length_drop, h]
    rfl
  have hat (j : Nat) : data[p + j]? = (a :: b :: c :: rest)[j]? := by
    rw [← h, List.getElem?_drop]
  have h₀ : data[p]? = some a := hat 0
  have h₁ : data[p + 1]? = some b := hat 1
  have h₂ : data[p + 2]? = some c := hat 2
  have hunit : (f.unit? rest).isSome = decide (p + 3 + f.headerLength < data.length) := by
    rw [Bool.eq_iff_iff, Option.isSome_iff_ne_none, ne_eq, unit?_eq_none_iff, decide_eq_true_iff]
    omega
  rw [Bool.eq_iff_iff, isCode_iff, h₀, h₁, h₂, hunit]
  simp [and_assoc]

end NalFormat

namespace VideoSplitter.Walk

variable {s : VideoSplitter}

/-- The splitter cuts where the definition by positions does. -/
theorem At.cut {w : Walk} {data : Bytes} {i start : Nat} (h : w.At data i start)
    (hlt : i = 0 ∨ start < i) (timing : Timing) :
    (w.cut s timing).At data i (NalFormat.cutAt data i) ∧
      (w.cut s timing).frames.reverse = w.frames.reverse ++
        s.frameOf ((data.take (NalFormat.cutAt data i)).drop start) w.timing := by
  obtain ⟨-, hbefore, hzero⟩ := h.splitAtCode hlt
  refine ⟨⟨h.le_length, NalFormat.cutAt_le data i, hzero⟩, ?_⟩
  rw [← hbefore]
  simp [Walk.cut]

theorem passCode_of_starts {w : Walk} (timing : Timing) {u : NalUnit}
    (h : u.startsAccessUnit w.seenVcl = true) :
    (w.passCode s timing u).behind = [0, 0, 1].reverse ++ (w.cut s timing).behind ∧
      (w.passCode s timing u).timing = timing ∧
      (w.passCode s timing u).seenVcl = (u.kind == .vcl) ∧
      (w.passCode s timing u).frames = (w.cut s timing).frames := by
  rw [passCode, if_pos h]
  exact ⟨rfl, rfl, rfl, rfl⟩

theorem passCode_of_not_starts {w : Walk} (timing : Timing) {u : NalUnit}
    (h : u.startsAccessUnit w.seenVcl = false) :
    (w.passCode s timing u).behind = [0, 0, 1].reverse ++ w.behind ∧
      (w.passCode s timing u).timing = w.timing ∧
      (w.passCode s timing u).seenVcl = (w.seenVcl || u.kind == .vcl) ∧
      (w.passCode s timing u).frames = w.frames := by
  rw [passCode, if_neg (by simp [h])]
  exact ⟨rfl, rfl, rfl, rfl⟩

/-- A walk that ends with the given result has closed all of the given segments but the last one,
which it has at hand; `frames` are those from before, the last one first. -/
def Closes (s : VideoSplitter) (frames : List Frame) (segments : List Segment)
    (result : Walk × List TimedByte) (length : Nat) : Prop :=
  ∃ closed,
    segments = closed ++ [{
      bytes := result.1.behind.reverse ++ bytesOf result.2
      timing := result.1.timing
      decidedAt := length }] ∧
    result.1.frames.reverse = frames.reverse ++ closed.flatMap s.framesOf

/-- One more segment is closed if its frames are handed out first. -/
theorem Closes.cons {frames before : List Frame} {segments : List Segment}
    {result : Walk × List TimedByte} {length : Nat} (h : Closes s frames segments result length)
    {g : Segment} (hg : frames.reverse = before.reverse ++ s.framesOf g) :
    Closes s before (g :: segments) result length := by
  obtain ⟨closed, rfl, hclosed⟩ := h
  refine ⟨g :: closed, rfl, ?_⟩
  rw [hclosed, hg, List.append_assoc, List.flatMap_cons]

/-- A walk ends where no code is left. -/
theorem At.closes_nil {stream : List TimedByte} {w : Walk} {i start : Nat}
    (h : w.At (bytesOf stream) i start) :
    Closes s w.frames (s.format.segmentsFrom stream start w.timing []) (w, stream.drop i)
      stream.length := by
  refine ⟨[], ?_, by simp⟩
  have hdrop : bytesOf (stream.drop i) = (bytesOf stream).drop i := List.map_drop
  rw [NalFormat.segmentsFrom, h.reverse_behind, hdrop, ← drop_eq_append _ h.start_le]
  rfl

/-- **From a position on.**  A walk over the rest of a stream closes the segments from the access
unit at hand on. -/
theorem overTimed_segments {stream : List TimedByte} {w : Walk} {i start : Nat}
    (h : w.At (bytesOf stream) i start) (hlt : i = 0 ∨ start < i) {xs : List TimedByte}
    (hxs : stream.drop i = xs) :
    Closes s w.frames
      (s.format.segmentsFrom stream start w.timing
        (s.format.boundariesAmong (bytesOf stream) w.seenVcl
          (s.format.codesFrom (bytesOf stream) i)))
      (overTimed s w xs) stream.length := by
  have hdrop : (bytesOf stream).drop i = bytesOf xs := by
    rw [← hxs, bytesOf, bytesOf, List.map_drop]
  have hlength : stream.length - i = xs.length := by
    rw [← hxs, List.length_drop]
  have hbytes : (bytesOf stream).length = stream.length := List.length_map _
  fun_induction overTimed s w xs generalizing i start with
  | case1 w a b c rest hcode hu =>
    have := NalFormat.unit?_eq_none_iff.mp hu
    simp only [bytesOf, List.length_map, List.length_cons] at this hlength
    rw [NalFormat.codesFrom_eq_nil (by rw [hbytes]; omega), NalFormat.boundariesAmong, ← hxs]
    exact h.closes_nil
  | case2 w a b c rest hcode u hu ih =>
    obtain ⟨ha, hb, hc⟩ := hcode
    have hcodeAt : s.format.isCode (bytesOf stream) i = true := by
      rw [NalFormat.isCode_of_drop_eq hdrop, decide_eq_true ⟨ha, hb, hc⟩]
      exact (congrArg Option.isSome hu).trans rfl
    have hrest : stream.drop (i + 3) = rest := by
      rw [← List.drop_drop, hxs]
      rfl
    have hrestBytes : (bytesOf stream).drop (i + 3) = bytesOf rest := by
      rw [← hrest, bytesOf, bytesOf, List.map_drop]
    have htiming : NalFormat.timingAt rest s.format.headerLength =
        NalFormat.timingAt stream (i + 3 + s.format.headerLength) := by
      rw [NalFormat.timingAt, NalFormat.timingAt, ← hrest, List.getElem?_drop]
    have hcodeBytes : (bytesOf stream).drop i = [0, 0, 1] ++ bytesOf rest := by
      rw [hdrop, bytesOf, List.map_cons, List.map_cons, List.map_cons, ha, hb, hc]
      rfl
    rw [← hrestBytes] at hu
    obtain ⟨hvcl, hstarts⟩ := NalFormat.of_unit? hu
    rw [NalFormat.codesFrom_of_code hcodeAt, NalFormat.boundariesAmong, ← hstarts, hvcl]
    have hrestLength : stream.length - (i + 3) = rest.length := by
      rw [← hrest, List.length_drop]
    cases hu : u.startsAccessUnit w.seenVcl with
    | true =>
      obtain ⟨hcut, hcutFrames⟩ :=
        h.cut (s := s) hlt (NalFormat.timingAt rest s.format.headerLength)
      obtain ⟨hbehind, htime, hseen, hframes⟩ :=
        passCode_of_starts (s := s) (NalFormat.timingAt rest s.format.headerLength) hu
      have := NalFormat.cutAt_le (bytesOf stream) i
      have hnext := ih (hcut.advance [0, 0, 1] hcodeBytes hbehind) (.inr (by simp; omega))
        hrest hrestBytes hrestLength
      rw [htime, hseen, hframes] at hnext
      rw [if_pos rfl, NalFormat.segmentsFrom, ← htiming]
      exact hnext.cons hcutFrames
    | false =>
      obtain ⟨hbehind, htime, hseen, hframes⟩ :=
        passCode_of_not_starts (s := s) (NalFormat.timingAt rest s.format.headerLength) hu
      have := h.start_le
      have hnext := ih (h.advance [0, 0, 1] hcodeBytes hbehind) (.inr (by simp; omega))
        hrest hrestBytes hrestLength
      rw [htime, hseen, hframes] at hnext
      exact hnext
  | case3 w a b c rest hcode ih =>
    have hcodeAt : s.format.isCode (bytesOf stream) i = false := by
      rw [NalFormat.isCode_of_drop_eq hdrop, decide_eq_false hcode, Bool.false_and]
    rw [NalFormat.codesFrom_of_not_code hcodeAt]
    have hnext : (w.pass a.value).At (bytesOf stream) (i + 1) start :=
      h.advance [a.value] hdrop rfl
    have hrest : stream.drop (i + 1) = b :: c :: rest := by
      rw [← List.drop_drop, hxs]
      rfl
    have := h.start_le
    refine ih hnext (.inr (by omega)) hrest ?_ ?_
    · rw [← hrest, bytesOf, bytesOf, List.map_drop]
    · rw [← hrest, List.length_drop]
  | case4 w short hshort =>
    have hlt : short.length < 3 := by
      rcases short with _ | ⟨a, _ | ⟨b, _ | ⟨c, rest⟩⟩⟩
      · simp
      · simp
      · simp
      · exact absurd rfl (hshort a b c rest)
    rw [NalFormat.codesFrom_eq_nil (by rw [hbytes]; omega), NalFormat.boundariesAmong, ← hxs]
    exact h.closes_nil

/-! ## What a walk depends on -/

theorem passCode_behind_ne_nil (w : Walk) (timing : Timing) (u : NalUnit) :
    (w.passCode s timing u).behind ≠ [] := by
  rw [passCode]
  exact List.cons_ne_nil _ _

/-- Bytes that are there do not get lost: some are at hand, or left. -/
theorem overTimed_ne_nil {w : Walk} {xs : List TimedByte} (h : w.behind ≠ [] ∨ xs ≠ []) :
    (overTimed s w xs).1.behind ≠ [] ∨ (overTimed s w xs).2 ≠ [] := by
  fun_induction overTimed s w xs with
  | case1 w a b c rest => exact .inr (List.cons_ne_nil _ _)
  | case2 w a b c rest hcode u hu ih => exact ih (.inl (passCode_behind_ne_nil w _ u))
  | case3 w a b c rest hcode ih => exact ih (.inl (List.cons_ne_nil _ _))
  | case4 w short => exact h

/-- The walk with some more frames from before. -/
def withOlder (w : Walk) (older : List Frame) : Walk :=
  { w with frames := w.frames ++ older }

theorem passCode_withOlder (w : Walk) (older : List Frame) (timing : Timing) (u : NalUnit) :
    (w.withOlder older).passCode s timing u = (w.passCode s timing u).withOlder older := by
  rw [passCode, passCode]
  cases h : u.startsAccessUnit w.seenVcl with
  | true => simp [withOlder, h, Walk.cut]
  | false => simp [withOlder, h]

/-- Frames from before do not matter. -/
theorem overTimed_withOlder (w : Walk) (older : List Frame) (xs : List TimedByte) :
    overTimed s (w.withOlder older) xs =
      ((overTimed s w xs).1.withOlder older, (overTimed s w xs).2) := by
  fun_induction overTimed s w xs with
  | case1 w a b c rest hcode hu =>
    rw [overTimed, if_pos hcode, hu]
  | case2 w a b c rest hcode u hu ih =>
    rw [← ih, ← passCode_withOlder, overTimed, if_pos hcode, hu]
  | case3 w a b c rest hcode ih =>
    rw [← ih, overTimed, if_neg hcode]
    rfl
  | case4 w short hshort =>
    rw [overTimed.eq_2 _ _ _ hshort]

end VideoSplitter.Walk

namespace VideoSplitter

/-- Two splitters are for the same stream. -/
structure SameStream (s s' : VideoSplitter) : Prop where
  /-- The PID. -/
  pid : s'.pid = s.pid
  /-- The codec. -/
  codec : s'.codec = s.codec
  /-- The format. -/
  format : s'.format = s.format

theorem SameStream.frameOf {s s' : VideoSplitter} (h : SameStream s s') :
    s'.frameOf = s.frameOf := by
  funext unit timing
  rw [VideoSplitter.frameOf, VideoSplitter.frameOf, h.pid, h.codec, h.format]

theorem SameStream.overTimed {s s' : VideoSplitter} (h : SameStream s s') (w : Walk)
    (xs : List TimedByte) : Walk.overTimed s' w xs = Walk.overTimed s w xs := by
  have hpass (w : Walk) (timing : Timing) (u : NalUnit) :
      w.passCode s' timing u = w.passCode s timing u := by
    rw [Walk.passCode, Walk.passCode, Walk.cut, Walk.cut, h.frameOf]
  fun_induction Walk.overTimed s w xs with
  | case1 w a b c rest hcode hu =>
    rw [Walk.overTimed, if_pos hcode, h.format, hu]
  | case2 w a b c rest hcode u hu ih =>
    rw [← ih, ← hpass, Walk.overTimed, if_pos hcode, h.format, hu]
  | case3 w a b c rest hcode ih =>
    rw [← ih, Walk.overTimed, if_neg hcode]
  | case4 w short hshort =>
    rw [Walk.overTimed.eq_2 _ _ _ hshort]

/-! ## Runs -/

/-- The splitter is new, or was flushed: no data is waiting. -/
structure IsFresh (s : VideoSplitter) : Prop where
  /-- Nothing has been gone over. -/
  behind : s.behind = []
  /-- Nothing is left. -/
  ahead : s.ahead = []
  /-- No coded picture data has been seen. -/
  seenVcl : s.seenVcl = false

/-- A new splitter is fresh. -/
theorem isFresh_new (pid : Pid) (codec : Codec) (format : NalFormat) :
    IsFresh { pid, codec, format } :=
  ⟨rfl, rfl, rfl⟩

/-- Adds pieces one after the other, and gives the frames that each of them completes. -/
def pushAll (s : VideoSplitter) : List (Bytes × Timing) → VideoSplitter × List (List Frame)
  | [] => (s, [])
  | piece :: pieces =>
    let (s, frames) := s.push piece.1 piece.2
    let (s, later) := s.pushAll pieces
    (s, frames :: later)

/-- A walk over the whole of a stream. -/
def oneShot (s : VideoSplitter) (stream : List TimedByte) : Walk × List TimedByte :=
  Walk.overTimed s {
    behind := []
    timing := NalFormat.timingAt stream 0
    seenVcl := false } stream

/-- After a fresh splitter was given a stream, it is where a walk over the whole ends. -/
structure Follows (fresh s : VideoSplitter) (stream : List TimedByte) : Prop where
  /-- It is still for the same stream. -/
  same : SameStream fresh s
  /-- What it has gone over. -/
  behind : s.behind = (fresh.oneShot stream).1.behind
  /-- What is left. -/
  ahead : s.ahead = bytesOf (fresh.oneShot stream).2
  /-- Coded picture data has been seen or not. -/
  seenVcl : s.seenVcl = (fresh.oneShot stream).1.seenVcl
  /-- The timestamps of the access unit at hand, unless the stream has not begun. -/
  pending : stream ≠ [] → s.pending = (fresh.oneShot stream).1.timing

theorem IsFresh.follows {s : VideoSplitter} (h : s.IsFresh) : Follows s s [] :=
  ⟨⟨rfl, rfl, rfl⟩, h.behind, h.ahead, h.seenVcl, fun hne => absurd rfl hne⟩

/-- The frames of the segments that the bytes from position `m` up to position `n` decide. -/
def framesBetween (s : VideoSplitter) (segments : List Segment) (m n : Nat) : List Frame :=
  (segments.filter fun g => decide (m ≤ g.decidedAt) && decide (g.decidedAt < n)).flatMap s.framesOf

/-- What a walk over a whole stream finds are the segments of the stream. -/
theorem oneShot_closes (s : VideoSplitter) (stream : List TimedByte) :
    Walk.Closes s [] (s.format.segments stream) (s.oneShot stream) stream.length := by
  have hat : Walk.At {
      behind := []
      timing := NalFormat.timingAt stream 0
      seenVcl := false } (bytesOf stream) 0 0 := ⟨Nat.zero_le _, Nat.le_refl _, rfl⟩
  rw [NalFormat.segments, NalFormat.boundaries, NalFormat.codes_eq_codesFrom]
  exact Walk.overTimed_segments hat (.inl rfl) rfl

/-- The walk closed the segments that are decided within the stream, and has the other one at
hand. -/
theorem filter_oneShot (s : VideoSplitter) (stream : List TimedByte) :
    (s.oneShot stream).1.frames.reverse =
        s.framesBetween (s.format.segments stream) 0 stream.length ∧
      (s.format.segments stream).filter (fun g => stream.length ≤ g.decidedAt) = [{
        bytes := (s.oneShot stream).1.behind.reverse ++ bytesOf (s.oneShot stream).2
        timing := (s.oneShot stream).1.timing
        decidedAt := stream.length }] := by
  obtain ⟨closed, hsegments, hframes⟩ := s.oneShot_closes stream
  have hpairwise := s.format.pairwise_segments stream
  rw [hsegments, List.pairwise_append] at hpairwise
  have hclosed : ∀ g ∈ closed, g.decidedAt < stream.length := fun g hg =>
    hpairwise.2.2 g hg _ (List.mem_singleton.mpr rfl)
  rw [framesBetween, hsegments, List.filter_append, List.filter_append]
  constructor
  · rw [hframes, List.filter_eq_self.mpr fun g hg => by simpa using hclosed g hg]
    simp
  · rw [List.filter_eq_nil_iff.mpr fun g hg => by simpa using hclosed g hg]
    simp

/-- No data is waiting exactly if no byte has arrived. -/
theorem Follows.isEmpty_buffer {fresh s : VideoSplitter} {stream : List TimedByte}
    (h : Follows fresh s stream) : s.buffer.isEmpty = true ↔ stream = [] := by
  have hbuffer : s.buffer.isEmpty = true ↔
      (fresh.oneShot stream).1.behind = [] ∧ (fresh.oneShot stream).2 = [] := by
    rw [FrameBuffer.isEmpty, buffer, h.ahead, h.behind, bytesOf]
    simp [and_comm]
  rw [hbuffer]
  constructor
  · intro hempty
    refine Classical.byContradiction ?_
    intro hne
    rcases Walk.overTimed_ne_nil (s := fresh) (.inr hne) with hbehind | hleft
    · exact hbehind hempty.1
    · exact hleft hempty.2
  · rintro rfl
    exact ⟨rfl, rfl⟩

/-- The walk of the splitter over one more piece. -/
def nextWalk (s : VideoSplitter) (timing : Timing) : Walk where
  behind := s.behind
  timing := if s.buffer.isEmpty then timing else s.pending
  seenVcl := s.seenVcl

/-- The walk over one more piece continues the walk over the whole. -/
theorem Follows.oneShot_append {fresh s : VideoSplitter} {stream : List TimedByte}
    (h : Follows fresh s stream) {data : Bytes} (timing : Timing)
    (hdata : stream ≠ [] ∨ data ≠ []) :
    fresh.oneShot (stream ++ timed data timing) =
      ((Walk.overTimed fresh (s.nextWalk timing)
          ((fresh.oneShot stream).2 ++ timed data timing)).1.withOlder
            (fresh.oneShot stream).1.frames,
        (Walk.overTimed fresh (s.nextWalk timing)
          ((fresh.oneShot stream).2 ++ timed data timing)).2) := by
  rw [← Walk.overTimed_withOlder]
  by_cases hstream : stream = []
  · subst hstream
    have hnew : data ≠ [] := hdata.resolve_left fun hne => hne rfl
    have hfirst : NalFormat.timingAt (timed data timing) 0 = timing := by
      rcases List.exists_cons_of_ne_nil hnew with ⟨b, rest, rfl⟩
      rfl
    have hbehind : s.behind = [] := h.behind
    have hseen : s.seenVcl = false := h.seenVcl
    rw [List.nil_append, oneShot, hfirst, nextWalk, if_pos (h.isEmpty_buffer.mpr rfl), hbehind,
      hseen]
    rfl
  · have hempty : ¬ s.buffer.isEmpty = true := fun hempty => hstream (h.isEmpty_buffer.mp hempty)
    have hfirst : NalFormat.timingAt (stream ++ timed data timing) 0 =
        NalFormat.timingAt stream 0 := by
      rw [NalFormat.timingAt, NalFormat.timingAt,
        List.getElem?_append_left (List.length_pos_iff.mpr hstream)]
    have hwalk : (s.nextWalk timing).withOlder (fresh.oneShot stream).1.frames =
        (fresh.oneShot stream).1 := by
      rw [nextWalk, if_neg hempty, h.pending hstream, h.behind, h.seenVcl]
      rfl
    rw [hwalk, oneShot, hfirst, Walk.overTimed_append]
    rfl

/-- What the splitter finds in one more piece. -/
theorem Follows.push_eq {fresh s : VideoSplitter} {stream : List TimedByte}
    (h : Follows fresh s stream) (data : Bytes) (timing : Timing) :
    let r := Walk.overTimed fresh (s.nextWalk timing)
      ((fresh.oneShot stream).2 ++ timed data timing)
    s.push data timing =
      ({ s with
          behind := r.1.behind
          ahead := bytesOf r.2
          pending := r.1.timing
          seenVcl := r.1.seenVcl },
        r.1.frames.reverse) := by
  have hbytes : s.ahead ++ data = bytesOf ((fresh.oneShot stream).2 ++ timed data timing) := by
    rw [h.ahead, bytesOf, bytesOf, List.map_append, timed, List.map_map]
    exact congrArg _ (List.map_id' data).symm
  have hlate : ∀ x ∈ ((fresh.oneShot stream).2 ++ timed data timing).drop
      (3 + s.format.headerLength), x.timing = timing := by
    intro x hx
    have hle : (fresh.oneShot stream).2.length ≤ 3 + s.format.headerLength := by
      rw [h.same.format]
      exact Walk.length_overTimed_le _ _
    rw [List.drop_append, List.drop_eq_nil_of_le hle, List.nil_append] at hx
    obtain ⟨b, -, rfl⟩ := List.mem_map.mp ((List.drop_sublist _ _).subset hx)
    rfl
  have hover := Walk.over_eq_overTimed (s := s) (s.nextWalk timing) _ timing hlate
  rw [← hbytes, h.same.overTimed] at hover
  rw [push]
  unfold nextWalk at hover ⊢
  rw [hover]

theorem framesBetween_self (s : VideoSplitter) (segments : List Segment) (m : Nat) :
    s.framesBetween segments m m = [] := by
  rw [framesBetween, List.filter_eq_nil_iff.mpr fun g _ => by simp]
  rfl

theorem framesBetween_append (s : VideoSplitter) {segments : List Segment}
    (h : segments.Pairwise fun g g' => g.decidedAt < g'.decidedAt) {m n k : Nat} (hmn : m ≤ n)
    (hnk : n ≤ k) :
    s.framesBetween segments m k =
      s.framesBetween segments m n ++ s.framesBetween segments n k := by
  have hsplit := eq_filter_append_filter (fun g : Segment => g.decidedAt)
    (h.filter fun g => decide (m ≤ g.decidedAt) && decide (g.decidedAt < k)) n
  rw [List.filter_filter, List.filter_filter] at hsplit
  rw [framesBetween, framesBetween, framesBetween, hsplit, List.flatMap_append]
  congr 2
  · refine List.filter_congr ?_
    intro g _
    rw [Bool.eq_iff_iff]
    simp only [Bool.and_eq_true, decide_eq_true_iff]
    omega
  · refine List.filter_congr ?_
    intro g _
    rw [Bool.eq_iff_iff]
    simp only [Bool.and_eq_true, decide_eq_true_iff]
    omega

/-- The frames decided in a part of a stream. -/
theorem framesBetween_take (s : VideoSplitter) (stream later : List TimedByte) :
    s.framesBetween (s.format.segments stream) 0 stream.length =
      s.framesBetween (s.format.segments (stream ++ later)) 0 stream.length := by
  have hle : stream.length ≤ (stream ++ later).length := (List.prefix_append _ _).length_le
  have htake := s.format.filter_segments_take hle
  rw [List.take_left] at htake
  simp only [framesBetween, Nat.zero_le, decide_true, Bool.true_and]
  rw [htake]

/-- **One piece.**  The splitter follows the longer stream, and the frames are those of the segments
that the piece decides. -/
theorem Follows.push {fresh s : VideoSplitter} {stream : List TimedByte}
    (h : Follows fresh s stream) (data : Bytes) (timing : Timing) (later : List TimedByte) :
    Follows fresh (s.push data timing).1 (stream ++ timed data timing) ∧
      (s.push data timing).2 =
        fresh.framesBetween (fresh.format.segments (stream ++ timed data timing ++ later))
          stream.length (stream ++ timed data timing).length := by
  by_cases hdata : stream ≠ [] ∨ data ≠ []
  · have hshot := h.oneShot_append timing hdata
    rw [h.push_eq data timing]
    refine ⟨⟨⟨h.same.pid, h.same.codec, h.same.format⟩, ?_, ?_, ?_, fun _ => ?_⟩, ?_⟩
    · rw [hshot]
      rfl
    · rw [hshot]
    · rw [hshot]
      rfl
    · rw [hshot]
      rfl
    · have hle : stream.length ≤ (stream ++ timed data timing).length :=
        (List.prefix_append _ _).length_le
      have hold := (fresh.filter_oneShot stream).1
      have hnew := (fresh.filter_oneShot (stream ++ timed data timing)).1
      rw [framesBetween_take fresh _ (timed data timing ++ later), ← List.append_assoc] at hold
      rw [framesBetween_take fresh _ later, hshot, Walk.withOlder, List.reverse_append, hold,
        framesBetween_append fresh (fresh.format.pairwise_segments _) (Nat.zero_le stream.length)
          hle] at hnew
      exact List.append_cancel_left hnew
  · obtain ⟨rfl, rfl⟩ : stream = [] ∧ data = [] := by simpa using hdata
    refine ⟨⟨⟨h.same.pid, h.same.codec, h.same.format⟩, ?_, ?_, ?_, fun hne => absurd rfl hne⟩, ?_⟩
    · rw [h.push_eq [] timing]
      exact h.behind
    · rw [h.push_eq [] timing]
      rfl
    · rw [h.push_eq [] timing]
      exact h.seenVcl
    · rw [h.push_eq [] timing]
      exact (framesBetween_self _ _ _).symm

/-- **A run.**  Each piece completes the frames of the segments that it decides. -/
theorem Follows.pushAll {fresh s : VideoSplitter} {before : List TimedByte}
    (h : Follows fresh s before) (pieces : List (Bytes × Timing)) :
    Follows fresh (s.pushAll pieces).1 (before ++ timedBytes pieces) ∧
      (s.pushAll pieces).2.length = pieces.length ∧
      (∀ i, i < pieces.length → (s.pushAll pieces).2[i]? =
        some (fresh.framesBetween (fresh.format.segments (before ++ timedBytes pieces))
          (before ++ timedBytes (pieces.take i)).length
          (before ++ timedBytes (pieces.take (i + 1))).length)) ∧
      (s.pushAll pieces).2.flatten =
        fresh.framesBetween (fresh.format.segments (before ++ timedBytes pieces))
          before.length (before ++ timedBytes pieces).length := by
  induction pieces generalizing s before with
  | nil =>
    have hnil : before ++ timedBytes [] = before := List.append_nil before
    refine ⟨by rwa [hnil], rfl, fun i hi => absurd hi (Nat.not_lt_zero i), ?_⟩
    rw [hnil, framesBetween_self]
    rfl
  | cons piece pieces ih =>
    obtain ⟨hpush, hframes⟩ := h.push piece.1 piece.2 (timedBytes pieces)
    obtain ⟨hfollows, hlength, heach, hflatten⟩ := ih hpush
    have hcons (ps : List (Bytes × Timing)) : before ++ timedBytes (piece :: ps) =
        before ++ timed piece.1 piece.2 ++ timedBytes ps := by
      rw [timedBytes, List.flatMap_cons, List.append_assoc]
      rfl
    rw [hcons]
    refine ⟨hfollows, congrArg (· + 1) hlength, fun i hi => ?_, ?_⟩
    · cases i with
      | zero =>
        rw [List.take_zero, List.take_succ_cons, List.take_zero, hcons]
        simp only [timedBytes, List.flatMap_nil, List.append_nil]
        exact congrArg some hframes
      | succ i =>
        rw [List.take_succ_cons, List.take_succ_cons, hcons, hcons]
        exact heach i (Nat.lt_of_succ_lt_succ hi)
    · have hle : before.length ≤ (before ++ timed piece.1 piece.2).length :=
        (List.prefix_append _ _).length_le
      have hle' : (before ++ timed piece.1 piece.2).length ≤
          (before ++ timed piece.1 piece.2 ++ timedBytes pieces).length :=
        (List.prefix_append _ _).length_le
      rw [framesBetween_append fresh (fresh.format.pairwise_segments _) hle hle', ← hframes,
        ← hflatten]
      rfl

/-- There are no empty frames. -/
theorem frameOf_nil (s : VideoSplitter) (timing : Timing) : s.frameOf [] timing = [] := by
  have hstrip : s.format.stripLeadingAuds [] = [] := by
    rw [NalFormat.stripLeadingAuds]
    rfl
  rw [frameOf, hstrip]
  rfl

/-- **The end.**  The last segment becomes a frame when the splitter is flushed, and the splitter is
fresh again. -/
theorem Follows.flush {fresh s : VideoSplitter} {stream : List TimedByte}
    (h : Follows fresh s stream) :
    s.flush.1.IsFresh ∧ SameStream fresh s.flush.1 ∧
      s.flush.2 = ((fresh.format.segments stream).filter fun g =>
        stream.length ≤ g.decidedAt).flatMap fresh.framesOf := by
  rw [(fresh.filter_oneShot stream).2, List.flatMap_singleton, framesOf, ← h.ahead, ← h.behind]
  rw [VideoSplitter.flush]
  by_cases hempty : s.buffer.isEmpty = true
  · obtain rfl := h.isEmpty_buffer.mp hempty
    have hbehind : s.behind = [] := h.behind
    have hahead : s.ahead = [] := h.ahead
    rw [if_pos hempty, hbehind, hahead]
    exact ⟨⟨hbehind, hahead, h.seenVcl⟩, h.same, (frameOf_nil fresh _).symm⟩
  · rw [if_neg hempty, h.pending fun hnil => hempty (h.isEmpty_buffer.mpr hnil), h.same.frameOf]
    refine ⟨⟨rfl, rfl, rfl⟩, ⟨h.same.pid, h.same.codec, h.same.format⟩, ?_⟩
    simp [FrameBuffer.payload, buffer]

/-- All frames of a stream, those of the flush included. -/
theorem IsFresh.flatten_pushAll {s : VideoSplitter} (h : s.IsFresh)
    (pieces : List (Bytes × Timing)) :
    (s.pushAll pieces).2.flatten ++ (s.pushAll pieces).1.flush.2 =
      (s.format.segments (timedBytes pieces)).flatMap s.framesOf := by
  obtain ⟨hfollows, -, -, hflatten⟩ := h.follows.pushAll pieces
  have hsplit := eq_filter_append_filter (fun g : Segment => g.decidedAt)
    (s.format.pairwise_segments (timedBytes pieces)) (timedBytes pieces).length
  rw [hflatten, hfollows.flush.2.2, framesBetween]
  simp only [List.nil_append, List.length_nil, Nat.zero_le, decide_true, Bool.true_and]
  rw [← List.flatMap_append]
  exact congrArg _ hsplit.symm

/-- **Pieces do not matter.**  Whatever pieces a stream arrives in, the frames are its segments.
Each segment comes out with the piece that shows its end, and the last one with the flush, after
which the splitter is fresh again. -/
theorem pushAll_segments {s : VideoSplitter} (h : s.IsFresh) (pieces : List (Bytes × Timing)) :
    let stream := timedBytes pieces
    let segments := s.format.segments stream
    let run := s.pushAll pieces
    run.2.flatten ++ run.1.flush.2 = segments.flatMap s.framesOf ∧
      run.2.length = pieces.length ∧
      (∀ i, i < pieces.length → run.2[i]? = some (s.framesBetween segments
        (timedBytes (pieces.take i)).length (timedBytes (pieces.take (i + 1))).length)) ∧
      run.1.flush.2 = (segments.filter fun g => stream.length ≤ g.decidedAt).flatMap s.framesOf ∧
      run.1.flush.1.IsFresh ∧ SameStream s run.1.flush.1 := by
  intro stream segments run
  obtain ⟨hfollows, hlength, heach, -⟩ := h.follows.pushAll pieces
  obtain ⟨hfresh, hsame, hlast⟩ := hfollows.flush
  exact ⟨h.flatten_pushAll pieces, hlength, heach, hlast, hfresh, hsame⟩

/-- A delimiter and two slices, cut within a start code with its zero and in front of the byte that
decides about the second slice. -/
theorem pushAll_segments_cut_code :
    let s : VideoSplitter := { pid := ⟨256, by decide⟩, codec := .h264, format := .h264 }
    let run := s.pushAll [
      ([0, 0, 1, 9, 0xf0, 0, 0, 1, 0x65, 0x88, 0, 0], { pts := some ⟨1, by decide⟩ }),
      ([0], { pts := some ⟨2, by decide⟩ }),
      ([1, 0x41], { pts := some ⟨3, by decide⟩ }),
      ([0x9a, 0xbb], { pts := some ⟨4, by decide⟩ })]
    s.IsFresh ∧
      run.2.flatten ++ run.1.flush.2 = [
        { pid := ⟨256, by decide⟩, codec := .h264, payload := [0, 0, 1, 0x65, 0x88]
          timing := { pts := some ⟨1, by decide⟩ } },
        { pid := ⟨256, by decide⟩, codec := .h264, payload := [0, 0, 0, 1, 0x41, 0x9a, 0xbb]
          timing := { pts := some ⟨4, by decide⟩ } }] ∧
      run.2[3]? = some [
        { pid := ⟨256, by decide⟩, codec := .h264, payload := [0, 0, 1, 0x65, 0x88]
          timing := { pts := some ⟨1, by decide⟩ } }] := by
  intro s run
  have hfresh : s.IsFresh := isFresh_new _ _ _
  obtain ⟨hall, -, heach, -⟩ := pushAll_segments hfresh [
    ([0, 0, 1, 9, 0xf0, 0, 0, 1, 0x65, 0x88, 0, 0], { pts := some ⟨1, by decide⟩ }),
    ([0], { pts := some ⟨2, by decide⟩ }),
    ([1, 0x41], { pts := some ⟨3, by decide⟩ }),
    ([0x9a, 0xbb], { pts := some ⟨4, by decide⟩ })]
  refine ⟨hfresh, hall.trans ?_, (heach 3 (by decide)).trans ?_⟩
  · decide +kernel
  · decide +kernel

end VideoSplitter

end TransportStream
