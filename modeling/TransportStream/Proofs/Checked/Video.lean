import TransportStream.Proofs.Checked.Access
import TransportStream.Proofs.StartCodeSearch
import TransportStream.Proofs.VideoSplitting

/-!
# Access units, by index

The data of a video stream that waits is one byte string.  Two offsets move through it: `scanPos`,
from where the search for start codes goes on, and `auStart`, where the access unit at hand starts.
An access unit is what lies between `auStart` and the start of a start code, so `auStart` must not
be behind it; and in the end all that lies before `auStart` is dropped, so `scanPos` must not be
before it.  Both follow from `auStart` being zero or less than `scanPos`: only what has been passed
since the last cut is cut off (`Stands`).

* `findStartCode_eq`, `stripLeadingAuds_eq`: the search for start codes, and the delimiters.
* `stands_walk`: a walk over the data, and the offsets at its end.
* `push_eq`, `flush_eq`: a piece of data, and the end of the stream.
-/

namespace TransportStream

namespace Checked

namespace Video

/-- The first start code at or after an offset that leaves two more bytes, where one is looked for
at the last of three bytes first. -/
def findFrom (bytes : Bytes) (i : Nat) : Option (Option StartCode) :=
  if i + 2 < bytes.length then do
    let c ← bytes[i + 2]?
    let a ← bytes[i]?
    let b ← bytes[i + 1]?
    if c = 1 ∧ a = 0 ∧ b = 0 then
      if 0 < i then
        let before ← bytes[← sub? i 1]?
        let start ← if before = 0 then sub? i 1 else some i
        return some { start, mark := i }
      else return some { start := i, mark := i }
    else if c = 0 then findFrom bytes (i + 1)
    else findFrom bytes (i + 3)
  else some none
termination_by bytes.length - i

/-- The first start code at or after an offset. -/
def findStartCode (bytes : Bytes) (i : Nat) : Option (Option StartCode) :=
  if bytes.length < 3 then some none
  else do
    let last ← sub? bytes.length 3
    if last < i then return none else findFrom bytes i

theorem search_of_short {bytes : Bytes} {i : Nat} (h : ¬ i + 2 < bytes.length) (afterZero : Bool) :
    StartCode.search afterZero i (bytes.drop i) = none := by
  have hlength : (bytes.drop i).length < 3 := by
    rw [List.length_drop]
    omega
  match bytes.drop i, hlength with
  | [], _ => rfl
  | [_], _ => rfl
  | [_, _], _ => rfl

/-- The search looks at no byte that is not there. -/
theorem findFrom_eq (bytes : Bytes) (i : Nat) :
    findFrom bytes i = some (StartCode.find? bytes i) := by
  rw [findFrom, StartCode.find?]
  by_cases hthree : i + 2 < bytes.length
  · obtain ⟨a, b, c, h₀, h₁, h₂, hdrop⟩ := StartCode.exists_drop_eq hthree
    have hnext := findFrom_eq bytes (i + 1)
    have hskip := findFrom_eq bytes (i + 3)
    rw [StartCode.find?, StartCode.isAfterZero, h₀, ← List.drop_drop, hdrop, List.drop_one] at hnext
    rw [StartCode.find?, StartCode.isAfterZero, h₂] at hskip
    rw [if_pos hthree, h₀, h₁, h₂, hdrop]
    simp only [Option.bind_eq_bind, Option.bind_some, StartCode.search]
    by_cases hcode : c = 1 ∧ a = 0 ∧ b = 0
    · obtain ⟨rfl, rfl, rfl⟩ := hcode
      cases i with
      | zero => rfl
      | succ k =>
        have hk : k < bytes.length := by omega
        rw [sub?_of_le (Nat.le_add_left 1 k)]
        simp only [Nat.add_sub_cancel, Option.bind_some, List.getElem?_eq_getElem hk,
          StartCode.isAfterZero, StartCode.atMark]
        by_cases hbefore : bytes[k] = 0 <;> simp [hbefore]
    · by_cases hzero : c = 0
      · simp [hzero, hnext]
      · have hfalse : (some c == some 0) = false := by simpa using hzero
        rw [hfalse] at hskip
        simp [hcode, hzero, hskip]
  · rw [if_neg hthree, search_of_short hthree]
    rfl
termination_by bytes.length - i

theorem findStartCode_eq (bytes : Bytes) (i : Nat) :
    findStartCode bytes i = some (StartCode.find? bytes i) := by
  unfold findStartCode
  by_cases hshort : bytes.length < 3
  · rw [if_pos hshort, StartCode.find?, search_of_short (by omega)]
    rfl
  · rw [if_neg hshort, sub?_of_le (Nat.not_lt.mp hshort)]
    by_cases hlast : bytes.length - 3 < i
    · rw [StartCode.find?, search_of_short (by omega)]
      simp [hlast]
    · simp [hlast, findFrom_eq]

/-- Where a start code is that was found from an offset on. -/
structure IsFound (bytes : Bytes) (i : Nat) (code : StartCode) : Prop where
  /-- Only a zero byte of it can be before the offset. -/
  le_start : i ≤ code.start + 1
  /-- It starts where its three bytes stand, or a zero byte before. -/
  start_le : code.start ≤ code.mark
  /-- It is there as a whole. -/
  nalStart_le : code.nalStart ≤ bytes.length

theorem isFound_of_findStartCode {bytes : Bytes} {i : Nat} {code : StartCode}
    (h : findStartCode bytes i = some (some code)) : IsFound bytes i code := by
  rw [findStartCode_eq] at h
  have hfind := Option.some.inj h
  obtain ⟨hle, hnal⟩ := StartCode.bounds_of_find? hfind
  exact ⟨hle, StartCode.start_le_mark hfind, hnal⟩

/-- The first start code at or after an offset, which takes whoever goes on behind it nearer to the
end. -/
def findNext (bytes : Bytes) (i : Nat) :
    Option (Option { code : StartCode // IsFound bytes i code }) :=
  match h : findStartCode bytes i with
  | none => none
  | some none => some none
  | some (some code) => some (some ⟨code, isFound_of_findStartCode h⟩)

theorem findNext_of_none {bytes : Bytes} {i : Nat} (h : StartCode.find? bytes i = none) :
    findNext bytes i = some none := by
  have hfind := findStartCode_eq bytes i
  unfold findNext
  split <;> simp_all

theorem findNext_of_some {bytes : Bytes} {i : Nat} {code : StartCode}
    (h : StartCode.find? bytes i = some code) :
    ∃ hfound, findNext bytes i = some (some ⟨code, hfound⟩) := by
  have hfind := findStartCode_eq bytes i
  rw [h] at hfind
  refine ⟨isFound_of_findStartCode hfind, ?_⟩
  unfold findNext
  split
  · next hnone => cases hfind.symm.trans hnone
  · next hnone => cases hfind.symm.trans hnone
  · next other hother =>
    cases hfind.symm.trans hother
    rfl

/-- An access unit without the delimiters at its very start. -/
def stripLeadingAuds (f : NalFormat) (unit : Bytes) : Option Bytes := do
  match ← findStartCode unit 0 with
  | none => return unit
  | some code =>
    if code.start ≠ 0 ∨ unit.length ≤ code.nalStart then return unit
    else
      let header ← unit[code.nalStart]?
      if !f.isDelimiter header then return unit
      else
        match ← findNext unit code.nalStart with
        | some ⟨next, _hnext⟩ =>
          let ⟨rest, _hrest⟩ ← behind? unit next.start
          stripLeadingAuds f rest
        | none => from? unit unit.length
termination_by unit.length
decreasing_by
  have hle := _hnext.le_start
  rw [StartCode.nalStart] at hle
  omega

/-- How far a walk over the data has come. -/
structure Scan where
  /-- Where the access unit at hand starts. -/
  auStart : Nat := 0
  /-- Start codes before this offset have been looked at. -/
  scanPos : Nat
  /-- The timestamps of the access unit. -/
  pending : Timing
  /-- Coded picture data has been seen in the access unit. -/
  seenVcl : Bool
  /-- The frames that were completed. -/
  frames : List Frame := []

/-- True if the unit behind a start code starts an access unit, given whether coded picture data has
been seen in the current one.  Only then is it looked at. -/
def opens (f : NalFormat) (payload : Bytes) (nal : Nat) (kind : NalClass) (seenVcl : Bool) :
    Option Bool :=
  if !seenVcl then some false
  else
    match kind with
    | .marker => some true
    | .vcl => do
      let first ← payload[nal + f.headerLength]?
      return bitFlag first 7
    | .other => some false

/-- Cuts the data before a start code. -/
def cut (s : VideoSplitter) (timing : Timing) (payload : Bytes) (scan : Scan) (start : Nat) :
    Option Scan := do
  let unit ← stripLeadingAuds s.format (← slice? payload scan.auStart start)
  return {
    scan with
    auStart := start
    pending := timing
    seenVcl := false
    frames := scan.frames ++ Frame.unlessEmpty s.pid s.codec unit scan.pending }

/-- Passes the start code at hand, and cuts the data before it if the unit behind it starts an
access unit. -/
def passCode (s : VideoSplitter) (timing : Timing) (payload : Bytes) (scan : Scan)
    (code : StartCode) : Option { next : Scan // next.scanPos = code.nalStart } := do
  let kind := s.format.classify (← payload[code.nalStart]?)
  let boundary ← opens s.format payload code.nalStart kind scan.seenVcl
  let scan ← if boundary then cut s timing payload scan code.start else some scan
  return ⟨{ scan with scanPos := code.nalStart, seenVcl := scan.seenVcl || kind == .vcl }, rfl⟩

/-- Goes over the data from one start code to the next, up to one that cannot be judged. -/
def walk (s : VideoSplitter) (timing : Timing) (payload : Bytes) (scan : Scan) : Option Scan := do
  match ← findNext payload scan.scanPos with
  | none => return { scan with scanPos := max scan.scanPos (payload.length - 2) }
  | some ⟨code, _hcode⟩ =>
    let scan := { scan with scanPos := code.mark }
    if payload.length ≤ code.nalStart + s.format.headerLength then return scan
    else
      let ⟨next, _hnext⟩ ← passCode s timing payload scan code
      walk s timing payload next
termination_by payload.length - scan.scanPos
decreasing_by
  obtain ⟨hle, hstart, hnal⟩ := _hcode
  rw [StartCode.nalStart] at _hnext hnal
  omega

/-- The data from the access unit at hand on, and how far the walk has come in it. -/
def dropDone (payload : Bytes) (scan : Scan) : Option (Bytes × Nat) :=
  if 0 < scan.auStart then do
    return (← from? payload scan.auStart, ← sub? scan.scanPos scan.auStart)
  else some (payload, scan.scanPos)

/-- Adds data that arrived with the given timestamps, and gives the frames it completes. -/
def push (s : VideoSplitter) (data : Bytes) (timing : Timing) :
    Option (VideoSplitter × List Frame) := do
  let held := s.behind.reverse ++ s.ahead
  let payload := held ++ data
  let scan ← walk s timing payload {
    scanPos := s.behind.length
    pending := if held.length = 0 then timing else s.pending
    seenVcl := s.seenVcl }
  let (payload, scanPos) ← dropDone payload scan
  let behind ← slice? payload 0 scanPos
  let ahead ← from? payload scanPos
  return ({
    s with
    behind := behind.reverse
    ahead
    pending := scan.pending
    seenVcl := scan.seenVcl }, scan.frames)

/-- Gives what is left as the last frame. -/
def flush (s : VideoSplitter) : Option (VideoSplitter × List Frame) :=
  let payload := s.behind.reverse ++ s.ahead
  if payload.length = 0 then some (s, [])
  else do
    let unit ← stripLeadingAuds s.format payload
    return ({ s with behind := [], ahead := [], seenVcl := false },
      Frame.unlessEmpty s.pid s.codec unit s.pending)

/-! ## Delimiters -/

/-- A delimiter whose header is there. -/
theorem of_any_isDelimiter {f : NalFormat} {unit : Bytes} {n : Nat}
    (h : (unit[n]?).any f.isDelimiter = true) :
    ∃ header, unit[n]? = some header ∧ f.isDelimiter header = true ∧ n < unit.length := by
  obtain ⟨header, hheader, hdelimiter⟩ := (Option.any_eq_true _ _).mp h
  exact ⟨header, hheader, hdelimiter, (List.getElem?_eq_some_iff.mp hheader).1⟩

/-- Each round drops a delimiter, as long as there are some. -/
theorem stripLeadingAuds_eq (f : NalFormat) (unit : Bytes) :
    stripLeadingAuds f unit = some (f.stripLeadingAuds unit) := by
  fun_induction NalFormat.stripLeadingAuds f unit with
  | case1 unit hnone =>
    rw [stripLeadingAuds, findStartCode_eq, hnone]
    rfl
  | case2 unit code hcode hstart hnone =>
    obtain ⟨hzero, hdelimiter⟩ := hstart
    obtain ⟨header, hheader, hdelimiter, hlt⟩ := of_any_isDelimiter hdelimiter
    rw [stripLeadingAuds, findStartCode_eq, hcode]
    simp [hzero, Nat.not_le.mpr hlt, hheader, hdelimiter, findNext_of_none hnone,
      from?_of_le (Nat.le_refl unit.length)]
  | case3 unit code hcode hstart next hnext ih =>
    obtain ⟨hzero, hdelimiter⟩ := hstart
    obtain ⟨header, hheader, hdelimiter, hlt⟩ := of_any_isDelimiter hdelimiter
    obtain ⟨hfound, hfind⟩ := findNext_of_some hnext
    have hle : next.start ≤ unit.length :=
      Nat.le_trans hfound.start_le (Nat.le_trans (Nat.le_add_right _ _) hfound.nalStart_le)
    rw [stripLeadingAuds, findStartCode_eq, hcode]
    simp [hzero, Nat.not_le.mpr hlt, hheader, hdelimiter, hfind, behind?_of_le hle, ih]
  | case4 unit code hcode hstart =>
    rw [stripLeadingAuds, findStartCode_eq, hcode]
    by_cases hreach : code.start ≠ 0 ∨ unit.length ≤ code.nalStart
    · simp [hreach]
    · obtain ⟨hzero, hlt⟩ : code.start = 0 ∧ code.nalStart < unit.length := by omega
      rw [List.getElem?_eq_getElem hlt] at hstart
      have hother : f.isDelimiter unit[code.nalStart] = false := by simpa [hzero] using hstart
      simp [hreach, List.getElem?_eq_getElem hlt, hother]

/-! ## A walk over the data -/

open VideoSplitter (Walk)

/-- The offsets stand where a walk of the library does. -/
structure Stands (payload : Bytes) (scan : Scan) (w : Walk) : Prop where
  /-- What has been passed lies between the offsets. -/
  position : w.At payload scan.scanPos scan.auStart
  /-- Something has been passed since the last cut. -/
  start_lt : scan.scanPos = 0 ∨ scan.auStart < scan.scanPos
  /-- The timestamps are the same. -/
  pending : w.timing = scan.pending
  /-- The same has been seen. -/
  seenVcl : w.seenVcl = scan.seenVcl
  /-- The same frames were completed. -/
  frames : w.frames.reverse = scan.frames

/-- A walk that has passed some more bytes, none of which belongs to a start code. -/
def passed (w : Walk) (bytes : Bytes) : Walk :=
  { w with behind := bytes.reverse ++ w.behind }

variable {s : VideoSplitter} {timing : Timing} {payload : Bytes} {scan : Scan} {w : Walk}

/-- Bytes at which no start code stands are passed. -/
theorem over_passed {xs ys : Bytes}
    (hno : ∀ j < xs.length, ¬ StartCode.IsMark (xs ++ ys) j) (hmore : xs = [] ∨ 2 ≤ ys.length)
    (w : Walk) : Walk.over s timing w (xs ++ ys) = Walk.over s timing (passed w xs) ys := by
  induction xs generalizing w with
  | nil => rfl
  | cons a xs ih =>
    have htwo : 2 ≤ ys.length := hmore.resolve_left (List.cons_ne_nil a xs)
    have hrest := ih (fun j hj hmark => hno (j + 1) (Nat.succ_lt_succ hj) hmark) (.inr htwo)
    have hfirst := hno 0 (Nat.succ_pos _)
    rw [List.cons_append] at hfirst ⊢
    have hlength : 2 ≤ (xs ++ ys).length := by
      rw [List.length_append]
      omega
    match hxs : xs ++ ys, hlength with
    | b :: c :: rest, _ =>
      have hcode : ¬ (a = 0 ∧ b = 0 ∧ c = 1) := by
        rintro ⟨rfl, rfl, rfl⟩
        rw [hxs] at hfirst
        exact hfirst ⟨rfl, rfl, rfl⟩
      rw [Walk.over, if_neg hcode, ← hxs, hrest]
      simp [passed, Walk.pass]

/-- The walk goes on to an offset before which no start code stands. -/
theorem stands_advance (s : VideoSplitter) (timing : Timing) (h : Stands payload scan w) {p : Nat}
    (hle : scan.scanPos ≤ p)
    (hno : ∀ j, scan.scanPos ≤ j → j < p → ¬ StartCode.IsMark payload j)
    (hmore : p = scan.scanPos ∨ p + 2 ≤ payload.length) :
    ∃ w', Walk.over s timing w (payload.drop scan.scanPos) =
        Walk.over s timing w' (payload.drop p) ∧
      Stands payload { scan with scanPos := p } w' := by
  obtain ⟨hposition, hlt, hpending, hseen, hframes⟩ := h
  have hlength := hposition.le_length
  have hstart := hposition.start_le
  have hrest : (payload.drop scan.scanPos).drop (p - scan.scanPos) = payload.drop p := by
    rw [List.drop_drop, Nat.add_sub_of_le hle]
  have hsplit : payload.drop scan.scanPos =
      (payload.drop scan.scanPos).take (p - scan.scanPos) ++ payload.drop p := by
    rw [← hrest, List.take_append_drop]
  have htaken :
      ((payload.drop scan.scanPos).take (p - scan.scanPos)).length = p - scan.scanPos := by
    rw [List.length_take, List.length_drop]
    omega
  generalize (payload.drop scan.scanPos).take (p - scan.scanPos) = bytes at hsplit htaken
  have hnone : ∀ j < bytes.length, ¬ StartCode.IsMark (bytes ++ payload.drop p) j := by
    intro j hj hmark
    refine hno (scan.scanPos + j) (Nat.le_add_right _ _) (by omega) ?_
    rw [← hsplit] at hmark
    simpa [StartCode.IsMark, List.getElem?_drop, Nat.add_assoc] using hmark
  have htwo : bytes = [] ∨ 2 ≤ (payload.drop p).length := by
    rcases hmore with rfl | htwo
    · exact .inl (List.length_eq_zero_iff.mp (by omega))
    · exact .inr (by rw [List.length_drop]; omega)
  refine ⟨passed w bytes, ?_, ?_, ?_, hpending, hseen, hframes⟩
  · rw [hsplit, over_passed hnone htwo]
  · have hnext : (passed w bytes).At payload _ _ := hposition.advance bytes hsplit rfl
    rwa [htaken, Nat.add_sub_of_le hle] at hnext
  · dsimp only
    omega

/-- The unit behind a start code, by its first bytes. -/
theorem exists_of_unit? {f : NalFormat} {n : Nat} {u : NalUnit}
    (h : f.unit? (payload.drop n) = some u) :
    ∃ header first, payload[n]? = some header ∧ payload[n + f.headerLength]? = some first ∧
      u = { kind := f.classify header, topBit := bitFlag first 7 } := by
  rw [NalFormat.unit?, List.head?_drop, List.getElem?_drop] at h
  split at h
  · next header first hheader hfirst =>
    exact ⟨header, first, hheader, hfirst, (Option.some.inj h).symm⟩
  · cases h

/-- A start code starts where the library cuts. -/
theorem start_atMark (payload : Bytes) (p : Nat) :
    (StartCode.atMark (StartCode.isAfterZero payload p) p).start = NalFormat.cutAt payload p :=
  congrArg StartCode.start (StartCode.atMark_isAfterZero payload p)

/-- A start code is passed where the library passes it. -/
theorem stands_passCode (h : Stands payload scan w) {code : StartCode}
    (hmark : StartCode.IsMark payload code.mark) (hpos : scan.scanPos = code.mark)
    (hcode : code = .atMark (StartCode.isAfterZero payload code.mark) code.mark) {u : NalUnit}
    (hu : s.format.unit? (payload.drop code.nalStart) = some u) :
    ∃ next, passCode s timing payload scan code = some next ∧
      Stands payload next.1 (w.passCode s timing u) := by
  obtain ⟨hposition, hlt, hpending, hseen, hframes⟩ := h
  have hstart : code.start = NalFormat.cutAt payload code.mark := by
    rw [hcode]
    exact start_atMark payload code.mark
  have hcut := hposition.cut (s := s) hlt timing
  obtain ⟨hle, -, -⟩ := hposition.splitAtCode hlt
  rw [hpos] at hposition hlt hcut hle
  have hlength := hposition.le_length
  have hcutLe := NalFormat.cutAt_le payload code.mark
  have hdrop : payload.drop code.mark = [0, 0, 1] ++ payload.drop code.nalStart :=
    hmark.drop_eq
  obtain ⟨header, first, hheader, hfirst, rfl⟩ := exists_of_unit? hu
  have hslice : slice? payload scan.auStart code.start =
      some ((payload.take code.start).drop scan.auStart) :=
    slice?_of_le (hstart ▸ hle) (by omega)
  have hopens : opens s.format payload code.nalStart (s.format.classify header) scan.seenVcl =
      some (NalUnit.startsAccessUnit
        { kind := s.format.classify header, topBit := bitFlag first 7 } w.seenVcl) := by
    rw [hseen]
    cases scan.seenVcl with
    | false => rfl
    | true =>
      cases s.format.classify header <;> simp [opens, NalUnit.startsAccessUnit, hfirst]
  unfold passCode
  rw [hheader]
  simp only [Option.bind_eq_bind, Option.bind_some, hopens]
  generalize hunit : ({ kind := s.format.classify header, topBit := bitFlag first 7 } : NalUnit) = u
  have hkind : u.kind = s.format.classify header := by rw [← hunit]
  cases hstarts : u.startsAccessUnit w.seenVcl with
  | true =>
    obtain ⟨hbehind, htime, hvcl, hdone⟩ := Walk.passCode_of_starts (s := s) timing hstarts
    simp only [if_true, cut, hslice, Option.bind_eq_bind, Option.bind_some, stripLeadingAuds_eq]
    refine ⟨_, rfl, ?_⟩
    refine ⟨?_, ?_, htime, ?_, ?_⟩
    · dsimp only
      rw [hstart]
      exact hcut.1.advance [0, 0, 1] hdrop hbehind
    · dsimp only [StartCode.nalStart]
      omega
    · rw [hvcl, hkind]
      rfl
    · rw [hdone, hcut.2, hframes, hstart, hpending]
      rfl
  | false =>
    obtain ⟨hbehind, htime, hvcl, hdone⟩ := Walk.passCode_of_not_starts (s := s) timing hstarts
    simp only [Bool.false_eq_true, if_false]
    refine ⟨_, rfl, ?_⟩
    refine ⟨?_, ?_, htime.trans hpending, ?_, hdone ▸ hframes⟩
    · exact hposition.advance [0, 0, 1] hdrop hbehind
    · dsimp only [StartCode.nalStart]
      omega
    · rw [hvcl, hkind, hseen]

/-- A walk ends, and its offsets stand where that of the library ends. -/
theorem stands_walk (s : VideoSplitter) (timing : Timing) {scan : Scan} {w : Walk}
    (h : Stands payload scan w) :
    ∃ scan', walk s timing payload scan = some scan' ∧
      Stands payload scan' (Walk.over s timing w (payload.drop scan.scanPos)).1 ∧
      payload.drop scan'.scanPos = (Walk.over s timing w (payload.drop scan.scanPos)).2 := by
  have hlength := h.position.le_length
  rw [walk]
  cases hfind : StartCode.find? payload scan.scanPos with
  | none =>
    rw [findNext_of_none hfind]
    obtain ⟨w', hover, hstands⟩ := stands_advance s timing h
      (Nat.le_max_left scan.scanPos (payload.length - 2))
      (fun j hj _ => StartCode.none_of_find? hfind hj) (by omega)
    refine ⟨_, rfl, ?_⟩
    rw [hover]
    have hshort : (payload.drop (max scan.scanPos (payload.length - 2))).length < 3 := by
      rw [List.length_drop]
      omega
    dsimp only
    match payload.drop (max scan.scanPos (payload.length - 2)), hshort with
    | [], _ => exact ⟨hstands, rfl⟩
    | [_], _ => exact ⟨hstands, rfl⟩
    | [_, _], _ => exact ⟨hstands, rfl⟩
  | some code =>
    obtain ⟨hfound, hnext⟩ := findNext_of_some hfind
    obtain ⟨⟨hle, hmark, hbefore⟩, hcode⟩ := StartCode.first_of_find? hfind
    have hmarkLe := hmark.le_length
    obtain ⟨w', hover, hstands⟩ := stands_advance s timing h hle hbefore (.inr (by omega))
    rw [hnext, hover, hmark.drop_eq, Walk.over, if_pos ⟨rfl, rfl, rfl⟩]
    simp only [Option.bind_eq_bind, Option.bind_some]
    by_cases hreach : payload.length ≤ code.nalStart + s.format.headerLength
    · have hnone : s.format.unit? (payload.drop (code.mark + 3)) = none := by
        rw [NalFormat.unit?_eq_none_iff, List.length_drop]
        rw [StartCode.nalStart] at hreach
        omega
      rw [if_pos hreach, hnone]
      exact ⟨_, rfl, hstands, hmark.drop_eq⟩
    · have hsome : s.format.unit? (payload.drop code.nalStart) ≠ none := by
        rw [Ne, NalFormat.unit?_eq_none_iff, List.length_drop]
        omega
      obtain ⟨u, hu⟩ := Option.ne_none_iff_exists'.mp hsome
      obtain ⟨⟨scan', hpos⟩, hpass, hpassed⟩ :
          ∃ next, passCode s timing payload { scan with scanPos := code.mark } code = some next ∧
            Stands payload next.1 (w'.passCode s timing u) :=
        stands_passCode hstands hmark rfl hcode hu
      have hless : payload.length - scan'.scanPos < payload.length - scan.scanPos := by
        rw [hpos, StartCode.nalStart]
        omega
      have hgo := stands_walk s timing hpassed
      rw [StartCode.nalStart] at hu hpos
      rw [if_neg hreach, hpass, hu]
      rwa [hpos] at hgo
termination_by payload.length - scan.scanPos

/-! ## A piece of data, and the end of the stream -/

/-- A splitter holds nothing if its string is empty. -/
theorem isEmpty_buffer (s : VideoSplitter) :
    s.buffer.isEmpty = decide ((s.behind.reverse ++ s.ahead).length = 0) := by
  rw [Bool.eq_iff_iff]
  simp [VideoSplitter.buffer, FrameBuffer.isEmpty, and_comm]

/-- Nothing is dropped that has not been passed. -/
theorem dropDone_eq (hstart : scan.auStart ≤ scan.scanPos) (hle : scan.scanPos ≤ payload.length) :
    dropDone payload scan =
      some (payload.drop scan.auStart, scan.scanPos - scan.auStart) := by
  unfold dropDone
  by_cases hpos : 0 < scan.auStart
  · rw [if_pos hpos, from?_of_le (Nat.le_trans hstart hle), sub?_of_le hstart]
    rfl
  · rw [if_neg hpos, Nat.eq_zero_of_not_pos hpos]
    rfl

/-- A piece of data never leads to a range that is not there. -/
theorem push_eq (s : VideoSplitter) (data : Bytes) (timing : Timing) :
    push s data timing = some (s.push data timing) := by
  have hpayload : s.behind.reverse ++ s.ahead ++ data = s.behind.reverse ++ (s.ahead ++ data) :=
    List.append_assoc _ _ _
  have hdrop : (s.behind.reverse ++ s.ahead ++ data).drop s.behind.length = s.ahead ++ data := by
    rw [hpayload, ← List.length_reverse, List.drop_left]
  have hpending : (if (s.behind.reverse ++ s.ahead).length = 0 then timing else s.pending) =
      if s.buffer.isEmpty then timing else s.pending := by
    rw [isEmpty_buffer]
    simp
  unfold push VideoSplitter.push
  generalize (if s.buffer.isEmpty then timing else s.pending) = pending at hpending ⊢
  have hstart : Stands (s.behind.reverse ++ s.ahead ++ data)
      { scanPos := s.behind.length, pending, seenVcl := s.seenVcl }
      { behind := s.behind, timing := pending, seenVcl := s.seenVcl } := by
    refine ⟨⟨?_, Nat.zero_le _, ?_⟩, ?_, rfl, rfl, rfl⟩
    · rw [hpayload, ← List.length_reverse, List.length_append]
      exact Nat.le_add_right _ _
    · rw [hpayload, ← List.length_reverse, List.take_left]
      rfl
    · dsimp only
      omega
  obtain ⟨scan, hwalk, ⟨⟨hle, hstartLe, hbehind⟩, -, htiming, hseen, hframes⟩, hahead⟩ :=
    stands_walk s timing hstart
  dsimp only at hle hahead hbehind htiming hseen hframes hwalk
  rw [hdrop] at hahead hbehind htiming hseen hframes
  dsimp only
  rw [hpending, hwalk]
  have hkept : scan.scanPos - scan.auStart ≤
      ((s.behind.reverse ++ s.ahead ++ data).drop scan.auStart).length := by
    rw [List.length_drop]
    omega
  have hback : scan.auStart + (scan.scanPos - scan.auStart) = scan.scanPos :=
    Nat.add_sub_of_le hstartLe
  simp only [Option.bind_eq_bind, Option.bind_some, dropDone_eq hstartLe hle, slice?_zero hkept,
    from?_of_le hkept, List.drop_drop, hback, hahead]
  rw [← List.drop_take, ← hbehind, List.reverse_reverse, ← hframes, ← htiming, ← hseen]
  rfl

/-- Nor does the end of the stream. -/
theorem flush_eq (s : VideoSplitter) : flush s = some s.flush := by
  unfold flush VideoSplitter.flush
  rw [isEmpty_buffer]
  have hpayload : s.buffer.payload = s.behind.reverse ++ s.ahead := by
    simp [VideoSplitter.buffer, FrameBuffer.payload]
  by_cases hempty : (s.behind.reverse ++ s.ahead).length = 0
  · simp only [hempty, if_true, decide_true]
  · simp only [hempty, if_false, decide_false, Bool.false_eq_true, stripLeadingAuds_eq, hpayload]
    rfl

end Video

end Checked

end TransportStream
