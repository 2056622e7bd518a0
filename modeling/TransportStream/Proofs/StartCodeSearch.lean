import TransportStream.Nal.StartCode

/-!
# What the search for start codes passes

The search moves on by three bytes where it can.  What it passes that way holds no `00 00 01`, so it
finds the first one behind the offset at which it begins, as a search does that looks at every
offset.  From one start code to the next it finds all of them, since none begins within the
`00 00 01` of another one.  And what it has found it finds again when there is more data: nothing
behind a start code has a part in it.

* `StartCode.search_spec`: a search within a byte string.
* `StartCode.find?_eq_some_iff`, `StartCode.find?_eq_none_iff`: what is found, and what it means
  that nothing is.
* `StartCode.marks_of_first`: the offsets of `00 00 01`, from the first one to the second one.
* `StartCode.successive_eq`, `StartCode.collect_eq`, `StartCode.mem_all_iff`: a search from one
  start code to the next finds all of them.
* `StartCode.find?_append`: with more data the same start code is found.
* `StartCode.finds_all`: all of it, and that the plain search finds the same.
-/

namespace TransportStream

namespace StartCode

/-! ## The first start code -/

/-- `00 00 01` stands at an offset. -/
def IsMark (bytes : Bytes) (p : Nat) : Prop :=
  bytes[p]? = some 0 ∧ bytes[p + 1]? = some 0 ∧ bytes[p + 2]? = some 1

instance (bytes : Bytes) : DecidablePred (IsMark bytes) :=
  fun _ => inferInstanceAs (Decidable (_ ∧ _ ∧ _))

/-- The start code whose `00 00 01` stands at an offset.  A zero byte in front of it belongs to
it. -/
def codeAt (bytes : Bytes) (p : Nat) : StartCode where
  start := if 0 < p ∧ bytes[p - 1]? = some 0 then p - 1 else p
  mark := p

variable {bytes : Bytes} {i p : Nat}

theorem IsMark.le_length (h : IsMark bytes p) : p + 3 ≤ bytes.length :=
  (List.getElem?_eq_some_iff.mp h.2.2).1

/-- With two more bytes behind it, an offset has three bytes to look at. -/
theorem exists_drop_eq (h : i + 2 < bytes.length) :
    ∃ a b c, bytes[i]? = some a ∧ bytes[i + 1]? = some b ∧ bytes[i + 2]? = some c ∧
      bytes.drop i = a :: b :: c :: bytes.drop (i + 3) := by
  have h₀ : i < bytes.length := by omega
  have h₁ : i + 1 < bytes.length := by omega
  refine ⟨bytes[i], bytes[i + 1], bytes[i + 2], List.getElem?_eq_getElem h₀,
    List.getElem?_eq_getElem h₁, List.getElem?_eq_getElem h, ?_⟩
  rw [List.drop_eq_getElem_cons h₀, List.drop_eq_getElem_cons h₁, List.drop_eq_getElem_cons h]

/-- The bytes from a start code on. -/
theorem IsMark.drop_eq (h : IsMark bytes p) :
    bytes.drop p = 0 :: 0 :: 1 :: bytes.drop (p + 3) := by
  obtain ⟨a, b, c, h₀, h₁, h₂, hdrop⟩ := exists_drop_eq h.le_length
  cases h₀.symm.trans h.1
  cases h₁.symm.trans h.2.1
  cases h₂.symm.trans h.2.2
  exact hdrop

/-- No `00 00 01` begins within another one. -/
theorem IsMark.add_three_le {q : Nat} (hp : IsMark bytes p) (hq : IsMark bytes q) (hlt : p < q) :
    p + 3 ≤ q := by
  have hone : bytes[p + 2]? = some 1 := hp.2.2
  refine Classical.byContradiction ?_
  intro hoverlap
  obtain rfl | rfl : q = p + 1 ∨ q = p + 2 := by omega
  · exact absurd (hone.symm.trans hq.2.1) (by decide)
  · exact absurd (hone.symm.trans hq.1) (by decide)

/-- The offset is that of the first `00 00 01` at or after another one. -/
structure IsFirst (bytes : Bytes) (i p : Nat) : Prop where
  /-- It is not before the other one. -/
  le : i ≤ p
  /-- `00 00 01` stands there. -/
  isMark : IsMark bytes p
  /-- It stands nowhere in between. -/
  before : ∀ j, i ≤ j → j < p → ¬ IsMark bytes j

/-- There is only one first. -/
theorem IsFirst.unique {q : Nat} (hp : IsFirst bytes i p) (hq : IsFirst bytes i q) : p = q := by
  rcases Nat.lt_trichotomy p q with hlt | heq | hgt
  · exact absurd hp.isMark (hq.before p hp.le hlt)
  · exact heq
  · exact absurd hq.isMark (hp.before q hq.le hgt)

/-- What a search gives, from an offset on. -/
def Spec (bytes : Bytes) (i : Nat) : Option (StartCode × Bytes) → Prop
  | some (code, rest) =>
    IsFirst bytes i code.mark ∧ code = atMark (isAfterZero bytes code.mark) code.mark ∧
      rest = bytes.drop code.nalStart
  | none => ∀ j, i ≤ j → ¬ IsMark bytes j

/-- Offsets at which nothing stands can be passed. -/
theorem Spec.of_le {k : Nat} (hk : i ≤ k) (hno : ∀ j, i ≤ j → j < k → ¬ IsMark bytes j)
    {result : Option (StartCode × Bytes)} (h : Spec bytes k result) : Spec bytes i result := by
  cases result with
  | none =>
    intro j hj
    by_cases hlt : j < k
    · exact hno j hj hlt
    · exact h j (Nat.not_lt.mp hlt)
  | some found =>
    obtain ⟨⟨hle, hmark, hbefore⟩, hcode, hrest⟩ := h
    refine ⟨⟨Nat.le_trans hk hle, hmark, fun j hj hlt => ?_⟩, hcode, hrest⟩
    by_cases hjk : j < k
    · exact hno j hj hjk
    · exact hbefore j (Nat.not_lt.mp hjk) hlt

theorem getElem?_of_drop_eq {xs : Bytes} (h : bytes.drop i = xs) (k : Nat) :
    bytes[i + k]? = xs[k]? := by
  rw [← h, List.getElem?_drop]

/-- A search gives the first start code. -/
theorem search_spec {xs : Bytes} (hxs : bytes.drop i = xs) {afterZero : Bool}
    (hzero : afterZero = isAfterZero bytes i) : Spec bytes i (search afterZero i xs) := by
  fun_induction search afterZero i xs with
  | case1 afterZero i a b rest ih =>
    have hdrop : bytes.drop (i + 1) = b :: 0 :: rest := by
      rw [← List.drop_drop, hxs]
      rfl
    have hfirst : bytes[i]? = some a := getElem?_of_drop_eq hxs 0
    have hlast : bytes[i + 2]? = some 0 := getElem?_of_drop_eq hxs 2
    refine (ih hdrop ?_).of_le (Nat.le_succ i) fun j hj hlt hmark => ?_
    · rw [isAfterZero, hfirst]
      rfl
    · obtain rfl : j = i := by omega
      rw [IsMark, hlast] at hmark
      exact absurd hmark.2.2 (by decide)
  | case2 afterZero i a b c rest hc hcode =>
    obtain ⟨rfl, rfl, rfl⟩ := hcode
    have hmark : IsMark bytes i :=
      ⟨getElem?_of_drop_eq hxs 0, getElem?_of_drop_eq hxs 1, getElem?_of_drop_eq hxs 2⟩
    refine ⟨⟨Nat.le_refl i, hmark, fun j hj hlt => absurd hlt (Nat.not_lt.mpr hj)⟩,
      by rw [hzero]; rfl, ?_⟩
    rw [nalStart, atMark, ← List.drop_drop, hxs]
    rfl
  | case3 afterZero i a b c rest hc hcode ih =>
    have hdrop : bytes.drop (i + 3) = rest := by
      rw [← List.drop_drop, hxs]
      rfl
    have hfirst : bytes[i]? = some a := getElem?_of_drop_eq hxs 0
    have hsecond : bytes[i + 1]? = some b := getElem?_of_drop_eq hxs 1
    have hlast : bytes[i + 2]? = some c := getElem?_of_drop_eq hxs 2
    refine (ih hdrop ?_).of_le (Nat.le_add_right i 3) fun j hj hlt hmark => ?_
    · rw [isAfterZero, hlast]
      simpa using hc
    -- a mark at `i + 1` or `i + 2` would have a zero at `i + 2`
    · obtain ⟨h₀, h₁, h₂⟩ := hmark
      obtain rfl | rfl | rfl : j = i ∨ j = i + 1 ∨ j = i + 2 := by omega
      · rw [hfirst] at h₀
        rw [hsecond] at h₁
        rw [hlast] at h₂
        exact hcode ⟨Option.some.inj h₂, Option.some.inj h₀, Option.some.inj h₁⟩
      · exact hc (Option.some.inj (hlast.symm.trans h₁))
      · exact hc (Option.some.inj (hlast.symm.trans h₀))
  | case4 xs afterZero i hshort =>
    intro j hj hmark
    have hlength : xs.length < 3 := by
      rcases xs with _ | ⟨a, _ | ⟨b, _ | ⟨c, rest⟩⟩⟩
      · simp
      · simp
      · simp
      · exact absurd rfl (hshort a b c rest)
    have := hmark.le_length
    rw [← hxs, List.length_drop] at hlength
    omega

/-- The start code that is found is the first one. -/
theorem first_of_find? {code : StartCode} (h : find? bytes i = some code) :
    IsFirst bytes i code.mark ∧ code = atMark (isAfterZero bytes code.mark) code.mark := by
  obtain ⟨⟨found, rest⟩, hsearch, rfl⟩ := Option.map_eq_some_iff.mp h
  have hspec := search_spec (rfl : bytes.drop i = _) rfl
  rw [hsearch] at hspec
  exact ⟨hspec.1, hspec.2.1⟩

/-- Where nothing is found there is nothing. -/
theorem none_of_find? (h : find? bytes i = none) {j : Nat} (hj : i ≤ j) : ¬ IsMark bytes j := by
  have hspec := search_spec (rfl : bytes.drop i = _) rfl
  rw [Option.map_eq_none_iff.mp h] at hspec
  exact hspec j hj

theorem atMark_isAfterZero (bytes : Bytes) (p : Nat) :
    atMark (isAfterZero bytes p) p = codeAt bytes p := by
  cases p with
  | zero => rfl
  | succ before => simp [atMark, isAfterZero, codeAt]

theorem find?_eq_some_iff {code : StartCode} :
    find? bytes i = some code ↔ IsFirst bytes i code.mark ∧ code = codeAt bytes code.mark := by
  constructor
  · intro h
    rw [← atMark_isAfterZero]
    exact first_of_find? h
  · rintro ⟨hfirst, hcode⟩
    cases h : find? bytes i with
    | none => exact absurd hfirst.isMark (none_of_find? h hfirst.le)
    | some found =>
      obtain ⟨hfound, hplace⟩ := first_of_find? h
      rw [atMark_isAfterZero, hfound.unique hfirst, ← hcode] at hplace
      rw [hplace]

theorem find?_eq_none_iff : find? bytes i = none ↔ ∀ j, i ≤ j → ¬ IsMark bytes j := by
  refine ⟨fun h j hj => none_of_find? h hj, fun hno => ?_⟩
  cases h : find? bytes i with
  | none => rfl
  | some found =>
    have hfirst := (first_of_find? h).1
    exact absurd hfirst.isMark (hno _ hfirst.le)

/-- A start code starts where its `00 00 01` stands, or at the byte before. -/
theorem start_le_mark {code : StartCode} (h : find? bytes i = some code) :
    code.start ≤ code.mark := by
  rw [(first_of_find? h).2, atMark]
  dsimp only
  split <;> omega

/-! ## One start code after the other -/

/-- The offsets of `00 00 01` at or after an offset, in order. -/
def marks (bytes : Bytes) (i : Nat) : List Nat :=
  (List.range' i (bytes.length - i)).filter fun p => IsMark bytes p

/-- Offsets at which nothing stands bring nothing. -/
theorem filter_range'_eq_nil {k : Nat} (h : ∀ j, i ≤ j → j < i + k → ¬ IsMark bytes j) :
    (List.range' i k).filter (fun p => IsMark bytes p) = [] := by
  refine List.filter_eq_nil_iff.mpr fun p hp => ?_
  obtain ⟨hle, hlt⟩ := List.mem_range'_1.mp hp
  simpa using h p hle hlt

/-- Behind the first `00 00 01` the next one stands at least three bytes further on. -/
theorem marks_of_first (h : IsFirst bytes i p) : marks bytes i = p :: marks bytes (p + 3) := by
  have hle := h.le
  have hlength := h.isMark.le_length
  obtain ⟨k, rfl⟩ := Nat.exists_eq_add_of_le hle
  obtain ⟨rest, hrest⟩ := Nat.exists_eq_add_of_le hlength
  have hcount : bytes.length - i = k + (3 + rest) := by omega
  have hbehind : bytes.length - (i + k + 3) = rest := by omega
  have hbefore : (List.range' i k).filter (fun p => IsMark bytes p) = [] :=
    filter_range'_eq_nil h.before
  have hown : (List.range' (i + k) 3).filter (fun p => IsMark bytes p) = [i + k] := by
    have hnext (q : Nat) (hlt : i + k < q) (hq : q < i + k + 3) : ¬ IsMark bytes q := fun hmark =>
      absurd (h.isMark.add_three_le hmark hlt) (Nat.not_le.mpr hq)
    have hsecond := hnext (i + k + 1) (by omega) (by omega)
    have hthird := hnext (i + k + 1 + 1) (by omega) (by omega)
    simp only [List.range'_succ, List.range'_zero, List.filter_cons, List.filter_nil, h.isMark,
      hsecond, hthird, decide_true, decide_false, if_true, Bool.false_eq_true, if_false]
  rw [marks, marks, hcount, hbehind, ← List.range'_append_1, ← List.range'_append_1,
    List.filter_append, List.filter_append, hbefore, hown]
  rfl

theorem marks_eq_nil (h : ∀ j, i ≤ j → ¬ IsMark bytes j) : marks bytes i = [] :=
  filter_range'_eq_nil fun j hj _ => h j hj

theorem mem_marks_iff : p ∈ marks bytes i ↔ i ≤ p ∧ IsMark bytes p := by
  rw [marks, List.mem_filter, List.mem_range'_1, decide_eq_true_iff]
  constructor
  · rintro ⟨⟨hle, -⟩, hmark⟩
    exact ⟨hle, hmark⟩
  · rintro ⟨hle, hmark⟩
    have := hmark.le_length
    exact ⟨⟨hle, by omega⟩, hmark⟩

theorem marks_zero (bytes : Bytes) :
    marks bytes 0 = (List.range bytes.length).filter fun p => IsMark bytes p := by
  rw [marks, List.range_eq_range', Nat.sub_zero]

/-- The start codes that are found one after the other, each from the unit behind the one before. -/
def successive (bytes : Bytes) (i : Nat) : List StartCode :=
  match _h : find? bytes i with
  | none => []
  | some code => code :: successive bytes code.nalStart
termination_by bytes.length - i
decreasing_by
  have hb := first_of_find? _h
  have := hb.1.le
  have := hb.1.isMark.le_length
  rw [nalStart]
  omega

/-- They are all start codes from an offset on. -/
theorem successive_eq (bytes : Bytes) (i : Nat) :
    successive bytes i = (marks bytes i).map (codeAt bytes) := by
  fun_induction successive bytes i with
  | case1 i hnone =>
    rw [marks_eq_nil (find?_eq_none_iff.mp hnone)]
    rfl
  | case2 i code hsome ih =>
    obtain ⟨hfirst, hcode⟩ := find?_eq_some_iff.mp hsome
    rw [marks_of_first hfirst, List.map_cons, ← hcode, ih]
    rfl

/-- Whoever collects start codes has found those before, and finds those from an offset on. -/
theorem collect_eq {xs : Bytes} (hxs : bytes.drop i = xs) (hzero : isAfterZero bytes i = false)
    (found : List StartCode) :
    collect found i xs = found.reverse ++ (marks bytes i).map (codeAt bytes) := by
  have hspec := search_spec hxs hzero.symm
  fun_induction collect found i xs with
  | case1 found i xs hnone =>
    rw [hnone] at hspec
    rw [marks_eq_nil hspec, List.map_nil, List.append_nil]
  | case2 found i xs code rest hsome ih =>
    rw [hsome] at hspec
    obtain ⟨hfirst, hcode, rfl⟩ := hspec
    have hbehind : isAfterZero bytes code.nalStart = false := by
      change (bytes[code.mark + 2]? == some 0) = false
      rw [hfirst.isMark.2.2]
      rfl
    rw [ih rfl hbehind (search_spec rfl hbehind.symm), marks_of_first hfirst, List.map_cons,
      ← atMark_isAfterZero, ← hcode, List.reverse_cons, List.append_assoc]
    rfl

/-- **All start codes.**  They stand wherever `00 00 01` does, each with the zero byte in front of
it if there is one. -/
theorem mem_all_iff {c : StartCode} :
    c ∈ all bytes ↔ IsMark bytes c.mark ∧ c = codeAt bytes c.mark := by
  rw [all, collect_eq List.drop_zero rfl, List.reverse_nil, List.nil_append, List.mem_map]
  constructor
  · rintro ⟨p, hp, rfl⟩
    exact ⟨(mem_marks_iff.mp hp).2, rfl⟩
  · rintro ⟨hmark, hcode⟩
    exact ⟨c.mark, mem_marks_iff.mpr ⟨Nat.zero_le _, hmark⟩, hcode.symm⟩

/-! ## More data -/

/-- A `00 00 01` that is there stays there, whatever follows. -/
theorem isMark_append_iff {more : Bytes} (h : p + 3 ≤ bytes.length) :
    IsMark (bytes ++ more) p ↔ IsMark bytes p := by
  rw [IsMark, List.getElem?_append_left (by omega), List.getElem?_append_left (by omega),
    List.getElem?_append_left (by omega), IsMark]

theorem IsFirst.append {k : Nat} (h : IsFirst bytes i p) (hi : i ≤ k) (hk : k ≤ p) (more : Bytes) :
    IsFirst (bytes ++ more) k p := by
  have hlength := h.isMark.le_length
  refine ⟨hk, (isMark_append_iff hlength).mpr h.isMark, fun j hj hlt hmark => ?_⟩
  exact h.before j (Nat.le_trans hi hj) hlt ((isMark_append_iff (by omega)).mp hmark)

theorem codeAt_append (h : p ≤ bytes.length) (more : Bytes) :
    codeAt (bytes ++ more) p = codeAt bytes p := by
  rcases Nat.eq_zero_or_pos p with rfl | hpos
  · rfl
  · rw [codeAt, codeAt, List.getElem?_append_left (by omega)]

/-- What is found is found again from any place in between, and with more data behind it. -/
theorem find?_append {code : StartCode} (h : find? bytes i = some code) {k : Nat} (hi : i ≤ k)
    (hk : k ≤ code.mark) (more : Bytes) : find? (bytes ++ more) k = some code := by
  obtain ⟨hfirst, hcode⟩ := find?_eq_some_iff.mp h
  have hlength := hfirst.isMark.le_length
  refine find?_eq_some_iff.mpr ⟨hfirst.append hi hk more, ?_⟩
  rw [codeAt_append (by omega)]
  exact hcode

/-! ## The plain search -/

/-- The first start code by a look at every offset, one after the other. -/
def plainFind? (bytes : Bytes) (i : Nat) : Option StartCode :=
  ((List.range' i (bytes.length - i)).find? fun p => IsMark bytes p).map (codeAt bytes)

/-- **Skipping misses nothing.** -/
theorem find?_eq_plainFind? (bytes : Bytes) (i : Nat) : find? bytes i = plainFind? bytes i := by
  have hplain : plainFind? bytes i = ((marks bytes i).head?).map (codeAt bytes) := by
    rw [plainFind?, marks, List.head?_filter]
  rw [hplain]
  cases h : find? bytes i with
  | none =>
    rw [marks_eq_nil (find?_eq_none_iff.mp h)]
    rfl
  | some code =>
    obtain ⟨hfirst, hcode⟩ := find?_eq_some_iff.mp h
    rw [marks_of_first hfirst, List.head?_cons, Option.map_some, ← hcode]

/-- **The search for start codes.**  It finds what a look at every offset finds: the first
`00 00 01` at or after an offset, with the zero byte in front of it if there is one, and nothing
only where there is none.  From one start code to the unit behind it and on to the next, it comes to
every `00 00 01` once, in order.  A start code that it has found is also found from any offset
between the first one and the start code, and with any data behind. -/
theorem finds_all (bytes : Bytes) :
    (∀ i, find? bytes i = plainFind? bytes i) ∧
      (∀ i code, find? bytes i = some code ↔
        IsFirst bytes i code.mark ∧
          code.start = if 0 < code.mark ∧ bytes[code.mark - 1]? = some 0 then code.mark - 1
            else code.mark) ∧
      (∀ i, find? bytes i = none ↔ ∀ p, i ≤ p → ¬ IsMark bytes p) ∧
      successive bytes 0 =
        ((List.range bytes.length).filter fun p => IsMark bytes p).map (codeAt bytes) ∧
      all bytes = successive bytes 0 ∧
      ∀ i code, find? bytes i = some code → ∀ k more, i ≤ k → k ≤ code.mark →
        find? (bytes ++ more) k = some code := by
  refine ⟨find?_eq_plainFind? bytes, fun i code => ?_, fun i => find?_eq_none_iff, ?_, ?_,
    fun i code h k more hi hk => find?_append h hi hk more⟩
  · rw [find?_eq_some_iff]
    refine and_congr_right fun _ => ⟨fun h => congrArg start h, fun h => ?_⟩
    cases code
    exact congrArg (StartCode.mk · _) h
  · rw [successive_eq, marks_zero]
  · rw [all, collect_eq List.drop_zero rfl, successive_eq]
    rfl

/-- With zeros in front of a start code, the last of them is a part of it, and only that one. -/
theorem finds_all_behind_zeros :
    find? [0, 0, 0, 0, 1, 101] 0 = some { start := 1, mark := 2 } ∧ 0 ≤ 1 ∧ 1 ≤ 2 ∧
      find? ([0, 0, 0, 0, 1, 101] ++ [0, 0, 1]) 1 = some { start := 1, mark := 2 } := by
  have hfind : find? [0, 0, 0, 0, 1, 101] 0 = some { start := 1, mark := 2 } := by decide
  obtain ⟨-, -, -, -, -, hagain⟩ := finds_all [0, 0, 0, 0, 1, 101]
  exact ⟨hfind, by decide, by decide, hagain 0 _ hfind 1 [0, 0, 1] (by decide) (by decide)⟩

end StartCode

end TransportStream
