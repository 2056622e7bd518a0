import TransportStream.Nal.Unit
import TransportStream.Proofs.StartCodeSearch

/-!
# The delimiters at the start of an access unit

What is taken off the start of an access unit can be said without a search that is repeated: it is
the longest run of access unit delimiters there, each with its start code in front of it.

A delimiter ends where the start code of the next unit starts, so that a zero byte between the two
belongs to the start code, or else at the end of the data.  Its header is not zero.  Therefore it
does not end before its header, even if the next start code stands as near as it can, and every
delimiter that is passed leaves fewer bytes.

* `StartCode.exists_form_of_start`: a start code at the very start is `00 00 01` or `00 00 00 01`.
* `StartCode.exists_endsAt`, `StartCode.EndsAt.unique`: the end of a unit.
* `NalFormat.IsDelimiterUnit.unique`: a byte string begins with one delimiter at most.
* `NalFormat.stripLeadingAuds_of_unit`, `NalFormat.stripLeadingAuds_of_not_begins`: one delimiter is
  taken off, or none.
* `NalFormat.stripLeadingAuds_longest`: all of them are, and nothing else.
-/

namespace TransportStream

namespace StartCode

variable {bytes more code : Bytes} {i : Nat}

/-! ## Start codes at the very start -/

/-- The bytes of a start code, with the zero byte that can be in front or without it. -/
def IsForm (code : Bytes) : Prop :=
  code = [0, 0, 1] ∨ code = [0, 0, 0, 1]

theorem IsForm.three_le_length (h : IsForm code) : 3 ≤ code.length := by
  rcases h with rfl | rfl <;> decide

theorem find?_of_form (h : IsForm code) (more : Bytes) :
    find? (code ++ more) 0 = some { start := 0, mark := code.length - 3 } := by
  rcases h with rfl | rfl
  · rfl
  · rfl

/-- A start code at the very start is `00 00 01`, or `00 00 00 01`. -/
theorem exists_form_of_start {c : StartCode} (hmark : IsMark bytes c.mark)
    (hc : c = codeAt bytes c.mark) (hstart : c.start = 0) :
    ∃ code more, IsForm code ∧ bytes = code ++ more ∧ code.length = c.nalStart := by
  have hzero : (codeAt bytes c.mark).start = 0 := hc ▸ hstart
  unfold nalStart
  generalize c.mark = p at hmark hzero
  cases p with
  | zero =>
    exact ⟨_, _, .inl rfl, hmark.drop_eq, rfl⟩
  | succ p =>
    rw [codeAt] at hzero
    dsimp only at hzero
    split at hzero
    · next hbefore =>
      obtain rfl : p = 0 := hzero
      obtain ⟨tail, rfl⟩ := List.head?_eq_some_iff.mp (List.head?_eq_getElem? ▸ hbefore.2)
      have htail : IsMark tail 0 := hmark
      exact ⟨_, _, .inr rfl, congrArg (0 :: ·) htail.drop_eq, rfl⟩
    · cases hzero

/-! ## Where a unit ends -/

/-- The unit that begins at an offset ends at another one: where the next start code starts, or with
the data. -/
def EndsAt (bytes : Bytes) (i e : Nat) : Prop :=
  (∃ p, IsFirst bytes i p ∧ e = (codeAt bytes p).start) ∨
    (∀ p, i ≤ p → ¬ IsMark bytes p) ∧ e = bytes.length

theorem endsAt_of_some {next : StartCode} (h : find? bytes i = some next) :
    EndsAt bytes i next.start := by
  obtain ⟨hfirst, hcode⟩ := find?_eq_some_iff.mp h
  exact .inl ⟨next.mark, hfirst, congrArg start hcode⟩

theorem endsAt_of_none (h : find? bytes i = none) : EndsAt bytes i bytes.length :=
  .inr ⟨find?_eq_none_iff.mp h, rfl⟩

theorem exists_endsAt (bytes : Bytes) (i : Nat) : ∃ e, EndsAt bytes i e := by
  cases h : find? bytes i with
  | none => exact ⟨_, endsAt_of_none h⟩
  | some next => exact ⟨_, endsAt_of_some h⟩

theorem EndsAt.unique {e e' : Nat} (h : EndsAt bytes i e) (h' : EndsAt bytes i e') : e = e' := by
  rcases h with ⟨p, hp, rfl⟩ | ⟨hno, rfl⟩
  · rcases h' with ⟨q, hq, rfl⟩ | ⟨hno, -⟩
    · rw [hp.unique hq]
    · exact absurd hp.isMark (hno p hp.le)
  · rcases h' with ⟨q, hq, -⟩ | ⟨-, rfl⟩
    · exact absurd hq.isMark (hno q hq.le)
    · rfl

/-- A unit whose first byte is not zero does not end before that byte: no start code begins with
it. -/
theorem EndsAt.bounds {e : Nat} (h : EndsAt bytes i e) {b : UInt8} (hb : bytes[i]? = some b)
    (hne : b ≠ 0) : i < e ∧ e ≤ bytes.length := by
  have hlength : i < bytes.length := (List.getElem?_eq_some_iff.mp hb).1
  rcases h with ⟨p, hp, rfl⟩ | ⟨-, rfl⟩
  · have hzero (j : Nat) (hj : bytes[j]? = some 0) : j ≠ i := by
      rintro rfl
      exact hne (Option.some.inj (hb.symm.trans hj))
    have hle := hp.le
    have hmark := hzero p hp.isMark.1
    have hend := hp.isMark.le_length
    rw [codeAt]
    dsimp only
    split
    · next hbefore =>
      have := hzero (p - 1) hbefore.2
      omega
    · omega
  · exact ⟨hlength, Nat.le_refl _⟩

end StartCode

namespace NalFormat

open StartCode (IsForm EndsAt)

variable {f : NalFormat} {unit rest bytes : Bytes}

/-! ## Delimiters at the very start -/

/-- A byte string begins with a start code and the header of an access unit delimiter. -/
def BeginsWithDelimiter (f : NalFormat) (bytes : Bytes) : Prop :=
  ∃ code header more, IsForm code ∧ f.isDelimiter header = true ∧ bytes = code ++ header :: more

/-- A byte string is an access unit delimiter with its start code, given what follows it: it reaches
from the start code up to the next one, or to the end. -/
def IsDelimiterUnit (f : NalFormat) (unit rest : Bytes) : Prop :=
  ∃ code header content, IsForm code ∧ f.isDelimiter header = true ∧
    unit = code ++ header :: content ∧ EndsAt (unit ++ rest) code.length unit.length

/-- Byte strings are access unit delimiters with their start codes, one behind the other. -/
def IsDelimiterRun (f : NalFormat) : List Bytes → Bytes → Prop
  | [], _ => True
  | unit :: units, rest =>
    f.IsDelimiterUnit unit (units.flatten ++ rest) ∧ f.IsDelimiterRun units rest

/-- The header of a delimiter is not zero. -/
theorem ne_zero_of_isDelimiter {header : UInt8} (h : f.isDelimiter header = true) : header ≠ 0 := by
  rintro rfl
  cases f <;> exact absurd h (by decide)

theorem not_begins_nil : ¬ f.BeginsWithDelimiter [] := by
  rintro ⟨code, header, more, -, -, hnil⟩
  exact absurd hnil (by simp)

/-- What is found at the very start, with the header of a delimiter behind it, begins one. -/
theorem begins_of_start {c : StartCode} (hmark : StartCode.IsMark bytes c.mark)
    (hc : c = StartCode.codeAt bytes c.mark) (hstart : c.start = 0)
    (hheader : (bytes[c.nalStart]?).any f.isDelimiter = true) : f.BeginsWithDelimiter bytes := by
  obtain ⟨code, more, hform, rfl, hlength⟩ := StartCode.exists_form_of_start hmark hc hstart
  rw [← hlength, List.getElem?_append_right (Nat.le_refl _), Nat.sub_self] at hheader
  obtain ⟨header, hmore, hdelimiter⟩ := (Option.any_eq_true _ _).mp hheader
  obtain ⟨content, rfl⟩ := List.head?_eq_some_iff.mp (List.head?_eq_getElem? ▸ hmore)
  exact ⟨code, header, content, hform, hdelimiter, rfl⟩

theorem IsDelimiterUnit.begins (h : f.IsDelimiterUnit unit rest) :
    f.BeginsWithDelimiter (unit ++ rest) := by
  obtain ⟨code, header, content, hform, hheader, rfl, -⟩ := h
  exact ⟨code, header, content ++ rest, hform, hheader, by simp⟩

theorem IsDelimiterUnit.length_pos (h : f.IsDelimiterUnit unit rest) : 0 < unit.length := by
  obtain ⟨code, header, content, -, -, rfl, -⟩ := h
  rw [List.length_append, List.length_cons]
  omega

theorem find?_of_unit {code : Bytes} {header : UInt8} {content : Bytes} (hform : IsForm code)
    (hunit : unit = code ++ header :: content) (rest : Bytes) :
    StartCode.find? (unit ++ rest) 0 = some { start := 0, mark := code.length - 3 } := by
  rw [hunit, List.append_assoc]
  exact StartCode.find?_of_form hform _

/-- Where a delimiter begins, a delimiter stands. -/
theorem exists_unit_of_begins (h : f.BeginsWithDelimiter bytes) :
    ∃ unit rest, bytes = unit ++ rest ∧ f.IsDelimiterUnit unit rest := by
  obtain ⟨code, header, more, hform, hheader, rfl⟩ := h
  obtain ⟨e, he⟩ := StartCode.exists_endsAt (code ++ header :: more) code.length
  obtain ⟨hlt, hle⟩ := he.bounds (b := header) (by simp) (ne_zero_of_isDelimiter hheader)
  obtain ⟨n, rfl⟩ := Nat.exists_eq_add_of_lt hlt
  have htake : (code ++ header :: more).take (code.length + n + 1) =
      code ++ header :: more.take n := by
    rw [Nat.add_assoc, List.take_length_add_append, List.take_succ_cons]
  refine ⟨_, _, (List.take_append_drop (code.length + n + 1) _).symm, code, header, more.take n,
    hform, hheader, htake, ?_⟩
  rw [List.take_append_drop, List.length_take_of_le hle]
  exact he

/-- A byte string begins with one delimiter at most. -/
theorem IsDelimiterUnit.unique {unit' rest' : Bytes} (h : f.IsDelimiterUnit unit rest)
    (h' : f.IsDelimiterUnit unit' rest') (heq : unit ++ rest = unit' ++ rest') :
    unit = unit' ∧ rest = rest' := by
  obtain ⟨code, header, content, hform, -, hunit, hends⟩ := h
  obtain ⟨code', header', content', hform', -, hunit', hends'⟩ := h'
  have hcode : code.length = code'.length := by
    have hfind := find?_of_unit hform hunit rest
    rw [heq, find?_of_unit hform' hunit' rest'] at hfind
    have hmark := congrArg StartCode.nalStart (Option.some.inj hfind)
    have hlength := hform.three_le_length
    have hlength' := hform'.three_le_length
    simp only [StartCode.nalStart] at hmark
    omega
  refine List.append_inj heq ?_
  rw [hcode, heq] at hends
  exact hends.unique hends'

/-! ## What is taken off -/

/-- Where no delimiter begins, nothing is taken off. -/
theorem stripLeadingAuds_of_not_begins (h : ¬ f.BeginsWithDelimiter bytes) :
    f.stripLeadingAuds bytes = bytes := by
  rw [stripLeadingAuds]
  split
  · rfl
  · next c hfind =>
    refine if_neg ?_
    rintro ⟨hstart, hheader⟩
    obtain ⟨hfirst, hc⟩ := StartCode.find?_eq_some_iff.mp hfind
    exact h (begins_of_start hfirst.isMark hc hstart hheader)

/-- One delimiter is taken off, and then those behind it. -/
theorem stripLeadingAuds_of_unit (h : f.IsDelimiterUnit unit rest) :
    f.stripLeadingAuds (unit ++ rest) = f.stripLeadingAuds rest := by
  obtain ⟨code, header, content, hform, hheader, hunit, hends⟩ := h
  have hnal : code.length - 3 + 3 = code.length := Nat.sub_add_cancel hform.three_le_length
  have hdelimiter : ((unit ++ rest)[code.length]?).any f.isDelimiter = true := by
    rw [hunit, List.append_assoc, List.getElem?_append_right (Nat.le_refl _), Nat.sub_self]
    exact hheader
  rw [stripLeadingAuds, find?_of_unit hform hunit]
  dsimp only
  rw [StartCode.nalStart, hnal, if_pos ⟨rfl, hdelimiter⟩]
  split
  · next hnone =>
    have hall := hends.unique (StartCode.endsAt_of_none hnone)
    rw [List.length_append] at hall
    obtain rfl : rest = [] := List.eq_nil_of_length_eq_zero (by omega)
    exact (stripLeadingAuds_of_not_begins not_begins_nil).symm
  · next next hsome =>
    rw [← hends.unique (StartCode.endsAt_of_some hsome), List.drop_left]

/-- The delimiters that are taken off, and what is left. -/
theorem exists_run (f : NalFormat) (bytes : Bytes) :
    ∃ units, bytes = units.flatten ++ f.stripLeadingAuds bytes ∧
      f.IsDelimiterRun units (f.stripLeadingAuds bytes) ∧
        ¬ f.BeginsWithDelimiter (f.stripLeadingAuds bytes) := by
  by_cases h : f.BeginsWithDelimiter bytes
  · obtain ⟨unit, rest, hbytes, hunit⟩ := exists_unit_of_begins h
    have hshorter : rest.length < bytes.length := by
      have := hunit.length_pos
      rw [hbytes, List.length_append]
      omega
    obtain ⟨units, hrest, hrun, hleft⟩ := exists_run f rest
    rw [hbytes, stripLeadingAuds_of_unit hunit]
    refine ⟨unit :: units, ?_, ⟨?_, hrun⟩, hleft⟩
    · rw [List.flatten_cons, List.append_assoc, ← hrest]
    · rwa [← hrest]
  · rw [stripLeadingAuds_of_not_begins h]
    exact ⟨[], rfl, trivial, h⟩
termination_by bytes.length
decreasing_by exact hshorter

/-- A run behind which no delimiter begins is the longest one. -/
theorem prefix_of_isDelimiterRun {others units : List Bytes} {left : Bytes}
    (hothers : f.IsDelimiterRun others left) (hunits : f.IsDelimiterRun units rest)
    (heq : others.flatten ++ left = units.flatten ++ rest) (hrest : ¬ f.BeginsWithDelimiter rest) :
    others <+: units := by
  induction others generalizing units with
  | nil => exact List.nil_prefix
  | cons other others ih =>
    obtain ⟨hother, hothers⟩ := hothers
    rw [List.flatten_cons, List.append_assoc] at heq
    cases units with
    | nil =>
      have hbegins := hother.begins
      rw [heq] at hbegins
      exact absurd hbegins hrest
    | cons unit units =>
      obtain ⟨hunit, hunits⟩ := hunits
      rw [List.flatten_cons, List.append_assoc] at heq
      obtain ⟨rfl, htail⟩ := hother.unique hunit heq
      exact List.cons_prefix_cons.mpr ⟨rfl, ih hothers hunits htail⟩

/-- **Leading delimiters.**  What is taken off the start of an access unit is a run of delimiters,
each of them a start code, a header and all bytes up to the next start code or the end; and there is
no longer run, since every other one is the first part of it.  What is left does not begin with a
delimiter.  So an access unit that does not begin with one is left as it is, and there is nothing to
take off a second time. -/
theorem stripLeadingAuds_longest (f : NalFormat) (bytes : Bytes) :
    (∃ units, bytes = units.flatten ++ f.stripLeadingAuds bytes ∧
        f.IsDelimiterRun units (f.stripLeadingAuds bytes) ∧
          ∀ others rest, bytes = others.flatten ++ rest → f.IsDelimiterRun others rest →
            others <+: units) ∧
      ¬ f.BeginsWithDelimiter (f.stripLeadingAuds bytes) ∧
      (¬ f.BeginsWithDelimiter bytes → f.stripLeadingAuds bytes = bytes) ∧
      f.stripLeadingAuds (f.stripLeadingAuds bytes) = f.stripLeadingAuds bytes := by
  obtain ⟨units, hbytes, hrun, hleft⟩ := exists_run f bytes
  refine ⟨⟨units, hbytes, hrun, fun others rest hothers hrest => ?_⟩, hleft,
    stripLeadingAuds_of_not_begins, stripLeadingAuds_of_not_begins hleft⟩
  exact prefix_of_isDelimiterRun hrest hrun (hothers.symm.trans hbytes) hleft

/-- The zero byte behind a delimiter belongs to the start code of the next unit, and a delimiter
behind other data stays. -/
theorem stripLeadingAuds_longest_before_four_bytes :
    h264.IsDelimiterRun [[0, 0, 1, 9, 240]] [0, 0, 0, 1, 103] ∧
      (∃ units, [0, 0, 1, 9, 240, 0, 0, 0, 1, 103] =
          units.flatten ++ h264.stripLeadingAuds [0, 0, 1, 9, 240, 0, 0, 0, 1, 103] ∧
        [[0, 0, 1, 9, 240]] <+: units) ∧
      ¬ h264.BeginsWithDelimiter [255, 0, 0, 1, 9] ∧
      h264.stripLeadingAuds [255, 0, 0, 1, 9] = [255, 0, 0, 1, 9] := by
  have hrun : h264.IsDelimiterRun [[0, 0, 1, 9, 240]] [0, 0, 0, 1, 103] :=
    ⟨⟨[0, 0, 1], 9, [240], .inl rfl, by decide, rfl,
      StartCode.endsAt_of_some
        (show StartCode.find? _ 3 = some { start := 5, mark := 6 } by decide)⟩, trivial⟩
  have hother : ¬ h264.BeginsWithDelimiter [255, 0, 0, 1, 9] := by
    rintro ⟨code, header, more, rfl | rfl, -, heq⟩
    · exact absurd (List.cons.inj heq).1 (by decide)
    · exact absurd (List.cons.inj heq).1 (by decide)
  obtain ⟨⟨units, hbytes, -, hlongest⟩, -⟩ :=
    stripLeadingAuds_longest h264 [0, 0, 1, 9, 240, 0, 0, 0, 1, 103]
  obtain ⟨-, -, hsame, -⟩ := stripLeadingAuds_longest h264 [255, 0, 0, 1, 9]
  exact ⟨hrun, ⟨units, hbytes, hlongest _ _ rfl hrun⟩, hother, hsame hother⟩

end NalFormat

end TransportStream
