import TransportStream.Bytes

/-!
# Start codes

In a video elementary stream every NAL unit is preceded by a start code, the bytes `00 00 01`.  A
zero byte right before them belongs to the start code as well, so a start code has two positions of
interest: `mark`, where `00 00 01` stands, and `start`, where the previous NAL unit ends.

## Skipping

A search that looks at the last of three bytes can often move on by three: if that byte is neither
zero nor one, no start code contains it.  If it is zero the next position has to be tried.  If it
is one, either the two bytes before it are zero and this is a start code, or no start code contains
the byte and three positions are passed again.

* `search` skips in this way.  It gives a start code together with the bytes after it, from where a
  search for the next one goes on.
* `find?` is the first start code from a given offset on, and `all` are all of them.
* `bounds_of_search` says where a start code that is found can be.
-/

namespace TransportStream

/-- The place of a start code in a byte string. -/
structure StartCode where
  /-- The offset of its first byte, a zero that belongs to it included. -/
  start : Nat
  /-- The offset of its `00 00 01`. -/
  mark : Nat
  deriving DecidableEq

namespace StartCode

/-- The offset of the NAL unit after the start code. -/
def nalStart (c : StartCode) : Nat :=
  c.mark + 3

/-- The start code whose `00 00 01` stands at the given offset, behind a zero byte or not. -/
def atMark (afterZero : Bool) (mark : Nat) : StartCode where
  start := if afterZero then mark - 1 else mark
  mark := mark

/-- The first start code in a byte string whose head has offset `i`, and the bytes after it.
`afterZero` tells whether the byte before the head is zero. -/
def search (afterZero : Bool) (i : Nat) : Bytes → Option (StartCode × Bytes)
  | a :: b :: c :: rest =>
    if c = 0 then search (a == 0) (i + 1) (b :: c :: rest)
    else if c = 1 ∧ a = 0 ∧ b = 0 then some (atMark afterZero i, rest)
    else search false (i + 3) rest
  | _ => none

/-- A start code that is found starts at most one byte before the search, lies wholly within the
byte string, and is followed by what is left of it. -/
theorem bounds_of_search {afterZero : Bool} {i : Nat} {bytes rest : Bytes} {code : StartCode}
    (h : search afterZero i bytes = some (code, rest)) :
    i ≤ code.start + 1 ∧ code.nalStart + rest.length = i + bytes.length := by
  fun_induction search afterZero i bytes with
  | case1 afterZero i a b rest ih =>
    have := ih h
    simp only [List.length_cons] at *
    omega
  | case2 afterZero i a b c rest =>
    cases h
    simp only [atMark, nalStart, List.length_cons]
    split <;> omega
  | case3 afterZero i a b c rest _ _ ih =>
    have := ih h
    simp only [List.length_cons] at *
    omega
  | case4 => cases h

/-- The bytes after a start code are fewer. -/
theorem length_lt_of_search {afterZero : Bool} {i : Nat} {bytes rest : Bytes} {code : StartCode}
    (h : search afterZero i bytes = some (code, rest)) : rest.length < bytes.length := by
  fun_induction search afterZero i bytes with
  | case1 afterZero i a b rest ih =>
    have := ih h
    simp only [List.length_cons] at *
    omega
  | case2 =>
    cases h
    simp only [List.length_cons]
    omega
  | case3 afterZero i a b c rest _ _ ih =>
    have := ih h
    simp only [List.length_cons] at *
    omega
  | case4 => cases h

/-- True if there is a byte before the given offset, and it is zero. -/
def isAfterZero (bytes : Bytes) (offset : Nat) : Bool :=
  match offset with
  | 0 => false
  | before + 1 => bytes[before]? == some 0

/-- The first start code with its `00 00 01` at or after the given offset. -/
def find? (bytes : Bytes) (offset : Nat) : Option StartCode :=
  (search (isAfterZero bytes offset) offset (bytes.drop offset)).map (·.1)

/-- The start codes in a byte string whose head has offset `i`, in order, behind those found before,
of which the last one is in front. -/
def collect (found : List StartCode) (i : Nat) (bytes : Bytes) : List StartCode :=
  match _h : search false i bytes with
  | none => found.reverse
  | some (code, rest) => collect (code :: found) code.nalStart rest
termination_by bytes.length
decreasing_by exact length_lt_of_search _h

/-- All start codes of a byte string, in order.  The search for each goes on behind the one
before. -/
def all (bytes : Bytes) : List StartCode :=
  collect [] 0 bytes

/-- A start code that is found starts at most one byte before the place where the search begins,
and ends within the byte string. -/
theorem bounds_of_find? {bytes : Bytes} {offset : Nat} {c : StartCode}
    (h : find? bytes offset = some c) : offset ≤ c.start + 1 ∧ c.nalStart ≤ bytes.length := by
  obtain ⟨⟨code, rest⟩, hs, rfl⟩ := Option.map_eq_some_iff.mp h
  have hb := bounds_of_search hs
  have hl := length_lt_of_search hs
  rw [List.length_drop] at hb hl
  dsimp only
  omega

end StartCode

end TransportStream
