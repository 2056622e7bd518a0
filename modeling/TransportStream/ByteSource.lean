import TransportStream.Bytes

/-!
# Byte sources

A transport stream is read from something that gives bytes in portions of its own choosing, can be
interrupted, and can fail.  All of that is a list of steps, one for each call of `read`: the data
is fixed, and the steps say how it comes out.  After the last step every call gives as much as is
asked for and is left, so a list of steps describes a finite number of irregularities, and the
source without steps is the undisturbed one.

## The measure of a source

Each call that asks for something and gets something uses up a step or some data, which is what
ends the loops that read (`ByteSource.size_read_lt`).
-/

namespace TransportStream

/-- What one call of `read` does. -/
inductive ReadStep where
  /-- It gives at most so many bytes. -/
  | atMost (count : Nat)
  /-- It gives nothing and asks to be repeated. -/
  | interrupted
  /-- It fails, with a message. -/
  | failure (message : String)
  /-- It claims that the data is at its end. -/
  | endOfData
  deriving DecidableEq

/-- A finite byte string, and how it can be read. -/
structure ByteSource where
  /-- The bytes that have not been read. -/
  data : Bytes
  /-- What the next calls do. -/
  steps : List ReadStep := []
  deriving DecidableEq

/-- What a call of `read` gave. -/
inductive ReadResult where
  /-- Bytes; none at all mean the end of the data. -/
  | bytes (portion : Bytes)
  | interrupted
  | failure (message : String)
  deriving DecidableEq

namespace ByteSource

/-- Gives at most so many bytes, and the source without them. -/
def give (s : ByteSource) (count : Nat) : ReadResult × ByteSource :=
  (.bytes (s.data.take count), { s with data := s.data.drop count })

/-- One call that asks for at most `room` bytes. -/
def read (s : ByteSource) (room : Nat) : ReadResult × ByteSource :=
  match s.steps with
  | [] => s.give room
  | step :: rest =>
    let s := { s with steps := rest }
    match step with
    | .atMost count => s.give (min count room)
    | .interrupted => (.interrupted, s)
    | .failure message => (.failure message, s)
    | .endOfData => s.give 0

/-- The number of steps and bytes that are left. -/
def size (s : ByteSource) : Nat :=
  s.steps.length + s.data.length

/-- What a call gives is taken off the front of the data. -/
theorem append_data_of_read {s s' : ByteSource} {room : Nat} {portion : Bytes}
    (h : s.read room = (.bytes portion, s')) : portion ++ s'.data = s.data := by
  unfold read at h
  split at h
  · cases h
    exact List.take_append_drop room s.data
  · next step rest _ =>
    cases step <;> simp only [give] at h
    · cases h
      exact List.take_append_drop _ s.data
    · cases h
    · cases h
    · cases h
      rfl

/-- Nothing is lost by an interruption. -/
theorem data_of_read_interrupted {s s' : ByteSource} {room : Nat}
    (h : s.read room = (.interrupted, s')) : s'.data = s.data := by
  unfold read at h
  split at h
  · cases h
  · next step rest _ =>
    cases step <;> simp only [give] at h <;> cases h
    rfl

/-- Nothing is lost by a failure. -/
theorem data_of_read_failure {s s' : ByteSource} {room : Nat} {message : String}
    (h : s.read room = (.failure message, s')) : s'.data = s.data := by
  unfold read at h
  split at h
  · cases h
  · next step rest _ =>
    cases step <;> simp only [give] at h <;> cases h
    rfl

/-- A call never gives more than it was asked for. -/
theorem length_le_of_read {s s' : ByteSource} {room : Nat} {portion : Bytes}
    (h : s.read room = (.bytes portion, s')) : portion.length ≤ room := by
  unfold read at h
  split at h
  · cases h
    exact List.length_take_le room s.data
  · next step rest _ =>
    cases step <;> simp only [give] at h <;> cases h
    · rw [List.length_take]
      omega
    · simp

theorem steps_of_read {s s' : ByteSource} {room : Nat} {r : ReadResult}
    (h : s.read room = (r, s')) : s'.steps = s.steps.tail := by
  unfold read at h
  split at h
  · next hs =>
    cases h
    simp [hs]
  · next step rest hs =>
    cases step <;> simp only [give] at h <;> cases h <;> simp [hs]

/-- A call that gives bytes, or asks to be repeated, leaves less of the source. -/
theorem size_read_lt {s s' : ByteSource} {room : Nat} {r : ReadResult}
    (h : s.read room = (r, s')) (hr : r = .interrupted ∨ ∃ b rest, r = .bytes (b :: rest)) :
    s'.size < s.size := by
  have hsteps := steps_of_read h
  unfold size
  rw [hsteps, List.length_tail]
  rcases hr with rfl | ⟨b, rest, rfl⟩
  · rw [data_of_read_interrupted h]
    have hne : s.steps ≠ [] := by
      intro he
      unfold read at h
      rw [he] at h
      cases h
    have := List.length_pos_iff.mpr hne
    omega
  · have := congrArg List.length (append_data_of_read h)
    simp only [List.length_append, List.length_cons] at this
    omega

end ByteSource

end TransportStream
