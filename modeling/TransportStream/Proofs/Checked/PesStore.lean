import TransportStream.Proofs.Checked.Pes

/-!
# One payload for all phases

A `PesAccumulator` has bytes only in the stages that use them, and a count of what may follow only
where a packet is bounded.  What is kept can also be four things that do not know of each other: a
byte string, the timestamps in force, a phase, and a count.  The byte string is the start of a
header in one phase, a piece of payload in another, and of no use in the others; the count belongs
to one phase, and is there in all.  Every way out of a phase then has to clear what the next phase
must not find, and the ways out clear different things.

`Store` is these four things, with one function for each of the accumulator that looks at them.
Each of them does what its counterpart does with the accumulator that the store stands for.

* `Store.ofAccumulator`: the store for an accumulator.
* `Store.startBody_eq`: the header.
* `Store.unitStart_eq`, `Store.continuation_eq`, `Store.discard_eq`: the calls.
-/

namespace TransportStream

namespace Checked

namespace Pes

/-- How far the current PES packet has come. -/
inductive Phase where
  /-- There is none. -/
  | idle
  /-- The bytes are the start of a header, and `requested` of them are needed to go on. -/
  | headerPending (requested : Nat)
  /-- The bytes are the last piece of payload. -/
  | body
  /-- The rest of the packet is not used. -/
  | discarding
  deriving DecidableEq

/-- What is kept from one piece of a PES packet to the next. -/
structure Store where
  /-- The bytes. -/
  payload : Bytes := []
  /-- The timestamps in force. -/
  timing : Timing := {}
  /-- What the bytes are. -/
  phase : Phase := .idle
  /-- The number of bytes that may follow in a bounded packet. -/
  remaining : Option Nat := none
  deriving DecidableEq

/-- What a piece of data does to a store. -/
structure StoreStep where
  /-- The store afterwards. -/
  store : Store
  /-- What was notable. -/
  notices : List Notice := []
  /-- What became of the data. -/
  result : Except PesError PesProgress

namespace Store

/-- Drops the bytes beyond the end of a bounded packet, and counts the others down. -/
def limit (s : Store) : Option (Store × List Notice) :=
  match s.remaining with
  | none => some (s, [])
  | some count =>
    if count < s.payload.length then do
      let beyond ← sub? s.payload.length count
      let front ← slice? s.payload 0 count
      let left ← sub? count front.length
      return ({ s with payload := front, remaining := some left }, [.bytesBeyondPes beyond])
    else do
      let left ← sub? count s.payload.length
      return ({ s with remaining := some left }, [])

/-- Reads the header from the bytes, and leaves behind what follows it. -/
def startBody (s : Store) : Option StoreStep := do
  match ← header s.payload with
  | .ok header =>
    let timing := PesAccumulator.inherit s.timing header.timing
    let payload ← from? s.payload header.headerLength
    let (store, notices) ←
      limit { payload, timing, phase := .body, remaining := header.payloadLength }
    return { store, notices, result := .ok (.ready true) }
  | .error (.needMoreData requested _) =>
    return { store := { s with phase := .headerPending requested }, result := .ok .pending }
  | .error e =>
    return { store := { s with payload := [], phase := .discarding }, result := .error e }

/-- What is notable about the end of the current PES packet. -/
def endingNotices (s : Store) : List Notice :=
  match s.remaining, s.phase with
  | some (missing + 1), .body => [.pesEndedShort (missing + 1)]
  | _, _ => []

/-- Takes data that starts a PES packet. -/
def unitStart (s : Store) (data : Bytes) : Option StoreStep :=
  match s.phase with
  | .headerPending requested => some {
      store := { s with payload := [], phase := .idle, remaining := none }
      notices := s.endingNotices
      result := .error (.needMoreData requested s.payload.length) }
  | _ => do
    let step ← startBody { s with payload := data, remaining := none }
    return { step with notices := s.endingNotices ++ step.notices }

/-- Takes data that carries on the current PES packet. -/
def continuation (s : Store) (data : Bytes) : Option StoreStep :=
  match s.phase with
  | .idle | .discarding => some { store := s, result := .ok .ignored }
  | .headerPending _ => startBody { s with payload := s.payload ++ data }
  | .body => do
    let (store, notices) ← limit { s with payload := data }
    return { store, notices, result := .ok (.ready false) }

/-- Gives up the rest of the current PES packet. -/
def discard (s : Store) : Store :=
  { s with payload := [], phase := .discarding, remaining := none }

/-- The payload made available by the last piece of data. -/
def available (s : Store) : Bytes :=
  match s.phase with
  | .body => s.payload
  | _ => []

/-! ## The same as an accumulator -/

/-- The store for an accumulator. -/
def ofAccumulator (a : PesAccumulator) : Store :=
  match a.stage with
  | .idle => { timing := a.timing }
  | .headerPending held requested =>
    { payload := held, timing := a.timing, phase := .headerPending requested }
  | .body available remaining =>
    { payload := available, timing := a.timing, phase := .body, remaining }
  | .discarding => { timing := a.timing, phase := .discarding }

/-- What a piece of data does to the store for an accumulator. -/
def stored (step : PesStep) : StoreStep where
  store := ofAccumulator step.accumulator
  notices := step.notices
  result := step.result

variable (a : PesAccumulator) (data : Bytes)

theorem timing_ofAccumulator : (ofAccumulator a).timing = a.timing := by
  unfold ofAccumulator
  cases a.stage <;> rfl

theorem available_ofAccumulator : (ofAccumulator a).available = a.available := by
  unfold ofAccumulator PesAccumulator.available
  cases a.stage <;> rfl

theorem endingNotices_ofAccumulator : (ofAccumulator a).endingNotices = a.endingNotices := by
  unfold ofAccumulator PesAccumulator.endingNotices
  cases a.stage with
  | body available remaining => cases remaining with
    | none => rfl
    | some missing => cases missing <;> rfl
  | _ => rfl

theorem discard_eq : (ofAccumulator a).discard = ofAccumulator a.discard := by
  unfold ofAccumulator
  cases a.stage <;> rfl

/-- Both make the same bytes available, and count the same number down. -/
theorem limit_eq (timing : Timing) (payload : Bytes) (remaining : Option Nat) (first : Bool) :
    limit { payload, timing, phase := .body, remaining } =
      some (ofAccumulator (PesAccumulator.supply timing payload remaining first).accumulator,
        (PesAccumulator.supply timing payload remaining first).notices) := by
  cases remaining with
  | none => rfl
  | some count =>
    unfold limit PesAccumulator.supply
    by_cases hlong : count < payload.length
    · have hfront : (payload.take count).length = count :=
        List.length_take_of_le (Nat.le_of_lt hlong)
      have hleft : count - payload.length = count - count := by omega
      simp [hlong, sub?_of_le (Nat.le_of_lt hlong), slice?_zero (Nat.le_of_lt hlong), hfront,
        sub?_of_le (Nat.le_refl count), hleft, ofAccumulator, -List.length_take]
    · have hle : payload.length ≤ count := Nat.not_lt.mp hlong
      simp [hlong, sub?_of_le hle, List.take_of_length_le hle, ofAccumulator]

/-- **The header.**  The same is left of bytes for which no count has been kept, whatever they have
been before. -/
theorem startBody_eq (phase : Phase) :
    startBody { payload := data, timing := a.timing, phase } =
      some (stored (a.startBody data)) := by
  rw [startBody, header_eq, PesAccumulator.startBody]
  cases hheader : PesHeader.ofBytes data with
  | ok header =>
    have hle := PesHeader.headerLength_le_length hheader
    simp only [Option.bind_eq_bind, Option.bind_some, from?_of_le hle, limit_eq _ _ _ true]
    rw [stored, (PesAccumulator.supply_eq _ _ _ true).2]
    rfl
  | error e => cases e <;> rfl

/-- **The start of a packet.** -/
theorem unitStart_eq : (ofAccumulator a).unitStart data = some (stored (a.unitStart data)) := by
  have hnotices := endingNotices_ofAccumulator a
  unfold unitStart PesAccumulator.unitStart
  rw [hnotices]
  unfold ofAccumulator PesAccumulator.endingNotices
  cases hstage : a.stage with
  | headerPending held requested => rfl
  | _ =>
    dsimp only
    rw [startBody_eq]
    rfl

/-- **What carries a packet on.** -/
theorem continuation_eq :
    (ofAccumulator a).continuation data = some (stored (a.continuation data)) := by
  unfold continuation PesAccumulator.continuation ofAccumulator
  cases hstage : a.stage with
  | idle => simp [stored, ofAccumulator, hstage]
  | discarding => simp [stored, ofAccumulator, hstage]
  | headerPending held requested => exact startBody_eq a (held ++ data) _
  | body available remaining =>
    dsimp only
    rw [limit_eq a.timing data remaining false, stored, (PesAccumulator.supply_eq _ _ _ false).2]
    rfl

end Store

end Pes

end Checked

end TransportStream
