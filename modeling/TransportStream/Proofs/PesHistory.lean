import TransportStream.Proofs.Checked.PesStore
import TransportStream.Proofs.FailedPackets

/-!
# What an accumulator owes to its calls

The pieces of PES packets come as they like: packets start while another one's header is incomplete,
pieces are missing, headers are malformed, and at any time the rest of a packet can be given up.
Between two calls everything that is kept can nevertheless be told from the calls so far: what the
bytes are, how many may follow, and where the timestamps are from.

## Histories

A history is a list of turns, which are calls with the store before and afterwards.  A packet is in
it as the turns since its start, and what they have brought is its data (`PesTurn.IsPacket`).  The
count of a bounded packet and what has been made available add up to what its header announces, at
every point of the packet.  The timestamps in force are those of the last header that gave some
(`PesTurn.inForce`); nothing else touches them.

* `PesCall`, `PesTurn`: calls, and calls that have been carried out.
* `PesAccumulator.IsKept`: the invariant.
* `PesAccumulator.IsKept.follows`: one call.
* `PesTurn.IsLawful`: what a call gives back.
* `PesCall.run_accounted`: any number of calls.
-/

namespace TransportStream

open Checked.Pes

/-! ## Requests for more -/

/-- The optional fields ask for more as long as some is missing. -/
theorem PesHeader.bounds_of_readOptional_needMoreData {rest : Bytes} {requested available : Nat}
    (h : readOptional rest = .error (.needMoreData requested available)) :
    available = fixedSize + rest.length ∧ fixedSize + rest.length < requested ∧
      requested ≤ 264 := by
  unfold readOptional at h
  split at h
  · next checks flags dataLength fields =>
    have hmax := dataLength.toNat_lt
    dsimp only at h
    split at h
    · cases h
    · split at h
      · cases h
      · split at h
        · cases h
        · split at h
          · next hshort =>
            cases h
            simp only [fixedSize, extendedSize, List.length_cons]
            omega
          · split at h <;> cases h
  · next hshort =>
    cases h
    have hless : rest.length < 3 := by
      rcases rest with _ | ⟨b₀, _ | ⟨b₁, _ | ⟨b₂, rest⟩⟩⟩
      · simp
      · simp
      · simp
      · exact absurd rfl (hshort b₀ b₁ b₂ rest)
    refine ⟨rfl, ?_, by decide⟩
    rw [extendedSize, fixedSize]
    omega

/-- More data is asked for as long as some is missing, and a header has at most 264 bytes. -/
theorem PesHeader.bounds_of_needMoreData {bytes : Bytes} {requested available : Nat}
    (h : ofBytes bytes = .error (.needMoreData requested available)) :
    available = bytes.length ∧ bytes.length < requested ∧ requested ≤ 264 := by
  unfold ofBytes at h
  split at h
  · next b₀ b₁ b₂ b₃ b₄ b₅ rest =>
    dsimp only at h
    split at h
    · cases h
    · split at h
      · split at h
        · next e hread =>
          cases h
          have hlength : (b₀ :: b₁ :: b₂ :: b₃ :: b₄ :: b₅ :: rest).length =
              fixedSize + rest.length := Nat.add_comm rest.length 6
          rw [hlength]
          exact bounds_of_readOptional_needMoreData hread
        · cases h
      · cases h
  · next hshort =>
    cases h
    have hless : bytes.length < 6 := by
      match bytes, hshort with
      | [], _ | [_], _ | [_, _], _ | [_, _, _], _ | [_, _, _, _], _ | [_, _, _, _, _], _ => simp
      | b₀ :: b₁ :: b₂ :: b₃ :: b₄ :: b₅ :: rest, hshort =>
        exact absurd rfl (hshort b₀ b₁ b₂ b₃ b₄ b₅ rest)
    exact ⟨rfl, hless, by decide⟩

/-! ## Calls and turns -/

/-- A call to what follows the PES packets of a stream. -/
inductive PesCall where
  /-- Data that starts a PES packet. -/
  | unitStart (data : Bytes)
  /-- Data that carries on the current one. -/
  | continuation (data : Bytes)
  /-- The rest of the current one is given up. -/
  | discard
  deriving DecidableEq

/-- A call that has been carried out. -/
structure PesTurn where
  /-- The call. -/
  call : PesCall
  /-- The store before it. -/
  before : Store
  /-- The store after it. -/
  after : Store
  /-- What became of the data, if there was some. -/
  result : Option (Except PesError PesProgress)

namespace PesTurn

/-- The payload made available. -/
def available (t : PesTurn) : Bytes :=
  t.after.available

/-- The bytes from which a header is read: those of a new packet, or those that are there of a
header already, together with the new ones. -/
def read? (t : PesTurn) : Option Bytes :=
  match t.before.phase, t.call with
  | .headerPending _, .continuation data => some (t.before.payload ++ data)
  | .headerPending _, .unitStart _ => none
  | _, .unitStart data => some data
  | _, _ => none

/-- The timestamps that a header gives: one for decoding is never missing. -/
def given? (t : PesTurn) : Option Timing := do
  let header ← (PesHeader.ofBytes (← t.read?)).toOption
  let pts ← header.timing.pts
  return { pts := some pts, dts := some (header.timing.dts.getD pts) }

/-- The timestamps of the last header that gave some. -/
def inForce (turns : List PesTurn) : Timing :=
  (turns.filterMap given?).getLast?.getD {}

/-- The turns since a packet has started, and all that has come of it. -/
structure IsPacket (turns since : List PesTurn) (data : Bytes) : Prop where
  /-- They are the last ones. -/
  suffix : since <:+ turns
  /-- They start the packet and carry it on. -/
  calls : ∃ (first : Bytes) (more : List Bytes),
    since.map call = .unitStart first :: more.map .continuation ∧ data = first ++ more.flatten

end PesTurn

namespace Checked.Pes.Store

/-- Carries out one call. -/
def carryOut (s : Store) (call : PesCall) : Option PesTurn :=
  match call with
  | .unitStart data => (s.unitStart data).map fun step =>
    { call, before := s, after := step.store, result := some step.result }
  | .continuation data => (s.continuation data).map fun step =>
    { call, before := s, after := step.store, result := some step.result }
  | .discard => some { call, before := s, after := s.discard, result := none }

/-- Carries out calls one after the other. -/
def run (s : Store) : List PesCall → Option (Store × List PesTurn)
  | [] => some (s, [])
  | call :: calls => do
    let turn ← s.carryOut call
    let (s, turns) ← turn.after.run calls
    return (s, turn :: turns)

end Checked.Pes.Store

namespace PesAccumulator

/-- What a call does to an accumulator, and its result. -/
def follow (a : PesAccumulator) : PesCall → PesAccumulator × Option (Except PesError PesProgress)
  | .unitStart data => ((a.unitStart data).accumulator, some (a.unitStart data).result)
  | .continuation data => ((a.continuation data).accumulator, some (a.continuation data).result)
  | .discard => (a.discard, none)

/-- What calls do to an accumulator. -/
def followAll (a : PesAccumulator) (calls : List PesCall) : PesAccumulator :=
  calls.foldl (fun a call => (a.follow call).1) a

/-- The call, as it is carried out on the store for an accumulator. -/
def turn (a : PesAccumulator) (call : PesCall) : PesTurn where
  call := call
  before := .ofAccumulator a
  after := .ofAccumulator (a.follow call).1
  result := (a.follow call).2

/-- The calls, as they are carried out one after the other. -/
def turns (a : PesAccumulator) : List PesCall → List PesTurn
  | [] => []
  | call :: calls => a.turn call :: (a.follow call).1.turns calls

/-- What a call does to a store is what it does to the accumulator. -/
theorem carryOut_eq (a : PesAccumulator) (call : PesCall) :
    (Store.ofAccumulator a).carryOut call = some (a.turn call) := by
  cases call with
  | unitStart data =>
    rw [Store.carryOut, Store.unitStart_eq]
    rfl
  | continuation data =>
    rw [Store.carryOut, Store.continuation_eq]
    rfl
  | discard =>
    rw [Store.carryOut, Store.discard_eq]
    rfl

theorem run_eq (a : PesAccumulator) (calls : List PesCall) :
    (Store.ofAccumulator a).run calls =
      some (.ofAccumulator (a.followAll calls), a.turns calls) := by
  induction calls generalizing a with
  | nil => rfl
  | cons call calls ih =>
    rw [Store.run, carryOut_eq]
    simp only [Option.bind_eq_bind, Option.bind_some, turn, ih]
    rfl

theorem map_call_turns (a : PesAccumulator) (calls : List PesCall) :
    (a.turns calls).map PesTurn.call = calls := by
  induction calls generalizing a with
  | nil => rfl
  | cons call calls ih => exact congrArg (call :: ·) (ih _)

end PesAccumulator

/-! ## What a call can do -/

namespace PesTurn

variable {t : PesTurn} {data : Bytes} {header : PesHeader} {e : PesError}

theorem given?_of_read? (h : t.read? = none) : t.given? = none := by
  rw [given?, h]
  rfl

theorem read?_of_discard (h : t.call = .discard) : t.read? = none := by
  rw [read?, h]
  cases t.before.phase <;> rfl

/-- A header never gives one timestamp without the other. -/
theorem isSome_of_given? {timing : Timing} (h : t.given? = some timing) :
    timing.pts.isSome = true ∧ timing.dts.isSome = true := by
  simp only [given?, Option.bind_eq_bind, Option.bind_eq_some_iff, Option.pure_def] at h
  obtain ⟨_, _, _, _, pts, _, htiming⟩ := h
  cases htiming
  exact ⟨rfl, rfl⟩

/-- Without a header there are no timestamps. -/
theorem given?_of_error (hread : t.read? = some data) (h : PesHeader.ofBytes data = .error e) :
    t.given? = none := by
  rw [given?, hread]
  simp [h, Except.toOption]

/-- The timestamps that come into force are those given, or those from before. -/
theorem inherit_eq (hread : t.read? = some data) (h : PesHeader.ofBytes data = .ok header)
    (timing : Timing) : PesAccumulator.inherit timing header.timing = t.given?.getD timing := by
  rw [given?, hread, PesAccumulator.inherit]
  cases hpts : header.timing.pts <;> simp [h, Except.toOption, hpts]

/-- A turn leaves the timestamps that it gives, or those from before. -/
theorem inForce_append (turns : List PesTurn) (t : PesTurn) :
    inForce (turns ++ [t]) = t.given?.getD (inForce turns) := by
  unfold inForce
  rw [List.filterMap_append]
  cases hgiven : t.given? <;> simp [hgiven]

/-- Neither are the timestamps in force one without the other. -/
theorem isSome_inForce (turns : List PesTurn) :
    (inForce turns).pts.isSome = (inForce turns).dts.isSome := by
  unfold inForce
  cases hlast : (turns.filterMap given?).getLast? with
  | none => rfl
  | some timing =>
    obtain ⟨t, -, hgiven⟩ := List.mem_filterMap.mp (List.mem_of_getLast? hlast)
    obtain ⟨hpts, hdts⟩ := isSome_of_given? hgiven
    exact hpts.trans hdts.symm

end PesTurn

namespace PesAccumulator

/-- What a call does to an accumulator, with its result and the bytes from which it reads a
header. -/
inductive Follows (a : PesAccumulator) :
    PesCall → PesAccumulator → Option (Except PesError PesProgress) → Option Bytes → Prop
  /-- A packet starts. -/
  | starts {data : Bytes} (stage : ¬ a.IsHeaderPending) :
    Follows a (.unitStart data) (a.startBody data).accumulator (some (a.startBody data).result)
      (some data)
  /-- More of a header arrives. -/
  | lengthens {held data : Bytes} {requested : Nat}
    (stage : a.stage = .headerPending held requested) :
    Follows a (.continuation data) (a.startBody (held ++ data)).accumulator
      (some (a.startBody (held ++ data)).result) (some (held ++ data))
  /-- A packet starts while a header is incomplete, and both are given up. -/
  | abandons {held data : Bytes} {requested : Nat}
    (stage : a.stage = .headerPending held requested) :
    Follows a (.unitStart data) { a with stage := .idle }
      (some (.error (.needMoreData requested held.length))) none
  /-- More payload arrives. -/
  | supplies {last data : Bytes} {remaining : Option Nat} (stage : a.stage = .body last remaining) :
    Follows a (.continuation data)
      { a with stage := .body (limited remaining data) (remaining.map (· - data.length)) }
      (some (.ok (.ready false))) none
  /-- Data arrives that belongs to no packet. -/
  | ignores {data : Bytes} (stage : a.stage = .idle ∨ a.stage = .discarding) :
    Follows a (.continuation data) a (some (.ok .ignored)) none
  /-- The packet is given up. -/
  | discards : Follows a .discard a.discard none none

/-- **Each call does one of these.** -/
theorem follows_follow (a : PesAccumulator) (call : PesCall) :
    a.Follows call (a.follow call).1 (a.follow call).2 (a.turn call).read? := by
  cases call with
  | unitStart data =>
    by_cases hpending : a.IsHeaderPending
    · obtain ⟨held, requested, hstage⟩ := hpending
      simpa [follow, unitStart, turn, PesTurn.read?, Store.ofAccumulator, hstage] using
        @Follows.abandons a held data requested hstage
    · obtain ⟨hacc, hresult⟩ := unitStart_eq hpending data
      have hread : (a.turn (.unitStart data)).read? = some data := by
        unfold PesTurn.read? turn Store.ofAccumulator
        cases hstage : a.stage with
        | headerPending held requested => exact absurd ⟨held, requested, hstage⟩ hpending
        | _ => rfl
      rw [follow, hacc, hresult, hread]
      exact .starts hpending
  | continuation data =>
    cases hstage : a.stage with
    | headerPending held requested =>
      simpa [follow, continuation, turn, PesTurn.read?, Store.ofAccumulator, hstage] using
        @Follows.lengthens a held data requested hstage
    | body last remaining =>
      obtain ⟨hacc, hresult⟩ := supply_eq a.timing data remaining false
      simpa [follow, continuation, turn, PesTurn.read?, Store.ofAccumulator, hstage, hacc, hresult]
        using @Follows.supplies a last data remaining hstage
    | idle =>
      simpa [follow, continuation, turn, PesTurn.read?, Store.ofAccumulator, hstage] using
        @Follows.ignores a data (.inl hstage)
    | discarding =>
      simpa [follow, continuation, turn, PesTurn.read?, Store.ofAccumulator, hstage] using
        @Follows.ignores a data (.inr hstage)
  | discard =>
    rw [PesTurn.read?_of_discard rfl]
    exact .discards

variable {a b : PesAccumulator} {call : PesCall} {read : Option Bytes} {t : PesTurn}
  {result : Option (Except PesError PesProgress)} {data : Bytes}

/-- What a header leaves of the timestamps. -/
theorem timing_startBody (a : PesAccumulator) (hread : t.read? = some data) :
    (a.startBody data).accumulator.timing = t.given?.getD a.timing := by
  cases hheader : PesHeader.ofBytes data with
  | ok header =>
    rw [startBody_of_ok a hheader, (supply_eq _ _ _ true).1]
    exact PesTurn.inherit_eq hread hheader a.timing
  | error e =>
    rw [PesTurn.given?_of_error hread hheader, startBody, hheader]
    cases e <;> rfl

/-- **Timestamps.**  A call leaves those that it gives, or those from before. -/
theorem Follows.timing (h : a.Follows call b result read) (hread : t.read? = read) :
    b.timing = t.given?.getD a.timing := by
  cases h with
  | starts | lengthens => exact timing_startBody a hread
  | abandons | supplies | ignores | discards => rw [PesTurn.given?_of_read? hread]; rfl

/-- A call that fails gives no timestamps. -/
theorem Follows.given?_of_error {e : PesError} (h : a.Follows call b result read)
    (hread : t.read? = read) (hresult : result = some (.error e)) : t.given? = none := by
  have hstart : ∀ data, t.read? = some data → (a.startBody data).result = .error e →
      t.given? = none := by
    intro data hdata hfails
    cases hheader : PesHeader.ofBytes data with
    | ok header =>
      rw [startBody_of_ok a hheader, (supply_eq _ _ _ true).2] at hfails
      cases hfails
    | error cause => exact PesTurn.given?_of_error hdata hheader
  cases h with
  | starts | lengthens => exact hstart _ hread (Option.some.inj hresult)
  | abandons | supplies | ignores | discards => exact PesTurn.given?_of_read? hread

/-- **Requests for more.**  They are what comes of a packet that starts while a header is
incomplete. -/
theorem Follows.needMoreData_iff {requested count : Nat} (h : a.Follows call b result read) :
    result = some (.error (.needMoreData requested count)) ↔
      (∃ data, call = .unitStart data) ∧
        ∃ held, a.stage = .headerPending held requested ∧ held.length = count := by
  cases h with
  | starts stage =>
    refine ⟨fun hresult => absurd (Option.some.inj hresult) startBody_ne_needMoreData, ?_⟩
    rintro ⟨-, held, hstage, -⟩
    exact absurd ⟨held, requested, hstage⟩ stage
  | lengthens stage =>
    refine ⟨fun hresult => absurd (Option.some.inj hresult) startBody_ne_needMoreData, ?_⟩
    rintro ⟨⟨data, hcall⟩, -⟩
    cases hcall
  | abandons stage =>
    rw [stage]
    constructor
    · intro hresult
      cases hresult
      exact ⟨⟨_, rfl⟩, _, rfl, rfl⟩
    · rintro ⟨-, held, hstage, rfl⟩
      cases hstage
      rfl
  | supplies | ignores | discards =>
    refine ⟨fun hresult => (by cases hresult), ?_⟩
    rintro ⟨⟨data, hcall⟩, -⟩
    cases hcall

/-- What such a call leaves. -/
theorem Follows.eq_of_needMoreData {requested count : Nat} (h : a.Follows call b result read)
    (hresult : result = some (.error (.needMoreData requested count))) :
    b = { a with stage := .idle } := by
  cases h with
  | abandons => rfl
  | starts | lengthens => exact absurd (Option.some.inj hresult) startBody_ne_needMoreData
  | supplies | ignores | discards => cases hresult

end PesAccumulator

/-! ## The invariant -/

namespace PesTurn

variable {turns since : List PesTurn} {data more : Bytes} {t : PesTurn}

theorem IsPacket.start (h : t.call = .unitStart data) : IsPacket (turns ++ [t]) [t] data where
  suffix := List.suffix_append turns [t]
  calls := ⟨data, [], by rw [List.map_singleton, h]; rfl, (List.append_nil data).symm⟩

theorem IsPacket.carryOn (h : IsPacket turns since data) (hcall : t.call = .continuation more) :
    IsPacket (turns ++ [t]) (since ++ [t]) (data ++ more) where
  suffix := by
    obtain ⟨earlier, rfl⟩ := h.suffix
    exact ⟨earlier, (List.append_assoc earlier since [t]).symm⟩
  calls := by
    obtain ⟨first, pieces, hcalls, rfl⟩ := h.calls
    refine ⟨first, pieces ++ [more], ?_, ?_⟩
    · rw [List.map_append, hcalls, List.map_singleton, hcall, List.map_append]
      rfl
    · rw [List.flatten_concat, List.append_assoc]

end PesTurn

namespace PesAccumulator

open PesTurn

/-- What an accumulator holds is accounted for by the turns so far. -/
structure IsKept (turns : List PesTurn) (a : PesAccumulator) : Prop where
  /-- What is held of a header is all that has come of the packet. -/
  pending : ∀ held requested, a.stage = .headerPending held requested →
    PesHeader.ofBytes held = .error (.needMoreData requested held.length) ∧
      ∃ since, IsPacket turns since held ∧ since.flatMap PesTurn.available = []
  /-- What has been made available and what may follow are the payload of the packet. -/
  body : ∀ last remaining, a.stage = .body last remaining →
    ∃ since data header, IsPacket turns since data ∧ PesHeader.ofBytes data = .ok header ∧
      since.flatMap PesTurn.available =
        limited header.payloadLength (data.drop header.headerLength) ∧
      remaining = header.payloadLength.map (· - (data.drop header.headerLength).length)
  /-- The timestamps are the last ones given. -/
  timing : a.timing = inForce turns

variable {turns since : List PesTurn} {data : Bytes} {a b : PesAccumulator} {t : PesTurn}
  {result : Option (Except PesError PesProgress)} {read : Option Bytes}

/-- Where no packet is in use, only the timestamps count. -/
theorem isKept_of_unused (hstage : a.stage = .idle ∨ a.stage = .discarding)
    (htiming : a.timing = inForce turns) : a.IsKept turns where
  pending held requested h := by rcases hstage with hstage | hstage <;> cases hstage.symm.trans h
  body last remaining h := by rcases hstage with hstage | hstage <;> cases hstage.symm.trans h
  timing := htiming

/-- **A header.**  It is read from all that has come of its packet. -/
theorem isKept_startBody (hpacket : IsPacket (turns ++ [t]) (since ++ [t]) data)
    (hquiet : since.flatMap PesTurn.available = [])
    (havailable : t.available = (a.startBody data).accumulator.available)
    (htiming : (a.startBody data).accumulator.timing = inForce (turns ++ [t])) :
    (a.startBody data).accumulator.IsKept (turns ++ [t]) := by
  have hall : (since ++ [t]).flatMap PesTurn.available =
      (a.startBody data).accumulator.available := by
    rw [List.flatMap_append, hquiet, List.nil_append, List.flatMap_singleton, havailable]
  cases hheader : PesHeader.ofBytes data with
  | ok header =>
    have hsupply := (supply_eq (inherit a.timing header.timing) (data.drop header.headerLength)
      header.payloadLength true).1
    rw [startBody_of_ok a hheader, hsupply] at hall htiming ⊢
    refine ⟨fun held requested hstage => (by cases hstage), fun last remaining hstage => ?_,
      htiming⟩
    cases hstage
    exact ⟨since ++ [t], data, header, hpacket, hheader, hall, rfl⟩
  | error e =>
    cases e with
    | needMoreData requested count =>
      obtain ⟨rfl, -, -⟩ := PesHeader.bounds_of_needMoreData hheader
      have hstart : a.startBody data = {
          accumulator := { a with stage := .headerPending data requested }
          result := .ok .pending } := by
        rw [startBody, hheader]
      rw [hstart] at hall htiming ⊢
      refine ⟨fun held more hstage => ?_, fun last remaining hstage => (by cases hstage), htiming⟩
      cases hstage
      exact ⟨hheader, since ++ [t], hpacket, hall⟩
    | _ =>
      have hfinal : ¬ AsksForMore (PesHeader.ofBytes data) := by
        rw [hheader]
        exact id
      rw [startBody_of_error a hheader hfinal] at htiming ⊢
      exact isKept_of_unused (.inr rfl) htiming

/-- **One call.** -/
theorem IsKept.follows (h : a.IsKept turns) (hfollows : a.Follows t.call b result read)
    (hread : t.read? = read) (havailable : t.available = b.available) :
    b.IsKept (turns ++ [t]) := by
  have htiming : b.timing = inForce (turns ++ [t]) := by
    rw [inForce_append, ← h.timing]
    exact hfollows.timing hread
  generalize hcall : t.call = call at hfollows
  cases hfollows with
  | starts =>
    have hpacket : PesTurn.IsPacket (turns ++ [t]) ([] ++ [t]) _ := .start hcall
    exact isKept_startBody hpacket rfl havailable htiming
  | lengthens stage =>
    obtain ⟨-, since, hpacket, hquiet⟩ := h.pending _ _ stage
    exact isKept_startBody (hpacket.carryOn hcall) hquiet havailable htiming
  | abandons => exact isKept_of_unused (.inl rfl) htiming
  | @supplies last data remaining stage =>
    -- the count goes down by what is made available
    obtain ⟨since, before, header, hpacket, hheader, hgiven, hremaining⟩ := h.body _ _ stage
    have hdrop : (before ++ data).drop header.headerLength =
        before.drop header.headerLength ++ data :=
      List.drop_append_of_le_length (PesHeader.headerLength_le_length hheader)
    have hfinal : ¬ AsksForMore (PesHeader.ofBytes before) := by
      rw [hheader]
      exact id
    refine ⟨fun held requested hnow => (by cases hnow), fun now left hnow => ?_, htiming⟩
    cases hnow
    refine ⟨since ++ [t], before ++ data, header, hpacket.carryOn hcall,
      (PesHeader.ofBytes_append hfinal data).trans hheader, ?_, ?_⟩
    · rw [List.flatMap_append, hgiven, List.flatMap_singleton, havailable, hdrop, limited_append,
        ← hremaining]
      rfl
    · rw [hdrop, hremaining, Option.map_map]
      congr 1
      funext limit
      rw [Function.comp_apply, List.length_append, Nat.sub_sub]
  | ignores stage => exact isKept_of_unused stage htiming
  | discards => exact isKept_of_unused (.inr rfl) htiming

end PesAccumulator

/-! ## Any number of calls -/

namespace Checked.Pes.Store

/-- What a store holds is accounted for by the turns so far. -/
structure IsAccounted (turns : List PesTurn) (s : Store) : Prop where
  /-- What is held of a header asks for more, of which there are at most 264 bytes. -/
  pending : ∀ requested, s.phase = .headerPending requested →
    s.payload.length < requested ∧ requested ≤ 264 ∧
      PesHeader.ofBytes s.payload = .error (.needMoreData requested s.payload.length)
  /-- Where no packet is in use there are no bytes. -/
  empty : s.phase = .idle ∨ s.phase = .discarding → s.payload = []
  /-- What has been made available since the packet started is the payload in what has come of it.
  If the packet is bounded, its length and what may still follow are what the header announces. -/
  body : s.phase = .body → ∃ since data header, PesTurn.IsPacket turns since data ∧
    PesHeader.ofBytes data = .ok header ∧
      match header.packetLength with
      | none => s.remaining = none ∧
        since.flatMap PesTurn.available = data.drop header.headerLength
      | some length => ∃ left, s.remaining = some left ∧
        since.flatMap PesTurn.available <+: data.drop header.headerLength ∧
          (since.flatMap PesTurn.available).length + left = length + 6 - header.headerLength
  /-- The timestamps are those of the last header that gave some. -/
  timing : s.timing = PesTurn.inForce turns
  /-- There are none, or both. -/
  both : s.timing.pts.isSome = s.timing.dts.isSome

variable {s : Store} {turns : List PesTurn}

/-- The start of a packet sees nothing but the timestamps of what came before, unless this is an
incomplete header. -/
theorem unitStart_of_not_pending (h : ∀ requested, s.phase ≠ .headerPending requested)
    (data : Bytes) :
    (s.unitStart data).map (fun step => (step.store, step.result)) =
      (startBody { payload := data, timing := s.timing }).map
        fun step => (step.store, step.result) := by
  have hstart : ∀ phase, startBody { payload := data, timing := s.timing, phase } =
      startBody { payload := data, timing := s.timing } := by
    intro phase
    have heq := fun phase => startBody_eq { timing := s.timing } data phase
    exact (heq phase).trans (heq .idle).symm
  obtain ⟨payload, timing, phase, remaining⟩ := s
  unfold unitStart
  cases phase with
  | headerPending requested => exact absurd rfl (h requested)
  | idle | body | discarding =>
    dsimp only
    rw [hstart]
    cases startBody { payload := data, timing } <;> rfl

end Checked.Pes.Store

namespace PesTurn

/-- What a call gives back. -/
structure IsLawful (t : PesTurn) : Prop where
  /-- The start of a packet, and nothing else, asks for the rest of a header that it finds
  incomplete. -/
  needsMore : ∀ requested count, t.result = some (.error (.needMoreData requested count)) ↔
    (∃ data, t.call = .unitStart data) ∧
      t.before.phase = .headerPending requested ∧ t.before.payload.length = count
  /-- It then leaves nothing but the timestamps, and the next start of a packet does what it does
  behind anything but an incomplete header. -/
  abandons : ∀ requested count, t.result = some (.error (.needMoreData requested count)) →
    t.after = { timing := t.before.timing } ∧
      ∀ (s : Store) (data : Bytes), (∀ requested, s.phase ≠ .headerPending requested) →
        s.timing = t.after.timing →
          (t.after.unitStart data).map (fun step => (step.store, step.result)) =
            (s.unitStart data).map fun step => (step.store, step.result)
  /-- No error changes the timestamps, neither does giving up a packet, nor a header without
  any. -/
  keeps : (∃ e, t.result = some (.error e)) ∨ t.call = .discard ∨ t.given? = none →
    t.after.timing = t.before.timing

end PesTurn

namespace PesAccumulator

variable {a : PesAccumulator} {turns : List PesTurn}

theorem phase_ofAccumulator_iff {requested count : Nat} :
    (Store.ofAccumulator a).phase = .headerPending requested ∧
        (Store.ofAccumulator a).payload.length = count ↔
      ∃ held, a.stage = .headerPending held requested ∧ held.length = count := by
  unfold Store.ofAccumulator
  cases a.stage with
  | headerPending held asked =>
    constructor
    · rintro ⟨hphase, hcount⟩
      cases hphase
      exact ⟨held, rfl, hcount⟩
    · rintro ⟨held, hstage, hcount⟩
      cases hstage
      exact ⟨rfl, hcount⟩
  | _ => simp

/-- **What a call gives back.** -/
theorem isLawful_turn (a : PesAccumulator) (call : PesCall) : (a.turn call).IsLawful := by
  have hfollows := a.follows_follow call
  have hleaves : (a.turn call).after.timing =
      (a.turn call).given?.getD (a.turn call).before.timing := by
    rw [turn, Store.timing_ofAccumulator, Store.timing_ofAccumulator]
    exact hfollows.timing rfl
  refine ⟨fun requested count => ?_, fun requested count hresult => ?_, fun hkept => ?_⟩
  · rw [turn, phase_ofAccumulator_iff]
    exact hfollows.needMoreData_iff
  · have hafter : (a.turn call).after = { timing := (a.turn call).before.timing } := by
      rw [turn, hfollows.eq_of_needMoreData hresult, Store.timing_ofAccumulator]
      rfl
    refine ⟨hafter, fun s data hs htiming => ?_⟩
    have hidle : ∀ requested, (a.turn call).after.phase ≠ .headerPending requested := by
      intro requested hphase
      rw [hafter] at hphase
      cases hphase
    rw [Store.unitStart_of_not_pending hidle, Store.unitStart_of_not_pending hs, htiming]
  · have hnone : (a.turn call).given? = none := by
      rcases hkept with ⟨e, hresult⟩ | hdiscard | hnone
      · exact hfollows.given?_of_error rfl hresult
      · exact PesTurn.given?_of_read? (PesTurn.read?_of_discard hdiscard)
      · exact hnone
    rw [hleaves, hnone]
    rfl

theorem isLawful_of_mem_turns {calls : List PesCall} {t : PesTurn} (h : t ∈ a.turns calls) :
    t.IsLawful := by
  induction calls generalizing a with
  | nil => cases h
  | cons call calls ih =>
    rcases List.mem_cons.mp h with rfl | hlater
    · exact isLawful_turn a call
    · exact ih hlater

/-- **All calls.** -/
theorem IsKept.followAll (h : a.IsKept turns) (calls : List PesCall) :
    (a.followAll calls).IsKept (turns ++ a.turns calls) := by
  induction calls generalizing a turns with
  | nil =>
    rw [PesAccumulator.turns, List.append_nil]
    exact h
  | cons call calls ih =>
    have hnext : (a.follow call).1.IsKept (turns ++ [a.turn call]) :=
      h.follows (a.follows_follow call) rfl (Store.available_ofAccumulator _)
    rw [PesAccumulator.turns, List.append_cons]
    exact ih hnext

/-- What is kept is accounted for in the store. -/
theorem IsKept.isAccounted (h : a.IsKept turns) : (Store.ofAccumulator a).IsAccounted turns where
  pending requested hphase := by
    obtain ⟨held, hstage, hlength⟩ := phase_ofAccumulator_iff.mp ⟨hphase, rfl⟩
    have hpayload : (Store.ofAccumulator a).payload = held := by
      rw [Store.ofAccumulator, hstage]
    obtain ⟨hasks, -⟩ := h.pending held requested hstage
    obtain ⟨-, hmissing, hmax⟩ := PesHeader.bounds_of_needMoreData hasks
    rw [hpayload]
    exact ⟨hmissing, hmax, hasks⟩
  empty hphase := by
    unfold Store.ofAccumulator at hphase ⊢
    cases hstage : a.stage with
    | idle | discarding => rfl
    | headerPending | body =>
      rw [hstage] at hphase
      simp at hphase
  body hphase := by
    unfold Store.ofAccumulator at hphase ⊢
    cases hstage : a.stage with
    | idle | discarding | headerPending =>
      rw [hstage] at hphase
      cases hphase
    | body last remaining =>
      obtain ⟨since, data, header, hpacket, hheader, hgiven, hremaining⟩ :=
        h.body last remaining hstage
      refine ⟨since, data, header, hpacket, hheader, ?_⟩
      rw [PesHeader.payloadLength] at hgiven hremaining
      cases hlength : header.packetLength with
      | none =>
        rw [hlength] at hgiven hremaining
        exact ⟨hremaining, hgiven⟩
      | some length =>
        rw [hlength] at hgiven hremaining
        refine ⟨_, hremaining, ?_, ?_⟩
        · rw [hgiven]
          exact List.take_prefix _ _
        · rw [hgiven]
          simp only [limited, Option.map_some, List.length_take, PesHeader.fixedSize]
          omega
  timing := by
    rw [Store.timing_ofAccumulator]
    exact h.timing
  both := by
    rw [Store.timing_ofAccumulator, h.timing]
    exact PesTurn.isSome_inForce turns

end PesAccumulator

/-- **What is kept, and what is given back.**  Calls on a new store, in any order and with any data,
do not reach beyond any bytes, and do what they do to an accumulator.  After them everything in the
store is accounted for, and each call has given back what it should. -/
theorem PesCall.run_accounted (calls : List PesCall) :
    ∃ s turns, Store.run {} calls = some (s, turns) ∧
      s = .ofAccumulator (PesAccumulator.followAll {} calls) ∧
      turns = PesAccumulator.turns {} calls ∧ turns.map PesTurn.call = calls ∧
      s.IsAccounted turns ∧ ∀ t ∈ turns, t.IsLawful := by
  have hnew : PesAccumulator.IsKept [] {} := PesAccumulator.isKept_of_unused (.inl rfl) rfl
  exact ⟨_, _, PesAccumulator.run_eq {} calls, rfl, rfl, PesAccumulator.map_call_turns {} calls,
    (hnew.followAll calls).isAccounted, fun t ht => PesAccumulator.isLawful_of_mem_turns ht⟩

end TransportStream
