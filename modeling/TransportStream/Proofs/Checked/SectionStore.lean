import TransportStream.Proofs.Checked.Sections

/-!
# The bytes in progress, and a flag

A `SectionBuffer` holds the start of a section, or nothing.  What is kept from one payload to the
next can also be two things: a byte string, and a flag that tells whether the byte string is the
start of a section.  Then nothing but the code keeps the two together: whoever forgets to empty the
one or to reset the other finds out in a later payload, where the length of the bytes is subtracted
from that of the section.

`Store` is these two things, with one function for each of `Checked.Sections` that looks at them.
Each of them does what its counterpart does with the buffer that the store stands for.

* `Store.ofBuffer`: the store for a buffer.
* `Store.carryOn_eq`, `Store.start_eq`: the two ways of completing sections.
* `Store.push_eq`: a payload does to the store what it does to the buffer.
-/

namespace TransportStream

namespace Checked

namespace Sections

/-- What is kept from one payload to the next. -/
structure Store where
  /-- The bytes that have been collected. -/
  held : Bytes := []
  /-- They are the start of a section. -/
  collecting : Bool := false
  deriving DecidableEq

namespace Store

/-- The store for a buffer. -/
def ofBuffer : SectionBuffer → Store
  | .idle => {}
  | .collecting part => { held := part, collecting := true }

/-- Gives up what has been collected. -/
def reset (s : Store) : Store :=
  { s with held := [], collecting := false }

/-- Starts to collect. -/
def collect (s : Store) (data : Bytes) : Store :=
  { s with held := data, collecting := true }

section

variable {σ : Type} (section? : σ → Bytes → Option (σ × Option SectionError))
  (note : σ → Notice → σ)

/-- Adds data to the section in progress.  What is missing of its header is added first. -/
def carryOn (state : σ) (s : Store) (data : Bytes) : Option (σ × Store × Option SectionError) :=
  if s.held.length < SectionHeader.size then do
    let needed := min (← sub? SectionHeader.size s.held.length) data.length
    let longer := { s with held := s.held ++ (← slice? data 0 needed) }
    if longer.held.length < SectionHeader.size then return (state, longer, none)
    else carryOn state longer (← from? data needed)
  else do
    match ← header s.held with
    | .error e => return (state, s, some e)
    | .ok header =>
      if SectionHeader.maxLength < header.length then
        return (state, s.reset, some (.sectionTooLong header.length))
      else
        let remaining ← sub? header.totalSize s.held.length
        if data.length < remaining then return (state, { s with held := s.held ++ data }, none)
        else
          let s := { s with held := s.held ++ (← slice? data 0 remaining), collecting := false }
          let (state, e) ← section? state s.held
          return (state, { s with held := [] }, e)
termination_by SectionHeader.size - s.held.length
decreasing_by
  simp only [longer, List.length_append] at *
  omega

/-- Takes sections off the front of the data, as long as there are some. -/
def start (state : σ) (s : Store) (rest : Bytes) : Option (σ × Store × Option SectionError) :=
  if rest.length = 0 then some (state, s, none)
  else do
    let first ← rest[0]?
    if first = SectionBuffer.stuffing then return (state, s, none)
    else if rest.length < SectionHeader.size then return (state, s.collect rest, none)
    else
      match ← header rest with
      | .error e => return (state, s, some e)
      | .ok header =>
        if SectionHeader.maxLength < header.length then
          return (state, s, some (.sectionTooLong header.length))
        else if rest.length < header.totalSize then return (state, s.collect rest, none)
        else
          let front ← slice? rest 0 header.totalSize
          let ⟨behind, _hbehind⟩ ← behind? rest header.totalSize
          match ← section? state front with
          | (state, some e) => return (state, s, some e)
          | (state, none) => start state s behind
termination_by rest.length
decreasing_by
  rw [SectionHeader.totalSize, SectionHeader.size] at _hbehind
  omega

/-- Takes the payload of one packet.  `unitStart` is set if a section starts in it. -/
def push (state : σ) (s : Store) (unitStart : Bool) (payload : Bytes) :
    Option (σ × Store × Option SectionError) :=
  if !unitStart then
    if !s.collecting then some (note state .continuationWithoutStart, s, none)
    else carryOn section? state s payload
  else if payload.length = 0 then
    some (state, s.reset, some (.notEnoughData .pointerField 1 0))
  else do
    let pointer ← payload[0]?
    let rest ← from? payload 1
    if rest.length < pointer.toNat then
      return (state, s.reset, some (.pointerBeyondPayload pointer.toNat rest.length))
    else
      let tail ← slice? rest 0 pointer.toNat
      let starts ← from? rest pointer.toNat
      if s.collecting then
        match ← carryOn section? state s tail with
        | (state, s, some e) => return (state, s, some e)
        | (state, s, none) =>
          if s.collecting then
            start section? (note state (.sectionCutShort s.held.length)) s.reset starts
          else start section? state s starts
      else start section? state s starts

/-- What is left and given back, with the store for the buffer. -/
def stored (left : σ × SectionBuffer × Option SectionError) : σ × Store × Option SectionError :=
  (left.1, ofBuffer left.2.1, left.2.2)

variable {section? note}

/-- With a complete header, as much is added as is missing. -/
theorem carryOn_of_header {part : Bytes} (h : SectionHeader.size ≤ part.length) (state : σ)
    (data : Bytes) :
    carryOn section? state (ofBuffer (.collecting part)) data =
      (continueSection section? state part data).map stored := by
  have hlong : ¬ part.length < SectionHeader.size := Nat.not_lt.mpr h
  have hheld : ¬ (ofBuffer (.collecting part)).held.length < SectionHeader.size := hlong
  rw [carryOn, continueSection, if_neg hlong, if_neg hheld, header_eq, header_eq]
  have hpart : (ofBuffer (.collecting part)).held = part := rfl
  rw [hpart]
  cases SectionHeader.ofBytes part with
  | error e => rfl
  | ok header =>
    simp only [Option.bind_eq_bind, Option.bind_some]
    split
    · rfl
    · cases sub? header.totalSize part.length with
      | none => rfl
      | some remaining =>
        simp only [Option.bind_some]
        split
        · rfl
        · cases slice? data 0 remaining with
          | none => rfl
          | some front =>
            simp only [Option.bind_some]
            cases section? state (part ++ front) <;> rfl

/-- **A section in progress.**  Once its header is complete, the two do the same. -/
theorem carryOn_eq (part : Bytes) (state : σ) (data : Bytes) :
    carryOn section? state (ofBuffer (.collecting part)) data =
      (continueSection section? state part data).map stored := by
  by_cases hlong : SectionHeader.size ≤ part.length
  · exact carryOn_of_header hlong state data
  · have hshort : part.length < SectionHeader.size := Nat.not_le.mp hlong
    have hheld : (ofBuffer (.collecting part)).held.length < SectionHeader.size := hshort
    have hpart : (ofBuffer (.collecting part)).held = part := rfl
    rw [carryOn, continueSection, if_pos hshort, if_pos hheld, hpart]
    cases sub? SectionHeader.size part.length with
    | none => rfl
    | some missing =>
      simp only [Option.bind_eq_bind, Option.bind_some]
      cases slice? data 0 (min missing data.length) with
      | none => rfl
      | some front =>
        simp only [Option.bind_some]
        split
        · rfl
        · next hcomplete =>
          cases from? data (min missing data.length) with
          | none => rfl
          | some rest => exact carryOn_of_header (Nat.not_lt.mp hcomplete) state rest

/-- **New sections.**  They start when nothing is in progress. -/
theorem start_eq (state : σ) (rest : Bytes) :
    start section? state {} rest = (startSections section? state rest).map stored := by
  rw [start, startSections]
  split
  · rfl
  · next hsome =>
    cases rest[0]? with
    | none => rfl
    | some first =>
      simp only [Option.bind_eq_bind, Option.bind_some]
      split
      · rfl
      · split
        · rfl
        · rw [header_eq]
          cases SectionHeader.ofBytes rest with
          | error e => rfl
          | ok header =>
            simp only [Option.bind_some]
            split
            · rfl
            · split
              · rfl
              · next hwhole =>
                have hle : header.totalSize ≤ rest.length := Nat.not_lt.mp hwhole
                have hlt : (rest.drop header.totalSize).length < rest.length := by
                  rw [List.length_drop, SectionHeader.totalSize, SectionHeader.size]
                  omega
                have ih (state : σ) := start_eq state (rest.drop header.totalSize)
                rw [slice?_zero hle, behind?_of_le hle]
                simp only [Option.bind_some]
                cases section? state (rest.take header.totalSize) with
                | none => rfl
                | some received =>
                  obtain ⟨state, e⟩ := received
                  cases e with
                  | some e => rfl
                  | none => exact ih state
termination_by rest.length
decreasing_by exact hlt

/-- **A payload.**  What it does to the store is what it does to the buffer. -/
theorem push_eq (state : σ) (buffer : SectionBuffer) (unitStart : Bool) (payload : Bytes) :
    push section? note state (ofBuffer buffer) unitStart payload =
      (Sections.push section? note state buffer unitStart payload).map stored := by
  cases unitStart with
  | false =>
    cases buffer with
    | idle => rfl
    | collecting part => exact carryOn_eq part state payload
  | true =>
    cases payload with
    | nil => cases buffer <;> rfl
    | cons pointer rest =>
      have hrest : from? (pointer :: rest) 1 = some rest := from?_of_le (by simp)
      simp only [push, Sections.push, Bool.not_true, Bool.false_eq_true, if_false, List.length_cons,
        Nat.succ_ne_zero, List.getElem?_cons_zero, Option.bind_eq_bind, Option.bind_some, hrest]
      split
      · cases buffer <;> rfl
      · cases slice? rest 0 pointer.toNat with
        | none => rfl
        | some tail =>
          cases from? rest pointer.toNat with
          | none => rfl
          | some starts =>
            cases buffer with
            | idle => exact start_eq state starts
            | collecting part =>
              simp only [Option.bind_some]
              have hcollecting : (ofBuffer (.collecting part)).collecting = true := rfl
              rw [if_pos hcollecting, carryOn_eq]
              cases continueSection section? state part tail with
              | none => rfl
              | some continued =>
                obtain ⟨state, buffer, e⟩ := continued
                cases e with
                | some e => cases buffer <;> rfl
                | none =>
                  cases buffer with
                  | idle => exact start_eq state starts
                  | collecting part => exact start_eq _ starts

end

end Store

end Sections

end Checked

end TransportStream
