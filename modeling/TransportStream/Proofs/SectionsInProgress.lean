import TransportStream.Proofs.Checked.SectionStore
import TransportStream.Proofs.SectionCarriage

/-!
# What is in progress between two payloads

Payloads come as they like: cut, joined, or lost in between.  Whoever receives the sections may
refuse any of them, and what is in progress may be given up at any time.  Between two calls the
bytes that are held are nevertheless the start of one section, of which something is missing, and
they have been there in the payloads, one piece behind the other.

## Histories

The invariant is about all calls so far.  A section in progress has a first piece, which is the end
of a payload in which a section starts; each payload behind it has carried the section on, and is
the next piece (`IsGathered`).  When the section is complete, a piece from the front of one more
payload has been added; or else the section was in one payload as a whole (`IsPieced`).

* `SectionCall`, `SectionClient`: payloads, and whoever receives the sections.
* `SectionBuffer.IsKept`: the invariant.
* `SectionBuffer.isKept_push`: one payload.
* `SectionCall.run_kept`, `SectionCall.run_new_kept`: any number of calls.
* `SectionCall.store_sound`: what this says about the bytes and the flag that are kept, and about
  the sections that are given.
-/

namespace TransportStream

open Checked.Sections

/-! ## How far bytes reach -/

/-- The front of bytes that do not look like stuffing is a section. -/
theorem SectionFront.isSection_of_whole {bytes front rest : Bytes}
    (h : SectionFront.of bytes = .whole front rest)
    (hopen : SectionBuffer.isStuffed bytes = false) : bytes = front ++ rest ∧ IsSection front := by
  match bytes, h, hopen with
  | b₀ :: b₁ :: b₂ :: more, h, hopen =>
    rw [SectionFront.of, SectionHeader.ofBytes] at h
    dsimp only at h
    split at h
    · cases h
    · next hmax =>
      split at h
      · cases h
      · next hsplit =>
        cases h
        obtain ⟨heq, hlength⟩ := splitFront?_eq_some_iff.mp hsplit
        have hcount : front.length = wordField 4 b₁ b₂ + 3 := hlength.trans (Nat.add_comm _ _)
        have hfront : front = b₀ :: b₁ :: b₂ :: more.take (wordField 4 b₁ b₂) :=
          calc
            front = (front ++ rest).take (wordField 4 b₁ b₂ + 3) := (List.take_left' hcount).symm
            _ = (b₀ :: b₁ :: b₂ :: more).take (wordField 4 b₁ b₂ + 3) := by rw [heq]
            _ = b₀ :: b₁ :: b₂ :: more.take (wordField 4 b₁ b₂) := rfl
        refine ⟨heq, ?_⟩
        rw [hfront] at hcount ⊢
        simp only [List.length_cons] at hcount
        refine ⟨by simpa [SectionBuffer.isStuffed] using hopen, ?_, ?_⟩ <;> omega

/-- Bytes that complete a section are cut where it ends. -/
theorem SectionFront.exists_of_whole {part data front rest : Bytes}
    (hpart : SectionFront.of part = .partly)
    (h : SectionFront.of (part ++ data) = .whole front rest) :
    ∃ last, front = part ++ last ∧ data = last ++ rest := by
  have hsize : SectionHeader.size ≤ (part ++ data).length := by
    refine Nat.not_lt.mp fun hshort => ?_
    rw [front_of_short hshort] at h
    cases h
  obtain ⟨header, hall⟩ := exists_header hsize
  have hheader : SectionHeader.ofBytes (part ++ data) = .ok header := by simpa using hall []
  -- The part ends before the section does, also where it has no complete header.
  have hle : part.length ≤ header.totalSize := by
    by_cases hcut : part.length < SectionHeader.size
    · exact Nat.le_trans (Nat.le_of_lt hcut) (Nat.le_add_right _ _)
    · obtain ⟨own, hown⟩ := exists_header (Nat.not_lt.mp hcut)
      obtain rfl : own = header := Except.ok.inj ((hown data).symm.trans hheader)
      have hfirst : SectionHeader.ofBytes part = .ok own := by simpa using hown []
      rw [front_of_header hfirst] at hpart
      split at hpart
      · cases hpart
      · split at hpart
        · next hshort => exact Nat.le_of_lt hshort
        · cases hpart
  rw [front_of_header hheader] at h
  split at h
  · cases h
  · split at h
    · cases h
    · cases h
      refine ⟨data.take (header.totalSize - part.length), ?_, ?_⟩
      · rw [List.take_append, List.take_of_length_le hle]
      · rw [List.drop_append, List.drop_of_length_le hle, List.nil_append, List.take_append_drop]

/-! ## Calls -/

/-- Whoever receives sections, with a record of what it has been given. -/
structure SectionClient (σ : Type) where
  /-- Its own state. -/
  state : σ
  /-- The sections that it has been given. -/
  given : List Bytes := []
  /-- What it has been told beside that. -/
  notices : List Notice := []
  deriving DecidableEq

/-- A call: the payload of a packet, together with what the client answers to the sections in it; or
what is in progress is given up. -/
inductive SectionCall (σ : Type) where
  /-- A payload. -/
  | push (unitStart : Bool) (payload : Bytes) (answer : σ → Bytes → σ × Option SectionError)
  /-- What is in progress is given up. -/
  | reset

namespace SectionClient

variable {σ : Type}

/-- A section is given to the client, and its answer may be an error. -/
def take (answer : σ → Bytes → σ × Option SectionError) (c : SectionClient σ) (bytes : Bytes) :
    SectionClient σ × Option SectionError :=
  ({ c with state := (answer c.state bytes).1, given := c.given ++ [bytes] },
    (answer c.state bytes).2)

/-- The client is told something. -/
def note (c : SectionClient σ) (n : Notice) : SectionClient σ :=
  { c with notices := c.notices ++ [n] }

/-- What a payload brings to light is given to the client. -/
def receive (answer : σ → Bytes → σ × Option SectionError) (c : SectionClient σ) :
    SectionOutput → SectionClient σ × Option SectionError
  | .whole bytes => c.take answer bytes
  | .notice n => (c.note n, none)

/-- What is given while outputs are received is among them. -/
theorem mem_given_driveOutputs {answer : σ → Bytes → σ × Option SectionError}
    {c : SectionClient σ} {outputs : List SectionOutput} {x : Bytes}
    (h : x ∈ (driveOutputs (receive answer) c outputs).1.given) :
    x ∈ c.given ∨ .whole x ∈ outputs := by
  induction outputs generalizing c with
  | nil => exact .inl h
  | cons output outputs ih =>
    have hfirst : x ∈ (c.receive answer output).1.given →
        x ∈ c.given ∨ .whole x ∈ output :: outputs := by
      intro hx
      cases output with
      | notice n => exact .inl hx
      | whole bytes =>
        rcases List.mem_append.mp hx with hx | hx
        · exact .inl hx
        · obtain rfl := List.mem_singleton.mp hx
          exact .inr List.mem_cons_self
    rw [driveOutputs] at h
    revert h hfirst
    generalize c.receive answer output = received
    obtain ⟨next, e⟩ := received
    intro h hfirst
    cases e with
    | some e => exact hfirst h
    | none =>
      rcases ih h with hx | hx
      · exact hfirst hx
      · exact .inr (List.mem_cons_of_mem _ hx)

/-- What is given by a payload is among what it brings to light, and what is in progress afterwards
is that of the payload, or nothing. -/
theorem given_drive (f : Feed) (answer : σ → Bytes → σ × Option SectionError)
    (c : SectionClient σ) :
    (∀ x ∈ (f.drive (receive answer) c).1.given, x ∈ c.given ∨ .whole x ∈ f.outputs) ∧
      ((f.drive (receive answer) c).2.1 = .idle ∨ (f.drive (receive answer) c).2.1 = f.buffer) := by
  have hgiven : ∀ x ∈ (driveOutputs (receive answer) c f.outputs).1.given,
      x ∈ c.given ∨ .whole x ∈ f.outputs := fun x hx => mem_given_driveOutputs hx
  unfold Feed.drive
  revert hgiven
  generalize driveOutputs (receive answer) c f.outputs = driven
  obtain ⟨next, e⟩ := driven
  intro hgiven
  cases e with
  | some e => exact ⟨fun x hx => hgiven x hx, .inl rfl⟩
  | none => exact ⟨fun x hx => hgiven x hx, .inr rfl⟩

end SectionClient

namespace SectionCall

variable {σ : Type}

/-- Does what is asked for. -/
def carryOut (c : SectionClient σ) (s : Store) :
    SectionCall σ → Option (SectionClient σ × Store × Option SectionError)
  | push unitStart payload answer =>
    s.push (fun c bytes => some (c.take answer bytes)) SectionClient.note c unitStart payload
  | reset => some (c, s.reset, none)

/-- Carries out calls one after the other, whatever comes of each. -/
def run (c : SectionClient σ) (s : Store) : List (SectionCall σ) → Option (SectionClient σ × Store)
  | [] => some (c, s)
  | call :: calls => do
    let (c, s, _) ← call.carryOut c s
    run c s calls

/-- What a call does to a buffer. -/
def follow (c : SectionClient σ) (b : SectionBuffer) :
    SectionCall σ → SectionClient σ × SectionBuffer × Option SectionError
  | push unitStart payload answer =>
    (b.push unitStart payload).drive (SectionClient.receive answer) c
  | reset => (c, .idle, none)

/-- The bytes of a call that carry on what is in progress: a payload in which no section starts, or
what is in front of the first one that does. -/
def carriedOn : SectionCall σ → Bytes
  | push false payload _ => payload
  | push true (pointer :: rest) _ => rest.take pointer.toNat
  | _ => []

/-- The bytes of a call from the first section on that starts in it. -/
def starts : SectionCall σ → Bytes
  | push true (pointer :: rest) _ => rest.drop pointer.toNat
  | _ => []

/-- True of a payload in which no section starts. -/
def isContinuation : SectionCall σ → Bool
  | push unitStart _ _ => !unitStart
  | reset => false

/-- The part of a section has been gathered in the calls: its first piece is the end of a payload in
which a section starts, and each of the payloads behind that is the next piece. -/
def IsGathered (calls : List (SectionCall σ)) (part : Bytes) : Prop :=
  ∃ before first more front, calls = before ++ first :: more ∧
    front ≠ [] ∧ front <:+ first.starts ∧ (∀ call ∈ more, call.isContinuation = true) ∧
    part = front ++ more.flatMap carriedOn

/-- The bytes are in a call as a whole, or they have been gathered in the calls before it and in the
front of what it carries on. -/
def IsPieced (before : List (SectionCall σ)) (call : SectionCall σ) (x : Bytes) : Prop :=
  x <:+: call.starts ∨
    ∃ part last, IsGathered before part ∧ last <+: call.carriedOn ∧ x = part ++ last

/-- The bytes have been given in one of the calls.  They are a section, and were there in pieces. -/
def IsAccounted (calls : List (SectionCall σ)) (x : Bytes) : Prop :=
  IsSection x ∧ ∃ before call after, calls = before ++ call :: after ∧ IsPieced before call x

theorem IsGathered.of_starts {calls : List (SectionCall σ)} {call : SectionCall σ} {part : Bytes}
    (hpart : part ≠ []) (h : part <:+ call.starts) : IsGathered (calls ++ [call]) part :=
  ⟨calls, call, [], part, rfl, hpart, h, fun _ hmem => absurd hmem List.not_mem_nil,
    (List.append_nil part).symm⟩

theorem IsGathered.carryOn {calls : List (SectionCall σ)} {call : SectionCall σ} {part : Bytes}
    (h : IsGathered calls part) (hcall : call.isContinuation = true) :
    IsGathered (calls ++ [call]) (part ++ call.carriedOn) := by
  obtain ⟨before, first, more, front, rfl, hfront, hstarts, hmore, rfl⟩ := h
  refine ⟨before, first, more ++ [call], front, by simp, hfront, hstarts, ?_, by simp⟩
  intro other hother
  rcases List.mem_append.mp hother with hother | hother
  · exact hmore other hother
  · obtain rfl := List.mem_singleton.mp hother
    exact hcall

theorem IsAccounted.append {calls : List (SectionCall σ)} {x : Bytes} (h : IsAccounted calls x)
    (later : List (SectionCall σ)) : IsAccounted (calls ++ later) x := by
  obtain ⟨hsection, before, call, after, rfl, hpieced⟩ := h
  exact ⟨hsection, before, call, after ++ later, by simp, hpieced⟩

end SectionCall

/-! ## The invariant -/

/-- The bytes are the start of a section, of which something is missing. -/
structure IsBegun (part : Bytes) : Prop where
  /-- There are some, and they do not look like stuffing. -/
  isOpen : SectionBuffer.isStuffed part = false
  /-- They do not reach to the end of the section. -/
  partly : SectionFront.of part = .partly

namespace SectionBuffer

variable {σ : Type} {calls : List (SectionCall σ)} {call : SectionCall σ}

/-- What is in progress is the start of a section, and has been gathered in the calls so far. -/
def IsKept (calls : List (SectionCall σ)) (b : SectionBuffer) : Prop :=
  ∀ part, b = .collecting part → IsBegun part ∧ SectionCall.IsGathered calls part

theorem isKept_idle (calls : List (SectionCall σ)) : IsKept calls .idle :=
  fun _ h => SectionBuffer.noConfusion h

theorem IsKept.sound {b : SectionBuffer} (h : IsKept calls b) : Sound b :=
  fun part hb => (h part hb).1.partly

theorem ne_nil_of_isStuffed {bytes : Bytes} (h : isStuffed bytes = false) : bytes ≠ [] := by
  rintro rfl
  cases h

theorem isStuffed_append {part : Bytes} (h : isStuffed part = false) (data : Bytes) :
    isStuffed (part ++ data) = false := by
  cases part with
  | nil => cases h
  | cons b part => exact h

/-- A section at the front of bytes, read off it. -/
theorem of_readSection {bytes front : Bytes} {rest : { rest : Bytes // rest.length < bytes.length }}
    (h : readSection bytes = some (front, rest)) :
    isStuffed bytes = false ∧ SectionFront.of bytes = .whole front rest := by
  unfold readSection at h
  split at h
  · cases h
  · next hopen =>
    split at h
    · next hfront =>
      cases h
      exact ⟨Bool.eq_false_iff.mpr hopen, hfront⟩
    · cases h

/-- The bytes from the start of a section on are sections, and a rest that starts with none. -/
theorem exists_sections (data : Bytes) :
    ∃ (sections : List Bytes) (rest : Bytes), data = sections.flatten ++ rest ∧
      (∀ s ∈ sections, IsSection s) ∧ readSection rest = none ∧
      startSections data = (endPayload rest).after (sections.map .whole) := by
  match hread : readSection data with
  | none =>
    refine ⟨[], data, rfl, fun s hs => absurd hs List.not_mem_nil, hread, ?_⟩
    rw [startSections, readItems_of_none hread]
  | some (front, rest) =>
    obtain ⟨hopen, hfront⟩ := of_readSection hread
    obtain ⟨hdata, hsection⟩ := SectionFront.isSection_of_whole hfront hopen
    obtain ⟨sections, last, hrest, hsections, hlast, hstart⟩ := exists_sections rest.1
    refine ⟨front :: sections, last, ?_, List.forall_mem_cons.mpr ⟨hsection, hsections⟩, hlast, ?_⟩
    · rw [List.flatten_cons, List.append_assoc, ← hrest]
      exact hdata
    · rw [startSections_of_whole hopen hfront, hstart]
      rfl
termination_by data.length
decreasing_by exact rest.2

/-- What is in progress after the last section of a payload is all that is left of it. -/
theorem of_endPayload {rest part : Bytes} (hlast : readSection rest = none)
    (h : (endPayload rest).buffer = .collecting part) : part = rest ∧ IsBegun part := by
  unfold endPayload at h
  split at h
  · cases h
  · next hopen =>
    have hstart : isStuffed rest = false := Bool.eq_false_iff.mpr hopen
    cases hfront : SectionFront.of rest with
    | partly =>
      rw [hfront] at h
      cases h
      exact ⟨rfl, hstart, hfront⟩
    | tooLong length =>
      rw [hfront] at h
      cases h
    | whole front after =>
      unfold readSection at hlast
      rw [if_neg hopen] at hlast
      split at hlast
      · cases hlast
      · next hnone => exact absurd hfront (hnone front after)

theorem outputs_endPayload (rest : Bytes) : (endPayload rest).outputs = [] := by
  unfold endPayload
  split
  · rfl
  · split <;> rfl

/-- What comes of a call: each section that it brings to light has been there in pieces, and so has
what is in progress afterwards. -/
structure Follows (calls : List (SectionCall σ)) (call : SectionCall σ) (f : Feed) : Prop where
  /-- The sections. -/
  sections : ∀ x, .whole x ∈ f.outputs → IsSection x ∧ SectionCall.IsPieced calls call x
  /-- What is in progress. -/
  buffer : IsKept (calls ++ [call]) f.buffer

theorem follows_of_idle {f : Feed} (hnone : ∀ x, .whole x ∉ f.outputs) (hidle : f.buffer = .idle) :
    Follows calls call f :=
  ⟨fun x hx => absurd hx (hnone x), hidle ▸ isKept_idle _⟩

theorem Follows.after {f : Feed} (h : Follows calls call f) {outputs : List SectionOutput}
    (hsections : ∀ x, .whole x ∈ outputs → IsSection x ∧ SectionCall.IsPieced calls call x) :
    Follows calls call (f.after outputs) :=
  ⟨fun x hx => (List.mem_append.mp hx).elim (hsections x) (h.sections x), h.buffer⟩

/-- **New sections.**  Those that are complete are in the bytes as a whole, and the last one may be
in progress afterwards. -/
theorem follows_startSections (calls : List (SectionCall σ)) (call : SectionCall σ) :
    Follows calls call (startSections call.starts) := by
  obtain ⟨sections, rest, hdata, hsections, hlast, hstart⟩ := exists_sections call.starts
  rw [hstart]
  refine Follows.after ⟨fun x hx => ?_, fun part hpart => ?_⟩ fun x hx => ?_
  · rw [outputs_endPayload] at hx
    cases hx
  · obtain ⟨rfl, hbegun⟩ := of_endPayload hlast hpart
    refine ⟨hbegun, .of_starts (ne_nil_of_isStuffed hbegun.isOpen) ?_⟩
    rw [hdata]
    exact List.suffix_append _ _
  · obtain ⟨s, hs, heq⟩ := List.mem_map.mp hx
    cases heq
    refine ⟨hsections x hs, .inl ?_⟩
    rw [hdata]
    exact (List.infix_of_mem_flatten hs).trans (List.prefix_append _ _).isInfix

/-- **The section in progress.**  It is completed by the front of what carries it on, or all of that
is the next piece. -/
theorem resume_carriedOn {part : Bytes} (hbegun : IsBegun part)
    (hgathered : SectionCall.IsGathered calls part) (call : SectionCall σ) :
    (∀ x, .whole x ∈ (resume part call.carriedOn).outputs →
        IsSection x ∧ SectionCall.IsPieced calls call x) ∧
      ∀ bytes, (resume part call.carriedOn).buffer = .collecting bytes →
        bytes = part ++ call.carriedOn ∧ IsBegun bytes := by
  have hopen := isStuffed_append hbegun.isOpen call.carriedOn
  unfold resume
  dsimp only
  cases hfront : SectionFront.of (part ++ call.carriedOn) with
  | partly =>
    refine ⟨fun x hx => absurd hx List.not_mem_nil, fun bytes hbytes => ?_⟩
    cases hbytes
    exact ⟨rfl, hopen, hfront⟩
  | tooLong length =>
    exact ⟨fun x hx => absurd hx List.not_mem_nil, fun bytes hbytes => by cases hbytes⟩
  | whole front after =>
    refine ⟨fun x hx => ?_, fun bytes hbytes => by cases hbytes⟩
    cases List.mem_singleton.mp hx
    obtain ⟨last, rfl, hlast⟩ := SectionFront.exists_of_whole hbegun.partly hfront
    refine ⟨(SectionFront.isSection_of_whole hfront hopen).2, .inr ⟨part, last, hgathered, ?_, rfl⟩⟩
    rw [hlast]
    exact List.prefix_append _ _

/-- A section in progress that turns out to be too long is given up. -/
theorem buffer_resume_of_error {part data : Bytes} (h : (resume part data).error ≠ none) :
    (resume part data).buffer = .idle := by
  revert h
  unfold resume
  dsimp only
  split
  · exact fun h => absurd rfl h
  · exact fun _ => rfl
  · exact fun _ => rfl

/-- **A payload in which a section starts.**  The section in progress gets its end before the new
ones. -/
theorem follows_pushStart {b : SectionBuffer} (h : IsKept calls b) (call : SectionCall σ) :
    Follows calls call (b.pushStart call.carriedOn call.starts) := by
  have hnew := follows_startSections calls call
  cases b with
  | idle => exact hnew
  | collecting part =>
    obtain ⟨hbegun, hgathered⟩ := h part rfl
    obtain ⟨hsections, -⟩ := resume_carriedOn hbegun hgathered call
    rw [pushStart]
    split
    · next e herror =>
      have hidle : (resume part call.carriedOn).buffer = .idle :=
        buffer_resume_of_error (by rw [herror]; exact Option.some_ne_none e)
      exact ⟨hsections, hidle ▸ isKept_idle _⟩
    · exact hnew.after hsections
    · refine hnew.after fun x hx => ?_
      cases List.mem_singleton.mp hx

/-- **One payload.** -/
theorem follows_push {b : SectionBuffer} (h : IsKept calls b) (unitStart : Bool) (payload : Bytes)
    (answer : σ → Bytes → σ × Option SectionError) :
    Follows calls (.push unitStart payload answer) (b.push unitStart payload) := by
  cases unitStart with
  | false =>
    cases b with
    | idle =>
      refine follows_of_idle (fun x hx => ?_) rfl
      cases List.mem_singleton.mp hx
    | collecting part =>
      obtain ⟨hbegun, hgathered⟩ := h part rfl
      obtain ⟨hsections, hnext⟩ :=
        resume_carriedOn hbegun hgathered (.push false payload answer)
      refine ⟨hsections, fun bytes hbytes => ?_⟩
      obtain ⟨rfl, hmore⟩ := hnext bytes hbytes
      exact ⟨hmore, hgathered.carryOn rfl⟩
  | true =>
    cases payload with
    | nil => exact follows_of_idle (fun x hx => absurd hx List.not_mem_nil) rfl
    | cons pointer rest =>
      rw [push.eq_def, if_pos rfl]
      dsimp only
      split
      · exact follows_of_idle (fun x hx => absurd hx List.not_mem_nil) rfl
      · exact follows_pushStart h (.push true (pointer :: rest) answer)

end SectionBuffer

/-! ## Any number of calls -/

namespace SectionCall

variable {σ : Type} {calls : List (SectionCall σ)}

/-- What a call does to the bytes and the flag is what it does to the buffer. -/
theorem carryOut_eq {b : SectionBuffer} (h : Sound b) (c : SectionClient σ)
    (call : SectionCall σ) :
    call.carryOut c (.ofBuffer b) = some (Store.stored (call.follow c b)) := by
  cases call with
  | reset => rfl
  | push unitStart payload answer =>
    rw [carryOut, Store.push_eq]
    have hsection : ∀ c bytes,
        some (SectionClient.take answer c bytes) =
          some (SectionClient.receive answer c (.whole bytes)) := fun _ _ => rfl
    have hnote : ∀ c n, SectionClient.receive answer c (.notice n) = (c.note n, none) :=
      fun _ _ => rfl
    rw [Checked.Sections.push_eq hsection hnote h]
    rfl

/-- **One call.** -/
theorem follow_kept {b : SectionBuffer} (h : b.IsKept calls) {c : SectionClient σ}
    (hgiven : ∀ x ∈ c.given, IsAccounted calls x) (call : SectionCall σ) :
    (call.follow c b).2.1.IsKept (calls ++ [call]) ∧
      ∀ x ∈ (call.follow c b).1.given, IsAccounted (calls ++ [call]) x := by
  cases call with
  | reset => exact ⟨SectionBuffer.isKept_idle _, fun x hx => (hgiven x hx).append [reset]⟩
  | push unitStart payload answer =>
    have hfollows := SectionBuffer.follows_push h unitStart payload answer
    obtain ⟨hreceived, hbuffer⟩ := SectionClient.given_drive (b.push unitStart payload) answer c
    refine ⟨?_, fun x hx => ?_⟩
    · rcases hbuffer with hidle | hleft
      · exact hidle ▸ SectionBuffer.isKept_idle _
      · exact hleft ▸ hfollows.buffer
    · rcases hreceived x hx with hold | hnew
      · exact (hgiven x hold).append [push unitStart payload answer]
      · obtain ⟨hsection, hpieced⟩ := hfollows.sections x hnew
        exact ⟨hsection, calls, _, [], rfl, hpieced⟩

/-- **All calls.** -/
theorem run_kept {b : SectionBuffer} (h : b.IsKept calls) {c : SectionClient σ}
    (hgiven : ∀ x ∈ c.given, IsAccounted calls x) (later : List (SectionCall σ)) :
    ∃ c' b', run c (.ofBuffer b) later = some (c', .ofBuffer b') ∧ b'.IsKept (calls ++ later) ∧
      ∀ x ∈ c'.given, IsAccounted (calls ++ later) x := by
  induction later generalizing calls b c with
  | nil =>
    rw [List.append_nil]
    exact ⟨c, b, rfl, h, hgiven⟩
  | cons call later ih =>
    obtain ⟨hkept, hall⟩ := follow_kept h hgiven call
    have hrest := ih hkept hall
    rw [List.append_assoc] at hrest
    rw [run, carryOut_eq h.sound]
    exact hrest

/-- **All calls on a new store.** -/
theorem run_new_kept (state : σ) (calls : List (SectionCall σ)) :
    ∃ c b, run { state } {} calls = some (c, .ofBuffer b) ∧ b.IsKept calls ∧
      ∀ x ∈ c.given, IsAccounted calls x := by
  have hidle : SectionBuffer.idle.IsKept ([] : List (SectionCall σ)) := SectionBuffer.isKept_idle []
  have hnone : ∀ x ∈ ({ state } : SectionClient σ).given,
      IsAccounted ([] : List (SectionCall σ)) x := by
    intro x hx
    cases hx
  exact run_kept hidle hnone calls

end SectionCall

/-- The bytes and the flag fit together. -/
structure Checked.Sections.Store.IsSound (s : Store) : Prop where
  /-- Where nothing is in progress there are no bytes. -/
  empty : s.collecting = false → s.held = []
  /-- What is in progress has a first byte, which does not look like stuffing. -/
  begun : s.collecting = true → ∃ b rest, s.held = b :: rest ∧ b ≠ SectionBuffer.stuffing
  /-- Its header is incomplete, or the section is not too long, and something of it is missing. -/
  partly : s.collecting = true → s.held.length < SectionHeader.size ∨
    ∃ header, SectionHeader.ofBytes s.held = .ok header ∧
      header.length ≤ SectionHeader.maxLength ∧ s.held.length < header.totalSize
  /-- So there are never more bytes than these. -/
  bounded : s.held.length ≤ 1023

/-- The store for a buffer that is kept is sound. -/
theorem SectionBuffer.IsKept.isSound {σ : Type} {calls : List (SectionCall σ)} {b : SectionBuffer}
    (h : b.IsKept calls) : (Store.ofBuffer b).IsSound := by
  cases b with
  | idle =>
    have hnone : ¬ (Store.ofBuffer .idle).collecting = true := Bool.false_ne_true
    exact ⟨fun _ => rfl, fun hsome => absurd hsome hnone, fun hsome => absurd hsome hnone,
      Nat.zero_le _⟩
  | collecting part =>
    obtain ⟨hbegun, -⟩ := h part rfl
    have hpartly : part.length < SectionHeader.size ∨
        ∃ header, SectionHeader.ofBytes part = .ok header ∧
          header.length ≤ SectionHeader.maxLength ∧ part.length < header.totalSize := by
      by_cases hcut : part.length < SectionHeader.size
      · exact .inl hcut
      · obtain ⟨header, hall⟩ := exists_header (Nat.not_lt.mp hcut)
        have hheader : SectionHeader.ofBytes part = .ok header := by simpa using hall []
        have hfront := hbegun.partly
        rw [front_of_header hheader] at hfront
        split at hfront
        · cases hfront
        · next hmax =>
          split at hfront
          · next hshort => exact .inr ⟨header, hheader, Nat.not_lt.mp hmax, hshort⟩
          · cases hfront
    have hsome : ¬ (Store.ofBuffer (.collecting part)).collecting = false := Bool.true_eq_false.mp
    refine ⟨fun hnone => absurd hnone hsome, fun _ => ?_, fun _ => hpartly, ?_⟩
    · cases part with
      | nil => cases hbegun.isOpen
      | cons b rest =>
        refine ⟨b, rest, rfl, fun hstuffing => ?_⟩
        have hopen := hbegun.isOpen
        rw [hstuffing] at hopen
        cases hopen
    · show part.length ≤ 1023
      rcases hpartly with hshort | ⟨header, -, hmax, hshort⟩
      · rw [SectionHeader.size] at hshort
        omega
      · rw [SectionHeader.totalSize, SectionHeader.size] at hshort
        rw [SectionHeader.maxLength] at hmax
        omega

/-- The bytes of a section are as many as its header says. -/
theorem IsSection.exists_header {x : Bytes} (h : IsSection x) :
    ∃ header, SectionHeader.ofBytes x = .ok header ∧ x.length = header.totalSize ∧
      x.length ≤ 1024 := by
  obtain ⟨b₀, b₁, b₂, rest, rfl, -, hlength, hmax⟩ := h.exists_eq
  rw [SectionHeader.maxLength] at hmax
  refine ⟨_, rfl, ?_, ?_⟩
  · simp only [List.length_cons, SectionHeader.totalSize, SectionHeader.size]
    omega
  · simp only [List.length_cons]
    omega

/-- **What is kept, and what is given.**  Calls on a new store, in any order and with any answers,
do not reach beyond any bytes.  After them the bytes and the flag fit together.  Each section that
has been given is as long as its header says, and consists of pieces that were there one behind the
other in the payloads since its first byte. -/
theorem SectionCall.store_sound {σ : Type} (state : σ) (calls : List (SectionCall σ)) :
    ∃ c s, SectionCall.run { state } {} calls = some (c, s) ∧ s.IsSound ∧
      ∀ x ∈ c.given, IsAccounted calls x ∧
        ∃ header, SectionHeader.ofBytes x = .ok header ∧ x.length = header.totalSize ∧
          x.length ≤ 1024 := by
  obtain ⟨c, b, hrun, hkept, hgiven⟩ := run_new_kept state calls
  exact ⟨c, .ofBuffer b, hrun, hkept.isSound, fun x hx =>
    ⟨hgiven x hx, (hgiven x hx).1.exists_header⟩⟩

end TransportStream
