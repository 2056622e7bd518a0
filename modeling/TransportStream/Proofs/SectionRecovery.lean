import TransportStream.Proofs.SectionsInProgress

/-!
# The past does not matter for long

Packets get lost, and what is in progress then is the start of a section that will never be
complete, or will be completed with bytes of another one.  This ends at the next payload in which a
section starts.  Whatever is in progress gets the bytes in front of the pointer, and has to be
content with them: it is complete, or cut short, or found to be too long.  From the pointer on
nothing of it is left, unless it was too long, and an error has given up everything.

## Two pasts

So two stores with different pasts come to the same when they accept the same payload in which a
section starts.  Each client may be given one section of its own, the one that was in progress; the
sections behind the pointer are the same for both, and so are all sections from there on.

* `SectionBuffer.buffer_push_of_error`: an error leaves nothing in progress.
* `SectionBuffer.push_unitStart`: what is left when a payload is accepted in which a section starts.
* `SectionCall.follow_of_error`: the same of a call, whoever finds the error.
* `SectionCall.IsAccepting`: a client that accepts every section.
* `SectionCall.exists_carryOut_unitStart`: one past.
* `SectionCall.recovery`: any two pasts.
-/

namespace TransportStream

open Checked.Sections

/-- What is left of the past by a payload in which a section starts: `own`, which is nothing, or the
section in progress, completed by the bytes in front of the pointer. -/
structure Checked.Sections.Store.IsOwn (s : Store) (carriedOn : Bytes) (own : List Bytes) :
    Prop where
  /-- It is one section at most. -/
  length_le : own.length ≤ 1
  /-- That was in progress. -/
  completed : ∀ x ∈ own, s.collecting = true ∧ ∃ last, last <+: carriedOn ∧ x = s.held ++ last

theorem Checked.Sections.Store.isOwn_nil (s : Store) (carriedOn : Bytes) : s.IsOwn carriedOn [] :=
  ⟨Nat.zero_le 1, fun _ hx => absurd hx List.not_mem_nil⟩

/-- The sections that a payload brings to light. -/
def Feed.sections (f : Feed) : List Bytes :=
  f.outputs.filterMap SectionOutput.section?

theorem Feed.sections_after (outputs : List SectionOutput) (f : Feed) :
    (f.after outputs).sections = outputs.filterMap SectionOutput.section? ++ f.sections :=
  List.filterMap_append

namespace SectionBuffer

/-! ## After an error -/

theorem buffer_endPayload_of_error {rest : Bytes} (h : (endPayload rest).error ≠ none) :
    (endPayload rest).buffer = .idle := by
  revert h
  unfold endPayload
  split
  · exact fun _ => rfl
  · split
    · exact fun _ => rfl
    · exact fun h => absurd rfl h

theorem buffer_startSections_of_error {data : Bytes} (h : (startSections data).error ≠ none) :
    (startSections data).buffer = .idle := by
  obtain ⟨sections, rest, -, -, -, hstart⟩ := exists_sections data
  rw [hstart] at h ⊢
  exact buffer_endPayload_of_error h

theorem buffer_pushStart_of_error {b : SectionBuffer} {tail starts : Bytes}
    (h : (b.pushStart tail starts).error ≠ none) : (b.pushStart tail starts).buffer = .idle := by
  cases b with
  | idle => exact buffer_startSections_of_error h
  | collecting part =>
    revert h
    rw [pushStart]
    split
    · next e herror =>
      exact fun _ => buffer_resume_of_error (by rw [herror]; exact Option.some_ne_none e)
    · exact fun h => buffer_startSections_of_error h
    · exact fun h => buffer_startSections_of_error h

/-- **A payload that is wrong.**  Nothing is in progress behind it. -/
theorem buffer_push_of_error {b : SectionBuffer} {unitStart : Bool} {payload : Bytes}
    (h : (b.push unitStart payload).error ≠ none) : (b.push unitStart payload).buffer = .idle := by
  cases unitStart with
  | false =>
    cases b with
    | idle => rfl
    | collecting part => exact buffer_resume_of_error h
  | true =>
    cases payload with
    | nil => rfl
    | cons pointer rest =>
      revert h
      rw [push.eq_def, if_pos rfl]
      dsimp only
      split
      · exact fun _ => rfl
      · exact buffer_pushStart_of_error

/-! ## Behind the pointer -/

/-- The bytes are these sections, one behind the other, and a rest that does not start with one. -/
def IsDivided (data : Bytes) (sections : List Bytes) : Prop :=
  ∃ rest, data = sections.flatten ++ rest ∧ (∀ x ∈ sections, IsSection x) ∧
    readSection rest = none

/-- The bytes from the start of a section on bring their own sections to light. -/
theorem isDivided_startSections (data : Bytes) :
    IsDivided data (startSections data).sections := by
  obtain ⟨sections, rest, hdata, hsections, hlast, hstart⟩ := exists_sections data
  have hsame : (startSections data).sections = sections := by
    rw [hstart, Feed.sections_after, filterMap_section?_map_whole, Feed.sections,
      outputs_endPayload]
    exact List.append_nil sections
  rw [hsame]
  exact ⟨rest, hdata, hsections, hlast⟩

/-- The section in progress gives one section at most, which is completed by the front of the
data. -/
theorem sections_resume {part : Bytes} (hpart : SectionFront.of part = .partly) (data : Bytes) :
    (resume part data).sections.length ≤ 1 ∧
      ∀ x ∈ (resume part data).sections, ∃ last, last <+: data ∧ x = part ++ last := by
  unfold resume
  dsimp only
  cases hfront : SectionFront.of (part ++ data) with
  | partly => exact ⟨Nat.zero_le _, fun x hx => absurd hx List.not_mem_nil⟩
  | tooLong length => exact ⟨Nat.zero_le _, fun x hx => absurd hx List.not_mem_nil⟩
  | whole front after =>
    refine ⟨Nat.le_refl 1, fun x hx => ?_⟩
    obtain rfl : x = front := List.mem_singleton.mp hx
    obtain ⟨last, hx, hdata⟩ := SectionFront.exists_of_whole hpart hfront
    exact ⟨last, ⟨after, hdata.symm⟩, hx⟩

/-- If the payload is accepted, everything but that comes from the bytes behind the pointer. -/
theorem pushStart_of_ok {b : SectionBuffer} (hb : Sound b) {tail starts : Bytes}
    (hok : (b.pushStart tail starts).error = none) :
    (b.pushStart tail starts).buffer = (startSections starts).buffer ∧
      ∃ own, (Store.ofBuffer b).IsOwn tail own ∧
        (b.pushStart tail starts).sections = own ++ (startSections starts).sections := by
  cases b with
  | idle => exact ⟨rfl, [], Store.isOwn_nil _ _, rfl⟩
  | collecting part =>
    obtain ⟨hlength, hcompleted⟩ := sections_resume (hb part rfl) tail
    revert hok
    rw [pushStart]
    split
    · next e herror =>
      intro hok
      cases herror.symm.trans hok
    · refine fun _ => ⟨rfl, (resume part tail).sections, ⟨hlength, fun x hx => ?_⟩, ?_⟩
      · obtain ⟨last, hlast, hx⟩ := hcompleted x hx
        exact ⟨rfl, last, hlast, hx⟩
      · exact Feed.sections_after _ _
    · exact fun _ => ⟨rfl, [], Store.isOwn_nil _ _, rfl⟩

/-- **A payload in which a section starts.** -/
theorem push_unitStart {σ : Type} {b : SectionBuffer} (hb : Sound b) {payload : Bytes}
    (hok : (b.push true payload).error = none) (answer : σ → Bytes → σ × Option SectionError) :
    let call := SectionCall.push true payload answer
    (b.push true payload).buffer = (startSections call.starts).buffer ∧
      ∃ own, (Store.ofBuffer b).IsOwn call.carriedOn own ∧
        (b.push true payload).sections = own ++ (startSections call.starts).sections := by
  intro call
  cases payload with
  | nil => cases hok
  | cons pointer rest =>
    rw [push.eq_def, if_pos rfl] at hok ⊢
    dsimp only at hok ⊢
    split at hok
    · cases hok
    · next hpointer =>
      rw [if_neg hpointer]
      exact pushStart_of_ok hb hok

end SectionBuffer

/-! ## Two pasts -/

namespace SectionCall

variable {σ τ : Type}

/-- The client accepts every section. -/
def IsAccepting (answer : σ → Bytes → σ × Option SectionError) : Prop :=
  ∀ state x, (answer state x).2 = none

/-- A client that accepts every section is given all of them. -/
theorem driveOutputs_of_isAccepting {answer : σ → Bytes → σ × Option SectionError}
    (h : IsAccepting answer) (c : SectionClient σ) (outputs : List SectionOutput) :
    (driveOutputs (SectionClient.receive answer) c outputs).2 = none ∧
      (driveOutputs (SectionClient.receive answer) c outputs).1.given =
        c.given ++ outputs.filterMap SectionOutput.section? := by
  induction outputs generalizing c with
  | nil => exact ⟨rfl, (List.append_nil c.given).symm⟩
  | cons output outputs ih =>
    cases output with
    | notice n => exact ih (c.note n)
    | whole bytes =>
      have haccepted : SectionClient.receive answer c (.whole bytes) =
          ((c.take answer bytes).1, none) := Prod.ext rfl (h c.state bytes)
      obtain ⟨hok, hgiven⟩ := ih (c.take answer bytes).1
      rw [driveOutputs, haccepted]
      exact ⟨hok, hgiven.trans (List.append_assoc c.given [bytes] _)⟩

/-- What a payload leads to is up to the buffer then. -/
theorem follow_of_isAccepting {answer : σ → Bytes → σ × Option SectionError}
    (h : IsAccepting answer) (c : SectionClient σ) (b : SectionBuffer) (unitStart : Bool)
    (payload : Bytes) :
    let left := (push unitStart payload answer).follow c b
    left.2 = ((b.push unitStart payload).buffer, (b.push unitStart payload).error) ∧
      left.1.given = c.given ++ (b.push unitStart payload).sections := by
  obtain ⟨hok, hgiven⟩ := driveOutputs_of_isAccepting h c (b.push unitStart payload).outputs
  rw [follow, Feed.drive]
  revert hok hgiven
  generalize driveOutputs (SectionClient.receive answer) c (b.push unitStart payload).outputs =
    driven
  obtain ⟨next, e⟩ := driven
  rintro rfl hgiven
  exact ⟨rfl, hgiven⟩

/-- A call that fails leaves nothing in progress. -/
theorem follow_of_error {c : SectionClient σ} {b : SectionBuffer} {call : SectionCall σ}
    (h : (call.follow c b).2.2 ≠ none) : (call.follow c b).2.1 = .idle := by
  cases call with
  | reset => rfl
  | push unitStart payload answer =>
    revert h
    rw [follow, Feed.drive]
    generalize driveOutputs (SectionClient.receive answer) c (b.push unitStart payload).outputs =
      driven
    obtain ⟨next, e⟩ := driven
    cases e with
    | some e => exact fun _ => rfl
    | none => exact SectionBuffer.buffer_push_of_error

/-- The sections that payloads bring to light, one payload after the other, and what is in progress
afterwards, when all sections are accepted. -/
def deliveries (b : SectionBuffer) : List (Bool × Bytes) → List Bytes × SectionBuffer
  | [] => ([], b)
  | (unitStart, payload) :: later =>
    let f := b.push unitStart payload
    (f.sections ++ (deliveries f.buffer later).1, (deliveries f.buffer later).2)

/-- Payloads, for a client. -/
def pushes (answer : σ → Bytes → σ × Option SectionError) (payloads : List (Bool × Bytes)) :
    List (SectionCall σ) :=
  payloads.map fun p => push p.1 p.2 answer

/-- A client that accepts every section is given what the payloads bring to light. -/
theorem run_pushes {answer : σ → Bytes → σ × Option SectionError} (h : IsAccepting answer)
    {c : SectionClient σ} {b : SectionBuffer} (hb : Sound b) (payloads : List (Bool × Bytes)) :
    ∃ last, run c (.ofBuffer b) (pushes answer payloads) =
        some (last, .ofBuffer (deliveries b payloads).2) ∧
      last.given = c.given ++ (deliveries b payloads).1 := by
  induction payloads generalizing c b with
  | nil => exact ⟨c, rfl, (List.append_nil c.given).symm⟩
  | cons p payloads ih =>
    obtain ⟨unitStart, payload⟩ := p
    obtain ⟨hleft, hgiven⟩ := follow_of_isAccepting h c b unitStart payload
    obtain ⟨last, hrun, hlast⟩ := ih (c := ((push unitStart payload answer).follow c b).1)
      (sound_push b unitStart payload)
    refine ⟨last, ?_, ?_⟩
    · have hnext : ((push unitStart payload answer).follow c b).2.1 =
          (b.push unitStart payload).buffer := congrArg Prod.fst hleft
      rw [pushes, List.map_cons, run, carryOut_eq hb, Store.stored, hnext]
      exact hrun
    · rw [hlast, hgiven, List.append_assoc]
      rfl

/-- Calls on a new store, with some client and its answers, lead to these bytes and this flag. -/
def IsReachable (s : Store) : Prop :=
  ∃ (σ : Type) (state : σ) (calls : List (SectionCall σ)) (c : SectionClient σ),
    run { state } {} calls = some (c, s)

theorem IsReachable.exists_buffer {s : Store} (h : IsReachable s) :
    ∃ b, s = .ofBuffer b ∧ Sound b := by
  obtain ⟨σ, state, calls, c, hrun⟩ := h
  obtain ⟨c', b, hrun', hkept, -⟩ := run_new_kept state calls
  obtain ⟨-, rfl⟩ := Prod.mk.inj (Option.some.inj (hrun.symm.trans hrun'))
  exact ⟨b, rfl, hkept.sound⟩

/-- **One past.**  When a payload is accepted in which a section starts, the sections that are given
are that of the past, if any, and those behind the pointer.  Of the past, nothing is left. -/
theorem exists_carryOut_unitStart {answer : σ → Bytes → σ × Option SectionError}
    (h : IsAccepting answer) {b : SectionBuffer} (hb : Sound b) (c : SectionClient σ)
    (payload : Bytes) :
    let call := push true payload answer
    ∃ left next e, call.carryOut c (.ofBuffer b) = some (left, next, e) ∧
      (e = none → next = .ofBuffer (SectionBuffer.startSections call.starts).buffer ∧
        ∃ own, (Store.ofBuffer b).IsOwn call.carriedOn own ∧
          left.given = c.given ++ own ++ (SectionBuffer.startSections call.starts).sections) := by
  intro call
  obtain ⟨hleft, hgiven⟩ := follow_of_isAccepting h c b true payload
  have hnext : (call.follow c b).2.1 = (b.push true payload).buffer := congrArg Prod.fst hleft
  have he : (call.follow c b).2.2 = (b.push true payload).error := congrArg Prod.snd hleft
  refine ⟨_, _, _, carryOut_eq hb c call, fun hok => ?_⟩
  obtain ⟨hbuffer, own, hown, hsections⟩ :=
    SectionBuffer.push_unitStart hb (he.symm.trans hok) answer
  refine ⟨?_, own, hown, ?_⟩
  · rw [hnext, hbuffer]
  · rw [hgiven, hsections, List.append_assoc]

/-- **Any two pasts.**  A call that fails leaves a store as a new one is.  When two stores accept
the same payload in which a section starts, they come to the same: the bytes and the flag, the
sections behind the pointer, and all sections that later payloads bring to light. -/
theorem recovery {s s' : Store} (hs : IsReachable s) (hs' : IsReachable s') (c : SectionClient σ)
    (c' : SectionClient τ) :
    (∀ call : SectionCall σ, ∃ left next e,
      call.carryOut c s = some (left, next, e) ∧ (e ≠ none → next = {})) ∧
    ∀ (answer : σ → Bytes → σ × Option SectionError)
      (answer' : τ → Bytes → τ × Option SectionError),
      IsAccepting answer → IsAccepting answer' → ∀ payload,
      let call := push true payload answer
      let call' := push true payload answer'
      ∃ left next e left' next' e', call.carryOut c s = some (left, next, e) ∧
        call'.carryOut c' s' = some (left', next', e') ∧
        (e = none → e' = none → next = next' ∧
          (∃ own own' sections, s.IsOwn call.carriedOn own ∧ s'.IsOwn call.carriedOn own' ∧
            SectionBuffer.IsDivided call.starts sections ∧
            left.given = c.given ++ own ++ sections ∧ left'.given = c'.given ++ own' ++ sections) ∧
          ∀ later, ∃ more after last last',
            run left next (pushes answer later) = some (last, after) ∧
            run left' next' (pushes answer' later) = some (last', after) ∧
            last.given = left.given ++ more ∧ last'.given = left'.given ++ more) := by
  obtain ⟨b, rfl, hb⟩ := hs.exists_buffer
  obtain ⟨b', rfl, hb'⟩ := hs'.exists_buffer
  refine ⟨fun call => ⟨_, _, _, carryOut_eq hb c call, fun herror => ?_⟩, ?_⟩
  · rw [follow_of_error herror]
    rfl
  intro answer answer' h h' payload call call'
  have hstarts : call'.starts = call.starts := by cases payload <;> rfl
  have hcarried : call'.carriedOn = call.carriedOn := by cases payload <;> rfl
  obtain ⟨left, next, e, hcall, hleft⟩ := exists_carryOut_unitStart h hb c payload
  obtain ⟨left', next', e', hcall', hleft'⟩ := exists_carryOut_unitStart h' hb' c' payload
  refine ⟨left, next, e, left', next', e', hcall, hcall', fun hok hok' => ?_⟩
  obtain ⟨rfl, own, hown, hgiven⟩ := hleft hok
  obtain ⟨hnext', own', hown', hgiven'⟩ := hleft' hok'
  have hsame : next' = .ofBuffer (SectionBuffer.startSections call.starts).buffer := by
    rw [hnext', ← hstarts]
  subst hsame
  refine ⟨rfl, ⟨own, own', _, hown, hcarried ▸ hown', SectionBuffer.isDivided_startSections _,
    hgiven, ?_⟩, fun later => ?_⟩
  · rw [hgiven', ← hstarts]
  · have hsound : Sound (SectionBuffer.startSections call.starts).buffer := sound_startSections _
    obtain ⟨last, hrun, hlast⟩ := run_pushes h (c := left) hsound later
    obtain ⟨last', hrun', hlast'⟩ := run_pushes h' (c := left') hsound later
    exact ⟨_, _, last, last', hrun, hrun', hlast, hlast'⟩

/-- One store is new, and in the other one a section is in progress whose last packets are lost.  A
payload completes that with a byte of another section, and then starts one that both are given. -/
theorem recovery_stale_part :
    let accept : Unit → Bytes → Unit × Option SectionError := fun _ _ => ((), none)
    let fresh : Store := {}
    let stale : Store := { held := [0x00, 0xb0], collecting := true }
    let call := push true [0x01, 0x00, 0x42, 0x30, 0x01, 0x55, 0xff] accept
    IsReachable fresh ∧ IsReachable stale ∧ IsAccepting accept ∧
      ∃ left next left' next', call.carryOut ⟨(), [], []⟩ fresh = some (left, next, none) ∧
        call.carryOut ⟨(), [], []⟩ stale = some (left', next', none) ∧ next = next' ∧
        ∃ own own' sections, left.given = own ++ sections ∧ left'.given = own' ++ sections ∧
          own.length ≤ 1 ∧ own'.length ≤ 1 := by
  intro accept fresh stale call
  have hfresh : IsReachable fresh := ⟨Unit, (), [], _, rfl⟩
  have hstale : IsReachable stale := by
    have hpast : run ⟨(), [], []⟩ fresh [push true [0x00, 0x00, 0xb0] accept] =
        some (⟨(), [], []⟩, stale) := by
      have hfollow : (push true [0x00, 0x00, 0xb0] accept).follow ⟨(), [], []⟩ .idle =
          (⟨(), [], []⟩, .collecting [0x00, 0xb0], none) := by decide +kernel
      show run _ (Store.ofBuffer .idle) _ = _
      rw [run, carryOut_eq sound_idle, hfollow]
      rfl
    exact ⟨Unit, (), _, _, hpast⟩
  have haccept : IsAccepting accept := fun _ _ => rfl
  have hpart : Sound (.collecting [0x00, 0xb0]) := sound_collecting (by decide +kernel)
  have hok : (call.follow ⟨(), [], []⟩ .idle).2.2 = none := by decide +kernel
  have hok' : (call.follow ⟨(), [], []⟩ (.collecting [0x00, 0xb0])).2.2 = none := by decide +kernel
  obtain ⟨left, next, e, left', next', e', hcall, hcall', hleft⟩ :=
    (recovery hfresh hstale ⟨(), [], []⟩ ⟨(), [], []⟩).2 accept accept haccept haccept
      [0x01, 0x00, 0x42, 0x30, 0x01, 0x55, 0xff]
  have he : e = none := by
    have hsame := Option.some.inj ((carryOut_eq sound_idle _ _).symm.trans hcall)
    exact (congrArg (·.2.2) hsame).symm.trans hok
  have he' : e' = none := by
    have hsame := Option.some.inj ((carryOut_eq hpart _ _).symm.trans hcall')
    exact (congrArg (·.2.2) hsame).symm.trans hok'
  subst he he'
  obtain ⟨hnext, ⟨own, own', sections, hown, hown', -, hgiven, hgiven'⟩, -⟩ := hleft rfl rfl
  exact ⟨hfresh, hstale, haccept, left, next, left', next', hcall, hcall', hnext, own, own',
    sections, hgiven, hgiven', hown.length_le, hown'.length_le⟩

end SectionCall

end TransportStream
