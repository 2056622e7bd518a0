import TransportStream.Section.Reassembly

/-!
# Carrying sections in packets, and getting them back

A multiplexer lays the sections of a PID end to end and cuts the result into payloads wherever it
likes.  This module says what such a cutting is, and proves that `SectionBuffer` undoes it: every
section arrives, once, in order, and nothing is left over.

## What a cutting is

The bytes of the sections are marked with where a section starts (`sectionBytes`), and a cutting is
a list of `SectionCargo`s whose contents make up the marked bytes.  Everything that a payload has
beside its content follows from the marks: whether it counts as a unit start, and the pointer, which
is the number of bytes before the first mark.  Stuffing may follow a content that stops where a
section does.

## The invariant

Between two payloads the buffer holds the part of a section that has come, and the rest of it is in
front of what is still to come.  `Expects` is this statement, and there is one step lemma for it,
`expects_push`; it does not matter to it whether the section is cut within its header, or whether it
ends by the pointer of a unit start or by a payload that carries on.

* `SectionFront.of_section`, `SectionFront.of_part`: how far the beginning of a section reaches.
* `expects_push`: one payload hands over the sections that end in it, and keeps the invariant.
* `pushAll_carriage`: a whole cutting hands over all sections and leaves the buffer idle.
-/

namespace TransportStream

/-! ## Sections and their bytes -/

/-- True of the bytes of one section, all of them and nothing more: they are as many as the length
field says, within the limit, and do not start like stuffing. -/
def IsSection : Bytes → Prop
  | b₀ :: b₁ :: b₂ :: rest =>
    b₀ ≠ SectionBuffer.stuffing ∧ rest.length = wordField 4 b₁ b₂ ∧
      rest.length ≤ SectionHeader.maxLength
  | _ => False

instance (s : Bytes) : Decidable (IsSection s) := by
  unfold IsSection
  split <;> infer_instance

/-- A section has the three bytes of its header, and the length field counts the others. -/
theorem IsSection.exists_eq {s : Bytes} (h : IsSection s) :
    ∃ b₀ b₁ b₂ rest, s = b₀ :: b₁ :: b₂ :: rest ∧ b₀ ≠ SectionBuffer.stuffing ∧
      rest.length = wordField 4 b₁ b₂ ∧ wordField 4 b₁ b₂ ≤ SectionHeader.maxLength := by
  match s, h with
  | b₀ :: b₁ :: b₂ :: rest, ⟨hstart, hlength, hmax⟩ =>
    exact ⟨b₀, b₁, b₂, rest, rfl, hstart, hlength, hlength ▸ hmax⟩

theorem IsSection.ne_nil {s : Bytes} (h : IsSection s) : s ≠ [] := by
  obtain ⟨b₀, b₁, b₂, rest, rfl, -⟩ := h.exists_eq
  exact List.cons_ne_nil _ _

/-- A section is found at the front of any bytes that start with it. -/
theorem SectionFront.of_section {s : Bytes} (h : IsSection s) (after : Bytes) :
    SectionFront.of (s ++ after) = .whole s after := by
  obtain ⟨b₀, b₁, b₂, rest, rfl, -, hlength, hmax⟩ := h.exists_eq
  have hsplit : splitFront? (3 + wordField 4 b₁ b₂) (b₀ :: b₁ :: b₂ :: rest ++ after) =
      some (b₀ :: b₁ :: b₂ :: rest, after) := by
    refine splitFront?_eq_some_iff.mpr ⟨rfl, ?_⟩
    simp only [List.length_cons, hlength]
    omega
  have hle : ¬ SectionHeader.maxLength < wordField 4 b₁ b₂ := by omega
  simp only [SectionFront.of, SectionHeader.ofBytes, List.cons_append, SectionHeader.totalSize,
    SectionHeader.size, if_neg hle] at hsplit ⊢
  rw [hsplit]

/-- A section that lacks some of its last bytes is recognised as incomplete, even if the bytes of
its length field are among those that are missing. -/
theorem SectionFront.of_part {part missing : Bytes} (h : IsSection (part ++ missing))
    (hmissing : missing ≠ []) : SectionFront.of part = .partly := by
  obtain ⟨b₀, b₁, b₂, rest, heq, -, hlength, hmax⟩ := h.exists_eq
  have hpos := List.length_pos_iff.mpr hmissing
  match part, heq with
  | [], _ => rfl
  | [_], _ => rfl
  | [_, _], _ => rfl
  | c₀ :: c₁ :: c₂ :: start, heq =>
    simp only [List.cons_append, List.cons.injEq] at heq
    obtain ⟨rfl, rfl, rfl, rfl⟩ := heq
    rw [List.length_append] at hlength
    have hle : ¬ SectionHeader.maxLength < wordField 4 c₁ c₂ := by omega
    have hsplit : splitFront? (3 + wordField 4 c₁ c₂) (c₀ :: c₁ :: c₂ :: start) = none := by
      refine splitFront?_eq_none_iff.mpr ?_
      simp only [List.length_cons]
      omega
    simp only [SectionFront.of, SectionHeader.ofBytes, SectionHeader.totalSize, SectionHeader.size,
      if_neg hle, hsplit]

/-- A byte of the sections of a PID. -/
structure SectionByte where
  /-- The byte. -/
  value : UInt8
  /-- A section starts with it. -/
  starts : Bool
  deriving DecidableEq

/-- Bytes from within a section. -/
def inSection (bytes : Bytes) : List SectionByte :=
  bytes.map fun b => ⟨b, false⟩

/-- The bytes of a section, or of the beginning of one. -/
def fromStart : Bytes → List SectionByte
  | [] => []
  | b :: rest => ⟨b, true⟩ :: inSection rest

/-- The bytes of sections that are laid end to end. -/
def sectionBytes (sections : List Bytes) : List SectionByte :=
  sections.flatMap fromStart

@[simp] theorem inSection_nil : inSection [] = [] := rfl

@[simp] theorem map_value_inSection (bytes : Bytes) :
    (inSection bytes).map (·.value) = bytes := by
  simp [inSection, Function.comp_def]

@[simp] theorem map_value_fromStart (bytes : Bytes) :
    (fromStart bytes).map (·.value) = bytes := by
  cases bytes with
  | nil => rfl
  | cons b rest => simp [fromStart]

@[simp] theorem sectionBytes_nil : sectionBytes [] = [] := rfl

@[simp] theorem sectionBytes_cons (s : Bytes) (sections : List Bytes) :
    sectionBytes (s :: sections) = fromStart s ++ sectionBytes sections := rfl

@[simp] theorem map_value_sectionBytes (sections : List Bytes) :
    (sectionBytes sections).map (·.value) = sections.flatten := by
  induction sections with
  | nil => rfl
  | cons s sections ih => simp [ih]

theorem starts_eq_false_of_mem_inSection {bytes : Bytes} {b : SectionByte}
    (h : b ∈ inSection bytes) : b.starts = false := by
  obtain ⟨_, -, rfl⟩ := List.mem_map.mp h
  rfl

/-! ## Cuttings -/

/-- What one payload carries of the sections, and how much stuffing follows. -/
structure SectionCargo where
  /-- The bytes of sections, in order. -/
  content : List SectionByte
  /-- The number of bytes of stuffing. -/
  stuffed : Nat := 0
  deriving DecidableEq

namespace SectionCargo

/-- True if a section starts in the payload. -/
def unitStart (c : SectionCargo) : Bool :=
  c.content.any (·.starts)

/-- The number of bytes before the first start of a section. -/
def pointer (c : SectionCargo) : Nat :=
  (c.content.takeWhile fun b => !b.starts).length

/-- The bytes of the payload.  The pointer comes first, if a section starts in it. -/
def payload (c : SectionCargo) : Bytes :=
  (if c.unitStart then [UInt8.ofNat c.pointer] else []) ++
    (c.content.map (·.value) ++ List.replicate c.stuffed SectionBuffer.stuffing)

end SectionCargo

/-- True if no section is cut in front of the given bytes: they are at their end, or a section
starts. -/
def BetweenSections (toCome : List SectionByte) : Prop :=
  ∀ b ∈ toCome.head?, b.starts = true

theorem BetweenSections.of_append {content later : List SectionByte}
    (h : BetweenSections (content ++ later)) : BetweenSections content := by
  cases content with
  | nil => simp [BetweenSections]
  | cons b content => exact h

/-- Whole sections begin with the start of one. -/
theorem betweenSections_sectionBytes {sections : List Bytes}
    (hs : ∀ s ∈ sections, IsSection s) : BetweenSections (sectionBytes sections) := by
  cases sections with
  | nil => simp [BetweenSections]
  | cons s sections =>
    obtain ⟨b₀, b₁, b₂, rest, rfl, -⟩ := (hs s List.mem_cons_self).exists_eq
    intro b hb
    cases hb
    rfl

/-- True if the payloads carry the given bytes and nothing else: the contents follow each other,
each pointer fits into its byte, and stuffing stands only where a section has ended. -/
def Carries : List SectionByte → List SectionCargo → Prop
  | toCome, [] => toCome = []
  | toCome, c :: cargos =>
    ∃ later, toCome = c.content ++ later ∧ (c.unitStart = true → c.pointer < 256) ∧
      (0 < c.stuffed → BetweenSections later) ∧ Carries later cargos

/-- A section can have a payload of its own. -/
theorem carries_singleton {x : Bytes} (hx : IsSection x) :
    Carries (sectionBytes [x]) [{ content := fromStart x }] ∧
      SectionCargo.unitStart { content := fromStart x } = true ∧
      SectionCargo.payload { content := fromStart x } = 0 :: x := by
  obtain ⟨b, rest, hcons⟩ := List.exists_cons_of_ne_nil hx.ne_nil
  have hcargo : SectionCargo.unitStart { content := fromStart x } = true ∧
      SectionCargo.pointer { content := fromStart x } = 0 := by
    rw [hcons]
    exact ⟨rfl, rfl⟩
  refine ⟨⟨[], by simp, fun _ => ?_, by simp, rfl⟩, hcargo.1, ?_⟩
  · rw [hcargo.2]
    decide
  · simp [SectionCargo.payload, hcargo.1, hcargo.2]

/-- Contents that are cut off the front of whole sections end between two sections, or within
one. -/
theorem sectionBytes_eq_append {sections : List Bytes} {content later : List SectionByte}
    (h : sectionBytes sections = content ++ later) :
    (∃ done rest, sections = done ++ rest ∧ content = sectionBytes done ∧
        later = sectionBytes rest) ∨
      ∃ done part missing rest, sections = done ++ (part ++ missing) :: rest ∧ part ≠ [] ∧
        missing ≠ [] ∧ content = sectionBytes done ++ fromStart part ∧
        later = inSection missing ++ sectionBytes rest := by
  induction sections generalizing content with
  | nil =>
    obtain ⟨rfl, rfl⟩ := List.append_eq_nil_iff.mp h.symm
    exact .inl ⟨[], [], rfl, rfl, rfl⟩
  | cons s sections ih =>
    rw [sectionBytes_cons] at h
    rcases List.append_eq_append_iff.mp h with ⟨more, rfl, hmore⟩ | ⟨missing, hs, rfl⟩
    · -- the content reaches beyond the first section
      rcases ih hmore with ⟨done, rest, rfl, rfl, rfl⟩ |
        ⟨done, part, missing, rest, rfl, hpart, hmissing, rfl, rfl⟩
      · exact .inl ⟨s :: done, rest, rfl, rfl, rfl⟩
      · exact .inr ⟨s :: done, part, missing, rest, rfl, hpart, hmissing, by simp, rfl⟩
    · -- the content ends within the first section, or at one of its ends
      match content, missing, s, hs with
      | [], _, s, hs =>
        refine .inl ⟨[], s :: sections, rfl, rfl, ?_⟩
        rw [sectionBytes_cons, hs]
        rfl
      | first :: content, [], s, hs =>
        refine .inl ⟨[s], sections, rfl, ?_, rfl⟩
        simpa using hs.symm
      | first :: content, m :: missing, b :: s, hs =>
        rw [fromStart, List.cons_append, List.cons.injEq, inSection, List.map_eq_append_iff] at hs
        obtain ⟨rfl, front, back, rfl, rfl, hback⟩ := hs
        refine .inr ⟨[], b :: front, back, sections, rfl, List.cons_ne_nil _ _, ?_, rfl, ?_⟩
        · rintro rfl
          exact List.cons_ne_nil _ _ hback.symm
        · rw [← hback]
          rfl

/-! ## What a payload does to the buffer -/

/-- The section that a payload brings to light, if that is what it is. -/
def SectionOutput.section? : SectionOutput → Option Bytes
  | .whole bytes => some bytes
  | .notice _ => none

theorem filterMap_section?_map_whole (sections : List Bytes) :
    (sections.map SectionOutput.whole).filterMap SectionOutput.section? = sections := by
  rw [List.filterMap_map]
  exact List.filterMap_some

namespace SectionBuffer

/-- The rest of a section in progress completes it.  What follows it is not looked at. -/
theorem resume_of_section {part missing : Bytes} (h : IsSection (part ++ missing)) (after : Bytes) :
    resume part (missing ++ after) = { outputs := [.whole (part ++ missing)] } := by
  unfold resume
  dsimp only
  rw [← List.append_assoc, SectionFront.of_section h]

/-- A section of which something is still missing stays in progress. -/
theorem resume_of_part {part data missing : Bytes} (h : IsSection (part ++ (data ++ missing)))
    (hmissing : missing ≠ []) : resume part data = { buffer := .collecting (part ++ data) } := by
  rw [← List.append_assoc] at h
  unfold resume
  dsimp only
  rw [SectionFront.of_part h hmissing]

theorem isStuffed_replicate (n : Nat) : isStuffed (List.replicate n stuffing) = true := by
  cases n with
  | zero => rfl
  | succ n => simp [isStuffed, List.replicate_succ]

/-- What starts like a section does not look like stuffing. -/
theorem isStuffed_of_part {part missing : Bytes} (h : IsSection (part ++ missing))
    (hpart : part ≠ []) (after : Bytes) : isStuffed (part ++ after) = false := by
  obtain ⟨b₀, b₁, b₂, rest, heq, hstart, -⟩ := h.exists_eq
  match part, hpart, heq with
  | b :: part, _, heq =>
    rw [List.cons_append, List.cons.injEq] at heq
    simpa [isStuffed, heq.1] using hstart

/-- A section is taken off the front of the data that starts with it. -/
theorem readItems_readSection_cons {s : Bytes} (h : IsSection s) (after : Bytes) :
    readItems readSection (s ++ after) =
      (s :: (readItems readSection after).1, (readItems readSection after).2) := by
  have hstuffed : isStuffed (s ++ after) = false :=
    isStuffed_of_part ((List.append_nil s).symm ▸ h) h.ne_nil after
  have hread : ∃ hlt, readSection (s ++ after) = some (s, ⟨after, hlt⟩) := by
    unfold readSection
    rw [if_neg (by simp [hstuffed])]
    split
    · next front rest hfront =>
      rw [SectionFront.of_section h] at hfront
      cases hfront
      exact ⟨SectionFront.length_lt_of_whole (SectionFront.of_section h after), rfl⟩
    · next hfront => exact absurd (SectionFront.of_section h after) (hfront s after)
  obtain ⟨hlt, hread⟩ := hread
  exact readItems_of_some hread

/-- All sections are taken off the front of data that starts with them, if no other follows. -/
theorem readItems_readSection_flatten {sections : List Bytes} (hs : ∀ s ∈ sections, IsSection s)
    {left : Bytes} (hleft : readSection left = none) :
    readItems readSection (sections.flatten ++ left) = (sections, left) := by
  induction sections with
  | nil => exact readItems_of_none hleft
  | cons s sections ih =>
    have hs' := List.forall_mem_cons.mp hs
    rw [List.flatten_cons, List.append_assoc, readItems_readSection_cons hs'.1, ih hs'.2]

/-- Data that consists of sections and stuffing hands over the sections. -/
theorem startSections_stuffed {sections : List Bytes} (hs : ∀ s ∈ sections, IsSection s) (n : Nat) :
    startSections (sections.flatten ++ List.replicate n stuffing) =
      { outputs := sections.map .whole } := by
  have hstuffed := isStuffed_replicate n
  have hleft : readSection (List.replicate n stuffing) = none := by
    simp [readSection, hstuffed]
  simp [startSections, readItems_readSection_flatten hs hleft, endPayload, hstuffed, Feed.after]

/-- Data that ends within a section hands over the sections before it, and that one is in progress
afterwards. -/
theorem startSections_part {sections : List Bytes} (hs : ∀ s ∈ sections, IsSection s)
    {part missing : Bytes} (h : IsSection (part ++ missing)) (hpart : part ≠ [])
    (hmissing : missing ≠ []) :
    startSections (sections.flatten ++ part) =
      { outputs := sections.map .whole, buffer := .collecting part } := by
  have hstuffed : isStuffed part = false := by
    simpa using isStuffed_of_part h hpart []
  have hfront := SectionFront.of_part h hmissing
  have hleft : readSection part = none := by
    unfold readSection
    rw [if_neg (by simp [hstuffed])]
    split
    · next hwhole =>
      rw [hfront] at hwhole
      cases hwhole
    · rfl
  simp [startSections, readItems_readSection_flatten hs hleft, endPayload, hstuffed, hfront,
    Feed.after]

/-! ## The invariant -/

/-- True if the buffer holds the part of the first pending section that has come, and the given
bytes are the rest of the pending sections. -/
def Expects (buffer : SectionBuffer) (toCome : List SectionByte) (pending : List Bytes) : Prop :=
  match buffer with
  | .idle => toCome = sectionBytes pending
  | .collecting part =>
    ∃ missing rest, pending = (part ++ missing) :: rest ∧ part ≠ [] ∧ missing ≠ [] ∧
      toCome = inSection missing ++ sectionBytes rest

/-- If nothing is to come, no section is pending, and none is in progress. -/
theorem of_expects_nil {buffer : SectionBuffer} {pending : List Bytes}
    (hs : ∀ s ∈ pending, IsSection s) (hexp : Expects buffer [] pending) :
    buffer = .idle ∧ pending = [] := by
  cases buffer with
  | idle =>
    cases pending with
    | nil => exact ⟨rfl, rfl⟩
    | cons s pending =>
      obtain ⟨b, s, rfl⟩ := List.exists_cons_of_ne_nil (hs s List.mem_cons_self).ne_nil
      cases hexp
  | collecting part =>
    obtain ⟨missing, rest, -, -, hmissing, htoCome⟩ := hexp
    obtain ⟨b, missing, rfl⟩ := List.exists_cons_of_ne_nil hmissing
    cases htoCome

/-- Sections that start in a payload are handed over as far as they end in it, and the rest is
expected in the payloads after it. -/
theorem expects_startSections {pending : List Bytes} (hs : ∀ s ∈ pending, IsSection s)
    {content later : List SectionByte} (h : sectionBytes pending = content ++ later) {n : Nat}
    (hn : 0 < n → BetweenSections later) :
    ∃ delivered rest buffer, pending = delivered ++ rest ∧
      startSections (content.map (·.value) ++ List.replicate n stuffing) =
        { outputs := delivered.map .whole, buffer } ∧
      Expects buffer later rest := by
  rcases sectionBytes_eq_append h with ⟨done, rest, rfl, rfl, rfl⟩ |
    ⟨done, part, missing, rest, rfl, hpart, hmissing, rfl, rfl⟩
  · refine ⟨done, rest, .idle, rfl, ?_, rfl⟩
    rw [map_value_sectionBytes]
    exact startSections_stuffed (fun s hmem => hs s (List.mem_append_left _ hmem)) n
  · refine ⟨done, (part ++ missing) :: rest, .collecting part, rfl, ?_,
      ⟨missing, rest, rfl, hpart, hmissing, rfl⟩⟩
    have hcut : ¬ BetweenSections (inSection missing ++ sectionBytes rest) := by
      obtain ⟨b, missing, rfl⟩ := List.exists_cons_of_ne_nil hmissing
      intro hbetween
      simpa using hbetween ⟨b, false⟩ rfl
    have hzero : n = 0 := Nat.eq_zero_of_not_pos fun hpos => hcut (hn hpos)
    subst hzero
    rw [List.map_append, map_value_sectionBytes, map_value_fromStart, List.replicate_zero,
      List.append_nil]
    refine startSections_part (fun s hmem => hs s (List.mem_append_left _ hmem))
      (hs _ ?_) hpart hmissing
    exact List.mem_append_right _ List.mem_cons_self

/-- The bytes of a section in progress come before the first start. -/
theorem pointer_inSection_append {missing : Bytes} {content : List SectionByte}
    (h : ∀ b ∈ content.head?, b.starts = true) :
    SectionCargo.pointer { content := inSection missing ++ content } = missing.length := by
  have hcontent : content.takeWhile (fun b => !b.starts) = [] := by
    cases content with
    | nil => rfl
    | cons b content => simp [h b rfl]
  simp [SectionCargo.pointer, hcontent, inSection]

/-- If a section starts in a payload, the whole rest of the section in progress is in front of
it. -/
theorem content_eq_of_unitStart {missing : Bytes} {sections : List Bytes}
    {content later : List SectionByte}
    (h : inSection missing ++ sectionBytes sections = content ++ later)
    (hstart : content.any (·.starts) = true) :
    ∃ started, content = inSection missing ++ started ∧
      sectionBytes sections = started ++ later := by
  rcases List.append_eq_append_iff.mp h with ⟨started, hcontent, hlater⟩ | ⟨more, hmissing, -⟩
  · exact ⟨started, hcontent, hlater⟩
  · obtain ⟨b, hb, hbstart⟩ := List.any_eq_true.mp hstart
    have hmem : b ∈ inSection missing := hmissing ▸ List.mem_append_left _ hb
    simp [starts_eq_false_of_mem_inSection hmem] at hbstart

/-- If no section starts in a payload, it carries bytes of the section in progress alone. -/
theorem content_eq_of_not_unitStart {missing : Bytes} {sections : List Bytes}
    {content later : List SectionByte} (hs : ∀ s ∈ sections, IsSection s)
    (h : inSection missing ++ sectionBytes sections = content ++ later)
    (hstart : content.any (·.starts) = false) :
    ∃ front back, missing = front ++ back ∧ content = inSection front ∧
      later = inSection back ++ sectionBytes sections := by
  rcases List.append_eq_append_iff.mp h with ⟨started, hcontent, hlater⟩ | ⟨more, hmissing, hlater⟩
  · cases started with
    | nil =>
      refine ⟨missing, [], (List.append_nil missing).symm, by simpa using hcontent, ?_⟩
      simpa using hlater.symm
    | cons b started =>
      have hb : b.starts = true :=
        betweenSections_sectionBytes hs b (by rw [hlater]; rfl)
      simp [hcontent, hb] at hstart
  · obtain ⟨front, back, hsplit, hfront, hback⟩ := List.map_eq_append_iff.mp hmissing
    exact ⟨front, back, hsplit, hfront.symm, by rw [hlater, ← hback]; rfl⟩

/-- A payload in which a section starts is split at its pointer. -/
theorem push_of_unitStart {c : SectionCargo} {missing : Bytes} {started : List SectionByte}
    (hc : c.content = inSection missing ++ started) (hunit : c.unitStart = true)
    (hstarted : BetweenSections started) (hpointer : c.pointer < 256) (buffer : SectionBuffer) :
    buffer.push c.unitStart c.payload = buffer.pushStart missing
      (started.map (·.value) ++ List.replicate c.stuffed stuffing) := by
  have hlength : c.pointer = missing.length := by
    rw [← pointer_inSection_append hstarted]
    simp only [SectionCargo.pointer, hc]
  have hnat : (UInt8.ofNat c.pointer).toNat = missing.length := by
    rw [UInt8.toNat_ofNat_of_lt' hpointer, hlength]
  have hpayload : c.payload = UInt8.ofNat c.pointer ::
      (missing ++ (started.map (·.value) ++ List.replicate c.stuffed stuffing)) := by
    simp [SectionCargo.payload, hunit, hc]
  rw [hpayload, hunit, push.eq_def, if_pos rfl]
  dsimp only
  rw [hnat, if_neg (by simp), List.take_left, List.drop_left]

/-- A payload in which no section starts has no pointer. -/
theorem payload_of_not_unitStart {c : SectionCargo} {front : Bytes}
    (hc : c.content = inSection front) (hunit : c.unitStart = false) :
    c.payload = front ++ List.replicate c.stuffed stuffing := by
  simp [SectionCargo.payload, hunit, hc]

/-- The payload hands over some of the pending sections, without an error, and the others are
expected in the given bytes. -/
def HandsOver (buffer : SectionBuffer) (c : SectionCargo) (later : List SectionByte)
    (pending : List Bytes) : Prop :=
  ∃ delivered rest outputs next, pending = delivered ++ rest ∧
    buffer.push c.unitStart c.payload = { outputs, buffer := next } ∧
    outputs.filterMap SectionOutput.section? = delivered ∧ Expects next later rest

/-- A payload in which a section starts. -/
theorem expects_push_start {buffer : SectionBuffer} {c : SectionCargo} {later : List SectionByte}
    {pending : List Bytes} (hs : ∀ s ∈ pending, IsSection s)
    (hexp : Expects buffer (c.content ++ later) pending) (hunit : c.unitStart = true)
    (hpointer : c.pointer < 256) (hstuffed : 0 < c.stuffed → BetweenSections later) :
    HandsOver buffer c later pending := by
  cases buffer with
  | idle =>
    have hexp : inSection [] ++ sectionBytes pending = c.content ++ later := hexp.symm
    obtain ⟨started, hc, hsections⟩ := content_eq_of_unitStart hexp hunit
    have hstarted : BetweenSections started :=
      (hsections ▸ betweenSections_sectionBytes hs).of_append
    obtain ⟨delivered, rest, next, hpending, hfeed, hnext⟩ :=
      expects_startSections hs hsections hstuffed
    refine ⟨delivered, rest, delivered.map .whole, next, hpending, ?_,
      filterMap_section?_map_whole delivered, hnext⟩
    rw [push_of_unitStart hc hunit hstarted hpointer, pushStart, hfeed]
  | collecting part =>
    obtain ⟨missing, sections, rfl, hpart, hmissing, htoCome⟩ := hexp
    obtain ⟨hsection, hrest⟩ := List.forall_mem_cons.mp hs
    obtain ⟨started, hc, hsections⟩ := content_eq_of_unitStart htoCome.symm hunit
    have hstarted : BetweenSections started :=
      (hsections ▸ betweenSections_sectionBytes hrest).of_append
    obtain ⟨delivered, rest, next, rfl, hfeed, hnext⟩ :=
      expects_startSections hrest hsections hstuffed
    have hresume : resume part missing = { outputs := [.whole (part ++ missing)] } := by
      simpa using resume_of_section hsection []
    refine ⟨(part ++ missing) :: delivered, rest, .whole (part ++ missing) :: delivered.map .whole,
      next, rfl, ?_, ?_, hnext⟩
    · rw [push_of_unitStart hc hunit hstarted hpointer, pushStart]
      simp only [hresume, hfeed, Feed.after, List.singleton_append]
    · simpa [SectionOutput.section?] using filterMap_section?_map_whole delivered

/-- A payload in which none starts. -/
theorem expects_push_more {buffer : SectionBuffer} {c : SectionCargo} {later : List SectionByte}
    {pending : List Bytes} (hs : ∀ s ∈ pending, IsSection s)
    (hexp : Expects buffer (c.content ++ later) pending) (hunit : c.unitStart = false)
    (hstuffed : 0 < c.stuffed → BetweenSections later) :
    HandsOver buffer c later pending := by
  cases buffer with
  | idle =>
    have hexp : inSection [] ++ sectionBytes pending = c.content ++ later := hexp.symm
    obtain ⟨front, back, hfront, hc, hlater⟩ := content_eq_of_not_unitStart hs hexp hunit
    obtain ⟨rfl, rfl⟩ := List.append_eq_nil_iff.mp hfront.symm
    refine ⟨[], pending, [.notice .continuationWithoutStart], .idle, rfl, ?_, rfl, hlater⟩
    rw [hunit]
    rfl
  | collecting part =>
    obtain ⟨missing, sections, rfl, hpart, hmissing, htoCome⟩ := hexp
    obtain ⟨hsection, hrest⟩ := List.forall_mem_cons.mp hs
    obtain ⟨front, back, rfl, hc, hlater⟩ :=
      content_eq_of_not_unitStart hrest htoCome.symm hunit
    by_cases hback : back = []
    · -- the section ends in this payload
      subst hback
      rw [List.append_nil] at hsection ⊢
      refine ⟨[part ++ front], sections, [.whole (part ++ front)], .idle, rfl, ?_, rfl, hlater⟩
      rw [payload_of_not_unitStart hc hunit, hunit]
      exact resume_of_section hsection _
    · -- it goes on, so nothing may be stuffed behind it
      have hcut : ¬ BetweenSections later := by
        obtain ⟨b, back, rfl⟩ := List.exists_cons_of_ne_nil hback
        intro hbetween
        rw [hlater] at hbetween
        simpa using hbetween ⟨b, false⟩ rfl
      have hzero : c.stuffed = 0 := Nat.eq_zero_of_not_pos fun hpos => hcut (hstuffed hpos)
      refine ⟨[], (part ++ (front ++ back)) :: sections, [], .collecting (part ++ front), rfl, ?_,
        rfl, ⟨back, sections, by simp, by simp [hpart], hback, hlater⟩⟩
      rw [payload_of_not_unitStart hc hunit, hzero, List.replicate_zero, List.append_nil, hunit]
      exact resume_of_part hsection hback

/-- **One payload.**  It hands over the sections that end in it, without an error, and the rest is
expected in the payloads after it. -/
theorem expects_push {buffer : SectionBuffer} {c : SectionCargo} {later : List SectionByte}
    {pending : List Bytes} (hs : ∀ s ∈ pending, IsSection s)
    (hexp : Expects buffer (c.content ++ later) pending)
    (hpointer : c.unitStart = true → c.pointer < 256)
    (hstuffed : 0 < c.stuffed → BetweenSections later) :
    HandsOver buffer c later pending := by
  by_cases hunit : c.unitStart = true
  · exact expects_push_start hs hexp hunit (hpointer hunit) hstuffed
  · exact expects_push_more hs hexp (Bool.eq_false_iff.mpr hunit) hstuffed

/-! ## All payloads -/

variable {σ : Type}

/-- The receiver that passes each section to a function and accepts all of them. -/
def accepting (f : σ → Bytes → σ) : σ → SectionOutput → σ × Option SectionError
  | state, .whole bytes => (f state bytes, none)
  | state, .notice _ => (state, none)

/-- Gives payloads to a buffer one after the other, each with whether it is a unit start, and what
they bring to light to a receiver.  The results of the single payloads are in the order of these. -/
def pushAll (receive : σ → SectionOutput → σ × Option SectionError) (state : σ)
    (buffer : SectionBuffer) :
    List (Bool × Bytes) → σ × SectionBuffer × List (Option SectionError)
  | [] => (state, buffer, [])
  | (unitStart, payload) :: rest =>
    let (state, buffer, result) := (buffer.push unitStart payload).drive receive state
    let (state, buffer, results) := pushAll receive state buffer rest
    (state, buffer, result :: results)

theorem driveOutputs_accepting (f : σ → Bytes → σ) (state : σ) (outputs : List SectionOutput) :
    driveOutputs (accepting f) state outputs =
      ((outputs.filterMap SectionOutput.section?).foldl f state, none) := by
  induction outputs generalizing state with
  | nil => rfl
  | cons output outputs ih =>
    cases output with
    | whole bytes => exact ih (f state bytes)
    | notice n => exact ih state

/-- What is expected arrives. -/
theorem pushAll_of_expects (f : σ → Bytes → σ) {cargos : List SectionCargo} {state : σ}
    {buffer : SectionBuffer} {toCome : List SectionByte} {pending : List Bytes}
    (hs : ∀ s ∈ pending, IsSection s) (hexp : Expects buffer toCome pending)
    (hcarries : Carries toCome cargos) :
    pushAll (accepting f) state buffer (cargos.map fun c => (c.unitStart, c.payload)) =
      (pending.foldl f state, .idle, cargos.map fun _ => none) := by
  induction cargos generalizing state buffer toCome pending with
  | nil =>
    obtain rfl : toCome = [] := hcarries
    obtain ⟨rfl, rfl⟩ := of_expects_nil hs hexp
    rfl
  | cons c cargos ih =>
    obtain ⟨later, rfl, hpointer, hstuffed, hlater⟩ := hcarries
    obtain ⟨delivered, rest, outputs, next, rfl, hfeed, houtputs, hnext⟩ :=
      expects_push hs hexp hpointer hstuffed
    have hrest := @ih (delivered.foldl f state) _ _ _
      (fun s hmem => hs s (List.mem_append_right _ hmem)) hnext hlater
    simp only [List.map_cons, pushAll, hfeed, Feed.drive, driveOutputs_accepting, houtputs, hrest,
      List.foldl_append]

/-- **Reassembly undoes packetisation.**  However sections are cut into payloads, a new buffer that
gets the payloads in order passes the sections on, each of them once and in order, accepts every
payload, and has nothing in progress at the end. -/
theorem pushAll_carriage (f : σ → Bytes → σ) (state : σ) {sections : List Bytes}
    {cargos : List SectionCargo} (hs : ∀ s ∈ sections, IsSection s)
    (hcarries : Carries (sectionBytes sections) cargos) :
    pushAll (accepting f) state .idle (cargos.map fun c => (c.unitStart, c.payload)) =
      (sections.foldl f state, .idle, cargos.map fun _ => none) :=
  pushAll_of_expects f hs rfl hcarries

/-- A section that is cut within its header and within its content, and ends in a payload in which
another one starts, with stuffing behind that. -/
theorem pushAll_carriage_cut_header :
    (∀ s ∈ [[0x00, 0xb0, 0x02, 0xaa, 0xbb], [0x02, 0x00, 0x01, 0x55]], IsSection s) ∧
      Carries (sectionBytes [[0x00, 0xb0, 0x02, 0xaa, 0xbb], [0x02, 0x00, 0x01, 0x55]])
        [{ content := fromStart [0x00, 0xb0] }, { content := inSection [0x02, 0xaa] },
          { content := inSection [0xbb] ++ fromStart [0x02, 0x00, 0x01, 0x55], stuffed := 2 }] ∧
      pushAll (accepting fun got s => got ++ [s]) [] .idle
          [(true, [0, 0x00, 0xb0]), (false, [0x02, 0xaa]),
            (true, [1, 0xbb, 0x02, 0x00, 0x01, 0x55, 0xff, 0xff])] =
        ([[0x00, 0xb0, 0x02, 0xaa, 0xbb], [0x02, 0x00, 0x01, 0x55]], .idle,
          [none, none, none]) := by
  have hs : ∀ s ∈ [[0x00, 0xb0, 0x02, 0xaa, 0xbb], [0x02, 0x00, 0x01, 0x55]], IsSection s := by
    decide
  have hcarries : Carries
      (sectionBytes [[0x00, 0xb0, 0x02, 0xaa, 0xbb], [0x02, 0x00, 0x01, 0x55]])
      [{ content := fromStart [0x00, 0xb0] }, { content := inSection [0x02, 0xaa] },
        { content := inSection [0xbb] ++ fromStart [0x02, 0x00, 0x01, 0x55], stuffed := 2 }] :=
    ⟨_, rfl, by decide, by simp, _, rfl, by decide, by simp, _, rfl, by decide,
      by simp [BetweenSections], rfl⟩
  exact ⟨hs, hcarries, pushAll_carriage (fun got s => got ++ [s]) [] hs hcarries⟩

end SectionBuffer

end TransportStream
