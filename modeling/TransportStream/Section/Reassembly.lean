import TransportStream.Items
import TransportStream.Notice
import TransportStream.Section.Header

/-!
# Putting sections together

Sections are carried back to back in the payloads of the packets of one PID.  A payload in which a
section starts begins with a pointer, the number of bytes that still belong to the section before
it; a payload without a start carries on the section in progress.  What follows the last section of
a payload is stuffing, which is recognised by its first byte, or by there being nothing left to
carry on.

## One question about bytes

Whether bytes come from one payload or have been collected from several, the same question decides
what to do with them: how far do they reach into the section they start?  `SectionFront.of` answers
it, and both ways of completing a section, `resume` and `startSections`, are short because of it.

## Payloads and receivers

`push` does not know who receives the sections.  It gives everything that the payload brings to
light in order, and the state and the error that follow if all of it is accepted.  A receiver that
refuses a section ends the payload there; nothing is in progress then (`Feed.drive`), since a
section is only ever in progress at the end of a payload.
-/

namespace TransportStream

/-- How far bytes reach into the section they start. -/
inductive SectionFront where
  /-- Part of the section is missing. -/
  | partly
  /-- The section is longer than it may be. -/
  | tooLong (length : Nat)
  /-- The section is there, and something may follow it. -/
  | whole (bytes rest : Bytes)
  deriving DecidableEq

/-- How far the given bytes reach into the section they start. -/
def SectionFront.of (bytes : Bytes) : SectionFront :=
  match SectionHeader.ofBytes bytes with
  | .error _ => .partly
  | .ok header =>
    if SectionHeader.maxLength < header.length then .tooLong header.length
    else
      match splitFront? header.totalSize bytes with
      | none => .partly
      | some (front, rest) => .whole front rest

/-- A section that is there has at least its header. -/
theorem SectionFront.length_lt_of_whole {bytes front rest : Bytes}
    (h : SectionFront.of bytes = .whole front rest) : rest.length < bytes.length := by
  unfold SectionFront.of at h
  split at h
  · cases h
  · next header _ =>
    split at h
    · cases h
    · split at h
      · cases h
      · next hs =>
        cases h
        have := length_of_splitFront? hs
        simp only [SectionHeader.totalSize, SectionHeader.size] at this
        omega

/-- The section of one PID that is in progress, if there is one. -/
inductive SectionBuffer where
  /-- No section is in progress. -/
  | idle
  /-- The start of a section is there. -/
  | collecting (part : Bytes)
  deriving DecidableEq

/-- What a payload brings to light. -/
inductive SectionOutput where
  /-- A section is complete. -/
  | whole (bytes : Bytes)
  /-- Something notable happened. -/
  | notice (n : Notice)
  deriving DecidableEq

/-- What a payload does to a section buffer. -/
structure Feed where
  /-- What it brings to light, in order. -/
  outputs : List SectionOutput := []
  /-- The buffer afterwards. -/
  buffer : SectionBuffer := .idle
  /-- What is wrong with the payload. -/
  error : Option SectionError := none
  deriving DecidableEq

/-- The same, with something that came to light before. -/
def Feed.after (outputs : List SectionOutput) (f : Feed) : Feed :=
  { f with outputs := outputs ++ f.outputs }

/-- Gives outputs to a receiver until it refuses one. -/
def driveOutputs {σ : Type} (receive : σ → SectionOutput → σ × Option SectionError) :
    σ → List SectionOutput → σ × Option SectionError
  | state, [] => (state, none)
  | state, output :: rest =>
    match receive state output with
    | (state, some e) => (state, some e)
    | (state, none) => driveOutputs receive state rest

/-- Gives all outputs to a receiver.  If it refuses one, that ends the payload with nothing in
progress. -/
def Feed.drive {σ : Type} (f : Feed) (receive : σ → SectionOutput → σ × Option SectionError)
    (state : σ) : σ × SectionBuffer × Option SectionError :=
  match driveOutputs receive state f.outputs with
  | (state, some e) => (state, .idle, some e)
  | (state, none) => (state, f.buffer, f.error)

namespace SectionBuffer

/-- The byte that fills payloads after the last section. -/
def stuffing : UInt8 := 0xff

/-- Adds data to the section in progress.  Data beyond its end is stuffing. -/
def resume (part data : Bytes) : Feed :=
  let bytes := part ++ data
  match SectionFront.of bytes with
  | .partly => { buffer := .collecting bytes }
  | .tooLong length => { error := some (.sectionTooLong length) }
  | .whole front _ => { outputs := [.whole front] }

/-- True if no section starts here: the bytes are at their end, or stuffing follows. -/
def isStuffed (bytes : Bytes) : Bool :=
  match bytes with
  | [] => true
  | b :: _ => b == stuffing

/-- Takes a section off the front of a payload. -/
def readSection : ItemReader Bytes := fun bytes =>
  if isStuffed bytes then none
  else
    match h : SectionFront.of bytes with
    | .whole front rest => some (front, ⟨rest, SectionFront.length_lt_of_whole h⟩)
    | _ => none

/-- What becomes of the bytes after the last section of a payload: they are stuffing, or a section
that cannot be used, or the start of one that goes on in the next payload. -/
def endPayload (rest : Bytes) : Feed :=
  if isStuffed rest then {}
  else
    match SectionFront.of rest with
    | .tooLong length => { error := some (.sectionTooLong length) }
    | _ => { buffer := .collecting rest }

/-- Takes sections off the front of the data, as long as there are some. -/
def startSections (data : Bytes) : Feed :=
  let (sections, rest) := readItems readSection data
  (endPayload rest).after (sections.map .whole)

/-- Takes a payload in which a section starts, split at its pointer: first the section in progress
gets its end, then the new ones follow. -/
def pushStart (buffer : SectionBuffer) (tail starts : Bytes) : Feed :=
  match buffer with
  | idle => startSections starts
  | collecting part =>
    let first := resume part tail
    match first.error, first.buffer with
    | some _, _ => first
    | none, idle => (startSections starts).after first.outputs
    | none, collecting part =>
      (startSections starts).after [.notice (.sectionCutShort part.length)]

/-- Takes the payload of one packet.  `unitStart` is set if a section starts in it. -/
def push (buffer : SectionBuffer) (unitStart : Bool) (payload : Bytes) : Feed :=
  if unitStart then
    match payload with
    | [] => { error := some (.notEnoughData .pointerField 1 0) }
    | pointer :: rest =>
      if rest.length < pointer.toNat then
        { error := some (.pointerBeyondPayload pointer.toNat rest.length) }
      else buffer.pushStart (rest.take pointer.toNat) (rest.drop pointer.toNat)
  else
    match buffer with
    | idle => { outputs := [.notice .continuationWithoutStart] }
    | collecting part => resume part payload

end SectionBuffer

end TransportStream
