import TransportStream.Items
import TransportStream.Text.Inspect

/-!
# Descriptors

Descriptors are notes attached to a program or to an elementary stream: a tag, a length, and as
many bytes of payload.  Two kinds matter here, the registration descriptor, which can tell the
coding of a stream of private data, and the language descriptor; every other kind is kept as it is.

## Two ways to fail

A descriptor whose length leads out of the loop that holds it leaves no way to find the next one,
so it ends the loop (`Descriptor.list`).  A descriptor that is whole but whose payload is too short
for its kind is reported in its place, and the loop goes on behind it.
-/

namespace TransportStream

/-- Why a descriptor cannot be read. -/
inductive DescriptorError where
  /-- The payload is too short for a descriptor of this kind. -/
  | notEnoughData (tag : UInt8) (actual expected : Nat)
  /-- Not even a tag and a length are there. -/
  | bufferTooShort (length : Nat)
  /-- The length of the descriptor leads past the end of the bytes at hand. -/
  | tagTooLongForBuffer (length available : Nat)
  deriving DecidableEq

/-- The error in a description. -/
def DescriptorError.inspect : DescriptorError → String
  | notEnoughData tag actual expected =>
    Text.record "NotEnoughData" [
      ("tag", toString tag.toNat), ("actual", toString actual), ("expected", toString expected)]
  | bufferTooShort length => Text.record "BufferTooShort" [("buflen", toString length)]
  | tagTooLongForBuffer length available =>
    Text.record "TagTooLongForBuffer" [
      ("taglen", toString length), ("buflen", toString available)]

/-! ## Registration -/

/-- A registration descriptor: a format identifier of four bytes, and what the format adds. -/
structure Registration where
  /-- The identifier and what follows it. -/
  data : Bytes
  /-- The identifier is complete. -/
  four_le_length : 4 ≤ data.length
  deriving DecidableEq

namespace Registration

/-- The tag of registration descriptors. -/
def tag : UInt8 := 5

/-- Reads the payload of a registration descriptor. -/
def ofPayload (payload : Bytes) : Except DescriptorError Registration :=
  if h : 4 ≤ payload.length then .ok ⟨payload, h⟩
  else .error (.notEnoughData tag payload.length 4)

/-- The identifier of the format. -/
def formatIdentifier (r : Registration) : Bytes :=
  r.data.take 4

/-- True if the format has the given identifier. -/
def isFormat (r : Registration) (identifier : Bytes) : Bool :=
  r.formatIdentifier == identifier

/-- The identifier of H.265 video, the letters `HEVC`. -/
def hevc : Bytes := [0x48, 0x45, 0x56, 0x43]

/-- The identifier of the format in a description. -/
def inspectFormat (r : Registration) : String :=
  Text.wrapped "FormatIdentifier" (Text.wrapped "FourCC" (Text.asciiCode r.formatIdentifier))

/-- The descriptor in a description. -/
def inspect (r : Registration) : String :=
  Text.record "RegistrationDescriptor" [("format_identifier", r.inspectFormat)]

end Registration

/-! ## Languages -/

/-- The part that an audio stream plays beside others of its language. -/
inductive AudioType where
  | undefined
  | cleanEffects
  | hearingImpaired
  | visualImpairedCommentary
  | reserved (value : UInt8)
  deriving DecidableEq

namespace AudioType

/-- The audio type a byte stands for. -/
def ofByte (b : UInt8) : AudioType :=
  if b = 0 then undefined
  else if b = 1 then cleanEffects
  else if b = 2 then hearingImpaired
  else if b = 3 then visualImpairedCommentary
  else reserved b

/-- The audio type in a description. -/
def inspect : AudioType → String
  | undefined => "Undefined"
  | cleanEffects => "CleanEffects"
  | hearingImpaired => "HearingImpaired"
  | visualImpairedCommentary => "VisualImpairedCommentary"
  | reserved value => Text.wrapped "Reserved" (toString value.toNat)

end AudioType

/-- The text that bytes spell in ISO 8859-1, where every byte is the code point of its character. -/
def latin1 (bytes : Bytes) : String :=
  String.ofList (bytes.map fun b => Char.ofNat b.toNat)

/-- One entry of a language descriptor. -/
structure Language where
  /-- The three-letter code of the language. -/
  code : String
  /-- The part the stream plays for speakers of the language. -/
  audioType : AudioType
  deriving DecidableEq

namespace Language

/-- The tag of language descriptors. -/
def tag : UInt8 := 10

/-- The entries in the payload of a language descriptor; bytes at the end that do not make up an
entry are ignored. -/
def listOfPayload : Bytes → List Language
  | a :: b :: c :: kind :: rest => ⟨latin1 [a, b, c], .ofByte kind⟩ :: listOfPayload rest
  | _ => []

/-- The entry in a description. -/
def inspect (l : Language) : String :=
  Text.record "Language" [("code", Text.quoted l.code), ("audio_type", l.audioType.inspect)]

end Language

/-! ## Descriptors of all kinds -/

/-- A descriptor. -/
inductive Descriptor where
  /-- It names a format. -/
  | registration (r : Registration)
  /-- It names languages. -/
  | iso639Language (languages : List Language)
  /-- It is of a kind that is not looked into. -/
  | unknown (tag : UInt8) (payload : Bytes)
  deriving DecidableEq

namespace Descriptor

/-- Reads a descriptor from its tag and its whole payload. -/
def ofPayload (tag : UInt8) (payload : Bytes) : Except DescriptorError Descriptor :=
  if tag = Registration.tag then (Registration.ofPayload payload).map registration
  else if tag = Language.tag then .ok (iso639Language (Language.listOfPayload payload))
  else .ok (unknown tag payload)

/-- What is wrong with bytes that start no descriptor: not even a tag and a length are there, or the
length leads past the end. -/
def framingError : Bytes → DescriptorError
  | _ :: length :: rest => .tagTooLongForBuffer length.toNat (rest.length + 2)
  | short => .bufferTooShort short.length

/-- Takes the tag and the payload of a descriptor off the front of a byte string. -/
def readFramed : ItemReader (UInt8 × Bytes)
  | tag :: length :: rest =>
    match h : splitFront? length.toNat rest with
    | none => none
    | some (payload, after) => some ((tag, payload), ⟨after, by
        have := length_of_splitFront? h
        simp only [List.length_cons]
        omega⟩)
  | _ => none

section

variable {tag length : UInt8} {rest : Bytes}

/-- A length that leads past the end leaves nothing to take off. -/
theorem readFramed_of_lt (h : rest.length < length.toNat) :
    readFramed (tag :: length :: rest) = none := by
  unfold readFramed
  dsimp only
  split
  · rfl
  · next hsplit =>
    rw [splitFront?_eq_none_iff.mpr h] at hsplit
    cases hsplit

/-- A length that does not is that of the payload. -/
theorem readFramed_of_le (h : length.toNat ≤ rest.length) :
    ∃ hlt, readFramed (tag :: length :: rest) =
      some ((tag, rest.take length.toNat), ⟨rest.drop length.toNat, hlt⟩) := by
  have hfront := splitFront?_of_le h
  unfold readFramed
  dsimp only
  split
  · next hsplit =>
    rw [hfront] at hsplit
    cases hsplit
  · next hsplit =>
    rw [hfront] at hsplit
    cases hsplit
    refine ⟨?_, rfl⟩
    simp only [List.length_drop, List.length_cons]
    omega

end

/-- Reads the descriptor at the front of a byte string. -/
def ofBytes (bytes : Bytes) : Except DescriptorError Descriptor :=
  match readFramed bytes with
  | none => .error (framingError bytes)
  | some ((tag, payload), _) => ofPayload tag payload

/-- Reads a loop of descriptors, up to its end or to the first descriptor that does not fit. -/
def list (bytes : Bytes) : List (Except DescriptorError Descriptor) :=
  let (framed, rest) := readItems readFramed bytes
  framed.map (fun (tag, payload) => ofPayload tag payload) ++
    if rest.isEmpty then [] else [.error (framingError rest)]

/-- The descriptor in a description. -/
def inspect : Descriptor → String
  | registration r => Text.wrapped "Registration" r.inspect
  | iso639Language languages =>
    Text.wrapped "Iso639Language" (Text.record "Iso639LanguageDescriptor"
      [("languages", Text.listing (languages.map Language.inspect))])
  | unknown tag payload =>
    Text.wrapped "Unknown" (Text.record "UnknownDescriptor"
      [("tag", toString tag.toNat), ("len", toString payload.length)])

/-- An item of a loop in a description: a descriptor, or what is wrong with it. -/
def inspectItem : Except DescriptorError Descriptor → String
  | .ok d => Text.wrapped "Ok" d.inspect
  | .error e => Text.wrapped "Err" e.inspect

end Descriptor

end TransportStream
