import TransportStream.Proofs.PacketEncoding
import TransportStream.Descriptor

/-!
# The format of a loop of descriptors

A loop is divided into descriptors by their lengths alone.  What a descriptor says is looked into
afterwards, so one with too short a payload is reported in its place and the others are not lost; a
length that leads past the end is another matter, since nobody knows where the next descriptor
would begin.  Then what is left is reported, once, and the loop is over.

* `Descriptor.exists_of_readFramed`, `OutgoingDescriptor.readFramed_bytes_append`: a descriptor is
  taken off as it was written, and what is taken off could have been written.
* `OutgoingDescriptor.isRead_ofBytes`: what a descriptor is read as.
* `Descriptor.head?_list`: a loop begins with what its bytes are read as alone.
* `Descriptor.list_partitions`: all of it, for loops that were written and for all others.
-/

namespace TransportStream

/-- A descriptor as it is written. -/
structure OutgoingDescriptor where
  /-- The kind of descriptor. -/
  tag : UInt8
  /-- What it says. -/
  payload : Bytes
  /-- The length of the payload fits into its field. -/
  length_payload_lt : payload.length < 256
  deriving DecidableEq

/-- The bytes of the descriptor. -/
def OutgoingDescriptor.bytes (d : OutgoingDescriptor) : Bytes :=
  d.tag :: UInt8.ofNat d.payload.length :: d.payload

/-! ## One descriptor -/

/-- The languages in a payload, by their places: each of them has four bytes. -/
def Language.inPlaces (payload : Bytes) : List Language :=
  (List.range (payload.length / 4)).map fun i =>
    ⟨latin1 ((payload.drop (4 * i)).take 3), .ofByte (payload.getD (4 * i + 3) 0)⟩

theorem Language.listOfPayload_eq (payload : Bytes) : listOfPayload payload = inPlaces payload := by
  fun_induction listOfPayload payload with
  | case1 a b c kind rest ih =>
    have hcount : (a :: b :: c :: kind :: rest).length / 4 = rest.length / 4 + 1 :=
      Nat.add_div_right rest.length (show 0 < 4 by decide)
    rw [inPlaces, hcount, List.range_succ_eq_map, List.map_cons, List.map_map, ih, inPlaces]
    rfl
  | case2 payload hshort =>
    have hlength : payload.length < 4 := by
      rcases payload with _ | ⟨a, _ | ⟨b, _ | ⟨c, _ | ⟨kind, rest⟩⟩⟩⟩
      · decide
      · simp
      · simp
      · simp
      · exact absurd rfl (hshort a b c kind rest)
    rw [inPlaces, Nat.div_eq_of_lt hlength]
    rfl

/-- What a descriptor with a tag and a payload is read as. -/
inductive Descriptor.IsRead (tag : UInt8) (payload : Bytes) :
    Except DescriptorError Descriptor → Prop
  | registration (h : tag = 5) (r : Registration) (hdata : r.data = payload) :
    IsRead tag payload (.ok (.registration r))
  | shortRegistration (h : tag = 5) (hshort : payload.length < 4) :
    IsRead tag payload (.error (.notEnoughData 5 payload.length 4))
  | languages (h : tag = 10) :
    IsRead tag payload (.ok (.iso639Language (Language.inPlaces payload)))
  | unknown (hregistration : tag ≠ 5) (hlanguages : tag ≠ 10) :
    IsRead tag payload (.ok (.unknown tag payload))

/-- True of what is wrong with the division of a loop into descriptors, other than with one of
them. -/
def DescriptorError.isFraming : DescriptorError → Bool
  | notEnoughData .. => false
  | bufferTooShort _ | tagTooLongForBuffer .. => true

namespace Descriptor

theorem isRead_ofPayload (tag : UInt8) (payload : Bytes) :
    IsRead tag payload (ofPayload tag payload) := by
  unfold ofPayload
  split
  · next htag =>
    unfold Registration.ofPayload
    split
    · next hlength => exact .registration htag ⟨payload, hlength⟩ rfl
    · next hlength => exact .shortRegistration htag (Nat.not_le.mp hlength)
  · next hregistration =>
    split
    · next htag =>
      rw [Language.listOfPayload_eq]
      exact .languages htag
    · next hlanguages => exact .unknown hregistration hlanguages

/-- What is wrong with one descriptor is not what ends a loop. -/
theorem IsRead.isFraming_eq {tag : UInt8} {payload : Bytes} {e : DescriptorError}
    (h : IsRead tag payload (.error e)) : e.isFraming = false := by
  cases h
  rfl

/-- Nothing is lost: what is taken off could have been written. -/
theorem exists_of_readFramed {bytes : Bytes} {framed : UInt8 × Bytes}
    {rest : { rest : Bytes // rest.length < bytes.length }}
    (h : readFramed bytes = some (framed, rest)) :
    ∃ d : OutgoingDescriptor, (d.tag, d.payload) = framed ∧ bytes = d.bytes ++ rest.1 := by
  unfold readFramed at h
  split at h
  · next tag length tail =>
    split at h
    · cases h
    · next payload after hsplit =>
      cases h
      obtain ⟨rfl, hlength⟩ := splitFront?_eq_some_iff.mp hsplit
      refine ⟨⟨tag, payload, hlength ▸ length.toNat_lt⟩, rfl, ?_⟩
      simp only [OutgoingDescriptor.bytes, hlength, UInt8.ofNat_toNat, List.cons_append]
  · cases h

/-- Where nothing is taken off there is nothing, a single byte, or a length that leads past the
end. -/
theorem of_readFramed_eq_none {bytes : Bytes} (h : readFramed bytes = none) :
    bytes = [] ∨ (∃ b, bytes = [b]) ∨
      ∃ tag length tail, bytes = tag :: length :: tail ∧ tail.length < length.toNat := by
  match bytes with
  | [] => exact .inl rfl
  | [b] => exact .inr (.inl ⟨b, rfl⟩)
  | tag :: length :: tail =>
    refine .inr (.inr ⟨tag, length, tail, rfl, Nat.not_le.mp fun hle => ?_⟩)
    obtain ⟨hlt, hread⟩ := @readFramed_of_le tag length tail hle
    rw [h] at hread
    cases hread

end Descriptor

namespace OutgoingDescriptor

theorem readFramed_bytes_append (d : OutgoingDescriptor) (rest : Bytes) :
    ∃ hlt, Descriptor.readFramed (d.bytes ++ rest) = some ((d.tag, d.payload), ⟨rest, hlt⟩) := by
  have hlength : (UInt8.ofNat d.payload.length).toNat = d.payload.length :=
    UInt8.toNat_ofNat_of_lt' d.length_payload_lt
  have hle : (UInt8.ofNat d.payload.length).toNat ≤ (d.payload ++ rest).length := by
    rw [hlength, List.length_append]
    exact Nat.le_add_right _ _
  obtain ⟨hlt, hread⟩ := @Descriptor.readFramed_of_le d.tag _ _ hle
  simp only [hlength, List.take_left, List.drop_left] at hread hlt
  exact ⟨hlt, hread⟩

/-- The bytes of a descriptor are read by what its tag says about its payload, whatever follows
them. -/
theorem ofBytes_bytes_append (d : OutgoingDescriptor) (rest : Bytes) :
    Descriptor.ofBytes (d.bytes ++ rest) = Descriptor.ofPayload d.tag d.payload := by
  obtain ⟨hlt, hread⟩ := d.readFramed_bytes_append rest
  rw [Descriptor.ofBytes, hread]

theorem ofBytes_bytes (d : OutgoingDescriptor) :
    Descriptor.ofBytes d.bytes = Descriptor.ofPayload d.tag d.payload := by
  have hread := d.ofBytes_bytes_append []
  rwa [List.append_nil] at hread

theorem isRead_ofBytes (d : OutgoingDescriptor) :
    Descriptor.IsRead d.tag d.payload (Descriptor.ofBytes d.bytes) := by
  rw [d.ofBytes_bytes]
  exact Descriptor.isRead_ofPayload d.tag d.payload

theorem two_le_length_bytes (d : OutgoingDescriptor) : 2 ≤ d.bytes.length :=
  Nat.le_add_left 2 d.payload.length

/-- As many descriptors have at least twice as many bytes. -/
theorem length_le_length_flatMap_bytes (ds : List OutgoingDescriptor) :
    2 * ds.length ≤ (ds.flatMap bytes).length := by
  induction ds with
  | nil => exact Nat.le_refl 0
  | cons d ds ih =>
    have := d.two_le_length_bytes
    rw [List.flatMap_cons, List.length_append, List.length_cons]
    omega

end OutgoingDescriptor

/-! ## Loops -/

namespace Descriptor

/-- What a loop ends with, given what is left of it. -/
def ending (rest : Bytes) : List (Except DescriptorError Descriptor) :=
  if rest.isEmpty then [] else [.error (framingError rest)]

/-- **The division of a loop.**  It consists of whole descriptors and of a remainder that begins
none, and is read descriptor by descriptor. -/
theorem exists_list_eq (bytes : Bytes) :
    ∃ (framed : List OutgoingDescriptor) (rest : Bytes),
      bytes = framed.flatMap OutgoingDescriptor.bytes ++ rest ∧ readFramed rest = none ∧
        list bytes = framed.map (fun d => ofBytes d.bytes) ++ ending rest := by
  obtain ⟨framed, hbytes, hitems⟩ := exists_readItems exists_of_readFramed bytes
  refine ⟨framed, _, hbytes, read_remainder readFramed bytes, ?_⟩
  simp only [list, hitems, List.map_map, OutgoingDescriptor.ofBytes_bytes]
  rfl

/-- Descriptors that were written are read, with nothing left. -/
theorem list_flatMap_bytes (ds : List OutgoingDescriptor) :
    list (ds.flatMap OutgoingDescriptor.bytes) = ds.map fun d => ofBytes d.bytes := by
  have hitems := readItems_flatMap_append OutgoingDescriptor.readFramed_bytes_append ds []
  have hnone : readFramed [] = none := rfl
  rw [readItems_of_none hnone, List.append_nil, List.append_nil] at hitems
  simp only [list, hitems, List.map_map, OutgoingDescriptor.ofBytes_bytes, List.isEmpty_nil,
    if_true, List.append_nil]
  rfl

/-- A loop begins with what its bytes are read as alone. -/
theorem head?_list (bytes : Bytes) :
    (list bytes).head? = if bytes = [] then none else some (ofBytes bytes) := by
  obtain ⟨framed, rest, rfl, hrest, hlist⟩ := exists_list_eq bytes
  rw [hlist]
  cases framed with
  | nil =>
    have hown : ofBytes rest = .error (framingError rest) := by
      rw [ofBytes, hrest]
    rw [List.flatMap_nil, List.nil_append, hown, ending]
    cases rest with
    | nil => rfl
    | cons b rest => rfl
  | cons d framed =>
    rw [List.flatMap_cons, List.append_assoc, d.ofBytes_bytes_append, ← d.ofBytes_bytes]
    rfl

/-- A loop has at most one item for every two bytes, and one for a remainder. -/
theorem length_list_le (bytes : Bytes) : (list bytes).length ≤ bytes.length / 2 + 1 := by
  obtain ⟨framed, rest, rfl, -, hlist⟩ := exists_list_eq bytes
  have hframed := OutgoingDescriptor.length_le_length_flatMap_bytes framed
  have hending : (ending rest).length ≤ 1 := by
    unfold ending
    split <;> simp
  rw [hlist, List.length_append, List.length_append, List.length_map]
  omega

/-- **Loops of descriptors.**  A loop is divided into whole descriptors and a remainder, and has an
item for each of the descriptors: what its bytes are read as alone.  If nothing is left, that is
all; else one more item says what is wrong with the remainder, a single byte or a length that leads
past the end.  An item for a descriptor is never an error of that kind, and descriptors that were
written are read in order, each by its tag and its payload. -/
theorem list_partitions :
    (∀ bytes, (list bytes).length ≤ bytes.length / 2 + 1 ∧
        (list bytes).head? = (if bytes = [] then none else some (ofBytes bytes)) ∧
        ∃ (framed : List OutgoingDescriptor) (rest : Bytes),
          bytes = framed.flatMap OutgoingDescriptor.bytes ++ rest ∧
          ((rest = [] ∧ list bytes = framed.map fun d => ofBytes d.bytes) ∨
            (∃ b, rest = [b] ∧
              list bytes = framed.map (fun d => ofBytes d.bytes) ++ [.error (.bufferTooShort 1)]) ∨
            ∃ tag length tail, rest = tag :: length :: tail ∧ tail.length < length.toNat ∧
              list bytes = framed.map (fun d => ofBytes d.bytes) ++
                [.error (.tagTooLongForBuffer length.toNat rest.length)])) ∧
      (∀ d : OutgoingDescriptor, IsRead d.tag d.payload (ofBytes d.bytes) ∧
        ∀ e, ofBytes d.bytes = .error e → e.isFraming = false) ∧
      ∀ ds : List OutgoingDescriptor,
        list (ds.flatMap OutgoingDescriptor.bytes) = ds.map fun d => ofBytes d.bytes := by
  refine ⟨fun bytes => ⟨length_list_le bytes, head?_list bytes, ?_⟩,
    fun d => ⟨d.isRead_ofBytes, fun e herror => ?_⟩, list_flatMap_bytes⟩
  · obtain ⟨framed, rest, hbytes, hrest, hlist⟩ := exists_list_eq bytes
    refine ⟨framed, rest, hbytes, ?_⟩
    rcases of_readFramed_eq_none hrest with rfl | ⟨b, rfl⟩ | ⟨tag, length, tail, rfl, hlong⟩
    · exact .inl ⟨rfl, hlist.trans (List.append_nil _)⟩
    · exact .inr (.inl ⟨b, rfl, hlist⟩)
    · exact .inr (.inr ⟨tag, length, tail, rfl, hlong, hlist⟩)
  · have hread := d.isRead_ofBytes
    rw [herror] at hread
    exact hread.isFraming_eq

/-- A registration descriptor with too short a payload does not end a loop. -/
theorem list_partitions_short_registration :
    ofBytes [5, 2, 67, 85] = .error (.notEnoughData 5 2 4) ∧
      (DescriptorError.notEnoughData 5 2 4).isFraming = false ∧
      list [5, 2, 67, 85, 82, 1, 7] =
        [.error (.notEnoughData 5 2 4), .ok (.unknown 82 [7])] := by
  obtain ⟨-, hread, hlist⟩ := list_partitions
  have hshort : ofBytes [5, 2, 67, 85] = .error (.notEnoughData 5 2 4) := by rfl
  exact ⟨hshort, (hread ⟨5, [67, 85], by decide⟩).2 _ hshort,
    hlist [⟨5, [67, 85], by decide⟩, ⟨82, [7], by decide⟩]⟩

end Descriptor

end TransportStream
