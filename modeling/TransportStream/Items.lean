import TransportStream.Bytes

/-!
# Runs of items

Association entries, descriptors, stream entries and sections come in the same way: one item after
the other, each of which tells where it ends, up to a remainder that starts no item.  An
`ItemReader` takes one item off the front, and `readItems` takes all of them.

* `readItems_of_some`, `readItems_of_none`: a run is an item and the run after it, or it is over.
* `read_remainder`: what is left of a run starts no item, so a run is as long as it can be.
* `readItems_flatMap_append`, `exists_readItems`: where items are written one way, a run of them is
  read as it was written, and every run could have been written.

## Why the items found are an argument

Runs can be very long.  `collectItems` therefore does not wait for the items after the one at
hand, but keeps those it has found, the last one in front.  `collectItems_eq` says once what this
comes to; with the three statements above nothing else has to be known about it.
-/

namespace TransportStream

variable {α : Type}

/-- Takes an item off the front of a byte string, which leaves fewer bytes, if one is there. -/
abbrev ItemReader (α : Type) : Type :=
  (bytes : Bytes) → Option (α × { rest : Bytes // rest.length < bytes.length })

/-- Takes items off the front as long as there are some, and adds them to those found before, of
which the last one is in front. -/
def collectItems (read : ItemReader α) (found : List α) (bytes : Bytes) : List α × Bytes :=
  match read bytes with
  | none => (found.reverse, bytes)
  | some (item, rest) => collectItems read (item :: found) rest.1
termination_by bytes.length
decreasing_by exact rest.2

/-- The items at the front of a byte string, in order, and the remainder after them. -/
def readItems (read : ItemReader α) (bytes : Bytes) : List α × Bytes :=
  collectItems read [] bytes

/-- The items found before stand in front of the others. -/
theorem collectItems_eq (read : ItemReader α) (found : List α) (bytes : Bytes) :
    collectItems read found bytes =
      (found.reverse ++ (readItems read bytes).1, (readItems read bytes).2) := by
  match h : read bytes with
  | none =>
    simp only [readItems, collectItems, h, List.reverse_nil, List.append_nil]
  | some (item, rest) =>
    have hall : collectItems read found bytes = collectItems read (item :: found) rest.1 := by
      rw [collectItems, h]
    have hown : readItems read bytes = collectItems read [item] rest.1 := by
      rw [readItems, collectItems, h]
    rw [hall, hown, collectItems_eq read (item :: found) rest.1,
      collectItems_eq read [item] rest.1]
    simp
termination_by bytes.length
decreasing_by all_goals exact rest.2

/-- Where no item is, a run is over. -/
theorem readItems_of_none {read : ItemReader α} {bytes : Bytes} (h : read bytes = none) :
    readItems read bytes = ([], bytes) := by
  rw [readItems, collectItems, h]
  rfl

/-- Where an item is, a run is that item and the run after it. -/
theorem readItems_of_some {read : ItemReader α} {bytes : Bytes} {item : α}
    {rest : { rest : Bytes // rest.length < bytes.length }} (h : read bytes = some (item, rest)) :
    readItems read bytes =
      (item :: (readItems read rest.1).1, (readItems read rest.1).2) := by
  rw [readItems, collectItems, h]
  dsimp only
  rw [collectItems_eq]
  rfl

/-- The remainder of a run starts no item. -/
theorem read_remainder (read : ItemReader α) (bytes : Bytes) :
    read (readItems read bytes).2 = none := by
  match h : read bytes with
  | none => rw [readItems_of_none h, h]
  | some (item, rest) =>
    rw [readItems_of_some h]
    exact read_remainder read rest.1
termination_by bytes.length
decreasing_by exact rest.2

/-! ## Items that are written -/

section

variable {β : Type} {read : ItemReader α} {write : β → Bytes} {value : β → α}

/-- Items that are read as they were written are read one after the other, whatever follows them. -/
theorem readItems_flatMap_append
    (h : ∀ e rest, ∃ hlt, read (write e ++ rest) = some (value e, ⟨rest, hlt⟩))
    (es : List β) (rest : Bytes) :
    readItems read (es.flatMap write ++ rest) =
      (es.map value ++ (readItems read rest).1, (readItems read rest).2) := by
  induction es with
  | nil => rfl
  | cons e es ih =>
    obtain ⟨hlt, hread⟩ := h e (es.flatMap write ++ rest)
    rw [List.flatMap_cons, List.append_assoc, readItems_of_some hread]
    dsimp only
    rw [ih]
    rfl

/-- If every item that is read could have been written, so could every run, without gaps. -/
theorem exists_readItems
    (h : ∀ {bytes item rest}, read bytes = some (item, rest) →
      ∃ e, value e = item ∧ bytes = write e ++ rest.1) (bytes : Bytes) :
    ∃ es : List β, bytes = es.flatMap write ++ (readItems read bytes).2 ∧
      (readItems read bytes).1 = es.map value := by
  match hread : read bytes with
  | none =>
    rw [readItems_of_none hread]
    exact ⟨[], rfl, rfl⟩
  | some (item, rest) =>
    obtain ⟨e, rfl, he⟩ := h hread
    obtain ⟨es, hbytes, hitems⟩ := exists_readItems h rest.1
    rw [readItems_of_some hread]
    refine ⟨e :: es, ?_, ?_⟩
    · rw [List.flatMap_cons, List.append_assoc, ← hbytes]
      exact he
    · rw [hitems, List.map_cons]
termination_by bytes.length
decreasing_by exact rest.2

end

end TransportStream
