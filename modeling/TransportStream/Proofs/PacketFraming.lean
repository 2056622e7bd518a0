import TransportStream.Proofs.AlignedReading

/-!
# Where the packets of a stream are

The reader works on a window of two packet lengths that it fills, drops from and searches again and
again.  None of that is to be seen from outside: a request for a packet depends on the whole data
and on one position in it, and its answer can be written down without a window.  That is done here,
and the reader is proved to give these answers, however the source cuts the data up.

## The answer at a position

A packet that starts at the position is delivered.  If none does, the answer is the first place from
there on where two synchronisation bytes stand one packet length apart; without such a place, a
last packet that fills the data exactly; and without that, an error that gives up the rest of the
data.  The search moves on by whole packet lengths as long as two of them fit, so what is given up
starts where fewer than two are left (`lost_lt`, `lost_le`).

* `Framing.answerAt`: the answer, and the position after it.
* `PacketReader.Stands`: the reader stands at a position of the data; what is in the window already
  and what is still in the source makes no difference.
* `PacketReader.resync_of_stands`, `PacketReader.nextAt_of_stands`: the search, and one request.
* `PacketReader.answers_framed`: any number of requests.
-/

namespace TransportStream

/-- The answer to a request for a packet. -/
inductive Answer where
  /-- A packet, and where it was found. -/
  | packet (found : PacketReader.Found)
  /-- The data is at its end. -/
  | endOfData
  /-- There is no packet. -/
  | error (e : SyncError)
  deriving DecidableEq

/-- True of the answers that give a packet. -/
def Answer.isPacket : Answer → Bool
  | packet _ => true
  | _ => false

namespace PacketReader

/-- Asks for the next packet and its offset. -/
def nextAt (r : PacketReader) : PacketReader × Answer :=
  match r.next with
  | (r', .packet notices bytes) => (r', .packet { offset := r'.offset, notices, bytes })
  | (r', .endOfData) => (r', .endOfData)
  | (r', .error e) => (r', .error e)

/-- The answers to as many requests, one after the other. -/
def answers (r : PacketReader) : Nat → List Answer
  | 0 => []
  | count + 1 => r.nextAt.2 :: r.nextAt.1.answers count

end PacketReader

namespace Framing

open PacketReader

/-- The first offset from a position on at which two synchronisation bytes stand one packet length
apart. -/
def aligned? (data : Bytes) (p : Nat) : Option Nat :=
  (List.range' p (data.length - p)).find? (isAlignedAt data)

/-- The offset at which packets are found again by a search from a position: the first alignment,
or the last packet of the data. -/
def recovered? (data : Bytes) (p : Nat) : Option Nat :=
  (aligned? data p).or
    (if isSyncAt data (data.length - Packet.size) then some (data.length - Packet.size) else none)

/-- The offset at which a search from a position gives up, in data of the given length. -/
def lost (length p : Nat) : Nat :=
  p + Packet.size * ((length - p) / Packet.size - 1)

/-- The packet at an offset, delivered to a request at a position. -/
def found (data : Bytes) (p offset : Nat) : Found where
  offset := offset
  notices := if offset = p then [] else [.resynchronised offset (offset - p)]
  bytes := (data.drop offset).take Packet.size

/-- The answer to a request at a position of the data, and the position after it. -/
def answerAt (data : Bytes) (p : Nat) : Answer × Nat :=
  if data.length ≤ p then (.endOfData, p)
  else if data.length < p + Packet.size then
    (.error (.syncLost p (data.drop p)), data.length)
  else if isSyncAt data p then (.packet (found data p p), p + Packet.size)
  else
    match recovered? data p with
    | some offset => (.packet (found data p offset), offset + Packet.size)
    | none =>
      (.error (.syncLost (lost data.length p) (data.drop (lost data.length p))), data.length)

/-- The answers to as many requests, from a position on. -/
def answers (data : Bytes) (p : Nat) : Nat → List Answer
  | 0 => []
  | count + 1 => (answerAt data p).1 :: answers data (answerAt data p).2 count

variable {data : Bytes} {p offset : Nat}

theorem answerAt_of_end (h : data.length ≤ p) : answerAt data p = (.endOfData, p) :=
  if_pos h

theorem answerAt_of_fragment (h : p < data.length) (hshort : data.length < p + Packet.size) :
    answerAt data p = (.error (.syncLost p (data.drop p)), data.length) := by
  rw [answerAt, if_neg (Nat.not_le.mpr h), if_pos hshort]

theorem answerAt_of_sync (h : p + Packet.size ≤ data.length) (hsync : isSyncAt data p = true) :
    answerAt data p = (.packet (found data p p), p + Packet.size) := by
  have hlt := lt_length_of_isSyncAt hsync
  rw [answerAt, if_neg (Nat.not_le.mpr hlt), if_neg (Nat.not_lt.mpr h), if_pos hsync]

theorem answerAt_of_not_sync (h : p + Packet.size ≤ data.length)
    (hsync : ¬ isSyncAt data p = true) :
    answerAt data p =
      match recovered? data p with
      | some offset => (.packet (found data p offset), offset + Packet.size)
      | none =>
        (.error (.syncLost (lost data.length p) (data.drop (lost data.length p))),
          data.length) := by
  have hlt : p < data.length := Nat.lt_of_lt_of_le (Nat.lt_add_of_pos_right (by decide)) h
  rw [answerAt, if_neg (Nat.not_le.mpr hlt), if_neg (Nat.not_lt.mpr h), if_neg hsync]

/-! ## The search, by positions -/

theorem aligned?_eq_some_iff :
    aligned? data p = some offset ↔
      p ≤ offset ∧ isAlignedAt data offset = true ∧
        ∀ i, p ≤ i → i < offset → isAlignedAt data i = false := by
  rw [aligned?, List.find?_range'_eq_some]
  simp only [Bool.not_eq_true']
  constructor
  · rintro ⟨haligned, hmem, hbefore⟩
    exact ⟨(List.mem_range'_1.mp hmem).1, haligned, hbefore⟩
  · rintro ⟨hle, haligned, hbefore⟩
    have hlt := lt_length_of_isSyncAt (Bool.and_eq_true_iff.mp haligned).1
    exact ⟨haligned, List.mem_range'_1.mpr ⟨hle, by omega⟩, hbefore⟩

theorem aligned?_eq_none_iff :
    aligned? data p = none ↔ ∀ i, p ≤ i → isAlignedAt data i = false := by
  rw [aligned?, List.find?_range'_eq_none]
  simp only [Bool.not_eq_true']
  constructor
  · intro h i hi
    by_cases hlt : i < data.length
    · exact h i hi (by omega)
    · have hnone : data[i]? = none := List.getElem?_eq_none (by omega)
      rw [isAlignedAt, isSyncAt, hnone]
      rfl
  · intro h i hi _
    exact h i hi

/-- Offsets at which there is no alignment can be passed over. -/
theorem aligned?_eq_of_le {q : Nat} (hle : p ≤ q)
    (h : ∀ i, p ≤ i → i < q → isAlignedAt data i = false) : aligned? data p = aligned? data q := by
  cases hq : aligned? data q with
  | some offset =>
    obtain ⟨hqo, haligned, hbefore⟩ := aligned?_eq_some_iff.mp hq
    refine aligned?_eq_some_iff.mpr ⟨by omega, haligned, fun i hi hlt => ?_⟩
    by_cases hiq : i < q
    · exact h i hi hiq
    · exact hbefore i (by omega) hlt
  | none =>
    refine aligned?_eq_none_iff.mpr fun i hi => ?_
    by_cases hiq : i < q
    · exact h i hi hiq
    · exact aligned?_eq_none_iff.mp hq i (by omega)

theorem recovered?_eq_of_le {q : Nat} (hle : p ≤ q)
    (h : ∀ i, p ≤ i → i < q → isAlignedAt data i = false) :
    recovered? data p = recovered? data q := by
  rw [recovered?, aligned?_eq_of_le hle h, recovered?]

/-- Where packets are found again, one starts and ends within the data. -/
theorem bounds_of_recovered? (hp : p + Packet.size ≤ data.length)
    (h : recovered? data p = some offset) :
    p ≤ offset ∧ offset + Packet.size ≤ data.length ∧ isSyncAt data offset = true := by
  rw [recovered?, Option.or_eq_some_iff] at h
  rcases h with haligned | ⟨-, hlast⟩
  · obtain ⟨hle, haligned, -⟩ := aligned?_eq_some_iff.mp haligned
    obtain ⟨hfirst, hsecond⟩ := Bool.and_eq_true_iff.mp haligned
    exact ⟨hle, Nat.le_of_lt (lt_length_of_isSyncAt hsecond), hfirst⟩
  · split at hlast
    · next hsync =>
      obtain rfl := Option.some.inj hlast
      exact ⟨by omega, by omega, hsync⟩
    · cases hlast

/-! ## Where a search gives up -/

/-- Fewer than two packet lengths are left there. -/
theorem lost_lt (length p : Nat) : length < lost length p + windowSize := by
  simp only [lost, windowSize, Packet.size]
  omega

/-- It is the first such offset, in steps of a packet length. -/
theorem lost_le {length p k : Nat} (h : length < p + Packet.size * k + windowSize) :
    lost length p ≤ p + Packet.size * k := by
  simp only [lost, windowSize, Packet.size] at *
  omega

/-- A search that can move on gives up where it would have given up from there. -/
theorem lost_add_size {length p : Nat} (h : p + windowSize ≤ length) :
    lost length (p + Packet.size) = lost length p := by
  simp only [lost, windowSize, Packet.size] at *
  omega

theorem lost_of_lt {length p : Nat} (h : length < p + windowSize) : lost length p = p := by
  simp only [lost, windowSize, Packet.size] at *
  omega

/-! ## Packets -/

/-- A packet that is found consists of the bytes at its offset, and starts as packets do. -/
theorem bytes_of_packet_answerAt {f : Found} (h : (answerAt data p).1 = .packet f) :
    f.bytes = (data.drop f.offset).take Packet.size ∧ f.bytes.length = Packet.size ∧
      f.bytes[0]? = some Packet.syncByte := by
  have hfound {offset : Nat} (hlength : offset + Packet.size ≤ data.length)
      (hsync : isSyncAt data offset = true) :
      (found data p offset).bytes.length = Packet.size ∧
        (found data p offset).bytes[0]? = some Packet.syncByte := by
    have hpos : 0 < Packet.size := by decide
    constructor
    · rw [found, List.length_take, List.length_drop]
      omega
    · rw [found, List.getElem?_take_of_lt hpos, List.getElem?_drop, Nat.add_zero]
      exact beq_iff_eq.mp hsync
  unfold answerAt at h
  split at h
  · cases h
  · split at h
    · cases h
    · next hsize =>
      split at h
      · next hsync =>
        cases h
        exact ⟨rfl, hfound (by omega) hsync⟩
      · split at h
        · next offset hoffset =>
          cases h
          obtain ⟨-, hlength, hsync⟩ := bounds_of_recovered? (by omega) hoffset
          exact ⟨rfl, hfound hlength hsync⟩
        · cases h

/-- A packet starts at the position of the request or behind it, and the next request looks behind
the packet. -/
theorem offset_of_packet_answerAt {f : Found} (h : (answerAt data p).1 = .packet f) :
    p ≤ f.offset ∧ (answerAt data p).2 = f.offset + Packet.size := by
  revert h
  unfold answerAt
  split
  · intro h
    cases h
  · split
    · intro h
      cases h
    · split
      · intro h
        cases h
        exact ⟨Nat.le_refl p, rfl⟩
      · split
        · next offset hoffset =>
          intro h
          cases h
          exact ⟨(bounds_of_recovered? (by omega) hoffset).1, rfl⟩
        · intro h
          cases h

/-- Without a packet, the next request finds the data at its end. -/
theorem length_le_of_answerAt (h : (answerAt data p).1.isPacket = false) :
    data.length ≤ (answerAt data p).2 := by
  revert h
  unfold answerAt
  split
  · intro _
    assumption
  · split
    · intro _
      exact Nat.le_refl _
    · split
      · intro h
        cases h
      · split
        · intro h
          cases h
        · intro _
          exact Nat.le_refl _

theorem answers_of_length_le (h : data.length ≤ p) (count : Nat) :
    ∀ a ∈ answers data p count, a = .endOfData := by
  induction count with
  | zero => simp [answers]
  | succ count ih =>
    have hend : answerAt data p = (.endOfData, p) := by rw [answerAt, if_pos h]
    rw [answers, hend]
    exact List.forall_mem_cons.mpr ⟨rfl, ih⟩

/-- All packets start at the position of the first request or behind it. -/
theorem le_offset_of_mem_answers {count : Nat} {f : Found}
    (h : .packet f ∈ answers data p count) : p ≤ f.offset := by
  induction count generalizing p with
  | zero => cases h
  | succ count ih =>
    rw [answers] at h
    cases hfirst : (answerAt data p).1 with
    | packet first =>
      obtain ⟨hle, hnext⟩ := offset_of_packet_answerAt hfirst
      rw [hfirst, hnext] at h
      rcases List.mem_cons.mp h with heq | hmem
      · cases heq
        exact hle
      · have := ih hmem
        omega
    | endOfData | error e =>
      have hlength := length_le_of_answerAt (by rw [hfirst]; rfl)
      rw [hfirst] at h
      rcases List.mem_cons.mp h with heq | hmem
      · cases heq
      · cases answers_of_length_le hlength count _ hmem

/-- The packets that are delivered are parts of the data that start as packets do. -/
theorem bytes_of_mem_answers {count : Nat} {f : Found} (h : .packet f ∈ answers data p count) :
    f.bytes = (data.drop f.offset).take Packet.size ∧ f.bytes.length = Packet.size ∧
      f.bytes[0]? = some Packet.syncByte := by
  induction count generalizing p with
  | zero => cases h
  | succ count ih =>
    rcases List.mem_cons.mp h with heq | hmem
    · exact bytes_of_packet_answerAt heq.symm
    · exact ih hmem

/-- After an answer without a packet the data is at its end, and a packet lies in front of all
later ones. -/
theorem pairwise_answers (data : Bytes) (p count : Nat) :
    (answers data p count).Pairwise fun a b =>
      match a with
      | .packet f => ∀ g, b = .packet g → f.offset + Packet.size ≤ g.offset
      | _ => b = .endOfData := by
  induction count generalizing p with
  | zero => exact .nil
  | succ count ih =>
    refine List.pairwise_cons.mpr ⟨fun b hb => ?_, ih _⟩
    cases hfirst : (answerAt data p).1 with
    | packet f =>
      rintro g rfl
      have hle := le_offset_of_mem_answers hb
      rwa [(offset_of_packet_answerAt hfirst).2] at hle
    | endOfData | error e =>
      exact answers_of_length_le (length_le_of_answerAt (by rw [hfirst]; rfl)) count b hb

end Framing

namespace PacketReader

open Framing

variable {data : Bytes} {p : Nat} {r : PacketReader}

/-! ## The reader -/

/-- The reader stands at a position of the data: what is in the window and what is still in the
source are the bytes from there on. -/
structure Stands (data : Bytes) (p : Nat) (r : PacketReader) : Prop where
  /-- The source is not disturbed. -/
  calm : r.IsCalm
  /-- Once the source has no more bytes, the window was not full. -/
  short : r.exhausted = true → r.window.length < windowSize
  /-- The bytes from the position on. -/
  bytes : r.window ++ r.source.data = data.drop p
  /-- The offset of the window is the position. -/
  offset : r.offset = p
  /-- The window does not start with a packet that was delivered before. -/
  free : r.held = false

/-- Bytes of the window are bytes of the data. -/
theorem Stands.isSyncAt (h : r.Stands data p) {i : Nat}
    (hi : i < r.window.length ∨ r.source.data = []) :
    isSyncAt r.window i = isSyncAt data (p + i) := by
  have hwindow : r.window[i]? = (data.drop p)[i]? := by
    rw [← h.bytes]
    rcases hi with hlt | hnil
    · rw [List.getElem?_append_left hlt]
    · rw [hnil, List.append_nil]
  rw [PacketReader.isSyncAt, hwindow, List.getElem?_drop, PacketReader.isSyncAt]

theorem Stands.length (h : r.Stands data p) :
    r.window.length + r.source.data.length = data.length - p := by
  rw [← List.length_append, h.bytes, List.length_drop]

theorem Stands.length_of_exhausted (h : r.Stands data p) (hx : r.exhausted = true) :
    r.window.length = data.length - p := by
  rw [← h.length, h.calm.data_eq_nil hx, List.length_nil, Nat.add_zero]

/-- Dropping bytes of the window moves the position on. -/
theorem Stands.discard (h : r.Stands data p) {count : Nat} (hcount : count ≤ r.window.length) :
    (r.discard count).Stands data (p + count) := by
  refine ⟨⟨h.calm.steps, h.calm.data_eq_nil⟩, fun hx => ?_, ?_, ?_, h.free⟩
  · have := h.short hx
    simp only [PacketReader.discard, List.length_drop]
    omega
  · rw [← List.drop_drop, ← h.bytes, List.drop_append_of_le_length hcount]
    rfl
  · rw [← h.offset]
    rfl

/-- A source whose end shows gives fewer bytes than the window has room for. -/
theorem short_fill (hshort : r.exhausted = true → r.window.length < windowSize) {target : Nat}
    (htarget : target ≤ windowSize) :
    (r.fill target).1.exhausted = true → (r.fill target).1.window.length < windowSize := by
  fun_induction fill r target with
  | case1 => exact hshort
  | case2 r hmore source hread =>
    intro _
    show r.window.length < windowSize
    omega
  | case3 r hmore b portion source hread ih =>
    exact ih fun hx => absurd (.inl hx) hmore
  | case4 r hmore source hread ih => exact ih fun hx => absurd (.inl hx) hmore
  | case5 => exact hshort

/-- Filling the window does not move the position.  It reaches its target, or the end of the
data. -/
theorem Stands.of_fill (h : r.Stands data p) {target : Nat} (htarget : target ≤ windowSize)
    {r' : PacketReader} {e : Option SyncError} (hf : r.fill target = (r', e)) :
    e = none ∧ r'.Stands data p ∧ (r'.exhausted = true ∨ target ≤ r'.window.length) := by
  obtain ⟨hok, hcalm, hbytes, hoffset, hheld, -⟩ := fill_calm h.calm target
  have hshort := short_fill h.short htarget
  have hreach := le_length_window_fill r target
  rw [hf] at hok hcalm hbytes hoffset hheld hshort hreach
  refine ⟨hok, ⟨hcalm, hshort, hbytes.trans h.bytes, hoffset.trans h.offset, hheld.trans h.free⟩,
    ?_⟩
  cases hx : r'.exhausted with
  | true => exact .inl rfl
  | false => exact .inr (hreach hok hx)

/-- An alignment that the window shows is one in the data. -/
theorem Stands.isAlignedAt (h : r.Stands data p) {i : Nat}
    (hi : i + Packet.size < r.window.length ∨ r.source.data = []) :
    isAlignedAt r.window i = isAlignedAt data (p + i) := by
  rw [PacketReader.isAlignedAt, PacketReader.isAlignedAt,
    h.isSyncAt (hi.imp_left fun _ => by omega), h.isSyncAt hi, Nat.add_assoc]

/-- Without an alignment, there is none at any offset within the first packet length. -/
theorem isAlignedAt_of_alignment?_eq_none {window : Bytes} (h : alignment? window = none) {i : Nat}
    (hi : i < Packet.size) : PacketReader.isAlignedAt window i = false := by
  rw [alignment?, List.findIdx?_eq_none_iff] at h
  by_cases hlt : i < (facing window).length
  · rw [← areSync_facing window i hlt]
    exact h _ (List.getElem_mem hlt)
  · have hlength := length_facing window
    have hnone : window[i + Packet.size]? = none := List.getElem?_eq_none (by omega)
    rw [PacketReader.isAlignedAt, PacketReader.isSyncAt, PacketReader.isSyncAt, hnone]
    exact Bool.and_false _

/-- A window that is full, or reaches to the end of the data, shows whether there is an alignment
within the next packet length. -/
theorem Stands.not_aligned (h : r.Stands data p) (hnone : alignment? r.window = none)
    (hfull : windowSize ≤ r.window.length ∨ r.source.data = []) :
    ∀ i, p ≤ i → i < p + Packet.size → PacketReader.isAlignedAt data i = false := by
  intro i hle hlt
  obtain ⟨k, rfl⟩ := Nat.exists_eq_add_of_le hle
  have hwindow : windowSize = Packet.size + Packet.size := rfl
  rw [← h.isAlignedAt (hfull.imp_left fun _ => by omega)]
  exact isAlignedAt_of_alignment?_eq_none hnone (by omega)

/-- The first alignment of the window is the first one in the data. -/
theorem Stands.aligned?_of_alignment? (h : r.Stands data p) {i : Nat}
    (hi : alignment? r.window = some i) : aligned? data p = some (p + i) := by
  obtain ⟨-, haligned, hbefore⟩ := alignment?_eq_some_iff.mp hi
  have hlength := lt_length_of_isSyncAt (Bool.and_eq_true_iff.mp haligned).2
  refine aligned?_eq_some_iff.mpr ⟨by omega, ?_, fun j hle hlt => ?_⟩
  · rw [← h.isAlignedAt (.inl hlength), haligned]
  · obtain ⟨k, rfl⟩ := Nat.exists_eq_add_of_le hle
    rw [← h.isAlignedAt (.inl (by omega))]
    exact hbefore k (by omega)

theorem Stands.recovered?_of_alignment? (h : r.Stands data p) {i : Nat}
    (hi : alignment? r.window = some i) : recovered? data p = some (p + i) := by
  rw [recovered?, h.aligned?_of_alignment? hi, Option.some_or]

/-- At the end of the data, without an alignment, a last packet is all that can be found. -/
theorem Stands.recovered?_of_exhausted (h : r.Stands data p) (hnone : alignment? r.window = none)
    (hx : r.exhausted = true) (hp : p + Packet.size ≤ data.length) :
    recovered? data p =
      if PacketReader.isSyncAt r.window (r.window.length - Packet.size) then
        some (data.length - Packet.size)
      else none := by
  have hnil := h.calm.data_eq_nil hx
  have hlength := h.length_of_exhausted hx
  -- there are no alignments behind the first packet length either, since too little is left there
  have hfirst : aligned? data p = none := by
    refine aligned?_eq_none_iff.mpr fun i hle => ?_
    by_cases hlt : i < p + Packet.size
    · exact h.not_aligned hnone (.inr hnil) i hle hlt
    · have hshort := h.short hx
      have hwindow : windowSize = Packet.size + Packet.size := rfl
      have hbeyond : data[i + Packet.size]? = none := List.getElem?_eq_none (by omega)
      rw [PacketReader.isAlignedAt, PacketReader.isSyncAt, PacketReader.isSyncAt, hbeyond]
      exact Bool.and_false _
  have hlast : p + (r.window.length - Packet.size) = data.length - Packet.size := by omega
  rw [recovered?, hfirst, Option.none_or, h.isSyncAt (.inr hnil), hlast]

/-- **The search.**  It ends where packets are found again, or gives up the rest of the data. -/
theorem resync_of_stands (h : r.Stands data p) (hp : p + Packet.size ≤ data.length)
    {r' : PacketReader} {e : Option SyncError} (hr : r.resync = (r', e)) :
    (∃ offset, recovered? data p = some offset ∧ e = none ∧ r'.Stands data offset ∧
      Packet.size ≤ r'.window.length) ∨
    (recovered? data p = none ∧
      e = some (.syncLost (lost data.length p) (data.drop (lost data.length p))) ∧
      r'.Stands data data.length) := by
  have hwindow : windowSize = Packet.size + Packet.size := rfl
  fun_induction resync r generalizing p with
  | case1 r r₁ e₁ hf => cases (h.of_fill (Nat.le_refl windowSize) hf).1
  | case2 r r₁ hf i hi =>
    obtain ⟨-, hstands, -⟩ := h.of_fill (Nat.le_refl windowSize) hf
    have hlength := lt_length_of_isSyncAt
      (Bool.and_eq_true_iff.mp (alignment?_eq_some_iff.mp hi).2.1).2
    have hlong := length_window_le_fill (r₁.discard i) windowSize
    rw [hr] at hlong
    simp only [PacketReader.discard, List.length_drop] at hlong
    obtain ⟨hok, hfound, -⟩ :=
      (hstands.discard (by omega : i ≤ r₁.window.length)).of_fill (Nat.le_refl windowSize) hr
    exact .inl ⟨p + i, hstands.recovered?_of_alignment? hi, hok, hfound, by omega⟩
  | case3 r r₁ hf hi hx ht =>
    obtain ⟨-, hstands, -⟩ := h.of_fill (Nat.le_refl windowSize) hf
    obtain ⟨hlong, hsync⟩ := ht
    have hlength := hstands.length_of_exhausted hx
    have hrecovered := hstands.recovered?_of_exhausted hi hx hp
    have hdiscarded := hstands.discard (Nat.sub_le r₁.window.length Packet.size)
    rw [if_pos hsync] at hrecovered
    obtain ⟨rfl, rfl⟩ := Prod.mk.inj hr
    refine .inl ⟨_, hrecovered, rfl, ?_, ?_⟩
    · rw [(by omega : data.length - Packet.size = p + (r₁.window.length - Packet.size))]
      exact hdiscarded
    · simp only [PacketReader.discard, List.length_drop]
      omega
  | case4 r r₁ hf hi hx ht r₂ e₂ hg =>
    obtain ⟨-, hstands, -⟩ := h.of_fill (Nat.le_refl windowSize) hf
    have hlength := hstands.length_of_exhausted hx
    have hrecovered := hstands.recovered?_of_exhausted hi hx hp
    have hsync : ¬ PacketReader.isSyncAt r₁.window (r₁.window.length - Packet.size) = true :=
      fun hsync => ht ⟨by omega, hsync⟩
    have hshort := hstands.short hx
    have hbytes := hstands.bytes
    rw [hstands.calm.data_eq_nil hx, List.append_nil] at hbytes
    rw [if_neg hsync] at hrecovered
    obtain ⟨rfl, rfl⟩ := Prod.mk.inj hg
    obtain ⟨rfl, rfl⟩ := Prod.mk.inj hr
    refine .inr ⟨hrecovered, ?_, ?_⟩
    · rw [lost_of_lt (by omega), ← hbytes, hstands.offset]
    · rw [(by omega : data.length = p + r₁.window.length)]
      exact hstands.discard (Nat.le_refl _)
  | case5 r r₁ hf hi hx ih =>
    obtain ⟨-, hstands, hreach⟩ := h.of_fill (Nat.le_refl windowSize) hf
    have hlong := hreach.resolve_left hx
    have hlength := hstands.length
    have hpassed : recovered? data p = recovered? data (p + Packet.size) :=
      recovered?_eq_of_le (Nat.le_add_right p _) (hstands.not_aligned hi (.inl hlong))
    have hlost : lost data.length (p + Packet.size) = lost data.length p :=
      lost_add_size (by omega)
    have hnext :=
      ih (hstands.discard (by omega : Packet.size ≤ r₁.window.length)) (by omega) hr
    rw [hpassed, ← hlost]
    exact hnext

/-! ## Requests -/

/-- A packet at the front of the window is delivered, and the reader stands behind it. -/
theorem Stands.deliver (h : r.Stands data p) (hlong : Packet.size ≤ r.window.length) :
    r.window.take Packet.size = (data.drop p).take Packet.size ∧
      ({ r with held := true } : PacketReader).release.Stands data (p + Packet.size) := by
  constructor
  · rw [← h.bytes, List.take_append_of_le_length hlong]
  · obtain ⟨hcalm, hshort, hbytes, hoffset, -⟩ := h.discard hlong
    exact ⟨⟨hcalm.steps, hcalm.data_eq_nil⟩, hshort, hbytes, hoffset, rfl⟩

theorem Stands.release (h : r.Stands data p) : r.release.Stands data p := by
  rwa [PacketReader.release, h.free, if_neg Bool.false_ne_true]

/-- The reader has given this answer, and stands at the position after it. -/
def Replies (data : Bytes) (reply : PacketReader × Answer) (a : Answer × Nat) : Prop :=
  reply.2 = a.1 ∧ reply.1.release.Stands data a.2 ∧ a.2 ≤ data.length

variable {r₁ : PacketReader}

/-- A request at the end of the data. -/
theorem nextAt_of_end (hf : r.release.fill Packet.size = (r₁, none)) (h : r₁.Stands data p)
    (hempty : r₁.window.isEmpty = true) (hp : p = data.length) :
    Replies data r.nextAt (answerAt data p) := by
  have hreply : r.nextAt = (r₁, .endOfData) := by
    unfold nextAt next
    rw [hf]
    dsimp only
    rw [if_pos hempty]
  rw [hreply, answerAt_of_end (Nat.le_of_eq hp.symm)]
  exact ⟨rfl, h.release, Nat.le_of_eq hp⟩

/-- A request in front of the last fragment of a packet. -/
theorem nextAt_of_fragment (hf : r.release.fill Packet.size = (r₁, none)) (h : r₁.Stands data p)
    (hempty : ¬ r₁.window.isEmpty = true) (hx : r₁.exhausted = true)
    (hshort : r₁.window.length < Packet.size) (hp : p < data.length) :
    Replies data r.nextAt (answerAt data p) := by
  have hreply : r.nextAt =
      (r₁.discard r₁.window.length, .error (.syncLost r₁.offset r₁.window)) := by
    unfold nextAt next
    rw [hf]
    dsimp only
    rw [if_neg hempty, if_pos hshort]
    rfl
  have hlength := h.length_of_exhausted hx
  have hbytes := h.bytes
  rw [h.calm.data_eq_nil hx, List.append_nil] at hbytes
  have hlost := (h.discard (Nat.le_refl r₁.window.length)).release
  rw [(by omega : p + r₁.window.length = data.length)] at hlost
  rw [hreply, answerAt_of_fragment hp (by omega)]
  exact ⟨by rw [h.offset, hbytes], hlost, Nat.le_refl _⟩

/-- A request in front of a packet. -/
theorem nextAt_of_sync (hf : r.release.fill Packet.size = (r₁, none)) (h : r₁.Stands data p)
    (hlong : Packet.size ≤ r₁.window.length) (hsync : PacketReader.isSyncAt data p = true)
    (hp : p + Packet.size ≤ data.length) :
    Replies data r.nextAt (answerAt data p) := by
  have hpos : 0 < r₁.window.length := Nat.lt_of_lt_of_le (by decide) hlong
  have hempty : ¬ r₁.window.isEmpty = true := by
    rw [List.isEmpty_iff]
    exact List.length_pos_iff.mp hpos
  have hfront : PacketReader.isSyncAt r₁.window 0 = true := (h.isSyncAt (.inl hpos)).trans hsync
  have hreply : r.nextAt = ({ r₁ with held := true },
      .packet { offset := r₁.offset, notices := [], bytes := r₁.window.take Packet.size }) := by
    unfold nextAt next
    rw [hf]
    dsimp only
    rw [if_neg hempty, if_neg (Nat.not_lt.mpr hlong), if_pos hfront]
    rfl
  obtain ⟨htake, hbehind⟩ := h.deliver hlong
  rw [hreply, answerAt_of_sync hp hsync]
  refine ⟨?_, hbehind, hp⟩
  rw [htake, h.offset, found, if_pos rfl]

/-- A request where no packet starts. -/
theorem nextAt_of_not_sync (hf : r.release.fill Packet.size = (r₁, none)) (h : r₁.Stands data p)
    (hlong : Packet.size ≤ r₁.window.length) (hsync : ¬ PacketReader.isSyncAt data p = true)
    (hp : p + Packet.size ≤ data.length) :
    Replies data r.nextAt (answerAt data p) := by
  have hpos : 0 < r₁.window.length := Nat.lt_of_lt_of_le (by decide) hlong
  have hempty : ¬ r₁.window.isEmpty = true := by
    rw [List.isEmpty_iff]
    exact List.length_pos_iff.mp hpos
  have hfront : ¬ PacketReader.isSyncAt r₁.window 0 = true := by
    rw [h.isSyncAt (.inl hpos)]
    exact hsync
  have hsearch := resync_of_stands h hp rfl
  rw [answerAt_of_not_sync hp hsync]
  unfold nextAt next
  rw [hf]
  dsimp only
  rw [if_neg hempty, if_neg (Nat.not_lt.mpr hlong), if_neg hfront]
  generalize r₁.resync = searched at hsearch
  obtain ⟨r₂, e⟩ := searched
  rcases hsearch with ⟨offset, hrecovered, rfl, hfound, hlong⟩ | ⟨hnone, rfl, hlost⟩
  · obtain ⟨htake, hbehind⟩ := hfound.deliver hlong
    obtain ⟨hle, hend, hstart⟩ := bounds_of_recovered? hp hrecovered
    have hne : offset ≠ p := fun heq => hsync (heq ▸ hstart)
    rw [hrecovered]
    refine ⟨?_, hbehind, hend⟩
    dsimp only [PacketReader.deliver]
    rw [htake, hfound.offset, h.offset, found, if_neg hne]
  · rw [hnone]
    exact ⟨rfl, hlost.release, Nat.le_refl _⟩

/-- **One request.**  It gives the answer at the position of the reader, which then stands where
that answer says. -/
theorem nextAt_of_stands (h : r.release.Stands data p) (hp : p ≤ data.length) :
    Replies data r.nextAt (answerAt data p) := by
  obtain ⟨hok, hstands, hreach⟩ := h.of_fill (by decide : Packet.size ≤ windowSize) rfl
  have hf : r.release.fill Packet.size = ((r.release.fill Packet.size).1, none) :=
    Prod.ext rfl hok
  generalize (r.release.fill Packet.size).1 = r₁ at hf hstands hreach
  have hlength := hstands.length
  by_cases hlong : Packet.size ≤ r₁.window.length
  · by_cases hsync : PacketReader.isSyncAt data p = true
    · exact nextAt_of_sync hf hstands hlong hsync (by omega)
    · exact nextAt_of_not_sync hf hstands hlong hsync (by omega)
  · have hx := hreach.resolve_right hlong
    have hend := hstands.length_of_exhausted hx
    by_cases hempty : r₁.window.isEmpty = true
    · rw [List.isEmpty_iff.mp hempty, List.length_nil] at hend
      exact nextAt_of_end hf hstands hempty (by omega)
    · have hpos := List.length_pos_iff.mpr fun hnil => hempty (List.isEmpty_iff.mpr hnil)
      exact nextAt_of_fragment hf hstands hempty hx (by omega) (by omega)

/-- A reader that stands at a position gives the answers from there on. -/
theorem answers_of_stands (h : r.release.Stands data p) (hp : p ≤ data.length) (count : Nat) :
    r.answers count = Framing.answers data p count := by
  induction count generalizing r p with
  | zero => rfl
  | succ count ih =>
    obtain ⟨hanswer, hstands, hle⟩ := nextAt_of_stands h hp
    rw [answers, Framing.answers, hanswer, ih hstands hle]

/-- **Any number of requests.**  However the source cuts the data up, the answers are those that
the data gives by itself.  So every packet consists of the bytes at its offset and starts as packets
do, a packet lies in front of all later ones, and after any other answer the data is at its end. -/
theorem answers_framed (data : Bytes) {steps : List ReadStep} (h : ∀ step ∈ steps, step.IsCalm)
    (count : Nat) :
    let answers := ({ source := { data, steps } } : PacketReader).answers count
    answers = Framing.answers data 0 count ∧
      (∀ f, .packet f ∈ answers → f.bytes = (data.drop f.offset).take Packet.size ∧
        f.bytes.length = Packet.size ∧ f.bytes[0]? = some Packet.syncByte) ∧
      answers.Pairwise fun a b =>
        match a with
        | .packet f => ∀ g, b = .packet g → f.offset + Packet.size ≤ g.offset
        | _ => b = .endOfData := by
  have hstands : ({ source := { data, steps } } : PacketReader).release.Stands data 0 :=
    ⟨⟨h, fun hx => absurd hx Bool.false_ne_true⟩, fun hx => absurd hx Bool.false_ne_true, rfl, rfl,
      rfl⟩
  have hanswers := answers_of_stands hstands (Nat.zero_le _) count
  dsimp only
  rw [hanswers]
  exact ⟨rfl, fun f => bytes_of_mem_answers, pairwise_answers data 0 count⟩

/-- Two packets behind two bytes of another one, the second of which looks like the start of a
packet, and in front of a last byte.  The source is interrupted, and its portions end within the
packets. -/
theorem answers_framed_garbage :
    let packet := Packet.syncByte :: List.replicate 187 0
    let data := 0x00 :: 0x47 :: (packet ++ packet ++ [0x47])
    let steps : List ReadStep := [.atMost 3, .interrupted, .atMost 200]
    (∀ step ∈ steps, step.IsCalm) ∧
      ({ source := { data, steps } } : PacketReader).answers 4 = [
        .packet { offset := 2, notices := [.resynchronised 2 2], bytes := packet },
        .packet { offset := 190, notices := [], bytes := packet },
        .error (.syncLost 378 [0x47]),
        .endOfData] := by
  have hcalm : ∀ step ∈ ([.atMost 3, .interrupted, .atMost 200] : List ReadStep),
      step.IsCalm := by
    simp [ReadStep.IsCalm]
  exact ⟨hcalm, (answers_framed _ hcalm 4).1.trans (by decide +kernel)⟩

end PacketReader

end TransportStream
