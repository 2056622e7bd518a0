import TransportStream.ByteSource
import TransportStream.Notice
import TransportStream.Packet

/-!
# Finding packets in a byte source

A byte source may begin in the middle of a packet, or lose bytes on the way.  The reader delivers
188 bytes at a time as long as each packet starts with the synchronisation byte.  Where one does
not, it looks for the next place where two synchronisation bytes stand one packet length apart,
since the same value can occur anywhere within a packet.  Only at the end of the data, where no
second one can follow, a last packet is accepted that fills the rest exactly.

## The window

At most two packet lengths are held in memory, in `window`; it is exactly as much as a candidate
and its confirmation take.  The packet that was delivered last stays at the front of the window,
and is dropped when the next one is asked for: `held` says so.  An empty portion means the end of
the data for good, which `exhausted` remembers.

## Errors

An error of the source is passed on and loses nothing: what the window held is still there when
the next packet is asked for.  Data in which no packet can be found before its end is given up, and
becomes part of the error.

## Why the loops end

`fill` ends because every call of the source that does not end the data uses up some of it
(`ByteSource.size_read_lt`).  The search for packets ends because each round gives up 188 of the
bytes that have not been dropped, `unread`, and no round adds to them.
-/

namespace TransportStream

/-- Why no packet can be delivered. -/
inductive SyncError where
  /-- The data ended before packets were found; `residual` starts at `offset`. -/
  | syncLost (offset : Nat) (residual : Bytes)
  /-- The byte source failed. -/
  | source (message : String)
  deriving DecidableEq

/-- The wording of a synchronisation error. -/
def SyncError.message : SyncError → String
  | syncLost offset residual =>
    s!"transport stream sync lost at offset {offset} ({residual.length} bytes unconsumed)"
  | source message => "reading transport stream failed: " ++ message

/-- A byte source, and what has been read from it. -/
structure PacketReader where
  /-- Where the bytes come from. -/
  source : ByteSource
  /-- The bytes read but not dropped. -/
  window : Bytes := []
  /-- The offset of the window in the stream. -/
  offset : Nat := 0
  /-- The window starts with the packet that was delivered last. -/
  held : Bool := false
  /-- The source has no more bytes. -/
  exhausted : Bool := false
  deriving DecidableEq

namespace PacketReader

/-- The number of bytes the window has room for. -/
def windowSize : Nat := 2 * Packet.size

/-- The number of bytes that have not been dropped. -/
def unread (r : PacketReader) : Nat :=
  r.window.length + r.source.data.length

/-- Drops bytes from the front of the window. -/
def discard (r : PacketReader) (count : Nat) : PacketReader :=
  { r with window := r.window.drop count, offset := r.offset + count }

/-- Drops the packet that was delivered last, if it is still there. -/
def release (r : PacketReader) : PacketReader :=
  if r.held then { r.discard Packet.size with held := false } else r

/-- Reads until the window has `target` bytes or the source has no more. -/
def fill (r : PacketReader) (target : Nat) : PacketReader × Option SyncError :=
  if r.exhausted ∨ target ≤ r.window.length then (r, none)
  else
    match _h : r.source.read (target - r.window.length) with
    | (.bytes [], source) => ({ r with source, exhausted := true }, none)
    | (.bytes (b :: portion), source) =>
      fill { r with source, window := r.window ++ b :: portion } target
    | (.interrupted, source) => fill { r with source } target
    | (.failure message, source) => ({ r with source }, some (.source message))
termination_by r.source.size
decreasing_by
  · exact ByteSource.size_read_lt _h (.inr ⟨_, _, rfl⟩)
  · exact ByteSource.size_read_lt _h (.inl rfl)

/-- Filling the window drops nothing. -/
theorem unread_fill (r : PacketReader) (target : Nat) : (r.fill target).1.unread = r.unread := by
  fun_induction fill r target with
  | case1 => rfl
  | case2 r _ source h =>
    have := congrArg List.length (ByteSource.append_data_of_read h)
    simp only [unread, List.length_append, List.length_nil] at *
    omega
  | case3 r _ b portion source h ih =>
    have := congrArg List.length (ByteSource.append_data_of_read h)
    simp only [unread, List.length_append, List.length_cons] at *
    omega
  | case4 r _ source h ih =>
    rw [ih]
    simp only [unread, ByteSource.data_of_read_interrupted h]
  | case5 r _ message source h =>
    simp only [unread, ByteSource.data_of_read_failure h]

/-- Without an error, and before the end of the data, filling reaches its target. -/
theorem le_length_window_fill (r : PacketReader) (target : Nat)
    (hok : (r.fill target).2 = none) (hmore : (r.fill target).1.exhausted = false) :
    target ≤ (r.fill target).1.window.length := by
  fun_induction fill r target with
  | case1 r h => exact h.resolve_left (by simpa using hmore)
  | case2 => simp at hmore
  | case3 r _ b portion source h ih => exact ih hok hmore
  | case4 r _ source h ih => exact ih hok hmore
  | case5 => simp at hok

/-- True if the byte at an offset is the synchronisation byte. -/
def isSyncAt (bytes : Bytes) (i : Nat) : Bool :=
  bytes[i]? == some Packet.syncByte

theorem lt_length_of_isSyncAt {bytes : Bytes} {i : Nat} (h : isSyncAt bytes i = true) :
    i < bytes.length := by
  rcases Nat.lt_or_ge i bytes.length with hi | hi
  · exact hi
  · simp [isSyncAt, List.getElem?_eq_none hi] at h

/-- True if two synchronisation bytes stand one packet length apart, the first of them at the given
offset. -/
def isAlignedAt (bytes : Bytes) (i : Nat) : Bool :=
  isSyncAt bytes i && isSyncAt bytes (i + Packet.size)

/-- The bytes of a window that stand one packet length apart, for each offset within the first
packet length. -/
def facing (window : Bytes) : List (UInt8 × UInt8) :=
  (window.take Packet.size).zip (window.drop Packet.size)

/-- True if two bytes are both synchronisation bytes. -/
def areSync (pair : UInt8 × UInt8) : Bool :=
  pair.1 == Packet.syncByte && pair.2 == Packet.syncByte

/-- The first offset within a packet length at which two synchronisation bytes face each other. -/
def alignment? (window : Bytes) : Option Nat :=
  (facing window).findIdx? areSync

theorem length_facing (window : Bytes) :
    (facing window).length = min Packet.size (window.length - Packet.size) := by
  simp only [facing, List.length_zip, List.length_take, List.length_drop]
  omega

theorem areSync_facing (window : Bytes) (i : Nat) (h : i < (facing window).length) :
    areSync (facing window)[i] = isAlignedAt window i := by
  have hl := length_facing window
  have h₁ : i < window.length := by omega
  have h₂ : i + Packet.size < window.length := by omega
  simp [areSync, facing, isAlignedAt, isSyncAt, List.getElem?_eq_getElem h₁,
    List.getElem?_eq_getElem h₂, Nat.add_comm]

/-- The alignment is the first offset within a packet length at which there is one. -/
theorem alignment?_eq_some_iff {window : Bytes} {i : Nat} :
    alignment? window = some i ↔
      i < Packet.size ∧ isAlignedAt window i = true ∧ ∀ j < i, isAlignedAt window j = false := by
  have hl := length_facing window
  rw [alignment?, List.findIdx?_eq_some_iff_getElem]
  constructor
  · rintro ⟨hi, hp, hbefore⟩
    refine ⟨by omega, (areSync_facing window i hi) ▸ hp, fun j hj => ?_⟩
    have := hbefore j hj
    rw [areSync_facing window j (by omega)] at this
    simpa using this
  · rintro ⟨hi, hp, hbefore⟩
    have hs := lt_length_of_isSyncAt (Bool.and_eq_true_iff.mp hp).2
    have hlen : i < (facing window).length := by omega
    refine ⟨hlen, (areSync_facing window i hlen).trans hp, fun j hj => ?_⟩
    rw [areSync_facing window j (by omega), hbefore j hj]
    simp

/-- Gives up all bytes of the window. -/
def giveUp (r : PacketReader) : PacketReader × SyncError :=
  (r.discard r.window.length, .syncLost r.offset r.window)

/-- Drops bytes until the window starts with a packet. -/
def resync (r : PacketReader) : PacketReader × Option SyncError :=
  match _hf : r.fill windowSize with
  | (r₁, some e) => (r₁, some e)
  | (r₁, none) =>
    match alignment? r₁.window with
    | some i => (r₁.discard i).fill windowSize
    | none =>
      if _hx : r₁.exhausted then
        if Packet.size ≤ r₁.window.length ∧ isSyncAt r₁.window (r₁.window.length - Packet.size) then
          (r₁.discard (r₁.window.length - Packet.size), none)
        else
          let (r₂, e) := r₁.giveUp
          (r₂, some e)
      else resync (r₁.discard Packet.size)
termination_by r.unread
decreasing_by
  have hu := unread_fill r windowSize
  have hl := le_length_window_fill r windowSize
  rw [_hf] at hu hl
  have hlen := hl rfl (by simpa using _hx)
  simp only [unread, discard, windowSize, Packet.size, List.length_drop] at *
  omega

/-- What a request for a packet gives. -/
inductive Delivery where
  /-- The bytes of a packet, and what was notable on the way to it. -/
  | packet (notices : List Notice) (bytes : Bytes)
  /-- The data is at its end. -/
  | endOfData
  /-- No packet can be delivered. -/
  | error (e : SyncError)
  deriving DecidableEq

/-- Delivers the packet at the front of the window. -/
def deliver (r : PacketReader) (notices : List Notice) : PacketReader × Delivery :=
  ({ r with held := true }, .packet notices (r.window.take Packet.size))

/-- Asks for the next packet.  The reader's `offset` is afterwards that of the packet, if there is
one. -/
def next (r : PacketReader) : PacketReader × Delivery :=
  match r.release.fill Packet.size with
  | (r₁, some e) => (r₁, .error e)
  | (r₁, none) =>
    if r₁.window.isEmpty then (r₁, .endOfData)
    else if r₁.window.length < Packet.size then
      let (r₂, e) := r₁.giveUp
      (r₂, .error e)
    else if isSyncAt r₁.window 0 then r₁.deliver []
    else
      match r₁.resync with
      | (r₂, some e) => (r₂, .error e)
      | (r₂, none) => r₂.deliver [.resynchronised r₂.offset (r₂.offset - r₁.offset)]

/-! ## Reading to the end -/

/-- Filling the window takes nothing out of it. -/
theorem length_window_le_fill (r : PacketReader) (target : Nat) :
    r.window.length ≤ (r.fill target).1.window.length := by
  fun_induction fill r target with
  | case1 => exact Nat.le_refl _
  | case2 => exact Nat.le_refl _
  | case3 r _ b portion source h ih =>
    simp only [List.length_append] at ih
    omega
  | case4 r _ source h ih => exact ih
  | case5 => exact Nat.le_refl _

theorem unread_discard_le (r : PacketReader) (count : Nat) :
    (r.discard count).unread ≤ r.unread := by
  simp only [unread, discard, List.length_drop]
  omega

/-- The search for packets adds nothing to what is unread. -/
theorem unread_resync_le (r : PacketReader) : r.resync.1.unread ≤ r.unread := by
  fun_induction resync r with
  | case1 r r₁ e hf =>
    have := unread_fill r windowSize
    rw [hf] at this
    exact Nat.le_of_eq this
  | case2 r r₁ hf i hi =>
    have h := unread_fill r windowSize
    rw [hf] at h
    rw [unread_fill]
    exact Nat.le_trans (unread_discard_le r₁ i) (Nat.le_of_eq h)
  | case3 r r₁ hf hi hx ht =>
    have h := unread_fill r windowSize
    rw [hf] at h
    exact Nat.le_trans (unread_discard_le r₁ _) (Nat.le_of_eq h)
  | case4 r r₁ hf hi hx ht r₂ e hg =>
    have h := unread_fill r windowSize
    rw [hf] at h
    cases hg
    exact Nat.le_trans (unread_discard_le r₁ _) (Nat.le_of_eq h)
  | case5 r r₁ hf hi hx ih =>
    have h := unread_fill r windowSize
    rw [hf] at h
    exact Nat.le_trans ih (Nat.le_trans (unread_discard_le r₁ _) (Nat.le_of_eq h))

/-- Where a search for packets succeeds, a whole packet is in the window. -/
theorem size_le_length_window_resync (r : PacketReader) (h : r.resync.2 = none) :
    Packet.size ≤ r.resync.1.window.length := by
  fun_induction resync r with
  | case1 => simp at h
  | case2 r r₁ hf i hi =>
    refine Nat.le_trans ?_ (length_window_le_fill (r₁.discard i) windowSize)
    have hs := (alignment?_eq_some_iff.mp hi).2.1
    have := lt_length_of_isSyncAt (Bool.and_eq_true_iff.mp hs).2
    simp only [discard, List.length_drop]
    omega
  | case3 r r₁ hf hi hx ht =>
    simp only [discard, List.length_drop]
    omega
  | case4 => simp at h
  | case5 r r₁ hf hi hx ih => exact ih h

/-- The number of bytes that will not have been dropped when the next packet is asked for. -/
def ahead (r : PacketReader) : Nat :=
  r.release.unread

theorem ahead_deliver_lt {r : PacketReader} (notices : List Notice) (h : r.window ≠ []) :
    (r.deliver notices).1.ahead < r.unread := by
  have := List.length_pos_iff.mpr h
  simp only [ahead, deliver, release, discard, unread, Packet.size, if_true, List.length_drop]
  omega

/-- Every packet that is delivered brings the end of the data nearer. -/
theorem ahead_next_lt {r r' : PacketReader} {notices : List Notice} {bytes : Bytes}
    (h : r.next = (r', .packet notices bytes)) : r'.ahead < r.ahead := by
  have hu := unread_fill r.release Packet.size
  have hr : r' = r.next.1 := by rw [h]
  rw [show r.ahead = r.release.unread from rfl, ← hu, hr]
  unfold next at h ⊢
  revert h
  generalize r.release.fill Packet.size = filled
  obtain ⟨r₁, e⟩ := filled
  cases e with
  | some e => intro h; cases h
  | none =>
    dsimp only
    split
    · intro h; cases h
    · next hne =>
      split
      · intro h; cases h
      · split
        · intro _
          exact ahead_deliver_lt [] (by simpa using hne)
        · have hle := unread_resync_le r₁
          have hsize := size_le_length_window_resync r₁
          revert hle hsize
          generalize r₁.resync = searched
          obtain ⟨r₂, e⟩ := searched
          cases e with
          | some e => intro _ _ h; cases h
          | none =>
            intro hle hsize _
            refine Nat.lt_of_lt_of_le (ahead_deliver_lt _ ?_) hle
            intro hempty
            have := hsize rfl
            simp [hempty, Packet.size] at this

/-- A packet that was found, and where. -/
structure Found where
  /-- The offset of the packet in the stream. -/
  offset : Nat
  /-- What was notable on the way to it. -/
  notices : List Notice
  /-- The bytes of the packet. -/
  bytes : Bytes
  deriving DecidableEq

/-- Reads packets up to the end of the data or to the first error, and adds them to those found
before, of which the last one is in front. -/
def collect (r : PacketReader) (found : List Found) : List Found × Option SyncError :=
  match _h : r.next with
  | (r', .packet notices bytes) => r'.collect ({ offset := r'.offset, notices, bytes } :: found)
  | (_, .endOfData) => (found.reverse, none)
  | (_, .error e) => (found.reverse, some e)
termination_by r.ahead
decreasing_by exact ahead_next_lt _h

/-- All packets up to the end of the data or to the first error, and that error. -/
def readAll (r : PacketReader) : List Found × Option SyncError :=
  r.collect []

theorem collect_of_packet {r r' : PacketReader} {notices : List Notice} {bytes : Bytes}
    (h : r.next = (r', .packet notices bytes)) (found : List Found) :
    r.collect found = r'.collect ({ offset := r'.offset, notices, bytes } :: found) := by
  rw [collect]
  split <;> simp_all

theorem collect_of_endOfData {r r' : PacketReader} (h : r.next = (r', .endOfData))
    (found : List Found) : r.collect found = (found.reverse, none) := by
  rw [collect]
  split <;> simp_all

theorem collect_of_error {r r' : PacketReader} {e : SyncError} (h : r.next = (r', .error e))
    (found : List Found) : r.collect found = (found.reverse, some e) := by
  rw [collect]
  split <;> simp_all

/-- The packets found before stand in front of the others. -/
theorem collect_eq (r : PacketReader) (found : List Found) :
    r.collect found = (found.reverse ++ r.readAll.1, r.readAll.2) := by
  match h : r.next with
  | (r', .packet notices bytes) =>
    rw [readAll, collect_of_packet h found, collect_of_packet h [], collect_eq r' (_ :: found),
      collect_eq r' [_]]
    simp
  | (r', .endOfData) => simp [readAll, collect_of_endOfData h]
  | (r', .error e) => simp [readAll, collect_of_error h]
termination_by r.ahead
decreasing_by all_goals exact ahead_next_lt h

/-- A packet is followed by the packets that the reader gives after it. -/
theorem readAll_of_packet {r r' : PacketReader} {notices : List Notice} {bytes : Bytes}
    (h : r.next = (r', .packet notices bytes)) :
    r.readAll =
      ({ offset := r'.offset, notices, bytes } :: r'.readAll.1, r'.readAll.2) := by
  rw [readAll, collect_of_packet h, collect_eq]
  rfl

theorem readAll_of_endOfData {r r' : PacketReader} (h : r.next = (r', .endOfData)) :
    r.readAll = ([], none) :=
  collect_of_endOfData h []

theorem readAll_of_error {r r' : PacketReader} {e : SyncError} (h : r.next = (r', .error e)) :
    r.readAll = ([], some e) :=
  collect_of_error h []

end PacketReader

end TransportStream
