import TransportStream.PacketReader
import TransportStream.Proofs.Checked.Packet

/-!
# Finding packets, by index

The reader has room for two packet lengths.  Each portion of the source goes behind the bytes that
are there, so it has to be asked for with an end within the room (`fill`); bytes are dropped by
moving those behind them to the front, so there have to be as many (`discard`); and the search for
synchronisation bytes looks at two of them at a time (`isAlignedAt`).

What keeps all of this within the window is `Sound`: the window is within the room, and a packet
that was delivered is still there when it is dropped.
-/

namespace TransportStream

namespace Checked

namespace Reader

/-- Drops bytes from the front of the window. -/
def discard (r : PacketReader) (count : Nat) : Option PacketReader := do
  check (r.window.length ≤ PacketReader.windowSize)
  let window ← from? r.window count
  return { r with window, offset := r.offset + count }

/-- Drops the packet that was delivered last, if it is still there. -/
def release (r : PacketReader) : Option PacketReader :=
  if r.held then do
    let r ← discard r Packet.size
    return { r with held := false }
  else some r

/-- Reads until the window has `target` bytes or the source has no more.  A portion is put between
the end of the window and the target, both of which are within the room. -/
def fill (r : PacketReader) (target : Nat) : Option (PacketReader × Option SyncError) :=
  if r.exhausted ∨ target ≤ r.window.length then some (r, none)
  else do
    check (target ≤ PacketReader.windowSize)
    let room ← sub? target r.window.length
    match _hread : r.source.read room with
    | (.bytes [], source) => fill { r with source, exhausted := true } target
    | (.bytes (b :: portion), source) =>
      check ((b :: portion).length ≤ room)
      fill { r with source, window := r.window ++ b :: portion } target
    | (.interrupted, source) => fill { r with source } target
    | (.failure message, source) => some ({ r with source }, some (.source message))
termination_by if r.exhausted then 0 else r.source.size + 1
decreasing_by
  all_goals
    have hopen : r.exhausted = false := by simp_all
    simp only [hopen, Bool.false_eq_true, if_true, if_false]
  · exact Nat.succ_pos _
  · exact Nat.succ_lt_succ (ByteSource.size_read_lt _hread (.inr ⟨_, _, rfl⟩))
  · exact Nat.succ_lt_succ (ByteSource.size_read_lt _hread (.inl rfl))

/-- Filling the window stays within the room. -/
theorem fill_eq {target : Nat} (htarget : target ≤ PacketReader.windowSize) (r : PacketReader) :
    fill r target = some (r.fill target) := by
  fun_induction PacketReader.fill r target with
  | case1 r hdone => rw [fill, if_pos hdone]
  | case2 r hmore source hread =>
    have hroom : r.window.length ≤ target := by omega
    rw [fill, if_neg hmore, check_of htarget, sub?_of_le hroom]
    simp only [Option.bind_eq_bind, Option.bind_some]
    split <;> simp_all [fill]
  | case3 r hmore b portion source hread ih =>
    have hroom : r.window.length ≤ target := by omega
    have hportion := check_of (ByteSource.length_le_of_read hread)
    rw [fill, if_neg hmore, check_of htarget, sub?_of_le hroom]
    simp only [Option.bind_eq_bind, Option.bind_some]
    split <;> simp_all
  | case4 r hmore source hread ih =>
    have hroom : r.window.length ≤ target := by omega
    rw [fill, if_neg hmore, check_of htarget, sub?_of_le hroom]
    simp only [Option.bind_eq_bind, Option.bind_some]
    split <;> simp_all
  | case5 r hmore message source hread =>
    have hroom : r.window.length ≤ target := by omega
    rw [fill, if_neg hmore, check_of htarget, sub?_of_le hroom]
    simp only [Option.bind_eq_bind, Option.bind_some]
    split <;> simp_all

/-- Filling the window drops nothing. -/
theorem unread_of_fill {r : PacketReader} {target : Nat}
    (htarget : target ≤ PacketReader.windowSize) {filled : PacketReader × Option SyncError}
    (h : fill r target = some filled) : filled.1.unread = r.unread := by
  rw [fill_eq htarget] at h
  cases h
  exact PacketReader.unread_fill r target

/-- What is dropped has been there. -/
theorem eq_of_discard {r r' : PacketReader} {count : Nat} (h : discard r count = some r') :
    count ≤ r.window.length ∧ r' = r.discard count := by
  obtain ⟨-, -, h⟩ := Option.bind_eq_some_iff.mp h
  obtain ⟨window, hwindow, h⟩ := Option.bind_eq_some_iff.mp h
  obtain ⟨hle, rfl⟩ := eq_of_from? hwindow
  cases h
  exact ⟨hle, rfl⟩

theorem unread_of_discard {r r' : PacketReader} {count : Nat} (h : discard r count = some r') :
    r'.unread + count = r.unread := by
  obtain ⟨hle, rfl⟩ := eq_of_discard h
  have hlength : (r.window.drop count).length + count = r.window.length := length_drop_add hle
  simp only [PacketReader.unread, PacketReader.discard]
  omega

/-- True if two synchronisation bytes stand one packet length apart, the first of them at the given
offset. -/
def isAlignedAt (window : Bytes) (i : Nat) : Option Bool :=
  if i + Packet.size < window.length then do
    let first ← window[i]?
    if first = Packet.syncByte then
      let second ← window[i + Packet.size]?
      return second == Packet.syncByte
    else return false
  else some false

/-- The first offset within a packet length at which there is an alignment. -/
def alignment? (window : Bytes) : Option (Option Nat) :=
  (List.range Packet.size).findM? (isAlignedAt window)

/-- True if the last bytes of the window can be a packet. -/
def endsInPacket (window : Bytes) : Option Bool :=
  if Packet.size ≤ window.length then do
    let b ← window[← sub? window.length Packet.size]?
    return b == Packet.syncByte
  else some false

/-- Gives up all bytes of the window. -/
def giveUp (r : PacketReader) : Option (PacketReader × SyncError) := do
  check (r.window.length ≤ PacketReader.windowSize)
  let residual ← slice? r.window 0 r.window.length
  return ({ r with window := [], offset := r.offset + r.window.length },
    .syncLost r.offset residual)

/-- Drops bytes until the window starts with a packet. -/
def resync (r : PacketReader) : Option (PacketReader × Option SyncError) := do
  match ← (fill r PacketReader.windowSize).attachWith (·.1.unread = r.unread)
    fun _ => unread_of_fill (Nat.le_refl _) with
  | ⟨(r₁, some e), _⟩ => return (r₁, some e)
  | ⟨(r₁, none), _hfill⟩ =>
    match ← alignment? r₁.window with
    | some i => fill (← discard r₁ i) PacketReader.windowSize
    | none =>
      if r₁.exhausted then
        if ← endsInPacket r₁.window then
          return (← discard r₁ (← sub? r₁.window.length Packet.size), none)
        else
          let (r₂, e) ← giveUp r₁
          return (r₂, some e)
      else
        let ⟨r₂, _hdiscard⟩ ← (discard r₁ Packet.size).attachWith
          (·.unread + Packet.size = r₁.unread) fun _ => unread_of_discard
        resync r₂
termination_by r.unread
decreasing_by
  rw [Packet.size] at _hdiscard
  dsimp only at _hfill
  omega

/-- Delivers the packet at the front of the window. -/
def deliver (r : PacketReader) (notices : List Notice) :
    Option (PacketReader × PacketReader.Delivery) := do
  let bytes ← slice? r.window 0 Packet.size
  return ({ r with held := true }, .packet notices bytes)

/-- Asks for the next packet. -/
def next (r : PacketReader) : Option (PacketReader × PacketReader.Delivery) := do
  match ← fill (← release r) Packet.size with
  | (r₁, some e) => return (r₁, .error e)
  | (r₁, none) =>
    if r₁.window.length = 0 then return (r₁, .endOfData)
    else if r₁.window.length < Packet.size then
      let (r₂, e) ← giveUp r₁
      return (r₂, .error e)
    else
      let sync ← r₁.window[0]?
      if sync = Packet.syncByte then deliver r₁ []
      else
        match ← resync r₁ with
        | (r₂, some e) => return (r₂, .error e)
        | (r₂, none) =>
          deliver r₂ [.resynchronised r₂.offset (← sub? r₂.offset r₁.offset)]

/-! ## The end comes nearer -/

/-- Where a search succeeds, nothing has been added. -/
theorem unread_of_resync {r r' : PacketReader} (h : resync r = some (r', none)) :
    r'.unread ≤ r.unread := by
  fun_induction resync r with
  | case1 r ih =>
    obtain ⟨⟨⟨r₁, e⟩, hfill⟩, -, h⟩ := Option.bind_eq_some_iff.mp h
    cases e with
    | some e => cases h
    | none =>
      have hfilled : r₁.unread = r.unread := hfill
      obtain ⟨found, -, h⟩ := Option.bind_eq_some_iff.mp h
      cases found with
      | some i =>
        obtain ⟨r₂, hdiscard, h⟩ := Option.bind_eq_some_iff.mp h
        have hdropped := unread_of_discard hdiscard
        have hagain : r'.unread = r₂.unread := unread_of_fill (Nat.le_refl _) h
        omega
      | none =>
        dsimp only at h
        split at h
        · obtain ⟨ends, -, h⟩ := Option.bind_eq_some_iff.mp h
          split at h
          · obtain ⟨count, -, h⟩ := Option.bind_eq_some_iff.mp h
            obtain ⟨r₂, hdiscard, h⟩ := Option.bind_eq_some_iff.mp h
            cases h
            have hdropped := unread_of_discard hdiscard
            omega
          · obtain ⟨given, -, h⟩ := Option.bind_eq_some_iff.mp h
            cases h
        · obtain ⟨⟨r₂, hdiscard⟩, -, h⟩ := Option.bind_eq_some_iff.mp h
          have hothers := ih r₁ hfill r₂ hdiscard h
          omega

theorem unread_of_release {r r' : PacketReader} (h : release r = some r') :
    r'.unread = r.ahead := by
  unfold release at h
  split at h
  · next hheld =>
    obtain ⟨r₁, hdiscard, h⟩ := Option.bind_eq_some_iff.mp h
    obtain ⟨-, rfl⟩ := eq_of_discard hdiscard
    cases h
    rw [PacketReader.ahead, PacketReader.release, if_pos hheld]
  · next hheld =>
    cases h
    rw [PacketReader.ahead, PacketReader.release, if_neg hheld]

theorem ahead_of_deliver {r r' : PacketReader} {notices : List Notice}
    {delivery : PacketReader.Delivery} (h : deliver r notices = some (r', delivery)) :
    r'.ahead < r.unread := by
  obtain ⟨bytes, hslice, h⟩ := Option.bind_eq_some_iff.mp h
  cases h
  refine PacketReader.ahead_deliver_lt notices fun hnone => ?_
  rw [slice?, hnone, if_neg (by decide)] at hslice
  cases hslice

/-- Every packet that is delivered brings the end of the data nearer. -/
theorem ahead_of_next {r : PacketReader} {found : PacketReader × PacketReader.Delivery}
    (h : next r = some found) (notices : List Notice) (bytes : Bytes)
    (hpacket : found.2 = .packet notices bytes) : found.1.ahead < r.ahead := by
  obtain ⟨r', delivery⟩ := found
  obtain rfl : delivery = .packet notices bytes := hpacket
  obtain ⟨r₀, hrelease, h⟩ := Option.bind_eq_some_iff.mp h
  obtain ⟨⟨r₁, e⟩, hfill, h⟩ := Option.bind_eq_some_iff.mp h
  have hreleased := unread_of_release hrelease
  have hfilled : r₁.unread = r₀.unread := unread_of_fill (by decide) hfill
  cases e with
  | some e => cases h
  | none =>
    dsimp only at h
    split at h
    · cases h
    · split at h
      · obtain ⟨given, -, h⟩ := Option.bind_eq_some_iff.mp h
        cases h
      · obtain ⟨sync, -, h⟩ := Option.bind_eq_some_iff.mp h
        split at h
        · have hless := ahead_of_deliver h
          dsimp only
          omega
        · obtain ⟨⟨r₂, e⟩, hresync, h⟩ := Option.bind_eq_some_iff.mp h
          cases e with
          | some e => cases h
          | none =>
            obtain ⟨skipped, -, h⟩ := Option.bind_eq_some_iff.mp h
            have hfound := unread_of_resync hresync
            have hless := ahead_of_deliver h
            dsimp only
            omega

/-! ## What the steps of the reader keep -/

/-- The second reader is the first one after some reading and dropping. -/
structure Moves (r r' : PacketReader) : Prop where
  /-- The window stays within the room. -/
  room : r.window.length ≤ PacketReader.windowSize → r'.window.length ≤ PacketReader.windowSize
  /-- A packet that is held stays so. -/
  held : r'.held = r.held
  /-- The stream is never read backwards. -/
  offset : r.offset ≤ r'.offset

variable {r r' r'' : PacketReader}

theorem Moves.refl (r : PacketReader) : Moves r r :=
  ⟨id, rfl, Nat.le_refl _⟩

theorem Moves.trans (h : Moves r r') (h' : Moves r' r'') : Moves r r'' :=
  ⟨h'.room ∘ h.room, h'.held.trans h.held, Nat.le_trans h.offset h'.offset⟩

theorem moves_discard (r : PacketReader) (count : Nat) : Moves r (r.discard count) := by
  refine ⟨fun hroom => ?_, rfl, Nat.le_add_right _ _⟩
  rw [PacketReader.discard, List.length_drop]
  omega

/-- Filling the window up to a target within the room leaves it there. -/
theorem moves_fill {target : Nat} (htarget : target ≤ PacketReader.windowSize) (r : PacketReader) :
    Moves r (r.fill target).1 := by
  fun_induction PacketReader.fill r target with
  | case1 r => exact .refl r
  | case2 r => exact ⟨id, rfl, Nat.le_refl _⟩
  | case3 r hmore b portion source hread ih =>
    have hstep : Moves r { r with source, window := r.window ++ b :: portion } := by
      refine ⟨fun _ => ?_, rfl, Nat.le_refl _⟩
      have hportion := ByteSource.length_le_of_read hread
      rw [List.length_append]
      omega
    exact hstep.trans ih
  | case4 r _ source _ ih =>
    have hstep : Moves r { r with source } := ⟨id, rfl, Nat.le_refl _⟩
    exact hstep.trans ih
  | case5 r => exact ⟨id, rfl, Nat.le_refl _⟩

theorem moves_resync (r : PacketReader) : Moves r r.resync.1 := by
  have hfill (r : PacketReader) := moves_fill (Nat.le_refl PacketReader.windowSize) r
  fun_induction PacketReader.resync r with
  | case1 r r₁ e hf => exact hf ▸ hfill r
  | case2 r r₁ hf i _ => exact (hf ▸ hfill r).trans ((moves_discard r₁ i).trans (hfill _))
  | case3 r r₁ hf _ _ _ => exact (hf ▸ hfill r).trans (moves_discard r₁ _)
  | case4 r r₁ hf _ _ _ r₂ e hg =>
    cases hg
    exact (hf ▸ hfill r).trans (moves_discard r₁ _)
  | case5 r r₁ hf _ _ ih => exact (hf ▸ hfill r).trans ((moves_discard r₁ _).trans ih)

/-! ## Nothing fails -/

theorem discard_eq {count : Nat} (hroom : r.window.length ≤ PacketReader.windowSize)
    (hcount : count ≤ r.window.length) : discard r count = some (r.discard count) := by
  rw [discard, check_of hroom, from?_of_le hcount]
  rfl

theorem isAlignedAt_eq (window : Bytes) (i : Nat) :
    isAlignedAt window i = some (PacketReader.isAlignedAt window i) := by
  unfold isAlignedAt PacketReader.isAlignedAt PacketReader.isSyncAt
  by_cases hi : i + Packet.size < window.length
  · have hfirst : i < window.length := by omega
    rw [if_pos hi, List.getElem?_eq_getElem hi, List.getElem?_eq_getElem hfirst]
    by_cases hsync : window[i] = Packet.syncByte <;> simp [hsync]
  · simp [hi]

/-- The search looks at two bytes at a time that are both in the window. -/
theorem alignment?_eq (window : Bytes) :
    alignment? window = some (PacketReader.alignment? window) := by
  have hpure : isAlignedAt window = fun i => pure (PacketReader.isAlignedAt window i) :=
    funext (isAlignedAt_eq window)
  rw [alignment?, hpure, List.findM?_pure]
  refine congrArg some (Option.ext fun i => ?_)
  rw [List.find?_range_eq_some, PacketReader.alignment?_eq_some_iff]
  simp only [List.mem_range, Bool.not_eq_true']
  exact and_left_comm

theorem endsInPacket_eq (window : Bytes) :
    endsInPacket window =
      some (decide (Packet.size ≤ window.length ∧
        PacketReader.isSyncAt window (window.length - Packet.size) = true)) := by
  unfold endsInPacket
  by_cases hsize : Packet.size ≤ window.length
  · have hlast : window.length - Packet.size < window.length :=
      Nat.sub_lt (Nat.lt_of_lt_of_le (by decide) hsize) (by decide)
    rw [if_pos hsize, sub?_of_le hsize]
    by_cases hsync : window[window.length - Packet.size] = Packet.syncByte <;>
      simp [PacketReader.isSyncAt, List.getElem?_eq_getElem hlast, hsize, hsync]
  · simp [hsize]

theorem giveUp_eq (hroom : r.window.length ≤ PacketReader.windowSize) :
    giveUp r = some r.giveUp := by
  rw [giveUp, check_of hroom, slice?_zero (Nat.le_refl _)]
  simp [PacketReader.giveUp, PacketReader.discard]

/-- The search for packets ends, and drops only what is in the window. -/
theorem resync_eq (hroom : r.window.length ≤ PacketReader.windowSize) :
    resync r = some r.resync := by
  have hfull := Nat.le_refl PacketReader.windowSize
  fun_induction PacketReader.resync r with
  | case1 r r₁ e hf =>
    rw [resync]
    simp only [fill_eq hfull, hf, Option.attachWith_some]
    rfl
  | case2 r r₁ hf i hi =>
    have hroom₁ := (hf ▸ moves_fill hfull r).room hroom
    have hle : i ≤ r₁.window.length := by
      have := PacketReader.lt_length_of_isSyncAt
        (Bool.and_eq_true_iff.mp (PacketReader.alignment?_eq_some_iff.mp hi).2.1).1
      omega
    rw [resync]
    simp only [fill_eq hfull, hf, Option.attachWith_some, Option.bind_eq_bind, Option.bind_some,
      alignment?_eq, hi, discard_eq hroom₁ hle]
  | case3 r r₁ hf hi hx hlast =>
    have hroom₁ := (hf ▸ moves_fill hfull r).room hroom
    rw [resync]
    simp only [fill_eq hfull, hf, Option.attachWith_some, Option.bind_eq_bind, Option.bind_some,
      alignment?_eq, hi, hx, if_true, endsInPacket_eq, hlast, decide_true, and_self,
      sub?_of_le hlast.1, discard_eq hroom₁ (Nat.sub_le _ _)]
    rfl
  | case4 r r₁ hf hi hx hlast r₂ e hg =>
    have hroom₁ := (hf ▸ moves_fill hfull r).room hroom
    rw [resync]
    simp only [fill_eq hfull, hf, Option.attachWith_some, Option.bind_eq_bind, Option.bind_some,
      alignment?_eq, hi, hx, if_true, endsInPacket_eq, hlast, decide_false, giveUp_eq hroom₁, hg]
    rfl
  | case5 r r₁ hf hi hx ih =>
    have hroom₁ := (hf ▸ moves_fill hfull r).room hroom
    have hle : Packet.size ≤ r₁.window.length := by
      have := PacketReader.le_length_window_fill r PacketReader.windowSize
      rw [hf] at this
      exact Nat.le_trans (by decide) (this rfl (by simpa using hx))
    rw [resync]
    simp only [fill_eq hfull, hf, Option.attachWith_some, Option.bind_eq_bind, Option.bind_some,
      alignment?_eq, hi, hx, discard_eq hroom₁ hle, ih ((moves_discard r₁ _).room hroom₁)]
    rfl

/-- What is known about the reader between two requests. -/
structure Sound (r : PacketReader) : Prop where
  /-- The window is within the room. -/
  room : r.window.length ≤ PacketReader.windowSize
  /-- The packet that was delivered last is still there. -/
  held : r.held = true → Packet.size ≤ r.window.length

/-- What is known about the reader after the last packet is dropped. -/
structure Ready (r : PacketReader) : Prop where
  /-- The window is within the room. -/
  room : r.window.length ≤ PacketReader.windowSize
  /-- No packet is held. -/
  held : r.held = false

theorem Ready.sound (h : Ready r) : Sound r :=
  ⟨h.room, fun hheld => absurd hheld (by simp [h.held])⟩

theorem Ready.moves (h : Ready r) (hmoves : Moves r r') : Ready r' :=
  ⟨hmoves.room h.room, hmoves.held.trans h.held⟩

theorem Sound.release (h : Sound r) : release r = some r.release ∧ Ready r.release := by
  unfold Reader.release PacketReader.release
  cases hheld : r.held with
  | false => exact ⟨by simp, h.room, hheld⟩
  | true =>
    refine ⟨by simp [discard_eq h.room (h.held hheld)], ?_, rfl⟩
    exact (moves_discard r Packet.size).room h.room

theorem deliver_eq (hsize : Packet.size ≤ r.window.length) (notices : List Notice) :
    deliver r notices = some (r.deliver notices) := by
  rw [deliver, slice?_zero hsize]
  rfl

theorem Ready.deliver (h : Ready r) (hsize : Packet.size ≤ r.window.length)
    (notices : List Notice) : Sound (r.deliver notices).1 :=
  ⟨h.room, fun _ => hsize⟩

/-- A request for a packet is answered, and the next one can be. -/
theorem Sound.next (h : Sound r) : next r = some r.next ∧ Sound r.next.1 := by
  have hsize : Packet.size ≤ PacketReader.windowSize := by decide
  obtain ⟨hrelease, hready⟩ := h.release
  unfold Reader.next PacketReader.next
  rw [hrelease]
  simp only [Option.bind_eq_bind, Option.bind_some, fill_eq hsize]
  have hfilled := hready.moves (moves_fill hsize r.release)
  revert hfilled
  generalize r.release.fill Packet.size = filled
  obtain ⟨r₁, e⟩ := filled
  intro hready₁
  cases e with
  | some e => exact ⟨rfl, hready₁.sound⟩
  | none =>
    by_cases hempty : r₁.window.length = 0
    · have : r₁.window.isEmpty = true := by simpa using hempty
      simp only [hempty, this, if_true]
      exact ⟨rfl, hready₁.sound⟩
    · have : r₁.window.isEmpty = false := by simpa using hempty
      simp only [hempty, this, if_false]
      by_cases hshort : r₁.window.length < Packet.size
      · simp only [hshort, if_true, giveUp_eq hready₁.room]
        exact ⟨rfl, (hready₁.moves (moves_discard r₁ _)).sound⟩
      · have hfull : Packet.size ≤ r₁.window.length := Nat.not_lt.mp hshort
        have hfirst : 0 < r₁.window.length := Nat.pos_of_ne_zero hempty
        simp only [hshort, if_false, PacketReader.isSyncAt, List.getElem?_eq_getElem hfirst]
        by_cases hsync : r₁.window[0] = Packet.syncByte
        · simp only [hsync, beq_self_eq_true, if_true, Option.bind_some, deliver_eq hfull]
          exact ⟨rfl, hready₁.deliver hfull []⟩
        · have hmoves := moves_resync r₁
          have hfound := PacketReader.size_le_length_window_resync r₁
          have hne : (some r₁.window[0] == some Packet.syncByte) = false := by simpa using hsync
          simp only [hsync, hne, if_false, Option.bind_some, resync_eq hready₁.room]
          revert hmoves hfound
          generalize r₁.resync = searched
          obtain ⟨r₂, e⟩ := searched
          intro hmoves hfound
          have hready₂ := hready₁.moves hmoves
          cases e with
          | some e => exact ⟨rfl, hready₂.sound⟩
          | none =>
            simp only [sub?_of_le hmoves.offset, Option.bind_some, deliver_eq (hfound rfl)]
            exact ⟨rfl, hready₂.deliver (hfound rfl) _⟩

/-! ## What is delivered -/

/-- Filling the window adds to its end. -/
theorem prefix_fill (r : PacketReader) (target : Nat) : r.window <+: (r.fill target).1.window := by
  fun_induction PacketReader.fill r target with
  | case1 => exact List.prefix_rfl
  | case2 => exact List.prefix_rfl
  | case3 r _ b portion source h ih => exact (List.prefix_append _ _).trans ih
  | case4 r _ source h ih => exact ih
  | case5 => exact List.prefix_rfl

theorem isSyncAt_of_prefix {window window' : Bytes} (h : window <+: window') {i : Nat}
    (hsync : PacketReader.isSyncAt window i = true) : PacketReader.isSyncAt window' i = true := by
  obtain ⟨more, rfl⟩ := h
  rw [PacketReader.isSyncAt, List.getElem?_append_left (PacketReader.lt_length_of_isSyncAt hsync)]
  exact hsync

theorem isSyncAt_drop {window : Bytes} {i : Nat} (h : PacketReader.isSyncAt window i = true) :
    PacketReader.isSyncAt (window.drop i) 0 = true := by
  rwa [PacketReader.isSyncAt, List.getElem?_drop]

/-- Where a search for packets succeeds, the window starts with a synchronisation byte. -/
theorem isSyncAt_resync (r : PacketReader) (h : r.resync.2 = none) :
    PacketReader.isSyncAt r.resync.1.window 0 = true := by
  fun_induction PacketReader.resync r with
  | case1 => cases h
  | case2 r r₁ hf i hi =>
    have haligned := (PacketReader.alignment?_eq_some_iff.mp hi).2.1
    exact isSyncAt_of_prefix (prefix_fill (r₁.discard i) PacketReader.windowSize)
      (isSyncAt_drop (Bool.and_eq_true_iff.mp haligned).1)
  | case3 r r₁ hf hi hx hlast =>
    dsimp only [PacketReader.discard]
    exact isSyncAt_drop hlast.2
  | case4 => cases h
  | case5 r r₁ hf hi hx ih => exact ih h

/-- What is delivered is a packet. -/
theorem exists_packet_of_next {notices : List Notice} {bytes : Bytes}
    (h : r.next = (r', .packet notices bytes)) : ∃ p, Packet.ofBytes? bytes = some p := by
  have hdeliver : ∀ {r₁ : PacketReader} {ns : List Notice}, Packet.size ≤ r₁.window.length →
      PacketReader.isSyncAt r₁.window 0 = true → r₁.deliver ns = (r', .packet notices bytes) →
      ∃ p, Packet.ofBytes? bytes = some p := by
    intro r₁ ns hsize hsync hdelivered
    cases hdelivered
    refine exists_ofBytes? (by rw [List.length_take, Nat.min_eq_left hsize]) ?_
    have hpos : 0 < Packet.size := Nat.succ_pos 187
    rw [List.getElem?_take_of_lt hpos]
    simpa [PacketReader.isSyncAt] using hsync
  unfold PacketReader.next at h
  revert h
  generalize r.release.fill Packet.size = filled
  obtain ⟨r₁, e⟩ := filled
  cases e with
  | some e => intro h; cases h
  | none =>
    dsimp only
    split
    · intro h; cases h
    · split
      · intro h; cases h
      · next hlong =>
        split
        · next hsync => exact hdeliver (Nat.not_lt.mp hlong) hsync
        · have hsync := isSyncAt_resync r₁
          have hsize := PacketReader.size_le_length_window_resync r₁
          revert hsync hsize
          generalize r₁.resync = searched
          obtain ⟨r₂, e⟩ := searched
          cases e with
          | some e => intro _ _ h; cases h
          | none => exact fun hsync hsize => hdeliver (hsize rfl) (hsync rfl)

end Reader

end Checked

end TransportStream
