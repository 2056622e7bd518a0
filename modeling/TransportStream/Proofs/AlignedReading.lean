import TransportStream.PacketReader

/-!
# Reading a stream that is aligned

A source that is not disturbed beyond short portions and interruptions gives its bytes in the end,
and if these are packets that follow each other directly, the reader delivers just those packets.
Between two requests only the bytes matter that have not been delivered, whether they are in the
window already or still in the source.

* `PacketReader.fill_calm`: filling the window moves bytes and does nothing else.
* `PacketReader.next_of_packet`, `PacketReader.next_of_nil`: what one request gives.
* `PacketReader.readAll_aligned`: all packets, and where they are.
-/

namespace TransportStream

/-- The step gives some bytes, or asks to be repeated. -/
def ReadStep.IsCalm : ReadStep → Prop
  | .atMost count => 0 < count
  | .interrupted => True
  | .failure _ | .endOfData => False

namespace PacketReader

/-- The source is not disturbed, and is at its end where the reader takes it to be. -/
structure IsCalm (r : PacketReader) : Prop where
  /-- All steps give bytes or ask to be repeated. -/
  steps : ∀ step ∈ r.source.steps, step.IsCalm
  /-- The data is at its end. -/
  data_eq_nil : r.exhausted = true → r.source.data = []

/-- The bytes that have not been delivered. -/
def undelivered (r : PacketReader) : Bytes :=
  r.release.window ++ r.release.source.data

/-- The offset of these bytes. -/
def position (r : PacketReader) : Nat :=
  r.release.offset

/-- What one call of a calm source gives. -/
theorem read_calm {s s' : ByteSource} (h : ∀ step ∈ s.steps, step.IsCalm) {room : Nat}
    (hroom : 0 < room) {result : ReadResult} (hread : s.read room = (result, s')) :
    (∀ step ∈ s'.steps, step.IsCalm) ∧ (∀ message, result ≠ .failure message) ∧
      (result = .bytes [] → s'.data = []) := by
  have hnone {n : Nat} (hn : 0 < n) (hempty : s.data.take n = []) : s.data.drop n = [] := by
    rw [List.take_eq_nil_iff] at hempty
    simp [hempty.resolve_left (by omega)]
  have hsteps := ByteSource.steps_of_read hread
  refine ⟨fun step hstep => h step (List.mem_of_mem_tail (hsteps ▸ hstep)), ?_⟩
  unfold ByteSource.read at hread
  split at hread
  · cases hread
    exact ⟨fun _ hfailure => ReadResult.noConfusion hfailure,
      fun hempty => hnone hroom (ReadResult.bytes.inj hempty)⟩
  · next step rest hs =>
    have hcalm := h step (by rw [hs]; exact List.mem_cons_self)
    cases step with
    | atMost count =>
      cases hread
      have hpos : 0 < min count room := Nat.lt_min.mpr ⟨hcalm, hroom⟩
      exact ⟨fun _ hfailure => ReadResult.noConfusion hfailure,
        fun hempty => hnone hpos (ReadResult.bytes.inj hempty)⟩
    | interrupted =>
      cases hread
      exact ⟨fun _ hfailure => ReadResult.noConfusion hfailure,
        fun hempty => ReadResult.noConfusion hempty⟩
    | failure message => exact absurd hcalm id
    | endOfData => exact absurd hcalm id

/-- Filling the window moves bytes from the source into it, as far as they are wanted and there. -/
theorem fill_calm {r : PacketReader} (h : r.IsCalm) (target : Nat) :
    (r.fill target).2 = none ∧ (r.fill target).1.IsCalm ∧
      (r.fill target).1.window ++ (r.fill target).1.source.data = r.window ++ r.source.data ∧
      (r.fill target).1.offset = r.offset ∧ (r.fill target).1.held = r.held ∧
      (target ≤ (r.fill target).1.window.length ∨ (r.fill target).1.source.data = []) := by
  fun_induction fill r target with
  | case1 r hdone => exact ⟨rfl, h, rfl, rfl, rfl, hdone.symm.imp_right h.data_eq_nil⟩
  | case2 r hmore source hread =>
    obtain ⟨hsteps, -, hnil⟩ := read_calm h.steps (by omega) hread
    have hdata := ByteSource.append_data_of_read hread
    refine ⟨rfl, ⟨hsteps, fun _ => hnil rfl⟩, ?_, rfl, rfl, .inr (hnil rfl)⟩
    rw [← hdata]
    rfl
  | case3 r hmore b portion source hread ih =>
    obtain ⟨hsteps, -, -⟩ := read_calm h.steps (by omega) hread
    have hdata := ByteSource.append_data_of_read hread
    have hcalm : IsCalm { r with source, window := r.window ++ b :: portion } :=
      ⟨hsteps, fun hx => absurd (.inl hx) hmore⟩
    obtain ⟨hok, hcalm', hbytes, hoffset, hheld, hreach⟩ := ih hcalm
    refine ⟨hok, hcalm', ?_, hoffset, hheld, hreach⟩
    rw [hbytes, ← hdata, List.append_assoc]
  | case4 r hmore source hread ih =>
    obtain ⟨hsteps, -, -⟩ := read_calm h.steps (by omega) hread
    have hdata := ByteSource.data_of_read_interrupted hread
    have hcalm : IsCalm { r with source } := ⟨hsteps, fun hx => absurd (.inl hx) hmore⟩
    obtain ⟨hok, hcalm', hbytes, hoffset, hheld, hreach⟩ := ih hcalm
    exact ⟨hok, hcalm', by rw [hbytes, hdata], hoffset, hheld, hreach⟩
  | case5 r hmore message source hread =>
    exact absurd rfl ((read_calm h.steps (by omega) hread).2.1 message)

theorem IsCalm.release {r : PacketReader} (h : r.IsCalm) : r.release.IsCalm := by
  unfold PacketReader.release
  split
  · exact ⟨h.steps, h.data_eq_nil⟩
  · exact h

/-- **One request.**  The packet in front is delivered, and the bytes after it are left. -/
theorem next_of_packet {r : PacketReader} (h : r.IsCalm) {packet more : Bytes}
    (hlength : packet.length = Packet.size) (hsync : packet[0]? = some Packet.syncByte)
    (hbytes : r.undelivered = packet ++ more) :
    ∃ r', r.next = (r', .packet [] packet) ∧ r'.IsCalm ∧ r'.offset = r.position ∧
      r'.undelivered = more ∧ r'.position = r.position + Packet.size := by
  obtain ⟨hok, hcalm, hfilled, hoffset, -, hreach⟩ := fill_calm h.release Packet.size
  rw [show r.release.window ++ r.release.source.data = packet ++ more from hbytes] at hfilled
  have hwindow : Packet.size ≤ (r.release.fill Packet.size).1.window.length := by
    refine hreach.elim id ?_
    intro hdata
    rw [hdata, List.append_nil] at hfilled
    rw [hfilled, List.length_append, hlength]
    omega
  generalize hfill : r.release.fill Packet.size = filled at hok hcalm hfilled hoffset hwindow
  obtain ⟨r₁, e⟩ := filled
  obtain rfl : e = none := hok
  -- the window starts with the packet, and may go on behind it
  obtain ⟨rest, hrest, hmore⟩ : ∃ rest, r₁.window = packet ++ rest ∧
      rest ++ r₁.source.data = more := by
    rcases List.append_eq_append_iff.mp hfilled with ⟨x, hpacket, hdata⟩ | ⟨x, hx, hmore⟩
    · have hx : x = [] := by
        have := congrArg List.length hpacket
        rw [List.length_append] at this
        exact List.length_eq_zero_iff.mp (by omega)
      subst hx
      exact ⟨[], by simpa using hpacket.symm, by simpa using hdata⟩
    · exact ⟨x, hx, hmore.symm⟩
  have htake : r₁.window.take Packet.size = packet := by
    rw [hrest, ← hlength, List.take_left]
  have hdrop : r₁.window.drop Packet.size = rest := by
    rw [hrest, ← hlength, List.drop_left]
  have hempty : ¬ r₁.window.isEmpty = true := by
    intro hempty
    rw [List.isEmpty_iff.mp hempty] at hwindow
    exact absurd hwindow (by decide)
  have hfront : isSyncAt r₁.window 0 = true := by
    have hpos : 0 < packet.length := by
      rw [hlength]
      decide
    rw [isSyncAt, hrest, List.getElem?_append_left hpos, hsync]
    exact beq_self_eq_true _
  refine ⟨{ r₁ with held := true }, ?_, ⟨hcalm.steps, hcalm.data_eq_nil⟩, hoffset, ?_, ?_⟩
  · unfold next
    rw [hfill]
    dsimp only
    rw [if_neg hempty, if_neg (Nat.not_lt.mpr hwindow), if_pos hfront, deliver, htake]
  · rw [undelivered, PacketReader.release, if_pos rfl, ← hmore, ← hdrop]
    rfl
  · rw [position, PacketReader.release, if_pos rfl, position, ← hoffset]
    rfl

/-- At the end of the data there is no packet. -/
theorem next_of_nil {r : PacketReader} (h : r.IsCalm) (hbytes : r.undelivered = []) :
    ∃ r', r.next = (r', .endOfData) := by
  obtain ⟨hok, -, hfilled, -⟩ := fill_calm h.release Packet.size
  rw [show r.release.window ++ r.release.source.data = [] from hbytes] at hfilled
  refine ⟨(r.release.fill Packet.size).1, ?_⟩
  unfold next
  generalize r.release.fill Packet.size = filled at hok hfilled
  obtain ⟨r₁, e⟩ := filled
  obtain rfl : e = none := hok
  have hempty : r₁.window.isEmpty = true :=
    List.isEmpty_iff.mpr (List.append_eq_nil_iff.mp hfilled).1
  dsimp only
  rw [if_pos hempty]

/-- Packets that follow each other directly, from an offset on. -/
def placed (offset : Nat) : List Bytes → List Found
  | [] => []
  | packet :: packets =>
    { offset, notices := [], bytes := packet } :: placed (offset + Packet.size) packets

/-- **An aligned stream.**  Its packets are found where they are, and its end is no error. -/
theorem readAll_aligned {r : PacketReader} (h : r.IsCalm) {packets : List Bytes}
    (hpackets : ∀ p ∈ packets, p.length = Packet.size ∧ p[0]? = some Packet.syncByte)
    (hbytes : r.undelivered = packets.flatten) :
    r.readAll = (placed r.position packets, none) := by
  induction packets generalizing r with
  | nil =>
    obtain ⟨r', hnext⟩ := next_of_nil h hbytes
    exact readAll_of_endOfData hnext
  | cons packet packets ih =>
    obtain ⟨⟨hlength, hsync⟩, hpackets⟩ := List.forall_mem_cons.mp hpackets
    obtain ⟨r', hnext, hcalm, hoffset, hleft, hposition⟩ :=
      next_of_packet h hlength hsync (hbytes.trans List.flatten_cons)
    rw [readAll_of_packet hnext, ih hcalm hpackets hleft, hoffset, hposition]
    rfl

end PacketReader

end TransportStream
