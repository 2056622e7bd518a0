import TransportStream.Proofs.Checked.PacketReader
import TransportStream.Proofs.PacketFraming

/-!
# Where the packets of a disturbed source are

What a source does to its data, interruptions, failures and an end that comes too early among it,
decides how much of the data is seen.  It has no influence on where things are: what is in the
window is always the part of the data at the offset of the window.  So a packet that is delivered is
the part of the data at its offset, and so is what is given up at last.

* `PacketReader.Tracks`: what is in the window and in the source is the data from the offset on.
* `PacketReader.tracks_next`: a request keeps this, and what it delivers is at its offset.
* `PacketReader.located_readAll`: so are all packets up to the end.
* `PacketReader.answers_readAll`: these are the packets that the requests up to the end give.
-/

namespace TransportStream

/-- What is given up is the part of the data at the offset that is told. -/
def SyncError.IsIn (data : Bytes) : SyncError → Prop
  | syncLost offset residual => (data.drop offset).take residual.length = residual
  | source _ => True

/-- What the end of a byte source answers to a request. -/
def Answer.ofEnding : Option SyncError → Answer
  | none => endOfData
  | some e => error e

namespace PacketReader

/-- A packet that was found is the part of the data at its offset. -/
structure Found.IsIn (data : Bytes) (f : Found) : Prop where
  /-- These are its bytes. -/
  bytes : f.bytes = (data.drop f.offset).take Packet.size
  /-- It can be read. -/
  packet : ∃ p, Packet.ofBytes? f.bytes = some p

/-- What is in the window and in the source is the data from the offset on. -/
def Tracks (data : Bytes) (r : PacketReader) : Prop :=
  r.window ++ r.source.data = data.drop r.offset

variable {data : Bytes} {r : PacketReader}

theorem Tracks.discard (h : r.Tracks data) {count : Nat} (hcount : count ≤ r.window.length) :
    (r.discard count).Tracks data := by
  show r.window.drop count ++ r.source.data = data.drop (r.offset + count)
  rw [← List.drop_drop, ← h, List.drop_append_of_le_length hcount]

/-- Filling the window moves bytes from the source into it, and an error of the source gives nothing
up. -/
theorem Tracks.fill (h : r.Tracks data) (target : Nat) :
    (r.fill target).1.Tracks data ∧ ∀ e, (r.fill target).2 = some e → e.IsIn data := by
  fun_induction PacketReader.fill r target with
  | case1 r hdone => exact ⟨h, by simp⟩
  | case2 r hmore source hread =>
    have hdata : source.data = r.source.data := ByteSource.append_data_of_read hread
    exact ⟨(congrArg (r.window ++ ·) hdata).trans h, by simp⟩
  | case3 r hmore b portion source hread ih =>
    have hdata := ByteSource.append_data_of_read hread
    refine ih ?_
    show r.window ++ b :: portion ++ source.data = data.drop r.offset
    rw [List.append_assoc, hdata]
    exact h
  | case4 r hmore source hread ih =>
    have hdata := ByteSource.data_of_read_interrupted hread
    exact ih ((congrArg (r.window ++ ·) hdata).trans h)
  | case5 r hmore message source hread =>
    have hdata := ByteSource.data_of_read_failure hread
    refine ⟨(congrArg (r.window ++ ·) hdata).trans h, fun e he => ?_⟩
    obtain rfl := Option.some.inj he
    trivial

/-- The first bytes of the window are those at the offset. -/
theorem Tracks.take (h : r.Tracks data) {count : Nat} (hcount : count ≤ r.window.length) :
    (data.drop r.offset).take count = r.window.take count := by
  rw [← h, List.take_append_of_le_length hcount]

/-- What is given up is told with its offset. -/
theorem Tracks.giveUp (h : r.Tracks data) : r.giveUp.1.Tracks data ∧ r.giveUp.2.IsIn data := by
  refine ⟨h.discard (Nat.le_refl _), ?_⟩
  show (data.drop r.offset).take r.window.length = r.window
  rw [h.take (Nat.le_refl _), List.take_length]

/-- The search for packets drops bytes from the front only. -/
theorem Tracks.resync (h : r.Tracks data) :
    r.resync.1.Tracks data ∧ ∀ e, r.resync.2 = some e → e.IsIn data := by
  fun_induction PacketReader.resync r with
  | case1 r r₁ e hf =>
    have hfilled := h.fill windowSize
    rwa [hf] at hfilled
  | case2 r r₁ hf i hi =>
    have hfilled := (h.fill windowSize).1
    rw [hf] at hfilled
    have haligned := (alignment?_eq_some_iff.mp hi).2.1
    have hlt := lt_length_of_isSyncAt (Bool.and_eq_true_iff.mp haligned).1
    exact (hfilled.discard (Nat.le_of_lt hlt)).fill windowSize
  | case3 r r₁ hf hi hx hlast =>
    have hfilled := (h.fill windowSize).1
    rw [hf] at hfilled
    exact ⟨hfilled.discard (Nat.sub_le _ _), by simp⟩
  | case4 r r₁ hf hi hx hlast r₂ e hg =>
    have hfilled := (h.fill windowSize).1
    rw [hf] at hfilled
    obtain ⟨htracks, hin⟩ := hfilled.giveUp
    rw [hg] at htracks hin
    exact ⟨htracks, fun e' he => Option.some.inj he ▸ hin⟩
  | case5 r r₁ hf hi hx ih =>
    have hfilled := (h.fill windowSize).1
    rw [hf] at hfilled
    have hsize : Packet.size ≤ r₁.window.length := by
      have hreach := le_length_window_fill r windowSize
      rw [hf] at hreach
      exact Nat.le_trans (by decide) (hreach rfl (by simpa using hx))
    exact ih (hfilled.discard hsize)

/-- What is delivered is the part of the data at the offset of the reader. -/
def Delivery.IsIn (data : Bytes) (offset : Nat) : Delivery → Prop
  | packet _ bytes => bytes = (data.drop offset).take Packet.size
  | endOfData => True
  | error e => e.IsIn data

theorem Tracks.deliver (h : r.Tracks data) (hsize : Packet.size ≤ r.window.length)
    (notices : List Notice) :
    (r.deliver notices).1.Tracks data ∧
      (r.deliver notices).2.IsIn data (r.deliver notices).1.offset :=
  ⟨h, (h.take hsize).symm⟩

/-- Between two requests the reader tracks the data, and can drop the packet delivered last. -/
theorem Tracks.release (h : r.Tracks data) (hsound : Checked.Reader.Sound r) :
    r.release.Tracks data := by
  unfold PacketReader.release
  split
  · next hheld => exact h.discard (hsound.held hheld)
  · exact h

/-- **One request.**  Whatever the source does, what is delivered is where the reader says. -/
theorem tracks_next (h : r.Tracks data) (hsound : Checked.Reader.Sound r) :
    r.next.1.Tracks data ∧ r.next.2.IsIn data r.next.1.offset := by
  have hfilled := (h.release hsound).fill Packet.size
  unfold next
  revert hfilled
  generalize r.release.fill Packet.size = filled
  obtain ⟨r₁, e⟩ := filled
  rintro ⟨htracks, herror⟩
  cases e with
  | some e => exact ⟨htracks, herror e rfl⟩
  | none =>
    dsimp only
    split
    · exact ⟨htracks, trivial⟩
    · split
      · exact htracks.giveUp
      · next hlong =>
        split
        · exact htracks.deliver (Nat.not_lt.mp hlong) []
        · have hsearch := htracks.resync
          have hsize := size_le_length_window_resync r₁
          revert hsearch hsize
          generalize r₁.resync = searched
          obtain ⟨r₂, e⟩ := searched
          rintro ⟨hfound, herror⟩ hsize
          cases e with
          | some e => exact ⟨hfound, herror e rfl⟩
          | none => exact hfound.deliver (hsize rfl) _

/-- **All requests up to the end.**  Every packet is where it was found, and so is what is given
up. -/
theorem located_readAll_of_tracks {r : PacketReader} (h : r.Tracks data)
    (hsound : Checked.Reader.Sound r) :
    (∀ f ∈ r.readAll.1, f.IsIn data) ∧ ∀ e, r.readAll.2 = some e → e.IsIn data := by
  obtain ⟨htracks, hin⟩ := tracks_next h hsound
  have hnext := hsound.next.2
  match hreply : r.next with
  | (r', .packet notices bytes) =>
    have hless := ahead_next_lt hreply
    rw [hreply] at htracks hin hnext
    obtain ⟨hothers, hending⟩ := located_readAll_of_tracks htracks hnext
    rw [readAll_of_packet hreply]
    refine ⟨List.forall_mem_cons.mpr ⟨⟨hin, ?_⟩, hothers⟩, hending⟩
    exact Checked.Reader.exists_packet_of_next hreply
  | (r', .endOfData) =>
    rw [readAll_of_endOfData hreply]
    exact ⟨fun f hf => absurd hf List.not_mem_nil, fun e he => nomatch he⟩
  | (r', .error e) =>
    rw [hreply] at hin
    rw [readAll_of_error hreply]
    refine ⟨fun f hf => absurd hf List.not_mem_nil, fun e' he => ?_⟩
    exact Option.some.inj he ▸ hin
termination_by r.ahead

/-- What a new reader finds in a byte source, and what it gives up, is in the data of the source. -/
theorem located_readAll (source : ByteSource) :
    let (found, ending) := ({ source } : PacketReader).readAll
    (∀ f ∈ found, f.IsIn source.data) ∧ ∀ e, ending = some e → e.IsIn source.data :=
  located_readAll_of_tracks rfl ⟨Nat.zero_le _, fun hheld => nomatch hheld⟩

/-- The requests up to the first one without a packet give the packets that are read, and the last
one gives the ending. -/
theorem answers_readAll (r : PacketReader) :
    r.answers (r.readAll.1.length + 1) =
      r.readAll.1.map .packet ++ [Answer.ofEnding r.readAll.2] := by
  match hreply : r.next with
  | (r', .packet notices bytes) =>
    have hless := ahead_next_lt hreply
    have hanswer : r.nextAt = (r', .packet { offset := r'.offset, notices, bytes }) := by
      rw [nextAt, hreply]
    rw [readAll_of_packet hreply, List.length_cons, answers, hanswer]
    dsimp only
    rw [answers_readAll r']
    rfl
  | (r', .endOfData) =>
    have hanswer : r.nextAt = (r', .endOfData) := by rw [nextAt, hreply]
    rw [readAll_of_endOfData hreply, List.length_nil, answers, hanswer]
    rfl
  | (r', .error e) =>
    have hanswer : r.nextAt = (r', .error e) := by rw [nextAt, hreply]
    rw [readAll_of_error hreply, List.length_nil, answers, hanswer]
    rfl
termination_by r.ahead

end PacketReader

end TransportStream
