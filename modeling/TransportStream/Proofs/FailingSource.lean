import Mathlib.Data.List.Chain
import TransportStream.Proofs.PacketFraming

/-!
# Reading on after a failure of the source

A source can fail in the middle of its data.  Nothing that was read is lost by that, and whoever
asks for packets can ask again.  What the second request does not know is what the first one was
about: it starts where the first one has come to, as any request does.

## What a failure changes

Most of the time this is the same.  If the first request had dropped nothing, the second one starts
where the first one did.  If it was searching for packets and had found them again, the second one
finds a packet right away.  But the search drops one packet length after the other, and the source
can fail in between.  If the next byte happens to be a synchronisation byte, the search would have
asked for another one behind it, while the second request takes it for the start of a packet.  This
is the only thing that goes wrong (`Framing.answerAt_of_reaches`), and it does
(`Framing.answerAt_of_isLone`).

## The source without its failures

A request that does not fail has not met a failure, so it does what it does with the failures left
out of the source (`PacketReader.healed`), and that is known from undisturbed sources.  Only
requests that fail have to be followed step by step, and there it is enough to know where they have
come to.

* `Framing.Reaches`: the search from one position can have come to another one.
* `PacketReader.nextAt_healed`: a request that does not fail.
* `PacketReader.nextAt_of_failed`: a request that fails.
* `PacketReader.requests_resumed`: any number of requests.
* `PacketReader.requests_resumed_lone_byte`: a failure that does no harm, and one that does.
-/

namespace TransportStream

/-! ## Failures -/

/-- True of a step at which the source fails. -/
def ReadStep.isFailure : ReadStep → Bool
  | failure _ => true
  | _ => false

/-- The step gives some bytes, asks to be repeated, or fails.  It does not claim an end of the data
that is not there. -/
def ReadStep.IsHonest (step : ReadStep) : Prop :=
  step.isFailure = true ∨ step.IsCalm

/-- True of an answer that passes on a failure of the source. -/
def Answer.isFailure : Answer → Bool
  | error (.source _) => true
  | _ => false

/-- The answer without what was notable on the way to it. -/
def Answer.bare : Answer → Answer
  | packet f => packet { f with notices := [] }
  | other => other

/-- The source without its failures. -/
def ByteSource.healed (s : ByteSource) : ByteSource :=
  { s with steps := s.steps.filter fun step => !step.isFailure }

/-- The number of failures that are left. -/
def ByteSource.failures (s : ByteSource) : Nat :=
  s.steps.countP ReadStep.isFailure

namespace ByteSource

variable {s s' : ByteSource} {room : Nat} {result : ReadResult}

/-- A call that does not fail gives the same without the failures, and uses none of them up. -/
theorem read_healed (h : s.read room = (result, s')) (hok : ∀ message, result ≠ .failure message) :
    s.healed.read room = (result, s'.healed) ∧ s'.failures = s.failures := by
  obtain ⟨data, steps⟩ := s
  cases steps with
  | nil =>
    cases h
    exact ⟨rfl, rfl⟩
  | cons step rest =>
    cases step with
    | failure message =>
      cases h
      exact absurd rfl (hok message)
    | atMost count =>
      cases h
      exact ⟨rfl, rfl⟩
    | interrupted =>
      cases h
      exact ⟨rfl, rfl⟩
    | endOfData =>
      cases h
      exact ⟨rfl, rfl⟩

/-- A call that fails leaves the data as it is, and uses up one failure. -/
theorem read_failure {message : String} (h : s.read room = (.failure message, s')) :
    s'.healed = s.healed ∧ s'.failures + 1 = s.failures := by
  obtain ⟨data, steps⟩ := s
  cases steps with
  | nil => cases h
  | cons step rest =>
    cases step <;> cases h
    exact ⟨rfl, (List.countP_cons_of_pos (p := ReadStep.isFailure) rfl).symm⟩

end ByteSource

/-! ## Positions in front of which a search can fail -/

namespace Framing

open PacketReader

variable {data : Bytes} {p q : Nat}

/-- A search from `p` can have come to `q`: it has dropped whole packet lengths, or everything in
front of the packets that it has found again. -/
structure Passes (data : Bytes) (p q : Nat) : Prop where
  /-- The data is not read backwards. -/
  le : p ≤ q
  /-- What is dropped starts no packets. -/
  unaligned : ∀ i, p ≤ i → i < q → isAlignedAt data i = false
  /-- A packet length is left. -/
  room : q + Packet.size ≤ data.length
  /-- The packets that were found again start at `q`, or none were. -/
  step : Packet.size ∣ q - p ∨ isAlignedAt data q = true

/-- A request at `p` can have come to `q` when the source fails: it has dropped nothing, or it is a
search that has. -/
inductive Reaches (data : Bytes) (p : Nat) : Nat → Prop
  /-- Nothing has been dropped. -/
  | here : Reaches data p p
  /-- No packet starts at the position, so one is searched for. -/
  | search {q : Nat} (start : isSyncAt data p = false) (passes : Passes data p q) :
    Reaches data p q

/-- A synchronisation byte without anything that confirms it: there is none one packet length behind
it, and a packet that starts with it does not fill the rest of the data. -/
structure IsLone (data : Bytes) (q : Nat) : Prop where
  /-- It is a synchronisation byte. -/
  sync : isSyncAt data q = true
  /-- None confirms it. -/
  unaligned : isAlignedAt data q = false
  /-- The data does not end with the packet. -/
  inner : q + Packet.size ≠ data.length

instance : Decidable (IsLone data q) :=
  decidable_of_iff
    (isSyncAt data q = true ∧ isAlignedAt data q = false ∧ q + Packet.size ≠ data.length)
    ⟨fun ⟨sync, unaligned, inner⟩ => ⟨sync, unaligned, inner⟩,
      fun h => ⟨h.sync, h.unaligned, h.inner⟩⟩

theorem Passes.refl (hroom : p + Packet.size ≤ data.length) : Passes data p p :=
  ⟨Nat.le_refl p, fun _ hle hlt => absurd hle (Nat.not_le.mpr hlt), hroom,
    .inl ⟨0, Nat.sub_self p⟩⟩

/-- A search that drops a packet length can come to wherever it can come from there. -/
theorem Passes.drop (hpassed : ∀ i, p ≤ i → i < p + Packet.size → isAlignedAt data i = false)
    (h : Passes data (p + Packet.size) q) : Passes data p q := by
  have hle := h.le
  refine ⟨by omega, fun i hi hlt => ?_, h.room, h.step.imp_left ?_⟩
  · by_cases hpast : i < p + Packet.size
    · exact hpassed i hi hpast
    · exact h.unaligned i (by omega) hlt
  · rintro ⟨k, hk⟩
    refine ⟨k + 1, ?_⟩
    rw [Nat.mul_succ, ← hk]
    omega

/-- A last packet is found if the search gets to its start. -/
theorem recovered?_of_last (hsync : isSyncAt data q = true) (hend : q + Packet.size = data.length) :
    recovered? data q = some q := by
  have hnone : aligned? data q = none := by
    refine aligned?_eq_none_iff.mpr fun i hi => ?_
    have hbeyond : data[i + Packet.size]? = none := List.getElem?_eq_none (by omega)
    rw [PacketReader.isAlignedAt, PacketReader.isSyncAt, PacketReader.isSyncAt, hbeyond]
    exact Bool.and_false _
  rw [recovered?, hnone, Option.none_or, ← hend, Nat.add_sub_cancel, if_pos hsync]

theorem recovered?_of_isAlignedAt (h : isAlignedAt data q = true) :
    recovered? data q = some q := by
  have hfirst : aligned? data q = some q :=
    aligned?_eq_some_iff.mpr ⟨Nat.le_refl q, h, fun i hi hlt => absurd hi (Nat.not_le.mpr hlt)⟩
  rw [recovered?, hfirst, Option.some_or]

/-- A search that gives up, gives up at the same offset from wherever it goes on. -/
theorem lost_eq_of_dvd {length : Nat} (hle : p ≤ q) (hdvd : Packet.size ∣ q - p)
    (hroom : q + Packet.size ≤ length) : lost length q = lost length p := by
  obtain ⟨k, hk⟩ := hdvd
  obtain rfl : q = p + Packet.size * k := by omega
  simp only [lost, Packet.size] at *
  omega

/-- **Reading on.**  From wherever a request has come to, the answer is the one that it would have
given, unless it has come to a lone synchronisation byte. -/
theorem answerAt_of_reaches (h : Reaches data p q) (hlone : p < q → ¬ IsLone data q) :
    (answerAt data q).1.bare = (answerAt data p).1.bare ∧
      (answerAt data q).2 = (answerAt data p).2 := by
  cases h with
  | here => exact ⟨rfl, rfl⟩
  | search start passes =>
    have hle := passes.le
    have hroom := passes.room
    have hp : ¬ isSyncAt data p = true := Bool.eq_false_iff.mp start
    rw [answerAt_of_not_sync (by omega) hp, recovered?_eq_of_le hle passes.unaligned]
    by_cases hsync : isSyncAt data q = true
    · -- it starts a packet, as the search would have found
      have hlt : p < q := Nat.lt_of_le_of_ne hle fun heq => hp (heq ▸ hsync)
      have hfound : recovered? data q = some q := by
        by_cases haligned : isAlignedAt data q = true
        · exact recovered?_of_isAlignedAt haligned
        · refine recovered?_of_last hsync (Decidable.byContradiction fun hinner => ?_)
          exact hlone hlt ⟨hsync, Bool.eq_false_iff.mpr haligned, hinner⟩
      rw [answerAt_of_sync hroom hsync, hfound]
      exact ⟨rfl, rfl⟩
    · have hdvd : Packet.size ∣ q - p :=
        passes.step.resolve_right fun haligned => hsync (Bool.and_eq_true_iff.mp haligned).1
      rw [answerAt_of_not_sync hroom hsync]
      cases recovered? data q with
      | some offset => exact ⟨rfl, rfl⟩
      | none =>
        dsimp only
        rw [lost_eq_of_dvd hle hdvd hroom]
        exact ⟨rfl, rfl⟩

/-- So are all the answers after it. -/
theorem answers_of_reaches (h : Reaches data p q) (hlone : p < q → ¬ IsLone data q) (count : Nat) :
    (answers data q count).map Answer.bare = (answers data p count).map Answer.bare := by
  obtain ⟨hanswer, hnext⟩ := answerAt_of_reaches h hlone
  cases count with
  | zero => rfl
  | succ count => rw [answers, answers, List.map_cons, List.map_cons, hanswer, hnext]

/-- **Misled.**  A lone synchronisation byte that a search has come to is taken for the start of a
packet, where the search itself would have passed it. -/
theorem answerAt_of_isLone (h : Reaches data p q) (hlt : p < q) (hlone : IsLone data q) :
    answerAt data q = (.packet (found data q q), q + Packet.size) ∧
      ∀ f, (answerAt data p).1 = .packet f → f.offset ≠ q := by
  cases h with
  | here => exact absurd hlt (Nat.lt_irrefl p)
  | search start passes =>
    have hroom := passes.room
    have hp : ¬ isSyncAt data p = true := Bool.eq_false_iff.mp start
    refine ⟨answerAt_of_sync hroom hlone.sync, fun f hf heq => ?_⟩
    rw [answerAt_of_not_sync (by omega) hp, recovered?_eq_of_le passes.le passes.unaligned] at hf
    cases hrecovered : recovered? data q with
    | none =>
      rw [hrecovered] at hf
      cases hf
    | some offset =>
      rw [hrecovered] at hf
      cases hf
      obtain rfl : offset = q := heq
      rw [recovered?, Option.or_eq_some_iff] at hrecovered
      rcases hrecovered with haligned | ⟨-, hlast⟩
      · cases hlone.unaligned.symm.trans (aligned?_eq_some_iff.mp haligned).2.1
      · split at hlast
        · have hend := Option.some.inj hlast
          exact hlone.inner (by omega)
        · cases hlast

end Framing

/-! ## The reader -/

namespace PacketReader

open Framing

variable {data : Bytes} {p : Nat} {r r' : PacketReader}

/-- The reader, with a source that does not fail. -/
def healed (r : PacketReader) : PacketReader :=
  { r with source := r.source.healed }

theorem release_healed (r : PacketReader) : r.healed.release = r.release.healed := by
  unfold release healed
  dsimp only
  split <;> rfl

/-! ### Filling the window -/

section

variable {target : Nat} (hmore : ¬ (r.exhausted = true ∨ target ≤ r.window.length))
  {source : ByteSource}

include hmore

theorem fill_of_bytes {portion : Bytes} {b : UInt8}
    (hread : r.source.read (target - r.window.length) = (.bytes (b :: portion), source)) :
    r.fill target = fill { r with source, window := r.window ++ b :: portion } target := by
  rw [fill, if_neg hmore]
  split <;> simp_all

theorem fill_of_end
    (hread : r.source.read (target - r.window.length) = (.bytes [], source)) :
    r.fill target = ({ r with source, exhausted := true }, none) := by
  rw [fill, if_neg hmore]
  split <;> simp_all

theorem fill_of_interrupted
    (hread : r.source.read (target - r.window.length) = (.interrupted, source)) :
    r.fill target = fill { r with source } target := by
  rw [fill, if_neg hmore]
  split <;> simp_all

end

theorem source_release (r : PacketReader) : r.release.source = r.source := by
  unfold release
  split <;> rfl

/-- Filling the window without a failure does the same without any failures. -/
theorem fill_healed {target : Nat} (hf : r.fill target = (r', none)) :
    r.healed.fill target = (r'.healed, none) ∧ r'.source.failures = r.source.failures := by
  fun_induction fill r target with
  | case1 r hdone =>
    obtain ⟨rfl, -⟩ := Prod.mk.inj hf
    exact ⟨by rw [fill]; exact if_pos hdone, rfl⟩
  | case2 r hmore source hread =>
    obtain ⟨rfl, -⟩ := Prod.mk.inj hf
    obtain ⟨hhealed, hfailures⟩ := ByteSource.read_healed hread (by simp)
    exact ⟨fill_of_end (r := r.healed) hmore hhealed, hfailures⟩
  | case3 r hmore b portion source hread ih =>
    obtain ⟨hhealed, hfailures⟩ := ByteSource.read_healed hread (by simp)
    obtain ⟨hrest, hleft⟩ := ih hf
    exact ⟨(fill_of_bytes (r := r.healed) hmore hhealed).trans hrest, hleft.trans hfailures⟩
  | case4 r hmore source hread ih =>
    obtain ⟨hhealed, hfailures⟩ := ByteSource.read_healed hread (by simp)
    obtain ⟨hrest, hleft⟩ := ih hf
    exact ⟨(fill_of_interrupted (r := r.healed) hmore hhealed).trans hrest, hleft.trans hfailures⟩
  | case5 r hmore message source hread => cases hf

/-- A call of the source moves bytes into the window, or leaves all of them where they are. -/
theorem Stands.of_read (h : r.healed.Stands data p) (hopen : ¬ r.exhausted = true)
    (window : Bytes) {source : ByteSource} {room : Nat} {result : ReadResult}
    (hread : r.source.read room = (result, source))
    (hbytes : window ++ source.data = r.window ++ r.source.data) :
    ({ r with source, window } : PacketReader).healed.Stands data p := by
  have hsteps := ByteSource.steps_of_read hread
  refine ⟨⟨fun step hstep => ?_, fun hx => absurd hx hopen⟩, fun hx => absurd hx hopen,
    hbytes.trans h.bytes, h.offset, h.free⟩
  obtain ⟨hmem, hkept⟩ := List.mem_filter.mp hstep
  rw [hsteps] at hmem
  exact h.calm.steps step (List.mem_filter.mpr ⟨List.mem_of_mem_tail hmem, hkept⟩)

/-- Nothing but a failure of the source keeps the window from being filled. -/
theorem exists_message_of_fill {target : Nat} {e : SyncError} (hf : r.fill target = (r', some e)) :
    ∃ message, e = .source message := by
  fun_induction fill r target with
  | case1 => cases hf
  | case2 => cases hf
  | case3 r hmore b portion source hread ih => exact ih hf
  | case4 r hmore source hread ih => exact ih hf
  | case5 r hmore message source hread =>
    exact ⟨message, (Option.some.inj (Prod.mk.inj hf).2).symm⟩

/-- A failure leaves the reader where it was, and is used up. -/
theorem fill_of_failed {target : Nat} {e : SyncError} (h : r.healed.Stands data p)
    (hf : r.fill target = (r', some e)) :
    r'.healed.Stands data p ∧ r'.source.failures + 1 = r.source.failures := by
  fun_induction fill r target with
  | case1 => cases hf
  | case2 => cases hf
  | case3 r hmore b portion source hread ih =>
    have hbytes := ByteSource.append_data_of_read hread
    have hnext := h.of_read (fun hx => hmore (.inl hx)) (r.window ++ b :: portion) hread
      (by rw [List.append_assoc, hbytes])
    obtain ⟨hstands, hleft⟩ := ih hnext hf
    exact ⟨hstands, hleft.trans (ByteSource.read_healed hread (by simp)).2⟩
  | case4 r hmore source hread ih =>
    have hnext := h.of_read (fun hx => hmore (.inl hx)) r.window hread
      (by rw [ByteSource.data_of_read_interrupted hread])
    obtain ⟨hstands, hleft⟩ := ih hnext hf
    exact ⟨hstands, hleft.trans (ByteSource.read_healed hread (by simp)).2⟩
  | case5 r hmore message source hread =>
    obtain ⟨rfl, -⟩ := Prod.mk.inj hf
    refine ⟨?_, (ByteSource.read_failure hread).2⟩
    exact h.of_read (fun hx => hmore (.inl hx)) r.window hread
      (by rw [ByteSource.data_of_read_failure hread])

/-! ### The search -/

theorem window_healed (r : PacketReader) : r.healed.window = r.window :=
  rfl

theorem discard_healed (r : PacketReader) (count : Nat) :
    r.healed.discard count = (r.discard count).healed :=
  rfl

theorem source_discard (r : PacketReader) (count : Nat) : (r.discard count).source = r.source :=
  rfl

section

variable {r₁ : PacketReader} (hf : r.fill windowSize = (r₁, none))

include hf

theorem resync_of_aligned {i : Nat} (hi : alignment? r₁.window = some i) :
    r.resync = (r₁.discard i).fill windowSize := by
  rw [resync]
  split <;> simp_all

theorem resync_of_exhausted (hi : alignment? r₁.window = none) (hx : r₁.exhausted = true) :
    r.resync =
      if Packet.size ≤ r₁.window.length ∧ isSyncAt r₁.window (r₁.window.length - Packet.size) then
        (r₁.discard (r₁.window.length - Packet.size), none)
      else (r₁.discard r₁.window.length, some (.syncLost r₁.offset r₁.window)) := by
  rw [resync]
  split <;> simp_all [giveUp]

theorem resync_of_more (hi : alignment? r₁.window = none) (hx : ¬ r₁.exhausted = true) :
    r.resync = (r₁.discard Packet.size).resync := by
  rw [resync]
  split <;> simp_all

end

/-- A search without a failure does the same without any failures. -/
theorem resync_healed {e : Option SyncError} (hok : ∀ message, e ≠ some (.source message))
    (hr : r.resync = (r', e)) :
    r.healed.resync = (r'.healed, e) ∧ r'.source.failures = r.source.failures := by
  fun_induction resync r with
  | case1 r r₁ e₁ hf =>
    obtain ⟨message, rfl⟩ := exists_message_of_fill hf
    exact absurd (Prod.mk.inj hr).2.symm (hok message)
  | case2 r r₁ hf i hi =>
    obtain ⟨hfirst, hleft⟩ := fill_healed hf
    cases e with
    | some e =>
      obtain ⟨message, rfl⟩ := exists_message_of_fill hr
      exact absurd rfl (hok message)
    | none =>
      obtain ⟨hsecond, hleft'⟩ := fill_healed hr
      exact ⟨(resync_of_aligned hfirst hi).trans hsecond, hleft'.trans hleft⟩
  | case3 r r₁ hf hi hx ht =>
    obtain ⟨hfirst, hleft⟩ := fill_healed hf
    obtain ⟨rfl, rfl⟩ := Prod.mk.inj hr
    rw [resync_of_exhausted hfirst hi hx, window_healed, if_pos ht, discard_healed, source_discard]
    exact ⟨rfl, hleft⟩
  | case4 r r₁ hf hi hx ht r₂ e₂ hg =>
    obtain ⟨hfirst, hleft⟩ := fill_healed hf
    obtain ⟨rfl, rfl⟩ := Prod.mk.inj hg
    obtain ⟨rfl, rfl⟩ := Prod.mk.inj hr
    rw [resync_of_exhausted hfirst hi hx, window_healed, if_neg ht, discard_healed, source_discard]
    exact ⟨rfl, hleft⟩
  | case5 r r₁ hf hi hx ih =>
    obtain ⟨hfirst, hleft⟩ := fill_healed hf
    obtain ⟨hrest, hleft'⟩ := ih hr
    exact ⟨(resync_of_more hfirst hi hx).trans hrest, hleft'.trans hleft⟩

/-- A search that fails has come to some position, and the failure is used up. -/
theorem resync_of_failed {message : String} (h : r.healed.Stands data p)
    (hp : p + Packet.size ≤ data.length) (hr : r.resync = (r', some (.source message))) :
    (∃ q, Passes data p q ∧ r'.healed.Stands data q) ∧
      r'.source.failures + 1 = r.source.failures := by
  have hfull := Nat.le_refl windowSize
  fun_induction resync r generalizing p with
  | case1 r r₁ e₁ hf =>
    obtain ⟨rfl, -⟩ := Prod.mk.inj hr
    obtain ⟨hstands, hleft⟩ := fill_of_failed h hf
    exact ⟨⟨p, .refl hp, hstands⟩, hleft⟩
  | case2 r r₁ hf i hi =>
    -- packets have been found again, and the failure comes while the window is topped up
    obtain ⟨hfirst, hleft⟩ := fill_healed hf
    obtain ⟨-, hstands, -⟩ := h.of_fill hfull hfirst
    have haligned := (alignment?_eq_some_iff.mp hi).2.1
    have hlength := lt_length_of_isSyncAt (Bool.and_eq_true_iff.mp haligned).2
    obtain ⟨hstands', hleft'⟩ :=
      fill_of_failed (hstands.discard (by show i ≤ r₁.window.length; omega)) hr
    obtain ⟨hle, hat, hbefore⟩ := aligned?_eq_some_iff.mp (hstands.aligned?_of_alignment? hi)
    have hroom := lt_length_of_isSyncAt (Bool.and_eq_true_iff.mp hat).2
    exact ⟨⟨p + i, ⟨hle, hbefore, Nat.le_of_lt hroom, .inr hat⟩, hstands'⟩, hleft'.trans hleft⟩
  | case3 r r₁ hf hi hx ht => cases (Prod.mk.inj hr).2
  | case4 r r₁ hf hi hx ht r₂ e₂ hg =>
    obtain ⟨rfl, rfl⟩ := Prod.mk.inj hg
    cases (Prod.mk.inj hr).2
  | case5 r r₁ hf hi hx ih =>
    obtain ⟨hfirst, hleft⟩ := fill_healed hf
    obtain ⟨-, hstands, hreach⟩ := h.of_fill hfull hfirst
    have hlong : windowSize ≤ r₁.window.length := hreach.resolve_left hx
    have hwindow : windowSize = Packet.size + Packet.size := rfl
    have hlength : r₁.window.length + _ = data.length - p := hstands.length
    obtain ⟨⟨q, hpasses, hstands'⟩, hleft'⟩ :=
      ih (hstands.discard (by show Packet.size ≤ r₁.window.length; omega)) (by omega) hr
    exact ⟨⟨q, hpasses.drop (hstands.not_aligned hi (.inl hlong)), hstands'⟩, hleft'.trans hleft⟩

/-! ### Requests -/

theorem nextAt_of_unfilled {r₁ : PacketReader} {e : SyncError}
    (hf : r.release.fill Packet.size = (r₁, some e)) : r.nextAt = (r₁, .error e) := by
  unfold nextAt next
  rw [hf]

theorem nextAt_of_filled {r₁ : PacketReader} (hf : r.release.fill Packet.size = (r₁, none)) :
    r.nextAt =
      if r₁.window.isEmpty then (r₁, .endOfData)
      else if r₁.window.length < Packet.size then
        (r₁.discard r₁.window.length, .error (.syncLost r₁.offset r₁.window))
      else if isSyncAt r₁.window 0 then
        ({ r₁ with held := true },
          .packet { offset := r₁.offset, notices := [], bytes := r₁.window.take Packet.size })
      else
        match r₁.resync with
        | (r₂, some e) => (r₂, .error e)
        | (r₂, none) => ({ r₂ with held := true }, .packet {
            offset := r₂.offset
            notices := [.resynchronised r₂.offset (r₂.offset - r₁.offset)]
            bytes := r₂.window.take Packet.size }) := by
  unfold nextAt next
  rw [hf]
  dsimp only
  by_cases hempty : r₁.window.isEmpty = true
  · rw [if_pos hempty, if_pos hempty]
  · rw [if_neg hempty, if_neg hempty]
    by_cases hshort : r₁.window.length < Packet.size
    · rw [if_pos hshort, if_pos hshort]
      rfl
    · rw [if_neg hshort, if_neg hshort]
      by_cases hsync : isSyncAt r₁.window 0 = true
      · rw [if_pos hsync, if_pos hsync]
        rfl
      · rw [if_neg hsync, if_neg hsync]
        generalize r₁.resync = searched
        obtain ⟨r₂, e⟩ := searched
        cases e <;> rfl

/-- A request that does not fail gives the same answer without any failures. -/
theorem nextAt_healed (hok : r.nextAt.2.isFailure = false) :
    r.healed.nextAt = (r.nextAt.1.healed, r.nextAt.2) ∧
      r.nextAt.1.source.failures = r.source.failures := by
  match hf : r.release.fill Packet.size with
  | (r₁, some e) =>
    obtain ⟨message, rfl⟩ := exists_message_of_fill hf
    rw [nextAt_of_unfilled hf] at hok
    cases hok
  | (r₁, none) =>
    obtain ⟨hfirst, hleft⟩ := fill_healed hf
    rw [← release_healed] at hfirst
    rw [source_release] at hleft
    rw [nextAt_of_filled hf] at hok ⊢
    rw [nextAt_of_filled hfirst, window_healed]
    split
    · exact ⟨rfl, hleft⟩
    · split
      · rw [discard_healed, source_discard]
        exact ⟨rfl, hleft⟩
      · split
        · exact ⟨rfl, hleft⟩
        · next hempty hlong hsync =>
          rw [if_neg hempty, if_neg hlong, if_neg hsync] at hok
          match hr : r₁.resync with
          | (r₂, e) =>
            rw [hr] at hok
            have hcause : ∀ message, e ≠ some (.source message) := by
              rintro message rfl
              cases hok
            obtain ⟨hsearch, hleft'⟩ := resync_healed hcause hr
            rw [hsearch]
            cases e <;> exact ⟨rfl, hleft'.trans hleft⟩

/-- A request that fails has come to some position, and the failure is used up. -/
theorem nextAt_of_failed (h : r.release.healed.Stands data p)
    (hfailed : r.nextAt.2.isFailure = true) :
    (∃ q, Reaches data p q ∧ r.nextAt.1.release.healed.Stands data q) ∧
      r.nextAt.1.source.failures + 1 = r.source.failures := by
  match hf : r.release.fill Packet.size with
  | (r₁, some e) =>
    obtain ⟨hstands, hleft⟩ := fill_of_failed h hf
    rw [source_release] at hleft
    rw [nextAt_of_unfilled hf, ← release_healed]
    exact ⟨⟨p, .here, hstands.release⟩, hleft⟩
  | (r₁, none) =>
    obtain ⟨hfirst, hleft⟩ := fill_healed hf
    rw [source_release] at hleft
    obtain ⟨-, hstands, -⟩ := h.of_fill (by decide : Packet.size ≤ windowSize) hfirst
    rw [nextAt_of_filled hf] at hfailed ⊢
    by_cases hempty : r₁.window.isEmpty = true
    · rw [if_pos hempty] at hfailed
      cases hfailed
    · by_cases hshort : r₁.window.length < Packet.size
      · rw [if_neg hempty, if_pos hshort] at hfailed
        cases hfailed
      · by_cases hsync : isSyncAt r₁.window 0 = true
        · rw [if_neg hempty, if_neg hshort, if_pos hsync] at hfailed
          cases hfailed
        · rw [if_neg hempty, if_neg hshort, if_neg hsync] at hfailed ⊢
          match hr : r₁.resync with
          | (r₂, none) =>
            rw [hr] at hfailed
            cases hfailed
          | (r₂, some (.syncLost offset residual)) =>
            rw [hr] at hfailed
            cases hfailed
          | (r₂, some (.source message)) =>
            have hsize : 0 < Packet.size := by decide
            have hlength : r₁.window.length + _ = data.length - p := hstands.length
            have hstart : PacketReader.isSyncAt data p = false := by
              have hfront : PacketReader.isSyncAt r₁.window 0 = _ :=
                hstands.isSyncAt (i := 0) (.inl (by show 0 < r₁.window.length; omega))
              rw [← Nat.add_zero p, ← hfront]
              exact Bool.eq_false_iff.mpr hsync
            obtain ⟨⟨q, hpasses, hstands'⟩, hleft'⟩ := resync_of_failed hstands (by omega) hr
            refine ⟨⟨q, .search hstart hpasses, ?_⟩, hleft'.trans hleft⟩
            rw [← release_healed]
            exact hstands'.release

/-! ### Any number of requests -/

/-- A request for a packet: where the reader stood, what it answered, and where it stands now. -/
structure Request where
  /-- The position before. -/
  start : Nat
  /-- The answer. -/
  answer : Answer
  /-- The position after. -/
  stop : Nat
  deriving DecidableEq

namespace Request

/-- The source failed, so there is no answer about the data. -/
def failed (x : Request) : Bool :=
  x.answer.isFailure

/-- The source failed where the next request is misled: in front of a lone synchronisation byte that
a search has come to. -/
structure Misleads (data : Bytes) (x : Request) : Prop where
  /-- The source failed. -/
  failed : x.failed = true
  /-- Something had been dropped. -/
  dropped : x.start < x.stop
  /-- The next byte looks like the start of a packet. -/
  lone : IsLone data x.stop

instance (data : Bytes) (x : Request) : Decidable (x.Misleads data) :=
  decidable_of_iff (x.failed = true ∧ x.start < x.stop ∧ IsLone data x.stop)
    ⟨fun ⟨failed, dropped, lone⟩ => ⟨failed, dropped, lone⟩,
      fun h => ⟨h.failed, h.dropped, h.lone⟩⟩

end Request

/-- As many requests, one after the other. -/
def requests (r : PacketReader) : Nat → List Request
  | 0 => []
  | count + 1 =>
    { start := r.position, answer := r.nextAt.2, stop := r.nextAt.1.position } ::
      r.nextAt.1.requests count

/-- The answers of the requests that did not fail. -/
def properAnswers (requests : List Request) : List Answer :=
  (requests.filter fun x => !x.failed).map (·.answer)

/-- The requests give the answers of the reader. -/
theorem map_answer_requests (r : PacketReader) (count : Nat) :
    (r.requests count).map (·.answer) = r.answers count := by
  induction count generalizing r with
  | zero => rfl
  | succ count ih => rw [requests, answers, List.map_cons, ih]

/-- What is known of a request. -/
structure Request.IsFramed (data : Bytes) (x : Request) : Prop where
  /-- If it does not fail, it gives the answer at its position. -/
  answered : x.failed = false → (x.answer, x.stop) = answerAt data x.start
  /-- If it fails, it has come to some position. -/
  stopped : x.failed = true → Reaches data x.start x.stop

theorem Stands.position (h : r.release.healed.Stands data p) : r.position = p :=
  h.offset

/-- **One request.** -/
theorem isFramed_nextAt (h : r.release.healed.Stands data p) (hp : p ≤ data.length) :
    Request.IsFramed data ⟨p, r.nextAt.2, r.nextAt.1.position⟩ ∧
      r.nextAt.1.release.healed.Stands data r.nextAt.1.position ∧
      r.nextAt.1.position ≤ data.length := by
  cases hfailed : r.nextAt.2.isFailure with
  | true =>
    obtain ⟨⟨q, hreaches, hstands⟩, -⟩ := nextAt_of_failed h hfailed
    have hq : q ≤ data.length := by
      cases hreaches with
      | here => exact hp
      | search start passes => exact Nat.le_trans (Nat.le_add_right q _) passes.room
    have hproper : ¬ r.nextAt.2.isFailure = false := Bool.not_eq_false _ ▸ hfailed
    rw [hstands.position]
    exact ⟨⟨fun hok => absurd hok hproper, fun _ => hreaches⟩, hstands, hq⟩
  | false =>
    have hhealed := (nextAt_healed hfailed).1
    rw [← release_healed] at h
    obtain ⟨hanswer, hstands, hnext⟩ := nextAt_of_stands h hp
    rw [hhealed] at hanswer hstands
    rw [release_healed] at hstands
    have hproper : ¬ r.nextAt.2.isFailure = true := Bool.eq_false_iff.mp hfailed
    rw [hstands.position]
    exact ⟨⟨fun _ => Prod.ext hanswer rfl, fun hfails => absurd hfails hproper⟩, hstands, hnext⟩

/-- Each request starts where the one before it has come to. -/
theorem isChain_requests (r : PacketReader) (count : Nat) :
    (r.requests count).IsChain fun x y => y.start = x.stop := by
  induction count generalizing r with
  | zero => exact .nil
  | succ count ih =>
    refine List.isChain_cons.mpr ⟨fun y hy => ?_, ih r.nextAt.1⟩
    cases count with
    | zero => cases hy
    | succ count =>
      cases hy
      rfl

/-- **Any number of requests.** -/
theorem isFramed_requests (h : r.release.healed.Stands data p) (hp : p ≤ data.length)
    (count : Nat) : ∀ x ∈ r.requests count, x.IsFramed data := by
  induction count generalizing r p with
  | zero => exact fun x hx => absurd hx List.not_mem_nil
  | succ count ih =>
    obtain ⟨hframed, hstands, hnext⟩ := isFramed_nextAt h hp
    rw [← h.position] at hframed
    exact List.forall_mem_cons.mpr ⟨hframed, ih hstands hnext⟩

/-- Each request that fails uses up a failure of the source. -/
theorem length_failed_le (h : r.release.healed.Stands data p) (hp : p ≤ data.length)
    (count : Nat) : ((r.requests count).filter Request.failed).length ≤ r.source.failures := by
  induction count generalizing r p with
  | zero => exact Nat.zero_le _
  | succ count ih =>
    obtain ⟨-, hstands, hnext⟩ := isFramed_nextAt h hp
    have hrest := ih hstands hnext
    rw [requests]
    cases hfailed : Request.failed ⟨r.position, r.nextAt.2, r.nextAt.1.position⟩ with
    | true =>
      have hleft := (nextAt_of_failed h hfailed).2
      rw [List.filter_cons_of_pos hfailed, List.length_cons]
      omega
    | false =>
      have hleft := (nextAt_healed hfailed).2
      rw [List.filter_cons_of_neg (Bool.eq_false_iff.mp hfailed)]
      omega

/-- Unless a request is misled, the answers are those of an undisturbed source. -/
theorem properAnswers_of_not_misled (h : r.release.healed.Stands data p) (hp : p ≤ data.length)
    {count : Nat} (hmisled : ∀ x ∈ r.requests count, ¬ x.Misleads data) :
    (properAnswers (r.requests count)).map Answer.bare =
      (Framing.answers data p (properAnswers (r.requests count)).length).map Answer.bare := by
  induction count generalizing r p with
  | zero => rfl
  | succ count ih =>
    obtain ⟨hframed, hstands, hnext⟩ := isFramed_nextAt h hp
    obtain ⟨hfirst, hothers⟩ := List.forall_mem_cons.mp hmisled
    rw [h.position] at hfirst
    have hrest := ih hstands hnext hothers
    rw [requests, properAnswers]
    cases hfailed : Request.failed ⟨r.position, r.nextAt.2, r.nextAt.1.position⟩ with
    | true =>
      rw [List.filter_cons_of_neg (by rw [hfailed]; decide)]
      exact hrest.trans (answers_of_reaches (hframed.stopped hfailed)
        (fun hlt hlone => hfirst ⟨hfailed, hlt, hlone⟩) _)
    | false =>
      have hanswer : r.nextAt.2 = (answerAt data p).1 :=
        congrArg Prod.fst (hframed.answered hfailed)
      have hstop : r.nextAt.1.position = (answerAt data p).2 :=
        congrArg Prod.snd (hframed.answered hfailed)
      rw [List.filter_cons_of_pos (by rw [hfailed]; rfl), List.map_cons, List.length_cons,
        Framing.answers, List.map_cons, List.map_cons, ← hanswer, ← hstop]
      exact congrArg _ hrest

/-- **Reading on after failures.**  There are no more failed requests than failures.  All others
give the answers of a source that never fails, unless a request fails in front of a lone
synchronisation byte that its search has come to.  There the reader goes on with a packet that the
search would have passed. -/
theorem requests_resumed (data : Bytes) {steps : List ReadStep}
    (h : ∀ step ∈ steps, step.IsHonest) (count : Nat) :
    let reader : PacketReader := { source := { data, steps } }
    let undisturbed : PacketReader := { source := { data } }
    let requests := reader.requests count
    let proper := properAnswers requests
    requests.map (·.answer) = reader.answers count ∧
      (requests.filter Request.failed).length ≤ steps.countP ReadStep.isFailure ∧
      ((∀ x ∈ requests, ¬ x.Misleads data) →
        proper.map Answer.bare = (undisturbed.answers proper.length).map Answer.bare) ∧
      requests.IsChain (fun x y => y.start = x.stop) ∧
      ∀ x ∈ requests, x.IsFramed data ∧ (x.Misleads data →
        answerAt data x.stop = (.packet (found data x.stop x.stop), x.stop + Packet.size) ∧
          ∀ f, (answerAt data x.start).1 = .packet f → f.offset ≠ x.stop) := by
  intro reader undisturbed requests proper
  have hcalm : ∀ step ∈ steps.filter (fun step => !step.isFailure), step.IsCalm := by
    intro step hstep
    obtain ⟨hmem, hkept⟩ := List.mem_filter.mp hstep
    refine (h step hmem).resolve_left fun hfails => ?_
    rw [hfails] at hkept
    cases hkept
  have hstands : reader.release.healed.Stands data 0 :=
    ⟨⟨hcalm, fun hx => absurd hx Bool.false_ne_true⟩, fun hx => absurd hx Bool.false_ne_true,
      rfl, rfl, rfl⟩
  have hzero : 0 ≤ data.length := Nat.zero_le _
  have hframed := isFramed_requests hstands hzero count
  have hplain : ∀ n, undisturbed.answers n = Framing.answers data 0 n := fun n =>
    (answers_framed data (fun step hstep => absurd hstep List.not_mem_nil) n).1
  refine ⟨map_answer_requests reader count, length_failed_le hstands hzero count, fun hmisled => ?_,
    isChain_requests reader count, fun x hx => ⟨hframed x hx, fun hmisleads => ?_⟩⟩
  · rw [hplain]
    exact properAnswers_of_not_misled hstands hzero hmisled
  · exact answerAt_of_isLone ((hframed x hx).stopped hmisleads.failed) hmisleads.dropped
      hmisleads.lone

/-- One packet length of garbage, and behind it a lone synchronisation byte.  A source that fails
before anything is dropped does no harm.  One that fails behind the garbage has the reader take that
byte for the start of a packet. -/
theorem requests_resumed_lone_byte :
    let data : Bytes := List.replicate 188 0 ++ 0x47 :: List.replicate 375 0
    let early : List ReadStep := [.atMost 188, .failure "reset"]
    let late : List ReadStep := [.atMost 188, .atMost 188, .failure "reset"]
    let reader (steps : List ReadStep) : PacketReader := { source := { data, steps } }
    (∀ step ∈ early, step.IsHonest) ∧ (∀ step ∈ late, step.IsHonest) ∧
      (∀ x ∈ (reader early).requests 3, ¬ x.Misleads data) ∧
      (reader []).answers 2 = [.error (.syncLost 376 (List.replicate 188 0)), .endOfData] ∧
      (reader early).answers 3 = [.error (.source "reset"),
        .error (.syncLost 376 (List.replicate 188 0)), .endOfData] ∧
      (reader late).answers 3 = [.error (.source "reset"),
        .packet { offset := 188, notices := [], bytes := 0x47 :: List.replicate 187 0 },
        .error (.syncLost 376 (List.replicate 188 0))] := by
  intro data early late reader
  have hearly : ∀ step ∈ early, step.IsHonest := by
    simp [early, ReadStep.IsHonest, ReadStep.isFailure, ReadStep.IsCalm]
  have hlate : ∀ step ∈ late, step.IsHonest := by
    simp [late, ReadStep.IsHonest, ReadStep.isFailure, ReadStep.IsCalm]
  have hkept : ∀ x ∈ (reader early).requests 3, ¬ x.Misleads data := by decide +kernel
  refine ⟨hearly, hlate, hkept, by decide +kernel, ?_, ?_⟩
  · exact (requests_resumed data hearly 3).1.symm.trans (by decide +kernel)
  · exact (requests_resumed data hlate 3).1.symm.trans (by decide +kernel)

end PacketReader

end TransportStream
