import TransportStream.Proofs.IntactPackets

/-!
# Losses that the counters tell of

Packets get lost on the way, any number of them in any places.  The counters of those that arrive
tell of a loss, unless the number of packets lost in a row is a multiple of sixteen, which looks
like none, or one less than that, which looks like a repetition.

What was sent is a list of packets, of which each says whether it gets lost.  The numbering and the
losses are properties of that list; a receiver has the packets that arrive, and can only compare the
counter of one with that of the one before.

* `IsNumbered`, `HasDetectableLosses`: the properties of what was sent.
* `Shows`: what a receiver has to go by.  After a loss the next packet that arrives has neither the
  counter of the last one nor the one after it.
* `shows_of_isNumbered`: the one follows from the other.
-/

namespace TransportStream

variable {pid : Pid}

/-! ## Packets on their way -/

/-- A packet with a payload that announces no jump of its counter.  It may get lost. -/
structure SentPacket (pid : Pid) extends IntactPacket pid where
  /-- It does not arrive. -/
  lost : Bool
  /-- No jump of the counter is announced. -/
  discontinuity_eq : packet.discontinuity = false

/-- The packets that arrive. -/
def arrivals (packets : List (SentPacket pid)) : List (IntactPacket pid) :=
  (packets.filter fun p => !p.lost).map SentPacket.toIntactPacket

theorem arrivals_cons_lost {p : SentPacket pid} (h : p.lost = true) (ps : List (SentPacket pid)) :
    arrivals (p :: ps) = arrivals ps := by
  simp [arrivals, h]

theorem arrivals_cons_arrived {p : SentPacket pid} (h : p.lost = false)
    (ps : List (SentPacket pid)) :
    arrivals (p :: ps) = p.toIntactPacket :: arrivals ps := by
  simp [arrivals, h]

theorem arrivals_append (ps qs : List (SentPacket pid)) :
    arrivals (ps ++ qs) = arrivals ps ++ arrivals qs := by
  rw [arrivals, List.filter_append, List.map_append]
  rfl

/-! ## What the counters tell -/

/-- Each packet has the counter after that of the packet before it. -/
def IsNumbered (packets : List (SentPacket pid)) : Prop :=
  ∀ before p q after, packets = before ++ p :: q :: after →
    q.packet.counter.follows p.packet.counter = true

/-- Between two packets that arrive, neither a multiple of sixteen is lost in a row, nor one
less. -/
def HasDetectableLosses (packets : List (SentPacket pid)) : Prop :=
  ∀ before p block q after, packets = before ++ p :: (block ++ q :: after) →
    p.lost = false → q.lost = false → block ≠ [] → (∀ x ∈ block, x.lost = true) →
    block.length % 16 ≠ 0 ∧ block.length % 16 ≠ 15

/-- The counter is as it has to be after that of the last packet that has arrived, if there is one:
the next one, unless something is missing; otherwise neither that nor the same one. -/
def Tells (last : Option ContinuityCounter) (missing : Bool) (c : ContinuityCounter) : Prop :=
  ∀ l ∈ last, if missing then c ≠ l ∧ c.follows l = false else c.follows l = true

/-- The counters of the packets that arrive tell what is missing. -/
def Shows (last : Option ContinuityCounter) (missing : Bool) : List (SentPacket pid) → Prop
  | [] => True
  | p :: ps =>
    if p.lost then Shows last true ps
    else Tells last missing p.packet.counter ∧ Shows (some p.packet.counter) false ps

theorem shows_cons_lost {last : Option ContinuityCounter} {missing : Bool} {p : SentPacket pid}
    (h : p.lost = true) (ps : List (SentPacket pid)) :
    Shows last missing (p :: ps) ↔ Shows last true ps := by
  rw [Shows, if_pos h]

theorem shows_cons_arrived {last : Option ContinuityCounter} {missing : Bool}
    {p : SentPacket pid} (h : p.lost = false) (ps : List (SentPacket pid)) :
    Shows last missing (p :: ps) ↔
      Tells last missing p.packet.counter ∧ Shows (some p.packet.counter) false ps := by
  rw [Shows, if_neg (by rw [h]; exact Bool.false_ne_true)]

variable {p q : SentPacket pid} {block rest packets : List (SentPacket pid)}

theorem IsNumbered.of_append (front : List (SentPacket pid)) (h : IsNumbered (front ++ rest)) :
    IsNumbered rest := by
  intro before p q after heq
  exact h (front ++ before) p q after (by rw [heq, List.append_assoc])

theorem HasDetectableLosses.of_append (front : List (SentPacket pid))
    (h : HasDetectableLosses (front ++ rest)) : HasDetectableLosses rest := by
  intro before p lost q after heq
  exact h (front ++ before) p lost q after (by rw [heq, List.append_assoc])

/-- Numbers go on if they do so at the first packet. -/
theorem isNumbered_cons
    (hfollows : ∀ q ∈ packets.head?, q.packet.counter.follows p.packet.counter = true)
    (h : IsNumbered packets) : IsNumbered (p :: packets) := by
  intro before x q after heq
  cases before with
  | nil =>
    obtain ⟨rfl, rfl⟩ := List.cons.inj heq
    exact hfollows q rfl
  | cons b before =>
    obtain ⟨-, rfl⟩ := List.cons.inj heq
    exact h before x q after rfl

/-- All losses among sixteen packets can be detected. -/
theorem hasDetectableLosses_of_length_le (h : packets.length ≤ 16) :
    HasDetectableLosses packets := by
  intro before p block q after heq _ _ hne _
  have hlength := congrArg List.length heq
  have hpos := List.length_pos_iff.mpr hne
  simp only [List.length_append, List.length_cons] at hlength
  omega

/-- The counters go on modulo sixteen. -/
theorem IsNumbered.count_eq (h : IsNumbered (p :: (block ++ q :: rest))) :
    q.packet.counter.count.val = (p.packet.counter.count.val + block.length + 1) % 16 := by
  induction block generalizing p with
  | nil => exact (ContinuityCounter.follows_iff _ _).mp (h [] p q rest rfl)
  | cons x block ih =>
    have hx := (ContinuityCounter.follows_iff _ _).mp (h [] p x (block ++ q :: rest) rfl)
    have hq := ih (IsNumbered.of_append [p] h)
    rw [List.length_cons]
    omega

/-- The packet after a loss tells of it. -/
theorem tells_of_isNumbered (hnumbered : IsNumbered (p :: (block ++ q :: rest)))
    (hdetectable : HasDetectableLosses (p :: (block ++ q :: rest))) (hp : p.lost = false)
    (hq : q.lost = false) (hblock : ∀ x ∈ block, x.lost = true) :
    Tells (some p.packet.counter) (!block.isEmpty) q.packet.counter := by
  have hcount := hnumbered.count_eq
  rintro l ⟨⟩
  cases block with
  | nil =>
    show q.packet.counter.follows p.packet.counter = true
    exact (ContinuityCounter.follows_iff _ _).mpr hcount
  | cons x block =>
    obtain ⟨hzero, hfifteen⟩ :=
      hdetectable [] p (x :: block) q rest rfl hp hq (List.cons_ne_nil _ _) hblock
    have hlt := p.packet.counter.count.isLt
    show q.packet.counter ≠ p.packet.counter ∧ q.packet.counter.follows p.packet.counter = false
    constructor
    · rw [Ne, ContinuityCounter.eq_iff]
      omega
    · rw [Bool.eq_false_iff, Ne, ContinuityCounter.follows_iff]
      omega

/-- After a packet that arrives, and others that do not. -/
theorem shows_after (hnumbered : IsNumbered (p :: (block ++ rest)))
    (hdetectable : HasDetectableLosses (p :: (block ++ rest))) (hp : p.lost = false)
    (hblock : ∀ x ∈ block, x.lost = true) :
    Shows (some p.packet.counter) (!block.isEmpty) rest := by
  induction rest generalizing p block with
  | nil => exact trivial
  | cons q rest ih =>
    cases hq : q.lost with
    | true =>
      rw [shows_cons_lost hq]
      have hlonger : ∀ x ∈ block ++ [q], x.lost = true := by
        intro x hx
        rcases List.mem_append.mp hx with hx | hx
        · exact hblock x hx
        · rw [List.mem_singleton.mp hx, hq]
      have hregroup : block ++ q :: rest = block ++ [q] ++ rest := by simp
      rw [hregroup] at hnumbered hdetectable
      have hshows := ih hnumbered hdetectable hp hlonger
      have hmissing : (!(block ++ [q]).isEmpty) = true := by simp
      rwa [hmissing] at hshows
    | false =>
      rw [shows_cons_arrived hq]
      refine ⟨tells_of_isNumbered hnumbered hdetectable hp hq hblock, ?_⟩
      have hnil : ∀ x ∈ ([] : List (SentPacket pid)), x.lost = true := List.forall_mem_nil _
      have hnumbered' : IsNumbered (q :: ([] ++ rest)) :=
        IsNumbered.of_append (p :: block) hnumbered
      have hdetectable' : HasDetectableLosses (q :: ([] ++ rest)) :=
        HasDetectableLosses.of_append (p :: block) hdetectable
      exact ih hnumbered' hdetectable' hq hnil

/-- **What the counters tell.**  If the packets are numbered and the losses can be detected, then
the counters of the packets that arrive tell what is missing. -/
theorem shows_of_isNumbered (hnumbered : IsNumbered packets)
    (hdetectable : HasDetectableLosses packets) (missing : Bool) : Shows none missing packets := by
  induction packets generalizing missing with
  | nil => exact trivial
  | cons p packets ih =>
    cases hp : p.lost with
    | true =>
      rw [shows_cons_lost hp]
      exact ih (IsNumbered.of_append [p] hnumbered)
        (HasDetectableLosses.of_append [p] hdetectable) true
    | false =>
      rw [shows_cons_arrived hp]
      refine ⟨fun l hl => absurd hl (Option.not_mem_none l), ?_⟩
      have hnil : ∀ x ∈ ([] : List (SentPacket pid)), x.lost = true := List.forall_mem_nil _
      exact shows_after hnumbered hdetectable hp hnil

end TransportStream
