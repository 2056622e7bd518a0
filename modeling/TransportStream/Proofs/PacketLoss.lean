import TransportStream.Proofs.LossDetection
import TransportStream.Proofs.PesReception
import TransportStream.Proofs.RoundTrip

/-!
# Packets that get lost

Packets of an elementary stream get lost on the way.  If the counters of those that arrive tell of
all losses, then no PES packet is handed on with data missing inside: what reaches the framer of it
is the front of its payload, and nothing if its first packet is lost.

## Two conditions

A loss is noticed only when the next packet arrives, and until then the stream is in a condition in
which it could go wrong.  So both of the conditions that its packets leave it in make an exception
for what is missing:

* `PesStream.IsReady`: another PES packet can start;
* `PesStream.IsDeaf`: what carries on the current one is not used.

A PES packet is in two parts.  Up to the first loss it is delivered as if it ended there
(`PesStream.steps_front`, `PesAccumulator.deliver_of_front`); from there on the stream is deaf until
the next one starts (`PesStream.steps_of_deaf`).  `SentPes.comesTo_packets` puts the two together,
and `Demuxer.unspliced_of_losses` does so for all PES packets of a stream.

The pieces in question are those of `Demuxer.handed`, besides which nothing reaches the framer
(`Demuxer.framer_of_handed`).
-/

namespace TransportStream

/-! ## PES packets on their way -/

/-- The packets of a PES packet. -/
structure SentPes (pid : Pid) where
  /-- The packet that starts it. -/
  first : SentPacket pid
  /-- The packets that carry it on. -/
  rest : List (SentPacket pid)
  /-- What the header of the PES packet says. -/
  header : PesHeader
  /-- The first packet says that something starts. -/
  first_unitStart : first.packet.unitStart = true
  /-- The others do not. -/
  rest_unitStart : ∀ p ∈ rest, p.packet.unitStart = false
  /-- The header can be read from the payloads together. -/
  ofBytes_payloads :
    PesHeader.ofBytes (first.payload ++ (rest.map (·.payload)).flatten) = .ok header

namespace SentPes

variable {pid : Pid}

/-- All packets of the PES packet. -/
def packets (u : SentPes pid) : List (SentPacket pid) :=
  u.first :: u.rest

/-- The payload of the PES packet: what follows the header, as far as the packet length says. -/
def payload (u : SentPes pid) : Bytes :=
  limited u.header.payloadLength
    ((u.first.payload ++ (u.rest.map (·.payload)).flatten).drop u.header.headerLength)

/-- The pieces are of the front of the payload, with the timestamps of the PES packet if it has
some; there are none if the first packet is lost. -/
structure Unspliced (u : SentPes pid) (pieces : List PesPiece) : Prop where
  /-- Nothing is used without the first packet. -/
  started : u.first.lost = true → pieces = []
  /-- The data of the pieces is the front of the payload. -/
  data : pieces.flatMap (·.data) <+: u.payload
  /-- The timestamps are those that the header gives. -/
  timing : ∀ pts, u.header.timing.pts = some pts → ∀ piece ∈ pieces,
    piece.timing = { pts := some pts, dts := some (u.header.timing.dts.getD pts) }

end SentPes

/-! ## The front of a PES packet -/

/-- Steps in which everything is ignored hand over nothing. -/
theorem PesStep.filterMap_of_ignored {steps : List PesStep}
    (h : ∀ step ∈ steps, step.result = .ok .ignored) : steps.filterMap PesStep.piece? = [] := by
  refine List.filterMap_eq_nil_iff.mpr ?_
  intro step hstep
  rw [PesStep.piece?, h step hstep]

namespace PesAccumulator

variable {a : PesAccumulator}

/-- Data that carries on a PES packet is not used. -/
def IsSilent (a : PesAccumulator) : Prop :=
  a.stage = .idle ∨ a.stage = .discarding

theorem IsSilent.not_isHeaderPending (h : a.IsSilent) : ¬ a.IsHeaderPending := by
  rintro ⟨held, requested, hstage⟩
  rcases h with h | h
  · rw [h] at hstage
    cases hstage
  · rw [h] at hstage
    cases hstage

theorem IsSilent.continuation (h : a.IsSilent) (data : Bytes) :
    a.continuation data = { accumulator := a, result := .ok .ignored } := by
  unfold PesAccumulator.continuation
  rcases h with h | h
  · rw [h]
  · rw [h]

theorem isSilent_discard (a : PesAccumulator) : a.discard.IsSilent :=
  .inr rfl

/-- The timestamps of a header that has some do not depend on what was before. -/
theorem inherit_of_pts (timing : Timing) {given : Timing} {pts : Timestamp}
    (h : given.pts = some pts) :
    inherit timing given =
      { pts := some pts, dts := some (given.dts.getD pts) } := by
  rw [inherit, h]

/-- The first chunks of a PES packet with a good header: no step fails, and the front of its payload
is handed over. -/
theorem deliver_of_front (ha : ¬ a.IsHeaderPending) {chunk : Bytes} {chunks more : List Bytes}
    {header : PesHeader}
    (h : PesHeader.ofBytes (chunk ++ (chunks ++ more).flatten) = .ok header) :
    (∀ step ∈ a.deliver chunk chunks, ∃ progress, step.result = .ok progress) ∧
      ((a.deliver chunk chunks).filterMap PesStep.piece?).flatMap (·.data) <+:
        limited header.payloadLength
          ((chunk ++ (chunks ++ more).flatten).drop header.headerLength) ∧
      ∀ piece ∈ (a.deliver chunk chunks).filterMap PesStep.piece?,
        piece.timing = inherit a.timing header.timing := by
  rw [List.flatten_append, ← List.append_assoc] at h ⊢
  by_cases hmore : AsksForMore (PesHeader.ofBytes (chunk ++ chunks.flatten))
  · -- the header is not complete, so nothing has been handed over
    obtain ⟨hacc, hresult⟩ := unitStart_eq ha chunk
    have hresults := steps_of_incomplete a [] chunk (a.unitStart chunk) hmore hacc hresult
    have hpending : ∀ step ∈ a.deliver chunk chunks, step.result = .ok .pending := by
      intro step hstep
      have hmem := List.mem_map_of_mem (f := fun step : PesStep => step.result) hstep
      rw [deliver, hresults] at hmem
      obtain ⟨_, -, heq⟩ := List.mem_map.mp hmem
      exact heq.symm
    have hnone : (a.deliver chunk chunks).filterMap PesStep.piece? = [] := by
      refine List.filterMap_eq_nil_iff.mpr ?_
      intro step hstep
      rw [PesStep.piece?, hpending step hstep]
    rw [hnone]
    refine ⟨fun step hstep => ⟨_, hpending step hstep⟩, List.nil_prefix, ?_⟩
    exact fun piece hpiece => absurd hpiece List.not_mem_nil
  · have hread : PesHeader.ofBytes (chunk ++ chunks.flatten) = .ok header :=
      (PesHeader.ofBytes_append hmore _).symm.trans h
    obtain ⟨hok, ⟨data, late, hdata, hpieces⟩, -, -⟩ := deliver_of_ok ha hread
    refine ⟨hok, ?_, ?_⟩
    · rw [hpieces, List.drop_append_of_le_length (PesHeader.headerLength_le_length hread),
        limited_append, ← hdata, List.flatMap_cons, List.flatMap_map, List.flatMap_id']
      exact List.prefix_append _ _
    · intro piece hpiece
      rw [hpieces] at hpiece
      exact timing_of_mem_pieces hpiece

end PesAccumulator

/-! ## Streams with losses -/

namespace PesStream

variable {pid : Pid} {s : PesStream} {options : DemuxOptions} {missing : Bool}
  {p : SentPacket pid} {ps qs : List (SentPacket pid)}

/-- Another PES packet can start.  The header of the one before can be incomplete only if packets
are missing, and then the next one that arrives tells of it. -/
structure IsReady (s : PesStream) (missing : Bool) : Prop where
  /-- Before the first packet no PES packet is in progress. -/
  fresh : s.lastCounter = none → s.accumulator.IsSilent
  /-- If nothing is missing the header is complete. -/
  complete : missing = false → ¬ s.accumulator.IsHeaderPending

/-- What carries on the current PES packet is not used.  It may still be in progress only if packets
are missing, and then the next one that arrives tells of it. -/
structure IsDeaf (s : PesStream) (missing : Bool) : Prop where
  /-- Before the first packet no PES packet is in progress. -/
  fresh : s.lastCounter = none → s.accumulator.IsSilent
  /-- If nothing is missing it has been given up. -/
  silent : missing = false → s.accumulator.IsSilent

/-- Another PES packet can start with the given packets, which tell what is missing. -/
def CanStart (s : PesStream) (qs : List (SentPacket pid)) : Prop :=
  ∃ missing, s.IsReady missing ∧ Shows s.lastCounter missing qs

theorem IsDeaf.isReady (h : s.IsDeaf missing) : s.IsReady missing :=
  ⟨h.fresh, fun hmissing => (h.silent hmissing).not_isHeaderPending⟩

/-- Whatever the condition was, it is this one after a loss. -/
theorem isDeaf_of_lost (h : s.lastCounter = none → s.accumulator.IsSilent) : s.IsDeaf true :=
  ⟨h, fun hmissing => absurd hmissing.symm Bool.false_ne_true⟩

/-- The accumulator as it takes the next packet: a gap makes it give up the current PES packet. -/
def resumed (s : PesStream) (missing : Bool) : PesAccumulator :=
  match s.lastCounter, missing with
  | some _, true => s.accumulator.discard
  | _, _ => s.accumulator

theorem resumed_false (s : PesStream) : s.resumed false = s.accumulator := by
  unfold resumed
  cases s.lastCounter <;> rfl

theorem IsReady.resumed (h : s.IsReady missing) : ¬ (s.resumed missing).IsHeaderPending := by
  unfold PesStream.resumed
  cases hlast : s.lastCounter with
  | none => exact (h.fresh hlast).not_isHeaderPending
  | some last =>
    cases missing with
    | false => exact h.complete rfl
    | true => exact (PesAccumulator.isSilent_discard _).not_isHeaderPending

theorem IsDeaf.resumed (h : s.IsDeaf missing) : (s.resumed missing).IsSilent := by
  unfold PesStream.resumed
  cases hlast : s.lastCounter with
  | none => exact h.fresh hlast
  | some last =>
    cases missing with
    | false => exact h.silent rfl
    | true => exact PesAccumulator.isSilent_discard _

/-- A packet whose counter tells what is missing is taken by the accumulator as it resumes. -/
theorem stepOn_of_tells (hdiscard : options.discardOnDiscontinuity = true)
    (htells : Tells s.lastCounter missing p.packet.counter) :
    s.stepOn options p.packet p.payload =
      (s.resumed missing).accept p.packet.unitStart p.payload := by
  unfold stepOn
  cases missing with
  | false =>
    have hcontinuity : s.continuity p.packet = .unbroken := continuity_of_follows htells
    rw [hcontinuity, resumed_false]
  | true =>
    cases hlast : s.lastCounter with
    | none =>
      have hcontinuity : s.continuity p.packet = .unbroken := by
        rw [continuity, hlast]
      have hresumed : s.resumed true = s.accumulator := by
        unfold resumed
        rw [hlast]
      rw [hcontinuity, hresumed]
    | some last =>
      obtain ⟨hne, hnext⟩ := htells last hlast
      have hcontinuity : s.continuity p.packet = .gap last := by
        rw [continuity, hlast]
        dsimp only
        rw [p.discontinuity_eq, if_neg Bool.false_ne_true, if_neg hne, hnext,
          if_neg Bool.false_ne_true]
      have hresumed : s.resumed true = s.accumulator.discard := by
        unfold resumed
        rw [hlast]
      rw [hcontinuity, hresumed]
      dsimp only
      rw [if_pos hdiscard]

/-- Packets that carry on a PES packet, without a loss. -/
theorem steps_continued (hdiscard : options.discardOnDiscontinuity = true)
    (hunit : ∀ p ∈ ps, p.packet.unitStart = false) (harrived : ∀ p ∈ ps, p.lost = false)
    (hshows : Shows s.lastCounter false (ps ++ qs)) :
    s.steps options (arrivals ps) = s.accumulator.carryOn (ps.map (·.payload)) ∧
      Shows (s.afterPackets options (arrivals ps)).lastCounter false qs := by
  induction ps generalizing s with
  | nil => exact ⟨rfl, hshows⟩
  | cons p ps ih =>
    obtain ⟨hp, hunit⟩ := List.forall_mem_cons.mp hunit
    obtain ⟨hlost, harrived⟩ := List.forall_mem_cons.mp harrived
    obtain ⟨htells, hshows⟩ := (shows_cons_arrived hlost _).mp hshows
    have hstep : s.stepOn options p.packet p.payload = s.accumulator.continuation p.payload := by
      rw [stepOn_of_tells hdiscard htells, resumed_false, hp]
      rfl
    obtain ⟨hsteps, hlater⟩ :=
      @ih (s.afterStep p.packet.counter (s.stepOn options p.packet p.payload)) hunit harrived
        hshows
    rw [arrivals_cons_arrived hlost]
    refine ⟨?_, hlater⟩
    rw [steps, hsteps, hstep]
    rfl

/-- **The front of a PES packet.**  Up to the first loss it is delivered to an accumulator that has
given up what was broken off. -/
theorem steps_front (hdiscard : options.discardOnDiscontinuity = true)
    (hfirst : p.packet.unitStart = true) (hunit : ∀ p ∈ ps, p.packet.unitStart = false)
    (hlost : p.lost = false) (harrived : ∀ p ∈ ps, p.lost = false)
    (hshows : Shows s.lastCounter missing (p :: (ps ++ qs))) :
    s.steps options (arrivals (p :: ps)) =
        (s.resumed missing).deliver p.payload (ps.map (·.payload)) ∧
      Shows (s.afterPackets options (arrivals (p :: ps))).lastCounter false qs := by
  obtain ⟨htells, hshows⟩ := (shows_cons_arrived hlost _).mp hshows
  have hstep : s.stepOn options p.packet p.payload =
      (s.resumed missing).unitStart p.payload := by
    rw [stepOn_of_tells hdiscard htells, hfirst]
    rfl
  obtain ⟨hsteps, hlater⟩ :=
    @steps_continued pid (s.afterStep p.packet.counter (s.stepOn options p.packet p.payload))
      options ps qs hdiscard hunit harrived hshows
  rw [arrivals_cons_arrived hlost]
  refine ⟨?_, hlater⟩
  rw [steps, hsteps, hstep]
  rfl

/-- **The rest of a PES packet.**  Behind a loss nothing of it is used, and the next one can
start. -/
theorem steps_of_deaf (hdiscard : options.discardOnDiscontinuity = true)
    (hunit : ∀ p ∈ ps, p.packet.unitStart = false) (hdeaf : s.IsDeaf missing)
    (hshows : Shows s.lastCounter missing (ps ++ qs)) :
    (∀ step ∈ s.steps options (arrivals ps), step.result = .ok .ignored) ∧
      (s.afterPackets options (arrivals ps)).CanStart qs := by
  induction ps generalizing s missing with
  | nil => exact ⟨List.forall_mem_nil _, missing, hdeaf.isReady, hshows⟩
  | cons p ps ih =>
    obtain ⟨hp, hunit⟩ := List.forall_mem_cons.mp hunit
    cases hlost : p.lost with
    | true =>
      rw [arrivals_cons_lost hlost]
      exact ih hunit (isDeaf_of_lost hdeaf.fresh) ((shows_cons_lost hlost _).mp hshows)
    | false =>
      obtain ⟨htells, hshows⟩ := (shows_cons_arrived hlost _).mp hshows
      have hstep : s.stepOn options p.packet p.payload =
          { accumulator := s.resumed missing, result := .ok .ignored } := by
        rw [stepOn_of_tells hdiscard htells, hp]
        exact hdeaf.resumed.continuation p.payload
      have hnext : (s.afterStep p.packet.counter
          (s.stepOn options p.packet p.payload)).IsDeaf false := by
        have hsilent : (s.stepOn options p.packet p.payload).accumulator.IsSilent := by
          rw [hstep]
          exact hdeaf.resumed
        exact ⟨fun _ => hsilent, fun _ => hsilent⟩
      obtain ⟨hignored, hlater⟩ := ih hunit hnext hshows
      rw [arrivals_cons_arrived hlost]
      refine ⟨?_, hlater⟩
      intro step hmem
      rcases List.mem_cons.mp hmem with rfl | hmem
      · rw [hstep]
      · exact hignored step hmem

end PesStream

/-! ## One PES packet -/

/-- Packets up to the first loss, and from there on. -/
theorem exists_front {pid : Pid} (ps : List (SentPacket pid)) :
    ∃ front back, ps = front ++ back ∧ (∀ p ∈ front, p.lost = false) ∧
      (back = [] ∨ ∃ p rest, back = p :: rest ∧ p.lost = true) := by
  induction ps with
  | nil => exact ⟨[], [], rfl, List.forall_mem_nil _, .inl rfl⟩
  | cons p ps ih =>
    cases hlost : p.lost with
    | true => exact ⟨[], p :: ps, rfl, List.forall_mem_nil _, .inr ⟨p, ps, rfl, hlost⟩⟩
    | false =>
      obtain ⟨front, back, rfl, hfront, hback⟩ := ih
      exact ⟨p :: front, back, rfl, List.forall_mem_cons.mpr ⟨hlost, hfront⟩, hback⟩

namespace SentPes

variable {pid : Pid} {u : SentPes pid} {s : PesStream} {options : DemuxOptions} {missing : Bool}
  {qs : List (SentPacket pid)}

/-- What becomes of a PES packet in the steps for those of its packets that arrive. -/
structure ComesTo (u : SentPes pid) (steps : List PesStep) : Prop where
  /-- No step fails. -/
  ok : ∀ step ∈ steps, ∃ progress, step.result = .ok progress
  /-- The front of the payload is handed over. -/
  unspliced : u.Unspliced (steps.filterMap PesStep.piece?)
  /-- Without losses it is the whole payload. -/
  whole : (∀ p ∈ u.packets, p.lost = false) →
    (steps.filterMap PesStep.piece?).flatMap (·.data) = u.payload

/-- Where nothing is handed over nothing is spliced. -/
theorem unspliced_nil (u : SentPes pid) : u.Unspliced [] :=
  ⟨fun _ => rfl, List.nil_prefix, fun _ _ _ hpiece => absurd hpiece List.not_mem_nil⟩

/-- Steps that hand over the front of the payload, and others that ignore what is behind a loss. -/
theorem comesTo_append {front rest : List PesStep} {p : SentPacket pid}
    (hok : ∀ step ∈ front, ∃ progress, step.result = .ok progress)
    (hunspliced : u.Unspliced (front.filterMap PesStep.piece?))
    (hignored : ∀ step ∈ rest, step.result = .ok .ignored) (hp : p ∈ u.packets)
    (hlost : p.lost = true) : u.ComesTo (front ++ rest) := by
  constructor
  · intro step hstep
    rcases List.mem_append.mp hstep with hstep | hstep
    · exact hok step hstep
    · exact ⟨_, hignored step hstep⟩
  · rw [List.filterMap_append, PesStep.filterMap_of_ignored hignored, List.append_nil]
    exact hunspliced
  · intro hall
    have harrives := hall p hp
    rw [hlost] at harrives
    exact absurd harrives.symm Bool.false_ne_true

/-- A PES packet without its first packet. -/
theorem comesTo_of_lost (hdiscard : options.discardOnDiscontinuity = true)
    (hready : s.IsReady missing) (hshows : Shows s.lastCounter missing (u.packets ++ qs))
    (hlost : u.first.lost = true) :
    u.ComesTo (s.steps options (arrivals u.packets)) ∧
      (s.afterPackets options (arrivals u.packets)).CanStart qs := by
  have hshows : Shows s.lastCounter true (u.rest ++ qs) := (shows_cons_lost hlost _).mp hshows
  obtain ⟨hignored, hlater⟩ := PesStream.steps_of_deaf hdiscard u.rest_unitStart
    (PesStream.isDeaf_of_lost hready.fresh) hshows
  rw [packets, arrivals_cons_lost hlost]
  refine ⟨?_, hlater⟩
  rw [← List.nil_append (s.steps options (arrivals u.rest))]
  exact comesTo_append (List.forall_mem_nil _) u.unspliced_nil hignored List.mem_cons_self hlost

variable {a : PesAccumulator} {front back : List (SentPacket pid)}

/-- The steps for the packets up to a loss. -/
theorem unspliced_of_front (ha : ¬ a.IsHeaderPending) (harrived : u.first.lost = false)
    (hrest : u.rest = front ++ back) :
    (∀ step ∈ a.deliver u.first.payload (front.map (·.payload)),
        ∃ progress, step.result = .ok progress) ∧
      u.Unspliced ((a.deliver u.first.payload (front.map (·.payload))).filterMap
        PesStep.piece?) := by
  have hread := u.ofBytes_payloads
  rw [hrest, List.map_append] at hread
  obtain ⟨hok, hdata, htiming⟩ := PesAccumulator.deliver_of_front ha hread
  rw [← List.map_append, ← hrest] at hdata
  refine ⟨hok, ?_, hdata, ?_⟩
  · intro hlost
    rw [harrived] at hlost
    exact absurd hlost Bool.false_ne_true
  · intro pts hpts piece hpiece
    rw [htiming piece hpiece]
    exact PesAccumulator.inherit_of_pts _ hpts

/-- The steps for all packets. -/
theorem whole_of_deliver (u : SentPes pid) (ha : ¬ a.IsHeaderPending) :
    let steps := a.deliver u.first.payload (u.rest.map (·.payload))
    (steps.filterMap PesStep.piece?).flatMap (·.data) = u.payload ∧
      ¬ (a.afterSteps steps).IsHeaderPending := by
  intro steps
  obtain ⟨-, ⟨data, more, hall, hpieces⟩, hcomplete, -⟩ :=
    PesAccumulator.deliver_of_ok ha u.ofBytes_payloads
  refine ⟨?_, hcomplete⟩
  rw [hpieces, List.flatMap_cons, List.flatMap_map, List.flatMap_id']
  exact hall

/-- A PES packet whose first packet arrives. -/
theorem comesTo_of_arrived (hdiscard : options.discardOnDiscontinuity = true)
    (hready : s.IsReady missing) (hshows : Shows s.lastCounter missing (u.packets ++ qs))
    (harrived : u.first.lost = false) :
    u.ComesTo (s.steps options (arrivals u.packets)) ∧
      (s.afterPackets options (arrivals u.packets)).CanStart qs := by
  obtain ⟨front, back, hrest, hfront, hback⟩ := exists_front u.rest
  have hpackets : u.packets = (u.first :: front) ++ back := by
    rw [packets, hrest]
    rfl
  have hunit := u.rest_unitStart
  rw [hrest] at hunit
  obtain ⟨hunitFront, hunitBack⟩ := List.forall_mem_append.mp hunit
  rw [hpackets, List.append_assoc] at hshows
  obtain ⟨hsteps, hshows⟩ := PesStream.steps_front hdiscard u.first_unitStart hunitFront harrived
    hfront hshows
  obtain ⟨hok, hunspliced⟩ := unspliced_of_front hready.resumed harrived hrest
  generalize hnext : s.afterPackets options (arrivals (u.first :: front)) = next at hshows
  have hcounted : next.lastCounter ≠ none := by
    rw [← hnext, arrivals_cons_arrived harrived]
    exact PesStream.lastCounter_afterPackets_ne_none (.inl (List.cons_ne_nil _ _))
  rw [hpackets, arrivals_append, PesStream.steps_append, PesStream.afterPackets_append, hnext,
    hsteps]
  rcases hback with rfl | ⟨p, rest, rfl, hlost⟩
  · -- no loss behind the first packet: all of the payload has been handed over
    rw [List.append_nil] at hrest
    obtain ⟨hwhole, hcomplete⟩ := u.whole_of_deliver hready.resumed
    rw [hrest] at hwhole hcomplete
    have hacc : next.accumulator = (s.resumed missing).afterSteps
        ((s.resumed missing).deliver u.first.payload (front.map (·.payload))) := by
      rw [← hnext, PesStream.accumulator_afterPackets, hsteps]
      rfl
    have hnil : arrivals ([] : List (SentPacket pid)) = [] := rfl
    rw [hnil, PesStream.steps, List.append_nil]
    refine ⟨⟨hok, hunspliced, fun _ => hwhole⟩, false, ?_, hshows⟩
    exact ⟨fun hnone => absurd hnone hcounted, fun _ => hacc ▸ hcomplete⟩
  · -- nothing is used from the first loss on
    have hdeaf : next.IsDeaf true := PesStream.isDeaf_of_lost fun hnone => absurd hnone hcounted
    obtain ⟨-, hunitRest⟩ := List.forall_mem_cons.mp hunitBack
    obtain ⟨hignored, hlater⟩ := PesStream.steps_of_deaf hdiscard hunitRest hdeaf
      ((shows_cons_lost hlost _).mp hshows)
    have hmem : p ∈ u.packets := by
      rw [hpackets]
      exact List.mem_append_right _ List.mem_cons_self
    rw [arrivals_cons_lost hlost]
    exact ⟨comesTo_append hok hunspliced hignored hmem hlost, hlater⟩

/-- **One PES packet.**  It comes to what it should, and the next one can start. -/
theorem comesTo_packets (hdiscard : options.discardOnDiscontinuity = true)
    (h : s.CanStart (u.packets ++ qs)) :
    u.ComesTo (s.steps options (arrivals u.packets)) ∧
      (s.afterPackets options (arrivals u.packets)).CanStart qs := by
  obtain ⟨missing, hready, hshows⟩ := h
  cases hlost : u.first.lost with
  | true => exact comesTo_of_lost hdiscard hready hshows hlost
  | false => exact comesTo_of_arrived hdiscard hready hshows hlost

end SentPes

/-! ## All PES packets -/

section

variable {pid : Pid} {s : PesStream} {options : DemuxOptions} {units : List (SentPes pid)}

/-- No step fails for PES packets that follow each other, and another one can start after them. -/
theorem PesStream.steps_units (hdiscard : options.discardOnDiscontinuity = true)
    {qs : List (SentPacket pid)} (h : s.CanStart (units.flatMap SentPes.packets ++ qs)) :
    (∀ step ∈ s.steps options (arrivals (units.flatMap SentPes.packets)),
        ∃ progress, step.result = .ok progress) ∧
      (s.afterPackets options (arrivals (units.flatMap SentPes.packets))).CanStart qs := by
  induction units generalizing s with
  | nil => exact ⟨List.forall_mem_nil _, h⟩
  | cons u units ih =>
    rw [List.flatMap_cons, List.append_assoc] at h
    obtain ⟨hunit, hnext⟩ := SentPes.comesTo_packets hdiscard h
    obtain ⟨hok, hlast⟩ := ih hnext
    rw [List.flatMap_cons, arrivals_append, steps_append, afterPackets_append]
    refine ⟨?_, hlast⟩
    intro step hstep
    rcases List.mem_append.mp hstep with hstep | hstep
    · exact hunit.ok step hstep
    · exact hok step hstep

/-- No packet has arrived yet. -/
structure PesStream.IsNew (s : PesStream) : Prop where
  /-- No PES packet is in progress, and no timestamps are in force. -/
  accumulator : s.accumulator = {}
  /-- There is no last counter. -/
  lastCounter : s.lastCounter = none

/-- A stream that has just been announced as audio or video is new. -/
theorem PesStream.isNew_of_ofBinding? {binding : StreamBinding} (h : ofBinding? binding = some s) :
    s.IsNew := by
  obtain ⟨haccumulator, hcounter, -⟩ := of_ofBinding? h
  exact ⟨haccumulator, hcounter⟩

/-- The first PES packet can start, even if its first packets are lost. -/
theorem PesStream.IsNew.canStart (h : s.IsNew) {packets : List (SentPacket pid)}
    (hnumbered : IsNumbered packets) (hdetectable : HasDetectableLosses packets) :
    s.CanStart packets := by
  have hsilent : s.accumulator.IsSilent := by
    rw [h.accumulator]
    exact .inl rfl
  refine ⟨false, ⟨fun _ => hsilent, fun _ => hsilent.not_isHeaderPending⟩, ?_⟩
  rw [h.lastCounter]
  exact shows_of_isNumbered hnumbered hdetectable false

namespace Demuxer

variable {d : Demuxer}

/-- **Losses never splice.**  Packets of a new audio or video stream are numbered, and carry
complete PES packets with good headers; some get lost, but in numbers that the counters tell.
Pushing those that arrive is no error, and the frames are those of what is handed to the framer.  Of
each PES packet whose first packet arrives that is the front of the payload, with its own timestamps
if it has some; all of it if nothing of it is lost.  Of the others it is nothing. -/
theorem unspliced_of_losses (hstate : d.directory.state? pid = some (.pes s)) (hnew : s.IsNew)
    (hdiscard : d.options.discardOnDiscontinuity = true)
    (hnumbered : IsNumbered (units.flatMap SentPes.packets))
    (hdetectable : HasDetectableLosses (units.flatMap SentPes.packets)) :
    (∀ o ∈ d.outcomes ((arrivals (units.flatMap SentPes.packets)).map IntactPacket.pushed),
        o.error = none) ∧
      (d.shown ((arrivals (units.flatMap SentPes.packets)).map IntactPacket.pushed)).filterMap
          Event.frame? =
        (s.framer.feedAll (d.handed (arrivals (units.flatMap SentPes.packets)))).2 ∧
      ∀ before u after, units = before ++ u :: after →
        let pieces := (d.afterAll ((arrivals (before.flatMap SentPes.packets)).map
          IntactPacket.pushed)).handed (arrivals u.packets)
        u.Unspliced pieces ∧
          (d.flushed = false → (∀ p ∈ u.packets, p.lost = false) →
            pieces.flatMap (·.data) = u.payload) := by
  have hstart := hnew.canStart hnumbered hdetectable
  obtain ⟨hframes, -⟩ := framer_of_handed hstate (arrivals (units.flatMap SentPes.packets))
  cases hflushed : d.flushed with
  | true =>
    refine ⟨(pushed_late hflushed _).error, hframes, ?_⟩
    intro before u after hunits pieces
    have hlate := pushed_late hflushed (arrivals (before.flatMap SentPes.packets))
    have hpieces : pieces = [] := (pushed_late hlate.isFlushed (arrivals u.packets)).handed
    rw [hpieces]
    exact ⟨u.unspliced_nil, fun hopen => absurd hopen.symm Bool.false_ne_true⟩
  | false =>
    refine ⟨?_, hframes, ?_⟩
    · rw [← List.append_nil (units.flatMap SentPes.packets)] at hstart
      obtain ⟨hok, -⟩ := PesStream.steps_units hdiscard hstart
      exact (pushed_pes hflushed hstate _).error hok
    · intro before u after hunits pieces
      rw [hunits, List.flatMap_append, List.flatMap_cons] at hstart
      obtain ⟨-, hnext⟩ := PesStream.steps_units hdiscard hstart
      obtain ⟨hcomes, -⟩ := SentPes.comesTo_packets hdiscard hnext
      have htakes := pushed_pes hflushed hstate (arrivals (before.flatMap SentPes.packets))
      have hpieces : pieces = _ :=
        (pushed_pes htakes.isOpen htakes.state? (arrivals u.packets)).handed
      rw [hpieces, htakes.options]
      exact ⟨hcomes.unspliced, fun _ hwhole => hcomes.whole hwhole⟩

end Demuxer

end

/-! ## A small stream with losses -/

/-- A short packet with a PES packet or a part of one, which may be lost. -/
def shortSentPacket (unitStart : Bool) (pid : Pid) (count : Nat) (payload : Bytes)
    (h : payload.length < 183) (hne : payload ≠ []) (lost : Bool) : SentPacket pid where
  toIntactPacket := (Multiplex.shortPacket unitStart pid count payload h).intact rfl hne
  lost
  discontinuity_eq := (Multiplex.shortPacket unitStart pid count payload h).discontinuity_packet

/-- A PES packet of audio in two packets, of which the first one holds the header and the first byte
of payload.  Either of them may be lost. -/
def smallSentPes (count : Nat) (lostFirst lostLast : Bool) :
    SentPes Multiplex.smallAudio.pid where
  first := shortSentPacket true _ count (Multiplex.smallAudioPes.bytes.take 15) (by decide)
    (by decide) lostFirst
  rest := [shortSentPacket false _ (count + 1) (Multiplex.smallAudioPes.bytes.drop 15) (by decide)
    (by decide) lostLast]
  header := Multiplex.smallAudioPes.header
  first_unitStart := rfl
  rest_unitStart := List.forall_mem_singleton.mpr rfl
  ofBytes_payloads := Multiplex.smallAudioPes.ofBytes_bytes

namespace Demuxer

/-- Of three PES packets the first one loses its second half and the second one its first half. -/
theorem unspliced_of_losses_small :
    let pid := Multiplex.smallAudio.pid
    let binding : StreamBinding := {
      pid, streamType := .adts, codec := .aac, program := 1, language := none }
    let s : PesStream := { pid, framer := .audio { pid, codec := .aac } }
    let d : Demuxer := { directory := ({} : Directory).setState pid (.pes s) }
    let a := smallSentPes 14 false true
    let b := smallSentPes 0 true false
    let c := smallSentPes 2 false false
    let packets := [a, b, c].flatMap SentPes.packets
    PesStream.ofBinding? binding = some s ∧ s.IsNew ∧
      d.directory.state? pid = some (.pes s) ∧ d.options.discardOnDiscontinuity = true ∧
      IsNumbered packets ∧ HasDetectableLosses packets ∧
      (∀ o ∈ d.outcomes ((arrivals packets).map IntactPacket.pushed), o.error = none) ∧
      (d.afterAll ((arrivals ([a].flatMap SentPes.packets)).map IntactPacket.pushed)).handed
        (arrivals b.packets) = [] ∧
      ((d.afterAll ((arrivals ([a, b].flatMap SentPes.packets)).map IntactPacket.pushed)).handed
        (arrivals c.packets)).flatMap (·.data) = [0xaa, 0xbb] := by
  intro pid binding s d a b c packets
  have hbinding : PesStream.ofBinding? binding = some s := rfl
  have hnew : s.IsNew := PesStream.isNew_of_ofBinding? hbinding
  have hstate : d.directory.state? pid = some (.pes s) := Directory.state?_setState_self _ _ _
  have hnumbered : IsNumbered packets := by
    refine isNumbered_cons (by rintro q ⟨⟩; rfl) ?_
    refine isNumbered_cons (by rintro q ⟨⟩; rfl) ?_
    refine isNumbered_cons (by rintro q ⟨⟩; rfl) ?_
    refine isNumbered_cons (by rintro q ⟨⟩; rfl) ?_
    refine isNumbered_cons (by rintro q ⟨⟩; rfl) ?_
    refine isNumbered_cons (by rintro q ⟨⟩) ?_
    intro before p q after heq
    cases before <;> cases heq
  have hdetectable : HasDetectableLosses packets := by
    refine hasDetectableLosses_of_length_le ?_
    show 6 ≤ 16
    decide
  obtain ⟨herrors, -, hunits⟩ :=
    @unspliced_of_losses pid s [a, b, c] d hstate hnew rfl hnumbered hdetectable
  obtain ⟨hb, -⟩ := hunits [a] b [c] rfl
  obtain ⟨-, hc⟩ := hunits [a, b] c [] rfl
  have hwhole : ∀ p ∈ c.packets, p.lost = false :=
    List.forall_mem_cons.mpr ⟨rfl, List.forall_mem_singleton.mpr rfl⟩
  have hpayload : c.payload = [0xaa, 0xbb] := by decide
  exact ⟨hbinding, hnew, hstate, rfl, hnumbered, hdetectable, herrors, hb.started rfl,
    (hc rfl hwhole).trans hpayload⟩

end Demuxer

end TransportStream
