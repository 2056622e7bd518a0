import TransportStream.Proofs.IntactPackets
import TransportStream.Proofs.Routing
import TransportStream.Proofs.SectionReception

/-!
# Packets on a PID that carries sections

Intact packets on a PID that carries sections are pushed into a demultiplexer.  What comes of them
can be said without the demultiplexer: it is what the section buffer of the PID and a receiver of
sections make of the payloads.  The receiver does not look at the state of the PID itself, which the
demultiplexer brings up to date after each packet.

* `Demuxer.pushed_psi`: pushing the packets is giving their payloads to the buffer and the receiver.
* `SectionBuffer.pushAll_of_invariant`: sections that are carried and accepted, one after the other.
* `SectionBuffer.pushAll_of_rejected`: a section that is refused.
* `SectionReceiver.pushAll_of_accepted`: the payloads come to the sections that they carry.
-/

namespace TransportStream

/-! ## The state of the PID itself -/

namespace Directory

/-- The directories differ in the state of one PID at most. -/
structure SameBeside (pid : Pid) (d d' : Directory) : Prop where
  /-- The same is announced. -/
  table : d.table = d'.table
  /-- The states of the other PIDs are the same. -/
  others : ∀ other, pid ≠ other → d.state? other = d'.state? other

variable {pid : Pid} {d d' : Directory}

theorem sameBeside_setState (pid : Pid) (d : Directory) (state : PidState) :
    SameBeside pid d (d.setState pid state) :=
  ⟨rfl, fun _ hother => (state?_setState_of_ne d hother state).symm⟩

/-- Once the PID has the same state in both, nothing differs. -/
theorem SameBeside.setState_eq (h : SameBeside pid d d') (state : PidState) :
    d.setState pid state = d'.setState pid state := by
  have hstates : (d.setState pid state).states = (d'.setState pid state).states := by
    refine SortedMap.ext_get? ?_
    intro other
    show (d.setState pid state).state? other = (d'.setState pid state).state? other
    by_cases hother : pid = other
    · subst hother
      rw [state?_setState_self, state?_setState_self]
    · rw [state?_setState_of_ne d hother, state?_setState_of_ne d' hother, h.others other hother]
  have htable : (d.setState pid state).table = (d'.setState pid state).table := h.table
  cases hd : d.setState pid state
  cases hd' : d'.setState pid state
  rw [hd, hd'] at htable hstates
  congr

theorem isKept_sameBeside (pid : Pid) : IsKept (SameBeside pid) := by
  constructor
  · intro d d' pat h
    have htable : (d.table.applyPat pat).1 = (d'.table.applyPat pat).1 := by rw [h.table]
    refine ⟨htable, fun other hother => ?_⟩
    rw [state?_applyPat, state?_applyPat, h.others other hother, htable]
  · intro d d' pmtPid program pmt h
    have htable : d.table.applyPmt pmtPid program pmt = d'.table.applyPmt pmtPid program pmt := by
      rw [h.table]
    refine ⟨congrArg ProgramTable.Additions.table htable, fun other hother => ?_⟩
    rw [state?_applyPmt_added, state?_applyPmt_added, h.others other hother, htable]

theorem isKept_eq : IsKept (Eq : Directory → Directory → Prop) := by
  constructor
  · rintro d _ pat rfl
    rfl
  · rintro d _ pmtPid program pmt rfl
    rfl

end Directory

/-! ## Payloads -/

namespace SectionBuffer

section

variable {σ : Type} {receive : σ → SectionOutput → σ × Option SectionError}

theorem pushAll_cons (state : σ) (buffer : SectionBuffer) (payload : Bool × Bytes)
    (payloads : List (Bool × Bytes)) :
    pushAll receive state buffer (payload :: payloads) =
      let driven := (buffer.push payload.1 payload.2).drive receive state
      let run := pushAll receive driven.1 driven.2.1 payloads
      (run.1, run.2.1, driven.2.2 :: run.2.2) :=
  rfl

/-- **Sections that are accepted.**  What holds while sections are received one after the other
holds after payloads that carry them.  No payload is refused, and nothing is in progress then. -/
theorem pushAll_of_invariant (Inv : List Bytes → σ → Prop)
    (notice : ∀ pending state n, Inv pending state →
      ∃ next, receive state (.notice n) = (next, none) ∧ Inv pending next)
    (whole : ∀ x pending state, Inv (x :: pending) state →
      ∃ next, receive state (.whole x) = (next, none) ∧ Inv pending next)
    {cargos : List SectionCargo} {state : σ} {buffer : SectionBuffer} {toCome : List SectionByte}
    {pending : List Bytes} (hs : ∀ x ∈ pending, IsSection x) (hexp : Expects buffer toCome pending)
    (hcarries : Carries toCome cargos) (h : Inv pending state) :
    ∃ final, pushAll receive state buffer (cargos.map fun c => (c.unitStart, c.payload)) =
        (final, .idle, cargos.map fun _ => none) ∧ Inv [] final := by
  induction cargos generalizing state buffer toCome pending with
  | nil =>
    obtain rfl : toCome = [] := hcarries
    obtain ⟨rfl, rfl⟩ := of_expects_nil hs hexp
    exact ⟨state, rfl, h⟩
  | cons c cargos ih =>
    obtain ⟨later, rfl, hpointer, hstuffed, hlater⟩ := hcarries
    obtain ⟨delivered, rest, outputs, next, rfl, hfeed, houtputs, hnext⟩ :=
      expects_push hs hexp hpointer hstuffed
    have hdelivered : outputs.filterMap SectionOutput.section? = delivered.map id := by
      rw [houtputs, List.map_id]
    obtain ⟨mid, hdrive, hmid⟩ := driveOutputs_of_invariant receive Inv notice whole h hdelivered
    obtain ⟨final, hrun, hfinal⟩ :=
      ih (fun x hx => hs x (List.mem_append_right _ hx)) hnext hlater hmid
    refine ⟨final, ?_, hfinal⟩
    rw [List.map_cons, pushAll_cons]
    simp only [hfeed, Feed.drive, hdrive, hrun, List.map_cons]

/-- A payload that carries one section and nothing else. -/
theorem push_singleton {x : Bytes} (hx : IsSection x) :
    idle.push true (0 :: x) = { outputs := [.whole x] } := by
  have hstart := startSections_stuffed (List.forall_mem_singleton.mpr hx) 0
  rw [List.flatten_singleton, List.replicate_zero, List.append_nil] at hstart
  exact hstart

/-- Outputs without a section. -/
theorem driveOutputs_of_notices (Inv : σ → Prop)
    (notice : ∀ state n, Inv state → ∃ next, receive state (.notice n) = (next, none) ∧ Inv next)
    {outputs : List SectionOutput} {state : σ} (h : Inv state)
    (houtputs : outputs.filterMap SectionOutput.section? = []) :
    ∃ next, driveOutputs receive state outputs = (next, none) ∧ Inv next := by
  induction outputs generalizing state with
  | nil => exact ⟨state, rfl, h⟩
  | cons output outputs ih =>
    cases output with
    | notice n =>
      obtain ⟨next, hreceive, hnext⟩ := notice state n h
      obtain ⟨last, hdrive, hlast⟩ := ih hnext houtputs
      exact ⟨last, by rw [driveOutputs, hreceive]; exact hdrive, hlast⟩
    | whole found => cases houtputs

/-- Outputs of which the first section is refused. -/
theorem driveOutputs_of_rejected {x : Bytes} {e : SectionError} (Inv : σ → Prop)
    (notice : ∀ state n, Inv state → ∃ next, receive state (.notice n) = (next, none) ∧ Inv next)
    (rejected : ∀ state, Inv state →
      ∃ next, receive state (.whole x) = (next, some e) ∧ Inv next)
    {outputs : List SectionOutput} {more : List Bytes} {state : σ} (h : Inv state)
    (houtputs : outputs.filterMap SectionOutput.section? = x :: more) :
    ∃ next, driveOutputs receive state outputs = (next, some e) ∧ Inv next := by
  induction outputs generalizing state with
  | nil => cases houtputs
  | cons output outputs ih =>
    cases output with
    | notice n =>
      obtain ⟨next, hreceive, hnext⟩ := notice state n h
      obtain ⟨last, hdrive, hlast⟩ := ih hnext houtputs
      exact ⟨last, by rw [driveOutputs, hreceive]; exact hdrive, hlast⟩
    | whole found =>
      obtain ⟨rfl, -⟩ := List.cons.inj houtputs
      obtain ⟨next, hreceive, hnext⟩ := rejected state h
      exact ⟨next, by rw [driveOutputs, hreceive], hnext⟩

/-- **A section that is refused.**  The payload that completes it is refused, and those before it
are not; nothing is in progress then, whatever the payload brings behind the section. -/
theorem pushAll_of_rejected {x : Bytes} {e : SectionError} (Inv : σ → Prop)
    (notice : ∀ state n, Inv state → ∃ next, receive state (.notice n) = (next, none) ∧ Inv next)
    (rejected : ∀ state, Inv state →
      ∃ next, receive state (.whole x) = (next, some e) ∧ Inv next)
    {cargos : List SectionCargo} {state : σ} {buffer : SectionBuffer} {toCome : List SectionByte}
    {pending : List Bytes} (hs : ∀ y ∈ x :: pending, IsSection y)
    (hexp : Expects buffer toCome (x :: pending)) (hcarries : Carries toCome cargos)
    (h : Inv state) :
    ∃ before c after final, cargos = before ++ c :: after ∧
      pushAll receive state buffer ((before ++ [c]).map fun c => (c.unitStart, c.payload)) =
        (final, .idle, (before.map fun _ => none) ++ [some e]) ∧ Inv final := by
  induction cargos generalizing state buffer toCome with
  | nil =>
    obtain rfl : toCome = [] := hcarries
    exact absurd (of_expects_nil hs hexp).2 (List.cons_ne_nil _ _)
  | cons c cargos ih =>
    obtain ⟨later, rfl, hpointer, hstuffed, hlater⟩ := hcarries
    obtain ⟨delivered, rest, outputs, next, hsplit, hfeed, houtputs, hnext⟩ :=
      expects_push hs hexp hpointer hstuffed
    cases delivered with
    | nil =>
      -- the section is not complete yet
      obtain rfl : x :: pending = rest := hsplit
      obtain ⟨mid, hdrive, hmid⟩ := driveOutputs_of_notices Inv notice h houtputs
      obtain ⟨before, c', after, final, rfl, hrun, hfinal⟩ := ih hnext hlater hmid
      refine ⟨c :: before, c', after, final, rfl, ?_, hfinal⟩
      rw [List.cons_append, List.map_cons, pushAll_cons]
      simp only [hfeed, Feed.drive, hdrive, hrun, List.map_cons, List.cons_append]
    | cons y delivered =>
      obtain ⟨rfl, -⟩ := List.cons.inj hsplit
      obtain ⟨final, hdrive, hfinal⟩ := driveOutputs_of_rejected Inv notice rejected h houtputs
      refine ⟨[], c, cargos, final, rfl, ?_, hfinal⟩
      rw [List.nil_append, List.map_cons, pushAll_cons]
      simp only [hfeed, Feed.drive, hdrive]
      rfl

end

end SectionBuffer

/-! ## Receivers -/

namespace SectionReceiver

open SectionBuffer

variable {R : Directory → Directory → Prop} {r r' : SectionReceiver}

/-- Payloads leave receivers alike, and the same is in progress afterwards. -/
theorem Alike.pushAll (hR : Directory.IsKept R) (h : Alike R r r') (verifyCrc : Bool) (pid : Pid)
    (kind : TableKind) (buffer : SectionBuffer) (payloads : List (Bool × Bytes)) :
    Alike R (pushAll (SectionReceiver.receive verifyCrc pid kind) r buffer payloads).1
        (pushAll (SectionReceiver.receive verifyCrc pid kind) r' buffer payloads).1 ∧
      (pushAll (SectionReceiver.receive verifyCrc pid kind) r buffer payloads).2 =
        (pushAll (SectionReceiver.receive verifyCrc pid kind) r' buffer payloads).2 := by
  induction payloads generalizing r r' buffer with
  | nil => exact ⟨h, rfl⟩
  | cons payload payloads ih =>
    obtain ⟨hnext, hrest⟩ := h.drive hR verifyCrc pid kind (buffer.push payload.1 payload.2)
    rw [pushAll_cons, pushAll_cons]
    dsimp only
    rw [hrest]
    obtain ⟨hlast, hresults⟩ := ih hnext _
    exact ⟨hlast, by rw [hresults]⟩

/-- Gives sections to a receiver one after the other, until it refuses one. -/
def receiveAll (verifyCrc : Bool) (pid : Pid) (kind : TableKind) (r : SectionReceiver)
    (sections : List Bytes) : SectionReceiver × Option SectionError :=
  driveOutputs (receive verifyCrc pid kind) r (sections.map .whole)

theorem receiveAll_singleton {verifyCrc : Bool} {pid : Pid} {kind : TableKind} {x : Bytes}
    (h : (r.receive verifyCrc pid kind (.whole x)).2 = none) :
    r.receiveAll verifyCrc pid kind [x] = ((r.receive verifyCrc pid kind (.whole x)).1, none) := by
  rw [receiveAll, List.map_singleton, driveOutputs]
  generalize r.receive verifyCrc pid kind (.whole x) = received at h ⊢
  obtain ⟨next, e⟩ := received
  obtain rfl : e = none := h
  rfl

theorem Alike.receiveAll (hR : Directory.IsKept R) (h : Alike R r r') (verifyCrc : Bool) (pid : Pid)
    (kind : TableKind) (sections : List Bytes) :
    Alike R (r.receiveAll verifyCrc pid kind sections).1
        (r'.receiveAll verifyCrc pid kind sections).1 ∧
      (r.receiveAll verifyCrc pid kind sections).2 =
        (r'.receiveAll verifyCrc pid kind sections).2 :=
  h.driveOutputs hR verifyCrc pid kind _

/-- **Sections arrive.**  Payloads that carry sections, all of which are accepted, come to what the
sections come to, apart from notices. -/
theorem pushAll_of_accepted {verifyCrc : Bool} {pid : Pid} {kind : TableKind}
    {cargos : List SectionCargo} {buffer : SectionBuffer} {toCome : List SectionByte}
    {pending : List Bytes} (hs : ∀ x ∈ pending, IsSection x) (hexp : buffer.Expects toCome pending)
    (hcarries : Carries toCome cargos)
    (haccepted : (r.receiveAll verifyCrc pid kind pending).2 = none) :
    ∃ final, pushAll (receive verifyCrc pid kind) r buffer
        (cargos.map fun c => (c.unitStart, c.payload)) =
          (final, .idle, cargos.map fun _ => none) ∧
      Alike Eq (r.receiveAll verifyCrc pid kind pending).1 final := by
  generalize htarget : (r.receiveAll verifyCrc pid kind pending).1 = target
  -- what is pending comes to the same, from now on
  let Inv : List Bytes → SectionReceiver → Prop := fun rest state =>
    (state.receiveAll verifyCrc pid kind rest).2 = none ∧
      Alike Eq target (state.receiveAll verifyCrc pid kind rest).1
  have hnotice : ∀ rest state n, Inv rest state →
      ∃ next, receive verifyCrc pid kind state (.notice n) = (next, none) ∧ Inv rest next := by
    rintro rest state n ⟨hnone, hrest⟩
    have hnoted : Alike Eq state (state.note [n]) := ⟨rfl, rfl⟩
    obtain ⟨hsame, herror⟩ := hnoted.receiveAll Directory.isKept_eq verifyCrc pid kind rest
    refine ⟨state.note [n], rfl, herror ▸ hnone, ?_, ?_⟩
    · exact hrest.directory.trans hsame.directory
    · exact hrest.versions.trans hsame.versions
  have hwhole : ∀ x rest state, Inv (x :: rest) state →
      ∃ next, receive verifyCrc pid kind state (.whole x) = (next, none) ∧ Inv rest next := by
    rintro x rest state ⟨hnone, hrest⟩
    rw [receiveAll, List.map_cons, driveOutputs] at hnone hrest
    generalize receive verifyCrc pid kind state (.whole x) = received at hnone hrest
    obtain ⟨next, e⟩ := received
    cases e with
    | some e => cases hnone
    | none => exact ⟨next, rfl, hnone, hrest⟩
  have hstart : Inv pending r := ⟨haccepted, htarget ▸ ⟨rfl, rfl⟩⟩
  obtain ⟨final, hrun, -, hfinal⟩ := pushAll_of_invariant Inv hnotice hwhole hs hexp hcarries hstart
  exact ⟨final, hrun, hfinal⟩

end SectionReceiver

/-! ## The demultiplexer -/

namespace Demuxer

open SectionBuffer

/-- What is wrong with packets on a PID that carries sections, given what is wrong with the sections
that each of them completes, and the offset of the first one. -/
def tableErrors (pid : Pid) (offset : Nat) : List (Option SectionError) → List (Option DemuxError)
  | [] => []
  | e :: es => e.map (.table offset pid) :: tableErrors pid (offset + Packet.size) es

theorem tableErrors_append (pid : Pid) (offset : Nat) (es later : List (Option SectionError)) :
    tableErrors pid offset (es ++ later) =
      tableErrors pid offset es ++ tableErrors pid (offset + es.length * Packet.size) later := by
  induction es generalizing offset with
  | nil => simp [tableErrors]
  | cons e es ih =>
    have hoffset : offset + Packet.size + es.length * Packet.size =
        offset + (e :: es).length * Packet.size := by
      rw [List.length_cons, Nat.succ_mul]
      omega
    rw [List.cons_append, tableErrors, tableErrors, ih, hoffset, List.cons_append]

/-- Where nothing is wrong with the sections nothing is wrong with the packets. -/
theorem tableErrors_none {α : Type} (pid : Pid) (offset : Nat) (as : List α) :
    tableErrors pid offset (as.map fun _ => none) = as.map fun _ => none := by
  induction as generalizing offset with
  | nil => rfl
  | cons a as ih => rw [List.map_cons, List.map_cons, tableErrors, ih]; rfl

variable {d : Demuxer} {pid : Pid}

/-- **Packets with sections.**  Pushing intact packets on a PID that carries sections is giving
their payloads to the buffer of the PID and to a receiver.  Afterwards the PID has the state that
this leads to, and what is refused is what the receiver refuses. -/
theorem pushed_psi (hopen : d.flushed = false) {s : PsiStream}
    (hstate : d.directory.state? pid = some (.psi s)) (packets : List (IntactPacket pid)) :
    let run := pushAll (SectionReceiver.receive d.options.verifyCrc pid s.kind) (d.receiverFor s)
      s.buffer (packets.map IntactPacket.content)
    let final := d.afterAll (packets.map IntactPacket.pushed)
    final.directory = run.1.directory.setState pid
        (.psi { s with buffer := run.2.1, versions := run.1.versions }) ∧
      final.flushed = false ∧ final.options = d.options ∧
      final.nextOffset = d.nextOffset + packets.length * Packet.size ∧
      (d.outcomes (packets.map IntactPacket.pushed)).map (·.error) =
        tableErrors pid d.nextOffset run.2.2 := by
  induction packets generalizing d s with
  | nil =>
    refine ⟨?_, hopen, rfl, ?_, rfl⟩
    · exact (Directory.setState_of_state? hstate).symm
    · simp [afterAll]
  | cons p packets ih =>
    let first := (s.buffer.push p.packet.unitStart p.payload).drive
      (SectionReceiver.receive d.options.verifyCrc pid s.kind) (d.receiverFor s)
    let s' : PsiStream := { s with buffer := first.2.1, versions := first.1.versions }
    let next : Demuxer := { d with
      nextOffset := d.nextOffset + Packet.size
      directory := first.1.directory.setState pid (.psi s') }
    have hpush : d.push p.bytes = {
        state := next
        events := .packet p.packet :: Event.ofNotices first.1.notices
        error := first.2.2.map (.table d.nextOffset pid) } := push_of_psi hopen p hstate
    have hnext : next.directory.state? pid = some (.psi s') :=
      Directory.state?_setState_self _ _ _
    obtain ⟨hdirectory, hflushed, hoptions, hoffset, herrors⟩ :=
      ih (show next.flushed = false from hopen) hnext
    -- the receiver of the other packets does not look at the state that the PID has been given
    have halike : SectionReceiver.Alike (Directory.SameBeside pid) first.1 (next.receiverFor s') :=
      ⟨Directory.sameBeside_setState pid first.1.directory _, rfl⟩
    obtain ⟨hlast, hresults⟩ := halike.pushAll (Directory.isKept_sameBeside pid)
      d.options.verifyCrc pid s.kind s'.buffer (packets.map IntactPacket.content)
    have hafter : d.afterAll ((p :: packets).map IntactPacket.pushed) =
        next.afterAll (packets.map IntactPacket.pushed) := by
      show (d.push p.bytes).state.afterAll (packets.map IntactPacket.pushed) = _
      rw [hpush]
    have houtcomes : d.outcomes ((p :: packets).map IntactPacket.pushed) =
        d.push p.bytes :: next.outcomes (packets.map IntactPacket.pushed) := by
      show d.push p.bytes ::
        (d.push p.bytes).state.outcomes (packets.map IntactPacket.pushed) = _
      rw [hpush]
    rw [hafter, houtcomes, List.map_cons, List.map_cons, pushAll_cons]
    refine ⟨?_, hflushed, hoptions, ?_, ?_⟩
    · rw [hdirectory, ← hlast.directory.setState_eq, ← hlast.versions, ← hresults]
      rfl
    · rw [hoffset, List.length_cons, Nat.succ_mul]
      show d.nextOffset + Packet.size + packets.length * Packet.size = _
      omega
    · rw [herrors, ← hresults, hpush]
      rfl

/-- The packets carry the given sections and nothing else, to a PID on which no section is in
progress. -/
structure Brings (d : Demuxer) (s : PsiStream) (sections : List Bytes)
    (packets : List (IntactPacket pid)) : Prop where
  /-- The end of the stream has not been declared. -/
  isOpen : d.flushed = false
  /-- The PID carries sections. -/
  state : d.directory.state? pid = some (.psi s)
  /-- None is in progress. -/
  idle : s.buffer = .idle
  /-- The sections are complete. -/
  areSections : ∀ x ∈ sections, IsSection x
  /-- Their bytes have been cut into the payloads. -/
  carried : ∃ cargos, Carries (sectionBytes sections) cargos ∧
    packets.map IntactPacket.content = cargos.map fun c => (c.unitStart, c.payload)

variable {s : PsiStream} {sections : List Bytes} {packets : List (IntactPacket pid)}

/-- A packet can carry one section and nothing else. -/
theorem brings_singleton {p : IntactPacket pid} {x : Bytes} (hopen : d.flushed = false)
    (hstate : d.directory.state? pid = some (.psi s)) (hidle : s.buffer = .idle)
    (hx : IsSection x) (hcontent : p.content = (true, 0 :: x)) : d.Brings s [x] [p] := by
  obtain ⟨hcarries, hunit, hcargo⟩ := carries_singleton hx
  refine ⟨hopen, hstate, hidle, List.forall_mem_singleton.mpr hx, [{ content := fromStart x }],
    hcarries, ?_⟩
  rw [List.map_singleton, List.map_singleton, hcontent, hunit, hcargo]

/-- **Accepted sections.**  No packet is refused, and the directory is the one that the sections
lead to. -/
theorem Brings.of_accepted (h : d.Brings s sections packets)
    (haccepted : ((d.receiverFor s).receiveAll d.options.verifyCrc pid s.kind sections).2 = none) :
    let r := ((d.receiverFor s).receiveAll d.options.verifyCrc pid s.kind sections).1
    (d.outcomes (packets.map IntactPacket.pushed)).map (·.error) = packets.map (fun _ => none) ∧
      (d.afterAll (packets.map IntactPacket.pushed)).directory =
        r.directory.setState pid (.psi { s with versions := r.versions }) := by
  intro r
  obtain ⟨cargos, hcarries, hpackets⟩ := h.carried
  have hexp : s.buffer.Expects (sectionBytes sections) sections := by
    rw [h.idle]
    rfl
  obtain ⟨final, hrun, halike⟩ :=
    SectionReceiver.pushAll_of_accepted h.areSections hexp hcarries haccepted
  obtain ⟨hdirectory, -, -, -, herrors⟩ := pushed_psi h.isOpen h.state packets
  rw [hpackets, hrun] at hdirectory herrors
  constructor
  · have hnone : cargos.map (fun _ => (none : Option DemuxError)) = packets.map fun _ => none := by
      rw [List.map_const', List.map_const', ← List.length_map, ← hpackets, List.length_map]
    rw [herrors, tableErrors_none, hnone]
  · rw [hdirectory, ← halike.directory, ← halike.versions, ← h.idle]

/-- **A refused section.**  If the first section cannot be taken apart, the packet that completes it
is refused, and nothing has changed then. -/
theorem Brings.of_refused {x : Bytes} {e : SectionError} (h : d.Brings s (x :: sections) packets)
    (hread : TableSection.ofBytes x d.options.verifyCrc = .error e) :
    ∃ before p after, packets = before ++ p :: after ∧
      (d.outcomes ((before ++ [p]).map IntactPacket.pushed)).map (·.error) =
        (before.map fun _ => none) ++
          [some (.table (d.nextOffset + before.length * Packet.size) pid e)] ∧
      (d.afterAll ((before ++ [p]).map IntactPacket.pushed)).directory = d.directory := by
  obtain ⟨cargos, hcarries, hpackets⟩ := h.carried
  have hexp : s.buffer.Expects (sectionBytes (x :: sections)) (x :: sections) := by
    rw [h.idle]
    rfl
  have hnotice : ∀ r n, SectionReceiver.Alike Eq (d.receiverFor s) r →
      ∃ next, SectionReceiver.receive d.options.verifyCrc pid s.kind r (.notice n) = (next, none) ∧
        SectionReceiver.Alike Eq (d.receiverFor s) next :=
    fun r n hr => ⟨r.note [n], rfl, hr.directory, hr.versions⟩
  have hrefused : ∀ r, SectionReceiver.Alike Eq (d.receiverFor s) r →
      ∃ next, SectionReceiver.receive d.options.verifyCrc pid s.kind r (.whole x) =
        (next, some e) ∧ SectionReceiver.Alike Eq (d.receiverFor s) next := by
    intro r hr
    refine ⟨r, ?_, hr⟩
    unfold SectionReceiver.receive
    dsimp only
    rw [hread]
  obtain ⟨front, c, back, final, rfl, hrun, halike⟩ :=
    pushAll_of_rejected _ hnotice hrefused h.areSections hexp hcarries ⟨rfl, rfl⟩
  rw [List.map_append, List.map_cons] at hpackets
  obtain ⟨before, later, rfl, hbefore, hlater⟩ := List.map_eq_append_iff.mp hpackets
  obtain ⟨p, after, rfl, hp, -⟩ := List.map_eq_cons_iff.mp hlater
  have hcontents : (before ++ [p]).map IntactPacket.content =
      (front ++ [c]).map fun c => (c.unitStart, c.payload) := by
    rw [List.map_append, List.map_append, hbefore, List.map_singleton, hp]
    rfl
  have hlength : before.length = front.length := by
    rw [← List.length_map, hbefore, List.length_map]
  obtain ⟨hdirectory, -, -, -, herrors⟩ := pushed_psi h.isOpen h.state (before ++ [p])
  rw [hcontents, hrun] at hdirectory herrors
  refine ⟨before, p, after, rfl, ?_, ?_⟩
  · have hnone : front.map (fun _ => (none : Option DemuxError)) = before.map fun _ => none := by
      rw [List.map_const', List.map_const', hlength]
    rw [herrors, tableErrors_append, tableErrors_none, hnone, List.length_map, ← hlength]
    rfl
  · rw [hdirectory, ← halike.directory, ← halike.versions, ← h.idle]
    exact Directory.setState_of_state? h.state

end Demuxer

end TransportStream
