import TransportStream.Proofs.DirectoryRun

/-!
# The sections of a PID reach the directory

A PID that carries tables has some of their sections still to come.  Its state is right for them:
the buffer expects their bytes, and its filter of versions has seen none of them.  A packet follows
those that it completes, in order, and its PID is right for the others afterwards.

What following a section does to the directory is left open here.  It only has to accept every
section, as both kinds of tables do.

* `PsiStream.Serves`: the state of a PID is right for the sections that its packets carry.
* `VersionFilter.isNew_record`: a section does not make one with another number look seen.
* `driveOutputs_of_invariant`: what holds while sections are received one after the other.
* `Directory.step_of_serves`: what a packet does.
-/

namespace TransportStream

variable {α : Type} {kind : TableKind} {encode : α → Bytes}

/-! ## Sections that have not been seen -/

/-- A section that counts as seen leaves sections with other numbers as new as they were. -/
theorem VersionFilter.isNew_record {f : VersionFilter} {h h' : TableHeader}
    (hne : h'.sectionNumber ≠ h.sectionNumber) (hnew : f.isNew h' = true) :
    (f.record h).isNew h' = true := by
  by_cases hversion : h.version = h'.version
  · have hseen : (f.record h).seenIn h'.version = (f.record h).seen :=
      if_pos (congrArg some hversion)
    rw [isNew, hversion.symm] at hnew
    rw [isNew, hseen, record]
    dsimp only
    split
    · rw [List.contains_cons, beq_eq_false_iff_ne.mpr hne, Bool.false_or]
      exact hnew
    · exact hnew
  · have hseen : (f.record h).seenIn h'.version = [] :=
      if_neg fun heq => hversion (Option.some.inj heq)
    rw [isNew, hseen]
    rfl

/-- The sections have not been seen, and none of them makes another one look seen. -/
structure AllNew (versions : SortedMap Nat VersionFilter) (parts : List (TablePart kind encode)) :
    Prop where
  /-- They have not been seen. -/
  isNew : ∀ part ∈ parts,
    ((versions.get? part.place.tableExtension).getD {}).isNew part.place = true
  /-- They have different places. -/
  places : parts.Pairwise fun a b => ¬ a.SamePlace b

theorem AllNew.tail {versions : SortedMap Nat VersionFilter} {part : TablePart kind encode}
    {parts : List (TablePart kind encode)} (h : AllNew versions (part :: parts)) :
    AllNew
      (versions.insert part.place.tableExtension
        (((versions.get? part.place.tableExtension).getD {}).record part.place)) parts := by
  obtain ⟨hplace, hplaces⟩ := List.pairwise_cons.mp h.places
  refine ⟨?_, hplaces⟩
  intro other hother
  have hnew := h.isNew other (List.mem_cons_of_mem _ hother)
  rw [SortedMap.get?_insert]
  split
  · next heq =>
    rw [heq]
    refine VersionFilter.isNew_record (fun hnumber => hplace other hother ⟨heq, hnumber.symm⟩) ?_
    exact hnew
  · exact hnew

/-! ## Receiving sections -/

/-- What holds while outputs are received.  Notices leave it, and the sections among the outputs are
accepted one after the other. -/
theorem driveOutputs_of_invariant {σ β : Type} {bytes : β → Bytes}
    (receive : σ → SectionOutput → σ × Option SectionError) (Inv : List β → σ → Prop)
    (notice : ∀ parts state n, Inv parts state →
      ∃ next, receive state (.notice n) = (next, none) ∧ Inv parts next)
    (whole : ∀ part parts state, Inv (part :: parts) state →
      ∃ next, receive state (.whole (bytes part)) = (next, none) ∧ Inv parts next)
    {outputs : List SectionOutput} {delivered rest : List β} {state : σ}
    (h : Inv (delivered ++ rest) state)
    (houtputs : outputs.filterMap SectionOutput.section? = delivered.map bytes) :
    ∃ next, driveOutputs receive state outputs = (next, none) ∧ Inv rest next := by
  induction outputs generalizing delivered state with
  | nil =>
    obtain rfl : delivered = [] := List.map_eq_nil_iff.mp houtputs.symm
    exact ⟨state, rfl, h⟩
  | cons output outputs ih =>
    cases output with
    | notice n =>
      obtain ⟨next, hreceive, hnext⟩ := notice _ state n h
      obtain ⟨last, hdrive, hlast⟩ := ih hnext houtputs
      exact ⟨last, by rw [driveOutputs, hreceive]; exact hdrive, hlast⟩
    | whole found =>
      cases delivered with
      | nil => cases houtputs
      | cons part delivered =>
        obtain ⟨rfl, hrest⟩ := List.cons.inj houtputs
        obtain ⟨next, hreceive, hnext⟩ := whole part _ state h
        obtain ⟨last, hdrive, hlast⟩ := ih hnext hrest
        exact ⟨last, by rw [driveOutputs, hreceive]; exact hdrive, hlast⟩

/-- A section as the decoder gives it. -/
def TablePart.decoded (part : TablePart kind encode) : TableSection where
  header := part.outgoing.header
  table := part.place
  body := encode part.content

/-- Following a section of the kind always succeeds, and does this to the directory. -/
def Follows (kind : TableKind) (encode : α → Bytes)
    (apply : Directory → TablePart kind encode → Directory) (pid : Pid) : Prop :=
  ∀ (r : SectionReceiver) (part : TablePart kind encode), ∃ notices,
    r.follow pid kind part.decoded = ({ r with directory := apply r.directory part, notices }, none)

/-- A section that has not been seen is followed, and counts as seen from then on. -/
theorem receive_whole {apply : Directory → TablePart kind encode → Directory} {pid : Pid}
    (hfollows : Follows kind encode apply pid) {part : TablePart kind encode} {r : SectionReceiver}
    (hnew : (r.filterFor part.place).isNew part.place = true) (verifyCrc : Bool) :
    ∃ notices, r.receive verifyCrc pid kind (.whole part.bytes) =
      ({ directory := apply r.directory part
         versions := r.versions.insert part.place.tableExtension
          ((r.filterFor part.place).record part.place)
         notices }, none) := by
  have hread : TableSection.ofBytes part.bytes verifyCrc = .ok part.decoded := by
    have hbytes := part.outgoing.ofBytes_alone verifyCrc
    rwa [part.body_eq] at hbytes
  have htable : ¬ part.decoded.header.tableId ≠ kind.tableId := fun hne => hne part.tableId_eq
  have hcurrent : ¬ part.decoded.table.currentNext = .next := by
    rw [show part.decoded.table.currentNext = .current from part.current]
    exact CurrentNext.noConfusion
  obtain ⟨notices, hfollow⟩ := hfollows
    { r with
      versions := r.versions.insert part.place.tableExtension
        ((r.filterFor part.place).record part.place) } part
  refine ⟨notices, ?_⟩
  rw [SectionReceiver.receive, hread]
  dsimp only
  rw [SectionReceiver.table, if_neg htable, if_neg hcurrent]
  dsimp only
  rw [show part.decoded.table = part.place from rfl, if_pos hnew]
  exact hfollow

/-! ## The state of a PID -/

namespace PsiStream

/-- The state of a PID is right for the sections that are still to come in its packets. -/
structure Serves (s : PsiStream) (parts : List (TablePart kind encode))
    (packets : List OutgoingPacket) : Prop where
  /-- They belong to the table expected. -/
  kind_eq : s.kind = kind
  /-- They have not been seen. -/
  allNew : AllNew s.versions parts
  /-- The rest of their bytes is expected, and the packets carry it. -/
  carried : ∃ toCome cargos, s.buffer.Expects toCome (parts.map TablePart.bytes) ∧
    Carries toCome cargos ∧
    packets.map (fun p => (p.unitStart, p.payload)) = cargos.map fun c => (c.unitStart, c.payload)

variable {s : PsiStream} {parts : List (TablePart kind encode)} {p : OutgoingPacket}
  {packets : List OutgoingPacket}

/-- A new state is right for all sections. -/
theorem serves_new (hplaces : parts.Pairwise fun a b => ¬ a.SamePlace b)
    (hcarried : TablePart.AreCarried parts packets) : Serves { kind } parts packets := by
  obtain ⟨cargos, hcarries, hpackets⟩ := hcarried
  exact ⟨rfl, ⟨fun part _ => rfl, hplaces⟩, _, cargos, rfl, hcarries, hpackets⟩

theorem isSection_of_mem_map {b : Bytes} (h : b ∈ parts.map TablePart.bytes) : IsSection b := by
  obtain ⟨part, -, rfl⟩ := List.mem_map.mp h
  exact part.isSection_bytes

/-- Without packets there are no sections to come. -/
theorem Serves.eq_nil (h : s.Serves parts []) : parts = [] := by
  obtain ⟨toCome, cargos, hexp, hcarries, hpackets⟩ := h.carried
  obtain rfl : cargos = [] := List.map_eq_nil_iff.mp hpackets.symm
  obtain rfl : toCome = [] := hcarries
  exact List.map_eq_nil_iff.mp
    (SectionBuffer.of_expects_nil (fun _ => isSection_of_mem_map) hexp).2

/-- A packet without payload carries no bytes of sections. -/
theorem Serves.of_nil (h : s.Serves parts (p :: packets)) (hnil : p.payload = []) :
    s.Serves parts packets := by
  obtain ⟨toCome, cargos, hexp, hcarries, hpackets⟩ := h.carried
  cases cargos with
  | nil => cases hpackets
  | cons c cargos =>
    obtain ⟨hpacket, hpackets⟩ := List.cons.inj hpackets
    obtain ⟨later, rfl, -, -, hlater⟩ := hcarries
    have hpayload : c.payload = [] := (congrArg Prod.snd hpacket).symm.trans hnil
    rw [SectionCargo.payload, List.append_eq_nil_iff, List.append_eq_nil_iff] at hpayload
    have hcontent : c.content = [] := List.map_eq_nil_iff.mp hpayload.2.1
    rw [hcontent] at hexp
    exact ⟨h.kind_eq, h.allNew, later, cargos, hexp, hlater, hpackets⟩

/-- A packet completes some of the sections, and the rest of the others is expected. -/
theorem Serves.exists_push (h : s.Serves parts (p :: packets)) :
    ∃ delivered rest outputs buffer, parts = delivered ++ rest ∧
      s.buffer.push p.unitStart p.payload = { outputs, buffer } ∧
      outputs.filterMap SectionOutput.section? = delivered.map TablePart.bytes ∧
      ∀ versions, AllNew versions rest → Serves { s with buffer, versions } rest packets := by
  obtain ⟨toCome, cargos, hexp, hcarries, hpackets⟩ := h.carried
  cases cargos with
  | nil => cases hpackets
  | cons c cargos =>
    obtain ⟨hpacket, hpackets⟩ := List.cons.inj hpackets
    obtain ⟨later, rfl, hpointer, hstuffed, hlater⟩ := hcarries
    obtain ⟨sections, others, outputs, buffer, hsplit, hpush, houtputs, hnext⟩ :=
      SectionBuffer.expects_push (fun _ => isSection_of_mem_map) hexp hpointer hstuffed
    obtain ⟨delivered, rest, rfl, rfl, rfl⟩ := List.map_eq_append_iff.mp hsplit
    rw [Prod.mk.injEq] at hpacket
    refine ⟨delivered, rest, outputs, buffer, rfl, ?_, houtputs, fun versions hnew => ?_⟩
    · rw [hpacket.1, hpacket.2]
      exact hpush
    · exact ⟨h.kind_eq, hnew, later, cargos, hnext, hlater, hpackets⟩

end PsiStream

/-! ## One packet -/

namespace Directory

/-- **One packet.**  What holds of the directory while sections are followed holds after those that
the packet completes, and its PID is right for the others. -/
theorem step_of_serves {apply : Directory → TablePart kind encode → Directory}
    {p : OutgoingPacket} (hfollows : Follows kind encode apply p.pid)
    (Inv : List (TablePart kind encode) → Directory → Prop)
    (happly : ∀ part parts d, Inv (part :: parts) d → Inv parts (apply d part))
    {d : Directory} {s : PsiStream} {parts : List (TablePart kind encode)}
    {packets : List OutgoingPacket} (hstate : d.state? p.pid = some (.psi s))
    (hgood : p.transportError = false) (hserves : s.Serves parts (p :: packets))
    (h : Inv parts d) :
    ∃ rest d' s', d.Step (.planned p) (d'.setState p.pid (.psi s')) [] ∧
      s'.Serves rest packets ∧ Inv rest d' := by
  by_cases hnil : p.payload = []
  · refine ⟨parts, d, s, ?_, hserves.of_nil hnil, h⟩
    rw [setState_of_state? hstate]
    exact step_of_psi_nil hstate hgood hnil
  · obtain ⟨delivered, rest, outputs, buffer, rfl, hpush, houtputs, hnext⟩ := hserves.exists_push
    have hwhole (part : TablePart kind encode) (parts : List (TablePart kind encode))
        (r : SectionReceiver) :
        AllNew r.versions (part :: parts) ∧ Inv (part :: parts) r.directory →
          ∃ next, r.receive true p.pid s.kind (.whole part.bytes) = (next, none) ∧
            AllNew next.versions parts ∧ Inv parts next.directory := by
      rintro ⟨hnew, hinv⟩
      obtain ⟨notices, hreceive⟩ := receive_whole hfollows (hnew.isNew part List.mem_cons_self) true
      rw [hserves.kind_eq, hreceive]
      exact ⟨_, rfl, hnew.tail, happly part parts r.directory hinv⟩
    have hreceiver : AllNew ({ directory := d, versions := s.versions } : SectionReceiver).versions
        (delivered ++ rest) ∧ Inv (delivered ++ rest) d := ⟨hserves.allNew, h⟩
    obtain ⟨r, hdrive, hnew, hr⟩ := driveOutputs_of_invariant
      (SectionReceiver.receive true p.pid s.kind)
      (fun parts r => AllNew r.versions parts ∧ Inv parts r.directory)
      (fun parts r n hinv => ⟨r.note [n], rfl, hinv⟩) hwhole hreceiver houtputs
    refine ⟨rest, r.directory, { s with buffer, versions := r.versions },
      step_of_psi hstate hgood hnil ?_, hnext _ hnew, hr⟩
    rw [hpush, Feed.drive, hdrive]

end Directory

end TransportStream
