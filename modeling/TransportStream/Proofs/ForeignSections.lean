import TransportStream.Proofs.SectionFormat
import TransportStream.Proofs.TableReception

/-!
# Sections of other tables

On a PID that carries sections there can be sections of a table that is not expected there.  Those
of the long form are skipped: the sections behind them are followed as if they were not there.  But
whether a section belongs to the table that is expected is asked only when it has been taken apart,
and only sections of the long form can be.  So a section of another table that has the short form,
or is too short for the long one, is refused, and whatever else its packet completes is lost.

* `TableSection.ofBytes_of_longForm`, `TableSection.ofBytes_of_form`: which sections can be taken
  apart.
* `SectionReceiver.receiveAll_foreign`: a section of another table is as good as none.
* `Demuxer.foreign_section`: what becomes of one that packets carry in front of others.
-/

namespace TransportStream

/-! ## Taking sections apart -/

/-- True of the sections that have the long form. -/
def hasLongForm (x : Bytes) : Bool :=
  (x[1]?).any fun b => bitFlag b 7

namespace TableSection

variable {x : Bytes}

/-- What is wrong with a complete section that cannot be taken apart. -/
def formError (x : Bytes) : SectionError :=
  if hasLongForm x then .notEnoughData .tableSection minSize x.length
  else .shortForm (x.headD 0)

/-- A complete section has its header, and is as long as that says. -/
theorem of_isSection (hx : IsSection x) :
    3 ≤ x.length ∧ 3 + sectionLength x = x.length ∧ bitFlag (x.getD 1 0) 7 = hasLongForm x := by
  obtain ⟨b₀, b₁, b₂, rest, rfl, -, hlength, -⟩ := hx.exists_eq
  have hcount : (b₀ :: b₁ :: b₂ :: rest).length = 3 + rest.length := Nat.add_comm rest.length 3
  rw [hcount, hlength]
  exact ⟨Nat.le_add_right 3 _, rfl, rfl⟩

/-- A section that has not the form that tables have cannot be taken apart, whatever its table. -/
theorem ofBytes_of_form (hx : IsSection x) (hform : hasLongForm x = false ∨ x.length < minSize)
    (verifyCrc : Bool) : ofBytes x verifyCrc = .error (formError x) := by
  obtain ⟨hheader, hsize, hflag⟩ := of_isSection hx
  rw [ofBytes_eq, if_neg (Nat.not_lt.mpr hheader), hflag, hsize, formError]
  cases hlong : hasLongForm x with
  | false => rw [if_pos rfl, if_neg Bool.false_ne_true, List.headD_eq_getD]
  | true =>
    have hshort : x.length < 12 := hform.resolve_left (by rw [hlong]; exact Bool.noConfusion)
    rw [if_neg Bool.noConfusion, if_pos (.inl hshort), if_pos rfl,
      Nat.max_eq_right (Nat.le_of_lt hshort)]
    rfl

theorem ofBytes_of_longForm (hx : IsSection x) (hform : hasLongForm x = true)
    (hlength : minSize ≤ x.length) {verifyCrc : Bool}
    (hcrc : verifyCrc = true → Checksum.sum x = 0) :
    ∃ s, ofBytes x verifyCrc = .ok s ∧ x.head? = some s.header.tableId := by
  obtain ⟨hheader, hsize, hflag⟩ := of_isSection hx
  have hmin : 12 ≤ x.length := hlength
  have hformat : HasFormat x verifyCrc := by
    refine ⟨hheader, hflag.trans hform, by omega, Nat.le_of_eq hsize, ?_⟩
    rw [hsize, List.take_length]
    exact hcrc
  refine ⟨fields x, ofBytes_eq_ok_iff.mpr ⟨hformat, rfl⟩, ?_⟩
  obtain ⟨b₀, b₁, b₂, rest, rfl, -⟩ := hx.exists_eq
  rfl

end TableSection

/-! ## Skipping -/

namespace SectionReceiver

/-- A section of another table that can be taken apart is as good as none. -/
theorem receiveAll_foreign {verifyCrc : Bool} {kind : TableKind} {x : Bytes} {s : TableSection}
    (hread : TableSection.ofBytes x verifyCrc = .ok s)
    (hforeign : s.header.tableId ≠ kind.tableId) (pid : Pid) (r : SectionReceiver)
    (sections : List Bytes) :
    (r.receiveAll verifyCrc pid kind (x :: sections)).2 =
        (r.receiveAll verifyCrc pid kind sections).2 ∧
      Alike Eq (r.receiveAll verifyCrc pid kind sections).1
        (r.receiveAll verifyCrc pid kind (x :: sections)).1 := by
  have hskip : r.receive verifyCrc pid kind (.whole x) =
      (r.note [.unexpectedTable pid kind.tableId s.header.tableId], none) := by
    rw [receive, hread]
    exact if_pos hforeign
  have hall : r.receiveAll verifyCrc pid kind (x :: sections) =
      (r.note [.unexpectedTable pid kind.tableId s.header.tableId]).receiveAll verifyCrc pid kind
        sections := by
    rw [receiveAll, List.map_cons, driveOutputs, hskip]
    rfl
  have hnoted : Alike Eq r (r.note [.unexpectedTable pid kind.tableId s.header.tableId]) :=
    ⟨rfl, rfl⟩
  obtain ⟨hlast, herror⟩ := hnoted.receiveAll Directory.isKept_eq verifyCrc pid kind sections
  rw [hall]
  exact ⟨herror.symm, hlast⟩

end SectionReceiver

namespace Demuxer

variable {d : Demuxer} {pid : Pid} {s : PsiStream} {x : Bytes} {goods : List Bytes}
  {packets : List (IntactPacket pid)}

/-- What stands behind a section of another table is followed as if that section were not there. -/
theorem Brings.of_foreign_longForm (h : d.Brings s (x :: goods) packets)
    (hforeign : x.head? ≠ some s.kind.tableId)
    (haccepted : ((d.receiverFor s).receiveAll d.options.verifyCrc pid s.kind goods).2 = none)
    (hform : hasLongForm x = true) (hlength : TableSection.minSize ≤ x.length)
    (hcrc : d.options.verifyCrc = true → Checksum.sum x = 0) :
    let r := ((d.receiverFor s).receiveAll d.options.verifyCrc pid s.kind goods).1
    (d.outcomes (packets.map IntactPacket.pushed)).map (·.error) = packets.map (fun _ => none) ∧
      (d.afterAll (packets.map IntactPacket.pushed)).directory =
        r.directory.setState pid (.psi { s with versions := r.versions }) := by
  intro r
  obtain ⟨found, hread, hid⟩ := TableSection.ofBytes_of_longForm
    (h.areSections x List.mem_cons_self) hform hlength hcrc
  have hother : found.header.tableId ≠ s.kind.tableId := fun heq => hforeign (heq ▸ hid)
  obtain ⟨herror, halike⟩ :=
    SectionReceiver.receiveAll_foreign hread hother pid (d.receiverFor s) goods
  obtain ⟨herrors, hdirectory⟩ := h.of_accepted (herror.trans haccepted)
  refine ⟨herrors, ?_⟩
  rw [hdirectory, ← halike.directory, ← halike.versions]

/-- **Sections of other tables.**  Packets carry a section of another table than the one expected,
and good ones behind it.  If it has the long form, with a checksum that is right or not looked at,
the good ones are followed as if they were alone.  If it has the short form, or is shorter than any
section of the long form, the packet that completes it is refused, and has followed nothing. -/
theorem foreign_section (h : d.Brings s (x :: goods) packets)
    (hforeign : x.head? ≠ some s.kind.tableId)
    (haccepted : ((d.receiverFor s).receiveAll d.options.verifyCrc pid s.kind goods).2 = none) :
    let r := ((d.receiverFor s).receiveAll d.options.verifyCrc pid s.kind goods).1
    (hasLongForm x = true → TableSection.minSize ≤ x.length →
      (d.options.verifyCrc = true → Checksum.sum x = 0) →
      (d.outcomes (packets.map IntactPacket.pushed)).map (·.error) = packets.map (fun _ => none) ∧
        (d.afterAll (packets.map IntactPacket.pushed)).directory =
          r.directory.setState pid (.psi { s with versions := r.versions })) ∧
    (hasLongForm x = false ∨ x.length < TableSection.minSize →
      ∃ before p after, packets = before ++ p :: after ∧
        (d.outcomes ((before ++ [p]).map IntactPacket.pushed)).map (·.error) =
          (before.map fun _ => none) ++
            [some (.table (d.nextOffset + before.length * Packet.size) pid
              (TableSection.formError x))] ∧
        (d.afterAll ((before ++ [p]).map IntactPacket.pushed)).directory = d.directory) := by
  intro r
  constructor
  · intro hform hlength hcrc
    exact h.of_foreign_longForm hforeign haccepted hform hlength hcrc
  · intro hform
    refine h.of_refused ?_
    exact TableSection.ofBytes_of_form (h.areSections x List.mem_cons_self) hform _

/-- A section of the short form in front of an association table, in one packet. -/
theorem foreign_section_short_form :
    let x : Bytes := [0x70, 0x70, 0x05, 0xe3, 0xa1, 0x12, 0x34, 0x56]
    let pat : Bytes := [0x00, 0xb0, 0x0d, 0x00, 0x01, 0xc1, 0x00, 0x00, 0x00, 0x01, 0xe0, 0x20,
      0xa2, 0xc3, 0x29, 0x41]
    let p := Multiplex.shortPacket true .pat 0 (0 :: (x ++ pat)) (by decide)
    let s : PsiStream := { kind := .pat }
    Brings {} s [x, pat] [p.intact rfl (by decide)] ∧ x.head? ≠ some s.kind.tableId ∧
      ((receiverFor {} s).receiveAll true .pat s.kind [pat]).2 = none ∧ hasLongForm x = false ∧
      (({} : Demuxer).outcomes [.push p.bytes]).map (·.error) =
        [some (.table 0 .pat (.shortForm 0x70))] ∧
      (({} : Demuxer).afterAll [.push p.bytes]).directory = {} := by
  intro x pat p s
  have hbrings : Brings {} s [x, pat] [p.intact rfl (by decide)] :=
    ⟨rfl, rfl, rfl, by decide, [{ content := sectionBytes [x, pat] }],
      ⟨[], (List.append_nil _).symm, by decide, by simp, rfl⟩, rfl⟩
  have hforeign : x.head? ≠ some s.kind.tableId := by decide
  have haccepted : ((receiverFor {} s).receiveAll true .pat s.kind [pat]).2 = none := by
    decide +kernel
  have hform : hasLongForm x = false := rfl
  obtain ⟨-, hrefused⟩ := foreign_section hbrings hforeign haccepted
  obtain ⟨before, q, after, hsplit, herrors, hdirectory⟩ := hrefused (.inl hform)
  obtain rfl : before = [] := by
    cases before with
    | nil => rfl
    | cons b before =>
      have hlength := congrArg List.length hsplit
      simp at hlength
  obtain ⟨rfl, -⟩ := List.cons.inj hsplit
  exact ⟨hbrings, hforeign, haccepted, hform, herrors, hdirectory⟩

end Demuxer

end TransportStream
