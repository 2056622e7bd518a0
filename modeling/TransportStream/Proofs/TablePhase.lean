import TransportStream.Proofs.Announcements
import TransportStream.Proofs.SectionReception

/-!
# The tables of a multiplex

The first packets of a multiplex make the directory know its programs, and the next ones make it
know its streams.  While the sections of a table are on their way, what is known is what the
sections that have come announce, so the invariants say three things: nothing is known that the
multiplex does not announce, what it announces is known or in a section still to come, and a PID has
a state exactly if something is known about it.

* `Multiplex.KnowsPrograms`, `Multiplex.run_patPackets`: the association table.
* `Multiplex.KnowsStreams`, `Multiplex.run_mapPackets`: the map tables.
-/

namespace TransportStream

namespace Directory

/-! ## What one section does -/

/-- The directory after a section of the association table. -/
def afterPat (d : Directory) (part : PatPart) : Directory :=
  (d.applyPat ⟨part.content.map OutgoingProgram.entry⟩).1

/-- The directory after a section of a map table on the given PID. -/
def afterMap (pid : Pid) (d : Directory) (part : MapPart) : Directory :=
  (d.applyPmt pid part.place.tableExtension (sectionOf part.content)).1

theorem follows_afterPat (pid : Pid) :
    Follows .pat (fun entries : List OutgoingProgram => entries.flatMap OutgoingProgram.bytes)
      afterPat pid := by
  intro r part
  unfold SectionReceiver.follow
  dsimp only [TablePart.decoded]
  rw [OutgoingProgram.ofBytes_bytes]
  exact ⟨_, rfl⟩

theorem follows_afterMap (pid : Pid) : Follows .pmt OutgoingMap.bytes (afterMap pid) pid := by
  intro r part
  unfold SectionReceiver.follow
  dsimp only [TablePart.decoded]
  rw [OutgoingMap.ofBytes_bytes]
  exact ⟨_, rfl⟩

/-- Nothing that has been announced is lost. -/
structure Keeps (d d' : Directory) : Prop where
  /-- The states are the same. -/
  states : ∀ pid state, d.state? pid = some state → d'.state? pid = some state
  /-- The streams are still known. -/
  streams : ∀ pid, (d.table.binding? pid).isSome = true → (d'.table.binding? pid).isSome = true

variable {d d' d'' : Directory} {pid : Pid} {part : MapPart}

theorem Keeps.refl (d : Directory) : d.Keeps d :=
  ⟨fun _ _ h => h, fun _ h => h⟩

theorem Keeps.trans (h : d.Keeps d') (h' : d'.Keeps d'') : d.Keeps d'' :=
  ⟨fun pid state hstate => h'.states pid state (h.states pid state hstate),
    fun pid hstream => h'.streams pid (h.streams pid hstream)⟩

theorem keeps_afterMap
    (h : d.table.Admits (announced part.place.tableExtension part.content)) :
    d.Keeps (afterMap pid d part) := by
  constructor
  · intro pid' state hstate
    rw [afterMap, state?_applyPmt h, hstate, Option.some_or]
  · intro pid' hstream
    rw [afterMap, binding?_applyPmt h, Option.isSome_or, hstream, Bool.true_or]

/-- All streams of a section are known afterwards. -/
theorem isSome_binding?_afterMap
    (h : d.table.Admits (announced part.place.tableExtension part.content)) {e : OutgoingStream}
    (he : e ∈ part.content.streams) :
    ((afterMap pid d part).table.binding? e.pid).isSome = true := by
  have hfind : ((announced part.place.tableExtension part.content).find?
      fun b => b.pid = e.pid).isSome = true :=
    List.find?_isSome.mpr ⟨_, List.mem_map_of_mem he, decide_eq_true rfl⟩
  rw [afterMap, binding?_applyPmt h, Option.isSome_or, hfind, Bool.or_true]

end Directory

namespace Multiplex

open Directory

variable {m : Multiplex} {d : Directory}

/-! ## Packets and where they belong -/

theorem Belong.tail {p : MuxPacket} {packets : List MuxPacket} {here : Pid → Prop}
    (h : m.Belong (p :: packets) here) : m.Belong packets here :=
  (List.forall_mem_cons.mp h).2

theorem Belong.head_planned {p : OutgoingPacket} {packets : List MuxPacket} {here : Pid → Prop}
    (h : m.Belong (.planned p :: packets) here) : here p.pid ∧ p.transportError = false :=
  (List.forall_mem_cons.mp h).1

theorem Belong.head_foreign {b₁ b₂ b₃ : UInt8} {body : Bytes} {hbody : body.length = 184}
    {packets : List MuxPacket} {here : Pid → Prop}
    (h : m.Belong (.foreign b₁ b₂ b₃ body hbody :: packets) here) :
    ¬ m.Announces (.ofBytes b₁ b₂) :=
  (List.forall_mem_cons.mp h).1

theorem ne_of_not_announces {pid : Pid} (h : ¬ m.Announces pid) : pid ≠ .pat :=
  fun heq => h (.inl heq)

theorem not_isMapPid_of_not_announces {pid : Pid} (h : ¬ m.Announces pid) : ¬ m.IsMapPid pid :=
  fun hmap => h (.inr (.inl hmap))

/-! ## The association table -/

/-- The directory knows the programs, except for those in the given sections, and no streams. -/
structure KnowsPrograms (m : Multiplex) (parts : List PatPart) (d : Directory) : Prop where
  /-- The sections are among those of the multiplex. -/
  subset : ∀ part ∈ parts, part ∈ m.patParts
  /-- No stream is known. -/
  streams : ∀ pid, d.table.binding? pid = none
  /-- Only announced map tables are known. -/
  sound : ∀ pid, d.table.isPmtPid pid = true → m.IsMapPid pid
  /-- The others are in the sections. -/
  complete : ∀ pid, m.IsMapPid pid → d.table.isPmtPid pid = true ∨
    ∃ part ∈ parts, ∃ e ∈ part.content, e.number ≠ 0 ∧ e.pid = pid
  /-- Their PIDs have new states, and other PIDs have none. -/
  states : ∀ pid, pid ≠ .pat →
    d.state? pid = if d.table.isPmtPid pid = true then some (.psi { kind := .pmt }) else none

/-- A PID without announcement has no state. -/
theorem KnowsPrograms.state?_eq_none {parts : List PatPart} (h : m.KnowsPrograms parts d)
    {pid : Pid} (hpid : ¬ m.Announces pid) : d.state? pid = none := by
  rw [h.states pid (ne_of_not_announces hpid)]
  exact if_neg fun hpmt => not_isMapPid_of_not_announces hpid (h.sound pid hpmt)

/-- A section of the association table makes its programs known. -/
theorem KnowsPrograms.afterPat (hm : m.IsValid) {part : PatPart} {parts : List PatPart}
    (h : m.KnowsPrograms (part :: parts) d) : m.KnowsPrograms parts (d.afterPat part) := by
  obtain ⟨hpart, hparts⟩ := List.forall_mem_cons.mp h.subset
  have hannounced {e : OutgoingProgram} (he : e ∈ part.content) (hnumber : e.number ≠ 0) :
      m.IsMapPid e.pid := ⟨part, hpart, e, he, hnumber, rfl⟩
  have hpmt (pid : Pid) : (d.afterPat part).table.isPmtPid pid = true ↔
      d.table.isPmtPid pid = true ∨ ∃ e ∈ part.content, e.number ≠ 0 ∧ e.pid = pid :=
    ProgramTable.isPmtPid_applyPat (fun e _ => h.streams e.pid)
      (fun e he hnumber heq => hm.map_ne_pat (heq ▸ hannounced he hnumber)) pid
  constructor
  · exact hparts
  · intro pid
    have hstreams : (d.afterPat part).table.streams = d.table.streams :=
      ProgramTable.streams_applyPat _
    rw [ProgramTable.binding?, hstreams]
    exact h.streams pid
  · intro pid hknown
    rcases (hpmt pid).mp hknown with hknown | ⟨e, he, hnumber, rfl⟩
    · exact h.sound pid hknown
    · exact hannounced he hnumber
  · intro pid hmap
    rcases h.complete pid hmap with hknown | ⟨other, hother, he⟩
    · exact .inl ((hpmt pid).mpr (.inl hknown))
    · rcases List.mem_cons.mp hother with rfl | hother
      · exact .inl ((hpmt pid).mpr (.inr he))
      · exact .inr ⟨other, hother, he⟩
  · intro pid hpid
    have hstate := state?_applyPat (d := d) ⟨part.content.map OutgoingProgram.entry⟩ pid
    rw [h.states pid hpid] at hstate
    refine hstate.trans ?_
    by_cases hknown : d.table.isPmtPid pid = true
    · rw [if_pos hknown, if_pos ((hpmt pid).mpr (.inl hknown)), Option.some_or]
    · rw [if_neg hknown, Option.none_or]
      rfl

/-- The packets of the association table, on their way. -/
structure PatProgress (m : Multiplex) (packets : List MuxPacket) (shown : List Frame)
    (d : Directory) : Prop where
  /-- There are no frames yet. -/
  shown_eq : shown = []
  /-- The packets belong here. -/
  belong : m.Belong packets fun pid => pid = .pat
  /-- The PID of the table is right for the sections that are missing. -/
  serves : ∃ s parts, d.state? .pat = some (.psi s) ∧
    s.Serves parts (MuxPacket.on .pat packets) ∧ m.KnowsPrograms parts d

/-- What is known does not depend on the state of the PID of the table. -/
theorem KnowsPrograms.setState {parts : List PatPart} (h : m.KnowsPrograms parts d)
    (state : PidState) : m.KnowsPrograms parts (d.setState .pat state) := by
  refine ⟨h.subset, h.streams, h.sound, h.complete, ?_⟩
  intro pid hpid
  rw [state?_setState_of_ne d (Ne.symm hpid)]
  exact h.states pid hpid

/-- One packet. -/
theorem PatProgress.step (hm : m.IsValid) {p : MuxPacket} {packets : List MuxPacket}
    {shown : List Frame} (h : m.PatProgress (p :: packets) shown d) :
    ∃ next frames, d.Step p next frames ∧ m.PatProgress packets (shown ++ frames) next := by
  obtain ⟨rfl, hbelong, s, parts, hstate, hserves, hknows⟩ := h
  cases p with
  | foreign b₁ b₂ b₃ body hbody =>
    have hforeign := hbelong.head_foreign
    rw [MuxPacket.on_cons_of_ne (p := .foreign b₁ b₂ b₃ body hbody) (ne_of_not_announces hforeign)]
      at hserves
    exact ⟨d, [], step_of_none (hknows.state?_eq_none hforeign), rfl, hbelong.tail, s, parts,
      hstate, hserves, hknows⟩
  | planned p =>
    obtain ⟨hpid, hgood⟩ := hbelong.head_planned
    rw [← hpid, MuxPacket.on_cons_planned] at hserves
    rw [← hpid] at hstate
    obtain ⟨rest, d', s', hstep, hrest, hd'⟩ := step_of_serves (follows_afterPat p.pid)
      m.KnowsPrograms (fun part parts d hknows => hknows.afterPat hm) hstate hgood hserves hknows
    refine ⟨_, [], hstep, rfl, hbelong.tail, s', rest, ?_, ?_, ?_⟩
    · rw [← hpid, state?_setState_self]
    · rw [← hpid]
      exact hrest
    · rw [hpid]
      exact hd'.setState _

/-- **The association table.**  After its packets all programs are known. -/
theorem run_patPackets (hm : m.IsValid) :
    ∃ d s, Run {} m.patPackets d [] ∧ m.KnowsPrograms [] d ∧ d.state? .pat = some (.psi s) := by
  have hstate (pid : Pid) (hpid : pid ≠ .pat) : ({} : Directory).state? pid = none :=
    (SortedMap.get?_insert_of_ne _ (Ne.symm hpid) _).trans rfl
  have hknows : m.KnowsPrograms m.patParts {} :=
    ⟨fun _ h => h, fun _ => rfl, fun _ h => absurd h Bool.false_ne_true, fun _ h => .inr h, hstate⟩
  have hfirst : m.PatProgress m.patPackets [] {} :=
    ⟨rfl, hm.pat_belong, { kind := .pat }, m.patParts, rfl,
      PsiStream.serves_new hm.pat_places hm.pat_carried, hknows⟩
  obtain ⟨d, frames, hrun, hshown, -, s, parts, hpat, hserves, hknows⟩ :=
    Run.of_invariant m.PatProgress (fun p packets shown d h => h.step hm) hfirst
  obtain rfl : parts = [] := hserves.eq_nil
  obtain rfl : frames = [] := hshown
  exact ⟨d, s, hrun, hknows, hpat⟩

/-! ## The map tables -/

/-- The directory knows all programs, and only streams that are listed. -/
structure KnowsStreams (m : Multiplex) (d : Directory) : Prop where
  /-- All map tables are known. -/
  programs : ∀ pid, d.table.isPmtPid pid = true ↔ m.IsMapPid pid
  /-- Streams that are known are listed with their codec. -/
  streams : ∀ pid b, d.table.binding? pid = some b →
    b.pid = pid ∧ ∃ e, m.Lists e ∧ e.pid = pid ∧ e.entry.codec = b.codec
  /-- The PIDs of tables carry sections. -/
  tables : ∀ pid, pid = .pat ∨ m.IsMapPid pid → ∃ s, d.state? pid = some (.psi s)
  /-- Other PIDs have a state if their stream is known. -/
  states : ∀ pid, pid ≠ .pat → ¬ m.IsMapPid pid →
    d.state? pid = (d.table.binding? pid).map .ofBinding

/-- Once the programs are known the directory is ready for the map tables. -/
theorem KnowsPrograms.knowsStreams (h : m.KnowsPrograms [] d) {s : PsiStream}
    (hpat : d.state? .pat = some (.psi s)) : m.KnowsStreams d := by
  have hpmt (pid : Pid) : d.table.isPmtPid pid = true ↔ m.IsMapPid pid := by
    refine ⟨h.sound pid, fun hmap => (h.complete pid hmap).resolve_right ?_⟩
    rintro ⟨part, hpart, -⟩
    cases hpart
  constructor
  · exact hpmt
  · intro pid b hb
    rw [h.streams pid] at hb
    cases hb
  · intro pid hpid
    by_cases heq : pid = .pat
    · exact ⟨s, heq ▸ hpat⟩
    · refine ⟨{ kind := .pmt }, ?_⟩
      rw [h.states pid heq, if_pos ((hpmt pid).mpr (hpid.resolve_left heq))]
  · intro pid hne hmap
    rw [h.states pid hne, if_neg fun hknown => hmap ((hpmt pid).mp hknown), h.streams pid]
    rfl

/-- A PID without announcement has no state. -/
theorem KnowsStreams.state?_eq_none (h : m.KnowsStreams d) {pid : Pid} (hpid : ¬ m.Announces pid) :
    d.state? pid = none := by
  rw [h.states pid (ne_of_not_announces hpid) (not_isMapPid_of_not_announces hpid)]
  cases hb : d.table.binding? pid with
  | none => rfl
  | some b =>
    obtain ⟨-, e, hlists, he, -⟩ := h.streams pid b hb
    exact absurd (.inr (.inr ⟨e, hlists, he⟩)) hpid

variable {pid : Pid}

/-- The streams of a map table can be announced. -/
theorem KnowsStreams.admits (hm : m.IsValid) (h : m.KnowsStreams d) (hmap : m.IsMapPid pid)
    {part : MapPart} (hpart : part ∈ m.mapParts pid) :
    d.table.Admits (announced part.place.tableExtension part.content) := by
  intro b hb
  obtain ⟨e, he, rfl⟩ := List.mem_map.mp hb
  have hlists : m.Lists e := ⟨pid, hmap, part, hpart, he⟩
  obtain ⟨hpat, htable⟩ := hm.stream_ne_table e hlists
  exact ⟨Bool.eq_false_iff.mpr fun hpmt => htable ((h.programs e.pid).mp hpmt), hpat⟩

/-- A section of a map table makes its streams known. -/
theorem KnowsStreams.afterMap (hm : m.IsValid) (h : m.KnowsStreams d) (hmap : m.IsMapPid pid)
    {part : MapPart} (hpart : part ∈ m.mapParts pid) : m.KnowsStreams (afterMap pid d part) := by
  have hadmits := h.admits hm hmap hpart
  have hkeeps : d.Keeps (Directory.afterMap pid d part) := keeps_afterMap hadmits
  constructor
  · intro pid'
    rw [Directory.afterMap, isPmtPid_applyPmt]
    exact h.programs pid'
  · intro pid' b hb
    rw [Directory.afterMap, binding?_applyPmt hadmits, Option.or_eq_some_iff] at hb
    rcases hb with hb | ⟨-, hb⟩
    · exact h.streams pid' b hb
    · obtain ⟨e, he, rfl⟩ := List.mem_map.mp (List.mem_of_find?_eq_some hb)
      have hfound := List.find?_some hb
      have hpid : e.pid = pid' := of_decide_eq_true hfound
      exact ⟨hpid, e, ⟨pid, hmap, part, hpart, he⟩, hpid, rfl⟩
  · intro pid' hpid
    obtain ⟨s, hs⟩ := h.tables pid' hpid
    exact ⟨s, hkeeps.states pid' _ hs⟩
  · intro pid' hne hnot
    rw [Directory.afterMap, state?_applyPmt hadmits, binding?_applyPmt hadmits,
      h.states pid' hne hnot]
    cases d.table.binding? pid' with
    | some b => rfl
    | none => rfl

/-- Giving the PID of a table another state of its kind changes nothing that is known. -/
theorem KnowsStreams.setState (h : m.KnowsStreams d) (hmap : m.IsMapPid pid) (s : PsiStream) :
    m.KnowsStreams (d.setState pid (.psi s)) := by
  refine ⟨h.programs, h.streams, ?_, ?_⟩
  · intro pid' hpid
    by_cases heq : pid = pid'
    · exact ⟨s, heq ▸ state?_setState_self d pid (.psi s)⟩
    · rw [state?_setState_of_ne d heq]
      exact h.tables pid' hpid
  · intro pid' hne hnot
    have hother : pid ≠ pid' := fun heq => hnot (heq ▸ hmap)
    rw [state?_setState_of_ne d hother]
    exact h.states pid' hne hnot

/-- The sections of map tables on a PID that are missing.  The streams of the others are known. -/
structure Awaits (m : Multiplex) (pid : Pid) (parts : List MapPart) (d : Directory) : Prop where
  /-- The sections are among those of the PID. -/
  subset : ∀ part ∈ parts, part ∈ m.mapParts pid
  /-- The streams of the others are known. -/
  known : ∀ part ∈ m.mapParts pid, part ∈ parts ∨
    ∀ e ∈ part.content.streams, (d.table.binding? e.pid).isSome = true

theorem Awaits.mono {parts : List MapPart} {d' : Directory} (h : m.Awaits pid parts d)
    (hkeeps : d.Keeps d') : m.Awaits pid parts d' :=
  ⟨h.subset, fun part hpart => (h.known part hpart).imp_right
    fun hknown e he => hkeeps.streams e.pid (hknown e he)⟩

/-- It does not depend on the states. -/
theorem Awaits.setState {parts : List MapPart} (h : m.Awaits pid parts d) (pid' : Pid)
    (state : PidState) : m.Awaits pid parts (d.setState pid' state) :=
  ⟨h.subset, h.known⟩

theorem Awaits.afterMap {part : MapPart} {parts : List MapPart}
    (h : m.Awaits pid (part :: parts) d)
    (hadmits : d.table.Admits (announced part.place.tableExtension part.content)) :
    m.Awaits pid parts (afterMap pid d part) := by
  refine ⟨(List.forall_mem_cons.mp h.subset).2, ?_⟩
  intro other hother
  rcases h.known other hother with hmem | hknown
  · rcases List.mem_cons.mp hmem with rfl | hmem
    · exact .inr fun e he => isSome_binding?_afterMap hadmits he
    · exact .inl hmem
  · exact .inr fun e he => (keeps_afterMap hadmits).streams e.pid (hknown e he)

/-- The packets of the map tables, on their way. -/
structure MapProgress (m : Multiplex) (packets : List MuxPacket) (shown : List Frame)
    (d : Directory) : Prop where
  /-- There are no frames yet. -/
  shown_eq : shown = []
  /-- The packets belong here. -/
  belong : m.Belong packets m.IsMapPid
  /-- The programs are known, and only streams that are listed. -/
  knows : m.KnowsStreams d
  /-- The PIDs of the tables are right for the sections that are missing. -/
  serves : ∀ pid, m.IsMapPid pid → ∃ s parts, d.state? pid = some (.psi s) ∧
    s.Serves parts (MuxPacket.on pid packets) ∧ m.Awaits pid parts d

/-- One packet. -/
theorem MapProgress.step (hm : m.IsValid) {p : MuxPacket} {packets : List MuxPacket}
    {shown : List Frame} (h : m.MapProgress (p :: packets) shown d) :
    ∃ next frames, d.Step p next frames ∧ m.MapProgress packets (shown ++ frames) next := by
  obtain ⟨rfl, hbelong, hknows, hserves⟩ := h
  cases p with
  | foreign b₁ b₂ b₃ body hbody =>
    have hforeign := hbelong.head_foreign
    refine ⟨d, [], step_of_none (hknows.state?_eq_none hforeign), rfl, hbelong.tail, hknows,
      fun pid hpid => ?_⟩
    obtain ⟨s, parts, hstate, hs, hawaits⟩ := hserves pid hpid
    have hne : Pid.ofBytes b₁ b₂ ≠ pid :=
      fun heq => not_isMapPid_of_not_announces hforeign (heq ▸ hpid)
    rw [MuxPacket.on_cons_of_ne (p := .foreign b₁ b₂ b₃ body hbody) hne] at hs
    exact ⟨s, parts, hstate, hs, hawaits⟩
  | planned p =>
    obtain ⟨hmap, hgood⟩ := hbelong.head_planned
    obtain ⟨s, parts, hstate, hs, hawaits⟩ := hserves p.pid hmap
    rw [MuxPacket.on_cons_planned] at hs
    have hafter (part : MapPart) (parts : List MapPart) (d' : Directory) :
        m.KnowsStreams d' ∧ m.Awaits p.pid (part :: parts) d' ∧ d.Keeps d' →
          m.KnowsStreams (Directory.afterMap p.pid d' part) ∧
            m.Awaits p.pid parts (Directory.afterMap p.pid d' part) ∧
            d.Keeps (Directory.afterMap p.pid d' part) := by
      rintro ⟨hknows', hawaits', hkeeps⟩
      have hpart := hawaits'.subset part List.mem_cons_self
      have hadmits := hknows'.admits hm hmap hpart
      exact ⟨hknows'.afterMap hm hmap hpart, hawaits'.afterMap hadmits,
        hkeeps.trans (keeps_afterMap hadmits)⟩
    obtain ⟨rest, d', s', hstep, hrest, hknows', hawaits', hkeeps⟩ :=
      step_of_serves (follows_afterMap p.pid)
        (fun parts d' => m.KnowsStreams d' ∧ m.Awaits p.pid parts d' ∧ d.Keeps d') hafter hstate
        hgood hs ⟨hknows, hawaits, .refl d⟩
    refine ⟨_, [], hstep, rfl, hbelong.tail, hknows'.setState hmap s', ?_⟩
    intro pid hpid
    by_cases heq : p.pid = pid
    · subst heq
      exact ⟨s', rest, state?_setState_self d' p.pid (.psi s'), hrest, hawaits'.setState _ _⟩
    · -- the sections on another PID are as far as they were
      obtain ⟨s₁, parts₁, hstate₁, hs₁, hawaits₁⟩ := hserves pid hpid
      rw [MuxPacket.on_cons_of_ne (p := .planned p) heq] at hs₁
      refine ⟨s₁, parts₁, ?_, hs₁, (hawaits₁.mono hkeeps).setState _ _⟩
      rw [state?_setState_of_ne d' heq]
      exact hkeeps.states pid _ hstate₁

/-- **The map tables.**  After their packets all streams are known. -/
theorem run_mapPackets (hm : m.IsValid) {s : PsiStream} (h : m.KnowsPrograms [] d)
    (hpat : d.state? .pat = some (.psi s)) :
    ∃ last, Run d m.mapPackets last [] ∧ m.KnowsStreams last ∧
      ∀ e, m.Lists e → (last.table.binding? e.pid).isSome = true := by
  have hknows := h.knowsStreams hpat
  have hfirst : m.MapProgress m.mapPackets [] d := by
    refine ⟨rfl, hm.map_belong, hknows, ?_⟩
    intro pid hpid
    have hne : pid ≠ .pat := fun heq => hm.map_ne_pat (heq ▸ hpid)
    refine ⟨{ kind := .pmt }, m.mapParts pid, ?_,
      PsiStream.serves_new (hm.map_places pid hpid) (hm.map_carried pid hpid),
      fun part hpart => hpart, fun part hpart => .inl hpart⟩
    rw [h.states pid hne, if_pos ((hknows.programs pid).mpr hpid)]
  obtain ⟨last, frames, hrun, hshown, -, hknows', hserves⟩ :=
    Run.of_invariant m.MapProgress (fun p packets shown d h => h.step hm) hfirst
  obtain rfl : frames = [] := hshown
  refine ⟨last, hrun, hknows', ?_⟩
  rintro e ⟨pid, hpid, part, hpart, he⟩
  obtain ⟨s', parts, -, hs, hawaits⟩ := hserves pid hpid
  obtain rfl : parts = [] := hs.eq_nil
  exact (hawaits.known part hpart).resolve_left List.not_mem_nil e he

end Multiplex

end TransportStream
