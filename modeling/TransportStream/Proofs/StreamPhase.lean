import TransportStream.Proofs.DirectoryRun

/-!
# The streams of a multiplex

Once all streams are announced, the packets of different PIDs have nothing to do with each other: a
packet changes the state of its own PID, and the frames it completes name that PID.  So what comes
out on a PID is what its own packets yield, wherever the packets of the others stand.

The invariant says for each PID that the frames handed out on it and those that its state still owes
are together the frames expected.  A packet moves frames from the second part to the first.

* `PidState.Owes`: what a state still hands out.
* `Directory.Delivers.step`: the invariant is preserved.
* `Directory.run_of_delivers`: all packets, and what is left at the end.
-/

namespace TransportStream

/-- A stream can use the packet: it is not damaged, and has a payload. -/
def MuxPacket.IsUsable : MuxPacket → Prop
  | planned p => p.transportError = false ∧ p.payload ≠ []
  | foreign .. => False

theorem MuxPacket.IsUsable.exists_eq {p : MuxPacket} (h : p.IsUsable) :
    ∃ q : OutgoingPacket, p = .planned q ∧ q.transportError = false ∧ q.payload ≠ [] := by
  cases p with
  | planned q => exact ⟨q, rfl, h⟩
  | foreign => exact absurd h id

namespace PidState

/-- The frames that a PID in the given state still hands out when it gets its packets and then the
end of the stream.  There are some only if it carries a stream that is cut into frames, and sections
are not to come. -/
def Owes (pid : Pid) (packets : List MuxPacket) (frames : List Frame) : Option PidState → Prop
  | none | some .unframed => frames = []
  | some (.psi _) => frames = [] ∧ ∀ p ∈ packets, p.pid ≠ pid
  | some (.pes s) =>
    s.Yields {} (MuxPacket.on pid packets) frames ∧ (∀ f ∈ frames, f.pid = pid) ∧
      ∀ p ∈ packets, p.pid = pid → p.IsUsable

variable {pid : Pid} {p : MuxPacket} {packets : List MuxPacket} {frames : List Frame}
  {state : Option PidState}

theorem Owes.pid_eq (h : Owes pid packets frames state) : ∀ f ∈ frames, f.pid = pid := by
  match state, h with
  | none, h => simp [show frames = [] from h]
  | some .unframed, h => simp [show frames = [] from h]
  | some (.psi s), h => simp [h.1]
  | some (.pes s), h => exact h.2.1

/-- A packet of another PID makes no difference. -/
theorem Owes.of_cons (h : Owes pid (p :: packets) frames state) (hp : p.pid ≠ pid) :
    Owes pid packets frames state := by
  match state, h with
  | none, h => exact h
  | some .unframed, h => exact h
  | some (.psi s), h => exact ⟨h.1, (List.forall_mem_cons.mp h.2).2⟩
  | some (.pes s), ⟨hyields, hpid, husable⟩ =>
    rw [MuxPacket.on_cons_of_ne hp] at hyields
    exact ⟨hyields, hpid, (List.forall_mem_cons.mp husable).2⟩

/-- Without packets, what is owed is what the end of the stream brings. -/
theorem Owes.flush (h : Owes pid [] frames state) :
    (state.map fun state => state.flush.2).getD [] = frames := by
  match state, h with
  | none, h => exact h.symm
  | some .unframed, h => exact h.symm
  | some (.psi s), h => exact h.1.symm
  | some (.pes s), h => exact h.1

end PidState

namespace Directory

open PidState

/-- The frames handed out on a PID, and those that its state still owes, are the frames expected. -/
def Delivers (expected : Pid → List Frame) (packets : List MuxPacket) (shown : List Frame)
    (d : Directory) : Prop :=
  ∀ pid, ∃ owed, expected pid = shown.filter (fun f => f.pid = pid) ++ owed ∧
    Owes pid packets owed (d.state? pid)

variable {expected : Pid → List Frame} {p : MuxPacket} {packets : List MuxPacket}
  {shown : List Frame} {d : Directory}

/-- A packet that no stream uses is owed nothing. -/
theorem Delivers.step_ignored (h : d.Delivers expected (p :: packets) shown)
    (hp : d.state? p.pid = none ∨ d.state? p.pid = some .unframed) :
    d.Delivers expected packets shown := by
  intro pid
  obtain ⟨owed, hexpected, howes⟩ := h pid
  refine ⟨owed, hexpected, ?_⟩
  by_cases hpid : p.pid = pid
  · subst hpid
    rcases hp with hp | hp <;> rw [hp] at howes ⊢ <;> exact howes
  · exact howes.of_cons hpid

/-- A packet of a stream makes it hand out some of the frames it owes. -/
theorem Delivers.step_pes {q : OutgoingPacket} {s next : PesStream} {emitted later : List Frame}
    (h : d.Delivers expected (.planned q :: packets) shown)
    (hexpected : expected q.pid = shown.filter (fun f => f.pid = q.pid) ++ (emitted ++ later))
    (howes : Owes q.pid (.planned q :: packets) (emitted ++ later) (some (.pes s)))
    (hyields : next.Yields {} (MuxPacket.on q.pid packets) later) :
    (d.setState q.pid (.pes next)).Delivers expected packets (shown ++ emitted) := by
  have hframes := List.forall_mem_append.mp howes.pid_eq
  intro pid
  by_cases hpid : q.pid = pid
  · subst hpid
    refine ⟨later, ?_, ?_⟩
    · have hall : emitted.filter (fun f => f.pid = q.pid) = emitted :=
        List.filter_eq_self.mpr fun f hf => decide_eq_true (hframes.1 f hf)
      rw [hexpected, List.filter_append, hall, List.append_assoc]
    · rw [state?_setState_self]
      exact ⟨hyields, hframes.2, (List.forall_mem_cons.mp howes.2.2).2⟩
  · obtain ⟨owed, hother, howed⟩ := h pid
    refine ⟨owed, ?_, ?_⟩
    · have hno : emitted.filter (fun f => f.pid = pid) = [] := by
        refine List.filter_eq_nil_iff.mpr fun f hf heq => hpid ?_
        rw [← hframes.1 f hf, of_decide_eq_true heq]
      rw [hother, List.filter_append, hno, List.append_nil]
    · rw [state?_setState_of_ne d hpid]
      exact howed.of_cons hpid

/-- **One packet.**  It is taken without an error, and the invariant is preserved. -/
theorem Delivers.step (h : d.Delivers expected (p :: packets) shown) :
    ∃ next frames, d.Step p next frames ∧ next.Delivers expected packets (shown ++ frames) := by
  obtain ⟨owed, hexpected, howes⟩ := h p.pid
  match hstate : d.state? p.pid with
  | none =>
    refine ⟨d, [], step_of_none hstate, ?_⟩
    rw [List.append_nil]
    exact h.step_ignored (.inl hstate)
  | some .unframed =>
    refine ⟨d, [], step_of_unframed hstate, ?_⟩
    rw [List.append_nil]
    exact h.step_ignored (.inr hstate)
  | some (.psi s) =>
    rw [hstate] at howes
    exact absurd rfl (howes.2 p List.mem_cons_self)
  | some (.pes s) =>
    rw [hstate] at howes
    obtain ⟨hyields, hframes, husable⟩ := howes
    obtain ⟨q, rfl, hgood, hne⟩ := (husable p List.mem_cons_self rfl).exists_eq
    have hon : MuxPacket.on q.pid (.planned q :: packets) = q :: MuxPacket.on q.pid packets :=
      MuxPacket.on_cons_planned q packets
    have hyields' := hyields
    rw [show MuxPacket.pid (.planned q) = q.pid from rfl, hon] at hyields'
    obtain ⟨next, emitted, later, rfl, hpacket, hlater⟩ := hyields'
    exact ⟨_, emitted, step_of_pes hstate hgood hne hpacket,
      h.step_pes hexpected ⟨hyields, hframes, husable⟩ hlater⟩

/-- At the end, what is left completes what is expected. -/
theorem Delivers.leftover (h : d.Delivers expected [] shown) (pid : Pid) :
    (shown ++ d.leftover).filter (fun f => f.pid = pid) = expected pid := by
  have hkey (pid : Pid) (state : PidState) (hstate : d.states.get? pid = some state) :
      ∀ f ∈ state.flush.2, f.pid = pid := by
    obtain ⟨owed, -, howes⟩ := h pid
    have hflush := howes.flush
    rw [state?, hstate] at hflush
    rw [show state.flush.2 = owed from hflush]
    exact howes.pid_eq
  obtain ⟨owed, hexpected, howes⟩ := h pid
  rw [List.filter_append, Directory.leftover,
    SortedMap.filter_flatMap_values _ _ (fun f : Frame => f.pid) hkey,
    show d.states.get? pid = d.state? pid from rfl, howes.flush, hexpected]

/-- **All packets.**  They are taken without an error, and with what is left at the end the frames
on each PID are those expected. -/
theorem run_of_delivers (h : d.Delivers expected packets []) :
    ∃ last frames, Run d packets last frames ∧
      ∀ pid, (frames ++ last.leftover).filter (fun f => f.pid = pid) = expected pid := by
  obtain ⟨last, frames, hrun, hlast⟩ :=
    Run.of_invariant (Delivers expected) (fun p packets shown d h => h.step) h
  exact ⟨last, frames, hrun, hlast.leftover⟩

end Directory

end TransportStream
