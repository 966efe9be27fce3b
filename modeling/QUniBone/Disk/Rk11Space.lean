import QUniBone.Disk.Rk11
import QUniBone.Lib.Transition

/-!
# RK11: transfers stay in the address space

As for the RL11: if each transfer that is started lies inside the address space, then so does
each of its pieces. The word count register belongs to the controller until the worker has read
it, and a command is not replaced while it runs. A reset does no harm to these calls.
-/

namespace QUniBone.RK11

open Disk

/-! ## The condition -/

/-- The words of memory that `count` words of a command need. -/
def reach (iba : Bool) (count : ℤ) : ℕ := if iba then min 1 count.toNat else count.toNat

namespace Registers

/-- the address in `_new_command` -/
def address (c : Config) (r : Registers) : ℕ :=
  if c.isRkv11 then r.rkba.toNat else r.mex * 2 ^ 16 + r.rkba.toNat

/-- The transfer that is started. -/
def TransferOk (c : Config) (r : Registers) : Prop :=
  r.function.isTransfer = true → Span.Within 2 c.space ⟨r.address c, reach r.iba r.count⟩

instance decidableTransferOk (c : Config) (r : Registers) : Decidable (r.TransferOk c) :=
  inferInstanceAs (Decidable (_ → _))

end Registers

/-- Functions that the worker executes. -/
def Function.starts : Function → Bool
  | .controlReset | .writeLock => false
  | _ => true

/-- The worker has yet to read the word count. -/
def Worker.starting : Worker → Bool
  | .execute _ => true
  | _ => false

def Careful (c : Config) (s : State) : Action → Prop
  -- a command is started when the worker is done with the last one
  | .writeRKCS w _ =>
    w.getLsbD 0 = true → (s.regs.writeRKCS w).function.starts = true →
      s.worker = .idle ∧ s.newCommand = none ∧ (s.regs.writeRKCS w).TransferOk c
  | .writeRKWC _ => s.newCommand = none ∧ s.worker.starting = false
  | _ => True

instance decidableCareful (c : Config) (s : State) : (a : Action) → Decidable (Careful c s a)
  | .writeRKCS _ _ => inferInstanceAs (Decidable (_ → _ → _))
  | .writeRKWC _ => inferInstanceAs (Decidable (_ ∧ _))
  | .initAsserted | .writeRKBA _ | .writeRKDA _ | .initNegated | .accept | .execute _ | .enter _
  | .callDMA | .dmaComplete _ | .afterDMA _ | .store | .advance | .finish => .isTrue trivial

/-! ## The invariant -/

def CmdOk (c : Config) (r : Registers) (cmd : WorkerCommand) : Prop :=
  cmd.function.isTransfer = true → Span.Within 2 c.space ⟨cmd.address, reach cmd.iba r.count⟩

/-- What is left of the transfer. -/
def CursorOk (c : Config) (p : Cursor) : Prop :=
  Span.Within 2 c.space ⟨p.currentAddress, reach p.cmd.iba p.currentCount⟩

def PhaseOk (c : Config) (r : Registers) : Worker → Prop
  | .idle => True
  | .execute cmd => CmdOk c r cmd
  | .looping p => CursorOk c p
  | .checking _ => True
  | .prepared p => CursorOk c p ∧ 0 < p.currentCount
  | .transfer p _ => CursorOk c p ∧ 0 < p.currentCount
  | .transferred p _ => CursorOk c p ∧ 0 < p.currentCount
  | .storing p _ => CursorOk c p ∧ 0 < p.currentCount
  | .advance p _ => CursorOk c p ∧ 0 < p.currentCount
  | .finish _ _ => True
  | .dead => False

structure Inv (c : Config) (s : State) : Prop where
  calls : CallsInSpace c.space s.history
  phase : PhaseOk c s.regs s.worker
  /-- A controller without a command is ready. -/
  ready : s.worker = .idle → s.newCommand = none → s.regs.rdy = true
  pending : ∀ cmd, s.newCommand = some cmd → s.worker = .idle ∧ CmdOk c s.regs cmd

namespace Inv

variable {c : Config} {s : State}

theorem noPending (h : Inv c s) (hw : s.worker ≠ .idle) : s.newCommand = none := by
  cases hn : s.newCommand with
  | none => rfl
  | some cmd => exact absurd (h.pending cmd hn).1 hw

/-- A step of the worker: nothing new is pending. -/
theorem work {t : State} (h : Inv c s) (hw : s.worker ≠ .idle)
    (hcalls : CallsInSpace c.space t.history) (hphase : PhaseOk c t.regs t.worker)
    (hbusy : t.worker ≠ .idle) (hnew : t.newCommand = s.newCommand) : Inv c t where
  calls := hcalls
  phase := hphase
  ready := fun hidle => absurd hidle hbusy
  pending := by
    intro cmd hcmd
    rw [hnew, h.noPending hw] at hcmd
    nomatch hcmd

end Inv

/-! ## The pieces -/

variable {c : Config} {s : State} {p : Cursor}

/-- the size of a piece -/
def Cursor.size (p : Cursor) : ℕ :=
  if p.cmd.function = .read ∧ p.cmd.format = true then 1 else sectorWords

theorem Cursor.requestCount_eq (hpos : 0 < p.currentCount) :
    p.requestCount = min p.size p.currentCount.toNat := by
  unfold Cursor.requestCount Cursor.size
  split
  · omega
  · rfl

theorem Cursor.requestCount_pos (hpos : 0 < p.currentCount) : 0 < p.requestCount := by
  unfold Cursor.requestCount sectorWords
  split <;> omega

theorem Cursor.requestCount_le : p.requestCount ≤ sectorWords := by
  unfold Cursor.requestCount sectorWords
  split <;> omega

theorem CursorOk.call_inSpace (h : CursorOk c p) (hpos : 0 < p.currentCount) :
    p.dmaCall.InSpace c.space := by
  have hle := p.requestCount_le
  have hrequest := Cursor.requestCount_pos hpos
  unfold Cursor.dmaCall
  unfold CursorOk reach at h
  cases hiba : p.cmd.iba with
  | true =>
    rw [hiba] at h
    refine ⟨le_refl 1, ?_, ?_⟩
    · -- the one word is all that the transfer reaches
      have hend := h.end_le (show 0 < min 1 p.currentCount.toNat by omega)
      have hone : min 1 p.currentCount.toNat = 1 := by omega
      simp only [↓reduceIte, hone] at hend
      exact hend
    · show 1 ≤ sectorWords - (if p.cmd.function = .read then p.requestCount - 1 else 0)
      split <;> unfold sectorWords at * <;> omega
  | false =>
    rw [hiba] at h
    refine ⟨hrequest, ?_, hle⟩
    show p.currentAddress + 2 * p.requestCount ≤ c.space
    have hpiece := Span.Within.piece h p.size
    rw [Cursor.requestCount_eq hpos]
    rw [Cursor.requestCount_eq hpos] at hrequest
    exact hpiece.end_le hrequest

theorem CursorOk.next (h : CursorOk c p) (hpos : 0 < p.currentCount) :
    CursorOk c ⟨p.cmd,
      if p.cmd.iba then p.currentAddress else p.currentAddress + 2 * p.requestCount,
      p.currentCount - p.requestCount⟩ := by
  have hrequest := Cursor.requestCount_pos hpos
  unfold CursorOk reach at h ⊢
  cases hiba : p.cmd.iba with
  | true =>
    simp only [hiba, ↓reduceIte] at h ⊢
    have hend := h.end_le (show 0 < min 1 p.currentCount.toNat by omega)
    right
    show p.currentAddress + 2 * min 1 (p.currentCount - p.requestCount).toNat ≤ c.space
    have hone : min 1 p.currentCount.toNat = 1 := by omega
    simp only [hone] at hend
    omega
  | false =>
    simp only [hiba, Bool.false_eq_true, ↓reduceIte] at h ⊢
    have hrest := Span.Within.rest h p.size
    have hcount : (p.currentCount - p.requestCount).toNat
        = p.currentCount.toNat - min p.size p.currentCount.toNat := by
      rw [Cursor.requestCount_eq hpos]
      omega
    rw [hcount, Cursor.requestCount_eq hpos]
    exact hrest

/-! ## The steps of the worker -/

theorem inv_execute {cmd : WorkerCommand} (h : Inv c s) (hw : s.worker = .execute cmd)
    (drivePresent : Bool) : Inv c (execute s cmd drivePresent) := by
  have hbusy : s.worker ≠ .idle := by rw [hw]; nofun
  have hphase := h.phase
  rw [hw] at hphase
  unfold execute
  split
  case h_5 =>
    split
    · exact h.work hbusy h.calls trivial nofun rfl
    · exact h.work hbusy (h.calls.cons trivial) trivial nofun rfl
  case h_4 => exact h.work hbusy h.calls trivial nofun rfl
  case h_6 => exact h.work hbusy h.calls trivial nofun rfl
  case h_7 => exact h.work hbusy h.calls trivial nofun rfl
  all_goals
    rename_i hfunction
    refine h.work hbusy h.calls (hphase ?_) nofun rfl
    rw [hfunction]
    rfl

theorem inv_enter (h : Inv c s) (hw : s.worker = .looping p) (drivePresent : Bool) :
    Inv c (enter s p drivePresent) := by
  have hbusy : s.worker ≠ .idle := by rw [hw]; nofun
  have hphase := h.phase
  rw [hw] at hphase
  unfold enter
  split
  · exact h.work hbusy h.calls trivial nofun rfl
  · rename_i hcount
    rw [not_or, not_le] at hcount
    split
    · exact h.work hbusy h.calls ⟨hphase, hcount.1⟩ nofun rfl
    · exact h.work hbusy (h.calls.cons trivial) trivial nofun rfl

theorem inv_enterCheck (h : Inv c s) (hw : s.worker = .checking p) (drivePresent : Bool) :
    Inv c (enterCheck s p drivePresent) := by
  have hbusy : s.worker ≠ .idle := by rw [hw]; nofun
  unfold enterCheck
  split
  · exact h.work hbusy h.calls trivial nofun rfl
  · split
    · exact h.work hbusy (h.calls.cons trivial) trivial nofun rfl
    · exact h.work hbusy (h.calls.cons trivial) trivial nofun rfl

theorem inv_callDMA (h : Inv c s) (hw : s.worker = .prepared p) : Inv c (callDMA c s p) := by
  have hbusy : s.worker ≠ .idle := by rw [hw]; nofun
  have hphase := h.phase
  rw [hw] at hphase
  have hspace := hphase.1.call_inSpace hphase.2
  unfold callDMA
  dsimp only
  rw [if_neg (not_not.mpr hspace.asserted)]
  split
  · exact h.work hbusy (h.calls.call hspace) hphase nofun rfl
  · exact h.work hbusy (h.calls.call hspace) hphase nofun rfl

theorem inv_afterDMA {moved : Option (List BusWord)} (h : Inv c s)
    (hw : s.worker = .transferred p moved) (differs : Bool) :
    Inv c (afterDMA s p moved differs) := by
  have hbusy : s.worker ≠ .idle := by rw [hw]; nofun
  have hphase := h.phase
  rw [hw] at hphase
  have hreturned : CallsInSpace c.space
      (.returned s.dmaRequest.success moved.isSome :: s.history) := h.calls.cons trivial
  unfold afterDMA
  dsimp only
  split
  · exact h.work hbusy (hreturned.cons trivial) hphase nofun rfl
  · split
    · exact h.work hbusy hreturned hphase nofun rfl
    · split
      · exact h.work hbusy (hreturned.cons trivial) hphase nofun rfl
      · exact h.work hbusy hreturned hphase nofun rfl

theorem inv_advance {abort : Bool} (h : Inv c s) (hw : s.worker = .advance p abort) :
    Inv c (advance s p abort) := by
  have hbusy : s.worker ≠ .idle := by rw [hw]; nofun
  have hphase := h.phase
  rw [hw] at hphase
  unfold advance
  dsimp only
  split
  · exact h.work hbusy (h.calls.cons trivial) trivial nofun rfl
  · exact h.work hbusy (h.calls.cons trivial) (hphase.1.next hphase.2) nofun rfl

theorem inv_finish {cmd : WorkerCommand} {doInterrupt : Bool} (h : Inv c s)
    (hw : s.worker = .finish cmd doInterrupt) : Inv c (finish s cmd doInterrupt) := by
  have hbusy : s.worker ≠ .idle := by rw [hw]; nofun
  have hnone := h.noPending hbusy
  have hdone : Inv c { s.update cmd.command { s.regs with rdy := true } with worker := .idle } := by
    refine ⟨h.calls.cons trivial, trivial, fun _ _ => rfl, fun cmd' hcmd => ?_⟩
    exact absurd (hnone.symm.trans hcmd) nofun
  unfold finish
  dsimp only
  split
  · exact ⟨hdone.calls.cons trivial, hdone.phase, hdone.ready, hdone.pending⟩
  · exact hdone

/-! ## The steps of the host -/

/-- A register that neither the worker nor a pending command reads is changed. -/
theorem Inv.registers {r : Registers} (h : Inv c s) (hrdy : r.rdy = s.regs.rdy)
    (hrkwc : r.rkwc = s.regs.rkwc) : Inv c { s with regs := r } := by
  have hcount : r.count = s.regs.count := by
    unfold Registers.count
    rw [hrkwc]
  have hcmd : ∀ cmd, CmdOk c s.regs cmd → CmdOk c r cmd := by
    intro cmd hcmd htransfer
    rw [hcount]
    exact hcmd htransfer
  refine ⟨h.calls, ?_, ?_, fun cmd hp => ⟨(h.pending cmd hp).1, hcmd cmd (h.pending cmd hp).2⟩⟩
  · have hphase := h.phase
    cases hw : s.worker with
    | execute cmd =>
      rw [hw] at hphase
      exact hcmd cmd hphase
    | idle | looping | checking | prepared | transfer | transferred | storing | advance | finish
    | dead =>
      rw [hw] at hphase
      exact hphase
  · intro hidle hnone
    show r.rdy = true
    rw [hrdy]
    exact h.ready hidle hnone

/-- Without a command to be executed, the registers matter to no phase. -/
theorem PhaseOk.registers {r r' : Registers} {w : Worker} (h : PhaseOk c r w)
    (hw : w.starting = false) : PhaseOk c r' w := by
  cases w with
  | execute cmd => nomatch hw
  | idle | looping | checking | prepared | transfer | transferred | storing | advance | finish
  | dead => exact h

theorem inv_start (h : Inv c s) (hidle : s.worker = .idle) (hok : s.regs.TransferOk c) :
    Inv c (s.start c) := by
  refine ⟨h.calls.cons trivial, ?_, nofun, fun cmd hcmd => ⟨hidle, ?_⟩⟩
  · show PhaseOk c _ s.worker
    rw [hidle]
    trivial
  · obtain rfl := Option.some.inj hcmd
    exact hok

theorem inv_refuse (h : Inv c s) (hr : s.regs.rdy = true) (e : Errors) : Inv c (s.refuse e) := by
  unfold State.refuse
  dsimp only
  rw [if_pos hr]
  exact h.registers rfl rfl

/-- After a reset there is nothing to transfer. -/
theorem cmdOk_initial (cmd : WorkerCommand) : CmdOk c .initial cmd := by
  intro _
  apply Span.within_of_count
  unfold reach
  split <;> rfl

theorem inv_resetController (h : Inv c s) : Inv c s.resetController := by
  refine ⟨h.calls.cons trivial, ?_, fun _ _ => rfl,
    fun cmd hcmd => ⟨(h.pending cmd hcmd).1, cmdOk_initial cmd⟩⟩
  have hphase := h.phase
  show PhaseOk c .initial s.worker
  cases hw : s.worker with
  | execute cmd => exact cmdOk_initial cmd
  | idle | looping | checking | prepared | transfer | transferred | storing | advance | finish
  | dead =>
    rw [hw] at hphase
    exact hphase

theorem inv_go (h : Inv c s)
    (hstart : s.regs.function.starts = true →
      s.worker = .idle ∧ s.newCommand = none ∧ s.regs.TransferOk c) (driveReady : Bool) :
    Inv c (s.go c driveReady) := by
  unfold State.go
  dsimp only
  split
  · exact h.registers rfl rfl
  · split
    · exact inv_resetController h
    · exact h.registers rfl rfl
    · rename_i hfunction
      obtain ⟨hidle, hnone, hok⟩ := hstart (by rw [hfunction]; rfl)
      split
      · exact inv_start h hidle hok
      · exact inv_refuse h (h.ready hidle hnone) _
    · rename_i hreset hlock hdrive
      have hstarts : s.regs.function.starts = true := by
        cases hf : s.regs.function with
        | controlReset => exact absurd hf hreset
        | writeLock => exact absurd hf hlock
        | write | read | writeCheck | seek | readCheck | driveReset => rfl
      obtain ⟨hidle, hnone, hok⟩ := hstart hstarts
      split
      · exact inv_start h hidle hok
      · exact inv_refuse h (h.ready hidle hnone) _

/-- INIT changes. It cancels the request that the worker waits for. -/
theorem inv_cancelRequests (h : Inv c s) (line : Bool) :
    Inv c { s.cancelRequests with lineINIT := line } := by
  unfold State.cancelRequests
  split
  · rename_i hw
    have hphase := h.phase
    rw [hw] at hphase
    exact h.work (by rw [hw]; nofun) h.calls hphase nofun rfl
  · exact ⟨h.calls, h.phase, h.ready, h.pending⟩

theorem inv_accept {cmd : WorkerCommand} (h : Inv c s) (hcmd : s.newCommand = some cmd) :
    Inv c { s.update cmd.command { s.regs with go := false } with
      newCommand := none
      worker := .execute cmd } :=
  ⟨h.calls.cons trivial, (h.pending cmd hcmd).2, nofun, nofun⟩

theorem inv_step {t : State} {a : Action} (h : Inv c s) (ha : Careful c s a)
    (hstep : step c s a = some t) : Inv c t := by
  cases a with
  | writeRKCS w driveReady =>
    simp only [step] at hstep
    split at hstep
    · rename_i hgo
      obtain rfl := Option.some.inj hstep
      have hwritten : Inv c { s with regs := s.regs.writeRKCS w } := h.registers rfl rfl
      exact inv_go hwritten (ha hgo) driveReady
    · obtain rfl := Option.some.inj hstep
      exact h.registers rfl rfl
  | writeRKWC w =>
    obtain rfl := Option.some.inj hstep
    obtain ⟨hnone, hw⟩ := ha
    exact ⟨h.calls, h.phase.registers hw, h.ready,
      fun cmd hcmd => absurd (hnone.symm.trans hcmd) nofun⟩
  | writeRKBA w =>
    obtain rfl := Option.some.inj hstep
    exact h.registers rfl rfl
  | writeRKDA w =>
    simp only [step] at hstep
    split at hstep
    · obtain rfl := Option.some.inj hstep
      exact h.registers rfl rfl
    · obtain rfl := Option.some.inj hstep
      exact h
  | initAsserted =>
    simp only [step, Option.ite_none_right_eq_some] at hstep
    obtain rfl := Option.some.inj hstep.2
    exact inv_cancelRequests (inv_resetController h) true
  | initNegated =>
    simp only [step, Option.ite_none_right_eq_some] at hstep
    obtain rfl := Option.some.inj hstep.2
    exact inv_cancelRequests h false
  | accept =>
    simp only [step] at hstep
    split at hstep
    · rename_i hcmd
      obtain rfl := Option.some.inj hstep
      exact inv_accept h hcmd
    · nomatch hstep
  | execute drivePresent =>
    simp only [step] at hstep
    split at hstep
    · rename_i hw
      obtain rfl := Option.some.inj hstep
      exact inv_execute h hw drivePresent
    · nomatch hstep
  | enter drivePresent =>
    simp only [step] at hstep
    split at hstep
    · rename_i hw
      obtain rfl := Option.some.inj hstep
      exact inv_enter h hw drivePresent
    · rename_i hw
      obtain rfl := Option.some.inj hstep
      exact inv_enterCheck h hw drivePresent
    · nomatch hstep
  | callDMA =>
    simp only [step] at hstep
    split at hstep
    · rename_i hw
      obtain rfl := Option.some.inj hstep
      exact inv_callDMA h hw
    · nomatch hstep
  | dmaComplete ws =>
    simp only [step] at hstep
    split at hstep
    · rename_i hw
      rw [Option.ite_none_right_eq_some] at hstep
      obtain rfl := Option.some.inj hstep.2
      have hphase := h.phase
      rw [hw] at hphase
      exact h.work (by rw [hw]; nofun) h.calls hphase nofun rfl
    · nomatch hstep
  | afterDMA differs =>
    simp only [step] at hstep
    split at hstep
    · rename_i hw
      obtain rfl := Option.some.inj hstep
      exact inv_afterDMA h hw differs
    · nomatch hstep
  | store =>
    simp only [step] at hstep
    split at hstep
    · rename_i hw
      obtain rfl := Option.some.inj hstep
      have hphase := h.phase
      rw [hw] at hphase
      exact h.work (by rw [hw]; nofun) (h.calls.cons trivial) hphase nofun rfl
    · nomatch hstep
  | advance =>
    simp only [step] at hstep
    split at hstep
    · rename_i hw
      obtain rfl := Option.some.inj hstep
      exact inv_advance h hw
    · nomatch hstep
  | finish =>
    simp only [step] at hstep
    split at hstep
    · rename_i hw
      obtain rfl := Option.some.inj hstep
      exact inv_finish h hw
    · nomatch hstep

theorem inv_initial : Inv c .initial :=
  ⟨callsInSpace_nil _, trivial, fun _ _ => rfl, nofun⟩

/-- The runs of careful steps. -/
def CarefulRun (c : Config) : State → Prop :=
  Transition.Reachable (· = .initial) fun s t => ∃ a, Careful c s a ∧ step c s a = some t

theorem CarefulRun.inv (h : CarefulRun c s) : Inv c s := by
  apply Transition.Reachable.invariant _ _ h
  · intro s hs
    rw [hs]
    exact inv_initial
  · rintro s t hs ⟨a, ha, hstep⟩
    exact inv_step hs ha hstep

end QUniBone.RK11
