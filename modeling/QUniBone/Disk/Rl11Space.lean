import QUniBone.Disk.Rl11
import QUniBone.Lib.Transition

/-!
# RL11: transfers stay in the address space

A command that is started with a transfer inside the address space calls `DMA()` only with
arguments that it accepts, as long as the host leaves the registers alone while the command
runs, and `reset()` does not clear them during a piece.

* `Careful`: this condition, on the actions of a run.
* `PhaseOk`: what holds in each phase of a piece.
* `callsInSpace`: no call leaves the address space.
-/

namespace QUniBone.RL11

open Disk

/-! ## The registers -/

namespace Registers

variable (r : Registers) {space : ℕ}

/-- BA has no bit 0: an odd address would be rounded down. -/
theorem getQunibusAddress_update_le (addr : ℕ) :
    (r.updateQunibusAddress addr).getQunibusAddress ≤ addr := by
  have hmask : (BitVec.ofNat 16 addr &&& 0xfffe).toNat ≤ addr % 2 ^ 16 := by
    rw [BitVec.toNat_and, BitVec.toNat_ofNat]
    exact Nat.and_le_left
  show addr / 2 ^ 16 * 2 ^ 16 + (BitVec.ofNat 16 addr &&& 0xfffe).toNat ≤ addr
  omega

theorem getMPWordcount_lt : r.getMPWordcount < 2 ^ 16 := by
  unfold getMPWordcount
  omega

theorem getMPWordcount_set {n : ℕ} (hn : n < 2 ^ 16) :
    (r.setMPWordcount n).getMPWordcount = n := by
  show (0x10000 - (BitVec.ofNat 16 (0x10000 - n)).toNat) % 0x10000 = n
  rw [BitVec.toNat_ofNat]
  omega

end Registers

/-! ## The phases -/

/-- The piece is the next one of what the registers describe. -/
structure PieceOk (c : Config) (r : Registers) (p : Piece) : Prop where
  state : r.state = .rwDisk
  function : r.functionCode.isTransfer = true
  pos : 0 < p.cmdWordcount
  lt : p.cmdWordcount < 2 ^ 16
  within : Span.Within 2 c.space ⟨p.qunibusAddress, p.cmdWordcount⟩

/-- The transfer that a command starts with. -/
def TransferOk (c : Config) (r : Registers) : Prop :=
  r.functionCode.isTransfer = true → r.Within c.space

instance decidableTransferOk (c : Config) (r : Registers) : Decidable (TransferOk c r) :=
  inferInstanceAs (Decidable (_ → _))

def PhaseOk (c : Config) (r : Registers) (q : DmaRequest) : Worker → Prop
  | .waiting => True
  | .signalled => r.state = .controllerBusy ∧ TransferOk c r
  | .dispatching =>
    (r.state = .controllerReady ∧ r.functionCode.isTransfer = false) ∨
      (r.state = .controllerBusy ∧ TransferOk c r)
  | .looping =>
    (r.state = .rwInit ∨ r.state = .rwDisk →
      r.functionCode.isTransfer = true ∧ r.Within c.space) ∧
    (r.state = .rwDisk → 0 < r.getMPWordcount)
  | .prepared p => PieceOk c r p
  | .transfer p d =>
    PieceOk c r p ∧ d.address = p.qunibusAddress ∧ d.wordcount = p.dmaWordcount ∧
      p.call = some d
  | .transferred p =>
    p.call.isSome = true ∧
      (q.success = true →
        PieceOk c r p ∧ q.endAddr + 2 = p.qunibusAddress + 2 * p.dmaWordcount)
  | .store p =>
    PieceOk c r p ∧ r.getQunibusAddress ≤ p.qunibusAddress + 2 * p.dmaWordcount
  | .incomplete => True
  | .dead => False

structure Inv (c : Config) (s : State) : Prop where
  calls : CallsInSpace c.space s.history
  phase : PhaseOk c s.regs s.dmaRequest s.worker

/-! ## The condition -/

/-- The registers may be cleared here without an effect on a piece. -/
def Worker.betweenPieces (q : DmaRequest) : Worker → Bool
  | .waiting | .dispatching | .looping | .incomplete => true
  | .transferred _ => !q.success
  | _ => false

def Careful (c : Config) (s : State) : Action → Prop
  -- a transfer that is started lies in the address space
  | .writeCS w _ _ =>
    s.regs.state = .controllerReady → w.getLsbD 7 = false → TransferOk c (s.regs.writeCS w)
  -- the registers of a transfer are not written while it runs
  | .writeBA _ | .writeMP _ | .writeBAE _ =>
    s.regs.functionCode.isTransfer = true → s.regs.state = .controllerReady
  | .initNegated => s.worker.betweenPieces s.dmaRequest = true
  -- a call that is refused during INIT does not find the success of the last one
  | .callDMA => s.lineINIT = true → s.dmaRequest.success = false
  | _ => True

instance decidableCareful (c : Config) (s : State) : (a : Action) → Decidable (Careful c s a)
  | .writeCS _ _ _ => inferInstanceAs (Decidable (_ → _))
  | .writeBA _ | .writeMP _ | .writeBAE _ => inferInstanceAs (Decidable (_ → _))
  | .initNegated => inferInstanceAs (Decidable (_ = _))
  | .callDMA => inferInstanceAs (Decidable (_ → _))
  | .writeDA _ | .initAsserted | .wake _ | .dispatch | .enter _ _ _ | .dmaComplete _ | .afterDMA
  | .store _ _ | .incomplete => .isTrue trivial

/-! ## The steps -/

variable {c : Config} {s : State} {space : ℕ}

theorem calls_update (h : CallsInSpace space s.history) (r : Registers) :
    CallsInSpace space (s.update r).history := h.cons trivial

theorem calls_doCommandDone (h : CallsInSpace space s.history) :
    CallsInSpace space s.doCommandDone.history := by
  have hdone := calls_update h (s.regs.changeState .controllerReady)
  unfold State.doCommandDone
  simp only
  split
  · exact hdone.cons trivial
  · exact hdone

@[simp] theorem regs_doCommandDone (s : State) :
    s.doCommandDone.regs = s.regs.changeState .controllerReady := by
  unfold State.doCommandDone
  simp only
  split <;> rfl

@[simp] theorem worker_doCommandDone (s : State) : s.doCommandDone.worker = s.worker := by
  unfold State.doCommandDone
  simp only
  split <;> rfl

/-- Outside of a data transfer the loop asks for nothing. -/
theorem phaseOk_looping {r : Registers} {q : DmaRequest}
    (hinit : r.state ≠ .rwInit) (hdisk : r.state ≠ .rwDisk) : PhaseOk c r q .looping := by
  refine ⟨fun hrw => ?_, fun hrw => absurd hrw hdisk⟩
  cases hrw with
  | inl h => exact absurd h hinit
  | inr h => exact absurd h hdisk

theorem phaseOk_looping_ready {r : Registers} {q : DmaRequest}
    (h : r.state = .controllerReady) : PhaseOk c r q .looping := by
  apply phaseOk_looping <;> rw [h] <;> nofun

theorem inv_doCommandDone (h : CallsInSpace c.space s.history)
    (hw : s.worker = .looping ∨ s.worker = .waiting) : Inv c s.doCommandDone where
  calls := calls_doCommandDone h
  phase := by
    rw [worker_doCommandDone]
    cases hw with
    | inl hw =>
      rw [hw]
      apply phaseOk_looping_ready
      rw [regs_doCommandDone]
      rfl
    | inr hw =>
      rw [hw]
      trivial

theorem inv_operationIncomplete (h : CallsInSpace c.space s.history)
    (hw : s.worker = .looping ∨ s.worker = .waiting) : Inv c s.operationIncomplete :=
  inv_doCommandDone h hw

theorem inv_stateSeek (h : CallsInSpace c.space s.history)
    (hw : s.worker = .looping ∨ s.worker = .waiting) (driveReady : Bool) :
    Inv c (s.stateSeek driveReady) := by
  unfold State.stateSeek
  split
  · exact inv_doCommandDone h hw
  · exact inv_operationIncomplete h hw

/-- A started command leaves to the worker only a transfer that is in order. -/
theorem inv_go (h : CallsInSpace c.space s.history) (hw : s.worker = .waiting)
    (ht : TransferOk c s.regs) (seeking driveReady : Bool) :
    Inv c (s.start.go seeking driveReady) := by
  have hcalls : CallsInSpace c.space s.start.history := h.cons trivial
  have hwaiting : s.start.worker = .looping ∨ s.start.worker = .waiting := .inr hw
  have hsignal : Inv c s.start.signal := ⟨hcalls, rfl, ht⟩
  unfold State.go
  split
  · exact inv_doCommandDone hcalls hwaiting
  · split
    · exact hsignal
    · exact inv_stateSeek hcalls hwaiting driveReady
  · split
    · exact inv_doCommandDone hcalls hwaiting
    · have hincomplete := inv_operationIncomplete hcalls hwaiting
      apply inv_doCommandDone hincomplete.calls
      right
      show s.start.operationIncomplete.worker = .waiting
      rw [State.operationIncomplete, worker_doCommandDone]
      exact hw
  · exact hsignal

/-! ## One round of the loop -/

theorem inv_enterDisk (h : Inv c s) (hw : s.worker = .looping)
    (hstate : s.regs.state = .rwDisk) (onTrack : Bool) (header : BitVec 16) :
    Inv c (enterDisk s onTrack header) := by
  obtain ⟨hcalls, hphase⟩ := h
  rw [hw] at hphase
  have hpos := hphase.2 hstate
  obtain ⟨hfunction, hwithin⟩ := hphase.1 (.inr hstate)
  have hpiece : PieceOk c s.regs ⟨s.regs.selectedDriveUnitno, s.regs.getQunibusAddress,
      s.regs.getMPWordcount, s.regs.busregDA, header, none, none⟩ :=
    ⟨hstate, hfunction, hpos, s.regs.getMPWordcount_lt, hwithin⟩
  unfold enterDisk
  rw [if_neg (Nat.pos_iff_ne_zero.mp hpos)]
  dsimp only
  split
  · exact ⟨hcalls, hpiece⟩
  · split
    · exact ⟨hcalls, trivial⟩
    · split
      · -- the wrong sector: the next round begins with the same registers
        refine ⟨hcalls, ?_⟩
        rw [hw]
        exact hphase
      · exact ⟨hcalls, hpiece⟩

theorem inv_enterReadwrite (h : Inv c s) (hw : s.worker = .looping)
    (hstate : s.regs.state = .rwInit ∨ s.regs.state = .rwDisk) (driveReady onTrack : Bool)
    (header : BitVec 16) : Inv c (enterReadwrite s driveReady onTrack header) := by
  obtain ⟨hcalls, hphase⟩ := id h
  rw [hw] at hphase
  obtain ⟨hfunction, hwithin⟩ := hphase.1 hstate
  unfold enterReadwrite
  rw [if_neg (by rw [hfunction]; nofun)]
  split
  · exact ⟨hcalls, trivial⟩
  · split
    · split
      · refine inv_doCommandDone ?_ (.inl hw)
        exact hcalls
      · refine ⟨calls_update hcalls _, ?_⟩
        show PhaseOk c _ _ s.worker
        rw [hw]
        exact ⟨fun _ => ⟨hfunction, hwithin⟩, fun _ => by
          apply Nat.pos_iff_ne_zero.mpr
          assumption⟩
    · apply inv_enterDisk h hw
      cases hstate with
      | inl hinit => contradiction
      | inr hdisk => exact hdisk

theorem inv_enter (h : Inv c s) (hw : s.worker = .looping) (driveReady onTrack : Bool)
    (header : BitVec 16) : Inv c (enter s driveReady onTrack header) := by
  unfold enter
  split
  · exact ⟨h.calls, trivial⟩
  · exact h
  · exact inv_stateSeek h.calls (.inl hw) driveReady
  · rename_i hstate
    exact inv_enterReadwrite h hw (.inl hstate) driveReady onTrack header
  · rename_i hstate
    exact inv_enterReadwrite h hw (.inr hstate) driveReady onTrack header

/-! ## A piece -/

theorem Piece.dmaWordcount_eq (p : Piece) :
    p.dmaWordcount = min sectorWordcount p.cmdWordcount := by
  unfold Piece.dmaWordcount
  split <;> omega

theorem Piece.remaining_eq (p : Piece) :
    p.remaining = p.cmdWordcount - min sectorWordcount p.cmdWordcount := by
  unfold Piece.remaining
  split <;> omega

theorem PieceOk.dmaWordcount_pos {p : Piece} (h : PieceOk c s.regs p) : 0 < p.dmaWordcount := by
  have hpos := h.pos
  rw [p.dmaWordcount_eq]
  unfold sectorWordcount
  omega

theorem dmaWordcount_le (p : Piece) : p.dmaWordcount ≤ sectorWordcount := by
  rw [p.dmaWordcount_eq]
  exact Nat.min_le_left _ _

/-- Of a transfer inside the address space each piece is, too. -/
theorem PieceOk.end_le {p : Piece} (h : PieceOk c s.regs p) :
    p.qunibusAddress + 2 * p.dmaWordcount ≤ c.space := by
  have hpiece := h.within.piece sectorWordcount
  have hpos := h.dmaWordcount_pos
  rw [p.dmaWordcount_eq] at hpos ⊢
  exact hpiece.end_le hpos

theorem PieceOk.dmaCall {p : Piece} (h : PieceOk c s.regs p) :
    ∃ cycle, dmaCall s.regs.functionCode p =
      some ⟨cycle, p.qunibusAddress, p.dmaWordcount, sectorWordcount⟩ := by
  have hfunction := h.function
  cases hf : s.regs.functionCode with
  | writeCheck => exact ⟨.dati, rfl⟩
  | writeData => exact ⟨.dati, rfl⟩
  | readData => exact ⟨.dato, rfl⟩
  | readDataWithoutHeaderCheck => exact ⟨.dato, rfl⟩
  | noop | getStatus | seek | readHeader =>
    rw [hf] at hfunction
    nomatch hfunction

theorem inv_callDMA {p : Piece} (h : Inv c s) (hw : s.worker = .prepared p)
    (hinit : s.lineINIT = true → s.dmaRequest.success = false) : Inv c (callDMA c s p) := by
  obtain ⟨hcalls, hphase⟩ := h
  rw [hw] at hphase
  have hpiece : PieceOk c s.regs p := hphase
  obtain ⟨cycle, hcall⟩ := hpiece.dmaCall
  have hspace : DmaCall.InSpace c.space
      ⟨cycle, p.qunibusAddress, p.dmaWordcount, sectorWordcount⟩ :=
    ⟨hpiece.dmaWordcount_pos, hpiece.end_le, dmaWordcount_le p⟩
  unfold callDMA
  rw [hcall]
  dsimp only
  rw [if_neg (not_not.mpr hspace.asserted)]
  split
  · rename_i hline
    exact ⟨hcalls.call hspace, rfl, fun hsuccess =>
      absurd ((hinit hline).symm.trans hsuccess) nofun⟩
  · exact ⟨hcalls.call hspace, { hpiece with }, rfl, rfl, rfl⟩

theorem inv_dmaComplete {p : Piece} {d : DmaCall} (h : Inv c s) (hw : s.worker = .transfer p d)
    (ws : List BusWord) : Inv c (dmaComplete s p d ws) := by
  obtain ⟨hcalls, hphase⟩ := h
  rw [hw] at hphase
  obtain ⟨hpiece, haddress, hwordcount, hcall⟩ := hphase
  have hpos := hpiece.dmaWordcount_pos
  refine ⟨hcalls, ?_, fun hsuccess => ⟨{ hpiece with }, ?_⟩⟩
  · show p.call.isSome = true
    rw [hcall]
    rfl
  · have hlength : ws.length = d.wordcount := of_decide_eq_true hsuccess
    show d.endAddress ws.length + 2 = p.qunibusAddress + 2 * p.dmaWordcount
    rw [DmaCall.endAddress, if_pos hlength]
    omega

theorem inv_afterDMA {p : Piece} (h : Inv c s) (hw : s.worker = .transferred p) :
    Inv c (afterDMA s p) := by
  obtain ⟨hcalls, hphase⟩ := h
  rw [hw] at hphase
  obtain ⟨hcall, hend⟩ := hphase
  have hreturned : CallsInSpace c.space
      (s.log (.returned s.dmaRequest.success p.moved.isSome)).history := hcalls.cons trivial
  unfold afterDMA
  simp only [hcall, ↓reduceIte]
  cases hsuccess : s.dmaRequest.success with
  | false =>
    rw [hsuccess] at hreturned
    exact ⟨hreturned.cons trivial, trivial⟩
  | true =>
    rw [hsuccess] at hreturned
    obtain ⟨hpiece, hend⟩ := hend hsuccess
    refine ⟨hreturned.cons trivial, { hpiece with }, ?_⟩
    rw [← hend]
    exact Registers.getQunibusAddress_update_le s.regs _

/-- What remains after a piece is inside the address space. -/
theorem PieceOk.within_remaining {p : Piece} {r : Registers} (h : PieceOk c s.regs p)
    (haddr : r.getQunibusAddress ≤ p.qunibusAddress + 2 * p.dmaWordcount) :
    (r.setMPWordcount p.remaining).Within c.space := by
  have hlt : p.remaining < 2 ^ 16 := by
    have := h.lt
    rw [p.remaining_eq]
    omega
  have hrest := h.within.rest sectorWordcount
  rw [p.dmaWordcount_eq] at haddr
  show Span.Within 2 c.space ⟨r.getQunibusAddress, (r.setMPWordcount p.remaining).getMPWordcount⟩
  rw [Registers.getMPWordcount_set r hlt, p.remaining_eq]
  cases hrest with
  | inl hzero => exact Span.within_of_count hzero
  | inr hle =>
    right
    have hle' : p.qunibusAddress + 2 * min sectorWordcount p.cmdWordcount
        + 2 * (p.cmdWordcount - min sectorWordcount p.cmdWordcount) ≤ c.space := hle
    show r.getQunibusAddress + 2 * (p.cmdWordcount - min sectorWordcount p.cmdWordcount)
      ≤ c.space
    omega

theorem calls_storeSector (h : CallsInSpace space s.history) (p : Piece) (writable : Bool) :
    CallsInSpace space (storeSector s p writable).history := by
  unfold storeSector
  split
  · exact h.cons trivial
  · exact h

theorem inv_storePiece {p : Piece} (h : Inv c s) (hw : s.worker = .store p)
    (writable differs : Bool) : Inv c (storePiece s p writable differs) := by
  obtain ⟨hcalls, hphase⟩ := h
  rw [hw] at hphase
  obtain ⟨hpiece, haddr⟩ := hphase
  have hstored := calls_update (calls_storeSector hcalls p writable)
    (p.nextRegisters s.regs differs)
  unfold storePiece
  dsimp only
  split
  · refine inv_doCommandDone ?_ (.inl rfl)
    exact hstored
  · rename_i hremaining
    refine ⟨hstored.cons trivial, ?_⟩
    have hlt : p.remaining < 2 ^ 16 := by
      have := hpiece.lt
      rw [p.remaining_eq]
      omega
    refine ⟨fun _ => ⟨hpiece.function, hpiece.within_remaining haddr⟩, fun _ => ?_⟩
    show 0 < (s.regs.setMPWordcount p.remaining).getMPWordcount
    rw [Registers.getMPWordcount_set _ hlt]
    omega

/-! ## The two threads -/

/-- While no transfer runs, its registers matter to no phase. -/
theorem phaseOk_write {r t : Registers} {q : DmaRequest} {w : Worker} (h : PhaseOk c r q w)
    (hr : r.functionCode.isTransfer = true → r.state = .controllerReady)
    (ht : t.state = r.state) (hf : t.functionCode = r.functionCode) : PhaseOk c t q w := by
  have hbusy : r.state = .controllerBusy → TransferOk c t := by
    intro hstate hfunction
    have hready := hr (hf ▸ hfunction)
    exact absurd (hready.symm.trans hstate) nofun
  have hpiece : ∀ p, ¬ PieceOk c r p := by
    intro p hp
    have hready := hr hp.function
    exact absurd (hready.symm.trans hp.state) nofun
  cases w with
  | waiting => trivial
  | signalled => exact ⟨ht.trans h.1, hbusy h.1⟩
  | dispatching =>
    cases h with
    | inl h => exact .inl ⟨ht.trans h.1, by rw [hf]; exact h.2⟩
    | inr h => exact .inr ⟨ht.trans h.1, hbusy h.1⟩
  | looping =>
    have hdisk : ¬ (t.state = .rwInit ∨ t.state = .rwDisk) := by
      intro hstate
      rw [ht] at hstate
      have hready := hr (h.1 hstate).1
      rw [hready] at hstate
      nomatch hstate
    exact ⟨fun hstate => absurd hstate hdisk, fun hstate => absurd (.inr hstate) hdisk⟩
  | prepared p => exact absurd h (hpiece p)
  | transfer p d => exact absurd h.1 (hpiece p)
  | transferred p => exact ⟨h.1, fun hsuccess => absurd (h.2 hsuccess).1 (hpiece p)⟩
  | store p => exact absurd h.1 (hpiece p)
  | incomplete => trivial
  | dead => exact h

theorem PieceOk.writeDA {r : Registers} {p : Piece} (h : PieceOk c r p) (w : BitVec 16) :
    PieceOk c { r with busregDA := w } p := ⟨h.state, h.function, h.pos, h.lt, h.within⟩

/-- Of DA no call depends. -/
theorem phaseOk_writeDA {r : Registers} {q : DmaRequest} {w : Worker}
    (h : PhaseOk c r q w) (da : BitVec 16) : PhaseOk c { r with busregDA := da } q w := by
  cases w with
  | prepared p => exact PieceOk.writeDA h da
  | transfer p d => exact ⟨h.1.writeDA da, h.2⟩
  | transferred p =>
    exact ⟨h.1, fun hsuccess => ⟨(h.2 hsuccess).1.writeDA da, (h.2 hsuccess).2⟩⟩
  | store p => exact ⟨h.1.writeDA da, h.2⟩
  | waiting | signalled | dispatching | looping | incomplete | dead => exact h

/-- INIT cancels the request that the worker waits for. -/
theorem phaseOk_cancelRequests (h : Inv c s) :
    PhaseOk c s.cancelRequests.regs s.cancelRequests.dmaRequest s.cancelRequests.worker := by
  have hphase := h.phase
  unfold State.cancelRequests
  split
  · rename_i hw
    rw [hw] at hphase
    refine ⟨?_, nofun⟩
    rw [hphase.2.2.2]
    rfl
  · exact hphase

@[simp] theorem history_cancelRequests (s : State) : s.cancelRequests.history = s.history := by
  unfold State.cancelRequests
  split <;> rfl

/-- Between two pieces `reset()` ends the command. -/
theorem phaseOk_reset {r : Registers} {q : DmaRequest} {w : Worker} (h : PhaseOk c r q w)
    (hw : w.betweenPieces q = true) : PhaseOk c r.reset q w := by
  cases w with
  | waiting => trivial
  | dispatching => exact .inl ⟨rfl, rfl⟩
  | looping => exact phaseOk_looping_ready rfl
  | transferred p =>
    refine ⟨h.1, fun hsuccess => ?_⟩
    rw [Worker.betweenPieces, hsuccess] at hw
    nomatch hw
  | incomplete => trivial
  | signalled | prepared _ | transfer _ _ | store _ | dead => nomatch hw

theorem inv_wake (h : Inv c s) (hw : s.worker = .signalled) (poweredOff : Bool) :
    Inv c { s with
      regs := s.regs.clearErrors
      worker := if poweredOff then .incomplete else .dispatching } := by
  have hphase := h.phase
  rw [hw] at hphase
  cases poweredOff with
  | true => exact ⟨h.calls, trivial⟩
  | false => exact ⟨h.calls, .inr hphase⟩

theorem inv_dispatch {t : State} (h : Inv c s) (hstep : step c s .dispatch = some t) :
    Inv c t := by
  obtain ⟨hcalls, hphase⟩ := h
  simp only [step] at hstep
  split at hstep
  · nomatch hstep
  · rename_i hw
    rw [not_not.mp hw] at hphase
    have hnone : PhaseOk c s.regs s.dmaRequest .looping := by
      cases hphase with
      | inl h => exact phaseOk_looping_ready h.1
      | inr h => apply phaseOk_looping <;> rw [h.1] <;> nofun
    split at hstep
    · obtain rfl := Option.some.inj hstep
      exact ⟨hcalls.cons trivial, phaseOk_looping nofun nofun⟩
    · obtain rfl := Option.some.inj hstep
      exact inv_doCommandDone hcalls (.inl rfl)
    · obtain rfl := Option.some.inj hstep
      exact ⟨hcalls, hnone⟩
    · obtain rfl := Option.some.inj hstep
      exact ⟨hcalls, hnone⟩
    · rename_i hseek hreadHeader hnoop hgetStatus
      obtain rfl := Option.some.inj hstep
      have hfunction : s.regs.functionCode.isTransfer = true := by
        cases hf : s.regs.functionCode with
        | noop => exact absurd hf hnoop
        | getStatus => exact absurd hf hgetStatus
        | seek => exact absurd hf hseek
        | readHeader => exact absurd hf hreadHeader
        | writeCheck | writeData | readData | readDataWithoutHeaderCheck => rfl
      refine ⟨hcalls.cons trivial, fun _ => ⟨hfunction, ?_⟩, nofun⟩
      cases hphase with
      | inl h => exact absurd (hfunction.symm.trans h.2) nofun
      | inr h => exact h.2 hfunction

theorem inv_step {t : State} {a : Action} (h : Inv c s) (ha : Careful c s a)
    (hstep : step c s a = some t) : Inv c t := by
  cases a with
  | writeCS w seeking driveReady =>
    simp only [step] at hstep
    split at hstep
    · obtain rfl := Option.some.inj hstep
      exact h
    · rename_i hready
      rw [not_not] at hready
      rw [Option.ite_none_left_eq_some] at hstep
      obtain ⟨hunlocked, hstep⟩ := hstep
      -- a worker that has a signal is not yet done with its command
      have hw : s.worker = .waiting := by
        have hphase := h.phase
        cases hworker : s.worker with
        | waiting => rfl
        | signalled =>
          rw [hworker] at hphase
          exact absurd (hready.symm.trans hphase.1) nofun
        | dispatching | looping | prepared _ | transfer _ _ | transferred _ | store _
        | incomplete | dead =>
          rw [hworker] at hunlocked
          exact absurd rfl hunlocked
      split at hstep
      · obtain rfl := Option.some.inj hstep
        refine ⟨h.calls, ?_⟩
        show PhaseOk c _ _ s.worker
        rw [hw]
        trivial
      · rename_i hgo
        obtain rfl := Option.some.inj hstep
        apply inv_go
        · exact h.calls
        · exact hw
        · exact ha hready (Bool.not_eq_true _ ▸ hgo)
  | writeBA w =>
    obtain rfl := Option.some.inj hstep
    exact ⟨h.calls, phaseOk_write h.phase ha rfl rfl⟩
  | writeDA w =>
    obtain rfl := Option.some.inj hstep
    exact ⟨h.calls, phaseOk_writeDA h.phase w⟩
  | writeMP w =>
    obtain rfl := Option.some.inj hstep
    exact ⟨h.calls, phaseOk_write h.phase ha rfl rfl⟩
  | writeBAE w =>
    simp only [step, Option.ite_none_right_eq_some] at hstep
    obtain rfl := Option.some.inj hstep.2
    exact ⟨h.calls, phaseOk_write h.phase ha rfl rfl⟩
  | initAsserted =>
    simp only [step, Option.ite_none_right_eq_some] at hstep
    obtain rfl := Option.some.inj hstep.2
    refine ⟨?_, phaseOk_cancelRequests h⟩
    show CallsInSpace c.space s.cancelRequests.history
    rw [history_cancelRequests]
    exact h.calls
  | initNegated =>
    simp only [step, Option.ite_none_right_eq_some] at hstep
    obtain rfl := Option.some.inj hstep.2
    have hreset : Inv c s.reset := ⟨h.calls.cons trivial, phaseOk_reset h.phase ha⟩
    refine ⟨?_, phaseOk_cancelRequests hreset⟩
    show CallsInSpace c.space s.reset.cancelRequests.history
    rw [history_cancelRequests]
    exact hreset.calls
  | wake poweredOff =>
    simp only [step] at hstep
    split at hstep
    · nomatch hstep
    · rename_i hw
      rw [not_not] at hw
      split at hstep
      · obtain rfl := Option.some.inj hstep
        exact ⟨h.calls, trivial⟩
      · obtain rfl := Option.some.inj hstep
        exact inv_wake h hw poweredOff
  | dispatch => exact inv_dispatch h hstep
  | enter driveReady onTrack header =>
    simp only [step, Option.ite_none_right_eq_some] at hstep
    obtain rfl := Option.some.inj hstep.2
    exact inv_enter h hstep.1 driveReady onTrack header
  | callDMA =>
    simp only [step] at hstep
    split at hstep
    · rename_i hw
      obtain rfl := Option.some.inj hstep
      exact inv_callDMA h hw ha
    · nomatch hstep
  | dmaComplete ws =>
    simp only [step] at hstep
    split at hstep
    · rename_i hw
      rw [Option.ite_none_right_eq_some] at hstep
      obtain rfl := Option.some.inj hstep.2
      exact inv_dmaComplete h hw ws
    · nomatch hstep
  | afterDMA =>
    simp only [step] at hstep
    split at hstep
    · rename_i hw
      obtain rfl := Option.some.inj hstep
      exact inv_afterDMA h hw
    · nomatch hstep
  | store writable differs =>
    simp only [step] at hstep
    split at hstep
    · rename_i hw
      obtain rfl := Option.some.inj hstep
      exact inv_storePiece h hw writable differs
    · nomatch hstep
  | incomplete =>
    simp only [step, Option.ite_none_right_eq_some] at hstep
    obtain rfl := Option.some.inj hstep.2
    refine ⟨calls_doCommandDone h.calls, ?_⟩
    apply phaseOk_looping_ready
    show s.operationIncomplete.regs.state = .controllerReady
    rw [State.operationIncomplete, regs_doCommandDone]
    rfl

theorem inv_initial : Inv c .initial := ⟨callsInSpace_nil _, trivial⟩

/-- The runs of careful steps. -/
def CarefulRun (c : Config) : State → Prop :=
  Transition.Reachable (· = .initial) fun s t => ∃ a, Careful c s a ∧ step c s a = some t

theorem CarefulRun.inv (h : CarefulRun c s) : Inv c s := by
  apply Transition.Reachable.invariant _ _ h
  · intro s hs
    rw [hs]
    exact inv_initial
  · rintro s t hs ⟨a, ha, hstep⟩
    exact inv_step hs ha hstep

end QUniBone.RL11
