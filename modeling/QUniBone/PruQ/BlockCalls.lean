import QUniBone.PruQ.BlockLines

/-!
# The calls of the DMA state machine in block mode

What each state does to the variables of the transfer, and where it goes.

* `Regs`: these variables.
* `addr_cases`, `dinStart_cases`, `doutStart_cases`, `dinComplete_cases`, `doutComplete_cases`,
  `state99_cases`: the states.
-/

namespace QUniBone.PruQ

open PruU (Lines MailboxDma dmaStateReady dmaStateRunning dmaStateTimeoutstop dmaStateInitstop)

namespace BlockMode

/-! ## The calls -/

/-- The variables of the state machine, without those that only the lines depend on. -/
structure Regs where
  stateTimeout : Bool
  dataptr : ℕ
  wordsLeft : Word
  blockEndAddr : UInt
  blockDataStateFunc : Option DmaState
  mailbox : MailboxDma

def regs (s : Pru) : Regs :=
  ⟨s.dma.stateTimeout, s.dma.dataptr, s.dma.wordsLeft, s.dma.blockEndAddr,
    s.dma.blockDataStateFunc, s.mailbox.dma⟩

namespace Regs

def setWord (r : Regs) (w : Word) : Regs :=
  { r with mailbox := { r.mailbox with words := Function.update r.mailbox.words r.dataptr w } }

/-- The end of a block -/
def endIf (r : Regs) (last : Prop) [Decidable last] : Regs :=
  { r with blockDataStateFunc := if last then none else r.blockDataStateFunc }

def setStatus (r : Regs) (status : Byte) : Regs :=
  { r with mailbox := { r.mailbox with curStatus := status } }

/-- A word is done. -/
def advance (r : Regs) : Regs :=
  { r with dataptr := r.dataptr + 1, wordsLeft := r.wordsLeft - 1 }

def setAddr (r : Regs) (addr : UInt) : Regs :=
  { r with mailbox := { r.mailbox with curAddr := addr } }

end Regs

/-- The state that starts a data portion -/
def portionState (buscycle : Byte) : DmaState :=
  if cycleIsDato buscycle then .doutStart else .dinStart

variable (s : Pru)

theorem addr_cases :
    (s.mailbox.dma.curStatus ≠ dmaStateRunning ∨ s.mailbox.dma.wordcount = 0) ∧
        s.smDmaStateAddr = (none, s) ∨
      ¬ (s.mailbox.dma.curStatus ≠ dmaStateRunning ∨ s.mailbox.dma.wordcount = 0) ∧
        s.smDmaStateAddr.1 = some (portionState s.mailbox.dma.buscycle) ∧
        regs s.smDmaStateAddr.2 = { regs s with
          stateTimeout := false
          blockEndAddr := Pru.blockEnd s.mailbox.dma.curAddr s.dma.wordsLeft
          blockDataStateFunc := some (portionState s.mailbox.dma.buscycle) } := by
  by_cases h : s.mailbox.dma.curStatus ≠ dmaStateRunning ∨ s.mailbox.dma.wordcount = 0
  · exact .inl ⟨h, by rw [Pru.smDmaStateAddr]; exact if_pos h⟩
  · refine .inr ⟨h, ?_⟩
    unfold Pru.smDmaStateAddr
    simp only [if_neg h]
    exact ⟨rfl, rfl⟩

theorem clearAddress_regs : regs s.clearAddress = regs s := by
  unfold Pru.clearAddress
  split <;> rfl

theorem clearAddress_emulation : s.clearAddress.emulation = s.emulation := by
  unfold Pru.clearAddress
  split <;> rfl

theorem putDout_regs (isDatob : Bool) (data : Word) : regs (s.putDout isDatob data) = regs s := by
  unfold Pru.putDout Pru.firstDout
  dsimp only
  split <;> rfl

/-- `sm_dma_state_din_start`: the QBone answers, or the wait begins. -/
theorem dinStart_cases :
    s.smDmaStateDinStart.1 = some .state99 ∧
        regs s.smDmaStateDinStart.2 =
          ((regs s).setWord (internalData s)).endIf (s.mailbox.dma.curAddr = s.dma.blockEndAddr) ∨
      s.smDmaStateDinStart.1 = some .dinComplete ∧ regs s.smDmaStateDinStart.2 = regs s := by
  let u := (s.setbits 4 (bit 5 ||| bit 1)
    (if s.mailbox.dma.curAddr == s.dma.blockEndAddr then bit 1 else 0xff)).clearAddress
  have hregs : regs u = regs s := clearAddress_regs _
  have hread : emulatedAddrRead u.emulation s.mailbox.dma.curAddr =
      emulatedAddrRead s.emulation s.mailbox.dma.curAddr :=
    congrArg (emulatedAddrRead · _) (clearAddress_emulation _)
  unfold Pru.smDmaStateDinStart
  dsimp only
  rw [show (s.setbits 4 (bit 5 ||| bit 1)
    (if s.mailbox.dma.curAddr == s.dma.blockEndAddr then bit 1 else 0xff)).clearAddress = u from rfl,
    hread]
  cases hans : (emulatedAddrRead s.emulation s.mailbox.dma.curAddr).1 with
  | none => exact .inr ⟨rfl, hregs⟩
  | some answer =>
    refine .inl ⟨rfl, ?_⟩
    have hdata : internalData s = answer.2 := by rw [internalData, hans]; rfl
    rw [hdata, ← hregs]
    by_cases hlast : s.mailbox.dma.curAddr = s.dma.blockEndAddr
    · simp only [hlast, beq_self_eq_true, if_true, Regs.endIf]
      rfl
    · simp only [beq_eq_false_iff_ne.mpr hlast, hlast, if_false, Regs.endIf]
      rfl

/-- The write of `sm_dma_state_dout_start`, of a byte or of a word -/
def doutWrite : Option Hit × Emulation :=
  let addr := s.mailbox.dma.curAddr
  let isDatob := s.mailbox.dma.buscycle == cycleDatob
  let data := s.mailbox.dma.words s.dma.dataptr
  if isDatob then
    emulatedAddrWriteB (s.putDout isDatob data).emulation addr
      (if addr.getLsbD 0 then PruU.highByte data else PruU.lowByte data)
  else emulatedAddrWriteW (s.putDout isDatob data).emulation addr data

/-- `sm_dma_state_dout_start` -/
theorem doutStart_cases :
    s.smDmaStateDoutStart.1 = some .state99 ∧
        regs s.smDmaStateDoutStart.2 =
          (regs s).endIf (s.mailbox.dma.curAddr = s.dma.blockEndAddr) ∨
      s.smDmaStateDoutStart.1 = some .doutComplete ∧ regs s.smDmaStateDoutStart.2 = regs s := by
  have hregs := putDout_regs s (s.mailbox.dma.buscycle == cycleDatob)
    (s.mailbox.dma.words s.dma.dataptr)
  have heq : s.smDmaStateDoutStart =
      let u := (s.putDout (s.mailbox.dma.buscycle == cycleDatob)
        (s.mailbox.dma.words s.dma.dataptr)).withEmulation (doutWrite s).2
      if (doutWrite s).1.isSome then
        (some .state99, if s.mailbox.dma.curAddr = u.answerDout.dma.blockEndAddr then
          u.answerDout.endBlock else u.answerDout)
      else (some .doutComplete, u.setDmaTimeout) := rfl
  rw [heq]
  cases (doutWrite s).1 with
  | none => exact .inr ⟨rfl, hregs⟩
  | some hit =>
    refine .inl ⟨rfl, ?_⟩
    generalize s.putDout _ _ = u at hregs ⊢
    have hend : s.dma.blockEndAddr = u.dma.blockEndAddr := congrArg Regs.blockEndAddr hregs.symm
    rw [hend, ← hregs]
    show regs (if s.mailbox.dma.curAddr = u.dma.blockEndAddr then _ else _) = _
    by_cases hlast : s.mailbox.dma.curAddr = u.dma.blockEndAddr
    · rw [if_pos hlast, Regs.endIf, if_pos hlast]
      rfl
    · rw [if_neg hlast, Regs.endIf, if_neg hlast]
      rfl

/-- The wait for RPLY ends with RPLY, with the timer, or not yet. -/
theorem waitRply_cases (l : Lines) :
    (l 4 0).getLsbD 3 = true ∧ s.waitRply l = (true, s) ∨
      (l 4 0).getLsbD 3 = false ∧ (s.waitRply l).1 = s.timeouts.reached .dma ∧
        regs (s.waitRply l).2 = { regs s with stateTimeout := s.timeouts.reached .dma } := by
  unfold Pru.waitRply
  cases (l 4 0).getLsbD 3 with
  | true => exact .inl ⟨rfl, rfl⟩
  | false => exact .inr ⟨rfl, rfl, rfl⟩

/-- What a data portion ends with when the state machine does not wait any longer -/
def completeRegs (r : Regs) (l : Lines) : Regs :=
  r.endIf (r.mailbox.curAddr = r.blockEndAddr ∨ (l 4 1).getLsbD 6 = false)

/-- `sm_dma_state_din_complete` after the wait -/
def dinDone (l : Lines) (u : Pru) : Pru :=
  let u := u.setDmaWord (dataLines l)
  (if u.mailbox.dma.curAddr = u.dma.blockEndAddr ∨ (l 4 1).getLsbD 6 = false then u.endBlock
    else u).setbits 4 (bit 1) 0

/-- `sm_dma_state_dout_complete` after the wait -/
def doutDone (l : Lines) (u : Pru) : Pru :=
  let u := u.setbits 4 (bit 2) 0
  if u.mailbox.dma.curAddr = u.dma.blockEndAddr ∨ (l 4 1).getLsbD 6 = false then
    (u.endBlock.setbyte 3 0x02).setbits 4 (bit 4) 0 else u

theorem dinDone_regs (l : Lines) :
    regs (dinDone l s) = completeRegs ((regs s).setWord (dataLines l)) l := by
  show regs ((if s.mailbox.dma.curAddr = s.dma.blockEndAddr ∨ (l 4 1).getLsbD 6 = false then _
    else _ : Pru).setbits 4 (bit 1) 0) = Regs.endIf _
      (s.mailbox.dma.curAddr = s.dma.blockEndAddr ∨ (l 4 1).getLsbD 6 = false)
  by_cases h : s.mailbox.dma.curAddr = s.dma.blockEndAddr ∨ (l 4 1).getLsbD 6 = false
  · rw [if_pos h, Regs.endIf, if_pos h]
    rfl
  · rw [if_neg h, Regs.endIf, if_neg h]
    rfl

theorem doutDone_regs (l : Lines) : regs (doutDone l s) = completeRegs (regs s) l := by
  show regs (if s.mailbox.dma.curAddr = s.dma.blockEndAddr ∨ (l 4 1).getLsbD 6 = false then _
    else _ : Pru) = Regs.endIf _
      (s.mailbox.dma.curAddr = s.dma.blockEndAddr ∨ (l 4 1).getLsbD 6 = false)
  by_cases h : s.mailbox.dma.curAddr = s.dma.blockEndAddr ∨ (l 4 1).getLsbD 6 = false
  · rw [if_pos h, Regs.endIf, if_pos h]
    rfl
  · rw [if_neg h, Regs.endIf, if_neg h]
    rfl

/-- A wait for RPLY, and what comes after it -/
theorem wait_cases (l : Lines) (wait : DmaState) (done : Pru → Pru) (f : Regs → Regs)
    (hdone : ∀ u, regs (done u) = f (regs u)) (result : Option DmaState × Pru)
    (heq : result = if (s.waitRply l).1 = false then (some wait, (s.waitRply l).2)
      else (some .state99, done (s.waitRply l).2)) :
    (l 4 0).getLsbD 3 = true ∧ result.1 = some .state99 ∧ regs result.2 = f (regs s) ∨
      (l 4 0).getLsbD 3 = false ∧ result.1 = some .state99 ∧
        regs result.2 = f { regs s with stateTimeout := true } ∨
      (l 4 0).getLsbD 3 = false ∧ result.1 = some wait ∧
        regs result.2 = { regs s with stateTimeout := false } := by
  rcases waitRply_cases s l with ⟨hrply, hwait⟩ | ⟨hrply, hready, hregs⟩
  · rw [hwait, if_neg Bool.true_eq_false.mp] at heq
    exact .inl ⟨hrply, by rw [heq], by rw [heq, hdone]⟩
  · cases htimer : s.timeouts.reached .dma with
    | true =>
      rw [hready, htimer, if_neg (by decide)] at heq
      exact .inr (.inl ⟨hrply, by rw [heq], by rw [heq, hdone, hregs, htimer]⟩)
    | false =>
      rw [hready, htimer, if_pos rfl] at heq
      exact .inr (.inr ⟨hrply, by rw [heq], by rw [heq, hregs, htimer]⟩)

/-- `sm_dma_state_din_complete` -/
theorem dinComplete_cases (l : Lines) :
    (l 4 0).getLsbD 3 = true ∧ (s.smDmaStateDinComplete l).1 = some .state99 ∧
        regs (s.smDmaStateDinComplete l).2 = completeRegs ((regs s).setWord (dataLines l)) l ∨
      (l 4 0).getLsbD 3 = false ∧ (s.smDmaStateDinComplete l).1 = some .state99 ∧
        regs (s.smDmaStateDinComplete l).2 =
          completeRegs (({ regs s with stateTimeout := true } : Regs).setWord (dataLines l)) l ∨
      (l 4 0).getLsbD 3 = false ∧ (s.smDmaStateDinComplete l).1 = some .dinComplete ∧
        regs (s.smDmaStateDinComplete l).2 = { regs s with stateTimeout := false } :=
  wait_cases s l .dinComplete (dinDone l) (fun r => completeRegs (r.setWord (dataLines l)) l)
    (fun u => dinDone_regs u l) _ rfl

/-- `sm_dma_state_dout_complete` -/
theorem doutComplete_cases (l : Lines) :
    (l 4 0).getLsbD 3 = true ∧ (s.smDmaStateDoutComplete l).1 = some .state99 ∧
        regs (s.smDmaStateDoutComplete l).2 = completeRegs (regs s) l ∨
      (l 4 0).getLsbD 3 = false ∧ (s.smDmaStateDoutComplete l).1 = some .state99 ∧
        regs (s.smDmaStateDoutComplete l).2 =
          completeRegs { regs s with stateTimeout := true } l ∨
      (l 4 0).getLsbD 3 = false ∧ (s.smDmaStateDoutComplete l).1 = some .doutComplete ∧
        regs (s.smDmaStateDoutComplete l).2 = { regs s with stateTimeout := false } :=
  wait_cases s l .doutComplete (doutDone l) (completeRegs · l) (fun u => doutDone_regs u l) _ rfl

/-- The word is done, in `sm_dma_state_99`. -/
def wordDone : Pru :=
  { s with dma := { s.dma with
    dataptr := s.dma.dataptr + 1, wordsLeft := s.dma.wordsLeft - 1 } }

/-- `sm_dma_state_99` -/
theorem state99_cases (l : Lines) :
    s.dma.stateTimeout = true ∧ (s.smDmaState99 l).1 = none ∧
        regs (s.smDmaState99 l).2 = (regs s).setStatus dmaStateTimeoutstop ∨
      s.dma.stateTimeout = false ∧ s.dma.wordsLeft - 1 = 0 ∧ (s.smDmaState99 l).1 = none ∧
        regs (s.smDmaState99 l).2 = (regs s).advance.setStatus dmaStateReady ∨
      s.dma.stateTimeout = false ∧ s.dma.wordsLeft - 1 ≠ 0 ∧ (l 5 0).getLsbD 0 = true ∧
        (s.smDmaState99 l).1 = none ∧
        regs (s.smDmaState99 l).2 = (regs s).advance.setStatus dmaStateInitstop ∨
      s.dma.stateTimeout = false ∧ s.dma.wordsLeft - 1 ≠ 0 ∧ (l 5 0).getLsbD 0 = false ∧
        (s.smDmaState99 l).1 = some (s.dma.blockDataStateFunc.getD .addr) ∧
        regs (s.smDmaState99 l).2 =
          (regs s).advance.setAddr (s.mailbox.dma.curAddr + 2) := by
  have heq : s.smDmaState99 l =
      if s.dma.stateTimeout then (none, s.finishDma dmaStateTimeoutstop)
      else if s.dma.wordsLeft - 1 = 0 then (none, (wordDone s).finishDma dmaStateReady)
      else if (l 5 0).getLsbD 0 then (none, (wordDone s).finishDma dmaStateInitstop)
      else
        let u := (wordDone s).modifyMailboxDma fun dma => { dma with curAddr := dma.curAddr + 2 }
        if s.dma.blockDataStateFunc.isSome then (s.dma.blockDataStateFunc, u)
        else (some .addr, u.setbits 4 (bit 0 ||| bit 5) 0) := rfl
  rw [heq]
  cases s.dma.stateTimeout with
  | true => exact .inl ⟨rfl, rfl, rfl⟩
  | false =>
    refine .inr ?_
    rw [if_neg Bool.false_ne_true]
    by_cases hleft : s.dma.wordsLeft - 1 = 0
    · rw [if_pos hleft]
      exact .inl ⟨rfl, hleft, rfl, rfl⟩
    · rw [if_neg hleft]
      refine .inr ?_
      cases (l 5 0).getLsbD 0 with
      | true => exact .inl ⟨rfl, hleft, rfl, rfl, rfl⟩
      | false =>
        refine .inr ⟨rfl, hleft, rfl, ?_⟩
        rw [if_neg Bool.false_ne_true]
        cases s.dma.blockDataStateFunc with
        | none => exact ⟨rfl, rfl⟩
        | some func => exact ⟨rfl, rfl⟩

end BlockMode

end QUniBone.PruQ
