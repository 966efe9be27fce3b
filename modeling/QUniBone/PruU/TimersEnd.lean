import QUniBone.PruU.CpuArbitrator
import QUniBone.PruU.ClientRound
import QUniBone.PruU.Timers

/-!
# The end of the timers in the UniBone's main loop

The main loop has two users of timers: the DMA state machine while it waits for SSYN, and the
arbitrator of an emulated CPU while it waits for SACK. A timer that nobody ends keeps the shared
cycle counter from being reset.

* `Timing`: what the users of the timers work on.
* `DmaCall`, `SackCall`: what one call of a user does to it.
* `Step`: the main loop, ARM and time. The time between the rounds of the arbitrator and the time
  of a transfer are bounded.
* `Ended`, `timers_end`: no timer outlives its user, and the counter does not come to its end, if
  no request hides the timeout of a grant.
* `masked_timer_runs`: NPR hides it.
-/

namespace QUniBone.PruU

open PriorityArbitration Transition

namespace Pru

/-! ## What leaves the timers alone -/

/-- What the users of timers work on. -/
structure Timing where
  timeouts : Timeouts
  grant : Byte
  curStatus : Byte
  wordcount : Word

/-- The timers are changed. -/
def Timing.modify (t : Timing) (f : Timeouts → Timeouts) : Timing :=
  { t with timeouts := f t.timeouts }

def timing (s : Pru) : Timing :=
  ⟨s.timeouts, s.arb.arbitratorGrantMask, s.mailbox.dma.curStatus, s.mailbox.dma.wordcount⟩

section Frame

variable (s : Pru)

@[simp] theorem timing_setbits (reg : ℕ) (mask val : Byte) :
    (s.setbits reg mask val).timing = s.timing := rfl

@[simp] theorem timing_setbyte (reg : ℕ) (val : Byte) :
    (s.setbyte reg val).timing = s.timing := rfl

@[simp] theorem timing_putData (data : Word) : (s.putData data).timing = s.timing := rfl

@[simp] theorem timing_putAddress (addr : UInt) (control : Byte) :
    (s.putAddress addr control).timing = s.timing := by
  rw [putAddress, timing_setbits, timing_setbyte, timing_setbyte]

@[simp] theorem timing_withEmulation (e : Emulation) : (s.withEmulation e).timing = s.timing := rfl

@[simp] theorem timing_assertSsyn : s.assertSsyn.timing = s.timing := rfl

@[simp] theorem timing_setDmaWord (w : Word) : (s.setDmaWord w).timing = s.timing := rfl

@[simp] theorem timing_modifyEvents (f : Events → Events) : (s.modifyEvents f).timing = s.timing :=
  rfl

@[simp] theorem timing_answerInternally : s.answerInternally.timing = s.timing := by
  rw [answerInternally, timing_setbits, timing_putData, timing_setbits, timing_setbits]

@[simp] theorem timing_setDmaTimeout : s.setDmaTimeout.timing =
    s.timing.modify (·.set .dma (Timeouts.microsecs unibusTimeoutPeriodUs)) := rfl

@[simp] theorem timing_pollDmaTimeout : s.pollDmaTimeout.timing = s.timing.modify (·.poll .dma) :=
  rfl

@[simp] theorem timing_finishDma (status : Byte) : (s.finishDma status).timing =
    { s.timing.modify (·.cleanup .dma) with curStatus := status } := by
  rw [finishDma, timing_modifyEvents]
  generalize hu : ((((s.setbyte 2 0).setbyte 3 0).setbits 4 0x3f 0).setbits 1 (bit 6) 0) = u
  have htiming : u.timing = s.timing := by
    rw [← hu, timing_setbits, timing_setbits, timing_setbyte, timing_setbyte]
  rw [← htiming]
  rfl

end Frame

theorem smDataSlave_timing (l : Lines) (s : Pru) (st : SlaveState) :
    (s.smDataSlave l st).2.timing = s.timing := by
  cases st with
  | start =>
    show (s.smDataSlaveStart l).2.timing = _
    unfold smDataSlaveStart
    dsimp only
    split_ifs
    all_goals try simp only [timing_assertSsyn, timing_withEmulation]
    split
    all_goals simp only [timing_assertSsyn, timing_putData, timing_withEmulation]
  | state10 =>
    show (s.smDataSlaveState10 l).2.timing = _
    unfold smDataSlaveState10
    split_ifs
    all_goals rfl
  | state20 =>
    show (s.smDataSlaveState20 l).2.timing = _
    unfold smDataSlaveState20
    split_ifs
    all_goals simp only [timing_setbits, timing_putData]

theorem smIntrMaster_timing (l : Lines) (s : Pru) (st : IntrMasterState) :
    (s.smIntrMaster l st).2.timing = s.timing := by
  cases st with
  | start => rfl
  | state1 =>
    show (((s.putData s.intrMaster.vector).setbits 7 (bit 0) (bit 0)).setbits 1 (bit 5) 0).timing
      = _
    simp only [timing_setbits, timing_putData]
  | state2 =>
    show (s.smIntrMasterState2 l).2.timing = _
    unfold smIntrMasterState2
    dsimp only
    split
    · rfl
    split
    · rfl
    · simp only [timing_modifyEvents, timing_setbits, timing_putData]

theorem smIntrSlave_timing (l : Lines) (s : Pru) (st : IntrSlaveState) :
    (s.smIntrSlave l st).2.timing = s.timing := by
  cases st with
  | start =>
    show (s.smIntrSlaveStart l).2.timing = _
    unfold smIntrSlaveStart
    dsimp only
    split
    all_goals rfl
  | state1 =>
    show (s.smIntrSlaveState1 l).2.timing = _
    unfold smIntrSlaveState1
    split_ifs
    all_goals rfl

theorem intrSlaveStep_timing (l : Lines) (s : Pru) : (s.intrSlaveStep l).timing = s.timing := by
  unfold intrSlaveStep
  split
  · exact smIntrSlave_timing l s (s.intrSlave.getD .start)
  · rfl

/-! ## Data transfers -/

/-- What a call of the DMA state machine does. -/
inductive DmaCall (t : Timing) : DmaState → Option DmaState → Timing → Prop
  | start : DmaCall t .start (some .state1) { t with curStatus := dmaStateRunning }
  | stopped : t.curStatus ≠ dmaStateRunning ∨ t.wordcount = 0 → DmaCall t .state1 none t
  | answered : DmaCall t .state1 (some .state99) t
  | external (next : DmaState) : next ≠ .start → t.curStatus = dmaStateRunning →
      t.wordcount ≠ 0 → DmaCall t .state1 (some next)
        (t.modify (·.set .dma (Timeouts.microsecs unibusTimeoutPeriodUs)))
  | polled (st next : DmaState) : st ≠ .start → next ≠ .start →
      DmaCall t st (some next) (t.modify (·.poll .dma))
  | finished (status : Byte) :
      DmaCall t .state99 none { t.modify (·.cleanup .dma) with curStatus := status }
  | continued : DmaCall t .state99 (some .state1) t

theorem smDmaWrite_call {t : Timing} {u : Pru} (hu : u.timing = t)
    (hstatus : t.curStatus = dmaStateRunning) (hcount : t.wordcount ≠ 0) :
    DmaCall t .state1 u.smDmaWrite.1 u.smDmaWrite.2.timing := by
  have hexternal := DmaCall.external (t := t) .state21 (by decide) hstatus hcount
  unfold smDmaWrite
  dsimp only
  split_ifs
  all_goals
    simp only [timing_answerInternally, timing_setDmaTimeout, timing_withEmulation,
      timing_setbits, timing_putData, timing_putAddress, hu]
    first
    | exact .answered
    | exact hexternal

theorem smDmaRead_call {t : Timing} {u : Pru} (hu : u.timing = t)
    (hstatus : t.curStatus = dmaStateRunning) (hcount : t.wordcount ≠ 0) :
    DmaCall t .state1 u.smDmaRead.1 u.smDmaRead.2.timing := by
  unfold smDmaRead
  dsimp only
  split
  · simp only [timing_answerInternally, timing_setDmaWord, timing_putData, timing_withEmulation,
      timing_setbits, timing_putAddress, hu]
    exact .answered
  · simp only [timing_setDmaTimeout, timing_withEmulation, timing_setbits, timing_putAddress, hu]
    exact .external .state11 (by decide) hstatus hcount

theorem smDma_call (l : Lines) (s : Pru) (st : DmaState) :
    DmaCall s.timing st (s.smDma l st).1 (s.smDma l st).2.timing := by
  cases st with
  | start => exact .start
  | state1 =>
    show DmaCall s.timing .state1 s.smDmaState1.1 s.smDmaState1.2.timing
    unfold smDmaState1
    split
    · next hstopped => exact .stopped hstopped
    next hgoes =>
    rw [not_or, not_not] at hgoes
    dsimp only
    generalize hu : (if s.dma.curWordsleft = 1 then s.setbits 1 (bit 5) 0 else s) = u
    have htiming : ({ u with dma := { u.dma with stateTimeout := false } } : Pru).timing =
        s.timing := by
      show u.timing = s.timing
      rw [← hu]
      split <;> rfl
    split
    · exact smDmaWrite_call htiming hgoes.1 hgoes.2
    · exact smDmaRead_call htiming hgoes.1 hgoes.2
  | state11 =>
    show DmaCall s.timing .state11 (s.smDmaState11 l).1 (s.smDmaState11 l).2.timing
    unfold smDmaState11
    dsimp only
    split
    · exact .polled .state11 .state11 (by decide) (by decide)
    · rw [timing_setbits, timing_setDmaWord]
      exact .polled .state11 .state99 (by decide) (by decide)
  | state21 =>
    show DmaCall s.timing .state21 (s.smDmaState21 l).1 (s.smDmaState21 l).2.timing
    unfold smDmaState21
    dsimp only
    split
    · exact .polled .state21 .state21 (by decide) (by decide)
    · rw [timing_putData, timing_setbits]
      exact .polled .state21 .state99 (by decide) (by decide)
  | state99 =>
    show DmaCall s.timing .state99 (s.smDmaState99 l).1 (s.smDmaState99 l).2.timing
    unfold smDmaState99
    split
    · rw [timing_finishDma, timing_setbits]
      exact .finished _
    dsimp only
    split
    · rw [timing_finishDma]
      exact .finished _
    split
    · rw [timing_finishDma, timing_setbits]
      exact .finished _
    · exact .continued

/-! ## Arbitration -/

/-- What a round of the arbitrator does, if no request hides a timeout. -/
inductive SackCall (t : Timing) : Timing → Prop
  | answered : SackCall t { t.modify (·.cleanup .sack) with grant := 0 }
  | raised (grant : Byte) : grant ≠ 0 → t.grant = 0 →
      SackCall t { t.modify (·.set .sack (Timeouts.millisecs arbMasterSackTimoutMs)) with
        grant := grant }
  | kept : (t.grant ≠ 0 → t.timeouts.reached .sack = false) → SackCall t t
  | timedOut : SackCall t { t.modify (fun u => (u.poll .sack).cleanup .sack) with grant := 0 }

theorem raiseGrant_timing (s : Pru) (grant : Byte) : (s.raiseGrant grant).timing =
    { s.timing.modify (·.set .sack (Timeouts.millisecs arbMasterSackTimoutMs)) with
      grant := grant } := rfl

theorem bit_ne_zero {n : ℕ} (h : n < 5) : bit n ≠ 0 := by
  intro hzero
  have hbit := getLsbD_bit n n h
  rw [hzero, getLsbD_zero] at hbit
  simp at hbit

theorem arbitrateRequests_call {s : Pru} {l : Lines} (hmasked : ¬s.Masked l) :
    SackCall s.timing (s.arbitrateRequests (l 1 0)).timing := by
  -- a request keeps the grant only before its timeout
  have hkept : sackLine l = false → (nprLine l = true ∨
      (s.mailbox.arbitrator.ifsIntrArbitrationPending = true ∧ ∃ n < 4, brLine l n = true)) →
      SackCall s.timing s.timing := fun hsack hrequest => by
    refine .kept fun hgrant => Bool.eq_false_iff.mpr fun hreached => ?_
    exact hmasked ⟨⟨hgrant, hreached⟩, hsack, hrequest⟩
  unfold arbitrateRequests
  split
  · exact .answered
  next hsack =>
  have hsack : sackLine l = false := Bool.eq_false_iff.mpr hsack
  split
  · next hnpr =>
    split
    · next hgrant =>
      rw [raiseGrant_timing]
      exact .raised bitNp (by decide) hgrant
    · exact hkept hsack (.inl ((and_bitNp_ne_zero _).mp hnpr))
  next hnpr =>
  split
  · next hintr =>
    split
    · next hgrant =>
      dsimp only
      split
      · rw [raiseGrant_timing, bit_requestedIntrLevel]
        exact .raised _ (bit_ne_zero ((lmbd_lt _).trans (by decide))) hgrant
      · exact .kept fun hne => absurd hgrant hne
    · exact hkept hsack (.inr ⟨hintr.1, (exists_brLine l).mp hintr.2⟩)
  · split
    · next hgrant => exact .kept fun hne => absurd hgrant hne
    · split
      · exact .timedOut
      · next hreached => exact .kept fun _ => Bool.eq_false_iff.mpr hreached

theorem smArbWorkerCpu_timing (l : Lines) (s : Pru) :
    (s.smArbWorkerCpu l).2.timing = (s.arbitrateRequests (l 1 0)).timing := rfl

/-- INIT and power signals leave the arbitrator alone. -/
theorem doEventInitializationsignals_timing (l : Lines) (s : Pru) :
    (s.doEventInitializationsignals l).timing = s.timing ∧
      (s.doEventInitializationsignals l).mailbox.arbitrator = s.mailbox.arbitrator ∧
      (s.doEventInitializationsignals l).emulateCpu = s.emulateCpu := by
  unfold doEventInitializationsignals
  dsimp only
  generalize l 7 0 &&& 0x38 = cur
  have hinit : ∀ t : Pru, t = (if cur &&& initializationsignalInit ≠ 0 then
      s.modifyArb fun arb => { arb with deviceRequestMask := 0 } else s) →
      t.timing = s.timing ∧ t.mailbox.arbitrator = s.mailbox.arbitrator ∧
        t.emulateCpu = s.emulateCpu := by
    rintro t rfl
    split
    all_goals exact ⟨rfl, rfl, rfl⟩
  generalize ht : (if cur &&& initializationsignalInit ≠ 0 then _ else s) = t
  obtain ⟨h1, h2, h3⟩ := hinit t ht.symm
  rw [← h1, ← h2, ← h3]
  have hpower : (t.doEventPower cur).timing = t.timing ∧
      (t.doEventPower cur).mailbox.arbitrator = t.mailbox.arbitrator ∧
      (t.doEventPower cur).emulateCpu = t.emulateCpu := by
    unfold doEventPower
    dsimp only
    split_ifs
    all_goals exact ⟨rfl, rfl, rfl⟩
  obtain ⟨h4, h5, h6⟩ := hpower
  rw [← h4, ← h5, ← h6]
  generalize t.doEventPower cur = u
  unfold doEventInit
  dsimp only
  split_ifs
  all_goals exact ⟨rfl, rfl, rfl⟩

theorem deviceArbWorker_timing (l : Lines) (s : Pru) (granted : Byte) :
    (s.deviceArbWorker l granted).2.timing = s.timing := by
  unfold deviceArbWorker
  split
  · unfold smArbWorkerNone
    dsimp only
    split
    all_goals rfl
  · unfold smArbWorkerDevice
    split
    · rfl
    dsimp only
    split
    · unfold waitForGrant
      dsimp only
      split
      all_goals rfl
    · unfold waitForBus
      dsimp only
      split_ifs
      all_goals rfl

theorem startMaster_timing (s : Pru) (granted : Byte) :
    (s.startMaster granted).timing = s.timing := by
  unfold startMaster
  dsimp only
  split_ifs
  all_goals rfl

/-- The arbitrator is called. -/
def ArbRound (s : Pru) (l : Lines) : Prop :=
  s.emulateCpu = true ∧ (s.doEventInitializationsignals l).registerEventAcked = true

theorem arbitrate_call {s : Pru} {l : Lines} (h : s.ArbRound l) (hmasked : ¬s.Masked l) :
    SackCall s.timing (s.arbitrate l).timing := by
  obtain ⟨htiming, harbitrator, hcpu⟩ := doEventInitializationsignals_timing l s
  unfold arbitrate
  dsimp only
  have hacked := h.2
  generalize s.doEventInitializationsignals l = u at htiming harbitrator hcpu hacked
  rw [h.1] at hcpu
  rw [if_pos hcpu, if_pos hacked, startMaster_timing, deviceArbWorker_timing, grantsSeen,
    if_pos hcpu, smArbWorkerCpu_timing, ← htiming]
  refine arbitrateRequests_call fun hm => hmasked ?_
  have hgrant : u.arb.arbitratorGrantMask = s.arb.arbitratorGrantMask :=
    congrArg Timing.grant htiming
  have htimeouts : u.timeouts = s.timeouts := congrArg Timing.timeouts htiming
  rwa [Masked, grantTimedOut, hgrant, htimeouts, harbitrator] at hm

theorem arbitrate_timing {s : Pru} {l : Lines} (h : ¬s.ArbRound l) :
    (s.arbitrate l).timing = s.timing := by
  obtain ⟨htiming, -, hcpu⟩ := doEventInitializationsignals_timing l s
  have hround : ¬(s.emulateCpu = true ∧
    (s.doEventInitializationsignals l).registerEventAcked = true) := h
  unfold arbitrate
  dsimp only
  generalize s.doEventInitializationsignals l = u at htiming hcpu hround
  rw [← hcpu] at hround
  rw [← htiming]
  by_cases hemulate : u.emulateCpu = true
  · rw [if_pos hemulate, if_neg fun hacked => hround ⟨hemulate, hacked⟩]
  · -- the grants come from the bus
    rw [if_neg hemulate]
    have hforward : (u.forwardGrants (l 0 0 &&& bitMask)).emulateCpu = u.emulateCpu := rfl
    have hsame : (u.forwardGrants (l 0 0 &&& bitMask)).timing = u.timing := rfl
    generalize u.forwardGrants (l 0 0 &&& bitMask) = v at hforward hsame
    rw [← hforward] at hemulate
    split
    · rw [startMaster_timing, deviceArbWorker_timing, grantsSeen, if_neg hemulate]
      exact hsame
    · exact hsame

/-! ## Commands -/

theorem smArbReset_timing (s : Pru) :
    s.smArbReset.timing = { s.timing.modify (·.cleanup .sack) with grant := 0 } := rfl

/-- Only a change of the CPU's emulation ends the arbitrator's timer. -/
theorem arm2pru_timing (l : Lines) (s : Pru) : (s.arm2pru l).timing = s.timing ∨
    (s.arm2pru l).timing = { s.timing.modify (·.cleanup .sack) with grant := 0 } := by
  rw [arm2pru]
  cases s.mailbox.arm2pruReq with
  | cpuEnable =>
    show s.arm2pruCpuEnable.timing = _ ∨ s.arm2pruCpuEnable.timing = _
    unfold arm2pruCpuEnable
    dsimp only
    split_ifs
    · exact .inr (smArbReset_timing _)
    · exact .inl rfl
    · exact .inr (smArbReset_timing _)
    · exact .inl rfl
  | dma =>
    left
    unfold modifyArb
    dsimp only [timing]
    split_ifs
    all_goals rfl
  | intr =>
    left
    show s.arm2pruIntr.timing = _
    unfold arm2pruIntr
    dsimp only
    split
    all_goals rfl
  | arbGrantIntrRequests =>
    left
    show (if s.emulateCpu = true then _ else s : Pru).timing = _
    split
    all_goals rfl
  | initalizationsignalSet =>
    left
    show s.arm2pruInitalizationsignalSet.timing = _
    unfold arm2pruInitalizationsignalSet
    dsimp only
    split_ifs
    all_goals rfl
  | addressOverlay =>
    left
    show s.arm2pruAddressOverlay.timing = _
    unfold arm2pruAddressOverlay
    rw [timing_setbits, timing_setbyte, timing_setbyte]
    rfl
  | none => exact .inl rfl
  | nop => exact .inl rfl
  | arbModeNone => exact .inl rfl
  | arbModeClient => exact .inl rfl
  | intrCancel => exact .inl rfl
  | buslatchSet => exact .inl rfl
  | buslatchGet => exact .inl rfl

theorem arm2pru_master (l : Lines) (s : Pru) : (s.arm2pru l).master = s.master := by
  rw [arm2pru]
  cases s.mailbox.arm2pruReq with
  | cpuEnable =>
    show s.arm2pruCpuEnable.master = _
    unfold arm2pruCpuEnable
    dsimp only
    split_ifs
    all_goals rfl
  | intr =>
    show s.arm2pruIntr.master = _
    unfold arm2pruIntr
    dsimp only
    split
    all_goals rfl
  | arbGrantIntrRequests =>
    show (if s.emulateCpu = true then _ else s : Pru).master = _
    split
    all_goals rfl
  | initalizationsignalSet =>
    show s.arm2pruInitalizationsignalSet.master = _
    unfold arm2pruInitalizationsignalSet
    dsimp only
    split_ifs
    all_goals rfl
  | none => rfl
  | nop => rfl
  | arbModeNone => rfl
  | arbModeClient => rfl
  | dma => rfl
  | intrCancel => rfl
  | addressOverlay => rfl
  | buslatchSet => rfl
  | buslatchGet => rfl

theorem intrSlaveStep_master (l : Lines) (s : Pru) : (s.intrSlaveStep l).master = s.master := by
  unfold intrSlaveStep
  split
  · show (s.smIntrSlave l (s.intrSlave.getD .start)).2.master = _
    cases s.intrSlave.getD .start with
    | start =>
      show (s.smIntrSlaveStart l).2.master = _
      unfold smIntrSlaveStart
      dsimp only
      split
      all_goals rfl
    | state1 =>
      show (s.smIntrSlaveState1 l).2.master = _
      unfold smIntrSlaveState1
      split_ifs
      all_goals rfl
  · rfl

end Pru

/-! ## Runs -/

instance decidableArbRound (s : Pru) (l : Lines) : Decidable (s.ArbRound l) :=
  inferInstanceAs (Decidable (_ ∧ _))

/-- The PRU, and time. -/
structure Timed where
  pru : Pru
  /-- the cycles since the last round of the arbitrator -/
  sinceRound : ℕ
  /-- the cycles since a transfer first waited for another slave -/
  sinceWait : ℕ

namespace Timed

/-- A step of the main loop. -/
def main (w : Timed) (l : Lines) : Timed where
  pru := w.pru.mainStep l
  sinceRound := if w.pru.phase = .arbitrate ∧ w.pru.ArbRound l then 0 else w.sinceRound
  sinceWait := if w.pru.timeouts.target .dma = 0 then 0 else w.sinceWait

/-- ARM writes what it shares with the PRU. -/
def arm (w : Timed) (mailbox : Mailbox) (emulation : Emulation) : Timed :=
  { w with pru := { w.pru with mailbox := mailbox, emulation := emulation } }

/-- Time passes. -/
def elapse (w : Timed) (d : ℕ) : Timed where
  pru := { w.pru with timeouts := Timers.elapse w.pru.timeouts d }
  sinceRound := w.sinceRound + d
  sinceWait := w.sinceWait + d

/-- While a grant is waiting for SACK the arbitrator is called every `R` cycles, and a transfer
takes at most `D` cycles from its first wait on. -/
def InTime (R D : ℕ) (w : Timed) (d : ℕ) : Prop :=
  (w.pru.timeouts.target .sack ≠ 0 → w.sinceRound + d ≤ R) ∧
    (w.pru.timeouts.target .dma ≠ 0 → w.sinceWait + d ≤ D)

/-- ARM does not touch a running transfer. -/
inductive Step (cond : Timed → Lines → Prop) (R D : ℕ) : Timed → Timed → Prop
  | main {w : Timed} (l : Lines) : cond w l → Step cond R D w (w.main l)
  | arm {w : Timed} (mailbox : Mailbox) (emulation : Emulation) :
      (∀ st, w.pru.master = some (.dma st) →
        mailbox.dma.curStatus = w.pru.mailbox.dma.curStatus ∧
          mailbox.dma.wordcount = w.pru.mailbox.dma.wordcount) →
      Step cond R D w (w.arm mailbox emulation)
  | elapse {w : Timed} (d : ℕ) : w.InTime R D d → Step cond R D w (w.elapse d)

/-- After the start of the main loop. -/
def powerUp : Timed := ⟨Pru.powerUp, 0, 0⟩

/-- No round of the arbitrator finds a grant that has timed out hidden by a request. -/
def Careful (w : Timed) (l : Lines) : Prop :=
  w.pru.phase = .arbitrate → w.pru.ArbRound l → ¬w.pru.Masked l

/-- The timers come from a run of calls that meet their precondition. -/
def Calls (t : Timeouts) : Prop :=
  ∃ armed, Reachable Timers.Initial Timers.CarefulStep ⟨t, armed⟩

/-- What is to hold of the timers in every run. -/
structure Ended (R D : ℕ) (w : Timed) : Prop where
  /-- Without a grant the timer for SACK does not run. -/
  sack : w.pru.arb.arbitratorGrantMask = 0 → w.pru.timeouts.target .sack = 0
  /-- Without a transfer the timer for SSYN does not run. -/
  dma : (∀ st, w.pru.master ≠ some (.dma st)) → w.pru.timeouts.target .dma = 0
  /-- A timer that is reached is stopped by the next call of its user. -/
  sackStops : ∀ l, w.pru.phase = .arbitrate → w.pru.ArbRound l →
    w.pru.timeouts.target .sack ≠ 0 → w.pru.timeouts.reached .sack = true →
    (Careful w l → (w.pru.mainStep l).timeouts.target .sack = 0)
  dmaStops : ∀ l st, w.pru.phase = .slave → w.pru.master = some (.dma st) →
    st = .state11 ∨ st = .state21 → w.pru.timeouts.reached .dma = true →
    (w.pru.mainStep l).timeouts.target .dma = 0
  /-- The calls meet the precondition of the timers, up to now and for the time that follows. -/
  calls : Calls w.pru.timeouts
  inRange : ∀ d, w.InTime R D d → w.pru.timeouts.running ≠ 0 →
    w.pru.timeouts.cycle.toNat + d < 2 ^ 32

/-! ## Calls of the timers -/

section Calls

variable {t : Timeouts} {id : TimeoutId}

theorem Calls.counts (h : Calls t) : t.Counts := by
  obtain ⟨armed, h⟩ := h
  exact (Timers.kept_of_careful h).1.active

theorem Calls.cleanup (h : Calls t) : Calls (t.cleanup id) := by
  obtain ⟨armed, h⟩ := h
  exact ⟨_, h.step ⟨.cleanup id, trivial, trivial, rfl⟩⟩

theorem Calls.set (h : Calls t) {delta : UInt} (hdelta : 24 < delta.toNat)
    (hrange : (∃ i, i ≠ id ∧ t.target i ≠ 0) → t.cycle.toNat + (delta.toNat - 24) < 2 ^ 32) :
    Calls (t.set id delta) := by
  obtain ⟨armed, h⟩ := h
  exact ⟨_, h.step ⟨.set id delta, hrange, .inl hdelta, rfl⟩⟩

theorem Calls.elapse (h : Calls t) {d : ℕ}
    (hrange : t.running ≠ 0 → t.cycle.toNat + d < 2 ^ 32) : Calls (Timers.elapse t d) := by
  obtain ⟨armed, h⟩ := h
  exact ⟨_, h.step ⟨.elapse d, hrange, trivial, rfl⟩⟩

end Calls

/-! ## Timers in range -/

/-- The cycles of the timeout for SACK, less those that are subtracted. -/
def sackCycles : ℕ := 1999976

/-- A timer that runs has a user, and the counter is below its end. -/
structure Within (R D : ℕ) (t : Pru.Timing) (sinceRound sinceWait : ℕ) : Prop where
  calls : Calls t.timeouts
  grant : t.timeouts.target .sack ≠ 0 → t.grant ≠ 0
  sack : t.timeouts.target .sack ≠ 0 → (t.timeouts.target .sack).toNat = sackCycles ∧
    t.timeouts.cycle.toNat ≤ sackCycles + sinceRound ∧ sinceRound ≤ R
  transfer : t.timeouts.target .dma ≠ 0 →
    t.curStatus = dmaStateRunning ∧ t.wordcount ≠ 0
  dma : t.timeouts.target .dma ≠ 0 →
    t.timeouts.cycle.toNat ≤ sackCycles + R + sinceWait ∧ sinceWait ≤ D

theorem toNat_sackDelay :
    (Timeouts.millisecs arbMasterSackTimoutMs).toNat = sackCycles + 24 := rfl

theorem toNat_dmaDelay : (Timeouts.microsecs unibusTimeoutPeriodUs).toNat = 4000 := rfl

namespace Within

variable {R D sinceRound sinceWait : ℕ} {t : Pru.Timing}

/-- The counter is below its end as long as a timer runs. -/
theorem inRange (h : Within R D t sinceRound sinceWait) (hbound : R + D + 2 ^ 21 < 2 ^ 32)
    {d : ℕ} (hsack : t.timeouts.target .sack ≠ 0 → sinceRound + d ≤ R)
    (hdma : t.timeouts.target .dma ≠ 0 → sinceWait + d ≤ D) (hrun : t.timeouts.running ≠ 0) :
    t.timeouts.cycle.toNat + d < 2 ^ 32 := by
  have hsackCycles : sackCycles = 1999976 := rfl
  by_cases hidle : t.timeouts.target .sack = 0
  · have hdmaRuns : t.timeouts.target .dma ≠ 0 := fun hidle' => hrun <| by
      rw [Timeouts.running_eq_zero]
      intro i
      cases i with
      | dma => exact hidle'
      | sack => exact hidle
    have hcycle := (h.dma hdmaRuns).1
    have hd := hdma hdmaRuns
    omega
  · have hcycle := (h.sack hidle).2.1
    have hd := hsack hidle
    omega

/-- A timer is stopped. -/
theorem cleanup (h : Within R D t sinceRound sinceWait) (id : TimeoutId) :
    Within R D (t.modify (·.cleanup id)) sinceRound sinceWait := by
  have htarget : ∀ i, (t.timeouts.cleanup id).target i ≠ 0 →
      (t.timeouts.cleanup id).target i = t.timeouts.target i := fun i hi => by
    by_cases hid : i = id
    · rw [hid, Timeouts.cleanup_target_self] at hi
      exact absurd rfl hi
    · exact Timeouts.cleanup_target_of_ne hid
  refine ⟨h.calls.cleanup, fun hi => ?_, fun hi => ?_, fun hi => ?_, fun hi => ?_⟩
  all_goals
    have hsame := htarget _ hi
    have hi' := hsame ▸ hi
  · exact h.grant hi'
  · show ((t.timeouts.cleanup id).target .sack).toNat = _ ∧
      (t.timeouts.cleanup id).cycle.toNat ≤ _ ∧ _
    rw [hsame, Timeouts.cleanup_cycle]
    exact h.sack hi'
  · exact h.transfer hi'
  · show (t.timeouts.cleanup id).cycle.toNat ≤ _ ∧ _
    rw [Timeouts.cleanup_cycle]
    exact h.dma hi'

theorem poll (h : Within R D t sinceRound sinceWait) (id : TimeoutId) :
    Within R D (t.modify (·.poll id)) sinceRound sinceWait := by
  rw [Pru.Timing.modify, Timeouts.poll_eq]
  split
  · exact h.cleanup id
  · exact h

/-- Without a timer for SSYN no transfer has been waiting. -/
theorem wait (h : Within R D t sinceRound sinceWait) (hidle : t.timeouts.target .dma = 0)
    (sinceWait' : ℕ) : Within R D t sinceRound sinceWait' :=
  ⟨h.calls, h.grant, h.sack, h.transfer, fun hrun => absurd hidle hrun⟩

/-- The grant goes with its timer. -/
theorem withdraw (h : Within R D t sinceRound sinceWait) (sinceRound' : ℕ) :
    Within R D { t.modify (·.cleanup .sack) with grant := 0 } sinceRound' sinceWait := by
  have hclean := h.cleanup .sack
  exact ⟨hclean.calls, fun hrun => absurd Timeouts.cleanup_target_self hrun,
    fun hrun => absurd Timeouts.cleanup_target_self hrun, hclean.transfer, hclean.dma⟩

/-- A transfer begins to wait for another slave, for the first time or again. -/
theorem setDma (h : Within R D t sinceRound sinceWait) (hbound : R + D + 2 ^ 21 < 2 ^ 32)
    (hstatus : t.curStatus = dmaStateRunning) (hcount : t.wordcount ≠ 0) :
    Within R D (t.modify (·.set .dma (Timeouts.microsecs unibusTimeoutPeriodUs))) sinceRound
      (if t.timeouts.target .dma = 0 then 0 else sinceWait) := by
  have hsackCycles : sackCycles = 1999976 := rfl
  generalize hdelta : Timeouts.microsecs unibusTimeoutPeriodUs = delta
  have hnat : delta.toNat = 4000 := hdelta ▸ toNat_dmaDelay
  have hwait : (if t.timeouts.target .dma = 0 then 0 else sinceWait) ≤ D := by
    split
    · exact Nat.zero_le _
    · next hrun => exact (h.dma hrun).2
  have hother : (∃ i, i ≠ .dma ∧ t.timeouts.target i ≠ 0) → t.timeouts.target .sack ≠ 0 := by
    rintro ⟨i, hi, hrun⟩
    cases i with
    | dma => exact absurd rfl hi
    | sack => exact hrun
  have hsack : (t.timeouts.set .dma delta).target .sack = t.timeouts.target .sack :=
    Timeouts.set_target_of_ne (by decide)
  have hcycle := Timeouts.set_cycle_of_counts .dma delta h.calls.counts
  refine ⟨h.calls.set (by omega) fun hrun => ?_, fun hrun => ?_, fun hrun => ?_,
    fun _ => ⟨hstatus, hcount⟩, fun _ => ⟨?_, hwait⟩⟩
  · have hc := (h.sack (hother hrun)).2
    omega
  · exact h.grant (hsack ▸ hrun)
  · -- the timer for SACK runs, so the counter goes on
    have hrun' : t.timeouts.target .sack ≠ 0 := hsack ▸ hrun
    rcases hcycle with ⟨hnone, -⟩ | ⟨-, hc⟩
    · exact absurd (hnone .sack (by decide)) hrun'
    · show ((t.timeouts.set .dma delta).target .sack).toNat = _ ∧
        (t.timeouts.set .dma delta).cycle.toNat ≤ _ ∧ _
      rw [hsack, hc]
      exact h.sack hrun'
  · show (t.timeouts.set .dma delta).cycle.toNat ≤ _
    rcases hcycle with ⟨-, hc⟩ | ⟨hrun, hc⟩
    · rw [hc, Timeouts.toNat_zero]
      exact Nat.zero_le _
    · have hle := (h.sack (hother hrun)).2
      rw [hc]
      omega

/-- A grant is made, with no transfer waiting. -/
theorem raise (h : Within R D t sinceRound sinceWait) (hidle : t.timeouts.target .dma = 0)
    {grant : Byte} (hne : grant ≠ 0) :
    Within R D { t.modify (·.set .sack (Timeouts.millisecs arbMasterSackTimoutMs)) with
      grant := grant } 0 sinceWait := by
  generalize hdelta : Timeouts.millisecs arbMasterSackTimoutMs = delta
  have hnat : delta.toNat = sackCycles + 24 := hdelta ▸ toNat_sackDelay
  have hother : ∀ i, i ≠ .sack → t.timeouts.target i = 0 := by
    intro i hi
    cases i with
    | dma => exact hidle
    | sack => exact absurd rfl hi
  have hnone : ¬∃ i, i ≠ .sack ∧ t.timeouts.target i ≠ 0 := fun ⟨i, hi, hrun⟩ => hrun (hother i hi)
  have hdma : (t.timeouts.set .sack delta).target .dma = 0 :=
    (Timeouts.set_target_of_ne (by decide)).trans hidle
  have hcycle : (t.timeouts.set .sack delta).cycle = 0 := by
    rcases Timeouts.set_cycle_of_counts .sack delta h.calls.counts with
      ⟨-, hc⟩ | ⟨hrun, -⟩
    · exact hc
    · exact absurd hrun hnone
  have htarget : ((t.timeouts.set .sack delta).target .sack).toNat = sackCycles := by
    rw [Timeouts.set_target_self, hcycle, BitVec.toNat_add, Timeouts.toNat_zero,
      Timeouts.toNat_netDelay, hnat]
    rfl
  have hdelay : 24 < delta.toNat := by
    rw [hnat]
    decide
  refine ⟨h.calls.set hdelay fun hrun => absurd hrun hnone, fun _ => hne, fun _ => ?_,
    fun hrun => absurd hdma hrun, fun hrun => absurd hdma hrun⟩
  show ((t.timeouts.set .sack delta).target .sack).toNat = _ ∧
    (t.timeouts.set .sack delta).cycle.toNat ≤ _ ∧ _
  rw [htarget, hcycle]
  exact ⟨rfl, Nat.zero_le _, Nat.zero_le _⟩

/-- A round of the arbitrator. -/
theorem sackCall {t' : Pru.Timing} (h : Within R D t sinceRound sinceWait)
    (hidle : t.timeouts.target .dma = 0) (hcall : Pru.SackCall t t') :
    Within R D t' 0 sinceWait := by
  cases hcall with
  | answered => exact h.withdraw 0
  | raised grant hne => exact h.raise hidle hne
  | kept hkept =>
    refine ⟨h.calls, h.grant, fun hrun => ?_, h.transfer, h.dma⟩
    -- the timer is not reached
    have hreached := hkept (h.grant hrun)
    rw [Timeouts.reached, Bool.not_eq_false', decide_eq_true_iff, BitVec.lt_def,
      (h.sack hrun).1] at hreached
    exact ⟨(h.sack hrun).1, by omega, Nat.zero_le _⟩
  | timedOut => exact (h.poll .sack).withdraw 0

/-- A call of the DMA state machine. -/
theorem dmaCall {t' : Pru.Timing} {st : DmaState} {next : Option DmaState}
    (h : Within R D t sinceRound sinceWait) (hbound : R + D + 2 ^ 21 < 2 ^ 32)
    (hstart : st = .start → t.timeouts.target .dma = 0) (hcall : Pru.DmaCall t st next t') :
    Within R D t' sinceRound (if t.timeouts.target .dma = 0 then 0 else sinceWait) ∧
      (t'.timeouts.target .dma ≠ 0 → ∃ st', st' ≠ .start ∧ next = some st') := by
  have hsame : Within R D t sinceRound (if t.timeouts.target .dma = 0 then 0 else sinceWait) := by
    split
    · next hidle => exact h.wait hidle 0
    · exact h
  cases hcall with
  | start =>
    have hidle := hstart rfl
    exact ⟨⟨hsame.calls, hsame.grant, hsame.sack, fun hrun => absurd hidle hrun, hsame.dma⟩,
      fun hrun => absurd hidle hrun⟩
  | stopped hstopped =>
    refine ⟨hsame, fun hrun => ?_⟩
    obtain ⟨hstatus, hcount⟩ := h.transfer hrun
    exact absurd hstopped (not_or.mpr ⟨not_not_intro hstatus, hcount⟩)
  | answered => exact ⟨hsame, fun _ => ⟨.state99, by decide, rfl⟩⟩
  | external next hnext hstatus hcount =>
    exact ⟨h.setDma hbound hstatus hcount, fun _ => ⟨next, hnext, rfl⟩⟩
  | polled st next hst hnext => exact ⟨hsame.poll .dma, fun _ => ⟨next, hnext, rfl⟩⟩
  | finished status =>
    have hclean := hsame.cleanup .dma
    have hidle : (t.timeouts.cleanup .dma).target .dma = 0 := Timeouts.cleanup_target_self
    exact ⟨⟨hclean.calls, hclean.grant, hclean.sack, fun hrun => absurd hidle hrun, hclean.dma⟩,
      fun hrun => absurd hidle hrun⟩
  | continued => exact ⟨hsame, fun _ => ⟨.state1, by decide, rfl⟩⟩

end Within

/-! ## Steps of the main loop -/

variable {R D : ℕ} {w : Timed}

/-- The invariant of the runs. -/
structure Inv (R D : ℕ) (w : Timed) : Prop where
  within : Within R D w.pru.timing w.sinceRound w.sinceWait
  master : w.pru.timeouts.target .dma ≠ 0 → ∃ st, st ≠ .start ∧ w.pru.master = some (.dma st)
  idle : w.pru.phase = .arbitrate → w.pru.master = none

theorem Inv.noTransfer (h : Inv R D w) (hmaster : ∀ st, w.pru.master ≠ some (.dma st)) :
    w.pru.timeouts.target .dma = 0 := by
  by_contra hrun
  obtain ⟨st, -, hst⟩ := h.master hrun
  exact hmaster st hst

theorem Inv.powerUp : Inv R D powerUp := by
  have hinitial : Timers.Initial ⟨Pru.powerUp.timeouts, fun _ => none⟩ :=
    ⟨rfl, fun _ => rfl, fun _ => rfl⟩
  refine ⟨⟨⟨_, .init hinitial⟩, ?_, ?_, ?_, ?_⟩, ?_, fun _ => rfl⟩
  all_goals exact fun hrun => absurd rfl hrun

theorem slaveStep_timing (l : Lines) (s : Pru) : (s.slaveStep l).timing = s.timing :=
  Pru.smDataSlave_timing l s (s.slave.getD .start)

theorem slaveStep_master (l : Lines) (s : Pru) : (s.slaveStep l).master = s.master :=
  (Pru.smDataSlave_keeps l s (s.slave.getD .start)).master

/-- A step without the users of the timers, while no transfer runs. -/
theorem Inv.quiet {v : Timed} (h : Inv R D w) (htiming : v.pru.timing = w.pru.timing)
    (hround : v.sinceRound = w.sinceRound) (hmaster : ∀ st, w.pru.master ≠ some (.dma st))
    (hidle : v.pru.phase = .arbitrate → v.pru.master = none) : Inv R D v := by
  have hnone := h.noTransfer hmaster
  have htimeouts : v.pru.timeouts = w.pru.timeouts := congrArg Pru.Timing.timeouts htiming
  refine ⟨?_, fun hrun => ?_, hidle⟩
  · rw [htiming, hround]
    exact h.within.wait hnone _
  · rw [htimeouts] at hrun
    exact absurd hnone hrun

/-- The data slave, or a state of the master. -/
theorem Inv.slave (h : Inv R D w) (hbound : R + D + 2 ^ 21 < 2 ^ 32) (l : Lines)
    (hphase : w.pru.phase = .slave) : Inv R D (w.main l) := by
  have hround : (w.main l).sinceRound = w.sinceRound :=
    if_neg fun hc => by
      rw [hphase] at hc
      cases hc.1
  have hmain : (w.main l).pru = w.pru.mainStep l := rfl
  cases hmaster : w.pru.master with
  | none =>
    have hstep : w.pru.mainStep l = w.pru.slaveStep l := by
      rw [Pru.mainStep, hphase, hmaster]
    have hno : ∀ st, w.pru.master ≠ some (.dma st) := fun st => by
      rw [hmaster]
      exact (Option.some_ne_none _).symm
    refine h.quiet ?_ hround hno fun _ => ?_
    · rw [hmain, hstep, slaveStep_timing]
    · rw [hmain, hstep, slaveStep_master, hmaster]
  | some m =>
    have hstep : w.pru.mainStep l = { w.pru.smDataMaster l m with phase := .command } := by
      rw [Pru.mainStep, hphase, hmaster]
    have hcommand : (w.main l).pru.phase = .arbitrate → (w.main l).pru.master = none := fun hc => by
      rw [hmain, hstep] at hc
      cases hc
    cases m with
    | intr st =>
      have hno : ∀ st, w.pru.master ≠ some (.dma st) := fun st => by
        rw [hmaster]
        exact fun hc => by cases hc
      refine h.quiet ?_ hround hno hcommand
      rw [hmain, hstep]
      exact Pru.smIntrMaster_timing l w.pru st
    | dma st =>
      have htiming : (w.main l).pru.timing = (w.pru.smDma l st).2.timing := by
        rw [hmain, hstep]
        rfl
      have hnext : (w.main l).pru.master = (w.pru.smDma l st).1.map .dma := by
        rw [hmain, hstep]
        rfl
      have hstart : st = .start → w.pru.timeouts.target .dma = 0 := by
        rintro rfl
        by_contra hrun
        obtain ⟨st', hne, hst'⟩ := h.master hrun
        rw [hmaster] at hst'
        cases hst'
        exact hne rfl
      obtain ⟨hwithin, hruns⟩ := h.within.dmaCall hbound hstart (Pru.smDma_call l w.pru st)
      refine ⟨?_, fun hrun => ?_, hcommand⟩
      · rw [htiming, hround]
        exact hwithin
      · have htimeouts : (w.main l).pru.timeouts = (w.pru.smDma l st).2.timing.timeouts :=
          congrArg Pru.Timing.timeouts htiming
        rw [htimeouts] at hrun
        obtain ⟨st', hne, hst'⟩ := hruns hrun
        refine ⟨st', hne, ?_⟩
        rw [hnext, hst']
        rfl

/-- A round of the arbitrator does not touch the timer for SSYN. -/
theorem sackCall_dma {t t' : Pru.Timing} (h : Pru.SackCall t t') :
    t'.timeouts.target .dma = t.timeouts.target .dma := by
  cases h with
  | answered => exact Timeouts.cleanup_target_of_ne (by decide)
  | raised => exact Timeouts.set_target_of_ne (by decide)
  | kept => rfl
  | timedOut =>
    refine (Timeouts.cleanup_target_of_ne (by decide)).trans ?_
    show (t.timeouts.poll .sack).target .dma = _
    rw [Timeouts.poll_eq]
    split
    · exact Timeouts.cleanup_target_of_ne (by decide)
    · rfl

theorem Inv.arbitrate (h : Inv R D w) (l : Lines) (hphase : w.pru.phase = .arbitrate)
    (hcareful : Careful w l) : Inv R D (w.main l) := by
  have hno : ∀ st, w.pru.master ≠ some (.dma st) := fun st => by
    rw [h.idle hphase]
    exact (Option.some_ne_none _).symm
  have hnone := h.noTransfer hno
  have hstep : (w.main l).pru = { w.pru.arbitrate l with phase := .command } := by
    show w.pru.mainStep l = _
    rw [Pru.mainStep, hphase]
  have htiming : (w.main l).pru.timing = (w.pru.arbitrate l).timing := by
    rw [hstep]
    rfl
  have hcommand : (w.main l).pru.phase = .arbitrate → (w.main l).pru.master = none := fun hc => by
    rw [hstep] at hc
    cases hc
  by_cases hround : w.pru.ArbRound l
  · have hcall := Pru.arbitrate_call hround (hcareful hphase hround)
    have hsince : (w.main l).sinceRound = 0 := if_pos ⟨hphase, hround⟩
    have htimeouts : (w.main l).pru.timeouts = (w.pru.arbitrate l).timing.timeouts :=
      congrArg Pru.Timing.timeouts htiming
    refine ⟨?_, fun hrun => ?_, hcommand⟩
    · rw [htiming, hsince]
      exact (h.within.sackCall hnone hcall).wait ((sackCall_dma hcall).trans hnone) _
    · rw [htimeouts, sackCall_dma hcall] at hrun
      exact absurd hnone hrun
  · refine h.quiet ?_ (if_neg fun hc => hround hc.2) hno hcommand
    rw [htiming, Pru.arbitrate_timing hround]

theorem Inv.command (h : Inv R D w) (l : Lines) (hphase : w.pru.phase = .command) :
    Inv R D (w.main l) := by
  have hstep : (w.main l).pru =
      { (((w.pru.intrSlaveStep l).arm2pru l).acknowledge) with phase := .slave } := by
    show w.pru.mainStep l = _
    rw [Pru.mainStep, hphase]
  have htiming : (w.main l).pru.timing = ((w.pru.intrSlaveStep l).arm2pru l).timing := by
    rw [hstep]
    rfl
  have hmaster : (w.main l).pru.master = w.pru.master := by
    rw [hstep]
    show ((w.pru.intrSlaveStep l).arm2pru l).master = _
    rw [Pru.arm2pru_master, Pru.intrSlaveStep_master]
  have hround : (w.main l).sinceRound = w.sinceRound :=
    if_neg fun hc => by
      rw [hphase] at hc
      cases hc.1
  have hslave : (w.main l).pru.phase = .arbitrate → (w.main l).pru.master = none := fun hc => by
    rw [hstep] at hc
    cases hc
  have hwait : ∀ t, Within R D t w.sinceRound w.sinceWait →
      t.timeouts.target .dma = w.pru.timeouts.target .dma →
      Within R D t (w.main l).sinceRound (w.main l).sinceWait := fun t ht hdma => by
    rw [hround]
    show Within R D t _ (if _ then _ else _)
    split
    · next hidle => exact ht.wait (hdma.trans hidle) 0
    · exact ht
  have hsame : (w.pru.intrSlaveStep l).timing = w.pru.timing := Pru.intrSlaveStep_timing l w.pru
  rcases Pru.arm2pru_timing l (w.pru.intrSlaveStep l) with hkept | hreset
  · rw [hsame] at hkept
    rw [hkept] at htiming
    have htimeouts : (w.main l).pru.timeouts = w.pru.timeouts :=
      congrArg Pru.Timing.timeouts htiming
    refine ⟨?_, fun hrun => ?_, hslave⟩
    · rw [htiming]
      exact hwait _ h.within rfl
    · rw [hmaster]
      exact h.master (htimeouts ▸ hrun)
  · -- the emulation of the CPU is switched
    rw [hsame] at hreset
    rw [hreset] at htiming
    have hdma : (w.pru.timeouts.cleanup .sack).target .dma = w.pru.timeouts.target .dma :=
      Timeouts.cleanup_target_of_ne (by decide)
    have htimeouts : (w.main l).pru.timeouts = w.pru.timeouts.cleanup .sack :=
      congrArg Pru.Timing.timeouts htiming
    refine ⟨?_, fun hrun => ?_, hslave⟩
    · rw [htiming]
      exact hwait _ (h.within.withdraw w.sinceRound) hdma
    · rw [hmaster]
      rw [htimeouts, hdma] at hrun
      exact h.master hrun

theorem Inv.elapse (h : Inv R D w) (hbound : R + D + 2 ^ 21 < 2 ^ 32) {d : ℕ}
    (hd : w.InTime R D d) : Inv R D (w.elapse d) := by
  have hrange := h.within.inRange hbound hd.1 hd.2
  have hcycle : (w.elapse d).pru.timeouts.cycle.toNat ≤ w.pru.timeouts.cycle.toNat + d := by
    show (BitVec.ofNat 32 (min (w.pru.timeouts.cycle.toNat + d) 0xffffffff)).toNat ≤ _
    rw [BitVec.toNat_ofNat]
    omega
  refine ⟨⟨h.within.calls.elapse hrange, h.within.grant, fun hrun => ?_, h.within.transfer,
    fun hrun => ?_⟩, h.master, h.idle⟩
  · obtain ⟨htarget, hle, -⟩ := h.within.sack hrun
    refine ⟨htarget, hcycle.trans ?_, hd.1 hrun⟩
    show _ ≤ sackCycles + (w.sinceRound + d)
    rw [← Nat.add_assoc]
    exact Nat.add_le_add_right hle d
  · refine ⟨hcycle.trans ?_, hd.2 hrun⟩
    show _ ≤ sackCycles + R + (w.sinceWait + d)
    rw [← Nat.add_assoc]
    exact Nat.add_le_add_right (h.within.dma hrun).1 d

theorem Inv.step {v : Timed} (h : Inv R D w) (hbound : R + D + 2 ^ 21 < 2 ^ 32)
    (hstep : Step Careful R D w v) : Inv R D v := by
  cases hstep with
  | main l hcareful =>
    cases hphase : w.pru.phase with
    | slave => exact h.slave hbound l hphase
    | arbitrate => exact h.arbitrate l hphase hcareful
    | command => exact h.command l hphase
  | arm mailbox emulation hleaves =>
    refine ⟨⟨h.within.calls, h.within.grant, h.within.sack, fun hrun => ?_, h.within.dma⟩,
      h.master, h.idle⟩
    obtain ⟨st, -, hst⟩ := h.master hrun
    obtain ⟨hstatus, hcount⟩ := hleaves st hst
    show mailbox.dma.curStatus = _ ∧ mailbox.dma.wordcount ≠ 0
    rw [hstatus, hcount]
    exact h.within.transfer hrun
  | elapse d hd => exact h.elapse hbound hd

/-- A round of the arbitrator stops a timer that is reached. -/
theorem sackCall_stops {t t' : Pru.Timing} (h : Pru.SackCall t t') (hgrant : t.grant ≠ 0)
    (hreached : t.timeouts.reached .sack = true) : t'.timeouts.target .sack = 0 := by
  cases h with
  | answered => exact Timeouts.cleanup_target_self
  | raised grant hne hnone => exact absurd hnone hgrant
  | kept hkept =>
    rw [hkept hgrant] at hreached
    cases hreached
  | timedOut => exact Timeouts.cleanup_target_self

/-- A call that waits for SSYN stops a timer that is reached. -/
theorem dmaCall_stops {t t' : Pru.Timing} {st : DmaState} {next : Option DmaState}
    (h : Pru.DmaCall t st next t') (hst : st = .state11 ∨ st = .state21)
    (hreached : t.timeouts.reached .dma = true) : t'.timeouts.target .dma = 0 := by
  cases h with
  | polled st next =>
    show (t.timeouts.poll .dma).target .dma = 0
    rw [Timeouts.poll_eq, if_pos hreached, Timeouts.cleanup_target_self]
  | start => simp at hst
  | stopped => simp at hst
  | answered => simp at hst
  | external => simp at hst
  | finished => simp at hst
  | continued => simp at hst

theorem Inv.ended (h : Inv R D w) (hbound : R + D + 2 ^ 21 < 2 ^ 32) : Ended R D w where
  sack hgrant := by
    by_contra hrun
    exact h.within.grant hrun hgrant
  dma := h.noTransfer
  sackStops l hphase hround hrun hreached hcareful := by
    have hcall := Pru.arbitrate_call hround (hcareful hphase hround)
    have hstep : (w.pru.mainStep l).timeouts = (w.pru.arbitrate l).timing.timeouts := by
      rw [Pru.mainStep, hphase]
      rfl
    rw [hstep]
    exact sackCall_stops hcall (h.within.grant hrun) hreached
  dmaStops l st hphase hmaster hst hreached := by
    have hstep : (w.pru.mainStep l).timeouts = (w.pru.smDma l st).2.timing.timeouts := by
      rw [Pru.mainStep, hphase, hmaster]
      rfl
    rw [hstep]
    exact dmaCall_stops (Pru.smDma_call l w.pru st) hst hreached
  calls := h.within.calls
  inRange _ hd hrun := h.within.inRange hbound hd.1 hd.2 hrun

/-- What holds of the timers in any order of calls, and of their users in every run of the main
loop, if the calls and the rounds are careful. -/
theorem timers_end (hbound : R + D + 2 ^ 21 < 2 ^ 32) {s : Timers.State}
    (hs : Reachable Timers.Initial Timers.CarefulStep s)
    (hw : Reachable (· = powerUp) (Step Careful R D) w) :
    (Timers.Kept s ∧ ∀ a, Timers.Valid s a → (Timers.Kept (Timers.step s a) ↔ Timers.Careful s a)) ∧
      Ended R D w := by
  refine ⟨Timers.kept_of_careful hs, Inv.ended ?_ hbound⟩
  refine hw.invariant (fun w hw => ?_) (fun w v h hstep => h.step hbound hstep)
  rw [hw]
  exact .powerUp

/-- Nothing is set. -/
def idleTimers : Timers.State := ⟨⟨0, 0, fun _ => 0⟩, fun _ => none⟩

/-- A timer of 4000 cycles, and an idle round of the main loop. -/
theorem timers_end_idle :
    let s := Timers.step idleTimers (.set .dma 4000)
    let w := ((powerUp.main fun _ _ => 0).main fun _ _ => 0).elapse 1000
    (Timers.Kept s ∧ ∀ a, Timers.Valid s a → (Timers.Kept (Timers.step s a) ↔ Timers.Careful s a)) ∧
      Ended 200000000 200000000 w := by
  have start : Reachable Timers.Initial Timers.CarefulStep idleTimers :=
    .init ⟨rfl, fun _ => rfl, fun _ => rfl⟩
  have armed := start.step ⟨.set .dma 4000, fun ⟨i, _, hi⟩ => absurd rfl hi, .inl (by decide), rfl⟩
  have up : Reachable (· = powerUp) (Step Careful 200000000 200000000) powerUp := .init rfl
  have polled := up.step (.main (fun _ _ => 0) fun hphase => by cases hphase)
  have arbitrated := polled.step (.main (fun _ _ => 0) fun _ hround => by cases hround.1)
  have later := arbitrated.step (.elapse 1000 ⟨fun hrun => absurd rfl hrun,
    fun hrun => absurd rfl hrun⟩)
  exact timers_end (by decide) armed later

/-- The command that switches the emulation of the CPU on. -/
def cpuEnable : Mailbox := { Pru.powerUp.mailbox with arm2pruReq := .cpuEnable, param := 1 }

/-- A round of the main loop with the bus at `l`. -/
def round (w : Timed) (l : Lines) : Timed := ((w.main l).main l).main l

/-- The CPU is emulated, and NPR is granted. -/
def nprGranted : Timed :=
  ((powerUp.arm cpuEnable Pru.powerUp.emulation).round fun _ _ => 0).round Pru.nprOnly

/-- The arbitrator is called again after half the range of the counter. -/
def nprMasked : Timed := (nprGranted.elapse (2 ^ 31)).round Pru.nprOnly

theorem nprMasked_inTime : nprMasked.InTime (2 ^ 31) 0 (2 ^ 31) ∧
    nprMasked.pru.timeouts.running ≠ 0 ∧ nprMasked.pru.timeouts.cycle.toNat = 2 ^ 31 := by
  refine ⟨⟨?_, ?_⟩, ?_, ?_⟩
  · decide
  · decide
  · decide
  · decide

/-- A delay of 24 cycles is counted as a running timer, and has none. A device that asserts NPR
and never SACK keeps the timer of its grant running to the end of the counter. -/
theorem masked_timer_runs :
    (¬∀ s, Reachable Timers.Initial (fun s t => ∃ a, Timers.Valid s a ∧ Timers.step s a = t) s →
      Timers.Kept s) ∧
    ¬∀ w, Reachable (· = powerUp) (Step (fun _ _ => True) (2 ^ 31) 0) w → Ended (2 ^ 31) 0 w := by
  constructor
  · intro hall
    have start : Reachable Timers.Initial
        (fun s t => ∃ a, Timers.Valid s a ∧ Timers.step s a = t) idleTimers :=
      .init ⟨rfl, fun _ => rfl, fun _ => rfl⟩
    have armed := start.step ⟨.set .dma 24, fun ⟨i, _, hi⟩ => absurd rfl hi, rfl⟩
    have hcounts : (Timers.step idleTimers (.set .dma 24)).timeouts.active.toNat =
      (Timers.step idleTimers (.set .dma 24)).timeouts.running := (hall _ armed).active
    exact absurd hcounts (by decide)
  · intro hall
    have hround : ∀ {w : Timed} (l : Lines),
        Reachable (· = powerUp) (Step (fun _ _ => True) (2 ^ 31) 0) w →
        Reachable (· = powerUp) (Step (fun _ _ => True) (2 ^ 31) 0) (w.round l) := fun l hw =>
      ((hw.step (.main l trivial)).step (.main l trivial)).step (.main l trivial)
    have up : Reachable (· = powerUp) (Step (fun _ _ => True) (2 ^ 31) 0) powerUp := .init rfl
    have enabled := up.step (.arm cpuEnable Pru.powerUp.emulation fun st hst => by cases hst)
    have granted : Reachable _ _ nprGranted := hround Pru.nprOnly (hround (fun _ _ => 0) enabled)
    have later := granted.step (.elapse (2 ^ 31) ⟨fun _ => by decide, fun hrun =>
      absurd hrun (by decide)⟩)
    obtain ⟨htime, hrun, hcycle⟩ := nprMasked_inTime
    have hrange := (hall nprMasked (hround Pru.nprOnly later)).inRange _ htime hrun
    rw [hcycle] at hrange
    exact absurd hrange (by decide)

end Timed

end QUniBone.PruU
