import QUniBone.Pru.RegisterAccess
import QUniBone.PruU.MainLoop

/-!
# Where the UniBone accesses device registers

Device registers are accessed by the data slave when a cycle begins, and by the DMA state machine
with each word. All other steps of the main loop leave the register event alone.

* `Pru.access`: the access that a step makes to an active register.
* `Makes`: a part of a step that makes this access, or none.
* `smDataSlaveStart_makes`, `smDma_makes`, `arbitrate_makes`, …: the parts.
-/

namespace QUniBone.PruU.Pru

open Emulation PriorityArbitration

/-! ## Accesses -/

/-- The access of `sm_data_slave_start`. -/
def slaveAccess (l : Lines) (s : Pru) : Option RegisterAccess :=
  if (l 4 0).getLsbD 4 = false then none
  else if (l 4 0).getLsbD 5 then none
  else
    let addr := addressLines l
    let iopage := inIopage s.emulation addr
    let control := (l 4 0 >>> 2) &&& 3
    if control = cycleDatob then
      s.emulation.writeAccess iopage cycleDatob addr
        (RegisterAccess.lane (addr.getLsbD 0) (if addr.getLsbD 0 then l 6 0 else l 5 0))
    else if control = cycleDato then
      s.emulation.writeAccess iopage cycleDato addr
        ((l 5 0).setWidth 16 ||| ((l 6 0).setWidth 16 <<< 8))
    else s.emulation.readAccess iopage addr

/-- The access of `sm_dma_state_1`. -/
def dmaAccess (s : Pru) : Option RegisterAccess :=
  if s.mailbox.dma.curStatus ≠ dmaStateRunning ∨ s.mailbox.dma.wordcount = 0 then none
  else
    let addr := s.busAddr
    let iopage := inIopage s.emulation addr
    if cycleIsDato s.mailbox.dma.buscycle then
      if s.mailbox.dma.buscycle == cycleDatob then
        s.emulation.writeAccess iopage cycleDatob addr (RegisterAccess.lane (addr.getLsbD 0)
          (if addr.getLsbD 0 then highByte s.dmaWord else lowByte s.dmaWord))
      else s.emulation.writeAccess iopage cycleDato addr s.dmaWord
    else s.emulation.readAccess iopage addr

/-- The access to an active register that the next step makes. -/
def access (l : Lines) (s : Pru) : Option RegisterAccess :=
  match s.phase, s.master with
  | .slave, none => if s.slave.getD .start = .start then s.slaveAccess l else none
  | .slave, some (.dma .state1) => s.dmaAccess
  | _, _ => none

/-! ## Parts of a step -/

/-- The access `x` is made and signalled if there is one. Otherwise the event, the register
descriptors and the state of the slave are left alone. -/
structure Makes (x : Option RegisterAccess) (s t : Pru) : Prop where
  slave : t.slave = s.slave
  emulation : Takes x s.emulation t.emulation

namespace Makes

variable {x : Option RegisterAccess} {s t u : Pru}

theorem refl (s : Pru) : Makes none s s := ⟨rfl, .refl _⟩

theorem same (hs : Makes x s t) (hslave : u.slave = t.slave) (he : u.emulation = t.emulation) :
    Makes x s u := ⟨hslave.trans hs.slave, by rw [he]; exact hs.emulation⟩

theorem setbits (hs : Makes x s t) (reg : ℕ) (mask val : Byte) :
    Makes x s (t.setbits reg mask val) := hs.same rfl rfl

theorem setbyte (hs : Makes x s t) (reg : ℕ) (val : Byte) : Makes x s (t.setbyte reg val) :=
  hs.same rfl rfl

theorem putData (hs : Makes x s t) (data : Word) : Makes x s (t.putData data) :=
  (hs.setbyte _ _).setbyte _ _

theorem putAddress (hs : Makes x s t) (addr : UInt) (control : Byte) :
    Makes x s (t.putAddress addr control) := ((hs.setbyte _ _).setbyte _ _).setbits _ _ _

theorem modifyArb (hs : Makes x s t) (f : SmArb → SmArb) : Makes x s (t.modifyArb f) :=
  hs.same rfl rfl

theorem modifyEvents (hs : Makes x s t) (f : Events → Events) : Makes x s (t.modifyEvents f) :=
  hs.same rfl rfl

theorem modifyMailboxDma (hs : Makes x s t) (f : MailboxDma → MailboxDma) :
    Makes x s (t.modifyMailboxDma f) := hs.same rfl rfl

theorem withDma (hs : Makes x s t) (dma : SmDma) : Makes x s { t with dma := dma } :=
  hs.same rfl rfl

theorem setDmaTimeout (hs : Makes x s t) : Makes x s t.setDmaTimeout := hs.same rfl rfl

theorem answerInternally (hs : Makes x s t) : Makes x s t.answerInternally :=
  (((hs.setbits _ _ _).setbits _ _ _).putData _).setbits _ _ _

theorem finishDma (hs : Makes x s t) (status : Byte) : Makes x s (t.finishDma status) :=
  ((((hs.setbyte 2 0).setbyte 3 0).setbits 4 0x3f 0).setbits 1 (bit 6) 0).same rfl rfl

/-- A cycle after steps without one. -/
theorem withEmulation (hs : Makes none s t) {e : Emulation} (he : Takes x t.emulation e) :
    Makes x s (t.withEmulation e) := by
  refine ⟨hs.slave, ?_, hs.emulation.layout.trans he.layout⟩
  show e.deviceregister = _
  rw [he.event]
  have hevent : t.emulation.deviceregister = s.emulation.deviceregister := hs.emulation.event
  rw [hevent]

/-- Before the access only other things have changed. -/
theorem from_same (h : Makes x t u) (hslave : t.slave = s.slave)
    (he : t.emulation = s.emulation) : Makes x s u :=
  ⟨h.slave.trans hslave, he ▸ h.emulation⟩

theorem ite (p : Prop) [Decidable p] (h : Makes x s t) (h' : Makes x s u) :
    Makes x s (if p then t else u) := by
  split
  · exact h
  · exact h'

end Makes

/-! ## Arbitration -/

section Arbitration

variable {s t : Pru}

theorem doEventInitializationsignals_makes (hs : Makes none s t) (l : Lines) :
    Makes none s (t.doEventInitializationsignals l) := by
  unfold doEventInitializationsignals
  simp only
  generalize hdrop : (if l 7 0 &&& 0x38 &&& initializationsignalInit ≠ 0 then _ else t) = u
  have hu : Makes none s u := by
    rw [← hdrop]
    exact .ite _ (hs.modifyArb _) hs
  have hpower : Makes none s (u.doEventPower (l 7 0 &&& 0x38)) := by
    unfold doEventPower
    exact .ite _ (hu.modifyEvents _) hu
  generalize u.doEventPower (l 7 0 &&& 0x38) = v at hpower
  unfold doEventInit
  refine .ite _ (Makes.modifyEvents ?_ _) hpower
  exact .ite _ (hpower.withEmulation (resetValues_takes _)) hpower

theorem forwardGrants_makes (hs : Makes none s t) (mask : Byte) : Makes none s (t.forwardGrants mask) :=
  (hs.modifyArb _).setbits _ _ _

theorem smArbWorkerCpu_makes (hs : Makes none s t) (l : Lines) : Makes none s (t.smArbWorkerCpu l).2 := by
  have hdecide : Makes none s (t.arbitrateRequests (l 1 0)) := by
    unfold arbitrateRequests
    simp only
    split_ifs
    all_goals exact hs.same rfl rfl
  exact hdecide.same rfl rfl

theorem grantsSeen_makes (hs : Makes none s t) (l : Lines) : Makes none s (t.grantsSeen l).2 := by
  unfold grantsSeen
  split
  · exact smArbWorkerCpu_makes hs l
  · exact hs

theorem deviceArbWorker_makes (hs : Makes none s t) (l : Lines) (granted : Byte) :
    Makes none s (t.deviceArbWorker l granted).2 := by
  unfold deviceArbWorker
  cases t.arbWorker with
  | none =>
    show Makes none s (t.smArbWorkerNone granted).2
    unfold smArbWorkerNone
    simp only
    split_ifs
    all_goals exact hs.same rfl rfl
  | device =>
    show Makes none s (t.smArbWorkerDevice l granted).2
    unfold smArbWorkerDevice waitForGrant waitForBus
    simp only
    split_ifs
    all_goals exact hs.same rfl rfl

theorem startMaster_makes (hs : Makes none s t) (granted : Byte) : Makes none s (t.startMaster granted) := by
  unfold startMaster
  simp only
  split_ifs
  all_goals exact hs.same rfl rfl

theorem arbitrate_makes (s : Pru) (l : Lines) : Makes none s (s.arbitrate l) := by
  have hinit := doEventInitializationsignals_makes (Makes.refl s) l
  unfold arbitrate
  simp only
  generalize s.doEventInitializationsignals l = t at hinit
  have hforward : Makes none s (if t.emulateCpu then t else t.forwardGrants (l 0 0 &&& bitMask)) :=
    .ite _ hinit (forwardGrants_makes hinit _)
  generalize (if t.emulateCpu then t else _) = u at hforward
  refine .ite _ ?_ hforward
  exact startMaster_makes (deviceArbWorker_makes (grantsSeen_makes hforward l) l _) _

end Arbitration

/-! ## Commands -/

theorem intrSlaveStep_makes (s : Pru) (l : Lines) : Makes none s (s.intrSlaveStep l) := by
  unfold intrSlaveStep
  split_ifs
  · cases s.intrSlave.getD .start with
    | start =>
      show Makes none s { (s.smIntrSlaveStart l).2 with intrSlave := (s.smIntrSlaveStart l).1 }
      unfold smIntrSlaveStart
      simp only
      split_ifs
      all_goals exact (Makes.refl s).same rfl rfl
    | state1 =>
      show Makes none s { (s.smIntrSlaveState1 l).2 with intrSlave := (s.smIntrSlaveState1 l).1 }
      unfold smIntrSlaveState1
      split_ifs
      all_goals exact (Makes.refl s).same rfl rfl
  · exact .refl s

/-- The value that comes with an interrupt request. -/
theorem arm2pruIntr_makes (s : Pru) : Makes none s s.arm2pruIntr := by
  unfold arm2pruIntr
  simp only
  split_ifs
  · refine Makes.withEmulation ((Makes.refl s).modifyArb _) ⟨rfl, fun h => ?_⟩
    show { (Function.update s.emulation.pages.registers s.mailbox.intr.iopageRegisterHandle
      { s.emulation.pages.registers s.mailbox.intr.iopageRegisterHandle with
        value := s.mailbox.intr.iopageRegisterValue }) h with value := 0 } = _
    by_cases hh : h = s.mailbox.intr.iopageRegisterHandle
    · rw [hh, Function.update_self]
      rfl
    · rw [Function.update_of_ne hh]
      rfl
  · exact (Makes.refl s).modifyArb _

theorem arm2pru_makes (s : Pru) (l : Lines) : Makes none s (s.arm2pru l) := by
  have hs := Makes.refl s
  unfold arm2pru
  cases s.mailbox.arm2pruReq with
  | intr => exact arm2pruIntr_makes s
  | initalizationsignalSet =>
    show Makes none s s.arm2pruInitalizationsignalSet
    unfold arm2pruInitalizationsignalSet
    simp only
    split_ifs
    all_goals exact hs.same rfl rfl
  | cpuEnable =>
    show Makes none s s.arm2pruCpuEnable
    unfold arm2pruCpuEnable
    simp only
    split_ifs
    all_goals exact hs.same rfl rfl
  | arbGrantIntrRequests => exact .ite _ (hs.same rfl rfl) hs
  | _ => exact hs.same rfl rfl

/-! ## What happens to the master -/

/-- The running master and its place in the buffer are left alone. -/
def SameMaster (s t : Pru) : Prop := t.master = s.master ∧ t.dma.dataptr = s.dma.dataptr

theorem doEventInitializationsignals_sameMaster (s : Pru) (l : Lines) :
    SameMaster s (s.doEventInitializationsignals l) := by
  unfold doEventInitializationsignals
  simp only
  generalize hdrop : (if l 7 0 &&& 0x38 &&& initializationsignalInit ≠ 0 then _ else s) = u
  have hu : SameMaster s u := by
    rw [← hdrop]
    split <;> exact ⟨rfl, rfl⟩
  have hpower : SameMaster s (u.doEventPower (l 7 0 &&& 0x38)) := by
    unfold doEventPower
    simp only
    split <;> exact hu
  generalize u.doEventPower (l 7 0 &&& 0x38) = v at hpower
  unfold doEventInit
  simp only
  split_ifs <;> exact hpower

/-- A master is started only when ARM has nothing to do. -/
theorem arbitrate_sameMaster (s : Pru) (l : Lines) :
    s.registerEventAcked = true ∨ SameMaster s (s.arbitrate l) := by
  have hinit := doEventInitializationsignals_sameMaster s l
  have hmakes := doEventInitializationsignals_makes (Makes.refl s) l
  cases hacked : s.registerEventAcked with
  | true => exact .inl rfl
  | false =>
    refine .inr ?_
    unfold arbitrate
    simp only
    generalize s.doEventInitializationsignals l = t at hinit hmakes
    have hforward : Makes none s (if t.emulateCpu then t else t.forwardGrants (l 0 0 &&& bitMask)) :=
      .ite _ hmakes (forwardGrants_makes hmakes _)
    have hsame : SameMaster s (if t.emulateCpu then t else t.forwardGrants (l 0 0 &&& bitMask)) := by
      split <;> exact hinit
    generalize (if t.emulateCpu then t else _) = u at hforward hsame
    have hopen : u.registerEventAcked = false := by
      rw [registerEventAcked, show u.emulation.deviceregister = s.emulation.deviceregister from
        hforward.emulation.event]
      exact hacked
    rw [hopen, if_neg Bool.false_ne_true]
    exact hsame

theorem intrSlaveStep_sameMaster (s : Pru) (l : Lines) : SameMaster s (s.intrSlaveStep l) := by
  unfold intrSlaveStep
  split_ifs
  · cases s.intrSlave.getD .start with
    | start =>
      show SameMaster s { (s.smIntrSlaveStart l).2 with intrSlave := (s.smIntrSlaveStart l).1 }
      unfold smIntrSlaveStart
      simp only
      split_ifs <;> exact ⟨rfl, rfl⟩
    | state1 =>
      show SameMaster s { (s.smIntrSlaveState1 l).2 with intrSlave := (s.smIntrSlaveState1 l).1 }
      unfold smIntrSlaveState1
      split_ifs <;> exact ⟨rfl, rfl⟩
  · exact ⟨rfl, rfl⟩

theorem arm2pru_sameMaster (s : Pru) (l : Lines) : SameMaster s (s.arm2pru l) := by
  unfold arm2pru
  cases s.mailbox.arm2pruReq with
  | intr =>
    show SameMaster s s.arm2pruIntr
    unfold arm2pruIntr
    simp only
    split_ifs <;> exact ⟨rfl, rfl⟩
  | initalizationsignalSet =>
    show SameMaster s s.arm2pruInitalizationsignalSet
    unfold arm2pruInitalizationsignalSet
    simp only
    split_ifs <;> exact ⟨rfl, rfl⟩
  | cpuEnable =>
    show SameMaster s s.arm2pruCpuEnable
    unfold arm2pruCpuEnable
    simp only
    split_ifs <;> exact ⟨rfl, rfl⟩
  | arbGrantIntrRequests =>
    show SameMaster s (if s.emulateCpu then _ else s)
    split <;> exact ⟨rfl, rfl⟩
  | _ => exact ⟨rfl, rfl⟩

/-! ## The data slave -/

section Slave

variable (l : Lines) (s : Pru)

theorem emulatedAddrWriteB_takes (e : Emulation) (addr : UInt) (b : Byte) :
    Takes (e.writeAccess (inIopage e addr) cycleDatob addr (RegisterAccess.lane (addr.getLsbD 0) b)) e
      (emulatedAddrWriteB e addr b).2 :=
  addrWriteB_takes _ _ _ _

theorem emulatedAddrWriteW_takes (e : Emulation) (addr : UInt) (w : Word) :
    Takes (e.writeAccess (inIopage e addr) cycleDato addr w) e (emulatedAddrWriteW e addr w).2 :=
  addrWriteW_takes _ _ _ _

theorem emulatedAddrRead_takes (e : Emulation) (addr : UInt) :
    Takes (e.readAccess (inIopage e addr) addr) e (emulatedAddrRead e addr).2 :=
  addrRead_takes _ _ _

/-- Where nothing answers, nothing changes. -/
theorem emulatedAddrWriteB_none {e : Emulation} {addr : UInt} {b : Byte}
    (h : (emulatedAddrWriteB e addr b).1 = false) : (emulatedAddrWriteB e addr b).2 = e := by
  unfold emulatedAddrWriteB Emulation.addrWriteB at h ⊢
  simp only at h ⊢
  split_ifs at h ⊢
  all_goals first | rfl | exact absurd h (by simp)

theorem emulatedAddrWriteW_none {e : Emulation} {addr : UInt} {w : Word}
    (h : (emulatedAddrWriteW e addr w).1 = false) : (emulatedAddrWriteW e addr w).2 = e := by
  unfold emulatedAddrWriteW Emulation.addrWriteW at h ⊢
  simp only at h ⊢
  split_ifs at h ⊢
  all_goals first | rfl | exact absurd h (by simp)

theorem emulatedAddrRead_none {e : Emulation} {addr : UInt}
    (h : (emulatedAddrRead e addr).1 = none) : (emulatedAddrRead e addr).2 = e := by
  unfold emulatedAddrRead Emulation.addrRead at h ⊢
  simp only at h ⊢
  split_ifs at h ⊢
  all_goals first | rfl | exact absurd h (by simp)

/-- Which states a slave cycle waits in. -/
def Waits (next : Option SlaveState) : Prop := next = some .state10 ∨ next = some .state20

/-- With an access goes a cycle that waits for ARM. -/
theorem smDataSlaveStart_makes :
    Makes (s.slaveAccess l) s (s.smDataSlaveStart l).2 ∧
      (s.slaveAccess l ≠ none → Waits (s.smDataSlaveStart l).1) := by
  have hs := Makes.refl s
  have hidle : Makes none s s ∧ ((none : Option RegisterAccess) ≠ none → Waits none) :=
    ⟨hs, fun h => absurd rfl h⟩
  unfold slaveAccess smDataSlaveStart
  by_cases hmsyn : (l 4 0).getLsbD 4 = false
  · rw [if_pos hmsyn, if_pos hmsyn]
    exact hidle
  rw [if_neg hmsyn, if_neg hmsyn]
  by_cases hssyn : (l 4 0).getLsbD 5 = true
  · rw [if_pos hssyn, if_pos hssyn]
    exact hidle
  rw [if_neg hssyn, if_neg hssyn]
  simp only
  by_cases hbyte : (l 4 0 >>> 2) &&& 3 = cycleDatob
  · rw [if_pos hbyte, if_pos hbyte]
    generalize hb : (if (addressLines l).getLsbD 0 then l 6 0 else l 5 0) = b
    have htakes := emulatedAddrWriteB_takes s.emulation (addressLines l) b
    cases hhit : (emulatedAddrWriteB s.emulation (addressLines l) b).1 with
    | true => exact ⟨(hs.withEmulation htakes).setbits _ _ _, fun _ => .inl rfl⟩
    | false =>
      refine ⟨hs.withEmulation htakes, fun h => absurd ?_ h⟩
      rw [emulatedAddrWriteB_none hhit] at htakes
      exact htakes.eq_none
  rw [if_neg hbyte, if_neg hbyte]
  by_cases hword : (l 4 0 >>> 2) &&& 3 = cycleDato
  · rw [if_pos hword, if_pos hword]
    generalize (l 5 0).setWidth 16 ||| ((l 6 0).setWidth 16 <<< 8) = w
    have htakes := emulatedAddrWriteW_takes s.emulation (addressLines l) w
    cases hhit : (emulatedAddrWriteW s.emulation (addressLines l) w).1 with
    | true => exact ⟨(hs.withEmulation htakes).setbits _ _ _, fun _ => .inl rfl⟩
    | false =>
      refine ⟨hs.withEmulation htakes, fun h => absurd ?_ h⟩
      rw [emulatedAddrWriteW_none hhit] at htakes
      exact htakes.eq_none
  rw [if_neg hword, if_neg hword]
  have htakes := emulatedAddrRead_takes s.emulation (addressLines l)
  cases hhit : (emulatedAddrRead s.emulation (addressLines l)).1 with
  | some data =>
    exact ⟨((hs.withEmulation htakes).putData _).setbits _ _ _, fun _ => .inr rfl⟩
  | none =>
    refine ⟨hs.withEmulation htakes, fun h => absurd ?_ h⟩
    rw [emulatedAddrRead_none hhit] at htakes
    exact htakes.eq_none

/-- A cycle that waits goes on waiting until the event is acknowledged. -/
theorem smDataSlave_waiting {st : SlaveState} (hst : Waits (some st)) :
    (s.smDataSlave l st).2.emulation = s.emulation ∧
      (s.registerEventAcked = false → Waits (s.smDataSlave l st).1) := by
  rcases hst with hst | hst
  · cases hst
    show (s.smDataSlaveState10 l).2.emulation = _ ∧ (_ → Waits (s.smDataSlaveState10 l).1)
    unfold smDataSlaveState10
    split_ifs with hmsyn hacked
    · exact ⟨rfl, fun _ => .inl rfl⟩
    · exact ⟨rfl, fun _ => .inl rfl⟩
    · exact ⟨rfl, fun h => absurd h hacked⟩
  · cases hst
    show (s.smDataSlaveState20 l).2.emulation = _ ∧ (_ → Waits (s.smDataSlaveState20 l).1)
    unfold smDataSlaveState20
    split_ifs with hmsyn hacked
    · exact ⟨rfl, fun _ => .inr rfl⟩
    · exact ⟨rfl, fun _ => .inr rfl⟩
    · exact ⟨rfl, fun h => absurd h hacked⟩

end Slave

/-! ## Data transfers -/

section Dma

variable (l : Lines) (s : Pru)

/-- The access of a DATO or DATOB of the DMA. -/
def dmaWriteAccess : Option RegisterAccess :=
  if s.mailbox.dma.buscycle == cycleDatob then
    s.emulation.writeAccess (inIopage s.emulation s.busAddr) cycleDatob s.busAddr
      (RegisterAccess.lane (s.busAddr.getLsbD 0)
        (if s.busAddr.getLsbD 0 then highByte s.dmaWord else lowByte s.dmaWord))
  else s.emulation.writeAccess (inIopage s.emulation s.busAddr) cycleDato s.busAddr s.dmaWord

theorem emulation_setbits (reg : ℕ) (mask val : Byte) :
    (s.setbits reg mask val).emulation = s.emulation := rfl

theorem emulation_putData (data : Word) : (s.putData data).emulation = s.emulation := rfl

theorem emulation_putAddress (addr : UInt) (control : Byte) :
    (s.putAddress addr control).emulation = s.emulation := rfl

theorem smDmaWrite_makes : Makes s.dmaWriteAccess s s.smDmaWrite.2 := by
  simp only [smDmaWrite]
  generalize ht : ((s.putAddress s.busAddr _).putData s.dmaWord).setbits 4 (bit 4) (bit 4) = t
  have hput : Makes none s t ∧ t.emulation = s.emulation := by
    rw [← ht]
    exact ⟨(((Makes.refl s).putAddress _ _).putData _).setbits _ _ _, by
      rw [emulation_setbits, emulation_putData, emulation_putAddress]⟩
  obtain ⟨answer, hanswer⟩ : ∃ answer : Bool × Emulation, answer =
    if s.mailbox.dma.buscycle == cycleDatob then emulatedAddrWriteB t.emulation s.busAddr
      (if s.busAddr.getLsbD 0 then highByte s.dmaWord else lowByte s.dmaWord)
    else emulatedAddrWriteW t.emulation s.busAddr s.dmaWord := ⟨_, rfl⟩
  have htakes : Takes s.dmaWriteAccess t.emulation answer.2 := by
    rw [hanswer, dmaWriteAccess, hput.2]
    split
    · exact emulatedAddrWriteB_takes _ _ _
    · exact emulatedAddrWriteW_takes _ _ _
  rw [← hanswer]
  cases answer.1 with
  | true => exact (hput.1.withEmulation htakes).answerInternally
  | false => exact (hput.1.withEmulation htakes).setDmaTimeout

theorem smDmaRead_makes :
    Makes (s.emulation.readAccess (inIopage s.emulation s.busAddr) s.busAddr) s s.smDmaRead.2 := by
  simp only [smDmaRead]
  generalize ht : (s.putAddress s.busAddr 0).setbits 4 (bit 4) (bit 4) = t
  have hput : Makes none s t ∧ t.emulation = s.emulation := by
    rw [← ht]
    exact ⟨((Makes.refl s).putAddress _ _).setbits _ _ _, by
      rw [emulation_setbits, emulation_putAddress]⟩
  have htakes := emulatedAddrRead_takes s.emulation s.busAddr
  rw [← hput.2] at htakes ⊢
  cases (emulatedAddrRead t.emulation s.busAddr).1 with
  | some data =>
    exact (((hput.1.withEmulation htakes).putData _).modifyMailboxDma _).answerInternally
  | none => exact (hput.1.withEmulation htakes).setDmaTimeout

/-- The state that puts a word onto the bus makes the access, if there is one. -/
theorem smDmaState1_makes : Makes s.dmaAccess s s.smDmaState1.2 := by
  unfold dmaAccess smDmaState1
  by_cases hstop : s.mailbox.dma.curStatus ≠ dmaStateRunning ∨ s.mailbox.dma.wordcount = 0
  · rw [if_pos hstop, if_pos hstop]
    exact .refl s
  rw [if_neg hstop, if_neg hstop]
  obtain ⟨t, ht⟩ : ∃ t, t = (if s.dma.curWordsleft = 1 then s.setbits 1 (bit 5) 0 else s) :=
    ⟨_, rfl⟩
  have hsame : t.mailbox = s.mailbox ∧ t.addressOverlay = s.addressOverlay ∧ t.dma = s.dma ∧
      t.slave = s.slave ∧ t.emulation = s.emulation := by
    rw [ht]
    split <;> exact ⟨rfl, rfl, rfl, rfl, rfl⟩
  obtain ⟨hmailbox, hoverlay, hdma, hslave, hemulation⟩ := hsame
  obtain ⟨u, hu⟩ : ∃ u : Pru, u = { t with dma := { t.dma with stateTimeout := false } } :=
    ⟨_, rfl⟩
  have hdata : u.busAddr = s.busAddr ∧ u.dmaWord = s.dmaWord ∧ u.slave = s.slave ∧
      u.emulation = s.emulation ∧ u.mailbox = s.mailbox := by
    rw [hu, ← hslave, ← hemulation]
    refine ⟨?_, ?_, rfl, rfl, hmailbox⟩
    · show t.mailbox.dma.curAddr ||| t.addressOverlay = _
      rw [hmailbox, hoverlay]
      rfl
    · show t.mailbox.dma.words t.dma.dataptr = _
      rw [hmailbox, hdma]
      rfl
  obtain ⟨hbus, hword, hslave', hemulation', hmailbox'⟩ := hdata
  have hwrite := smDmaWrite_makes u
  have hread := smDmaRead_makes u
  rw [dmaWriteAccess, hbus, hword, hemulation', hmailbox'] at hwrite
  rw [hbus, hemulation'] at hread
  simp only [← ht, ← hu]
  rw [hmailbox]
  split
  · exact hwrite.from_same hslave' hemulation'
  · exact hread.from_same hslave' hemulation'

/-- The other states make none. -/
theorem smDma_makes {st : DmaState} (hst : st ≠ .state1) : Makes none s (s.smDma l st).2 := by
  have hs := Makes.refl s
  have hpoll : Makes none s s.pollDmaTimeout := hs.same rfl rfl
  cases st with
  | start => exact ((hs.modifyMailboxDma _).withDma _).setbits _ _ _
  | state1 => exact absurd rfl hst
  | state11 =>
    show Makes none s (s.smDmaState11 l).2
    unfold smDmaState11
    dsimp only
    split
    · exact hpoll
    · exact (hpoll.modifyMailboxDma _).setbits _ _ _
  | state21 =>
    show Makes none s (s.smDmaState21 l).2
    unfold smDmaState21
    dsimp only
    split
    · exact hpoll
    · exact (hpoll.setbits _ _ _).putData _
  | state99 =>
    show Makes none s (s.smDmaState99 l).2
    unfold smDmaState99
    split
    · exact (hs.setbits _ _ _).finishDma _
    dsimp only
    split
    · exact (hs.withDma _).finishDma _
    split
    · exact ((hs.withDma _).setbits _ _ _).finishDma _
    · exact hs.same rfl rfl

theorem smIntrMaster_makes (st : IntrMasterState) : Makes none s (s.smIntrMaster l st).2 := by
  have hs := Makes.refl s
  cases st with
  | start => exact hs.setbits _ _ _
  | state1 => exact ((hs.putData _).setbits _ _ _).setbits _ _ _
  | state2 =>
    show Makes none s (s.smIntrMasterState2 l).2
    unfold smIntrMasterState2
    dsimp only
    split_ifs
    · exact hs
    · exact hs
    · exact (((hs.putData 0).setbits 7 (bit 0) 0).setbits 1 (bit 6) 0).same rfl rfl

theorem smDmaWrite_next : s.smDmaWrite.1 ≠ some .state1 := by
  unfold smDmaWrite
  dsimp only
  split_ifs <;> simp

theorem smDmaRead_next : s.smDmaRead.1 ≠ some .state1 := by
  unfold smDmaRead
  dsimp only
  split <;> simp

theorem smDmaWrite_start : s.smDmaWrite.1 ≠ some .start := by
  unfold smDmaWrite
  dsimp only
  split_ifs <;> simp

theorem smDmaRead_start : s.smDmaRead.1 ≠ some .start := by
  unfold smDmaRead
  dsimp only
  split <;> simp

/-- The first word follows the start, the others follow the end of the word before. -/
theorem smDma_next_state1 {st : DmaState} (h : (s.smDma l st).1 = some .state1) :
    st = .start ∨ (s.smDma l st).2.dma.dataptr ≠ 0 := by
  cases st with
  | start => exact .inl rfl
  | state1 =>
    refine absurd h ?_
    show s.smDmaState1.1 ≠ _
    unfold smDmaState1
    dsimp only
    split_ifs
    · simp
    all_goals first | exact smDmaWrite_next _ | exact smDmaRead_next _
  | state11 =>
    refine absurd h ?_
    show (s.smDmaState11 l).1 ≠ _
    unfold smDmaState11
    dsimp only
    split <;> simp
  | state21 =>
    refine absurd h ?_
    show (s.smDmaState21 l).1 ≠ _
    unfold smDmaState21
    dsimp only
    split <;> simp
  | state99 =>
    refine .inr ?_
    replace h : (s.smDmaState99 l).1 = _ := h
    show (s.smDmaState99 l).2.dma.dataptr ≠ 0
    unfold smDmaState99 at h ⊢
    dsimp only at h ⊢
    by_cases hto : s.dma.stateTimeout = true
    · rw [if_pos hto] at h
      cases h
    rw [if_neg hto] at h ⊢
    by_cases hlast : s.dma.curWordsleft - 1 = 0
    · rw [if_pos hlast] at h
      cases h
    rw [if_neg hlast] at h ⊢
    by_cases hinit : (l 7 0).getLsbD 3 = true
    · rw [if_pos hinit] at h
      cases h
    rw [if_neg hinit]
    exact Nat.succ_ne_zero _

/-- No state goes back to the start. -/
theorem smDma_next_start (st : DmaState) : (s.smDma l st).1 ≠ some .start := by
  cases st with
  | start => simp [smDma, smDmaStart]
  | state1 =>
    show s.smDmaState1.1 ≠ _
    unfold smDmaState1
    dsimp only
    split_ifs
    · simp
    all_goals first | exact smDmaWrite_start _ | exact smDmaRead_start _
  | state11 =>
    show (s.smDmaState11 l).1 ≠ _
    unfold smDmaState11
    dsimp only
    split <;> simp
  | state21 =>
    show (s.smDmaState21 l).1 ≠ _
    unfold smDmaState21
    dsimp only
    split <;> simp
  | state99 =>
    show (s.smDmaState99 l).1 ≠ _
    unfold smDmaState99
    dsimp only
    split_ifs <;> simp

end Dma

end QUniBone.PruU.Pru
