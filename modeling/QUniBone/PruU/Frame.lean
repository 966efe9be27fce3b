import QUniBone.PruU.MainLoop

/-!
# What the bus cycles leave alone

Master and slave state machines work on the lines of the data section. The requests, the grants
and the registers of the arbitration stay as they are, only SACK may be released.

* `Keeps`: the relation between the states before and after.
* `smDataSlave_keeps`, `smDma_keeps`, `smIntrMaster_keeps`: the state machines.
-/

namespace QUniBone.PruU.Pru

/-- What the arbitration works on, without its lines. -/
structure Control where
  arb : SmArb
  worker : ArbWorker
  emulateCpu : Bool
  intrMaster : SmIntrMaster
  master : Option Master
  phase : Phase

def control (s : Pru) : Control :=
  ⟨s.arb, s.arbWorker, s.emulateCpu, s.intrMaster, s.master, s.phase⟩

/-- The arbitration is left alone, SACK is at most released. -/
structure Keeps (s t : Pru) : Prop where
  control : t.control = s.control
  grants : t.latch 0 = s.latch 0
  sack : t.sack = true → s.sack = true

namespace Keeps

variable {s t u : Pru}

theorem refl (s : Pru) : Keeps s s := ⟨rfl, rfl, id⟩

theorem trans (h : Keeps s t) (h' : Keeps t u) : Keeps s u :=
  ⟨h'.control.trans h.control, h'.grants.trans h.grants, h.sack ∘ h'.sack⟩

theorem arb (h : Keeps s t) : t.arb = s.arb := congrArg Control.arb h.control

theorem worker (h : Keeps s t) : t.arbWorker = s.arbWorker := congrArg Control.worker h.control

theorem emulateCpu (h : Keeps s t) : t.emulateCpu = s.emulateCpu :=
  congrArg Control.emulateCpu h.control

theorem intrMaster (h : Keeps s t) : t.intrMaster = s.intrMaster :=
  congrArg Control.intrMaster h.control

theorem master (h : Keeps s t) : t.master = s.master := congrArg Control.master h.control

theorem grantOut (h : Keeps s t) : t.grantOut = s.grantOut := by
  rw [Pru.grantOut, Pru.grantOut, h.grants]

/-- Neither register is written. -/
theorem same (hs : Keeps s t) (h : u.control = t.control) (h0 : u.latch 0 = t.latch 0)
    (h1 : u.latch 1 = t.latch 1) : Keeps s u :=
  hs.trans ⟨h, h0, fun hsack => by rwa [Pru.sack, h1] at hsack⟩

theorem setbyte (hs : Keeps s t) {r : ℕ} (val : Byte) (h : 1 < r) : Keeps s (t.setbyte r val) :=
  hs.same rfl (Function.update_of_ne (Nat.ne_of_lt (by omega)) _ _)
    (Function.update_of_ne (Nat.ne_of_lt h) _ _)

theorem setbits (hs : Keeps s t) {r : ℕ} (mask val : Byte) (h : 1 < r) :
    Keeps s (t.setbits r mask val) :=
  hs.same rfl (Function.update_of_ne (Nat.ne_of_lt (by omega)) _ _)
    (Function.update_of_ne (Nat.ne_of_lt h) _ _)

theorem putData (hs : Keeps s t) (data : Word) : Keeps s (t.putData data) :=
  (hs.setbyte _ (by decide)).setbyte _ (by decide)

theorem putAddress (hs : Keeps s t) (addr : UInt) (control : Byte) :
    Keeps s (t.putAddress addr control) :=
  ((hs.setbyte _ (by decide)).setbyte _ (by decide)).setbits _ _ (by decide)

theorem withEmulation (hs : Keeps s t) (e : Emulation) : Keeps s (t.withEmulation e) :=
  hs.same rfl rfl rfl

theorem modifyMailboxDma (hs : Keeps s t) (f : MailboxDma → MailboxDma) :
    Keeps s (t.modifyMailboxDma f) :=
  hs.same rfl rfl rfl

theorem withDma (hs : Keeps s t) (dma : SmDma) : Keeps s { t with dma := dma } :=
  hs.same rfl rfl rfl

theorem setDmaTimeout (hs : Keeps s t) : Keeps s t.setDmaTimeout := hs.same rfl rfl rfl

theorem assertSsyn (hs : Keeps s t) : Keeps s t.assertSsyn := hs.setbits _ _ (by decide)

theorem answerInternally (hs : Keeps s t) : Keeps s t.answerInternally :=
  (((hs.setbits _ _ (by decide)).setbits _ _ (by decide)).putData _).setbits _ _ (by decide)

/-- Register 1 holds BBSY and SACK: a write that does not set bit 5 does not raise SACK. -/
theorem setbits_one (hs : Keeps s t) (mask val : Byte)
    (h : (val &&& mask).getLsbD 5 = false) : Keeps s (t.setbits 1 mask val) := by
  refine hs.trans ⟨rfl, rfl, ?_⟩
  intro hsack
  simp only [Pru.sack, Pru.setbits, Function.update_self, QUniBone.setbits, BitVec.getLsbD_or, h,
    Bool.or_false, BitVec.getLsbD_and, Bool.and_eq_true] at hsack
  exact hsack.1

end Keeps

/-! ## Slave cycles -/

theorem smDataSlaveStart_keeps (l : Lines) (s : Pru) : Keeps s (s.smDataSlaveStart l).2 := by
  have hs := Keeps.refl s
  unfold smDataSlaveStart
  dsimp only
  -- The kind of the cycle, and whether somebody answers.
  split_ifs
  · exact hs
  · exact hs
  · exact (hs.withEmulation _).assertSsyn
  · exact hs.withEmulation _
  · exact (hs.withEmulation _).assertSsyn
  · exact hs.withEmulation _
  · exact (hs.withEmulation _).assertSsyn
  · exact hs.withEmulation _
  · split
    · exact ((hs.withEmulation _).putData _).assertSsyn
    · exact hs.withEmulation _

theorem smDataSlave_keeps (l : Lines) (s : Pru) (st : SlaveState) :
    Keeps s (s.smDataSlave l st).2 := by
  have hs := Keeps.refl s
  cases st with
  | start => exact smDataSlaveStart_keeps l s
  | state10 =>
    show Keeps s (s.smDataSlaveState10 l).2
    unfold smDataSlaveState10
    split_ifs
    · exact hs
    · exact hs
    · exact hs.setbits _ _ (by decide)
  | state20 =>
    show Keeps s (s.smDataSlaveState20 l).2
    unfold smDataSlaveState20
    split_ifs
    · exact hs
    · exact hs
    · exact (hs.putData _).setbits _ _ (by decide)

/-! ## Data transfers -/

theorem finishDma_keeps {s t : Pru} (hs : Keeps s t) (status : Byte) :
    Keeps s (t.finishDma status) := by
  have hlines : Keeps s (((t.setbyte 2 0).setbyte 3 0).setbits 4 0x3f 0) :=
    ((hs.setbyte _ (by decide)).setbyte _ (by decide)).setbits _ _ (by decide)
  have hbbsy := hlines.setbits_one (bit 6) 0 (by decide)
  exact hbbsy.same rfl rfl rfl

theorem smDmaWrite_keeps {s t : Pru} (hs : Keeps s t) : Keeps s t.smDmaWrite.2 := by
  unfold smDmaWrite
  dsimp only
  generalize hu : (((t.putAddress t.busAddr
    (if t.mailbox.dma.buscycle == cycleDatob then bit 3 ||| bit 2 else bit 3)).putData
    t.dmaWord).setbits 4 (bit 4) (bit 4)) = u
  have hput : Keeps s u := by
    rw [← hu]
    exact ((hs.putAddress _ _).putData _).setbits _ _ (by decide)
  -- DATOB to an odd or an even address, or DATO, answered here or not.
  split_ifs
  · exact (hput.withEmulation _).answerInternally
  · exact (hput.withEmulation _).setDmaTimeout
  · exact (hput.withEmulation _).answerInternally
  · exact (hput.withEmulation _).setDmaTimeout
  · exact (hput.withEmulation _).answerInternally
  · exact (hput.withEmulation _).setDmaTimeout

theorem smDmaRead_keeps {s t : Pru} (hs : Keeps s t) : Keeps s t.smDmaRead.2 := by
  have hput : Keeps s ((t.putAddress t.busAddr 0).setbits 4 (bit 4) (bit 4)) :=
    (hs.putAddress _ _).setbits _ _ (by decide)
  unfold smDmaRead
  dsimp only
  split
  · exact (((hput.withEmulation _).putData _).modifyMailboxDma _).answerInternally
  · exact (hput.withEmulation _).setDmaTimeout

theorem smDma_keeps (l : Lines) (s : Pru) (st : DmaState) : Keeps s (s.smDma l st).2 := by
  have hs := Keeps.refl s
  have hrelease := hs.setbits_one (bit 5) 0 (by decide)
  have hpoll : Keeps s s.pollDmaTimeout := hs.same rfl rfl rfl
  cases st with
  | start =>
    exact ((hs.modifyMailboxDma _).withDma _).setbits_one (bit 6) (bit 6) (by decide)
  | state1 =>
    show Keeps s s.smDmaState1.2
    unfold smDmaState1
    split
    · exact hs
    dsimp only
    generalize hu : (if s.dma.curWordsleft = 1 then s.setbits 1 (bit 5) 0 else s) = u
    have hsack : Keeps s u := by
      rw [← hu]
      split
      · exact hrelease
      · exact hs
    split
    · exact smDmaWrite_keeps (hsack.withDma _)
    · exact smDmaRead_keeps (hsack.withDma _)
  | state11 =>
    show Keeps s (s.smDmaState11 l).2
    unfold smDmaState11
    dsimp only
    split
    · exact hpoll
    · exact (hpoll.modifyMailboxDma _).setbits _ _ (by decide)
  | state21 =>
    show Keeps s (s.smDmaState21 l).2
    unfold smDmaState21
    dsimp only
    split
    · exact hpoll
    · exact (hpoll.setbits _ _ (by decide)).putData _
  | state99 =>
    show Keeps s (s.smDmaState99 l).2
    unfold smDmaState99
    split
    · exact finishDma_keeps hrelease _
    dsimp only
    split
    · exact finishDma_keeps (hs.withDma _) _
    split
    · exact finishDma_keeps ((hs.withDma _).setbits_one _ _ (by decide)) _
    · exact hs.same rfl rfl rfl

/-! ## Interrupt vectors -/

theorem smIntrMaster_keeps (l : Lines) (s : Pru) (st : IntrMasterState) :
    Keeps s (s.smIntrMaster l st).2 := by
  have hs := Keeps.refl s
  cases st with
  | start => exact hs.setbits_one (bit 6) (bit 6) (by decide)
  | state1 =>
    have hvector : Keeps s ((s.putData s.intrMaster.vector).setbits 7 (bit 0) (bit 0)) :=
      (hs.putData _).setbits _ _ (by decide)
    exact hvector.setbits_one (bit 5) 0 (by decide)
  | state2 =>
    show Keeps s (s.smIntrMasterState2 l).2
    unfold smIntrMasterState2
    dsimp only
    split
    · exact hs
    split
    · exact hs
    · have hlines : Keeps s ((s.putData 0).setbits 7 (bit 0) 0) :=
        (hs.putData _).setbits _ _ (by decide)
      have hbbsy := hlines.setbits_one (bit 6) 0 (by decide)
      exact hbbsy.same rfl rfl rfl

end QUniBone.PruU.Pru
