import QUniBone.PruQ.MainLoop

/-!
# What the bus cycles of the QBone leave alone

Master and slave state machines work on the data lines. Requests and grants and the state of the
arbitration stay as they are, only SACK may be released.

* `Keeps`: the relation between the states before and after.
* `smDataSlave_keeps`, `smDma_keeps`: the state machines.
-/

namespace QUniBone.PruQ.Pru

open PruU (Lines MailboxDma Events)

/-- What the arbitration works on, without its lines. -/
structure Control where
  arb : SmArb
  master : Option DmaState
  phase : Phase
  intrMaster : ℕ → Event

def control (s : Pru) : Control := ⟨s.arb, s.master, s.phase, s.mailbox.events.intrMaster⟩

/-- The register of the request lines and SACK, as the PRU knows it. -/
def CachedRequests (s : Pru) : Prop := s.latches.curRegVal 6 = s.latches.driven 6

/-- The arbitration is left alone, SACK is at most released. -/
structure Keeps (s t : Pru) : Prop where
  control : t.control = s.control
  cached : s.CachedRequests → t.CachedRequests
  sack : s.CachedRequests → t.sack = true → s.sack = true

namespace Keeps

variable {s t u : Pru}

theorem refl (s : Pru) : Keeps s s := ⟨rfl, id, fun _ => id⟩

theorem trans (h : Keeps s t) (h' : Keeps t u) : Keeps s u :=
  ⟨h'.control.trans h.control, h'.cached ∘ h.cached,
    fun hc hsack => h.sack hc (h'.sack (h.cached hc) hsack)⟩

theorem arb (h : Keeps s t) : t.arb = s.arb := congrArg Control.arb h.control

theorem master (h : Keeps s t) : t.master = s.master := congrArg Control.master h.control

theorem intrMaster (h : Keeps s t) :
    t.mailbox.events.intrMaster = s.mailbox.events.intrMaster :=
  congrArg Control.intrMaster h.control

/-- Register 6 is not written. -/
theorem same (hs : Keeps s t) (h : u.control = t.control)
    (h6 : u.latches.curRegVal 6 = t.latches.curRegVal 6)
    (h6' : u.latches.driven 6 = t.latches.driven 6) : Keeps s u :=
  hs.trans ⟨h, fun hc => h6.trans (hc.trans h6'.symm), fun _ hsack => by
    rwa [Pru.sack, h6'] at hsack⟩

end Keeps

/-- A write to another register. -/
theorem write_six (driven : ℕ → Byte) {r : ℕ} (h : r < 6) (val : Byte) :
    BusLatches.write driven r val 6 = driven 6 := by
  unfold BusLatches.write
  split_ifs
  · rw [Function.update_of_ne (by decide), Function.update_of_ne (by decide)]
  · rfl
  · rfl
  · rw [Function.update_of_ne (by decide), Function.update_of_ne (by decide)]
  · exact Function.update_of_ne (Nat.ne_of_gt h) _ _

namespace Keeps

variable {s t : Pru}

theorem setbyte (hs : Keeps s t) {r : ℕ} (val : Byte) (h : r < 6) : Keeps s (t.setbyte r val) :=
  hs.same rfl rfl (write_six _ h _)

theorem setbits (hs : Keeps s t) {r : ℕ} (mask val : Byte) (h : r < 6) :
    Keeps s (t.setbits r mask val) :=
  hs.same rfl (Function.update_of_ne (Nat.ne_of_gt h) _ _) (write_six _ h _)

/-- SACK is released. -/
theorem releaseSack (hs : Keeps s t) : Keeps s (t.setbits 6 (bit 7) 0) := by
  refine hs.trans ⟨rfl, fun _ => rfl, fun _ hsack => ?_⟩
  have hbit : (QUniBone.setbits (t.latches.curRegVal 6) (bit 7) 0).getLsbD 7 = false := by
    have h7 : (bit 7).getLsbD 7 = true := rfl
    have h0 : (0 : Byte).getLsbD 7 = false := rfl
    simp only [QUniBone.setbits, BitVec.getLsbD_or, BitVec.getLsbD_and, BitVec.getLsbD_not, h7, h0,
      Bool.not_true, Bool.and_false, Bool.false_and, Bool.or_false]
  have hsack' : (QUniBone.setbits (t.latches.curRegVal 6) (bit 7) 0).getLsbD 7 = true := hsack
  rw [hbit] at hsack'
  cases hsack'

theorem withEmulation (hs : Keeps s t) (e : Emulation) : Keeps s (t.withEmulation e) :=
  hs.same rfl rfl rfl

theorem modifyMailboxDma (hs : Keeps s t) (f : MailboxDma → MailboxDma) :
    Keeps s (t.modifyMailboxDma f) :=
  hs.same rfl rfl rfl

theorem setDmaWord (hs : Keeps s t) (w : Word) : Keeps s (t.setDmaWord w) := hs.same rfl rfl rfl

theorem withDma (hs : Keeps s t) (dma : SmDma) : Keeps s { t with dma := dma } :=
  hs.same rfl rfl rfl

theorem endBlock (hs : Keeps s t) : Keeps s t.endBlock := hs.same rfl rfl rfl

theorem setDmaTimeout (hs : Keeps s t) : Keeps s t.setDmaTimeout := hs.same rfl rfl rfl

theorem answered (hs : Keeps s t) (hit : Hit) (state : SlaveState) :
    Keeps s (t.answered hit state).2 := hs.setbits _ _ (by decide)

theorem negateRply (hs : Keeps s t) : Keeps s t.negateRply := hs.setbits _ _ (by decide)

end Keeps

/-! ## Slave cycles -/

theorem slaveDin_keeps (s : Pru) : Keeps s s.slaveDin.2 := by
  have hs := Keeps.refl s
  unfold slaveDin
  dsimp only
  split
  · exact hs.withEmulation _
  · exact (((hs.withEmulation _).setbyte _ (by decide)).setbyte _ (by decide)).answered _ _

theorem slaveDout_keeps (l : Lines) (s : Pru) : Keeps s (s.slaveDout l).2 := by
  have hs := (Keeps.refl s).setbyte (r := 3) (bit 0) (by decide)
  unfold slaveDout
  dsimp only
  generalize (if (l 4 0).getLsbD 4 = true then _ else _ : Option Hit × Emulation) = answer
  obtain ⟨hit, e⟩ := answer
  cases hit with
  | none => exact hs.withEmulation _
  | some hit => exact (hs.withEmulation _).answered _ _

theorem slaveDindoutStart_keeps (l : Lines) (s : Pru) : Keeps s (s.slaveDindoutStart l).2 := by
  unfold slaveDindoutStart
  split_ifs
  · exact Keeps.refl s
  · exact slaveDin_keeps s
  · exact slaveDout_keeps l s
  · exact Keeps.refl s

theorem smDataSlave_keeps (l : Lines) (s : Pru) (st : SlaveState) :
    Keeps s (s.smDataSlave l st).2 := by
  have hs := Keeps.refl s
  have hstart : Keeps s (s.slaveStart l).2 := by
    unfold slaveStart
    split
    · exact hs
    · exact hs.same rfl rfl rfl
  cases st with
  | stop => exact hstart
  | start => exact hstart
  | dindoutStart => exact slaveDindoutStart_keeps l s
  | dinSingleComplete =>
    show Keeps s (s.slaveDinSingleComplete l).2
    unfold slaveDinSingleComplete
    split_ifs
    · exact hs
    · exact hs
    · exact hs.negateRply.setbyte _ (by decide)
  | doutSingleComplete =>
    show Keeps s (s.slaveDoutSingleComplete l).2
    unfold slaveDoutSingleComplete
    split_ifs
    · exact hs
    · exact hs
    · exact hs.negateRply
  | dinBlockComplete =>
    show Keeps s (s.slaveDinBlockComplete l).2
    unfold slaveDinBlockComplete
    split_ifs <;> exact hs.same rfl rfl rfl
  | doutBlockComplete =>
    show Keeps s (s.slaveDoutBlockComplete l).2
    unfold slaveDoutBlockComplete
    split_ifs <;> exact hs.same rfl rfl rfl

/-! ## Data transfers -/

theorem smDmaStateAddr_keeps (s : Pru) : Keeps s s.smDmaStateAddr.2 := by
  have hs := Keeps.refl s
  unfold smDmaStateAddr
  dsimp only
  split
  · exact hs
  · have haddr := ((hs.setbyte (r := 0) (s.mailbox.dma.curAddr.setWidth 8) (by decide)).setbyte
      (r := 1) ((s.mailbox.dma.curAddr >>> 8).setWidth 8) (by decide)).setbyte (r := 2)
      ((s.mailbox.dma.curAddr >>> 16).setWidth 8) (by decide)
    exact ((haddr.setbits _ _ (by decide)).withDma _).setbits _ _ (by decide)

theorem clearAddress_keeps {s t : Pru} (hs : Keeps s t) : Keeps s t.clearAddress := by
  unfold clearAddress
  split
  · exact (hs.withDma _).setbyte _ (by decide)
  · exact hs

theorem answerDin_keeps {s t : Pru} (hs : Keeps s t) (data : Word) :
    Keeps s (t.answerDin data) := by
  have hdata := (hs.setbyte (r := 0) (PruU.lowByte data) (by decide)).setbyte (r := 1)
    (PruU.highByte data) (by decide)
  have hrply := (hdata.setbits (r := 4) (bit 3) (bit 3) (by decide)).setDmaWord data
  exact (hrply.setbits _ _ (by decide)).setbyte _ (by decide)

theorem smDmaStateDinStart_keeps (s : Pru) : Keeps s s.smDmaStateDinStart.2 := by
  unfold smDmaStateDinStart
  dsimp only
  generalize hu : (s.setbits 4 (bit 5 ||| bit 1)
    (if (s.mailbox.dma.curAddr == s.dma.blockEndAddr) = true then bit 1 else 0xff)).clearAddress
    = u
  have hdin : Keeps s u := by
    rw [← hu]
    exact clearAddress_keeps ((Keeps.refl s).setbits _ _ (by decide))
  have hread := hdin.withEmulation (emulatedAddrRead u.emulation s.mailbox.dma.curAddr).2
  split
  · next data _ =>
    have hanswer := answerDin_keeps hread data
    dsimp only
    split
    · exact hanswer.endBlock
    · exact hanswer
  · exact hread.setDmaTimeout

theorem firstDout_keeps {s t : Pru} (hs : Keeps s t) (isDatob : Bool) :
    Keeps s (t.firstDout isDatob) := by
  unfold firstDout
  split
  · have hclear := (hs.setbyte (r := 2) 0 (by decide)).withDma
      { t.dma with firstDataPortion := false }
    exact hclear.setbits _ _ (by decide)
  · exact hs

theorem putDout_keeps {s t : Pru} (hs : Keeps s t) (isDatob : Bool) (data : Word) :
    Keeps s (t.putDout isDatob data) := by
  have hdata := (hs.setbyte (r := 0) (PruU.lowByte data) (by decide)).setbyte (r := 1)
    (PruU.highByte data) (by decide)
  exact (firstDout_keeps hdata isDatob).setbits _ _ (by decide)

theorem answerDout_keeps {s t : Pru} (hs : Keeps s t) : Keeps s t.answerDout :=
  (((hs.setbits _ _ (by decide)).setbits _ _ (by decide)).setbyte _ (by decide)).setbits _ _
    (by decide)

theorem smDmaStateDoutStart_keeps (s : Pru) : Keeps s s.smDmaStateDoutStart.2 := by
  have hdout := putDout_keeps (Keeps.refl s) (s.mailbox.dma.buscycle == cycleDatob)
    (s.mailbox.dma.words s.dma.dataptr)
  unfold smDmaStateDoutStart
  dsimp only
  generalize s.putDout (s.mailbox.dma.buscycle == cycleDatob)
    (s.mailbox.dma.words s.dma.dataptr) = u at hdout ⊢
  generalize (if (s.mailbox.dma.buscycle == cycleDatob) = true then _ else _ :
    Option Hit × Emulation) = answer
  have hanswer := answerDout_keeps (hdout.withEmulation answer.2)
  split
  · dsimp only
    split
    · exact hanswer.endBlock
    · exact hanswer
  · exact (hdout.withEmulation _).setDmaTimeout

theorem waitRply_keeps (l : Lines) (s : Pru) : Keeps s (s.waitRply l).2 := by
  unfold waitRply
  split
  · exact Keeps.refl s
  · exact (Keeps.refl s).same rfl rfl rfl

theorem finishDma_keeps {s t : Pru} (hs : Keeps s t) (status : Byte) :
    Keeps s (t.finishDma status) := by
  have hlines := hs.releaseSack.setbits (r := 4) (bit 0 ||| bit 5) 0 (by decide)
  exact hlines.same rfl rfl rfl

theorem smDma_keeps (l : Lines) (s : Pru) (st : DmaState) : Keeps s (s.smDma l st).2 := by
  have hs := Keeps.refl s
  have hwait := waitRply_keeps l s
  cases st with
  | start => exact hs.same rfl rfl rfl
  | addr => exact smDmaStateAddr_keeps s
  | dinStart => exact smDmaStateDinStart_keeps s
  | doutStart => exact smDmaStateDoutStart_keeps s
  | dinComplete =>
    show Keeps s (s.smDmaStateDinComplete l).2
    unfold smDmaStateDinComplete
    generalize s.waitRply l = r at hwait
    obtain ⟨ready, u⟩ := r
    dsimp only
    have hword := hwait.setDmaWord ((l 0 0).setWidth 16 ||| ((l 1 0).setWidth 16 <<< 8))
    split_ifs
    · exact hwait
    · exact hword.endBlock.setbits _ _ (by decide)
    · exact hword.setbits _ _ (by decide)
  | doutComplete =>
    show Keeps s (s.smDmaStateDoutComplete l).2
    unfold smDmaStateDoutComplete
    generalize s.waitRply l = r at hwait
    obtain ⟨ready, u⟩ := r
    dsimp only
    have hdout := hwait.setbits (r := 4) (bit 2) 0 (by decide)
    split_ifs
    · exact hwait
    · exact (hdout.endBlock.setbyte _ (by decide)).setbits _ _ (by decide)
    · exact hdout
  | state99 =>
    show Keeps s (s.smDmaState99 l).2
    have hnext := hs.withDma { s.dma with
      dataptr := s.dma.dataptr + 1, wordsLeft := s.dma.wordsLeft - 1 }
    unfold smDmaState99
    split
    · exact finishDma_keeps hs _
    dsimp only
    split
    · exact finishDma_keeps hnext _
    split
    · exact finishDma_keeps hnext _
    have haddr := hnext.modifyMailboxDma fun dma => { dma with curAddr := dma.curAddr + 2 }
    split
    · exact haddr
    · exact haddr.setbits _ _ (by decide)

end QUniBone.PruQ.Pru
