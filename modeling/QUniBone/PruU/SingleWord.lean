import QUniBone.PruU.Dma

/-!
# Transfers of one word

An emulated CPU moves single words. Of such a transfer only the cycle itself matters: whether
this UniBone answers it, else what the other stations on the bus do.

* `internalCycle`: the cycle as this UniBone answers it.
* `Transfer`: the DMA state machine, called until it stops.
* `Transfer.result`: what a transfer of one word ends with.
-/

namespace QUniBone.PruU

/-- A cycle at `addr`, answered by emulated memory, ROM or registers: the word that is read, or
the data that are written. -/
def internalCycle (e : Emulation) (buscycle : Byte) (addr : UInt) (data : Word) :
    Option Word × Emulation :=
  if cycleIsDato buscycle then
    let (internal, e') :=
      if buscycle == cycleDatob then
        emulatedAddrWriteB e addr (if addr.getLsbD 0 then highByte data else lowByte data)
      else emulatedAddrWriteW e addr data
    (if internal then some data else none, e')
  else emulatedAddrRead e addr

/-- The outcome for the master, when the other stations answer `others`: whether SSYN came in
time, and the data lines then. -/
def cycleOutcome (buscycle : Byte) (data : Word) (internal : Option Word) (others : Bool × Word) :
    Bool × Word :=
  match internal with
  | some word => (true, word)
  | none => (others.1, if cycleIsDato buscycle then data else others.2)

namespace Pru

/-- The timers have run on. -/
def atCycle (s : Pru) (cycle : UInt) : Pru :=
  { s with timeouts := { s.timeouts with cycle := cycle } }

/-- The DMA state machine, called from state `st` on until it stops. Between two calls the timers
run, and in each call the bus lines are what they are. -/
inductive Transfer : Pru → DmaState → Pru → Prop
  | last {s t : Pru} {st : DmaState} (l : Lines) (cycle : UInt) :
      (s.atCycle cycle).smDma l st = (none, t) → Transfer s st t
  | next {s t u : Pru} {st st' : DmaState} (l : Lines) (cycle : UInt) :
      (s.atCycle cycle).smDma l st = (some st', t) → Transfer t st' u → Transfer s st u

/-- What a transfer works on beside the bus lines and the timers. -/
structure Channel where
  emulation : Emulation
  addressOverlay : UInt
  mailbox : MailboxDma
  sm : SmDma

def channel (s : Pru) : Channel := ⟨s.emulation, s.addressOverlay, s.mailbox.dma, s.dma⟩

section Channel

variable (s : Pru)

@[simp] theorem channel_setbits (reg : ℕ) (mask val : Byte) :
    (s.setbits reg mask val).channel = s.channel := rfl

@[simp] theorem channel_putAddress (addr : UInt) (control : Byte) :
    (s.putAddress addr control).channel = s.channel := rfl

@[simp] theorem channel_putData (data : Word) : (s.putData data).channel = s.channel := rfl

@[simp] theorem channel_setDmaTimeout : s.setDmaTimeout.channel = s.channel := rfl

@[simp] theorem channel_setbyte (reg : ℕ) (val : Byte) :
    (s.setbyte reg val).channel = s.channel := rfl

@[simp] theorem channel_answerInternally : s.answerInternally.channel = s.channel := by
  simp only [answerInternally, channel_setbits, channel_putData]

@[simp] theorem channel_withEmulation (e : Emulation) :
    (s.withEmulation e).channel = { s.channel with emulation := e } := rfl

@[simp] theorem channel_setDmaWord (w : Word) :
    (s.setDmaWord w).channel = { s.channel with mailbox := { s.mailbox.dma with
      words := Function.update s.mailbox.dma.words s.dma.dataptr w } } := rfl

/-- The end of a transfer leaves its status behind. -/
@[simp] theorem channel_finishDma (status : Byte) :
    (s.finishDma status).channel =
      { s.channel with mailbox := { s.channel.mailbox with curStatus := status } } := by
  simp only [finishDma]
  generalize ht : (((s.setbyte 2 0).setbyte 3 0).setbits 4 0x3f 0).setbits 1 (bit 6) 0 = t
  have hchannel : t.channel = s.channel := by
    rw [← ht]
    simp only [channel_setbits, channel_setbyte]
  rw [← hchannel]
  rfl

end Channel

/-- What a transfer of one word is about. -/
structure Request where
  emulation : Emulation
  buscycle : Byte
  startaddr : UInt
  overlay : UInt
  data : Word

namespace Request

/-- The address on the bus. -/
def addr (r : Request) : UInt := r.startaddr ||| r.overlay

/-- The cycle, as this UniBone answers it. -/
def internal (r : Request) : Option Word × Emulation :=
  internalCycle r.emulation r.buscycle r.addr r.data

/-- The request is in the mailbox. -/
structure Posted (r : Request) (c : Channel) : Prop where
  buscycle : c.mailbox.buscycle = r.buscycle
  wordcount : c.mailbox.wordcount = 1
  overlay : c.addressOverlay = r.overlay

/-- How far the request is in front of a call in state `st`. -/
def At (r : Request) (st : DmaState) (c : Channel) : Prop :=
  match st with
  | .start => c.emulation = r.emulation ∧ c.mailbox.startaddr = r.startaddr ∧
      c.mailbox.words 0 = r.data
  | .state1 => c.emulation = r.emulation ∧ c.mailbox.curAddr = r.startaddr ∧
      c.mailbox.words 0 = r.data ∧ c.mailbox.curStatus = dmaStateRunning ∧
      c.sm.dataptr = 0 ∧ c.sm.curWordsleft = 1
  | .state11 => c.emulation = r.internal.2 ∧ r.internal.1 = none ∧
      cycleIsDato r.buscycle = false ∧ c.sm.dataptr = 0 ∧ c.sm.curWordsleft = 1
  | .state21 => c.emulation = r.internal.2 ∧ r.internal.1 = none ∧
      cycleIsDato r.buscycle = true ∧ c.mailbox.words 0 = r.data ∧ c.sm.curWordsleft = 1
  | .state99 => c.emulation = r.internal.2 ∧ c.sm.curWordsleft = 1 ∧
      ∃ others, (!c.sm.stateTimeout, c.mailbox.words 0) =
        cycleOutcome r.buscycle r.data r.internal.1 others

/-- The end: status, word and emulation. -/
def Done (r : Request) (c : Channel) : Prop :=
  c.emulation = r.internal.2 ∧ ∃ others,
    (c.mailbox.curStatus == dmaStateReady, c.mailbox.words 0) =
      cycleOutcome r.buscycle r.data r.internal.1 others

/-- After a call that goes on in `next`, or has stopped. -/
def After (r : Request) (next : Option DmaState) (c : Channel) : Prop :=
  match next with
  | some st => r.Posted c ∧ r.At st c
  | none => r.Done c

variable {r : Request} {s : Pru}

theorem smDmaStart_after (hp : r.Posted s.channel) (h : r.At .start s.channel) :
    r.After s.smDmaStart.1 s.smDmaStart.2.channel := by
  obtain ⟨hemulation, haddr, hword⟩ := h
  exact ⟨⟨hp.buscycle, hp.wordcount, hp.overlay⟩,
    ⟨hemulation, haddr, hword, rfl, rfl, hp.wordcount⟩⟩

theorem Posted.busAddr (hp : r.Posted s.channel) (hcur : s.mailbox.dma.curAddr = r.startaddr) :
    s.busAddr = r.addr :=
  congrArg₂ (· ||| ·) hcur hp.overlay

theorem smDmaWrite_after (hp : r.Posted s.channel) (h : r.At .state1 s.channel)
    (hcycle : cycleIsDato r.buscycle = true) (hto : s.dma.stateTimeout = false) :
    r.After s.smDmaWrite.1 s.smDmaWrite.2.channel := by
  obtain ⟨hemulation, haddr, hword, -, hptr, hleft⟩ := h
  have hdata : s.dmaWord = r.data := (congrArg s.mailbox.dma.words hptr).trans hword
  have hbus : s.mailbox.dma.buscycle = r.buscycle := hp.buscycle
  simp only [smDmaWrite, hp.busAddr haddr, hdata, hbus]
  generalize ht : ((s.putAddress r.addr _).putData r.data).setbits 4 (bit 4) (bit 4) = t
  have hchannel : t.channel = s.channel := by
    rw [← ht]
    simp only [channel_setbits, channel_putData, channel_putAddress]
  rw [show t.emulation = r.emulation from (congrArg Channel.emulation hchannel).trans hemulation]
  obtain ⟨answer, hanswer⟩ : ∃ answer : Bool × Emulation, answer =
    if r.buscycle == cycleDatob then emulatedAddrWriteB r.emulation r.addr
      (if r.addr.getLsbD 0 then highByte r.data else lowByte r.data)
    else emulatedAddrWriteW r.emulation r.addr r.data := ⟨_, rfl⟩
  have hinternal : r.internal = (if answer.1 then some r.data else none, answer.2) := by
    rw [Request.internal, internalCycle, if_pos hcycle, hanswer]
  rw [← hanswer]
  have hu : (t.withEmulation answer.2).channel = { s.channel with emulation := answer.2 } := by
    rw [channel_withEmulation, hchannel]
  generalize t.withEmulation answer.2 = u at hu
  cases hhit : answer.1 with
  | true =>
    simp only [hhit, if_true] at hinternal ⊢
    rw [channel_answerInternally, hu]
    refine ⟨⟨hp.buscycle, hp.wordcount, hp.overlay⟩, ?_, hleft, ⟨true, 0⟩, ?_⟩
    · rw [hinternal]
    · rw [hinternal]
      show (!s.dma.stateTimeout, s.mailbox.dma.words 0) = (true, r.data)
      rw [hto]
      exact Prod.ext rfl hword
  | false =>
    simp only [hhit, Bool.false_eq_true, if_false] at hinternal ⊢
    rw [channel_setDmaTimeout, hu]
    refine ⟨⟨hp.buscycle, hp.wordcount, hp.overlay⟩, ?_, ?_, hcycle, hword, hleft⟩
    · rw [hinternal]
    · rw [hinternal]

theorem smDmaRead_after (hp : r.Posted s.channel) (h : r.At .state1 s.channel)
    (hcycle : cycleIsDato r.buscycle = false) (hto : s.dma.stateTimeout = false) :
    r.After s.smDmaRead.1 s.smDmaRead.2.channel := by
  obtain ⟨hemulation, haddr, hword, -, hptr, hleft⟩ := h
  simp only [smDmaRead, hp.busAddr haddr]
  generalize ht : (s.putAddress r.addr 0).setbits 4 (bit 4) (bit 4) = t
  have hchannel : t.channel = s.channel := by
    rw [← ht]
    simp only [channel_setbits, channel_putAddress]
  have hinternal : r.internal = emulatedAddrRead t.emulation r.addr := by
    rw [show t.emulation = r.emulation from (congrArg Channel.emulation hchannel).trans hemulation,
      Request.internal, internalCycle, hcycle, if_neg Bool.false_ne_true]
  rw [← hinternal]
  have hu : (t.withEmulation r.internal.2).channel =
      { s.channel with emulation := r.internal.2 } := by
    rw [channel_withEmulation, hchannel]
  generalize t.withEmulation r.internal.2 = u at hu
  cases hanswer : r.internal.1 with
  | some data =>
    simp only
    rw [channel_answerInternally, channel_setDmaWord, channel_putData, hu]
    have hword' : (u.putData data).mailbox.dma = s.mailbox.dma := congrArg Channel.mailbox hu
    have hsm : (u.putData data).dma = s.dma := congrArg Channel.sm hu
    rw [hword', hsm]
    refine ⟨⟨hp.buscycle, hp.wordcount, hp.overlay⟩, rfl, hleft, ⟨true, 0⟩, ?_⟩
    rw [hanswer]
    show (!s.dma.stateTimeout, Function.update s.mailbox.dma.words s.dma.dataptr data 0) =
      (true, data)
    rw [hto, show s.dma.dataptr = 0 from hptr, Function.update_self]
    rfl
  | none =>
    simp only
    rw [channel_setDmaTimeout, hu]
    exact ⟨⟨hp.buscycle, hp.wordcount, hp.overlay⟩, rfl, hanswer, hcycle, hptr, hleft⟩

theorem smDmaState1_after (hp : r.Posted s.channel) (h : r.At .state1 s.channel) :
    r.After s.smDmaState1.1 s.smDmaState1.2.channel := by
  have hrun : ¬ (s.mailbox.dma.curStatus ≠ dmaStateRunning ∨ s.mailbox.dma.wordcount = 0) := by
    rw [show s.mailbox.dma.wordcount = 1 from hp.wordcount,
      show s.mailbox.dma.curStatus = dmaStateRunning from h.2.2.2.1]
    decide
  rw [Pru.smDmaState1, if_neg hrun, if_pos (show s.dma.curWordsleft = 1 from h.2.2.2.2.2)]
  obtain ⟨u, hu⟩ : ∃ u : Pru, u = { s.setbits 1 (bit 5) 0 with
      dma := { (s.setbits 1 (bit 5) 0).dma with stateTimeout := false } } := ⟨_, rfl⟩
  have hp' : r.Posted u.channel := by
    rw [hu]
    exact ⟨hp.buscycle, hp.wordcount, hp.overlay⟩
  have hat : r.At .state1 u.channel := by
    rw [hu]
    exact h
  have hto : u.dma.stateTimeout = false := by rw [hu]
  show r.After (if cycleIsDato (Pru.mailbox _).dma.buscycle then _ else _ : Option DmaState × Pru).1
    (if cycleIsDato (Pru.mailbox _).dma.buscycle then _ else _ : Option DmaState × Pru).2.channel
  rw [← hu, show u.mailbox.dma.buscycle = _ from hp'.buscycle]
  cases hdato : cycleIsDato r.buscycle with
  | true => exact smDmaWrite_after hp' hat hdato hto
  | false => exact smDmaRead_after hp' hat hdato hto

theorem smDmaState11_after (l : Lines) (hp : r.Posted s.channel) (h : r.At .state11 s.channel) :
    r.After (s.smDmaState11 l).1 (s.smDmaState11 l).2.channel := by
  obtain ⟨hemulation, hnone, hcycle, hptr, hleft⟩ := h
  simp only [Pru.smDmaState11]
  split_ifs
  case pos =>
    exact ⟨⟨hp.buscycle, hp.wordcount, hp.overlay⟩, hemulation, hnone, hcycle, hptr, hleft⟩
  case neg =>
    refine ⟨⟨hp.buscycle, hp.wordcount, hp.overlay⟩, hemulation, hleft,
      ⟨!s.pollDmaTimeout.dma.stateTimeout, (l 5 0).setWidth 16 ||| ((l 6 0).setWidth 16 <<< 8)⟩, ?_⟩
    rw [hnone, cycleOutcome, hcycle, if_neg Bool.false_ne_true]
    refine Prod.ext rfl ?_
    show Function.update s.mailbox.dma.words s.dma.dataptr _ 0 = _
    rw [show s.dma.dataptr = 0 from hptr, Function.update_self]

theorem smDmaState21_after (l : Lines) (hp : r.Posted s.channel) (h : r.At .state21 s.channel) :
    r.After (s.smDmaState21 l).1 (s.smDmaState21 l).2.channel := by
  obtain ⟨hemulation, hnone, hcycle, hword, hleft⟩ := h
  simp only [Pru.smDmaState21]
  split_ifs
  case pos =>
    exact ⟨⟨hp.buscycle, hp.wordcount, hp.overlay⟩, hemulation, hnone, hcycle, hword, hleft⟩
  case neg =>
    refine ⟨⟨hp.buscycle, hp.wordcount, hp.overlay⟩, hemulation, hleft,
      ⟨!s.pollDmaTimeout.dma.stateTimeout, 0⟩, ?_⟩
    rw [hnone, cycleOutcome, if_pos hcycle]
    exact Prod.ext rfl hword

theorem smDmaState99_after (l : Lines) (h : r.At .state99 s.channel) :
    r.After (s.smDmaState99 l).1 (s.smDmaState99 l).2.channel := by
  obtain ⟨hemulation, hleft, others, hout⟩ := h
  obtain ⟨hok, hword⟩ := Prod.ext_iff.mp hout
  replace hok : (!s.dma.stateTimeout) = _ := hok
  cases hto : s.dma.stateTimeout with
  | true =>
    simp only [Pru.smDmaState99, hto, if_true]
    rw [hto] at hok
    refine ⟨?_, others, ?_⟩
    · rw [channel_finishDma]
      exact hemulation
    · rw [channel_finishDma]
      exact Prod.ext hok hword
  | false =>
    have hlast : s.dma.curWordsleft - 1 = 0 := by
      rw [show s.dma.curWordsleft = 1 from hleft]
      decide
    simp only [Pru.smDmaState99, hto, Bool.false_eq_true, if_false, hlast, if_true]
    rw [hto] at hok
    refine ⟨?_, others, ?_⟩
    · rw [channel_finishDma]
      exact hemulation
    · rw [channel_finishDma]
      exact Prod.ext hok hword

/-- One call. -/
theorem smDma_after (l : Lines) (cycle : UInt) {st : DmaState} (hp : r.Posted s.channel)
    (h : r.At st s.channel) :
    r.After ((s.atCycle cycle).smDma l st).1 ((s.atCycle cycle).smDma l st).2.channel := by
  have hp' : r.Posted (s.atCycle cycle).channel := hp
  have h' : r.At st (s.atCycle cycle).channel := h
  cases st with
  | start => exact smDmaStart_after hp' h'
  | state1 => exact smDmaState1_after hp' h'
  | state11 => exact smDmaState11_after l hp' h'
  | state21 => exact smDmaState21_after l hp' h'
  | state99 => exact smDmaState99_after l h'

end Request

/-- A transfer of one word ends with the outcome of its cycle. -/
theorem Transfer.result {s t : Pru} {st : DmaState} (h : Transfer s st t) {r : Request}
    (hp : r.Posted s.channel) (hat : r.At st s.channel) : r.Done t.channel := by
  induction h with
  | last l cycle hstep =>
    have hafter := Request.smDma_after l cycle hp hat
    rwa [hstep] at hafter
  | next l cycle hstep _ ih =>
    have hafter := Request.smDma_after l cycle hp hat
    rw [hstep] at hafter
    exact ih hafter.1 hafter.2

end Pru

end QUniBone.PruU
