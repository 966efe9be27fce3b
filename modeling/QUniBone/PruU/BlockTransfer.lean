import QUniBone.PruU.SingleWord

/-!
# Transfers of many words

A transfer moves word after word, each with a bus cycle of its own. It goes on until all words
are moved, a slave does not answer in time, or INIT is asserted.

* `BusCycle`, `cyclesIn`: the bus cycles that a call of the DMA state machine completes.
* `Block`: words at consecutive addresses, `Block.Ended`: how their transfer may end.
* `Block.smDma_after`: one call.
-/

namespace QUniBone.PruU

/-! ## Cycles on the bus -/

/-- A data cycle: what the slave has read or written, or `none` when it has not answered. -/
structure BusCycle where
  addr : UInt
  control : Byte
  word : Option Word

/-- SSYN, as a call sees it. -/
def ssyn (l : Lines) : Bool := (l 4 0).getLsbD 5

/-- The data lines, as a call reads them. -/
def dataIn (l : Lines) : Word := (l 5 0).setWidth 16 ||| ((l 6 0).setWidth 16 <<< 8)

namespace Pru

/-- The address this station puts onto the bus. -/
def drivenAddress (s : Pru) : UInt :=
  (s.latch 2).setWidth 32 ||| ((s.latch 3).setWidth 32 <<< 8) |||
    ((s.latch 4 &&& 3).setWidth 32 <<< 16)

/-- The data this station puts onto the bus. -/
def drivenData (s : Pru) : Word := (s.latch 5).setWidth 16 ||| ((s.latch 6).setWidth 16 <<< 8)

/-- The cycle with another station, which has moved `word`, if it is over. -/
def cycleWaited (s : Pru) (l : Lines) (word : Word) : List BusCycle :=
  if s.timeouts.reached .dma then [⟨s.drivenAddress, s.mailbox.dma.buscycle, none⟩]
  else if ssyn l then [⟨s.drivenAddress, s.mailbox.dma.buscycle, some word⟩]
  else []

/-- The cycle that a call in state `st` completes, if any. -/
def cyclesIn (s : Pru) (l : Lines) : DmaState → List BusCycle
  | .start => []
  | .state1 =>
    -- Emulated memory and registers answer at once.
    match (internalCycle s.emulation s.mailbox.dma.buscycle s.busAddr s.dmaWord).1 with
    | some word => [⟨s.busAddr, s.mailbox.dma.buscycle, some word⟩]
    | none => []
  | .state11 => s.cycleWaited l (dataIn l)
  | .state21 => s.cycleWaited l s.drivenData
  | .state99 => []

/-! ## The lines -/

theorem setbits_address (old high control : Byte) (hcontrol : control &&& 3 = 0) :
    QUniBone.setbits old 0x3f ((high &&& 3) ||| control) &&& 3 = high &&& 3 := by
  have hbit : ∀ i, i < 2 → control.getLsbD i = false := by
    intro i hi
    have h := congrArg (·.getLsbD i) hcontrol
    interval_cases i <;> simpa using h
  have h0 := hbit 0 (by decide)
  have h1 := hbit 1 (by decide)
  apply BitVec.eq_of_getLsbD_eq
  intro i hi
  interval_cases i <;> simp [QUniBone.setbits] at * <;> simp [*]

/-- Eighteen address lines hold an address of the bus. -/
theorem address_of_lines (addr : UInt) (haddr : addr.toNat < 2 ^ 18) :
    (addr.setWidth 8).setWidth 32 ||| (((addr >>> 8).setWidth 8).setWidth 32 <<< 8) |||
      (((addr >>> 16).setWidth 8 &&& (3 : Byte)).setWidth 32 <<< 16) = addr := by
  apply BitVec.eq_of_getLsbD_eq
  intro i hi
  by_cases h18 : i < 18
  · interval_cases i <;> simp
  · have hlow : addr.getLsbD i = false :=
      Nat.testBit_lt_two_pow (haddr.trans_le (Nat.pow_le_pow_right (by decide) (by omega)))
    have hthree : (3#32).getLsbD (i - 16) = false :=
      Nat.testBit_lt_two_pow ((by decide : 3 < 2 ^ 2).trans_le
        (Nat.pow_le_pow_right (by decide) (by omega)))
    simp [hlow, hthree]
    omega

theorem word_of_lines (w : Word) :
    (lowByte w).setWidth 16 ||| ((highByte w).setWidth 16 <<< 8) = w := by
  apply BitVec.eq_of_getLsbD_eq
  intro i hi
  interval_cases i <;> simp [lowByte, highByte]

variable (s : Pru)

theorem drivenAddress_putAddress {addr : UInt} {control : Byte} (haddr : addr.toNat < 2 ^ 18)
    (hcontrol : control &&& 3 = 0) : (s.putAddress addr control).drivenAddress = addr := by
  have hlatch : (s.putAddress addr control).latch 4 &&& (3 : Byte) =
      (addr >>> 16).setWidth 8 &&& 3 :=
    setbits_address _ _ _ hcontrol
  rw [drivenAddress, hlatch]
  exact address_of_lines addr haddr

@[simp] theorem drivenAddress_putData (data : Word) :
    (s.putData data).drivenAddress = s.drivenAddress := rfl

/-- MSYN is on another line of the register. -/
@[simp] theorem drivenAddress_msyn :
    (s.setbits 4 (bit 4) (bit 4)).drivenAddress = s.drivenAddress := by
  have hlatch : (s.setbits 4 (bit 4) (bit 4)).latch 4 &&& 3 = s.latch 4 &&& 3 := by
    show QUniBone.setbits (s.latch 4) (bit 4) (bit 4) &&& 3 = _
    apply BitVec.eq_of_getLsbD_eq
    intro i hi
    interval_cases i <;> simp [QUniBone.setbits, bit]
  rw [drivenAddress, hlatch]
  rfl

@[simp] theorem drivenData_putData (data : Word) : (s.putData data).drivenData = data :=
  word_of_lines data

@[simp] theorem drivenData_msyn : (s.setbits 4 (bit 4) (bit 4)).drivenData = s.drivenData := rfl

end Pru

/-! ## Words at consecutive addresses -/

/-- The address of the `i`-th word. -/
def wordAddr (start : UInt) (i : ℕ) : UInt := start + BitVec.ofNat 32 (2 * i)

@[simp] theorem wordAddr_zero (start : UInt) : wordAddr start 0 = start := BitVec.add_zero start

theorem wordAddr_add (start : UInt) (i j : ℕ) :
    wordAddr (wordAddr start i) j = wordAddr start (i + j) := by
  simp only [wordAddr, BitVec.add_assoc, Nat.mul_add, BitVec.ofNat_add]

theorem wordAddr_succ (start : UInt) (i : ℕ) : wordAddr start i + 2 = wordAddr start (i + 1) :=
  wordAddr_add start i 1

theorem wordAddr_toNat {start : UInt} {i : ℕ} (h : start.toNat + 2 * i < 2 ^ 32) :
    (wordAddr start i).toNat = start.toNat + 2 * i := by
  rw [wordAddr, BitVec.toNat_add, BitVec.toNat_ofNat]
  omega

/-- Words to be moved, and the kind of cycle that moves them. -/
structure Block where
  start : UInt
  control : Byte
  count : ℕ

namespace Block

variable (b : Block)

def addr (i : ℕ) : UInt := wordAddr b.start i

/-- It lies within the address space of the bus. -/
def InSpace : Prop := b.start.toNat + 2 * b.count ≤ 2 ^ 18

/-- The cycles of the first `k` words. -/
def moved (words : ℕ → Word) (k : ℕ) : List BusCycle :=
  (List.range k).map fun i => ⟨b.addr i, b.control, some (words i)⟩

/-- The cycle of a word that nobody answers. -/
def unanswered (k : ℕ) : BusCycle := ⟨b.addr k, b.control, none⟩

/-- How a transfer may end: with which status, at which address, after which cycles. -/
inductive Ended (words : ℕ → Word) : Byte → UInt → List BusCycle → Prop
  | ready : Ended words dmaStateReady (b.addr (b.count - 1)) (b.moved words b.count)
  | timeout (k : ℕ) : k < b.count →
      Ended words dmaStateTimeoutstop (b.addr k) (b.moved words k ++ [b.unanswered k])
  | init (k : ℕ) : k + 1 < b.count →
      Ended words dmaStateInitstop (b.addr k) (b.moved words (k + 1))

theorem moved_succ (words : ℕ → Word) (k : ℕ) :
    b.moved words (k + 1) = b.moved words k ++ [⟨b.addr k, b.control, some (words k)⟩] := by
  rw [moved, List.range_succ, List.map_append]
  rfl

theorem moved_congr {words words' : ℕ → Word} {k : ℕ} (h : ∀ i < k, words i = words' i) :
    b.moved words k = b.moved words' k := by
  apply List.map_congr_left
  intro i hi
  rw [h i (List.mem_range.mp hi)]

variable {b}

theorem InSpace.addr_lt (hb : b.InSpace) {k : ℕ} (hk : k < b.count) :
    (b.addr k).toNat < 2 ^ 18 := by
  have hspace : b.start.toNat + 2 * b.count ≤ 2 ^ 18 := hb
  have hnat : (b.addr k).toNat = b.start.toNat + 2 * k := wordAddr_toNat (by omega)
  omega

/-! ## A transfer on the PRU -/

/-- The transfer is in the mailbox, with the words to be written, and no pattern is laid over the
addresses. -/
structure Posted (b : Block) (words : ℕ → Word) (s : Pru) : Prop where
  start : s.mailbox.dma.startaddr = b.start
  control : s.mailbox.dma.buscycle = b.control
  count : s.mailbox.dma.wordcount.toNat = b.count
  words : cycleIsDato b.control = true → ∀ i < b.count, s.mailbox.dma.words i = words i
  overlay : s.addressOverlay = 0

/-- The machine is at the `k`-th word. -/
structure Current (b : Block) (k : ℕ) (s : Pru) : Prop where
  lt : k < b.count
  curAddr : s.mailbox.dma.curAddr = b.addr k
  running : s.mailbox.dma.curStatus = dmaStateRunning
  dataptr : s.dma.dataptr = k
  left : s.dma.curWordsleft.toNat = b.count - k

/-- How far the machine is in front of a call in state `st`, after the cycles `cs`. -/
def At (b : Block) (cs : List BusCycle) (st : DmaState) (s : Pru) : Prop :=
  match st with
  | .start => cs = []
  | .state1 => ∃ k, b.Current k s ∧ cs = b.moved s.mailbox.dma.words k
  | .state11 => ∃ k, b.Current k s ∧ cs = b.moved s.mailbox.dma.words k ∧
      cycleIsDato b.control = false ∧ s.drivenAddress = b.addr k
  | .state21 => ∃ k, b.Current k s ∧ cs = b.moved s.mailbox.dma.words k ∧
      cycleIsDato b.control = true ∧ s.drivenAddress = b.addr k ∧
      s.drivenData = s.mailbox.dma.words k
  | .state99 => ∃ k, b.Current k s ∧
      cs = if s.dma.stateTimeout then b.moved s.mailbox.dma.words k ++ [b.unanswered k]
        else b.moved s.mailbox.dma.words (k + 1)

/-- What a transfer that has stopped leaves in the mailbox. -/
def Left (b : Block) (cs : List BusCycle) (s : Pru) : Prop :=
  b.Ended s.mailbox.dma.words s.mailbox.dma.curStatus s.mailbox.dma.curAddr cs

/-- After a call that goes on in `next`, or has stopped: then there is an event for ARM. -/
def After (b : Block) (words : ℕ → Word) (event : Event) (cs : List BusCycle)
    (next : Option DmaState) (s : Pru) : Prop :=
  b.Posted words s ∧
    match next with
    | some st => b.At cs st s ∧ s.mailbox.events.dma = event
    | none => b.Left cs s ∧ s.mailbox.events.dma = event.signal

end Block

namespace Pru

/-- The mailbox, the overlay and the registers of the machine. -/
structure Board where
  mailbox : Mailbox
  addressOverlay : UInt
  sm : SmDma

def board (s : Pru) : Board := ⟨s.mailbox, s.addressOverlay, s.dma⟩

section Board

variable (s : Pru)

@[simp] theorem board_setbits (reg : ℕ) (mask val : Byte) :
    (s.setbits reg mask val).board = s.board := rfl

@[simp] theorem board_setbyte (reg : ℕ) (val : Byte) : (s.setbyte reg val).board = s.board := rfl

@[simp] theorem board_putAddress (addr : UInt) (control : Byte) :
    (s.putAddress addr control).board = s.board := rfl

@[simp] theorem board_putData (data : Word) : (s.putData data).board = s.board := rfl

@[simp] theorem board_setDmaTimeout : s.setDmaTimeout.board = s.board := rfl

@[simp] theorem board_withEmulation (e : Emulation) : (s.withEmulation e).board = s.board := rfl

/-- The word at the data pointer is replaced. -/
def Board.setWord (d : Board) (w : Word) : Board :=
  { d with mailbox := { d.mailbox with dma := { d.mailbox.dma with
    words := Function.update d.mailbox.dma.words d.sm.dataptr w } } }

@[simp] theorem board_setDmaWord (w : Word) : (s.setDmaWord w).board = s.board.setWord w := rfl

@[simp] theorem board_answerInternally : s.answerInternally.board = s.board := by
  simp only [answerInternally, board_setbits, board_putData]

/-- The end of a transfer: status and event. -/
theorem finishDma_board (status : Byte) :
    (s.finishDma status).board = { s.board with mailbox := { s.mailbox with
      dma := { s.mailbox.dma with curStatus := status }
      events := { s.mailbox.events with dma := s.mailbox.events.dma.signal } } } := by
  simp only [finishDma]
  generalize ht : (((s.setbyte 2 0).setbyte 3 0).setbits 4 0x3f 0).setbits 1 (bit 6) 0 = t
  have hboard : t.board = s.board := by
    rw [← ht]
    simp only [board_setbits, board_setbyte]
  have hmailbox : t.mailbox = s.mailbox := congrArg Board.mailbox hboard
  rw [← hmailbox, ← hboard]
  rfl

end Board

end Pru

namespace Block

open Pru

variable {b : Block} {words : ℕ → Word} {cs : List BusCycle} {l : Lines} {s t : Pru}

theorem Posted.of_board (h : b.Posted words s) (hboard : t.board = s.board) :
    b.Posted words t := by
  have hmailbox : t.mailbox = s.mailbox := congrArg Board.mailbox hboard
  exact ⟨by rw [hmailbox]; exact h.start, by rw [hmailbox]; exact h.control,
    by rw [hmailbox]; exact h.count, by rw [hmailbox]; exact h.words,
    (congrArg Board.addressOverlay hboard).trans h.overlay⟩

theorem Current.of_board {k : ℕ} (h : b.Current k s) (hboard : t.board = s.board) :
    b.Current k t := by
  have hmailbox : t.mailbox = s.mailbox := congrArg Board.mailbox hboard
  have hsm : t.dma = s.dma := congrArg Board.sm hboard
  exact ⟨h.lt, by rw [hmailbox]; exact h.curAddr, by rw [hmailbox]; exact h.running,
    by rw [hsm]; exact h.dataptr, by rw [hsm]; exact h.left⟩

/-- Memory and timers do not matter. -/
theorem At.of_board {st : DmaState} (h : b.At cs st s) (hboard : t.board = s.board)
    (hlatch : t.latch = s.latch) : b.At cs st t := by
  have hmailbox : t.mailbox = s.mailbox := congrArg Board.mailbox hboard
  have hsm : t.dma = s.dma := congrArg Board.sm hboard
  have haddress : t.drivenAddress = s.drivenAddress := by rw [drivenAddress, hlatch, drivenAddress]
  have hlines : t.drivenData = s.drivenData := by rw [drivenData, hlatch, drivenData]
  cases st with
  | start => exact h
  | state1 =>
    obtain ⟨k, hk, hcs⟩ := h
    exact ⟨k, hk.of_board hboard, by rw [hmailbox]; exact hcs⟩
  | state11 =>
    obtain ⟨k, hk, hcs, hcycle, haddr⟩ := h
    exact ⟨k, hk.of_board hboard, by rw [hmailbox]; exact hcs, hcycle, haddress.trans haddr⟩
  | state21 =>
    obtain ⟨k, hk, hcs, hcycle, haddr, hdata⟩ := h
    exact ⟨k, hk.of_board hboard, by rw [hmailbox]; exact hcs, hcycle, haddress.trans haddr,
      by rw [hmailbox]; exact hlines.trans hdata⟩
  | state99 =>
    obtain ⟨k, hk, hcs⟩ := h
    exact ⟨k, hk.of_board hboard, by rw [hmailbox, hsm]; exact hcs⟩

theorem Left.of_board (h : b.Left cs s) (hboard : t.board = s.board) : b.Left cs t := by
  rw [Left, show t.mailbox = s.mailbox from congrArg Board.mailbox hboard]
  exact h

/-- The address on the bus, while nothing is laid over it. -/
theorem Current.busAddr {k : ℕ} (h : b.Current k s) (hoverlay : s.addressOverlay = 0) :
    s.busAddr = b.addr k := by
  rw [Pru.busAddr, hoverlay, h.curAddr]
  exact BitVec.or_zero

theorem smDmaStart_after (hp : b.Posted words s) (hcount : 0 < b.count) :
    b.After words s.mailbox.events.dma [] s.smDmaStart.1 s.smDmaStart.2 := by
  refine ⟨⟨hp.start, hp.control, hp.count, hp.words, hp.overlay⟩,
    ⟨0, ⟨hcount, ?_, rfl, rfl, ?_⟩, rfl⟩, rfl⟩
  · exact hp.start.trans (wordAddr_zero b.start).symm
  · exact hp.count.trans (Nat.sub_zero _).symm

/-- What does not touch the board keeps all but the cycles and the lines. -/
theorem event_of_board (hboard : t.board = s.board) :
    t.mailbox.events.dma = s.mailbox.events.dma :=
  congrArg (fun board => board.mailbox.events.dma) hboard

theorem words_of_board (hboard : t.board = s.board) :
    t.mailbox.dma.words = s.mailbox.dma.words :=
  congrArg (fun board => board.mailbox.dma.words) hboard

/-- A word is moved: on to the check for the last one. -/
theorem after_moved {k : ℕ} (hp : b.Posted words t) (hk : b.Current k t)
    (hto : t.dma.stateTimeout = false)
    (hcs : cs = b.moved t.mailbox.dma.words k ++
      [⟨b.addr k, b.control, some (t.mailbox.dma.words k)⟩]) :
    b.After words t.mailbox.events.dma cs (some .state99) t := by
  refine ⟨hp, ⟨k, hk, ?_⟩, rfl⟩
  rw [hto, hcs]
  exact (b.moved_succ _ k).symm

/-- DATO: the word goes onto the bus with its address. -/
theorem smDmaWrite_after {k : ℕ} (hp : b.Posted words s) (hk : b.Current k s)
    (hspace : b.InSpace)
    (hcycle : cycleIsDato b.control = true) (hto : s.dma.stateTimeout = false) :
    b.After words s.mailbox.events.dma
      (b.moved s.mailbox.dma.words k ++ s.cyclesIn l .state1) s.smDmaWrite.1 s.smDmaWrite.2 := by
  have haddr := hk.busAddr hp.overlay
  have hdata : s.dmaWord = s.mailbox.dma.words k := by rw [dmaWord, hk.dataptr]
  simp only [smDmaWrite, cyclesIn, haddr, hp.control, hdata]
  generalize hcontrol : (if (b.control == cycleDatob) = true then bit 3 ||| bit 2 else bit 3) =
    control
  have hlow : control &&& 3 = 0 := by
    rw [← hcontrol]
    split_ifs
    all_goals decide
  generalize ht : ((s.putAddress (b.addr k) control).putData (s.mailbox.dma.words k)).setbits 4
    (bit 4) (bit 4) = t
  have hboard : t.board = s.board := by
    rw [← ht]
    simp only [board_setbits, board_putData, board_putAddress]
  have haddress : t.drivenAddress = b.addr k := by
    rw [← ht, drivenAddress_msyn, drivenAddress_putData,
      drivenAddress_putAddress s (hspace.addr_lt hk.lt) hlow]
  have hlines : t.drivenData = s.mailbox.dma.words k := by
    rw [← ht, drivenData_msyn, drivenData_putData]
  have hchannel : t.channel = s.channel := by
    rw [← ht]
    simp only [channel_setbits, channel_putData, channel_putAddress]
  rw [show t.emulation = s.emulation from congrArg Channel.emulation hchannel]
  obtain ⟨answer, hanswer⟩ : ∃ answer : Bool × Emulation, answer =
    if b.control == cycleDatob then emulatedAddrWriteB s.emulation (b.addr k)
      (if (b.addr k).getLsbD 0 then highByte (s.mailbox.dma.words k)
        else lowByte (s.mailbox.dma.words k))
    else emulatedAddrWriteW s.emulation (b.addr k) (s.mailbox.dma.words k) := ⟨_, rfl⟩
  rw [internalCycle, if_pos hcycle, ← hanswer]
  cases hhit : answer.1 with
  | true =>
    -- A slave of this board: the cycle is over.
    simp only [hhit, if_true]
    have hfinal : ((t.withEmulation answer.2).answerInternally).board = s.board := by
      rw [board_answerInternally, board_withEmulation, hboard]
    generalize (t.withEmulation answer.2).answerInternally = u at hfinal ⊢
    rw [← event_of_board hfinal, ← words_of_board hfinal]
    exact after_moved (hp.of_board hfinal) (hk.of_board hfinal)
      ((congrArg (fun board => board.sm.stateTimeout) hfinal).trans hto) rfl
  | false =>
    simp only [hhit, Bool.false_eq_true, if_false, List.append_nil]
    have hfinal : ((t.withEmulation answer.2).setDmaTimeout).board = s.board := by
      rw [board_setDmaTimeout, board_withEmulation, hboard]
    refine ⟨hp.of_board hfinal, ⟨k, hk.of_board hfinal, ?_, hcycle, haddress, ?_⟩,
      event_of_board hfinal⟩
    · rw [words_of_board hfinal]
    · rw [words_of_board hfinal]
      exact hlines

/-- A word is read: those before it are as they were. -/
theorem after_read {k : ℕ} {data : Word} (hp : b.Posted words s) (hk : b.Current k s)
    (hcycle : cycleIsDato b.control = false) (ht : t.board = s.board.setWord data) :
    b.Posted words t ∧ b.Current k t ∧ t.mailbox.dma.words k = data ∧
      t.mailbox.events.dma = s.mailbox.events.dma ∧
      b.moved t.mailbox.dma.words k = b.moved s.mailbox.dma.words k := by
  have hmailbox : t.mailbox = { s.mailbox with dma := { s.mailbox.dma with
      words := Function.update s.mailbox.dma.words k data } } := by
    rw [← hk.dataptr]
    exact congrArg Board.mailbox ht
  have hsm : t.dma = s.dma := congrArg Board.sm ht
  refine ⟨⟨?_, ?_, ?_, fun h => ?_, ?_⟩, ⟨hk.lt, ?_, ?_, ?_, ?_⟩, ?_, ?_, ?_⟩
  · rw [hmailbox]
    exact hp.start
  · rw [hmailbox]
    exact hp.control
  · rw [hmailbox]
    exact hp.count
  · rw [hcycle] at h
    cases h
  · exact (congrArg Board.addressOverlay ht).trans hp.overlay
  · rw [hmailbox]
    exact hk.curAddr
  · rw [hmailbox]
    exact hk.running
  · rw [hsm]
    exact hk.dataptr
  · rw [hsm]
    exact hk.left
  · rw [hmailbox]
    exact Function.update_self ..
  · rw [hmailbox]
  · rw [hmailbox]
    exact b.moved_congr fun i hi => Function.update_of_ne hi.ne ..

/-- DATI: the address goes onto the bus. -/
theorem smDmaRead_after {k : ℕ} (hp : b.Posted words s) (hk : b.Current k s)
    (hspace : b.InSpace)
    (hcycle : cycleIsDato b.control = false) (hto : s.dma.stateTimeout = false) :
    b.After words s.mailbox.events.dma
      (b.moved s.mailbox.dma.words k ++ s.cyclesIn l .state1) s.smDmaRead.1 s.smDmaRead.2 := by
  have haddr := hk.busAddr hp.overlay
  simp only [smDmaRead, cyclesIn, haddr, hp.control]
  generalize ht : (s.putAddress (b.addr k) 0).setbits 4 (bit 4) (bit 4) = t
  have hboard : t.board = s.board := by
    rw [← ht]
    simp only [board_setbits, board_putAddress]
  have haddress : t.drivenAddress = b.addr k := by
    rw [← ht, drivenAddress_msyn,
      drivenAddress_putAddress s (hspace.addr_lt hk.lt) (by decide)]
  have hchannel : t.channel = s.channel := by
    rw [← ht]
    simp only [channel_setbits, channel_putAddress]
  rw [show t.emulation = s.emulation from congrArg Channel.emulation hchannel, internalCycle,
    hcycle, if_neg Bool.false_ne_true]
  cases hanswer : (emulatedAddrRead s.emulation (b.addr k)).1 with
  | some data =>
    simp only
    have hfinal : ((((t.withEmulation (emulatedAddrRead s.emulation (b.addr k)).2).putData
        data).setDmaWord data).answerInternally).board = s.board.setWord data := by
      rw [board_answerInternally, board_setDmaWord, board_putData, board_withEmulation, hboard]
    generalize Pru.answerInternally _ = u at hfinal ⊢
    obtain ⟨hposted, hcurrent, hword, hevent, hmoved⟩ := after_read hp hk hcycle hfinal
    rw [← hevent, ← hmoved, ← hword]
    exact after_moved hposted hcurrent
      ((congrArg (fun board => board.sm.stateTimeout) hfinal).trans hto) rfl
  | none =>
    simp only [List.append_nil]
    have hfinal : ((t.withEmulation
        (emulatedAddrRead s.emulation (b.addr k)).2).setDmaTimeout).board = s.board := by
      rw [board_setDmaTimeout, board_withEmulation, hboard]
    refine ⟨hp.of_board hfinal, ⟨k, hk.of_board hfinal, ?_, hcycle, haddress⟩,
      event_of_board hfinal⟩
    rw [words_of_board hfinal]

theorem smDmaState1_after (hp : b.Posted words s) (h : b.At cs .state1 s)
    (hspace : b.InSpace) :
    b.After words s.mailbox.events.dma (cs ++ s.cyclesIn l .state1) s.smDmaState1.1
      s.smDmaState1.2 := by
  obtain ⟨k, hk, rfl⟩ := h
  have hcount : s.mailbox.dma.wordcount ≠ 0 := by
    intro hzero
    have hempty : 0 = b.count := by
      rw [← hp.count, hzero]
      rfl
    exact absurd hk.lt (by omega)
  have hrun : ¬ (s.mailbox.dma.curStatus ≠ dmaStateRunning ∨ s.mailbox.dma.wordcount = 0) :=
    not_or.mpr ⟨not_not.mpr hk.running, hcount⟩
  -- SACK is on a line of its own, and the timeout is forgotten.
  obtain ⟨u, hu⟩ : ∃ u : Pru, u = { (if s.dma.curWordsleft = 1 then s.setbits 1 (bit 5) 0 else s)
    with dma := { s.dma with stateTimeout := false } } := ⟨_, rfl⟩
  have hmailbox : u.mailbox = s.mailbox := by
    rw [hu]
    split_ifs
    all_goals rfl
  have hemulation : u.emulation = s.emulation := by
    rw [hu]
    split_ifs
    all_goals rfl
  have hoverlay' : u.addressOverlay = s.addressOverlay := by
    rw [hu]
    split_ifs
    all_goals rfl
  have hsm : u.dma = { s.dma with stateTimeout := false } := by rw [hu]
  have hp' : b.Posted words u := ⟨by rw [hmailbox]; exact hp.start,
    by rw [hmailbox]; exact hp.control, by rw [hmailbox]; exact hp.count,
    by rw [hmailbox]; exact hp.words, hoverlay'.trans hp.overlay⟩
  have hk' : b.Current k u := ⟨hk.lt, by rw [hmailbox]; exact hk.curAddr,
    by rw [hmailbox]; exact hk.running, by rw [hsm]; exact hk.dataptr, by rw [hsm]; exact hk.left⟩
  have hto : u.dma.stateTimeout = false := by rw [hsm]
  have hcycles : s.cyclesIn l .state1 = u.cyclesIn l .state1 := by
    simp only [cyclesIn, busAddr, dmaWord, hmailbox, hemulation, hoverlay', hsm]
  have hstep : smDmaState1 s =
      if cycleIsDato u.mailbox.dma.buscycle then u.smDmaWrite else u.smDmaRead := by
    rw [smDmaState1, if_neg hrun, hu]
    by_cases hlast : s.dma.curWordsleft = 1
    · simp only [if_pos hlast]
      rfl
    · simp only [if_neg hlast]
  rw [hstep, hcycles, ← hmailbox, hp'.control]
  cases hdato : cycleIsDato b.control with
  | true => exact smDmaWrite_after hp' hk' hspace hdato hto
  | false => exact smDmaRead_after hp' hk' hspace hdato hto

/-- The timer is polled, and nothing else. -/
theorem polled {k : ℕ} (hp : b.Posted words s) (hk : b.Current k s) :
    b.Posted words s.pollDmaTimeout ∧ b.Current k s.pollDmaTimeout :=
  ⟨⟨hp.start, hp.control, hp.count, hp.words, hp.overlay⟩,
    ⟨hk.lt, hk.curAddr, hk.running, hk.dataptr, hk.left⟩⟩

/-- No SSYN, and the time is not over. -/
theorem cycleWaited_nil (hwait : s.pollDmaTimeout.dma.stateTimeout = false ∧
    (l 4 0).getLsbD 5 = false) (word : Word) : s.cycleWaited l word = [] := by
  have hreached : s.timeouts.reached .dma = false := hwait.1
  have hssyn : ssyn l = false := hwait.2
  rw [cycleWaited, hreached, hssyn]
  rfl

/-- A cycle that is over has moved its word, or has timed out. -/
theorem cycleWaited_eq {k : ℕ} (hp : b.Posted words s) (haddr : s.drivenAddress = b.addr k)
    (hover : ¬ (s.pollDmaTimeout.dma.stateTimeout = false ∧ (l 4 0).getLsbD 5 = false))
    (word : Word) : s.cycleWaited l word =
      [if s.pollDmaTimeout.dma.stateTimeout then b.unanswered k
        else ⟨b.addr k, b.control, some word⟩] := by
  show (if s.timeouts.reached .dma then _ else _) = _
  rw [haddr, hp.control]
  cases hreached : s.timeouts.reached .dma with
  | true =>
    rw [if_pos rfl, if_pos (show s.pollDmaTimeout.dma.stateTimeout = true from hreached)]
    rfl
  | false =>
    have hnot : s.pollDmaTimeout.dma.stateTimeout = false := hreached
    have hssyn : ssyn l = true := by
      rw [hnot] at hover
      simpa [ssyn] using hover
    rw [hnot, if_neg Bool.false_ne_true, if_neg Bool.false_ne_true, if_pos hssyn]

/-- The check for the last word follows, whether the word was moved or not. -/
theorem after_waited {k : ℕ} {event : Event} (hp : b.Posted words t) (hk : b.Current k t)
    (hevent : t.mailbox.events.dma = event)
    (hcs : cs = b.moved t.mailbox.dma.words k ++
      [if t.dma.stateTimeout then b.unanswered k
        else ⟨b.addr k, b.control, some (t.mailbox.dma.words k)⟩]) :
    b.After words event cs (some .state99) t := by
  refine ⟨hp, ⟨k, hk, ?_⟩, hevent⟩
  rw [hcs]
  cases t.dma.stateTimeout with
  | true => rfl
  | false => exact (b.moved_succ _ k).symm

theorem smDmaState11_after (hp : b.Posted words s) (h : b.At cs .state11 s) :
    b.After words s.mailbox.events.dma (cs ++ s.cyclesIn l .state11) (s.smDmaState11 l).1
      (s.smDmaState11 l).2 := by
  obtain ⟨k, hk, rfl, hcycle, haddr⟩ := h
  obtain ⟨hp', hk'⟩ := polled hp hk
  simp only [smDmaState11, cyclesIn]
  by_cases hwait : s.pollDmaTimeout.dma.stateTimeout = false ∧ (l 4 0).getLsbD 5 = false
  · rw [if_pos hwait, cycleWaited_nil hwait, List.append_nil]
    exact ⟨hp', ⟨k, hk', rfl, hcycle, haddr⟩, rfl⟩
  · rw [if_neg hwait, cycleWaited_eq hp haddr hwait]
    have hfinal : ((s.pollDmaTimeout.setDmaWord (dataIn l)).setbits 4 (bit 4) 0).board =
        s.pollDmaTimeout.board.setWord (dataIn l) := by
      rw [board_setbits, board_setDmaWord]
    show b.After _ _ _ (some .state99)
      ((s.pollDmaTimeout.setDmaWord (dataIn l)).setbits 4 (bit 4) 0)
    generalize Pru.setbits _ 4 (bit 4) 0 = t at hfinal ⊢
    obtain ⟨hposted, hcurrent, hword, hevent, hmoved⟩ := after_read hp' hk' hcycle hfinal
    refine after_waited hposted hcurrent hevent ?_
    rw [hmoved, hword, show t.dma.stateTimeout = s.pollDmaTimeout.dma.stateTimeout from
      congrArg (fun board => board.sm.stateTimeout) hfinal]
    rfl

theorem smDmaState21_after (hp : b.Posted words s) (h : b.At cs .state21 s) :
    b.After words s.mailbox.events.dma (cs ++ s.cyclesIn l .state21) (s.smDmaState21 l).1
      (s.smDmaState21 l).2 := by
  obtain ⟨k, hk, rfl, hcycle, haddr, hlines⟩ := h
  obtain ⟨hp', hk'⟩ := polled hp hk
  simp only [smDmaState21, cyclesIn]
  by_cases hwait : s.pollDmaTimeout.dma.stateTimeout = false ∧ (l 4 0).getLsbD 5 = false
  · rw [if_pos hwait, cycleWaited_nil hwait, List.append_nil]
    exact ⟨hp', ⟨k, hk', rfl, hcycle, haddr, hlines⟩, rfl⟩
  · rw [if_neg hwait, cycleWaited_eq hp haddr hwait, hlines]
    have hfinal : ((s.pollDmaTimeout.setbits 4 (bit 4) 0).putData 0).board =
        s.pollDmaTimeout.board := by
      rw [board_putData, board_setbits]
    generalize Pru.putData _ 0 = t at hfinal ⊢
    have hevent : t.mailbox.events.dma = s.pollDmaTimeout.mailbox.events.dma :=
      event_of_board hfinal
    refine after_waited (hp'.of_board hfinal) (hk'.of_board hfinal) hevent ?_
    rw [words_of_board hfinal, show t.dma.stateTimeout = s.pollDmaTimeout.dma.stateTimeout from
      congrArg (fun board => board.sm.stateTimeout) hfinal]
    rfl

/-- A transfer stops: what it leaves, from the state before the lines are released. -/
theorem after_finish {status : Byte} (hp : b.Posted words s)
    (hended : b.Ended s.mailbox.dma.words status s.mailbox.dma.curAddr cs) :
    b.After words s.mailbox.events.dma cs none (s.finishDma status) := by
  have hmailbox := congrArg Board.mailbox (finishDma_board s status)
  replace hmailbox : (s.finishDma status).mailbox = { s.mailbox with
      dma := { s.mailbox.dma with curStatus := status }
      events := { s.mailbox.events with dma := s.mailbox.events.dma.signal } } := hmailbox
  have hoverlay : (s.finishDma status).addressOverlay = s.addressOverlay :=
    congrArg Board.addressOverlay (finishDma_board s status)
  refine ⟨⟨?_, ?_, ?_, ?_, hoverlay.trans hp.overlay⟩, ?_, ?_⟩
  · rw [hmailbox]
    exact hp.start
  · rw [hmailbox]
    exact hp.control
  · rw [hmailbox]
    exact hp.count
  · rw [hmailbox]
    exact hp.words
  · rw [Left, hmailbox]
    exact hended
  · rw [hmailbox]

/-- A word is moved or has timed out: the transfer stops here, or goes on with the next word. -/
theorem smDmaState99_after (hp : b.Posted words s) (h : b.At cs .state99 s)
    (hcount : b.count < 2 ^ 16) :
    b.After words s.mailbox.events.dma (cs ++ s.cyclesIn l .state99) (s.smDmaState99 l).1
      (s.smDmaState99 l).2 := by
  obtain ⟨k, hk, rfl⟩ := h
  have hlt := hk.lt
  rw [cyclesIn, List.append_nil]
  cases hto : s.dma.stateTimeout with
  | true =>
    simp only [smDmaState99, hto, if_true]
    have hboard : (s.setbits 1 (bit 5) 0).board = s.board := board_setbits ..
    rw [← event_of_board hboard]
    refine after_finish (hp.of_board hboard) ?_
    rw [words_of_board hboard, (hk.of_board hboard).curAddr]
    exact .timeout k hlt
  | false =>
    simp only [smDmaState99, hto, Bool.false_eq_true, if_false]
    obtain ⟨t, ht⟩ : ∃ t : Pru, t = { s with
      dma := ⟨false, s.dma.dataptr + 1, s.dma.curWordsleft - 1⟩ } := ⟨_, rfl⟩
    rw [← ht]
    have hp' : b.Posted words t := by
      rw [ht]
      exact ⟨hp.start, hp.control, hp.count, hp.words, hp.overlay⟩
    have hmailbox : t.mailbox = s.mailbox := by rw [ht]
    have hleft : t.dma.curWordsleft.toNat = b.count - (k + 1) := by
      rw [ht]
      show (s.dma.curWordsleft - 1).toNat = _
      have hnow := hk.left
      have hone : (1 : QUniBone.Word).toNat = 1 := rfl
      rw [BitVec.toNat_sub, hone]
      omega
    have hdone : s.dma.curWordsleft - 1 = 0 ↔ b.count = k + 1 := by
      rw [← BitVec.toNat_inj, show s.dma.curWordsleft - 1 = t.dma.curWordsleft by rw [ht], hleft]
      show _ = 0 ↔ _
      omega
    rw [← hmailbox]
    split_ifs with hlast hinit
    · -- the last word
      have hcount' := hdone.mp hlast
      refine after_finish hp' ?_
      rw [hmailbox, hk.curAddr, ← hcount', show k = b.count - 1 by omega]
      exact .ready
    · -- INIT stops it.
      have hmore : k + 1 < b.count := by
        have hne := mt hdone.mpr hlast
        omega
      have hboard : (t.setbits 1 (bit 5) 0).board = t.board := board_setbits ..
      rw [← event_of_board hboard]
      refine after_finish (hp'.of_board hboard) ?_
      rw [words_of_board hboard, show (t.setbits 1 (bit 5) 0).mailbox = t.mailbox from rfl,
        hmailbox, hk.curAddr]
      exact .init k hmore
    · -- the next word
      have hmore : k + 1 < b.count := by
        have hne := mt hdone.mpr hlast
        omega
      refine ⟨⟨hp'.start, hp'.control, hp'.count, hp'.words, hp'.overlay⟩,
        ⟨k + 1, ⟨hmore, ?_, ?_, ?_, hleft⟩, ?_⟩, rfl⟩
      · show t.mailbox.dma.curAddr + 2 = _
        rw [hmailbox, hk.curAddr]
        exact wordAddr_succ b.start k
      · show t.mailbox.dma.curStatus = _
        rw [hmailbox, hk.running]
      · rw [ht]
        exact congrArg (· + 1) hk.dataptr
      · rfl

/-- One call. The words are within the address space, and no overlay is set. -/
theorem smDma_after {st : DmaState} (hp : b.Posted words s) (h : b.At cs st s)
    (hspace : b.InSpace) (hpositive : 0 < b.count) (hcount : b.count < 2 ^ 16) :
    b.After words s.mailbox.events.dma (cs ++ s.cyclesIn l st) (s.smDma l st).1
      (s.smDma l st).2 := by
  cases st with
  | start =>
    obtain rfl : cs = [] := h
    exact smDmaStart_after hp hpositive
  | state1 => exact smDmaState1_after hp h hspace
  | state11 => exact smDmaState11_after hp h
  | state21 => exact smDmaState21_after hp h
  | state99 => exact smDmaState99_after hp h hcount

/-! ## Consecutive transfers -/

/-- `count` of the words, from the `k`-th on. -/
def part (b : Block) (k count : ℕ) : Block := ⟨b.addr k, b.control, count⟩

theorem part_addr (b : Block) (k count i : ℕ) : (b.part k count).addr i = b.addr (k + i) :=
  wordAddr_add b.start k i

theorem moved_part (b : Block) (words : ℕ → Word) (k count j : ℕ) :
    b.moved words (k + j) =
      b.moved words k ++ (b.part k count).moved (fun i => words (k + i)) j := by
  induction j with
  | zero => exact (List.append_nil _).symm
  | succ j ih =>
    rw [← Nat.add_assoc, moved_succ, ih, moved_succ, part_addr, List.append_assoc]
    rfl

theorem InSpace.part (hspace : b.InSpace) {k count : ℕ} (h : k + count ≤ b.count) :
    (b.part k count).InSpace := by
  have hbound : b.start.toNat + 2 * b.count ≤ 2 ^ 18 := hspace
  show (b.addr k).toNat + 2 * count ≤ 2 ^ 18
  rw [Block.addr, wordAddr_toNat (by omega)]
  omega

/-- What the end of a part is for the whole, when `words` are in the buffer then. -/
theorem Ended.of_part {b : Block} {k count : ℕ} {old new words : ℕ → Word} {status : Byte}
    {addr : UInt} {cs : List BusCycle} (h : (b.part k count).Ended new status addr cs)
    (hcount : k + count ≤ b.count) (hpositive : 0 < count)
    (hmoved : ∀ j ≤ count, b.moved old k ++ (b.part k count).moved new j = b.moved words (k + j)) :
    (∃ j < b.count, addr = b.addr j) ∧
      (status = dmaStateReady ∧ addr = b.addr (k + count - 1) ∧
          b.moved old k ++ cs = b.moved words (k + count) ∨
        status ≠ dmaStateReady ∧ b.Ended words status addr (b.moved old k ++ cs)) := by
  cases h with
  | ready =>
    have haddr : (b.part k count).addr ((b.part k count).count - 1) = b.addr (k + count - 1) := by
      rw [part_addr, Nat.add_sub_assoc hpositive]
      rfl
    exact ⟨⟨k + count - 1, by omega, haddr⟩, .inl ⟨rfl, haddr, hmoved count le_rfl⟩⟩
  | timeout j hj =>
    have hj' : j < count := hj
    have haddr := b.part_addr k count j
    have hlast : (b.part k count).unanswered j = b.unanswered (k + j) := by
      rw [unanswered, haddr]
      rfl
    refine ⟨⟨k + j, by omega, haddr⟩, .inr ⟨by decide, ?_⟩⟩
    rw [haddr, ← List.append_assoc, hmoved j hj'.le, hlast]
    exact .timeout (k + j) (by omega)
  | init j hj =>
    have hj' : j + 1 < count := hj
    have haddr := b.part_addr k count j
    refine ⟨⟨k + j, by omega, haddr⟩, .inr ⟨by decide, ?_⟩⟩
    rw [haddr, hmoved (j + 1) hj'.le, ← Nat.add_assoc]
    exact .init (k + j) (by omega)

end Block

/-! ## Any call -/

namespace Pru

theorem smDmaWrite_board (s : Pru) : s.smDmaWrite.2.board = s.board := by
  simp only [smDmaWrite]
  generalize ht : ((s.putAddress s.busAddr _).putData s.dmaWord).setbits 4 (bit 4) (bit 4) = t
  have hboard : t.board = s.board := by
    rw [← ht]
    simp only [board_setbits, board_putData, board_putAddress]
  split_ifs
  all_goals simp only [board_answerInternally, board_setDmaTimeout, board_withEmulation, hboard]

/-- A cycle of the processor or a device changes at most a word of the mailbox. -/
theorem smDmaRead_board (s : Pru) :
    s.smDmaRead.2.board = s.board ∨ ∃ data, s.smDmaRead.2.board = s.board.setWord data := by
  simp only [smDmaRead]
  generalize ht : (s.putAddress s.busAddr 0).setbits 4 (bit 4) (bit 4) = t
  have hboard : t.board = s.board := by
    rw [← ht]
    simp only [board_setbits, board_putAddress]
  split
  · rename_i data _
    refine .inr ⟨data, ?_⟩
    simp only [board_answerInternally, board_setDmaWord, board_putData, board_withEmulation, hboard]
  · left
    simp only [board_setDmaTimeout, board_withEmulation, hboard]

/-- A call never sets an overlay, and signals at most when the machine stops. -/
structure Signals (s : Pru) (next : Option DmaState) (t : Pru) : Prop where
  overlay : t.addressOverlay = s.addressOverlay
  event : t.mailbox.events.dma = s.mailbox.events.dma ∨
    next = none ∧ t.mailbox.events.dma = s.mailbox.events.dma.signal

theorem Signals.of_board {s t : Pru} {next : Option DmaState} (h : t.board = s.board) :
    Signals s next t :=
  ⟨congrArg Board.addressOverlay h, .inl (congrArg (fun board => board.mailbox.events.dma) h)⟩

theorem Signals.of_finish {s t : Pru} (h : t.board = s.board) (status : Byte) :
    Signals s none (t.finishDma status) := by
  have hfinish := finishDma_board t status
  refine ⟨?_, .inr ⟨rfl, ?_⟩⟩
  · rw [← show t.addressOverlay = s.addressOverlay from congrArg Board.addressOverlay h]
    exact congrArg Board.addressOverlay hfinish
  · rw [← show t.mailbox.events.dma = s.mailbox.events.dma from
      congrArg (fun board => board.mailbox.events.dma) h]
    exact congrArg (fun board => board.mailbox.events.dma) hfinish

/-- The registers of the machine do not matter. -/
theorem Signals.of_registers {s u t : Pru} {next : Option DmaState}
    (hmailbox : u.mailbox = s.mailbox) (hoverlay : u.addressOverlay = s.addressOverlay)
    (h : Signals u next t) : Signals s next t :=
  ⟨h.overlay.trans hoverlay, hmailbox ▸ h.event⟩

theorem smDmaState1_signals (s : Pru) : Signals s s.smDmaState1.1 s.smDmaState1.2 := by
  have hcycle : ∀ u : Pru, u.mailbox = s.mailbox → u.addressOverlay = s.addressOverlay →
      Signals s (if cycleIsDato u.mailbox.dma.buscycle then u.smDmaWrite else u.smDmaRead).1
        (if cycleIsDato u.mailbox.dma.buscycle then u.smDmaWrite else u.smDmaRead).2 := by
    intro u hmailbox hoverlay
    refine .of_registers hmailbox hoverlay ?_
    split
    · exact .of_board (smDmaWrite_board u)
    · rcases smDmaRead_board u with hboard | ⟨data, hboard⟩
      · exact .of_board hboard
      · exact ⟨congrArg Board.addressOverlay hboard,
          .inl (congrArg (fun board => board.mailbox.events.dma) hboard)⟩
  rw [smDmaState1]
  split
  · exact .of_board rfl
  · refine hcycle _ ?_ ?_
    all_goals
      split
      all_goals rfl

theorem smDma_signals (l : Lines) (s : Pru) (st : DmaState) :
    Signals s (s.smDma l st).1 (s.smDma l st).2 := by
  cases st with
  | start => exact ⟨rfl, .inl rfl⟩
  | state1 => exact smDmaState1_signals s
  | state11 =>
    show Signals s (s.smDmaState11 l).1 (s.smDmaState11 l).2
    rw [smDmaState11]
    split
    all_goals exact ⟨rfl, .inl rfl⟩
  | state21 =>
    show Signals s (s.smDmaState21 l).1 (s.smDmaState21 l).2
    rw [smDmaState21]
    split
    all_goals exact ⟨rfl, .inl rfl⟩
  | state99 =>
    show Signals s (s.smDmaState99 l).1 (s.smDmaState99 l).2
    rw [smDmaState99]
    dsimp only
    have hlast : ∀ (t : Pru) (status : Byte), t.mailbox = s.mailbox →
        t.addressOverlay = s.addressOverlay → Signals s none (t.finishDma status) :=
      fun t status hmailbox hoverlay => .of_registers hmailbox hoverlay (.of_finish rfl status)
    split
    · exact hlast _ _ rfl rfl
    split
    · exact hlast _ _ rfl rfl
    split
    · exact hlast _ _ rfl rfl
    · exact ⟨rfl, .inl rfl⟩

end Pru

end QUniBone.PruU
