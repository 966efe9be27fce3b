import QUniBone.Memory.Ddrmem
import QUniBone.PruU.SingleWord

/-!
# Direct memory access of an emulated CPU

`cpu.cpp`. With the option `direct_memory` the memory cycles of an emulated CPU work on the DDR
RAM, without a bus cycle. The bus path and the direct path are to give the same results.

* `Station`: what the access functions work on.
* `uniboneDati`, `uniboneDato`, `uniboneDatob`: the access functions.
* `Station.Proper`: the calls in question, `Station.Direct`: those the direct path gets right.
* `direct_memory_agrees`: runs of these calls are the same on both paths, and ARM and PRU agree
  about the range of the memory.
-/

namespace QUniBone

open QUnibusAdapter (AddrSpace)
open PruU (internalCycle cycleOutcome)

/-- The other stations on the bus: their answer to a cycle, and what becomes of them. -/
abbrev Others (ε : Type) := ε → Byte → UInt → Word → (Bool × Word) × ε

/-- What the cycles of the CPU work on. -/
structure Station (ε : Type) where
  /-- the option of the CPU -/
  directMemory : Bool
  ddrmem : DdrmemC
  emulation : Emulation
  /-- `address_overlay` of the PRU -/
  addressOverlay : UInt
  others : ε

namespace Station

variable {ε : Type}

def withDirect (s : Station ε) (direct : Bool) : Station ε := { s with directMemory := direct }

def withEmulation (s : Station ε) (e : Emulation) : Station ε := { s with emulation := e }

def withRam (s : Station ε) (m : Ddrmem) : Station ε :=
  s.withEmulation { s.emulation with ddrmem := m }

/-! ## Bus cycles -/

/-- `cpu_DATA_transfer` for one word, when no INIT interferes: the outcome and the word. -/
def cpuDataTransfer (w : Others ε) (s : Station ε) (buscycle : Byte) (addr : UInt) (data : Word) :
    (Bool × Word) × Station ε :=
  let addr := addr ||| s.addressOverlay
  let (internal, e) := internalCycle s.emulation buscycle addr data
  let (answer, o) := match internal with
    | some _ => ((false, 0), s.others)
    | none => w s.others buscycle addr data
  (cycleOutcome buscycle data internal answer, { s with emulation := e, others := o })

/-- `unibone_dato` -/
def uniboneDato (w : Others ε) (s : Station ε) (addr data : UInt) : Option (Bool × Station ε) :=
  if s.directMemory && decide (addr < unibus.iopageStartAddr) then do
    let m ← pmiDeposit unibus s.emulation.ddrmem addr (Word.ofUInt data)
    return (true, s.withRam m)
  else
    let ((success, _), s) := s.cpuDataTransfer w cycleDato addr (Word.ofUInt data)
    some (success, s)

/-- `unibone_datob` -/
def uniboneDatob (w : Others ε) (s : Station ε) (addr data : UInt) : Option (Bool × Station ε) :=
  if s.directMemory && decide (addr < unibus.iopageStartAddr) then do
    let wordAddress := addr &&& ~~~1
    let old ← pmiExam s.emulation.ddrmem wordAddress
    let new : Word :=
      if addr.getLsbD 0 then (old &&& 0xff) ||| (Word.ofUInt data &&& 0xff00)
      else (old &&& 0xff00) ||| (Word.ofUInt data &&& 0xff)
    let m ← pmiDeposit unibus s.emulation.ddrmem wordAddress new
    return (true, s.withRam m)
  else
    let ((success, _), s) := s.cpuDataTransfer w cycleDatob addr (Word.ofUInt data)
    some (success, s)

/-- `unibone_dati`: success and data. The overlay is applied to memory addresses only. -/
def uniboneDati (w : Others ε) (s : Station ε) (addr : UInt) :
    Option ((Bool × Word) × Station ε) := do
  let addr :=
    if s.directMemory && decide (addr < unibus.iopageStartAddr) then
      addr ||| s.ddrmem.pmiAddressOverlay
    else addr
  let rom ← if s.directMemory && !decide (addr < unibus.iopageStartAddr) then
    isRom unibus s.emulation.pages addr else some false
  if s.directMemory && (decide (addr < unibus.iopageStartAddr) || rom) then
    let data ← pmiExam s.emulation.ddrmem addr
    return ((true, data), s)
  else return s.cpuDataTransfer w cycleDati addr 0

end Station

namespace Station

variable {ε : Type}

/-- The DMA state machine of the PRU, started with the request of the CPU in the mailbox, ends
with this outcome, for some answer of the other stations. -/
theorem cpuDataTransfer_of_transfer (s : Station ε) (buscycle : Byte) (addr : UInt) (data : Word)
    {p t : PruU.Pru} (h : PruU.Pru.Transfer p .start t) (hemulation : p.emulation = s.emulation)
    (hoverlay : p.addressOverlay = s.addressOverlay) (hcycle : p.mailbox.dma.buscycle = buscycle)
    (hcount : p.mailbox.dma.wordcount = 1) (haddr : p.mailbox.dma.startaddr = addr)
    (hdata : p.mailbox.dma.words 0 = data) :
    ∃ answer : Bool × Word,
      (t.mailbox.dma.curStatus == PruU.dmaStateReady, t.mailbox.dma.words 0) =
        (s.cpuDataTransfer (fun o _ _ _ => (answer, o)) buscycle addr data).1 ∧
      t.emulation =
        (s.cpuDataTransfer (fun o _ _ _ => (answer, o)) buscycle addr data).2.emulation := by
  let r : PruU.Pru.Request := ⟨s.emulation, buscycle, addr, s.addressOverlay, data⟩
  obtain ⟨hresult, answer, hout⟩ : r.Done t.channel :=
    h.result ⟨hcycle, hcount, hoverlay⟩ ⟨hemulation, haddr, hdata⟩
  refine ⟨answer, ?_, hresult⟩
  refine Eq.trans hout ?_
  unfold cpuDataTransfer
  show cycleOutcome buscycle data r.internal.1 answer = _
  cases hinternal : r.internal.1 with
  | some word =>
    have hi : (internalCycle s.emulation buscycle (addr ||| s.addressOverlay) data).1 = some word :=
      hinternal
    simp only [hi, cycleOutcome]
  | none =>
    have hi : (internalCycle s.emulation buscycle (addr ||| s.addressOverlay) data).1 = none :=
      hinternal
    simp only [hi, cycleOutcome]

/-- A word that is written to the memory of another station -/
def posted : PruU.Pru :=
  { PruU.Pru.powerUp with
    mailbox := { PruU.Pru.powerUp.mailbox with
      dma := { PruU.Pru.powerUp.mailbox.dma with
        buscycle := cycleDato, startaddr := 0o1000, wordcount := 1, words := fun _ => 5 } } }

/-- SSYN is asserted. -/
def answering : PruU.Lines := fun reg _ => if reg = 4 then bit 5 else 0

theorem cpuDataTransfer_of_transfer_posted : ∃ t, PruU.Pru.Transfer posted .start t ∧
    ∃ answer : Bool × Word,
      (t.mailbox.dma.curStatus == PruU.dmaStateReady, t.mailbox.dma.words 0) =
        ((Station.mk false ⟨false, 0, 0, 0⟩ posted.emulation 0 ()).cpuDataTransfer
          (fun o _ _ _ => (answer, o)) cycleDato 0o1000 5).1 := by
  obtain ⟨t, ht⟩ : ∃ t, PruU.Pru.Transfer posted .start t :=
    ⟨_, .next answering 0 rfl (.next answering 0 rfl (.next answering 0 rfl
      (.last answering 0 rfl)))⟩
  obtain ⟨answer, hout, -⟩ := cpuDataTransfer_of_transfer
    (Station.mk false ⟨false, 0, 0, 0⟩ posted.emulation 0 ()) cycleDato 0o1000 5 ht rfl rfl rfl
    rfl rfl rfl
  exact ⟨t, ht, answer, hout⟩

end Station

/-! ## Calls -/

/-- The calls of the CPU, and what happens between them. -/
inductive Call
  | dati (addr : UInt)
  | dato (addr data : UInt)
  | datob (addr data : UInt)
  /-- `ddrmem_c::set_range` -/
  | setRange (startaddr endaddr : UInt)
  /-- `m9312_c::bootaddress_set` -/
  | bootaddressSet
  /-- `m9312_c::bootaddress_clear` -/
  | bootaddressClear
  /-- A device changes the value of one of its registers. -/
  | registerValue (handle : Handle) (value : Word)

/-- What a call returns: success, and data if there are any. -/
abbrev Answer := Bool × Option Word

/-- The pattern that the M9312 lays over the address lines: 773000. -/
def m9312Overlay : UInt := 0o773000

namespace Station

variable {ε : Type}

/-- `qunibus->set_address_overlay` and `ddrmem->set_pmi_address_overlay` -/
def setOverlay (s : Station ε) (overlay : UInt) : Station ε :=
  { s with
    addressOverlay := overlay
    ddrmem := { s.ddrmem with pmiAddressOverlay := overlay } }

def setRange (s : Station ε) (startaddr endaddr : UInt) : Bool × Station ε :=
  let (ok, d, pages) := DdrmemC.setRange unibus startaddr endaddr s.ddrmem s.emulation.pages
  (ok, { s with ddrmem := d, emulation := { s.emulation with pages := pages } })

def setRegister (s : Station ε) (handle : Handle) (value : Word) : Station ε :=
  let pages := s.emulation.pages
  s.withEmulation { s.emulation with pages := { pages with
    registers := Function.update pages.registers handle
      { pages.registers handle with value := value } } }

/-- One call. -/
def call (w : Others ε) (s : Station ε) : Call → Option (Answer × Station ε)
  | .dati addr => (s.uniboneDati w addr).map fun ((ok, data), s) => ((ok, some data), s)
  | .dato addr data => (s.uniboneDato w addr data).map fun (ok, s) => ((ok, none), s)
  | .datob addr data => (s.uniboneDatob w addr data).map fun (ok, s) => ((ok, none), s)
  | .setRange startaddr endaddr =>
    let (ok, s) := s.setRange startaddr endaddr
    some ((ok, none), s)
  | .bootaddressSet => some ((true, none), s.setOverlay m9312Overlay)
  | .bootaddressClear =>
    some ((true, none), if s.addressOverlay ≠ 0 then s.setOverlay 0 else s)
  | .registerValue handle value => some ((true, none), s.setRegister handle value)

/-- The answers to a sequence of calls, and the state behind it. -/
def run (w : Others ε) (s : Station ε) : List Call → Option (List Answer × Station ε)
  | [] => some ([], s)
  | c :: cs => do
    let (a, s) ← s.call w c
    let (as, s) ← run w s cs
    return (a :: as, s)

end Station

/-! ## Which calls agree -/

namespace Station

variable {ε : Type} {w : Others ε} {s : Station ε}

/-- The address is configured memory or lies in the IO page. -/
def Addressed (s : Station ε) (addr : UInt) : Prop :=
  s.emulation.isMemory addr = true ∨
    unibus.iopageStartAddr ≤ addr ∧ addr < unibus.addrSpaceByteCount

/-- A call of the CPU to such an address, even if it is for a word. -/
def Proper (s : Station ε) : Call → Prop
  | .dati addr => s.Addressed addr ∧ addr.getLsbD 0 = false
  | .dato addr _ => s.Addressed addr ∧ addr.getLsbD 0 = false
  | .datob addr _ => s.Addressed addr
  | _ => True

/-- The direct path uses the address that the bus has, and `set_range` does not refuse. -/
def Direct (s : Station ε) : Call → Prop
  | .dati addr =>
    isRom unibus s.emulation.pages addr = some true → addr ||| s.addressOverlay = addr
  | .dato addr _ => addr < unibus.iopageStartAddr → addr ||| s.addressOverlay = addr
  | .datob addr _ => addr < unibus.iopageStartAddr → addr ||| s.addressOverlay = addr
  | .setRange startaddr endaddr => Settable unibus startaddr endaddr
  | _ => True

/-- ARM and PRU know the same range and the same overlay. -/
structure Consistent (s : Station ε) : Prop where
  range : Agree unibus s.ddrmem s.emulation.pages
  iopage : s.emulation.pages.iopageStartAddr ≤ unibus.iopageStartAddr
  overlay : s.ddrmem.pmiAddressOverlay = s.addressOverlay
  pattern : s.addressOverlay = 0 ∨ s.addressOverlay = m9312Overlay

/-! ### Bus cycles here -/

theorem cpuDataTransfer_withDirect (direct : Bool) (buscycle : Byte) (addr : UInt) (data : Word) :
    (s.withDirect direct).cpuDataTransfer w buscycle addr data =
      ((s.cpuDataTransfer w buscycle addr data).1,
        (s.cpuDataTransfer w buscycle addr data).2.withDirect direct) := rfl

/-- The overlay on the bus makes one in the address superfluous. -/
theorem cpuDataTransfer_overlaid (buscycle : Byte) (addr : UInt) (data : Word) :
    s.cpuDataTransfer w buscycle (addr ||| s.addressOverlay) data =
      s.cpuDataTransfer w buscycle addr data := by
  unfold cpuDataTransfer
  rw [BitVec.or_assoc, BitVec.or_self]

theorem cpuDataTransfer_internal {buscycle : Byte} {addr : UInt} {data word : Word} {e : Emulation}
    (h : internalCycle s.emulation buscycle (addr ||| s.addressOverlay) data = (some word, e)) :
    s.cpuDataTransfer w buscycle addr data = ((true, word), s.withEmulation e) := by
  simp only [cpuDataTransfer, h]
  rfl

theorem internalCycle_dati {e : Emulation} {addr : UInt} (data : Word)
    (h : e.isMemory addr = true ∨ PruU.inIopage e addr = true ∧
      e.pages.registerHandles (entry addr) = handleRom) :
    internalCycle e cycleDati addr data = (some (e.ddrmem.getW addr), e) := by
  show PruU.emulatedAddrRead e addr = _
  unfold PruU.emulatedAddrRead Emulation.addrRead
  cases hm : e.isMemory addr with
  | true => rfl
  | false =>
    obtain hc | ⟨hio, hrom⟩ := h
    · exact absurd (hm.symm.trans hc) Bool.false_ne_true
    · simp only [hio, hrom, Bool.false_eq_true, if_false, if_true]
      rfl

theorem internalCycle_dato {e : Emulation} {addr : UInt} (data : Word)
    (h : e.isMemory addr = true) :
    internalCycle e cycleDato addr data =
      (some data, { e with ddrmem := e.ddrmem.setW addr data }) := by
  show (if (PruU.emulatedAddrWriteW e addr data).1 then some data else none,
    (PruU.emulatedAddrWriteW e addr data).2) = _
  rw [PruU.emulatedAddrWriteW, Emulation.addrWriteW, if_pos h]
  rfl

theorem highByte_shiftLeft (w : Word) : (PruU.highByte w).setWidth 16 <<< 8 = w &&& 0xff00 := by
  ext i hi
  simp only [PruU.highByte]
  interval_cases i <;> simp

theorem lowByte_setWidth (w : Word) : (PruU.lowByte w).setWidth 16 = w &&& 0xff := by
  ext i hi
  simp only [PruU.lowByte]
  interval_cases i <;> simp

/-- What `unibone_datob` makes of a word: the byte comes from the lane it belongs to. -/
def mergeByte (odd : Bool) (old data : Word) : Word :=
  if odd then (old &&& 0xff) ||| (data &&& 0xff00) else (old &&& 0xff00) ||| (data &&& 0xff)

/-- The read, merge and write of `unibone_datob`. -/
def storeByte (m : Ddrmem) (addr : UInt) (data : Word) : Ddrmem :=
  m.setW (addr &&& ~~~1) (mergeByte (addr.getLsbD 0) (m.getW (addr &&& ~~~1)) data)

/-- A byte write does the same. -/
theorem setB_eq_storeByte (m : Ddrmem) (addr : UInt) (data : Word) :
    m.setB addr (if addr.getLsbD 0 then PruU.highByte data else PruU.lowByte data) =
      storeByte m addr data := by
  have hword : (addr &&& ~~~1) >>> 1 = addr >>> 1 := by
    ext i hi
    simp only [BitVec.getElem_ushiftRight, BitVec.getLsbD_and, BitVec.getLsbD_not]
    by_cases hlast : 1 + i < 32
    · simp [hlast]
    · simp [BitVec.getLsbD_of_ge _ _ (Nat.le_of_not_lt hlast)]
  unfold storeByte Ddrmem.setB Ddrmem.setW Ddrmem.getW Ddrmem.withByte mergeByte
  rw [hword]
  cases addr.getLsbD 0 with
  | true =>
    simp only [if_true, highByte_shiftLeft]
    rfl
  | false => simp only [Bool.false_eq_true, if_false, lowByte_setWidth]

theorem internalCycle_datob {e : Emulation} {addr : UInt} (data : Word)
    (h : e.isMemory addr = true) :
    internalCycle e cycleDatob addr data =
      (some data, { e with ddrmem := storeByte e.ddrmem addr data }) := by
  show (if (PruU.emulatedAddrWriteB e addr _).1 then some data else none,
    (PruU.emulatedAddrWriteB e addr _).2) = _
  rw [PruU.emulatedAddrWriteB, Emulation.addrWriteB, if_pos h, ← setB_eq_storeByte]
  rfl

/-! ### What a bus cycle keeps -/

/-- The ranges the PRU decides by. -/
def bounds (e : Emulation) : UInt × UInt × UInt :=
  (e.pages.memoryStartAddr, e.pages.memoryLimitAddr, e.pages.iopageStartAddr)

theorem bounds_store (e : Emulation) (handle : Handle) (val : Word) (control : Byte) (addr : UInt) :
    bounds (e.store handle val control addr) = bounds e := by
  unfold Emulation.store
  simp only
  split <;> rfl

theorem bounds_emulatedAddrRead (e : Emulation) (addr : UInt) :
    bounds (PruU.emulatedAddrRead e addr).2 = bounds e := by
  simp only [PruU.emulatedAddrRead, Emulation.addrRead]
  split_ifs <;> rfl

theorem bounds_emulatedAddrWriteW (e : Emulation) (addr : UInt) (data : Word) :
    bounds (PruU.emulatedAddrWriteW e addr data).2 = bounds e := by
  simp only [PruU.emulatedAddrWriteW, Emulation.addrWriteW]
  split_ifs
  all_goals first | rfl | exact bounds_store _ _ _ _ _

theorem bounds_emulatedAddrWriteB (e : Emulation) (addr : UInt) (b : Byte) :
    bounds (PruU.emulatedAddrWriteB e addr b).2 = bounds e := by
  simp only [PruU.emulatedAddrWriteB, Emulation.addrWriteB]
  split_ifs
  all_goals first | rfl | exact bounds_store _ _ _ _ _

theorem bounds_internalCycle (e : Emulation) (buscycle : Byte) (addr : UInt) (data : Word) :
    bounds (internalCycle e buscycle addr data).2 = bounds e := by
  unfold internalCycle
  by_cases hwrite : cycleIsDato buscycle = true
  · rw [if_pos hwrite]
    by_cases hbyte : (buscycle == cycleDatob) = true
    · rw [if_pos hbyte]
      exact bounds_emulatedAddrWriteB _ _ _
    · rw [if_neg hbyte]
      exact bounds_emulatedAddrWriteW _ _ _
  · rw [if_neg hwrite]
    exact bounds_emulatedAddrRead _ _

/-- Only the ranges and the overlay matter. -/
theorem Consistent.congr {t : Station ε} (hs : s.Consistent) (hd : t.ddrmem = s.ddrmem)
    (hb : bounds t.emulation = bounds s.emulation) (ho : t.addressOverlay = s.addressOverlay) :
    t.Consistent := by
  simp only [bounds, Prod.mk.injEq] at hb
  obtain ⟨hstart, hlimit, hiopage⟩ := hb
  constructor
  case range =>
    rw [hd]
    cases hs.range with
    | disabled hoff hzero => exact .disabled hoff (hlimit.trans hzero)
    | enabled hon hst hli hle hend hs heven =>
      exact .enabled hon (hstart.trans hst) (hlimit.trans hli) hle hend hs heven
  case iopage => rw [hiopage]; exact hs.iopage
  case overlay => rw [hd, ho]; exact hs.overlay
  case pattern => rw [ho]; exact hs.pattern

theorem Consistent.cpuDataTransfer (hs : s.Consistent) (buscycle : Byte) (addr : UInt)
    (data : Word) : (s.cpuDataTransfer w buscycle addr data).2.Consistent :=
  hs.congr rfl (bounds_internalCycle _ _ _ _) rfl

theorem Consistent.withRam (hs : s.Consistent) (m : Ddrmem) : (s.withRam m).Consistent :=
  hs.congr rfl rfl rfl

/-! ### One call -/

theorem Addressed.lt {addr : UInt} (hs : s.Consistent) (h : s.Addressed addr) :
    addr < unibus.addrSpaceByteCount := by
  obtain hmem | ⟨-, hlt⟩ := h
  · have hlow : addr < unibus.iopageStartAddr := hs.range.lt_iopage (by decide) hmem
    exact BitVec.lt_trans hlow (by decide)
  · exact hlt

theorem Addressed.isMemory {addr : UInt} (h : s.Addressed addr)
    (hlow : addr < unibus.iopageStartAddr) : s.emulation.isMemory addr = true := by
  obtain hmem | ⟨hle, -⟩ := h
  · exact hmem
  · exact absurd hlow (BitVec.not_lt.mpr hle)

/-- What both paths have to give for a call. -/
def Agrees (w : Others ε) (s : Station ε) (c : Call) : Prop :=
  ∃ (a : Answer) (t : Station ε), (s.withDirect true).call w c = some (a, t.withDirect true) ∧
    (s.withDirect false).call w c = some (a, t.withDirect false) ∧ t.Consistent

theorem dato_agrees (hs : s.Consistent) {addr : UInt} (data : UInt) (ha : s.Addressed addr)
    (heven : addr.getLsbD 0 = false)
    (hdirect : addr < unibus.iopageStartAddr → addr ||| s.addressOverlay = addr) :
    Agrees w s (.dato addr data) := by
  have hbus : (s.withDirect false).call w (.dato addr data) =
      some (((s.cpuDataTransfer w cycleDato addr (Word.ofUInt data)).1.1, none),
        (s.cpuDataTransfer w cycleDato addr (Word.ofUInt data)).2.withDirect false) := rfl
  by_cases hlow : addr < unibus.iopageStartAddr
  · have hcycle := internalCycle_dato (Word.ofUInt data) (ha.isMemory hlow)
    rw [← hdirect hlow] at hcycle
    rw [cpuDataTransfer_internal hcycle, hdirect hlow] at hbus
    refine ⟨_, s.withRam (s.emulation.ddrmem.setW addr (Word.ofUInt data)), ?_, hbus,
      hs.withRam _⟩
    have hdep : pmiDeposit unibus s.emulation.ddrmem addr (Word.ofUInt data) =
        some (s.emulation.ddrmem.setW addr (Word.ofUInt data)) := by
      rw [pmiDeposit, heven, if_neg Bool.false_ne_true, if_pos hlow]
    show ((if true && decide (addr < unibus.iopageStartAddr) then
      (pmiDeposit unibus s.emulation.ddrmem addr (Word.ofUInt data)).bind fun m =>
        some (true, (s.withDirect true).withRam m)
      else _) : Option (Bool × Station ε)).map _ = _
    rw [decide_eq_true hlow, if_pos (show (true && true) = true from rfl), hdep]
    rfl
  · refine ⟨_, _, ?_, hbus, hs.cpuDataTransfer _ _ _⟩
    simp only [call, uniboneDato, decide_eq_false hlow, Bool.and_false, Bool.false_eq_true, if_false]
    rfl

theorem and_even_lt {addr bound : UInt} (h : addr < bound) : addr &&& ~~~1 < bound := by
  rw [BitVec.lt_def] at h ⊢
  rw [BitVec.toNat_and]
  exact lt_of_le_of_lt Nat.and_le_left h

theorem datob_agrees (hs : s.Consistent) {addr : UInt} (data : UInt) (ha : s.Addressed addr)
    (hdirect : addr < unibus.iopageStartAddr → addr ||| s.addressOverlay = addr) :
    Agrees w s (.datob addr data) := by
  have hbus : (s.withDirect false).call w (.datob addr data) =
      some (((s.cpuDataTransfer w cycleDatob addr (Word.ofUInt data)).1.1, none),
        (s.cpuDataTransfer w cycleDatob addr (Word.ofUInt data)).2.withDirect false) := rfl
  by_cases hlow : addr < unibus.iopageStartAddr
  · have hcycle := internalCycle_datob (Word.ofUInt data) (ha.isMemory hlow)
    replace hcycle := (congrArg (internalCycle s.emulation cycleDatob · (Word.ofUInt data))
      (hdirect hlow)).trans hcycle
    rw [cpuDataTransfer_internal hcycle] at hbus
    refine ⟨_, s.withRam _, ?_, hbus, hs.withRam _⟩
    have heven : (addr &&& ~~~1).getLsbD 0 = false := by
      rw [BitVec.getLsbD_and]
      exact Bool.and_false _
    have hword : addr &&& ~~~1 < unibus.iopageStartAddr := and_even_lt hlow
    have hexam : pmiExam s.emulation.ddrmem (addr &&& ~~~1) =
        some (s.emulation.ddrmem.getW (addr &&& ~~~1)) := by
      rw [pmiExam, heven, if_neg Bool.false_ne_true]
    have hdep : ∀ v : Word, pmiDeposit unibus s.emulation.ddrmem (addr &&& ~~~1) v =
        some (s.emulation.ddrmem.setW (addr &&& ~~~1) v) := by
      intro v
      rw [pmiDeposit, heven, if_neg Bool.false_ne_true, if_pos hword]
    simp only [call, uniboneDatob, withDirect, decide_eq_true hlow, Bool.and_self, if_true, hexam,
      hdep, Option.bind_eq_bind, Option.bind_some, Option.pure_def, Option.map_some]
    rfl
  · refine ⟨_, _, ?_, hbus, hs.cpuDataTransfer _ _ _⟩
    simp only [call, uniboneDatob, decide_eq_false hlow, Bool.and_false, Bool.false_eq_true, if_false]
    rfl

/-- The address a direct read uses. -/
def datiAddr (s : Station ε) (addr : UInt) : UInt :=
  if addr < unibus.iopageStartAddr then addr ||| s.ddrmem.pmiAddressOverlay else addr

theorem uniboneDati_direct (addr : UInt) : (s.withDirect true).uniboneDati w addr =
    (if s.datiAddr addr < unibus.iopageStartAddr then
      (pmiExam s.emulation.ddrmem (s.datiAddr addr)).map fun data =>
        ((true, data), s.withDirect true)
    else (isRom unibus s.emulation.pages (s.datiAddr addr)).bind fun rom =>
      if rom then (pmiExam s.emulation.ddrmem (s.datiAddr addr)).map fun data =>
        ((true, data), s.withDirect true)
      else some ((s.withDirect true).cpuDataTransfer w cycleDati (s.datiAddr addr) 0)) := by
  have haddr : (if (s.withDirect true).directMemory && decide (addr < unibus.iopageStartAddr) then
      addr ||| (s.withDirect true).ddrmem.pmiAddressOverlay else addr) = s.datiAddr addr := by
    by_cases hlow : addr < unibus.iopageStartAddr
    · rw [datiAddr, if_pos hlow, decide_eq_true hlow]
      rfl
    · rw [datiAddr, if_neg hlow, decide_eq_false hlow]
      rfl
  unfold uniboneDati
  simp only [haddr]
  by_cases hlow : s.datiAddr addr < unibus.iopageStartAddr
  · rw [decide_eq_true hlow, if_pos hlow]
    show (pmiExam s.emulation.ddrmem (s.datiAddr addr)).bind _ = _
    rw [Option.map_eq_bind]
    rfl
  · rw [decide_eq_false hlow, if_neg hlow]
    show (isRom unibus s.emulation.pages (s.datiAddr addr)).bind _ = _
    congr 1
    funext rom
    cases rom with
    | true =>
      show (pmiExam s.emulation.ddrmem (s.datiAddr addr)).bind _ = _
      rw [if_pos rfl, Option.map_eq_bind]
      rfl
    | false => rfl

/-- A bus read of memory or of a ROM cell. -/
theorem cpuDataTransfer_cell {addr : UInt}
    (h : s.emulation.isMemory (addr ||| s.addressOverlay) = true ∨
      PruU.inIopage s.emulation (addr ||| s.addressOverlay) = true ∧
        s.emulation.pages.registerHandles (entry (addr ||| s.addressOverlay)) = handleRom) :
    s.cpuDataTransfer w cycleDati addr 0 =
      ((true, s.emulation.ddrmem.getW (addr ||| s.addressOverlay)), s) :=
  cpuDataTransfer_internal (internalCycle_dati 0 h)

/-- The overlay moves every address into the IO page, and leaves it even. -/
theorem overlaid_iopage {addr : UInt} (h : addr < unibus.addrSpaceByteCount) :
    unibus.iopageStartAddr ≤ addr ||| m9312Overlay ∧
      addr ||| m9312Overlay < unibus.addrSpaceByteCount ∧
      (addr ||| m9312Overlay).getLsbD 0 = addr.getLsbD 0 := by
  refine ⟨?_, ?_, ?_⟩
  · have hle : m9312Overlay.toNat ≤ (addr ||| m9312Overlay).toNat := by
      rw [BitVec.toNat_or]
      exact Nat.right_le_or
    exact BitVec.le_trans (y := m9312Overlay) (by decide) (BitVec.le_def.mpr hle)
  · rw [BitVec.lt_def] at h ⊢
    rw [BitVec.toNat_or]
    exact Nat.or_lt_two_pow (n := 18) h (by decide)
  · rw [BitVec.getLsbD_or]
    exact Bool.or_false _

theorem isRom_iopage {pages : PruIopageRegisters} {addr : UInt} (heven : addr.getLsbD 0 = false)
    (hio : unibus.iopageStartAddr ≤ addr) (hlt : addr < unibus.addrSpaceByteCount) :
    isRom unibus pages addr = some (pages.registerHandles (entry addr) == handleRom) := by
  have hlast : addr ≤ unibus.addrSpaceByteCount - 2 := by
    rw [BitVec.getLsbD, Nat.testBit_zero, decide_eq_false_iff_not] at heven
    rw [BitVec.lt_def] at hlt
    rw [BitVec.le_def]
    have hcount : unibus.addrSpaceByteCount.toNat = 262144 := rfl
    have hsub : (unibus.addrSpaceByteCount - 2).toNat = 262142 := rfl
    omega
  rw [isRom, heven, if_neg Bool.false_ne_true, if_neg (BitVec.not_lt.mpr hio), if_pos hlast]

/-- A direct read in the IO page is right where the bus has the same cell. -/
theorem uniboneDati_iopage {addr : UInt} (hs : s.Consistent)
    (heven : (s.datiAddr addr).getLsbD 0 = false)
    (hio : unibus.iopageStartAddr ≤ s.datiAddr addr)
    (hlt : s.datiAddr addr < unibus.addrSpaceByteCount)
    (hbus : s.cpuDataTransfer w cycleDati (s.datiAddr addr) 0 = s.cpuDataTransfer w cycleDati addr 0)
    (hcell : isRom unibus s.emulation.pages (s.datiAddr addr) = some true →
      s.datiAddr addr ||| s.addressOverlay = s.datiAddr addr) :
    (s.withDirect true).uniboneDati w addr =
      some ((s.cpuDataTransfer w cycleDati addr 0).1,
        (s.cpuDataTransfer w cycleDati addr 0).2.withDirect true) := by
  rw [uniboneDati_direct, if_neg (BitVec.not_lt.mpr hio)]
  rw [isRom_iopage heven hio hlt] at hcell ⊢
  rw [Option.bind_some]
  cases hrom : s.emulation.pages.registerHandles (entry (s.datiAddr addr)) == handleRom with
  | false =>
    rw [if_neg Bool.false_ne_true, cpuDataTransfer_withDirect, hbus]
  | true =>
    have hsame := hcell (congrArg some hrom)
    have hpage : PruU.inIopage s.emulation (s.datiAddr addr) = true :=
      decide_eq_true (BitVec.le_trans hs.iopage hio)
    have hread := cpuDataTransfer_cell (w := w) (s := s)
      (by rw [hsame]; exact .inr ⟨hpage, eq_of_beq hrom⟩)
    rw [if_pos rfl, pmiExam, heven, if_neg Bool.false_ne_true, ← hbus, hread, hsame]
    rfl

theorem dati_agrees (hs : s.Consistent) {addr : UInt} (ha : s.Addressed addr)
    (heven : addr.getLsbD 0 = false)
    (hdirect : isRom unibus s.emulation.pages addr = some true →
      addr ||| s.addressOverlay = addr) :
    Agrees w s (.dati addr) := by
  have hbus : (s.withDirect false).call w (.dati addr) =
      some (((s.cpuDataTransfer w cycleDati addr 0).1.1,
          some (s.cpuDataTransfer w cycleDati addr 0).1.2),
        (s.cpuDataTransfer w cycleDati addr 0).2.withDirect false) := rfl
  suffices hcall : (s.withDirect true).uniboneDati w addr =
      some ((s.cpuDataTransfer w cycleDati addr 0).1,
        (s.cpuDataTransfer w cycleDati addr 0).2.withDirect true) by
    refine ⟨_, _, ?_, hbus, hs.cpuDataTransfer _ _ _⟩
    rw [call, hcall]
    rfl
  by_cases hlow : addr < unibus.iopageStartAddr
  · have hat : s.datiAddr addr = addr ||| s.addressOverlay := by
      rw [datiAddr, if_pos hlow, hs.overlay]
    obtain hoff | hon := hs.pattern
    · -- Without overlay the cell is memory for the PRU, too.
      have hcell : addr ||| s.addressOverlay = addr := by
        rw [hoff]
        exact BitVec.or_zero
      have hread := cpuDataTransfer_cell (w := w) (s := s)
        (.inl (by rw [hcell]; exact ha.isMemory hlow))
      rw [uniboneDati_direct, hat, hcell, if_pos hlow, pmiExam, heven, if_neg Bool.false_ne_true,
        hread, hcell]
      rfl
    · -- With it, it lies in the IO page.
      obtain ⟨hio, hlt, hbit⟩ := overlaid_iopage (ha.lt hs)
      rw [← hon] at hio hlt hbit
      refine uniboneDati_iopage hs ?_ ?_ ?_ ?_ ?_
      · rw [hat, hbit, heven]
      · rw [hat]
        exact hio
      · rw [hat]
        exact hlt
      · rw [hat]
        exact cpuDataTransfer_overlaid _ _ _
      · intro _
        rw [hat, BitVec.or_assoc, BitVec.or_self]
  · have hat : s.datiAddr addr = addr := by rw [datiAddr, if_neg hlow]
    refine uniboneDati_iopage hs ?_ ?_ ?_ ?_ ?_
    · rw [hat, heven]
    · rw [hat]
      exact BitVec.not_lt.mp hlow
    · rw [hat]
      exact ha.lt hs
    · rw [hat]
    · rw [hat]
      exact hdirect

/-- Calls that are not transfers do the same on both paths. -/
theorem other_agrees (hs : s.Consistent) {c : Call} (hd : s.Direct c) :
    (∃ startaddr endaddr, c = .setRange startaddr endaddr) ∨ c = .bootaddressSet ∨
      c = .bootaddressClear ∨ (∃ handle value, c = .registerValue handle value) →
    Agrees w s c := by
  rintro (⟨startaddr, endaddr, rfl⟩ | rfl | rfl | ⟨handle, value, rfl⟩)
  · refine ⟨_, (s.setRange startaddr endaddr).2, rfl, rfl, ?_⟩
    have hpages : (DdrmemC.setRange unibus startaddr endaddr s.ddrmem
        s.emulation.pages).2.2.iopageStartAddr = unibus.iopageStartAddr ∧
        (DdrmemC.setRange unibus startaddr endaddr s.ddrmem
          s.emulation.pages).2.1.pmiAddressOverlay = s.ddrmem.pmiAddressOverlay := by
      simp only [DdrmemC.setRange]
      split_ifs <;> exact ⟨rfl, rfl⟩
    refine ⟨(setRange_settable hd).2, ?_, hpages.2.trans hs.overlay, hs.pattern⟩
    show (DdrmemC.setRange unibus startaddr endaddr s.ddrmem s.emulation.pages).2.2.iopageStartAddr
      ≤ unibus.iopageStartAddr
    rw [hpages.1]
    exact BitVec.le_refl _
  · exact ⟨_, s.setOverlay m9312Overlay, rfl, rfl, hs.range.overlay _, hs.iopage, rfl, .inr rfl⟩
  · by_cases hactive : s.addressOverlay ≠ 0
    · refine ⟨(true, none), s.setOverlay 0, ?_, ?_, hs.range.overlay _, hs.iopage, rfl, .inl rfl⟩
      · exact congrArg (fun t => some ((true, none), t)) (if_pos hactive)
      · exact congrArg (fun t => some ((true, none), t)) (if_pos hactive)
    · refine ⟨(true, none), s, ?_, ?_, hs⟩
      · exact congrArg (fun t => some ((true, none), t)) (if_neg hactive)
      · exact congrArg (fun t => some ((true, none), t)) (if_neg hactive)
  · exact ⟨_, s.setRegister handle value, rfl, rfl, hs.congr rfl rfl rfl⟩

theorem call_agrees (hs : s.Consistent) (c : Call) (hp : s.Proper c) (hd : s.Direct c) :
    Agrees w s c := by
  cases c with
  | dati addr => exact dati_agrees hs hp.1 hp.2 hd
  | dato addr data => exact dato_agrees hs data hp.1 hp.2 hd
  | datob addr data => exact datob_agrees hs data hp hd
  | setRange startaddr endaddr => exact other_agrees hs hd (.inl ⟨_, _, rfl⟩)
  | bootaddressSet => exact other_agrees hs hd (.inr (.inl rfl))
  | bootaddressClear => exact other_agrees hs hd (.inr (.inr (.inl rfl)))
  | registerValue handle value => exact other_agrees hs hd (.inr (.inr (.inr ⟨_, _, rfl⟩)))

/-! ## Runs -/

/-- Every call of the run satisfies `P` in the state it is made in. -/
def Along (P : Station ε → Call → Prop) (w : Others ε) (s : Station ε) : List Call → Prop
  | [] => True
  | c :: cs => P s c ∧ ∀ a t, s.call w c = some (a, t) → Along P w t cs

/-- After the start of the PRU. Registers, ROMs, memory and the overlay are what they are. -/
structure Started (s : Station ε) : Prop where
  disabled : s.ddrmem.enabled = false
  limit : s.emulation.pages.memoryLimitAddr = 0
  iopage : s.emulation.pages.iopageStartAddr = 0
  overlay : s.ddrmem.pmiAddressOverlay = s.addressOverlay
  pattern : s.addressOverlay = 0 ∨ s.addressOverlay = m9312Overlay

theorem Started.consistent (hs : s.Started) : s.Consistent :=
  ⟨.disabled hs.disabled hs.limit, by rw [hs.iopage]; decide, hs.overlay, hs.pattern⟩

/-- The two paths side by side through a run. -/
theorem run_agrees (hs : s.Consistent) (calls : List Call)
    (h : Along (fun s c => s.Proper c ∧ s.Direct c) w (s.withDirect false) calls) :
    ∃ answers t, (s.withDirect true).run w calls = some (answers, withDirect t true) ∧
      (s.withDirect false).run w calls = some (answers, withDirect t false) ∧ t.Consistent := by
  induction calls generalizing s with
  | nil => exact ⟨[], s, rfl, rfl, hs⟩
  | cons c cs ih =>
    obtain ⟨⟨hp, hd⟩, hnext⟩ := h
    have hp' : s.Proper c := by cases c <;> exact hp
    have hd' : s.Direct c := by cases c <;> exact hd
    obtain ⟨a, t, hdirect, hbus, ht⟩ := call_agrees (w := w) hs c hp' hd'
    obtain ⟨answers, u, hudirect, hubus, hu⟩ := ih ht (hnext a _ hbus)
    refine ⟨a :: answers, u, ?_, ?_, hu⟩
    · simp only [run, hdirect, hudirect, Option.bind_eq_bind, Option.bind_some, Option.pure_def]
    · simp only [run, hbus, hubus, Option.bind_eq_bind, Option.bind_some, Option.pure_def]

/-- ARM and PRU say the same about a memory address. -/
def SameMemory (s : Station ε) (addr : UInt) (data : Word) : Prop :=
  (s.ddrmem.exam s.emulation.ddrmem addr).isSome = s.emulation.isMemory addr ∧
    (s.ddrmem.deposit s.emulation.ddrmem addr data).isSome = s.emulation.isMemory addr

/-- If `set_range` refuses, the range stays as it was on both sides. -/
def RefusalKeeps (s : Station ε) (startaddr endaddr : UInt) : Prop :=
  (s.setRange startaddr endaddr).1 = false →
    ∀ addr, (s.setRange startaddr endaddr).2.ddrmem.inRange addr = s.ddrmem.inRange addr ∧
      (s.setRange startaddr endaddr).2.emulation.isMemory addr = s.emulation.isMemory addr

theorem sameMemory_iff (hs : s.Consistent) (addr : UInt) (data : Word) :
    s.SameMemory addr data ↔
      ¬ (s.ddrmem.enabled = true ∧ addr = s.ddrmem.qunibusEndaddr + 1) := by
  rw [← hs.range.inRange_iff (by decide) addr, SameMemory, DdrmemC.exam, DdrmemC.deposit]
  cases s.ddrmem.inRange addr <;> simp

theorem refusalKeeps_iff (hs : s.Consistent) (startaddr endaddr : UInt) :
    s.RefusalKeeps startaddr endaddr ↔ Settable unibus startaddr endaddr := by
  constructor
  · intro h
    by_contra hset
    obtain ⟨hfalse, hd, -⟩ := @setRange_refused unibus _ _ s.ddrmem s.emulation.pages hset
    refine hs.range.ne_refused hset fun addr => ?_
    rw [← hd]
    exact ((h hfalse) addr).1
  · intro hset hfalse
    have htrue := (@setRange_settable unibus _ _ s.ddrmem s.emulation.pages hset).1
    exact absurd (hfalse.symm.trans htrue) Bool.false_ne_true

/-- Runs in which the direct path uses the address of the bus and no range is refused are the
same on both paths. Afterwards ARM and PRU agree about the memory, but for the byte behind the
last word, and the next range is kept or replaced on both sides unless it is refused. -/
theorem direct_memory_agrees (w : Others ε) (s : Station ε) (hs : s.Started) (calls : List Call)
    (h : Along (fun s c => s.Proper c ∧ s.Direct c) w (s.withDirect false) calls) :
    ∃ answers t, (s.withDirect true).run w calls = some (answers, withDirect t true) ∧
      (s.withDirect false).run w calls = some (answers, withDirect t false) ∧
      (∀ addr data, t.SameMemory addr data ↔
        ¬ (t.ddrmem.enabled = true ∧ addr = t.ddrmem.qunibusEndaddr + 1)) ∧
      ∀ startaddr endaddr, t.RefusalKeeps startaddr endaddr ↔
        Settable unibus startaddr endaddr := by
  obtain ⟨answers, t, hdirect, hbus, ht⟩ := run_agrees hs.consistent calls h
  exact ⟨answers, t, hdirect, hbus, sameMemory_iff ht, refusalKeeps_iff ht⟩

/-! ## A station -/

/-- Nobody else on the bus. -/
def silent : Others Unit := fun _ _ _ _ => ((false, 0), ())

/-- After the start, with nothing registered. -/
def idle (overlay : UInt) : Station Unit where
  directMemory := false
  ddrmem := ⟨false, 0, 0, overlay⟩
  emulation := {
    pages := ⟨0, 0, 0, fun _ => 0, fun _ => default⟩
    ddrmem := fun _ => 0
    deviceregister := default }
  addressOverlay := overlay
  others := ()

/-- Memory is configured and written. -/
theorem direct_memory_agrees_write : ∃ answers t,
    ((idle 0).withDirect true).run silent [.setRange 0 0o757776, .dato 0o1000 5] =
      some (answers, withDirect t true) ∧
    ((idle 0).withDirect false).run silent [.setRange 0 0o757776, .dato 0o1000 5] =
      some (answers, withDirect t false) := by
  have hrun : Along (fun s c => s.Proper c ∧ s.Direct c) silent ((idle 0).withDirect false)
      [.setRange 0 0o757776, .dato 0o1000 5] := by
    refine ⟨⟨trivial, fun _ => by decide⟩, fun a t ht => ?_⟩
    cases ht
    exact ⟨⟨⟨.inl (by decide), by decide⟩, fun _ => by decide⟩, fun _ _ _ => trivial⟩
  obtain ⟨answers, t, hdirect, hbus, -⟩ := direct_memory_agrees silent (idle 0)
    ⟨rfl, rfl, rfl, rfl, .inl rfl⟩ [.setRange 0 0o757776, .dato 0o1000 5] hrun
  exact ⟨answers, t, hdirect, hbus⟩

/-- While the CPU boots, a direct write reaches the memory and succeeds, the bus cycle does
neither. And after a range that is refused ARM and PRU know different ranges. -/
theorem direct_memory_differs :
    ((idle m9312Overlay).withDirect false).Started ∧
    (((idle m9312Overlay).withDirect true).run silent [.setRange 0 0o757776, .dato 0o1000 5]).map
      (fun r => (r.1, r.2.emulation.ddrmem 0o400)) = some ([(true, none), (true, none)], 5) ∧
    (((idle m9312Overlay).withDirect false).run silent [.setRange 0 0o757776, .dato 0o1000 5]).map
      (fun r => (r.1, r.2.emulation.ddrmem 0o400)) = some ([(true, none), (false, none)], 0) ∧
    ((idle 0).run silent [.setRange 0 0o1000, .setRange 1 0o2000]).map
      (fun r => (r.1, r.2.ddrmem.inRange 0o2000, r.2.emulation.isMemory 0o2000)) =
        some ([(true, none), (false, none)], true, false) :=
  ⟨⟨rfl, rfl, rfl, rfl, .inr rfl⟩, by decide, by decide, by decide⟩

end Station

end QUniBone
