import QUniBone.Lib.Transition
import QUniBone.Pru.RegisterAccess

/-!
# From a bus cycle to the device logic and back

A register which is active on DATO has one value on the PRU and two sets of flipflops on ARM. A
write goes into the value on the PRU, and with the event to the DATO flipflops. Meanwhile the value
is wrong for DATI, until the worker restores it from the DATI flipflops. Device threads set those
whenever they like.

* `RegisterPath`: PRU, worker and device threads. The worker is interrupted between its accesses to
  shared variables, a device thread between its two stores.
* `next`: the steps. Bus cycles are whole calls of the functions of the PRU.
* `Sound`: what a DATI shall return, and what the device logic shall see of a write.
* `Careful`: the steps that do not get in each other's way.
-/

namespace QUniBone

/-- What `worker_deviceregister_event` is about to do. -/
inductive EventWorker where
  | idle
  /-- It has read the event. -/
  | handling (evt : DeviceRegisterEvent)
  /-- It has read the DATI flipflops. -/
  | restoring (evt : DeviceRegisterEvent) (value : Word)
  /-- The value on the PRU is restored. -/
  | restored (evt : DeviceRegisterEvent)
  /-- `on_after_register_access` was called. -/
  | called
  deriving DecidableEq

/-- `set_register_dati_value` between its stores. -/
structure DatiSet where
  handle : Handle
  /-- the DATI flipflops as they were -/
  before : Word
  value : Word
  deriving DecidableEq

structure RegisterPath where
  emulation : Emulation
  /-- `register_by_handle` -/
  registers : Handle → ActiveRegister
  worker : EventWorker
  sets : List DatiSet
  /-- the accesses with an event for which the device logic was not called yet -/
  pending : List RegisterAccess

/-- The register a cycle finds at an address, by its handle. -/
def Emulation.handleAt (e : Emulation) (iopage : Bool) (addr : UInt) : Option Handle :=
  if e.isMemory addr then none
  else if iopage then
    if (e.pages.registerHandles (entry addr)).named then
      some (e.pages.registerHandles (entry addr))
    else none
  else none

/-- The value of a register is written. -/
def Emulation.putValue (e : Emulation) (handle : Handle) (value : Word) : Emulation :=
  let reg := { e.pages.registers handle with value := value }
  { e with pages := { e.pages with registers := Function.update e.pages.registers handle reg } }

namespace Emulation

/-! ## Where a cycle goes -/

section Cycle

variable {e : Emulation} {iopage : Bool} {addr : UInt} {h : Handle}

theorem handleAt_eq_none (hno : e.isMemory addr = true ∨ iopage = false ∨
    e.pages.registerHandles (entry addr) = 0 ∨
      e.pages.registerHandles (entry addr) = handleRom) : e.handleAt iopage addr = none := by
  unfold handleAt
  split_ifs with hmem hio hnamed
  · rfl
  · rw [Handle.named, Bool.and_eq_true, bne_iff_ne, bne_iff_ne] at hnamed
    rcases hno with hno | hno | hno | hno
    · exact absurd hno hmem
    · rw [hio] at hno
      cases hno
    · exact absurd hno hnamed.1
    · exact absurd hno hnamed.2
  · rfl
  · rfl

theorem handleAt_named (hmem : ¬e.isMemory addr = true) (hio : iopage = true)
    (hzero : ¬e.pages.registerHandles (entry addr) = 0)
    (hrom : ¬e.pages.registerHandles (entry addr) = handleRom) :
    e.handleAt iopage addr = some (e.pages.registerHandles (entry addr)) := by
  have hnamed : (e.pages.registerHandles (entry addr)).named = true := by
    rw [Handle.named, Bool.and_eq_true, bne_iff_ne, bne_iff_ne]
    exact ⟨hzero, hrom⟩
  rw [handleAt, if_neg hmem, if_pos hio, if_pos hnamed]

theorem registerAt_eq (e : Emulation) (iopage : Bool) (addr : UInt) :
    e.registerAt iopage addr = (e.handleAt iopage addr).map e.pages.registers := by
  unfold registerAt handleAt
  split_ifs <;> rfl

theorem handleAt_inUse (hh : e.handleAt iopage addr = some h) :
    h.named = true ∧ ∃ c, e.pages.registerHandles c = h := by
  unfold handleAt at hh
  split_ifs at hh with hmem hio hnamed
  cases hh
  exact ⟨hnamed, _, rfl⟩

theorem writeAccess_eq (hh : e.handleAt iopage addr = some h) (control : Byte) (data : Word) :
    e.writeAccess iopage control addr data =
      if (e.pages.registers h).eventFlags &&& eventFlagDato ≠ 0 then
        some ⟨control, addr, data, e.pages.registers h⟩ else none := by
  rw [writeAccess, registerAt_eq, hh, Option.map_some, Option.bind_some]

theorem addrRead_pages (e : Emulation) (iopage : Bool) (addr : UInt) :
    (e.addrRead iopage addr).2.pages = e.pages := by
  unfold addrRead
  dsimp only
  split_ifs <;> rfl

/-- Only the register that is found there is written. -/
structure Writes (e e' : Emulation) (found : Option Handle) : Prop where
  start : e'.pages.iopageStartAddr = e.pages.iopageStartAddr
  map : e'.pages.registerHandles = e.pages.registerHandles
  others : ∀ i, found ≠ some i → (e'.pages.registers i).value = (e.pages.registers i).value

theorem Writes.of_pages {e' : Emulation} (hpages : e'.pages = e.pages) (found : Option Handle) :
    Writes e e' found := by
  constructor
  case start => rw [hpages]
  case map => rw [hpages]
  case others =>
    intro i _
    rw [hpages]

theorem store_pages (e : Emulation) (h : Handle) (v : Word) (control : Byte) (addr : UInt) :
    (e.store h v control addr).pages = (e.putValue h v).pages := by
  unfold store
  dsimp only
  split_ifs <;> rfl

theorem store_ddrmem (e : Emulation) (h : Handle) (v : Word) (control : Byte) (addr : UInt) :
    (e.store h v control addr).ddrmem = e.ddrmem := by
  unfold store
  dsimp only
  split_ifs <;> rfl

theorem putValue_value (e : Emulation) (h : Handle) (v : Word) (i : Handle) :
    ((e.putValue h v).pages.registers i).value =
      if i = h then v else (e.pages.registers i).value := by
  show (Function.update e.pages.registers h { e.pages.registers h with value := v } i).value = _
  by_cases hi : i = h
  · rw [hi, Function.update_self, if_pos rfl]
  · rw [Function.update_of_ne hi, if_neg hi]

theorem putValue_putValue (e : Emulation) (h : Handle) (v w : Word) :
    ((e.putValue h v).putValue h w).pages = (e.putValue h w).pages := by
  simp [putValue]

theorem putValue_congr {e e' : Emulation} (hpages : e.pages = e'.pages) (h : Handle) (v : Word) :
    (e.putValue h v).pages = (e'.putValue h v).pages := by
  unfold putValue
  rw [hpages]

/-- A register gets the value it has. -/
theorem putValue_self (e : Emulation) (h : Handle) :
    (e.putValue h (e.pages.registers h).value).pages = e.pages := by
  simp [putValue]

theorem putValue_layout (e : Emulation) (h : Handle) (v : Word) :
    e.SameLayout (e.putValue h v) := by
  intro i
  show { Function.update e.pages.registers h { e.pages.registers h with value := v } i with
    value := 0 } = _
  by_cases hi : i = h
  · rw [hi, Function.update_self]
  · rw [Function.update_of_ne hi]

theorem writes_store (e : Emulation) (h : Handle) (v : Word) (control : Byte) (addr : UInt) :
    Writes e (e.store h v control addr) (some h) := by
  constructor
  case start =>
    rw [store_pages]
    rfl
  case map =>
    rw [store_pages]
    rfl
  case others =>
    intro i hi
    rw [store_pages, putValue_value, if_neg fun heq => hi (congrArg some heq.symm)]

/-- A write finds a register, or leaves the registers alone. -/
theorem addrWriteW_cases (e : Emulation) (iopage : Bool) (addr : UInt) (w : Word) :
    (e.handleAt iopage addr = none ∧ (e.addrWriteW iopage addr w).2.pages = e.pages) ∨
      ∃ h v, e.handleAt iopage addr = some h ∧
        (e.addrWriteW iopage addr w).2 = e.store h v cycleDato addr := by
  unfold addrWriteW
  by_cases hmem : e.isMemory addr = true
  · rw [if_pos hmem]
    exact .inl ⟨handleAt_eq_none (.inl hmem), rfl⟩
  rw [if_neg hmem]
  cases hio : iopage with
  | false => exact .inl ⟨handleAt_eq_none (.inr (.inl rfl)), rfl⟩
  | true =>
    rw [if_pos rfl]
    dsimp only
    by_cases hzero : e.pages.registerHandles (entry addr) = 0
    · rw [if_pos hzero]
      exact .inl ⟨handleAt_eq_none (.inr (.inr (.inl hzero))), rfl⟩
    rw [if_neg hzero]
    by_cases hrom : e.pages.registerHandles (entry addr) = handleRom
    · rw [if_pos hrom]
      exact .inl ⟨handleAt_eq_none (.inr (.inr (.inr hrom))), rfl⟩
    rw [if_neg hrom]
    exact .inr ⟨_, _, handleAt_named hmem rfl hzero hrom, rfl⟩

theorem addrWriteB_cases (e : Emulation) (iopage : Bool) (addr : UInt) (b : Byte) :
    (e.handleAt iopage addr = none ∧ (e.addrWriteB iopage addr b).2.pages = e.pages) ∨
      ∃ h v, e.handleAt iopage addr = some h ∧
        (e.addrWriteB iopage addr b).2 = e.store h v cycleDatob addr := by
  unfold addrWriteB
  by_cases hmem : e.isMemory addr = true
  · rw [if_pos hmem]
    exact .inl ⟨handleAt_eq_none (.inl hmem), rfl⟩
  rw [if_neg hmem]
  cases hio : iopage with
  | false => exact .inl ⟨handleAt_eq_none (.inr (.inl rfl)), rfl⟩
  | true =>
    rw [if_pos rfl]
    dsimp only
    by_cases hzero : e.pages.registerHandles (entry addr) = 0
    · rw [if_pos hzero]
      exact .inl ⟨handleAt_eq_none (.inr (.inr (.inl hzero))), rfl⟩
    rw [if_neg hzero]
    by_cases hrom : e.pages.registerHandles (entry addr) = handleRom
    · rw [if_pos hrom]
      exact .inl ⟨handleAt_eq_none (.inr (.inr (.inr hrom))), rfl⟩
    rw [if_neg hrom]
    exact .inr ⟨_, _, handleAt_named hmem rfl hzero hrom, rfl⟩

theorem Writes.of_cases {e' : Emulation} {found : Option Handle} {control : Byte}
    (h : (found = none ∧ e'.pages = e.pages) ∨
      ∃ h v, found = some h ∧ e' = e.store h v control addr) : Writes e e' found := by
  rcases h with ⟨-, hpages⟩ | ⟨h, v, rfl, rfl⟩
  · exact .of_pages hpages _
  · exact writes_store ..

/-- A write at an address of a register stores a value there. -/
theorem exists_store {e' : Emulation} {found : Option Handle} {control : Byte}
    (hcases : (found = none ∧ e'.pages = e.pages) ∨
      ∃ h v, found = some h ∧ e' = e.store h v control addr) (hfound : found = some h) :
    ∃ v, e' = e.store h v control addr := by
  rcases hcases with ⟨hnone, -⟩ | ⟨h', v, hsome, heq⟩
  · rw [hfound] at hnone
    cases hnone
  · rw [hfound] at hsome
    cases hsome
    exact ⟨v, heq⟩

theorem SameLayout.descriptor {e e' : Emulation} (h : e.SameLayout e') (i : Handle) :
    (e'.pages.registers i).eventFlags = (e.pages.registers i).eventFlags ∧
      (e'.pages.registers i).eventRegisterHandle = (e.pages.registers i).eventRegisterHandle ∧
      (e'.pages.registers i).writableBits = (e.pages.registers i).writableBits := by
  have hi := h i
  exact ⟨congrArg (·.eventFlags) hi, congrArg (·.eventRegisterHandle) hi,
    congrArg (·.writableBits) hi⟩

end Cycle

end Emulation

/-! ## The event on ARM -/

section Event

variable {start : UInt} {evt : DeviceRegisterEvent} {reg : ActiveRegister}

/-- A DATO goes to the DATO flipflops, and the value on the PRU is restored. -/
theorem event_dato (start : UInt) (hdato : cycleIsDato evt.unibusControl = true)
    (hactive : reg.activeOnDato = true) : ∃ c : Callback,
    workerDeviceregisterEvent start evt reg =
      (some c, { reg with activeDatoFlipflops := c.flipflops }, some reg.activeDatiFlipflops) := by
  unfold workerDeviceregisterEvent
  dsimp only
  rw [hdato, hactive, Bool.not_true, Bool.and_false, if_neg Bool.false_ne_true, Bool.and_true,
    if_pos rfl]
  by_cases hw : evt.unibusControl = cycleDato
  · rw [if_pos hw]
    exact ⟨_, rfl⟩
  rw [if_neg hw]
  by_cases hb : evt.unibusControl = cycleDatob
  · rw [if_pos hb]
    exact ⟨_, rfl⟩
  · rw [if_neg hb]
    exact ⟨_, rfl⟩

theorem event_other (start : UInt)
    (h : (reg.activeOnDato && cycleIsDato evt.unibusControl) = false) :
    (workerDeviceregisterEvent start evt reg).2 = (reg, none) := by
  unfold workerDeviceregisterEvent
  dsimp only
  rw [h, if_neg Bool.false_ne_true]
  split
  · rfl
  · rfl

/-- What becomes of a register -/
structure Handled (reg reg' : ActiveRegister) : Prop where
  onDati : reg'.activeOnDati = reg.activeOnDati
  onDato : reg'.activeOnDato = reg.activeOnDato
  writable : reg'.writableBits = reg.writableBits
  dati : reg'.activeDatiFlipflops = reg.activeDatiFlipflops

theorem event_handled (start : UInt) (evt : DeviceRegisterEvent) (reg : ActiveRegister) :
    Handled reg (workerDeviceregisterEvent start evt reg).2.1 := by
  cases h : reg.activeOnDato && cycleIsDato evt.unibusControl
  · rw [event_other start h]
    exact ⟨rfl, rfl, rfl, rfl⟩
  · obtain ⟨hactive, hdato⟩ := Bool.and_eq_true_iff.mp h
    obtain ⟨c, hc⟩ := event_dato start hdato hactive
    rw [hc]
    exact ⟨rfl, rfl, rfl, rfl⟩

theorem event_restores {v : Word} (h : (workerDeviceregisterEvent start evt reg).2.2 = some v) :
    v = reg.activeDatiFlipflops := by
  cases hcase : reg.activeOnDato && cycleIsDato evt.unibusControl
  · rw [event_other start hcase] at h
    cases h
  · obtain ⟨hactive, hdato⟩ := Bool.and_eq_true_iff.mp hcase
    obtain ⟨c, hc⟩ := event_dato start hdato hactive
    rw [hc] at h
    exact (Option.some.inj h).symm

theorem merge_lane (ff data bits lane : Word) (h : ff &&& ~~~bits = 0) :
    (ff &&& ~~~lane) ||| (data &&& bits &&& lane) =
      (ff &&& ~~~(lane &&& bits)) ||| (data &&& (lane &&& bits)) := by
  ext i hi
  have hbit : (ff[i] && !bits[i]) = false := by
    rw [← BitVec.getElem_not hi, ← BitVec.getElem_and, h]
    exact BitVec.getElem_zero hi
  simp only [BitVec.getElem_and, BitVec.getElem_or, BitVec.getElem_not]
  revert hbit
  cases ff[i] <;> cases data[i] <;> cases bits[i] <;> cases lane[i] <;> decide

theorem merge_writable (ff data bits keep lane : Word) (h : ff &&& ~~~bits = 0) :
    ((ff &&& keep) ||| (data &&& bits &&& lane)) &&& ~~~bits = 0 := by
  ext i hi
  have hbit : (ff[i] && !bits[i]) = false := by
    rw [← BitVec.getElem_not hi, ← BitVec.getElem_and, h]
    exact BitVec.getElem_zero hi
  refine Eq.trans ?_ (BitVec.getElem_zero hi).symm
  simp only [BitVec.getElem_and, BitVec.getElem_or, BitVec.getElem_not]
  revert hbit
  cases ff[i] <;> cases data[i] <;> cases bits[i] <;> cases keep[i] <;> cases lane[i] <;> decide

/-- The DATO flipflops only have bits that are writable. -/
theorem datoFlipflops_writable (h : reg.activeDatoFlipflops &&& ~~~reg.writableBits = 0)
    (access : DatoAccess) (data : Word) :
    datoFlipflops reg access data &&& ~~~reg.writableBits = 0 := by
  cases access with
  | word =>
    show data &&& reg.writableBits &&& ~~~reg.writableBits = 0
    rw [BitVec.and_assoc, BitVec.and_not_self]
    exact BitVec.and_zero
  | byteL => exact merge_writable _ data _ 0xff00 0x00ff h
  | byteH => exact merge_writable _ data _ 0x00ff 0xff00 h

theorem handled_dato (start : UInt) (evt : DeviceRegisterEvent)
    (h : reg.activeDatoFlipflops &&& ~~~reg.writableBits = 0) :
    (workerDeviceregisterEvent start evt reg).2.1.activeDatoFlipflops &&& ~~~reg.writableBits =
      0 := by
  unfold workerDeviceregisterEvent
  dsimp only
  split_ifs
  · exact h
  · exact datoFlipflops_writable h _ _
  · exact datoFlipflops_writable h _ _
  · exact datoFlipflops_writable h _ _
  · exact h
  · exact h

end Event

namespace RegisterPath

/-! ## Steps -/

/-- The steps of the bus, the worker and the device logic. -/
inductive Act where
  | dati (addr : UInt)
  | dato (addr : UInt) (w : Word)
  | datob (addr : UInt) (b : Byte)
  | receive
  /-- reads `active_dati_flipflops` -/
  | load
  /-- writes `pru_iopage_register->value` -/
  | store
  /-- sets `active_dato_flipflops`, and calls the device logic -/
  | latch
  | ack
  | setBegin (handle : Handle) (value : Word)
  | setEnd (x : DatiSet)
  /-- The device logic changes its DATO flipflops. -/
  | putDato (handle : Handle) (value : Word)

/-- The event in the mailbox. -/
def event (s : RegisterPath) : DeviceRegisterEvent := s.emulation.deviceregister

def acked (s : RegisterPath) : Bool := s.event.counters.isAcked

/-- What the worker makes of an event, as things are. -/
def handled (s : RegisterPath) (evt : DeviceRegisterEvent) :
    Option Callback × ActiveRegister × Option Word :=
  workerDeviceregisterEvent s.emulation.pages.iopageStartAddr evt (s.registers evt.registerHandle)

def latched (s : RegisterPath) (evt : DeviceRegisterEvent) : RegisterPath :=
  { s with
    registers := Function.update s.registers evt.registerHandle (s.handled evt).2.1
    worker := .called
    pending := s.pending.tail }

/-- The call of the device logic which `latch` makes. -/
def callback (s : RegisterPath) : Option Callback :=
  match s.worker with
  | .handling evt => (s.handled evt).1
  | .restored evt => (s.handled evt).1
  | _ => none

def setDato (reg : ActiveRegister) (value : Word) : ActiveRegister :=
  { reg with activeDatoFlipflops := value }

def setDati (reg : ActiveRegister) (value : Word) : ActiveRegister :=
  { reg with activeDatiFlipflops := value }

/-- A step. `iopage` tells which addresses are in the IO page. -/
def next (iopage : UInt → Bool) (s : RegisterPath) : Act → Option RegisterPath
  | .dati addr => some { s with
      emulation := (s.emulation.addrRead (iopage addr) addr).2
      pending := s.pending ++ (s.emulation.readAccess (iopage addr) addr).toList }
  | .dato addr w => some { s with
      emulation := (s.emulation.addrWriteW (iopage addr) addr w).2
      pending := s.pending ++ (s.emulation.writeAccess (iopage addr) cycleDato addr w).toList }
  | .datob addr b => some { s with
      emulation := (s.emulation.addrWriteB (iopage addr) addr b).2
      pending := s.pending ++ (s.emulation.writeAccess (iopage addr) cycleDatob addr
        (RegisterAccess.lane (addr.getLsbD 0) b)).toList }
  | .receive =>
      if s.worker = .idle ∧ s.acked = false then some { s with worker := .handling s.event }
      else none
  | .load =>
      match s.worker with
      | .handling evt => (s.handled evt).2.2.map fun v => { s with worker := .restoring evt v }
      | _ => none
  | .store =>
      match s.worker with
      | .restoring evt v => some { s with
          emulation := s.emulation.putValue evt.registerHandle v
          worker := .restored evt }
      | _ => none
  | .latch =>
      match s.worker with
      | .handling evt => if (s.handled evt).2.2.isSome then none else some (s.latched evt)
      | .restored evt => some (s.latched evt)
      | _ => none
  | .ack =>
      if s.worker = .called then some { s with
        emulation := { s.emulation with deviceregister := { s.emulation.deviceregister with
          counters := s.emulation.deviceregister.counters.ack } }
        worker := .idle }
      else none
  | .setBegin handle value => some { s with
      registers := Function.update s.registers handle (setDati (s.registers handle) value)
      sets := ⟨handle, (s.registers handle).activeDatiFlipflops, value⟩ :: s.sets }
  | .setEnd x =>
      if x ∈ s.sets then some { s with
        emulation := s.emulation.putValue x.handle x.value
        sets := s.sets.erase x }
      else none
  | .putDato handle value => some { s with
      registers := Function.update s.registers handle (setDato (s.registers handle) value) }

/-! ### What a step of the worker does -/

section Next

variable {iopage : UInt → Bool} {s t : RegisterPath}

theorem receive_cases (h : next iopage s .receive = some t) :
    s.worker = .idle ∧ s.acked = false ∧ t = { s with worker := .handling s.event } := by
  have heq : (if s.worker = .idle ∧ s.acked = false then
      some { s with worker := .handling s.event } else none) = some t := h
  split_ifs at heq with hready
  exact ⟨hready.1, hready.2, (Option.some.inj heq).symm⟩

theorem load_cases (h : next iopage s .load = some t) : ∃ evt v, s.worker = .handling evt ∧
    (s.handled evt).2.2 = some v ∧ t = { s with worker := .restoring evt v } := by
  unfold next at h
  cases hw : s.worker with
  | handling evt =>
    simp only [hw] at h
    obtain ⟨v, hv, heq⟩ := Option.map_eq_some_iff.mp h
    exact ⟨evt, v, rfl, hv, heq.symm⟩
  | idle | restoring | restored | called => simp [hw] at h

theorem store_cases (h : next iopage s .store = some t) : ∃ evt v, s.worker = .restoring evt v ∧
    t = { s with
      emulation := s.emulation.putValue evt.registerHandle v
      worker := .restored evt } := by
  unfold next at h
  cases hw : s.worker with
  | restoring evt v =>
    simp only [hw, Option.some.injEq] at h
    exact ⟨evt, v, rfl, h.symm⟩
  | idle | handling | restored | called => simp [hw] at h

/-- When the device logic is called -/
theorem latch_cases (h : next iopage s .latch = some t) : ∃ evt, t = s.latched evt ∧
    (s.worker = .restored evt ∨ s.worker = .handling evt ∧ (s.handled evt).2.2 = none) := by
  unfold next at h
  cases hw : s.worker with
  | handling evt =>
    simp only [hw] at h
    split_ifs at h with hrestore
    rw [Bool.not_eq_true, Option.isSome_eq_false_iff, Option.isNone_iff_eq_none] at hrestore
    exact ⟨evt, (Option.some.inj h).symm, .inr ⟨rfl, hrestore⟩⟩
  | restored evt =>
    simp only [hw, Option.some.injEq] at h
    exact ⟨evt, h.symm, .inl rfl⟩
  | idle | restoring | called => simp [hw] at h

theorem ack_cases (h : next iopage s .ack = some t) : s.worker = .called ∧
    t = { s with
      emulation := { s.emulation with deviceregister := { s.emulation.deviceregister with
        counters := s.emulation.deviceregister.counters.ack } }
      worker := .idle } := by
  have heq : (if s.worker = .called then some ({ s with
      emulation := { s.emulation with deviceregister := { s.emulation.deviceregister with
        counters := s.emulation.deviceregister.counters.ack } }
      worker := .idle } : RegisterPath) else none) = some t := h
  split_ifs at heq with hw
  exact ⟨hw, (Option.some.inj heq).symm⟩

theorem setEnd_cases {x : DatiSet} (h : next iopage s (.setEnd x) = some t) : x ∈ s.sets ∧
    t = { s with
      emulation := s.emulation.putValue x.handle x.value
      sets := s.sets.erase x } := by
  have heq : (if x ∈ s.sets then some ({ s with
      emulation := s.emulation.putValue x.handle x.value
      sets := s.sets.erase x } : RegisterPath) else none) = some t := h
  split_ifs at heq with hx
  exact ⟨hx, (Option.some.inj heq).symm⟩

end Next

/-! ## What shall hold -/

/-- The DATI flipflops, or while they are being set what they were -/
def Shown (s : RegisterPath) (handle : Handle) (value : Word) : Prop :=
  value = (s.registers handle).activeDatiFlipflops ∨
    ∃ x ∈ s.sets, x.handle = handle ∧ value = x.before

/-- The bits of the bytes that are written -/
def lanes : DatoAccess → Word
  | .word => 0xffff
  | .byteL => 0x00ff
  | .byteH => 0xff00

/-- The DATO flipflops with the bytes replaced, and the bits kept that are not writable -/
def written (reg : ActiveRegister) (access : DatoAccess) (data : Word) : Word :=
  (reg.activeDatoFlipflops &&& ~~~(lanes access &&& reg.writableBits)) |||
    (data &&& (lanes access &&& reg.writableBits))

/-- The call of the device logic after a write -/
def expected (s : RegisterPath) (x : RegisterAccess) : Callback where
  registerHandle := x.reg.eventRegisterHandle
  unibusControl := cycleDato
  access := x.access
  flipflops := written (s.registers x.reg.eventRegisterHandle) x.access x.data

/-- A DATI of a register that is active on DATO returns its DATI flipflops, and after a write the
device logic sees the bytes replaced. -/
def Sound (iopage : UInt → Bool) (s : RegisterPath) : Act → Prop
  | .dati addr => ∀ h, s.emulation.handleAt (iopage addr) addr = some h →
      (s.registers h).activeOnDato = true → Shown s h (s.emulation.pages.registers h).value
  | .latch => ∀ x ∈ s.pending.head?, x.unibusControl ≠ cycleDati → s.callback = some (s.expected x)
  | _ => True

/-- A bus cycle that raises an event, or reads the register of the last one, finds that
acknowledged. No device thread sets DATI flipflops which another one is setting, or while the worker restores
others. The DATO flipflops are given bits that are writable. -/
def Careful (iopage : UInt → Bool) (s : RegisterPath) : Act → Prop
  | .dati addr => (s.emulation.readAccess (iopage addr) addr ≠ none → s.acked = true) ∧
      ∀ h, s.emulation.handleAt (iopage addr) addr = some h → s.event.registerHandle = h →
        s.acked = true
  | .dato addr w => s.emulation.writeAccess (iopage addr) cycleDato addr w ≠ none → s.acked = true
  | .datob addr b => s.emulation.writeAccess (iopage addr) cycleDatob addr
      (RegisterAccess.lane (addr.getLsbD 0) b) ≠ none → s.acked = true
  | .setBegin handle _ => ∀ x ∈ s.sets, x.handle ≠ handle
  | .setEnd x => ∀ evt v, s.worker = .restoring evt v → evt.registerHandle = x.handle → v = x.value
  | .putDato handle value => value &&& ~~~(s.registers handle).writableBits = 0
  | _ => True

/-- The register has an address. -/
def InUse (s : RegisterPath) (h : Handle) : Prop :=
  h.named = true ∧ ∃ c, s.emulation.pages.registerHandles c = h

/-- `register_device` has told the PRU about the registers. -/
structure Registered (s : RegisterPath) : Prop where
  start : s.emulation.pages.iopageStartAddr.getLsbD 0 = false
  same : ∀ h, InUse s h → RegisteredAs (s.emulation.pages.registers h) (s.registers h)
  dato : ∀ h, InUse s h → (s.registers h).activeOnDato = true →
    (s.emulation.pages.registers h).eventFlags &&& eventFlagDato ≠ 0
  handle : ∀ h, InUse s h → (s.emulation.pages.registers h).eventFlags ≠ 0 →
    (s.emulation.pages.registers h).eventRegisterHandle = h

/-- After the registration -/
structure Init (s : RegisterPath) : Prop where
  registered : Registered s
  worker : s.worker = .idle
  acked : s.acked = true
  pending : s.pending = []
  sets : s.sets = []
  value : ∀ h, (s.registers h).activeOnDato = true →
    (s.emulation.pages.registers h).value = (s.registers h).activeDatiFlipflops
  dato : ∀ h, (s.registers h).activeDatoFlipflops &&& ~~~(s.registers h).writableBits = 0

/-- A step that meets a condition -/
def Step (iopage : UInt → Bool) (P : RegisterPath → Act → Prop) (s t : RegisterPath) : Prop :=
  ∃ a, P s a ∧ next iopage s a = some t

/-- The states of all runs -/
abbrev Reached (iopage : UInt → Bool) : RegisterPath → Prop :=
  Transition.Reachable Init (Step iopage fun _ _ => True)

/-- The states of the runs whose steps are all careful -/
abbrev CarefullyReached (iopage : UInt → Bool) : RegisterPath → Prop :=
  Transition.Reachable Init (Step iopage (Careful iopage))

/-! ## What no step changes -/

/-- The map and the descriptors are those of the registration. -/
structure SameSetup (s t : RegisterPath) : Prop where
  start : t.emulation.pages.iopageStartAddr = s.emulation.pages.iopageStartAddr
  map : t.emulation.pages.registerHandles = s.emulation.pages.registerHandles
  layout : s.emulation.SameLayout t.emulation
  active : ∀ h, (t.registers h).activeOnDati = (s.registers h).activeOnDati ∧
    (t.registers h).activeOnDato = (s.registers h).activeOnDato ∧
    (t.registers h).writableBits = (s.registers h).writableBits

theorem SameSetup.withWorker (s : RegisterPath) (w : EventWorker) :
    SameSetup s { s with worker := w } :=
  ⟨rfl, rfl, .refl _, fun _ => ⟨rfl, rfl, rfl⟩⟩

theorem SameSetup.inUse {s t : RegisterPath} (h : SameSetup s t) {i : Handle} :
    InUse t i ↔ InUse s i := by
  unfold InUse
  rw [h.map]

theorem Registered.congr {s t : RegisterPath} (h : SameSetup s t) (hs : Registered s) :
    Registered t where
  start := by
    rw [h.start]
    exact hs.start
  same i hi := by
    obtain ⟨hflags, -, hbits⟩ := h.layout.descriptor i
    obtain ⟨hdati, hdato, hwritable⟩ := h.active i
    have hold := hs.same i (h.inUse.mp hi)
    unfold RegisteredAs at hold ⊢
    rw [hflags, hbits, hdati, hdato, hwritable]
    exact hold
  dato i hi hactive := by
    rw [(h.layout.descriptor i).1]
    rw [(h.active i).2.1] at hactive
    exact hs.dato i (h.inUse.mp hi) hactive
  handle i hi hflags := by
    obtain ⟨hflags', hhandle, -⟩ := h.layout.descriptor i
    rw [hflags'] at hflags
    rw [hhandle]
    exact hs.handle i (h.inUse.mp hi) hflags

end RegisterPath

end QUniBone
