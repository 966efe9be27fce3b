import QUniBone.Pru.Emulation

/-!
# Accesses to active device registers

An access to a register with an event flag is signalled to ARM, where the device logic is called
(`qunibusadapter_c::worker_deviceregister_event`).

* `RegisterAccess`: such an access, `accessAt`: the one that a cycle makes.
* `Takes`: what becomes of the registers and the mailbox event.
* `workerDeviceregisterEvent`: what ARM does with the event.
* `callback_of_event`: the device logic is called for the access that raised the event.
-/

namespace QUniBone

/-- An access to a register that wants an event. -/
structure RegisterAccess where
  unibusControl : Byte
  addr : UInt
  /-- on the data lines; for DATI what the register holds -/
  data : Word
  /-- the register before the access -/
  reg : PruRegister
  deriving DecidableEq

namespace RegisterAccess

/-- The byte that a DATOB writes, in its lane. -/
def lane (odd : Bool) (b : Byte) : Word := if odd then b.setWidth 16 <<< 8 else b.setWidth 16

/-- The register value that goes with the event. -/
def value (x : RegisterAccess) : Word :=
  if x.unibusControl = cycleDati then x.reg.value
  else if x.unibusControl = cycleDato then
    (x.reg.value &&& ~~~x.reg.writableBits) ||| (x.data &&& x.reg.writableBits)
  else if x.addr.getLsbD 0 then
    (x.reg.value &&& 0x00ff) ||| (x.reg.value &&& ~~~x.reg.writableBits &&& 0xff00) |||
      (x.data &&& x.reg.writableBits)
  else
    (x.reg.value &&& 0xff00) ||| (x.reg.value &&& ~~~x.reg.writableBits &&& 0x00ff) |||
      (x.data &&& x.reg.writableBits)

/-- The mailbox event of the access. -/
def event (x : RegisterAccess) (counters : Event) : DeviceRegisterEvent :=
  ⟨counters, x.unibusControl, x.reg.eventRegisterHandle, x.value, x.addr⟩

end RegisterAccess

namespace Emulation

/-- The register a cycle finds at `addr`, unless there is memory, ROM or nothing. -/
def registerAt (e : Emulation) (iopage : Bool) (addr : UInt) : Option PruRegister :=
  if e.isMemory addr then none
  else if iopage then
    if (e.pages.registerHandles (entry addr)).named then
      some (e.pages.registers (e.pages.registerHandles (entry addr)))
    else none
  else none

/-- The access made by a DATI. -/
def readAccess (e : Emulation) (iopage : Bool) (addr : UInt) : Option RegisterAccess :=
  (e.registerAt iopage addr).bind fun reg =>
    if reg.eventFlags &&& eventFlagDati ≠ 0 then some ⟨cycleDati, addr, reg.value, reg⟩ else none

/-- The access made by a DATO or DATOB. -/
def writeAccess (e : Emulation) (iopage : Bool) (control : Byte) (addr : UInt) (data : Word) :
    Option RegisterAccess :=
  (e.registerAt iopage addr).bind fun reg =>
    if reg.eventFlags &&& eventFlagDato ≠ 0 then some ⟨control, addr, data, reg⟩ else none

/-! ## What an access changes -/

/-- The registers keep their descriptors, all but the values. -/
def SameLayout (e e' : Emulation) : Prop :=
  ∀ h, { e'.pages.registers h with value := 0 } = { e.pages.registers h with value := 0 }

theorem SameLayout.refl (e : Emulation) : SameLayout e e := fun _ => rfl

theorem SameLayout.trans {e e' e'' : Emulation} (h : SameLayout e e') (h' : SameLayout e' e'') :
    SameLayout e e'' := fun i => (h' i).trans (h i)

/-- The event in the mailbox is the one of the access, if there was one. -/
structure Takes (x : Option RegisterAccess) (e e' : Emulation) : Prop where
  event : e'.deviceregister =
    match x with
    | none => e.deviceregister
    | some x => x.event e.deviceregister.counters.signal
  layout : SameLayout e e'

theorem Takes.refl (e : Emulation) : Takes none e e := ⟨rfl, .refl e⟩

/-- An access shows in the counters. -/
theorem Takes.eq_none {x : Option RegisterAccess} {e : Emulation} (h : Takes x e e) : x = none := by
  cases x with
  | none => rfl
  | some x =>
    have hcount := congrArg (fun d => d.counters.signaled) h.event
    have hnext : e.deviceregister.counters.signaled =
        e.deviceregister.counters.signaled + 1 := hcount
    simp at hnext

/-- A register is stored, and signalled if it wants that. -/
theorem store_takes (e : Emulation) (control : Byte) (addr : UInt) (data val : Word)
    (handle : Handle) (hval : (RegisterAccess.mk control addr data (e.pages.registers handle)).value = val) :
    Takes (if (e.pages.registers handle).eventFlags &&& eventFlagDato ≠ 0 then
      some ⟨control, addr, data, e.pages.registers handle⟩ else none) e
      (e.store handle val control addr) := by
  have hlayout : ∀ h, { (Function.update e.pages.registers handle
      { e.pages.registers handle with value := val }) h with value := 0 } =
      { e.pages.registers h with value := 0 } := by
    intro h
    by_cases hh : h = handle
    · subst hh
      rw [Function.update_self]
    · rw [Function.update_of_ne hh]
  unfold store
  by_cases hflag : (e.pages.registers handle).eventFlags &&& eventFlagDato ≠ 0
  · simp only [if_pos hflag]
    refine ⟨?_, hlayout⟩
    subst hval
    rfl
  · simp only [if_neg hflag]
    exact ⟨rfl, hlayout⟩

/-- A cell of the IO page holds nothing, a ROM word or a register. -/
theorem registerAt_eq_none {e : Emulation} {iopage : Bool} {addr : UInt}
    (h : e.isMemory addr = true ∨ iopage = false ∨
      e.pages.registerHandles (entry addr) = 0 ∨
      e.pages.registerHandles (entry addr) = handleRom) : e.registerAt iopage addr = none := by
  unfold registerAt
  split_ifs with hmem hio hnamed
  · rfl
  · simp only [Handle.named, Bool.and_eq_true, bne_iff_ne] at hnamed
    rcases h with h | h | h | h
    · exact absurd h hmem
    · exact absurd (hio.symm.trans h) (by decide)
    · exact absurd h hnamed.1
    · exact absurd h hnamed.2
  · rfl
  · rfl

theorem registerAt_named {e : Emulation} {iopage : Bool} {addr : UInt}
    (hmem : ¬ e.isMemory addr = true) (hio : iopage = true)
    (hzero : ¬ e.pages.registerHandles (entry addr) = 0)
    (hrom : ¬ e.pages.registerHandles (entry addr) = handleRom) :
    e.registerAt iopage addr =
      some (e.pages.registers (e.pages.registerHandles (entry addr))) := by
  have hnamed : (e.pages.registerHandles (entry addr)).named = true := by
    simp only [Handle.named, Bool.and_eq_true, bne_iff_ne]
    exact ⟨hzero, hrom⟩
  rw [registerAt, if_neg hmem, if_pos hio, if_pos hnamed]

theorem addrRead_takes (e : Emulation) (iopage : Bool) (addr : UInt) :
    Takes (e.readAccess iopage addr) e (e.addrRead iopage addr).2 := by
  unfold addrRead readAccess
  simp only
  split_ifs with hmem hio hzero hrom hflag
  · rw [registerAt_eq_none (.inl hmem)]
    exact .refl e
  · rw [registerAt_eq_none (.inr (.inr (.inl hzero)))]
    exact .refl e
  · rw [registerAt_eq_none (.inr (.inr (.inr hrom)))]
    exact .refl e
  · rw [registerAt_named hmem hio hzero hrom, Option.bind_some, if_pos hflag]
    exact ⟨rfl, .refl e⟩
  · rw [registerAt_named hmem hio hzero hrom, Option.bind_some, if_neg hflag]
    exact .refl e
  · rw [registerAt_eq_none (.inr (.inl (Bool.eq_false_iff.mpr hio)))]
    exact .refl e

theorem addrWriteW_takes (e : Emulation) (iopage : Bool) (addr : UInt) (w : Word) :
    Takes (e.writeAccess iopage cycleDato addr w) e (e.addrWriteW iopage addr w).2 := by
  unfold addrWriteW writeAccess
  simp only
  split_ifs with hmem hio hzero hrom
  · rw [registerAt_eq_none (.inl hmem)]
    exact ⟨rfl, fun _ => rfl⟩
  · rw [registerAt_eq_none (.inr (.inr (.inl hzero)))]
    exact .refl e
  · rw [registerAt_eq_none (.inr (.inr (.inr hrom)))]
    exact .refl e
  · rw [registerAt_named hmem hio hzero hrom, Option.bind_some]
    exact store_takes e cycleDato addr w _ _ rfl
  · rw [registerAt_eq_none (.inr (.inl (Bool.eq_false_iff.mpr hio)))]
    exact .refl e

theorem addrWriteB_takes (e : Emulation) (iopage : Bool) (addr : UInt) (b : Byte) :
    Takes (e.writeAccess iopage cycleDatob addr (RegisterAccess.lane (addr.getLsbD 0) b)) e
      (e.addrWriteB iopage addr b).2 := by
  unfold addrWriteB writeAccess
  simp only
  split_ifs with hmem hio hzero hrom hodd
  · rw [registerAt_eq_none (.inl hmem)]
    exact ⟨rfl, fun _ => rfl⟩
  · rw [registerAt_eq_none (.inr (.inr (.inl hzero)))]
    exact .refl e
  · rw [registerAt_eq_none (.inr (.inr (.inr hrom)))]
    exact .refl e
  · rw [registerAt_named hmem hio hzero hrom, Option.bind_some]
    refine store_takes e cycleDatob addr _ _ _ ?_
    simp only [RegisterAccess.value, RegisterAccess.lane, hodd, if_true]
    rfl
  · rw [registerAt_named hmem hio hzero hrom, Option.bind_some]
    refine store_takes e cycleDatob addr _ _ _ ?_
    rw [Bool.not_eq_true] at hodd
    simp only [RegisterAccess.value, RegisterAccess.lane, hodd, Bool.false_eq_true, if_false]
    rfl
  · rw [registerAt_eq_none (.inr (.inl (Bool.eq_false_iff.mpr hio)))]
    exact .refl e

/-- INIT loads the reset values. -/
theorem resetValues_takes (e : Emulation) : Takes none e e.resetValues := by
  refine ⟨rfl, fun h => ?_⟩
  show { (if h.toNat < maxIopageRegisterCount then
    { e.pages.registers h with value := (e.pages.registers h).resetValue }
    else e.pages.registers h) with value := 0 } = _
  split_ifs <;> rfl

end Emulation

/-! ## The device logic -/

/-- `DATO_ACCESS` -/
inductive DatoAccess
  | word
  | byteL
  | byteH
  deriving DecidableEq

/-- `qunibusdevice_register_t`, as far as events go. -/
structure ActiveRegister where
  activeOnDati : Bool
  activeOnDato : Bool
  writableBits : Word
  activeDatiFlipflops : Word
  activeDatoFlipflops : Word

/-- A call of `on_after_register_access`: which register, how it was accessed, and what its DATO
flipflops hold at that moment. -/
structure Callback where
  registerHandle : Handle
  unibusControl : Byte
  access : DatoAccess
  flipflops : Word

/-- The DATO flipflops after a write of `data` to an active register. -/
def datoFlipflops (reg : ActiveRegister) (access : DatoAccess) (data : Word) : Word :=
  match access with
  | .word => data &&& reg.writableBits
  | .byteH => (reg.activeDatoFlipflops &&& 0x00ff) ||| (data &&& reg.writableBits &&& 0xff00)
  | .byteL => (reg.activeDatoFlipflops &&& 0xff00) ||| (data &&& reg.writableBits &&& 0x00ff)

/-- `worker_deviceregister_event`, for a register found in `register_by_handle`: the call of the
device logic, and for a DATO the value that the next DATI is to read again. A bus cycle with
another control code than the PRU uses leaves the flipflops alone. -/
def workerDeviceregisterEvent (iopageStartAddr : UInt) (evt : DeviceRegisterEvent)
    (reg : ActiveRegister) : Option Callback × ActiveRegister × Option Word :=
  let evtAddr := iopageStartAddr + (evt.addr &&& 0x1fff)
  if reg.activeOnDati && !cycleIsDato evt.unibusControl then
    (some ⟨evt.registerHandle, cycleDati, .word, reg.activeDatoFlipflops⟩, reg, none)
  else if reg.activeOnDato && cycleIsDato evt.unibusControl then
    let restored := some reg.activeDatiFlipflops
    let call (control : Byte) (access : DatoAccess) (flipflops : Word) :
        Option Callback × ActiveRegister × Option Word :=
      (some ⟨evt.registerHandle, control, access, flipflops⟩,
        { reg with activeDatoFlipflops := flipflops }, restored)
    if evt.unibusControl = cycleDato then
      call cycleDato .word (datoFlipflops reg .word evt.data)
    else if evt.unibusControl = cycleDatob then
      let access := if evtAddr.getLsbD 0 then DatoAccess.byteH else .byteL
      call cycleDato access (datoFlipflops reg access evt.data)
    else call evt.unibusControl .word reg.activeDatoFlipflops
  else (none, reg, none)

namespace RegisterAccess

/-- How the device logic is told about the access. -/
def access (x : RegisterAccess) : DatoAccess :=
  if x.unibusControl = cycleDatob then if x.addr.getLsbD 0 then .byteH else .byteL else .word

/-- The call the access asks for: its register, the kind of cycle and for a write its data. -/
def callback (x : RegisterAccess) (reg : ActiveRegister) : Callback where
  registerHandle := x.reg.eventRegisterHandle
  unibusControl := if x.unibusControl = cycleDati then cycleDati else cycleDato
  access := x.access
  flipflops :=
    if x.unibusControl = cycleDati then reg.activeDatoFlipflops
    else datoFlipflops reg x.access x.data

/-- The cycles that raise events. -/
def Known (x : RegisterAccess) : Prop :=
  x.unibusControl = cycleDati ∧ x.reg.eventFlags &&& eventFlagDati ≠ 0 ∨
    (x.unibusControl = cycleDato ∨ x.unibusControl = cycleDatob) ∧
      x.reg.eventFlags &&& eventFlagDato ≠ 0

end RegisterAccess

/-- The descriptor that the PRU has of a register agrees with ARM's (`register_device`). -/
def RegisteredAs (p : PruRegister) (reg : ActiveRegister) : Prop :=
  (p.eventFlags &&& eventFlagDati ≠ 0 → reg.activeOnDati = true) ∧
    (p.eventFlags &&& eventFlagDato ≠ 0 → reg.activeOnDato = true) ∧
    (p.eventFlags ≠ 0 → p.writableBits = reg.writableBits)

theorem merged_and_word (v d w : Word) : ((v &&& ~~~w) ||| (d &&& w)) &&& w = d &&& w := by
  ext i hi
  simp only [BitVec.getElem_and, BitVec.getElem_or, BitVec.getElem_not]
  cases v[i] <;> cases d[i] <;> cases w[i] <;> rfl

/-- The lane that is written comes from the data, whatever the register held. -/
theorem merged_and_lane (v d w keep lane : Word) (h : keep &&& lane = 0) :
    ((v &&& keep) ||| (v &&& ~~~w &&& lane) ||| (d &&& w)) &&& w &&& lane = d &&& w &&& lane := by
  ext i hi
  have hbit : (keep[i] && lane[i]) = false := by
    rw [← BitVec.getElem_and, h]
    exact BitVec.getElem_zero hi
  simp only [BitVec.getElem_and, BitVec.getElem_or, BitVec.getElem_not]
  revert hbit
  cases v[i] <;> cases d[i] <;> cases w[i] <;> cases keep[i] <;> cases lane[i] <;> decide

theorem datoFlipflops_value {x : RegisterAccess} {reg : ActiveRegister}
    (hcontrol : x.unibusControl = cycleDato ∨ x.unibusControl = cycleDatob)
    (hbits : x.reg.writableBits = reg.writableBits) :
    datoFlipflops reg x.access x.value = datoFlipflops reg x.access x.data := by
  rcases hcontrol with hdato | hdatob
  · have hword : x.access = .word := by
      rw [RegisterAccess.access, hdato]
      rfl
    have hval : x.value =
        (x.reg.value &&& ~~~x.reg.writableBits) ||| (x.data &&& x.reg.writableBits) := by
      rw [RegisterAccess.value, hdato]
      rfl
    rw [hword, hval, hbits]
    exact merged_and_word _ _ _
  · cases hodd : x.addr.getLsbD 0 with
    | true =>
      have hlane : x.access = .byteH := by
        rw [RegisterAccess.access, if_pos hdatob, hodd, if_pos rfl]
      have hval : x.value =
          (x.reg.value &&& 0x00ff) ||| (x.reg.value &&& ~~~x.reg.writableBits &&& 0xff00) |||
            (x.data &&& x.reg.writableBits) := by
        rw [RegisterAccess.value, hdatob, hodd]
        rfl
      rw [hlane, hval, hbits]
      exact congrArg (reg.activeDatoFlipflops &&& 0x00ff ||| ·)
        (merged_and_lane _ _ _ 0x00ff 0xff00 (by decide))
    | false =>
      have hlane : x.access = .byteL := by
        rw [RegisterAccess.access, if_pos hdatob, hodd, if_neg Bool.false_ne_true]
      have hval : x.value =
          (x.reg.value &&& 0xff00) ||| (x.reg.value &&& ~~~x.reg.writableBits &&& 0x00ff) |||
            (x.data &&& x.reg.writableBits) := by
        rw [RegisterAccess.value, hdatob, hodd]
        rfl
      rw [hlane, hval, hbits]
      exact congrArg (reg.activeDatoFlipflops &&& 0xff00 ||| ·)
        (merged_and_lane _ _ _ 0xff00 0x00ff (by decide))

/-- The IO page begins at an even address. -/
theorem evtAddr_odd {start : UInt} (hstart : start.getLsbD 0 = false) (addr : UInt) :
    (start + (addr &&& 0x1fff)).getLsbD 0 = addr.getLsbD 0 := by
  have hlow : (addr &&& 0x1fff).getLsbD 0 = addr.getLsbD 0 := by
    rw [BitVec.getLsbD_and]
    exact Bool.and_true _
  rw [← hlow]
  simp only [BitVec.getLsbD, Nat.testBit_zero, decide_eq_false_iff_not] at hstart ⊢
  rw [BitVec.toNat_add, decide_eq_decide]
  omega

/-- The device logic is called for the access that raised the event. -/
theorem callback_of_event {start : UInt} {x : RegisterAccess} {reg : ActiveRegister} (counters : Event)
    (hstart : start.getLsbD 0 = false) (hknown : x.Known) (hreg : RegisteredAs x.reg reg) :
    (workerDeviceregisterEvent start (x.event counters) reg).1 = some (x.callback reg) := by
  rcases hknown with ⟨hdati, hflag⟩ | ⟨hwrite, hflag⟩
  · simp only [workerDeviceregisterEvent, RegisterAccess.event, hdati, hreg.1 hflag, RegisterAccess.callback,
      RegisterAccess.access]
    rfl
  · have hflags : x.reg.eventFlags ≠ 0 := by
      intro hc
      rw [hc] at hflag
      exact hflag (by decide)
    have hvalue := datoFlipflops_value hwrite (hreg.2.2 hflags)
    rcases hwrite with hdato | hdatob
    · have hword : x.access = .word := by
        rw [RegisterAccess.access, hdato]
        rfl
      rw [hword] at hvalue
      simp only [workerDeviceregisterEvent, RegisterAccess.event, hdato, hreg.2.1 hflag, RegisterAccess.callback,
        hword, hvalue]
      cases reg.activeOnDati <;> rfl
    · have hlane : (if (start + (x.addr &&& 0x1fff)).getLsbD 0 then DatoAccess.byteH else .byteL) =
          x.access := by
        rw [evtAddr_odd hstart, RegisterAccess.access, if_pos hdatob]
      simp only [workerDeviceregisterEvent, RegisterAccess.event, hdatob, hreg.2.1 hflag, RegisterAccess.callback,
        hlane, hvalue]
      cases reg.activeOnDati <;> rfl

section Known

variable {e : Emulation} {iopage : Bool} {addr : UInt} {x : RegisterAccess}

theorem Emulation.registerAt_mem {reg : PruRegister} (h : e.registerAt iopage addr = some reg) :
    ∃ handle, reg = e.pages.registers handle := by
  unfold Emulation.registerAt at h
  split_ifs at h
  cases h
  exact ⟨_, rfl⟩

theorem Emulation.readAccess_known (h : e.readAccess iopage addr = some x) :
    x.Known ∧ ∃ handle, x.reg = e.pages.registers handle := by
  obtain ⟨reg, hreg, hx⟩ := Option.bind_eq_some_iff.mp h
  split_ifs at hx with hflag
  cases hx
  exact ⟨.inl ⟨rfl, hflag⟩, registerAt_mem hreg⟩

theorem Emulation.writeAccess_known {control : Byte} {data : Word}
    (hcontrol : control = cycleDato ∨ control = cycleDatob)
    (h : e.writeAccess iopage control addr data = some x) :
    x.Known ∧ ∃ handle, x.reg = e.pages.registers handle := by
  obtain ⟨reg, hreg, hx⟩ := Option.bind_eq_some_iff.mp h
  split_ifs at hx with hflag
  cases hx
  exact ⟨.inr ⟨hcontrol, hflag⟩, registerAt_mem hreg⟩

end Known

end QUniBone
