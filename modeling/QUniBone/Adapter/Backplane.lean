import QUniBone.Adapter.IoPage
import Mathlib.Logic.Function.Basic

/-!
# Plugging devices and ROMs into the IO page

`qunibusadapter_c::register_device`, `unregister_device`, `register_rom`, `unregister_rom`.
Three tables have to agree: the map from addresses to handles that the PRU reads, the table
`register_by_handle` that leads from a handle back to the register of a device, and the
backplane slots `devices`.

* `State`: these tables and the devices.
* `registerDevice`, `unregisterDevice`, `registerRom`, `unregisterRom`: the calls.
-/

namespace QUniBone.QUnibusAdapter

/-- `MAX_DEVICE_HANDLE` -/
def maxDeviceHandle : ℕ := 255

/-- `qunibusdevice_register_t`, as far as registration goes. A register is named by its
device and its index, so the pointers back to these two are not kept. -/
structure DeviceReg where
  addr : UInt
  registerHandle : Handle
  activeOnDati : Bool
  activeOnDato : Bool
  resetValue : Word
  writableBits : Word

/-- `qunibusdevice_c` -/
structure Device where
  /-- 0: not plugged in. -/
  handle : ℕ
  baseAddr : UInt
  registerCount : ℕ
  registers : ℕ → DeviceReg
  /-- Whether `dynamic_cast<unibuscpu_c*>` succeeds. -/
  isCpu : Bool

/-- The part of `qunibus_c` that tells where the IO page is. -/
structure AddrSpace where
  iopageStartAddr : UInt
  addrSpaceByteCount : UInt

/-- The tables of the adapter and the map it shares with the PRU. Devices are C++ objects,
known by their identity `ι`. -/
structure State (ι : Type) where
  device : ι → Device
  devices : ℕ → Option ι
  registerByHandle : Handle → Option (ι × ℕ)
  registeredCpu : Option ι
  /-- `pru_iopage_registers->register_handles` -/
  registerHandles : Cell → Handle
  /-- `pru_iopage_registers->registers` -/
  registers : Handle → PruRegister
  /-- The flag `emulate_cpu` of the PRU. -/
  emulateCpu : Bool

variable {ι : Type} [DecidableEq ι]

namespace Device

/-- An update of `device.registers[i]`. -/
def modifyReg (dev : Device) (i : ℕ) (f : DeviceReg → DeviceReg) : Device :=
  { dev with registers := Function.update dev.registers i (f (dev.registers i)) }

/-- `base_addr.value + 2*i` -/
def addrOf (dev : Device) (i : ℕ) : UInt := dev.baseAddr + BitVec.ofNat 32 (2 * i)

def plugged (dev : Device) : Prop := dev.handle ≠ 0

end Device

namespace State

def modifyDevice (s : State ι) (d : ι) (f : Device → Device) : State ι :=
  { s with device := Function.update s.device d (f (s.device d)) }

/-- Register `i` of device `d`. -/
def reg (s : State ι) (d : ι) (i : ℕ) : DeviceReg := (s.device d).registers i

end State

/-! ## The calls

A call returns `none` where an assertion or `FATAL` ends the program. -/

/-- The search for a free backplane position. -/
def freeSlot (devices : ℕ → Option ι) : Option ℕ :=
  (List.range' 1 maxDeviceHandle).find? fun n => (devices n).isNone

/-- The check of `n` registers from the `i`-th on for conflicts. It stops at the first. -/
def checkConflicts (cells : Cell → Handle) : ℕ → ℕ → Device → Device × Bool
  | 0, _, dev => (dev, true)
  | n + 1, i, dev =>
    let dev := dev.modifyReg i ({ · with addr := dev.addrOf i })
    if (cells (entry (dev.registers i).addr)).named then (dev, false)
    else checkConflicts cells n (i + 1) dev

/-- The shared descriptor of a register with handle `h`. -/
def describe (reg : DeviceReg) (h : Handle) : PruRegister where
  value := reg.resetValue
  resetValue := reg.resetValue
  writableBits := reg.writableBits
  eventRegisterHandle := if reg.activeOnDati || reg.activeOnDato then h else 0
  eventFlags := (if reg.activeOnDati then eventFlagDati else 0) |||
    (if reg.activeOnDato then eventFlagDato else 0)

/-- A register the configuration check refuses: active on DATI, passive on DATO, writable. -/
def DeviceReg.misconfigured (reg : DeviceReg) : Bool :=
  reg.activeOnDati && !reg.activeOnDato && reg.writableBits != 0

/-- Adds register `i` of device `d` to the shared map, under the handle `h`. -/
def addRegister (s : State ι) (d : ι) (i : ℕ) (h : Handle) : Option (State ι) :=
  if (s.registerByHandle h).isSome || (s.reg d i).misconfigured then none
  else
    let addr := (s.device d).addrOf i
    some { s with
      device := Function.update s.device d <|
        (s.device d).modifyReg i ({ · with addr := addr, registerHandle := h })
      registerByHandle := Function.update s.registerByHandle h (some (d, i))
      registers := Function.update s.registers h (describe (s.reg d i) h)
      registerHandles := Function.update s.registerHandles (entry addr) h }

/-- Adds `n` registers from the `i`-th on, with handles counting up from `h`. -/
def addRegisters (d : ι) : ℕ → ℕ → ℕ → State ι → Option (State ι)
  | 0, _, _, s => some s
  | n + 1, i, h, s => (addRegister s d i (BitVec.ofNat 8 h)).bind (addRegisters d n (i + 1) (h + 1))

/-- Gives a backplane position back. -/
def giveBack (s : State ι) (d : ι) (slot : ℕ) : State ι :=
  { s.modifyDevice d ({ · with handle := 0 }) with
    devices := Function.update s.devices slot none }

/-- The tail of `register_device`: a CPU is noted, only one is allowed. -/
def noteCpu (s : State ι) (d : ι) : Option (State ι) :=
  if (s.device d).isCpu then
    if s.registeredCpu.isSome then none else some { s with registeredCpu := some d }
  else some s

/-- `register_device` -/
def registerDevice (s : State ι) (d : ι) : Option (Bool × State ι) :=
  if (s.device d).handle ≠ 0 ∨ maxIopageRegisterCount < (s.device d).registerCount then none
  else
    match freeSlot s.devices with
    | none => some (false, s)
    | some slot =>
      let s := { s.modifyDevice d ({ · with handle := slot }) with
        devices := Function.update s.devices slot (some d) }
      let count := (s.device d).registerCount
      let (dev, free) := checkConflicts s.registerHandles count 0 (s.device d)
      let s := s.modifyDevice d fun _ => dev
      if !free then some (false, giveBack s d slot)
      else
        let last := lastHandle s.registerHandles
        if maxIopageRegisterCount - last - 1 < count then some (false, giveBack s d slot)
        else ((addRegisters d count 0 (last + 1) s).bind (noteCpu · d)).map (true, ·)

/-- Takes register `i` of device `d` out of the shared map. -/
def removeRegister (s : State ι) (d : ι) (i : ℕ) : State ι :=
  { s with
    registerHandles := Function.update s.registerHandles (entry (s.reg d i).addr) 0
    registerByHandle := Function.update s.registerByHandle (s.reg d i).registerHandle none }

/-- Takes `n` registers from the `i`-th on out of the shared map. -/
def removeRegisters (d : ι) : ℕ → ℕ → State ι → State ι
  | 0, _, s => s
  | n + 1, i, s => removeRegisters d n (i + 1) (removeRegister s d i)

/-- `unregister_device` -/
def unregisterDevice (s : State ι) (d : ι) : Option (State ι) :=
  if (s.device d).handle = 0 then none
  else
    let s := if (s.device d).isCpu then { s with registeredCpu := none, emulateCpu := false } else s
    let s := { s.modifyDevice d ({ · with handle := 0 }) with
      devices := Function.update s.devices (s.device d).handle none }
    some (removeRegisters d (s.device d).registerCount 0 s)

/-- The address check shared by the two ROM calls. -/
def AddrSpace.romAddr (bus : AddrSpace) (address : UInt) : Prop :=
  address &&& 1 = 0 ∧ bus.iopageStartAddr ≤ address ∧ address ≤ bus.addrSpaceByteCount - 2

instance (bus : AddrSpace) (address : UInt) : Decidable (bus.romAddr address) :=
  inferInstanceAs (Decidable (_ ∧ _ ∧ _))

/-- `register_rom` -/
def registerRom (bus : AddrSpace) (s : State ι) (address : UInt) : Option (Bool × State ι) :=
  let cell := s.registerHandles (entry address)
  if ¬ bus.romAddr address ∨ cell = handleRom then none
  else if cell != 0 && cell != handleRom then some (false, s)
  else some (true, { s with
    registerHandles := Function.update s.registerHandles (entry address) handleRom })

/-- `unregister_rom` -/
def unregisterRom (bus : AddrSpace) (s : State ι) (address : UInt) : Option (State ι) :=
  let cell := s.registerHandles (entry address)
  if ¬ bus.romAddr address then none
  else if cell = 0 then some s
  else if cell ≠ handleRom then some s
  else some { s with registerHandles := Function.update s.registerHandles (entry address) 0 }

end QUniBone.QUnibusAdapter
