import QUniBone.Adapter.IoPage
import QUniBone.Pru.Mailbox
import Mathlib.Logic.Function.Basic

/-!
# What the PRU answers bus cycles with

`pru1_iopageregisters.c` in its UNIBUS and its QBUS version: emulated memory in the shared DDR
RAM, ROM cells there, and device registers, which may signal an event to ARM. The two versions
differ in how they recognize the IO page and in what they return.

* `Emulation.addrRead`, `addrWriteW`, `addrWriteB`: the common bodies.
* `PruU.emulatedAddrRead`, …: the UNIBUS functions.
* `PruQ.emulatedAddrRead`, …: the QBUS functions.
-/

namespace QUniBone

/-! ## Bus cycles -/

/-- `QUNIBUS_CYCLE_DATI` -/
def cycleDati : Byte := 0x00

/-- `QUNIBUS_CYCLE_DATIP` -/
def cycleDatip : Byte := 0x01

/-- `QUNIBUS_CYCLE_DATO` -/
def cycleDato : Byte := 0x02

/-- `QUNIBUS_CYCLE_DATOB` -/
def cycleDatob : Byte := 0x03

/-- `QUNIBUS_CYCLE_IS_DATO(c)` -/
def cycleIsDato (c : Byte) : Bool := c.getLsbD 1

/-! ## Memory -/

/-- The shared DDR RAM, by word index. -/
abbrev Ddrmem := UInt → Word

namespace Ddrmem

/-- `DDRMEM_MEMGET_W` -/
def getW (m : Ddrmem) (addr : UInt) : Word := m (addr >>> 1)

/-- `DDRMEM_MEMSET_W` -/
def setW (m : Ddrmem) (addr : UInt) (w : Word) : Ddrmem := Function.update m (addr >>> 1) w

/-- `w` with one of its bytes replaced. -/
def withByte (w : Word) (odd : Bool) (b : Byte) : Word :=
  if odd then (w &&& 0x00ff) ||| (b.setWidth 16 <<< 8) else (w &&& 0xff00) ||| b.setWidth 16

/-- `DDRMEM_MEMSET_B`: the bytes of the RAM are the halves of its words, low byte first. -/
def setB (m : Ddrmem) (addr : UInt) (b : Byte) : Ddrmem :=
  Function.update m (addr >>> 1) (withByte (m (addr >>> 1)) (addr.getLsbD 0) b)

end Ddrmem

/-! ## Addresses -/

/-- `mailbox_event_deviceregister_t` -/
structure DeviceRegisterEvent where
  counters : Event
  unibusControl : Byte
  registerHandle : Handle
  data : Word
  addr : UInt
  deriving DecidableEq, Inhabited

/-- What the functions below work on. -/
structure Emulation where
  pages : PruIopageRegisters
  ddrmem : Ddrmem
  deviceregister : DeviceRegisterEvent

/-- Who answered: emulated memory or something in the IO page. -/
inductive Hit
  | memory
  | iopage

namespace Emulation

/-- Whether `addr` is emulated memory. -/
def isMemory (e : Emulation) (addr : UInt) : Bool :=
  decide (addr < e.pages.memoryLimitAddr) && decide (addr ≥ e.pages.memoryStartAddr)

/-- `DO_EVENT_DEVICEREGISTER` -/
def doEvent (e : Emulation) (reg : PruRegister) (control : Byte) (addr : UInt) (data : Word) :
    Emulation :=
  { e with deviceregister := {
      counters := e.deviceregister.counters.signal
      unibusControl := control
      registerHandle := reg.eventRegisterHandle
      data := data
      addr := addr } }

/-- Stores `val` in the register with the given handle, and signals the cycle if the register
wants it. -/
def store (e : Emulation) (handle : Handle) (val : Word) (control : Byte) (addr : UInt) :
    Emulation :=
  let reg := { e.pages.registers handle with value := val }
  let e := { e with pages := { e.pages with
    registers := Function.update e.pages.registers handle reg } }
  if reg.eventFlags &&& eventFlagDato ≠ 0 then e.doEvent reg control addr val else e

/-- `emulated_addr_read`, for an address of which `iopage` tells whether it is in the IO page. -/
def addrRead (e : Emulation) (iopage : Bool) (addr : UInt) : Option (Hit × Word) × Emulation :=
  if e.isMemory addr then (some (.memory, e.ddrmem.getW addr), e)
  else if iopage then
    let reghandle := e.pages.registerHandles (entry addr)
    if reghandle = 0 then (none, e)
    else if reghandle = handleRom then (some (.memory, e.ddrmem.getW addr), e)
    else
      let reg := e.pages.registers reghandle
      let e := if reg.eventFlags &&& eventFlagDati ≠ 0 then
        e.doEvent reg cycleDati addr reg.value else e
      (some (.iopage, reg.value), e)
  else (none, e)

/-- `emulated_addr_write_w` -/
def addrWriteW (e : Emulation) (iopage : Bool) (addr : UInt) (w : Word) :
    Option Hit × Emulation :=
  if e.isMemory addr then (some .memory, { e with ddrmem := e.ddrmem.setW addr w })
  else if iopage then
    let reghandle := e.pages.registerHandles (entry addr)
    if reghandle = 0 then (none, e)
    else if reghandle = handleRom then (none, e)
    else
      let reg := e.pages.registers reghandle
      let val := (reg.value &&& ~~~reg.writableBits) ||| (w &&& reg.writableBits)
      (some .iopage, e.store reghandle val cycleDato addr)
  else (none, e)

/-- `emulated_addr_write_b` -/
def addrWriteB (e : Emulation) (iopage : Bool) (addr : UInt) (b : Byte) :
    Option Hit × Emulation :=
  if e.isMemory addr then (some .memory, { e with ddrmem := e.ddrmem.setB addr b })
  else if iopage then
    let reghandle := e.pages.registerHandles (entry addr)
    if reghandle = 0 then (none, e)
    else if reghandle = handleRom then (none, e)
    else
      let reg := e.pages.registers reghandle
      let val :=
        if addr.getLsbD 0 then
          (reg.value &&& 0x00ff) ||| (reg.value &&& ~~~reg.writableBits &&& 0xff00) |||
            ((b.setWidth 16 <<< 8) &&& reg.writableBits)
        else
          (reg.value &&& 0xff00) ||| (reg.value &&& ~~~reg.writableBits &&& 0x00ff) |||
            (b.setWidth 16 &&& reg.writableBits)
      (some .iopage, e.store reghandle val cycleDatob addr)
  else (none, e)

/-- `iopageregisters_reset_values`: every register, on the raising edge of INIT. -/
def resetValues (e : Emulation) : Emulation :=
  { e with pages := { e.pages with registers := fun handle =>
      let reg := e.pages.registers handle
      if handle.toNat < maxIopageRegisterCount then { reg with value := reg.resetValue }
      else reg } }

end Emulation

/-! ## UNIBUS -/

namespace PruU

/-- The IO page is recognized by its address. -/
def inIopage (e : Emulation) (addr : UInt) : Bool := decide (addr ≥ e.pages.iopageStartAddr)

/-- `emulated_addr_read`: the word, if something answers. -/
def emulatedAddrRead (e : Emulation) (addr : UInt) : Option Word × Emulation :=
  let (hit, e') := e.addrRead (inIopage e addr) addr
  (hit.map (·.2), e')

/-- `emulated_addr_write_w`: whether something answers. -/
def emulatedAddrWriteW (e : Emulation) (addr : UInt) (w : Word) : Bool × Emulation :=
  let (hit, e') := e.addrWriteW (inIopage e addr) addr w
  (hit.isSome, e')

/-- `emulated_addr_write_b`: whether something answers. -/
def emulatedAddrWriteB (e : Emulation) (addr : UInt) (b : Byte) : Bool × Emulation :=
  let (hit, e') := e.addrWriteB (inIopage e addr) addr b
  (hit.isSome, e')

end PruU

/-! ## QBUS -/

namespace PruQ

/-- `QUNIBUS_IOPAGE_ADDR_BITMASK`: the place of BS7 in an address. -/
def iopageAddrBitmask : UInt := 1 <<< 22

/-- The IO page is recognized by BS7. -/
def inIopage (addr : UInt) : Bool := addr &&& iopageAddrBitmask != 0

/-- `emulated_addr_read` -/
def emulatedAddrRead (e : Emulation) (addr : UInt) : Option (Hit × Word) × Emulation :=
  e.addrRead (inIopage addr) addr

/-- `emulated_addr_write_w` -/
def emulatedAddrWriteW (e : Emulation) (addr : UInt) (w : Word) : Option Hit × Emulation :=
  e.addrWriteW (inIopage addr) addr w

/-- `emulated_addr_write_b` -/
def emulatedAddrWriteB (e : Emulation) (addr : UInt) (b : Byte) : Option Hit × Emulation :=
  e.addrWriteB (inIopage addr) addr b

end PruQ

end QUniBone
