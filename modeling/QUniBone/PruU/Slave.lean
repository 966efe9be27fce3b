import QUniBone.PruU.Dma

/-!
# Bus slave cycles of the UniBone

`pru1_statemachine_data_slave.c` and `pru1_statemachine_intr_slave.c`.

* `smDataSlave`: the answers to the data cycles of other masters.
* `smIntrSlave`: the reception of interrupt vectors for an emulated CPU.
-/

namespace QUniBone.PruU.Pru

/-! ## Data cycles -/

/-- SSYN, the answer to the master. -/
def assertSsyn (s : Pru) : Pru := s.setbits 4 (bit 5) (bit 5)

/-- The address on the bus, from the latches 2, 3 and 4. -/
def addressLines (l : Lines) : UInt :=
  (l 2 0).setWidth 32 ||| ((l 3 0).setWidth 32 <<< 8) ||| ((l 4 0 &&& 3).setWidth 32 <<< 16)

/-- `sm_data_slave_start`: MSYN without SSYN starts a cycle. -/
def smDataSlaveStart (l : Lines) (s : Pru) : Option SlaveState × Pru :=
  if (l 4 0).getLsbD 4 = false then (none, s)
  else if (l 4 0).getLsbD 5 then (none, s)
  else
    let addr := addressLines l
    let control := (l 4 0 >>> 2) &&& 3
    if control = cycleDatob then
      let b := if addr.getLsbD 0 then l 6 0 else l 5 0
      let (hit, e) := emulatedAddrWriteB s.emulation addr b
      if hit then (some .state10, (s.withEmulation e).assertSsyn) else (none, s.withEmulation e)
    else if control = cycleDato then
      let w := (l 5 0).setWidth 16 ||| ((l 6 0).setWidth 16 <<< 8)
      let (hit, e) := emulatedAddrWriteW s.emulation addr w
      if hit then (some .state10, (s.withEmulation e).assertSsyn) else (none, s.withEmulation e)
    else
      let (answer, e) := emulatedAddrRead s.emulation addr
      match answer with
      | some data => (some .state20, ((s.withEmulation e).putData data).assertSsyn)
      | none => (none, s.withEmulation e)

/-- `sm_data_slave_state_10`: wait for MSYN to go and for ARM to process the event. -/
def smDataSlaveState10 (l : Lines) (s : Pru) : Option SlaveState × Pru :=
  if (l 4 0).getLsbD 4 then (some .state10, s)
  else if s.registerEventAcked = false then (some .state10, s)
  else (none, s.setbits 4 (bit 5) 0)

/-- `sm_data_slave_state_20`: the same after DATI, the data go too. -/
def smDataSlaveState20 (l : Lines) (s : Pru) : Option SlaveState × Pru :=
  if (l 4 0).getLsbD 4 then (some .state20, s)
  else if s.registerEventAcked = false then (some .state20, s)
  else (none, (s.putData 0).setbits 4 (bit 5) 0)

/-- One call of the data slave. -/
def smDataSlave (l : Lines) (s : Pru) : SlaveState → Option SlaveState × Pru
  | .start => s.smDataSlaveStart l
  | .state10 => s.smDataSlaveState10 l
  | .state20 => s.smDataSlaveState20 l

/-! ## Interrupt vectors -/

/-- `sm_intr_slave_start`: a vector is taken from the data lines, ARM is told, and the priority
of the CPU becomes invalid. -/
def smIntrSlaveStart (l : Lines) (s : Pru) : Option IntrSlaveState × Pru :=
  if (l 7 0).getLsbD 0 = false then (none, s)
  else
    let vector := ((l 6 0).setWidth 16 <<< 8) ||| (l 5 0).setWidth 16
    let s := s.assertSsyn
    let s := { s with mailbox := { s.mailbox with arbitrator := { s.mailbox.arbitrator with
      ifsPriorityLevel := cpuPriorityLevelFetching } } }
    (some .state1, s.modifyEvents fun events => { events with
      intrSlaveVector := vector, intrSlave := events.intrSlave.signal })

/-- `sm_intr_slave_state_1`: wait for ARM, then for INTR to go. -/
def smIntrSlaveState1 (l : Lines) (s : Pru) : Option IntrSlaveState × Pru :=
  if s.mailbox.events.intrSlave.isAcked = false then (some .state1, s)
  else if (l 7 0).getLsbD 0 then (some .state1, s)
  else (none, s.setbits 4 (bit 5) 0)

/-- One call of the interrupt slave. -/
def smIntrSlave (l : Lines) (s : Pru) : IntrSlaveState → Option IntrSlaveState × Pru
  | .start => s.smIntrSlaveStart l
  | .state1 => s.smIntrSlaveState1 l

end QUniBone.PruU.Pru
