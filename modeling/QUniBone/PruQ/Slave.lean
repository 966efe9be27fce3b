import QUniBone.PruQ.State

/-!
# Bus slave cycles of the QBone

`pru1_q/pru1_statemachine_data_slave.c`. The function loops over its states and waits in them for
the master, so a step here is one pass through the loop. It goes on with another state, or
returns to the main loop.

* `smDataSlave`: one pass.
-/

namespace QUniBone.PruQ

open PruU (Lines)

/-- How a pass ends: with `break` or with `return`. -/
inductive SlaveResult
  | next (state : SlaveState)
  | ret (state : SlaveState)

namespace Pru

/-- Address and BS7 in the registers 0, 1 and 2. -/
def addressLines (l : Lines) : UInt :=
  (l 0 0).setWidth 32 ||| ((l 1 0).setWidth 32 <<< 8) ||| ((l 2 0 &&& 0x7f).setWidth 32 <<< 16)

/-- `state_data_slave_stop`, `state_data_slave_start`: SYNC has latched an address. -/
def slaveStart (l : Lines) (s : Pru) : SlaveResult × Pru :=
  if (l 2 0).getLsbD 7 = false then (.ret .stop, s)
  else (.next .dindoutStart, { s with slave := { s.slave with addr := addressLines l } })

/-- RPLY, and REF for more words. -/
def assertRply (s : Pru) : Pru := s.setbits 4 (bit 3 ||| bit 6) 0xff

def negateRply (s : Pru) : Pru := s.setbits 4 (bit 3 ||| bit 6) 0

/-- A cycle that has been answered waits for its end. After a register access the main loop has
to look for commands. -/
def answered (s : Pru) (hit : Hit) (state : SlaveState) : SlaveResult × Pru :=
  (match hit with
    | .memory => .next state
    | .iopage => .ret state, s.assertRply)

/-- DIN in `state_data_slave_dindout_start` -/
def slaveDin (s : Pru) : SlaveResult × Pru :=
  let (answer, e) := emulatedAddrRead s.emulation s.slave.addr
  let s := s.withEmulation e
  match answer with
  | none => (.ret .stop, s)
  | some (hit, data) =>
    let s := (s.setbyte 0 (data.setWidth 8)).setbyte 1 ((data >>> 8).setWidth 8)
    s.answered hit .dinSingleComplete

/-- DOUT in `state_data_slave_dindout_start`. DAL is unlatched to see the data. -/
def slaveDout (l : Lines) (s : Pru) : SlaveResult × Pru :=
  let addr := s.slave.addr
  let s := s.setbyte 3 (bit 0)
  let (answer, e) :=
    if (l 4 0).getLsbD 4 then
      emulatedAddrWriteB s.emulation addr (if addr.getLsbD 0 then l 1 0 else l 0 0)
    else
      emulatedAddrWriteW s.emulation addr ((l 0 0).setWidth 16 ||| ((l 1 0).setWidth 16 <<< 8))
  let s := s.withEmulation e
  match answer with
  | none => (.ret .stop, s)
  | some hit => s.answered hit .doutSingleComplete

/-- `state_data_slave_dindout_start`: wait for DIN or DOUT. -/
def slaveDindoutStart (l : Lines) (s : Pru) : SlaveResult × Pru :=
  if (l 4 0).getLsbD 0 = false ∨ (l 4 0).getLsbD 3 ∨ (l 4 0).getLsbD 7 then (.ret .stop, s)
  else if (l 4 0).getLsbD 1 then s.slaveDin
  else if (l 4 0).getLsbD 2 then s.slaveDout l
  else (.next .dindoutStart, s)

/-- `state_data_slave_din_single_complete`: wait for DIN to go and for ARM. -/
def slaveDinSingleComplete (l : Lines) (s : Pru) : SlaveResult × Pru :=
  if (l 4 0).getLsbD 1 then (.next .dinSingleComplete, s)
  else if s.registerEventAcked = false then (.ret .dinSingleComplete, s)
  else (.next .dinBlockComplete, s.negateRply.setbyte 3 (bit 1))

/-- `state_data_slave_dout_single_complete`: wait for DOUT to go and for ARM. -/
def slaveDoutSingleComplete (l : Lines) (s : Pru) : SlaveResult × Pru :=
  if (l 4 0).getLsbD 2 then (.next .doutSingleComplete, s)
  else if s.registerEventAcked = false then (.ret .doutSingleComplete, s)
  else (.next .doutBlockComplete, s.negateRply)

/-- The next word of a block. -/
def nextWord (s : Pru) : Pru := { s with slave := { s.slave with addr := s.slave.addr + 2 } }

/-- `state_data_slave_din_block_complete`: DOUT to the same, DIN from the next address. -/
def slaveDinBlockComplete (l : Lines) (s : Pru) : SlaveResult × Pru :=
  if (l 4 0).getLsbD 0 = false ∨ (l 4 0).getLsbD 7 then (.ret .stop, s)
  else if (l 4 0).getLsbD 2 then (.next .dindoutStart, s)
  else if (l 4 0).getLsbD 1 then (.next .dindoutStart, s.nextWord)
  else (.next .dinBlockComplete, s)

/-- `state_data_slave_dout_block_complete`: DOUT to the next address. -/
def slaveDoutBlockComplete (l : Lines) (s : Pru) : SlaveResult × Pru :=
  if (l 4 0).getLsbD 0 = false ∨ (l 4 0).getLsbD 7 then (.ret .stop, s)
  else if (l 4 0).getLsbD 2 then (.next .dindoutStart, s.nextWord)
  else (.next .doutBlockComplete, s)

/-- One pass of `sm_data_slave_func`. -/
def smDataSlave (l : Lines) (s : Pru) : SlaveState → SlaveResult × Pru
  | .stop => s.slaveStart l
  | .start => s.slaveStart l
  | .dindoutStart => s.slaveDindoutStart l
  | .dinSingleComplete => s.slaveDinSingleComplete l
  | .doutSingleComplete => s.slaveDoutSingleComplete l
  | .dinBlockComplete => s.slaveDinBlockComplete l
  | .doutBlockComplete => s.slaveDoutBlockComplete l

end Pru

end QUniBone.PruQ
