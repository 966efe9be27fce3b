import QUniBone.Cpu34.Instr
import QUniBone.Lib.Loop

/-!
# The KD11-EA: one step

`step()` and what drives it. The source is a goto machine: the instruction, or the external
interrupt, leads to one of the labels `trap:`, `be:` and `service:` or to `return`, and the
trap sequence leads to one of them again. `stepStart` is everything up to the first `trap:`,
and `trapRound` is one way from `trap:` to the next.
-/

namespace QUniBone.Kd11ea

open Prog

/-- Where `step()` returns. -/
inductive Stop where
  /-- At `service:`, with nothing left to do. -/
  | service
  /-- In `HALT` or `WAIT`. -/
  | instruction
  /-- At `be:`, a double bus error. -/
  | doubleBusError (inTrap : Bool)
deriving DecidableEq

/-- The machine at the label `trap:`, with the local `inhov`. -/
structure Round where
  inhov : Bool
  machine : Machine

/-- Return, or go on at `trap:`. -/
abbrev Jump := (Stop × Machine) ⊕ Round

/-- The machine at a jump. -/
def Jump.machine : Jump → Machine
  | .inl (_, m) => m
  | .inr s => s.machine

/-- `TRAP(v)`. -/
def trapTo (m : Machine) (inhov : Bool) (v : Word) : Jump :=
  .inr ⟨inhov, m.mapCpu (·.setR 10 v)⟩

/-- The label `service:`; `t` is `oldpsw & PSW_T`. -/
def service (m : Machine) (inhov t : Bool) : Jump :=
  if t then trapTo m inhov 0o14
  else if m.cpu.traps.stack then
    trapTo (m.mapCpu fun cpu => { cpu with traps := { cpu.traps with stack := false } }) true 4
  else if m.cpu.traps.pwr then
    trapTo (m.mapCpu fun cpu => { cpu with traps := { cpu.traps with pwr := false } })
      inhov 0o24
  else .inl (.service, m)

/-- The label `be:`. An instruction that aborts takes back its condition codes, those of
`oldpsw`; the trap sequence, for which `oldpsw` is `none`, does not. -/
def busError (m : Machine) (inhov : Bool) (oldpsw : Option Word) : Jump :=
  if 1 < m.cpu.be then
    .inl (.doubleBusError oldpsw.isNone, m.mapCpu ({ · with state := .halted }))
  else
    let m := match oldpsw with
      | some old => m.mapCpu fun cpu => { cpu with psw := Word.setmask cpu.psw old 0o17 }
      | none => m
    trapTo m inhov m.cpu.trapVector

variable (bus : Bus)

/-- The opcode fetch. -/
def fetch : M Word := do
  modify fun m =>
    (m.mapCpu fun cpu => { cpu with mmu := cpu.mmu.instructionStart }).note .started
  update (·.setDestRef false)
  update autoincCommit
  update fun cpu => { cpu with ba := cpu.r 7 }
  dati bus false
  update fun cpu => { cpu with ir := cpu.bdata }
  modify fun m =>
    (m.mapCpu fun cpu => { cpu with mmu := cpu.mmu.instructionFetched (cpu.r 7) }).note
      (.fetched (m.cpu.r 7))
  update fun cpu => cpu.setR 7 (cpu.r 7 + 2)
  look (·.ir)

/-- One instruction, from its fetch. -/
def instruction : M Next := do
  let ir ← fetch bus
  execute bus ir

/-- `step()` up to the first `trap:`. -/
def stepStart (m : Machine) : Jump :=
  if m.cpu.externalIntr then
    trapTo (m.mapCpu ({ · with externalIntr := false, state := .running })) false
      m.cpu.externalIntrvec
  else
    match instruction bus m with
    | .ok (.service t) m' => service m' false (m.cpu.psw.getLsbD 4 || t)
    | .ok (.trap v) m' => trapTo m' false v
    | .ok .ret m' => .inl (.instruction, m')
    | .error _ m' => busError m' false (some m.cpu.psw)

/-- The first word of the vector. It is read in kernel space before the mode switches. -/
def vectorFetch : M Word := do
  update (·.setDestRef false)
  update spaceKernel
  update fun cpu => { cpu with ba := cpu.r 10 }
  dati bus false
  look (·.bdata)

/-- The rest of the trap sequence: the old PSW and PC are pushed after the mode switch. -/
def trapRest (inhov : Bool) (trappedPc trappedPsw newpc : Word) : M Unit := do
  update fun cpu => { cpu with ba := cpu.r 10 + 2 }
  dati bus false
  let newpsw ← look (·.bdata)
  update spaceRestore
  -- the previous mode is the mode the trap came from
  modify (·.setPsw ((newpsw &&& ~~~(0o30000 : Word)) ||| ((trappedPsw >>> 2) &&& 0o30000)))
  push inhov
  outSp bus fun _ => trappedPsw
  push inhov
  outSp bus fun _ => trappedPc
  update fun cpu => cpu.setR 7 newpc

/-- The trap sequence, from `trap:` to `service:` or `be:`. -/
def trapSequence (inhov : Bool) : M Unit := do
  let trappedPc ← look (·.r 7)
  let trappedPsw ← look (·.psw)
  let newpc ← vectorFetch bus
  trapRest bus inhov trappedPc trappedPsw newpc

/-- From `trap:` to the next jump. `oldpsw = PSW` makes `service:` look at the new T bit. -/
def trapRound (s : Round) : Jump :=
  match trapSequence bus s.inhov s.machine with
  | .ok _ m => service m s.inhov (m.cpu.psw.getLsbD 4)
  | .error _ m => busError m s.inhov none

/-- Follow a jump for at most `n` rounds of the trap sequence. -/
def finish (n : ℕ) : Jump → Option (Stop × Machine)
  | .inl stop => some stop
  | .inr s => Loop.run (trapRound bus) n s

/-- `step()` called in `m` returns, with `m'`. -/
def Step (m : Machine) (why : Stop) (m' : Machine) : Prop :=
  ∃ n, finish bus n (stepStart bus m) = some (why, m')

/-! ## Drivers -/

/-- The condition under which `kd11ea_condstep` steps. -/
def steps (cpu : Kd11ea) : Bool :=
  cpu.state == .running || (cpu.state == .waiting && cpu.traps.any)
    || (cpu.state == .waiting && cpu.externalIntr)

/-- `kd11ea_condstep`, up to its call of `step()`. -/
def condstepStart (m : Machine) : Machine :=
  let m := if m.cpu.state = .halted then m else m.onBus .grantInterrupts
  if steps m.cpu then m.mapCpu ({ · with state := .running }) else m

/-- `kd11ea_pwrup_vector_fetch`. -/
def pwrupVectorFetch (m : Machine) : Machine :=
  let load : M Unit := do
    update ({ · with ba := 0o24 })
    dati bus false
    update fun cpu => cpu.setR 7 cpu.bdata
    update ({ · with ba := 0o26 })
    dati bus false
    modify fun m => m.setPsw m.cpu.bdata
  match load m with
  | .ok _ m => m
  | .error _ m => m.mapCpu fun cpu => { cpu with be := cpu.be + 1 }

end QUniBone.Kd11ea

namespace QUniBone.Machine

/-- `kd11ea_setintr`. -/
def setintr (m : Machine) (vec : Word) : Machine :=
  m.mapCpu ({ · with externalIntr := true, externalIntrvec := vec })

/-- `kd11ea_pwrfail_trap`. -/
def pwrfailTrap (m : Machine) : Machine :=
  m.mapCpu fun cpu => { cpu with traps := { cpu.traps with pwr := true } }

/-- `kd11ea_power_reset`. -/
def powerReset (m : Machine) : Machine :=
  ((m.mapCpu Kd11ea.powerReset).note .init).setPsw 0

/-- `core_set_state`: the HALT and CONTinue switches of the console. -/
def setState (m : Machine) (state : CpuState) : Machine := m.mapCpu ({ · with state := state })

end QUniBone.Machine

namespace QUniBone.Kd11ea

/-- What can happen to the processor between two instruction boundaries. The label tells where
a `step()` returned. -/
inductive Trans (bus : Bus) : Machine → Option Stop → Machine → Prop
  /-- `kd11ea_condstep` of a processor which does not step. -/
  | idle {m : Machine} : steps m.cpu = false → Trans bus m none (condstepStart m)
  /-- `kd11ea_condstep` of a processor which does. -/
  | step {m m' : Machine} {why : Stop} : steps m.cpu = true →
      Step bus (condstepStart m) why m' → Trans bus m (some why) m'
  | console (m : Machine) (state : CpuState) : Trans bus m none (m.setState state)
  | setintr (m : Machine) (vec : Word) : Trans bus m none (m.setintr vec)
  | pwrfail (m : Machine) : Trans bus m none m.pwrfailTrap
  | reset (m : Machine) : Trans bus m none m.reset
  | pwrup (m : Machine) : Trans bus m none (pwrupVectorFetch bus m)

end QUniBone.Kd11ea
