import QUniBone.Cpu20.Instr

/-!
# The KA11: one step

`step()` and what drives it. `stepStart` is everything up to the first `trap:`, and `trapRound`
is one way from `trap:` to `return` or, through `be:`, to `trap:` again.
-/

namespace QUniBone.Ka11

open Prog

/-- The machine at the label `trap:`, with the local `inhov` -/
structure Round where
  inhov : Bool
  /-- The trap is one of a bus error. -/
  busError : Bool
  machine : Machine

/-- Return, or go on at `trap:`. -/
abbrev Jump := Machine ⊕ Round

/-- The machine at a jump -/
def Jump.machine : Jump → Machine
  | .inl m => m
  | .inr s => s.machine

/-- `TRAP(v)` -/
def trapTo (m : Machine) (inhov busError : Bool) (v : Word) : Jump :=
  .inr ⟨inhov, busError, m.mapCpu (·.setR 10 v)⟩

/-- The label `service:`; `t` is `oldpsw & PSW_T`. -/
def service (m : Machine) (t : Bool) : Jump :=
  if t then trapTo m false false 0o14
  else if m.cpu.traps.stack then
    trapTo (m.mapCpu fun cpu => { cpu with traps := { cpu.traps with stack := false } })
      true false 4
  else if m.cpu.traps.pwr then
    trapTo (m.mapCpu fun cpu => { cpu with traps := { cpu.traps with pwr := false } })
      false false 0o24
  else .inl m

/-- The label `be:` -/
def busError (m : Machine) (inhov : Bool) : Jump :=
  if 1 < m.cpu.be then .inl (m.mapCpu ({ · with state := .halted }))
  else trapTo m inhov true 4

variable (bus : Bus)

/-- The opcode fetch: PC stays if it fails. -/
def fetch : M Word := do
  update fun cpu => { cpu with ba := cpu.r 7 }
  dati bus false
  update fun cpu => { cpu with ir := cpu.bdata }
  update fun cpu => cpu.setR 7 (cpu.r 7 + 2)
  look (·.ir)

/-- One instruction, from its fetch -/
def instruction : M Next := do
  let ir ← fetch bus
  execute bus ir

/-- `step()` up to the first `trap:` -/
def stepStart (m : Machine) : Jump :=
  if m.cpu.externalIntr then
    trapTo (m.mapCpu ({ · with externalIntr := false, state := .running })) false false
      m.cpu.externalIntrvec
  else
    match instruction bus m with
    | .ok .service m' => service m' (m.cpu.psw.getLsbD 4)
    | .ok (.trap v) m' => trapTo m' false false v
    | .ok .ret m' => .inl m'
    | .error _ m' => busError m' false

/-- The two pushes -/
def trapPushes (inhov : Bool) : M Unit := do
  pushWord bus inhov (·.pswWord)
  pushWord bus inhov (·.r 7)

/-- `INA(TV, PC); INA(TV+2, PSW)` -/
def trapVector : M Unit := do
  update fun cpu => { cpu with ba := cpu.r 10 }
  dati bus false
  update fun cpu => cpu.setR 7 cpu.bdata
  update fun cpu => { cpu with ba := cpu.r 10 + 2 }
  dati bus false
  modify fun m => m.loadPsw m.cpu.bdata
  modify (·.levelchange)

/-- The trap sequence, from `trap:` to its `return` -/
def trapSequence (inhov : Bool) : M Unit := do
  trapPushes bus inhov
  trapVector bus

/-- From `trap:` to the next jump -/
def trapRound (s : Round) : Jump :=
  match trapSequence bus s.inhov s.machine with
  | .ok _ m => .inl m
  | .error _ m => busError m s.inhov

/-- Follow a jump for at most `n` rounds of the trap sequence. -/
def finish (n : ℕ) : Jump → Option Machine
  | .inl m => some m
  | .inr s => Loop.run (trapRound bus) n s

/-- `step()` called in `m` returns, with `m'`. -/
def Step (m m' : Machine) : Prop := ∃ n, finish bus n (stepStart bus m) = some m'

/-! ## Drivers -/

/-- The condition under which `ka11_condstep` steps -/
def steps (cpu : Ka11) : Bool :=
  cpu.state == .running || (cpu.state == .waiting && cpu.traps.any)
    || (cpu.state == .waiting && cpu.externalIntr)

/-- `ka11_condstep`, up to its call of `step()` -/
def condstepStart (m : Machine) : Machine :=
  let m := if m.cpu.state = .halted then m else m.onBus .grantInterrupts
  if steps m.cpu then m.mapCpu ({ · with state := .running }) else m

/-- `ka11_pwrup_vector_fetch`, without the arbitrator -/
def vectorFetch : M Unit := do
  update ({ · with ba := 0o24 })
  dati bus false
  update fun cpu => cpu.setR 7 cpu.bdata
  update ({ · with ba := 0o26 })
  dati bus false
  modify fun m => m.loadPsw m.cpu.bdata

def pwrupVectorFetch (m : Machine) : Machine :=
  match vectorFetch bus m with
  | .ok _ m => m
  | .error _ m => m.mapCpu fun cpu => { cpu with be := cpu.be + 1 }

/-- What can happen to the processor between two instruction boundaries -/
inductive Action
  | condstep
  /-- `ka11_reset`, as START on the console and a power-up call it -/
  | reset
  /-- `ka11_setintr`: an interrupt vector is received -/
  | setintr (vec : Word)
  | pwrfail
  | pwrup
  /-- the HALT and CONTinue switches -/
  | setState (state : CpuState)
  | setPc (pc : Word)
  | setSwitches (sw : Word)
  /-- `core_apply_options` -/
  | setSwabVbit (vbit : Bool)

inductive Does (bus : Bus) : Machine → Action → Machine → Prop
  | idle {m : Machine} : steps m.cpu = false → Does bus m .condstep (condstepStart m)
  | step {m m' : Machine} : steps m.cpu = true → Step bus (condstepStart m) m' →
      Does bus m .condstep m'
  | reset (m : Machine) : Does bus m .reset (m.mapCpu Ka11.reset)
  | setintr (m : Machine) (vec : Word) : Does bus m (.setintr vec)
      { m.mapCpu ({ · with externalIntr := true, externalIntrvec := vec }) with loaded := false }
  | pwrfail (m : Machine) : Does bus m .pwrfail
      (m.mapCpu fun cpu => { cpu with traps := { cpu.traps with pwr := true } })
  | pwrup (m : Machine) : Does bus m .pwrup (pwrupVectorFetch bus m)
  | setState (m : Machine) (state : CpuState) :
      Does bus m (.setState state) (m.mapCpu ({ · with state := state }))
  | setPc (m : Machine) (pc : Word) : Does bus m (.setPc pc) (m.mapCpu (·.setR 7 pc))
  | setSwitches (m : Machine) (sw : Word) :
      Does bus m (.setSwitches sw) (m.mapCpu ({ · with sw := sw }))
  | setSwabVbit (m : Machine) (vbit : Bool) :
      Does bus m (.setSwabVbit vbit) (m.mapCpu ({ · with swabVbit := vbit }))

/-- As `calloc` leaves it -/
def Machine.initial : Machine where
  cpu := {
    r := fun _ => 0
    b := 0
    ba := 0
    bdata := 0
    ir := 0
    psw := 0
    traps := ⟨false, false⟩
    be := 0
    state := .halted
    externalIntr := false
    externalIntrvec := 0
    sw := 0
    swabVbit := false }
  log := []
  loaded := false

end QUniBone.Ka11
