import QUniBone.Lib.Transition
import QUniBone.Memory.Ddrmem
import Mathlib.Data.List.Forall2
import QUniBone.PruU.Frame
import QUniBone.PruU.RegisterFrame

/-!
# Register events between PRU and ARM

The mailbox has room for one register event. The PRU raises it with an access to an active
register, the worker of the adapter calls the device logic and acknowledges it, each at its own
speed.

* `Session`: the PRU, the worker, and what has happened between them.
* `Spaced`: a step that does not raise an event over one that is still open.
* `Delivered`: every access has had its call, in order, but for the one that is open.
* `delivered_of_spaced`: runs of such steps deliver the events.
-/

namespace QUniBone.PruU

open Pru Transition Emulation

/-- The PRU, the worker of the adapter, and a record of accesses and calls. -/
structure Session where
  pru : Pru
  /-- `register_by_handle` -/
  registers : Handle → ActiveRegister
  /-- what the worker has read from the mailbox, until it acknowledges -/
  handling : Option DeviceRegisterEvent
  /-- the accesses that raised events -/
  raised : List RegisterAccess
  /-- the calls of device logic, with the register as it was before -/
  called : List (ActiveRegister × Callback)
  /-- the last event was raised by a DMA cycle -/
  byDma : Bool

namespace Session

/-- The event in the mailbox. -/
def event (s : Session) : DeviceRegisterEvent := s.pru.emulation.deviceregister

/-- A step of the PRU's main loop. -/
def main (s : Session) (l : Lines) : Session :=
  { s with
    pru := s.pru.mainStep l
    raised := s.raised ++ (s.pru.access l).toList
    byDma := if (s.pru.access l).isSome then s.pru.master.isSome else s.byDma }

/-- `EVENT_ACK`, after the value that was written over has been restored. -/
def acknowledged (e : Emulation) (handle : Handle) (restored : Option Word) : Emulation :=
  let reg := e.pages.registers handle
  let reg := { reg with value := restored.getD reg.value }
  { e with
    pages := { e.pages with registers := Function.update e.pages.registers handle reg }
    deviceregister := { e.deviceregister with
      counters := e.deviceregister.counters.ack } }

/-- The worker calls the device logic for the event it has read, and acknowledges. -/
def finish (s : Session) (evt : DeviceRegisterEvent) : Session :=
  let reg := s.registers evt.registerHandle
  let (call, reg', restored) := workerDeviceregisterEvent unibus.iopageStartAddr evt reg
  { s with
    pru := s.pru.withEmulation (acknowledged s.pru.emulation evt.registerHandle restored)
    registers := Function.update s.registers evt.registerHandle reg'
    handling := none
    called := s.called ++ (call.map fun c => (reg, c)).toList }

/-- Whatever else ARM does: commands in the mailbox, register values, flipflops of the devices,
memory, and the map of the IO page. The timers run on. -/
structure ArmActivity where
  mailbox : Mailbox
  timeouts : Timeouts
  ddrmem : Ddrmem
  registerHandles : Cell → Handle
  values : Handle → Word
  flipflops : Handle → Word × Word

def arm (s : Session) (a : ArmActivity) : Session :=
  let e := s.pru.emulation
  { s with
    pru := { s.pru with
      mailbox := a.mailbox
      timeouts := a.timeouts
      emulation := { e with
        ddrmem := a.ddrmem
        pages := { e.pages with
          registerHandles := a.registerHandles
          registers := fun h => { e.pages.registers h with value := a.values h } } } }
    registers := fun h => { s.registers h with
      activeDatiFlipflops := (a.flipflops h).1
      activeDatoFlipflops := (a.flipflops h).2 } }

/-- The steps: of the main loop under a condition, of the worker, and of the rest of ARM. -/
inductive Step (cond : Session → Lines → Prop) : Session → Session → Prop
  | main {s : Session} (l : Lines) : cond s l → Step cond s (s.main l)
  | receive {s : Session} : s.pru.registerEventAcked = false → s.handling = none →
      Step cond s { s with handling := some s.event }
  | finish {s : Session} (evt : DeviceRegisterEvent) : s.handling = some evt →
      Step cond s (s.finish evt)
  | arm {s : Session} (a : ArmActivity) : Step cond s (s.arm a)

/-- The devices are registered, and no bus cycle is going on. -/
structure Started (s : Session) : Prop where
  registered : ∀ h, RegisteredAs (s.pru.emulation.pages.registers h)
    (s.registers (s.pru.emulation.pages.registers h).eventRegisterHandle)
  acked : s.pru.registerEventAcked = true
  slave : s.pru.slave = none
  master : s.pru.master = none
  handling : s.handling = none
  raised : s.raised = []
  called : s.called = []

/-- What a step relies on. Other accesses find the last event acknowledged anyway. -/
structure Spaced (s : Session) (l : Lines) : Prop where
  /-- the second and later words of a DMA transfer -/
  word : s.pru.access l ≠ none → s.pru.master = some (.dma .state1) → s.pru.dma.dataptr ≠ 0 →
    s.pru.registerEventAcked = true
  /-- slave cycles after an event of a DMA cycle -/
  slave : s.pru.access l ≠ none → s.pru.master = none → s.byDma = true →
    s.pru.registerEventAcked = true

/-- Every access has had its call, in order, with its kind and its data. At most the last one is
still in the mailbox. -/
structure Delivered (s : Session) : Prop where
  counters : s.event.counters.signaled = s.event.counters.acked ∨
    s.event.counters.signaled = s.event.counters.acked + 1
  calls : ∃ (done : List RegisterAccess) (pending : Option RegisterAccess), s.raised = done ++ pending.toList ∧
    List.Forall₂ (fun x c => c.2 = x.callback c.1) done s.called ∧
    (pending = none ↔ s.pru.registerEventAcked = true) ∧
    ∀ x ∈ pending, s.event = x.event s.event.counters

/-! ## Invariant -/

/-- The open event, if there is one. -/
def Pending (s : Session) : Option RegisterAccess → Prop
  | none => s.pru.registerEventAcked = true ∧ s.handling = none
  | some x => (∃ n, s.event = x.event ⟨n + 1, n⟩) ∧ x.Known ∧
      RegisteredAs x.reg (s.registers x.reg.eventRegisterHandle) ∧
      (s.handling = none ∨ s.handling = some s.event)

/-- A DMA transfer is about to move its first word. -/
def FirstWord (s : Pru) : Prop :=
  s.master = some (.dma .start) ∨ s.master = some (.dma .state1) ∧ s.dma.dataptr = 0

/-- The open event is the last access, and who raised it waits or has gone on. -/
structure Inv (s : Session) : Prop where
  registered : ∀ h, RegisteredAs (s.pru.emulation.pages.registers h)
    (s.registers (s.pru.emulation.pages.registers h).eventRegisterHandle)
  calls : ∃ (done : List RegisterAccess) (pending : Option RegisterAccess), s.raised = done ++ pending.toList ∧
    List.Forall₂ (fun x c => c.2 = x.callback c.1) done s.called ∧ s.Pending pending
  first : FirstWord s.pru → s.pru.registerEventAcked = true
  waits : s.pru.registerEventAcked = false → s.byDma = false → Waits s.pru.slave

theorem Started.inv {s : Session} (hs : s.Started) : Inv s where
  registered := hs.registered
  calls := ⟨[], none, by rw [hs.raised]; rfl, by rw [hs.called]; exact .nil, hs.acked, hs.handling⟩
  first := fun _ => hs.acked
  waits := fun h => absurd (h.symm.trans hs.acked) Bool.false_ne_true

/-! ## Steps of the PRU -/

/-- A step makes its access and no other. -/
theorem mainStep_takes (l : Lines) (s : Pru) :
    Takes (s.access l) s.emulation (s.mainStep l).emulation := by
  unfold Pru.access mainStep
  cases s.phase with
  | slave =>
    cases s.master with
    | none =>
      show Takes _ _ (s.smDataSlave l (s.slave.getD .start)).2.emulation
      cases hst : s.slave.getD .start with
      | start => exact (smDataSlaveStart_makes l s).1.emulation
      | state10 =>
        rw [(smDataSlave_waiting l s (.inl rfl)).1]
        exact .refl _
      | state20 =>
        rw [(smDataSlave_waiting l s (.inr rfl)).1]
        exact .refl _
    | some m =>
      cases m with
      | intr st => exact (smIntrMaster_makes l s st).emulation
      | dma st =>
        cases st with
        | state1 => exact (smDmaState1_makes s).emulation
        | start =>
          exact (smDma_makes l s (show DmaState.start ≠ .state1 by decide)).emulation
        | state11 =>
          exact (smDma_makes l s (show DmaState.state11 ≠ .state1 by decide)).emulation
        | state21 =>
          exact (smDma_makes l s (show DmaState.state21 ≠ .state1 by decide)).emulation
        | state99 =>
          exact (smDma_makes l s (show DmaState.state99 ≠ .state1 by decide)).emulation
  | arbitrate => exact (arbitrate_makes s l).emulation
  | command =>
    have hintr := intrSlaveStep_makes s l
    have hcommand := arm2pru_makes (s.intrSlaveStep l) l
    refine ⟨hcommand.emulation.event.trans hintr.emulation.event,
      hintr.emulation.layout.trans hcommand.emulation.layout⟩

/-- Accesses are made at the begin of a slave cycle and with the words of a DMA transfer. -/
theorem access_cases {l : Lines} {s : Pru} {x : RegisterAccess} (h : s.access l = some x) :
    s.phase = .slave ∧
      (s.master = none ∧ s.slave.getD .start = .start ∧ s.slaveAccess l = some x ∨
        s.master = some (.dma .state1) ∧ s.dmaAccess = some x) := by
  unfold Pru.access at h
  split at h
  case h_1 hphase hmaster =>
    split_ifs at h with hslave
    exact ⟨hphase, .inl ⟨hmaster, hslave, h⟩⟩
  case h_2 hphase hmaster => exact ⟨hphase, .inr ⟨hmaster, h⟩⟩
  case h_3 => cases h

/-- It is one of the cycles with an event, to a register of the PRU. -/
theorem access_known {l : Lines} {s : Pru} {x : RegisterAccess} (h : s.access l = some x) :
    x.Known ∧ ∃ handle, x.reg = s.emulation.pages.registers handle := by
  obtain ⟨-, ⟨-, -, hx⟩ | ⟨-, hx⟩⟩ := access_cases h
  · unfold slaveAccess at hx
    dsimp only at hx
    split_ifs at hx
    · exact writeAccess_known (.inr rfl) hx
    · exact writeAccess_known (.inr rfl) hx
    · exact writeAccess_known (.inl rfl) hx
    · exact readAccess_known hx
  · unfold dmaAccess at hx
    dsimp only at hx
    split_ifs at hx
    · exact writeAccess_known (.inr rfl) hx
    · exact writeAccess_known (.inr rfl) hx
    · exact writeAccess_known (.inl rfl) hx
    · exact readAccess_known hx

/-- A slave cycle in which ARM has something to do waits for ARM. -/
theorem mainStep_waits (l : Lines) (s : Pru) :
    (s.access l ≠ none → s.master = none → Waits (s.mainStep l).slave) ∧
      (s.registerEventAcked = false → Waits s.slave → Waits (s.mainStep l).slave) := by
  constructor
  · intro haccess hmaster
    obtain ⟨x, hx⟩ := Option.ne_none_iff_exists'.mp haccess
    obtain ⟨hphase, ⟨-, hstart, hslave⟩ | ⟨hdma, -⟩⟩ := access_cases hx
    · have hnext := (smDataSlaveStart_makes l s).2 (by rw [hslave]; simp)
      unfold mainStep
      rw [hphase, hmaster]
      show Waits (s.smDataSlave l (s.slave.getD .start)).1
      rw [hstart]
      exact hnext
    · rw [hmaster] at hdma
      cases hdma
  · intro hopen hwaits
    unfold mainStep
    cases s.phase with
    | slave =>
      cases s.master with
      | none =>
        show Waits (s.smDataSlave l (s.slave.getD .start)).1
        obtain ⟨st, hst⟩ : ∃ st, s.slave = some st := by
          rcases hwaits with h | h
          · exact ⟨_, h⟩
          · exact ⟨_, h⟩
        rw [hst] at hwaits ⊢
        exact (smDataSlave_waiting l s hwaits).2 hopen
      | some m =>
        cases m with
        | intr st =>
          show Waits (s.smIntrMaster l st).2.slave
          rw [(smIntrMaster_makes l s st).slave]
          exact hwaits
        | dma st =>
          show Waits (s.smDma l st).2.slave
          by_cases hst : st = .state1
          · subst hst
            show Waits s.smDmaState1.2.slave
            rw [(smDmaState1_makes s).slave]
            exact hwaits
          · rw [(smDma_makes l s hst).slave]
            exact hwaits
    | arbitrate =>
      show Waits (s.arbitrate l).slave
      rw [(arbitrate_makes s l).slave]
      exact hwaits
    | command =>
      show Waits ((s.intrSlaveStep l).arm2pru l).slave
      rw [(arm2pru_makes _ l).slave, (intrSlaveStep_makes s l).slave]
      exact hwaits

theorem FirstWord.of_sameMaster {s t : Pru} (h : SameMaster s t) (ht : FirstWord t) :
    FirstWord s := by
  unfold FirstWord at ht ⊢
  rwa [h.1, h.2] at ht

/-- A transfer comes to its first word from its start, and to its start with no event open. -/
theorem mainStep_firstWord (l : Lines) (s : Pru) (h : FirstWord (s.mainStep l)) :
    s.access l = none ∧ (s.registerEventAcked = true ∨ FirstWord s) := by
  unfold mainStep at h
  unfold Pru.access
  cases hphase : s.phase with
  | slave =>
    rw [hphase] at h
    cases hmaster : s.master with
    | none =>
      rw [hmaster] at h
      have hkeeps : (s.slaveStep l).master = none :=
        (smDataSlave_keeps l s (s.slave.getD .start)).master.trans hmaster
      rcases h with h | ⟨h, -⟩
      · exact absurd (hkeeps.symm.trans h) (by simp)
      · exact absurd (hkeeps.symm.trans h) (by simp)
    | some m =>
      rw [hmaster] at h
      cases m with
      | intr st =>
        have hnext (st' : DmaState) : (s.smIntrMaster l st).1.map Master.intr ≠ some (.dma st') := by
          cases (s.smIntrMaster l st).1 <;> simp
        rcases h with h | ⟨h, -⟩
        · exact absurd h (hnext _)
        · exact absurd h (hnext _)
      | dma st =>
        rcases h with h | ⟨h, hptr⟩
        · obtain ⟨st', hst', heq⟩ := Option.map_eq_some_iff.mp h
          cases heq
          exact absurd hst' (smDma_next_start l s st)
        · obtain ⟨st', hst', heq⟩ := Option.map_eq_some_iff.mp h
          cases heq
          obtain rfl | hne := smDma_next_state1 l s hst'
          · exact ⟨rfl, .inr (.inl hmaster)⟩
          · exact absurd hptr hne
  | arbitrate =>
    rw [hphase] at h
    obtain hacked | hsame := arbitrate_sameMaster s l
    · exact ⟨rfl, .inl hacked⟩
    · exact ⟨rfl, .inr (FirstWord.of_sameMaster hsame h)⟩
  | command =>
    rw [hphase] at h
    have hsame : FirstWord (s.intrSlaveStep l) :=
      FirstWord.of_sameMaster (arm2pru_sameMaster _ l) h
    exact ⟨rfl, .inr (FirstWord.of_sameMaster (intrSlaveStep_sameMaster s l) hsame)⟩

/-! ## Steps of a session -/

section Steps

variable {s : Session} {l : Lines}

theorem registeredAs_congr {p p' : PruRegister} {reg : ActiveRegister}
    (h : { p' with value := 0 } = { p with value := 0 }) (hp : RegisteredAs p reg) :
    RegisteredAs p' reg := by
  have hflags := congrArg PruRegister.eventFlags h
  have hbits := congrArg PruRegister.writableBits h
  replace hflags : p'.eventFlags = p.eventFlags := hflags
  replace hbits : p'.writableBits = p.writableBits := hbits
  unfold RegisteredAs
  rw [hflags, hbits]
  exact hp

theorem registered_layout (h : ∀ i, RegisteredAs (s.pru.emulation.pages.registers i)
      (s.registers (s.pru.emulation.pages.registers i).eventRegisterHandle)) {e : Emulation}
    (hlayout : SameLayout s.pru.emulation e) (i : Handle) :
    RegisteredAs (e.pages.registers i)
      (s.registers (e.pages.registers i).eventRegisterHandle) := by
  have hhandle := congrArg PruRegister.eventRegisterHandle (hlayout i)
  replace hhandle : (e.pages.registers i).eventRegisterHandle =
      (s.pru.emulation.pages.registers i).eventRegisterHandle := hhandle
  rw [hhandle]
  exact registeredAs_congr (hlayout i) (h i)

/-- An access finds the last event acknowledged. -/
theorem Inv.access_acked (hi : Inv s) (hc : Spaced s l) (h : s.pru.access l ≠ none) :
    s.pru.registerEventAcked = true := by
  obtain ⟨x, hx⟩ := Option.ne_none_iff_exists'.mp h
  obtain ⟨-, ⟨hmaster, hstart, -⟩ | ⟨hmaster, -⟩⟩ := access_cases hx
  · cases hdma : s.byDma with
    | true => exact hc.slave h hmaster hdma
    | false =>
      by_contra hopen
      rw [Bool.not_eq_true] at hopen
      -- An event of a slave cycle keeps that cycle waiting.
      rcases hi.waits hopen hdma with hslave | hslave
      · rw [hslave] at hstart
        cases hstart
      · rw [hslave] at hstart
        cases hstart
  · by_cases hptr : s.pru.dma.dataptr = 0
    · exact hi.first (.inr ⟨hmaster, hptr⟩)
    · exact hc.word h hmaster hptr

/-- While an event is open the step leaves it alone. -/
theorem Inv.event_kept (hi : Inv s) (hc : Spaced s l) (hopen : s.pru.registerEventAcked = false) :
    s.pru.access l = none ∧ (s.main l).event = s.event := by
  have hnone : s.pru.access l = none := by
    by_contra h
    exact absurd (hopen.symm.trans (hi.access_acked hc h)) Bool.false_ne_true
  have htakes := (mainStep_takes l s.pru).event
  rw [hnone] at htakes
  exact ⟨hnone, htakes⟩

theorem Inv.main (hi : Inv s) (hc : Spaced s l) : Inv (s.main l) := by
  have htakes := mainStep_takes l s.pru
  constructor
  case registered => exact registered_layout hi.registered htakes.layout
  case calls =>
    obtain ⟨done, pending, hraised, hcalled, hpending⟩ := hi.calls
    cases hx : s.pru.access l with
    | none =>
      have hevent : (s.main l).event = s.event := by
        have h := htakes.event
        rw [hx] at h
        exact h
      refine ⟨done, pending, ?_, hcalled, ?_⟩
      · show s.raised ++ (s.pru.access l).toList = _
        rw [hx, hraised]
        exact List.append_nil _
      · cases pending with
        | none =>
          refine ⟨?_, hpending.2⟩
          show (s.main l).event.counters.isAcked = true
          rw [hevent]
          exact hpending.1
        | some x =>
          obtain ⟨hx, hknown, hreg, hhandling⟩ := hpending
          unfold Session.Pending
          rw [hevent]
          exact ⟨hx, hknown, hreg, hhandling⟩
    | some x =>
      have hacked := hi.access_acked hc (by rw [hx]; simp)
      have hdone : pending = none ∧ s.handling = none := by
        cases pending with
        | none => exact ⟨rfl, hpending.2⟩
        | some y =>
          obtain ⟨⟨n, hn⟩, -⟩ := hpending
          have hcount : s.event.counters.isAcked = true := hacked
          rw [hn] at hcount
          simp [RegisterAccess.event, Event.isAcked] at hcount
      obtain ⟨hnone, hhandling⟩ := hdone
      obtain ⟨hknown, handle, hreg⟩ := access_known hx
      refine ⟨done, some x, ?_, hcalled, ?_, hknown, ?_, .inl hhandling⟩
      · show s.raised ++ (s.pru.access l).toList = _
        rw [hx, hraised, hnone]
        simp
      · refine ⟨s.event.counters.acked, ?_⟩
        have h := htakes.event
        rw [hx] at h
        have hsignal : s.event.counters.signal =
            ⟨s.event.counters.acked + 1, s.event.counters.acked⟩ := by
          rw [Event.signal, eq_of_beq (show s.event.counters.isAcked = true from hacked)]
        rw [← hsignal]
        exact h
      · show RegisteredAs x.reg (s.registers x.reg.eventRegisterHandle)
        rw [hreg]
        exact hi.registered handle
  case first =>
    intro h
    obtain ⟨hnone, hbefore⟩ := mainStep_firstWord l s.pru h
    have hacked : s.event.counters.isAcked = true := by
      rcases hbefore with hacked | hfirst
      · exact hacked
      · exact hi.first hfirst
    have hevent := htakes.event
    rw [hnone] at hevent
    show (s.pru.mainStep l).emulation.deviceregister.counters.isAcked = true
    rw [hevent]
    exact hacked
  case waits =>
    intro hopen hdma
    obtain ⟨hstart, hgoes⟩ := mainStep_waits l s.pru
    cases hx : s.pru.access l with
    | none =>
      have hevent := htakes.event
      rw [hx] at hevent
      have hbefore : s.pru.registerEventAcked = false := by
        rw [registerEventAcked, ← show _ = s.pru.emulation.deviceregister from hevent]
        exact hopen
      have hdma' : s.byDma = false := by
        rw [← hdma]
        show s.byDma = if (s.pru.access l).isSome then s.pru.master.isSome else s.byDma
        rw [hx]
        rfl
      exact hgoes hbefore (hi.waits hbefore hdma')
    | some x =>
      have hmaster : s.pru.master = none := by
        have hdma' : s.pru.master.isSome = false := by
          rw [← hdma]
          show _ = if (s.pru.access l).isSome then s.pru.master.isSome else s.byDma
          rw [hx]
          rfl
        exact Option.not_isSome_iff_eq_none.mp (by rw [hdma']; decide)
      exact hstart (by rw [hx]; simp) hmaster

/-- The worker reads an event. -/
theorem Inv.receive (hi : Inv s) (hopen : s.pru.registerEventAcked = false) :
    Inv { s with handling := some s.event } := by
  refine ⟨hi.registered, ?_, hi.first, hi.waits⟩
  obtain ⟨done, pending, hraised, hcalled, hpending⟩ := hi.calls
  refine ⟨done, pending, hraised, hcalled, ?_⟩
  cases pending with
  | none => exact absurd (hopen.symm.trans hpending.1) Bool.false_ne_true
  | some x => exact ⟨hpending.1, hpending.2.1, hpending.2.2.1, .inr rfl⟩

/-- ARM goes on with other things. -/
theorem Inv.arm (hi : Inv s) (a : ArmActivity) : Inv (s.arm a) := by
  refine ⟨fun h => ?_, ?_, hi.first, hi.waits⟩
  · exact hi.registered h
  · obtain ⟨done, pending, hraised, hcalled, hpending⟩ := hi.calls
    refine ⟨done, pending, hraised, hcalled, ?_⟩
    cases pending with
    | none => exact hpending
    | some x => exact hpending

/-- The worker changes flipflops only. -/
theorem workerDeviceregisterEvent_registered {p : PruRegister} {reg : ActiveRegister}
    (start : UInt) (evt : DeviceRegisterEvent) (h : RegisteredAs p reg) :
    RegisteredAs p (workerDeviceregisterEvent start evt reg).2.1 := by
  unfold workerDeviceregisterEvent
  dsimp only
  split_ifs <;> exact h

theorem registered_finish (h : ∀ i, RegisteredAs (s.pru.emulation.pages.registers i)
      (s.registers (s.pru.emulation.pages.registers i).eventRegisterHandle))
    (evt : DeviceRegisterEvent) (i : Handle) :
    RegisteredAs ((s.finish evt).pru.emulation.pages.registers i)
      ((s.finish evt).registers
        ((s.finish evt).pru.emulation.pages.registers i).eventRegisterHandle) := by
  have hlayout : SameLayout s.pru.emulation (s.finish evt).pru.emulation := by
    intro j
    show { (Function.update s.pru.emulation.pages.registers evt.registerHandle _) j with
      value := 0 } = _
    by_cases hj : j = evt.registerHandle
    · rw [hj, Function.update_self]
    · rw [Function.update_of_ne hj]
  have hsame := registered_layout h hlayout i
  generalize ((s.finish evt).pru.emulation.pages.registers i) = p at hsame
  show RegisteredAs p (Function.update s.registers evt.registerHandle _ p.eventRegisterHandle)
  by_cases hp : p.eventRegisterHandle = evt.registerHandle
  · rw [hp, Function.update_self]
    rw [hp] at hsame
    exact workerDeviceregisterEvent_registered _ _ hsame
  · rw [Function.update_of_ne hp]
    exact hsame

/-- The worker calls the device logic for the open event and acknowledges it. -/
theorem Inv.finish (hi : Inv s) {evt : DeviceRegisterEvent} (h : s.handling = some evt) :
    Inv (s.finish evt) := by
  obtain ⟨done, pending, hraised, hcalled, hpending⟩ := hi.calls
  cases pending with
  | none =>
    rw [hpending.2] at h
    cases h
  | some x =>
    obtain ⟨⟨n, hn⟩, hknown, hreg, hhandling⟩ := hpending
    have hevt : evt = x.event ⟨n + 1, n⟩ := by
      rcases hhandling with hc | hc
      · rw [hc] at h
        cases h
      · rw [hc] at h
        exact (Option.some.inj h).symm.trans hn
    have hcall : (workerDeviceregisterEvent unibus.iopageStartAddr evt
        (s.registers evt.registerHandle)).1 = some (x.callback (s.registers evt.registerHandle)) := by
      rw [hevt]
      exact callback_of_event _ (by decide) hknown hreg
    have hacked : (s.finish evt).pru.registerEventAcked = true := by
      show s.event.counters.ack.isAcked = true
      rw [hn]
      exact beq_self_eq_true (n + 1)
    constructor
    case registered => exact registered_finish hi.registered evt
    case calls =>
      refine ⟨done ++ [x], none, ?_, ?_, hacked, rfl⟩
      · show s.raised = _
        rw [hraised]
        exact (List.append_nil _).symm
      · show List.Forall₂ _ (done ++ [x]) (s.called ++ (Option.map _ (workerDeviceregisterEvent
          unibus.iopageStartAddr evt (s.registers evt.registerHandle)).1).toList)
        rw [hcall]
        exact List.rel_append hcalled (.cons rfl .nil)
    case first => exact fun _ => hacked
    case waits => exact fun hopen => absurd (hopen.symm.trans hacked) Bool.false_ne_true

end Steps

/-! ## Runs -/

theorem Inv.delivered {s : Session} (hi : Inv s) : s.Delivered := by
  obtain ⟨done, pending, hraised, hcalled, hpending⟩ := hi.calls
  cases pending with
  | none =>
    exact ⟨.inl (eq_of_beq (show s.event.counters.isAcked = true from hpending.1)),
      done, none, hraised, hcalled, ⟨fun _ => hpending.1, fun _ => rfl⟩, by simp⟩
  | some x =>
    obtain ⟨⟨n, hn⟩, -⟩ := hpending
    refine ⟨.inr (by rw [hn]; rfl), done, some x, hraised, hcalled, ?_, ?_⟩
    · have hopen : s.pru.registerEventAcked = false := by
        show s.event.counters.isAcked = false
        rw [hn]
        simp [RegisterAccess.event, Event.isAcked]
      rw [hopen]
      simp
    · intro y hy
      cases hy
      rw [hn]
      rfl

/-- Runs of such steps, from registered devices on. -/
abbrev Reached (cond : Session → Lines → Prop) : Session → Prop := Reachable Started (Step cond)

theorem Reached.inv {s : Session} (h : Reached Spaced s) : Inv s := by
  refine Reachable.invariant (I := Inv) (fun _ hs => hs.inv) ?_ h
  intro s t hi hstep
  cases hstep with
  | main l hc => exact hi.main hc
  | receive hopen => exact hi.receive hopen
  | finish evt hevt => exact hi.finish hevt
  | arm a => exact hi.arm a

/-- In a run in which no access by a later word of a DMA transfer, and no slave cycle after a DMA
event, comes over an open event, every event is delivered, and the PRU leaves an open event
alone. -/
theorem delivered_of_spaced (s : Session) (h : Reached Spaced s) :
    s.Delivered ∧ ∀ l, Spaced s l → s.pru.registerEventAcked = false →
      (s.main l).event = s.event :=
  ⟨h.inv.delivered, fun _ hc hopen => (h.inv.event_kept hc hopen).2⟩

/-! ## Two registers -/

/-- Handles 1 and 2 for the words 760100 and 760102, active on DATO. ARM asks for a DMA transfer of
two words to them. -/
def twoRegisters : Session where
  pru := { Pru.powerUp with
    emulation := {
      pages := {
        memoryStartAddr := 0
        memoryLimitAddr := 0
        iopageStartAddr := 0o760000
        registerHandles c := if c = 0o40 then 1 else if c = 0o41 then 2 else 0
        registers h :=
          if h = 1 ∨ h = 2 then ⟨0, 0, 0xffff, h, eventFlagDato⟩ else ⟨0, 0, 0, 0, 0⟩ }
      ddrmem := fun _ => 0
      deviceregister := default }
    mailbox := { Pru.powerUp.mailbox with
      arm2pruReq := .dma
      dma := ⟨0, cycleDato, 2, false, 0, 0o760100, fun i => BitVec.ofNat 16 (i + 1)⟩ } }
  registers := fun _ => ⟨false, true, 0xffff, 0, 0⟩
  handling := none
  raised := []
  called := []
  byDma := false

theorem twoRegisters_started : twoRegisters.Started where
  registered h := by
    show RegisteredAs (if h = 1 ∨ h = 2 then _ else _) _
    split
    · exact ⟨fun hc => absurd (show eventFlagDato &&& eventFlagDati = 0 by decide) hc, fun _ => rfl,
        fun _ => rfl⟩
    · exact ⟨fun hc => absurd hc (by decide), fun hc => absurd hc (by decide),
        fun hc => absurd hc (by decide)⟩
  acked := rfl
  slave := rfl
  master := rfl
  handling := rfl
  raised := rfl
  called := rfl

theorem Reached.iterate {cond : Session → Lines → Prop} {s : Session} (h : Reached cond s)
    (l : Lines) (hc : ∀ t, cond t l) (n : ℕ) : Reached cond ((fun t => t.main l)^[n] s) := by
  induction n with
  | zero => exact h
  | succ n ih =>
    rw [Function.iterate_succ_apply']
    exact ih.step (.main l (hc _))

/-- A bus master writes 5 to 760100: MSYN, DATO, address and data. -/
def datoLines : Lines := fun reg _ =>
  if reg = 2 then 0x40 else if reg = 3 then 0xe0 else if reg = 4 then 0x1b
  else if reg = 5 then 5 else 0

theorem delivered_of_spaced_dato :
    (twoRegisters.main datoLines).raised = [⟨cycleDato, 0o760100, 5, ⟨0, 0, 0xffff, 1, 2⟩⟩] ∧
      (twoRegisters.main datoLines).Delivered := by
  have hspaced : Spaced twoRegisters datoLines :=
    ⟨fun _ hc => absurd hc (by decide), fun _ _ hc => absurd hc (by decide)⟩
  exact ⟨by decide, (delivered_of_spaced _
    ((Reachable.init twoRegisters_started).step (.main datoLines hspaced))).1⟩

/-- An idle bus, and one on which the CPU grants the bus. -/
def quietLines : Lines := fun _ _ => 0

def npgLines : Lines := fun reg _ => if reg = 0 then 0x10 else 0

/-- The DMA transfer is requested, granted and run, up to its second word. ARM does nothing. -/
def twoEvents : Session :=
  (fun s => s.main quietLines)^[10] ((fun s => s.main npgLines)^[3]
    ((fun s => s.main quietLines)^[6] twoRegisters))

/-- The second word raises its event over the first one. -/
theorem second_event_overwrites :
    Reached (fun _ _ => True) twoEvents ∧ twoEvents.raised.length = 2 ∧
      twoEvents.event.counters = ⟨2, 0⟩ ∧ ¬ twoEvents.Delivered := by
  have hreached : Reached (fun _ _ => True) twoEvents :=
    Reached.iterate (Reached.iterate (Reached.iterate (.init twoRegisters_started) _
      (fun _ => trivial) _) _ (fun _ => trivial) _) _ (fun _ => trivial) _
  have hcounters : twoEvents.event.counters = ⟨2, 0⟩ := by decide
  refine ⟨hreached, by decide, hcounters, ?_⟩
  intro hdelivered
  have hcount := hdelivered.counters
  rw [hcounters] at hcount
  exact absurd hcount (by decide)

end Session

end QUniBone.PruU
