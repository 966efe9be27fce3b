import QUniBone.Pru.RegisterPath

/-!
# What holds on the way to the device logic

* `Mail`: the event in the mailbox, and how far the worker is with it.
* `Dirty`: a register whose value was written and not yet restored.
* `Inv`: the invariant of careful runs, `Inv.step`: each step keeps it.
* `Inv.sound`: careful steps are sound.
-/

namespace QUniBone

namespace RegisterPath

/-- The value on the PRU is the one that was written, until it is restored. -/
structure Dirty (s : RegisterPath) (h : Handle) : Prop where
  acked : s.acked = false
  dato : cycleIsDato s.event.unibusControl = true
  handle : s.event.registerHandle = h
  worker : s.worker = .idle ∨ (∃ evt, s.worker = .handling evt) ∨
    ∃ evt v, s.worker = .restoring evt v

/-- The event in the mailbox and the worker -/
inductive Mail (s : RegisterPath) : Prop
  | quiet : s.worker = .idle → s.acked = true → s.pending = [] → Mail s
  | pending (x : RegisterAccess) (n : Event) : x.Known → InUse s x.reg.eventRegisterHandle →
      RegisteredAs x.reg (s.registers x.reg.eventRegisterHandle) → s.event = x.event n →
      n.signaled = n.acked + 1 → s.pending = [x] →
      (s.worker = .idle ∨ s.worker = .handling s.event ∨ (∃ v, s.worker = .restoring s.event v) ∨
        s.worker = .restored s.event) → Mail s
  | called : s.worker = .called → s.event.counters.signaled = s.event.counters.acked + 1 →
      s.pending = [] → Mail s

/-- Between two steps of a careful run -/
structure Inv (s : RegisterPath) : Prop where
  registered : Registered s
  mail : Mail s
  values : ∀ h, InUse s h → (s.registers h).activeOnDato = true →
    Dirty s h ∨ Shown s h (s.emulation.pages.registers h).value
  restored : ∀ evt v, s.worker = .restoring evt v → Shown s evt.registerHandle v
  sets : ∀ x ∈ s.sets, (s.registers x.handle).activeDatiFlipflops = x.value
  distinct : s.sets.Pairwise fun x y => x.handle ≠ y.handle
  dato : ∀ h, (s.registers h).activeDatoFlipflops &&& ~~~(s.registers h).writableBits = 0

section Steps

variable {iopage : UInt → Bool} {s t : RegisterPath}

theorem Inv.init (h : Init s) : Inv s where
  registered := h.registered
  mail := .quiet h.worker h.acked h.pending
  values i _ hactive := .inr (.inl (h.value i hactive))
  restored evt v hw := by
    rw [h.worker] at hw
    cases hw
  sets x hx := by
    rw [h.sets] at hx
    cases hx
  distinct := by
    rw [h.sets]
    exact .nil
  dato := h.dato

theorem succ_ne_self (b : Byte) : b + 1 ≠ b := by
  intro h
  bv_omega

theorem acked_of_open {n : Event} (h : n.signaled = n.acked + 1) : n.isAcked = false := by
  rw [Event.isAcked, h, beq_eq_false_iff_ne]
  exact succ_ne_self n.acked

/-- With the event acknowledged nothing is under way. -/
theorem Mail.of_acked (h : Mail s) (hacked : s.acked = true) :
    s.worker = .idle ∧ s.pending = [] := by
  cases h with
  | quiet hw _ hp => exact ⟨hw, hp⟩
  | pending x n _ _ _ hevent hn _ _ =>
    have hopen := acked_of_open hn
    rw [acked, hevent] at hacked
    rw [show (x.event n).counters = n from rfl, hopen] at hacked
    cases hacked
  | called _ hn _ =>
    rw [acked, acked_of_open hn] at hacked
    cases hacked

theorem Inv.shown_of_acked (hs : Inv s) (hacked : s.acked = true) {h : Handle} (hh : InUse s h)
    (hactive : (s.registers h).activeOnDato = true) :
    Shown s h (s.emulation.pages.registers h).value := by
  rcases hs.values h hh hactive with hdirty | hshown
  · rw [hdirty.acked] at hacked
    cases hacked
  · exact hshown

/-- The device threads do nothing, and no event comes or goes. -/
theorem Mail.congr (hm : Mail s) (hsetup : SameSetup s t) (hworker : t.worker = s.worker)
    (hevent : t.event = s.event) (hpending : t.pending = s.pending) : Mail t := by
  cases hm with
  | quiet hw ha hp =>
    refine .quiet (hworker.trans hw) ?_ (hpending.trans hp)
    rw [acked, hevent]
    exact ha
  | pending x n hknown huse hreg he hn hp hw =>
    refine .pending x n hknown (hsetup.inUse.mpr huse) ?_ (hevent.trans he) hn
      (hpending.trans hp) ?_
    · obtain ⟨hdati, hdato, hwritable⟩ := hsetup.active x.reg.eventRegisterHandle
      unfold RegisteredAs at hreg ⊢
      rw [hdati, hdato, hwritable]
      exact hreg
    · rw [hworker, hevent]
      exact hw
  | called hw hn hp =>
    refine .called (hworker.trans hw) ?_ (hpending.trans hp)
    rw [hevent]
    exact hn

/-- A cycle that raises no event -/
theorem Inv.silent (hs : Inv s) {e : Emulation} (hevent : e.deviceregister = s.event)
    (hlayout : s.emulation.SameLayout e)
    (hstart : e.pages.iopageStartAddr = s.emulation.pages.iopageStartAddr)
    (hmap : e.pages.registerHandles = s.emulation.pages.registerHandles)
    (hvalues : ∀ h, InUse s h → (s.registers h).activeOnDato = true →
      (e.pages.registers h).value = (s.emulation.pages.registers h).value) :
    Inv { s with emulation := e } := by
  have hsetup : SameSetup s { s with emulation := e } :=
    ⟨hstart, hmap, hlayout, fun _ => ⟨rfl, rfl, rfl⟩⟩
  constructor
  case registered => exact hs.registered.congr hsetup
  case mail => exact hs.mail.congr hsetup rfl hevent rfl
  case values =>
    intro h hh hactive
    have huse := hsetup.inUse.mp hh
    rcases hs.values h huse hactive with hdirty | hshown
    · refine .inl ⟨?_, ?_, ?_, hdirty.worker⟩
      · show (e.deviceregister).counters.isAcked = false
        rw [hevent]
        exact hdirty.acked
      · show cycleIsDato e.deviceregister.unibusControl = true
        rw [hevent]
        exact hdirty.dato
      · show e.deviceregister.registerHandle = h
        rw [hevent]
        exact hdirty.handle
    · refine .inr ?_
      show Shown s h (e.pages.registers h).value
      rw [hvalues h huse hactive]
      exact hshown
  case restored => exact hs.restored
  case sets => exact hs.sets
  case distinct => exact hs.distinct
  case dato => exact hs.dato

/-- A cycle that raises an event, after the last one has been acknowledged -/
theorem Inv.raised (hs : Inv s) (hacked : s.acked = true) {e : Emulation} {x : RegisterAccess}
    {found : Handle} (hfound : InUse s found) (hreg : x.reg = s.emulation.pages.registers found)
    (hknown : x.Known) (hevent : e.deviceregister = x.event s.event.counters.signal)
    (hlayout : s.emulation.SameLayout e)
    (hstart : e.pages.iopageStartAddr = s.emulation.pages.iopageStartAddr)
    (hmap : e.pages.registerHandles = s.emulation.pages.registerHandles)
    (hvalues : ∀ h, h ≠ found ∨ cycleIsDato x.unibusControl = false →
      (e.pages.registers h).value = (s.emulation.pages.registers h).value) :
    Inv { s with emulation := e, pending := s.pending ++ [x] } := by
  have hsetup : SameSetup s { s with emulation := e, pending := s.pending ++ [x] } :=
    ⟨hstart, hmap, hlayout, fun _ => ⟨rfl, rfl, rfl⟩⟩
  obtain ⟨hidle, hpending⟩ := hs.mail.of_acked hacked
  have hflags : (s.emulation.pages.registers found).eventFlags ≠ 0 := by
    rw [← hreg]
    intro hzero
    rcases hknown with ⟨-, hflag⟩ | ⟨-, hflag⟩
    · rw [hzero] at hflag
      exact hflag (by decide)
    · rw [hzero] at hflag
      exact hflag (by decide)
  have hhandle : x.reg.eventRegisterHandle = found := by
    rw [hreg]
    exact hs.registered.handle found hfound hflags
  have hn : s.event.counters.signal.signaled = s.event.counters.signal.acked + 1 := by
    have heq : s.event.counters.signaled = s.event.counters.acked := by
      rw [acked, Event.isAcked, beq_iff_eq] at hacked
      exact hacked
    show s.event.counters.signaled + 1 = s.event.counters.acked + 1
    rw [heq]
  constructor
  case registered => exact hs.registered.congr hsetup
  case mail =>
    refine .pending x _ hknown ?_ ?_ hevent hn ?_ (.inl hidle)
    · rw [hhandle]
      exact hsetup.inUse.mpr hfound
    · rw [hhandle, hreg]
      exact hs.registered.same found hfound
    · show s.pending ++ [x] = [x]
      rw [hpending, List.nil_append]
  case values =>
    intro h hh hactive
    have hshown := hs.shown_of_acked hacked (hsetup.inUse.mp hh) hactive
    by_cases hother : h ≠ found ∨ cycleIsDato x.unibusControl = false
    · refine .inr ?_
      show Shown s h (e.pages.registers h).value
      rw [hvalues h hother]
      exact hshown
    · rw [not_or, not_not, Bool.not_eq_false] at hother
      refine .inl ⟨?_, ?_, ?_, .inl hidle⟩
      · show e.deviceregister.counters.isAcked = false
        rw [hevent]
        exact acked_of_open hn
      · show cycleIsDato e.deviceregister.unibusControl = true
        rw [hevent]
        exact hother.2
      · show e.deviceregister.registerHandle = h
        rw [hevent, hother.1]
        exact hhandle
  case restored => exact hs.restored
  case sets => exact hs.sets
  case distinct => exact hs.distinct
  case dato => exact hs.dato

theorem inUse_of_handleAt {addr : UInt} {h : Handle}
    (hh : s.emulation.handleAt (iopage addr) addr = some h) : InUse s h :=
  Emulation.handleAt_inUse hh

/-- The register of an access, by its handle -/
theorem found_of_access {addr : UInt} {x : RegisterAccess} {flag : Byte} {control : Byte}
    {data : PruRegister → Word}
    (h : ((s.emulation.registerAt (iopage addr) addr).bind fun reg =>
      if reg.eventFlags &&& flag ≠ 0 then some ⟨control, addr, data reg, reg⟩ else none) = some x) :
    ∃ found, s.emulation.handleAt (iopage addr) addr = some found ∧
      x.reg = s.emulation.pages.registers found ∧ x.unibusControl = control := by
  obtain ⟨reg, hreg, hx⟩ := Option.bind_eq_some_iff.mp h
  rw [Emulation.registerAt_eq] at hreg
  obtain ⟨found, hfound, rfl⟩ := Option.map_eq_some_iff.mp hreg
  split_ifs at hx
  cases hx
  exact ⟨found, hfound, rfl, rfl⟩

theorem Inv.read (hs : Inv s) {addr : UInt} (hcareful : Careful iopage s (.dati addr))
    (h : next iopage s (.dati addr) = some t) : Inv t := by
  cases h
  have htakes := s.emulation.addrRead_takes (iopage addr) addr
  have hpages := s.emulation.addrRead_pages (iopage addr) addr
  have hwrites : Emulation.Writes s.emulation (s.emulation.addrRead (iopage addr) addr).2 none :=
    .of_pages hpages none
  have hvalues : ∀ h, ((s.emulation.addrRead (iopage addr) addr).2.pages.registers h).value =
      (s.emulation.pages.registers h).value := fun h => hwrites.others h nofun
  have hevent := htakes.event
  cases hx : s.emulation.readAccess (iopage addr) addr with
  | none =>
    rw [hx] at hevent
    show Inv { s with emulation := _, pending := s.pending ++ [] }
    rw [List.append_nil]
    exact hs.silent hevent htakes.layout hwrites.start hwrites.map fun h _ _ => hvalues h
  | some x =>
    rw [hx] at hevent
    obtain ⟨found, hfound, hreg, -⟩ := found_of_access hx
    have hacked := hcareful.1 (by rw [hx]; exact Option.some_ne_none x)
    exact hs.raised hacked (inUse_of_handleAt hfound) hreg (Emulation.readAccess_known hx).1 hevent
      htakes.layout hwrites.start hwrites.map fun h _ => hvalues h

theorem Inv.write (hs : Inv s) {addr : UInt} {control : Byte} {data : Word} {e : Emulation}
    (hcontrol : control = cycleDato ∨ control = cycleDatob)
    (hcareful : s.emulation.writeAccess (iopage addr) control addr data ≠ none → s.acked = true)
    (htakes : Emulation.Takes (s.emulation.writeAccess (iopage addr) control addr data)
      s.emulation e)
    (hwrites : Emulation.Writes s.emulation e (s.emulation.handleAt (iopage addr) addr)) :
    Inv { s with
      emulation := e
      pending := s.pending ++
        (s.emulation.writeAccess (iopage addr) control addr data).toList } := by
  have hevent := htakes.event
  cases hx : s.emulation.writeAccess (iopage addr) control addr data with
  | none =>
    rw [hx] at hevent
    show Inv { s with emulation := e, pending := s.pending ++ [] }
    rw [List.append_nil]
    refine hs.silent hevent htakes.layout hwrites.start hwrites.map fun h hh hactive => ?_
    refine hwrites.others h fun hfound => ?_
    -- a register that is active on DATO raises an event
    rw [Emulation.writeAccess_eq hfound, if_pos (hs.registered.dato h hh hactive)] at hx
    cases hx
  | some x =>
    rw [hx] at hevent
    obtain ⟨found, hfound, hreg, hxcontrol⟩ := found_of_access hx
    have hacked := hcareful (by rw [hx]; exact Option.some_ne_none x)
    have hdato : cycleIsDato x.unibusControl = true := by
      rw [hxcontrol]
      rcases hcontrol with rfl | rfl <;> decide
    refine hs.raised hacked (inUse_of_handleAt hfound) hreg
      (Emulation.writeAccess_known hcontrol hx).1 hevent htakes.layout hwrites.start hwrites.map
      fun h hother => ?_
    rcases hother with hne | hno
    · refine hwrites.others h fun heq => hne ?_
      exact (Option.some.inj (hfound.symm.trans heq)).symm
    · rw [hdato] at hno
      cases hno

theorem Inv.receive (hs : Inv s) (h : next iopage s .receive = some t) : Inv t := by
  obtain ⟨hidle, hopen, rfl⟩ := receive_cases h
  constructor
  case registered => exact hs.registered.congr (.withWorker s _)
  case mail =>
    cases hs.mail with
    | quiet _ hacked _ =>
      rw [hopen] at hacked
      cases hacked
    | pending x n hknown huse hreg hevent hn hp _ =>
      exact .pending x n hknown huse hreg hevent hn hp (.inr (.inl rfl))
    | called hw _ _ =>
      rw [hidle] at hw
      cases hw
  case values =>
    intro h hh hactive
    refine (hs.values h hh hactive).imp_left fun hdirty => ?_
    exact ⟨hdirty.acked, hdirty.dato, hdirty.handle, .inr (.inl ⟨_, rfl⟩)⟩
  case restored =>
    intro evt v hw
    cases hw
  case sets => exact hs.sets
  case distinct => exact hs.distinct
  case dato => exact hs.dato

theorem Inv.load (hs : Inv s) (h : next iopage s .load = some t) : Inv t := by
  obtain ⟨evt, v, hw, hv, rfl⟩ := load_cases h
  constructor
  case registered => exact hs.registered.congr (.withWorker s _)
  case mail =>
    cases hs.mail with
    | quiet hidle _ _ =>
      rw [hw] at hidle
      cases hidle
    | pending x n hknown huse hreg hevent hn hp hworker =>
      refine .pending x n hknown huse hreg hevent hn hp (.inr (.inr (.inl ⟨v, ?_⟩)))
      rw [hw] at hworker
      rcases hworker with hc | hc | ⟨v', hc⟩ | hc
      · cases hc
      · cases hc
        rfl
      · cases hc
      · cases hc
    | called hcalled _ _ =>
      rw [hw] at hcalled
      cases hcalled
  case values =>
    intro h hh hactive
    refine (hs.values h hh hactive).imp_left fun hdirty => ?_
    exact ⟨hdirty.acked, hdirty.dato, hdirty.handle, .inr (.inr ⟨_, _, rfl⟩)⟩
  case restored =>
    intro evt' v' hw'
    cases hw'
    exact .inl (event_restores hv)
  case sets => exact hs.sets
  case distinct => exact hs.distinct
  case dato => exact hs.dato

theorem Inv.store (hs : Inv s) (h : next iopage s .store = some t) : Inv t := by
  obtain ⟨evt, v, hw, rfl⟩ := store_cases h
  have hsetup : SameSetup s { s with
      emulation := s.emulation.putValue evt.registerHandle v
      worker := .restored evt } :=
    ⟨rfl, rfl, s.emulation.putValue_layout evt.registerHandle v, fun _ => ⟨rfl, rfl, rfl⟩⟩
  -- the event is the one in the mailbox
  have hevt : evt = s.event ∧ s.pending ≠ [] := by
    cases hs.mail with
    | quiet hidle _ _ =>
      rw [hw] at hidle
      cases hidle
    | pending x n _ _ _ _ _ hp hworker =>
      rw [hw] at hworker
      rw [hp]
      rcases hworker with hc | hc | ⟨v', hc⟩ | hc
      · cases hc
      · cases hc
      · cases hc
        exact ⟨rfl, List.cons_ne_nil _ _⟩
      · cases hc
    | called hcalled _ _ =>
      rw [hw] at hcalled
      cases hcalled
  obtain ⟨rfl, -⟩ := hevt
  constructor
  case registered => exact hs.registered.congr hsetup
  case mail =>
    cases hs.mail with
    | quiet hidle _ _ =>
      rw [hw] at hidle
      cases hidle
    | pending x n hknown huse hreg hevent hn hp _ =>
      exact .pending x n hknown huse hreg hevent hn hp (.inr (.inr (.inr rfl)))
    | called hcalled _ _ =>
      rw [hw] at hcalled
      cases hcalled
  case values =>
    intro h hh hactive
    refine .inr ?_
    show Shown s h ((s.emulation.putValue s.event.registerHandle v).pages.registers h).value
    rw [Emulation.putValue_value]
    split
    · next heq =>
      rw [heq]
      exact hs.restored _ _ hw
    · next hne =>
      rcases hs.values h hh hactive with hdirty | hshown
      · exact absurd hdirty.handle.symm hne
      · exact hshown
  case restored =>
    intro evt' v' hw'
    cases hw'
  case sets => exact hs.sets
  case distinct => exact hs.distinct
  case dato => exact hs.dato

/-- Other DATO flipflops, with the same bits -/
theorem Shown.of_dati {u : RegisterPath} {h : Handle} {v : Word} (hsets : u.sets = s.sets)
    (hdati : (u.registers h).activeDatiFlipflops = (s.registers h).activeDatiFlipflops)
    (hv : Shown s h v) : Shown u h v := by
  unfold Shown at hv ⊢
  rw [hsets, hdati]
  exact hv

theorem Inv.latched (hs : Inv s) {evt : DeviceRegisterEvent}
    (hw : s.worker = .restored evt ∨ s.worker = .handling evt ∧ (s.handled evt).2.2 = none) :
    Inv (s.latched evt) := by
  have hhandled := event_handled s.emulation.pages.iopageStartAddr evt
    (s.registers evt.registerHandle)
  have hregs : ∀ h, Handled (s.registers h) ((s.latched evt).registers h) := by
    intro h
    show Handled (s.registers h)
      (Function.update s.registers evt.registerHandle (s.handled evt).2.1 h)
    by_cases hh : h = evt.registerHandle
    · rw [hh, Function.update_self]
      exact hhandled
    · rw [Function.update_of_ne hh]
      exact ⟨rfl, rfl, rfl, rfl⟩
  have hsetup : SameSetup s (s.latched evt) :=
    ⟨rfl, rfl, .refl _, fun h => ⟨(hregs h).onDati, (hregs h).onDato, (hregs h).writable⟩⟩
  have hopen : evt = s.event ∧ s.event.counters.signaled = s.event.counters.acked + 1 ∧
      s.pending.tail = [] := by
    cases hs.mail with
    | quiet hidle _ _ =>
      rw [hidle] at hw
      rcases hw with hc | ⟨hc, -⟩ <;> cases hc
    | pending x n _ _ _ hevent hn hp hworker =>
      have hcount : s.event.counters.signaled = s.event.counters.acked + 1 := by
        rw [hevent]
        exact hn
      refine ⟨?_, hcount, by rw [hp]; rfl⟩
      rcases hworker with hc | hc | ⟨v, hc⟩ | hc
      all_goals
        rw [hc] at hw
        rcases hw with hw | ⟨hw, -⟩ <;> cases hw
        try rfl
    | called hcalled _ _ =>
      rw [hcalled] at hw
      rcases hw with hc | ⟨hc, -⟩ <;> cases hc
  obtain ⟨rfl, hn, hp⟩ := hopen
  -- the value has been restored, or there was nothing to restore
  have hclean : ∀ h, InUse s h → (s.registers h).activeOnDato = true → ¬Dirty s h := by
    intro h hh hactive hdirty
    rcases hw with hc | ⟨hc, hnone⟩
    · have hworker := hdirty.worker
      rw [hc] at hworker
      rcases hworker with hw' | ⟨_, hw'⟩ | ⟨_, _, hw'⟩ <;> cases hw'
    · rw [← hdirty.handle] at hactive
      obtain ⟨c, heq⟩ := event_dato s.emulation.pages.iopageStartAddr hdirty.dato hactive
      rw [RegisterPath.handled, heq] at hnone
      cases hnone
  constructor
  case registered => exact hs.registered.congr hsetup
  case mail => exact .called rfl hn hp
  case values =>
    intro h hh hactive
    rw [(hregs h).onDato] at hactive
    have huse := hsetup.inUse.mp hh
    rcases hs.values h huse hactive with hdirty | hshown
    · exact absurd hdirty (hclean h huse hactive)
    · exact .inr (.of_dati (s := s) rfl (hregs h).dati hshown)
  case restored =>
    intro evt' v' hw'
    cases hw'
  case sets =>
    intro x hx
    rw [(hregs x.handle).dati]
    exact hs.sets x hx
  case distinct => exact hs.distinct
  case dato =>
    intro h
    rw [(hregs h).writable]
    by_cases hh : h = s.event.registerHandle
    · rw [hh]
      show (Function.update s.registers s.event.registerHandle (s.handled s.event).2.1
        s.event.registerHandle).activeDatoFlipflops &&& _ = 0
      rw [Function.update_self]
      exact handled_dato _ s.event (hs.dato s.event.registerHandle)
    · show (Function.update s.registers s.event.registerHandle (s.handled s.event).2.1
        h).activeDatoFlipflops &&& _ = 0
      rw [Function.update_of_ne hh]
      exact hs.dato h

theorem Inv.ack (hs : Inv s) (h : next iopage s .ack = some t) : Inv t := by
  obtain ⟨hw, rfl⟩ := ack_cases h
  have hn : s.event.counters.signaled = s.event.counters.acked + 1 ∧ s.pending = [] := by
    cases hs.mail with
    | quiet hidle _ _ =>
      rw [hw] at hidle
      cases hidle
    | pending x n _ _ _ _ _ _ hworker =>
      rw [hw] at hworker
      rcases hworker with hc | hc | ⟨v, hc⟩ | hc <;> cases hc
    | called _ hn hp => exact ⟨hn, hp⟩
  constructor
  case registered =>
    exact .congr (s := s) ⟨rfl, rfl, fun _ => rfl, fun _ => ⟨rfl, rfl, rfl⟩⟩ hs.registered
  case mail =>
    refine .quiet rfl ?_ hn.2
    show (s.event.counters.ack).isAcked = true
    rw [Event.isAcked, beq_iff_eq]
    exact hn.1
  case values =>
    intro h hh hactive
    refine .inr ?_
    rcases hs.values h hh hactive with hdirty | hshown
    · have hworker := hdirty.worker
      rw [hw] at hworker
      rcases hworker with hw' | ⟨_, hw'⟩ | ⟨_, _, hw'⟩ <;> cases hw'
    · exact hshown
  case restored =>
    intro evt' v' hw'
    cases hw'
  case sets => exact hs.sets
  case distinct => exact hs.distinct
  case dato => exact hs.dato

theorem Dirty.congr {h : Handle} (hd : Dirty s h) (hevent : t.event = s.event)
    (hworker : t.worker = s.worker) : Dirty t h where
  acked := by
    rw [RegisterPath.acked, hevent]
    exact hd.acked
  dato := by
    rw [hevent]
    exact hd.dato
  handle := by
    rw [hevent]
    exact hd.handle
  worker := by
    rw [hworker]
    exact hd.worker

/-- A device thread sets the flipflops first. -/
theorem Inv.setBegin (hs : Inv s) {handle : Handle} {value : Word}
    (hcareful : ∀ x ∈ s.sets, x.handle ≠ handle)
    (h : next iopage s (.setBegin handle value) = some t) : Inv t := by
  cases h
  have hself : Function.update s.registers handle (setDati (s.registers handle) value) handle =
      setDati (s.registers handle) value := Function.update_self ..
  have hother : ∀ i, i ≠ handle →
      Function.update s.registers handle (setDati (s.registers handle) value) i = s.registers i :=
    fun i hi => Function.update_of_ne hi ..
  have hactive : ∀ i,
      (Function.update s.registers handle (setDati (s.registers handle) value) i).activeOnDati =
        (s.registers i).activeOnDati ∧
      (Function.update s.registers handle (setDati (s.registers handle) value) i).activeOnDato =
        (s.registers i).activeOnDato ∧
      (Function.update s.registers handle (setDati (s.registers handle) value) i).writableBits =
        (s.registers i).writableBits := by
    intro i
    by_cases hi : i = handle
    · rw [hi, hself]
      exact ⟨rfl, rfl, rfl⟩
    · rw [hother i hi]
      exact ⟨rfl, rfl, rfl⟩
  -- what was shown still is
  have hshown : ∀ i v, Shown s i v → Shown { s with
      registers := Function.update s.registers handle (setDati (s.registers handle) value)
      sets := ⟨handle, (s.registers handle).activeDatiFlipflops, value⟩ :: s.sets } i v := by
    intro i v hv
    rcases hv with heq | ⟨x, hx, hhandle, heq⟩
    · by_cases hi : i = handle
      · subst hi
        exact .inr ⟨_, List.mem_cons_self, rfl, heq⟩
      · refine .inl ?_
        show v = (Function.update s.registers handle _ i).activeDatiFlipflops
        rw [hother i hi]
        exact heq
    · exact .inr ⟨x, List.mem_cons_of_mem _ hx, hhandle, heq⟩
  have hsetup : SameSetup s { s with
      registers := Function.update s.registers handle (setDati (s.registers handle) value)
      sets := ⟨handle, (s.registers handle).activeDatiFlipflops, value⟩ :: s.sets } :=
    ⟨rfl, rfl, .refl _, hactive⟩
  constructor
  case registered => exact hs.registered.congr hsetup
  case mail => exact hs.mail.congr hsetup rfl rfl rfl
  case values =>
    intro i hi hdato
    replace hdato : (Function.update s.registers handle
      (setDati (s.registers handle) value) i).activeOnDato = true := hdato
    rw [(hactive i).2.1] at hdato
    rcases hs.values i hi hdato with hdirty | hv
    · exact .inl (hdirty.congr rfl rfl)
    · exact .inr (hshown i _ hv)
  case restored => exact fun evt v hw => hshown _ v (hs.restored evt v hw)
  case sets =>
    intro x hx
    show (Function.update s.registers handle _ x.handle).activeDatiFlipflops = x.value
    rcases List.mem_cons.mp hx with rfl | hx
    · rw [hself]
      rfl
    · rw [hother x.handle (hcareful x hx)]
      exact hs.sets x hx
  case distinct =>
    exact List.pairwise_cons.mpr ⟨fun x hx => (hcareful x hx).symm, hs.distinct⟩
  case dato =>
    intro i
    show (Function.update s.registers handle _ i).activeDatoFlipflops &&&
      ~~~(Function.update s.registers handle _ i).writableBits = 0
    by_cases hi : i = handle
    · rw [hi, hself]
      exact hs.dato handle
    · rw [hother i hi]
      exact hs.dato i

/-- And then the value on the PRU -/
theorem Inv.setEnd (hs : Inv s) {x : DatiSet} (hcareful : ∀ evt v, s.worker = .restoring evt v →
      evt.registerHandle = x.handle → v = x.value)
    (h : next iopage s (.setEnd x) = some t) : Inv t := by
  obtain ⟨hx, rfl⟩ := setEnd_cases h
  have hff := hs.sets x hx
  have hsetup : SameSetup s { s with
      emulation := s.emulation.putValue x.handle x.value
      sets := s.sets.erase x } :=
    ⟨rfl, rfl, s.emulation.putValue_layout x.handle x.value, fun _ => ⟨rfl, rfl, rfl⟩⟩
  have hshown : ∀ i v, Shown s i v → (i = x.handle → v = x.value) → Shown { s with
      emulation := s.emulation.putValue x.handle x.value
      sets := s.sets.erase x } i v := by
    intro i v hv hnew
    by_cases hi : i = x.handle
    · refine .inl ?_
      show v = (s.registers i).activeDatiFlipflops
      rw [hnew hi, hi]
      exact hff.symm
    · rcases hv with heq | ⟨y, hy, hhandle, heq⟩
      · exact .inl heq
      · refine .inr ⟨y, ?_, hhandle, heq⟩
        refine (List.mem_erase_of_ne fun hyx => hi ?_).mpr hy
        rw [← hyx, hhandle]
  constructor
  case registered => exact hs.registered.congr hsetup
  case mail => exact hs.mail.congr hsetup rfl rfl rfl
  case values =>
    intro i hi hdato
    rcases hs.values i (hsetup.inUse.mp hi) hdato with hdirty | hv
    · exact .inl (hdirty.congr rfl rfl)
    · refine .inr ?_
      show Shown _ i ((s.emulation.putValue x.handle x.value).pages.registers i).value
      rw [Emulation.putValue_value]
      split
      · next hix =>
        refine .inl ?_
        show x.value = (s.registers i).activeDatiFlipflops
        rw [hix]
        exact hff.symm
      · next hne => exact hshown i _ hv fun hix => absurd hix hne
  case restored => exact fun evt v hw => hshown _ v (hs.restored evt v hw) (hcareful evt v hw)
  case sets => exact fun y hy => hs.sets y (List.mem_of_mem_erase hy)
  case distinct => exact hs.distinct.sublist (List.erase_sublist)
  case dato => exact hs.dato

theorem Inv.putDato (hs : Inv s) {handle : Handle} {value : Word}
    (hcareful : value &&& ~~~(s.registers handle).writableBits = 0)
    (h : next iopage s (.putDato handle value) = some t) : Inv t := by
  cases h
  have hregs : ∀ i, Handled (s.registers i)
      (Function.update s.registers handle (setDato (s.registers handle) value) i) := by
    intro i
    by_cases hi : i = handle
    · rw [hi, Function.update_self]
      exact ⟨rfl, rfl, rfl, rfl⟩
    · rw [Function.update_of_ne hi]
      exact ⟨rfl, rfl, rfl, rfl⟩
  have hsetup : SameSetup s { s with
      registers := Function.update s.registers handle (setDato (s.registers handle) value) } :=
    ⟨rfl, rfl, .refl _, fun i => ⟨(hregs i).onDati, (hregs i).onDato, (hregs i).writable⟩⟩
  constructor
  case registered => exact hs.registered.congr hsetup
  case mail => exact hs.mail.congr hsetup rfl rfl rfl
  case values =>
    intro i hi hdato
    replace hdato : (Function.update s.registers handle
      (setDato (s.registers handle) value) i).activeOnDato = true := hdato
    rw [(hregs i).onDato] at hdato
    rcases hs.values i hi hdato with hdirty | hv
    · exact .inl (hdirty.congr rfl rfl)
    · exact .inr (.of_dati (s := s) rfl (hregs i).dati hv)
  case restored =>
    exact fun evt v hw => .of_dati (s := s) rfl (hregs _).dati (hs.restored evt v hw)
  case sets =>
    intro x hx
    show (Function.update s.registers handle _ x.handle).activeDatiFlipflops = x.value
    rw [(hregs x.handle).dati]
    exact hs.sets x hx
  case distinct => exact hs.distinct
  case dato =>
    intro i
    show (Function.update s.registers handle _ i).activeDatoFlipflops &&&
      ~~~(Function.update s.registers handle _ i).writableBits = 0
    rw [(hregs i).writable]
    by_cases hi : i = handle
    · rw [hi, Function.update_self]
      exact hcareful
    · rw [Function.update_of_ne hi]
      exact hs.dato i

theorem Inv.step (hs : Inv s) (h : Step iopage (Careful iopage) s t) : Inv t := by
  obtain ⟨a, hcareful, h⟩ := h
  cases a with
  | dati addr => exact hs.read hcareful h
  | dato addr w =>
    cases h
    exact hs.write (.inl rfl) hcareful (s.emulation.addrWriteW_takes (iopage addr) addr w)
      (.of_cases (s.emulation.addrWriteW_cases (iopage addr) addr w))
  | datob addr b =>
    cases h
    exact hs.write (.inr rfl) hcareful (s.emulation.addrWriteB_takes (iopage addr) addr b)
      (.of_cases (s.emulation.addrWriteB_cases (iopage addr) addr b))
  | receive => exact hs.receive h
  | load => exact hs.load h
  | store => exact hs.store h
  | latch =>
    obtain ⟨evt, rfl, hw⟩ := latch_cases h
    exact hs.latched hw
  | ack => exact hs.ack h
  | setBegin handle value => exact hs.setBegin hcareful h
  | setEnd x => exact hs.setEnd hcareful h
  | putDato handle value => exact hs.putDato hcareful h

theorem CarefullyReached.inv (h : CarefullyReached iopage s) : Inv s :=
  Transition.Reachable.invariant (I := Inv) (fun _ => Inv.init) (fun _ _ hs hst => hs.step hst) h

/-! ## Careful runs are sound -/

theorem datoFlipflops_eq_written {reg : ActiveRegister}
    (h : reg.activeDatoFlipflops &&& ~~~reg.writableBits = 0) (access : DatoAccess) (data : Word) :
    datoFlipflops reg access data = written reg access data := by
  cases access with
  | word =>
    show data &&& reg.writableBits =
      (reg.activeDatoFlipflops &&& ~~~(0xffff &&& reg.writableBits)) |||
        (data &&& (0xffff &&& reg.writableBits))
    have hall : 0xffff &&& reg.writableBits = reg.writableBits := BitVec.allOnes_and
    rw [hall, h]
    exact BitVec.zero_or.symm
  | byteL => exact merge_lane _ data _ 0x00ff h
  | byteH => exact merge_lane _ data _ 0xff00 h

theorem isDato_of_known {x : RegisterAccess} (hknown : x.Known)
    (hwrite : x.unibusControl ≠ cycleDati) :
    cycleIsDato x.unibusControl = true ∧ x.reg.eventFlags &&& eventFlagDato ≠ 0 := by
  rcases hknown with ⟨hdati, -⟩ | ⟨hcontrol, hflag⟩
  · exact absurd hdati hwrite
  · refine ⟨?_, hflag⟩
    rcases hcontrol with heq | heq <;> rw [heq] <;> decide

theorem Inv.sound (hs : Inv s) {a : Act} (hcareful : Careful iopage s a)
    (h : next iopage s a = some t) : Sound iopage s a := by
  cases a with
  | dati addr =>
    intro i hi hactive
    rcases hs.values i (inUse_of_handleAt hi) hactive with hdirty | hshown
    · have hacked := hcareful.2 i hi hdirty.handle
      rw [hdirty.acked] at hacked
      cases hacked
    · exact hshown
  | latch =>
    intro x hx hwrite
    obtain ⟨evt, -, hw⟩ := latch_cases h
    cases hs.mail with
    | quiet _ _ hp =>
      rw [hp] at hx
      cases hx
    | called _ _ hp =>
      rw [hp] at hx
      cases hx
    | pending y n hknown huse hreg hevent hn hp hworker =>
      rw [hp] at hx
      cases hx
      obtain ⟨hdato, hflag⟩ := isDato_of_known hknown hwrite
      have hactive := hreg.2.1 hflag
      have hcall := callback_of_event n hs.registered.start hknown hreg
      rcases hw with hw | ⟨hw, hnone⟩
      · -- the value is restored, and the device logic is called
        rw [hw] at hworker
        have heq : evt = s.event := by
          rcases hworker with hc | hc | ⟨v, hc⟩ | hc <;> cases hc
          rfl
        rw [callback, hw, heq, hevent]
        show (workerDeviceregisterEvent _ (x.event n) (s.registers x.reg.eventRegisterHandle)).1 =
          some (s.expected x)
        rw [hcall, RegisterAccess.callback, if_neg hwrite, if_neg hwrite,
          datoFlipflops_eq_written (hs.dato _)]
        rfl
      · -- a write of this register would have been restored
        rw [hw] at hworker
        have heq : evt = s.event := by
          rcases hworker with hc | hc | ⟨v, hc⟩ | hc <;> cases hc
          rfl
        rw [heq, hevent] at hnone
        obtain ⟨c, hc⟩ := @event_dato (x.event n) (s.registers x.reg.eventRegisterHandle)
          s.emulation.pages.iopageStartAddr hdato hactive
        replace hnone : (workerDeviceregisterEvent s.emulation.pages.iopageStartAddr (x.event n)
          (s.registers x.reg.eventRegisterHandle)).2.2 = none := hnone
        rw [hc] at hnone
        cases hnone
  | _ => trivial

end Steps

end RegisterPath

end QUniBone
