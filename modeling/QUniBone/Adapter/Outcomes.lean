import QUniBone.Adapter.Registration

/-!
# When a device is registered

Exactly when `register_device` refuses a device, and what both outcomes and `unregister_device`
leave in the tables.

* `Refuses`: no backplane position, an address in use, or not enough handles.
* `registerDevice_refused`, `registerDevice_accepted`: the outcomes.
* `deviceRegistered`, `deviceUnregistered`: what is left alone.
-/

namespace QUniBone.QUnibusAdapter

variable {ι : Type} [DecidableEq ι]

/-! ## Outcomes -/

/-- `register_device` returns false. -/
def Refuses (s : State ι) (d : ι) : Prop :=
  freeSlot s.devices = none ∨
    (∃ i < (s.device d).registerCount,
      (s.registerHandles (entry ((s.device d).addrOf i))).named = true) ∨
    maxIopageRegisterCount - lastHandle s.registerHandles - 1 < (s.device d).registerCount

theorem checkConflicts_iff (cells : Cell → Handle) (n i : ℕ) (dev : Device) :
    (checkConflicts cells n i dev).2 = true ↔
      ∀ j, i ≤ j → j < i + n → (cells (entry (dev.addrOf j))).named = false := by
  induction n generalizing i dev with
  | zero =>
    refine iff_of_true rfl fun j hj hlt => ?_
    omega
  | succ n ih =>
    have haddr : ((dev.modifyReg i ({ · with addr := dev.addrOf i })).registers i).addr =
        dev.addrOf i := by
      simp only [Device.modifyReg, Function.update_self]
    have hsame : ∀ j, (dev.modifyReg i ({ · with addr := dev.addrOf i })).addrOf j =
        dev.addrOf j := fun j => rfl
    rw [checkConflicts, haddr]
    cases hcell : (cells (entry (dev.addrOf i))).named
    · rw [if_neg Bool.false_ne_true, ih]
      simp only [hsame]
      constructor
      · intro h j hj hlt
        rcases hj.eq_or_lt with heq | hj
        · rw [← heq]
          exact hcell
        · exact h j hj (by omega)
      · intro h j hj hlt
        exact h j (by omega) (by omega)
    · rw [if_pos rfl]
      refine iff_of_false Bool.false_ne_true fun h => ?_
      rw [h i le_rfl (by omega)] at hcell
      cases hcell

theorem checkConflicts_shape (cells : Cell → Handle) (n i : ℕ) (dev : Device) :
    (checkConflicts cells n i dev).1.shape = dev.shape :=
  (checkConflicts_spec cells n rfl).1

/-- The configuration check lets all registers of the device pass. -/
def Configured (dev : Device) : Prop := ∀ i, (dev.registers i).misconfigured = false

theorem checkConflicts_configured (cells : Cell → Handle) (n i : ℕ) (dev : Device)
    (hc : Configured dev) : Configured (checkConflicts cells n i dev).1 := by
  induction n generalizing i dev with
  | zero => exact hc
  | succ n ih =>
    have hnext : Configured (dev.modifyReg i ({ · with addr := dev.addrOf i })) := by
      intro j
      unfold Device.modifyReg
      by_cases hj : j = i
      · rw [hj]
        show (Function.update dev.registers i _ i).misconfigured = false
        rw [Function.update_self]
        exact hc i
      · show (Function.update dev.registers i _ j).misconfigured = false
        rw [Function.update_of_ne hj]
        exact hc j
    rw [checkConflicts]
    split
    · exact hnext
    · exact ih _ _ hnext

/-- The registers are checked, and refused without a trace but in the device itself. -/
theorem registerDevice_refused {s s' : State ι} {d : ι}
    (h : registerDevice s d = some (false, s')) :
    Refuses s d ∧ ∃ dev : Device, dev.shape = (s.device d).shape ∧
      (Configured (s.device d) → Configured dev) ∧
      s' = { s with device := Function.update s.device d dev } := by
  unfold registerDevice at h
  split at h
  · cases h
  rename_i hassert
  have hd : (s.device d).handle = 0 := not_not.mp (not_or.mp hassert).1
  split at h
  · cases h
    exact ⟨.inl ‹_›, s.device d, rfl, id, by rw [Function.update_eq_self]⟩
  rename_i slot hslot
  have hfree := (freeSlot_spec hslot).2
  simp only [State.modifyDevice, Function.update_self, Function.update_idem] at h
  have hcheck := checkConflicts_iff s.registerHandles (s.device d).registerCount 0
    { s.device d with handle := slot }
  have hshape := checkConflicts_shape s.registerHandles (s.device d).registerCount 0
    { s.device d with handle := slot }
  have hconfigured := checkConflicts_configured s.registerHandles (s.device d).registerCount 0
    { s.device d with handle := slot }
  generalize checkConflicts s.registerHandles (s.device d).registerCount 0
    { s.device d with handle := slot } = checked at h hcheck hshape hconfigured
  obtain ⟨dev, free⟩ := checked
  have hback : giveBack (plugging s d slot dev) d slot =
      { s with device := Function.update s.device d { dev with handle := 0 } } := by
    obtain ⟨hdevices, hdevice⟩ := giveBack_plugging d dev hfree
    show ({ s with
      device := (giveBack (plugging s d slot dev) d slot).device
      devices := (giveBack (plugging s d slot dev) d slot).devices } : State ι) = _
    rw [hdevices, hdevice]
  have hshape' : ({ dev with handle := 0 } : Device).shape = (s.device d).shape := by
    obtain ⟨-, hrest⟩ := Prod.mk.inj hshape
    exact Prod.ext hd.symm hrest
  cases free
  · -- an address is in use
    have hclaimed : ∃ i < (s.device d).registerCount,
        (s.registerHandles (entry ((s.device d).addrOf i))).named = true := by
      by_contra hnone
      push Not at hnone
      have hall := hcheck.mpr fun j _ hj => by
        rw [← Bool.not_eq_true]
        exact hnone j (by omega)
      cases hall
    cases h
    exact ⟨.inr (.inl hclaimed), _, hshape', hconfigured, hback⟩
  · -- there are not enough handles
    simp only [Bool.not_true, Bool.false_eq_true, if_false] at h
    split at h
    · next hroom =>
      cases h
      exact ⟨.inr (.inr hroom), _, hshape', hconfigured, hback⟩
    · obtain ⟨r, -, heq⟩ := Option.map_eq_some_iff.mp h
      cases heq

theorem addRegister_configured {s s' : State ι} {d : ι} {i : ℕ} {h : Handle}
    (ha : addRegister s d i h = some s') (hc : Configured (s.device d)) :
    Configured (s'.device d) := by
  intro j
  have hreg := addRegister_reg ha d j
  unfold State.reg at hreg
  rw [hreg]
  split
  · exact hc i
  · exact hc j

/-- What the new registers leave alone -/
structure RegistersAdded (s s' : State ι) (d : ι) : Prop where
  shape : ∀ d', (s'.device d').shape = (s.device d').shape
  others : ∀ d', d' ≠ d → s'.device d' = s.device d'
  devices : s'.devices = s.devices
  registeredCpu : s'.registeredCpu = s.registeredCpu
  roms : ∀ c, s'.registerHandles c = handleRom → s.registerHandles c = handleRom
  named : ∀ c, (s.registerHandles c).named = true → (s'.registerHandles c).named = true
  configured : Configured (s.device d) → Configured (s'.device d)

omit [DecidableEq ι] in
theorem RegistersAdded.refl (s : State ι) (d : ι) : RegistersAdded s s d :=
  ⟨fun _ => rfl, fun _ _ => rfl, rfl, rfl, fun _ h => h, fun _ h => h, id⟩

omit [DecidableEq ι] in
theorem RegistersAdded.trans {s s₁ s' : State ι} {d : ι} (h : RegistersAdded s s₁ d)
    (h' : RegistersAdded s₁ s' d) : RegistersAdded s s' d where
  shape d' := (h'.shape d').trans (h.shape d')
  others d' hd := (h'.others d' hd).trans (h.others d' hd)
  devices := h'.devices.trans h.devices
  registeredCpu := h'.registeredCpu.trans h.registeredCpu
  roms c hc := h.roms c (h'.roms c hc)
  named c hc := h'.named c (h.named c hc)
  configured hc := h'.configured (h.configured hc)

theorem registersAdded_addRegister {s s' : State ι} {d : ι} {i : ℕ} {h : Handle}
    (hnamed : h.named = true) (ha : addRegister s d i h = some s') : RegistersAdded s s' d := by
  obtain ⟨hdevice, hdevices, hcpu, -, hcells⟩ := addRegister_device ha
  constructor
  case shape => exact addRegister_shape ha
  case others =>
    intro d' hd
    rw [hdevice, Function.update_of_ne hd]
  case devices => exact hdevices
  case registeredCpu => exact hcpu
  case roms =>
    intro c hc
    rw [hcells] at hc
    by_cases hentry : c = entry ((s.device d).addrOf i)
    · rw [hentry, Function.update_self] at hc
      rw [hc] at hnamed
      cases hnamed
    · rwa [Function.update_of_ne hentry] at hc
  case named =>
    intro c hc
    rw [hcells]
    by_cases hentry : c = entry ((s.device d).addrOf i)
    · rw [hentry, Function.update_self]
      exact hnamed
    · rw [Function.update_of_ne hentry]
      exact hc
  case configured => exact addRegister_configured ha

theorem registersAdded_addRegisters (d : ι) (n : ℕ) : ∀ {i k : ℕ} {s s' : State ι}, 1 ≤ k →
    k + n ≤ 255 → addRegisters d n i k s = some s' → RegistersAdded s s' d := by
  induction n with
  | zero =>
    intro i k s s' _ _ h
    cases h
    exact .refl s d
  | succ n ih =>
    intro i k s s' hk hlt h
    obtain ⟨s₁, hs₁, hrest⟩ := Option.bind_eq_some_iff.mp h
    have hnamed : Handle.named (BitVec.ofNat 8 k) = true := Handle.named_ofNat hk (by omega)
    exact (registersAdded_addRegister hnamed hs₁).trans (ih (by omega) (by omega) hrest)

/-- The addresses of the registers are in use then. -/
theorem addRegisters_claimed (d : ι) (n : ℕ) : ∀ {i k : ℕ} {s s' : State ι}, 1 ≤ k →
    k + n ≤ 255 → addRegisters d n i k s = some s' → ∀ j, i ≤ j → j < i + n →
    (s'.registerHandles (entry ((s.device d).addrOf j))).named = true := by
  induction n with
  | zero =>
    intro i k s s' _ _ _ j hj hlt
    omega
  | succ n ih =>
    intro i k s s' hk hlt h j hj hlt'
    obtain ⟨s₁, hs₁, hrest⟩ := Option.bind_eq_some_iff.mp h
    rcases hj.eq_or_lt with heq | hj
    · -- the register that is added first
      obtain ⟨-, -, -, -, hcells⟩ := addRegister_device hs₁
      refine (registersAdded_addRegisters d n (by omega) (by omega) hrest).named _ ?_
      rw [hcells, ← heq, Function.update_self]
      exact Handle.named_ofNat hk (by omega)
    · have hnext := ih (by omega) (by omega) hrest j (by omega) (by omega)
      rwa [Device.addrOf_congr (addRegister_shape hs₁ d)] at hnext

/-- What a registration leaves alone -/
structure DeviceRegistered (s s' : State ι) (d : ι) : Prop where
  handle : (s'.device d).handle ≠ 0
  registerCount : (s'.device d).registerCount = (s.device d).registerCount
  isCpu : (s'.device d).isCpu = (s.device d).isCpu
  others : ∀ d', d' ≠ d → s'.device d' = s.device d'
  registeredCpu : s'.registeredCpu =
    if (s.device d).isCpu = true then some d else s.registeredCpu
  roms : ∀ c, s'.registerHandles c = handleRom → s.registerHandles c = handleRom
  claimed : ∀ i < (s.device d).registerCount,
    (s'.registerHandles (entry ((s.device d).addrOf i))).named = true
  configured : Configured (s.device d) → Configured (s'.device d)

theorem deviceRegistered {s s' : State ι} {d : ι} (h : registerDevice s d = some (true, s')) :
    DeviceRegistered s s' d := by
  unfold registerDevice at h
  split at h
  · cases h
  split at h
  · cases h
  rename_i slot hslot
  have hslot0 := (freeSlot_spec hslot).1
  simp only [State.modifyDevice, Function.update_self, Function.update_idem] at h
  have hconfigured := checkConflicts_configured s.registerHandles (s.device d).registerCount 0
    { s.device d with handle := slot }
  have hshape := checkConflicts_shape s.registerHandles (s.device d).registerCount 0
    { s.device d with handle := slot }
  generalize checkConflicts s.registerHandles (s.device d).registerCount 0
    { s.device d with handle := slot } = checked at h hconfigured hshape
  obtain ⟨dev, free⟩ := checked
  split at h
  · cases h
  split at h
  · cases h
  rename_i hroom
  obtain ⟨r, hr, heq⟩ := Option.map_eq_some_iff.mp h
  cases heq
  obtain ⟨s₁, hs₁, hcpu⟩ := Option.bind_eq_some_iff.mp hr
  have hlast := lastHandle_le s.registerHandles
  unfold maxIopageRegisterCount at hroom
  have hadded := registersAdded_addRegisters (s := plugging s d slot dev) d _ (by omega) (by omega)
    hs₁
  have hdev : (plugging s d slot dev).device d = dev := Function.update_self ..
  have hshape₁ : (s₁.device d).shape = ({ s.device d with handle := slot } : Device).shape := by
    rw [hadded.shape, hdev, hshape]
  have hisCpu : (s₁.device d).isCpu = (s.device d).isCpu := congrArg (·.2.2.2) hshape₁
  obtain ⟨hdevice, -, -, hcells⟩ := noteCpu_eq hcpu
  constructor
  case handle =>
    rw [hdevice, show (s₁.device d).handle = slot from congrArg (·.1) hshape₁]
    exact hslot0
  case registerCount =>
    rw [hdevice, show (s₁.device d).registerCount = (s.device d).registerCount from
      congrArg (·.2.2.1) hshape₁]
  case isCpu => rw [hdevice, hisCpu]
  case others =>
    intro d' hd
    rw [hdevice, hadded.others d' hd]
    exact Function.update_of_ne hd ..
  case registeredCpu =>
    unfold noteCpu at hcpu
    rw [hisCpu] at hcpu
    split at hcpu
    · next hkind =>
      split at hcpu
      · cases hcpu
      · cases hcpu
        rw [if_pos hkind]
    · next hkind =>
      cases hcpu
      rw [if_neg hkind, hadded.registeredCpu]
      rfl
  case roms =>
    intro c hc
    rw [hcells] at hc
    exact hadded.roms c hc
  case claimed =>
    intro i hi
    have hclaimed := addRegisters_claimed (s := plugging s d slot dev) d _ (by omega) (by omega)
      hs₁ i (Nat.zero_le i) (by omega)
    rw [hdev, Device.addrOf_congr hshape] at hclaimed
    rw [hcells]
    exact hclaimed
  case configured =>
    intro hc
    rw [hdevice]
    refine hadded.configured ?_
    rw [hdev]
    exact hconfigured hc

/-! ## Unregistration -/

/-- What `unregister_device` leaves -/
structure DeviceUnregistered (s s' : State ι) (d : ι) : Prop where
  device : s'.device = Function.update s.device d { s.device d with handle := 0 }
  registeredCpu : s'.registeredCpu = if (s.device d).isCpu = true then none else s.registeredCpu
  roms : ∀ c, s'.registerHandles c = handleRom → s.registerHandles c = handleRom

omit [DecidableEq ι] in
theorem removeRegisters_kept (d : ι) (n : ℕ) : ∀ {i : ℕ} {s : State ι},
    (removeRegisters d n i s).device = s.device ∧
      (removeRegisters d n i s).registeredCpu = s.registeredCpu ∧
      ∀ c, (removeRegisters d n i s).registerHandles c = handleRom →
        s.registerHandles c = handleRom := by
  induction n with
  | zero =>
    intro i s
    exact ⟨rfl, rfl, fun _ h => h⟩
  | succ n ih =>
    intro i s
    obtain ⟨hdevice, hcpu, hroms⟩ := ih (i := i + 1) (s := removeRegister s d i)
    refine ⟨hdevice, hcpu, fun c hc => ?_⟩
    have hc' : Function.update s.registerHandles (entry (s.reg d i).addr) 0 c = handleRom :=
      hroms c hc
    by_cases hentry : c = entry (s.reg d i).addr
    · rw [hentry, Function.update_self] at hc'
      cases hc'
    · rwa [Function.update_of_ne hentry] at hc'

theorem deviceUnregistered {s : State ι} {d : ι} (hd : (s.device d).handle ≠ 0) :
    ∃ s', unregisterDevice s d = some s' ∧ DeviceUnregistered s s' d := by
  unfold unregisterDevice
  rw [if_neg hd]
  generalize hs₁ : (if (s.device d).isCpu then
    { s with registeredCpu := none, emulateCpu := false } else s) = s₁
  have hdevice : s₁.device = s.device := by
    rw [← hs₁]
    split <;> rfl
  have hcpu : s₁.registeredCpu =
      if (s.device d).isCpu = true then none else s.registeredCpu := by
    rw [← hs₁]
    split <;> rfl
  have hcells : s₁.registerHandles = s.registerHandles := by
    rw [← hs₁]
    split <;> rfl
  refine ⟨_, rfl, ?_⟩
  generalize hs₂ : ({ s₁.modifyDevice d ({ · with handle := 0 }) with
    devices := Function.update s₁.devices (s₁.device d).handle none } : State ι) = s₂
  have hdevice₂ : s₂.device = Function.update s.device d { s.device d with handle := 0 } := by
    rw [← hs₂, ← hdevice]
    rfl
  have hcpu₂ : s₂.registeredCpu = s₁.registeredCpu := by
    rw [← hs₂]
    rfl
  have hcells₂ : s₂.registerHandles = s₁.registerHandles := by
    rw [← hs₂]
    rfl
  obtain ⟨hkept, hkeptCpu, hroms⟩ := removeRegisters_kept d (s₂.device d).registerCount (i := 0)
    (s := s₂)
  constructor
  case device => rw [hkept, hdevice₂]
  case registeredCpu => rw [hkeptCpu, hcpu₂, hcpu]
  case roms =>
    intro c hc
    rw [← hcells, ← hcells₂]
    exact hroms c hc

end QUniBone.QUnibusAdapter
