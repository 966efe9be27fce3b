import QUniBone.Adapter.Backplane
import QUniBone.Lib.Transition

/-!
# The tables of the backplane agree

The scan for the last handle in use and the check for conflicts make every new register come
with an unused handle and an address no other register has, so the loops of `register_device`
never run into an entry that is taken. A device that is not plugged in has no entry at all.

* `Mapped`: map and handle table describe the same registers.
* `PluggedIn`: the invariant of a backplane.
* `Registered`: how a registration can go.
* `io_page_bijection`: the tables after any sequence of calls.
-/

namespace QUniBone.QUnibusAdapter

variable {ι : Type} [DecidableEq ι]

/-! ## The map and the handle table -/

/-- Map and handle table describe the registers in `live`, each under the handle and at the
address noted in the register itself. -/
structure Mapped (s : State ι) (live : ι → ℕ → Prop) : Prop where
  named : ∀ d i, live d i → (s.reg d i).registerHandle.named = true
  byHandle : ∀ h d i,
    s.registerByHandle h = some (d, i) ↔ live d i ∧ (s.reg d i).registerHandle = h
  cell : ∀ d i, live d i →
    s.registerHandles (entry (s.reg d i).addr) = (s.reg d i).registerHandle
  owner : ∀ c, (s.registerHandles c).named = true → ∃ d i, live d i ∧ entry (s.reg d i).addr = c

namespace Mapped

variable {s s' : State ι} {live : ι → ℕ → Prop}

omit [DecidableEq ι] in
/-- Of a device that is not plugged in nothing matters. -/
theorem congr (hm : Mapped s live) (hreg : ∀ d i, live d i → s'.reg d i = s.reg d i)
    (htable : s'.registerByHandle = s.registerByHandle)
    (hcells : s'.registerHandles = s.registerHandles) : Mapped s' live where
  named d i h := by
    rw [hreg d i h]
    exact hm.named d i h
  byHandle h d i := by
    rw [htable, hm.byHandle]
    exact and_congr_right fun hl => by rw [hreg d i hl]
  cell d i h := by
    rw [hcells, hreg d i h]
    exact hm.cell d i h
  owner c h := by
    rw [hcells] at h
    obtain ⟨d, i, hl, hc⟩ := hm.owner c h
    exact ⟨d, i, hl, by rw [hreg d i hl, hc]⟩

omit [DecidableEq ι] in
theorem congr_live {live' : ι → ℕ → Prop} (hm : Mapped s live)
    (h : ∀ d i, live d i ↔ live' d i) : Mapped s live' := by
  have heq : live = live' := funext fun d => funext fun i => propext (h d i)
  rwa [← heq]

omit [DecidableEq ι] in
/-- An address that holds the handle of a live register is the address of this register. -/
theorem entry_of_cell (hm : Mapped s live) {d : ι} {i : ℕ} (hl : live d i) {c : Cell}
    (hc : s.registerHandles c = (s.reg d i).registerHandle) : c = entry (s.reg d i).addr := by
  have hnamed := hm.named d i hl
  rw [← hc] at hnamed
  obtain ⟨d', i', hl', hentry⟩ := hm.owner c hnamed
  -- Both registers have the handle found at `c`, so they are the same one.
  have hcell := hm.cell d' i' hl'
  rw [hentry, hc] at hcell
  have h1 := (hm.byHandle _ d i).mpr ⟨hl, rfl⟩
  have h2 := (hm.byHandle _ d' i').mpr ⟨hl', hcell.symm⟩
  rw [h1] at h2
  injection h2 with h2
  injection h2 with hd hi
  rw [hd, hi, hentry]

end Mapped

/-! ## Adding registers -/

section Add

variable {s s' : State ι} {d : ι} {i : ℕ} {h : Handle} {live : ι → ℕ → Prop}

omit [DecidableEq ι] in
theorem reg_eq {s' : State ι} {dev : Device} (d : ι) (i : ℕ) (hd : s'.device d = dev) :
    s'.reg d i = dev.registers i := by
  rw [State.reg, hd]

theorem addRegister_device (ha : addRegister s d i h = some s') :
    s'.device = Function.update s.device d ((s.device d).modifyReg i
      ({ · with addr := (s.device d).addrOf i, registerHandle := h })) ∧
    s'.devices = s.devices ∧ s'.registeredCpu = s.registeredCpu ∧
    s'.registerByHandle = Function.update s.registerByHandle h (some (d, i)) ∧
    s'.registerHandles =
      Function.update s.registerHandles (entry ((s.device d).addrOf i)) h := by
  unfold addRegister at ha
  split at ha
  · cases ha
  · cases ha
    exact ⟨rfl, rfl, rfl, rfl, rfl⟩

theorem addRegister_reg (ha : addRegister s d i h = some s') (d' : ι) (i' : ℕ) :
    s'.reg d' i' = if d' = d ∧ i' = i then
      { s.reg d i with addr := (s.device d).addrOf i, registerHandle := h } else s.reg d' i' := by
  obtain ⟨hdev, -⟩ := addRegister_device ha
  unfold State.reg
  rw [hdev]
  by_cases hd : d' = d
  · subst hd
    rw [Function.update_self]
    simp only [Device.modifyReg, Function.update_apply, true_and]
  · rw [Function.update_of_ne hd, if_neg (fun hc => hd hc.1)]

/-- One more register under an unused handle, at an address that no register has. -/
theorem Mapped.add (hm : Mapped s live) (hnew : ¬ live d i) (hnamed : h.named = true)
    (hfree : ∀ c, s.registerHandles c ≠ h)
    (hcell : (s.registerHandles (entry ((s.device d).addrOf i))).named = false)
    (ha : addRegister s d i h = some s') :
    Mapped s' fun d' i' => live d' i' ∨ (d' = d ∧ i' = i) := by
  obtain ⟨-, -, -, htable, hcells⟩ := addRegister_device ha
  have hnew' : s'.reg d i =
      { s.reg d i with addr := (s.device d).addrOf i, registerHandle := h } := by
    rw [addRegister_reg ha, if_pos ⟨rfl, rfl⟩]
  have hold : ∀ {d' i'}, live d' i' → s'.reg d' i' = s.reg d' i' := by
    intro d' i' hl
    rw [addRegister_reg ha, if_neg]
    rintro ⟨rfl, rfl⟩
    exact hnew hl
  have hne : ∀ {d' i'}, live d' i' → (s.reg d' i').registerHandle ≠ h := by
    intro d' i' hl hc
    exact hfree _ ((hm.cell d' i' hl).trans hc)
  constructor
  case named =>
    rintro d' i' (hl | ⟨rfl, rfl⟩)
    · rw [hold hl]
      exact hm.named d' i' hl
    · rw [hnew']
      exact hnamed
  case byHandle =>
    intro h' d' i'
    rw [htable]
    by_cases hh : h' = h
    · subst hh
      rw [Function.update_self]
      constructor
      · intro heq
        cases heq
        exact ⟨Or.inr ⟨rfl, rfl⟩, by rw [hnew']⟩
      · rintro ⟨hl | ⟨rfl, rfl⟩, heq⟩
        · rw [hold hl] at heq
          exact absurd heq (hne hl)
        · rfl
    · rw [Function.update_of_ne hh, hm.byHandle]
      constructor
      · intro ⟨hl, heq⟩
        exact ⟨Or.inl hl, by rw [hold hl, heq]⟩
      · rintro ⟨hl | ⟨rfl, rfl⟩, heq⟩
        · exact ⟨hl, by rw [← hold hl, heq]⟩
        · rw [hnew'] at heq
          exact absurd heq.symm hh
  case cell =>
    rintro d' i' (hl | ⟨rfl, rfl⟩)
    · have hentry : entry (s.reg d' i').addr ≠ entry ((s.device d).addrOf i) := by
        intro hc
        rw [← hc, hm.cell d' i' hl, hm.named d' i' hl] at hcell
        cases hcell
      rw [hold hl, hcells, Function.update_of_ne hentry]
      exact hm.cell d' i' hl
    · rw [hnew', hcells, Function.update_self]
  case owner =>
    intro c hc
    rw [hcells] at hc
    by_cases hentry : c = entry ((s.device d).addrOf i)
    · exact ⟨d, i, Or.inr ⟨rfl, rfl⟩, by rw [hnew', hentry]⟩
    · rw [Function.update_of_ne hentry] at hc
      obtain ⟨d', i', hl, heq⟩ := hm.owner c hc
      exact ⟨d', i', Or.inl hl, by rw [hold hl, heq]⟩

/-- What registration leaves alone in a device. -/
def Device.shape (dev : Device) : ℕ × UInt × ℕ × Bool :=
  (dev.handle, dev.baseAddr, dev.registerCount, dev.isCpu)

theorem addRegister_shape (ha : addRegister s d i h = some s') (d' : ι) :
    (s'.device d').shape = (s.device d').shape := by
  obtain ⟨hdev, -⟩ := addRegister_device ha
  rw [hdev]
  by_cases hd : d' = d
  · subst hd
    rw [Function.update_self]
    rfl
  · rw [Function.update_of_ne hd]

omit [DecidableEq ι] in
theorem Device.addrOf_congr {dev dev' : Device} (hshape : dev'.shape = dev.shape) (i : ℕ) :
    dev'.addrOf i = dev.addrOf i := by
  have hbase : dev'.baseAddr = dev.baseAddr := congrArg (·.2.1) hshape
  rw [Device.addrOf, hbase, Device.addrOf]

/-- The registers of a device, added one after the other under fresh handles. -/
theorem addRegisters_spec (d : ι) (n : ℕ) : ∀ {i k : ℕ} {s s' : State ι} {live : ι → ℕ → Prop},
    Mapped s live → (∀ j, i ≤ j → j < i + n → ¬ live d j) →
    (∀ j, i ≤ j → j < i + n →
      (s.registerHandles (entry ((s.device d).addrOf j))).named = false) →
    (∀ c, (s.registerHandles c).named = true → (s.registerHandles c).toNat < k) →
    1 ≤ k → k + n ≤ 255 → i + n ≤ 255 → addRegisters d n i k s = some s' →
    Mapped s' (fun d' i' => live d' i' ∨ (d' = d ∧ i ≤ i' ∧ i' < i + n)) ∧
      (∀ d', (s'.device d').shape = (s.device d').shape) ∧ s'.devices = s.devices := by
  induction n with
  | zero =>
      intro i k s s' live hm _ _ _ _ _ _ ha
      cases ha
      refine ⟨hm.congr_live fun d' i' => ?_, fun _ => rfl, rfl⟩
      constructor
      · exact Or.inl
      · intro h
        rcases h with hl | ⟨_, hlow, hhigh⟩
        · exact hl
        · omega
  | succ n ih =>
      intro i k s s' live hm hnew hcells hlt hk hkn hin ha
      obtain ⟨s1, ha1, ha2⟩ := Option.bind_eq_some_iff.mp ha
      have hknat : (BitVec.ofNat 8 k).toNat = k := by
        rw [BitVec.toNat_ofNat]
        exact Nat.mod_eq_of_lt (by omega)
      have hknamed : Handle.named (BitVec.ofNat 8 k) = true := Handle.named_ofNat hk (by omega)
      have hfree : ∀ c, s.registerHandles c ≠ BitVec.ofNat 8 k := by
        intro c hc
        have := hlt c (by rw [hc, hknamed])
        rw [hc, hknat] at this
        omega
      have hm1 := hm.add (hnew i (le_refl i) (by omega)) hknamed hfree
        (hcells i (le_refl i) (by omega)) ha1
      obtain ⟨_, hdevices, _, _, hmap⟩ := addRegister_device ha1
      have hshape := addRegister_shape ha1
      -- The remaining addresses are other words than the one just taken.
      have hne : ∀ j, i < j → j < i + 1 + n →
          entry ((s.device d).addrOf j) ≠ entry ((s.device d).addrOf i) := by
        intro j hlow hhigh
        exact (entry_ne hlow (by omega)).symm
      have hrest := ih hm1
        (by
          intro j hlow hhigh hc
          rcases hc with hl | ⟨_, rfl⟩
          · exact hnew j (by omega) (by omega) hl
          · omega)
        (by
          intro j hlow hhigh
          rw [Device.addrOf_congr (hshape d), hmap,
            Function.update_of_ne (hne j (by omega) hhigh)]
          exact hcells j (by omega) (by omega))
        (by
          intro c hc
          rw [hmap] at hc ⊢
          by_cases hentry : c = entry ((s.device d).addrOf i)
          · rw [hentry, Function.update_self, hknat]
            omega
          · rw [Function.update_of_ne hentry] at hc ⊢
            have := hlt c hc
            omega)
        (by omega) (by omega) (by omega) ha2
      obtain ⟨hm', hshape', hdevices'⟩ := hrest
      refine ⟨hm'.congr_live fun d' i' => ?_, fun d' => (hshape' d').trans (hshape d'),
        hdevices'.trans hdevices⟩
      constructor
      · rintro ((hl | ⟨hd, hi⟩) | ⟨hd, hlow, hhigh⟩)
        · exact Or.inl hl
        · exact Or.inr ⟨hd, by omega, by omega⟩
        · exact Or.inr ⟨hd, by omega, by omega⟩
      · rintro (hl | ⟨hd, hlow, hhigh⟩)
        · exact Or.inl (Or.inl hl)
        · by_cases hi : i' = i
          · exact Or.inl (Or.inr ⟨hd, hi⟩)
          · exact Or.inr ⟨hd, by omega, by omega⟩

end Add

/-! ## Removing registers -/

section Remove

variable {s : State ι} {d : ι} {live : ι → ℕ → Prop}

omit [DecidableEq ι] in
theorem Mapped.remove (hm : Mapped s live) {i : ℕ} (hl : live d i) :
    Mapped (removeRegister s d i) fun d' i' => live d' i' ∧ ¬ (d' = d ∧ i' = i) := by
  have htable : (s.registerByHandle (s.reg d i).registerHandle) = some (d, i) :=
    (hm.byHandle _ d i).mpr ⟨hl, rfl⟩
  constructor
  case named =>
    intro d' i' h
    exact hm.named d' i' h.1
  case byHandle =>
    intro h d' i'
    show Function.update s.registerByHandle (s.reg d i).registerHandle none h = some (d', i') ↔
      (live d' i' ∧ ¬ (d' = d ∧ i' = i)) ∧ (s.reg d' i').registerHandle = h
    by_cases hh : h = (s.reg d i).registerHandle
    · rw [hh, Function.update_self]
      constructor
      · intro hc
        cases hc
      · rintro ⟨⟨hl', hne⟩, heq⟩
        -- A second register under this handle would be the register itself.
        have h2 := (hm.byHandle _ d' i').mpr ⟨hl', heq⟩
        rw [htable] at h2
        cases h2
        exact absurd ⟨rfl, rfl⟩ hne
    · rw [Function.update_of_ne hh, hm.byHandle]
      constructor
      · rintro ⟨hl', heq⟩
        refine ⟨⟨hl', ?_⟩, heq⟩
        rintro ⟨rfl, rfl⟩
        exact hh heq.symm
      · rintro ⟨⟨hl', -⟩, heq⟩
        exact ⟨hl', heq⟩
  case cell =>
    intro d' i' h
    obtain ⟨hl', hne⟩ := h
    show Function.update s.registerHandles (entry (s.reg d i).addr) 0 (entry (s.reg d' i').addr) =
      (s.reg d' i').registerHandle
    rw [Function.update_of_ne]
    · exact hm.cell d' i' hl'
    · intro hentry
      have hsame := hm.cell d' i' hl'
      rw [hentry, hm.cell d i hl] at hsame
      have h2 := (hm.byHandle _ d' i').mpr ⟨hl', hsame.symm⟩
      rw [htable] at h2
      cases h2
      exact hne ⟨rfl, rfl⟩
  case owner =>
    intro c hc
    change (Function.update s.registerHandles (entry (s.reg d i).addr) 0 c).named = true at hc
    by_cases hentry : c = entry (s.reg d i).addr
    · rw [hentry, Function.update_self] at hc
      cases hc
    · rw [Function.update_of_ne hentry] at hc
      obtain ⟨d', i', hl', heq⟩ := hm.owner c hc
      refine ⟨d', i', ⟨hl', ?_⟩, heq⟩
      rintro ⟨rfl, rfl⟩
      exact hentry heq.symm

omit [DecidableEq ι] in
theorem removeRegisters_spec (d : ι) (n : ℕ) : ∀ {i : ℕ} {s : State ι} {live : ι → ℕ → Prop},
    Mapped s live → (∀ j, i ≤ j → j < i + n → live d j) →
    Mapped (removeRegisters d n i s)
      (fun d' i' => live d' i' ∧ ¬ (d' = d ∧ i ≤ i' ∧ i' < i + n)) ∧
      (removeRegisters d n i s).device = s.device ∧
      (removeRegisters d n i s).devices = s.devices := by
  induction n with
  | zero =>
      intro i s live hm _
      refine ⟨hm.congr_live fun d' i' => ?_, rfl, rfl⟩
      constructor
      · intro hl
        refine ⟨hl, ?_⟩
        rintro ⟨_, hlow, hhigh⟩
        omega
      · exact And.left
  | succ n ih =>
      intro i s live hm hall
      have hrest := ih (hm.remove (hall i (le_refl i) (by omega))) (i := i + 1) <| by
        intro j hlow hhigh
        refine ⟨hall j (by omega) (by omega), ?_⟩
        rintro ⟨_, rfl⟩
        omega
      refine ⟨hrest.1.congr_live fun d' i' => ?_, hrest.2⟩
      constructor
      · rintro ⟨⟨hl, hne⟩, hrange⟩
        refine ⟨hl, ?_⟩
        rintro ⟨hd, hlow, hhigh⟩
        by_cases hi : i' = i
        · exact hne ⟨hd, hi⟩
        · exact hrange ⟨hd, by omega, by omega⟩
      · rintro ⟨hl, hrange⟩
        refine ⟨⟨hl, ?_⟩, ?_⟩
        · rintro ⟨hd, rfl⟩
          exact hrange ⟨hd, by omega, by omega⟩
        · rintro ⟨hd, hlow, hhigh⟩
          exact hrange ⟨hd, by omega, by omega⟩

end Remove

/-! ## The backplane -/

/-- What holds between two calls: the registers of exactly the plugged devices are mapped, and
a device sits in the slot its handle names. -/
structure PluggedIn (s : State ι) : Prop where
  mapped : Mapped s fun d i => (s.device d).handle ≠ 0 ∧ i < (s.device d).registerCount
  slots : ∀ n d, s.devices n = some d ↔ n ≠ 0 ∧ (s.device d).handle = n

omit [DecidableEq ι] in
theorem freeSlot_spec {devices : ℕ → Option ι} {n : ℕ} (h : freeSlot devices = some n) :
    n ≠ 0 ∧ devices n = none := by
  have hmem := List.mem_of_find?_eq_some h
  have hnone := List.find?_some h
  rw [List.mem_range'_1] at hmem
  exact ⟨by omega, Option.isNone_iff_eq_none.mp hnone⟩

theorem checkConflicts_spec (cells : Cell → Handle) (n : ℕ) : ∀ {i : ℕ} {dev dev' : Device}
    {free : Bool}, checkConflicts cells n i dev = (dev', free) →
    dev'.shape = dev.shape ∧ (free = true → ∀ j, i ≤ j → j < i + n →
      (cells (entry (dev.addrOf j))).named = false) := by
  induction n with
  | zero =>
      intro i dev dev' free h
      cases h
      refine ⟨rfl, ?_⟩
      intro _ j hlow hhigh
      omega
  | succ n ih =>
      intro i dev dev' free h
      rw [checkConflicts] at h
      have haddr : ((dev.modifyReg i ({ · with addr := dev.addrOf i })).registers i).addr =
          dev.addrOf i := by
        simp only [Device.modifyReg, Function.update_self]
      rw [haddr] at h
      split at h
      · cases h
        refine ⟨rfl, ?_⟩
        intro hc
        cases hc
      · rename_i hcell
        obtain ⟨hshape, hfree⟩ := ih h
        refine ⟨hshape, ?_⟩
        intro hf j hlow hhigh
        by_cases hj : j = i
        · rw [hj]
          simpa using hcell
        · exact hfree hf j (by omega) (by omega)

omit [DecidableEq ι] in
theorem noteCpu_eq {s s' : State ι} {d : ι} (h : noteCpu s d = some s') :
    s'.device = s.device ∧ s'.devices = s.devices ∧ s'.registerByHandle = s.registerByHandle ∧
      s'.registerHandles = s.registerHandles := by
  unfold noteCpu at h
  split at h
  · split at h
    · cases h
    · cases h
      exact ⟨rfl, rfl, rfl, rfl⟩
  · cases h
    exact ⟨rfl, rfl, rfl, rfl⟩

/-- `s` while device `d` is being plugged into `slot`. -/
def plugging (s : State ι) (d : ι) (slot : ℕ) (dev : Device) : State ι :=
  { s with
    device := Function.update s.device d dev
    devices := Function.update s.devices slot (some d) }

section Plug

variable {s s' : State ι} {d : ι} {slot : ℕ} {dev : Device}

theorem PluggedIn.plugging (hs : PluggedIn s) (hd : (s.device d).handle = 0) :
    Mapped (plugging s d slot dev) fun d' i =>
      (s.device d').handle ≠ 0 ∧ i < (s.device d').registerCount := by
  refine hs.mapped.congr ?_ rfl rfl
  intro d' i hl
  refine reg_eq d' i ?_
  show Function.update s.device d dev d' = s.device d'
  rw [Function.update_of_ne]
  rintro rfl
  exact hl.1 hd

/-- A refused device leaves the tables as they were. -/
theorem giveBack_plugging (d : ι) (dev : Device) (hfree : s.devices slot = none) :
    (giveBack (QUnibusAdapter.plugging s d slot dev) d slot).devices = s.devices ∧
      (giveBack (QUnibusAdapter.plugging s d slot dev) d slot).device =
        Function.update s.device d { dev with handle := 0 } := by
  constructor
  · show Function.update (Function.update s.devices slot (some d)) slot none = s.devices
    rw [Function.update_idem, ← hfree, Function.update_eq_self]
  · show Function.update (Function.update s.device d dev) d
      { Function.update s.device d dev d with handle := 0 } = _
    rw [Function.update_idem, Function.update_self]

theorem PluggedIn.giveBack (hs : PluggedIn s) (hd : (s.device d).handle = 0)
    (hfree : s.devices slot = none) :
    PluggedIn (giveBack (QUnibusAdapter.plugging s d slot dev) d slot) := by
  obtain ⟨hdevices, hdevice⟩ := giveBack_plugging d dev hfree
  have hother : ∀ d', d' ≠ d →
      (QUnibusAdapter.giveBack (QUnibusAdapter.plugging s d slot dev) d slot).device d' =
        s.device d' := fun d' hne => by rw [hdevice, Function.update_of_ne hne]
  have hself : ((QUnibusAdapter.giveBack (QUnibusAdapter.plugging s d slot dev) d slot).device
      d).handle = 0 := by rw [hdevice, Function.update_self]
  constructor
  case mapped =>
    have hreg : ∀ d' i, (s.device d').handle ≠ 0 ∧ i < (s.device d').registerCount →
        (QUnibusAdapter.giveBack (QUnibusAdapter.plugging s d slot dev) d slot).reg d' i =
          s.reg d' i := by
      intro d' i hl
      refine reg_eq d' i (hother d' ?_)
      rintro rfl
      exact hl.1 hd
    refine Mapped.congr_live (hs.mapped.congr hreg rfl rfl) ?_
    · intro d' i
      by_cases hne : d' = d
      · subst hne
        simp only [hself, hd, ne_eq, not_true_eq_false, false_and]
      · rw [hother d' hne]
  case slots =>
    intro n d'
    rw [hdevices, hs.slots]
    by_cases hne : d' = d
    · subst hne
      rw [hself, hd]
    · rw [hother d' hne]

end Plug

/-- How a registration can go: refused without a trace in the tables, or every register of the
device added. -/
inductive Registered (s : State ι) (d : ι) : Bool → State ι → Prop
  | noSlot : Registered s d false s
  | refused {slot : ℕ} {dev : Device} : (s.device d).handle = 0 → s.devices slot = none →
      Registered s d false (giveBack (plugging s d slot dev) d slot)
  | added {slot : ℕ} {dev : Device} {s1 s' : State ι} : (s.device d).handle = 0 → slot ≠ 0 →
      s.devices slot = none →
      dev.shape = (slot, (s.device d).baseAddr, (s.device d).registerCount, (s.device d).isCpu) →
      (∀ i, i < dev.registerCount → (s.registerHandles (entry (dev.addrOf i))).named = false) →
      lastHandle s.registerHandles + dev.registerCount ≤ 254 →
      addRegisters d dev.registerCount 0 (lastHandle s.registerHandles + 1)
        (plugging s d slot dev) = some s1 →
      noteCpu s1 d = some s' → Registered s d true s'

theorem registerDevice_spec {s s' : State ι} {d : ι} {ok : Bool}
    (h : registerDevice s d = some (ok, s')) : Registered s d ok s' := by
  unfold registerDevice at h
  split at h
  · cases h
  rename_i hassert
  obtain ⟨hzero, hcount⟩ := not_or.mp hassert
  have hd : (s.device d).handle = 0 := not_not.mp hzero
  split at h
  · cases h
    exact .noSlot
  rename_i slot hslot
  obtain ⟨hslot0, hfree⟩ := freeSlot_spec hslot
  simp only [State.modifyDevice, Function.update_self, Function.update_idem] at h
  generalize hcheck : checkConflicts s.registerHandles (s.device d).registerCount 0
    { s.device d with handle := slot } = checked at h
  obtain ⟨dev, free⟩ := checked
  obtain ⟨hshape, hcells⟩ := checkConflicts_spec _ _ hcheck
  have hregs : dev.registerCount = (s.device d).registerCount := congrArg (·.2.2.1) hshape
  split at h
  · cases h
    exact .refused hd hfree
  · rename_i hok
    split at h
    · cases h
      exact .refused hd hfree
    · rename_i hroom
      obtain ⟨r, hr, hr'⟩ := Option.map_eq_some_iff.mp h
      cases hr'
      obtain ⟨s1, hadd, hcpu⟩ := Option.bind_eq_some_iff.mp hr
      have hok' : free = true := by simpa using hok
      rw [← hregs] at hadd hcells hroom
      refine .added hd hslot0 hfree hshape ?_ ?_ hadd hcpu
      · intro i hi
        rw [Device.addrOf_congr hshape]
        exact hcells hok' i (Nat.zero_le i) (by omega)
      · have hlast := lastHandle_le s.registerHandles
        simp only [maxIopageRegisterCount] at hroom hcount
        omega

/-- A device without conflicts is plugged in, as long as there are handles for it. -/
theorem registerDevice_of_free {s s' : State ι} (d : ι) (slot : ℕ) {dev : Device}
    (hd : (s.device d).handle = 0) (hcount : (s.device d).registerCount ≤ maxIopageRegisterCount)
    (hslot : freeSlot s.devices = some slot)
    (hcheck : checkConflicts s.registerHandles (s.device d).registerCount 0
      { s.device d with handle := slot } = (dev, true))
    (hroom : ¬ maxIopageRegisterCount - lastHandle s.registerHandles - 1 <
      (s.device d).registerCount)
    (hadd : (addRegisters d (s.device d).registerCount 0 (lastHandle s.registerHandles + 1)
      (plugging s d slot dev)).bind (noteCpu · d) = some s') :
    registerDevice s d = some (true, s') := by
  unfold registerDevice
  rw [if_neg (not_or.mpr ⟨not_not.mpr hd, not_lt.mpr hcount⟩), hslot]
  simp only [State.modifyDevice, Function.update_self, Function.update_idem, hcheck,
    Bool.not_true, Bool.false_eq_true, if_false, if_neg hroom]
  exact congrArg (Option.map (true, ·)) hadd

theorem PluggedIn.registerDevice {s s' : State ι} {d : ι} {ok : Bool} (hs : PluggedIn s)
    (h : registerDevice s d = some (ok, s')) : PluggedIn s' := by
  cases registerDevice_spec h with
  | noSlot => exact hs
  | refused hd hfree => exact hs.giveBack hd hfree
  | @added slot dev s1 _ hd hslot hfree hshape hcells hroom hadd hcpu =>
    have hdev : (QUnibusAdapter.plugging s d slot dev).device d = dev := Function.update_self ..
    obtain ⟨hm, hshape1, hdevices1⟩ := addRegisters_spec d dev.registerCount
      (k := lastHandle s.registerHandles + 1) (hs.plugging hd)
      (fun j _ _ hl => hl.1 hd)
      (by
        intro j _ hj
        rw [hdev]
        exact hcells j (by omega))
      (fun c hc => Nat.lt_succ_of_le (toNat_le_lastHandle hc))
      (Nat.succ_le_succ (Nat.zero_le _)) (by omega) (by omega) hadd
    obtain ⟨hdevice, hdevices, htable, hmap⟩ := noteCpu_eq hcpu
    have hshape' : ∀ d', (s'.device d').shape =
        (Function.update s.device d dev d').shape := fun d' => by
      rw [hdevice]
      exact hshape1 d'
    have hself : (s'.device d).handle = slot ∧
        (s'.device d).registerCount = dev.registerCount := by
      have hd' := hshape' d
      rw [Function.update_self, hshape] at hd'
      exact ⟨congrArg (·.1) hd', (congrArg (·.2.2.1) hd').trans (congrArg (·.2.2.1) hshape).symm⟩
    have hother : ∀ d', d' ≠ d → (s'.device d').handle = (s.device d').handle ∧
        (s'.device d').registerCount = (s.device d').registerCount := by
      intro d' hne
      have hd' := hshape' d'
      rw [Function.update_of_ne hne] at hd'
      exact ⟨congrArg (·.1) hd', congrArg (·.2.2.1) hd'⟩
    constructor
    case mapped =>
      have hreg : ∀ d' i, s'.reg d' i = s1.reg d' i := fun d' i => by
        rw [State.reg, hdevice, State.reg]
      refine Mapped.congr_live (hm.congr (fun d' i _ => hreg d' i) htable hmap) ?_
      intro d' i
      by_cases hne : d' = d
      · subst hne
        rw [hself.1, hself.2]
        constructor
        · rintro (hl | ⟨_, _, hi⟩)
          · exact absurd hd hl.1
          · exact ⟨hslot, by omega⟩
        · rintro ⟨_, hi⟩
          exact Or.inr ⟨rfl, Nat.zero_le i, by omega⟩
      · rw [(hother d' hne).1, (hother d' hne).2]
        constructor
        · rintro (hl | ⟨hd', _⟩)
          · exact hl
          · exact absurd hd' hne
        · exact Or.inl
    case slots =>
      intro n d'
      rw [hdevices, hdevices1]
      show Function.update s.devices slot (some d) n = some d' ↔ _
      by_cases hne : d' = d
      · subst hne
        rw [hself.1]
        by_cases hn : n = slot
        · subst hn
          rw [Function.update_self]
          exact ⟨fun _ => ⟨hslot, rfl⟩, fun _ => rfl⟩
        · rw [Function.update_of_ne hn, hs.slots, hd]
          constructor
          · rintro ⟨h0, h1⟩
            exact absurd h1.symm h0
          · rintro ⟨_, h1⟩
            exact absurd h1.symm hn
      · rw [(hother d' hne).1]
        by_cases hn : n = slot
        · subst hn
          rw [Function.update_self]
          constructor
          · intro hc
            cases hc
            exact absurd rfl hne
          · intro hc
            -- The slot was free, so no other device has it.
            rw [(hs.slots n d').mpr hc] at hfree
            cases hfree
        · rw [Function.update_of_ne hn, hs.slots]

theorem PluggedIn.unregisterDevice {s s' : State ι} {d : ι} (hs : PluggedIn s)
    (h : unregisterDevice s d = some s') : PluggedIn s' := by
  unfold QUnibusAdapter.unregisterDevice at h
  split at h
  · cases h
  rename_i hd
  -- The flags of a CPU are not part of the tables.
  generalize hs1 : (if (s.device d).isCpu then
    { s with registeredCpu := none, emulateCpu := false } else s) = s1 at h
  have heq : s1.device = s.device ∧ s1.devices = s.devices ∧
      s1.registerByHandle = s.registerByHandle ∧ s1.registerHandles = s.registerHandles := by
    rw [← hs1]
    split <;> exact ⟨rfl, rfl, rfl, rfl⟩
  obtain ⟨hdevice, hdevices, htable, hmap⟩ := heq
  simp only [State.modifyDevice, hdevice, hdevices, Function.update_self] at h
  cases h
  generalize hs2 : ({ s1 with
    device := Function.update s.device d { s.device d with handle := 0 }
    devices := Function.update s.devices (s.device d).handle none } : State ι) = s2
  have hdevice2 : s2.device = Function.update s.device d { s.device d with handle := 0 } := by
    rw [← hs2]
  have hdevices2 : s2.devices = Function.update s.devices (s.device d).handle none := by
    rw [← hs2]
  have hreg : ∀ d' i, s2.reg d' i = s.reg d' i := by
    intro d' i
    rw [State.reg, hdevice2, State.reg]
    by_cases hne : d' = d
    · subst hne
      rw [Function.update_self]
    · rw [Function.update_of_ne hne]
  have hm : Mapped s2 fun d' i => (s.device d').handle ≠ 0 ∧ i < (s.device d').registerCount :=
    hs.mapped.congr (fun d' i _ => hreg d' i) (by rw [← hs2]; exact htable)
      (by rw [← hs2]; exact hmap)
  obtain ⟨hm', hdev', hslots'⟩ := removeRegisters_spec d (s.device d).registerCount hm
    (i := 0) (fun j _ hj => ⟨hd, by omega⟩)
  constructor
  case mapped =>
    refine hm'.congr_live ?_
    intro d' i
    rw [hdev', hdevice2]
    by_cases hne : d' = d
    · subst hne
      rw [Function.update_self]
      constructor
      · rintro ⟨⟨_, hi⟩, hrange⟩
        exact absurd ⟨rfl, Nat.zero_le i, by omega⟩ hrange
      · rintro ⟨h0, _⟩
        exact absurd rfl h0
    · rw [Function.update_of_ne hne]
      constructor
      · exact And.left
      · intro hl
        exact ⟨hl, fun hc => hne hc.1⟩
  case slots =>
    intro n d'
    rw [hslots', hdevices2, hdev', hdevice2]
    by_cases hn : n = (s.device d).handle
    · subst hn
      rw [Function.update_self]
      constructor
      · intro hc
        cases hc
      · rintro ⟨_, hhandle⟩
        by_cases hne : d' = d
        · subst hne
          rw [Function.update_self] at hhandle
          exact absurd hhandle.symm hd
        · rw [Function.update_of_ne hne] at hhandle
          -- Two devices in one slot are the same.
          have h1 := (hs.slots (s.device d).handle d').mpr ⟨hd, hhandle⟩
          have h2 := (hs.slots (s.device d).handle d).mpr ⟨hd, rfl⟩
          rw [h1] at h2
          cases h2
          exact absurd rfl hne
    · rw [Function.update_of_ne hn, hs.slots]
      by_cases hne : d' = d
      · subst hne
        rw [Function.update_self]
        constructor
        · rintro ⟨_, hc⟩
          exact absurd hc.symm hn
        · rintro ⟨h0, hc⟩
          exact absurd hc.symm h0
      · rw [Function.update_of_ne hne]

/-! ## ROM cells -/

section Rom

variable {s : State ι} {live : ι → ℕ → Prop} {address : UInt}

omit [DecidableEq ι] in
/-- An address without a register may become, or cease to be, a cell of a ROM. -/
theorem Mapped.setRom (hm : Mapped s live) {h : Handle} (hh : h.named = false)
    (hcell : (s.registerHandles (entry address)).named = false) :
    Mapped { s with registerHandles := Function.update s.registerHandles (entry address) h }
      live where
  named := hm.named
  byHandle := hm.byHandle
  cell d i hl := by
    show Function.update s.registerHandles (entry address) h (entry (s.reg d i).addr) = _
    rw [Function.update_of_ne]
    · exact hm.cell d i hl
    · intro hc
      rw [← hc, hm.cell d i hl, hm.named d i hl] at hcell
      cases hcell
  owner c hc := by
    change (Function.update s.registerHandles (entry address) h c).named = true at hc
    by_cases hentry : c = entry address
    · rw [hentry, Function.update_self, hh] at hc
      cases hc
    · rw [Function.update_of_ne hentry] at hc
      exact hm.owner c hc

omit [DecidableEq ι] in
theorem PluggedIn.setRom (hs : PluggedIn s) {h : Handle} (hh : h.named = false)
    (hcell : (s.registerHandles (entry address)).named = false) :
    PluggedIn { s with
      registerHandles := Function.update s.registerHandles (entry address) h } where
  mapped := hs.mapped.setRom hh hcell
  slots := hs.slots

omit [DecidableEq ι] in
theorem PluggedIn.registerRom {bus : AddrSpace} {s' : State ι} {ok : Bool} (hs : PluggedIn s)
    (h : registerRom bus s address = some (ok, s')) :
    PluggedIn s' ∧ (ok = false → s' = s) := by
  unfold QUnibusAdapter.registerRom at h
  dsimp only at h
  split at h
  · cases h
  split at h
  · cases h
    exact ⟨hs, fun _ => rfl⟩
  · rename_i hcell
    cases h
    refine ⟨hs.setRom rfl ?_, ?_⟩
    · exact Bool.not_eq_true _ ▸ hcell
    · intro hc
      cases hc

omit [DecidableEq ι] in
theorem PluggedIn.unregisterRom {bus : AddrSpace} {s' : State ι} (hs : PluggedIn s)
    (h : unregisterRom bus s address = some s') : PluggedIn s' := by
  unfold QUnibusAdapter.unregisterRom at h
  dsimp only at h
  split at h
  · cases h
  split at h
  · cases h
    exact hs
  split at h
  · cases h
    exact hs
  · rename_i hrom
    cases h
    refine hs.setRom rfl ?_
    rw [not_not.mp hrom]
    rfl

end Rom

/-! ## Sequences of calls -/

inductive Call (ι : Type)
  | registerDevice (d : ι)
  | unregisterDevice (d : ι)
  | registerRom (address : UInt)
  | unregisterRom (address : UInt)

/-- One call, and whether it succeeded. -/
def call (bus : AddrSpace) (s : State ι) : Call ι → Option (Bool × State ι)
  | .registerDevice d => registerDevice s d
  | .unregisterDevice d => (unregisterDevice s d).map (true, ·)
  | .registerRom address => registerRom bus s address
  | .unregisterRom address => (unregisterRom bus s address).map (true, ·)

/-- What can happen to the tables: a call that the program survives, or other parameters for a
device, which are locked while it is plugged in. -/
inductive Step (bus : AddrSpace) : State ι → State ι → Prop
  | call {s s' : State ι} (c : Call ι) (ok : Bool) : call bus s c = some (ok, s') → Step bus s s'
  | configure {s : State ι} (d : ι) (dev : Device) : (s.device d).handle = 0 →
      Step bus s (s.modifyDevice d fun _ => { dev with handle := 0 })

/-- Nothing registered. -/
structure Empty (s : State ι) : Prop where
  device : ∀ d, (s.device d).handle = 0
  devices : ∀ n, s.devices n = none
  registerByHandle : ∀ h, s.registerByHandle h = none
  registerHandles : ∀ c, s.registerHandles c = 0

omit [DecidableEq ι] in
theorem Empty.pluggedIn {s : State ι} (h : Empty s) : PluggedIn s where
  mapped := {
    named := fun d _ hl => absurd (h.device d) hl.1
    byHandle := by
      intro k d i
      rw [h.registerByHandle]
      constructor
      · intro hc
        cases hc
      · rintro ⟨hl, -⟩
        exact absurd (h.device d) hl.1
    cell := fun d _ hl => absurd (h.device d) hl.1
    owner := by
      intro c hc
      rw [h.registerHandles] at hc
      cases hc }
  slots := by
    intro n d
    rw [h.devices, h.device]
    constructor
    · intro hc
      cases hc
    · rintro ⟨h0, h1⟩
      exact absurd h1.symm h0

theorem PluggedIn.configure {s : State ι} (hs : PluggedIn s) (d : ι) (dev : Device)
    (hd : (s.device d).handle = 0) :
    PluggedIn (s.modifyDevice d fun _ => { dev with handle := 0 }) := by
  have hother : ∀ d', d' ≠ d →
      (s.modifyDevice d fun _ => { dev with handle := 0 }).device d' = s.device d' :=
    fun d' hne => Function.update_of_ne hne ..
  have hself : ((s.modifyDevice d fun _ => { dev with handle := 0 }).device d).handle = 0 := by
    show (Function.update s.device d _ d).handle = 0
    rw [Function.update_self]
  constructor
  case mapped =>
    have hreg : ∀ d' i, (s.device d').handle ≠ 0 ∧ i < (s.device d').registerCount →
        (s.modifyDevice d fun _ => { dev with handle := 0 }).reg d' i = s.reg d' i := by
      intro d' i hl
      refine reg_eq d' i (hother d' ?_)
      rintro rfl
      exact hl.1 hd
    refine Mapped.congr_live (hs.mapped.congr hreg rfl rfl) ?_
    intro d' i
    by_cases hne : d' = d
    · subst hne
      simp only [hself, hd, ne_eq, not_true_eq_false, false_and]
    · rw [hother d' hne]
  case slots =>
    intro n d'
    rw [show (s.modifyDevice d fun _ => { dev with handle := 0 }).devices = s.devices from rfl,
      hs.slots]
    by_cases hne : d' = d
    · subst hne
      rw [hself, hd]
    · rw [hother d' hne]

theorem PluggedIn.step {bus : AddrSpace} {s s' : State ι} (hs : PluggedIn s)
    (h : Step bus s s') : PluggedIn s' := by
  cases h with
  | call c ok hc =>
    cases c with
    | registerDevice d => exact hs.registerDevice hc
    | unregisterDevice d =>
      obtain ⟨r, hr, heq⟩ := Option.map_eq_some_iff.mp hc
      cases heq
      exact hs.unregisterDevice hr
    | registerRom address => exact (hs.registerRom hc).1
    | unregisterRom address =>
      obtain ⟨r, hr, heq⟩ := Option.map_eq_some_iff.mp hc
      cases heq
      exact hs.unregisterRom hr
  | configure d dev hd => exact hs.configure d dev hd

/-- A refused registration leaves the tables as they were. -/
theorem call_refused {bus : AddrSpace} {s s' : State ι} {c : Call ι}
    (hs : PluggedIn s) (h : call bus s c = some (false, s')) :
    s'.registerHandles = s.registerHandles ∧ s'.registerByHandle = s.registerByHandle ∧
      s'.devices = s.devices := by
  cases c with
  | registerDevice d =>
    cases registerDevice_spec h with
    | noSlot => exact ⟨rfl, rfl, rfl⟩
    | refused _ hfree => exact ⟨rfl, rfl, (giveBack_plugging _ _ hfree).1⟩
  | unregisterDevice d =>
    obtain ⟨_, _, heq⟩ := Option.map_eq_some_iff.mp h
    cases heq
  | registerRom address =>
    have heq := (hs.registerRom h).2 rfl
    rw [heq]
    exact ⟨rfl, rfl, rfl⟩
  | unregisterRom address =>
    obtain ⟨_, _, heq⟩ := Option.map_eq_some_iff.mp h
    cases heq

/-- The states of the adapter from start-up on. -/
abbrev Reached (bus : AddrSpace) : State ι → Prop := Transition.Reachable Empty (Step bus)

theorem Reached.pluggedIn {bus : AddrSpace} {s : State ι} (h : Reached bus s) : PluggedIn s :=
  Transition.Reachable.invariant (I := PluggedIn) (fun _ hs => hs.pluggedIn)
    (fun _ _ hs hst => hs.step hst) h

/-- After every sequence of calls: a handle in use leads to a register of a plugged device,
whose address is the only one in the page that holds the handle; no address holds a handle that
is not in use; no two registers share an address; and the next registration, if refused, leaves
address map, handle table and device table as they are. -/
theorem io_page_bijection (bus : AddrSpace) (s : State ι) (h : Reached bus s) :
    (∀ k d i, s.registerByHandle k = some (d, i) →
      (s.device d).handle ≠ 0 ∧ i < (s.device d).registerCount ∧
        ∀ c, s.registerHandles c = k ↔ c = entry (s.reg d i).addr) ∧
    (∀ c, (s.registerHandles c).named = true →
      (s.registerByHandle (s.registerHandles c)).isSome) ∧
    (∀ d i d' i', (s.device d).handle ≠ 0 → i < (s.device d).registerCount →
      (s.device d').handle ≠ 0 → i' < (s.device d').registerCount →
      entry (s.reg d i).addr = entry (s.reg d' i').addr → d = d' ∧ i = i') ∧
    (∀ c s', call bus s c = some (false, s') →
      s'.registerHandles = s.registerHandles ∧ s'.registerByHandle = s.registerByHandle ∧
        s'.devices = s.devices) := by
  have hs := h.pluggedIn
  have hm := hs.mapped
  refine ⟨?_, ?_, ?_, fun c s' => call_refused hs⟩
  · intro k d i hk
    obtain ⟨hl, hhandle⟩ := (hm.byHandle k d i).mp hk
    refine ⟨hl.1, hl.2, fun c => ⟨?_, ?_⟩⟩
    · intro hc
      exact hm.entry_of_cell hl (hc.trans hhandle.symm)
    · rintro rfl
      rw [hm.cell d i hl, hhandle]
  · intro c hc
    obtain ⟨d, i, hl, rfl⟩ := hm.owner c hc
    rw [hm.cell d i hl, (hm.byHandle _ d i).mpr ⟨hl, rfl⟩]
    rfl
  · intro d i d' i' hd hi hd' hi' heq
    have hcell := hm.cell d i ⟨hd, hi⟩
    rw [heq, hm.cell d' i' ⟨hd', hi'⟩] at hcell
    have h1 := (hm.byHandle _ d i).mpr ⟨⟨hd, hi⟩, rfl⟩
    have h2 := (hm.byHandle _ d' i').mpr ⟨⟨hd', hi'⟩, hcell⟩
    rw [h1] at h2
    cases h2
    exact ⟨rfl, rfl⟩

/-- The demo device at 760100: a switch register and a display register, none of them active. -/
def demoIo : Device where
  handle := 0
  baseAddr := 0o760100
  registerCount := 2
  registers i := {
    addr := 0
    registerHandle := 0
    activeOnDati := false
    activeOnDato := false
    resetValue := 0
    writableBits := if i = 0 then 0 else 0xffff }
  isCpu := false

/-- A backplane with nothing plugged in, and the demo device on the desk. -/
def bareBackplane : State Unit where
  device _ := demoIo
  devices _ := none
  registerByHandle _ := none
  registeredCpu := none
  registerHandles _ := 0
  registers _ := default
  emulateCpu := false

theorem lastHandle_eq_zero {cells : Cell → Handle} (h : ∀ c, (cells c).named = false) :
    lastHandle cells = 0 := by
  have hunused : ∀ i, registerHandleUsed cells i = false := by
    intro i
    rw [Bool.eq_false_iff]
    intro hi
    obtain ⟨c, hc, -⟩ := registerHandleUsed_iff.mp hi
    rw [h c] at hc
    cases hc
  have hfold : ∀ l : List ℕ, l.foldl
      (fun last i => if registerHandleUsed cells i then i else last) 0 = 0 := by
    intro l
    induction l with
    | nil => rfl
    | cons i l ih => simpa [hunused i] using ih
  exact hfold _

/-- The demo device is given the handles 1 and 2. -/
theorem io_page_bijection_demo_io : ∃ s : State Unit,
    s.registerByHandle 2 = some ((), 1) ∧
      ∀ c, s.registerHandles c = 2 ↔ c = entry (s.reg () 1).addr := by
  have hlast : lastHandle bareBackplane.registerHandles = 0 :=
    lastHandle_eq_zero fun _ => rfl
  have hempty : Reached ⟨0o760000, 0o1000000⟩ bareBackplane :=
    .init ⟨fun _ => rfl, fun _ => rfl, fun _ => rfl, fun _ => rfl⟩
  have hcall := registerDevice_of_free (s := bareBackplane) () 1 rfl (by decide) (by decide) rfl
    (by rw [hlast]; decide) (by rw [hlast]; rfl)
  have hreached := hempty.step (Step.call (.registerDevice ()) true hcall)
  exact ⟨_, rfl, ((io_page_bijection _ _ hreached).1 2 () 1 rfl).2.2⟩

end QUniBone.QUnibusAdapter
