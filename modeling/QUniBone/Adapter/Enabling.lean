import QUniBone.M9312.Board
import QUniBone.Lib.Transition

/-!
# Enabling devices

`qunibusdevice_c::on_param_changed` for `enabled`, with `on_before_install` and
`on_after_uninstall` of the device classes: how a device is plugged into the backplane, and what
is left if it can not be.

* `Kind`, `Param`, `Machine`: the device classes, and what their hooks work on.
* `onBeforeInstall`, `onAfterUninstall`, `enable`, `disable`: the code.
* `AsBefore`: what a refused enable shall leave. `Careful`: no hook leaves something behind.
* `Tidy`: the invariant of careful runs. `Ready`: nothing conflicts with the device.
* `refused_asBefore_iff`: refused enables in careful runs.
-/

namespace QUniBone.Enabling

open QUnibusAdapter M9312

/-! ## Model -/

/-- How a device class overrides `on_before_install` -/
inductive Kind
  /-- It only returns true. -/
  | plain
  /-- `RL11_c` -/
  | rl11
  | m9312
  /-- `cpu_base_c` -/
  | cpu
  /-- `slu_c` -/
  | slu
  | blinkenbone
  deriving DecidableEq

inductive Param
  | baseAddr
  | prioritySlot
  | intrVector
  | intrLevel
  | romFilepath (k : Socket)
  | bootaddressLabel
  | pc
  | serialport
  | baudrate
  | mode
  | panelHost
  | panelAddr
  deriving DecidableEq

/-- Locked while a device is enabled -/
def busParams : List Param := [.baseAddr, .prioritySlot, .intrVector, .intrLevel]

/-- Locked by `on_before_install`, and unlocked by `on_after_uninstall` -/
def Kind.locked : Kind → List Param
  | m9312 => [.romFilepath .consemu, .romFilepath .bootrom1, .romFilepath .bootrom2,
      .romFilepath .bootrom3, .romFilepath .bootrom4, .bootaddressLabel]
  | slu => [.serialport, .baudrate, .mode]
  | blinkenbone => [.panelHost, .panelAddr]
  | _ => []

/-- Whether the hook connects the device to something -/
def Kind.connects : Kind → Bool
  | rl11 => true
  | slu => true
  | blinkenbone => true
  | _ => false

/-- The parameters of a CPU that the hooks set, and what they use of its core -/
structure Cpu where
  haltSwitch : Bool
  startSwitch : Bool
  continueSwitch : Bool
  runmode : Bool
  pc : Word
  coreHalted : Bool
  corePc : Word

structure Machine (ι : Type) where
  page : M9312.Page ι
  enabled : ι → Bool
  readonly : ι → Param → Bool
  /-- The ROMs of an M9312 -/
  sockets : ι → Sockets
  cpu : ι → Cpu
  /-- `unibone_cpu` -/
  uniboneCpu : Option ι
  arbitratorActive : Bool
  /-- The serial port is open, or the drives or the device are connected to their panel. -/
  connected : ι → Bool

variable {ι : Type} [DecidableEq ι]

namespace Machine

def setReadonly (m : Machine ι) (d : ι) (ps : List Param) (value : Bool) : Machine ι :=
  { m with readonly := Function.update m.readonly d fun p =>
      if p ∈ ps then value else m.readonly d p }

def setConnected (m : Machine ι) (d : ι) (value : Bool) : Machine ι :=
  { m with connected := Function.update m.connected d value }

def withTables (m : Machine ι) (t : State ι) : Machine ι :=
  { m with page := { m.page with tables := t } }

/-- Another state of one device -/
def withDevice (m : Machine ι) (d : ι) (dev : Device) : Machine ι :=
  m.withTables { m.page.tables with device := Function.update m.page.tables.device d dev }

/-- Another ROM in a socket of an M9312 -/
def withRom (m : Machine ι) (d : ι) (k : Socket) (r : Rom) : Machine ι :=
  { m with sockets := Function.update m.sockets d (Function.update (m.sockets d) k r) }

def withCpu (m : Machine ι) (d : ι) (cpu : Cpu) : Machine ι :=
  { m with cpu := Function.update m.cpu d cpu }

/-- `ARM2PRU_CPU_ENABLE`, and whether the PRU arbitrates -/
def emulateCpu (m : Machine ι) (value : Bool) : Machine ι :=
  { m.withTables { m.page.tables with emulateCpu := value } with arbitratorActive := value }

/-- `cpu_base_c::start` -/
def start (m : Machine ι) (d : ι) : Machine ι :=
  ((m.withCpu d { m.cpu d with runmode := true, coreHalted := false }).emulateCpu true).setReadonly
    d [.pc] true

/-- `cpu_base_c::stop` -/
def stop (m : Machine ι) (d : ι) : Machine ι :=
  ((m.withCpu d { m.cpu d with
    runmode := false
    pc := (m.cpu d).corePc
    coreHalted := true }).emulateCpu false).setReadonly d [.pc] false

end Machine

/-- `on_before_install`, where `opens` tells whether the serial port or the server of the panel
answers. `none` where an assertion or `FATAL` ends the program. -/
def onBeforeInstall (len : UInt) (opens : Bool) (m : Machine ι) (d : ι) :
    Kind → Option (Bool × Machine ι)
  | .plain => some (true, m)
  | .rl11 => some (true, m.setConnected d true)
  | .m9312 => ((m.sockets d).install len m.page).map fun p =>
      (true, { m with page := p }.setReadonly d Kind.m9312.locked true)
  | .cpu =>
    if m.uniboneCpu ≠ none ∧ m.uniboneCpu ≠ some d then some (false, m)
    else
      let m := { m with uniboneCpu := some d }.withCpu d { m.cpu d with
        haltSwitch := false
        startSwitch := false
        continueSwitch := false }
      some (true, m.stop d)
  | .slu =>
    if !opens then some (false, m)
    else some (true, (m.setConnected d true).setReadonly d Kind.slu.locked true)
  | .blinkenbone =>
    if m.connected d then none
    else some (true, (m.setConnected d opens).setReadonly d Kind.blinkenbone.locked true)

/-- `on_after_uninstall` -/
def onAfterUninstall (m : Machine ι) (d : ι) : Kind → Option (Machine ι)
  | .plain => some m
  | .rl11 => some (m.setConnected d false)
  | .m9312 => ((m.sockets d).uninstall m.page.tables).map fun t =>
      (m.withTables t).setReadonly d Kind.m9312.locked false
  | .cpu =>
    let m := m.withCpu d { m.cpu d with startSwitch := false, haltSwitch := true }
    some { m.stop d with uniboneCpu := none }
  | .slu => some ((m.setConnected d false).setReadonly d Kind.slu.locked false)
  | .blinkenbone =>
    if !m.connected d then none
    else some ((m.setConnected d false).setReadonly d Kind.blinkenbone.locked false)

section Run

variable (kind : ι → Kind) (len : UInt)

/-- `enabled.set(true)`, and whether the device is enabled then -/
def enable (opens : Bool) (m : Machine ι) (d : ι) : Option (Bool × Machine ι) :=
  if m.enabled d then some (true, m)
  else
    (onBeforeInstall len opens m d (kind d)).bind fun r =>
      if !r.1 then some (false, r.2)
      else
        let m := r.2.setReadonly d busParams true
        (registerDevice m.page.tables d).map fun t =>
          let m := m.withTables t.2
          if !t.1 then (false, m.setReadonly d busParams false)
          else (true, { m with enabled := Function.update m.enabled d true })

/-- `enabled.set(false)` -/
def disable (m : Machine ι) (d : ι) : Option (Machine ι) :=
  if !m.enabled d then some m
  else
    (unregisterDevice m.page.tables d).bind fun t =>
      (onAfterUninstall (m.withTables t) d (kind d)).map fun m =>
        { m.setReadonly d busParams false with enabled := Function.update m.enabled d false }

/-! ## What shall hold -/

/-- `on_before_install` does not refuse the device. -/
def Kind.Accepts (opens : Bool) (m : Machine ι) (d : ι) : Kind → Prop
  | cpu => m.uniboneCpu = none ∨ m.uniboneCpu = some d
  | slu => opens = true
  | _ => True

/-- No device is refused by `register_device` after its hook has done something. -/
def Careful (opens : Bool) (m : Machine ι) (d : ι) : Prop :=
  (kind d).Accepts opens m d → kind d ≠ .plain → ¬Refuses m.page.tables d

/-- What the constructor of a device class sets up -/
structure Fitting (dev : Device) (k : Kind) : Prop where
  registerCount : dev.registerCount ≤ maxIopageRegisterCount
  configured : Configured dev
  isCpu : dev.isCpu = true ↔ k = .cpu

/-- What can happen, where enables meet a condition -/
inductive Step (P : Bool → Machine ι → ι → Prop) : Machine ι → Machine ι → Prop
  | enable {m m' : Machine ι} (d : ι) (opens ok : Bool) :
      enable kind len opens m d = some (ok, m') → (ok = false → P opens m d) → Step P m m'
  | disable {m m' : Machine ι} (d : ι) : disable kind m d = some m' → Step P m m'
  /-- `base_addr` and the registers that depend on parameters -/
  | configure {m : Machine ι} (d : ι) (dev : Device) : m.readonly d .baseAddr = false →
      dev.handle = (m.page.tables.device d).handle → Fitting dev (kind d) →
      Step P m (m.withDevice d dev)
  | plugRom {m : Machine ι} (d : ι) (k : Socket) (r : Rom) :
      m.readonly d (.romFilepath k) = false →
      Step P m (m.withRom d k r)
  /-- The switches and the core of a CPU -/
  | operate {m : Machine ι} (d : ι) (cpu : Cpu) :
      Step P m (m.withCpu d cpu)
  /-- In the worker -/
  | start {m : Machine ι} (d : ι) : m.enabled d = true → kind d = .cpu → Step P m (m.start d)
  | stop {m : Machine ι} (d : ι) : m.enabled d = true → kind d = .cpu → Step P m (m.stop d)

/-- Everything is off. -/
structure Init (m : Machine ι) : Prop where
  tables : Empty m.page.tables
  registeredCpu : m.page.tables.registeredCpu = none
  fitting : ∀ d, Fitting (m.page.tables.device d) (kind d)
  enabled : ∀ d, m.enabled d = false
  readonly : ∀ d p, m.readonly d p = false
  uniboneCpu : m.uniboneCpu = none
  connected : ∀ d, m.connected d = false

/-- The states of all runs -/
abbrev Reached : Machine ι → Prop :=
  Transition.Reachable (Init kind) (Step kind len fun _ _ _ => True)

/-- The states of the runs where every enable that is refused is careful -/
abbrev CarefullyReached : Machine ι → Prop :=
  Transition.Reachable (Init kind) (Step kind len (Careful kind))

end Run

/-! ## One hook -/

theorem Machine.setReadonly_self (m : Machine ι) (d : ι) (ps : List Param) (value : Bool)
    (p : Param) : (m.setReadonly d ps value).readonly d p =
      if p ∈ ps then value else m.readonly d p :=
  congrFun (Function.update_self d _ m.readonly) p

theorem Machine.setReadonly_of_ne (m : Machine ι) {d d' : ι} (h : d' ≠ d) (ps : List Param)
    (value : Bool) : (m.setReadonly d ps value).readonly d' = m.readonly d' :=
  Function.update_of_ne h _ m.readonly

/-- What `on_before_install` does if it does not refuse the device -/
structure Hooked (k : Kind) (d : ι) (m m' : Machine ι) : Prop where
  tables : SameRegisters m.page.tables m'.page.tables
  roms : ∀ c, m'.page.tables.registerHandles c = handleRom →
    m.page.tables.registerHandles c = handleRom ∨ k = .m9312 ∧ (m.sockets d).Covers c
  enabled : m'.enabled = m.enabled
  sockets : m'.sockets = m.sockets
  own : ∀ p, p ≠ .pc → m'.readonly d p = if p ∈ k.locked then true else m.readonly d p
  pc : k ≠ .cpu → m'.readonly d .pc = m.readonly d .pc
  readonly : ∀ d', d' ≠ d → m'.readonly d' = m.readonly d'
  uniboneCpu : m'.uniboneCpu = if k = .cpu then some d else m.uniboneCpu
  noOther : k = .cpu → ∀ d', m.uniboneCpu = some d' → d' = d
  connected : ∀ d', d' ≠ d → m'.connected d' = m.connected d'
  connects : m'.connected d = true → k.connects = true ∨ m.connected d = true

/-- What `on_after_uninstall` does -/
structure Unhooked (k : Kind) (d : ι) (m m' : Machine ι) : Prop where
  tables : SameRegisters m.page.tables m'.page.tables
  roms : ∀ c, m'.page.tables.registerHandles c = handleRom →
    m.page.tables.registerHandles c = handleRom ∧ ¬(k = .m9312 ∧ (m.sockets d).Covers c)
  enabled : m'.enabled = m.enabled
  sockets : m'.sockets = m.sockets
  own : ∀ p, p ≠ .pc → m'.readonly d p = if p ∈ k.locked then false else m.readonly d p
  pc : m'.readonly d .pc = if k = .cpu then false else m.readonly d .pc
  readonly : ∀ d', d' ≠ d → m'.readonly d' = m.readonly d'
  uniboneCpu : m'.uniboneCpu = if k = .cpu then none else m.uniboneCpu
  connected : ∀ d', d' ≠ d → m'.connected d' = m.connected d'
  connects : m'.connected d = if k.connects = true then false else m.connected d

variable {len : UInt} {opens : Bool} {m m' : Machine ι} {d : ι} {k : Kind}

omit [DecidableEq ι] in
theorem sameRegisters_emulateCpu (s : State ι) (value : Bool) :
    SameRegisters s { s with emulateCpu := value } := ⟨rfl, fun _ => .inl rfl⟩

theorem hooked (h : onBeforeInstall len opens m d k = some (true, m')) : Hooked k d m m' := by
  cases k with
  | plain =>
    cases h
    exact ⟨.refl _, fun _ hc => .inl hc, rfl, rfl, fun _ _ => rfl, fun _ => rfl,
      fun _ _ => rfl, rfl, nofun, fun _ _ => rfl, .inr⟩
  | rl11 =>
    cases h
    exact ⟨.refl _, fun _ hc => .inl hc, rfl, rfl, fun _ _ => rfl, fun _ => rfl,
      fun _ _ => rfl, rfl, nofun, fun _ hd => Function.update_of_ne hd _ _, fun _ => .inl rfl⟩
  | m9312 =>
    obtain ⟨p, hp, heq⟩ := Option.map_eq_some_iff.mp h
    cases heq
    obtain ⟨hsame, hroms⟩ := Sockets.install_tables hp
    exact ⟨hsame, fun c hc => (hroms c hc).imp_right fun hcovers => ⟨rfl, hcovers⟩, rfl, rfl,
      fun p _ => Machine.setReadonly_self _ d _ _ p, fun _ => Machine.setReadonly_self _ d _ _ .pc,
      fun _ hd => Machine.setReadonly_of_ne _ hd _ _, rfl, nofun, fun _ _ => rfl, .inr⟩
  | cpu =>
    rw [onBeforeInstall] at h
    split at h
    · cases h
    · next hfree =>
      cases h
      refine ⟨sameRegisters_emulateCpu _ _, fun _ hc => .inl hc, rfl, rfl, fun p hp => ?_,
        fun hk => absurd rfl hk,
        fun _ hd => Machine.setReadonly_of_ne _ hd _ _, rfl, fun _ d' hd' => ?_,
        fun _ _ => rfl, .inr⟩
      · rw [Machine.stop, Machine.setReadonly_self, if_neg (List.not_mem_cons_of_ne_of_not_mem hp
          List.not_mem_nil)]
        rfl
      · rw [hd'] at hfree
        by_contra hne
        exact hfree ⟨Option.some_ne_none d', fun heq => hne (Option.some.inj heq)⟩
  | slu =>
    rw [onBeforeInstall] at h
    split at h
    · cases h
    · cases h
      exact ⟨.refl _, fun _ hc => .inl hc, rfl, rfl,
        fun p _ => Machine.setReadonly_self _ d _ _ p,
        fun _ => Machine.setReadonly_self _ d _ _ .pc,
        fun _ hd => Machine.setReadonly_of_ne _ hd _ _, rfl, nofun,
        fun _ hd => Function.update_of_ne hd _ _, fun _ => .inl rfl⟩
  | blinkenbone =>
    rw [onBeforeInstall] at h
    split at h
    · cases h
    · cases h
      exact ⟨.refl _, fun _ hc => .inl hc, rfl, rfl,
        fun p _ => Machine.setReadonly_self _ d _ _ p,
        fun _ => Machine.setReadonly_self _ d _ _ .pc,
        fun _ hd => Machine.setReadonly_of_ne _ hd _ _, rfl, nofun,
        fun _ hd => Function.update_of_ne hd _ _, fun _ => .inl rfl⟩

/-- A hook that refuses the device does nothing. -/
theorem hook_refused (h : onBeforeInstall len opens m d k = some (false, m')) :
    m' = m ∧ ¬k.Accepts opens m d := by
  cases k with
  | plain => cases h
  | rl11 => cases h
  | m9312 =>
    obtain ⟨p, -, heq⟩ := Option.map_eq_some_iff.mp h
    cases heq
  | cpu =>
    rw [onBeforeInstall] at h
    split at h
    · next hother =>
      cases h
      exact ⟨rfl, fun haccepts => haccepts.elim hother.1 hother.2⟩
    · cases h
  | slu =>
    rw [onBeforeInstall] at h
    split at h
    · next hopens =>
      cases h
      refine ⟨rfl, fun haccepts => ?_⟩
      have haccepts : opens = true := haccepts
      rw [haccepts] at hopens
      cases hopens
    · cases h
  | blinkenbone =>
    rw [onBeforeInstall] at h
    split at h <;> cases h

theorem accepts_of_hooked (h : onBeforeInstall len opens m d k = some (true, m')) :
    k.Accepts opens m d := by
  cases k with
  | cpu =>
    rw [onBeforeInstall] at h
    split at h
    · cases h
    · next hfree =>
      by_cases hnone : m.uniboneCpu = none
      · exact .inl hnone
      · exact .inr (not_not.mp fun hne => hfree ⟨hnone, hne⟩)
  | slu =>
    rw [onBeforeInstall] at h
    split at h
    · cases h
    · next hopens => exact (Bool.not_eq_false _).mp fun heq => hopens (by rw [heq]; rfl)
  | _ => trivial

theorem unhooked (h : onAfterUninstall m d k = some m') : Unhooked k d m m' := by
  have hsame := SameRegisters.refl m.page.tables
  have hnot : k ≠ .m9312 → ∀ c, m.page.tables.registerHandles c = handleRom →
      m.page.tables.registerHandles c = handleRom ∧ ¬(k = .m9312 ∧ (m.sockets d).Covers c) :=
    fun hk _ hc => ⟨hc, fun hcovers => hk hcovers.1⟩
  cases k with
  | plain =>
    cases h
    exact ⟨hsame, hnot nofun, rfl, rfl, fun _ _ => rfl, rfl, fun _ _ => rfl, rfl,
      fun _ _ => rfl, rfl⟩
  | rl11 =>
    cases h
    exact ⟨hsame, hnot nofun, rfl, rfl, fun _ _ => rfl, rfl, fun _ _ => rfl, rfl,
      fun _ hd => Function.update_of_ne hd _ _, Function.update_self ..⟩
  | m9312 =>
    obtain ⟨t, ht, heq⟩ := Option.map_eq_some_iff.mp h
    cases heq
    obtain ⟨hsame, hroms⟩ := Sockets.uninstall_tables ht
    exact ⟨hsame, fun c hc => ⟨(hroms c hc).1, fun hcovers => (hroms c hc).2 hcovers.2⟩, rfl, rfl,
      fun p _ => Machine.setReadonly_self _ d _ _ p, Machine.setReadonly_self _ d _ _ .pc,
      fun _ hd => Machine.setReadonly_of_ne _ hd _ _, rfl, fun _ _ => rfl, rfl⟩
  | cpu =>
    cases h
    refine ⟨sameRegisters_emulateCpu _ _, hnot nofun, rfl, rfl, fun p hp => ?_, ?_,
      fun _ hd => Machine.setReadonly_of_ne _ hd _ _, rfl, fun _ _ => rfl, rfl⟩
    · show ((m.withCpu d _).stop d).readonly d p = _
      rw [Machine.stop, Machine.setReadonly_self, if_neg (List.not_mem_cons_of_ne_of_not_mem hp
        List.not_mem_nil)]
      rfl
    · show ((m.withCpu d _).stop d).readonly d .pc = false
      rw [Machine.stop, Machine.setReadonly_self, if_pos (List.mem_singleton.mpr rfl)]
  | slu =>
    cases h
    exact ⟨hsame, hnot nofun, rfl, rfl, fun p _ => Machine.setReadonly_self _ d _ _ p,
      Machine.setReadonly_self _ d _ _ .pc,
      fun _ hd => Machine.setReadonly_of_ne _ hd _ _, rfl,
      fun _ hd => Function.update_of_ne hd _ _, Function.update_self ..⟩
  | blinkenbone =>
    rw [onAfterUninstall] at h
    split at h
    · cases h
    · cases h
      exact ⟨hsame, hnot nofun, rfl, rfl, fun p _ => Machine.setReadonly_self _ d _ _ p,
      Machine.setReadonly_self _ d _ _ .pc,
        fun _ hd => Machine.setReadonly_of_ne _ hd _ _, rfl,
        fun _ hd => Function.update_of_ne hd _ _, Function.update_self ..⟩

/-! ## The invariant -/

section Tidy

variable (kind : ι → Kind)

/-- Between two steps of a careful run only the hooks of enabled devices have left something. -/
structure Tidy (m : Machine ι) : Prop where
  pluggedIn : PluggedIn m.page.tables
  fitting : ∀ d, Fitting (m.page.tables.device d) (kind d)
  handle : ∀ d, m.enabled d = true ↔ (m.page.tables.device d).handle ≠ 0
  readonly : ∀ d p, p ≠ .pc →
    (m.readonly d p = true ↔ m.enabled d = true ∧ (p ∈ busParams ∨ p ∈ (kind d).locked))
  pc : ∀ d, m.readonly d .pc = true → m.enabled d = true ∧ kind d = .cpu
  uniboneCpu : ∀ d, m.uniboneCpu = some d ↔ m.enabled d = true ∧ kind d = .cpu
  registeredCpu : ∀ d, m.page.tables.registeredCpu = some d → m.enabled d = true ∧ kind d = .cpu
  roms : ∀ c, m.page.tables.registerHandles c = handleRom →
    ∃ d, m.enabled d = true ∧ kind d = .m9312 ∧ (m.sockets d).Covers c
  connected : ∀ d, m.connected d = true → m.enabled d = true ∧ (kind d).connects = true

/-- How an enable can go: refused by the hook or by `register_device`, or plugged in -/
inductive Enabled (len : UInt) (opens : Bool) (m : Machine ι) (d : ι) : Bool → Machine ι → Prop
  | denied : ¬(kind d).Accepts opens m d → Enabled len opens m d false m
  | refused {m₁ : Machine ι} {t : State ι} :
      onBeforeInstall len opens m d (kind d) = some (true, m₁) →
      registerDevice m₁.page.tables d = some (false, t) →
      Enabled len opens m d false
        (((m₁.setReadonly d busParams true).withTables t).setReadonly d busParams false)
  | plugged {m₁ : Machine ι} {t : State ι} :
      onBeforeInstall len opens m d (kind d) = some (true, m₁) →
      registerDevice m₁.page.tables d = some (true, t) →
      Enabled len opens m d true { (m₁.setReadonly d busParams true).withTables t with
        enabled := Function.update m₁.enabled d true }

variable {kind} {ok : Bool}

theorem enable_spec (hd : m.enabled d = false)
    (h : enable kind len opens m d = some (ok, m')) : Enabled kind len opens m d ok m' := by
  unfold enable at h
  rw [hd, if_neg Bool.false_ne_true] at h
  obtain ⟨⟨accepted, m₁⟩, hhook, h⟩ := Option.bind_eq_some_iff.mp h
  cases accepted
  · cases h
    obtain ⟨rfl, hdenied⟩ := hook_refused hhook
    exact .denied hdenied
  · obtain ⟨⟨free, t⟩, ht, heq⟩ := Option.map_eq_some_iff.mp h
    cases free
    · cases heq
      exact .refused hhook ht
    · cases heq
      exact .plugged hhook ht

omit [DecidableEq ι] in
theorem Tidy.init (h : Init kind m) : Tidy kind m where
  pluggedIn := h.tables.pluggedIn
  fitting := h.fitting
  handle d := by simp [h.enabled, h.tables.device]
  readonly d p _ := by simp [h.readonly, h.enabled]
  pc d hd := by
    rw [h.readonly] at hd
    cases hd
  uniboneCpu d := by simp [h.uniboneCpu, h.enabled]
  registeredCpu d hd := by
    rw [h.registeredCpu] at hd
    cases hd
  roms c hc := by
    rw [h.tables.registerHandles] at hc
    cases hc
  connected d hd := by
    rw [h.connected] at hd
    cases hd

theorem Tidy.plugged (ht : Tidy kind m) (hd : m.enabled d = false) {m₁ : Machine ι} {t : State ι}
    (hhook : onBeforeInstall len opens m d (kind d) = some (true, m₁))
    (hreg : registerDevice m₁.page.tables d = some (true, t)) :
    Tidy kind { (m₁.setReadonly d busParams true).withTables t with
      enabled := Function.update m₁.enabled d true } := by
  have hh := hooked hhook
  have hr := deviceRegistered hreg
  have hdevice : m₁.page.tables.device = m.page.tables.device := by rw [hh.tables.tables]
  have hself : Function.update m₁.enabled d true d = true := Function.update_self ..
  have hother : ∀ d', d' ≠ d → Function.update m₁.enabled d true d' = m.enabled d' :=
    fun d' hne => by rw [Function.update_of_ne hne, hh.enabled]
  have hkept : ∀ d', m.enabled d' = true → Function.update m₁.enabled d true d' = true := by
    intro d' he
    rw [hother d', he]
    rintro rfl
    rw [hd] at he
    cases he
  constructor
  case pluggedIn => exact (hh.tables.pluggedIn ht.pluggedIn).registerDevice hreg
  case fitting =>
    intro d'
    have hold := ht.fitting d'
    by_cases hne : d' = d
    · subst hne
      rw [← hdevice] at hold
      refine ⟨?_, hr.configured hold.configured, ?_⟩
      · exact hr.registerCount ▸ hold.registerCount
      · exact hr.isCpu ▸ hold.isCpu
    · show Fitting (t.device d') (kind d')
      rw [hr.others d' hne, hdevice]
      exact hold
  case handle =>
    intro d'
    show Function.update m₁.enabled d true d' = true ↔ (t.device d').handle ≠ 0
    by_cases hne : d' = d
    · rw [hne, hself]
      exact iff_of_true rfl hr.handle
    · rw [hother d' hne, hr.others d' hne, hdevice]
      exact ht.handle d'
  case readonly =>
    intro d' p hp
    show (m₁.setReadonly d busParams true).readonly d' p = true ↔
      Function.update m₁.enabled d true d' = true ∧ _
    have hold := ht.readonly d' p hp
    by_cases hne : d' = d
    · subst hne
      rw [Machine.setReadonly_self, hh.own p hp, hself]
      rw [hd] at hold
      by_cases hbus : p ∈ busParams
      · simp [hbus]
      · by_cases hlocked : p ∈ (kind d').locked
        · simp [hlocked]
        · simpa [hbus, hlocked] using hold
    · rw [Machine.setReadonly_of_ne _ hne, hh.readonly d' hne, hother d' hne]
      exact hold
  case pc =>
    intro d' hpc
    replace hpc : (m₁.setReadonly d busParams true).readonly d' .pc = true := hpc
    show Function.update m₁.enabled d true d' = true ∧ kind d' = .cpu
    by_cases hne : d' = d
    · subst hne
      refine ⟨hself, ?_⟩
      by_contra hkind
      rw [Machine.setReadonly_self, if_neg (by decide), hh.pc hkind] at hpc
      exact hkind (ht.pc d' hpc).2
    · rw [Machine.setReadonly_of_ne _ hne, hh.readonly d' hne] at hpc
      rw [hother d' hne]
      exact ht.pc d' hpc
  case uniboneCpu =>
    intro d'
    show m₁.uniboneCpu = some d' ↔ Function.update m₁.enabled d true d' = true ∧ kind d' = .cpu
    rw [hh.uniboneCpu]
    by_cases hne : d' = d
    · subst hne
      rw [hself]
      split
      · next hcpu => simp [hcpu]
      · next hcpu =>
        rw [ht.uniboneCpu d', hd]
        simp [hcpu]
    · rw [hother d' hne, ← ht.uniboneCpu d']
      split
      · next hcpu =>
        refine iff_of_false (fun heq => hne (Option.some.inj heq).symm) fun heq => hne ?_
        exact hh.noOther hcpu d' heq
      · rfl
  case registeredCpu =>
    intro d' heq
    replace heq : t.registeredCpu = some d' := heq
    show Function.update m₁.enabled d true d' = true ∧ kind d' = .cpu
    rw [hr.registeredCpu, hdevice] at heq
    split at heq
    · next hcpu =>
      rw [← Option.some.inj heq, hself]
      exact ⟨rfl, (ht.fitting d).isCpu.mp hcpu⟩
    · rw [hh.tables.tables] at heq
      obtain ⟨he, hcpu⟩ := ht.registeredCpu d' heq
      exact ⟨hkept d' he, hcpu⟩
  case roms =>
    intro c hc
    show ∃ d', Function.update m₁.enabled d true d' = true ∧ kind d' = .m9312 ∧
      (m₁.sockets d').Covers c
    rw [hh.sockets]
    rcases hh.roms c (hr.roms c hc) with hold | ⟨hkind, hcovers⟩
    · obtain ⟨d', he, hkind, hcovers⟩ := ht.roms c hold
      exact ⟨d', hkept d' he, hkind, hcovers⟩
    · exact ⟨d, hself, hkind, hcovers⟩
  case connected =>
    intro d' hc
    replace hc : m₁.connected d' = true := hc
    show Function.update m₁.enabled d true d' = true ∧ (kind d').connects = true
    by_cases hne : d' = d
    · subst hne
      rw [hself]
      rcases hh.connects hc with hconnects | hold
      · exact ⟨rfl, hconnects⟩
      · exact ⟨rfl, (ht.connected d' hold).2⟩
    · rw [hh.connected d' hne] at hc
      rw [hother d' hne]
      exact ht.connected d' hc

/-- Another state of a device with the same handle -/
theorem Tidy.withDevice (ht : Tidy kind m) {dev : Device}
    (hp : PluggedIn (m.withDevice d dev).page.tables) (hf : Fitting dev (kind d))
    (hhandle : dev.handle = (m.page.tables.device d).handle) : Tidy kind (m.withDevice d dev) where
  pluggedIn := hp
  fitting d' := by
    show Fitting (Function.update m.page.tables.device d dev d') (kind d')
    by_cases hne : d' = d
    · rw [hne, Function.update_self]
      exact hf
    · rw [Function.update_of_ne hne]
      exact ht.fitting d'
  handle d' := by
    show m.enabled d' = true ↔ (Function.update m.page.tables.device d dev d').handle ≠ 0
    by_cases hne : d' = d
    · rw [hne, Function.update_self, hhandle]
      exact ht.handle d
    · rw [Function.update_of_ne hne]
      exact ht.handle d'
  readonly := ht.readonly
  pc := ht.pc
  uniboneCpu := ht.uniboneCpu
  registeredCpu := ht.registeredCpu
  roms := ht.roms
  connected := ht.connected

omit [DecidableEq ι] in
theorem Tidy.busParams_free (ht : Tidy kind m) (hd : m.enabled d = false) {p : Param}
    (hp : p ∈ busParams) : m.readonly d p = false := by
  have hpc : p ≠ .pc := fun heq => by
    rw [heq] at hp
    exact absurd hp (by decide)
  rw [← Bool.not_eq_true, ht.readonly d p hpc, hd]
  exact fun hlocked => Bool.false_ne_true hlocked.1

/-- Locked and unlocked again -/
theorem Tidy.relock (ht : Tidy kind m) (hd : m.enabled d = false) (dev : Device) :
    ((m.setReadonly d busParams true).withTables
      { m.page.tables with device := Function.update m.page.tables.device d dev }).setReadonly d
        busParams false = m.withDevice d dev := by
  have hreadonly : (((m.setReadonly d busParams true).withTables { m.page.tables with
      device := Function.update m.page.tables.device d dev }).setReadonly d busParams
        false).readonly = m.readonly := by
    funext d' p
    by_cases hne : d' = d
    · subst hne
      rw [Machine.setReadonly_self]
      show (if p ∈ busParams then false else (m.setReadonly d' busParams true).readonly d' p) = _
      rw [Machine.setReadonly_self]
      split
      · next hbus => rw [ht.busParams_free hd hbus]
      · rfl
    · rw [Machine.setReadonly_of_ne _ hne]
      show (m.setReadonly d busParams true).readonly d' p = _
      rw [Machine.setReadonly_of_ne _ hne]
  exact congrArg (fun r => { m.withDevice d dev with readonly := r }) hreadonly

/-- A device whose hook does nothing leaves everything as before. -/
theorem Tidy.refused_plain (ht : Tidy kind m) (hd : m.enabled d = false) {t : State ι}
    (hreg : registerDevice m.page.tables d = some (false, t)) :
    ∃ dev : Device, dev.shape = (m.page.tables.device d).shape ∧
      (Configured (m.page.tables.device d) → Configured dev) ∧
      ((m.setReadonly d busParams true).withTables t).setReadonly d busParams false =
        m.withDevice d dev := by
  obtain ⟨-, dev, hshape, hconfigured, rfl⟩ := registerDevice_refused hreg
  exact ⟨dev, hshape, hconfigured, ht.relock hd dev⟩

theorem Tidy.disable (ht : Tidy kind m) (h : disable kind m d = some m') : Tidy kind m' := by
  unfold Enabling.disable at h
  split at h
  · cases h
    exact ht
  next hd =>
  have hd : m.enabled d = true := by simpa using hd
  obtain ⟨t, hreg, h⟩ := Option.bind_eq_some_iff.mp h
  obtain ⟨m₁, hhook, heq⟩ := Option.map_eq_some_iff.mp h
  cases heq
  have hu := unhooked hhook
  obtain ⟨t', ht', hr⟩ := deviceUnregistered ((ht.handle d).mp hd)
  obtain rfl : t' = t := Option.some.inj (ht'.symm.trans hreg)
  have henabled : m₁.enabled = m.enabled := hu.enabled
  have hdevice : m₁.page.tables.device = Function.update m.page.tables.device d
      { m.page.tables.device d with handle := 0 } := by
    rw [hu.tables.tables]
    exact hr.device
  have hself : Function.update m₁.enabled d false d = false := Function.update_self ..
  have hother : ∀ d', d' ≠ d → Function.update m₁.enabled d false d' = m.enabled d' :=
    fun d' hne => by rw [Function.update_of_ne hne, henabled]
  -- what another device holds stays
  have hkept : ∀ d', m.enabled d' = true → d' ≠ d →
      Function.update m₁.enabled d false d' = true :=
    fun d' he hne => (hother d' hne).trans he
  constructor
  case pluggedIn => exact hu.tables.pluggedIn (ht.pluggedIn.unregisterDevice hreg)
  case fitting =>
    intro d'
    show Fitting (m₁.page.tables.device d') (kind d')
    have hold := ht.fitting d'
    rw [hdevice]
    by_cases hne : d' = d
    · subst hne
      rw [Function.update_self]
      exact ⟨hold.registerCount, hold.configured, hold.isCpu⟩
    · rw [Function.update_of_ne hne]
      exact hold
  case handle =>
    intro d'
    show Function.update m₁.enabled d false d' = true ↔ (m₁.page.tables.device d').handle ≠ 0
    rw [hdevice]
    by_cases hne : d' = d
    · rw [hne, hself, Function.update_self]
      simp
    · rw [hother d' hne, Function.update_of_ne hne]
      exact ht.handle d'
  case readonly =>
    intro d' p hp
    show (m₁.setReadonly d busParams false).readonly d' p = true ↔
      Function.update m₁.enabled d false d' = true ∧ _
    have hold := ht.readonly d' p hp
    by_cases hne : d' = d
    · subst hne
      rw [Machine.setReadonly_self, hu.own p hp, hself]
      by_cases hbus : p ∈ busParams
      · simp [hbus]
      · by_cases hlocked : p ∈ (kind d').locked
        · simp [hlocked]
        · have hfree : m.readonly d' p = false := by
            rw [← Bool.not_eq_true, hold]
            exact fun h => h.2.elim hbus hlocked
          have hfree' : (m.withTables t').readonly d' p = false := hfree
          simp [hbus, hlocked, hfree']
    · rw [Machine.setReadonly_of_ne _ hne, hu.readonly d' hne, hother d' hne]
      exact hold
  case pc =>
    intro d' hpc
    replace hpc : (m₁.setReadonly d busParams false).readonly d' .pc = true := hpc
    by_cases hne : d' = d
    · subst hne
      rw [Machine.setReadonly_self, if_neg (by decide), hu.pc] at hpc
      split at hpc
      · cases hpc
      · next hkind => exact absurd (ht.pc d' hpc).2 hkind
    · rw [Machine.setReadonly_of_ne _ hne, hu.readonly d' hne] at hpc
      obtain ⟨he, hkind⟩ := ht.pc d' hpc
      exact ⟨hkept d' he hne, hkind⟩
  case uniboneCpu =>
    intro d'
    show m₁.uniboneCpu = some d' ↔ Function.update m₁.enabled d false d' = true ∧ kind d' = .cpu
    have hold := ht.uniboneCpu d'
    rw [hu.uniboneCpu]
    by_cases hne : d' = d
    · subst hne
      rw [hself]
      split
      · simp
      · next hcpu =>
        refine iff_of_false (fun heq => hcpu (hold.mp heq).2) fun h => hcpu h.2
    · rw [hother d' hne]
      split
      · next hcpu =>
        refine iff_of_false nofun fun h => hne ?_
        -- there is only one CPU
        have heq := hold.mpr h
        rw [(ht.uniboneCpu d).mpr ⟨hd, hcpu⟩] at heq
        exact (Option.some.inj heq).symm
      · exact hold
  case registeredCpu =>
    intro d' heq
    replace heq : m₁.page.tables.registeredCpu = some d' := heq
    rw [hu.tables.tables] at heq
    replace heq : t'.registeredCpu = some d' := heq
    rw [hr.registeredCpu] at heq
    split at heq
    · cases heq
    · next hcpu =>
      obtain ⟨he, hkind⟩ := ht.registeredCpu d' heq
      refine ⟨hkept d' he fun hne => hcpu ?_, hkind⟩
      rw [← hne]
      exact (ht.fitting d').isCpu.mpr hkind
  case roms =>
    intro c hc
    obtain ⟨hc', hcovers⟩ := hu.roms c hc
    obtain ⟨d', he, hkind, hcovers'⟩ := ht.roms c (hr.roms c hc')
    refine ⟨d', hkept d' he fun hne => hcovers ?_, hkind, ?_⟩
    · rw [← hne]
      exact ⟨hkind, hcovers'⟩
    · show (m₁.sockets d').Covers c
      rw [hu.sockets]
      exact hcovers'
  case connected =>
    intro d' hc
    replace hc : m₁.connected d' = true := hc
    by_cases hne : d' = d
    · subst hne
      rw [hu.connects] at hc
      split at hc
      · cases hc
      · next hconnects => exact absurd (ht.connected d' hc).2 hconnects
    · rw [hu.connected d' hne] at hc
      obtain ⟨he, hconnects⟩ := ht.connected d' hc
      exact ⟨hkept d' he hne, hconnects⟩

theorem Tidy.configure (ht : Tidy kind m) {dev : Device} (hbase : m.readonly d .baseAddr = false)
    (hhandle : dev.handle = (m.page.tables.device d).handle) (hf : Fitting dev (kind d)) :
    Tidy kind (m.withDevice d dev) := by
  have hd : (m.page.tables.device d).handle = 0 := by
    by_contra hne
    have hlocked := (ht.readonly d .baseAddr nofun).mpr
      ⟨(ht.handle d).mpr hne, .inl List.mem_cons_self⟩
    rw [hbase] at hlocked
    cases hlocked
  have hdev : { dev with handle := 0 } = dev := by
    rw [hd] at hhandle
    rw [← hhandle]
  have hp := ht.pluggedIn.configure d dev hd
  rw [hdev] at hp
  exact ht.withDevice hp hf hhandle

theorem Tidy.withRom (ht : Tidy kind m) {k : Socket} (r : Rom)
    (hfree : m.readonly d (.romFilepath k) = false) : Tidy kind (m.withRom d k r) where
  pluggedIn := ht.pluggedIn
  fitting := ht.fitting
  handle := ht.handle
  readonly := ht.readonly
  pc := ht.pc
  uniboneCpu := ht.uniboneCpu
  registeredCpu := ht.registeredCpu
  roms c hc := by
    obtain ⟨d', he, hkind, hcovers⟩ := ht.roms c hc
    refine ⟨d', he, hkind, ?_⟩
    show (Function.update m.sockets d _ d').Covers c
    -- the ROMs of an enabled board are locked
    have hne : d' ≠ d := by
      rintro rfl
      have hmem : Param.romFilepath k ∈ (kind d').locked := by
        rw [hkind]
        cases k <;> decide
      have hlocked := (ht.readonly d' (.romFilepath k) nofun).mpr ⟨he, .inr hmem⟩
      rw [hfree] at hlocked
      cases hlocked
    rw [Function.update_of_ne hne]
    exact hcovers
  connected := ht.connected

theorem Tidy.withCpu (ht : Tidy kind m) (c : Cpu) : Tidy kind (m.withCpu d c) :=
  ⟨ht.pluggedIn, ht.fitting, ht.handle, ht.readonly, ht.pc, ht.uniboneCpu, ht.registeredCpu,
    ht.roms, ht.connected⟩

/-- The CPU starts or stops. -/
theorem Tidy.emulateCpu (ht : Tidy kind m) (hd : m.enabled d = true) (hkind : kind d = .cpu)
    (value : Bool) : Tidy kind ((m.emulateCpu value).setReadonly d [.pc] value) where
  pluggedIn := (sameRegisters_emulateCpu m.page.tables value).pluggedIn ht.pluggedIn
  fitting := ht.fitting
  handle := ht.handle
  readonly d' p hp := by
    have hold := ht.readonly d' p hp
    by_cases hne : d' = d
    · rw [hne] at hold ⊢
      rw [Machine.setReadonly_self, if_neg (List.not_mem_cons_of_ne_of_not_mem hp
        List.not_mem_nil)]
      exact hold
    · rw [Machine.setReadonly_of_ne _ hne]
      exact hold
  pc d' hpc := by
    by_cases hne : d' = d
    · rw [hne]
      exact ⟨hd, hkind⟩
    · rw [Machine.setReadonly_of_ne _ hne] at hpc
      exact ht.pc d' hpc
  uniboneCpu := ht.uniboneCpu
  registeredCpu := ht.registeredCpu
  roms := ht.roms
  connected := ht.connected

/-- A refused enable of a device whose hook does nothing -/
theorem Tidy.refused (ht : Tidy kind m) (hd : m.enabled d = false) {t : State ι}
    (hreg : registerDevice m.page.tables d = some (false, t)) :
    Tidy kind (((m.setReadonly d busParams true).withTables t).setReadonly d busParams false) := by
  obtain ⟨dev, hshape, hconfigured, heq⟩ := ht.refused_plain hd hreg
  have hold := ht.fitting d
  have hregs : dev.registerCount = (m.page.tables.device d).registerCount :=
    congrArg (·.2.2.1) hshape
  have hcpu : dev.isCpu = (m.page.tables.device d).isCpu := congrArg (·.2.2.2) hshape
  have hp : PluggedIn (m.withDevice d dev).page.tables := by
    rw [← heq]
    exact ht.pluggedIn.registerDevice hreg
  rw [heq]
  refine ht.withDevice hp ⟨?_, hconfigured hold.configured, ?_⟩ (congrArg (·.1) hshape)
  · exact hregs ▸ hold.registerCount
  · exact hcpu ▸ hold.isCpu

theorem Tidy.step (ht : Tidy kind m) (h : Step kind len (Careful kind) m m') : Tidy kind m' := by
  cases h with
  | enable d opens ok h hcareful =>
    cases hd : m.enabled d
    case true =>
      unfold enable at h
      rw [hd, if_pos rfl] at h
      cases h
      exact ht
    cases enable_spec hd h with
    | denied _ => exact ht
    | refused hhook hreg =>
      -- the hook does nothing, as the registration is refused
      have hrefuses := (registerDevice_refused hreg).1
      rw [(hooked hhook).tables.refuses_iff] at hrefuses
      have hplain : kind d = .plain := by
        by_contra hne
        exact hcareful rfl (accepts_of_hooked hhook) hne hrefuses
      rw [hplain] at hhook
      cases hhook
      exact ht.refused hd hreg
    | plugged hhook hreg => exact ht.plugged hd hhook hreg
  | disable d h => exact ht.disable h
  | configure d dev hbase hhandle hf => exact ht.configure hbase hhandle hf
  | plugRom d k r hfree => exact ht.withRom r hfree
  | operate d cpu => exact ht.withCpu cpu
  | start d hd hkind => exact (ht.withCpu _).emulateCpu hd hkind true
  | stop d hd hkind => exact (ht.withCpu _).emulateCpu hd hkind false

end Tidy

/-! ## The demo device at the addresses of the M9312 -/

inductive Card
  | demoIo
  | m9312
  deriving DecidableEq

namespace Card

def kind : Card → Kind
  | demoIo => .plain
  | m9312 => .m9312

/-- Both have two registers at 773024. -/
def device : Card → Device
  | demoIo => { QUnibusAdapter.demoIo with baseAddr := 0o773024 }
  | m9312 => {
      handle := 0
      baseAddr := 0o773024
      registerCount := 2
      registers := fun _ => {
        addr := 0
        registerHandle := 0
        activeOnDati := true
        activeOnDato := false
        resetValue := 0
        writableBits := 0 }
      isCpu := false }

theorem fitting (d : Card) : Fitting (device d) (kind d) := by
  cases d
  · refine ⟨by decide, fun i => ?_, by decide⟩
    show (false && !false && _) = false
    rfl
  · exact ⟨by decide, fun _ => rfl, by decide⟩

end Card

end QUniBone.Enabling
