import QUniBone.Adapter.Outcomes
import QUniBone.M9312.Sockets

/-!
# The ROMs of the M9312 and the tables of the adapter

Putting ROMs into the IO page and taking them out again leaves all device registers alone.

* `SameRegisters`: only cells without a register change.
* `Rom.install_tables`, `Rom.uninstall_tables`: one ROM.
* `Sockets.uninstall`: the ROMs are taken out.
* `Sockets.install_tables`, `Sockets.uninstall_tables`: all sockets.
* `Sockets.install_isSome`: the ROMs of a board where no ROM is.
-/

namespace QUniBone.M9312

open QUnibusAdapter

variable {ι : Type}

/-! ## The same registers -/

/-- Only cells without a register change, and the CPU may stop. -/
structure SameRegisters (s s' : State ι) : Prop where
  tables : s' = { s with
    registerHandles := s'.registerHandles
    emulateCpu := s'.emulateCpu }
  cells : ∀ c, s'.registerHandles c = s.registerHandles c ∨
    ((s.registerHandles c).named = false ∧ (s'.registerHandles c).named = false)

namespace SameRegisters

variable {s s₁ s' : State ι}

theorem refl (s : State ι) : SameRegisters s s := ⟨rfl, fun _ => .inl rfl⟩

theorem named (h : SameRegisters s s') (c : Cell) :
    (s'.registerHandles c).named = (s.registerHandles c).named := by
  rcases h.cells c with heq | ⟨hs, hs'⟩
  · rw [heq]
  · rw [hs, hs']

theorem trans (h : SameRegisters s s₁) (h' : SameRegisters s₁ s') : SameRegisters s s' where
  tables := by
    rw [h'.tables, h.tables]
  cells c := by
    rcases h'.cells c with heq' | ⟨hs₁, hs'⟩
    · rcases h.cells c with heq | ⟨hs, hs₁⟩
      · exact .inl (heq'.trans heq)
      · exact .inr ⟨hs, heq' ▸ hs₁⟩
    · exact .inr ⟨(h.named c).symm.trans hs₁, hs'⟩

theorem pluggedIn (h : SameRegisters s s') (hs : PluggedIn s) : PluggedIn s' := by
  have hcell : ∀ c, (s.registerHandles c).named = true →
      s'.registerHandles c = s.registerHandles c := by
    intro c hc
    rcases h.cells c with heq | ⟨hno, -⟩
    · exact heq
    · rw [hno] at hc
      cases hc
  have hm := hs.mapped
  rw [h.tables]
  constructor
  case mapped =>
    constructor
    case named => exact hm.named
    case byHandle => exact hm.byHandle
    case cell =>
      intro d i hl
      have hnamed := hm.named d i hl
      rw [← hm.cell d i hl] at hnamed
      exact (hcell _ hnamed).trans (hm.cell d i hl)
    case owner =>
      intro c hc
      exact hm.owner c ((h.named c).symm.trans hc)
  case slots => exact hs.slots

theorem registerHandleUsed (h : SameRegisters s s') (i : ℕ) :
    registerHandleUsed s'.registerHandles i = registerHandleUsed s.registerHandles i := by
  rw [Bool.eq_iff_iff, registerHandleUsed_iff, registerHandleUsed_iff]
  refine exists_congr fun c => ?_
  rcases h.cells c with heq | ⟨hs, hs'⟩
  · rw [heq]
  · rw [hs, hs']
    exact iff_of_false (fun hc => Bool.false_ne_true hc.1) fun hc => Bool.false_ne_true hc.1

theorem lastHandle (h : SameRegisters s s') :
    lastHandle s'.registerHandles = lastHandle s.registerHandles := by
  unfold QUniBone.lastHandle
  simp only [h.registerHandleUsed]

/-- The same devices are refused. -/
theorem refuses_iff (h : SameRegisters s s') (d : ι) : Refuses s' d ↔ Refuses s d := by
  have hdevice : s'.device = s.device := by rw [h.tables]
  have hdevices : s'.devices = s.devices := by rw [h.tables]
  unfold Refuses
  rw [hdevice, hdevices, h.lastHandle]
  simp only [h.named]

end SameRegisters

/-! ## One ROM -/

theorem registerRom_sameRegisters {bus : AddrSpace} {s s' : State ι} {address : UInt} {ok : Bool}
    (h : registerRom bus s address = some (ok, s')) : SameRegisters s s' := by
  unfold registerRom at h
  dsimp only at h
  split at h
  · cases h
  split at h
  · cases h
    exact .refl s
  · next hcell =>
    cases h
    refine ⟨rfl, fun c => ?_⟩
    by_cases hc : c = entry address
    · right
      dsimp only
      rw [hc, Function.update_self]
      exact ⟨Bool.not_eq_true _ ▸ hcell, rfl⟩
    · exact .inl (Function.update_of_ne hc _ _)

theorem registerRom_roms {bus : AddrSpace} {s s' : State ι} {address : UInt} {ok : Bool}
    (h : registerRom bus s address = some (ok, s')) {c : Cell}
    (hc : s'.registerHandles c = handleRom) :
    s.registerHandles c = handleRom ∨ c = entry address := by
  unfold registerRom at h
  dsimp only at h
  split at h
  · cases h
  split at h
  · cases h
    exact .inl hc
  · cases h
    by_cases heq : c = entry address
    · exact .inr heq
    · dsimp only at hc
      rw [Function.update_of_ne heq] at hc
      exact .inl hc

theorem unregisterRom_sameRegisters {bus : AddrSpace} {s s' : State ι} {address : UInt}
    (h : unregisterRom bus s address = some s') : SameRegisters s s' := by
  unfold unregisterRom at h
  dsimp only at h
  split at h
  · cases h
  split at h
  · cases h
    exact .refl s
  split at h
  · cases h
    exact .refl s
  · next hrom =>
    cases h
    refine ⟨rfl, fun c => ?_⟩
    by_cases hc : c = entry address
    · right
      dsimp only
      rw [hc, Function.update_self, not_not.mp hrom]
      exact ⟨rfl, rfl⟩
    · exact .inl (Function.update_of_ne hc _ _)

/-- No ROM is left at the address, and none comes. -/
theorem unregisterRom_roms {bus : AddrSpace} {s s' : State ι} {address : UInt}
    (h : unregisterRom bus s address = some s') {c : Cell}
    (hc : s'.registerHandles c = handleRom) :
    s.registerHandles c = handleRom ∧ c ≠ entry address := by
  unfold unregisterRom at h
  dsimp only at h
  split at h
  · cases h
  split at h
  · next hzero =>
    cases h
    refine ⟨hc, fun heq => ?_⟩
    rw [heq, hzero] at hc
    cases hc
  split at h
  · next hrom =>
    cases h
    refine ⟨hc, fun heq => ?_⟩
    rw [heq] at hc
    exact hrom hc
  · cases h
    dsimp only at hc
    by_cases heq : c = entry address
    · rw [heq, Function.update_self] at hc
      cases hc
    · rw [Function.update_of_ne heq] at hc
      exact ⟨hc, heq⟩

namespace Rom

variable {bus : AddrSpace} {len : UInt} {r : Rom}

/-- What the installation of a ROM can change: cells without a register, to those of the ROM -/
theorem installCells_tables (n : ℕ) : ∀ {i : ℕ} {p p' : Page ι},
    r.installCells bus len n i p = some p' → SameRegisters p.tables p'.tables ∧
      ∀ c, p'.tables.registerHandles c = handleRom → p.tables.registerHandles c = handleRom ∨
        ∃ j, j < i + n ∧ c = entry (r.addr j) := by
  induction n with
  | zero =>
    intro i p p' h
    cases h
    exact ⟨.refl _, fun c hc => .inl hc⟩
  | succ n ih =>
    intro i p p' h
    obtain ⟨deposited, -, h⟩ := Option.bind_eq_some_iff.mp h
    split at h
    · cases h
    obtain ⟨registered, hregister, h⟩ := Option.bind_eq_some_iff.mp h
    have hsame := registerRom_sameRegisters hregister
    have hroms : ∀ c, registered.2.registerHandles c = handleRom →
        p.tables.registerHandles c = handleRom ∨ ∃ j, j < i + (n + 1) ∧ c = entry (r.addr j) := by
      intro c hc
      rcases registerRom_roms hregister hc with hold | hnew
      · exact .inl hold
      · exact .inr ⟨i, by omega, hnew⟩
    split at h
    · cases h
      exact ⟨hsame, hroms⟩
    · obtain ⟨hsame', hroms'⟩ := ih h
      refine ⟨hsame.trans hsame', fun c hc => ?_⟩
      rcases hroms' c hc with hold | ⟨j, hj, hnew⟩
      · exact hroms c hold
      · exact .inr ⟨j, by omega, hnew⟩

theorem install_tables {p p' : Page ι} (h : r.install bus len p = some p') :
    SameRegisters p.tables p'.tables ∧
      ∀ c, p'.tables.registerHandles c = handleRom → p.tables.registerHandles c = handleRom ∨
        ∃ j < r.wordcount, c = entry (r.addr j) := by
  obtain ⟨hsame, hroms⟩ := installCells_tables r.wordcount h
  refine ⟨hsame, fun c hc => ?_⟩
  rcases hroms c hc with hold | ⟨j, hj, hnew⟩
  · exact .inl hold
  · exact .inr ⟨j, by omega, hnew⟩

theorem uninstall_tables {s s' : State ι} (h : r.uninstall bus s = some s') :
    SameRegisters s s' ∧ ∀ c, s'.registerHandles c = handleRom →
      s.registerHandles c = handleRom ∧ ∀ j < r.wordcount, c ≠ entry (r.addr j) := by
  have hall : ∀ (l : List ℕ) (s : State ι),
      l.foldlM (fun s i => unregisterRom bus s (r.addr i)) s = some s' →
      SameRegisters s s' ∧ ∀ c, s'.registerHandles c = handleRom →
        s.registerHandles c = handleRom ∧ ∀ j ∈ l, c ≠ entry (r.addr j) := by
    intro l
    induction l with
    | nil =>
      intro s h
      cases h
      exact ⟨.refl _, fun c hc => ⟨hc, fun j hj => absurd hj List.not_mem_nil⟩⟩
    | cons j l ih =>
      intro s h
      rw [List.foldlM_cons] at h
      obtain ⟨s₁, hs₁, h⟩ := Option.bind_eq_some_iff.mp h
      obtain ⟨hsame, hroms⟩ := ih s₁ h
      refine ⟨(unregisterRom_sameRegisters hs₁).trans hsame, fun c hc => ?_⟩
      obtain ⟨hc₁, hne⟩ := hroms c hc
      obtain ⟨hold, hfirst⟩ := unregisterRom_roms hs₁ hc₁
      exact ⟨hold, List.forall_mem_cons.mpr ⟨hfirst, hne⟩⟩
  obtain ⟨hsame, hroms⟩ := hall _ s h
  exact ⟨hsame, fun c hc => ⟨(hroms c hc).1, fun j hj => (hroms c hc).2 j (List.mem_range.mpr hj)⟩⟩

end Rom

/-! ## All sockets -/

/-- A ROM of the board is at this cell. -/
def Sockets.Covers (s : Sockets) (c : Cell) : Prop :=
  ∃ k, ∃ j < (s k).wordcount, c = entry ((s k).addr j)

/-- The loop of `on_after_uninstall` -/
def Sockets.uninstall (s : Sockets) (t : State ι) : Option (State ι) :=
  Socket.all.foldlM (fun t k => (s k).uninstall unibus t) t

theorem Sockets.install_tables {len : UInt} {s : Sockets} {p p' : Page ι}
    (h : s.install len p = some p') : SameRegisters p.tables p'.tables ∧
      ∀ c, p'.tables.registerHandles c = handleRom →
        p.tables.registerHandles c = handleRom ∨ s.Covers c := by
  have hall : ∀ (ks : List Socket) (p : Page ι),
      ks.foldlM (fun p k => (s k).install unibus len p) p = some p' →
      SameRegisters p.tables p'.tables ∧ ∀ c, p'.tables.registerHandles c = handleRom →
        p.tables.registerHandles c = handleRom ∨ s.Covers c := by
    intro ks
    induction ks with
    | nil =>
      intro p h
      cases h
      exact ⟨.refl _, fun c hc => .inl hc⟩
    | cons k ks ih =>
      intro p h
      rw [List.foldlM_cons] at h
      obtain ⟨p₁, hp₁, h⟩ := Option.bind_eq_some_iff.mp h
      obtain ⟨hsame₁, hroms₁⟩ := Rom.install_tables hp₁
      obtain ⟨hsame, hroms⟩ := ih p₁ h
      refine ⟨hsame₁.trans hsame, fun c hc => ?_⟩
      rcases hroms c hc with hc₁ | hcovers
      · rcases hroms₁ c hc₁ with hold | ⟨j, hj, hnew⟩
        · exact .inl hold
        · exact .inr ⟨k, j, hj, hnew⟩
      · exact .inr hcovers
  exact hall _ p h

theorem Sockets.uninstall_tables {s : Sockets} {t t' : State ι} (h : s.uninstall t = some t') :
    SameRegisters t t' ∧ ∀ c, t'.registerHandles c = handleRom →
      t.registerHandles c = handleRom ∧ ¬s.Covers c := by
  have hall : ∀ (ks : List Socket) (t : State ι),
      ks.foldlM (fun t k => (s k).uninstall unibus t) t = some t' →
      SameRegisters t t' ∧ ∀ c, t'.registerHandles c = handleRom → t.registerHandles c = handleRom ∧
        ∀ k ∈ ks, ∀ j < (s k).wordcount, c ≠ entry ((s k).addr j) := by
    intro ks
    induction ks with
    | nil =>
      intro t h
      cases h
      exact ⟨.refl _, fun c hc => ⟨hc, fun k hk => absurd hk List.not_mem_nil⟩⟩
    | cons k ks ih =>
      intro t h
      rw [List.foldlM_cons] at h
      obtain ⟨t₁, ht₁, h⟩ := Option.bind_eq_some_iff.mp h
      obtain ⟨hsame₁, hroms₁⟩ := Rom.uninstall_tables ht₁
      obtain ⟨hsame, hroms⟩ := ih t₁ h
      refine ⟨hsame₁.trans hsame, fun c hc => ?_⟩
      obtain ⟨hc₁, hne⟩ := hroms c hc
      obtain ⟨hold, hfirst⟩ := hroms₁ c hc₁
      exact ⟨hold, List.forall_mem_cons.mpr ⟨hfirst, hne⟩⟩
  obtain ⟨hsame, hroms⟩ := hall _ t h
  refine ⟨hsame, fun c hc => ⟨(hroms c hc).1, ?_⟩⟩
  rintro ⟨k, j, hj, heq⟩
  have hmem : k ∈ Socket.all := by cases k <;> decide
  exact (hroms c hc).2 k hmem j hj heq

end QUniBone.M9312
