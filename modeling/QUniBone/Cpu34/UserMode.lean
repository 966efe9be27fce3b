import QUniBone.Cpu34.CoherentRuns

/-!
# User mode isolation

A program in user mode with relocation on touches nothing but what its pages map: until a trap
sequence is entered, one step keeps every reference inside the user pages and leaves mode,
priority, address map and kernel stack pointer alone. The one assumption is that no user page
which grants access maps the processor's own registers.

* `UserState`: the processor in user mode, the derived state of the KT11-D up to date.
* `UserMaps`: what a user page maps, read off its PAR and PDR.
* `Isolated`: what a user program can have changed.
-/

namespace QUniBone

open Prog

namespace Kt11d

/-- The user page of `va` grants the access, at the physical address `pa`. -/
def UserMaps (mmu : Kt11d) (va : Word) (access : Access) (pa : UInt) : Prop :=
  Reference.Permitted Mode.user (mmu.pdr (pageIdx .user va)) va access ∧
    pa.toNat = Reference.physical (mmu.par (pageIdx .user va)) va

/-- The PSW and the registers of the KT11-D. -/
def isProcessorRegister (pa : UInt) : Prop :=
  isOwnRegister pa = true ∨ pa = 0o777776 ∨ pa = 0o777777

/-- No user page which grants an access maps a register of the processor. -/
def RegistersUnmapped (mmu : Kt11d) : Prop :=
  ∀ va access pa, UserMaps mmu va access pa → ¬isProcessorRegister pa

/-- With derived descriptors, `UserMaps` is what the fast path computes. -/
theorem userMaps_iff {mmu : Kt11d}
    (hpage : ∀ i, mmu.page i = descriptor (mmu.par i) (mmu.pdr i) i) (va : Word)
    (access : Access) (pa : UInt) :
    UserMaps mmu va access pa ↔
      ¬mmu.refuses va .user access ∧ pa = mmu.physicalOf va .user := by
  rw [refuses_iff_of_page hpage, UserMaps, ← toNat_physicalOf hpage, BitVec.toNat_inj,
    Reference.Permitted]
  simp only [Reference.modeExists, or_true, true_and]

/-- Two units with the same descriptors map the same. -/
theorem userMaps_congr {mmu mmu' : Kt11d}
    (hpage : ∀ i, mmu.page i = descriptor (mmu.par i) (mmu.pdr i) i)
    (hpage' : ∀ i, mmu'.page i = descriptor (mmu'.par i) (mmu'.pdr i) i)
    (heq : mmu'.page = mmu.page) (va : Word) (access : Access) (pa : UInt) :
    UserMaps mmu' va access pa ↔ UserMaps mmu va access pa := by
  rw [userMaps_iff hpage, userMaps_iff hpage', refuses, refuses, physicalOf, physicalOf, heq]

theorem toNat_and_not_one (pa : UInt) : (pa &&& (~~~1 : UInt)).toNat = pa.toNat / 2 * 2 := by
  have hshift : pa &&& (~~~1 : UInt) = (pa >>> 1) <<< 1 := by
    apply BitVec.eq_of_getLsbD_eq
    intro i hi
    have hbit : (~~~1 : UInt).getLsbD i = !decide (i = 0) := by
      rw [BitVec.getLsbD_not, show (1 : UInt) = BitVec.twoPow 32 0 from rfl,
        BitVec.getLsbD_twoPow]
      simp [hi, eq_comm]
    rw [BitVec.getLsbD_and, hbit, BitVec.getLsbD_shiftLeft, BitVec.getLsbD_ushiftRight]
    cases i with
    | zero => simp
    | succ i => simp [hi, Nat.add_comm, -BitVec.getLsbD_eq_getElem]
  have := pa.isLt
  rw [hshift, BitVec.toNat_shiftLeft, BitVec.toNat_ushiftRight, Nat.shiftLeft_eq,
    Nat.shiftRight_eq_div_pow]
  omega

theorem isOwnRegister_iff (pa : UInt) : isOwnRegister pa = true ↔
    0o772300 ≤ pa.toNat ∧ (pa.toNat ≤ 0o772317 ∨ 0o772340 ≤ pa.toNat ∧ pa.toNat ≤ 0o772357 ∨
      0o777572 ≤ pa.toNat ∧ pa.toNat ≤ 0o777577 ∨ 0o777600 ≤ pa.toNat ∧ pa.toNat ≤ 0o777617 ∨
      0o777640 ≤ pa.toNat ∧ pa.toNat ≤ 0o777657) := by
  unfold isOwnRegister
  simp only [BitVec.lt_def, BitVec.le_def, BitVec.reduceToNat]
  split
  · simp only [Bool.false_eq_true, false_iff]
    omega
  · simp only [Bool.or_eq_true, Bool.and_eq_true, decide_eq_true_eq]
    omega

/-- The registers of the KT11-D are words: both bytes belong to them. -/
theorem isOwnRegister_even (pa : UInt) :
    isOwnRegister (pa &&& (~~~1 : UInt)) = isOwnRegister pa := by
  rw [Bool.eq_iff_iff, isOwnRegister_iff, isOwnRegister_iff, toNat_and_not_one]
  omega

theorem lookup_eq_none {pa : UInt} (h : isOwnRegister pa = false) :
    lookup (pa &&& ~~~1) = none := by
  rw [lookup, isOwnRegister_even, h]
  rfl

end Kt11d

namespace Kd11ea

open Kt11d

/-- User mode, previous mode user, relocation on, and the derived state up to date. -/
structure UserState (cpu : Kd11ea) : Prop where
  mode : cpu.psw.mode = Mode.user
  prevMode : cpu.psw.prevMode = Mode.user
  mmuMode : cpu.mmu.mode = Mode.user
  mmuPrevMode : cpu.mmu.prevMode = Mode.user
  space : cpu.mmu.space = .user
  prevSpace : cpu.mmu.prevSpace = .user
  accessSpace : cpu.mmu.accessSpace = .user
  accessMode : cpu.mmu.accessMode = Mode.user
  accessIllegal : cpu.mmu.accessIllegal = false
  enabled : cpu.mmu.enabled = true
  page : ∀ i, cpu.mmu.page i = descriptor (cpu.mmu.par i) (cpu.mmu.pdr i) i

/-- The bus calls of a user program: references the user pages map. -/
def Allowed (mmu : Kt11d) : BusEvent → Prop
  | .dati addr _ => ∃ va pa, UserMaps mmu va .read pa ∧ addr = pa &&& ~~~1
  | .dato addr _ _ => ∃ va pa, UserMaps mmu va .write pa ∧ addr = pa &&& ~~~1
  | .datob addr _ _ => ∃ va pa, UserMaps mmu va .write pa ∧ addr = pa
  | .prioritylevelchange _ => True
  | .grantInterrupts => False
  | .busInit => False

/-- `PSW<15:12>` and `PSW<7:5>`: mode, previous mode and priority. -/
abbrev pswProtected : Word := 0o170340

theorem mode_of_protected {w w' : Word} (h : w &&& pswProtected = w' &&& pswProtected) :
    w.mode = w'.mode ∧ w.prevMode = w'.prevMode := by
  have hmode : ∀ v : Word, (v &&& pswProtected).mode = v.mode := by
    intro v
    ext i hi
    have hbit : pswProtected.getLsbD (14 + i) = true := by
      interval_cases i <;> rfl
    simp only [Word.mode, BitVec.getElem_extractLsb', BitVec.getLsbD_and, hbit, Bool.and_true]
  have hprev : ∀ v : Word, (v &&& pswProtected).prevMode = v.prevMode := by
    intro v
    ext i hi
    have hbit : pswProtected.getLsbD (12 + i) = true := by
      interval_cases i <;> rfl
    simp only [Word.prevMode, BitVec.getElem_extractLsb', BitVec.getLsbD_and, hbit, Bool.and_true]
  exact ⟨by rw [← hmode w, h, hmode], by rw [← hprev w, h, hprev]⟩

theorem store_protected (cc : CC) (psw : Word) :
    cc.store psw &&& pswProtected = psw &&& pswProtected := by
  unfold CC.store Word.setmask
  simp only [BitVec.and_or_distrib_right, BitVec.and_assoc]
  simp

/-- What a user program leaves alone. -/
structure Isolated (m m' : Machine) : Prop where
  /-- New bus events are references of the user pages. -/
  bus : ∃ new, m'.bus = new ++ m.bus ∧ ∀ e ∈ new, Allowed m.cpu.mmu e
  psw : m'.cpu.psw &&& pswProtected = m.cpu.psw &&& pswProtected
  par : m'.cpu.mmu.par = m.cpu.mmu.par
  /-- The PDR of kernel pages do not change at all, -/
  kernelPdr : ∀ i : RegIdx, i < 8 → m'.cpu.mmu.pdr i = m.cpu.mmu.pdr i
  /-- and those of user pages only in their `W` bit. -/
  pdr : ∀ i, m'.cpu.mmu.pdr i &&& ~~~pdrW = m.cpu.mmu.pdr i &&& ~~~pdrW
  enable : m'.cpu.mmu.mmr0.getLsbD 0 = m.cpu.mmu.mmr0.getLsbD 0
  maint : m'.cpu.mmu.mmr0.getLsbD 8 = m.cpu.mmu.mmr0.getLsbD 8
  kernelSp : m'.cpu.stackpointer .kernel = m.cpu.stackpointer .kernel

namespace Isolated

variable {m m' m'' : Machine}

theorem refl (m : Machine) : Isolated m m where
  bus := ⟨[], rfl, by simp⟩
  psw := rfl
  par := rfl
  kernelPdr := fun _ _ => rfl
  pdr := fun _ => rfl
  enable := rfl
  maint := rfl
  kernelSp := rfl

/-- Isolation composes while the descriptors stay the same. -/
theorem trans (hmaps : ∀ va access pa, UserMaps m'.cpu.mmu va access pa ↔
      UserMaps m.cpu.mmu va access pa) (h : Isolated m m') (h' : Isolated m' m'') :
    Isolated m m'' where
  bus := by
    obtain ⟨new, hnew, hallowed⟩ := h.bus
    obtain ⟨new', hnew', hallowed'⟩ := h'.bus
    refine ⟨new' ++ new, by rw [hnew', hnew, List.append_assoc], ?_⟩
    intro e he
    rcases List.mem_append.mp he with he | he
    · have := hallowed' e he
      cases e <;> simp only [Allowed, hmaps] at this ⊢ <;> exact this
    · exact hallowed e he
  psw := h'.psw.trans h.psw
  par := h'.par.trans h.par
  kernelPdr := fun i hi => (h'.kernelPdr i hi).trans (h.kernelPdr i hi)
  pdr := fun i => (h'.pdr i).trans (h.pdr i)
  enable := h'.enable.trans h.enable
  maint := h'.maint.trans h.maint
  kernelSp := h'.kernelSp.trans h.kernelSp

/-- Isolation looks at bus, PSW, KT11-D and kernel stack pointer. -/
theorem of_eq (hbus : m'.bus = m.bus)
    (hpsw : m'.cpu.psw &&& pswProtected = m.cpu.psw &&& pswProtected)
    (hpar : m'.cpu.mmu.par = m.cpu.mmu.par) (hpdr : m'.cpu.mmu.pdr = m.cpu.mmu.pdr)
    (hmmr0 : m'.cpu.mmu.mmr0 = m.cpu.mmu.mmr0)
    (hsp : m'.cpu.stackpointer .kernel = m.cpu.stackpointer .kernel) : Isolated m m' where
  bus := ⟨[], hbus, by simp⟩
  psw := hpsw
  par := hpar
  kernelPdr := fun i _ => by rw [hpdr]
  pdr := fun i => by rw [hpdr]
  enable := by rw [hmmr0]
  maint := by rw [hmmr0]
  kernelSp := hsp

/-- One more reference of the user pages. -/
theorem onBus (h : Isolated m m') {e : BusEvent} (he : Allowed m.cpu.mmu e) :
    Isolated m (m'.onBus e) :=
  { h with
    bus := by
      obtain ⟨new, hnew, hallowed⟩ := h.bus
      exact ⟨e :: new, congrArg (e :: ·) hnew, List.forall_mem_cons.mpr ⟨he, hallowed⟩⟩ }

end Isolated

/-- The user state together with the assumption on its pages. -/
structure UserSafe (cpu : Kd11ea) : Prop extends UserState cpu where
  unmapped : RegistersUnmapped cpu.mmu

/-- What a user program does to the machine. -/
structure UserStep (s t : Machine) : Prop extends Isolated s t where
  safe : UserSafe t.cpu
  page : t.cpu.mmu.page = s.cpu.mmu.page
  notHalted : t.cpu.state = .halted → s.cpu.state = .halted

/-- `UserStep` as a two-state relation: it holds as long as the processor is a user's. -/
def UserRel (s t : Machine) : Prop := UserSafe s.cpu → UserStep s t

theorem UserSafe.refl {s : Machine} (h : UserSafe s.cpu) : UserStep s s where
  toIsolated := .refl s
  safe := h
  page := rfl
  notHalted := id

theorem userRel_graded : Graded (ungraded UserRel) := by
  refine graded_ungraded (fun s h => h.refl) fun s t u hst htu h => ?_
  have hs := hst h
  have ht := htu hs.safe
  exact {
    toIsolated := Isolated.trans (userMaps_congr h.page hs.safe.page hs.page) hs.toIsolated
      ht.toIsolated
    safe := ht.safe
    page := ht.page.trans hs.page
    notHalted := fun hhalted => hs.notHalted (ht.notHalted hhalted) }

namespace UserSafe

variable {cpu : Kd11ea}

/-- Only PSW and KT11-D matter, and not `dest_ref`, MMR1 or MMR2. -/
theorem congr {cpu' : Kd11ea} (h : UserSafe cpu)
    (hpsw : cpu'.psw &&& pswProtected = cpu.psw &&& pswProtected)
    (hmmu : ∃ mmr1 mmr2 count destRef, cpu'.mmu = { cpu.mmu with
      mmr1 := mmr1
      mmr2 := mmr2
      mmr1Count := count
      destRef := destRef }) : UserSafe cpu' := by
  obtain ⟨_, _, _, _, hmmu⟩ := hmmu
  obtain ⟨hmode, hprev⟩ := mode_of_protected hpsw
  constructor
  · constructor <;> (try rw [hmmu])
    · exact hmode.trans h.mode
    · exact hprev.trans h.prevMode
    · exact h.mmuMode
    · exact h.mmuPrevMode
    · exact h.space
    · exact h.prevSpace
    · exact h.accessSpace
    · exact h.accessMode
    · exact h.accessIllegal
    · exact h.enabled
    · exact h.page
  · rw [hmmu]
    exact h.unmapped

theorem relocates (h : UserSafe cpu) : cpu.mmu.relocates = true := by
  rw [Kt11d.relocates, h.enabled]
  rfl

theorem not_isKernel (h : UserSafe cpu) : cpu.isKernel = false := by
  rw [isKernel, h.mode]
  rfl

/-- `SPACE_PREV` and `SPACE_RESTORE` change nothing: there is one mode only. -/
theorem setAccess (h : UserSafe cpu) : cpu.mmu.setAccess .user Mode.user = cpu.mmu := by
  have hillegal : cpu.mmu.accessIllegal = Mode.user.illegal := h.accessIllegal
  rw [Kt11d.setAccess, ← h.accessSpace, ← h.accessMode]
  rw [← h.accessMode] at hillegal
  rw [← hillegal]

theorem spacePrev (h : UserSafe cpu) : cpu.spacePrev = cpu := by
  rw [Kd11ea.spacePrev, h.prevSpace, h.mmuPrevMode, h.setAccess]

theorem spaceRestore (h : UserSafe cpu) : cpu.spaceRestore = cpu := by
  rw [Kd11ea.spaceRestore, h.space, h.mmuMode, h.setAccess]

end UserSafe

/-- A step which reaches none of what `UserStep` is about. -/
theorem UserSafe.step {s t : Machine} (h : UserSafe s.cpu)
    (hpsw : t.cpu.psw &&& pswProtected = s.cpu.psw &&& pswProtected)
    (hmmu : ∃ mmr1 mmr2 count destRef, t.cpu.mmu = { s.cpu.mmu with
      mmr1 := mmr1
      mmr2 := mmr2
      mmr1Count := count
      destRef := destRef })
    (hbus : t.bus = s.bus) (hsp : t.cpu.stackpointer = s.cpu.stackpointer)
    (hstate : t.cpu.state = .halted → s.cpu.state = .halted) : UserStep s t := by
  have hsafe := h.congr hpsw hmmu
  obtain ⟨_, _, _, _, hmmu⟩ := hmmu
  exact {
    toIsolated := .of_eq hbus hpsw (by rw [hmmu]) (by rw [hmmu]) (by rw [hmmu]) (by rw [hsp])
    safe := hsafe
    page := by rw [hmmu]
    notHalted := hstate }

/-- A step which leaves the KT11-D alone altogether. -/
theorem UserSafe.step' {s t : Machine} (h : UserSafe s.cpu) (hpsw : t.cpu.psw = s.cpu.psw)
    (hmmu : t.cpu.mmu = s.cpu.mmu) (hbus : t.bus = s.bus)
    (hsp : t.cpu.stackpointer = s.cpu.stackpointer)
    (hstate : t.cpu.state = .halted → s.cpu.state = .halted) : UserStep s t :=
  h.step (congrArg (· &&& pswProtected) hpsw) ⟨_, _, _, _, hmmu⟩ hbus hsp hstate

/-! ## Bus cycles -/

/-- What a reference of a user program leaves: the processor stays in the user state, and if
the reference was granted its page maps it. -/
theorem UserSafe.translated {m : Machine} (h : UserSafe m.cpu) (access : Access) :
    UserStep m (m.translated access) ∧
      ∀ pa, m.physical access = some pa → UserMaps m.cpu.mmu m.cpu.ba access pa := by
  have hcpu := translated_cpu m access
  have hpdr := m.cpu.mmu.relocate_pdr m.cpu.ba m.cpu.mmu.accessSpace access
  have hpageEq := Coherent.relocate_page m.cpu.mmu m.cpu.ba m.cpu.mmu.accessSpace access
  have hmmr0 := relocate_keeps_flags m.cpu.mmu m.cpu.ba m.cpu.mmu.accessSpace access
  have hgrant : ∀ pa, m.physical access = some pa → UserMaps m.cpu.mmu m.cpu.ba access pa := by
    intro pa hpa
    obtain ⟨-, hok, rfl, -⟩ := relocate_granted h.relocates hpa
    rw [userMaps_iff h.page, ← h.accessSpace]
    exact ⟨hok, rfl⟩
  have hbus := translated_bus m access
  have hidx : (m.cpu.mmu.page (pageIdx m.cpu.mmu.accessSpace m.cpu.ba)).pdrIdx
      = pageIdx .user m.cpu.ba := by
    rw [h.page, h.accessSpace]
    rfl
  rw [hidx] at hpdr
  obtain ⟨mmr0, frozen, pdr, hmmu⟩ :=
    m.cpu.mmu.relocate_frame m.cpu.ba m.cpu.mmu.accessSpace access
  rw [hmmu] at hcpu hpdr hpageEq hmmr0
  dsimp only at hpdr hpageEq hmmr0
  have hkernel : ∀ i : RegIdx, i < 8 → pdr i = m.cpu.mmu.pdr i := by
    intro i hi
    rcases hpdr with hpdr | ⟨-, hpdr⟩ <;> rw [hpdr]
    refine Function.update_of_ne ?_ _ _
    rintro rfl
    exact absurd (Fin.lt_def.mp hi) (by show ¬8 + _ < 8; omega)
  have hbits : ∀ i, pdr i &&& ~~~pdrW = m.cpu.mmu.pdr i &&& ~~~pdrW := by
    intro i
    rcases hpdr with hpdr | ⟨-, hpdr⟩ <;> rw [hpdr]
    rw [Function.update_apply]
    split
    case isTrue hi =>
      rw [hi, BitVec.and_or_distrib_right, show pdrW &&& ~~~pdrW = 0 from rfl]
      exact BitVec.or_zero
    case isFalse => rfl
  have hstate : UserState (m.translated access).cpu := by
    rw [hcpu]
    exact { h.toUserState with page := fun i => (h.page i).trans (hpageEq i).symm }
  have hpage : (m.translated access).cpu.mmu.page = m.cpu.mmu.page := by rw [hcpu]
  have hsafe : UserSafe (m.translated access).cpu :=
    ⟨hstate, fun va access' pa hmaps => h.unmapped va access' pa
      ((userMaps_congr h.page hstate.page hpage va access' pa).mp hmaps)⟩
  refine ⟨?_, hgrant⟩
  exact {
    bus := ⟨[], hbus, by simp⟩
    psw := by rw [hcpu]
    par := by rw [hcpu]
    kernelPdr := fun i hi => by rw [hcpu]; exact hkernel i hi
    pdr := fun i => by rw [hcpu]; exact hbits i
    enable := by rw [hcpu]; exact hmmr0.1
    maint := by rw [hcpu]; exact hmmr0.2
    kernelSp := by rw [hcpu]
    safe := hsafe
    page := hpage
    notHalted := by rw [hcpu]; exact id }

namespace UserStep

variable {m t : Machine}

theorem trans {u : Machine} (h : UserSafe m.cpu) (hmt : UserStep m t) (htu : UserStep t u) :
    UserStep m u :=
  userRel_graded.trans (m := 0) (n := 0) (fun _ => hmt) (fun _ => htu) h

theorem onBus (h : UserStep m t) {e : BusEvent} (he : Allowed m.cpu.mmu e) :
    UserStep m (t.onBus e) :=
  { h with toIsolated := h.toIsolated.onBus he }

theorem note (h : UserSafe m.cpu) (hmt : UserStep m t) (e : CpuEvent) :
    UserStep m (t.note e) :=
  hmt.trans h (hmt.safe.step' rfl rfl rfl rfl id)

theorem cycleOk (h : UserSafe m.cpu) (hmt : UserStep m t) : UserStep m t.cycleOk :=
  hmt.trans h (hmt.safe.step' rfl rfl rfl rfl id)

theorem cycleFailed (h : UserSafe m.cpu) (hmt : UserStep m t) (vector : Word) :
    UserStep m (t.cycleFailed vector) := by
  refine hmt.trans h (hmt.safe.step' ?_ ?_ rfl ?_ ?_) <;>
  · unfold Machine.cycleFailed autoincUndo Machine.mapCpu
    dsimp only
    split <;> first | rfl | exact id

end UserStep

theorem userRel_dati (bus : Bus) (byte : Bool) :
    Within (ungraded UserRel) 1 (dati bus byte) := by
  intro m h
  obtain ⟨hstep, hgrant⟩ := h.translated .read
  have hload : ∀ (t : Machine) (w : Word), UserStep m t →
      UserStep m (t.mapCpu ({ · with bdata := w })) :=
    fun t w ht => ht.trans h (ht.safe.step' rfl rfl rfl rfl id)
  have hevent : ∀ {pa answer}, m.physical .read = some pa →
      Allowed m.cpu.mmu (.dati (pa &&& ~~~1) answer) :=
    fun hpa => ⟨_, _, hgrant _ hpa, rfl⟩
  have hspec := dati_spec bus byte m
  generalize Kd11ea.dati bus byte m = result at hspec ⊢
  cases hspec with
  | odd => exact h.refl.cycleFailed h _
  | aborted => exact hstep.cycleFailed h _
  | internal => exact ((hload _ _ hstep).note h _).cycleOk h
  | answered hpa => exact (hload _ _ (hstep.onBus (hevent hpa))).cycleOk h
  | timeout hpa => exact (hstep.onBus (hevent hpa)).cycleFailed h _

/-- The only register of the processor left to a user program are the switches. -/
theorem writeInternal_unmapped {m m' : Machine} {pa : UInt} {byte : Bool}
    (hpa : ¬isProcessorRegister pa) (hw : m.writeInternal pa byte = some m') : m' = m := by
  simp only [isProcessorRegister, not_or, Bool.not_eq_true] at hpa
  have hreg : m.cpu.mmu.writeReg (pa &&& ~~~1) m.cpu.bdata (Machine.byteMask byte pa) = none := by
    rw [writeReg, lookup_eq_none hpa.1]
    rfl
  unfold Machine.writeInternal at hw
  rw [hreg] at hw
  simp only [hpa.2.1, hpa.2.2, or_self, if_false] at hw
  split_ifs at hw
  cases hw
  rfl

theorem userRel_dato (bus : Bus) (byte : Bool) :
    Within (ungraded UserRel) 1 (dato bus byte) := by
  intro m h
  obtain ⟨hstep, hgrant⟩ := h.translated .write
  have hevent : ∀ {pa success}, m.physical .write = some pa →
      Allowed m.cpu.mmu (writeEvent byte pa m.cpu.bdata success) := by
    intro pa success hpa
    cases byte <;> exact ⟨_, _, hgrant pa hpa, rfl⟩
  have hspec := dato_spec bus byte m
  generalize Kd11ea.dato bus byte m = result at hspec ⊢
  cases hspec with
  | odd => exact h.refl.cycleFailed h _
  | aborted => exact hstep.cycleFailed h _
  | internal hpa hw =>
      rw [writeInternal_unmapped (h.unmapped _ _ _ (hgrant _ hpa)) hw]
      exact (hstep.note h _).cycleOk h
  | acknowledged hpa => exact (hstep.onBus (hevent hpa)).cycleOk h
  | timeout hpa => exact (hstep.onBus (hevent hpa)).cycleFailed h _

/-! ## The processor status word -/

theorem mtpsPsw_protected {cpu : Kd11ea} (h : cpu.isKernel = false) :
    mtpsPsw cpu &&& pswProtected = cpu.psw &&& pswProtected := by
  unfold mtpsPsw
  simp only [h, Bool.false_eq_true, if_false, BitVec.and_or_distrib_right, BitVec.and_assoc]
  simp only [pswPr, pswT, pswProtected, BitVec.ofNat_eq_ofNat, BitVec.reduceAnd, BitVec.reduceNot,
    BitVec.reduceOr, BitVec.and_zero, BitVec.zero_or]
  rw [← BitVec.and_or_distrib_left]
  rfl

theorem rtiPsw_protected {cpu : Kd11ea} (h : cpu.isKernel = false) (b : Word) :
    rtiPsw cpu b &&& pswProtected = cpu.psw &&& pswProtected := by
  unfold rtiPsw
  simp only [h, Bool.false_eq_true, if_false, BitVec.and_or_distrib_right, BitVec.and_assoc]
  simp

/-- A new PSW of the same mode and priority. -/
theorem UserSafe.setPsw {m : Machine} (h : UserSafe m.cpu) {w : Word}
    (hw : w &&& pswProtected = m.cpu.psw &&& pswProtected) : UserStep m (m.setPsw w) := by
  have hprotected : w &&& pswMask &&& pswProtected = m.cpu.psw &&& pswProtected := by
    rw [BitVec.and_assoc, ← hw]
    rfl
  obtain ⟨hmode, hprev⟩ := mode_of_protected hprotected
  rw [h.mode] at hmode
  rw [h.prevMode] at hprev
  have hmmu : m.cpu.mmu.setModes (w &&& pswMask) = m.cpu.mmu := by
    refine Eq.trans ?_ h.setAccess
    have hmode' := h.mmuMode
    have hprev' := h.mmuPrevMode
    have hspace := h.space
    have hprevSpace := h.prevSpace
    unfold Kt11d.setModes
    rw [hmode, hprev]
    generalize m.cpu.mmu = mmu at *
    cases mmu
    dsimp only at hmode' hprev' hspace hprevSpace
    subst hmode' hprev' hspace hprevSpace
    rfl
  have hset : m.cpu.setPsw w = { m.cpu with psw := w &&& pswMask } := by
    simp only [Kd11ea.setPsw, hmode, h.mode, ne_eq, not_true_eq_false, if_false, hmmu]
  have hcpu : (m.setPsw w).cpu = { m.cpu with psw := w &&& pswMask } := hset
  exact {
    bus := ⟨[_], rfl, by simp [Allowed]⟩
    psw := by rw [hcpu]; exact hprotected
    par := by rw [hcpu]
    kernelPdr := fun i _ => by rw [hcpu]
    pdr := fun i => by rw [hcpu]
    enable := by rw [hcpu]
    maint := by rw [hcpu]
    kernelSp := by rw [hcpu]
    safe := by
      rw [hcpu]
      exact { h with
        mode := hmode
        prevMode := hprev }
    page := by rw [hcpu]
    notHalted := by rw [hcpu]; exact id }

/-! ## Instructions -/

theorem userRel_inPrevSpace {n : ℕ} {x : M Unit} (hx : Within (ungraded UserRel) n x) :
    Within (ungraded UserRel) n (inPrevSpace x) := by
  intro m h
  have hprev : m.mapCpu spacePrev = m := by rw [Machine.mapCpu, h.spacePrev]
  have hstep := hx m h
  rw [finalState_inPrevSpace, hprev]
  generalize finalState (x m) = t at hstep ⊢
  have hrestore : t.mapCpu spaceRestore = t := by rw [Machine.mapCpu, hstep.safe.spaceRestore]
  rwa [hrestore]

/-- A KT11-D with another restart record. -/
theorem UserSafe.restart {s t : Machine} (h : UserSafe s.cpu)
    (hmmu : ∃ mmr1 mmr2 count, t.cpu.mmu = { s.cpu.mmu with
      mmr1 := mmr1
      mmr2 := mmr2
      mmr1Count := count })
    (hcpu : t.cpu = { s.cpu with mmu := t.cpu.mmu }) (hbus : t.bus = s.bus) : UserStep s t := by
  obtain ⟨_, _, _, hmmu⟩ := hmmu
  refine h.step ?_ ⟨_, _, _, _, hmmu⟩ hbus ?_ ?_ <;> rw [hcpu]
  exact id

/-- No primitive of the instructions reaches beyond the user's part of the machine. -/
theorem instrRel_user (bus : Bus) : InstrRel bus (ungraded UserRel) where
  toGraded := userRel_graded
  quiet := by
    intro s t hquiet h
    have hpsw : t.cpu.psw = s.cpu.psw := congrArg (·.cpu.psw) hquiet.symm
    have hmmu : t.cpu.mmu = { s.cpu.mmu with destRef := t.cpu.mmu.destRef } :=
      congrArg (fun m : Machine => { m.cpu.mmu with destRef := t.cpu.mmu.destRef }) hquiet.symm
    have hbus : t.bus = s.bus := congrArg (·.bus) hquiet.symm
    have hsp : t.cpu.stackpointer = s.cpu.stackpointer :=
      congrArg (·.cpu.stackpointer) hquiet.symm
    have hstate : s.cpu.state = t.cpu.state := congrArg (·.cpu.state) hquiet
    exact h.step (by rw [hpsw]) ⟨_, _, _, _, hmmu⟩ hbus hsp hstate.trans
  codes := fun _ cc h =>
    h.step (store_protected cc _) ⟨_, _, _, _, rfl⟩ rfl rfl id
  dati := userRel_dati bus
  dato := userRel_dato bus
  prevDati := userRel_inPrevSpace (userRel_dati bus false)
  prevDato := userRel_inPrevSpace (userRel_dato bus false)
  log := by
    intro r amount m h
    refine h.restart ?_ rfl rfl
    show ∃ mmr1 mmr2 count, m.cpu.mmu.logRegister r amount = _
    unfold Kt11d.logRegister
    split <;> exact ⟨_, _, _, rfl⟩
  started := by
    intro m h
    refine h.restart ?_ rfl rfl
    show ∃ mmr1 mmr2 count, m.cpu.mmu.instructionStart = _
    unfold Kt11d.instructionStart
    split <;> exact ⟨_, _, _, rfl⟩
  fetched := by
    intro m h
    refine h.restart ?_ rfl rfl
    show ∃ mmr1 mmr2 count, m.cpu.mmu.instructionFetched (m.cpu.r 7) = _
    unfold Kt11d.instructionFetched
    split <;> exact ⟨_, _, _, rfl⟩
  mtps := fun _ h => h.setPsw (mtpsPsw_protected h.not_isKernel)
  rti := fun _ b h => h.setPsw (rtiPsw_protected h.not_isKernel b)
  prevRegister := by
    intro m df b h
    have hset : setPrevRegister df b m.cpu = m.cpu.setR df b := by
      rw [setPrevRegister, h.prevSpace, h.space, if_neg (fun hne => hne.2 rfl)]
    rw [Machine.mapCpu, hset]
    exact h.step' rfl rfl rfl rfl id
  halt := by
    intro m hkernel h
    rw [h.not_isKernel] at hkernel
    cases hkernel
  wait := fun _ h => h.step' rfl rfl rfl rfl nofun
  reset := by
    intro m hkernel h
    rw [h.not_isKernel] at hkernel
    cases hkernel

/-! ## One step -/

theorem service_isolated {m m' : Machine} (hm : UserSafe m.cpu) (h : UserStep m m')
    (inhov t : Bool) : UserStep m (service m' inhov t).machine := by
  refine h.trans hm ?_
  unfold service trapTo
  split_ifs
  · exact h.safe.step' rfl rfl rfl rfl id
  · exact h.safe.step' rfl rfl rfl rfl id
  · exact h.safe.step' rfl rfl rfl rfl id
  · exact h.safe.refl

/-- A failed reference of a user program leads to a trap, or stops the machine. -/
theorem busError_isolated {m m' : Machine} (hm : UserSafe m.cpu) (h : UserStep m m')
    (inhov : Bool) (oldpsw : Word) :
    Isolated m (busError m' inhov (some oldpsw)).machine ∧
      ((∃ m'', busError m' inhov (some oldpsw) = .inl (.doubleBusError false, m'')) ∨
        UserStep m (busError m' inhov (some oldpsw)).machine) := by
  unfold busError trapTo
  split
  · refine ⟨Isolated.trans (userMaps_congr hm.page h.safe.page h.page) h.toIsolated ?_,
      .inl ⟨_, rfl⟩⟩
    exact .of_eq rfl rfl rfl rfl rfl rfl
  · have hcodes := store_protected (CC.ofPsw oldpsw) m'.cpu.psw
    rw [CC.store_ofPsw] at hcodes
    have hstep := h.trans hm (h.safe.step (t := (m'.mapCpu fun cpu =>
      { cpu with psw := Word.setmask cpu.psw oldpsw 0o17 }).mapCpu
        (·.setR 10 m'.cpu.trapVector)) hcodes ⟨_, _, _, _, rfl⟩ rfl rfl id)
    exact ⟨hstep.toIsolated, .inr hstep⟩

theorem stepStart_isolated (bus : Bus) {m : Machine} (h : UserSafe m.cpu) :
    Isolated m (stepStart bus m).machine ∧
      ((∃ m', stepStart bus m = .inl (.doubleBusError false, m')) ∨
        UserStep m (stepStart bus m).machine ∨ m.cpu.externalIntr = true) := by
  unfold stepStart
  split
  case isTrue hintr => exact ⟨.of_eq rfl rfl rfl rfl rfl rfl, .inr (.inr hintr)⟩
  case isFalse =>
    have hfinal := (instrRel_user bus).instruction m h
    cases hres : instruction bus m with
    | ok next m' =>
        rw [hres] at hfinal
        have hstep : UserStep m m' := hfinal
        cases next with
        | service t =>
            have hservice := service_isolated h hstep false (m.cpu.psw.getLsbD 4 || t)
            exact ⟨hservice.toIsolated, .inr (.inl hservice)⟩
        | trap v =>
            have htrap := hstep.trans h
              (hstep.safe.step' (t := m'.mapCpu (·.setR 10 v)) rfl rfl rfl rfl id)
            exact ⟨htrap.toIsolated, .inr (.inl htrap)⟩
        | ret => exact ⟨hstep.toIsolated, .inr (.inl hstep)⟩
    | error _ m' =>
        rw [hres] at hfinal
        have herror := busError_isolated h hfinal false m.cpu.psw
        exact ⟨herror.1, herror.2.imp_right .inl⟩

theorem instruction_of_execute {bus : Bus} {m m' : Machine} {ir : Word} {next : Next}
    (hfetch : fetch bus m = .ok ir m') (hexec : execute bus ir m' = .ok next m') :
    instruction bus m = .ok next m' := by
  rw [instruction, bind_apply, hfetch]
  exact hexec

/-- Isolation of a user program: up to the trap sequence a step stays within the user pages,
and leaves mode, priority, address map and kernel stack pointer alone. Only a double bus error
stops the machine; `HALT` traps as a reserved instruction and `RESET` does nothing. -/
theorem user_mode_isolated (bus : Bus) (m : Machine) (hstate : UserState m.cpu)
    (hunmapped : RegistersUnmapped m.cpu.mmu) :
    Isolated m (stepStart bus m).machine ∧
      ((stepStart bus m).machine.cpu.state = .halted → m.cpu.state = .halted ∨
        ∃ m', stepStart bus m = .inl (.doubleBusError false, m')) ∧
      (∀ m', m.cpu.externalIntr = false → fetch bus m = .ok 0 m' →
        stepStart bus m = trapTo m' false 0o10) ∧
      (∀ m', m.cpu.externalIntr = false → fetch bus m = .ok 5 m' →
        stepStart bus m = service m' false (m.cpu.psw.getLsbD 4)) := by
  have h : UserSafe m.cpu := ⟨hstate, hunmapped⟩
  obtain ⟨hisolated, hstep⟩ := stepStart_isolated bus h
  have hfetched : ∀ {ir m'}, fetch bus m = .ok ir m' → m'.cpu.isKernel = false := by
    intro ir m' hfetch
    have hfinal := (instrRel_user bus).fetch m h
    rw [hfetch] at hfinal
    exact hfinal.safe.not_isKernel
  refine ⟨hisolated, fun hhalted => ?_, fun m' hintr hfetch => ?_, fun m' hintr hfetch => ?_⟩
  · rcases hstep with hdouble | hstep | hintr
    · exact .inr hdouble
    · exact .inl (hstep.notHalted hhalted)
    · have hrunning : (stepStart bus m).machine.cpu.state = .running := by
        unfold stepStart
        rw [hintr]
        rfl
      rw [hrunning] at hhalted
      cases hhalted
  · have hexec : execute bus 0 m' = .ok (.trap 0o10) m' := by
      show halt m' = _
      rw [halt, hfetched hfetch]
      rfl
    rw [stepStart, hintr, instruction_of_execute hfetch hexec]
    rfl
  · have hexec : execute bus 5 m' = .ok (.service false) m' := by
      show resetOp m' = _
      rw [resetOp, bind_apply, modify_apply, hfetched hfetch]
      rfl
    rw [stepStart, hintr, instruction_of_execute hfetch hexec]
    exact congrArg (service m' false) (Bool.or_false _)

/-- A user program with the low 8K mapped at every page, and the user pages only. -/
def userMachine : Machine :=
  { created with
    cpu := ({ created.cpu with
      state := .running
      mmu := Kt11d.rebuildAll { Kt11d.zeroed with
        mmr0 := 1
        pdr := fun i => if i < 8 then 0 else 0o77406 } } : Kd11ea).setPsw 0o170000 }

theorem userMachine_unmapped : RegistersUnmapped userMachine.cpu.mmu := by
  rintro va access pa ⟨-, hpa⟩ hreg
  have hlow : pa.toNat < 2 ^ 13 := by
    rw [hpa]
    show (0 + va.toNat % 2 ^ 13) % 2 ^ 18 < 2 ^ 13
    omega
  rcases hreg with hown | rfl | rfl
  · rw [isOwnRegister_iff] at hown
    omega
  · exact absurd hlow (by decide)
  · exact absurd hlow (by decide)

/-- `HALT` in user mode. -/
theorem user_mode_isolated_halt :
    Isolated userMachine
        (stepStart (userVectorBus fun _ => some 0) userMachine).machine ∧
      (stepStart (userVectorBus fun _ => some 0) userMachine).machine.cpu.state = .running := by
  refine ⟨(user_mode_isolated _ userMachine ?_ userMachine_unmapped).1, rfl⟩
  constructor <;> intros <;> rfl

end Kd11ea

end QUniBone
