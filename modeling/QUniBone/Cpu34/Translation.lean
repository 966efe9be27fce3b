import QUniBone.Cpu34.Kt11d

/-!
# Translation against the raw registers

The KT11-D as its register definition has it: a reference is judged by the PAR and PDR of its
page and by MMR0, with no derived state in between. `Translates` states that reference, and
`relocate` is shown to meet it whenever the derived state is what `kt11d_rebuild` makes of the
registers, which is `Derived`.

* `Derived`: the coherency contract of `page[]`, `enabled`, `frozen` and `maint`.
* `Reference.violations`: everything that is wrong with a reference.
* `relocate_cases`: the four ways a translation can go.
-/

namespace QUniBone.Kt11d

/-- The derived state agrees with the registers and with the access mode. -/
structure Derived (mmu : Kt11d) : Prop where
  page : ∀ i, mmu.page i = descriptor (mmu.par i) (mmu.pdr i) i
  enabled : mmu.enabled = (mmu.mmr0 &&& mmr0Enable != 0)
  frozen : mmu.frozen = (mmu.mmr0 &&& mmr0Aborts != 0)
  maint : mmu.maint = (mmu.mmr0 &&& mmr0Maint != 0)
  accessSpace : mmu.accessSpace = mmu.accessMode.space
  accessIllegal : mmu.accessIllegal = mmu.accessMode.illegal

/-! ## The reference -/

namespace Reference

/-- `MMR0<0>`, or `MMR0<8>` for a reference to the destination operand. -/
def relocationOn (mmr0 : Word) (destRef : Bool) : Prop :=
  mmr0.getLsbD 0 = true ∨ (mmr0.getLsbD 8 = true ∧ destRef = true)

/-- The 18 bit address of an unrelocated reference: the top 8K is the IO page. -/
def widened (va : Word) : ℕ :=
  if va.toNat < 0o160000 then va.toNat else va.toNat + 0o600000

/-- The PAR/PDR pair of a virtual address: eight pages a mode, the kernel's first. -/
def pairIdx (mode : Mode) (va : Word) : ℕ :=
  (if mode = Mode.kernel then 0 else 8) + va.toNat / 2 ^ 13

/-- `((PAF<<6) + va<12:0>) mod 2^18`. -/
def physical (par va : Word) : ℕ :=
  (par.toNat % 2 ^ 12 * 2 ^ 6 + va.toNat % 2 ^ 13) % 2 ^ 18

/-- The block number `va<12:6>` lies in `[0,PLF]`, respectively `[PLF,127]`. -/
def inSegment (pdr va : Word) : Prop :=
  let blk := va.toNat % 2 ^ 13 / 2 ^ 6
  if pdr.getLsbD 3 then (plf pdr).toNat ≤ blk ∧ blk ≤ 127 else blk ≤ (plf pdr).toNat

instance (pdr va : Word) : Decidable (inSegment pdr va) := by
  unfold inSegment
  infer_instance

/-- The mode is kernel or user. -/
def modeExists (mode : Mode) : Prop := mode = Mode.kernel ∨ mode = Mode.user

instance (mode : Mode) : Decidable (modeExists mode) := by
  unfold modeExists
  infer_instance

/-- ACF 11 permits everything, ACF 01 permits reading. -/
def acfPermits (pdr : Word) (access : Access) : Prop :=
  acf pdr = acfReadwrite ∨ (acf pdr = acfReadonly ∧ access = .read)

/-- The reference is permitted. -/
def Permitted (mode : Mode) (pdr va : Word) (access : Access) : Prop :=
  modeExists mode ∧ acfPermits pdr access ∧ inSegment pdr va

/-- The conditions `MMR0<15:13>` names. -/
structure Violations where
  nonresident : Bool
  length : Bool
  readonly : Bool

/-- What is wrong with a reference. A nonexistent mode has no pages, so it violates residency
and there is no page whose length or access it could violate. -/
def violations (mode : Mode) (pdr va : Word) (access : Access) : Violations :=
  if modeExists mode then
    { nonresident := acf pdr = acfNonresident ∨ acf pdr = acfUnused
      length := ¬inSegment pdr va
      readonly := acf pdr = acfReadonly ∧ access = .write }
  else { nonresident := true, length := false, readonly := false }

/-- `MMR0<15:13>` names these violations and no others. -/
def Names (mmr0 : Word) (v : Violations) : Prop :=
  mmr0.getLsbD 15 = v.nonresident ∧ mmr0.getLsbD 14 = v.length ∧ mmr0.getLsbD 13 = v.readonly

instance (mmr0 : Word) (v : Violations) : Decidable (Names mmr0 v) := by
  unfold Names
  infer_instance

end Reference

open Reference in
/-- `mmu'` and `result` are what the registers of `mmu` make of a reference. -/
structure Translates (mmu : Kt11d) (va : Word) (access : Access) (mmu' : Kt11d)
    (result : Option UInt) : Prop where
  /-- Relocation off: the address is widened and nothing changes. -/
  off : ¬relocationOn mmu.mmr0 mmu.destRef →
    mmu' = mmu ∧ result.map BitVec.toNat = some (widened va)
  /-- Relocation on: the reference succeeds iff it is permitted. -/
  succeeds : relocationOn mmu.mmr0 mmu.destRef → ∀ idx : RegIdx,
    idx.val = pairIdx mmu.accessMode va →
      (result.isSome ↔ Permitted mmu.accessMode (mmu.pdr idx) va access)
  /-- On success the page frame is added, and `W` of the page used tells of a write. -/
  granted : relocationOn mmu.mmr0 mmu.destRef → ∀ pa, result = some pa → ∀ idx : RegIdx,
    idx.val = pairIdx mmu.accessMode va →
      pa.toNat = physical (mmu.par idx) va ∧
      mmu'.pdr =
        if access = .write ∧ ¬isOwnRegister pa then
          Function.update mmu.pdr idx (mmu.pdr idx ||| pdrW)
        else mmu.pdr
  /-- On refusal `MMR0<15:13>` names what is wrong, unless an earlier abort froze it. -/
  refused : result = none → mmu'.pdr = mmu.pdr ∧ ∀ idx : RegIdx,
    idx.val = pairIdx mmu.accessMode va →
      if mmu.frozen then mmu'.mmr0 = mmu.mmr0
      else Names mmu'.mmr0 (violations mmu.accessMode (mmu.pdr idx) va access)
  /-- `MMR0<6:5>` and `MMR0<3:1>` hold mode and page of the reference, unless frozen. -/
  modePage : relocationOn mmu.mmr0 mmu.destRef →
    if mmu.frozen then mmu'.mmr0 = mmu.mmr0
    else mmu'.mmr0.extractLsb' 5 2 = mmu.accessMode ∧
      (mmu'.mmr0.extractLsb' 1 3).toNat = va.toNat / 2 ^ 13
  /-- The PAR never change. -/
  par : mmu'.par = mmu.par

/-! ## Fields of an address -/

theorem toNat_pageOf (va : Word) : (pageOf va).toNat = va.toNat / 2 ^ 13 := by
  have := va.isLt
  simp only [pageOf, BitVec.extractLsb'_toNat, Nat.shiftRight_eq_div_pow]
  omega

theorem toNat_blockOf (va : Word) : (Page.blockOf va).toNat = va.toNat % 2 ^ 13 / 2 ^ 6 := by
  have := va.isLt
  simp only [Page.blockOf, BitVec.extractLsb'_toNat, Nat.shiftRight_eq_div_pow]
  omega

/-- The page number is the index modulo 8, in either space. -/
theorem pageIdx_mod (space : Space) (va : Word) :
    (pageIdx space va).val % 8 = va.toNat / 2 ^ 13 := by
  have := va.isLt
  cases space <;> simp only [pageIdx, toNat_pageOf] <;> omega

theorem pageIdx_val (mode : Mode) (va : Word) :
    (pageIdx mode.space va).val = Reference.pairIdx mode va := by
  unfold Mode.space Reference.pairIdx
  split
  · simp only [pageIdx, toNat_pageOf, Nat.zero_add]
  · simp only [pageIdx, toNat_pageOf]

theorem eq_pageIdx {mode : Mode} {va : Word} {idx : RegIdx}
    (h : idx.val = Reference.pairIdx mode va) : idx = pageIdx mode.space va :=
  Fin.ext (h.trans (pageIdx_val mode va).symm)

theorem toNat_and_mask18 (x : UInt) : (x &&& 0o777777).toNat = x.toNat % 2 ^ 18 := by
  rw [BitVec.toNat_and]
  exact Nat.and_two_pow_sub_one_eq_mod x.toNat 18

theorem toNat_paf (par : Word) : (par &&& parWritable).toNat = par.toNat % 2 ^ 12 := by
  rw [BitVec.toNat_and]
  exact Nat.and_two_pow_sub_one_eq_mod par.toNat 12

theorem and_pdrEd (pdr : Word) : pdr &&& pdrEd ≠ 0 ↔ pdr.getLsbD 3 = true := by
  rw [← Word.and_twoPow_bne pdr (show 3 < 16 by omega), bne_iff_ne]
  rfl

/-! ## The precomputed descriptor -/

/-- The base wraps around below the page number, and the mask takes that back. -/
theorem descriptor_base (par pdr va : Word) (space : Space) :
    (((descriptor par pdr (pageIdx space va)).base + va.setWidth 32) &&& 0o777777).toNat
      = Reference.physical par va := by
  have hva := va.isLt
  have hpaf : ((par &&& parWritable).setWidth 32 <<< 6).toNat
      = par.toNat % 2 ^ 12 * 2 ^ 6 := by
    simp only [BitVec.toNat_shiftLeft, BitVec.toNat_setWidth, toNat_paf, Nat.shiftLeft_eq]
    omega
  have hpage : (BitVec.ofNat 32 (va.toNat / 2 ^ 13) <<< 13).toNat
      = va.toNat / 2 ^ 13 * 2 ^ 13 := by
    simp only [BitVec.toNat_shiftLeft, BitVec.toNat_ofNat, Nat.shiftLeft_eq]
    omega
  simp only [descriptor, toNat_and_mask18, BitVec.toNat_add, BitVec.toNat_sub, pageIdx_mod,
    hpaf, hpage, BitVec.toNat_setWidth, Reference.physical]
  omega

/-- One unsigned compare covers both expansion directions. -/
theorem descriptor_outside (par pdr va : Word) (idx : RegIdx) :
    (descriptor par pdr idx).outside va = false ↔ Reference.inSegment pdr va := by
  have hblk : (Page.blockOf va).toNat ≤ 127 := by have := (Page.blockOf va).isLt; omega
  have hplf : (plf pdr).toNat ≤ 127 := by have := (plf pdr).isLt; omega
  simp only [Page.outside, Reference.inSegment, ← toNat_blockOf, descriptor, and_pdrEd,
    decide_eq_false_iff_not, BitVec.lt_def]
  split
  · -- expands downward: `blk - plf` wraps around below the segment
    simp only [BitVec.toNat_sub, BitVec.toNat_setWidth, BitVec.reduceToNat]
    omega
  · simp only [BitVec.toNat_sub, BitVec.toNat_setWidth, BitVec.reduceToNat]
    omega

theorem descriptor_deny (par pdr : Word) (idx : RegIdx) (access : Access) :
    (descriptor par pdr idx).deny &&& access.mask = 0 ↔ Reference.acfPermits pdr access := by
  unfold Reference.acfPermits descriptor
  dsimp only
  generalize acf pdr = field
  revert field
  cases access <;> decide

/-- The descriptor does not depend on the `W` bit. -/
theorem descriptor_congr {par pdr pdr' : Word} {idx : RegIdx} (hacf : acf pdr' = acf pdr)
    (hplf : plf pdr' = plf pdr) (hed : pdr'.getLsbD 3 = pdr.getLsbD 3) :
    descriptor par pdr' idx = descriptor par pdr idx := by
  simp only [descriptor, and_pdrEd, hacf, hplf, hed]

theorem descriptor_setWritten (par pdr : Word) (idx : RegIdx) :
    descriptor par (pdr ||| pdrW) idx = descriptor par pdr idx := by
  apply descriptor_congr
  · ext i hi
    interval_cases i <;> simp [acf]
  · ext i hi
    interval_cases i <;> simp [plf]
  · simp

/-! ## MMR0 -/

/-- Loading mode and page replaces `MMR0<6:5>` and `MMR0<3:1>`; `bits` are the abort bits
loaded with them. -/
def loaded (mmr0 bits : Word) (mode : Mode) (va : Word) : Word :=
  (mmr0 &&& ~~~mmr0ModePage) ||| bits ||| modePage mode va

theorem modePage_getLsbD (mode : Mode) (va : Word) {i : ℕ}
    (hi : mmr0ModePage.getLsbD i = false) : (modePage mode va).getLsbD i = false := by
  by_cases hlt : i < 16
  · interval_cases i <;> first
      | exact absurd hi (by decide)
      | simp [modePage, pageOf]
  · exact BitVec.getLsbD_of_ge _ _ (by omega)

/-- Outside the two fields only the abort bits are added. -/
theorem loaded_getLsbD (mmr0 bits : Word) (mode : Mode) (va : Word) {i : ℕ} (hlt : i < 16)
    (hi : mmr0ModePage.getLsbD i = false) :
    (loaded mmr0 bits mode va).getLsbD i = (mmr0.getLsbD i || bits.getLsbD i) := by
  simp only [loaded, BitVec.getLsbD_or, BitVec.getLsbD_and, BitVec.getLsbD_not, hi,
    modePage_getLsbD mode va hi, hlt, decide_true, Bool.not_false, Bool.and_true,
    Bool.or_false]

theorem loaded_mode (mmr0 : Word) {bits : Word} (mode : Mode) (va : Word)
    (hbits : bits &&& mmr0ModePage = 0) :
    (loaded mmr0 bits mode va).extractLsb' 5 2 = mode := by
  have h5 := Word.getLsbD_of_disjoint (i := 5) hbits rfl
  have h6 := Word.getLsbD_of_disjoint (i := 6) hbits rfl
  ext i hi
  interval_cases i <;> simp_all [loaded, modePage, pageOf]

theorem loaded_page (mmr0 : Word) {bits : Word} (mode : Mode) (va : Word)
    (hbits : bits &&& mmr0ModePage = 0) :
    (loaded mmr0 bits mode va).extractLsb' 1 3 = pageOf va := by
  have h1 := Word.getLsbD_of_disjoint (i := 1) hbits rfl
  have h2 := Word.getLsbD_of_disjoint (i := 2) hbits rfl
  have h3 := Word.getLsbD_of_disjoint (i := 3) hbits rfl
  ext i hi
  interval_cases i <;> simp_all [loaded, modePage, pageOf]

/-- Loading twice is loading once, with the abort bits of both. -/
theorem loaded_loaded (mmr0 bits : Word) (mode : Mode) (va : Word)
    (hbits : bits &&& mmr0ModePage = 0) :
    loaded (loaded mmr0 0 mode va) bits mode va = loaded mmr0 bits mode va := by
  apply BitVec.eq_of_getLsbD_eq
  intro i hi
  cases hm : mmr0ModePage.getLsbD i with
  | false =>
      simp only [loaded_getLsbD _ _ _ _ hi hm, BitVec.ofNat_eq_ofNat, BitVec.getLsbD_zero,
        Bool.or_false]
  | true =>
      have hb := Word.getLsbD_of_disjoint hbits hm
      simp only [loaded, BitVec.getLsbD_or, BitVec.getLsbD_and, BitVec.getLsbD_not, hm, hb,
        Bool.not_true, Bool.and_false, Bool.false_or]

theorem abortBits_disjoint (mmu : Kt11d) (va : Word) (idx : RegIdx) (access : Access) :
    abortBits mmu va idx access &&& mmr0ModePage = 0 := by
  unfold abortBits
  split_ifs <;> decide

/-! ## The four ways of a translation -/

/-- The page refuses the reference: its access is denied, or the block is outside. -/
def refuses (mmu : Kt11d) (va : Word) (space : Space) (access : Access) : Prop :=
  (mmu.page (pageIdx space va)).deny &&& access.mask ≠ 0 ∨
    (mmu.page (pageIdx space va)).outside va = true

/-- The physical address the descriptor of the page gives. -/
def physicalOf (mmu : Kt11d) (va : Word) (space : Space) : UInt :=
  ((mmu.page (pageIdx space va)).base + va.setWidth 32) &&& 0o777777

/-- Relocation is off, the mode does not exist, the page refuses, or the page grants. -/
theorem relocate_cases (mmu : Kt11d) (va : Word) (space : Space) (access : Access) :
    (mmu.relocates = false ∧
      mmu.relocate va space access = (mmu, some (unrelocated va))) ∨
    (mmu.relocates = true ∧ mmu.accessIllegal = true ∧
      mmu.relocate va space access = (mmu.abortMode va, none)) ∨
    (mmu.relocates = true ∧ mmu.accessIllegal = false ∧ mmu.refuses va space access ∧
      mmu.relocate va space access = ((mmu.loadModePage va).abort va space access, none)) ∨
    (mmu.relocates = true ∧ mmu.accessIllegal = false ∧ ¬mmu.refuses va space access ∧
      mmu.relocate va space access =
        ((mmu.loadModePage va).noteWrite (mmu.page (pageIdx space va)).pdrIdx access
          (mmu.physicalOf va space), some (mmu.physicalOf va space))) := by
  have hpage : (mmu.loadModePage va).page = mmu.page := by
    unfold loadModePage
    split <;> rfl
  cases hon : mmu.relocates with
  | false => exact .inl ⟨rfl, by simp [relocate, hon]⟩
  | true =>
      cases hill : mmu.accessIllegal with
      | true => exact .inr (.inl ⟨rfl, rfl, by simp [relocate, hon, hill]⟩)
      | false =>
          by_cases hdeny : (mmu.page (pageIdx space va)).deny &&& access.mask = 0
          · cases hout : (mmu.page (pageIdx space va)).outside va with
            | true =>
                refine .inr (.inr (.inl ⟨rfl, rfl, .inr hout, ?_⟩))
                simp [relocate, hon, hill, hpage, hdeny, hout]
            | false =>
                refine .inr (.inr (.inr ⟨rfl, rfl, ?_, ?_⟩))
                · simp [refuses, hdeny, hout]
                · simp [relocate, hon, hill, hpage, hdeny, hout, physicalOf]
          · refine .inr (.inr (.inl ⟨rfl, rfl, .inl hdeny, ?_⟩))
            rw [relocate]
            simp only [hon, hill, hpage, ne_eq, hdeny, Bool.not_true, Bool.false_eq_true,
              if_false, not_false_eq_true, if_true]

theorem relocate_off {mmu : Kt11d} (hoff : mmu.relocates = false) (va : Word) (space : Space)
    (access : Access) : mmu.relocate va space access = (mmu, some (unrelocated va)) := by
  simp [relocate, hoff]

/-- A translation touches MMR0, the freeze and the `W` bits, and nothing else. -/
theorem relocate_frame (mmu : Kt11d) (va : Word) (space : Space) (access : Access) :
    ∃ mmr0 frozen pdr, (mmu.relocate va space access).1 = { mmu with
      mmr0 := mmr0
      frozen := frozen
      pdr := pdr } := by
  have hload : ∃ mmr0, mmu.loadModePage va = { mmu with mmr0 := mmr0 } := by
    unfold loadModePage
    split <;> exact ⟨_, rfl⟩
  obtain ⟨w, hw⟩ := hload
  rcases mmu.relocate_cases va space access with
    ⟨-, h⟩ | ⟨-, -, h⟩ | ⟨-, -, -, h⟩ | ⟨-, -, -, h⟩ <;> rw [h]
  · exact ⟨_, _, _, rfl⟩
  · unfold abortMode
    split <;> exact ⟨_, _, _, rfl⟩
  · rw [hw]
    unfold abort
    split <;> exact ⟨_, _, _, rfl⟩
  · rw [hw]
    unfold noteWrite
    split <;> exact ⟨_, _, _, rfl⟩

/-- A translation sets at most the `W` bit of the page it went through. -/
theorem relocate_pdr (mmu : Kt11d) (va : Word) (space : Space) (access : Access) :
    (mmu.relocate va space access).1.pdr = mmu.pdr ∨
      access = .write ∧ (mmu.relocate va space access).1.pdr =
        Function.update mmu.pdr (mmu.page (pageIdx space va)).pdrIdx
          (mmu.pdr (mmu.page (pageIdx space va)).pdrIdx ||| pdrW) := by
  have hload : (mmu.loadModePage va).pdr = mmu.pdr := by
    unfold loadModePage
    split <;> rfl
  rcases mmu.relocate_cases va space access with
    ⟨-, h⟩ | ⟨-, -, h⟩ | ⟨-, -, -, h⟩ | ⟨-, -, -, h⟩ <;> rw [h]
  · exact .inl rfl
  · refine .inl ?_
    unfold abortMode
    split <;> rfl
  · refine .inl ?_
    unfold abort
    split <;> exact hload
  · unfold noteWrite
    split
    case isTrue hwrite => exact .inr ⟨hwrite.1, by rw [hload]⟩
    case isFalse => exact .inl hload

/-- A frozen MMR0 stays as it is. -/
theorem relocate_frozen {mmu : Kt11d} (hfrozen : mmu.frozen = true) (va : Word) (space : Space)
    (access : Access) :
    (mmu.relocate va space access).1.mmr0 = mmu.mmr0 ∧
      (mmu.relocate va space access).1.frozen = true := by
  have hload : mmu.loadModePage va = mmu := by simp [loadModePage, hfrozen]
  rcases mmu.relocate_cases va space access with
    ⟨-, h⟩ | ⟨-, -, h⟩ | ⟨-, -, -, h⟩ | ⟨-, -, -, h⟩ <;> rw [h]
  · exact ⟨rfl, hfrozen⟩
  · simp [abortMode, hfrozen]
  · simp [hload, abort, hfrozen]
  · rw [hload]
    unfold noteWrite
    split <;> exact ⟨rfl, hfrozen⟩

/-- The abort bits a refused reference of an unfrozen unit loads. -/
def causeBits (mmu : Kt11d) (va : Word) (space : Space) (access : Access) : Word :=
  if mmu.accessIllegal then mmr0AbortNonresident
  else abortBits mmu va (pageIdx space va) access

theorem causeBits_disjoint (mmu : Kt11d) (va : Word) (space : Space) (access : Access) :
    causeBits mmu va space access &&& mmr0ModePage = 0 := by
  unfold causeBits
  split
  · rfl
  · exact abortBits_disjoint ..

/-- A refused reference of an unfrozen unit loads the abort bits and freezes. -/
theorem relocate_refused {mmu : Kt11d} (hfrozen : mmu.frozen = false) {va : Word}
    {space : Space} {access : Access} (hnone : (mmu.relocate va space access).2 = none) :
    mmu.relocates = true ∧ (mmu.relocate va space access).1 = { mmu with
      mmr0 := loaded mmu.mmr0 (causeBits mmu va space access) mmu.accessMode va
      frozen := true } := by
  rcases mmu.relocate_cases va space access with
    ⟨-, h⟩ | ⟨hon, hill, h⟩ | ⟨hon, hill, -, h⟩ | ⟨-, -, -, h⟩
  · rw [h] at hnone
    cases hnone
  · refine ⟨hon, ?_⟩
    rw [h]
    simp [abortMode, hfrozen, causeBits, hill, loaded]
  · refine ⟨hon, ?_⟩
    have hload : mmu.loadModePage va =
        { mmu with mmr0 := loaded mmu.mmr0 0 mmu.accessMode va } := by
      simp [loadModePage, hfrozen, loaded]
    have hbits := loaded_loaded mmu.mmr0 _ mmu.accessMode va
      (abortBits_disjoint mmu va (pageIdx space va) access)
    rw [h, hload]
    simp only [abort, hfrozen, Bool.false_eq_true, if_false, causeBits, hill, ← hbits]
    rfl
  · rw [h] at hnone
    cases hnone

/-- A granted reference of an unfrozen unit loads mode and page and notes a write. -/
theorem relocate_granted {mmu : Kt11d} (hon : mmu.relocates = true) {va : Word} {space : Space}
    {access : Access} {pa : UInt} (hsome : (mmu.relocate va space access).2 = some pa) :
    mmu.accessIllegal = false ∧ ¬mmu.refuses va space access ∧ pa = mmu.physicalOf va space ∧
      (mmu.relocate va space access).1 =
        (mmu.loadModePage va).noteWrite (mmu.page (pageIdx space va)).pdrIdx access pa := by
  rcases mmu.relocate_cases va space access with
    ⟨hoff, h⟩ | ⟨-, -, h⟩ | ⟨-, -, -, h⟩ | ⟨-, hill, hok, h⟩ <;> rw [h] at hsome
  · rw [hon] at hoff
    cases hoff
  · cases hsome
  · cases hsome
  · cases hsome
    exact ⟨hill, hok, rfl, by rw [h]⟩

/-- What a relocated reference of an unfrozen unit leaves in MMR0: the abort bits are those of
a refusal, if there is one. -/
theorem relocate_mmr0 {mmu : Kt11d} (hfrozen : mmu.frozen = false) (hon : mmu.relocates = true)
    (va : Word) (space : Space) (access : Access) :
    ∃ bits, (mmu.relocate va space access).1.mmr0 = loaded mmu.mmr0 bits mmu.accessMode va ∧
      ((mmu.relocate va space access).2 = none ∧
          (mmu.relocate va space access).1.frozen = true ∧
          bits = causeBits mmu va space access ∨
        (mmu.relocate va space access).2.isSome ∧
          (mmu.relocate va space access).1.frozen = false ∧ bits = 0) := by
  cases hres : (mmu.relocate va space access).2 with
  | none =>
      obtain ⟨-, hmmu⟩ := relocate_refused hfrozen hres
      exact ⟨_, by rw [hmmu], .inl ⟨rfl, by rw [hmmu], rfl⟩⟩
  | some pa =>
      obtain ⟨-, -, -, hmmu⟩ := relocate_granted hon hres
      refine ⟨0, ?_, .inr ⟨rfl, ?_, rfl⟩⟩ <;> rw [hmmu] <;> unfold noteWrite
      · split <;> simp [loadModePage, hfrozen, loaded]
      · split <;> simp [loadModePage, hfrozen]

theorem relocate_isSome {mmu : Kt11d} (hon : mmu.relocates = true) (va : Word) (space : Space)
    (access : Access) :
    (mmu.relocate va space access).2.isSome ↔
      mmu.accessIllegal = false ∧ ¬mmu.refuses va space access := by
  rcases mmu.relocate_cases va space access with
    ⟨hoff, h⟩ | ⟨-, hill, h⟩ | ⟨-, -, hno, h⟩ | ⟨-, hill, hok, h⟩ <;> rw [h]
  · rw [hon] at hoff
    cases hoff
  · simp [hill]
  · simp [hno]
  · simp [hill, hok]

/-! ## Derived state and registers -/

section

variable {mmu : Kt11d} (hpage : ∀ i, mmu.page i = descriptor (mmu.par i) (mmu.pdr i) i)
include hpage

/-- A derived descriptor grants what the ACF and the segment of the PDR grant. -/
theorem refuses_iff_of_page (va : Word) (space : Space) (access : Access) :
    ¬mmu.refuses va space access ↔
      Reference.acfPermits (mmu.pdr (pageIdx space va)) access ∧
        Reference.inSegment (mmu.pdr (pageIdx space va)) va := by
  let idx := pageIdx space va
  rw [refuses, hpage, ← descriptor_outside (mmu.par idx) _ _ idx,
    ← descriptor_deny (mmu.par idx) _ idx]
  simp only [ne_eq, not_or, not_not, Bool.not_eq_true, idx]

/-- A derived descriptor adds the page frame of the PAR. -/
theorem toNat_physicalOf (va : Word) (space : Space) :
    (mmu.physicalOf va space).toNat = Reference.physical (mmu.par (pageIdx space va)) va := by
  rw [physicalOf, hpage]
  exact descriptor_base ..

end

namespace Derived

variable {mmu : Kt11d}

theorem relocates_iff (h : Derived mmu) :
    mmu.relocates = true ↔ Reference.relocationOn mmu.mmr0 mmu.destRef := by
  have henabled : mmu.enabled = mmu.mmr0.getLsbD 0 := by
    rw [h.enabled]
    exact Word.and_twoPow_bne mmu.mmr0 (i := 0) (by omega)
  have hmaint : mmu.maint = mmu.mmr0.getLsbD 8 := by
    rw [h.maint]
    exact Word.and_twoPow_bne mmu.mmr0 (i := 8) (by omega)
  simp only [relocates, Reference.relocationOn, henabled, hmaint, Bool.or_eq_true,
    Bool.and_eq_true]

theorem modeExists_iff (h : Derived mmu) :
    mmu.accessIllegal = false ↔ Reference.modeExists mmu.accessMode := by
  rw [h.accessIllegal]
  generalize mmu.accessMode = mode
  revert mode
  decide

theorem refuses_iff (h : Derived mmu) (va : Word) (access : Access) :
    ¬mmu.refuses va mmu.accessSpace access ↔
      Reference.acfPermits (mmu.pdr (pageIdx mmu.accessSpace va)) access ∧
        Reference.inSegment (mmu.pdr (pageIdx mmu.accessSpace va)) va :=
  refuses_iff_of_page h.page va mmu.accessSpace access

theorem not_frozen_aborts (h : Derived mmu) (hfrozen : mmu.frozen = false) :
    mmu.mmr0 &&& mmr0Aborts = 0 := by
  have := h.frozen
  rw [hfrozen] at this
  simpa using this.symm

end Derived

/-- The abort bits name the violations of the reference, all of them and no others. -/
theorem names_loaded {mmu : Kt11d} (h : Derived mmu) (hfrozen : mmu.frozen = false) (va : Word)
    (access : Access) :
    Reference.Names
      (loaded mmu.mmr0 (causeBits mmu va mmu.accessSpace access) mmu.accessMode va)
      (Reference.violations mmu.accessMode (mmu.pdr (pageIdx mmu.accessSpace va)) va access) := by
  have hclear := h.not_frozen_aborts hfrozen
  have hbit : ∀ i, mmr0Aborts.getLsbD i = true → i < 16 → mmr0ModePage.getLsbD i = false →
      (loaded mmu.mmr0 (causeBits mmu va mmu.accessSpace access) mmu.accessMode va).getLsbD i
        = (causeBits mmu va mmu.accessSpace access).getLsbD i := by
    intro i hi hlt hm
    rw [loaded_getLsbD _ _ _ _ hlt hm, Word.getLsbD_of_disjoint hclear hi, Bool.false_or]
  have hmode := h.modeExists_iff
  rw [Reference.Names, hbit 15 rfl (by omega) rfl, hbit 14 rfl (by omega) rfl,
    hbit 13 rfl (by omega) rfl]
  unfold causeBits Reference.violations
  cases hill : mmu.accessIllegal with
  | true =>
      have hno : ¬Reference.modeExists mmu.accessMode := by
        rw [← hmode, hill]
        decide
      simp only [if_true, if_neg hno]
      decide
  | false =>
      rw [if_pos (hmode.mp hill), if_neg Bool.false_ne_true]
      have hout := descriptor_outside (mmu.par (pageIdx mmu.accessSpace va))
        (mmu.pdr (pageIdx mmu.accessSpace va)) va (pageIdx mmu.accessSpace va)
      rw [← h.page] at hout
      unfold abortBits
      generalize acf (mmu.pdr (pageIdx mmu.accessSpace va)) = field
      by_cases hseg : Reference.inSegment (mmu.pdr (pageIdx mmu.accessSpace va)) va
      · simp only [hout.mpr hseg, hseg, not_true_eq_false, decide_false]
        revert field
        cases access <;> decide
      · have hlen : (mmu.page (pageIdx mmu.accessSpace va)).outside va = true := by
          rw [← hout] at hseg
          simpa using hseg
        simp only [hlen, hseg, not_false_eq_true, decide_true]
        revert field
        cases access <;> decide

theorem toNat_unrelocated (va : Word) : (unrelocated va).toNat = Reference.widened va := by
  have hva := va.isLt
  have hand : (va &&& (0o160000 : Word)).toNat = va.toNat / 2 ^ 13 * 2 ^ 13 := by
    have hmask : va &&& (0o160000 : Word) = (va >>> 13) <<< 13 := by
      ext i hi
      interval_cases i <;> simp
    rw [hmask, BitVec.toNat_shiftLeft, BitVec.toNat_ushiftRight, Nat.shiftLeft_eq,
      Nat.shiftRight_eq_div_pow]
    omega
  have htop : va &&& 0o160000 = 0o160000 ↔ ¬va.toNat < 0o160000 := by
    rw [← BitVec.toNat_inj, hand]
    simp only [BitVec.reduceToNat]
    omega
  unfold unrelocated Reference.widened
  by_cases hlt : va.toNat < 0o160000
  · rw [if_neg (by rw [htop]; exact fun h => h hlt), if_pos hlt, BitVec.toNat_setWidth]
    omega
  · have hdisjoint : va.setWidth 32 &&& 0o600000 = 0 := by
      ext i hi
      by_cases hi16 : i < 16
      · interval_cases i <;> simp
      · simp [BitVec.getLsbD_of_ge va i (by omega)]
    rw [if_pos (htop.mpr hlt), if_neg hlt, ← BitVec.add_eq_or_of_and_eq_zero _ _ hdisjoint,
      BitVec.toNat_add, BitVec.toNat_setWidth]
    simp only [BitVec.reduceToNat]
    omega

/-! ## Refinement -/

/-- The cached translation is the translation of the registers. -/
theorem relocate_translates (mmu : Kt11d) (hderived : Derived mmu) (va : Word)
    (access : Access) :
    Translates mmu va access (mmu.relocate va mmu.accessSpace access).1
      (mmu.relocate va mmu.accessSpace access).2 := by
  have hidx : ∀ {idx : RegIdx}, idx.val = Reference.pairIdx mmu.accessMode va →
      idx = pageIdx mmu.accessSpace va := by
    intro idx h
    rw [hderived.accessSpace]
    exact eq_pageIdx h
  constructor
  case off =>
    intro hoff
    have hfalse : mmu.relocates = false := by
      rw [← hderived.relocates_iff] at hoff
      simpa using hoff
    rw [relocate_off hfalse, Option.map_some, toNat_unrelocated]
    exact ⟨rfl, rfl⟩
  case succeeds =>
    intro hon idx h
    rw [hidx h, relocate_isSome (hderived.relocates_iff.mpr hon), hderived.modeExists_iff,
      hderived.refuses_iff]
    rfl
  case granted =>
    intro hon pa hsome idx h
    obtain ⟨-, -, hpa, hmmu⟩ := relocate_granted (hderived.relocates_iff.mpr hon) hsome
    have hload : (mmu.loadModePage va).pdr = mmu.pdr := by
      unfold loadModePage
      split <;> rfl
    have hpdrIdx : (mmu.page (pageIdx mmu.accessSpace va)).pdrIdx
        = pageIdx mmu.accessSpace va := by
      rw [hderived.page]
      rfl
    rw [hidx h]
    constructor
    · rw [hpa]
      exact toNat_physicalOf hderived.page va mmu.accessSpace
    · rw [hmmu, hpdrIdx, noteWrite, hload]
      split
      · rfl
      · exact hload
  case refused =>
    intro hnone
    cases hfrozen : mmu.frozen with
    | true =>
        refine ⟨?_, fun idx _ => by
          rw [if_pos rfl]
          exact (relocate_frozen hfrozen va mmu.accessSpace access).1⟩
        have hload : mmu.loadModePage va = mmu := by simp [loadModePage, hfrozen]
        rcases mmu.relocate_cases va mmu.accessSpace access with
          ⟨-, h⟩ | ⟨-, -, h⟩ | ⟨-, -, -, h⟩ | ⟨-, -, -, h⟩ <;> rw [h] at hnone ⊢
        · simp [abortMode, hfrozen]
        · simp [hload, abort, hfrozen]
        · cases hnone
    | false =>
        obtain ⟨-, hmmu⟩ := relocate_refused hfrozen hnone
        rw [hmmu]
        refine ⟨rfl, fun idx h => ?_⟩
        rw [if_neg Bool.false_ne_true, hidx h]
        exact names_loaded hderived hfrozen va access
  case modePage =>
    intro hon
    cases hfrozen : mmu.frozen with
    | true =>
        rw [if_pos rfl]
        exact (relocate_frozen hfrozen va mmu.accessSpace access).1
    | false =>
        obtain ⟨bits, hmmr0, hbits⟩ := relocate_mmr0 hfrozen
          (hderived.relocates_iff.mpr hon) va mmu.accessSpace access
        have hbits : bits &&& mmr0ModePage = 0 := by
          rcases hbits with ⟨-, -, rfl⟩ | ⟨-, -, rfl⟩
          · exact causeBits_disjoint ..
          · rfl
        rw [if_neg Bool.false_ne_true, hmmr0, loaded_mode _ _ _ hbits, loaded_page _ _ _ hbits,
          toNat_pageOf]
        exact ⟨rfl, rfl⟩
  case par =>
    obtain ⟨_, _, _, h⟩ := mmu.relocate_frame va mmu.accessSpace access
    rw [h]

/-- Relocation on, an abort of a nonresident page recorded, and kernel page 0 read only. -/
def frozenReadonly : Kt11d :=
  rebuildAll { reset with
    mmr0 := 0o100001
    pdr := fun i => if i = 0 then 0o077402 else 0 }

theorem derived_frozenReadonly : Derived frozenReadonly where
  page := fun _ => rfl
  enabled := rfl
  frozen := rfl
  maint := rfl
  accessSpace := rfl
  accessIllegal := rfl

/-- Reading through the page is granted while MMR0 keeps the earlier abort. -/
theorem relocate_translates_frozenReadonly :
    Translates frozenReadonly 0o1234 .read
      (frozenReadonly.relocate 0o1234 frozenReadonly.accessSpace .read).1
      (frozenReadonly.relocate 0o1234 frozenReadonly.accessSpace .read).2 :=
  relocate_translates frozenReadonly derived_frozenReadonly 0o1234 .read

/-- A refusal which finds MMR0 frozen is not named there: the earlier abort is. -/
theorem refusal_unnamed_when_frozen :
    ¬∀ (mmu : Kt11d) (va : Word) (access : Access), Derived mmu →
      (mmu.relocate va mmu.accessSpace access).2 = none →
      ∀ idx : RegIdx, idx.val = Reference.pairIdx mmu.accessMode va →
        Reference.Names (mmu.relocate va mmu.accessSpace access).1.mmr0
          (Reference.violations mmu.accessMode (mmu.pdr idx) va access) := by
  intro hall
  have h := hall frozenReadonly 0o1234 .write derived_frozenReadonly (by decide) 0 (by decide)
  revert h
  decide

end QUniBone.Kt11d
