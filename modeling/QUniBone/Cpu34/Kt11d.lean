import QUniBone.Cpu.Core

/-!
# The KT11-D memory management unit

`cpu34/kt11d.h` and `cpu34/kt11d.c`. The register images `mmr0..2`, `par[]` and `pdr[]` are
authoritative; `page[]`, `enabled`, `frozen` and `maint` are derived from them, and the
translation reads the derived state only.

`kt11d_format` renders the registers for the console and is left out.
-/

namespace QUniBone

/-- `KT11D_READ`, `KT11D_WRITE`. -/
inductive Access where
  | read
  | write
deriving DecidableEq

/-- The access kind as a bit mask against `kt11d_page_t.deny`. -/
def Access.mask : Access → BitVec 8
  | .read => 1
  | .write => 2

/-- `KT11D_SPACE_KERNEL`, `KT11D_SPACE_USER`. The same two values select
`stackpointer[KD11EA_SP_KERNEL]` and `stackpointer[KD11EA_SP_USER]`. -/
inductive Space where
  | kernel
  | user
deriving DecidableEq

/-- A two bit mode field of the PSW. -/
abbrev Mode := BitVec 2

namespace Mode

/-- `KT11D_MODE_KERNEL`. -/
abbrev kernel : Mode := 0

/-- `KT11D_MODE_USER`. -/
abbrev user : Mode := 3

/-- The space of a mode. Only kernel mode has the kernel space. -/
def space (m : Mode) : Space := if m = kernel then .kernel else .user

/-- The modes 01 and 10 do not exist. -/
def illegal (m : Mode) : Bool := m != kernel && m != user

end Mode

namespace Word

/-- `PSW<15:14>`. -/
def mode (psw : Word) : Mode := psw.extractLsb' 14 2

/-- `PSW<13:12>`. -/
def prevMode (psw : Word) : Mode := psw.extractLsb' 12 2

end Word

/-- `kt11d_page_t`: the precomputed form of one PAR/PDR pair. -/
structure Page where
  base : UInt
  blkLo : BitVec 8
  blkSpan : BitVec 8
  deny : BitVec 8
  pdrIdx : RegIdx

namespace Page

/-- `(va >> 6) & 0177`. -/
def blockOf (va : Word) : BitVec 7 := va.extractLsb' 6 7

/-- `(unsigned)(blk - p->blk_lo) > p->blk_span`. -/
def outside (p : Page) (va : Word) : Bool :=
  decide (p.blkSpan.setWidth 32 < (blockOf va).setWidth 32 - p.blkLo.setWidth 32)

end Page

/-- `struct KT11D`. -/
structure Kt11d where
  mmr0 : Word
  mmr1 : Word
  mmr2 : Word
  par : RegIdx → Word
  pdr : RegIdx → Word
  page : RegIdx → Page
  enabled : Bool
  space : Space
  prevSpace : Space
  mode : Mode
  prevMode : Mode
  accessSpace : Space
  accessMode : Mode
  accessIllegal : Bool
  frozen : Bool
  maint : Bool
  destRef : Bool
  mmr1Count : ℕ

namespace Kt11d

/-! ## Register bits -/

/-- `KT11D_MMR0_ABORTS`, `MMR0<15:13>`. -/
abbrev mmr0Aborts : Word := 0o160000
abbrev mmr0AbortNonresident : Word := 0o100000
abbrev mmr0AbortLength : Word := 0o040000
abbrev mmr0AbortReadonly : Word := 0o020000
abbrev mmr0Maint : Word := 0o400
/-- `KT11D_MMR0_MODE|KT11D_MMR0_PAGE`, `MMR0<6:5>` and `MMR0<3:1>`. -/
abbrev mmr0ModePage : Word := 0o156
abbrev mmr0Enable : Word := 0o1
abbrev mmr0Writable : Word := 0o160401
abbrev pdrWritable : Word := 0o077516
abbrev pdrW : Word := 0o100
abbrev pdrEd : Word := 0o10
abbrev parWritable : Word := 0o007777
abbrev abortVector : Word := 0o250

/-- `PDR_ACF`. -/
def acf (pdr : Word) : BitVec 2 := pdr.extractLsb' 1 2

/-- `PDR_PLF`. -/
def plf (pdr : Word) : BitVec 7 := pdr.extractLsb' 8 7

abbrev acfNonresident : BitVec 2 := 0
abbrev acfReadonly : BitVec 2 := 1
abbrev acfUnused : BitVec 2 := 2
abbrev acfReadwrite : BitVec 2 := 3

/-- `va >> 13`. -/
def pageOf (va : Word) : BitVec 3 := va.extractLsb' 13 3

/-- `space + (va >> 13)`, the index of a page in `page[]`, `par[]` and `pdr[]`. -/
def pageIdx (space : Space) (va : Word) : RegIdx :=
  match space with
  | .kernel => ⟨(pageOf va).toNat, by have := (pageOf va).isLt; omega⟩
  | .user => ⟨8 + (pageOf va).toNat, by have := (pageOf va).isLt; omega⟩

/-- `kt11d_is_own_register`. -/
def isOwnRegister (pa : UInt) : Bool :=
  if pa < 0o772300 then false
  else pa ≤ 0o772317
    || (0o772340 ≤ pa && pa ≤ 0o772357)
    || (0o777572 ≤ pa && pa ≤ 0o777577)
    || (0o777600 ≤ pa && pa ≤ 0o777617)
    || (0o777640 ≤ pa && pa ≤ 0o777657)

/-! ## Derived state -/

/-- `kt11d_set_access`. -/
def setAccess (mmu : Kt11d) (space : Space) (mode : Mode) : Kt11d :=
  { mmu with accessSpace := space, accessMode := mode, accessIllegal := mode.illegal }

/-- What `kt11d_rebuild` derives from one PAR/PDR pair. -/
def descriptor (par pdr : Word) (idx : RegIdx) : Page where
  base := ((par &&& parWritable).setWidth 32 <<< 6)
    - (BitVec.ofNat 32 (idx.val % 8) <<< 13)
  blkLo := if pdr &&& pdrEd ≠ 0 then (plf pdr).setWidth 8 else 0
  blkSpan := if pdr &&& pdrEd ≠ 0 then 0o177 - (plf pdr).setWidth 8 else (plf pdr).setWidth 8
  deny :=
    if acf pdr = acfReadwrite then 0
    else if acf pdr = acfReadonly then Access.write.mask
    else Access.read.mask ||| Access.write.mask
  pdrIdx := idx

/-- `kt11d_rebuild`. -/
def rebuild (mmu : Kt11d) (idx : RegIdx) : Kt11d :=
  { mmu with
    page := Function.update mmu.page idx (descriptor (mmu.par idx) (mmu.pdr idx) idx) }

/-- `kt11d_rebuild_all`. -/
def rebuildAll (mmu : Kt11d) : Kt11d :=
  { mmu with
    enabled := mmu.mmr0 &&& mmr0Enable != 0
    frozen := mmu.mmr0 &&& mmr0Aborts != 0
    maint := mmu.mmr0 &&& mmr0Maint != 0
    page := fun i => descriptor (mmu.par i) (mmu.pdr i) i }

/-- `kt11d_set_modes`. -/
def setModes (mmu : Kt11d) (psw : Word) : Kt11d :=
  setAccess
    { mmu with
      mode := psw.mode
      prevMode := psw.prevMode
      space := psw.mode.space
      prevSpace := psw.prevMode.space }
    psw.mode.space psw.mode

/-- The all zero image `memset()` leaves behind. -/
def zeroed : Kt11d where
  mmr0 := 0
  mmr1 := 0
  mmr2 := 0
  par := fun _ => 0
  pdr := fun _ => 0
  page := fun _ => ⟨0, 0, 0, 0, 0⟩
  enabled := false
  space := .kernel
  prevSpace := .kernel
  mode := 0
  prevMode := 0
  accessSpace := .kernel
  accessMode := 0
  accessIllegal := false
  frozen := false
  maint := false
  destRef := false
  mmr1Count := 0

/-- `kt11d_reset`: what was in the unit before is lost. -/
def reset : Kt11d := rebuildAll (setAccess zeroed .kernel Mode.kernel)

/-- `kt11d_init`: bus INIT, which does not reach the address map. -/
def init (mmu : Kt11d) : Kt11d :=
  rebuildAll { mmu with mmr0 := 0, mmr1 := 0, mmr2 := 0, mmr1Count := 0 }

/-! ## Translation -/

/-- `kt11d_unrelocated`: widen 16 to 18 bits, the top 8K being the IO page. -/
def unrelocated (va : Word) : UInt :=
  if va &&& 0o160000 = 0o160000 then va.setWidth 32 ||| 0o600000 else va.setWidth 32

/-- `mode << 5 | page << 1` in MMR0. -/
def modePage (mode : Mode) (va : Word) : Word :=
  (mode.setWidth 16 <<< 5) ||| ((pageOf va).setWidth 16 <<< 1)

/-- The exact cause of an abort, recomputed from the raw PDR. -/
def abortBits (mmu : Kt11d) (va : Word) (idx : RegIdx) (access : Access) : Word :=
  (if acf (mmu.pdr idx) = acfReadwrite then 0
    else if acf (mmu.pdr idx) = acfReadonly then
      (if access = .write then mmr0AbortReadonly else 0)
    else mmr0AbortNonresident)
  ||| (if (mmu.page idx).outside va then mmr0AbortLength else 0)

/-- `kt11d_abort`. It always returns 1, which is left to the caller here. -/
def abort (mmu : Kt11d) (va : Word) (space : Space) (access : Access) : Kt11d :=
  if mmu.frozen then mmu
  else
    { mmu with
      mmr0 := (mmu.mmr0 &&& ~~~mmr0ModePage) ||| abortBits mmu va (pageIdx space va) access
        ||| modePage mmu.accessMode va
      frozen := true }

/-- `kt11d_abort_mode`. -/
def abortMode (mmu : Kt11d) (va : Word) : Kt11d :=
  if mmu.frozen then mmu
  else
    { mmu with
      mmr0 := (mmu.mmr0 &&& ~~~mmr0ModePage) ||| mmr0AbortNonresident
        ||| modePage mmu.accessMode va
      frozen := true }

/-- Load `MMR0<6:5>` and `MMR0<3:1>` with the mode and the page of a relocated reference. -/
def loadModePage (mmu : Kt11d) (va : Word) : Kt11d :=
  if mmu.frozen then mmu
  else
    { mmu with
      mmr0 := (mmu.mmr0 &&& ~~~mmr0ModePage) ||| modePage mmu.accessMode va }

/-- A write through a page sets `PDR<6>`, unless it is answered inside the KD11-EA. The
derived `page[]` does not depend on that bit. -/
def noteWrite (mmu : Kt11d) (idx : RegIdx) (access : Access) (pa : UInt) : Kt11d :=
  if access = .write ∧ ¬isOwnRegister pa then
    { mmu with pdr := Function.update mmu.pdr idx (mmu.pdr idx ||| pdrW) }
  else mmu

/-- Is a reference made now relocated at all? -/
def relocates (mmu : Kt11d) : Bool := mmu.enabled || (mmu.maint && mmu.destRef)

/-- `kt11d_relocate`. The physical address, or `none` for an abort. -/
def relocate (mmu : Kt11d) (va : Word) (space : Space) (access : Access) :
    Kt11d × Option UInt :=
  if !mmu.relocates then (mmu, some (unrelocated va))
  else if mmu.accessIllegal then (mmu.abortMode va, none)
  else
    let mmu := mmu.loadModePage va
    let p := mmu.page (pageIdx space va)
    if p.deny &&& access.mask ≠ 0 then (mmu.abort va space access, none)
    else if p.outside va then (mmu.abort va space access, none)
    else
      let pa := (p.base + va.setWidth 32) &&& 0o777777
      (mmu.noteWrite p.pdrIdx access pa, some pa)

/-! ## Restart information -/

/-- `kt11d_instruction_start`. -/
def instructionStart (mmu : Kt11d) : Kt11d :=
  if mmu.frozen then mmu else { mmu with mmr1 := 0, mmr1Count := 0 }

/-- `kt11d_instruction_fetched`. -/
def instructionFetched (mmu : Kt11d) (pc : Word) : Kt11d :=
  if mmu.frozen then mmu else { mmu with mmr2 := pc }

/-- `((amount & 037) << 3) | (reg & 7)`. -/
def mmr1Entry (reg : RegIdx) (amount : Word) : Word :=
  ((amount &&& 0o37) <<< 3) ||| (BitVec.ofNat 16 reg.val &&& 7)

/-- `kt11d_log_register`. -/
def logRegister (mmu : Kt11d) (reg : RegIdx) (amount : Word) : Kt11d :=
  if mmu.frozen ∨ reg = 7 ∨ 2 ≤ mmu.mmr1Count then mmu
  else
    { mmu with
      mmr1 := if mmu.mmr1Count = 0 then mmr1Entry reg amount
        else mmu.mmr1 ||| (mmr1Entry reg amount <<< 8)
      mmr1Count := mmu.mmr1Count + 1 }

/-! ## Register decode -/

/-- A register of the KT11-D, as `lookup` points at it. -/
inductive Reg where
  | mmr0
  | mmr1
  | mmr2
  | pdr (idx : RegIdx)
  | par (idx : RegIdx)

/-- `*writable_mask` of `lookup`. -/
def Reg.writableMask : Reg → Word
  | .mmr0 => mmr0Writable
  | .mmr1 => 0
  | .mmr2 => 0
  | .pdr _ => pdrWritable
  | .par _ => parWritable

/-- `space + ((pa - first) >> 1)`. -/
def blockIdx (base : ℕ) (first pa : UInt) : RegIdx :=
  Fin.ofNat 16 (base + ((pa - first) >>> 1).toNat)

/-- `lookup`. -/
def lookup (pa : UInt) : Option Reg :=
  if !isOwnRegister pa then none
  else if pa = 0o777572 then some .mmr0
  else if pa = 0o777574 then some .mmr1
  else if pa = 0o777576 then some .mmr2
  else if 0o772300 ≤ pa ∧ pa ≤ 0o772316 then some (.pdr (blockIdx 0 0o772300 pa))
  else if 0o772340 ≤ pa ∧ pa ≤ 0o772356 then some (.par (blockIdx 0 0o772340 pa))
  else if 0o777600 ≤ pa ∧ pa ≤ 0o777616 then some (.pdr (blockIdx 8 0o777600 pa))
  else if 0o777640 ≤ pa ∧ pa ≤ 0o777656 then some (.par (blockIdx 8 0o777640 pa))
  else none

/-- `*reg`. -/
def get (mmu : Kt11d) : Reg → Word
  | .mmr0 => mmu.mmr0
  | .mmr1 => mmu.mmr1
  | .mmr2 => mmu.mmr2
  | .pdr i => mmu.pdr i
  | .par i => mmu.par i

/-- `*reg = w`. -/
def set (mmu : Kt11d) (reg : Reg) (w : Word) : Kt11d :=
  match reg with
  | .mmr0 => { mmu with mmr0 := w }
  | .mmr1 => { mmu with mmr1 := w }
  | .mmr2 => { mmu with mmr2 := w }
  | .pdr i => { mmu with pdr := Function.update mmu.pdr i w }
  | .par i => { mmu with par := Function.update mmu.par i w }

/-- Writing a PAR or a PDR clears the `W` bit and rebuilds the descriptor. -/
def clearWritten (mmu : Kt11d) (idx : RegIdx) : Kt11d :=
  rebuild { mmu with pdr := Function.update mmu.pdr idx (mmu.pdr idx &&& ~~~pdrW) } idx

/-- The derived state to bring up to date after a register was written. -/
def refresh (mmu : Kt11d) : Reg → Kt11d
  | .mmr0 => mmu.rebuildAll
  | .mmr1 => mmu.rebuildAll
  | .mmr2 => mmu.rebuildAll
  | .pdr i => mmu.clearWritten i
  | .par i => mmu.clearWritten i

/-- `kt11d_read_reg`. `none`: the address does not belong to the MMU. -/
def readReg (mmu : Kt11d) (pa : UInt) : Option Word := (lookup pa).map mmu.get

/-- The register image a masked write leaves. -/
def written (mmu : Kt11d) (reg : Reg) (w mask : Word) : Word :=
  Word.setmask (mmu.get reg) w (mask &&& reg.writableMask)

/-- `kt11d_write_reg`. `none`: the address does not belong to the MMU. -/
def writeReg (mmu : Kt11d) (pa : UInt) (w mask : Word) : Option Kt11d :=
  (lookup pa).map fun reg => (mmu.set reg (mmu.written reg w mask)).refresh reg

/-- A register write does not touch the modes. -/
theorem writeReg_frame {mmu mmu' : Kt11d} {pa : UInt} {w mask : Word}
    (h : mmu.writeReg pa w mask = some mmu') :
    mmu'.mode = mmu.mode ∧ mmu'.prevMode = mmu.prevMode ∧ mmu'.space = mmu.space ∧
      mmu'.prevSpace = mmu.prevSpace ∧ mmu'.accessSpace = mmu.accessSpace ∧
      mmu'.accessMode = mmu.accessMode := by
  obtain ⟨reg, -, rfl⟩ := Option.map_eq_some_iff.mp h
  cases reg <;> exact ⟨rfl, rfl, rfl, rfl, rfl, rfl⟩

end Kt11d

end QUniBone
