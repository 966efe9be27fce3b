import QUniBone.Loaders.MemoryImage
import QUniBone.Memory.Ddrmem

/-!
# ROMs in the IO page

`rom_c` in `rom.cpp`: a row of words with a base address, filled from a listing and put into the
IO page. Its cells lie in the DDR RAM behind the page, where the PRU reads them.

* `MemoryImage.getAddrRange`: the range of a listing. `Starts`, `Within`, `Fits`: what it says.
* `Rom`, `fill`, `loadMacro11Listing`, `relocate`, `install`, `uninstall`: the code.
* `loadMacro11Listing_fits`, `loadMacro11Listing_base`: what a listing leaves in the ROM.
* `install_spec`: the cells in front of the first device register are installed.
-/

namespace QUniBone

namespace MemoryImage

/-- A round of `get_addr_range` -/
def widen (m : MemoryImage) (range : ℕ × ℕ) (wordidx : ℕ) : ℕ × ℕ :=
  let addr := 2 * wordidx
  if m.valid wordidx then (min range.1 addr, max range.2 addr) else range

/-- `get_addr_range`: the first and the last valid address -/
def getAddrRange (m : MemoryImage) : ℕ × ℕ :=
  (List.range MEMORY_WORD_COUNT).foldl m.widen (0x3ffff, 0)

/-- The first word is the one at this address. -/
structure Starts (m : MemoryImage) (addr : ℕ) : Prop where
  even : addr % 2 = 0
  addressable : Addressable addr
  valid : m.valid (addr / 2) = true
  least : ∀ i < MEMORY_WORD_COUNT, m.valid i = true → addr ≤ 2 * i

/-- No word is behind this address. -/
def Within (m : MemoryImage) (addr : ℕ) : Prop :=
  ∀ i < MEMORY_WORD_COUNT, m.valid i = true → 2 * i ≤ addr

/-- The first of at most `n` words is at this address. -/
def Fits (m : MemoryImage) (addr n : ℕ) : Prop :=
  m.Starts addr ∧ ∀ i < MEMORY_WORD_COUNT, m.valid i = true → 2 * i < addr + 2 * n

theorem le_first_iff (m : MemoryImage) (l : List ℕ) (a b x : ℕ) :
    x ≤ (l.foldl m.widen (a, b)).1 ↔ x ≤ a ∧ ∀ i ∈ l, m.valid i = true → x ≤ 2 * i := by
  induction l generalizing a b with
  | nil => simp
  | cons i l ih =>
    rw [List.foldl_cons, List.forall_mem_cons]
    cases hi : m.valid i
    · simp [widen, hi, ih]
    · simp [widen, hi, ih, and_assoc]

theorem last_le_iff (m : MemoryImage) (l : List ℕ) (a b x : ℕ) :
    (l.foldl m.widen (a, b)).2 ≤ x ↔ b ≤ x ∧ ∀ i ∈ l, m.valid i = true → 2 * i ≤ x := by
  induction l generalizing a b with
  | nil => simp
  | cons i l ih =>
    rw [List.foldl_cons, List.forall_mem_cons]
    cases hi : m.valid i
    · simp [widen, hi, ih]
    · simp [widen, hi, ih, and_assoc]

theorem le_getAddrRange_first_iff (m : MemoryImage) (x : ℕ) : x ≤ m.getAddrRange.1 ↔
    x ≤ 0x3ffff ∧ ∀ i < MEMORY_WORD_COUNT, m.valid i = true → x ≤ 2 * i := by
  rw [getAddrRange, le_first_iff]
  simp only [List.mem_range]

theorem getAddrRange_last_le_iff (m : MemoryImage) (x : ℕ) :
    m.getAddrRange.2 ≤ x ↔ m.Within x := by
  rw [getAddrRange, last_le_iff]
  simp only [List.mem_range, Nat.zero_le, true_and]
  rfl

theorem getAddrRange_first_le (m : MemoryImage) : m.getAddrRange.1 ≤ 0x3ffff :=
  ((le_getAddrRange_first_iff m _).mp le_rfl).1

/-- The range begins with the first word, if this is not too high. -/
theorem getAddrRange_first_iff {m : MemoryImage} {addr : ℕ} (haddr : addr < 0x3ffff) :
    m.getAddrRange.1 = addr ↔ m.Starts addr := by
  have hle := le_getAddrRange_first_iff m
  constructor
  · intro h
    rw [h] at hle
    have hleast := ((hle addr).mp le_rfl).2
    -- some word keeps the range from beginning later
    have hnot : ¬(∀ i < MEMORY_WORD_COUNT, m.valid i = true → addr + 1 ≤ 2 * i) := fun hall => by
      have := (hle (addr + 1)).mpr ⟨haddr, hall⟩
      omega
    push Not at hnot
    obtain ⟨i, hi, hvalid, hlt⟩ := hnot
    have heq : addr = 2 * i := by
      have := hleast i hi hvalid
      omega
    have hdiv : addr / 2 = i := by omega
    exact ⟨by omega, by rwa [Addressable, hdiv], by rwa [hdiv], hleast⟩
  · intro h
    have heven := h.even
    have hfirst := ((hle _).mp le_rfl).2 (addr / 2) h.addressable h.valid
    have hge := (hle addr).mpr ⟨haddr.le, h.least⟩
    omega

/-- The range of a listing with words is not turned round. -/
theorem getAddrRange_last {m : MemoryImage} {addr : ℕ} (h : m.Starts addr) :
    addr ≤ m.getAddrRange.2 ∧ m.getAddrRange.2 < 2 * MEMORY_WORD_COUNT := by
  have hlast := (getAddrRange_last_le_iff m _).mp le_rfl (addr / 2) h.addressable h.valid
  have heven := h.even
  have hall : m.Within (2 * MEMORY_WORD_COUNT - 1) := fun i hi _ => by omega
  have hle := (getAddrRange_last_le_iff m _).mpr hall
  have hpos : 0 < MEMORY_WORD_COUNT := by decide
  omega

-- the range is known by the lemmas above, no proof runs the loop
attribute [irreducible] getAddrRange

end MemoryImage

namespace M9312

open QUnibusAdapter

/-! ## Model -/

/-- `codelabel_map_c` -/
abbrev CodelabelMap := String → Option UInt

structure Rom where
  baseaddress : UInt
  wordcount : ℕ
  cells : ℕ → Word
  codelabels : CodelabelMap

/-- How `memoryimage_c::load_macro11_listing` goes -/
inductive Loading
  /-- An address in the file fails an assertion. -/
  | asserted
  /-- The file can not be opened. -/
  | unreadable
  | listing (image : MemoryImage) (codelabels : CodelabelMap)

/-- The tables of the adapter, and the DDR RAM behind the IO page -/
structure Page (ι : Type) where
  tables : State ι
  ddrmem : Ddrmem

variable {ι : Type}

namespace Rom

/-- The address of a cell -/
def addr (r : Rom) (i : ℕ) : UInt := r.baseaddress + BitVec.ofNat 32 (2 * i)

def fill (r : Rom) (value : Word) : Rom :=
  { r with
    cells := fun i => if i < r.wordcount then value else r.cells i
    codelabels := fun _ => none }

/-- Where the image has no word, the cell stays as it is. -/
def copyWords (r : Rom) (image : MemoryImage) : Rom :=
  { r with cells := fun i =>
      let addr := (r.addr i).toNat
      if i < r.wordcount ∧ image.valid (addr / 2) = true then image.getWord addr else r.cells i }

@[simp] theorem copyWords_baseaddress (r : Rom) (image : MemoryImage) :
    (r.copyWords image).baseaddress = r.baseaddress := rfl

@[simp] theorem copyWords_wordcount (r : Rom) (image : MemoryImage) :
    (r.copyWords image).wordcount = r.wordcount := rfl

theorem copyWords_cells (r : Rom) (image : MemoryImage) (i : ℕ) : (r.copyWords image).cells i =
    if i < r.wordcount ∧ image.valid ((r.addr i).toNat / 2) = true then
      image.getWord (r.addr i).toNat
    else r.cells i := rfl

@[simp] theorem copyWords_codelabels (r : Rom) (image : MemoryImage) :
    (r.copyWords image).codelabels = r.codelabels := rfl

/-- What a listing leaves in the ROM, but for its words -/
def atListing (r : Rom) (image : MemoryImage) (codelabels : CodelabelMap) : Rom where
  baseaddress := BitVec.ofNat 32 image.getAddrRange.1
  wordcount := r.wordcount
  cells := (r.fill 0xffff).cells
  codelabels := codelabels

@[simp] theorem atListing_baseaddress (r : Rom) (image : MemoryImage) (codelabels : CodelabelMap) :
    (r.atListing image codelabels).baseaddress = BitVec.ofNat 32 image.getAddrRange.1 := by
  rw [atListing]

@[simp] theorem atListing_wordcount (r : Rom) (image : MemoryImage) (codelabels : CodelabelMap) :
    (r.atListing image codelabels).wordcount = r.wordcount := by
  rw [atListing]

theorem atListing_cells {r : Rom} {i : ℕ} (h : i < r.wordcount) (image : MemoryImage)
    (codelabels : CodelabelMap) : (r.atListing image codelabels).cells i = 0xffff := by
  rw [atListing]
  exact if_pos h

theorem atListing_codelabels (r : Rom) (image : MemoryImage) (codelabels : CodelabelMap) :
    (r.atListing image codelabels).codelabels = codelabels := by
  rw [atListing]

/-- `load_macro11_listing`, `none` if an assertion fails -/
def loadMacro11Listing (r : Rom) : Loading → Option (Bool × Rom)
  | .asserted => none
  | .unreadable => some (false, r.fill 0xffff)
  | .listing image codelabels =>
    let r := r.atListing image codelabels
    let loadedWords := (BitVec.ofNat 32 image.getAddrRange.2 - r.baseaddress) / 2 + 1
    if loadedWords.toNat > r.wordcount then some (false, r) else some (true, r.copyWords image)

def relocate (bus : AddrSpace) (r : Rom) (newBaseAddr : UInt) : Rom :=
  if newBaseAddr + BitVec.ofNat 32 (2 * r.wordcount) > bus.addrSpaceByteCount then r
  else
    let delta := newBaseAddr - r.baseaddress
    { r with
      baseaddress := newBaseAddr
      codelabels := fun l => (r.codelabels l).map (· + delta) }

/-- `ddrmem_c::iopage_deposit` with a RAM of `len` bytes: `none` if the assertion fails -/
def iopageDeposit (bus : AddrSpace) (len : UInt) (m : Ddrmem) (addr : UInt) (w : Word) :
    Option (Bool × Ddrmem) :=
  if addr < bus.iopageStartAddr ∨ addr ≥ bus.addrSpaceByteCount then some (false, m)
  else if ¬len ≥ addr / 2 then none
  else some (true, m.setW addr w)

/-- The loop of `install` over `n` cells from the `i`-th on -/
def installCells (bus : AddrSpace) (len : UInt) (r : Rom) : ℕ → ℕ → Page ι → Option (Page ι)
  | 0, _, p => some p
  | n + 1, i, p =>
    (iopageDeposit bus len p.ddrmem (r.addr i) (r.cells i)).bind fun d =>
      if !d.1 then none
      else
        (registerRom bus p.tables (r.addr i)).bind fun t =>
          -- `break` at a device register
          if !t.1 then some ⟨t.2, d.2⟩ else installCells bus len r n (i + 1) ⟨t.2, d.2⟩

/-- `install`, `none` where an assertion or `FATAL` ends the program -/
def install (bus : AddrSpace) (len : UInt) (r : Rom) (p : Page ι) : Option (Page ι) :=
  r.installCells bus len r.wordcount 0 p

/-- `uninstall` -/
def uninstall (bus : AddrSpace) (r : Rom) (s : State ι) : Option (State ι) :=
  (List.range r.wordcount).foldlM (fun s i => unregisterRom bus s (r.addr i)) s

/-! ## Listings -/

theorem loadedWords_iff {image : MemoryImage} {start : ℕ} (hstarts : image.Starts start)
    (hstart : start < 0x3ffff) (r : Rom) :
    ((BitVec.ofNat 32 image.getAddrRange.2 - BitVec.ofNat 32 start) / 2 + 1).toNat ≤ r.wordcount ↔
      image.Fits start r.wordcount := by
  have heven := hstarts.even
  obtain ⟨hle, hlt⟩ := MemoryImage.getAddrRange_last hstarts
  have hcount : 2 * MEMORY_WORD_COUNT = 0x400000 := by decide
  rw [hcount] at hlt
  have hlast : (BitVec.ofNat 32 image.getAddrRange.2).toNat = image.getAddrRange.2 := by
    rw [BitVec.toNat_ofNat]
    exact Nat.mod_eq_of_lt (by omega)
  have hfirst : (BitVec.ofNat 32 start).toNat = start := by
    rw [BitVec.toNat_ofNat]
    exact Nat.mod_eq_of_lt (by omega)
  have hsub : BitVec.ofNat 32 start ≤ BitVec.ofNat 32 image.getAddrRange.2 := by
    rw [BitVec.le_def, hfirst, hlast]
    exact hle
  have hdiv : ((BitVec.ofNat 32 image.getAddrRange.2 - BitVec.ofNat 32 start) / 2).toNat =
      (image.getAddrRange.2 - start) / 2 := by
    rw [BitVec.toNat_udiv, BitVec.toNat_sub_of_le hsub, hlast, hfirst]
    rfl
  have hwords : ((BitVec.ofNat 32 image.getAddrRange.2 - BitVec.ofNat 32 start) / 2 + 1).toNat =
      (image.getAddrRange.2 - start) / 2 + 1 := by
    rw [BitVec.toNat_add, hdiv]
    exact Nat.mod_eq_of_lt (show (image.getAddrRange.2 - start) / 2 + 1 < 4294967296 by omega)
  rw [hwords]
  have hwithin := MemoryImage.getAddrRange_last_le_iff image (start + 2 * r.wordcount - 1)
  constructor
  · intro h
    have hall := hwithin.mp (by omega)
    refine ⟨hstarts, fun i hi hvalid => ?_⟩
    have := hall i hi hvalid
    omega
  · intro h
    have hself := h.2 (start / 2) hstarts.addressable hstarts.valid
    have hend := hwithin.mpr fun i hi hvalid => Nat.le_sub_one_of_lt (h.2 i hi hvalid)
    omega

theorem loadMacro11Listing_eq (r : Rom) (image : MemoryImage) (codelabels : CodelabelMap) :
    r.loadMacro11Listing (.listing image codelabels) =
      if ((BitVec.ofNat 32 image.getAddrRange.2 - BitVec.ofNat 32 image.getAddrRange.1) / 2 +
          1).toNat > r.wordcount then some (false, r.atListing image codelabels)
      else some (true, (r.atListing image codelabels).copyWords image) := by
  simp only [loadMacro11Listing, atListing_baseaddress, atListing_wordcount]

/-- A listing that fits is taken. -/
theorem loadMacro11Listing_fits {r : Rom} {image : MemoryImage} {codelabels : CodelabelMap}
    {start : ℕ} (hstart : start < 0x3ffff) (h : image.Fits start r.wordcount) :
    r.loadMacro11Listing (.listing image codelabels) =
      some (true, (r.atListing image codelabels).copyWords image) := by
  have hfirst := (MemoryImage.getAddrRange_first_iff hstart).mpr h.1
  have hwords := (loadedWords_iff h.1 hstart r).mpr h
  rw [← hfirst] at hwords
  rw [loadMacro11Listing_eq, if_neg (Nat.not_lt.mpr hwords)]

/-- Whatever becomes of a listing, the ROM moves to its first word. -/
theorem loadMacro11Listing_base (r : Rom) (image : MemoryImage) (codelabels : CodelabelMap) :
    ∃ ok r', r.loadMacro11Listing (.listing image codelabels) = some (ok, r') ∧
      r'.baseaddress = BitVec.ofNat 32 image.getAddrRange.1 ∧ r'.wordcount = r.wordcount := by
  rw [loadMacro11Listing_eq]
  split
  · exact ⟨false, r.atListing image codelabels, rfl, atListing_baseaddress r image codelabels,
      atListing_wordcount r image codelabels⟩
  · refine ⟨true, (r.atListing image codelabels).copyWords image, rfl, ?_, ?_⟩
    · rw [copyWords_baseaddress, atListing_baseaddress]
    · rw [copyWords_wordcount, atListing_wordcount]

/-- A listing that is taken, and begins at this address, fits. -/
theorem fits_of_loadMacro11Listing {r r' : Rom} {image : MemoryImage} {codelabels : CodelabelMap}
    {start : ℕ} (hstart : start < 0x3ffff) (hfirst : image.getAddrRange.1 = start)
    (h : r.loadMacro11Listing (.listing image codelabels) = some (true, r')) :
    image.Fits start r.wordcount := by
  have hstarts := (MemoryImage.getAddrRange_first_iff hstart).mp hfirst
  refine (loadedWords_iff hstarts hstart r).mp ?_
  rw [loadMacro11Listing_eq, hfirst] at h
  split at h
  · cases h
  · next hle => exact Nat.not_lt.mp hle

/-! ## Installing -/

/-- The cell can be put into the IO page. -/
structure Deposits (bus : AddrSpace) (len : UInt) (addr : UInt) : Prop where
  romAddr : bus.romAddr addr
  lt : addr < bus.addrSpaceByteCount
  le_len : addr / 2 ≤ len

/-- The cells of the ROM are different words of the IO page, where no ROM is. -/
structure Installable (bus : AddrSpace) (len : UInt) (r : Rom) (i n : ℕ) (s : State ι) : Prop where
  deposits : ∀ j, i ≤ j → j < i + n → Deposits bus len (r.addr j)
  entry_ne : ∀ j l, i ≤ j → j < l → l < i + n → entry (r.addr j) ≠ entry (r.addr l)
  word_ne : ∀ j l, i ≤ j → j < l → l < i + n → r.addr j >>> 1 ≠ r.addr l >>> 1
  ne_rom : ∀ j, i ≤ j → j < i + n → s.registerHandles (entry (r.addr j)) ≠ handleRom

/-- No device register is at the cells from the `i`-th to the `j`-th. -/
def FreeTo (r : Rom) (s : State ι) (i j : ℕ) : Prop :=
  ∀ l, i ≤ l → l ≤ j → s.registerHandles (entry (r.addr l)) = 0

/-- The cells from the `i`-th to the first one with a device register are installed. -/
structure Installed (r : Rom) (i n : ℕ) (p p' : Page ι) : Prop where
  rom : ∀ j, i ≤ j → j < i + n → r.FreeTo p.tables i j →
    p'.tables.registerHandles (entry (r.addr j)) = handleRom ∧
      p'.ddrmem.getW (r.addr j) = r.cells j
  kept : ∀ j, i ≤ j → j < i + n → ¬r.FreeTo p.tables i j →
    p'.tables.registerHandles (entry (r.addr j)) = p.tables.registerHandles (entry (r.addr j))
  cells : ∀ c, (∀ j, i ≤ j → j < i + n → c ≠ entry (r.addr j)) →
    p'.tables.registerHandles c = p.tables.registerHandles c
  words : ∀ a, (∀ j, i ≤ j → j < i + n → a ≠ r.addr j >>> 1) → p'.ddrmem a = p.ddrmem a
  tables : p'.tables = { p.tables with registerHandles := p'.tables.registerHandles }

theorem iopageDeposit_of_deposits {bus : AddrSpace} {len addr : UInt} (h : Deposits bus len addr)
    (m : Ddrmem) (w : Word) : iopageDeposit bus len m addr w = some (true, m.setW addr w) := by
  have hlow : ¬addr < bus.iopageStartAddr := BitVec.not_lt.mpr h.romAddr.2.1
  have hhigh : ¬addr ≥ bus.addrSpaceByteCount := BitVec.not_le.mpr h.lt
  rw [iopageDeposit, if_neg (not_or.mpr ⟨hlow, hhigh⟩), if_neg (not_not.mpr h.le_len)]

/-- The address is that of a ROM from now on. -/
def markRom (s : State ι) (addr : UInt) : State ι :=
  { s with registerHandles := Function.update s.registerHandles (entry addr) handleRom }

theorem registerRom_of_free {bus : AddrSpace} {s : State ι} {addr : UInt}
    (h : bus.romAddr addr) (hfree : s.registerHandles (entry addr) = 0) :
    registerRom bus s addr = some (true, markRom s addr) := by
  unfold registerRom
  dsimp only
  rw [hfree, if_neg, if_neg]
  · rfl
  · decide
  · rintro (hno | heq)
    · exact hno h
    · exact absurd heq (by decide)

theorem registerRom_of_claimed {bus : AddrSpace} {s : State ι} {addr : UInt}
    (h : bus.romAddr addr) (hrom : s.registerHandles (entry addr) ≠ handleRom)
    (hclaimed : s.registerHandles (entry addr) ≠ 0) :
    registerRom bus s addr = some (false, s) := by
  unfold registerRom
  dsimp only
  rw [if_neg, if_pos]
  · rw [Bool.and_eq_true, bne_iff_ne, bne_iff_ne]
    exact ⟨hclaimed, hrom⟩
  · rintro (hno | heq)
    · exact hno h
    · exact hrom heq

theorem Installable.tail {bus : AddrSpace} {len : UInt} {r : Rom} {i n : ℕ} {s s' : State ι}
    (h : r.Installable bus len i (n + 1) s)
    (hcells : ∀ j, i < j → j < i + (n + 1) →
      s'.registerHandles (entry (r.addr j)) = s.registerHandles (entry (r.addr j))) :
    r.Installable bus len (i + 1) n s' where
  deposits j hj hlt := h.deposits j (by omega) (by omega)
  entry_ne j l hj hjl hl := h.entry_ne j l (by omega) hjl (by omega)
  word_ne j l hj hjl hl := h.word_ne j l (by omega) hjl (by omega)
  ne_rom j hj hlt := by
    rw [hcells j (by omega) (by omega)]
    exact h.ne_rom j (by omega) (by omega)

/-- A device register ends the installation. -/
theorem installed_of_claimed {r : Rom} {i n : ℕ} {p : Page ι}
    (hclaimed : p.tables.registerHandles (entry (r.addr i)) ≠ 0) :
    r.Installed i (n + 1) p ⟨p.tables, p.ddrmem.setW (r.addr i) (r.cells i)⟩ where
  rom j hj _ hfree := absurd (hfree i le_rfl hj) hclaimed
  kept _ _ _ _ := rfl
  cells _ _ := rfl
  words a ha := Function.update_of_ne (ha i le_rfl (by omega)) _ _
  tables := rfl

theorem installed_cons {bus : AddrSpace} {len : UInt} {r : Rom} {i n : ℕ} {p p' : Page ι}
    (h : r.Installable bus len i (n + 1) p.tables)
    (hfree : p.tables.registerHandles (entry (r.addr i)) = 0)
    (hrest : r.Installed (i + 1) n
      ⟨markRom p.tables (r.addr i), p.ddrmem.setW (r.addr i) (r.cells i)⟩ p') :
    r.Installed i (n + 1) p p' := by
  have hother : ∀ j, i < j → j < i + (n + 1) →
      (markRom p.tables (r.addr i)).registerHandles (entry (r.addr j)) =
        p.tables.registerHandles (entry (r.addr j)) := fun j hj hlt =>
    Function.update_of_ne (h.entry_ne i j le_rfl hj hlt).symm _ _
  -- a cell behind is free from here on iff it is from the next one on
  have hfreeTo : ∀ j, i < j → j < i + (n + 1) →
      (r.FreeTo (markRom p.tables (r.addr i)) (i + 1) j ↔ r.FreeTo p.tables i j) := by
    intro j hj hlt
    constructor
    · intro hall l hl hlj
      rcases hl.eq_or_lt with heq | hl
      · subst heq
        exact hfree
      · rw [← hother l hl (by omega)]
        exact hall l hl hlj
    · intro hall l hl hlj
      rw [hother l hl (by omega)]
      exact hall l (by omega) hlj
  have hcell := hrest.cells (entry (r.addr i)) fun j hj hlt =>
    h.entry_ne i j le_rfl hj (by omega)
  have hword := hrest.words (r.addr i >>> 1) fun j hj hlt => h.word_ne i j le_rfl hj (by omega)
  constructor
  case rom =>
    intro j hj hlt hall
    rcases hj.eq_or_lt with heq | hj
    · subst heq
      exact ⟨hcell.trans (Function.update_self _ _ _), hword.trans (Function.update_self _ _ _)⟩
    · exact hrest.rom j hj (by omega) ((hfreeTo j hj hlt).mpr hall)
  case kept =>
    intro j hj hlt hnot
    rcases hj.eq_or_lt with heq | hj
    · subst heq
      refine absurd (fun l hl hlj => ?_) hnot
      rw [Nat.le_antisymm hlj hl]
      exact hfree
    · rw [hrest.kept j hj (by omega) (fun hall => hnot ((hfreeTo j hj hlt).mp hall))]
      exact hother j hj hlt
  case cells =>
    intro c hc
    rw [hrest.cells c fun j hj hlt => hc j (by omega) (by omega)]
    exact Function.update_of_ne (hc i le_rfl (by omega)) _ _
  case words =>
    intro a ha
    rw [hrest.words a fun j hj hlt => ha j (by omega) (by omega)]
    exact Function.update_of_ne (ha i le_rfl (by omega)) _ _
  case tables => exact hrest.tables

theorem installCells_spec {bus : AddrSpace} {len : UInt} {r : Rom} {n i : ℕ} {p : Page ι}
    (h : r.Installable bus len i n p.tables) :
    ∃ p', r.installCells bus len n i p = some p' ∧ r.Installed i n p p' := by
  induction n generalizing i p with
  | zero =>
    exact ⟨p, rfl, fun j _ _ => by omega, fun j _ _ => by omega, fun _ _ => rfl, fun _ _ => rfl,
      rfl⟩
  | succ n ih =>
    have hdeposits := h.deposits i le_rfl (by omega)
    have hrom := h.ne_rom i le_rfl (by omega)
    rw [installCells, iopageDeposit_of_deposits hdeposits, Option.bind_some]
    by_cases hfree : p.tables.registerHandles (entry (r.addr i)) = 0
    · have htail : r.Installable bus len (i + 1) n (markRom p.tables (r.addr i)) :=
        h.tail fun j hj hlt => Function.update_of_ne (h.entry_ne i j le_rfl hj hlt).symm _ _
      obtain ⟨p', hp', hrest⟩ := ih
        (p := ⟨markRom p.tables (r.addr i), p.ddrmem.setW (r.addr i) (r.cells i)⟩) htail
      refine ⟨p', ?_, installed_cons h hfree hrest⟩
      rw [registerRom_of_free hdeposits.romAddr hfree, Option.bind_some]
      exact hp'
    · refine ⟨_, ?_, installed_of_claimed hfree⟩
      rw [registerRom_of_claimed hdeposits.romAddr hrom hfree, Option.bind_some]
      rfl

/-- Installing a ROM where no ROM is -/
theorem install_spec {bus : AddrSpace} {len : UInt} {r : Rom} {p : Page ι}
    (h : r.Installable bus len 0 r.wordcount p.tables) :
    ∃ p', r.install bus len p = some p' ∧ r.Installed 0 r.wordcount p p' :=
  installCells_spec h

end Rom

end M9312

end QUniBone
