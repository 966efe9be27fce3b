import QUniBone.Cpu.Core

/-!
# The shared IO page map

What ARM and PRU share about the IO page (`shared/iopageregister.h`): one handle for every
word address of the page, and one register descriptor for every handle. Handle 0 stands for
an unused address, handle `0xff` for a cell of a ROM.

* `entry`: the word of the IO page an address belongs to.
* `PruIopageRegisters`: the whole map, with the range of emulated memory.
* `Handle.named`: a handle that names a register.
* `lastHandle`: the largest handle found in the map.
-/

namespace QUniBone

/-- A register handle, `uint8_t`. -/
abbrev Handle := BitVec 8

/-- Index of a word address in the IO page: 760000 is 0, 777776 is 4095. -/
abbrev Cell := BitVec 12

/-- `IOPAGE_REGISTER_ENTRY`: `(addr & 017777) / 2`. -/
def entry (addr : UInt) : Cell := addr.extractLsb' 1 12

/-- `MAX_IOPAGE_REGISTER_COUNT` -/
def maxIopageRegisterCount : ℕ := 0xff

/-- `IOPAGE_REGISTER_HANDLE_ROM` -/
def handleRom : Handle := 0xff

/-- `IOPAGEREGISTER_EVENT_FLAG_DATI` -/
def eventFlagDati : BitVec 8 := 0x01

/-- `IOPAGEREGISTER_EVENT_FLAG_DATO` -/
def eventFlagDato : BitVec 8 := 0x02

/-- `pru_iopage_register_t`: what the PRU needs to answer a bus cycle by itself. -/
structure PruRegister where
  value : Word
  resetValue : Word
  writableBits : Word
  eventRegisterHandle : Handle
  eventFlags : BitVec 8
  deriving DecidableEq, Inhabited

/-- `pru_iopage_registers_t` -/
structure PruIopageRegisters where
  memoryStartAddr : UInt
  /-- First address after the emulated memory, 0: no emulation. -/
  memoryLimitAddr : UInt
  iopageStartAddr : UInt
  registerHandles : Cell → Handle
  registers : Handle → PruRegister

/-- The handle of a device register: neither unused nor a ROM. -/
def Handle.named (h : Handle) : Bool := h != 0 && h != handleRom

/-! ## The handles in use -/

/-- `register_handle_used[i]`, from a scan over all addresses of the page. -/
def registerHandleUsed (cells : Cell → Handle) (i : ℕ) : Bool :=
  (List.range 0x1000).any fun c =>
    let h := cells (BitVec.ofNat 12 c)
    h.named && h.toNat == i

/-- The largest handle in use, 0 if there is none. -/
def lastHandle (cells : Cell → Handle) : ℕ :=
  (List.range' 1 (maxIopageRegisterCount - 1)).foldl
    (fun last i => if registerHandleUsed cells i then i else last) 0

theorem registerHandleUsed_iff {cells : Cell → Handle} {i : ℕ} :
    registerHandleUsed cells i = true ↔ ∃ c, (cells c).named = true ∧ (cells c).toNat = i := by
  simp only [registerHandleUsed, List.any_eq_true, List.mem_range, Bool.and_eq_true, beq_iff_eq]
  constructor
  · intro ⟨c, _, hnamed, hi⟩
    exact ⟨_, hnamed, hi⟩
  · intro ⟨c, hnamed, hi⟩
    refine ⟨c.toNat, c.isLt, ?_⟩
    rw [BitVec.ofNat_toNat, BitVec.setWidth_eq]
    exact ⟨hnamed, hi⟩

theorem Handle.toNat_of_named {h : Handle} (hn : h.named = true) :
    1 ≤ h.toNat ∧ h.toNat ≤ 254 := by
  simp only [Handle.named, handleRom, Bool.and_eq_true, bne_iff_ne, ne_eq] at hn
  obtain ⟨hzero, hrom⟩ := hn
  have h0 : h.toNat ≠ 0 := fun hc => hzero (BitVec.eq_of_toNat_eq hc)
  have h255 : h.toNat ≠ 255 := fun hc => hrom (BitVec.eq_of_toNat_eq hc)
  have := h.isLt
  omega

theorem Handle.named_ofNat {n : ℕ} (hlow : 1 ≤ n) (hhigh : n ≤ 254) :
    Handle.named (BitVec.ofNat 8 n) = true := by
  have hn : (BitVec.ofNat 8 n).toNat = n := by
    rw [BitVec.toNat_ofNat]
    exact Nat.mod_eq_of_lt (by omega)
  simp only [Handle.named, handleRom, Bool.and_eq_true, bne_iff_ne, ne_eq]
  constructor
  · intro h
    rw [h] at hn
    simp at hn
    omega
  · intro h
    rw [h] at hn
    simp at hn
    omega

/-- The scan upwards ends with the last index that passes the test. -/
theorem le_foldl_last (p : ℕ → Bool) (l : List ℕ) (hsorted : l.Pairwise (· ≤ ·)) (a : ℕ)
    (ha : ∀ i ∈ l, a ≤ i) :
    a ≤ l.foldl (fun last i => if p i then i else last) a ∧
      ∀ i ∈ l, p i = true → i ≤ l.foldl (fun last i => if p i then i else last) a := by
  induction l generalizing a with
  | nil => simp
  | cons x l ih =>
      obtain ⟨hx, hsorted'⟩ := List.pairwise_cons.mp hsorted
      rw [List.foldl_cons]
      have hstep : a ≤ (if p x then x else a) ∧ ∀ i ∈ l, (if p x then x else a) ≤ i := by
        split
        · exact ⟨ha x (by simp), hx⟩
        · exact ⟨le_refl a, fun i hi => ha i (by simp [hi])⟩
      obtain ⟨hle, hall⟩ := ih hsorted' _ hstep.2
      refine ⟨hstep.1.trans hle, ?_⟩
      intro i hi hp
      rcases List.mem_cons.mp hi with rfl | hmem
      · rw [if_pos hp] at hle ⊢
        exact hle
      · exact hall i hmem hp

/-- No address holds a handle above the last one. -/
theorem toNat_le_lastHandle {cells : Cell → Handle} {c : Cell} (h : (cells c).named = true) :
    (cells c).toNat ≤ lastHandle cells := by
  have hrange := Handle.toNat_of_named h
  have hsorted : (List.range' 1 (maxIopageRegisterCount - 1)).Pairwise (· ≤ ·) :=
    (List.pairwise_lt_range' (s := 1) (n := maxIopageRegisterCount - 1)).imp le_of_lt
  refine (le_foldl_last _ _ hsorted 0 (fun i _ => Nat.zero_le i)).2 _ ?_ ?_
  · rw [List.mem_range'_1]
    simp only [maxIopageRegisterCount]
    omega
  · exact registerHandleUsed_iff.mpr ⟨c, h, rfl⟩

theorem foldl_last_le (p : ℕ → Bool) (l : List ℕ) (bound : ℕ) (hl : ∀ i ∈ l, i ≤ bound) (a : ℕ)
    (ha : a ≤ bound) : l.foldl (fun last i => if p i then i else last) a ≤ bound := by
  induction l generalizing a with
  | nil => exact ha
  | cons x l ih =>
      rw [List.foldl_cons]
      apply ih
      · intro i hi
        exact hl i (by simp [hi])
      · split
        · exact hl x (by simp)
        · exact ha

theorem lastHandle_le (cells : Cell → Handle) : lastHandle cells ≤ 254 := by
  refine foldl_last_le _ _ _ ?_ 0 (Nat.zero_le _)
  intro i hi
  rw [List.mem_range'_1] at hi
  simp only [maxIopageRegisterCount] at hi
  omega

/-- Consecutive words of a device are different words of the page. -/
theorem entry_ne {base : UInt} {i j : ℕ} (hij : i < j) (hj : j < 0x1000) :
    entry (base + BitVec.ofNat 32 (2 * i)) ≠ entry (base + BitVec.ofNat 32 (2 * j)) := by
  intro h
  have hnat := congrArg BitVec.toNat h
  simp only [entry, BitVec.extractLsb'_toNat, BitVec.toNat_add, BitVec.toNat_ofNat,
    Nat.shiftRight_eq_div_pow] at hnat
  omega

end QUniBone
