import Mathlib.Data.BitVec
import Mathlib.Logic.Function.Basic
import Mathlib.Tactic.Common
import Mathlib.Tactic.IntervalCases

/-!
# Memory images

`memoryimage_c`: words, and which of them a file has set. A byte can be put at any address.

* `MemoryImage`, `putWord`, `putByte`, `Addressable`: the image, as the loaders fill it.
* `byteAt`: the image as bytes.
* `lastOf`, `Filled`: what puts leave in an image.
-/

namespace QUniBone

/-- `QUNIBUS_MAX_WORDCOUNT` -/
def MEMORY_WORD_COUNT : ℕ := 0x200000

structure MemoryImage where
  /-- `data.words` -/
  words : ℕ → BitVec 16
  valid : ℕ → Bool

namespace MemoryImage

/-- `init()` -/
def init : MemoryImage := ⟨fun _ => 0, fun _ => false⟩

/-- What `assert_address` checks -/
def Addressable (addr : ℕ) : Prop := addr / 2 < MEMORY_WORD_COUNT

instance decidableAddressable (addr : ℕ) : Decidable (Addressable addr) :=
  inferInstanceAs (Decidable (_ < _))

def getWord (m : MemoryImage) (addr : ℕ) : BitVec 16 := m.words (addr / 2)

def putWord (m : MemoryImage) (addr : ℕ) (w : BitVec 16) : MemoryImage where
  words := Function.update m.words (addr / 2) w
  valid := Function.update m.valid (addr / 2) true

/-- `b` is an `unsigned`, and may be more than a byte. -/
def putByte (m : MemoryImage) (addr : ℕ) (b : BitVec 16) : MemoryImage :=
  let w := m.getWord addr
  m.putWord addr (if addr % 2 = 0 then w &&& 0xff00 ||| b else w &&& 0xff ||| b <<< 8)

/-! ## Bytes -/

def byteAt (m : MemoryImage) (addr : ℕ) : BitVec 8 :=
  if addr % 2 = 0 then (m.getWord addr).setWidth 8 else (m.getWord addr >>> 8).setWidth 8

variable {m n : MemoryImage}

theorem low_or (w : BitVec 16) (b : BitVec 8) :
    (w &&& 0xff00 ||| b.setWidth 16).setWidth 8 = b := by
  ext i hi
  interval_cases i <;> simp

theorem high_or (w : BitVec 16) (b : BitVec 8) :
    ((w &&& 0xff00 ||| b.setWidth 16) >>> 8).setWidth 8 = (w >>> 8).setWidth 8 := by
  ext i hi
  interval_cases i <;> simp

theorem low_or_shift (w : BitVec 16) (b : BitVec 8) :
    (w &&& 0xff ||| b.setWidth 16 <<< 8).setWidth 8 = w.setWidth 8 := by
  ext i hi
  interval_cases i <;> simp

theorem high_or_shift (w : BitVec 16) (b : BitVec 8) :
    ((w &&& 0xff ||| b.setWidth 16 <<< 8) >>> 8).setWidth 8 = b := by
  ext i hi
  interval_cases i <;> simp

/-- A byte that is put changes no other byte. -/
theorem byteAt_putByte (m : MemoryImage) (addr a : ℕ) (b : BitVec 8) :
    (m.putByte addr (b.setWidth 16)).byteAt a = if a = addr then b else m.byteAt a := by
  unfold byteAt putByte putWord getWord
  dsimp only
  rcases eq_or_ne (a / 2) (addr / 2) with hword | hword
  case inr =>
    have hne : a ≠ addr := fun h => hword (h ▸ rfl)
    rw [Function.update_of_ne hword, if_neg hne]
  case inl =>
    rw [hword, Function.update_self]
    rcases Nat.mod_two_eq_zero_or_one a with ha | ha <;>
      rcases Nat.mod_two_eq_zero_or_one addr with haddr | haddr
    · rw [if_pos ha, if_pos haddr, if_pos (by omega), low_or]
    · rw [if_pos ha, if_neg (by omega), if_neg (by omega), if_pos ha, low_or_shift]
    · rw [if_neg (by omega), if_pos haddr, if_neg (by omega), if_neg (by omega), high_or]
    · rw [if_neg (by omega), if_neg (by omega), if_pos (by omega), high_or_shift]

@[simp]
theorem valid_putByte (m : MemoryImage) (addr w : ℕ) (b : BitVec 16) :
    (m.putByte addr b).valid w = (decide (w = addr / 2) || m.valid w) := by
  show Function.update m.valid (addr / 2) true w = _
  rcases eq_or_ne w (addr / 2) with heq | hne
  · simp [heq]
  · simp [hne]

/-! ## What was put -/

/-- `n` is `m` with the bytes `f` put into it. -/
structure Filled (m n : MemoryImage) (f : ℕ → Option (BitVec 8)) : Prop where
  byteAt : ∀ a, n.byteAt a = (f a).getD (m.byteAt a)
  valid : ∀ w, n.valid w = (m.valid w || (f (2 * w)).isSome || (f (2 * w + 1)).isSome)

/-- Bytes from an address on -/
def bytesFrom (addr : ℕ) (data : List (BitVec 8)) (a : ℕ) : Option (BitVec 8) :=
  if addr ≤ a then data[a - addr]? else none

theorem bytesFrom_nil (addr a : ℕ) : bytesFrom addr [] a = none := by
  unfold bytesFrom
  split <;> rfl

theorem bytesFrom_cons (addr a : ℕ) (b : BitVec 8) (data : List (BitVec 8)) :
    bytesFrom addr (b :: data) a =
      (bytesFrom (addr + 1) data a).or (if a = addr then some b else none) := by
  unfold bytesFrom
  rcases Nat.lt_trichotomy a addr with hlt | heq | hgt
  · rw [if_neg (by omega), if_neg (by omega), if_neg (by omega)]
    rfl
  · subst heq
    simp
  · obtain ⟨k, rfl⟩ : ∃ k, a = addr + 1 + k := ⟨a - (addr + 1), by omega⟩
    rw [if_pos (by omega), if_pos (by omega), if_neg (by omega),
      show addr + 1 + k - addr = k + 1 by omega, show addr + 1 + k - (addr + 1) = k by omega,
      List.getElem?_cons_succ, Option.or_none]

theorem Filled.refl (m : MemoryImage) : Filled m m fun _ => none :=
  ⟨fun _ => rfl, fun _ => by simp⟩

/-- What is put later lies over what was put before. -/
theorem Filled.trans {o : MemoryImage} {f g : ℕ → Option (BitVec 8)} (h : Filled m n f)
    (h' : Filled n o g) : Filled m o fun a => (g a).or (f a) where
  byteAt a := by
    rw [h'.byteAt, h.byteAt]
    cases g a <;> rfl
  valid w := by
    rw [h'.valid, h.valid]
    cases g (2 * w) <;> cases g (2 * w + 1) <;> simp

theorem Filled.congr {f g : ℕ → Option (BitVec 8)} (h : Filled m n f) (hfg : ∀ a, f a = g a) :
    Filled m n g := by
  rwa [← funext hfg]

theorem filled_putByte (m : MemoryImage) (addr : ℕ) (b : BitVec 8) :
    Filled m (m.putByte addr (b.setWidth 16)) fun a => if a = addr then some b else none where
  byteAt a := by
    rw [byteAt_putByte]
    split <;> rfl
  valid w := by
    rw [valid_putByte, Bool.or_assoc, Bool.or_comm]
    congr 1
    rcases eq_or_ne w (addr / 2) with heq | hne
    · rcases Nat.mod_two_eq_zero_or_one addr with haddr | haddr
      · simp [heq, show 2 * (addr / 2) = addr by omega]
      · simp [heq, show 2 * (addr / 2) + 1 = addr by omega]
    · rw [if_neg (by omega), if_neg (by omega)]
      simp [hne]

/-- Bytes put one after another -/
def putBytes (m : MemoryImage) (addr : ℕ) : List (BitVec 8) → MemoryImage
  | [] => m
  | b :: data => (m.putByte addr (b.setWidth 16)).putBytes (addr + 1) data

theorem filled_putBytes (m : MemoryImage) (addr : ℕ) (data : List (BitVec 8)) :
    Filled m (m.putBytes addr data) (bytesFrom addr data) := by
  induction data generalizing m addr with
  | nil => exact (Filled.refl m).congr fun a => (bytesFrom_nil addr a).symm
  | cons b data ih =>
    have hbyte := filled_putByte m addr b
    exact (hbyte.trans (ih (m.putByte addr (b.setWidth 16)) (addr + 1))).congr fun a =>
      (bytesFrom_cons addr a b data).symm

end MemoryImage

end QUniBone
