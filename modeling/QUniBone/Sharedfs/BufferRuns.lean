import QUniBone.Sharedfs.BufferObjects
import QUniBone.Lib.Transition

/-!
# Any calls of byte buffers

Some objects of `byte_buffer_c`, which are made, changed, copied and destroyed in any order.

* `Buffers`, `BufferOp`, `Buffers.step`: the calls.
* `Buffers.Sound`: every object has a block of its size for itself.
* `BufferOp.Right`: what a copy, and the access to a byte or a word, shall do.
* `BufferOp.Fine`: when they do.
* `bounds_exact`: all runs.
-/

namespace QUniBone.Sharedfs

open Transition

/-! ## Model -/

structure Buffers where
  heap : Heap
  object : ℕ → Option BufferObject

inductive BufferOp
  | construct (k : ℕ) (endianness : Endianness)
  | copyConstruct (k j : ℕ)
  | destroy (k : ℕ)
  | assign (k j : ℕ)
  | setSize (k : ℕ) (newSize : Unsigned)
  | setData (k : ℕ) (srcData : ℕ → Byte) (srcSize : Unsigned)
  | setDataFrom (k j : ℕ)
  | setDataString (k : ℕ) (s : List Byte)
  | setDataStream (k : ℕ) (st : List Byte) (newSize : Unsigned)
  | initZero (k : ℕ) (newSize : Unsigned)
  | getByte (k : ℕ) (byteOffset : Unsigned)
  | setByte (k : ℕ) (byteOffset : Unsigned) (val : Byte)
  | getWordAtByteOffset (k : ℕ) (byteOffset : Unsigned)
  | setWordAtByteOffset (k : ℕ) (byteOffset : Unsigned) (val : ℕ)
  | getWordAtWordOffset (k : ℕ) (wordOffset : Unsigned)
  | setWordAtWordOffset (k : ℕ) (wordOffset : Unsigned) (val : ℕ)
  | setBytesAtByteOffset (k : ℕ) (byteOffset : Unsigned) (j : ℕ)

namespace Buffers

def start (junk : ℕ → Byte) : Buffers where
  heap := ⟨fun _ => none, 0, junk⟩
  object _ := none

def get (m : Buffers) (k : ℕ) : Except Fault BufferObject :=
  match m.object k with
  | some b => .ok b
  | none => .error .nullPointer

def put (m : Buffers) (h : Heap) (k : ℕ) (b : BufferObject) : Buffers where
  heap := h
  object := Function.update m.object k (some b)

/-- A method of an object that may move its block -/
def call (m : Buffers) (k : ℕ) (f : BufferObject → Heap → Except Fault (Heap × BufferObject)) :
    Except Fault Buffers := do
  let b ← m.get k
  let (h, b') ← f b m.heap
  return m.put h k b'

/-- A method of an object that changes bytes -/
def change (m : Buffers) (k : ℕ) (f : BufferObject → Heap → Except Fault Heap) :
    Except Fault Buffers :=
  m.call k fun b h => (f b h).map (·, b)

/-- A method of an object that changes nothing -/
def look {α : Type} (m : Buffers) (k : ℕ) (f : BufferObject → Heap → Except Fault α) :
    Except Fault Buffers := do
  let b ← m.get k
  let _ ← f b m.heap
  return m

/-- `this` after `zero_byte_val` is copied, and then the data -/
def copy (m : Buffers) (k : ℕ) (b : BufferObject) (j : ℕ) : Except Fault Buffers := do
  let other ← m.get j
  let (h, b') ← (b.withZero other.zeroByteVal).setData m.heap (.block other.data) other.size
  return m.put h k b'

def step (m : Buffers) : BufferOp → Except Fault Buffers
  | .construct k endianness => .ok (m.put m.heap k (.new endianness))
  | .copyConstruct k j => m.copy k (.new .pdp11) j
  | .destroy k => do
    let b ← m.get k
    return ⟨m.heap.free b.data, Function.update m.object k none⟩
  | .assign k j =>
    if k = j then .ok m
    else do
      let b ← m.get k
      m.copy k b j
  | .setSize k newSize => m.call k fun b h => b.setSize h newSize.toNat
  | .setData k srcData srcSize => m.call k fun b h => b.setData h (.caller srcData) srcSize.toNat
  | .setDataFrom k j => do
    let bb ← m.get j
    m.call k fun b h => b.setData h (.block bb.data) bb.size
  | .setDataString k s =>
    -- include \0
    let newSize : Unsigned := .ofNat 32 (s.length + 1)
    m.call k fun b h => b.setData h (.caller fun i => s.getD i 0) newSize.toNat
  | .setDataStream k st newSize => m.call k fun b h => b.setDataStream h st newSize.toNat
  | .initZero k newSize => m.call k fun b h => b.initZero h newSize.toNat
  | .getByte k byteOffset => m.look k fun b h => b.getByte h byteOffset
  | .setByte k byteOffset val => m.change k fun b h => b.setByte h byteOffset val
  | .getWordAtByteOffset k byteOffset => m.look k fun b h => b.getWordAtByteOffset h byteOffset
  | .setWordAtByteOffset k byteOffset val =>
    m.change k fun b h => b.setWordAtByteOffset h byteOffset val
  | .getWordAtWordOffset k wordOffset => m.look k fun b h => b.getWordAtWordOffset h wordOffset
  | .setWordAtWordOffset k wordOffset val =>
    m.change k fun b h => b.setWordAtWordOffset h wordOffset val
  | .setBytesAtByteOffset k byteOffset j => do
    let bb ← m.get j
    m.change k fun b h => b.setBytesAtByteOffset h byteOffset bb

/-- States after any calls that returned -/
def Reached : Buffers → Prop :=
  Reachable (fun m => ∃ junk, m = start junk) fun m m' => ∃ op, m.step op = .ok m'

/-! ## What the calls shall do -/

/-- The bytes allocated for an object -/
def allocation (m : Buffers) (b : BufferObject) : ℕ :=
  match b.data.bind m.heap.block with
  | some block => block.size
  | none => 0

/-- No assertion stops the program. -/
def Accepted (r : Except Fault Buffers) : Prop := r ≠ .error .assertion

def Inside (m : Buffers) (k first count : ℕ) : Prop :=
  ∃ b, m.object k = some b ∧ first + count ≤ b.size

/-- Object `k` is equal to object `j`, which is as it was, and has other memory. -/
structure CopyOf (m m' : Buffers) (k j : ℕ) (b c : BufferObject) : Prop where
  copy : m'.object k = some b
  original : m'.object j = some c
  unchanged : m.object j = some c
  size : b.size = c.size
  endianness : b.endianness = c.endianness
  content : ∀ i < c.size, m'.heap.content b i = m'.heap.content c i
  bytes : ∀ i < c.size, m'.heap.content c i = m.heap.content c i
  apart : k ≠ j → ∀ a, b.data = some a → c.data ≠ some a

end Buffers

namespace BufferOp

open Buffers

/-- The objects of the call are there, and an object that is made is not. -/
def Live (m : Buffers) : BufferOp → Prop
  | construct k _ => m.object k = none
  | copyConstruct k j => m.object k = none ∧ m.object j ≠ none
  | assign k j | setDataFrom k j | setBytesAtByteOffset k _ j =>
    m.object k ≠ none ∧ m.object j ≠ none
  | destroy k | setSize k _ | setData k _ _ | setDataString k _ | setDataStream k _ _
  | initZero k _ | getByte k _ | setByte k _ _ | getWordAtByteOffset k _
  | setWordAtByteOffset k _ _ | getWordAtWordOffset k _ | setWordAtWordOffset k _ _ =>
    m.object k ≠ none

/-- A copy equals its original. A byte or a word is accessed if and only if it is inside. -/
def Right (m : Buffers) (op : BufferOp) : Prop :=
  match op with
  | copyConstruct k j | assign k j => ∃ m' b c, m.step op = .ok m' ∧ CopyOf m m' k j b c
  | getByte k byteOffset | setByte k byteOffset _ =>
    Accepted (m.step op) ↔ m.Inside k byteOffset.toNat 1
  | getWordAtByteOffset k byteOffset | setWordAtByteOffset k byteOffset _ =>
    Accepted (m.step op) ↔ m.Inside k byteOffset.toNat 2
  | getWordAtWordOffset k wordOffset | setWordAtWordOffset k wordOffset _ =>
    Accepted (m.step op) ↔ m.Inside k (2 * wordOffset.toNat) 2
  | _ => True

/-- The bytes from `first` on are a word of the buffer, which has the only endianness that there is
code for, or are none, and the offset is not that of its last byte. -/
def WordFine (b : BufferObject) (first : ℕ) (byteOffset : Unsigned) : Prop :=
  (first + 2 ≤ b.size → b.endianness = .pdp11) ∧
    (b.size < first + 2 → byteOffset.toNat < b.size → b.endianness ≠ .pdp11)

/-- The original is not empty, and has the endianness that the copy has before. -/
def Fine (m : Buffers) : BufferOp → Prop
  | copyConstruct _ j => ∀ c, m.object j = some c → c.size ≠ 0 ∧ c.endianness = .pdp11
  | assign k j => k = j ∨ ∀ b c, m.object k = some b → m.object j = some c →
      c.size ≠ 0 ∧ c.endianness = b.endianness
  | getWordAtByteOffset k byteOffset | setWordAtByteOffset k byteOffset _ =>
    ∀ b, m.object k = some b → WordFine b byteOffset.toNat byteOffset
  | getWordAtWordOffset k wordOffset | setWordAtWordOffset k wordOffset _ =>
    ∀ b, m.object k = some b → WordFine b (2 * wordOffset.toNat) (2 * wordOffset)
  | _ => True

end BufferOp

namespace Buffers

variable {m m' : Buffers} {k j : ℕ} {b b' c : BufferObject} {h' : Heap}

theorem get_eq_ok : m.get k = .ok b ↔ m.object k = some b := by
  unfold get
  cases m.object k <;> simp

/-! ## Every object has its block -/

structure Sound (m : Buffers) : Prop where
  bounded : m.heap.Bounded
  stored : ∀ k b, m.object k = some b → Stored m.heap b
  apart : ∀ k j b c a, m.object k = some b → m.object j = some c → b.data = some a →
    c.data = some a → k = j
  size_lt : ∀ k b, m.object k = some b → b.size < 2 ^ 32

theorem start_sound (junk : ℕ → Byte) : (start junk).Sound := by
  constructor <;> simp [start, Heap.Bounded]

theorem object_put (j : ℕ) :
    (m.put h' k b).object j = if j = k then some b else m.object j :=
  Function.update_apply ..

/-- A method of an object whose block is that of `k`, or of a new one -/
theorem Sound.put (hm : m.Sound)
    (hown : ∀ a, b.data = some a → ∃ c, m.object k = some c ∧ c.data = some a)
    (hk : Kept m.heap b h' b') (hsize : b'.size < 2 ^ 32) : (m.put h' k b').Sound := by
  have hother : ∀ i c, i ≠ k → m.object i = some c → ∀ a, b.data = some a → c.data ≠ some a := by
    intro i c hi hc a ha hca
    obtain ⟨d, hd, hda⟩ := hown a ha
    exact hi (hm.apart i k c d a hc hd hca hda)
  -- the new block of `k` is of no other object
  have hnew : ∀ i c a, i ≠ k → m.object i = some c → b'.data = some a → c.data ≠ some a := by
    intro i c a hi hc ha hca
    rcases hk.data a ha with hold | hfresh
    · exact hother i c hi hc a hold hca
    · have hlt := (hm.stored i c hc).data_lt hm.bounded hca
      omega
  constructor
  case bounded => exact hk.bounded
  case stored =>
    intro i c hc
    rw [object_put] at hc
    split_ifs at hc with hi
    · obtain rfl := Option.some.inj hc
      exact hk.stored
    · exact (hk.other hm.bounded (hm.stored i c hc) (hother i c hi hc)).1
  case apart =>
    intro i l c d a hc hd hca hda
    rw [object_put] at hc hd
    split_ifs at hc hd with hi hl hl
    · rw [hi, hl]
    · obtain rfl := Option.some.inj hc
      exact absurd hda (hnew l d a hl hd hca)
    · obtain rfl := Option.some.inj hd
      exact absurd hca (hnew i c a hi hc hda)
    · exact hm.apart i l c d a hc hd hca hda
  case size_lt =>
    intro i c hc
    rw [object_put] at hc
    split_ifs at hc with hi
    · obtain rfl := Option.some.inj hc
      exact hsize
    · exact hm.size_lt i c hc

theorem call_eq_ok {f : BufferObject → Heap → Except Fault (Heap × BufferObject)} :
    m.call k f = .ok m' ↔
      ∃ b h' b', m.object k = some b ∧ f b m.heap = .ok (h', b') ∧ m.put h' k b' = m' := by
  constructor
  · intro hok
    obtain ⟨b, hb, hok⟩ := bind_eq_ok.mp hok
    obtain ⟨⟨h', b'⟩, hf, hok⟩ := bind_eq_ok.mp hok
    exact ⟨b, h', b', get_eq_ok.mp hb, hf, Except.ok.inj hok⟩
  · intro hok
    obtain ⟨b, h', b', hb, hf, rfl⟩ := hok
    exact bind_eq_ok.mpr ⟨b, get_eq_ok.mpr hb, bind_eq_ok.mpr ⟨(h', b'), hf, rfl⟩⟩

theorem Sound.call (hm : m.Sound) {f : BufferObject → Heap → Except Fault (Heap × BufferObject)}
    (hf : ∀ b h' b', Stored m.heap b → b.size < 2 ^ 32 → f b m.heap = .ok (h', b') →
      Kept m.heap b h' b' ∧ b'.size < 2 ^ 32) (hok : m.call k f = .ok m') : m'.Sound := by
  obtain ⟨b, h', b', hb, hf', rfl⟩ := call_eq_ok.mp hok
  obtain ⟨hkept, hsize⟩ := hf b h' b' (hm.stored k b hb) (hm.size_lt k b hb) hf'
  exact hm.put (fun a ha => ⟨b, hb, ha⟩) hkept hsize

theorem Sound.change (hm : m.Sound) {f : BufferObject → Heap → Except Fault Heap}
    (hf : ∀ b h', Stored m.heap b → f b m.heap = .ok h' → Kept m.heap b h' b)
    (hok : m.change k f = .ok m') : m'.Sound := by
  refine hm.call (fun b h' b' hs hsize hok => ?_) hok
  cases hr : f b m.heap with
  | error e => simp [hr, Except.map] at hok
  | ok h₁ =>
    rw [hr] at hok
    obtain ⟨rfl, rfl⟩ := Prod.mk.inj (Except.ok.inj hok)
    exact ⟨hf b h₁ hs hr, hsize⟩

theorem Sound.look {α : Type} (hm : m.Sound) {f : BufferObject → Heap → Except Fault α}
    (hok : m.look k f = .ok m') : m'.Sound := by
  obtain ⟨b, _, hok⟩ := bind_eq_ok.mp hok
  obtain ⟨r, _, hok⟩ := bind_eq_ok.mp hok
  exact Except.ok.inj hok ▸ hm

/-- The zero value has no part in where the bytes are. -/
theorem stored_withZero {h : Heap} (hs : Stored h b) (z : Byte) : Stored h (b.withZero z) := by
  cases hs with
  | empty hdata hsize => exact .empty hdata hsize
  | block hdata hblock hsize hpos => exact .block hdata hblock hsize hpos

theorem Sound.copy (hm : m.Sound) (hs : Stored m.heap b)
    (hown : ∀ a, b.data = some a → ∃ c, m.object k = some c ∧ c.data = some a)
    (hok : m.copy k b j = .ok m') : m'.Sound := by
  obtain ⟨other, hother, hok⟩ := bind_eq_ok.mp hok
  obtain ⟨⟨h', b'⟩, hset, hok⟩ := bind_eq_ok.mp hok
  obtain rfl := Except.ok.inj hok
  obtain ⟨hkept, hsize⟩ := setData_kept (stored_withZero hs _) hm.bounded hset
  have hown' : ∀ a, (b.withZero other.zeroByteVal).data = some a →
      ∃ c, m.object k = some c ∧ c.data = some a := hown
  exact hm.put hown' hkept (hsize ▸ hm.size_lt j other (get_eq_ok.mp hother))

theorem new_stored (h : Heap) (e : Endianness) : Stored h (.new e) := .empty rfl rfl

/-- The block is freed, and no other object has it. -/
theorem Sound.destroy (hm : m.Sound) (hb : m.object k = some b) :
    Sound ⟨m.heap.free b.data, Function.update m.object k none⟩ := by
  have hobject : ∀ i c, Function.update m.object k none i = some c →
      i ≠ k ∧ m.object i = some c := by
    intro i c hc
    rw [Function.update_apply] at hc
    split_ifs at hc with hi
    exact ⟨hi, hc⟩
  constructor
  case bounded =>
    intro a ha
    refine hm.bounded.free b.data a ?_
    cases hdata : b.data <;> exact hdata ▸ ha
  case stored =>
    intro i c hc
    obtain ⟨hi, hc⟩ := hobject i c hc
    cases hm.stored i c hc with
    | empty hdata hsize => exact .empty hdata hsize
    | @block a B hdata hblock hsize hpos =>
      have hne : b.data ≠ some a := fun heq => hi (hm.apart i k c b a hc hb hdata heq)
      exact .block hdata ((free_block hne).trans hblock) hsize hpos
  case apart =>
    intro i l c d a hc hd
    exact hm.apart i l c d a (hobject i c hc).2 (hobject l d hd).2
  case size_lt =>
    intro i c hc
    exact hm.size_lt i c (hobject i c hc).2

theorem Sound.step {op : BufferOp} (hm : m.Sound) (hok : m.step op = .ok m') : m'.Sound := by
  cases op with
  | construct k e =>
    obtain rfl := Except.ok.inj hok
    exact hm.put (fun a ha => by cases ha) (.refl (new_stored _ e) hm.bounded)
      (by simp [BufferObject.new])
  | copyConstruct k j => exact hm.copy (new_stored _ _) (fun a ha => by cases ha) hok
  | destroy k =>
    obtain ⟨b, hb, hok⟩ := bind_eq_ok.mp hok
    exact Except.ok.inj hok ▸ hm.destroy (get_eq_ok.mp hb)
  | assign k j =>
    rw [Buffers.step] at hok
    split_ifs at hok with hkj
    · exact Except.ok.inj hok ▸ hm
    · obtain ⟨b, hb, hok⟩ := bind_eq_ok.mp hok
      have hobject := get_eq_ok.mp hb
      exact hm.copy (hm.stored k b hobject) (fun a ha => ⟨b, hobject, ha⟩) hok
  | setSize k n =>
    rw [Buffers.step] at hok
    refine hm.call (fun b h' b' hs _ hok => ?_) hok
    obtain ⟨hkept, hsize⟩ := setSize_kept hs hm.bounded hok
    exact ⟨hkept, hsize ▸ n.isLt⟩
  | setData k src n =>
    rw [Buffers.step] at hok
    refine hm.call (fun b h' b' hs _ hok => ?_) hok
    obtain ⟨hkept, hsize⟩ := setData_kept hs hm.bounded hok
    exact ⟨hkept, hsize ▸ n.isLt⟩
  | setDataFrom k j =>
    obtain ⟨bb, hbb, hok⟩ := bind_eq_ok.mp hok
    refine hm.call (fun b h' b' hs _ hok => ?_) hok
    obtain ⟨hkept, hsize⟩ := setData_kept hs hm.bounded hok
    exact ⟨hkept, hsize ▸ hm.size_lt j bb (get_eq_ok.mp hbb)⟩
  | setDataString k s =>
    simp only [Buffers.step] at hok
    refine hm.call (fun b h' b' hs _ hok => ?_) hok
    obtain ⟨hkept, hsize⟩ := setData_kept hs hm.bounded hok
    exact ⟨hkept, hsize ▸ BitVec.isLt _⟩
  | setDataStream k st n =>
    rw [Buffers.step] at hok
    refine hm.call (fun b h' b' hs _ hok => ?_) hok
    obtain ⟨hkept, hsize⟩ := setDataStream_kept hs hm.bounded hok
    exact ⟨hkept, hsize ▸ n.isLt⟩
  | initZero k n =>
    rw [Buffers.step] at hok
    refine hm.call (fun b h' b' hs _ hok => ?_) hok
    obtain ⟨hkept, hsize⟩ := initZero_kept hs hm.bounded hok
    exact ⟨hkept, hsize ▸ n.isLt⟩
  | getByte k offset =>
    rw [Buffers.step] at hok
    exact hm.look hok
  | setByte k offset val => exact hm.change (fun b h' hs hok => setByte_kept hs hm.bounded hok) hok
  | getWordAtByteOffset k offset =>
    rw [Buffers.step] at hok
    exact hm.look hok
  | setWordAtByteOffset k offset val =>
    exact hm.change (fun b h' hs hok => setWord_kept hs hm.bounded hok) hok
  | getWordAtWordOffset k offset =>
    rw [Buffers.step] at hok
    exact hm.look hok
  | setWordAtWordOffset k offset val =>
    exact hm.change (fun b h' hs hok => setWord_kept hs hm.bounded hok) hok
  | setBytesAtByteOffset k offset j =>
    obtain ⟨bb, -, hok⟩ := bind_eq_ok.mp hok
    exact hm.change (fun b h' hs hok => setBytes_kept hs hm.bounded hok) hok

theorem Reached.sound (h : m.Reached) : m.Sound := by
  refine h.invariant (fun m hm => ?_) fun m m' hm hst => ?_
  · obtain ⟨junk, rfl⟩ := hm
    exact start_sound junk
  · obtain ⟨op, hstep⟩ := hst
    exact hm.step hstep

/-- The size of an object is what was allocated for it. -/
theorem Sound.allocation (hm : m.Sound) (hb : m.object k = some b) :
    m.allocation b = b.size := by
  unfold Buffers.allocation
  cases hm.stored k b hb with
  | empty hdata hsize => simp [hdata, hsize]
  | block hdata hblock hsize _ => simp [hdata, hblock, hsize]

/-! ## Copies -/

/-- An original that is not empty is copied, but for the endianness. -/
theorem copy_spec (hm : m.Sound) (hs : Stored m.heap b) (hc : m.object j = some c) (hkj : k ≠ j)
    (hapart : ∀ a, b.data = some a → c.data ≠ some a) (hsize : c.size ≠ 0) :
    ∃ m' b', m.copy k b j = .ok m' ∧ m'.object k = some b' ∧ b'.endianness = b.endianness ∧
      (b.endianness = c.endianness → CopyOf m m' k j b' c) := by
  obtain ⟨h', b', hset, hkept, hsize', hcontent⟩ :=
    setData_spec (stored_withZero hs c.zeroByteVal) hm.bounded (hm.stored j c hc) hapart hsize
  obtain ⟨-, hother⟩ := hkept.other hm.bounded (hm.stored j c hc) hapart
  have hcopy : (m.put h' k b').object k = some b' := by rw [object_put, if_pos rfl]
  have hok : m.copy k b j = .ok (m.put h' k b') :=
    bind_eq_ok.mpr ⟨c, get_eq_ok.mpr hc, bind_eq_ok.mpr ⟨(h', b'), hset, rfl⟩⟩
  refine ⟨m.put h' k b', b', hok, hcopy, hkept.endianness, fun hendian => ?_⟩
  constructor
  case copy => exact hcopy
  case original => rw [object_put, if_neg hkj.symm, hc]
  case unchanged => exact hc
  case size => exact hsize'
  case endianness => exact hkept.endianness.trans hendian
  case content =>
    intro i hi
    show h'.content b' i = h'.content c i
    rw [hcontent i hi, hother]
  case bytes =>
    intro i _
    exact hother i
  case apart =>
    intro _ a ha hca
    rcases hkept.data a ha with hold | hnew
    · exact hapart a hold hca
    · have hlt := (hm.stored j c hc).data_lt hm.bounded hca
      omega

theorem copy_empty (hm : m.Sound) (hs : Stored m.heap b) (hc : m.object j = some c)
    (hsize : c.size = 0) : m.copy k b j = .error .assertion := by
  have hset := setData_zero (stored_withZero hs c.zeroByteVal) hm.bounded (.block c.data)
  simp [copy, bind, Except.bind, get_eq_ok.mpr hc, hsize, hset]

/-- The copy is right if and only if the original is not empty and has the endianness that `this`
has before. -/
theorem copy_iff (hm : m.Sound) (hs : Stored m.heap b) (hc : m.object j = some c) (hkj : k ≠ j)
    (hapart : ∀ a, b.data = some a → c.data ≠ some a) :
    (∃ m' b' c', m.copy k b j = .ok m' ∧ CopyOf m m' k j b' c') ↔
      c.size ≠ 0 ∧ c.endianness = b.endianness := by
  constructor
  · intro hright
    obtain ⟨m', b', c', hok, hcopy⟩ := hright
    obtain rfl := Option.some.inj (hc.symm.trans hcopy.unchanged)
    have hsize : c.size ≠ 0 := by
      intro hzero
      rw [copy_empty hm hs hc hzero] at hok
      contradiction
    obtain ⟨m₁, b₁, hok₁, hb₁, hendian, -⟩ := copy_spec hm hs hc hkj hapart hsize
    obtain rfl := Except.ok.inj (hok₁.symm.trans hok)
    obtain rfl := Option.some.inj (hb₁.symm.trans hcopy.copy)
    exact ⟨hsize, hcopy.endianness.symm.trans hendian⟩
  · intro hfine
    obtain ⟨m', b', hok, -, -, hcopy⟩ := copy_spec hm hs hc hkj hapart hfine.1
    exact ⟨m', b', c, hok, hcopy hfine.2.symm⟩

/-- An object is its own copy. -/
theorem copyOf_self (hb : m.object k = some b) : CopyOf m m k k b b where
  copy := hb
  original := hb
  unchanged := hb
  size := rfl
  endianness := rfl
  content _ _ := rfl
  bytes _ _ := rfl
  apart hne := absurd rfl hne

/-! ## Accesses -/

theorem assert_bind {α : Type} {p : Prop} [Decidable p] {f : Unit → Except Fault α} :
    assert p >>= f ≠ .error .assertion ↔ p ∧ f () ≠ .error .assertion := by
  by_cases hp : p <;> simp [assert, hp, bind, Except.bind]

theorem access_ne (h : Heap) (data : Option ℕ) (stop : ℕ) :
    h.access data stop ≠ .error .assertion := by
  unfold Heap.access
  split
  · simp
  · split
    · simp
    · split_ifs <;> simp

theorem map_ne {α β : Type} {r : Except Fault α} {f : α → β} :
    r.map f ≠ .error .assertion ↔ r ≠ .error .assertion := by
  cases r <;> simp [Except.map]

/-- A wrong access is no failing assertion. -/
theorem load_ne (h : Heap) (data : Option ℕ) (offset count : ℕ) :
    h.load data offset count ≠ .error .assertion := by
  unfold Heap.load
  split_ifs
  · simp
  · exact map_ne.mpr (access_ne _ _ _)

theorem store_ne (h : Heap) (data : Option ℕ) (offset count : ℕ) (bytes : ℕ → Byte) :
    h.store data offset count bytes ≠ .error .assertion := by
  unfold Heap.store
  split_ifs
  · simp
  · exact map_ne.mpr (access_ne _ _ _)

theorem bind_pure_ne {α β : Type} {r : Except Fault α} {f : α → β} :
    (r >>= fun a => pure (f a)) ≠ .error .assertion ↔ r ≠ .error .assertion := by
  cases r <;> simp [bind, Except.bind, pure, Except.pure]

theorem look_accepted {α : Type} {f : BufferObject → Heap → Except Fault α}
    (hb : m.object k = some b) :
    Accepted (m.look k f) ↔ f b m.heap ≠ .error .assertion := by
  have hlook : m.look k f = f b m.heap >>= fun _ => pure m := by
    simp [look, bind, Except.bind, get_eq_ok.mpr hb]
  rw [Accepted, hlook, bind_pure_ne]

theorem change_accepted {f : BufferObject → Heap → Except Fault Heap} (hb : m.object k = some b) :
    Accepted (m.change k f) ↔ f b m.heap ≠ .error .assertion := by
  have hchange : m.change k f =
      (f b m.heap).map (·, b) >>= fun r => pure (m.put r.1 k r.2) := by
    simp [change, call, bind, Except.bind, get_eq_ok.mpr hb]
  rw [Accepted, hchange, bind_pure_ne, map_ne]

theorem inside_iff (hb : m.object k = some b) {first count : ℕ} :
    m.Inside k first count ↔ first + count ≤ b.size := by
  simp [Inside, hb]

section

variable {h : Heap} {offset : Unsigned}

theorem getByte_ne (hs : Stored h b) :
    b.getByte h offset ≠ .error .assertion ↔ offset.toNat < b.size := by
  rw [BufferObject.getByte, assert_bind, assert_bind, bind_pure_ne]
  refine ⟨And.left, fun hlt => ⟨hlt, hs.data_ne_none (by omega), load_ne _ _ _ _⟩⟩

theorem setByte_ne (hs : Stored h b) {val : Byte} :
    b.setByte h offset val ≠ .error .assertion ↔ offset.toNat < b.size := by
  rw [BufferObject.setByte, assert_bind, assert_bind]
  refine ⟨And.left, fun hlt => ⟨hlt, hs.data_ne_none (by omega), store_ne _ _ _ _ _⟩⟩

/-- Only the first byte is looked at. -/
theorem getWord_ne :
    b.getWordAtByteOffset h offset ≠ .error .assertion ↔
      offset.toNat < b.size ∧ b.endianness = .pdp11 := by
  rw [BufferObject.getWordAtByteOffset, assert_bind, assert_bind, bind_pure_ne]
  simp [load_ne]

theorem setWord_ne {val : ℕ} :
    b.setWordAtByteOffset h offset val ≠ .error .assertion ↔
      offset.toNat < b.size ∧ b.endianness = .pdp11 := by
  rw [BufferObject.setWordAtByteOffset, assert_bind, assert_bind]
  simp [store_ne]

/-- An offset that does not wrap around, as it does not for a word inside -/
theorem word_accepted_iff {first : ℕ} (hsize : b.size < 2 ^ 32)
    (hoffset : first < 2 ^ 32 → offset.toNat = first) :
    (offset.toNat < b.size ∧ b.endianness = .pdp11 ↔ first + 2 ≤ b.size) ↔
      BufferOp.WordFine b first offset := by
  unfold BufferOp.WordFine
  by_cases hin : first + 2 ≤ b.size
  · have hlt : offset.toNat < b.size := by
      rw [hoffset (by omega)]
      omega
    simp [hin, hlt, Nat.not_lt.mpr hin]
  · simp [hin, Nat.not_le.mp hin]

end

theorem toNat_double (w : Unsigned) (h : 2 * w.toNat < 2 ^ 32) :
    (2 * w).toNat = 2 * w.toNat := by
  rw [BitVec.toNat_mul]
  exact Nat.mod_eq_of_lt h

/-! ## All runs -/

theorem right_iff (hm : m.Sound) {op : BufferOp} (hlive : op.Live m) :
    op.Right m ↔ op.Fine m := by
  cases op with
  | copyConstruct k j =>
    obtain ⟨c, hc⟩ := Option.ne_none_iff_exists'.mp hlive.2
    have hkj : k ≠ j := by
      rintro rfl
      exact hlive.2 hlive.1
    refine (copy_iff hm (new_stored _ _) hc hkj fun a ha => by cases ha).trans ?_
    simp [BufferOp.Fine, hc, BufferObject.new]
  | assign k j =>
    obtain ⟨b, hb⟩ := Option.ne_none_iff_exists'.mp hlive.1
    obtain ⟨c, hc⟩ := Option.ne_none_iff_exists'.mp hlive.2
    by_cases hkj : k = j
    · subst hkj
      refine iff_of_true ⟨m, b, b, ?_, copyOf_self hb⟩ (.inl rfl)
      rw [step, if_pos rfl]
    · have hstep : m.step (.assign k j) = m.copy k b j := by
        simp [step, hkj, bind, Except.bind, get_eq_ok.mpr hb]
      have hapart : ∀ a, b.data = some a → c.data ≠ some a :=
        fun a ha hca => hkj (hm.apart k j b c a hb hc ha hca)
      rw [BufferOp.Right, hstep, copy_iff hm (hm.stored k b hb) hc hkj hapart]
      simp [BufferOp.Fine, hkj, hb, hc]
  | getByte k offset =>
    obtain ⟨b, hb⟩ := Option.ne_none_iff_exists'.mp hlive
    rw [BufferOp.Right, step, look_accepted hb, inside_iff hb, getByte_ne (hm.stored k b hb)]
    exact iff_of_true (Iff.rfl) trivial
  | setByte k offset val =>
    obtain ⟨b, hb⟩ := Option.ne_none_iff_exists'.mp hlive
    rw [BufferOp.Right, step, change_accepted hb, inside_iff hb, setByte_ne (hm.stored k b hb)]
    exact iff_of_true (Iff.rfl) trivial
  | getWordAtByteOffset k offset =>
    obtain ⟨b, hb⟩ := Option.ne_none_iff_exists'.mp hlive
    rw [BufferOp.Right, step, look_accepted hb, inside_iff hb, getWord_ne,
      word_accepted_iff (hm.size_lt k b hb) fun _ => rfl]
    simp [BufferOp.Fine, hb]
  | setWordAtByteOffset k offset val =>
    obtain ⟨b, hb⟩ := Option.ne_none_iff_exists'.mp hlive
    rw [BufferOp.Right, step, change_accepted hb, inside_iff hb, setWord_ne,
      word_accepted_iff (hm.size_lt k b hb) fun _ => rfl]
    simp [BufferOp.Fine, hb]
  | getWordAtWordOffset k offset =>
    obtain ⟨b, hb⟩ := Option.ne_none_iff_exists'.mp hlive
    rw [BufferOp.Right, step, look_accepted hb, inside_iff hb, BufferObject.getWordAtWordOffset,
      getWord_ne, word_accepted_iff (hm.size_lt k b hb) (toNat_double offset)]
    simp [BufferOp.Fine, hb]
  | setWordAtWordOffset k offset val =>
    obtain ⟨b, hb⟩ := Option.ne_none_iff_exists'.mp hlive
    rw [BufferOp.Right, step, change_accepted hb, inside_iff hb,
      BufferObject.setWordAtWordOffset, setWord_ne,
      word_accepted_iff (hm.size_lt k b hb) (toNat_double offset)]
    simp [BufferOp.Fine, hb]
  | _ => exact iff_of_true trivial trivial

/-- In every run an object is as large as its block, which no other object has. A call does what it
shall if and only if it is fine. -/
theorem bounds_exact (h : m.Reached) :
    (∀ k b, m.object k = some b → b.size ≤ m.allocation b) ∧
      (∀ k j b c a, m.object k = some b → m.object j = some c → b.data = some a →
        c.data = some a → k = j) ∧
      ∀ op : BufferOp, op.Live m → (op.Right m ↔ op.Fine m) := by
  refine ⟨fun k b hb => ?_, h.sound.apart, fun op hlive => right_iff h.sound hlive⟩
  rw [h.sound.allocation hb]

/-- One buffer of some size -/
theorem one_reached (e : Endianness) (n : Unsigned) :
    ∃ (m : Buffers) (b : BufferObject), m.Reached ∧ m.object 0 = some b ∧ b.size = n.toNat ∧
      b.endianness = e ∧ m.object 1 = none := by
  let m : Buffers := (start fun _ => 0).put ⟨fun _ => none, 0, fun _ => 0⟩ 0 (.new e)
  have hm : m.Reached := Reachable.step (.init ⟨_, rfl⟩) ⟨.construct 0 e, rfl⟩
  obtain ⟨h', b, hset, hkept, hsize, -⟩ :=
    setSize_spec (hm.sound.stored 0 _ rfl) hm.sound.bounded n.toNat
  have hstep : m.step (.setSize 0 n) = .ok (m.put h' 0 b) := by
    rw [step]
    exact call_eq_ok.mpr ⟨.new e, h', b, rfl, hset, rfl⟩
  exact ⟨_, b, hm.step ⟨_, hstep⟩, rfl, hsize, hkept.endianness, rfl⟩

/-- A buffer of three bytes can be copied, and its first word read. -/
theorem bounds_exact_three : ∃ m : Buffers, m.Reached ∧ (BufferOp.copyConstruct 1 0).Right m ∧
    (BufferOp.getWordAtByteOffset 0 0).Right m := by
  obtain ⟨m, b, hm, hb, hsize, hendian, hnone⟩ := one_reached .pdp11 3
  have hright := (bounds_exact hm).2.2
  have hcopy : (BufferOp.copyConstruct 1 0).Live m := ⟨hnone, by simp [hb]⟩
  have hword : (BufferOp.getWordAtByteOffset 0 0).Live m := by simp [BufferOp.Live, hb]
  refine ⟨m, hm, (hright _ hcopy).mpr ?_, (hright _ hword).mpr ?_⟩
  · simp [BufferOp.Fine, hb, hsize, hendian]
  · simp [BufferOp.Fine, BufferOp.WordFine, hb, hsize, hendian]

/-- The copy of an empty buffer fails, the copy of a buffer of another endianness has not that
endianness, and a word is accessed whose second byte is behind the buffer. -/
theorem not_always_right :
    (∃ m : Buffers, m.Reached ∧ (BufferOp.copyConstruct 1 0).Live m ∧
      (∃ b, m.object 0 = some b ∧ b.size = 0) ∧ ¬ (BufferOp.copyConstruct 1 0).Right m) ∧
    (∃ m : Buffers, m.Reached ∧ (BufferOp.copyConstruct 1 0).Live m ∧
      (∃ b, m.object 0 = some b ∧ b.endianness = .big) ∧
        ¬ (BufferOp.copyConstruct 1 0).Right m) ∧
    ∃ m : Buffers, m.Reached ∧ (BufferOp.getWordAtByteOffset 0 2).Live m ∧
      (∃ b, m.object 0 = some b ∧ b.size = 3) ∧
        ¬ (BufferOp.getWordAtByteOffset 0 2).Right m := by
  refine ⟨?_, ?_, ?_⟩
  · obtain ⟨m, b, hm, hb, hsize, -, hnone⟩ := one_reached .pdp11 0
    have hlive : (BufferOp.copyConstruct 1 0).Live m := ⟨hnone, by simp [hb]⟩
    refine ⟨m, hm, hlive, ⟨b, hb, hsize⟩, (right_iff hm.sound hlive).not.mpr ?_⟩
    simp [BufferOp.Fine, hb, hsize]
  · obtain ⟨m, b, hm, hb, -, hendian, hnone⟩ := one_reached .big 3
    have hlive : (BufferOp.copyConstruct 1 0).Live m := ⟨hnone, by simp [hb]⟩
    refine ⟨m, hm, hlive, ⟨b, hb, hendian⟩, (right_iff hm.sound hlive).not.mpr ?_⟩
    simp [BufferOp.Fine, hb, hendian]
  · obtain ⟨m, b, hm, hb, hsize, hendian, -⟩ := one_reached .pdp11 3
    have hlive : (BufferOp.getWordAtByteOffset 0 2).Live m := by simp [BufferOp.Live, hb]
    refine ⟨m, hm, hlive, ⟨b, hb, hsize⟩, (right_iff hm.sound hlive).not.mpr ?_⟩
    simp [BufferOp.Fine, BufferOp.WordFine, hb, hsize, hendian]

end Buffers

end QUniBone.Sharedfs
