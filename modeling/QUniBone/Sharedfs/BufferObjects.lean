import QUniBone.Sharedfs.Partition
import Mathlib.Logic.Function.Basic

/-!
# Byte buffers in memory

`byte_buffer_c` in `bytebuffer.hpp`: an object that owns a block of memory. Memory is not exhausted,
and `realloc` moves a block to an address that was never in use.

* `Heap`: the blocks, `realloc`, `free`, and accesses that must stay inside a block.
* `Endianness`, `BufferObject`: the object, and its methods.
* `Stored`: the block is as large as the object says.
* `Kept`: what every method leaves.
* `setSize_spec`, `store_spec`, `setData_spec`: the methods that change bytes.
-/

namespace QUniBone.Sharedfs

abbrev Byte := BitVec 8

/-- `unsigned` and `uint32_t` -/
abbrev Unsigned := BitVec 32

/-! ## Blocks of memory -/

/-- Some bytes are changed. -/
def ByteBuffer.setBytes (b : ByteBuffer) (offset count : ℕ) (bytes : ℕ → Byte) : ByteBuffer where
  size := b.size
  byte i := if offset ≤ i ∧ i < offset + count then bytes (i - offset) else b.byte i

structure Heap where
  block : ℕ → Option ByteBuffer
  /-- no block is at this address or at a higher one -/
  next : ℕ
  /-- what new memory holds -/
  junk : ℕ → Byte

namespace Heap

/-- Nothing happens for a null pointer. -/
def free (h : Heap) : Option ℕ → Heap
  | none => h
  | some a => { h with block := Function.update h.block a none }

/-- The new block: the bytes that there were are copied. -/
def moved (h : Heap) (data : Option ℕ) (size : ℕ) : ByteBuffer where
  size := size
  byte i :=
    match data.bind h.block with
    | some old => if i < old.size then old.byte i else h.junk i
    | none => h.junk i

def realloc (h : Heap) (data : Option ℕ) (size : ℕ) : Heap where
  block := Function.update (h.free data).block h.next (some (h.moved data size))
  next := h.next + 1
  junk := h.junk

/-- The block at a pointer, for an access below `stop` -/
def access (h : Heap) (data : Option ℕ) (stop : ℕ) : Except Fault (ℕ × ByteBuffer) :=
  match data with
  | none => .error .nullPointer
  | some a =>
    match h.block a with
    | none => .error .overrun
    | some b => if stop ≤ b.size then .ok (a, b) else .error .overrun

/-- `memcpy` from a block. No byte is read through any pointer. -/
def load (h : Heap) (data : Option ℕ) (offset count : ℕ) : Except Fault (ℕ → Byte) :=
  if count = 0 then .ok fun _ => 0
  else (h.access data (offset + count)).map fun r i => r.2.byte (offset + i)

/-- `memcpy` and `memset` to a block -/
def store (h : Heap) (data : Option ℕ) (offset count : ℕ) (bytes : ℕ → Byte) :
    Except Fault Heap :=
  if count = 0 then .ok h
  else (h.access data (offset + count)).map fun r =>
    { h with block := Function.update h.block r.1 (some (r.2.setBytes offset count bytes)) }

end Heap

/-! ## The object -/

/-- `endianness_e` -/
inductive Endianness
  | little
  | big
  | pdp11
  deriving DecidableEq

structure BufferObject where
  endianness : Endianness
  data : Option ℕ
  size : ℕ
  zeroByteVal : Byte

/-- Where `set_data` copies from: memory of a caller, or the block of another buffer -/
inductive Source
  | caller (bytes : ℕ → Byte)
  | block (data : Option ℕ)

def Source.load (h : Heap) (count : ℕ) : Source → Except Fault (ℕ → Byte)
  | .caller bytes => .ok bytes
  | .block data => h.load data 0 count

def assert (p : Prop) [Decidable p] : Except Fault Unit :=
  if p then .ok () else .error .assertion

theorem assert_eq_ok {p : Prop} [Decidable p] {u : Unit} : assert p = .ok u ↔ p := by
  unfold assert
  split_ifs with hp <;> simp [hp]

theorem bind_eq_ok {α β : Type} {x : Except Fault α} {f : α → Except Fault β} {y : β} :
    x >>= f = .ok y ↔ ∃ a, x = .ok a ∧ f a = .ok y := by
  cases x with
  | error e => simp [bind, Except.bind]
  | ok a => simp [bind, Except.bind]

namespace BufferObject

/-- The constructors -/
def new (endianness : Endianness) : BufferObject where
  endianness := endianness
  data := none
  size := 0
  zeroByteVal := 0

def withZero (b : BufferObject) (zeroByteVal : Byte) : BufferObject :=
  { b with zeroByteVal := zeroByteVal }

/-- With another block -/
def withData (b : BufferObject) (data : Option ℕ) (size : ℕ) : BufferObject :=
  { b with data := data, size := size }

def setSize (b : BufferObject) (h : Heap) (newSize : ℕ) : Except Fault (Heap × BufferObject) :=
  if newSize = b.size then .ok (h, b)
  else if 0 < newSize then
    if b.size < newSize then
      -- init new bytes
      ((h.realloc b.data newSize).store (some h.next) b.size (newSize - b.size) fun _ =>
        b.zeroByteVal).map fun h' => (h', b.withData (some h.next) newSize)
    else .ok (h.realloc b.data newSize, b.withData (some h.next) newSize)
  else .ok (h.free b.data, b.withData none newSize)

def setData (b : BufferObject) (h : Heap) (src : Source) (srcSize : ℕ) :
    Except Fault (Heap × BufferObject) := do
  let (h, b) ← b.setSize h srcSize
  assert (b.data ≠ none)
  let bytes ← src.load h srcSize
  let h ← h.store b.data 0 srcSize bytes
  return (h, b)

/-- From a stream, which may have fewer bytes -/
def setDataStream (b : BufferObject) (h : Heap) (st : List Byte) (newSize : ℕ) :
    Except Fault (Heap × BufferObject) := do
  let (h, b) ← b.setSize h newSize
  assert (b.data ≠ none)
  let h ← h.store b.data 0 (min newSize st.length) fun i => st.getD i 0
  return (h, b)

def initZero (b : BufferObject) (h : Heap) (newSize : ℕ) : Except Fault (Heap × BufferObject) := do
  let (h, b) ← b.setSize h newSize
  let h ← h.store b.data 0 b.size fun _ => b.zeroByteVal
  return (h, b)

/-- `operator []` -/
def getByte (b : BufferObject) (h : Heap) (byteOffset : Unsigned) : Except Fault Byte := do
  assert (byteOffset.toNat < b.size)
  assert (b.data ≠ none)
  let bytes ← h.load b.data byteOffset.toNat 1
  return bytes 0

/-- `operator []` on the left of an assignment -/
def setByte (b : BufferObject) (h : Heap) (byteOffset : Unsigned) (val : Byte) :
    Except Fault Heap := do
  assert (byteOffset.toNat < b.size)
  assert (b.data ≠ none)
  h.store b.data byteOffset.toNat 1 fun _ => val

/-- LSB first -/
def getWordAtByteOffset (b : BufferObject) (h : Heap) (byteOffset : Unsigned) : Except Fault ℕ := do
  assert (byteOffset.toNat < b.size)
  -- todo: implement other?
  assert (b.endianness = .pdp11)
  let addr ← h.load b.data byteOffset.toNat 2
  return (addr 0).toNat + 256 * (addr 1).toNat

def setWordAtByteOffset (b : BufferObject) (h : Heap) (byteOffset : Unsigned) (val : ℕ) :
    Except Fault Heap := do
  assert (byteOffset.toNat < b.size)
  -- todo: implement other?
  assert (b.endianness = .pdp11)
  h.store b.data byteOffset.toNat 2 fun i => if i = 0 then .ofNat 8 val else .ofNat 8 (val / 256)

def getWordAtWordOffset (b : BufferObject) (h : Heap) (wordOffset : Unsigned) : Except Fault ℕ :=
  b.getWordAtByteOffset h (2 * wordOffset)

def setWordAtWordOffset (b : BufferObject) (h : Heap) (wordOffset : Unsigned) (val : ℕ) :
    Except Fault Heap :=
  b.setWordAtByteOffset h (2 * wordOffset) val

/-- The assertion is about the last byte, whose offset is an `unsigned` too. -/
def setBytesAtByteOffset (b : BufferObject) (h : Heap) (byteOffset : Unsigned) (bb : BufferObject) :
    Except Fault Heap := do
  let lastByteOffset := byteOffset + .ofNat 32 bb.size - 1
  assert (lastByteOffset.toNat < b.size)
  let bytes ← h.load bb.data 0 bb.size
  h.store b.data byteOffset.toNat bb.size bytes

end BufferObject

/-! ## The block of an object -/

/-- The object has no block if it is empty, and else one of its size. -/
inductive Stored (h : Heap) (b : BufferObject) : Prop
  | empty : b.data = none → b.size = 0 → Stored h b
  | block {a : ℕ} {B : ByteBuffer} : b.data = some a → h.block a = some B → B.size = b.size →
      0 < b.size → Stored h b

def Heap.Bounded (h : Heap) : Prop := ∀ a, h.next ≤ a → h.block a = none

/-- The bytes of an object -/
def Heap.content (h : Heap) (b : BufferObject) (i : ℕ) : Byte :=
  match b.data.bind h.block with
  | some B => B.byte i
  | none => 0

/-- What a method leaves: the blocks of other objects, and a block that is the old one or new. -/
structure Kept (h : Heap) (b : BufferObject) (h' : Heap) (b' : BufferObject) : Prop where
  endianness : b'.endianness = b.endianness
  zeroByteVal : b'.zeroByteVal = b.zeroByteVal
  stored : Stored h' b'
  bounded : h'.Bounded
  next : h.next ≤ h'.next
  data : ∀ a, b'.data = some a → b.data = some a ∨ h.next ≤ a
  frame : ∀ a < h.next, b.data ≠ some a → h'.block a = h.block a

variable {h h' h'' : Heap} {b b' b'' : BufferObject}

theorem content_eq {a : ℕ} {B : ByteBuffer} (hdata : b.data = some a) (hblock : h.block a = some B)
    (i : ℕ) : h.content b i = B.byte i := by
  rw [Heap.content, hdata, Option.bind_some, hblock]

theorem Stored.data_ne_none (hs : Stored h b) (hsize : b.size ≠ 0) : b.data ≠ none := by
  cases hs with
  | empty _ hzero => exact absurd hzero hsize
  | block hdata => simp [hdata]

/-- The address of a block is below the addresses that are left. -/
theorem Stored.data_lt (hs : Stored h b) (hb : h.Bounded) {a : ℕ} (ha : b.data = some a) :
    a < h.next := by
  cases hs with
  | empty hnone _ =>
    rw [hnone] at ha
    contradiction
  | block hdata hblock =>
    obtain rfl := Option.some.inj (hdata.symm.trans ha)
    by_contra hle
    rw [hb _ (by omega)] at hblock
    contradiction

namespace Kept

theorem refl (hs : Stored h b) (hb : h.Bounded) : Kept h b h b where
  endianness := rfl
  zeroByteVal := rfl
  stored := hs
  bounded := hb
  next := Nat.le_refl _
  data _ ha := .inl ha
  frame _ _ _ := rfl

theorem trans (h₁ : Kept h b h' b') (h₂ : Kept h' b' h'' b'') : Kept h b h'' b'' where
  endianness := h₂.endianness.trans h₁.endianness
  zeroByteVal := h₂.zeroByteVal.trans h₁.zeroByteVal
  stored := h₂.stored
  bounded := h₂.bounded
  next := h₁.next.trans h₂.next
  data a ha := by
    rcases h₂.data a ha with hold | hnew
    · exact h₁.data a hold
    · exact .inr (h₁.next.trans hnew)
  frame a ha hne := by
    have hne' : b'.data ≠ some a := by
      intro heq
      rcases h₁.data a heq with hold | hnew
      · exact hne hold
      · omega
    rw [h₂.frame a (ha.trans_le h₁.next) hne', h₁.frame a ha hne]

end Kept

/-! ## Accesses -/

theorem access_eq {a : ℕ} {B : ByteBuffer} (hdata : b.data = some a) (hblock : h.block a = some B)
    {stop : ℕ} (hstop : stop ≤ B.size) : h.access b.data stop = .ok (a, B) := by
  simp [Heap.access, hdata, hblock, hstop]

theorem load_spec (hs : Stored h b) {offset count : ℕ} (hin : offset + count ≤ b.size) :
    ∃ bytes, h.load b.data offset count = .ok bytes ∧
      ∀ i < count, bytes i = h.content b (offset + i) := by
  unfold Heap.load
  split_ifs with hcount
  · refine ⟨_, rfl, fun i hi => ?_⟩
    omega
  · cases hs with
    | empty _ hsize => omega
    | block hdata hblock hsize _ =>
      rw [access_eq hdata hblock (hsize ▸ hin)]
      exact ⟨_, rfl, fun i _ => (content_eq hdata hblock _).symm⟩

theorem store_spec (hs : Stored h b) (hb : h.Bounded) {offset count : ℕ} (bytes : ℕ → Byte)
    (hin : offset + count ≤ b.size) :
    ∃ h', h.store b.data offset count bytes = .ok h' ∧ Kept h b h' b ∧
      ∀ i, h'.content b i =
        if offset ≤ i ∧ i < offset + count then bytes (i - offset) else h.content b i := by
  unfold Heap.store
  split_ifs with hcount
  · refine ⟨h, rfl, .refl hs hb, fun i => ?_⟩
    rw [if_neg (by omega)]
  · cases hs with
    | empty _ hsize => omega
    | @block a B hdata hblock hsize hpos =>
      have hlt : a < h.next := Stored.data_lt (.block hdata hblock hsize hpos) hb hdata
      let h' : Heap :=
        { h with block := Function.update h.block a (some (B.setBytes offset count bytes)) }
      have hself : h'.block a = some (B.setBytes offset count bytes) := Function.update_self ..
      have hother : ∀ c, c ≠ a → h'.block c = h.block c := fun c hc => Function.update_of_ne hc ..
      refine ⟨h', by rw [access_eq hdata hblock (hsize ▸ hin)]; rfl, ?_, fun i => ?_⟩
      · constructor
        case endianness => rfl
        case zeroByteVal => rfl
        case stored => exact .block hdata hself hsize hpos
        case bounded =>
          intro c hc
          have hle : h.next ≤ c := hc
          rw [hother c (by omega)]
          exact hb c hle
        case next => exact Nat.le_refl _
        case data => exact fun _ hc => .inl hc
        case frame =>
          intro c _ hne
          exact hother c fun heq => hne (heq ▸ hdata)
      · rw [content_eq hdata hself, content_eq hdata hblock]
        rfl

/-! ## Sizes -/

theorem free_block {data : Option ℕ} {a : ℕ} (hne : data ≠ some a) :
    (h.free data).block a = h.block a := by
  cases data with
  | none => rfl
  | some c => exact Function.update_of_ne (fun heq => hne (congrArg some heq.symm)) ..

theorem Heap.Bounded.free (hb : h.Bounded) (data : Option ℕ) : (h.free data).Bounded := by
  intro a ha
  cases data with
  | none => exact hb a ha
  | some c =>
    show Function.update h.block c none a = none
    rw [Function.update_apply]
    split_ifs
    · rfl
    · exact hb a ha

/-- The bytes move to a new block, as many as it has room for. -/
theorem realloc_spec (hs : Stored h b) (hb : h.Bounded) {size : ℕ} (hsize : 0 < size) :
    Kept h b (h.realloc b.data size) (b.withData (some h.next) size) ∧
      ∀ i < b.size,
        (h.realloc b.data size).content (b.withData (some h.next) size) i = h.content b i := by
  have hnew : (h.realloc b.data size).block h.next = some (h.moved b.data size) :=
    Function.update_self ..
  have hother : ∀ a, a ≠ h.next →
      (h.realloc b.data size).block a = (h.free b.data).block a :=
    fun a ha => Function.update_of_ne ha ..
  constructor
  · constructor
    case endianness => rfl
    case zeroByteVal => rfl
    case stored => exact .block rfl hnew rfl hsize
    case bounded =>
      intro a ha
      have hlt : h.next + 1 ≤ a := ha
      rw [hother a (by omega)]
      refine hb.free b.data a ?_
      show (h.free b.data).next ≤ a
      cases b.data <;> exact (Nat.le_succ _).trans hlt
    case next => exact Nat.le_succ _
    case data => exact fun a ha => .inr (Option.some.inj ha).le
    case frame =>
      intro a ha hne
      rw [hother a (by omega), free_block hne]
  · intro i hi
    rw [content_eq rfl hnew]
    cases hs with
    | empty _ hzero => omega
    | block hdata hblock hsize _ =>
      rw [content_eq hdata hblock, Heap.moved]
      simp only [hdata, Option.bind_some, hblock, hsize, if_pos hi]

/-- Bytes up to the smaller size stay, and the others hold the zero value. -/
theorem setSize_spec (hs : Stored h b) (hb : h.Bounded) (newSize : ℕ) :
    ∃ h' b', b.setSize h newSize = .ok (h', b') ∧ Kept h b h' b' ∧ b'.size = newSize ∧
      ∀ i < newSize, h'.content b' i = if i < b.size then h.content b i else b.zeroByteVal := by
  unfold BufferObject.setSize
  split_ifs with hsame hpos hgrow
  · refine ⟨h, b, rfl, .refl hs hb, hsame.symm, fun i hi => ?_⟩
    rw [if_pos (hsame ▸ hi)]
  · obtain ⟨hkept, hold⟩ := realloc_spec hs hb hpos
    obtain ⟨h', hstore, hkept', hbytes⟩ := store_spec hkept.stored hkept.bounded
      (fun _ => b.zeroByteVal) (show b.size + (newSize - b.size) ≤ newSize by omega)
    have hresult := congrArg
      (Except.map fun h' => (h', b.withData (some h.next) newSize)) hstore
    refine ⟨h', _, hresult, hkept.trans hkept', rfl, fun i hi => ?_⟩
    rw [hbytes]
    split_ifs with hin hlt hlt
    · omega
    · rfl
    · exact hold i hlt
    · omega
  · obtain ⟨hkept, hold⟩ := realloc_spec hs hb hpos
    refine ⟨_, _, rfl, hkept, rfl, fun i hi => ?_⟩
    rw [if_pos (by omega), hold i (by omega)]
  · -- the block is gone
    obtain rfl : newSize = 0 := by omega
    refine ⟨_, _, rfl, ⟨rfl, rfl, .empty rfl rfl, hb.free _, ?_, ?_, fun a _ hne => free_block hne⟩,
      rfl, fun i hi => ?_⟩
    · cases b.data <;> exact Nat.le_refl _
    · intro a ha
      contradiction
    · omega

/-! ## Methods that return -/

theorem setSize_kept (hs : Stored h b) (hb : h.Bounded) {n : ℕ}
    (hok : b.setSize h n = .ok (h', b')) : Kept h b h' b' ∧ b'.size = n := by
  obtain ⟨_, _, heq, hkept, hsize, -⟩ := setSize_spec hs hb n
  obtain ⟨rfl, rfl⟩ := Prod.mk.inj (Except.ok.inj (heq.symm.trans hok))
  exact ⟨hkept, hsize⟩

/-- What is stored is stored inside the block. -/
theorem store_kept (hs : Stored h b) (hb : h.Bounded) {offset count : ℕ} {bytes : ℕ → Byte}
    (hok : h.store b.data offset count bytes = .ok h') : Kept h b h' b := by
  have hin : count = 0 ∨ offset + count ≤ b.size := by
    by_contra hout
    push Not at hout
    rw [Heap.store, if_neg hout.1] at hok
    cases hs with
    | empty hdata _ => simp [Heap.access, hdata, Except.map] at hok
    | block hdata hblock hsize _ =>
      simp [Heap.access, hdata, hblock, hsize, hout.2.not_ge, Except.map] at hok
  rcases hin with hzero | hin
  · rw [Heap.store, if_pos hzero] at hok
    obtain rfl := Except.ok.inj hok
    exact .refl hs hb
  · obtain ⟨h₁, heq, hkept, -⟩ := store_spec hs hb bytes hin
    obtain rfl := Except.ok.inj (heq.symm.trans hok)
    exact hkept

/-- The size is set first, then bytes are stored. -/
theorem setSize_store_kept (hs : Stored h b) (hb : h.Bounded) {n offset count : ℕ}
    {bytes : ℕ → Byte} {h₁ : Heap} (hsize : b.setSize h n = .ok (h₁, b'))
    (hstore : h₁.store b'.data offset count bytes = .ok h') : Kept h b h' b' ∧ b'.size = n := by
  obtain ⟨hkept, hn⟩ := setSize_kept hs hb hsize
  exact ⟨hkept.trans (store_kept hkept.stored hkept.bounded hstore), hn⟩

theorem setData_kept (hs : Stored h b) (hb : h.Bounded) {src : Source} {n : ℕ}
    (hok : b.setData h src n = .ok (h', b')) : Kept h b h' b' ∧ b'.size = n := by
  obtain ⟨⟨h₁, b₁⟩, hsize, hok⟩ := bind_eq_ok.mp hok
  obtain ⟨-, -, hok⟩ := bind_eq_ok.mp hok
  obtain ⟨bytes, -, hok⟩ := bind_eq_ok.mp hok
  obtain ⟨h₂, hstore, hok⟩ := bind_eq_ok.mp hok
  obtain ⟨rfl, rfl⟩ := Prod.mk.inj (Except.ok.inj hok)
  exact setSize_store_kept hs hb hsize hstore

theorem setDataStream_kept (hs : Stored h b) (hb : h.Bounded) {st : List Byte} {n : ℕ}
    (hok : b.setDataStream h st n = .ok (h', b')) : Kept h b h' b' ∧ b'.size = n := by
  obtain ⟨⟨h₁, b₁⟩, hsize, hok⟩ := bind_eq_ok.mp hok
  obtain ⟨-, -, hok⟩ := bind_eq_ok.mp hok
  obtain ⟨h₂, hstore, hok⟩ := bind_eq_ok.mp hok
  obtain ⟨rfl, rfl⟩ := Prod.mk.inj (Except.ok.inj hok)
  exact setSize_store_kept hs hb hsize hstore

theorem initZero_kept (hs : Stored h b) (hb : h.Bounded) {n : ℕ}
    (hok : b.initZero h n = .ok (h', b')) : Kept h b h' b' ∧ b'.size = n := by
  obtain ⟨⟨h₁, b₁⟩, hsize, hok⟩ := bind_eq_ok.mp hok
  obtain ⟨h₂, hstore, hok⟩ := bind_eq_ok.mp hok
  obtain ⟨rfl, rfl⟩ := Prod.mk.inj (Except.ok.inj hok)
  exact setSize_store_kept hs hb hsize hstore

theorem setByte_kept (hs : Stored h b) (hb : h.Bounded) {offset : Unsigned} {val : Byte}
    (hok : b.setByte h offset val = .ok h') : Kept h b h' b := by
  obtain ⟨-, -, hok⟩ := bind_eq_ok.mp hok
  obtain ⟨-, -, hok⟩ := bind_eq_ok.mp hok
  exact store_kept hs hb hok

theorem setWord_kept (hs : Stored h b) (hb : h.Bounded) {offset : Unsigned} {val : ℕ}
    (hok : b.setWordAtByteOffset h offset val = .ok h') : Kept h b h' b := by
  obtain ⟨-, -, hok⟩ := bind_eq_ok.mp hok
  obtain ⟨-, -, hok⟩ := bind_eq_ok.mp hok
  exact store_kept hs hb hok

theorem setBytes_kept (hs : Stored h b) (hb : h.Bounded) {offset : Unsigned} {bb : BufferObject}
    (hok : b.setBytesAtByteOffset h offset bb = .ok h') : Kept h b h' b := by
  obtain ⟨-, -, hok⟩ := bind_eq_ok.mp hok
  obtain ⟨bytes, -, hok⟩ := bind_eq_ok.mp hok
  exact store_kept hs hb hok

/-! ## Copies -/

/-- The block of another object -/
theorem Kept.other {c : BufferObject} (hk : Kept h b h' b') (hb : h.Bounded) (hc : Stored h c)
    (hapart : ∀ a, b.data = some a → c.data ≠ some a) :
    Stored h' c ∧ ∀ i, h'.content c i = h.content c i := by
  cases hc with
  | empty hdata hsize =>
    refine ⟨.empty hdata hsize, fun i => ?_⟩
    simp [Heap.content, hdata]
  | @block a B hdata hblock hsize hpos =>
    have hlt : a < h.next := Stored.data_lt (.block hdata hblock hsize hpos) hb hdata
    have hframe : h'.block a = some B :=
      (hk.frame a hlt fun heq => hapart a heq hdata).trans hblock
    refine ⟨.block hdata hframe hsize hpos, fun i => ?_⟩
    rw [content_eq hdata hframe, content_eq hdata hblock]

/-- `set_data` from another object, unless that is empty -/
theorem setData_spec {c : BufferObject} (hs : Stored h b) (hb : h.Bounded) (hc : Stored h c)
    (hapart : ∀ a, b.data = some a → c.data ≠ some a) (hsize : c.size ≠ 0) :
    ∃ h' b', b.setData h (.block c.data) c.size = .ok (h', b') ∧ Kept h b h' b' ∧
      b'.size = c.size ∧ ∀ i < c.size, h'.content b' i = h.content c i := by
  obtain ⟨h₁, b₁, hset, hkept₁, hsize₁, -⟩ := setSize_spec hs hb c.size
  obtain ⟨hc₁, hcontent₁⟩ := hkept₁.other hb hc hapart
  obtain ⟨bytes, hload, hbytes⟩ := load_spec hc₁ (show 0 + c.size ≤ c.size by omega)
  obtain ⟨h₂, hstore, hkept₂, hcontent₂⟩ := store_spec hkept₁.stored hkept₁.bounded bytes
    (show 0 + c.size ≤ b₁.size by omega)
  have hdata : b₁.data ≠ none := hkept₁.stored.data_ne_none (by omega)
  refine ⟨h₂, b₁, ?_, hkept₁.trans hkept₂, hsize₁, fun i hi => ?_⟩
  · refine bind_eq_ok.mpr ⟨_, hset, bind_eq_ok.mpr ⟨(), assert_eq_ok.mpr hdata, ?_⟩⟩
    exact bind_eq_ok.mpr ⟨bytes, hload, bind_eq_ok.mpr ⟨h₂, hstore, rfl⟩⟩
  · rw [hcontent₂, if_pos (by omega), hbytes _ (by omega), hcontent₁]
    simp

/-- No byte is copied from an empty buffer: the assertion fails. -/
theorem setData_zero (hs : Stored h b) (hb : h.Bounded) (src : Source) :
    b.setData h src 0 = .error .assertion := by
  obtain ⟨h₁, b₁, hset, hkept, hsize, -⟩ := setSize_spec hs hb 0
  have hdata : b₁.data = none := by
    cases hkept.stored with
    | empty hdata _ => exact hdata
    | block _ _ _ hpos => omega
  rw [BufferObject.setData, hset]
  simp [bind, Except.bind, assert, hdata]

end QUniBone.Sharedfs
