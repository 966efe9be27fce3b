import QUniBone.Loaders.Papertape

/-!
# The absolute loader format

A tape is a sequence of leader bytes and blocks. The loader takes any byte but 1 for leader, goes
on behind the address of a start block, and takes the end of the file for a character.

* `Block`, `Encodes`: the format.
* `Meets`: what is expected of the loader.
* `Passed`, `Broken`: what the loader passes over, and what it refuses.
* `tape_meets_iff`: where the loader meets the format.
-/

namespace QUniBone.Papertape

open MemoryImage

/-! ## The format -/

def low (w : BitVec 16) : Byte := w.setWidth 8

def high (w : BitVec 16) : Byte := (w >>> 8).setWidth 8

/-- The sum of bytes -/
def total : List Byte → Byte
  | [] => 0
  | b :: bs => b + total bs

/-- A block without data is a start block. -/
structure Block where
  address : BitVec 16
  data : List Byte
  length_lt : data.length + 6 < 2 ^ 16

namespace Block

/-- the length of header and data -/
def count (b : Block) : BitVec 16 := BitVec.ofNat 16 (b.data.length + 6)

def body (b : Block) : List Byte :=
  [1, 0, low b.count, high b.count, low b.address, high b.address] ++ b.data

def checksum (b : Block) : Byte := -total b.body

def bytes (b : Block) : List Byte := b.body ++ [b.checksum]

end Block

/-- The tapes with these blocks. Leader bytes are 0. -/
inductive Encodes : List Block → List Byte → Prop
  | nil : Encodes [] []
  | leader {bs : List Block} {t : List Byte} : Encodes bs t → Encodes bs (0 :: t)
  | block {bs : List Block} {t : List Byte} (b : Block) : Encodes bs t →
      Encodes (b :: bs) (b.bytes ++ t)

/-- The byte at an address: later blocks are put over earlier ones. -/
def contents : List Block → ℕ → Option Byte
  | [], _ => none
  | b :: bs, a => (contents bs a).or (bytesFrom b.address.toNat b.data a)

/-- The address of the last start block -/
def entryOf : List Block → Option ℤ
  | [] => none
  | b :: bs => (entryOf bs).or (if b.data = [] then some (b.address.toNat : ℤ) else none)

def WellFormed (tape : List Byte) : Prop := ∃ bs, Encodes bs tape

/-- A tape in the format is loaded. Any other tape is refused, and no bytes are stored which are
not on it. -/
structure Meets (image : MemoryImage) (tape : List Byte) : Prop where
  loads : ∀ bs, Encodes bs tape → ∃ n,
    loadPapertape image tape = .loaded n (entryOf bs) ∧ Filled image n (contents bs)
  refuses : ¬ WellFormed tape → ∃ n,
    loadPapertape image tape = .refused n ∧
      ∀ a, n.byteAt a = image.byteAt a ∨ n.byteAt a ∈ tape

/-! ## Where the loader meets it -/

/-- What may follow a start block with the checksum 1: the loader reads it as the first byte of
a header, and five leader bytes after it as the others, or there is no block any more. -/
def Harmless (t : List Byte) : Prop := (∀ b ∈ t, b = 0) ∨ [0, 0, 0, 0, 0] <+: t

/-- Start blocks with the checksum 1 do no harm. -/
def Clear (tape : List Byte) : Prop :=
  ∀ (bs : List Block) (front : List Byte) (b : Block) (t : List Byte), Encodes bs front →
    tape = front ++ (b.bytes ++ t) → b.data = [] → b.checksum = 1 → Harmless t

/-- The length in a header -/
def size (lo hi : Byte) : ℕ := lo.toNat + hi.toNat * 2 ^ 8

/-- What the loader passes over -/
inductive Passed : List Byte → Prop
  | nil : Passed []
  | other {b : Byte} {t : List Byte} : b ≠ 1 → Passed t → Passed (b :: t)
  /-- no header -/
  | falseStart {b : Byte} {t : List Byte} : b ≠ 0 → Passed t → Passed (1 :: b :: t)
  /-- a start block without its checksum, or a header with a length below 6 -/
  | short {lo hi al ah : Byte} {t : List Byte} : size lo hi ≤ 6 → Passed t →
      Passed (1 :: 0 :: lo :: hi :: al :: ah :: t)
  | block {lo hi al ah c : Byte} {data t : List Byte} : data ≠ [] →
      size lo hi = data.length + 6 → total [1, 0, lo, hi, al, ah] + total data + c = 0 →
      Passed t → Passed (1 :: 0 :: lo :: hi :: al :: ah :: (data ++ c :: t))

/-- A data block with a wrong checksum, or one that ends before the checksum: there the end of
the file is taken for 0xff. -/
inductive BadBlock : List Byte → Prop
  | wrong {lo hi al ah c : Byte} {data t : List Byte} : data ≠ [] →
      size lo hi = data.length + 6 → total [1, 0, lo, hi, al, ah] + total data + c ≠ 0 →
      BadBlock (1 :: 0 :: lo :: hi :: al :: ah :: (data ++ c :: t))
  | missing {lo hi al ah : Byte} {data : List Byte} : data ≠ [] →
      size lo hi = data.length + 6 → total [1, 0, lo, hi, al, ah] + total data ≠ 1 →
      BadBlock (1 :: 0 :: lo :: hi :: al :: ah :: data)

/-- The tape comes to a data block that is refused. -/
def Broken (tape : List Byte) : Prop := ∃ p t, Passed p ∧ BadBlock t ∧ tape = p ++ t

/-! ## The loop -/

variable {s : Loader} {image n : MemoryImage}

/-- The loader behind the header of a block -/
def Loader.headerRead (s : Loader) (lo hi al ah : Byte) : Loader :=
  { s with
    phase := .addrHigh
    blockByteIdx := 6
    blockByteSize := size lo hi
    sum := total [1, 0, lo, hi, al, ah]
    addr := size al ah }

theorem feed_ok {t : Loader} {b : Byte} {bs : List Byte} (h : step s (some b) = .ok t) :
    feed s (b :: bs) = feed t bs := by
  rw [feed, h]

theorem feed_other {b : Byte} {t : List Byte} (hs : s.phase = .skip) (hb : b ≠ 1) :
    feed s (b :: t) = feed { s with sum := 0 } t := by
  have hne : (some b : Character) ≠ some 1 := fun h => hb (Option.some.inj h)
  apply feed_ok
  rw [step, hs]
  exact if_neg hne

theorem feed_falseStart {b : Byte} {t : List Byte} (hs : s.phase = .skip) (hb : b ≠ 0) :
    feed s (1 :: b :: t) = feed { s with phase := .skip, blockByteIdx := 1, sum := 1 } t := by
  have hone : step s (some 1) = .ok { s with phase := .one, blockByteIdx := 1, sum := 1 } := by
    simp [step, hs]
  have hne : (some b : Character) ≠ some 0 := fun h => hb (Option.some.inj h)
  rw [feed_ok hone]
  apply feed_ok
  exact if_pos hne

theorem feed_header {lo hi al ah : Byte} {t : List Byte} (hs : s.phase = .skip) :
    feed s (1 :: 0 :: lo :: hi :: al :: ah :: t) =
      feed (s.headerRead lo hi al ah).header t := by
  have hone : step s (some 1) = .ok { s with phase := .one, blockByteIdx := 1, sum := 1 } := by
    simp [step, hs]
  rw [feed_ok hone, feed_ok rfl, feed_ok rfl, feed_ok rfl, feed_ok rfl]
  apply feed_ok
  simp [step, Loader.goOn, Loader.headerRead, size, total, Character.int, Character.byte,
    BitVec.add_assoc]

/-- The loader after some data of a block -/
def Loader.stored (s : Loader) (data : List Byte) : Loader :=
  { s with
    image := s.image.putBytes s.addr.toNat data
    addr := s.addr + data.length
    sum := s.sum + total data
    blockByteIdx := s.blockByteIdx + data.length
    phase := if s.blockByteIdx + data.length < s.blockByteSize then .data else .checksum }

/-- A block that has room for so many bytes. The addresses of a block are all in the image. -/
structure Loader.Takes (s : Loader) (data : List Byte) : Prop where
  phase : s.phase = .data
  addr : 0 ≤ s.addr
  fits : s.addr + data.length ≤ 2 * MEMORY_WORD_COUNT
  lt : s.blockByteIdx < s.blockByteSize
  le : s.blockByteIdx + data.length ≤ s.blockByteSize

theorem word_some (b : Byte) : Character.word (some b) = b.setWidth 16 := by
  show BitVec.ofInt 16 (b.toNat : ℤ) = _
  rw [BitVec.ofInt_natCast, BitVec.ofNat_toNat]

/-- One byte of data -/
theorem step_data {b : Byte} {data : List Byte} (h : s.Takes (b :: data)) :
    step s (some b) = .ok (s.stored [b]) := by
  have haddr := h.addr
  have hfits := h.fits
  rw [List.length_cons] at hfits
  have haddressable : MemoryImage.Addressable s.addr.toNat := by
    unfold MemoryImage.Addressable
    omega
  rw [step, h.phase]
  show (if _ then _ else _) = _
  rw [if_pos ⟨haddr, haddressable⟩, Loader.store, Loader.stored, word_some]
  rcases lt_or_ge (s.blockByteIdx + 1) s.blockByteSize with hlt | hge
  · simp [Loader.goOn, Character.byte, total, putBytes, hlt, Int.not_le.mpr hlt]
  · simp [Loader.goOn, Character.byte, total, putBytes, hge, Int.not_lt.mpr hge]

theorem stored_nil
    (h : s.phase = if s.blockByteIdx < s.blockByteSize then .data else .checksum) :
    s.stored [] = s := by
  cases s
  simp_all [Loader.stored, total, putBytes]

theorem feed_data (data t : List Byte) (h : s.Takes data) :
    feed s (data ++ t) = feed (s.stored data) t := by
  induction data generalizing s with
  | nil =>
    have hphase : s.phase = if s.blockByteIdx < s.blockByteSize then .data else .checksum := by
      rw [if_pos h.lt, h.phase]
    rw [stored_nil hphase, List.nil_append]
  | cons b data ih =>
    have haddr := h.addr
    have hfits := h.fits
    have hle := h.le
    rw [List.length_cons] at hfits hle
    have htwice : (s.stored [b]).stored data = s.stored (b :: data) := by
      have htoNat : (s.addr + 1).toNat = s.addr.toNat + 1 := by omega
      simp [Loader.stored, putBytes, total, htoNat, BitVec.add_assoc, Int.add_assoc,
        Int.add_comm]
    rw [List.cons_append, feed_ok (step_data h), ← htwice]
    rcases Nat.eq_zero_or_pos data.length with hzero | hpos
    · -- the block is complete
      rw [List.length_eq_zero_iff.mp hzero, List.nil_append, stored_nil rfl]
    · apply ih
      have hlt : s.blockByteIdx + 1 < s.blockByteSize := by omega
      constructor
      · exact if_pos hlt
      · show 0 ≤ s.addr + 1
        omega
      · show s.addr + 1 + data.length ≤ 2 * MEMORY_WORD_COUNT
        omega
      · exact hlt
      · show s.blockByteIdx + 1 + data.length ≤ s.blockByteSize
        omega

theorem total_append (x y : List Byte) : total (x ++ y) = total x + total y := by
  induction x with
  | nil => simp [total]
  | cons b x ih => rw [List.cons_append, total, total, ih, BitVec.add_assoc]

theorem size_lt (lo hi : Byte) : size lo hi < 2 ^ 16 := by
  have hlo := lo.isLt
  have hhi := hi.isLt
  unfold size
  omega

/-- A data block up to its checksum -/
theorem feed_body {lo hi : Byte} {data : List Byte} (al ah : Byte) (t : List Byte)
    (hs : s.phase = .skip) (hpos : 0 < data.length) (hle : data.length + 6 ≤ size lo hi) :
    ∃ u, feed s (1 :: 0 :: lo :: hi :: al :: ah :: (data ++ t)) = feed u t ∧
      u.phase = (if data.length + 6 < size lo hi then .data else .checksum) ∧
      u.sum = total [1, 0, lo, hi, al, ah] + total data ∧
      u.image = s.image.putBytes (size al ah) data ∧ u.entry = s.entry := by
  have hheader : (s.headerRead lo hi al ah).header =
      { s.headerRead lo hi al ah with phase := .data } := by
    have hidx : ¬ (s.headerRead lo hi al ah).blockByteIdx >
        (s.headerRead lo hi al ah).blockByteSize := by
      show ¬ (6 : ℤ) > size lo hi
      omega
    have hcount : ¬ (s.headerRead lo hi al ah).blockByteSize - 6 = 0 := by
      show ¬ (size lo hi : ℤ) - 6 = 0
      omega
    rw [Loader.header, if_neg hidx, if_neg hcount]
  have haddr := size_lt al ah
  have hsize := size_lt lo hi
  have htakes : Loader.Takes { s.headerRead lo hi al ah with phase := .data } data := by
    constructor
    · rfl
    · show 0 ≤ (size al ah : ℤ)
      omega
    · show (size al ah : ℤ) + data.length ≤ 2 * MEMORY_WORD_COUNT
      have hcount : MEMORY_WORD_COUNT = 0x200000 := rfl
      omega
    · show (6 : ℤ) < size lo hi
      omega
    · show (6 : ℤ) + data.length ≤ size lo hi
      omega
  refine ⟨Loader.stored { s.headerRead lo hi al ah with phase := .data } data, ?_, ?_, rfl, rfl,
    rfl⟩
  · rw [feed_header hs, hheader]
    exact feed_data data t htakes
  · show (if (6 : ℤ) + data.length < size lo hi then Phase.data else .checksum) = _
    rcases lt_or_ge (data.length + 6) (size lo hi) with hlt | hge
    · rw [if_pos (by omega), if_pos hlt]
    · rw [if_neg (by omega), if_neg (by omega)]

theorem feed_short (lo hi al ah : Byte) (t : List Byte) (hs : s.phase = .skip)
    (hle : size lo hi ≤ 6) :
    ∃ u, feed s (1 :: 0 :: lo :: hi :: al :: ah :: t) = feed u t ∧ u.phase = .skip ∧
      u.image = s.image ∧
      u.entry = if size lo hi = 6 then some (size al ah : ℤ) else s.entry := by
  refine ⟨_, feed_header hs, ?_⟩
  have hidx : (s.headerRead lo hi al ah).blockByteIdx = 6 := rfl
  have hsize : (s.headerRead lo hi al ah).blockByteSize = size lo hi := rfl
  rw [Loader.header, hidx, hsize]
  rcases Nat.lt_or_eq_of_le hle with hlt | heq
  · rw [if_pos (by omega), if_neg (by omega)]
    exact ⟨rfl, rfl, rfl⟩
  · rw [if_neg (by omega), if_pos (by omega), if_pos heq]
    exact ⟨rfl, rfl, rfl⟩

theorem feed_checksum {c : Byte} {t : List Byte} (hs : s.phase = .checksum)
    (hsum : s.sum + c = 0) :
    feed s (c :: t) = feed { s with sum := 0, phase := .skip } t := by
  apply feed_ok
  rw [step, hs]
  exact if_neg (not_not.mpr hsum)

theorem feed_checksumError {c : Byte} {t : List Byte} (hs : s.phase = .checksum)
    (hsum : s.sum + c ≠ 0) : feed s (c :: t) = .refused s.image := by
  have hstep : step s (some c) = .error (.checksumError s.image) := by
    rw [step, hs]
    exact if_pos hsum
  rw [feed, hstep]

theorem add_ones_eq_zero_iff (x : Byte) : x + 0xff = 0 ↔ x = 1 := by
  constructor
  · intro h
    bv_omega
  · intro h
    rw [h]
    rfl

/-- At the end of the file, a checksum can still be wrong. -/
theorem feed_missing (hs : s.phase = .checksum) (hsum : s.sum ≠ 1) :
    feed s [] = .refused s.image := by
  have hstep : step s none = .error (.checksumError s.image) := by
    rw [step, hs]
    exact if_pos fun h => hsum ((add_ones_eq_zero_iff s.sum).mp h)
  rw [feed, hstep]

theorem of_refused (h : feed s [] = .refused n) : s.phase = .checksum ∧ s.sum ≠ 1 := by
  cases hphase : s.phase
  case checksum =>
    refine ⟨rfl, fun hsum => ?_⟩
    simp [feed, step, hphase, hsum, Character.byte] at h
  case data =>
    rw [feed, step, hphase] at h
    by_cases hc : 0 ≤ s.addr ∧ Addressable s.addr.toNat
    · simp [hc] at h
    · simp only [hc, if_false] at h
      cases h
  case skip | one =>
    simp [feed, step, hphase] at h
  case countLow | countHigh | addrLow | addrHigh =>
    simp [feed, step, hphase] at h

/-! ## Refused tapes -/

theorem mem_of_bytesFrom {addr a : ℕ} {b : Byte} {data : List Byte}
    (h : bytesFrom addr data a = some b) : b ∈ data := by
  unfold bytesFrom at h
  split at h
  · exact List.mem_of_getElem? h
  · cases h

/-- What is put into an image comes from the tape. -/
def StoredFrom (tape : List Byte) (m n : MemoryImage) : Prop :=
  ∃ f, Filled m n f ∧ ∀ a b, f a = some b → b ∈ tape

theorem storedFrom_refl (tape : List Byte) (m : MemoryImage) : StoredFrom tape m m :=
  ⟨_, Filled.refl m, fun _ _ h => absurd h (Option.some_ne_none _).symm⟩

theorem StoredFrom.trans {tape : List Byte} {l m n : MemoryImage} (h : StoredFrom tape l m)
    (h' : StoredFrom tape m n) : StoredFrom tape l n := by
  obtain ⟨f, hf, hmem⟩ := h
  obtain ⟨g, hg, hmem'⟩ := h'
  refine ⟨_, hf.trans hg, fun a b hab => ?_⟩
  cases hga : g a with
  | none =>
    rw [hga, Option.none_or] at hab
    exact hmem a b hab
  | some c =>
    rw [hga, Option.some_or] at hab
    exact hmem' a b (hga.trans hab)

theorem StoredFrom.mono {tape tape' : List Byte} {m n : MemoryImage} (h : StoredFrom tape m n)
    (hsub : ∀ b ∈ tape, b ∈ tape') : StoredFrom tape' m n := by
  obtain ⟨f, hf, hmem⟩ := h
  exact ⟨f, hf, fun a b hab => hsub b (hmem a b hab)⟩

theorem storedFrom_putBytes (m : MemoryImage) (addr : ℕ) {data tape : List Byte}
    (hsub : ∀ b ∈ data, b ∈ tape) : StoredFrom tape m (m.putBytes addr data) :=
  ⟨_, filled_putBytes m addr data, fun _ b hab => hsub b (mem_of_bytesFrom hab)⟩

/-- A part of the tape that is passed over leads back to the search for a header. -/
theorem feed_passed {p : List Byte} (hp : Passed p) (t : List Byte) (hs : s.phase = .skip) :
    ∃ u, feed s (p ++ t) = feed u t ∧ u.phase = .skip ∧ StoredFrom p s.image u.image := by
  induction hp generalizing s with
  | nil => exact ⟨s, rfl, hs, storedFrom_refl [] s.image⟩
  | other hb _ ih =>
    obtain ⟨u, hfeed, hu, hstored⟩ := ih (s := { s with sum := 0 }) hs
    refine ⟨u, ?_, hu, hstored.mono fun b => List.mem_cons_of_mem _⟩
    rw [List.cons_append, feed_other hs hb, hfeed]
  | falseStart hb _ ih =>
    obtain ⟨u, hfeed, hu, hstored⟩ :=
      ih (s := { s with phase := .skip, blockByteIdx := 1, sum := 1 }) rfl
    refine ⟨u, ?_, hu, hstored.mono fun b hb => ?_⟩
    · rw [List.cons_append, List.cons_append, feed_falseStart hs hb, hfeed]
    · exact List.mem_cons_of_mem _ (List.mem_cons_of_mem _ hb)
  | short hle _ ih =>
    obtain ⟨v, hheader, hv, himage, -⟩ := feed_short _ _ _ _ _ hs hle
    obtain ⟨u, hfeed, hu, hstored⟩ := ih hv
    rw [himage] at hstored
    refine ⟨u, hheader.trans hfeed, hu, hstored.mono fun b hb => ?_⟩
    simp [hb]
  | @block lo hi al ah c data p hne hsize hsum _ ih =>
    obtain ⟨v, hbody, hphase, hvsum, himage, -⟩ :=
      feed_body _ _ (c :: (p ++ t)) hs (List.length_pos_iff.mpr hne) hsize.ge
    rw [if_neg (by omega)] at hphase
    have hv : feed v (c :: (p ++ t)) = feed { v with sum := 0, phase := .skip } (p ++ t) :=
      feed_checksum hphase (hvsum ▸ hsum)
    obtain ⟨u, hfeed, hu, hstored⟩ := ih (s := { v with sum := 0, phase := .skip }) rfl
    refine ⟨u, ?_, hu, ?_⟩
    · simpa using hbody.trans (hv.trans hfeed)
    · -- what the block put, and then the rest
      have hdata : StoredFrom (1 :: 0 :: lo :: hi :: al :: ah :: (data ++ c :: p)) s.image
          v.image := by
        rw [himage]
        exact storedFrom_putBytes _ _ fun b hb => by simp [hb]
      exact hdata.trans (hstored.mono fun b hb => by simp [hb])

theorem feed_badBlock {t : List Byte} (ht : BadBlock t) (hs : s.phase = .skip) :
    ∃ n, feed s t = .refused n ∧ StoredFrom t s.image n := by
  cases ht with
  | @wrong lo hi al ah c data t hne hsize hsum =>
    obtain ⟨v, hbody, hphase, hvsum, himage, -⟩ :=
      feed_body _ _ (c :: t) hs (List.length_pos_iff.mpr hne) hsize.ge
    rw [if_neg (by omega)] at hphase
    refine ⟨v.image, hbody.trans (feed_checksumError hphase (hvsum ▸ hsum)), ?_⟩
    rw [himage]
    exact storedFrom_putBytes _ _ fun b hb => by simp [hb]
  | @missing lo hi al ah data hne hsize hsum =>
    obtain ⟨v, hbody, hphase, hvsum, himage, -⟩ :=
      feed_body _ _ [] hs (List.length_pos_iff.mpr hne) hsize.ge
    rw [if_neg (by omega)] at hphase
    rw [List.append_nil] at hbody
    refine ⟨v.image, hbody.trans (feed_missing hphase (hvsum ▸ hsum)), ?_⟩
    rw [himage]
    exact storedFrom_putBytes _ _ fun b hb => by simp [hb]

/-- A broken tape is refused, and what was stored is on it. -/
theorem refused_of_broken {tape : List Byte} (h : Broken tape) (hs : s.phase = .skip) :
    ∃ n, feed s tape = .refused n ∧ StoredFrom tape s.image n := by
  obtain ⟨p, t, hp, ht, rfl⟩ := h
  obtain ⟨u, hfeed, hu, hstored⟩ := feed_passed hp t hs
  obtain ⟨n, hrefused, hstored'⟩ := feed_badBlock ht hu
  refine ⟨n, hfeed.trans hrefused, (hstored.mono ?_).trans (hstored'.mono ?_)⟩
  · exact fun b hb => List.mem_append_left t hb
  · exact fun b hb => List.mem_append_right p hb

theorem Broken.of_passed {x t : List Byte} (hx : ∀ p, Passed p → Passed (x ++ p))
    (h : Broken t) : Broken (x ++ t) := by
  obtain ⟨p, t, hp, ht, rfl⟩ := h
  exact ⟨x ++ p, t, hx p hp, ht, (List.append_assoc x p t).symm⟩

/-- A header that is cut off is not refused. -/
theorem full_of_refused {t : List Byte} (hs : s.phase = .skip)
    (h : feed s (1 :: 0 :: t) = .refused n) :
    ∃ lo hi al ah t', t = lo :: hi :: al :: ah :: t' := by
  have hone : step s (some 1) = .ok { s with phase := .one, blockByteIdx := 1, sum := 1 } := by
    simp [step, hs]
  rw [feed_ok hone] at h
  rcases t with _ | ⟨lo, _ | ⟨hi, _ | ⟨al, _ | ⟨ah, t⟩⟩⟩⟩
  · rw [feed_ok rfl] at h
    cases (of_refused h).1
  · rw [feed_ok rfl, feed_ok rfl] at h
    cases (of_refused h).1
  · rw [feed_ok rfl, feed_ok rfl, feed_ok rfl] at h
    cases (of_refused h).1
  · rw [feed_ok rfl, feed_ok rfl, feed_ok rfl, feed_ok rfl] at h
    cases (of_refused h).1
  · exact ⟨lo, hi, al, ah, t, rfl⟩

/-- What is refused behind the header of a data block -/
theorem broken_of_refused_block {lo hi al ah : Byte} {t : List Byte} (hs : s.phase = .skip)
    (hsize : 6 < size lo hi) (h : feed s (1 :: 0 :: lo :: hi :: al :: ah :: t) = .refused n)
    (ih : ∀ (u : Loader) (t' : List Byte), t'.length < t.length → u.phase = .skip →
      feed u t' = .refused n → Broken t') :
    Broken (1 :: 0 :: lo :: hi :: al :: ah :: t) := by
  rcases lt_trichotomy (t.length + 6) (size lo hi) with hlt | heq | hgt
  · -- the file ends among the data, which is not noticed
    exfalso
    rcases Nat.eq_zero_or_pos t.length with hzero | hpos
    · have hidx : ¬ (6 : ℤ) > size lo hi := by omega
      have hcount : ¬ (size lo hi : ℤ) - 6 = 0 := by omega
      have hphase : (s.headerRead lo hi al ah).header.phase = .data := by
        have hread : (s.headerRead lo hi al ah).blockByteIdx = 6 := rfl
        have hreadSize : (s.headerRead lo hi al ah).blockByteSize = size lo hi := rfl
        rw [Loader.header, hread, hreadSize, if_neg hidx, if_neg hcount]
      rw [feed_header hs, List.length_eq_zero_iff.mp hzero] at h
      rw [(of_refused h).1] at hphase
      cases hphase
    · obtain ⟨u, hfeed, hphase, -⟩ := feed_body al ah [] hs hpos hlt.le
      rw [List.append_nil] at hfeed
      rw [if_pos hlt, (of_refused (hfeed.symm.trans h)).1] at hphase
      cases hphase
  · -- it ends where the checksum belongs
    have hpos : 0 < t.length := by omega
    obtain ⟨u, hfeed, hphase, hsum, -⟩ := feed_body al ah [] hs hpos heq.le
    rw [List.append_nil] at hfeed
    have hne := (of_refused (hfeed.symm.trans h)).2
    rw [hsum] at hne
    exact ⟨[], _, .nil, .missing (List.length_pos_iff.mp hpos) heq.symm hne, rfl⟩
  · obtain ⟨data, c, t', rfl, hlength⟩ :
        ∃ data c t', t = data ++ c :: t' ∧ data.length + 6 = size lo hi := by
      have hlt : size lo hi - 6 < t.length := by omega
      refine ⟨t.take (size lo hi - 6), t[size lo hi - 6], t.drop (size lo hi - 6 + 1), ?_, ?_⟩
      · rw [List.getElem_cons_drop, List.take_append_drop]
      · rw [List.length_take]
        omega
    have hpos : 0 < data.length := by omega
    obtain ⟨u, hfeed, hphase, hsum, -⟩ := feed_body al ah (c :: t') hs hpos
      hlength.le
    rw [if_neg (by omega)] at hphase
    by_cases hc : u.sum + c = 0
    · rw [hfeed, feed_checksum hphase hc] at h
      have hbroken := ih _ t' (by simp; omega) rfl h
      have hpassed : ∀ p, Passed p →
          Passed ((1 :: 0 :: lo :: hi :: al :: ah :: (data ++ [c])) ++ p) := by
        intro p hp
        simpa using Passed.block (List.length_pos_iff.mp hpos) hlength.symm (hsum ▸ hc) hp
      simpa using hbroken.of_passed hpassed
    · refine ⟨[], _, .nil, ?_, rfl⟩
      exact .wrong (List.length_pos_iff.mp hpos) hlength.symm (hsum ▸ hc)

theorem broken_of_refused (tape : List Byte) (hs : s.phase = .skip)
    (h : feed s tape = .refused n) : Broken tape := by
  induction hlength : tape.length using Nat.strong_induction_on generalizing s tape with
  | _ k ih =>
    have ih (u : Loader) (t : List Byte) (hlt : t.length < k) (hu : u.phase = .skip)
        (hrefused : feed u t = .refused n) : Broken t := ih _ hlt t hu hrefused rfl
    cases tape with
    | nil => cases hs.symm.trans (of_refused h).1
    | cons b t =>
      rw [List.length_cons] at hlength
      by_cases hb : b = 1
      case neg =>
        rw [feed_other hs hb] at h
        have hbroken := ih { s with sum := 0 } t (by omega) hs h
        exact hbroken.of_passed (x := [b]) fun p hp => .other hb hp
      subst hb
      cases t with
      | nil =>
        have hone : step s (some 1) =
            .ok { s with phase := .one, blockByteIdx := 1, sum := 1 } := by
          simp [step, hs]
        rw [feed_ok hone] at h
        cases (of_refused h).1
      | cons b t =>
        rw [List.length_cons] at hlength
        by_cases hb : b = 0
        case neg =>
          rw [feed_falseStart hs hb] at h
          exact (ih _ t (by omega) rfl h).of_passed (x := [1, b]) fun p hp =>
            .falseStart hb hp
        subst hb
        obtain ⟨lo, hi, al, ah, t, rfl⟩ := full_of_refused hs h
        simp only [List.length_cons] at hlength
        rcases Nat.lt_or_ge 6 (size lo hi) with hlt | hle
        · exact broken_of_refused_block hs hlt h fun u t' ht' => ih u t' (by omega)
        · obtain ⟨u, hfeed, hu, -⟩ := feed_short _ _ al ah t hs hle
          exact (ih u t (by omega) hu (hfeed.symm.trans h)).of_passed
            (x := [1, 0, lo, hi, al, ah]) fun p hp => .short hle hp

/-! ## Tapes in the format -/

theorem encodes_append {bs cs : List Block} {x y : List Byte} (hx : Encodes bs x)
    (hy : Encodes cs y) : Encodes (bs ++ cs) (x ++ y) := by
  induction hx with
  | nil => exact hy
  | leader _ ih => exact ih.leader
  | block b _ ih =>
    rw [List.cons_append, List.append_assoc]
    exact ih.block b

theorem Clear.of_append {bs : List Block} {x t : List Byte} (h : Clear (x ++ t))
    (hx : Encodes bs x) : Clear t := by
  intro cs front b t' hfront heq
  refine h (bs ++ cs) (x ++ front) b t' (encodes_append hx hfront) ?_
  rw [heq, List.append_assoc]

/-- What follows a leader byte -/
theorem Encodes.of_leader {bs : List Block} {t : List Byte} (h : Encodes bs (0 :: t)) :
    Encodes bs t := by
  generalize htape : (0 : Byte) :: t = tape at h
  cases h with
  | nil => cases htape
  | leader h =>
    cases htape
    exact h
  | block b h =>
    have hhead := congrArg List.head? htape
    simp [Block.bytes, Block.body] at hhead

theorem Encodes.of_zeros {bs : List Block} {t : List Byte} (h : Encodes bs t)
    (ht : ∀ b ∈ t, b = 0) : bs = [] := by
  induction t generalizing bs with
  | nil =>
    generalize htape : ([] : List Byte) = tape at h
    cases h with
    | nil => rfl
    | leader => cases htape
    | block b =>
      have hhead := congrArg List.head? htape
      simp [Block.bytes, Block.body] at hhead
  | cons b t ih =>
    obtain rfl := ht b List.mem_cons_self
    exact ih h.of_leader fun b hb => ht b (List.mem_cons_of_mem _ hb)

theorem size_low_high (w : BitVec 16) : size (low w) (high w) = w.toNat := by
  unfold size low high
  rw [BitVec.toNat_setWidth, BitVec.toNat_setWidth, BitVec.toNat_ushiftRight,
    Nat.shiftRight_eq_div_pow]
  have h := w.isLt
  omega

theorem Block.size_count (b : Block) : size (low b.count) (high b.count) = b.data.length + 6 := by
  rw [size_low_high, Block.count, BitVec.toNat_ofNat, Nat.mod_eq_of_lt b.length_lt]

theorem Block.total_eq_zero (b : Block) :
    total [1, 0, low b.count, high b.count, low b.address, high b.address] + total b.data +
      b.checksum = 0 := by
  rw [Block.checksum, Block.body, total_append]
  exact BitVec.add_right_neg _

theorem feed_zeros {t : List Byte} (hs : s.phase = .skip) (ht : ∀ b ∈ t, b = 0) :
    feed s t = .loaded s.image s.entry := by
  induction t generalizing s with
  | nil => simp [feed, step, hs]
  | cons b t ih =>
    obtain rfl := ht b List.mem_cons_self
    rw [feed_other hs (by decide)]
    exact ih (s := { s with sum := 0 }) hs fun b hb => ht b (List.mem_cons_of_mem _ hb)

/-- The checksum 1 of a start block, with nothing but leader after it -/
theorem feed_one_zeros {t : List Byte} (hs : s.phase = .skip) (ht : ∀ b ∈ t, b = 0) :
    feed s (1 :: t) = .loaded s.image s.entry := by
  rw [List.eq_replicate_of_mem ht]
  generalize t.length = k
  rcases k with _ | _ | _ | _ | _ | k
  case zero => simp [feed, step, hs]
  iterate 3 · simp [List.replicate, feed, step, hs, Loader.goOn]
  · simp [List.replicate, feed, step, hs, Loader.goOn, Loader.header, Character.int]
  · obtain ⟨u, hfeed, hu, himage, hentry⟩ :=
      feed_short 0 0 0 0 (List.replicate k 0) hs (by decide)
    rw [if_neg (by decide)] at hentry
    rw [← himage, ← hentry]
    exact hfeed.trans (feed_zeros hu fun b hb => List.eq_of_mem_replicate hb)

/-- Behind the address of a start block, the loader goes on with the rest of the tape. -/
theorem feed_behind_start {bs : List Block} {c : Byte} {t : List Byte} (hs : s.phase = .skip)
    (ht : Encodes bs t) (hclear : Clear t) (hc : c = 1 → Harmless t)
    (ih : ∀ (u : Loader) (t' : List Byte), t'.length ≤ t.length → Encodes bs t' → Clear t' →
      u.phase = .skip → ∃ n, feed u t' = .loaded n ((entryOf bs).or u.entry) ∧
        Filled u.image n (contents bs)) :
    ∃ n, feed s (c :: t) = .loaded n ((entryOf bs).or s.entry) ∧
      Filled s.image n (contents bs) := by
  by_cases hone : c = 1
  case neg =>
    rw [feed_other hs hone]
    exact ih { s with sum := 0 } t le_rfl ht hclear hs
  subst hone
  rcases hc rfl with hzeros | ⟨t', rfl⟩
  · obtain rfl := ht.of_zeros hzeros
    exact ⟨s.image, feed_one_zeros hs hzeros, Filled.refl s.image⟩
  · obtain ⟨u, hfeed, hu, himage, hentry⟩ :=
      feed_short 0 0 0 0 t' hs (by decide)
    rw [if_neg (by decide)] at hentry
    have ht' := ht.of_leader.of_leader.of_leader.of_leader.of_leader
    have hclear' : Clear t' := hclear.of_append Encodes.nil.leader.leader.leader.leader.leader
    obtain ⟨n, hloaded, hfilled⟩ := ih u t' (by rw [List.length_append]; omega) ht' hclear' hu
    rw [hentry] at hloaded
    rw [himage] at hfilled
    exact ⟨n, hfeed.trans hloaded, hfilled⟩

theorem feed_encodes {bs : List Block} {tape : List Byte} (h : Encodes bs tape)
    (hclear : Clear tape) (hs : s.phase = .skip) :
    ∃ n, feed s tape = .loaded n ((entryOf bs).or s.entry) ∧ Filled s.image n (contents bs) := by
  induction hlength : tape.length using Nat.strong_induction_on generalizing s bs tape with
  | _ k ih =>
    cases h with
    | nil => exact ⟨s.image, feed_zeros hs (fun _ h => absurd h List.not_mem_nil), Filled.refl _⟩
    | @leader _ t ht =>
      rw [List.length_cons] at hlength
      have hclear : Clear t := hclear.of_append (x := [0]) Encodes.nil.leader
      rw [feed_other hs (by decide)]
      exact ih t.length (by omega) ht hclear (s := { s with sum := 0 }) hs rfl
    | @block bs t b ht =>
      have hlt : t.length < k := by
        rw [← hlength, List.length_append]
        simp [Block.bytes, Block.body]
      have hclear_t : Clear t := by
        refine @Clear.of_append [b] _ _ hclear ?_
        simpa using Encodes.nil.block b
      have ih (u : Loader) (t' : List Byte) (hle : t'.length ≤ t.length) (ht' : Encodes bs t')
          (hclear' : Clear t') (hu : u.phase = .skip) :
          ∃ n, feed u t' = .loaded n ((entryOf bs).or u.entry) ∧
            Filled u.image n (contents bs) :=
        ih t'.length (by omega) ht' hclear' hu rfl
      have haddr := size_low_high b.address
      have hsize := b.size_count
      by_cases hdata : b.data = []
      case pos =>
        have hbytes : b.bytes ++ t = 1 :: 0 :: low b.count :: high b.count :: low b.address ::
            high b.address :: (b.checksum :: t) := by
          simp [Block.bytes, Block.body, hdata]
        have hone : b.checksum = 1 → Harmless t :=
          hclear [] [] b t .nil (List.nil_append _).symm hdata
        rw [hdata] at hsize
        replace hsize : size (low b.count) (high b.count) = 6 := hsize
        obtain ⟨u, hfeed, hu, himage, hentry⟩ :=
          feed_short _ _ (low b.address) (high b.address) (b.checksum :: t) hs
            hsize.le
        rw [hbytes, hfeed]
        obtain ⟨n, hloaded, hfilled⟩ := feed_behind_start hu ht hclear_t hone ih
        refine ⟨n, ?_, ?_⟩
        · rw [hloaded, hentry, if_pos hsize, haddr, entryOf, if_pos hdata]
          cases entryOf bs <;> rfl
        · rw [himage] at hfilled
          refine hfilled.congr fun a => ?_
          rw [contents, hdata, bytesFrom_nil, Option.or_none]
      case neg =>
        have hbytes : b.bytes ++ t = 1 :: 0 :: low b.count :: high b.count :: low b.address ::
            high b.address :: (b.data ++ b.checksum :: t) := by
          simp [Block.bytes, Block.body]
        obtain ⟨v, hfeed, hphase, hsum, himage, hentry⟩ :=
          feed_body (low b.address) (high b.address) (b.checksum :: t) hs
            (List.length_pos_iff.mpr hdata) hsize.ge
        rw [if_neg (by omega)] at hphase
        have hzero : v.sum + b.checksum = 0 := by
          rw [hsum]
          exact b.total_eq_zero
        rw [hbytes, hfeed, feed_checksum hphase hzero]
        obtain ⟨n, hloaded, hfilled⟩ :=
          ih { v with sum := 0, phase := .skip } t le_rfl ht hclear_t rfl
        refine ⟨n, ?_, ?_⟩
        · rw [hloaded, entryOf, if_neg hdata, Option.or_none, hentry]
        · have hput : Filled s.image v.image (bytesFrom b.address.toNat b.data) := by
            rw [himage, haddr]
            exact filled_putBytes _ _ _
          exact hput.trans hfilled

/-! ## The comparison -/

/-- Unless the checksum 1 of a start block misleads it, the loader meets the format exactly on
the tapes in the format and on those that it refuses. -/
theorem tape_meets_iff (image : MemoryImage) (tape : List Byte) (h : WellFormed tape → Clear tape) :
    Meets image tape ↔ WellFormed tape ∨ Broken tape := by
  constructor
  · intro hmeets
    refine or_iff_not_imp_left.mpr fun hmal => ?_
    obtain ⟨n, hrefused, -⟩ := hmeets.refuses hmal
    exact broken_of_refused tape (s := .initial image) rfl hrefused
  · rintro (hwf | hbroken)
    · refine ⟨fun bs hbs => ?_, fun hmal => absurd hwf hmal⟩
      obtain ⟨n, hloaded, hfilled⟩ := feed_encodes hbs (h hwf) (s := .initial image) rfl
      refine ⟨n, hloaded.trans ?_, hfilled⟩
      rw [show (Loader.initial image).entry = none from rfl, Option.or_none]
    · obtain ⟨n, hrefused, f, hfilled, hmem⟩ := refused_of_broken hbroken (s := .initial image) rfl
      constructor
      · -- a tape that is refused is not in the format
        intro bs hbs
        obtain ⟨m, hloaded, -⟩ := feed_encodes hbs (h ⟨bs, hbs⟩) (s := .initial image) rfl
        exact absurd (hloaded.symm.trans hrefused) (by simp)
      · refine fun _ => ⟨n, hrefused, fun a => ?_⟩
        have hbyte := hfilled.byteAt a
        cases hfa : f a with
        | none =>
          rw [hfa] at hbyte
          exact .inl hbyte
        | some b =>
          rw [hfa] at hbyte
          exact .inr (hbyte ▸ hmem a b hfa)

/-- A tape with one byte for address 2 -/
theorem meets_one_byte : Meets .init [1, 0, 7, 0, 2, 0, 0x55, 0xa1] := by
  refine (tape_meets_iff .init [1, 0, 7, 0, 2, 0, 0x55, 0xa1] fun _ => ?_).mpr (.inl ?_)
  · -- there is no start block on it
    intro bs front b t _ htape hdata
    rcases front with _ | ⟨x, _ | ⟨y, front⟩⟩
    · simp [Block.bytes, Block.body, Block.count, hdata, low] at htape
    · simp [Block.bytes, Block.body] at htape
    · have hlength := congrArg List.length htape
      simp [Block.bytes, Block.body] at hlength
      omega
  · exact ⟨_, .block ⟨2, [0x55], by decide⟩ .nil⟩

theorem not_wellFormed_cut : ¬ WellFormed [1, 0, 8, 0, 2, 0, 0x55] := by
  rintro ⟨bs, h⟩
  generalize htape : ([1, 0, 8, 0, 2, 0, 0x55] : List Byte) = tape at h
  cases h with
  | nil => cases htape
  | leader => simp at htape
  | block b h =>
    have hsize := b.size_count
    simp only [Block.bytes, Block.body, List.cons_append, List.nil_append, List.append_assoc,
      List.cons.injEq, true_and] at htape
    obtain ⟨hlow, hhigh, -, -, hrest⟩ := htape
    have hlength := congrArg List.length hrest
    rw [← hlow, ← hhigh] at hsize
    simp [size] at hlength hsize
    omega

/-- A tape that ends inside a block is loaded, with the end of the file as a byte. -/
theorem cut_tape_loaded : ¬ Meets .init [1, 0, 8, 0, 2, 0, 0x55] := by
  intro h
  obtain ⟨n, hrefused, -⟩ := h.refuses not_wellFormed_cut
  cases hrefused

end QUniBone.Papertape
