import QUniBone.Storage.Image

/-!
# Storage images are sparse arrays

Each operation on an image is compared with the same operation on a sparse array of bytes, over
sequences of operations.

* `Ideal`: the array, and what has been written of it.
* `Binfile.Careful`, `Memory.Careful`: the operations the two kinds of images can do.
* `Agrees`: the image answers like the array, as long as the operations are such ones.
* `agrees_of_careful`: both kinds do.
* `Binfile.short_read_sticks`: a read across the end of the file makes the next one fail.
-/

namespace QUniBone.Storage

/-- What an image is for. -/
structure Ideal where
  array : SparseArray Byte
  /-- since the last `truncate` -/
  written : ℕ → Bool

namespace Ideal

/-- The content of a file, of which nothing has been written yet. -/
def ofFile (file : SparseArray Byte) : Ideal := ⟨file, fun _ => false⟩

def write (a : Ideal) (pos : ℕ) (data : List Byte) : Ideal where
  array := a.array.put pos data
  written i := a.written i || decide (pos ≤ i ∧ i < pos + data.length)

def apply (a : Ideal) : Op → Result × Ideal
  | .open _ => (.done, a)
  | .write position data => (.done, a.write position.toNat data)
  | .read position len => (.bytes (a.array.slice position.toNat len.toNat), a)
  | .truncate => (.done, ofFile .empty)
  | .getBytes position len => (.bytes (a.array.slice position.toNat len.toNat), a)
  | .size => (.size (BitVec.ofNat 64 a.array.size), a)

end Ideal

/-- The answers to a sequence of operations. An operation that is careful returns, with the result
of the array, and so do those after it. -/
def Agrees {σ : Type} (does : σ → Op → Result → σ → Prop) (careful : σ → Ideal → Op → Prop) :
    σ → Ideal → List Op → Prop
  | _, _, [] => True
  | s, a, op :: ops => careful s a op →
      (∃ r t, does s op r t) ∧
        ∀ r t, does s op r t → r = (a.apply op).1 ∧ Agrees does careful t (a.apply op).2 ops

/-- A simulation: an invariant of image and array that every careful operation keeps. -/
theorem Agrees.of_simulation {σ : Type} {does : σ → Op → Result → σ → Prop}
    {careful : σ → Ideal → Op → Prop} {I : σ → Ideal → Prop}
    (hreturns : ∀ s a op, I s a → careful s a op → ∃ r t, does s op r t)
    (hstep : ∀ s a op r t, I s a → careful s a op → does s op r t →
      r = (a.apply op).1 ∧ I t (a.apply op).2) (ops : List Op) {s : σ} {a : Ideal} (h : I s a) :
    Agrees does careful s a ops := by
  induction ops generalizing s a with
  | nil => trivial
  | cons op ops ih =>
    intro hcareful
    refine ⟨hreturns s a op h hcareful, fun r t hdoes => ?_⟩
    obtain ⟨hresult, ht⟩ := hstep s a op r t h hcareful hdoes
    exact ⟨hresult, ih ht⟩

/-! ## Image file -/

namespace Binfile

/-- An operation that returns. -/
def Does (f : Fstream Byte) (op : Op) (r : Result) (g : Fstream Byte) : Prop :=
  ∃ fuel, apply fuel f op = some (r, g)

/-- The stream has not failed when it is read or measured, some bytes are read, and what is
written ends below 2^63 and leaves a gap below 2^31. -/
def Careful (f : Fstream Byte) (_ : Ideal) : Op → Prop
  | .open _ => True
  | .write position data =>
      position.toNat + data.length < 2 ^ 63 ∧ position.toNat - f.file.size < 2 ^ 31
  | .read _ len => len.toNat ≠ 0 ∧ f.failbit = false
  | .truncate => True
  | .getBytes _ len => len.toNat ≠ 0 ∧ f.failbit = false
  | .size => f.failbit = false

/-- Small gaps survive the conversion to `int`. -/
theorem toInt32_of_lt {n : ℤ} (h0 : 0 ≤ n) (h : n < 2 ^ 31) : toInt32 n = n := by
  unfold toInt32
  rw [Int.bmod_eq_of_le] <;> omega

/-- The loop fills the file with zeros up to the position. -/
theorem fill_returns (pos : ℕ) (n : ℕ) :
    ∀ f : Fstream Byte, pos - f.file.size = n → pos - f.file.size < 2 ^ 31 →
      ∃ g : Fstream Byte, Loop.Returns (fillRound pos) (f, (f.file.size : ℤ))
        (g, (g.file.size : ℤ)) ∧ g.file = f.file.extend pos ∧
          (pos ≤ f.file.size → g = f) := by
  induction n using Nat.strong_induction_on with
  | _ n ih =>
    intro f hn hgap
    by_cases hdone : pos ≤ f.file.size
    · refine ⟨f, Loop.returns_of_inl ?_, (f.file.extend_of_le hdone).symm, fun _ => rfl⟩
      rw [fillRound, if_pos (by omega)]
    · -- One more chunk of zeros.
      have hint : toInt32 ((pos : ℤ) - f.file.size) = ((pos - f.file.size : ℕ) : ℤ) := by
        rw [toInt32_of_lt (by omega) (by omega)]
        omega
      obtain ⟨chunk, hchunk⟩ : ∃ chunk : ℕ,
          min maxChunkSize (toInt32 ((pos : ℤ) - f.file.size)) = chunk :=
        ⟨min 0x40000 (pos - f.file.size), by rw [hint, maxChunkSize]; omega⟩
      have hpositive : 0 < chunk ∧ chunk ≤ pos - f.file.size := by
        rw [hint, maxChunkSize] at hchunk
        omega
      let g : Fstream Byte :=
        ⟨f.file.extend (f.file.size + chunk), f.file.size + chunk, false, false⟩
      have hsize : g.file.size = f.file.size + chunk := by
        show max _ _ = _
        omega
      have hround : fillRound pos (f, (f.file.size : ℤ)) = .inr (g, (g.file.size : ℤ)) := by
        rw [fillRound, if_neg (by omega)]
        dsimp only
        rw [hchunk, Int.toNat_natCast, Fstream.clear_seekp, Fstream.write_of_le _ le_rfl,
          SparseArray.put_zeros, List.length_replicate, hsize]
        rfl
      obtain ⟨h, hreturns, hfile, -⟩ := ih (pos - g.file.size) (by omega) g rfl (by omega)
      refine ⟨h, Loop.returns_of_inr hround hreturns, ?_, fun hle => absurd hle hdone⟩
      rw [hfile]
      show (f.file.extend _).extend pos = _
      rw [SparseArray.extend_extend]
      congr 1
      omega

/-- `write` puts the data into the file, after zeros if need be. -/
theorem write_of_careful (f : Fstream Byte) {position : BitVec 64} {data : List Byte}
    (hend : position.toNat + data.length < 2 ^ 63)
    (hgap : position.toNat - f.file.size < 2 ^ 31) :
    (∃ fuel g, write fuel f position data = some g) ∧
      ∀ fuel g, write fuel f position data = some g →
        g = ⟨f.file.put position.toNat data, position.toNat + data.length, false, false⟩ := by
  have hpos : position.toInt = position.toNat := by
    rw [BitVec.toInt_eq_toNat_of_lt]
    omega
  -- The loop starts at the end of the file.
  obtain ⟨g, hreturns, hfile, hsame⟩ := fill_returns position.toNat _
    ⟨f.file, f.file.size, false, false⟩ rfl hgap
  have hwhole : ∀ fuel, write fuel f position data =
      (Loop.run (fillRound position.toNat) fuel
        (⟨f.file, f.file.size, false, false⟩, (f.file.size : ℤ))).bind fun filled =>
        if filled.2 = 0 then
          if (position.toNat : ℤ) = 0 then some (filled.1.write data) else none
        else
          let f := filled.1.clear.seekp position.toNat
          if f.tellp = position.toNat then some (f.write data) else none := by
    intro fuel
    have htell : (⟨f.file, f.file.size, false, false⟩ : Fstream Byte).tellp = f.file.size := rfl
    rw [write, hpos, Fstream.clear_seekpEnd, htell, if_neg (by omega)]
  -- Then the data are written at the position, which the file reaches.
  have hsize : g.file.size = max f.file.size position.toNat := by
    rw [hfile]
    rfl
  have hafter : ∀ h : Fstream Byte,
      (if (g.file.size : ℤ) = 0 then
        if (position.toNat : ℤ) = 0 then some (g.write data) else none
      else if (g.clear.seekp position.toNat).tellp = position.toNat then
        some ((g.clear.seekp position.toNat).write data) else none) = some h ↔
      h = ⟨g.file.put position.toNat data, position.toNat + data.length, false, false⟩ := by
    intro h
    have hle : position.toNat ≤ g.file.size := by omega
    have hwrite := Fstream.write_of_le g.file hle data
    split_ifs with hempty hzero htell
    · have hg := hsame (show position.toNat ≤ f.file.size by omega)
      have hat : (⟨g.file, position.toNat, false, false⟩ : Fstream Byte) = g := by
        rw [hg]
        congr 1
        omega
      rw [hat] at hwrite
      rw [hwrite, Option.some.injEq]
      exact eq_comm
    · exact absurd (show (position.toNat : ℤ) = 0 by omega) hzero
    · rw [Fstream.clear_seekp, hwrite, Option.some.injEq]
      exact eq_comm
    · rw [Fstream.clear_seekp] at htell
      exact absurd rfl htell
  have hput : g.file.put position.toNat data = f.file.put position.toNat data := by
    rw [hfile]
    exact f.file.put_extend _ _
  constructor
  · obtain ⟨fuel, hfuel⟩ := hreturns
    exact ⟨fuel, _, by rw [hwhole, hfuel]; exact (hafter _).mpr rfl⟩
  · intro fuel h hrun
    rw [hwhole] at hrun
    obtain ⟨r, hr, hrest⟩ := Option.bind_eq_some_iff.mp hrun
    obtain rfl := Loop.Returns.unique ⟨fuel, hr⟩ hreturns
    rw [(hafter h).mp hrest, hput]

theorem write_mono {m n : ℕ} (hmn : m ≤ n) {f g : Fstream Byte} {position : BitVec 64}
    {data : List Byte} (h : write m f position data = some g) :
    write n f position data = some g := by
  obtain ⟨r, hr, hrest⟩ := Option.bind_eq_some_iff.mp h
  exact Option.bind_eq_some_iff.mpr ⟨r, Loop.run_mono hmn hr, hrest⟩

/-- Positions from 2^63 on are negative for the stream. There is nothing anyway. -/
theorem read_of_careful (f : Fstream Byte) (position : BitVec 64) {len : ℕ} (hlen : len ≠ 0)
    (hgood : f.failbit = false) (hsize : f.file.size < 2 ^ 63) :
    ∃ g : Fstream Byte, read f position len = some (f.file.slice position.toNat len, g) ∧
      g.file = f.file := by
  refine ⟨((f.seekg position.toInt).read len).2, ?_, by simp⟩
  rw [read, if_neg hlen]
  by_cases hpos : position.toNat < 2 ^ 63
  · rw [BitVec.toInt_eq_toNat_of_lt (by omega)]
    dsimp only
    rw [Fstream.seekg_read f hgood]
  · have hnegative : position.toInt < 0 := by
      rw [BitVec.toInt_eq_toNat_cond]
      split <;> omega
    have hread : (f.seekg position.toInt).read len =
        ([], { f with eofbit := false, failbit := true }) := by
      simp [Fstream.seekg, Fstream.seek, hgood, hnegative, Fstream.read, Fstream.good]
    rw [hread, f.file.slice_of_size_le (by omega)]
    simp

/-- A read that ends in the file leaves the stream good. -/
theorem read_inside (f : Fstream Byte) (position : BitVec 64) {len : ℕ} (hlen : len ≠ 0)
    (hgood : f.failbit = false) (hin : position.toNat + len ≤ f.file.size)
    (hsize : f.file.size < 2 ^ 63) :
    read f position len = some (f.file.slice position.toNat len,
      ⟨f.file, position.toNat + len, false, false⟩) := by
  have hint : position.toInt = position.toNat := by
    rw [BitVec.toInt_eq_toNat_of_lt]
    omega
  have hseek : f.seekg position.toInt = ⟨f.file, position.toNat, false, false⟩ := by
    rw [hint, Fstream.seekg, Fstream.seek_of_good]
    · simp [hgood]
    · exact hgood
  have hall : min len (f.file.size - position.toNat) = len := by omega
  rw [read, if_neg hlen, hseek, Fstream.read, if_pos (Fstream.good_mk f.file position.toNat)]
  simp [hall]

/-- The file is the array. -/
theorem agrees (file : SparseArray Byte) (hsize : file.size < 2 ^ 63) (ops : List Op) :
    Agrees Does Careful (.openAte file) (.ofFile file) ops := by
  refine Agrees.of_simulation
    (I := fun (f : Fstream Byte) a => f.file = a.array ∧ f.file.size < 2 ^ 63) ?_ ?_ ops
    ⟨rfl, hsize⟩
  · -- Every careful operation returns.
    intro f a op ⟨hfile, hbound⟩ hcareful
    cases op with
    | «open» garbage => exact ⟨_, _, 0, rfl⟩
    | write position data =>
      obtain ⟨⟨fuel, g, hg⟩, -⟩ := write_of_careful f hcareful.1 hcareful.2
      exact ⟨.done, g, fuel, by rw [apply, hg]; rfl⟩
    | read position len =>
      obtain ⟨g, hg, -⟩ := read_of_careful f position hcareful.1 hcareful.2 hbound
      exact ⟨_, g, 0, by rw [apply, hg]; rfl⟩
    | truncate => exact ⟨_, _, 0, rfl⟩
    | getBytes position len =>
      obtain ⟨g, hg, -⟩ := read_of_careful f position hcareful.1 hcareful.2 hbound
      exact ⟨_, g, 0, by rw [apply, hg]; rfl⟩
    | size => exact ⟨_, _, 0, rfl⟩
  · intro f a op r g ⟨hfile, hbound⟩ hcareful ⟨fuel, hdoes⟩
    cases op with
    | «open» garbage =>
      obtain ⟨rfl, rfl⟩ := Prod.mk.inj (Option.some.inj hdoes)
      exact ⟨rfl, hfile, hbound⟩
    | write position data =>
      obtain ⟨h, hwrite, hrg⟩ := Option.map_eq_some_iff.mp hdoes
      obtain ⟨rfl, rfl⟩ := Prod.mk.inj hrg
      have hput : h.file = f.file.put position.toNat data :=
        congrArg Fstream.file ((write_of_careful f hcareful.1 hcareful.2).2 fuel h hwrite)
      refine ⟨rfl, ?_, ?_⟩
      · rw [hput, hfile]
        rfl
      · rw [hput, SparseArray.size_put]
        exact max_lt hbound hcareful.1
    | read position len =>
      obtain ⟨h, hh, hsame⟩ := read_of_careful f position hcareful.1 hcareful.2 hbound
      rw [apply, hh] at hdoes
      obtain ⟨rfl, rfl⟩ := Prod.mk.inj (Option.some.inj hdoes)
      rw [hsame, hfile]
      exact ⟨rfl, rfl, hfile ▸ hbound⟩
    | truncate =>
      obtain ⟨rfl, rfl⟩ := Prod.mk.inj (Option.some.inj hdoes)
      exact ⟨rfl, rfl, by decide⟩
    | getBytes position len =>
      obtain ⟨h, hh, hsame⟩ := read_of_careful f position hcareful.1 hcareful.2 hbound
      rw [apply, hh] at hdoes
      obtain ⟨rfl, rfl⟩ := Prod.mk.inj (Option.some.inj hdoes)
      rw [hsame, hfile]
      exact ⟨rfl, rfl, hfile ▸ hbound⟩
    | size =>
      obtain ⟨rfl, rfl⟩ := Prod.mk.inj (Option.some.inj hdoes)
      have hgood : f.failbit = false := hcareful
      refine ⟨?_, ?_, ?_⟩
      · have hend : f.seekpEnd.tellp = f.file.size := by
          rw [Fstream.seekpEnd, Fstream.seek_of_good f hgood, Fstream.tellp, hgood,
            if_neg Bool.false_ne_true]
        show Result.size (BitVec.ofInt 64 f.seekpEnd.tellp) =
          Result.size (BitVec.ofNat 64 a.array.size)
        rw [hend, hfile, BitVec.ofInt_natCast]
      · show f.seekpEnd.file = a.array
        rw [Fstream.seekpEnd_file, hfile]
      · show f.seekpEnd.file.size < 2 ^ 63
        rw [Fstream.seekpEnd_file]
        exact hbound

end Binfile

/-! ## Image in memory -/

namespace Memory

def Does (m : Memory) (op : Op) (r : Result) (n : Memory) : Prop := m.apply op = some (r, n)

/-- Of the bytes inside only those are read that have been written. -/
def ReadsWritten (m : Memory) (a : Ideal) (pos len : ℕ) : Prop :=
  ∀ i, pos ≤ i → i < pos + len → i < m.dataSize.toNat → a.written i = true

/-- What is written or fetched lies inside, what is read has been written, and the extent is only
asked for when it is the capacity. The image is opened before anything is written. -/
def Careful (m : Memory) (a : Ideal) : Op → Prop
  | .open _ => ∀ i, a.written i = false
  | .write position data => position.toNat + data.length ≠ 0 ∧
      position.toNat + data.length ≤ m.dataSize.toNat
  | .read position len => len.toNat ≠ 0 ∧ m.ReadsWritten a position.toNat len.toNat
  | .truncate => True
  | .getBytes position len => position.toNat < m.dataSize.toNat ∧
      position.toNat + len.toNat ≤ m.dataSize.toNat ∧ m.ReadsWritten a position.toNat len.toNat
  | .size => a.array.size = m.dataSize.toNat

/-- What has been written is in the block. -/
structure Holds (m : Memory) (a : Ideal) : Prop where
  capacity : m.data.capacity = m.dataSize.toNat
  bound : m.dataSize.toNat < 2 ^ 32
  inside : ∀ i, a.written i = true → i < m.dataSize.toNat ∧ m.data.byte i = a.array.get i
  outside : ∀ i, a.written i = false → a.array.get i = 0

variable {m n : Memory} {a : Ideal}

/-- The bytes of the block are those of the array. -/
theorem load_of_written (hm : m.Holds a) {pos len : ℕ} (hin : pos + len ≤ m.dataSize.toNat)
    (hwritten : m.ReadsWritten a pos len) :
    m.data.load pos len = some (a.array.slice pos len) := by
  rw [Block.load, hm.capacity, if_pos hin, SparseArray.slice]
  congr 1
  refine List.map_congr_left fun i hi => ?_
  rw [List.mem_range] at hi
  exact (hm.inside _ (hwritten (pos + i) (by omega) (by omega) (by omega))).2

/-- Behind the capacity nothing has been written. -/
theorem Holds.zero_of_le (hm : m.Holds a) {i : ℕ} (h : m.dataSize.toNat ≤ i) :
    a.array.get i = 0 := by
  refine hm.outside i ?_
  cases hi : a.written i with
  | false => rfl
  | true => exact absurd (hm.inside i hi).1 (by omega)

theorem read_of_written (hm : m.Holds a) (position : BitVec 64) {len : ℕ}
    (hbound : len < 2 ^ 32) (hlen : len ≠ 0)
    (hwritten : m.ReadsWritten a position.toNat len) :
    m.read position len = some (a.array.slice position.toNat len) := by
  have hsize := hm.bound
  rw [read, if_neg hlen]
  by_cases hpos : position < m.dataSize
  · rw [if_pos hpos]
    rw [BitVec.lt_def] at hpos
    dsimp only
    -- As many bytes as are inside, and zeros behind them.
    have hcopied : (if position + BitVec.ofNat 64 len ≤ m.dataSize then len
        else (m.dataSize - position).toNat) = min len (m.dataSize.toNat - position.toNat) := by
      have hstop : (position + BitVec.ofNat 64 len).toNat = position.toNat + len := by
        rw [BitVec.toNat_add, BitVec.toNat_ofNat]
        omega
      have hrest : (m.dataSize - position).toNat = m.dataSize.toNat - position.toNat :=
        BitVec.toNat_sub_of_le (BitVec.le_def.mpr hpos.le)
      simp only [BitVec.le_def, hstop, hrest]
      split <;> omega
    rw [hcopied, load_of_written hm (by omega) fun i h1 h2 h3 => hwritten i h1 (by omega) h3,
      Option.bind_some, if_pos (by omega)]
    congr 1
    refine List.ext_getElem? fun i => ?_
    rw [List.getElem?_append, SparseArray.length_slice, SparseArray.getElem?_slice,
      SparseArray.getElem?_slice, List.getElem?_replicate]
    by_cases hi : i < min len (m.dataSize.toNat - position.toNat)
    · rw [if_pos hi, if_pos hi, if_pos (by omega)]
    · rw [if_neg hi]
      by_cases hlast : i < len
      · rw [if_pos (by omega), if_pos hlast, hm.zero_of_le (by omega)]
      · rw [if_neg (by omega), if_neg hlast]
  · rw [if_neg hpos]
    rw [BitVec.lt_def] at hpos
    congr 1
    refine List.ext_getElem? fun i => ?_
    rw [SparseArray.getElem?_slice, List.getElem?_replicate, hm.zero_of_le (by omega)]

theorem write_inside (hm : m.Holds a) {position : BitVec 64} {data : List Byte}
    (hsome : position.toNat + data.length ≠ 0)
    (hin : position.toNat + data.length ≤ m.dataSize.toNat) :
    ∃ n : Memory, m.write position data = some n ∧ n.Holds (a.write position.toNat data) := by
  have hsize := hm.bound
  -- Nothing is reallocated.
  have hroom : ¬ m.dataSize < position + BitVec.ofNat 64 data.length - 1 := by
    have hone : (1 : BitVec 64).toNat = 1 := rfl
    rw [BitVec.lt_def, BitVec.toNat_sub, BitVec.toNat_add, BitVec.toNat_ofNat, hone]
    omega
  let after (i : ℕ) : Byte :=
    if position.toNat ≤ i then (data[i - position.toNat]?).getD (m.data.byte i)
    else m.data.byte i
  have hwrite : m.write position data = some { m with data := ⟨m.data.capacity, after⟩ } := by
    rw [write, if_neg hroom, Block.store, hm.capacity, if_pos hin]
    rfl
  refine ⟨_, hwrite, hm.capacity, hm.bound, fun i hi => ?_, fun i hi => ?_⟩
  · show i < m.dataSize.toNat ∧ after i = (a.array.put position.toNat data).get i
    simp only [after, SparseArray.put]
    simp only [Ideal.write, Bool.or_eq_true, decide_eq_true_eq] at hi
    rcases hi with hold | ⟨hlow, hhigh⟩
    · obtain ⟨hlt, hbyte⟩ := hm.inside i hold
      rw [hbyte]
      exact ⟨hlt, rfl⟩
    · have hsome : i - position.toNat < data.length := by omega
      refine ⟨by omega, ?_⟩
      rw [if_pos hlow, if_pos hlow, List.getElem?_eq_getElem hsome]
      rfl
  · simp only [Ideal.write, Bool.or_eq_false_iff, decide_eq_false_iff_not] at hi
    obtain ⟨hold, hout⟩ := hi
    show (a.array.put position.toNat data).get i = 0
    simp only [SparseArray.put, hm.outside i hold]
    split
    · next hlow =>
      rw [List.getElem?_eq_none (by omega)]
      rfl
    · rfl

theorem agrees (capacity : BitVec 32) (garbage : ℕ → Byte) (ops : List Op) :
    Agrees Does Careful (opened capacity garbage) (.ofFile .empty) ops := by
  refine Agrees.of_simulation (I := Holds) ?_ ?_ ops ?_
  · intro m a op hm hcareful
    cases op with
    | «open» garbage => exact ⟨_, _, rfl⟩
    | write position data =>
      obtain ⟨n, hn, -⟩ := write_inside hm hcareful.1 hcareful.2
      exact ⟨.done, n, by rw [Does, apply, hn]; rfl⟩
    | read position len =>
      have hread := read_of_written hm position len.isLt hcareful.1 hcareful.2
      exact ⟨_, m, by rw [Does, apply, hread]; rfl⟩
    | truncate => exact ⟨_, _, rfl⟩
    | getBytes position len =>
      obtain ⟨hpos, hin, hwritten⟩ := hcareful
      have hload : m.getBytes position len.toNat =
          some (a.array.slice position.toNat len.toNat) := by
        rw [getBytes, if_pos ⟨BitVec.lt_def.mpr hpos, hin⟩, load_of_written hm hin hwritten]
      exact ⟨_, m, by rw [Does, apply, hload]; rfl⟩
    | size => exact ⟨_, _, rfl⟩
  · intro m a op r n hm hcareful hdoes
    cases op with
    | «open» garbage =>
      obtain ⟨rfl, rfl⟩ := Prod.mk.inj (Option.some.inj hdoes)
      refine ⟨rfl, rfl, hm.bound, fun i hi => ?_, hm.outside⟩
      exact absurd ((hcareful i).symm.trans hi) Bool.false_ne_true
    | write position data =>
      obtain ⟨h, hh, hholds⟩ := write_inside hm hcareful.1 hcareful.2
      rw [Does, apply, hh] at hdoes
      obtain ⟨rfl, rfl⟩ := Prod.mk.inj (Option.some.inj hdoes)
      exact ⟨rfl, hholds⟩
    | read position len =>
      rw [Does, apply, read_of_written hm position len.isLt hcareful.1 hcareful.2] at hdoes
      obtain ⟨rfl, rfl⟩ := Prod.mk.inj (Option.some.inj hdoes)
      exact ⟨rfl, hm⟩
    | truncate =>
      obtain ⟨rfl, rfl⟩ := Prod.mk.inj (Option.some.inj hdoes)
      refine ⟨rfl, rfl, ?_, fun i hi => absurd hi Bool.false_ne_true, fun i _ => rfl⟩
      show (0 : BitVec 64).toNat < 2 ^ 32
      decide
    | getBytes position len =>
      obtain ⟨hpos, hin, hwritten⟩ := hcareful
      have hload : m.getBytes position len.toNat =
          some (a.array.slice position.toNat len.toNat) := by
        rw [getBytes, if_pos ⟨BitVec.lt_def.mpr hpos, hin⟩, load_of_written hm hin hwritten]
      rw [Does, apply, hload] at hdoes
      obtain ⟨rfl, rfl⟩ := Prod.mk.inj (Option.some.inj hdoes)
      exact ⟨rfl, hm⟩
    | size =>
      obtain ⟨rfl, rfl⟩ := Prod.mk.inj (Option.some.inj hdoes)
      have hextent : a.array.size = m.dataSize.toNat := hcareful
      refine ⟨?_, hm⟩
      show Result.size m.dataSize = Result.size (BitVec.ofNat 64 a.array.size)
      rw [hextent, BitVec.ofNat_toNat, BitVec.setWidth_eq]
  · -- Nothing has been written, whatever the block contains.
    refine ⟨rfl, ?_, fun i hi => absurd hi Bool.false_ne_true, fun i _ => rfl⟩
    show (capacity.setWidth 64).toNat < 2 ^ 32
    rw [BitVec.toNat_setWidth]
    omega

end Memory

/-! ## Both kinds of images -/

/-- Every sequence of careful operations has the results of the array, on a file of the host and
in memory, so both kinds of images agree on it. -/
theorem agrees_of_careful (file : SparseArray Byte) (hsize : file.size < 2 ^ 63)
    (capacity : BitVec 32) (garbage : ℕ → Byte) (ops : List Op) :
    Agrees Binfile.Does Binfile.Careful (.openAte file) (.ofFile file) ops ∧
      Agrees Memory.Does Memory.Careful (Memory.opened capacity garbage) (.ofFile .empty) ops :=
  ⟨Binfile.agrees file hsize ops, Memory.agrees capacity garbage ops⟩

/-- A new file and a memory image of 16 bytes, with a gap before the data. -/
theorem agrees_of_careful_gap :
    Agrees Binfile.Does Binfile.Careful (.openAte .empty) (.ofFile .empty)
        [.write 4 [7], .read 3 2] ∧
      Agrees Memory.Does Memory.Careful (Memory.opened 16 fun _ => 0xFF) (.ofFile .empty)
        [.write 4 [7], .read 3 2] :=
  agrees_of_careful .empty (by decide) 16 (fun _ => 0xFF) _

/-- One byte is written. It is read together with the byte behind it, then alone. -/
def shortRead : List Op := [.write 0 [7], .read 0 2, .read 0 1]

/-- The read across the end of the file leaves `failbit` set, and the next one returns 0. -/
theorem Binfile.short_read_sticks :
    ¬ ∀ (file : SparseArray Byte) (ops : List Op),
      Agrees Does (fun _ _ _ => True) (.openAte file) (.ofFile file) ops := by
  intro hall
  have hwrite := hall .empty shortRead trivial
  obtain ⟨-, hread⟩ := hwrite.2 _ _ ⟨1, rfl⟩
  obtain ⟨-, hagain⟩ := (hread trivial).2 _ _ ⟨0, rfl⟩
  obtain ⟨hresult, -⟩ := (hagain trivial).2 _ _ ⟨0, rfl⟩
  -- `[0]` is not `[7]`.
  exact absurd hresult (by decide)

end QUniBone.Storage
