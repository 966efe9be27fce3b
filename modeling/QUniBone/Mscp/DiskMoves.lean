import QUniBone.Mscp.DiskReference

/-!
# What DoDiskTransfer moves

* `write_data`, `fetch_data`, `store_data`: what the drive does, where byte positions have 32 bits.
* `dmaRead_of_hostOk`, `dmaWrite_of_hostOk`: what comes from memory and goes there.
* `transfer_of_transferOk`: a transfer that can be done.
-/

namespace QUniBone.MscpDisk

open Disk Storage

/-! ## Blocks -/

section Blocks

variable {size : ℕ} {d : Drive} {q : Request}

theorem position_eq (lbn : BitVec 32) : Drive.position lbn = lbn.toNat * blockSize % 2 ^ 32 :=
  BitVec.toNat_mul lbn (BitVec.ofNat 32 blockSize)

theorem position_of_lt {lbn : BitVec 32} (h : lbn.toNat < 2 ^ 23) :
    Drive.position lbn = lbn.toNat * blockSize := by
  rw [position_eq]
  exact Nat.mod_eq_of_lt (by unfold blockSize; omega)

/-- A position that is too large becomes one of an earlier block. -/
theorem position_add_le {lbn : BitVec 32} (h : 2 ^ 23 ≤ lbn.toNat) :
    Drive.position lbn + 2 ^ 32 ≤ lbn.toNat * blockSize := by
  rw [position_eq]
  unfold blockSize
  omega

theorem position_mod (lbn : BitVec 32) : Drive.position lbn % blockSize = 0 := by
  rw [position_eq]
  unfold blockSize
  omega

theorem inData_iff : q.InData d size ↔ ¬d.blockCount size ≤ q.lbn := by
  rw [BitVec.not_le]
  exact Iff.rfl

/-- The number of a block in the RCT -/
theorem rct_block (h : q.Fits d size) (hrct : ¬q.InData d size) :
    q.lbn - d.blockCount size < d.rctBlockCount ∧
      (q.lbn - d.blockCount size).toNat = q.lbn.toNat - Request.blocks d size := by
  have hfits := h.resolve_left fun h => hrct h.1
  have hlt := hfits.2.1
  have hle : (d.blockCount size).toNat ≤ q.lbn.toNat := Nat.not_lt.mp hrct
  have hsub : (q.lbn - d.blockCount size).toNat = q.lbn.toNat - (d.blockCount size).toNat :=
    BitVec.toNat_sub_of_le hle
  refine ⟨?_, hsub⟩
  rw [BitVec.lt_def, hsub]
  unfold Request.blocks Request.rctBlocks at hlt
  omega

theorem rct_byteCount (h : q.Fits d size) (hrct : ¬q.InData d size) :
    q.byteCount.toNat = blockSize := (h.resolve_left fun h => hrct h.1).2.2

end Blocks

/-! ## The drive -/

section Drives

variable {d : Drive}

theorem getElem?_toList (buffer : Bytes) (length i : ℕ) :
    (Bytes.toList buffer length)[i]? = if i < length then some (buffer i) else none := by
  unfold Bytes.toList
  rw [List.getElem?_map]
  split
  case isTrue h => rw [List.getElem?_range h, Option.map_some]
  case isFalse h => rw [List.getElem?_eq_none (by simpa using h), Option.map_none]

theorem replicate_eq_toList (n : ℕ) :
    List.replicate n (0 : Storage.Byte) = Bytes.toList (fun _ => 0) n := by
  unfold Bytes.toList
  simp

/-- A written array -/
theorem get_put_toList (a : SparseArray Storage.Byte) (position length : ℕ) (buffer : Bytes)
    (i : ℕ) :
    (a.put position (buffer.toList length)).get i =
      if position ≤ i ∧ i < position + length then buffer (i - position) else a.get i := by
  show (if position ≤ i then _ else _) = _
  rw [getElem?_toList]
  rcases Nat.lt_or_ge i position with hlt | hge
  · rw [if_neg (by omega), if_neg (by omega)]
  · rw [if_pos hge]
    rcases Nat.lt_or_ge i (position + length) with hin | hout
    · rw [if_pos (by omega), if_pos ⟨hge, hin⟩]
      rfl
    · rw [if_neg (by omega), if_neg (by omega)]
      rfl

/-- `Write`: the bytes, and zeros up to the end of the block -/
theorem write_data (hwritable : d.imageIsReadonly = false) (lbn : BitVec 32) (length : ℕ)
    (buffer : Bytes) (x : Contents) :
    ∃ y, d.write lbn length buffer x = some y ∧
      y.data = ⟨overwrite x.image.get (Drive.position lbn) length buffer, x.rct, x.memory⟩ := by
  have hmod := position_mod lbn
  generalize hposition : Drive.position lbn = position at hmod
  have hwrite (image : SparseArray Storage.Byte) (i : ℕ) (data : List Storage.Byte) :
      imageWrite d image i data = some (image.put i data) := by
    unfold imageWrite
    rw [hwritable, if_neg Bool.false_ne_true]
  have hround : (position + length + blockSize - 1) / blockSize * blockSize =
      position + (length + blockSize - 1) / blockSize * blockSize := by
    change position % 512 = 0 at hmod
    show (position + length + 512 - 1) / 512 * 512 = position + (length + 512 - 1) / 512 * 512
    omega
  have hlength : length ≤ (length + blockSize - 1) / blockSize * blockSize := by
    show length ≤ (length + 512 - 1) / 512 * 512
    omega
  unfold Drive.write
  rw [hposition, hwrite, Option.bind_some]
  unfold imageClearRemainingBlockBytes overwrite
  dsimp only
  rw [hround, hwrite, replicate_eq_toList]
  generalize (length + blockSize - 1) / blockSize * blockSize = rounded at hlength
  split
  case isTrue h =>
    refine ⟨_, rfl, ?_⟩
    show (⟨_, _, _⟩ : Data) = _
    rw [Data.mk.injEq]
    refine ⟨funext fun i => ?_, rfl, rfl⟩
    have hend : position + length + (position + rounded - (position + length)) =
        position + rounded := by omega
    rw [get_put_toList, get_put_toList, hend]
    rcases Nat.lt_or_ge i (position + length) with hin | hout
    · rw [if_neg (by omega)]
      rcases Nat.lt_or_ge i position with hlt | hge
      · rw [if_neg (by omega), if_neg (by omega)]
      · rw [if_pos (by omega), if_pos (by omega), if_pos hin]
    · rcases Nat.lt_or_ge i (position + rounded) with hpad | hafter
      · rw [if_pos (by omega), if_pos (by omega), if_neg (by omega)]
      · rw [if_neg (by omega), if_neg (by omega), if_neg (by omega)]
  case isFalse h =>
    have hwhole : rounded = length := by omega
    refine ⟨_, rfl, ?_⟩
    show (⟨_, _, _⟩ : Data) = _
    rw [Data.mk.injEq]
    refine ⟨funext fun i => ?_, rfl, rfl⟩
    rw [get_put_toList, hwhole]
    split
    case isTrue hin => rw [if_pos hin.2]
    case isFalse => rfl

theorem write_of_readonly (hreadonly : d.imageIsReadonly = true) (lbn : BitVec 32) (length : ℕ)
    (buffer : Bytes) (x : Contents) : d.write lbn length buffer x = none := by
  unfold Drive.write imageWrite
  rw [hreadonly, if_pos rfl]
  rfl

end Drives

/-! ## Disk bytes -/

section Disk

variable {size : ℕ} {d : Drive} {q : Request} {x : Contents}

theorem fetch_inData (hdata : q.InData d x.image.size) :
    q.fetch d x = imageRead x.image (Drive.position q.lbn) q.byteCount.toNat :=
  if_neg (inData_iff.mp hdata)

theorem fetch_rct (hfits : q.Fits d x.image.size) (hrct : ¬q.InData d x.image.size) :
    q.fetch d x = some (q.diskByte d x.image.size x.data) := by
  have ⟨hlt, hblock⟩ := rct_block hfits hrct
  have hle : d.blockCount x.image.size ≤ q.lbn := not_not.mp (inData_iff.not.mp hrct)
  unfold Request.fetch Drive.readRCTBlock
  dsimp only
  rw [if_pos hle, if_pos hlt, hblock]
  refine congrArg some (funext fun i => ?_)
  unfold Request.diskByte
  rw [if_neg hrct]
  rfl

/-- A fetch succeeds when there is something to fetch. -/
theorem fetch_isSome (hfits : q.Fits d x.image.size) (hcount : q.byteCount.toNat ≠ 0) :
    ∃ buffer, q.fetch d x = some buffer := by
  by_cases hdata : q.InData d x.image.size
  · refine ⟨fun i => x.image.get (Drive.position q.lbn + i), ?_⟩
    rw [fetch_inData hdata]
    exact if_neg hcount
  · exact ⟨_, fetch_rct hfits hdata⟩

/-- It gets the bytes of the disk if the byte position has 32 bits. -/
theorem fetch_data (hfits : q.Fits d x.image.size) (hcount : q.byteCount.toNat ≠ 0)
    (hposition : q.PositionOk d x.image.size) :
    q.fetch d x = some (q.diskByte d x.image.size x.data) := by
  by_cases hdata : q.InData d x.image.size
  · rw [fetch_inData hdata, position_of_lt (hposition hdata)]
    unfold imageRead
    rw [if_neg hcount]
    refine congrArg some (funext fun i => ?_)
    unfold Request.diskByte
    rw [if_pos hdata]
    rfl
  · exact fetch_rct hfits hdata

theorem store_inData (hdata : q.InData d x.image.size) (buffer : Bytes) :
    q.store d buffer x = d.write q.lbn q.byteCount.toNat buffer x :=
  if_neg (inData_iff.mp hdata)

theorem store_rct (hfits : q.Fits d x.image.size) (hrct : ¬q.InData d x.image.size)
    (buffer : Bytes) :
    ∃ y, q.store d buffer x = some y ∧ y.data = q.putBytes d x.image.size buffer x.data := by
  have ⟨hlt, hblock⟩ := rct_block hfits hrct
  have hcount := rct_byteCount hfits hrct
  have hle : d.blockCount x.image.size ≤ q.lbn := not_not.mp (inData_iff.not.mp hrct)
  unfold Request.store Drive.writeRCTBlock Request.putBytes
  dsimp only
  rw [if_pos hle, if_pos hlt, hblock, if_neg hrct, hcount]
  refine ⟨_, rfl, ?_⟩
  show (⟨_, _, _⟩ : Data) = ⟨_, _, _⟩
  rw [Data.mk.injEq]
  refine ⟨rfl, funext fun i => ?_, rfl⟩
  have hround : (blockSize + blockSize - 1) / blockSize * blockSize = blockSize := rfl
  unfold overwrite
  rw [hround]
  split
  case isTrue h =>
    rw [if_pos h.2]
    exact if_pos h
  case isFalse h => exact if_neg h

/-- A store replaces the bytes of the disk if the byte position has 32 bits. -/
theorem store_data (hfits : q.Fits d x.image.size) (hwritable : q.Writable d x.image.size)
    (hposition : q.byteCount.toNat = 0 ∨ q.PositionOk d x.image.size) (buffer : Bytes) :
    ∃ y, q.store d buffer x = some y ∧ y.data = q.putBytes d x.image.size buffer x.data := by
  by_cases hdata : q.InData d x.image.size
  · obtain ⟨y, hy, hwritten⟩ :=
      write_data (hwritable hdata) q.lbn q.byteCount.toNat buffer x
    refine ⟨y, by rw [store_inData hdata, hy], ?_⟩
    unfold Request.putBytes
    rw [hwritten, if_pos hdata]
    rcases hposition with hzero | hposition
    · -- nothing is written, wherever it is
      have hsame (start : ℕ) :
          overwrite x.image.get start q.byteCount.toNat buffer = x.image.get := by
        funext i
        unfold overwrite
        rw [hzero, if_neg]
        show ¬(start ≤ i ∧ i < start + (0 + 512 - 1) / 512 * 512)
        omega
      rw [hsame]
      exact congrArg (fun image => (⟨image, x.rct, x.memory⟩ : Data)) (hsame _).symm
    · rw [position_of_lt (hposition hdata)]
      rfl
  · exact store_rct hfits hdata buffer

end Disk

/-! ## Host bytes -/

section Host

variable {b : Bus} {size : ℕ} {d : Drive} {q : Request} {memory : ℕ → BusWord}

theorem HostOk.hostWords (h : q.HostOk b) : q.hostWords = q.byteCount.toNat / 2 := by
  have heven := h.1
  unfold Request.hostWords
  omega

/-- The assertions of `DMARead`, `DMAWrite` and `DMA` -/
theorem hostOk_iff (cycle : Cycle) : q.HostOk b ↔
    (q.byteCount.toNat % 2 = 0 ∧ q.address < b.space) ∧
      (DmaCall.mk cycle q.address (q.byteCount.toNat / 2) (q.byteCount.toNat / 2)).Asserted
        b.space := by
  unfold Request.HostOk DmaCall.Asserted
  dsimp only
  constructor
  · intro ⟨heven, hne, haddress, hend⟩
    have hhalf : 2 * (q.byteCount.toNat / 2) = q.byteCount.toNat := by omega
    rw [hhalf]
    exact ⟨⟨heven, haddress⟩, by omega, hend⟩
  · intro ⟨⟨heven, haddress⟩, hpos, hend⟩
    have hhalf : 2 * (q.byteCount.toNat / 2) = q.byteCount.toNat := by omega
    rw [hhalf] at hend
    exact ⟨heven, by omega, haddress, hend⟩

theorem dmaRead_of_hostOk (h : q.HostOk b) :
    dmaRead b memory q.address q.byteCount.toNat =
      some (if q.hostAnswers b = q.hostWords then some (hostByte memory q.address) else none) := by
  have ⟨hargs, hasserted⟩ := (hostOk_iff .dati).mp h
  unfold dmaRead Request.hostAnswers
  rw [if_pos hargs, if_pos hasserted, HostOk.hostWords h]
  split <;> rfl

theorem dmaRead_of_not_hostOk (h : ¬q.HostOk b) :
    dmaRead b memory q.address q.byteCount.toNat = none := by
  rw [hostOk_iff .dati, not_and] at h
  unfold dmaRead
  split
  case isTrue hargs => exact if_neg (h hargs)
  case isFalse => rfl

theorem dmaWrite_of_hostOk (h : q.HostOk b) (buffer : Bytes) :
    dmaWrite b memory q.address q.byteCount.toNat buffer =
      some (decide (q.hostAnswers b = q.hostWords),
        dato memory q.address (fun i => wordOf (buffer (2 * i)) (buffer (2 * i + 1)))
          (q.hostAnswers b)) := by
  have ⟨hargs, hasserted⟩ := (hostOk_iff .dato).mp h
  unfold dmaWrite Request.hostAnswers
  rw [if_pos hargs, if_pos hasserted, HostOk.hostWords h]

theorem dmaWrite_of_not_hostOk (h : ¬q.HostOk b) (buffer : Bytes) :
    dmaWrite b memory q.address q.byteCount.toNat buffer = none := by
  rw [hostOk_iff .dato, not_and] at h
  unfold dmaWrite
  split
  case isTrue hargs => exact if_neg (h hargs)
  case isFalse => rfl

/-- Only the words of the transfer are of interest. -/
theorem dato_congr {buffer buffer' : Buffer} {n : ℕ} (h : ∀ i < n, buffer i = buffer' i)
    (address : ℕ) : dato memory address buffer n = dato memory address buffer' n := by
  induction n with
  | zero => rfl
  | succ n ih =>
    unfold dato
    rw [ih fun i hi => h i (Nat.lt_succ_of_lt hi), h n (Nat.lt_succ_self n)]

/-- READ with an even byte count -/
theorem putHost_of_hostOk (h : q.HostOk b) (x : Data) :
    q.putHost b d size x =
      { x with
        memory := dato x.memory q.address (fun i =>
          wordOf (q.diskByte d size x (2 * i)) (q.diskByte d size x (2 * i + 1)))
            (q.hostAnswers b) } := by
  have hle : q.hostAnswers b ≤ q.hostWords := answered_le _ _
  have hwords := HostOk.hostWords h
  unfold Request.putHost
  dsimp only
  rw [dato_congr fun i hi => ?_]
  rw [if_pos (by omega)]

end Host

/-! ## A transfer that can be done -/

section Transfers

variable {b : Bus} {d : Drive} {q : Request} {x : Contents}

theorem answered_eq_zero {answers : ℕ → Bool} {address : ℕ} (h : answers address = false) (n : ℕ) :
    answered answers address n = 0 := by
  induction n with
  | zero => rfl
  | succ n ih =>
    unfold answered
    rw [ih]
    refine if_neg fun hall => ?_
    rw [← hall.1, Nat.mul_zero, Nat.add_zero, h] at hall
    exact Bool.false_ne_true hall.2

/-- A transfer that can be done does what the reference says. -/
theorem transfer_of_transferOk (hfits : q.Fits d x.image.size)
    (hok : q.TransferOk b d x.image.size) :
    ∃ r y, q.transfer b d x = some (r, y) ∧
      (r.status, y.data) = q.referenceTransfer b d x.image.size x.data := by
  unfold Request.TransferOk at hok
  unfold Request.transfer Request.referenceTransfer
  cases hopcode : q.opcode with
  | access => exact ⟨_, _, rfl, rfl⟩
  | erase =>
    simp only [hopcode] at hok ⊢
    obtain ⟨y, hy, hdata⟩ := store_data hfits hok.1 hok.2 fun _ => 0
    unfold Request.eraseData
    rw [hy]
    exact ⟨_, _, rfl, congrArg (Prod.mk Status.success) hdata⟩
  | compareHostData =>
    simp only [hopcode] at hok ⊢
    obtain ⟨buffer, hbuffer⟩ := fetch_isSome hfits hok.1.2.1
    unfold Request.compareHostData
    rw [hbuffer, Option.bind_some, dmaRead_of_hostOk hok.1, if_neg hok.2, if_neg hok.2]
    exact ⟨_, _, rfl, rfl⟩
  | read =>
    simp only [hopcode] at hok ⊢
    have hhost : q.putHost b d x.image.size x.data = _ := putHost_of_hostOk hok.1 x.data
    unfold Request.readData
    rcases hok.2 with hnothing | hposition
    · -- the first address does not answer
      obtain ⟨buffer, hbuffer⟩ := fetch_isSome hfits hok.1.2.1
      have hzero : q.hostAnswers b = 0 := answered_eq_zero hnothing _
      have hwords : ¬q.hostAnswers b = q.hostWords := by
        have hcount := hok.1.2.1
        unfold Request.hostWords
        omega
      rw [hbuffer, Option.bind_some, dmaWrite_of_hostOk hok.1, Option.bind_some, if_neg hwords]
      simp only [hwords, decide_false, Bool.false_eq_true, ↓reduceIte]
      refine ⟨_, _, rfl, ?_⟩
      rw [hhost, hzero]
      rfl
    · rw [fetch_data hfits hok.1.2.1 hposition, Option.bind_some, dmaWrite_of_hostOk hok.1,
        Option.bind_some, hhost]
      by_cases hall : q.hostAnswers b = q.hostWords
      · simp only [hall, decide_true, ↓reduceIte]
        exact ⟨_, _, rfl, rfl⟩
      · simp only [hall, decide_false, Bool.false_eq_true, ↓reduceIte]
        exact ⟨_, _, rfl, rfl⟩
  | write =>
    simp only [hopcode] at hok ⊢
    unfold Request.writeData
    rw [dmaRead_of_hostOk hok.1, Option.bind_some]
    by_cases hall : q.hostAnswers b = q.hostWords
    · obtain ⟨y, hy, hdata⟩ := store_data hfits (hok.2 hall).1 (Or.inr (hok.2 hall).2)
        (hostByte x.memory q.address)
      rw [if_pos hall, if_pos hall]
      simp only [hy, Option.bind_some]
      exact ⟨_, _, rfl, congrArg (Prod.mk Status.success) hdata⟩
    · rw [if_neg hall, if_neg hall]
      exact ⟨_, _, rfl, rfl⟩

end Transfers

end QUniBone.MscpDisk
