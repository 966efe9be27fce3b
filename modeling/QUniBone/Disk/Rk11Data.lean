import QUniBone.Disk.Rk11Reference

/-!
# RK11: a round and the reference

At the top of each round the machine is the reference's after the words of all sectors so far.

* `Transfer.Boundary`: where a round begins. `Transfer.piece`: how many words it moves.
* `complete_read`, `complete_write`, `complete_writeCheck`: what comes of a sector.
* `round_piece`, `round_nonexistent`, `round_words`, `round_offDisk`: the rounds.
-/

namespace QUniBone.RK11

open Disk

namespace Transfer

variable {c : Config} {t : Transfer c} {e : Errors} {k : ℕ}

/-! ## The words -/

theorem unit_pos : 0 < t.unit := by
  unfold unit sectorWords
  split <;> omega

theorem unit_le : t.unit ≤ sectorWords := by
  unfold unit sectorWords
  split <;> omega

theorem unit_of_ne_read (h : t.cmd.function ≠ .read) : t.unit = sectorWords :=
  if_neg fun hread => h hread.1

theorem first_surface : t.first.surface ≤ 1 := DiskAddress.ofWord_surface t.rkda

theorem words_pos : 0 < t.words := by
  have hlt := t.rkwc.isLt
  unfold words
  omega

/-- `-(int16_t)RKWC` for less than 2^15 words -/
theorem count_eq (h : t.words < 2 ^ 15) : (t.regs e).count = t.words := by
  have hlt := t.rkwc.isLt
  show (-t.rkwc.toInt).bmod (2 ^ 16) = ((2 ^ 16 - t.rkwc.toNat : ℕ) : ℤ)
  unfold words at h
  rw [BitVec.toInt_eq_toNat_cond, Int.bmod_def]
  split <;> split <;> omega

/-- From 2^15 words on the count is not positive. -/
theorem count_nonpos (h : 2 ^ 15 ≤ t.words) : (t.regs e).count ≤ 0 := by
  have hlt := t.rkwc.isLt
  show (-t.rkwc.toInt).bmod (2 ^ 16) ≤ 0
  unfold words at h
  rw [BitVec.toInt_eq_toNat_cond, Int.bmod_def]
  split <;> split <;> omega

/-- The local variables of the loop after some words -/
def cursor (t : Transfer c) (k : ℕ) : Cursor where
  cmd := t.cmd
  currentAddress := t.busAddress k
  currentCount := t.words - k

/-- The words of the next request -/
def piece (t : Transfer c) (k : ℕ) : ℕ := min t.unit (t.words - k)

theorem requestCount_cursor (h : k < t.words) : (t.cursor k).requestCount = t.piece k := by
  have hpos : 0 < (t.cursor k).currentCount := by
    show (0 : ℤ) < t.words - k
    omega
  rw [Cursor.requestCount_eq hpos]
  show min t.unit ((t.words : ℤ) - k).toNat = min t.unit (t.words - k)
  congr 1
  omega

theorem piece_pos (h : k < t.words) : 0 < t.piece k := by
  have hunit := t.unit_pos
  unfold piece
  omega

theorem piece_le_unit : t.piece k ≤ t.unit := Nat.min_le_left _ _

theorem piece_le : t.piece k ≤ sectorWords := piece_le_unit.trans unit_le

/-! ## Sector by sector -/

/-- The words so far are those of whole sectors. -/
structure Boundary (t : Transfer c) (k : ℕ) : Prop where
  mod_unit : k % t.unit = 0
  valid : k ≠ 0 → t.first.Valid

theorem boundary_zero : t.Boundary 0 := ⟨Nat.zero_mod _, fun h => absurd rfl h⟩

theorem sectors_of_mod (h : k % t.unit = 0) : t.sectors k = k / t.unit := by
  have hpos := t.unit_pos
  have hk := Nat.div_add_mod k t.unit
  unfold sectors
  have hsum : k + t.unit - 1 = t.unit * (k / t.unit) + (t.unit - 1) := by omega
  have hzero : (t.unit - 1) / t.unit = 0 := Nat.div_eq_of_lt (by omega)
  rw [hsum, Nat.mul_add_div hpos, hzero, Nat.add_zero]

theorem sectors_add_of_mod {r : ℕ} (h : k % t.unit = 0) (hr : 0 < r) (hle : r ≤ t.unit) :
    t.sectors (k + r) = k / t.unit + 1 := by
  have hpos := t.unit_pos
  have hk := Nat.div_add_mod k t.unit
  unfold sectors
  have hsum : k + r + t.unit - 1 = t.unit * (k / t.unit) + (r + t.unit - 1) := by omega
  have hone : (r + t.unit - 1) / t.unit = 1 := Nat.div_eq_of_lt_le (by omega) (by omega)
  rw [hsum, Nat.mul_add_div hpos, hone]

/-- RKDA at a boundary -/
theorem addressAfter_of_mod (h : k % t.unit = 0) (hvalid : t.first.Valid) :
    t.addressAfter k = .ofBlock t.first.drive (t.first.block + k / t.unit) := by
  unfold addressAfter
  split
  case isTrue hk =>
    rw [hk, Nat.zero_div, Nat.add_zero, DiskAddress.ofBlock_block hvalid first_surface]
  case isFalse => rw [sectors_of_mod h]

/-- `increment_RKDA()` -/
theorem addressAfter_next (h : k % t.unit = 0) (hvalid : t.first.Valid) (hk : k < t.words) :
    t.addressAfter (k + t.piece k) = (t.addressAfter k).increment := by
  have hpos := piece_pos hk
  have hne : k + t.piece k ≠ 0 := by omega
  rw [addressAfter_of_mod h hvalid, DiskAddress.increment_ofBlock]
  unfold addressAfter
  rw [if_neg hne, sectors_add_of_mod h hpos piece_le_unit, Nat.add_assoc]

/-- `validate_seek()` -/
theorem onDisk_iff (h : t.Boundary k) :
    t.OnDisk k ↔ (t.addressAfter k).Valid ∧ t.drivePresent = true := by
  unfold OnDisk
  cases Nat.eq_zero_or_pos k with
  | inl hk =>
    subst hk
    rw [Nat.zero_div, Nat.add_zero]
    show _ ↔ t.first.Valid ∧ _
    exact ⟨fun h => ⟨h.2.1, h.1⟩,
      fun h => ⟨h.2, h.1, DiskAddress.block_lt_blockCount h.1 first_surface⟩⟩
  | inr hk =>
    have hvalid := h.valid (by omega)
    rw [addressAfter_of_mod h.mod_unit hvalid, DiskAddress.ofBlock_valid]
    exact ⟨fun h => ⟨h.2.2, h.1⟩, fun h => ⟨h.2, hvalid, h.1⟩⟩

/-- A piece ends at a boundary, or with the last word. -/
theorem Boundary.next (h : t.Boundary k) (hvalid : t.first.Valid) :
    t.Boundary (k + t.piece k) ∨ k + t.piece k = t.words ∨ t.words < k := by
  unfold piece
  rcases Nat.le_total t.unit (t.words - k) with hle | hle
  · left
    rw [Nat.min_eq_left hle]
    exact ⟨by rw [Nat.add_mod_right, h.mod_unit], fun _ => hvalid⟩
  · right
    rw [Nat.min_eq_right hle]
    omega

/-! ## The words of a piece -/

section Piece

theorem busAddress_add (i : ℕ) :
    t.busAddress (k + i) = if t.cmd.iba then t.busAddress k else t.busAddress k + 2 * i := by
  unfold busAddress
  split
  · rfl
  · omega

/-- Memory after a DMA call is memory after the words of the piece. -/
theorem dato_eq_memoryAfter (hiba : t.cmd.iba = false) {buffer : Buffer} {n : ℕ}
    (hbuffer : ∀ i < n, buffer i = t.readWord (k + i)) :
    dato (t.memoryAfter k) (t.busAddress k) buffer n = t.memoryAfter (k + n) := by
  induction n with
  | zero => rfl
  | succ n ih =>
    have hstep : t.memoryAfter (k + (n + 1)) =
        Function.update (t.memoryAfter (k + n)) (t.busAddress (k + n)) (t.readWord (k + n)) := rfl
    have haddress := busAddress_add (t := t) (k := k) n
    rw [hiba] at haddress
    rw [hstep, ← ih fun i hi => hbuffer i (Nat.lt_succ_of_lt hi), haddress,
      ← hbuffer n (Nat.lt_succ_self n)]
    rfl

/-- With IBA the words are written over each other. -/
theorem memoryAfter_of_iba (hiba : t.cmd.iba = true) (n : ℕ) :
    t.memoryAfter (k + (n + 1)) =
      Function.update (t.memoryAfter k) (t.busAddress k) (t.readWord (k + n)) := by
  have hsame (i : ℕ) : t.busAddress (k + i) = t.busAddress k := by rw [busAddress_add, if_pos hiba]
  have hstep (i : ℕ) : t.memoryAfter (k + (i + 1)) =
      Function.update (t.memoryAfter (k + i)) (t.busAddress (k + i)) (t.readWord (k + i)) := rfl
  induction n with
  | zero => rfl
  | succ n ih => rw [hstep, ih, hsame, Function.update_idem]

/-- All words of the request have bus addresses that answer. -/
def PieceAnswers (t : Transfer c) (k : ℕ) : Prop :=
  ∀ i < t.piece k, t.answers (t.busAddress (k + i)) = true

theorem dmaCall_cycle :
    (t.cursor k).dmaCall.cycle = if t.cmd.function = .read then .dato else .dati := by
  show (if t.cmd.iba then _ else _ : DmaCall).cycle = _
  split <;> rfl

theorem dmaCall_address : (t.cursor k).dmaCall.address = t.busAddress k := by
  show (if t.cmd.iba then _ else _ : DmaCall).address = _
  split <;> rfl

theorem dmaCall_wordcount (h : k < t.words) :
    (t.cursor k).dmaCall.wordcount = if t.cmd.iba then 1 else t.piece k := by
  rw [← requestCount_cursor h]
  show (if t.cmd.iba then _ else _ : DmaCall).wordcount = _
  split <;> rfl

/-- The request does not time out iff they answer. -/
theorem answered_eq_wordcount_iff (h : k < t.words) :
    answered t.answers (t.cursor k).dmaCall.address (t.cursor k).dmaCall.wordcount =
        (t.cursor k).dmaCall.wordcount ↔ t.PieceAnswers k := by
  have hpos := piece_pos h
  rw [answered_eq_iff, dmaCall_wordcount h, dmaCall_address]
  unfold PieceAnswers
  simp only [busAddress_add]
  cases t.cmd.iba with
  | true =>
    simp only [↓reduceIte]
    exact ⟨fun hall i _ => hall 0 Nat.one_pos, fun hall i hi => by
      rw [Nat.lt_one_iff.mp hi]
      exact hall 0 hpos⟩
  | false => rfl

/-- What answers is in the address space. -/
theorem asserted_of_pieceAnswers (h : k < t.words) (hanswers : t.PieceAnswers k) :
    (t.cursor k).dmaCall.Asserted c.space := by
  have hall := answered_eq_iff.mp ((answered_eq_wordcount_iff h).mpr hanswers)
  have hpos : 0 < (t.cursor k).dmaCall.wordcount := by
    have hpiece := piece_pos h
    rw [dmaCall_wordcount h]
    split <;> omega
  have hlast := t.answers_inSpace _ (hall ((t.cursor k).dmaCall.wordcount - 1) (by omega))
  have hmod := Nat.mod_le
    ((t.cursor k).dmaCall.address + 2 * (t.cursor k).dmaCall.wordcount) (2 ^ 32)
  exact ⟨hpos, by omega⟩

theorem dmaTransfer_timeout (h : k < t.words) (memory : ℕ → BusWord) (buffer : Buffer) :
    (dmaTransfer t.answers (t.cursor k) memory buffer).timeout = true ↔ ¬t.PieceAnswers k := by
  rw [← answered_eq_wordcount_iff h]
  exact dmaTransfer_timeout_iff _ memory buffer

theorem timeout_of_pieceAnswers (h : k < t.words) (hanswers : t.PieceAnswers k)
    (memory : ℕ → BusWord) (buffer : Buffer) :
    (dmaTransfer t.answers (t.cursor k) memory buffer).timeout = false := by
  rw [Bool.eq_false_iff]
  exact fun htimeout => (dmaTransfer_timeout h memory buffer).mp htimeout hanswers

/-- Read: the words go to memory. -/
theorem dmaTransfer_read (hread : t.cmd.function = .read) (h : k < t.words)
    (hanswers : t.PieceAnswers k) {buffer : Buffer}
    (hbuffer : ∀ i < t.piece k, buffer i = t.readWord (k + i)) :
    (dmaTransfer t.answers (t.cursor k) (t.memoryAfter k) buffer).memory =
        t.memoryAfter (k + t.piece k) ∧
      (dmaTransfer t.answers (t.cursor k) (t.memoryAfter k) buffer).buffer = buffer := by
  have hcycle : (t.cursor k).dmaCall.cycle = .dato := by rw [dmaCall_cycle, if_pos hread]
  have hpos := piece_pos h
  unfold dmaTransfer
  simp only [hcycle, (answered_eq_wordcount_iff h).mpr hanswers]
  rw [dmaCall_wordcount h, dmaCall_address, requestCount_cursor h]
  show (dato _ _ (fun i => buffer ((if t.cmd.iba then t.piece k - 1 else 0) + i)) _ = _) ∧ _
  cases hiba : t.cmd.iba with
  | true =>
    simp only [↓reduceIte, and_true]
    have hlast : t.piece k = t.piece k - 1 + 1 := by omega
    have hnext := memoryAfter_of_iba (t := t) (k := k) hiba (t.piece k - 1)
    rw [← hlast, ← hbuffer _ (by omega)] at hnext
    rw [hnext]
    rfl
  | false =>
    simp only [Bool.false_eq_true, ↓reduceIte, Nat.zero_add, and_true]
    exact dato_eq_memoryAfter hiba hbuffer

/-- Write and Write Check: the words come into the buffer. -/
theorem dmaTransfer_dati (hread : t.cmd.function ≠ .read) (h : k < t.words)
    (hanswers : t.PieceAnswers k) (memory : ℕ → BusWord) :
    (dmaTransfer t.answers (t.cursor k) memory fun _ => 0).memory = memory ∧
      ∀ i, (dmaTransfer t.answers (t.cursor k) memory fun _ => 0).buffer i =
        if i < t.piece k then memory (t.busAddress (k + i)) else 0 := by
  have hcycle : (t.cursor k).dmaCall.cycle = .dati := by rw [dmaCall_cycle, if_neg hread]
  have hpos := piece_pos h
  unfold dmaTransfer
  simp only [hcycle, (answered_eq_wordcount_iff h).mpr hanswers, true_and]
  rw [dmaCall_wordcount h, dmaCall_address, requestCount_cursor h]
  intro i
  show (if t.cmd.iba then _ else _ : Buffer) i = _
  rw [busAddress_add]
  cases hiba : t.cmd.iba with
  | true =>
    simp only [↓reduceIte, dati]
    split
    · rfl
    · have hne : ¬i < 1 := by omega
      rw [if_neg hne]
  | false => simp only [Bool.false_eq_true, ↓reduceIte, dati]

end Piece

/-! ## The registers -/

section Registers

/-- `-current_count` after `k` words -/
theorem rkwc_eq (k : ℕ) :
    BitVec.ofInt 16 (-((t.words : ℤ) - k)) = t.rkwc + BitVec.ofNat 16 k := by
  have hlt := t.rkwc.isLt
  unfold words
  apply BitVec.eq_of_toNat_eq
  rw [BitVec.toNat_ofInt, BitVec.toNat_add, BitVec.toNat_ofNat]
  omega

theorem add_piece_le (h : k < t.words) : k + t.piece k ≤ t.words := by
  unfold piece
  omega

theorem cursor_moved (h : k < t.words) : (t.cursor k).moved = t.cursor (k + t.piece k) := by
  have hrequest := requestCount_cursor h
  have haddress := busAddress_add (t := t) (k := k) (t.piece k)
  show (⟨t.cmd, if t.cmd.iba then _ else _, _⟩ : Cursor) = ⟨t.cmd, _, _⟩
  rw [Cursor.mk.injEq, haddress, hrequest]
  refine ⟨rfl, rfl, ?_⟩
  show (t.words : ℤ) - k - t.piece k = t.words - (k + t.piece k : ℕ)
  omega

theorem regs_moved (hb : t.Boundary k) (hvalid : t.first.Valid) (h : k < t.words) :
    (t.after e k).regs.moved (t.cursor k) =
      { (t.after e (k + t.piece k)).regs with errors := t.errorsAfter e k } := by
  have hrequest := requestCount_cursor h
  have hpos := piece_pos h
  have hcount := rkwc_eq (t := t) (k + t.piece k)
  have hrkda := addressAfter_next hb.mod_unit hvalid h
  have hleft : (t.words : ℤ) - k - t.piece k = t.words - (k + t.piece k : ℕ) := by omega
  unfold Registers.moved after
  rw [hrequest]
  simp only [Registers.mk.injEq, true_and]
  show _ ∧ BitVec.ofInt 16 (-((t.words : ℤ) - k - t.piece k)) = _ ∧ _
  rw [hleft, hcount, hrkda]
  cases hiba : t.cmd.iba with
  | true => simp [cursor, hiba]
  | false =>
    have hcursor : (t.cursor k).currentAddress = t.cmd.address + 2 * k := by
      show t.busAddress k = _
      unfold busAddress
      rw [hiba]
      rfl
    have haddress : t.cmd.address + 2 * k + 2 * t.piece k =
        t.cmd.address + 2 * (k + t.piece k) := by omega
    have hcmd : (t.cursor k).cmd.iba = false := hiba
    simp [hcursor, haddress, hcmd, hpos.ne']

end Registers

/-! ## A round -/

section Round

/-- RKDA names the sector of the next words. -/
theorem rkda_after (hb : t.Boundary k) (hvalid : t.first.Valid) :
    (t.after e k).regs.rkda = .ofBlock t.first.drive (t.first.block + k / t.unit) :=
  addressAfter_of_mod hb.mod_unit hvalid

theorem moved_eq_after (hb : t.Boundary k) (hvalid : t.first.Valid) (h : k < t.words) {m : Machine}
    (hregs : m.regs = { (t.after e k).regs with errors := t.errorsAfter e (k + t.piece k) })
    (hrkdb : m.rkdb = (t.after e (k + t.piece k)).rkdb)
    (hmemory : m.memory = (t.after e (k + t.piece k)).memory)
    (hdisks : m.disks = (t.after e (k + t.piece k)).disks) :
    m.moved (t.cursor k) = t.after e (k + t.piece k) := by
  have hmoved := regs_moved (e := e) hb hvalid h
  cases m with
  | mk regs rkdb memory disks =>
    dsimp only at hregs hrkdb hmemory hdisks
    subst hrkdb hmemory hdisks
    show (⟨regs.moved _, _, _, _⟩ : Machine) = ⟨_, _, _, _⟩
    rw [Machine.mk.injEq]
    refine ⟨?_, rfl, rfl, rfl⟩
    rw [hregs]
    -- `moved` leaves the errors alone
    show ({ (t.after e k).regs.moved (t.cursor k) with
      errors := t.errorsAfter e (k + t.piece k) } : Registers) = _
    rw [hmoved]
    rfl

/-- The sector on the disk, as long as nothing is written -/
theorem readSector_after (hwrite : t.cmd.function ≠ .write) (hunit : t.unit = sectorWords)
    (hb : t.Boundary k) (hvalid : t.first.Valid) (i : ℕ) :
    (t.after e k).readSector i = t.diskWord (k + i) := by
  have hmod := hb.mod_unit
  have hdisks : (t.after e k).disks = t.disks := if_neg hwrite
  unfold Machine.readSector diskWord
  rw [hdisks, rkda_after hb hvalid, DiskAddress.block_ofBlock]
  rw [hunit] at hmod ⊢
  have hindex : (t.first.block + k / sectorWords) * sectorWords + i =
      t.first.block * sectorWords + (k + i) := by
    unfold sectorWords at *
    omega
  rw [hindex]
  rfl

theorem errorsAfter_of_ne_writeCheck (h : t.cmd.function ≠ .writeCheck) :
    t.errorsAfter e k = e := by
  unfold errorsAfter
  simp [h]

/-- Read: the words of the sector, or its header -/
theorem sectorBuffer_read (hread : t.cmd.function = .read) (hb : t.Boundary k)
    (hvalid : t.first.Valid) {i : ℕ} (hi : i < t.piece k) :
    (t.after e k).sectorBuffer (t.cursor k) i = t.readWord (k + i) := by
  have hle := piece_le_unit.trans' (Nat.succ_le_of_lt hi)
  unfold Machine.sectorBuffer readWord
  rw [if_pos (show (t.cursor k).cmd.function = .read from hread)]
  show (if t.cmd.format then _ else _ : Buffer) i = _
  cases hformat : t.cmd.format with
  | true =>
    have hunit : t.unit = 1 := if_pos ⟨hread, hformat⟩
    have hzero : i = 0 := by omega
    simp only [↓reduceIte]
    rw [if_pos hzero, rkda_after hb hvalid, hunit, hzero, Nat.div_one, Nat.add_zero]
    rfl
  | false =>
    have hunit : t.unit = sectorWords := if_neg (by simp [hformat])
    have hwrite : t.cmd.function ≠ .write := by simp [hread]
    simp only [Bool.false_eq_true, ↓reduceIte]
    exact readSector_after hwrite hunit hb hvalid i

theorem complete_read (hread : t.cmd.function = .read) (hb : t.Boundary k) (hvalid : t.first.Valid)
    (h : k < t.words) (hanswers : t.PieceAnswers k) :
    let x := dmaTransfer t.answers (t.cursor k) (t.after e k).memory
      ((t.after e k).sectorBuffer (t.cursor k))
    (((t.after e k).complete (t.cursor k) x).1).moved (t.cursor k) = t.after e (k + t.piece k) ∧
      ((t.after e k).complete (t.cursor k) x).2 = false := by
  intro x
  have hpos := piece_pos h
  have hrequest := requestCount_cursor h
  have hmemory : (t.after e k).memory = t.memoryAfter k := if_pos hread
  have hbuffer : ∀ i < t.piece k, _ := fun i hi => sectorBuffer_read (e := e) hread hb hvalid hi
  have hx := dmaTransfer_read hread h hanswers hbuffer
  rw [← hmemory] at hx
  have htimeout : x.timeout = false := timeout_of_pieceAnswers h hanswers _ _
  have hfunction : (t.cursor k).cmd.function = .read := hread
  have hcheck : t.cmd.function ≠ .writeCheck := by simp [hread]
  have hwrite : t.cmd.function ≠ .write := by simp [hread]
  unfold Machine.complete
  simp only [htimeout, hfunction, Bool.false_eq_true, ↓reduceIte, and_true]
  refine moved_eq_after hb hvalid h ?_ ?_ ?_ ?_
  · show (t.after e k).regs = _
    have herrors : (t.after e k).regs.errors = t.errorsAfter e (k + t.piece k) := by
      show t.errorsAfter e k = _
      rw [errorsAfter_of_ne_writeCheck hcheck, errorsAfter_of_ne_writeCheck hcheck]
    rw [← herrors]
  · have hlast : k + t.piece k - 1 = k + (t.piece k - 1) := by omega
    show x.buffer ((t.cursor k).requestCount - 1) = if _ then _ else _
    rw [if_pos ⟨hread, by omega⟩, hlast, ← hbuffer _ (by omega), hrequest]
    exact congrFun hx.2 _
  · show x.memory = if _ then _ else _
    rw [if_pos hread]
    exact hx.1
  · show (if _ then _ else _) = if _ then _ else _
    rw [if_neg hwrite, if_neg hwrite]

/-- The end of the sector of the last of some words -/
theorem roundUp_of_mod {n r : ℕ} (h : n % sectorWords = 0) (hle : r ≤ sectorWords) :
    (n + r + 255) / sectorWords * sectorWords = if r = 0 then n else n + sectorWords := by
  change n % 256 = 0 at h
  change r ≤ 256 at hle
  show (n + r + 255) / 256 * 256 = if r = 0 then n else n + 256
  split <;> omega

/-- The image after the next sector -/
theorem diskAfter_next (hunit : t.unit = sectorWords) (hb : t.Boundary k) (h : k < t.words)
    {buffer : Buffer}
    (hbuffer : ∀ i, buffer i = if i < t.piece k then t.memory (t.busAddress (k + i)) else 0)
    (i : ℕ) :
    t.diskAfter (k + t.piece k) i =
      let start := (t.first.block + k / t.unit) * sectorWords
      if start ≤ i ∧ i < start + sectorWords then buffer (i - start) else t.diskAfter k i := by
  have hpos := piece_pos h
  have hle : t.piece k ≤ sectorWords := piece_le
  have hmod : k % sectorWords = 0 := hunit ▸ hb.mod_unit
  have hstart : (t.first.block + k / t.unit) * sectorWords = t.first.block * sectorWords + k := by
    rw [hunit]
    change k % 256 = 0 at hmod
    show (t.first.block + k / 256) * 256 = t.first.block * 256 + k
    omega
  have hend := roundUp_of_mod hmod hle
  have hend' := roundUp_of_mod hmod (Nat.zero_le sectorWords)
  rw [if_neg (by omega)] at hend
  rw [if_pos rfl, Nat.add_zero] at hend'
  unfold diskAfter
  simp only [hstart, hend, hend', hbuffer]
  generalize t.first.block * sectorWords = start
  -- before, in or after the sector
  rcases Nat.lt_or_ge i start with hbefore | hfrom
  · rw [if_neg (by omega), if_neg (by omega), if_neg (by omega)]
  · rcases Nat.lt_or_ge i (start + k) with hearlier | hhere
    · rw [if_pos (by omega), if_pos (by omega), if_neg (by omega), if_pos (by omega),
        if_pos (by omega)]
    · rcases Nat.lt_or_ge i (start + k + sectorWords) with hin | hafter
      · have hindex : k + (i - (start + k)) = i - start := by omega
        have hsame : (i < start + (k + t.piece k)) ↔ i - (start + k) < t.piece k := by omega
        have hsector : start + k ≤ i ∧ i < start + k + sectorWords := ⟨hhere, hin⟩
        rw [if_pos (by omega), if_pos hsector, hindex]
        simp only [hsame]
      · rw [if_neg (by omega), if_neg (by omega), if_neg (by omega)]

theorem complete_write (hwrite : t.cmd.function = .write) (hb : t.Boundary k)
    (hvalid : t.first.Valid) (h : k < t.words) (hanswers : t.PieceAnswers k) :
    let x := dmaTransfer t.answers (t.cursor k) (t.after e k).memory
      ((t.after e k).sectorBuffer (t.cursor k))
    (((t.after e k).complete (t.cursor k) x).1).moved (t.cursor k) = t.after e (k + t.piece k) ∧
      ((t.after e k).complete (t.cursor k) x).2 = false := by
  intro x
  have hread : t.cmd.function ≠ .read := by simp [hwrite]
  have hcheck : t.cmd.function ≠ .writeCheck := by simp [hwrite]
  have hfunction : (t.cursor k).cmd.function = .write := hwrite
  have hmemory : (t.after e k).memory = t.memory := if_neg hread
  have hcleared : (t.after e k).sectorBuffer (t.cursor k) = fun _ => 0 := if_neg hread
  have hx := dmaTransfer_dati hread h hanswers (t.after e k).memory
  rw [← hcleared] at hx
  have hbuffer : ∀ i, x.buffer i =
      if i < t.piece k then t.memory (t.busAddress (k + i)) else 0 := by
    intro i
    rw [← hmemory]
    exact hx.2 i
  have htimeout : x.timeout = false := timeout_of_pieceAnswers h hanswers _ _
  unfold Machine.complete
  simp only [htimeout, hfunction, Bool.false_eq_true, ↓reduceIte, and_true]
  refine moved_eq_after hb hvalid h ?_ ?_ ?_ ?_
  · show (t.after e k).regs = _
    have herrors : (t.after e k).regs.errors = t.errorsAfter e (k + t.piece k) := by
      show t.errorsAfter e k = _
      rw [errorsAfter_of_ne_writeCheck hcheck, errorsAfter_of_ne_writeCheck hcheck]
    rw [← herrors]
  · show (if _ then _ else _) = if _ then _ else _
    rw [if_neg fun hr => hread hr.1, if_neg fun hr => hread hr.1]
  · show x.memory = if _ then _ else _
    rw [if_neg hread, ← hmemory]
    exact hx.1
  · have hdisks (n : ℕ) : (t.after e n).disks =
        Function.update t.disks t.first.drive (t.diskAfter n) := if_pos hwrite
    have hunit := unit_of_ne_read hread
    have hrkda := rkda_after (e := e) hb hvalid
    have hdrive : (t.after e k).regs.rkda.drive = t.first.drive := by rw [hrkda]; rfl
    have hblock : (t.after e k).regs.rkda.block = t.first.block + k / t.unit := by
      rw [hrkda, DiskAddress.block_ofBlock]
    unfold Machine.writeSector
    dsimp only
    rw [hdisks, hdisks, hdrive, hblock, Function.update_idem]
    refine congrArg (Function.update t.disks t.first.drive) (funext fun i => ?_)
    rw [diskAfter_next hunit hb h hbuffer, Function.update_self]

theorem any_range_congr {n : ℕ} {p q : ℕ → Bool} (h : ∀ i < n, p i = q i) :
    (List.range n).any p = (List.range n).any q := by
  rw [Bool.eq_iff_iff, List.any_eq_true, List.any_eq_true]
  exact exists_congr fun i => and_congr_right fun hi => by rw [h i (List.mem_range.mp hi)]

theorem differsBefore_add (n : ℕ) : t.differsBefore (k + n) = (t.differsBefore k ||
    (List.range n).any fun i => t.memory (t.busAddress (k + i)) != t.diskWord (k + i)) := by
  unfold differsBefore
  rw [List.range_add, List.any_append, List.any_map]
  rfl

theorem complete_writeCheck (hcheck : t.cmd.function = .writeCheck) (hb : t.Boundary k)
    (hvalid : t.first.Valid) (h : k < t.words) (hanswers : t.PieceAnswers k) :
    let x := dmaTransfer t.answers (t.cursor k) (t.after e k).memory
      ((t.after e k).sectorBuffer (t.cursor k))
    (((t.after e k).complete (t.cursor k) x).1).moved (t.cursor k) = t.after e (k + t.piece k) ∧
      ((t.after e k).complete (t.cursor k) x).2 =
        ((t.errorsAfter e (k + t.piece k)).wce && (t.regs e).sse) := by
  intro x
  have hread : t.cmd.function ≠ .read := by simp [hcheck]
  have hwrite : t.cmd.function ≠ .write := by simp [hcheck]
  have hfunction : (t.cursor k).cmd.function = .writeCheck := hcheck
  have hmemory : (t.after e k).memory = t.memory := if_neg hread
  have hcleared : (t.after e k).sectorBuffer (t.cursor k) = fun _ => 0 := if_neg hread
  have hx := dmaTransfer_dati hread h hanswers (t.after e k).memory
  rw [← hcleared] at hx
  have htimeout : x.timeout = false := timeout_of_pieceAnswers h hanswers _ _
  have hdiffers : (t.after e k).differs (t.cursor k) x.buffer =
      (List.range (t.piece k)).any fun i =>
        t.memory (t.busAddress (k + i)) != t.diskWord (k + i) := by
    unfold Machine.differs
    rw [requestCount_cursor h]
    refine any_range_congr fun i hi => ?_
    have hread' := readSector_after (e := e) hwrite (unit_of_ne_read hread) hb hvalid i
    have hword := hx.2 i
    rw [if_pos hi] at hword
    rw [hread', ← hmemory]
    exact congrArg (· != _) hword
  have herrors : ({ (t.after e k).regs.errors with
      wce := (t.after e k).regs.errors.wce || (t.after e k).differs (t.cursor k) x.buffer
      err := (t.after e k).regs.errors.err || (t.after e k).differs (t.cursor k) x.buffer } :
        Errors) = t.errorsAfter e (k + t.piece k) := by
    show ({ t.errorsAfter e k with
      wce := (t.errorsAfter e k).wce || _
      err := (t.errorsAfter e k).err || _ } : Errors) = _
    unfold errorsAfter
    rw [differsBefore_add, hdiffers]
    simp [hcheck, Bool.or_assoc]
  unfold Machine.complete
  simp only [htimeout, hfunction, Bool.false_eq_true, ↓reduceIte]
  rw [herrors]
  refine ⟨moved_eq_after hb hvalid h rfl ?_ ?_ ?_, by rw [← herrors]; rfl⟩
  · show (if _ then _ else _) = if _ then _ else _
    rw [if_neg fun hr => hread hr.1, if_neg fun hr => hread hr.1]
  · show x.memory = if _ then _ else _
    rw [if_neg hread, ← hmemory]
    exact hx.1
  · show (if _ then _ else _) = if _ then _ else _
    rw [if_neg hwrite, if_neg hwrite]

/-- Write Check leaves the loop: `_wce && _sse`. -/
def aborts (t : Transfer c) (e : Errors) (k : ℕ) : Bool :=
  decide (t.cmd.function = .writeCheck) && (t.errorsAfter e k).wce && (t.regs e).sse

theorem complete_answers (hb : t.Boundary k) (hvalid : t.first.Valid) (h : k < t.words)
    (hanswers : t.PieceAnswers k) :
    let x := dmaTransfer t.answers (t.cursor k) (t.after e k).memory
      ((t.after e k).sectorBuffer (t.cursor k))
    (((t.after e k).complete (t.cursor k) x).1).moved (t.cursor k) = t.after e (k + t.piece k) ∧
      ((t.after e k).complete (t.cursor k) x).2 = t.aborts e (k + t.piece k) := by
  intro x
  have htransfer : t.cmd.function.isTransfer = true := t.isTransfer
  unfold aborts
  cases hfunction : t.cmd.function with
  | read => exact complete_read hfunction hb hvalid h hanswers
  | write => exact complete_write hfunction hb hvalid h hanswers
  | writeCheck => exact complete_writeCheck hfunction hb hvalid h hanswers
  | _ =>
    rw [hfunction] at htransfer
    cases htransfer

theorem round_of_onDisk (hb : t.Boundary k) (h : k < t.words) (hdisk : t.OnDisk k) :
    round c t.answers t.drivePresent (t.after e k, t.cursor k) =
      let x := dmaTransfer t.answers (t.cursor k) (t.after e k).memory
        ((t.after e k).sectorBuffer (t.cursor k))
      if (t.cursor k).dmaCall.Asserted c.space then
        if ((t.after e k).complete (t.cursor k) x).2 then
          .inl (some (((t.after e k).complete (t.cursor k) x).1.moved (t.cursor k)))
        else
          .inr (((t.after e k).complete (t.cursor k) x).1.moved (t.cursor k), (t.cursor k).moved)
      else .inl none := by
  have hpos : ¬(t.cursor k).currentCount ≤ 0 := by
    show ¬(t.words : ℤ) - k ≤ 0
    omega
  have hvalid : (t.after e k).regs.rkda.Valid ∧ t.drivePresent = true := (onDisk_iff hb).mp hdisk
  unfold round
  simp only
  rw [if_neg hpos, if_pos hvalid]

/-- A round moves a piece. -/
theorem round_piece (hb : t.Boundary k) (h : k < t.words) (hdisk : t.OnDisk k)
    (hanswers : t.PieceAnswers k) :
    round c t.answers t.drivePresent (t.after e k, t.cursor k) =
      if t.aborts e (k + t.piece k) then .inl (some (t.after e (k + t.piece k)))
      else .inr (t.after e (k + t.piece k), t.cursor (k + t.piece k)) := by
  have hcomplete := complete_answers (e := e) hb hdisk.2.1 h hanswers
  rw [round_of_onDisk hb h hdisk, if_pos (asserted_of_pieceAnswers h hanswers), hcomplete.1,
    hcomplete.2, cursor_moved h]

/-- When something does not answer, RKWC counts the whole request. -/
theorem round_nonexistent (hb : t.Boundary k) (h : k < t.words) (hdisk : t.OnDisk k)
    (hanswers : ¬t.PieceAnswers k) :
    round c t.answers t.drivePresent (t.after e k, t.cursor k) = .inl none ∨
      ∃ m : Machine, round c t.answers t.drivePresent (t.after e k, t.cursor k) = .inl (some m) ∧
        m.regs.rkwc = t.rkwc + BitVec.ofNat 16 (k + t.piece k) := by
  have htimeout := (dmaTransfer_timeout h (t.after e k).memory
    ((t.after e k).sectorBuffer (t.cursor k))).mpr hanswers
  rw [round_of_onDisk hb h hdisk]
  dsimp only
  split
  · right
    have hrkwc : ((t.after e k).regs.moved (t.cursor k)).rkwc =
        t.rkwc + BitVec.ofNat 16 (k + t.piece k) := by
      rw [regs_moved hb hdisk.2.1 h]
      rfl
    unfold Machine.complete
    rw [if_pos htimeout]
    exact ⟨_, rfl, hrkwc⟩
  · exact Or.inl rfl

/-- All words are moved. -/
theorem round_words :
    round c t.answers t.drivePresent (t.after e t.words, t.cursor t.words) =
      .inl (some (t.after e t.words)) := by
  have hzero : (t.cursor t.words).currentCount ≤ 0 := by
    show (t.words : ℤ) - t.words ≤ 0
    omega
  unfold round
  simp only
  rw [if_pos hzero]

/-- There is no sector for the next word. -/
theorem round_offDisk (hb : t.Boundary k) (h : k < t.words) (hdisk : ¬t.OnDisk k)
    (hcheck : ¬t.CheckStops k) :
    round c t.answers t.drivePresent (t.after e k, t.cursor k) =
      .inl (some (t.result e k)) := by
  have hpos : ¬(t.cursor k).currentCount ≤ 0 := by
    show ¬(t.words : ℤ) - k ≤ 0
    omega
  have hvalid : ¬((t.after e k).regs.rkda.Valid ∧ t.drivePresent = true) :=
    fun h => hdisk ((onDisk_iff hb).mpr h)
  have hreached : ¬t.Reached k := fun h => hdisk h.2.1
  unfold round result stopErrors
  simp only
  rw [if_neg hpos, if_neg hvalid, if_neg hreached, if_pos ⟨h, hcheck⟩]
  rfl

end Round

end Transfer

end QUniBone.RK11
