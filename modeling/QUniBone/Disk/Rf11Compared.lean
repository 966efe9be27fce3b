import QUniBone.Disk.Rf11Transfer

/-!
# RF11 transfers compared with the reference

* `Done`, `Meets`: what is expected of a transfer.
* `Clean`: the commands which do it.
* `transfer_done_iff`: the comparison.
-/

namespace QUniBone.RF11

open Disk

/-! ## The reference -/

namespace Machine

/-- WC counts up to 0. -/
def words (m : Machine) : ℕ := 2 ^ 16 - m.controller.wc.toNat

def busAddress (m : Machine) : ℕ := m.controller.transfer.currentAddress

def OnDisk (m : Machine) : Prop := m.currentDiskAddress + m.words ≤ RS11.capacity

def InMemory (bus : Bus) (m : Machine) : Prop :=
  ∀ i < m.words, bus.answers (m.busAddress + 2 * i) = true

/-- Does a word in memory differ from that on the disk? -/
def Differs (m : Machine) : Prop :=
  ∃ i < m.words, m.memory (m.busAddress + 2 * i) ≠ m.disk (m.currentDiskAddress + i)

end Machine

structure Done (bus : Bus) (m : Machine) (r : Result) : Prop where
  /-- Nothing is written outside the range of the transfer. -/
  memory : ∀ a, r.memory a = m.memory a ∨ m.controller.fr = .read ∧ bus.answers a = true ∧
    ∃ i < m.words, a = m.busAddress + 2 * i
  disk : ∀ a, r.disk a = m.disk a ∨ m.controller.fr = .write ∧ a < RS11.capacity ∧
    ∃ i < m.words, a = m.currentDiskAddress + i
  read : m.controller.fr = .read → m.OnDisk → m.InMemory bus → ∀ i < m.words,
    r.memory (m.busAddress + 2 * i) = m.disk (m.currentDiskAddress + i)
  written : m.controller.fr = .write → m.OnDisk → m.InMemory bus → ∀ i < m.words,
    r.disk (m.currentDiskAddress + i) = m.memory (m.busAddress + 2 * i)
  compared : m.OnDisk → m.InMemory bus →
    (r.wce = true ↔ m.controller.fr = .writeCheck ∧ m.Differs)
  errors : r.ned = true ∨ r.nem = true ↔ ¬ (m.OnDisk ∧ m.InMemory bus)
  /-- The registers end behind the transfer. -/
  busAddress : (m.update r).busAddress = (m.busAddress + 2 * m.words) % 2 ^ 18
  diskAddress : (m.update r).currentDiskAddress = (m.currentDiskAddress + m.words) % 2 ^ 21

/-- The transfer ends, without an access out of a buffer, and has done what it should. -/
def Meets (bus : Bus) (m : Machine) (stack : Buffer) : Prop :=
  ∃ r, transfer bus m stack = some r ∧ executed bus m stack = some (m.update r) ∧ Done bus m r

structure Clean (bus : Bus) (m : Machine) : Prop where
  wc : m.controller.wc ≠ 0
  cmaInh : m.controller.cmaInh = false
  /-- The last word of the disk is not in the transfer. -/
  disk : m.InMemory bus → m.currentDiskAddress + m.words ≠ RS11.capacity
  /-- A difference is found in the first half of the words. -/
  compared : m.controller.fr = .writeCheck → m.OnDisk → m.InMemory bus → m.Differs →
    ∃ k < m.words, byteOf (fun i => m.memory (m.busAddress + 2 * i)) k ≠
      byteOf (fun i => m.disk (m.currentDiskAddress + i)) k

/-! ## Counts and addresses -/

variable {bus : Bus} {m : Machine} {stack : Buffer} {r : Result}

theorem words_pos : 0 < m.words := by
  have h := m.controller.wc.isLt
  unfold Machine.words
  omega

theorem wordCount_eq (h : m.controller.wc ≠ 0) : m.controller.transfer.wordCount = m.words := by
  have hzero : m.controller.wc.toNat ≠ 0 := fun hz => h (BitVec.eq_of_toNat_eq hz)
  have hlt := m.controller.wc.isLt
  show (~~~m.controller.wc + 1).toNat = 2 ^ 16 - m.controller.wc.toNat
  rw [BitVec.toNat_add, BitVec.toNat_not]
  show (2 ^ 16 - 1 - m.controller.wc.toNat + 1) % 2 ^ 16 = _
  omega

theorem wordCount_zero (h : m.controller.wc = 0) : m.controller.transfer.wordCount = 0 := by
  show (~~~m.controller.wc + 1).toNat = 0
  rw [h]
  rfl

theorem currentDiskAddress_lt : m.currentDiskAddress < RS11.capacity := by
  have hdar := m.dar.isLt
  have hta := m.ta.isLt
  have hda := m.da.isLt
  have hcapacity : RS11.capacity = 2 ^ 21 := rfl
  unfold Machine.currentDiskAddress
  omega

theorem currentDiskAddress_update (x : ℕ) :
    (m.updateDiskAddress x).currentDiskAddress = x % 2 ^ 21 := by
  simp only [Machine.currentDiskAddress, Machine.updateDiskAddress, BitVec.toNat_ofNat]
  omega

theorem busAddress_update (r : Result) :
    (m.update r).busAddress =
      if m.controller.cmaInh then m.busAddress
      else (m.busAddress + 2 * m.controller.transfer.wordCount) % 2 ^ 18 := by
  have hupdate : (m.update r).busAddress = (m.update r).controller.xm * 2 ^ 16 +
      (m.update r).controller.cma.toNat := rfl
  rw [hupdate]
  simp only [Machine.update, finish]
  split
  · rfl
  · rw [BitVec.toNat_ofNat, Machine.busAddress]
    omega

theorem clipIntoRange_eq_iff {a n : ℕ} (hn : 0 < n) :
    RS11.clipIntoRange a n = n ↔ a + n < RS11.capacity := by
  have hmax : RS11.maxAddress + 1 = RS11.capacity := rfl
  unfold RS11.clipIntoRange
  split <;> omega

theorem clipIntoRange_le {a n : ℕ} (ha : a < RS11.capacity) :
    a + RS11.clipIntoRange a n ≤ RS11.capacity ∧ RS11.clipIntoRange a n ≤ n := by
  have hmax : RS11.maxAddress + 1 = RS11.capacity := rfl
  unfold RS11.clipIntoRange
  split <;> omega

theorem inRange_iff (hwc : m.controller.wc ≠ 0) :
    m.inRange = true ↔ m.currentDiskAddress + m.words < RS11.capacity := by
  rw [Machine.inRange, wordCount_eq hwc, decide_eq_true_iff]
  exact clipIntoRange_eq_iff words_pos

/-- How far `DMA()` comes -/
theorem dmaWords_eq (bus : Bus) (m : Machine) :
    ∃ n, dmaWords bus m.busAddress m.words = some n ∧ n ≤ m.words ∧
      (n = m.words ↔ m.InMemory bus) ∧ ∀ i < n, bus.answers (m.busAddress + 2 * i) = true := by
  have hpos := words_pos (m := m)
  unfold dmaWords
  split
  case isTrue hgt =>
    refine ⟨0, rfl, Nat.zero_le _, ⟨fun h => by omega, fun h => ?_⟩, fun i hi => by omega⟩
    -- the last word would have to be in the address space
    have hlast := bus.answers_inSpace _ (h (m.words - 1) (by omega))
    omega
  case isFalse hle =>
    have hmod := Nat.mod_le (m.busAddress + 2 * m.words) (2 ^ 32)
    have hasserted : (⟨.dati, m.busAddress, m.words, m.words⟩ : DmaCall).Asserted bus.space :=
      ⟨hpos, by show (m.busAddress + 2 * m.words) % 2 ^ 32 ≤ bus.space; omega⟩
    rw [if_pos hasserted]
    exact ⟨_, rfl, answered_le _ _, answered_eq_iff, fun i hi => answers_of_lt_answered hi⟩

theorem byteOf_congr {x y : Buffer} {n k : ℕ} (h : ∀ i < n, x i = y i) (hk : k < n) :
    byteOf x k = byteOf y k := by
  unfold byteOf
  rw [h (k / 2) (by omega)]

/-! ## Transfers -/

/-- The words of the disk, as far as the drive has them -/
def sectors (m : Machine) (stack : Buffer) : Buffer :=
  RS11.read m.disk m.currentDiskAddress stack m.words

theorem sectors_eq (hwc : m.controller.wc ≠ 0) (hrange : m.inRange = true) {i : ℕ}
    (hi : i < m.words) : sectors m stack i = m.disk (m.currentDiskAddress + i) := by
  have hclip : RS11.clipIntoRange m.currentDiskAddress m.words = m.words :=
    (clipIntoRange_eq_iff words_pos).mpr ((inRange_iff hwc).mp hrange)
  unfold sectors RS11.read
  rw [hclip, if_pos hi]

/-- A command that reads from the disk, but not from all of it -/
theorem transfer_of_not_inRange (hwc : m.controller.wc ≠ 0) (hfr : m.controller.fr ≠ .write)
    (hrange : m.inRange = false) :
    transfer bus m stack =
      some ⟨m.memory, m.disk, sectors m stack, true, false, false⟩ := by
  rw [transfer, wordCount_eq hwc]
  cases h : m.controller.fr with
  | nop => exact absurd h m.fr_ne_nop
  | write => exact absurd h hfr
  | read => exact if_pos hrange
  | writeCheck => exact if_pos hrange

theorem transfer_read {n : ℕ} (hwc : m.controller.wc ≠ 0) (hfr : m.controller.fr = .read)
    (hrange : m.inRange = true) (hn : dmaWords bus m.busAddress m.words = some n) :
    transfer bus m stack =
      some ⟨dato m.memory m.busAddress (sectors m stack) n, m.disk, sectors m stack, false,
        n ≠ m.words, false⟩ := by
  rw [transfer, hfr, wordCount_eq hwc]
  show (if m.inRange = false then _ else (dmaWords bus m.busAddress m.words).map _) = _
  rw [if_neg (by rw [hrange]; decide), hn]
  rfl

theorem transfer_writeCheck {n : ℕ} (hwc : m.controller.wc ≠ 0)
    (hfr : m.controller.fr = .writeCheck) (hrange : m.inRange = true)
    (hn : dmaWords bus m.busAddress m.words = some n) :
    transfer bus m stack =
      some ⟨m.memory, m.disk, sectors m stack, false, n ≠ m.words, decide (n = m.words) &&
        memcmp (dati m.memory m.busAddress stack n) (sectors m stack) m.words⟩ := by
  rw [transfer, hfr, wordCount_eq hwc]
  show (if m.inRange = false then _ else (dmaWords bus m.busAddress m.words).map _) = _
  rw [if_neg (by rw [hrange]; decide), hn]
  rfl

/-- The disk after a write of `n` words from memory -/
def written (m : Machine) (stack : Buffer) (n : ℕ) : ℕ → BusWord :=
  RS11.write m.disk m.currentDiskAddress (dati m.memory m.busAddress stack n) m.words

theorem transfer_write {n : ℕ} (hwc : m.controller.wc ≠ 0) (hfr : m.controller.fr = .write)
    (hn : dmaWords bus m.busAddress m.words = some n) :
    transfer bus m stack = some (if n ≠ m.words then
      ⟨m.memory, m.disk, dati m.memory m.busAddress stack n, false, true, false⟩
    else ⟨m.memory, written m stack n, dati m.memory m.busAddress stack n, !m.inRange, false,
      false⟩) := by
  rw [transfer, hfr, wordCount_eq hwc]
  show (dmaWords bus m.busAddress m.words).map _ = _
  rw [hn]
  rfl

/-- `memcmp` sees the first half of the words. -/
theorem memcmp_iff (hwc : m.controller.wc ≠ 0) (hrange : m.inRange = true) :
    memcmp (dati m.memory m.busAddress stack m.words) (sectors m stack) m.words = true ↔
      ∃ k < m.words, byteOf (fun i => m.memory (m.busAddress + 2 * i)) k ≠
        byteOf (fun i => m.disk (m.currentDiskAddress + i)) k := by
  have hdati (i : ℕ) (hi : i < m.words) :
      dati m.memory m.busAddress stack m.words i = m.memory (m.busAddress + 2 * i) := if_pos hi
  rw [memcmp, decide_eq_true_iff]
  refine exists_congr fun k => and_congr_right fun hk => ?_
  rw [byteOf_congr hdati hk, byteOf_congr (fun i hi => sectors_eq hwc hrange hi) hk]

theorem executed_eq (hwc : m.controller.wc ≠ 0) (h : transfer bus m stack = some r) :
    executed bus m stack = some (m.update r) := by
  have hpos := words_pos (m := m)
  rw [executed, h, Option.bind_some, wordCount_eq hwc, if_neg (by omega)]

/-! ## The comparison -/

theorem clean_of_meets (h : Meets bus m stack) : Clean bus m := by
  obtain ⟨r, hr, hexecuted, hdone⟩ := h
  have hwc : m.controller.wc ≠ 0 := by
    intro hzero
    rw [executed, hr, Option.bind_some, if_pos (wordCount_zero hzero)] at hexecuted
    cases hexecuted
  obtain ⟨n, hn, -, hall, -⟩ := dmaWords_eq bus m
  refine ⟨hwc, ?_, fun hmemory hend => ?_, fun hfr hdisk hmemory hdiffers => ?_⟩
  · -- the address has moved
    have haddress := hdone.busAddress
    rw [busAddress_update, wordCount_eq hwc] at haddress
    cases hinh : m.controller.cmaInh with
    | false => rfl
    | true =>
      rw [if_pos hinh] at haddress
      have hbus : m.busAddress = m.controller.xm * 2 ^ 16 + m.controller.cma.toNat := rfl
      have hxm := m.xm_lt
      have hcma := m.controller.cma.isLt
      have hpos := words_pos (m := m)
      have hlt : m.words < 2 ^ 16 := by
        have hne : m.controller.wc.toNat ≠ 0 := fun hz => hwc (BitVec.eq_of_toNat_eq hz)
        unfold Machine.words
        omega
      omega
  · have hrange : m.inRange = false := by
      rw [← Bool.not_eq_true, inRange_iff hwc]
      omega
    have hvalid : m.OnDisk ∧ m.InMemory bus := ⟨hend.le, hmemory⟩
    have hned : r.ned = true := by
      by_cases hfr : m.controller.fr = .write
      · rw [transfer_write hwc hfr hn, if_neg (not_not.mpr (hall.mpr hmemory))] at hr
        rw [← Option.some.inj hr, hrange]
        rfl
      · rw [transfer_of_not_inRange hwc hfr hrange] at hr
        rw [← Option.some.inj hr]
    exact hdone.errors.mp (.inl hned) hvalid
  · have hwce := (hdone.compared hdisk hmemory).mpr ⟨hfr, hdiffers⟩
    cases hrange : m.inRange with
    | false =>
      rw [transfer_of_not_inRange hwc (by rw [hfr]; decide) hrange] at hr
      rw [← Option.some.inj hr] at hwce
      cases hwce
    | true =>
      rw [transfer_writeCheck hwc hfr hrange hn, hall.mpr hmemory] at hr
      rw [← Option.some.inj hr] at hwce
      exact (memcmp_iff hwc hrange).mp (Bool.and_eq_true_iff.mp hwce).2

variable {n : ℕ}

/-- No transfer is refused that has all its words on the disk. -/
theorem inRange_of_clean (h : Clean bus m) (hdisk : m.OnDisk) (hmemory : m.InMemory bus) :
    m.inRange = true := by
  rw [inRange_iff h.wc]
  exact lt_of_le_of_ne hdisk (h.disk hmemory)

theorem onDisk_of_inRange (hwc : m.controller.wc ≠ 0) (h : m.inRange = true) : m.OnDisk :=
  ((inRange_iff hwc).mp h).le

theorem busAddress_of_clean (h : Clean bus m) (r : Result) :
    (m.update r).busAddress = (m.busAddress + 2 * m.words) % 2 ^ 18 := by
  rw [busAddress_update, h.cmaInh, wordCount_eq h.wc]
  exact if_neg Bool.false_ne_true

theorem diskAddress_of_clean (h : Clean bus m) (r : Result) :
    (m.update r).currentDiskAddress = (m.currentDiskAddress + m.words) % 2 ^ 21 := by
  rw [← wordCount_eq h.wc]
  exact currentDiskAddress_update (m := m) _

/-- The drive has not all the words that are to be read. -/
theorem done_of_not_inRange (h : Clean bus m) (hfr : m.controller.fr ≠ .write)
    (hrange : m.inRange = false) :
    Done bus m ⟨m.memory, m.disk, sectors m stack, true, false, false⟩ := by
  have hvalid : ¬ (m.OnDisk ∧ m.InMemory bus) := fun hv =>
    absurd (inRange_of_clean h hv.1 hv.2) (by rw [hrange]; decide)
  exact {
    memory := fun _ => .inl rfl
    disk := fun _ => .inl rfl
    read := fun _ hdisk hmemory => absurd ⟨hdisk, hmemory⟩ hvalid
    written := fun hwrite => absurd hwrite hfr
    compared := fun hdisk hmemory => absurd ⟨hdisk, hmemory⟩ hvalid
    errors := iff_of_true (.inl rfl) hvalid
    busAddress := busAddress_of_clean h _
    diskAddress := diskAddress_of_clean h _ }

/-- With all words on the disk, NEM is the error of those that are not in memory. -/
theorem errors_of_inRange (hwc : m.controller.wc ≠ 0) (hrange : m.inRange = true)
    (hall : n = m.words ↔ m.InMemory bus) :
    false = true ∨ decide (n ≠ m.words) = true ↔ ¬ (m.OnDisk ∧ m.InMemory bus) := by
  have hdisk := onDisk_of_inRange hwc hrange
  rw [decide_eq_true_iff, ← hall]
  simp [hdisk]

theorem done_read (h : Clean bus m) (hfr : m.controller.fr = .read) (hrange : m.inRange = true)
    (hle : n ≤ m.words) (hall : n = m.words ↔ m.InMemory bus)
    (hanswers : ∀ i < n, bus.answers (m.busAddress + 2 * i) = true) :
    Done bus m ⟨dato m.memory m.busAddress (sectors m stack) n, m.disk, sectors m stack, false,
      n ≠ m.words, false⟩ := by
  exact {
    memory := fun a => by
      by_cases hin : ∃ i < n, a = m.busAddress + 2 * i
      · obtain ⟨i, hi, rfl⟩ := hin
        exact .inr ⟨hfr, hanswers i hi, i, hi.trans_le hle, rfl⟩
      · exact .inl (dato_of_ne fun i hi heq => hin ⟨i, hi, heq⟩)
    disk := fun _ => .inl rfl
    read := fun _ _ hmemory i hi => by
      show dato m.memory m.busAddress (sectors m stack) n (m.busAddress + 2 * i) = _
      rw [hall.mpr hmemory, dato_at hi, sectors_eq h.wc hrange hi]
    written := fun hwrite => by rw [hfr] at hwrite; cases hwrite
    compared := fun _ _ => iff_of_false (by simp) fun hc => by rw [hfr] at hc; cases hc.1
    errors := errors_of_inRange h.wc hrange hall
    busAddress := busAddress_of_clean h _
    diskAddress := diskAddress_of_clean h _ }

/-- A difference of bytes is one of words. -/
theorem differs_of_byteOf {k : ℕ} (hk : k < m.words)
    (h : byteOf (fun i => m.memory (m.busAddress + 2 * i)) k ≠
      byteOf (fun i => m.disk (m.currentDiskAddress + i)) k) : m.Differs := by
  by_contra hsame
  refine h (byteOf_congr (fun i hi => ?_) hk)
  exact not_not.mp fun hne => hsame ⟨i, hi, hne⟩

theorem done_writeCheck (h : Clean bus m) (hfr : m.controller.fr = .writeCheck)
    (hrange : m.inRange = true) (hall : n = m.words ↔ m.InMemory bus) :
    Done bus m ⟨m.memory, m.disk, sectors m stack, false, n ≠ m.words, decide (n = m.words) &&
      memcmp (dati m.memory m.busAddress stack n) (sectors m stack) m.words⟩ := by
  exact {
    memory := fun _ => .inl rfl
    disk := fun _ => .inl rfl
    read := fun hread => by rw [hfr] at hread; cases hread
    written := fun hwrite => by rw [hfr] at hwrite; cases hwrite
    compared := fun hdisk hmemory => by
      obtain rfl := hall.mpr hmemory
      show (decide (m.words = m.words) && _) = true ↔ _
      rw [decide_eq_true rfl, Bool.true_and, memcmp_iff h.wc hrange]
      refine ⟨fun ⟨k, hk, hne⟩ => ⟨hfr, differs_of_byteOf hk hne⟩, fun ⟨_, hdiffers⟩ => ?_⟩
      exact h.compared hfr hdisk hmemory hdiffers
    errors := errors_of_inRange h.wc hrange hall
    busAddress := busAddress_of_clean h _
    diskAddress := diskAddress_of_clean h _ }

theorem written_of_inRange (hwc : m.controller.wc ≠ 0) (hrange : m.inRange = true) {i : ℕ}
    (hi : i < m.words) :
    written m stack m.words (m.currentDiskAddress + i) = m.memory (m.busAddress + 2 * i) := by
  have hclip : RS11.clipIntoRange m.currentDiskAddress m.words = m.words :=
    (clipIntoRange_eq_iff words_pos).mpr ((inRange_iff hwc).mp hrange)
  unfold written RS11.write
  rw [hclip, if_pos ⟨by omega, by omega⟩, Nat.add_sub_cancel_left]
  exact if_pos hi

/-- Nothing is written outside the range, or beyond the disk. -/
theorem written_cases (a : ℕ) :
    written m stack n a = m.disk a ∨
      a < RS11.capacity ∧ ∃ i < m.words, a = m.currentDiskAddress + i := by
  obtain ⟨hend, hle⟩ := clipIntoRange_le (n := m.words) (currentDiskAddress_lt (m := m))
  unfold written RS11.write
  split
  case isFalse => exact .inl rfl
  case isTrue hin =>
    exact .inr ⟨by omega, a - m.currentDiskAddress, by omega, by omega⟩

theorem done_write (h : Clean bus m) (hfr : m.controller.fr = .write)
    (hall : n = m.words ↔ m.InMemory bus) :
    Done bus m (if n ≠ m.words then
      ⟨m.memory, m.disk, dati m.memory m.busAddress stack n, false, true, false⟩
    else ⟨m.memory, written m stack n, dati m.memory m.busAddress stack n, !m.inRange, false,
      false⟩) := by
  split
  case isTrue hn =>
    have hmemory : ¬ m.InMemory bus := fun hm => hn (hall.mpr hm)
    exact {
      memory := fun _ => .inl rfl
      disk := fun _ => .inl rfl
      read := fun _ _ hm => absurd hm hmemory
      written := fun _ _ hm => absurd hm hmemory
      compared := fun _ hm => absurd hm hmemory
      errors := iff_of_true (.inr rfl) fun hv => hmemory hv.2
      busAddress := busAddress_of_clean h _
      diskAddress := diskAddress_of_clean h _ }
  case isFalse hn =>
    obtain rfl := not_not.mp hn
    have hmemory := hall.mp rfl
    exact {
      memory := fun _ => .inl rfl
      disk := fun a => (written_cases a).imp_right fun hin => ⟨hfr, hin⟩
      read := fun hread => by rw [hfr] at hread; cases hread
      written := fun _ hdisk hm i hi => written_of_inRange h.wc (inRange_of_clean h hdisk hm) hi
      compared := fun _ _ => iff_of_false (by simp) fun hc => by rw [hfr] at hc; cases hc.1
      errors := by
        show (!m.inRange) = true ∨ false = true ↔ _
        rw [or_iff_left Bool.false_ne_true, Bool.not_eq_true']
        refine ⟨fun hrange hv => ?_, fun hv => Bool.eq_false_iff.mpr fun hrange => ?_⟩
        · exact absurd (inRange_of_clean h hv.1 hv.2) (by rw [hrange]; decide)
        · exact hv ⟨onDisk_of_inRange h.wc hrange, hmemory⟩
      busAddress := busAddress_of_clean h _
      diskAddress := diskAddress_of_clean h _ }

theorem exists_done (h : Clean bus m) (stack : Buffer) :
    ∃ r, transfer bus m stack = some r ∧ Done bus m r := by
  obtain ⟨n, hn, hle, hall, hanswers⟩ := dmaWords_eq bus m
  cases hfr : m.controller.fr with
  | nop => exact absurd hfr m.fr_ne_nop
  | write => exact ⟨_, transfer_write h.wc hfr hn, done_write h hfr hall⟩
  | read =>
    cases hrange : m.inRange with
    | false =>
      have hne : m.controller.fr ≠ .write := by rw [hfr]; decide
      exact ⟨_, transfer_of_not_inRange h.wc hne hrange, done_of_not_inRange h hne hrange⟩
    | true =>
      exact ⟨_, transfer_read h.wc hfr hrange hn, done_read h hfr hrange hle hall hanswers⟩
  | writeCheck =>
    cases hrange : m.inRange with
    | false =>
      have hne : m.controller.fr ≠ .write := by rw [hfr]; decide
      exact ⟨_, transfer_of_not_inRange h.wc hne hrange, done_of_not_inRange h hne hrange⟩
    | true => exact ⟨_, transfer_writeCheck h.wc hfr hrange hn, done_writeCheck h hfr hrange hall⟩

/-- The transfers that are as they should be -/
theorem transfer_done_iff (bus : Bus) (m : Machine) (stack : Buffer) :
    Meets bus m stack ↔ Clean bus m := by
  refine ⟨clean_of_meets, fun h => ?_⟩
  obtain ⟨r, hr, hdone⟩ := exists_done h stack
  exact ⟨r, hr, executed_eq h.wc hr, hdone⟩

/-! ## A difference that is not found -/

theorem fullMemory_inSpace (a : ℕ) (h : decide (a < 0x3e000) = true) : a + 2 ≤ 2 ^ 18 := by
  have hlt := of_decide_eq_true h
  omega

/-- The whole UNIBUS memory -/
def fullMemory : Bus where
  space := 2 ^ 18
  answers a := decide (a < 0x3e000)
  answers_inSpace := fullMemory_inSpace

/-- The registers for WRITE CHECK of 2 words at 0 -/
def checkTwoWords : State :=
  { State.initial with fr := .writeCheck, rdy := false, wc := 0xfffe, worker := .execute }

theorem checkTwoWords_fr : checkTwoWords.fr ≠ .nop := by decide

theorem checkTwoWords_xm : checkTwoWords.xm < 4 := by decide

/-- The second word differs. -/
def secondDiffers : Machine where
  controller := checkTwoWords
  fr_ne_nop := checkTwoWords_fr
  xm_lt := checkTwoWords_xm
  dar := 0
  ta := 0
  da := 0
  wce := false
  dbr := 0
  memory a := if a = 2 then 7 else 0
  disk _ := 0

theorem run_executed_second : ∃ t s, executed fullMemory secondDiffers (fun _ => 0) = some t ∧
    Transition.run (step fullMemory.space) checkTwoWords (steps fullMemory secondDiffers) = some s ∧
      s.wc = t.controller.wc := by
  obtain ⟨t, ht⟩ := Option.isSome_iff_exists.mp
    (show (executed fullMemory secondDiffers fun _ => 0).isSome = true by decide)
  obtain ⟨s, hs, heq⟩ := run_executed ht rfl rfl
  have hwc := congrArg State.wc heq
  exact ⟨t, s, ht, hs, hwc⟩

/-- `memcmp` gets the number of words, but counts bytes. -/
theorem second_word_not_compared : ¬ Meets fullMemory secondDiffers fun _ => 0 := by
  intro h
  have hmemory : secondDiffers.InMemory fullMemory := by
    intro i hi
    have hlt : i < 2 := hi
    show decide (0 + 2 * i < 0x3e000) = true
    exact decide_eq_true (by omega)
  have hdisk : secondDiffers.OnDisk := by
    show 0 + 2 ≤ RS11.capacity
    decide
  have hdiffers : secondDiffers.Differs := ⟨1, by decide, by decide⟩
  obtain ⟨k, hk, hne⟩ := (clean_of_meets h).compared rfl hdisk hmemory hdiffers
  -- both bytes of the first word are equal
  have hlt : k < 2 := hk
  have hzero : k / 2 = 0 := by omega
  refine hne ?_
  unfold byteOf
  rw [hzero]
  rfl

end QUniBone.RF11
