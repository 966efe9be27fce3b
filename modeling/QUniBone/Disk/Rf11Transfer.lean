import QUniBone.Disk.Rf11
import QUniBone.Disk.DmaData

/-!
# The data that an RF11 transfer moves

`Worker_Execute` with memory and the disk. Nothing comes between: no INIT and no write to a
register. So it is a function of the registers and the data. The image is an array of words.

* `RS11`: the drive.
* `Machine`, `execute`: the transfer, and the registers after it. No result stands for a failed
  assertion, or an access out of a buffer.
* `run_execute`: it is a run of the step relation.
-/

namespace QUniBone.RF11

open Disk Transition

/-! ## The drive -/

namespace RS11

/-- The words of 8 platters -/
def capacity : ℕ := 0x40000 * 8

/-- `get_max_address()` -/
def maxAddress : ℕ := capacity - 1

/-- The disk address has 21 bits, so `count - diff` is not negative. -/
def clipIntoRange (wordAddress count : ℕ) : ℕ :=
  if wordAddress + count > maxAddress then count - (wordAddress + count - maxAddress) else count

/-- The buffer after `read()` -/
def read (disk : ℕ → BusWord) (wordAddress : ℕ) (buffer : Buffer) (count : ℕ) : Buffer := fun i =>
  if i < clipIntoRange wordAddress count then disk (wordAddress + i) else buffer i

/-- The disk after `write()` -/
def write (disk : ℕ → BusWord) (wordAddress : ℕ) (buffer : Buffer) (count : ℕ) :
    ℕ → BusWord := fun a =>
  if wordAddress ≤ a ∧ a < wordAddress + clipIntoRange wordAddress count then
    buffer (a - wordAddress)
  else disk a

end RS11

/-! ## The transfer -/

structure Bus where
  /-- `addr_space_byte_count` -/
  space : ℕ
  answers : ℕ → Bool
  answers_inSpace : ∀ a, answers a = true → a + 2 ≤ space

structure Machine where
  controller : State
  /-- GO starts no other commands. -/
  fr_ne_nop : controller.fr ≠ .nop
  xm_lt : controller.xm < 4
  dar : BitVec 16
  ta : BitVec 2
  da : BitVec 3
  wce : Bool
  dbr : BusWord
  memory : ℕ → BusWord
  disk : ℕ → BusWord

namespace Machine

/-- `get_current_disk_address()` -/
def currentDiskAddress (m : Machine) : ℕ := m.dar.toNat + m.ta.toNat * 2 ^ 16 + m.da.toNat * 2 ^ 18

/-- `update_disk_address()` -/
def updateDiskAddress (m : Machine) (newAddress : ℕ) : Machine :=
  { m with
    dar := BitVec.ofNat 16 newAddress
    ta := BitVec.ofNat 2 (newAddress / 2 ^ 16)
    da := BitVec.ofNat 3 (newAddress / 2 ^ 18) }

end Machine

/-- Does the drive have all the words? -/
def Machine.inRange (m : Machine) : Bool :=
  decide (RS11.clipIntoRange m.currentDiskAddress m.controller.transfer.wordCount =
    m.controller.transfer.wordCount)

/-- What a transfer has done. The flags are those that it sets. -/
structure Result where
  memory : ℕ → BusWord
  disk : ℕ → BusWord
  buffer : Buffer
  ned : Bool
  nem : Bool
  wce : Bool

/-- `dma_read()` and `dma_write()`: how many words `DMA()` transfers -/
def dmaWords (bus : Bus) (address count : ℕ) : Option ℕ :=
  if address + count * 2 > bus.space then some 0
  else if (⟨.dati, address, count, count⟩ : DmaCall).Asserted bus.space then
    some (answered bus.answers address count)
  else none

/-- A byte of a buffer of words -/
def byteOf (buffer : Buffer) (k : ℕ) : BitVec 8 :=
  if k % 2 = 0 then (buffer (k / 2)).setWidth 8 else (buffer (k / 2) >>> 8).setWidth 8

/-- Does `memcmp` find a difference in so many bytes? -/
def memcmp (x y : Buffer) (n : ℕ) : Bool := decide (∃ k < n, byteOf x k ≠ byteOf y k)

/-- Both buffers are on the stack, whatever is there. -/
def transfer (bus : Bus) (m : Machine) (stack : Buffer) : Option Result :=
  let p := m.controller.transfer
  let address := m.currentDiskAddress
  let buffer := RS11.read m.disk address stack p.wordCount
  match m.controller.fr with
  | .read =>
    if m.inRange = false then some ⟨m.memory, m.disk, buffer, true, false, false⟩
    else
      (dmaWords bus p.currentAddress p.wordCount).map fun n =>
        ⟨dato m.memory p.currentAddress buffer n, m.disk, buffer, false, n ≠ p.wordCount, false⟩
  | .writeCheck =>
    if m.inRange = false then some ⟨m.memory, m.disk, buffer, true, false, false⟩
    else
      (dmaWords bus p.currentAddress p.wordCount).map fun n =>
        let compareBuffer := dati m.memory p.currentAddress stack n
        ⟨m.memory, m.disk, buffer, false, n ≠ p.wordCount,
          decide (n = p.wordCount) && memcmp compareBuffer buffer p.wordCount⟩
  | _ =>
    (dmaWords bus p.currentAddress p.wordCount).map fun n =>
      let buffer := dati m.memory p.currentAddress stack n
      if n ≠ p.wordCount then ⟨m.memory, m.disk, buffer, false, true, false⟩
      else
        ⟨m.memory, RS11.write m.disk address buffer p.wordCount, buffer, !m.inRange, false, false⟩

theorem finish_xm_lt {s : State} (h : s.xm < 4) (p : Transfer) : (finish s p).xm < 4 := by
  show (if s.cmaInh then s.xm else _ % 4) < 4
  split <;> omega

/-- The registers after the transfer -/
def Machine.update (m : Machine) (r : Result) : Machine :=
  let p := m.controller.transfer
  { m.updateDiskAddress (m.currentDiskAddress + p.wordCount) with
    controller := finish { m.controller with
      ned := m.controller.ned || r.ned
      nem := m.controller.nem || r.nem } p
    fr_ne_nop := m.fr_ne_nop
    xm_lt := finish_xm_lt m.xm_lt _
    wce := m.wce || r.wce
    dbr := r.buffer (p.wordCount - 1)
    memory := r.memory
    disk := r.disk }

/-- `Worker_Execute` and `Worker_Finish`. With no words, `buffer[wordCount - 1]` is out of the
buffer. -/
def executed (bus : Bus) (m : Machine) (stack : Buffer) : Option Machine :=
  (transfer bus m stack).bind fun r =>
    if m.controller.transfer.wordCount = 0 then none else some (m.update r)

/-! ## The step relation -/

/-- Does the worker come to `dma_read()` or `dma_write()`? -/
def Machine.Calls (m : Machine) : Prop :=
  (m.controller.fr = .read ∨ m.controller.fr = .writeCheck) → m.inRange = true

instance decidableCalls (m : Machine) : Decidable m.Calls :=
  inferInstanceAs (Decidable (_ → _))

/-- The steps of the worker -/
def steps (bus : Bus) (m : Machine) : List Action :=
  let p := m.controller.transfer
  .execute m.inRange ::
    if m.Calls ∧ p.currentAddress + p.wordCount * 2 ≤ bus.space then
      [.dmaComplete (answered bus.answers p.currentAddress p.wordCount), .afterDMA, .finish]
    else [.finish]

theorem asserted_of_dmaWords {bus : Bus} {address count n : ℕ} (cycle : Cycle)
    (h : dmaWords bus address count = some n) (hle : address + count * 2 ≤ bus.space) :
    (⟨cycle, address, count, count⟩ : DmaCall).Asserted bus.space ∧
      n = answered bus.answers address count := by
  rw [dmaWords, if_neg (by omega)] at h
  split at h
  case isTrue hasserted => exact ⟨hasserted, (Option.some.inj h).symm⟩
  case isFalse => cases h

/-- A run from the call of `DMA()` on -/
theorem run_dma {bus : Bus} {s : State} {n : ℕ} (cycle : Cycle) (hinit : s.lineINIT = false)
    (h : dmaWords bus s.transfer.currentAddress s.transfer.wordCount = some n)
    (hle : s.transfer.currentAddress + s.transfer.wordCount * 2 ≤ bus.space) :
    ∃ t, run (step bus.space) (dma bus.space s cycle)
        [.dmaComplete n, .afterDMA, .finish] = some t ∧
      { t with history := s.history, dmaRequest := s.dmaRequest } =
        finish { s with nem := s.nem || decide (n ≠ s.transfer.wordCount) } s.transfer := by
  obtain ⟨hasserted, rfl⟩ := asserted_of_dmaWords cycle h hle
  have hwords : answered bus.answers s.transfer.currentAddress s.transfer.wordCount ≤
      s.transfer.wordCount := answered_le _ _
  let p := s.transfer
  let d : DmaCall := ⟨cycle, p.currentAddress, p.wordCount, p.wordCount⟩
  have hdma : dma bus.space s cycle =
      { s.log (.called d) with worker := .transfer p d, dmaRequest := .scheduled } := by
    rw [dma]
    simp only [hinit]
    rw [if_neg (by omega), if_neg (not_not.mpr hasserted)]
    rfl
  let completed : State := { s.log (.called d) with
    worker := .transferred p
    dmaRequest := .completed d (answered bus.answers p.currentAddress p.wordCount) }
  refine ⟨finish (afterDMA completed p) p, ?_, ?_⟩
  · have hcomplete : step bus.space (dma bus.space s cycle)
        (.dmaComplete (answered bus.answers p.currentAddress p.wordCount)) = some completed := by
      rw [hdma]
      exact if_pos hwords
    show (step bus.space (dma bus.space s cycle) _).bind _ = _
    rw [hcomplete]
    rfl
  · have hnem : (afterDMA completed p).nem = (s.nem ||
        decide (answered bus.answers p.currentAddress p.wordCount ≠ p.wordCount)) := by
      show (if decide (answered bus.answers p.currentAddress p.wordCount = p.wordCount) = true
        then s.nem else true) = _
      by_cases hall : answered bus.answers p.currentAddress p.wordCount = p.wordCount
      · simp [hall]
      · simp [hall]
    show { finish (afterDMA completed p) p with
      history := s.history, dmaRequest := s.dmaRequest } = _
    simp only [finish, hnem]
    rfl

theorem transfer_of_not_calls {bus : Bus} {m : Machine} {stack : Buffer} {r : Result}
    (hcalls : ¬ m.Calls) (h : transfer bus m stack = some r) : r.nem = false := by
  obtain ⟨hfr, hrange⟩ := Classical.not_imp.mp hcalls
  rw [Bool.not_eq_true] at hrange
  rw [transfer] at h
  cases hfr with
  | inl hread =>
    simp only [hread, hrange, if_true] at h
    rw [← Option.some.inj h]
  | inr hcheck =>
    simp only [hcheck, hrange, if_true] at h
    rw [← Option.some.inj h]

theorem transfer_of_calls {bus : Bus} {m : Machine} {stack : Buffer} {r : Result}
    (hcalls : m.Calls) (h : transfer bus m stack = some r) :
    ∃ n, dmaWords bus m.controller.transfer.currentAddress m.controller.transfer.wordCount =
      some n ∧ r.nem = decide (n ≠ m.controller.transfer.wordCount) := by
  rw [transfer] at h
  cases hfr : m.controller.fr with
  | read =>
    simp only [hfr, hcalls (.inl hfr), Bool.true_eq_false, if_false] at h
    obtain ⟨n, hn, rfl⟩ := Option.map_eq_some_iff.mp h
    exact ⟨n, hn, rfl⟩
  | writeCheck =>
    simp only [hfr, hcalls (.inr hfr), Bool.true_eq_false, if_false] at h
    obtain ⟨n, hn, rfl⟩ := Option.map_eq_some_iff.mp h
    exact ⟨n, hn, rfl⟩
  | nop => exact absurd hfr m.fr_ne_nop
  | write =>
    simp only [hfr] at h
    obtain ⟨n, hn, rfl⟩ := Option.map_eq_some_iff.mp h
    refine ⟨n, hn, ?_⟩
    split <;> simp_all

theorem execute_of_calls {m : Machine} (space : ℕ) (hcalls : m.Calls) :
    ∃ cycle, execute space m.controller m.inRange = dma space m.controller cycle := by
  unfold execute
  cases hfr : m.controller.fr with
  | read =>
    rw [hcalls (.inl hfr)]
    exact ⟨.dato, if_pos rfl⟩
  | writeCheck =>
    rw [hcalls (.inr hfr)]
    exact ⟨.dati, if_pos rfl⟩
  | nop => exact ⟨.dati, rfl⟩
  | write => exact ⟨.dati, rfl⟩

theorem execute_of_not_calls {m : Machine} (space : ℕ) (hcalls : ¬ m.Calls) :
    execute space m.controller m.inRange = notRead m.controller := by
  obtain ⟨hfr, hrange⟩ := Classical.not_imp.mp hcalls
  rw [Bool.not_eq_true] at hrange
  unfold execute
  cases hfr with
  | inl hread => rw [hread, hrange]; rfl
  | inr hcheck => rw [hcheck, hrange]; rfl

/-- The machine's registers are those at the end of a run of the worker. NED is left out: the
step relation does not have it for writes. -/
theorem run_executed {bus : Bus} {m t : Machine} {stack : Buffer}
    (h : executed bus m stack = some t) (hw : m.controller.worker = .execute)
    (hinit : m.controller.lineINIT = false) :
    ∃ s, run (step bus.space) m.controller (steps bus m) = some s ∧
      { s with
        history := m.controller.history
        dmaRequest := m.controller.dmaRequest
        ned := t.controller.ned } = t.controller := by
  obtain ⟨r, hr, hcount⟩ := Option.bind_eq_some_iff.mp h
  rw [Option.ite_none_left_eq_some] at hcount
  obtain ⟨hpos, ht⟩ := hcount
  obtain rfl := Option.some.inj ht
  have hexecute : step bus.space m.controller (.execute m.inRange) =
      some (execute bus.space m.controller m.inRange) := if_pos hw
  unfold steps
  dsimp only
  rw [run, hexecute, Option.bind_some]
  by_cases hcalls : m.Calls
  · obtain ⟨n, hn, hnem⟩ := transfer_of_calls hcalls hr
    obtain ⟨cycle, hdma⟩ := execute_of_calls bus.space hcalls
    rw [hdma]
    by_cases hspace : m.controller.transfer.currentAddress +
        m.controller.transfer.wordCount * 2 ≤ bus.space
    · rw [if_pos ⟨hcalls, hspace⟩]
      obtain ⟨s, hrun, hs⟩ := run_dma cycle hinit hn hspace
      rw [(asserted_of_dmaWords cycle hn hspace).2] at hrun
      refine ⟨s, hrun, ?_⟩
      have hregs := congrArg (fun x : State => { x with ned := (m.update r).controller.ned }) hs
      refine hregs.trans ?_
      simp only [Machine.update, finish, hnem]
    · rw [if_neg fun hc => hspace hc.2]
      rw [dmaWords, if_pos (by omega)] at hn
      obtain rfl := Option.some.inj hn
      rw [dma, if_pos (by omega)]
      refine ⟨_, rfl, ?_⟩
      have hset : r.nem = true := by rw [hnem]; exact decide_eq_true (Ne.symm hpos)
      simp only [Machine.update, finish, hset, Bool.or_true]
  · rw [if_neg fun hc => hcalls hc.1, execute_of_not_calls bus.space hcalls]
    refine ⟨_, rfl, ?_⟩
    simp only [Machine.update, finish, transfer_of_not_calls hcalls hr, Bool.or_false]
    rfl

end QUniBone.RF11
