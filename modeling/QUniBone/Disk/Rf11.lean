import QUniBone.Disk.Dma
import QUniBone.Lib.Span
import QUniBone.Lib.Transition

/-!
# RF11

`rf11_c` as far as it leads to `DMA()`: one call for a whole command, after a check of the
address. The data and the disk address are left out; an action says whether the drive could read.

* `State`, `Action`, `step`: the registers and the worker.
* `Careful`: the word count is not 0 when the worker reads it.
* `CarefulRun.inv`: then no call leaves the address space. `execute_outOfSpace`: an address out
  of it sets NEM.
-/

namespace QUniBone.RF11

open Disk

/-- FR -/
inductive Function
  | nop
  | write
  | read
  | writeCheck
  deriving DecidableEq

/-- DCS bits 1 and 2 -/
def Function.ofBits : ℕ → Function
  | 0 => .nop
  | 1 => .write
  | 2 => .read
  | _ => .writeCheck

/-- The local variables of `Worker_Execute`. -/
structure Transfer where
  currentAddress : ℕ
  wordCount : ℕ
  deriving DecidableEq

inductive Worker
  | idle
  | execute
  /-- `DMA()` waits for its request -/
  | transfer (p : Transfer) (d : DmaCall)
  | transferred (p : Transfer)
  | finish (p : Transfer)
  /-- an assertion has failed -/
  | dead
  deriving DecidableEq

structure State where
  /-- `_dcs.Flags` -/
  fr : Function
  xm : ℕ
  ie : Bool
  rdy : Bool
  ned : Bool
  /-- `_dae.Flags` -/
  cmaInh : Bool
  nem : Bool
  wc : BitVec 16
  cma : BitVec 16
  newCommandReady : Bool
  lineINIT : Bool
  dmaRequest : DmaRequest
  worker : Worker
  history : List Event

namespace State

def log (s : State) (e : Event) : State := { s with history := e :: s.history }

def fail (s : State) : State := { s.log .failed with worker := .dead }

/-- `wordCount` is `~_wc + 1`, in 16 bits. -/
def transfer (s : State) : Transfer where
  currentAddress := s.xm * 2 ^ 16 + s.cma.toNat
  wordCount := (~~~s.wc + 1).toNat

/-- `reset_controller()` -/
def resetController (s : State) : State :=
  { s.log .reset with
    fr := .nop
    xm := 0
    ie := false
    rdy := true
    ned := false
    cmaInh := false
    nem := false
    wc := 0
    cma := 0 }

/-- The requests of the table are completed without success. -/
def cancelRequests (s : State) : State :=
  match s.worker with
  | .transfer p _ =>
    { s with worker := .transferred p, dmaRequest := s.dmaRequest.cancelled }
  | _ => s

end State

inductive Action
  | writeDCS (w : BitVec 16)
  | writeWC (w : BitVec 16)
  | writeCMA (w : BitVec 16)
  | writeDAE (w : BitVec 16)
  | initAsserted
  | initNegated
  /-- the worker takes the new command -/
  | accept
  /-- up to the call of `DMA()`. `read`: the drive could read the sectors -/
  | execute (read : Bool)
  /-- the adapter completes the request after so many words -/
  | dmaComplete (words : ℕ)
  | afterDMA
  | finish

/-- DATO to DCS -/
def writeDCS (s : State) (w : BitVec 16) : State :=
  let t := { s with
    fr := .ofBits (w >>> 1 &&& 3).toNat
    xm := (w >>> 4 &&& 3).toNat
    ie := w.getLsbD 6 }
  if w.getLsbD 8 then t.resetController -- DISK_CLEAR, also clears GO
  else if w.getLsbD 0 = true ∧ s.rdy = true ∧ t.fr ≠ .nop then
    { t with rdy := false, newCommandReady := true }
  else t

/-- `dma_read()` and `dma_write()` -/
def dma (space : ℕ) (s : State) (cycle : Cycle) : State :=
  let p := s.transfer
  if p.currentAddress + p.wordCount * 2 > space then { s with nem := true, worker := .finish p }
  else
    let d : DmaCall := ⟨cycle, p.currentAddress, p.wordCount, p.wordCount⟩
    let called := s.log (.called d)
    if ¬ d.Asserted space then called.fail
    else if s.lineINIT then { called with worker := .transferred p }
    else { called with worker := .transfer p d, dmaRequest := .scheduled }

def notRead (s : State) : State := { s with ned := true, worker := .finish s.transfer }

/-- `Worker_Execute`. What is not read or compared is written. -/
def execute (space : ℕ) (s : State) (read : Bool) : State :=
  match s.fr with
  | .read => if read then dma space s .dato else notRead s
  | .writeCheck => if read then dma space s .dati else notRead s
  | _ => dma space s .dati

def afterDMA (s : State) (p : Transfer) : State :=
  { s.log (.returned s.dmaRequest.success s.dmaRequest.success) with
    nem := if s.dmaRequest.success then s.nem else true
    worker := .finish p }

def finish (s : State) (p : Transfer) : State :=
  let address := p.currentAddress + p.wordCount * 2
  { s with
    xm := if s.cmaInh then s.xm else address / 2 ^ 16 % 4
    cma := if s.cmaInh then s.cma else BitVec.ofNat 16 address
    wc := 0
    rdy := true
    worker := .idle }

def step (space : ℕ) (s : State) : Action → Option State
  | .writeDCS w => some (writeDCS s w)
  | .writeWC w => some { s with wc := w }
  | .writeCMA w => some { s with cma := w }
  | .writeDAE w => some { s with cmaInh := w.getLsbD 8 }
  | .initAsserted =>
    if s.lineINIT = false then
      some { s.resetController.cancelRequests with lineINIT := true }
    else none
  | .initNegated =>
    if s.lineINIT = true then some { s.cancelRequests with lineINIT := false } else none
  | .accept =>
    if s.worker = .idle ∧ s.newCommandReady = true then
      some { s with newCommandReady := false, worker := .execute }
    else none
  | .execute read => if s.worker = .execute then some (execute space s read) else none
  | .dmaComplete words =>
    match s.worker with
    | .transfer p d =>
      if words ≤ d.wordcount then
        some { s with worker := .transferred p, dmaRequest := .completed d words }
      else none
    | _ => none
  | .afterDMA =>
    match s.worker with
    | .transferred p => some (afterDMA s p)
    | _ => none
  | .finish =>
    match s.worker with
    | .finish p => some (finish s p)
    | _ => none

def State.initial : State where
  fr := .nop
  xm := 0
  ie := false
  rdy := true
  ned := false
  cmaInh := false
  nem := false
  wc := 0
  cma := 0
  newCommandReady := false
  lineINIT := false
  dmaRequest := ⟨false, 0⟩
  worker := .idle
  history := []

/-! ## The condition -/

/-- The worker has yet to read the word count. -/
def Starting (s : State) : Prop := s.newCommandReady = true ∨ s.worker = .execute

instance decidableStarting (s : State) : Decidable (Starting s) :=
  inferInstanceAs (Decidable (_ ∨ _))

/-- GO starts a command. -/
def Starts (s : State) (w : BitVec 16) : Prop :=
  w.getLsbD 8 = false ∧ w.getLsbD 0 = true ∧ s.rdy = true ∧
    Function.ofBits (w >>> 1 &&& 3).toNat ≠ .nop

instance decidableStarts (s : State) (w : BitVec 16) : Decidable (Starts s w) :=
  inferInstanceAs (Decidable (_ ∧ _ ∧ _ ∧ _))

def Careful (s : State) : Action → Prop
  -- a command has a word count, and follows when the worker is done with the last one
  | .writeDCS w =>
    (Starts s w → s.worker = .idle ∧ s.wc ≠ 0) ∧ (w.getLsbD 8 = true → ¬ Starting s)
  | .writeWC w => Starting s → w ≠ 0
  | .initAsserted => ¬ Starting s
  | _ => True

instance decidableCareful (s : State) : (a : Action) → Decidable (Careful s a)
  | .writeDCS _ => inferInstanceAs (Decidable (_ ∧ _))
  | .writeWC _ => inferInstanceAs (Decidable (_ → _))
  | .initAsserted => inferInstanceAs (Decidable (¬ _))
  | .writeCMA _ | .writeDAE _ | .initNegated | .accept | .execute _ | .dmaComplete _ | .afterDMA
  | .finish => .isTrue trivial

/-! ## The invariant -/

structure Inv (space : ℕ) (s : State) : Prop where
  calls : CallsInSpace space s.history
  alive : s.worker ≠ .dead
  count : Starting s → s.wc ≠ 0
  pending : s.newCommandReady = true → s.worker = .idle

variable {space : ℕ} {s : State}

theorem wordCount_pos (h : s.wc ≠ 0) : 0 < s.transfer.wordCount := by
  have hzero : s.wc.toNat ≠ 0 := fun hz => h (BitVec.eq_of_toNat_eq hz)
  have hlt := s.wc.isLt
  show 0 < (~~~s.wc + 1).toNat
  rw [BitVec.toNat_add, BitVec.toNat_not]
  show 0 < (2 ^ 16 - 1 - s.wc.toNat + 1) % 2 ^ 16
  omega

/-- A step of the worker. It has read the word count. -/
theorem Inv.work {t : State} (h : Inv space s) (hw : s.worker ≠ .idle)
    (hcalls : CallsInSpace space t.history) (halive : t.worker ≠ .dead)
    (hread : t.worker ≠ .execute) (hnew : t.newCommandReady = s.newCommandReady) :
    Inv space t := by
  have hnone : t.newCommandReady ≠ true :=
    fun hn => absurd (h.pending (hnew.symm.trans hn)) hw
  refine ⟨hcalls, halive, fun hstarting => ?_, fun hn => absurd hn hnone⟩
  cases hstarting with
  | inl hn => exact absurd hn hnone
  | inr he => exact absurd he hread

/-- INIT and DISK_CLEAR, after the word count was read. -/
theorem Inv.reset {t : State} (h : Inv space s) (hstarting : ¬ Starting s)
    (hcalls : CallsInSpace space t.history) (hw : t.worker = s.worker)
    (hnew : t.newCommandReady = s.newCommandReady) : Inv space t := by
  refine ⟨hcalls, by rw [hw]; exact h.alive, fun hstart => ?_, fun hn => ?_⟩
  · unfold Starting at hstart
    rw [hw, hnew] at hstart
    exact absurd hstart hstarting
  · rw [hw]
    exact h.pending (hnew.symm.trans hn)

/-- The address is checked before `DMA()` is called: it is enough that there is a word. -/
theorem inv_dma (h : Inv space s) (hw : s.worker = .execute) (cycle : Cycle) :
    Inv space (dma space s cycle) := by
  have hbusy : s.worker ≠ .idle := by rw [hw]; nofun
  have hpos := wordCount_pos (h.count (.inr hw))
  unfold dma
  dsimp only
  split
  · exact h.work hbusy h.calls nofun nofun rfl
  · rename_i hle
    have hspace : DmaCall.InSpace space
        ⟨cycle, s.transfer.currentAddress, s.transfer.wordCount, s.transfer.wordCount⟩ := by
      refine ⟨hpos, ?_, le_refl _⟩
      show s.transfer.currentAddress + 2 * s.transfer.wordCount ≤ space
      omega
    rw [if_neg (not_not.mpr hspace.asserted)]
    split
    · exact h.work hbusy (h.calls.call hspace) nofun nofun rfl
    · exact h.work hbusy (h.calls.call hspace) nofun nofun rfl

theorem inv_execute (h : Inv space s) (hw : s.worker = .execute) (read : Bool) :
    Inv space (execute space s read) := by
  have hbusy : s.worker ≠ .idle := by rw [hw]; nofun
  have hned : Inv space (notRead s) := h.work hbusy h.calls nofun nofun rfl
  unfold execute
  split
  · split
    · exact inv_dma h hw .dato
    · exact hned
  · split
    · exact inv_dma h hw .dati
    · exact hned
  · exact inv_dma h hw .dati

/-- An address out of the address space is reported, and `DMA()` is not called. -/
theorem dma_outOfSpace
    (h : s.transfer.currentAddress + 2 * s.transfer.wordCount > space) (cycle : Cycle) :
    dma space s cycle = { s with nem := true, worker := .finish s.transfer } :=
  if_pos (by omega)

theorem execute_outOfSpace
    (h : s.transfer.currentAddress + 2 * s.transfer.wordCount > space) :
    (execute space s true).nem = true ∧ (execute space s true).history = s.history := by
  unfold execute
  simp only [if_true]
  split
  all_goals
    rw [dma_outOfSpace h]
    exact ⟨rfl, rfl⟩

theorem inv_writeDCS (h : Inv space s) (w : BitVec 16) (ha : Careful s (.writeDCS w)) :
    Inv space (writeDCS s w) := by
  obtain ⟨hgo, hclear⟩ := ha
  unfold writeDCS
  dsimp only
  split
  · rename_i hbit
    exact h.reset (hclear hbit) (h.calls.cons trivial) rfl rfl
  · rename_i hbit
    split
    · rename_i hcommand
      obtain ⟨hidle, hcount⟩ := hgo ⟨Bool.eq_false_iff.mpr hbit, hcommand⟩
      exact ⟨h.calls, h.alive, fun _ => hcount, fun _ => hidle⟩
    · exact ⟨h.calls, h.alive, h.count, h.pending⟩

/-- INIT changes. It cancels the request that the worker waits for. -/
theorem inv_cancelRequests (h : Inv space s) (line : Bool) :
    Inv space { s.cancelRequests with lineINIT := line } := by
  unfold State.cancelRequests
  split
  · rename_i hw
    exact h.work (by rw [hw]; nofun) h.calls nofun nofun rfl
  · exact ⟨h.calls, h.alive, h.count, h.pending⟩

theorem inv_finish {p : Transfer} (h : Inv space s) (hw : s.worker = .finish p) :
    Inv space (finish s p) := by
  have hnew : s.newCommandReady = false := by
    cases hn : s.newCommandReady with
    | false => rfl
    | true => exact absurd (hw.symm.trans (h.pending hn)) nofun
  refine ⟨h.calls, nofun, fun hstarting => ?_, fun _ => rfl⟩
  cases hstarting with
  | inl hn => exact absurd (hnew.symm.trans hn) nofun
  | inr he => nomatch he

theorem inv_step {t : State} {a : Action} (h : Inv space s) (ha : Careful s a)
    (hstep : step space s a = some t) : Inv space t := by
  cases a with
  | writeDCS w =>
    obtain rfl := Option.some.inj hstep
    exact inv_writeDCS h w ha
  | writeWC w =>
    obtain rfl := Option.some.inj hstep
    exact ⟨h.calls, h.alive, ha, h.pending⟩
  | writeCMA w =>
    obtain rfl := Option.some.inj hstep
    exact ⟨h.calls, h.alive, h.count, h.pending⟩
  | writeDAE w =>
    obtain rfl := Option.some.inj hstep
    exact ⟨h.calls, h.alive, h.count, h.pending⟩
  | initAsserted =>
    simp only [step, Option.ite_none_right_eq_some] at hstep
    obtain rfl := Option.some.inj hstep.2
    have hreset : Inv space s.resetController := h.reset ha (h.calls.cons trivial) rfl rfl
    exact inv_cancelRequests hreset true
  | initNegated =>
    simp only [step, Option.ite_none_right_eq_some] at hstep
    obtain rfl := Option.some.inj hstep.2
    exact inv_cancelRequests h false
  | accept =>
    simp only [step, Option.ite_none_right_eq_some] at hstep
    obtain ⟨⟨-, hnew⟩, hstep⟩ := hstep
    obtain rfl := Option.some.inj hstep
    exact ⟨h.calls, nofun, fun _ => h.count (.inl hnew), nofun⟩
  | execute read =>
    simp only [step, Option.ite_none_right_eq_some] at hstep
    obtain rfl := Option.some.inj hstep.2
    exact inv_execute h hstep.1 read
  | dmaComplete words =>
    simp only [step] at hstep
    split at hstep
    · rename_i hw
      rw [Option.ite_none_right_eq_some] at hstep
      obtain rfl := Option.some.inj hstep.2
      exact h.work (by rw [hw]; nofun) h.calls nofun nofun rfl
    · nomatch hstep
  | afterDMA =>
    simp only [step] at hstep
    split at hstep
    · rename_i hw
      obtain rfl := Option.some.inj hstep
      exact h.work (by rw [hw]; nofun) (h.calls.cons trivial) nofun nofun rfl
    · nomatch hstep
  | finish =>
    simp only [step] at hstep
    split at hstep
    · rename_i hw
      obtain rfl := Option.some.inj hstep
      exact inv_finish h hw
    · nomatch hstep

/-- The runs of careful steps. -/
def CarefulRun (space : ℕ) : State → Prop :=
  Transition.Reachable (· = .initial) fun s t => ∃ a, Careful s a ∧ step space s a = some t

theorem CarefulRun.inv (h : CarefulRun space s) : Inv space s := by
  apply Transition.Reachable.invariant _ _ h
  · intro s hs
    rw [hs]
    refine ⟨callsInSpace_nil _, nofun, fun hstarting => ?_, nofun⟩
    cases hstarting with
    | inl hn => nomatch hn
    | inr he => nomatch he
  · rintro s t hs ⟨a, ha, hstep⟩
    exact inv_step hs ha hstep

end QUniBone.RF11
