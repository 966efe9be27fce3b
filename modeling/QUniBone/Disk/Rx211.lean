import QUniBone.Disk.Dma
import QUniBone.Lib.Span
import QUniBone.Lib.Transition

/-!
# RX211 and RXV21

`RX211_c` as far as it leads to `DMA()`. The host selects a function in RX2CS and then writes word
count and bus address to RX2DB, one after the other. With the address the worker is woken. What
the micro CPU does is left out: an action carries its signals.

* `State`, `Action`, `step`: the registers, the protocol of RX2DB and the worker.
* `Careful`: the word count is not 0 and the buffer lies in the address space.
* `CarefulRun.inv`: then no call leaves the address space.
-/

namespace QUniBone.RX211

open Disk

/-- `RX11_CMD_*`. `other`: the functions without DMA. -/
inductive Function
  | fillBuffer
  | emptyBuffer
  | readErrorCode
  | other
  deriving DecidableEq

/-- RX2CS bits 1 to 3 -/
def Function.ofBits : ℕ → Function
  | 0 => .fillBuffer
  | 1 => .emptyBuffer
  | 7 => .readErrorCode
  | _ => .other

/-- `state_enum` -/
inductive Phase
  | base
  | waitRx2wc
  | waitRx2ba
  | dmaBusy
  deriving DecidableEq

inductive Worker
  | waiting
  | signalled
  | transfer (d : DmaCall)
  | transferred
  /-- an assertion has failed -/
  | dead
  deriving DecidableEq

structure State where
  state : Phase
  functionSelect : Function
  functionDensity : Bool
  extendedAddress : ℕ
  rx2ba : ℕ
  rx2wc : ℕ
  dmaFunctionWordCount : ℕ
  errorDmaNxm : Bool
  lineINIT : Bool
  dmaRequest : DmaRequest
  worker : Worker
  history : List Event

namespace State

def log (s : State) (e : Event) : State := { s with history := e :: s.history }

def fail (s : State) : State := { s.log .failed with worker := .dead }

def busAddr (s : State) : ℕ := s.extendedAddress * 2 ^ 16 + s.rx2ba

/-- `reset()` -/
def reset (s : State) : State :=
  { s.log .reset with
    state := .base
    extendedAddress := 0
    rx2ba := 0
    rx2wc := 0
    errorDmaNxm := false }

/-- `rx2wc_overflow_error()`: `get_transfer_byte_count()` is a number of bytes. -/
def overflowError (s : State) : Bool := s.rx2wc > if s.functionDensity then 256 else 128

/-- The requests of the table are completed without success. -/
def cancelRequests (s : State) : State :=
  match s.worker with
  | .transfer _ => { s with worker := .transferred, dmaRequest := s.dmaRequest.cancelled }
  | _ => s

end State

inductive Action
  /-- DATO to RX2CS. `done`: `signal_done` of the micro CPU -/
  | writeRX2CS (w : BitVec 16) (done : Bool)
  | writeRX2DB (w : BitVec 16)
  | initAsserted
  | initNegated
  /-- the worker wakes up -/
  | wake
  /-- the adapter completes the request after so many words -/
  | dmaComplete (words : ℕ)
  | afterDMA

def writeRX2CS (s : State) (w : BitVec 16) (done : Bool) : State :=
  let t := { s with
    functionSelect := .ofBits (w >>> 1 &&& 7).toNat
    functionDensity := w.getLsbD 8
    extendedAddress := (w >>> 12 &&& 3).toNat }
  if w.getLsbD 14 = false ∧ done = true ∧ w.getLsbD 0 = true then
    match t.functionSelect with
    | .other => t -- `uCPU->go()`
    | .readErrorCode =>
      { t with errorDmaNxm := false, dmaFunctionWordCount := 4, state := .waitRx2ba }
    | _ => { t with errorDmaNxm := false, state := .waitRx2wc }
  else t

def writeRX2DB (s : State) (w : BitVec 16) : State :=
  match s.state with
  | .base => s -- goes to the micro CPU
  | .waitRx2wc =>
    let wc := (w &&& 0xff).toNat
    { s with dmaFunctionWordCount := wc, rx2wc := wc, state := .waitRx2ba }
  | .waitRx2ba => { s with rx2ba := w.toNat, state := .dmaBusy, worker :=
      if s.worker = .waiting then .signalled else s.worker }
  | .dmaBusy => s.fail

/-- words of `dma_buffer` -/
def bufferWords : ℕ := 256

/-- `DMA()`. Called during INIT it returns at once and leaves the result of the last call. -/
def callDMA (space : ℕ) (s : State) (cycle : Cycle) : State :=
  let d : DmaCall := ⟨cycle, s.busAddr, s.dmaFunctionWordCount, bufferWords⟩
  let called := s.log (.called d)
  if ¬ d.Asserted space then called.fail
  else if s.lineINIT then { called with worker := .transferred }
  else { called with worker := .transfer d, dmaRequest := .scheduled }

/-- The `switch (function_select)` of `worker()`. -/
def serve (space : ℕ) (s : State) : State :=
  match s.functionSelect with
  | .emptyBuffer =>
    if s.overflowError then { s with state := .base, worker := .waiting }
    else callDMA space s .dato
  | .fillBuffer =>
    if s.overflowError then { s with state := .base, worker := .waiting }
    else callDMA space s .dati
  | .readErrorCode => callDMA space s .dato
  | .other => s.fail

/-- `new_rx2wc`, in 16 bits -/
def State.newRx2wc (s : State) : ℕ :=
  (((s.rx2wc : ℤ) - ((s.dmaRequest.endAddr : ℤ) - s.busAddr) % 2 ^ 32 / 2 - 1) % 2 ^ 16).toNat

def afterDMA (s : State) : State :=
  { s.log (.returned s.dmaRequest.success s.dmaRequest.success) with
    rx2wc := if s.functionSelect = .readErrorCode then s.rx2wc else s.newRx2wc
    errorDmaNxm := !s.dmaRequest.success
    state := .base
    worker := .waiting }

def step (space : ℕ) (s : State) : Action → Option State
  | .writeRX2CS w done => some (writeRX2CS s w done)
  | .writeRX2DB w => some (writeRX2DB s w)
  | .initAsserted =>
    if s.lineINIT = false then some { s.cancelRequests with lineINIT := true } else none
  | .initNegated =>
    if s.lineINIT = true then some { s.reset.cancelRequests with lineINIT := false } else none
  | .wake =>
    if s.worker ≠ .signalled then none
    else if s.state ≠ .dmaBusy then some { s with worker := .waiting }
    else some (serve space s)
  | .dmaComplete words =>
    match s.worker with
    | .transfer d =>
      if words ≤ d.wordcount then
        some { s with worker := .transferred, dmaRequest := .completed d words }
      else none
    | _ => none
  | .afterDMA => if s.worker = .transferred then some (afterDMA s) else none

def State.initial : State where
  state := .base
  functionSelect := .fillBuffer
  functionDensity := false
  extendedAddress := 0
  rx2ba := 0
  rx2wc := 0
  dmaFunctionWordCount := 0
  errorDmaNxm := false
  lineINIT := false
  dmaRequest := ⟨false, 0⟩
  worker := .waiting
  history := []

/-! ## The condition -/

def Careful (space : ℕ) (s : State) : Action → Prop
  -- RX2CS is left alone while the transfer runs
  | .writeRX2CS _ _ => s.state ≠ .dmaBusy
  | .writeRX2DB w =>
    s.state ≠ .dmaBusy ∧
    (s.state = .waitRx2wc → w &&& 0xff ≠ 0) ∧
    (s.state = .waitRx2ba → s.functionSelect ≠ .other ∧
      s.extendedAddress * 2 ^ 16 + w.toNat + 2 * s.dmaFunctionWordCount ≤ space)
  | _ => True

instance decidableCareful (space : ℕ) (s : State) : (a : Action) → Decidable (Careful space s a)
  | .writeRX2CS _ _ => inferInstanceAs (Decidable (_ ≠ _))
  | .writeRX2DB _ => inferInstanceAs (Decidable (_ ∧ _ ∧ _))
  | .initAsserted | .initNegated | .wake | .dmaComplete _ | .afterDMA => .isTrue trivial

/-! ## The invariant -/

/-- What RX2DB was given so far. -/
def PhaseOk (space : ℕ) (s : State) : Phase → Prop
  | .base | .waitRx2wc => True
  | .waitRx2ba => 1 ≤ s.dmaFunctionWordCount ∧ s.dmaFunctionWordCount ≤ bufferWords
  | .dmaBusy =>
    1 ≤ s.dmaFunctionWordCount ∧ s.dmaFunctionWordCount ≤ bufferWords ∧
      s.functionSelect ≠ .other ∧ s.busAddr + 2 * s.dmaFunctionWordCount ≤ space

structure Inv (space : ℕ) (s : State) : Prop where
  calls : CallsInSpace space s.history
  phase : PhaseOk space s s.state

variable {space : ℕ} {s : State}

theorem inv_writeRX2CS (h : Inv space s) (hs : s.state ≠ .dmaBusy) (w : BitVec 16)
    (done : Bool) : Inv space (writeRX2CS s w done) := by
  unfold writeRX2CS
  dsimp only
  -- without GO the phase stays
  have hstay : PhaseOk space { s with
      functionSelect := .ofBits (w >>> 1 &&& 7).toNat
      functionDensity := w.getLsbD 8
      extendedAddress := (w >>> 12 &&& 3).toNat } s.state := by
    have hphase := h.phase
    cases hstate : s.state with
    | base | waitRx2wc => trivial
    | waitRx2ba =>
      rw [hstate] at hphase
      exact hphase
    | dmaBusy => exact absurd hstate hs
  split
  · split
    · exact ⟨h.calls, hstay⟩
    · exact ⟨h.calls, by show 1 ≤ 4; omega, by show 4 ≤ bufferWords; unfold bufferWords; omega⟩
    · exact ⟨h.calls, trivial⟩
  · exact ⟨h.calls, hstay⟩

theorem inv_writeRX2DB (h : Inv space s) (w : BitVec 16)
    (ha : Careful space s (.writeRX2DB w)) : Inv space (writeRX2DB s w) := by
  obtain ⟨hbusy, hwc, hba⟩ := ha
  have hphase := h.phase
  unfold writeRX2DB
  split
  · exact h
  · rename_i hstate
    have hle : (w &&& 0xff).toNat ≤ 0xff := by
      rw [BitVec.toNat_and]
      exact Nat.and_le_right
    have hpos : (w &&& 0xff).toNat ≠ 0 := by
      intro hzero
      exact hwc hstate (BitVec.eq_of_toNat_eq hzero)
    refine ⟨h.calls, ?_, ?_⟩
    · show 1 ≤ (w &&& 0xff).toNat
      omega
    · show (w &&& 0xff).toNat ≤ bufferWords
      unfold bufferWords
      omega
  · rename_i hstate
    rw [hstate] at hphase
    obtain ⟨hfunction, hspace⟩ := hba hstate
    exact ⟨h.calls, hphase.1, hphase.2, hfunction, hspace⟩
  · rename_i hstate
    exact absurd hstate hbusy

theorem inv_callDMA (h : Inv space s) (hs : s.state = .dmaBusy) (cycle : Cycle) :
    Inv space (callDMA space s cycle) := by
  have hphase := h.phase
  rw [hs] at hphase
  obtain ⟨hpos, hle, hfunction, hend⟩ := id hphase
  have hspace : DmaCall.InSpace space
      ⟨cycle, s.busAddr, s.dmaFunctionWordCount, bufferWords⟩ := ⟨hpos, hend, hle⟩
  unfold callDMA
  dsimp only
  rw [if_neg (not_not.mpr hspace.asserted)]
  have hcalled := h.calls.call hspace
  split
  · exact ⟨hcalled, by show PhaseOk space _ s.state; rw [hs]; exact hphase⟩
  · exact ⟨hcalled, by show PhaseOk space _ s.state; rw [hs]; exact hphase⟩

theorem inv_serve (h : Inv space s) (hs : s.state = .dmaBusy) : Inv space (serve space s) := by
  have hphase := h.phase
  rw [hs] at hphase
  unfold serve
  split
  · split
    · exact ⟨h.calls, trivial⟩
    · exact inv_callDMA h hs .dato
  · split
    · exact ⟨h.calls, trivial⟩
    · exact inv_callDMA h hs .dati
  · exact inv_callDMA h hs .dato
  · rename_i hother
    exact absurd hother hphase.2.2.1

/-- `cancelRequests` is about the worker alone. -/
theorem inv_cancelRequests (h : Inv space s) (i : Bool) :
    Inv space { s.cancelRequests with lineINIT := i } := by
  obtain ⟨hcalls, hphase⟩ := h
  unfold State.cancelRequests
  split
  · refine ⟨hcalls, ?_⟩
    show PhaseOk space _ s.state
    cases hs : s.state <;> rw [hs] at hphase <;> exact hphase
  · refine ⟨hcalls, ?_⟩
    show PhaseOk space _ s.state
    cases hs : s.state <;> rw [hs] at hphase <;> exact hphase

theorem inv_step {t : State} {a : Action} (h : Inv space s) (ha : Careful space s a)
    (hstep : step space s a = some t) : Inv space t := by
  cases a with
  | writeRX2CS w done =>
    obtain rfl := Option.some.inj hstep
    exact inv_writeRX2CS h ha w done
  | writeRX2DB w =>
    obtain rfl := Option.some.inj hstep
    exact inv_writeRX2DB h w ha
  | initAsserted =>
    simp only [step, Option.ite_none_right_eq_some] at hstep
    obtain rfl := Option.some.inj hstep.2
    exact inv_cancelRequests h true
  | initNegated =>
    simp only [step, Option.ite_none_right_eq_some] at hstep
    obtain rfl := Option.some.inj hstep.2
    have hreset : Inv space s.reset := ⟨h.calls.cons trivial, trivial⟩
    exact inv_cancelRequests hreset false
  | wake =>
    simp only [step] at hstep
    split at hstep
    · nomatch hstep
    · split at hstep
      · obtain rfl := Option.some.inj hstep
        refine ⟨h.calls, ?_⟩
        have hphase := h.phase
        show PhaseOk space _ s.state
        cases hs : s.state <;> rw [hs] at hphase <;> exact hphase
      · rename_i hbusy
        obtain rfl := Option.some.inj hstep
        exact inv_serve h (not_not.mp hbusy)
  | dmaComplete words =>
    simp only [step] at hstep
    split at hstep
    · rw [Option.ite_none_right_eq_some] at hstep
      obtain rfl := Option.some.inj hstep.2
      refine ⟨h.calls, ?_⟩
      have hphase := h.phase
      show PhaseOk space _ s.state
      cases hs : s.state <;> rw [hs] at hphase <;> exact hphase
    · nomatch hstep
  | afterDMA =>
    simp only [step, Option.ite_none_right_eq_some] at hstep
    obtain rfl := Option.some.inj hstep.2
    exact ⟨h.calls.cons trivial, trivial⟩

/-- The runs of careful steps. -/
def CarefulRun (space : ℕ) : State → Prop :=
  Transition.Reachable (· = .initial) fun s t => ∃ a, Careful space s a ∧ step space s a = some t

theorem CarefulRun.inv (h : CarefulRun space s) : Inv space s := by
  apply Transition.Reachable.invariant _ _ h
  · intro s hs
    rw [hs]
    exact ⟨callsInSpace_nil _, trivial⟩
  · rintro s t hs ⟨a, ha, hstep⟩
    exact inv_step hs ha hstep

end QUniBone.RX211
