import QUniBone.Lib.Transition
import QUniBone.PruQ.ClientRound

/-!
# Grants on the QBUS

The main loop of the QBone, over any samples of the bus and any commands that a device gives.
A `Watch` remembers from outside what has been requested, passed on and accepted, and which
grant has to be acted upon.

* `Watched.main`: a step of the main loop, watched.
* `GrantProtocol`: what a step may do with grants.
* `Orderly`: a condition on the bus and on the time of the commands.
* `qbusGrants_of_orderly`: the steps keep to the protocol under this condition.
-/

namespace QUniBone.PruQ

open PriorityArbitration Transition
open PruU (Lines)

/-! ## The watch -/

/-- What has happened to requests and grants. -/
structure Watch where
  /-- requested by ARM, and since then not served, cancelled or dropped by INIT -/
  requested : Byte
  /-- passed on, while GRANT IN stays asserted -/
  passed : Byte
  /-- accepted and still to be acted upon, with no INIT since -/
  pending : Byte
  /-- the vector has been sent for it -/
  answered : Bool

/-- A PRU with its watch. -/
structure Watched where
  pru : Pru
  watch : Watch

namespace Watched

open Pru

/-- Whether a step samples GRANT IN. -/
def samples (w : Watched) : Prop := w.pru.phase = .arbitrate

instance (w : Watched) : Decidable w.samples := inferInstanceAs (Decidable (_ = _))

/-- The grants that a step accepts: the check for grants is left. -/
def accepts (w : Watched) (l : Lines) : Byte :=
  if w.pru.arb.state = .grantCheck ∧ (w.pru.mainStep l).arb.state ≠ .grantCheck then
    (w.pru.mainStep l).arb.deviceGrantMask
  else 0

/-- Whether a step sends a vector, ends an interrupt acknowledge, starts the DMA machine. -/
def vectors (w : Watched) (l : Lines) : Prop :=
  w.pru.arb.state = .intrVector ∧ (w.pru.mainStep l).arb.state = .intrComplete

instance (w : Watched) (l : Lines) : Decidable (w.vectors l) :=
  inferInstanceAs (Decidable (_ ∧ _))

def completes (w : Watched) (l : Lines) : Prop :=
  w.pru.arb.state = .intrComplete ∧ (w.pru.mainStep l).arb.state = .grantCheck

instance (w : Watched) (l : Lines) : Decidable (w.completes l) :=
  inferInstanceAs (Decidable (_ ∧ _))

def starts (w : Watched) (l : Lines) : Prop :=
  w.pru.master = none ∧ (w.pru.mainStep l).master ≠ none

instance (w : Watched) (l : Lines) : Decidable (w.starts l) :=
  inferInstanceAs (Decidable (_ ∧ _))

/-- The grant that a step has to act upon. -/
def due (w : Watched) (l : Lines) : Byte := requestsLeft l w.watch.pending

/-- What the watch has seen after a step. -/
def nextWatch (w : Watched) (l : Lines) : Watch :=
  match w.pru.phase with
  | .slave => w.watch
  | .arbitrate =>
    { requested := requestsLeft l w.watch.requested &&&
        ~~~(if w.starts l then bitNp else if w.vectors l then w.due l else 0)
      passed := (w.watch.passed ||| (w.pru.mainStep l).grantOut) &&& grantIn l
      pending :=
        if w.accepts l ≠ 0 then w.accepts l
        else if w.starts l ∨ w.completes l then 0
        else w.due l
      answered := decide (w.vectors l ∨ w.watch.answered = true ∧ ¬ w.completes l) }
  | .command =>
    { w.watch with requested := requestsAfter w.pru.mailbox w.watch.requested }

/-- A step of the main loop. -/
def main (w : Watched) (l : Lines) : Watched := ⟨w.pru.mainStep l, w.nextWatch l⟩

/-- Nothing has happened yet. -/
def powerUp : Watched := ⟨Pru.powerUp, ⟨0, 0, 0, false⟩⟩

/-- The main loop steps, or ARM writes what it shares with the PRU: the mailbox with its events
and commands, the register tables and the memory. Time goes on, too. -/
inductive ClientStep (cond : Watched → Lines → Prop) : Watched → Watched → Prop
  | main {w : Watched} (l : Lines) : w.pru.ClientCommand → cond w l → ClientStep cond w (w.main l)
  | arm {w : Watched} (mailbox : Mailbox) (emulation : Emulation) (timeouts : Timeouts) :
      ClientStep cond w
        { w with pru := { w.pru with
          mailbox := mailbox, emulation := emulation, timeouts := timeouts } }

/-- The states that are reached by steps under a condition. -/
abbrev Reached (cond : Watched → Lines → Prop) : Watched → Prop :=
  Reachable (· = powerUp) (ClientStep cond)

/-! ## The protocol -/

/-- What a step of the main loop, with the bus at `l`, may do with grants. -/
structure GrantProtocol (w : Watched) (l : Lines) : Prop where
  /-- A grant that was passed on is not accepted while it stays. -/
  passed : ∀ i, w.watch.passed.getLsbD i = true → (w.samples → (grantIn l).getLsbD i = true) →
    (w.accepts l).getLsbD i = false
  /-- Only a grant that is there is accepted, for a level that is requested at that moment. -/
  requested : ∀ i, (w.accepts l).getLsbD i = true →
    (grantIn l).getLsbD i = true ∧ initLine l = false ∧ w.watch.requested.getLsbD i = true
  /-- DMR is asserted for the DMG that is accepted. -/
  dmr : (w.accepts l).getLsbD 4 = true → (w.pru.mainStep l).dmr = true
  /-- One grant is accepted at a time. -/
  single : w.accepts l ≠ 0 →
    (∃ n < 5, w.accepts l = bit n) ∧ w.watch.pending = 0 ∧ w.pru.master = none
  /-- The DMA machine starts for an accepted DMG with SACK, and that serves the request. -/
  dma : w.starts l → w.due l = bitNp ∧ (w.pru.mainStep l).master = some .start ∧
    (w.pru.mainStep l).sack = true ∧ w.watch.requested.getLsbD 4 = true ∧
    (w.pru.mainStep l).arb.deviceRequestMask.getLsbD 4 = false
  /-- SACK is asserted for no other reason. -/
  sack : (w.pru.mainStep l).sack = true → w.pru.sack = true ∨ w.starts l
  /-- The vector is that of the granted level, and only its request is cleared. -/
  vector : w.vectors l → ∃ n < 4, w.due l = bit n ∧ w.watch.answered = false ∧
    (w.pru.mainStep l).dal = w.pru.mailbox.intr.vector n ∧ (w.pru.mainStep l).rply = true ∧
    (w.pru.mainStep l).arb.deviceRequestMask =
      requestsLeft l w.pru.arb.deviceRequestMask &&& ~~~bit n
  /-- The acknowledge ends with the event of the granted level. -/
  complete : w.completes l → ∃ n < 4, w.due l = bit n ∧ w.watch.answered = true ∧
    (w.pru.mainStep l).dal = 0 ∧ (w.pru.mainStep l).rply = false ∧
    (w.pru.mainStep l).mailbox.events.intrMaster =
      Function.update w.pru.mailbox.events.intrMaster n
        (w.pru.mailbox.events.intrMaster n).signal
  /-- No other event of an interrupt. -/
  events : ¬ w.completes l →
    (w.pru.mainStep l).mailbox.events.intrMaster = w.pru.mailbox.events.intrMaster
  /-- The arbitration puts nothing else onto the data lines. -/
  silent : w.samples → ¬ w.vectors l → ¬ w.completes l →
    (w.pru.mainStep l).dal = w.pru.dal ∧ (w.pru.mainStep l).rply = w.pru.rply
  /-- What is due is done when the bus is ready for it. -/
  served : w.samples → w.pru.registerEventAcked = true → w.due l ≠ 0 →
    (w.due l = bitNp → syncLine l = false → rplyLine l = false → w.starts l) ∧
    (w.due l ≠ bitNp → w.watch.answered = false → dinLine l = true → w.vectors l) ∧
    (w.due l ≠ bitNp → w.watch.answered = true → iakLine l = false → w.completes l)

/-! ## Orderly runs -/

/-- What a step relies on when it samples GRANT IN. -/
structure Orderly (w : Watched) (l : Lines) : Prop where
  /-- No request that was signalled is there for a grant that was passed on before. -/
  passed : w.samples → w.pru.registerEventAcked = true → w.pru.arb.state = .grantCheck →
    ∀ i, w.watch.passed.getLsbD i = true → (grantIn l &&&
      requestsLeft l w.pru.arb.deviceRequestMask &&&
        w.pru.arb.deviceRequestSignalledMask).getLsbD i = false
  /-- Not two of our requests are granted at once. -/
  single : w.samples → w.pru.registerEventAcked = true → w.pru.arb.state = .grantCheck →
    SingleGrant (grantIn l &&& requestsLeft l w.pru.arb.deviceRequestMask &&&
      w.pru.arb.deviceRequestSignalledMask)
  /-- There is no INIT while an accepted grant is acted upon. -/
  init : w.samples → w.pru.arb.state ≠ .grantCheck → initLine l = false
  /-- DMR is not asserted when an interrupt acknowledge ends. -/
  complete : w.samples → w.pru.registerEventAcked = true → w.pru.arb.state = .intrComplete →
    iakLine l = false → w.pru.arb.deviceRequestSignalledMask &&& bitNp = 0

/-! ## Invariant -/

/-- The pending grant, by the state of the arbitration. -/
def PendingIn (w : Watched) : Prop :=
  match w.pru.arb.state with
  | .grantCheck => w.watch.pending = 0
  | .dmaGrantRplySyncWait => w.watch.pending = bitNp ∧ w.watch.requested.getLsbD 4 = true
  | .intrVector => ∃ n < 4, w.watch.pending = bit n ∧ w.pru.arb.deviceGrantMask = bit n
  | .intrComplete => ∃ n < 4, w.watch.pending = bit n ∧ w.pru.arb.intrLevelIndex = n
  | .noop => False

/-- The masks of the PRU agree with what has been seen. -/
structure Inv (w : Watched) : Prop where
  requested : w.watch.requested = w.pru.arb.deviceRequestMask
  pending : w.PendingIn
  answered : w.watch.answered = decide (w.pru.arb.state = .intrComplete)
  cached : w.pru.CachedRequests
  idle : w.samples → w.pru.master = none

theorem Inv.powerUp : Inv powerUp := ⟨rfl, rfl, rfl, rfl, fun _ => rfl⟩

theorem Inv.state {w : Watched} (hi : Inv w) : w.pru.arb.state ≠ .noop := by
  intro hc
  have hp := hi.pending
  rw [PendingIn, hc] at hp
  exact hp

/-! ## Steps outside of the arbitration -/

/-- Nothing is sampled, nothing of the arbitration is written but requests. -/
structure Quiet (s t : Pru) : Prop where
  phase : s.phase ≠ .arbitrate
  state : t.arb.state = s.arb.state
  grant : t.arb.deviceGrantMask = s.arb.deviceGrantMask
  level : t.arb.intrLevelIndex = s.arb.intrLevelIndex
  sack : t.sack = true → s.sack = true
  intrMaster : t.mailbox.events.intrMaster = s.mailbox.events.intrMaster
  idle : s.master = none → t.master = none
  cached : s.CachedRequests → t.CachedRequests

theorem Quiet.accepts {w : Watched} {l : Lines} (h : Quiet w.pru (w.pru.mainStep l)) :
    w.accepts l = 0 := by
  unfold Watched.accepts
  rw [h.state]
  exact if_neg fun hc => hc.2 hc.1

theorem Quiet.not_vectors {w : Watched} {l : Lines} (h : Quiet w.pru (w.pru.mainStep l)) :
    ¬ w.vectors l := by
  rintro ⟨hvector, hcomplete⟩
  rw [h.state, hvector] at hcomplete
  cases hcomplete

theorem Quiet.not_completes {w : Watched} {l : Lines} (h : Quiet w.pru (w.pru.mainStep l)) :
    ¬ w.completes l := by
  rintro ⟨hcomplete, hcheck⟩
  rw [h.state, hcomplete] at hcheck
  cases hcheck

theorem Quiet.protocol {w : Watched} {l : Lines} (h : Quiet w.pru (w.pru.mainStep l)) :
    GrantProtocol w l := by
  have hnone (i : ℕ) : ¬ (w.accepts l).getLsbD i = true := by simp [h.accepts]
  constructor
  · intro i _ _
    exact Bool.eq_false_iff.mpr (hnone i)
  · intro i hc
    exact absurd hc (hnone i)
  · intro hc
    exact absurd hc (hnone 4)
  · intro hc
    exact absurd h.accepts hc
  · intro hc
    exact absurd (h.idle hc.1) hc.2
  · intro hsack
    exact Or.inl (h.sack hsack)
  · intro hc
    exact absurd hc h.not_vectors
  · intro hc
    exact absurd hc h.not_completes
  · intro _
    exact h.intrMaster
  · intro hc
    exact absurd hc h.phase
  · intro hc
    exact absurd hc h.phase

/-- A quiet step keeps the invariant, if the watch sees the requests change. -/
theorem Quiet.inv {w : Watched} {l : Lines} (h : Quiet w.pru (w.pru.mainStep l)) (hi : Inv w)
    (hidle : (w.pru.mainStep l).phase = .arbitrate → (w.pru.mainStep l).master = none)
    (hwatch : w.nextWatch l = { w.watch with requested := (w.nextWatch l).requested })
    (hrequested : (w.nextWatch l).requested = (w.pru.mainStep l).arb.deviceRequestMask)
    (hdmr : w.watch.requested.getLsbD 4 = true → (w.nextWatch l).requested.getLsbD 4 = true) :
    Inv (w.main l) := by
  refine ⟨hrequested, ?_, ?_, h.cached hi.cached, hidle⟩
  · have hpending := hi.pending
    unfold PendingIn at hpending ⊢
    have hstate : (w.main l).pru.arb.state = w.pru.arb.state := h.state
    have hgrant : (w.main l).pru.arb.deviceGrantMask = w.pru.arb.deviceGrantMask := h.grant
    have hlevel : (w.main l).pru.arb.intrLevelIndex = w.pru.arb.intrLevelIndex := h.level
    have hsame : (w.main l).watch.pending = w.watch.pending := by
      rw [main, hwatch]
    rw [hstate, hgrant, hlevel, hsame]
    cases hs : w.pru.arb.state with
    | dmaGrantRplySyncWait =>
      rw [hs] at hpending
      exact ⟨hpending.1, hdmr hpending.2⟩
    | _ =>
      rw [hs] at hpending
      exact hpending
  · show (w.nextWatch l).answered = decide ((w.pru.mainStep l).arb.state = .intrComplete)
    rw [hwatch, h.state]
    exact hi.answered

theorem slave_step {w : Watched} (hi : Inv w) (l : Lines) (hphase : w.pru.phase = .slave) :
    Quiet w.pru (w.pru.mainStep l) ∧ Inv (w.main l) := by
  have hwatch : w.nextWatch l = w.watch := by rw [nextWatch, hphase]
  suffices h : Quiet w.pru (w.pru.mainStep l) ∧ (w.pru.mainStep l).arb = w.pru.arb ∧
      ((w.pru.mainStep l).phase = .arbitrate → (w.pru.mainStep l).master = none) by
    obtain ⟨hquiet, harb, hidle⟩ := h
    refine ⟨hquiet, hquiet.inv hi hidle (by rw [hwatch]) ?_ (by rw [hwatch]; exact id)⟩
    rw [hwatch, harb]
    exact hi.requested
  cases hm : w.pru.master with
  | none =>
    have h := smDataSlave_keeps l w.pru w.pru.slave.state
    have hstep : w.pru.mainStep l = w.pru.slaveStep l := by rw [mainStep, hphase, hm]
    rw [hstep]
    unfold slaveStep
    generalize w.pru.smDataSlave l w.pru.slave.state = r at h
    obtain ⟨result, u⟩ := r
    have hmaster : u.master = none := h.master.trans hm
    cases result with
    | next st =>
      exact ⟨⟨by rw [hphase]; decide, congrArg _ h.arb, congrArg _ h.arb, congrArg _ h.arb,
        h.sack hi.cached, h.intrMaster, fun _ => hmaster, h.cached⟩, h.arb, fun _ => hmaster⟩
    | ret st =>
      exact ⟨⟨by rw [hphase]; decide, congrArg _ h.arb, congrArg _ h.arb, congrArg _ h.arb,
        h.sack hi.cached, h.intrMaster, fun _ => hmaster, h.cached⟩, h.arb, fun _ => hmaster⟩
  | some st =>
    have h := smDma_keeps l w.pru st
    have hstep : w.pru.mainStep l =
        { (w.pru.smDma l st).2 with master := (w.pru.smDma l st).1, phase := .command } := by
      rw [mainStep, hphase, hm]
    rw [hstep]
    refine ⟨⟨by rw [hphase]; decide, congrArg _ h.arb, congrArg _ h.arb, congrArg _ h.arb,
      h.sack hi.cached, h.intrMaster, fun hc => ?_, h.cached⟩, h.arb, fun hc => ?_⟩
    · rw [hm] at hc
      cases hc
    · cases hc

/-- DMR stays requested: only interrupt requests are cancelled. -/
theorem requestsAfter_np {s : Pru} (hc : s.ClientCommand) {requests : Byte}
    (h : requests.getLsbD 4 = true) : (requestsAfter s.mailbox requests).getLsbD 4 = true := by
  unfold ClientCommand at hc
  unfold requestsAfter
  cases hreq : s.mailbox.arm2pruReq with
  | dma => simp [h]
  | intr => simp [h]
  | intrCancel =>
    rw [hreq] at hc
    dsimp only at hc ⊢
    rw [BitVec.getLsbD_and, BitVec.getLsbD_not, h, hc]
    rfl
  | _ => exact h

/-- A command of ARM. -/
theorem command_step {w : Watched} (hi : Inv w) (l : Lines) (hphase : w.pru.phase = .command)
    (hc : w.pru.ClientCommand) : Quiet w.pru (w.pru.mainStep l) ∧ Inv (w.main l) := by
  have h := arm2pru_spec l w.pru hc
  have hstep : w.pru.mainStep l = { (w.pru.arm2pru l).acknowledge with phase := .slave } := by
    rw [mainStep, hphase]
  have hquiet : Quiet w.pru (w.pru.mainStep l) := by
    rw [hstep]
    exact ⟨by rw [hphase]; decide, h.state, h.grant, h.level,
      fun hsack => h.silent.sack.symm.trans hsack, h.silent.intrMaster, h.silent.master.trans,
      h.cached⟩
  have hwatch : w.nextWatch l = { w.watch with
      requested := requestsAfter w.pru.mailbox w.watch.requested } := by
    rw [nextWatch, hphase]
  refine ⟨hquiet, hquiet.inv hi (fun hc => ?_) (by rw [hwatch]) ?_ ?_⟩
  · rw [hstep] at hc
    cases hc
  · rw [hwatch, hstep, hi.requested]
    exact h.request.symm
  · intro hnp
    rw [hwatch]
    exact requestsAfter_np hc hnp

/-! ## Rounds of the arbitration -/

/-- INIT does not drop what is due in an orderly round. -/
theorem due_eq {w : Watched} (hi : Inv w) {l : Lines} (hs : w.samples) (ho : Orderly w l) :
    w.due l = w.watch.pending := by
  by_cases hstate : w.pru.arb.state = .grantCheck
  · have hpending := hi.pending
    rw [PendingIn, hstate] at hpending
    have hzero : w.watch.pending = 0 := hpending
    rw [due, requestsLeft, hzero, ite_self]
  · rw [due, requestsLeft, ho.init hs hstate]
    rfl

theorem requestsLeft_eq {w : Watched} {l : Lines} (hs : w.samples) (ho : Orderly w l)
    (hstate : w.pru.arb.state ≠ .grantCheck) (requests : Byte) :
    requestsLeft l requests = requests := by
  rw [requestsLeft, ho.init hs hstate]
  rfl

theorem acceptable_eq (s : Pru) (l : Lines) :
    s.acceptable l = grantIn l &&& requestsLeft l s.arb.deviceRequestMask &&&
      s.arb.deviceRequestSignalledMask :=
  accepted_eq _ _ _

theorem bit2idx_bit {n : ℕ} (hn : n < 4) : bit2idx (bit n) = n := by
  interval_cases n <;> rfl

theorem grantState_bit {n : ℕ} (hn : n < 4) : grantState (bit n) = .intrVector := by
  interval_cases n <;> rfl

theorem bit_ne_bitNp {n : ℕ} (hn : n < 4) : bit n ≠ bitNp := by
  interval_cases n <;> decide

theorem bit_getLsbD_seven {n : ℕ} (hn : n < 4) : (bit n).getLsbD 7 = false := by
  interval_cases n <;> rfl

/-- A round, with what the state of the arbitration tells about the pending grant. -/
structure Sampled (w : Watched) (l : Lines) : Prop where
  inv : Inv w
  samples : w.samples
  orderly : Orderly w l
  round : Round l w.pru (w.pru.mainStep l)
  phase : (w.pru.mainStep l).phase = .command
  cached : (w.pru.mainStep l).CachedRequests

namespace Sampled

variable {w : Watched} {l : Lines}

theorem master (h : Sampled w l) : w.pru.master = none := h.inv.idle h.samples

/-- The watch after a round. -/
theorem nextWatch (h : Sampled w l) : w.nextWatch l = {
    requested := requestsLeft l w.watch.requested &&&
      ~~~(if w.starts l then bitNp else if w.vectors l then w.due l else 0)
    passed := (w.watch.passed ||| (w.pru.mainStep l).grantOut) &&& grantIn l
    pending :=
      if w.accepts l ≠ 0 then w.accepts l
      else if w.starts l ∨ w.completes l then 0
      else w.due l
    answered := decide (w.vectors l ∨ w.watch.answered = true ∧ ¬ w.completes l) } := by
  rw [Watched.nextWatch, h.samples]

theorem idle (h : Sampled w l) :
    (w.main l).samples → (w.main l).pru.master = none := fun hc => by
  have hphase : (w.main l).pru.phase = .command := h.phase
  rw [Watched.samples, hphase] at hc
  cases hc

/-- Nothing happens. -/
theorem nothing (h : Sampled w l) (hstate : (w.pru.mainStep l).arb.state = w.pru.arb.state)
    (hrequest : (w.pru.mainStep l).arb.deviceRequestMask =
      requestsLeft l w.pru.arb.deviceRequestMask)
    (hgrant : w.pru.arb.state ≠ .grantCheck →
      (w.pru.mainStep l).arb.deviceGrantMask = w.pru.arb.deviceGrantMask ∧
        (w.pru.mainStep l).arb.intrLevelIndex = w.pru.arb.intrLevelIndex)
    (hwait : w.pru.registerEventAcked = true → Waits l w.pru.arb.state)
    (hsilent : Silent w.pru (w.pru.mainStep l)) : GrantProtocol w l ∧ Inv (w.main l) := by
  have haccepts : w.accepts l = 0 := by
    unfold accepts
    rw [hstate]
    exact if_neg fun hc => hc.2 hc.1
  have hnone (i : ℕ) : ¬ (w.accepts l).getLsbD i = true := by simp [haccepts]
  have hvectors : ¬ w.vectors l := by
    rintro ⟨hvector, hcomplete⟩
    rw [hstate, hvector] at hcomplete
    cases hcomplete
  have hcompletes : ¬ w.completes l := by
    rintro ⟨hcomplete, hcheck⟩
    rw [hstate, hcomplete] at hcheck
    cases hcheck
  have hstarts : ¬ w.starts l := fun hc => hc.2 (hsilent.master.trans hc.1)
  have hdue := due_eq h.inv h.samples h.orderly
  have hpending := h.inv.pending
  constructor
  · refine ⟨fun i _ _ => Bool.eq_false_iff.mpr (hnone i), fun i hc => absurd hc (hnone i),
      fun hc => absurd hc (hnone 4), fun hc => absurd haccepts hc, fun hc => absurd hc hstarts,
      fun hc => Or.inl (hsilent.sack.symm.trans hc), fun hc => absurd hc hvectors,
      fun hc => absurd hc hcompletes, fun _ => hsilent.intrMaster,
      fun _ _ _ => ⟨hsilent.dal, hsilent.rply⟩, ?_⟩
    intro _ hacked hne
    have hwaits := hwait hacked
    rw [hdue] at hne ⊢
    unfold PendingIn at hpending
    cases hs : w.pru.arb.state with
    | grantCheck =>
      rw [hs] at hpending
      exact absurd hpending hne
    | noop => exact absurd hs h.inv.state
    | dmaGrantRplySyncWait =>
      rw [hs] at hpending hwaits
      refine ⟨fun _ hsync hrply => ?_, fun hc => absurd hpending.1 hc,
        fun hc => absurd hpending.1 hc⟩
      rcases hwaits with hc | hc
      · rw [hsync] at hc; cases hc
      · rw [hrply] at hc; cases hc
    | intrVector =>
      rw [hs] at hpending hwaits
      obtain ⟨n, hn, hbit, _⟩ := hpending
      have hanswered : w.watch.answered = false := by rw [h.inv.answered, hs]; rfl
      refine ⟨fun hc => absurd (hbit.symm.trans hc) (bit_ne_bitNp hn), fun _ _ hc => ?_,
        fun _ hc => ?_⟩
      · rw [show dinLine l = false from hwaits] at hc; cases hc
      · rw [hanswered] at hc; cases hc
    | intrComplete =>
      rw [hs] at hpending hwaits
      obtain ⟨n, hn, hbit, _⟩ := hpending
      have hanswered : w.watch.answered = true := by rw [h.inv.answered, hs]; rfl
      refine ⟨fun hc => absurd (hbit.symm.trans hc) (bit_ne_bitNp hn), fun _ hc => ?_,
        fun _ _ hc => ?_⟩
      · rw [hanswered] at hc; cases hc
      · rw [show iakLine l = true from hwaits] at hc; cases hc
  · have hwatch : w.nextWatch l = {
        requested := requestsLeft l w.watch.requested
        passed := (w.watch.passed ||| (w.pru.mainStep l).grantOut) &&& grantIn l
        pending := w.watch.pending
        answered := w.watch.answered } := by
      rw [h.nextWatch, if_neg hstarts, if_neg hvectors, and_not_zero,
        if_neg (not_not.mpr haccepts), if_neg (not_or.mpr ⟨hstarts, hcompletes⟩), hdue]
      simp [hvectors, hcompletes]
    have hstate' : (w.main l).pru.arb.state = w.pru.arb.state := hstate
    refine ⟨?_, ?_, ?_, h.cached, h.idle⟩
    · show (w.nextWatch l).requested = _
      rw [hwatch, h.inv.requested]
      exact hrequest.symm
    · unfold PendingIn at hpending ⊢
      rw [hstate', main, hwatch]
      cases hs : w.pru.arb.state with
      | grantCheck =>
        rw [hs] at hpending
        exact hpending
      | noop => exact absurd hs h.inv.state
      | dmaGrantRplySyncWait =>
        rw [hs] at hpending
        dsimp only
        rw [requestsLeft_eq h.samples h.orderly (by rw [hs]; decide)]
        exact hpending
      | intrVector =>
        rw [hs] at hpending hgrant
        dsimp only
        rw [(hgrant (by decide)).1]
        exact hpending
      | intrComplete =>
        rw [hs] at hpending hgrant
        dsimp only
        rw [(hgrant (by decide)).2]
        exact hpending
    · show (w.nextWatch l).answered = decide ((w.pru.mainStep l).arb.state = .intrComplete)
      rw [hwatch, hstate]
      exact h.inv.answered

/-- A state of the arbitration that is not the check for grants accepts nothing. -/
theorem accepts_zero (hstate : w.pru.arb.state ≠ .grantCheck) : w.accepts l = 0 :=
  if_neg fun hc => hstate hc.1

theorem not_vectors (hstate : w.pru.arb.state ≠ .intrVector) : ¬ w.vectors l :=
  fun hc => hstate hc.1

theorem not_completes (hstate : w.pru.arb.state ≠ .intrComplete) : ¬ w.completes l :=
  fun hc => hstate hc.1

/-- A grant is accepted. -/
theorem accept (h : Sampled w l) (hacked : w.pru.registerEventAcked = true)
    (hcheck : w.pru.arb.state = .grantCheck)
    (hstate : (w.pru.mainStep l).arb.state = grantState (w.pru.acceptable l))
    (hne : (w.pru.mainStep l).arb.state ≠ .grantCheck)
    (hrequest : (w.pru.mainStep l).arb.deviceRequestMask =
      requestsLeft l w.pru.arb.deviceRequestMask)
    (hgrant : (w.pru.mainStep l).arb.deviceGrantMask = w.pru.acceptable l)
    (hdmr : w.pru.acceptable l &&& bitNp ≠ 0 → (w.pru.mainStep l).dmr = true)
    (hsilent : Silent w.pru (w.pru.mainStep l)) : GrantProtocol w l ∧ Inv (w.main l) := by
  have hsingle := h.orderly.single h.samples hacked hcheck
  rw [← acceptable_eq] at hsingle
  obtain ⟨n, hn, hbit⟩ := hsingle.resolve_left fun hc => by
    rw [hstate, hc] at hne
    exact hne rfl
  have haccepts : w.accepts l = bit n := by
    rw [Watched.accepts, if_pos ⟨hcheck, hne⟩, hgrant, hbit]
  have hzero : w.watch.pending = 0 := by
    have hpending := h.inv.pending
    rw [PendingIn, hcheck] at hpending
    exact hpending
  have hdue : w.due l = 0 := (due_eq h.inv h.samples h.orderly).trans hzero
  have hvectors : ¬ w.vectors l := not_vectors (by rw [hcheck]; decide)
  have hcompletes : ¬ w.completes l := not_completes (by rw [hcheck]; decide)
  have hstarts : ¬ w.starts l := fun hc => hc.2 (hsilent.master.trans hc.1)
  have hbits : ∀ i, (w.accepts l).getLsbD i = true → (grantIn l).getLsbD i = true ∧
      initLine l = false ∧ w.watch.requested.getLsbD i = true := by
    intro i hi
    rw [haccepts, ← hbit, acceptable_eq, BitVec.getLsbD_and, BitVec.getLsbD_and, Bool.and_eq_true,
      Bool.and_eq_true] at hi
    obtain ⟨⟨hin, hleft⟩, _⟩ := hi
    unfold requestsLeft at hleft
    split at hleft
    · simp at hleft
    · next hinit => exact ⟨hin, Bool.eq_false_iff.mpr hinit, by rw [h.inv.requested]; exact hleft⟩
  have hwatch : w.nextWatch l = {
      requested := requestsLeft l w.watch.requested
      passed := (w.watch.passed ||| (w.pru.mainStep l).grantOut) &&& grantIn l
      pending := bit n
      answered := w.watch.answered } := by
    rw [h.nextWatch, if_neg hstarts, if_neg hvectors, and_not_zero,
      if_pos (by rw [haccepts]; exact bit_ne_zero hn), haccepts]
    simp [hvectors, hcompletes]
  constructor
  · refine ⟨fun i hpassed _ => ?_, hbits, fun hc => hdmr ?_, fun _ => ⟨⟨n, hn, haccepts⟩, hzero,
      h.master⟩, fun hc => absurd hc hstarts, fun hc => Or.inl (hsilent.sack.symm.trans hc),
      fun hc => absurd hc hvectors, fun hc => absurd hc hcompletes, fun _ => hsilent.intrMaster,
      fun _ _ _ => ⟨hsilent.dal, hsilent.rply⟩, fun _ _ hc => absurd hdue hc⟩
    · rw [haccepts, ← hbit, acceptable_eq]
      exact h.orderly.passed h.samples hacked hcheck i hpassed
    · rw [and_bitNp_ne_zero, hbit, ← haccepts]
      exact hc
  · have hstate' : (w.main l).pru.arb.state = grantState (bit n) := by
      rw [← hbit]
      exact hstate
    refine ⟨?_, ?_, ?_, h.cached, h.idle⟩
    · show (w.nextWatch l).requested = _
      rw [hwatch, h.inv.requested]
      exact hrequest.symm
    · unfold PendingIn
      rw [hstate', main, hwatch]
      by_cases h4 : n < 4
      · rw [grantState_bit h4]
        exact ⟨n, h4, rfl, hgrant.trans hbit⟩
      · obtain rfl : n = 4 := by omega
        obtain ⟨_, hinit, hrequested⟩ := hbits 4 (by rw [haccepts]; rfl)
        refine ⟨rfl, ?_⟩
        dsimp only
        rw [requestsLeft, hinit]
        exact hrequested
    · show (w.nextWatch l).answered = decide ((w.pru.mainStep l).arb.state = .intrComplete)
      rw [hwatch]
      refine h.inv.answered.trans ?_
      rw [hcheck, hstate, grantState]
      split_ifs <;> rfl

/-- The DMA machine starts. -/
theorem dma (h : Sampled w l) (hwait : w.pru.arb.state = .dmaGrantRplySyncWait)
    (hstate : (w.pru.mainStep l).arb.state = .grantCheck)
    (hrequest : (w.pru.mainStep l).arb.deviceRequestMask =
      requestsLeft l w.pru.arb.deviceRequestMask &&& ~~~bitNp)
    (hmaster : (w.pru.mainStep l).master = some .start)
    (hsack : (w.pru.mainStep l).sack = true) (hdal : (w.pru.mainStep l).dal = w.pru.dal)
    (hrply : (w.pru.mainStep l).rply = w.pru.rply)
    (hevents : (w.pru.mainStep l).mailbox.events.intrMaster =
      w.pru.mailbox.events.intrMaster) : GrantProtocol w l ∧ Inv (w.main l) := by
  have haccepts : w.accepts l = 0 := accepts_zero (by rw [hwait]; decide)
  have hnone (i : ℕ) : ¬ (w.accepts l).getLsbD i = true := by simp [haccepts]
  have hvectors : ¬ w.vectors l := not_vectors (by rw [hwait]; decide)
  have hcompletes : ¬ w.completes l := not_completes (by rw [hwait]; decide)
  have hstarts : w.starts l := ⟨h.master, by rw [hmaster]; exact Option.some_ne_none _⟩
  have hpending : w.watch.pending = bitNp ∧ w.watch.requested.getLsbD 4 = true := by
    have hp := h.inv.pending
    rw [PendingIn, hwait] at hp
    exact hp
  have hdue : w.due l = bitNp := (due_eq h.inv h.samples h.orderly).trans hpending.1
  have hanswered : w.watch.answered = false := by rw [h.inv.answered, hwait]; rfl
  have hwatch : w.nextWatch l = {
      requested := requestsLeft l w.watch.requested &&& ~~~bitNp
      passed := (w.watch.passed ||| (w.pru.mainStep l).grantOut) &&& grantIn l
      pending := 0
      answered := false } := by
    rw [h.nextWatch, if_pos hstarts, if_neg (not_not.mpr haccepts), if_pos (Or.inl hstarts),
      hanswered]
    simp [hvectors]
  constructor
  · refine ⟨fun i _ _ => Bool.eq_false_iff.mpr (hnone i), fun i hc => absurd hc (hnone i),
      fun hc => absurd hc (hnone 4), fun hc => absurd haccepts hc,
      fun _ => ⟨hdue, hmaster, hsack, hpending.2, ?_⟩, fun _ => Or.inr hstarts,
      fun hc => absurd hc hvectors, fun hc => absurd hc hcompletes, fun _ => hevents,
      fun _ _ _ => ⟨hdal, hrply⟩, fun _ _ _ => ⟨fun _ _ _ => hstarts,
      fun hc => absurd hdue hc, fun hc => absurd hdue hc⟩⟩
    rw [hrequest, BitVec.getLsbD_and, show (~~~bitNp).getLsbD 4 = false from rfl, Bool.and_false]
  · have hstate' : (w.main l).pru.arb.state = .grantCheck := hstate
    refine ⟨?_, ?_, ?_, h.cached, h.idle⟩
    · show (w.nextWatch l).requested = _
      rw [hwatch, h.inv.requested]
      exact hrequest.symm
    · rw [PendingIn, hstate', main, hwatch]
    · show (w.nextWatch l).answered = decide ((w.pru.mainStep l).arb.state = .intrComplete)
      rw [hwatch, hstate]
      rfl

/-- A vector is sent. -/
theorem vector (h : Sampled w l) {idx : ℕ} (hvector : w.pru.arb.state = .intrVector)
    (hstate : (w.pru.mainStep l).arb.state = .intrComplete)
    (hidx : idx = bit2idx w.pru.arb.deviceGrantMask)
    (hlevel : (w.pru.mainStep l).arb.intrLevelIndex = idx)
    (hrequest : (w.pru.mainStep l).arb.deviceRequestMask =
      requestsLeft l w.pru.arb.deviceRequestMask &&& ~~~w.pru.arb.deviceGrantMask)
    (hdal : (w.pru.mainStep l).dal = w.pru.mailbox.intr.vector idx)
    (hrply : (w.pru.mainStep l).rply = true)
    (hsack : w.pru.arb.deviceGrantMask.getLsbD 7 = false →
      (w.pru.mainStep l).sack = w.pru.sack)
    (hmaster : (w.pru.mainStep l).master = w.pru.master)
    (hevents : (w.pru.mainStep l).mailbox.events.intrMaster =
      w.pru.mailbox.events.intrMaster) : GrantProtocol w l ∧ Inv (w.main l) := by
  have haccepts : w.accepts l = 0 := accepts_zero (by rw [hvector]; decide)
  have hnone (i : ℕ) : ¬ (w.accepts l).getLsbD i = true := by simp [haccepts]
  have hvectors : w.vectors l := ⟨hvector, hstate⟩
  have hcompletes : ¬ w.completes l := not_completes (by rw [hvector]; decide)
  have hstarts : ¬ w.starts l := fun hc => hc.2 (hmaster.trans hc.1)
  obtain ⟨n, hn, hpending, hgrant⟩ : ∃ n < 4, w.watch.pending = bit n ∧
      w.pru.arb.deviceGrantMask = bit n := by
    have hp := h.inv.pending
    rw [PendingIn, hvector] at hp
    exact hp
  have hdue : w.due l = bit n := (due_eq h.inv h.samples h.orderly).trans hpending
  have hanswered : w.watch.answered = false := by rw [h.inv.answered, hvector]; rfl
  rw [hgrant] at hidx hrequest
  rw [bit2idx_bit hn] at hidx
  subst hidx
  have hwatch : w.nextWatch l = {
      requested := requestsLeft l w.watch.requested &&& ~~~bit idx
      passed := (w.watch.passed ||| (w.pru.mainStep l).grantOut) &&& grantIn l
      pending := bit idx
      answered := true } := by
    rw [h.nextWatch, if_neg hstarts, if_pos hvectors, if_neg (not_not.mpr haccepts),
      if_neg (not_or.mpr ⟨hstarts, hcompletes⟩), hdue]
    simp [hvectors]
  constructor
  · exact ⟨fun i _ _ => Bool.eq_false_iff.mpr (hnone i), fun i hc => absurd hc (hnone i),
      fun hc => absurd hc (hnone 4), fun hc => absurd haccepts hc, fun hc => absurd hc hstarts,
      fun hc => Or.inl ((hsack (by rw [hgrant]; exact bit_getLsbD_seven hn)).symm.trans hc),
      fun _ => ⟨idx, hn, hdue, hanswered, hdal, hrply, hrequest⟩, fun hc => absurd hc hcompletes,
      fun _ => hevents, fun _ hc => absurd hvectors hc,
      fun _ _ _ => ⟨fun hc => absurd (hdue.symm.trans hc) (bit_ne_bitNp hn),
        fun _ _ _ => hvectors, fun _ hc => absurd (hanswered.symm.trans hc) (by decide)⟩⟩
  · have hstate' : (w.main l).pru.arb.state = .intrComplete := hstate
    refine ⟨?_, ?_, ?_, h.cached, h.idle⟩
    · show (w.nextWatch l).requested = _
      rw [hwatch, h.inv.requested]
      exact hrequest.symm
    · rw [PendingIn, hstate', main, hwatch]
      exact ⟨idx, hn, rfl, hlevel⟩
    · show (w.nextWatch l).answered = decide ((w.pru.mainStep l).arb.state = .intrComplete)
      rw [hwatch, hstate]
      rfl

/-- An interrupt acknowledge ends. -/
theorem complete (h : Sampled w l) {idx : ℕ} (hacked : w.pru.registerEventAcked = true)
    (hcomplete : w.pru.arb.state = .intrComplete)
    (hstate : (w.pru.mainStep l).arb.state = .grantCheck) (hiak : iakLine l = false)
    (hidx : idx = w.pru.arb.intrLevelIndex)
    (hrequest : (w.pru.mainStep l).arb.deviceRequestMask =
      requestsLeft l w.pru.arb.deviceRequestMask)
    (hdal : (w.pru.mainStep l).dal = 0) (hrply : (w.pru.mainStep l).rply = false)
    (hsack : (w.pru.mainStep l).sack = w.pru.sack)
    (hmaster : (w.pru.mainStep l).master =
      if w.pru.arb.deviceRequestSignalledMask &&& bitNp ≠ 0 then some .start else w.pru.master)
    (hevents : (w.pru.mainStep l).mailbox.events.intrMaster =
      Function.update w.pru.mailbox.events.intrMaster idx
        (w.pru.mailbox.events.intrMaster idx).signal) : GrantProtocol w l ∧ Inv (w.main l) := by
  have haccepts : w.accepts l = 0 := accepts_zero (by rw [hcomplete]; decide)
  have hnone (i : ℕ) : ¬ (w.accepts l).getLsbD i = true := by simp [haccepts]
  have hvectors : ¬ w.vectors l := not_vectors (by rw [hcomplete]; decide)
  have hcompletes : w.completes l := ⟨hcomplete, hstate⟩
  -- The mask that is returned must not look like a DMA grant.
  have hnp := h.orderly.complete h.samples hacked hcomplete hiak
  rw [if_neg (not_not.mpr hnp)] at hmaster
  have hstarts : ¬ w.starts l := fun hc => hc.2 (hmaster.trans hc.1)
  obtain ⟨n, hn, hpending, hlevel⟩ : ∃ n < 4, w.watch.pending = bit n ∧
      w.pru.arb.intrLevelIndex = n := by
    have hp := h.inv.pending
    rw [PendingIn, hcomplete] at hp
    exact hp
  have hdue : w.due l = bit n := (due_eq h.inv h.samples h.orderly).trans hpending
  have hanswered : w.watch.answered = true := by rw [h.inv.answered, hcomplete]; rfl
  rw [hlevel] at hidx
  subst hidx
  have hwatch : w.nextWatch l = {
      requested := requestsLeft l w.watch.requested
      passed := (w.watch.passed ||| (w.pru.mainStep l).grantOut) &&& grantIn l
      pending := 0
      answered := false } := by
    rw [h.nextWatch, if_neg hstarts, if_neg hvectors, and_not_zero,
      if_neg (not_not.mpr haccepts), if_pos (Or.inr hcompletes)]
    simp [hvectors, hcompletes]
  constructor
  · exact ⟨fun i _ _ => Bool.eq_false_iff.mpr (hnone i), fun i hc => absurd hc (hnone i),
      fun hc => absurd hc (hnone 4), fun hc => absurd haccepts hc, fun hc => absurd hc hstarts,
      fun hc => Or.inl (hsack.symm.trans hc), fun hc => absurd hc hvectors,
      fun _ => ⟨idx, hn, hdue, hanswered, hdal, hrply, hevents⟩,
      fun hc => absurd hcompletes hc, fun _ _ hc => absurd hcompletes hc,
      fun _ _ _ => ⟨fun hc => absurd (hdue.symm.trans hc) (bit_ne_bitNp hn),
        fun _ hc => absurd (hanswered.symm.trans hc) (by decide), fun _ _ _ => hcompletes⟩⟩
  · have hstate' : (w.main l).pru.arb.state = .grantCheck := hstate
    refine ⟨?_, ?_, ?_, h.cached, h.idle⟩
    · show (w.nextWatch l).requested = _
      rw [hwatch, h.inv.requested]
      exact hrequest.symm
    · rw [PendingIn, hstate', main, hwatch]
    · show (w.nextWatch l).answered = decide ((w.pru.mainStep l).arb.state = .intrComplete)
      rw [hwatch, hstate]
      rfl

end Sampled

/-- The request register is written by `setbits` only. -/
theorem arbitrate_cached (l : Lines) (s : Pru) (hstate : s.arb.state ≠ .noop)
    (hc : s.CachedRequests) : (s.arbitrate l).CachedRequests := by
  have hcached := (forwardGrants_spec l s).cached hc
  have hsame : ((s.smInitializationFunc l).forwardGrants (grantIn l)).arb.state ≠ .noop := by
    rw [(forwardGrants_spec l s).arb]
    exact hstate
  rw [arbitrate]
  dsimp only
  rw [← grantIn]
  generalize (s.smInitializationFunc l).forwardGrants (grantIn l) = u at hcached hsame
  have hkeeps := Keeps.refl u
  split
  · rw [startMaster_eq]
    show (u.smArbWorkerDevice l (grantIn l)).2.CachedRequests
    unfold smArbWorkerDevice
    cases hu : u.arb.state with
    | grantCheck => exact rfl
    | dmaGrantRplySyncWait =>
      show (u.dmaGrantRplySyncWait l).2.CachedRequests
      unfold dmaGrantRplySyncWait
      split
      · exact hcached
      · exact rfl
    | intrVector =>
      show (u.intrVector l).2.CachedRequests
      unfold intrVector
      split
      · exact hcached
      · exact rfl
    | intrComplete =>
      show (u.intrComplete l).2.CachedRequests
      unfold intrComplete
      split
      · exact hcached
      · exact (((hkeeps.setbits _ _ (by decide)).setbyte _ (by decide)).setbyte _
          (by decide)).cached hcached
    | noop => exact absurd hu hsame
  · exact hcached

/-- A round of the arbitration. -/
theorem arbitrate_step {w : Watched} (hi : Inv w) (l : Lines) (hs : w.samples)
    (ho : Orderly w l) : GrantProtocol w l ∧ Inv (w.main l) := by
  have hstep : w.pru.mainStep l = { w.pru.arbitrate l with phase := .command } := by
    rw [mainStep, hs]
  have hround : Round l w.pru (w.pru.mainStep l) := by
    rw [hstep]
    exact (arbitrate_round l w.pru hi.state hi.cached).with_phase .command
  have h : Sampled w l := by
    refine ⟨hi, hs, ho, hround, by rw [hstep], ?_⟩
    rw [hstep]
    exact arbitrate_cached l w.pru hi.state hi.cached
  cases hround with
  | nothing hstate hrequest hgrant hwait hsilent =>
    exact h.nothing hstate hrequest hgrant hwait hsilent
  | accept hacked hcheck hstate hne hrequest hgrant hdmr hsilent =>
    exact h.accept hacked hcheck hstate hne hrequest hgrant hdmr hsilent
  | dma hwait hstate hrequest hmaster hsack _ hdal hrply hevents =>
    exact h.dma hwait hstate hrequest hmaster hsack hdal hrply hevents
  | vector idx hvector hstate hidx hlevel _ hrequest hdal hrply hsack hmaster hevents =>
    exact h.vector hvector hstate hidx hlevel hrequest hdal hrply hsack hmaster hevents
  | complete idx hacked hcomplete hstate hiak hidx hrequest hdal hrply hsack hmaster hevents =>
    exact h.complete hacked hcomplete hstate hiak hidx hrequest hdal hrply hsack hmaster hevents

/-! ## All runs -/

theorem Reached.inv {w : Watched} (h : Reached Orderly w) : Inv w := by
  refine Reachable.invariant (I := Inv) ?_ ?_ h
  · rintro _ rfl
    exact Inv.powerUp
  · intro w _ hi hstep
    cases hstep with
    | main l hc ho =>
      cases hphase : w.pru.phase with
      | slave => exact (slave_step hi l hphase).2
      | arbitrate => exact (arbitrate_step hi l hphase ho).2
      | command => exact (command_step hi l hphase hc).2
    | arm mailbox emulation timeouts =>
      exact ⟨hi.requested, hi.pending, hi.answered, hi.cached, hi.idle⟩

/-- In every run whose steps are orderly, every step keeps to the protocol of the grants. -/
theorem qbusGrants_of_orderly (w : Watched) (h : Reached Orderly w) (l : Lines)
    (hc : w.pru.ClientCommand) (ho : Orderly w l) : GrantProtocol w l := by
  have hi := Reached.inv h
  cases hphase : w.pru.phase with
  | slave => exact (slave_step hi l hphase).1.protocol
  | arbitrate => exact (arbitrate_step hi l hphase ho).1
  | command => exact (command_step hi l hphase hc).1.protocol

/-! ## Runs -/

/-- A bus with a grant asserted, with an interrupt acknowledge, and an idle one. -/
def grantLines (grant : Byte) : Lines := fun reg _ => if reg = 7 then grant else 0

def acknowledgeLines (grant : Byte) : Lines :=
  fun reg _ => if reg = 7 then grant else if reg = 6 then bit 5 else if reg = 4 then bit 1 else 0

def idleLines : Lines := fun _ _ => 0

/-- ARM gives a command. -/
def ask (w : Watched) (req : Arm2Pru) : Watched :=
  { w with pru := { w.pru with mailbox := { w.pru.mailbox with
    arm2pruReq := req
    intr := { w.pru.mailbox.intr with priorityArbitrationBit := bit 0 } } } }

theorem Reached.ask {cond : Watched → Lines → Prop} {w : Watched} (h : Reached cond w)
    (req : Arm2Pru) : Reached cond (w.ask req) :=
  h.step (.arm { w.pru.mailbox with
    arm2pruReq := req
    intr := { w.pru.mailbox.intr with priorityArbitrationBit := bit 0 } }
    w.pru.emulation w.pru.timeouts)

/-- A round of the main loop, up to the next arbitration. -/
def roundFrom (w : Watched) (l : Lines) : Watched := ((w.main l).main l).main l

/-- DMR is on the lines, the arbitration of the next round is due. -/
def signalled : Watched := (((powerUp.ask .dma).main idleLines).roundFrom idleLines).roundFrom
  idleLines

theorem orderly_idleLines {w : Watched} (h : w.pru.arb.state = .grantCheck) :
    Orderly w idleLines := by
  have hnone (x y : Byte) : grantIn idleLines &&& x &&& y = 0 := by
    rw [show grantIn idleLines = 0#8 from rfl, BitVec.zero_and, BitVec.zero_and]
    rfl
  refine ⟨fun _ _ _ i _ => ?_, fun _ _ _ => Or.inl (hnone _ _), fun _ hc => absurd h hc,
    fun _ _ hc => ?_⟩
  · rw [hnone, getLsbD_zero]
  · rw [h] at hc
    cases hc

theorem signalled_reached : Reached Orderly signalled := by
  have hidle {w : Watched} (h : Reached Orderly w) (hc : w.pru.ClientCommand)
      (hs : w.pru.arb.state = .grantCheck) : Reached Orderly (w.main idleLines) :=
    h.step (.main idleLines hc (orderly_idleLines hs))
  have hask : Reached Orderly (powerUp.ask .dma) := Reached.ask (.init rfl) .dma
  exact hidle (hidle (hidle (hidle (hidle (hidle (hidle hask rfl rfl) rfl rfl) rfl rfl) trivial
    rfl) trivial rfl) trivial rfl) trivial rfl

theorem orderly_signalled : Orderly signalled (grantLines bitNp) := by
  refine ⟨fun _ _ _ i hc => ?_, fun _ _ _ => Or.inr ⟨4, by decide, by decide⟩,
    fun _ _ => rfl, fun _ _ hc => ?_⟩
  · rw [show signalled.watch.passed = 0 from by decide, getLsbD_zero] at hc
    cases hc
  · cases hc

theorem qbusGrants_signalled : signalled.accepts (grantLines bitNp) = bitNp ∧
    GrantProtocol signalled (grantLines bitNp) :=
  ⟨by decide, qbusGrants_of_orderly signalled signalled_reached (grantLines bitNp) trivial
    orderly_signalled⟩

/-- IRQ4 and DMR are on the lines. An interrupt acknowledge has been accepted, answered with its
vector, and is at its end. -/
def bothSignalled : Watched :=
  let w := ((powerUp.ask .dma).main idleLines).roundFrom idleLines
  let w := ((w.ask .intr).roundFrom idleLines).roundFrom idleLines
  (w.roundFrom (acknowledgeLines (bit 0))).roundFrom (acknowledgeLines (bit 0))

/-- The end of an interrupt acknowledge starts a DMA transfer that has not been granted. -/
theorem intrComplete_starts_dma :
    Reached (fun _ _ => True) bothSignalled ∧ bothSignalled.pru.ClientCommand ∧
      bothSignalled.due idleLines = bit 0 ∧
      (bothSignalled.pru.mainStep idleLines).master = some .start ∧
      (bothSignalled.pru.mainStep idleLines).sack = false ∧
      ¬ GrantProtocol bothSignalled idleLines := by
  have hround {w : Watched} (h : Reached (fun _ _ => True) w) (l : Lines)
      (hc : w.pru.ClientCommand) (hc' : (w.main l).pru.ClientCommand)
      (hc'' : ((w.main l).main l).pru.ClientCommand) :
      Reached (fun _ _ => True) (w.roundFrom l) :=
    ((h.step (.main l hc trivial)).step (.main l hc' trivial)).step (.main l hc'' trivial)
  have hdma : Reached (fun _ _ => True) ((powerUp.ask .dma).main idleLines) :=
    (Reached.ask (.init rfl) .dma).step (.main idleLines rfl trivial)
  have hboth := hround (hround (Reached.ask (hround hdma idleLines rfl rfl trivial) .intr)
    idleLines rfl rfl trivial) idleLines trivial trivial trivial
  have hreached : Reached (fun _ _ => True) bothSignalled :=
    hround (hround hboth (acknowledgeLines (bit 0)) trivial trivial trivial)
      (acknowledgeLines (bit 0)) trivial trivial trivial
  have hmaster : (bothSignalled.pru.mainStep idleLines).master = some .start := by decide
  have hsack : (bothSignalled.pru.mainStep idleLines).sack = false := by decide
  refine ⟨hreached, trivial, by decide, hmaster, hsack, ?_⟩
  intro hprotocol
  have hstarts : bothSignalled.starts idleLines := by decide
  have hdma := hprotocol.dma hstarts
  rw [hsack] at hdma
  exact absurd hdma.2.2.1 (by decide)

end Watched

end QUniBone.PruQ
