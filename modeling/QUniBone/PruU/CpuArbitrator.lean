import QUniBone.Lib.Transition
import QUniBone.Pru.Grants
import QUniBone.PruU.Arbitration

/-!
# The grants of the emulated arbitrator

`sm_arb_worker_cpu` over any history of bus signals. Its branches are tried in a fixed order:
SACK, then NPR, then the interrupt requests, then the timeout of a grant that nobody answers.
So a request that stays asserted keeps the timeout from being looked at, and the grant stays.

* `GrantRules`: what a round of the arbitrator should do.
* `Masked`: a request hides that the grant has timed out.
* `grantRules_iff`: a round follows the rules iff no request does that.
-/

namespace QUniBone.PruU

open PriorityArbitration Transition

namespace Pru

/-- What the arbitrator calls its own. -/
structure SameArbitrator (s t : Pru) : Prop where
  grant : t.arb.arbitratorGrantMask = s.arb.arbitratorGrantMask
  timer : t.timeouts.target .sack = s.timeouts.target .sack
  lines : t.latch 0 = s.latch 0

/-- The arbitrator runs, is reset, or something else in PRU and ARM does. -/
inductive ArbStep : Pru → Pru → Prop
  | worker {s : Pru} (l : Lines) : ArbStep s (s.smArbWorkerCpu l).2
  | reset {s : Pru} : ArbStep s s.smArbReset
  | elsewhere {s t : Pru} : SameArbitrator s t → ArbStep s t

/-- The states of an arbitrator, whatever the bus does. -/
abbrev Arbitrating : Pru → Prop := Reachable (· = powerUp) ArbStep

/-! ## The rules -/

/-- SACK, NPR and the BR lines, as the arbitrator reads them. -/
def sackLine (l : Lines) : Bool := (l 1 0).getLsbD 5

def nprLine (l : Lines) : Bool := (l 1 0).getLsbD 4

def brLine (l : Lines) (n : ℕ) : Bool := (l 1 0).getLsbD n

/-- A grant has been made and its timer has run off. -/
def grantTimedOut (s : Pru) : Prop :=
  s.arb.arbitratorGrantMask ≠ 0 ∧ s.timeouts.reached .sack = true

instance (s : Pru) : Decidable s.grantTimedOut := inferInstanceAs (Decidable (_ ∧ _))

/-- What a round of the arbitrator, started in `s` with the bus at `l`, should do. -/
structure GrantRules (s : Pru) (l : Lines) : Prop where
  /-- At most one grant line is asserted. -/
  single : ∀ i j, (s.smArbWorkerCpu l).2.grantOut.getLsbD i = true →
    (s.smArbWorkerCpu l).2.grantOut.getLsbD j = true → i = j
  /-- A BR grant is made only when ARM asked for an arbitration, for a level that is requested
  and above the priority of the CPU, and never while this priority is invalid. -/
  brGrant : ∀ n < 4, (s.smArbWorkerCpu l).2.grantOut.getLsbD n = true →
    s.arb.arbitratorGrantMask.getLsbD n = true ∨
      (s.mailbox.arbitrator.ifsIntrArbitrationPending = true ∧ brLine l n = true ∧
        s.mailbox.arbitrator.ifsPriorityLevel.toNat < n + 4 ∧
        s.mailbox.arbitrator.ifsPriorityLevel ≠ cpuPriorityLevelFetching)
  /-- With NPR pending the next grant is NPG. -/
  nprFirst : nprLine l = true → sackLine l = false → s.arb.arbitratorGrantMask = 0 →
    (s.smArbWorkerCpu l).2.grantOut = bitNp
  /-- A grant without SACK is withdrawn once it has timed out. -/
  withdrawn : s.grantTimedOut → sackLine l = false → (s.smArbWorkerCpu l).2.grantOut = 0

/-- A grant has timed out, unanswered, and a request is asserted that the arbitrator looks at
before the timer. -/
def Masked (s : Pru) (l : Lines) : Prop :=
  s.grantTimedOut ∧ sackLine l = false ∧
    (nprLine l = true ∨ (s.mailbox.arbitrator.ifsIntrArbitrationPending = true ∧
      ∃ n < 4, brLine l n = true))

/-! ## Single grants -/

/-- The latch of GRANT OUT holds the inverted grants. -/
theorem grantOut_setbits (s : Pru) (g : Byte) :
    (s.setbits 0 bitMask (~~~g)).grantOut = g &&& bitMask := by
  simp only [grantOut, setbits, Function.update_self, QUniBone.setbits]
  apply BitVec.eq_of_getLsbD_eq
  intro i hi
  simp only [BitVec.getLsbD_and, BitVec.getLsbD_not, BitVec.getLsbD_or, hi, decide_true,
    Bool.true_and]
  cases bitMask.getLsbD i <;> simp

theorem smArbWorkerCpu_arb (l : Lines) (s : Pru) :
    (s.smArbWorkerCpu l).2.arb = (s.arbitrateRequests (l 1 0)).arb := rfl

theorem smArbWorkerCpu_grantOut (l : Lines) (s : Pru) :
    (s.smArbWorkerCpu l).2.grantOut =
      (s.arbitrateRequests (l 1 0)).arb.arbitratorGrantMask &&& bitMask :=
  grantOut_setbits _ _

/-! ## One round -/

theorem requestedIntrLevel_eq (latch1val : Byte) :
    requestedIntrLevel latch1val = BitVec.ofNat 8 (lmbd (latch1val &&& intrMask) + 4) := by
  rw [requestedIntrLevel, BitVec.ofNat_add]
  rfl

theorem lmbd_lt (mask : Byte) : lmbd mask < 4 := by
  unfold lmbd
  split_ifs <;> decide

/-- The leftmost bit of a mask that has bits is one of them. -/
theorem getLsbD_lmbd {x : Byte} (h : x &&& intrMask ≠ 0) :
    x.getLsbD (lmbd (x &&& intrMask)) = true := by
  have hbit : ∀ n < 4, (x &&& intrMask).getLsbD n = x.getLsbD n := by
    intro n hn
    rw [BitVec.getLsbD_and]
    interval_cases n <;> simp [intrMask]
  unfold lmbd
  split_ifs with h3 h2 h1
  · rwa [hbit 3 (by decide)] at h3
  · rwa [hbit 2 (by decide)] at h2
  · rwa [hbit 1 (by decide)] at h1
  · -- No other bit is set, so bit 0 must be.
    by_contra h0
    apply h
    apply BitVec.eq_of_getLsbD_eq
    intro i hi
    rw [getLsbD_zero]
    by_cases h4 : i < 4
    · interval_cases i
      · rw [hbit 0 (by decide)]
        simpa using h0
      · simpa using h1
      · simpa using h2
      · simpa using h3
    · rw [BitVec.getLsbD_and, Bool.and_eq_false_iff]
      right
      interval_cases i <;> simp_all [intrMask]

/-- The BR grant for the highest request. -/
theorem bit_requestedIntrLevel (latch1val : Byte) :
    bit (requestedIntrLevel latch1val - 4).toNat = bit (lmbd (latch1val &&& intrMask)) := by
  have hlt := lmbd_lt (latch1val &&& intrMask)
  rw [requestedIntrLevel_eq]
  generalize lmbd (latch1val &&& intrMask) = n at hlt ⊢
  interval_cases n <;> rfl

/-- How a round can go. -/
inductive Round (s : Pru) (l : Lines) : Byte → Prop
  | sack : sackLine l = true → Round s l 0
  | npr : sackLine l = false → nprLine l = true → s.arb.arbitratorGrantMask = 0 →
      Round s l bitNp
  | br : sackLine l = false → nprLine l = false →
      s.mailbox.arbitrator.ifsIntrArbitrationPending = true → s.arb.arbitratorGrantMask = 0 →
      brLine l (lmbd ((l 1 0) &&& intrMask)) = true →
      s.mailbox.arbitrator.ifsPriorityLevel.toNat < lmbd ((l 1 0) &&& intrMask) + 4 →
      Round s l (bit (lmbd ((l 1 0) &&& intrMask)))
  | timeout : sackLine l = false → nprLine l = false → s.grantTimedOut →
      ¬ (s.mailbox.arbitrator.ifsIntrArbitrationPending = true ∧ (l 1 0) &&& intrMask ≠ 0) →
      Round s l 0
  | kept : sackLine l = false → (nprLine l = true → s.arb.arbitratorGrantMask ≠ 0) →
      (s.grantTimedOut → nprLine l = true ∨
        (s.mailbox.arbitrator.ifsIntrArbitrationPending = true ∧ (l 1 0) &&& intrMask ≠ 0)) →
      Round s l s.arb.arbitratorGrantMask

theorem round_spec (s : Pru) (l : Lines) :
    Round s l (s.arbitrateRequests (l 1 0)).arb.arbitratorGrantMask := by
  unfold arbitrateRequests
  by_cases hsack : (l 1 0).getLsbD 5 = true
  · rw [if_pos hsack]
    exact .sack hsack
  rw [if_neg hsack]
  have hsack' : sackLine l = false := Bool.eq_false_iff.mpr hsack
  by_cases hnpr : (l 1 0) &&& bitNp ≠ 0
  · have hnpr' : nprLine l = true := (and_bitNp_ne_zero _).mp hnpr
    rw [if_pos hnpr]
    split
    · next hgrant => exact .npr hsack' hnpr' hgrant
    · next hgrant => exact .kept hsack' (fun _ => hgrant) fun _ => Or.inl hnpr'
  rw [if_neg hnpr]
  have hnpr' : nprLine l = false := Bool.eq_false_iff.mpr fun h =>
    hnpr ((and_bitNp_ne_zero _).mpr h)
  have hno : nprLine l = true → s.arb.arbitratorGrantMask ≠ 0 := fun h => by
    rw [hnpr'] at h
    cases h
  by_cases hintr : s.mailbox.arbitrator.ifsIntrArbitrationPending ∧ (l 1 0) &&& intrMask ≠ 0
  · rw [if_pos hintr]
    split
    · next hgrant =>
      dsimp only
      split
      · next hlevel =>
        have hpriority := hlevel.1
        show Round s l (bit (requestedIntrLevel (l 1 0) - 4).toNat)
        rw [bit_requestedIntrLevel]
        refine .br hsack' hnpr' hintr.1 hgrant (getLsbD_lmbd hintr.2) ?_
        have hlt := lmbd_lt ((l 1 0) &&& intrMask)
        rw [requestedIntrLevel_eq, gt_iff_lt, BitVec.lt_def, BitVec.toNat_ofNat,
          Nat.mod_eq_of_lt (by omega)] at hpriority
        exact hpriority
      · exact .kept hsack' hno fun _ => Or.inr hintr
    · exact .kept hsack' hno fun _ => Or.inr hintr
  rw [if_neg hintr]
  split
  · next hgrant => exact .kept hsack' hno fun h => absurd hgrant h.1
  · next hgrant =>
    split
    · next hreached => exact .timeout hsack' hnpr' ⟨hgrant, hreached⟩ hintr
    · next hreached => exact .kept hsack' hno fun h => absurd h.2 hreached

/-! ## All histories -/

/-- The arbitrator never has more than one grant. -/
theorem Arbitrating.single {s : Pru} (h : Arbitrating s) :
    SingleGrant s.arb.arbitratorGrantMask := by
  refine Reachable.invariant (I := fun s => SingleGrant s.arb.arbitratorGrantMask) ?_ ?_ h
  · rintro _ rfl
    exact Or.inl rfl
  · intro s t hs hstep
    cases hstep with
    | worker l =>
      rw [smArbWorkerCpu_arb]
      have hround := round_spec s l
      generalize (s.arbitrateRequests (l 1 0)).arb.arbitratorGrantMask = g at hround ⊢
      cases hround with
      | sack => exact Or.inl rfl
      | npr => exact Or.inr ⟨4, by decide, rfl⟩
      | br => exact Or.inr ⟨_, (lmbd_lt _).trans (by decide), rfl⟩
      | timeout => exact Or.inl rfl
      | kept => exact hs
    | reset => exact Or.inl rfl
    | elsewhere hsame =>
      rw [hsame.grant]
      exact hs

/-- A round leaves the single grant on the lines. -/
theorem Arbitrating.round {s : Pru} (h : Arbitrating s) (l : Lines) :
    SingleGrant (s.smArbWorkerCpu l).2.grantOut ∧ Round s l (s.smArbWorkerCpu l).2.grantOut := by
  have hsingle := Arbitrating.single (h.step (.worker l))
  have heq : (s.smArbWorkerCpu l).2.grantOut =
      (s.arbitrateRequests (l 1 0)).arb.arbitratorGrantMask := by
    rw [smArbWorkerCpu_grantOut, ← smArbWorkerCpu_arb l s, hsingle.and_mask]
  rw [heq]
  exact ⟨hsingle, round_spec s l⟩

theorem exists_brLine (l : Lines) :
    (l 1 0) &&& intrMask ≠ 0 ↔ ∃ n < 4, brLine l n = true := by
  constructor
  · intro h
    exact ⟨_, lmbd_lt _, getLsbD_lmbd h⟩
  · rintro ⟨n, hn, hbr⟩ hc
    have hbit : ((l 1 0) &&& intrMask).getLsbD n = true := by
      rw [BitVec.getLsbD_and, show (l 1 0).getLsbD n = true from hbr, Bool.true_and]
      interval_cases n <;> rfl
    rw [hc, getLsbD_zero] at hbit
    cases hbit

/-- In every history, a round of the arbitrator follows the rules iff no request hides a grant
that has timed out. -/
theorem grantRules_iff (s : Pru) (h : Arbitrating s) (l : Lines) :
    GrantRules s l ↔ ¬ Masked s l := by
  obtain ⟨hsingle, hround⟩ := h.round l
  constructor
  · rintro hrules ⟨htimed, hsack, hrequest⟩
    have hout := hrules.withdrawn htimed hsack
    rw [← exists_brLine] at hrequest
    -- The request leads into a branch that keeps the grant.
    generalize hg : (s.smArbWorkerCpu l).2.grantOut = g at hround
    cases hround with
    | sack hc => rw [hsack] at hc; cases hc
    | npr _ _ hgrant => exact htimed.1 hgrant
    | br _ _ _ hgrant => exact htimed.1 hgrant
    | timeout _ hnpr _ hintr =>
      rcases hrequest with hc | hc
      · rw [hnpr] at hc; cases hc
      · exact hintr hc
    | kept =>
      rw [hg] at hout
      exact htimed.1 hout
  · intro hmasked
    refine ⟨fun i j => hsingle.getLsbD_eq, ?_, ?_, ?_⟩
    · intro n hn hbit
      generalize (s.smArbWorkerCpu l).2.grantOut = g at hround hbit
      cases hround with
      | sack => rw [getLsbD_zero] at hbit; cases hbit
      | npr => rw [bitNp_getLsbD hn] at hbit; cases hbit
      | br _ _ hpending _ hline hlevel =>
        have heq := getLsbD_bit (lmbd ((l 1 0) &&& intrMask)) n ((lmbd_lt _).trans (by decide))
        rw [heq, decide_eq_true_eq] at hbit
        rw [← hbit] at hline hlevel
        refine Or.inr ⟨hpending, hline, hlevel, ?_⟩
        intro hc
        rw [hc, cpuPriorityLevelFetching] at hlevel
        change 255 < n + 4 at hlevel
        omega
      | timeout => rw [getLsbD_zero] at hbit; cases hbit
      | kept => exact Or.inl hbit
    · intro hnpr hsack hgrant
      generalize (s.smArbWorkerCpu l).2.grantOut = g at hround
      cases hround with
      | sack hc => rw [hsack] at hc; cases hc
      | npr => rfl
      | br _ hc => rw [hnpr] at hc; cases hc
      | timeout _ hc => rw [hnpr] at hc; cases hc
      | kept _ hc => exact absurd hgrant (hc hnpr)
    · intro htimed hsack
      generalize (s.smArbWorkerCpu l).2.grantOut = g at hround
      cases hround with
      | sack => rfl
      | npr _ _ hgrant => exact absurd hgrant htimed.1
      | br _ _ _ hgrant => exact absurd hgrant htimed.1
      | timeout => rfl
      | kept _ _ hkept =>
        have hrequest := hkept htimed
        rw [exists_brLine] at hrequest
        exact absurd ⟨htimed, hsack, hrequest⟩ hmasked

/-- NPR is asserted, and nothing else. -/
def nprOnly : Lines := fun reg _ => if reg = 1 then bitNp else 0

/-- The arbitrator after it has granted NPR. -/
def nprGranted : Pru := (powerUp.smArbWorkerCpu nprOnly).2

/-- The same, 50 ms later. -/
def nprUnanswered : Pru :=
  { nprGranted with timeouts := { nprGranted.timeouts with cycle := Timeouts.millisecs 50 } }

theorem grantRules_iff_nprGranted : GrantRules nprGranted nprOnly ↔ ¬ Masked nprGranted nprOnly :=
  grantRules_iff nprGranted (.step (.init rfl) (.worker nprOnly)) nprOnly

/-- A device that asserts NPR and never answers with SACK keeps its grant for good. -/
theorem unanswered_grant_kept : Arbitrating nprUnanswered ∧ nprUnanswered.grantTimedOut ∧
    sackLine nprOnly = false ∧ (nprUnanswered.smArbWorkerCpu nprOnly).2.grantOut = bitNp ∧
    ¬ GrantRules nprUnanswered nprOnly := by
  have hkept : (nprUnanswered.smArbWorkerCpu nprOnly).2.grantOut = bitNp := by decide
  have htimed : nprUnanswered.grantTimedOut := by decide
  refine ⟨?_, htimed, by decide, hkept, ?_⟩
  · exact .step (.step (.init rfl) (.worker nprOnly)) (.elsewhere ⟨rfl, rfl, rfl⟩)
  · intro hrules
    have hout := hrules.withdrawn htimed (by decide)
    rw [hkept] at hout
    cases hout

end Pru

end QUniBone.PruU
