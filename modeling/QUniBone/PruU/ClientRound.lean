import QUniBone.PruU.CpuArbitrator
import QUniBone.PruU.Frame

/-!
# A round of the arbitration with a physical CPU

`sm_arb_worker_device` within the main loop. GRANT IN is passed on by the mask of requests that
was signalled in the round before, and a grant is accepted by the mask of this round.

* `Arbitrated`: how the arbitration of a round can go.
* `arbitrate_spec`: it goes so.
* `command_spec`: what the commands of a device change.
-/

namespace QUniBone.PruU

open PriorityArbitration

namespace Pru

/-! ## The lines of a round -/

/-- GRANT IN -/
def grantIn (l : Lines) : Byte := l 0 0 &&& bitMask

def initLine (l : Lines) : Bool := (l 7 0).getLsbD 3

def bbsyLine (l : Lines) : Bool := (l 1 2).getLsbD 6

def ssynLine (l : Lines) : Bool := (l 4 0).getLsbD 5

/-- The requests that INIT leaves. -/
def requestsLeft (l : Lines) (requests : Byte) : Byte := if initLine l then 0 else requests

/-- The grants that a round passes on. -/
def passedOn (s : Pru) (l : Lines) : Byte :=
  passedGrants (grantIn l) s.arb.deviceRequestSignalledMask

/-- The grants that a round accepts. -/
def acceptable (s : Pru) (l : Lines) : Byte :=
  grantIn l &&& requestsLeft l s.arb.deviceRequestMask &&& ~~~s.passedOn l

/-! ## A round of the arbitration -/

/-- A device that a physical CPU gives its grants to. -/
structure IsClient (s : Pru) : Prop where
  worker : s.arbWorker = .device
  emulateCpu : s.emulateCpu = false
  cpuRequest : s.arb.cpuRequest = false

/-- The transaction for a granted level, and for an interrupt its vector. -/
def Serves (s t : Pru) (n : ℕ) : Prop :=
  if n = 4 then t.master = some (.dma .start)
  else t.master = some (.intr .start) ∧ t.intrMaster = ⟨s.mailbox.intr.vector n, n⟩

/-- The ways through "Priority Arbitration", from `s` to `t`. -/
inductive Arbitrated (l : Lines) (s t : Pru) : Prop
  /-- ARM has not seen the last register event. -/
  | delayed :
      s.registerEventAcked = false →
      t.arb = { s.arb with
        deviceRequestMask := requestsLeft l s.arb.deviceRequestMask
        deviceForwardedGrantMask := s.passedOn l } →
      t.sack = s.sack → t.master = s.master → Arbitrated l s t
  /-- No grant to accept. -/
  | idle :
      s.arb.grantBbsySsynWaitGrantMask = 0 → s.acceptable l = 0 →
      t.arb = { s.arb with
        deviceRequestMask := requestsLeft l s.arb.deviceRequestMask
        deviceRequestSignalledMask := requestsLeft l s.arb.deviceRequestMask
        deviceForwardedGrantMask := s.passedOn l } →
      t.sack = s.sack → t.master = s.master → Arbitrated l s t
  | accept :
      s.registerEventAcked = true →
      s.arb.grantBbsySsynWaitGrantMask = 0 → s.acceptable l ≠ 0 →
      t.arb = { s.arb with
        deviceRequestMask := requestsLeft l s.arb.deviceRequestMask &&& ~~~s.acceptable l
        deviceRequestSignalledMask := requestsLeft l s.arb.deviceRequestMask
        deviceForwardedGrantMask := s.passedOn l
        grantBbsySsynWaitGrantMask := s.acceptable l } →
      t.sack = true → t.master = s.master → Arbitrated l s t
  /-- The grant, BBSY or SSYN is still there. -/
  | wait :
      s.arb.grantBbsySsynWaitGrantMask ≠ 0 →
      (grantIn l &&& s.arb.grantBbsySsynWaitGrantMask ≠ 0 ∨ bbsyLine l = true ∨
        ssynLine l = true) →
      t.arb = { s.arb with
        deviceRequestMask := requestsLeft l s.arb.deviceRequestMask
        deviceRequestSignalledMask := requestsLeft l s.arb.deviceRequestMask
        deviceForwardedGrantMask := s.passedOn l } →
      t.sack = s.sack → t.master = s.master → Arbitrated l s t
  | start :
      s.arb.grantBbsySsynWaitGrantMask ≠ 0 →
      t.arb = { s.arb with
        deviceRequestMask := requestsLeft l s.arb.deviceRequestMask
        deviceRequestSignalledMask := requestsLeft l s.arb.deviceRequestMask
        deviceForwardedGrantMask := s.passedOn l
        grantBbsySsynWaitGrantMask := 0 } →
      t.sack = s.sack →
      (∀ n < 5, s.arb.grantBbsySsynWaitGrantMask = bit n → Serves s t n) → Arbitrated l s t

theorem Arbitrated.with_phase {l : Lines} {s t : Pru} (h : Arbitrated l s t) (phase : Phase) :
    Arbitrated l s { t with phase := phase } := by
  cases h with
  | delayed hacked harb hsack hmaster => exact .delayed hacked harb hsack hmaster
  | idle hzero hnone harb hsack hmaster => exact .idle hzero hnone harb hsack hmaster
  | accept hacked hzero hne harb hsack hmaster =>
    exact .accept hacked hzero hne harb hsack hmaster
  | wait hne hline harb hsack hmaster => exact .wait hne hline harb hsack hmaster
  | start hne harb hsack hserves => exact .start hne harb hsack hserves

theorem Serves.started {s t : Pru} {n : ℕ} (h : Serves s t n) : t.master ≠ none := by
  unfold Serves at h
  split at h
  · rw [h]
    exact Option.some_ne_none _
  · rw [h.1]
    exact Option.some_ne_none _

/-- The transaction of a single grant. -/
theorem startMaster_serves (s u : Pru) (hintr : u.mailbox.intr = s.mailbox.intr) {n : ℕ}
    (hn : n < 5) : Serves s (u.startMaster (bit n)) n := by
  unfold Serves
  interval_cases n
  · exact ⟨rfl, by rw [← hintr]; rfl⟩
  · exact ⟨rfl, by rw [← hintr]; rfl⟩
  · exact ⟨rfl, by rw [← hintr]; rfl⟩
  · exact ⟨rfl, by rw [← hintr]; rfl⟩
  · rfl

theorem startMaster_arb (s : Pru) (granted : Byte) : (s.startMaster granted).arb = s.arb := by
  unfold startMaster
  split_ifs <;> rfl

theorem startMaster_latch (s : Pru) (granted : Byte) :
    (s.startMaster granted).latch = s.latch := by
  unfold startMaster
  split_ifs <;> rfl

theorem startMaster_worker (s : Pru) (granted : Byte) :
    (s.startMaster granted).arbWorker = s.arbWorker ∧
      (s.startMaster granted).emulateCpu = s.emulateCpu := by
  unfold startMaster
  split_ifs <;> exact ⟨rfl, rfl⟩

/-- What INIT and power signals do to the state that the arbitration works on. -/
structure Initialized (l : Lines) (s t : Pru) : Prop where
  arb : t.arb = { s.arb with deviceRequestMask := requestsLeft l s.arb.deviceRequestMask }
  worker : t.arbWorker = s.arbWorker
  emulateCpu : t.emulateCpu = s.emulateCpu
  latch : t.latch = s.latch
  master : t.master = s.master
  intr : t.mailbox.intr = s.mailbox.intr
  acked : t.registerEventAcked = s.registerEventAcked

theorem initLine_iff (l : Lines) :
    (l 7 0 &&& 0x38) &&& initializationsignalInit ≠ 0 ↔ initLine l = true := by
  constructor
  · intro h
    by_contra hc
    apply h
    apply BitVec.eq_of_getLsbD_eq
    intro i hi
    rw [getLsbD_zero, BitVec.getLsbD_and, BitVec.getLsbD_and, initializationsignalInit,
      getLsbD_bit 3 i (by decide)]
    by_cases h3 : i = 3
    · subst h3
      rw [initLine, Bool.not_eq_true] at hc
      rw [hc, Bool.false_and, Bool.false_and]
    · simp [h3]
  · intro h hc
    have h3 : ((l 7 0 &&& 0x38) &&& initializationsignalInit).getLsbD 3 = false := by
      rw [hc, getLsbD_zero]
    rw [BitVec.getLsbD_and, BitVec.getLsbD_and, show (l 7 0).getLsbD 3 = true from h] at h3
    cases h3

theorem doEventPower_initialized (s : Pru) (cur : Byte) (l : Lines) {r : Pru}
    (h : Initialized l r s) : Initialized l r (s.doEventPower cur) := by
  unfold doEventPower
  dsimp only
  split
  · exact ⟨h.arb, h.worker, h.emulateCpu, h.latch, h.master, h.intr, h.acked⟩
  · exact h

theorem doEventInit_initialized (s : Pru) (cur : Byte) (l : Lines) {r : Pru}
    (h : Initialized l r s) : Initialized l r (s.doEventInit cur) := by
  unfold doEventInit
  dsimp only
  split_ifs
  · exact ⟨h.arb, h.worker, h.emulateCpu, h.latch, h.master, h.intr, h.acked⟩
  · exact ⟨h.arb, h.worker, h.emulateCpu, h.latch, h.master, h.intr, h.acked⟩
  · exact h

theorem doEventInitializationsignals_spec (l : Lines) (s : Pru) :
    Initialized l s (s.doEventInitializationsignals l) := by
  unfold doEventInitializationsignals
  apply doEventInit_initialized
  apply doEventPower_initialized
  by_cases hinit : initLine l = true
  · rw [if_pos ((initLine_iff l).mpr hinit)]
    refine ⟨?_, rfl, rfl, rfl, rfl, rfl, rfl⟩
    rw [requestsLeft, if_pos hinit]
    rfl
  · rw [if_neg (mt (initLine_iff l).mp hinit)]
    refine ⟨?_, rfl, rfl, rfl, rfl, rfl, rfl⟩
    rw [requestsLeft, if_neg hinit]

theorem grantIn_and_mask (l : Lines) (x : Byte) : (grantIn l &&& x) &&& bitMask = grantIn l &&& x := by
  rw [grantIn, BitVec.and_assoc, BitVec.and_comm x, ← BitVec.and_assoc, BitVec.and_assoc (l 0 0),
    BitVec.and_self]

/-- A write of the request lines only. -/
theorem setbits_requests_sack (s : Pru) (requests : Byte) :
    (s.setbits 1 bitMask requests).sack = s.sack := by
  have h5 : bitMask.getLsbD 5 = false := rfl
  simp only [sack, setbits, Function.update_self, QUniBone.setbits, BitVec.getLsbD_or,
    BitVec.getLsbD_and, BitVec.getLsbD_not, h5, Bool.and_false, Bool.or_false, Bool.not_false]
  simp

/-- The request lines go and SACK comes in one write. -/
theorem setbits_accept_sack (s : Pru) (requests accepted : Byte) :
    (s.setbits 1 ((bitMask &&& requests) ||| bit 5) (~~~accepted ||| bit 5)).sack = true := by
  have h5 : (bit 5).getLsbD 5 = true := rfl
  simp only [sack, setbits, Function.update_self, QUniBone.setbits, BitVec.getLsbD_or,
    BitVec.getLsbD_and, h5, Bool.or_true, Bool.and_true]

/-- The state after GRANT IN has been passed on. -/
structure Forwarded (l : Lines) (s t : Pru) : Prop where
  arb : t.arb = { s.arb with
    deviceRequestMask := requestsLeft l s.arb.deviceRequestMask
    deviceForwardedGrantMask := s.passedOn l }
  worker : t.arbWorker = s.arbWorker
  emulateCpu : t.emulateCpu = s.emulateCpu
  master : t.master = s.master
  intr : t.mailbox.intr = s.mailbox.intr
  acked : t.registerEventAcked = s.registerEventAcked
  sack : t.sack = s.sack
  grantOut : t.grantOut = s.passedOn l

theorem forwardGrants_spec (l : Lines) (s : Pru) :
    Forwarded l s ((s.doEventInitializationsignals l).forwardGrants (grantIn l)) := by
  have h := doEventInitializationsignals_spec l s
  generalize s.doEventInitializationsignals l = u at h
  have hpassed : (grantIn l &&& ~~~u.arb.deviceRequestSignalledMask) = s.passedOn l := by
    rw [h.arb, passedOn, passedGrants]
  refine ⟨?_, h.worker, h.emulateCpu, h.master, h.intr, h.acked, ?_, ?_⟩
  · have harb : (u.forwardGrants (grantIn l)).arb =
        { u.arb with deviceForwardedGrantMask := s.passedOn l } := by
      rw [← hpassed]
      rfl
    rw [harb, h.arb]
  · show (u.latch 1).getLsbD 5 = (s.latch 1).getLsbD 5
    rw [h.latch]
  · rw [forwardGrants, grantOut_setbits]
    show (grantIn l &&& ~~~u.arb.deviceRequestSignalledMask) &&& bitMask = s.passedOn l
    rw [grantIn_and_mask, hpassed]

theorem waitForGrant_eq (s : Pru) (granted g : Byte)
    (hg : granted &&& s.arb.deviceRequestMask &&& ~~~s.arb.deviceForwardedGrantMask = g) :
    s.waitForGrant granted =
      if g ≠ 0 then
        (s.setbits 1 ((bitMask &&& s.arb.deviceRequestMask) ||| bit 5)
          (~~~g ||| bit 5)).modifyArb fun arb => { arb with
            deviceRequestMask := arb.deviceRequestMask &&& ~~~g
            grantBbsySsynWaitGrantMask := g }
      else s := by
  subst hg
  rfl

/-- The state after the requests have been put onto the lines. -/
structure Signalled (l : Lines) (s t : Pru) : Prop where
  arb : t.arb = { s.arb with
    deviceRequestMask := requestsLeft l s.arb.deviceRequestMask
    deviceRequestSignalledMask := requestsLeft l s.arb.deviceRequestMask
    deviceForwardedGrantMask := s.passedOn l }
  client : t.IsClient
  master : t.master = s.master
  intr : t.mailbox.intr = s.mailbox.intr
  sack : t.sack = s.sack
  grantOut : t.grantOut = s.passedOn l

theorem signalled_spec {l : Lines} {s u : Pru} (hs : s.IsClient) (h : Forwarded l s u) :
    Signalled l s ((u.setbits 1 bitMask u.arb.deviceRequestMask).modifyArb fun arb =>
      { arb with deviceRequestSignalledMask := arb.deviceRequestMask }) := by
  have harb : ((u.setbits 1 bitMask u.arb.deviceRequestMask).modifyArb fun arb =>
      { arb with deviceRequestSignalledMask := arb.deviceRequestMask }).arb =
      { u.arb with deviceRequestSignalledMask := u.arb.deviceRequestMask } := rfl
  refine ⟨by rw [harb, h.arb], ⟨h.worker.trans hs.worker, h.emulateCpu.trans hs.emulateCpu, ?_⟩,
    h.master, h.intr, (setbits_requests_sack _ _).trans h.sack, ?_⟩
  · rw [harb, h.arb]
    exact hs.cpuRequest
  · exact Eq.trans rfl h.grantOut

/-- State 1: a grant of one of the requests is accepted. -/
theorem waitForGrant_spec {l : Lines} {s v : Pru} (h : Signalled l s v)
    (hacked : s.registerEventAcked = true) (hwait : s.arb.grantBbsySsynWaitGrantMask = 0) :
    Arbitrated l s (v.waitForGrant (grantIn l)) ∧ (v.waitForGrant (grantIn l)).IsClient ∧
      (v.waitForGrant (grantIn l)).grantOut = s.passedOn l := by
  have heq := waitForGrant_eq v (grantIn l) (s.acceptable l) (by rw [h.arb]; rfl)
  by_cases hnone : s.acceptable l = 0
  · rw [heq, if_neg (not_not.mpr hnone)]
    exact ⟨.idle hwait hnone h.arb h.sack h.master, h.client, h.grantOut⟩
  · rw [heq, if_pos hnone]
    refine ⟨.accept hacked hwait hnone ?_ (setbits_accept_sack v _ _) h.master,
      ⟨h.client.worker, h.client.emulateCpu, h.client.cpuRequest⟩, Eq.trans rfl h.grantOut⟩
    show ({ v.arb with
      deviceRequestMask := v.arb.deviceRequestMask &&& ~~~s.acceptable l
      grantBbsySsynWaitGrantMask := s.acceptable l } : SmArb) = _
    rw [h.arb]

theorem isClient_startMaster {s : Pru} (hs : s.IsClient) (granted : Byte) :
    (s.startMaster granted).IsClient := by
  obtain ⟨hworker, hemulate⟩ := startMaster_worker s granted
  exact ⟨hworker.trans hs.worker, hemulate.trans hs.emulateCpu,
    by rw [startMaster_arb]; exact hs.cpuRequest⟩

theorem startMaster_zero (s : Pru) : s.startMaster 0 = s := rfl

/-- State 2: the bus is waited for. -/
theorem waitForBus_spec {l : Lines} {s v : Pru} (h : Signalled l s v)
    (hwait : s.arb.grantBbsySsynWaitGrantMask ≠ 0) :
    let r := v.waitForBus l (grantIn l)
    Arbitrated l s (r.2.startMaster r.1) ∧ (r.2.startMaster r.1).IsClient ∧
      (r.2.startMaster r.1).grantOut = s.passedOn l := by
  have hmask : v.arb.grantBbsySsynWaitGrantMask = s.arb.grantBbsySsynWaitGrantMask := by rw [h.arb]
  have hwaits (hline : grantIn l &&& s.arb.grantBbsySsynWaitGrantMask ≠ 0 ∨ bbsyLine l = true ∨
      ssynLine l = true) :
      Arbitrated l s (v.startMaster 0) ∧ (v.startMaster 0).IsClient ∧
        (v.startMaster 0).grantOut = s.passedOn l := by
    rw [startMaster_zero]
    exact ⟨.wait hwait hline h.arb h.sack h.master, h.client, h.grantOut⟩
  unfold waitForBus
  rw [hmask]
  dsimp only
  split
  · next hgrant => exact hwaits (Or.inl hgrant)
  split
  · next hbbsy => exact hwaits (Or.inr (Or.inl hbbsy))
  split
  · next hssyn => exact hwaits (Or.inr (Or.inr hssyn))
  generalize hw : (v.modifyArb fun arb => { arb with grantBbsySsynWaitGrantMask := 0 }) = w
  have harb : w.arb = { v.arb with grantBbsySsynWaitGrantMask := 0 } := by rw [← hw]; rfl
  have hclient : w.IsClient := by
    rw [← hw]
    exact ⟨h.client.worker, h.client.emulateCpu, h.client.cpuRequest⟩
  refine ⟨.start hwait ?_ ?_ ?_, isClient_startMaster hclient _, ?_⟩
  · rw [startMaster_arb, harb, h.arb]
  · rw [sack, startMaster_latch, ← hw]
    exact h.sack
  · intro n hn heq
    have hintr : w.mailbox.intr = s.mailbox.intr := by
      rw [← hw]
      exact h.intr
    rw [heq]
    exact startMaster_serves s w hintr hn
  · rw [grantOut, startMaster_latch, ← hw]
    exact h.grantOut

/-- A round of the arbitration. GRANT OUT is not touched by the worker of the devices. -/
theorem arbitrate_spec (l : Lines) (s : Pru) (hs : s.IsClient) :
    Arbitrated l s (s.arbitrate l) ∧ (s.arbitrate l).IsClient ∧
      (s.arbitrate l).grantOut = s.passedOn l := by
  have h := forwardGrants_spec l s
  have hemu := (doEventInitializationsignals_spec l s).emulateCpu.trans hs.emulateCpu
  rw [arbitrate]
  simp only [hemu, Bool.false_eq_true, if_false]
  rw [← grantIn]
  generalize (s.doEventInitializationsignals l).forwardGrants (grantIn l) = u at h
  by_cases hacked : u.registerEventAcked = true
  · rw [if_pos hacked, grantsSeen, if_neg (by rw [h.emulateCpu, hs.emulateCpu]; decide)]
    dsimp only
    have hcpu : ¬ (u.arb.cpuRequest = true ∧ u.cpuAccessGranted (l 1 1) = true) := by
      rw [h.arb]
      simp [hs.cpuRequest]
    rw [← grantIn, deviceArbWorker, h.worker, hs.worker]
    dsimp only
    rw [smArbWorkerDevice, if_neg hcpu]
    dsimp only
    have hv := signalled_spec hs h
    generalize ((u.setbits 1 bitMask u.arb.deviceRequestMask).modifyArb fun arb =>
      { arb with deviceRequestSignalledMask := arb.deviceRequestMask }) = v at hv
    by_cases hwait : s.arb.grantBbsySsynWaitGrantMask = 0
    · rw [if_pos (by rw [hv.arb]; exact hwait)]
      dsimp only
      rw [startMaster_zero]
      exact waitForGrant_spec hv (h.acked.symm.trans hacked) hwait
    · rw [if_neg (by rw [hv.arb]; exact hwait)]
      exact waitForBus_spec hv hwait
  · rw [if_neg hacked]
    have hacked' : s.registerEventAcked = false := by
      rw [← h.acked]
      exact Bool.eq_false_iff.mpr hacked
    refine ⟨.delayed hacked' h.arb h.sack h.master, ⟨h.worker.trans hs.worker,
      h.emulateCpu.trans hs.emulateCpu, ?_⟩, h.grantOut⟩
    rw [h.arb]
    exact hs.cpuRequest

/-! ## Commands -/

/-- A command that a running device can give: no bus test, no other arbitration. -/
def ClientCommand (s : Pru) : Prop :=
  match s.mailbox.arm2pruReq with
  | .arbModeNone | .cpuEnable | .buslatchSet => False
  | .dma => s.mailbox.dma.cpuAccess = false
  | _ => True

/-- The requests after the command in the mailbox. -/
def requestsAfter (mailbox : Mailbox) (requests : Byte) : Byte :=
  match mailbox.arm2pruReq with
  | .dma => requests ||| bitNp
  | .intr => requests ||| mailbox.intr.priorityArbitrationBit
  | .intrCancel => requests &&& ~~~mailbox.intr.priorityArbitrationBit
  | _ => requests

/-- Nothing but requests is written. -/
structure Commanded (s t : Pru) : Prop where
  arb : t.arb = { s.arb with
    deviceRequestMask := requestsAfter s.mailbox s.arb.deviceRequestMask }
  client : t.IsClient
  grantOut : t.grantOut = s.grantOut
  sack : t.sack = s.sack
  master : t.master = s.master
  intrMaster : t.intrMaster = s.intrMaster

/-- A command that leaves the requests alone. -/
theorem commanded_of_keeps {s t : Pru} (hs : s.IsClient) (h : Keeps s t) (hsack : t.sack = s.sack)
    (hsame : requestsAfter s.mailbox s.arb.deviceRequestMask = s.arb.deviceRequestMask) :
    Commanded s t := by
  refine ⟨?_, ⟨h.worker.trans hs.worker, h.emulateCpu.trans hs.emulateCpu, ?_⟩, h.grantOut,
    hsack, h.master, h.intrMaster⟩
  · rw [hsame, h.arb]
  · rw [h.arb]
    exact hs.cpuRequest

theorem arm2pruInitalizationsignalSet_same (s : Pru) :
    Keeps s s.arm2pruInitalizationsignalSet ∧ s.arm2pruInitalizationsignalSet.sack = s.sack := by
  unfold arm2pruInitalizationsignalSet
  dsimp only
  have hs := Keeps.refl s
  have hdrive (mask val : Byte) : Keeps s (s.setbits 7 mask val) ∧
      (s.setbits 7 mask val).sack = s.sack := ⟨hs.setbits _ _ (by decide), rfl⟩
  split
  · exact hdrive _ _
  split
  · exact hdrive _ _
  split
  · exact hdrive _ _
  · exact ⟨hs, rfl⟩

theorem arm2pruIntr_spec (s : Pru) (hs : s.IsClient) (hreq : s.mailbox.arm2pruReq = .intr) :
    Commanded s s.arm2pruIntr := by
  have harb : s.arm2pruIntr.arb = { s.arb with
      deviceRequestMask := s.arb.deviceRequestMask ||| s.mailbox.intr.priorityArbitrationBit } := by
    unfold arm2pruIntr
    dsimp only
    split_ifs <;> rfl
  have hsame : s.arm2pruIntr.control = { s.control with arb := s.arm2pruIntr.arb } ∧
      s.arm2pruIntr.latch = s.latch := by
    unfold arm2pruIntr
    dsimp only
    split_ifs <;> exact ⟨rfl, rfl⟩
  obtain ⟨hcontrol, hlatch⟩ := hsame
  have hworker : s.arm2pruIntr.arbWorker = s.arbWorker := congrArg Control.worker hcontrol
  have hemulate : s.arm2pruIntr.emulateCpu = s.emulateCpu := congrArg Control.emulateCpu hcontrol
  refine ⟨?_, ⟨hworker.trans hs.worker, hemulate.trans hs.emulateCpu, ?_⟩, ?_, ?_,
    congrArg Control.master hcontrol, congrArg Control.intrMaster hcontrol⟩
  · rw [harb, requestsAfter, hreq]
  · rw [harb]
    exact hs.cpuRequest
  · rw [grantOut, grantOut, hlatch]
  · rw [sack, sack, hlatch]

theorem arm2pru_spec (l : Lines) (s : Pru) (hs : s.IsClient) (hc : s.ClientCommand) :
    Commanded s (s.arm2pru l) := by
  have hkeeps := Keeps.refl s
  unfold arm2pru
  unfold ClientCommand at hc
  cases hreq : s.mailbox.arm2pruReq with
  | arbModeNone => rw [hreq] at hc; cases hc
  | cpuEnable => rw [hreq] at hc; cases hc
  | buslatchSet => rw [hreq] at hc; cases hc
  | intr => exact arm2pruIntr_spec s hs hreq
  | dma =>
    simp only [hreq] at hc
    refine ⟨?_, ⟨hs.worker, hs.emulateCpu, ?_⟩, rfl, rfl, rfl, rfl⟩
    · simp only [modifyArb, hc, requestsAfter, hreq, Bool.false_eq_true, if_false]
    · simp only [modifyArb, hc, Bool.false_eq_true, if_false]
      exact hs.cpuRequest
  | intrCancel =>
    refine ⟨?_, ⟨hs.worker, hs.emulateCpu, hs.cpuRequest⟩, rfl, rfl, rfl, rfl⟩
    simp only [modifyArb, requestsAfter, hreq]
  | none => exact commanded_of_keeps hs hkeeps rfl (by rw [requestsAfter, hreq])
  | nop => exact commanded_of_keeps hs hkeeps rfl (by rw [requestsAfter, hreq])
  | arbModeClient =>
    have hsame := commanded_of_keeps hs hkeeps rfl (by rw [requestsAfter, hreq])
    exact ⟨hsame.arb, ⟨rfl, hs.emulateCpu, hs.cpuRequest⟩, rfl, rfl, rfl, rfl⟩
  | arbGrantIntrRequests =>
    dsimp only
    rw [if_neg (by rw [hs.emulateCpu]; decide)]
    exact commanded_of_keeps hs hkeeps rfl (by rw [requestsAfter, hreq])
  | initalizationsignalSet =>
    obtain ⟨hsignal, hsack⟩ := arm2pruInitalizationsignalSet_same s
    exact commanded_of_keeps hs hsignal hsack (by rw [requestsAfter, hreq])
  | addressOverlay =>
    have hoverlay : Keeps s { s with addressOverlay := s.mailbox.addressOverlay } :=
      hkeeps.same rfl rfl rfl
    have haddr : Keeps s s.arm2pruAddressOverlay :=
      ((hoverlay.setbyte _ (by decide)).setbyte _ (by decide)).setbits _ _ (by decide)
    exact commanded_of_keeps hs haddr rfl (by rw [requestsAfter, hreq])
  | buslatchGet =>
    have hget : Keeps s (s.arm2pruBuslatchGet l) := hkeeps.same rfl rfl rfl
    exact commanded_of_keeps hs hget rfl (by rw [requestsAfter, hreq])

/-- The end of a round, with a physical CPU. -/
theorem command_spec (l : Lines) (s : Pru) (hs : s.IsClient) (hc : s.ClientCommand)
    (hphase : s.phase = .command) :
    Commanded s (s.mainStep l) ∧ (s.mainStep l).phase = .slave := by
  have h := arm2pru_spec l s hs hc
  have hslave : s.intrSlaveStep l = s := by
    rw [intrSlaveStep, if_neg (by rw [hs.emulateCpu]; decide)]
  have hstep : s.mainStep l = { (s.arm2pru l).acknowledge with phase := .slave } := by
    rw [mainStep, hphase]
    dsimp only
    rw [hslave]
  rw [hstep]
  exact ⟨⟨h.arb, ⟨h.client.worker, h.client.emulateCpu, h.client.cpuRequest⟩, h.grantOut, h.sack,
    h.master, h.intrMaster⟩, rfl⟩

end Pru

end QUniBone.PruU
