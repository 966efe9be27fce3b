import QUniBone.Pru.Grants
import QUniBone.PruQ.Frame

/-!
# A round of the arbitration on the QBUS

`sm_arb_worker_device` within the main loop. One state variable leads through the grant of a DMA
request and through an interrupt acknowledge.

* `Round`: how the arbitration of a round can go.
* `arbitrate_round`: it goes so.
* `command_spec`: what the commands of a device change.
-/

namespace QUniBone.PruQ.Pru

open PriorityArbitration
open PruU (Lines MailboxIntr Events)

/-! ## The lines of a round -/

/-- GRANT IN, as the CPLD shows it. -/
def grantIn (l : Lines) : Byte := l 7 0 &&& bitMask

def initLine (l : Lines) : Bool := (l 5 0).getLsbD 0

def syncLine (l : Lines) : Bool := (l 4 0).getLsbD 0

def dinLine (l : Lines) : Bool := (l 4 0).getLsbD 1

def rplyLine (l : Lines) : Bool := (l 4 0).getLsbD 3

def iakLine (l : Lines) : Bool := (l 6 0).getLsbD 5

/-- The requests that INIT leaves. -/
def requestsLeft (l : Lines) (requests : Byte) : Byte := if initLine l then 0 else requests

/-- The grants that a round passes on. -/
def passedOn (s : Pru) (l : Lines) : Byte :=
  passedGrants (grantIn l) s.arb.deviceRequestSignalledMask

/-- The grants that a round accepts, when it checks for grants. -/
def acceptable (s : Pru) (l : Lines) : Byte :=
  grantIn l &&& requestsLeft l s.arb.deviceRequestMask &&& ~~~s.passedOn l

/-- The grants this station puts on GRANT OUT. -/
def grantOut (s : Pru) : Byte := s.latches.driven 7 &&& bitMask

/-- Whether this station asserts DMR. -/
def dmr (s : Pru) : Bool := (s.latches.driven 6).getLsbD 4

/-! ## A round -/

/-- The state that a grant leads to. -/
def grantState (grant : Byte) : ArbitrationState :=
  if grant &&& intrMask ≠ 0 then .intrVector
  else if grant &&& bitNp ≠ 0 then .dmaGrantRplySyncWait
  else .grantCheck

/-- No data, no RPLY, no event. -/
structure Silent (s t : Pru) : Prop where
  dal : t.dal = s.dal
  rply : t.rply = s.rply
  sack : t.sack = s.sack
  intrMaster : t.mailbox.events.intrMaster = s.mailbox.events.intrMaster
  master : t.master = s.master

/-- What the state of the arbitration waits for. -/
def Waits (l : Lines) : ArbitrationState → Prop
  | .dmaGrantRplySyncWait => syncLine l = true ∨ rplyLine l = true
  | .intrVector => dinLine l = false
  | .intrComplete => iakLine l = true
  | _ => True

/-- The ways through "Priority Arbitration", from `s` to `t`. -/
inductive Round (l : Lines) (s t : Pru) : Prop
  | nothing :
      t.arb.state = s.arb.state →
      t.arb.deviceRequestMask = requestsLeft l s.arb.deviceRequestMask →
      (s.arb.state ≠ .grantCheck → t.arb.deviceGrantMask = s.arb.deviceGrantMask ∧
        t.arb.intrLevelIndex = s.arb.intrLevelIndex) →
      (s.registerEventAcked = true → Waits l s.arb.state) →
      Silent s t → Round l s t
  | accept :
      s.registerEventAcked = true → s.arb.state = .grantCheck →
      t.arb.state = grantState (s.acceptable l) → t.arb.state ≠ .grantCheck →
      t.arb.deviceRequestMask = requestsLeft l s.arb.deviceRequestMask →
      t.arb.deviceGrantMask = s.acceptable l →
      (s.acceptable l &&& bitNp ≠ 0 → t.dmr = true) →
      Silent s t → Round l s t
  | dma :
      s.arb.state = .dmaGrantRplySyncWait → t.arb.state = .grantCheck →
      t.arb.deviceRequestMask = requestsLeft l s.arb.deviceRequestMask &&& ~~~bitNp →
      t.master = some .start → t.sack = true → t.dmr = false → t.dal = s.dal → t.rply = s.rply →
      t.mailbox.events.intrMaster = s.mailbox.events.intrMaster → Round l s t
  | vector (idx : ℕ) :
      s.arb.state = .intrVector → t.arb.state = .intrComplete →
      idx = bit2idx s.arb.deviceGrantMask → t.arb.intrLevelIndex = idx →
      t.arb.deviceGrantMask = s.arb.deviceGrantMask →
      t.arb.deviceRequestMask =
        requestsLeft l s.arb.deviceRequestMask &&& ~~~s.arb.deviceGrantMask →
      t.dal = s.mailbox.intr.vector idx → t.rply = true →
      (s.arb.deviceGrantMask.getLsbD 7 = false → t.sack = s.sack) → t.master = s.master →
      t.mailbox.events.intrMaster = s.mailbox.events.intrMaster → Round l s t
  | complete (idx : ℕ) :
      s.registerEventAcked = true →
      s.arb.state = .intrComplete → t.arb.state = .grantCheck →
      iakLine l = false → idx = s.arb.intrLevelIndex →
      t.arb.deviceRequestMask = requestsLeft l s.arb.deviceRequestMask →
      t.dal = 0 → t.rply = false → t.sack = s.sack →
      t.master = (if s.arb.deviceRequestSignalledMask &&& bitNp ≠ 0 then some .start
        else s.master) →
      t.mailbox.events.intrMaster = Function.update s.mailbox.events.intrMaster idx
        (s.mailbox.events.intrMaster idx).signal → Round l s t

theorem Round.with_phase {l : Lines} {s t : Pru} (h : Round l s t) (phase : Phase) :
    Round l s { t with phase := phase } := by
  cases h with
  | nothing hstate hrequest hgrant hwait hsilent =>
    exact .nothing hstate hrequest hgrant hwait
      ⟨hsilent.dal, hsilent.rply, hsilent.sack, hsilent.intrMaster, hsilent.master⟩
  | accept hacked hcheck hstate hne hrequest hgrant hdmr hsilent =>
    exact .accept hacked hcheck hstate hne hrequest hgrant hdmr
      ⟨hsilent.dal, hsilent.rply, hsilent.sack, hsilent.intrMaster, hsilent.master⟩
  | dma hwait hstate hrequest hmaster hsack hdmr hdal hrply hevents =>
    exact .dma hwait hstate hrequest hmaster hsack hdmr hdal hrply hevents
  | vector idx hvector hstate hidx hlevel hgrant hrequest hdal hrply hsack hmaster hevents =>
    exact .vector idx hvector hstate hidx hlevel hgrant hrequest hdal hrply hsack hmaster hevents
  | complete idx hacked hcomplete hstate hiak hidx hrequest hdal hrply hsack hmaster hevents =>
    exact .complete idx hacked hcomplete hstate hiak hidx hrequest hdal hrply hsack hmaster hevents

/-! ## INIT, and grants passed on -/

/-- What INIT and power signals do to the state that the arbitration works on. -/
structure Initialized (l : Lines) (s t : Pru) : Prop where
  arb : t.arb = { s.arb with deviceRequestMask := requestsLeft l s.arb.deviceRequestMask }
  latches : t.latches = s.latches
  master : t.master = s.master
  intr : t.mailbox.intr = s.mailbox.intr
  intrMaster : t.mailbox.events.intrMaster = s.mailbox.events.intrMaster
  acked : t.registerEventAcked = s.registerEventAcked

theorem doEventPower_initialized (s : Pru) (cur : Byte) (l : Lines) {r : Pru}
    (h : Initialized l r s) : Initialized l r (s.doEventPower cur) := by
  unfold doEventPower
  dsimp only
  split
  · exact ⟨h.arb, h.latches, h.master, h.intr, h.intrMaster, h.acked⟩
  · exact h

theorem doEventInit_initialized (s : Pru) (init : Bool) (l : Lines) {r : Pru}
    (h : Initialized l r s) : Initialized l r (s.doEventInit init) := by
  unfold doEventInit
  split
  · split
    · exact ⟨h.arb, h.latches, h.master, h.intr, h.intrMaster, h.acked⟩
    · exact h
  · dsimp only
    split_ifs
    all_goals exact ⟨h.arb, h.latches, h.master, h.intr, h.intrMaster, h.acked⟩

theorem smInitializationFunc_spec (l : Lines) (s : Pru) :
    Initialized l s (s.smInitializationFunc l) := by
  have hinit : (l 5 0 &&& 0x1b).getLsbD 0 = initLine l := by
    rw [BitVec.getLsbD_and, show (0x1b : Byte).getLsbD 0 = true from rfl, Bool.and_true, initLine]
  unfold smInitializationFunc
  dsimp only
  rw [hinit]
  apply doEventInit_initialized
  apply doEventPower_initialized
  by_cases h : initLine l = true
  · rw [if_pos h]
    refine ⟨?_, rfl, rfl, rfl, rfl, rfl⟩
    rw [requestsLeft, if_pos h]
    rfl
  · rw [if_neg h]
    refine ⟨?_, rfl, rfl, rfl, rfl, rfl⟩
    rw [requestsLeft, if_neg h]

/-- The state after GRANT IN has been passed on. -/
structure Forwarded (l : Lines) (s t : Pru) : Prop where
  arb : t.arb = { s.arb with
    deviceRequestMask := requestsLeft l s.arb.deviceRequestMask
    deviceForwardedGrantMask := s.passedOn l }
  cached : s.CachedRequests → t.CachedRequests
  silent : Silent s t
  intr : t.mailbox.intr = s.mailbox.intr
  acked : t.registerEventAcked = s.registerEventAcked

theorem forwardGrants_spec (l : Lines) (s : Pru) :
    Forwarded l s ((s.smInitializationFunc l).forwardGrants (grantIn l)) := by
  have h := smInitializationFunc_spec l s
  generalize s.smInitializationFunc l = u at h
  have hpassed : grantIn l &&& ~~~u.arb.deviceRequestSignalledMask = s.passedOn l := by
    rw [h.arb, passedOn, passedGrants]
  -- The grants are in a register of their own.
  have hdriven (r : ℕ) (hr : r ≠ 7) :
      (u.forwardGrants (grantIn l)).latches.driven r = s.latches.driven r := by
    rw [← h.latches]
    exact Function.update_of_ne hr _ _
  refine ⟨?_, ?_, ⟨?_, ?_, ?_, h.intrMaster, h.master⟩, h.intr, h.acked⟩
  · have harb : (u.forwardGrants (grantIn l)).arb =
        { u.arb with deviceForwardedGrantMask := s.passedOn l } := by
      rw [← hpassed]
      rfl
    rw [harb, h.arb]
  · intro hc
    have hcur : (u.forwardGrants (grantIn l)).latches.curRegVal 6 = u.latches.curRegVal 6 := by
      rw [forwardGrants]
      simp only [setbits, BusLatches.setbits, modifyArb]
      exact Function.update_of_ne (by decide) _ _
    rw [CachedRequests, hdriven 6 (by decide), hcur, h.latches]
    exact hc
  · rw [dal, dal, hdriven 0 (by decide), hdriven 1 (by decide)]
  · rw [rply, rply, hdriven 4 (by decide)]
  · rw [sack, sack, hdriven 6 (by decide)]

/-! ## The states of the arbitration -/

theorem setbits_six_driven (s : Pru) (mask val : Byte) :
    (s.setbits 6 mask val).latches.driven 6 = QUniBone.setbits (s.latches.curRegVal 6) mask val :=
  rfl

/-- A write of request lines keeps the rest of their register. -/
theorem setbits_six_silent {s t : Pru} (h : Silent s t) (hc : t.CachedRequests) (mask val : Byte)
    (h7 : mask.getLsbD 7 = false) : Silent s (t.setbits 6 mask val) := by
  refine ⟨Eq.trans rfl h.dal, Eq.trans rfl h.rply, ?_, h.intrMaster, h.master⟩
  rw [← h.sack, sack, setbits_six_driven, hc]
  simp only [sack, QUniBone.setbits, BitVec.getLsbD_or, BitVec.getLsbD_and, BitVec.getLsbD_not,
    h7, Bool.and_false, Bool.or_false]
  simp

theorem busLines_np {requests : Byte} (h : requests.getLsbD 4 = true) :
    (busLines requests).getLsbD 4 = true := by
  unfold busLines
  split_ifs <;> simp [h]

theorem startMaster_zero (s : Pru) : s.startMaster 0 = s := rfl

/-- Only the master is written when one starts. -/
theorem startMaster_eq (s : Pru) (granted : Byte) :
    s.startMaster granted =
      { s with master := if granted &&& bitNp ≠ 0 then some .start else s.master } := by
  unfold startMaster
  split <;> rfl

/-- The arbitration waits, or is not run at all. -/
theorem nothing_round {l : Lines} {s u : Pru} (h : Forwarded l s u)
    (hwait : s.registerEventAcked = true → Waits l s.arb.state) : Round l s u := by
  refine .nothing (by rw [h.arb]) (by rw [h.arb]) (fun _ => ?_) hwait h.silent
  rw [h.arb]
  exact ⟨rfl, rfl⟩

/-- State `grant_check`: requests onto the lines, a grant for one of them is accepted. -/
theorem grantCheck_round {l : Lines} {s u : Pru} (h : Forwarded l s u) (hc : u.CachedRequests)
    (hacked : s.registerEventAcked = true) (hstate : s.arb.state = .grantCheck) :
    Round l s ((u.grantCheck (grantIn l)).2.startMaster (u.grantCheck (grantIn l)).1) := by
  have hgrant : grantIn l &&& u.arb.deviceRequestMask &&& ~~~u.arb.deviceForwardedGrantMask =
      s.acceptable l := by rw [h.arb]; rfl
  have hrequest : u.arb.deviceRequestMask = requestsLeft l s.arb.deviceRequestMask := by
    rw [h.arb]
  rw [show (u.grantCheck (grantIn l)).1 = 0 from rfl, startMaster_zero]
  generalize ht : (u.grantCheck (grantIn l)).2 = t
  have hmask : t.arb.deviceRequestMask = requestsLeft l s.arb.deviceRequestMask := by
    rw [← ht, ← hrequest]
    rfl
  have htgrant : t.arb.deviceGrantMask = s.acceptable l := by
    rw [← hgrant, ← ht]
    rfl
  have htstate : t.arb.state = grantState (s.acceptable l) := by
    have hustate : u.arb.state = .grantCheck := by rw [h.arb]; exact hstate
    rw [← hgrant, ← ht, grantState, ← hustate]
    rfl
  have hsilent : Silent s t := by
    rw [← ht]
    have hlines := setbits_six_silent h.silent hc bitMask
      (busLines (if u.arb.cpuBusInhibitDmrMask ≠ 0 then u.arb.deviceRequestMask ||| bitNp
        else u.arb.deviceRequestMask)) rfl
    exact ⟨hlines.dal, hlines.rply, hlines.sack, hlines.intrMaster, hlines.master⟩
  by_cases hcheck : t.arb.state = .grantCheck
  · exact .nothing (hcheck.trans hstate.symm) hmask (fun hne => absurd hstate hne)
      (fun _ => by rw [hstate]; trivial) hsilent
  · refine .accept hacked hstate htstate hcheck hmask htgrant ?_ hsilent
    intro hnp
    -- The request that is granted is among those put onto the lines.
    have hreq : u.arb.deviceRequestMask.getLsbD 4 = true := by
      rw [and_bitNp_ne_zero, ← hgrant, BitVec.getLsbD_and, BitVec.getLsbD_and, Bool.and_eq_true,
        Bool.and_eq_true] at hnp
      exact hnp.1.2
    have hlines : (busLines (if u.arb.cpuBusInhibitDmrMask ≠ 0 then
        u.arb.deviceRequestMask ||| bitNp else u.arb.deviceRequestMask)).getLsbD 4 = true := by
      apply busLines_np
      split
      · rw [BitVec.getLsbD_or, hreq, Bool.true_or]
      · exact hreq
    rw [← ht, dmr]
    show (QUniBone.setbits (u.latches.curRegVal 6) bitMask _).getLsbD 4 = true
    simp only [QUniBone.setbits, BitVec.getLsbD_or, BitVec.getLsbD_and, hlines,
      show bitMask.getLsbD 4 = true from rfl, Bool.and_true, Bool.or_true]

/-- State `dma_grant_rply_sync_wait`: SACK when the bus is free. -/
theorem dmaGrantRplySyncWait_round {l : Lines} {s u : Pru} (h : Forwarded l s u)
    (hstate : s.arb.state = .dmaGrantRplySyncWait) :
    Round l s ((u.dmaGrantRplySyncWait l).2.startMaster (u.dmaGrantRplySyncWait l).1) := by
  unfold dmaGrantRplySyncWait
  by_cases hbusy : (l 4 0).getLsbD 0 = true ∨ (l 4 0).getLsbD 3 = true
  · rw [if_pos hbusy, startMaster_zero]
    apply nothing_round h
    intro _
    rw [hstate]
    exact hbusy
  · rw [if_neg hbusy]
    dsimp only
    rw [startMaster, if_pos (by decide)]
    refine .dma hstate rfl ?_ rfl ?_ ?_ h.silent.dal h.silent.rply h.silent.intrMaster
    · show u.arb.deviceRequestMask &&& ~~~bitNp = _
      rw [h.arb]
    · show (QUniBone.setbits (u.latches.curRegVal 6) (bitNp ||| bit 7) (bit 7)).getLsbD 7 = true
      have h7 : (bit 7 &&& (bitNp ||| bit 7)).getLsbD 7 = true := by decide
      rw [QUniBone.setbits, BitVec.getLsbD_or, h7, Bool.or_true]
    · show (QUniBone.setbits (u.latches.curRegVal 6) (bitNp ||| bit 7) (bit 7)).getLsbD 4 = false
      have h4 : (bit 7 &&& (bitNp ||| bit 7)).getLsbD 4 = false := by decide
      have h4' : (~~~(bitNp ||| bit 7)).getLsbD 4 = false := by decide
      rw [QUniBone.setbits, BitVec.getLsbD_or, h4, BitVec.getLsbD_and, h4', Bool.and_false,
        Bool.or_false]

/-- A word is what its bytes make of it. -/
theorem word_eq_bytes (w : Word) :
    (PruU.lowByte w).setWidth 16 ||| ((PruU.highByte w).setWidth 16 <<< 8) = w := by
  apply BitVec.eq_of_getLsbD_eq
  intro i hi
  rw [BitVec.getLsbD_or, BitVec.getLsbD_setWidth, BitVec.getLsbD_shiftLeft,
    BitVec.getLsbD_setWidth, PruU.lowByte, PruU.highByte, BitVec.getLsbD_setWidth,
    BitVec.getLsbD_setWidth, BitVec.getLsbD_ushiftRight]
  by_cases h8 : i < 8
  · simp [h8, hi]
  · have hsum : 8 + (i - 8) = i := by omega
    have hlt : i - 8 < 8 := by omega
    have hlt' : i - 8 < 16 := by omega
    simp [h8, hi, hsum, hlt, hlt']

/-- State `intr_vector`: the vector is the answer to DIN. -/
theorem intrVector_round {l : Lines} {s u : Pru} (h : Forwarded l s u) (hc : u.CachedRequests)
    (hstate : s.arb.state = .intrVector) :
    Round l s ((u.intrVector l).2.startMaster (u.intrVector l).1) := by
  unfold intrVector
  by_cases hdin : (l 4 0).getLsbD 1 = false
  · rw [if_pos hdin, startMaster_zero]
    apply nothing_round h
    intro _
    rw [hstate]
    exact hdin
  · rw [if_neg hdin]
    dsimp only
    rw [startMaster_zero]
    have hgrant : u.arb.deviceGrantMask = s.arb.deviceGrantMask := by rw [h.arb]
    refine .vector (bit2idx u.arb.deviceGrantMask) hstate rfl (by rw [hgrant]) rfl hgrant ?_ ?_ ?_
      ?_ h.silent.master h.silent.intrMaster
    · show u.arb.deviceRequestMask &&& ~~~u.arb.deviceGrantMask = _
      rw [h.arb]
    · rw [← h.intr]
      exact word_eq_bytes _
    · show (QUniBone.setbits (u.latches.curRegVal 4) (bit 3) (bit 3)).getLsbD 3 = true
      have h3 : (bit 3 &&& bit 3).getLsbD 3 = true := by decide
      rw [QUniBone.setbits, BitVec.getLsbD_or, h3, Bool.or_true]
    · intro h7
      rw [← hgrant] at h7
      exact (setbits_six_silent h.silent hc u.arb.deviceGrantMask 0 h7).sack

/-- State `intr_complete`: RPLY and the vector go, ARM is told. -/
theorem intrComplete_round {l : Lines} {s u : Pru} (h : Forwarded l s u)
    (hacked : s.registerEventAcked = true) (hstate : s.arb.state = .intrComplete) :
    Round l s ((u.intrComplete l).2.startMaster (u.intrComplete l).1) := by
  unfold intrComplete
  by_cases hiak : (l 6 0).getLsbD 5 = true
  · rw [if_pos hiak, startMaster_zero]
    apply nothing_round h
    intro _
    rw [hstate]
    exact hiak
  · rw [if_neg hiak]
    have hrply : (QUniBone.setbits (u.latches.curRegVal 4) (bit 3) 0).getLsbD 3 = false := by
      have h3 : (0 &&& bit 3 : Byte).getLsbD 3 = false := by decide
      have h3' : (~~~bit 3).getLsbD 3 = false := by decide
      rw [QUniBone.setbits, BitVec.getLsbD_or, h3, BitVec.getLsbD_and, h3', Bool.and_false,
        Bool.or_false]
    have hidx : u.arb.intrLevelIndex = s.arb.intrLevelIndex := by rw [h.arb]
    dsimp only
    rw [startMaster_eq]
    refine .complete u.arb.intrLevelIndex hacked hstate rfl (Bool.eq_false_iff.mpr hiak) hidx ?_
      ?_ hrply h.silent.sack ?_ ?_
    · show u.arb.deviceRequestMask = _
      rw [h.arb]
    · show ((0 : Byte).setWidth 16 ||| ((0 : Byte).setWidth 16 <<< 8)) = (0 : Word)
      decide
    · show (if u.arb.deviceRequestSignalledMask &&& bitNp ≠ 0 then some .start else u.master) = _
      rw [h.arb, h.silent.master]
    · show Function.update u.mailbox.events.intrMaster _
        (u.mailbox.events.intrMaster u.arb.intrLevelIndex).signal = _
      rw [h.silent.intrMaster]

/-- A round of the arbitration, with the request register as the PRU knows it. -/
theorem arbitrate_round (l : Lines) (s : Pru) (hstate : s.arb.state ≠ .noop)
    (hc : s.CachedRequests) : Round l s (s.arbitrate l) := by
  have h := forwardGrants_spec l s
  have hcached := h.cached hc
  rw [arbitrate]
  dsimp only
  rw [← grantIn]
  generalize (s.smInitializationFunc l).forwardGrants (grantIn l) = u at h hcached
  rw [h.acked]
  have hustate : u.arb.state = s.arb.state := by rw [h.arb]
  by_cases hacked : s.registerEventAcked = true
  · rw [if_pos hacked, smArbWorkerDevice, hustate]
    cases hs : s.arb.state with
    | grantCheck => exact grantCheck_round h hcached hacked hs
    | dmaGrantRplySyncWait => exact dmaGrantRplySyncWait_round h hs
    | intrVector => exact intrVector_round h hcached hs
    | intrComplete => exact intrComplete_round h hacked hs
    | noop => exact absurd hs hstate
  · rw [if_neg hacked]
    exact nothing_round h fun hc => absurd hc hacked

/-! ## Commands -/

/-- A command that a running device can give: no bus test, no other arbitration. Interrupt
commands are about interrupt levels. -/
def ClientCommand (s : Pru) : Prop :=
  match s.mailbox.arm2pruReq with
  | .arbModeNone | .arbModeClient | .buslatchSet => False
  | .dma => s.mailbox.dma.cpuAccess = false
  | .intr | .intrCancel => s.mailbox.intr.priorityArbitrationBit.getLsbD 4 = false
  | _ => True

/-- The requests after the command in the mailbox. -/
def requestsAfter (mailbox : Mailbox) (requests : Byte) : Byte :=
  match mailbox.arm2pruReq with
  | .dma => requests ||| bitNp
  | .intr => requests ||| mailbox.intr.priorityArbitrationBit
  | .intrCancel => requests &&& ~~~mailbox.intr.priorityArbitrationBit
  | _ => requests

/-- Nothing but requests is written, and the mask for a halted CPU. -/
structure Commanded (s t : Pru) : Prop where
  state : t.arb.state = s.arb.state
  request : t.arb.deviceRequestMask = requestsAfter s.mailbox s.arb.deviceRequestMask
  grant : t.arb.deviceGrantMask = s.arb.deviceGrantMask
  level : t.arb.intrLevelIndex = s.arb.intrLevelIndex
  cached : s.CachedRequests → t.CachedRequests
  silent : Silent s t

theorem arm2pruInitalizationsignalSet_keeps (s : Pru) :
    s.arm2pruInitalizationsignalSet.arb = s.arb ∧ Silent s s.arm2pruInitalizationsignalSet ∧
      (s.CachedRequests → s.arm2pruInitalizationsignalSet.CachedRequests) := by
  have hdrive (mask val : Byte) : (s.setbits 5 mask val).arb = s.arb ∧
      Silent s (s.setbits 5 mask val) ∧
      (s.CachedRequests → (s.setbits 5 mask val).CachedRequests) :=
    ⟨rfl, ⟨rfl, rfl, rfl, rfl, rfl⟩, ((Keeps.refl s).setbits mask val (by decide)).cached⟩
  unfold arm2pruInitalizationsignalSet
  dsimp only
  split
  · exact hdrive _ _
  split
  · exact hdrive _ _
  split
  · exact hdrive _ _
  split
  · exact hdrive _ _
  · exact ⟨rfl, ⟨rfl, rfl, rfl, rfl, rfl⟩, id⟩

theorem arm2pruIntr_spec (s : Pru) :
    s.arm2pruIntr.arb = { s.arb with
      deviceRequestMask := s.arb.deviceRequestMask ||| s.mailbox.intr.priorityArbitrationBit } ∧
    Silent s s.arm2pruIntr ∧ s.arm2pruIntr.latches = s.latches := by
  unfold arm2pruIntr
  dsimp only
  split
  · exact ⟨rfl, ⟨rfl, rfl, rfl, rfl, rfl⟩, rfl⟩
  · exact ⟨rfl, ⟨rfl, rfl, rfl, rfl, rfl⟩, rfl⟩

theorem arm2pru_spec (l : Lines) (s : Pru) (hc : s.ClientCommand) :
    Commanded s (s.arm2pru l) := by
  have hsilent : Silent s s := ⟨rfl, rfl, rfl, rfl, rfl⟩
  unfold arm2pru
  unfold ClientCommand at hc
  cases hreq : s.mailbox.arm2pruReq with
  | arbModeNone => rw [hreq] at hc; cases hc
  | arbModeClient => rw [hreq] at hc; cases hc
  | buslatchSet => rw [hreq] at hc; cases hc
  | none => exact ⟨rfl, by rw [requestsAfter, hreq], rfl, rfl, id, hsilent⟩
  | nop => exact ⟨rfl, by rw [requestsAfter, hreq], rfl, rfl, id, hsilent⟩
  | arbGrantIntrRequests => exact ⟨rfl, by rw [requestsAfter, hreq], rfl, rfl, id, hsilent⟩
  | dma =>
    rw [hreq] at hc
    dsimp only at hc ⊢
    rw [hc]
    exact ⟨rfl, by rw [requestsAfter, hreq]; rfl, rfl, rfl, id, ⟨rfl, rfl, rfl, rfl, rfl⟩⟩
  | intr =>
    obtain ⟨harb, hsame, hlatches⟩ := arm2pruIntr_spec s
    refine ⟨by rw [harb], by rw [harb, requestsAfter, hreq], by rw [harb], by rw [harb], ?_, hsame⟩
    intro hcached
    rw [CachedRequests, hlatches]
    exact hcached
  | intrCancel =>
    exact ⟨rfl, by rw [requestsAfter, hreq]; rfl, rfl, rfl, id, ⟨rfl, rfl, rfl, rfl, rfl⟩⟩
  | initalizationsignalSet =>
    obtain ⟨harb, hsame, hcached⟩ := arm2pruInitalizationsignalSet_keeps s
    exact ⟨by rw [harb], by rw [harb, requestsAfter, hreq], by rw [harb], by rw [harb], hcached,
      hsame⟩
  | buslatchGet =>
    exact ⟨rfl, by rw [requestsAfter, hreq]; rfl, rfl, rfl, id, ⟨rfl, rfl, rfl, rfl, rfl⟩⟩
  | cpuBusAccess =>
    exact ⟨rfl, by rw [requestsAfter, hreq]; rfl, rfl, rfl, id, ⟨rfl, rfl, rfl, rfl, rfl⟩⟩

end QUniBone.PruQ.Pru
