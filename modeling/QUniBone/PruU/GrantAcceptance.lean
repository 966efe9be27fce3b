import QUniBone.Lib.Transition
import QUniBone.PruU.ClientRound

/-!
# Grants of a physical CPU

The main loop with `sm_arb_worker_device`, over any samples of the bus and any commands that a
device gives. What may be done with a grant depends on what has been done with it before, so a
`Watch` remembers that, from outside.

* `Watched.main`: a step of the main loop, watched.
* `GrantProtocol`: what a step may do with grants.
* `Orderly`: a condition on the bus and on the time of the commands.
* `grantProtocol_of_orderly`: the steps keep to the protocol under this condition.
-/

namespace QUniBone.PruU

open PriorityArbitration Transition

/-! ## The watch -/

/-- What has happened to requests and grants. -/
structure Watch where
  /-- requested by ARM, and since then not accepted, cancelled or dropped by INIT -/
  requested : Byte
  /-- passed on, while GRANT IN stays asserted -/
  passed : Byte
  /-- accepted, while GRANT IN stays asserted -/
  taken : Byte
  /-- accepted, and the transaction has not started, nor has there been an INIT -/
  owed : Byte

/-- A PRU with its watch. -/
structure Watched where
  pru : Pru
  watch : Watch

namespace Watched

open Pru

/-- The grants that a step accepts: state 2 of the worker is entered. -/
def accepts (w : Watched) (l : Lines) : Byte :=
  if w.pru.arb.grantBbsySsynWaitGrantMask = 0 then
    (w.pru.mainStep l).arb.grantBbsySsynWaitGrantMask
  else 0

/-- Whether a step samples GRANT IN. -/
def samples (w : Watched) : Prop := w.pru.phase = .arbitrate

instance (w : Watched) : Decidable w.samples := inferInstanceAs (Decidable (_ = _))

/-- The acceptance that a step has to do something about. -/
def due (w : Watched) (l : Lines) : Byte := requestsLeft l w.watch.owed

/-- What the watch has seen after a step. -/
def nextWatch (w : Watched) (l : Lines) : Watch :=
  match w.pru.phase with
  | .slave => w.watch
  | .arbitrate =>
    { requested := requestsLeft l w.watch.requested &&& ~~~w.accepts l
      passed := (w.watch.passed ||| (w.pru.mainStep l).grantOut) &&& grantIn l
      taken := (w.watch.taken ||| w.accepts l) &&& grantIn l
      owed :=
        if w.accepts l ≠ 0 then w.accepts l
        else if (w.pru.mainStep l).master = none then w.due l
        else 0 }
  | .command =>
    { w.watch with requested := requestsAfter w.pru.mailbox w.watch.requested }

/-- A step of the main loop. -/
def main (w : Watched) (l : Lines) : Watched := ⟨w.pru.mainStep l, w.nextWatch l⟩

/-- Nothing has happened yet. -/
def powerUp : Watched := ⟨Pru.powerUp, ⟨0, 0, 0, 0⟩⟩

/-- The main loop steps, or ARM writes what it shares with the PRU: the mailbox with its events
and commands, the register tables and the memory. Time goes on, too. -/
inductive ClientStep (cond : Watched → Lines → Prop) : Watched → Watched → Prop
  | main {w : Watched} (l : Lines) : w.pru.ClientCommand → cond w l → ClientStep cond w (w.main l)
  | arm {w : Watched} (mailbox : Mailbox) (emulation : Emulation) (timeouts : Timeouts) :
      ClientStep cond w
        { w with pru := { w.pru with
          mailbox := mailbox, emulation := emulation, timeouts := timeouts } }

/-- The states that are reached by steps under a condition. -/
abbrev Reached (cond : Watched → Lines → Prop) : Watched → Prop :=
  Reachable (· = powerUp) (ClientStep cond)

/-! ## The protocol -/

/-- What a step of the main loop, with the bus at `l`, may do with grants. -/
structure GrantProtocol (w : Watched) (l : Lines) : Prop where
  /-- A grant that was passed on is neither accepted nor withdrawn while GRANT IN stays. -/
  passed : ∀ i, w.watch.passed.getLsbD i = true → (w.samples → (grantIn l).getLsbD i = true) →
    (w.pru.mainStep l).grantOut.getLsbD i = true ∧ (w.accepts l).getLsbD i = false
  /-- Only a grant that is there is accepted, for a level that is requested at that moment. -/
  requested : ∀ i, (w.accepts l).getLsbD i = true →
    (grantIn l).getLsbD i = true ∧ initLine l = false ∧ w.watch.requested.getLsbD i = true
  /-- To accept is to assert SACK. -/
  sack : w.accepts l ≠ 0 → (w.pru.mainStep l).sack = true
  /-- SACK is asserted for no other reason. -/
  noSack : w.accepts l = 0 → (w.pru.mainStep l).sack = true → w.pru.sack = true
  /-- An accepted grant is not passed on. -/
  taken : ∀ i, (w.accepts l).getLsbD i = true ∨
      (w.watch.taken.getLsbD i = true ∧ (w.samples → (grantIn l).getLsbD i = true)) →
    (w.pru.mainStep l).grantOut.getLsbD i = false
  /-- One grant is accepted at a time, with no transaction owed or running. -/
  single : w.accepts l ≠ 0 →
    (∃ n < 5, w.accepts l = bit n) ∧ w.watch.owed = 0 ∧ w.pru.master = none
  /-- A transaction starts for a grant that was accepted and not served, with no INIT since. -/
  starts : w.pru.master = none → (w.pru.mainStep l).master ≠ none →
    ∃ n < 5, w.due l = bit n ∧ Serves w.pru (w.pru.mainStep l) n
  /-- It starts as soon as the bus is free. -/
  served : w.samples → w.pru.registerEventAcked = true → w.due l ≠ 0 →
    grantIn l &&& w.due l = 0 → bbsyLine l = false → ssynLine l = false →
    (w.pru.mainStep l).master ≠ none
  /-- A transaction is not replaced by another. -/
  kept : w.pru.master ≠ none → (w.pru.mainStep l).intrMaster = w.pru.intrMaster ∧
    ∀ m, (w.pru.mainStep l).master = some m → ∃ m₀, w.pru.master = some m₀ ∧
      ((∃ st, m₀ = .dma st) ↔ ∃ st, m = .dma st)

/-! ## Orderly runs -/

/-- What a step relies on when it samples GRANT IN. -/
structure Orderly (w : Watched) (l : Lines) : Prop where
  /-- No request was signalled for a grant that was passed on before and is still there. -/
  passed : w.samples → ∀ i, (grantIn l).getLsbD i = true → w.watch.passed.getLsbD i = true →
    w.pru.arb.deviceRequestSignalledMask.getLsbD i = false
  /-- A grant that was accepted goes before the requests are signalled without it. -/
  taken : w.samples → ∀ i, (grantIn l).getLsbD i = true → w.watch.taken.getLsbD i = true →
    w.pru.arb.deviceRequestSignalledMask.getLsbD i = true
  /-- Not two of our requests are granted at once. -/
  single : w.samples → w.pru.registerEventAcked = true →
    w.pru.arb.grantBbsySsynWaitGrantMask = 0 →
    SingleGrant (grantIn l &&& requestsLeft l w.pru.arb.deviceRequestMask &&&
      w.pru.arb.deviceRequestSignalledMask)
  /-- There is no INIT between a grant that is accepted and the start of its transaction. -/
  init : w.samples → w.pru.arb.grantBbsySsynWaitGrantMask ≠ 0 → initLine l = false

/-! ## What a round does -/

theorem getLsbD_passedOn (s : Pru) (l : Lines) (i : ℕ) :
    (s.passedOn l).getLsbD i =
      ((grantIn l).getLsbD i && !s.arb.deviceRequestSignalledMask.getLsbD i) :=
  getLsbD_passedGrants _ _ i

theorem acceptable_eq (s : Pru) (l : Lines) :
    s.acceptable l = grantIn l &&& requestsLeft l s.arb.deviceRequestMask &&&
      s.arb.deviceRequestSignalledMask :=
  accepted_eq _ _ _

theorem getLsbD_acceptable {s : Pru} {l : Lines} {i : ℕ}
    (h : (s.acceptable l).getLsbD i = true) :
    (grantIn l).getLsbD i = true ∧ initLine l = false ∧
      s.arb.deviceRequestMask.getLsbD i = true ∧
      s.arb.deviceRequestSignalledMask.getLsbD i = true := by
  rw [acceptable_eq, BitVec.getLsbD_and, BitVec.getLsbD_and, Bool.and_eq_true,
    Bool.and_eq_true] at h
  obtain ⟨⟨hgrant, hrequest⟩, hsignalled⟩ := h
  unfold requestsLeft at hrequest
  split at hrequest
  · simp at hrequest
  · next hinit => exact ⟨hgrant, Bool.eq_false_iff.mpr hinit, hrequest, hsignalled⟩

/-! ## Invariant -/

/-- The masks of the PRU agree with what has been seen. -/
structure Inv (w : Watched) : Prop where
  client : w.pru.IsClient
  requested : w.watch.requested = w.pru.arb.deviceRequestMask
  passed : ∀ i, w.watch.passed.getLsbD i = true → w.pru.grantOut.getLsbD i = true
  taken : ∀ i, w.watch.taken.getLsbD i = true → w.pru.grantOut.getLsbD i = false
  owed : w.watch.owed = w.pru.arb.grantBbsySsynWaitGrantMask
  wait : SingleGrant w.pru.arb.grantBbsySsynWaitGrantMask
  idle : w.samples → w.pru.master = none
  unserved : w.pru.master ≠ none → w.pru.arb.grantBbsySsynWaitGrantMask = 0

theorem Inv.powerUp : Inv powerUp := by
  refine ⟨⟨rfl, rfl, rfl⟩, rfl, ?_, ?_, rfl, Or.inl rfl, fun _ => rfl, fun _ => rfl⟩
  · intro i hi
    simp [Watched.powerUp] at hi
  · intro i hi
    simp [Watched.powerUp] at hi

/-- A step outside of the arbitration: nothing is sampled, nothing accepted. -/
structure Quiet (s t : Pru) : Prop where
  phase : s.phase ≠ .arbitrate
  wait : t.arb.grantBbsySsynWaitGrantMask = s.arb.grantBbsySsynWaitGrantMask
  grantOut : t.grantOut = s.grantOut
  sack : t.sack = true → s.sack = true
  intrMaster : t.intrMaster = s.intrMaster
  idle : s.master = none → t.master = none
  kind : ∀ m, t.master = some m → ∃ m₀, s.master = some m₀ ∧
    ((∃ st, m₀ = .dma st) ↔ ∃ st, m = .dma st)

theorem Quiet.accepts {w : Watched} {l : Lines} (h : Quiet w.pru (w.pru.mainStep l)) :
    w.accepts l = 0 := by
  unfold Watched.accepts
  split
  · next hwait => rw [h.wait, hwait]
  · rfl

theorem Quiet.protocol {w : Watched} {l : Lines} (h : Quiet w.pru (w.pru.mainStep l))
    (hi : Inv w) : GrantProtocol w l := by
  have haccepts := h.accepts
  have hnone (i : ℕ) : ¬ (w.accepts l).getLsbD i = true := by simp [haccepts]
  constructor
  · intro i hpassed _
    exact ⟨by rw [h.grantOut]; exact hi.passed i hpassed, Bool.eq_false_iff.mpr (hnone i)⟩
  · intro i hc
    exact absurd hc (hnone i)
  · intro hc
    exact absurd haccepts hc
  · intro _ hsack
    exact h.sack hsack
  · rintro i (hc | ⟨htaken, _⟩)
    · exact absurd hc (hnone i)
    · rw [h.grantOut]
      exact hi.taken i htaken
  · intro hc
    exact absurd haccepts hc
  · intro hmaster hc
    exact absurd (h.idle hmaster) hc
  · intro hsamples
    exact absurd hsamples h.phase
  · intro _
    exact ⟨h.intrMaster, h.kind⟩

/-- A quiet step keeps the invariant, if the watch sees the requests change. -/
theorem Quiet.inv {w : Watched} {l : Lines} (h : Quiet w.pru (w.pru.mainStep l)) (hi : Inv w)
    (hclient : (w.pru.mainStep l).IsClient)
    (hidle : (w.pru.mainStep l).phase = .arbitrate → (w.pru.mainStep l).master = none)
    (hwatch : w.nextWatch l = { w.watch with requested := (w.nextWatch l).requested })
    (hrequested : (w.nextWatch l).requested = (w.pru.mainStep l).arb.deviceRequestMask) :
    Inv (w.main l) := by
  refine ⟨hclient, hrequested, ?_, ?_, ?_, ?_, hidle, ?_⟩
  · intro i hpassed
    show (w.pru.mainStep l).grantOut.getLsbD i = true
    rw [h.grantOut]
    rw [main, hwatch] at hpassed
    exact hi.passed i hpassed
  · intro i htaken
    show (w.pru.mainStep l).grantOut.getLsbD i = false
    rw [h.grantOut]
    rw [main, hwatch] at htaken
    exact hi.taken i htaken
  · show (w.nextWatch l).owed = (w.pru.mainStep l).arb.grantBbsySsynWaitGrantMask
    rw [h.wait, hwatch]
    exact hi.owed
  · show SingleGrant (w.pru.mainStep l).arb.grantBbsySsynWaitGrantMask
    rw [h.wait]
    exact hi.wait
  · intro hmaster
    show (w.pru.mainStep l).arb.grantBbsySsynWaitGrantMask = 0
    rw [h.wait]
    exact hi.unserved fun hc => hmaster (h.idle hc)

/-! ## The steps -/

theorem smDataMaster_quiet (l : Lines) (s : Pru) (m : Master) (hm : s.master = some m) (t : Pru)
    (ht : t = { s.smDataMaster l m with phase := .command }) (hphase : s.phase = .slave) :
    Quiet s t ∧ t.arb = s.arb ∧ t.arbWorker = s.arbWorker ∧ t.emulateCpu = s.emulateCpu := by
  subst ht
  cases m with
  | dma st =>
    have h := smDma_keeps l s st
    refine ⟨⟨by rw [hphase]; decide, congrArg _ h.arb, h.grantOut, h.sack, h.intrMaster,
      fun hc => absurd hc (by rw [hm]; exact Option.some_ne_none _), ?_⟩, h.arb, h.worker,
      h.emulateCpu⟩
    intro m' hm'
    obtain ⟨st', _, rfl⟩ := Option.map_eq_some_iff.mp hm'
    exact ⟨.dma st, hm, ⟨fun _ => ⟨st', rfl⟩, fun _ => ⟨st, rfl⟩⟩⟩
  | intr st =>
    have h := smIntrMaster_keeps l s st
    refine ⟨⟨by rw [hphase]; decide, congrArg _ h.arb, h.grantOut, h.sack, h.intrMaster,
      fun hc => absurd hc (by rw [hm]; exact Option.some_ne_none _), ?_⟩, h.arb, h.worker,
      h.emulateCpu⟩
    intro m' hm'
    obtain ⟨st', _, rfl⟩ := Option.map_eq_some_iff.mp hm'
    exact ⟨.intr st, hm, ⟨fun ⟨_, hc⟩ => Master.noConfusion hc, fun ⟨_, hc⟩ =>
      Master.noConfusion hc⟩⟩

/-- A call of the data slave, or of a running master. -/
theorem slave_step {w : Watched} (hi : Inv w) (l : Lines) (hphase : w.pru.phase = .slave) :
    Quiet w.pru (w.pru.mainStep l) ∧ Inv (w.main l) := by
  have hwatch : w.nextWatch l = w.watch := by rw [nextWatch, hphase]
  suffices h : Quiet w.pru (w.pru.mainStep l) ∧ (w.pru.mainStep l).arb = w.pru.arb ∧
      (w.pru.mainStep l).arbWorker = w.pru.arbWorker ∧
      (w.pru.mainStep l).emulateCpu = w.pru.emulateCpu ∧
      ((w.pru.mainStep l).phase = .arbitrate → (w.pru.mainStep l).master = none) by
    obtain ⟨hquiet, harb, hworker, hemulate, hidle⟩ := h
    refine ⟨hquiet, hquiet.inv hi ⟨hworker.trans hi.client.worker,
      hemulate.trans hi.client.emulateCpu, ?_⟩ hidle (by rw [hwatch]) ?_⟩
    · rw [harb]
      exact hi.client.cpuRequest
    · rw [hwatch, harb]
      exact hi.requested
  cases hm : w.pru.master with
  | none =>
    have h := smDataSlave_keeps l w.pru (w.pru.slave.getD .start)
    have hstep : w.pru.mainStep l = w.pru.slaveStep l := by
      rw [mainStep, hphase, hm]
    rw [hstep]
    have hmaster : (w.pru.slaveStep l).master = none := h.master.trans hm
    refine ⟨⟨by rw [hphase]; decide, congrArg _ h.arb, h.grantOut, h.sack, h.intrMaster,
      fun _ => hmaster, ?_⟩, h.arb, h.worker, h.emulateCpu, fun _ => hmaster⟩
    intro m hc
    rw [hmaster] at hc
    cases hc
  | some m =>
    have hstep : w.pru.mainStep l = { w.pru.smDataMaster l m with phase := .command } := by
      rw [mainStep, hphase, hm]
    obtain ⟨hquiet, harb, hworker, hemulate⟩ := smDataMaster_quiet l w.pru m hm _ hstep hphase
    refine ⟨hquiet, harb, hworker, hemulate, fun hc => ?_⟩
    rw [hstep] at hc
    cases hc

/-- A command of ARM. -/
theorem command_step {w : Watched} (hi : Inv w) (l : Lines) (hphase : w.pru.phase = .command)
    (hc : w.pru.ClientCommand) : Quiet w.pru (w.pru.mainStep l) ∧ Inv (w.main l) := by
  obtain ⟨h, hnext⟩ := command_spec l w.pru hi.client hc hphase
  have hquiet : Quiet w.pru (w.pru.mainStep l) := by
    refine ⟨by rw [hphase]; decide, by rw [h.arb], h.grantOut, by rw [h.sack]; exact id,
      h.intrMaster, h.master.trans, ?_⟩
    intro m hm
    exact ⟨m, h.master.symm.trans hm, Iff.rfl⟩
  refine ⟨hquiet, hquiet.inv hi h.client (fun hc => ?_) ?_ ?_⟩
  · rw [hnext] at hc
    cases hc
  · rw [nextWatch, hphase]
  · rw [nextWatch, hphase, h.arb]
    dsimp only
    rw [hi.requested]

/-- The state after the arbitration. -/
theorem mainStep_arbitrate {s : Pru} (l : Lines) (hphase : s.phase = .arbitrate) :
    s.mainStep l = { s.arbitrate l with phase := .command } := by
  rw [mainStep, hphase]

/-- GRANT IN that is passed on, in terms of the watch. -/
theorem passed_grantOut {w : Watched} {l : Lines} (ho : Orderly w l) (hs : w.samples) {i : ℕ}
    (hpassed : w.watch.passed.getLsbD i = true) (hgrant : (grantIn l).getLsbD i = true) :
    (w.pru.passedOn l).getLsbD i = true := by
  rw [getLsbD_passedOn, hgrant, ho.passed hs i hgrant hpassed]
  rfl

theorem taken_grantOut {w : Watched} {l : Lines} (ho : Orderly w l) (hs : w.samples) {i : ℕ}
    (htaken : w.watch.taken.getLsbD i = true) (hgrant : (grantIn l).getLsbD i = true) :
    (w.pru.passedOn l).getLsbD i = false := by
  rw [getLsbD_passedOn, hgrant, ho.taken hs i hgrant htaken]
  rfl

/-- How the watch sees a round of the arbitration. -/
inductive Seen (w : Watched) (l : Lines) (t : Pru) : Prop
  /-- Nothing is accepted, nothing starts. -/
  | nothing :
      w.accepts l = 0 → t.sack = w.pru.sack → t.master = none →
      t.arb.deviceRequestMask = requestsLeft l w.pru.arb.deviceRequestMask →
      t.arb.grantBbsySsynWaitGrantMask = w.pru.arb.grantBbsySsynWaitGrantMask →
      (w.pru.registerEventAcked = true → w.pru.arb.grantBbsySsynWaitGrantMask ≠ 0 →
        grantIn l &&& w.pru.arb.grantBbsySsynWaitGrantMask ≠ 0 ∨ bbsyLine l = true ∨
          ssynLine l = true) →
      Seen w l t
  | accepted (n : ℕ) :
      n < 5 → w.accepts l = bit n → w.pru.acceptable l = bit n →
      w.pru.arb.grantBbsySsynWaitGrantMask = 0 → t.sack = true → t.master = none →
      t.arb.deviceRequestMask = requestsLeft l w.pru.arb.deviceRequestMask &&& ~~~bit n →
      t.arb.grantBbsySsynWaitGrantMask = bit n →
      Seen w l t
  | started (n : ℕ) :
      n < 5 → w.accepts l = 0 → w.pru.arb.grantBbsySsynWaitGrantMask = bit n →
      t.sack = w.pru.sack → Serves w.pru t n →
      t.arb.deviceRequestMask = requestsLeft l w.pru.arb.deviceRequestMask →
      t.arb.grantBbsySsynWaitGrantMask = 0 →
      Seen w l t

theorem accepts_of_same {w : Watched} {l : Lines}
    (h : (w.pru.mainStep l).arb.grantBbsySsynWaitGrantMask =
      w.pru.arb.grantBbsySsynWaitGrantMask) : w.accepts l = 0 := by
  unfold accepts
  split
  · next hwait => rw [h, hwait]
  · rfl

theorem seen_of_arbitrated {w : Watched} (hi : Inv w) {l : Lines} (hs : w.samples)
    (ho : Orderly w l) (h : Arbitrated l w.pru (w.pru.mainStep l)) :
    Seen w l (w.pru.mainStep l) := by
  have hmaster := hi.idle hs
  cases h with
  | delayed hacked harb hsack hm =>
    have hwait : (w.pru.mainStep l).arb.grantBbsySsynWaitGrantMask =
        w.pru.arb.grantBbsySsynWaitGrantMask := by rw [harb]
    refine .nothing (accepts_of_same hwait) hsack (hm.trans hmaster) (by rw [harb]) hwait ?_
    intro hc
    rw [hacked] at hc
    cases hc
  | idle hzero _ harb hsack hm =>
    have hwait : (w.pru.mainStep l).arb.grantBbsySsynWaitGrantMask =
        w.pru.arb.grantBbsySsynWaitGrantMask := by rw [harb]
    exact .nothing (accepts_of_same hwait) hsack (hm.trans hmaster) (by rw [harb]) hwait
      fun _ hc => absurd hzero hc
  | accept hacked hzero hne harb hsack hm =>
    have hsingle := ho.single hs hacked hzero
    rw [← acceptable_eq] at hsingle
    obtain ⟨n, hn, heq⟩ := hsingle.resolve_left hne
    have hwait : (w.pru.mainStep l).arb.grantBbsySsynWaitGrantMask = bit n := by rw [harb, heq]
    refine .accepted n hn ?_ heq hzero hsack (hm.trans hmaster) (by rw [harb, heq]) hwait
    rw [accepts, if_pos hzero, hwait]
  | wait hne hline harb hsack hm =>
    have hwait : (w.pru.mainStep l).arb.grantBbsySsynWaitGrantMask =
        w.pru.arb.grantBbsySsynWaitGrantMask := by rw [harb]
    exact .nothing (accepts_of_same hwait) hsack (hm.trans hmaster) (by rw [harb]) hwait
      fun _ _ => hline
  | start hne harb hsack hserves =>
    obtain ⟨n, hn, heq⟩ := hi.wait.resolve_left hne
    exact .started n hn (by rw [accepts, if_neg hne]) heq hsack (hserves n hn heq)
      (by rw [harb]) (by rw [harb])

/-- The grants on GRANT OUT after a round, whatever it accepts. -/
theorem Seen.grants {w : Watched} {l : Lines} (hs : w.samples) (ho : Orderly w l)
    (h : Seen w l (w.pru.mainStep l)) (hout : (w.pru.mainStep l).grantOut = w.pru.passedOn l) :
    (∀ i, w.watch.passed.getLsbD i = true → (w.samples → (grantIn l).getLsbD i = true) →
      (w.pru.mainStep l).grantOut.getLsbD i = true ∧ (w.accepts l).getLsbD i = false) ∧
    (∀ i, (w.accepts l).getLsbD i = true ∨
        (w.watch.taken.getLsbD i = true ∧ (w.samples → (grantIn l).getLsbD i = true)) →
      (w.pru.mainStep l).grantOut.getLsbD i = false) := by
  -- What is accepted was signalled, so it is not passed on.
  have haccepted : ∀ i, (w.accepts l).getLsbD i = true →
      (w.pru.passedOn l).getLsbD i = false := by
    intro i hc
    cases h with
    | nothing hnone => rw [hnone, getLsbD_zero] at hc; cases hc
    | accepted n _ haccepts heq =>
      rw [haccepts, ← heq] at hc
      obtain ⟨hgrant, _, _, hsignalled⟩ := getLsbD_acceptable hc
      rw [getLsbD_passedOn, hgrant, hsignalled]
      rfl
    | started n _ hnone => rw [hnone, getLsbD_zero] at hc; cases hc
  rw [hout]
  constructor
  · intro i hpassed hgrant
    have hon := passed_grantOut ho hs hpassed (hgrant hs)
    refine ⟨hon, Bool.eq_false_iff.mpr fun hc => ?_⟩
    rw [haccepted i hc] at hon
    cases hon
  · rintro i (hc | ⟨htaken, hgrant⟩)
    · exact haccepted i hc
    · exact taken_grantOut ho hs htaken (hgrant hs)

theorem Seen.protocol {w : Watched} (hi : Inv w) {l : Lines} (hs : w.samples) (ho : Orderly w l)
    (h : Seen w l (w.pru.mainStep l)) (hout : (w.pru.mainStep l).grantOut = w.pru.passedOn l) :
    GrantProtocol w l := by
  have hmaster := hi.idle hs
  obtain ⟨hpassed, htaken⟩ := h.grants hs ho hout
  have hnomaster : w.pru.master ≠ none → (w.pru.mainStep l).intrMaster = w.pru.intrMaster ∧
      ∀ m, (w.pru.mainStep l).master = some m → ∃ m₀, w.pru.master = some m₀ ∧
        ((∃ st, m₀ = .dma st) ↔ ∃ st, m = .dma st) := fun hc => absurd hmaster hc
  cases h with
  | nothing hnone hsack hm _ _ hline =>
    refine ⟨hpassed, fun i hc => ?_, fun hc => absurd hnone hc, fun _ hc => ?_, htaken,
      fun hc => absurd hnone hc, fun _ hc => absurd hm hc, ?_, hnomaster⟩
    · rw [hnone, getLsbD_zero] at hc
      cases hc
    · rwa [hsack] at hc
    · intro _ hacked hdue hgrant hbbsy hssyn
      have hwait : w.pru.arb.grantBbsySsynWaitGrantMask ≠ 0 := by
        intro hc
        apply hdue
        rw [due, hi.owed, hc, requestsLeft]
        split <;> rfl
      rw [due, hi.owed, requestsLeft, if_neg (by rw [ho.init hs hwait]; decide)] at hgrant
      rcases hline hacked hwait with hc | hc | hc
      · exact absurd hgrant hc
      · rw [hbbsy] at hc; cases hc
      · rw [hssyn] at hc; cases hc
  | accepted n hn haccepts heq hzero hsack hm =>
    have hne : w.accepts l ≠ 0 := by
      rw [haccepts]
      exact bit_ne_zero hn
    have howed : w.watch.owed = 0 := hi.owed.trans hzero
    refine ⟨hpassed, fun i hc => ?_, fun _ => hsack, fun hc => absurd hc hne, htaken,
      fun _ => ⟨⟨n, hn, haccepts⟩, howed, hmaster⟩, fun _ hc => absurd hm hc, ?_, hnomaster⟩
    · rw [haccepts, ← heq] at hc
      obtain ⟨hgrant, hinit, hrequest, _⟩ := getLsbD_acceptable hc
      exact ⟨hgrant, hinit, by rw [hi.requested]; exact hrequest⟩
    · intro _ _ hdue
      exfalso
      apply hdue
      rw [due, howed, requestsLeft]
      split <;> rfl
  | started n hn hnone hwait hsack hserves =>
    have hdue : w.due l = bit n := by
      have hinit := ho.init hs (by rw [hwait]; exact bit_ne_zero hn)
      rw [due, requestsLeft, if_neg (by rw [hinit]; decide), hi.owed, hwait]
    refine ⟨hpassed, fun i hc => ?_, fun hc => absurd hnone hc, fun _ hc => ?_, htaken,
      fun hc => absurd hnone hc, fun _ _ => ⟨n, hn, hdue, hserves⟩, fun _ _ _ _ _ _ => hserves.started,
      hnomaster⟩
    · rw [hnone, getLsbD_zero] at hc
      cases hc
    · rwa [hsack] at hc

/-- INIT does not drop what is due in an orderly round. -/
theorem due_eq {w : Watched} (hi : Inv w) {l : Lines} (hs : w.samples) (ho : Orderly w l) :
    w.due l = w.pru.arb.grantBbsySsynWaitGrantMask := by
  rw [due, requestsLeft, hi.owed]
  split
  · next hinit =>
    by_contra hc
    have hfalse := ho.init hs (Ne.symm hc)
    rw [hinit] at hfalse
    cases hfalse
  · rfl

theorem nextWatch_arbitrate {w : Watched} (l : Lines) (hs : w.samples) :
    w.nextWatch l = {
      requested := requestsLeft l w.watch.requested &&& ~~~w.accepts l
      passed := (w.watch.passed ||| (w.pru.mainStep l).grantOut) &&& grantIn l
      taken := (w.watch.taken ||| w.accepts l) &&& grantIn l
      owed :=
        if w.accepts l ≠ 0 then w.accepts l
        else if (w.pru.mainStep l).master = none then w.due l
        else 0 } := by
  rw [nextWatch, hs]

/-- A round of the arbitration. -/
theorem arbitrate_step {w : Watched} (hi : Inv w) (l : Lines) (hs : w.samples)
    (ho : Orderly w l) : GrantProtocol w l ∧ Inv (w.main l) := by
  have hstep := mainStep_arbitrate l hs
  obtain ⟨harb, hclient, hout⟩ := arbitrate_spec l w.pru hi.client
  have hphase : (w.pru.mainStep l).phase = .command := by rw [hstep]
  replace harb := harb.with_phase .command
  replace hclient : (w.pru.mainStep l).IsClient := by
    rw [hstep]
    exact ⟨hclient.worker, hclient.emulateCpu, hclient.cpuRequest⟩
  replace hout : (w.pru.mainStep l).grantOut = w.pru.passedOn l := by
    rw [hstep]
    exact hout
  rw [← hstep] at harb
  have hseen := seen_of_arbitrated hi hs ho harb
  have hprotocol := hseen.protocol hi hs ho hout
  refine ⟨hprotocol, ?_⟩
  have hwatch := nextWatch_arbitrate l hs
  have hpassed : ∀ i, (w.nextWatch l).passed.getLsbD i = true →
      (w.pru.mainStep l).grantOut.getLsbD i = true := by
    intro i hi'
    rw [hwatch, BitVec.getLsbD_and, BitVec.getLsbD_or, Bool.and_eq_true, Bool.or_eq_true] at hi'
    obtain ⟨hc | hc, hgrant⟩ := hi'
    · exact (hprotocol.passed i hc fun _ => hgrant).1
    · exact hc
  have htaken : ∀ i, (w.nextWatch l).taken.getLsbD i = true →
      (w.pru.mainStep l).grantOut.getLsbD i = false := by
    intro i hi'
    rw [hwatch, BitVec.getLsbD_and, BitVec.getLsbD_or, Bool.and_eq_true, Bool.or_eq_true] at hi'
    obtain ⟨hc | hc, hgrant⟩ := hi'
    · exact hprotocol.taken i (Or.inr ⟨hc, fun _ => hgrant⟩)
    · exact hprotocol.taken i (Or.inl hc)
  have hidle : (w.main l).samples → (w.pru.mainStep l).master = none := fun hc => by
    rw [samples, main, hphase] at hc
    cases hc
  -- What is left are the requests and the acceptance.
  cases hseen with
  | nothing hnone _ hm hrequest hwait =>
    refine ⟨hclient, ?_, hpassed, htaken, ?_, ?_, hidle, fun hc => absurd hm hc⟩
    · rw [main, hwatch, hnone, and_not_zero, hi.requested]
      exact hrequest.symm
    · show (w.nextWatch l).owed = (w.pru.mainStep l).arb.grantBbsySsynWaitGrantMask
      rw [hwatch, hwait, ← due_eq hi hs ho]
      simp [hnone, hm]
    · show SingleGrant (w.pru.mainStep l).arb.grantBbsySsynWaitGrantMask
      rw [hwait]
      exact hi.wait
  | accepted n hn haccepts _ _ _ hm hrequest hwait =>
    refine ⟨hclient, ?_, hpassed, htaken, ?_, Or.inr ⟨n, hn, hwait⟩, hidle,
      fun hc => absurd hm hc⟩
    · rw [main, hwatch, haccepts, hi.requested]
      exact hrequest.symm
    · show (w.nextWatch l).owed = (w.pru.mainStep l).arb.grantBbsySsynWaitGrantMask
      rw [hwatch, hwait, haccepts]
      exact if_pos (bit_ne_zero hn)
  | started n hn hnone _ _ hserves hrequest hwait =>
    refine ⟨hclient, ?_, hpassed, htaken, ?_, Or.inl hwait, hidle, fun _ => hwait⟩
    · rw [main, hwatch, hnone, and_not_zero, hi.requested]
      exact hrequest.symm
    · show (w.nextWatch l).owed = (w.pru.mainStep l).arb.grantBbsySsynWaitGrantMask
      rw [hwatch, hwait]
      simp [hnone, hserves.started]

/-! ## All runs -/

theorem Reached.inv {w : Watched} (h : Reached Orderly w) : Inv w := by
  refine Reachable.invariant (I := Inv) ?_ ?_ h
  · rintro _ rfl
    exact Inv.powerUp
  · intro w _ hi hstep
    cases hstep with
    | main l hc ho =>
      cases hphase : w.pru.phase with
      | slave => exact (slave_step hi l hphase).2
      | arbitrate => exact (arbitrate_step hi l hphase ho).2
      | command => exact (command_step hi l hphase hc).2
    | arm mailbox emulation timeouts =>
      exact ⟨⟨hi.client.worker, hi.client.emulateCpu, hi.client.cpuRequest⟩, hi.requested,
        hi.passed, hi.taken, hi.owed, hi.wait, hi.idle, hi.unserved⟩

/-- In every run whose steps are orderly, every step keeps to the protocol of the grants. -/
theorem grantProtocol_of_orderly (w : Watched) (h : Reached Orderly w) (l : Lines)
    (hc : w.pru.ClientCommand) (ho : Orderly w l) : GrantProtocol w l := by
  have hi := Reached.inv h
  cases hphase : w.pru.phase with
  | slave => exact (slave_step hi l hphase).1.protocol hi
  | arbitrate => exact (arbitrate_step hi l hphase ho).1
  | command => exact (command_step hi l hphase hc).1.protocol hi

/-- A bus with the NPR grant asserted, and an idle one. -/
def npgLines : Lines := fun reg _ => if reg = 0 then bitNp else 0

def idleLines : Lines := fun _ _ => 0

/-- ARM asks for a DMA transfer. -/
def askDma (w : Watched) : Watched :=
  { w with pru := { w.pru with mailbox := { w.pru.mailbox with arm2pruReq := .dma } } }

theorem Reached.askDma {cond : Watched → Lines → Prop} {w : Watched} (h : Reached cond w) :
    Reached cond w.askDma :=
  h.step (.arm { w.pru.mailbox with arm2pruReq := .dma } w.pru.emulation w.pru.timeouts)

/-- The request is on the lines, the arbitration of the next round is due. -/
def signalled : Watched := (fun w => w.main idleLines)^[7] powerUp.askDma

theorem orderly_idleLines (w : Watched) : Orderly w idleLines := by
  have hnone (i : ℕ) : ¬ (grantIn idleLines).getLsbD i = true := by
    rw [show grantIn idleLines = 0 from rfl, getLsbD_zero]
    decide
  refine ⟨fun _ i hc => absurd hc (hnone i), fun _ i hc => absurd hc (hnone i), fun _ _ _ => ?_,
    fun _ _ => rfl⟩
  left
  rw [show grantIn idleLines = 0#8 from rfl, BitVec.zero_and, BitVec.zero_and]
  rfl

theorem signalled_reached : Reached Orderly signalled := by
  have hask : Reached Orderly powerUp.askDma := Reached.askDma (.init rfl)
  have hidle {w : Watched} (h : Reached Orderly w) (hc : w.pru.ClientCommand) :
      Reached Orderly (w.main idleLines) := h.step (.main idleLines hc (orderly_idleLines w))
  exact hidle (hidle (hidle (hidle (hidle (hidle (hidle hask rfl) rfl) rfl) trivial) trivial)
    trivial) trivial

theorem orderly_signalled : Orderly signalled npgLines := by
  refine ⟨fun _ i _ hc => ?_, fun _ i _ hc => ?_, fun _ _ _ => ?_, fun _ _ => rfl⟩
  · rw [show signalled.watch.passed = 0 from by decide, getLsbD_zero] at hc
    cases hc
  · rw [show signalled.watch.taken = 0 from by decide, getLsbD_zero] at hc
    cases hc
  · exact Or.inr ⟨4, by decide, by decide⟩

theorem grantProtocol_signalled :
    signalled.accepts npgLines = bitNp ∧ GrantProtocol signalled npgLines :=
  ⟨by decide, grantProtocol_of_orderly signalled signalled_reached npgLines trivial
    orderly_signalled⟩

/-- NPG is passed on while nothing is requested, then ARM requests a transfer. -/
def requestedLate : Watched :=
  (fun w => w.main npgLines)^[5] (askDma ((fun w => w.main npgLines)^[2] powerUp))

/-- A grant that has been passed on is withdrawn and accepted. -/
theorem passed_grant_accepted :
    Reached (fun _ _ => True) requestedLate ∧ requestedLate.pru.ClientCommand ∧
      requestedLate.watch.passed = bitNp ∧ grantIn npgLines = bitNp ∧
      (requestedLate.pru.mainStep npgLines).grantOut = 0 ∧
      requestedLate.accepts npgLines = bitNp ∧ ¬ GrantProtocol requestedLate npgLines := by
  have hmain {w : Watched} (h : Reached (fun _ _ => True) w) (hc : w.pru.ClientCommand) :
      Reached (fun _ _ => True) (w.main npgLines) := h.step (.main npgLines hc trivial)
  have hpassed : Reached (fun _ _ => True) (askDma ((fun w => w.main npgLines)^[2] powerUp)) :=
    Reached.askDma (hmain (hmain (.init rfl) trivial) trivial)
  have hreached : Reached (fun _ _ => True) requestedLate :=
    hmain (hmain (hmain (hmain (hmain hpassed rfl) trivial) trivial) trivial) trivial
  have hout : (requestedLate.pru.mainStep npgLines).grantOut = 0 := by decide
  have hwatch : requestedLate.watch.passed = bitNp := by decide
  refine ⟨hreached, trivial, hwatch, by decide, hout, by decide, ?_⟩
  intro hprotocol
  have h4 := (hprotocol.passed 4 (by rw [hwatch]; rfl) fun _ => rfl).1
  rw [hout] at h4
  cases h4

end Watched

end QUniBone.PruU
