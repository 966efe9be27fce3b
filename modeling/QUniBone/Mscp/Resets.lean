import QUniBone.Mscp.Polling
import QUniBone.Lib.Transition

/-!
# Resets and polls

`_pollState` is one word for two requests. A request to poll that comes while the worker waits in
`Reset()` takes the request to restart back, and the polling thread then does not signal. In the
same way, the transitions of `_initStep` overwrite a reset that the worker has not yet seen. And
the worker clears SA first, even for a reset that comes from a port error.

* `Sound`: what host and port rely on.
* `Requests`, `Quiet`, `Scans`: the invariant, for the words that it is about.
* `sound_of_careful`: the runs in which no request meets another one.
-/

namespace QUniBone.MscpServer

variable {s t : State}

/-! ## The property -/

/-- Worker and polling thread can complete the reset in at most `n` steps. -/
def CompletesWithin (n : ℕ) (s : State) : Prop :=
  ∃ as t, (∀ a ∈ as, a.ofThreads = true) ∧ as.length ≤ n ∧ Transition.run step s as = some t ∧
    t.pending = false

structure Sound (s : State) : Prop where
  /-- A reset that is requested is completed. -/
  completes : s.pending = true → CompletesWithin 11 s
  /-- While `Reset()` waits, the polling thread is on its way to tell it. -/
  restarts : s.worker = .resetWait → s.pollState = .initRestart ∧ s.poller ≠ .waiting
  /-- The polling thread sleeps when it has nothing to do. -/
  asleep : s.poller = .waiting → s.pollState = .wait
  /-- From the end of `Reset()` to the end of the initialization it is idle. -/
  quiet : s.worker.hasReset = true ∨ s.afterReset = true →
    s.pollState = .wait ∧ s.poller.idle = true
  finished : s.poller.idle = true → s.messages = 0
  /-- It does not sleep before it has looked for the announced commands. -/
  scanned : s.poller = .waiting → s.pending = true ∨ s.announced = 0
  readable : ∀ c, s.errorCode = some c → s.sa = c

/-! ## Steps of a run -/

structure Initial (s : State) : Prop where
  initStep : s.initStep = .uninitialized
  nextStep : s.nextStep = false
  pollState : s.pollState = .wait
  worker : s.worker = .idle
  poller : s.poller = .top
  bus : s.bus = .idle
  ring : s.ring = 0
  messages : s.messages = 0
  pending : s.pending = false
  afterReset : s.afterReset = true
  announced : s.announced = 0
  errorCode : s.errorCode = none

def AnyStep (s t : State) : Prop := ∃ a, step s a = some t

/-- No reset is requested when the last one is complete and the worker has still to go to step 1.
No poll is requested from the time that `Reset()` waits to the end of the initialization. SA is
not written as long as the worker has still to see a reset. And SA is not changed while it shows
the code of a port error. -/
def Careful (s : State) : Action → Prop
  | .init | .ipTransition => s.worker ≠ .transition
  | .initPolling _ => s.worker ≠ .resetWait ∧ s.worker ≠ .resetWoken ∧
      s.worker.hasReset = false ∧ s.afterReset = false
  | .saTransition => s.worker.resets = true ∨ s.initStep ≠ .uninitialized ∨
      s.nextStep = false ∧ s.worker ≠ .taken
  | .clearSA | .stepSA | .saZero => s.errorCode = none
  | _ => True

def CarefulStep (s t : State) : Prop := ∃ a, Careful s a ∧ step s a = some t

/-! ## Requests for a reset -/

/-- A request is in `_initStep`, until the worker is on its way through `Reset()`. -/
structure Requests (pending : Bool) (initStep : InitStep) (nextStep : Bool) (worker : Worker) :
    Prop where
  kept : pending = true → worker.resets = true ∨
    initStep = .uninitialized ∧ (nextStep = true ∨ worker = .taken)
  resets : worker.resets = true → pending = true
  taken : worker = .taken → initStep = .uninitialized → pending = true
  next : nextStep = true → initStep = .uninitialized → worker ≠ .transition → pending = true
  transition : worker = .transition → pending = false

namespace Requests

variable {pending nextStep : Bool} {initStep : InitStep} {worker : Worker}

theorem request (hne : worker ≠ .transition) :
    Requests true .uninitialized true worker :=
  ⟨fun _ => .inr ⟨rfl, .inl rfl⟩, fun _ => rfl, fun _ _ => rfl, fun _ _ _ => rfl,
    fun hw => absurd hw hne⟩

/-- The host is ahead of the worker. -/
theorem saTransition (h : Requests pending initStep nextStep worker) {next : InitStep}
    (hnext : next ≠ .uninitialized)
    (hcareful : worker.resets = true ∨ initStep ≠ .uninitialized ∨
      nextStep = false ∧ worker ≠ .taken) : Requests pending next true worker := by
  refine ⟨fun hp => .inl ?_, h.resets, fun _ hn => absurd hn hnext, fun _ hn => absurd hn hnext,
    h.transition⟩
  rcases h.kept hp with hw | ⟨hi, hn⟩
  · exact hw
  · rcases hcareful with hw | hne | ⟨hno, hne⟩
    · exact hw
    · exact absurd hi hne
    · rcases hn with hn | hn
      · exact absurd (hn.symm.trans hno) nofun
      · exact absurd hn hne

theorem take (h : Requests pending initStep true .idle) :
    Requests pending initStep false .taken := by
  refine ⟨fun hp => ?_, nofun, fun _ hi => h.next rfl hi nofun, nofun, nofun⟩
  rcases h.kept hp with hw | ⟨hi, -⟩
  · cases hw
  · exact .inr ⟨hi, .inr rfl⟩

/-- The worker looks at `_initStep`. -/
theorem switch (h : Requests pending initStep nextStep .taken) :
    Requests pending initStep nextStep (.branch initStep) := by
  cases initStep with
  | uninitialized => exact ⟨fun _ => .inl rfl, fun _ => h.taken rfl rfl, nofun,
      fun hn hi _ => h.next hn hi nofun, nofun⟩
  | _ => exact ⟨fun hp => absurd (h.kept hp) (by simp [Worker.resets]), nofun,
      fun _ hi => absurd hi nofun, fun _ hi => absurd hi nofun, nofun⟩

/-- The worker goes on in its reset, or back to sleep after a step. -/
theorem move (h : Requests pending initStep nextStep worker) {w : Worker}
    (hresets : w.resets = worker.resets) (htaken : worker ≠ .taken) (hto : w ≠ .taken)
    (htransition : worker ≠ .transition) (htransition' : w ≠ .transition) :
    Requests pending initStep nextStep w := by
  refine ⟨fun hp => ?_, fun hw => h.resets (hresets ▸ hw), fun hw => absurd hw hto,
    fun hn hi _ => h.next hn hi htransition, fun hw => absurd hw htransition'⟩
  rcases h.kept hp with hw | ⟨hi, hn⟩
  · exact .inl (hresets.trans hw)
  · exact .inr ⟨hi, .inl (hn.resolve_right htaken)⟩

theorem resetFields : Requests false initStep nextStep .transition :=
  ⟨nofun, nofun, nofun, fun _ _ hne => absurd rfl hne, fun _ => rfl⟩

theorem step1Transition (h : Requests pending initStep nextStep .transition) :
    Requests pending .step1 true .idle := by
  rw [h.transition rfl]
  exact ⟨nofun, nofun, nofun, fun _ hi => absurd hi nofun, nofun⟩

end Requests

/-! ## The polling thread and `Reset()` -/

structure Quiet (pollState : PollState) (worker : Worker) (poller : Poller) (messages : ℕ)
    (afterReset : Bool) : Prop where
  waits : pollState = .wait → poller.idle = true
  asleep : poller = .waiting → pollState = .wait
  restart : pollState = .initRestart → worker = .resetWait ∨ worker = .resetWoken
  resetWait : worker = .resetWait → pollState = .initRestart
  resetWoken : worker = .resetWoken → pollState = .initRestart ∨ pollState = .wait
  settled : worker.hasReset = true ∨ afterReset = true → pollState = .wait
  empty : poller.idle = true → messages = 0

namespace Quiet

variable {pollState : PollState} {worker : Worker} {poller : Poller} {messages : ℕ}
  {afterReset : Bool}

/-- The worker does something else than `Reset()`. -/
theorem move (h : Quiet pollState worker poller messages afterReset) {w : Worker}
    (hfrom : worker ≠ .resetWait ∧ worker ≠ .resetWoken)
    (hto : w ≠ .resetWait ∧ w ≠ .resetWoken)
    (hreset : w.hasReset = true → pollState = .wait) :
    Quiet pollState w poller messages afterReset where
  waits := h.waits
  asleep := h.asleep
  restart hp := absurd (h.restart hp) (by simp [hfrom])
  resetWait hw := absurd hw hto.1
  resetWoken hw := absurd hw hto.2
  settled hw := hw.elim hreset fun ha => h.settled (.inr ha)
  empty := h.empty

/-- The polling thread goes on inside of its loops. -/
theorem pass (h : Quiet pollState worker poller messages afterReset) {p : Poller} {n : ℕ}
    (hfrom : poller.idle = false) (hto : p.idle = false) :
    Quiet pollState worker p n afterReset where
  waits hp := absurd ((h.waits hp).symm.trans hfrom) nofun
  asleep hp := by
    rw [hp] at hto
    cases hto
  restart := h.restart
  resetWait := h.resetWait
  resetWoken := h.resetWoken
  settled := h.settled
  empty hp := absurd (hp.symm.trans hto) nofun

theorem lock (h : Quiet pollState .resetting poller messages afterReset)
    (hne : pollState ≠ .wait) : Quiet .initRestart .resetWait poller messages afterReset where
  waits := nofun
  asleep hp := absurd (h.asleep hp) hne
  restart _ := .inl rfl
  resetWait _ := rfl
  resetWoken := nofun
  settled hw := by
    rcases hw with hw | ha
    · cases hw
    · exact absurd (h.settled (.inr ha)) hne
  empty := h.empty

theorem wake (h : Quiet pollState .resetWait poller messages afterReset) :
    Quiet pollState .resetWoken poller messages afterReset where
  waits := h.waits
  asleep := h.asleep
  restart _ := .inr rfl
  resetWait := nofun
  resetWoken _ := .inl (h.resetWait rfl)
  settled hw := h.settled (.inr (hw.resolve_left nofun))
  empty := h.empty

theorem resetFields (h : Quiet pollState .resetReturned poller messages afterReset) :
    Quiet pollState .transition poller messages true :=
  ⟨h.waits, h.asleep, fun hp => (h.restart hp).elim nofun nofun, nofun, nofun,
    fun _ => h.settled (.inl rfl), h.empty⟩

theorem complete (h : Quiet pollState worker poller messages afterReset) :
    Quiet pollState worker poller messages false :=
  ⟨h.waits, h.asleep, h.restart, h.resetWait, h.resetWoken,
    fun hw => h.settled (.inl (hw.resolve_right nofun)), h.empty⟩

/-- Initialization is complete: the host starts the polling thread. -/
theorem initPolling (h : Quiet pollState worker poller messages false)
    (hcareful : worker ≠ .resetWait ∧ worker ≠ .resetWoken ∧ worker.hasReset = false) :
    Quiet .initRun worker (if poller = .waiting then .woken else poller) messages false where
  waits := nofun
  asleep hp := by
    split_ifs at hp with hw
    exact absurd hp hw
  restart := nofun
  resetWait hw := absurd hw hcareful.1
  resetWoken hw := absurd hw hcareful.2.1
  settled hw := absurd ((hw.resolve_right nofun).symm.trans hcareful.2.2) nofun
  empty hp := by
    apply h.empty
    split_ifs at hp with hw
    · rw [hw]
      rfl
    · exact hp

/-- The polling thread looks at `_pollState`. -/
theorem pollCheck (h : Quiet pollState worker poller messages afterReset)
    (hne : pollState ≠ .wait) :
    Quiet (if pollState = .initRun then .run else pollState) worker .draining messages
      afterReset where
  waits hp := by
    split_ifs at hp
    exact absurd hp hne
  asleep := nofun
  restart hp := by
    split_ifs at hp
    exact h.restart hp
  resetWait hw := by
    rw [if_neg (by rw [h.resetWait hw]; nofun)]
    exact h.resetWait hw
  resetWoken hw := by
    have hp := (h.resetWoken hw).resolve_right hne
    rw [if_neg (by rw [hp]; nofun)]
    exact .inl hp
  settled hw := absurd (h.settled hw) hne
  empty := nofun

theorem sleep (h : Quiet .wait worker poller messages afterReset) {p : Poller}
    (hp : p.idle = true) : Quiet .wait worker p messages afterReset where
  waits _ := hp
  asleep _ := rfl
  restart := nofun
  resetWait hw := absurd (h.resetWait hw) nofun
  resetWoken _ := .inr rfl
  settled _ := rfl
  empty _ := h.empty (h.waits rfl)

/-- The polling thread goes back to sleep, or around again. -/
theorem finish (h : Quiet pollState worker .finishing messages afterReset) :
    Quiet (if pollState = .initRun then .run else .wait)
      (if pollState = .initRestart ∧ worker = .resetWait then .resetWoken else worker) .top 0
      afterReset where
  waits _ := rfl
  asleep := nofun
  restart hp := by split_ifs at hp
  resetWait hw := by
    split_ifs at hw with hrestart
    exact absurd ⟨h.resetWait hw, hw⟩ hrestart
  resetWoken hw := by
    by_cases hw' : worker = .resetWait
    · rw [if_neg (by rw [h.resetWait hw']; nofun)]
      exact .inr rfl
    · rw [if_neg (fun hc => hw' hc.2)] at hw
      rcases h.resetWoken hw with hp | hp
      · rw [hp]
        exact .inr rfl
      · exact absurd (h.waits hp) nofun
  settled hw := by
    refine absurd (h.waits (h.settled ?_)) nofun
    refine hw.imp (fun hw => ?_) id
    split_ifs at hw with hrestart
    · cases hw
    · exact hw
  empty _ := rfl

end Quiet

/-! ## Announced commands -/

structure Scans (ring announced : ℕ) (pending : Bool) (pollState : PollState) (poller : Poller) :
    Prop where
  le : announced ≤ ring
  ahead : announced ≠ 0 → pending = true ∨ pollState = .initRun ∨ pollState = .run ∧
    (poller = .top ∨ poller = .draining ∨ poller = .fetching ∨ poller = .erring)

/-- Behind its look at the ring, the polling thread is as good anywhere. -/
theorem Scans.past {ring announced : ℕ} {pending : Bool} {pollState : PollState}
    {poller p : Poller} (h : Scans ring announced pending pollState poller)
    (hp : poller ≠ .top ∧ poller ≠ .draining ∧ poller ≠ .fetching ∧ poller ≠ .erring) :
    Scans ring announced pending pollState p := by
  refine ⟨h.le, fun ha => (h.ahead ha).imp id (.imp id fun hrun => ?_)⟩
  simp [hp] at hrun

/-- The invariant of careful runs. -/
structure Inv (s : State) : Prop where
  requests : Requests s.pending s.initStep s.nextStep s.worker
  quiet : Quiet s.pollState s.worker s.poller s.messages s.afterReset
  scans : Scans s.ring s.announced s.pending s.pollState s.poller
  readable : ∀ c, s.errorCode = some c → s.sa = c
  writing : s.bus ≠ .saWriting .uninitialized

namespace Inv

/-- While `Reset()` waits, a reset is pending. -/
theorem pending_of_restart (h : Inv s) (hp : s.pollState = .initRestart) : s.pending = true := by
  apply h.requests.resets
  rcases h.quiet.restart hp with hw | hw
  · rw [hw]
    rfl
  · rw [hw]
    rfl

theorem init (h : Inv s) (hne : s.worker ≠ .transition) :
    Inv { s.request with sa := 0, errorCode := none } :=
  ⟨.request hne, h.quiet, ⟨h.scans.le, fun _ => .inl rfl⟩, nofun, h.writing⟩

theorem ipTransition (h : Inv s) (hne : s.worker ≠ .transition) :
    Inv { s.request with bus := .idle } :=
  ⟨.request hne, h.quiet, ⟨h.scans.le, fun _ => .inl rfl⟩, h.readable, nofun⟩

theorem portError (h : Inv s) (herring : s.poller = .erring) :
    Inv { s.request with poller := .executing, messages := 0 } where
  requests := by
    refine .request fun hw => ?_
    have hreset : s.worker.hasReset = true := congrArg Worker.hasReset hw
    have hidle := h.quiet.waits (h.quiet.settled (.inl hreset))
    rw [herring] at hidle
    cases hidle
  quiet := h.quiet.pass (by rw [herring]; rfl) rfl
  scans := ⟨h.scans.le, fun _ => .inl rfl⟩
  readable := h.readable
  writing := h.writing

/-- The worker moves, and nothing else. -/
theorem moveWorker (h : Inv s) {w : Worker} {nextStep : Bool}
    (hrequests : Requests s.pending s.initStep nextStep w)
    (hquiet : Quiet s.pollState w s.poller s.messages s.afterReset) :
    Inv { s with worker := w, nextStep } :=
  ⟨hrequests, hquiet, h.scans, h.readable, h.writing⟩

/-- The polling thread moves inside of its loops. -/
theorem movePoller (h : Inv s) {p : Poller} {n : ℕ} (hfrom : s.poller.idle = false)
    (hto : p.idle = false)
    (hscans : Scans s.ring s.announced s.pending s.pollState p) :
    Inv { s with poller := p, messages := n } :=
  ⟨h.requests, h.quiet.pass hfrom hto, hscans, h.readable, h.writing⟩

theorem resetCheck (h : Inv s) (hw : s.worker = .resetWoken) :
    Inv { s with worker := if s.pollState = .wait then .resetReturned else .resetWait } := by
  have hmove := h.requests.move
    (w := if s.pollState = .wait then .resetReturned else .resetWait)
    (by rw [hw]; split_ifs <;> rfl) (by rw [hw]; nofun) (by split_ifs <;> nofun)
    (by rw [hw]; nofun) (by split_ifs <;> nofun)
  refine ⟨hmove, ?_, h.scans, h.readable, h.writing⟩
  obtain ⟨hwaits, hasleep, -, -, hwoken, hsettled, hempty⟩ := h.quiet
  rcases hwoken hw with hp | hp
  · rw [if_neg (by rw [hp]; nofun)]
    exact ⟨hwaits, hasleep, fun _ => .inl rfl, fun _ => hp, nofun,
      fun hr => hsettled (.inr (hr.resolve_left nofun)), hempty⟩
  · rw [if_pos hp]
    exact ⟨hwaits, hasleep, fun hr => absurd (hp.symm.trans hr) nofun, nofun, nofun,
      fun _ => hp, hempty⟩

theorem initPolling (h : Inv s) (hcareful : s.worker ≠ .resetWait ∧ s.worker ≠ .resetWoken ∧
      s.worker.hasReset = false ∧ s.afterReset = false) {first : Bool} :
    Inv ({ s with bus := .idle, pollState := .initRun, announced := s.ring }.signal first) := by
  obtain ⟨hwait, hwoken, hreset, hafter⟩ := hcareful
  have hquiet := h.quiet
  rw [hafter] at hquiet
  have hnext := hquiet.initPolling ⟨hwait, hwoken, hreset⟩
  have hscans : ∀ p, Scans s.ring s.ring s.pending .initRun p :=
    fun p => ⟨le_refl _, fun _ => .inr (.inl rfl)⟩
  rw [← hafter] at hnext
  unfold State.signal
  by_cases hp : s.poller = .waiting
  · rw [if_pos ⟨hp, .inr hwait⟩]
    rw [if_pos hp] at hnext
    exact ⟨h.requests, hnext, hscans _, h.readable, nofun⟩
  · rw [if_neg fun hc => hp hc.1, if_neg (by exact hwait)]
    rw [if_neg hp] at hnext
    exact ⟨h.requests, hnext, hscans _, h.readable, nofun⟩

theorem pollCheck (h : Inv s) :
    Inv (match s.pollState with
      | .wait => { s with poller := .waiting }
      | .initRun => { s with pollState := .run, poller := .draining }
      | _ => { s with poller := .draining }) := by
  have hquiet := h.quiet
  have hnext := hquiet.pollCheck
  cases hp : s.pollState with
  | wait =>
    rw [hp] at hquiet
    refine ⟨h.requests, hquiet.sleep rfl, ⟨h.scans.le, fun ha => ?_⟩, h.readable, h.writing⟩
    rcases h.scans.ahead ha with hpend | hrun | ⟨hrun, -⟩
    · exact .inl hpend
    · exact absurd (hp.symm.trans hrun) nofun
    · exact absurd (hp.symm.trans hrun) nofun
  | initRun =>
    rw [hp] at hnext
    exact ⟨h.requests, hnext nofun, ⟨h.scans.le, fun _ => .inr (.inr ⟨rfl, .inr (.inl rfl)⟩)⟩,
      h.readable, h.writing⟩
  | run =>
    rw [hp] at hnext
    exact ⟨h.requests, hnext nofun, ⟨h.scans.le, fun _ => .inr (.inr ⟨rfl, .inr (.inl rfl)⟩)⟩,
      h.readable, h.writing⟩
  | initRestart =>
    rw [hp] at hnext
    exact ⟨h.requests, hnext nofun, ⟨h.scans.le, fun _ => .inl (h.pending_of_restart hp)⟩,
      h.readable, h.writing⟩

theorem drain (h : Inv s) (hp : s.poller = .draining) :
    Inv { s with
      poller := if s.pollState = .initRestart then .executing else .fetching } := by
  refine h.movePoller (by rw [hp]; rfl) (by split_ifs <;> rfl) ⟨h.scans.le, fun ha => ?_⟩
  by_cases hrestart : s.pollState = .initRestart
  · exact .inl (h.pending_of_restart hrestart)
  · rw [if_neg hrestart]
    refine (h.scans.ahead ha).imp id (.imp id fun hrun => ⟨hrun.1, ?_⟩)
    exact .inr (.inr (.inl rfl))

theorem fetch (h : Inv s) (hp : s.poller = .fetching) :
    Inv (if s.ring = 0 then { s with poller := .executing }
      else { s with
        poller := .draining
        ring := s.ring - 1
        announced := s.announced - 1
        messages := s.messages + 1 }) := by
  have hle := h.scans.le
  have hfrom : s.poller.idle = false := by rw [hp]; rfl
  split_ifs with hring
  · refine h.movePoller hfrom rfl ⟨hle, fun ha => ?_⟩
    omega
  · refine ⟨h.requests, h.quiet.pass hfrom rfl, ⟨?_, fun ha => ?_⟩, h.readable, h.writing⟩
    · show s.announced - 1 ≤ s.ring - 1
      omega
    · have hsome : s.announced ≠ 0 := by
        intro hzero
        exact ha (by show s.announced - 1 = 0; omega)
      refine (h.scans.ahead hsome).imp id (.imp id fun hrun => ⟨hrun.1, ?_⟩)
      exact .inr (.inl rfl)

theorem finish (h : Inv s) (hp : s.poller = .finishing) :
    Inv (match s.pollState with
      | .initRestart => { s with poller := .top, messages := 0, pollState := .wait }.signal true
      | .initRun => { s with poller := .top, messages := 0, pollState := .run }
      | _ => { s with poller := .top, messages := 0, pollState := .wait }) := by
  have hquiet := h.quiet
  rw [hp] at hquiet
  have hnext := hquiet.finish
  have hpast : s.pollState = .run → s.announced ≠ 0 → s.pending = true := by
    intro hrun ha
    rcases h.scans.ahead ha with hpend | hinit | ⟨-, hahead⟩
    · exact hpend
    · exact absurd (hrun.symm.trans hinit) nofun
    · rw [hp] at hahead
      exact absurd hahead (by simp)
  cases hs : s.pollState with
  | initRestart =>
    rw [hs] at hnext
    have hpend := h.pending_of_restart hs
    by_cases hw : s.worker = .resetWait
    · simp only [reduceCtorEq, hw, and_self, ↓reduceIte] at hnext
      have hmove := h.requests.move (w := .resetWoken) (by rw [hw]; rfl) (by rw [hw]; nofun) nofun
        (by rw [hw]; nofun) nofun
      rw [State.signal, if_neg (by simp), if_pos (by exact hw)]
      exact ⟨hmove, hnext, ⟨h.scans.le, fun _ => .inl hpend⟩, h.readable, h.writing⟩
    · simp only [reduceCtorEq, hw, and_false, ↓reduceIte] at hnext
      rw [State.signal, if_neg (by simp), if_neg (by exact hw)]
      exact ⟨h.requests, hnext, ⟨h.scans.le, fun _ => .inl hpend⟩, h.readable, h.writing⟩
  | initRun =>
    rw [hs] at hnext
    exact ⟨h.requests, hnext, ⟨h.scans.le, fun _ => .inr (.inr ⟨rfl, .inl rfl⟩)⟩, h.readable, h.writing⟩
  | run =>
    rw [hs] at hnext
    exact ⟨h.requests, hnext, ⟨h.scans.le, fun ha => .inl (hpast hs ha)⟩, h.readable, h.writing⟩
  | wait => exact absurd (hquiet.waits hs) nofun

/-- SA changes, and shows no error. -/
theorem setSa (h : Inv s) (hnone : s.errorCode = none) (sa : BitVec 16) : Inv { s with sa } :=
  ⟨h.requests, h.quiet, h.scans, fun _ hc => absurd (hnone.symm.trans hc) nofun, h.writing⟩

theorem setBus (h : Inv s) {step1Value : BitVec 16} {bus : Bus}
    (hbus : bus ≠ .saWriting .uninitialized) : Inv { s with step1Value, bus } :=
  ⟨h.requests, h.quiet, h.scans, h.readable, hbus⟩

theorem step (h : Inv s) {a : Action} (hcareful : Careful s a)
    (hstep : MscpServer.step s a = some t) : Inv t := by
  cases a with
  | init =>
    simp only [MscpServer.step, Option.ite_none_right_eq_some] at hstep
    obtain rfl := Option.some.inj hstep.2
    exact h.init hcareful
  | ipWrite =>
    simp only [MscpServer.step, Option.ite_none_right_eq_some] at hstep
    obtain rfl := Option.some.inj hstep.2
    exact ⟨h.requests, h.quiet, h.scans, nofun, nofun⟩
  | ipTransition =>
    simp only [MscpServer.step, Option.ite_none_right_eq_some] at hstep
    obtain rfl := Option.some.inj hstep.2
    exact h.ipTransition hcareful
  | ipRead =>
    simp only [MscpServer.step, Option.ite_none_right_eq_some] at hstep
    obtain rfl := Option.some.inj hstep.2
    split_ifs
    · exact h.setBus nofun
    · exact h
  | initPolling first =>
    simp only [MscpServer.step, Option.ite_none_right_eq_some] at hstep
    obtain rfl := Option.some.inj hstep.2
    exact h.initPolling hcareful
  | saWrite value =>
    simp only [MscpServer.step, Option.ite_none_right_eq_some] at hstep
    obtain ⟨-, ht⟩ := hstep
    split at ht <;> obtain rfl := Option.some.inj ht
    · exact h.setBus nofun
    · exact h.setBus nofun
    · exact h.setBus nofun
    · exact h.setBus nofun
    · split_ifs
      · exact h
      · exact h.setBus nofun
    · exact h
  | saTransition =>
    simp only [MscpServer.step] at hstep
    split at hstep
    · obtain rfl := Option.some.inj hstep
      exact ⟨h.requests.saTransition nofun hcareful, h.quiet.complete, h.scans, h.readable, nofun⟩
    · rename_i next _ hbus
      obtain rfl := Option.some.inj hstep
      have hnext : next ≠ .uninitialized := by
        rintro rfl
        exact h.writing hbus
      exact ⟨h.requests.saTransition hnext hcareful, h.quiet, h.scans, h.readable, nofun⟩
    · cases hstep
  | saZero =>
    simp only [MscpServer.step, Option.ite_none_right_eq_some] at hstep
    obtain rfl := Option.some.inj hstep.2
    exact (h.setSa hcareful 0).setBus nofun
  | post =>
    simp only [MscpServer.step, Option.ite_none_right_eq_some] at hstep
    obtain rfl := Option.some.inj hstep.2
    exact ⟨h.requests, h.quiet, ⟨h.scans.le.trans (Nat.le_succ _), h.scans.ahead⟩, h.readable,
      h.writing⟩
  | workerTake =>
    simp only [MscpServer.step, Option.ite_none_right_eq_some] at hstep
    obtain ⟨⟨hw, hn⟩, ht⟩ := hstep
    obtain rfl := Option.some.inj ht
    have hrequests := h.requests
    rw [hw, hn] at hrequests
    exact h.moveWorker hrequests.take (h.quiet.move (by simp [hw]) (by simp) nofun)
  | workerSwitch =>
    simp only [MscpServer.step, Option.ite_none_right_eq_some] at hstep
    obtain ⟨hw, ht⟩ := hstep
    obtain rfl := Option.some.inj ht
    have hrequests := h.requests
    rw [hw] at hrequests
    refine h.moveWorker hrequests.switch (h.quiet.move (by simp [hw]) ?_ ?_)
    · cases s.initStep <;> simp [Worker.branch]
    · cases s.initStep <;> nofun
  | clearSA =>
    simp only [MscpServer.step, Option.ite_none_right_eq_some] at hstep
    obtain ⟨hw, ht⟩ := hstep
    obtain rfl := Option.some.inj ht
    exact (h.setSa hcareful 0).moveWorker
      (h.requests.move (by rw [hw]; rfl) (by rw [hw]; nofun) nofun (by rw [hw]; nofun) nofun)
      (h.quiet.move (by simp [hw]) (by simp) nofun)
  | resetLock =>
    simp only [MscpServer.step, Option.ite_none_right_eq_some] at hstep
    obtain ⟨hw, ht⟩ := hstep
    obtain rfl := Option.some.inj ht
    have hrequests : ∀ w : Worker, w.resets = true → Requests s.pending s.initStep s.nextStep w :=
      fun w hr => h.requests.move (by rw [hw, hr]; rfl) (by rw [hw]; nofun)
        (by rintro rfl; cases hr) (by rw [hw]; nofun) (by rintro rfl; cases hr)
    split_ifs with hwait
    · exact h.moveWorker (hrequests _ rfl) (h.quiet.move (by simp [hw]) (by simp) fun _ => hwait)
    · have hquiet := h.quiet
      rw [hw] at hquiet
      refine ⟨hrequests _ rfl, hquiet.lock hwait, ⟨h.scans.le, fun _ => .inl ?_⟩, h.readable,
        h.writing⟩
      exact h.requests.resets (by rw [hw]; rfl)
  | resetWake =>
    simp only [MscpServer.step, Option.ite_none_right_eq_some] at hstep
    obtain ⟨hw, ht⟩ := hstep
    obtain rfl := Option.some.inj ht
    have hquiet := h.quiet
    rw [hw] at hquiet
    exact h.moveWorker
      (h.requests.move (by rw [hw]; rfl) (by rw [hw]; nofun) nofun (by rw [hw]; nofun) nofun)
      hquiet.wake
  | resetCheck =>
    simp only [MscpServer.step, Option.ite_none_right_eq_some] at hstep
    obtain ⟨hw, ht⟩ := hstep
    obtain rfl := Option.some.inj ht
    exact h.resetCheck hw
  | resetFields =>
    simp only [MscpServer.step, Option.ite_none_right_eq_some] at hstep
    obtain ⟨hw, ht⟩ := hstep
    obtain rfl := Option.some.inj ht
    have hquiet := h.quiet
    rw [hw] at hquiet
    exact ⟨.resetFields, hquiet.resetFields, ⟨le_refl _, fun ha => absurd rfl ha⟩, h.readable,
      h.writing⟩
  | step1Transition =>
    simp only [MscpServer.step, Option.ite_none_right_eq_some] at hstep
    obtain ⟨hw, ht⟩ := hstep
    obtain rfl := Option.some.inj ht
    have hrequests := h.requests
    rw [hw] at hrequests
    exact ⟨hrequests.step1Transition, h.quiet.move (by simp [hw]) (by simp) nofun, h.scans,
      h.readable, h.writing⟩
  | stepSA =>
    simp only [MscpServer.step] at hstep
    split at hstep
    · rename_i next hw
      obtain rfl := Option.some.inj hstep
      have hnone : s.errorCode = none := hcareful
      exact ⟨h.requests.move (by rw [hw]; rfl) (by rw [hw]; nofun) nofun (by rw [hw]; nofun) nofun,
        h.quiet.move (by simp [hw]) (by simp) nofun, h.scans,
        fun _ hc => absurd (hnone.symm.trans hc) nofun, h.writing⟩
    · cases hstep
  | pollCheck =>
    simp only [MscpServer.step, Option.ite_none_right_eq_some] at hstep
    obtain rfl := Option.some.inj hstep.2
    exact h.pollCheck
  | pollWake =>
    simp only [MscpServer.step, Option.ite_none_right_eq_some] at hstep
    obtain ⟨hp, ht⟩ := hstep
    obtain rfl := Option.some.inj ht
    have hwait := h.quiet.asleep hp
    have hquiet := h.quiet
    rw [hwait] at hquiet
    refine ⟨h.requests, ?_, ⟨h.scans.le, fun ha => ?_⟩, h.readable, h.writing⟩
    · show Quiet s.pollState s.worker .woken s.messages s.afterReset
      rw [hwait]
      exact hquiet.sleep rfl
    · refine (h.scans.ahead ha).imp id (.imp id fun hrun => ?_)
      exact absurd (hwait.symm.trans hrun.1) nofun
  | drain =>
    simp only [MscpServer.step, Option.ite_none_right_eq_some] at hstep
    obtain rfl := Option.some.inj hstep.2
    exact h.drain hstep.1
  | fetch =>
    simp only [MscpServer.step, Option.ite_none_right_eq_some] at hstep
    obtain rfl := Option.some.inj hstep.2
    exact h.fetch hstep.1
  | fetchError error =>
    simp only [MscpServer.step, Option.ite_none_right_eq_some] at hstep
    obtain ⟨hp, ht⟩ := hstep
    obtain rfl := Option.some.inj ht
    refine ⟨h.requests, h.quiet.pass (by rw [hp]; rfl) rfl, ⟨h.scans.le, fun ha => ?_⟩,
      fun _ hc => Option.some.inj hc, h.writing⟩
    refine (h.scans.ahead ha).imp id (.imp id fun hrun => ⟨hrun.1, ?_⟩)
    exact .inr (.inr (.inr rfl))
  | portError =>
    simp only [MscpServer.step, Option.ite_none_right_eq_some] at hstep
    obtain rfl := Option.some.inj hstep.2
    exact h.portError hstep.1
  | execute =>
    simp only [MscpServer.step, Option.ite_none_right_eq_some] at hstep
    obtain ⟨hp, ht⟩ := hstep
    obtain rfl := Option.some.inj ht
    exact h.movePoller (by rw [hp]; rfl) (by split_ifs <;> rfl)
      (h.scans.past (by simp [hp]))
  | respond =>
    simp only [MscpServer.step, Option.ite_none_right_eq_some] at hstep
    obtain ⟨hp, ht⟩ := hstep
    obtain rfl := Option.some.inj ht
    exact h.movePoller (by rw [hp]; rfl) rfl (h.scans.past (by simp [hp]))
  | finish =>
    simp only [MscpServer.step, Option.ite_none_right_eq_some] at hstep
    obtain rfl := Option.some.inj hstep.2
    exact h.finish hstep.1

end Inv

/-! ## The way to the end of a reset -/

namespace CompletesWithin

variable {n : ℕ}

theorem of_step {a : Action} (ha : a.ofThreads = true) (hstep : step s a = some t)
    (h : CompletesWithin n t) : CompletesWithin (n + 1) s := by
  obtain ⟨as, u, hall, hlength, hrun, hdone⟩ := h
  refine ⟨a :: as, u, fun b hb => ?_, ?_, ?_, hdone⟩
  · rcases List.mem_cons.mp hb with rfl | hb
    · exact ha
    · exact hall b hb
  · exact Nat.succ_le_succ hlength
  · rw [Transition.run, hstep]
    exact hrun

theorem mono {m : ℕ} (h : CompletesWithin m s) (hle : m ≤ n) : CompletesWithin n s := by
  obtain ⟨as, t, hall, hlength, hrun⟩ := h
  exact ⟨as, t, hall, hlength.trans hle, hrun⟩

theorem of_resetReturned (hw : s.worker = .resetReturned) : CompletesWithin 1 s := by
  have hstep := show step s .resetFields = some _ from if_pos hw
  exact of_step rfl hstep ⟨[], _, nofun, le_refl _, rfl, rfl⟩

theorem of_resetWoken (hw : s.worker = .resetWoken) (hp : s.pollState = .wait) :
    CompletesWithin 2 s := by
  have hstep := show step s .resetCheck = some _ from if_pos hw
  exact of_step rfl hstep (of_resetReturned (if_pos hp))

/-- `Reset()` waits, and the polling thread is about to go to sleep. -/
theorem of_finishing (hw : s.worker = .resetWait ∨ s.worker = .resetWoken)
    (hp : s.pollState = .initRestart) (hpoller : s.poller = .finishing) : CompletesWithin 3 s := by
  have hstep := show step s .finish = some _ from if_pos hpoller
  rw [hp] at hstep
  refine of_step rfl hstep (of_resetWoken ?_ ?_)
  · rcases hw with hw | hw <;> simp [State.signal, hw]
  · rcases hw with hw | hw <;> simp [State.signal, hw]

theorem of_executing (hw : s.worker = .resetWait ∨ s.worker = .resetWoken)
    (hp : s.pollState = .initRestart) (hpoller : s.poller = .executing) : CompletesWithin 4 s := by
  have hstep := show step s .execute = some _ from if_pos hpoller
  exact of_step rfl hstep (of_finishing hw hp (if_pos (.inr hp)))

theorem of_draining (hw : s.worker = .resetWait ∨ s.worker = .resetWoken)
    (hp : s.pollState = .initRestart) (hpoller : s.poller = .draining) : CompletesWithin 5 s := by
  have hstep := show step s .drain = some _ from if_pos hpoller
  exact of_step rfl hstep (of_executing hw hp (if_pos hp))

/-- Wherever the polling thread is when it is told to restart. -/
theorem of_initRestart (hw : s.worker = .resetWait ∨ s.worker = .resetWoken)
    (hp : s.pollState = .initRestart) (hpoller : s.poller ≠ .waiting) : CompletesWithin 6 s := by
  cases hs : s.poller with
  | waiting => exact absurd hs hpoller
  | finishing => exact (of_finishing hw hp hs).mono (by omega)
  | executing => exact (of_executing hw hp hs).mono (by omega)
  | draining => exact (of_draining hw hp hs).mono (by omega)
  | responding =>
    have hstep := show step s .respond = some _ from if_pos hs
    exact (of_step rfl hstep (of_executing hw hp rfl)).mono (by omega)
  | erring =>
    have hstep := show step s .portError = some _ from if_pos hs
    exact (of_step rfl hstep (of_executing hw hp rfl)).mono (by omega)
  | fetching =>
    have hstep := show step s .fetch = some _ from if_pos hs
    split_ifs at hstep
    · exact (of_step rfl hstep (of_executing hw hp rfl)).mono (by omega)
    · exact of_step rfl hstep (of_draining hw hp rfl)
  | top =>
    have hstep := show step s .pollCheck = some _ from if_pos (.inl hs)
    rw [hp] at hstep
    exact of_step rfl hstep (of_draining hw rfl rfl)
  | woken =>
    have hstep := show step s .pollCheck = some _ from if_pos (.inr hs)
    rw [hp] at hstep
    exact of_step rfl hstep (of_draining hw rfl rfl)

theorem of_resetting (hasleep : s.poller = .waiting → s.pollState = .wait)
    (hw : s.worker = .resetting) : CompletesWithin 7 s := by
  have hstep := show step s .resetLock = some _ from if_pos hw
  split_ifs at hstep with hp
  · exact (of_step rfl hstep (of_resetReturned rfl)).mono (by omega)
  · exact of_step rfl hstep (of_initRestart (.inl rfl) rfl fun hs => hp (hasleep hs))

theorem of_clearing (hasleep : s.poller = .waiting → s.pollState = .wait)
    (hw : s.worker = .clearing) : CompletesWithin 8 s := by
  have hstep := show step s .clearSA = some _ from if_pos hw
  exact of_step rfl hstep (of_resetting hasleep rfl)

theorem of_taken (hasleep : s.poller = .waiting → s.pollState = .wait) (hw : s.worker = .taken)
    (hi : s.initStep = .uninitialized) : CompletesWithin 9 s := by
  have hstep := show step s .workerSwitch = some _ from if_pos hw
  rw [hi] at hstep
  exact of_step rfl hstep (of_clearing hasleep rfl)

theorem of_idle (hasleep : s.poller = .waiting → s.pollState = .wait) (hw : s.worker = .idle)
    (hn : s.nextStep = true) (hi : s.initStep = .uninitialized) : CompletesWithin 10 s := by
  have hstep := show step s .workerTake = some _ from if_pos ⟨hw, hn⟩
  exact of_step rfl hstep (of_taken hasleep rfl hi)

theorem of_stepping (hasleep : s.poller = .waiting → s.pollState = .wait) {next : InitStep}
    (hw : s.worker = .stepping next) (hn : s.nextStep = true)
    (hi : s.initStep = .uninitialized) : CompletesWithin 11 s := by
  have hstep : step s .stepSA = some { s with sa := s.stepValue next, worker := .idle } := by
    simp only [step, hw]
  exact of_step rfl hstep (of_idle hasleep rfl hn hi)

end CompletesWithin

theorem Inv.completes (h : Inv s) (hp : s.pending = true) : CompletesWithin 11 s := by
  have hasleep := h.quiet.asleep
  cases hw : s.worker with
  | resetReturned => exact (CompletesWithin.of_resetReturned hw).mono (by omega)
  | resetting => exact (CompletesWithin.of_resetting hasleep hw).mono (by omega)
  | clearing => exact (CompletesWithin.of_clearing hasleep hw).mono (by omega)
  | resetWait =>
    have hrestart := h.quiet.resetWait hw
    refine (CompletesWithin.of_initRestart (.inl hw) hrestart fun hs => ?_).mono (by omega)
    exact absurd (hrestart.symm.trans (hasleep hs)) nofun
  | resetWoken =>
    rcases h.quiet.resetWoken hw with hrestart | hwait
    · refine (CompletesWithin.of_initRestart (.inr hw) hrestart fun hs => ?_).mono (by omega)
      exact absurd (hrestart.symm.trans (hasleep hs)) nofun
    · exact (CompletesWithin.of_resetWoken hw hwait).mono (by omega)
  | transition => exact absurd (hp.symm.trans (h.requests.transition hw)) nofun
  | taken =>
    obtain ⟨hi, -⟩ := (h.requests.kept hp).resolve_left (by rw [hw]; nofun)
    exact (CompletesWithin.of_taken hasleep hw hi).mono (by omega)
  | idle =>
    obtain ⟨hi, hn⟩ := (h.requests.kept hp).resolve_left (by rw [hw]; nofun)
    exact (CompletesWithin.of_idle hasleep hw (hn.resolve_right (by rw [hw]; nofun)) hi).mono
      (by omega)
  | stepping next =>
    obtain ⟨hi, hn⟩ := (h.requests.kept hp).resolve_left (by rw [hw]; nofun)
    exact CompletesWithin.of_stepping hasleep hw (hn.resolve_right (by rw [hw]; nofun)) hi

theorem Inv.sound (h : Inv s) : Sound s where
  completes := h.completes
  restarts hw := by
    have hrestart := h.quiet.resetWait hw
    refine ⟨hrestart, fun hs => ?_⟩
    exact absurd (hrestart.symm.trans (h.quiet.asleep hs)) nofun
  asleep := h.quiet.asleep
  quiet hw := ⟨h.quiet.settled hw, h.quiet.waits (h.quiet.settled hw)⟩
  finished := h.quiet.empty
  scanned hs := by
    by_cases ha : s.announced = 0
    · exact .inr ha
    · refine (h.scans.ahead ha).imp id fun hrun => ?_
      have hwait := h.quiet.asleep hs
      rcases hrun with hrun | ⟨hrun, -⟩
      · exact absurd (hwait.symm.trans hrun) nofun
      · exact absurd (hwait.symm.trans hrun) nofun
  readable := h.readable

theorem Inv.initial (h : Initial s) : Inv s where
  requests := by
    rw [h.pending, h.initStep, h.nextStep, h.worker]
    exact ⟨nofun, nofun, nofun, nofun, nofun⟩
  quiet := by
    rw [h.pollState, h.worker, h.poller, h.messages]
    exact ⟨fun _ => rfl, fun _ => rfl, nofun, nofun, nofun, fun _ => rfl, fun _ => rfl⟩
  scans := ⟨by rw [h.announced]; exact Nat.zero_le _, fun ha => absurd h.announced ha⟩
  readable c hc := absurd (h.errorCode.symm.trans hc) nofun
  writing := by
    rw [h.bus]
    nofun

instance (s : State) : (a : Action) → Decidable (Careful s a)
  | .init | .ipTransition => inferInstanceAs (Decidable (_ ≠ _))
  | .initPolling _ => inferInstanceAs (Decidable (_ ∧ _ ∧ _ ∧ _))
  | .saTransition => inferInstanceAs (Decidable (_ ∨ _ ∨ _ ∧ _))
  | .clearSA | .stepSA | .saZero => inferInstanceAs (Decidable (_ = _))
  | .ipWrite | .ipRead | .saWrite _ | .post | .workerTake | .workerSwitch | .resetLock
  | .resetWake | .resetCheck | .resetFields | .step1Transition | .pollCheck | .pollWake | .drain
  | .fetch | .fetchError _ | .portError | .execute | .respond | .finish =>
    inferInstanceAs (Decidable True)

/-- A UDA50 after its construction. -/
def constructed : State where
  twentyTwoBitDma := false
  isRqdx3 := false
  initStep := .uninitialized
  nextStep := false
  step1Value := 0
  sa := 0
  pollState := .wait
  worker := .idle
  poller := .top
  bus := .idle
  ring := 0
  messages := 0
  pending := false
  afterReset := true
  announced := 0
  errorCode := none

end QUniBone.MscpServer
