import QUniBone.Timeout.Waiters
import QUniBone.Lib.Transition

/-!
# What waiting threads rely on

* `Served`: what holds in every state.
* `ServedStep`: what every step does.
* `served_of_careful`: both, in all runs of careful steps.
* `shorter_wait_is_late`: a wait that is shorter than the one before it.
-/

namespace QUniBone.FlexiTimeout

open State Transition

variable {τ σ : Type} {s t : State τ σ}

/-- The cached time is the minimum of the signal times, and 0 when the list is empty. -/
def Cached (s : State τ σ) : Prop :=
  (s.emuOldest = 0 ↔ s.waitList = []) ∧ (∀ e ∈ s.waitList, s.emuOldest ≤ s.signaltime e.2) ∧
    (s.waitList ≠ [] → ∃ e ∈ s.waitList, s.signaltime e.2 = s.emuOldest)

/-- A thread that waits is in the list until its semaphore is posted, once. In world time nobody is
in the list, and a timeout in the list is there. -/
structure Served (s : State τ σ) : Prop where
  posted : ∀ o, s.phase o = .waiting → ∃ x, s.timeouts o = some x ∧
    (x.posts = 0 ∧ o ∈ s.waiters ∨ x.posts = 1 ∧ x.semaphore = some 1 ∧ o ∉ s.waiters)
  woken : ∀ o, s.phase o = .woken → ∃ x, s.timeouts o = some x ∧ x.posts = 1
  cached : s.mode = .emulatedTime → s.mutex = none → Cached s
  released : s.mode = .worldTime → s.waitList = []
  alive : ∀ o ∈ s.waiters, s.timeouts o ≠ none

/-- The step with which `emu_step_ns` returns. -/
def Action.Returns (a : Action τ σ) (t : State τ σ) : Prop :=
  ∃ c, ((∃ delta, a = .emuStep c delta) ∨ a = .quickTest c ∨ a = .scan c) ∧ t.call c = .none

/-- A semaphore is posted when its time has come or the mode changes to world time. When
`emu_step_ns` returns nobody in the list is due, unless a mode change is about to release them
all. Only `emu_step_ns` and the change to emulated time set the clock, and the times of the
timeouts go on over a mode change. -/
structure ServedStep (s : State τ σ) (a : Action τ σ) (t : State τ σ) : Prop where
  neverEarly : ∀ o x y, s.timeouts o = some x → t.timeouts o = some y → y.posts ≠ x.posts →
    y.posts = x.posts + 1 ∧ ((∃ c, a = .scan c) ∧ x.signaltime ≤ s.emuNow ∨
      (∃ c, a = .endSwitch c) ∧ t.mode = .worldTime)
  noneDue : a.Returns t → s.mutex = none → ∀ e ∈ t.waitList, t.emuNow < t.signaltime e.2
  clock : t.emuNow = s.emuNow ∨
    (∃ c n delta, a = .addClock c ∧ s.call c = .stepRead n delta ∧
      t.emuNow = s.emuNow + delta.setWidth 64) ∨
    (∃ c, a = .endSwitch c) ∧ t.mode = .emulatedTime ∧ t.emuNow = s.worldNow
  continued : ∀ c m before, a = .endSwitch c → s.call c = .switching m before → Continued before t
  asserts : Asserts s a

theorem Settled.cached (h : Settled s) (hcached : s.emuOldest = s.oldest) : Cached s := by
  rw [Cached, hcached, State.oldest]
  cases hl : s.waitList with
  | nil => simp
  | cons e l =>
    have hsorted := h.sorted
    rw [hl] at hsorted
    have hnonzero : s.signaltime e.2 ≠ 0 := h.nonzero e (by rw [hl]; exact List.mem_cons_self ..)
    refine ⟨iff_of_false hnonzero (List.cons_ne_nil e l), fun b hb => ?_, fun _ => ⟨e, List.mem_cons_self .., rfl⟩⟩
    rcases List.mem_cons.mp hb with rfl | hb'
    · exact le_rfl
    · exact (List.pairwise_cons.mp hsorted).1 b hb'

theorem Inv.served (h : Inv s) : Served s where
  posted o hp := by
    have hplaced := h.placed o
    rw [hp] at hplaced
    obtain ⟨x, hx, -, ⟨hposts, -, hin⟩ | hdone⟩ := hplaced
    · exact ⟨x, hx, .inl ⟨hposts, hin⟩⟩
    · exact ⟨x, hx, .inr hdone⟩
  woken o hp := by
    have hplaced := h.placed o
    rw [hp] at hplaced
    obtain ⟨x, hx, hposts, -⟩ := hplaced
    exact ⟨x, hx, hposts⟩
  cached hmode hfree := (h.free hfree).cached ((h.free hfree).oldest hmode)
  released hmode := by
    cases hmutex : s.mutex with
    | none => exact (h.free hmutex).world hmode
    | some c =>
      obtain ⟨m, before, -, hswitching⟩ := h.taken c hmutex
      exact absurd (hmode.symm.trans hswitching.mode) (by decide)
  alive o ho := by
    obtain ⟨x, hx, -⟩ := (h.placed o).of_inList ho
    rw [hx]
    exact Option.some_ne_none x

variable [DecidableEq τ] [DecidableEq σ]

/-- With the quick test no due waiter is skipped. -/
theorem noneDue_of_step (h : Inv s) {a : Action τ σ} (hreturns : a.Returns t)
    (hfree : s.mutex = none) (hstep : FlexiTimeout.step s a = some t) :
    ∀ e ∈ t.waitList, t.emuNow < t.signaltime e.2 := by
  obtain ⟨c, hkind, hnone⟩ := hreturns
  rcases hkind with ⟨delta, rfl⟩ | rfl | rfl
  · -- It is world time.
    simp only [FlexiTimeout.step] at hstep
    split at hstep
    · next hmode =>
      obtain rfl := Option.some.inj hstep
      simp [(h.free hfree).world hmode]
    · obtain rfl := Option.some.inj hstep
      simp [State.setCall] at hnone
    · cases hstep
  · simp only [FlexiTimeout.step] at hstep
    split at hstep
    · split at hstep
      · obtain rfl := Option.some.inj hstep
        simp [State.setCall] at hnone
      · next htest =>
        obtain rfl := Option.some.inj hstep
        show ∀ e ∈ s.waitList, s.emuNow < s.signaltime e.2
        cases hmode : s.mode with
        | worldTime => simp [(h.free hfree).world hmode]
        | emulatedTime =>
          have hsettled := h.free hfree
          obtain ⟨-, hleast, -⟩ := hsettled.cached (hsettled.oldest hmode)
          intro e he
          have hnonempty : s.emuOldest ≠ 0 := by
            rw [hsettled.oldest hmode, State.oldest]
            cases hl : s.waitList with
            | nil => simp [hl] at he
            | cons b l => exact hsettled.nonzero b (by rw [hl]; exact List.mem_cons_self ..)
          have hlater : ¬ s.emuOldest ≤ s.emuNow := fun hle => htest ⟨hnonempty, hle⟩
          exact lt_of_lt_of_le (not_le.mp hlater) (hleast e he)
    · cases hstep
  · obtain ⟨-, -, hnow, -, -, hlater, -⟩ := scan_step h hstep
    rw [hnow]
    exact hlater

/-- Where a semaphore is posted. -/
theorem posts_of_step (h : Inv s) {a : Action τ σ} (hcareful : Careful s a)
    (hstep : FlexiTimeout.step s a = some t) {o : τ} {x y : Timeout} (hx : s.timeouts o = some x)
    (hy : t.timeouts o = some y) (hne : y.posts ≠ x.posts) :
    y.posts = x.posts + 1 ∧ ((∃ c, a = .scan c) ∧ x.signaltime ≤ s.emuNow ∨
      (∃ c, a = .endSwitch c) ∧ t.mode = .worldTime) := by
  by_cases ha : a.onTimeout = true
  · obtain ⟨o', p, z, rfl, -, -, hposts⟩ := onTimeout_step h ha hcareful hstep
    by_cases ho : o = o'
    · subst ho
      exact absurd (hposts x y hx (by simpa [State.put] using hy)) hne
    · have hsame : s.timeouts o = some y := by simpa [State.put, ho] using hy
      exact absurd (by rw [Option.some.inj (hx.symm.trans hsame)]) hne
  have hkept : t.timeouts = s.timeouts → False := fun hsame =>
    hne (by rw [Option.some.inj (hx.symm.trans (hsame ▸ hy))])
  cases hc : a.caller with
  | some c =>
    obtain ⟨call, n, rfl, -⟩ := caller_step hc hstep
    exact (hkept rfl).elim
  | none =>
    cases a with
    | wait | slept | construct | initSemaphore | start | stamp | wake | interrupt | destroy
    | erase => exact absurd rfl ha
    | emuStep | readClock | addClock | quickTest | setMode => simp [Action.caller] at hc
    | tick delta =>
      simp only [FlexiTimeout.step, Option.ite_none_right_eq_some] at hstep
      obtain rfl := Option.some.inj hstep.2
      exact (hkept rfl).elim
    | insert o' => exact (hkept (insert_step h hcareful hstep).2.1).elim
    | scan c =>
      obtain ⟨-, -, -, -, -, -, hposts⟩ := scan_step h hstep
      obtain ⟨hone, hdue⟩ := hposts o x y hx hy hne
      exact ⟨hone, .inl ⟨⟨c, rfl⟩, hdue⟩⟩
    | lockSwitch c =>
      exact absurd ((lock_step h hcareful hstep).2.2.2.2.1 o x y hx hy) hne
    | endSwitch c =>
      obtain ⟨-, -, -, ⟨hworld, -, -, hposts⟩ | ⟨-, -, -, hsame⟩, -⟩ := end_step h hstep
      · exact ⟨hposts o x y hx hy hne, .inr ⟨⟨c, rfl⟩, hworld⟩⟩
      · exact (hkept hsame).elim

/-- Where the clock is set. -/
theorem clock_of_step (h : Inv s) {a : Action τ σ} (hcareful : Careful s a)
    (hstep : FlexiTimeout.step s a = some t) :
    t.emuNow = s.emuNow ∨ (∃ c n delta, a = .addClock c ∧ s.call c = .stepRead n delta ∧
      t.emuNow = s.emuNow + delta.setWidth 64) ∨
    (∃ c, a = .endSwitch c) ∧ t.mode = .emulatedTime ∧ t.emuNow = s.worldNow := by
  by_cases ha : a.onTimeout = true
  · obtain ⟨o, p, x, rfl, -⟩ := onTimeout_step h ha hcareful hstep
    exact .inl rfl
  cases hc : a.caller with
  | some c =>
    obtain ⟨call, n, rfl, -, -, rfl | ⟨old, delta, rfl, hcall, rfl⟩⟩ := caller_step hc hstep
    · exact .inl rfl
    · refine .inr (.inl ⟨c, old, delta, rfl, hcall, ?_⟩)
      show old + delta.setWidth 64 = _
      rw [hcareful old delta hcall]
  | none =>
    cases a with
    | wait | slept | construct | initSemaphore | start | stamp | wake | interrupt | destroy
    | erase => exact absurd rfl ha
    | emuStep | readClock | addClock | quickTest | setMode => simp [Action.caller] at hc
    | tick delta =>
      simp only [FlexiTimeout.step, Option.ite_none_right_eq_some] at hstep
      obtain rfl := Option.some.inj hstep.2
      exact .inl rfl
    | insert o => exact .inl (insert_step h hcareful hstep).2.2.1
    | scan c => exact .inl (scan_step h hstep).2.2.1
    | lockSwitch c => exact .inl (lock_step h hcareful hstep).2.1
    | endSwitch c =>
      obtain ⟨-, -, -, ⟨-, hnow, -⟩ | ⟨hmode, hnow, -⟩, -⟩ := end_step h hstep
      · exact .inl hnow
      · exact .inr (.inr ⟨⟨c, rfl⟩, hmode, hnow⟩)

/-- No assertion fails. -/
theorem asserts_of_step (h : Inv s) {a : Action τ σ} (hcareful : Careful s a)
    (hstep : FlexiTimeout.step s a = some t) : Asserts s a := by
  have hsemaphore : ∀ e ∈ s.waitList, ∃ x, s.timeouts e.2 = some x ∧ x.semaphore ≠ none :=
    fun e he => by
      obtain ⟨x, hx, hsem, -⟩ := (h.placed e.2).of_inList (mem_waiters he)
      exact ⟨x, hx, hsem⟩
  cases a with
  | destroy o =>
    intro hmode
    have hplaced := h.placed o
    simp only [FlexiTimeout.step, Option.ite_none_right_eq_some] at hstep
    rcases hstep.1 with hp | hp
    · rw [hp] at hplaced
      obtain ⟨x, hx, -, hzero, -⟩ := hplaced
      exact ⟨x, hx, hzero⟩
    · rw [hp] at hplaced
      obtain ⟨x, hx, -⟩ := hplaced
      exact ⟨x, hx, (hcareful hp).2 hmode x hx⟩
  | scan c => exact hsemaphore
  | endSwitch c =>
    intro m before hcall
    obtain ⟨m', before', hcall', hswitching⟩ := h.taken c (h.holder c _ _ hcall)
    obtain ⟨rfl, rfl⟩ := Call.switching.inj (hcall.symm.trans hcall')
    cases m with
    | emulatedTime => exact (hswitching.toEmulated rfl).1
    | worldTime => exact hsemaphore
  | _ => trivial

theorem Inv.servedStep (h : Inv s) {a : Action τ σ} (hcareful : Careful s a)
    (hstep : FlexiTimeout.step s a = some t) : ServedStep s a t where
  neverEarly _ _ _ hx hy hne := posts_of_step h hcareful hstep hx hy hne
  noneDue hreturns hfree := noneDue_of_step h hreturns hfree hstep
  clock := clock_of_step h hcareful hstep
  continued c m before ha hcall := by
    subst ha
    exact (end_step h hstep).2.2.2.2 m before hcall
  asserts := asserts_of_step h hcareful hstep

/-! ## Runs -/

def Initial (s : State τ σ) : Prop := ∃ worldNow, s = .initial worldNow

def CarefulStep (s t : State τ σ) : Prop := ∃ a, Careful s a ∧ FlexiTimeout.step s a = some t

/-- Nobody is released by a change to world time. -/
def Emptied (s : State τ σ) : Action τ σ → Prop
  | .lockSwitch _ => s.mode = .emulatedTime → s.waitList = []
  | _ => True

def EmptiedStep (s t : State τ σ) : Prop :=
  ∃ a, Careful s a ∧ Emptied s a ∧ FlexiTimeout.step s a = some t

omit [DecidableEq τ] [DecidableEq σ] in
theorem Inv.initial (worldNow : BitVec 64) : Inv (State.initial worldNow : State τ σ) where
  placed o := ⟨rfl, List.not_mem_nil⟩
  nodup := List.nodup_nil
  keys := List.Pairwise.nil
  holder _ _ _ hcall := by cases hcall
  free _ := ⟨List.Pairwise.nil, by simp [State.initial], nofun, fun _ => rfl⟩
  taken _ hc := by cases hc

theorem Inv.of_reachable (h : Reachable Initial CarefulStep s) : Inv s := by
  refine h.invariant (fun s hs => ?_) fun s t hinv hst => ?_
  · obtain ⟨worldNow, rfl⟩ := hs
    exact Inv.initial worldNow
  · obtain ⟨a, hcareful, hstep⟩ := hst
    exact hinv.step hcareful hstep

/-- When no change to world time releases anybody, the cached time is always that of the head. -/
structure CachedInv (s : State τ σ) : Prop where
  inv : Inv s
  cached : s.emuOldest = s.oldest
  empty : s.mutex ≠ none → s.waitList = []

omit [DecidableEq σ] in
/-- The head of the list is not changed by the step of a thread with its timeout. -/
theorem oldest_put (h : Inv s) {o : τ} {p : Phase} {x : Option Timeout}
    (hstamps : o ∈ s.waiters ∨ s.mutex ≠ none → ∀ y, s.timeouts o = some y →
      ∃ z, x = some z ∧ z.starttime = y.starttime ∧ z.signaltime = y.signaltime) :
    (s.put o p x).oldest = s.oldest := by
  have hlist : (s.put o p x).waitList = s.waitList := rfl
  rw [State.oldest, State.oldest, hlist]
  cases hl : s.waitList with
  | nil => rfl
  | cons e l =>
    have hin : e.2 ∈ s.waiters := mem_waiters (by rw [hl]; exact List.mem_cons_self ..)
    by_cases ho : e.2 = o
    · obtain ⟨y, hy, -⟩ := (h.placed e.2).of_inList hin
      obtain ⟨z, hz, -, hsignal⟩ := hstamps (.inl (ho ▸ hin)) y (ho ▸ hy)
      have hput : (s.put o p x).timeouts e.2 = some z := by simp [State.put, ho, hz]
      show (s.put o p x).signaltime e.2 = s.signaltime e.2
      rw [signaltime_of_some hy, signaltime_of_some hput, hsignal]
    · exact signaltime_congr (by simp [State.put, ho])

theorem CachedInv.step (h : CachedInv s) {a : Action τ σ} (hcareful : Careful s a)
    (hemptied : Emptied s a) (hstep : FlexiTimeout.step s a = some t) : CachedInv t := by
  obtain ⟨hinv, hcached, hempty⟩ := h
  suffices hgoal : t.emuOldest = t.oldest ∧ (t.mutex ≠ none → t.waitList = []) from
    ⟨hinv.step hcareful hstep, hgoal.1, hgoal.2⟩
  by_cases ha : a.onTimeout = true
  · obtain ⟨o, p, x, rfl, hplaced, hstamps, -⟩ := onTimeout_step hinv ha hcareful hstep
    exact ⟨hcached.trans (oldest_put hinv hstamps).symm, hempty⟩
  cases hc : a.caller with
  | some c =>
    obtain ⟨call, n, rfl, -⟩ := caller_step hc hstep
    exact ⟨hcached, hempty⟩
  | none =>
    cases a with
    | wait | slept | construct | initSemaphore | start | stamp | wake | interrupt | destroy
    | erase => exact absurd rfl ha
    | emuStep | readClock | addClock | quickTest | setMode => simp [Action.caller] at hc
    | tick delta =>
      simp only [FlexiTimeout.step, Option.ite_none_right_eq_some] at hstep
      obtain rfl := Option.some.inj hstep.2
      exact ⟨hcached, hempty⟩
    | insert o =>
      obtain ⟨-, -, -, holdest, hfree⟩ := insert_step hinv hcareful hstep
      exact ⟨holdest, fun hne => absurd hfree hne⟩
    | scan c =>
      obtain ⟨-, -, -, holdest, hfree, -⟩ := scan_step hinv hstep
      exact ⟨holdest, fun hne => absurd hfree hne⟩
    | lockSwitch c =>
      obtain ⟨-, -, hold, hlist, -, hworld⟩ := lock_step hinv hcareful hstep
      have hnil : s.waitList = [] := by
        cases hmode : s.mode with
        | worldTime => exact hworld hmode
        | emulatedTime => exact hemptied hmode
      have hzero : s.oldest = 0 := by rw [State.oldest, hnil]
      rw [hold, hcached, hzero, State.oldest, hlist, hnil]
      exact ⟨rfl, fun _ => rfl⟩
    | endSwitch c =>
      obtain ⟨-, hnil, -, hkind, -⟩ := end_step hinv hstep
      refine ⟨?_, fun _ => hnil⟩
      rw [State.oldest, hnil]
      rcases hkind with ⟨-, -, hold, -⟩ | ⟨-, -, hzero, -⟩
      · -- The list was empty before.
        simp only [FlexiTimeout.step] at hstep
        split at hstep
        · obtain rfl := Option.some.inj hstep
          rfl
        · next before hcall =>
          have htaken : s.mutex ≠ none := by
            rw [hinv.holder c _ _ hcall]
            exact Option.some_ne_none c
          rw [hold, hcached, State.oldest, hempty htaken]
        · cases hstep
      · exact hzero

theorem cached_of_emptied (h : Reachable Initial EmptiedStep s) : Cached s := by
  obtain ⟨hinv, hcached, hempty⟩ : CachedInv s := by
    refine h.invariant (fun s hs => ?_) fun s t hinv hst => ?_
    · obtain ⟨worldNow, rfl⟩ := hs
      exact ⟨Inv.initial worldNow, rfl, fun _ => rfl⟩
    · obtain ⟨a, hcareful, hemptied, hstep⟩ := hst
      exact hinv.step hcareful hemptied hstep
  cases hmutex : s.mutex with
  | none => exact (hinv.free hmutex).cached hcached
  | some c =>
    have hnil := hempty (by rw [hmutex]; exact Option.some_ne_none c)
    rw [Cached, hcached, State.oldest, hnil]
    simp

/-- In every run of careful steps the threads that wait are served. The cached time is also right
in world time, if no change to it has released anybody. -/
theorem served_of_careful (τ σ : Type) [DecidableEq τ] [DecidableEq σ] :
    (∀ s : State τ σ, Reachable Initial CarefulStep s →
      Served s ∧ ∀ a t, Careful s a → FlexiTimeout.step s a = some t → ServedStep s a t) ∧
    ∀ s : State τ σ, Reachable Initial EmptiedStep s → Cached s :=
  ⟨fun _ h => ⟨(Inv.of_reachable h).served, fun _ _ => (Inv.of_reachable h).servedStep⟩,
    fun _ => cached_of_emptied⟩

/-- A thread waits for 10 ns. -/
theorem served_of_careful_waiting :
    ∃ s : State Bool Unit, s.phase false = .waiting ∧ s.waiters = [false] ∧ Served s := by
  have start : Reachable Initial CarefulStep (.initial 100 : State Bool Unit) := .init ⟨100, rfl⟩
  have tested := start.step ⟨.setMode () .emulatedTime, trivial, rfl⟩
  have locked := tested.step ⟨.lockSwitch (), fun m hm => ⟨by cases hm; decide, nofun⟩, rfl⟩
  have emulated := locked.step ⟨.endSwitch (), trivial, rfl⟩
  have called := emulated.step ⟨.wait false 10, trivial, rfl⟩
  have constructed := called.step ⟨.construct false (0, 0), trivial, rfl⟩
  have ready := constructed.step ⟨.initSemaphore false, trivial, rfl⟩
  have stamped := ready.step ⟨.stamp false, ⟨rfl, List.not_mem_nil⟩, rfl⟩
  have fits : ∀ x, (some ⟨100, 110, some 0, true, 0⟩ : Option Timeout) = some x →
      x.semaphore ≠ none ∧ x.signaltime ≠ 0 := by
    rintro x ⟨⟩
    decide
  have inserted := stamped.step
    ⟨.insert false, ⟨rfl, fun x hx => ⟨(fits x hx).1, (fits x hx).2, nofun⟩⟩, rfl⟩
  exact ⟨_, rfl, rfl, ((served_of_careful Bool Unit).1 _ inserted).1⟩

/-- The actions one after the other. -/
def run (s : State τ σ) : List (Action τ σ) → Option (State τ σ)
  | [] => some s
  | a :: as => (FlexiTimeout.step s a).bind fun t => run t as

theorem run_reachable {s : State τ σ} {as : List (Action τ σ)} {t : State τ σ}
    (h : Reachable Initial (fun s t => ∃ a, FlexiTimeout.step s a = some t) s)
    (hrun : run s as = some t) :
    Reachable Initial (fun s t => ∃ a, FlexiTimeout.step s a = some t) t := by
  induction as generalizing s with
  | nil =>
    obtain rfl := Option.some.inj hrun
    exact h
  | cons a as ih =>
    obtain ⟨u, hu, hrest⟩ := Option.bind_eq_some_iff.mp hrun
    exact ih (h.step ⟨a, hu⟩) hrest

/-- A thread waits in emulated time. -/
def waits {τ : Type} (o : τ) (duration : BitVec 64) : List (Action τ Unit) :=
  [.wait o duration, .construct o (0, 0), .initSemaphore o, .stamp o, .insert o]

/-- One thread waits for 1000 ns, then another one for 10 ns, and the CPU steps by 20 ns. -/
def overtaking : List (Action Bool Unit) :=
  [.setMode () .emulatedTime, .lockSwitch (), .endSwitch ()] ++ waits false 1000 ++ waits true 10 ++
    [.emuStep () 20, .readClock (), .addClock ()]

/-- `emu_step_ns` is about to return although a thread is due. -/
def aboutToMiss (s : State Bool Unit) : Bool :=
  match FlexiTimeout.step s (.quickTest ()) with
  | some t => s.mutex.isNone && (match t.call () with | .none => true | _ => false) &&
      t.waitList.any fun e => decide (t.signaltime e.2 ≤ t.emuNow)
  | none => false

/-- The shorter wait is behind the longer one, and it is overlooked. -/
theorem shorter_wait_is_late :
    ¬ ∀ s : State Bool Unit, Reachable Initial (fun s t => ∃ a, FlexiTimeout.step s a = some t) s →
      Served s ∧ ∀ a t, FlexiTimeout.step s a = some t → ServedStep s a t := by
  intro hall
  have hmiss : (run (.initial 100) overtaking).any aboutToMiss = true := by decide +kernel
  obtain ⟨s, hrun, hs⟩ : ∃ s, run (.initial 100) overtaking = some s ∧ aboutToMiss s = true := by
    generalize run (.initial 100) overtaking = r at hmiss
    cases r with
    | none => cases hmiss
    | some s => exact ⟨s, rfl, hmiss⟩
  have hsteps := (hall s (run_reachable (.init ⟨100, rfl⟩) hrun)).2 (.quickTest ())
  rw [aboutToMiss] at hs
  cases hstep : FlexiTimeout.step s (.quickTest ()) with
  | none => simp [hstep] at hs
  | some t =>
    simp only [hstep, Bool.and_eq_true, Option.isNone_iff_eq_none, List.any_eq_true,
      decide_eq_true_eq] at hs
    obtain ⟨⟨hfree, hnone⟩, e, he, hdue⟩ := hs
    have hreturns : (Action.quickTest () : Action Bool Unit).Returns t :=
      ⟨(), .inr (.inl rfl), by split at hnone <;> [assumption; cases hnone]⟩
    exact absurd ((hsteps t hstep).noneDue hreturns hfree e he) (not_lt.mpr hdue)

end QUniBone.FlexiTimeout
