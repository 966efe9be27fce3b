import QUniBone.Timeout.Controller
import Mathlib.Tactic.Ring

/-!
# Waiting in emulated time

The wait list is a multimap with the start times as keys, but it is worked off as if it were in
the order of the signal times. So a wait must not be shorter than what is left of the waits before
it in the list.

* `Careful`: the steps with which the list stays in order, and with which no thread is lost when
  the mode changes.
* `Inv`: the invariant of the runs of such steps.
* `OneChanged`, `caller_step`, `insert_step`, `scan_step`, `lock_step`, `end_step`: what a step
  can do.
* `Inv.step`: each keeps the invariant.
-/

namespace QUniBone.FlexiTimeout

open State

variable {τ σ : Type}

/-- The timeouts in the wait list. -/
def State.waiters (s : State τ σ) : List τ := s.waitList.map Prod.snd

/-! ## Careful steps -/

/-- The timeout does not come before an entry that is due earlier, nor behind one that is due
later. -/
def State.Fits (s : State τ σ) (x : Timeout) : Prop :=
  ∀ e ∈ s.waitList, (e.1 ≤ x.starttime → s.signaltime e.2 ≤ x.signaltime) ∧
    (x.starttime < e.1 → x.signaltime ≤ s.signaltime e.2)

/-- The signal time can be moved to world time. -/
def Clocks.Converts (b : Clocks τ) (x : Timeout) : Prop :=
  b.now.toNat ≤ x.signaltime.toNat + b.worldNow.toNat ∧
    x.signaltime.toNat + b.worldNow.toNat < b.now.toNat + 2 ^ 64

/-- Time stamps are not taken in the middle of a mode change, nor for a timeout that is in the
wait list. What is inserted is inserted in emulated time, has a semaphore and fits into the list.
No signal handler runs while a thread waits. A timeout that was started by `start_ns` is not
destroyed while it is in the list, nor when its semaphore is posted. The clock does not change
while `emu_step_ns` adds to it, nor the mode while `set_mode` waits for the mutex. -/
def Careful (s : State τ σ) : Action τ σ → Prop
  | .stamp o => s.mutex = none ∧ o ∉ s.waiters
  | .insert o => s.mode = .emulatedTime ∧ ∀ x, s.timeouts o = some x →
      x.semaphore ≠ none ∧ x.signaltime ≠ 0 ∧ s.Fits x
  | .interrupt _ => False
  | .destroy o => s.phase o = .ready → o ∉ s.waiters ∧
      (s.mode = .emulatedTime → ∀ x, s.timeouts o = some x → x.semaphore = some 0)
  | .addClock c => ∀ n delta, s.call c = .stepRead n delta → s.emuNow = n
  | .lockSwitch c => ∀ m, s.call c = .modeTested m → s.mode ≠ m ∧
      (s.mode = .emulatedTime → ∀ o x, s.timeouts o = some x → x.started = true →
        s.clocks.Converts x)
  | _ => True

/-! ## The invariant -/

/-- A timeout that is posted leaves the list, so it is posted once. -/
def Placed (p : Phase) (x : Option Timeout) (inList : Prop) : Prop :=
  match p with
  | .absent | .sleeping | .waitTested _ => x = none ∧ ¬ inList
  | .listed none | .erasing => x ≠ none ∧ ¬ inList
  | .listed (some _) | .stamping true _ =>
      ∃ y, x = some y ∧ y.posts = 0 ∧ (y.semaphore ≠ none → y.semaphore = some 0) ∧ ¬ inList
  | .inserting true => ∃ y, x = some y ∧ y.posts = 0 ∧
      (y.semaphore ≠ none → y.semaphore = some 0) ∧ y.started = true ∧ ¬ inList
  | .inserting false => ∃ y, x = some y ∧ y.started = true ∧ ¬ inList
  | .waiting => ∃ y, x = some y ∧ y.started = true ∧
      (y.posts = 0 ∧ y.semaphore = some 0 ∧ inList ∨
        y.posts = 1 ∧ y.semaphore = some 1 ∧ ¬ inList)
  | .woken => ∃ y, x = some y ∧ y.posts = 1 ∧ y.semaphore = some 0 ∧ ¬ inList
  | .ready | .stamping false _ | .worldStamping _ =>
      ∃ y, x = some y ∧ (inList → y.semaphore ≠ none ∧ y.started = true)

/-- What is in the list has a semaphore. -/
theorem Placed.of_inList {p : Phase} {x : Option Timeout} {inList : Prop} (h : Placed p x inList)
    (hin : inList) : ∃ y, x = some y ∧ y.semaphore ≠ none ∧ y.started = true := by
  cases p with
  | absent | sleeping | waitTested | erasing => exact absurd hin h.2
  | listed wait => cases wait <;> [exact absurd hin h.2; exact absurd hin h.choose_spec.2.2.2]
  | stamping wait duration =>
    cases wait with
    | true => exact absurd hin h.choose_spec.2.2.2
    | false => exact h.imp fun y hy => ⟨hy.1, hy.2 hin⟩
  | inserting wait =>
    cases wait with
    | true => exact absurd hin h.choose_spec.2.2.2.2
    | false => exact absurd hin h.choose_spec.2.2
  | waiting =>
    obtain ⟨y, hy, hstarted, ⟨-, hsem, -⟩ | ⟨-, -, hout⟩⟩ := h
    · exact ⟨y, hy, by rw [hsem]; exact Option.some_ne_none 0, hstarted⟩
    · exact absurd hin hout
  | woken => exact absurd hin h.choose_spec.2.2.2
  | ready | worldStamping => exact h.imp fun y hy => ⟨hy.1, hy.2 hin⟩

/-- The time stamps have no part in it. -/
theorem Placed.convert {p : Phase} {x : Option Timeout} {inList : Prop} (h : Placed p x inList)
    (now emuNow : BitVec 64) : Placed p (x.map fun y => y.convert now emuNow) inList := by
  unfold Placed at h ⊢
  split at h
  · exact ⟨by rw [h.1]; rfl, h.2⟩
  · exact ⟨by rw [h.1]; rfl, h.2⟩
  · exact ⟨by rw [h.1]; rfl, h.2⟩
  · exact ⟨by simpa using h.1, h.2⟩
  · exact ⟨by simpa using h.1, h.2⟩
  all_goals
    obtain ⟨y, rfl, hy⟩ := h
    exact ⟨y.convert now emuNow, rfl, hy⟩

/-- A timeout in the list is posted and erased. -/
theorem Placed.post {p : Phase} {x : Timeout} (h : Placed p (some x) True) :
    Placed p (some x.post) False := by
  cases p with
  | absent | sleeping | waitTested | erasing => exact absurd trivial h.2
  | listed wait => cases wait <;> [exact absurd trivial h.2; exact absurd trivial h.choose_spec.2.2.2]
  | stamping wait duration =>
    cases wait with
    | true => exact absurd trivial h.choose_spec.2.2.2
    | false => exact ⟨_, rfl, False.elim⟩
  | inserting wait =>
    cases wait with
    | true => exact absurd trivial h.choose_spec.2.2.2.2
    | false => exact absurd trivial h.choose_spec.2.2
  | waiting =>
    obtain ⟨y, hy, hstarted, ⟨hposts, hsem, -⟩ | ⟨-, -, hout⟩⟩ := h
    · obtain rfl := Option.some.inj hy
      refine ⟨_, rfl, hstarted, .inr ⟨?_, ?_, id⟩⟩
      · show x.posts + 1 = 1
        rw [hposts]
      · show x.semaphore.map _ = some 1
        rw [hsem]
        rfl
    · exact absurd trivial hout
  | woken => exact absurd trivial h.choose_spec.2.2.2
  | ready | worldStamping => exact ⟨_, rfl, False.elim⟩

/-- While nobody changes the mode the list is in the order of the signal times, and the cached
time is that of its head. In world time the list is empty. -/
structure Settled (s : State τ σ) : Prop where
  sorted : s.waitList.Pairwise fun a b => s.signaltime a.2 ≤ s.signaltime b.2
  nonzero : ∀ e ∈ s.waitList, s.signaltime e.2 ≠ 0
  oldest : s.mode = .emulatedTime → s.emuOldest = s.oldest
  world : s.mode = .worldTime → s.waitList = []

/-- The same timeouts, with time stamps moved by `f`. -/
def Moved (f : BitVec 64 → BitVec 64) (a b : τ → Option Timeout) : Prop :=
  ∀ o x, a o = some x → ∃ y, b o = some y ∧ y.starttime = f x.starttime ∧
    y.signaltime = f x.signaltime

/-- In the middle of a mode change. -/
structure Switching (s : State τ σ) (newMode : Mode) (before : Clocks τ) : Prop where
  mode : s.mode = .emulatedTime
  world : before.worldNow ≤ s.worldNow
  toEmulated : newMode = .emulatedTime → s.waitList = [] ∧ before.now = before.worldNow ∧
    Moved id before.timeouts s.timeouts
  toWorld : newMode = .worldTime →
    Moved (fun n => n + before.worldNow - before.now) before.timeouts s.timeouts ∧
      ∀ o x, before.timeouts o = some x → x.started = true → before.Converts x

structure Inv (s : State τ σ) : Prop where
  placed : ∀ o, Placed (s.phase o) (s.timeouts o) (o ∈ s.waiters)
  nodup : s.waiters.Nodup
  keys : s.waitList.Pairwise fun a b => a.1 ≤ b.1
  holder : ∀ c m before, s.call c = .switching m before → s.mutex = some c
  free : s.mutex = none → Settled s
  taken : ∀ c, s.mutex = some c →
    ∃ m before, s.call c = .switching m before ∧ Switching s m before

variable {s t : State τ σ}

theorem mem_waiters {e : BitVec 64 × τ} (he : e ∈ s.waitList) : e.2 ∈ s.waiters :=
  List.mem_map_of_mem he

theorem signaltime_congr {o : τ} (h : t.timeouts o = s.timeouts o) :
    t.signaltime o = s.signaltime o := by
  rw [signaltime, signaltime, h]

theorem signaltime_of_some {o : τ} {x : Timeout} (h : s.timeouts o = some x) :
    s.signaltime o = x.signaltime := by
  rw [signaltime, h]

/-- Nothing changes for the entries. -/
theorem Settled.congr (h : Settled s) (hlist : t.waitList = s.waitList)
    (htime : ∀ e ∈ s.waitList, t.signaltime e.2 = s.signaltime e.2) (hmode : t.mode = s.mode)
    (hcached : t.emuOldest = s.emuOldest) : Settled t where
  sorted := by
    rw [hlist]
    refine h.sorted.imp_of_mem fun ha hb hle => ?_
    rwa [htime _ ha, htime _ hb]
  nonzero e he := by
    rw [hlist] at he
    rw [htime e he]
    exact h.nonzero e he
  oldest hemulated := by
    rw [hcached, h.oldest (hmode ▸ hemulated), State.oldest, State.oldest, hlist]
    cases hl : s.waitList with
    | nil => rfl
    | cons e l => exact (htime e (by rw [hl]; exact List.mem_cons_self ..)).symm
  world hworld := by rw [hlist, h.world (hmode ▸ hworld)]

theorem Moved.trans_id {f : BitVec 64 → BitVec 64} {a b c : τ → Option Timeout}
    (h : Moved f a b) (h' : Moved id b c) : Moved f a c := by
  intro o x hx
  obtain ⟨y, hy, hstart, hsignal⟩ := h o x hx
  obtain ⟨z, hz, hstart', hsignal'⟩ := h' o y hy
  exact ⟨z, hz, hstart'.trans hstart, hsignal'.trans hsignal⟩

theorem Switching.congr {m : Mode} {before : Clocks τ} (h : Switching s m before)
    (hmode : t.mode = s.mode) (hworld : s.worldNow ≤ t.worldNow)
    (hlist : t.waitList = s.waitList) (hmoved : Moved id s.timeouts t.timeouts) :
    Switching t m before where
  mode := hmode.trans h.mode
  world := le_trans h.world hworld
  toEmulated hm := by
    obtain ⟨hempty, hnow, hbefore⟩ := h.toEmulated hm
    exact ⟨hlist.trans hempty, hnow, hbefore.trans_id hmoved⟩
  toWorld hm := ⟨(h.toWorld hm).1.trans_id hmoved, (h.toWorld hm).2⟩

variable [DecidableEq τ] [DecidableEq σ]

omit [DecidableEq σ] in
@[simp] theorem waiters_put (s : State τ σ) (o : τ) (p : Phase) (x : Option Timeout) :
    (s.put o p x).waiters = s.waiters := rfl

omit [DecidableEq σ] in
/-- A step of the thread that uses the timeout `o`. The time stamps may only change when the
timeout is not in the list and no mode change is under way. -/
theorem Inv.put (h : Inv s) {o : τ} {p : Phase} {x : Option Timeout}
    (hplaced : Placed p x (o ∈ s.waiters))
    (hstamps : o ∈ s.waiters ∨ s.mutex ≠ none → ∀ y, s.timeouts o = some y →
      ∃ z, x = some z ∧ z.starttime = y.starttime ∧ z.signaltime = y.signaltime) :
    Inv (s.put o p x) where
  placed o' := by
    rw [waiters_put]
    by_cases ho : o' = o
    · subst ho
      simpa [State.put] using hplaced
    · simpa [State.put, ho] using h.placed o'
  nodup := h.nodup
  keys := h.keys
  holder := h.holder
  free hfree := by
    refine (h.free hfree).congr rfl (fun e he => ?_) rfl rfl
    by_cases ho : e.2 = o
    · have hin : o ∈ s.waiters := ho ▸ mem_waiters he
      obtain ⟨y, hy, -⟩ := (h.placed o).of_inList hin
      obtain ⟨z, hz, -, hsignal⟩ := hstamps (.inl hin) y hy
      rw [ho, signaltime_of_some hy, ← hsignal]
      exact signaltime_of_some (by simp [State.put, hz])
    · exact signaltime_congr (by simp [State.put, ho])
  taken c hc := by
    obtain ⟨m, before, hcall, hswitching⟩ := h.taken c hc
    refine ⟨m, before, hcall, hswitching.congr rfl le_rfl rfl fun o' y hy => ?_⟩
    by_cases ho : o' = o
    · subst ho
      obtain ⟨z, hz, hsame⟩ := hstamps (.inr (hc ▸ Option.some_ne_none c)) y hy
      exact ⟨z, by simp [State.put, hz], hsame⟩
    · exact ⟨y, by simpa [State.put, ho] using hy, rfl, rfl⟩

omit [DecidableEq τ] in
/-- A step of `emu_step_ns`, or of `set_mode` before it has the mutex. -/
theorem Inv.setCall (h : Inv s) {c : σ} {call : Call τ}
    (hold : ∀ m before, s.call c ≠ .switching m before)
    (hnew : ∀ m before, call ≠ .switching m before) (n : BitVec 64) :
    Inv ({ s with emuNow := n }.setCall c call) where
  placed := h.placed
  nodup := h.nodup
  keys := h.keys
  holder c' m before hcall := by
    by_cases hc : c' = c
    · subst hc
      exact absurd (by simpa [State.setCall] using hcall) (hnew m before)
    · exact h.holder c' m before (by simpa [State.setCall, hc] using hcall)
  free hfree := (h.free hfree).congr rfl (fun _ _ => rfl) rfl rfl
  taken c' hc' := by
    obtain ⟨m, before, hcall, hswitching⟩ := h.taken c' hc'
    have hc : c' ≠ c := fun heq => hold m before (heq ▸ hcall)
    exact ⟨m, before, by simpa [State.setCall, hc] using hcall,
      hswitching.congr rfl le_rfl rfl fun _ y hy => ⟨y, hy, rfl, rfl⟩⟩

omit [DecidableEq τ] [DecidableEq σ] in
/-- World time passes. -/
theorem Inv.tick (h : Inv s) {n : BitVec 64} (hn : s.worldNow ≤ n) :
    Inv { s with worldNow := n } where
  placed := h.placed
  nodup := h.nodup
  keys := h.keys
  holder := h.holder
  free hfree := (h.free hfree).congr rfl (fun _ _ => rfl) rfl rfl
  taken c hc := by
    obtain ⟨m, before, hcall, hswitching⟩ := h.taken c hc
    exact ⟨m, before, hcall, hswitching.congr rfl hn rfl fun _ y hy => ⟨y, hy, rfl, rfl⟩⟩

/-! ## The wait list -/

omit [DecidableEq σ] in
/-- An insertion that fits, in emulated time. -/
theorem Inv.insert (h : Inv s) (hfree : s.mutex = none) (hmode : s.mode = .emulatedTime) {o : τ}
    {x : Timeout} {p : Phase} (hx : s.timeouts o = some x) (hout : o ∉ s.waiters)
    (hp : Placed p (some x) True) (hnonzero : x.signaltime ≠ 0) (hfits : s.Fits x) {t : State τ σ}
    (ht : t = { s with waitList := Agenda.insert (x.starttime, o) s.waitList }) :
    Inv ({ t with emuOldest := t.oldest }.setPhase o p) := by
  have hperm : (Agenda.insert (x.starttime, o) s.waitList).Perm ((x.starttime, o) :: s.waitList) :=
    Agenda.perm_insert _ _
  have hwaiters : t.waiters.Perm (o :: s.waiters) := by
    subst ht
    exact hperm.map Prod.snd
  have hself : s.signaltime o = x.signaltime := signaltime_of_some hx
  have hlist : t.waitList = Agenda.insert (x.starttime, o) s.waitList := by rw [ht]
  have htime : t.signaltime = s.signaltime := by rw [ht]; rfl
  refine ⟨fun o' => ?_, hwaiters.nodup_iff.mpr (List.nodup_cons.mpr ⟨hout, h.nodup⟩), ?_, ?_,
    fun _ => ⟨?_, fun e he => ?_, fun _ => rfl, fun hworld => ?_⟩, fun c hc => ?_⟩
  · show Placed (Function.update t.phase o p o') (t.timeouts o') (o' ∈ t.waiters)
    have hmem : o' ∈ t.waiters ↔ o' = o ∨ o' ∈ s.waiters := by
      rw [hwaiters.mem_iff, List.mem_cons]
    have hsame : t.timeouts o' = s.timeouts o' ∧ t.phase o' = s.phase o' := by rw [ht]; exact ⟨rfl, rfl⟩
    rw [hsame.1, propext hmem]
    by_cases ho : o' = o
    · subst ho
      simpa [hx] using hp
    · simpa [ho, hsame.2] using h.placed o'
  · show t.waitList.Pairwise fun a b => a.1 ≤ b.1
    rw [hlist]
    exact Agenda.keys_insert h.keys
  · intro c m before hcall
    rw [ht] at hcall ⊢
    exact h.holder c m before hcall
  · show t.waitList.Pairwise fun a b => t.signaltime a.2 ≤ t.signaltime b.2
    rw [hlist, htime]
    refine Agenda.pairwise_insert h.keys (h.free hfree).sorted (fun e he hle => ?_) fun e he hlt => ?_
    · rw [hself]
      exact (hfits e he).1 hle
    · rw [hself]
      exact (hfits e he).2 hlt
  · show t.signaltime e.2 ≠ 0
    have he' : e ∈ t.waitList := he
    rw [hlist, Agenda.mem_insert] at he'
    rw [htime]
    rcases he' with rfl | hold
    · rwa [hself]
    · exact (h.free hfree).nonzero e hold
  · have hs : t.mode = .worldTime := hworld
    rw [ht] at hs
    exact absurd (hs.symm.trans hmode) (by decide)
  · have hc' : t.mutex = some c := hc
    rw [ht] at hc'
    exact absurd (hfree.symm.trans hc') (by simp)

/-- The loop takes entries from the head of the list and posts their timeouts. -/
theorem postWhile_spec (due : Timeout → Bool) (l : List (BitVec 64 × τ)) :
    ∀ f : τ → Option Timeout, (l.map Prod.snd).Nodup → (∀ e ∈ l, f e.2 ≠ none) →
      ∃ pre, l = pre ++ (postWhile due l f).1 ∧
        (∀ e ∈ pre, ∃ x, f e.2 = some x ∧ due x = true) ∧
        (∀ e ∈ (postWhile due l f).1.head?, ∃ x, f e.2 = some x ∧ due x = false) ∧
        ∀ o, (postWhile due l f).2 o =
          if o ∈ pre.map Prod.snd then (f o).map Timeout.post else f o := by
  induction l with
  | nil => exact fun f _ _ => ⟨[], rfl, by simp, by simp [postWhile], by simp [postWhile]⟩
  | cons e l ih =>
    intro f hnodup hsome
    obtain ⟨x, hx⟩ := Option.ne_none_iff_exists'.mp (hsome e (List.mem_cons_self ..))
    obtain ⟨he, hl⟩ := List.nodup_cons.mp hnodup
    have hother : ∀ b ∈ l, Function.update f e.2 (some x.post) b.2 = f b.2 := fun b hb =>
      Function.update_of_ne (fun heq : b.2 = e.2 => he (heq ▸ List.mem_map_of_mem hb)) _ _
    rw [postWhile, hx]
    dsimp only
    cases hdue : due x with
    | true =>
      rw [if_pos rfl]
      obtain ⟨pre, hsplit, hpre, hhead, hposted⟩ := ih (Function.update f e.2 (some x.post)) hl
        fun b hb => by rw [hother b hb]; exact hsome b (List.mem_cons_of_mem _ hb)
      -- The timeouts of the other entries are still what they were.
      have hmem : ∀ b ∈ pre, b ∈ l := fun b hb => by
        rw [hsplit]
        exact List.mem_append_left _ hb
      refine ⟨e :: pre, by rw [List.cons_append, ← hsplit], fun b hb => ?_, fun b hb => ?_,
        fun o => ?_⟩
      · rcases List.mem_cons.mp hb with rfl | hb'
        · exact ⟨x, hx, hdue⟩
        · exact hother b (hmem b hb') ▸ hpre b hb'
      · have hbl : b ∈ l := by
          rw [hsplit]
          exact List.mem_append_right _ (List.mem_of_mem_head? hb)
        exact hother b hbl ▸ hhead b hb
      · rw [hposted o]
        simp only [List.map_cons, List.mem_cons]
        by_cases ho : o = e.2
        · have hnot : o ∉ pre.map Prod.snd := fun hin => by
            obtain ⟨b, hb, rfl⟩ := List.mem_map.mp hin
            exact he (ho ▸ List.mem_map_of_mem (hmem b hb))
          rw [if_neg hnot, if_pos (.inl ho), ho, Function.update_self, hx]
          rfl
        · simp [ho]
    | false =>
      rw [if_neg Bool.false_ne_true]
      refine ⟨[], rfl, by simp, fun b hb => ?_, by simp⟩
      obtain rfl : e = b := by simpa using hb
      exact ⟨x, hx, hdue⟩

section posting

variable (h : Inv s) (due : Timeout → Bool)

omit [DecidableEq σ]

include h

/-- The loop splits the wait list. -/
theorem Inv.split_postWhile : ∃ pre, s.waitList = pre ++ (postWhile due s.waitList s.timeouts).1 ∧
    (∀ e ∈ pre, ∃ x, s.timeouts e.2 = some x ∧ due x = true) ∧
    (∀ e ∈ (postWhile due s.waitList s.timeouts).1.head?,
      ∃ x, s.timeouts e.2 = some x ∧ due x = false) ∧
    ∀ o, (postWhile due s.waitList s.timeouts).2 o =
      if o ∈ pre.map Prod.snd then (s.timeouts o).map Timeout.post else s.timeouts o := by
  refine postWhile_spec due s.waitList s.timeouts h.nodup fun e he hnone => ?_
  obtain ⟨y, hy, -⟩ := (h.placed e.2).of_inList (mem_waiters he)
  exact absurd (hnone.symm.trans hy) (by simp)

/-- Posting from the head of the list leaves every timeout where it belongs. -/
theorem Inv.placed_postWhile (o : τ) :
    Placed (s.phase o) ((postWhile due s.waitList s.timeouts).2 o)
      (o ∈ (postWhile due s.waitList s.timeouts).1.map Prod.snd) := by
  obtain ⟨pre, hsplit, -, -, hposted⟩ := h.split_postWhile due
  have hwaiters : s.waiters = pre.map Prod.snd ++
      (postWhile due s.waitList s.timeouts).1.map Prod.snd := by
    rw [waiters, ← List.map_append, ← hsplit]
  rw [hposted o]
  by_cases hpre : o ∈ pre.map Prod.snd
  · have hin : o ∈ s.waiters := by
      rw [hwaiters]
      exact List.mem_append_left _ hpre
    have hrest : o ∉ (postWhile due s.waitList s.timeouts).1.map Prod.snd := by
      have hnodup := h.nodup
      rw [hwaiters] at hnodup
      exact fun hrest => List.disjoint_of_nodup_append hnodup hpre hrest
    obtain ⟨y, hy, -⟩ := (h.placed o).of_inList hin
    have hplaced := h.placed o
    rw [hy, eq_true hin] at hplaced
    rw [if_pos hpre, hy, eq_false hrest]
    exact hplaced.post
  · have hmem : o ∈ (postWhile due s.waitList s.timeouts).1.map Prod.snd ↔ o ∈ s.waiters := by
      rw [hwaiters, List.mem_append]
      exact (or_iff_right hpre).symm
    rw [if_neg hpre, propext hmem]
    exact h.placed o

/-- Time stamps are not changed by `sem_post`. -/
theorem Inv.moved_postWhile : Moved id s.timeouts (postWhile due s.waitList s.timeouts).2 := by
  obtain ⟨pre, -, -, -, hposted⟩ := h.split_postWhile due
  intro o x hx
  rw [hposted o, hx]
  by_cases hpre : o ∈ pre.map Prod.snd
  · exact ⟨x.post, by rw [if_pos hpre]; rfl, rfl, rfl⟩
  · exact ⟨x, by rw [if_neg hpre], rfl, rfl⟩

/-- The loop in `emu_step_ns` keeps the order and finds the new head. -/
theorem Inv.scan (hfree : s.mutex = none) {t : State τ σ}
    (ht : t = { s with
      waitList := (postWhile due s.waitList s.timeouts).1
      timeouts := (postWhile due s.waitList s.timeouts).2 }) :
    Inv { t with emuOldest := t.oldest } := by
  obtain ⟨pre, hsplit, -⟩ := h.split_postWhile due
  have hsuffix : t.waitList <:+ s.waitList := ⟨pre, by rw [ht]; exact hsplit.symm⟩
  have htime : ∀ e ∈ s.waitList, t.signaltime e.2 = s.signaltime e.2 := fun e he => by
    obtain ⟨y, hy, -⟩ := (h.placed e.2).of_inList (mem_waiters he)
    obtain ⟨z, hz, -, hsignal⟩ := h.moved_postWhile due e.2 y hy
    have hz' : t.timeouts e.2 = some z := by rw [ht]; exact hz
    rw [signaltime_of_some hy, signaltime_of_some hz', hsignal, id]
  have hsettled := h.free hfree
  refine ⟨fun o => ?_, (hsuffix.map Prod.snd).sublist.nodup h.nodup,
    h.keys.sublist hsuffix.sublist, fun c m before hcall => ?_,
    fun _ => ⟨?_, fun e he => ?_, fun _ => rfl, fun hworld => ?_⟩, fun c hc => ?_⟩
  · have hplaced := h.placed_postWhile due o
    rw [ht]
    exact hplaced
  · rw [ht] at hcall ⊢
    exact h.holder c m before hcall
  · refine (hsettled.sorted.sublist hsuffix.sublist).imp_of_mem fun ha hb hle => ?_
    show t.signaltime _ ≤ t.signaltime _
    rwa [htime _ (hsuffix.mem ha), htime _ (hsuffix.mem hb)]
  · show t.signaltime e.2 ≠ 0
    rw [htime e (hsuffix.mem he)]
    exact hsettled.nonzero e (hsuffix.mem he)
  · have hs : s.mode = .worldTime := by rw [ht] at hworld; exact hworld
    show t.waitList = []
    rw [hsettled.world hs] at hsuffix
    exact List.suffix_nil.mp hsuffix
  · have hc' : t.mutex = some c := hc
    rw [ht] at hc'
    exact absurd (hfree.symm.trans hc') (by simp)

end posting

/-! ## Mode changes -/

omit [DecidableEq τ] in
/-- `set_mode` takes the mutex. -/
theorem Inv.lock (h : Inv s) (hfree : s.mutex = none) {c : σ} {m : Mode}
    (hcall : t.call = Function.update s.call c (.switching m s.clocks)) (hmutex : t.mutex = some c)
    (hlist : t.waitList = s.waitList)
    (hplaced : ∀ o, Placed (t.phase o) (t.timeouts o) (o ∈ s.waiters))
    (hswitching : Switching t m s.clocks) : Inv t where
  placed o := by
    have hwaiters : t.waiters = s.waiters := by rw [waiters, waiters, hlist]
    rw [hwaiters]
    exact hplaced o
  nodup := by
    rw [waiters, hlist]
    exact h.nodup
  keys := by
    rw [hlist]
    exact h.keys
  holder c' m' before hc' := by
    by_cases hc : c' = c
    · rw [hc, hmutex]
    · rw [hcall, Function.update_of_ne hc] at hc'
      exact absurd (hfree.symm.trans (h.holder c' m' before hc')) (by simp)
  free hnone := absurd (hmutex.symm.trans hnone) (by simp)
  taken c' hc' := by
    obtain rfl : c = c' := Option.some.inj (hmutex.symm.trans hc')
    exact ⟨m, s.clocks, by rw [hcall, Function.update_self], hswitching⟩

omit [DecidableEq τ] in
/-- It returns the mutex, and the list is empty. -/
theorem Inv.unlock (h : Inv s) {c : σ} {m : Mode} {before : Clocks τ}
    (hold : s.call c = .switching m before) (hcall : t.call = Function.update s.call c .none)
    (hmutex : t.mutex = none) (hlist : t.waitList = [])
    (hplaced : ∀ o, Placed (t.phase o) (t.timeouts o) False)
    (hcached : t.mode = .emulatedTime → t.emuOldest = 0) : Inv t where
  placed o := by
    have hout : o ∉ t.waiters := by simp [waiters, hlist]
    rw [eq_false hout]
    exact hplaced o
  nodup := by
    rw [waiters, hlist]
    exact List.nodup_nil
  keys := by
    rw [hlist]
    exact List.Pairwise.nil
  holder c' m' before' hc' := by
    have hc : c' ≠ c := by
      rintro rfl
      rw [hcall, Function.update_self] at hc'
      cases hc'
    rw [hcall, Function.update_of_ne hc] at hc'
    have hsame := (h.holder c m before hold).symm.trans (h.holder c' m' before' hc')
    exact absurd (Option.some.inj hsame).symm hc
  free _ := by
    refine ⟨?_, ?_, fun hmode => ?_, fun _ => hlist⟩
    · rw [hlist]
      exact List.Pairwise.nil
    · simp [hlist]
    · rw [hcached hmode, State.oldest, hlist]
  taken c' hc' := absurd (hmutex.symm.trans hc') (by simp)

/-! ## Steps -/

/-- Steps of a thread with a timeout, apart from the insertion. -/
def Action.onTimeout : Action τ σ → Bool
  | .wait .. | .slept _ | .construct .. | .initSemaphore _ | .start .. | .stamp _ | .wake _
  | .interrupt _ | .destroy _ | .erase _ => true
  | _ => false

/-- The thread of a step of `emu_step_ns` or `set_mode` that does not touch the list. -/
def Action.caller : Action τ σ → Option σ
  | .emuStep c _ | .readClock c | .addClock c | .quickTest c | .setMode c _ => some c
  | _ => none

omit [DecidableEq σ] in
theorem setPhase_eq_put (s : State τ σ) (o : τ) (p : Phase) :
    s.setPhase o p = s.put o p (s.timeouts o) := by
  rw [setPhase, State.put, Function.update_eq_self]

/-- Only one timeout changes, and nothing is posted. Time stamps only change when the timeout is
not in the list and no mode change is under way. -/
def OneChanged (s t : State τ σ) : Prop :=
  ∃ o p x, t = s.put o p x ∧ Placed p x (o ∈ s.waiters) ∧
    (o ∈ s.waiters ∨ s.mutex ≠ none → ∀ y, s.timeouts o = some y →
      ∃ z, x = some z ∧ z.starttime = y.starttime ∧ z.signaltime = y.signaltime) ∧
    ∀ y z, s.timeouts o = some y → x = some z → z.posts = y.posts

omit [DecidableEq σ] in
theorem oneChanged_setPhase {o : τ} {p : Phase}
    (h : Placed p (s.timeouts o) (o ∈ s.waiters)) : OneChanged s (s.setPhase o p) :=
  ⟨o, p, s.timeouts o, setPhase_eq_put s o p, h, fun _ y hy => ⟨y, hy, rfl, rfl⟩,
    fun y z hy hz => by rw [Option.some.inj (hy.symm.trans hz)]⟩

omit [DecidableEq σ] in
theorem oneChanged_put {o : τ} {p : Phase} {y z : Timeout} (hy : s.timeouts o = some y)
    (h : Placed p (some z) (o ∈ s.waiters)) (hposts : z.posts = y.posts)
    (hstamps : o ∈ s.waiters ∨ s.mutex ≠ none →
      z.starttime = y.starttime ∧ z.signaltime = y.signaltime) :
    OneChanged s (s.put o p (some z)) := by
  refine ⟨o, p, some z, rfl, h, fun hfix y' hy' => ⟨z, rfl, ?_⟩, fun y' z' hy' hz' => ?_⟩
  · obtain rfl := Option.some.inj (hy.symm.trans hy')
    exact hstamps hfix
  · obtain rfl := Option.some.inj (hy.symm.trans hy')
    obtain rfl := Option.some.inj hz'
    exact hposts

omit [DecidableEq σ] in
/-- A timeout comes, or goes. -/
theorem oneChanged_of_free {o : τ} {p : Phase} {x : Option Timeout} (hfree : s.mutex = none)
    (hout : o ∉ s.waiters) (h : Placed p x (o ∈ s.waiters))
    (hnone : s.timeouts o = none ∨ x = none) : OneChanged s (s.put o p x) := by
  refine ⟨o, p, x, rfl, h, fun hfix => absurd hfix ?_, fun y z hy hz => ?_⟩
  · rw [not_or, not_not]
    exact ⟨hout, hfree⟩
  · rcases hnone with hno | hno
    · exact absurd (hno.symm.trans hy) (by simp)
    · exact absurd (hno.symm.trans hz) (by simp)

theorem onTimeout_step (h : Inv s) {a : Action τ σ} (ha : a.onTimeout = true)
    (hcareful : Careful s a) (hstep : step s a = some t) : OneChanged s t := by
  cases a with
  | tick | insert | emuStep | readClock | addClock | quickTest | scan | setMode | lockSwitch
  | endSwitch => simp [Action.onTimeout] at ha
  | interrupt => exact hcareful.elim
  | wait o duration =>
    have hplaced := h.placed o
    simp only [step, Option.ite_none_right_eq_some] at hstep
    obtain ⟨hp, hstep⟩ := hstep
    rw [hp] at hplaced
    cases hmode : s.mode <;> rw [hmode] at hstep <;> obtain rfl := Option.some.inj hstep
    · exact oneChanged_setPhase hplaced
    · exact oneChanged_setPhase hplaced
  | slept o =>
    have hplaced := h.placed o
    simp only [step, Option.ite_none_right_eq_some] at hstep
    obtain ⟨hp, hstep⟩ := hstep
    obtain rfl := Option.some.inj hstep
    rw [hp] at hplaced
    exact oneChanged_setPhase hplaced
  | construct o garbage =>
    have hplaced := h.placed o
    simp only [step, Option.ite_none_right_eq_some] at hstep
    obtain ⟨hfree, hstep⟩ := hstep
    split at hstep
    · next hp =>
      rw [hp] at hplaced
      obtain rfl := Option.some.inj hstep
      exact oneChanged_of_free hfree hplaced.2 ⟨Option.some_ne_none _, hplaced.2⟩ (.inl hplaced.1)
    · next duration hp =>
      rw [hp] at hplaced
      obtain rfl := Option.some.inj hstep
      exact oneChanged_of_free hfree hplaced.2
        ⟨_, rfl, rfl, fun hsem => absurd rfl hsem, hplaced.2⟩ (.inl hplaced.1)
    · cases hstep
  | initSemaphore o =>
    have hplaced := h.placed o
    simp only [step] at hstep
    split at hstep
    · next wait x hp hx =>
      rw [hp, hx] at hplaced
      cases wait with
      | none =>
        cases hmode : s.mode <;> rw [hmode] at hstep <;> obtain rfl := Option.some.inj hstep
        · exact oneChanged_put hx ⟨_, rfl, fun hin => absurd hin hplaced.2⟩ rfl fun _ => ⟨rfl, rfl⟩
        · exact oneChanged_put hx ⟨_, rfl, fun hin => absurd hin hplaced.2⟩ rfl fun _ => ⟨rfl, rfl⟩
      | some duration =>
        obtain ⟨y, hy, hposts, hsem, hout⟩ := hplaced
        obtain rfl := Option.some.inj hy
        cases hmode : s.mode <;> rw [hmode] at hstep <;> obtain rfl := Option.some.inj hstep
        · exact oneChanged_put hx ⟨_, rfl, hposts, hsem, hout⟩ rfl fun _ => ⟨rfl, rfl⟩
        · exact oneChanged_put hx ⟨_, rfl, hposts, fun _ => rfl, hout⟩ rfl fun _ => ⟨rfl, rfl⟩
    · cases hstep
  | start o duration =>
    have hplaced := h.placed o
    simp only [step, Option.ite_none_right_eq_some] at hstep
    obtain ⟨hp, hstep⟩ := hstep
    rw [hp] at hplaced
    cases hmode : s.mode <;> rw [hmode] at hstep <;> obtain rfl := Option.some.inj hstep
    · exact oneChanged_setPhase hplaced
    · exact oneChanged_setPhase hplaced
  | stamp o =>
    have hplaced := h.placed o
    obtain ⟨hfree, hout⟩ := hcareful
    -- So the time stamps may change.
    have hmay : ¬ (o ∈ s.waiters ∨ s.mutex ≠ none) := by
      rw [not_or, not_not]
      exact ⟨hout, hfree⟩
    simp only [step] at hstep
    split at hstep
    · next wait duration x hp hx =>
      rw [hp, hx] at hplaced
      obtain rfl := Option.some.inj hstep
      refine oneChanged_put hx ?_ rfl fun hfix => absurd hfix hmay
      cases wait with
      | true =>
        obtain ⟨y, hy, hposts, hsem, -⟩ := hplaced
        obtain rfl := Option.some.inj hy
        exact ⟨_, rfl, hposts, hsem, rfl, hout⟩
      | false => exact ⟨_, rfl, rfl, hout⟩
    · next duration x hp hx =>
      obtain rfl := Option.some.inj hstep
      exact oneChanged_put hx ⟨_, rfl, fun hin => absurd hin hout⟩ rfl
        fun hfix => absurd hfix hmay
    · cases hstep
  | wake o =>
    have hplaced := h.placed o
    simp only [step] at hstep
    split at hstep
    · next x hp hx =>
      rw [hp, hx] at hplaced
      obtain ⟨y, hy, hstarted, hposted⟩ := hplaced
      obtain rfl := Option.some.inj hy
      split at hstep
      · next n hsem =>
        obtain rfl := Option.some.inj hstep
        rcases hposted with ⟨-, hzero, -⟩ | ⟨hposts, hone, hout⟩
        · exact absurd (hsem.symm.trans hzero) (by simp)
        · have hn : n = 0 := by simpa using hsem.symm.trans hone
          exact oneChanged_put hx ⟨_, rfl, hposts, by rw [hn], hout⟩ rfl fun _ => ⟨rfl, rfl⟩
      · cases hstep
    · cases hstep
  | destroy o =>
    have hplaced := h.placed o
    simp only [step, Option.ite_none_right_eq_some] at hstep
    obtain ⟨hp, hstep⟩ := hstep
    obtain ⟨x, hx, hout⟩ : ∃ x, s.timeouts o = some x ∧ o ∉ s.waiters := by
      rcases hp with hp | hp
      · rw [hp] at hplaced
        obtain ⟨y, hy, -, -, hout⟩ := hplaced
        exact ⟨y, hy, hout⟩
      · have hready := hcareful hp
        rw [hp] at hplaced
        exact ⟨_, hplaced.choose_spec.1, hready.1⟩
    rw [hx] at hstep
    cases hmode : s.mode <;> rw [hmode] at hstep <;> obtain rfl := Option.some.inj hstep
    · exact oneChanged_put hx ⟨Option.some_ne_none _, hout⟩ rfl fun _ => ⟨rfl, rfl⟩
    · exact oneChanged_put hx ⟨Option.some_ne_none _, hout⟩ rfl fun _ => ⟨rfl, rfl⟩
  | erase o =>
    have hplaced := h.placed o
    simp only [step, Option.ite_none_right_eq_some] at hstep
    obtain ⟨⟨hfree, hp⟩, hstep⟩ := hstep
    obtain rfl := Option.some.inj hstep
    rw [hp] at hplaced
    exact oneChanged_of_free hfree hplaced.2 ⟨rfl, hplaced.2⟩ (.inr rfl)

/-- Only the program counter of the thread changes, and perhaps the clock. -/
theorem caller_step {a : Action τ σ} {c : σ} (ha : a.caller = some c)
    (hstep : step s a = some t) :
    ∃ call n, t = { s with emuNow := n }.setCall c call ∧
      (∀ m before, s.call c ≠ .switching m before) ∧ (∀ m before, call ≠ .switching m before) ∧
      (n = s.emuNow ∨ ∃ old delta, a = .addClock c ∧ s.call c = .stepRead old delta ∧
        n = old + delta.setWidth 64) := by
  -- Returning at once is a call that is not there, as before.
  have hsame : s.call c = .none → s = { s with emuNow := s.emuNow }.setCall c .none := fun hnone => by
    rw [setCall, ← hnone, Function.update_eq_self]
  cases a with
  | tick | wait | slept | construct | initSemaphore | start | stamp | insert | wake | interrupt
  | destroy | erase | scan | lockSwitch | endSwitch => simp [Action.caller] at ha
  | emuStep c' delta =>
    obtain rfl : c' = c := Option.some.inj ha
    simp only [step] at hstep
    split at hstep
    · next hcall _ =>
      obtain rfl := Option.some.inj hstep
      exact ⟨.none, s.emuNow, hsame hcall, by simp [hcall], by simp, .inl rfl⟩
    · next hcall _ =>
      obtain rfl := Option.some.inj hstep
      exact ⟨.stepTested delta, s.emuNow, rfl, by simp [hcall], by simp, .inl rfl⟩
    · cases hstep
  | readClock c' =>
    obtain rfl : c' = c := Option.some.inj ha
    simp only [step] at hstep
    split at hstep
    · next delta hcall =>
      obtain rfl := Option.some.inj hstep
      exact ⟨.stepRead s.emuNow delta, s.emuNow, rfl, by simp [hcall], by simp, .inl rfl⟩
    · cases hstep
  | addClock c' =>
    obtain rfl : c' = c := Option.some.inj ha
    simp only [step] at hstep
    split at hstep
    · next old delta hcall =>
      obtain rfl := Option.some.inj hstep
      exact ⟨.stepAdded, old + delta.setWidth 64, rfl, by simp [hcall], by simp,
        .inr ⟨old, delta, rfl, hcall, rfl⟩⟩
    · cases hstep
  | quickTest c' =>
    obtain rfl : c' = c := Option.some.inj ha
    simp only [step] at hstep
    split at hstep
    · next hcall =>
      split at hstep
      · obtain rfl := Option.some.inj hstep
        exact ⟨.scanning, s.emuNow, rfl, by simp [hcall], by simp, .inl rfl⟩
      · obtain rfl := Option.some.inj hstep
        exact ⟨.none, s.emuNow, rfl, by simp [hcall], by simp, .inl rfl⟩
    · cases hstep
  | setMode c' newMode =>
    obtain rfl : c' = c := Option.some.inj ha
    simp only [step] at hstep
    split at hstep
    · next hcall =>
      split at hstep
      · obtain rfl := Option.some.inj hstep
        exact ⟨.none, s.emuNow, hsame hcall, by simp [hcall], by simp, .inl rfl⟩
      · obtain rfl := Option.some.inj hstep
        exact ⟨.modeTested newMode, s.emuNow, rfl, by simp [hcall], by simp, .inl rfl⟩
    · cases hstep

/-- The insertion updates the cached time. -/
theorem insert_step (h : Inv s) {o : τ} (hcareful : Careful s (.insert o))
    (hstep : step s (.insert o) = some t) :
    Inv t ∧ t.timeouts = s.timeouts ∧ t.emuNow = s.emuNow ∧ t.emuOldest = t.oldest ∧
      t.mutex = none := by
  have hplaced := h.placed o
  simp only [step, Option.ite_none_right_eq_some] at hstep
  obtain ⟨hfree, hstep⟩ := hstep
  split at hstep
  · next wait x hp hx =>
    rw [hp, hx] at hplaced
    obtain ⟨hsem, hnonzero, hfits⟩ := hcareful.2 x hx
    obtain rfl := Option.some.inj hstep
    refine ⟨?_, rfl, rfl, rfl, hfree⟩
    cases wait with
    | true =>
      obtain ⟨y, hy, hposts, hzero, hstarted, hout⟩ := hplaced
      obtain rfl := Option.some.inj hy
      have hwaiting : Placed .waiting (some x) True :=
        ⟨x, rfl, hstarted, .inl ⟨hposts, hzero hsem, trivial⟩⟩
      exact h.insert hfree hcareful.1 hx hout hwaiting hnonzero hfits rfl
    | false =>
      obtain ⟨y, hy, hstarted, hout⟩ := hplaced
      obtain rfl := Option.some.inj hy
      have hready : Placed .ready (some x) True := ⟨x, rfl, fun _ => ⟨hsem, hstarted⟩⟩
      exact h.insert hfree hcareful.1 hx hout hready hnonzero hfits rfl
  · cases hstep

/-- `emu_step_ns` works off the list. -/
theorem scan_step (h : Inv s) {c : σ} (hstep : step s (.scan c) = some t) :
    s.mutex = none ∧ Inv t ∧ t.emuNow = s.emuNow ∧ t.emuOldest = t.oldest ∧ t.mutex = none ∧
      (∀ e ∈ t.waitList, s.emuNow < t.signaltime e.2) ∧
      ∀ o x y, s.timeouts o = some x → t.timeouts o = some y → y.posts ≠ x.posts →
        y.posts = x.posts + 1 ∧ x.signaltime ≤ s.emuNow := by
  simp only [step] at hstep
  split at hstep
  · next hcall hfree =>
    obtain ⟨pre, hsplit, hpre, hhead, hposted⟩ :=
      h.split_postWhile fun x => decide (x.signaltime ≤ s.emuNow)
    have hmoved := h.moved_postWhile fun x => decide (x.signaltime ≤ s.emuNow)
    have hscan := h.scan (fun x => decide (x.signaltime ≤ s.emuNow)) hfree rfl
    obtain rfl := Option.some.inj hstep
    generalize postWhile (fun x => decide (x.signaltime ≤ s.emuNow)) s.waitList s.timeouts = r
      at *
    refine ⟨hfree, hscan.setCall (by simp [hcall]) (by simp) s.emuNow, rfl, rfl, hfree, ?_, ?_⟩
    · -- The head that is left is not due, so nothing is.
      refine Agenda.not_due _ s.emuNow (hscan.free hfree).sorted fun e he => ?_
      obtain ⟨x, hx, hdue⟩ := hhead e he
      obtain ⟨y, hy, -, hsignal⟩ := hmoved e.2 x hx
      rw [show State.signaltime _ e.2 = y.signaltime from signaltime_of_some hy, hsignal]
      exact not_le.mp (of_decide_eq_false hdue)
    · intro o x y hx hy hne
      have hy' : r.2 o = some y := hy
      rw [hposted o, hx] at hy'
      split at hy'
      · next hin =>
        obtain rfl := Option.some.inj hy'
        obtain ⟨e, he, rfl⟩ := List.mem_map.mp hin
        obtain ⟨z, hz, hdue⟩ := hpre e he
        obtain rfl := Option.some.inj (hx.symm.trans hz)
        exact ⟨rfl, of_decide_eq_true hdue⟩
      · obtain rfl := Option.some.inj hy'
        exact absurd rfl hne
  · cases hstep

/-- `set_mode` takes the mutex and makes its first assignments. -/
theorem lock_step (h : Inv s) {c : σ} (hcareful : Careful s (.lockSwitch c))
    (hstep : step s (.lockSwitch c) = some t) :
    Inv t ∧ t.emuNow = s.emuNow ∧ t.emuOldest = s.emuOldest ∧ t.waitList = s.waitList ∧
      (∀ o x y, s.timeouts o = some x → t.timeouts o = some y → y.posts = x.posts) ∧
      (s.mode = .worldTime → s.waitList = []) := by
  simp only [step] at hstep
  split at hstep
  · next m hcall hfree =>
    have hconverts := (hcareful m hcall).2
    cases hmode : s.mode <;> rw [hmode] at hstep <;> obtain rfl := Option.some.inj hstep
    · have hempty := (h.free hfree).world hmode
      refine ⟨h.lock hfree rfl rfl rfl h.placed ⟨rfl, le_rfl, fun _ => ⟨hempty, ?_, ?_⟩, nofun⟩,
        rfl, rfl, rfl, fun o x y hx hy => ?_, fun _ => hempty⟩
      · show s.now = s.worldNow
        rw [State.now, hmode]
      · exact fun o x hx => ⟨x, hx, rfl, rfl⟩
      · rw [Option.some.inj (hx.symm.trans hy)]
    · have hnow : s.clocks.now = s.emuNow := by
        show s.now = s.emuNow
        rw [State.now, hmode]
      refine ⟨h.lock hfree rfl rfl rfl (fun o => (h.placed o).convert _ _)
        ⟨rfl, le_rfl, nofun, fun _ => ⟨fun o x hx => ?_, hconverts hmode⟩⟩,
        rfl, rfl, rfl, fun o x y hx hy => ?_, nofun⟩
      · rw [hnow]
        have hx' : s.timeouts o = some x := hx
        refine ⟨x.convert s.worldNow s.emuNow, ?_, rfl, rfl⟩
        show (s.timeouts o).map _ = _
        rw [hx']
        rfl
      · have hy' : (s.timeouts o).map (fun x => x.convert s.worldNow s.emuNow) = some y := hy
        rw [hx] at hy'
        obtain rfl := Option.some.inj hy'
        rfl
  · cases hstep

/-- The time of a timeout goes on with world time from `before` on. -/
def Continued (before : Clocks τ) (t : State τ σ) : Prop :=
  ∀ o x, before.timeouts o = some x → x.started = true →
    t.elapsed o = some (before.now + (t.worldNow - before.worldNow) - x.starttime) ∧
      (t.reached o = some true ↔
        x.signaltime.toNat ≤ before.now.toNat + (t.worldNow.toNat - before.worldNow.toNat))

omit [DecidableEq τ] [DecidableEq σ] in
/-- World time is the clock, and the time stamps have been moved to it. -/
theorem Continued.of_moved {before : Clocks τ} {f : BitVec 64 → BitVec 64}
    (hnow : t.now = t.worldNow) (hworld : before.worldNow ≤ t.worldNow)
    (hmoved : Moved f before.timeouts t.timeouts)
    (hf : ∀ n, f n = n + before.worldNow - before.now)
    (hconverts : ∀ o x, before.timeouts o = some x → x.started = true → before.Converts x) :
    Continued before t := by
  intro o x hx hstarted
  obtain ⟨y, hy, hstart, hsignal⟩ := hmoved o x hx
  rw [hf] at hstart hsignal
  constructor
  · rw [elapsed, hy, hnow, Option.map_some, hstart]
    congr 1
    ring
  · obtain ⟨hlow, hhigh⟩ := hconverts o x hx hstarted
    -- The conversion does not wrap around.
    have hexact : y.signaltime.toNat =
        x.signaltime.toNat + before.worldNow.toNat - before.now.toNat := by
      rw [hsignal, BitVec.toNat_sub, BitVec.toNat_add]
      omega
    have hle : before.worldNow.toNat ≤ t.worldNow.toNat := hworld
    rw [reached, hy, hnow, Option.map_some, Option.some.injEq, decide_eq_true_eq, BitVec.le_def,
      hexact]
    omega

/-- `set_mode` makes its last assignments and returns the mutex. -/
theorem end_step (h : Inv s) {c : σ} (hstep : step s (.endSwitch c) = some t) :
    Inv t ∧ t.waitList = [] ∧ t.mutex = none ∧
      (t.mode = .worldTime ∧ t.emuNow = s.emuNow ∧ t.emuOldest = s.emuOldest ∧
          (∀ o x y, s.timeouts o = some x → t.timeouts o = some y → y.posts ≠ x.posts →
            y.posts = x.posts + 1) ∨
        t.mode = .emulatedTime ∧ t.emuNow = s.worldNow ∧ t.emuOldest = 0 ∧
          t.timeouts = s.timeouts) ∧
      ∀ m before, s.call c = .switching m before → Continued before t := by
  simp only [step] at hstep
  split at hstep
  · next before hcall =>
    obtain ⟨m, before', hcall', hswitching⟩ := h.taken c (h.holder c _ _ hcall)
    obtain ⟨rfl, rfl⟩ := Call.switching.inj (hcall.symm.trans hcall')
    obtain ⟨hempty, hnow, hmoved⟩ := hswitching.toEmulated rfl
    obtain rfl := Option.some.inj hstep
    refine ⟨?_, hempty, rfl, .inr ⟨hswitching.mode, rfl, rfl, rfl⟩, fun m' b hb => ?_⟩
    · refine h.unlock hcall rfl rfl hempty (fun o => ?_) fun _ => rfl
      have hout : o ∉ s.waiters := by simp [waiters, hempty]
      exact eq_false hout ▸ h.placed o
    · obtain ⟨rfl, rfl⟩ := Call.switching.inj (hcall.symm.trans hb)
      refine Continued.of_moved ?_ hswitching.world hmoved (fun n => ?_) fun o x _ _ => ⟨?_, ?_⟩
      · show State.now _ = s.worldNow
        simp [State.now, State.setCall, hswitching.mode]
      · rw [hnow, id]
        ring
      · rw [hnow]
        exact Nat.le_add_left ..
      · rw [hnow, Nat.add_comm]
        exact Nat.add_lt_add_left x.signaltime.isLt _
  · next before hcall =>
    obtain ⟨m, before', hcall', hswitching⟩ := h.taken c (h.holder c _ _ hcall)
    obtain ⟨rfl, rfl⟩ := Call.switching.inj (hcall.symm.trans hcall')
    obtain ⟨hmoved, hconverts⟩ := hswitching.toWorld rfl
    obtain ⟨pre, hsplit, hpre, hhead, hposted⟩ := h.split_postWhile fun _ => true
    have hplaced := h.placed_postWhile fun _ => true
    have hkept := h.moved_postWhile fun _ => true
    obtain rfl := Option.some.inj hstep
    generalize postWhile (fun _ => true) s.waitList s.timeouts = r at *
    -- Nothing is left in the list.
    have hempty : r.1 = [] := by
      cases hr : r.1 with
      | nil => rfl
      | cons e l =>
        obtain ⟨x, -, hdue⟩ := hhead e (by rw [hr]; rfl)
        cases hdue
    refine ⟨?_, hempty, rfl, .inl ⟨rfl, rfl, rfl, fun o x y hx hy hne => ?_⟩, fun m' b hb => ?_⟩
    · refine h.unlock hcall rfl rfl hempty (fun o => ?_) nofun
      have hout : o ∉ r.1.map Prod.snd := by simp [hempty]
      exact eq_false hout ▸ hplaced o
    · have hy' : r.2 o = some y := hy
      rw [hposted o, hx] at hy'
      split at hy'
      · obtain rfl := Option.some.inj hy'
        rfl
      · obtain rfl := Option.some.inj hy'
        exact absurd rfl hne
    · obtain ⟨rfl, rfl⟩ := Call.switching.inj (hcall.symm.trans hb)
      exact Continued.of_moved rfl hswitching.world (hmoved.trans_id hkept) (fun _ => rfl) hconverts
  · cases hstep

theorem Inv.step (h : Inv s) {a : Action τ σ} (hcareful : Careful s a)
    (hstep : step s a = some t) : Inv t := by
  by_cases ha : a.onTimeout = true
  · obtain ⟨o, p, x, rfl, hplaced, hstamps, -⟩ := onTimeout_step h ha hcareful hstep
    exact h.put hplaced hstamps
  cases hc : a.caller with
  | some c =>
    obtain ⟨call, n, rfl, hold, hnew, -⟩ := caller_step hc hstep
    exact h.setCall hold hnew n
  | none =>
    cases a with
    | wait | slept | construct | initSemaphore | start | stamp | wake | interrupt | destroy
    | erase => exact absurd rfl ha
    | emuStep | readClock | addClock | quickTest | setMode => simp [Action.caller] at hc
    | tick delta =>
      simp only [FlexiTimeout.step, Option.ite_none_right_eq_some] at hstep
      obtain ⟨hdelta, hstep⟩ := hstep
      obtain rfl := Option.some.inj hstep
      refine h.tick ?_
      rw [BitVec.le_def, BitVec.toNat_add, BitVec.toNat_ofNat]
      omega
    | insert o => exact (insert_step h hcareful hstep).1
    | scan c => exact (scan_step h hstep).2.1
    | lockSwitch c => exact (lock_step h hcareful hstep).1
    | endSwitch c => exact (end_step h hstep).1

end QUniBone.FlexiTimeout
