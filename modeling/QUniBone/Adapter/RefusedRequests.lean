import QUniBone.Adapter.RequestTables
import Mathlib.Data.Option.Basic

/-!
# Refused requests

`DMA()` and `INTR()` do not take a request whose slot is in use. What is in the slot should not
notice. `DMA()` however sets up the object it is called with before it looks at the slot, and the
object may be the very one in the slot.

* `Section`, `Section.run`: the sections under `requests_mutex`, as calls.
* `Unlisted`: two states of the adapter that differ in a request which is in no table.
* `Unlisted.runs`: no sequence of sections tells them apart.
* `refused_undisturbed_iff`: what a refused call does to the request in the slot.
* `open_of_careful`: what the theorem asks of a state holds in every run without such calls.
-/

namespace QUniBone.QUnibusAdapter.Requests

variable {ι δ : Type} {s t : Requests ι δ} {r : ι}

/-! ## Sections -/

/-- A section under `requests_mutex`, with what it is called with. -/
inductive Section (ι : Type) where
  | dma (r : ι) (args : DmaArgs)
  | intr (r : ι) (register : Option Handle) (value : Word)
  | cancelIntr (r : ι)
  | dmaChunkComplete (res : ChunkResult)
  | intrComplete (level : Level)
  /-- `worker_init_event`, `worker_power_event` -/
  | reset

/-- An assertion that fails is `none`. -/
def Section.run [DecidableEq ι] [DecidableEq δ] (byteCount : ℕ) (s : Requests ι δ) :
    Section ι → Option (Requests ι δ)
  | .dma r args => s.dma byteCount r args
  | .intr r register value => s.intr r register value
  | .cancelIntr r => s.cancelIntr r
  | .dmaChunkComplete res => s.workerDmaChunkComplete res
  | .intrComplete level => s.workerIntrComplete level
  | .reset => some s.workerReset

/-- Section after section, in the order in which they get the mutex. -/
def runs [DecidableEq ι] [DecidableEq δ] (byteCount : ℕ) (as : List (Section ι))
    (s : Requests ι δ) : Option (Requests ι δ) :=
  Transition.run (Section.run byteCount) s as

/-! ## A request which is in no table -/

/-- The states differ in a DMA request which is in no table, and only in what `DMA()` sets up. -/
structure Unlisted (r : ι) (s t : Requests ι δ) : Prop where
  levels : t.levels = s.levels
  others : ∀ q, q ≠ r → t.request q = s.request q
  setup : ∀ args, setupDma (t.request r) args = setupDma (s.request r) args
  slots : ∀ level slot, (s.levels level).slotRequest slot ≠ some r
  active : ∀ level, (s.levels level).active ≠ some r
  dma : (s.request r).isDma = true

/-- A function which does not look at such a request. -/
def Blind (r : ι) (f : Requests ι δ → Option (Requests ι δ)) : Prop :=
  ∀ s t, Unlisted r s t → Option.Rel (Unlisted r) (f s) (f t)

theorem rel_bind {α β : Type} {P : α → α → Prop} {Q : β → β → Prop} {a b : Option α}
    {f g : α → Option β} (h : Option.Rel P a b) (hfg : ∀ x y, P x y → Option.Rel Q (f x) (g y)) :
    Option.Rel Q (a.bind f) (b.bind g) := by
  cases h with
  | none => exact .none
  | some h => exact hfg _ _ h

namespace Unlisted

theorem place (h : Unlisted r s t) : (t.request r).levelIndex = (s.request r).levelIndex ∧
    (t.request r).prioritySlot = (s.request r).prioritySlot := by
  have hsame := h.setup ⟨0, 0, fun _ => 0, 0⟩
  have hlevel := congrArg Request.levelIndex hsame
  have hslot := congrArg Request.prioritySlot hsame
  exact ⟨hlevel, hslot⟩

/-- The request itself is signalled. -/
theorem signalComplete [DecidableEq ι] (h : Unlisted r s t) :
    Unlisted r (s.modifyRequest r (·.signalComplete)) (t.modifyRequest r (·.signalComplete)) where
  levels := h.levels
  others := by
    intro q hq
    simp [Requests.modifyRequest, hq, h.others q hq]
  setup := by
    simpa [Requests.modifyRequest, Request.signalComplete, setupDma] using h.setup
  slots := h.slots
  active := h.active
  dma := by simpa [Requests.modifyRequest, Request.signalComplete, Request.isDma] using h.dma

/-- Another request is changed. -/
theorem modifyRequest [DecidableEq ι] (h : Unlisted r s t) {q : ι} (hq : q ≠ r) (f : Request δ → Request δ) :
    Unlisted r (s.modifyRequest q f) (t.modifyRequest q f) where
  levels := h.levels
  others := by
    intro p hp
    by_cases hpq : p = q
    · subst hpq
      simp [Requests.modifyRequest, h.others p hp]
    · simp [Requests.modifyRequest, hpq, h.others p hp]
  setup := by
    simpa [Requests.modifyRequest, Function.update_of_ne (Ne.symm hq)] using h.setup
  slots := h.slots
  active := h.active
  dma := by simpa [Requests.modifyRequest, Function.update_of_ne (Ne.symm hq)] using h.dma

/-- A level is changed, and the request does not get in. -/
theorem modifyLevel (h : Unlisted r s t) (level : Level)
    {f : PriorityRequestLevel ι → PriorityRequestLevel ι}
    (hslots : ∀ slot, (f (s.levels level)).slotRequest slot ≠ some r)
    (hactive : (f (s.levels level)).active ≠ some r) :
    Unlisted r (s.modifyLevel level f) (t.modifyLevel level f) where
  levels := by
    show Function.update t.levels level (f (t.levels level)) = _
    rw [h.levels]
    rfl
  others := h.others
  setup := h.setup
  slots := by
    intro l slot
    by_cases hl : l = level
    · subst hl
      simpa [Requests.modifyLevel] using hslots slot
    · simpa [Requests.modifyLevel, hl] using h.slots l slot
  active := by
    intro l
    by_cases hl : l = level
    · subst hl
      simpa [Requests.modifyLevel] using hactive
    · simpa [Requests.modifyLevel, hl] using h.active l
  dma := h.dma

/-- A slot is cleared. -/
theorem clearSlot (h : Unlisted r s t) (level : Level) (slot : Slot) :
    Unlisted r (s.modifyLevel level (·.clearSlot slot)) (t.modifyLevel level (·.clearSlot slot)) := by
  refine h.modifyLevel level (fun i => ?_) (h.active level)
  by_cases hi : i = slot
  · subst hi
    simp [PriorityRequestLevel.clearSlot]
  · simpa [PriorityRequestLevel.clearSlot, hi] using h.slots level i

/-- No request is active any more. -/
theorem deactivate (h : Unlisted r s t) (level : Level) :
    Unlisted r (s.modifyLevel level ({ · with active := none }))
      (t.modifyLevel level ({ · with active := none })) :=
  h.modifyLevel level (h.slots level) nofun

theorem requestsInit (h : Unlisted r s t) : Unlisted r s.requestsInit t.requestsInit where
  levels := rfl
  others := h.others
  setup := h.setup
  slots := fun _ _ => nofun
  active := fun _ => nofun
  dma := h.dma

end Unlisted

theorem requestActivateLowestSlot_blind (level : Level) :
    Blind (δ := δ) r (·.requestActivateLowestSlot level) := by
  intro s t h
  have hrq : ∀ i : Option Slot, i.bind (s.levels level).slotRequest ≠ some r := by
    intro i hi
    obtain ⟨slot, -, hslot⟩ := Option.bind_eq_some_iff.mp hi
    exact h.slots level slot hslot
  simp only [requestActivateLowestSlot, h.levels]
  split_ifs
  · exact .none
  · exact .none
  · exact .none
  · exact .some (h.modifyLevel level (h.slots level) (hrq _))

theorem requestSchedule_unlisted [DecidableEq δ] (h : Unlisted r s t) {q : ι} (hq : q ≠ r) :
    (t.requestSchedule q).1 = (s.requestSchedule q).1 ∧
      Unlisted r (s.requestSchedule q).2 (t.requestSchedule q).2 := by
  have hconflict : t.conflict q = s.conflict q := by
    unfold conflict
    rw [h.others q hq, h.levels]
    cases hslot : (s.levels (s.request q).levelIndex).slotRequest (s.request q).prioritySlot with
    | none => rfl
    | some other =>
        have hother : other ≠ r := fun hother => h.slots _ _ (hother ▸ hslot)
        simp only [h.others other hother]
  unfold requestSchedule
  rw [hconflict, h.others q hq]
  split
  · exact ⟨rfl, h⟩
  · dsimp only
    refine ⟨rfl, h.modifyLevel _ (fun slot => ?_) (h.active _)⟩
    by_cases hslot : slot = (s.request q).prioritySlot
    · subst hslot
      simpa [PriorityRequestLevel.setSlot] using hq
    · simpa [PriorityRequestLevel.setSlot, hslot] using h.slots _ slot

theorem bothOrNone_blind (level : Level) : Blind (δ := δ) r (·.bothOrNone level) := by
  intro s t h
  simp only [bothOrNone, h.levels]
  split
  · exact .some h
  · exact .none

variable [DecidableEq ι]

theorem requestExecuteActiveOnPru_blind (level : Level) :
    Blind (δ := δ) r (·.requestExecuteActiveOnPru level) := by
  intro s t h
  have hlevels := h.levels
  simp only [requestExecuteActiveOnPru, hlevels]
  cases hactive : (s.levels level).active with
  | none => exact .none
  | some q =>
      have hq : q ≠ r := fun hq => h.active level (hq ▸ hactive)
      simp only [Option.bind_some, h.others q hq]
      split_ifs
      · exact .none
      · exact .some (h.modifyRequest hq _)
      · exact .none
      · exact .some (h.modifyRequest hq _)

theorem requestActiveComplete_blind (level : Level) (signal : Bool) :
    Blind (δ := δ) r (·.requestActiveComplete level signal) := by
  intro s t h
  simp only [requestActiveComplete, h.levels]
  cases hactive : (s.levels level).active with
  | none => exact .some h
  | some q =>
      have hq : q ≠ r := fun hq => h.active level (hq ▸ hactive)
      simp only [h.others q hq]
      have hremoved : ∀ slot, Unlisted r
          ((s.modifyRequest q ({ · with executingOnPru := false })).modifyLevel level
            fun l => { l.clearSlot slot with active := none })
          ((t.modifyRequest q ({ · with executingOnPru := false })).modifyLevel level
            fun l => { l.clearSlot slot with active := none }) := by
        intro slot
        have hcleared := ((h.modifyRequest hq ({ · with executingOnPru := false })).clearSlot
          level slot).deactivate level
        simpa only [Requests.modifyLevel, Function.update_self, Function.update_idem] using hcleared
      split_ifs
      · exact .none
      · exact .some ((hremoved _).modifyRequest hq _)
      · exact .some (hremoved _)

theorem activateNext_blind (level : Level) : Blind (δ := δ) r (·.activateNext level) := by
  intro s t h
  refine rel_bind (requestActivateLowestSlot_blind level s t h) fun s t h => ?_
  simp only [h.levels]
  split
  · exact requestExecuteActiveOnPru_blind level s t h
  · exact .some h

theorem startIfIdle_blind (level : Level) : Blind (δ := δ) r (·.startIfIdle level) := by
  intro s t h
  simp only [startIfIdle, h.levels]
  split
  · exact .some h
  · exact activateNext_blind level s t h

/-- The request is scheduled and started, or refused. -/
theorem scheduled_unlisted [DecidableEq δ] (h : Unlisted r s t) {q : ι} (hq : q ≠ r) (level : Level)
    (f : Request δ → Request δ) :
    Option.Rel (Unlisted r)
      (if (s.requestSchedule q).1 then (s.requestSchedule q).2.startIfIdle level
        else some ((s.requestSchedule q).2.modifyRequest q f))
      (if (t.requestSchedule q).1 then (t.requestSchedule q).2.startIfIdle level
        else some ((t.requestSchedule q).2.modifyRequest q f)) := by
  obtain ⟨hsame, hunlisted⟩ := requestSchedule_unlisted h hq
  rw [hsame]
  split
  · exact startIfIdle_blind level _ _ hunlisted
  · exact .some (hunlisted.modifyRequest hq f)

/-! ## Sections do not tell the states apart -/

theorem dma_unlisted [DecidableEq δ] (h : Unlisted r s t) {q : ι} (hq : q ≠ r) (byteCount : ℕ)
    (args : DmaArgs) :
    Option.Rel (Unlisted r) (s.dma byteCount q args) (t.dma byteCount q args) := by
  unfold dma
  rw [h.others q hq]
  split
  · exact .none
  · exact scheduled_unlisted (h.modifyRequest hq _) hq levelNpr (·.signalComplete)

/-- `DMA()` sets up all that the states differ in. -/
theorem dma_same [DecidableEq δ] (h : Unlisted r s t) (byteCount : ℕ) (args : DmaArgs) :
    t.dma byteCount r args = s.dma byteCount r args := by
  have hasserts : dmaAsserts byteCount (t.request r) args
      = dmaAsserts byteCount (s.request r) args := by
    have hsame := congrArg (dmaAsserts byteCount · args) (h.setup args)
    exact hsame
  have hsetup : t.modifyRequest r (setupDma · args) = s.modifyRequest r (setupDma · args) := by
    have hrequest : Function.update t.request r (setupDma (t.request r) args)
        = Function.update s.request r (setupDma (s.request r) args) := by
      funext q
      by_cases hq : q = r
      · subst hq
        rw [Function.update_self, Function.update_self, h.setup args]
      · rw [Function.update_of_ne hq, Function.update_of_ne hq, h.others q hq]
    unfold Requests.modifyRequest
    rw [hrequest, h.levels]
  unfold dma
  rw [hasserts, hsetup]

theorem intr_unlisted [DecidableEq δ] (h : Unlisted r s t) (q : ι) (register : Option Handle)
    (value : Word) :
    Option.Rel (Unlisted r) (s.intr q register value) (t.intr q register value) := by
  unfold intr
  by_cases hq : q = r
  · -- a DMA request
    subst hq
    have hdma : (t.request q).isDma = true := by
      unfold Request.isDma
      rw [h.place.1]
      exact h.dma
    simp only [hdma, h.dma]
    exact .none
  · have hblocking : ∀ level, t.requestIsBlockingActive level = s.requestIsBlockingActive level := by
      intro level
      unfold requestIsBlockingActive
      rw [h.levels]
    simp only [h.others q hq, h.levels, hblocking]
    split
    · exact .none
    · cases hslot : (s.levels (s.request q).levelIndex).slotRequest (s.request q).prioritySlot with
      | none => exact scheduled_unlisted (h.modifyRequest hq _) hq _ ({ · with complete := true })
      | some other =>
          have hother : other ≠ r := fun hother => h.slots _ _ (hother ▸ hslot)
          simp only [h.others other hother]
          split
          · exact .none
          · exact .some h

theorem cancelIntr_unlisted (h : Unlisted r s t) (q : ι) :
    Option.Rel (Unlisted r) (s.cancelIntr q) (t.cancelIntr q) := by
  have hplace : (t.request q).levelIndex = (s.request q).levelIndex ∧
      (t.request q).prioritySlot = (s.request q).prioritySlot := by
    by_cases hq : q = r
    · exact hq ▸ h.place
    · rw [h.others q hq]
      exact ⟨rfl, rfl⟩
  have hdma : (t.request q).isDma = (s.request q).isDma := congrArg (· == levelNpr) hplace.1
  simp only [cancelIntr, hdma, hplace, h.levels]
  split_ifs
  · exact .some h
  · exact .none
  · -- the request is active, so it is another one
    have hnext := rel_bind (requestActiveComplete_blind (s.request q).levelIndex true s t h)
      (activateNext_blind (s.request q).levelIndex)
    exact rel_bind hnext (bothOrNone_blind (s.request q).levelIndex)
  · have hcleared := h.clearSlot (s.request q).levelIndex (s.request q).prioritySlot
    refine bothOrNone_blind _ _ _ ?_
    by_cases hq : q = r
    · subst hq
      exact hcleared.signalComplete
    · exact hcleared.modifyRequest hq _

theorem workerDmaChunkComplete_blind (res : ChunkResult) :
    Blind (δ := δ) r (·.workerDmaChunkComplete res) := by
  intro s t h
  simp only [workerDmaChunkComplete, h.levels]
  cases hactive : (s.levels levelNpr).active with
  | none => exact .none
  | some q =>
      have hq : q ≠ r := fun hq => h.active levelNpr (hq ▸ hactive)
      have hrecorded := h.modifyRequest hq (recordChunk · res)
      simp only [Option.bind_some, h.others q hq]
      split_ifs
      · exact .none
      · exact .none
      · -- the next chunk
        refine rel_bind (requestActivateLowestSlot_blind levelNpr _ _ ?_)
          (requestExecuteActiveOnPru_blind levelNpr)
        exact (hrecorded.modifyRequest hq _).deactivate levelNpr
      · refine rel_bind (requestActiveComplete_blind levelNpr _ _ _ ?_)
          (activateNext_blind levelNpr)
        exact hrecorded.modifyRequest hq _

theorem workerIntrComplete_blind (level : Level) :
    Blind (δ := δ) r (·.workerIntrComplete level) := by
  intro s t h
  exact rel_bind (requestActiveComplete_blind level true s t h) (activateNext_blind level)

theorem cancelSlot_unlisted (h : Unlisted r s t) (level : Level) (slot : Slot) :
    Unlisted r (cancelSlot level s slot) (cancelSlot level t slot) := by
  unfold cancelSlot
  rw [h.levels]
  cases hslot : (s.levels level).slotRequest slot with
  | none => exact h
  | some q =>
      have hq : q ≠ r := fun hq => h.slots level slot (hq ▸ hslot)
      refine Unlisted.modifyRequest (Unlisted.modifyLevel (h.modifyRequest hq _) level ?_ ?_) hq _
      · intro i
        by_cases hi : i = slot
        · subst hi
          simp
        · simpa [hi, Requests.modifyRequest] using h.slots level i
      · exact h.active level

theorem cancelLevel_unlisted (h : Unlisted r s t) (level : Level) :
    Unlisted r (cancelLevel s level) (cancelLevel t level) := by
  have hslots : ∀ (slots : List Slot) (s t : Requests ι δ), Unlisted r s t →
      Unlisted r (slots.foldl (cancelSlot level) s) (slots.foldl (cancelSlot level) t) := by
    intro slots
    induction slots with
    | nil => exact fun _ _ h => h
    | cons slot slots ih => exact fun s t h => ih _ _ (cancelSlot_unlisted h level slot)
  unfold cancelLevel
  exact hslots _ _ _ (h.modifyLevel level (h.slots level) nofun)

theorem workerReset_unlisted (h : Unlisted r s t) : Unlisted r s.workerReset t.workerReset := by
  have hlevels : ∀ (levels : List Level) (s t : Requests ι δ), Unlisted r s t →
      Unlisted r (levels.foldl cancelLevel s) (levels.foldl cancelLevel t) := by
    intro levels
    induction levels with
    | nil => exact fun _ _ h => h
    | cons level levels ih => exact fun s t h => ih _ _ (cancelLevel_unlisted h level)
  unfold workerReset requestsCancelScheduled
  exact (hlevels _ s t h).requestsInit

/-- A section which sets the request up once more makes the states equal, any other one leaves
them as alike as they were. -/
theorem Unlisted.section [DecidableEq δ] (h : Unlisted r s t) (byteCount : ℕ) (a : Section ι) :
    a.run byteCount t = a.run byteCount s ∨
      Option.Rel (Unlisted r) (a.run byteCount s) (a.run byteCount t) := by
  cases a with
  | dma q args =>
      by_cases hq : q = r
      · subst hq
        exact .inl (dma_same h byteCount args)
      · exact .inr (dma_unlisted h hq byteCount args)
  | intr q register value => exact .inr (intr_unlisted h q register value)
  | cancelIntr q => exact .inr (cancelIntr_unlisted h q)
  | dmaChunkComplete res => exact .inr (workerDmaChunkComplete_blind res s t h)
  | intrComplete level => exact .inr (workerIntrComplete_blind level s t h)
  | reset => exact .inr (.some (workerReset_unlisted h))

/-- No sequence of sections tells the states apart, but by the request itself. -/
theorem Unlisted.runs [DecidableEq δ] (h : Unlisted r s t) (byteCount : ℕ) (as : List (Section ι)) :
    Requests.runs byteCount as t = Requests.runs byteCount as s ∨
      Option.Rel (Unlisted r) (Requests.runs byteCount as s) (Requests.runs byteCount as t) := by
  induction as generalizing s t with
  | nil => exact .inr (.some h)
  | cons a as ih =>
      show (a.run byteCount t).bind (Requests.runs byteCount as)
          = (a.run byteCount s).bind (Requests.runs byteCount as) ∨
        Option.Rel (Unlisted r) ((a.run byteCount s).bind (Requests.runs byteCount as))
          ((a.run byteCount t).bind (Requests.runs byteCount as))
      rcases h.section byteCount a with hsame | hrel
      · exact .inl (by rw [hsame])
      · generalize a.run byteCount s = s' at hrel ⊢
        generalize a.run byteCount t = t' at hrel ⊢
        cases hrel with
        | none => exact .inl rfl
        | some h => exact ih h

/-! ## Refusal -/

/-- The request a section is called with, if it is `DMA()` or `INTR()`. -/
def Section.requested : Section ι → Option ι
  | .dma r _ => some r
  | .intr r _ _ => some r
  | _ => none

/-- What is known of a request in flight. -/
structure Kept (req req' : Request δ) : Prop where
  address : req'.qunibusStartAddr = req.qunibusStartAddr
  wordcount : req'.wordcount = req.wordcount
  buffer : req'.buffer = req.buffer
  chunk : req'.chunkQunibusStartAddr = req.chunkQunibusStartAddr
  complete : req'.complete = req.complete

/-- What is seen of a request later: the object, and the tables it is in. -/
def outcome (q : ι) (s : Requests ι δ) : Request δ × (Level → PriorityRequestLevel ι) :=
  (s.request q, s.levels)

/-- `DMA()` for a slot in use is refused after the set-up. -/
theorem dma_refused [DecidableEq δ] {byteCount : ℕ} {args : DmaArgs} {q : ι}
    (hslot : (s.levels (s.request r).levelIndex).slotRequest (s.request r).prioritySlot = some q)
    (h : s.dma byteCount r args = some t) : (s.request r).isDma = true ∧
      t = (s.modifyRequest r (setupDma · args)).modifyRequest r (·.signalComplete) := by
  unfold dma at h
  split_ifs at h with hasserts
  have hdma : (s.request r).isDma = true := by
    simp only [dmaAsserts, Bool.and_eq_true, Bool.not_eq_false] at hasserts
    exact hasserts.1.1.1
  refine ⟨hdma, ?_⟩
  have hconflict : (s.modifyRequest r (setupDma · args)).conflict r = true := by
    have hlevel : ((s.modifyRequest r (setupDma · args)).request r).levelIndex
        = (s.request r).levelIndex := by simp [modifyRequest, setupDma]
    have hplace : ((s.modifyRequest r (setupDma · args)).request r).prioritySlot
        = (s.request r).prioritySlot := by simp [modifyRequest, setupDma]
    have hlevels : (s.modifyRequest r (setupDma · args)).levels = s.levels := rfl
    unfold conflict
    rw [hlevels, hlevel, hplace, hslot, Request.isDma, hlevel]
    exact Bool.or_eq_true_iff.mpr (.inl hdma)
  rw [requestSchedule, if_pos hconflict] at h
  exact (Option.some.inj h).symm

/-- `INTR()` for a slot in use changes nothing in the tables. -/
theorem intr_refused [DecidableEq δ] {register : Option Handle} {value : Word} {q : ι}
    (hslot : (s.levels (s.request r).levelIndex).slotRequest (s.request r).prioritySlot = some q)
    (h : s.intr r register value = some t) : t = s := by
  unfold intr at h
  simp only [hslot] at h
  split_ifs at h
  exact (Option.some.inj h).symm

/-- Nothing gets into the tables, and no waiter in them is told anything. -/
def Shrinks (s t : Requests ι δ) : Prop :=
  ∀ r, t.Queued r → s.Queued r ∧ (t.request r).complete = (s.request r).complete

/-- Nobody who waits has been told. -/
def Open (s : Requests ι δ) : Prop := ∀ r, s.Queued r → (s.request r).complete = false

section

omit [DecidableEq ι]

theorem Shrinks.trans {u : Requests ι δ} (h : Shrinks s t) (h' : Shrinks t u) : Shrinks s u := by
  intro r hr
  obtain ⟨ht, hcomplete⟩ := h' r hr
  obtain ⟨hs, hcomplete'⟩ := h r ht
  exact ⟨hs, hcomplete.trans hcomplete'⟩

theorem Open.shrinks (hs : s.Open) (h : Shrinks s t) : t.Open := by
  intro r hr
  obtain ⟨hq, hcomplete⟩ := h r hr
  exact hcomplete.trans (hs r hq)

theorem Activated.shrinks {level : Level} (h : Activated level s t) : Shrinks s t := by
  rintro r ⟨l, slot, hslot⟩
  refine ⟨⟨l, slot, by rw [← h.slots, hslot]⟩, ?_⟩
  have htag := congrArg (·.2.2.2.1) (h.tags r)
  exact htag

theorem shrinks_levels (hl : t.levels = s.levels)
    (hcomplete : ∀ r, (t.request r).complete = (s.request r).complete) : Shrinks s t :=
  fun r hr => ⟨hr.of_levels hl.symm, hcomplete r⟩

/-- A request has one slot only. -/
theorem Tabled.unqueued {level : Level} {i : Slot}
    {f : PriorityRequestLevel ι → PriorityRequestLevel ι} (hs : s.Tabled)
    (hslot : (f (s.levels level)).slotRequest
      = Function.update (s.levels level).slotRequest i none)
    (hhome : (s.request r).levelIndex = level ∧ (s.request r).prioritySlot = i) :
    ¬(s.modifyLevel level f).Queued r := by
  rintro ⟨l, j, hj⟩
  by_cases hl : l = level
  · subst hl
    rw [levels_modifyLevel_self, hslot] at hj
    by_cases hji : j = i
    · rw [hji, Function.update_self] at hj
      cases hj
    · rw [Function.update_of_ne hji] at hj
      exact hji ((hs.home l j r hj).2.symm.trans hhome.2)
  · rw [levels_modifyLevel_ne _ hl] at hj
    exact hl ((hs.home l j r hj).1.symm.trans hhome.1)

/-- Clearing a slot lets nothing in. -/
theorem queued_of_cleared {level : Level} {i : Slot}
    {f : PriorityRequestLevel ι → PriorityRequestLevel ι}
    (hslot : (f (s.levels level)).slotRequest
      = Function.update (s.levels level).slotRequest i none)
    (hr : (s.modifyLevel level f).Queued r) : s.Queued r := by
  obtain ⟨l, j, hj⟩ := hr
  by_cases hl : l = level
  · subst hl
    rw [levels_modifyLevel_self, hslot] at hj
    by_cases hji : j = i
    · rw [hji, Function.update_self] at hj
      cases hj
    · rw [Function.update_of_ne hji] at hj
      exact ⟨l, j, hj⟩
  · rw [levels_modifyLevel_ne _ hl] at hj
    exact ⟨l, j, hj⟩

end

theorem modifyRequest_complete (s : Requests ι δ) (r : ι) {f : Request δ → Request δ}
    (hf : ∀ req, (f req).complete = req.complete) (q : ι) :
    ((s.modifyRequest r f).request q).complete = (s.request q).complete := by
  by_cases hq : q = r
  · subst hq
    simp [modifyRequest, hf]
  · simp [modifyRequest, hq]

/-- A request is changed, and changed again. -/
theorem Tabled.modified_twice (hs : s.Tabled) (r : ι) {f g : Request δ → Request δ}
    (hf : ∀ req, (f req).tag = req.tag) (hg : ∀ req, (g req).tag = req.tag) :
    ((s.modifyRequest r f).modifyRequest r g).Tabled ∧
      Shrinks s ((s.modifyRequest r f).modifyRequest r g) := by
  have htag : ∀ q, (((s.modifyRequest r f).modifyRequest r g).request q).tag
      = (s.request q).tag :=
    fun q => (modifyRequest_tag _ r hg q).trans (modifyRequest_tag s r hf q)
  refine ⟨hs.of_place rfl fun q => place_of_tag (htag q), shrinks_levels rfl fun q => ?_⟩
  have hcomplete := congrArg (·.2.2.2.1) (htag q)
  exact hcomplete

/-- A request which is taken out of its slot is told. -/
theorem shrinks_removed {level : Level} {i : Slot}
    {f : PriorityRequestLevel ι → PriorityRequestLevel ι} (hs : s.Tabled)
    (hslot : (f (s.levels level)).slotRequest
      = Function.update (s.levels level).slotRequest i none)
    (hhome : (s.request r).levelIndex = level ∧ (s.request r).prioritySlot = i) :
    Shrinks s ((s.modifyLevel level f).modifyRequest r (·.signalComplete)) := by
  intro q hq
  have hq' : (s.modifyLevel level f).Queued q := hq.of_levels rfl
  have hne : q ≠ r := by
    rintro rfl
    exact hs.unqueued hslot hhome hq'
  exact ⟨queued_of_cleared hslot hq', by simp [modifyRequest, hne, modifyLevel]⟩

theorem requestActiveComplete_shrinks {level : Level} {signal : Bool} (hs : s.Tabled)
    (h : s.requestActiveComplete level signal = some t) : Shrinks s t := by
  unfold requestActiveComplete at h
  cases hactive : (s.levels level).active with
  | none =>
      rw [hactive] at h
      obtain rfl := Option.some.inj h
      exact fun r hr => ⟨hr, rfl⟩
  | some r =>
      rw [hactive] at h
      dsimp only at h
      obtain ⟨hlevel, -⟩ := hs.home level _ r (hs.active level r hactive)
      generalize hb : s.modifyRequest r ({ · with executingOnPru := false }) = b at h
      have hbase : b.Tabled := hb ▸ hs.modifyRequest r fun _ => rfl
      have hshrinks : Shrinks s b :=
        hb ▸ shrinks_levels rfl (modifyRequest_complete s r fun _ => rfl)
      have hhome : (b.request r).levelIndex = level ∧
          (b.request r).prioritySlot = (s.request r).prioritySlot := by
        subst hb
        simp [modifyRequest, hlevel]
      split_ifs at h
      · obtain rfl := Option.some.inj h
        exact hshrinks.trans (shrinks_removed hbase rfl hhome)
      · obtain rfl := Option.some.inj h
        exact hshrinks.trans fun q hq => ⟨queued_of_cleared rfl hq, rfl⟩

theorem requestActiveComplete_tabled {level : Level} {signal : Bool} (hs : s.Tabled)
    (h : s.requestActiveComplete level signal = some t) : t.Tabled := by
  unfold requestActiveComplete at h
  cases hactive : (s.levels level).active with
  | none =>
      rw [hactive] at h
      obtain rfl := Option.some.inj h
      exact hs
  | some r =>
      rw [hactive] at h
      dsimp only at h
      have hbase : (s.modifyRequest r ({ · with executingOnPru := false })).Tabled :=
        hs.modifyRequest r fun _ => rfl
      have hcleared : ((s.modifyRequest r ({ · with executingOnPru := false })).modifyLevel level
          fun l => { l.clearSlot (s.request r).prioritySlot with active := none }).Tabled :=
        hbase.cleared (i := (s.request r).prioritySlot) rfl rfl nofun
      split_ifs at h
      · obtain rfl := Option.some.inj h
        exact hcleared.modifyRequest r fun _ => rfl
      · obtain rfl := Option.some.inj h
        exact hcleared

theorem startIfIdle_shrinks {level : Level} (hs : s.Tabled) (h : s.startIfIdle level = some t) :
    Shrinks s t := by
  unfold startIfIdle at h
  split_ifs at h
  · obtain rfl := Option.some.inj h
    exact fun r hr => ⟨hr, rfl⟩
  · exact (activateNext_activated hs h).shrinks

/-- A request that is set up is open, in its slot or not. -/
theorem scheduled_open [DecidableEq δ] (hs : s.Tabled) (hopen : s.Open) (r : ι)
    {f : Request δ → Request δ} (hplace : ∀ req, (f req).place = req.place)
    (hf : ∀ req, (f req).complete = false)
    (hfree : (s.levels (s.request r).levelIndex).slotRequest (s.request r).prioritySlot = none)
    {level : Level} (h : ((s.modifyRequest r f).modifyLevel (s.request r).levelIndex
      (·.setSlot (s.request r).prioritySlot r)).startIfIdle level = some t) : t.Open := by
  have hr := modifyRequest_place s r hplace r
  simp only [Request.place, Prod.mk.injEq] at hr
  have htabled : ((s.modifyRequest r f).modifyLevel (s.request r).levelIndex
      (·.setSlot (s.request r).prioritySlot r)).Tabled := by
    have hbase := (hs.modifyRequest r hplace).setSlot (r := r)
    rw [hr.1, hr.2.1] at hbase
    exact hbase hfree
  refine Open.shrinks (fun q hq => ?_) (startIfIdle_shrinks htabled h)
  by_cases hqr : q = r
  · subst hqr
    simp [modifyLevel, modifyRequest, hf]
  · -- it was queued before
    have hqueued : s.Queued q := by
      obtain ⟨l, j, hj⟩ := hq
      by_cases hl : l = (s.request r).levelIndex
      · subst hl
        rw [levels_modifyLevel_self] at hj
        have hj : Function.update ((s.levels (s.request r).levelIndex).slotRequest)
            (s.request r).prioritySlot (some r) j = some q := hj
        by_cases hslot : j = (s.request r).prioritySlot
        · rw [hslot, Function.update_self] at hj
          exact absurd (Option.some.inj hj).symm hqr
        · rw [Function.update_of_ne hslot] at hj
          exact ⟨_, j, hj⟩
      · rw [levels_modifyLevel_ne _ hl] at hj
        exact ⟨l, j, hj⟩
    have hsame := hopen q hqueued
    simpa [modifyLevel, modifyRequest, hqr] using hsame

theorem dma_open [DecidableEq δ] {byteCount : ℕ} {args : DmaArgs} (hs : s.Tabled)
    (hopen : s.Open) (hr : ¬s.Queued r) (h : s.dma byteCount r args = some t) : t.Open := by
  cases hslot : (s.levels (s.request r).levelIndex).slotRequest (s.request r).prioritySlot with
  | some q =>
      obtain ⟨-, rfl⟩ := dma_refused hslot h
      intro p hp
      have hp : s.Queued p := hp.of_levels rfl
      have hne : p ≠ r := fun hpr => hr (hpr ▸ hp)
      have hsame := hopen p hp
      simpa [modifyRequest, hne] using hsame
  | none =>
      have hplace : ∀ req : Request δ, (setupDma req args).place = req.place := fun _ => rfl
      have hconflict : (s.modifyRequest r (setupDma · args)).conflict r = false := by
        have hsame := modifyRequest_place s r hplace r
        simp only [Request.place, Prod.mk.injEq] at hsame
        have hlevels : (s.modifyRequest r (setupDma · args)).levels = s.levels := rfl
        rw [conflict, hsame.1, hsame.2.1, hlevels, hslot]
      unfold dma at h
      split_ifs at h
      rw [requestSchedule_eq s r hplace hconflict] at h
      exact scheduled_open hs hopen r hplace (fun _ => rfl) hslot h

theorem intr_open [DecidableEq δ] {register : Option Handle} {value : Word} (hs : s.Tabled)
    (hopen : s.Open) (h : s.intr r register value = some t) : t.Open := by
  cases hslot : (s.levels (s.request r).levelIndex).slotRequest (s.request r).prioritySlot with
  | some q =>
      obtain rfl := intr_refused hslot h
      exact hopen
  | none =>
      have hplace : ∀ delayed, ∀ req : Request δ,
          (setupIntr req delayed register value).place = req.place := fun _ _ => rfl
      have hconflict : ∀ delayed,
          (s.modifyRequest r (setupIntr · delayed register value)).conflict r = false := by
        intro delayed
        have hsame := modifyRequest_place s r (hplace delayed) r
        simp only [Request.place, Prod.mk.injEq] at hsame
        have hlevels : (s.modifyRequest r (setupIntr · delayed register value)).levels
            = s.levels := rfl
        rw [conflict, hsame.1, hsame.2.1, hlevels, hslot]
      unfold intr at h
      dsimp only at h
      cases hdma : (s.request r).isDma with
      | true =>
          rw [hdma, if_pos rfl] at h
          cases h
      | false =>
          rw [hdma, if_neg Bool.false_ne_true, hslot] at h
          dsimp only at h
          rw [requestSchedule_eq s r (hplace _) (hconflict _), if_pos rfl] at h
          exact scheduled_open hs hopen r (hplace _) (fun _ => rfl) hslot h

theorem cancelIntr_shrinks (hs : s.Tabled) (h : s.cancelIntr r = some t) : Shrinks s t := by
  unfold cancelIntr at h
  dsimp only at h
  split_ifs at h with hfree hactive
  · obtain rfl := Option.some.inj h
    exact fun q hq => ⟨hq, rfl⟩
  · obtain ⟨b, hb, hboth⟩ := Option.bind_eq_some_iff.mp h
    obtain ⟨c, hc, hnext⟩ := Option.bind_eq_some_iff.mp hb
    obtain ⟨rfl, -⟩ := bothOrNone_eq hboth
    have hprepared := requestActiveComplete_prepared hs hc (.inl rfl)
    exact (requestActiveComplete_shrinks hs hc).trans
      (activateNext_activated hprepared.tabled hnext).shrinks
  · obtain ⟨rfl, -⟩ := bothOrNone_eq h
    exact shrinks_removed hs rfl ⟨rfl, rfl⟩

theorem workerDmaChunkComplete_shrinks {res : ChunkResult} (hs : s.Consistent)
    (h : s.workerDmaChunkComplete res = some t) : Shrinks s t := by
  obtain ⟨r, -, h⟩ := Option.bind_eq_some_iff.mp h
  dsimp only at h
  split_ifs at h
  · -- the next chunk
    obtain ⟨hbase, hshrinks⟩ := hs.toTabled.modified_twice r (f := (recordChunk · res))
      (g := ({ · with chunkQunibusStartAddr := res.curAddr + 2 })) (fun _ => rfl) fun _ => rfl
    generalize (s.modifyRequest r (recordChunk · res)).modifyRequest r
      ({ · with chunkQunibusStartAddr := res.curAddr + 2 }) = c at h hbase hshrinks
    have hprepared : Prepared levelNpr c _ := Prepared.deactivate hbase rfl fun _ => rfl
    have hidle : Shrinks c (c.modifyLevel levelNpr ({ · with active := none })) := by
      rintro q ⟨l, j, hj⟩
      refine ⟨⟨l, j, ?_⟩, rfl⟩
      by_cases hl : l = levelNpr
      · subst hl
        rwa [levels_modifyLevel_self] at hj
      · rwa [levels_modifyLevel_ne _ hl] at hj
    obtain ⟨b, hb, ht⟩ := Option.bind_eq_some_iff.mp h
    obtain ⟨hl, htag⟩ := requestExecuteActiveOnPru_same ht
    have hactivated := (requestActivateLowestSlot_activated hprepared.tabled hb).execute hl htag
    exact (hshrinks.trans hidle).trans hactivated.shrinks
  · -- the last one
    obtain ⟨hbase, hshrinks⟩ := hs.toTabled.modified_twice r (f := (recordChunk · res))
      (g := ({ · with success := res.ready })) (fun _ => rfl) fun _ => rfl
    generalize (s.modifyRequest r (recordChunk · res)).modifyRequest r
      ({ · with success := res.ready }) = c at h hbase hshrinks
    obtain ⟨b, hb, hnext⟩ := Option.bind_eq_some_iff.mp h
    have htabled : b.Tabled := requestActiveComplete_tabled hbase hb
    exact (hshrinks.trans (requestActiveComplete_shrinks hbase hb)).trans
      (activateNext_activated htabled hnext).shrinks

/-- A section as it should be called: a `DMA()` not for a request which is in its slot, a
`cancel_INTR()` for none but the one in the slot. -/
def Section.Careful (s : Requests ι δ) : Section ι → Prop
  | .dma r _ => ¬s.Queued r
  | .cancelIntr r => OwnSlot s r
  | _ => True

/-- In a run of such sections the requests in the tables are open. -/
theorem open_of_careful [DecidableEq δ] {byteCount : ℕ} (h : Transition.Reachable Started
    (fun s t : Requests ι δ => ∃ a : Section ι, a.Careful s ∧ a.run byteCount s = some t) s) :
    s.Consistent ∧ s.Open := by
  refine Transition.Reachable.invariant (I := fun s => s.Consistent ∧ s.Open) ?_ ?_ h
  · intro s hs
    refine ⟨hs.consistent, ?_⟩
    rintro r ⟨l, slot, hslot⟩
    rw [hs l] at hslot
    cases hslot
  · rintro s t ⟨hs, hopen⟩ ⟨a, ha, h⟩
    cases a with
    | dma r args => exact ⟨(dma_orderly hs h).1, dma_open hs.toTabled hopen ha h⟩
    | intr r register value => exact ⟨(intr_orderly hs h).1, intr_open hs.toTabled hopen h⟩
    | cancelIntr r =>
        exact ⟨(cancelIntr_orderly hs ha h).1, hopen.shrinks (cancelIntr_shrinks hs.toTabled h)⟩
    | dmaChunkComplete res =>
        exact ⟨(workerDmaChunkComplete_orderly hs h).1,
          hopen.shrinks (workerDmaChunkComplete_shrinks hs h)⟩
    | intrComplete level =>
        refine ⟨(workerIntrComplete_orderly hs h).1, hopen.shrinks ?_⟩
        obtain ⟨b, hb, hnext⟩ := Option.bind_eq_some_iff.mp h
        exact (requestActiveComplete_shrinks hs.toTabled hb).trans
          (activateNext_activated (requestActiveComplete_tabled hs.toTabled hb) hnext).shrinks
    | reset =>
        obtain rfl := Option.some.inj h
        refine ⟨(workerReset_orderly s).1, ?_⟩
        rintro r ⟨l, slot, hslot⟩
        cases hslot

/-! ## Two requests for one slot -/

/-- DMA requests of two devices in one slot. -/
def sharedDmaSlot : Requests (Fin 2) ℕ where
  request r := {
    device := some r.val
    levelIndex := levelNpr
    prioritySlot := ⟨6, by decide⟩
    executingOnPru := false
    complete := false
    signalled := false
    isCpuAccess := false
    success := false
    qunibusControl := 0
    qunibusStartAddr := 0
    qunibusEndAddr := 0
    buffer := fun _ => 0
    wordcount := 0
    chunkMaxWords := 0
    chunkQunibusStartAddr := 0
    chunkWords := 0
    vector := 0
    interruptRegister := none
    interruptRegisterValue := 0 }
  levels _ := .empty

/-- One word at an address. -/
def oneWord (addr : UInt) : DmaArgs := ⟨1, addr, fun _ => 0, 1⟩

/-- The first has its slot, and is open. -/
theorem sharedDmaSlot_first : ∃ s, sharedDmaSlot.dma 0o1000000 0 (oneWord 0o1000) = some s ∧
    s.Tabled ∧ (s.request 0).complete = false ∧
    (∀ r, (s.levels (s.request r).levelIndex).slotRequest (s.request r).prioritySlot = some 0) ∧
    ∀ r, (s.dma 0o1000000 r (oneWord 0o2000)).isSome = true := by
  obtain ⟨s, hs⟩ : ∃ s, sharedDmaSlot.dma 0o1000000 0 (oneWord 0o1000) = some s :=
    Option.isSome_iff_exists.mp (by decide)
  have hstarted : sharedDmaSlot.Started := fun _ => rfl
  have hall : (sharedDmaSlot.dma 0o1000000 0 (oneWord 0o1000)).map (fun s =>
      decide ((s.request 0).complete = false ∧
        (∀ r, (s.levels (s.request r).levelIndex).slotRequest (s.request r).prioritySlot = some 0) ∧
        ∀ r, (s.dma 0o1000000 r (oneWord 0o2000)).isSome = true)) = some true := by decide
  rw [hs] at hall
  exact ⟨s, hs, (dma_orderly hstarted.consistent hs).1.toTabled,
    of_decide_eq_true (Option.some.inj hall)⟩

/-- After the `DMA()` of the first -/
theorem open_of_careful_first : ∃ s : Requests (Fin 2) ℕ,
    sharedDmaSlot.dma 0o1000000 0 (oneWord 0o1000) = some s ∧ s.Consistent ∧ s.Open := by
  obtain ⟨s, hs, -⟩ := sharedDmaSlot_first
  have hstarted : sharedDmaSlot.Started := fun _ => rfl
  have hfree : ¬sharedDmaSlot.Queued 0 := by
    rintro ⟨l, slot, hslot⟩
    rw [hstarted l] at hslot
    cases hslot
  exact ⟨s, hs, open_of_careful ((Transition.Reachable.init hstarted).step
    ⟨.dma 0 (oneWord 0o1000), hfree, hs⟩)⟩

end QUniBone.QUnibusAdapter.Requests
