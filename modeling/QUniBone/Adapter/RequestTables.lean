import QUniBone.Adapter.Requests
import QUniBone.Lib.Transition

/-!
# The invariant of the request tables

Whenever `requests_mutex` is free, the slots, the bit mask and the active request of a level
belong together, and a request that has left the tables has been signalled.

* `Tabled`, `Consistent`: the invariant, within a section and between sections.
* `Orderly`: what a section may do to the active requests and to those that leave.
* `Step`: the sections as steps.
* `Step.orderly_of_matching`: runs in which a cancelled request is cancelled in its own slot.
-/

namespace QUniBone.QUnibusAdapter

/-! ## Slot masks -/

theorem lowestSlot_eq_some {mask : BitVec 32} {slot : Slot} (h : lowestSlot mask = some slot) :
    mask.getLsbD slot = true ∧ ∀ i < slot, mask.getLsbD i = false := by
  rw [lowestSlot, List.find?_eq_some_iff_getElem] at h
  obtain ⟨hbit, i, hi, hslot, hbelow⟩ := h
  have hval : slot.val = i := by simpa using congrArg Fin.val hslot.symm
  refine ⟨hbit, fun j hj => ?_⟩
  have hji : j.val < i := hval ▸ hj
  have hfalse := hbelow j.val hji
  simpa using hfalse

theorem getLsbD_setSlot (mask : BitVec 32) (slot i : Slot) :
    (mask ||| BitVec.twoPow 32 slot).getLsbD i = (mask.getLsbD i || decide (slot = i)) := by
  have hi : i.val < 32 := i.isLt
  rcases eq_or_ne slot i with rfl | hne
  · simp [hi]
  · have hval : i.val ≠ slot.val := fun h => hne (Fin.ext h.symm)
    simp [hval, hne]

theorem getLsbD_clearSlot (mask : BitVec 32) (slot i : Slot) :
    (mask &&& ~~~(BitVec.twoPow 32 slot)).getLsbD i = (mask.getLsbD i && !decide (slot = i)) := by
  have hi : i.val < 32 := i.isLt
  rcases eq_or_ne slot i with rfl | hne
  · simp [hi]
  · have hval : i.val ≠ slot.val := fun h => hne (Fin.ext h.symm)
    simp [hval, hne, hi]

/-- What the tables depend on in a request, and what its waiter is told. -/
def Request.tag {δ : Type} (r : Request δ) : Level × Slot × Bool × Bool × Bool :=
  (r.levelIndex, r.prioritySlot, r.isCpuAccess, r.complete, r.signalled)

/-- The place of a request in the tables. -/
def Request.place {δ : Type} (r : Request δ) : Level × Slot × Bool :=
  (r.levelIndex, r.prioritySlot, r.isCpuAccess)

namespace Requests

variable {ι δ : Type} {s t u : Requests ι δ} {level : Level}

/-- The request is in the tables. -/
def Queued (s : Requests ι δ) (r : ι) : Prop :=
  ∃ level slot, (s.levels level).slotRequest slot = some r

/-- Mask bits tell the slots in use, requests are where they belong, and so is the active one. -/
structure Tabled (s : Requests ι δ) : Prop where
  mask : ∀ level slot, (s.levels level).slotRequestMask.getLsbD (slot : Slot).val =
    ((s.levels level).slotRequest slot).isSome
  home : ∀ level slot r, (s.levels level).slotRequest slot = some r →
    (s.request r).levelIndex = level ∧ (s.request r).prioritySlot = slot
  active : ∀ level r, (s.levels level).active = some r →
    (s.levels level).slotRequest (s.request r).prioritySlot = some r

/-- Between sections: a level in use has an active request. -/
structure Consistent (s : Requests ι δ) : Prop extends Tabled s where
  settled : ∀ level, (s.levels level).active = none ↔ (s.levels level).slotRequestMask = 0

/-- The waiter of a request has been told. -/
def Released (s : Requests ι δ) (r : ι) : Prop :=
  (s.request r).complete = true ∧ (s.request r).signalled = true

/-- What a section may do. -/
structure Orderly (s t : Requests ι δ) : Prop where
  /-- A request that becomes active has the lowest slot in use. -/
  lowest : ∀ level r, (t.levels level).active = some r → (s.levels level).active ≠ some r →
    ∀ slot < (t.request r).prioritySlot, (t.levels level).slotRequest slot = none
  /-- A request that leaves is signalled, unless the emulated CPU polls for it. -/
  released : ∀ r, s.Queued r → ¬ t.Queued r →
    t.Released r ∨ (t.request r).isCpuAccess = true

/-! ## Changes of a request -/

theorem place_of_tag {a b : Request δ} (h : a.tag = b.tag) : a.place = b.place := by
  simp only [Request.tag, Prod.mk.injEq] at h
  simp [Request.place, h]

theorem Tabled.of_place (hs : s.Tabled) (hl : t.levels = s.levels)
    (hr : ∀ r, (t.request r).place = (s.request r).place) : t.Tabled := by
  have hplace : ∀ r, (t.request r).levelIndex = (s.request r).levelIndex ∧
      (t.request r).prioritySlot = (s.request r).prioritySlot := fun r => by
    have h := hr r
    simp only [Request.place, Prod.mk.injEq] at h
    exact ⟨h.1, h.2.1⟩
  refine ⟨?_, ?_, ?_⟩
  · rw [hl]
    exact hs.mask
  · intro level slot r h
    rw [hl] at h
    rw [(hplace r).1, (hplace r).2]
    exact hs.home level slot r h
  · intro level r h
    rw [hl] at h ⊢
    rw [(hplace r).2]
    exact hs.active level r h

theorem Queued.of_levels {r : ι} (h : s.Queued r) (hl : t.levels = s.levels) : t.Queued r := by
  rw [Queued, hl]
  exact h

theorem levels_modifyLevel_ne (f : PriorityRequestLevel ι → PriorityRequestLevel ι) {l : Level}
    (h : l ≠ level) : (s.modifyLevel level f).levels l = s.levels l :=
  Function.update_of_ne h _ _

theorem levels_modifyLevel_self (f : PriorityRequestLevel ι → PriorityRequestLevel ι) :
    (s.modifyLevel level f).levels level = f (s.levels level) :=
  Function.update_self ..

variable [DecidableEq ι]

theorem modifyRequest_place (s : Requests ι δ) (r : ι) {f : Request δ → Request δ}
    (hf : ∀ req, (f req).place = req.place) (q : ι) :
    ((s.modifyRequest r f).request q).place = (s.request q).place := by
  show (Function.update s.request r (f (s.request r)) q).place = _
  rcases eq_or_ne q r with rfl | hne
  · simp [hf]
  · simp [hne]

theorem modifyRequest_tag (s : Requests ι δ) (r : ι) {f : Request δ → Request δ}
    (hf : ∀ req, (f req).tag = req.tag) (q : ι) :
    ((s.modifyRequest r f).request q).tag = (s.request q).tag := by
  show (Function.update s.request r (f (s.request r)) q).tag = _
  rcases eq_or_ne q r with rfl | hne
  · simp [hf]
  · simp [hne]

theorem Tabled.modifyRequest (hs : s.Tabled) (r : ι) {f : Request δ → Request δ}
    (hf : ∀ req, (f req).place = req.place) : (s.modifyRequest r f).Tabled :=
  hs.of_place rfl (modifyRequest_place s r hf)

/-! ## Activation -/

/-- After a section of one level: the others are as before, this one has its lowest request
active, and no waiter has been told anything. -/
structure Activated (level : Level) (s t : Requests ι δ) : Prop where
  tabled : t.Tabled
  slots : ∀ l, (t.levels l).slotRequest = (s.levels l).slotRequest
  others : ∀ l, l ≠ level → t.levels l = s.levels l
  settled : (t.levels level).active = none ↔ (t.levels level).slotRequestMask = 0
  lowest : ∀ r, (t.levels level).active = some r →
    ∀ slot < (t.request r).prioritySlot, (t.levels level).slotRequest slot = none
  tags : ∀ r, (t.request r).tag = (s.request r).tag

omit [DecidableEq ι] in
/-- The lowest slot in use holds a request, and this one becomes active. -/
theorem requestActivateLowestSlot_activated (hs : s.Tabled)
    (h : s.requestActivateLowestSlot level = some t) : Activated level s t := by
  unfold requestActivateLowestSlot at h
  dsimp only at h
  split_ifs at h with hactive hassert hboth
  obtain rfl := Option.some.inj h
  have hslots : ∀ l, ((s.modifyLevel level fun l => { l with
      active := (lowestSlot (s.levels level).slotRequestMask).bind
        (s.levels level).slotRequest }).levels l).slotRequest = (s.levels l).slotRequest := by
    intro l
    rcases eq_or_ne l level with rfl | hne
    · rw [levels_modifyLevel_self]
    · rw [levels_modifyLevel_ne _ hne]
  -- The active request comes from the lowest slot.
  have hfound : ∀ r, (lowestSlot (s.levels level).slotRequestMask).bind
      (s.levels level).slotRequest = some r →
      (s.levels level).slotRequest (s.request r).prioritySlot = some r ∧
        ∀ slot < (s.request r).prioritySlot, (s.levels level).slotRequest slot = none := by
    intro r hr
    obtain ⟨slot, hslot, hreq⟩ := Option.bind_eq_some_iff.mp hr
    have hhome := (hs.home level slot r hreq).2
    rw [hhome]
    refine ⟨hreq, fun i hi => ?_⟩
    have hbit := (lowestSlot_eq_some hslot).2 i hi
    rw [hs.mask level i] at hbit
    simpa using hbit
  refine ⟨⟨?_, ?_, ?_⟩, hslots, fun l hne => levels_modifyLevel_ne _ hne, ?_, ?_, fun _ => rfl⟩
  · intro l slot
    rw [hslots]
    rcases eq_or_ne l level with rfl | hne
    · rw [levels_modifyLevel_self]
      exact hs.mask l slot
    · rw [levels_modifyLevel_ne _ hne]
      exact hs.mask l slot
  · intro l slot r hr
    rw [hslots] at hr
    exact hs.home l slot r hr
  · intro l r hr
    rw [hslots]
    rcases eq_or_ne l level with rfl | hne
    · rw [levels_modifyLevel_self] at hr
      exact (hfound r hr).1
    · rw [levels_modifyLevel_ne _ hne] at hr
      exact hs.active l r hr
  · rw [levels_modifyLevel_self]
    dsimp only
    simp only [bne_iff_ne, ne_eq, not_not] at hboth
    rw [← Option.isNone_iff_eq_none, ← hboth, beq_iff_eq]
  · intro r hr slot hslot
    rw [levels_modifyLevel_self] at hr
    rw [hslots]
    exact (hfound r hr).2 slot hslot

/-- What goes to the PRU changes nothing in the tables. -/
theorem requestExecuteActiveOnPru_same (h : s.requestExecuteActiveOnPru level = some t) :
    t.levels = s.levels ∧ ∀ r, (t.request r).tag = (s.request r).tag := by
  unfold requestExecuteActiveOnPru at h
  obtain ⟨r, -, h⟩ := Option.bind_eq_some_iff.mp h
  dsimp only at h
  split_ifs at h
  · obtain rfl := Option.some.inj h
    exact ⟨rfl, modifyRequest_tag s r fun _ => rfl⟩
  · obtain rfl := Option.some.inj h
    exact ⟨rfl, modifyRequest_tag s r fun _ => rfl⟩

omit [DecidableEq ι] in
theorem Activated.execute (hs : Activated level s t) (hl : u.levels = t.levels)
    (htag : ∀ r, (u.request r).tag = (t.request r).tag) : Activated level s u where
  tabled := hs.tabled.of_place hl fun r => place_of_tag (htag r)
  slots := by rw [hl]; exact hs.slots
  others := by rw [hl]; exact hs.others
  settled := by rw [hl]; exact hs.settled
  lowest := by
    intro r hr slot hslot
    have hplace : (u.request r).prioritySlot = (t.request r).prioritySlot :=
      congrArg (fun tag => tag.2.1) (htag r)
    rw [hl] at hr ⊢
    rw [hplace] at hslot
    exact hs.lowest r hr slot hslot
  tags := fun r => (htag r).trans (hs.tags r)

theorem activateNext_activated (hs : s.Tabled) (h : s.activateNext level = some t) :
    Activated level s t := by
  obtain ⟨u, hu, ht⟩ := Option.bind_eq_some_iff.mp h
  have hact := requestActivateLowestSlot_activated hs hu
  split_ifs at ht
  · obtain ⟨hl, htag⟩ := requestExecuteActiveOnPru_same ht
    exact hact.execute hl htag
  · obtain rfl := Option.some.inj ht
    exact hact

/-! ## Before the activation -/

/-- A section before it activates the next request of its level. -/
structure Prepared (level : Level) (s t : Requests ι δ) : Prop where
  tabled : t.Tabled
  others : ∀ l, l ≠ level → t.levels l = s.levels l
  released : ∀ r, s.Queued r → ¬ t.Queued r →
    t.Released r ∨ (t.request r).isCpuAccess = true

omit [DecidableEq ι] in
theorem Prepared.activate (hs : s.Consistent) (hp : Prepared level s t)
    (ha : Activated level t u) : u.Consistent ∧ Orderly s u := by
  have hothers : ∀ l, l ≠ level → u.levels l = s.levels l := fun l hne =>
    (ha.others l hne).trans (hp.others l hne)
  refine ⟨⟨ha.tabled, fun l => ?_⟩, ⟨fun l r hr hold => ?_, fun r hq hgone => ?_⟩⟩
  · rcases eq_or_ne l level with rfl | hne
    · exact ha.settled
    · rw [hothers l hne]
      exact hs.settled l
  · rcases eq_or_ne l level with rfl | hne
    · exact ha.lowest r hr
    · rw [hothers l hne] at hr
      exact absurd hr hold
  · have hgone' : ¬ t.Queued r := fun ⟨l, slot, hslot⟩ => hgone ⟨l, slot, by rw [ha.slots, hslot]⟩
    have htag := ha.tags r
    simp only [Request.tag, Prod.mk.injEq] at htag
    obtain ⟨-, -, hcpu, hcomplete, hsignalled⟩ := htag
    rw [Released, hcpu, hcomplete, hsignalled]
    exact hp.released r hq hgone'

omit [DecidableEq ι] in
/-- A section that leaves the slots and the active requests alone. -/
theorem orderly_of_levels (hs : s.Consistent) (hl : t.levels = s.levels)
    (hr : ∀ r, (t.request r).place = (s.request r).place) : t.Consistent ∧ Orderly s t := by
  refine ⟨⟨hs.toTabled.of_place hl hr, ?_⟩, ⟨fun l r h hold => ?_, fun r hq hgone => ?_⟩⟩
  · rw [hl]
    exact hs.settled
  · rw [hl] at h
    exact absurd h hold
  · exact absurd (hq.of_levels hl) hgone

omit [DecidableEq ι] in
theorem Prepared.of_levels (hl : t.levels = s.levels) (h : Prepared level t u) :
    Prepared level s u where
  tabled := h.tabled
  others := fun l hne => (h.others l hne).trans (congrFun hl l)
  released := fun r hq hgone => h.released r (hq.of_levels hl) hgone

section ClearedSlot

variable {f : PriorityRequestLevel ι → PriorityRequestLevel ι} {i : Slot}

omit [DecidableEq ι] in
/-- A slot is cleared, and its bit. The active request may not be the one that goes. -/
theorem Tabled.cleared (hs : s.Tabled)
    (hslots : (f (s.levels level)).slotRequest =
      Function.update (s.levels level).slotRequest i none)
    (hmask : (f (s.levels level)).slotRequestMask =
      (s.levels level).slotRequestMask &&& ~~~(BitVec.twoPow 32 i))
    (hactive : ∀ q, (f (s.levels level)).active = some q →
      (s.levels level).active = some q ∧ (s.request q).prioritySlot ≠ i) :
    (s.modifyLevel level f).Tabled := by
  refine ⟨fun l j => ?_, fun l j q h => ?_, fun l q h => ?_⟩
  · rcases eq_or_ne l level with rfl | hne
    · rw [levels_modifyLevel_self, hslots, hmask, getLsbD_clearSlot, hs.mask]
      rcases eq_or_ne j i with rfl | hj
      · simp
      · simp [hj, hj.symm]
    · rw [levels_modifyLevel_ne _ hne]
      exact hs.mask l j
  · rcases eq_or_ne l level with rfl | hne
    · rw [levels_modifyLevel_self, hslots] at h
      rcases eq_or_ne j i with rfl | hj
      · simp at h
      · rw [Function.update_of_ne hj] at h
        exact hs.home l j q h
    · rw [levels_modifyLevel_ne _ hne] at h
      exact hs.home l j q h
  · rcases eq_or_ne l level with rfl | hne
    · rw [levels_modifyLevel_self] at h ⊢
      obtain ⟨hold, hother⟩ := hactive q h
      have hhome := hs.active l q hold
      rw [hslots]
      exact (Function.update_of_ne hother _ _).trans hhome
    · rw [levels_modifyLevel_ne _ hne] at h ⊢
      exact hs.active l q h

omit [DecidableEq ι] in
/-- Only the request of that slot has gone. -/
theorem queued_cleared (hslots : (f (s.levels level)).slotRequest =
      Function.update (s.levels level).slotRequest i none) {q : ι} (hq : s.Queued q)
    (hgone : ¬ (s.modifyLevel level f).Queued q) :
    (s.levels level).slotRequest i = some q := by
  obtain ⟨l, j, hj⟩ := hq
  rcases eq_or_ne l level with rfl | hne
  · rcases eq_or_ne j i with rfl | hslot
    · exact hj
    · refine absurd ⟨l, j, ?_⟩ hgone
      rw [levels_modifyLevel_self, hslots, Function.update_of_ne hslot]
      exact hj
  · refine absurd ⟨l, j, ?_⟩ hgone
    rw [levels_modifyLevel_ne _ hne]
    exact hj

end ClearedSlot

theorem released_signalComplete (s : Requests ι δ) (r : ι) :
    (s.modifyRequest r (·.signalComplete)).Released r := by
  simp [Released, modifyRequest, Request.signalComplete]

theorem requestActiveComplete_prepared {signal : Bool} (hs : s.Tabled)
    (h : s.requestActiveComplete level signal = some t)
    (hsignal : signal = true ∨
      ∀ r, (s.levels level).active = some r → (s.request r).isCpuAccess = true) :
    Prepared level s t := by
  unfold requestActiveComplete at h
  cases hactive : (s.levels level).active with
  | none =>
    rw [hactive] at h
    obtain rfl := Option.some.inj h
    exact ⟨hs, fun _ _ => rfl, fun r hq hgone => absurd hq hgone⟩
  | some r =>
    rw [hactive] at h
    dsimp only at h
    generalize hb : (s.modifyRequest r ({ · with executingOnPru := false })).modifyLevel level
      (fun l => { l.clearSlot (s.request r).prioritySlot with active := none }) = b at h
    have htable : b.Tabled := by
      have hbase : (s.modifyRequest r ({ · with executingOnPru := false })).Tabled :=
        hs.modifyRequest r fun _ => rfl
      subst hb
      refine hbase.cleared (i := (s.request r).prioritySlot) rfl rfl ?_
      intro q hq
      cases hq
    have hothers : ∀ l, l ≠ level → b.levels l = s.levels l := fun l hne =>
      hb ▸ levels_modifyLevel_ne _ hne
    have hleft : ∀ q, s.Queued q → ¬ b.Queued q → q = r := fun q hq hgone => by
      subst hb
      have hslot := queued_cleared (i := (s.request r).prioritySlot) rfl
        (hq.of_levels (t := s.modifyRequest r ({ · with executingOnPru := false })) rfl) hgone
      exact (Option.some.inj ((hs.active level r hactive).symm.trans hslot)).symm
    split_ifs at h with hslot hsig
    · -- The waiter is told.
      obtain rfl := Option.some.inj h
      refine ⟨htable.modifyRequest r fun _ => rfl, hothers, fun q hq hgone => ?_⟩
      obtain rfl := hleft q hq fun hqueued => hgone (hqueued.of_levels rfl)
      exact .inl (released_signalComplete b q)
    · -- The CPU looks for itself.
      obtain rfl := Option.some.inj h
      refine ⟨htable, hothers, fun q hq hgone => ?_⟩
      obtain rfl := hleft q hq hgone
      have hcpu := hsignal.resolve_left hsig q hactive
      have hplace := modifyRequest_place s q (f := ({ · with executingOnPru := false }))
        (fun _ => rfl) q
      simp only [Request.place, Prod.mk.injEq] at hplace
      right
      rw [← hb]
      exact hplace.2.2.trans hcpu

/-! ## DMA and INTR -/

omit [DecidableEq ι] in
/-- A request is put into its slot, which is free. -/
theorem Tabled.setSlot (hs : s.Tabled) {r : ι}
    (hfree : (s.levels (s.request r).levelIndex).slotRequest (s.request r).prioritySlot = none) :
    (s.modifyLevel (s.request r).levelIndex (·.setSlot (s.request r).prioritySlot r)).Tabled := by
  generalize hlevel : (s.request r).levelIndex = level at hfree ⊢
  generalize hslot : (s.request r).prioritySlot = i at hfree ⊢
  refine ⟨fun l j => ?_, fun l j q h => ?_, fun l q h => ?_⟩
  · rcases eq_or_ne l level with rfl | hne
    · rw [levels_modifyLevel_self, PriorityRequestLevel.setSlot, getLsbD_setSlot, hs.mask]
      rcases eq_or_ne j i with rfl | hj
      · simp
      · simp [hj, hj.symm]
    · rw [levels_modifyLevel_ne _ hne]
      exact hs.mask l j
  · rcases eq_or_ne l level with rfl | hne
    · rw [levels_modifyLevel_self] at h
      change Function.update (s.levels l).slotRequest i (some r) j = some q at h
      rcases eq_or_ne j i with rfl | hj
      · rw [Function.update_self] at h
        obtain rfl := Option.some.inj h
        exact ⟨hlevel, hslot⟩
      · rw [Function.update_of_ne hj] at h
        exact hs.home l j q h
    · rw [levels_modifyLevel_ne _ hne] at h
      exact hs.home l j q h
  · rcases eq_or_ne l level with rfl | hne
    · rw [levels_modifyLevel_self] at h ⊢
      have hhome := hs.active l q h
      -- The slot of the active request is in use.
      have hother : (s.request q).prioritySlot ≠ i := by
        intro heq
        rw [heq, hfree] at hhome
        cases hhome
      exact (Function.update_of_ne hother _ _).trans hhome
    · rw [levels_modifyLevel_ne _ hne] at h ⊢
      exact hs.active l q h

theorem Queued.setSlot {r q : ι} {i : Slot} (hq : s.Queued q)
    (hfree : (s.levels level).slotRequest i = none) {f : Request δ → Request δ} :
    ((s.modifyRequest r f).modifyLevel level (·.setSlot i r)).Queued q := by
  obtain ⟨l, j, hj⟩ := hq
  refine ⟨l, j, ?_⟩
  rcases eq_or_ne l level with rfl | hne
  · have hji : j ≠ i := by
      intro heq
      rw [heq, hfree] at hj
      cases hj
    rw [levels_modifyLevel_self]
    exact (Function.update_of_ne hji _ _).trans hj
  · rw [levels_modifyLevel_ne _ hne]
    exact hj

/-- The request in its slot is started, or waits for the active one. -/
theorem startIfIdle_orderly (hs : s.Consistent) (hp : Prepared level s t)
    (hactive : (t.levels level).active = (s.levels level).active)
    (hmask : (t.levels level).slotRequestMask ≠ 0)
    (h : t.startIfIdle level = some u) : u.Consistent ∧ Orderly s u := by
  unfold startIfIdle at h
  split_ifs at h with hbusy
  · obtain rfl := Option.some.inj h
    refine ⟨⟨hp.tabled, fun l => ?_⟩, ⟨fun l r hr hold => ?_, hp.released⟩⟩
    · rcases eq_or_ne l level with rfl | hne
      · rw [Option.isSome_iff_ne_none] at hbusy
        exact ⟨fun hnone => absurd hnone hbusy, fun hzero => absurd hzero hmask⟩
      · rw [hp.others l hne]
        exact hs.settled l
    · rcases eq_or_ne l level with rfl | hne
      · rw [hactive] at hr
        exact absurd hr hold
      · rw [hp.others l hne] at hr
        exact absurd hr hold
  · exact hp.activate hs (activateNext_activated hp.tabled h)

/-- A request that is set up goes into its slot. -/
theorem requestSchedule_eq [DecidableEq δ] (s : Requests ι δ) (r : ι)
    {f : Request δ → Request δ} (hf : ∀ req, (f req).place = req.place)
    (h : (s.modifyRequest r f).conflict r = false) :
    (s.modifyRequest r f).requestSchedule r = (true, (s.modifyRequest r f).modifyLevel
      (s.request r).levelIndex (·.setSlot (s.request r).prioritySlot r)) := by
  have hplace := modifyRequest_place s r hf r
  simp only [Request.place, Prod.mk.injEq] at hplace
  obtain ⟨hl, hslot, -⟩ := hplace
  rw [requestSchedule, h, if_neg Bool.false_ne_true, hl, hslot]

theorem scheduled_orderly (hs : s.Consistent) (r : ι) {f : Request δ → Request δ}
    (hf : ∀ req, (f req).place = req.place) (hlevel : (s.request r).levelIndex = level)
    (hfree : (s.levels level).slotRequest (s.request r).prioritySlot = none)
    (h : ((s.modifyRequest r f).modifyLevel level
      (·.setSlot (s.request r).prioritySlot r)).startIfIdle level = some u) :
    u.Consistent ∧ Orderly s u := by
  have hplace := modifyRequest_place s r hf r
  simp only [Request.place, Prod.mk.injEq] at hplace
  obtain ⟨hl, hslot, -⟩ := hplace
  have htable : ((s.modifyRequest r f).modifyLevel level
      (·.setSlot (s.request r).prioritySlot r)).Tabled := by
    have hbase := (hs.toTabled.modifyRequest r hf).setSlot (r := r)
    rw [hl, hslot, hlevel] at hbase
    exact hbase hfree
  have hprepared : Prepared level s ((s.modifyRequest r f).modifyLevel level
      (·.setSlot (s.request r).prioritySlot r)) :=
    ⟨htable, fun _ hne => levels_modifyLevel_ne _ hne,
      fun _ hq hgone => absurd (hq.setSlot hfree) hgone⟩
  refine startIfIdle_orderly hs hprepared ?_ ?_ h
  · rw [levels_modifyLevel_self]
    rfl
  · rw [levels_modifyLevel_self]
    intro hzero
    have hbit := getLsbD_setSlot (s.levels level).slotRequestMask
      (s.request r).prioritySlot (s.request r).prioritySlot
    have hzero' : (s.levels level).slotRequestMask |||
        BitVec.twoPow 32 (s.request r).prioritySlot = 0 := hzero
    rw [hzero'] at hbit
    simp at hbit

theorem dma_orderly [DecidableEq δ] {byteCount : ℕ} {r : ι} {args : DmaArgs}
    (hs : s.Consistent) (h : s.dma byteCount r args = some t) : t.Consistent ∧ Orderly s t := by
  have hf : ∀ req : Request δ, (setupDma req args).place = req.place := fun _ => rfl
  unfold dma at h
  split_ifs at h with hassert
  simp only [dmaAsserts, Bool.and_eq_true, Bool.not_eq_false, Request.isDma, beq_iff_eq] at hassert
  have hlevel := hassert.1.1.1
  cases hconflict : (s.modifyRequest r (setupDma · args)).conflict r with
  | true =>
    rw [requestSchedule, hconflict, if_pos rfl] at h
    obtain rfl := Option.some.inj h
    refine orderly_of_levels hs rfl fun q => ?_
    have hsignal : ∀ req : Request δ, req.signalComplete.place = req.place := fun _ => rfl
    exact (modifyRequest_place _ r hsignal q).trans (modifyRequest_place s r hf q)
  | false =>
    rw [requestSchedule_eq s r hf hconflict, hlevel] at h
    refine scheduled_orderly hs r hf hlevel ?_ h
    -- A DMA request that finds its slot in use is a conflict.
    have hplace := modifyRequest_place s r hf r
    simp only [Request.place, Prod.mk.injEq] at hplace
    obtain ⟨hl, hslot, -⟩ := hplace
    have hdma : ((s.modifyRequest r (setupDma · args)).request r).isDma = true := by
      rw [Request.isDma, hl, hlevel]
      rfl
    have hlevels : (s.modifyRequest r (setupDma · args)).levels = s.levels := rfl
    rw [conflict, hl, hslot, hlevel, hdma, hlevels] at hconflict
    cases hused : (s.levels levelNpr).slotRequest (s.request r).prioritySlot with
    | none => rfl
    | some other => simp [hused] at hconflict

theorem intr_orderly [DecidableEq δ] {r : ι} {register : Option Handle} {value : Word}
    (hs : s.Consistent) (h : s.intr r register value = some t) :
    t.Consistent ∧ Orderly s t := by
  have hplace : ∀ delayed, ∀ req : Request δ,
      (setupIntr req delayed register value).place = req.place := fun _ _ => rfl
  unfold intr at h
  dsimp only at h
  cases hdma : (s.request r).isDma with
  | true =>
    rw [hdma, if_pos rfl] at h
    cases h
  | false =>
    rw [hdma, if_neg Bool.false_ne_true] at h
    cases hslot : (s.levels (s.request r).levelIndex).slotRequest (s.request r).prioritySlot with
    | some other =>
      rw [hslot] at h
      dsimp only at h
      split_ifs at h
      obtain rfl := Option.some.inj h
      exact orderly_of_levels hs rfl fun _ => rfl
    | none =>
      rw [hslot] at h
      dsimp only at h
      generalize (register.isSome &&
        s.requestIsBlockingActive (s.request r).levelIndex) = delayed at h
      -- A free slot is no conflict.
      have hconflict :
          (s.modifyRequest r (setupIntr · delayed register value)).conflict r = false := by
        have hr := modifyRequest_place s r (hplace delayed) r
        simp only [Request.place, Prod.mk.injEq] at hr
        have hlevels : (s.modifyRequest r (setupIntr · delayed register value)).levels =
            s.levels := rfl
        rw [conflict, hr.1, hr.2.1, hlevels, hslot]
      rw [requestSchedule_eq s r (hplace delayed) hconflict, if_pos rfl] at h
      exact scheduled_orderly hs r (hplace delayed) rfl hslot h

/-! ## Completion -/

omit [DecidableEq ι] in
theorem bothOrNone_eq (h : s.bothOrNone level = some t) :
    t = s ∧ ((s.levels level).active = none ↔ (s.levels level).slotRequestMask = 0) := by
  unfold bothOrNone at h
  split_ifs at h with hboth
  refine ⟨(Option.some.inj h).symm, ?_⟩
  rw [← Option.isNone_iff_eq_none, ← hboth, beq_iff_eq]

theorem cancelIntr_orderly {r : ι} (hs : s.Consistent)
    (hslot : (s.levels (s.request r).levelIndex).slotRequest (s.request r).prioritySlot = none ∨
      (s.levels (s.request r).levelIndex).slotRequest (s.request r).prioritySlot = some r)
    (h : s.cancelIntr r = some t) : t.Consistent ∧ Orderly s t := by
  unfold cancelIntr at h
  dsimp only at h
  split_ifs at h with hfree hactive hdma
  · obtain rfl := Option.some.inj h
    exact orderly_of_levels hs rfl fun _ => rfl
  · obtain ⟨b, hb, hboth⟩ := Option.bind_eq_some_iff.mp h
    obtain ⟨c, hc, hnext⟩ := Option.bind_eq_some_iff.mp hb
    obtain ⟨rfl, -⟩ := bothOrNone_eq hboth
    have hprepared := requestActiveComplete_prepared hs.toTabled hc (.inl rfl)
    exact hprepared.activate hs (activateNext_activated hprepared.tabled hnext)
  · have hmine := hslot.resolve_left hfree
    generalize hlevel : (s.request r).levelIndex = level at hmine hactive h
    generalize hi : (s.request r).prioritySlot = i at hmine h
    obtain ⟨rfl, hsettled⟩ := bothOrNone_eq h
    have htable : (s.modifyLevel level (·.clearSlot i)).Tabled := by
      refine hs.toTabled.cleared (i := i) rfl rfl fun q hq => ⟨hq, fun heq => hactive ?_⟩
      -- The active request has its slot, this one is another.
      have hhome := hs.active level q hq
      rw [heq, hmine] at hhome
      rw [Option.some.inj hhome]
      exact hq
    have hsignal : ∀ req : Request δ, req.signalComplete.place = req.place := fun _ => rfl
    refine ⟨⟨htable.modifyRequest r hsignal, fun l => ?_⟩, ⟨fun l q hq hold => ?_,
      fun q hq hgone => ?_⟩⟩
    · rcases eq_or_ne l level with rfl | hne
      · exact hsettled
      · show ((s.modifyLevel level (·.clearSlot i)).levels l).active = none ↔
          ((s.modifyLevel level (·.clearSlot i)).levels l).slotRequestMask = 0
        rw [levels_modifyLevel_ne _ hne]
        exact hs.settled l
    · refine absurd ?_ hold
      have hq' : ((s.modifyLevel level (·.clearSlot i)).levels l).active = some q := hq
      rcases eq_or_ne l level with rfl | hne
      · rw [levels_modifyLevel_self] at hq'
        exact hq'
      · rw [levels_modifyLevel_ne _ hne] at hq'
        exact hq'
    · have hleft := queued_cleared (f := (·.clearSlot i)) rfl hq
        fun hqueued => hgone (hqueued.of_levels rfl)
      rw [hmine] at hleft
      obtain rfl := Option.some.inj hleft
      exact .inl (released_signalComplete _ r)

theorem workerIntrComplete_orderly (hs : s.Consistent)
    (h : s.workerIntrComplete level = some t) : t.Consistent ∧ Orderly s t := by
  obtain ⟨b, hb, hnext⟩ := Option.bind_eq_some_iff.mp h
  have hprepared := requestActiveComplete_prepared hs.toTabled hb (.inl rfl)
  exact hprepared.activate hs (activateNext_activated hprepared.tabled hnext)

omit [DecidableEq ι] in
/-- The active request is taken back, its slot is not. -/
theorem Prepared.deactivate (hs : s.Tabled) (hl : t.levels = s.levels)
    (hr : ∀ r, (t.request r).place = (s.request r).place) :
    Prepared level s (t.modifyLevel level ({ · with active := none })) := by
  have ht := hs.of_place hl hr
  have hslots : ∀ l, ((t.modifyLevel level ({ · with active := none })).levels l).slotRequest =
      (t.levels l).slotRequest := by
    intro l
    rcases eq_or_ne l level with rfl | hne
    · rw [levels_modifyLevel_self]
    · rw [levels_modifyLevel_ne _ hne]
  refine ⟨⟨fun l i => ?_, fun l i q h => ?_, fun l q h => ?_⟩, fun l hne => ?_,
    fun q hq hgone => ?_⟩
  · rw [hslots, ← ht.mask]
    rcases eq_or_ne l level with rfl | hne
    · rw [levels_modifyLevel_self]
    · rw [levels_modifyLevel_ne _ hne]
  · rw [hslots] at h
    exact ht.home l i q h
  · rw [hslots]
    rcases eq_or_ne l level with rfl | hne
    · rw [levels_modifyLevel_self] at h
      cases h
    · rw [levels_modifyLevel_ne _ hne] at h
      exact ht.active l q h
  · rw [levels_modifyLevel_ne _ hne, hl]
  · obtain ⟨l, i, hi⟩ := hq.of_levels hl
    exact absurd ⟨l, i, (hslots l ▸ hi : _)⟩ hgone

theorem workerDmaChunkComplete_orderly {res : ChunkResult} (hs : s.Consistent)
    (h : s.workerDmaChunkComplete res = some t) : t.Consistent ∧ Orderly s t := by
  obtain ⟨r, hactive, h⟩ := Option.bind_eq_some_iff.mp h
  have hrecord : ∀ req : Request δ, (recordChunk req res).place = req.place := fun _ => rfl
  dsimp only at h
  split_ifs at h with hassert hmore hcpu
  · -- The next chunk: the request stays in its slot.
    have hstart : ∀ req : Request δ,
        ({ req with chunkQunibusStartAddr := res.curAddr + 2 } : Request δ).place = req.place :=
      fun _ => rfl
    generalize hc : (s.modifyRequest r (recordChunk · res)).modifyRequest r
      ({ · with chunkQunibusStartAddr := res.curAddr + 2 }) = c at h
    have hplace : ∀ q, (c.request q).place = (s.request q).place := fun q => hc ▸
      (modifyRequest_place _ r hstart q).trans (modifyRequest_place s r hrecord q)
    have hlevels : c.levels = s.levels := hc ▸ rfl
    obtain ⟨b, hb, ht⟩ := Option.bind_eq_some_iff.mp h
    have hprepared : Prepared levelNpr s _ := Prepared.deactivate hs.toTabled hlevels hplace
    obtain ⟨hl, htag⟩ := requestExecuteActiveOnPru_same ht
    exact hprepared.activate hs
      ((requestActivateLowestSlot_activated hprepared.tabled hb).execute hl htag)
  · have hsuccess : ∀ req : Request δ,
        ({ req with success := res.ready } : Request δ).place = req.place := fun _ => rfl
    generalize hc : (s.modifyRequest r (recordChunk · res)).modifyRequest r
      ({ · with success := res.ready }) = c at h
    have hplace : ∀ q, (c.request q).place = (s.request q).place := fun q => hc ▸
      (modifyRequest_place _ r hsuccess q).trans (modifyRequest_place s r hrecord q)
    have hlevels : c.levels = s.levels := hc ▸ rfl
    obtain ⟨b, hb, hnext⟩ := Option.bind_eq_some_iff.mp h
    have hprepared : Prepared levelNpr s b := by
      have htable : c.Tabled := hs.toTabled.of_place hlevels hplace
      refine .of_levels hlevels (requestActiveComplete_prepared htable hb ?_)
      -- The waiter is told, or it is the CPU.
      cases hcpu : (s.request r).isCpuAccess with
      | false => exact .inl rfl
      | true =>
        refine .inr fun q hq => ?_
        rw [hlevels, hactive] at hq
        obtain rfl := Option.some.inj hq
        have hr := hplace r
        simp only [Request.place, Prod.mk.injEq] at hr
        exact hr.2.2.trans hcpu
    exact hprepared.activate hs (activateNext_activated hprepared.tabled hnext)

/-! ## Reset -/

/-- Slots are being cancelled: whoever is not in the tables any more has been told. -/
structure Cancelled (s t : Requests ι δ) : Prop where
  queued : ∀ r, s.Queued r → t.Queued r ∨ t.Released r
  released : ∀ r, s.Released r → t.Released r

omit [DecidableEq ι] in
theorem Cancelled.trans (h : Cancelled s t) (h' : Cancelled t u) : Cancelled s u where
  queued := fun r hq => (h.queued r hq).elim (h'.queued r) fun hr => .inr (h'.released r hr)
  released := fun r hr => h'.released r (h.released r hr)

/-- After a slot has been cancelled it is empty, and the other slots are as before. -/
theorem cancelSlot_slotRequest (level : Level) (s : Requests ι δ) (i : Slot) (l : Level) :
    ((cancelSlot level s i).levels l).slotRequest =
      if l = level then Function.update (s.levels l).slotRequest i none
      else (s.levels l).slotRequest := by
  unfold cancelSlot
  split
  case h_1 hslot =>
    split_ifs with hl
    · subst hl
      exact (Function.update_eq_self_iff.mpr hslot.symm).symm
    · rfl
  case h_2 r hslot =>
    show (((s.modifyRequest r (·.abandon)).modifyLevel level fun l => { l with
      slotRequest := Function.update l.slotRequest i none }).levels l).slotRequest = _
    split_ifs with hl
    · subst hl
      rw [levels_modifyLevel_self]
      rfl
    · rw [levels_modifyLevel_ne _ hl]
      rfl

theorem cancelSlot_cancelled (level : Level) (s : Requests ι δ) (i : Slot) :
    Cancelled s (cancelSlot level s i) := by
  have hslots := cancelSlot_slotRequest level s i
  unfold cancelSlot at hslots ⊢
  cases hslot : (s.levels level).slotRequest i with
  | none => exact ⟨fun _ hq => .inl hq, fun _ hr => hr⟩
  | some r =>
    rw [hslot] at hslots
    dsimp only at hslots ⊢
    generalize hb : (s.modifyRequest r (·.abandon)).modifyLevel level
      (fun l => { l with slotRequest := Function.update l.slotRequest i none }) = b at hslots ⊢
    have habandon : ∀ req : Request δ, req.abandon.tag = req.tag := fun _ => rfl
    have htag : ∀ q, (b.request q).tag = (s.request q).tag := fun q => hb ▸
      modifyRequest_tag s r habandon q
    refine ⟨fun q hq => ?_, fun q hq => ?_⟩
    · rcases eq_or_ne q r with rfl | hne
      · exact .inr (released_signalComplete b q)
      · -- Another request is in another slot.
        obtain ⟨l, j, hj⟩ := hq
        refine .inl ⟨l, j, ?_⟩
        rw [hslots]
        split_ifs with hl
        · subst hl
          have hji : j ≠ i := by
            intro heq
            rw [heq, hslot] at hj
            exact hne (Option.some.inj hj).symm
          exact (Function.update_of_ne hji _ _).trans hj
        · exact hj
    · rcases eq_or_ne q r with rfl | hne
      · exact released_signalComplete b q
      · have hq' := htag q
        simp only [Request.tag, Prod.mk.injEq] at hq'
        have hsame : (b.modifyRequest r (·.signalComplete)).request q = b.request q :=
          Function.update_of_ne hne _ _
        rw [Released, hsame, hq'.2.2.2.1, hq'.2.2.2.2]
        exact hq

/-- The slots of a list are emptied, and stay so. -/
theorem foldl_cancelSlot (level : Level) (slots : List Slot) (s : Requests ι δ) :
    Cancelled s (slots.foldl (cancelSlot level) s) ∧
      (∀ i ∈ slots, ((slots.foldl (cancelSlot level) s).levels level).slotRequest i = none) ∧
      (∀ l i, (s.levels l).slotRequest i = none →
        ((slots.foldl (cancelSlot level) s).levels l).slotRequest i = none) := by
  induction slots generalizing s with
  | nil => exact ⟨⟨fun _ hq => .inl hq, fun _ hr => hr⟩, by simp, fun _ _ h => h⟩
  | cons head rest ih =>
    obtain ⟨hcancelled, hempty, hkeep⟩ := ih (cancelSlot level s head)
    have hhead := cancelSlot_slotRequest level s head
    refine ⟨(cancelSlot_cancelled level s head).trans hcancelled, ?_, ?_⟩
    · intro i hi
      rcases List.mem_cons.mp hi with rfl | hi
      · refine hkeep level i ?_
        rw [hhead, if_pos rfl, Function.update_self]
      · exact hempty i hi
    · intro l i h
      refine hkeep l i ?_
      rw [hhead]
      split_ifs
      · rcases eq_or_ne i head with rfl | hne
        · exact Function.update_self ..
        · rw [Function.update_of_ne hne]
          exact h
      · exact h

theorem cancelLevel_cancelled (s : Requests ι δ) (level : Level) :
    Cancelled s (s.cancelLevel level) ∧
      (∀ i, ((s.cancelLevel level).levels level).slotRequest i = none) ∧
      (∀ l i, (s.levels l).slotRequest i = none →
        ((s.cancelLevel level).levels l).slotRequest i = none) := by
  unfold cancelLevel
  generalize hb : s.modifyLevel level (fun l => { l with
    slotRequestMask := 0, active := none }) = b
  have hslots : ∀ l, (b.levels l).slotRequest = (s.levels l).slotRequest := by
    intro l
    subst hb
    rcases eq_or_ne l level with rfl | hne
    · rw [levels_modifyLevel_self]
    · rw [levels_modifyLevel_ne _ hne]
  have hfirst : Cancelled s b := by
    refine ⟨fun r hq => .inl ?_, fun r hr => ?_⟩
    · obtain ⟨l, i, hi⟩ := hq
      exact ⟨l, i, (congrFun (hslots l) i).trans hi⟩
    · subst hb
      exact hr
  obtain ⟨hcancelled, hempty, hkeep⟩ := foldl_cancelSlot level (List.finRange 32) b
  refine ⟨hfirst.trans hcancelled, fun i => hempty i (List.mem_finRange i), fun l i h => ?_⟩
  refine hkeep l i ?_
  rw [hslots]
  exact h

/-- The levels of a list are emptied, and stay so. -/
theorem foldl_cancelLevel (levels : List Level) (s : Requests ι δ) :
    Cancelled s (levels.foldl cancelLevel s) ∧
      (∀ l ∈ levels, ∀ i, ((levels.foldl cancelLevel s).levels l).slotRequest i = none) ∧
      (∀ l i, (s.levels l).slotRequest i = none →
        ((levels.foldl cancelLevel s).levels l).slotRequest i = none) := by
  induction levels generalizing s with
  | nil => exact ⟨⟨fun _ hq => .inl hq, fun _ hr => hr⟩, by simp, fun _ _ h => h⟩
  | cons head rest ih =>
    obtain ⟨hcancelled, hempty, hkeep⟩ := ih (s.cancelLevel head)
    obtain ⟨hhead, hnone, hstay⟩ := cancelLevel_cancelled s head
    refine ⟨hhead.trans hcancelled, ?_, fun l i h => hkeep l i (hstay l i h)⟩
    intro l hl i
    rcases List.mem_cons.mp hl with rfl | hl
    · exact hkeep l i (hnone i)
    · exact hempty l hl i

theorem workerReset_orderly (s : Requests ι δ) :
    s.workerReset.Consistent ∧ Orderly s s.workerReset := by
  obtain ⟨hcancelled, hempty, -⟩ := foldl_cancelLevel (List.finRange 5) s
  refine ⟨⟨⟨fun _ _ => ?_, fun _ _ _ h => ?_, fun _ _ h => ?_⟩, fun _ => ?_⟩,
    ⟨fun _ _ h => ?_, fun r hq _ => ?_⟩⟩
  · simp [workerReset, requestsInit, PriorityRequestLevel.empty]
  · cases h
  · cases h
  · simp [workerReset, requestsInit, PriorityRequestLevel.empty]
  · cases h
  · rcases hcancelled.queued r hq with hqueued | hreleased
    · obtain ⟨l, i, hi⟩ := hqueued
      rw [hempty l (List.mem_finRange l) i] at hi
      cases hi
    · left
      simpa only [Released, workerReset, requestsInit, requestsCancelScheduled] using hreleased

/-! ## Runs -/

variable [DecidableEq δ]

/-- The sections as steps, those that end a request by `cancel_INTR` under a condition. Where an
assertion fails the program ends, and there is no step. -/
inductive Step (byteCount : ℕ) (cond : Requests ι δ → ι → Prop) :
    Requests ι δ → Requests ι δ → Prop
  | dma {s t : Requests ι δ} (r : ι) (args : DmaArgs) : s.dma byteCount r args = some t →
      Step byteCount cond s t
  | intr {s t : Requests ι δ} (r : ι) (register : Option Handle) (value : Word) :
      s.intr r register value = some t → Step byteCount cond s t
  | cancelIntr {s t : Requests ι δ} (r : ι) : cond s r → s.cancelIntr r = some t →
      Step byteCount cond s t
  | dmaChunkComplete {s t : Requests ι δ} (res : ChunkResult) :
      s.workerDmaChunkComplete res = some t → Step byteCount cond s t
  | intrComplete {s t : Requests ι δ} (level : Level) : s.workerIntrComplete level = some t →
      Step byteCount cond s t
  | reset {s : Requests ι δ} : Step byteCount cond s s.workerReset

/-- Nothing has been requested yet. -/
def Started (s : Requests ι δ) : Prop := ∀ level, s.levels level = .empty

omit [DecidableEq ι] [DecidableEq δ] in
theorem Started.consistent (hs : s.Started) : s.Consistent := by
  have hs' : s.levels = fun _ => .empty := funext hs
  refine ⟨⟨fun _ _ => ?_, fun _ _ _ h => ?_, fun _ _ h => ?_⟩, fun _ => ?_⟩
  · simp [hs', PriorityRequestLevel.empty]
  · rw [hs'] at h
    cases h
  · rw [hs'] at h
    cases h
  · simp [hs', PriorityRequestLevel.empty]

/-- What `cancel_INTR` relies on: its slot is free, or holds the request itself. -/
def OwnSlot (s : Requests ι δ) (r : ι) : Prop :=
  (s.levels (s.request r).levelIndex).slotRequest (s.request r).prioritySlot = none ∨
    (s.levels (s.request r).levelIndex).slotRequest (s.request r).prioritySlot = some r

theorem Step.orderly {byteCount : ℕ} (hs : s.Consistent) (h : Step byteCount OwnSlot s t) :
    t.Consistent ∧ Orderly s t := by
  cases h with
  | dma r args h => exact dma_orderly hs h
  | intr r register value h => exact intr_orderly hs h
  | cancelIntr r hslot h => exact cancelIntr_orderly hs hslot h
  | dmaChunkComplete res h => exact workerDmaChunkComplete_orderly hs h
  | intrComplete level h => exact workerIntrComplete_orderly hs h
  | reset => exact workerReset_orderly s

/-- Whenever the lock is free the tables are consistent, and what the next section does to them
is orderly. -/
theorem consistent_of_ownSlot (byteCount : ℕ)
    (h : Transition.Reachable Started (Step byteCount OwnSlot) s) :
    s.Consistent ∧ ∀ t, Step byteCount OwnSlot s t → t.Consistent ∧ Orderly s t := by
  have hs : s.Consistent :=
    Transition.Reachable.invariant (fun s hs => hs.consistent) (fun s t hs h => (h.orderly hs).1) h
  exact ⟨hs, fun t h => h.orderly hs⟩

/-! ## Three requests of one level

Two devices with a slot each, and a third that shares the slot of the second. -/

/-- Interrupt requests at BR4. -/
def sharedSlot : Requests (Fin 3) ℕ where
  request r := {
    device := some r.val
    levelIndex := ⟨0, by decide⟩
    prioritySlot := if r.val = 0 then ⟨3, by decide⟩ else ⟨5, by decide⟩
    executingOnPru := false
    complete := false
    signalled := false
    isCpuAccess := false
    success := false
    qunibusControl := 0
    qunibusStartAddr := 0
    qunibusEndAddr := 0
    buffer := fun _ => 0
    wordcount := 0
    chunkMaxWords := 0
    chunkQunibusStartAddr := 0
    chunkWords := 0
    vector := 0o60
    interruptRegister := none
    interruptRegisterValue := 0 }
  levels _ := .empty

/-- The first is raised and cancelled, which is its own slot. -/
theorem consistent_of_ownSlot_cancelled :
    ∃ s, (sharedSlot.intr 0 none 0).bind (·.cancelIntr 0) = some s ∧ s.Consistent := by
  obtain ⟨s, hs⟩ : ∃ s, sharedSlot.intr 0 none 0 = some s :=
    Option.isSome_iff_exists.mp (by decide)
  obtain ⟨t, ht⟩ : ∃ t, s.cancelIntr 0 = some t := by
    have h : ((sharedSlot.intr 0 none 0).bind (·.cancelIntr 0)).isSome = true := by decide
    rw [hs] at h
    exact Option.isSome_iff_exists.mp h
  have hslot : OwnSlot s 0 := by
    have h : (sharedSlot.intr 0 none 0).map (fun s =>
        (s.levels (s.request 0).levelIndex).slotRequest (s.request 0).prioritySlot) =
        some (some 0) := by decide
    rw [hs] at h
    exact .inr (Option.some.inj h)
  refine ⟨t, by rw [hs]; exact ht, ?_⟩
  have hreached : Transition.Reachable Started (Step 0 OwnSlot) s :=
    .step (.init fun _ => rfl) (.intr 0 none 0 hs)
  exact ((consistent_of_ownSlot 0 hreached).2 t (.cancelIntr 0 hslot ht)).1

/-- The third takes the second out of its slot while that waits for the first. Nobody tells. -/
theorem cancelIntr_drops_other :
    ¬ ∀ s, Transition.Reachable Started (Step 0 fun _ _ => True) s → s.Consistent ∧
      ∀ t : Requests (Fin 3) ℕ, Step 0 (fun _ _ => True) s t → t.Consistent ∧ Orderly s t := by
  intro hclaim
  obtain ⟨s, hs⟩ : ∃ s, sharedSlot.intr 0 none 0 = some s :=
    Option.isSome_iff_exists.mp (by decide)
  obtain ⟨t, ht⟩ : ∃ t, s.intr 1 none 0 = some t := by
    have h : ((sharedSlot.intr 0 none 0).bind (·.intr 1 none 0)).isSome = true := by decide
    rw [hs] at h
    exact Option.isSome_iff_exists.mp h
  have hrun : (sharedSlot.intr 0 none 0).bind (·.intr 1 none 0) = some t := by rw [hs]; exact ht
  obtain ⟨u, hu⟩ : ∃ u, t.cancelIntr 2 = some u := by
    have h : (((sharedSlot.intr 0 none 0).bind (·.intr 1 none 0)).bind
      (·.cancelIntr 2)).isSome = true := by decide
    rw [hrun] at h
    exact Option.isSome_iff_exists.mp h
  have hreached : Transition.Reachable Started (Step 0 fun _ _ => True) t :=
    .step (.step (.init fun _ => rfl) (.intr 0 none 0 hs)) (.intr 1 none 0 ht)
  have horderly := ((hclaim t hreached).2 u (.cancelIntr 2 trivial hu)).2
  have hbefore : ((sharedSlot.intr 0 none 0).bind (·.intr 1 none 0)).map
      (fun s => (s.levels 0).slotRequest 5) = some (some 1) := by decide
  rw [hrun] at hbefore
  have hafter : (((sharedSlot.intr 0 none 0).bind (·.intr 1 none 0)).bind (·.cancelIntr 2)).map
      (fun s => (decide (∀ l i, (s.levels l).slotRequest i ≠ some 1), (s.request 1).complete,
        (s.request 1).isCpuAccess)) = some (true, false, false) := by decide
  rw [hrun, Option.bind_some, hu] at hafter
  simp only [Option.map_some, Option.some.injEq, Prod.mk.injEq, decide_eq_true_eq] at hafter
  obtain ⟨hgone, hcomplete, hcpu⟩ := hafter
  rcases horderly.released 1 ⟨0, 5, Option.some.inj hbefore⟩ fun ⟨l, i, hi⟩ => hgone l i hi with
    hreleased | hpolled
  · rw [hreleased.1] at hcomplete
    cases hcomplete
  · rw [hpolled] at hcpu
    cases hcpu

end Requests

end QUniBone.QUnibusAdapter
