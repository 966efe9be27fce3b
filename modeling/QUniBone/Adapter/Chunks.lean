import QUniBone.Adapter.RequestTables

/-!
# The chunks of a DMA request

Between two chunks a request goes back to its slot, and whoever has the lowest slot goes on. What
the sections for DMA do to the requests, one lemma for each.

* `HandedOver`: the lowest request becomes active, and its next chunk is cut off.
* `dma_cases`, `workerDmaChunkComplete_cases`: what the two sections can do.
-/

namespace QUniBone.QUnibusAdapter

/-- The next chunk of a request is cut off. -/
def Request.handedOver {δ : Type} (req : Request δ) : Request δ :=
  { req with
    chunkWords := min req.chunkMaxWords (req.wordcount - req.wordcountCompletedChunks)
    executingOnPru := true }

namespace Requests

variable {ι δ : Type} [DecidableEq ι] {s t u : Requests ι δ}

/-- A DMA request waits in its slot, or is active. -/
def Scheduled (s : Requests ι δ) (r : ι) : Prop :=
  (s.levels levelNpr).slotRequest (s.request r).prioritySlot = some r

instance decidableScheduled (s : Requests ι δ) (r : ι) : Decidable (s.Scheduled r) :=
  inferInstanceAs (Decidable (_ = _))

/-- The request with the lowest slot has become active. -/
structure HandedOver (s t : Requests ι δ) : Prop where
  slots : (t.levels levelNpr).slotRequest = (s.levels levelNpr).slotRequest
  active : ∀ r, (t.levels levelNpr).active = some r → t.request r = (s.request r).handedOver ∧
    0 < (t.request r).chunkWords
  waiting : ∀ r, (t.levels levelNpr).active ≠ some r → t.request r = s.request r

omit [DecidableEq ι] in
/-- The same slots, and the same place for the request. -/
theorem scheduled_iff {r : ι} {u v : Requests ι δ}
    (hslots : (u.levels levelNpr).slotRequest = (v.levels levelNpr).slotRequest)
    (hrecord : u.request r = v.request r) : u.Scheduled r ↔ v.Scheduled r := by
  rw [Scheduled, Scheduled, hslots, hrecord]

omit [DecidableEq ι] in
/-- Another request enters or leaves a slot that is not this one's. -/
theorem scheduled_update {r q : ι} {u v : Requests ι δ} {entry : Option ι}
    (hslots : (u.levels levelNpr).slotRequest =
      Function.update (v.levels levelNpr).slotRequest (v.request q).prioritySlot entry)
    (hentry : entry ≠ some r)
    (hbefore : (v.levels levelNpr).slotRequest (v.request q).prioritySlot ≠ some r)
    (hrecord : u.request r = v.request r) : u.Scheduled r ↔ v.Scheduled r := by
  rw [Scheduled, Scheduled, hslots, hrecord]
  rcases eq_or_ne (v.request r).prioritySlot (v.request q).prioritySlot with hslot | hslot
  · rw [hslot, Function.update_self]
    exact iff_of_false hentry hbefore
  · rw [Function.update_of_ne hslot]

omit [DecidableEq ι] in
/-- While nothing is active, all slots are empty. -/
theorem not_scheduled_of_idle {r : ι} {u : Requests ι δ} (hu : u.Consistent)
    (h : (u.levels levelNpr).active = none) : ¬ u.Scheduled r := by
  intro hscheduled
  have hmask := hu.mask levelNpr (u.request r).prioritySlot
  rw [(hu.settled levelNpr).mp h, hscheduled] at hmask
  simp at hmask

theorem modifyRequest_self (s : Requests ι δ) (r : ι) (f : Request δ → Request δ) :
    (s.modifyRequest r f).request r = f (s.request r) := Function.update_self ..

theorem modifyRequest_ne (s : Requests ι δ) {r q : ι} (f : Request δ → Request δ) (h : q ≠ r) :
    (s.modifyRequest r f).request q = s.request q := Function.update_of_ne h ..

omit [DecidableEq ι] in
theorem modifyLevel_request (s : Requests ι δ) (level : Level)
    (f : PriorityRequestLevel ι → PriorityRequestLevel ι) :
    (s.modifyLevel level f).request = s.request := rfl

theorem requestExecuteActiveOnPru_handedOver {r : ι}
    (hactive : (s.levels levelNpr).active = some r)
    (h : s.requestExecuteActiveOnPru levelNpr = some t) : HandedOver s t := by
  rw [requestExecuteActiveOnPru, hactive, Option.bind_some] at h
  dsimp only at h
  rw [if_pos rfl] at h
  split_ifs at h with hassert
  obtain rfl := Option.some.inj h
  refine ⟨rfl, fun q hq => ?_, fun q hq => ?_⟩
  · obtain rfl : r = q := Option.some.inj (hactive.symm.trans hq)
    rw [modifyRequest_self]
    exact ⟨rfl, Nat.pos_of_ne_zero (not_or.mp hassert).2⟩
  · have hne : q ≠ r := fun heq => hq (heq ▸ hactive)
    exact modifyRequest_ne s _ hne

omit [DecidableEq ι] in
/-- The requests do not change before the chunk is cut off. -/
theorem requestActivateLowestSlot_same {level : Level}
    (h : s.requestActivateLowestSlot level = some t) :
    t.request = s.request ∧ (t.levels level).slotRequest = (s.levels level).slotRequest := by
  unfold requestActivateLowestSlot at h
  dsimp only at h
  split_ifs at h
  obtain rfl := Option.some.inj h
  exact ⟨rfl, by rw [levels_modifyLevel_self]⟩

omit [DecidableEq ι] in
theorem HandedOver.of_activated (hu : u.request = s.request)
    (hslots : (u.levels levelNpr).slotRequest = (s.levels levelNpr).slotRequest)
    (h : HandedOver u t) : HandedOver s t where
  slots := h.slots.trans hslots
  active := hu ▸ h.active
  waiting := hu ▸ h.waiting

theorem activateNext_handedOver (h : s.activateNext levelNpr = some t) : HandedOver s t := by
  obtain ⟨u, hu, h⟩ := Option.bind_eq_some_iff.mp h
  obtain ⟨hrequest, hslots⟩ := requestActivateLowestSlot_same hu
  refine .of_activated hrequest hslots ?_
  cases hactive : (u.levels levelNpr).active with
  | none =>
    rw [hactive] at h
    obtain rfl := Option.some.inj h
    refine ⟨rfl, fun r hr => ?_, fun _ _ => rfl⟩
    rw [hactive] at hr
    cases hr
  | some r =>
    rw [hactive] at h
    exact requestExecuteActiveOnPru_handedOver hactive h

/-! ## The call -/

/-- A request is set up, and put into its slot. -/
def put (s : Requests ι δ) (r : ι) (args : DmaArgs) : Requests ι δ :=
  (s.modifyRequest r (setupDma · args)).modifyLevel levelNpr
    (·.setSlot (s.request r).prioritySlot r)

theorem put_request (s : Requests ι δ) (r : ι) (args : DmaArgs) :
    (s.put r args).request = (s.modifyRequest r (setupDma · args)).request := rfl

theorem put_slotRequest (s : Requests ι δ) (r : ι) (args : DmaArgs) :
    ((s.put r args).levels levelNpr).slotRequest =
      Function.update (s.levels levelNpr).slotRequest (s.request r).prioritySlot (some r) := by
  rw [put, levels_modifyLevel_self]
  rfl

/-- `DMA()`: refused, or put into the slot, to be started at once if nothing is active. -/
theorem dma_cases [DecidableEq δ] {byteCount : ℕ} {r : ι} {args : DmaArgs}
    (h : s.dma byteCount r args = some t) : dmaAsserts byteCount (s.request r) args = true ∧
      ((s.levels levelNpr).slotRequest (s.request r).prioritySlot ≠ none ∧
          t.levels = s.levels ∧ (∀ q, q ≠ r → t.request q = s.request q) ∨
        (s.levels levelNpr).slotRequest (s.request r).prioritySlot = none ∧
          (s.levels levelNpr).active ≠ none ∧ t = s.put r args ∨
        (s.levels levelNpr).slotRequest (s.request r).prioritySlot = none ∧
          (s.levels levelNpr).active = none ∧ HandedOver (s.put r args) t) := by
  have hf : ∀ req : Request δ, (setupDma req args).place = req.place := fun _ => rfl
  unfold dma at h
  split_ifs at h with hassert
  refine ⟨by simpa using hassert, ?_⟩
  simp only [dmaAsserts, Bool.and_eq_true, Bool.not_eq_false, Request.isDma, beq_iff_eq] at hassert
  have hlevel : (s.request r).levelIndex = levelNpr := hassert.1.1.1
  have hplace := modifyRequest_place s r hf r
  simp only [Request.place, Prod.mk.injEq] at hplace
  obtain ⟨hl, hslot, -⟩ := hplace
  have hdma : ((s.modifyRequest r (setupDma · args)).request r).isDma = true := by
    rw [Request.isDma, hl, hlevel]
    rfl
  have hlevels : (s.modifyRequest r (setupDma · args)).levels = s.levels := rfl
  -- For a DMA request any other in its slot is a conflict.
  have hconflict : (s.modifyRequest r (setupDma · args)).conflict r =
      ((s.levels levelNpr).slotRequest (s.request r).prioritySlot).isSome := by
    rw [conflict, hl, hslot, hlevel, hdma, hlevels]
    cases (s.levels levelNpr).slotRequest (s.request r).prioritySlot with
    | none => rfl
    | some other => rfl
  cases hused : (s.levels levelNpr).slotRequest (s.request r).prioritySlot with
  | some other =>
    rw [hused] at hconflict
    rw [requestSchedule, hconflict, Option.isSome_some, if_pos rfl] at h
    obtain rfl := Option.some.inj h
    refine .inl ⟨Option.some_ne_none other, rfl, fun q hne => ?_⟩
    exact (modifyRequest_ne _ _ hne).trans (modifyRequest_ne s _ hne)
  | none =>
    rw [hused] at hconflict
    rw [requestSchedule_eq s r hf hconflict, hlevel] at h
    replace h : (s.put r args).startIfIdle levelNpr = some t := h
    have hsame : ((s.put r args).levels levelNpr).active = (s.levels levelNpr).active := by
      rw [put, levels_modifyLevel_self]
      rfl
    rw [startIfIdle, hsame] at h
    refine .inr ?_
    cases hactive : (s.levels levelNpr).active with
    | some q =>
      rw [hactive, Option.isSome_some, if_pos rfl] at h
      exact .inl ⟨rfl, Option.some_ne_none q, (Option.some.inj h).symm⟩
    | none =>
      rw [hactive, Option.isSome_none, if_neg Bool.false_ne_true] at h
      exact .inr ⟨rfl, rfl, activateNext_handedOver h⟩

/-! ## The end of a chunk -/

/-- The active request gets its data, and goes back to its slot for the next chunk. -/
def requeue (s : Requests ι δ) (r : ι) (res : ChunkResult) : Requests ι δ :=
  ((s.modifyRequest r (recordChunk · res)).modifyRequest r
    ({ · with chunkQunibusStartAddr := res.curAddr + 2 })).modifyLevel levelNpr
    ({ · with active := none })

/-- The record of a request that is done. -/
def retire (req : Request δ) (res : ChunkResult) (complete signalled : Bool) : Request δ :=
  { recordChunk req res with
    success := res.ready
    executingOnPru := false
    complete := complete
    signalled := signalled }

/-- A request is done, and out of its slot. -/
structure Retired (s : Requests ι δ) (r : ι) (res : ChunkResult) (u : Requests ι δ) : Prop where
  others : ∀ q, q ≠ r → u.request q = s.request q
  slots : (u.levels levelNpr).slotRequest =
    Function.update (s.levels levelNpr).slotRequest (s.request r).prioritySlot none
  record : ∃ complete signalled, u.request r = retire (s.request r) res complete signalled

theorem requestActiveComplete_retired {r : ι} {res : ChunkResult} {signal : Bool}
    (hactive : (s.levels levelNpr).active = some r)
    (h : ((s.modifyRequest r (recordChunk · res)).modifyRequest r
      ({ · with success := res.ready })).requestActiveComplete levelNpr signal = some u) :
    s.Scheduled r ∧ Retired s r res u := by
  generalize hc : (s.modifyRequest r (recordChunk · res)).modifyRequest r
    ({ · with success := res.ready }) = c at h
  have hself : c.request r = { recordChunk (s.request r) res with success := res.ready } := by
    rw [← hc, modifyRequest_self, modifyRequest_self]
  have hothers : ∀ q, q ≠ r → c.request q = s.request q := fun q hne => by
    rw [← hc, modifyRequest_ne _ _ hne, modifyRequest_ne _ _ hne]
  have hlevels : c.levels = s.levels := by rw [← hc]; rfl
  have hslot : (c.request r).prioritySlot = (s.request r).prioritySlot := by
    rw [hself]
    rfl
  unfold requestActiveComplete at h
  rw [hlevels, hactive] at h
  dsimp only at h
  rw [hslot] at h
  generalize hd : (c.modifyRequest r ({ · with executingOnPru := false })).modifyLevel levelNpr
    (fun l => { l.clearSlot (s.request r).prioritySlot with active := none }) = d at h
  have hdself : d.request r = { c.request r with executingOnPru := false } := by
    rw [← hd]
    exact modifyRequest_self c r ({ · with executingOnPru := false })
  have hdothers : ∀ q, q ≠ r → d.request q = c.request q := fun q hne => by
    rw [← hd]
    exact modifyRequest_ne c ({ · with executingOnPru := false }) hne
  have hdslots : (d.levels levelNpr).slotRequest =
      Function.update (s.levels levelNpr).slotRequest (s.request r).prioritySlot none := by
    rw [← hd, levels_modifyLevel_self, ← hlevels]
    rfl
  have hrecord : d.request r = retire (s.request r) res (s.request r).complete
      (s.request r).signalled := by
    rw [hdself, hself]
    rfl
  split_ifs at h with hscheduled hsignal
  · -- The waiter is told, which leaves the rest alone.
    obtain rfl := Option.some.inj h
    refine ⟨not_not.mp hscheduled, fun q hne => ?_, hdslots, true, true, ?_⟩
    · rw [modifyRequest_ne _ _ hne, hdothers q hne, hothers q hne]
    · rw [modifyRequest_self, hrecord]
      rfl
  · obtain rfl := Option.some.inj h
    exact ⟨not_not.mp hscheduled,
      ⟨fun q hne => (hdothers q hne).trans (hothers q hne), hdslots, _, _, hrecord⟩⟩

/-- `worker_device_dma_chunk_complete_event`: more is to come, or the request is done. -/
theorem workerDmaChunkComplete_cases {res : ChunkResult}
    (h : s.workerDmaChunkComplete res = some t) :
    ∃ r, (s.levels levelNpr).active = some r ∧
      (res.ready = true ∧
          (s.request r).wordcountCompletedChunks + res.wordcount ≠ (s.request r).wordcount ∧
          HandedOver (s.requeue r res) t ∨
        (res.ready = true →
          (s.request r).wordcountCompletedChunks + res.wordcount = (s.request r).wordcount) ∧
          s.Scheduled r ∧ ∃ u, Retired s r res u ∧ HandedOver u t) := by
  obtain ⟨r, hactive, h⟩ := Option.bind_eq_some_iff.mp h
  refine ⟨r, hactive, ?_⟩
  dsimp only at h
  split_ifs at h with hassert hmore hcpu
  · refine .inl ⟨hmore.1, hmore.2, ?_⟩
    obtain ⟨b, hb, ht⟩ := Option.bind_eq_some_iff.mp h
    obtain ⟨hrequest, hslots⟩ := requestActivateLowestSlot_same hb
    refine .of_activated hrequest hslots ?_
    cases hnext : (b.levels levelNpr).active with
    | none =>
      rw [requestExecuteActiveOnPru, hnext] at ht
      cases ht
    | some q => exact requestExecuteActiveOnPru_handedOver hnext ht
  · refine .inr ⟨fun hready => ?_, ?_⟩
    · by_contra hne
      exact hmore ⟨hready, hne⟩
    · obtain ⟨u, hu, hnext⟩ := Option.bind_eq_some_iff.mp h
      obtain ⟨hscheduled, hretired⟩ := requestActiveComplete_retired hactive hu
      exact ⟨hscheduled, u, hretired, activateNext_handedOver hnext⟩

theorem requeue_self (s : Requests ι δ) (r : ι) (res : ChunkResult) :
    (s.requeue r res).request r =
      { recordChunk (s.request r) res with chunkQunibusStartAddr := res.curAddr + 2 } := by
  rw [requeue, modifyLevel_request, modifyRequest_self, modifyRequest_self]

theorem requeue_ne (s : Requests ι δ) {r q : ι} (res : ChunkResult) (h : q ≠ r) :
    (s.requeue r res).request q = s.request q := by
  rw [requeue, modifyLevel_request, modifyRequest_ne _ _ h, modifyRequest_ne _ _ h]

theorem requeue_slotRequest (s : Requests ι δ) (r : ι) (res : ChunkResult) :
    ((s.requeue r res).levels levelNpr).slotRequest = (s.levels levelNpr).slotRequest := by
  rw [requeue, levels_modifyLevel_self]
  rfl

end Requests

end QUniBone.QUnibusAdapter
