import QUniBone.Lib.Transition
import QUniBone.PruU.MainLoop

/-!
# Commands through the mailbox

ARM threads store the parameters of a command into the mailbox and call `mailbox_execute`, which
hands over one request word under a mutex and waits for the PRU. The parameters are stored before
the mutex is taken, and the answer is read after it is given back.

* `Parameters`: what the threads store, by areas. Several commands share the union.
* `Threads`: the threads, the mutex and the PRU, which samples a request, executes it and clears it.
* `Careful`: no two threads use an area at the same time, and no call gives up on a request which
  the PRU has already sampled.
* `accepted_executed`: then calls are executed one after the other, as if each was made alone.
-/

namespace QUniBone.PruU

/-! ## Parameters -/

/-- The union at the end of `mailbox_t`. -/
structure MailboxUnion where
  dword0 : UInt
  dword1 : UInt
  dword2 : UInt

namespace MailboxUnion

/-- `mailbox->param` -/
def param (u : MailboxUnion) : UInt := u.dword0

/-- `mailbox->buslatch` -/
def buslatch (u : MailboxUnion) : MailboxBuslatch := ⟨u.dword0, u.dword1, u.dword2⟩

/-- `mailbox->initializationsignal`, two halves of a word -/
def initializationsignal (u : MailboxUnion) : MailboxInitializationsignal :=
  ⟨u.dword0.setWidth 16, (u.dword0 >>> 16).setWidth 16⟩

end MailboxUnion

/-- What the threads store for the commands. -/
structure Parameters where
  union : MailboxUnion
  intr : MailboxIntr
  dma : MailboxDma
  addressOverlay : UInt

/-- Parts of the mailbox that a command can have its parameters in. -/
inductive Area
  | union
  | intr
  | dma
  | addressOverlay

/-- Where a command has its parameters and its answer, if there are any. -/
def Arm2Pru.area : Arm2Pru → Option Area
  | .none | .nop | .arbModeNone | .arbModeClient | .arbGrantIntrRequests => Option.none
  | .dma => some .dma
  | .intr | .intrCancel => some .intr
  | .addressOverlay => some .addressOverlay
  | .initalizationsignalSet | .cpuEnable | .buslatchSet | .buslatchGet => some .union

/-- What stands in an area. -/
inductive Contents
  | none
  | union (u : MailboxUnion)
  | intr (intr : MailboxIntr)
  | dma (dma : MailboxDma)
  | addressOverlay (overlay : UInt)

def Parameters.contents (p : Parameters) : Option Area → Contents
  | none => .none
  | some .union => .union p.union
  | some .intr => .intr p.intr
  | some .dma => .dma p.dma
  | some .addressOverlay => .addressOverlay p.addressOverlay

/-- An assignment to a member of the mailbox. -/
inductive Store
  | param (val : UInt)
  | initializationsignalId (val : Word)
  | initializationsignalVal (val : Word)
  | buslatchAddr (val : UInt)
  | buslatchBitmask (val : UInt)
  | buslatchVal (val : UInt)
  | intrPriorityArbitrationBit (val : Byte)
  | intrLevelIndex (val : Byte)
  | intrVector (level : ℕ) (val : Word)
  | intrIopageRegister (handle : Handle)
  | intrIopageRegisterValue (val : Word)
  | dmaStartaddr (val : UInt)
  | dmaBuscycle (val : Byte)
  | dmaWordcount (val : Word)
  | dmaCpuAccess (val : Bool)
  | dmaWords (i : ℕ) (val : Word)
  | dmaCurStatus (val : Byte)
  | addressOverlay (val : UInt)

namespace Store

def area : Store → Area
  | .param _ | .initializationsignalId _ | .initializationsignalVal _ | .buslatchAddr _
  | .buslatchBitmask _ | .buslatchVal _ => .union
  | .intrPriorityArbitrationBit _ | .intrLevelIndex _ | .intrVector _ _ | .intrIopageRegister _
  | .intrIopageRegisterValue _ => .intr
  | .dmaStartaddr _ | .dmaBuscycle _ | .dmaWordcount _ | .dmaCpuAccess _ | .dmaWords _ _
  | .dmaCurStatus _ => .dma
  | .addressOverlay _ => .addressOverlay

/-- The first word of the union, of which a half is replaced. -/
def lowHalf (old : UInt) (val : Word) : UInt := (old &&& 0xffff0000) ||| val.setWidth 32

def highHalf (old : UInt) (val : Word) : UInt := (old &&& 0xffff) ||| (val.setWidth 32 <<< 16)

def write (p : Parameters) : Store → Parameters
  | .param val => { p with union := { p.union with dword0 := val } }
  | .initializationsignalId val =>
    { p with union := { p.union with dword0 := lowHalf p.union.dword0 val } }
  | .initializationsignalVal val =>
    { p with union := { p.union with dword0 := highHalf p.union.dword0 val } }
  | .buslatchAddr val => { p with union := { p.union with dword0 := val } }
  | .buslatchBitmask val => { p with union := { p.union with dword1 := val } }
  | .buslatchVal val => { p with union := { p.union with dword2 := val } }
  | .intrPriorityArbitrationBit val =>
    { p with intr := { p.intr with priorityArbitrationBit := val } }
  | .intrLevelIndex val => { p with intr := { p.intr with levelIndex := val } }
  | .intrVector level val =>
    { p with intr := { p.intr with vector := Function.update p.intr.vector level val } }
  | .intrIopageRegister handle => { p with intr := { p.intr with iopageRegisterHandle := handle } }
  | .intrIopageRegisterValue val => { p with intr := { p.intr with iopageRegisterValue := val } }
  | .dmaStartaddr val => { p with dma := { p.dma with startaddr := val } }
  | .dmaBuscycle val => { p with dma := { p.dma with buscycle := val } }
  | .dmaWordcount val => { p with dma := { p.dma with wordcount := val } }
  | .dmaCpuAccess val => { p with dma := { p.dma with cpuAccess := val } }
  | .dmaWords i val => { p with dma := { p.dma with words := Function.update p.dma.words i val } }
  | .dmaCurStatus val => { p with dma := { p.dma with curStatus := val } }
  | .addressOverlay val => { p with addressOverlay := val }

end Store

/-- A command, and the stores a thread makes for it before it calls `mailbox_execute`. -/
structure Call where
  request : Arm2Pru
  stores : List Store
  isRequest : request ≠ .none
  inArea : ∀ st ∈ stores, request.area = some st.area

/-! ## The PRU -/

/-- The PRU with the mailbox as it finds it. -/
def Pru.finding (s : Pru) (request : Arm2Pru) (p : Parameters) : Pru :=
  { s with mailbox := { s.mailbox with
    arm2pruReq := request
    intr := p.intr
    dma := p.dma
    addressOverlay := p.addressOverlay
    buslatch := p.union.buslatch
    initializationsignal := p.union.initializationsignal
    param := p.union.param } }

/-- The mailbox as a command leaves it. In the union the value of a latch is all that a command
writes. -/
def Parameters.leftBy (p : Parameters) (s : Pru) : Parameters where
  union := { p.union with dword2 := s.mailbox.buslatch.val }
  intr := s.mailbox.intr
  dma := s.mailbox.dma
  addressOverlay := s.mailbox.addressOverlay

/-- The PRU in its `switch` over `arm2pru_req_cached`. -/
inductive Service
  | polling
  | sampled (request : Arm2Pru)
  /-- before `arm2pru_req` is cleared -/
  | executed (request : Arm2Pru)

/-! ## Threads -/

/-- What a thread is about to do. `filled` is what its stores alone make of the parameters. -/
inductive Stage
  | idle
  | filling (c : Call) (todo : List Store) (filled : Parameters)
  /-- It has the mutex and waits for the end of the request before. -/
  | waiting (c : Call) (filled : Parameters)
  | posted (c : Call) (filled : Parameters)
  /-- `mailbox_execute` has returned, the answer is not read yet. -/
  | returned (c : Call) (found : Parameters) (ok : Bool)

namespace Stage

def area : Stage → Option Area
  | .idle => none
  | .filling c _ _ | .waiting c _ | .posted c _ | .returned c _ _ => c.request.area

def isLocked : Stage → Bool
  | .waiting _ _ | .posted _ _ => true
  | _ => false

def isPosted : Stage → Bool
  | .posted _ _ => true
  | _ => false

end Stage

/-- A command that was executed or accepted, with the contents of its area before and after. -/
structure Entry where
  request : Arm2Pru
  filled : Contents
  found : Contents

structure Threads (τ : Type) where
  parameters : Parameters
  arm2pruReq : Arm2Pru
  /-- `arm2pru_mutex` -/
  mutex : Option τ
  stage : τ → Stage
  pru : Pru
  service : Service
  /-- the commands that the PRU has executed -/
  executions : List Entry
  /-- the calls that returned true -/
  accepted : List Entry

/-- What a thread or the PRU does next. -/
inductive Action (τ : Type)
  | start (t : τ) (c : Call)
  | store (t : τ)
  | lock (t : τ)
  /-- "PRU busy with request" -/
  | busy (t : τ)
  | post (t : τ)
  | acked (t : τ)
  /-- "PRU did not ACK" -/
  | unacked (t : τ)
  | finish (t : τ)
  | sample
  | execute (l : Lines)
  | acknowledge
  /-- The rest of the main loop. A running DMA writes status, address and words. -/
  | loop (p : Parameters) (pru : Pru)

namespace Threads

variable {τ : Type} [DecidableEq τ]

def setStage (s : Threads τ) (t : τ) (st : Stage) : Threads τ :=
  { s with stage := Function.update s.stage t st }

/-- The step of an action, if it can be taken. -/
def step (s : Threads τ) : Action τ → Option (Threads τ)
  | .start t c =>
    match s.stage t with
    | .idle => some (s.setStage t (.filling c c.stores (c.stores.foldl Store.write s.parameters)))
    | _ => none
  | .store t =>
    match s.stage t with
    | .filling c (st :: todo) filled =>
      some ({ s with parameters := st.write s.parameters }.setStage t (.filling c todo filled))
    | _ => none
  | .lock t =>
    match s.stage t, s.mutex with
    | .filling c [] filled, none => some ({ s with mutex := some t }.setStage t (.waiting c filled))
    | _, _ => none
  | .busy t =>
    match s.stage t with
    | .waiting c filled =>
      if s.arm2pruReq = .none then none
      else some ({ s with mutex := none }.setStage t (.returned c filled false))
    | _ => none
  | .post t =>
    match s.stage t with
    | .waiting c filled =>
      if s.arm2pruReq = .none then
        some ({ s with arm2pruReq := c.request }.setStage t (.posted c filled))
      else none
    | _ => none
  | .acked t =>
    match s.stage t with
    | .posted c filled =>
      if s.arm2pruReq = c.request then none
      else if s.arm2pruReq = .none then
        some ({ s with
          mutex := none
          accepted := s.accepted ++ [Entry.mk c.request (filled.contents c.request.area)
            (s.parameters.contents c.request.area)] }.setStage t (.returned c s.parameters true))
      else some ({ s with mutex := none }.setStage t (.returned c s.parameters false))
    | _ => none
  | .unacked t =>
    match s.stage t with
    | .posted c filled =>
      if s.arm2pruReq = c.request then
        some ({ s with mutex := none, arm2pruReq := .none }.setStage t (.returned c filled false))
      else none
    | _ => none
  | .finish t =>
    match s.stage t with
    | .returned _ _ _ => some (s.setStage t .idle)
    | _ => none
  | .sample =>
    match s.service with
    | .polling =>
      if s.arm2pruReq = .none then none else some { s with service := .sampled s.arm2pruReq }
    | _ => none
  | .execute l =>
    match s.service with
    | .sampled request =>
      let pru := (s.pru.finding request s.parameters).arm2pru l
      let p := s.parameters.leftBy pru
      some { s with
        pru := pru
        parameters := p
        service := .executed request
        executions := s.executions ++ [Entry.mk request (s.parameters.contents request.area)
          (p.contents request.area)] }
    | _ => none
  | .acknowledge =>
    match s.service with
    | .executed _ => some { s with service := .polling, arm2pruReq := .none }
    | _ => none
  | .loop p pru => some { s with parameters := p, pru := pru }

/-- Nobody else uses the area of a call. A call gives up only while the PRU has not sampled its
request. The PRU itself writes only where nobody has a call. -/
def Careful (s : Threads τ) : Action τ → Prop
  | .start _ c => c.request.area ≠ none → ∀ u, (s.stage u).area ≠ c.request.area
  | .unacked _ => s.service = .polling
  | .loop p _ => ∀ t, p.contents (s.stage t).area = s.parameters.contents (s.stage t).area
  | _ => True

/-- Before the first call. -/
structure Started (s : Threads τ) : Prop where
  stage : ∀ t, s.stage t = .idle
  mutex : s.mutex = none
  arm2pruReq : s.arm2pruReq = .none
  service : s.service = .polling
  executions : s.executions = []
  accepted : s.accepted = []

end Threads

/-! ## Areas apart -/

theorem Store.write_contents_ne {p : Parameters} {st : Store} {a : Area} (h : a ≠ st.area) :
    (st.write p).contents (some a) = p.contents (some a) := by
  cases st <;> cases a <;> first | rfl | exact absurd rfl h

theorem Store.write_contents_congr {p q : Parameters} (st : Store)
    (h : p.contents (some st.area) = q.contents (some st.area)) :
    (st.write p).contents (some st.area) = (st.write q).contents (some st.area) := by
  cases st <;> simp only [area, Parameters.contents, Contents.union.injEq, Contents.intr.injEq,
    Contents.dma.injEq, Contents.addressOverlay.injEq] at h ⊢ <;> simp only [write, h]

/-- The stores of a call make the same of the same contents. -/
theorem foldl_contents_congr {p q : Parameters} {area : Option Area} (todo : List Store)
    (hin : ∀ st ∈ todo, area = some st.area) (h : p.contents area = q.contents area) :
    (todo.foldl Store.write p).contents area = (todo.foldl Store.write q).contents area := by
  induction todo generalizing p q with
  | nil => exact h
  | cons st todo ih =>
    refine ih (fun x hx => hin x (List.mem_cons_of_mem _ hx)) ?_
    rw [hin st List.mem_cons_self] at h ⊢
    exact st.write_contents_congr h

/-- A command leaves the areas of the other commands alone. -/
theorem Pru.arm2pru_mailbox (l : Lines) (s : Pru) :
    (s.arm2pru l).mailbox.intr = s.mailbox.intr ∧ (s.arm2pru l).mailbox.dma = s.mailbox.dma ∧
      (s.arm2pru l).mailbox.addressOverlay = s.mailbox.addressOverlay ∧
      (s.mailbox.arm2pruReq.area ≠ some .union →
        (s.arm2pru l).mailbox.buslatch = s.mailbox.buslatch) := by
  unfold arm2pru
  cases hreq : s.mailbox.arm2pruReq with
  | intr =>
    unfold arm2pruIntr
    dsimp only
    split_ifs <;> exact ⟨rfl, rfl, rfl, fun _ => rfl⟩
  | arbGrantIntrRequests =>
    dsimp only
    split_ifs <;> exact ⟨rfl, rfl, rfl, fun _ => rfl⟩
  | initalizationsignalSet =>
    unfold arm2pruInitalizationsignalSet
    dsimp only
    split_ifs <;> exact ⟨rfl, rfl, rfl, fun _ => rfl⟩
  | cpuEnable =>
    unfold arm2pruCpuEnable
    dsimp only
    split_ifs <;> exact ⟨rfl, rfl, rfl, fun _ => rfl⟩
  | buslatchSet => exact ⟨rfl, rfl, rfl, fun h => absurd rfl h⟩
  | buslatchGet => exact ⟨rfl, rfl, rfl, fun h => absurd rfl h⟩
  | _ => exact ⟨rfl, rfl, rfl, fun _ => rfl⟩

theorem Parameters.leftBy_contents_ne (s : Pru) (l : Lines) {p : Parameters} {request : Arm2Pru}
    {a : Area} (h : request.area ≠ some a) :
    (p.leftBy ((s.finding request p).arm2pru l)).contents (some a) = p.contents (some a) := by
  obtain ⟨hintr, hdma, hoverlay, hbuslatch⟩ := Pru.arm2pru_mailbox l (s.finding request p)
  cases a with
  | union =>
    have hval : ((s.finding request p).arm2pru l).mailbox.buslatch.val = p.union.dword2 :=
      congrArg MailboxBuslatch.val (hbuslatch h)
    simp only [contents, leftBy, hval]
  | intr => exact congrArg Contents.intr hintr
  | dma => exact congrArg Contents.dma hdma
  | addressOverlay => exact congrArg Contents.addressOverlay hoverlay

/-! ## The invariant -/

/-- What a thread that uses an area relies on. -/
def Stage.Expects (p : Parameters) : Stage → Prop
  | .filling c todo filled => (∀ st ∈ todo, c.request.area = some st.area) ∧
      (todo.foldl Store.write p).contents c.request.area = filled.contents c.request.area
  | .waiting c filled => p.contents c.request.area = filled.contents c.request.area
  | .returned c found _ => p.contents c.request.area = found.contents c.request.area
  | .idle | .posted _ _ => True

theorem Stage.Expects.congr {p q : Parameters} {st : Stage} (hp : st.Expects p)
    (h : q.contents st.area = p.contents st.area) : st.Expects q := by
  cases st with
  | filling c todo filled => exact ⟨hp.1, (foldl_contents_congr todo hp.1 h).trans hp.2⟩
  | waiting c filled => exact h.trans hp
  | returned c found ok => exact h.trans hp
  | idle => trivial
  | posted c filled => trivial

namespace Threads

variable {τ : Type} [DecidableEq τ] {s : Threads τ} {t : τ} {c : Call} {filled : Parameters}

/-- How far the request in the mailbox is. -/
inductive Flight (s : Threads τ) : Prop
  | free (hposted : ∀ t c filled, s.stage t ≠ .posted c filled) (hreq : s.arm2pruReq = .none)
      (hservice : s.service = .polling) (hlog : s.executions = s.accepted)
  | pending (t : τ) (c : Call) (filled : Parameters) (hstage : s.stage t = .posted c filled)
      (hreq : s.arm2pruReq = c.request)
      (hservice : s.service = .polling ∨ s.service = .sampled c.request)
      (hcontents : s.parameters.contents c.request.area = filled.contents c.request.area)
      (hlog : s.executions = s.accepted)
  | served (t : τ) (c : Call) (filled : Parameters) (hstage : s.stage t = .posted c filled)
      (hservice : s.service = .executed c.request ∧ s.arm2pruReq = c.request ∨
        s.service = .polling ∧ s.arm2pruReq = .none)
      (hlog : s.executions = s.accepted ++ [Entry.mk c.request
        (filled.contents c.request.area) (s.parameters.contents c.request.area)])

structure Inv (s : Threads τ) : Prop where
  apart : ∀ t u, (s.stage t).area ≠ none → (s.stage t).area = (s.stage u).area → t = u
  expects : ∀ t, (s.stage t).Expects s.parameters
  mutex : ∀ t, s.mutex = some t ↔ (s.stage t).isLocked = true
  flight : Flight s

omit [DecidableEq τ] in
theorem Started.inv (hs : s.Started) : s.Inv := by
  constructor
  case apart => intro t u ht _; rw [hs.stage t] at ht; exact absurd rfl ht
  case expects => intro t; rw [hs.stage t]; trivial
  case mutex => intro t; rw [hs.stage t, hs.mutex]; exact ⟨nofun, nofun⟩
  case flight =>
    refine .free (fun t c filled h => ?_) hs.arm2pruReq hs.service
      (hs.executions.trans hs.accepted.symm)
    rw [hs.stage t] at h
    cases h

/-! ### One thread moves -/

theorem apart_update (h : s.Inv) {st : Stage}
    (hst : st.area ≠ none → st.area = (s.stage t).area ∨ ∀ u, (s.stage u).area ≠ st.area) (u v : τ) :
    (Function.update s.stage t st u).area ≠ none →
      (Function.update s.stage t st u).area = (Function.update s.stage t st v).area → u = v := by
  intro hu huv
  by_cases hut : u = t
  · by_cases hvt : v = t
    · rw [hut, hvt]
    · subst hut
      rw [Function.update_self] at hu huv
      rw [Function.update_of_ne hvt] at huv
      obtain hold | hnew := hst hu
      · exact h.apart u v (hold ▸ hu) (hold ▸ huv)
      · exact absurd huv.symm (hnew v)
  · rw [Function.update_of_ne hut] at hu huv
    by_cases hvt : v = t
    · subst hvt
      rw [Function.update_self] at huv
      obtain hold | hnew := hst (huv ▸ hu)
      · exact h.apart u v hu (huv.trans hold)
      · exact absurd huv (hnew u)
    · rw [Function.update_of_ne hvt] at huv
      exact h.apart u v hu huv

theorem expects_update {p : Parameters} {st : Stage} (hst : st.Expects p)
    (h : ∀ u, u ≠ t → (s.stage u).Expects p) (u : τ) :
    (Function.update s.stage t st u).Expects p := by
  by_cases hut : u = t
  · rw [hut, Function.update_self]
    exact hst
  · rw [Function.update_of_ne hut]
    exact h u hut

theorem mutex_keep (h : s.Inv) {st : Stage} (hst : st.isLocked = (s.stage t).isLocked) (u : τ) :
    s.mutex = some u ↔ (Function.update s.stage t st u).isLocked = true := by
  by_cases hut : u = t
  · rw [hut, Function.update_self, hst]
    exact h.mutex t
  · rw [Function.update_of_ne hut]
    exact h.mutex u

theorem mutex_take (h : s.Inv) (hfree : s.mutex = none) {st : Stage} (hst : st.isLocked = true)
    (u : τ) : some t = some u ↔ (Function.update s.stage t st u).isLocked = true := by
  by_cases hut : u = t
  · rw [hut, Function.update_self]
    exact ⟨fun _ => hst, fun _ => rfl⟩
  · rw [Function.update_of_ne hut, ← h.mutex u, hfree]
    exact ⟨fun heq => absurd (Option.some.inj heq).symm hut, nofun⟩

theorem mutex_give (h : s.Inv) (hlocked : (s.stage t).isLocked = true) {st : Stage}
    (hst : st.isLocked = false) (u : τ) :
    (none : Option τ) = some u ↔ (Function.update s.stage t st u).isLocked = true := by
  by_cases hut : u = t
  · rw [hut, Function.update_self, hst]
    exact ⟨nofun, nofun⟩
  · rw [Function.update_of_ne hut, ← h.mutex u, (h.mutex t).mpr hlocked]
    exact ⟨nofun, fun heq => absurd (Option.some.inj heq).symm hut⟩

omit [DecidableEq τ] in
/-- Only the thread that has the mutex waits for the PRU. -/
theorem Inv.posted_eq (h : s.Inv) {u : τ} {c' : Call} {filled' : Parameters}
    (hu : s.stage u = .posted c' filled') (ht : (s.stage t).isLocked = true) : u = t := by
  have hmutex := (h.mutex u).mpr (by rw [hu]; rfl)
  exact Option.some.inj (hmutex.symm.trans ((h.mutex t).mpr ht))

/-- Nobody waits for the PRU when the thread that has the mutex does not. -/
theorem Inv.not_posted (h : s.Inv) (ht : (s.stage t).isLocked = true) {st : Stage}
    (hst : st.isPosted = false) (u : τ) (c : Call) (filled : Parameters) :
    Function.update s.stage t st u ≠ .posted c filled := by
  intro hu
  by_cases hut : u = t
  · rw [hut, Function.update_self] at hu
    rw [hu] at hst
    cases hst
  · rw [Function.update_of_ne hut] at hu
    exact hut (h.posted_eq hu ht)

omit [DecidableEq τ] in
/-- A thread that has the mutex and has not posted anything finds no other request. -/
theorem Inv.free_of_waiting (h : s.Inv) (ht : s.stage t = .waiting c filled) :
    s.arm2pruReq = .none ∧ s.service = .polling ∧ s.executions = s.accepted := by
  have hlocked : (s.stage t).isLocked = true := by rw [ht]; rfl
  cases h.flight with
  | free hposted hreq hservice hlog => exact ⟨hreq, hservice, hlog⟩
  | pending u c' filled' hstage =>
    have hut := h.posted_eq hstage hlocked
    rw [hut, ht] at hstage
    cases hstage
  | served u c' filled' hstage =>
    have hut := h.posted_eq hstage hlocked
    rw [hut, ht] at hstage
    cases hstage

omit [DecidableEq τ] in
/-- The flight of a request as long as its thread does not move. -/
theorem Flight.congr {s' : Threads τ} (h : s.Flight)
    (hposted : ∀ u c filled, s'.stage u = .posted c filled ↔ s.stage u = .posted c filled)
    (hreq : s'.arm2pruReq = s.arm2pruReq) (hservice : s'.service = s.service)
    (hexecutions : s'.executions = s.executions) (haccepted : s'.accepted = s.accepted)
    (hcontents : ∀ u c filled, s.stage u = .posted c filled →
      s'.parameters.contents c.request.area = s.parameters.contents c.request.area) :
    s'.Flight := by
  cases h with
  | free hnone hr hs hlog =>
    refine .free (fun u c filled hu => hnone u c filled ((hposted u c filled).mp hu))
      (hreq.trans hr) (hservice.trans hs) ?_
    rw [hexecutions, haccepted, hlog]
  | pending u c filled hu hr hs hc hlog =>
    refine .pending u c filled ((hposted u c filled).mpr hu) (hreq.trans hr) ?_
      ((hcontents u c filled hu).trans hc) ?_
    · rw [hservice]
      exact hs
    · rw [hexecutions, haccepted, hlog]
  | served u c filled hu hs hlog =>
    refine .served u c filled ((hposted u c filled).mpr hu) ?_ ?_
    · rw [hservice, hreq]
      exact hs
    · rw [hexecutions, haccepted, hcontents u c filled hu, hlog]

theorem posted_update {st : Stage} (ht : (s.stage t).isPosted = false)
    (hst : st.isPosted = false) (u : τ) (c : Call) (filled : Parameters) :
    Function.update s.stage t st u = .posted c filled ↔ s.stage u = .posted c filled := by
  by_cases hut : u = t
  · rw [hut, Function.update_self]
    constructor
    · intro h
      rw [h] at hst
      cases hst
    · intro h
      rw [h] at ht
      cases ht
  · rw [Function.update_of_ne hut]

/-! ### The steps -/

/-- The flight when a thread that has posted nothing moves. -/
theorem Flight.of_move {st : Stage} {s' : Threads τ} (h : s.Flight)
    (ht : (s.stage t).isPosted = false) (hst : st.isPosted = false)
    (hstage : s'.stage = Function.update s.stage t st) (hreq : s'.arm2pruReq = s.arm2pruReq)
    (hservice : s'.service = s.service) (hexecutions : s'.executions = s.executions)
    (haccepted : s'.accepted = s.accepted)
    (hcontents : ∀ u c filled, s.stage u = .posted c filled →
      s'.parameters.contents c.request.area = s.parameters.contents c.request.area) :
    s'.Flight := by
  refine h.congr (fun u c filled => ?_) hreq hservice hexecutions haccepted hcontents
  rw [hstage]
  exact posted_update ht hst u c filled

theorem Inv.start (h : s.Inv) (ht : s.stage t = .idle)
    (hc : c.request.area ≠ none → ∀ u, (s.stage u).area ≠ c.request.area) :
    (s.setStage t (.filling c c.stores (c.stores.foldl Store.write s.parameters))).Inv := by
  constructor
  case apart => exact apart_update h fun hst => .inr (hc hst)
  case expects => exact expects_update ⟨c.inArea, rfl⟩ fun u _ => h.expects u
  case mutex => exact mutex_keep h (by rw [ht]; rfl)
  case flight =>
    exact h.flight.of_move (t := t) (by rw [ht]; rfl) rfl rfl rfl rfl rfl rfl
      fun _ _ _ _ => rfl

omit [DecidableEq τ] in
/-- Another thread uses another area than the one a thread writes to. -/
theorem Inv.contents_write (h : s.Inv) {st : Store} (ht : (s.stage t).area = some st.area) {u : τ}
    (hut : u ≠ t) : (st.write s.parameters).contents (s.stage u).area =
      s.parameters.contents (s.stage u).area := by
  cases hu : (s.stage u).area with
  | none => rfl
  | some a =>
    refine Store.write_contents_ne fun ha => hut ?_
    exact h.apart u t (by rw [hu]; nofun) (by rw [hu, ht, ha])

theorem Inv.store (h : s.Inv) {st : Store} {todo : List Store}
    (ht : s.stage t = .filling c (st :: todo) filled) :
    ({ s with parameters := st.write s.parameters }.setStage t (.filling c todo filled)).Inv := by
  have hexpects := h.expects t
  rw [ht] at hexpects
  obtain ⟨hin, hfill⟩ := hexpects
  have harea : (s.stage t).area = some st.area := by
    rw [ht]
    exact hin st List.mem_cons_self
  constructor
  case apart => exact apart_update h fun _ => .inl (by rw [ht]; rfl)
  case expects =>
    exact expects_update ⟨fun x hx => hin x (List.mem_cons_of_mem _ hx), hfill⟩
      fun u hut => (h.expects u).congr (h.contents_write harea hut)
  case mutex => exact mutex_keep h (by rw [ht]; rfl)
  case flight =>
    refine h.flight.of_move (t := t) (by rw [ht]; rfl) rfl rfl rfl rfl rfl rfl ?_
    intro u c' filled' hu
    have hut : u ≠ t := by
      rintro rfl
      rw [ht] at hu
      cases hu
    have hsame := h.contents_write harea hut
    rw [hu] at hsame
    exact hsame

theorem Inv.lock (h : s.Inv) (ht : s.stage t = .filling c [] filled) (hfree : s.mutex = none) :
    ({ s with mutex := some t }.setStage t (.waiting c filled)).Inv := by
  have hexpects := h.expects t
  rw [ht] at hexpects
  constructor
  case apart => exact apart_update h fun _ => .inl (by rw [ht]; rfl)
  case expects => exact expects_update hexpects.2 fun u _ => h.expects u
  case mutex => exact mutex_take h hfree rfl
  case flight =>
    exact h.flight.of_move (t := t) (by rw [ht]; rfl) rfl rfl rfl rfl rfl rfl
      fun _ _ _ _ => rfl

theorem Inv.post (h : s.Inv) (ht : s.stage t = .waiting c filled) :
    ({ s with arm2pruReq := c.request }.setStage t (.posted c filled)).Inv := by
  have hexpects := h.expects t
  rw [ht] at hexpects
  obtain ⟨-, hservice, hlog⟩ := h.free_of_waiting ht
  constructor
  case apart => exact apart_update h fun _ => .inl (by rw [ht]; rfl)
  case expects => exact expects_update trivial fun u _ => h.expects u
  case mutex => exact mutex_keep h (by rw [ht]; rfl)
  case flight =>
    exact .pending t c filled (Function.update_self _ _ _) rfl (.inl hservice) hexpects hlog

theorem Inv.acked (h : s.Inv) (ht : s.stage t = .posted c filled)
    (hreq : s.arm2pruReq ≠ c.request) :
    s.arm2pruReq = .none ∧ ({ s with
      mutex := none
      accepted := s.accepted ++ [Entry.mk c.request (filled.contents c.request.area)
        (s.parameters.contents c.request.area)] }.setStage t
          (.returned c s.parameters true)).Inv := by
  have hlocked : (s.stage t).isLocked = true := by rw [ht]; rfl
  cases h.flight with
  | free hposted => exact absurd ht (hposted t c filled)
  | pending u c' filled' hu hr =>
    -- the PRU has not cleared it
    obtain rfl := h.posted_eq hu hlocked
    rw [ht] at hu
    cases hu
    exact absurd hr hreq
  | served u c' filled' hu hservice hlog =>
    obtain rfl := h.posted_eq hu hlocked
    rw [ht] at hu
    cases hu
    obtain ⟨-, hr⟩ | ⟨hservice, hr⟩ := hservice
    · exact absurd hr hreq
    refine ⟨hr, ?_⟩
    constructor
    case apart => exact apart_update h fun _ => .inl (by rw [ht]; rfl)
    case expects => exact expects_update rfl fun v _ => h.expects v
    case mutex => exact mutex_give h hlocked rfl
    case flight => exact .free (h.not_posted hlocked rfl) hr hservice hlog

/-- A request is withdrawn before the PRU has sampled it. -/
theorem Inv.unacked (h : s.Inv) (ht : s.stage t = .posted c filled)
    (hreq : s.arm2pruReq = c.request) (hservice : s.service = .polling) :
    ({ s with mutex := none, arm2pruReq := .none }.setStage t (.returned c filled false)).Inv := by
  have hlocked : (s.stage t).isLocked = true := by rw [ht]; rfl
  cases h.flight with
  | free hposted => exact absurd ht (hposted t c filled)
  | pending u c' filled' hu _ _ hcontents hlog =>
    obtain rfl := h.posted_eq hu hlocked
    rw [ht] at hu
    cases hu
    constructor
    case apart => exact apart_update h fun _ => .inl (by rw [ht]; rfl)
    case expects => exact expects_update hcontents fun v _ => h.expects v
    case mutex => exact mutex_give h hlocked rfl
    case flight => exact .free (h.not_posted hlocked rfl) rfl hservice hlog
  | served u c' filled' hu hserved =>
    obtain rfl := h.posted_eq hu hlocked
    rw [ht] at hu
    cases hu
    obtain ⟨hs, -⟩ | ⟨-, hr⟩ := hserved
    · rw [hservice] at hs
      cases hs
    · exact absurd (hreq.symm.trans hr) c.isRequest

theorem Inv.finish (h : s.Inv) {found : Parameters} {ok : Bool}
    (ht : s.stage t = .returned c found ok) : (s.setStage t .idle).Inv := by
  constructor
  case apart => exact apart_update h fun hst => absurd rfl hst
  case expects => exact expects_update trivial fun u _ => h.expects u
  case mutex => exact mutex_keep h (by rw [ht]; rfl)
  case flight =>
    exact h.flight.of_move (t := t) (by rw [ht]; rfl) rfl rfl rfl rfl rfl rfl
      fun _ _ _ _ => rfl

omit [DecidableEq τ] in
theorem Inv.sample (h : s.Inv) (hservice : s.service = .polling) (hreq : s.arm2pruReq ≠ .none) :
    ({ s with service := .sampled s.arm2pruReq } : Threads τ).Inv := by
  refine ⟨h.apart, h.expects, h.mutex, ?_⟩
  cases h.flight with
  | free _ hr => exact absurd hr hreq
  | pending u c filled hu hr _ hcontents hlog =>
    exact .pending u c filled hu hr (.inr (congrArg Service.sampled hr)) hcontents hlog
  | served u c filled hu hserved =>
    obtain ⟨hs, -⟩ | ⟨-, hr⟩ := hserved
    · rw [hservice] at hs
      cases hs
    · exact absurd hr hreq

omit [DecidableEq τ] in
theorem Inv.execute (h : s.Inv) (l : Lines) {request : Arm2Pru}
    (hservice : s.service = .sampled request) {pru : Pru} {p : Parameters}
    (hpru : pru = (s.pru.finding request s.parameters).arm2pru l) (hp : p = s.parameters.leftBy pru) :
    ({ s with
      pru := pru
      parameters := p
      service := .executed request
      executions := s.executions ++ [Entry.mk request (s.parameters.contents request.area)
        (p.contents request.area)] } : Threads τ).Inv := by
  cases h.flight with
  | free _ _ hs =>
    rw [hservice] at hs
    cases hs
  | served u c filled hu hserved =>
    obtain ⟨hs, -⟩ | ⟨hs, -⟩ := hserved
    all_goals
      rw [hservice] at hs
      cases hs
  | pending u c filled hu hr hs hcontents hlog =>
    obtain hs | hs := hs
    · rw [hservice] at hs
      cases hs
    · rw [hservice] at hs
      obtain rfl := Service.sampled.inj hs
      refine ⟨h.apart, fun v => ?_, h.mutex, ?_⟩
      · -- The others use other areas.
        by_cases hvu : v = u
        · rw [hvu, hu]
          trivial
        · refine (h.expects v).congr ?_
          cases hv : (s.stage v).area with
          | none => rfl
          | some a =>
            rw [hp, hpru]
            refine Parameters.leftBy_contents_ne s.pru l fun ha => hvu ?_
            exact h.apart v u (by rw [hv]; nofun) (by rw [hv, hu]; exact ha.symm)
      · refine .served u c filled hu (.inl ⟨rfl, hr⟩) ?_
        rw [hlog, hcontents]

omit [DecidableEq τ] in
theorem Inv.acknowledge (h : s.Inv) {request : Arm2Pru} (hservice : s.service = .executed request) :
    ({ s with service := .polling, arm2pruReq := .none } : Threads τ).Inv := by
  refine ⟨h.apart, h.expects, h.mutex, ?_⟩
  cases h.flight with
  | free _ _ hs =>
    rw [hservice] at hs
    cases hs
  | pending u c filled hu _ hs =>
    rw [hservice] at hs
    obtain hs | hs := hs <;> cases hs
  | served u c filled hu _ hlog => exact .served u c filled hu (.inr ⟨rfl, rfl⟩) hlog

omit [DecidableEq τ] in
theorem Inv.loop (h : s.Inv) {p : Parameters}
    (hp : ∀ t, p.contents (s.stage t).area = s.parameters.contents (s.stage t).area) (pru : Pru) :
    ({ s with parameters := p, pru := pru } : Threads τ).Inv := by
  refine ⟨h.apart, fun t => (h.expects t).congr (hp t), h.mutex, ?_⟩
  refine h.flight.congr (fun _ _ _ => Iff.rfl) rfl rfl rfl rfl fun u c filled hu => ?_
  have hsame := hp u
  rw [hu] at hsame
  exact hsame

theorem Inv.step (h : s.Inv) {a : Action τ} {s' : Threads τ} (ha : s.Careful a)
    (hstep : s.step a = some s') : s'.Inv := by
  unfold Threads.step at hstep
  cases a with
  | start t c =>
    cases ht : s.stage t with
    | idle =>
      simp only [ht, Option.some.injEq] at hstep
      exact hstep ▸ h.start ht ha
    | _ => simp only [ht, reduceCtorEq] at hstep
  | store t =>
    cases ht : s.stage t with
    | filling c todo filled =>
      cases todo with
      | nil => simp only [ht, reduceCtorEq] at hstep
      | cons st todo =>
        simp only [ht, Option.some.injEq] at hstep
        exact hstep ▸ h.store ht
    | _ => simp only [ht, reduceCtorEq] at hstep
  | lock t =>
    cases ht : s.stage t with
    | filling c todo filled =>
      cases todo with
      | cons st todo => simp only [ht, reduceCtorEq] at hstep
      | nil =>
        cases hfree : s.mutex with
        | some u => simp only [ht, hfree, reduceCtorEq] at hstep
        | none =>
          simp only [ht, hfree, Option.some.injEq] at hstep
          exact hstep ▸ h.lock ht hfree
    | _ => simp only [ht, reduceCtorEq] at hstep
  | busy t =>
    cases ht : s.stage t with
    | waiting c filled =>
      -- There is no other request.
      simp only [ht, (h.free_of_waiting ht).1, if_true, reduceCtorEq] at hstep
    | _ => simp only [ht, reduceCtorEq] at hstep
  | post t =>
    cases ht : s.stage t with
    | waiting c filled =>
      simp only [ht, (h.free_of_waiting ht).1, if_true, Option.some.injEq] at hstep
      exact hstep ▸ h.post ht
    | _ => simp only [ht, reduceCtorEq] at hstep
  | acked t =>
    cases ht : s.stage t with
    | posted c filled =>
      simp only [ht] at hstep
      by_cases hreq : s.arm2pruReq = c.request
      · rw [if_pos hreq] at hstep
        cases hstep
      · obtain ⟨hnone, hinv⟩ := h.acked ht hreq
        rw [if_neg hreq, if_pos hnone] at hstep
        exact Option.some.inj hstep ▸ hinv
    | _ => simp only [ht, reduceCtorEq] at hstep
  | unacked t =>
    cases ht : s.stage t with
    | posted c filled =>
      simp only [ht] at hstep
      by_cases hreq : s.arm2pruReq = c.request
      · rw [if_pos hreq] at hstep
        exact Option.some.inj hstep ▸ h.unacked ht hreq ha
      · rw [if_neg hreq] at hstep
        cases hstep
    | _ => simp only [ht, reduceCtorEq] at hstep
  | finish t =>
    cases ht : s.stage t with
    | returned c found ok =>
      simp only [ht, Option.some.injEq] at hstep
      exact hstep ▸ h.finish ht
    | _ => simp only [ht, reduceCtorEq] at hstep
  | sample =>
    cases hservice : s.service with
    | polling =>
      simp only [hservice] at hstep
      by_cases hreq : s.arm2pruReq = .none
      · rw [if_pos hreq] at hstep
        cases hstep
      · rw [if_neg hreq] at hstep
        exact Option.some.inj hstep ▸ h.sample hservice hreq
    | _ => simp only [hservice, reduceCtorEq] at hstep
  | execute l =>
    cases hservice : s.service with
    | sampled request =>
      simp only [hservice, Option.some.injEq] at hstep
      exact hstep ▸ h.execute l hservice rfl rfl
    | _ => simp only [hservice, reduceCtorEq] at hstep
  | acknowledge =>
    cases hservice : s.service with
    | executed request =>
      simp only [hservice, Option.some.injEq] at hstep
      exact hstep ▸ h.acknowledge hservice
    | _ => simp only [hservice, reduceCtorEq] at hstep
  | loop p pru => exact Option.some.inj hstep ▸ h.loop ha pru

/-- In runs of careful steps the PRU has executed the commands that were accepted, in their order
and with what their callers had stored, and beside them at most the one which is waited for. So a
call that gave up is not executed later. Who was accepted finds the answer to his command until he
is done with it, and who has the mutex finds no request before his own. -/
theorem accepted_executed (h : Transition.Reachable Started
    (fun s t : Threads τ => ∃ a, s.Careful a ∧ s.step a = some t) s) :
    (s.executions = s.accepted ∨ ∃ (t : τ) (c : Call) (filled : Parameters) (found : Contents),
      s.stage t = .posted c filled ∧ s.executions = s.accepted ++
        [Entry.mk c.request (filled.contents c.request.area) found]) ∧
    (∀ t c found ok, s.stage t = .returned c found ok →
      s.parameters.contents c.request.area = found.contents c.request.area) ∧
    ∀ t c filled, s.stage t = .waiting c filled → s.arm2pruReq = .none := by
  have hinv : s.Inv := Transition.Reachable.invariant (fun _ hs => hs.inv)
    (fun _ _ hs hst => by
      obtain ⟨a, ha, hstep⟩ := hst
      exact hs.step ha hstep) h
  refine ⟨?_, ?_, fun t c filled ht => (hinv.free_of_waiting ht).1⟩
  · cases hinv.flight with
    | free _ _ _ hlog => exact .inl hlog
    | pending _ _ _ _ _ _ _ hlog => exact .inl hlog
    | served t c filled ht _ hlog => exact .inr ⟨t, c, filled, _, ht, hlog⟩
  · intro t c found ok ht
    have hexpects := hinv.expects t
    rw [ht] at hexpects
    exact hexpects

/-- Two threads without a call. -/
def quiet : Threads Bool where
  parameters := ⟨⟨0, 0, 0⟩, Pru.powerUp.mailbox.intr, Pru.powerUp.mailbox.dma, 0⟩
  arm2pruReq := .none
  mutex := none
  stage _ := .idle
  pru := Pru.powerUp
  service := .polling
  executions := []
  accepted := []

/-- `start()` of the CPU. -/
def cpuEnable : Call := ⟨.cpuEnable, [.param 1], nofun, by
  rintro st (_ | ⟨_, ⟨⟩⟩)
  rfl⟩

theorem accepted_executed_cpuEnable : ∃ s : Threads Bool, s.pru.emulateCpu = true ∧
    s.accepted.length = 1 ∧ ∀ t c filled, s.stage t = .waiting c filled → s.arm2pruReq = .none := by
  obtain ⟨s, hreached, hcpu, haccepted⟩ : ∃ s : Threads Bool, Transition.Reachable Started
      (fun s t : Threads Bool => ∃ a, s.Careful a ∧ s.step a = some t) s ∧
        s.pru.emulateCpu = true ∧ s.accepted.length = 1 := by
    have h0 : Transition.Reachable Started
        (fun s t : Threads Bool => ∃ a, s.Careful a ∧ s.step a = some t) quiet :=
      .init ⟨fun _ => rfl, rfl, rfl, rfl, rfl, rfl⟩
    have h1 := h0.step ⟨.start true cpuEnable, fun _ _ => nofun, rfl⟩
    have h2 := h1.step ⟨.store true, trivial, rfl⟩
    have h3 := h2.step ⟨.lock true, trivial, rfl⟩
    have h4 := h3.step ⟨.post true, trivial, rfl⟩
    have h5 := h4.step ⟨.sample, trivial, rfl⟩
    have h6 := h5.step ⟨.execute fun _ _ => 0, trivial, rfl⟩
    have h7 := h6.step ⟨.acknowledge, trivial, rfl⟩
    exact ⟨_, h7.step ⟨.acked true, trivial, rfl⟩, rfl, rfl⟩
  obtain ⟨-, -, hwaiting⟩ := accepted_executed hreached
  exact ⟨s, hcpu, haccepted, hwaiting⟩

end Threads

end QUniBone.PruU
