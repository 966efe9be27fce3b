import QUniBone.Adapter.IoPage
import QUniBone.Pru.Emulation
import Mathlib.Data.List.FinRange
import Mathlib.Logic.Function.Basic

/-!
# The request tables of the adapter

`qunibusadapter.cpp`, `priorityrequest.hpp`. For each of five priority levels there is a table
with one place for each backplane slot, a bit mask of the places in use, and the request that is
active on the PRU. DMA requests have the highest level, interrupt requests the four others.

All of this runs under `requests_mutex`. What a section writes into the mailbox is not kept here.

* `Request`, `PriorityRequestLevel`, `Requests`: the tables.
* `requestSchedule`, `requestActivateLowestSlot`, …: the functions on them. An assertion that
  fails is `none`.
* `dma`, `intr`, `cancelIntr`, `workerDmaChunkComplete`, `workerIntrComplete`, `workerReset`:
  the sections between lock and unlock.
-/

namespace QUniBone.QUnibusAdapter

/-- `PRIORITY_LEVEL_INDEX_*`: BR4 to BR7, then NPR. -/
abbrev Level := Fin 5

/-- `PRIORITY_LEVEL_INDEX_NPR` -/
def levelNpr : Level := 4

/-- The backplane slots, below `PRIORITY_SLOT_COUNT`. -/
abbrev Slot := Fin 32

/-- `PRU_MAX_DMA_WORDCOUNT` -/
def pruMaxDmaWordcount : ℕ := 8 * 512

/-- `priority_request_c` with the members of `dma_request_c` and `intr_request_c`. Which of the
two it is, shows its level. Devices are known by their identity. -/
structure Request (δ : Type) where
  device : Option δ
  levelIndex : Level
  prioritySlot : Slot
  executingOnPru : Bool
  complete : Bool
  /-- `complete_cond` has been signalled since the request was made -/
  signalled : Bool
  isCpuAccess : Bool
  success : Bool
  qunibusControl : Byte
  qunibusStartAddr : UInt
  qunibusEndAddr : UInt
  /-- the words at `buffer` -/
  buffer : ℕ → Word
  wordcount : ℕ
  chunkMaxWords : ℕ
  chunkQunibusStartAddr : UInt
  chunkWords : ℕ
  vector : Word
  interruptRegister : Option Handle
  interruptRegisterValue : Word

namespace Request

variable {δ : Type}

/-- `dynamic_cast<dma_request_c *>` -/
def isDma (r : Request δ) : Bool := r.levelIndex == levelNpr

/-- `wordcount_completed_chunks`, also the offset of `chunk_buffer_start`. -/
def wordcountCompletedChunks (r : Request δ) : ℕ :=
  (r.chunkQunibusStartAddr - r.qunibusStartAddr).toNat / 2

/-- `complete` is set and `complete_cond` signalled. -/
def signalComplete (r : Request δ) : Request δ := { r with complete := true, signalled := true }

/-- A request that is dropped. A device gets a DMA error. -/
def abandon (r : Request δ) : Request δ :=
  { r with executingOnPru := false, success := if r.isDma then false else r.success }

end Request

/-- `priority_request_level_c` -/
structure PriorityRequestLevel (ι : Type) where
  slotRequest : Slot → Option ι
  slotRequestMask : BitVec 32
  active : Option ι

namespace PriorityRequestLevel

variable {ι : Type}

def empty : PriorityRequestLevel ι := ⟨fun _ => none, 0, none⟩

/-- Clears a slot, and its bit. -/
def clearSlot (l : PriorityRequestLevel ι) (slot : Slot) : PriorityRequestLevel ι :=
  { l with
    slotRequest := Function.update l.slotRequest slot none
    slotRequestMask := l.slotRequestMask &&& ~~~(BitVec.twoPow 32 slot) }

/-- Marks a slot with a request, and sets its bit. -/
def setSlot (l : PriorityRequestLevel ι) (slot : Slot) (r : ι) : PriorityRequestLevel ι :=
  { l with
    slotRequest := Function.update l.slotRequest slot (some r)
    slotRequestMask := l.slotRequestMask ||| BitVec.twoPow 32 slot }

end PriorityRequestLevel

/-- The requests, known by their identity `ι`, and the tables `request_levels`. -/
structure Requests (ι δ : Type) where
  request : ι → Request δ
  levels : Level → PriorityRequestLevel ι

/-- `__builtin_ffs`: the lowest bit that is set. -/
def lowestSlot (mask : BitVec 32) : Option Slot :=
  (List.finRange 32).find? fun slot => mask.getLsbD slot

namespace Requests

variable {ι δ : Type} [DecidableEq ι]

def modifyLevel (s : Requests ι δ) (level : Level)
    (f : PriorityRequestLevel ι → PriorityRequestLevel ι) : Requests ι δ :=
  { s with levels := Function.update s.levels level (f (s.levels level)) }

def modifyRequest (s : Requests ι δ) (r : ι) (f : Request δ → Request δ) : Requests ι δ :=
  { s with request := Function.update s.request r (f (s.request r)) }

/-! ## Functions on the tables -/

/-- `requests_init` -/
def requestsInit (s : Requests ι δ) : Requests ι δ := { s with levels := fun _ => .empty }

/-- A slot conflict: two DMA requests, or interrupts of two devices. -/
def conflict [DecidableEq δ] (s : Requests ι δ) (r : ι) : Bool :=
  match (s.levels (s.request r).levelIndex).slotRequest (s.request r).prioritySlot with
  | none => false
  | some other => (s.request r).isDma || (s.request other).device != (s.request r).device

/-- `request_schedule`: put a request into its slot, or refuse it. -/
def requestSchedule [DecidableEq δ] (s : Requests ι δ) (r : ι) : Bool × Requests ι δ :=
  if s.conflict r then (false, s)
  else (true, s.modifyLevel (s.request r).levelIndex (·.setSlot (s.request r).prioritySlot r))

/-- A slot in `requests_cancel_scheduled`. -/
def cancelSlot (level : Level) (s : Requests ι δ) (slot : Slot) : Requests ι δ :=
  match (s.levels level).slotRequest slot with
  | none => s
  | some r =>
    let s := (s.modifyRequest r (·.abandon)).modifyLevel level fun l =>
      { l with slotRequest := Function.update l.slotRequest slot none }
    s.modifyRequest r (·.signalComplete)

/-- A level in `requests_cancel_scheduled`. -/
def cancelLevel (s : Requests ι δ) (level : Level) : Requests ι δ :=
  let s := s.modifyLevel level fun l => { l with slotRequestMask := 0, active := none }
  (List.finRange 32).foldl (cancelSlot level) s

/-- `requests_cancel_scheduled`: signal all requests, and empty the tables. -/
def requestsCancelScheduled (s : Requests ι δ) : Requests ι δ :=
  (List.finRange 5).foldl cancelLevel s

/-- `request_activate_lowest_slot` -/
def requestActivateLowestSlot (s : Requests ι δ) (level : Level) : Option (Requests ι δ) :=
  let l := s.levels level
  let rq := (lowestSlot l.slotRequestMask).bind l.slotRequest
  if l.active.isSome then none
  else if (lowestSlot l.slotRequestMask).isSome && rq.isNone then none
  else if (l.slotRequestMask == 0) != rq.isNone then none
  else some (s.modifyLevel level ({ · with active := rq }))

/-- `request_is_blocking_active` -/
def requestIsBlockingActive (s : Requests ι δ) (level : Level) : Bool :=
  (List.finRange 5).any fun l =>
    decide (level ≤ l) && ((s.levels l).active.isSome || (s.levels l).slotRequestMask != 0)

/-- `request_execute_active_on_PRU`: of a DMA request the next chunk. -/
def requestExecuteActiveOnPru (s : Requests ι δ) (level : Level) : Option (Requests ι δ) :=
  (s.levels level).active.bind fun r =>
    let req := s.request r
    if level = levelNpr then
      let chunkWords := min req.chunkMaxWords (req.wordcount - req.wordcountCompletedChunks)
      if req.isDma = false ∨ chunkWords = 0 then none
      else some (s.modifyRequest r ({ · with chunkWords := chunkWords, executingOnPru := true }))
    else if req.isDma then none
    else some (s.modifyRequest r ({ · with executingOnPru := true }))

/-- `request_active_complete`: take the active request out of the tables. -/
def requestActiveComplete (s : Requests ι δ) (level : Level) (signal : Bool) :
    Option (Requests ι δ) :=
  match (s.levels level).active with
  | none => some s
  | some r =>
    let slot := (s.request r).prioritySlot
    if (s.levels level).slotRequest slot ≠ some r then none
    else
      let s := s.modifyRequest r ({ · with executingOnPru := false })
      let s := s.modifyLevel level fun l => { l.clearSlot slot with active := none }
      some (if signal then s.modifyRequest r (·.signalComplete) else s)

/-! ## Sections -/

/-- The next request of a level becomes active, and goes to the PRU. -/
def activateNext (s : Requests ι δ) (level : Level) : Option (Requests ι δ) :=
  (s.requestActivateLowestSlot level).bind fun s =>
    if (s.levels level).active.isSome then s.requestExecuteActiveOnPru level else some s

/-- After scheduling: start immediately, if nothing is active. -/
def startIfIdle (s : Requests ι δ) (level : Level) : Option (Requests ι δ) :=
  if (s.levels level).active.isSome then some s else s.activateNext level

/-- What `DMA()` is called with. -/
structure DmaArgs where
  qunibusCycle : Byte
  unibusAddr : UInt
  buffer : ℕ → Word
  wordcount : ℕ

/-- The assertions at the head of `DMA()`, in an address space of `byteCount` bytes. -/
def dmaAsserts (byteCount : ℕ) (req : Request δ) (args : DmaArgs) : Bool :=
  req.isDma && args.wordcount != 0 &&
    decide ((args.unibusAddr.toNat + 2 * args.wordcount) % 2 ^ 32 ≤ byteCount) &&
    (!req.isCpuAccess || req.prioritySlot == 31)

/-- The set-up of a request in `DMA()`. -/
def setupDma (req : Request δ) (args : DmaArgs) : Request δ :=
  { req with
    complete := false
    signalled := false
    success := false
    executingOnPru := false
    qunibusControl := args.qunibusCycle
    qunibusStartAddr := args.unibusAddr
    chunkQunibusStartAddr := args.unibusAddr
    qunibusEndAddr := 0
    buffer := args.buffer
    wordcount := args.wordcount
    chunkMaxWords := pruMaxDmaWordcount }

/-- `DMA()`, from its assertions to the unlock. -/
def dma [DecidableEq δ] (byteCount : ℕ) (s : Requests ι δ) (r : ι) (args : DmaArgs) :
    Option (Requests ι δ) :=
  if dmaAsserts byteCount (s.request r) args = false then none
  else
    let (scheduled, s) := (s.modifyRequest r (setupDma · args)).requestSchedule r
    if scheduled then s.startIfIdle levelNpr
    else some (s.modifyRequest r (·.signalComplete))

/-- The set-up of a request in `INTR()`. The register is written by the PRU, or was before. -/
def setupIntr (req : Request δ) (delayed : Bool) (register : Option Handle) (value : Word) :
    Request δ :=
  { req with
    complete := false
    signalled := false
    executingOnPru := false
    interruptRegister := if delayed then none else register
    interruptRegisterValue := if delayed then req.interruptRegisterValue else value }

/-- `INTR()`, from lock to unlock. A slot in use by the same device is not scheduled again. -/
def intr [DecidableEq δ] (s : Requests ι δ) (r : ι) (register : Option Handle) (value : Word) :
    Option (Requests ι δ) :=
  let req := s.request r
  if req.isDma then none
  else
    match (s.levels req.levelIndex).slotRequest req.prioritySlot with
    | some other =>
      if (s.request other).device ≠ req.device ∨ (s.request other).vector ≠ req.vector then none
      else some s
    | none =>
      let delayed := register.isSome && s.requestIsBlockingActive req.levelIndex
      let (scheduled, s) :=
        (s.modifyRequest r (setupIntr · delayed register value)).requestSchedule r
      if scheduled then s.startIfIdle req.levelIndex
      else some (s.modifyRequest r ({ · with complete := true }))

/-- The assertion at the end of `cancel_INTR`: both empty, or both filled. -/
def bothOrNone (s : Requests ι δ) (level : Level) : Option (Requests ι δ) :=
  if ((s.levels level).slotRequestMask == 0) = (s.levels level).active.isNone then some s
  else none

/-- `cancel_INTR`, from lock to unlock. -/
def cancelIntr (s : Requests ι δ) (r : ι) : Option (Requests ι δ) :=
  let req := s.request r
  let level := req.levelIndex
  if (s.levels level).slotRequest req.prioritySlot = none then some s
  else if (s.levels level).active = some r then
    if req.isDma then none
    else ((s.requestActiveComplete level true).bind (·.activateNext level)).bind (·.bothOrNone level)
  else
    let s := s.modifyLevel level (·.clearSlot req.prioritySlot)
    (s.modifyRequest r (·.signalComplete)).bothOrNone level

/-- `worker_init_event`, `worker_power_event`: the tables are emptied. -/
def workerReset (s : Requests ι δ) : Requests ι δ := s.requestsCancelScheduled.requestsInit

/-- What the PRU leaves in `mailbox.dma` after a chunk. -/
structure ChunkResult where
  buscycle : Byte
  /-- `cur_status` is `DMA_STATE_READY` -/
  ready : Bool
  wordcount : ℕ
  curAddr : UInt
  words : ℕ → Word

/-- The data of a DATI chunk are copied into the buffer of the request. -/
def copyChunk (req : Request δ) (res : ChunkResult) (isDati : Bool) : ℕ → Word :=
  let start := req.wordcountCompletedChunks
  if isDati then
    fun i => if start ≤ i ∧ i < start + res.wordcount then res.words (i - start) else req.buffer i
  else req.buffer

/-- What every chunk leaves in its request. -/
def recordChunk (req : Request δ) (res : ChunkResult) : Request δ :=
  { req with
    qunibusEndAddr := res.curAddr
    buffer := copyChunk req res (!cycleIsDato res.buscycle) }

/-- `worker_device_dma_chunk_complete_event`. The bit that marks the IO page is gone from the
addresses already. -/
def workerDmaChunkComplete (s : Requests ι δ) (res : ChunkResult) : Option (Requests ι δ) :=
  (s.levels levelNpr).active.bind fun r =>
    let req := s.request r
    let transferred := req.wordcountCompletedChunks + res.wordcount
    if req.wordcount < transferred ∨ req.isCpuAccess = true ∧ req.wordcount ≠ 1 then none
    else
      let s := s.modifyRequest r (recordChunk · res)
      if res.ready ∧ transferred ≠ req.wordcount then
        -- The next chunk, unless a lower slot has come in between.
        if req.isCpuAccess then none
        else
          let s := s.modifyRequest r ({ · with chunkQunibusStartAddr := res.curAddr + 2 })
          let s := s.modifyLevel levelNpr ({ · with active := none })
          (s.requestActivateLowestSlot levelNpr).bind (·.requestExecuteActiveOnPru levelNpr)
      else
        let s := s.modifyRequest r ({ · with success := res.ready })
        (s.requestActiveComplete levelNpr (!req.isCpuAccess)).bind (·.activateNext levelNpr)

/-- `worker_intr_complete_event` -/
def workerIntrComplete (s : Requests ι δ) (level : Level) : Option (Requests ι δ) :=
  (s.requestActiveComplete level true).bind (·.activateNext level)

end Requests

end QUniBone.QUnibusAdapter
