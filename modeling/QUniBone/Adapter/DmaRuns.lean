import QUniBone.Adapter.Chunks
import QUniBone.PruU.BlockTransfer
import Mathlib.Logic.Relation

/-!
# Whole DMA transfers

A DMA request on the UNIBUS from the call of `DMA()` to its end: the adapter gives its chunks to
the PRU, the PRU moves them word by word, and between two chunks the requests of lower slots go
first.

* `System`: request tables, PRU and the memory of the other stations.
* `System.Step`: sections of the adapter, calls of the DMA state machine, and whatever else
  changes memory.
* `Progress`: how far a request is.
* `transfer_ended`: how its transfer ends.
-/

namespace QUniBone.QUnibusAdapter

open PruU

/-- `request_execute_active_on_PRU`: what it writes into the mailbox. -/
def Request.toMailbox {δ : Type} (req : Request δ) (dma : MailboxDma) : MailboxDma where
  curStatus := 0
  buscycle := req.qunibusControl
  wordcount := BitVec.ofNat 16 req.chunkWords
  cpuAccess := req.isCpuAccess
  curAddr := dma.curAddr
  startaddr := req.chunkQunibusStartAddr
  words :=
    if cycleIsDato req.qunibusControl then fun i =>
      if i < req.chunkWords then req.buffer (req.wordcountCompletedChunks + i) else dma.words i
    else dma.words

/-- `QUNIBUS_IOPAGE_ADDR_BITMASK`, which is not a bit of any UNIBUS address. -/
def iopageAddrBitmask : UInt := 1 <<< 22

/-- What `worker_device_dma_chunk_complete_event` finds in the mailbox. -/
def chunkResult (s : Pru) : Requests.ChunkResult where
  buscycle := s.mailbox.dma.buscycle
  ready := s.mailbox.dma.curStatus == dmaStateReady
  wordcount := s.mailbox.dma.wordcount.toNat
  curAddr := s.mailbox.dma.curAddr &&& ~~~iopageAddrBitmask
  words := s.mailbox.dma.words

/-- Adapter, PRU and bus. -/
structure System (ι δ : Type) where
  tables : Requests ι δ
  pru : Pru
  /-- the DMA state machine, which waits for the bus in its first state -/
  machine : Option DmaState
  /-- memory of the other stations -/
  others : Ddrmem
  /-- the cycles so far, with the request they were made for -/
  cycles : List (ι × BusCycle)

namespace System

variable {ι δ : Type}

/-- The active request goes to the PRU. -/
def launch (s : System ι δ) (t : Requests ι δ) : System ι δ :=
  match (t.levels levelNpr).active with
  | some r => { s with
      tables := t
      pru := s.pru.modifyMailboxDma (t.request r).toMailbox
      machine := some .start }
  | none => { s with tables := t }

/-- What a data cycle of this board does to the memory of another station, once it answers. -/
def written (others : Ddrmem) (s : Pru) (l : Lines) (st : DmaState) : Ddrmem :=
  if st = .state21 ∧ ssyn l = true then
    if s.mailbox.dma.buscycle = cycleDatob then
      others.setB s.drivenAddress
        (if s.drivenAddress.getLsbD 0 then highByte s.drivenData else lowByte s.drivenData)
    else others.setW s.drivenAddress s.drivenData
  else others

/-- A call of the DMA state machine, which works for the request `r`. -/
def call (s : System ι δ) (r : ι) (st : DmaState) (l : Lines) : System ι δ :=
  let (next, pru) := s.pru.smDma l st
  { s with
    pru := pru
    machine := next
    others := written s.others s.pru l st
    cycles := s.cycles ++ (s.pru.cyclesIn l st).map (r, ·) }

/-- `EVENT_ACK` -/
def ackDma (s : System ι δ) : System ι δ :=
  { s with pru := s.pru.modifyEvents fun events => { events with dma := events.dma.ack } }

/-- One thing that happens. The requests that may be set up are those in `calls`. -/
inductive Step [DecidableEq ι] [DecidableEq δ] (byteCount : ℕ) (calls : ι → Prop) :
    System ι δ → System ι δ → Prop
  /-- a device calls `DMA()` -/
  | dma {s : System ι δ} {t : Requests ι δ} (r : ι) (args : Requests.DmaArgs) : calls r →
      s.tables.dma byteCount r args = some t →
      Step byteCount calls s
        (if (s.tables.levels levelNpr).active = none then s.launch t else { s with tables := t })
  /-- chunks are made smaller than the mailbox -/
  | limit {s : System ι δ} (r : ι) (words : ℕ) : words ≤ pruMaxDmaWordcount →
      Step byteCount calls s
        { s with tables := s.tables.modifyRequest r ({ · with chunkMaxWords := words }) }
  /-- the sections for interrupts: they work on other levels -/
  | interrupt {s : System ι δ} (t : Requests ι δ) : t.Consistent →
      t.levels levelNpr = s.tables.levels levelNpr →
      (∀ r, (s.tables.request r).isDma = true → t.request r = s.tables.request r) →
      Step byteCount calls s { s with tables := t }
  /-- processors and other bus masters change memory, registers of this board included -/
  | interfere {s : System ι δ} (e : Emulation) (others : Ddrmem) :
      Step byteCount calls s { s with pru := s.pru.withEmulation e, others := others }
  | tick {s : System ι δ} (cycle : UInt) :
      Step byteCount calls s { s with pru := s.pru.atCycle cycle }
  /-- the PRU goes on; another station answers a DATI from its memory -/
  | call {s : System ι δ} (r : ι) (st : DmaState) (l : Lines) :
      (s.tables.levels levelNpr).active = some r → s.machine = some st →
      (st = .state11 → ssyn l = true → dataIn l = s.others.getW s.pru.drivenAddress) →
      Step byteCount calls s (s.call r st l)
  /-- ARM sees the event -/
  | complete {s : System ι δ} {t : Requests ι δ} : s.pru.mailbox.events.dma.isAcked = false →
      s.tables.workerDmaChunkComplete (chunkResult s.pru) = some t →
      Step byteCount calls s (s.ackDma.launch t)

/-- Nothing has been requested yet. -/
structure Started (s : System ι δ) : Prop where
  tables : s.tables.Started
  machine : s.machine = none
  event : s.pru.mailbox.events.dma.isAcked = true
  overlay : s.pru.addressOverlay = 0

/-- Between two steps: an event is there only for an active request, whose transfer is over. -/
structure Sound (s : System ι δ) : Prop where
  consistent : s.tables.Consistent
  overlay : s.pru.addressOverlay = 0
  event : s.pru.mailbox.events.dma.isAcked = true ∨
    s.pru.mailbox.events.dma.signaled = s.pru.mailbox.events.dma.acked + 1 ∧
      s.machine = none ∧ (s.tables.levels levelNpr).active ≠ none

/-- The cycles made for a request. -/
def own [DecidableEq ι] (s : System ι δ) (r : ι) : List BusCycle :=
  s.cycles.filterMap fun c => if c.1 = r then some c.2 else none

/-! ## Launches and calls -/

variable {s t : System ι δ}

theorem launch_some {u : Requests ι δ} {r : ι} (h : (u.levels levelNpr).active = some r) :
    s.launch u = { s with
      tables := u
      pru := s.pru.modifyMailboxDma (u.request r).toMailbox
      machine := some .start } := by
  rw [launch, h]

theorem launch_none {u : Requests ι δ} (h : (u.levels levelNpr).active = none) :
    s.launch u = { s with tables := u } := by
  rw [launch, h]

/-- A launch writes the data part of the mailbox only. -/
theorem launch_frame (s : System ι δ) (u : Requests ι δ) :
    (s.launch u).tables = u ∧ (s.launch u).cycles = s.cycles ∧
      (s.launch u).pru.addressOverlay = s.pru.addressOverlay ∧
      (s.launch u).pru.mailbox.events = s.pru.mailbox.events := by
  cases h : (u.levels levelNpr).active with
  | none =>
    rw [launch_none h]
    exact ⟨rfl, rfl, rfl, rfl⟩
  | some r =>
    rw [launch_some h]
    exact ⟨rfl, rfl, rfl, rfl⟩

theorem own_call [DecidableEq ι] (s : System ι δ) (r q : ι) (st : DmaState) (l : Lines) :
    (s.call q st l).own r = s.own r ++ if q = r then s.pru.cyclesIn l st else [] := by
  have hnew : ((s.pru.cyclesIn l st).map fun c => (q, c)).filterMap
      (fun c => if c.1 = r then some c.2 else none) =
        if q = r then s.pru.cyclesIn l st else [] := by
    rw [List.filterMap_map]
    split_ifs with h
    · simp [h]
    · simp [h]
  rw [own, call]
  dsimp only
  rw [List.filterMap_append, hnew]
  rfl

theorem isAcked_iff (e : Event) : e.isAcked = true ↔ e.signaled = e.acked := beq_iff_eq

theorem isAcked_ack {e : Event} (h : e.signaled = e.acked + 1) : e.ack.isAcked = true :=
  beq_iff_eq.mpr h

theorem Sound.acked_of_idle (hs : s.Sound) (h : (s.tables.levels levelNpr).active = none) :
    s.pru.mailbox.events.dma.isAcked = true :=
  hs.event.resolve_right fun hpending => hpending.2.2 h

theorem Sound.acked_of_machine (hs : s.Sound) {st : DmaState} (h : s.machine = some st) :
    s.pru.mailbox.events.dma.isAcked = true := by
  refine hs.event.resolve_right fun hpending => ?_
  rw [hpending.2.1] at h
  cases h

/-- New tables, and nothing for the PRU. -/
theorem Sound.of_tables (hs : s.Sound) {u : Requests ι δ} (hu : u.Consistent)
    (hactive : (u.levels levelNpr).active = none → (s.tables.levels levelNpr).active = none) :
    ({ s with tables := u } : System ι δ).Sound :=
  ⟨hu, hs.overlay, hs.event.imp id fun h => ⟨h.1, h.2.1, fun hnone => h.2.2 (hactive hnone)⟩⟩

theorem sound_launch {u : Requests ι δ} (hu : u.Consistent)
    (hoverlay : s.pru.addressOverlay = 0) (hacked : s.pru.mailbox.events.dma.isAcked = true) :
    (s.launch u).Sound := by
  obtain ⟨htables, -, hlines, hevents⟩ := launch_frame s u
  refine ⟨?_, hlines.trans hoverlay, .inl ?_⟩
  · rw [htables]
    exact hu
  · rw [hevents]
    exact hacked

theorem Started.sound (hs : s.Started) : s.Sound :=
  ⟨hs.tables.consistent, hs.overlay, .inl hs.event⟩

theorem Sound.step [DecidableEq ι] [DecidableEq δ] {byteCount : ℕ} {calls : ι → Prop} (hs : s.Sound)
    (h : Step byteCount calls s t) : t.Sound := by
  cases h with
  | dma r args hcalls h =>
    have hu := (Requests.dma_orderly hs.consistent h).1
    split_ifs with hidle
    · exact sound_launch hu hs.overlay (hs.acked_of_idle hidle)
    · refine hs.of_tables hu fun hnone => ?_
      rcases (Requests.dma_cases h).2 with ⟨-, hlevels, -⟩ | ⟨-, -, rfl⟩ | ⟨-, hnow, -⟩
      · rw [← hlevels]
        exact hnone
      · rw [Requests.put, Requests.levels_modifyLevel_self] at hnone
        exact hnone
      · exact hnow
  | limit r words hwords =>
    have hplace := Requests.modifyRequest_place s.tables r
      (f := ({ · with chunkMaxWords := words })) fun _ => rfl
    have hlevels : (s.tables.modifyRequest r ({ · with chunkMaxWords := words })).levels =
        s.tables.levels := rfl
    have hu := (Requests.orderly_of_levels hs.consistent hlevels hplace).1
    exact hs.of_tables hu id
  | interrupt u hu hlevel hrequests => exact hs.of_tables hu (by rw [hlevel]; exact id)
  | interfere e others => exact ⟨hs.consistent, hs.overlay, hs.event⟩
  | tick cycle => exact ⟨hs.consistent, hs.overlay, hs.event⟩
  | call r st l hactive hmachine hanswer =>
    have hacked := hs.acked_of_machine hmachine
    have hsignals := s.pru.smDma_signals l st
    refine ⟨hs.consistent, hsignals.overlay.trans hs.overlay, ?_⟩
    rcases hsignals.event with hsame | ⟨hnext, hsignal⟩
    · left
      show Event.isAcked (Pru.mailbox (s.pru.smDma l st).2).events.dma = true
      rw [hsame]
      exact hacked
    · right
      refine ⟨?_, hnext, hactive ▸ Option.some_ne_none r⟩
      show Event.signaled (Pru.mailbox (s.pru.smDma l st).2).events.dma =
        Event.acked (Pru.mailbox (s.pru.smDma l st).2).events.dma + 1
      rw [hsignal]
      exact congrArg (· + 1) ((isAcked_iff _).mp hacked)
  | complete hevent h =>
    have hpending := hs.event.resolve_left (by rw [hevent]; decide)
    exact sound_launch (Requests.workerDmaChunkComplete_orderly hs.consistent h).1 hs.overlay
      (isAcked_ack hpending.1)

/-! ## How far a request is -/

/-- The record of a request for a block; `words` are to be written. -/
structure Asked (b : Block) (words : ℕ → Word) (req : Request δ) : Prop where
  level : req.levelIndex = levelNpr
  start : req.qunibusStartAddr = b.start
  control : req.qunibusControl = b.control
  count : req.wordcount = b.count
  limit : req.chunkMaxWords ≤ pruMaxDmaWordcount
  words : cycleIsDato b.control = true → req.buffer = words

/-- The PRU has the words from the `k`-th on, and has made the cycles `cs` for them. -/
def OnPru (b : Block) (k count : ℕ) (buffer : ℕ → Word) (cs : List BusCycle) (s : System ι δ) :
    Prop :=
  (b.part k count).Posted (fun i => buffer (k + i)) s.pru ∧
    match s.machine with
    | some st => (b.part k count).At cs st s.pru
    | none => (b.part k count).Left cs s.pru

/-- Where a request is on its way, with the cycles since it was set up. -/
inductive Progress [DecidableEq ι] (b : Block) (words : ℕ → Word) (before : List BusCycle) (r : ι)
    (s : System ι δ) : Prop
  /-- `k` words are moved, and another request is active -/
  | waiting (k : ℕ) : s.tables.Scheduled r → (s.tables.levels levelNpr).active ≠ some r →
      Asked b words (s.tables.request r) →
      (s.tables.request r).chunkQunibusStartAddr = b.addr k → k < b.count →
      s.own r = before ++ b.moved (s.tables.request r).buffer k → Progress b words before r s
  /-- `k` words are moved, and a chunk is with the PRU -/
  | running (k : ℕ) (cs : List BusCycle) : s.tables.Scheduled r →
      (s.tables.levels levelNpr).active = some r → Asked b words (s.tables.request r) →
      (s.tables.request r).chunkQunibusStartAddr = b.addr k →
      0 < (s.tables.request r).chunkWords → k + (s.tables.request r).chunkWords ≤ b.count →
      (s.tables.request r).chunkWords ≤ pruMaxDmaWordcount →
      s.own r = before ++ b.moved (s.tables.request r).buffer k ++ cs →
      OnPru b k (s.tables.request r).chunkWords (s.tables.request r).buffer cs s →
      Progress b words before r s
  /-- the transfer is over -/
  | finished (status : Byte) (cs : List BusCycle) : ¬ s.tables.Scheduled r →
      Asked b words (s.tables.request r) →
      b.Ended (s.tables.request r).buffer status (s.tables.request r).qunibusEndAddr cs →
      (s.tables.request r).success = (status == dmaStateReady) →
      s.own r = before ++ cs → Progress b words before r s

variable {b : Block} {words : ℕ → Word} {before : List BusCycle} {r : ι}

/-- Words of the chunks before. -/
theorem wordcountCompletedChunks_eq {req : Request δ} (h : Asked b words req)
    (hspace : b.InSpace) {k : ℕ} (hk : k ≤ b.count)
    (hchunk : req.chunkQunibusStartAddr = b.addr k) : req.wordcountCompletedChunks = k := by
  have hbound : b.start.toNat + 2 * b.count ≤ 2 ^ 18 := hspace
  have hdiff : b.addr k - b.start = BitVec.ofNat 32 (2 * k) := by
    rw [Block.addr, wordAddr, BitVec.add_comm, BitVec.add_sub_cancel]
  rw [Request.wordcountCompletedChunks, hchunk, h.start, hdiff, BitVec.toNat_ofNat]
  omega

theorem Asked.handedOver {req : Request δ} (h : Asked b words req) :
    Asked b words req.handedOver :=
  ⟨h.level, h.start, h.control, h.count, h.limit, h.words⟩

/-- A request that has gone to the PRU. -/
theorem onPru_launch {req : Request δ} {k : ℕ}
    (hasked : Asked b words req) (hspace : b.InSpace) (hk : k < b.count)
    (hchunk : req.chunkQunibusStartAddr = b.addr k)
    (hcount : req.chunkWords ≤ pruMaxDmaWordcount) (hoverlay : s.pru.addressOverlay = 0)
    (hpru : t.pru = s.pru.modifyMailboxDma req.toMailbox) (ht : t.machine = some .start) :
    OnPru b k req.chunkWords req.buffer [] t := by
  have hsmall : req.chunkWords < 2 ^ 16 := hcount.trans_lt (by decide)
  refine ⟨⟨?_, ?_, ?_, fun hcycle i hi => ?_, ?_⟩, ?_⟩
  · rw [hpru]
    exact hchunk
  · rw [hpru]
    exact hasked.control
  · rw [hpru]
    exact Nat.mod_eq_of_lt hsmall
  · have hcontrol : cycleIsDato req.qunibusControl = true := by
      rw [hasked.control]
      exact hcycle
    rw [hpru]
    show (Request.toMailbox req _).words i = _
    rw [Request.toMailbox, if_pos hcontrol]
    dsimp only
    rw [if_pos (show i < req.chunkWords from hi),
      wordcountCompletedChunks_eq hasked hspace hk.le hchunk]
  · rw [hpru]
    exact hoverlay
  · rw [ht]
    rfl

variable [DecidableEq ι]

/-- The next request of the lowest slot goes to the PRU: this one, or it waits. -/
theorem progress_waiting {u v : Requests ι δ} {k : ℕ} (hspace : b.InSpace)
    (hoverlay : s.pru.addressOverlay = 0) (hover : Requests.HandedOver u v)
    (hscheduled : u.Scheduled r) (hasked : Asked b words (u.request r))
    (hchunk : (u.request r).chunkQunibusStartAddr = b.addr k) (hk : k < b.count)
    (hown : s.own r = before ++ b.moved (u.request r).buffer k) :
    Progress b words before r (s.launch v) := by
  obtain ⟨htables, hcycles, -, -⟩ := launch_frame s v
  have hown' : (s.launch v).own r = s.own r := by rw [own, hcycles, own]
  by_cases hactive : (v.levels levelNpr).active = some r
  · obtain ⟨hrecord, hpositive⟩ := hover.active r hactive
    have hasked' : Asked b words (v.request r) := by
      rw [hrecord]
      exact hasked.handedOver
    have hchunk' : (v.request r).chunkQunibusStartAddr = b.addr k := by
      rw [hrecord]
      exact hchunk
    have hwords : (v.request r).chunkWords = min (u.request r).chunkMaxWords (b.count - k) := by
      rw [hrecord, ← hasked.count, ← wordcountCompletedChunks_eq hasked hspace hk.le hchunk]
      rfl
    have hlimit : (v.request r).chunkWords ≤ pruMaxDmaWordcount := by
      rw [hwords]
      exact (min_le_left ..).trans hasked.limit
    have hlaunch := launch_some (s := s) hactive
    refine .running k [] ?_ ?_ ?_ ?_ ?_ ?_ ?_ ?_ ?_
    all_goals rw [htables]
    · rw [Requests.Scheduled, hover.slots, hrecord]
      exact hscheduled
    · exact hactive
    · exact hasked'
    · exact hchunk'
    · exact hpositive
    · rw [hwords]
      omega
    · exact hlimit
    · rw [hown', hown, hrecord, List.append_nil]
      rfl
    · exact onPru_launch hasked' hspace hk hchunk' hlimit hoverlay (by rw [hlaunch])
        (by rw [hlaunch])
  · have hrecord := hover.waiting r hactive
    refine .waiting k ?_ ?_ ?_ ?_ hk ?_
    all_goals rw [htables]
    · rw [Requests.Scheduled, hover.slots, hrecord]
      exact hscheduled
    · exact hactive
    · rw [hrecord]
      exact hasked
    · rw [hrecord]
      exact hchunk
    · rw [hown', hown, hrecord]

/-- A request that is over is not handed over again. -/
theorem progress_over {u v : Requests ι δ} {status : Byte} {cs : List BusCycle}
    (hv : v.Consistent) (hover : Requests.HandedOver u v) (hscheduled : ¬ u.Scheduled r)
    (hasked : Asked b words (u.request r))
    (hended : b.Ended (u.request r).buffer status (u.request r).qunibusEndAddr cs)
    (hsuccess : (u.request r).success = (status == dmaStateReady))
    (hown : s.own r = before ++ cs) : Progress b words before r (s.launch v) := by
  obtain ⟨htables, hcycles, -, -⟩ := launch_frame s v
  have hactive : (v.levels levelNpr).active ≠ some r := by
    intro h
    refine hscheduled ?_
    have hslot := hv.active levelNpr r h
    rw [hover.slots, (hover.active r h).1] at hslot
    exact hslot
  have hrecord := hover.waiting r hactive
  refine .finished status cs ?_ ?_ ?_ ?_ ?_
  · rw [htables, Requests.Scheduled, hover.slots, hrecord]
    exact hscheduled
  · rw [htables, hrecord]
    exact hasked
  · rw [htables, hrecord]
    exact hended
  · rw [htables, hrecord]
    exact hsuccess
  · rw [own, hcycles]
    exact hown

/-- The tables change, but not for this request. A smaller chunk may be asked for. -/
theorem Progress.of_tables {u : Requests ι δ} {limit : ℕ} (h : Progress b words before r s)
    (hrecord : u.request r = { s.tables.request r with chunkMaxWords := limit })
    (hlimit : limit ≤ pruMaxDmaWordcount)
    (hscheduled : u.Scheduled r ↔ s.tables.Scheduled r)
    (hactive : (u.levels levelNpr).active = some r ↔
      (s.tables.levels levelNpr).active = some r) :
    Progress b words before r { s with tables := u } := by
  cases h with
  | waiting k hs ha hasked hchunk hk hown =>
    refine .waiting k (hscheduled.mpr hs) (mt hactive.mp ha) ?_ ?_ hk ?_
    all_goals dsimp only
    all_goals rw [hrecord]
    · exact ⟨hasked.level, hasked.start, hasked.control, hasked.count, hlimit, hasked.words⟩
    · exact hchunk
    · exact hown
  | running k cs hs ha hasked hchunk hpositive hcount hmax hown hpru =>
    refine .running k cs (hscheduled.mpr hs) (hactive.mpr ha) ?_ ?_ ?_ ?_ ?_ ?_ ?_
    all_goals dsimp only
    all_goals rw [hrecord]
    · exact ⟨hasked.level, hasked.start, hasked.control, hasked.count, hlimit, hasked.words⟩
    · exact hchunk
    · exact hpositive
    · exact hcount
    · exact hmax
    · exact hown
    · exact hpru
  | finished status cs hs hasked hended hsuccess hown =>
    refine .finished status cs (mt hscheduled.mp hs) ?_ ?_ ?_ hown
    all_goals dsimp only
    all_goals rw [hrecord]
    · exact ⟨hasked.level, hasked.start, hasked.control, hasked.count, hlimit, hasked.words⟩
    · exact hended
    · exact hsuccess

theorem Progress.asked (h : Progress b words before r s) :
    Asked b words (s.tables.request r) := by
  cases h with
  | waiting k hs ha hasked => exact hasked
  | running k cs hs ha hasked => exact hasked
  | finished status cs hs hasked => exact hasked

/-- The tables change, but nothing of this request. -/
theorem Progress.of_same {u : Requests ι δ} (h : Progress b words before r s)
    (hrecord : u.request r = s.tables.request r)
    (hscheduled : u.Scheduled r ↔ s.tables.Scheduled r)
    (hactive : (u.levels levelNpr).active = some r ↔
      (s.tables.levels levelNpr).active = some r) :
    Progress b words before r { s with tables := u } :=
  h.of_tables hrecord h.asked.limit hscheduled hactive

/-- Another request is set up. -/
theorem progress_dma [DecidableEq δ] {byteCount : ℕ} {q : ι} {args : Requests.DmaArgs}
    {u : Requests ι δ} (h : Progress b words before r s) (hs : s.Sound) (hne : q ≠ r)
    (hu : s.tables.dma byteCount q args = some u) :
    Progress b words before r
      (if (s.tables.levels levelNpr).active = none then s.launch u
        else { s with tables := u }) := by
  have hconsistent := (Requests.dma_orderly hs.consistent hu).1
  have hput : (s.tables.put q args).request r = s.tables.request r := by
    rw [Requests.put_request, Requests.modifyRequest_ne _ _ hne.symm]
  have hentry : (some q : Option ι) ≠ some r := fun heq => hne (Option.some.inj heq)
  rcases (Requests.dma_cases hu).2 with ⟨-, hlevels, hothers⟩ | ⟨hfree, hbusy, rfl⟩ |
    ⟨hfree, hidle, hover⟩
  · -- refused
    have hsame : Progress b words before r { s with tables := u } :=
      h.of_same (hothers r hne.symm) (Requests.scheduled_iff (by rw [hlevels]) (hothers r hne.symm))
        (by rw [hlevels])
    split_ifs with hidle
    · rw [launch_none (hlevels ▸ hidle)]
      exact hsame
    · exact hsame
  · -- into the queue
    rw [if_neg hbusy]
    refine h.of_same hput ?_ ?_
    · refine Requests.scheduled_update (Requests.put_slotRequest ..) hentry ?_ hput
      rw [hfree]
      exact (Option.some_ne_none r).symm
    · rw [Requests.put, Requests.levels_modifyLevel_self]
      rfl
  · -- to the PRU: this request is over, or something would be active.
    have hout := Requests.not_scheduled_of_idle (r := r) hs.consistent hidle
    rw [if_pos hidle]
    cases h with
    | waiting k hscheduled => exact absurd hscheduled hout
    | running k cs hscheduled => exact absurd hscheduled hout
    | finished status cs hscheduled hasked hended hsuccess hown =>
      refine progress_over hconsistent hover ?_ (hput ▸ hasked) (hput ▸ hended) (hput ▸ hsuccess)
        hown
      refine mt (Requests.scheduled_update (Requests.put_slotRequest ..) hentry ?_ hput).mp
        hscheduled
      rw [hfree]
      exact (Option.some_ne_none r).symm

/-- The PRU works for the active request. -/
theorem progress_call {q : ι} {st : DmaState} {l : Lines} (h : Progress b words before r s)
    (hs : s.Sound) (hspace : b.InSpace) (hactive : (s.tables.levels levelNpr).active = some q)
    (hmachine : s.machine = some st) : Progress b words before r (s.call q st l) := by
  have hown := own_call s r q st l
  rcases eq_or_ne q r with rfl | hne
  · rw [if_pos rfl] at hown
    cases h with
    | waiting k hscheduled ha => exact absurd hactive ha
    | finished status cs hscheduled =>
      exact absurd (hs.consistent.active levelNpr q hactive) hscheduled
    | running k cs hscheduled ha hasked hchunk hpositive hcount hmax hbefore hpru =>
      obtain ⟨hposted, hat⟩ := hpru
      rw [hmachine] at hat
      have hsmall : (s.tables.request q).chunkWords < 2 ^ 16 := hmax.trans_lt (by decide)
      have hafter := Block.smDma_after (l := l) hposted hat (hspace.part hcount) hpositive hsmall
      refine .running k (cs ++ s.pru.cyclesIn l st) hscheduled ha hasked hchunk hpositive hcount
        hmax ?_ ⟨hafter.1, ?_⟩
      · rw [hown, hbefore, List.append_assoc]
        rfl
      · have hend := hafter.2
        cases hnext : (s.pru.smDma l st).1 with
        | some next =>
          have hgoes : (s.call q st l).machine = some next := hnext
          rw [hgoes]
          rw [hnext] at hend
          exact hend.1
        | none =>
          have hstops : (s.call q st l).machine = none := hnext
          rw [hstops]
          rw [hnext] at hend
          exact hend.1
  · rw [if_neg hne, List.append_nil] at hown
    cases h with
    | waiting k hscheduled ha hasked hchunk hk hbefore =>
      exact .waiting k hscheduled ha hasked hchunk hk (hown.trans hbefore)
    | finished status cs hscheduled hasked hended hsuccess hbefore =>
      exact .finished status cs hscheduled hasked hended hsuccess (hown.trans hbefore)
    | running k cs hscheduled ha => exact absurd (Option.some.inj (hactive.symm.trans ha)) hne

/-- No UNIBUS address has the bit that marks the IO page. -/
theorem addr_unmarked {addr : UInt} (h : addr.toNat < 2 ^ 18) :
    addr &&& ~~~iopageAddrBitmask = addr := by
  apply BitVec.eq_of_getLsbD_eq
  intro i hi
  by_cases h22 : i = 22
  · have hzero : addr.getLsbD i = false :=
      Nat.testBit_lt_two_pow (h.trans_le (Nat.pow_le_pow_right (by decide) (by omega)))
    simp [hzero]
  · have hbit : iopageAddrBitmask.getLsbD i = false := by
      have hmask : iopageAddrBitmask = BitVec.twoPow 32 22 := by decide
      rw [hmask, BitVec.getLsbD_twoPow]
      simp
      omega
    rw [BitVec.getLsbD_and, BitVec.getLsbD_not, hbit]
    simp [hi]

/-- The words of a chunk that is over are in the buffer. -/
theorem moved_chunk {req : Request δ} {k count j : ℕ} {p : Pru} (hasked : Asked b words req)
    (hspace : b.InSpace) (hk : k ≤ b.count) (hchunk : req.chunkQunibusStartAddr = b.addr k)
    (hposted : (b.part k count).Posted (fun i => req.buffer (k + i)) p) (hj : j ≤ count) :
    b.moved req.buffer k ++ (b.part k count).moved p.mailbox.dma.words j =
      b.moved (Requests.recordChunk req (chunkResult p)).buffer (k + j) := by
  have hcompleted := wordcountCompletedChunks_eq hasked hspace hk hchunk
  have hcontrol : p.mailbox.dma.buscycle = b.control := hposted.control
  have hcount : p.mailbox.dma.wordcount.toNat = count := hposted.count
  have hbuffer : (Requests.recordChunk req (chunkResult p)).buffer =
      if cycleIsDato b.control then req.buffer else fun i =>
        if k ≤ i ∧ i < k + count then p.mailbox.dma.words (i - k) else req.buffer i := by
    show Requests.copyChunk req (chunkResult p) (!cycleIsDato p.mailbox.dma.buscycle) = _
    rw [Requests.copyChunk, hcompleted, hcontrol]
    show (if (!cycleIsDato b.control) = true then fun i =>
      if k ≤ i ∧ i < k + p.mailbox.dma.wordcount.toNat then _ else _ else _) = _
    rw [hcount]
    cases cycleIsDato b.control with
    | true => rfl
    | false => rfl
  rw [b.moved_part _ k count j, hbuffer]
  cases hcycle : cycleIsDato b.control with
  | true =>
    -- DATO: the mailbox has what the buffer has.
    rw [if_pos rfl]
    congr 1
    exact Block.moved_congr _ fun i hi => hposted.words hcycle i (hi.trans_le hj)
  | false =>
    rw [if_neg Bool.false_ne_true]
    congr 1
    · refine Block.moved_congr _ fun i hi => ?_
      rw [if_neg (by omega)]
    · refine Block.moved_congr _ fun i hi => ?_
      rw [if_pos (by omega), Nat.add_sub_cancel_left]

/-- The chunk of another request is over. -/
theorem progress_complete_other {q : ι} {res : Requests.ChunkResult} {u : Requests ι δ}
    (h : Progress b words before r s) (hs : s.Sound) (hspace : b.InSpace) (hne : q ≠ r)
    (hactive : (s.tables.levels levelNpr).active = some q) (hu : u.Consistent)
    (hcases : Requests.HandedOver (s.tables.requeue q res) u ∨ s.tables.Scheduled q ∧
      ∃ v, Requests.Retired s.tables q res v ∧ Requests.HandedOver v u) :
    Progress b words before r (s.ackDma.launch u) := by
  -- Either way the request and its slot are as before.
  obtain ⟨v, hrecord, hscheduled, hover⟩ : ∃ v, v.request r = s.tables.request r ∧
      (v.Scheduled r ↔ s.tables.Scheduled r) ∧ Requests.HandedOver v u := by
    rcases hcases with hover | ⟨hq, v, hretired, hover⟩
    · have hrecord := s.tables.requeue_ne res hne.symm
      exact ⟨_, hrecord, Requests.scheduled_iff (Requests.requeue_slotRequest ..) hrecord, hover⟩
    · have hrecord := hretired.others r hne.symm
      refine ⟨v, hrecord, Requests.scheduled_update hretired.slots (Option.some_ne_none r).symm ?_
        hrecord, hover⟩
      rw [show (s.tables.levels levelNpr).slotRequest _ = some q from hq]
      exact fun heq => hne (Option.some.inj heq)
  cases h with
  | waiting k hwaits ha hasked hchunk hk hown =>
    exact progress_waiting (s := s.ackDma) hspace hs.overlay hover (hscheduled.mpr hwaits)
      (hrecord ▸ hasked) (hrecord ▸ hchunk) hk (hrecord ▸ hown)
  | running k cs hwaits ha => exact absurd (Option.some.inj (hactive.symm.trans ha)) hne
  | finished status cs hout hasked hended hsuccess hown =>
    exact progress_over (s := s.ackDma) hu hover (mt hscheduled.mp hout) (hrecord ▸ hasked)
      (hrecord ▸ hended) (hrecord ▸ hsuccess) hown

/-- The chunk of this request is over. -/
theorem progress_complete_self {u : Requests ι δ} {k : ℕ} {cs : List BusCycle} (hs : s.Sound)
    (hspace : b.InSpace) (hasked : Asked b words (s.tables.request r))
    (hchunk : (s.tables.request r).chunkQunibusStartAddr = b.addr k)
    (hpositive : 0 < (s.tables.request r).chunkWords)
    (hcount : k + (s.tables.request r).chunkWords ≤ b.count)
    (hown : s.own r = before ++ b.moved (s.tables.request r).buffer k ++ cs)
    (hscheduled : s.tables.Scheduled r)
    (hpru : OnPru b k (s.tables.request r).chunkWords (s.tables.request r).buffer cs s)
    (hmachine : s.machine = none) (hu : u.Consistent)
    (hcases : (chunkResult s.pru).ready = true ∧
        (s.tables.request r).wordcountCompletedChunks + (chunkResult s.pru).wordcount ≠
          (s.tables.request r).wordcount ∧
        Requests.HandedOver (s.tables.requeue r (chunkResult s.pru)) u ∨
      ((chunkResult s.pru).ready = true →
        (s.tables.request r).wordcountCompletedChunks + (chunkResult s.pru).wordcount =
          (s.tables.request r).wordcount) ∧ s.tables.Scheduled r ∧
        ∃ v, Requests.Retired s.tables r (chunkResult s.pru) v ∧ Requests.HandedOver v u) :
    Progress b words before r (s.ackDma.launch u) := by
  obtain ⟨hposted, hleft⟩ := hpru
  rw [hmachine] at hleft
  replace hleft : (b.part k (s.tables.request r).chunkWords).Ended s.pru.mailbox.dma.words
    s.pru.mailbox.dma.curStatus s.pru.mailbox.dma.curAddr cs := hleft
  have hk : k ≤ b.count := by omega
  have hmoved : ∀ j ≤ (s.tables.request r).chunkWords, _ := fun j hj =>
    moved_chunk hasked hspace hk hchunk hposted hj
  have hcompleted := wordcountCompletedChunks_eq hasked hspace hk hchunk
  have hwordcount : (chunkResult s.pru).wordcount = (s.tables.request r).chunkWords :=
    hposted.count
  obtain ⟨⟨j, hj, haddr⟩, hend⟩ := hleft.of_part hcount hpositive hmoved
  have hcur : (chunkResult s.pru).curAddr = s.pru.mailbox.dma.curAddr :=
    addr_unmarked (haddr ▸ hspace.addr_lt hj)
  have hbuffer : cycleIsDato b.control = true →
      (Requests.recordChunk (s.tables.request r) (chunkResult s.pru)).buffer = words := by
    intro hcycle
    rw [← hasked.words hcycle]
    show Requests.copyChunk _ _ (!cycleIsDato s.pru.mailbox.dma.buscycle) = _
    rw [show s.pru.mailbox.dma.buscycle = b.control from hposted.control, hcycle]
    rfl
  rw [hcompleted, hwordcount, hasked.count] at hcases
  rw [List.append_assoc] at hown
  rcases hcases with ⟨hready, hmore, hover⟩ | ⟨hlast, -, v, hretired, hover⟩
  · -- more is to come.
    replace hready : s.pru.mailbox.dma.curStatus = dmaStateReady := beq_iff_eq.mp hready
    obtain ⟨-, hcuraddr, hcycles⟩ := hend.resolve_right fun h => h.1 hready
    have hrecord := s.tables.requeue_self r (chunkResult s.pru)
    refine progress_waiting (s := s.ackDma) (k := k + (s.tables.request r).chunkWords) hspace
      hs.overlay hover ?_ ?_ ?_ (by omega) ?_
    · rw [Requests.Scheduled, Requests.requeue_slotRequest, hrecord]
      exact hscheduled
    · rw [hrecord]
      exact ⟨hasked.level, hasked.start, hasked.control, hasked.count, hasked.limit, hbuffer⟩
    · rw [hrecord]
      show (chunkResult s.pru).curAddr + 2 = _
      rw [hcur, hcuraddr, Block.addr, wordAddr_succ, Block.addr]
      congr 1
      omega
    · rw [hrecord]
      exact hown.trans (congrArg (before ++ ·) hcycles)
  · -- the transfer is over.
    obtain ⟨complete, signalled, hrecord⟩ := hretired.record
    have hended : b.Ended (v.request r).buffer s.pru.mailbox.dma.curStatus
        (v.request r).qunibusEndAddr (b.moved (s.tables.request r).buffer k ++ cs) := by
      rw [hrecord]
      show b.Ended (Requests.recordChunk (s.tables.request r) (chunkResult s.pru)).buffer _
        (chunkResult s.pru).curAddr _
      rw [hcur]
      rcases hend with ⟨hready, hcuraddr, hcycles⟩ | ⟨-, hended⟩
      · have hall := hlast (beq_iff_eq.mpr hready)
        rw [hcycles, hready, hcuraddr, hall]
        exact .ready
      · exact hended
    refine progress_over (s := s.ackDma) hu hover ?_ ?_ hended ?_ hown
    · intro h
      rw [Requests.Scheduled, hretired.slots, hrecord] at h
      have hempty : Function.update (s.tables.levels levelNpr).slotRequest
        (s.tables.request r).prioritySlot none (s.tables.request r).prioritySlot = some r := h
      rw [Function.update_self] at hempty
      cases hempty
    · rw [hrecord]
      exact ⟨hasked.level, hasked.start, hasked.control, hasked.count, hasked.limit, hbuffer⟩
    · rw [hrecord]
      rfl

/-- Memory and timers change, but not what the machine works on. -/
theorem Progress.of_board {p : Pru} {others : Ddrmem} (h : Progress b words before r s)
    (hboard : p.board = s.pru.board) (hlatch : p.latch = s.pru.latch) :
    Progress b words before r { s with pru := p, others := others } := by
  cases h with
  | waiting k hscheduled ha hasked hchunk hk hown =>
    exact .waiting k hscheduled ha hasked hchunk hk hown
  | finished status cs hscheduled hasked hended hsuccess hown =>
    exact .finished status cs hscheduled hasked hended hsuccess hown
  | running k cs hscheduled ha hasked hchunk hpositive hcount hmax hown hpru =>
    refine .running k cs hscheduled ha hasked hchunk hpositive hcount hmax hown ?_
    refine ⟨hpru.1.of_board hboard, ?_⟩
    have hnow := hpru.2
    dsimp only
    cases hmachine : s.machine with
    | some st =>
      rw [hmachine] at hnow
      exact hnow.of_board hboard hlatch
    | none =>
      rw [hmachine] at hnow
      exact hnow.of_board hboard

theorem Progress.step [DecidableEq δ] {byteCount : ℕ} (h : Progress b words before r s)
    (hs : s.Sound) (hspace : b.InSpace) (hstep : Step byteCount (· ≠ r) s t) :
    Progress b words before r t := by
  cases hstep with
  | dma q args hne hu => exact progress_dma h hs hne hu
  | limit q n hn =>
    have hlevels : (s.tables.modifyRequest q ({ · with chunkMaxWords := n })).levels =
      s.tables.levels := rfl
    rcases eq_or_ne r q with rfl | hne
    · have hrecord := s.tables.modifyRequest_self r ({ · with chunkMaxWords := n })
      refine h.of_tables hrecord hn ?_ Iff.rfl
      rw [Requests.Scheduled, hrecord, hlevels]
      rfl
    · have hrecord := s.tables.modifyRequest_ne ({ · with chunkMaxWords := n }) hne
      exact h.of_same hrecord (Requests.scheduled_iff rfl hrecord) Iff.rfl
  | interrupt u hu hlevel hrequests =>
    have hdma : (s.tables.request r).isDma = true := by
      rw [Request.isDma, h.asked.level]
      rfl
    have hrecord := hrequests r hdma
    exact h.of_same hrecord (Requests.scheduled_iff (by rw [hlevel]) hrecord) (by rw [hlevel])
  | interfere e others => exact h.of_board rfl rfl
  | tick cycle => exact h.of_board rfl rfl
  | call q st l hactive hmachine hanswer => exact progress_call h hs hspace hactive hmachine
  | @complete u hevent hu =>
    have hpending := hs.event.resolve_left (by rw [hevent]; decide)
    have hconsistent := (Requests.workerDmaChunkComplete_orderly hs.consistent hu).1
    obtain ⟨q, hactive, hcases⟩ := Requests.workerDmaChunkComplete_cases hu
    rcases eq_or_ne q r with rfl | hne
    · cases h with
      | waiting k hscheduled ha => exact absurd hactive ha
      | finished status cs hscheduled =>
        exact absurd (hs.consistent.active levelNpr q hactive) hscheduled
      | running k cs hscheduled ha hasked hchunk hpositive hcount hmax hown hpru =>
        exact progress_complete_self hs hspace hasked hchunk hpositive hcount hown hscheduled hpru
          hpending.2.1 hconsistent hcases
    · exact progress_complete_other h hs hspace hne hactive hconsistent
        (hcases.imp (fun h => h.2.2) fun h => h.2)

/-! ## Whole transfers -/

/-- What `DMA()` is called for. -/
def block (args : Requests.DmaArgs) : Block :=
  ⟨args.unibusAddr, args.qunibusCycle, args.wordcount⟩

/-- After a call of `DMA()` that leads to the tables `u`. -/
def afterDma (s : System ι δ) (u : Requests ι δ) : System ι δ :=
  if (s.tables.levels levelNpr).active = none then s.launch u else { s with tables := u }

/-- A DMA request in slot 9, and memory in this board below address 01000. -/
def oneDevice (overlay : UInt) : System (Fin 1) ℕ where
  tables := {
    request _ := {
      device := some 0
      levelIndex := levelNpr
      prioritySlot := ⟨9, by decide⟩
      executingOnPru := false
      complete := false
      signalled := false
      isCpuAccess := false
      success := false
      qunibusControl := 0
      qunibusStartAddr := 0
      qunibusEndAddr := 0
      buffer := fun _ => 0
      wordcount := 0
      chunkMaxWords := 0
      chunkQunibusStartAddr := 0
      chunkWords := 0
      vector := 0
      interruptRegister := none
      interruptRegisterValue := 0 }
    levels _ := .empty }
  pru := { Pru.powerUp with
    addressOverlay := overlay
    emulation := {
      pages := ⟨0, 0o1000, 0o760000, fun _ => 0, fun _ => default⟩
      ddrmem := fun i => i.setWidth 16 + 7
      deviceregister := default } }
  machine := none
  others _ := 0
  cycles := []

/-- The bus lines: nothing but INIT may be there. -/
def initLines (init : Bool) : Lines := fun reg _ => if reg = 7 ∧ init then bit 3 else 0

section FirstWord

variable (overlay : UInt) (count : ℕ) (init : Bool)

/-- The first word is on its way after the given tables. -/
def startWord (u : Requests (Fin 1) ℕ) : System (Fin 1) ℕ :=
  ((oneDevice overlay).afterDma u).call 0 .start (initLines init)

def readWord (u : Requests (Fin 1) ℕ) : System (Fin 1) ℕ :=
  (startWord overlay init u).call 0 .state1 (initLines init)

variable {overlay count init}

end FirstWord

end System

end QUniBone.QUnibusAdapter
