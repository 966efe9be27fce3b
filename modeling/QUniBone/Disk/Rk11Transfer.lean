import QUniBone.Disk.Rk11
import QUniBone.Disk.DmaData
import QUniBone.Lib.Loop
import QUniBone.Lib.Transition

/-!
# The data that an RK11 transfer moves

`Worker_Execute` for Read, Write and Write Check with memory and the disks. Here nothing comes
between: no INIT, no write to a register, no new command. So the loop is a function of the registers
and the data.

The image of a drive is the words of its sectors, one sector after the other.

* `Machine`, `round`: the loop. `run_returns`: it is a run of the step relation.
* `Transfer`: a command with everything that decides what comes of it.
-/

namespace QUniBone.RK11

open Disk Transition

/-! ## DMA -/

structure DmaResult where
  memory : ℕ → BusWord
  buffer : Buffer
  timeout : Bool

/-- `dma_transfer()` -/
def dmaTransfer (answers : ℕ → Bool) (p : Cursor) (memory : ℕ → BusWord) (buffer : Buffer) :
    DmaResult :=
  let d := p.dmaCall
  let n := answered answers d.address d.wordcount
  match d.cycle with
  | .dato =>
    let offset := if p.cmd.iba then p.requestCount - 1 else 0
    { memory := dato memory d.address (fun i => buffer (offset + i)) n
      buffer := buffer
      timeout := decide (n ≠ d.wordcount) }
  | .dati =>
    let filled := dati memory d.address buffer n
    { memory := memory
      buffer :=
        if p.cmd.iba then fun i => if i < p.requestCount then filled 0 else filled i else filled
      timeout := decide (n ≠ d.wordcount) }

/-! ## The loop -/

structure Machine where
  regs : Registers
  rkdb : BusWord
  memory : ℕ → BusWord
  /-- the words of the image of each drive -/
  disks : ℕ → ℕ → BusWord

/-- The registers move to the next sector. -/
def Registers.moved (r : Registers) (p : Cursor) : Registers :=
  let address := p.currentAddress + 2 * p.requestCount
  { r with
    rkwc := BitVec.ofInt 16 (-(p.currentCount - p.requestCount))
    rkda := r.rkda.increment
    rkba := if p.cmd.iba then r.rkba else BitVec.ofNat 16 address
    mex := if p.cmd.iba then r.mex else address / 2 ^ 16 % 4 }

/-- The local variables move to the next sector. -/
def Cursor.moved (p : Cursor) : Cursor where
  cmd := p.cmd
  currentAddress :=
    if p.cmd.iba then p.currentAddress else p.currentAddress + 2 * p.requestCount
  currentCount := p.currentCount - p.requestCount

namespace Machine

/-- `read_sector()` of the selected drive -/
def readSector (m : Machine) : Buffer := fun i =>
  m.disks m.regs.rkda.drive (m.regs.rkda.block * sectorWords + i)

/-- `write_sector()` of the selected drive -/
def writeSector (m : Machine) (buffer : Buffer) : Machine :=
  let start := m.regs.rkda.block * sectorWords
  { m with
    disks := Function.update m.disks m.regs.rkda.drive fun i =>
      if start ≤ i ∧ i < start + sectorWords then buffer (i - start)
      else m.disks m.regs.rkda.drive i }

/-- `sectorBuffer` before the DMA: cleared, and for Read the sector or its header in it -/
def sectorBuffer (m : Machine) (p : Cursor) : Buffer :=
  if p.cmd.function = .read then
    if p.cmd.format then
      fun i => if i = 0 then BitVec.ofNat 16 (m.regs.rkda.cyl * 2 ^ 5) else 0
    else m.readSector
  else fun _ => 0

/-- `sectorBuffer[i] != checkBuffer[i]` for some word of the request -/
def differs (m : Machine) (p : Cursor) (buffer : Buffer) : Bool :=
  (List.range p.requestCount).any fun i => buffer i != m.readSector i

/-- What follows the DMA, and `abort` -/
def complete (m : Machine) (p : Cursor) (x : DmaResult) : Machine × Bool :=
  let t := { m with memory := x.memory }
  if x.timeout then
    let e := { m.regs.errors with nxm := true, he := true, err := true }
    ({ t with regs := { m.regs with errors := e } }, true)
  else
    match p.cmd.function with
    | .write => (t.writeSector x.buffer, false)
    | .writeCheck =>
      let differs := m.differs p x.buffer
      let e := { m.regs.errors with
        wce := m.regs.errors.wce || differs, err := m.regs.errors.err || differs }
      ({ t with regs := { m.regs with errors := e } }, e.wce && m.regs.sse)
    | _ => ({ t with rkdb := x.buffer (p.requestCount - 1) }, false)

/-- The machine at the next sector -/
def moved (m : Machine) (p : Cursor) : Machine := { m with regs := m.regs.moved p }

end Machine

/-- `while (current_count > 0 && !abort)`. `none`: an assertion fails. -/
def round (c : Config) (answers : ℕ → Bool) (drivePresent : Bool) (s : Machine × Cursor) :
    Option Machine ⊕ Machine × Cursor :=
  let (m, p) := s
  if p.currentCount ≤ 0 then .inl (some m)
  else if m.regs.rkda.Valid ∧ drivePresent = true then
    if p.dmaCall.Asserted c.space then
      let (t, abort) := m.complete p (dmaTransfer answers p m.memory (m.sectorBuffer p))
      if abort then .inl (some (t.moved p)) else .inr (t.moved p, p.moved)
    else .inl none
  else
    let e := validateSeek m.regs drivePresent
    let ovr := m.regs.errors.ovr || decide (m.regs.rkda.cyl > 202)
    .inl (some { m with regs := { m.regs with errors := { e with ovr := ovr } } })

/-! ## The step relation

A round is a run of `step`, in which the adapter completes the request and nothing else happens. -/

section Steps

variable {c : Config} {answers : ℕ → Bool} {drivePresent : Bool} {s : State} {m : Machine}
  {p : Cursor}

/-- Between two rounds -/
structure AtTop (s : State) (m : Machine) (p : Cursor) : Prop where
  worker : s.worker = .looping p
  regs : s.regs = m.regs
  newCommand : s.newCommand = none
  lineINIT : s.lineINIT = false

/-- The words of a DMA call, as far as `step` wants to know -/
def dmaWords (answers : ℕ → Bool) (p : Cursor) : List BusWord :=
  List.replicate (answered answers p.dmaCall.address p.dmaCall.wordcount) 0

/-- Up to the return of `DMA()` -/
theorem run_transfer (answers : ℕ → Bool) (h : AtTop s m p) (hpos : ¬p.currentCount ≤ 0)
    (hvalid : m.regs.rkda.Valid ∧ drivePresent = true) (hasserted : p.dmaCall.Asserted c.space) :
    ∃ t, run (step c) s [.enter drivePresent, .callDMA, .dmaComplete (dmaWords answers p)] =
        some t ∧ t.regs = m.regs ∧ t.newCommand = none ∧ t.lineINIT = false ∧
      (t.dmaRequest.success = true ↔
        answered answers p.dmaCall.address p.dmaCall.wordcount = p.dmaCall.wordcount) ∧
      ∃ moved, t.worker = .transferred p moved := by
  have henter : step c s (.enter drivePresent) = some { s with worker := .prepared p } := by
    have hnew : ¬(p.currentCount ≤ 0 ∨ s.newCommand.isSome = true) := by
      rw [h.newCommand]
      simpa using hpos
    unfold step
    rw [h.worker]
    simp only [enter]
    rw [if_neg hnew, h.regs, if_pos hvalid]
  have hlength : (dmaWords answers p).length =
      answered answers p.dmaCall.address p.dmaCall.wordcount := List.length_replicate
  have hle : (dmaWords answers p).length ≤ p.dmaCall.wordcount := by
    rw [hlength]
    exact answered_le _ _
  let called : State :=
    { s.log (.called p.dmaCall) with worker := .transfer p p.dmaCall, dmaRequest := .scheduled }
  have hcall : step c { s with worker := .prepared p } .callDMA = some called := by
    have hinit : ¬s.lineINIT = true := by simp [h.lineINIT]
    show some (callDMA c { s with worker := .prepared p } p) = _
    unfold callDMA
    dsimp only
    rw [if_neg (not_not.mpr hasserted), if_neg hinit]
    rfl
  have hcomplete : step c called (.dmaComplete (dmaWords answers p)) =
      some (dmaComplete called p p.dmaCall (dmaWords answers p)) := if_pos hle
  refine ⟨dmaComplete called p p.dmaCall (dmaWords answers p), ?_, h.regs, h.newCommand, h.lineINIT,
    ?_, _, rfl⟩
  · simp only [run, henter, hcall, hcomplete, Option.bind_some]
  · show decide ((dmaWords answers p).length = p.dmaCall.wordcount) = true ↔ _
    rw [decide_eq_true_eq, hlength]

/-- The end of the round -/
theorem step_advance {abort : Bool} (h : s.worker = .advance p abort) :
    ∃ t, step c s .advance = some t ∧ t.regs = s.regs.moved p ∧ t.newCommand = s.newCommand ∧
      t.lineINIT = s.lineINIT ∧
      t.worker = if abort then .finish p.cmd true else .looping p.moved := by
  have hstep : step c s .advance = some (advance s p abort) := by
    unfold step
    rw [h]
  refine ⟨_, hstep, ?_⟩
  have hregs : (if p.cmd.iba then
      { s.regs with
        rkwc := BitVec.ofInt 16 (-(p.currentCount - p.requestCount))
        rkda := s.regs.rkda.increment }
    else
      { s.regs with
        rkwc := BitVec.ofInt 16 (-(p.currentCount - p.requestCount))
        rkda := s.regs.rkda.increment
        rkba := BitVec.ofNat 16 (p.currentAddress + 2 * p.requestCount)
        mex := (p.currentAddress + 2 * p.requestCount) / 2 ^ 16 % 4 }) = s.regs.moved p := by
    unfold Registers.moved
    cases p.cmd.iba <;> rfl
  unfold advance
  dsimp only
  rw [hregs]
  cases abort <;> exact ⟨rfl, rfl, rfl, rfl⟩

/-- What the end of a round leaves -/
structure AtEnd (s t : State) (p : Cursor) (regs : Registers) (abort : Bool) : Prop where
  regs : t.regs = regs.moved p
  newCommand : t.newCommand = s.newCommand
  lineINIT : t.lineINIT = s.lineINIT
  worker : t.worker = if abort then .finish p.cmd true else .looping p.moved

/-- When nothing is written to the disk -/
theorem run_afterDMA {moved : Option (List BusWord)} {differs abort : Bool}
    (hworker : s.worker = .transferred p moved)
    (hafter : (afterDMA s p moved differs).worker = .advance p abort) :
    ∃ as t, run (step c) s as = some t ∧
      AtEnd (afterDMA s p moved differs) t p (afterDMA s p moved differs).regs abort := by
  have hstep : step c s (.afterDMA differs) = some (afterDMA s p moved differs) := by
    unfold step
    rw [hworker]
  obtain ⟨t, ht, hregs, hnew, hinit, hend⟩ := step_advance (c := c) hafter
  refine ⟨[.afterDMA differs, .advance], t, ?_, hregs, hnew, hinit, hend⟩
  simp only [run, hstep, ht, Option.bind_some]

/-- From the return of `DMA()` to the end of the round -/
theorem run_complete {moved : Option (List BusWord)} (hworker : s.worker = .transferred p moved)
    (hregs : s.regs = m.regs) {x : DmaResult} (htimeout : s.dmaRequest.success = !x.timeout) :
    ∃ as t, run (step c) s as = some t ∧
      AtEnd s t p (m.complete p x).1.regs (m.complete p x).2 := by
  unfold Machine.complete
  cases hx : x.timeout with
  | true =>
    rw [hx] at htimeout
    have hafter : afterDMA s p moved false =
        { (s.log (.returned false moved.isSome)).update p.cmd.command { s.regs with
            errors := { s.regs.errors with nxm := true, he := true, err := true } } with
          worker := .advance p true } := by
      unfold afterDMA
      simp [htimeout]
    obtain ⟨as, t, hrun, hend⟩ := run_afterDMA (c := c) hworker (by rw [hafter])
    rw [hafter] at hend
    rw [if_pos rfl, ← hregs]
    exact ⟨as, t, hrun, hend.regs, hend.newCommand, hend.lineINIT, hend.worker⟩
  | false =>
    rw [hx] at htimeout
    have hsuccess : ¬s.dmaRequest.success = false := by simp [htimeout]
    have hnext (hwrite : p.cmd.function ≠ .write) (hcheck : p.cmd.function ≠ .writeCheck) :
        ∃ as t, run (step c) s as = some t ∧ AtEnd s t p m.regs false := by
      have hafter : afterDMA s p moved false =
          { s.log (.returned s.dmaRequest.success moved.isSome) with
            worker := .advance p false } := by
        unfold afterDMA
        dsimp only
        rw [if_neg hsuccess, if_neg hwrite, if_neg hcheck]
      obtain ⟨as, t, hrun, hend⟩ := run_afterDMA (c := c) hworker (by rw [hafter])
      rw [hafter] at hend
      rw [← hregs]
      exact ⟨as, t, hrun, hend.regs, hend.newCommand, hend.lineINIT, hend.worker⟩
    rw [if_neg Bool.false_ne_true]
    cases hfunction : p.cmd.function with
    | write =>
      -- `write_sector()` is one more step
      have hafter : ∃ w, afterDMA s p moved false =
          { s.log (.returned s.dmaRequest.success moved.isSome) with worker := .storing p w } := by
        unfold afterDMA
        dsimp only
        rw [if_neg hsuccess, if_pos hfunction]
        exact ⟨_, rfl⟩
      obtain ⟨w, hw⟩ := hafter
      have hreturn : step c s (.afterDMA false) =
          some { s.log (.returned s.dmaRequest.success moved.isSome) with
            worker := .storing p w } := by
        unfold step
        rw [hworker, ← hw]
      let stored : State :=
        { (s.log (.returned s.dmaRequest.success moved.isSome)).log
            (.stored p.cmd.command w) with
          worker := .advance p false }
      obtain ⟨t, ht, hend⟩ := step_advance (c := c) (s := stored) rfl
      refine ⟨[.afterDMA false, .store, .advance], t, ?_, ?_, hend.2.1, hend.2.2.1, hend.2.2.2⟩
      · show (step c s _).bind _ = _
        rw [hreturn]
        show (step c stored .advance).bind _ = _
        rw [ht]
        rfl
      · rw [hend.1, ← hregs]
        rfl
    | writeCheck =>
      let differs := m.differs p x.buffer
      have hafter : afterDMA s p moved differs =
          { (s.log (.returned s.dmaRequest.success moved.isSome)).update p.cmd.command
              { s.regs with
                errors := { s.regs.errors with
                  wce := s.regs.errors.wce || differs
                  err := s.regs.errors.err || differs } } with
            worker := .advance p ((s.regs.errors.wce || differs) && s.regs.sse) } := by
        have hwrite : p.cmd.function ≠ .write := by simp [hfunction]
        unfold afterDMA
        dsimp only
        rw [if_neg hsuccess, if_neg hwrite, if_pos hfunction]
      obtain ⟨as, t, hrun, hend⟩ := run_afterDMA (c := c) hworker (by rw [hafter])
      rw [hafter] at hend
      rw [← hregs]
      exact ⟨as, t, hrun, hend.regs, hend.newCommand, hend.lineINIT, hend.worker⟩
    | _ => exact hnext (by simp [hfunction]) (by simp [hfunction])

/-- `timeout` is what the completed request says. -/
theorem dmaTransfer_timeout_iff (p : Cursor) (memory : ℕ → BusWord) (buffer : Buffer) :
    (dmaTransfer answers p memory buffer).timeout = true ↔
      ¬answered answers p.dmaCall.address p.dmaCall.wordcount = p.dmaCall.wordcount := by
  unfold dmaTransfer
  cases hcycle : p.dmaCall.cycle with
  | dati => simp only [hcycle, decide_eq_true_eq, ne_eq]
  | dato => simp only [hcycle, decide_eq_true_eq, ne_eq]

/-- A round that moves words is a run of the step relation. -/
theorem run_round (answers : ℕ → Bool) (h : AtTop s m p) (hpos : ¬p.currentCount ≤ 0)
    (hvalid : m.regs.rkda.Valid ∧ drivePresent = true) (hasserted : p.dmaCall.Asserted c.space) :
    let x := dmaTransfer answers p m.memory (m.sectorBuffer p)
    ∃ as t, run (step c) s as = some t ∧
      AtEnd s t p (m.complete p x).1.regs (m.complete p x).2 := by
  intro x
  obtain ⟨u, hu, hregs, hnew, hinit, hsuccess, moved, hmoved⟩ :=
    run_transfer answers h hpos hvalid hasserted
  have htimeout : u.dmaRequest.success = !x.timeout := by
    have hx : x.timeout = true ↔ _ := dmaTransfer_timeout_iff p m.memory (m.sectorBuffer p)
    rw [Bool.eq_iff_iff, hsuccess, Bool.not_eq_true', ← Bool.not_eq_true, hx, not_not]
  obtain ⟨as, t, hrun, hend⟩ := run_complete (c := c) hmoved hregs htimeout
  refine ⟨[.enter drivePresent, .callDMA, .dmaComplete (dmaWords answers p)] ++ as, t, ?_,
    hend.regs, hend.newCommand.trans (hnew.trans h.newCommand.symm),
    hend.lineINIT.trans (hinit.trans h.lineINIT.symm), hend.worker⟩
  rw [run_append, hu]
  exact hrun

/-- The loop is a run of the step relation: the registers at its end are the same. -/
theorem run_returns {m' : Machine} (h : AtTop s m p)
    (hreturns : Loop.Returns (round c answers drivePresent) (m, p) (some m')) :
    ∃ as t, run (step c) s as = some t ∧ t.regs = m'.regs ∧ t.worker = .finish p.cmd true := by
  obtain ⟨n, hn⟩ := hreturns
  induction n generalizing s m p with
  | zero => cases hn
  | succ n ih =>
    have henter : step c s (.enter drivePresent) = some (enter s p drivePresent) := by
      unfold step
      rw [h.worker]
    have hone {u : State} (hu : enter s p drivePresent = u) :
        run (step c) s [.enter drivePresent] = some u := by
      simp only [run, henter, hu, Option.bind_some]
    unfold Loop.run round at hn
    unfold enter at hone
    dsimp only at hn
    by_cases hcount : p.currentCount ≤ 0
    · rw [if_pos hcount] at hn
      obtain rfl := Option.some.inj (Option.some.inj hn)
      rw [if_pos (Or.inl hcount)] at hone
      exact ⟨_, _, hone rfl, h.regs, rfl⟩
    · have hgo : ¬(p.currentCount ≤ 0 ∨ s.newCommand.isSome = true) := by
        rw [h.newCommand]
        simpa using hcount
      rw [if_neg hcount] at hn
      rw [if_neg hgo, h.regs] at hone
      by_cases hvalid : m.regs.rkda.Valid ∧ drivePresent = true
      · rw [if_pos hvalid] at hn
        by_cases hasserted : p.dmaCall.Asserted c.space
        · rw [if_pos hasserted] at hn
          obtain ⟨as, t, hrun, hend⟩ := run_round (c := c) answers h hcount hvalid hasserted
          have hworker := hend.worker
          split at hn
          next habort =>
            split at habort
            case isTrue hstop =>
              rw [if_pos hstop] at hworker
              cases habort
              obtain rfl := Option.some.inj (Option.some.inj hn)
              exact ⟨as, t, hrun, hend.regs, hworker⟩
            case isFalse => cases habort
          next habort =>
            split at habort
            case isTrue => cases habort
            case isFalse hgo =>
              rw [if_neg hgo] at hworker
              cases habort
              obtain ⟨bs, u, hbs, hu⟩ := ih ⟨hworker, hend.regs,
                hend.newCommand.trans h.newCommand, hend.lineINIT.trans h.lineINIT⟩ hn
              refine ⟨as ++ bs, u, ?_, hu⟩
              rw [run_append, hrun]
              exact hbs
        · rw [if_neg hasserted] at hn
          cases hn
      · rw [if_neg hvalid] at hn hone
        obtain rfl := Option.some.inj (Option.some.inj hn)
        exact ⟨_, _, hone rfl, rfl, rfl⟩

end Steps

/-! ## Commands -/

/-- A data transfer: the registers as they were written, GO in RKCS, the drive, the bus and the
data. -/
structure Transfer (c : Config) where
  rkcs : BitVec 16
  rkwc : BitVec 16
  rkba : BitVec 16
  rkda : BitVec 16
  isTransfer : (Registers.initial.writeRKCS rkcs).function.isTransfer = true
  drivePresent : Bool
  /-- something answers at the address -/
  answers : ℕ → Bool
  answers_inSpace : ∀ a, answers a = true → a + 2 ≤ c.space
  rkdb : BusWord
  memory : ℕ → BusWord
  disks : ℕ → ℕ → BusWord

namespace Transfer

variable {c : Config} (t : Transfer c)

/-- When the command is handed over, with the errors of earlier commands -/
def regs (e : Errors) : Registers :=
  { Registers.initial.writeRKCS t.rkcs with
    rdy := false
    rkwc := t.rkwc
    rkba := t.rkba
    rkda := .ofWord t.rkda
    errors := e }

/-- `command`, as it is handed over -/
def cmd : WorkerCommand :=
  let s : State := { State.initial with regs := t.regs .none }
  ((s.start c).newCommand).get rfl

def start (e : Errors) : Machine × Cursor :=
  ({ regs := t.regs e, rkdb := t.rkdb, memory := t.memory, disks := t.disks },
    ⟨t.cmd, t.cmd.address, (t.regs e).count⟩)

/-- The loop of the command ends with the machine. -/
def Returns (e : Errors) (m : Machine) : Prop :=
  Loop.Returns (round c t.answers t.drivePresent) (t.start e) (some m)

end Transfer

end QUniBone.RK11
