import QUniBone.Disk.Rl11
import QUniBone.Disk.DmaData
import QUniBone.Lib.Loop
import QUniBone.Lib.Transition

/-!
# The data that an RL11 transfer moves

`state_readwrite()` with memory and the drive. Here nothing comes between: no INIT, no write to a
register, and the drive stays in lock-on. So the loop of the worker is a function of the registers
and the data.

The platter turns by the calls of the drive: 40 headers and 40 data blocks pass the heads, one
after the other. The image is the words of all sectors.

* `Drive`: the drive, with its commands.
* `Machine`, `round`: the loop. `run_returns`: it is a run of the step relation.
-/

namespace QUniBone.RL11

open Disk Transition

/-! ## The drive -/

theorem segment_succ_lt (segment : ℕ) : (segment + 1) % 80 < 80 := Nat.mod_lt _ (by decide)

/-- `RL0102_c` in `RL0102_STATE_lock_on` -/
structure Drive where
  cylinder : ℕ
  cylinder_lt : cylinder < 512
  head : ℕ
  head_lt : head < 2
  /-- `next_sector_segment_under_heads`: even is a header, odd is data -/
  segment : ℕ
  segment_lt : segment < 80
  /-- the image is read only, or the button is pressed -/
  writeLock : Bool
  errorWge : Bool
  image : ℕ → BusWord

namespace Drive

/-- `NEXT_SECTOR_SEGMENT_ADVANCE` -/
def advance (d : Drive) : Drive :=
  { d with segment := (d.segment + 1) % 80, segment_lt := segment_succ_lt d.segment }

/-- Data pass the heads, up to the next header. -/
def toHeader (d : Drive) : Drive := if d.segment % 2 = 1 then d.advance else d

/-- A header passes the heads, up to the next data. -/
def toData (d : Drive) : Drive := if d.segment % 2 = 0 then d.advance else d

/-- `header_on_track` -/
def headerOnTrack (d : Drive) (header : BitVec 16) : Bool :=
  decide ((header >>> 7).toNat = d.cylinder ∧ (header >>> 6 &&& 1).toNat = d.head ∧
    (header &&& 0x3f).toNat < 40)

/-- The first word of the header of a sector -/
def header (d : Drive) (sectorno : ℕ) : BitVec 16 :=
  BitVec.ofNat 16 (d.cylinder * 2 ^ 7 + d.head * 2 ^ 6 + sectorno)

/-- `cmd_read_next_sector_header` -/
def cmdReadNextSectorHeader (d : Drive) : BitVec 16 × Drive :=
  let d := d.toHeader
  (d.header (d.segment / 2), d.advance)

/-- Where the sector under the heads begins in the image. -/
def offset (d : Drive) : ℕ :=
  ((2 * d.cylinder + d.head) * 40 + d.segment / 2) * sectorWordcount

/-- `cmd_read_next_sector_data` -/
def cmdReadNextSectorData (d : Drive) : Buffer × Drive :=
  let d := d.toData
  (fun i => d.image (d.offset + i), d.advance)

/-- `cmd_write_next_sector_data` -/
def cmdWriteNextSectorData (d : Drive) (buffer : Buffer) : Drive :=
  if d.writeLock then { d with errorWge := true }
  else
    let d := ({ d with errorWge := false } : Drive).toData
    let image := fun i =>
      if d.offset ≤ i ∧ i < d.offset + sectorWordcount then buffer (i - d.offset) else d.image i
    { d with image }.advance

end Drive

/-! ## The loop -/

structure Machine where
  regs : Registers
  memory : ℕ → BusWord
  drive : Drive

namespace Machine

/-- `do_command_done()`, but for the interrupt -/
def commandDone (m : Machine) : Machine :=
  { m with regs := m.regs.changeState .controllerReady }

/-- `do_operation_incomplete()` -/
def operationIncomplete (m : Machine) : Machine :=
  { m with regs := { m.regs with errorOperationIncomplete := true } }.commandDone

/-- The local variables -/
def piece (m : Machine) (header : BitVec 16) : Piece :=
  ⟨m.regs.selectedDriveUnitno, m.regs.getQunibusAddress, m.regs.getMPWordcount, m.regs.busregDA,
    header, none, none⟩

/-- `silo` before the DMA: the sector, or nothing that is to be written -/
def silo (m : Machine) : Buffer × Drive :=
  if m.regs.functionCode = .writeData then (fun _ => 0, m.drive)
  else m.drive.cmdReadNextSectorData

/-- What follows the DMA: `filled` is what it has brought from memory. -/
def stored (m : Machine) (p : Piece) (silo filled : Buffer) : Machine :=
  let differs := (List.range sectorWordcount).any fun i => silo i != filled i
  let t : Machine := { m with
    regs := p.nextRegisters m.regs differs
    drive :=
      if m.regs.functionCode = .writeData then m.drive.cmdWriteNextSectorData filled
      else m.drive }
  if p.remaining = 0 then t.commandDone
  else { t with regs := t.regs.changeState .rwDisk }

/-- The DMA of a sector -/
def transferred (answers : ℕ → Bool) (m : Machine) (p : Piece) (d : DmaCall) : Machine :=
  let (silo, drive) := m.silo
  let n := answered answers d.address d.wordcount
  let request := DmaRequest.completed d n
  let t : Machine := {
    regs := { m.regs.updateQunibusAddress (request.endAddr + 2) with
      errorDmaTimeout := !request.success }
    memory := if d.cycle = .dato then dato m.memory d.address silo n else m.memory
    drive }
  if request.success then t.stored p silo (dati m.memory d.address (fun _ => 0) n)
  else t.operationIncomplete

/-- The transfer of a sector. `none`: an assertion fails. -/
def transfer (c : Config) (answers : ℕ → Bool) (m : Machine) (header : BitVec 16) :
    Option Machine ⊕ Machine :=
  let p := m.piece header
  match dmaCall m.regs.functionCode p with
  | none => .inl none
  | some d => if d.Asserted c.space then .inr (m.transferred answers p d) else .inl none

/-- `RL11_STATE_RW_DISK` -/
def rwDisk (c : Config) (answers : ℕ → Bool) (m : Machine) : Option Machine ⊕ Machine :=
  if m.regs.getMPWordcount = 0 then .inl none
  else if m.regs.functionCode = .readDataWithoutHeaderCheck then m.transfer c answers 0
  else if m.drive.headerOnTrack m.regs.busregDA then
    let (header, drive) := m.drive.cmdReadNextSectorHeader
    let t := { m with drive }
    if header = m.regs.busregDA then t.transfer c answers header else .inr t
  else
    .inr { m with regs := { m.regs with errorHeaderNotFound := true } }.operationIncomplete

/-- `RL11_STATE_RW_INIT` -/
def rwInit (m : Machine) : Machine :=
  let t := { m with regs := m.regs.clearErrors }
  if m.regs.getMPWordcount = 0 then t.commandDone
  else { t with regs := t.regs.changeState .rwDisk }

end Machine

/-- `while (state != RL11_STATE_CONTROLLER_READY)` in `worker()`. A transfer does not come to the
other states. -/
def round (c : Config) (answers : ℕ → Bool) (m : Machine) : Option Machine ⊕ Machine :=
  match m.regs.state with
  | .controllerReady => .inl (some m)
  | .rwInit => if m.regs.functionCode.isTransfer then .inr m.rwInit else .inl none
  | .rwDisk => if m.regs.functionCode.isTransfer then m.rwDisk c answers else .inl none
  | _ => .inr m

/-! ## The step relation

A round is a run of `step`, in which the adapter completes the request and nothing else happens. -/

section Steps

variable {c : Config} {answers : ℕ → Bool} {s : State} {m : Machine}

/-- Between two rounds -/
structure AtTop (s : State) (m : Machine) : Prop where
  worker : s.worker = .looping
  regs : s.regs = m.regs
  lineINIT : s.lineINIT = false

theorem doCommandDone_frame (s : State) :
    s.doCommandDone.regs = s.regs.changeState .controllerReady ∧
      s.doCommandDone.worker = s.worker ∧ s.doCommandDone.lineINIT = s.lineINIT := by
  unfold State.doCommandDone
  dsimp only
  split <;> exact ⟨rfl, rfl, rfl⟩

/-- `do_operation_incomplete()` -/
theorem run_incomplete (hworker : s.worker = .incomplete) (hregs : s.regs = m.regs)
    (hinit : s.lineINIT = false) :
    ∃ t, step c s .incomplete = some t ∧ AtTop t m.operationIncomplete := by
  refine ⟨{ s.operationIncomplete with worker := .looping }, if_pos hworker, rfl, ?_, ?_⟩
  · show s.operationIncomplete.regs = _
    unfold State.operationIncomplete
    rw [(doCommandDone_frame _).1, hregs]
    rfl
  · exact (doCommandDone_frame _).2.2.trans hinit

theorem step_enter (h : s.worker = .looping) (driveReady onTrack : Bool) (header : BitVec 16) :
    step c s (.enter driveReady onTrack header) = some (enter s driveReady onTrack header) :=
  if_pos h

/-- `RL11_STATE_RW_INIT` -/
theorem run_rwInit (h : AtTop s m) (hstate : m.regs.state = .rwInit)
    (hfunction : m.regs.functionCode.isTransfer = true) : AtTop (enter s true true 0) m.rwInit := by
  have hnot : ¬m.regs.functionCode.isTransfer = false := by simp [hfunction]
  unfold enter
  rw [h.regs, hstate]
  show AtTop (enterReadwrite s true true 0) _
  unfold enterReadwrite Machine.rwInit
  rw [h.regs, if_neg hnot, if_neg (by decide), if_pos hstate]
  dsimp only
  split
  · obtain ⟨hregs, hworker, hinit⟩ :=
      doCommandDone_frame { s with regs := m.regs.clearErrors }
    exact ⟨hworker.trans h.worker, hregs, hinit.trans h.lineINIT⟩
  · exact ⟨h.worker, rfl, h.lineINIT⟩

/-- The words of a DMA call, as far as `step` wants to know -/
def dmaWords (answers : ℕ → Bool) (d : DmaCall) : List BusWord :=
  List.replicate (answered answers d.address d.wordcount) 0

/-- `DMA()`, up to its return -/
theorem run_call (answers : ℕ → Bool) {p : Piece} {d : DmaCall} (hworker : s.worker = .prepared p)
    (hregs : s.regs = m.regs) (hinit : s.lineINIT = false)
    (hcall : dmaCall m.regs.functionCode p = some d) (hasserted : d.Asserted c.space) :
    ∃ t p', run (step c) s [.callDMA, .dmaComplete (dmaWords answers d)] = some t ∧
      t.worker = .transferred p' ∧ t.regs = m.regs ∧ t.lineINIT = false ∧
      t.dmaRequest = .completed d (answered answers d.address d.wordcount) ∧
      p'.call = some d ∧ p'.diskAddress = p.diskAddress ∧ p'.cmdWordcount = p.cmdWordcount := by
  have hlength : (dmaWords answers d).length = answered answers d.address d.wordcount :=
    List.length_replicate
  let p₁ : Piece := { p with call := some d }
  let called : State :=
    { s.log (.called d) with worker := .transfer p₁ d, dmaRequest := .scheduled }
  have hcalled : step c s .callDMA = some called := by
    have hstep : step c s .callDMA = some (callDMA c s p) := by
      unfold step
      rw [hworker]
    rw [← hregs] at hcall
    rw [hstep]
    unfold callDMA
    rw [hcall]
    dsimp only
    rw [if_neg (not_not.mpr hasserted), if_neg (by simp [hinit])]
  have hle : (dmaWords answers d).length ≤ d.wordcount := by
    rw [hlength]
    exact answered_le _ _
  have hcomplete : step c called (.dmaComplete (dmaWords answers d)) =
      some (dmaComplete called p₁ d (dmaWords answers d)) := if_pos hle
  refine ⟨dmaComplete called p₁ d (dmaWords answers d), _, ?_, rfl, hregs, hinit, ?_, rfl, rfl, rfl⟩
  · simp only [run, hcalled, hcomplete, Option.bind_some]
  · show DmaRequest.completed d (dmaWords answers d).length = _
    rw [hlength]

/-- The registers when `DMA()` has returned -/
def Registers.returned (r : Registers) (q : DmaRequest) : Registers :=
  { r.updateQunibusAddress (q.endAddr + 2) with errorDmaTimeout := !q.success }

theorem afterDMA_frame {p : Piece} {d : DmaCall} (hcall : p.call = some d) :
    (afterDMA s p).regs = s.regs.returned s.dmaRequest ∧ (afterDMA s p).lineINIT = s.lineINIT ∧
      (afterDMA s p).worker = if s.dmaRequest.success then .store p else .incomplete := by
  unfold afterDMA Registers.returned
  simp only [hcall, Option.isSome_some, ↓reduceIte]
  cases s.dmaRequest.success <;> exact ⟨rfl, rfl, rfl⟩

/-- The registers when the words of the piece are where they should be -/
def Piece.stored (p : Piece) (r : Registers) (differs : Bool) : Registers :=
  (p.nextRegisters r differs).changeState (if p.remaining = 0 then .controllerReady else .rwDisk)

theorem storePiece_frame (p : Piece) (writable differs : Bool) :
    (storePiece s p writable differs).regs = p.stored s.regs differs ∧
      (storePiece s p writable differs).lineINIT = s.lineINIT ∧
      (storePiece s p writable differs).worker = .looping := by
  have hstored : (storeSector s p writable).lineINIT = s.lineINIT := by
    unfold storeSector
    split <;> rfl
  unfold storePiece Piece.stored
  dsimp only
  split
  · obtain ⟨hregs, hworker, hinit⟩ := doCommandDone_frame
      { (storeSector s p writable).update (p.nextRegisters s.regs differs) with
        worker := .looping }
    exact ⟨hregs, hinit.trans hstored, hworker⟩
  · exact ⟨rfl, hstored, rfl⟩

theorem Machine.stored_regs (m : Machine) (p : Piece) (silo filled : Buffer) :
    (m.stored p silo filled).regs =
      p.stored m.regs ((List.range sectorWordcount).any fun i => silo i != filled i) := by
  unfold Machine.stored Piece.stored
  dsimp only
  split <;> rfl

/-- The rest of the round after `DMA()` -/
theorem run_returned {p p' : Piece} {d : DmaCall} (hworker : s.worker = .transferred p')
    (hregs : s.regs = m.regs) (hinit : s.lineINIT = false)
    (hrequest : s.dmaRequest = .completed d (answered answers d.address d.wordcount))
    (hcall : p'.call = some d) (hdisk : p'.diskAddress = p.diskAddress)
    (hcount : p'.cmdWordcount = p.cmdWordcount) :
    ∃ as t, run (step c) s as = some t ∧ AtTop t (m.transferred answers p d) := by
  have hafter : step c s .afterDMA = some (afterDMA s p') := by
    unfold step
    rw [hworker]
  obtain ⟨hafterRegs, hafterInit, hafterWorker⟩ := afterDMA_frame (s := s) hcall
  rw [hregs, hrequest] at hafterRegs
  rw [hinit] at hafterInit
  rw [hrequest] at hafterWorker
  unfold Machine.transferred
  dsimp only
  split
  case isTrue hsuccess =>
    rw [if_pos hsuccess] at hafterWorker
    have hstored (r : Registers) (differs : Bool) : p'.stored r differs = p.stored r differs := by
      unfold Piece.stored Piece.nextRegisters Piece.remaining
      rw [hcount, hdisk]
    let differs : Bool := (List.range sectorWordcount).any fun i =>
      m.silo.1 i != dati m.memory d.address (fun _ => 0) (answered answers d.address d.wordcount) i
    obtain ⟨hstoreRegs, hstoreInit, hstoreWorker⟩ :=
      storePiece_frame (s := afterDMA s p') p' true differs
    have hstore : step c (afterDMA s p') (.store true differs) =
        some (storePiece (afterDMA s p') p' true differs) := by
      unfold step
      rw [hafterWorker]
    refine ⟨[.afterDMA, .store true differs], _, by
      simp only [run, hafter, hstore, Option.bind_some], hstoreWorker, ?_,
      hstoreInit.trans hafterInit⟩
    rw [Machine.stored_regs, hstoreRegs, hstored, hafterRegs]
    rfl
  case isFalse hfailure =>
    rw [if_neg hfailure] at hafterWorker
    let n := answered answers d.address d.wordcount
    let x : Machine :=
      { regs := m.regs.returned (.completed d n)
        memory := if d.cycle = .dato then dato m.memory d.address m.silo.1 n else m.memory
        drive := m.silo.2 }
    obtain ⟨t, ht, htop⟩ := run_incomplete (c := c) (m := x) hafterWorker hafterRegs hafterInit
    exact ⟨[.afterDMA, .incomplete], t, by simp only [run, hafter, ht, Option.bind_some], htop⟩

/-- The transfer of a sector is a run. -/
theorem run_transfer {header : BitVec 16} {m' : Machine}
    (hworker : s.worker = .prepared (m.piece header)) (hregs : s.regs = m.regs)
    (hinit : s.lineINIT = false) (h : m.transfer c answers header = .inr m') :
    ∃ as t, run (step c) s as = some t ∧ AtTop t m' := by
  unfold Machine.transfer at h
  dsimp only at h
  cases hcall : dmaCall m.regs.functionCode (m.piece header) with
  | none =>
    rw [hcall] at h
    cases h
  | some d =>
    rw [hcall] at h
    dsimp only at h
    split at h
    case isFalse => cases h
    case isTrue hasserted =>
      obtain ⟨t, p', hrun, htransferred, htregs, htinit, hrequest, hpcall, hdisk, hcount⟩ :=
        run_call (c := c) answers hworker hregs hinit hcall hasserted
      obtain ⟨as, u, hu, htop⟩ :=
        run_returned (c := c) htransferred htregs htinit hrequest hpcall hdisk hcount
      refine ⟨[.callDMA, .dmaComplete (dmaWords answers d)] ++ as, u, ?_, ?_⟩
      · rw [run_append, hrun]
        exact hu
      · rw [← Sum.inr.inj h]
        exact htop

/-- `RL11_STATE_RW_DISK` -/
theorem run_rwDisk {m' : Machine} (h : AtTop s m) (hstate : m.regs.state = .rwDisk)
    (hfunction : m.regs.functionCode.isTransfer = true) (hround : m.rwDisk c answers = .inr m') :
    ∃ as t, run (step c) s as = some t ∧ AtTop t m' := by
  have hnot : ¬m.regs.functionCode.isTransfer = false := by simp [hfunction]
  have henter (onTrack : Bool) (header : BitVec 16) :
      step c s (.enter true onTrack header) = some (enterDisk s onTrack header) := by
    rw [step_enter h.worker]
    unfold enter
    rw [h.regs, hstate]
    show some (enterReadwrite s true onTrack header) = _
    unfold enterReadwrite
    rw [h.regs, if_neg hnot, if_neg (by decide), if_neg (by rw [hstate]; decide)]
  have hprepared (header : BitVec 16) {d : Drive} (hpiece :
      enterDisk s true header = { s with worker := .prepared (m.piece header) })
      (htransfer : { m with drive := d }.transfer c answers header = .inr m') :
      ∃ as t, run (step c) s as = some t ∧ AtTop t m' := by
    obtain ⟨as, t, hrun, htop⟩ := run_transfer (c := c) (m := { m with drive := d })
      (s := { s with worker := .prepared (m.piece header) }) rfl h.regs h.lineINIT htransfer
    refine ⟨[.enter true true header] ++ as, t, ?_, htop⟩
    rw [run_append]
    simp only [run, henter, hpiece, Option.bind_some]
    exact hrun
  unfold Machine.rwDisk at hround
  split at hround
  case isTrue => cases hround
  case isFalse hcount =>
    have hdisk (onTrack : Bool) (header : BitVec 16) : enterDisk s onTrack header =
        if m.regs.functionCode = .readDataWithoutHeaderCheck then
          { s with worker := .prepared (m.piece header) }
        else if onTrack = false then
          { s with regs := { m.regs with errorHeaderNotFound := true }, worker := .incomplete }
        else if header ≠ m.regs.busregDA then s
        else { s with worker := .prepared (m.piece header) } := by
      unfold enterDisk
      rw [h.regs, if_neg hcount]
      rfl
    split at hround
    case isTrue hnoCheck =>
      exact hprepared 0 (by rw [hdisk, if_pos hnoCheck]) hround
    case isFalse hcheck =>
      split at hround
      case isTrue htrack =>
        dsimp only at hround
        split at hround
        case isTrue hheader =>
          refine hprepared _ ?_ hround
          rw [hdisk, if_neg hcheck, if_neg (by decide), if_neg (not_not.mpr hheader)]
        case isFalse hheader =>
          -- a wrong sector
          have hsame := hdisk true m.drive.cmdReadNextSectorHeader.1
          rw [if_neg hcheck, if_neg (by decide), if_pos hheader] at hsame
          refine ⟨[.enter true true m.drive.cmdReadNextSectorHeader.1], s, ?_, ?_⟩
          · simp only [run, henter, hsame, Option.bind_some]
          · rw [← Sum.inr.inj hround]
            exact ⟨h.worker, h.regs, h.lineINIT⟩
      case isFalse htrack =>
        have hnone := hdisk false 0
        rw [if_neg hcheck, if_pos rfl] at hnone
        obtain ⟨t, ht, htop⟩ := run_incomplete (c := c)
          (m := { m with regs := { m.regs with errorHeaderNotFound := true } })
          (s := { s with
            regs := { m.regs with errorHeaderNotFound := true }, worker := .incomplete })
          rfl rfl h.lineINIT
        refine ⟨[.enter true false 0, .incomplete], t, ?_, ?_⟩
        · simp only [run, henter, hnone, ht, Option.bind_some]
        · rw [← Sum.inr.inj hround]
          exact htop

theorem transfer_inl {header : BitVec 16} {r : Option Machine}
    (h : m.transfer c answers header = .inl r) : r = none := by
  unfold Machine.transfer at h
  dsimp only at h
  split at h
  · exact (Sum.inl.inj h).symm
  · split at h
    · cases h
    · exact (Sum.inl.inj h).symm

/-- In this state only a failure ends the loop. -/
theorem rwDisk_inl {r : Option Machine} (h : m.rwDisk c answers = .inl r) : r = none := by
  unfold Machine.rwDisk at h
  split at h
  · exact (Sum.inl.inj h).symm
  · split at h
    · exact transfer_inl h
    · split at h
      · dsimp only at h
        split at h
        · exact transfer_inl h
        · cases h
      · cases h

/-- The loop of a transfer is a run of the step relation: the registers at its end are the same. -/
theorem run_returns {m' : Machine} (h : AtTop s m)
    (hreturns : Loop.Returns (round c answers) m (some m')) :
    ∃ as t, run (step c) s as = some t ∧ t.regs = m'.regs ∧ t.worker = .waiting := by
  obtain ⟨n, hn⟩ := hreturns
  induction n generalizing s m with
  | zero => cases hn
  | succ n ih =>
    have hnext {x : Machine} {as : List Action} {t : State} (hrun : run (step c) s as = some t)
        (htop : AtTop t x) (hx : Loop.run (round c answers) n x = some (some m')) :
        ∃ as t, run (step c) s as = some t ∧ t.regs = m'.regs ∧ t.worker = .waiting := by
      obtain ⟨bs, u, hu, hend⟩ := ih htop hx
      exact ⟨as ++ bs, u, by rw [run_append, hrun]; exact hu, hend⟩
    unfold Loop.run round at hn
    cases hstate : m.regs.state with
    | controllerReady =>
      rw [hstate] at hn
      obtain rfl := Option.some.inj (Option.some.inj hn)
      have hwait : enter s true true 0 = { s with worker := .waiting } := by
        unfold enter
        rw [h.regs, hstate]
      refine ⟨[.enter true true 0], { s with worker := .waiting }, ?_, h.regs, rfl⟩
      simp only [run, step_enter h.worker, hwait, Option.bind_some]
    | rwInit =>
      rw [hstate] at hn
      by_cases hfunction : m.regs.functionCode.isTransfer = true
      · simp only [if_pos hfunction] at hn
        have hrun : run (step c) s [.enter true true 0] = some (enter s true true 0) := by
          simp only [run, step_enter h.worker, Option.bind_some]
        exact hnext hrun (run_rwInit h hstate hfunction) hn
      · simp only [if_neg hfunction] at hn
        cases hn
    | rwDisk =>
      rw [hstate] at hn
      by_cases hfunction : m.regs.functionCode.isTransfer = true
      · simp only [if_pos hfunction] at hn
        cases hround : m.rwDisk c answers with
        | inl r =>
          rw [hround, rwDisk_inl hround] at hn
          cases hn
        | inr x =>
          rw [hround] at hn
          obtain ⟨as, t, hrun, htop⟩ := run_rwDisk h hstate hfunction hround
          exact hnext hrun htop hn
      · simp only [if_neg hfunction] at hn
        cases hn
    | controllerBusy | seekInit =>
      rw [hstate] at hn
      exact ih h hn

end Steps

end QUniBone.RL11
