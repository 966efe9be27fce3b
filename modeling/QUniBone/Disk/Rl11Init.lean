import QUniBone.Disk.Rl11Space
import QUniBone.Disk.InitSafe

/-!
# RL11: INIT and the disk

The worker does not see INIT: `reset()` changes the registers it goes by, and it goes on. A command
is kept apart from a reset only if INIT ends while the worker is between two sectors or at rest.

* `ResetCareful`: this condition, besides the one for the calls of `DMA()`.
* `At`: the registers, or a piece, of sector `k` of a command.
* `ResetRun.inv`: the events are in order, and a controller at rest is ready.
-/

namespace QUniBone.RL11

open Disk

/-! ## The condition -/

/-- Neither a sector nor an error is under way. -/
def Worker.resting : Worker → Bool
  | .waiting | .dispatching | .looping => true
  | _ => false

/-- INIT ends at rest, and the disk address is left alone during a transfer. -/
def Rests (s : State) : Action → Prop
  | .writeDA _ => s.regs.functionCode.isTransfer = true → s.regs.state = .controllerReady
  | .initNegated => s.worker.resting = true
  | _ => True

instance decidableRests (s : State) : (a : Action) → Decidable (Rests s a)
  | .writeDA _ => inferInstanceAs (Decidable (_ → _))
  | .initNegated => inferInstanceAs (Decidable (_ = _))
  | .writeCS _ _ _ | .writeBA _ | .writeMP _ | .writeBAE _ | .initAsserted | .wake _ | .dispatch
  | .enter _ _ _ | .callDMA | .dmaComplete _ | .afterDMA | .store _ _ | .incomplete =>
    .isTrue trivial

def ResetCareful (c : Config) (s : State) (a : Action) : Prop := Careful c s a ∧ Rests s a

instance decidableResetCareful (c : Config) (s : State) (a : Action) :
    Decidable (ResetCareful c s a) :=
  inferInstanceAs (Decidable (_ ∧ _))

/-! ## Even addresses -/

theorem and_mask_even (w : BitVec 16) : (w &&& 0xfffe).toNat % 2 = 0 := by
  have hbit : (w &&& 0xfffe).getLsbD 0 = false := by
    rw [BitVec.getLsbD_and]
    exact Bool.and_false _
  rw [BitVec.getLsbD, Nat.testBit_zero, decide_eq_false_iff_not] at hbit
  omega

/-- An even word has nothing to lose. -/
theorem and_mask_of_even {w : BitVec 16} (h : w.toNat % 2 = 0) : w &&& 0xfffe = w := by
  apply BitVec.eq_of_getLsbD_eq
  intro i hi
  rw [BitVec.getLsbD_and]
  by_cases hzero : i = 0
  · have hbit : w.getLsbD 0 = false := by
      rw [BitVec.getLsbD, Nat.testBit_zero, decide_eq_false_iff_not]
      omega
    rw [hzero, hbit]
    rfl
  · have hmask : ∀ i < 16, i ≠ 0 → (0xfffe : BitVec 16).getLsbD i = true := by decide
    rw [hmask i hi hzero, Bool.and_true]

theorem Registers.getQunibusAddress_even (r : Registers) (h : r.busregBA.toNat % 2 = 0) :
    r.getQunibusAddress % 2 = 0 := by
  show (r.qunibusAddressMsb * 2 ^ 16 + r.busregBA.toNat) % 2 = 0
  omega

theorem Registers.getQunibusAddress_update (r : Registers) {addr : ℕ} (h : addr % 2 = 0) :
    (r.updateQunibusAddress addr).getQunibusAddress = addr := by
  have heven : (BitVec.ofNat 16 addr).toNat % 2 = 0 := by
    rw [BitVec.toNat_ofNat]
    omega
  show addr / 2 ^ 16 * 2 ^ 16 + (BitVec.ofNat 16 addr &&& 0xfffe).toNat = addr
  rw [and_mask_of_even heven, BitVec.toNat_ofNat]
  omega

/-! ## Sector by sector -/

/-- Drive, address, word count and disk address of sector `k`. -/
structure At (c : Command) (k unit address count : ℕ) (disk : BitVec 16) : Prop where
  unit : unit = c.unit
  address : address = c.address + 2 * sectorWordcount * k
  count : count + sectorWordcount * k = c.wordcount
  disk : disk.toNat = (c.sector + k) % 2 ^ 16

def Registers.At (r : Registers) (c : Command) (k : ℕ) : Prop :=
  RL11.At c k r.selectedDriveUnitno r.getQunibusAddress r.getMPWordcount r.busregDA

/-- A piece of the command, while its drive is selected. -/
structure PieceAt (r : Registers) (c : Command) (p : Piece) (k : ℕ) : Prop where
  piece : RL11.At c k p.unit p.qunibusAddress p.cmdWordcount p.diskAddress
  selected : r.selectedDriveUnitno = p.unit
  even : p.qunibusAddress % 2 = 0
  /-- the sector that was waited for -/
  header : r.functionCode ≠ .readDataWithoutHeaderCheck → p.sector = p.diskAddress

/-- All words of the piece were transferred. -/
def Moved (p : Piece) : Prop := ∃ ws, p.moved = some ws ∧ ws.length = p.dmaWordcount

/-- The command in progress, and how far it is. -/
def InitPhase (s : State) : Worker → Prop
  | .waiting => s.lineINIT = false → s.regs.state = .controllerReady
  | .signalled =>
    Owns s.history s.command ∧
      (s.regs.functionCode.isTransfer = true → s.regs.At s.command 0)
  | .dispatching =>
    (s.regs.state = .controllerReady ∧ s.regs.functionCode = .noop) ∨
      (Owns s.history s.command ∧
        (s.regs.functionCode.isTransfer = true → s.regs.At s.command 0))
  | .looping =>
    s.regs.state ≠ .controllerReady →
      Owns s.history s.command ∧
        (s.regs.functionCode.isTransfer = true → ∃ k, s.regs.At s.command k)
  | .prepared p => Owns s.history s.command ∧ ∃ k, PieceAt s.regs s.command p k
  | .transfer p _ => Owns s.history s.command ∧ ∃ k, PieceAt s.regs s.command p k
  | .transferred p =>
    Owns s.history s.command ∧
      (s.dmaRequest.success = true → (∃ k, PieceAt s.regs s.command p k) ∧ Moved p)
  | .store p =>
    Owns s.history s.command ∧ (∃ k, PieceAt s.regs s.command p k) ∧ Moved p ∧
      s.regs.getQunibusAddress = p.qunibusAddress + 2 * p.dmaWordcount
  | .incomplete => Owns s.history s.command
  | .dead => True

structure InitInv (c : Config) (s : State) : Prop where
  inv : Inv c s
  safe : InitSafe sectorWordcount s.history
  even : s.regs.busregBA.toNat % 2 = 0
  advances : s.command.inhibit = false
  phase : InitPhase s s.worker

/-! ## The events -/

variable {c : Config} {s t : State}

/-- The command in progress changes registers. -/
theorem safe_update (h : InitSafe sectorWordcount s.history) (ho : Owns s.history s.command)
    (r : Registers) :
    InitSafe sectorWordcount (s.update r).history ∧
      Owns (s.update r).history (s.update r).command :=
  ⟨⟨ho, h⟩, ho.cons nofun⟩

@[simp] theorem command_doCommandDone (s : State) : s.doCommandDone.command = s.command := by
  unfold State.doCommandDone
  dsimp only
  split <;> rfl

theorem safe_doCommandDone (h : InitSafe sectorWordcount s.history)
    (ho : Owns s.history s.command) :
    InitSafe sectorWordcount s.doCommandDone.history ∧
      Owns s.doCommandDone.history s.doCommandDone.command := by
  obtain ⟨hsafe, howns⟩ := safe_update h ho (s.regs.changeState .controllerReady)
  rw [command_doCommandDone]
  unfold State.doCommandDone
  dsimp only
  split
  · exact ⟨⟨howns, hsafe⟩, howns.cons nofun⟩
  · exact ⟨hsafe, howns⟩

theorem safe_operationIncomplete (h : InitSafe sectorWordcount s.history)
    (ho : Owns s.history s.command) :
    InitSafe sectorWordcount s.operationIncomplete.history ∧
      Owns s.operationIncomplete.history s.operationIncomplete.command :=
  safe_doCommandDone h ho

/-- The command is done: the controller is ready, and the worker goes on as it was. -/
theorem initInv_doCommandDone (hcalls : CallsInSpace c.space s.history)
    (h : InitSafe sectorWordcount s.history) (ho : Owns s.history s.command)
    (heven : s.regs.busregBA.toNat % 2 = 0) (hadv : s.command.inhibit = false)
    (hw : s.worker = .looping ∨ s.worker = .waiting) :
    InitInv c s.doCommandDone where
  inv := inv_doCommandDone hcalls hw
  safe := (safe_doCommandDone h ho).1
  even := by
    rw [regs_doCommandDone]
    exact heven
  advances := by
    rw [command_doCommandDone]
    exact hadv
  phase := by
    have hready : s.doCommandDone.regs.state = .controllerReady := by
      rw [regs_doCommandDone]
      rfl
    rw [worker_doCommandDone]
    cases hw with
    | inl hw =>
      rw [hw]
      exact fun hbusy => absurd hready hbusy
    | inr hw =>
      rw [hw]
      exact fun _ => hready

theorem initInv_operationIncomplete (hcalls : CallsInSpace c.space s.history)
    (h : InitSafe sectorWordcount s.history) (ho : Owns s.history s.command)
    (heven : s.regs.busregBA.toNat % 2 = 0) (hadv : s.command.inhibit = false)
    (hw : s.worker = .looping ∨ s.worker = .waiting) :
    InitInv c s.operationIncomplete :=
  initInv_doCommandDone hcalls h ho heven hadv hw

theorem initInv_stateSeek (hcalls : CallsInSpace c.space s.history)
    (h : InitSafe sectorWordcount s.history) (ho : Owns s.history s.command)
    (heven : s.regs.busregBA.toNat % 2 = 0) (hadv : s.command.inhibit = false)
    (hw : s.worker = .looping ∨ s.worker = .waiting)
    (driveReady : Bool) : InitInv c (s.stateSeek driveReady) := by
  unfold State.stateSeek
  split
  · exact initInv_doCommandDone hcalls h ho heven hadv hw
  · exact initInv_operationIncomplete hcalls h ho heven hadv hw

/-- The registers as they are when GO is set are those of the first sector. -/
theorem at_start (s : State) : s.start.regs.At s.start.command 0 where
  unit := rfl
  address := by
    rw [Nat.mul_zero, Nat.add_zero]
    rfl
  count := by
    rw [Nat.mul_zero, Nat.add_zero]
    rfl
  disk := by
    have hlt := s.regs.busregDA.isLt
    show s.regs.busregDA.toNat = (s.regs.busregDA.toNat + 0) % 2 ^ 16
    omega

theorem initInv_go (h : InitInv c s) (hw : s.worker = .waiting) (ht : TransferOk c s.regs)
    (seeking driveReady : Bool) : InitInv c (s.start.go seeking driveReady) := by
  have hinv := inv_go h.inv.calls hw ht seeking driveReady
  have hcalls : CallsInSpace c.space s.start.history := h.inv.calls.cons trivial
  have hsafe : InitSafe sectorWordcount s.start.history := ⟨trivial, h.safe⟩
  have howns : Owns s.start.history s.start.command := owns_started s.history s.start.command
  have hwaiting : s.start.worker = .looping ∨ s.start.worker = .waiting := .inr hw
  have heven : s.start.regs.busregBA.toNat % 2 = 0 := h.even
  revert hinv
  unfold State.go
  split
  · exact fun _ => initInv_doCommandDone hcalls hsafe howns heven rfl hwaiting
  · split
    · exact fun hinv => ⟨hinv, hsafe, heven, rfl, howns, fun _ => at_start s⟩
    · exact fun _ => initInv_stateSeek hcalls hsafe howns heven rfl hwaiting driveReady
  · split
    · exact fun _ => initInv_doCommandDone hcalls hsafe howns heven rfl hwaiting
    · intro _
      have hincomplete := initInv_operationIncomplete hcalls hsafe howns heven rfl hwaiting
      apply initInv_doCommandDone hincomplete.inv.calls hincomplete.safe
      · exact (safe_operationIncomplete hsafe howns).2
      · exact hincomplete.even
      · exact hincomplete.advances
      · right
        show s.start.operationIncomplete.worker = .waiting
        rw [State.operationIncomplete, worker_doCommandDone]
        exact hw
  · exact fun hinv => ⟨hinv, hsafe, heven, rfl, howns, fun _ => at_start s⟩

/-! ## One round of the loop -/

theorem initInv_enterDisk (h : InitInv c s) (hw : s.worker = .looping)
    (hstate : s.regs.state = .rwDisk) (onTrack : Bool) (header : BitVec 16) :
    InitInv c (enterDisk s onTrack header) := by
  have hinv := inv_enterDisk h.inv hw hstate onTrack header
  have hphase := h.phase
  rw [hw] at hphase
  have hbase := h.inv.phase
  rw [hw] at hbase
  obtain ⟨howns, hat⟩ := hphase (by rw [hstate]; nofun)
  obtain ⟨k, hk⟩ := hat (hbase.1 (.inr hstate)).1
  have hpos := hbase.2 hstate
  have heven := s.regs.getQunibusAddress_even h.even
  revert hinv
  unfold enterDisk
  rw [if_neg (Nat.pos_iff_ne_zero.mp hpos)]
  dsimp only
  split
  · rename_i hfunction
    exact fun hinv => ⟨hinv, h.safe, h.even, h.advances, howns, k, hk, rfl, heven,
      fun hheader => absurd hfunction hheader⟩
  · split
    · exact fun hinv => ⟨hinv, h.safe, h.even, h.advances, howns⟩
    · split
      · exact fun _ => h
      · rename_i hheader
        rw [not_not] at hheader
        exact fun hinv => ⟨hinv, h.safe, h.even, h.advances, howns, k, hk, rfl, heven,
          fun _ => hheader⟩

theorem initInv_enterReadwrite (h : InitInv c s) (hw : s.worker = .looping)
    (hstate : s.regs.state = .rwInit ∨ s.regs.state = .rwDisk) (driveReady onTrack : Bool)
    (header : BitVec 16) : InitInv c (enterReadwrite s driveReady onTrack header) := by
  have hinv := inv_enterReadwrite h.inv hw hstate driveReady onTrack header
  have hphase := h.phase
  rw [hw] at hphase
  have hbase := h.inv.phase
  rw [hw] at hbase
  have hbusy : s.regs.state ≠ .controllerReady := by
    cases hstate with
    | inl hs => rw [hs]; nofun
    | inr hs => rw [hs]; nofun
  obtain ⟨howns, hat⟩ := hphase hbusy
  have hfunction := (hbase.1 hstate).1
  revert hinv
  unfold enterReadwrite
  rw [if_neg (by rw [hfunction]; nofun)]
  split
  · exact fun hinv => ⟨hinv, h.safe, h.even, h.advances, howns⟩
  · split
    · split
      · intro _
        exact initInv_doCommandDone (s := { s with regs := s.regs.clearErrors }) h.inv.calls h.safe
          howns h.even h.advances (.inl hw)
      · intro hinv
        have hupdate := safe_update h.safe howns (s.regs.clearErrors.changeState .rwDisk)
        refine ⟨hinv, hupdate.1, h.even, h.advances, ?_⟩
        show InitPhase _ s.worker
        rw [hw]
        exact fun _ => ⟨hupdate.2, hat⟩
    · intro _
      apply initInv_enterDisk h hw
      cases hstate with
      | inl hs => contradiction
      | inr hs => exact hs

theorem initInv_enter (h : InitInv c s) (hw : s.worker = .looping) (driveReady onTrack : Bool)
    (header : BitVec 16) : InitInv c (enter s driveReady onTrack header) := by
  have hinv := inv_enter h.inv hw driveReady onTrack header
  have hphase := h.phase
  rw [hw] at hphase
  revert hinv
  unfold enter
  split
  · rename_i hready
    exact fun hinv => ⟨hinv, h.safe, h.even, h.advances, fun _ => hready⟩
  · exact fun _ => h
  · rename_i hseek
    intro _
    obtain ⟨howns, -⟩ := hphase (by rw [hseek]; nofun)
    exact initInv_stateSeek h.inv.calls h.safe howns h.even h.advances (.inl hw) driveReady
  · rename_i hstate
    exact fun _ => initInv_enterReadwrite h hw (.inl hstate) driveReady onTrack header
  · rename_i hstate
    exact fun _ => initInv_enterReadwrite h hw (.inr hstate) driveReady onTrack header

/-! ## A piece -/

theorem initInv_callDMA {p : Piece} (h : InitInv c s) (hw : s.worker = .prepared p)
    (hinit : s.lineINIT = true → s.dmaRequest.success = false) : InitInv c (callDMA c s p) := by
  have hinv := inv_callDMA h.inv hw hinit
  have hphase := h.phase
  rw [hw] at hphase
  obtain ⟨howns, k, hk⟩ := hphase
  have hbase := h.inv.phase
  rw [hw] at hbase
  have hpiece : PieceOk c s.regs p := hbase
  obtain ⟨cycle, hcall⟩ := hpiece.dmaCall
  have hspace : DmaCall.InSpace c.space
      ⟨cycle, p.qunibusAddress, p.dmaWordcount, sectorWordcount⟩ :=
    ⟨hpiece.dmaWordcount_pos, hpiece.end_le, dmaWordcount_le p⟩
  revert hinv
  unfold callDMA
  rw [hcall]
  dsimp only
  rw [if_neg (not_not.mpr hspace.asserted)]
  split
  · rename_i hline
    refine fun hinv => ⟨hinv, ⟨trivial, h.safe⟩, h.even, h.advances, howns.cons nofun,
      fun hsuccess => ?_⟩
    exact absurd ((hinit hline).symm.trans hsuccess) nofun
  · exact fun hinv => ⟨hinv, ⟨trivial, h.safe⟩, h.even, h.advances, howns.cons nofun, k,
      { hk with }⟩

theorem initInv_dmaComplete {p : Piece} {d : DmaCall} (h : InitInv c s)
    (hw : s.worker = .transfer p d) (ws : List BusWord) : InitInv c (dmaComplete s p d ws) := by
  have hinv := inv_dmaComplete h.inv hw ws
  have hphase := h.phase
  rw [hw] at hphase
  obtain ⟨howns, k, hk⟩ := hphase
  have hbase := h.inv.phase
  rw [hw] at hbase
  refine ⟨hinv, h.safe, h.even, h.advances, howns,
    fun hsuccess => ⟨⟨k, { hk with }⟩, ws, ?_, ?_⟩⟩
  · have hlength : ws.length = d.wordcount := of_decide_eq_true hsuccess
    show (if ws.length = d.wordcount then some ws else none) = some ws
    rw [if_pos hlength]
  · have hlength : ws.length = d.wordcount := of_decide_eq_true hsuccess
    exact hlength.trans hbase.2.2.1

/-- Success was reported of a transfer of all words. -/
theorem initInv_afterDMA {p : Piece} (h : InitInv c s) (hw : s.worker = .transferred p) :
    InitInv c (afterDMA s p) := by
  have hinv := inv_afterDMA h.inv hw
  have hphase := h.phase
  rw [hw] at hphase
  obtain ⟨howns, hdone⟩ := hphase
  have hbase := h.inv.phase
  rw [hw] at hbase
  obtain ⟨hcall, hend⟩ := hbase
  have hreturned : EventOk sectorWordcount s.history
      (.returned s.dmaRequest.success p.moved.isSome) := by
    intro hsuccess
    obtain ⟨-, ws, hws, -⟩ := hdone hsuccess
    rw [hws]
    rfl
  have heven : ∀ addr, (s.regs.updateQunibusAddress addr).busregBA.toNat % 2 = 0 :=
    fun addr => and_mask_even (BitVec.ofNat 16 addr)
  revert hinv
  unfold afterDMA
  simp only [hcall, ↓reduceIte]
  cases hsuccess : s.dmaRequest.success with
  | false =>
    rw [hsuccess] at hreturned
    have howns' : Owns (.returned false p.moved.isSome :: s.history) s.command :=
      howns.cons nofun
    have hlater : Owns (.updated s.command :: .returned false p.moved.isSome :: s.history)
        s.command := howns'.cons nofun
    exact fun hinv => ⟨hinv, ⟨howns', hreturned, h.safe⟩, heven _, h.advances, hlater⟩
  | true =>
    rw [hsuccess] at hreturned
    obtain ⟨-, hend⟩ := hend hsuccess
    obtain ⟨⟨k, hk⟩, hmoved⟩ := hdone hsuccess
    have haddr := hk.even
    have howns' : Owns (.returned true p.moved.isSome :: s.history) s.command :=
      howns.cons nofun
    have hlater : Owns (.updated s.command :: .returned true p.moved.isSome :: s.history)
        s.command := howns'.cons nofun
    refine fun hinv => ⟨hinv, ⟨howns', hreturned, h.safe⟩, heven _, h.advances, hlater,
      ⟨k, { hk with }⟩, hmoved, ?_⟩
    show (s.regs.updateQunibusAddress (s.dmaRequest.endAddr + 2)).getQunibusAddress = _
    rw [hend, s.regs.getQunibusAddress_update (by omega)]

/-- What is written is sector `k`, with the words that were transferred for it. -/
theorem sectorOk_sectorWrite {p : Piece} {k : ℕ} (hk : PieceAt s.regs s.command p k)
    (hadv : s.command.inhibit = false) (hpos : 0 < p.cmdWordcount) (hmoved : Moved p)
    (hfunction : s.regs.functionCode = .writeData) :
    ∃ ws, SectorOk sectorWordcount s.command p.sectorWrite k ws := by
  obtain ⟨ws, hws, hlength⟩ := hmoved
  have hcount := hk.piece.count
  have hleft : s.command.wordcount - sectorWordcount * k = p.cmdWordcount := by omega
  refine ⟨ws, by omega, hk.piece.unit, ?_, ?_, ?_, ?_⟩
  · show p.sector.toNat = _
    rw [hk.header (by rw [hfunction]; nofun)]
    exact hk.piece.disk
  · show p.moved.map (fun ws => (p.qunibusAddress, ws)) = _
    rw [hws, hadv, hk.piece.address]
    rfl
  · rw [hadv, hleft, hlength, p.dmaWordcount_eq]
    rfl
  · show filled sectorWordcount (p.moved.getD []) = _
    rw [hws, hadv]
    rfl

theorem safe_storeSector {p : Piece} {k : ℕ} (h : InitInv c s) (howns : Owns s.history s.command)
    (hk : PieceAt s.regs s.command p k) (hpos : 0 < p.cmdWordcount) (hmoved : Moved p)
    (writable : Bool) :
    InitSafe sectorWordcount (storeSector s p writable).history ∧
      Owns (storeSector s p writable).history (storeSector s p writable).command := by
  unfold storeSector
  split
  · rename_i hwrite
    obtain ⟨ws, hok⟩ := sectorOk_sectorWrite hk h.advances hpos hmoved hwrite.1
    exact ⟨⟨⟨howns, k, ws, hok⟩, h.safe⟩, howns.cons nofun⟩
  · exact ⟨h.safe, howns⟩

@[simp] theorem command_storeSector (s : State) (p : Piece) (writable : Bool) :
    (storeSector s p writable).command = s.command := by
  unfold storeSector
  split <;> rfl

/-- The registers move on to sector `k + 1`. -/
theorem PieceAt.next {p : Piece} {k : ℕ} (hk : PieceAt s.regs s.command p k)
    (hpiece : PieceOk c s.regs p) (hremaining : p.remaining ≠ 0)
    (haddr : s.regs.getQunibusAddress = p.qunibusAddress + 2 * p.dmaWordcount)
    (differs : Bool) : (p.nextRegisters s.regs differs).At s.command (k + 1) where
  unit := hk.selected.trans hk.piece.unit
  address := by
    have haddress := hk.piece.address
    have hsize := p.dmaWordcount_eq
    rw [p.remaining_eq] at hremaining
    show s.regs.getQunibusAddress = _
    rw [haddr]
    unfold sectorWordcount at *
    omega
  count := by
    have hcount := hk.piece.count
    have hlt := hpiece.lt
    have hleft := p.remaining_eq
    show (s.regs.setMPWordcount p.remaining).getMPWordcount + _ = _
    rw [Registers.getMPWordcount_set _ (by omega), Nat.mul_succ]
    unfold sectorWordcount at *
    omega
  disk := by
    have hdisk := hk.piece.disk
    show (p.diskAddress + 1).toNat = _
    rw [BitVec.toNat_add, hdisk]
    show ((s.command.sector + k) % 2 ^ 16 + 1) % 2 ^ 16 = _
    omega

theorem initInv_storePiece {p : Piece} (h : InitInv c s) (hw : s.worker = .store p)
    (writable differs : Bool) : InitInv c (storePiece s p writable differs) := by
  have hinv := inv_storePiece h.inv hw writable differs
  have hphase := h.phase
  rw [hw] at hphase
  obtain ⟨howns, ⟨k, hk⟩, hmoved, haddr⟩ := hphase
  have hbase := h.inv.phase
  rw [hw] at hbase
  obtain ⟨hpiece, -⟩ := hbase
  obtain ⟨hstored, howns⟩ := safe_storeSector h howns hk hpiece.pos hmoved writable
  have hcalls := calls_update (calls_storeSector h.inv.calls p writable)
    (p.nextRegisters s.regs differs)
  obtain ⟨hsafe, howns⟩ := safe_update hstored howns (p.nextRegisters s.regs differs)
  have hcommand := command_storeSector s p writable
  have hadv : (storeSector s p writable).command.inhibit = false := by
    rw [hcommand]
    exact h.advances
  revert hinv
  unfold storePiece
  dsimp only
  split
  · intro _
    apply initInv_doCommandDone
    · exact hcalls
    · exact hsafe
    · exact howns
    · exact h.even
    · exact hadv
    · exact .inl rfl
  · rename_i hremaining
    refine fun hinv => ⟨hinv, ⟨howns, hsafe⟩, h.even, hadv, fun _ => ⟨howns.cons nofun, ?_⟩⟩
    intro _
    refine ⟨k + 1, ?_⟩
    show (p.nextRegisters s.regs differs).At (storeSector s p writable).command (k + 1)
    rw [hcommand]
    exact hk.next hpiece hremaining haddr differs

/-! ## The two threads -/

/-- While no transfer runs, its registers matter to no phase. -/
theorem initInv_write {r : Registers} (h : InitInv c s)
    (hready : s.regs.functionCode.isTransfer = true → s.regs.state = .controllerReady)
    (hstate : r.state = s.regs.state) (hfunction : r.functionCode = s.regs.functionCode)
    (heven : r.busregBA.toNat % 2 = 0) : InitInv c { s with regs := r } := by
  have hbase := h.inv.phase
  have hphase := h.phase
  refine ⟨⟨h.inv.calls, phaseOk_write hbase hready hstate hfunction⟩, h.safe, heven, h.advances,
    ?_⟩
  have hpiece : ∀ p, ¬ PieceOk c s.regs p := by
    intro p hp
    have hr := hready hp.function
    exact absurd (hr.symm.trans hp.state) nofun
  show InitPhase _ s.worker
  cases hw : s.worker with
  | waiting =>
    rw [hw] at hphase
    exact fun hline => hstate.trans (hphase hline)
  | signalled =>
    rw [hw] at hphase hbase
    refine ⟨hphase.1, fun hf => ?_⟩
    have hr := hready (hfunction ▸ hf)
    exact absurd (hr.symm.trans hbase.1) nofun
  | dispatching =>
    rw [hw] at hphase hbase
    cases hphase with
    | inl hnoop => exact .inl ⟨hstate.trans hnoop.1, hfunction.trans hnoop.2⟩
    | inr hbusy =>
      refine .inr ⟨hbusy.1, fun hf => ?_⟩
      have htransfer : s.regs.functionCode.isTransfer = true := hfunction ▸ hf
      have hr := hready htransfer
      cases hbase with
      | inl hnone => exact absurd (htransfer.symm.trans hnone.2) nofun
      | inr hbusy' => exact absurd (hr.symm.trans hbusy'.1) nofun
  | looping =>
    rw [hw] at hphase
    intro hbusy
    have hbusy' : s.regs.state ≠ .controllerReady := fun hr => hbusy (hstate.trans hr)
    exact ⟨(hphase hbusy').1, fun hf => absurd (hready (hfunction ▸ hf)) hbusy'⟩
  | prepared p =>
    rw [hw] at hbase
    exact absurd hbase (hpiece p)
  | transfer p d =>
    rw [hw] at hbase
    exact absurd hbase.1 (hpiece p)
  | transferred p =>
    rw [hw] at hphase hbase
    exact ⟨hphase.1, fun hsuccess => absurd (hbase.2 hsuccess).1 (hpiece p)⟩
  | store p =>
    rw [hw] at hbase
    exact absurd hbase.1 (hpiece p)
  | incomplete =>
    rw [hw] at hphase
    exact hphase
  | dead => trivial

/-- INIT cancels the request that the worker waits for. -/
theorem initInv_cancelRequests (h : InitInv c s) {line : Bool}
    (hline : line = false → s.lineINIT = false ∨ s.regs.state = .controllerReady) :
    InitInv c { s.cancelRequests with lineINIT := line } := by
  have hcalls : CallsInSpace c.space s.cancelRequests.history := by
    rw [history_cancelRequests]
    exact h.inv.calls
  have hinv : Inv c { s.cancelRequests with lineINIT := line } :=
    ⟨hcalls, phaseOk_cancelRequests h.inv⟩
  have hphase := h.phase
  revert hinv
  unfold State.cancelRequests
  split
  · rename_i hw
    rw [hw] at hphase
    exact fun hinv => ⟨hinv, h.safe, h.even, h.advances, hphase.1, nofun⟩
  · refine fun hinv => ⟨hinv, h.safe, h.even, h.advances, ?_⟩
    show InitPhase _ s.worker
    cases hw : s.worker with
    | waiting =>
      rw [hw] at hphase
      intro hl
      cases hline hl with
      | inl hold => exact hphase hold
      | inr hready => exact hready
    | signalled | dispatching | looping | prepared | transfer | transferred | store | incomplete
    | dead =>
      rw [hw] at hphase
      exact hphase

/-- Nothing is left of the command that was reset. -/
theorem initInv_reset (h : InitInv c s) (hw : s.worker.resting = true)
    (hbetween : s.worker.betweenPieces s.dmaRequest = true) : InitInv c s.reset := by
  refine ⟨⟨h.inv.calls.cons trivial, phaseOk_reset h.inv.phase hbetween⟩, ⟨trivial, h.safe⟩, rfl,
    h.advances, ?_⟩
  show InitPhase _ s.worker
  cases hworker : s.worker with
  | waiting => exact fun _ => rfl
  | dispatching => exact .inl ⟨rfl, rfl⟩
  | looping => exact fun hbusy => absurd rfl hbusy
  | signalled | prepared | transfer | transferred | store | incomplete | dead =>
    rw [hworker] at hw
    nomatch hw

theorem initInv_writeCS {w : BitVec 16} {seeking driveReady : Bool} (h : InitInv c s)
    (ha : Careful c s (.writeCS w seeking driveReady))
    (hstep : step c s (.writeCS w seeking driveReady) = some t) : InitInv c t := by
  simp only [step] at hstep
  split at hstep
  · obtain rfl := Option.some.inj hstep
    exact h
  · rename_i hready
    rw [not_not] at hready
    rw [Option.ite_none_left_eq_some] at hstep
    obtain ⟨hunlocked, hstep⟩ := hstep
    have hw : s.worker = .waiting := by
      have hphase := h.inv.phase
      cases hworker : s.worker with
      | waiting => rfl
      | signalled =>
        rw [hworker] at hphase
        exact absurd (hready.symm.trans hphase.1) (by decide)
      | dispatching | looping | prepared | transfer | transferred | store | incomplete | dead =>
        rw [hworker] at hunlocked
        exact absurd rfl hunlocked
    have hwritten : InitInv c { s with regs := s.regs.writeCS w } := by
      refine ⟨⟨h.inv.calls, ?_⟩, h.safe, h.even, h.advances, ?_⟩
      · show PhaseOk c _ _ s.worker
        rw [hw]
        trivial
      · show InitPhase _ s.worker
        rw [hw]
        exact fun _ => hready
    split at hstep
    · obtain rfl := Option.some.inj hstep
      exact hwritten
    · rename_i hgo
      obtain rfl := Option.some.inj hstep
      apply initInv_go hwritten hw
      exact ha hready (Bool.not_eq_true _ ▸ hgo)

theorem initInv_dispatch (h : InitInv c s) (hstep : step c s .dispatch = some t) :
    InitInv c t := by
  have hinv := inv_dispatch h.inv hstep
  have hphase := h.phase
  simp only [step] at hstep
  split at hstep
  · contradiction
  · rename_i hw
    rw [not_not.mp hw] at hphase
    have hloop : InitPhase { s with worker := .looping } .looping := by
      intro hbusy
      cases hphase with
      | inl hnoop => exact absurd hnoop.1 hbusy
      | inr hcommand => exact ⟨hcommand.1, fun hf => ⟨0, hcommand.2 hf⟩⟩
    have howns : s.regs.functionCode ≠ .noop → Owns s.history s.command := by
      intro hf
      cases hphase with
      | inl hnoop => exact absurd hnoop.2 hf
      | inr hcommand => exact hcommand.1
    split at hstep
    · rename_i hseek
      obtain rfl := Option.some.inj hstep
      have howns := howns (by rw [hseek]; decide)
      refine ⟨hinv, ⟨howns, h.safe⟩, h.even, h.advances, fun _ => ⟨howns.updated _, fun hf => ?_⟩⟩
      have hf : s.regs.functionCode.isTransfer = true := hf
      rw [hseek] at hf
      exact absurd hf (by decide)
    · rename_i hheader
      obtain rfl := Option.some.inj hstep
      have howns := howns (by rw [hheader]; decide)
      exact initInv_doCommandDone (s := { s with worker := .looping }) h.inv.calls h.safe howns
        h.even h.advances (.inl rfl)
    · obtain rfl := Option.some.inj hstep
      exact ⟨hinv, h.safe, h.even, h.advances, hloop⟩
    · obtain rfl := Option.some.inj hstep
      exact ⟨hinv, h.safe, h.even, h.advances, hloop⟩
    · rename_i hnoop _
      obtain rfl := Option.some.inj hstep
      have howns := howns hnoop
      refine ⟨hinv, ⟨howns, h.safe⟩, h.even, h.advances, fun _ => ⟨howns.updated _, fun hf => ?_⟩⟩
      cases hphase with
      | inl hnone => exact absurd hnone.2 hnoop
      | inr hcommand => exact ⟨0, hcommand.2 hf⟩

theorem initInv_wake (h : InitInv c s) (hw : s.worker = .signalled) (poweredOff : Bool) :
    InitInv c { s with
      regs := s.regs.clearErrors
      worker := if poweredOff then .incomplete else .dispatching } := by
  have hphase := h.phase
  rw [hw] at hphase
  refine ⟨inv_wake h.inv hw poweredOff, h.safe, h.even, h.advances, ?_⟩
  cases poweredOff with
  | true => exact hphase.1
  | false => exact .inr hphase

theorem initInv_step {a : Action} (h : InitInv c s) (ha : ResetCareful c s a)
    (hstep : step c s a = some t) : InitInv c t := by
  obtain ⟨ha, hrests⟩ := ha
  cases a with
  | writeCS w seeking driveReady => exact initInv_writeCS h ha hstep
  | writeBA w =>
    obtain rfl := Option.some.inj hstep
    exact initInv_write h ha rfl rfl (and_mask_even w)
  | writeDA w =>
    obtain rfl := Option.some.inj hstep
    exact initInv_write h hrests rfl rfl h.even
  | writeMP w =>
    obtain rfl := Option.some.inj hstep
    exact initInv_write h ha rfl rfl h.even
  | writeBAE w =>
    simp only [step, Option.ite_none_right_eq_some] at hstep
    obtain rfl := Option.some.inj hstep.2
    exact initInv_write h ha rfl rfl h.even
  | initAsserted =>
    simp only [step, Option.ite_none_right_eq_some] at hstep
    obtain rfl := Option.some.inj hstep.2
    exact initInv_cancelRequests h fun hl => absurd hl (by decide)
  | initNegated =>
    simp only [step, Option.ite_none_right_eq_some] at hstep
    obtain rfl := Option.some.inj hstep.2
    exact initInv_cancelRequests (initInv_reset h hrests ha) fun _ => .inr rfl
  | wake poweredOff =>
    simp only [step] at hstep
    split at hstep
    · contradiction
    · rename_i hw
      rw [not_not] at hw
      split at hstep
      · rename_i hline
        obtain rfl := Option.some.inj hstep
        exact ⟨⟨h.inv.calls, trivial⟩, h.safe, h.even, h.advances,
          fun hl => absurd (hline.symm.trans hl) (by decide)⟩
      · obtain rfl := Option.some.inj hstep
        exact initInv_wake h hw poweredOff
  | dispatch => exact initInv_dispatch h hstep
  | enter driveReady onTrack header =>
    simp only [step, Option.ite_none_right_eq_some] at hstep
    obtain rfl := Option.some.inj hstep.2
    exact initInv_enter h hstep.1 driveReady onTrack header
  | callDMA =>
    simp only [step] at hstep
    split at hstep
    · rename_i hw
      obtain rfl := Option.some.inj hstep
      exact initInv_callDMA h hw ha
    · contradiction
  | dmaComplete ws =>
    simp only [step] at hstep
    split at hstep
    · rename_i hw
      rw [Option.ite_none_right_eq_some] at hstep
      obtain rfl := Option.some.inj hstep.2
      exact initInv_dmaComplete h hw ws
    · contradiction
  | afterDMA =>
    simp only [step] at hstep
    split at hstep
    · rename_i hw
      obtain rfl := Option.some.inj hstep
      exact initInv_afterDMA h hw
    · contradiction
  | store writable differs =>
    simp only [step] at hstep
    split at hstep
    · rename_i hw
      obtain rfl := Option.some.inj hstep
      exact initInv_storePiece h hw writable differs
    · contradiction
  | incomplete =>
    simp only [step, Option.ite_none_right_eq_some] at hstep
    obtain ⟨hw, hstep⟩ := hstep
    obtain rfl := Option.some.inj hstep
    have howns := h.phase
    rw [hw] at howns
    have hdone := safe_operationIncomplete h.safe howns
    have hready : s.operationIncomplete.regs.state = .controllerReady := by
      rw [State.operationIncomplete, regs_doCommandDone]
      rfl
    refine ⟨⟨calls_doCommandDone h.inv.calls, phaseOk_looping_ready hready⟩, hdone.1, ?_, ?_,
      fun hbusy => absurd hready hbusy⟩
    · show s.operationIncomplete.regs.busregBA.toNat % 2 = 0
      rw [State.operationIncomplete, regs_doCommandDone]
      exact h.even
    · show s.operationIncomplete.command.inhibit = false
      rw [State.operationIncomplete, command_doCommandDone]
      exact h.advances

theorem initInv_initial : InitInv c .initial :=
  ⟨inv_initial, trivial, rfl, rfl, fun _ => rfl⟩

/-- The runs of such steps. -/
def ResetRun (c : Config) : State → Prop :=
  Transition.Reachable (· = .initial) fun s t => ∃ a, ResetCareful c s a ∧ step c s a = some t

theorem ResetRun.inv (h : ResetRun c s) : InitInv c s := by
  apply Transition.Reachable.invariant _ _ h
  · intro s hs
    rw [hs]
    exact initInv_initial
  · rintro s t hs ⟨a, ha, hstep⟩
    exact initInv_step hs ha hstep

end QUniBone.RL11
