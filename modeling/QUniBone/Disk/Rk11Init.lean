import QUniBone.Disk.Rk11Space
import QUniBone.Disk.InitSafe

/-!
# RK11: INIT, Control Reset and the disk

`reset_controller()` does not stop the worker either. Its command ends before a reset, or the rest
of it is seen afterwards.

* `ResetCareful`: a controller is reset when the worker is done, and started outside of INIT.
* `SectorAt`: what the worker and the registers say of sector `k` of a command.
* `ResetRun.inv`: the events are in order, and a controller at rest is ready.
-/

namespace QUniBone.RK11

open Disk

/-! ## The condition -/

def State.AtRest (s : State) : Prop := s.worker = .idle ∧ s.newCommand = none

instance decidableAtRest (s : State) : Decidable s.AtRest :=
  inferInstanceAs (Decidable (_ ∧ _))

def Rests (s : State) : Action → Prop
  | .writeRKCS w _ =>
    w.getLsbD 0 = true →
      ((s.regs.writeRKCS w).function = .controlReset → s.AtRest) ∧
        ((s.regs.writeRKCS w).function.starts = true → s.lineINIT = false)
  | .initAsserted => s.AtRest
  | _ => True

instance decidableRests (s : State) : (a : Action) → Decidable (Rests s a)
  | .writeRKCS _ _ => inferInstanceAs (Decidable (_ → _ ∧ _))
  | .initAsserted => inferInstanceAs (Decidable s.AtRest)
  | .writeRKWC _ | .writeRKBA _ | .writeRKDA _ | .initNegated | .accept | .execute _ | .enter _
  | .callDMA | .dmaComplete _ | .afterDMA _ | .store | .advance | .finish => .isTrue trivial

def ResetCareful (c : Config) (s : State) (a : Action) : Prop := Careful c s a ∧ Rests s a

instance decidableResetCareful (c : Config) (s : State) (a : Action) :
    Decidable (ResetCareful c s a) :=
  inferInstanceAs (Decidable (_ ∧ _))

/-! ## The disk address -/

theorem DiskAddress.surface_ofWord (w : BitVec 16) : (DiskAddress.ofWord w).surface ≤ 1 := by
  have hmask : (w &&& 0x10).toNat ≤ 0x10 := by
    rw [BitVec.toNat_and]
    exact Nat.and_le_right
  show (w &&& 0x10).toNat / 2 ^ 4 ≤ 1
  omega

theorem DiskAddress.surface_increment {a : DiskAddress} (h : a.surface ≤ 1) :
    a.increment.surface ≤ 1 := by
  unfold increment
  split
  · split
    · exact Nat.zero_le 1
    · show a.surface + 1 ≤ 1
      omega
  · exact h

/-- The next sector of the drive. -/
theorem DiskAddress.block_increment {a : DiskAddress} (hvalid : a.Valid) (h : a.surface ≤ 1) :
    a.increment.block = a.block + 1 := by
  have hsector := hvalid.1
  unfold increment block
  split
  · split
    · show ((a.cyl + 1) * 2 + 0) * 12 + 0 = _
      omega
    · show (a.cyl * 2 + (a.surface + 1)) * 12 + 0 = _
      omega
  · show (a.cyl * 2 + a.surface) * 12 + (a.sector + 1) = _
    omega

@[simp] theorem DiskAddress.drive_increment (a : DiskAddress) : a.increment.drive = a.drive := by
  unfold increment
  split
  · split <;> rfl
  · rfl

theorem DiskAddress.block_lt {a : DiskAddress} (hvalid : a.Valid) (h : a.surface ≤ 1) :
    a.block < 2 ^ 16 := by
  obtain ⟨hsector, hcyl⟩ := hvalid
  unfold block
  omega

/-! ## Sector by sector -/

/-- What the worker has taken over from the registers. -/
structure CommandOk (cmd : WorkerCommand) : Prop where
  address : cmd.command.address = cmd.address
  inhibit : cmd.command.inhibit = cmd.iba

/-- A write has come to sector `k`. -/
structure SectorAt (r : Registers) (p : Cursor) (k : ℕ) : Prop where
  unit : r.rkda.drive = p.cmd.command.unit
  sector : r.rkda.block = p.cmd.command.sector + k
  count : p.currentCount + sectorWords * k = p.cmd.command.wordcount
  address : p.currentAddress =
    if p.cmd.iba then p.cmd.address else p.cmd.address + 2 * sectorWords * k

/-- A command that writes to the disk, at a sector of its own. -/
def WriteAt (r : Registers) (p : Cursor) : Prop :=
  CommandOk p.cmd ∧ (p.cmd.function = .write → 0 < p.currentCount → ∃ k, SectorAt r p k)

/-- A sector is under way. -/
def PieceAt (r : Registers) (p : Cursor) : Prop :=
  CommandOk p.cmd ∧ r.rkda.Valid ∧ (p.cmd.function = .write → ∃ k, SectorAt r p k)

theorem SectorAt.registers {r r' : Registers} {p : Cursor} {k : ℕ} (h : SectorAt r p k)
    (hrkda : r'.rkda = r.rkda) : SectorAt r' p k :=
  ⟨hrkda ▸ h.unit, hrkda ▸ h.sector, h.count, h.address⟩

theorem PieceAt.registers {r r' : Registers} {p : Cursor} (h : PieceAt r p)
    (hrkda : r'.rkda = r.rkda) : PieceAt r' p := by
  refine ⟨h.1, hrkda ▸ h.2.1, fun hf => ?_⟩
  obtain ⟨k, hk⟩ := h.2.2 hf
  exact ⟨k, hk.registers hrkda⟩

/-- The first sector, before the worker has read the word count. -/
def FirstOk (r : Registers) (cmd : WorkerCommand) : Prop :=
  CommandOk cmd ∧ r.rkda.drive = cmd.command.unit ∧ r.rkda.block = cmd.command.sector ∧
    r.count.toNat = cmd.command.wordcount

def Moved (p : Cursor) (moved : Option (List BusWord)) : Prop :=
  ∃ ws, moved = some ws ∧ ws.length = p.dmaCall.wordcount

/-- The command in progress, and how far it is. -/
def InitPhase (s : State) : Worker → Prop
  | .idle => True
  | .execute cmd => Owns s.history cmd.command ∧ FirstOk s.regs cmd
  | .looping p => Owns s.history p.cmd.command ∧ WriteAt s.regs p
  | .checking p => Owns s.history p.cmd.command
  | .prepared p => Owns s.history p.cmd.command ∧ PieceAt s.regs p
  | .transfer p d => Owns s.history p.cmd.command ∧ PieceAt s.regs p ∧ d = p.dmaCall
  | .transferred p moved =>
    Owns s.history p.cmd.command ∧ PieceAt s.regs p ∧
      (s.dmaRequest.success = true → Moved p moved)
  | .storing p w =>
    Owns s.history p.cmd.command ∧ PieceAt s.regs p ∧
      ∃ k ws, SectorOk sectorWords p.cmd.command w k ws
  | .advance p _ => Owns s.history p.cmd.command ∧ PieceAt s.regs p
  | .finish cmd _ => Owns s.history cmd.command
  | .dead => True

structure InitInv (c : Config) (s : State) : Prop where
  inv : Inv c s
  safe : InitSafe sectorWords s.history
  surface : s.regs.rkda.surface ≤ 1
  /-- INIT stays away from a command. -/
  line : s.lineINIT = true → s.AtRest
  /-- A command keeps the disk address for itself. -/
  busy : s.regs.rdy = true → s.AtRest
  pending : ∀ cmd, s.newCommand = some cmd → Owns s.history cmd.command ∧ FirstOk s.regs cmd
  phase : InitPhase s s.worker

variable {c : Config} {s t : State} {p : Cursor}

/-- A step of the worker. -/
theorem InitInv.work (h : InitInv c s) (hw : s.worker ≠ .idle) (hinv : Inv c t)
    (hsafe : InitSafe sectorWords t.history) (hsurface : t.regs.rkda.surface ≤ 1)
    (hphase : InitPhase t t.worker) (hrdy : t.regs.rdy = s.regs.rdy)
    (hline : t.lineINIT = s.lineINIT) (hnew : t.newCommand = s.newCommand) : InitInv c t where
  inv := hinv
  safe := hsafe
  surface := hsurface
  line hl := absurd (h.line (hline.symm.trans hl)).1 hw
  busy hr := absurd (h.busy (hrdy.symm.trans hr)).1 hw
  pending cmd hcmd := by
    rw [hnew, h.inv.noPending hw] at hcmd
    nomatch hcmd
  phase := hphase

/-- The phases ask for the disk address only, and before the start for the word count. -/
theorem InitPhase.registers {r : Registers} {w : Worker} (h : InitPhase s w)
    (hrkda : r.rkda = s.regs.rkda) (hrkwc : w.starting = true → r.rkwc = s.regs.rkwc) :
    InitPhase { s with regs := r } w := by
  cases w with
  | idle | checking | finish | dead => exact h
  | execute cmd =>
    obtain ⟨howns, hok, hunit, hblock, hc⟩ := h
    have hcount : r.count = s.regs.count := by
      unfold Registers.count
      rw [hrkwc rfl]
    exact ⟨howns, hok, hrkda ▸ hunit, hrkda ▸ hblock, hcount ▸ hc⟩
  | looping p =>
    refine ⟨h.1, h.2.1, fun hf hpos => ?_⟩
    obtain ⟨k, hk⟩ := h.2.2 hf hpos
    exact ⟨k, hk.registers hrkda⟩
  | prepared p => exact ⟨h.1, h.2.registers hrkda⟩
  | transfer p d => exact ⟨h.1, h.2.1.registers hrkda, h.2.2⟩
  | transferred p moved => exact ⟨h.1, h.2.1.registers hrkda, h.2.2⟩
  | storing p w => exact ⟨h.1, h.2.1.registers hrkda, h.2.2⟩
  | advance p abort => exact ⟨h.1, h.2.registers hrkda⟩

/-! ## The steps of the worker -/

theorem initInv_execute {cmd : WorkerCommand} (h : InitInv c s) (hw : s.worker = .execute cmd)
    (drivePresent : Bool) : InitInv c (execute s cmd drivePresent) := by
  have hinv := inv_execute h.inv hw drivePresent
  have hbusy : s.worker ≠ .idle := by rw [hw]; nofun
  have hphase := h.phase
  rw [hw] at hphase
  obtain ⟨howns, hok, hunit, hblock, hcount⟩ := hphase
  have hfirst : WriteAt s.regs ⟨cmd, cmd.address, s.regs.count⟩ := by
    refine ⟨hok, fun _ hpos => ⟨0, hunit, hblock, ?_, ?_⟩⟩
    · show s.regs.count + sectorWords * (0 : ℕ) = (cmd.command.wordcount : ℤ)
      have hpos : 0 < s.regs.count := hpos
      omega
    · show cmd.address = if cmd.iba then cmd.address else cmd.address + 2 * sectorWords * 0
      rw [Nat.mul_zero, Nat.add_zero, ite_self]
  revert hinv
  unfold execute
  split
  case h_5 =>
    split
    · exact fun hinv => h.work hbusy hinv h.safe h.surface howns rfl rfl rfl
    · exact fun hinv => h.work hbusy hinv ⟨howns, h.safe⟩ h.surface (howns.cons nofun) rfl rfl rfl
  case h_4 => exact fun hinv => h.work hbusy hinv h.safe h.surface howns rfl rfl rfl
  case h_6 => exact fun hinv => h.work hbusy hinv h.safe h.surface howns rfl rfl rfl
  case h_7 => exact fun hinv => h.work hbusy hinv h.safe h.surface howns rfl rfl rfl
  all_goals
    exact fun hinv => h.work hbusy hinv h.safe h.surface ⟨howns, hfirst⟩ rfl rfl rfl

theorem initInv_enter (h : InitInv c s) (hw : s.worker = .looping p) (drivePresent : Bool) :
    InitInv c (enter s p drivePresent) := by
  have hinv := inv_enter h.inv hw drivePresent
  have hbusy : s.worker ≠ .idle := by rw [hw]; nofun
  have hphase := h.phase
  rw [hw] at hphase
  obtain ⟨howns, hok, hat⟩ := hphase
  revert hinv
  unfold enter
  split
  · exact fun hinv => h.work hbusy hinv h.safe h.surface howns rfl rfl rfl
  · rename_i hcount
    rw [not_or, not_le] at hcount
    split
    · rename_i hvalid
      exact fun hinv => h.work hbusy hinv h.safe h.surface
        ⟨howns, hok, hvalid.1, fun hf => hat hf hcount.1⟩ rfl rfl rfl
    · exact fun hinv => h.work hbusy hinv ⟨howns, h.safe⟩ h.surface (howns.cons nofun) rfl rfl rfl

theorem initInv_enterCheck (h : InitInv c s) (hw : s.worker = .checking p)
    (drivePresent : Bool) : InitInv c (enterCheck s p drivePresent) := by
  have hinv := inv_enterCheck h.inv hw drivePresent
  have hbusy : s.worker ≠ .idle := by rw [hw]; nofun
  have howns := h.phase
  rw [hw] at howns
  have hlater : Owns (.updated p.cmd.command :: s.history) p.cmd.command := Owns.cons howns nofun
  have hsurface := DiskAddress.surface_increment h.surface
  revert hinv
  unfold enterCheck
  split
  · exact fun hinv => h.work hbusy hinv h.safe h.surface howns rfl rfl rfl
  · split
    · cases p.cmd.iba with
      | false => exact fun hinv => h.work hbusy hinv ⟨howns, h.safe⟩ hsurface hlater rfl rfl rfl
      | true => exact fun hinv => h.work hbusy hinv ⟨howns, h.safe⟩ hsurface hlater rfl rfl rfl
    · exact fun hinv => h.work hbusy hinv ⟨howns, h.safe⟩ h.surface hlater rfl rfl rfl

theorem initInv_callDMA (h : InitInv c s) (hw : s.worker = .prepared p) :
    InitInv c (callDMA c s p) := by
  have hinv := inv_callDMA h.inv hw
  have hbusy : s.worker ≠ .idle := by rw [hw]; nofun
  have hbase := h.inv.phase
  rw [hw] at hbase
  have hspace := hbase.1.call_inSpace hbase.2
  have hphase := h.phase
  rw [hw] at hphase
  obtain ⟨howns, hpiece⟩ := hphase
  have hline : s.lineINIT = false := by
    cases hl : s.lineINIT with
    | false => rfl
    | true => exact absurd (h.line hl).1 hbusy
  revert hinv
  unfold callDMA
  dsimp only
  rw [if_neg (not_not.mpr hspace.asserted), if_neg (by rw [hline]; nofun)]
  exact fun hinv => h.work hbusy hinv ⟨trivial, h.safe⟩ h.surface
    ⟨howns.cons nofun, hpiece, rfl⟩ rfl rfl rfl

theorem initInv_dmaComplete {d : DmaCall} (h : InitInv c s) (hw : s.worker = .transfer p d)
    (ws : List BusWord) : InitInv c (dmaComplete s p d ws) := by
  have hbusy : s.worker ≠ .idle := by rw [hw]; nofun
  have hbase := h.inv.phase
  rw [hw] at hbase
  have hinv : Inv c (dmaComplete s p d ws) := h.inv.work hbusy h.inv.calls hbase nofun rfl
  have hphase := h.phase
  rw [hw] at hphase
  obtain ⟨howns, hpiece, hd⟩ := hphase
  refine h.work hbusy hinv h.safe h.surface ⟨howns, hpiece, fun hsuccess => ⟨ws, ?_, ?_⟩⟩ rfl rfl
    rfl
  · have hlength : ws.length = d.wordcount := of_decide_eq_true hsuccess
    rw [if_pos hlength]
  · have hlength : ws.length = d.wordcount := of_decide_eq_true hsuccess
    rw [hlength, hd]

theorem Cursor.dmaCall_wordcount (p : Cursor) :
    p.dmaCall.wordcount = if p.cmd.iba then 1 else p.requestCount := by
  unfold Cursor.dmaCall
  dsimp only
  split <;> rfl

/-- What is written is sector `k`, with the words that were transferred for it. -/
theorem sectorOk_afterDMA {r : Registers} {moved : Option (List BusWord)} {k : ℕ}
    (hok : CommandOk p.cmd) (hvalid : r.rkda.Valid) (hsurface : r.rkda.surface ≤ 1)
    (hk : SectorAt r p k) (hpos : 0 < p.currentCount) (hfunction : p.cmd.function = .write)
    (hmoved : Moved p moved) :
    ∃ ws, SectorOk sectorWords p.cmd.command ⟨r.rkda.drive, r.rkda.block, p.buffer moved,
      moved.map fun ws => (p.currentAddress, ws)⟩ k ws := by
  obtain ⟨ws, hws, hlength⟩ := hmoved
  have hcount := hk.count
  have hlt := DiskAddress.block_lt hvalid hsurface
  have hrequest : p.requestCount = min sectorWords (p.cmd.command.wordcount - sectorWords * k) := by
    unfold Cursor.requestCount
    rw [if_neg (by rw [hfunction]; nofun)]
    omega
  rw [p.dmaCall_wordcount, hrequest] at hlength
  refine ⟨ws, by omega, hk.unit, ?_, ?_, ?_, ?_⟩
  · show r.rkda.block = _
    rw [← hk.sector, Nat.mod_eq_of_lt hlt]
  · show moved.map (fun ws => (p.currentAddress, ws)) = _
    rw [hws, hok.inhibit, hok.address, hk.address]
    rfl
  · rw [hok.inhibit, hlength]
  · show p.buffer moved = _
    unfold Cursor.buffer
    rw [hws, hok.inhibit, hrequest]
    dsimp only [Option.getD_some]
    split <;> rfl

theorem initInv_afterDMA {moved : Option (List BusWord)} (h : InitInv c s)
    (hw : s.worker = .transferred p moved) (differs : Bool) :
    InitInv c (afterDMA s p moved differs) := by
  have hinv := inv_afterDMA h.inv hw differs
  have hbusy : s.worker ≠ .idle := by rw [hw]; nofun
  have hbase := h.inv.phase
  rw [hw] at hbase
  have hphase := h.phase
  rw [hw] at hphase
  obtain ⟨howns, hpiece, hmoved⟩ := hphase
  have hreturned : EventOk sectorWords s.history
      (.returned s.dmaRequest.success moved.isSome) := by
    intro hsuccess
    obtain ⟨ws, hws, -⟩ := hmoved hsuccess
    rw [hws]
    rfl
  have howns' : Owns (.returned s.dmaRequest.success moved.isSome :: s.history) p.cmd.command :=
    howns.cons nofun
  revert hinv
  unfold afterDMA
  dsimp only
  split
  · exact fun hinv => h.work hbusy hinv ⟨howns', hreturned, h.safe⟩ h.surface
      ⟨howns'.cons nofun, hpiece.registers rfl⟩ rfl rfl rfl
  · rename_i hsuccess
    rw [Bool.not_eq_false] at hsuccess
    split
    · rename_i hfunction
      obtain ⟨hok, hvalid, hat⟩ := id hpiece
      obtain ⟨k, hk⟩ := hat hfunction
      have hsector := sectorOk_afterDMA hok hvalid h.surface hk hbase.2 hfunction
        (hmoved hsuccess)
      exact fun hinv => h.work hbusy hinv ⟨hreturned, h.safe⟩ h.surface
        ⟨howns', hpiece, k, hsector⟩ rfl rfl rfl
    · split
      · exact fun hinv => h.work hbusy hinv ⟨howns', hreturned, h.safe⟩ h.surface
          ⟨howns'.cons nofun, hpiece.registers rfl⟩ rfl rfl rfl
      · exact fun hinv => h.work hbusy hinv ⟨hreturned, h.safe⟩ h.surface ⟨howns', hpiece⟩ rfl rfl
          rfl

theorem initInv_store {w : SectorWrite} (h : InitInv c s) (hw : s.worker = .storing p w) :
    InitInv c { s.log (.stored p.cmd.command w) with worker := .advance p false } := by
  have hbusy : s.worker ≠ .idle := by rw [hw]; nofun
  have hbase := h.inv.phase
  rw [hw] at hbase
  have hphase := h.phase
  rw [hw] at hphase
  obtain ⟨howns, hpiece, hsector⟩ := hphase
  have hinv := h.inv.work (t := { s.log (.stored p.cmd.command w) with worker := .advance p false })
    hbusy (h.inv.calls.cons trivial) hbase nofun rfl
  exact h.work hbusy hinv ⟨⟨howns, hsector⟩, h.safe⟩ h.surface ⟨howns.cons nofun, hpiece⟩ rfl rfl
    rfl

/-- The registers move on to sector `k + 1`, if there are words for it. -/
theorem PieceAt.next {r : Registers} (h : PieceAt s.regs p) (hsurface : s.regs.rkda.surface ≤ 1)
    (hrkda : r.rkda = s.regs.rkda.increment) :
    WriteAt r ⟨p.cmd,
      if p.cmd.iba then p.currentAddress else p.currentAddress + 2 * p.requestCount,
      p.currentCount - p.requestCount⟩ := by
  obtain ⟨hok, hvalid, hat⟩ := h
  refine ⟨hok, fun hfunction hpos => ?_⟩
  obtain ⟨k, hk⟩ := hat hfunction
  have hpos : 0 < p.currentCount - p.requestCount := hpos
  have hrequest : p.requestCount = sectorWords := by
    have hle := Cursor.requestCount_le (p := p)
    unfold Cursor.requestCount at hpos hle ⊢
    rw [if_neg (by rw [show p.cmd.function = .write from hfunction]; nofun)] at hpos hle ⊢
    omega
  refine ⟨k + 1, ?_, ?_, ?_, ?_⟩
  · rw [hrkda, DiskAddress.drive_increment]
    exact hk.unit
  · have hsector := hk.sector
    rw [hrkda, DiskAddress.block_increment hvalid hsurface]
    show s.regs.rkda.block + 1 = p.cmd.command.sector + (k + 1)
    omega
  · have hcount := hk.count
    show p.currentCount - p.requestCount + sectorWords * ((k + 1 : ℕ) : ℤ) = _
    rw [hrequest]
    push_cast
    rw [mul_add]
    omega
  · have haddress := hk.address
    show (if p.cmd.iba then p.currentAddress else p.currentAddress + 2 * p.requestCount) =
      if p.cmd.iba then p.cmd.address else p.cmd.address + 2 * sectorWords * (k + 1)
    rw [hrequest, haddress]
    split
    · rfl
    · rw [Nat.mul_succ, Nat.add_assoc]

theorem initInv_advance {abort : Bool} (h : InitInv c s) (hw : s.worker = .advance p abort) :
    InitInv c (advance s p abort) := by
  have hinv := inv_advance h.inv hw
  have hbusy : s.worker ≠ .idle := by rw [hw]; nofun
  have hphase := h.phase
  rw [hw] at hphase
  obtain ⟨howns, hpiece⟩ := hphase
  have hlater : Owns (.updated p.cmd.command :: s.history) p.cmd.command := howns.cons nofun
  have hsurface := DiskAddress.surface_increment h.surface
  revert hinv
  unfold advance
  dsimp only
  split
  · cases p.cmd.iba with
    | false => exact fun hinv => h.work hbusy hinv ⟨howns, h.safe⟩ hsurface hlater rfl rfl rfl
    | true => exact fun hinv => h.work hbusy hinv ⟨howns, h.safe⟩ hsurface hlater rfl rfl rfl
  · have hnext : ∀ r : Registers, r.rkda = s.regs.rkda.increment → WriteAt r ⟨p.cmd,
        if p.cmd.iba then p.currentAddress else p.currentAddress + 2 * p.requestCount,
        p.currentCount - p.requestCount⟩ := fun r => hpiece.next h.surface
    revert hnext
    cases p.cmd.iba with
    | false =>
      exact fun hnext hinv => h.work hbusy hinv ⟨howns, h.safe⟩ hsurface
        ⟨hlater, hnext _ rfl⟩ rfl rfl rfl
    | true =>
      exact fun hnext hinv => h.work hbusy hinv ⟨howns, h.safe⟩ hsurface
        ⟨hlater, hnext _ rfl⟩ rfl rfl rfl

theorem initInv_finish {cmd : WorkerCommand} {doInterrupt : Bool} (h : InitInv c s)
    (hw : s.worker = .finish cmd doInterrupt) : InitInv c (finish s cmd doInterrupt) := by
  have hinv := inv_finish h.inv hw
  have hbusy : s.worker ≠ .idle := by rw [hw]; nofun
  have hnone := h.inv.noPending hbusy
  have hpending : ∀ (history : List Event) (r : Registers) (cmd' : WorkerCommand),
      s.newCommand = some cmd' → Owns history cmd'.command ∧ FirstOk r cmd' :=
    fun _ _ _ hcmd => absurd (hnone.symm.trans hcmd) nofun
  have howns := h.phase
  rw [hw] at howns
  have hlater : Owns (.updated cmd.command :: s.history) cmd.command := Owns.cons howns nofun
  revert hinv
  unfold finish
  dsimp only
  split
  · exact fun hinv => ⟨hinv, ⟨hlater, howns, h.safe⟩, h.surface, fun _ => ⟨rfl, hnone⟩,
      fun _ => ⟨rfl, hnone⟩, hpending _ _, trivial⟩
  · exact fun hinv => ⟨hinv, ⟨howns, h.safe⟩, h.surface, fun _ => ⟨rfl, hnone⟩,
      fun _ => ⟨rfl, hnone⟩, hpending _ _, trivial⟩

theorem initInv_accept {cmd : WorkerCommand} (h : InitInv c s) (hcmd : s.newCommand = some cmd) :
    InitInv c { s.update cmd.command { s.regs with go := false } with
      newCommand := none
      worker := .execute cmd } := by
  obtain ⟨howns, hfirst⟩ := h.pending cmd hcmd
  have hbusy : ¬ s.AtRest := fun hrest => absurd (hcmd.symm.trans hrest.2) nofun
  exact ⟨inv_accept h.inv hcmd, ⟨howns, h.safe⟩, h.surface, fun hl => absurd (h.line hl) hbusy,
    fun hr => absurd (h.busy hr) hbusy, nofun, howns.cons nofun, hfirst⟩

/-! ## The steps of the host -/

/-- Registers that no command has yet to read are written. -/
theorem InitInv.registers {r : Registers} (h : InitInv c s) (hrdy : r.rdy = s.regs.rdy)
    (hrkwc : r.rkwc = s.regs.rkwc) (hrkda : r.rkda = s.regs.rkda) :
    InitInv c { s with regs := r } := by
  have hcount : r.count = s.regs.count := by
    unfold Registers.count
    rw [hrkwc]
  refine ⟨h.inv.registers hrdy hrkwc, h.safe, hrkda ▸ h.surface, h.line,
    fun hr => h.busy (hrdy ▸ hr), fun cmd hcmd => ?_, h.phase.registers hrkda fun _ => hrkwc⟩
  obtain ⟨howns, hok, hunit, hblock, hc⟩ := h.pending cmd hcmd
  exact ⟨howns, hok, hrkda ▸ hunit, hrkda ▸ hblock, hcount ▸ hc⟩

/-- At rest the registers are the host's. -/
theorem InitInv.host {r : Registers} (h : InitInv c s) (hrest : s.AtRest)
    (hinv : Inv c { s with regs := r }) (hsurface : r.rkda.surface ≤ 1) :
    InitInv c { s with regs := r } := by
  refine ⟨hinv, h.safe, hsurface, fun _ => hrest, fun _ => hrest, fun cmd hcmd => ?_, ?_⟩
  · exact absurd (hrest.2.symm.trans hcmd) nofun
  · show InitPhase _ s.worker
    rw [hrest.1]
    trivial

theorem initInv_resetController (h : InitInv c s) (hrest : s.AtRest) :
    InitInv c s.resetController := by
  refine ⟨inv_resetController h.inv, ⟨trivial, h.safe⟩, Nat.zero_le 1, fun _ => hrest,
    fun _ => hrest, fun cmd hcmd => ?_, ?_⟩
  · exact absurd (hrest.2.symm.trans hcmd) nofun
  · show InitPhase _ s.worker
    rw [hrest.1]
    trivial

theorem initInv_start (h : InitInv c s) (hrest : s.AtRest) (hline : s.lineINIT = false)
    (hok : s.regs.TransferOk c) : InitInv c (s.start c) := by
  refine ⟨inv_start h.inv hrest.1 hok, ⟨trivial, h.safe⟩, h.surface,
    fun hl => absurd (hline.symm.trans hl) nofun, nofun, fun cmd hcmd => ?_, ?_⟩
  · obtain rfl := Option.some.inj hcmd
    exact ⟨owns_started _ _, ⟨rfl, rfl⟩, rfl, rfl, rfl⟩
  · show InitPhase _ s.worker
    rw [hrest.1]
    trivial

theorem initInv_refuse (h : InitInv c s) (hr : s.regs.rdy = true) (e : Errors) :
    InitInv c (s.refuse e) := by
  unfold State.refuse
  dsimp only
  rw [if_pos hr]
  exact h.registers rfl rfl rfl

theorem initInv_go (h : InitInv c s)
    (hreset : s.regs.function = .controlReset → s.AtRest)
    (hstart : s.regs.function.starts = true →
      s.AtRest ∧ s.lineINIT = false ∧ s.regs.TransferOk c) (driveReady : Bool) :
    InitInv c (s.go c driveReady) := by
  unfold State.go
  dsimp only
  split
  · exact h.registers rfl rfl rfl
  · split
    · rename_i hfunction
      exact initInv_resetController h (hreset hfunction)
    · exact h.registers rfl rfl rfl
    · rename_i hfunction
      obtain ⟨hrest, hline, hok⟩ := hstart (by rw [hfunction]; rfl)
      split
      · exact initInv_start h hrest hline hok
      · exact initInv_refuse h (h.inv.ready hrest.1 hrest.2) _
    · rename_i hcontrol hlock hdrive
      have hstarts : s.regs.function.starts = true := by
        cases hf : s.regs.function with
        | controlReset => exact absurd hf hcontrol
        | writeLock => exact absurd hf hlock
        | write | read | writeCheck | seek | readCheck | driveReset => rfl
      obtain ⟨hrest, hline, hok⟩ := hstart hstarts
      split
      · exact initInv_start h hrest hline hok
      · exact initInv_refuse h (h.inv.ready hrest.1 hrest.2) _

/-- INIT changes at rest. -/
theorem initInv_line (h : InitInv c s) (hrest : s.AtRest) (line : Bool) :
    InitInv c { s.cancelRequests with lineINIT := line } := by
  have hinv := inv_cancelRequests h.inv line
  revert hinv
  unfold State.cancelRequests
  rw [hrest.1]
  intro hinv
  refine ⟨hinv, h.safe, h.surface, fun _ => ?_, fun _ => ?_, h.pending, ?_⟩
  · exact hrest
  · exact hrest
  · show InitPhase _ s.worker
    rw [hrest.1]
    trivial

theorem initInv_step {a : Action} (h : InitInv c s) (ha : ResetCareful c s a)
    (hstep : step c s a = some t) : InitInv c t := by
  obtain ⟨ha, hrests⟩ := ha
  cases a with
  | writeRKCS w driveReady =>
    simp only [step] at hstep
    have hwritten : InitInv c { s with regs := s.regs.writeRKCS w } := h.registers rfl rfl rfl
    split at hstep
    · rename_i hgo
      obtain rfl := Option.some.inj hstep
      obtain ⟨hreset, hline⟩ := hrests hgo
      refine initInv_go hwritten hreset (fun hstarts => ?_) driveReady
      obtain ⟨hidle, hnone, hok⟩ := ha hgo hstarts
      exact ⟨⟨hidle, hnone⟩, hline hstarts, hok⟩
    · obtain rfl := Option.some.inj hstep
      exact hwritten
  | writeRKWC w =>
    have hinv := inv_step h.inv ha hstep
    obtain rfl := Option.some.inj hstep
    obtain ⟨hnone, hw⟩ := ha
    exact ⟨hinv, h.safe, h.surface, h.line, h.busy,
      fun cmd hcmd => absurd (hcmd.symm.trans hnone) (Option.some_ne_none cmd),
      h.phase.registers rfl fun hstarting => absurd (hw.symm.trans hstarting) (by decide)⟩
  | writeRKBA w =>
    obtain rfl := Option.some.inj hstep
    exact h.registers rfl rfl rfl
  | writeRKDA w =>
    have hinv := inv_step h.inv ha hstep
    simp only [step] at hstep
    split at hstep
    · rename_i hready
      obtain rfl := Option.some.inj hstep
      exact h.host (h.busy hready) hinv (DiskAddress.surface_ofWord w)
    · obtain rfl := Option.some.inj hstep
      exact h
  | initAsserted =>
    simp only [step, Option.ite_none_right_eq_some] at hstep
    obtain rfl := Option.some.inj hstep.2
    exact initInv_line (initInv_resetController h hrests) hrests true
  | initNegated =>
    simp only [step, Option.ite_none_right_eq_some] at hstep
    obtain rfl := Option.some.inj hstep.2
    exact initInv_line h (h.line hstep.1) false
  | accept =>
    simp only [step] at hstep
    split at hstep
    · rename_i hcmd
      obtain rfl := Option.some.inj hstep
      exact initInv_accept h hcmd
    · contradiction
  | execute drivePresent =>
    simp only [step] at hstep
    split at hstep
    · rename_i hw
      obtain rfl := Option.some.inj hstep
      exact initInv_execute h hw drivePresent
    · contradiction
  | enter drivePresent =>
    simp only [step] at hstep
    split at hstep
    · rename_i hw
      obtain rfl := Option.some.inj hstep
      exact initInv_enter h hw drivePresent
    · rename_i hw
      obtain rfl := Option.some.inj hstep
      exact initInv_enterCheck h hw drivePresent
    · contradiction
  | callDMA =>
    simp only [step] at hstep
    split at hstep
    · rename_i hw
      obtain rfl := Option.some.inj hstep
      exact initInv_callDMA h hw
    · contradiction
  | dmaComplete ws =>
    simp only [step] at hstep
    split at hstep
    · rename_i hw
      rw [Option.ite_none_right_eq_some] at hstep
      obtain rfl := Option.some.inj hstep.2
      exact initInv_dmaComplete h hw ws
    · contradiction
  | afterDMA differs =>
    simp only [step] at hstep
    split at hstep
    · rename_i hw
      obtain rfl := Option.some.inj hstep
      exact initInv_afterDMA h hw differs
    · contradiction
  | store =>
    simp only [step] at hstep
    split at hstep
    · rename_i hw
      obtain rfl := Option.some.inj hstep
      exact initInv_store h hw
    · contradiction
  | advance =>
    simp only [step] at hstep
    split at hstep
    · rename_i hw
      obtain rfl := Option.some.inj hstep
      exact initInv_advance h hw
    · contradiction
  | finish =>
    simp only [step] at hstep
    split at hstep
    · rename_i hw
      obtain rfl := Option.some.inj hstep
      exact initInv_finish h hw
    · contradiction

theorem initInv_initial : InitInv c .initial :=
  ⟨inv_initial, trivial, Nat.zero_le 1, nofun, fun _ => ⟨rfl, rfl⟩, nofun, trivial⟩

/-- The runs of such steps. -/
def ResetRun (c : Config) : State → Prop :=
  Transition.Reachable (· = .initial) fun s t => ∃ a, ResetCareful c s a ∧ step c s a = some t

theorem ResetRun.inv (h : ResetRun c s) : InitInv c s := by
  apply Transition.Reachable.invariant _ _ h
  · intro s hs
    rw [hs]
    exact initInv_initial
  · rintro s t hs ⟨a, ha, hstep⟩
    exact initInv_step hs ha hstep

end QUniBone.RK11
