import QUniBone.Disk.Rl11Space
import QUniBone.Disk.Rk11Space
import QUniBone.Disk.Rx211
import QUniBone.Disk.Rf11
import QUniBone.Mscp.PortRuns

/-!
# The preconditions of `DMA()`

The five controllers with DMA next to each other. None but the RF11 looks at the address before
the call, and so a guest that writes an address near the end of the address space reaches the
assertion in `DMA()`.

* `dma_preconditions`: as long as the guest is careful, all calls are sound.
* `rl11_aborts`: a transfer by the RL11 that begins in front of the end of an 18 bit bus.
-/

namespace QUniBone.Disk

open Transition

/-- 18 address lines -/
def unibusSpace : ℕ := 2 ^ 18

/-- The calls of the controllers are sound and no assertion has failed. An address out of the
address space is seen by the RF11 before the call. -/
theorem dma_preconditions {rlConfig : RL11.Config} {rl : RL11.State}
    (hrl : RL11.CarefulRun rlConfig rl) {rkConfig : RK11.Config} {rk : RK11.State}
    (hrk : RK11.CarefulRun rkConfig rk) {space : ℕ} {rx : RX211.State}
    (hrx : RX211.CarefulRun space rx) {rf : RF11.State} (hrf : RF11.CarefulRun space rf)
    {host : UDA50.Host} {drives : ℕ → UDA50.Drive} {uda : UDA50.State}
    (huda : UDA50.CarefulRun host drives uda) :
    CallsInSpace rlConfig.space rl.history ∧
    CallsInSpace rkConfig.space rk.history ∧
    CallsInSpace space rx.history ∧
    (CallsInSpace space rf.history ∧
      (rf.transfer.currentAddress + 2 * rf.transfer.wordCount > space →
        (RF11.execute space rf true).nem = true ∧
          (RF11.execute space rf true).history = rf.history)) ∧
    (∀ a ∈ uda.calls, a.call.InSpace host.space) ∧ uda.crash ≠ some .assertion :=
  ⟨hrl.inv.calls, hrk.inv.calls, hrx.inv.calls, ⟨hrf.inv.calls, RF11.execute_outOfSpace⟩,
    huda.inv.calls, huda.inv.alive⟩

/-! ## Runs -/

/-- READ DATA of 200 words to address 4096 -/
def rl11Read : List RL11.Action :=
  [.writeBA 0x1000, .writeDA 5, .writeMP 0xff38, .writeCS 0x0c false true, .wake false,
    .dispatch, .enter true true 0, .enter true true 5, .callDMA]

/-- Write of 300 words, from the last 600 bytes of the memory -/
def rk11Write : List RK11.Action :=
  [.writeRKDA 3, .writeRKBA 0xfda8, .writeRKWC 0xfed4, .writeRKCS 0x33 true, .accept,
    .execute true, .enter true, .callDMA]

/-- Fill Buffer with 64 words from address 8192 -/
def rx211Fill : List RX211.Action :=
  [.writeRX2CS 0x01 true, .writeRX2DB 64, .writeRX2DB 0x2000, .wake]

/-- Read of 100 words to address 4096 -/
def rf11Read : List RF11.Action :=
  [.writeCMA 0x1000, .writeWC 0xff9c, .writeDCS 0x05, .accept, .execute true]

/-- Reset and initialization, with a ring of one descriptor each at address 4096. -/
def uda50Init : List UDA50.Action :=
  [.writeIP, .takeStep, .branch, .reset, .clearFields, .transition, .takeStep, .branch, .stepDone,
    .writeSA 0x8000, .takeStep, .branch, .stepDone, .writeSA 0x1000, .takeStep, .branch,
    .stepDone, .writeSA 0, .takeStep, .branch, .workerRun, .workerCall (some [])]

def uda50Host : UDA50.Host where
  space := unibusSpace
  longest := 60
  bounds := ⟨by decide, by decide⟩

def noDrives : ℕ → UDA50.Drive := fun _ => ⟨false, false, 0, 0⟩

theorem rl11Read_run : ∃ s, .called ⟨.dato, 4096, 128, 128⟩ ∈ s.history ∧
    RL11.CarefulRun ⟨unibusSpace, false⟩ s := by
  have hlog : (run (guarded (RL11.Careful ⟨unibusSpace, false⟩)
      (RL11.step ⟨unibusSpace, false⟩)) .initial rl11Read).map
        (fun s => s.history.head?) = some (some (.called ⟨.dato, 4096, 128, 128⟩)) := by decide
  obtain ⟨s, hs, hhead⟩ := Option.map_eq_some_iff.mp hlog
  exact ⟨s, List.mem_of_head? hhead, reachable_of_guarded rfl hs⟩

theorem rk11Write_run : ∃ s, .called ⟨.dati, 0x3fda8, 256, 256⟩ ∈ s.history ∧
    RK11.CarefulRun ⟨unibusSpace, false⟩ s := by
  have hlog : (run (guarded (RK11.Careful ⟨unibusSpace, false⟩)
      (RK11.step ⟨unibusSpace, false⟩)) .initial rk11Write).map
        (fun s => s.history.head?) = some (some (.called ⟨.dati, 0x3fda8, 256, 256⟩)) := by
    decide
  obtain ⟨s, hs, hhead⟩ := Option.map_eq_some_iff.mp hlog
  exact ⟨s, List.mem_of_head? hhead, reachable_of_guarded rfl hs⟩

theorem rx211Fill_run : ∃ s, .called ⟨.dati, 8192, 64, 256⟩ ∈ s.history ∧
    RX211.CarefulRun unibusSpace s := by
  have hlog : (run (guarded (RX211.Careful unibusSpace) (RX211.step unibusSpace)) .initial
      rx211Fill).map (fun s => s.history.head?)
        = some (some (.called ⟨.dati, 8192, 64, 256⟩)) := by decide
  obtain ⟨s, hs, hhead⟩ := Option.map_eq_some_iff.mp hlog
  exact ⟨s, List.mem_of_head? hhead, reachable_of_guarded rfl hs⟩

theorem rf11Read_run : ∃ s, .called ⟨.dato, 4096, 100, 100⟩ ∈ s.history ∧
    RF11.CarefulRun unibusSpace s := by
  have hlog : (run (guarded RF11.Careful (RF11.step unibusSpace)) .initial rf11Read).map
      (fun s => s.history.head?) = some (some (.called ⟨.dato, 4096, 100, 100⟩)) := by decide
  obtain ⟨s, hs, hhead⟩ := Option.map_eq_some_iff.mp hlog
  exact ⟨s, List.mem_of_head? hhead, reachable_of_guarded rfl hs⟩

theorem uda50Init_run : ∃ s, s.calls.length = 1 ∧ UDA50.CarefulRun uda50Host noDrives s := by
  have hlog : (run (guarded (UDA50.Careful uda50Host) (UDA50.step uda50Host.space))
      (.initial noDrives) uda50Init).map (fun s => s.calls.length) = some 1 := by decide
  obtain ⟨s, hs, hlength⟩ := Option.map_eq_some_iff.mp hlog
  exact ⟨s, hlength, reachable_of_guarded rfl hs⟩

/-- Each of the controllers has made a call. -/
theorem dma_preconditions_runs :
    ∃ (rl : RL11.State) (rk : RK11.State) (rx : RX211.State) (rf : RF11.State) (uda : UDA50.State),
      .called ⟨.dato, 4096, 128, 128⟩ ∈ rl.history ∧ CallsInSpace unibusSpace rl.history ∧
      .called ⟨.dati, 0x3fda8, 256, 256⟩ ∈ rk.history ∧ CallsInSpace unibusSpace rk.history ∧
      .called ⟨.dati, 8192, 64, 256⟩ ∈ rx.history ∧ CallsInSpace unibusSpace rx.history ∧
      .called ⟨.dato, 4096, 100, 100⟩ ∈ rf.history ∧ CallsInSpace unibusSpace rf.history ∧
      uda.calls.length = 1 ∧ ∀ a ∈ uda.calls, a.call.InSpace unibusSpace := by
  obtain ⟨rl, hrl, hrlRun⟩ := rl11Read_run
  obtain ⟨rk, hrk, hrkRun⟩ := rk11Write_run
  obtain ⟨rx, hrx, hrxRun⟩ := rx211Fill_run
  obtain ⟨rf, hrf, hrfRun⟩ := rf11Read_run
  obtain ⟨uda, huda, hudaRun⟩ := uda50Init_run
  obtain ⟨rlCalls, rkCalls, rxCalls, ⟨rfCalls, -⟩, udaCalls, -⟩ :=
    dma_preconditions hrlRun hrkRun hrxRun hrfRun hudaRun
  exact ⟨rl, rk, rx, rf, uda, hrl, rlCalls, hrk, rkCalls, hrx, rxCalls, hrf, rfCalls, huda,
    udaCalls⟩

/-- READ DATA of 128 words to the last word of an 18 bit bus. -/
def rl11ReadAtEnd : List RL11.Action :=
  [.writeBA 0xfffe, .writeDA 5, .writeMP 0xff80, .writeCS 0x3c false true, .wake false,
    .dispatch, .enter true true 0, .enter true true 5, .callDMA]

/-- The assertion in `DMA()` fails, and no error bit is set. -/
theorem rl11_aborts :
    ¬ ∀ s, Reachable (· = RL11.State.initial)
        (fun s t => ∃ a, RL11.step ⟨unibusSpace, false⟩ s a = some t) s →
      CallsInSpace unibusSpace s.history := by
  intro hall
  have hlog : (run (RL11.step ⟨unibusSpace, false⟩) .initial rl11ReadAtEnd).map
      (fun s => (s.history.head?, s.regs.errorDmaTimeout)) = some (some .failed, false) := by
    decide
  obtain ⟨s, hs, hend⟩ := Option.map_eq_some_iff.mp hlog
  obtain ⟨hhead, -⟩ := Prod.mk.inj hend
  have hcalls := hall s (.run (fun u a v h => ⟨a, h⟩) (.init rfl) hs)
  exact hcalls.noFailure (List.mem_of_head? hhead)

end QUniBone.Disk
