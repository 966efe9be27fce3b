import QUniBone.Disk.Dma

/-!
# What INIT must not spoil

Conditions on the events of a controller, which hold of each event after those before it.

* `SectorOk`: a sector that a command may write.
* `Owns`: a command that was started since the last reset.
* `InitSafe`: success is reported of complete transfers only, the sectors written are those of the
  command, and after a reset there is nothing from a command before it.
-/

namespace QUniBone.Disk

/-- Sector `k` of a command, with the words that were transferred from memory for it. -/
structure SectorOk (size : ℕ) (c : Command) (w : SectorWrite) (k : ℕ) (ws : List BusWord) :
    Prop where
  /-- the command has words for this sector -/
  lt : size * k < c.wordcount
  unit : w.unit = c.unit
  sector : w.sector = (c.sector + k) % 2 ^ 16
  source : w.source = some (if c.inhibit then c.address else c.address + 2 * size * k, ws)
  length : ws.length = if c.inhibit then 1 else min size (c.wordcount - size * k)
  words : w.words = filled size
    (if c.inhibit then List.replicate (min size (c.wordcount - size * k)) (ws.headD 0) else ws)

/-- The command was started, and there was no reset since. -/
def Owns (history : List Event) (c : Command) : Prop :=
  .started c ∈ history.takeWhile (· ≠ .reset)

def EventOk (size : ℕ) (history : List Event) : Event → Prop
  | .returned reported complete => reported = true → complete = true
  | .stored c w => Owns history c ∧ ∃ k ws, SectorOk size c w k ws
  | .raised c => Owns history c
  | .updated c => Owns history c
  | .failed => False
  | _ => True

def InitSafe (size : ℕ) : List Event → Prop
  | [] => True
  | e :: history => EventOk size history e ∧ InitSafe size history

variable {size : ℕ} {history : List Event} {c : Command} {e : Event}

theorem owns_started (history : List Event) (c : Command) : Owns (.started c :: history) c := by
  unfold Owns
  rw [List.takeWhile_cons_of_pos (by simp)]
  exact List.mem_cons_self

theorem Owns.cons (h : Owns history c) (he : e ≠ .reset) : Owns (e :: history) c := by
  unfold Owns
  rw [List.takeWhile_cons_of_pos (by simpa using he)]
  exact List.mem_cons_of_mem e h

theorem Owns.updated (h : Owns history c) (d : Command) : Owns (.updated d :: history) c :=
  h.cons nofun

/-- What was written to the disk, from any point of the history. -/
theorem InitSafe.stored {w : SectorWrite} (h : InitSafe size history)
    (hmem : .stored c w ∈ history) : ∃ k ws, SectorOk size c w k ws := by
  induction history with
  | nil => nomatch hmem
  | cons e history ih =>
    cases hmem with
    | head => exact h.1.2
    | tail _ hmem => exact ih h.2 hmem

end QUniBone.Disk
