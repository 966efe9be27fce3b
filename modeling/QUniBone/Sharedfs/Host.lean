import QUniBone.Sharedfs.Partition
import QUniBone.Sharedfs.FileTree

/-!
# Host events

What the shared directory tells a DEC file system: `filesystem_host_event_c`, and the files it is
about.

* `Tm`: `struct tm`, of which only the day is used.
* `HostFile`, `HostEvent`: files and events of the shared directory.
* `Failure`: how an operation on a DEC file system fails.
* `history`: events one after the other.
-/

namespace QUniBone.Sharedfs

/-- `struct tm`: year, month from 0, day of the month -/
structure Tm where
  year : ℤ
  mon : ℤ
  mday : ℤ
  deriving DecidableEq

/-- `null_time()` -/
def nullTime : Tm := ⟨0, 0, 0⟩

/-- `date_adjust()` and `dos11date_adjust()`: years from a first one to 1999 -/
def Tm.adjust (first : ℤ) (t : Tm) : Tm where
  year := if t.year < first then first else if t.year > 99 then 99 else t.year
  mon := t.mon
  mday := if t.mday < 1 then 1 else t.mday

/-- `file_host_c`, or `directory_host_c` -/
structure HostFile where
  /-- the directories above it, without the root -/
  dir : List Text
  filename : Text
  isDir : Bool
  data : List (BitVec 8)
  modificationTime : Tm
  readonly : Bool

namespace HostFile

/-- `filesystem_host_c::get_host_path()` -/
def path (h : HostFile) : Text := (h.dir ++ [h.filename]).flatMap ('/' :: ·)

def fileSize (h : HostFile) : ℕ := h.data.length

/-- A plain file in the root directory, the only kind that the DEC file systems take. -/
def Accepted (h : HostFile) : Prop := h.isDir = false ∧ h.dir = []

instance decidableAccepted (h : HostFile) : Decidable h.Accepted :=
  inferInstanceAs (Decidable (_ ∧ _))

end HostFile

inductive HostEvent
  | create (file : HostFile)
  | modify (file : HostFile)
  | delete (path : Text)

/-- `host_path` -/
def HostEvent.path : HostEvent → Text
  | .create file => file.path
  | .modify file => file.path
  | .delete path => path

/-- `filesystem_exception`, by its message -/
inductive Error
  | overflow
  | diskFull (name : Text) (size : ℕ)
  | bootblockSize
  | monitorSize (size max : ℕ)
  | bootblockIllegal (size : ℕ)
  | monitorIllegal (size : ℕ)
  | firstDirBlocknr (found : ℕ)
  | totalSegNum (segment : ℕ)
  | nextSegment (found max : ℕ)
  | entriesExceed
  | dirExtSize (size max : ℕ)
  | blockListTooLong
  | tooManyFiles
  | layoutFull
  | fileTooLarge
  | imageTooSmall
  deriving DecidableEq

inductive Failure
  | exception (e : Error)
  | fault (f : Fault)
  deriving DecidableEq

/-! ## Sequences of events -/

/-- One event, with the file system before and after it -/
structure Change (σ : Type) where
  before : σ
  event : HostEvent
  after : σ

/-- Events in turn. A failure ends the thread that hands them over. -/
def history {σ : Type} (consume : σ → HostEvent → EStateM.Result Failure σ Unit) (s : σ) :
    List HostEvent → List (Change σ)
  | [] => []
  | e :: es =>
    match consume s e with
    | .ok _ t => ⟨s, e, t⟩ :: history consume t es
    | .error _ t => [⟨s, e, t⟩]

theorem history_cons {σ : Type} {consume : σ → HostEvent → EStateM.Result Failure σ Unit} {s t : σ}
    {e : HostEvent} (h : consume s e = .ok () t) (es : List HostEvent) :
    history consume s (e :: es) = ⟨s, e, t⟩ :: history consume t es := by
  rw [history, h]

/-- The file systems that events lead to. -/
inductive Reached {σ : Type} (consume : σ → HostEvent → EStateM.Result Failure σ Unit) (s : σ) :
    σ → Prop
  | start : Reached consume s s
  | next {t u : σ} (e : HostEvent) (ht : Reached consume s t) (hu : consume t e = .ok () u) :
    Reached consume s u

/-- What every event preserves holds of the file systems that events lead to. -/
theorem Reached.invariant {σ : Type} {consume : σ → HostEvent → EStateM.Result Failure σ Unit}
    {I : σ → Prop} (hstep : ∀ s e t, I s → consume s e = .ok () t → I t) {s t : σ} (hs : I s)
    (ht : Reached consume s t) : I t := by
  induction ht with
  | start => exact hs
  | next e _ hu ih => exact hstep _ e _ ih hu

/-- What every event preserves holds before every event. -/
theorem history_before {σ : Type} {consume : σ → HostEvent → EStateM.Result Failure σ Unit}
    {I : σ → Prop} (hstep : ∀ s e, I s → I (Prog.finalState (consume s e))) {s : σ} (hs : I s)
    {es : List HostEvent} {c : Change σ} (hc : c ∈ history consume s es) :
    I c.before ∧ c.after = Prog.finalState (consume c.before c.event) := by
  induction es generalizing s with
  | nil => simp [history] at hc
  | cons e es ih =>
    have hnext := hstep s e hs
    unfold history at hc
    split at hc
    · next t heq =>
      rw [heq] at hnext
      rcases List.mem_cons.mp hc with rfl | hrest
      · exact ⟨hs, by rw [heq, Prog.finalState_ok]⟩
      · exact ih hnext hrest
    · next t heq =>
      obtain rfl := List.mem_singleton.mp hc
      exact ⟨hs, by rw [heq, Prog.finalState_error]⟩

end QUniBone.Sharedfs
