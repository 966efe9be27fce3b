import QUniBone.Mscp.Rings
import QUniBone.Lib.Transition

/-!
# Transition interrupts

When all of a ring is the port's, the host has nothing to do there and sleeps. The port has to
interrupt when it releases a descriptor of such a ring. It looks before it releases: the host can
fill the ring and go to sleep in between.

* `Awaited`: what a sleeping host relies on.
* `Ring.Wf`, `Inv`: the invariant. The descriptors with the ownership bit are the window between
  two counters.
* `awaited_of_careful`: in runs without the race nothing is missed.
-/

namespace QUniBone.Mscp

variable {s t : State} {r : RingName}

/-! ## The property -/

/-- What the host misses while it sleeps is followed by an interrupt. -/
def Awaited (s : State) : Prop :=
  ∀ r, s.Missed r → s.intr = .requested ∨ s.port = .released r true

structure Initial (s : State) : Prop where
  port : s.port = .waiting
  messages : s.messages = 0
  intr : s.intr = .free
  /-- the host wants interrupts -/
  interruptVector : s.interruptVector ≠ 0
  lengths : ∃ value, (s.ring .command).length = commandRingLength value ∧
    (s.ring .response).length = responseRingLength value
  pointers : ∀ r, (s.ring r).pointer = 0 ∧ (s.ring r).hostPointer = 0
  asleep : ∀ r, (s.ring r).asleep = false
  released : ∀ r, (s.ring r).released = 0
  /-- no commands -/
  command : (s.ring .command).handed = 0 ∧
    ∀ i, ((s.ring .command).descriptors i).ownership = false
  /-- no responses -/
  response : (s.ring .response).handed = (s.ring .response).length ∧
    ∀ i, ((s.ring .response).descriptors i).ownership =
      decide (i < (s.ring .response).length)
  /-- the host asks for interrupts -/
  flags : ∀ i, ((s.ring .response).descriptors i).flag = true

def AnyStep (s t : State) : Prop := ∃ a, step s a = some t

/-- The host does not go to sleep between the look at the previous descriptor and the release,
unless an interrupt is there or the port will raise one. And while the host sleeps, the port does
not raise an interrupt that the adapter takes for the one before. -/
def Careful (s : State) : Action → Prop
  | .sleep r => ∀ d, s.port = .checked r d false → s.intr = .requested
  | .notify => s.intr = .delivered → ∀ r, ¬ s.Missed r
  | _ => True

def CarefulStep (s t : State) : Prop := ∃ a, Careful s a ∧ step s a = some t

/-! ## A ring -/

open RingWindow

namespace Ring

variable {x : Ring}

structure Wf (x : Ring) : Prop where
  lengthPos : 0 < x.length
  /-- so the pointers wrap around as 32 bit numbers do -/
  lengthDvd : x.length ∣ 2 ^ 32
  le : x.released ≤ x.handed
  handedLe : x.handed ≤ x.released + x.length
  hostPointer : x.hostPointer = x.handed % x.length
  ownership : ∀ i, (x.descriptors i).ownership = true ↔
    InWindow x.length x.released x.handed i
  flag : ∀ i, (x.descriptors i).ownership = true → (x.descriptors i).flag = true

namespace Wf

/-- The host finds a descriptor of the port when the ring is all the port's. -/
theorem hostDescriptor (h : x.Wf) :
    x.hostDescriptor.ownership = true ↔ x.handed = x.released + x.length := by
  rw [Ring.hostDescriptor, h.ownership, h.hostPointer]
  exact inWindow_next h.lengthPos h.le h.handedLe

theorem previous (h : x.Wf) (hpointer : x.pointer = x.released % x.length) :
    x.previous = (x.released + x.length - 1) % x.length := by
  obtain ⟨m, hm⟩ := h.lengthDvd
  have hlength := h.lengthPos
  have hm_pos : 0 < m := by
    apply Nat.pos_of_ne_zero
    rintro rfl
    simp at hm
  have hsplit : 2 ^ 32 - 1 = (x.length - 1) + x.length * (m - 1) := by
    have hmul : x.length * m = x.length + x.length * (m - 1) := by
      conv_lhs => rw [← Nat.add_sub_cancel' hm_pos, Nat.mul_add, Nat.mul_one]
    omega
  calc x.previous
      = (x.released % x.length + (2 ^ 32 - 1)) % x.length := by
        rw [Ring.previous, hpointer, Nat.mod_mod_of_dvd _ h.lengthDvd]
    _ = (x.released % x.length + (x.length - 1)) % x.length := by
        rw [hsplit, ← Nat.add_assoc, Nat.add_mul_mod_self_left]
    _ = (x.released + x.length - 1) % x.length := by
        rw [Nat.mod_add_mod, Nat.add_sub_assoc hlength]

/-- For a flagged descriptor, the check tells if the ring is all the port's. -/
theorem checkTransition (h : x.Wf) (hpointer : x.pointer = x.released % x.length)
    (hlt : x.released < x.handed) {d : Descriptor} (hflag : d.flag = true) :
    x.checkTransition d = true ↔ x.handed = x.released + x.length := by
  rw [Ring.checkTransition, if_pos hflag]
  split_ifs with hone
  · have hle := h.handedLe
    simp only [true_iff]
    omega
  · rw [h.ownership, h.previous hpointer]
    exact inWindow_previous h.lengthPos h.le h.handedLe

theorem handOver (h : x.Wf) (hown : x.hostDescriptor.ownership = false) : x.handOver.Wf := by
  have hroom : x.handed ≠ x.released + x.length := fun hfull =>
    absurd (hown.symm.trans (h.hostDescriptor.mpr hfull)) nofun
  refine ⟨h.lengthPos, h.lengthDvd, ?_, ?_, ?_, fun i => ?_, fun i => ?_⟩
  · show x.released ≤ x.handed + 1
    have hle := h.le
    omega
  · show x.handed + 1 ≤ x.released + x.length
    have hle := h.handedLe
    omega
  · show (x.hostPointer + 1) % x.length = (x.handed + 1) % x.length
    rw [h.hostPointer, Nat.mod_add_mod]
  · show (Function.update x.descriptors x.hostPointer ⟨true, true⟩ i).ownership = true ↔
      InWindow x.length x.released (x.handed + 1) i
    rw [inWindow_push h.le, ← h.hostPointer]
    by_cases hi : i = x.hostPointer
    · simp [hi]
    · simp [hi, h.ownership]
  · show (Function.update x.descriptors x.hostPointer ⟨true, true⟩ i).ownership = true →
      (Function.update x.descriptors x.hostPointer ⟨true, true⟩ i).flag = true
    by_cases hi : i = x.hostPointer
    · simp [hi]
    · rw [Function.update_of_ne hi]
      exact h.flag i

theorem release (h : x.Wf) (hpointer : x.pointer = x.released % x.length)
    (hlt : x.released < x.handed) : x.release.Wf := by
  refine ⟨h.lengthPos, h.lengthDvd, hlt, ?_, h.hostPointer, fun i => ?_, fun i => ?_⟩
  · show x.handed ≤ x.released + 1 + x.length
    have hle := h.handedLe
    omega
  · show (Function.update x.descriptors x.pointer ⟨false, true⟩ i).ownership = true ↔
      InWindow x.length (x.released + 1) x.handed i
    rw [inWindow_pop h.handedLe, ← hpointer]
    by_cases hi : i = x.pointer
    · simp [hi]
    · simp [hi, h.ownership]
  · show (Function.update x.descriptors x.pointer ⟨false, true⟩ i).ownership = true →
      (Function.update x.descriptors x.pointer ⟨false, true⟩ i).flag = true
    by_cases hi : i = x.pointer
    · simp [hi]
    · rw [Function.update_of_ne hi]
      exact h.flag i

/-- The window does not depend on the port's pointer, nor on what the host waits for. -/
theorem of_same {y : Ring} (h : x.Wf) (hlength : y.length = x.length)
    (hdesc : y.descriptors = x.descriptors) (hhost : y.hostPointer = x.hostPointer)
    (hhanded : y.handed = x.handed) (hreleased : y.released = x.released) : y.Wf := by
  obtain ⟨a, b, c, d, e, f, g⟩ := h
  refine ⟨?_, ?_, ?_, ?_, ?_, ?_, ?_⟩ <;>
    simp only [hlength, hdesc, hhost, hhanded, hreleased] <;> assumption

theorem advance (h : x.Wf) : x.advance.Wf := h.of_same rfl rfl rfl rfl rfl

end Wf

/-- What the host leaves as it is. -/
structure Follows (x y : Ring) : Prop where
  wf : y.Wf
  pointer : y.pointer = x.pointer
  length : y.length = x.length
  released : y.released = x.released
  handed : x.handed ≤ y.handed

theorem Wf.follows (h : x.Wf) : x.Follows x := ⟨h, rfl, rfl, rfl, le_refl _⟩

theorem Wf.follows_asleep (h : x.Wf) (asleep : Bool) : x.Follows { x with asleep } :=
  ⟨h.of_same rfl rfl rfl rfl rfl, rfl, rfl, rfl, le_refl _⟩

end Ring

/-! ## Both rings and the port -/

namespace State

@[simp] theorem setRing_self (s : State) (r : RingName) (x : Ring) : (s.setRing r x).ring r = x :=
  Function.update_self ..

@[simp] theorem setRing_ne (s : State) (x : Ring) {q r : RingName} (h : q ≠ r) :
    (s.setRing r x).ring q = s.ring q :=
  Function.update_of_ne h ..

/-- The number that the port's pointer shows: the response ring is advanced last. -/
def served (s : State) (r : RingName) : ℕ :=
  match s.port, r with
  | .released .response _, .response => (s.ring r).released - 1
  | _, _ => (s.ring r).released

theorem interrupt_eq (s : State) : s.interrupt = { s with intr := s.interrupt.intr } := by
  unfold interrupt
  split_ifs <;> rfl

/-- A request that is not with the CPU is there after `Interrupt()`. -/
theorem interrupt_intr (hvector : s.interruptVector ≠ 0) (hintr : s.intr ≠ .delivered) :
    s.interrupt.intr = .requested := by
  unfold interrupt
  split_ifs with hfree
  · rfl
  · cases hs : s.intr with
    | free => exact absurd ⟨hvector, hs⟩ hfree
    | requested => rfl
    | delivered => exact absurd hs hintr

theorem served_eq (h : ∀ b, s.port ≠ .released .response b) :
    s.served r = (s.ring r).released := by
  unfold served
  split
  · exact absurd ‹_› (h _)
  · rfl

theorem served_command : s.served .command = (s.ring .command).released := by
  unfold served
  split
  · contradiction
  · rfl

/-- While the port is about to interrupt for the other ring. -/
theorem served_ne {q : RingName} {b : Bool} (hport : s.port = .released r b) (hne : q ≠ r) :
    s.served q = (s.ring q).released := by
  cases q with
  | command => exact served_command
  | response =>
    refine served_eq fun c hc => ?_
    rw [hport] at hc
    exact hne (Port.released.inj hc).1.symm

end State

structure Inv (s : State) : Prop where
  ring : ∀ r, (s.ring r).Wf
  pointer : ∀ r, (s.ring r).pointer = s.served r % (s.ring r).length
  fetched : ∀ r d, s.port = .fetched r d → (s.ring r).released < (s.ring r).handed ∧ d.flag = true
  /-- A host that sleeps although the check has not found the ring to be all the port's. -/
  checked : ∀ r d b, s.port = .checked r d b → (s.ring r).released < (s.ring r).handed ∧
    (b = false → (s.ring r).asleep = true → s.intr = .requested)
  released : ∀ r b, s.port = .released r b → 0 < (s.ring r).released
  interruptVector : s.interruptVector ≠ 0
  awaited : Awaited s

namespace Inv

/-- The port goes on, and no ring changes. -/
theorem movePort (h : Inv s) {p : Port} {n : ℕ} (hfrom : ∀ r b, s.port ≠ .released r b)
    (hto : ∀ r b, p ≠ .released r b)
    (hfetched : ∀ r d, p = .fetched r d →
      (s.ring r).released < (s.ring r).handed ∧ d.flag = true)
    (hchecked : ∀ r d b, p = .checked r d b → (s.ring r).released < (s.ring r).handed ∧
      (b = false → (s.ring r).asleep = true → s.intr = .requested)) :
    Inv { s with port := p, messages := n } where
  ring := h.ring
  pointer r := by
    rw [State.served_eq fun b => hto _ b, h.pointer r, State.served_eq fun b => hfrom _ b]
  fetched := hfetched
  checked := hchecked
  released r b hb := absurd hb (hto r b)
  interruptVector := h.interruptVector
  awaited r hr := .inl ((h.awaited r hr).resolve_right (hfrom r true))

/-- A descriptor with the ownership bit is one that the host has handed over, with its flag. -/
theorem fetchable (h : Inv s) {r' : RingName} (hport : ∀ b, s.port ≠ .released .response b)
    (hown : ((s.ring r').descriptors (s.ring r').pointer).ownership = true) (r : RingName)
    (d : Descriptor)
    (hd : Port.fetched r' ((s.ring r').descriptors (s.ring r').pointer) = .fetched r d) :
    (s.ring r).released < (s.ring r).handed ∧ d.flag = true := by
  obtain ⟨rfl, rfl⟩ := Port.fetched.inj hd
  refine ⟨?_, (h.ring _).flag _ hown⟩
  rw [(h.ring _).ownership, h.pointer, State.served_eq hport] at hown
  exact inWindow_first.mp hown

/-- The host or the adapter does something. -/
theorem moveHost (h : Inv s) (hport : t.port = s.port)
    (hvector : t.interruptVector = s.interruptVector)
    (hring : ∀ r, (s.ring r).Follows (t.ring r))
    (hchecked : ∀ r d, s.port = .checked r d false → (t.ring r).asleep = true →
      t.intr = .requested)
    (hawaited : Awaited t) : Inv t where
  ring r := (hring r).wf
  pointer r := by
    have hserved : t.served r = s.served r := by
      unfold State.served
      rw [hport, (hring r).released]
    rw [(hring r).pointer, (hring r).length, hserved]
    exact h.pointer r
  fetched r d hd := by
    obtain ⟨hlt, hflag⟩ := h.fetched r d (hport ▸ hd)
    exact ⟨(hring r).released ▸ hlt.trans_le (hring r).handed, hflag⟩
  checked r d b hd := by
    have hlt := (h.checked r d b (hport ▸ hd)).1
    refine ⟨(hring r).released ▸ hlt.trans_le (hring r).handed, fun hb => hchecked r d ?_⟩
    rw [← hport, hd, hb]
  released r b hb := by
    rw [(hring r).released]
    exact h.released r b (hport ▸ hb)
  interruptVector := hvector ▸ h.interruptVector
  awaited := hawaited

theorem handOver (h : Inv s) (hasleep : (s.ring r).asleep = false)
    (hown : (s.ring r).hostDescriptor.ownership = false) :
    Inv (s.setRing r (s.ring r).handOver) := by
  refine h.moveHost rfl rfl (fun q => ?_) (fun q d hd hq => ?_) (fun q hq => ?_)
  all_goals by_cases hqr : q = r
  · subst hqr
    rw [State.setRing_self]
    exact ⟨(h.ring q).handOver hown, rfl, rfl, rfl, Nat.le_succ _⟩
  · rw [State.setRing_ne _ _ hqr]
    exact (h.ring q).follows
  · subst hqr
    rw [State.setRing_self] at hq
    exact absurd (hasleep.symm.trans hq) nofun
  · rw [State.setRing_ne _ _ hqr] at hq
    exact (h.checked q d false hd).2 rfl hq
  · subst hqr
    rw [State.Missed, State.setRing_self] at hq
    exact absurd (hasleep.symm.trans hq.1) nofun
  · rw [State.Missed, State.setRing_ne _ _ hqr] at hq
    exact h.awaited q hq

theorem sleep (h : Inv s) (hown : (s.ring r).hostDescriptor.ownership = true)
    (hcareful : ∀ d, s.port = .checked r d false → s.intr = .requested) :
    Inv (s.setRing r { s.ring r with asleep := true }) := by
  refine h.moveHost rfl rfl (fun q => ?_) (fun q d hd hq => ?_) (fun q hq => ?_)
  all_goals by_cases hqr : q = r
  · subst hqr
    rw [State.setRing_self]
    exact (h.ring q).follows_asleep true
  · rw [State.setRing_ne _ _ hqr]
    exact (h.ring q).follows
  · subst hqr
    exact hcareful d hd
  · rw [State.setRing_ne _ _ hqr] at hq
    exact (h.checked q d false hd).2 rfl hq
  · -- It sleeps because there is nothing for it.
    subst hqr
    rw [State.Missed, State.setRing_self] at hq
    exact absurd (hown.symm.trans hq.2) nofun
  · rw [State.Missed, State.setRing_ne _ _ hqr] at hq
    exact h.awaited q hq

theorem take (h : Inv s) : Inv { s with
    intr := .delivered
    ring := fun r => { s.ring r with asleep := false } } := by
  refine h.moveHost rfl rfl (fun q => ?_) (fun q d _ hq => ?_) (fun q hq => ?_)
  · exact (h.ring q).follows_asleep false
  · cases hq
  · cases hq.1

theorem intrComplete (h : Inv s) (hintr : s.intr = .delivered) :
    Inv { s with intr := .free } := by
  refine h.moveHost rfl rfl (fun q => (h.ring q).follows)
    (fun q d hd hq => ?_) (fun q hq => ?_)
  · exact absurd (hintr.symm.trans ((h.checked q d false hd).2 rfl hq)) nofun
  · refine .inr ((h.awaited q hq).resolve_left ?_)
    rw [hintr]
    nofun

/-- The look at the previous descriptor. A host that sleeps although it has something to do has an
interrupt. -/
theorem check (h : Inv s) {d : Descriptor} (hd : s.port = .fetched r d) :
    Inv { s with port := .checked r d ((s.ring r).checkTransition d) } := by
  obtain ⟨hlt, hflag⟩ := h.fetched r d hd
  have hpointer := h.pointer r
  rw [State.served_eq (by simp [hd])] at hpointer
  refine h.movePort (by simp [hd]) nofun nofun fun q e b he => ?_
  obtain ⟨rfl, rfl, rfl⟩ := Port.checked.inj he
  refine ⟨hlt, fun hb hasleep => ?_⟩
  have hroom : (s.ring r).hostDescriptor.ownership = false := by
    rw [← Bool.not_eq_true, (h.ring r).hostDescriptor,
      ← (h.ring r).checkTransition hpointer hlt hflag, hb]
    nofun
  refine (h.awaited r ⟨hasleep, hroom⟩).resolve_right ?_
  rw [hd]
  nofun

/-- The release of a descriptor. When the host sleeps, an interrupt is there or follows. -/
theorem release (h : Inv s) {d : Descriptor} {b : Bool} {x : Ring}
    (hd : s.port = .checked r d b)
    (hx : r = .command ∧ x = (s.ring r).release.advance ∨
      r = .response ∧ x = (s.ring r).release) :
    Inv ({ s with port := .released r b }.setRing r x) := by
  obtain ⟨hlt, hasleep⟩ := h.checked r d b hd
  have hpointer : ∀ q, (s.ring q).pointer = (s.ring q).released % (s.ring q).length := fun q => by
    rw [h.pointer q, State.served_eq (by simp [hd])]
  have hwf := (h.ring r).release (hpointer r) hlt
  have hwf_x : x.Wf := by
    rcases hx with ⟨-, rfl⟩ | ⟨-, rfl⟩
    · exact hwf.advance
    · exact hwf
  have hreleased : x.released = (s.ring r).released + 1 := by
    rcases hx with ⟨-, rfl⟩ | ⟨-, rfl⟩ <;> rfl
  have hsleeps : x.asleep = (s.ring r).asleep := by
    rcases hx with ⟨-, rfl⟩ | ⟨-, rfl⟩ <;> rfl
  generalize ht : { s with port := .released r b }.setRing r x = t
  have hself : t.ring r = x := by rw [← ht, State.setRing_self]
  have hne : ∀ q, q ≠ r → t.ring q = s.ring q := fun q hq => by rw [← ht, State.setRing_ne _ _ hq]
  have hport : t.port = .released r b := by rw [← ht]; rfl
  have hintr : t.intr = s.intr := by rw [← ht]; rfl
  refine ⟨fun q => ?_, fun q => ?_, fun q e he => ?_, fun q e c he => ?_, fun q c hc => ?_, ?_,
    fun q hq => ?_⟩
  · by_cases hqr : q = r
    · rw [hqr, hself]
      exact hwf_x
    · rw [hne q hqr]
      exact h.ring q
  · by_cases hqr : q = r
    · subst hqr
      rcases hx with ⟨rfl, rfl⟩ | ⟨rfl, rfl⟩
      · -- A command: the pointer is advanced with the release.
        rw [State.served_command, hself, hreleased]
        show ((s.ring .command).pointer + 1) % (s.ring .command).length = _
        rw [hpointer, Nat.mod_add_mod]
        rfl
      · have hserved : t.served .response = (t.ring .response).released - 1 := by
          unfold State.served
          rw [hport]
        rw [hserved, hself, hreleased]
        exact hpointer .response
    · rw [State.served_ne hport hqr, hne q hqr]
      exact hpointer q
  · rw [hport] at he
    cases he
  · rw [hport] at he
    cases he
  · rw [hport] at hc
    obtain ⟨rfl, -⟩ := Port.released.inj hc
    rw [hself, hreleased]
    omega
  · rw [← ht]
    exact h.interruptVector
  · rw [hintr, hport]
    by_cases hqr : q = r
    · subst hqr
      rw [State.Missed, hself, hsleeps] at hq
      cases b with
      | true => exact .inr rfl
      | false => exact .inl (hasleep rfl hq.1)
    · rw [State.Missed, hne q hqr] at hq
      refine .inl ((h.awaited q hq).resolve_right ?_)
      rw [hd]
      nofun

/-- The interrupt is raised if it is due, and the port goes on. -/
theorem notify (h : Inv s) {b : Bool} {p : Port} {n : ℕ} {x : Ring}
    (hreleased : s.port = .released r b)
    (hcareful : s.intr = .delivered → ∀ q, ¬ s.Missed q)
    (hp : p = .draining ∨ p = .answering)
    (hx : r = .command ∧ x = s.ring r ∨ r = .response ∧ x = (s.ring r).advance)
    (ht : t = { s with
      ring := Function.update s.ring r x
      port := p
      messages := n
      intr := if b then s.interrupt.intr else s.intr }) : Inv t := by
  have hnext : ∀ q c, p ≠ .released q c := by
    rintro q c rfl
    rcases hp with hp | hp <;> cases hp
  have hwf : x.Wf := by
    rcases hx with ⟨-, rfl⟩ | ⟨-, rfl⟩
    · exact h.ring r
    · exact (h.ring r).advance
  have hself : t.ring r = x := by rw [ht]; exact Function.update_self ..
  have hne : ∀ q, q ≠ r → t.ring q = s.ring q := fun q hq => by
    rw [ht]
    exact Function.update_of_ne hq ..
  have hport : t.port = p := by rw [ht]
  have hserved : ∀ q, t.served q = (t.ring q).released := fun q =>
    State.served_eq fun c => hport ▸ hnext _ c
  refine ⟨fun q => ?_, fun q => ?_, fun q e he => ?_, fun q e c he => ?_, fun q c hc => ?_, ?_,
    fun q hq => .inl ?_⟩
  · by_cases hqr : q = r
    · rw [hqr, hself]
      exact hwf
    · rw [hne q hqr]
      exact h.ring q
  · rw [hserved]
    have hold := h.pointer q
    by_cases hqr : q = r
    · subst hqr
      rw [hself]
      rcases hx with ⟨rfl, rfl⟩ | ⟨rfl, rfl⟩
      · rwa [State.served_command] at hold
      · -- The response ring is advanced now.
        have hbehind : s.served .response = (s.ring .response).released - 1 := by
          unfold State.served
          rw [hreleased]
        have hone := h.released .response b hreleased
        show ((s.ring .response).pointer + 1) % (s.ring .response).length =
          (s.ring .response).released % (s.ring .response).length
        rw [hold, hbehind, Nat.mod_add_mod, Nat.sub_add_cancel hone]
    · rw [hne q hqr]
      rwa [State.served_ne hreleased hqr] at hold
  · rw [hport] at he
    rcases hp with rfl | rfl <;> cases he
  · rw [hport] at he
    rcases hp with rfl | rfl <;> cases he
  · exact absurd (hport ▸ hc) (hnext q c)
  · rw [ht]
    exact h.interruptVector
  · -- Nothing is missed before, or the interrupt is there now.
    have hmissed : s.Missed q := by
      by_cases hqr : q = r
      · subst hqr
        rw [State.Missed, hself] at hq
        rcases hx with ⟨-, rfl⟩ | ⟨-, rfl⟩ <;> exact hq
      · rwa [State.Missed, hne q hqr] at hq
    have hintr : t.intr = if b then s.interrupt.intr else s.intr := by rw [ht]
    rw [hintr]
    cases b with
    | true => exact State.interrupt_intr h.interruptVector fun hd => hcareful hd q hmissed
    | false =>
      refine (h.awaited q hmissed).resolve_right ?_
      rw [hreleased]
      nofun

theorem step (h : Inv s) {a : Action} (hcareful : Careful s a) (hstep : Mscp.step s a = some t) :
    Inv t := by
  cases a with
  | startPoll =>
    simp only [Mscp.step, Option.ite_none_right_eq_some] at hstep
    obtain ⟨hp, ht⟩ := hstep
    obtain rfl := Option.some.inj ht
    exact h.movePort (by simp [hp]) nofun nofun nofun
  | getNextCommand =>
    simp only [Mscp.step, Option.ite_none_right_eq_some] at hstep
    obtain ⟨hp, ht⟩ := hstep
    split_ifs at ht with hown
    · obtain rfl := Option.some.inj ht
      exact h.movePort (by simp [hp]) nofun (h.fetchable (by simp [hp]) hown) nofun
    · obtain rfl := Option.some.inj ht
      exact h.movePort (by simp [hp]) nofun nofun nofun
  | postResponse =>
    simp only [Mscp.step, Option.ite_none_right_eq_some] at hstep
    obtain ⟨⟨hp, -⟩, hown, ht⟩ := hstep
    obtain rfl := Option.some.inj ht
    exact h.movePort (by simp [hp]) nofun (h.fetchable (by simp [hp]) hown) nofun
  | endPoll =>
    simp only [Mscp.step, Option.ite_none_right_eq_some] at hstep
    obtain ⟨⟨hp, -⟩, ht⟩ := hstep
    obtain rfl := Option.some.inj ht
    exact h.movePort (by simp [hp]) nofun nofun nofun
  | check =>
    cases hp : s.port with
    | fetched r d =>
      simp only [Mscp.step, hp] at hstep
      obtain rfl := Option.some.inj hstep
      exact h.check hp
    | _ =>
      simp only [Mscp.step, hp] at hstep
      cases hstep
  | release =>
    cases hp : s.port with
    | checked r d b =>
      cases r with
      | command =>
        simp only [Mscp.step, hp] at hstep
        obtain rfl := Option.some.inj hstep
        exact h.release hp (.inl ⟨rfl, rfl⟩)
      | response =>
        simp only [Mscp.step, hp] at hstep
        obtain rfl := Option.some.inj hstep
        exact h.release hp (.inr ⟨rfl, rfl⟩)
    | _ =>
      simp only [Mscp.step, hp] at hstep
      cases hstep
  | notify =>
    cases hp : s.port with
    | released r b =>
      cases r with
      | command =>
        simp only [Mscp.step, hp] at hstep
        obtain rfl := Option.some.inj hstep
        refine h.notify (n := s.messages + 1) hp hcareful (.inl rfl) (.inl ⟨rfl, rfl⟩) ?_
        rw [Function.update_eq_self]
        cases b with
        | true => rw [if_pos rfl, State.interrupt_eq]; rfl
        | false => rfl
      | response =>
        simp only [Mscp.step, hp] at hstep
        obtain rfl := Option.some.inj hstep
        refine h.notify (n := s.messages - 1) hp hcareful (.inr rfl) (.inr ⟨rfl, rfl⟩) ?_
        cases b with
        | true => rw [if_pos rfl, State.interrupt_eq]; rfl
        | false => rfl
    | _ =>
      simp only [Mscp.step, hp] at hstep
      cases hstep
  | handOver r =>
    simp only [Mscp.step, Option.ite_none_right_eq_some] at hstep
    obtain ⟨⟨hasleep, hown⟩, ht⟩ := hstep
    obtain rfl := Option.some.inj ht
    exact h.handOver hasleep hown
  | sleep r =>
    simp only [Mscp.step, Option.ite_none_right_eq_some] at hstep
    obtain ⟨⟨-, hown⟩, ht⟩ := hstep
    obtain rfl := Option.some.inj ht
    exact h.sleep hown hcareful
  | take =>
    simp only [Mscp.step, Option.ite_none_right_eq_some] at hstep
    obtain rfl := Option.some.inj hstep.2
    exact h.take
  | intrComplete =>
    simp only [Mscp.step, Option.ite_none_right_eq_some] at hstep
    obtain rfl := Option.some.inj hstep.2
    exact h.intrComplete hstep.1

end Inv

/-! ## Runs -/

/-- A field of three bits gives a length that divides the word size. -/
theorem shiftLeft_length (value mask : BitVec 16) (n : ℕ) (hmask : mask.toNat >>> n ≤ 32) :
    0 < 1 <<< ((value &&& mask) >>> n).toNat ∧ 1 <<< ((value &&& mask) >>> n).toNat ∣ 2 ^ 32 := by
  have hle : ((value &&& mask) >>> n).toNat ≤ 32 := by
    refine le_trans ?_ hmask
    rw [BitVec.toNat_ushiftRight, BitVec.toNat_and, Nat.shiftRight_eq_div_pow,
      Nat.shiftRight_eq_div_pow]
    exact Nat.div_le_div_right Nat.and_le_right
  rw [Nat.shiftLeft_eq, Nat.one_mul]
  exact ⟨Nat.two_pow_pos _, Nat.pow_dvd_pow 2 hle⟩

theorem Initial.length (h : Initial s) (r : RingName) :
    0 < (s.ring r).length ∧ (s.ring r).length ∣ 2 ^ 32 := by
  obtain ⟨value, hcommand, hresponse⟩ := h.lengths
  cases r with
  | command =>
    rw [hcommand, commandRingLength]
    exact shiftLeft_length value 0x3800 11 (by decide)
  | response =>
    rw [hresponse, responseRingLength]
    exact shiftLeft_length value 0x700 8 (by decide)

theorem Initial.wf (h : Initial s) (r : RingName) : (s.ring r).Wf := by
  obtain ⟨hpos, hdvd⟩ := h.length r
  have hhost := (h.pointers r).2
  have hreleased := h.released r
  cases r with
  | command =>
    obtain ⟨hhanded, hown⟩ := h.command
    refine ⟨hpos, hdvd, ?_, ?_, ?_, fun i => ?_, fun i hi => ?_⟩
    · omega
    · omega
    · rw [hhost, hhanded, Nat.zero_mod]
    · rw [hown, hhanded, hreleased]
      exact iff_of_false nofun not_inWindow_empty
    · exact absurd ((hown i).symm.trans hi) nofun
  | response =>
    obtain ⟨hhanded, hown⟩ := h.response
    refine ⟨hpos, hdvd, ?_, ?_, ?_, fun i => ?_, fun i _ => h.flags i⟩
    · omega
    · omega
    · rw [hhost, hhanded, Nat.mod_self]
    · rw [hown, hhanded, hreleased, inWindow_full hpos, decide_eq_true_eq]

theorem Inv.initial (h : Initial s) : Inv s where
  ring := h.wf
  pointer r := by
    rw [(h.pointers r).1, State.served_eq (by simp [h.port]), h.released r, Nat.zero_mod]
  fetched r d hd := absurd (h.port.symm.trans hd) nofun
  checked r d b hd := absurd (h.port.symm.trans hd) nofun
  released r b hb := absurd (h.port.symm.trans hb) nofun
  interruptVector := h.interruptVector
  awaited r hr := absurd ((h.asleep r).symm.trans hr.1) nofun

/-- In careful runs no sleeping host misses a response or a free slot. -/
theorem awaited_of_careful (hs : Transition.Reachable Initial CarefulStep s) : Awaited s := by
  refine Inv.awaited (hs.invariant (fun _ => Inv.initial) ?_)
  rintro u v hu ⟨a, hcareful, hstep⟩
  exact hu.step hcareful hstep

/-! ## Two responses -/

instance (s : State) : (a : Action) → Decidable (Careful s a)
  | .sleep r =>
    match hp : s.port with
    | .checked q d false =>
      if hq : q = r then
        decidable_of_iff (s.intr = .requested) (by simp [Careful, hp, hq])
      else .isTrue (by simp [Careful, hp, hq])
    | .checked _ _ true | .waiting | .draining | .answering | .fetched _ _ | .released _ _ =>
      .isTrue (by simp [Careful, hp])
  | .notify => decidable_of_iff
      (s.intr = .delivered → ¬ s.Missed .command ∧ ¬ s.Missed .response)
      ⟨fun h hd q => by cases q with
        | command => exact (h hd).1
        | response => exact (h hd).2,
       fun h hd => ⟨h hd _, h hd _⟩⟩
  | .startPoll | .getNextCommand | .postResponse | .endPoll | .check | .release | .handOver _
  | .take | .intrComplete => inferInstanceAs (Decidable True)

/-- Four slots for commands, two for responses. -/
def initialized : State where
  ring
    | .command => ⟨4, 0, fun _ => ⟨false, false⟩, 0, false, 0, 0⟩
    | .response => ⟨2, 0, fun i => ⟨decide (i < 2), true⟩, 0, false, 2, 0⟩
  port := .waiting
  messages := 0
  interruptVector := 0o154
  intr := .free

theorem initialized_initial : Initial initialized where
  port := rfl
  messages := rfl
  intr := rfl
  interruptVector := nofun
  lengths := ⟨0x1100, by decide, by decide⟩
  pointers r := by cases r <;> exact ⟨rfl, rfl⟩
  asleep r := by cases r <;> rfl
  released r := by cases r <;> rfl
  command := ⟨rfl, fun _ => rfl⟩
  response := ⟨rfl, fun _ => rfl⟩
  flags _ := rfl

/-- The host gives two commands and sleeps. The port executes them, posts the first response and
interrupts. -/
def firstResponse : List Action :=
  [.handOver .command, .handOver .command, .sleep .response, .startPoll,
    .getNextCommand, .check, .release, .notify, .getNextCommand, .check, .release, .notify,
    .getNextCommand, .postResponse, .check, .release, .notify, .take, .intrComplete]

theorem awaited_of_careful_firstResponse :
    ∃ s, s.messages = 1 ∧ (s.ring .response).asleep = false ∧ Awaited s := by
  have hlog : (Transition.run (Transition.guarded Careful step) initialized firstResponse).map
      (fun s => (s.messages, (s.ring .response).asleep)) = some (1, false) := by decide
  obtain ⟨s, hrun, hs⟩ := Option.map_eq_some_iff.mp hlog
  obtain ⟨hmessages, hasleep⟩ := Prod.mk.inj hs
  refine ⟨s, hmessages, hasleep, awaited_of_careful (.run (fun u a v h => ?_)
    (.init initialized_initial) hrun)⟩
  exact ⟨a, Transition.guarded_eq_some.mp h⟩

/-- The port finds the first response not yet taken. The host takes it, finds nothing more and
sleeps. The second response comes without an interrupt. -/
theorem second_response_missed :
    ¬ ∀ s, Transition.Reachable Initial AnyStep s → Awaited s := by
  intro hall
  have hlog : (Transition.run step initialized (firstResponse ++
      [.postResponse, .check, .handOver .response, .sleep .response, .release, .notify,
        .endPoll])).map
      (fun s => (decide (s.Missed .response), s.intr, s.port)) =
      some (true, .free, .waiting) := by decide
  obtain ⟨s, hrun, hs⟩ := Option.map_eq_some_iff.mp hlog
  simp only [Prod.mk.injEq, decide_eq_true_eq] at hs
  obtain ⟨hmissed, hintr, hport⟩ := hs
  have hreached : Transition.Reachable Initial AnyStep s :=
    .run (fun u a v h => ⟨a, h⟩) (.init initialized_initial) hrun
  rcases hall s hreached .response hmissed with h | h
  · exact absurd (hintr.symm.trans h) nofun
  · exact absurd (hport.symm.trans h) nofun

end QUniBone.Mscp
