import QUniBone.Mscp.PortSpace

/-!
# UDA50: the threads of a careful host

The host writes SA only when a step of the initialization waits for it, lays the rings inside the
address space and gives the port valid messages. It may write IP at any time.

* `Careful`: this condition, on the actions of a run.
* `PortOk`, `PollerOk`, `WorkerOk`: what the threads have in common, and where they are.
* `CarefulRun.inv`: all calls of `DMA()` are in the address space, and no assertion fails.
-/

namespace QUniBone.UDA50

open Disk MscpServer Thread

/-! ## The condition -/

/-- The call that a thread is about to make. -/
def Poller.pending : Poller → Option Access
  | .fetching _ (.call a _) => some a
  | .answering _ _ (.call a _) => some a
  | _ => none

/-- Header and rings lie in the address space. -/
structure RingsFit (space : ℕ) (p : Port) : Prop where
  header_le : p.commHeader ≤ p.ringBase
  end_le : p.ringBase + (p.responseRingLength + p.commandRingLength) * 4 ≤ space

def Worker.pending : Worker → Option Access
  | .step4 (.call a _) => some a
  | _ => none

/-- What the host has put into memory is valid. -/
def AnswerOk (h : Host) (pending : Option Access) (answer : Option (List BusWord)) : Prop :=
  ∀ a, pending = some a → ∀ words, answer = some words → Valid h.space h.longest a words

def Careful (h : Host) (s : State) : Action → Prop
  -- the step is over that the value is for, and the rings are in the address space
  | .writeSA value =>
    s.port.initStep ≠ .complete →
      s.worker = .idle ∧ s.port.nextStep = false ∧ s.port.initStep ≠ .uninitialized ∧
        (s.port.initStep = .step3 → RingsFit h.space (writeSA s.port value))
  -- no reset between a read of IP and the start of polling
  | .initPolling => s.port.initStep = .complete
  | .pollerCall answer => AnswerOk h s.poller.pending answer
  | .workerCall answer => AnswerOk h s.worker.pending answer
  | _ => True

section Decidable

instance decidableRingsFit (space : ℕ) (p : Port) : Decidable (RingsFit space p) :=
  decidable_of_iff (p.commHeader ≤ p.ringBase ∧
      p.ringBase + (p.responseRingLength + p.commandRingLength) * 4 ≤ space)
    ⟨fun h => ⟨h.1, h.2⟩, fun h => ⟨h.header_le, h.end_le⟩⟩

instance decidableMessageOk (space longest : ℕ) (m : Message) :
    Decidable (MessageOk space longest m) :=
  decidable_of_iff
    (responseLength m ≠ 0 ∧ responseLength m % 2 = 0 ∧ responseLength m ≤ longest ∧
      (m.opcode = READ ∨ m.opcode = WRITE ∨ m.opcode = COMPARE_HOST_DATA →
        m.byteCount % 2 = 0 ∧ 0 < m.byteCount ∧
          m.bufferPhysicalAddress % 2 ^ 24 + m.byteCount ≤ space))
    ⟨fun h => ⟨h.1, h.2.1, h.2.2.1, h.2.2.2⟩,
      fun h => ⟨h.response_pos, h.response_even, h.response_le, h.data⟩⟩

instance decidableEnvelopeOk (space longest : ℕ) (d : Descriptor) :
    Decidable (EnvelopeOk space longest d) :=
  inferInstanceAs (Decidable (_ → _))

instance decidableValid (space longest : ℕ) :
    (a : Access) → (words : List BusWord) → Decidable (Valid space longest a words)
  | ⟨.commandDescriptor, _⟩, words | ⟨.responseDescriptor, _⟩, words =>
    inferInstanceAs (Decidable (EnvelopeOk space longest (.ofWords words)))
  | ⟨.commandLength, _⟩, _ => inferInstanceAs (Decidable (_ → _))
  | ⟨.command, _⟩, words =>
    inferInstanceAs (Decidable (MessageOk space longest (.ofWords words)))
  | ⟨.previousCommand, _⟩, _ | ⟨.commandRelease, _⟩, _ | ⟨.responseLength, _⟩, _
  | ⟨.response _, _⟩, _ | ⟨.previousResponse, _⟩, _ | ⟨.responseRelease, _⟩, _
  | ⟨.commArea, _⟩, _ | ⟨.data, _⟩, _ => .isTrue trivial

instance decidableIdle : (w : Worker) → Decidable (w = .idle)
  | .idle => .isTrue rfl
  | .taken | .stepping | .clearing | .resetWait | .resetReturned | .transition | .step4 _ | .dead =>
    .isFalse nofun

instance decidableAnswerOk (h : Host) :
    (pending : Option Access) → (answer : Option (List BusWord)) →
      Decidable (AnswerOk h pending answer)
  | none, _ => .isTrue nofun
  | some _, none => .isTrue nofun
  | some a, some words =>
    decidable_of_iff (Valid h.space h.longest a words)
      ⟨fun hv => by rintro _ ⟨⟩ _ ⟨⟩; exact hv, fun ha => ha a rfl words rfl⟩

instance decidableCareful (h : Host) (s : State) : (a : Action) → Decidable (Careful h s a)
  | .writeSA _ => inferInstanceAs (Decidable (_ → _))
  | .initPolling => inferInstanceAs (Decidable (_ = _))
  | .pollerCall answer => inferInstanceAs (Decidable (AnswerOk h s.poller.pending answer))
  | .workerCall answer => inferInstanceAs (Decidable (AnswerOk h s.worker.pending answer))
  | .writeIP | .readIP | .takeStep | .branch | .stepDone | .reset | .resetDone | .clearFields
  | .transition | .workerRun | .wake | .drain | .run | .next | .finish => .isTrue trivial

end Decidable

/-! ## The invariant -/

/-- SA is written in these steps. -/
def initializing : InitStep → Bool
  | .step1 | .step2 | .step3 | .step4 => true
  | _ => false

structure PortOk (space : ℕ) (p : Port) : Prop where
  asleep : initializing p.initStep = true → p.pollState = .wait
  pointers : initializing p.initStep = true → p.initStep ≠ .step4 →
    p.commandRingPointer = 0 ∧ p.responseRingPointer = 0
  lengths : p.initStep = .step2 ∨ p.initStep = .step3 →
    1 ≤ p.commandRingLength ∧ 1 ≤ p.responseRingLength
  ring : p.initStep = .step4 ∨ p.initStep = .complete ∨ p.pollState ≠ .wait → RingOk space p

/-- The polling thread is awake. -/
def PollerOk (h : Host) (pollState : PollState) : Poller → Prop
  | .waiting | .dead => True
  | .draining queue | .executing queue =>
    pollState ≠ .wait ∧ ∀ m ∈ queue, MessageOk h.space h.longest m
  | .fetching queue p =>
    pollState ≠ .wait ∧ (∀ m ∈ queue, MessageOk h.space h.longest m) ∧
      p.Sound (spaceContract h.space h.longest) (NextOk h.space h.longest)
  | .answering queue _ p =>
    pollState ≠ .wait ∧ (∀ m ∈ queue, MessageOk h.space h.longest m) ∧
      p.Sound (spaceContract h.space h.longest) fun _ => True
  | .finishing => pollState ≠ .wait

def WorkerOk (h : Host) (p : Port) : Worker → Prop
  | .idle | .taken | .stepping | .dead => True
  | .clearing | .resetWait => p.initStep = .uninitialized
  | .resetReturned => p.initStep = .uninitialized ∧ p.pollState = .wait
  | .transition =>
    p.initStep = .uninitialized ∧ p.pollState = .wait ∧
      p.commandRingPointer = 0 ∧ p.responseRingPointer = 0
  | .step4 prog =>
    (p.initStep = .step4 ∨ p.initStep = .uninitialized) ∧ RingOk h.space p ∧
      prog.Sound (spaceContract h.space h.longest) fun _ => True

structure Inv (h : Host) (s : State) : Prop where
  calls : ∀ a ∈ s.calls, a.call.InSpace h.space
  alive : s.crash ≠ some .assertion
  port : PortOk h.space s.port
  poller : PollerOk h s.port.pollState s.poller
  worker : WorkerOk h s.port s.worker

/-! ## The port -/

section Port

variable {space : ℕ} {p q : Port}

theorem RingOk.refl (h : RingOk space p) : Guarantee space p p := ⟨h, rfl, .inl rfl⟩

/-- A program of a thread that is not in the initialization. -/
theorem PortOk.guarantee (hg : Guarantee space p q)
    (hsteps : initializing p.initStep = true → p.initStep = .step4) (h : PortOk space p) :
    PortOk space q where
  asleep hq := by
    cases hg.initStep with
    | inl hsame =>
      rw [hg.pollState]
      exact h.asleep (hsame ▸ hq)
    | inr huninit =>
      rw [huninit] at hq
      nomatch hq
  pointers hq hne := by
    cases hg.initStep with
    | inl hsame =>
      rw [hsame] at hq hne
      exact absurd (hsteps hq) hne
    | inr huninit =>
      rw [huninit] at hq
      nomatch hq
  lengths _ := ⟨hg.ring.command_pos, hg.ring.response_pos⟩
  ring _ := hg.ring

/-- IP is written: all but `initStep` stays. -/
theorem PortOk.uninitialize (h : PortOk space p) (hinit : q.initStep = .uninitialized)
    (hpoll : q.pollState = p.pollState) (hring : RingOk space p → RingOk space q) :
    PortOk space q where
  asleep hq := by
    rw [hinit] at hq
    nomatch hq
  pointers hq := by
    rw [hinit] at hq
    nomatch hq
  lengths hq := by
    rw [hinit] at hq
    nomatch hq
  ring hq := by
    rw [hinit, hpoll] at hq
    apply hring
    apply h.ring
    obtain hq | hq | hq := hq
    · nomatch hq
    · nomatch hq
    · exact .inr (.inr hq)

/-- Only the polling state changes, and the rings are known. -/
theorem PortOk.setPollState (h : RingOk space p) (hsteps : initializing p.initStep = false)
    (pollState : PollState) : PortOk space { p with pollState := pollState } where
  asleep hq := absurd (hsteps.symm.trans hq) nofun
  pointers hq := absurd (hsteps.symm.trans hq) nofun
  lengths _ := ⟨h.command_pos, h.response_pos⟩
  ring _ := ⟨h.command_pos, h.response_pos, h.command_lt, h.response_lt, h.header_le, h.end_le⟩

/-- An awake polling thread and the initialization exclude each other. -/
theorem PortOk.not_initializing (h : PortOk space p) (hawake : p.pollState ≠ .wait) :
    initializing p.initStep = false := by
  cases hinit : initializing p.initStep with
  | false => rfl
  | true => exact absurd (h.asleep hinit) hawake

/-- The rings are forgotten while no thread needs them. -/
theorem portOk_clear (hinit : p.initStep = .uninitialized)
    (hwait : p.pollState = .wait) : PortOk space p.clear where
  asleep _ := hwait
  pointers _ _ := ⟨rfl, rfl⟩
  lengths hq := by
    have hq : p.initStep = .step2 ∨ p.initStep = .step3 := hq
    rw [hinit] at hq
    nomatch hq
  ring hq := by
    have hq : p.initStep = .step4 ∨ p.initStep = .complete ∨ p.pollState ≠ .wait := hq
    rw [hinit] at hq
    obtain hq | hq | hq := hq
    · nomatch hq
    · nomatch hq
    · exact absurd hwait hq

theorem one_le_shiftLeft (n : ℕ) : 1 ≤ 1 <<< n := by
  rw [Nat.one_shiftLeft]
  exact Nat.one_le_two_pow

/-- A step of the initialization. -/
theorem PortOk.writeSA (h : PortOk space p) (value : BitVec 16)
    (hinit : p.initStep ≠ .uninitialized)
    (hfit : p.initStep = .step3 → RingsFit space (UDA50.writeSA p value)) :
    PortOk space (UDA50.writeSA p value) := by
  obtain ⟨hasleep, hpointers, hlengths, hring⟩ := h
  unfold UDA50.writeSA at hfit ⊢
  cases hstep : p.initStep with
  | uninitialized => exact absurd hstep hinit
  | step1 =>
    rw [hstep] at hasleep hpointers
    exact ⟨fun _ => hasleep rfl, fun _ _ => hpointers rfl nofun,
      fun _ => ⟨one_le_shiftLeft _, one_le_shiftLeft _⟩, fun hq => by simp_all [initializing]⟩
  | step2 =>
    rw [hstep] at hasleep hpointers hlengths
    exact ⟨fun _ => hasleep rfl, fun _ _ => hpointers rfl nofun, fun _ => hlengths (.inl rfl),
      fun hq => by simp_all [initializing]⟩
  | step3 =>
    rw [hstep] at hasleep hpointers hlengths hfit
    obtain ⟨hcommand, hresponse⟩ := hpointers rfl nofun
    obtain ⟨hcpos, hrpos⟩ := hlengths (.inr rfl)
    have hfit := hfit rfl
    refine ⟨fun _ => hasleep rfl, fun _ hne => absurd rfl hne, fun hq => by simp_all,
      fun _ => ⟨hcpos, hrpos, ?_, ?_, hfit.header_le, hfit.end_le⟩⟩
    · show p.commandRingPointer < p.commandRingLength
      omega
    · show p.responseRingPointer < p.responseRingLength
      omega
  | step4 =>
    rw [hstep] at hasleep hring
    have hring := hring (.inl rfl)
    dsimp only
    split
    · exact ⟨nofun, nofun, fun _ => ⟨hring.command_pos, hring.response_pos⟩,
        fun _ => { hring with }⟩
    · exact ⟨fun _ => hasleep rfl, fun _ hne => absurd hstep hne,
        fun _ => ⟨hring.command_pos, hring.response_pos⟩, fun _ => hring⟩
  | complete => exact ⟨hasleep, hpointers, hlengths, hring⟩

end Port

/-! ## The threads -/

section Threads

variable {h : Host} {s t : State} {p q : Port} {α : Type} {prog : Prog α} {post : α → Prop}

/-- A program goes on, or fails. -/
theorem runProg_cases {set : Prog α → State → State} {dead : State → State}
    (hprog : prog.Sound (spaceContract h.space h.longest) post) (hring : RingOk h.space s.port)
    (hrun : runProg s prog set dead = some t) :
    (∃ prog' port, prog'.Sound (spaceContract h.space h.longest) post ∧
      Guarantee h.space s.port port ∧ t = set prog' { s with port := port }) ∨
    ∃ e, e ≠ Crash.assertion ∧ t = dead { s with crash := some e } := by
  unfold runProg at hrun
  cases prog with
  | done a => nomatch hrun
  | read k =>
    obtain rfl := Option.some.inj hrun
    exact .inl ⟨_, s.port, hprog s.port hring, hring.refl, rfl⟩
  | write f k =>
    obtain rfl := Option.some.inj hrun
    exact .inl ⟨_, _, hprog.2, hprog.1 s.port hring, rfl⟩
  | call a k => nomatch hrun
  | fail e =>
    obtain rfl := Option.some.inj hrun
    exact .inr ⟨e, hprog, rfl⟩

/-- A call is in the address space, and the program goes on with its answer. -/
theorem callProg_cases {set : Prog α → State → State} {answer : Option (List BusWord)}
    (hprog : prog.Sound (spaceContract h.space h.longest) post)
    (hanswer : ∀ a k, prog = .call a k → ∀ words, answer = some words →
      Valid h.space h.longest a words)
    (hcall : callProg s prog answer set = some t) :
    ∃ prog' a, prog'.Sound (spaceContract h.space h.longest) post ∧
      a.call.InSpace h.space ∧ t = set prog' (s.call a) := by
  unfold callProg at hcall
  cases prog with
  | call a k =>
    obtain rfl := Option.some.inj hcall
    exact ⟨_, a, hprog.2 answer (hanswer a k rfl), hprog.1, rfl⟩
  | done a => nomatch hcall
  | read k => nomatch hcall
  | write f k => nomatch hcall
  | fail e => nomatch hcall

theorem WorkerOk.guarantee {w : Worker} (hw : WorkerOk h p w) (hawake : p.pollState ≠ .wait)
    (hg : Guarantee h.space p q) : WorkerOk h q w := by
  have huninit : p.initStep = .uninitialized → q.initStep = .uninitialized := by
    intro hp
    cases hg.initStep with
    | inl hsame => rw [hsame, hp]
    | inr hq => exact hq
  cases w with
  | idle | taken | stepping | dead => trivial
  | clearing => exact huninit hw
  | resetWait => exact huninit hw
  | resetReturned => exact absurd hw.2 hawake
  | transition => exact absurd hw.2.1 hawake
  | step4 prog =>
    obtain ⟨hstep, -, hprog⟩ := hw
    refine ⟨?_, hg.ring, hprog⟩
    cases hg.initStep with
    | inl hsame => rwa [hsame]
    | inr hq => exact .inr hq

/-- A program of the awake polling thread goes on. -/
theorem Inv.pollerRun (hinv : Inv h s) (hawake : s.port.pollState ≠ .wait)
    (hg : Guarantee h.space s.port q) {poller : Poller} (hpoller : PollerOk h q.pollState poller) :
    Inv h { s with port := q, poller := poller } where
  calls := hinv.calls
  alive := hinv.alive
  port := hinv.port.guarantee hg fun hinit =>
    absurd (hinv.port.not_initializing hawake) (by rw [hinit]; nofun)
  poller := hpoller
  worker := hinv.worker.guarantee hawake hg

theorem Inv.crashed (hinv : Inv h s) {e : Crash} (he : e ≠ .assertion) {poller : Poller}
    (hpoller : PollerOk h s.port.pollState poller) :
    Inv h { s with crash := some e, poller := poller } where
  calls := hinv.calls
  alive hcrash := he (Option.some.inj hcrash)
  port := hinv.port
  poller := hpoller
  worker := hinv.worker

/-- A call that is answered. -/
theorem Inv.called (hinv : Inv h s) {a : Access} (ha : a.call.InSpace h.space) {poller : Poller}
    {worker : Worker} (hpoller : PollerOk h s.port.pollState poller)
    (hworker : WorkerOk h s.port worker) :
    Inv h { s.call a with poller := poller, worker := worker } where
  calls b hb := by
    cases hb with
    | head => exact ha
    | tail _ hb => exact hinv.calls b hb
  alive := hinv.alive
  port := hinv.port
  poller := hpoller
  worker := hworker

theorem inv_fetched (hinv : Inv h s) (hawake : s.port.pollState ≠ .wait) {queue : List Message}
    (hqueue : ∀ m ∈ queue, MessageOk h.space h.longest m) {r : Next}
    (hr : NextOk h.space h.longest r) : Inv h (fetched s queue r) := by
  obtain ⟨hcalls, halive, hport, -, hworker⟩ := hinv
  cases r with
  | error => exact ⟨hcalls, halive, hport, ⟨hawake, nofun⟩, hworker⟩
  | empty => exact ⟨hcalls, halive, hport, ⟨hawake, hqueue⟩, hworker⟩
  | message m =>
    refine ⟨hcalls, halive, hport, ⟨hawake, ?_⟩, hworker⟩
    intro m' hm'
    rcases List.mem_append.mp hm' with hold | hnew
    · exact hqueue m' hold
    · rw [List.mem_singleton.mp hnew]
      exact hr

theorem inv_runPoller (hinv : Inv h s) (hrun : runPoller s = some t) : Inv h t := by
  have hpoller := hinv.poller
  unfold runPoller at hrun
  split at hrun
  · rename_i queue r hp
    rw [hp] at hpoller
    obtain rfl := Option.some.inj hrun
    exact inv_fetched hinv hpoller.1 hpoller.2.1 hpoller.2.2
  · rename_i queue prog _ hp
    rw [hp] at hpoller
    obtain ⟨hawake, hqueue, hprog⟩ := hpoller
    have hring := hinv.port.ring (.inr (.inr hawake))
    rcases runProg_cases hprog hring hrun with ⟨prog', port, hprog', hg, rfl⟩ | ⟨e, he, rfl⟩
    · refine hinv.pollerRun hawake hg ⟨?_, hqueue, hprog'⟩
      rwa [hg.pollState]
    · exact hinv.crashed he trivial
  · rename_i queue m hp
    rw [hp] at hpoller
    obtain rfl := Option.some.inj hrun
    exact ⟨hinv.calls, hinv.alive, hinv.port, ⟨hpoller.1, hpoller.2.1⟩, hinv.worker⟩
  · rename_i queue m prog _ hp
    rw [hp] at hpoller
    obtain ⟨hawake, hqueue, hprog⟩ := hpoller
    have hring := hinv.port.ring (.inr (.inr hawake))
    rcases runProg_cases hprog hring hrun with ⟨prog', port, hprog', hg, rfl⟩ | ⟨e, he, rfl⟩
    · refine hinv.pollerRun hawake hg ⟨?_, hqueue, hprog'⟩
      rwa [hg.pollState]
    · exact hinv.crashed he trivial
  · nomatch hrun

theorem inv_runWorker (hinv : Inv h s) (hrun : runWorker s = some t) : Inv h t := by
  obtain ⟨hcalls, halive, hport, hpoller, hworker⟩ := hinv
  unfold runWorker at hrun
  split at hrun
  · obtain rfl := Option.some.inj hrun
    exact ⟨hcalls, halive, hport, hpoller, trivial⟩
  · rename_i prog _ hw
    rw [hw] at hworker
    obtain ⟨hstep, hring, hprog⟩ := hworker
    rcases runProg_cases hprog hring hrun with ⟨prog', port, hprog', hg, rfl⟩ | ⟨e, he, rfl⟩
    · refine ⟨hcalls, halive, hport.guarantee hg ?_, ?_, ?_, hg.ring, hprog'⟩
      · intro hinit
        rcases hstep with h4 | huninit
        · exact h4
        · rw [huninit] at hinit
          nomatch hinit
      · show PollerOk h port.pollState s.poller
        rwa [hg.pollState]
      · show port.initStep = .step4 ∨ port.initStep = .uninitialized
        rcases hg.initStep with hsame | huninit
        · rwa [hsame]
        · exact .inr huninit
    · exact ⟨hcalls, fun hcrash => he (Option.some.inj hcrash), hport, hpoller, trivial⟩
  · nomatch hrun

/-- The loop over the commands. -/
theorem inv_next (hinv : Inv h s) (hawake : s.port.pollState ≠ .wait) {queue : List Message}
    (hqueue : ∀ m ∈ queue, MessageOk h.space h.longest m) : Inv h (next h.space s queue) := by
  obtain ⟨hcalls, halive, hport, -, hworker⟩ := hinv
  cases queue with
  | nil => exact ⟨hcalls, halive, hport, hawake, hworker⟩
  | cons m rest =>
    unfold next
    dsimp only
    split
    · exact ⟨hcalls, halive, hport, hawake, hworker⟩
    · have hrest : ∀ m' ∈ rest, MessageOk h.space h.longest m' :=
        fun m' hm' => hqueue m' (List.mem_cons_of_mem m hm')
      exact ⟨hcalls, halive, hport,
        ⟨hawake, hrest, sound_serve h.bounds (hqueue m List.mem_cons_self)⟩, hworker⟩

/-- What the worker finds in `_initStep`. -/
theorem inv_branch (hinv : Inv h s) : Inv h (branch h.space s) := by
  obtain ⟨hcalls, halive, hport, hpoller, -⟩ := hinv
  unfold branch
  split
  · rename_i hinit
    exact ⟨hcalls, halive, hport, hpoller, hinit⟩
  · rename_i hinit
    exact ⟨hcalls, halive, hport, hpoller, .inl hinit, hport.ring (.inl hinit),
      sound_clearCommArea h.bounds⟩
  · exact ⟨hcalls, halive, hport, hpoller, trivial⟩
  · exact ⟨hcalls, halive, hport, hpoller, trivial⟩

/-- Another polling state of an uninitialized port. Whoever is awake stays so. -/
theorem PortOk.restart (hport : PortOk h.space p) (hinit : p.initStep = .uninitialized)
    (hawake : p.pollState ≠ .wait) : PortOk h.space { p with pollState := .initRestart } where
  asleep hq := by
    rw [hinit] at hq
    nomatch hq
  pointers hq := by
    rw [hinit] at hq
    nomatch hq
  lengths := hport.lengths
  ring _ := { hport.ring (.inr (.inr hawake)) with }

theorem PollerOk.awake {poller : Poller} {pollState pollState' : PollState}
    (hpoller : PollerOk h pollState poller) (hawake : pollState' ≠ .wait) :
    PollerOk h pollState' poller := by
  cases poller with
  | waiting | dead => trivial
  | draining queue | executing queue => exact ⟨hawake, hpoller.2⟩
  | fetching queue prog | answering queue m prog => exact ⟨hawake, hpoller.2⟩
  | finishing => exact hawake

/-- Another polling state, while the polling thread is awake. -/
theorem WorkerOk.setPollState {w : Worker} (hw : WorkerOk h p w) (hawake : p.pollState ≠ .wait)
    (pollState : PollState) : WorkerOk h { p with pollState := pollState } w := by
  cases w with
  | idle | taken | stepping | dead => trivial
  | clearing | resetWait => exact hw
  | resetReturned => exact absurd hw.2 hawake
  | transition => exact absurd hw.2.1 hawake
  | step4 prog => exact ⟨hw.1, { hw.2.1 with }, hw.2.2⟩

theorem inv_setPollState (hinv : Inv h s) (hawake : s.port.pollState ≠ .wait)
    (pollState : PollState) {poller : Poller} (hpoller : PollerOk h pollState poller) :
    Inv h { s with port := { s.port with pollState := pollState }, poller := poller } :=
  ⟨hinv.calls, hinv.alive,
    .setPollState (hinv.port.ring (.inr (.inr hawake))) (hinv.port.not_initializing hawake) _,
    hpoller, hinv.worker.setPollState hawake _⟩

theorem inv_initPolling (hinv : Inv h s) (hcomplete : s.port.initStep = .complete) :
    Inv h { s with polling := false, port := { s.port with pollState := .initRun } } := by
  obtain ⟨hcalls, halive, hport, hpoller, hworker⟩ := hinv
  have hring := hport.ring (.inr (.inl hcomplete))
  refine ⟨hcalls, halive, .setPollState hring (by rw [hcomplete]; rfl) _, hpoller.awake nofun, ?_⟩
  -- the worker is not in a reset
  cases hw : s.worker with
  | idle | taken | stepping | dead => trivial
  | clearing | resetWait =>
    rw [hw] at hworker
    exact absurd (hcomplete.symm.trans hworker) nofun
  | resetReturned | transition =>
    rw [hw] at hworker
    exact absurd (hcomplete.symm.trans hworker.1) nofun
  | step4 prog =>
    rw [hw] at hworker
    rcases hworker.1 with hstep | hstep
    · exact absurd (hcomplete.symm.trans hstep) nofun
    · exact absurd (hcomplete.symm.trans hstep) nofun

theorem inv_writeIP (hinv : Inv h s) :
    Inv h ({ s with port := { s.port with portError := false } }.stateTransition
      .uninitialized) := by
  obtain ⟨hcalls, halive, hport, hpoller, hworker⟩ := hinv
  refine ⟨hcalls, halive, hport.uninitialize rfl rfl fun hring => { hring with }, hpoller, ?_⟩
  show WorkerOk h _ s.worker
  cases hw : s.worker with
  | idle | taken | stepping | dead => trivial
  | clearing | resetWait => rfl
  | resetReturned | transition =>
    rw [hw] at hworker
    exact ⟨rfl, hworker.2⟩
  | step4 prog =>
    rw [hw] at hworker
    exact ⟨.inr rfl, { hworker.2.1 with }, hworker.2.2⟩

@[simp] theorem pollState_writeSA (p : Port) (value : BitVec 16) :
    (UDA50.writeSA p value).pollState = p.pollState := by
  unfold UDA50.writeSA
  split <;> try split
  all_goals rfl

theorem writeSA_of_complete (hcomplete : p.initStep = .complete) (value : BitVec 16) :
    UDA50.writeSA p value = p := by
  unfold UDA50.writeSA
  rw [hcomplete]

theorem inv_reset (hinv : Inv h s) (hw : s.worker = .clearing) : Inv h (reset s) := by
  obtain ⟨hcalls, halive, hport, hpoller, hworker⟩ := hinv
  rw [hw] at hworker
  unfold reset
  split
  · rename_i hwait
    exact ⟨hcalls, halive, hport.uninitialize hworker rfl fun hring => { hring with }, hpoller,
      hworker, hwait⟩
  · rename_i hawake
    have hrestart := hport.restart hworker hawake
    exact ⟨hcalls, halive, hrestart.uninitialize hworker rfl fun hring => { hring with },
      hpoller.awake nofun, hworker⟩

end Threads

/-! ## The runs -/

variable {h : Host} {s t : State}

theorem inv_step {a : Action} (hinv : Inv h s) (ha : Careful h s a)
    (hstep : step h.space s a = some t) : Inv h t := by
  have ⟨hcalls, halive, hport, hpoller, hworker⟩ := hinv
  cases a with
  | writeIP =>
    simp only [step, Option.ite_none_left_eq_some] at hstep
    obtain rfl := Option.some.inj hstep.2
    exact inv_writeIP hinv
  | readIP =>
    simp only [step, Option.ite_none_left_eq_some] at hstep
    obtain rfl := Option.some.inj hstep.2
    split
    · exact ⟨hcalls, halive, hport, hpoller, hworker⟩
    · exact hinv
  | initPolling =>
    simp only [step, Option.ite_none_right_eq_some] at hstep
    obtain rfl := Option.some.inj hstep.2
    exact inv_initPolling hinv ha
  | writeSA value =>
    simp only [step, Option.ite_none_left_eq_some] at hstep
    obtain rfl := Option.some.inj hstep.2
    by_cases hcomplete : s.port.initStep = .complete
    · rw [writeSA_of_complete hcomplete]
      exact hinv
    · obtain ⟨hidle, -, hinit, hfit⟩ := ha hcomplete
      refine ⟨hcalls, halive, hport.writeSA value hinit hfit, ?_, ?_⟩
      · show PollerOk h (writeSA s.port value).pollState s.poller
        rwa [pollState_writeSA]
      · show WorkerOk h _ s.worker
        rw [hidle]
        trivial
  | takeStep =>
    simp only [step] at hstep
    split at hstep
    · rw [Option.ite_none_right_eq_some] at hstep
      obtain rfl := Option.some.inj hstep.2
      exact ⟨hcalls, halive, ⟨hport.asleep, hport.pointers, hport.lengths,
        fun hq => { hport.ring hq with }⟩, hpoller, trivial⟩
    · nomatch hstep
  | branch =>
    simp only [step] at hstep
    split at hstep
    · obtain rfl := Option.some.inj hstep
      exact inv_branch hinv
    · nomatch hstep
  | stepDone =>
    simp only [step] at hstep
    split at hstep
    · obtain rfl := Option.some.inj hstep
      exact ⟨hcalls, halive, hport, hpoller, trivial⟩
    · nomatch hstep
  | reset =>
    simp only [step] at hstep
    split at hstep
    · rename_i hw
      obtain rfl := Option.some.inj hstep
      exact inv_reset hinv hw
    · nomatch hstep
  | resetDone =>
    simp only [step] at hstep
    split at hstep
    · rename_i hw
      rw [Option.ite_none_right_eq_some] at hstep
      obtain rfl := Option.some.inj hstep.2
      rw [hw] at hworker
      exact ⟨hcalls, halive, hport, hpoller, hworker, hstep.1⟩
    · nomatch hstep
  | clearFields =>
    simp only [step] at hstep
    split at hstep
    · rename_i hw
      obtain rfl := Option.some.inj hstep
      rw [hw] at hworker
      obtain ⟨hinit, hwait⟩ := hworker
      exact ⟨hcalls, halive, portOk_clear hinit hwait, hpoller, hinit, hwait, rfl, rfl⟩
    · nomatch hstep
  | transition =>
    simp only [step] at hstep
    split at hstep
    · rename_i hw
      obtain rfl := Option.some.inj hstep
      rw [hw] at hworker
      obtain ⟨-, hwait, hpointers⟩ := hworker
      refine ⟨hcalls, halive, ⟨fun _ => hwait, fun _ _ => hpointers, nofun, fun hq => ?_⟩,
        hpoller, trivial⟩
      obtain hq | hq | hq := hq
      · nomatch hq
      · nomatch hq
      · exact absurd hwait hq
    · nomatch hstep
  | workerRun => exact inv_runWorker hinv hstep
  | workerCall answer =>
    simp only [step] at hstep
    split at hstep
    · rename_i prog hw
      rw [hw] at hworker
      obtain ⟨hinit, hring, hprog⟩ := hworker
      obtain ⟨prog', a, hprog', ha', rfl⟩ := callProg_cases hprog
        (fun a k hk => ha a (by rw [hw, hk]; rfl)) hstep
      exact hinv.called ha' hpoller ⟨hinit, hring, hprog'⟩
    · nomatch hstep
  | wake =>
    simp only [step] at hstep
    split at hstep
    · rw [Option.ite_none_left_eq_some] at hstep
      obtain ⟨hawake, hstep⟩ := hstep
      obtain rfl := Option.some.inj hstep
      refine inv_setPollState hinv hawake _ ⟨?_, nofun⟩
      split
      · nofun
      · exact hawake
    · nomatch hstep
  | drain =>
    simp only [step] at hstep
    split at hstep
    · rename_i queue hp
      obtain rfl := Option.some.inj hstep
      rw [hp] at hpoller
      refine ⟨hcalls, halive, hport, ?_, hworker⟩
      show PollerOk h s.port.pollState _
      split
      · exact hpoller
      · exact ⟨hpoller.1, hpoller.2, sound_getNextCommand h.bounds⟩
    · nomatch hstep
  | run => exact inv_runPoller hinv hstep
  | pollerCall answer =>
    simp only [step] at hstep
    split at hstep
    · rename_i queue prog hp
      rw [hp] at hpoller
      obtain ⟨hawake, hqueue, hprog⟩ := hpoller
      obtain ⟨prog', a, hprog', ha', rfl⟩ := callProg_cases hprog
        (fun a k hk => ha a (by rw [hp, hk]; rfl)) hstep
      exact hinv.called ha' ⟨hawake, hqueue, hprog'⟩ hworker
    · rename_i queue m prog hp
      rw [hp] at hpoller
      obtain ⟨hawake, hqueue, hprog⟩ := hpoller
      obtain ⟨prog', a, hprog', ha', rfl⟩ := callProg_cases hprog
        (fun a k hk => ha a (by rw [hp, hk]; rfl)) hstep
      exact hinv.called ha' ⟨hawake, hqueue, hprog'⟩ hworker
    · nomatch hstep
  | next =>
    simp only [step] at hstep
    split at hstep
    · rename_i queue hp
      obtain rfl := Option.some.inj hstep
      rw [hp] at hpoller
      exact inv_next hinv hpoller.1 hpoller.2
    · nomatch hstep
  | finish =>
    simp only [step] at hstep
    split at hstep
    · rename_i hp
      obtain rfl := Option.some.inj hstep
      rw [hp] at hpoller
      exact inv_setPollState hinv hpoller _ trivial
    · nomatch hstep

theorem inv_initial (drives : ℕ → Drive) : Inv h (.initial drives) := by
  refine ⟨nofun, nofun, ⟨nofun, nofun, nofun, ?_⟩, trivial, trivial⟩
  rintro (hq | hq | hq)
  · nomatch hq
  · nomatch hq
  · exact absurd rfl hq

/-- The runs of careful steps. -/
def CarefulRun (h : Host) (drives : ℕ → Drive) : State → Prop :=
  Transition.Reachable (· = .initial drives) fun s t =>
    ∃ a, Careful h s a ∧ step h.space s a = some t

theorem CarefulRun.inv {drives : ℕ → Drive} (hrun : CarefulRun h drives s) : Inv h s := by
  apply Transition.Reachable.invariant _ _ hrun
  · intro s hs
    rw [hs]
    exact inv_initial drives
  · rintro s t hs ⟨a, ha, hstep⟩
    exact inv_step hs ha hstep

end QUniBone.UDA50
