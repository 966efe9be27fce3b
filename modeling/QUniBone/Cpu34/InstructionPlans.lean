import QUniBone.Cpu34.ReferenceRuns

/-!
# The plan of every instruction

`execute_keeps`: whatever the opcode, the references `execute` makes are those of the plan of
its kind, and the registers change in between as the plan says. The instructions are taken in
the order of `Instr.lean`, the groups with the order of their opcodes.

`execute_aborted` and `fetch_view` are what the rest of the development uses.
-/

namespace QUniBone.Kd11ea

open Prog

variable {α β : Type} {bus : Bus} {ir : Word}

/-! ## Instructions -/

/-- The program follows the plan of this kind of instruction. -/
def Keeps (ir : Word) (kind : Kind) (x : M Next) : Prop :=
  ∀ v₀, Triple (fun m => At ir v₀ [] .idle m.view) x (fun _ _ => True) fun m =>
    ∃ pc k, Aborted v₀ (kind.planWith ir pc (forming (dstOf ir) false).2.own) k m.view

theorem Follows.keeps {kind : Kind} {x : M Next}
    (h : ∀ pc, Follows ir .idle (kind.planWith ir pc (forming (dstOf ir) false).2.own) x) :
    Keeps ir kind x := by
  intro v₀
  refine (h 0 v₀ []).conseq (fun _ h => h) (fun _ _ h => h) ?_
  exact fun _ ⟨k, hk⟩ => ⟨0, k, hk⟩

theorem Total.keeps {x : M Next} (h : Total x) (kind : Kind) : Keeps ir kind x :=
  Follows.keeps fun _ => h.follows

theorem mov_keeps (byte : Bool) : Keeps ir (.double byte true) (mov bus byte ir) := by
  refine Follows.keeps fun _ => ?_
  unfold mov
  exact (performs_rdB byte).follows fun _ => (performs_alu _).leadTo fun _ =>
    (performs_look _).leadTo fun _ => (follows_storeWhole _ byte).tail fun _ => total_pure _

theorem follows_write (write : Bool) (b : UInt) (byte : Bool) :
    Follows ir .idle (if write then writing ir else []) (do
      when write (wr bus b byte)
      svc) := by
  cases write with
  | true => exact (follows_writedest _ byte).tail fun _ => total_pure _
  | false => exact (total_bind (total_pure ()) fun _ => total_pure _).follows

theorem binaryOp_keeps (byte : Bool) (op : Word → Word → CC → Alu.Result) (write : Bool) :
    Keeps ir (.double byte write) (binaryOp bus byte ir op write) := by
  refine Follows.keeps fun _ => ?_
  unfold binaryOp
  exact (performs_rdB byte).follows fun _ => (performs_alu op).leadTo fun b =>
    follows_write write b byte

theorem unaryOp_keeps (byte : Bool) (op : Word → Word → CC → Alu.Result) (write : Bool) :
    Keeps ir (.single byte write) (unaryOp bus byte ir op write) := by
  refine Follows.keeps fun _ => ?_
  unfold unaryOp
  exact (performs_rdU byte).follows fun _ => (performs_alu op).leadTo fun b =>
    follows_write write b byte

/-- An instruction which reads its operand and then works on registers only. -/
theorem keeps_rdU {byte : Bool} {f : Unit → M Next} (hf : ∀ a, Total (f a)) :
    Keeps ir (.single byte false) (rdU bus byte ir >>= f) := by
  refine Follows.keeps fun _ => ?_
  exact (performs_rdU byte).follows fun a => (hf a).follows

theorem total_look (f : Kd11ea → α) : Total (look f) := fun m => ⟨f m.cpu, m, rfl⟩

theorem total_modify (f : Machine → Machine) : Total (modify f : M PUnit) := fun m =>
  ⟨⟨⟩, f m, rfl⟩

theorem mul_keeps : Keeps ir (.single (byteOf ir) false) (mul bus ir) := by
  unfold mul
  exact keeps_rdU fun _ => total_bind (total_look _) fun _ => total_bind (total_update _) fun _ =>
    total_bind (total_update _) fun _ => total_pure _

theorem div_keeps : Keeps ir (.single (byteOf ir) false) (div bus ir) := by
  have hstore : ∀ reg pair, Total (storeQuotient reg pair) := by
    intro reg pair
    cases pair with
    | none => exact total_pure ()
    | some _ => exact total_update _
  unfold div
  exact keeps_rdU fun _ => total_bind (total_look _) fun _ => total_bind (total_update _) fun _ =>
    total_bind (hstore _ _) fun _ => total_pure _

theorem ash_keeps : Keeps ir (.single (byteOf ir) false) (ash bus ir) := by
  unfold ash
  exact keeps_rdU fun _ => total_bind (total_look _) fun _ => total_bind (total_update _) fun _ =>
    total_bind (total_update _) fun _ => total_pure _

theorem ashc_keeps : Keeps ir (.single (byteOf ir) false) (ashc bus ir) := by
  unfold ashc
  exact keeps_rdU fun _ => total_bind (total_look _) fun _ => total_bind (total_update _) fun _ =>
    total_bind (total_update _) fun _ => total_pure _

theorem mtps_keeps (byte : Bool) (hbyte : byteOf ir = byte) :
    Keeps ir (.single byte false) (mtps bus ir) := by
  unfold mtps
  rw [hbyte]
  exact keeps_rdU fun _ => total_bind (total_modify _) fun _ => total_pure _

theorem xor_keeps : Keeps ir (.single (byteOf ir) true) (xor bus ir) := by
  refine Follows.keeps fun _ => ?_
  unfold xor
  exact (performs_rdU (byteOf ir)).follows fun _ => (performs_look _).leadTo fun _ =>
    (performs_alu _).leadTo fun b => follows_write true b (byteOf ir)

theorem mark_keeps : Keeps ir .mark (mark bus ir) := by
  refine Follows.keeps fun _ => ?_
  unfold mark
  exact (performs_copy (by decide) (by decide) _).leadTo fun _ =>
    (performs_take (by decide) (by decide)).leadTo fun _ => performs_popWord.tail_follows fun _ =>
    total_bind (total_update _) fun _ => total_pure _

theorem mfpi_keeps : Keeps ir .mfpi (mfpi bus ir) := by
  have hoperand : Performs ir .idle (reading (dstOf ir) false) .idle
      (mfpiOperand bus (dstOf ir)) := by
    unfold mfpiOperand reading
    split_ifs
    · exact performs_look _
    · exact (performs_addrdest _ false).bind fun _ =>
        (performs_inPrevSpace (performs_dati false)).tail fun _ => performs_look _
  refine Follows.keeps fun _ => ?_
  unfold mfpi
  exact hoperand.follows fun _ => (performs_setCC _).leadTo fun _ =>
    (performs_push false).leadTo fun _ => (follows_outSp _).tail fun _ => total_pure _

theorem mtpi_keeps : Keeps ir .mtpi (mtpi bus ir) := by
  have hstore : ∀ b, Follows ir .idle (reading (dstOf ir) false) (mtpiStore bus (dstOf ir) b) := by
    intro b
    unfold mtpiStore reading
    split_ifs
    · exact (total_update _).follows
    · exact (performs_addrdest _ false).follows fun _ =>
        Performs.leadTo (performs_update fun _ => rfl) fun _ =>
        follows_inPrevSpace (follows_dato false)
  refine Follows.keeps fun _ => ?_
  unfold mtpi
  exact performs_popWord.follows (p := [Stage.idle.pop]) fun b => (performs_setCC _).leadTo fun _ =>
    (hstore b).tail fun _ => total_pure _

theorem storeFlags_keeps (byte : Bool) (b : Kd11ea → Word) :
    Keeps ir (.store byte) (storeFlags bus byte ir b) := by
  refine Follows.keeps fun _ => ?_
  have hstore : ∀ s, (dstOf ir).addrMode = ir.addrMode → Follows ir s
      (if (dstOf ir).addrMode = 0 then [] else [s]) (do
        let b ← look b
        clvNz b
        storeWhole bus byte (dstOf ir) b
        svc) := by
    intro s hmode
    rw [hmode]
    exact (performs_look b).leadTo fun _ => (performs_setCC _).leadTo fun _ =>
      (follows_storeWhole _ byte).tail fun _ => total_pure _
  have hidle := hstore .idle (addrMode_dstOf ir)
  have hformed := hstore (forming (dstOf ir) byte).2 (addrMode_dstOf ir)
  unfold storeFlags
  show Follows ir .idle (reading (dstOf ir) byte) _
  unfold reading reference when
  split_ifs at hidle hformed ⊢
  all_goals first
    | exact (performs_pure ()).leadTo fun _ => hidle
    | exact (performs_addrdest _ byte).follows fun _ => hformed
    | contradiction

theorem jsr_keeps : Keeps ir .jsr (jsr bus ir) := by
  unfold jsr
  split_ifs
  · exact (total_pure _).keeps _
  · refine Follows.keeps fun _ => ?_
    exact (performs_addrdest _ false).follows fun _ =>
      (performs_scratch (by decide) _).leadTo fun _ => (performs_push false).leadTo fun _ => (follows_outSp _).tail fun _ =>
      total_bind (total_update _) fun _ => total_bind (total_update _) fun _ => total_pure _

theorem jmp_keeps : Keeps ir .jmp (jmp bus ir) := by
  unfold jmp
  split_ifs
  · exact (total_pure _).keeps _
  · refine Follows.keeps fun _ => ?_
    exact (performs_addrdest _ false).tail_follows fun _ =>
      total_bind (total_update _) fun _ => total_pure _

theorem rts_keeps : Keeps ir .rts (rts bus ir) := by
  refine Follows.keeps fun _ => ?_
  unfold rts
  exact Performs.leadTo (performs_update fun _ => rfl) fun _ => performs_pop.leadTo fun _ =>
    (performs_take (by decide) (reg_lt _)).leadTo fun _ =>
    (performs_dati false).tail_follows fun _ => total_bind (total_update _) fun _ => total_pure _

theorem rti_keeps : Keeps ir .rti (rti bus ir) := by
  intro v₀
  have hrest : ∀ pc, Triple (fun m => At ir v₀ [Stage.idle.pop] .idle m.view)
      (do
        update fun cpu => cpu.setR 7 pc
        let b ← popWord bus
        let b' ← look fun cpu => rtiPsw cpu b
        modify fun m => m.setPsw (rtiPsw m.cpu b)
        return Next.service (ir == 2 && b'.getLsbD 4))
      (fun _ _ => True) fun m => ∃ pc k,
        Aborted v₀ (Kind.planWith ir pc (forming (dstOf ir) false).2.own .rti) k m.view := by
    intro pc
    have hfollows : Follows ir .idle [(Stage.idle.move (.load 7 pc)).pop] (do
        update fun cpu => cpu.setR 7 pc
        let b ← popWord bus
        let b' ← look fun cpu => rtiPsw cpu b
        modify fun m => m.setPsw (rtiPsw m.cpu b)
        return Next.service (ir == 2 && b'.getLsbD 4)) :=
      (performs_load (by decide) pc).leadTo fun _ => performs_popWord.tail_follows fun b =>
        total_bind (total_look _) fun _ => total_bind (total_modify _) fun _ => total_pure _
    exact (hfollows v₀ [Stage.idle.pop]).conseq (fun _ h => h) (fun _ _ h => h)
      fun _ ⟨k, hk⟩ => ⟨pc, k, hk⟩
  unfold rti
  refine Triple.bind ((performs_popWord v₀ []).conseq (fun _ h => h) (fun _ _ h => h) ?_) hrest
  -- the first pop failed: no word was loaded
  exact fun _ ⟨k, hk⟩ => ⟨0, k, hk.append [(Stage.idle.move (.load 7 0)).pop]⟩

/-! ## Decoding -/

/-- A group of instructions and their kinds. -/
inductive Planned (ir : Word) : Option (M Next) → Option Kind → Prop
  | none : Planned ir none none
  | some {x : M Next} {kind : Kind} : Keeps ir kind x → Planned ir (some x) (some kind)

theorem planned_ite {c : Prop} [Decidable c] {x y : Option (M Next)} {k l : Option Kind}
    (hx : Planned ir x k) (hy : Planned ir y l) :
    Planned ir (if c then x else y) (if c then k else l) := by
  split
  · exact hx
  · exact hy

/-- Two cases of the source with one kind. -/
theorem planned_or {c d : Prop} [Decidable c] [Decidable d] {x y : Option (M Next)}
    {k l : Option Kind} (hx : Planned ir x k) (hy : Planned ir y (if d then k else l)) :
    Planned ir (if c then x else y) (if c ∨ d then k else l) := by
  by_cases hc : c
  · rw [if_pos hc, if_pos (.inl hc)]
    exact hx
  · have hd : (c ∨ d) = d := propext (or_iff_right hc)
    rw [if_neg hc]
    simpa only [hd] using hy

theorem keeps_orElse {x y : Option (M Next)} {k l : Option Kind} {z : M Next} {d : Kind}
    (hx : Planned ir x k) (hy : Keeps ir (l.getD d) (y.getD z)) :
    Keeps ir ((k <|> l).getD d) ((x <|> y).getD z) := by
  cases hx with
  | none => exact hy
  | some h => exact h

/-- The last group. -/
theorem keeps_getD {x y : Option (M Next)} {k : Option Kind} {z : M Next} {d : Kind}
    (hx : Planned ir x k) (hy : Keeps ir d (y.getD z)) :
    Keeps ir (k.getD d) ((x <|> y).getD z) := by
  cases hx with
  | none => exact hy
  | some h => exact h

theorem binary_planned (ir : Word) : Planned ir (binary bus ir) (binaryKind ir) := by
  have hop : ∀ byte op write,
      Planned ir (some (binaryOp bus byte ir op write)) (some (.double byte write)) :=
    fun byte op write => .some (binaryOp_keeps byte op write)
  exact planned_ite (.some (mov_keeps _)) <| planned_ite (hop _ _ _) <| planned_ite (hop _ _ _) <|
    planned_ite (hop _ _ _) <| planned_ite (hop _ _ _) <| planned_ite (hop _ _ _) <|
    planned_ite (hop _ _ _) <| planned_ite (.some ((total_pure _).keeps _)) .none

theorem eis_planned (ir : Word) : Planned ir (eis bus ir) (eisKind ir) := by
  have hsilent : ∀ c : Prop, [Decidable c] →
      Planned ir (if c then some (sob ir) else some ri) (some .silent) := by
    intro c _
    have hsob : Total (sob ir) := total_bind (total_update _) fun _ => total_bind (total_look _)
      fun _ => total_bind (by unfold when; split; exacts [total_update _, total_pure _])
      fun _ => total_pure _
    split
    · exact .some (hsob.keeps _)
    · exact .some ((total_pure _).keeps _)
  exact planned_ite (planned_ite (.some mul_keeps) <| planned_ite (.some div_keeps) <|
    planned_ite (.some ash_keeps) <| planned_ite (.some ashc_keeps) <|
    planned_ite (.some xor_keeps) (hsilent _)) .none

theorem unary_planned (ir : Word) : Planned ir (unary bus ir) (unaryKind ir) := by
  have hop : ∀ byte op write,
      Planned ir (some (unaryOp bus byte ir op write)) (some (.single byte write)) :=
    fun byte op write => .some (unaryOp_keeps byte op write)
  have hmark : Planned ir (some (if byteOf ir then mtps bus ir else mark bus ir))
      (some (if byteOf ir then .single (byteOf ir) false else .mark)) := by
    split
    · exact .some (mtps_keeps _ rfl)
    · exact .some mark_keeps
  have hflags : Planned ir (some (if byteOf ir then mfps bus ir else sxt bus ir))
      (some (.store (byteOf ir))) := by
    cases byteOf ir with
    | true => exact .some (storeFlags_keeps _ _)
    | false => exact .some (storeFlags_keeps _ _)
  exact planned_or (hop _ _ _) <| planned_or (hop _ _ _) <| planned_or (hop _ _ _) <|
    planned_or (hop _ _ _) <| planned_or (hop _ _ _) <| planned_or (hop _ _ _) <|
    planned_ite (hop _ _ _) <| planned_ite (hop _ _ _) <| planned_or (hop _ _ _) <|
    planned_or (hop _ _ _) <| planned_or (hop _ _ _) <| planned_ite (hop _ _ _) <|
    planned_ite hmark <| planned_ite (.some mfpi_keeps) <| planned_ite (.some mtpi_keeps) <|
    planned_ite hflags .none

theorem calls_planned (ir : Word) : Planned ir (calls bus ir) (callsKind ir) :=
  planned_ite (.some jsr_keeps) <| planned_or (.some ((total_pure _).keeps _)) <|
    planned_ite (.some ((total_pure _).keeps _)) .none

theorem branches_planned (ir : Word) : Planned ir (branches ir) (branchesKind ir) :=
  planned_ite (.some ((total_bind (total_update _) fun _ => total_pure _).keeps _)) .none

theorem misc_planned (ir : Word) : Planned ir (misc bus ir) (miscKind ir) := by
  have hccop : ∀ value, Total (ccop ir value) :=
    fun _ => total_bind (total_update _) fun _ => total_pure _
  have hsub : ∀ value, Planned ir
      (if ir &&& 0o70 = 0 then some (rts bus ir)
        else if ir &&& 0o70 = 0o10 ∨ ir &&& 0o70 = 0o20 ∨ ir &&& 0o70 = 0o30 then some ri
        else some (ccop ir value))
      (some (if ir &&& 0o70 = 0 then .rts else .silent)) := by
    intro value
    split_ifs
    · exact .some rts_keeps
    · exact .some ((total_pure _).keeps _)
    · exact .some ((hccop _).keeps _)
  exact planned_ite (.some jmp_keeps) <| planned_ite (hsub _) <|
    planned_ite (.some (unaryOp_keeps _ _ _)) .none

theorem operate_keeps (ir : Word) :
    Keeps ir (operateKind ir) ((operate bus ir).getD ri) := by
  have hsilent : ∀ {x : M Next}, Total x → Keeps ir .silent x := fun h => h.keeps _
  have hhalt : Total Kd11ea.halt := by
    intro m
    unfold Kd11ea.halt
    split
    · exact ⟨_, _, rfl⟩
    · exact total_pure _ m
  unfold operate operateKind
  by_cases hrti : ir = 2 ∨ ir = 6
  · rw [if_pos hrti]
    rcases hrti with rfl | rfl <;> exact rti_keeps
  · simp only [if_neg hrti]
    split_ifs
    · exact hsilent hhalt
    · exact hsilent (total_bind (total_update _) fun _ => total_pure _)
    · exact hsilent (total_pure _)
    · exact hsilent (total_pure _)
    · exact hsilent (total_bind (total_modify _) fun _ => total_pure _)
    · exact hsilent (total_pure _)

/-- Every instruction makes the references of its plan, in the order of the plan. -/
theorem execute_keeps (ir : Word) : Keeps ir (kindOf ir) (execute bus ir) :=
  keeps_orElse (binary_planned ir) <| keeps_orElse (eis_planned ir) <|
    keeps_orElse (unary_planned ir) <| keeps_orElse (calls_planned ir) <|
    keeps_orElse (branches_planned ir) <| keeps_getD (misc_planned ir) (operate_keeps ir)

/-- The autoincrement the processor takes back if the push of `JSR` fails: that of the address
it jumps to. -/
def pendingOf (ir : Word) : Option (RegIdx × Word) := (forming (dstOf ir) false).2.own

/-- An aborted instruction has made some of the references of its plan, and failed in the next
one. -/
theorem execute_aborted {bus : Bus} {ir : Word} {m m' : Machine} (hir : m.cpu.ir = ir)
    (hnone : m.cpu.autoinc = none) (h : execute bus ir m = .error () m') :
    ∃ pc k, Aborted m.view ((kindOf ir).planWith ir pc (pendingOf ir)) k m'.view := by
  have hkeeps : Keeps ir (kindOf ir) (execute bus ir) := execute_keeps ir
  replace hkeeps := hkeeps m.view m (At.start hir hnone)
  rwa [h] at hkeeps

/-- The processor at its opcode fetch. -/
def fetching (m : Machine) : Machine :=
  (((m.mapCpu fun cpu => { cpu with mmu := cpu.mmu.instructionStart }).note .started).mapCpu
    (·.setDestRef false)).mapCpu fun cpu => { cpu.autoincCommit with ba := cpu.r 7 }

theorem fetching_view (m : Machine) (hfrozen : m.cpu.mmu.frozen = false) :
    (fetching m).view.Fresh := by
  have hstart : m.cpu.mmu.instructionStart = { m.cpu.mmu with mmr1 := 0, mmr1Count := 0 } :=
    if_neg (by rw [hfrozen]; exact Bool.false_ne_true)
  exact ⟨(congrArg (·.frozen) hstart).trans hfrozen, congrArg (·.mmr1) hstart,
    congrArg (·.mmr1Count) hstart⟩

/-- The opcode fetch is a reference of its own: it takes nothing back. -/
theorem fetch_error {bus : Bus} {m m' : Machine} (h : fetch bus m = .error () m') :
    dati bus false (fetching m) = .error () m' := by
  have hdati : fetch bus m = (dati bus false >>= _) (fetching m) := rfl
  rw [hdati] at h
  cases hread : dati bus false (fetching m) with
  | ok _ t =>
      rw [bind_ok _ hread] at h
      cases h
  | error _ t =>
      rw [bind_error _ hread] at h
      cases h
      rfl

/-- The processor after its opcode fetch. -/
theorem fetch_view {bus : Bus} {m m' : Machine} {ir : Word} (h : fetch bus m = .ok ir m') :
    m'.cpu.autoinc = none ∧ general m'.cpu = Function.update (general m.cpu) 7 (m.cpu.r 7 + 2) ∧
      (m.cpu.mmu.frozen = false → m'.view.Fresh ∧ m'.cpu.mmu.mmr2 = m.cpu.r 7) := by
  have hdati : fetch bus m = (dati bus false >>= _) (fetching m) := rfl
  rw [hdati] at h
  obtain ⟨_, t, hread, hrest⟩ := ok_of_bind_ok h
  have hview := dati_ends bus false (m := fetching m) nofun
  rw [hread] at hview
  have hview : t.view = (fetching m).view.succeeded := hview
  have hregs : general t.cpu = general m.cpu := congrArg (·.regs) hview
  have hpc : t.cpu.r 7 = m.cpu.r 7 := congrFun hregs 7
  cases hrest
  refine ⟨congrArg (·.autoinc) hview, ?_, fun hfrozen => ?_⟩
  · rw [← hregs, ← hpc]
    exact general_update t.cpu (by decide) _
  · have hfresh := fetching_view m hfrozen
    have hfrozen' : t.cpu.mmu.frozen = false := (congrArg (·.frozen) hview).trans hfresh.frozen
    have hfetched : t.cpu.mmu.instructionFetched (t.cpu.r 7)
        = { t.cpu.mmu with mmr2 := t.cpu.r 7 } :=
      if_neg (by rw [hfrozen']; exact Bool.false_ne_true)
    have hmmr1 := (congrArg (·.mmr1) hview).trans hfresh.mmr1
    have hcount := (congrArg (·.count) hview).trans hfresh.count
    exact ⟨⟨(congrArg (·.frozen) hfetched).trans hfrozen', (congrArg (·.mmr1) hfetched).trans hmmr1,
      (congrArg (·.mmr1Count) hfetched).trans hcount⟩, (congrArg (·.mmr2) hfetched).trans hpc⟩

end QUniBone.Kd11ea
