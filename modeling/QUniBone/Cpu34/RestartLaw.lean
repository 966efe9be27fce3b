import QUniBone.Cpu34.AbortedPops
import Mathlib.Tactic.Abel

/-!
# Restarting an aborted instruction

MMR1 holds the amounts the addressing modes changed registers by, MMR2 the address of the
instruction, so that a handler can put the registers back and restart. The processor on its own
takes back the autoincrement of the reference which failed, and MMR1 does not know of it; nor
does it know of pushes and pops.

* `mmr1Amount`: what MMR1 tells of a register.
* `hiddenTo`: the changes it does not tell.
* `mmr1_undoes_iff`: when putting the registers back by MMR1 is right.
-/

namespace QUniBone

namespace Kd11ea

open Kt11d

/-! ## Reading MMR1 -/

/-- The amount one byte of MMR1 holds for a register. -/
def entryAmount (entry : BitVec 8) (i : RegIdx) : Word :=
  if (entry.extractLsb' 0 3).toNat = i.val then (entry.extractLsb' 3 5).signExtend 16 else 0

/-- The amount MMR1 holds for a register. -/
def mmr1Amount (mmr1 : Word) (i : RegIdx) : Word :=
  entryAmount (mmr1.extractLsb' 0 8) i + entryAmount (mmr1.extractLsb' 8 8) i

/-- The amounts an addressing mode changes a register by. -/
def Small (amount : Word) : Prop := amount = 1 ∨ amount = 2 ∨ amount = -1 ∨ amount = -2

/-- The amounts logged for a register. -/
def loggedTo (i : RegIdx) (cs : List (RegIdx × Word)) : Word :=
  (cs.map fun c => if c.1 = i then c.2 else 0).sum

/-- The low and the high part of two words put together. -/
theorem extract_append {v w : ℕ} (hi : BitVec v) (lo : BitVec w) :
    (hi ++ lo).extractLsb' 0 w = lo ∧ (hi ++ lo).extractLsb' w v = hi := by
  constructor
  · apply BitVec.eq_of_getLsbD_eq
    intro i hi
    simp [BitVec.getLsbD_append, hi, -BitVec.getLsbD_eq_getElem]
  · apply BitVec.eq_of_getLsbD_eq
    intro i hi
    simp [BitVec.getLsbD_append, hi, -BitVec.getLsbD_eq_getElem]

theorem entryAmount_mmr1Byte {c : RegIdx × Word} (hr : c.1.val < 8) (hamount : Small c.2)
    (i : RegIdx) : entryAmount (Reference.mmr1Byte c) i = if c.1 = i then c.2 else 0 := by
  have hextend : (c.2.setWidth 5).signExtend 16 = c.2 := by
    rcases hamount with h | h | h | h <;> rw [h] <;> rfl
  have hreg : (BitVec.ofNat 3 c.1.val).toNat = i.val ↔ c.1 = i := by
    rw [BitVec.toNat_ofNat, Nat.mod_eq_of_lt hr, Fin.ext_iff]
  obtain ⟨hlow, hhigh⟩ := extract_append (c.2.setWidth 5) (BitVec.ofNat 3 c.1.val)
  unfold entryAmount Reference.mmr1Byte
  rw [hlow, hhigh, hextend]
  exact if_congr hreg rfl rfl

theorem entryAmount_zero (i : RegIdx) : entryAmount 0 i = 0 := by
  unfold entryAmount
  split <;> rfl

theorem mmr1Amount_two (b b' : BitVec 8) (i : RegIdx) :
    mmr1Amount (b' ++ b) i = entryAmount b i + entryAmount b' i := by
  obtain ⟨hlow, hhigh⟩ := extract_append b' b
  unfold mmr1Amount
  rw [hlow, hhigh]

theorem mmr1Amount_one (b : BitVec 8) (i : RegIdx) :
    mmr1Amount (b.setWidth 16) i = entryAmount b i := by
  have happend : b.setWidth 16 = (0 : BitVec 8) ++ b := by
    apply BitVec.eq_of_getLsbD_eq
    intro j hj
    refine Eq.trans ?_ (BitVec.getLsbD_append (x := (0 : BitVec 8)) (y := b) (i := j)).symm
    by_cases hlow : j < 8
    · simp [hj, hlow, -BitVec.getLsbD_eq_getElem]
    · simp [hj, hlow, BitVec.getLsbD_of_ge b j (by omega), -BitVec.getLsbD_eq_getElem]
  rw [happend, mmr1Amount_two, entryAmount_zero]
  exact BitVec.add_zero _

/-- A log with room for all. -/
structure Fits (cs : List (RegIdx × Word)) (n : ℕ) : Prop where
  length : cs.length ≤ n
  small : ∀ c ∈ cs, c.1.val < 8 ∧ Small c.2

/-- MMR1 tells of each register what was logged for it. -/
theorem mmr1Amount_mmr1 {cs : List (RegIdx × Word)} (h : Fits cs 2) {i : RegIdx}
    (hi : i.val < 7) : mmr1Amount (Reference.mmr1 cs) i = loggedTo i cs := by
  have hne : i ≠ 7 := by
    rintro rfl
    exact absurd hi (by decide)
  -- nothing is left out but PC
  have hall : loggable cs = cs.filter fun c => c.1 ≠ 7 :=
    List.take_of_length_le ((List.length_filter_le _ _).trans h.length)
  have hsum : loggedTo i (loggable cs) = loggedTo i cs := by
    rw [hall]
    clear hall h
    induction cs with
    | nil => rfl
    | cons c cs ih =>
        by_cases hc : c.1 = 7
        · have hci : ¬c.1 = i := fun h => hne (h.symm.trans hc)
          simpa [loggedTo, hc, hci, Ne.symm hne] using ih
        · simpa [loggedTo, hc] using ih
  have hsmall : ∀ c ∈ loggable cs, c.1.val < 8 ∧ Small c.2 := by
    intro c hc
    rw [hall] at hc
    exact h.small c (List.mem_filter.mp hc).1
  have hlength : (loggable cs).length ≤ 2 := List.length_take_le 2 _
  rw [← hsum, Reference.mmr1]
  rcases hlog : loggable cs with _ | ⟨c, _ | ⟨c', _ | ⟨c'', rest⟩⟩⟩
  case nil =>
      have hzero := mmr1Amount_one 0 i
      rw [entryAmount_zero] at hzero
      exact hzero
  case cons.nil =>
      rw [hlog] at hsmall
      obtain ⟨hr, hamount⟩ := hsmall c List.mem_cons_self
      show mmr1Amount ((Reference.mmr1Byte c).setWidth 16) i = _
      rw [mmr1Amount_one, entryAmount_mmr1Byte hr hamount]
      exact (BitVec.add_zero _).symm
  case cons.cons.nil =>
      rw [hlog] at hsmall
      obtain ⟨hr, hamount⟩ := hsmall c List.mem_cons_self
      obtain ⟨hr', hamount'⟩ := hsmall c' (List.mem_cons_of_mem _ List.mem_cons_self)
      show mmr1Amount (Reference.mmr1Byte c' ++ Reference.mmr1Byte c) i = _
      rw [mmr1Amount_two, entryAmount_mmr1Byte hr hamount, entryAmount_mmr1Byte hr' hamount']
      exact congrArg _ (BitVec.add_zero _).symm
  case cons.cons.cons =>
      rw [hlog] at hlength
      simp at hlength

/-! ## What MMR1 does not tell -/

/-- What the changes added to a register without logging it. -/
def hiddenTo (i : RegIdx) (moves : List Move) : Word :=
  (moves.map fun mv => if mv.logged = [] then mv.amountTo i else 0).sum

theorem amountTo_eq (i : RegIdx) (moves : List Move) :
    (moves.map (Move.amountTo i)).sum = loggedTo i (loggedOf moves) + hiddenTo i moves := by
  induction moves with
  | nil => rfl
  | cons mv moves ih =>
      have hone : mv.amountTo i
          = loggedTo i mv.logged + if mv.logged = [] then mv.amountTo i else 0 := by
        cases mv with
        | add r amount logged =>
            cases logged with
            | true => simp [Move.amountTo, Move.logged, loggedTo]
            | false => simp [Move.amountTo, Move.logged, loggedTo]
        | copy r src offset => simp [Move.amountTo, Move.logged, loggedTo]
        | load r w => simp [Move.amountTo, Move.logged, loggedTo]
      have happend : loggedTo i (loggedOf (mv :: moves))
          = loggedTo i mv.logged + loggedTo i (loggedOf moves) := by
        unfold loggedTo loggedOf
        rw [List.flatMap_cons, List.map_append, List.sum_append]
      rw [List.map_cons, List.sum_cons, ih, happend]
      show _ = _ + ((if mv.logged = [] then mv.amountTo i else 0) + hiddenTo i moves)
      generalize (if mv.logged = [] then mv.amountTo i else 0) = hidden at hone ⊢
      rw [hone]
      abel

/-- Putting a register back by MMR1 is right if what is hidden is what was taken back. -/
theorem undone_iff {plan : List Stage} {k : ℕ} {s : Stage} (hs : plan[k]? = some s)
    {i : RegIdx} (hadds : ∀ mv ∈ movesOf (plan.take (k + 1)), mv.Adds i)
    {regs regs' : RegIdx → Word} (h : Aborts plan k regs regs') :
    regs' i - loggedTo i (loggedOf (movesOf (plan.take (k + 1)))) = regs i ↔
      hiddenTo i (movesOf (plan.take (k + 1))) = ownTo i s.own := by
  obtain ⟨s', hs', rfl⟩ := h
  rw [hs] at hs'
  cases hs'
  rw [backOut_apply, applyMoves_apply hadds, amountTo_eq]
  generalize loggedTo i _ = logged
  generalize hiddenTo i _ = hidden
  generalize ownTo i s.own = own
  have hsum : regs i + (logged + hidden) - own - logged = regs i + (hidden - own) := by abel
  rw [hsum, add_eq_left, sub_eq_zero]

/-! ## Operands -/

/-- A change made by an addressing mode. -/
inductive ByMode : Move → Prop
  | logged {r : RegIdx} {amount : Word} : r.val < 8 → Small amount → ByMode (.add r amount true)
  /-- The index word is taken from behind the instruction. -/
  | index : ByMode (.add 7 2 false)

/-- References to operands, `n` of which may have their register change logged. -/
structure Formed (p : List Stage) (n : ℕ) : Prop where
  moves : ∀ mv ∈ movesOf p, ByMode mv
  logged : (loggedOf (movesOf p)).length ≤ n
  own : ∀ s ∈ p, ∀ r amount, s.own = some (r, amount) → r.val < 8 ∧ amount ≠ 0

theorem ByMode.adds {mv : Move} (h : ByMode mv) (i : RegIdx) : mv.Adds i := by
  cases h <;> trivial

theorem hiddenTo_byMode {moves : List Move} (h : ∀ mv ∈ moves, ByMode mv) {i : RegIdx}
    (hi : i.val < 7) : hiddenTo i moves = 0 := by
  have hpc : ¬(7 : RegIdx) = i := by
    rintro rfl
    exact absurd hi (by decide)
  induction moves with
  | nil => rfl
  | cons mv moves ih =>
      have hrest := ih fun mv' hmv' => h mv' (List.mem_cons_of_mem _ hmv')
      have hone : (if mv.logged = [] then mv.amountTo i else 0) = 0 := by
        cases h mv List.mem_cons_self with
        | logged => simp [Move.logged]
        | index => simp [Move.logged, Move.amountTo, hpc]
      unfold hiddenTo at hrest ⊢
      rw [List.map_cons, List.sum_cons, hone, hrest, add_zero]

theorem fits_byMode {moves : List Move} {n : ℕ} (h : ∀ mv ∈ moves, ByMode mv)
    (hlength : (loggedOf moves).length ≤ n) : Fits (loggedOf moves) n := by
  refine ⟨hlength, fun c hc => ?_⟩
  obtain ⟨mv, hmv, hc⟩ := List.mem_flatMap.mp hc
  cases h mv hmv with
  | logged hr hamount =>
      rw [Move.logged, List.mem_singleton] at hc
      subst hc
      exact ⟨hr, hamount⟩
  | index => cases hc

namespace Formed

variable {p q : List Stage} {m n : ℕ}

theorem nil : Formed [] 0 := ⟨nofun, Nat.le_refl 0, nofun⟩

theorem append (hp : Formed p m) (hq : Formed q n) : Formed (p ++ q) (m + n) where
  moves := by
    intro mv hmv
    rw [movesOf_append] at hmv
    exact (List.mem_append.mp hmv).elim (hp.moves mv) (hq.moves mv)
  logged := by
    rw [movesOf_append, loggedOf_append, List.length_append]
    exact Nat.add_le_add hp.logged hq.logged
  own := fun s hs => (List.mem_append.mp hs).elim (hp.own s) (hq.own s)

theorem take (hp : Formed p n) (k : ℕ) : Formed (p.take k) n where
  moves := fun mv hmv => hp.moves mv (mem_movesOf_take hmv)
  logged := by
    have hsplit := congrArg (fun q => (loggedOf (movesOf q)).length) (List.take_append_drop k p)
    have hle := hp.logged
    simp only [movesOf_append, loggedOf_append, List.length_append] at hsplit
    omega
  own := fun s hs => hp.own s (List.mem_of_mem_take hs)

theorem weaken (hp : Formed p m) (h : m ≤ n) : Formed p n :=
  ⟨hp.moves, hp.logged.trans h, hp.own⟩

end Formed

theorem formed_idle : Formed [.idle] 0 := ⟨nofun, Nat.le_refl 0, by simp [Stage.idle]⟩

theorem formed_change {mv : Move} {own : Option (RegIdx × Word)} (h : ByMode mv)
    (hown : ∀ r amount, own = some (r, amount) → r.val < 8 ∧ amount ≠ 0) :
    Formed [⟨[mv], own⟩] 1 where
  moves := by
    intro mv' hmv'
    rw [movesOf_singleton, List.mem_singleton] at hmv'
    exact hmv' ▸ h
  logged := by
    rw [movesOf_singleton, loggedOf_singleton]
    cases h with
    | logged => exact Nat.le_refl 1
    | index => exact Nat.zero_le 1
  own := by
    intro s hs
    rw [List.mem_singleton] at hs
    subst hs
    exact hown

theorem formed_writing (ir : Word) : Formed (writing ir) 0 := by
  unfold writing
  split
  · exact .nil
  · exact formed_idle

theorem small_autoincAmount (m : Word) (byte : Bool) :
    Small (autoincAmount m byte) ∧ Small (-autoincAmount m byte) ∧ autoincAmount m byte ≠ 0 := by
  unfold autoincAmount Small
  split <;> decide

theorem formed_reference (m : Word) (byte : Bool) : Formed (reference m byte) 1 := by
  obtain ⟨hinc, hdec, hne⟩ := small_autoincAmount m byte
  have hbase : ∀ formed : List Stage × Stage, Formed (formed.1 ++ [formed.2]) 1 →
      Formed ((if m.addrMode.getLsbD 0 then (formed.1 ++ [formed.2], .idle) else formed).1
        ++ [(if m.addrMode.getLsbD 0 then (formed.1 ++ [formed.2], Stage.idle) else formed).2])
        1 := by
    intro formed h
    split
    · exact h.append formed_idle
    · exact h
  unfold reference forming
  dsimp only
  split
  · exact formed_idle.weaken (Nat.zero_le 1)
  · refine hbase _ ?_
    split_ifs
    · exact formed_change (.logged (reg_lt m) hinc) (by rintro _ _ ⟨⟩; exact ⟨reg_lt m, hne⟩)
    · exact formed_change (.logged (reg_lt m) hdec) fun _ _ h => by cases h
    · exact (formed_change .index fun _ _ h => by cases h).append formed_idle

theorem formed_reading (m : Word) (byte : Bool) : Formed (reading m byte) 1 := by
  unfold reading
  split
  · exact Formed.nil.weaken (Nat.zero_le 1)
  · exact formed_reference m byte

/-! ## The law -/

/-- Registers put back by the log are as they were. -/
def PutBack (moves : List Move) (regs regs' : RegIdx → Word) : Prop :=
  ∀ i : RegIdx, i.val < 7 → regs' i - loggedTo i (loggedOf moves) = regs i

section

variable {p q : List Stage} {k : ℕ} {s : Stage} {regs regs' : RegIdx → Word}

theorem putBack_iff (hs : p[k]? = some s)
    (hadds : ∀ i : RegIdx, i.val < 7 → ∀ mv ∈ movesOf (p.take (k + 1)), mv.Adds i)
    (h : Aborts p k regs regs') : PutBack (movesOf (p.take (k + 1))) regs regs' ↔
      ∀ i : RegIdx, i.val < 7 → hiddenTo i (movesOf (p.take (k + 1))) = ownTo i s.own :=
  forall_congr' fun i => imp_congr_right fun hi => undone_iff hs (hadds i hi) h

/-- An operand: MMR1 tells all, so nothing may have been taken back. -/
theorem putBack_formed {n : ℕ} (hs : p[k]? = some s) (hp : Formed (p.take (k + 1)) n)
    (h : Aborts p k regs regs') : PutBack (movesOf (p.take (k + 1))) regs regs' ↔
      ∀ r amount, s.own = some (r, amount) → r = 7 := by
  rw [putBack_iff hs (fun i _ mv hmv => (hp.moves mv hmv).adds i) h]
  have hmem : s ∈ p.take (k + 1) := by
    refine List.mem_of_getElem? (i := k) ?_
    rw [List.getElem?_take, if_pos (Nat.lt_succ_self k), hs]
  constructor
  · intro hown r amount hs'
    obtain ⟨hlt, hne⟩ := hp.own s hmem r amount hs'
    by_contra hr
    have hr7 : r.val < 7 := by
      have hval : r.val ≠ 7 := fun h => hr (Fin.ext h)
      omega
    have hzero := hown r hr7
    rw [hiddenTo_byMode hp.moves hr7, hs', ownTo, if_pos rfl] at hzero
    exact hne hzero.symm
  · intro hown i hi
    rw [hiddenTo_byMode hp.moves hi]
    cases hs' : s.own with
    | none => rfl
    | some own =>
        have hpc := hown own.1 own.2 hs'
        have hne : ¬own.1 = i := by
          rintro rfl
          rw [hpc] at hi
          exact absurd hi (by decide)
        exact (if_neg hne).symm

theorem hiddenTo_append (i : RegIdx) (moves moves' : List Move) :
    hiddenTo i (moves ++ moves') = hiddenTo i moves + hiddenTo i moves' := by
  unfold hiddenTo
  rw [List.map_append, List.sum_append]

/-- A push is not in MMR1, and is not taken back. -/
theorem putBack_push {moves : List Move} {n : ℕ} (hq : Formed q n)
    (hmoves : ∀ mv ∈ moves, ByMode mv) (hs : s.moves = moves ++ [.add 6 (-2) false])
    (hown : ownTo 6 s.own ≠ -2) (h : Aborts (q ++ [s]) q.length regs regs') :
    ¬PutBack (movesOf ((q ++ [s]).take (q.length + 1))) regs regs' := by
  have htake : (q ++ [s]).take (q.length + 1) = q ++ [s] := List.take_of_length_le (by simp)
  have hall : movesOf (q ++ [s]) = movesOf q ++ moves ++ [.add 6 (-2) false] := by
    rw [movesOf_append, movesOf_singleton, hs, List.append_assoc]
  have hadds : ∀ i : RegIdx, i.val < 7 →
      ∀ mv ∈ movesOf ((q ++ [s]).take (q.length + 1)), mv.Adds i := by
    intro i _ mv hmv
    rw [htake, hall] at hmv
    rcases List.mem_append.mp hmv with hmv | hmv
    · exact (List.mem_append.mp hmv).elim (fun hmv => (hq.moves mv hmv).adds i)
        fun hmv => (hmoves mv hmv).adds i
    · rw [List.mem_singleton.mp hmv]
      trivial
  have hlast : (q ++ [s])[q.length]? = some s := by simp
  rw [putBack_iff hlast hadds h, htake, hall]
  intro hback
  have h6 := hback 6 (by decide)
  rw [hiddenTo_append, hiddenTo_append, hiddenTo_byMode hq.moves (by decide),
    hiddenTo_byMode hmoves (by decide), add_zero, zero_add] at h6
  exact hown (h6.symm.trans rfl)

/-- Past the pop of an `MTPI`, its increment stands. The reference at which another increment of
SP is taken back makes up for that. -/
theorem putBack_mtpi {m : Word} {j : ℕ} (hs : (reading m false)[j]? = some s)
    (h : Aborts (Stage.idle.pop :: reading m false) (j + 1) regs regs') :
    PutBack (movesOf ((Stage.idle.pop :: reading m false).take (j + 1 + 1))) regs regs' ↔
      s.own = some (6, 2) := by
  have hformed := (formed_reading m false).take (j + 1)
  have hall : movesOf ((Stage.idle.pop :: reading m false).take (j + 1 + 1))
      = [.add 6 2 false] ++ movesOf ((reading m false).take (j + 1)) := rfl
  have hadds : ∀ i : RegIdx, i.val < 7 →
      ∀ mv ∈ movesOf ((Stage.idle.pop :: reading m false).take (j + 1 + 1)), mv.Adds i := by
    intro i _ mv hmv
    rw [hall] at hmv
    rcases List.mem_append.mp hmv with hmv | hmv
    · rw [List.mem_singleton.mp hmv]
      trivial
    · exact (hformed.moves mv hmv).adds i
  have hhidden : ∀ i : RegIdx, i.val < 7 →
      hiddenTo i (movesOf ((Stage.idle.pop :: reading m false).take (j + 1 + 1)))
        = ownTo i (some (6, 2)) := by
    intro i hi
    rw [hall, hiddenTo_append, hiddenTo_byMode hformed.moves hi, add_zero]
    exact add_zero _
  have hstage : (Stage.idle.pop :: reading m false)[j + 1]? = some s := hs
  rw [putBack_iff hstage hadds h]
  constructor
  · intro hown
    have h6 := hown 6 (by decide)
    rw [hhidden 6 (by decide)] at h6
    cases hs' : s.own with
    | none =>
        rw [hs'] at h6
        exact absurd h6 (by decide)
    | some own =>
        obtain ⟨r, amount⟩ := own
        rw [hs', ownTo, ownTo, if_pos rfl] at h6
        by_cases hr : r = 6
        · rw [if_pos hr] at h6
          rw [hr, h6]
        · rw [if_neg hr] at h6
          exact absurd h6 (by decide)
  · intro hown i hi
    rw [hown, hhidden i hi]

/-! ## The instructions -/

theorem formed_forming (m : Word) (byte : Bool) :
    Formed (forming m byte).1 1 ∧ ∀ mv ∈ (forming m byte).2.moves, ByMode mv := by
  have hreference := formed_reference m byte
  constructor
  · have hpart := hreference.take (forming m byte).1.length
    rwa [reference, List.take_left'] at hpart
    rfl
  · intro mv hmv
    refine hreference.moves mv ?_
    rw [reference, movesOf_append, movesOf_singleton]
    exact List.mem_append_right _ hmv

theorem fits_append {cs cs' : List (RegIdx × Word)} {m n : ℕ} (h : Fits cs m) (h' : Fits cs' n) :
    Fits (cs ++ cs') (m + n) where
  length := by
    rw [List.length_append]
    exact Nat.add_le_add h.length h'.length
  small := fun c hc => (List.mem_append.mp hc).elim (h.small c) (h'.small c)

theorem Formed.fits {n : ℕ} (h : Formed p n) : Fits (loggedOf (movesOf p)) n :=
  fits_byMode h.moves h.logged

/-- The addressing modes of an instruction change two registers at most. -/
theorem fits_plan (ir pc : Word) (own : Option (RegIdx × Word)) (kind : Kind) :
    Fits (loggedOf (movesOf (kind.planWith ir pc own))) 2 := by
  have hnil : ∀ {n}, Fits [] n := ⟨Nat.zero_le _, fun c hc => by cases hc⟩
  have hwriting : ∀ write : Bool, Formed (if write then writing ir else []) 0 := by
    intro write
    split
    · exact formed_writing ir
    · exact .nil
  cases kind with
  | double byte write =>
      exact (((formed_reading _ byte).append (formed_reading _ byte)).append (hwriting write)).fits
  | single byte write =>
      exact (((formed_reading _ byte).append (hwriting write)).weaken (by omega)).fits
  | store byte => exact ((formed_reading _ byte).weaken (by omega)).fits
  | mark => exact hnil
  | mfpi =>
      show Fits (loggedOf (movesOf (_ ++ _))) 2
      rw [movesOf_append, loggedOf_append]
      exact fits_append (m := 1) (n := 1) (formed_reading _ false).fits hnil
  | mtpi => exact ((formed_reading (dstOf ir) false).weaken (by omega)).fits
  | jsr =>
      -- the push itself is not logged
      have hlogged : loggedOf (movesOf (Kind.planWith ir pc own .jsr))
          = loggedOf (movesOf (reference (dstOf ir) false)) := by
        simp [Kind.planWith, jsrPush, Stage.push, Stage.move, reference, Move.logged]
      rw [hlogged]
      exact ((formed_reference (dstOf ir) false).weaken (by omega)).fits
  | jmp => exact ((formed_forming (dstOf ir) false).1.weaken (by omega)).fits
  | rts => exact hnil
  | rti => exact hnil
  | silent => exact hnil

theorem fits_take {n : ℕ} (h : Fits (loggedOf (movesOf p)) n) (k : ℕ) :
    Fits (loggedOf (movesOf (p.take k))) n := by
  have hsplit : loggedOf (movesOf p)
      = loggedOf (movesOf (p.take k)) ++ loggedOf (movesOf (p.drop k)) := by
    rw [← loggedOf_append, ← movesOf_append, List.take_append_drop]
  rw [hsplit] at h
  have hlength := h.length
  rw [List.length_append] at hlength
  exact ⟨by omega, fun c hc => h.small c (List.mem_append_left _ hc)⟩

/-- The autoincrement which forms the address of reference `k`. -/
def ownOf (ir : Word) (k : ℕ) : Option (RegIdx × Word) := (plan ir 0)[k]?.bind Stage.own

/-- An autoincrement taken back is one of PC. -/
def OwnIsPc (own : Option (RegIdx × Word)) : Prop := ∀ r amount, own = some (r, amount) → r = 7

/-- MMR1 is enough to put the registers back after an abort of reference `k`.

* `MARK` does not log that SP goes to the argument words, `RTI` not its first pop.
* The increment of SP by `MTPI` is made up for where one is taken back which was logged.
* The push of `JSR` or `MFPI` is neither logged nor taken back.
* An operand must not be addressed by an autoincrement, which is logged and taken back. -/
def LogExact (ir : Word) (cpu : Kd11ea) (k : ℕ) : Prop :=
  match kindOf ir with
  | .mark => cpu.r 6 = cpu.r 7 + 2 * (ir &&& 0o77)
  | .rts => True
  | .rti => k = 0
  | .mtpi => ownOf ir k = some (6, 2)
  | .mfpi => k + 1 < (plan ir 0).length ∧ OwnIsPc (ownOf ir k)
  | .jsr => k + 1 < (plan ir 0).length ∧ OwnIsPc (ownOf ir k)
  | _ => OwnIsPc (ownOf ir k)

/-- Operands, and a push behind them. The increment pending at the push is of no matter. -/
theorem putBack_pushing {n : ℕ} (hq : Formed q n) (moves : List Move)
    (hmoves : ∀ mv ∈ moves, ByMode mv) (hs : s.moves = moves ++ [.add 6 (-2) false])
    (hown : ownTo 6 s.own ≠ -2) (t : Stage) (h : Aborts (q ++ [s]) k regs regs') :
    PutBack (movesOf ((q ++ [s]).take (k + 1))) regs regs' ↔
      k + 1 < (q ++ [t]).length ∧ OwnIsPc ((q ++ [t])[k]?.bind Stage.own) := by
  have hk := h.lt_length
  rw [List.length_append, List.length_singleton] at hk ⊢
  by_cases hlt : k < q.length
  · -- an operand
    have hstage : q[k]? = some q[k] := List.getElem?_eq_getElem hlt
    have hlonger : ∀ u, (q ++ [u])[k]? = some q[k] := by
      intro u
      rw [List.getElem?_append_left hlt, hstage]
    have htake : (q ++ [s]).take (k + 1) = q.take (k + 1) := List.take_append_of_le_length hlt
    rw [putBack_formed (hlonger s) (by rw [htake]; exact hq.take (k + 1)) h, hlonger t]
    exact (and_iff_right (by omega)).symm
  · -- the push
    have hlast : k = q.length := by omega
    subst hlast
    exact iff_of_false (putBack_push hq hmoves hs hown h) fun h => hlt (by omega)

/-- Nothing is logged: the registers have to be as they were. -/
theorem putBack_unlogged (hp : loggedOf (movesOf p) = []) (k : ℕ) :
    PutBack (movesOf (p.take k)) regs regs' ↔ ∀ i : RegIdx, i.val < 7 → regs' i = regs i := by
  have hsplit : loggedOf (movesOf p)
      = loggedOf (movesOf (p.take k)) ++ loggedOf (movesOf (p.drop k)) := by
    rw [← loggedOf_append, ← movesOf_append, List.take_append_drop]
  have hnil : loggedOf (movesOf (p.take k)) = [] :=
    (List.append_eq_nil_iff.mp (hsplit.symm.trans hp)).1
  unfold PutBack
  rw [hnil]
  refine forall_congr' fun i => imp_congr_right fun _ => ?_
  rw [show loggedTo i [] = 0#16 from rfl, BitVec.sub_zero]

theorem putBack_operands {n : ℕ} (hp : Formed p n) (h : Aborts p k regs regs') :
    PutBack (movesOf (p.take (k + 1))) regs regs' ↔ OwnIsPc (p[k]?.bind Stage.own) := by
  have hlt := h.lt_length
  have hstage : p[k]? = some p[k] := List.getElem?_eq_getElem hlt
  rw [putBack_formed hstage (hp.take (k + 1)) h, hstage]
  rfl

/-- The log and the autoincrement taken back compose as `LogExact` says. -/
theorem putBack_plan {ir pc : Word} {cpu : Kd11ea}
    (h : Aborts ((kindOf ir).planWith ir pc (pendingOf ir)) k (general cpu) regs') :
    PutBack (movesOf (((kindOf ir).planWith ir pc (pendingOf ir)).take (k + 1))) (general cpu) regs'
      ↔ LogExact ir cpu k := by
  have hwriting : ∀ write : Bool, Formed (if write then writing ir else []) 0 := by
    intro write
    split
    · exact formed_writing ir
    · exact .nil
  unfold LogExact ownOf plan
  cases hkind : kindOf ir with
  | double byte write =>
      rw [hkind] at h
      exact putBack_operands
        (((formed_reading _ byte).append (formed_reading _ byte)).append (hwriting write)) h
  | single byte write =>
      rw [hkind] at h
      exact putBack_operands ((formed_reading _ byte).append (hwriting write)) h
  | store byte =>
      rw [hkind] at h
      exact putBack_operands (formed_reading _ byte) h
  | mark =>
      rw [hkind] at h
      obtain ⟨hsp, -, hother⟩ := mark_aborts h
      rw [putBack_unlogged (by rfl)]
      constructor
      · intro hsame
        exact (hsame 6 (by decide)).symm.trans hsp
      · intro hsame i hi
        by_cases h6 : i = 6
        · rw [h6]
          exact hsp.trans hsame.symm
        · have hval : i.val ≠ 6 := fun h => h6 (Fin.ext h)
          exact hother i (by omega)
  | mfpi =>
      rw [hkind] at h
      exact putBack_pushing (formed_reading _ false) [] (fun mv hmv => by cases hmv) rfl
        (by decide) Stage.idle.push h
  | mtpi =>
      rw [hkind] at h
      match k, h with
      | 0, h =>
          obtain ⟨-, hsame⟩ | ⟨hk, -⟩ := mtpi_aborts h
          · rw [hsame]
            refine iff_of_true (fun i _ => ?_) rfl
            exact BitVec.sub_zero _
          · exact absurd hk (Nat.lt_irrefl 0)
      | j + 1, h =>
          obtain ⟨s, hs, -⟩ := id h
          have hs : (reading (dstOf ir) false)[j]? = some s := hs
          refine (putBack_mtpi hs h).trans ?_
          show _ ↔ (reading (dstOf ir) false)[j]?.bind Stage.own = some (6, 2)
          rw [hs]
          rfl
  | jsr =>
      rw [hkind] at h
      obtain ⟨hq, hmoves⟩ := formed_forming (dstOf ir) false
      refine putBack_pushing hq _ hmoves rfl ?_ (jsrPush ir none) h
      -- an increment by two is pending, or none
      show ownTo 6 (forming (dstOf ir) false).2.own ≠ -2
      rw [forming_own]
      split
      · rw [autoincAmount_word, ownTo]
        split <;> decide
      · decide
  | jmp =>
      rw [hkind] at h
      exact putBack_operands (formed_forming _ false).1 h
  | rts =>
      rw [hkind] at h
      rw [putBack_unlogged (by rfl)]
      refine iff_of_true (fun i hi => (rts_aborts h).1 i ?_) trivial
      rintro rfl
      exact absurd hi (by decide)
  | rti =>
      rw [hkind] at h
      rw [putBack_unlogged (by rfl)]
      rcases rti_aborts h with ⟨rfl, hsame⟩ | ⟨rfl, hsp⟩
      · exact iff_of_true (fun i _ => by rw [hsame]) rfl
      · refine iff_of_false (fun hsame => ?_) Nat.one_ne_zero
        have h6 := hsame 6 (by decide)
        rw [hsp] at h6
        exact absurd (add_eq_left.mp h6) (by decide)
  | silent =>
      rw [hkind] at h
      exact absurd h.lt_length (Nat.not_lt_zero k)

end

/-- What a handler does about an aborted instruction: put the registers back by MMR1, and return
to MMR2. `m₀` is the machine before the opcode fetch, `m'` the one at `be:`. -/
structure Restartable (m₀ m' : Machine) : Prop where
  registers : ∀ i : RegIdx, i.val < 7 →
    m'.cpu.r i - mmr1Amount m'.cpu.mmu.mmr1 i = m₀.cpu.r i
  address : m'.cpu.mmu.mmr2 = m₀.cpu.r 7

/-- Whatever reference of an instruction is aborted, by the KT11-D or by the bus, undoing MMR1
and returning to MMR2 executes the instruction again with its operands exactly if `LogExact`. -/
theorem mmr1_undoes_iff (bus : Bus) (m₀ m m' : Machine) (ir : Word)
    (hunfrozen : m₀.cpu.mmu.frozen = false) (hfetch : fetch bus m₀ = .ok ir m)
    (h : execute bus ir m = .error () m') :
    Restartable m₀ m' ↔ LogExact ir m.cpu (made m m') := by
  obtain ⟨hnone, hregs, hrest⟩ := fetch_view hfetch
  obtain ⟨hfresh, hmmr2⟩ := hrest hunfrozen
  obtain ⟨pc, k, haborted⟩ := execute_aborted (fetch_ir hfetch) hnone h
  obtain ⟨hlog, haddress⟩ := haborted.restart hfresh
  have haddress : m'.cpu.mmu.mmr2 = m₀.cpu.r 7 := haddress.trans hmmr2
  have hlog : m'.cpu.mmu.mmr1 = Reference.mmr1 (loggedOf (movesOf
      (((kindOf ir).planWith ir pc (pendingOf ir)).take (k + 1)))) := hlog
  rw [made_eq haborted.references, ← putBack_plan haborted.aborts]
  have hone : ∀ i : RegIdx, i.val < 7 →
      (m'.cpu.r i - mmr1Amount m'.cpu.mmu.mmr1 i = m₀.cpu.r i ↔
        general m'.cpu i - loggedTo i (loggedOf (movesOf
          (((kindOf ir).planWith ir pc (pendingOf ir)).take (k + 1)))) = general m.cpu i) := by
    intro i hi
    have hne : i ≠ 7 := by
      rintro rfl
      exact absurd hi (by decide)
    have hlt : i.val < 8 := by omega
    rw [hlog, mmr1Amount_mmr1 (fits_take (fits_plan _ _ _ _) _) hi, hregs,
      Function.update_of_ne hne, general_of_lt _ hlt, general_of_lt _ hlt]
  constructor
  · exact fun hrestart i hi => (hone i hi).mp (hrestart.registers i hi)
  · exact fun hback => ⟨fun i hi => (hone i hi).mpr (hback i hi), haddress⟩

/-- The bus of `pushing`, with another instruction at the relocated address. -/
def relocatedRom (ir : Word) (addr : UInt) : Option Word :=
  if addr = 4 then some ir else pushRom addr

/-- About to execute it with relocation on, R2 pointing to a page which is not mapped. -/
def relocating (ir : Word) : Machine :=
  stepped (romBus (relocatedRom ir)) (stepped (romBus (relocatedRom ir)) (poweredUpWith pushRegs))

/-- `TST (R2)` in a page which is not mapped. -/
theorem mmr1_undoes_tst : ∃ m m',
    fetch (romBus (relocatedRom 0o005712)) (relocating 0o005712) = .ok 0o005712 m ∧
      execute (romBus (relocatedRom 0o005712)) 0o005712 m = .error () m' ∧
      m'.cpu.trapVector = abortVector ∧ Restartable (relocating 0o005712) m' := by
  obtain ⟨m, m', hfetch, h, hvector, hmade⟩ : ∃ m m',
      fetch (romBus (relocatedRom 0o005712)) (relocating 0o005712) = .ok 0o005712 m ∧
        execute (romBus (relocatedRom 0o005712)) 0o005712 m = .error () m' ∧
        m'.cpu.trapVector = abortVector ∧ made m m' = 0 := ⟨_, _, rfl, rfl, rfl, rfl⟩
  have hiff := mmr1_undoes_iff _ (relocating 0o005712) m m' 0o005712 rfl hfetch h
  have hexact : LogExact 0o005712 m.cpu 0 := by
    show OwnIsPc none
    intro r amount hown
    cases hown
  exact ⟨m, m', hfetch, h, hvector, hiff.mpr (hmade ▸ hexact)⟩

/-- `TST (R2)+` there: R2 is as it was, and MMR1 says it was incremented. -/
theorem mmr1_undoes_twice : ∃ m m',
    (relocating 0o005722).cpu.mmu.frozen = false ∧
      fetch (romBus (relocatedRom 0o005722)) (relocating 0o005722) = .ok 0o005722 m ∧
      execute (romBus (relocatedRom 0o005722)) 0o005722 m = .error () m' ∧
      m'.cpu.trapVector = abortVector ∧ ¬Restartable (relocating 0o005722) m' := by
  obtain ⟨m, m', hunfrozen, hfetch, h, hvector, hlog, hr⟩ : ∃ m m',
      (relocating 0o005722).cpu.mmu.frozen = false ∧
        fetch (romBus (relocatedRom 0o005722)) (relocating 0o005722) = .ok 0o005722 m ∧
        execute (romBus (relocatedRom 0o005722)) 0o005722 m = .error () m' ∧
        m'.cpu.trapVector = abortVector ∧ m'.cpu.mmu.mmr1 = 0o22 ∧
        m'.cpu.r 2 = (relocating 0o005722).cpu.r 2 := ⟨_, _, rfl, rfl, rfl, rfl, rfl, rfl⟩
  refine ⟨m, m', hunfrozen, hfetch, h, hvector, fun hrestart => ?_⟩
  have h2 := hrestart.registers 2 (by decide)
  rw [hlog, hr, sub_eq_self] at h2
  exact absurd h2 (by decide)

end Kd11ea

end QUniBone
