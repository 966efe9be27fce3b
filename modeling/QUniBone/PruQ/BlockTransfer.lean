import QUniBone.PruQ.BlockCalls

/-!
# Block mode transfers are word by word

As long as no block goes on from a word that the QBone has answered itself to a word of a slave
outside: that one has not seen an address. The invariant says where the state machine stands in
each of its states, and what the blocks up to there are like.

* `Trace`, `Room`: the words moved, and the room in the current block.
* `Inv`, `call_inv`: the invariant, kept by careful calls.
* `word_by_word_iff`: every careful transfer, and what the first careless call does.
* `mainStep_call`, `mainStep_command`: the main loop.
-/

namespace QUniBone.PruQ

open PruU (Lines MailboxDma dmaStateReady dmaStateRunning dmaStateTimeoutstop dmaStateInitstop)

namespace BlockMode

variable (request : MailboxDma)

/-! ## The words moved -/

/-- What the blocks up to now are like. -/
structure Trace (words : ℕ → Word) (blocks : List Block) : Prop where
  inOrder : (wordsOf blocks).reverse.map (fun w => (w.index, w.addr)) =
    (List.range (wordsOf blocks).length).map fun i => (i, wordBusAddr request i)
  data : ∀ w ∈ wordsOf blocks, words w.index = w.data
  limits : ∀ b ∈ blocks, b.words.length ≤ 8 ∧
    ∀ w ∈ b.words, w.addr.toNat / 32 = b.addr.toNat / 32
  sync : ∀ later b earlier, blocks = later ++ b :: earlier →
    b.addr = wordBusAddr request (wordsOf earlier).length

/-- The current block can take another word: it ends at `endAddr`. -/
def Room (endAddr : UInt) (blocks : List Block) : Prop :=
  ∃ b earlier j, blocks = b :: earlier ∧
    endAddr.toNat = wordAddr request ((wordsOf earlier).length + j) ∧ j ≤ 7 ∧
    wordAddr request ((wordsOf earlier).length + j) / 32 =
      wordAddr request (wordsOf earlier).length / 32 ∧
    (wordsOf earlier).length + j < request.wordcount.toNat ∧ b.words.length ≤ j

variable {request} {words words' : ℕ → Word} {blocks : List Block}

theorem length_wordsOf_cons (b : Block) (earlier : List Block) :
    (wordsOf (b :: earlier)).length = b.words.length + (wordsOf earlier).length :=
  List.length_append

theorem Room.lt {endAddr : UInt} (h : Room request endAddr blocks) :
    (wordsOf blocks).length < request.wordcount.toNat := by
  obtain ⟨b, earlier, j, rfl, -, -, -, hcount, hlen⟩ := h
  rw [length_wordsOf_cons]
  omega

theorem wordsOf_addWord {endAddr : UInt} (h : Room request endAddr blocks) (w : Moved) :
    wordsOf (addWord w blocks) = w :: wordsOf blocks := by
  obtain ⟨b, earlier, j, rfl, -⟩ := h
  rfl

theorem wordBusAddr_toNat (i : ℕ) :
    (wordBusAddr request i).toNat = wordAddr request i % 2 ^ 23 := by
  rw [wordBusAddr, busAddr_toNat, BitVec.toNat_ofNat]
  exact Nat.mod_mod_of_dvd _ (by decide)

namespace Trace

theorem nil (words : ℕ → Word) : Trace request words [] where
  inOrder := rfl
  data := fun w hw => absurd hw List.not_mem_nil
  limits := fun b hb => absurd hb List.not_mem_nil
  sync := fun later b earlier h => by simp at h

theorem index_lt (h : Trace request words blocks) {w : Moved} (hw : w ∈ wordsOf blocks) :
    w.index < (wordsOf blocks).length := by
  have hmem : (w.index, w.addr) ∈
      (wordsOf blocks).reverse.map (fun w => (w.index, w.addr)) :=
    List.mem_map.mpr ⟨w, List.mem_reverse.mpr hw, rfl⟩
  rw [h.inOrder] at hmem
  obtain ⟨i, hi, heq⟩ := List.mem_map.mp hmem
  have : i = w.index := congrArg Prod.fst heq
  rw [← this]
  exact List.mem_range.mp hi

/-- A new block, for the next word -/
theorem block (h : Trace request words blocks) :
    Trace request words (⟨wordBusAddr request (wordsOf blocks).length, []⟩ :: blocks) where
  inOrder := h.inOrder
  data := h.data
  limits := by
    intro b hb
    rcases List.mem_cons.mp hb with rfl | hb
    · exact ⟨Nat.zero_le _, fun w hw => absurd hw List.not_mem_nil⟩
    · exact h.limits b hb
  sync := by
    intro later b earlier heq
    cases later with
    | nil =>
      obtain ⟨rfl, rfl⟩ := List.cons.inj heq
      rfl
    | cons c later => exact h.sync later b earlier (List.cons.inj heq).2

/-- The next word, at its address -/
theorem addWord (h : Trace request words blocks) {endAddr : UInt} (hroom : Room request endAddr blocks)
    {w : Moved} (hindex : w.index = (wordsOf blocks).length)
    (haddr : w.addr = wordBusAddr request (wordsOf blocks).length)
    (hdata : words' w.index = w.data)
    (hwords : ∀ i < (wordsOf blocks).length, words' i = words i) :
    Trace request words' (addWord w blocks) where
  inOrder := by
    rw [wordsOf_addWord hroom, List.reverse_cons, List.map_append, h.inOrder, List.length_cons,
      List.range_succ, List.map_append, List.map_singleton, List.map_singleton, hindex, haddr]
  data := by
    intro v hv
    rw [wordsOf_addWord hroom] at hv
    rcases List.mem_cons.mp hv with rfl | hv
    · exact hdata
    · rw [hwords _ (h.index_lt hv), h.data v hv]
  limits := by
    have hlt := hroom.lt
    obtain ⟨b, earlier, j, rfl, -, hj, hend, hcount, hlen⟩ := hroom
    rw [length_wordsOf_cons] at haddr hlt
    intro c hc
    rcases List.mem_cons.mp hc with rfl | hc
    · obtain ⟨-, hold⟩ := h.limits b (List.mem_cons_self ..)
      refine ⟨by show b.words.length + 1 ≤ 8; omega, ?_⟩
      intro v hv
      rcases List.mem_cons.mp hv with rfl | hv
      · -- between the first and the last word of the block
        have hb : b.addr = wordBusAddr request (wordsOf earlier).length := h.sync [] b earlier rfl
        show v.addr.toNat / 32 = b.addr.toNat / 32
        rw [haddr, hb, wordBusAddr_toNat, wordBusAddr_toNat]
        unfold wordAddr at hend ⊢
        omega
      · exact hold v hv
    · exact h.limits c (List.mem_cons_of_mem _ hc)
  sync := by
    obtain ⟨b, earlier, j, rfl, -⟩ := hroom
    intro later c before heq
    cases later with
    | nil =>
      obtain ⟨rfl, rfl⟩ := List.cons.inj heq
      exact h.sync [] b earlier rfl
    | cons d later =>
      obtain ⟨-, hrest⟩ := List.cons.inj heq
      exact h.sync (b :: later) c before (congrArg (b :: ·) hrest)

/-- Only the words up to now matter. -/
theorem congr (h : Trace request words blocks)
    (hwords : ∀ i < (wordsOf blocks).length, words' i = words i) : Trace request words' blocks where
  inOrder := h.inOrder
  data := fun w hw => (hwords _ (h.index_lt hw)).trans (h.data w hw)
  limits := h.limits
  sync := h.sync

end Trace

namespace Room

variable {endAddr : UInt}

/-- After a word that is not the last one of its block -/
theorem addWord (h : Room request endAddr blocks) (w : Moved)
    (hne : endAddr.toNat ≠ wordAddr request (wordsOf blocks).length) :
    Room request endAddr (addWord w blocks) := by
  obtain ⟨b, earlier, j, rfl, hend, hj, hline, hcount, hlen⟩ := h
  refine ⟨{ b with words := w :: b.words }, earlier, j, rfl, hend, hj, hline, hcount, ?_⟩
  rw [hend, length_wordsOf_cons] at hne
  have : b.words.length ≠ j := fun heq => hne (by rw [heq, Nat.add_comm])
  show b.words.length + 1 ≤ j
  omega

/-- A slave counts up by 2 inside a block. -/
theorem counted (h : Room request endAddr blocks)
    (hne : endAddr.toNat ≠ wordAddr request (wordsOf blocks).length) :
    wordBusAddr request ((wordsOf blocks).length + 1) =
      wordBusAddr request (wordsOf blocks).length + 2 := by
  obtain ⟨b, earlier, j, rfl, hend, hj, hline, hcount, hlen⟩ := h
  have hlt := endAddr.isLt
  rw [length_wordsOf_cons] at hne ⊢
  have hnext : (BitVec.ofNat 32 (wordAddr request (b.words.length + (wordsOf earlier).length + 1)) :
      UInt) = BitVec.ofNat 32 (wordAddr request (b.words.length + (wordsOf earlier).length)) + 2 := by
    apply BitVec.eq_of_toNat_eq
    rw [BitVec.toNat_add, BitVec.toNat_ofNat, BitVec.toNat_ofNat]
    show _ = (_ + 2) % _
    unfold wordAddr
    omega
  rw [wordBusAddr, wordBusAddr, hnext]
  apply busAddr_add_two
  rw [BitVec.toNat_ofNat]
  unfold wordAddr at *
  omega

end Room

/-! ## The invariant -/

variable (request)

/-- The state machine stands at word `k`. -/
structure At (r : Regs) (k : ℕ) : Prop where
  addr : r.mailbox.curAddr.toNat = wordAddr request k
  ptr : r.dataptr = k
  left : r.wordsLeft.toNat + k = request.wordcount.toNat
  running : r.mailbox.curStatus = dmaStateRunning

variable (owns : UInt → Bool)

/-- The slave of the next word has counted up to it, or the QBone has answered inside the block. -/
def Served (b : Seen) : Prop :=
  b.afterInternal = false ∧ b.selected = select owns (wordBusAddr request b.moved.length) ∨
    b.afterInternal = true ∧ b.selected = none

/-- A data portion for the next word -/
structure Portion (r : Regs) (b : Seen) : Prop where
  stand : At request r b.moved.length
  func : r.blockDataStateFunc = some (portionState request.buscycle)
  timeout : r.stateTimeout = false
  timedOut : b.timedOut = false
  room : Room request r.blockEndAddr b.blocks

/-- The end of a data portion -/
inductive Done (r : Regs) (b : Seen) : Prop
  | timeout (htimeout : r.stateTimeout = true) (htimedOut : b.timedOut = true)
      (hat : At request r b.moved.length) (hlt : b.moved.length < request.wordcount.toNat)
  | word {k : ℕ} (htimeout : r.stateTimeout = false) (htimedOut : b.timedOut = false)
      (hk : b.moved.length = k + 1) (hat : At request r k) (hlt : k < request.wordcount.toNat)
      (hnext : ∀ st, r.blockDataStateFunc = some st → st = portionState request.buscycle ∧
        Room request r.blockEndAddr b.blocks ∧ Served request owns b)

/-- What holds before a call in a state. -/
def Phase (r : Regs) (b : Seen) : Option DmaState → Prop
  | none => Ended request r.mailbox b
  | some .start => b.blocks = [] ∧ b.timedOut = false
  | some .addr => At request r b.moved.length ∧ b.timedOut = false ∧
      (b.moved.length < request.wordcount.toNat ∨ request.wordcount.toNat = 0)
  | some .dinStart => Portion request r b ∧ cycleIsDato request.buscycle = false ∧
      Served request owns b
  | some .doutStart => Portion request r b ∧ cycleIsDato request.buscycle = true ∧
      Served request owns b
  | some .dinComplete => Portion request r b ∧ cycleIsDato request.buscycle = false ∧
      b.selected = select owns (busAddr r.mailbox.curAddr)
  | some .doutComplete => Portion request r b ∧ cycleIsDato request.buscycle = true ∧
      b.selected = select owns (busAddr r.mailbox.curAddr) ∧
      b.offered = r.mailbox.words r.dataptr
  | some .state99 => Done request owns r b

/-- At most four calls for a word -/
def callBound (b : Seen) : Option DmaState → ℕ
  | none => 4 * request.wordcount.toNat + 2
  | some .start => 0
  | some .addr => 4 * b.moved.length + 1
  | some .dinStart => 4 * b.moved.length + 2
  | some .doutStart => 4 * b.moved.length + 2
  | some .dinComplete => 4 * b.moved.length + 3
  | some .doutComplete => 4 * b.moved.length + 3
  | some .state99 => 4 * b.moved.length + if b.timedOut then 4 else 0

/-- The request stays in the mailbox. -/
structure Same (r : Regs) : Prop where
  startaddr : r.mailbox.startaddr = request.startaddr
  wordcount : r.mailbox.wordcount = request.wordcount
  buscycle : r.mailbox.buscycle = request.buscycle
  source : cycleIsDato request.buscycle = true → r.mailbox.words = request.words

structure Inv (r : Regs) (master : Option DmaState) (b : Seen) : Prop where
  same : Same request r
  trace : Trace request r.mailbox.words b.blocks
  init : master.isSome = true → b.initSeen = false
  phase : Phase request owns r b master
  calls : b.calls ≤ callBound request b master

variable {request owns} {r : Regs} {b : Seen}

theorem At.busAddr {k : ℕ} (h : At request r k) :
    busAddr r.mailbox.curAddr = wordBusAddr request k := by
  rw [wordBusAddr, ← h.addr, BitVec.ofNat_toNat, BitVec.setWidth_eq]

theorem At.same {k : ℕ} (h : At request r k) {r' : Regs} (haddr : r'.mailbox.curAddr =
    r.mailbox.curAddr) (hptr : r'.dataptr = r.dataptr) (hleft : r'.wordsLeft = r.wordsLeft)
    (hstatus : r'.mailbox.curStatus = r.mailbox.curStatus) : At request r' k where
  addr := haddr ▸ h.addr
  ptr := hptr.trans h.ptr
  left := hleft ▸ h.left
  running := hstatus.trans h.running

/-- The portions of a direction -/
theorem phase_portionState (h : Portion request r b) (hserved : Served request owns b) :
    Phase request owns r b (some (portionState request.buscycle)) := by
  unfold portionState
  cases hdato : cycleIsDato request.buscycle with
  | true => exact ⟨h, hdato, hserved⟩
  | false => exact ⟨h, hdato, hserved⟩

theorem callBound_portionState (b : Seen) :
    callBound request b (some (portionState request.buscycle)) = 4 * b.moved.length + 2 := by
  unfold portionState
  cases cycleIsDato request.buscycle <;> rfl

theorem Portion.seen (h : Portion request r b) {b' : Seen} (hblocks : b'.blocks = b.blocks)
    (htimedOut : b'.timedOut = b.timedOut) : Portion request r b' where
  stand := by
    rw [Seen.moved, hblocks]
    exact h.stand
  func := h.func
  timeout := h.timeout
  timedOut := htimedOut.trans h.timedOut
  room := hblocks ▸ h.room

/-- After a word the block goes on, or it does not. -/
theorem Portion.done (h : Portion request r b) {r' : Regs} {b' : Seen} {w : Moved}
    (hat : At request r' b.moved.length) (hblocks : b'.blocks = addWord w b.blocks)
    (htimedOut : b'.timedOut = b.timedOut) (htimeout : r'.stateTimeout = r.stateTimeout)
    (hend : r'.blockEndAddr = r.blockEndAddr)
    (hfunc : ∀ st, r'.blockDataStateFunc = some st → r.blockDataStateFunc = some st ∧
      r.mailbox.curAddr ≠ r.blockEndAddr ∧ Served request owns b') : Done request owns r' b' := by
  refine .word (htimeout.trans h.timeout) (htimedOut.trans h.timedOut) ?_ hat h.room.lt ?_
  · show (wordsOf b'.blocks).length = _
    rw [hblocks, wordsOf_addWord h.room]
    rfl
  · intro st hst
    obtain ⟨hst', hne, hserved⟩ := hfunc st hst
    refine ⟨Option.some.inj (hst'.symm.trans h.func), ?_, hserved⟩
    rw [hend, hblocks]
    refine h.room.addWord w fun heq => hne ?_
    exact BitVec.eq_of_toNat_eq (h.stand.addr.trans heq.symm)

/-- The words stay, but for the one that is transferred. -/
theorem setWord_words (h : At request r b.moved.length) (data : Word) :
    (r.setWord data).mailbox.words b.moved.length = data ∧
      ∀ i < (wordsOf b.blocks).length, (r.setWord data).mailbox.words i = r.mailbox.words i := by
  show Function.update r.mailbox.words r.dataptr data _ = _ ∧
    ∀ i < _, Function.update r.mailbox.words r.dataptr data i = _
  rw [h.ptr]
  exact ⟨Function.update_self .., fun i hi => Function.update_of_ne (Nat.ne_of_lt hi) _ _⟩

/-- A DOUT leaves the words as they are. -/
theorem setWord_source (h : Same request r) {data : Word}
    (hdata : cycleIsDato request.buscycle = true → data = r.mailbox.words r.dataptr)
    (hdato : cycleIsDato request.buscycle = true) :
    (r.setWord data).mailbox.words = request.words := by
  show Function.update r.mailbox.words r.dataptr data = _
  rw [hdata hdato, Function.update_eq_self]
  exact h.source hdato

/-! ## Calls keep the invariant -/

theorem Same.congr (h : Same request r) {r' : Regs}
    (hstart : r'.mailbox.startaddr = r.mailbox.startaddr)
    (hcount : r'.mailbox.wordcount = r.mailbox.wordcount)
    (hcycle : r'.mailbox.buscycle = r.mailbox.buscycle)
    (hwords : cycleIsDato request.buscycle = true → r'.mailbox.words = request.words) :
    Same request r' :=
  ⟨hstart.trans h.startaddr, hcount.trans h.wordcount, hcycle.trans h.buscycle, hwords⟩

theorem start_inv (h : Inv request owns r (some .start) b) :
    Inv request owns { r with
        dataptr := 0
        wordsLeft := r.mailbox.wordcount
        mailbox := { r.mailbox with
          curAddr := r.mailbox.startaddr, curStatus := dmaStateRunning } }
      (some .addr) (b.count True) where
  same := h.same.congr rfl rfl rfl h.same.source
  trace := h.trace
  init := h.init
  phase := by
    obtain ⟨hblocks, htimedOut⟩ := h.phase
    have hnone : (b.count True).moved.length = 0 := by
      show (wordsOf b.blocks).length = 0
      rw [hblocks]
      rfl
    refine ⟨⟨?_, hnone.symm, ?_, rfl⟩, htimedOut, ?_⟩
    · rw [hnone]
      exact congrArg BitVec.toNat h.same.startaddr
    · rw [hnone, ← h.same.wordcount]
      rfl
    · rw [hnone]
      omega
  calls := by
    have := h.calls
    show b.calls + 1 ≤ 4 * b.moved.length + 1
    exact Nat.add_le_add_right (le_trans this (Nat.zero_le _)) 1

/-- An address phase starts a block for the next word. -/
theorem addr_inv (haddresses : request.startaddr.toNat + 2 * request.wordcount.toNat ≤ 2 ^ 32)
    (h : Inv request owns r (some .addr) b) (hcount : r.mailbox.wordcount ≠ 0) {lines : UInt}
    (hlines : lines = busAddr r.mailbox.curAddr) :
    Inv request owns { r with
        stateTimeout := false
        blockEndAddr := Pru.blockEnd r.mailbox.curAddr r.wordsLeft
        blockDataStateFunc := some (portionState request.buscycle) }
      (some (portionState request.buscycle)) ((b.sync owns lines).count True) := by
  obtain ⟨hat, htimedOut, hmore⟩ := h.phase
  rw [hat.busAddr] at hlines
  have hwc : request.wordcount.toNat ≠ 0 := by
    rw [← h.same.wordcount]
    exact fun hzero => hcount (BitVec.eq_of_toNat_eq hzero)
  have hleft := hat.left
  have hroom : Room request (Pru.blockEnd r.mailbox.curAddr r.wordsLeft)
      (⟨lines, []⟩ :: b.blocks) := by
    obtain ⟨j, hend, hj, hlt, hline⟩ := @blockEnd_eq r.mailbox.curAddr r.wordsLeft
      (by omega) (by rw [hat.addr]; unfold wordAddr; omega)
    rw [hat.addr] at hend hline
    refine ⟨_, _, j, rfl, ?_, hj, ?_, ?_, Nat.zero_le _⟩
    · rw [hend]
      unfold wordAddr
      show _ = _ + 2 * (b.moved.length + j)
      omega
    · unfold wordAddr at hline ⊢
      show (_ + 2 * (b.moved.length + j)) / 32 = (_ + 2 * b.moved.length) / 32
      omega
    · show b.moved.length + j < _
      omega
  exact {
    same := h.same.congr rfl rfl rfl h.same.source
    trace := by
      show Trace request r.mailbox.words (⟨lines, []⟩ :: b.blocks)
      rw [hlines]
      exact h.trace.block
    init := fun _ => h.init rfl
    phase := by
      refine phase_portionState ⟨hat.same rfl rfl rfl rfl, rfl, rfl, htimedOut, hroom⟩
        (.inl ⟨rfl, ?_⟩)
      exact congrArg (select owns) hlines
    calls := by
      rw [callBound_portionState]
      exact Nat.add_le_add_right h.calls 1 }

/-- A data portion that the QBone answers itself -/
theorem internal_inv (hsame : Same request r) (htrace : Trace request r.mailbox.words b.blocks)
    (hinit : b.initSeen = false) (h : Portion request r b) (hserved : Served request owns b)
    (hcalls : b.calls ≤ 4 * b.moved.length + 2)
    (hown : owns (busAddr r.mailbox.curAddr) = false) {data : Word}
    (hdata : cycleIsDato request.buscycle = true → data = r.mailbox.words r.dataptr)
    {b' : Seen} (hblocks : b'.blocks =
      addWord ⟨r.dataptr, busAddr r.mailbox.curAddr, data, true⟩ b.blocks)
    (hselected : b'.selected = b.selected) (htimedOut : b'.timedOut = b.timedOut)
    (hinit' : b'.initSeen = b.initSeen) (hcalls' : b'.calls = b.calls + 1) :
    Inv request owns ((r.setWord data).endIf (r.mailbox.curAddr = r.blockEndAddr))
      (some .state99) b' where
  same := hsame.congr rfl rfl rfl (setWord_source hsame hdata)
  trace := by
    obtain ⟨hword, hothers⟩ := setWord_words h.stand data
    rw [hblocks]
    exact htrace.addWord h.room h.stand.ptr h.stand.busAddr
      (by rw [h.stand.ptr]; exact hword) hothers
  init := fun _ => hinit'.trans hinit
  phase := by
    refine h.done (h.stand.same rfl rfl rfl rfl) hblocks htimedOut rfl rfl ?_
    intro st hst
    obtain ⟨hlast, hfunc⟩ := Option.ite_none_left_eq_some.mp hst
    refine ⟨hfunc, hlast, .inr ⟨?_, ?_⟩⟩
    · obtain ⟨c, earlier, -, heq, -⟩ := h.room
      rw [Seen.afterInternal, hblocks, heq]
      rfl
    · -- the address was not on the bus for anyone else
      rw [hselected]
      rcases hserved with ⟨-, hsel⟩ | ⟨-, hsel⟩
      · rw [hsel, ← h.stand.busAddr, select, hown]
        rfl
      · exact hsel
  calls := by
    have hmoved : b'.moved.length = b.moved.length + 1 := by
      show (wordsOf b'.blocks).length = _
      rw [hblocks, wordsOf_addWord h.room]
      rfl
    rw [hcalls', callBound, hmoved, htimedOut, h.timedOut]
    show _ ≤ 4 * (b.moved.length + 1) + 0
    omega

/-- A data portion for a slave outside, if there is one -/
theorem external_counted (h : Portion request r b) (hserved : Served request owns b)
    (hcareful : owns (busAddr r.mailbox.curAddr) = true → b.afterInternal = false) :
    b.selected = select owns (busAddr r.mailbox.curAddr) := by
  rcases hserved with ⟨-, hsel⟩ | ⟨hafter, hsel⟩
  · rw [hsel, h.stand.busAddr]
  · cases hown : owns (busAddr r.mailbox.curAddr) with
    | true => rw [hcareful hown] at hafter; contradiction
    | false => rw [hsel, select, hown]; rfl

/-- The selected slave answers. -/
theorem answered_inv (hsame : Same request r) (htrace : Trace request r.mailbox.words b.blocks)
    (hinit : b.initSeen = false) (h : Portion request r b)
    (hcalls : b.calls ≤ 4 * b.moved.length + 3)
    (hcounted : b.selected = select owns (busAddr r.mailbox.curAddr)) {l : Lines}
    (hrply : b.selected.isSome = true)
    (href : (l 4 1).getLsbD 6 = true → ∀ a, b.selected = some a → owns (a + 2) = true)
    {data : Word} (hdata : cycleIsDato request.buscycle = true →
      data = r.mailbox.words r.dataptr) :
    Inv request owns (completeRegs (r.setWord data) l) (some .state99) (({ b with
      blocks := addWord ⟨r.dataptr, b.selected.getD 0, data, false⟩ b.blocks
      selected := if (l 4 1).getLsbD 6 then b.selected.map (· + 2) else none } : Seen).count
        True) := by
  have hown : owns (busAddr r.mailbox.curAddr) = true := by
    by_contra hnot
    rw [hcounted, select, if_neg hnot] at hrply
    contradiction
  have hsel : b.selected = some (busAddr r.mailbox.curAddr) := by
    rw [hcounted, select, if_pos hown]
  exact {
    same := hsame.congr rfl rfl rfl (setWord_source hsame hdata)
    trace := by
      obtain ⟨hword, hothers⟩ := setWord_words h.stand data
      refine htrace.addWord h.room h.stand.ptr ?_ (by rw [h.stand.ptr]; exact hword) hothers
      rw [hsel]
      exact h.stand.busAddr
    init := fun _ => hinit
    phase := by
      refine h.done (h.stand.same rfl rfl rfl rfl) rfl rfl rfl rfl ?_
      intro st hst
      obtain ⟨hgoes, hfunc⟩ := Option.ite_none_left_eq_some.mp hst
      obtain ⟨hlast, hREF⟩ := not_or.mp hgoes
      have hREF' : (l 4 1).getLsbD 6 = true := Bool.of_not_eq_false hREF
      refine ⟨hfunc, hlast, .inl ⟨?_, ?_⟩⟩
      · obtain ⟨c, earlier, -, heq, -⟩ := h.room
        show Seen.afterInternal { b with blocks := addWord _ b.blocks } = false
        rw [Seen.afterInternal, heq]
        rfl
      show (if (l 4 1).getLsbD 6 = true then _ else none : Option UInt) =
        select owns (wordBusAddr request (wordsOf (addWord _ b.blocks)).length)
      have hnext := h.room.counted fun heq =>
        hlast (BitVec.eq_of_toNat_eq (h.stand.addr.trans heq.symm))
      rw [wordsOf_addWord h.room, List.length_cons, hnext, if_pos hREF', hsel, select,
        h.stand.busAddr]
      exact (if_pos (href hREF' _ (hsel.trans (congrArg some h.stand.busAddr)))).symm
    calls := by
      show b.calls + 1 ≤ 4 * (wordsOf (addWord _ b.blocks)).length + if b.timedOut then 4 else 0
      rw [wordsOf_addWord h.room, h.timedOut]
      show b.calls + 1 ≤ 4 * (b.moved.length + 1) + 0
      omega }

/-- The timer ends the wait. -/
theorem timeout_inv (hsame : Same request r) (htrace : Trace request r.mailbox.words b.blocks)
    (hinit : b.initSeen = false) (h : Portion request r b)
    (hcalls : b.calls ≤ 4 * b.moved.length + 3) (l : Lines) {data : Word}
    (hdata : cycleIsDato request.buscycle = true → data = r.mailbox.words r.dataptr) :
    Inv request owns (completeRegs (({ r with stateTimeout := true } : Regs).setWord data) l)
      (some .state99) (({ b with timedOut := true } : Seen).count True) where
  same := hsame.congr rfl rfl rfl (setWord_source hsame hdata)
  trace := htrace.congr (setWord_words h.stand data).2
  init := fun _ => hinit
  phase := .timeout rfl rfl (h.stand.same rfl rfl rfl rfl) h.room.lt
  calls := by
    show b.calls + 1 ≤ 4 * b.moved.length + 4
    omega

theorem count_of {p : Prop} [Decidable p] (hp : p) : b.count p = b.count True := by
  rw [Seen.count, if_pos hp, Seen.count, if_pos trivial]

theorem count_of_not {p : Prop} [Decidable p] (hp : ¬ p) : b.count p = b := by
  rw [Seen.count, if_neg hp]

/-- A wait for RPLY: it is answered, timed out, or goes on. -/
theorem complete_inv {t : Transfer} {st : DmaState}
    (h : Inv request owns (regs t.pru) (some st) t.toSeen)
    (hportion : Portion request (regs t.pru) t.toSeen)
    (hcounted : t.selected = select owns (busAddr t.pru.mailbox.dma.curAddr))
    (hcalls : t.calls ≤ 4 * t.moved.length + 3) (hst : st ≠ .state99) {l : Lines}
    (hrply : (l 4 0).getLsbD 3 = true → t.selected.isSome = true)
    (href : (l 4 1).getLsbD 6 = true → ∀ a, t.selected = some a → owns (a + 2) = true) {data : Word}
    (hdata : cycleIsDato request.buscycle = true →
      data = (regs t.pru).mailbox.words (regs t.pru).dataptr)
    {next : Option DmaState} {r' : Regs}
    (hcases : (l 4 0).getLsbD 3 = true ∧ next = some .state99 ∧
        r' = completeRegs ((regs t.pru).setWord data) l ∨
      (l 4 0).getLsbD 3 = false ∧ next = some .state99 ∧
        r' = completeRegs (({ regs t.pru with stateTimeout := true } : Regs).setWord data) l ∨
      (l 4 0).getLsbD 3 = false ∧ next = some st ∧
        r' = { regs t.pru with stateTimeout := false }) :
    Inv request owns r' next ((t.complete l t.pru data next).count (next ≠ some st)) := by
  have hdone : some DmaState.state99 ≠ some st := fun heq => hst (Option.some.inj heq).symm
  rcases hcases with ⟨hyes, rfl, rfl⟩ | ⟨hno, rfl, rfl⟩ | ⟨-, rfl, rfl⟩
  · rw [count_of hdone, Seen.complete, if_neg (by decide), if_pos hyes]
    exact answered_inv h.same h.trace (h.init rfl) hportion hcalls hcounted (hrply hyes) href hdata
  · rw [count_of hdone, Seen.complete, if_neg (by decide), if_neg (by rw [hno]; decide)]
    exact timeout_inv h.same h.trace (h.init rfl) hportion hcalls l hdata
  · have hstay : ({ regs t.pru with stateTimeout := false } : Regs) = regs t.pru := by
      rw [← hportion.timeout]
    rw [count_of_not (fun hne => hne rfl), hstay, Seen.complete, if_pos hdone.symm]
    exact h

/-- The end of a word, of a block, of the transfer -/
theorem state99_inv (haddresses : request.startaddr.toNat + 2 * request.wordcount.toNat ≤ 2 ^ 32)
    (h : Inv request owns r (some .state99) b) {next : Option DmaState}
    {r' : Regs} (init : Bool)
    (hcases : r.stateTimeout = true ∧ next = none ∧ r' = r.setStatus dmaStateTimeoutstop ∨
      r.stateTimeout = false ∧ r.wordsLeft - 1 = 0 ∧ next = none ∧
        r' = r.advance.setStatus dmaStateReady ∨
      r.stateTimeout = false ∧ r.wordsLeft - 1 ≠ 0 ∧ init = true ∧ next = none ∧
        r' = r.advance.setStatus dmaStateInitstop ∨
      r.stateTimeout = false ∧ r.wordsLeft - 1 ≠ 0 ∧ init = false ∧
        next = some (r.blockDataStateFunc.getD .addr) ∧
        r' = r.advance.setAddr (r.mailbox.curAddr + 2)) :
    Inv request owns r' next (({ b with initSeen := b.initSeen || init } : Seen).count True) := by
  have hinit := h.init rfl
  have hcalls := h.calls
  rcases h.phase with ⟨htimeout, htimedOut, hat, hlt⟩ | ⟨htimeout, htimedOut, hk, hat, hlt, hnext⟩
  · rcases hcases with ⟨-, rfl, rfl⟩ | ⟨hnot, -⟩ | ⟨hnot, -⟩ | ⟨hnot, -⟩
    · exact {
        same := h.same.congr rfl rfl rfl h.same.source
        trace := h.trace
        init := fun hsome => absurd hsome Bool.false_ne_true
        phase := .timeout rfl htimedOut hlt hat.addr
        calls := by
          rw [callBound, htimedOut] at hcalls
          show b.calls + 1 ≤ 4 * request.wordcount.toNat + 2
          simp only [if_true] at hcalls
          omega }
    all_goals
      rw [htimeout] at hnot
      contradiction
  · rw [callBound, htimedOut, if_neg Bool.false_ne_true, hk] at hcalls
    have hleft : (r.wordsLeft - 1).toNat + b.moved.length = request.wordcount.toNat := by
      have := hat.left
      rw [BitVec.toNat_sub_of_le (by show 1 ≤ r.wordsLeft.toNat; omega), hk]
      show r.wordsLeft.toNat - 1 + _ = _
      omega
    have haddr : r.mailbox.curAddr.toNat + 2 = wordAddr request b.moved.length := by
      rw [hat.addr, hk]
      unfold wordAddr
      omega
    rcases hcases with ⟨hyes, -⟩ | ⟨-, hzero, rfl, rfl⟩ | ⟨-, hmore, rfl, rfl, rfl⟩ |
      ⟨-, hmore, rfl, rfl, rfl⟩
    · rw [htimeout] at hyes
      contradiction
    · exact {
        same := h.same.congr rfl rfl rfl h.same.source
        trace := h.trace
        init := fun hsome => absurd hsome Bool.false_ne_true
        phase := by
          refine .ready rfl ?_ haddr
          rw [hzero] at hleft
          show b.moved.length = _
          rw [← hleft]
          exact (Nat.zero_add _).symm
        calls := by
          show b.calls + 1 ≤ 4 * request.wordcount.toNat + 2
          omega }
    · have hpos : (r.wordsLeft - 1).toNat ≠ 0 := fun hzero => hmore (BitVec.eq_of_toNat_eq hzero)
      exact {
        same := h.same.congr rfl rfl rfl h.same.source
        trace := h.trace
        init := fun hsome => absurd hsome Bool.false_ne_true
        phase := .init rfl (Bool.or_true _) (by show b.moved.length < _; omega) haddr
        calls := by
          show b.calls + 1 ≤ 4 * request.wordcount.toNat + 2
          omega }
    · have hpos : (r.wordsLeft - 1).toNat ≠ 0 := fun hzero => hmore (BitVec.eq_of_toNat_eq hzero)
      have hlt' : b.moved.length < request.wordcount.toNat := by omega
      have hstand : At request (r.advance.setAddr (r.mailbox.curAddr + 2)) b.moved.length := by
        refine ⟨?_, ?_, hleft, hat.running⟩
        · show (r.mailbox.curAddr + 2).toNat = _
          rw [← haddr, BitVec.toNat_add]
          show (_ + 2) % _ = _
          unfold wordAddr at haddr
          omega
        · exact (congrArg (· + 1) hat.ptr).trans hk.symm
      refine ⟨h.same.congr rfl rfl rfl h.same.source, h.trace, ?_, ?_, ?_⟩
      · intro _
        show (b.initSeen || false) = false
        rw [hinit, Bool.or_false]
      · cases hfunc : r.blockDataStateFunc with
        | none => exact ⟨hstand, htimedOut, .inl hlt'⟩
        | some st =>
          obtain ⟨rfl, hroom, hserved⟩ := hnext st hfunc
          exact phase_portionState ⟨hstand, hfunc, htimeout, htimedOut, hroom⟩ hserved
      · cases hfunc : r.blockDataStateFunc with
        | none =>
          show b.calls + 1 ≤ 4 * b.moved.length + 1
          omega
        | some st =>
          obtain ⟨rfl, -, -⟩ := hnext st hfunc
          show b.calls + 1 ≤ callBound request b (some (portionState request.buscycle))
          rw [callBound_portionState]
          omega

/-- Nothing is to be transferred. -/
theorem nothing_inv (h : Inv request owns r (some .addr) b) (hcount : r.mailbox.wordcount = 0) :
    Inv request owns r none (b.count True) := by
  obtain ⟨hat, htimedOut, hmore⟩ := h.phase
  have hleft := hat.left
  rw [← h.same.wordcount, hcount] at hleft
  have hnone : b.moved.length = 0 := Nat.eq_zero_of_add_eq_zero_left hleft
  exact {
    same := h.same
    trace := h.trace
    init := fun hsome => absurd hsome Bool.false_ne_true
    phase := .nothing hat.running (h.same.wordcount ▸ hcount) (List.length_eq_zero_iff.mp hnone)
    calls := by
      have hcalls := h.calls
      rw [callBound, hnone] at hcalls
      show b.calls + 1 ≤ 4 * request.wordcount.toNat + 2
      omega }

/-- `sm_dma_state_99` does not come back to itself. -/
theorem next_ne_state99 {t : Transfer} (h : Inv request owns (regs t.pru) (some .state99) t.toSeen)
    (l : Lines) : (t.pru.smDmaState99 l).1 ≠ some .state99 := by
  have hnone : (none : Option DmaState) ≠ some .state99 := (Option.some_ne_none _).symm
  rcases state99_cases t.pru l with ⟨-, hnext, -⟩ | ⟨-, -, hnext, -⟩ | ⟨-, -, -, hnext, -⟩ |
    ⟨htimeout, -, -, hnext, -⟩
  · exact hnext ▸ hnone
  · exact hnext ▸ hnone
  · exact hnext ▸ hnone
  · rw [hnext]
    rcases h.phase with ⟨hyes, -⟩ | ⟨-, -, -, -, -, hgoes⟩
    · exact absurd (htimeout.symm.trans hyes) Bool.false_ne_true
    · cases hfunc : t.pru.dma.blockDataStateFunc with
      | none => decide
      | some st =>
        obtain ⟨rfl, -⟩ := hgoes st hfunc
        show some (portionState request.buscycle) ≠ _
        rw [portionState]
        split <;> decide

/-- A call of the state machine keeps the invariant, when it is careful. -/
theorem call_inv (haddresses : request.startaddr.toNat + 2 * request.wordcount.toNat ≤ 2 ^ 32)
    {t : Transfer} {st : DmaState} (h : Inv request owns (regs t.pru) (some st) t.toSeen)
    {l : Lines} (hslaves : Slaves owns l t st) (hcareful : Careful owns t st) :
    Inv request owns (regs (t.call owns l st).pru) (t.call owns l st).pru.master
      (t.call owns l st).toSeen := by
  show Inv request owns (regs (t.pru.smDma l st).2) (t.pru.smDma l st).1
    ((t.observe owns l t.pru st).count ((t.pru.smDma l st).1 ≠ some st))
  cases st with
  | start => exact start_inv h
  | addr =>
    show Inv request owns (regs t.pru.smDmaStateAddr.2) t.pru.smDmaStateAddr.1 _
    have hseen : t.observe owns l t.pru .addr = if t.pru.smDmaStateAddr.1 = none then t.toSeen else
      t.sync owns (Pru.addressLines fun reg _ => t.pru.smDmaStateAddr.2.latches.driven reg) := rfl
    rcases addr_cases t.pru with ⟨hstop, heq⟩ | ⟨hgo, hnext, hregs⟩
    · rw [hseen, heq, if_pos rfl, count_of]
      · rcases hstop with hstatus | hcount
        · exact absurd h.phase.1.running hstatus
        · exact nothing_inv h hcount
      · show t.pru.smDmaStateAddr.1 ≠ some .addr
        rw [heq]
        exact (Option.some_ne_none _).symm
    · have hcount : t.pru.mailbox.dma.wordcount ≠ 0 := (not_or.mp hgo).2
      have hcycle : t.pru.mailbox.dma.buscycle = request.buscycle := h.same.buscycle
      have hne : t.pru.smDmaStateAddr.1 ≠ none := by rw [hnext]; exact Option.some_ne_none _
      rw [hseen, if_neg hne, count_of, hnext, hregs, hcycle]
      · exact addr_inv haddresses h hcount (addr_lines t.pru hne)
      · show t.pru.smDmaStateAddr.1 ≠ some .addr
        rw [hnext, portionState]
        split <;> decide
  | dinStart =>
    show Inv request owns (regs t.pru.smDmaStateDinStart.2) t.pru.smDmaStateDinStart.1
      ((t.portion t.pru (internalData t.pru) t.pru.smDmaStateDinStart.1).count
        (t.pru.smDmaStateDinStart.1 ≠ some .dinStart))
    obtain ⟨hportion, hdato, hserved⟩ := h.phase
    rcases dinStart_cases t.pru with ⟨hnext, hregs⟩ | ⟨hnext, hregs⟩
    · rw [hnext, hregs, count_of (by decide), Seen.portion, if_pos rfl]
      have hown : owns (busAddr t.pru.mailbox.dma.curAddr) = false :=
        Bool.of_not_eq_true fun hown => hslaves.disjoint rfl hown hnext
      exact internal_inv h.same h.trace (h.init rfl) hportion hserved h.calls hown
        (fun hyes => absurd (hdato.symm.trans hyes) Bool.false_ne_true) rfl rfl rfl rfl rfl
    · rw [hnext, hregs, count_of (by decide), Seen.portion, if_neg (by decide)]
      have hcounted := external_counted hportion hserved (hcareful rfl)
      exact {
        same := h.same
        trace := h.trace
        init := fun _ => h.init rfl
        phase := ⟨hportion.seen rfl rfl, hdato, hcounted⟩
        calls := Nat.add_le_add_right h.calls 1 }
  | doutStart =>
    show Inv request owns (regs t.pru.smDmaStateDoutStart.2) t.pru.smDmaStateDoutStart.1
      (({ t.portion t.pru (doutData t.pru) t.pru.smDmaStateDoutStart.1 with
        offered := doutData t.pru } : Seen).count (t.pru.smDmaStateDoutStart.1 ≠ some .doutStart))
    obtain ⟨hportion, hdato, hserved⟩ := h.phase
    have hdata : doutData t.pru = (regs t.pru).mailbox.words (regs t.pru).dataptr := doutData_eq _
    rcases doutStart_cases t.pru with ⟨hnext, hregs⟩ | ⟨hnext, hregs⟩
    · rw [hnext, hregs, count_of (by decide), Seen.portion, if_pos rfl]
      have hown : owns (busAddr t.pru.mailbox.dma.curAddr) = false :=
        Bool.of_not_eq_true fun hown => hslaves.disjoint rfl hown hnext
      have hset : (regs t.pru).setWord (doutData t.pru) = regs t.pru := by
        rw [Regs.setWord, hdata, Function.update_eq_self]
      rw [← hset]
      exact internal_inv h.same h.trace (h.init rfl) hportion hserved h.calls hown
        (fun _ => hdata) rfl rfl rfl rfl rfl
    · rw [hnext, hregs, count_of (by decide), Seen.portion, if_neg (by decide)]
      have hcounted := external_counted hportion hserved (hcareful rfl)
      exact {
        same := h.same
        trace := h.trace
        init := fun _ => h.init rfl
        phase := ⟨hportion.seen rfl rfl, hdato, hcounted, hdata⟩
        calls := Nat.add_le_add_right h.calls 1 }
  | dinComplete =>
    show Inv request owns (regs (t.pru.smDmaStateDinComplete l).2)
      (t.pru.smDmaStateDinComplete l).1 _
    obtain ⟨hportion, hdato, hcounted⟩ := h.phase
    exact complete_inv h hportion hcounted h.calls (by decide)
      (fun hrply => hslaves.rply hrply (.inl rfl)) hslaves.ref
      (fun hyes => absurd (hdato.symm.trans hyes) Bool.false_ne_true)
      (dinComplete_cases t.pru l)
  | doutComplete =>
    show Inv request owns (regs (t.pru.smDmaStateDoutComplete l).2)
      (t.pru.smDmaStateDoutComplete l).1 _
    obtain ⟨hportion, hdato, hcounted, hoffered⟩ := h.phase
    have hset : (regs t.pru).setWord t.offered = regs t.pru := by
      rw [Regs.setWord, hoffered, Function.update_eq_self]
    have hset' : (({ regs t.pru with stateTimeout := true } : Regs).setWord t.offered) =
        { regs t.pru with stateTimeout := true } := by
      rw [Regs.setWord, hoffered, Function.update_eq_self]
    refine complete_inv h hportion hcounted h.calls (by decide)
      (fun hrply => hslaves.rply hrply (.inr rfl)) hslaves.ref (fun _ => hoffered) ?_
    rcases doutComplete_cases t.pru l with ⟨hrply, hnext, hregs⟩ | ⟨hrply, hnext, hregs⟩ | hwait
    · exact .inl ⟨hrply, hnext, by rw [hregs, hset]⟩
    · exact .inr (.inl ⟨hrply, hnext, by rw [hregs, hset']⟩)
    · exact .inr (.inr hwait)
  | state99 =>
    show Inv request owns (regs (t.pru.smDmaState99 l).2) (t.pru.smDmaState99 l).1
      (({ t.toSeen with initSeen := t.initSeen || (l 5 0).getLsbD 0 } : Seen).count
        ((t.pru.smDmaState99 l).1 ≠ some .state99))
    rw [count_of (next_ne_state99 h l)]
    exact state99_inv haddresses h ((l 5 0).getLsbD 0) (state99_cases t.pru l)

/-! ## Transfers -/

theorem Granted.inv {t : Transfer} (h : Granted request t) :
    Inv request owns (regs t.pru) t.pru.master t.toSeen := by
  have hwords : t.moved = [] := by
    rw [Seen.moved, h.blocks]
    rfl
  have hdma : (regs t.pru).mailbox = request := h.mailboxDma
  exact {
    same := ⟨by rw [hdma], by rw [hdma], by rw [hdma], fun _ => by rw [hdma]⟩
    trace := by
      rw [h.blocks]
      exact Trace.nil _
    init := fun _ => h.initSeen
    phase := by
      rw [h.master]
      exact ⟨h.blocks, h.timedOut⟩
    calls := by
      rw [h.master, h.calls]
      exact Nat.zero_le _ }

theorem Step.inv (haddresses : request.startaddr.toNat + 2 * request.wordcount.toNat ≤ 2 ^ 32)
    {t t' : Transfer} (h : Inv request owns (regs t.pru) t.pru.master t.toSeen)
    (hstep : Step owns (Careful owns) t t') :
    Inv request owns (regs t'.pru) t'.pru.master t'.toSeen := by
  cases hstep with
  | call l hmaster hslaves hcareful =>
    rw [hmaster] at h
    exact call_inv haddresses h hslaves hcareful
  | @other u hother =>
    -- the variables of the transfer are as before
    have hregs : regs u = regs t.pru := by
      rw [regs, hother.dma, hother.mailboxDma]
      rfl
    show Inv request owns (regs u) u.master t.toSeen
    rw [hregs, hother.master]
    exact h

theorem Portion.count_le (h : Portion request r b) :
    b.moved.length ≤ request.wordcount.toNat := Nat.le_of_lt h.room.lt

theorem Phase.count_le {master : Option DmaState} (h : Phase request owns r b master) :
    b.moved.length ≤ request.wordcount.toNat := by
  cases master with
  | none =>
    cases h with
    | ready _ hall _ => exact Nat.le_of_eq hall
    | init _ _ hsome _ => exact Nat.le_of_lt hsome
    | timeout _ _ hsome _ => exact Nat.le_of_lt hsome
    | nothing _ _ hnone => rw [hnone]; exact Nat.zero_le _
  | some st =>
    cases st with
    | start =>
      rw [Seen.moved, h.1]
      exact Nat.zero_le _
    | addr =>
      have := h.1.left
      omega
    | dinStart => exact h.1.count_le
    | doutStart => exact h.1.count_le
    | dinComplete => exact h.1.count_le
    | doutComplete => exact h.1.count_le
    | state99 =>
      rcases h with ⟨-, -, -, hlt⟩ | ⟨-, -, hk, -, hlt, -⟩ <;> omega

/-- A timeout is known at the end of its data portion only. -/
theorem Phase.timedOut {st : DmaState} (h : Phase request owns r b (some st))
    (htimedOut : b.timedOut = true) : st = .state99 := by
  have hno : ¬ b.timedOut = false := by rw [htimedOut]; decide
  cases st with
  | start => exact absurd h.2 hno
  | addr => exact absurd h.2.1 hno
  | dinStart => exact absurd h.1.timedOut hno
  | doutStart => exact absurd h.1.timedOut hno
  | dinComplete => exact absurd h.1.timedOut hno
  | doutComplete => exact absurd h.1.timedOut hno
  | state99 => rfl

theorem callBound_le {master : Option DmaState} (h : Phase request owns r b master) :
    callBound request b master ≤ 4 * request.wordcount.toNat + 2 := by
  have hcount := h.count_le
  cases master with
  | none => exact Nat.le_refl _
  | some st =>
    cases st with
    | start => exact Nat.zero_le _
    | addr => show 4 * b.moved.length + 1 ≤ _; omega
    | dinStart => show 4 * b.moved.length + 2 ≤ _; omega
    | doutStart => show 4 * b.moved.length + 2 ≤ _; omega
    | dinComplete =>
      have hlt : b.moved.length < _ := h.1.room.lt
      show 4 * b.moved.length + 3 ≤ _
      omega
    | doutComplete =>
      have hlt : b.moved.length < _ := h.1.room.lt
      show 4 * b.moved.length + 3 ≤ _
      omega
    | state99 =>
      show 4 * b.moved.length + (if b.timedOut then 4 else 0) ≤ _
      rcases h with ⟨-, -, -, hlt⟩ | ⟨-, htimedOut, -⟩
      · split <;> omega
      · rw [htimedOut, if_neg Bool.false_ne_true]
        omega

theorem Inv.exact {t : Transfer} (h : Inv request owns (regs t.pru) t.pru.master t.toSeen) :
    Exact request owns t where
  inOrder := h.trace.inOrder
  count := h.phase.count_le
  data := h.trace.data
  source := h.same.source
  blocks := h.trace.limits
  sync := h.trace.sync
  counted := by
    have hphase := h.phase
    intro hwait
    rcases hwait with hmaster | hmaster
    · rw [hmaster] at hphase
      exact hphase.2.2
    · rw [hmaster] at hphase
      exact hphase.2.2.1
  stopped := by
    intro hsome
    refine ⟨h.init hsome, fun htimedOut => ?_⟩
    obtain ⟨st, hst⟩ := Option.isSome_iff_exists.mp hsome
    have hphase := h.phase
    rw [hst] at hphase
    rw [hst, hphase.timedOut htimedOut]
  ended := by
    intro hmaster
    have hphase := h.phase
    rw [hmaster] at hphase
    exact hphase
  bounded := h.calls.trans (callBound_le h.phase)

/-- A data portion that the QBone does not answer waits for a slave that is not selected. -/
theorem careless_wait {t t' : Transfer} (hserved : Served request owns t.toSeen)
    (hown : owns (busAddr t.pru.mailbox.dma.curAddr) = true) (hafter : t.afterInternal = true)
    (hselected : t'.selected = t.selected)
    (haddr : t'.pru.mailbox.dma.curAddr = t.pru.mailbox.dma.curAddr)
    (hmaster : t'.pru.master = some .dinComplete ∨ t'.pru.master = some .doutComplete) :
    ¬ Exact request owns t' := by
  intro hexact
  have hcounted := hexact.counted hmaster
  rcases hserved with ⟨hnot, -⟩ | ⟨-, hnone⟩
  · rw [hafter] at hnot
    contradiction
  · rw [hselected, hnone, haddr, select, if_pos hown] at hcounted
    contradiction

/-- A careless call addresses nobody. -/
theorem not_exact_of_careless {t : Transfer} {st : DmaState}
    (h : Inv request owns (regs t.pru) (some st) t.toSeen) {l : Lines}
    (hslaves : Slaves owns l t st) (hcareless : ¬ Careful owns t st) :
    ¬ Exact request owns (t.call owns l st) := by
  simp only [Careful, Classical.not_imp, Bool.not_eq_false] at hcareless
  obtain ⟨hst, hown, hafter⟩ := hcareless
  have hdisjoint := hslaves.disjoint hst hown
  cases st with
  | start => contradiction
  | addr => contradiction
  | dinStart =>
    rcases dinStart_cases t.pru with ⟨hnext, -⟩ | ⟨hnext, hregs⟩
    · exact absurd hnext hdisjoint
    · have hseen : (t.observe owns l t.pru .dinStart).selected = t.selected := by
        show (t.portion t.pru _ t.pru.smDmaStateDinStart.1).selected = _
        rw [hnext, Seen.portion, if_neg (by decide)]
      exact careless_wait h.phase.2.2 hown hafter hseen (congrArg (·.mailbox.curAddr) hregs)
        (.inl hnext)
  | doutStart =>
    rcases doutStart_cases t.pru with ⟨hnext, -⟩ | ⟨hnext, hregs⟩
    · exact absurd hnext hdisjoint
    · have hseen : (t.observe owns l t.pru .doutStart).selected = t.selected := by
        show (t.portion t.pru _ t.pru.smDmaStateDoutStart.1).selected = _
        rw [hnext, Seen.portion, if_neg (by decide)]
      exact careless_wait h.phase.2.2 hown hafter hseen (congrArg (·.mailbox.curAddr) hregs)
        (.inr hnext)
  | dinComplete => contradiction
  | doutComplete => contradiction
  | state99 => contradiction

theorem CarefulRun.inv {t : Transfer} (h : CarefulRun owns request t) :
    request.startaddr.toNat + 2 * request.wordcount.toNat ≤ 2 ^ 32 ∧
      Inv request owns (regs t.pru) t.pru.master t.toSeen := by
  apply Transition.Reachable.invariant _ _ h
  · exact fun _ hgranted => ⟨hgranted.addresses, hgranted.inv⟩
  · exact fun _ _ hold hstep => ⟨hold.1, hstep.inv hold.1 hold.2⟩

/-- Careful transfers are like transfers word by word, in every state, up to the first call that
is not careful. -/
theorem word_by_word_iff {t : Transfer} (h : CarefulRun owns request t) :
    Exact request owns t ∧ ∀ l st, t.pru.master = some st → Slaves owns l t st →
      (Exact request owns (t.call owns l st) ↔ Careful owns t st) := by
  obtain ⟨haddresses, hinv⟩ := h.inv
  refine ⟨hinv.exact, fun l st hmaster hslaves => ⟨?_, ?_⟩⟩
  · intro hexact
    by_contra hcareless
    rw [hmaster] at hinv
    exact not_exact_of_careless hinv hslaves hcareless hexact
  · intro hcareful
    have hnext : CarefulRun owns request (t.call owns l st) :=
      h.step (.call l hmaster hslaves hcareful)
    exact hnext.inv.2.exact

/-! ## A register of the QBone and one outside -/

/-- Two words from the start of the IO page -/
def boardRequest : MailboxDma where
  curStatus := 0
  buscycle := cycleDati
  wordcount := 2
  cpuAccess := false
  curAddr := 0
  startaddr := 0x7fe000
  words := fun _ => 0

/-- The first one is a register of the QBone. -/
def board : Transfer where
  selected := none
  offered := 0
  blocks := []
  timedOut := false
  initSeen := false
  calls := 0
  pru := { Pru.powerUp with
    master := some .start
    emulation := { Pru.powerUp.emulation with
      pages := { Pru.powerUp.emulation.pages with
        registerHandles := fun i => if i = entry 0x7fe000 then 1 else 0 } }
    mailbox := { Pru.powerUp.mailbox with dma := boardRequest } }

/-- The second one is somewhere else. -/
def boardOwns (addr : UInt) : Bool := addr == 0x7fe002

/-- Nobody drives a line. -/
def idleLines : Lines := fun _ _ => 0

/-- Calls in these states -/
def boardAfter : List DmaState → Transfer
  | [] => board
  | st :: before => (boardAfter before).call boardOwns idleLines st

theorem boardSlaves {t : Transfer} {st : DmaState}
    (h : (isPortion st && boardOwns (busAddr t.pru.mailbox.dma.curAddr)) = false ∨
      (t.pru.smDma idleLines st).1 ≠ some .state99) : Slaves boardOwns idleLines t st where
  disjoint := by
    intro hst hown
    rw [hst, hown] at h
    exact h.resolve_left (by decide)
  rply := fun hrply => absurd hrply (by decide)
  ref := fun href => absurd href (by decide)

/-- The first word is transferred, and its block goes on. -/
theorem board_run : CarefulRun boardOwns boardRequest
    (boardAfter [.state99, .dinStart, .addr, .start]) := by
  have h0 : CarefulRun boardOwns boardRequest (boardAfter []) :=
    .init ⟨rfl, rfl, by decide, rfl, rfl, rfl, rfl, rfl⟩
  have h1 : CarefulRun boardOwns boardRequest (boardAfter [.start]) :=
    h0.step (.call idleLines rfl (boardSlaves (.inl rfl)) (fun h => absurd h (by decide)))
  have h2 : CarefulRun boardOwns boardRequest (boardAfter [.addr, .start]) :=
    h1.step (.call idleLines rfl (boardSlaves (.inl rfl)) (fun h => absurd h (by decide)))
  have h3 : CarefulRun boardOwns boardRequest (boardAfter [.dinStart, .addr, .start]) :=
    h2.step (.call idleLines rfl (boardSlaves (.inl (by decide))) (fun _ h => absurd h (by decide)))
  exact h3.step (.call idleLines rfl (boardSlaves (.inl rfl)) (fun h => absurd h (by decide)))

theorem board_second : Slaves boardOwns idleLines
    (boardAfter [.state99, .dinStart, .addr, .start]) .dinStart :=
  boardSlaves (.inr (by decide))

/-- A transfer is not always like one word by word. -/
theorem second_word_not_addressed : ¬ ∀ (owns : UInt → Bool) (request : MailboxDma) (t : Transfer),
    Run owns request t → Exact request owns t := by
  intro h
  have hfirst : Run boardOwns boardRequest (boardAfter [.state99, .dinStart, .addr, .start]) :=
    board_run.mono fun _ _ hstep => by
      cases hstep with
      | call l hmaster hslaves _ => exact .call l hmaster hslaves trivial
      | other hother => exact .other hother
  have hcounted := (h _ _ _ (hfirst.step (.call idleLines rfl board_second trivial))).counted
    (.inl rfl)
  exact absurd hcounted (by decide)

/-- The word of the QBone is transferred, and the next one is put to nobody. -/
theorem word_by_word_board :
    Exact boardRequest boardOwns (boardAfter [.state99, .dinStart, .addr, .start]) ∧
      ¬ Exact boardRequest boardOwns
        (boardAfter [.dinStart, .state99, .dinStart, .addr, .start]) := by
  obtain ⟨hexact, hiff⟩ := word_by_word_iff board_run
  refine ⟨hexact, fun hnext => ?_⟩
  have hcareful := (hiff idleLines .dinStart rfl board_second).mp hnext
  exact absurd (hcareful rfl (by decide)) (by decide)

/-! ## The main loop -/

end BlockMode

end QUniBone.PruQ
