import QUniBone.PruQ.MainLoop
import QUniBone.Lib.Transition

/-!
# Block mode transfers of the QBone

A transfer of the DMA state machine together with what the other side of the bus has seen of it:
the slave that SYNC has selected counts up its address after each word it answers, and the words
that were moved are kept by block.

* `Transfer`, `call`: a call of the state machine, seen from the bus.
* `Step`: a call, or anything else in the PRU or on ARM that leaves the transfer alone.
* `Exact`: word by word transfer.
-/

namespace QUniBone.PruQ

open PruU (Lines MailboxDma dmaStateReady dmaStateRunning dmaStateTimeoutstop dmaStateInitstop)

namespace BlockMode

/-! ## What the bus has seen -/

/-- What an address is on the bus: 22 lines and BS7. -/
def busAddr (addr : UInt) : UInt := addr &&& 0x7fffff

/-- A word that has gone over the bus. -/
structure Moved where
  /-- its place in `mailbox.dma.words` -/
  index : ℕ
  /-- where the slave has it -/
  addr : UInt
  data : Word
  /-- the slave is this QBone -/
  internal : Bool

/-- One SYNC cycle. -/
structure Block where
  /-- on the lines when SYNC is asserted -/
  addr : UInt
  /-- latest first -/
  words : List Moved

/-- What the other side of the bus has seen of a transfer. -/
structure Seen where
  /-- the address of the slave outside that is selected -/
  selected : Option UInt
  /-- the data lines in the last DOUT -/
  offered : Word
  /-- latest first -/
  blocks : List Block
  /-- a data portion has ended without RPLY -/
  timedOut : Bool
  /-- INIT was there after a word -/
  initSeen : Bool
  /-- calls of the state machine that were not waits for RPLY -/
  calls : ℕ

/-- The slaves outside that see an address: it is theirs, or they stay off until SYNC goes. -/
def select (owns : UInt → Bool) (addr : UInt) : Option UInt := if owns addr then some addr else none

/-- All words of these blocks, latest first. -/
def wordsOf (blocks : List Block) : List Moved := blocks.flatMap Block.words

/-- A word more in the current block. -/
def addWord (w : Moved) : List Block → List Block
  | [] => []
  | b :: earlier => { b with words := w :: b.words } :: earlier

/-- DAL as lines -/
def dataLines (l : Lines) : Word := (l 0 0).setWidth 16 ||| ((l 1 0).setWidth 16 <<< 8)

/-- The word that the emulation answers a DIN with. -/
def internalData (s : Pru) : Word :=
  ((emulatedAddrRead s.emulation s.mailbox.dma.curAddr).1.map (·.2)).getD 0

/-- The data lines in a DOUT. -/
def doutData (s : Pru) : Word :=
  (s.putDout (s.mailbox.dma.buscycle == cycleDatob) (s.mailbox.dma.words s.dma.dataptr)).dal

namespace Seen

/-- All words moved, latest first. -/
def moved (b : Seen) : List Moved := wordsOf b.blocks

/-- The word moved last in this block was answered by the QBone itself. -/
def afterInternal (b : Seen) : Bool := b.blocks.head?.any fun c => c.words.head?.any Moved.internal

/-- A data portion, which the QBone may have answered itself. -/
def portion (b : Seen) (s : Pru) (data : Word) (next : Option DmaState) : Seen :=
  if next = some .state99 then
    { b with blocks := addWord ⟨s.dma.dataptr, busAddr s.mailbox.dma.curAddr, data, true⟩ b.blocks }
  else b

/-- The end of a data portion that was put to the slaves outside: the selected one answers with
RPLY, and with REF it counts up its address for another word. -/
def complete (b : Seen) (l : Lines) (s : Pru) (data : Word) (next : Option DmaState) : Seen :=
  if next ≠ some .state99 then b
  else if (l 4 0).getLsbD 3 then
    { b with
      blocks := addWord ⟨s.dma.dataptr, b.selected.getD 0, data, false⟩ b.blocks
      selected := if (l 4 1).getLsbD 6 then b.selected.map (· + 2) else none }
  else { b with timedOut := true }

/-- An address phase -/
def sync (owns : UInt → Bool) (b : Seen) (lines : UInt) : Seen :=
  { b with selected := select owns lines, blocks := ⟨lines, []⟩ :: b.blocks }

/-- What is seen of a call in state `st`. -/
def observe (owns : UInt → Bool) (l : Lines) (b : Seen) (s : Pru) (st : DmaState) : Seen :=
  let (next, u) := s.smDma l st
  match st with
  | .start => b
  | .addr =>
    if next = none then b else b.sync owns (Pru.addressLines fun reg _ => u.latches.driven reg)
  | .dinStart => b.portion s (internalData s) next
  | .doutStart => { b.portion s (doutData s) next with offered := doutData s }
  | .dinComplete => b.complete l s (dataLines l) next
  | .doutComplete => b.complete l s b.offered next
  | .state99 => { b with initSeen := b.initSeen || (l 5 0).getLsbD 0 }

/-- A call that does not wait -/
def count (b : Seen) (productive : Prop) [Decidable productive] : Seen :=
  { b with calls := if productive then b.calls + 1 else b.calls }

end Seen

/-- The PRU in a transfer, and the bus. -/
structure Transfer extends Seen where
  pru : Pru

/-- A call in state `st`, as the main loop does it. -/
def Transfer.call (owns : UInt → Bool) (l : Lines) (t : Transfer) (st : DmaState) : Transfer where
  toSeen := (t.observe owns l t.pru st).count ((t.pru.smDma l st).1 ≠ some st)
  pru := { (t.pru.smDma l st).2 with master := (t.pru.smDma l st).1, phase := .command }

/-! ## Runs -/

/-- What the main loop and ARM do beside a transfer. -/
structure Unrelated (s u : Pru) : Prop where
  dma : u.dma = s.dma
  mailboxDma : u.mailbox.dma = s.mailbox.dma
  master : u.master = s.master

/-- Whether a call starts a data portion. -/
def isPortion (st : DmaState) : Bool := st == .dinStart || st == .doutStart

/-- The slaves outside, which own addresses: no address has two slaves, RPLY comes from the selected
one, and REF only from one that can support another word. -/
structure Slaves (owns : UInt → Bool) (l : Lines) (t : Transfer) (st : DmaState) : Prop where
  disjoint : isPortion st = true → owns (busAddr t.pru.mailbox.dma.curAddr) = true →
    (t.pru.smDma l st).1 ≠ some .state99
  rply : (l 4 0).getLsbD 3 = true → st = .dinComplete ∨ st = .doutComplete → t.selected.isSome
  ref : (l 4 1).getLsbD 6 = true → ∀ a, t.selected = some a → owns (a + 2) = true

/-- No data portion for a slave outside comes in a block after a word that the QBone has answered
itself. -/
def Careful (owns : UInt → Bool) (t : Transfer) (st : DmaState) : Prop :=
  isPortion st = true → owns (busAddr t.pru.mailbox.dma.curAddr) = true → t.afterInternal = false

/-- A step of a transfer whose calls meet a condition. -/
inductive Step (owns : UInt → Bool) (p : Transfer → DmaState → Prop) : Transfer → Transfer → Prop
  | call {t : Transfer} {st : DmaState} (l : Lines) (hmaster : t.pru.master = some st)
      (hslaves : Slaves owns l t st) (hp : p t st) : Step owns p t (t.call owns l st)
  | other {t : Transfer} {u : Pru} (h : Unrelated t.pru u) : Step owns p t { t with pru := u }

/-- A request has been granted. The address counter does not overflow. -/
structure Granted (request : MailboxDma) (t : Transfer) : Prop where
  master : t.pru.master = some .start
  mailboxDma : t.pru.mailbox.dma = request
  addresses : request.startaddr.toNat + 2 * request.wordcount.toNat ≤ 2 ^ 32
  selected : t.selected = none
  blocks : t.blocks = []
  timedOut : t.timedOut = false
  initSeen : t.initSeen = false
  calls : t.calls = 0

/-- All transfers of a request, with any slaves outside, INIT and timing. -/
abbrev Run (owns : UInt → Bool) (request : MailboxDma) : Transfer → Prop :=
  Transition.Reachable (Granted request) (Step owns fun _ _ => True)

/-- Those of careful calls. -/
abbrev CarefulRun (owns : UInt → Bool) (request : MailboxDma) : Transfer → Prop :=
  Transition.Reachable (Granted request) (Step owns (Careful owns))

/-! ## Word by word -/

variable (request : MailboxDma)

/-- The address of word `i` -/
def wordAddr (i : ℕ) : ℕ := request.startaddr.toNat + 2 * i

/-- … on the bus -/
def wordBusAddr (i : ℕ) : UInt := busAddr (BitVec.ofNat 32 (wordAddr request i))

/-- How a transfer may have ended, with the address that is reported: that of the last word, or of
the one that failed. -/
inductive Ended (dma : MailboxDma) (b : Seen) : Prop
  | ready (hstatus : dma.curStatus = dmaStateReady)
      (hall : b.moved.length = request.wordcount.toNat)
      (haddr : dma.curAddr.toNat + 2 = wordAddr request b.moved.length)
  | init (hstatus : dma.curStatus = dmaStateInitstop) (hinit : b.initSeen = true)
      (hsome : b.moved.length < request.wordcount.toNat)
      (haddr : dma.curAddr.toNat + 2 = wordAddr request b.moved.length)
  | timeout (hstatus : dma.curStatus = dmaStateTimeoutstop) (htimeout : b.timedOut = true)
      (hsome : b.moved.length < request.wordcount.toNat)
      (haddr : dma.curAddr.toNat = wordAddr request b.moved.length)
  | nothing (hstatus : dma.curStatus = dmaStateRunning) (hcount : request.wordcount = 0)
      (hnone : b.moved = [])

/-- A transfer is like one word by word. -/
structure Exact (owns : UInt → Bool) (t : Transfer) : Prop where
  /-- word `i` at address `start + 2 * i`, in order, once each -/
  inOrder : t.moved.reverse.map (fun w => (w.index, w.addr)) =
    (List.range t.moved.length).map fun i => (i, wordBusAddr request i)
  count : t.moved.length ≤ request.wordcount.toNat
  data : ∀ w ∈ t.moved, t.pru.mailbox.dma.words w.index = w.data
  source : cycleIsDato request.buscycle = true → t.pru.mailbox.dma.words = request.words
  /-- eight words, and no boundary of 16 words -/
  blocks : ∀ b ∈ t.blocks, b.words.length ≤ 8 ∧
    ∀ w ∈ b.words, w.addr.toNat / 32 = b.addr.toNat / 32
  /-- an address phase is for the next word -/
  sync : ∀ later b earlier, t.blocks = later ++ b :: earlier →
    b.addr = wordBusAddr request (wordsOf earlier).length
  /-- the slave has counted up to the address that the master waits for -/
  counted : t.pru.master = some .dinComplete ∨ t.pru.master = some .doutComplete →
    t.selected = select owns (busAddr t.pru.mailbox.dma.curAddr)
  /-- until a timeout or INIT -/
  stopped : t.pru.master.isSome = true →
    t.initSeen = false ∧ (t.timedOut = true → t.pru.master = some .state99)
  ended : t.pru.master = none → Ended request t.pru.mailbox.dma t.toSeen
  bounded : t.calls ≤ 4 * request.wordcount.toNat + 2

end BlockMode

end QUniBone.PruQ
