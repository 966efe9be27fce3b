import QUniBone.Serial.Dl11
import QUniBone.Lib.Transition
import Mathlib.Data.List.Basic

/-!
# Characters of the DL11

A read of RBUF clears `rcv_done` only when its event is handled, after the CPU has got the value,
and the condition variable of the transmitter remembers no signal. So characters can be lost.

* `Careful`: the steps with which none is lost.
* `Lossless`: every character is sent once, or returned, or its loss is flagged.
* `Receiver.Inv`, `Transmitter.Inv`: the invariants of both halves.
* `lossless_of_careful`: no character is lost silently.
* `read_loses_next`: a character that arrives between a read of RBUF and its event.
-/

namespace QUniBone.Dl11

open Transition

/-! ## Careful steps -/

/-- Nothing is unread, or it is just being read. -/
def State.Read (s : State) : Prop := s.receiver.rcvDone = false ∨ s.cpu = .rbufRead

/-- An event is only handled when it does not discard a character. -/
def CarefulEvent (s : State) : Prop :=
  s.lineInit = false →
    match s.cpu with
    | .rcsrWritten val => val &&& RCSR_RDR_ENB ≠ 0 → s.receiver.rcvDone = false
    | .rbufWritten => s.receiver.rcvDone = false
    | .xbufWritten _ => s.transmitter.worker = .waiting ∨ s.transmitter.worker = .woken
    | _ => True

/-- RBUF is not read between its character being overwritten and the next one being shown, and no
character arrives while an access to RBUF waits for its event. XBUF is written when the
transmitter is ready and its worker waits for the signal. INIT and the reader enable bit find
nothing unread. Overruns are shown. The condition variable is only signalled by a write to
XBUF. -/
def Careful (s : State) : Action → Prop
  | .readRbuf => ∀ byte, s.receiver.worker ≠ .stored byte
  | .writeXbuf _ => s.transmitter.ready = true
  | .handle => CarefulEvent s
  | .busInit | .reset | .power => s.Read
  | .store => s.cpu ≠ .rbufRead ∧ s.cpu ≠ .rbufWritten
  | .showRbuf => s.receiver.rcvOrErr = true → s.errorBitsEnable = true
  | .spuriousWakeup => False
  | _ => True

/-! ## What becomes of the characters -/

/-- Each character that was received has been returned, or the next one is shown with the overrun
error. The last one is returned or shown. -/
structure Receiver.Lossless (r : Receiver) : Prop where
  returned_or_flagged : ∀ i, i + 1 < r.received.length →
    i ∈ r.returned.map Prod.fst ∨ i + 1 ∈ r.flagged
  last : ∀ i, i + 1 = r.received.length → (∀ byte, r.worker ≠ .stored byte) →
    i ∈ r.returned.map Prod.fst ∨ r.rcvDone = true ∧ r.shown = some i
  value : ∀ p ∈ r.returned, r.received[p.1]? = some (p.2.setWidth 8)

/-- Characters are sent once and in the order in which they were written. Each one is sent, unless
INIT comes in its way, or the worker has been woken to send it and the transmitter is not ready. -/
structure Transmitter.Lossless (x : Transmitter) : Prop where
  order : (x.sent.map Prod.fst).Pairwise (· < ·)
  value : ∀ p ∈ x.sent, x.written[p.1]? = some p.2
  all : ∀ i < x.written.length, i ∈ x.sent.map Prod.fst ∨ i ∈ x.dropped ∨
    (x.worker = .woken ∧ x.bufferIndex = i ∧ x.ready = false)

/-! ## Receiver -/

@[simp] theorem flag_true (mask : BitVec 16) : flag true mask = mask := rfl

@[simp] theorem flag_false (mask : BitVec 16) : flag false mask = 0 := rfl

namespace Receiver

variable {r : Receiver}

/-- The invariant. While a character is stored and not shown, the one before it is returned or
the overrun is noted. -/
structure Inv (r : Receiver) (cpu : Cpu) : Prop where
  lossless : r.Lossless
  shown : ∀ i, r.shown = some i → i + 1 = r.received.length ∧
    r.received[i]? = some (r.rbuf.setWidth 8)
  stored : ∀ byte, r.worker = .stored byte → r.rcvDone = true ∧ r.rcvBuffer = byte.c ∧
    cpu ≠ .rbufRead ∧
    ∀ i, i + 1 = r.received.length → i ∈ r.returned.map Prod.fst ∨ r.rcvOrErr = true
  read : cpu = .rbufRead → r.rcvDone = true → ∀ i, i + 1 = r.received.length →
    i ∈ r.returned.map Prod.fst

/-- The character is in the low byte of RBUF. -/
theorem rbufValue_setWidth (r : Receiver) (enable : Bool) :
    (r.rbufValue enable).setWidth 8 = r.rcvBuffer := by
  have hflags : ∀ a b c e : Bool, (flag e (flag a RBUF_OR_ERR ||| flag b RBUF_FR_ERR |||
      flag c RBUF_P_ERR ||| flag (flag a RBUF_OR_ERR ||| flag b RBUF_FR_ERR |||
        flag c RBUF_P_ERR != 0) RBUF_ERROR)).setWidth 8 = (0 : BitVec 8) := by decide
  rw [rbufValue, BitVec.setWidth_or, hflags, BitVec.setWidth_setWidth_of_le _ (by decide),
    BitVec.setWidth_eq]
  exact BitVec.zero_or

/-- With the error bits enabled an overrun is visible. -/
theorem rbufValue_overrun (h : r.rcvOrErr = true) :
    (r.rbufValue true &&& RBUF_OR_ERR != 0) = true := by
  have hbit : (r.rbufValue true).getLsbD 14 = true := by
    simp [rbufValue, h, RBUF_OR_ERR]
  refine bne_iff_ne.mpr fun hzero => ?_
  have hand : (r.rbufValue true &&& RBUF_OR_ERR).getLsbD 14 = true := by
    rw [BitVec.getLsbD_and, hbit]
    decide
  rw [hzero] at hand
  simp at hand

variable {cpu : Cpu}

theorem Inv.setCpu (h : Inv r cpu) {cpu' : Cpu} (hcpu : cpu' ≠ .rbufRead) : Inv r cpu' where
  lossless := h.lossless
  shown := h.shown
  stored byte hbyte := by
    obtain ⟨hdone, hbuffer, -, hlast⟩ := h.stored byte hbyte
    exact ⟨hdone, hbuffer, hcpu, hlast⟩
  read hread := absurd hread hcpu

/-- RCSR has no part in it. -/
theorem Inv.setRcsr (h : Inv r cpu) (lineInit : Bool) : Inv (r.setRcsr lineInit) cpu :=
  ⟨⟨h.lossless.1, h.lossless.2, h.lossless.3⟩, h.shown, h.stored, h.read⟩

/-- Nothing is unread. -/
theorem Inv.returned_of_read (h : Inv r cpu) (hread : r.rcvDone = false ∨ cpu = .rbufRead) :
    (∀ byte, r.worker ≠ .stored byte) ∧
      ∀ i, i + 1 = r.received.length → i ∈ r.returned.map Prod.fst := by
  have hworker : ∀ byte, r.worker ≠ .stored byte := fun byte hbyte => by
    obtain ⟨hdone, -, hcpu, -⟩ := h.stored byte hbyte
    rcases hread with hfalse | hreading
    · exact absurd (hfalse.symm.trans hdone) (by decide)
    · exact hcpu hreading
  refine ⟨hworker, fun i hi => ?_⟩
  rcases h.lossless.last i hi hworker with hreturned | ⟨hdone, -⟩
  · exact hreturned
  · rcases hread with hfalse | hreading
    · exact absurd (hfalse.symm.trans hdone) (by decide)
    · exact h.read hreading hdone i hi

/-- What has been read may be forgotten. -/
theorem Inv.forget (h : Inv r cpu) (hread : r.rcvDone = false ∨ cpu = .rbufRead) {q : Receiver}
    (hreceived : q.received = r.received) (hreturned : q.returned = r.returned)
    (hflagged : q.flagged = r.flagged) (hworker : q.worker = r.worker)
    (hshown : q.shown = none ∨ q.shown = r.shown ∧ q.rbuf = r.rbuf) : Inv q cpu := by
  obtain ⟨hstored, hlast⟩ := h.returned_of_read hread
  refine ⟨⟨?_, fun i hi _ => .inl ?_, ?_⟩, fun i hi => ?_, fun byte hbyte => ?_, fun _ _ i hi => ?_⟩
  · rw [hreceived, hreturned, hflagged]
    exact h.lossless.returned_or_flagged
  · rw [hreturned]
    exact hlast i (hreceived ▸ hi)
  · rw [hreceived, hreturned]
    exact h.lossless.value
  · rcases hshown with hnone | ⟨hsame, hrbuf⟩
    · exact absurd (hnone.symm.trans hi) (by simp)
    · rw [hreceived, hrbuf]
      exact h.shown i (hsame ▸ hi)
  · exact absurd (hworker ▸ hbyte) (hstored byte)
  · rw [hreturned]
    exact hlast i (hreceived ▸ hi)

theorem Inv.clearDone (h : Inv r cpu) (hread : r.rcvDone = false ∨ cpu = .rbufRead)
    (lineInit : Bool) : Inv (r.clearDone lineInit) cpu :=
  (h.forget hread rfl rfl rfl rfl (.inr ⟨rfl, rfl⟩) :
    Inv { r with rcvDone := false } cpu).setRcsr lineInit

/-- RCSR is written, and the reader is only enabled when nothing is unread. -/
theorem Inv.evalRcsr (h : Inv r cpu) {val : BitVec 16} (lineInit : Bool)
    (hreader : val &&& RCSR_RDR_ENB ≠ 0 → r.rcvDone = false) :
    Inv (r.evalRcsr lineInit val) cpu := by
  rw [Receiver.evalRcsr]
  refine Inv.setRcsr ?_ lineInit
  by_cases hzero : val &&& RCSR_RDR_ENB = 0
  · rw [if_neg (by simp [hzero])]
    exact ⟨⟨h.lossless.1, h.lossless.2, h.lossless.3⟩, h.shown, h.stored, h.read⟩
  · rw [if_pos (by simpa using hzero)]
    exact h.forget (.inl (hreader hzero)) rfl rfl rfl rfl (.inr ⟨rfl, rfl⟩)

/-- The worker goes on without a character in hand. -/
theorem Inv.setWorker (h : Inv r cpu) (hold : ∀ byte, r.worker ≠ .stored byte) {w : RcvWorker}
    (hnew : ∀ byte, w ≠ .stored byte) : Inv { r with worker := w } cpu where
  lossless := ⟨h.lossless.1, fun i hi _ => h.lossless.2 i hi hold, h.lossless.3⟩
  shown := h.shown
  stored byte hbyte := absurd hbyte (hnew byte)
  read := h.read

/-- A character comes in. If the last one is not read yet, the overrun is noted. -/
theorem Inv.store (h : Inv r cpu) {byte : Rs232Byte} (hold : ∀ byte, r.worker ≠ .stored byte)
    (hcpu : cpu ≠ .rbufRead) : Inv (r.store byte) cpu where
  lossless := ⟨h.lossless.1, fun _ _ hworker => absurd rfl (hworker byte), h.lossless.3⟩
  shown := h.shown
  stored b hb := by
    obtain rfl := RcvWorker.stored.inj hb
    refine ⟨rfl, rfl, hcpu, fun i hi => ?_⟩
    exact (h.lossless.last i hi hold).imp_right And.left
  read hread := absurd hread hcpu

/-- It is shown, with the overrun error if the one before it was not read. -/
theorem Inv.showRbuf (h : Inv r cpu) {byte : Rs232Byte} (hworker : r.worker = .stored byte)
    {enable : Bool} (henable : r.rcvOrErr = true → enable = true) :
    Inv (r.showRbuf enable byte) cpu := by
  obtain ⟨hdone, hbuffer, hcpu, hlast⟩ := h.stored byte hworker
  have hlength : (r.showRbuf enable byte).received.length = r.received.length + 1 :=
    List.length_append
  refine ⟨⟨fun i hi => ?_, fun i hi _ => .inr ⟨hdone, ?_⟩, fun p hp => ?_⟩, fun i hi => ?_,
    nofun, fun hread => absurd hread hcpu⟩
  · -- The character before the new one is the one that was last.
    have hflagged : ∀ j ∈ r.flagged, j ∈ (r.showRbuf enable byte).flagged := fun j hj => by
      show j ∈ if _ then _ else _
      split
      · exact List.mem_append_left _ hj
      · exact hj
    rw [hlength] at hi
    by_cases hbefore : i + 1 < r.received.length
    · exact (h.lossless.returned_or_flagged i hbefore).imp_right (hflagged _)
    · have hi' : i + 1 = r.received.length := by omega
      refine (hlast i hi').imp_right fun hoverrun => ?_
      show i + 1 ∈ if _ then _ else _
      rw [henable hoverrun, rbufValue_overrun hoverrun, if_pos rfl, hi']
      exact List.mem_append_right _ (List.mem_singleton_self _)
  · show some r.received.length = some i
    rw [hlength] at hi
    rw [Nat.succ_inj.mp hi]
  · have hold := h.lossless.value p hp
    show (r.received ++ [byte.c])[p.1]? = _
    rw [List.getElem?_append_left (List.getElem?_eq_some_iff.mp hold).1]
    exact hold
  · obtain rfl : r.received.length = i := Option.some.inj hi
    refine ⟨hlength.symm, ?_⟩
    show (r.received ++ [byte.c])[r.received.length]? = some ((r.rbufValue enable).setWidth 8)
    rw [List.getElem?_concat_length, rbufValue_setWidth, hbuffer]

/-- The CPU gets the character that is shown. -/
theorem Inv.readRbuf (h : Inv r cpu) (hworker : ∀ byte, r.worker ≠ .stored byte) :
    Inv r.readRbuf .rbufRead := by
  have hreturned : ∀ i, i ∈ r.returned.map Prod.fst → i ∈ r.readRbuf.returned.map Prod.fst := by
    intro i hi
    unfold Receiver.readRbuf
    split
    · rw [List.map_append]
      exact List.mem_append_left _ hi
    · exact hi
  have hsame : r.readRbuf.received = r.received ∧ r.readRbuf.flagged = r.flagged ∧
      r.readRbuf.worker = r.worker ∧ r.readRbuf.rcvDone = r.rcvDone ∧
      r.readRbuf.shown = r.shown ∧ r.readRbuf.rbuf = r.rbuf := by
    unfold Receiver.readRbuf
    split <;> exact ⟨rfl, rfl, rfl, rfl, rfl, rfl⟩
  obtain ⟨hreceived, hflagged, hwork, hdone, hshown, hrbuf⟩ := hsame
  refine ⟨⟨fun i hi => ?_, fun i hi _ => ?_, fun p hp => ?_⟩, fun i hi => ?_, fun byte hbyte => ?_,
    fun _ htrue i hi => ?_⟩
  · rw [hreceived] at hi
    rw [hflagged]
    exact (h.lossless.returned_or_flagged i hi).imp_left (hreturned i)
  · rw [hreceived] at hi
    rw [hdone, hshown]
    exact (h.lossless.last i hi hworker).imp_left (hreturned i)
  · rw [hreceived]
    unfold Receiver.readRbuf at hp
    split at hp
    · next i _ hi =>
      rcases List.mem_append.mp hp with hold | hnew
      · exact h.lossless.value p hold
      · rw [List.mem_singleton.mp hnew]
        exact (h.shown i hi).2
    · exact h.lossless.value p hp
  · rw [hreceived, hrbuf]
    exact h.shown i (hshown ▸ hi)
  · exact absurd (hwork ▸ hbyte) (hworker byte)
  · rw [hreceived] at hi
    rw [hdone] at htrue
    rcases h.lossless.last i hi hworker with hin | ⟨-, hlast⟩
    · exact hreturned i hin
    · rw [Receiver.readRbuf, htrue, hlast, List.map_append]
      exact List.mem_append_right _ (List.mem_singleton_self i)

end Receiver

/-! ## Transmitter -/

namespace Transmitter

variable {x : Transmitter} {cpu : Cpu} {lineInit initRaised : Bool}

/-- The invariant. A character that is owed has woken the worker. When the worker waits the
transmitter is ready, at the latest after the reset that is due. -/
structure Inv (x : Transmitter) (cpu : Cpu) (lineInit initRaised : Bool) : Prop where
  order : (x.sent.map Prod.fst).Pairwise (· < ·)
  value : ∀ p ∈ x.sent, x.written[p.1]? = some p.2
  kept : ∀ i < x.written.length, i ∈ x.sent.map Prod.fst ∨ i ∈ x.dropped ∨ x.owed = some i
  owed : ∀ i, x.owed = some i → x.worker = .woken ∧ x.bufferIndex = i ∧ x.ready = false ∧
    x.xmtReady = false ∧ ∀ c, cpu ≠ .xbufWritten c
  woken : x.worker = .woken → x.written[x.bufferIndex]? = some x.xmtBuffer ∧
    ∀ p ∈ x.sent, p.1 < x.bufferIndex
  idle : x.worker = .start ∨ x.worker = .waiting →
    x.xmtReady = true ∧ (x.ready = true ∨ initRaised = true)
  disabled : lineInit = true → initRaised = false → x.xmtIntrEnable = false

theorem Inv.lossless (h : Inv x cpu lineInit initRaised) : x.Lossless where
  order := h.order
  value := h.value
  all i hi := by
    rcases h.kept i hi with hsent | hdropped | howed
    · exact .inl hsent
    · exact .inr (.inl hdropped)
    · obtain ⟨hwoken, hindex, hready, -⟩ := h.owed i howed
      exact .inr (.inr ⟨hwoken, hindex, hready⟩)

theorem xcsrValue_ready (x : Transmitter) :
    (x.xcsrValue &&& XCSR_XMIT_RDY != 0) = x.xmtReady := by
  have hflags : ∀ a b c d : Bool, ((flag a XCSR_XMIT_RDY ||| flag b XCSR_XMIT_INT_ENB |||
      flag c XCSR_MAINT ||| flag d XCSR_BREAK) &&& XCSR_XMIT_RDY != 0) = a := by decide
  exact hflags ..

/-- XCSR follows `xmt_ready`. -/
theorem setXcsr_ready (x : Transmitter) : (x.setXcsr false).ready = x.xmtReady := by
  rw [ready, setXcsr, Bool.and_false, if_neg Bool.false_ne_true]
  exact xcsrValue_ready x

theorem setXcsr_ready_of_disabled (h : x.xmtIntrEnable = false) :
    (x.setXcsr lineInit).ready = x.xmtReady := by
  have hlevel : x.intrLevel = false := by rw [intrLevel, h, Bool.and_false]
  rw [ready, setXcsr, hlevel, Bool.and_false, Bool.false_and, if_neg Bool.false_ne_true]
  exact xcsrValue_ready x

/-- The CPU begins a cycle, to XBUF only when the transmitter is ready. -/
theorem Inv.setCpu (h : Inv x cpu lineInit initRaised) {cpu' : Cpu}
    (hcpu : ∀ c, cpu' = .xbufWritten c → x.ready = true) : Inv x cpu' lineInit initRaised :=
  { h with
    owed := fun i hi => by
      obtain ⟨hwoken, hindex, hready, hflag, -⟩ := h.owed i hi
      refine ⟨hwoken, hindex, hready, hflag, fun c hc => ?_⟩
      exact absurd (hready.symm.trans (hcpu c hc)) (by decide) }

/-- XCSR is written. -/
theorem Inv.evalXcsr (h : Inv x cpu false initRaised) (val : BitVec 16) :
    Inv ((x.evalXcsr false val).setXcsr false) cpu false initRaised where
  order := h.order
  value := h.value
  kept := h.kept
  owed i hi := by
    obtain ⟨hwoken, hindex, -, hflag, hcpu⟩ := h.owed i hi
    exact ⟨hwoken, hindex, (setXcsr_ready _).trans hflag, hflag, hcpu⟩
  woken := h.woken
  idle hidle := by
    have hflag := (h.idle hidle).1
    exact ⟨hflag, .inl ((setXcsr_ready _).trans hflag)⟩
  disabled := nofun

/-- A character is written to XBUF. -/
theorem Inv.writeXbuf {c : BitVec 8} (h : Inv x (.xbufWritten c) false initRaised)
    (hworker : x.worker = .waiting ∨ x.worker = .woken) :
    Inv (x.writeXbuf false c) .idle false initRaised := by
  have hlength : (x.writeXbuf false c).written.length = x.written.length + 1 :=
    List.length_append
  have hwoken : (x.writeXbuf false c).worker = .woken := by
    show (if x.worker = .waiting then XmtWorker.woken else x.worker) = .woken
    split
    · rfl
    · next hnot => exact hworker.resolve_left hnot
  have hbefore : ∀ p ∈ x.sent, p.1 < x.written.length := fun p hp =>
    (List.getElem?_eq_some_iff.mp (h.value p hp)).1
  refine ⟨h.order, fun p hp => ?_, fun i hi => ?_, fun i hi => ?_, fun _ => ⟨?_, hbefore⟩,
    fun hidle => ?_, nofun⟩
  · show (x.written ++ [c])[p.1]? = _
    rw [List.getElem?_append_left (hbefore p hp)]
    exact h.value p hp
  · rw [hlength] at hi
    by_cases hold : i < x.written.length
    · rcases h.kept i hold with hsent | hdropped | howed
      · exact .inl hsent
      · exact .inr (.inl hdropped)
      · exact absurd rfl ((h.owed i howed).2.2.2.2 c)
    · have hi' : x.written.length = i := by omega
      exact .inr (.inr (congrArg some hi'))
  · exact ⟨hwoken, Option.some.inj hi, setXcsr_ready _, rfl, nofun⟩
  · exact List.getElem?_concat_length
  · rw [hwoken] at hidle
    simp at hidle

/-- A write that INIT came in the way of. -/
theorem Inv.ignoreXbuf (h : Inv x cpu lineInit initRaised) (c : BitVec 8) {cpu' : Cpu}
    (hcpu : ∀ c, cpu' ≠ .xbufWritten c) : Inv (x.ignoreXbuf c) cpu' lineInit initRaised := by
  have hlength : (x.ignoreXbuf c).written.length = x.written.length + 1 := List.length_append
  have hkept : ∀ i b, x.written[i]? = some b → (x.written ++ [c])[i]? = some b := fun i b hb => by
    rw [List.getElem?_append_left (List.getElem?_eq_some_iff.mp hb).1]
    exact hb
  refine ⟨h.order, fun p hp => hkept _ _ (h.value p hp), fun i hi => ?_, fun i hi => ?_,
    fun hw => ⟨hkept _ _ (h.woken hw).1, (h.woken hw).2⟩, h.idle, h.disabled⟩
  · rw [hlength] at hi
    by_cases hold : i < x.written.length
    · rcases h.kept i hold with hsent | hdropped | howed
      · exact .inl hsent
      · exact .inr (.inl (List.mem_append_left _ hdropped))
      · exact .inr (.inr howed)
    · obtain rfl : i = x.written.length := by omega
      exact .inr (.inl (List.mem_append_right _ (List.mem_singleton_self _)))
  · obtain ⟨hwoken, hindex, hready, hflag, -⟩ := h.owed i hi
    exact ⟨hwoken, hindex, hready, hflag, hcpu⟩

/-- The worker sends the character in the buffer. -/
theorem Inv.send (h : Inv x cpu lineInit initRaised) (hworker : x.worker = .woken) :
    Inv x.send cpu lineInit initRaised := by
  obtain ⟨hbuffer, hbefore⟩ := h.woken hworker
  have hsent : x.send.sent.map Prod.fst = x.sent.map Prod.fst ++ [x.bufferIndex] :=
    List.map_append
  refine ⟨?_, fun p hp => ?_, fun i hi => ?_, nofun, nofun, fun hidle => ?_, h.disabled⟩
  · rw [hsent]
    refine List.pairwise_append.mpr ⟨h.order, List.pairwise_singleton _ _, fun i hi j hj => ?_⟩
    obtain ⟨p, hp, rfl⟩ := List.mem_map.mp hi
    rw [List.mem_singleton.mp hj]
    exact hbefore p hp
  · rcases List.mem_append.mp hp with hold | hnew
    · exact h.value p hold
    · rw [List.mem_singleton.mp hnew]
      exact hbuffer
  · rw [hsent]
    rcases h.kept i hi with hold | hdropped | howed
    · exact .inl (List.mem_append_left _ hold)
    · exact .inr (.inl hdropped)
    · refine .inl (List.mem_append_right _ ?_)
      rw [(h.owed i howed).2.1]
      exact List.mem_singleton_self i
  · simp [Transmitter.send] at hidle

/-- The worker goes on, with nothing owed. -/
theorem Inv.setWorker (h : Inv x cpu lineInit initRaised) (hold : x.worker ≠ .woken)
    {y : Transmitter} (hsent : y.sent = x.sent) (hwritten : y.written = x.written)
    (hdropped : y.dropped = x.dropped) (howed : y.owed = x.owed)
    (henable : y.xmtIntrEnable = x.xmtIntrEnable) (hnew : y.worker ≠ .woken)
    (hidle : y.worker = .start ∨ y.worker = .waiting →
      y.xmtReady = true ∧ (y.ready = true ∨ initRaised = true)) :
    Inv y cpu lineInit initRaised := by
  refine ⟨hsent ▸ h.order, ?_, ?_, fun i hi => ?_, fun hw => absurd hw hnew, hidle, ?_⟩
  · rw [hsent, hwritten]
    exact h.value
  · rw [hsent, hwritten, hdropped, howed]
    exact h.kept
  · exact absurd (h.owed i (howed ▸ hi)).1 hold
  · rw [henable]
    exact h.disabled

/-- The shifting is over. INIT may be asserted, but then the interrupt is disabled or the reset is
still to come. -/
theorem Inv.finishShift (h : Inv x cpu lineInit initRaised) (hworker : x.worker = .shifting) :
    Inv (x.finishShift lineInit) cpu lineInit initRaised := by
  refine h.setWorker (by rw [hworker]; decide) rfl rfl rfl rfl rfl nofun fun _ => ⟨rfl, ?_⟩
  cases lineInit with
  | false => exact .inl (setXcsr_ready _)
  | true =>
    cases initRaised with
    | true => exact .inr rfl
    | false => exact .inl (setXcsr_ready_of_disabled (h.disabled rfl rfl))

/-- INIT comes in the way of what is owed. -/
theorem Inv.busInit (h : Inv x cpu lineInit initRaised) :
    Inv x.busInit cpu lineInit initRaised := by
  refine ⟨h.order, h.value, fun i hi => ?_, nofun, h.woken,
    fun hidle => ⟨(h.idle hidle).1, .inl (by decide : XCSR_XMIT_RDY &&& XCSR_XMIT_RDY != 0)⟩,
    h.disabled⟩
  rcases h.kept i hi with hsent | hdropped | howed
  · exact .inl hsent
  · exact .inr (.inl (List.mem_append_left _ hdropped))
  · refine .inr (.inl (List.mem_append_right _ ?_))
    rw [howed]
    exact List.mem_singleton_self i

theorem reset_ready (x : Transmitter) : x.reset.ready = true := by
  show (XCSR_XMIT_RDY &&& XCSR_XMIT_RDY != 0) = true
  decide

theorem Inv.reset (h : Inv x cpu lineInit initRaised) {initRaised' : Bool} :
    Inv x.reset cpu lineInit initRaised' where
  order := h.order
  value := h.value
  kept := h.busInit.kept
  owed := nofun
  woken := h.woken
  idle _ := ⟨rfl, .inl x.reset_ready⟩
  disabled _ _ := rfl

end Transmitter

/-! ## The unit -/

structure Inv (s : State) : Prop where
  receiver : s.receiver.Inv s.cpu
  transmitter : s.transmitter.Inv s.cpu s.lineInit s.initRaised

variable {s t : State}

/-- A new cycle, which does not read RBUF. -/
theorem Inv.access (h : Inv s) (cpu : Cpu) (hread : cpu ≠ .rbufRead)
    (hready : ∀ c, cpu = .xbufWritten c → s.transmitter.ready = true)
    (hstep : s.access cpu = some t) : Inv t := by
  simp only [State.access] at hstep
  split at hstep
  · obtain rfl := Option.some.inj hstep
    exact ⟨h.receiver.setCpu hread, h.transmitter.setCpu hready⟩
  · cases hstep

theorem Inv.handle (h : Inv s) (hcareful : CarefulEvent s) (hstep : s.handle = some t) :
    Inv t := by
  simp only [State.handle, Option.ite_none_left_eq_some] at hstep
  obtain ⟨-, hstep⟩ := hstep
  have hidle : ∀ c, (Cpu.idle : Cpu) ≠ .xbufWritten c := nofun
  cases hinit : s.lineInit with
  | true =>
    -- The event is ignored.
    rw [if_pos hinit] at hstep
    split at hstep
    · cases hstep
    · next c hcpu =>
      obtain rfl := Option.some.inj hstep
      exact ⟨h.receiver.setCpu nofun, h.transmitter.ignoreXbuf c hidle⟩
    · obtain rfl := Option.some.inj hstep
      exact ⟨h.receiver.setCpu nofun, h.transmitter.setCpu nofun⟩
  | false =>
    rw [if_neg (by rw [hinit]; decide)] at hstep
    have hevent := hcareful hinit
    have hreceiver := h.receiver
    have htransmitter := h.transmitter
    rw [hinit] at htransmitter
    split at hstep
    · cases hstep
    · next val hcpu =>
      rw [hcpu] at hevent
      simp only [Option.ite_none_left_eq_some] at hstep
      obtain rfl := Option.some.inj hstep.2
      exact ⟨((hreceiver.evalRcsr _ hevent).setRcsr _).setCpu nofun, h.transmitter.setCpu nofun⟩
    · next hcpu =>
      simp only [Option.ite_none_left_eq_some] at hstep
      obtain rfl := Option.some.inj hstep.2
      exact ⟨(hreceiver.clearDone (.inr hcpu) _).setCpu nofun, h.transmitter.setCpu nofun⟩
    · next hcpu =>
      rw [hcpu] at hevent
      simp only [Option.ite_none_left_eq_some] at hstep
      obtain rfl := Option.some.inj hstep.2
      exact ⟨(hreceiver.clearDone (.inl hevent) _).setCpu nofun, h.transmitter.setCpu nofun⟩
    · next val hcpu =>
      simp only [Option.ite_none_left_eq_some] at hstep
      obtain rfl := Option.some.inj hstep.2
      refine ⟨hreceiver.setCpu nofun, ?_⟩
      have heval : Transmitter.Inv _ .idle false s.initRaised :=
        (htransmitter.evalXcsr val).setCpu nofun
      rw [← hinit] at heval
      exact heval
    · next c hcpu =>
      rw [hcpu] at hevent htransmitter
      simp only [Option.ite_none_left_eq_some] at hstep
      obtain rfl := Option.some.inj hstep.2
      refine ⟨hreceiver.setCpu nofun, ?_⟩
      have hwrite := htransmitter.writeXbuf hevent
      rw [← hinit] at hwrite
      exact hwrite

theorem Inv.step {a : Action} (h : Inv s) (hcareful : Careful s a)
    (hstep : Dl11.step s a = some t) : Inv t := by
  cases a with
  | readRbuf =>
    obtain ⟨u, hu, rfl⟩ := Option.map_eq_some_iff.mp hstep
    simp only [State.access] at hu
    split at hu
    · obtain rfl := Option.some.inj hu
      exact ⟨h.receiver.readRbuf hcareful, h.transmitter.setCpu nofun⟩
    · cases hu
  | writeRbuf => exact h.access .rbufWritten nofun nofun hstep
  | writeRcsr val => exact h.access (.rcsrWritten val) nofun nofun hstep
  | writeXcsr val => exact h.access (.xcsrWritten val) nofun nofun hstep
  | writeXbuf c => exact h.access (.xbufWritten c) nofun (fun _ _ => hcareful) hstep
  | handle => exact h.handle hcareful hstep
  | busInit =>
    obtain rfl := Option.some.inj hstep
    exact ⟨h.receiver.forget hcareful rfl rfl rfl rfl (.inl rfl), h.transmitter.busInit⟩
  | initEvent asserted =>
    simp only [Dl11.step, Option.ite_none_left_eq_some, Bool.not_eq_true] at hstep
    obtain ⟨hraised, hstep⟩ := hstep
    obtain rfl := Option.some.inj hstep
    refine ⟨h.receiver, { h.transmitter with idle := fun hidle => ?_, disabled := fun h1 h2 => ?_ }⟩
    · obtain ⟨hflag, hready⟩ := h.transmitter.idle hidle
      rw [hraised] at hready
      exact ⟨hflag, .inl (hready.resolve_right Bool.false_ne_true)⟩
    · exact absurd (h2.symm.trans h1) Bool.false_ne_true
  | reset =>
    simp only [Dl11.step, Option.ite_none_right_eq_some] at hstep
    obtain rfl := Option.some.inj hstep.2
    exact ⟨h.receiver.forget hcareful rfl rfl rfl rfl (.inl rfl), h.transmitter.reset⟩
  | power =>
    simp only [Dl11.step, Option.ite_none_left_eq_some] at hstep
    obtain rfl := Option.some.inj hstep.2
    exact ⟨h.receiver.forget hcareful rfl rfl rfl rfl (.inl rfl), h.transmitter.reset⟩
  | poll byte =>
    simp only [Dl11.step] at hstep
    split at hstep
    · next hworker =>
      simp only [Option.ite_none_left_eq_some] at hstep
      obtain rfl := Option.some.inj hstep.2
      exact ⟨h.receiver.setWorker (by simp [hworker]) nofun, h.transmitter⟩
    · cases hstep
  | store =>
    simp only [Dl11.step] at hstep
    split at hstep
    · next byte hworker =>
      obtain rfl := Option.some.inj hstep
      exact ⟨h.receiver.store (by simp [hworker]) hcareful.1, h.transmitter⟩
    · cases hstep
  | showRbuf =>
    simp only [Dl11.step] at hstep
    split at hstep
    · next byte hworker =>
      obtain rfl := Option.some.inj hstep
      exact ⟨h.receiver.showRbuf hworker hcareful, h.transmitter⟩
    · cases hstep
  | finishReceive =>
    simp only [Dl11.step] at hstep
    split at hstep
    · next hworker =>
      obtain rfl := Option.some.inj hstep
      have hold : ∀ byte, (s.receiver.setRcsr s.lineInit).worker ≠ .stored byte := by
        intro byte hbyte
        have hsame : s.receiver.worker = .stored byte := hbyte
        rw [hworker] at hsame
        cases hsame
      exact ⟨(h.receiver.setRcsr s.lineInit).setWorker hold nofun, h.transmitter⟩
    · cases hstep
  | xmtStart =>
    simp only [Dl11.step, Option.ite_none_right_eq_some] at hstep
    obtain ⟨hworker, hstep⟩ := hstep
    obtain rfl := Option.some.inj hstep
    exact ⟨h.receiver, h.transmitter.setWorker (by rw [hworker]; decide) rfl rfl rfl rfl rfl nofun
      fun _ => h.transmitter.idle (.inl hworker)⟩
  | spuriousWakeup => exact hcareful.elim
  | send =>
    simp only [Dl11.step, Option.ite_none_right_eq_some] at hstep
    obtain rfl := Option.some.inj hstep.2
    exact ⟨h.receiver, h.transmitter.send hstep.1⟩
  | clearReady =>
    simp only [Dl11.step, Option.ite_none_right_eq_some] at hstep
    obtain ⟨hworker, hstep⟩ := hstep
    obtain rfl := Option.some.inj hstep
    exact ⟨h.receiver, h.transmitter.setWorker (by rw [hworker]; decide) rfl rfl rfl rfl rfl nofun
      nofun⟩
  | startShift =>
    simp only [Dl11.step, Option.ite_none_right_eq_some] at hstep
    obtain ⟨hworker, hstep⟩ := hstep
    have hshift : Transmitter.Inv { s.transmitter with worker := .shifting } s.cpu s.lineInit
        s.initRaised :=
      h.transmitter.setWorker (by rw [hworker]; decide) rfl rfl rfl rfl rfl nofun nofun
    split at hstep
    · simp only [Option.ite_none_left_eq_some] at hstep
      obtain rfl := Option.some.inj hstep.2
      have hactive : Receiver.Inv { s.receiver with rcvActive := true } s.cpu :=
        ⟨⟨h.receiver.lossless.1, h.receiver.lossless.2, h.receiver.lossless.3⟩,
          h.receiver.shown, h.receiver.stored, h.receiver.read⟩
      exact ⟨hactive.setRcsr s.lineInit, hshift⟩
    · obtain rfl := Option.some.inj hstep
      exact ⟨h.receiver, hshift⟩
  | finishShift =>
    simp only [Dl11.step, Option.ite_none_right_eq_some] at hstep
    obtain rfl := Option.some.inj hstep.2
    exact ⟨h.receiver, h.transmitter.finishShift hstep.1⟩
  | setErrorBits enable =>
    obtain rfl := Option.some.inj hstep
    exact ⟨h.receiver, h.transmitter⟩

/-! ## Ready again -/

/-- Steps that neither the CPU nor the line has to make. -/
def Action.ofWorkers : Action → Bool
  | .reset | .showRbuf | .finishReceive | .send | .clearReady | .startShift | .finishShift => true
  | _ => false

/-- The actions one after the other. -/
def run (s : State) : List Action → Option State
  | [] => some s
  | a :: as => (Dl11.step s a).bind fun t => run t as

/-- The workers can make the transmitter ready in at most `n` steps. -/
def ReadyWithin (n : ℕ) (s : State) : Prop :=
  ∃ as t, (∀ a ∈ as, a.ofWorkers = true) ∧ as.length ≤ n ∧ run s as = some t ∧
    t.transmitter.ready = true

theorem ReadyWithin.of_ready (h : s.transmitter.ready = true) (n : ℕ) : ReadyWithin n s :=
  ⟨[], s, nofun, Nat.zero_le n, rfl, h⟩

theorem ReadyWithin.step {n : ℕ} (a : Action) (ha : a.ofWorkers = true)
    (hstep : Dl11.step s a = some t) (h : ReadyWithin n t) : ReadyWithin (n + 1) s := by
  obtain ⟨as, u, hworkers, hlength, hrun, hready⟩ := h
  refine ⟨a :: as, u, ?_, Nat.succ_le_succ hlength, ?_, hready⟩
  · rintro b (_ | ⟨_, hb⟩)
    · exact ha
    · exact hworkers b hb
  · rw [run, hstep]
    exact hrun

theorem ReadyWithin.mono {m n : ℕ} (h : ReadyWithin m s) (hmn : m ≤ n) : ReadyWithin n s := by
  obtain ⟨as, u, hworkers, hlength, hrest⟩ := h
  exact ⟨as, u, hworkers, le_trans hlength hmn, hrest⟩

/-- While INIT is asserted the interrupt is disabled. -/
def State.Disabled (s : State) : Prop := s.lineInit = true → s.transmitter.xmtIntrEnable = false

theorem readyWithin_of_shifting (h : s.Disabled) (hworker : s.transmitter.worker = .shifting) :
    ReadyWithin 1 s := by
  have hstep : Dl11.step s .finishShift =
      some (s.updateTransmitter fun x => x.finishShift s.lineInit) := by
    rw [Dl11.step, if_pos hworker]
  refine ReadyWithin.step .finishShift rfl hstep (ReadyWithin.of_ready ?_ 0)
  show (s.transmitter.finishShift s.lineInit).ready = true
  cases hinit : s.lineInit with
  | false => exact Transmitter.setXcsr_ready _
  | true => exact Transmitter.setXcsr_ready_of_disabled (h hinit)

/-- The receiver's mutex is free. -/
theorem readyWithin_of_unlocked (h : s.Disabled) (hworker : s.transmitter.worker = .cleared)
    (hfree : s.receiver.locked = false) : ReadyWithin 2 s := by
  cases hmaint : s.transmitter.xmtMaint with
  | false =>
    have hstep : Dl11.step s .startShift =
        some (s.updateTransmitter fun x => { x with worker := .shifting }) := by
      rw [Dl11.step, if_pos hworker, hmaint]
      rfl
    exact ReadyWithin.step .startShift rfl hstep (readyWithin_of_shifting h rfl)
  | true =>
    have hstep : Dl11.step s .startShift =
        some ((s.updateTransmitter fun x => { x with worker := .shifting }).updateReceiver
          fun r => ({ r with rcvActive := true } : Receiver).setRcsr s.lineInit) := by
      rw [Dl11.step, if_pos hworker, hmaint, hfree]
      rfl
    exact ReadyWithin.step .startShift rfl hstep (readyWithin_of_shifting h rfl)

/-- With loop back the transmitter waits for the receiver, which goes on by itself. -/
theorem readyWithin_of_cleared (h : s.Disabled) (hworker : s.transmitter.worker = .cleared) :
    ReadyWithin 4 s := by
  cases hreceiver : s.receiver.worker with
  | waiting | polled =>
    exact (readyWithin_of_unlocked h hworker (by rw [Receiver.locked, hreceiver])).mono (by decide)
  | shown =>
    have hstep : Dl11.step s .finishReceive = some (s.updateReceiver
        fun r => { r.setRcsr s.lineInit with worker := .waiting }) := by
      rw [Dl11.step, hreceiver]
    exact (ReadyWithin.step .finishReceive rfl hstep
      (readyWithin_of_unlocked h hworker rfl)).mono (by decide)
  | stored byte =>
    have hstep : Dl11.step s .showRbuf =
        some (s.updateReceiver fun r => r.showRbuf s.errorBitsEnable byte) := by
      rw [Dl11.step, hreceiver]
    exact ReadyWithin.step .showRbuf rfl hstep (ReadyWithin.step .finishReceive rfl rfl
      (readyWithin_of_unlocked h hworker rfl))

theorem readyWithin_of_sent (h : s.Disabled) (hworker : s.transmitter.worker = .sent) :
    ReadyWithin 5 s := by
  have hstep : Dl11.step s .clearReady =
      some (s.updateTransmitter fun x => x.clearReady s.lineInit) := by
    rw [Dl11.step, if_pos hworker]
  exact ReadyWithin.step .clearReady rfl hstep (readyWithin_of_cleared h rfl)

/-- Ready becomes set again. -/
theorem Inv.readyWithin (h : Inv s) : ReadyWithin 6 s := by
  cases hraised : s.initRaised with
  | true =>
    have hstep : Dl11.step s .reset = some { s.resetUnit with initRaised := false } := by
      rw [Dl11.step, if_pos hraised]
    exact ReadyWithin.step .reset rfl hstep
      (ReadyWithin.of_ready s.transmitter.reset_ready 5)
  | false =>
    have hdisabled : s.Disabled := fun hinit => h.transmitter.disabled hinit hraised
    have hidle := h.transmitter.idle
    rw [hraised] at hidle
    cases hworker : s.transmitter.worker with
    | start =>
      exact ReadyWithin.of_ready ((hidle (.inl hworker)).2.resolve_right Bool.false_ne_true) 6
    | waiting =>
      exact ReadyWithin.of_ready ((hidle (.inr hworker)).2.resolve_right Bool.false_ne_true) 6
    | woken =>
      have hstep : Dl11.step s .send = some (s.updateTransmitter Transmitter.send) := by
        rw [Dl11.step, if_pos hworker]
      exact ReadyWithin.step .send rfl hstep (readyWithin_of_sent hdisabled rfl)
    | sent => exact (readyWithin_of_sent hdisabled hworker).mono (by decide)
    | cleared => exact (readyWithin_of_cleared hdisabled hworker).mono (by decide)
    | shifting => exact (readyWithin_of_shifting hdisabled hworker).mono (by decide)

/-! ## Runs -/

/-- A read only clears `rcv_done` when the CPU has got the last character. -/
def DoneKept (s : State) : Prop :=
  ∀ t, s.cpu = .rbufRead → Dl11.step s .handle = some t → s.receiver.rcvDone = true →
    t.receiver.rcvDone = false →
      ∀ i, i + 1 = s.receiver.received.length → i ∈ s.receiver.returned.map Prod.fst

def Initial (s : State) : Prop := s = .initial

def CarefulStep (s t : State) : Prop := ∃ a, Careful s a ∧ Dl11.step s a = some t

theorem Inv.initial : Inv .initial where
  receiver := ⟨⟨by simp [State.initial], by simp [State.initial], nofun⟩, nofun, nofun, nofun⟩
  transmitter := by
    refine ⟨List.Pairwise.nil, nofun, by simp [State.initial], nofun, nofun,
      fun _ => ⟨rfl, .inl ?_⟩, nofun⟩
    show (XCSR_XMIT_RDY &&& XCSR_XMIT_RDY != 0) = true
    decide

/-- No character is lost silently in a run of careful steps. -/
theorem lossless_of_careful (h : Reachable Initial CarefulStep s) :
    s.receiver.Lossless ∧ s.transmitter.Lossless ∧ ReadyWithin 6 s ∧ DoneKept s := by
  have hinv : Inv s := by
    refine h.invariant (fun s hs => ?_) fun s t hs hst => ?_
    · rw [hs]
      exact Inv.initial
    · obtain ⟨a, hcareful, hstep⟩ := hst
      exact hs.step hcareful hstep
  exact ⟨hinv.receiver.lossless, hinv.transmitter.lossless, hinv.readyWithin,
    fun _ hcpu _ hdone _ => hinv.receiver.read hcpu hdone⟩

/-- A character is received and read, another one written and sent. -/
theorem lossless_of_careful_echo :
    ∃ s : State, s.receiver.received = [0x41] ∧ s.transmitter.sent = [(0, 0x42)] ∧
      s.receiver.Lossless ∧ s.transmitter.Lossless ∧ ReadyWithin 6 s ∧ DoneKept s := by
  have start : Reachable Initial CarefulStep .initial := .init rfl
  have polled := start.step ⟨.poll ⟨0x41, false⟩, trivial, rfl⟩
  have stored := polled.step ⟨.store, ⟨nofun, nofun⟩, rfl⟩
  have shown := stored.step ⟨.showRbuf, nofun, rfl⟩
  have finished := shown.step ⟨.finishReceive, trivial, rfl⟩
  have read := finished.step ⟨.readRbuf, nofun, rfl⟩
  have cleared := read.step ⟨.handle, fun _ => trivial, rfl⟩
  have waiting := cleared.step ⟨.xmtStart, trivial, rfl⟩
  have written := waiting.step ⟨.writeXbuf 0x42, (rfl : true = true), rfl⟩
  have woken := written.step ⟨.handle, fun _ => .inl rfl, rfl⟩
  have sent := woken.step ⟨.send, trivial, rfl⟩
  exact ⟨_, rfl, rfl, lossless_of_careful sent⟩

theorem run_reachable {as : List Action}
    (h : Reachable Initial (fun s t => ∃ a, Dl11.step s a = some t) s)
    (hrun : run s as = some t) :
    Reachable Initial (fun s t => ∃ a, Dl11.step s a = some t) t := by
  induction as generalizing s with
  | nil =>
    obtain rfl := Option.some.inj hrun
    exact h
  | cons a as ih =>
    obtain ⟨u, hu, hrest⟩ := Option.bind_eq_some_iff.mp hrun
    exact ih (h.step ⟨a, hu⟩) hrest

/-- A character comes in from the line. -/
def receives (c : BitVec 8) : List Action :=
  [.poll ⟨c, false⟩, .store, .showRbuf, .finishReceive]

/-- The second character comes in after the CPU has read the first one from RBUF, and before the
event of this read is handled. -/
def crossing : List Action :=
  receives 0x41 ++ [.readRbuf] ++ receives 0x42 ++ [.handle] ++ receives 0x43

/-- The read of the first character clears `rcv_done` for the second one, and the third one is
shown without an error. -/
theorem read_loses_next :
    ¬ ∀ s, Reachable Initial (fun s t => ∃ a, Dl11.step s a = some t) s →
      s.receiver.Lossless ∧ s.transmitter.Lossless ∧ ReadyWithin 6 s ∧ DoneKept s := by
  intro hall
  have hlog : (run .initial crossing).map (fun s => (s.receiver.received.length,
      s.receiver.returned.map Prod.fst, s.receiver.flagged)) = some (3, [0], [1]) := by decide
  obtain ⟨s, hrun, hs⟩ := Option.map_eq_some_iff.mp hlog
  obtain ⟨hlength, hrest⟩ := Prod.mk.inj hs
  obtain ⟨hreturned, hflagged⟩ := Prod.mk.inj hrest
  have hlossless := (hall s (run_reachable (.init rfl) hrun)).1.returned_or_flagged 1
  rw [hlength, hreturned, hflagged] at hlossless
  exact absurd (hlossless (by decide)) (by decide)

end QUniBone.Dl11
