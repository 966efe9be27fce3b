import QUniBone.Serial.Dl11
import QUniBone.Lib.Transition

/-!
# Received characters of the RS232 adapter

`rs232byte_rcv_poll` and `rs232byte_loopback` in `rs232adapter.cpp`, and `PollComport` in
`rs232.cpp`. The port marks errors as `termios(3)` does: `0xff 0 c` is an erroneous `c`, and
`0xff 0xff` is `0xff`.

* `pollComport`, `rcvRs232`, `rs232byteRcvPoll`: one call, with the answers of the port.
* `encode`: the bytes of a sequence of characters.
* `Careful`: the port delivers the rest of an escape sequence at once.
* `delivered_of_careful`: no character is lost, duplicated or altered.
* `escape_split`: an escape sequence in two parts fails an assertion.
-/

namespace QUniBone.TermiosDecoder

open Dl11 (Rs232Byte)
open Transition

/-! ## Model -/

abbrev Byte := BitVec 8

/-- What the port answers to `read`. -/
inductive Answer
  /-- the next byte, if there is one -/
  | byte
  /-- `EAGAIN` -/
  | empty
  | error
  deriving DecidableEq

/-- What `PollComport` leaves: its result, the buffer and the bytes still on the line. -/
structure Polled where
  n : ℤ
  c : Byte
  line : List Byte

/-- `PollComport(&c, 1)` -/
def pollComport (line : List Byte) (c : Byte) : Answer → Polled
  | .byte =>
    match line with
    | [] => ⟨0, c, []⟩
    | b :: rest => ⟨1, b, rest⟩
  | .empty => ⟨0, c, line⟩
  | .error => ⟨-1, c, line⟩

/-- The answers to the three calls of a poll. -/
structure Answers where
  first : Answer
  second : Answer
  third : Answer

/-- A failed assertion. -/
inductive Fault
  | assertion

/-- The branch for the port: what is received, and the bytes still on the line. -/
def rcvRs232 (encoding : Bool) (line : List Byte) (answers : Answers) :
    Except Fault (Option Rs232Byte × List Byte) :=
  -- `c_raw` is not read before it is written
  let p := pollComport line 0 answers.first
  if 0 < p.n then
    if encoding && p.c == 0xff then
      let q := pollComport p.line p.c answers.second
      -- next char after 0xff escape immediately available
      if q.n = 0 then .error .assertion
      else if q.c = 0 then
        let r := pollComport q.line q.c answers.third
        -- next char after 0xff 0 seq is data
        if r.n = 0 then .error .assertion
        else .ok (if 0 < r.n then some ⟨r.c, true⟩ else none, r.line)
      else if q.c = 0xff then .ok (if 0 < q.n then some ⟨0xff, false⟩ else none, q.line)
      -- received 0xff <stray> sequence
      else .ok (if 0 < q.n then some ⟨q.c, false⟩ else none, q.line)
    else .ok (some ⟨p.c, false⟩, p.line)
  else .ok (none, p.line)

/-- Where a character comes from. -/
inductive Source
  | rcvbuffer
  | rs232
  | stream

/-- The members of `rs232adapter_c` for received characters. -/
structure Adapter where
  rcvbuffer : List Rs232Byte
  rcvTermiosErrorEncoding : Bool
  /-- a port is assigned -/
  rs232 : Bool
  /-- the bytes on its line -/
  line : List Byte
  /-- the characters left in the stream, if one is assigned -/
  streamRcv : Option (List Byte)

/-- The branch for the stream. -/
def rcvStream (a : Adapter) : Option (Source × Rs232Byte) × Adapter :=
  match a.streamRcv with
  | some (c :: rest) => (some (.stream, ⟨c, false⟩), { a with streamRcv := some rest })
  | _ => (none, a)

/-- After the branch for the port: the stream is asked if the port gave nothing. -/
def afterRs232 (a : Adapter) : Option Rs232Byte × List Byte → Option (Source × Rs232Byte) × Adapter
  | (some x, line) => (some (.rs232, x), { a with line })
  | (none, line) => rcvStream { a with line }

def rs232byteRcvPoll (a : Adapter) (answers : Answers) :
    Except Fault (Option (Source × Rs232Byte) × Adapter) :=
  match a.rcvbuffer with
  | x :: rest => .ok (some (.rcvbuffer, x), { a with rcvbuffer := rest })
  | [] =>
    if a.rs232 then (rcvRs232 a.rcvTermiosErrorEncoding a.line answers).map (afterRs232 a)
    else .ok (rcvStream a)

def rs232byteLoopback (a : Adapter) (x : Rs232Byte) : Adapter :=
  { a with rcvbuffer := a.rcvbuffer ++ [x] }

/-! ## Characters and bytes -/

/-- The bytes of a character on the line. -/
def encodeByte (x : Rs232Byte) : List Byte :=
  if x.formatError then [0xff, 0, x.c] else if x.c = 0xff then [0xff, 0xff] else [x.c]

def encode (xs : List Rs232Byte) : List Byte := xs.flatMap encodeByte

/-- The adapter, and what has become of the characters. -/
structure State where
  adapter : Adapter
  /-- the characters that came on the line, and those that polls returned from it -/
  received : List Rs232Byte
  delivered : List Rs232Byte
  /-- the characters put in by loopback, and those that polls returned of them -/
  looped : List Rs232Byte
  returned : List Rs232Byte

inductive Action
  /-- a character comes on the line -/
  | receive (x : Rs232Byte)
  | poll (answers : Answers)
  | loopback (x : Rs232Byte)
  /-- the user assigns a stream -/
  | assign (stream : Option (List Byte))

/-- The logs after a poll. -/
def State.log (s : State) (a : Adapter) : Option (Source × Rs232Byte) → State
  | some (.rcvbuffer, x) => { s with adapter := a, returned := s.returned ++ [x] }
  | some (.rs232, x) => { s with adapter := a, delivered := s.delivered ++ [x] }
  | _ => { s with adapter := a }

def step (s : State) : Action → Except Fault State
  | .receive x =>
    .ok { s with
      adapter := { s.adapter with line := s.adapter.line ++ encodeByte x }
      received := s.received ++ [x] }
  | .poll answers => (rs232byteRcvPoll s.adapter answers).map fun r => s.log r.2 r.1
  | .loopback x =>
    .ok { s with
      adapter := rs232byteLoopback s.adapter x
      looped := s.looped ++ [x] }
  | .assign stream => .ok { s with adapter := { s.adapter with streamRcv := stream } }

/-- Nothing has been received, and errors are encoded. -/
def Initial (s : State) : Prop :=
  s.adapter.rcvTermiosErrorEncoding = true ∧ s.adapter.rcvbuffer = [] ∧ s.adapter.line = [] ∧
    s.received = [] ∧ s.delivered = [] ∧ s.looped = [] ∧ s.returned = []

/-- Polls return the characters in their order, and what they have not returned is still there. -/
structure Delivered (s : State) : Prop where
  received : ∃ rest, s.received = s.delivered ++ rest ∧ s.adapter.line = encode rest
  looped : s.looped = s.returned ++ s.adapter.rcvbuffer

/-- If a poll reads `0xff`, the port delivers the other bytes of the sequence. -/
def Careful (s : State) : Action → Prop
  | .poll answers => s.adapter.rcvbuffer = [] → s.adapter.rs232 = true → answers.first = .byte →
      s.adapter.line.head? = some 0xff → answers.second = .byte ∧
        (s.adapter.line[1]? = some 0 → answers.third = .byte)
  | _ => True

/-! ## One poll of the port -/

section Port

variable {line : List Byte} {c : Byte} {encoding : Bool} {answers : Answers}
variable {x : Rs232Byte} {rest : List Rs232Byte}

@[simp] theorem pollComport_byte {b : Byte} :
    pollComport (b :: line) c .byte = ⟨1, b, line⟩ := rfl

@[simp] theorem pollComport_empty : pollComport line c .empty = ⟨0, c, line⟩ := rfl

@[simp] theorem pollComport_error : pollComport line c .error = ⟨-1, c, line⟩ := rfl

@[simp] theorem pollComport_nil : pollComport [] c .byte = ⟨0, c, []⟩ := rfl

theorem encode_cons : encode (x :: rest) = encodeByte x ++ encode rest := List.flatMap_cons

theorem encode_append (xs : List Rs232Byte) : encode (xs ++ [x]) = encode xs ++ encodeByte x := by
  rw [encode, List.flatMap_append, List.flatMap_singleton, encode]

/-- Without a byte to start with nothing happens. -/
theorem rcvRs232_none (h : answers.first ≠ .byte ∨ line = []) :
    rcvRs232 encoding line answers = .ok (none, line) := by
  have hn : ¬0 < (pollComport line 0 answers.first).n ∧
      (pollComport line 0 answers.first).line = line := by
    cases hfirst : answers.first with
    | byte =>
      obtain rfl := h.resolve_left (not_not_intro hfirst)
      exact ⟨Int.lt_irrefl 0, rfl⟩
    | empty => exact ⟨Int.lt_irrefl 0, rfl⟩
    | error => exact ⟨by simp, rfl⟩
  rw [rcvRs232, if_neg hn.1, hn.2]

/-- The port delivers the other bytes of an escape sequence. -/
def Answers.Complete (answers : Answers) (x : Rs232Byte) : Prop :=
  (x.formatError = true ∨ x.c = 0xff → answers.second = .byte) ∧
    (x.formatError = true → answers.third = .byte)

/-- A complete sequence is decoded. -/
theorem rcvRs232_complete (hfirst : answers.first = .byte) (h : answers.Complete x) :
    rcvRs232 true (encode (x :: rest)) answers = .ok (some x, encode rest) := by
  obtain ⟨c, formatError⟩ := x
  rw [encode_cons]
  cases formatError with
  | true =>
    have hsecond := h.1 (.inl rfl)
    have hthird := h.2 rfl
    simp [rcvRs232, encodeByte, hfirst, hsecond, hthird]
  | false =>
    by_cases hc : c = 0xff
    · have hsecond := h.1 (.inr hc)
      simp [rcvRs232, encodeByte, hfirst, hsecond, hc]
    · have hplain : encodeByte ⟨c, false⟩ = [c] := if_neg hc
      have hne : ¬c = 255#8 := hc
      rw [hplain]
      simp [rcvRs232, hfirst, hne]

/-- Of an incomplete sequence the assertion fails, or some of its bytes are lost. -/
theorem rcvRs232_incomplete (rest : List Rs232Byte) (hfirst : answers.first = .byte) (h : ¬answers.Complete x) :
    rcvRs232 true (encode (x :: rest)) answers = .error .assertion ∨
      ∃ line, rcvRs232 true (encode (x :: rest)) answers = .ok (none, line) ∧
        line.length < (encode (x :: rest)).length := by
  obtain ⟨c, formatError⟩ := x
  rw [encode_cons]
  cases formatError with
  | true =>
    cases hsecond : answers.second with
    | byte =>
      cases hthird : answers.third with
      | byte => exact absurd ⟨fun _ => hsecond, fun _ => hthird⟩ h
      | empty =>
        left
        simp [rcvRs232, encodeByte, hfirst, hsecond, hthird]
      | error =>
        right
        simp [rcvRs232, encodeByte, hfirst, hsecond, hthird]
    | empty =>
      left
      simp [rcvRs232, encodeByte, hfirst, hsecond]
    | error =>
      right
      simp [rcvRs232, encodeByte, hfirst, hsecond]
  | false =>
    by_cases hc : c = 0xff
    · cases hsecond : answers.second with
      | byte => exact absurd ⟨fun _ => hsecond, fun h => absurd h Bool.false_ne_true⟩ h
      | empty =>
        left
        simp [rcvRs232, encodeByte, hfirst, hsecond, hc]
      | error =>
        right
        simp [rcvRs232, encodeByte, hfirst, hsecond, hc]
    · -- a plain character is complete with its first byte
      refine absurd ⟨fun hor => ?_, fun h => absurd h Bool.false_ne_true⟩ h
      exact hor.elim (fun h => absurd h Bool.false_ne_true) (fun h => absurd h hc)

end Port

/-! ## Runs -/

section Runs

variable {s t : State} {answers : Answers} {x : Rs232Byte} {rest : List Rs232Byte}

/-- What stays as it is in all calls, and what they keep when they are careful. -/
structure Inv (s : State) : Prop extends Delivered s where
  encoding : s.adapter.rcvTermiosErrorEncoding = true

theorem Inv.initial (h : Initial s) : Inv s := by
  obtain ⟨hencoding, hbuffer, hline, hreceived, hdelivered, hlooped, hreturned⟩ := h
  refine ⟨⟨⟨[], ?_, hline⟩, ?_⟩, hencoding⟩
  · rw [hreceived, hdelivered]
    rfl
  · rw [hlooped, hreturned, hbuffer]
    rfl

/-- The condition in terms of the next character of the line. -/
theorem careful_poll_iff (hline : s.adapter.line = encode (x :: rest))
    (hbuffer : s.adapter.rcvbuffer = []) (hrs232 : s.adapter.rs232 = true)
    (hfirst : answers.first = .byte) : Careful s (.poll answers) ↔ answers.Complete x := by
  have hcareful : Careful s (.poll answers) ↔ (s.adapter.line.head? = some 0xff →
      answers.second = .byte ∧ (s.adapter.line[1]? = some 0 → answers.third = .byte)) :=
    ⟨fun h => h hbuffer hrs232 hfirst, fun h _ _ _ => h⟩
  rw [hcareful, hline, encode_cons, Answers.Complete]
  obtain ⟨c, formatError⟩ := x
  cases formatError with
  | true => simp [encodeByte]
  | false =>
    by_cases hc : c = 0xff
    · simp [encodeByte, hc]
    · have hplain : encodeByte ⟨c, false⟩ = [c] := if_neg hc
      have hne : ¬c = 255#8 := hc
      rw [hplain]
      simp [hne]

/-- A character of the stream is in no log. -/
theorem log_rcvStream (s : State) (a : Adapter) :
    ∃ stream, s.log (rcvStream a).2 (rcvStream a).1 =
      { s with adapter := { a with streamRcv := stream } } := by
  obtain ⟨rcvbuffer, encoding, rs232, line, stream⟩ := a
  cases stream with
  | none => exact ⟨none, rfl⟩
  | some cs =>
    cases cs with
    | nil => exact ⟨some [], rfl⟩
    | cons c cs => exact ⟨some cs, rfl⟩

theorem step_poll_buffer {xs : List Rs232Byte} (hbuffer : s.adapter.rcvbuffer = x :: xs) :
    step s (.poll answers) = .ok { s with
      adapter := { s.adapter with rcvbuffer := xs }, returned := s.returned ++ [x] } := by
  rw [step, rs232byteRcvPoll, hbuffer]
  rfl

theorem step_poll_rs232 (hbuffer : s.adapter.rcvbuffer = []) (hrs232 : s.adapter.rs232 = true) :
    step s (.poll answers) =
      ((rcvRs232 s.adapter.rcvTermiosErrorEncoding s.adapter.line answers).map
        (afterRs232 s.adapter)).map fun r => s.log r.2 r.1 := by
  rw [step, rs232byteRcvPoll, hbuffer]
  show (if s.adapter.rs232 = true then _ else _ : Except Fault _).map _ = _
  rw [if_pos hrs232]

/-- The port gives a character. -/
theorem step_poll_some {line : List Byte} (hbuffer : s.adapter.rcvbuffer = [])
    (hrs232 : s.adapter.rs232 = true)
    (hrcv : rcvRs232 s.adapter.rcvTermiosErrorEncoding s.adapter.line answers =
      .ok (some x, line)) :
    step s (.poll answers) = .ok { s with
      adapter := { s.adapter with line }, delivered := s.delivered ++ [x] } := by
  rw [step_poll_rs232 hbuffer hrs232, hrcv]
  rfl

/-- The port gives nothing. -/
theorem step_poll_none {line : List Byte} (hbuffer : s.adapter.rcvbuffer = [])
    (hrs232 : s.adapter.rs232 = true)
    (hrcv : rcvRs232 s.adapter.rcvTermiosErrorEncoding s.adapter.line answers = .ok (none, line)) :
    ∃ stream, step s (.poll answers) =
      .ok { s with adapter := { s.adapter with line, streamRcv := stream } } := by
  obtain ⟨stream, hstream⟩ := log_rcvStream s { s.adapter with line }
  refine ⟨stream, ?_⟩
  rw [step_poll_rs232 hbuffer hrs232, hrcv, ← hstream]
  rfl

theorem step_poll_detached (answers : Answers) (hbuffer : s.adapter.rcvbuffer = []) (hrs232 : s.adapter.rs232 ≠ true) :
    ∃ stream, step s (.poll answers) =
      .ok { s with adapter := { s.adapter with streamRcv := stream } } := by
  obtain ⟨stream, hstream⟩ := log_rcvStream s s.adapter
  refine ⟨stream, ?_⟩
  rw [step, rs232byteRcvPoll, hbuffer, ← hstream]
  show (if s.adapter.rs232 = true then _ else _ : Except Fault _).map _ = _
  rw [if_neg hrs232]
  rfl

/-- A careful poll of the port returns the next character. -/
theorem Inv.poll_byte (h : Inv s) (hbuffer : s.adapter.rcvbuffer = [])
    (hrs232 : s.adapter.rs232 = true) (hfirst : answers.first = .byte)
    (hreceived : s.received = s.delivered ++ x :: rest)
    (hcareful : Careful s (.poll answers)) :
    step s (.poll answers) = .ok { s with
      adapter := { s.adapter with line := encode rest }, delivered := s.delivered ++ [x] } := by
  obtain ⟨rest', hrest, hline⟩ := h.received
  obtain rfl : x :: rest = rest' := List.append_cancel_left (hreceived.symm.trans hrest)
  refine step_poll_some hbuffer hrs232 ?_
  rw [h.encoding, hline]
  exact rcvRs232_complete hfirst ((careful_poll_iff hline hbuffer hrs232 hfirst).mp hcareful)

/-- What a poll without a character from the port leaves. -/
theorem Inv.poll_none (h : Inv s) (hnone : answers.first ≠ .byte ∨ s.adapter.line = [])
    (hbuffer : s.adapter.rcvbuffer = []) (hrs232 : s.adapter.rs232 = true) :
    ∃ t, step s (.poll answers) = .ok t ∧ Inv t := by
  obtain ⟨stream, hstep⟩ := step_poll_none hbuffer hrs232 (rcvRs232_none hnone)
  exact ⟨_, hstep, ⟨h.received, h.looped⟩, h.encoding⟩

theorem Inv.poll (h : Inv s) (hcareful : Careful s (.poll answers)) :
    ∃ t, step s (.poll answers) = .ok t ∧ Inv t := by
  cases hbuffer : s.adapter.rcvbuffer with
  | cons x xs =>
    refine ⟨_, step_poll_buffer hbuffer, ⟨h.received, ?_⟩, h.encoding⟩
    rw [h.looped, hbuffer, List.append_assoc]
    rfl
  | nil =>
    by_cases hrs232 : s.adapter.rs232 = true
    · obtain ⟨rest, hreceived, hline⟩ := h.received
      by_cases hfirst : answers.first = .byte
      · cases rest with
        | nil => exact h.poll_none (.inr hline) hbuffer hrs232
        | cons x rest =>
          refine ⟨_, h.poll_byte hbuffer hrs232 hfirst hreceived hcareful,
            ⟨⟨rest, ?_, rfl⟩, h.looped⟩, h.encoding⟩
          rw [hreceived, List.append_assoc]
          rfl
      · exact h.poll_none (.inl hfirst) hbuffer hrs232
    · obtain ⟨stream, hstep⟩ := step_poll_detached answers hbuffer hrs232
      exact ⟨_, hstep, ⟨h.received, h.looped⟩, h.encoding⟩

/-- A careful call returns, and keeps the invariant. -/
theorem Inv.step (h : Inv s) {a : Action} (hcareful : Careful s a) :
    ∃ t, step s a = .ok t ∧ Inv t := by
  cases a with
  | receive x =>
    obtain ⟨rest, hreceived, hline⟩ := h.received
    refine ⟨_, rfl, ⟨⟨rest ++ [x], ?_, ?_⟩, h.looped⟩, h.encoding⟩
    · show s.received ++ [x] = _
      rw [hreceived, List.append_assoc]
    · show s.adapter.line ++ encodeByte x = _
      rw [hline, encode_append]
  | poll answers => exact h.poll hcareful
  | loopback x =>
    refine ⟨_, rfl, ⟨h.received, ?_⟩, h.encoding⟩
    show s.looped ++ [x] = _ ++ (_ ++ [x])
    rw [h.looped, List.append_assoc]
  | assign stream => exact ⟨_, rfl, ⟨h.received, h.looped⟩, h.encoding⟩

/-- A call that is not careful fails, or loses bytes of a character. -/
theorem Inv.not_careful (h : Inv s) {a : Action} (hcareful : ¬Careful s a) :
    ¬∃ t, TermiosDecoder.step s a = .ok t ∧ Delivered t := by
  cases a with
  | poll answers =>
    have hall := hcareful
    simp only [Careful, Classical.not_imp] at hall
    obtain ⟨hbuffer, hrs232, hfirst, hhead, -⟩ := hall
    obtain ⟨rest, hreceived, hline⟩ := h.received
    cases rest with
    | nil =>
      rw [hline] at hhead
      cases hhead
    | cons x rest =>
      rw [careful_poll_iff hline hbuffer hrs232 hfirst] at hcareful
      rintro ⟨t, ht, hdelivered⟩
      rcases rcvRs232_incomplete rest hfirst hcareful with hfault | ⟨line, hrcv, hlt⟩
      · rw [step_poll_rs232 hbuffer hrs232, h.encoding, hline, hfault] at ht
        cases ht
      · rw [← hline, ← h.encoding] at hrcv
        obtain ⟨stream, hstep⟩ := step_poll_none hbuffer hrs232 hrcv
        obtain rfl := Except.ok.inj (hstep.symm.trans ht)
        -- the same characters are to be delivered, from fewer bytes
        obtain ⟨rest', hrest', hline'⟩ := hdelivered.received
        obtain rfl : x :: rest = rest' := List.append_cancel_left (hreceived.symm.trans hrest')
        have hsame : line = encode (x :: rest) := hline'
        rw [hsame] at hlt
        exact Nat.lt_irrefl _ hlt
  | receive x => exact absurd trivial hcareful
  | loopback x => exact absurd trivial hcareful
  | assign stream => exact absurd trivial hcareful

end Runs

/-- In each state reached by careful calls the characters are delivered in their order, a poll of
the port returns the next one, and a call keeps this iff it is careful. -/
theorem delivered_of_careful {s : State}
    (h : Reachable Initial (fun s t => ∃ a, Careful s a ∧ step s a = .ok t) s) :
    Delivered s ∧
      (∀ a, (∃ t, step s a = .ok t ∧ Delivered t) ↔ Careful s a) ∧
      ∀ answers x rest, Careful s (.poll answers) → answers.first = .byte →
        s.adapter.rcvbuffer = [] → s.adapter.rs232 = true →
        s.received = s.delivered ++ x :: rest →
        ∃ t, step s (.poll answers) = .ok t ∧ t.delivered = s.delivered ++ [x] := by
  have hinv : Inv s := by
    refine h.invariant (fun s => Inv.initial) (fun s t hs hstep => ?_)
    obtain ⟨a, hcareful, hstep⟩ := hstep
    obtain ⟨u, hu, hinv⟩ := hs.step hcareful
    obtain rfl := Except.ok.inj (hu.symm.trans hstep)
    exact hinv
  refine ⟨hinv.toDelivered, fun a => ⟨fun hkept => ?_, fun hcareful => ?_⟩,
    fun answers x rest hcareful hfirst hbuffer hrs232 hreceived => ?_⟩
  · by_contra hcareful
    exact hinv.not_careful hcareful hkept
  · obtain ⟨t, ht, hnext⟩ := hinv.step hcareful
    exact ⟨t, ht, hnext.toDelivered⟩
  · exact ⟨_, hinv.poll_byte hbuffer hrs232 hfirst hreceived hcareful, rfl⟩

/-- A port is assigned, and nothing has come yet. -/
def State.initial : State where
  adapter := ⟨[], true, true, [], none⟩
  received := []
  delivered := []
  looped := []
  returned := []

/-- All bytes are there. -/
def atOnce : Answers := ⟨.byte, .byte, .byte⟩

/-- An erroneous `A` and `0xff` come on the line, and `B` by loopback. -/
theorem delivered_of_careful_mixed :
    ∃ s : State, s.delivered = [⟨0x41, true⟩, ⟨0xff, false⟩] ∧ s.returned = [⟨0x42, false⟩] ∧
      Delivered s ∧ (∀ a, (∃ t, step s a = .ok t ∧ Delivered t) ↔ Careful s a) ∧
      ∀ answers x rest, Careful s (.poll answers) → answers.first = .byte →
        s.adapter.rcvbuffer = [] → s.adapter.rs232 = true →
        s.received = s.delivered ++ x :: rest →
        ∃ t, step s (.poll answers) = .ok t ∧ t.delivered = s.delivered ++ [x] := by
  have start : Reachable Initial (fun s t => ∃ a, Careful s a ∧ step s a = .ok t) .initial :=
    .init ⟨rfl, rfl, rfl, rfl, rfl, rfl, rfl⟩
  have marked := start.step ⟨.receive ⟨0x41, true⟩, trivial, rfl⟩
  have escaped := marked.step ⟨.receive ⟨0xff, false⟩, trivial, rfl⟩
  have decoded := escaped.step ⟨.poll atOnce, fun _ _ _ _ => ⟨rfl, fun _ => rfl⟩, rfl⟩
  have looped := decoded.step ⟨.loopback ⟨0x42, false⟩, trivial, rfl⟩
  have returned := looped.step ⟨.poll atOnce, fun _ _ _ _ => ⟨rfl, fun _ => rfl⟩, rfl⟩
  have all := returned.step ⟨.poll atOnce, fun _ _ _ _ => ⟨rfl, fun _ => rfl⟩, rfl⟩
  exact ⟨_, rfl, rfl, delivered_of_careful all⟩

/-- `0xff` is received, and its second byte is not there when the first is read. -/
theorem escape_split :
    ¬∀ s, Reachable Initial (fun s t => ∃ a, step s a = .ok t) s →
      Delivered s ∧ ∀ a, ∃ t, step s a = .ok t := by
  intro hall
  have start : Reachable Initial (fun s t => ∃ a, step s a = .ok t) .initial :=
    .init ⟨rfl, rfl, rfl, rfl, rfl, rfl, rfl⟩
  have received := start.step ⟨.receive ⟨0xff, false⟩, rfl⟩
  obtain ⟨t, ht⟩ := (hall _ received).2 (.poll ⟨.byte, .empty, .byte⟩)
  cases ht

end QUniBone.TermiosDecoder
