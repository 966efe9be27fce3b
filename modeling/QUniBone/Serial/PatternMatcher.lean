import QUniBone.Lib.CString
import QUniBone.Lib.Loop
import QUniBone.Lib.Transition
import Mathlib.Data.BitVec

/-!
# Pattern matcher of the RS232 adapter

`rs232byte_xmt_send` and `set_pattern` in `rs232adapter.cpp`. The last bytes sent are kept as a C
string, which grows to the length of the pattern, and is searched after each byte.

* `Adapter`, `rs232byteXmtSend`, `setPattern`: the buffers and what is done with them.
* `Reference`, `Occurred`: what was sent, and where the pattern ends in it.
* `Careful`: no zero is sent into a window, and no byte behind a full one.
* `matched_of_careful`: the pattern is then found iff it occurred.
* `zero_joins`: a zero is lost, and what stands around it is joined.
-/

namespace QUniBone.Rs232adapter

open CString Transition

/-! ## Model -/

abbrev Byte := BitVec 8

def patternMaxLen : ℕ := 256

/-- Why a call does not return. -/
inductive Fault
  | assertion
  /-- a string without an end in its buffer -/
  | outOfRange
  | endless

/-- The members of `rs232adapter_c` for pattern detection. Both buffers have `patternMaxLen + 1`
cells. -/
structure Adapter where
  pattern : ℕ → Byte
  patternStreamData : ℕ → Byte
  /-- switches true on match, user must clear -/
  patternFound : Bool

/-- `strlen` of one of the buffers -/
def strlenOf (s : ℕ → Byte) : Except Fault ℕ :=
  match strlen (patternMaxLen + 1) s with
  | some n => .ok n
  | none => .error .outOfRange

/-- One test of the loop that strips the first character, and its body. -/
def stripFirst (n : ℕ) (s : ℕ → Byte) : Except Fault (ℕ → Byte) ⊕ (ℕ → Byte) :=
  match strlenOf s with
  | .error e => .inl (.error e)
  | .ok m => if n < m then .inr (memmove s 0 1 m) else .inl (.ok s)

/-- Only keep the last chars in buffer. -/
def keepLast (n : ℕ) (s : ℕ → Byte) : Except Fault (ℕ → Byte) :=
  match Loop.run (stripFirst n) (patternMaxLen + 2) s with
  | some r => r
  | none => .error .endless

def rs232byteXmtSend (a : Adapter) (c : Byte) : Except Fault Adapter := do
  let n ← strlenOf a.pattern
  if n = 0 then return a
  let m ← strlenOf a.patternStreamData
  -- `assert(m < pattern_max_len)`
  if patternMaxLen ≤ m then throw .assertion
  -- the zero goes to cell `m + 1`, which the assertion keeps in the buffer
  let s := Function.update (Function.update a.patternStreamData m c) (m + 1) 0
  let s ← keepLast n s
  let m ← strlenOf s
  return { a with
    patternStreamData := s
    patternFound := a.patternFound || strstr s m a.pattern n }

def setPattern (a : Adapter) (p : Text Byte) : Adapter where
  pattern := strncpy a.pattern p.val patternMaxLen
  patternStreamData := Function.update a.patternStreamData 0 0
  patternFound := false

/-! ## Reference -/

/-- What was called for. -/
structure Reference where
  /-- the argument of the last `set_pattern` -/
  pattern : List Byte
  /-- the bytes sent since then -/
  sent : List Byte
  /-- the number of bytes sent when the user cleared `pattern_found` -/
  cleared : ℕ

/-- A pattern, of one character at least, ends in `sent` behind the first `cleared` bytes. -/
def Occurred (p sent : List Byte) (cleared : ℕ) : Prop :=
  p ≠ [] ∧ ∃ l, cleared < l ∧ l ≤ sent.length ∧ p <:+ sent.take l

structure State where
  adapter : Adapter
  reference : Reference

inductive Action
  | setPattern (p : Text Byte)
  | send (c : Byte)
  /-- the user clears `pattern_found` -/
  | clear

def step (s : State) : Action → Except Fault State
  | .setPattern p =>
    .ok { adapter := setPattern s.adapter p, reference := ⟨p.val, [], 0⟩ }
  | .send c => do
    let a ← rs232byteXmtSend s.adapter c
    return ⟨a, { s.reference with sent := s.reference.sent ++ [c] }⟩
  | .clear =>
    .ok { adapter := { s.adapter with patternFound := false }
          reference := { s.reference with cleared := s.reference.sent.length } }

/-- After the constructor: the other cells of the buffers hold anything. -/
def Initial (s : State) : Prop :=
  s.adapter.pattern 0 = 0 ∧ s.adapter.patternStreamData 0 = 0 ∧ s.adapter.patternFound = false ∧
    s.reference = ⟨[], [], 0⟩

/-- A pattern that fits is found iff it occurred. -/
def Matched (s : State) : Prop :=
  s.reference.pattern.length ≤ patternMaxLen →
    (s.adapter.patternFound = true ↔
      Occurred s.reference.pattern s.reference.sent s.reference.cleared)

/-- While a pattern is set, a zero is only sent when the window is empty, and no byte is sent when
the window has 256 bytes. A pattern of 256 characters or more finds a zero behind its buffer's
first 256 cells. -/
def Careful (s : State) : Action → Prop
  | .setPattern p => p.val.length < patternMaxLen ∨ s.adapter.pattern patternMaxLen = 0
  | .send c => s.adapter.pattern 0 ≠ 0 →
      (c = 0 → s.adapter.patternStreamData 0 = 0) ∧
        strlen (patternMaxLen + 1) s.adapter.patternStreamData ≠ some patternMaxLen
  | .clear => True

/-! ## The window -/

/-- `w` are the last `n` bytes of `sent`, or all of them behind a zero. -/
structure Window (n : ℕ) (sent w : List Byte) : Prop where
  length_le : w.length ≤ n
  split : ∃ old, sent = old ++ w ∧ (w.length < n → ∀ b ∈ old.getLast?, b = 0)

/-- The window after one more byte. -/
def slide (n : ℕ) (w : List Byte) (c : Byte) : List Byte :=
  if c = 0 then [] else (w ++ [c]).drop (w.length + 1 - n)

theorem window_nil (n : ℕ) : Window n [] [] where
  length_le := Nat.zero_le _
  split := ⟨[], rfl, fun _ b hb => by cases hb⟩

theorem length_slide_le {n : ℕ} {w : List Byte} {c : Byte} : (slide n w c).length ≤ n := by
  rw [slide]
  split
  · exact Nat.zero_le _
  · rw [List.length_drop, List.length_append, List.length_singleton]
    omega

namespace Window

variable {n : ℕ} {sent w p : List Byte} {c : Byte}

theorem slide (h : Window n sent w) (hn : 0 < n) : Window n (sent ++ [c]) (slide n w c) where
  length_le := length_slide_le
  split := by
    obtain ⟨old, rfl, hold⟩ := h.split
    have hw := h.length_le
    rw [Rs232adapter.slide]
    split
    · -- behind a zero the window starts again
      next hzero =>
      refine ⟨old ++ w ++ [c], by simp, fun _ b hb => ?_⟩
      rw [List.getLast?_concat, Option.mem_some_iff] at hb
      rw [← hb, hzero]
    · by_cases hfull : w.length < n
      · -- the window grows
        rw [show w.length + 1 - n = 0 by omega, List.drop_zero]
        exact ⟨old, by rw [List.append_assoc], fun _ => hold hfull⟩
      · -- the first byte leaves the window
        refine ⟨old ++ (w ++ [c]).take (w.length + 1 - n), ?_, fun hlt => ?_⟩
        · rw [List.append_assoc, List.append_assoc, List.take_append_drop]
        · rw [List.length_drop, List.length_append, List.length_singleton] at hlt
          omega

/-- A pattern of `n` characters is in the window iff it ends the bytes sent. -/
theorem infix_iff (h : Window n sent w) (hlength : p.length = n) (hp : ∀ c ∈ p, c ≠ 0) :
    p <:+: w ↔ p <:+ sent := by
  obtain ⟨old, rfl, hold⟩ := h.split
  have hw := h.length_le
  constructor
  · intro hin
    rw [hin.eq_of_length_le (by omega)]
    exact List.suffix_append old w
  · intro hsuffix
    have hwp : w <:+ p :=
      List.suffix_of_suffix_length_le (List.suffix_append old w) hsuffix (by omega)
    obtain ⟨q, rfl⟩ := hwp
    obtain hlt | heq : w.length < n ∨ w.length = n := by omega
    · -- the character before the window would be the zero
      exfalso
      rw [List.length_append] at hlength
      have hqold : q <:+ old := by
        obtain ⟨r, hr⟩ := hsuffix
        exact ⟨r, List.append_cancel_right ((List.append_assoc r q w).trans hr)⟩
      have hq : q ≠ [] := List.ne_nil_of_length_pos (by omega)
      have hlast : q.getLast hq ∈ old.getLast? := by
        obtain ⟨r, rfl⟩ := hqold
        rw [List.getLast?_append_of_ne_nil r hq]
        exact List.getLast_mem_getLast? hq
      exact hp _ (List.mem_append_left w (List.getLast_mem hq)) (hold hlt _ hlast)
    · rw [List.length_append, heq] at hlength
      rw [List.eq_nil_of_length_eq_zero (by omega : q.length = 0)]
      exact List.infix_rfl

end Window

/-! ## Occurrences -/

section Occurred

variable {p sent : List Byte} {c : Byte} {cleared : ℕ}

/-- If nothing was cleared, the pattern stands one byte behind the other in the bytes sent. -/
theorem occurred_zero : Occurred p sent 0 ↔ p ≠ [] ∧ p <:+: sent := by
  refine and_congr_right fun hp => ⟨?_, ?_⟩
  · rintro ⟨l, -, -, hsuffix⟩
    exact hsuffix.isInfix.trans (List.take_prefix l sent).isInfix
  · rintro ⟨before, after, rfl⟩
    refine ⟨(before ++ p).length, ?_, by simp, ?_⟩
    · rw [List.length_append]
      have := List.length_pos_iff.mpr hp
      omega
    · rw [List.take_left]
      exact List.suffix_append before p

theorem not_occurred_all : ¬Occurred p sent sent.length := by
  rintro ⟨-, l, hl, hle, -⟩
  omega

/-- One more byte may end the pattern. -/
theorem occurred_append (hcleared : cleared ≤ sent.length) :
    Occurred p (sent ++ [c]) cleared ↔
      Occurred p sent cleared ∨ p ≠ [] ∧ p <:+ sent ++ [c] := by
  constructor
  · rintro ⟨hp, l, hl, hle, hsuffix⟩
    rw [List.length_append, List.length_singleton] at hle
    obtain hl' | rfl : l ≤ sent.length ∨ l = sent.length + 1 := by omega
    · rw [List.take_append_of_le_length hl'] at hsuffix
      exact .inl ⟨hp, l, hl, hl', hsuffix⟩
    · rw [List.take_of_length_le (by simp)] at hsuffix
      exact .inr ⟨hp, hsuffix⟩
  · rintro (⟨hp, l, hl, hle, hsuffix⟩ | ⟨hp, hsuffix⟩)
    · refine ⟨hp, l, hl, ?_, by rwa [List.take_append_of_le_length hle]⟩
      rw [List.length_append]
      omega
    · refine ⟨hp, sent.length + 1, by omega, by simp, ?_⟩
      rwa [List.take_of_length_le (by simp)]

end Occurred

/-! ## The buffers -/

section Buffers

variable {s : ℕ → Byte} {l : List Byte}

theorem strlenOf_holds (h : Holds s l) (hl : l.length ≤ patternMaxLen) :
    strlenOf s = .ok l.length := by
  rw [strlenOf, h.strlen (Nat.lt_succ_of_le hl)]

/-- The loop ends with the last `n` characters. -/
theorem keepLast_holds (n : ℕ) (h : Holds s l) (hl : l.length ≤ patternMaxLen) :
    ∃ t, keepLast n s = .ok t ∧ Holds t (l.drop (l.length - n)) := by
  have hrun : ∃ t, Loop.run (stripFirst n) (l.length + 1) s = some (.ok t) ∧
      Holds t (l.drop (l.length - n)) := by
    -- each round strips one character until `n` are left
    induction l generalizing s with
    | nil =>
      refine ⟨s, Loop.run_of_inl ?_ 0, by rwa [List.drop_nil]⟩
      rw [stripFirst, strlenOf_holds h hl]
      exact if_neg (Nat.not_lt_zero n)
    | cons c l ih =>
      rw [List.length_cons] at hl
      by_cases hn : n < l.length + 1
      · have hround : stripFirst n s = .inr (memmove s 0 1 (l.length + 1)) := by
          rw [stripFirst, strlenOf_holds h (by simpa using hl)]
          exact if_pos hn
        obtain ⟨t, ht, hdrop⟩ := ih h.shift (by omega)
        refine ⟨t, (Loop.run_of_inr hround _).trans ht, ?_⟩
        rwa [List.length_cons, show l.length + 1 - n = l.length - n + 1 by omega,
          List.drop_succ_cons]
      · refine ⟨s, Loop.run_of_inl ?_ _, ?_⟩
        · rw [stripFirst, strlenOf_holds h (by simpa using hl)]
          exact if_neg hn
        · rwa [List.length_cons, show l.length + 1 - n = 0 by omega, List.drop_zero]
  obtain ⟨t, ht, hdrop⟩ := hrun
  refine ⟨t, ?_, hdrop⟩
  rw [keepLast, Loop.run_mono (show l.length + 1 ≤ patternMaxLen + 2 by omega) ht]

variable {a : Adapter} {p w : List Byte} {c : Byte}

/-- With no pattern nothing is done. -/
theorem rs232byteXmtSend_nil (hp : Holds a.pattern []) : rs232byteXmtSend a c = .ok a := by
  rw [rs232byteXmtSend, strlenOf_holds hp (Nat.zero_le _)]
  rfl

/-- The window slides, and the pattern is found if the window is the pattern. -/
theorem rs232byteXmtSend_holds (hp : Holds a.pattern p) (hlength : p.length ≤ patternMaxLen)
    (hne : p ≠ []) (hw : Holds a.patternStreamData w) (hfull : w.length < patternMaxLen)
    (hzero : c = 0 → w = []) :
    ∃ b, rs232byteXmtSend a c = .ok b ∧ b.pattern = a.pattern ∧
      Holds b.patternStreamData (slide p.length w c) ∧
      b.patternFound = (a.patternFound || decide (p <:+: slide p.length w c)) := by
  have hput : ∃ t, keepLast p.length
      (Function.update (Function.update a.patternStreamData w.length c) (w.length + 1) 0) =
        .ok t ∧ Holds t (slide p.length w c) := by
    by_cases hc : c = 0
    · obtain rfl := hc
      have hput := hw.append_zero
      obtain rfl := hzero rfl
      have hkeep := keepLast_holds p.length hput (Nat.zero_le _)
      rw [slide, if_pos rfl]
      rwa [List.drop_nil] at hkeep
    · have hput := keepLast_holds p.length (hw.append hc) (by
        rw [List.length_append, List.length_singleton]
        omega)
      rw [slide, if_neg hc]
      rwa [List.length_append, List.length_singleton] at hput
  obtain ⟨t, ht, hslide⟩ := hput
  have hlen : (slide p.length w c).length ≤ patternMaxLen := length_slide_le.trans hlength
  have hfound : strstr t (slide p.length w c).length a.pattern p.length =
      decide (p <:+: slide p.length w c) := by
    rw [Bool.eq_iff_iff, hslide.strstr_iff hp, decide_eq_true_iff]
  refine ⟨⟨a.pattern, t, a.patternFound || decide (p <:+: slide p.length w c)⟩, ?_, rfl, hslide,
    rfl⟩
  rw [rs232byteXmtSend, strlenOf_holds hp hlength]
  show (if p.length = 0 then _ else _) = _
  rw [if_neg (mt List.eq_nil_of_length_eq_zero hne), strlenOf_holds hw hfull.le]
  show (if patternMaxLen ≤ w.length then _ else _) = _
  rw [if_neg (by omega)]
  show (keepLast _ _ >>= fun s => _) = _
  rw [ht]
  show (strlenOf t >>= fun m => _) = _
  rw [strlenOf_holds hslide hlen]
  show Except.ok _ = _
  rw [hfound]

end Buffers

/-! ## Runs -/

/-- What holds after careful steps. -/
structure Inv (s : State) : Prop where
  pattern : Holds s.adapter.pattern (s.reference.pattern.take patternMaxLen)
  window : ∃ w, Holds s.adapter.patternStreamData w ∧
    (s.reference.pattern.take patternMaxLen ≠ [] →
      Window (s.reference.pattern.take patternMaxLen).length s.reference.sent w)
  cleared : s.reference.cleared ≤ s.reference.sent.length
  found : s.adapter.patternFound = true ↔
    Occurred (s.reference.pattern.take patternMaxLen) s.reference.sent s.reference.cleared

variable {s : State}

theorem Inv.initial (h : Initial s) : Inv s := by
  obtain ⟨hpattern, hstream, hfound, hreference⟩ := h
  refine ⟨?_, ⟨[], holds_nil hstream, ?_⟩, ?_, ?_⟩
  · rw [hreference]
    exact holds_nil hpattern
  · rw [hreference]
    exact fun hne => absurd rfl hne
  · rw [hreference]
    exact Nat.le_refl 0
  · rw [hreference, hfound]
    exact iff_of_false Bool.false_ne_true fun h => h.1 rfl

theorem Inv.matched (h : Inv s) : Matched s := by
  intro hlength
  have hfound := h.found
  rwa [List.take_of_length_le hlength] at hfound

theorem Inv.setPattern (h : Careful s (.setPattern p)) :
    ∃ t, step s (.setPattern p) = .ok t ∧ Inv t := by
  refine ⟨_, rfl, ?_, ⟨[], ?_, fun _ => window_nil _⟩, Nat.le_refl 0, ?_⟩
  · exact holds_strncpy p.property h
  · exact holds_nil (Function.update_self 0 0 s.adapter.patternStreamData)
  · exact iff_of_false Bool.false_ne_true not_occurred_all

theorem Inv.clear (h : Inv s) : ∃ t, step s .clear = .ok t ∧ Inv t := by
  refine ⟨_, rfl, h.pattern, h.window, Nat.le_refl _, ?_⟩
  exact iff_of_false Bool.false_ne_true not_occurred_all

theorem Inv.send (h : Inv s) {c : Byte} (hcareful : Careful s (.send c)) :
    ∃ t, step s (.send c) = .ok t ∧ Inv t := by
  obtain ⟨w, hw, hwindow⟩ := h.window
  have hcleared : s.reference.cleared ≤ (s.reference.sent ++ [c]).length :=
    h.cleared.trans (by simp)
  by_cases hne : s.reference.pattern.take patternMaxLen = []
  · have hpattern := h.pattern
    rw [hne] at hpattern
    refine ⟨⟨s.adapter, { s.reference with sent := s.reference.sent ++ [c] }⟩, ?_, h.pattern,
      ⟨w, hw, fun h => absurd hne h⟩, hcleared, ?_⟩
    · rw [step, rs232byteXmtSend_nil hpattern]
      rfl
    · -- nothing is searched for
      refine h.found.trans (iff_of_false ?_ ?_) <;> exact fun hocc => hocc.1 hne
  · have hlength := List.length_take_le patternMaxLen s.reference.pattern
    have hwin := hwindow hne
    obtain ⟨hzero, hfull⟩ := hcareful (mt h.pattern.eq_nil_iff.mp hne)
    have hwlen : w.length ≤ patternMaxLen := hwin.length_le.trans hlength
    have hlt : w.length < patternMaxLen := by
      refine lt_of_le_of_ne hwlen fun heq => hfull ?_
      rw [hw.strlen (Nat.lt_succ_of_le hwlen), heq]
    obtain ⟨b, hb, hpattern, hslide, hfound⟩ := rs232byteXmtSend_holds h.pattern hlength hne hw hlt
      fun hc => hw.eq_nil_iff.mp (hzero hc)
    have hnext := hwin.slide (List.length_pos_iff.mpr hne) (c := c)
    refine ⟨⟨b, { s.reference with sent := s.reference.sent ++ [c] }⟩, ?_, ?_,
      ⟨_, hslide, fun _ => hnext⟩, hcleared, ?_⟩
    · rw [step, hb]
      rfl
    · exact hpattern ▸ h.pattern
    · show b.patternFound = true ↔ Occurred _ (s.reference.sent ++ [c]) _
      rw [hfound, Bool.or_eq_true, decide_eq_true_iff, hnext.infix_iff rfl h.pattern.nonzero,
        h.found, occurred_append h.cleared, and_iff_right hne]

/-- A careful step is made, and keeps the invariant. -/
theorem Inv.step (h : Inv s) {a : Action} (hcareful : Careful s a) :
    ∃ t, step s a = .ok t ∧ Inv t := by
  cases a with
  | setPattern p => exact Inv.setPattern hcareful
  | send c => exact h.send hcareful
  | clear => exact h.clear

theorem Inv.next {t : State} (h : Inv s) {a : Action} (hcareful : Careful s a)
    (hstep : Rs232adapter.step s a = .ok t) : Inv t := by
  obtain ⟨u, hu, hinv⟩ := h.step hcareful
  rw [hstep] at hu
  rwa [Except.ok.inj hu]

/-- A pattern that fits is found after each byte iff it occurred in the bytes sent since it was
set, and no call fails. -/
theorem matched_of_careful
    (h : Reachable Initial (fun s t => ∃ a, Careful s a ∧ step s a = .ok t) s) :
    Matched s ∧ ∀ a, Careful s a → ∃ t, step s a = .ok t := by
  have hinv : Inv s := by
    refine h.invariant (fun s => Inv.initial) (fun s t hs hstep => ?_)
    obtain ⟨a, hcareful, hstep⟩ := hstep
    exact hs.next hcareful hstep
  refine ⟨hinv.matched, fun a hcareful => ?_⟩
  obtain ⟨t, ht, -⟩ := hinv.step hcareful
  exact ⟨t, ht⟩

/-- Both buffers empty. -/
def State.initial : State where
  adapter := ⟨fun _ => 0, fun _ => 0, false⟩
  reference := ⟨[], [], 0⟩

/-- The pattern `AB` -/
def patternAB : Text Byte := ⟨[0x41, 0x42], by decide⟩

/-- The state after calls that all return. -/
def calls (s : State) (as : List Action) : Except Fault State := as.foldlM step s

/-- `A`, `A` and `B` are sent. -/
theorem matched_of_careful_overlap :
    ∃ s, calls .initial [.setPattern patternAB, .send 0x41, .send 0x41, .send 0x42] = .ok s ∧
      s.adapter.patternFound = true ∧ Matched s ∧ ∀ a, Careful s a → ∃ t, step s a = .ok t := by
  have start : Reachable Initial (fun s t => ∃ a, Careful s a ∧ step s a = .ok t) .initial :=
    .init ⟨rfl, rfl, rfl, rfl⟩
  have set := start.step ⟨.setPattern patternAB, .inl (by decide), rfl⟩
  have first := set.step ⟨.send 0x41, fun _ => ⟨by decide, by decide⟩, rfl⟩
  have second := first.step ⟨.send 0x41, fun _ => ⟨by decide, by decide⟩, rfl⟩
  have third := second.step ⟨.send 0x42, fun _ => ⟨by decide, by decide⟩, rfl⟩
  exact ⟨_, rfl, by decide, matched_of_careful third⟩

theorem calls_reachable {as : List Action} {t : State}
    (h : Reachable Initial (fun s t => ∃ a, step s a = .ok t) s) (hcalls : calls s as = .ok t) :
    Reachable Initial (fun s t => ∃ a, step s a = .ok t) t := by
  induction as generalizing s with
  | nil =>
    obtain rfl := Except.ok.inj hcalls
    exact h
  | cons a as ih =>
    have hcons : (step s a >>= fun u => calls u as) = .ok t := hcalls
    cases hs : step s a with
    | error e =>
      rw [hs] at hcons
      cases hcons
    | ok u =>
      rw [hs] at hcons
      exact ih (h.step ⟨a, hs⟩) hcons

/-- Between `A` and `B` a zero is sent: `AB` does not occur, and is found. -/
theorem zero_joins :
    ¬∀ s, Reachable Initial (fun s t => ∃ a, step s a = .ok t) s →
      Matched s ∧ ∀ a, ∃ t, step s a = .ok t := by
  intro hall
  obtain ⟨s, hcalls, hfound, hreference⟩ :
      ∃ s, calls .initial [.setPattern patternAB, .send 0x41, .send 0, .send 0x42] = .ok s ∧
        s.adapter.patternFound = true ∧ s.reference = ⟨[0x41, 0x42], [0x41, 0, 0x42], 0⟩ :=
    ⟨_, rfl, by decide, rfl⟩
  have hmatched := (hall s (calls_reachable (.init ⟨rfl, rfl, rfl, rfl⟩) hcalls)).1
  rw [Matched, hreference] at hmatched
  have hoccurred := (hmatched (by decide)).mp hfound
  exact absurd (occurred_zero.mp hoccurred).2 (by decide)

end QUniBone.Rs232adapter
