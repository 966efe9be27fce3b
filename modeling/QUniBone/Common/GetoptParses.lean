import QUniBone.Common.Getopt

/-!
# Parsing of a command line

The results of `first` and `next` for the definitions of `init` and `define`.

* `takeArgs_eq`, `next_takes`: one call takes the group that stands next.
* `match_iff`: the loop from any place of the command line.
* `parses_right_iff`: the command lines that are parsed into their groups.
-/

namespace QUniBone.Getopt

open Numeral

/-! ## Groups -/

/-- The number of words that are taken -/
def scanCount (o : OptionDescr) (toNext : Bool) (ws : List Text) : ℕ :=
  if toNext then (ws.takeWhile (getDashedOptionName · = [])).length else o.fixArgCount

theorem upToOption_iff {args rest : List Text} :
    UpToOption args rest ↔
      args = (args ++ rest).takeWhile (getDashedOptionName · = []) := by
  constructor
  · rintro ⟨hargs, hrest⟩
    have hall : ∀ a ∈ args, decide (getDashedOptionName a = []) = true :=
      fun a ha => decide_eq_true (hargs a ha)
    rw [List.takeWhile_append_of_pos hall]
    cases rest with
    | nil => rw [List.takeWhile_nil, List.append_nil]
    | cons w rest =>
      rw [List.takeWhile_cons_of_neg (by simpa using hrest w rfl), List.append_nil]
  · intro h
    have hall : ∀ a ∈ args, getDashedOptionName a = [] := by
      intro a ha
      rw [h] at ha
      simpa using List.mem_takeWhile_imp ha
    refine ⟨hall, fun w hw => ?_⟩
    rw [List.takeWhile_append_of_pos fun a ha => decide_eq_true (hall a ha)] at h
    have hnil := List.self_eq_append_right.mp h
    -- the first word of the rest is not taken
    cases rest with
    | nil => cases hw
    | cons v rest =>
      cases hw
      intro hname
      rw [List.takeWhile_cons_of_pos (by simpa using hname)] at hnil
      cases hnil

theorem argsEnd_iff {o : OptionDescr} {args rest : List Text} :
    ArgsEnd o args rest ↔
      args = (args ++ rest).take (scanCount o (o.fixArgCount ≠ o.maxArgCount) (args ++ rest)) := by
  unfold ArgsEnd scanCount
  by_cases h : o.fixArgCount = o.maxArgCount
  · rw [if_neg (by simpa using h), if_neg (by simpa using h), List.take_append]
    constructor
    · rintro ⟨hle, hrest⟩
      rcases Nat.lt_or_eq_of_le hle with hlt | heq
      · rw [hrest hlt, List.take_nil, List.append_nil, List.take_of_length_le hle]
      · rw [heq, Nat.sub_self, List.take_zero, List.append_nil, ← heq, List.take_length]
    · intro htake
      have hlen := congrArg List.length htake
      rw [List.length_append, List.length_take, List.length_take] at hlen
      refine ⟨by omega, fun hlt => ?_⟩
      exact List.length_eq_zero_iff.mp (by omega)
  · rw [if_pos h, if_pos (by simpa using h), upToOption_iff]
    have htake : (args ++ rest).take
        ((args ++ rest).takeWhile (getDashedOptionName · = [])).length =
          (args ++ rest).takeWhile (getDashedOptionName · = []) :=
      (List.prefix_iff_eq_take.mp (List.takeWhile_prefix _)).symm
    rw [htake]

/-- Only one group can be taken. -/
theorem Takes.unique {d : Grammar} {ws rest rest' : List Text} {g g' : Group}
    (h : Takes d ws g rest) (h' : Takes d ws g' rest') : g = g' ∧ rest = rest' := by
  generalize hws : ws = ws' at h'
  cases h with
  | @option w o args rest hname hfind hargs =>
    cases h' with
    | @option w' o' args' rest' hname' hfind' hargs' =>
      obtain ⟨rfl, hsame⟩ := List.cons.inj hws
      cases hfind.symm.trans hfind'
      have hargs := argsEnd_iff.mp hargs
      have hargs' := argsEnd_iff.mp hargs'
      rw [← hsame] at hargs'
      have heq : args = args' := hargs.trans hargs'.symm
      subst heq
      exact ⟨rfl, List.append_cancel_left hsame⟩
    | @nonoption args' rest' hne hend =>
      -- the first word is an option for one of them
      obtain ⟨v, vs, rfl⟩ := List.exists_cons_of_ne_nil hne
      obtain ⟨rfl, -⟩ := List.cons.inj hws
      exact absurd (hend.1 w (List.mem_cons_self)) hname
  | @nonoption args rest hne hend =>
    cases h' with
    | @option w' o' args' rest' hname' _ _ =>
      obtain ⟨v, vs, rfl⟩ := List.exists_cons_of_ne_nil hne
      obtain ⟨rfl, -⟩ := List.cons.inj hws
      exact absurd (hend.1 v (List.mem_cons_self)) hname'
    | @nonoption args' rest' hne' hend' =>
      have hargs := upToOption_iff.mp hend
      have hargs' := upToOption_iff.mp hend'
      rw [← hws] at hargs'
      have heq : args = args' := hargs.trans hargs'.symm
      subst heq
      exact ⟨rfl, List.append_cancel_left hws⟩

theorem not_takes_nil {d : Grammar} {g : Group} {rest : List Text} : ¬ Takes d [] g rest := by
  intro h
  generalize hws : ([] : List Text) = ws at h
  cases h with
  | option => cases hws
  | nonoption hne _ => exact hne (List.append_eq_nil_iff.mp hws.symm).1

theorem not_takes_illegal {d : Grammar} {w : Text} {ws : List Text} {g : Group}
    {rest : List Text} (hname : getDashedOptionName w ≠ [])
    (hfind : d.find (getDashedOptionName w) = none) : ¬ Takes d (w :: ws) g rest := by
  intro h
  generalize hws : w :: ws = ws' at h
  cases h with
  | option _ hfind' _ =>
    obtain ⟨rfl, -⟩ := List.cons.inj hws
    cases hfind.symm.trans hfind'
  | @nonoption args rest hne hend =>
    obtain ⟨v, vs, rfl⟩ := List.exists_cons_of_ne_nil hne
    obtain ⟨rfl, -⟩ := List.cons.inj hws
    exact hname (hend.1 w (List.mem_cons_self))

/-- A group is taken from any words that do not begin with an undefined option. -/
theorem exists_takes (d : Grammar) (w : Text) (ws : List Text) :
    (getDashedOptionName w ≠ [] ∧ d.find (getDashedOptionName w) = none) ∨
      ∃ g rest, Takes d (w :: ws) g rest := by
  by_cases hname : getDashedOptionName w = []
  · right
    have hsplit : (w :: ws).takeWhile (getDashedOptionName · = []) ++
        (w :: ws).dropWhile (getDashedOptionName · = []) = w :: ws :=
      List.takeWhile_append_dropWhile
    have hne : (w :: ws).takeWhile (getDashedOptionName · = []) ≠ [] := by
      rw [List.takeWhile_cons_of_pos (by simpa using hname)]
      exact List.cons_ne_nil _ _
    have hend : UpToOption ((w :: ws).takeWhile (getDashedOptionName · = []))
        ((w :: ws).dropWhile (getDashedOptionName · = [])) := by
      rw [upToOption_iff, hsplit]
    have h := Takes.nonoption (d := d) hne hend
    rw [hsplit] at h
    exact ⟨_, _, h⟩
  · cases hfind : d.find (getDashedOptionName w) with
    | none => exact .inl ⟨hname, rfl⟩
    | some o =>
      right
      have hsplit := List.take_append_drop
        (scanCount o (o.fixArgCount ≠ o.maxArgCount) ws) ws
      have hend : ArgsEnd o (ws.take (scanCount o (o.fixArgCount ≠ o.maxArgCount) ws))
          (ws.drop (scanCount o (o.fixArgCount ≠ o.maxArgCount) ws)) := by
        rw [argsEnd_iff, hsplit]
      have h := Takes.option hname hfind hend
      rw [hsplit] at h
      exact ⟨_, _, h⟩

/-! ## One call -/

namespace Parser

/-- The words that are not processed yet -/
def rest (p : Parser) : List Text := p.clineArgs.drop p.curClineArgIdx

/-- What the descriptors define -/
def grammar (p : Parser) : Grammar where
  ignoreCase := p.ignoreCase
  options := p.optionDescrs
  nonoption := if p.nonoptionDescr.valid then some p.nonoptionDescr else none

/-- The parser when the arguments of the current option are taken -/
def taken (p : Parser) (args : List Text) : Parser :=
  { p with
    curOptionArgval := args
    curtoken := args.getLast?.getD p.curtoken
    curClineArgIdx := p.curClineArgIdx + args.length }

/-- What becomes of the number of arguments -/
def verdict (q : Parser) (o : OptionDescr) (n : ℕ) : Status × Parser :=
  if n < o.fixArgCount then q.parseError .minArgCount
  else if o.maxArgCount < n then q.parseError .maxArgCount
  else (.ok, q)

theorem taken_rest {p : Parser} {args rest : List Text} (h : p.rest = args ++ rest) :
    (p.taken args).rest = rest := by
  show p.clineArgs.drop (p.curClineArgIdx + args.length) = rest
  rw [← List.drop_drop]
  show p.rest.drop args.length = rest
  rw [h, List.drop_left]

theorem takeArgs_eq {p : Parser} {o : OptionDescr} {toNext : Bool} {args : List Text}
    (h : args = p.rest.take (scanCount o toNext p.rest)) :
    p.takeArgs o toNext = (p.taken args).verdict o args.length := by
  have hlen : p.rest.length = p.clineArgs.length - p.curClineArgIdx := List.length_drop
  have hscan : (p.rest.takeWhile (getDashedOptionName · = [])).length ≤ p.rest.length :=
    (List.takeWhile_sublist _).length_le
  have htake : p.rest.take (if toNext then
      if p.curClineArgIdx + (p.rest.takeWhile (getDashedOptionName · = [])).length <
          p.clineArgs.length then
        p.curClineArgIdx + (p.rest.takeWhile (getDashedOptionName · = [])).length -
          p.curClineArgIdx
      else p.rest.length
    else o.fixArgCount) = args := by
    rw [h, scanCount]
    cases toNext with
    | false => rfl
    | true =>
      rw [if_pos rfl, if_pos rfl]
      split
      · rw [Nat.add_sub_cancel_left]
      · -- all that is left
        rw [show (p.rest.takeWhile (getDashedOptionName · = [])).length = p.rest.length by omega]
  rw [takeArgs, show p.clineArgs.drop p.curClineArgIdx = p.rest from rfl, htake]
  rfl

/-- What `next` does not change -/
structure Same (p q : Parser) : Prop where
  ignoreCase : q.ignoreCase = p.ignoreCase
  nonoption : q.nonoptionDescr = p.nonoptionDescr
  options : q.optionDescrs = p.optionDescrs

theorem Same.grammar {p q : Parser} (h : Same p q) : q.grammar = p.grammar := by
  simp only [Parser.grammar, h.ignoreCase, h.nonoption, h.options]

/-- The descriptor that a group is counted with -/
def descrOf (p : Parser) (g : Group) : OptionDescr :=
  match g.head with
  | .option _ o => o
  | .nonoption => p.nonoptionDescr

/-- The parser is at a group that it has taken. -/
structure At (p : Parser) (g : Group) : Prop where
  args : p.curOptionArgval = g.args
  current : p.curOption = match g.head with
    | .option _ o => .option o
    | .nonoption => .nonoption

theorem next_nil {p : Parser} (h : p.rest = []) : p.next = .ok (.eof, p) := by
  have hnone : p.clineArgs[p.curClineArgIdx]? = none := by
    rw [← List.head?_drop]
    exact congrArg List.head? h
  rw [next, hnone]

theorem getElem?_rest {p : Parser} {w : Text} {ws : List Text} (h : p.rest = w :: ws) :
    p.clineArgs[p.curClineArgIdx]? = some w := by
  rw [← List.head?_drop]
  exact congrArg List.head? h

theorem next_empty {p : Parser} {ws : List Text} (h : p.rest = [] :: ws) :
    p.next = .error .assertion := by
  rw [next, getElem?_rest h]
  rfl

theorem next_illegal {p : Parser} {w : Text} {ws : List Text} (h : p.rest = w :: ws)
    (hname : getDashedOptionName w ≠ []) (hfind : p.grammar.find (getDashedOptionName w) = none) :
    ∃ q, p.next = .ok (.illegalOption, q) ∧ ∀ name, q.isoption name = false := by
  have hne : w ≠ [] := by
    rintro rfl
    exact hname rfl
  have hfind' : ({ p with curtoken := w } : Parser).find (getDashedOptionName w) = none := hfind
  rw [next, getElem?_rest h]
  simp only
  rw [if_neg hne, if_neg hname, hfind']
  exact ⟨_, rfl, fun _ => rfl⟩

theorem next_takes {p : Parser} {g : Group} {rest : List Text}
    (h : Takes p.grammar p.rest g rest) (hne : p.rest.head? ≠ some []) :
    ∃ q, p.next = .ok (q.verdict (p.descrOf g) g.args.length) ∧ q.rest = rest ∧ Same p q ∧
      q.At g := by
  generalize hws : p.rest = ws at h hne
  cases h with
  | @option w o args rest hname hfind hend =>
    have hw : w ≠ [] := fun h => hne (by rw [h]; rfl)
    have hfind' : ({ p with curtoken := w } : Parser).find (getDashedOptionName w) = some o :=
      hfind
    rw [next, getElem?_rest hws]
    simp only
    rw [if_neg hw, if_neg hname, hfind']
    simp only
    -- the option is skipped
    generalize hp : ({ p with
      curtoken := w, curOption := .option o, curClineArgIdx := p.curClineArgIdx + 1 } : Parser) = p'
    have hrest : p'.rest = args ++ rest := by
      rw [← hp]
      show p.clineArgs.drop (p.curClineArgIdx + 1) = args ++ rest
      rw [← List.drop_drop]
      show p.rest.drop 1 = args ++ rest
      rw [hws]
      rfl
    have hargs := argsEnd_iff.mp hend
    rw [← hrest] at hargs
    refine ⟨p'.taken args, congrArg _ (takeArgs_eq hargs), taken_rest hrest, ?_, ?_⟩
    · rw [← hp]
      exact ⟨rfl, rfl, rfl⟩
    · rw [← hp]
      exact ⟨rfl, rfl⟩
  | @nonoption args rest hargsne hend =>
    obtain ⟨w, ws, rfl⟩ := List.exists_cons_of_ne_nil hargsne
    have hw : w ≠ [] := fun h => hne (by rw [h]; rfl)
    have hname : getDashedOptionName w = [] := hend.1 w List.mem_cons_self
    rw [next, getElem?_rest hws]
    simp only
    rw [if_neg hw, if_pos hname]
    generalize hp : ({ p with curtoken := w, curOption := .nonoption } : Parser) = p'
    have hrest : p'.rest = (w :: ws) ++ rest := by
      rw [← hp, ← hws]
      rfl
    have hargs : w :: ws = p'.rest.take (scanCount p.nonoptionDescr true p'.rest) := by
      rw [hrest, scanCount, if_pos rfl, ← upToOption_iff.mp hend, List.take_left]
    refine ⟨p'.taken (w :: ws), congrArg _ (takeArgs_eq hargs), taken_rest hrest, ?_, ?_⟩
    · rw [← hp]
      exact ⟨rfl, rfl, rfl⟩
    · rw [← hp]
      exact ⟨rfl, rfl⟩

end Parser

/-! ## Reports -/

theorem same_nil {ic : Bool} {name : Text} : same ic name [] = true ↔ name = [] := by
  cases ic <;> simp [same]

namespace Parser

theorem nameIdx_eq (p : Parser) (argname : Text) (names : List Text) :
    p.nameIdx argname names.length names =
      .ok (names.findIdx? (same p.ignoreCase argname)) := by
  induction names with
  | nil => rfl
  | cons name names ih =>
    rw [List.length_cons, nameIdx, List.findIdx?_cons]
    split
    · rfl
    · rw [ih]
      rfl

theorem optionargidx_eq (p : Parser) {o : OptionDescr} (ho : o.valid = true) (argname : Text) :
    p.optionargidx o argname =
      .ok ((o.fixArgs ++ o.varArgs).findIdx? (same p.ignoreCase argname)) := by
  obtain ⟨hfix, hmax⟩ := o.counts ho
  have hvar : o.maxArgCount - o.fixArgCount = o.varArgs.length := by omega
  rw [optionargidx, hvar, hfix, nameIdx_eq, nameIdx_eq, List.findIdx?_append]
  generalize o.fixArgs.findIdx? (same p.ignoreCase argname) = found
  cases found with
  | some i => rfl
  | none =>
    rw [Option.none_or]
    simp only [Nat.add_comm _ o.fixArgs.length]
    rfl

/-- The functions for arguments tell about the group that was taken. -/
theorem At.reports {p : Parser} {g : Group} (h : p.At g) {o : OptionDescr} (ho : o.valid = true)
    (hdescr : p.grammar.descr g = some o) : Reports p.grammar g p := by
  have hcur : p.curDescr = some o := by
    rw [curDescr, h.current]
    rw [Grammar.descr] at hdescr
    cases hhead : g.head with
    | option w o' =>
      rw [hhead] at hdescr
      exact hdescr
    | nonoption =>
      rw [hhead] at hdescr
      simp only [grammar] at hdescr
      split at hdescr
      · exact hdescr
      · cases hdescr
  constructor
  · intro name
    rw [isoption, h.current]
    cases g.head with
    | option w o' => simp [grammar]
    | nonoption =>
      rw [p.nonoption_names.1, p.nonoption_names.2]
      simp [same_nil]
  · intro argname
    rw [argS, hcur, Grammar.argValue, hdescr, show p.grammar.ignoreCase = p.ignoreCase from rfl]
    simp only
    rw [optionargidx_eq p ho]
    generalize (o.fixArgs ++ o.varArgs).findIdx? (same p.ignoreCase argname) = found
    cases found with
    | none => exact ⟨_, rfl⟩
    | some i =>
      rw [← h.args, Option.map_some]
      generalize harg : p.curOptionArgval[i]? = arg
      refine ⟨p, ?_⟩
      show (bind (Except.ok (some i)) _ : Except Fault (Status × Option Text × Parser)) = _
      simp only [bind, Except.bind, harg]
      cases arg with
      | none => rfl
      | some v => rfl

end Parser

/-! ## The loop -/

/-- The loop after a call with this outcome -/
def EndsFrom (r : Except Fault (Status × Parser)) (given : List Parser)
    (res : Except Fault Results) : Prop :=
  match r with
  | .error e => res = .error e
  | .ok s => Loop.Returns round (given, s) res

theorem endsFrom_ok {q : Parser} {given : List Parser} {res : Except Fault Results} :
    EndsFrom (.ok (.ok, q)) given res ↔ EndsFrom q.next (given ++ [q]) res := by
  show Loop.Returns round (given, (.ok, q)) res ↔ _
  cases hnext : q.next with
  | error e =>
    have hround : round (given, (.ok, q)) = .inl (.error e) := by
      rw [round, if_pos rfl, hnext]
    exact ⟨fun h => h.unique (Loop.returns_of_inl hround), fun h => by
      rw [show res = .error e from h]
      exact Loop.returns_of_inl hround⟩
  | ok r =>
    have hround : round (given, (.ok, q)) = .inr (given ++ [q], r) := by
      rw [round, if_pos rfl, hnext]
    exact Loop.returns_iff_of_inr hround

theorem endsFrom_last {r : Status × Parser} (hr : r.1 ≠ .ok) {given : List Parser}
    {res : Except Fault Results} : EndsFrom (.ok r) given res ↔ res = .ok ⟨given, r⟩ := by
  have hround : round (given, r) = .inl (.ok ⟨given, r⟩) := by
    rw [round, if_neg hr]
  constructor
  · intro h
    exact Loop.Returns.unique h (Loop.returns_of_inl hround)
  · rintro rfl
    exact Loop.returns_of_inl hround

/-- The results so far stay. -/
theorem endsFrom_given {r : Except Fault (Status × Parser)} {given : List Parser} {res : Results}
    (h : EndsFrom r given (.ok res)) : given <+: res.given := by
  cases r with
  | error e => cases h
  | ok s =>
    have hround : ∀ s t, given <+: s.1 → round s = .inr t → given <+: t.1 := by
      intro s t hs ht
      unfold round at ht
      split at ht
      · split at ht
        · cases ht
        · cases ht
          exact hs.trans (List.prefix_append _ _)
      · cases ht
    have hdone : ∀ s r, given <+: s.1 → round s = .inl r → ∀ res, r = .ok res →
        given <+: res.given := by
      intro s r hs hr res hres
      subst hres
      unfold round at hr
      split at hr
      · split at hr <;> cases hr
      · cases hr
        exact hs
    exact Loop.Returns.of_invariant hround hdone h (List.prefix_refl given) res rfl

/-- The loop, from a place of the command line, gives the groups behind it. -/
def MatchFrom (d : Grammar) (p : Parser) (given : List Parser) : Prop :=
  ∃ more last, EndsFrom p.next given (.ok ⟨given ++ more, last⟩) ∧
    Results.Match ⟨more, last⟩ d p.rest

theorem matchFrom_last {d : Grammar} {p : Parser} {r : Status × Parser} (hnext : p.next = .ok r)
    (hr : r.1 ≠ .ok) {e : End} (hparses : Parses d p.rest [] e) (he : Agrees d e r)
    (given : List Parser) : MatchFrom d p given := by
  refine ⟨[], r, ?_, [], e, hparses, .nil, he⟩
  rw [hnext, endsFrom_last hr, List.append_nil]

/-! ## Places -/

theorem Reached.nil {d : Grammar} {ws : List Text} (h : Reached d [] ws) : ws = [] := by
  generalize hnil : ([] : List Text) = ws₀ at h
  cases h with
  | refl => rfl
  | group ht =>
    rw [← hnil] at ht
    exact absurd ht not_takes_nil

theorem Reached.illegal {d : Grammar} {w : Text} {ws ws' : List Text}
    (hname : getDashedOptionName w ≠ []) (hfind : d.find (getDashedOptionName w) = none)
    (h : Reached d (w :: ws) ws') : ws' = w :: ws := by
  generalize hws : w :: ws = ws₀ at h
  cases h with
  | refl => rfl
  | group ht =>
    rw [← hws] at ht
    exact absurd ht (not_takes_illegal hname hfind)

/-- Behind the first group only what that group leaves is reached, if its number of arguments is
right. -/
theorem reached_iff {d : Grammar} {ws rest ws' : List Text} {g : Group} (ht : Takes d ws g rest) :
    Reached d ws ws' ↔ ws' = ws ∨ ((d.limits g).1 ≤ g.args.length ∧
      g.args.length ≤ (d.limits g).2) ∧ Reached d rest ws' := by
  constructor
  · intro h
    cases h with
    | refl => exact .inl rfl
    | group ht' hmin hmax h =>
      obtain ⟨rfl, rfl⟩ := ht.unique ht'
      exact .inr ⟨⟨hmin, hmax⟩, h⟩
  · rintro (rfl | ⟨⟨hmin, hmax⟩, h⟩)
    · exact .refl _
    · exact .group ht hmin hmax h

/-! ## The groups of a command line -/

theorem Grammar.limits_of_some {d : Grammar} {g : Group} {o : OptionDescr}
    (h : d.descr g = some o) : d.limits g = (o.fixArgCount, o.maxArgCount) := by
  rw [Grammar.limits, h]

theorem Grammar.limits_of_none {d : Grammar} {g : Group} (h : d.descr g = none) :
    d.limits g = (0, 0) := by
  rw [Grammar.limits, h]

section Group

variable {p : Parser} {g : Group} {rest : List Text}

theorem descr_valid (ht : Takes p.grammar p.rest g rest) {o : OptionDescr}
    (ho : p.grammar.descr g = some o) : o = p.descrOf g ∧ o.valid = true := by
  generalize p.rest = ws at ht
  cases ht with
  | @option w o' args rest hname hfind hend =>
    cases ho
    have hmem := List.mem_of_mem_filter (List.mem_of_getLast? hfind)
    exact ⟨rfl, p.options_valid o hmem⟩
  | nonoption =>
    have hnon : (if p.nonoptionDescr.valid then some p.nonoptionDescr else none) = some o := ho
    split at hnon
    · next hvalid =>
      cases hnon
      exact ⟨rfl, hvalid⟩
    · cases hnon

theorem descr_eq_none (ht : Takes p.grammar p.rest g rest) (hnone : p.grammar.descr g = none) :
    p.descrOf g = p.nonoptionDescr ∧ g.args ≠ [] := by
  generalize p.rest = ws at ht
  cases ht with
  | option => cases hnone
  | nonoption hne _ => exact ⟨rfl, hne⟩

theorem parseError_ne_ok {e : Status} (he : e ≠ .ok) (q : Parser) : (q.parseError e).1 ≠ .ok := he

/-- A group with a wrong number of arguments is the last. -/
theorem matchFrom_of_error (ht : Takes p.grammar p.rest g rest) {q : Parser}
    (hnext : p.next = .ok (q.verdict (p.descrOf g) g.args.length))
    (hcount : g.args.length < (p.descrOf g).fixArgCount ∨
      (p.descrOf g).maxArgCount < g.args.length) (given : List Parser) :
    MatchFrom p.grammar p given := by
  cases ho : p.grammar.descr g with
  | none =>
    -- any number is too large
    have hlimits := Grammar.limits_of_none ho
    have hpos := List.length_pos_of_ne_nil (descr_eq_none ht ho).2
    have hparses : Parses p.grammar p.rest [] (.tooMany g) :=
      .tooMany ht (by rw [hlimits]; exact Nat.zero_le _) (by rw [hlimits]; exact hpos)
    by_cases hfew : g.args.length < (p.descrOf g).fixArgCount
    · rw [Parser.verdict, if_pos hfew] at hnext
      exact matchFrom_last hnext (parseError_ne_ok (by decide) q) hparses (.undefined _ ho) given
    · rw [Parser.verdict, if_neg hfew, if_pos (hcount.resolve_left hfew)] at hnext
      exact matchFrom_last hnext (parseError_ne_ok (by decide) q) hparses (.tooMany _ _) given
  | some o =>
    obtain ⟨rfl, -⟩ := descr_valid ht ho
    have hlimits := Grammar.limits_of_some ho
    by_cases hfew : g.args.length < (p.descrOf g).fixArgCount
    · rw [Parser.verdict, if_pos hfew] at hnext
      have hparses : Parses p.grammar p.rest [] (.tooFew g) :=
        .tooFew ht (by rw [hlimits]; exact hfew)
      exact matchFrom_last hnext (parseError_ne_ok (by decide) q) hparses (.tooFew _ _) given
    · have hmany := hcount.resolve_left hfew
      rw [Parser.verdict, if_neg hfew, if_pos hmany] at hnext
      have hparses : Parses p.grammar p.rest [] (.tooMany g) :=
        .tooMany ht (by rw [hlimits]; exact Nat.le_of_not_lt hfew) (by rw [hlimits]; exact hmany)
      exact matchFrom_last hnext (parseError_ne_ok (by decide) q) hparses (.tooMany _ _) given

theorem not_limits (ht : Takes p.grammar p.rest g rest)
    (hcount : g.args.length < (p.descrOf g).fixArgCount ∨
      (p.descrOf g).maxArgCount < g.args.length) :
    ¬ ((p.grammar.limits g).1 ≤ g.args.length ∧ g.args.length ≤ (p.grammar.limits g).2) := by
  rintro ⟨hmin, hmax⟩
  cases ho : p.grammar.descr g with
  | none =>
    rw [Grammar.limits_of_none ho] at hmax
    have hpos := List.length_pos_of_ne_nil (descr_eq_none ht ho).2
    exact absurd hmax (Nat.not_le.mpr hpos)
  | some o =>
    obtain ⟨rfl, -⟩ := descr_valid ht ho
    rw [Grammar.limits_of_some ho] at hmin hmax
    rcases hcount with hfew | hmany
    · exact absurd hmin (Nat.not_le.mpr hfew)
    · exact absurd hmax (Nat.not_le.mpr hmany)

theorem limits_of_count (ht : Takes p.grammar p.rest g rest) {o : OptionDescr}
    (ho : p.grammar.descr g = some o)
    (hcount : ¬ (g.args.length < (p.descrOf g).fixArgCount ∨
      (p.descrOf g).maxArgCount < g.args.length)) :
    (p.grammar.limits g).1 ≤ g.args.length ∧ g.args.length ≤ (p.grammar.limits g).2 := by
  obtain ⟨rfl, -⟩ := descr_valid ht ho
  rw [Grammar.limits_of_some ho]
  obtain ⟨hfew, hmany⟩ := not_or.mp hcount
  exact ⟨Nat.le_of_not_lt hfew, Nat.le_of_not_lt hmany⟩

/-- A group that is given has to be one of the grammar, with the groups behind it. -/
theorem matchFrom_of_given (ht : Takes p.grammar p.rest g rest) {q : Parser}
    (hnext : p.next = .ok (.ok, q)) (hrest : q.rest = rest) (hsame : p.Same q) (hat : q.At g)
    (given : List Parser) :
    MatchFrom p.grammar p given ↔ ((p.grammar.limits g).1 ≤ g.args.length ∧
      g.args.length ≤ (p.grammar.limits g).2) ∧ p.grammar.descr g ≠ none ∧
        MatchFrom p.grammar q (given ++ [q]) := by
  constructor
  · rintro ⟨more, last, hends, gs, e, hparses, hreports, hagrees⟩
    rw [hnext, endsFrom_ok] at hends
    -- the group is the first of the results
    have hpre := endsFrom_given hends
    rw [List.prefix_append_right_inj] at hpre
    obtain ⟨more', rfl⟩ := hpre
    generalize hws : p.rest = ws at hparses
    rw [hws] at ht
    cases hreports with
    | cons hreport hreports =>
      cases hparses with
      | group ht' hmin hmax hparses =>
        obtain ⟨rfl, rfl⟩ := ht.unique ht'
        refine ⟨⟨hmin, hmax⟩, fun hnone => ?_, more', last, ?_, _, e, ?_, hreports, hagrees⟩
        · rw [← hws] at ht
          have hpos := List.length_pos_of_ne_nil (descr_eq_none ht hnone).2
          rw [Grammar.limits_of_none hnone] at hmax
          exact absurd hmax (Nat.not_le.mpr hpos)
        · rw [List.append_assoc]
          exact hends
        · rw [hrest]
          exact hparses
  · rintro ⟨⟨hmin, hmax⟩, hdescr, more, last, hends, gs, e, hparses, hreports, hagrees⟩
    obtain ⟨o, ho⟩ := Option.ne_none_iff_exists'.mp hdescr
    have hreport : Reports p.grammar g q := by
      rw [← hsame.grammar]
      exact hat.reports (descr_valid ht ho).2 (by rw [hsame.grammar]; exact ho)
    refine ⟨q :: more, last, ?_, g :: gs, e, ?_, .cons hreport hreports, hagrees⟩
    · rw [hnext, endsFrom_ok, List.append_cons given q more]
      exact hends
    · rw [hrest] at hparses
      exact .group ht hmin hmax hparses

end Group

theorem Takes.length_lt {d : Grammar} {ws rest : List Text} {g : Group} (h : Takes d ws g rest) :
    rest.length < ws.length := by
  cases h with
  | option =>
    rw [List.length_cons, List.length_append]
    omega
  | nonoption hne _ =>
    have hpos := List.length_pos_of_ne_nil hne
    rw [List.length_append]
    omega

/-- The place itself has to be fine, and the places behind the first group. -/
theorem reached_forall_iff {d : Grammar} {ws rest : List Text} {g : Group}
    (ht : Takes d ws g rest) (F : List Text → Prop) :
    (∀ ws', Reached d ws ws' → F ws') ↔ F ws ∧
      ((d.limits g).1 ≤ g.args.length ∧ g.args.length ≤ (d.limits g).2 →
        ∀ ws', Reached d rest ws' → F ws') := by
  simp only [reached_iff ht]
  constructor
  · intro h
    exact ⟨h ws (.inl rfl), fun hlimits ws' hws' => h ws' (.inr ⟨hlimits, hws'⟩)⟩
  · rintro ⟨hws, hrest⟩ ws' (rfl | ⟨hlimits, hws'⟩)
    · exact hws
    · exact hrest hlimits ws' hws'

theorem match_nil {p : Parser} (h : p.rest = []) (given : List Parser) :
    MatchFrom p.grammar p given ↔
      ∀ ws, Reached p.grammar p.rest ws → Fine p.grammar p.nonoptionDescr ws := by
  have hparses : Parses p.grammar p.rest [] .eof := by
    rw [h]
    exact .eof
  refine iff_of_true (matchFrom_last (p.next_nil h) Status.noConfusion hparses (.eof p) given) ?_
  intro ws hws
  rw [h] at hws
  rw [hws.nil]
  exact ⟨fun h => (by cases h), fun g rest h => absurd h not_takes_nil⟩

/-- The first group, if its number of arguments is taken for right or wrong by chance -/
theorem fine_iff {d : Grammar} {o : OptionDescr} {ws rest : List Text} {g : Group}
    (ht : Takes d ws g rest) (hne : ws.head? ≠ some []) :
    Fine d o ws ↔ (d.descr g = none →
      g.args.length < o.fixArgCount ∨ o.maxArgCount < g.args.length) := by
  constructor
  · intro h
    exact h.refused g rest ht
  · intro h
    refine ⟨hne, fun g' rest' ht' => ?_⟩
    obtain ⟨rfl, -⟩ := ht.unique ht'
    exact h

/-- The loop from any place of the command line on -/
theorem match_iff (n : ℕ) (p : Parser) (hn : p.rest.length ≤ n) (given : List Parser) :
    MatchFrom p.grammar p given ↔
      ∀ ws, Reached p.grammar p.rest ws → Fine p.grammar p.nonoptionDescr ws := by
  -- by induction on the words that are left
  induction n generalizing p given with
  | zero =>
    have hnil : p.rest = [] := List.length_eq_zero_iff.mp (Nat.le_zero.mp hn)
    exact match_nil hnil given
  | succ n ih =>
    cases hrest : p.rest with
    | nil =>
      rw [← hrest]
      exact match_nil hrest given
    | cons w ws =>
      rw [← hrest]
      by_cases hempty : w = []
      · -- the assertion fails
        subst hempty
        refine iff_of_false ?_ fun h => (h p.rest (.refl _)).nonempty (by rw [hrest]; rfl)
        rintro ⟨more, last, hends, -⟩
        rw [p.next_empty hrest] at hends
        cases hends
      have hne : p.rest.head? ≠ some [] := by
        rw [hrest]
        exact fun h => hempty (Option.some.inj h)
      obtain ⟨hname, hfind⟩ | ⟨g, rest, ht⟩ := exists_takes p.grammar w ws
      · -- an undefined option
        obtain ⟨q, hnext, hq⟩ := p.next_illegal hrest hname hfind
        refine iff_of_true (matchFrom_last hnext Status.noConfusion ?_ (.illegal w hq) given) ?_
        · rw [hrest]
          exact .illegal hname hfind
        · intro ws' hws'
          rw [hrest] at hws' hne
          rw [hws'.illegal hname hfind]
          exact ⟨hne, fun g rest h => absurd h (not_takes_illegal hname hfind)⟩
      · rw [← hrest] at ht
        obtain ⟨q, hnext, hqrest, hsame, hat⟩ := p.next_takes ht hne
        rw [reached_forall_iff ht, fine_iff ht hne]
        by_cases hcount : g.args.length < (p.descrOf g).fixArgCount ∨
            (p.descrOf g).maxArgCount < g.args.length
        · refine iff_of_true (matchFrom_of_error ht hnext hcount given) ⟨fun hnone => ?_, ?_⟩
          · rw [(descr_eq_none ht hnone).1] at hcount
            exact hcount
          · intro hlimits
            exact absurd hlimits (not_limits ht hcount)
        · have hok : q.verdict (p.descrOf g) g.args.length = (.ok, q) := by
            obtain ⟨hfew, hmany⟩ := not_or.mp hcount
            rw [Parser.verdict, if_neg hfew, if_neg hmany]
          rw [hok] at hnext
          rw [matchFrom_of_given ht hnext hqrest hsame hat, ← hsame.grammar,
            ih q (by have := ht.length_lt; rw [hqrest]; omega), hsame.grammar, hqrest,
            hsame.nonoption]
          cases hdescr : p.grammar.descr g with
          | none =>
            rw [(descr_eq_none ht hdescr).1] at hcount
            exact iff_of_false (fun h => h.2.1 rfl) fun h => hcount (h.1 rfl)
          | some o =>
            have hlimits := limits_of_count ht hdescr hcount
            exact ⟨fun h => ⟨fun h => (by cases h), fun _ => h.2.2⟩,
              fun h => ⟨hlimits, Option.some_ne_none o, h.2 hlimits⟩⟩

/-! ## The words of a command line -/

theorem words_append_blank (a b : Text) : words (a ++ ' ' :: b) = words a ++ words b := by
  rw [words, List.splitOnP_append_cons a b (by decide), List.filter_append]
  rfl

theorem words_nil : words [] = [] := by decide

theorem words_defaultCmdline (p : Parser) : words p.defaultCmdline = p.grammar.defaults := by
  rw [Parser.defaultCmdline, Grammar.defaults, show p.grammar.options = p.optionDescrs from rfl]
  induction p.optionDescrs with
  | nil => exact words_nil
  | cons o os ih =>
    rw [List.flatMap_cons, List.flatMap_cons]
    by_cases hdefault : o.defaultArgs = []
    · rw [if_pos hdefault, if_pos hdefault, List.nil_append, List.nil_append, ih]
    · -- a blank follows the name, and the arguments
      rw [if_neg hdefault, if_neg hdefault, List.append_assoc, List.append_assoc,
        List.append_assoc, List.singleton_append, List.singleton_append,
        words_append_blank, words_append_blank, ih, List.append_assoc]

theorem getDashedOptionName_eq_nil_iff {arg : Text} (h : ' ' ∈ arg ∨ '\t' ∈ arg) :
    getDashedOptionName arg ≠ [] ↔ arg.head? = some '-' := by
  cases arg with
  | nil => simp at h
  | cons c t =>
    cases t with
    | nil =>
      -- a single character is a blank here
      have hc : c = ' ' ∨ c = '\t' := by simpa [eq_comm] using h
      obtain rfl | rfl := hc <;> decide
    | cons c' t =>
      unfold getDashedOptionName
      by_cases hc : c = '-'
      · subst hc
        by_cases hc' : c' = '-'
        · subst hc'
          have ht : t ≠ [] := by
            rintro rfl
            simp at h
          simpa using ht
        · simp [hc']
      · simp [hc]

theorem userWords_eq (args : List Text) : Parser.userWords args = splitFirst args := by
  cases args with
  | nil => rfl
  | cons arg args =>
    have hiff : (getDashedOptionName arg ≠ [] ∧ (' ' ∈ arg ∨ '\t' ∈ arg)) ↔
        (arg.head? = some '-' ∧ (' ' ∈ arg ∨ '\t' ∈ arg)) :=
      and_congr_left getDashedOptionName_eq_nil_iff
    rw [Parser.userWords, splitFirst]
    simp only [hiff]

/-! ## Definitions -/

theorem Grammar.of_concat_nonoption (ic : Bool) (defs : List Definition) {d : Definition}
    (h : d.isNonoption = true) :
    Grammar.of ic (defs ++ [d]) = { Grammar.of ic defs with nonoption := some (describe d) } := by
  simp [Grammar.of, List.filter_append, h]

theorem Grammar.of_concat_option (ic : Bool) (defs : List Definition) {d : Definition}
    (h : d.isNonoption = false) :
    Grammar.of ic (defs ++ [d]) =
      { Grammar.of ic defs with options := (Grammar.of ic defs).options ++ [describe d] } := by
  simp [Grammar.of, List.filter_append, h]

/-- The descriptor of the other arguments is left alone until they are defined. -/
def CountsOf (o o' : OptionDescr) : Prop :=
  o'.fixArgCount = o.fixArgCount ∧ o'.maxArgCount = o.maxArgCount

theorem defined_grammar (p : Parser) (ic : Bool) (defs : List Definition) :
    (p.defined ic defs).grammar = Grammar.of ic defs ∧
      ((Grammar.of ic defs).nonoption = none →
        CountsOf p.nonoptionDescr (p.defined ic defs).nonoptionDescr) := by
  induction defs using List.reverseRecOn with
  | nil => exact ⟨rfl, fun _ => ⟨rfl, rfl⟩⟩
  | append_singleton defs d ih =>
    have hdefine : p.defined ic (defs ++ [d]) = (p.defined ic defs).define d := by
      rw [Parser.defined, List.foldl_concat]
      rfl
    rw [hdefine]
    cases hd : d.isNonoption with
    | true =>
      have h : d.shortOptionName = [] ∧ d.longOptionName = [] := of_decide_eq_true hd
      rw [Grammar.of_concat_nonoption ic defs hd, ← ih.1, Parser.define, dif_pos h]
      exact ⟨rfl, fun hnone => by cases hnone⟩
    | false =>
      have h : ¬ (d.shortOptionName = [] ∧ d.longOptionName = []) := of_decide_eq_false hd
      rw [Grammar.of_concat_option ic defs hd, Parser.define, dif_neg h]
      refine ⟨?_, ih.2⟩
      rw [← ih.1]
      rfl

theorem Fine.congr {d : Grammar} {o o' : OptionDescr} (h : d.nonoption = none → CountsOf o o')
    (ws : List Text) : Fine d o' ws ↔ Fine d o ws := by
  have hcounts : ∀ g, d.descr g = none → CountsOf o o' := by
    intro g hg
    refine h ?_
    rw [Grammar.descr] at hg
    cases hhead : g.head with
    | option w o => rw [hhead] at hg; cases hg
    | nonoption => rw [hhead] at hg; exact hg
  constructor
  · intro hfine
    refine ⟨hfine.nonempty, fun g rest ht hg => ?_⟩
    rw [← (hcounts g hg).1, ← (hcounts g hg).2]
    exact hfine.refused g rest ht hg
  · intro hfine
    refine ⟨hfine.nonempty, fun g rest ht hg => ?_⟩
    rw [(hcounts g hg).1, (hcounts g hg).2]
    exact hfine.refused g rest ht hg

/-- The command lines that are parsed into their groups -/
theorem parses_right_iff (p : Parser) (ignoreCase : Bool) (defs : List Definition)
    (argv : List Text) :
    ParsesRight p ignoreCase defs argv ↔
      ∀ ws, Reached (Grammar.of ignoreCase defs) ((Grammar.of ignoreCase defs).tokens argv) ws →
        Fine (Grammar.of ignoreCase defs) p.nonoptionDescr ws := by
  obtain ⟨hgrammar, hcounts⟩ := defined_grammar p ignoreCase defs
  generalize hq : ({ p.defined ignoreCase defs with
    clineArgs := words (p.defined ignoreCase defs).defaultCmdline ++ Parser.userWords argv.tail
    curClineArgIdx := 0
    curOption := .none
    curOptionArgval := [] } : Parser) = q
  have hqgrammar : q.grammar = Grammar.of ignoreCase defs := by
    rw [← hq, ← hgrammar]
    rfl
  have hrest : q.rest = (Grammar.of ignoreCase defs).tokens argv := by
    rw [← hq, Grammar.tokens, ← userWords_eq, ← hgrammar, ← words_defaultCmdline]
    rfl
  have hnon : q.nonoptionDescr = (p.defined ignoreCase defs).nonoptionDescr := by
    rw [← hq]
  have hfirst : (p.defined ignoreCase defs).first argv = q.next := by
    rw [← hq]
    rfl
  have hright : ParsesRight p ignoreCase defs argv ↔ MatchFrom q.grammar q [] := by
    rw [hqgrammar]
    constructor
    · rintro ⟨⟨given, last⟩, hends, hmatch⟩
      refine ⟨given, last, ?_, by rw [hrest]; exact hmatch⟩
      rw [← hfirst]
      exact hends
    · rintro ⟨given, last, hends, hmatch⟩
      rw [hrest] at hmatch
      rw [← hfirst] at hends
      exact ⟨⟨given, last⟩, hends, hmatch⟩
  rw [hright, match_iff _ q (le_refl _), hqgrammar, hrest, hnon]
  exact forall₂_congr fun ws _ => Fine.congr hcounts ws

theorem zeroed_counts (h : false = true) : 0 = ([] : List Text).length ∧
    0 = ([] : List Text).length + ([] : List Text).length := by
  cases h

theorem zeroed_names : ([] : Text) = [] ∧ ([] : Text) = [] := by
  simp

theorem zeroed_valid : ∀ o ∈ ([] : List OptionDescr), o.valid = true := by
  simp

/-- A parser whose descriptor of the other arguments holds zeros -/
def zeroed : Parser where
  ignoreCase := true
  nonoptionDescr := ⟨false, [], [], [], [], 0, 0, [], zeroed_counts⟩
  optionDescrs := []
  curOption := .none
  curOptionArgval := []
  curtoken := []
  curerror := .ok
  curerrortext := []
  clineArgs := []
  curClineArgIdx := 0
  nonoption_names := zeroed_names
  options_valid := zeroed_valid

/-- Some of the definitions of the application: a flag, and the command file as bare argument -/
def demoOptions : List Definition :=
  [⟨['v'], ['v', 'e', 'r', 'b', 'o', 's', 'e'], [], [], []⟩,
    ⟨[], [], ['c', 'm', 'd', 'f', 'i', 'l', 'e'], [], []⟩]

/-- An empty word where an option may stand fails the assertion. -/
theorem empty_word_asserted :
    ¬ ParsesRight zeroed true demoOptions [['d', 'e', 'm', 'o'], ['-', 'v'], []] := by
  rintro ⟨r, hends, -⟩
  have hfirst : ∃ q, (zeroed.defined true demoOptions).first
      [['d', 'e', 'm', 'o'], ['-', 'v'], []] = .ok (.ok, q) ∧ q.next = .error .assertion :=
    ⟨_, rfl, rfl⟩
  obtain ⟨q, hq, hnext⟩ := hfirst
  have hends : EndsFrom (.ok (.ok, q)) [] (.ok r) := by
    rw [← hq]
    exact hends
  rw [endsFrom_ok, hnext] at hends
  cases hends

end QUniBone.Getopt
