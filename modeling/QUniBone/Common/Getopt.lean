import QUniBone.Lib.Loop
import QUniBone.Lib.Numeral

/-!
# Command line options

`getopt_c` in `getopt2.cpp`. The command line, behind the default arguments, is a list of words,
which `first` and `next` split into options with their arguments and groups of other arguments.

* `Parser`, `first`, `next`, `isoption`, `argS`: the code. `Results`: its loop.
* `Grammar`, `Takes`, `Parses`: how the words belong together, and where that ends.
* `Reports`: what is said about the last result.
* `Fine`: no empty word where an option may stand, and other arguments only where defined.
* `ParsesRight`: the results are the groups of the command line.
-/

namespace QUniBone.Getopt

open Numeral

/-! ## Model -/

/-- The status codes of `first` and `next`, and of the functions for arguments -/
inductive Status
  | ok
  | eof
  | illegalOption
  | minArgCount
  | maxArgCount
  | illegalArg
  | argNotSet
  deriving DecidableEq

inductive Fault
  | assertion
  /-- a name behind the end of its list -/
  | outOfRange

/-- `getopt_option_descr_c`. The single description of the non-option arguments may not be set, and
holds anything then. -/
structure OptionDescr where
  valid : Bool
  shortName : Text
  longName : Text
  fixArgs : List Text
  varArgs : List Text
  fixArgCount : ℕ
  maxArgCount : ℕ
  defaultArgs : Text
  counts : valid = true →
    fixArgCount = fixArgs.length ∧ maxArgCount = fixArgs.length + varArgs.length

/-- `cur_option` -/
inductive Current
  | none
  | nonoption
  | option (descr : OptionDescr)

structure Parser where
  ignoreCase : Bool
  nonoptionDescr : OptionDescr
  optionDescrs : List OptionDescr
  curOption : Current
  curOptionArgval : List Text
  curtoken : Text
  curerror : Status
  curerrortext : Text
  /-- default cmdline and copy of user commandline, of `cline_argcount` words -/
  clineArgs : List Text
  /-- index of next unprocessed word -/
  curClineArgIdx : ℕ
  nonoption_names : nonoptionDescr.shortName = [] ∧ nonoptionDescr.longName = []
  options_valid : ∀ o ∈ optionDescrs, o.valid = true

/-- What `define` is called with, less the help texts -/
structure Definition where
  shortOptionName : Text
  longOptionName : Text
  fixArgsCsv : Text
  optArgsCsv : Text
  defaultArgs : Text

/-- The words that `operator >>` reads -/
def words (text : Text) : List Text := (text.splitOnP isSpace).filter (· ≠ [])

/-- The texts that `std::getline` reads up to the commas -/
def separate (csv : Text) : List Text :=
  let ts := csv.splitOn ','
  if ts.getLast? = some [] then ts.dropLast else ts

/-- `tolower()` -/
def toLower (c : Char) : Char :=
  if 0x41 ≤ c.toNat ∧ c.toNat ≤ 0x5a then Char.ofNat (c.toNat + 0x20) else c

/-- `stringcmp` finds no difference. -/
def same (ignoreCase : Bool) (s1 s2 : Text) : Bool :=
  if ignoreCase then s1.map toLower = s2.map toLower else s1 = s2

/-- `-name` or `--name`: the name, and else the empty text -/
def getDashedOptionName (clinearg : Text) : Text :=
  if clinearg.take 2 = ['-', '-'] then clinearg.drop 2
  else if clinearg.take 1 = ['-'] then clinearg.drop 1
  else []

def describe (d : Definition) : OptionDescr where
  valid := true
  shortName := d.shortOptionName
  longName := d.longOptionName
  fixArgs := separate d.fixArgsCsv
  varArgs := separate d.optArgsCsv
  fixArgCount := (separate d.fixArgsCsv).length
  maxArgCount := (separate d.fixArgsCsv).length + (separate d.optArgsCsv).length
  defaultArgs := d.defaultArgs
  counts _ := ⟨rfl, rfl⟩

/-- `std::to_string` -/
def number (n : ℕ) : Text := Nat.toDigits 10 n

namespace Parser

def init (p : Parser) (ignoreCase : Bool) : Parser :=
  { p with
    ignoreCase := ignoreCase
    nonoptionDescr :=
      { p.nonoptionDescr with valid := false, counts := fun h => absurd h Bool.false_ne_true }
    optionDescrs := []
    curOptionArgval := []
    curerror := .ok
    curerrortext := []
    options_valid := fun _ h => absurd h List.not_mem_nil }

def define (p : Parser) (d : Definition) : Parser :=
  if h : d.shortOptionName = [] ∧ d.longOptionName = [] then
    { p with nonoptionDescr := describe d, nonoption_names := h }
  else
    { p with
      optionDescrs := p.optionDescrs ++ [describe d]
      options_valid := by
        intro o ho
        rw [List.mem_append, List.mem_singleton] at ho
        obtain ho | rfl := ho
        · exact p.options_valid o ho
        · rfl }

/-- The descriptor that `cur_option` points to -/
def curDescr (p : Parser) : Option OptionDescr :=
  match p.curOption with
  | .none => none
  | .nonoption => some p.nonoptionDescr
  | .option o => some o

def isoption (p : Parser) (name : Text) : Bool :=
  match p.curOption with
  | .none => false
  | .nonoption => name = [] ∨ same p.ignoreCase name p.nonoptionDescr.shortName ∨
      same p.ignoreCase name p.nonoptionDescr.longName
  | .option o => name ≠ [] ∧ (same p.ignoreCase name o.shortName ∨
      same p.ignoreCase name o.longName)

/-- What is counted, and where -/
def counted (p : Parser) (o : OptionDescr) : Text :=
  match p.curOption with
  | .nonoption => " non-option arguments at \"".toList ++ p.curtoken ++ ['"']
  | _ =>
    " arguments for option \"".toList ++ o.longName ++ "\" at \"".toList ++ p.curtoken ++ ['"']

def parseError (p : Parser) (error : Status) : Status × Parser :=
  let text := match error, p.curDescr with
    | .illegalOption, _ => "Undefined option at \"".toList ++ p.curtoken ++ ['"']
    | .minArgCount, some o => "Less than ".toList ++ number o.fixArgCount ++ p.counted o
    | .maxArgCount, some o => "More than ".toList ++ number o.maxArgCount ++ p.counted o
    | _, _ => []
  (error, { p with curerror := error, curerrortext := text })

def argError (p : Parser) (o : OptionDescr) (error : Status) (argname : Text) : Status × Parser :=
  let text := match error with
    | .illegalArg =>
      "Option \"".toList ++ o.longName ++ "\" has no argument \"".toList ++ argname ++ ['"']
    | .argNotSet =>
      "Optional argument \"".toList ++ argname ++ "\" for option \"".toList ++ o.longName ++
        " not set".toList
    | _ => []
  (error, { p with curerror := error, curerrortext := text })

/-- Search options by name: the last one that matches. -/
def find (p : Parser) (oname : Text) : Option OptionDescr :=
  (p.optionDescrs.filter fun o =>
    same p.ignoreCase oname o.shortName || same p.ignoreCase oname o.longName).getLast?

/-- The second part of `next`, for the current option: `toNext` if its arguments end at the next
`-option`. -/
def takeArgs (p : Parser) (o : OptionDescr) (toNext : Bool) : Status × Parser :=
  let rest := p.clineArgs.drop p.curClineArgIdx
  -- search next -option
  let i := p.curClineArgIdx + (rest.takeWhile (getDashedOptionName · = [])).length
  let maxScanArgCount :=
    if toNext then
      -- terminating -option found, or else `INT_MAX`
      if i < p.clineArgs.length then i - p.curClineArgIdx else rest.length
    else o.fixArgCount
  let args := rest.take maxScanArgCount
  let p := { p with
    curOptionArgval := args
    curtoken := args.getLast?.getD p.curtoken
    curClineArgIdx := p.curClineArgIdx + args.length }
  if args.length < o.fixArgCount then p.parseError .minArgCount
  else if o.maxArgCount < args.length then p.parseError .maxArgCount
  else (.ok, p)

def next (p : Parser) : Except Fault (Status × Parser) :=
  match p.clineArgs[p.curClineArgIdx]? with
  | none => .ok (.eof, p)
  | some s =>
    let p := { p with curtoken := s }
    -- `assert(!s.empty())`
    if s = [] then .error .assertion
    else if getDashedOptionName s = [] then
      -- not an -option, so the nonoption rest of cline, which may not be defined
      .ok (({ p with curOption := .nonoption } : Parser).takeArgs p.nonoptionDescr true)
    else
      match p.find (getDashedOptionName s) with
      | none => .ok (({ p with curOption := .none } : Parser).parseError .illegalOption)
      | some o =>
        .ok (({ p with curOption := .option o, curClineArgIdx := p.curClineArgIdx + 1 } :
          Parser).takeArgs o (o.fixArgCount ≠ o.maxArgCount))

/-- Strings `--<option> <args>` for all options with default arguments -/
def defaultCmdline (p : Parser) : Text :=
  p.optionDescrs.flatMap fun o =>
    if o.defaultArgs = [] then [] else ['-', '-'] ++ o.longName ++ [' '] ++ o.defaultArgs ++ [' ']

/-- Linux passes everything behind the interpreter on a `#!` script line as a single argument,
which is split into separate options. -/
def userWords : List Text → List Text
  | [] => []
  | arg :: args =>
    (if getDashedOptionName arg ≠ [] ∧ (' ' ∈ arg ∨ '\t' ∈ arg) then words arg else [arg]) ++ args

/-- `argv` is the program name and the words behind it. -/
def first (p : Parser) (argv : List Text) : Except Fault (Status × Parser) :=
  next { p with
    clineArgs := words p.defaultCmdline ++ userWords argv.tail
    curClineArgIdx := 0
    curOption := .none
    curOptionArgval := [] }

/-- The first of `count` names that is the same as another one. -/
def nameIdx (p : Parser) (argname : Text) : ℕ → List Text → Except Fault (Option ℕ)
  | 0, _ => .ok none
  | _ + 1, [] => .error .outOfRange
  | count + 1, name :: names =>
    if same p.ignoreCase argname name then .ok (some 0)
    else (nameIdx p argname count names).map (Option.map (· + 1))

/-- `none`: not found -/
def optionargidx (p : Parser) (o : OptionDescr) (argname : Text) : Except Fault (Option ℕ) := do
  match ← p.nameIdx argname o.fixArgCount o.fixArgs with
  | some i => return some i
  | none =>
    return (← p.nameIdx argname (o.maxArgCount - o.fixArgCount) o.varArgs).map (o.fixArgCount + ·)

/-- The status, what is assigned to the result, and the parser afterwards -/
def argS (p : Parser) (argname : Text) : Except Fault (Status × Option Text × Parser) :=
  match p.curDescr with
  | none =>
    let r := p.parseError .illegalOption
    .ok (r.1, none, r.2)
  | some o => do
    match ← p.optionargidx o argname with
    | none =>
      let r := (p.argError o .argNotSet argname).2.argError o .illegalArg argname
      return (r.1, none, r.2)
    | some argidx =>
      match p.curOptionArgval[argidx]? with
      -- the optional argument is not given in the argument list
      | none => return (.eof, none, p)
      | some arg => return (.ok, some arg, p)

end Parser

/-! ## The loop -/

/-- The parser after each result `> 0`, and the last status, with the parser then -/
structure Results where
  given : List Parser
  last : Status × Parser

/-- `while (res > 0) { ...; res = parser.next(); }`, with the parsers of the results so far -/
def round (s : List Parser × (Status × Parser)) :
    Except Fault Results ⊕ (List Parser × (Status × Parser)) :=
  if s.2.1 = .ok then
    match s.2.2.next with
    | .error e => .inl (.error e)
    | .ok r => .inr (s.1 ++ [s.2.2], r)
  else .inl (.ok ⟨s.1, s.2⟩)

/-- What `first`, and then the loop, comes to -/
def Ends (p : Parser) (argv : List Text) (r : Except Fault Results) : Prop :=
  match p.first argv with
  | .error e => r = .error e
  | .ok s => Loop.Returns round ([], s) r

/-! ## Grammar -/

/-- What is defined -/
structure Grammar where
  ignoreCase : Bool
  options : List OptionDescr
  nonoption : Option OptionDescr

/-- Whether a definition is the one of the non-option arguments -/
def Definition.isNonoption (d : Definition) : Bool :=
  d.shortOptionName = [] ∧ d.longOptionName = []

/-- An option is defined anew each time, the non-option arguments once. -/
def Grammar.of (ignoreCase : Bool) (defs : List Definition) : Grammar where
  ignoreCase := ignoreCase
  options := (defs.filter (!·.isNonoption)).map describe
  nonoption := (defs.filter (·.isNonoption)).getLast?.map describe

namespace Grammar

/-- The option that a name stands for -/
def find (d : Grammar) (oname : Text) : Option OptionDescr :=
  (d.options.filter fun o =>
    same d.ignoreCase oname o.shortName || same d.ignoreCase oname o.longName).getLast?

/-- The default tokens -/
def defaults (d : Grammar) : List Text :=
  d.options.flatMap fun o =>
    if o.defaultArgs = [] then [] else words (['-', '-'] ++ o.longName) ++ words o.defaultArgs

end Grammar

/-- `argv` without the program name, and its first word split at blanks if it starts with a dash
and contains blanks -/
def splitFirst : List Text → List Text
  | [] => []
  | arg :: args =>
    (if arg.head? = some '-' ∧ (' ' ∈ arg ∨ '\t' ∈ arg) then words arg else [arg]) ++ args

def Grammar.tokens (d : Grammar) (argv : List Text) : List Text :=
  d.defaults ++ splitFirst argv.tail

/-- What arguments belong to -/
inductive Head
  | option (word : Text) (descr : OptionDescr)
  | nonoption

structure Group where
  head : Head
  args : List Text

/-- The arguments go on to the next option, or the end. -/
def UpToOption (args rest : List Text) : Prop :=
  (∀ a ∈ args, getDashedOptionName a = []) ∧ ∀ w ∈ rest.head?, getDashedOptionName w ≠ []

/-- Where the arguments of an option end: after their number, if it is fixed. -/
def ArgsEnd (o : OptionDescr) (args rest : List Text) : Prop :=
  if o.fixArgCount ≠ o.maxArgCount then UpToOption args rest
  else args.length ≤ o.fixArgCount ∧ (args.length < o.fixArgCount → rest = [])

/-- A group stands at the beginning of the words. -/
inductive Takes (d : Grammar) : List Text → Group → List Text → Prop
  | option {w : Text} {o : OptionDescr} {args rest : List Text} : getDashedOptionName w ≠ [] →
      d.find (getDashedOptionName w) = some o → ArgsEnd o args rest →
      Takes d (w :: (args ++ rest)) ⟨.option w o, args⟩ rest
  | nonoption {args rest : List Text} : args ≠ [] → UpToOption args rest →
      Takes d (args ++ rest) ⟨.nonoption, args⟩ rest

/-- The description of a group, if there is one -/
def Grammar.descr (d : Grammar) (g : Group) : Option OptionDescr :=
  match g.head with
  | .option _ o => some o
  | .nonoption => d.nonoption

/-- The least and the greatest number of arguments; none are allowed without a description. -/
def Grammar.limits (d : Grammar) (g : Group) : ℕ × ℕ :=
  match d.descr g with
  | some o => (o.fixArgCount, o.maxArgCount)
  | none => (0, 0)

/-- How a command line ends -/
inductive End
  | eof
  | illegal (w : Text)
  | tooFew (g : Group)
  | tooMany (g : Group)

/-- The words are groups with the right numbers of arguments, up to the end or the first error. -/
inductive Parses (d : Grammar) : List Text → List Group → End → Prop
  | eof : Parses d [] [] .eof
  | illegal {w : Text} {ws : List Text} : getDashedOptionName w ≠ [] →
      d.find (getDashedOptionName w) = none → Parses d (w :: ws) [] (.illegal w)
  | tooFew {ws rest : List Text} {g : Group} : Takes d ws g rest →
      g.args.length < (d.limits g).1 → Parses d ws [] (.tooFew g)
  | tooMany {ws rest : List Text} {g : Group} : Takes d ws g rest →
      (d.limits g).1 ≤ g.args.length → (d.limits g).2 < g.args.length →
      Parses d ws [] (.tooMany g)
  | group {ws rest : List Text} {g : Group} {gs : List Group} {e : End} : Takes d ws g rest →
      (d.limits g).1 ≤ g.args.length → g.args.length ≤ (d.limits g).2 →
      Parses d rest gs e → Parses d ws (g :: gs) e

/-! ## What shall hold -/

/-- The value of an argument by its name: `none` if there is no such name, `some none` if it is
not given. -/
def Grammar.argValue (d : Grammar) (g : Group) (argname : Text) : Option (Option Text) :=
  match d.descr g with
  | none => none
  | some o =>
    ((o.fixArgs ++ o.varArgs).findIdx? (same d.ignoreCase argname)).map (g.args[·]?)

/-- The status and result of `arg_s` for that -/
def argReport : Option (Option Text) → Status × Option Text
  | none => (.illegalArg, none)
  | some none => (.eof, none)
  | some (some v) => (.ok, some v)

/-- `isoption` and `arg_s` tell about this group. -/
structure Reports (d : Grammar) (g : Group) (p : Parser) : Prop where
  isoption : ∀ name, p.isoption name = true ↔
    match g.head with
    | .option _ o => name ≠ [] ∧
        (same d.ignoreCase name o.shortName ∨ same d.ignoreCase name o.longName)
    | .nonoption => name = []
  argS : ∀ argname, ∃ p', p.argS argname =
    .ok ((argReport (d.argValue g argname)).1, (argReport (d.argValue g argname)).2, p')

/-- The last result is the error there is, or none. Where no other arguments are defined, any
error about their number will do. -/
inductive Agrees (d : Grammar) : End → Status × Parser → Prop
  | eof (p : Parser) : Agrees d .eof (.eof, p)
  | illegal (w : Text) {p : Parser} : (∀ name, p.isoption name = false) →
      Agrees d (.illegal w) (.illegalOption, p)
  | tooFew (g : Group) (p : Parser) : Agrees d (.tooFew g) (.minArgCount, p)
  | tooMany (g : Group) (p : Parser) : Agrees d (.tooMany g) (.maxArgCount, p)
  | undefined {g : Group} (p : Parser) : d.descr g = none → Agrees d (.tooMany g) (.minArgCount, p)

/-- The results are the groups of the words. -/
def Results.Match (r : Results) (d : Grammar) (ws : List Text) : Prop :=
  ∃ gs e, Parses d ws gs e ∧ List.Forall₂ (Reports d) gs r.given ∧ Agrees d e r.last

/-- The parser after `init` and `define` -/
def Parser.defined (p : Parser) (ignoreCase : Bool) (defs : List Definition) : Parser :=
  defs.foldl Parser.define (p.init ignoreCase)

/-- The loop ends, without a failing assertion, and gives the groups of the command line. -/
def ParsesRight (p : Parser) (ignoreCase : Bool) (defs : List Definition) (argv : List Text) :
    Prop :=
  ∃ r, Ends (p.defined ignoreCase defs) argv (.ok r) ∧
    r.Match (Grammar.of ignoreCase defs) ((Grammar.of ignoreCase defs).tokens argv)

/-- The words at which a group begins, or would have to, with the right numbers before. -/
inductive Reached (d : Grammar) : List Text → List Text → Prop
  | refl (ws : List Text) : Reached d ws ws
  | group {ws rest ws' : List Text} {g : Group} : Takes d ws g rest →
      (d.limits g).1 ≤ g.args.length → g.args.length ≤ (d.limits g).2 →
      Reached d rest ws' → Reached d ws ws'

/-- What the code needs there, if `o` holds what the descriptor of the other arguments held
before. -/
structure Fine (d : Grammar) (o : OptionDescr) (ws : List Text) : Prop where
  /-- No word is empty. -/
  nonempty : ws.head? ≠ some []
  /-- Other arguments that are not defined are refused by chance. -/
  refused : ∀ g rest, Takes d ws g rest → d.descr g = none →
    g.args.length < o.fixArgCount ∨ o.maxArgCount < g.args.length

end QUniBone.Getopt
