import Barco.Lists.BlockExchange

/-!
# The option scanner (`getopt_long` of `argtable3.c`)

The static variables of the scanner and the argument vector it permutes are one
record, `Getopt`. A `char *` is the bytes up to the terminator, and `place` is
what is left of the word being read. The vector has `argc` words and the NULL
behind them; `none` is a run without a defined continuation: an access outside
the vector, a NULL that is read as a string, a division by zero.

The scanner runs as `arg_parse` sets it up, with `opterr` 0 and without
`FLAG_LONGONLY`, so it prints nothing and `short_too` stays 0. `place` never
equals `nargv[optind]`, since at least the leading dash has been read.
-/

namespace Barco

def chDash : UInt8 := 45
def chColon : UInt8 := 58
def chSemi : UInt8 := 59
def chEqual : UInt8 := 61
def chPlus : UInt8 := 43
def chW : UInt8 := 87

/-- The value of a `char` as an `int`: `char` is signed. -/
def charInt (c : UInt8) : Int := c.toInt8.toInt

/-- An argument vector: words, and the NULL behind the last. -/
abbrev Argv : Type := List (Option (List UInt8))

inductive HasArg
  | no
  | required
  | optional
  deriving DecidableEq

/-- `struct option`. Its `flag` points to the one `getoptval` in every entry. -/
structure LongOption where
  name : List UInt8
  hasArg : HasArg
  val : Nat
  deriving DecidableEq

/-- The state between two calls. `nonoptStart` and `nonoptEnd` are `none` for -1. -/
structure Getopt where
  nargv : Argv
  optind : Nat
  optreset : Bool
  optopt : Int
  optarg : Option (List UInt8)
  place : List UInt8
  nonoptStart : Option Nat
  nonoptEnd : Option Nat
  getoptval : Nat

/-! ## Permutation -/

/-- The loop of `gcd`. The remainder falls, so `b` rounds are enough. -/
def gcdLoop : Nat → Nat → Nat → Nat
  | 0, _, b => b
  | n + 1, a, b => if a % b = 0 then b else gcdLoop n b (a % b)

/-- `gcd`, which begins with `a % b`. -/
def gcd (a b : Nat) : Option Nat := if b = 0 then none else some (gcdLoop b a b)

/-- Exchange `nargv[pos]` and `nargv[cstart]`. -/
def swapArgs (pos cstart : Nat) (nargv : Argv) : Option Argv := do
  let swap ← nargv[pos]?
  let first ← nargv[cstart]?
  return (nargv.set pos first).set cstart swap

/-- The inner loop of `permute_args`, with `j` rounds to go. -/
def permuteCycle (nonoptEnd nnonopts nopts cstart : Nat) : Nat → Nat → Argv → Option Argv
  | 0, _, nargv => some nargv
  | j + 1, pos, nargv => do
    let pos := if nonoptEnd ≤ pos then pos - nnonopts else pos + nopts
    permuteCycle nonoptEnd nnonopts nopts cstart j pos (← swapArgs pos cstart nargv)

/-- The first `i` rounds of the outer loop. -/
def permuteCycles (nonoptEnd nnonopts nopts cyclelen : Nat) : Nat → Argv → Option Argv
  | 0, nargv => some nargv
  | i + 1, nargv => do
    let cstart := nonoptEnd + i
    permuteCycle nonoptEnd nnonopts nopts cstart cyclelen cstart
      (← permuteCycles nonoptEnd nnonopts nopts cyclelen i nargv)

/-- `permute_args`. -/
def permuteArgs (nonoptStart nonoptEnd optEnd : Nat) (nargv : Argv) : Option Argv := do
  let nnonopts := nonoptEnd - nonoptStart
  let nopts := optEnd - nonoptEnd
  let ncycle ← gcd nnonopts nopts
  let cyclelen := (optEnd - nonoptStart) / ncycle
  permuteCycles nonoptEnd nnonopts nopts cyclelen ncycle nargv

/-! ## Long options -/

def BADCH : Int := 63

/-- `:` where the option letters begin with one, else `?`. -/
def badArg (options : List UInt8) : Int := if options.head? = some chColon then 58 else 63

/-- What the loop over `long_options` ends with. A name is ambiguous when it is the
beginning of several that ask for different things, and none of them itself. -/
inductive LongMatch
  | found (opt : LongOption)
  | unknown
  | ambiguous
  deriving DecidableEq

/-- The loop over `long_options` from one entry on, with the first partial match so far. -/
def matchLong (name : List UInt8) :
    List LongOption → Option LongOption → (secondPartialMatch : Bool) → LongMatch
  | [], none, second => if second then .ambiguous else .unknown
  | [], some opt, second => if second then .ambiguous else .found opt
  | opt :: rest, first, second =>
    if !name.isPrefixOf opt.name then matchLong name rest first second
    else if opt.name.length = name.length then .found opt
    else
      match first with
      | none => matchLong name rest (some opt) second
      | some opt' =>
        matchLong name rest first
          (second || !decide (opt.hasArg = opt'.hasArg ∧ opt.val = opt'.val))

/-- `parse_long_options` on the name at `place`. The argument behind an `=` goes first, then
the next word where one is required. -/
def parseLongOptions (options : List UInt8) (longOptions : List LongOption) (st : Getopt) :
    Option (Int × Getopt) :=
  let name := st.place.takeWhile (· ≠ chEqual)
  let hasEqual : Option (List UInt8) :=
    if chEqual ∈ st.place then some (st.place.drop (name.length + 1)) else none
  let st := { st with optind := st.optind + 1 }
  match matchLong name longOptions none false with
  | .ambiguous => some (BADCH, { st with optopt := 0 })
  | .unknown => some (BADCH, { st with optopt := 0 })
  | .found opt =>
    let ok (st : Getopt) : Int × Getopt := (0, { st with getoptval := opt.val })
    match opt.hasArg, hasEqual with
    | .no, none => some (ok st)
    | .no, some _ => some (BADCH, { st with optopt := 0 })
    | .optional, none => some (ok st)
    | .optional, some arg => some (ok { st with optarg := some arg })
    | .required, some arg => some (ok { st with optarg := some arg })
    | .required, none =>
      match st.nargv[st.optind]? with
      | none => none
      -- the NULL behind the last word: `optind` goes past it and comes back
      | some none => some (badArg options, { st with optarg := none, optopt := 0 })
      | some (some arg) => some (ok { st with optarg := some arg, optind := st.optind + 1 })

/-! ## The next option -/

/-- The flags of one call: `FLAG_PERMUTE` and `FLAG_ALLARGS`, and the option letters behind
a leading `+` or `-`. -/
structure Letters where
  permute : Bool
  allargs : Bool
  options : List UInt8

/-- `posixlyCorrect`: the environment has `POSIXLY_CORRECT`. -/
def letters (posixlyCorrect : Bool) (options : List UInt8) : Letters where
  permute := options.head? = some chDash || !(posixlyCorrect || options.head? = some chPlus)
  allargs := options.head? = some chDash
  options := if options.head? = some chDash ∨ options.head? = some chPlus then options.drop 1
    else options

/-- What the code behind `start` ends with: a return, or a word that begins with a dash. -/
inductive Scanned
  | ret (copt : Int) (st : Getopt)
  | option (st : Getopt)

/-- Move the words that are no options behind the options read since. -/
def permuteNonopts (st : Getopt) : Option Getopt :=
  match st.nonoptStart, st.nonoptEnd with
  | some first, some last => do
    let nargv ← permuteArgs first last st.optind st.nargv
    return { st with nargv := nargv, optind := st.optind - (last - first) }
  -- `nonopt_start` is -1
  | none, some _ => none
  | _, none => some st

/-- `nonopt_end` is set where an option follows operands. -/
def endNonopts (st : Getopt) : Getopt :=
  if st.nonoptStart.isSome && st.nonoptEnd.isNone then { st with nonoptEnd := some st.optind }
  else st

/-- The code behind `start`, with `nargc - optind` words to go. -/
def scanWords (l : Letters) : Nat → Getopt → Option Scanned
  | 0, st => do
    let st := { st with place := [] }
    let st ← match st.nonoptStart, st.nonoptEnd with
      | some first, none => some { st with optind := first }
      | _, _ => permuteNonopts st
    return .ret (-1) { st with nonoptStart := none, nonoptEnd := none }
  | n + 1, st =>
    match st.nargv[st.optind]? with
    | some (some word) =>
      if word.head? ≠ some chDash ∨ word.length = 1 then
        let st := { st with place := [] }
        if l.allargs then
          some (.ret 1 { st with optarg := some word, optind := st.optind + 1 })
        else if !l.permute then some (.ret (-1) st)
        else
          match st.nonoptStart, st.nonoptEnd with
          | none, _ =>
            scanWords l n { st with nonoptStart := some st.optind, optind := st.optind + 1 }
          | some _, none => scanWords l n { st with optind := st.optind + 1 }
          | some first, some last => do
            let nargv ← permuteArgs first last st.optind st.nargv
            scanWords l n { st with
              nargv := nargv
              nonoptStart := some (st.optind - (last - first))
              nonoptEnd := none
              optind := st.optind + 1 }
      else
        let st := endNonopts st
        if word = [chDash, chDash] then do
          let st ← permuteNonopts { st with optind := st.optind + 1, place := [] }
          return .ret (-1) { st with nonoptStart := none, nonoptEnd := none }
        else some (.option { st with place := word.drop 1 })
    | _ => none

/-- A short option: the letter at `place` is looked up with `strchr`. -/
def shortOption (nargc : Nat) (options : List UInt8) (longOptions : List LongOption)
    (st : Getopt) : Option (Int × Getopt) :=
  match st.place with
  -- a NUL is no letter: `place++` would pass it
  | [] => none
  | c :: rest =>
    let next := if rest = [] then st.optind + 1 else st.optind
    let oli := options.dropWhile (· ≠ c)
    if c = chColon ∨ (c = chDash ∧ rest ≠ []) ∨ c ∉ options then
      if c = chDash ∧ rest = [] then some (-1, { st with place := rest })
      else some (BADCH, { st with place := rest, optind := next, optopt := charInt c })
    else if c = chW ∧ oli[1]? = some chSemi then
      if rest ≠ [] then do
        let (copt, st) ← parseLongOptions options longOptions { st with place := rest }
        return (copt, { st with place := [] })
      else if nargc ≤ st.optind + 1 then
        some (badArg options,
          { st with place := [], optind := st.optind + 1, optopt := charInt c })
      else
        match st.nargv[st.optind + 1]? with
        | some (some word) => do
          let (copt, st) ← parseLongOptions options longOptions
            { st with place := word, optind := st.optind + 1 }
          return (copt, { st with place := [] })
        | _ => none
    else if oli[1]? ≠ some chColon then
      some (charInt c, { st with place := rest, optind := next })
    else if rest ≠ [] then
      some (charInt c, { st with place := [], optarg := some rest, optind := st.optind + 1 })
    else if oli[2]? = some chColon then
      some (charInt c, { st with place := [], optarg := none, optind := st.optind + 1 })
    else if nargc ≤ st.optind + 1 then
      some (badArg options,
        { st with place := [], optarg := none, optind := st.optind + 1, optopt := charInt c })
    else
      match st.nargv[st.optind + 1]? with
      | some (some arg) =>
        some (charInt c, { st with place := [], optarg := some arg, optind := st.optind + 2 })
      | _ => none

/-- The option at `place`: a long one behind a second dash, else a letter. -/
def readOption (nargc : Nat) (options : List UInt8) (longOptions : List LongOption)
    (st : Getopt) : Option (Int × Getopt) :=
  if st.place.head? = some chDash then
    let st := { st with place := st.place.drop 1 }
    -- malformed option: `optind` stays at the word
    if st.place = [] then some (badArg options, st)
    else do
      let (copt, st) ← parseLongOptions options longOptions st
      return (copt, { st with place := [] })
  else shortOption nargc options longOptions st

/-- `getopt_long`: `getopt_internal` with `FLAG_PERMUTE`. -/
def getoptLong (posixlyCorrect : Bool) (nargc : Nat) (options : List UInt8)
    (longOptions : List LongOption) (st : Getopt) : Option (Int × Getopt) := do
  let st := if st.optind = 0 then { st with optind := 1, optreset := true } else st
  let l := letters posixlyCorrect options
  let st := { st with optarg := none }
  let st := if st.optreset then { st with nonoptStart := none, nonoptEnd := none } else st
  if st.optreset ∨ st.place = [] then
    match ← scanWords l (nargc - st.optind) { st with optreset := false } with
    | .ret copt st => return (copt, st)
    | .option st => readOption nargc l.options longOptions st
  else readOption nargc l.options longOptions st

end Barco
