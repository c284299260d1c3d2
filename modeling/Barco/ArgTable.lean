import Barco.Getopt
import Barco.Syscall

/-!
# The option table (`argtable3.c`) and barco's own

An entry is its header and its values: `arg_lit` counts, `arg_int` and `arg_str`
hold what they were given. The terminator of the table is the list of errors,
`ArgEnd`; the loops up to `ARG_TERMINATOR` run over the entries before it. An
error is a code, the entry it is about or the list itself, and a text.

`binaryPrefix` says whether `strtol` in base 2 takes a `0b`, as it does in C23.
Allocations do not fail here, and a list of errors has room for one.
-/

namespace Barco

def ARG_ERR_MINCOUNT : Int := 1
def ARG_ERR_MAXCOUNT : Int := 2
def ARG_ERR_BADINT : Int := 3
def ARG_ERR_OVERFLOW : Int := 4
def ARG_ELIMIT : Int := 1
def ARG_ENOMATCH : Int := 3
def ARG_ELONGOPT : Int := 4
def ARG_EMISSARG : Int := 5

def chComma : UInt8 := 44

/-- `struct arg_hdr`: two bits of `flag`, the names and the bounds. -/
structure ArgHdr where
  hasValue : Bool
  hasOptValue : Bool
  shortopts : Option (List UInt8)
  longopts : Option (List UInt8)
  mincount : Nat
  maxcount : Nat

/-- The values of an entry, one for each count. An `int` that is counted without a value
stays as it was. -/
inductive ArgValues
  | lit (count : Nat)
  | int (ival : List (Option Int32))
  | str (sval : List (List UInt8))
  deriving DecidableEq

def ArgValues.count : ArgValues → Nat
  | .lit count => count
  | .int ival => ival.length
  | .str sval => sval.length

structure ArgEntry where
  hdr : ArgHdr
  values : ArgValues

/-- One of the errors of `struct arg_end`; its `parent` is `none` for the table's end. -/
structure ArgError where
  error : Int
  parent : Option Nat
  argval : Option (List UInt8)
  deriving DecidableEq

structure ArgEnd where
  maxcount : Nat
  errors : List ArgError

structure ArgTable where
  entries : List ArgEntry
  endtable : ArgEnd

/-! ## Constructors -/

def argLitn (shortopts longopts : Option (List UInt8)) (mincount maxcount : Nat) : ArgEntry where
  hdr := ⟨false, false, shortopts, longopts, mincount, max mincount maxcount⟩
  values := .lit 0

def argIntn (shortopts longopts : Option (List UInt8)) (mincount maxcount : Nat) : ArgEntry where
  hdr := ⟨true, false, shortopts, longopts, mincount, max mincount maxcount⟩
  values := .int []

def argStrn (shortopts longopts : Option (List UInt8)) (mincount maxcount : Nat) : ArgEntry where
  hdr := ⟨true, false, shortopts, longopts, mincount, max mincount maxcount⟩
  values := .str []

def argEnd (maxcount : Nat) : ArgEnd where
  maxcount := maxcount
  errors := []

/-! ## Integers -/

def isSpace (c : UInt8) : Bool := c = 32 || (9 ≤ c && c ≤ 13)

def toUpper (c : UInt8) : UInt8 := if 97 ≤ c ∧ c ≤ 122 then c - 32 else c

/-- The value of a digit in some base up to 36. -/
def digitValue (c : UInt8) : Nat :=
  if 48 ≤ c ∧ c ≤ 57 then c.toNat - 48
  else if 65 ≤ toUpper c ∧ toUpper c ≤ 90 then (toUpper c).toNat - 55
  else 36

def isDigit (base : Nat) (c : UInt8) : Bool := digitValue c < base

def numberValue (base : Nat) (digits : List UInt8) : Nat :=
  digits.foldl (fun n c => n * base + digitValue c) 0

/-- An optional sign, and what is behind it. -/
def scanSign : List UInt8 → Int × List UInt8
  | c :: s => if c = chDash then (-1, s) else if c = chPlus then (1, s) else (1, c :: s)
  | [] => (1, [])

/-- `strtol`: the value and the rest, or no conversion. The prefix of a base counts only in
front of a digit, and the value stays within 64 bits. -/
def strtolBase (binaryPrefix : Bool) (base : Nat) (s : List UInt8) : Option (Int × List UInt8) :=
  let (sign, s) := scanSign (s.dropWhile isSpace)
  let s :=
    match s with
    | 48 :: x :: c :: t =>
      if isDigit base c ∧
          (base = 16 ∧ toUpper x = 88 ∨ base = 2 ∧ binaryPrefix = true ∧ toUpper x = 66) then
        c :: t
      else s
    | _ => s
  let digits := s.takeWhile (isDigit base)
  if digits = [] then none
  else
    some (max (-2 ^ 63) (min (sign * numberValue base digits) (2 ^ 63 - 1)),
      s.dropWhile (isDigit base))

/-- `strtol0X`: white space, a sign and the prefix `0X`, and `strtol` behind it. -/
def strtol0X (binaryPrefix : Bool) (x : UInt8) (base : Nat) (s : List UInt8) :
    Option (Int × List UInt8) :=
  let (sign, s) := scanSign (s.dropWhile isSpace)
  match s with
  | 48 :: c :: t =>
    if toUpper c = toUpper x then
      (strtolBase binaryPrefix base t).map fun r => (sign * r.1, r.2)
    else none
  | _ => none

/-- `detectsuffix`: the suffix in either case, and white space behind it. -/
def detectsuffix : List UInt8 → List UInt8 → Bool
  | s, [] => (s.dropWhile isSpace).isEmpty
  | [], _ :: _ => false
  | c :: s, d :: suffix => if toUpper c = toUpper d then detectsuffix s suffix else false

def INT_MAX : Int := 2147483647
def INT_MIN : Int := -2147483648

/-- The units of the suffixes, in the order they are tried. -/
def suffixes : List (List UInt8 × Int) :=
  [(ascii "KB", 1024), (ascii "MB", 1048576), (ascii "GB", 1073741824)]

/-- The suffix at the end of a number; none but white space is a unit of 1. -/
def scanSuffix (rest : List UInt8) : Option Int :=
  match suffixes.find? fun suffix => detectsuffix rest suffix.1 with
  | some suffix => some suffix.2
  | none => if detectsuffix rest [] then some 1 else none

/-- The text of an integer: a hexadecimal, octal or binary prefix is tried before the
decimal form. A bad suffix replaces an overflow. -/
def argIntText (binaryPrefix : Bool) (s : List UInt8) : Except Int Int32 :=
  let number := (strtol0X binaryPrefix 88 16 s).or ((strtol0X binaryPrefix 79 8 s).or
    ((strtol0X binaryPrefix 66 2 s).or (strtolBase binaryPrefix 10 s)))
  match number with
  | none => .error ARG_ERR_BADINT
  | some (val, rest) =>
    match scanSuffix rest with
    | none => .error ARG_ERR_BADINT
    | some unit =>
      if INT_MAX < val ∨ val < INT_MIN then .error ARG_ERR_OVERFLOW
      else if unit ≠ 1 ∧ (INT_MAX.tdiv unit < val ∨ val < INT_MIN.tdiv unit) then
        .error ARG_ERR_OVERFLOW
      else .ok (Int32.ofInt (val * unit))

/-! ## Scanning and checking -/

def argLitScanfn (hdr : ArgHdr) (count : Nat) : Int × ArgValues :=
  if count < hdr.maxcount then (0, .lit (count + 1)) else (ARG_ERR_MAXCOUNT, .lit count)

def argIntScanfn (binaryPrefix : Bool) (hdr : ArgHdr) (ival : List (Option Int32))
    (argval : Option (List UInt8)) : Int × ArgValues :=
  if ival.length = hdr.maxcount then (ARG_ERR_MAXCOUNT, .int ival)
  else
    match argval with
    | none => (0, .int (ival ++ [none]))
    | some text =>
      match argIntText binaryPrefix text with
      | .error code => (code, .int ival)
      | .ok val => (0, .int (ival ++ [some val]))

/-- A string that is counted without a value is the empty one it begins as. -/
def argStrScanfn (hdr : ArgHdr) (sval : List (List UInt8)) (argval : Option (List UInt8)) :
    Int × ArgValues :=
  if sval.length = hdr.maxcount then (ARG_ERR_MAXCOUNT, .str sval)
  else (0, .str (sval ++ [argval.getD []]))

/-- The entry's `scanfn`: an error code, or 0. -/
def scanfn (binaryPrefix : Bool) (entry : ArgEntry) (argval : Option (List UInt8)) :
    Int × ArgEntry :=
  let r :=
    match entry.values with
    | .lit count => argLitScanfn entry.hdr count
    | .int ival => argIntScanfn binaryPrefix entry.hdr ival argval
    | .str sval => argStrScanfn entry.hdr sval argval
  (r.1, { entry with values := r.2 })

/-- The entry's `checkfn`, the same for the three types. -/
def checkfn (entry : ArgEntry) : Int :=
  if entry.values.count < entry.hdr.mincount then ARG_ERR_MINCOUNT else 0

/-- `arg_register_error`: when the list is full, its last error says so. -/
def argRegisterError (table : ArgTable) (e : ArgError) : ArgTable :=
  { table with endtable := { table.endtable with
    errors :=
      if table.endtable.errors.length < table.endtable.maxcount then table.endtable.errors ++ [e]
      else table.endtable.errors.set (table.endtable.maxcount - 1) ⟨ARG_ELIMIT, none, none⟩ } }

/-! ## What the scanner is given -/

/-- `find_shortoption`. -/
def findShortoption (table : ArgTable) (c : UInt8) : Option Nat :=
  table.entries.findIdx? fun entry => (entry.hdr.shortopts.getD []).contains c

/-- The long names of an entry, at its commas. -/
def longNames : List UInt8 → List (List UInt8)
  | [] => []
  | c :: s =>
    if c = chComma then [] :: longNames s
    else
      match s with
      | [] => [[c]]
      | d :: t =>
        if d = chComma then [c] :: longNames t
        else
          match longNames (d :: t) with
          | [] => [[c]]
          | name :: names => (c :: name) :: names

def entryHasArg (hdr : ArgHdr) : HasArg :=
  if hdr.hasOptValue then .optional else if hdr.hasValue then .required else .no

/-- `alloc_longoptions`: the names of all entries, with the index of each. Room is made for
one name more than there are commas behind the first character, so a list that begins with a
comma has too little, and the search leaves an empty list: such lists are left out. -/
def allocLongoptions (table : ArgTable) : List LongOption :=
  table.entries.zipIdx.flatMap fun (entry, tabindex) =>
    (longNames (entry.hdr.longopts.getD [])).map fun name =>
      ⟨name, entryHasArg entry.hdr, tabindex⟩

/-- `alloc_shortoptions`: a colon, and the letters of all entries. -/
def allocShortoptions (table : ArgTable) : List UInt8 :=
  chColon :: table.entries.flatMap fun entry =>
    (entry.hdr.shortopts.getD []).flatMap fun c =>
      c :: ((if entry.hdr.hasValue then [chColon] else []) ++
        if entry.hdr.hasOptValue then [chColon] else [])

/-! ## `arg_parse` -/

/-- The `resetfn` of the three types: no value is counted. -/
def ArgValues.reset : ArgValues → ArgValues
  | .lit _ => .lit 0
  | .int _ => .int []
  | .str _ => .str []

def ArgEntry.reset (entry : ArgEntry) : ArgEntry := { entry with values := entry.values.reset }

/-- `arg_reset`: the entries and the list of errors, which has a `resetfn` too. -/
def argReset (table : ArgTable) : ArgTable where
  entries := table.entries.map ArgEntry.reset
  endtable := { table.endtable with errors := [] }

/-- Scan a value for an entry, and register what is wrong with it. -/
def scanInto (binaryPrefix : Bool) (tabindex : Nat) (entry : ArgEntry)
    (optarg : Option (List UInt8)) (table : ArgTable) : ArgTable :=
  let r := scanfn binaryPrefix entry optarg
  let table := { table with entries := table.entries.set tabindex r.2 }
  if r.1 ≠ 0 then argRegisterError table ⟨r.1, some tabindex, optarg⟩ else table

/-- The `char` of an `int`. -/
def intChar (n : Int) : UInt8 := (Int8.ofInt n).toUInt8

/-- The body of the loop of `arg_parse_tagged`. -/
def handleOption (binaryPrefix : Bool) (copt : Int) (st : Getopt) (table : ArgTable) :
    Option ArgTable :=
  if copt = 0 then
    match table.entries[st.getoptval]?, st.nargv[st.optind - 1]? with
    | some entry, some last =>
      let table :=
        if st.optarg = some [] ∧ entry.hdr.hasValue = true then
          argRegisterError table ⟨ARG_EMISSARG, none, last⟩
        else table
      some (scanInto binaryPrefix st.getoptval entry st.optarg table)
    | _, _ => none
  else if copt = 63 then
    if st.optopt = 0 then
      (st.nargv[st.optind - 1]?).map fun last =>
        argRegisterError table ⟨ARG_ELONGOPT, none, last⟩
    else some (argRegisterError table ⟨st.optopt, none, none⟩)
  else if copt = 58 then
    (st.nargv[st.optind - 1]?).map fun last => argRegisterError table ⟨ARG_EMISSARG, none, last⟩
  else
    match findShortoption table (intChar copt) with
    | none => some (argRegisterError table ⟨copt, none, none⟩)
    | some tabindex =>
      (table.entries[tabindex]?).map fun entry =>
        scanInto binaryPrefix tabindex entry st.optarg table

/-- A loop that has ended, has no defined continuation, or still runs. -/
inductive Parsed (α : Type)
  | done (a : α)
  | undefined
  | looping
  deriving DecidableEq

/-- What a loop that has ended returns. -/
def Parsed.result {α : Type} : Parsed α → Option α
  | .done a => some a
  | _ => none

theorem Parsed.result_eq_some {α : Type} {p : Parsed α} {a : α} :
    p.result = some a ↔ p = .done a := by
  cases p <;> simp [result]

/-- The loop of `arg_parse_tagged`, for at most so many rounds. -/
def argParseTagged (posixlyCorrect binaryPrefix : Bool) (nargc : Nat) (options : List UInt8)
    (longOptions : List LongOption) : Nat → Getopt → ArgTable → Parsed (Getopt × ArgTable)
  | 0, _, _ => .looping
  | n + 1, st, table =>
    match getoptLong posixlyCorrect nargc options longOptions st with
    | none => .undefined
    | some (copt, st) =>
      if copt = -1 then .done (st, table)
      else
        match handleOption binaryPrefix copt st table with
        | none => .undefined
        | some table =>
          argParseTagged posixlyCorrect binaryPrefix nargc options longOptions n st table

/-- The words behind the last one that an untagged entry has taken are errors. -/
def rejectWords (words : Argv) (table : ArgTable) : ArgTable :=
  words.foldl (fun table word => argRegisterError table ⟨ARG_ENOMATCH, none, word⟩) table

/-- `arg_parse_untagged` from an entry on, with the words left and the last tentative error.
A round goes to the next entry or to the next word, so `n` of both together is enough. -/
def argParseUntagged (binaryPrefix : Bool) :
    (n tabindex : Nat) → (words : Argv) → Option ArgError → ArgTable → ArgTable
  | 0, _, _, _, table => table
  | n + 1, tabindex, words, errorlast, table =>
    match table.entries[tabindex]? with
    | none =>
      match errorlast with
      | none => rejectWords words table
      | some e => rejectWords (words.drop 1) (argRegisterError table e)
    | some entry =>
      match words with
      | [] => table
      | word :: rest =>
        if entry.hdr.longopts.isSome || entry.hdr.shortopts.isSome then
          argParseUntagged binaryPrefix n (tabindex + 1) words errorlast table
        else
          let r := scanfn binaryPrefix entry word
          let table := { table with entries := table.entries.set tabindex r.2 }
          if r.1 = 0 then argParseUntagged binaryPrefix n tabindex rest none table
          else
            argParseUntagged binaryPrefix n (tabindex + 1) words
              (some ⟨r.1, some tabindex, word⟩) table

/-- `arg_parse_check`. -/
def argParseCheck (table : ArgTable) : ArgTable :=
  table.entries.zipIdx.foldl (fun t (entry, tabindex) =>
    if checkfn entry ≠ 0 then argRegisterError t ⟨checkfn entry, some tabindex, none⟩ else t) table

/-- The scanner before its first call, with the copy of the vector. -/
def getoptStart (argv : List (List UInt8)) : Getopt where
  nargv := argv.map some ++ [none]
  optind := 0
  optreset := false
  optopt := 63
  optarg := none
  place := []
  nonoptStart := none
  nonoptEnd := none
  getoptval := 0

/-- `arg_parse`. The result is the number of errors, `endtable.errors.length`. -/
def argParse (posixlyCorrect binaryPrefix : Bool) (rounds : Nat) (argv : List (List UInt8))
    (table : ArgTable) : Parsed ArgTable :=
  let table := argReset table
  if argv = [] then .done (argParseCheck table)
  else
    match argParseTagged posixlyCorrect binaryPrefix argv.length (allocShortoptions table)
        (allocLongoptions table) rounds (getoptStart argv) table with
    | .looping => .looping
    | .undefined => .undefined
    | .done (st, table) =>
      let words := (st.nargv.take argv.length).drop st.optind
      let table := argParseUntagged binaryPrefix (table.entries.length + words.length + 1) 0 words
        none table
      .done (if table.endtable.errors = [] then argParseCheck table else table)

/-! ## barco's table -/

def longName (s : String) : Option (List UInt8) := some (ascii s)

/-- `argtable` of `main`. -/
def barcoTable : ArgTable where
  entries :=
    [ argLitn none (longName "help") 0 1,
      argLitn none (longName "version") 0 1,
      argIntn (longName "u") (longName "uid") 1 1,
      argStrn (longName "m") (longName "mnt") 1 1,
      argStrn (longName "c") (longName "cmd") 1 1,
      argStrn (longName "a") (longName "arg") 0 1,
      argLitn (longName "v") (longName "verbosity") 0 1,
      argStrn none (longName "veth") 0 1,
      argStrn none (longName "veth-peer") 0 1,
      argStrn none (longName "container-ip") 0 1,
      argStrn none (longName "host-ip") 0 1,
      argLitn none (longName "nat") 0 1,
      argStrn none (longName "dns") 0 1 ]
  endtable := argEnd 20

theorem argReset_barcoTable : argReset barcoTable = barcoTable := rfl

end Barco
