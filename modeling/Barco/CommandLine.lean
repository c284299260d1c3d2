import Barco.ArgTable
import Barco.GetoptReading

/-!
# `arg_parse` reads the command line from left to right

`arg_parse_tagged` calls the scanner until it returns -1, and scans what each
call finds into the table. The calls are the steps of `OptionWords.next`, so the
loop does to the table what the items of the reading say, in their order, and it
ends just when the line has a reading.

1. `handleOption_item`: the body of the loop applies one item.
2. `argParseTagged_reads`, `argParseTagged_loops`: the loop on a line that has a
   reading, and on one that has none.
3. `argParse_of_reading`, `argParse_of_none`: `arg_parse` as a whole.
4. `argParse_eq_reading`, `argParse_defined`, `argParseTagged_vector`: every line.
5. `barco_never_returns`: the lines that barco does not return from.
-/

namespace Barco

open OptionWords

/-- What an item does to the table. -/
def applyItem (binaryPrefix : Bool) (table : ArgTable) : Item UInt8 → ArgTable
  | .long tabindex value word =>
    match table.entries[tabindex]? with
    -- `val` is always the index of an entry
    | none => argRegisterError table ⟨ARG_ELONGOPT, none, some word⟩
    | some entry =>
      scanInto binaryPrefix tabindex entry value
        (if value = some [] ∧ entry.hdr.hasValue = true then
          argRegisterError table ⟨ARG_EMISSARG, none, some word⟩
        else table)
  | .short c value =>
    match findShortoption table c with
    | none => argRegisterError table ⟨charInt c, none, none⟩
    | some tabindex =>
      match table.entries[tabindex]? with
      | none => table
      | some entry => scanInto binaryPrefix tabindex entry value table
  | .unknownLong word => argRegisterError table ⟨ARG_ELONGOPT, none, some word⟩
  | .unknownShort c => argRegisterError table ⟨charInt c, none, none⟩
  | .missing word => argRegisterError table ⟨ARG_EMISSARG, none, some word⟩

/-- The letters a scan can tell from its own answers: -1, `?` and 0 are none of them. -/
structure Scannable (options : List UInt8) : Prop extends Plain options where
  nul : 0 ∉ options
  mark : 63 ∉ options
  eof : 255 ∉ options

/-- The options of a table. -/
def tableOptions (table : ArgTable) : Options UInt8 :=
  optionsOf (allocShortoptions table) (allocLongoptions table)

/-! ## `arg_reset` leaves the options as they are -/

@[simp] theorem allocShortoptions_argReset (table : ArgTable) :
    allocShortoptions (argReset table) = allocShortoptions table := by
  simp only [allocShortoptions, argReset, List.flatMap_map]
  rfl

@[simp] theorem allocLongoptions_argReset (table : ArgTable) :
    allocLongoptions (argReset table) = allocLongoptions table := by
  simp only [allocLongoptions, argReset, List.zipIdx_map, List.flatMap_map]
  rfl

@[simp] theorem tableOptions_argReset (table : ArgTable) :
    tableOptions (argReset table) = tableOptions table := by
  simp only [tableOptions, allocShortoptions_argReset, allocLongoptions_argReset]

section Items

variable {binaryPrefix : Bool} {table : ArgTable}

@[simp] theorem argRegisterError_entries (table : ArgTable) (e : ArgError) :
    (argRegisterError table e).entries = table.entries := rfl

theorem scanInto_length (tabindex : Nat) (entry : ArgEntry) (value : Option (List UInt8))
    (table : ArgTable) :
    (scanInto binaryPrefix tabindex entry value table).entries.length = table.entries.length := by
  unfold scanInto
  dsimp only
  split
  · rw [argRegisterError_entries, List.length_set]
  · rw [List.length_set]

theorem applyItem_length (item : Item UInt8) :
    (applyItem binaryPrefix table item).entries.length = table.entries.length := by
  cases item with
  | long tabindex value word =>
    unfold applyItem
    dsimp only
    split
    · rfl
    · rw [scanInto_length]
      split <;> rfl
  | short c value =>
    unfold applyItem
    dsimp only
    split
    · rfl
    · split
      · rfl
      · rw [scanInto_length]
  | unknownLong word => rfl
  | unknownShort c => rfl
  | missing word => rfl

theorem intChar_charInt (c : UInt8) : intChar (charInt c) = c := by
  unfold intChar charInt
  rw [Int8.ofInt_toInt]
  rfl

theorem charInt_injective {c d : UInt8} (h : charInt c = charInt d) : c = d := by
  have := congrArg intChar h
  rwa [intChar_charInt, intChar_charInt] at this

/-- The body of the loop does what the item says. -/
theorem handleOption_item (binaryPrefix : Bool) {options : List UInt8}
    {longOptions : List LongOption} {copt : Int} {st : Getopt} {item : Item UInt8} (hs : Scannable options)
    (hlong : ∀ opt ∈ longOptions, opt.val < table.entries.length)
    (hnul : item ≠ .unknownShort 0) (h : Shows options longOptions copt st item) :
    copt ≠ -1 ∧ handleOption binaryPrefix copt st table =
      some (applyItem binaryPrefix table item) := by
  unfold handleOption
  cases item with
  | long val value word =>
    obtain ⟨⟨opt, hmem, rfl⟩, rfl, hval, rfl, hlast⟩ := h
    refine ⟨by decide, ?_⟩
    have hlt : opt.val < table.entries.length := hlong opt hmem
    have hget : table.entries[opt.val]? = some table.entries[opt.val] :=
      List.getElem?_eq_getElem hlt
    rw [if_pos rfl, hval, hlast, hget]
    unfold applyItem
    dsimp only
    rw [hget]
  | short c value =>
    obtain ⟨⟨hmem, hcolon⟩, rfl, rfl⟩ := h
    have hnot : ∀ d, d ∉ options → charInt c ≠ charInt d := by
      intro d hd heq
      exact hd (charInt_injective heq ▸ hmem)
    have hzero : charInt c ≠ 0 := hnot 0 hs.nul
    have hmark : charInt c ≠ 63 := hnot 63 hs.mark
    have hcolon' : charInt c ≠ 58 := fun heq => hcolon (charInt_injective heq)
    refine ⟨hnot 255 hs.eof, ?_⟩
    rw [if_neg hzero, if_neg hmark, if_neg hcolon', intChar_charInt]
    unfold applyItem
    dsimp only
    rcases hfind : findShortoption table c with _ | tabindex
    · rfl
    · have hlt : tabindex < table.entries.length :=
        (List.findIdx?_eq_some_iff_getElem.mp hfind).1
      have hget : table.entries[tabindex]? = some table.entries[tabindex] :=
        List.getElem?_eq_getElem hlt
      dsimp only
      rw [hget]
      rfl
  | unknownLong word =>
    obtain ⟨rfl, hopt, hlast⟩ := h
    refine ⟨by decide, ?_⟩
    rw [if_neg (by decide), if_pos (show BADCH = 63 from rfl), if_pos hopt, hlast]
    rfl
  | unknownShort c =>
    obtain ⟨rfl, hopt⟩ := h
    have hzero : st.optopt ≠ 0 := by
      rw [hopt]
      intro heq
      obtain rfl := charInt_injective (heq.trans (by decide : (0 : Int) = charInt 0))
      exact hnul rfl
    refine ⟨by decide, ?_⟩
    rw [if_neg (by decide), if_pos (show BADCH = 63 from rfl), if_neg hzero, hopt]
    rfl
  | missing word =>
    obtain ⟨rfl, hlast⟩ := h
    refine ⟨by decide, ?_⟩
    rw [if_neg (by decide), if_neg (by decide), if_pos rfl, hlast]
    rfl

end Items

/-! ## The loop -/

section Loop

variable {posixlyCorrect binaryPrefix : Bool} {argv0 : List UInt8} {nargc : Nat}
  {options : List UInt8} {longOptions : List LongOption} {st : Getopt} {cfg : Config UInt8}
  {table : ArgTable}

/-- The loop between two calls: what is left has no NUL, and each long option an entry. -/
structure Scanning (posixlyCorrect : Bool) (argv0 : List UInt8) (nargc : Nat)
    (options : List UInt8) (longOptions : List LongOption) (st : Getopt) (cfg : Config UInt8)
    (table : ArgTable) : Prop where
  layout : Layout (optionsOf options longOptions) (!posixlyCorrect) argv0 nargc st cfg
  started : cfg.Started (optionsOf options longOptions)
  clean : cfg.All (· ≠ 0)
  long : ∀ opt ∈ longOptions, opt.val < table.entries.length

/-- The last word passed, which the messages name, is in the vector. -/
theorem Layout.passed {o : Options UInt8} {permute : Bool}
    (h : Layout o permute argv0 nargc st cfg) : ∃ last, st.nargv[st.optind - 1]? = some last := by
  obtain ⟨front, opts, hread, hnargv, -⟩ := h.blocks
  have hlen : st.optind - 1 < st.nargv.length := by
    have := h.optind
    rw [hnargv, vector]
    simp only [List.length_append, List.length_map, List.length_cons, List.length_nil]
    rw [hread, List.length_append] at this
    omega
  exact ⟨_, List.getElem?_eq_getElem hlen⟩

/-- One round over something found. -/
theorem argParseTagged_item (binaryPrefix : Bool) (hs : Scannable options)
    (h : Scanning posixlyCorrect argv0 nargc options longOptions st cfg table) {item : Item UInt8}
    {cfg' : Config UInt8}
    (hnext : next (optionsOf options longOptions) (!posixlyCorrect) cfg = .item item cfg')
    (hstarted : cfg'.Started (optionsOf options longOptions)) :
    ∃ st', Scanning posixlyCorrect argv0 nargc options longOptions st' cfg'
        (applyItem binaryPrefix table item) ∧
      ∀ n, argParseTagged posixlyCorrect binaryPrefix nargc options longOptions (n + 1) st table =
        argParseTagged posixlyCorrect binaryPrefix nargc options longOptions n st'
          (applyItem binaryPrefix table item) := by
  have hcall := getoptLong_next hs.toPlain h.layout h.started
  have hall := next_all (optionsOf options longOptions) (!posixlyCorrect) h.clean
  rw [hnext] at hcall hall
  obtain ⟨copt, st', hret, hlayout, hshows⟩ := hcall
  have hnul : item ≠ .unknownShort 0 := fun heq => hall.1 0 heq rfl
  obtain ⟨hcopt, hhandle⟩ :=
    handleOption_item binaryPrefix hs h.long hnul hshows
  refine ⟨st', ⟨hlayout, hstarted, hall.2, fun opt hopt => ?_⟩, fun n => ?_⟩
  · rw [applyItem_length]
    exact h.long opt hopt
  · rw [argParseTagged, hret]
    dsimp only
    rw [if_neg hcopt, hhandle]

/-- One round over letters that end with a dash: the word is begun again. -/
theorem argParseTagged_stuck (binaryPrefix : Bool) (hs : Scannable options)
    (h : Scanning posixlyCorrect argv0 nargc options longOptions st cfg table)
    {cfg' : Config UInt8}
    (hnext : next (optionsOf options longOptions) (!posixlyCorrect) cfg = .stuck cfg')
    (hstarted : cfg'.Started (optionsOf options longOptions)) :
    ∃ st' table', Scanning posixlyCorrect argv0 nargc options longOptions st' cfg' table' ∧
      ∀ n, argParseTagged posixlyCorrect binaryPrefix nargc options longOptions (n + 1) st table =
        argParseTagged posixlyCorrect binaryPrefix nargc options longOptions n st' table' := by
  have hcall := getoptLong_next hs.toPlain h.layout h.started
  have hall := next_all (optionsOf options longOptions) (!posixlyCorrect) h.clean
  rw [hnext] at hcall hall
  obtain ⟨st', hret, hlayout⟩ := hcall
  obtain ⟨last, hlast⟩ := hlayout.passed
  refine ⟨st', argRegisterError table ⟨ARG_EMISSARG, none, last⟩,
    ⟨hlayout, hstarted, hall, h.long⟩, fun n => ?_⟩
  have hhandle : handleOption binaryPrefix 58 st' table =
      some (argRegisterError table ⟨ARG_EMISSARG, none, last⟩) := by
    unfold handleOption
    rw [if_neg (by decide), if_neg (by decide), if_pos rfl, hlast]
    rfl
  rw [argParseTagged, hret]
  dsimp only
  rw [if_neg (by decide), hhandle]

/-- More rounds do not change where the loop has ended. -/
theorem argParseTagged_mono {n : Nat} {ret : Getopt × ArgTable}
    (h : argParseTagged posixlyCorrect binaryPrefix nargc options longOptions n st table =
      .done ret) (k : Nat) :
    argParseTagged posixlyCorrect binaryPrefix nargc options longOptions (n + k) st table =
      .done ret := by
  induction n generalizing st table with
  | zero => cases h
  | succ n ih =>
    rw [Nat.succ_add_eq_add_succ, Nat.add_succ]
    unfold argParseTagged at h ⊢
    rcases hcall : getoptLong posixlyCorrect nargc options longOptions st with _ | ⟨copt, st'⟩
    · rw [hcall] at h
      cases h
    · rw [hcall] at h
      dsimp only at h ⊢
      by_cases hcopt : copt = -1
      · rw [if_pos hcopt] at h ⊢
        exact h
      · rw [if_neg hcopt] at h ⊢
        rcases hhandle : handleOption binaryPrefix copt st' table with _ | table'
        · rw [hhandle] at h
          cases h
        · rw [hhandle] at h
          exact ih h

/-- A line that has a reading: the loop applies its items, and ends. -/
theorem argParseTagged_reads (binaryPrefix : Bool) (hs : Scannable options)
    (h : Scanning posixlyCorrect argv0 nargc options longOptions st cfg table)
    {r : Reading UInt8}
    (hout : outcome (optionsOf options longOptions) (!posixlyCorrect) cfg = some r) :
    ∃ st', LineRead argv0 st' r.read r.operands ∧ ∀ n, r.items.length < n →
      argParseTagged posixlyCorrect binaryPrefix nargc options longOptions n st table =
        .done (st', r.items.foldl (applyItem binaryPrefix) table) := by
  obtain ⟨items, read, operands⟩ := r
  induction items generalizing st cfg table with
  | nil =>
    have hcall := getoptLong_next hs.toPlain h.layout h.started
    rw [next_eq_stop h.started hout] at hcall
    obtain ⟨st', hret, hread⟩ := hcall
    refine ⟨st', hread, fun n hn => ?_⟩
    obtain ⟨m, rfl⟩ := Nat.exists_eq_succ_of_ne_zero (Nat.ne_of_gt (Nat.zero_lt_of_lt hn))
    rw [Nat.succ_eq_add_one, argParseTagged, hret]
    rfl
  | cons item items ih =>
    obtain ⟨cfg', hnext, hstarted, hout'⟩ := next_eq_item h.started rfl hout
    obtain ⟨st', h', hround⟩ := argParseTagged_item binaryPrefix hs h hnext hstarted
    obtain ⟨st'', hread, hrun⟩ := ih h' hout'
    refine ⟨st'', hread, fun n hn => ?_⟩
    obtain ⟨m, rfl⟩ := Nat.exists_eq_succ_of_ne_zero (Nat.ne_of_gt (Nat.zero_lt_of_lt hn))
    rw [Nat.succ_eq_add_one, hround, hrun m (Nat.lt_of_succ_lt_succ hn)]
    rfl

/-- A line that has none: the loop never ends, and every round of it is defined. -/
theorem argParseTagged_loops (binaryPrefix : Bool) (hs : Scannable options)
    (h : Scanning posixlyCorrect argv0 nargc options longOptions st cfg table)
    (hout : outcome (optionsOf options longOptions) (!posixlyCorrect) cfg = none) (n : Nat) :
    argParseTagged posixlyCorrect binaryPrefix nargc options longOptions n st table =
      .looping := by
  induction n generalizing st cfg table with
  | zero => rfl
  | succ n ih =>
    obtain ⟨cfg', hnext, hstarted, hout'⟩ := next_of_none h.started hout
    rcases hnext with hstuck | ⟨item, hitem⟩
    · obtain ⟨st', table', h', hround⟩ :=
        argParseTagged_stuck binaryPrefix hs h hstuck hstarted
      rw [hround, ih h' hout']
    · obtain ⟨st', h', hround⟩ :=
        argParseTagged_item binaryPrefix hs h hitem hstarted
      rw [hround, ih h' hout']

end Loop

/-! ## The whole of `arg_parse` -/

section Whole

variable {posixlyCorrect binaryPrefix : Bool} {table : ArgTable}

/-- The scanner with `optind` set. -/
def getoptFirst (argv : List (List UInt8)) : Getopt :=
  let st := getoptStart argv
  { st with optind := 1 }

/-- The first call sets `optind` to 1. -/
theorem getoptLong_start (nargc : Nat) (options : List UInt8) (longOptions : List LongOption)
    (argv : List (List UInt8)) :
    getoptLong posixlyCorrect nargc options longOptions (getoptStart argv) =
      getoptLong posixlyCorrect nargc options longOptions
        (getoptFirst argv) := by
  simp [getoptLong, getoptStart, getoptFirst]

theorem argParseTagged_start (nargc : Nat) (options : List UInt8)
    (longOptions : List LongOption) (argv : List (List UInt8)) (n : Nat) :
    argParseTagged posixlyCorrect binaryPrefix nargc options longOptions n (getoptStart argv)
        table =
      argParseTagged posixlyCorrect binaryPrefix nargc options longOptions n
        (getoptFirst argv) table := by
  cases n with
  | zero => rfl
  | succ n => rw [argParseTagged, argParseTagged, getoptLong_start]

theorem allocLongoptions_val (table : ArgTable) :
    ∀ opt ∈ allocLongoptions table, opt.val < table.entries.length := by
  intro opt hopt
  unfold allocLongoptions at hopt
  obtain ⟨⟨entry, tabindex⟩, hmem, hnames⟩ := List.mem_flatMap.mp hopt
  obtain ⟨name, -, rfl⟩ := List.mem_map.mp hnames
  have hlt := List.snd_lt_of_mem_zipIdx hmem
  simpa using hlt

/-- Before the first call nothing has been read. -/
theorem scanning_start (posixlyCorrect : Bool) (table : ArgTable) (argv0 : List UInt8)
    {words : List (List UInt8)} (hclean : ∀ word ∈ words, 0 ∉ word) :
    Scanning posixlyCorrect argv0 (argv0 :: words).length (allocShortoptions table)
      (allocLongoptions table) (getoptFirst (argv0 :: words))
      ⟨[], [], [], words⟩ table where
  layout := ⟨⟨[], [], rfl, rfl, Marks.clear words⟩, rfl, Nat.add_comm _ 1, rfl, rfl,
    fun _ => rfl, fun hnil => absurd rfl hnil⟩
  started := .inl rfl
  clean := ⟨fun _ hc => absurd hc List.not_mem_nil,
    fun word hword _ hc heq => hclean word hword (heq ▸ hc)⟩
  long := allocLongoptions_val table

/-- What is left to do once the options are read. -/
def finishParse (binaryPrefix : Bool) (table : ArgTable) (operands : List (List UInt8)) :
    ArgTable :=
  let table := argParseUntagged binaryPrefix (table.entries.length + operands.length + 1) 0
    (operands.map some) none table
  if table.endtable.errors = [] then argParseCheck table else table

theorem outcome_start (o : Options UInt8) (permute : Bool) (words : List (List UInt8)) :
    outcome o permute ⟨[], [], [], words⟩ = readWords o permute words := by
  rw [outcome_left_nil]
  rcases readWords o permute words with _ | r <;> rfl

theorem argParse_of_reading (binaryPrefix : Bool) (hs : Scannable (allocShortoptions table))
    (argv0 : List UInt8)
    {words : List (List UInt8)} (hclean : ∀ word ∈ words, 0 ∉ word) {r : Reading UInt8}
    (hr : readWords (tableOptions table) (!posixlyCorrect) words = some r) {n : Nat}
    (hn : r.items.length < n) :
    argParse posixlyCorrect binaryPrefix n (argv0 :: words) table =
      .done (finishParse binaryPrefix (r.items.foldl (applyItem binaryPrefix) (argReset table))
        r.operands) := by
  have hout : outcome (tableOptions (argReset table)) (!posixlyCorrect) ⟨[], [], [], words⟩ =
      some r := by
    rw [tableOptions_argReset, outcome_start]
    exact hr
  obtain ⟨st, hread, hrun⟩ := argParseTagged_reads binaryPrefix (by simpa using hs)
    (scanning_start posixlyCorrect (argReset table) argv0 hclean) hout
  have hperm := (readWords_perm hr).length_eq
  unfold argParse
  dsimp only
  rw [if_neg (List.cons_ne_nil _ _), argParseTagged_start, hrun n hn]
  have hwords : (st.nargv.take (argv0 :: words).length).drop st.optind = r.operands.map some := by
    have hvec : st.nargv = ((argv0 :: r.read).map some ++ r.operands.map some) ++ [none] := by
      rw [hread.nargv]
      simp [vector]
    have hlen : ((argv0 :: r.read).map some ++ r.operands.map some).length =
        (argv0 :: words).length := by
      simp only [List.length_append, List.length_map, List.length_cons] at hperm ⊢
      omega
    have hoptind : ((argv0 :: r.read).map some).length = st.optind := by
      rw [hread.optind]
      simp [Nat.add_comm]
    rw [hvec, ← hlen, List.take_left, ← hoptind, List.drop_left]
  dsimp only
  rw [hwords, List.length_map]
  rfl

/-- No number of rounds gives another result. -/
theorem argParse_result (hs : Scannable (allocShortoptions table)) (argv0 : List UInt8)
    {words : List (List UInt8)} (hclean : ∀ word ∈ words, 0 ∉ word) {r : Reading UInt8}
    (hr : readWords (tableOptions table) (!posixlyCorrect) words = some r) {n : Nat}
    {t : ArgTable} (h : argParse posixlyCorrect binaryPrefix n (argv0 :: words) table = .done t) :
    t = finishParse binaryPrefix (r.items.foldl (applyItem binaryPrefix) (argReset table))
      r.operands := by
  have hmore : argParse posixlyCorrect binaryPrefix (n + (r.items.length + 1)) (argv0 :: words)
      table = .done t := by
    unfold argParse at h ⊢
    dsimp only at h ⊢
    rw [if_neg (List.cons_ne_nil _ _)] at h ⊢
    rcases hret : argParseTagged posixlyCorrect binaryPrefix (argv0 :: words).length
      (allocShortoptions (argReset table)) (allocLongoptions (argReset table)) n
      (getoptStart (argv0 :: words)) (argReset table) with ret | _ | _
    · rw [argParseTagged_mono hret]
      rw [hret] at h
      exact h
    · rw [hret] at h
      cases h
    · rw [hret] at h
      cases h
  rw [argParse_of_reading binaryPrefix hs argv0 hclean hr (by omega)] at hmore
  exact (Parsed.done.inj hmore).symm

theorem argParse_of_none (hs : Scannable (allocShortoptions table)) (argv0 : List UInt8)
    {words : List (List UInt8)} (hclean : ∀ word ∈ words, 0 ∉ word)
    (hr : readWords (tableOptions table) (!posixlyCorrect) words = none) (n : Nat) :
    argParse posixlyCorrect binaryPrefix n (argv0 :: words) table = .looping := by
  have hout : outcome (tableOptions (argReset table)) (!posixlyCorrect) ⟨[], [], [], words⟩ =
      none := by
    rw [tableOptions_argReset, outcome_start]
    exact hr
  have hrun := argParseTagged_loops binaryPrefix (by simpa using hs)
    (scanning_start posixlyCorrect (argReset table) argv0 hclean) hout n
  unfold argParse
  dsimp only
  rw [if_neg (List.cons_ne_nil _ _), argParseTagged_start, hrun]

/-- Whatever the number of rounds, no access of the loop is undefined. -/
theorem argParseTagged_defined (binaryPrefix : Bool) {argv0 : List UInt8} {nargc : Nat}
    {options : List UInt8}
    {longOptions : List LongOption} {st : Getopt} {cfg : Config UInt8} (hs : Scannable options)
    (h : Scanning posixlyCorrect argv0 nargc options longOptions st cfg table) (n : Nat) :
    argParseTagged posixlyCorrect binaryPrefix nargc options longOptions n st table ≠
      .undefined := by
  induction n generalizing st cfg table with
  | zero => rintro ⟨⟩
  | succ n ih =>
    have hlead := next_leads (!posixlyCorrect) h.started
    rcases hnext : next (optionsOf options longOptions) (!posixlyCorrect) cfg with
      ⟨read, operands⟩ | ⟨item, cfg'⟩ | cfg'
    · have hcall := getoptLong_next hs.toPlain h.layout h.started
      rw [hnext] at hcall
      obtain ⟨st', hret, -⟩ := hcall
      rw [argParseTagged, hret]
      rintro ⟨⟩
    · rw [hnext] at hlead
      obtain ⟨st', h', hround⟩ := argParseTagged_item binaryPrefix hs h hnext hlead.2
      rw [hround]
      exact ih h'
    · rw [hnext] at hlead
      obtain ⟨st', table', h', hround⟩ := argParseTagged_stuck binaryPrefix hs h hnext hlead.2.2
      rw [hround]
      exact ih h'

/-- The words of a command line. -/
def plainWords (words : List CStr) : List (List UInt8) := words.map (·.1)

theorem plainWords_clean (words : List CStr) : ∀ word ∈ plainWords words, 0 ∉ word := by
  intro word hword
  obtain ⟨s, -, rfl⟩ := List.mem_map.mp hword
  exact s.2

end Whole

theorem barcoTable_scannable : Scannable (allocShortoptions barcoTable) where
  colon := by decide
  semi := by decide
  nul := by decide
  mark := by decide
  eof := by decide

section Results

variable (posixlyCorrect binaryPrefix : Bool)

/-- `arg_parse` on a line does what the items of its reading say to the table as `arg_reset`
leaves it, one after the other, and then takes the operands; on a line that has no reading it
never returns. -/
theorem argParse_eq_reading (table : ArgTable) (hs : Scannable (allocShortoptions table))
    (argv0 : CStr) (words : List CStr) :
    match readWords (tableOptions table) (!posixlyCorrect) (plainWords words) with
    | some r => ∀ n, r.items.length < n →
        argParse posixlyCorrect binaryPrefix n (argv0.1 :: plainWords words) table =
          .done (finishParse binaryPrefix
            (r.items.foldl (applyItem binaryPrefix) (argReset table)) r.operands)
    | none => ∀ n,
        argParse posixlyCorrect binaryPrefix n (argv0.1 :: plainWords words) table =
          .looping := by
  split
  · next r hr =>
    intro n hn
    exact argParse_of_reading binaryPrefix hs argv0.1 (plainWords_clean words) hr hn
  · next hr =>
    intro n
    exact argParse_of_none hs argv0.1 (plainWords_clean words) hr n

/-- An operand in front of an option. -/
def verboseLine : List CStr := [⟨ascii "x", by decide⟩, ⟨ascii "-v", by decide⟩]

/-- barco's table with an error of an earlier line. -/
def usedTable : ArgTable := argRegisterError barcoTable ⟨ARG_ELONGOPT, none, none⟩

theorem argParse_eq_reading_verbose :
    readWords (tableOptions usedTable) true (plainWords verboseLine) =
        some ⟨[.short 118 none], [ascii "-v"], [ascii "x"]⟩ ∧
      ∀ n, 1 < n → argParse false true n (ascii "barco" :: plainWords verboseLine) usedTable =
        .done (finishParse true (applyItem true barcoTable (.short 118 none)) [ascii "x"]) := by
  have hread : readWords (tableOptions usedTable) true (plainWords verboseLine) =
      some ⟨[.short 118 none], [ascii "-v"], [ascii "x"]⟩ := by decide +kernel
  have hparse := argParse_eq_reading false true usedTable barcoTable_scannable
    ⟨ascii "barco", by decide⟩ verboseLine
  rw [Bool.not_false, hread] at hparse
  exact ⟨hread, hparse⟩

/-- On no command line and after no number of rounds has the scanner left the argument
vector, read a NULL as a word or divided by zero. -/
theorem argParse_defined (table : ArgTable) (hs : Scannable (allocShortoptions table))
    (argv : List CStr) (n : Nat) :
    argParse posixlyCorrect binaryPrefix n (plainWords argv) table ≠ .undefined := by
  rcases argv with _ | ⟨argv0, words⟩
  · unfold argParse
    rw [if_pos (show plainWords [] = [] from rfl)]
    rintro ⟨⟩
  · have hrun := argParseTagged_defined binaryPrefix (by simpa using hs)
      (scanning_start posixlyCorrect (argReset table) argv0.1 (plainWords_clean words)) n
    unfold argParse plainWords
    dsimp only
    rw [List.map_cons, if_neg (List.cons_ne_nil _ _), argParseTagged_start]
    generalize hret : argParseTagged posixlyCorrect binaryPrefix _
      (allocShortoptions (argReset table)) (allocLongoptions (argReset table)) n
      (getoptFirst (argv0.1 :: words.map (·.1))) (argReset table) = ret
    have hne : ret ≠ .undefined := fun heq => hrun (hret.trans heq)
    rcases ret with ⟨st, t⟩ | _ | _
    · rintro ⟨⟩
    · exact absurd rfl hne
    · rintro ⟨⟩

theorem argParse_defined_barco :
    argParse true false 7 (plainWords [⟨ascii "barco", by decide⟩, ⟨ascii "-v-", by decide⟩])
      barcoTable ≠ .undefined :=
  argParse_defined true false barcoTable barcoTable_scannable
    [⟨ascii "barco", by decide⟩, ⟨ascii "-v-", by decide⟩] 7

/-- The value letters of barco's table. -/
theorem barco_short (c : UInt8) :
    (tableOptions barcoTable).short c = none ∨
        (tableOptions barcoTable).short c = some .nothing ↔ c ∉ ascii "umca" := by
  have hvalue : ascii "umca" = [117, 109, 99, 97] := by decide
  rw [hvalue]
  by_cases hu : c = 117
  · subst hu
    decide
  by_cases hm : c = 109
  · subst hm
    decide
  by_cases hc : c = 99
  · subst hc
    decide
  by_cases ha : c = 97
  · subst ha
    decide
  have hmem : c ∉ [117, 109, 99, 97] := by simp [hu, hm, hc, ha]
  refine iff_of_true ?_ hmem
  by_cases hv : c = 118
  · subst hv
    decide
  · left
    have hletters : allocShortoptions barcoTable =
        [58, 117, 58, 109, 58, 99, 58, 97, 58, 118] := by decide
    have hnot : c = chColon ∨ c ∉ allocShortoptions barcoTable := by
      rw [hletters]
      by_cases hcolon : c = 58
      · exact .inl hcolon
      · exact .inr (by simp [hu, hm, hc, ha, hv, hcolon])
    exact if_pos hnot

/-- A dash, some letters that take no value, and a dash. -/
def NeverDone (word : List UInt8) : Prop :=
  ∃ front, word = chDash :: front ++ [chDash] ∧ front ≠ [] ∧
    ∀ c ∈ front, c ≠ chDash ∧ c ∉ ascii "umca"

theorem neverDone_iff (word : List UInt8) :
    NeverDone word ↔ isOption (tableOptions barcoTable) word = true ∧
      word ≠ [chDash, chDash] ∧ Stuck (tableOptions barcoTable) (word.drop 1) := by
  constructor
  · rintro ⟨front, rfl, hne, hfront⟩
    obtain ⟨c, cs, rfl⟩ := List.exists_cons_of_ne_nil hne
    refine ⟨?_, ?_, c :: cs, rfl, fun d hd => ?_⟩
    · unfold isOption
      exact decide_eq_true ⟨rfl, by simp⟩
    · intro heq
      have := congrArg List.length heq
      simp at this
    · exact ⟨(hfront d hd).1, (barco_short d).mpr (hfront d hd).2⟩
  · rintro ⟨hop, hne, front, hdrop, hfront⟩
    obtain ⟨c, cs, rfl⟩ := isOption_drop hop
    refine ⟨front, ?_, ?_, fun d hd => ?_⟩
    · exact congrArg (chDash :: ·) hdrop
    · rintro rfl
      exact hne (congrArg (chDash :: ·) hdrop)
    · exact ⟨(hfront d hd).1, (barco_short d).mp (hfront d hd).2⟩

/-- barco's `arg_parse` does not return from a line that begins with a dash, letters that
take no value and a dash, as `-v-`; and a line it does not return from has such a word. -/
theorem barco_never_returns (argv0 : CStr) (words : List CStr) :
    ((∀ n, argParse posixlyCorrect binaryPrefix n (argv0.1 :: plainWords words) barcoTable =
        .looping) → ∃ word ∈ words, NeverDone word.1) ∧
    (∀ word rest, words = word :: rest → NeverDone word.1 → ∀ n,
      argParse posixlyCorrect binaryPrefix n (argv0.1 :: plainWords words) barcoTable =
        .looping) := by
  constructor
  · intro hloop
    rcases hr : readWords (tableOptions barcoTable) (!posixlyCorrect) (plainWords words) with
      _ | r
    · obtain ⟨word, hword, hop, hne, hstuck⟩ := exists_stuck hr
      obtain ⟨s, hs, rfl⟩ := List.mem_map.mp hword
      exact ⟨s, hs, (neverDone_iff s.1).mpr ⟨hop, hne, hstuck⟩⟩
    · have hdone := argParse_of_reading binaryPrefix barcoTable_scannable
        argv0.1 (plainWords_clean words) hr (Nat.lt_succ_self _)
      rw [hloop] at hdone
      cases hdone
  · rintro word rest rfl hnever n
    obtain ⟨hop, hne, hstuck⟩ := (neverDone_iff word.1).mp hnever
    refine argParse_of_none barcoTable_scannable argv0.1 (plainWords_clean _) ?_ n
    have hline : plainWords (word :: rest) = word.1 :: plainWords rest := rfl
    rw [hline, readWords_option hop hne, readLetters_eq_none_iff.mpr hstuck]
    rfl

end Results

end Barco
