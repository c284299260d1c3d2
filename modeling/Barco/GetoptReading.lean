import Barco.Lists.OptionWords
import Barco.PermuteArgs

/-!
# The option scanner reads a command line

One call of `getoptLong` is one step of `OptionWords.next`: it returns what the
step finds. `Layout` is how the scanner's state stands for a configuration. The
vector holds the words read, the operands skipped, the words read since, and the
words left; the two marks delimit the operands, and are moved only when the next
operand is skipped or the line ends.

1. `scanWords_scans`: the code behind `start` goes to the next option word.
2. `readOption_next`: one option is read from a word.
3. `getoptLong_next`: a call is a step.
-/

namespace Barco

open OptionWords

def HasArg.takes : HasArg → Takes
  | .no => .nothing
  | .required => .required
  | .optional => .optional

/-- The options of a string of letters and a table of long options. -/
def optionsOf (options : List UInt8) (longOptions : List LongOption) : Options UInt8 where
  dash := chDash
  equals := chEqual
  short c :=
    if c = chColon ∨ c ∉ options then none
    else if (options.dropWhile (· ≠ c))[1]? ≠ some chColon then some .nothing
    else if (options.dropWhile (· ≠ c))[2]? = some chColon then some .optional
    else some .required
  long name :=
    match matchLong name longOptions none false with
    | .found opt => some (opt.val, opt.hasArg.takes)
    | _ => none

/-- An argument vector: the program's name, the words, and NULL. -/
def vector (argv0 : List UInt8) (words : List (List UInt8)) : Argv :=
  (argv0 :: words).map some ++ [none]

/-- The letters begin with a colon, and none of them is a semicolon. -/
structure Plain (options : List UInt8) : Prop where
  colon : options.head? = some chColon
  semi : chSemi ∉ options

/-- The words left begin with an option. -/
def AtOption (o : Options UInt8) (rest : List (List UInt8)) : Prop :=
  ∃ word more, rest = word :: more ∧ isOption o word = true

/-- `nonopt_start` and `nonopt_end`: no operands; operands up to here; or operands, and
options behind them. -/
inductive Marks (o : Options UInt8) (front : List (List UInt8)) :
    (operands opts rest : List (List UInt8)) → (nonoptStart nonoptEnd : Option Nat) → Prop
  | clear (rest : List (List UInt8)) : Marks o front [] [] rest none none
  | skipping {operands : List (List UInt8)} (rest : List (List UInt8)) (h : operands ≠ []) :
      Marks o front operands [] rest (some (1 + front.length)) none
  | reading {operands opts rest : List (List UInt8)} (h : operands ≠ [])
      (hopts : opts ≠ [] ∨ AtOption o rest) :
      Marks o front operands opts rest (some (1 + front.length))
        (some (1 + front.length + operands.length))

/-- The state of the scanner stands for a configuration. -/
structure Layout (o : Options UInt8) (permute : Bool) (argv0 : List UInt8) (nargc : Nat)
    (st : Getopt) (cfg : Config UInt8) : Prop where
  blocks : ∃ front opts, cfg.read = front ++ opts ∧
    st.nargv = vector argv0 (front ++ cfg.operands ++ opts ++ cfg.rest) ∧
    Marks o front cfg.operands opts cfg.rest st.nonoptStart st.nonoptEnd
  optind : st.optind = 1 + cfg.read.length + cfg.operands.length
  nargc : nargc = st.optind + cfg.rest.length
  place : st.place = cfg.left
  optreset : st.optreset = false
  plain : permute = false → cfg.operands = []
  busy : cfg.left ≠ [] → cfg.operands ≠ [] → st.nonoptEnd.isSome = true

/-- The line has been read: the operands are at the end, and `optind` is at the first. -/
structure LineRead (argv0 : List UInt8) (st : Getopt) (read operands : List (List UInt8)) :
    Prop where
  nargv : st.nargv = vector argv0 (read ++ operands)
  optind : st.optind = 1 + read.length

/-- What a call returns, and leaves in the variables, for what is found. -/
def Shows (options : List UInt8) (longOptions : List LongOption) (copt : Int) (st : Getopt) :
    Item UInt8 → Prop
  | .long val value word =>
    (∃ opt ∈ longOptions, opt.val = val) ∧ copt = 0 ∧ st.getoptval = val ∧ st.optarg = value ∧
      st.nargv[st.optind - 1]? = some (some word)
  | .short c value => (c ∈ options ∧ c ≠ chColon) ∧ copt = charInt c ∧ st.optarg = value
  | .unknownLong word =>
    copt = BADCH ∧ st.optopt = 0 ∧ st.nargv[st.optind - 1]? = some (some word)
  | .unknownShort c => copt = BADCH ∧ st.optopt = charInt c
  | .missing word => copt = 58 ∧ st.nargv[st.optind - 1]? = some (some word)

/-- A call makes a step. -/
def Calls (options : List UInt8) (longOptions : List LongOption) (permute : Bool)
    (argv0 : List UInt8) (nargc : Nat) (ret : Option (Int × Getopt)) : Next UInt8 → Prop
  | .stop read operands => ∃ st, ret = some (-1, st) ∧ LineRead argv0 st read operands
  | .item i cfg => ∃ copt st, ret = some (copt, st) ∧
      Layout (optionsOf options longOptions) permute argv0 nargc st cfg ∧
      Shows options longOptions copt st i
  | .stuck cfg => ∃ st, ret = some (58, st) ∧
      Layout (optionsOf options longOptions) permute argv0 nargc st cfg

/-! ## The vector -/

section Vector

variable {o : Options UInt8} {permute : Bool} {argv0 : List UInt8} {nargc : Nat}
  {st : Getopt} {cfg : Config UInt8}

theorem vector_cell (argv0 : List UInt8) (front rest : List (List UInt8)) (k : Nat) :
    (vector argv0 (front ++ rest))[1 + front.length + k]? = (rest.map some ++ [none])[k]? := by
  have hsplit : vector argv0 (front ++ rest) =
      (argv0 :: front).map some ++ (rest.map some ++ [none]) := by
    simp [vector]
  have hlen : ((argv0 :: front).map some).length = 1 + front.length := by
    simp [Nat.add_comm]
  rw [hsplit, List.getElem?_append_right (by omega), hlen]
  congr 1
  omega

/-- The cells from `optind` on are the words left, and NULL. -/
theorem Layout.cell (h : Layout o permute argv0 nargc st cfg) (k : Nat) :
    st.nargv[st.optind + k]? = (cfg.rest.map some ++ [none])[k]? := by
  obtain ⟨front, opts, hread, hnargv, -⟩ := h.blocks
  have hlen : st.optind = 1 + (front ++ cfg.operands ++ opts).length := by
    rw [h.optind, hread]
    simp only [List.length_append]
    omega
  rw [hnargv, hlen, vector_cell]

theorem Layout.cell_zero {word : List UInt8} {rest : List (List UInt8)}
    (h : Layout o permute argv0 nargc st cfg) (hrest : cfg.rest = word :: rest) :
    st.nargv[st.optind]? = some (some word) := by
  have hcell := h.cell 0
  rw [hrest] at hcell
  exact hcell

/-- The cell behind the word in front: the next word, or NULL. -/
theorem Layout.cell_one {word : List UInt8} {rest : List (List UInt8)}
    (h : Layout o permute argv0 nargc st cfg) (hrest : cfg.rest = word :: rest) :
    st.nargv[st.optind + 1]? = some rest.head? := by
  have hcell := h.cell 1
  rw [hrest] at hcell
  rw [hcell]
  cases rest <;> rfl

end Vector

/-! ## From one option to the next -/

section Scan

variable {o : Options UInt8} {argv0 : List UInt8} {nargc : Nat} {st : Getopt}

/-- The operands and the options behind them change places. -/
theorem permuteArgs_vector (argv0 : List UInt8) (front operands opts rest : List (List UInt8))
    (hoperands : operands ≠ []) (hopts : opts ≠ []) :
    permuteArgs (1 + front.length) (1 + front.length + operands.length)
        (1 + front.length + operands.length + opts.length)
        (vector argv0 (front ++ operands ++ opts ++ rest)) =
      some (vector argv0 (front ++ opts ++ operands ++ rest)) := by
  have h := permuteArgs_append ((argv0 :: front).map some) (operands.map some) (opts.map some)
    (rest.map some ++ [none]) (by simpa using hoperands) (by simpa using hopts)
  have hlen : ((argv0 :: front).map some).length = 1 + front.length := by
    simp [Nat.add_comm]
  rw [hlen, List.length_map, List.length_map] at h
  simpa [vector] using h

theorem Marks.cases_on {front operands opts rest : List (List UInt8)}
    {nonoptStart nonoptEnd : Option Nat}
    (h : Marks o front operands opts rest nonoptStart nonoptEnd) :
    (operands = [] ∧ opts = [] ∧ nonoptStart = none ∧ nonoptEnd = none) ∨
    (operands ≠ [] ∧ opts = [] ∧ nonoptStart = some (1 + front.length) ∧ nonoptEnd = none) ∨
    (operands ≠ [] ∧ (opts ≠ [] ∨ AtOption o rest) ∧ nonoptStart = some (1 + front.length) ∧
      nonoptEnd = some (1 + front.length + operands.length)) := by
  cases h with
  | clear => exact .inl ⟨rfl, rfl, rfl, rfl⟩
  | skipping _ h => exact .inr (.inl ⟨h, rfl, rfl, rfl⟩)
  | reading h hopts => exact .inr (.inr ⟨h, hopts, rfl, rfl⟩)

/-- The end of the options: the operands go behind what has been read. -/
theorem permuteNonopts_marks (argv0 : List UInt8) (st : Getopt)
    (front operands opts rest : List (List UInt8))
    (hmarks : operands = [] ∧ opts = [] ∧ st.nonoptStart = none ∧ st.nonoptEnd = none ∨
      operands ≠ [] ∧ opts ≠ [] ∧ st.nonoptStart = some (1 + front.length) ∧
        st.nonoptEnd = some (1 + front.length + operands.length))
    (hnargv : st.nargv = vector argv0 (front ++ operands ++ opts ++ rest))
    (hoptind : st.optind = 1 + front.length + operands.length + opts.length) :
    permuteNonopts st = some { st with
      nargv := vector argv0 (front ++ opts ++ operands ++ rest)
      optind := 1 + front.length + opts.length } := by
  unfold permuteNonopts
  rcases hmarks with ⟨rfl, rfl, hfirst, hlast⟩ | ⟨hop, hopts, hfirst, hlast⟩
  · rw [hfirst, hlast]
    obtain ⟨nargv, optind, optreset, optopt, optarg, place, nonoptStart, nonoptEnd, getoptval⟩ := st
    simp only at hnargv hoptind hfirst hlast ⊢
    subst hnargv hoptind
    simp [hfirst, hlast]
  · have hback : st.optind - (1 + front.length + operands.length - (1 + front.length)) =
        1 + front.length + opts.length := by omega
    rw [hfirst, hlast]
    dsimp only
    rw [hnargv, hback, hoptind, permuteArgs_vector argv0 front operands opts rest hop hopts]
    simp only [Option.bind_eq_bind, Option.bind_some, Option.pure_def]

/-- What the code behind `start` does on a line: it ends with it, or gets to an option. -/
def Scans (o : Options UInt8) (permute : Bool) (argv0 : List UInt8) (nargc : Nat)
    (optarg : Option (List UInt8)) (read operands rest : List (List UInt8))
    (ret : Option Scanned) : Prop :=
  (∃ read' operands' st, nextWord o permute read operands rest = .stop read' operands' ∧
    ret = some (.ret (-1) st) ∧ LineRead argv0 st read' operands') ∨
  (∃ operands' word more st, nextWord o permute read operands rest =
      nextLetter o ⟨read, operands', [], word :: more⟩ word more (word.drop 1) ∧
    ret = some (.option st) ∧ isOption o word = true ∧ st.optarg = optarg ∧
    Layout o permute argv0 nargc st ⟨read, operands', word.drop 1, word :: more⟩)

theorem Scans.skip {permute : Bool} {optarg : Option (List UInt8)}
    {read operands rest : List (List UInt8)} {word : List UInt8} {ret : Option Scanned}
    (hop : isOption o word = false) (hpermute : permute = true)
    (h : Scans o permute argv0 nargc optarg read (operands ++ [word]) rest ret) :
    Scans o permute argv0 nargc optarg read operands (word :: rest) ret := by
  have hnext : nextWord o permute read operands (word :: rest) =
      nextWord o permute read (operands ++ [word]) rest := by
    rw [nextWord, hop, hpermute]
    rfl
  unfold Scans
  rw [hnext]
  exact h

/-- The end of the vector. -/
theorem scanWords_zero {l : Letters} {read operands : List (List UInt8)}
    (h : Layout o l.permute argv0 nargc st ⟨read, operands, [], []⟩) :
    ∃ st', scanWords l 0 st = some (.ret (-1) st') ∧ LineRead argv0 st' read operands := by
  obtain ⟨front, opts, hread, hnargv, hmarks⟩ := h.blocks
  have hoptind := h.optind
  simp only at hread hnargv hmarks hoptind
  unfold scanWords
  rcases hmarks.cases_on with ⟨rfl, rfl, hfirst, hlast⟩ | ⟨hop, rfl, hfirst, hlast⟩ |
    ⟨hop, hopts, hfirst, hlast⟩
  · have hperm := permuteNonopts_marks argv0 { st with place := [] } front [] [] []
      (.inl ⟨rfl, rfl, hfirst, hlast⟩) hnargv (by rw [hread] at hoptind; simpa using hoptind)
    simp only [hfirst, hlast] at hperm ⊢
    rw [hperm]
    exact ⟨_, rfl, by simp [hread], by simp [hread]⟩
  · -- nothing has been read behind the operands: `optind` goes back to the first of them
    simp only [hfirst, hlast]
    exact ⟨_, rfl, by simp [hread, hnargv], by simp [hread]⟩
  · have hne : opts ≠ [] := by
      refine hopts.resolve_right ?_
      rintro ⟨word, more, hnil, -⟩
      cases hnil
    have hperm := permuteNonopts_marks argv0 { st with place := [] } front operands opts []
      (.inr ⟨hop, hne, hfirst, hlast⟩) hnargv
      (by rw [hread, List.length_append] at hoptind; dsimp only; omega)
    simp only [hfirst, hlast] at hperm ⊢
    rw [hperm]
    exact ⟨_, rfl, by simp [hread], by simp [hread, Nat.add_assoc]⟩

theorem not_option {word : List UInt8} (hdash : o.dash = chDash)
    (hop : isOption o word = false) : word.head? ≠ some chDash ∨ word.length = 1 := by
  unfold isOption at hop
  have hnot := of_decide_eq_false hop
  rw [hdash] at hnot
  by_cases hhead : word.head? = some chDash
  · by_cases hlen : word.length = 1
    · exact .inr hlen
    · exact absurd ⟨hhead, hlen⟩ hnot
  · exact .inl hhead

/-- An operand is skipped: options read behind the last ones go in front of them. -/
theorem scanWords_operand {l : Letters} {read operands rest : List (List UInt8)}
    {word : List UInt8} (hdash : o.dash = chDash) (hall : l.allargs = false)
    (hpermute : l.permute = true) (hop : isOption o word = false)
    (h : Layout o true argv0 nargc st ⟨read, operands, [], word :: rest⟩) (n : Nat) :
    ∃ st', scanWords l (n + 1) st = scanWords l n st' ∧ st'.optarg = st.optarg ∧
      Layout o true argv0 nargc st' ⟨read, operands ++ [word], [], rest⟩ := by
  obtain ⟨front, opts, hread, hnargv, hmarks⟩ := h.blocks
  have hoptind := h.optind
  have hcell := h.cell_zero rfl
  have hword := not_option hdash hop
  have hne : operands ++ [word] ≠ [] := List.append_ne_nil_of_right_ne_nil _ (by simp)
  simp only at hread hnargv hmarks hoptind
  generalize hret : scanWords l (n + 1) st = ret
  unfold scanWords at hret
  rw [hcell] at hret
  dsimp only at hret
  rw [if_pos hword, hall, hpermute, if_neg (by decide), if_neg (by decide)] at hret
  rcases hmarks.cases_on with ⟨rfl, rfl, hfirst, hlast⟩ | ⟨hops, rfl, hfirst, hlast⟩ |
    ⟨hops, hopts, hfirst, hlast⟩
  · rw [hfirst] at hret
    refine ⟨_, hret.symm, rfl, ⟨front, [], by simpa using hread, ?_, ?_⟩, ?_, ?_, rfl, h.optreset,
      fun hno => absurd hno (by decide), fun hleft => absurd rfl hleft⟩
    · rw [hnargv]
      simp
    · simp only [hlast, hoptind, hread]
      simpa using (Marks.skipping rest hne : Marks o front _ [] rest _ _)
    · simp [hoptind]
    · have := h.nargc
      simp only [List.length_cons] at this ⊢
      omega
  · rw [hfirst, hlast] at hret
    refine ⟨_, hret.symm, rfl, ⟨front, [], by simpa using hread, ?_, ?_⟩, ?_, ?_, rfl, h.optreset,
      fun hno => absurd hno (by decide), fun hleft => absurd rfl hleft⟩
    · rw [hnargv]
      simp
    · exact Marks.skipping rest hne
    · simp [hoptind, Nat.add_assoc]
    · have := h.nargc
      simp only [List.length_cons] at this ⊢
      omega
  · have hopts' : opts ≠ [] := by
      refine hopts.resolve_right ?_
      rintro ⟨word', more, heq, hopt⟩
      obtain ⟨rfl, -⟩ := List.cons.inj heq
      exact Bool.false_ne_true (hop.symm.trans hopt)
    have hplace : st.optind = 1 + front.length + operands.length + opts.length := by
      rw [hoptind, hread, List.length_append]
      omega
    have hback : st.optind - (1 + front.length + operands.length - (1 + front.length)) =
        1 + (front ++ opts).length := by
      rw [List.length_append]
      omega
    rw [hfirst, hlast] at hret
    dsimp only at hret
    rw [hback, hnargv, hplace, permuteArgs_vector argv0 front operands opts _ hops hopts',
      ← hplace] at hret
    refine ⟨_, hret.symm, rfl, ⟨front ++ opts, [], by simpa using hread, ?_, ?_⟩, ?_, ?_, rfl,
      h.optreset, fun hno => absurd hno (by decide), fun hleft => absurd rfl hleft⟩
    · simp
    · exact Marks.skipping rest hne
    · simp [hoptind, Nat.add_assoc]
    · have := h.nargc
      simp only [List.length_cons] at this ⊢
      omega

theorem endNonopts_layout {permute : Bool} {read operands rest : List (List UInt8)}
    (h : Layout o permute argv0 nargc st ⟨read, operands, [], rest⟩) (hat : AtOption o rest) :
    Layout o permute argv0 nargc (endNonopts st) ⟨read, operands, [], rest⟩ ∧
      (operands ≠ [] → (endNonopts st).nonoptEnd.isSome = true) := by
  obtain ⟨front, opts, hread, hnargv, hmarks⟩ := h.blocks
  have hoptind := h.optind
  simp only at hread hnargv hmarks hoptind
  rcases hmarks.cases_on with ⟨rfl, rfl, hfirst, hlast⟩ | ⟨hop, rfl, hfirst, hlast⟩ |
    ⟨hop, hopts, hfirst, hlast⟩
  · have heq : endNonopts st = st := by simp [endNonopts, hfirst]
    rw [heq]
    exact ⟨h, fun hne => absurd rfl hne⟩
  · have heq : endNonopts st = { st with nonoptEnd := some st.optind } := by
      simp [endNonopts, hfirst, hlast]
    rw [heq]
    refine ⟨⟨⟨front, [], hread, hnargv, ?_⟩, h.optind, h.nargc, h.place, h.optreset, h.plain,
      fun hleft => absurd rfl hleft⟩, fun _ => rfl⟩
    have hlen : st.optind = 1 + front.length + operands.length := by
      rw [hoptind, hread, List.append_nil]
    simp only [hfirst, hlen]
    exact Marks.reading hop (.inr hat)
  · have heq : endNonopts st = st := by simp [endNonopts, hlast]
    rw [heq]
    exact ⟨h, fun _ => by rw [hlast]; rfl⟩

/-- An option ends the scan, and its letters are next. -/
theorem scanWords_option (l : Letters) {permute : Bool} {read operands rest : List (List UInt8)}
    {word : List UInt8} (hdash : o.dash = chDash) (hop : isOption o word = true)
    (hne : word ≠ [o.dash, o.dash])
    (h : Layout o permute argv0 nargc st ⟨read, operands, [], word :: rest⟩) (n : Nat) :
    ∃ st', scanWords l (n + 1) st = some (.option st') ∧ st'.optarg = st.optarg ∧
      Layout o permute argv0 nargc st' ⟨read, operands, word.drop 1, word :: rest⟩ := by
  have hcell := h.cell_zero rfl
  unfold isOption at hop
  have hop' := of_decide_eq_true hop
  rw [hdash] at hop' hne
  obtain ⟨hlayout, hbusy⟩ := endNonopts_layout h ⟨word, rest, rfl, hop⟩
  refine ⟨{ endNonopts st with place := word.drop 1 }, ?_, ?_, ⟨hlayout.blocks, hlayout.optind,
    hlayout.nargc, rfl, hlayout.optreset, hlayout.plain, fun _ => hbusy⟩⟩
  · unfold scanWords
    rw [hcell]
    dsimp only
    rw [if_neg (by rintro (hhead | hlen); exacts [hhead hop'.1, hop'.2 hlen]), if_neg hne]
  · unfold endNonopts
    split <;> rfl

/-- Two dashes end the scan, and the operands go behind them. -/
theorem scanWords_dashes (l : Letters) {permute : Bool} {read operands rest : List (List UInt8)}
    {word : List UInt8} (hdash : o.dash = chDash) (hop : isOption o word = true)
    (htwo : word = [o.dash, o.dash])
    (h : Layout o permute argv0 nargc st ⟨read, operands, [], word :: rest⟩) (n : Nat) :
    ∃ st', scanWords l (n + 1) st = some (.ret (-1) st') ∧
      LineRead argv0 st' (read ++ [word]) (operands ++ rest) := by
  have hcell := h.cell_zero rfl
  obtain ⟨hlayout, hbusy⟩ := endNonopts_layout h ⟨word, rest, rfl, hop⟩
  obtain ⟨front, opts, hread, hnargv, hmarks⟩ := hlayout.blocks
  have hoptind := hlayout.optind
  simp only at hread hnargv hmarks hoptind
  unfold isOption at hop
  have hop' := of_decide_eq_true hop
  rw [hdash] at hop' htwo
  generalize hret : scanWords l (n + 1) st = ret
  unfold scanWords at hret
  rw [hcell] at hret
  dsimp only at hret
  rw [if_neg (by rintro (hhead | hlen); exacts [hhead hop'.1, hop'.2 hlen]), if_pos htwo] at hret
  rcases hmarks.cases_on with ⟨rfl, rfl, hfirst, hlast⟩ | ⟨hops, -, -, hlast⟩ |
    ⟨hops, -, hfirst, hlast⟩
  · rw [permuteNonopts_marks argv0 _ (front ++ [word]) [] [] rest ?_ ?_ ?_] at hret
    rotate_left
    · exact .inl ⟨rfl, rfl, hfirst, hlast⟩
    · simpa using hnargv
    · simp [hoptind, hread, Nat.add_assoc]
    exact ⟨_, hret.symm, by simp [hread], by simp [hread]⟩
  · rw [hlast] at hbusy
    exact absurd (hbusy hops) (by decide)
  · rw [permuteNonopts_marks argv0 _ front operands (opts ++ [word]) rest ?_ ?_ ?_] at hret
    rotate_left
    · exact .inr ⟨hops, by simp, hfirst, hlast⟩
    · simpa using hnargv
    · simp only [hoptind, hread, List.length_append, List.length_cons, List.length_nil]
      omega
    exact ⟨_, hret.symm, by simp [hread], by simp [hread, Nat.add_assoc]⟩

/-- The code behind `start` makes the part of a step before the option. -/
theorem scanWords_scans {l : Letters} {read operands rest : List (List UInt8)}
    (hdash : o.dash = chDash) (hall : l.allargs = false)
    (h : Layout o l.permute argv0 nargc st ⟨read, operands, [], rest⟩) :
    Scans o l.permute argv0 nargc st.optarg read operands rest (scanWords l rest.length st) := by
  induction rest generalizing st operands with
  | nil =>
    obtain ⟨st', hret, hread⟩ := scanWords_zero h
    exact .inl ⟨read, operands, st', rfl, hret, hread⟩
  | cons word rest ih =>
    by_cases hop : isOption o word = true
    · by_cases htwo : word = [o.dash, o.dash]
      · obtain ⟨st', hret, hread⟩ := scanWords_dashes l hdash hop htwo h rest.length
        refine .inl ⟨read ++ [word], operands ++ rest, st', ?_, hret, hread⟩
        rw [nextWord, hop, if_neg (by decide), if_pos htwo]
      · obtain ⟨st', hret, hoptarg, hlayout⟩ :=
          scanWords_option l hdash hop htwo h rest.length
        refine .inr ⟨operands, word, rest, st', ?_, hret, hop, hoptarg, hlayout⟩
        rw [nextWord, hop, if_neg (by decide), if_neg htwo]
    · have hfalse : isOption o word = false := Bool.eq_false_iff.mpr hop
      rcases hpermute : l.permute with _ | _
      · -- the first operand ends the options, and nothing has been skipped
        have hnil : operands = [] := h.plain hpermute
        subst hnil
        obtain ⟨front, opts, hread, hnargv, hmarks⟩ := h.blocks
        have hoptind := h.optind
        simp only at hread hnargv hmarks hoptind
        have hopts : opts = [] := by
          rcases hmarks.cases_on with ⟨-, hopts, -⟩ | ⟨hne, -⟩ | ⟨hne, -⟩
          · exact hopts
          · exact absurd rfl hne
          · exact absurd rfl hne
        refine .inl ⟨read, [] ++ word :: rest, { st with place := [] }, ?_, ?_, ?_, hoptind⟩
        · rw [nextWord, hfalse]
          rfl
        · rw [List.length_cons]
          unfold scanWords
          rw [h.cell_zero rfl]
          dsimp only
          rw [if_pos (not_option hdash hfalse), hall, hpermute]
          rfl
        · simp [hnargv, hread, hopts]
      · rw [hpermute] at h ih
        obtain ⟨st', hret, hoptarg, hlayout⟩ :=
          scanWords_operand hdash hall hpermute hfalse h rest.length
        have hscan := ih hlayout
        rw [hoptarg, ← hret] at hscan
        exact hscan.skip hfalse rfl

end Scan

/-! ## One option -/

section Option

variable {o : Options UInt8} {permute : Bool} {argv0 : List UInt8} {nargc : Nat}
  {st st' : Getopt} {cfg : Config UInt8} {word : List UInt8} {rest : List (List UInt8)}

/-- The parts of the state that reading an option leaves alone. -/
structure SameWords (st st' : Getopt) : Prop where
  nargv : st'.nargv = st.nargv
  nonoptStart : st'.nonoptStart = st.nonoptStart
  nonoptEnd : st'.nonoptEnd = st.nonoptEnd
  optreset : st'.optreset = st.optreset

/-- The word in front is done, and the next one too where it is taken. -/
theorem Layout.done (h : Layout o permute argv0 nargc st cfg) (hrest : cfg.rest = word :: rest)
    (hleft : cfg.left ≠ []) {taken : Bool}
    (htaken : taken = true → ∃ arg more, rest = arg :: more) (hsame : SameWords st st')
    (hplace : st'.place = []) (hoptind : st'.optind = st.optind + if taken then 2 else 1) :
    Layout o permute argv0 nargc st' (cfg.done word rest taken) := by
  obtain ⟨front, opts, hread, hnargv, hmarks⟩ := h.blocks
  obtain ⟨ws, hws, hlen, hsplit⟩ : ∃ ws, (word :: if taken then rest.take 1 else []) = ws ∧
      ws.length = (if taken then 2 else 1) ∧
      cfg.rest = ws ++ (if taken then rest.drop 1 else rest) := by
    cases taken with
    | false => exact ⟨_, rfl, rfl, hrest⟩
    | true =>
      obtain ⟨arg, more, rfl⟩ := htaken rfl
      exact ⟨_, rfl, rfl, hrest⟩
  have hne : ws ≠ [] := by
    rw [← hws]
    exact List.cons_ne_nil _ _
  have hdone : cfg.done word rest taken =
      ⟨cfg.read ++ ws, cfg.operands, [], if taken then rest.drop 1 else rest⟩ := by
    rw [← hws]
    rfl
  rw [hdone]
  refine ⟨?_, ?_, ?_, hplace, hsame.optreset.trans h.optreset, h.plain,
    fun hnil => absurd rfl hnil⟩
  · rcases hmarks.cases_on with ⟨hop, hopts, hfirst, hlast⟩ | ⟨hop, -, -, hlast⟩ |
      ⟨hop, -, hfirst, hlast⟩
    · refine ⟨front ++ ws, [], ?_, ?_, ?_⟩
      · simp [hread, hopts]
      · simp [hsame.nargv, hnargv, hsplit, hop, hopts]
      · simp only [hsame.nonoptStart, hsame.nonoptEnd, hop, hfirst, hlast]
        exact Marks.clear _
    · have hbusy := h.busy hleft hop
      rw [hlast] at hbusy
      exact absurd hbusy (by decide)
    · refine ⟨front, opts ++ ws, ?_, ?_, ?_⟩
      · simp [hread]
      · simp [hsame.nargv, hnargv, hsplit]
      · simp only [hsame.nonoptStart, hsame.nonoptEnd, hfirst, hlast]
        exact Marks.reading hop (.inl (List.append_ne_nil_of_right_ne_nil _ hne))
  · have := h.optind
    simp only [List.length_append, hlen]
    omega
  · have hn := h.nargc
    rw [hsplit, List.length_append, hlen] at hn
    simp only
    omega

/-- A letter is done, and there may be more. -/
theorem Layout.letter (h : Layout o permute argv0 nargc st cfg) (hrest : cfg.rest = word :: rest)
    (hleft : cfg.left ≠ []) (cs : List UInt8) (hsame : SameWords st st')
    (hplace : st'.place = cs)
    (hoptind : st'.optind = if cs = [] then st.optind + 1 else st.optind) :
    Layout o permute argv0 nargc st' (cfg.letter word cs rest) := by
  unfold Config.letter
  by_cases hcs : cs = []
  · rw [if_pos hcs] at hoptind ⊢
    exact h.done hrest hleft (fun hno => absurd hno (by decide)) hsame (hplace.trans hcs) hoptind
  · rw [if_neg hcs] at hoptind ⊢
    obtain ⟨front, opts, hread, hnargv, hmarks⟩ := h.blocks
    rw [← hrest]
    refine ⟨⟨front, opts, hread, hsame.nargv.trans hnargv, ?_⟩, hoptind.trans h.optind, ?_, hplace,
      hsame.optreset.trans h.optreset, h.plain, fun _ hop => ?_⟩
    · rw [hsame.nonoptStart, hsame.nonoptEnd]
      exact hmarks
    · rw [hoptind]
      exact h.nargc
    · rw [hsame.nonoptEnd]
      exact h.busy hleft hop

/-- The last cell that has been passed. -/
theorem Layout.last_word (h : Layout o permute argv0 nargc st cfg)
    (hrest : cfg.rest = word :: rest) (hnargv : st'.nargv = st.nargv)
    (hoptind : st'.optind = st.optind + 1) : st'.nargv[st'.optind - 1]? = some (some word) := by
  rw [hnargv, hoptind, Nat.add_sub_cancel]
  exact h.cell_zero hrest

theorem Layout.last_arg {arg : List UInt8} {more : List (List UInt8)}
    (h : Layout o permute argv0 nargc st cfg) (hrest : cfg.rest = word :: arg :: more)
    (hnargv : st'.nargv = st.nargv) (hoptind : st'.optind = st.optind + 2) :
    st'.nargv[st'.optind - 1]? = some (some arg) := by
  rw [hnargv, hoptind]
  exact h.cell_one hrest

end Option

section Read

variable {options : List UInt8} {longOptions : List LongOption} {permute : Bool}
  {argv0 : List UInt8} {nargc : Nat} {st : Getopt} {cfg : Config UInt8} {word : List UInt8}
  {rest : List (List UInt8)}

theorem matchLong_mem {name : List UInt8} {first : Option LongOption} {second : Bool}
    {opt : LongOption} (h : matchLong name longOptions first second = .found opt) :
    opt ∈ longOptions ∨ first = some opt := by
  induction longOptions generalizing first second with
  | nil =>
    right
    unfold matchLong at h
    rcases first with _ | opt' <;> rcases second with _ | _ <;> simp_all
  | cons opt' more ih =>
    unfold matchLong at h
    split at h
    · exact (ih h).imp_left (List.mem_cons_of_mem _)
    · split at h
      · obtain rfl := LongMatch.found.inj h
        exact .inl List.mem_cons_self
      · rcases first with _ | first
        · rcases ih h with hmem | hsome
          · exact .inl (List.mem_cons_of_mem _ hmem)
          · obtain rfl := Option.some.inj hsome
            exact .inl List.mem_cons_self
        · exact (ih h).imp_left (List.mem_cons_of_mem _)

/-- A long option, as `parse_long_options` leaves it with `place` at its end. -/
theorem parseLongOptions_item (hplain : Plain options)
    (h : Layout (optionsOf options longOptions) permute argv0 nargc st cfg)
    (hrest : cfg.rest = word :: rest) (hleft : cfg.left ≠ []) (hoptarg : st.optarg = none)
    (text : List UInt8) :
    ∃ copt st', parseLongOptions options longOptions { st with place := text } =
        some (copt, st') ∧
      Layout (optionsOf options longOptions) permute argv0 nargc { st' with place := [] }
        (cfg.done word rest
          (longItem (optionsOf options longOptions) word text rest.head?).2) ∧
      Shows options longOptions copt { st' with place := [] }
        (longItem (optionsOf options longOptions) word text rest.head?).1 := by
  have hbad : badArg options = 58 := by
    unfold badArg
    rw [if_pos hplain.colon]
  have hcell := h.cell_one hrest
  unfold parseLongOptions longItem optionsOf
  dsimp only
  rcases hmatch : matchLong (text.takeWhile (· ≠ chEqual)) longOptions none false with opt | _ | _
  · have hno : false = true → ∃ arg more, rest = arg :: more :=
      fun hno => absurd hno (by decide)
    have hval : ∃ opt' ∈ longOptions, opt'.val = opt.val :=
      ⟨opt, (matchLong_mem hmatch).resolve_right (by simp), rfl⟩
    by_cases heq : chEqual ∈ text
    · simp only [heq, if_true]
      rcases hasArg : opt.hasArg with _ | _ | _
      · exact ⟨_, _, rfl, h.done hrest hleft hno ⟨rfl, rfl, rfl, rfl⟩ rfl rfl, rfl, rfl,
          h.last_word hrest rfl rfl⟩
      · exact ⟨_, _, rfl, h.done hrest hleft hno ⟨rfl, rfl, rfl, rfl⟩ rfl rfl, hval, rfl, rfl, rfl,
          h.last_word hrest rfl rfl⟩
      · exact ⟨_, _, rfl, h.done hrest hleft hno ⟨rfl, rfl, rfl, rfl⟩ rfl rfl, hval, rfl, rfl, rfl,
          h.last_word hrest rfl rfl⟩
    · simp only [heq, if_false]
      rcases hasArg : opt.hasArg with _ | _ | _
      · exact ⟨_, _, rfl, h.done hrest hleft hno ⟨rfl, rfl, rfl, rfl⟩ rfl rfl, hval, rfl, rfl,
          hoptarg, h.last_word hrest rfl rfl⟩
      · -- the next word, or the NULL behind the last
        rw [hcell]
        cases rest with
        | nil =>
          exact ⟨_, _, rfl, h.done hrest hleft hno ⟨rfl, rfl, rfl, rfl⟩ rfl rfl, hbad,
            h.last_word hrest rfl rfl⟩
        | cons arg more =>
          exact ⟨_, _, rfl, h.done hrest hleft (fun _ => ⟨arg, more, rfl⟩) ⟨rfl, rfl, rfl, rfl⟩
            rfl rfl, hval, rfl, rfl, rfl, h.last_arg hrest rfl rfl⟩
      · exact ⟨_, _, rfl, h.done hrest hleft hno ⟨rfl, rfl, rfl, rfl⟩ rfl rfl, hval, rfl, rfl,
          hoptarg, h.last_word hrest rfl rfl⟩
  · dsimp only
    exact ⟨_, _, rfl, h.done hrest hleft (fun hno => absurd hno (by decide))
      ⟨rfl, rfl, rfl, rfl⟩ rfl rfl, rfl, rfl, h.last_word hrest rfl rfl⟩
  · dsimp only
    exact ⟨_, _, rfl, h.done hrest hleft (fun hno => absurd hno (by decide))
      ⟨rfl, rfl, rfl, rfl⟩ rfl rfl, rfl, rfl, h.last_word hrest rfl rfl⟩

/-- A short option. -/
theorem shortOption_next (hplain : Plain options)
    (h : Layout (optionsOf options longOptions) permute argv0 nargc st cfg)
    (hrest : cfg.rest = word :: rest) (hoptarg : st.optarg = none) {c : UInt8} {cs : List UInt8}
    (hleft : cfg.left = c :: cs) (hdash : c ≠ chDash) :
    Calls options longOptions permute argv0 nargc
      (shortOption nargc options longOptions st)
      (nextLetter (optionsOf options longOptions) cfg word rest (c :: cs)) := by
  have hbad : badArg options = 58 := by
    unfold badArg
    rw [if_pos hplain.colon]
  have hne : cfg.left ≠ [] := by
    rw [hleft]
    exact List.cons_ne_nil c cs
  have hno : false = true → ∃ arg more, rest = arg :: more := fun hno => absurd hno (by decide)
  have hcell := h.cell_one hrest
  have hplace : st.place = c :: cs := h.place.trans hleft
  unfold shortOption nextLetter
  rw [hplace]
  have hshort : (optionsOf options longOptions).short c =
      if c = chColon ∨ c ∉ options then none
      else if (options.dropWhile (· ≠ c))[1]? ≠ some chColon then some .nothing
      else if (options.dropWhile (· ≠ c))[2]? = some chColon then some .optional
      else some .required := rfl
  have hdash' : c ≠ (optionsOf options longOptions).dash := hdash
  dsimp only
  rw [if_neg hdash', hshort]
  by_cases hunknown : c = chColon ∨ c ∉ options
  · -- a colon, or no letter of the string
    have hcond : c = chColon ∨ c = chDash ∧ cs ≠ [] ∨ c ∉ options :=
      hunknown.imp id .inr
    rw [if_pos hunknown, if_pos hcond, if_neg (fun hno => hdash hno.1)]
    exact ⟨_, _, rfl, h.letter hrest hne cs ⟨rfl, rfl, rfl, rfl⟩ rfl rfl, rfl, rfl⟩
  have hletter : c ∈ options ∧ c ≠ chColon :=
    ⟨by_contra fun hmem => hunknown (.inr hmem), fun hc => hunknown (.inl hc)⟩
  have hcond : ¬ (c = chColon ∨ c = chDash ∧ cs ≠ [] ∨ c ∉ options) := by
    rintro (hc | ⟨hc, -⟩ | hc)
    · exact hunknown (.inl hc)
    · exact hdash hc
    · exact hunknown (.inr hc)
  have hsemi : ¬ (c = chW ∧ (options.dropWhile (· ≠ c))[1]? = some chSemi) := by
    rintro ⟨-, hget⟩
    exact hplain.semi ((List.dropWhile_sublist _).subset (List.mem_of_getElem? hget))
  rw [if_neg hunknown, if_neg hcond, if_neg hsemi]
  by_cases hone : (options.dropWhile (· ≠ c))[1]? ≠ some chColon
  · rw [if_pos hone, if_pos hone]
    exact ⟨_, _, rfl, h.letter hrest hne cs ⟨rfl, rfl, rfl, rfl⟩ rfl rfl, hletter, rfl, hoptarg⟩
  rw [if_neg hone, if_neg hone]
  by_cases hcs : cs = []
  · rw [if_neg (not_not_intro hcs)]
    by_cases htwo : (options.dropWhile (· ≠ c))[2]? = some chColon
    · rw [if_pos htwo, if_pos htwo]
      refine ⟨_, _, rfl, h.done hrest hne hno ⟨rfl, rfl, rfl, rfl⟩ rfl rfl, hletter, rfl, ?_⟩
      rw [if_pos hcs]
    · rw [if_neg htwo, if_neg htwo]
      dsimp only
      rw [if_neg (not_not_intro hcs), hcell]
      have hnargc := h.nargc
      rw [hrest] at hnargc
      cases rest with
      | nil =>
        rw [if_pos (by simp only [List.length_cons, List.length_nil] at hnargc; omega)]
        exact ⟨_, _, rfl, h.done hrest hne hno ⟨rfl, rfl, rfl, rfl⟩ rfl rfl, hbad,
          h.last_word hrest rfl rfl⟩
      | cons arg more =>
        rw [if_neg (by simp only [List.length_cons] at hnargc; omega)]
        exact ⟨_, _, rfl, h.done hrest hne (fun _ => ⟨arg, more, rfl⟩) ⟨rfl, rfl, rfl, rfl⟩
          rfl rfl, hletter, rfl, rfl⟩
  · rw [if_pos hcs]
    by_cases htwo : (options.dropWhile (· ≠ c))[2]? = some chColon
    · rw [if_pos htwo]
      refine ⟨_, _, rfl, h.done hrest hne hno ⟨rfl, rfl, rfl, rfl⟩ rfl rfl, hletter, rfl, ?_⟩
      rw [if_neg hcs]
    · rw [if_neg htwo]
      dsimp only
      rw [if_pos hcs]
      exact ⟨_, _, rfl, h.done hrest hne hno ⟨rfl, rfl, rfl, rfl⟩ rfl rfl, hletter, rfl, rfl⟩

/-- The option at `place`. -/
theorem readOption_next (hplain : Plain options)
    (h : Layout (optionsOf options longOptions) permute argv0 nargc st cfg)
    (hrest : cfg.rest = word :: rest) (hoptarg : st.optarg = none) {c : UInt8} {cs : List UInt8}
    (hleft : cfg.left = c :: cs) :
    Calls options longOptions permute argv0 nargc
      (readOption nargc options longOptions st)
      (nextLetter (optionsOf options longOptions) cfg word rest (c :: cs)) := by
  have hplace : st.place = c :: cs := h.place.trans hleft
  have hne : cfg.left ≠ [] := by
    rw [hleft]
    exact List.cons_ne_nil c cs
  unfold readOption
  rw [hplace]
  by_cases hdash : c = chDash
  · have hdash' : c = (optionsOf options longOptions).dash := hdash
    have hhead : (c :: cs).head? = some chDash := by rw [hdash]; rfl
    rw [if_pos hhead]
    unfold nextLetter
    dsimp only
    rw [if_pos hdash', List.drop_one, List.tail_cons]
    by_cases hcs : cs = []
    · rw [if_pos hcs, if_pos hcs]
      have hbad : badArg options = 58 := by
        unfold badArg
        rw [if_pos hplain.colon]
      obtain ⟨front, opts, hread, hnargv, hmarks⟩ := h.blocks
      rw [hbad]
      refine ⟨_, rfl, ⟨front, opts, hread, ?_, ?_⟩, h.optind, ?_, hcs, h.optreset, h.plain,
        fun hnil => absurd rfl hnil⟩
      · rw [← hrest]
        exact hnargv
      · rw [← hrest]
        exact hmarks
      · rw [← hrest]
        exact h.nargc
    · rw [if_neg hcs, if_neg hcs]
      obtain ⟨copt, st', hrun, hlayout, hshows⟩ :=
        parseLongOptions_item hplain h hrest hne hoptarg cs
      refine ⟨copt, _, ?_, hlayout, hshows⟩
      rw [hrun]
      rfl
  · have hhead : (c :: cs).head? ≠ some chDash := fun hhead => hdash (Option.some.inj hhead)
    rw [if_neg hhead]
    exact shortOption_next hplain h hrest hoptarg hleft hdash

theorem letters_plain (hplain : Plain options) (posixlyCorrect : Bool) :
    letters posixlyCorrect options = ⟨!posixlyCorrect, false, options⟩ := by
  unfold letters
  rw [hplain.colon]
  have hdash : ¬ some chColon = some chDash := by decide
  have hplus : ¬ some chColon = some chPlus := by decide
  simp [hdash, hplus]

/-- A call of `getopt_long` is a step. -/
theorem getoptLong_next (hplain : Plain options) {posixlyCorrect : Bool}
    (h : Layout (optionsOf options longOptions) (!posixlyCorrect) argv0 nargc st cfg)
    (hstarted : cfg.Started (optionsOf options longOptions)) :
    Calls options longOptions (!posixlyCorrect) argv0 nargc
      (getoptLong posixlyCorrect nargc options longOptions st)
      (next (optionsOf options longOptions) (!posixlyCorrect) cfg) := by
  have hoptind : st.optind ≠ 0 := by
    rw [h.optind]
    omega
  have hlayout : Layout (optionsOf options longOptions) (!posixlyCorrect) argv0 nargc
      { st with optarg := none, optreset := false } cfg :=
    ⟨h.blocks, h.optind, h.nargc, h.place, rfl, h.plain, h.busy⟩
  unfold getoptLong
  simp only [if_neg hoptind, letters_plain hplain, h.optreset, Bool.false_eq_true, if_false,
    false_or]
  by_cases hleft : cfg.left = []
  · have hplace : st.place = [] := h.place.trans hleft
    have hcfg : cfg = ⟨cfg.read, cfg.operands, [], cfg.rest⟩ := by rw [← hleft]
    have hn : nargc - st.optind = cfg.rest.length := by
      rw [h.nargc]
      omega
    rw [hcfg] at hlayout
    have hscan := scanWords_scans (l := ⟨!posixlyCorrect, false, options⟩) rfl rfl hlayout
    rw [if_pos hplace, hn]
    unfold next
    rw [if_pos hleft]
    rcases hscan with ⟨read', operands', st', hnext, hret, hread⟩ |
      ⟨operands', word, more, st', hnext, hret, hop, hoptarg, hoption⟩
    · rw [hnext, hret]
      exact ⟨st', rfl, hread⟩
    · obtain ⟨c, cs, hword⟩ := isOption_drop hop
      have hdrop : word.drop 1 = c :: cs := by rw [hword]; rfl
      rw [hdrop] at hnext hoption
      rw [hnext, hret]
      exact readOption_next hplain hoption rfl hoptarg rfl
  · have hplace : st.place ≠ [] := fun hnil => hleft (h.place.symm.trans hnil)
    obtain ⟨word, rest, hrest, -⟩ := hstarted.resolve_left hleft
    obtain ⟨c, cs, hcs⟩ := List.exists_cons_of_ne_nil hleft
    rw [if_neg hplace]
    unfold next
    rw [if_neg hleft, hrest, hcs]
    exact readOption_next hplain hlayout hrest rfl hcs

end Read

end Barco
