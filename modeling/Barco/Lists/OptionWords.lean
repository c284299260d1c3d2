import Mathlib.Data.List.Basic
import Mathlib.Data.List.TakeWhile

/-!
# Reading a command line

A command line is read word by word, from left to right. A word that begins with
a dash, and is not the dash alone, is read letter by letter: an option that takes
no value leaves the next letter, one that takes a value takes the rest of the
word or, where one is required and the word is at its end, the next word. A dash
among the letters begins a long option, which is the rest of the word, up to an
equals sign. A word of two dashes ends the options, and the other words are
operands.

`readWords` reads a whole line. `next` makes one step, up to the next option, and
keeps in a `Config` what has been read and what is left. `outcome` is what a
configuration leads to: `next_leads` says that a step does not change it.

Letters that end with a dash have no reading: nothing is left of the word, and it
is not an option. `next` says `stuck` there and begins the word again.
-/

namespace OptionWords

/-- Whether an option takes a value. -/
inductive Takes
  | nothing
  | required
  | optional
  deriving DecidableEq

/-- The options: those of one letter, and the long ones, which have numbers. -/
structure Options (α : Type) where
  dash : α
  equals : α
  short : α → Option Takes
  long : List α → Option (Nat × Takes)

/-- What is found: an option with its value, or what is wrong. The word of a long option
is the last it takes up. -/
inductive Item (α : Type)
  | long (val : Nat) (value : Option (List α)) (word : List α)
  | short (c : α) (value : Option (List α))
  | unknownLong (word : List α)
  | unknownShort (c : α)
  | missing (word : List α)
  deriving DecidableEq

/-- A line that has been read: what was found, the words read for it, and the operands. -/
structure Reading (α : Type) where
  items : List (Item α)
  read : List (List α)
  operands : List (List α)
  deriving DecidableEq

variable {α : Type}

/-- More found, in front. -/
def Reading.after (r : Reading α) (items : List (Item α)) (read operands : List (List α)) :
    Reading α where
  items := items ++ r.items
  read := read ++ r.read
  operands := operands ++ r.operands

@[simp] theorem Reading.after_nil (r : Reading α) : r.after [] [] [] = r := rfl

@[simp] theorem Reading.after_after (r : Reading α) (items items' : List (Item α))
    (read read' operands operands' : List (List α)) :
    (r.after items read operands).after items' read' operands' =
      r.after (items' ++ items) (read' ++ read) (operands' ++ operands) := by
  simp only [Reading.after, List.append_assoc]

variable [DecidableEq α]

/-- A dash with something behind it. -/
def isOption (o : Options α) (word : List α) : Bool :=
  decide (word.head? = some o.dash ∧ word.length ≠ 1)

/-- The long option `text` in `word`, and whether it takes the next word. -/
def longItem (o : Options α) (word text : List α) (following : Option (List α)) :
    Item α × Bool :=
  let name := text.takeWhile (· ≠ o.equals)
  match o.long name with
  | none => (.unknownLong word, false)
  | some (val, takes) =>
    if o.equals ∈ text then
      match takes with
      | .nothing => (.unknownLong word, false)
      | _ => (.long val (some (text.drop (name.length + 1))) word, false)
    else
      match takes, following with
      | .required, none => (.missing word, false)
      | .required, some arg => (.long val (some arg) arg, true)
      | _, _ => (.long val none word, false)

/-- The letters of `word`: what they say, and whether the next word is taken. -/
def readLetters (o : Options α) (word : List α) (following : Option (List α)) :
    List α → Option (List (Item α) × Bool)
  | [] => some ([], false)
  | c :: cs =>
    if c = o.dash then
      if cs = [] then none
      else some ([(longItem o word cs following).1], (longItem o word cs following).2)
    else
      match o.short c with
      | none => (readLetters o word following cs).map fun r => (.unknownShort c :: r.1, r.2)
      | some .nothing =>
        (readLetters o word following cs).map fun r => (.short c none :: r.1, r.2)
      | some .optional => some ([.short c (if cs = [] then none else some cs)], false)
      | some .required =>
        if cs ≠ [] then some ([.short c (some cs)], false)
        else
          match following with
          | none => some ([.missing word], false)
          | some arg => some ([.short c (some arg)], true)

/-- A whole line. Without `permute` the first operand ends the options. -/
def readWords (o : Options α) (permute : Bool) : List (List α) → Option (Reading α)
  | [] => some ⟨[], [], []⟩
  | word :: rest =>
    if !isOption o word then
      if permute then (readWords o permute rest).map fun r => r.after [] [] [word]
      else some ⟨[], [], word :: rest⟩
    else if word = [o.dash, o.dash] then some ⟨[], [word], rest⟩
    else
      match readLetters o word rest.head? (word.drop 1) with
      | none => none
      | some (items, false) => (readWords o permute rest).map fun r => r.after items [word] []
      | some (items, true) =>
        match rest with
        | [] => none
        | arg :: rest => (readWords o permute rest).map fun r => r.after items [word, arg] []

/-! ## Steps -/

/-- What has been read, the operands so far, the letters left of the word in front, and the
words left, with that word while letters are left of it. -/
structure Config (α : Type) where
  read : List (List α)
  operands : List (List α)
  left : List α
  rest : List (List α)
  deriving DecidableEq

/-- One step: the end, with all words read and all operands; what was found; or a dash at
the end of the letters. -/
inductive Next (α : Type)
  | stop (read operands : List (List α))
  | item (i : Item α) (cfg : Config α)
  | stuck (cfg : Config α)
  deriving DecidableEq

/-- A word is done: what is left behind it, or behind its value. -/
def Config.done (cfg : Config α) (word : List α) (rest : List (List α)) (taken : Bool) :
    Config α where
  read := cfg.read ++ word :: if taken then rest.take 1 else []
  operands := cfg.operands
  left := []
  rest := if taken then rest.drop 1 else rest

/-- A letter is done. -/
def Config.letter (cfg : Config α) (word cs : List α) (rest : List (List α)) : Config α :=
  if cs = [] then cfg.done word rest false else { cfg with left := cs, rest := word :: rest }

/-- The next letter of `word`. -/
def nextLetter (o : Options α) (cfg : Config α) (word : List α) (rest : List (List α)) :
    List α → Next α
  | [] => .stuck { cfg with left := [], rest := word :: rest }
  | c :: cs =>
    if c = o.dash then
      if cs = [] then .stuck { cfg with left := [], rest := word :: rest }
      else
        .item (longItem o word cs rest.head?).1
          (cfg.done word rest (longItem o word cs rest.head?).2)
    else
      match o.short c with
      | none => .item (.unknownShort c) (cfg.letter word cs rest)
      | some .nothing => .item (.short c none) (cfg.letter word cs rest)
      | some .optional =>
        .item (.short c (if cs = [] then none else some cs)) (cfg.done word rest false)
      | some .required =>
        if cs ≠ [] then .item (.short c (some cs)) (cfg.done word rest false)
        else
          match rest with
          | [] => .item (.missing word) (cfg.done word rest false)
          | arg :: _ => .item (.short c (some arg)) (cfg.done word rest true)

/-- The next word that is no operand. -/
def nextWord (o : Options α) (permute : Bool) (read : List (List α)) :
    (operands : List (List α)) → List (List α) → Next α
  | operands, [] => .stop read operands
  | operands, word :: rest =>
    if !isOption o word then
      if permute then nextWord o permute read (operands ++ [word]) rest
      else .stop read (operands ++ word :: rest)
    else if word = [o.dash, o.dash] then .stop (read ++ [word]) (operands ++ rest)
    else nextLetter o ⟨read, operands, [], word :: rest⟩ word rest (word.drop 1)

def next (o : Options α) (permute : Bool) (cfg : Config α) : Next α :=
  if cfg.left = [] then nextWord o permute cfg.read cfg.operands cfg.rest
  else
    match cfg.rest with
    | [] => .stop cfg.read cfg.operands
    | word :: rest => nextLetter o cfg word rest cfg.left

/-- The letters that are left are letters of the word in front, which is an option: it has
a reading just when they have, and takes the next word just when they do. -/
def Config.Started (o : Options α) (cfg : Config α) : Prop :=
  cfg.left = [] ∨ ∃ word rest, cfg.rest = word :: rest ∧ isOption o word = true ∧
    word ≠ [o.dash, o.dash] ∧
    (readLetters o word rest.head? (word.drop 1)).map Prod.snd =
      (readLetters o word rest.head? cfg.left).map Prod.snd

/-- What a word leads to once its letters are read. -/
def afterLetters (o : Options α) (permute : Bool) (word : List α) (rest : List (List α)) :
    Option (List (Item α) × Bool) → Option (Reading α)
  | none => none
  | some (items, false) => (readWords o permute rest).map fun r => r.after items [word] []
  | some (items, true) =>
    match rest with
    | [] => none
    | arg :: rest => (readWords o permute rest).map fun r => r.after items [word, arg] []

/-- What a configuration leads to. -/
def outcome (o : Options α) (permute : Bool) (cfg : Config α) : Option (Reading α) :=
  (if cfg.left = [] then readWords o permute cfg.rest
  else
    match cfg.rest with
    | [] => some ⟨[], [], []⟩
    | word :: rest =>
      afterLetters o permute word rest (readLetters o word rest.head? cfg.left)).map
    fun r => r.after [] cfg.read cfg.operands

/-- What a step says about what its configuration leads to. -/
def Leads (o : Options α) (permute : Bool) (cfg : Config α) : Next α → Prop
  | .stop read operands => outcome o permute cfg = some ⟨[], read, operands⟩
  | .item i cfg' =>
    outcome o permute cfg = (outcome o permute cfg').map (fun r => r.after [i] [] []) ∧
      cfg'.Started o
  | .stuck cfg' =>
    outcome o permute cfg = none ∧ outcome o permute cfg' = none ∧ cfg'.Started o

section Steps

variable {o : Options α} {permute : Bool} {cfg : Config α} {word : List α}
  {rest : List (List α)}

theorem readWords_operand (h : isOption o word = false) :
    readWords o true (word :: rest) =
      (readWords o true rest).map fun r => r.after [] [] [word] := by
  simp [readWords, h]

theorem readWords_option (h : isOption o word = true) (hne : word ≠ [o.dash, o.dash]) :
    readWords o permute (word :: rest) =
      afterLetters o permute word rest (readLetters o word rest.head? (word.drop 1)) := by
  rw [readWords, h, if_neg (by decide), if_neg hne]
  rcases readLetters o word rest.head? (word.drop 1) with _ | ⟨items, _ | _⟩
  · rfl
  · rfl
  · cases rest <;> rfl

/-- Letters that take the next word have one. -/
theorem longItem_taken {text : List α} (h : (longItem o word text rest.head?).2 = true) :
    ∃ arg more, rest = arg :: more := by
  cases rest with
  | cons arg more => exact ⟨arg, more, rfl⟩
  | nil =>
    have hfalse : (longItem o word text none).2 = false := by
      unfold longItem
      dsimp only
      generalize o.long (text.takeWhile (· ≠ o.equals)) = found
      rcases found with _ | ⟨val, _ | _ | _⟩
      · rfl
      all_goals
        dsimp only
        split <;> rfl
    exact absurd (hfalse.symm.trans h) Bool.false_ne_true

theorem outcome_done (cfg : Config α) (word : List α) (rest : List (List α)) :
    outcome o permute (cfg.done word rest false) =
      (readWords o permute rest).map fun r => r.after [] (cfg.read ++ [word]) cfg.operands :=
  rfl

theorem outcome_done_taken (cfg : Config α) (word arg : List α) (rest : List (List α)) :
    outcome o permute (cfg.done word (arg :: rest) true) =
      (readWords o permute rest).map
        fun r => r.after [] (cfg.read ++ [word, arg]) cfg.operands :=
  rfl

theorem Config.done_started (cfg : Config α) (word : List α) (rest : List (List α))
    (taken : Bool) : (cfg.done word rest taken).Started o :=
  .inl rfl

/-- The word is done, and all that it said is one item. -/
theorem leads_done (i : Item α) (taken : Bool) (htaken : taken = true → ∃ arg more,
      rest = arg :: more)
    (hcfg : outcome o permute cfg = (afterLetters o permute word rest (some ([i], taken))).map
      fun r => r.after [] cfg.read cfg.operands) :
    Leads o permute cfg (.item i (cfg.done word rest taken)) := by
  refine ⟨?_, cfg.done_started word rest taken⟩
  rw [hcfg]
  cases taken with
  | false =>
    rw [outcome_done, afterLetters, Option.map_map, Option.map_map]
    congr 1
    funext r
    simp
  | true =>
    obtain ⟨arg, more, rfl⟩ := htaken rfl
    rw [outcome_done_taken, afterLetters, Option.map_map, Option.map_map]
    congr 1
    funext r
    simp

/-- More letters, and what they say behind an item. -/
theorem leads_letter (i : Item α) (cs : List α) (hopt : isOption o word = true)
    (hne : word ≠ [o.dash, o.dash])
    (hsame : (readLetters o word rest.head? (word.drop 1)).map Prod.snd =
      (readLetters o word rest.head? cs).map Prod.snd)
    (hcfg : outcome o permute cfg = (afterLetters o permute word rest
      ((readLetters o word rest.head? cs).map fun r => (i :: r.1, r.2))).map
      fun r => r.after [] cfg.read cfg.operands) :
    Leads o permute cfg (.item i (cfg.letter word cs rest)) := by
  unfold Config.letter
  by_cases hcs : cs = []
  · rw [if_pos hcs]
    subst hcs
    exact leads_done i false (fun h => nomatch h) hcfg
  · rw [if_neg hcs]
    refine ⟨?_, .inr ⟨word, rest, rfl, hopt, hne, hsame⟩⟩
    rw [hcfg]
    simp only [outcome, if_neg hcs]
    rcases readLetters o word rest.head? cs with _ | ⟨items, _ | _⟩
    · rfl
    · simp only [Option.map_some, afterLetters, Option.map_map]
      rfl
    · cases rest with
      | nil => rfl
      | cons arg more =>
        simp only [Option.map_some, afterLetters, Option.map_map]
        rfl

/-- One step over a letter of `word`. -/
theorem nextLetter_leads (c : α) (cs : List α) (hopt : isOption o word = true)
    (hne : word ≠ [o.dash, o.dash])
    (hsame : (readLetters o word rest.head? (word.drop 1)).map Prod.snd =
      (readLetters o word rest.head? (c :: cs)).map Prod.snd)
    (hcfg : outcome o permute cfg = (afterLetters o permute word rest
      (readLetters o word rest.head? (c :: cs))).map
      fun r => r.after [] cfg.read cfg.operands) :
    Leads o permute cfg (nextLetter o cfg word rest (c :: cs)) := by
  generalize hwhole : readLetters o word rest.head? (word.drop 1) = whole at hsame
  unfold readLetters at hsame hcfg
  unfold nextLetter
  dsimp only at hsame hcfg ⊢
  by_cases hdash : c = o.dash
  · rw [if_pos hdash] at hsame hcfg ⊢
    by_cases hcs : cs = []
    · -- nothing is left behind the dash: the word is begun again
      rw [if_pos hcs] at hsame hcfg ⊢
      have hnone : whole = none := by simpa using hsame
      refine ⟨hcfg, ?_, .inl rfl⟩
      simp only [outcome, if_true]
      rw [readWords_option hopt hne, hwhole, hnone]
      rfl
    · rw [if_neg hcs] at hcfg ⊢
      exact leads_done _ _ longItem_taken hcfg
  rw [if_neg hdash] at hsame hcfg ⊢
  rcases hshort : o.short c with _ | _ | _ | _
  · rw [hshort] at hsame hcfg
    refine leads_letter _ cs hopt hne ?_ hcfg
    rw [hwhole, hsame, Option.map_map]
    rfl
  · rw [hshort] at hsame hcfg
    refine leads_letter _ cs hopt hne ?_ hcfg
    rw [hwhole, hsame, Option.map_map]
    rfl
  · rw [hshort] at hcfg
    simp only at hcfg ⊢
    by_cases hcs : cs ≠ []
    · rw [if_pos hcs] at hcfg ⊢
      exact leads_done _ false (fun h => nomatch h) hcfg
    · rw [if_neg hcs] at hcfg ⊢
      cases rest with
      | nil => exact leads_done _ false (fun h => nomatch h) hcfg
      | cons arg more => exact leads_done _ true (fun _ => ⟨arg, more, rfl⟩) hcfg
  · rw [hshort] at hcfg
    exact leads_done _ false (fun h => nomatch h) hcfg

theorem outcome_left_nil (read operands : List (List α)) (rest : List (List α)) :
    outcome o permute ⟨read, operands, [], rest⟩ =
      (readWords o permute rest).map fun r => r.after [] read operands :=
  rfl

/-- An operand that is skipped does not change what the line leads to. -/
theorem outcome_skip (read operands : List (List α)) (h : isOption o word = false) :
    outcome o true ⟨read, operands, [], word :: rest⟩ =
      outcome o true ⟨read, operands ++ [word], [], rest⟩ := by
  rw [outcome_left_nil, outcome_left_nil, readWords_operand h, Option.map_map]
  congr 1
  funext r
  simp

theorem isOption_drop (h : isOption o word = true) :
    ∃ c cs, word = o.dash :: c :: cs := by
  unfold isOption at h
  obtain ⟨hhead, hlen⟩ := of_decide_eq_true h
  rcases word with _ | ⟨d, _ | ⟨c, cs⟩⟩
  · cases hhead
  · exact absurd rfl hlen
  · obtain rfl := Option.some.inj hhead
    exact ⟨c, cs, rfl⟩

theorem Leads.congr {cfg' : Config α} {n : Next α} (h : Leads o permute cfg' n)
    (hout : outcome o permute cfg = outcome o permute cfg') : Leads o permute cfg n := by
  cases n with
  | stop read operands => exact hout.trans h
  | item i after => exact ⟨hout.trans h.1, h.2⟩
  | stuck after => exact ⟨hout.trans h.1, h.2⟩

/-- One step over the operands to the next option. -/
theorem nextWord_leads (read operands : List (List α)) (rest : List (List α)) :
    Leads o permute ⟨read, operands, [], rest⟩ (nextWord o permute read operands rest) := by
  induction rest generalizing operands with
  | nil =>
    unfold nextWord Leads
    rw [outcome_left_nil, readWords]
    simp [Reading.after]
  | cons word rest ih =>
    unfold nextWord
    by_cases hop : isOption o word = true
    · rw [hop, if_neg (by decide)]
      by_cases htwo : word = [o.dash, o.dash]
      · rw [if_pos htwo]
        unfold Leads
        dsimp only
        rw [outcome_left_nil, readWords, hop, if_neg (by decide), if_pos htwo]
        simp [Reading.after]
      · rw [if_neg htwo]
        obtain ⟨c, cs, hword⟩ := isOption_drop hop
        have hdrop : word.drop 1 = c :: cs := by rw [hword]; rfl
        have hcfg : outcome o permute ⟨read, operands, [], word :: rest⟩ =
            (afterLetters o permute word rest
              (readLetters o word rest.head? (c :: cs))).map
              fun r => r.after [] read operands := by
          rw [outcome_left_nil, readWords_option hop htwo, hdrop]
        rw [hdrop]
        exact nextLetter_leads c cs hop htwo (by rw [hdrop]) hcfg
    · have hfalse : isOption o word = false := Bool.eq_false_iff.mpr hop
      rw [hfalse, if_pos (by decide)]
      cases permute with
      | false =>
        unfold Leads
        simp only [Bool.false_eq_true, if_false]
        rw [outcome_left_nil, readWords, hfalse]
        simp [Reading.after]
      | true =>
        rw [if_pos rfl]
        exact (ih (operands ++ [word])).congr (outcome_skip read operands hfalse)

/-- A step does not change what a line leads to: what it finds comes first. -/
theorem next_leads (permute : Bool) (h : cfg.Started o) :
    Leads o permute cfg (next o permute cfg) := by
  unfold next
  by_cases hleft : cfg.left = []
  · rw [if_pos hleft]
    have hcfg : cfg = ⟨cfg.read, cfg.operands, [], cfg.rest⟩ := by rw [← hleft]
    rw [hcfg]
    exact nextWord_leads cfg.read cfg.operands cfg.rest
  · rw [if_neg hleft]
    obtain ⟨word, rest, hrest, hopt, hne, hsame⟩ := h.resolve_left hleft
    obtain ⟨c, cs, hcs⟩ := List.exists_cons_of_ne_nil hleft
    have hcfg : outcome o permute cfg = (afterLetters o permute word rest
        (readLetters o word rest.head? (c :: cs))).map
        fun r => r.after [] cfg.read cfg.operands := by
      unfold outcome
      rw [if_neg hleft, hrest, hcs]
    rw [hrest, hcs]
    exact nextLetter_leads c cs hopt hne (hcs ▸ hsame) hcfg

/-- A line that is read to its end, with nothing found, stops at once. -/
theorem next_eq_stop (h : cfg.Started o) {read operands : List (List α)}
    (hout : outcome o permute cfg = some ⟨[], read, operands⟩) :
    next o permute cfg = .stop read operands := by
  have hlead := next_leads permute h
  rcases hnext : next o permute cfg with ⟨read', operands'⟩ | ⟨i, cfg'⟩ | cfg'
  · rw [hnext] at hlead
    have heq := Option.some.inj (hlead.symm.trans hout)
    rw [Reading.mk.injEq] at heq
    rw [heq.2.1, heq.2.2]
  · rw [hnext] at hlead
    obtain ⟨r, -, hr⟩ := Option.map_eq_some_iff.mp (hlead.1.symm.trans hout)
    have := congrArg Reading.items hr
    cases this
  · rw [hnext] at hlead
    exact absurd (hlead.1.symm.trans hout) (by simp)

/-- A line with something found comes to it. -/
theorem next_eq_item (h : cfg.Started o) {r : Reading α} {i : Item α} {items : List (Item α)}
    (hitems : r.items = i :: items) (hout : outcome o permute cfg = some r) :
    ∃ cfg', next o permute cfg = .item i cfg' ∧ cfg'.Started o ∧
      outcome o permute cfg' = some { r with items := items } := by
  have hlead := next_leads permute h
  rcases hnext : next o permute cfg with ⟨read', operands'⟩ | ⟨i', cfg'⟩ | cfg'
  · rw [hnext] at hlead
    have heq := Option.some.inj (hlead.symm.trans hout)
    rw [← heq] at hitems
    cases hitems
  · rw [hnext] at hlead
    obtain ⟨r', hr', hr⟩ := Option.map_eq_some_iff.mp (hlead.1.symm.trans hout)
    rw [← hr] at hitems ⊢
    obtain ⟨rfl, hi⟩ := List.cons.inj hitems
    exact ⟨cfg', rfl, hlead.2, by rw [hr', ← hi]; rfl⟩
  · rw [hnext] at hlead
    exact absurd (hlead.1.symm.trans hout) (by simp)

/-- A line that has no reading never stops. -/
theorem next_of_none (h : cfg.Started o) (hout : outcome o permute cfg = none) :
    ∃ cfg', (next o permute cfg = .stuck cfg' ∨ ∃ i, next o permute cfg = .item i cfg') ∧
      cfg'.Started o ∧ outcome o permute cfg' = none := by
  have hlead := next_leads permute h
  rcases hnext : next o permute cfg with ⟨read', operands'⟩ | ⟨i', cfg'⟩ | cfg'
  · rw [hnext] at hlead
    exact absurd (hlead.symm.trans hout) (by simp)
  · rw [hnext] at hlead
    exact ⟨cfg', .inr ⟨i', rfl⟩, hlead.2, Option.map_eq_none_iff.mp (hlead.1.symm.trans hout)⟩
  · rw [hnext] at hlead
    exact ⟨cfg', .inl rfl, hlead.2.2, hlead.2.1⟩

end Steps

/-! ## No word is lost -/

theorem afterLetters_eq_some {o : Options α} {permute : Bool} {word : List α}
    {rest : List (List α)} {found : Option (List (Item α) × Bool)} {r : Reading α}
    (h : afterLetters o permute word rest found = some r) :
    ∃ taken rest' r' items, rest = taken ++ rest' ∧ readWords o permute rest' = some r' ∧
      r = r'.after items (word :: taken) [] := by
  rcases found with _ | ⟨items, _ | _⟩
  · cases h
  · obtain ⟨r', hr', rfl⟩ := Option.map_eq_some_iff.mp h
    exact ⟨[], rest, r', items, rfl, hr', rfl⟩
  · rcases rest with _ | ⟨arg, more⟩
    · cases h
    · obtain ⟨r', hr', rfl⟩ := Option.map_eq_some_iff.mp h
      exact ⟨[arg], more, r', items, rfl, hr', rfl⟩

/-- The words read and the operands are the words of the line. -/
theorem readWords_perm {o : Options α} {permute : Bool} {words : List (List α)} {r : Reading α}
    (h : readWords o permute words = some r) : (r.read ++ r.operands).Perm words := by
  induction hn : words.length using Nat.strongRecOn generalizing words r with
  | _ n ih =>
    rcases words with _ | ⟨word, rest⟩
    · obtain rfl := Option.some.inj h
      exact List.Perm.nil
    by_cases hop : isOption o word = true
    · by_cases htwo : word = [o.dash, o.dash]
      · rw [readWords, hop, if_neg (by decide), if_pos htwo] at h
        obtain rfl := Option.some.inj h
        exact List.Perm.refl _
      · rw [readWords_option hop htwo] at h
        obtain ⟨taken, rest', r', items, rfl, hr', rfl⟩ := afterLetters_eq_some h
        have hrec : (r'.read ++ r'.operands).Perm rest' := by
          refine ih rest'.length ?_ hr' rfl
          rw [← hn]
          simp only [List.length_cons, List.length_append]
          omega
        simpa [Reading.after] using hrec.append_left taken
    · have hfalse : isOption o word = false := Bool.eq_false_iff.mpr hop
      cases permute with
      | false =>
        rw [readWords, hfalse] at h
        obtain rfl := Option.some.inj h
        exact List.Perm.refl _
      | true =>
        rw [readWords_operand hfalse] at h
        obtain ⟨r', hr', rfl⟩ := Option.map_eq_some_iff.mp h
        have hrec : (r'.read ++ r'.operands).Perm rest := by
          refine ih rest.length ?_ hr' rfl
          rw [← hn]
          exact Nat.lt_succ_self _
        have hmid : (r'.read ++ word :: r'.operands).Perm (word :: (r'.read ++ r'.operands)) :=
          List.perm_middle
        simpa [Reading.after] using hmid.trans (hrec.cons word)

/-- Letters that end with a dash, behind others that take no value. -/
def Stuck (o : Options α) (letters : List α) : Prop :=
  ∃ front, letters = front ++ [o.dash] ∧
    ∀ c ∈ front, c ≠ o.dash ∧ (o.short c = none ∨ o.short c = some .nothing)

theorem readLetters_eq_none_iff {o : Options α} {word : List α} {following : Option (List α)}
    {letters : List α} : readLetters o word following letters = none ↔ Stuck o letters := by
  induction letters with
  | nil =>
    refine ⟨(by intro h; cases h), ?_⟩
    rintro ⟨front, hnil, -⟩
    exact absurd hnil.symm (List.append_ne_nil_of_right_ne_nil front (List.cons_ne_nil _ _))
  | cons c cs ih =>
    have hstep : Stuck o (c :: cs) ↔ (c = o.dash ∧ cs = []) ∨
        (c ≠ o.dash ∧ (o.short c = none ∨ o.short c = some .nothing) ∧ Stuck o cs) := by
      constructor
      · rintro ⟨front, heq, hfront⟩
        rcases front with _ | ⟨d, front⟩
        · obtain ⟨rfl, rfl⟩ := List.cons.inj heq
          exact .inl ⟨rfl, rfl⟩
        · obtain ⟨rfl, rfl⟩ := List.cons.inj heq
          obtain ⟨hd, hrest⟩ := List.forall_mem_cons.mp hfront
          exact .inr ⟨hd.1, hd.2, front, rfl, hrest⟩
      · rintro (⟨rfl, rfl⟩ | ⟨hne, hshort, front, rfl, hrest⟩)
        · exact ⟨[], rfl, fun d hd => absurd hd List.not_mem_nil⟩
        · exact ⟨c :: front, rfl, List.forall_mem_cons.mpr ⟨⟨hne, hshort⟩, hrest⟩⟩
    rw [hstep]
    unfold readLetters
    by_cases hdash : c = o.dash
    · rw [if_pos hdash]
      by_cases hcs : cs = []
      · simp [hdash, hcs]
      · simp [hdash, hcs]
    · rw [if_neg hdash]
      rcases hshort : o.short c with _ | _ | _ | _
      · simp [hdash, ih]
      · simp [hdash, ih]
      · dsimp only
        split
        · simp [hdash]
        · split <;> simp [hdash]
      · simp [hdash]

/-- Letters take the next word only where there is one. -/
theorem readLetters_taken {o : Options α} {word : List α} {following : Option (List α)}
    {letters : List α} {items : List (Item α)}
    (h : readLetters o word following letters = some (items, true)) :
    following.isSome = true := by
  cases following with
  | some arg => rfl
  | none =>
    induction letters generalizing items with
    | nil => cases h
    | cons c cs ih =>
      unfold readLetters at h
      by_cases hdash : c = o.dash
      · rw [if_pos hdash] at h
        by_cases hcs : cs = []
        · rw [if_pos hcs] at h
          cases h
        · rw [if_neg hcs] at h
          have htaken : (longItem o word cs ([] : List (List α)).head?).2 = true :=
            congrArg Prod.snd (Option.some.inj h)
          obtain ⟨arg, more, hnil⟩ := longItem_taken htaken
          cases hnil
      · rw [if_neg hdash] at h
        rcases hshort : o.short c with _ | _ | _ | _
        · rw [hshort] at h
          obtain ⟨⟨items', taken⟩, hcs, heq⟩ := Option.map_eq_some_iff.mp h
          obtain rfl := congrArg Prod.snd heq
          exact ih hcs
        · rw [hshort] at h
          obtain ⟨⟨items', taken⟩, hcs, heq⟩ := Option.map_eq_some_iff.mp h
          obtain rfl := congrArg Prod.snd heq
          exact ih hcs
        · rw [hshort] at h
          dsimp only at h
          split at h <;> cases h
        · rw [hshort] at h
          cases h

/-- A line without a reading has such a word. -/
theorem exists_stuck {o : Options α} {permute : Bool} {words : List (List α)}
    (h : readWords o permute words = none) :
    ∃ word ∈ words, isOption o word = true ∧ word ≠ [o.dash, o.dash] ∧ Stuck o (word.drop 1) := by
  induction hn : words.length using Nat.strongRecOn generalizing words with
  | _ n ih =>
    rcases words with _ | ⟨word, rest⟩
    · cases h
    by_cases hop : isOption o word = true
    · by_cases htwo : word = [o.dash, o.dash]
      · rw [readWords, hop, if_neg (by decide), if_pos htwo] at h
        cases h
      · rw [readWords_option hop htwo] at h
        rcases hletters : readLetters o word rest.head? (word.drop 1) with _ | ⟨items, _ | _⟩
        · exact ⟨word, List.mem_cons_self, hop, htwo, readLetters_eq_none_iff.mp hletters⟩
        · rw [hletters] at h
          obtain ⟨w, hw, hstuck⟩ := ih rest.length (hn ▸ Nat.lt_succ_self _)
            (Option.map_eq_none_iff.mp h) rfl
          exact ⟨w, List.mem_cons_of_mem _ hw, hstuck⟩
        · rw [hletters] at h
          rcases rest with _ | ⟨arg, more⟩
          · exact absurd (readLetters_taken hletters) (by simp)
          · obtain ⟨w, hw, hstuck⟩ := ih more.length (by
              rw [← hn]
              simp only [List.length_cons]
              omega) (Option.map_eq_none_iff.mp h) rfl
            exact ⟨w, List.mem_cons_of_mem _ (List.mem_cons_of_mem _ hw), hstuck⟩
    · have hfalse : isOption o word = false := Bool.eq_false_iff.mpr hop
      cases permute with
      | false =>
        rw [readWords, hfalse] at h
        cases h
      | true =>
        rw [readWords_operand hfalse] at h
        obtain ⟨w, hw, hstuck⟩ := ih rest.length (hn ▸ Nat.lt_succ_self _)
          (Option.map_eq_none_iff.mp h) rfl
        exact ⟨w, List.mem_cons_of_mem _ hw, hstuck⟩

/-! ## Values -/

/-- The value of an option. -/
def Item.value : Item α → Option (List α)
  | .long _ value _ => value
  | .short _ value => value
  | _ => none

/-- An option of `o`, with a value where it requires one. -/
def Item.Complete (o : Options α) : Item α → Prop
  | .long val value _ => ∃ name takes, o.long name = some (val, takes) ∧
    (takes = .required → value.isSome = true)
  | .short c value => ∃ takes, o.short c = some takes ∧
    (takes = .required → value.isSome = true)
  | _ => True

/-- A complete option, whose value is the end of a word of the line. -/
structure Item.Valued (o : Options α) (line : List (List α)) (item : Item α) : Prop where
  complete : item.Complete o
  tail : ∀ text, item.value = some text → ∃ word ∈ line, text <:+ word

section Values

variable {o : Options α} {line : List (List α)} {word : List α} {following : Option (List α)}

omit [DecidableEq α] in
theorem Item.Valued.of_none {item : Item α} (hcomplete : item.Complete o)
    (hnone : item.value = none) : item.Valued o line where
  complete := hcomplete
  tail text htext := by rw [hnone] at htext; cases htext

omit [DecidableEq α] in
theorem Item.Valued.of_some {item : Item α} {value : List α} (hcomplete : item.Complete o)
    (hsome : item.value = some value) (hword : word ∈ line) (htail : value <:+ word) :
    item.Valued o line where
  complete := hcomplete
  tail text htext := by
    obtain rfl := Option.some.inj (hsome.symm.trans htext)
    exact ⟨word, hword, htail⟩

theorem longItem_valued {text : List α} (hword : word ∈ line) (htail : text <:+ word)
    (hfollowing : ∀ arg, following = some arg → arg ∈ line) :
    (longItem o word text following).1.Valued o line := by
  unfold longItem
  dsimp only
  rcases hlong : o.long (text.takeWhile (· ≠ o.equals)) with _ | ⟨val, takes⟩
  · exact .of_none trivial rfl
  · dsimp only
    split
    · have hdrop := (List.drop_suffix ((text.takeWhile (· ≠ o.equals)).length + 1) text).trans htail
      rcases takes with _ | _ | _
      · exact .of_none trivial rfl
      · exact .of_some ⟨_, _, hlong, fun _ => rfl⟩ rfl hword hdrop
      · exact .of_some ⟨_, _, hlong, fun _ => rfl⟩ rfl hword hdrop
    · rcases takes with _ | _ | _
      · exact .of_none ⟨_, _, hlong, by rintro ⟨⟩⟩ rfl
      · rcases following with _ | arg
        · exact .of_none trivial rfl
        · exact .of_some ⟨_, _, hlong, fun _ => rfl⟩ rfl (hfollowing arg rfl) (List.suffix_refl arg)
      · exact .of_none ⟨_, _, hlong, by rintro ⟨⟩⟩ rfl

theorem readLetters_valued {letters : List α} {items : List (Item α)} {taken : Bool}
    (hword : word ∈ line) (htail : letters <:+ word)
    (hfollowing : ∀ arg, following = some arg → arg ∈ line)
    (h : readLetters o word following letters = some (items, taken)) :
    ∀ i ∈ items, i.Valued o line := by
  induction letters generalizing items taken with
  | nil =>
    obtain ⟨rfl, -⟩ := Prod.mk.inj (Option.some.inj h)
    exact fun i hi => absurd hi List.not_mem_nil
  | cons c cs ih =>
    have hcs : cs <:+ word := (List.suffix_cons c cs).trans htail
    unfold readLetters at h
    by_cases hdash : c = o.dash
    · rw [if_pos hdash] at h
      by_cases hnil : cs = []
      · rw [if_pos hnil] at h
        cases h
      · rw [if_neg hnil] at h
        obtain ⟨rfl, -⟩ := Prod.mk.inj (Option.some.inj h)
        exact List.forall_mem_singleton.mpr (longItem_valued hword hcs hfollowing)
    rw [if_neg hdash] at h
    rcases hshort : o.short c with _ | _ | _ | _
    · rw [hshort] at h
      obtain ⟨⟨items', taken'⟩, hletters, heq⟩ := Option.map_eq_some_iff.mp h
      obtain ⟨rfl, -⟩ := Prod.mk.inj heq
      exact List.forall_mem_cons.mpr ⟨.of_none trivial rfl, ih hcs hletters⟩
    · rw [hshort] at h
      obtain ⟨⟨items', taken'⟩, hletters, heq⟩ := Option.map_eq_some_iff.mp h
      obtain ⟨rfl, -⟩ := Prod.mk.inj heq
      exact List.forall_mem_cons.mpr
        ⟨.of_none ⟨_, hshort, by rintro ⟨⟩⟩ rfl, ih hcs hletters⟩
    · rw [hshort] at h
      dsimp only at h
      split at h
      · obtain ⟨rfl, -⟩ := Prod.mk.inj (Option.some.inj h)
        exact List.forall_mem_singleton.mpr
          (.of_some ⟨_, hshort, fun _ => rfl⟩ rfl hword hcs)
      · rcases following with _ | arg
        · obtain ⟨rfl, -⟩ := Prod.mk.inj (Option.some.inj h)
          exact List.forall_mem_singleton.mpr (.of_none trivial rfl)
        · obtain ⟨rfl, -⟩ := Prod.mk.inj (Option.some.inj h)
          exact List.forall_mem_singleton.mpr
            (.of_some ⟨_, hshort, fun _ => rfl⟩ rfl (hfollowing arg rfl) (List.suffix_refl arg))
    · rw [hshort] at h
      obtain ⟨rfl, -⟩ := Prod.mk.inj (Option.some.inj h)
      refine List.forall_mem_singleton.mpr ⟨⟨_, hshort, by rintro ⟨⟩⟩, fun text htext => ?_⟩
      by_cases hnil : cs = []
      · rw [Item.value, if_pos hnil] at htext
        cases htext
      · rw [Item.value, if_neg hnil] at htext
        obtain rfl := Option.some.inj htext
        exact ⟨word, hword, hcs⟩

/-- Every option that is read has the value it requires, from a word of the line. -/
theorem readWords_valued {permute : Bool} {words : List (List α)} {r : Reading α}
    (hline : ∀ word ∈ words, word ∈ line) (h : readWords o permute words = some r) :
    ∀ i ∈ r.items, i.Valued o line := by
  induction hn : words.length using Nat.strongRecOn generalizing words r with
  | _ n ih =>
    rcases words with _ | ⟨word, rest⟩
    · obtain rfl := Option.some.inj h
      exact fun i hi => absurd hi List.not_mem_nil
    obtain ⟨hword, hrest⟩ := List.forall_mem_cons.mp hline
    by_cases hop : isOption o word = true
    · by_cases htwo : word = [o.dash, o.dash]
      · rw [readWords, hop, if_neg (by decide), if_pos htwo] at h
        obtain rfl := Option.some.inj h
        exact fun i hi => absurd hi List.not_mem_nil
      · rw [readWords_option hop htwo] at h
        rcases hletters : readLetters o word rest.head? (word.drop 1) with _ | ⟨items, taken⟩
        · rw [hletters] at h
          cases h
        have hitems := readLetters_valued hword (List.drop_suffix 1 word)
          (fun arg harg => hrest arg (List.mem_of_head? harg)) hletters
        rw [hletters] at h
        rcases taken with _ | _
        · obtain ⟨r', hr', rfl⟩ := Option.map_eq_some_iff.mp h
          exact List.forall_mem_append.mpr
            ⟨hitems, ih rest.length (hn ▸ Nat.lt_succ_self _) hrest hr' rfl⟩
        · rcases rest with _ | ⟨arg, more⟩
          · cases h
          · obtain ⟨r', hr', rfl⟩ := Option.map_eq_some_iff.mp h
            have hmore : ∀ word ∈ more, word ∈ line := fun word hmem =>
              hrest word (List.mem_cons_of_mem arg hmem)
            refine List.forall_mem_append.mpr ⟨hitems, ih more.length ?_ hmore hr' rfl⟩
            rw [← hn]
            simp only [List.length_cons]
            omega
    · have hfalse : isOption o word = false := Bool.eq_false_iff.mpr hop
      cases permute with
      | false =>
        rw [readWords, hfalse] at h
        obtain rfl := Option.some.inj h
        exact fun i hi => absurd hi List.not_mem_nil
      | true =>
        rw [readWords_operand hfalse] at h
        obtain ⟨r', hr', rfl⟩ := Option.map_eq_some_iff.mp h
        have hrec := ih rest.length (hn ▸ Nat.lt_succ_self _) hrest hr' rfl
        exact hrec

end Values

/-! ## Options with a word of their own -/

section Single

variable {o : Options α} {permute : Bool}

/-- A letter that takes the next word. -/
theorem readWords_short {c : α} (value : List α) (rest : List (List α)) (hc : c ≠ o.dash)
    (hshort : o.short c = some .required) :
    readWords o permute ([o.dash, c] :: value :: rest) =
      (readWords o permute rest).map fun r =>
        r.after [.short c (some value)] [[o.dash, c], value] [] := by
  have hne : [o.dash, c] ≠ [o.dash, o.dash] := fun h => hc (by simpa using h)
  have hletters : readLetters o [o.dash, c] (some value) [c] =
      some ([.short c (some value)], true) := by
    unfold readLetters
    rw [if_neg hc, hshort]
    rfl
  rw [readWords_option (by simp [isOption]) hne]
  simp only [List.head?_cons, List.drop_succ_cons, List.drop_zero, hletters]
  rfl

theorem readLetters_long {name : List α} {word : List α} {following : Option (List α)}
    (hne : name ≠ []) : readLetters o word following (o.dash :: name) =
      some ([(longItem o word name following).1], (longItem o word name following).2) := by
  unfold readLetters
  rw [if_pos rfl, if_neg hne]

theorem takeWhile_name {name : List α} (h : o.equals ∉ name) :
    name.takeWhile (· ≠ o.equals) = name :=
  List.takeWhile_eq_self_iff.mpr fun _ hc => decide_eq_true fun heq => h (heq ▸ hc)

/-- A name that takes the next word. -/
theorem readWords_long {name : List α} {val : Nat} (value : List α) (rest : List (List α))
    (hne : name ≠ []) (hequals : o.equals ∉ name) (hlong : o.long name = some (val, .required)) :
    readWords o permute ((o.dash :: o.dash :: name) :: value :: rest) =
      (readWords o permute rest).map fun r =>
        r.after [.long val (some value) value] [o.dash :: o.dash :: name, value] [] := by
  have hword : o.dash :: o.dash :: name ≠ [o.dash, o.dash] := fun h => hne (by simpa using h)
  have hitem : longItem o (o.dash :: o.dash :: name) name (some value) =
      (.long val (some value) value, true) := by
    unfold longItem
    simp only [takeWhile_name hequals, hlong, if_neg hequals]
  rw [readWords_option (by simp [isOption]) hword]
  simp only [List.head?_cons, List.drop_succ_cons, List.drop_zero, readLetters_long hne, hitem]
  rfl

/-- A name that takes no value. -/
theorem readWords_flag {name : List α} {val : Nat} (rest : List (List α))
    (hne : name ≠ []) (hequals : o.equals ∉ name) (hlong : o.long name = some (val, .nothing)) :
    readWords o permute ((o.dash :: o.dash :: name) :: rest) =
      (readWords o permute rest).map fun r =>
        r.after [.long val none (o.dash :: o.dash :: name)] [o.dash :: o.dash :: name] [] := by
  have hword : o.dash :: o.dash :: name ≠ [o.dash, o.dash] := fun h => hne (by simpa using h)
  have hitem : longItem o (o.dash :: o.dash :: name) name rest.head? =
      (.long val none (o.dash :: o.dash :: name), false) := by
    unfold longItem
    simp only [takeWhile_name hequals, hlong, if_neg hequals]
  rw [readWords_option (by simp [isOption]) hword]
  simp only [List.drop_succ_cons, List.drop_zero, readLetters_long hne, hitem]
  rfl

end Single

/-! ## Letters -/

section Letters

variable {o : Options α} {permute : Bool} {cfg : Config α} {word : List α}
  {rest : List (List α)} {P : α → Prop}

/-- Every letter that is left satisfies `P`. -/
def Config.All (P : α → Prop) (cfg : Config α) : Prop :=
  (∀ c ∈ cfg.left, P c) ∧ ∀ word ∈ cfg.rest, ∀ c ∈ word, P c

/-- A step finds no unknown letter but such, and leaves such. -/
def Next.All (P : α → Prop) : Next α → Prop
  | .stop _ _ => True
  | .item i cfg => (∀ c, i = .unknownShort c → P c) ∧ cfg.All P
  | .stuck cfg => cfg.All P

theorem longItem_ne_unknownShort (following : Option (List α)) (text : List α) (c : α) :
    (longItem o word text following).1 ≠ .unknownShort c := by
  unfold longItem
  dsimp only
  generalize o.long (text.takeWhile (· ≠ o.equals)) = found
  rcases found with _ | ⟨val, _ | _ | _⟩ <;> dsimp only <;> repeat' split
  all_goals rintro ⟨⟩

omit [DecidableEq α] in
theorem Config.done_all (hrest : ∀ word ∈ rest, ∀ c ∈ word, P c) (taken : Bool) :
    (cfg.done word rest taken).All P := by
  refine ⟨fun c hc => absurd hc List.not_mem_nil, ?_⟩
  cases taken with
  | false => exact hrest
  | true => exact fun w hw => hrest w (List.mem_of_mem_drop hw)

omit [DecidableEq α] in
theorem Config.letter_all (hword : ∀ c ∈ word, P c) (hrest : ∀ word ∈ rest, ∀ c ∈ word, P c)
    {cs : List α} (hcs : ∀ c ∈ cs, P c) : (cfg.letter word cs rest).All P := by
  unfold Config.letter
  split
  · exact Config.done_all hrest false
  · exact ⟨hcs, List.forall_mem_cons.mpr ⟨hword, hrest⟩⟩

theorem nextLetter_all (hword : ∀ c ∈ word, P c) (hrest : ∀ word ∈ rest, ∀ c ∈ word, P c)
    {letters : List α} (hletters : ∀ c ∈ letters, P c) :
    (nextLetter o cfg word rest letters).All P := by
  have hstuck : Config.All P { cfg with left := [], rest := word :: rest } :=
    ⟨fun c hc => absurd hc List.not_mem_nil, List.forall_mem_cons.mpr ⟨hword, hrest⟩⟩
  cases letters with
  | nil => exact hstuck
  | cons c cs =>
    obtain ⟨hc, hcs⟩ := List.forall_mem_cons.mp hletters
    unfold nextLetter
    dsimp only
    split
    · split
      · exact hstuck
      · exact ⟨fun d hd => absurd hd (longItem_ne_unknownShort _ _ d), Config.done_all hrest _⟩
    · split
      · refine ⟨fun d hd => ?_, Config.letter_all hword hrest hcs⟩
        obtain rfl := Item.unknownShort.inj hd
        exact hc
      · exact ⟨by rintro d ⟨⟩, Config.letter_all hword hrest hcs⟩
      · exact ⟨by rintro d ⟨⟩, Config.done_all hrest _⟩
      · split
        · exact ⟨by rintro d ⟨⟩, Config.done_all hrest _⟩
        · split
          · exact ⟨by rintro d ⟨⟩, Config.done_all hrest _⟩
          · exact ⟨by rintro d ⟨⟩, Config.done_all hrest _⟩

theorem nextWord_all (read operands : List (List α)) (hrest : ∀ word ∈ rest, ∀ c ∈ word, P c) :
    (nextWord o permute read operands rest).All P := by
  induction rest generalizing operands with
  | nil => trivial
  | cons word rest ih =>
    obtain ⟨hword, hrest'⟩ := List.forall_mem_cons.mp hrest
    unfold nextWord
    split
    · split
      · exact ih _ hrest'
      · trivial
    · split
      · trivial
      · exact nextLetter_all hword hrest' fun c hc => hword c (List.mem_of_mem_drop hc)

/-- A step over letters that satisfy `P`. -/
theorem next_all (o : Options α) (permute : Bool) (h : cfg.All P) :
    (next o permute cfg).All P := by
  unfold next
  split
  · exact nextWord_all _ _ h.2
  · split
    · trivial
    · next hrest =>
      have hwords := h.2
      rw [hrest] at hwords
      obtain ⟨hword, hrest'⟩ := List.forall_mem_cons.mp hwords
      exact nextLetter_all hword hrest' h.1

end Letters

end OptionWords
