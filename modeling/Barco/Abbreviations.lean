import Barco.CommandLine

/-!
# Abbreviated names

`parse_long_options` takes the beginning of a name for the name. `matchLong` goes over
the names once, with the first one that the text begins and a mark that a later one
asks for something else.

1. `matchLong_exact`, `matchLong_begun`: what the loop finds.
2. `long_name_resolves_iff`: which entry of a table a text is for.
-/

namespace Barco

/-- The entry has this name. -/
def HasName (table : ArgTable) (tabindex : Nat) (name : List UInt8) : Prop :=
  ∃ entry, table.entries[tabindex]? = some entry ∧ name ∈ longNames (entry.hdr.longopts.getD [])

/-- The entry has a name that begins so. -/
def Abbreviates (table : ArgTable) (tabindex : Nat) (name : List UInt8) : Prop :=
  ∃ full, HasName table tabindex full ∧ name <+: full

/-! ## The loop over the names -/

section Loop

variable {name : List UInt8} {opts : List LongOption}

/-- Two options that are not the same to the loop. -/
def LongOption.differs (opt opt' : LongOption) : Bool :=
  !decide (opt.hasArg = opt'.hasArg ∧ opt.val = opt'.val)

theorem name_eq_of_begins {opt : LongOption} (h : name.isPrefixOf opt.name = true) :
    opt.name.length = name.length ↔ opt.name = name := by
  have hbegins : name <+: opt.name := List.isPrefixOf_iff_prefix.mp h
  constructor
  · intro hlength
    exact (hbegins.eq_of_length hlength.symm).symm
  · intro heq
    rw [heq]

/-- A whole name is found, whatever it also begins. -/
theorem matchLong_exact {opt : LongOption} (first : Option LongOption) (second : Bool)
    (h : opts.find? (fun opt => opt.name = name) = some opt) :
    matchLong name opts first second = .found opt := by
  induction opts generalizing first second with
  | nil => cases h
  | cons opt' rest ih =>
    unfold matchLong
    by_cases heq : opt'.name = name
    · rw [List.find?_cons_of_pos (by simpa using heq)] at h
      obtain rfl := Option.some.inj h
      have hbegins : name.isPrefixOf opt'.name = true := by
        rw [heq]
        exact List.isPrefixOf_iff_prefix.mpr (List.prefix_refl name)
      rw [if_neg (by simp [hbegins]), if_pos ((name_eq_of_begins hbegins).mpr heq)]
    · rw [List.find?_cons_of_neg (by simpa using heq)] at h
      cases hbegins : name.isPrefixOf opt'.name with
      | false => exact ih _ _ h
      | true =>
        rw [if_neg (by decide), if_neg fun hlen => heq ((name_eq_of_begins hbegins).mp hlen)]
        rcases first with _ | opt''
        · exact ih _ _ h
        · exact ih _ _ h

/-- Behind a first name that begins so, only what differs from it matters. -/
theorem matchLong_first {opt : LongOption} (second : Bool) (h : ∀ opt ∈ opts, opt.name ≠ name) :
    matchLong name opts (some opt) second =
      if second || opts.any (fun opt' => name.isPrefixOf opt'.name && opt'.differs opt) then
        .ambiguous
      else .found opt := by
  induction opts generalizing second with
  | nil =>
    unfold matchLong
    simp
  | cons opt' rest ih =>
    obtain ⟨hne, hrest⟩ := List.forall_mem_cons.mp h
    unfold matchLong
    cases hbegins : name.isPrefixOf opt'.name with
    | false =>
      rw [List.any_cons, hbegins, Bool.false_and, Bool.false_or]
      exact ih _ hrest
    | true =>
      rw [if_neg (by decide), if_neg fun hlen => hne ((name_eq_of_begins hbegins).mp hlen)]
      dsimp only
      rw [ih _ hrest, List.any_cons, hbegins, Bool.true_and, ← Bool.or_assoc]
      rfl

/-- Without a whole name, the first that begins so is found, unless another one differs. -/
theorem matchLong_begun (h : ∀ opt ∈ opts, opt.name ≠ name) :
    matchLong name opts none false =
      match opts.find? (fun opt => name.isPrefixOf opt.name) with
      | none => .unknown
      | some opt =>
        if opts.any (fun opt' => name.isPrefixOf opt'.name && opt'.differs opt) then .ambiguous
        else .found opt := by
  induction opts with
  | nil => rfl
  | cons opt rest ih =>
    obtain ⟨hne, hrest⟩ := List.forall_mem_cons.mp h
    unfold matchLong
    cases hbegins : name.isPrefixOf opt.name with
    | false =>
      simp only [List.find?_cons, List.any_cons, hbegins, Bool.false_and, Bool.false_or]
      exact ih hrest
    | true =>
      rw [if_neg (by decide), if_neg fun hlen => hne ((name_eq_of_begins hbegins).mp hlen)]
      simp only [List.find?_cons, List.any_cons, hbegins, matchLong_first false hrest]
      simp [LongOption.differs]

end Loop

/-! ## The names of a table -/

section Table

variable {table : ArgTable} {name : List UInt8} {opt : LongOption}

theorem mem_allocLongoptions :
    opt ∈ allocLongoptions table ↔ ∃ entry, table.entries[opt.val]? = some entry ∧
      opt.name ∈ longNames (entry.hdr.longopts.getD []) ∧ opt.hasArg = entryHasArg entry.hdr := by
  unfold allocLongoptions
  constructor
  · intro h
    obtain ⟨⟨entry, tabindex⟩, hentry, hname⟩ := List.mem_flatMap.mp h
    obtain ⟨name, hmem, rfl⟩ := List.mem_map.mp hname
    exact ⟨entry, List.mem_zipIdx_iff_getElem?.mp hentry, hmem, rfl⟩
  · rintro ⟨entry, hget, hmem, hhasArg⟩
    refine List.mem_flatMap.mpr ⟨(entry, opt.val), List.mem_zipIdx_iff_getElem?.mpr hget, ?_⟩
    refine List.mem_map.mpr ⟨opt.name, hmem, ?_⟩
    rw [← hhasArg]

theorem named_iff {tabindex : Nat} : HasName table tabindex name ↔
    ∃ opt ∈ allocLongoptions table, opt.val = tabindex ∧ opt.name = name := by
  constructor
  · rintro ⟨entry, hget, hmem⟩
    exact ⟨⟨name, entryHasArg entry.hdr, tabindex⟩,
      mem_allocLongoptions.mpr ⟨entry, hget, hmem, rfl⟩, rfl, rfl⟩
  · rintro ⟨opt, hopt, rfl, rfl⟩
    obtain ⟨entry, hget, hmem, -⟩ := mem_allocLongoptions.mp hopt
    exact ⟨entry, hget, hmem⟩

theorem abbreviates_iff {tabindex : Nat} : Abbreviates table tabindex name ↔
    ∃ opt ∈ allocLongoptions table, opt.val = tabindex ∧ name.isPrefixOf opt.name = true := by
  constructor
  · rintro ⟨full, hnamed, hbegins⟩
    obtain ⟨opt, hopt, hval, rfl⟩ := named_iff.mp hnamed
    exact ⟨opt, hopt, hval, List.isPrefixOf_iff_prefix.mpr hbegins⟩
  · rintro ⟨opt, hopt, hval, hbegins⟩
    exact ⟨opt.name, named_iff.mpr ⟨opt, hopt, hval, rfl⟩, List.isPrefixOf_iff_prefix.mp hbegins⟩

/-- The options of a table differ when they are of different entries. -/
theorem differs_iff {opt' : LongOption} (h : opt ∈ allocLongoptions table)
    (h' : opt' ∈ allocLongoptions table) : opt.differs opt' = true ↔ opt.val ≠ opt'.val := by
  obtain ⟨entry, hget, -, hhasArg⟩ := mem_allocLongoptions.mp h
  obtain ⟨entry', hget', -, hhasArg'⟩ := mem_allocLongoptions.mp h'
  unfold LongOption.differs
  constructor
  · intro hdiffers hval
    rw [hval] at hget
    obtain rfl := Option.some.inj (hget.symm.trans hget')
    simp [hval, hhasArg, hhasArg'] at hdiffers
  · intro hval
    simp [hval]

/-- The names stand in the order of the entries. -/
theorem allocLongoptions_sorted (table : ArgTable) :
    (allocLongoptions table).Pairwise fun opt opt' => opt.val ≤ opt'.val := by
  unfold allocLongoptions
  refine List.pairwise_flatMap.mpr ⟨fun a _ => ?_, ?_⟩
  · refine List.pairwise_map.mpr (List.pairwise_of_forall fun _ _ => ?_)
    exact Nat.le_refl a.2
  · refine List.pairwise_iff_getElem.mpr fun i j hi hj hlt opt hopt opt' hopt' => ?_
    rw [List.getElem_zipIdx] at hopt hopt'
    obtain ⟨name, -, rfl⟩ := List.mem_map.mp hopt
    obtain ⟨name', -, rfl⟩ := List.mem_map.mp hopt'
    exact Nat.add_le_add_left (Nat.le_of_lt hlt) 0

/-- The first of the options with a whole name is of the first entry that has it. -/
theorem find_first (h : (allocLongoptions table).find? (fun opt => opt.name = name) = some opt) :
    HasName table opt.val name ∧ ∀ j < opt.val, ¬ HasName table j name := by
  obtain ⟨hname, before, behind, hsplit, hbefore⟩ := List.find?_eq_some_iff_append.mp h
  have hmem : opt ∈ allocLongoptions table := by
    rw [hsplit]
    exact List.mem_append_right before List.mem_cons_self
  refine ⟨named_iff.mpr ⟨opt, hmem, rfl, of_decide_eq_true hname⟩, fun j hj hnamed => ?_⟩
  obtain ⟨opt', hopt', rfl, hname'⟩ := named_iff.mp hnamed
  have hsorted := allocLongoptions_sorted table
  rw [hsplit] at hopt' hsorted
  rcases List.mem_append.mp hopt' with hfront | hrest
  · have hno := hbefore opt' hfront
    simp [hname'] at hno
  · rcases List.mem_cons.mp hrest with rfl | hbehind
    · exact Nat.lt_irrefl _ hj
    · have hle := (List.pairwise_cons.mp (List.pairwise_append.mp hsorted).2.1).1 opt' hbehind
      exact absurd hj (Nat.not_lt.mpr hle)

/-- A text that is no name is for the only entry with a name that begins so. -/
theorem abbreviation_resolves (hnamed : ∀ j, ¬ HasName table j name) :
    (∀ i, (∃ opt, matchLong name (allocLongoptions table) none false = .found opt ∧
        opt.val = i) ↔ Abbreviates table i name ∧ ∀ j, Abbreviates table j name → j = i) ∧
    (matchLong name (allocLongoptions table) none false = .unknown ↔
      ∀ j, ¬ Abbreviates table j name) := by
  have hno : ∀ opt ∈ allocLongoptions table, opt.name ≠ name := fun opt hopt hname =>
    hnamed opt.val (named_iff.mpr ⟨opt, hopt, rfl, hname⟩)
  rw [matchLong_begun hno]
  rcases hfind : (allocLongoptions table).find? (fun opt => name.isPrefixOf opt.name) with
    _ | opt
  · have hnone : ∀ j, ¬ Abbreviates table j name := fun j h => by
      obtain ⟨opt, hopt, -, hbegins⟩ := abbreviates_iff.mp h
      exact List.find?_eq_none.mp hfind opt hopt hbegins
    rw [hfind]
    refine ⟨fun i => iff_of_false ?_ fun h => hnone i h.1, iff_of_true rfl hnone⟩
    rintro ⟨opt, hfound, -⟩
    cases hfound
  · have hmem := List.mem_of_find?_eq_some hfind
    have hbegins : name.isPrefixOf opt.name = true :=
      List.find?_some (p := fun opt : LongOption => name.isPrefixOf opt.name) hfind
    have habbreviates := abbreviates_iff.mpr ⟨opt, hmem, rfl, hbegins⟩
    rw [hfind]
    dsimp only
    split
    · next hdiffers =>
      obtain ⟨opt', hmem', hboth⟩ := List.any_eq_true.mp hdiffers
      obtain ⟨hbegins', hdiffer⟩ := (Bool.and_eq_true _ _).mp hboth
      have hother := abbreviates_iff.mpr ⟨opt', hmem', rfl, hbegins'⟩
      refine ⟨fun i => iff_of_false ?_ fun h => ?_, iff_of_false nofun fun h => h _ habbreviates⟩
      · rintro ⟨opt, hfound, -⟩
        cases hfound
      · exact (differs_iff hmem' hmem).mp hdiffer
          ((h.2 _ hother).trans (h.2 _ habbreviates).symm)
    · next hsame =>
      have honly : ∀ j, Abbreviates table j name → j = opt.val := fun j h => by
        obtain ⟨opt', hmem', rfl, hbegins'⟩ := abbreviates_iff.mp h
        by_contra hne
        refine hsame (List.any_eq_true.mpr ⟨opt', hmem', ?_⟩)
        rw [hbegins', (differs_iff hmem' hmem).mpr hne]
        rfl
      refine ⟨fun i => ⟨?_, fun h => ⟨opt, rfl, (honly i h.1).symm⟩⟩,
        iff_of_false nofun fun h => h _ habbreviates⟩
      rintro ⟨opt', hfound, rfl⟩
      obtain rfl := LongMatch.found.inj hfound
      exact ⟨habbreviates, honly⟩

/-- A text is for the first entry with this name or, when there is none, for the only entry
with a name that begins so. It is unknown when no name begins so. -/
theorem long_name_resolves_iff (table : ArgTable) (name : List UInt8) :
    (∀ i, (∃ opt, matchLong name (allocLongoptions table) none false = .found opt ∧
        opt.val = i) ↔
      (HasName table i name ∧ ∀ j < i, ¬ HasName table j name) ∨
        ((∀ j, ¬ HasName table j name) ∧ Abbreviates table i name ∧
          ∀ j, Abbreviates table j name → j = i)) ∧
    (matchLong name (allocLongoptions table) none false = .unknown ↔
      ∀ j, ¬ Abbreviates table j name) := by
  rcases hexact : (allocLongoptions table).find? (fun opt => opt.name = name) with _ | opt
  · have hnamed : ∀ j, ¬ HasName table j name := fun j h => by
      obtain ⟨opt, hopt, -, hname⟩ := named_iff.mp h
      exact List.find?_eq_none.mp hexact opt hopt (decide_eq_true hname)
    obtain ⟨hfound, hunknown⟩ := abbreviation_resolves hnamed
    refine ⟨fun i => (hfound i).trans ⟨fun h => .inr ⟨hnamed, h⟩, ?_⟩, hunknown⟩
    rintro (⟨hi, -⟩ | ⟨-, h⟩)
    · exact absurd hi (hnamed i)
    · exact h
  · obtain ⟨hnamed, hfirst⟩ := find_first hexact
    rw [matchLong_exact none false hexact]
    refine ⟨fun i => ⟨?_, ?_⟩, iff_of_false nofun fun h => ?_⟩
    · rintro ⟨opt', hfound, rfl⟩
      obtain rfl := LongMatch.found.inj hfound
      exact .inl ⟨hnamed, hfirst⟩
    · rintro (⟨hi, hmin⟩ | ⟨hnone, -⟩)
      · refine ⟨opt, rfl, ?_⟩
        rcases Nat.lt_trichotomy opt.val i with hlt | heq | hgt
        · exact absurd hnamed (hmin opt.val hlt)
        · exact heq
        · exact absurd hi (hfirst i hgt)
      · exact absurd hnamed (hnone opt.val)
    · exact h opt.val ⟨name, hnamed, List.prefix_refl name⟩

/-- `--veth` is no abbreviation of `--veth-peer`, and `--ve` is one of four names. -/
example :
    (matchLong (ascii "veth") (allocLongoptions barcoTable) none false =
      .found ⟨ascii "veth", .required, 7⟩) ∧
    matchLong (ascii "ve") (allocLongoptions barcoTable) none false = .ambiguous := by
  decide +kernel

end Table

end Barco
