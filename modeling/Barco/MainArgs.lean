import Barco.Abbreviations
import Barco.Accepted
import Barco.Main

/-!
# What `main` takes from the table

`main` takes the first value of `uid`, `mnt` and `cmd` without a look at their
counts, and that of the other entries when they have one. After a line without
errors every value that it takes has been given by the line.

1. `value_needed`: an option that needs a value has one, from the line.
2. `sval_given`: the string of an entry, when it has one.
3. `Accepted.svalOrNull_ne_nil`: it is not empty where the option has no letter.
4. `main_takes_line`: all that `main` takes.
-/

namespace Barco

open OptionWords

def ArgTable.values (table : ArgTable) (tabindex : Nat) : Option ArgValues :=
  (table.entries[tabindex]?).map ArgEntry.values

/-- Whether `count` is not 0. -/
def ArgTable.counted (table : ArgTable) (tabindex : Nat) : Bool :=
  match table.values tabindex with
  | some values => 0 < values.count
  | none => false

/-- `ival[0]`, if the line has given it. -/
def ArgTable.ival (table : ArgTable) (tabindex : Nat) : Option Int32 :=
  match table.values tabindex with
  | some (.int (some val :: _)) => some val
  | _ => none

/-- `sval[0]`, if the line has given it. -/
def ArgTable.sval (table : ArgTable) (tabindex : Nat) : Option CStr :=
  match table.values tabindex with
  | some (.str (text :: _)) => if h : 0 ∉ text then some ⟨text, h⟩ else none
  | _ => none

/-- `sval[0]` when the count is not 0, and NULL when it is. -/
def ArgTable.svalOrNull (table : ArgTable) (tabindex : Nat) : Option (Option CStr) :=
  if table.counted tabindex then (table.sval tabindex).map some else some none

/-- All that `main` takes from the table, at the indices of `argtable`. Nothing, where a
value that it takes has not been given. -/
def argsOf (table : ArgTable) : Option Args := do
  let uid ← table.ival 2
  let mnt ← table.sval 3
  let cmd ← table.sval 4
  let arg ← table.svalOrNull 5
  let vethName ← table.svalOrNull 7
  let vethPeer ← table.svalOrNull 8
  let containerIp ← table.svalOrNull 9
  let hostIp ← table.svalOrNull 10
  let dns ← table.svalOrNull 12
  return {
    errors := !table.endtable.errors.isEmpty
    help := table.counted 0
    uid := uid
    mnt := mnt
    cmd := cmd
    arg := arg
    vethName := vethName
    vethPeer := vethPeer
    containerIp := containerIp
    hostIp := hostIp
    nat := table.counted 11
    dns := dns }

/-- The strings among them. -/
def Args.strings (args : Args) : List CStr :=
  [args.mnt, args.cmd] ++ args.arg.toList ++ args.vethName.toList ++ args.vethPeer.toList ++
    args.containerIp.toList ++ args.hostIp.toList ++ args.dns.toList

/-- `text` is the end of a word. -/
def EndOf (words : List CStr) (text : List UInt8) : Prop := ∃ word ∈ words, text <:+ word.1

/-! ## Options that need a value -/

def needsValue (tabindex : Nat) : Prop :=
  (barcoTable.entries[tabindex]?).map (fun entry => entry.hdr.hasValue) = some true

instance (tabindex : Nat) : Decidable (needsValue tabindex) :=
  inferInstanceAs (Decidable (_ = _))

theorem findShortoption_letter {c : UInt8} {tabindex : Nat}
    (h : findShortoption barcoTable c = some tabindex) : c ∈ ascii "umcav" := by
  obtain ⟨hlt, hletter, -⟩ := List.findIdx?_eq_some_iff_getElem.mp h
  have hletters : ∀ entry ∈ barcoTable.entries, ∀ d ∈ entry.hdr.shortopts.getD [],
      d ∈ ascii "umcav" := by decide +kernel
  exact hletters _ (List.getElem_mem hlt) c (List.contains_iff_mem.mp hletter)

theorem long_required {opt : LongOption} (h : opt ∈ allocLongoptions barcoTable)
    (hneeds : needsValue opt.val) : opt.hasArg = .required := by
  obtain ⟨entry, hget, -, hhasArg⟩ := mem_allocLongoptions.mp h
  obtain ⟨entry', hget', hvalue⟩ := Option.map_eq_some_iff.mp hneeds
  obtain rfl := Option.some.inj (hget.symm.trans hget')
  have hall : ∀ entry ∈ barcoTable.entries, entry.hdr.hasOptValue = false := by decide
  rw [hhasArg, entryHasArg, hall entry (List.mem_of_getElem? hget), hvalue]
  rfl

theorem short_required {c : UInt8} {tabindex : Nat}
    (h : findShortoption barcoTable c = some tabindex) (hneeds : needsValue tabindex) :
    (tableOptions barcoTable).short c = some .required := by
  have hall : ∀ c ∈ ascii "umcav",
      (findShortoption barcoTable c).all (fun tabindex => ¬ needsValue tabindex) = true ∨
        (tableOptions barcoTable).short c = some .required := by decide +kernel
  refine (hall c (findShortoption_letter h)).resolve_left fun hno => ?_
  rw [h] at hno
  exact of_decide_eq_true hno hneeds

/-- An option that needs a value has one, from the line. -/
theorem value_needed {item : Item UInt8} {line : List (List UInt8)} {tabindex : Nat}
    (hv : item.Valued (tableOptions barcoTable) line)
    (hindex : itemIndex barcoTable item = some tabindex) (hneeds : needsValue tabindex) :
    ∃ text, item.value = some text ∧ ∃ word ∈ line, text <:+ word := by
  have hsome : item.value.isSome = true := by
    have hcomplete := hv.complete
    cases item with
    | long val value word =>
      obtain rfl := Option.some.inj hindex
      obtain ⟨name, takes, hlong, hsome⟩ := hcomplete
      refine hsome ?_
      unfold tableOptions optionsOf at hlong
      dsimp only at hlong
      rcases hmatch : matchLong name (allocLongoptions barcoTable) none false with opt | _ | _
      · rw [hmatch] at hlong
        obtain ⟨rfl, rfl⟩ := Prod.mk.inj (Option.some.inj hlong)
        have hopt := (matchLong_mem hmatch).resolve_right (by simp)
        rw [long_required hopt hneeds]
        rfl
      · rw [hmatch] at hlong
        cases hlong
      · rw [hmatch] at hlong
        cases hlong
    | short c value =>
      obtain ⟨takes, hshort, hsome⟩ := hcomplete
      refine hsome ?_
      exact Option.some.inj (hshort.symm.trans (short_required hindex hneeds))
    | unknownLong word => cases hindex
    | unknownShort c => cases hindex
    | missing word => cases hindex
  obtain ⟨text, htext⟩ := Option.isSome_iff_exists.mp hsome
  exact ⟨text, htext, hv.tail text htext⟩

/-! ## What the line has given -/

theorem foldl_extend_int (binaryPrefix : Bool) (more : List (Option (List UInt8)))
    (ival : List (Option Int32)) :
    more.foldl (ArgValues.extend binaryPrefix) (.int ival) =
      .int (ival ++ more.map fun argval =>
        argval.bind fun text => (argIntText binaryPrefix text).toOption) := by
  induction more generalizing ival with
  | nil => simp
  | cons value more ih =>
    rw [List.foldl_cons, ArgValues.extend, ih]
    simp

theorem foldl_extend_str (binaryPrefix : Bool) (more : List (Option (List UInt8)))
    (sval : List (List UInt8)) :
    more.foldl (ArgValues.extend binaryPrefix) (.str sval) =
      .str (sval ++ more.map fun argval => argval.getD []) := by
  induction more generalizing sval with
  | nil => simp
  | cons value more ih =>
    rw [List.foldl_cons, ArgValues.extend, ih]
    simp

section Given

variable {posixlyCorrect binaryPrefix : Bool} {words : List CStr} {r : Reading UInt8}
  {table : ArgTable} {tabindex : Nat}

theorem mem_given {value : Option (List UInt8)} (h : value ∈ given barcoTable tabindex r.items) :
    ∃ item ∈ r.items, itemIndex barcoTable item = some tabindex ∧ item.value = value := by
  obtain ⟨item, hitem, hvalue⟩ := List.mem_map.mp h
  obtain ⟨hmem, hindex⟩ := List.mem_filter.mp hitem
  exact ⟨item, hmem, of_decide_eq_true hindex, hvalue⟩

theorem given_ends
    (hr : readWords (tableOptions barcoTable) (!posixlyCorrect) (plainWords words) = some r)
    (hneeds : needsValue tabindex) {value : Option (List UInt8)}
    (h : value ∈ given barcoTable tabindex r.items) :
    ∃ text, value = some text ∧ EndOf words text := by
  obtain ⟨item, hitem, hindex, rfl⟩ := mem_given h
  have hvalued := readWords_valued (fun _ hword => hword) hr item hitem
  obtain ⟨text, htext, word, hword, htail⟩ := value_needed hvalued hindex hneeds
  obtain ⟨s, hs, rfl⟩ := List.mem_map.mp hword
  exact ⟨text, htext, s, hs, htail⟩

theorem sval_cons {text : List UInt8} {more : List (List UInt8)}
    (hvalues : table.values tabindex = some (.str (text :: more))) (hclean : 0 ∉ text) :
    table.counted tabindex = true ∧ table.sval tabindex = some ⟨text, hclean⟩ := by
  rw [ArgTable.counted, ArgTable.sval, hvalues]
  exact ⟨by simp [ArgValues.count], dif_pos hclean⟩

/-- The string of an entry is not there, or the line has given it. -/
theorem sval_given {more : List (Option (List UInt8))}
    (hvalues : table.values tabindex = some (.str (more.map fun argval => argval.getD [])))
    (hends : ∀ value ∈ more, ∃ text, value = some text ∧ EndOf words text) :
    more = [] ∧ table.counted tabindex = false ∨
      table.counted tabindex = true ∧ ∃ s, table.sval tabindex = some s ∧ EndOf words s.1 := by
  rcases more with _ | ⟨value, more⟩
  · refine .inl ⟨rfl, ?_⟩
    rw [ArgTable.counted, hvalues]
    rfl
  · obtain ⟨text, rfl, word, hword, htail⟩ := hends value List.mem_cons_self
    have hclean : 0 ∉ text := fun h => word.2 (htail.subset h)
    obtain ⟨hcounted, hsval⟩ := sval_cons hvalues hclean
    exact .inr ⟨hcounted, ⟨text, hclean⟩, hsval, word, hword, htail⟩

theorem svalOrNull_given {more : List (Option (List UInt8))}
    (hvalues : table.values tabindex = some (.str (more.map fun argval => argval.getD [])))
    (hends : ∀ value ∈ more, ∃ text, value = some text ∧ EndOf words text) :
    ∃ s, table.svalOrNull tabindex = some s ∧ ∀ text ∈ s.toList, EndOf words text.1 := by
  rcases sval_given hvalues hends with ⟨-, hcounted⟩ | ⟨hcounted, s, hs, hend⟩
  · refine ⟨none, ?_, fun text htext => absurd htext List.not_mem_nil⟩
    rw [ArgTable.svalOrNull, hcounted]
    rfl
  · refine ⟨some s, ?_, List.forall_mem_singleton.mpr hend⟩
    rw [ArgTable.svalOrNull, if_pos hcounted, hs]
    rfl

end Given

/-! ## After a line without errors -/

/-- A table that `arg_parse` has left without an error. -/
structure Accepted (posixlyCorrect binaryPrefix : Bool) (words : List CStr) (r : Reading UInt8)
    (table : ArgTable) : Prop where
  reading : readWords (tableOptions barcoTable) (!posixlyCorrect) (plainWords words) = some r
  complete : Complete binaryPrefix barcoTable r
  noErrors : table.endtable.errors = []
  values : ∀ tabindex, table.values tabindex = (barcoTable.values tabindex).map fun values =>
    (given barcoTable tabindex r.items).foldl (ArgValues.extend binaryPrefix) values

theorem accepted_of_done {posixlyCorrect binaryPrefix : Bool} {argv0 : CStr} {words : List CStr}
    {n : Nat} {table : ArgTable}
    (hdone : argParse posixlyCorrect binaryPrefix n (argv0.1 :: plainWords words) barcoTable =
      .done table) (hnone : table.endtable.errors = []) :
    ∃ r, Accepted posixlyCorrect binaryPrefix words r table := by
  rcases hr : readWords (tableOptions barcoTable) (!posixlyCorrect) (plainWords words) with _ | r
  · cases (argParse_of_none barcoTable_scannable argv0.1 (plainWords_clean words) hr n).symm.trans
      hdone
  have hresult := argParse_result barcoTable_scannable argv0.1 (plainWords_clean words) hr hdone
  rw [argReset_barcoTable] at hresult
  subst hresult
  obtain ⟨hentries, herrors⟩ := finish_reading binaryPrefix barcoTable_fresh r
  have hcomplete := herrors.mp hnone
  refine ⟨r, hr, hcomplete, hnone, fun tabindex => ?_⟩
  have hget := foldl_values r.items barcoTable_fresh.toRoomy rfl hcomplete.acceptable tabindex
  rw [ArgTable.values, hentries, hget, ArgTable.values, Option.map_map, Option.map_map]
  rfl

/-- The entries that have to be given. -/
def mandatory (tabindex : Nat) : Prop :=
  (barcoTable.entries[tabindex]?).map (fun entry => entry.hdr.mincount) = some 1

instance (tabindex : Nat) : Decidable (mandatory tabindex) :=
  inferInstanceAs (Decidable (_ = _))

section Takes

variable {posixlyCorrect binaryPrefix : Bool} {words : List CStr} {r : Reading UInt8}
  {table : ArgTable} {tabindex : Nat}

theorem Accepted.given_ne_nil (h : Accepted posixlyCorrect binaryPrefix words r table)
    (hmandatory : mandatory tabindex) : given barcoTable tabindex r.items ≠ [] := by
  intro hnil
  obtain ⟨entry, hget, hmin⟩ := Option.map_eq_some_iff.mp hmandatory
  have hcount : ∀ entry ∈ barcoTable.entries, entry.values.count = 0 := by decide
  have hle := h.complete.mandatory tabindex entry hget
  rw [hmin, hcount entry (List.mem_of_getElem? hget), hnil] at hle
  exact absurd hle (by decide)

theorem Accepted.str_values (h : Accepted posixlyCorrect binaryPrefix words r table)
    (hstr : barcoTable.values tabindex = some (.str [])) :
    table.values tabindex = some (.str ((given barcoTable tabindex r.items).map fun argval =>
      argval.getD [])) := by
  rw [h.values, hstr, Option.map_some, foldl_extend_str, List.nil_append]

theorem Accepted.sval (h : Accepted posixlyCorrect binaryPrefix words r table)
    (tabindex : Nat) (hstr : barcoTable.values tabindex = some (.str []))
    (hneeds : needsValue tabindex) (hmandatory : mandatory tabindex) :
    ∃ s, table.sval tabindex = some s ∧ EndOf words s.1 := by
  have hcases := sval_given (h.str_values hstr) fun _ => given_ends h.reading hneeds
  exact (hcases.resolve_left fun hnil => h.given_ne_nil hmandatory hnil.1).2

theorem Accepted.svalOrNull (h : Accepted posixlyCorrect binaryPrefix words r table)
    (tabindex : Nat) (hstr : barcoTable.values tabindex = some (.str []))
    (hneeds : needsValue tabindex) :
    ∃ s, table.svalOrNull tabindex = some s ∧ ∀ text ∈ s.toList, EndOf words text.1 :=
  svalOrNull_given (h.str_values hstr) fun _ => given_ends h.reading hneeds

theorem Accepted.uid (h : Accepted posixlyCorrect binaryPrefix words r table) :
    ∃ uid, table.ival 2 = some uid ∧
      ∃ text, EndOf words text ∧ argIntText binaryPrefix text = .ok uid := by
  obtain ⟨value, more, hmore⟩ := List.exists_cons_of_ne_nil
    (h.given_ne_nil (show mandatory 2 by decide))
  have hmem : value ∈ given barcoTable 2 r.items := by
    rw [hmore]
    exact List.mem_cons_self
  obtain ⟨text, rfl, hend⟩ := given_ends h.reading (by decide) hmem
  obtain ⟨item, hitem, hindex, hvalue⟩ := mem_given hmem
  obtain ⟨tabindex, entry, hindex', hget, htake⟩ := h.complete.acceptable.known item hitem
  obtain rfl := Option.some.inj (hindex.symm.trans hindex')
  have hint : (barcoTable.entries[2]?).map (fun entry => entry.values.isInt) = some true := by
    decide
  rw [hget] at hint
  -- the item was taken, so its text can be read
  obtain ⟨uid, hval⟩ := htake.2 (Option.some.inj hint) text hvalue
  refine ⟨uid, ?_, text, hend, hval⟩
  have hnew : barcoTable.values 2 = some (.int []) := by decide
  rw [ArgTable.ival, h.values, hnew, hmore, Option.map_some, foldl_extend_int]
  simp [hval, Except.toOption]

/-- An option that has a long name only and needs a value. -/
def longOnly (tabindex : Nat) : Prop :=
  (barcoTable.entries[tabindex]?).map (fun entry => (entry.hdr.hasValue, entry.hdr.shortopts)) =
    some (true, none)

instance (tabindex : Nat) : Decidable (longOnly tabindex) :=
  inferInstanceAs (Decidable (_ = _))

theorem longOnly.needsValue (h : longOnly tabindex) : needsValue tabindex := by
  obtain ⟨entry, hget, hhdr⟩ := Option.map_eq_some_iff.mp h
  rw [Barco.needsValue, hget, Option.map_some, (Prod.mk.inj hhdr).1]

/-- An empty value of such an option is an error. -/
theorem Accepted.given_ne_empty (h : Accepted posixlyCorrect binaryPrefix words r table)
    (hlong : longOnly tabindex) : some [] ∉ given barcoTable tabindex r.items := by
  intro hmem
  obtain ⟨item, hitem, hindex, hvalue⟩ := mem_given hmem
  obtain ⟨index, entry, hindex', hget, htake⟩ := h.complete.acceptable.known item hitem
  obtain rfl := Option.some.inj (hindex.symm.trans hindex')
  obtain ⟨entry', hget', hhdr⟩ := Option.map_eq_some_iff.mp hlong
  obtain rfl := Option.some.inj (hget.symm.trans hget')
  obtain ⟨hhasValue, hshort⟩ := Prod.mk.inj hhdr
  cases item with
  | long val value word =>
    obtain rfl : value = some [] := hvalue
    exact htake.1 ⟨val, word, rfl, hhasValue⟩
  | short c value =>
    obtain ⟨hlt, hletter, -⟩ := List.findIdx?_eq_some_iff_getElem.mp hindex
    obtain rfl := Option.some.inj ((List.getElem?_eq_getElem hlt).symm.trans hget)
    rw [hshort] at hletter
    cases hletter
  | unknownLong word => cases hindex
  | unknownShort c => cases hindex
  | missing word => cases hindex

theorem Accepted.svalOrNull_ne_nil (h : Accepted posixlyCorrect binaryPrefix words r table)
    (hstr : barcoTable.values tabindex = some (.str [])) (hlong : longOnly tabindex) {s : CStr}
    (hs : table.svalOrNull tabindex = some (some s)) : s.1 ≠ [] := by
  have hvalues := h.str_values hstr
  rcases hgiven : given barcoTable tabindex r.items with _ | ⟨value, more⟩
  · rw [hgiven] at hvalues
    rw [ArgTable.svalOrNull, ArgTable.counted, hvalues] at hs
    cases hs
  · have hmem : value ∈ given barcoTable tabindex r.items := by
      rw [hgiven]
      exact List.mem_cons_self
    obtain ⟨text, rfl, word, -, htail⟩ := given_ends h.reading hlong.needsValue hmem
    have hclean : 0 ∉ text := fun hnul => word.2 (htail.subset hnul)
    rw [hgiven] at hvalues
    obtain ⟨hcounted, hsval⟩ := sval_cons hvalues hclean
    rw [ArgTable.svalOrNull, hcounted, hsval] at hs
    obtain rfl := Option.some.inj (Option.some.inj hs)
    rintro rfl
    exact h.given_ne_empty hlong hmem

end Takes

/-- The name `main` takes from a line without errors is not empty. -/
theorem vethName_ne_nil {posixlyCorrect binaryPrefix : Bool} {argv0 : CStr} {words : List CStr}
    {n : Nat} {table : ArgTable} {args : Args} {name : CStr}
    (hdone : argParse posixlyCorrect binaryPrefix n (argv0.1 :: plainWords words) barcoTable =
      .done table) (hnone : table.endtable.errors = []) (hargs : argsOf table = some args)
    (hname : args.vethName = some name) : name.1 ≠ [] := by
  obtain ⟨r, h⟩ := accepted_of_done hdone hnone
  unfold argsOf at hargs
  simp only [Option.bind_eq_bind, Option.bind_eq_some_iff] at hargs
  obtain ⟨uid, -, mnt, -, cmd, -, arg, -, vethName, hveth, vethPeer, -, containerIp, -, hostIp, -,
    dns, -, hargs⟩ := hargs
  obtain rfl := Option.some.inj hargs
  obtain rfl : vethName = some name := hname
  exact h.svalOrNull_ne_nil (by decide) (by decide) hveth

/-- `main` takes no value from the table that the line has not given: when `arg_parse` has
found no error, the integer is what `arg_int` reads of the end of a word, and the strings are
ends of words. -/
theorem main_takes_line (posixlyCorrect binaryPrefix : Bool) (argv0 : CStr) (words : List CStr)
    {n : Nat} {table : ArgTable}
    (hdone : argParse posixlyCorrect binaryPrefix n (argv0.1 :: plainWords words) barcoTable =
      .done table) (hnone : table.endtable.errors = []) :
    ∃ args, argsOf table = some args ∧ args.errors = false ∧
      (∃ text, EndOf words text ∧ argIntText binaryPrefix text = .ok args.uid) ∧
      ∀ s ∈ args.strings, EndOf words s.1 := by
  obtain ⟨r, h⟩ := accepted_of_done hdone hnone
  obtain ⟨uid, huid, hread⟩ := h.uid
  obtain ⟨mnt, hmnt, hmntEnds⟩ := h.sval 3 (by decide) (by decide) (by decide)
  obtain ⟨cmd, hcmd, hcmdEnds⟩ := h.sval 4 (by decide) (by decide) (by decide)
  obtain ⟨arg, harg, hargEnds⟩ := h.svalOrNull 5 (by decide) (by decide)
  obtain ⟨vethName, hvethName, hvethNameEnds⟩ :=
    h.svalOrNull 7 (by decide) (by decide)
  obtain ⟨vethPeer, hvethPeer, hvethPeerEnds⟩ :=
    h.svalOrNull 8 (by decide) (by decide)
  obtain ⟨containerIp, hcontainerIp, hcontainerIpEnds⟩ :=
    h.svalOrNull 9 (by decide) (by decide)
  obtain ⟨hostIp, hhostIp, hhostIpEnds⟩ :=
    h.svalOrNull 10 (by decide) (by decide)
  obtain ⟨dns, hdns, hdnsEnds⟩ := h.svalOrNull 12 (by decide) (by decide)
  refine ⟨⟨!table.endtable.errors.isEmpty, table.counted 0, uid, mnt, cmd, arg, vethName,
    vethPeer, containerIp, hostIp, table.counted 11, dns⟩, ?_, ?_, hread, ?_⟩
  · rw [argsOf, huid, hmnt, hcmd, harg, hvethName, hvethPeer, hcontainerIp, hhostIp, hdns]
    rfl
  · rw [hnone]
    rfl
  · unfold Args.strings
    simp only [List.forall_mem_append, List.forall_mem_cons]
    exact ⟨⟨⟨⟨⟨⟨⟨hmntEnds, hcmdEnds, fun s hs => absurd hs List.not_mem_nil⟩, hargEnds⟩,
      hvethNameEnds⟩, hvethPeerEnds⟩, hcontainerIpEnds⟩, hhostIpEnds⟩, hdnsEnds⟩

theorem main_takes_line_sh : ∃ table, argParse false true 5 (ascii "barco" :: plainWords shLine)
      barcoTable = .done table ∧ table.endtable.errors = [] ∧
    ∃ args, argsOf table = some args ∧ args.errors = false ∧
      (∃ text, EndOf shLine text ∧ argIntText true text = .ok args.uid) ∧
      ∀ s ∈ args.strings, EndOf shLine s.1 := by
  have hends : (argParse false true 5 (ascii "barco" :: plainWords shLine) barcoTable).result.map
      (fun table => table.endtable.errors) = some [] := by decide +kernel
  obtain ⟨table, hdone, hnone⟩ := Option.map_eq_some_iff.mp hends
  have hdone := Parsed.result_eq_some.mp hdone
  exact ⟨table, hdone, hnone,
    main_takes_line false true ⟨ascii "barco", by decide⟩ shLine hdone hnone⟩

end Barco
