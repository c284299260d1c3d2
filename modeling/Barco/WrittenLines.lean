import Barco.IntegerTexts
import Barco.MainArgs
import Mathlib.Tactic.IntervalCases

/-!
# Lines that say what `main` is to take

`lineOf` writes a command line for what `main` takes from the table: an option for
each value, and the value as the next word. `arg_parse` reads it back.

1. `ReadsAs`: what the words of an option are read as.
2. `itemsOf_complete`: the table can take all of them.
3. `line_round_trip`: what is read from the line is what was written.
-/

namespace Barco

open OptionWords

/-- An option and its value, if there is one. -/
def optionWords (word : CStr) (value : Option CStr) : List CStr :=
  match value with
  | none => []
  | some s => [word, s]

def wordU : CStr := ⟨ascii "-u", by decide⟩
def wordM : CStr := ⟨ascii "-m", by decide⟩
def wordC : CStr := ⟨ascii "-c", by decide⟩
def wordA : CStr := ⟨ascii "-a", by decide⟩
def wordVeth : CStr := ⟨ascii "--veth", by decide⟩
def wordVethPeer : CStr := ⟨ascii "--veth-peer", by decide⟩
def wordContainerIp : CStr := ⟨ascii "--container-ip", by decide⟩
def wordHostIp : CStr := ⟨ascii "--host-ip", by decide⟩
def wordDns : CStr := ⟨ascii "--dns", by decide⟩
def wordNat : CStr := ⟨ascii "--nat", by decide⟩

/-- The text of a uid. -/
def uidText (uid : Int32) : CStr where
  val := decimalText uid.toInt
  property h := by
    have hzero : ¬ Decimal 0 := fun hzero => absurd hzero.digit (by decide)
    unfold decimalText at h
    split at h
    · rcases List.mem_cons.mp h with hdash | hmem
      · exact absurd hdash (by decide)
      · exact hzero ((pidBytes_decimal _).2.1 0 hmem)
    · exact hzero ((pidBytes_decimal _).2.1 0 h)

/-- A command line for `args`, with a text for the integer. -/
def lineOf (args : Args) (uid : CStr) : List CStr :=
  wordU :: uid :: wordM :: args.mnt :: wordC :: args.cmd ::
    (optionWords wordA args.arg ++ (optionWords wordVeth args.vethName ++
      (optionWords wordVethPeer args.vethPeer ++ (optionWords wordContainerIp args.containerIp ++
        (optionWords wordHostIp args.hostIp ++ (optionWords wordDns args.dns ++
          if args.nat then [wordNat] else []))))))

def longItems (tabindex : Nat) (value : Option CStr) : List (Item UInt8) :=
  value.toList.map fun s => .long tabindex (some s.1) s.1

def shortItems (c : UInt8) (value : Option CStr) : List (Item UInt8) :=
  value.toList.map fun s => .short c (some s.1)

/-- What it is read as. -/
def itemsOf (args : Args) (uid : CStr) : List (Item UInt8) :=
  .short 117 (some uid.1) :: .short 109 (some args.mnt.1) :: .short 99 (some args.cmd.1) ::
    (shortItems 97 args.arg ++ (longItems 7 args.vethName ++ (longItems 8 args.vethPeer ++
      (longItems 9 args.containerIp ++ (longItems 10 args.hostIp ++ (longItems 12 args.dns ++
        if args.nat then [.long 11 none wordNat.1] else []))))))

/-! ## Reading the line -/

/-- The words are read as the items, and there are no operands. -/
def ReadsAs (permute : Bool) (words : List CStr) (items : List (Item UInt8)) : Prop :=
  ∃ read, readWords (tableOptions barcoTable) permute (plainWords words) = some ⟨items, read, []⟩

section Lines

variable {permute : Bool} {words : List CStr} {items : List (Item UInt8)}

theorem ReadsAs.nil : ReadsAs permute [] [] := ⟨[], by simp [plainWords, readWords]⟩

theorem ReadsAs.short {word : CStr} {c : UInt8} (h : ReadsAs permute words items) (s : CStr)
    (hword : word.1 = [chDash, c]) (hc : c ≠ chDash)
    (hshort : (tableOptions barcoTable).short c = some .required) :
    ReadsAs permute (word :: s :: words) (.short c (some s.1) :: items) := by
  obtain ⟨read, hread⟩ := h
  have hline : plainWords (word :: s :: words) = [chDash, c] :: s.1 :: plainWords words := by
    rw [← hword]
    rfl
  refine ⟨[chDash, c] :: s.1 :: read, ?_⟩
  rw [hline]
  refine (readWords_short s.1 (plainWords words) hc hshort).trans ?_
  rw [hread]
  rfl

theorem ReadsAs.long {word : CStr} {name : List UInt8} {tabindex : Nat}
    (h : ReadsAs permute words items) (s : CStr) (hword : word.1 = chDash :: chDash :: name)
    (hne : name ≠ []) (hequals : chEqual ∉ name)
    (hlong : (tableOptions barcoTable).long name = some (tabindex, .required)) :
    ReadsAs permute (word :: s :: words) (.long tabindex (some s.1) s.1 :: items) := by
  obtain ⟨read, hread⟩ := h
  have hline : plainWords (word :: s :: words) =
      (chDash :: chDash :: name) :: s.1 :: plainWords words := by
    rw [← hword]
    rfl
  refine ⟨(chDash :: chDash :: name) :: s.1 :: read, ?_⟩
  rw [hline]
  refine (readWords_long s.1 (plainWords words) hne hequals hlong).trans ?_
  rw [hread]
  rfl

theorem ReadsAs.nat : ReadsAs permute [wordNat] [.long 11 none wordNat.1] := by
  have hline : plainWords [wordNat] = [chDash :: chDash :: ascii "nat"] := by decide +kernel
  have hlong : (tableOptions barcoTable).long (ascii "nat") = some (11, .nothing) := by
    decide +kernel
  refine ⟨[chDash :: chDash :: ascii "nat"], ?_⟩
  rw [hline]
  refine (readWords_flag [] (by decide) (by decide) hlong).trans ?_
  rw [readWords]
  rfl

theorem ReadsAs.shorts {word : CStr} {c : UInt8} (h : ReadsAs permute words items)
    (value : Option CStr) (hword : word.1 = [chDash, c]) (hc : c ≠ chDash)
    (hshort : (tableOptions barcoTable).short c = some .required) :
    ReadsAs permute (optionWords word value ++ words) (shortItems c value ++ items) := by
  rcases value with _ | s
  · exact h
  · exact h.short s hword hc hshort

theorem ReadsAs.longs {word : CStr} {name : List UInt8} {tabindex : Nat}
    (h : ReadsAs permute words items) (value : Option CStr)
    (hword : word.1 = chDash :: chDash :: name) (hne : name ≠ []) (hequals : chEqual ∉ name)
    (hlong : (tableOptions barcoTable).long name = some (tabindex, .required)) :
    ReadsAs permute (optionWords word value ++ words) (longItems tabindex value ++ items) := by
  rcases value with _ | s
  · exact h
  · exact h.long s hword hne hequals hlong

/-- The whole line. -/
theorem lineOf_reads (permute : Bool) (args : Args) (uid : CStr) :
    ReadsAs permute (lineOf args uid) (itemsOf args uid) := by
  have hshort : ∀ c ∈ [117, 109, 99, 97],
      (tableOptions barcoTable).short c = some .required := by decide +kernel
  have hveth : (tableOptions barcoTable).long (ascii "veth") = some (7, .required) := by
    decide +kernel
  have hvethPeer : (tableOptions barcoTable).long (ascii "veth-peer") = some (8, .required) := by
    decide +kernel
  have hcontainerIp : (tableOptions barcoTable).long (ascii "container-ip") =
      some (9, .required) := by decide +kernel
  have hhostIp : (tableOptions barcoTable).long (ascii "host-ip") = some (10, .required) := by
    decide +kernel
  have hdns : (tableOptions barcoTable).long (ascii "dns") = some (12, .required) := by
    decide +kernel
  unfold lineOf itemsOf
  refine .short ?_ uid (by decide) (by decide) (hshort 117 (by decide))
  refine .short ?_ args.mnt (by decide) (by decide) (hshort 109 (by decide))
  refine .short ?_ args.cmd (by decide) (by decide) (hshort 99 (by decide))
  refine .shorts ?_ args.arg (by decide) (by decide) (hshort 97 (by decide))
  refine .longs ?_ args.vethName (by decide) (by decide) (by decide) hveth
  refine .longs ?_ args.vethPeer (by decide) (by decide) (by decide) hvethPeer
  refine .longs ?_ args.containerIp (by decide) (by decide) (by decide) hcontainerIp
  refine .longs ?_ args.hostIp (by decide) (by decide) (by decide) hhostIp
  refine .longs ?_ args.dns (by decide) (by decide) (by decide) hdns
  cases args.nat
  · exact .nil
  · exact .nat

end Lines

/-! ## What the items give -/

section Given

theorem given_cons (tabindex : Nat) (item : Item UInt8) (items : List (Item UInt8)) :
    given barcoTable tabindex (item :: items) =
      if itemIndex barcoTable item = some tabindex then
        item.value :: given barcoTable tabindex items
      else given barcoTable tabindex items := by
  unfold given
  rw [List.filter_cons]
  by_cases h : itemIndex barcoTable item = some tabindex
  · simp [h]
  · simp [h]

theorem given_append (tabindex : Nat) (items items' : List (Item UInt8)) :
    given barcoTable tabindex (items ++ items') =
      given barcoTable tabindex items ++ given barcoTable tabindex items' := by
  unfold given
  rw [List.filter_append, List.map_append]

/-- The values an entry is given once at most. -/
def valueOf (value : Option CStr) : List (Option (List UInt8)) := value.toList.map fun s => some s.1

theorem given_longItems (tabindex k : Nat) (value : Option CStr) :
    given barcoTable tabindex (longItems k value) =
      if k = tabindex then valueOf value else [] := by
  rcases value with _ | s
  · simp [longItems, valueOf, given]
  · by_cases h : k = tabindex
    · simp [longItems, valueOf, itemIndex, h, given, Item.value]
    · simp [longItems, itemIndex, h, given]

theorem given_shortItems (tabindex : Nat) (value : Option CStr) :
    given barcoTable tabindex (shortItems 97 value) =
      if 5 = tabindex then valueOf value else [] := by
  have hindex : findShortoption barcoTable 97 = some 5 := by decide +kernel
  rcases value with _ | s
  · simp [shortItems, valueOf, given]
  · by_cases h : 5 = tabindex
    · simp [shortItems, valueOf, itemIndex, hindex, h, given, Item.value]
    · simp [shortItems, itemIndex, hindex, h, given]

/-- What each entry is given. -/
def written (args : Args) (uid : CStr) : Nat → List (Option (List UInt8))
  | 2 => [some uid.1]
  | 3 => [some args.mnt.1]
  | 4 => [some args.cmd.1]
  | 5 => valueOf args.arg
  | 7 => valueOf args.vethName
  | 8 => valueOf args.vethPeer
  | 9 => valueOf args.containerIp
  | 10 => valueOf args.hostIp
  | 11 => if args.nat then [none] else []
  | 12 => valueOf args.dns
  | _ => []

theorem given_itemsOf (args : Args) (uid : CStr) (tabindex : Nat) (h : tabindex < 13) :
    given barcoTable tabindex (itemsOf args uid) = written args uid tabindex := by
  have hu : findShortoption barcoTable 117 = some 2 := by decide +kernel
  have hm : findShortoption barcoTable 109 = some 3 := by decide +kernel
  have hc : findShortoption barcoTable 99 = some 4 := by decide +kernel
  have hnat : given barcoTable tabindex (if args.nat then [.long 11 none wordNat.1] else []) =
      if 11 = tabindex then (if args.nat then [none] else []) else [] := by
    cases args.nat
    · simp [given]
    · by_cases h : 11 = tabindex
      · simp [itemIndex, h, given, Item.value]
      · simp [itemIndex, h, given]
  unfold itemsOf
  simp only [given_cons, given_append, given_longItems, given_shortItems, hnat, itemIndex, hu, hm,
    hc, Option.some.injEq, Item.value]
  interval_cases tabindex <;> simp [written]

end Given

/-! ## The table can take them -/

section Complete

variable {binaryPrefix : Bool} {args : Args} {uid : CStr}

/-- Values that only the words of short options can leave empty. -/
def Args.LongNonempty (args : Args) : Prop :=
  ∀ value ∈ [args.vethName, args.vethPeer, args.containerIp, args.hostIp, args.dns],
    ∀ s, value = some s → s.1 ≠ []

def stringEntry (tabindex : Nat) : Prop :=
  (barcoTable.entries[tabindex]?).map (fun entry => entry.values.isInt) = some false

instance (tabindex : Nat) : Decidable (stringEntry tabindex) :=
  inferInstanceAs (Decidable (_ = _))

/-- The table has an entry that takes what the item gives. -/
def Wanted (binaryPrefix : Bool) (item : Item UInt8) : Prop :=
  ∃ tabindex entry, itemIndex barcoTable item = some tabindex ∧
    barcoTable.entries[tabindex]? = some entry ∧ Takeable binaryPrefix entry item

theorem wanted_of_string {item : Item UInt8} {tabindex : Nat}
    (hindex : itemIndex barcoTable item = some tabindex) (hstr : stringEntry tabindex)
    (hvalue : ∀ i word, item ≠ .long i (some []) word) : Wanted binaryPrefix item := by
  obtain ⟨entry, hget, hint⟩ := Option.map_eq_some_iff.mp hstr
  refine ⟨tabindex, entry, hindex, hget, ?_, fun h => ?_⟩
  · rintro ⟨i, word, heq, -⟩
    exact hvalue i word heq
  · rw [hint] at h
    cases h

theorem wanted_longItems {tabindex : Nat} {value : Option CStr} (hstr : stringEntry tabindex)
    (hvalue : ∀ s, value = some s → s.1 ≠ []) :
    ∀ item ∈ longItems tabindex value, Wanted binaryPrefix item := by
  intro item hitem
  obtain ⟨s, hs, rfl⟩ := List.mem_map.mp hitem
  refine wanted_of_string rfl hstr fun i word heq => hvalue s (Option.mem_toList.mp hs) ?_
  injection heq with _ hsome
  exact Option.some.inj hsome

theorem wanted_short {c : UInt8} {tabindex : Nat} (value : List UInt8)
    (hindex : findShortoption barcoTable c = some tabindex) (hstr : stringEntry tabindex) :
    Wanted binaryPrefix (.short c (some value)) :=
  wanted_of_string hindex hstr nofun

theorem wanted_uid (hread : argIntText binaryPrefix uid.1 = .ok args.uid) :
    Wanted binaryPrefix (.short 117 (some uid.1)) := by
  have hindex : findShortoption barcoTable 117 = some 2 := by decide +kernel
  refine ⟨2, _, hindex, rfl, ?_, fun _ text htext => ?_⟩
  · rintro ⟨i, word, heq, -⟩
    cases heq
  · obtain rfl := Option.some.inj htext
    exact ⟨args.uid, hread⟩

theorem wanted_itemsOf (hread : argIntText binaryPrefix uid.1 = .ok args.uid)
    (hne : args.LongNonempty) : ∀ item ∈ itemsOf args uid, Wanted binaryPrefix item := by
  have hm : findShortoption barcoTable 109 = some 3 := by decide +kernel
  have hc : findShortoption barcoTable 99 = some 4 := by decide +kernel
  have ha : findShortoption barcoTable 97 = some 5 := by decide +kernel
  have harg : ∀ item ∈ shortItems 97 args.arg, Wanted binaryPrefix item := fun item hitem => by
    obtain ⟨s, -, rfl⟩ := List.mem_map.mp hitem
    exact wanted_short s.1 ha (by decide +kernel)
  have hnat : ∀ item ∈ (if args.nat then [Item.long 11 none wordNat.1] else []),
      Wanted binaryPrefix item := by
    cases args.nat
    · exact fun item hitem => absurd hitem List.not_mem_nil
    · exact List.forall_mem_singleton.mpr (wanted_of_string rfl (by decide +kernel) nofun)
  unfold itemsOf
  simp only [List.forall_mem_cons, List.forall_mem_append]
  exact ⟨wanted_uid hread, wanted_short _ hm (by decide +kernel),
    wanted_short _ hc (by decide +kernel), harg,
    wanted_longItems (by decide +kernel) (hne _ (by simp)),
    wanted_longItems (by decide +kernel) (hne _ (by simp)),
    wanted_longItems (by decide +kernel) (hne _ (by simp)),
    wanted_longItems (by decide +kernel) (hne _ (by simp)),
    wanted_longItems (by decide +kernel) (hne _ (by simp)), hnat⟩

theorem length_written (args : Args) (uid : CStr) (tabindex : Nat) :
    (written args uid tabindex).length ≤ 1 := by
  have hvalue : ∀ value : Option CStr, (valueOf value).length ≤ 1 := fun value => by
    rcases value with _ | s
    · exact Nat.zero_le 1
    · exact Nat.le_refl 1
  unfold written
  split
  case h_9 => split <;> simp
  all_goals first | exact hvalue _ | simp

theorem mincount_written (args : Args) (uid : CStr) {tabindex : Nat} {entry : ArgEntry}
    (hget : barcoTable.entries[tabindex]? = some entry) :
    entry.hdr.mincount ≤ (written args uid tabindex).length := by
  have hmin : ∀ p ∈ barcoTable.entries.zipIdx,
      p.1.hdr.mincount = 0 ∨ p.1.hdr.mincount = 1 ∧ (p.2 = 2 ∨ p.2 = 3 ∨ p.2 = 4) := by
    decide +kernel
  rcases hmin (entry, tabindex) (List.mem_zipIdx_iff_getElem?.mpr hget) with
    hzero | ⟨hone, rfl | rfl | rfl⟩
  · exact Nat.le_trans (Nat.le_of_eq hzero) (Nat.zero_le _)
  all_goals exact Nat.le_of_eq hone

/-- The table can take what the line says, and it is all that it asks for. -/
theorem itemsOf_complete (hread : argIntText binaryPrefix uid.1 = .ok args.uid)
    (hne : args.LongNonempty) (read : List (List UInt8)) :
    Complete binaryPrefix barcoTable ⟨itemsOf args uid, read, []⟩ := by
  have hcount : ∀ entry ∈ barcoTable.entries, entry.values.count = 0 ∧ entry.hdr.maxcount = 1 := by
    decide +kernel
  have hlt : ∀ {tabindex entry}, barcoTable.entries[tabindex]? = some entry → tabindex < 13 :=
    fun hget => (List.getElem?_eq_some_iff.mp hget).1
  refine ⟨rfl, ⟨wanted_itemsOf hread hne, fun tabindex entry hget => ?_⟩,
    fun tabindex entry hget => ?_⟩
  · obtain ⟨hzero, hone⟩ := hcount entry (List.mem_of_getElem? hget)
    have hlength : (given barcoTable tabindex (itemsOf args uid)).length =
        (itemsOf args uid).countP fun item => itemIndex barcoTable item = some tabindex := by
      unfold given
      rw [List.length_map, List.countP_eq_length_filter]
    rw [hzero, hone, ← hlength, given_itemsOf args uid tabindex (hlt hget), Nat.zero_add]
    exact length_written args uid tabindex
  · rw [(hcount entry (List.mem_of_getElem? hget)).1, Nat.zero_add,
      given_itemsOf args uid tabindex (hlt hget)]
    exact mincount_written args uid hget

end Complete

/-! ## Reading back -/

section Back

variable {posixlyCorrect binaryPrefix : Bool} {args : Args} {uid : CStr}
  {read : List (List UInt8)} {table : ArgTable} {tabindex : Nat}

theorem sval_single {s : CStr} (h : table.values tabindex = some (.str [s.1])) :
    table.sval tabindex = some s := by
  rw [ArgTable.sval, h]
  exact dif_pos s.2

theorem svalOrNull_value {value : Option CStr}
    (h : table.values tabindex = some (.str ((valueOf value).map fun argval =>
      argval.getD []))) : table.svalOrNull tabindex = some value := by
  rcases value with _ | s
  · rw [ArgTable.svalOrNull, ArgTable.counted, h]
    rfl
  · rw [ArgTable.svalOrNull, sval_single h, ArgTable.counted, h]
    rfl

/-- What the table holds after the line has been read. -/
theorem Accepted.written_str
    (h : Accepted posixlyCorrect binaryPrefix (lineOf args uid) ⟨itemsOf args uid, read, []⟩ table)
    (tabindex : Nat) (hlt : tabindex < 13) (hnew : barcoTable.values tabindex = some (.str [])) :
    table.values tabindex = some (.str ((written args uid tabindex).map fun argval =>
      argval.getD [])) := by
  rw [h.str_values hnew, given_itemsOf args uid tabindex hlt]

theorem Accepted.written_uid
    (h : Accepted posixlyCorrect binaryPrefix (lineOf args uid) ⟨itemsOf args uid, read, []⟩ table)
    (hread : argIntText binaryPrefix uid.1 = .ok args.uid) : table.ival 2 = some args.uid := by
  have hnew : barcoTable.values 2 = some (.int []) := by decide +kernel
  rw [ArgTable.ival, h.values, given_itemsOf args uid 2 (by decide), hnew, Option.map_some,
    foldl_extend_int]
  simp [written, hread, Except.toOption]

theorem Accepted.written_count
    (h : Accepted posixlyCorrect binaryPrefix (lineOf args uid) ⟨itemsOf args uid, read, []⟩ table)
    (tabindex : Nat) (hlt : tabindex < 13) (hnew : barcoTable.values tabindex = some (.lit 0)) :
    table.counted tabindex = decide (0 < (written args uid tabindex).length) := by
  rw [ArgTable.counted, h.values, given_itemsOf args uid tabindex hlt, hnew, Option.map_some]
  dsimp only
  rw [ArgValues.foldl_extend_count, ArgValues.count, Nat.zero_add]

/-- `main` takes what was written. -/
theorem Accepted.argsOf_eq
    (h : Accepted posixlyCorrect binaryPrefix (lineOf args uid) ⟨itemsOf args uid, read, []⟩ table)
    (hread : argIntText binaryPrefix uid.1 = .ok args.uid) (herrors : args.errors = false)
    (hhelp : args.help = false) : argsOf table = some args := by
  have hmnt : table.sval 3 = some args.mnt :=
    sval_single (h.written_str 3 (by decide) (by decide +kernel))
  have hcmd : table.sval 4 = some args.cmd :=
    sval_single (h.written_str 4 (by decide) (by decide +kernel))
  have harg : table.svalOrNull 5 = some args.arg :=
    svalOrNull_value (h.written_str 5 (by decide) (by decide +kernel))
  have hvethName : table.svalOrNull 7 = some args.vethName :=
    svalOrNull_value (h.written_str 7 (by decide) (by decide +kernel))
  have hvethPeer : table.svalOrNull 8 = some args.vethPeer :=
    svalOrNull_value (h.written_str 8 (by decide) (by decide +kernel))
  have hcontainerIp : table.svalOrNull 9 = some args.containerIp :=
    svalOrNull_value (h.written_str 9 (by decide) (by decide +kernel))
  have hhostIp : table.svalOrNull 10 = some args.hostIp :=
    svalOrNull_value (h.written_str 10 (by decide) (by decide +kernel))
  have hdns : table.svalOrNull 12 = some args.dns :=
    svalOrNull_value (h.written_str 12 (by decide) (by decide +kernel))
  have hcounted : table.counted 0 = args.help := by
    rw [h.written_count 0 (by decide) (by decide +kernel), hhelp]
    rfl
  have hnat : table.counted 11 = args.nat := by
    rw [h.written_count 11 (by decide) (by decide +kernel)]
    rcases hn : args.nat <;> simp [written, hn]
  rw [argsOf, h.written_uid hread, hmnt, hcmd, harg, hvethName, hvethPeer, hcontainerIp, hhostIp,
    hdns, hcounted, hnat, h.noErrors]
  simp [← herrors]

end Back

/-- What `main` takes from the table after the line for `args` is `args`, whatever bytes
the values have. -/
theorem line_round_trip (posixlyCorrect binaryPrefix : Bool) (argv0 : CStr) (args : Args)
    (hne : args.LongNonempty) (herrors : args.errors = false) (hhelp : args.help = false) :
    ∃ n table, argParse posixlyCorrect binaryPrefix n
        (argv0.1 :: plainWords (lineOf args (uidText args.uid))) barcoTable = .done table ∧
      table.endtable.errors = [] ∧ argsOf table = some args := by
  set uid := uidText args.uid
  have hread : argIntText binaryPrefix uid.1 = .ok args.uid := argIntText_int32 _ args.uid
  obtain ⟨read, hr⟩ := lineOf_reads (!posixlyCorrect) args uid
  have hcomplete := itemsOf_complete hread hne read
  obtain ⟨-, herrorsIff⟩ := finish_reading binaryPrefix barcoTable_fresh
    ⟨itemsOf args uid, read, []⟩
  obtain ⟨n, table, hdone, hnone⟩ : ∃ n table, argParse posixlyCorrect binaryPrefix n
      (argv0.1 :: plainWords (lineOf args uid)) barcoTable = .done table ∧
        table.endtable.errors = [] :=
    ⟨_, _, argParse_of_reading binaryPrefix barcoTable_scannable argv0.1 (plainWords_clean _) hr
      (Nat.lt_succ_self _), herrorsIff.mpr hcomplete⟩
  obtain ⟨r, h⟩ := accepted_of_done hdone hnone
  obtain rfl := Option.some.inj (hr.symm.trans h.reading)
  exact ⟨n, table, hdone, hnone, h.argsOf_eq hread herrors hhelp⟩

theorem line_round_trip_web : ∃ n table, argParse false true n
      (ascii "barco" :: plainWords (lineOf webArgs (uidText webArgs.uid))) barcoTable =
        .done table ∧
    table.endtable.errors = [] ∧ argsOf table = some webArgs := by
  have hne : webArgs.LongNonempty := by
    have hweb : webName.1 ≠ [] := by decide
    have hip : webIp.1 ≠ [] := by decide
    intro value hvalue s hs
    simp only [webArgs, List.mem_cons, List.not_mem_nil, or_false] at hvalue
    rcases hvalue with rfl | rfl | rfl | rfl | rfl
    · obtain rfl := Option.some.inj hs
      exact hweb
    · cases hs
    · obtain rfl := Option.some.inj hs
      exact hip
    · cases hs
    · cases hs
  exact line_round_trip false true ⟨ascii "barco", by decide⟩ webArgs hne rfl rfl

end Barco
