import Barco.CommandLine

/-!
# The command lines that are accepted

`arg_parse` accepts a line when it registers no error. `Acceptable` says when the
items of a reading have none: every item is an option of the table, with a value
its entry can take, and no entry gets more values than it has room for.

1. `scanfn_zero_iff`: when an entry takes a value.
2. `foldl_errors_iff`: when all items are taken.
3. `foldl_values`: what the entries hold then.
4. `argParse_accepts_iff`: the lines that are accepted.
-/

namespace Barco

open OptionWords

def ArgValues.isInt : ArgValues → Bool
  | .int _ => true
  | _ => false

/-- The entry an item is about. -/
def itemIndex (table : ArgTable) : Item UInt8 → Option Nat
  | .long tabindex _ _ => some tabindex
  | .short c _ => findShortoption table c
  | _ => none

/-- A long option with an empty value, where a value is needed. -/
def EmptyLong (entry : ArgEntry) (item : Item UInt8) : Prop :=
  ∃ tabindex word, item = .long tabindex (some []) word ∧ entry.hdr.hasValue = true

/-- The value an item gives is one that its entry can take. -/
def Takeable (binaryPrefix : Bool) (entry : ArgEntry) (item : Item UInt8) : Prop :=
  ¬ EmptyLong entry item ∧
    (entry.values.isInt = true → ∀ text, item.value = some text →
      ∃ val, argIntText binaryPrefix text = .ok val)

/-- What `arg_parse_tagged` accepts. -/
structure Acceptable (binaryPrefix : Bool) (table : ArgTable) (items : List (Item UInt8)) :
    Prop where
  known : ∀ item ∈ items, ∃ tabindex entry, itemIndex table item = some tabindex ∧
    table.entries[tabindex]? = some entry ∧ Takeable binaryPrefix entry item
  room : ∀ tabindex entry, table.entries[tabindex]? = some entry →
    entry.values.count + items.countP (fun item => itemIndex table item = some tabindex) ≤
      entry.hdr.maxcount

/-- A table whose entries have room for what they hold, and that can register an error. -/
structure Roomy (table : ArgTable) : Prop where
  entries : ∀ entry ∈ table.entries, entry.values.count ≤ entry.hdr.maxcount
  errors : 0 < table.endtable.maxcount

/-! ## Scanning one value -/

section Scan

variable {binaryPrefix : Bool}

theorem argIntText_error {s : List UInt8} {code : Int}
    (h : argIntText binaryPrefix s = .error code) : code ≠ 0 := by
  unfold argIntText at h
  dsimp only at h
  split at h
  · obtain rfl := Except.error.inj h
    decide
  · split at h
    · obtain rfl := Except.error.inj h
      decide
    · split at h
      · obtain rfl := Except.error.inj h
        decide
      · split at h
        · obtain rfl := Except.error.inj h
          decide
        · cases h

/-- What an entry holds after one more value. -/
def ArgValues.extend (binaryPrefix : Bool) (values : ArgValues) (argval : Option (List UInt8)) :
    ArgValues :=
  match values with
  | .lit count => .lit (count + 1)
  | .int ival =>
    .int (ival ++ [argval.bind fun text => (argIntText binaryPrefix text).toOption])
  | .str sval => .str (sval ++ [argval.getD []])

theorem ArgValues.extend_count (values : ArgValues) (argval : Option (List UInt8)) :
    (values.extend binaryPrefix argval).count = values.count + 1 := by
  cases values <;> simp [extend, count]

theorem ArgValues.extend_isInt (values : ArgValues) (argval : Option (List UInt8)) :
    (values.extend binaryPrefix argval).isInt = values.isInt := by
  cases values <;> rfl

/-- An entry takes a value when it has room and can read it. -/
theorem scanfn_zero_iff (entry : ArgEntry) (argval : Option (List UInt8))
    (hroom : entry.values.count ≤ entry.hdr.maxcount) :
    (scanfn binaryPrefix entry argval).1 = 0 ↔
      entry.values.count < entry.hdr.maxcount ∧
        (entry.values.isInt = true → ∀ text, argval = some text →
          ∃ val, argIntText binaryPrefix text = .ok val) := by
  obtain ⟨hdr, values⟩ := entry
  unfold scanfn
  cases values with
  | lit count =>
    dsimp only [ArgValues.count, ArgValues.isInt] at hroom ⊢
    unfold argLitScanfn
    by_cases hlt : count < hdr.maxcount
    · simp [hlt]
    · simp [hlt, ARG_ERR_MAXCOUNT]
  | int ival =>
    dsimp only [ArgValues.count, ArgValues.isInt] at hroom ⊢
    unfold argIntScanfn
    by_cases hfull : ival.length = hdr.maxcount
    · simp [hfull, ARG_ERR_MAXCOUNT]
    · have hlt : ival.length < hdr.maxcount := by omega
      rw [if_neg hfull]
      rcases argval with _ | text
      · simp [hlt]
      · rcases htext : argIntText binaryPrefix text with code | val
        · have := argIntText_error htext
          simp [this, htext]
        · simp [hlt, htext]
  | str sval =>
    dsimp only [ArgValues.count, ArgValues.isInt] at hroom ⊢
    unfold argStrScanfn
    by_cases hfull : sval.length = hdr.maxcount
    · simp [hfull, ARG_ERR_MAXCOUNT]
    · have hlt : sval.length < hdr.maxcount := by omega
      simp [hfull, hlt]

/-- The entry then holds the value. -/
theorem scanfn_zero (entry : ArgEntry) (argval : Option (List UInt8))
    (h : (scanfn binaryPrefix entry argval).1 = 0) :
    (scanfn binaryPrefix entry argval).2 =
      { entry with values := entry.values.extend binaryPrefix argval } := by
  obtain ⟨hdr, values⟩ := entry
  unfold scanfn at h ⊢
  cases values with
  | lit count =>
    dsimp only at h ⊢
    unfold argLitScanfn at h ⊢
    by_cases hlt : count < hdr.maxcount
    · rw [if_pos hlt]
      rfl
    · rw [if_neg hlt] at h
      exact absurd h (show ARG_ERR_MAXCOUNT ≠ 0 by decide)
  | int ival =>
    dsimp only at h ⊢
    unfold argIntScanfn at h ⊢
    by_cases hfull : ival.length = hdr.maxcount
    · rw [if_pos hfull] at h
      exact absurd h (show ARG_ERR_MAXCOUNT ≠ 0 by decide)
    · rw [if_neg hfull] at h ⊢
      rcases argval with _ | text
      · rfl
      · dsimp only at h ⊢
        rcases htext : argIntText binaryPrefix text with code | val
        · rw [htext] at h
          exact absurd h (argIntText_error htext)
        · simp [ArgValues.extend, htext, Except.toOption]
  | str sval =>
    dsimp only at h ⊢
    unfold argStrScanfn at h ⊢
    by_cases hfull : sval.length = hdr.maxcount
    · rw [if_pos hfull] at h
      exact absurd h (show ARG_ERR_MAXCOUNT ≠ 0 by decide)
    · rw [if_neg hfull]
      rfl

end Scan

/-! ## Errors stay -/

section Errors

variable {binaryPrefix : Bool} {table : ArgTable}

theorem argRegisterError_ne_nil (h : 0 < table.endtable.maxcount) (e : ArgError) :
    (argRegisterError table e).endtable.errors ≠ [] := by
  unfold argRegisterError
  dsimp only
  split
  · simp
  · next hfull =>
    intro hnil
    have := congrArg List.length hnil
    rw [List.length_set] at this
    simp only [List.length_nil] at this
    omega

theorem scanInto_maxcount (tabindex : Nat) (entry : ArgEntry) (value : Option (List UInt8))
    (table : ArgTable) :
    (scanInto binaryPrefix tabindex entry value table).endtable.maxcount =
      table.endtable.maxcount := by
  unfold scanInto
  dsimp only
  split <;> rfl

theorem scanInto_errors (tabindex : Nat) (entry : ArgEntry) (value : Option (List UInt8))
    (hpos : 0 < table.endtable.maxcount) :
    (scanInto binaryPrefix tabindex entry value table).endtable.errors = [] ↔
      (scanfn binaryPrefix entry value).1 = 0 ∧ table.endtable.errors = [] := by
  unfold scanInto
  dsimp only
  by_cases hzero : (scanfn binaryPrefix entry value).1 = 0
  · rw [if_neg (not_not_intro hzero)]
    simp [hzero]
  · rw [if_pos hzero]
    simp only [hzero, false_and, iff_false]
    exact argRegisterError_ne_nil hpos _

theorem applyItem_maxcount (item : Item UInt8) :
    (applyItem binaryPrefix table item).endtable.maxcount = table.endtable.maxcount := by
  cases item with
  | long tabindex value word =>
    unfold applyItem
    dsimp only
    split
    · rfl
    · rw [scanInto_maxcount]
      split <;> rfl
  | short c value =>
    unfold applyItem
    dsimp only
    split
    · rfl
    · split
      · rfl
      · rw [scanInto_maxcount]
  | unknownLong word => rfl
  | unknownShort c => rfl
  | missing word => rfl

theorem applyItem_errors_mono (hpos : 0 < table.endtable.maxcount) (item : Item UInt8)
    (h : table.endtable.errors ≠ []) :
    (applyItem binaryPrefix table item).endtable.errors ≠ [] := by
  cases item with
  | long tabindex value word =>
    unfold applyItem
    dsimp only
    split
    · exact argRegisterError_ne_nil hpos _
    · split
      · rw [Ne, scanInto_errors _ _ _ (by exact hpos)]
        exact fun hnil => argRegisterError_ne_nil hpos _ hnil.2
      · rw [Ne, scanInto_errors _ _ _ hpos]
        exact fun hnil => h hnil.2
  | short c value =>
    unfold applyItem
    dsimp only
    split
    · exact argRegisterError_ne_nil hpos _
    · split
      · exact h
      · rw [Ne, scanInto_errors _ _ _ hpos]
        exact fun hnil => h hnil.2
  | unknownLong word => exact argRegisterError_ne_nil hpos _
  | unknownShort c => exact argRegisterError_ne_nil hpos _
  | missing word => exact argRegisterError_ne_nil hpos _

theorem foldl_errors_mono (hpos : 0 < table.endtable.maxcount) (items : List (Item UInt8))
    (h : table.endtable.errors ≠ []) :
    (items.foldl (applyItem binaryPrefix) table).endtable.errors ≠ [] := by
  induction items generalizing table with
  | nil => exact h
  | cons item items ih =>
    refine ih ?_ (applyItem_errors_mono hpos item h)
    rw [applyItem_maxcount]
    exact hpos

end Errors

/-! ## One item -/

section Item

variable {binaryPrefix : Bool} {table : ArgTable} {item : Item UInt8} {tabindex : Nat}
  {entry : ArgEntry}

/-- The options do not change. -/
theorem itemIndex_congr {table' : ArgTable}
    (h : table'.entries.map ArgEntry.hdr = table.entries.map ArgEntry.hdr) (item : Item UInt8) :
    itemIndex table' item = itemIndex table item := by
  have hfind : ∀ c, findShortoption table' c = findShortoption table c := by
    intro c
    have hmap : ∀ t : ArgTable, findShortoption t c =
        (t.entries.map ArgEntry.hdr).findIdx? fun hdr => (hdr.shortopts.getD []).contains c := by
      intro t
      rw [List.findIdx?_map]
      rfl
    rw [hmap, hmap, h]
  cases item with
  | short c value => exact hfind c
  | long => rfl
  | unknownLong => rfl
  | unknownShort => rfl
  | missing => rfl

theorem set_map_hdr {entries : List ArgEntry} (hget : entries[tabindex]? = some entry)
    (values : ArgValues) :
    (entries.set tabindex { entry with values := values }).map ArgEntry.hdr =
      entries.map ArgEntry.hdr := by
  rw [List.map_set]
  apply List.ext_getElem?
  intro j
  by_cases hj : tabindex = j
  · subst hj
    have hlt : tabindex < entries.length := (List.getElem?_eq_some_iff.mp hget).1
    rw [List.getElem?_set_self (by rwa [List.length_map]), List.getElem?_map, hget]
    rfl
  · rw [List.getElem?_set_ne hj]

/-- The item of an entry is scanned into it. -/
theorem applyItem_eq (hindex : itemIndex table item = some tabindex)
    (hget : table.entries[tabindex]? = some entry) (hlong : ¬ EmptyLong entry item) :
    applyItem binaryPrefix table item =
      scanInto binaryPrefix tabindex entry item.value table := by
  cases item with
  | long i value word =>
    obtain rfl := Option.some.inj hindex
    have hcond : ¬ (value = some [] ∧ entry.hdr.hasValue = true) := by
      rintro ⟨rfl, hvalue⟩
      exact hlong ⟨i, word, rfl, hvalue⟩
    unfold applyItem
    dsimp only
    rw [hget]
    dsimp only
    rw [if_neg hcond]
    rfl
  | short c value =>
    have hfind : findShortoption table c = some tabindex := hindex
    unfold applyItem
    dsimp only
    rw [hfind]
    dsimp only
    rw [hget]
    rfl
  | unknownLong word => cases hindex
  | unknownShort c => cases hindex
  | missing word => cases hindex

/-- When an item registers no error. -/
theorem applyItem_errors_iff (hr : Roomy table) (hnone : table.endtable.errors = []) :
    (applyItem binaryPrefix table item).endtable.errors = [] ↔
      ∃ tabindex entry, itemIndex table item = some tabindex ∧
        table.entries[tabindex]? = some entry ∧ Takeable binaryPrefix entry item ∧
        entry.values.count < entry.hdr.maxcount := by
  have hknown : ∀ tabindex entry, itemIndex table item = some tabindex →
      table.entries[tabindex]? = some entry → ¬ EmptyLong entry item →
      ((applyItem binaryPrefix table item).endtable.errors = [] ↔
        entry.values.count < entry.hdr.maxcount ∧ (entry.values.isInt = true →
          ∀ text, item.value = some text → ∃ val, argIntText binaryPrefix text = .ok val)) := by
    intro tabindex entry hindex hget hlong
    have hroom := hr.entries entry (List.mem_of_getElem? hget)
    rw [applyItem_eq hindex hget hlong, scanInto_errors _ _ _ hr.errors, scanfn_zero_iff _ _ hroom]
    simp [hnone]
  constructor
  · intro h
    obtain ⟨tabindex, entry, hindex, hget, hlong⟩ : ∃ tabindex entry,
        itemIndex table item = some tabindex ∧ table.entries[tabindex]? = some entry ∧
        ¬ EmptyLong entry item := by
      cases item with
      | long i value word =>
        rcases hget : table.entries[i]? with _ | entry
        · unfold applyItem at h
          dsimp only at h
          rw [hget] at h
          exact absurd h (argRegisterError_ne_nil hr.errors _)
        · refine ⟨i, entry, rfl, hget, ?_⟩
          rintro ⟨j, w, heq, hvalue⟩
          obtain ⟨rfl, rfl, rfl⟩ := Item.long.inj heq
          unfold applyItem at h
          dsimp only at h
          rw [hget] at h
          dsimp only at h
          rw [if_pos ⟨rfl, hvalue⟩, scanInto_errors _ _ _ (by exact hr.errors)] at h
          exact argRegisterError_ne_nil hr.errors _ h.2
      | short c value =>
        rcases hfind : findShortoption table c with _ | i
        · unfold applyItem at h
          dsimp only at h
          rw [hfind] at h
          exact absurd h (argRegisterError_ne_nil hr.errors _)
        · have hlt : i < table.entries.length := (List.findIdx?_eq_some_iff_getElem.mp hfind).1
          refine ⟨i, table.entries[i], hfind, List.getElem?_eq_getElem hlt, ?_⟩
          rintro ⟨j, w, heq, -⟩
          cases heq
      | unknownLong word => exact absurd h (argRegisterError_ne_nil hr.errors _)
      | unknownShort c => exact absurd h (argRegisterError_ne_nil hr.errors _)
      | missing word => exact absurd h (argRegisterError_ne_nil hr.errors _)
    obtain ⟨hlt, hvalue⟩ := (hknown tabindex entry hindex hget hlong).mp h
    exact ⟨tabindex, entry, hindex, hget, ⟨hlong, hvalue⟩, hlt⟩
  · rintro ⟨tabindex, entry, hindex, hget, ⟨hlong, hvalue⟩, hlt⟩
    exact (hknown tabindex entry hindex hget hlong).mpr ⟨hlt, hvalue⟩

/-- What the table is when it does not. -/
theorem applyItem_entries (hr : Roomy table) (hindex : itemIndex table item = some tabindex)
    (hget : table.entries[tabindex]? = some entry) (htake : Takeable binaryPrefix entry item)
    (hlt : entry.values.count < entry.hdr.maxcount) :
    applyItem binaryPrefix table item = { table with
      entries := table.entries.set tabindex
        { entry with values := entry.values.extend binaryPrefix item.value } } := by
  have hroom := hr.entries entry (List.mem_of_getElem? hget)
  have hzero := (scanfn_zero_iff entry item.value hroom).mpr ⟨hlt, htake.2⟩
  rw [applyItem_eq hindex hget htake.1]
  unfold scanInto
  dsimp only
  rw [if_neg (not_not_intro hzero), scanfn_zero entry item.value hzero]

/-- The table with one more value in an entry. -/
def withValue (binaryPrefix : Bool) (table : ArgTable) (tabindex : Nat) (entry : ArgEntry)
    (value : Option (List UInt8)) : ArgTable :=
  { table with
    entries := table.entries.set tabindex
      { entry with values := entry.values.extend binaryPrefix value } }

theorem withValue_get (hget : table.entries[tabindex]? = some entry)
    (value : Option (List UInt8)) (j : Nat) :
    (withValue binaryPrefix table tabindex entry value).entries[j]? =
      if j = tabindex then some { entry with values := entry.values.extend binaryPrefix value }
      else table.entries[j]? := by
  have hlt : tabindex < table.entries.length := (List.getElem?_eq_some_iff.mp hget).1
  unfold withValue
  by_cases hj : j = tabindex
  · subst hj
    rw [if_pos rfl, List.getElem?_set_self hlt]
  · rw [if_neg hj, List.getElem?_set_ne (Ne.symm hj)]

theorem withValue_index (hget : table.entries[tabindex]? = some entry)
    (value : Option (List UInt8)) (item : Item UInt8) :
    itemIndex (withValue binaryPrefix table tabindex entry value) item = itemIndex table item :=
  itemIndex_congr (set_map_hdr hget _) item

theorem withValue_roomy (hr : Roomy table) (hlt : entry.values.count < entry.hdr.maxcount)
    (value : Option (List UInt8)) :
    Roomy (withValue binaryPrefix table tabindex entry value) := by
  refine ⟨fun e he => ?_, hr.errors⟩
  rcases List.mem_or_eq_of_mem_set he with hold | rfl
  · exact hr.entries e hold
  · dsimp only
    rw [ArgValues.extend_count]
    exact hlt

theorem takeable_extend (item : Item UInt8) (value : Option (List UInt8)) :
    Takeable binaryPrefix { entry with values := entry.values.extend binaryPrefix value } item ↔
      Takeable binaryPrefix entry item := by
  unfold Takeable EmptyLong
  dsimp only
  rw [ArgValues.extend_isInt]

/-- One item more. -/
theorem acceptable_cons (items : List (Item UInt8)) (hindex : itemIndex table item = some tabindex)
    (hget : table.entries[tabindex]? = some entry) (htake : Takeable binaryPrefix entry item) :
    Acceptable binaryPrefix (withValue binaryPrefix table tabindex entry item.value) items ↔
      Acceptable binaryPrefix table (item :: items) := by
  have hcount : ∀ j, (item :: items).countP (fun i => itemIndex table i = some j) =
      items.countP (fun i => itemIndex table i = some j) + if j = tabindex then 1 else 0 := by
    intro j
    rw [List.countP_cons, hindex]
    by_cases hj : j = tabindex
    · simp [hj]
    · simp [hj, Ne.symm hj]
  constructor
  · rintro ⟨hknown, hroom⟩
    refine ⟨List.forall_mem_cons.mpr ⟨⟨tabindex, entry, hindex, hget, htake⟩, ?_⟩, ?_⟩
    · intro i hi
      obtain ⟨j, e, hj, hgetj, htakej⟩ := hknown i hi
      rw [withValue_index hget] at hj
      rw [withValue_get hget] at hgetj
      by_cases heq : j = tabindex
      · rw [if_pos heq] at hgetj
        obtain rfl := Option.some.inj hgetj
        exact ⟨j, entry, hj, heq ▸ hget, (takeable_extend i _).mp htakej⟩
      · rw [if_neg heq] at hgetj
        exact ⟨j, e, hj, hgetj, htakej⟩
    · intro j e hgetj
      rw [hcount]
      by_cases heq : j = tabindex
      · have hroomj := hroom j { entry with
          values := entry.values.extend binaryPrefix item.value }
          (by rw [withValue_get hget, if_pos heq])
        simp only [withValue_index hget] at hroomj
        rw [ArgValues.extend_count] at hroomj
        rw [heq, hget] at hgetj
        obtain rfl := Option.some.inj hgetj
        rw [if_pos heq]
        omega
      · have hroomj := hroom j e (by rw [withValue_get hget, if_neg heq, hgetj])
        simp only [withValue_index hget] at hroomj
        rw [if_neg heq]
        exact hroomj
  · rintro ⟨hknown, hroom⟩
    refine ⟨fun i hi => ?_, fun j e hgetj => ?_⟩
    · obtain ⟨j, e, hj, hgetj, htakej⟩ := hknown i (List.mem_cons_of_mem _ hi)
      rw [withValue_index hget]
      by_cases heq : j = tabindex
      · rw [heq, hget] at hgetj
        obtain rfl := Option.some.inj hgetj
        exact ⟨j, _, hj, by rw [withValue_get hget, if_pos heq], (takeable_extend i _).mpr htakej⟩
      · exact ⟨j, e, hj, by rw [withValue_get hget, if_neg heq, hgetj], htakej⟩
    · simp only [withValue_index hget]
      rw [withValue_get hget] at hgetj
      by_cases heq : j = tabindex
      · rw [if_pos heq] at hgetj
        obtain rfl := Option.some.inj hgetj
        have hroomj := hroom j entry (heq ▸ hget)
        rw [hcount, if_pos heq] at hroomj
        rw [ArgValues.extend_count]
        dsimp only
        omega
      · rw [if_neg heq] at hgetj
        have hroomj := hroom j e hgetj
        rw [hcount, if_neg heq] at hroomj
        exact hroomj

end Item

/-! ## All items -/

section Items

variable {binaryPrefix : Bool} {table : ArgTable}

/-- The values that the items give an entry. -/
def given (table : ArgTable) (tabindex : Nat) (items : List (Item UInt8)) :
    List (Option (List UInt8)) :=
  (items.filter fun item => itemIndex table item = some tabindex).map Item.value

/-- An acceptable item leaves no error and its value. -/
theorem Acceptable.step {item : Item UInt8} {items : List (Item UInt8)}
    (h : Acceptable binaryPrefix table (item :: items)) :
    ∃ tabindex entry, itemIndex table item = some tabindex ∧
      table.entries[tabindex]? = some entry ∧ Takeable binaryPrefix entry item ∧
      entry.values.count < entry.hdr.maxcount := by
  obtain ⟨tabindex, entry, hindex, hget, htake⟩ := h.known item List.mem_cons_self
  have hroom := h.room tabindex entry hget
  rw [List.countP_cons_of_pos (by simp [hindex])] at hroom
  exact ⟨tabindex, entry, hindex, hget, htake, by omega⟩

/-- All items are taken without an error just when they are acceptable. -/
theorem foldl_errors_iff (items : List (Item UInt8)) (hr : Roomy table)
    (hnone : table.endtable.errors = []) :
    (items.foldl (applyItem binaryPrefix) table).endtable.errors = [] ↔
      Acceptable binaryPrefix table items := by
  induction items generalizing table with
  | nil =>
    refine iff_of_true hnone ⟨fun item hitem => absurd hitem List.not_mem_nil, ?_⟩
    intro tabindex entry hget
    exact hr.entries entry (List.mem_of_getElem? hget)
  | cons item items ih =>
    rw [List.foldl_cons]
    by_cases hgood : (applyItem binaryPrefix table item).endtable.errors = []
    · obtain ⟨tabindex, entry, hindex, hget, htake, hlt⟩ :=
        (applyItem_errors_iff hr hnone).mp hgood
      have heq : applyItem binaryPrefix table item =
          withValue binaryPrefix table tabindex entry item.value :=
        applyItem_entries hr hindex hget htake hlt
      rw [heq, ih (withValue_roomy hr hlt _) hnone, acceptable_cons items hindex hget htake]
    · refine iff_of_false (foldl_errors_mono ?_ items hgood) fun hacc => ?_
      · rw [applyItem_maxcount]
        exact hr.errors
      · exact hgood ((applyItem_errors_iff hr hnone).mpr hacc.step)

/-- Acceptable items fill the entries with the values they give, in their order. -/
theorem foldl_values (items : List (Item UInt8)) (hr : Roomy table)
    (hnone : table.endtable.errors = []) (hacc : Acceptable binaryPrefix table items) (j : Nat) :
    (items.foldl (applyItem binaryPrefix) table).entries[j]? =
      (table.entries[j]?).map fun entry =>
        { entry with
          values := (given table j items).foldl (ArgValues.extend binaryPrefix) entry.values } := by
  induction items generalizing table with
  | nil =>
    rw [List.foldl_nil]
    rcases table.entries[j]? with _ | entry <;> rfl
  | cons item items ih =>
    obtain ⟨tabindex, entry, hindex, hget, htake, hlt⟩ := hacc.step
    have heq : applyItem binaryPrefix table item =
        withValue binaryPrefix table tabindex entry item.value :=
      applyItem_entries hr hindex hget htake hlt
    have hgiven : given (withValue binaryPrefix table tabindex entry item.value) j items =
        given table j items := by
      unfold given
      simp only [withValue_index hget]
    rw [List.foldl_cons, heq, ih (withValue_roomy hr hlt _) hnone
      ((acceptable_cons items hindex hget htake).mpr hacc), hgiven, withValue_get hget]
    by_cases hj : j = tabindex
    · have hfirst : given table j (item :: items) = item.value :: given table j items := by
        unfold given
        rw [List.filter_cons_of_pos (by simp [hindex, hj]), List.map_cons]
      rw [if_pos hj, hj, hget, ← hj, hfirst]
      rfl
    · have hskip : given table j (item :: items) = given table j items := by
        unfold given
        rw [List.filter_cons_of_neg (by simp [hindex, Ne.symm hj])]
      rw [if_neg hj, hskip]

end Items

/-! ## The end of `arg_parse` -/

section Finish

variable {binaryPrefix : Bool} {table : ArgTable}

/-- Every entry has a name, so that no word is scanned without one. -/
def Tagged (table : ArgTable) : Prop :=
  ∀ hdr ∈ table.entries.map ArgEntry.hdr, (hdr.longopts.isSome || hdr.shortopts.isSome) = true

theorem scanInto_hdrs {tabindex : Nat} {entry : ArgEntry} (value : Option (List UInt8))
    (hget : table.entries[tabindex]? = some entry) :
    (scanInto binaryPrefix tabindex entry value table).entries.map ArgEntry.hdr =
      table.entries.map ArgEntry.hdr := by
  unfold scanInto
  dsimp only
  split
  · exact set_map_hdr hget _
  · exact set_map_hdr hget _

theorem applyItem_hdrs (item : Item UInt8) :
    (applyItem binaryPrefix table item).entries.map ArgEntry.hdr =
      table.entries.map ArgEntry.hdr := by
  cases item with
  | long tabindex value word =>
    unfold applyItem
    dsimp only
    split
    · rfl
    · next hget =>
      split
      · exact scanInto_hdrs value hget
      · exact scanInto_hdrs value hget
  | short c value =>
    unfold applyItem
    dsimp only
    split
    · rfl
    · split
      · rfl
      · next hget => exact scanInto_hdrs value hget
  | unknownLong word => rfl
  | unknownShort c => rfl
  | missing word => rfl

theorem foldl_hdrs (items : List (Item UInt8)) :
    (items.foldl (applyItem binaryPrefix) table).entries.map ArgEntry.hdr =
      table.entries.map ArgEntry.hdr := by
  induction items generalizing table with
  | nil => rfl
  | cons item items ih => rw [List.foldl_cons, ih, applyItem_hdrs]

theorem foldl_maxcount (items : List (Item UInt8)) :
    (items.foldl (applyItem binaryPrefix) table).endtable.maxcount =
      table.endtable.maxcount := by
  induction items generalizing table with
  | nil => rfl
  | cons item items ih => rw [List.foldl_cons, ih, applyItem_maxcount]

/-- No entry takes a word, so that all are rejected. -/
theorem argParseUntagged_tagged (ht : Tagged table) {n tabindex : Nat} (words : Argv)
    (htab : tabindex ≤ table.entries.length) (hn : table.entries.length < tabindex + n) :
    argParseUntagged binaryPrefix n tabindex words none table = rejectWords words table := by
  induction n generalizing tabindex with
  | zero => omega
  | succ n ih =>
    unfold argParseUntagged
    rcases hget : table.entries[tabindex]? with _ | entry
    · rfl
    · have hlt : tabindex < table.entries.length := (List.getElem?_eq_some_iff.mp hget).1
      have htag := ht entry.hdr (List.mem_map_of_mem (List.mem_of_getElem? hget))
      rcases words with _ | ⟨word, rest⟩
      · rfl
      · dsimp only
        rw [if_pos htag]
        exact ih hlt (by omega)

theorem rejectWords_errors (hpos : 0 < table.endtable.maxcount) (words : Argv) :
    (rejectWords words table).endtable.errors = [] ↔
      words = [] ∧ table.endtable.errors = [] := by
  induction words generalizing table with
  | nil => simp [rejectWords]
  | cons word words ih =>
    have hstep : rejectWords (word :: words) table =
        rejectWords words (argRegisterError table ⟨ARG_ENOMATCH, none, word⟩) := rfl
    rw [hstep, ih (by exact hpos)]
    simp [argRegisterError_ne_nil hpos]

theorem rejectWords_entries (table : ArgTable) (words : Argv) :
    (rejectWords words table).entries = table.entries ∧
      (rejectWords words table).endtable.maxcount = table.endtable.maxcount := by
  induction words generalizing table with
  | nil => exact ⟨rfl, rfl⟩
  | cons word words ih => exact ih (argRegisterError table ⟨ARG_ENOMATCH, none, word⟩)

/-- The checks of some entries. -/
theorem foldl_check (table : ArgTable) (hpos : 0 < table.endtable.maxcount)
    (checks : List (ArgEntry × Nat)) :
    (checks.foldl (fun t (p : ArgEntry × Nat) =>
        if checkfn p.1 ≠ 0 then argRegisterError t ⟨checkfn p.1, some p.2, none⟩ else t)
        table).entries = table.entries ∧
      ((checks.foldl (fun t (p : ArgEntry × Nat) =>
        if checkfn p.1 ≠ 0 then argRegisterError t ⟨checkfn p.1, some p.2, none⟩ else t)
        table).endtable.errors = [] ↔
        table.endtable.errors = [] ∧ ∀ p ∈ checks, checkfn p.1 = 0) := by
  induction checks generalizing table with
  | nil => exact ⟨rfl, by simp⟩
  | cons p checks ih =>
    rw [List.foldl_cons]
    by_cases hzero : checkfn p.1 = 0
    · rw [if_neg (not_not_intro hzero)]
      obtain ⟨hentries, herrors⟩ := ih table hpos
      exact ⟨hentries, by rw [herrors, List.forall_mem_cons]; simp [hzero]⟩
    · rw [if_pos hzero]
      obtain ⟨hentries, herrors⟩ :=
        ih (argRegisterError table ⟨checkfn p.1, some p.2, none⟩) hpos
      refine ⟨hentries, herrors.trans (iff_of_false ?_ ?_)⟩
      · exact fun h => argRegisterError_ne_nil hpos _ h.1
      · exact fun h => hzero (h.2 p List.mem_cons_self)

theorem checkfn_eq_zero (entry : ArgEntry) :
    checkfn entry = 0 ↔ entry.hdr.mincount ≤ entry.values.count := by
  unfold checkfn
  by_cases hlt : entry.values.count < entry.hdr.mincount
  · rw [if_pos hlt]
    refine iff_of_false (by decide) (by omega)
  · rw [if_neg hlt]
    refine iff_of_true rfl (by omega)

theorem argParseCheck_errors (hpos : 0 < table.endtable.maxcount) :
    (argParseCheck table).entries = table.entries ∧
      ((argParseCheck table).endtable.errors = [] ↔ table.endtable.errors = [] ∧
        ∀ entry ∈ table.entries, entry.hdr.mincount ≤ entry.values.count) := by
  obtain ⟨hentries, herrors⟩ := foldl_check table hpos table.entries.zipIdx
  refine ⟨hentries, herrors.trans (and_congr_right fun _ => ?_)⟩
  constructor
  · intro h entry hentry
    obtain ⟨i, hi, rfl⟩ := List.getElem_of_mem hentry
    have hmem : (table.entries[i], i) ∈ table.entries.zipIdx :=
      List.mem_zipIdx_iff_getElem?.mpr (List.getElem?_eq_getElem hi)
    exact (checkfn_eq_zero _).mp (h _ hmem)
  · intro h p hp
    exact (checkfn_eq_zero _).mpr (h _ (List.fst_mem_of_mem_zipIdx hp))

/-- When the end of `arg_parse` finds no error. -/
theorem finishParse_errors (binaryPrefix : Bool) (ht : Tagged table)
    (hpos : 0 < table.endtable.maxcount) (operands : List (List UInt8)) :
    (finishParse binaryPrefix table operands).entries = table.entries ∧
      ((finishParse binaryPrefix table operands).endtable.errors = [] ↔
        table.endtable.errors = [] ∧ operands = [] ∧
          ∀ entry ∈ table.entries, entry.hdr.mincount ≤ entry.values.count) := by
  unfold finishParse
  dsimp only
  rw [argParseUntagged_tagged ht _ (Nat.zero_le _) (by omega)]
  obtain ⟨hentries, hmax⟩ := rejectWords_entries table (operands.map some)
  have herrors := rejectWords_errors hpos (operands.map some)
  rw [List.map_eq_nil_iff] at herrors
  by_cases hnone : (rejectWords (operands.map some) table).endtable.errors = []
  · rw [if_pos hnone]
    obtain ⟨hcheck, hcheckErrors⟩ := argParseCheck_errors (hmax ▸ hpos)
    refine ⟨hcheck.trans hentries, hcheckErrors.trans ?_⟩
    obtain ⟨hop, htable⟩ := herrors.mp hnone
    rw [hentries]
    exact ⟨fun h => ⟨htable, hop, h.2⟩, fun h => ⟨hnone, h.2.2⟩⟩
  · rw [if_neg hnone]
    refine ⟨hentries, iff_of_false hnone fun h => hnone (herrors.mpr ⟨h.2.1, h.1⟩)⟩

end Finish

/-! ## The accepted lines -/

/-- A table before it is used: room for a value in each entry, and no error yet. -/
structure FreshTable (table : ArgTable) : Prop extends Roomy table where
  tagged : Tagged table
  noErrors : table.endtable.errors = []

/-- A table for options alone, used before or not. -/
structure OptionsOnly (table : ArgTable) : Prop where
  scannable : Scannable (allocShortoptions table)
  tagged : Tagged table
  errors : 0 < table.endtable.maxcount

theorem ArgEntry.reset_count (entry : ArgEntry) : entry.reset.values.count = 0 := by
  obtain ⟨hdr, values⟩ := entry
  cases values <;> rfl

/-- `arg_reset` makes it one that was not used. -/
theorem OptionsOnly.fresh {table : ArgTable} (h : OptionsOnly table) :
    FreshTable (argReset table) where
  entries := by
    intro entry hentry
    obtain ⟨old, -, rfl⟩ := List.mem_map.mp hentry
    rw [ArgEntry.reset_count]
    exact Nat.zero_le _
  errors := h.errors
  tagged := by
    unfold Tagged argReset
    rw [List.map_map]
    exact h.tagged
  noErrors := rfl

theorem ArgValues.foldl_extend_count (binaryPrefix : Bool) (values : ArgValues)
    (more : List (Option (List UInt8))) :
    (more.foldl (extend binaryPrefix) values).count = values.count + more.length := by
  induction more generalizing values with
  | nil => rfl
  | cons value more ih =>
    rw [List.foldl_cons, ih, extend_count, List.length_cons]
    omega

section Accepts

variable (posixlyCorrect binaryPrefix : Bool)

/-- The items of a line are all the table can take, and all it asks for. -/
structure Complete (table : ArgTable) (r : Reading UInt8) : Prop where
  operands : r.operands = []
  acceptable : Acceptable binaryPrefix table r.items
  mandatory : ∀ tabindex entry, table.entries[tabindex]? = some entry →
    entry.hdr.mincount ≤ entry.values.count + (given table tabindex r.items).length

/-- What `arg_parse` returns on a line that has a reading. -/
theorem finish_reading {table : ArgTable} (hf : FreshTable table) (r : Reading UInt8) :
    (finishParse binaryPrefix (r.items.foldl (applyItem binaryPrefix) table)
        r.operands).entries = (r.items.foldl (applyItem binaryPrefix) table).entries ∧
      ((finishParse binaryPrefix (r.items.foldl (applyItem binaryPrefix) table)
        r.operands).endtable.errors = [] ↔ Complete binaryPrefix table r) := by
  have htagged : Tagged (r.items.foldl (applyItem binaryPrefix) table) := by
    unfold Tagged
    rw [foldl_hdrs]
    exact hf.tagged
  have hpos : 0 < (r.items.foldl (applyItem binaryPrefix) table).endtable.maxcount := by
    rw [foldl_maxcount]
    exact hf.errors
  obtain ⟨hentries, herrors⟩ := finishParse_errors binaryPrefix htagged hpos r.operands
  refine ⟨hentries, herrors.trans ?_⟩
  rw [foldl_errors_iff r.items hf.toRoomy hf.noErrors]
  constructor
  · rintro ⟨hacc, hop, hmin⟩
    refine ⟨hop, hacc, fun tabindex entry hget => ?_⟩
    have hvalues := foldl_values r.items hf.toRoomy hf.noErrors hacc tabindex
    rw [hget] at hvalues
    have := hmin _ (List.mem_of_getElem? hvalues)
    rwa [ArgValues.foldl_extend_count] at this
  · rintro ⟨hop, hacc, hmin⟩
    refine ⟨hacc, hop, fun entry hentry => ?_⟩
    obtain ⟨j, hj, hget⟩ := List.getElem_of_mem hentry
    have hget' := List.getElem?_eq_some_iff.mpr ⟨hj, hget⟩
    rw [foldl_values r.items hf.toRoomy hf.noErrors hacc j] at hget'
    obtain ⟨old, hold, rfl⟩ := Option.map_eq_some_iff.mp hget'
    have := hmin j old hold
    rwa [ArgValues.foldl_extend_count]

/-- `arg_parse` accepts a line just when it has a reading without operands, in which each
item is an option of the table with a value that its entry can take, no entry is given more
values than it has room for, and none fewer than it asks for; what the table held before does
not matter. -/
theorem argParse_accepts_iff (table : ArgTable) (ho : OptionsOnly table) (argv0 : CStr)
    (words : List CStr) :
    (∃ n t, argParse posixlyCorrect binaryPrefix n (argv0.1 :: plainWords words) table =
        .done t ∧ t.endtable.errors = []) ↔
      ∃ r, readWords (tableOptions table) (!posixlyCorrect) (plainWords words) = some r ∧
        Complete binaryPrefix (argReset table) r := by
  rcases hr : readWords (tableOptions table) (!posixlyCorrect) (plainWords words) with _ | r
  · refine iff_of_false ?_ ?_
    · rintro ⟨n, t, hdone, -⟩
      cases (argParse_of_none ho.scannable argv0.1 (plainWords_clean words) hr n).symm.trans hdone
    · rintro ⟨r, hsome, -⟩
      cases hsome
  · have hfinish := finish_reading binaryPrefix ho.fresh r
    constructor
    · rintro ⟨n, t, hdone, hnone⟩
      refine ⟨r, rfl, hfinish.2.mp ?_⟩
      rw [← argParse_result ho.scannable argv0.1 (plainWords_clean words) hr hdone]
      exact hnone
    · rintro ⟨r', hsome, hcomplete⟩
      obtain rfl := Option.some.inj hsome
      exact ⟨_, _, argParse_of_reading binaryPrefix ho.scannable argv0.1
        (plainWords_clean words) hr (Nat.lt_succ_self _), hfinish.2.mpr hcomplete⟩

end Accepts

theorem barcoTable_optionsOnly : OptionsOnly barcoTable where
  scannable := barcoTable_scannable
  tagged := by
    unfold Tagged
    decide
  errors := by decide

theorem barcoTable_fresh : FreshTable barcoTable :=
  argReset_barcoTable ▸ barcoTable_optionsOnly.fresh

def shLine : List CStr :=
  [⟨ascii "-u0", by decide⟩, ⟨ascii "--mnt=/", by decide⟩, ⟨ascii "-csh", by decide⟩]

theorem argParse_accepts_iff_sh :
    (∃ n t, argParse false true n (ascii "barco" :: plainWords shLine) barcoTable = .done t ∧
        t.endtable.errors = []) ∧
      ∃ r, readWords (tableOptions barcoTable) true (plainWords shLine) = some r ∧
        Complete true (argReset barcoTable) r := by
  have hends : (argParse false true 5 (ascii "barco" :: plainWords shLine) barcoTable).result.map
      (fun table => table.endtable.errors) = some [] := by decide +kernel
  obtain ⟨table, hdone, hnone⟩ := Option.map_eq_some_iff.mp hends
  have haccepts : ∃ n t, argParse false true n (ascii "barco" :: plainWords shLine) barcoTable =
      .done t ∧ t.endtable.errors = [] := ⟨5, table, Parsed.result_eq_some.mp hdone, hnone⟩
  exact ⟨haccepts, (argParse_accepts_iff false true barcoTable barcoTable_optionsOnly
    ⟨ascii "barco", by decide⟩ shLine).mp haccepts⟩

end Barco
