import Mathlib.Data.List.Basic

/-!
# Rule chains with owners

A chain is a list of rules. A rule is added at the end, and the first one of a kind
is deleted, whoever added it. Each entry is marked with the process that added it, or
with nobody; the marks are read by proofs only.

`entries l x` are the entries of the rule `x`. Adding and deleting are described by
what they do to the entries of each rule and to the rules nobody added.
-/

namespace RuleChain

variable {ρ ι : Type}

/-- Rules with who added them. -/
abbrev Rules (ρ ι : Type) : Type := List (ρ × Option ι)

def Has (l : Rules ρ ι) (x : ρ) : Prop := ∃ o, (x, o) ∈ l

def add (l : Rules ρ ι) (i : ι) (x : ρ) : Rules ρ ι := l ++ [(x, some i)]

/-- The rules that nobody added, in order. -/
def unowned (l : Rules ρ ι) : List ρ := (l.filter fun e => e.2.isNone).map Prod.fst

theorem unowned_add (l : Rules ρ ι) (i : ι) (x : ρ) : unowned (add l i x) = unowned l := by
  simp [unowned, add]

/-- Without owned rules the chain is what nobody added. -/
theorem eq_unowned {l : Rules ρ ι} (h : ∀ e ∈ l, e.2 = none) : l.map Prod.fst = unowned l := by
  rw [unowned, List.filter_eq_self.mpr fun e he => by simp [h e he]]

variable [DecidableEq ρ]

/-- Delete the first entry of the rule. -/
def delete (l : Rules ρ ι) (x : ρ) : Rules ρ ι := l.eraseP fun e => e.1 = x

/-- The entry that would be deleted. -/
def first? (l : Rules ρ ι) (x : ρ) : Option (ρ × Option ι) := l.find? fun e => e.1 = x

def entries (l : Rules ρ ι) (x : ρ) : Rules ρ ι := l.filter fun e => e.1 = x

variable {l : Rules ρ ι} {i : ι} {x : ρ}

theorem mem_entries {e : ρ × Option ι} : e ∈ entries l x ↔ e ∈ l ∧ e.1 = x := by
  simp [entries]

theorem entries_eq_nil : entries l x = [] ↔ ¬ Has l x := by
  constructor
  · rintro h ⟨o, ho⟩
    exact absurd (h ▸ mem_entries.mpr ⟨ho, rfl⟩) List.not_mem_nil
  · intro h
    refine List.eq_nil_iff_forall_not_mem.mpr fun e he => ?_
    obtain ⟨hmem, rfl⟩ := mem_entries.mp he
    exact h ⟨e.2, hmem⟩

instance (l : Rules ρ ι) (x : ρ) : Decidable (Has l x) :=
  decidable_of_iff (∃ e ∈ l, e.1 = x) ⟨fun ⟨e, he, hx⟩ => ⟨e.2, hx ▸ he⟩, fun ⟨_, ho⟩ => ⟨_, ho, rfl⟩⟩

theorem first?_eq_head? (l : Rules ρ ι) (x : ρ) : first? l x = (entries l x).head? :=
  List.head?_filter.symm

theorem entries_add (l : Rules ρ ι) (i : ι) (x y : ρ) :
    entries (add l i x) y = entries l y ++ if x = y then [(x, some i)] else [] := by
  rw [entries, add, List.filter_append]
  by_cases h : x = y
  · simp [entries, h]
  · simp [entries, h]

/-- Deleting takes the first entry of the rule, and no entry of another one. -/
theorem entries_delete (l : Rules ρ ι) (x y : ρ) :
    entries (delete l x) y = if x = y then (entries l x).tail else entries l y := by
  induction l with
  | nil => simp [entries, delete]
  | cons e l ih =>
    by_cases he : e.1 = x
    · have hdel : delete (e :: l) x = l := by simp [delete, he]
      rw [hdel]
      by_cases hxy : x = y
      · subst hxy
        simp [entries, he]
      · have hey : e.1 ≠ y := fun h => hxy (he.symm.trans h)
        simp [entries, hxy, hey]
    · have hdel : delete (e :: l) x = e :: delete l x := by simp [delete, he]
      have hcons : ∀ (l : Rules ρ ι) z, entries (e :: l) z =
          if e.1 = z then e :: entries l z else entries l z := fun l z => by
        by_cases h : e.1 = z <;> simp [entries, h]
      rw [hdel, hcons, hcons, hcons, ih]
      by_cases hxy : x = y
      · subst hxy
        simp [he]
      · simp [hxy]

/-- Deleting a rule that a process added first leaves the others' rules alone. -/
theorem unowned_delete (h : first? l x = some (x, some i)) : unowned (delete l x) = unowned l := by
  induction l with
  | nil => rfl
  | cons e l ih =>
    by_cases he : e.1 = x
    · have hfirst : first? (e :: l) x = some e := by simp [first?, he]
      obtain rfl : e = (x, some i) := Option.some.inj (hfirst.symm.trans h)
      simp [unowned, delete]
    · have hfirst : first? (e :: l) x = first? l x := by simp [first?, he]
      have hdel : delete (e :: l) x = e :: delete l x := by simp [delete, he]
      rw [hdel]
      simp only [unowned, List.filter_cons]
      have hrest := ih (hfirst.symm.trans h)
      simp only [unowned] at hrest
      split <;> simp [hrest]

end RuleChain
