import Mathlib.Algebra.GroupWithZero.Nat
import Mathlib.Data.List.Basic

/-!
# System call filters made of masked rules

A filter is a list of rules and a default action. A rule fires iff the system
call number and all its masked comparisons match; the first rule that fires
gives the action. The comparison of a single bit with itself is a bit test.
-/

namespace Seccomp

/-- For the numerals of the registers. -/
instance registersNeZero : NeZero 6 := ⟨Nat.succ_ne_zero 5⟩

/-- `(arg & mask) == datum` on 64 bits. -/
structure ArgCmp where
  arg : Fin 6
  mask : BitVec 64
  datum : BitVec 64
deriving DecidableEq, Repr

structure Rule (A : Type) where
  action : A
  nr : Nat
  args : List ArgCmp
deriving DecidableEq, Repr

structure Filter (A : Type) where
  fallback : A
  rules : List (Rule A)
deriving DecidableEq, Repr

/-- The six argument registers. -/
abbrev Regs : Type := Fin 6 → BitVec 64

variable {A : Type}

def ArgCmp.holds (c : ArgCmp) (regs : Regs) : Bool := regs c.arg &&& c.mask = c.datum

def Rule.fires (rule : Rule A) (nr : Nat) (regs : Regs) : Bool :=
  nr = rule.nr && rule.args.all (·.holds regs)

theorem Rule.fires_iff (rule : Rule A) (nr : Nat) (regs : Regs) :
    rule.fires nr regs = true ↔
      nr = rule.nr ∧ ∀ c ∈ rule.args, regs c.arg &&& c.mask = c.datum := by
  simp [fires, ArgCmp.holds]

def Filter.eval (f : Filter A) (nr : Nat) (regs : Regs) : A :=
  match f.rules.find? (·.fires nr regs) with
  | some rule => rule.action
  | none => f.fallback

/-- When all rules have one action, the filter is a disjunction of its rules. -/
theorem Filter.eval_eq_of_uniform {f : Filter A} {a : A} (h : ∀ rule ∈ f.rules, rule.action = a)
    (nr : Nat) (regs : Regs) :
    f.eval nr regs = if f.rules.any (·.fires nr regs) then a else f.fallback := by
  unfold Filter.eval
  cases hf : f.rules.find? (·.fires nr regs) with
  | none =>
    have hnone : f.rules.any (·.fires nr regs) = false := by
      rw [List.any_eq_false]
      exact fun rule hr => List.find?_eq_none.mp hf rule hr
    simp [hnone]
  | some rule =>
    have hfires : rule.fires nr regs = true := by simpa using List.find?_some hf
    have hmem : rule ∈ f.rules := List.mem_of_find?_eq_some hf
    have hany : f.rules.any (·.fires nr regs) = true := List.any_eq_true.mpr ⟨rule, hmem, hfires⟩
    simp [hany, h rule hmem]

/-- Comparing a single bit with itself under its own mask tests that bit. -/
theorem masked_bit {v : BitVec 64} {i : Nat} (hi : i < 64) (hv : v = BitVec.twoPow 64 i)
    (x : BitVec 64) : x &&& v = v ↔ x &&& v ≠ 0 := by
  subst hv
  have hne : BitVec.twoPow 64 i ≠ 0#64 := by
    intro h
    have := congrArg (·.getLsbD i) h
    simp [hi] at this
  rw [BitVec.and_twoPow]
  split
  · exact ⟨fun _ => hne, fun _ => rfl⟩
  · exact ⟨fun h => absurd h.symm hne, fun h => absurd rfl h⟩

end Seccomp
