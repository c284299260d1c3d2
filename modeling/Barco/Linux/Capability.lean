import Mathlib.Data.Finset.Basic
import Mathlib.Data.Fintype.Defs
import Mathlib.Logic.Relation

/-!
# Capability sets of processes

The five capability sets of a process and the rules by which `execve`,
`capset` and the creation of processes and user namespaces change them, over
an arbitrary type of capabilities.

A process is confined by a set `D` when none of its sets meets `D`. Every
transition but the creation of a user namespace keeps a process confined
(`Step.confined`), and so does every run (`Steps.confined`). The bounding and
the inheritable set alone decide what the first `execve` leaves
(`confined_exec`).
-/

namespace Capability

/-- The capability sets of a process. -/
structure Sets (κ : Type) where
  permitted : Finset κ
  effective : Finset κ
  inheritable : Finset κ
  bounding : Finset κ
  ambient : Finset κ
deriving DecidableEq

/-- What an executable file contributes: its capability sets, its effective
bit, and whether it is privileged (set-id or with capabilities). A program run
by root counts as a file with full sets. -/
structure File (κ : Type) where
  permitted : Finset κ
  inheritable : Finset κ
  effective : Bool
  privileged : Bool

variable {κ : Type} [DecidableEq κ]

namespace Sets

/-- The sets after `execve` of a file. -/
def exec (s : Sets κ) (f : File κ) : Sets κ :=
  let ambient := if f.privileged then ∅ else s.ambient
  let permitted := (s.inheritable ∩ f.inheritable) ∪ (f.permitted ∩ s.bounding) ∪ ambient
  { permitted := permitted
    effective := if f.effective then permitted else ambient
    inheritable := s.inheritable
    bounding := s.bounding
    ambient := ambient }

/-- The sets after a `capset` the kernel accepts. Capabilities that leave the
permitted or the inheritable set leave the ambient set too. -/
def capset (s : Sets κ) (permitted effective inheritable : Finset κ) : Sets κ :=
  { permitted := permitted
    effective := effective
    inheritable := inheritable
    bounding := s.bounding
    ambient := s.ambient ∩ permitted ∩ inheritable }

/-- The kernel accepts a `capset` that adds nothing to the permitted set and
takes new inheritable capabilities from the bounding set. -/
def CapsetOk (s : Sets κ) (permitted effective inheritable : Finset κ) : Prop :=
  permitted ⊆ s.permitted ∧ effective ⊆ permitted ∧ inheritable ⊆ s.inheritable ∪ s.bounding

/-- `prctl(PR_CAPBSET_DROP)`. -/
def dropBounding (s : Sets κ) (c : κ) : Sets κ := { s with bounding := s.bounding.erase c }

/-- The creator of a user namespace has every capability in it. -/
def full [Fintype κ] : Sets κ := ⟨Finset.univ, Finset.univ, ∅, Finset.univ, ∅⟩

/-- No set of the process meets `D`. -/
structure Confined (D : Finset κ) (s : Sets κ) : Prop where
  permitted : Disjoint s.permitted D
  effective : Disjoint s.effective D
  inheritable : Disjoint s.inheritable D
  bounding : Disjoint s.bounding D
  ambient : Disjoint s.ambient D

/-- After `execve` a process is confined once its bounding, inheritable and
ambient sets were. -/
theorem confined_exec {D : Finset κ} {s : Sets κ} (hi : Disjoint s.inheritable D)
    (hb : Disjoint s.bounding D) (ha : Disjoint s.ambient D) (f : File κ) :
    (s.exec f).Confined D := by
  have hamb : Disjoint (if f.privileged then ∅ else s.ambient) D := by
    split
    · exact Finset.disjoint_empty_left D
    · exact ha
  have hperm : Disjoint (s.exec f).permitted D := by
    simp only [exec, Finset.disjoint_union_left]
    exact ⟨⟨hi.mono_left Finset.inter_subset_left, hb.mono_left Finset.inter_subset_right⟩, hamb⟩
  refine ⟨hperm, ?_, hi, hb, hamb⟩
  show Disjoint (if f.effective then (s.exec f).permitted else _) D
  split
  · exact hperm
  · exact hamb

theorem Confined.capset {D : Finset κ} {s : Sets κ} (h : s.Confined D)
    {permitted effective inheritable : Finset κ} (hok : s.CapsetOk permitted effective inheritable) :
    (s.capset permitted effective inheritable).Confined D := by
  obtain ⟨hp, he, hi⟩ := hok
  refine ⟨h.permitted.mono_left hp, h.permitted.mono_left (he.trans hp), ?_, h.bounding, ?_⟩
  · exact (Finset.disjoint_union_left.mpr ⟨h.inheritable, h.bounding⟩).mono_left hi
  · refine h.ambient.mono_left ?_
    exact Finset.inter_subset_left.trans Finset.inter_subset_left

end Sets

/-! ## Processes and namespaces -/

/-- A process: the user namespace it is in, and its sets there. -/
structure Proc (κ : Type) where
  userns : Nat
  sets : Sets κ
deriving DecidableEq

/-- What a process can do to capability sets. The flag of the creating actions
says whether they ask for a new user namespace. -/
inductive Action (κ : Type)
  | execve (file : File κ)
  | capset (permitted effective inheritable : Finset κ)
  /-- a new process -/
  | spawn (newUser : Bool)
  /-- the caller itself moves -/
  | unshare (newUser : Bool)

variable [Fintype κ]

/-- One action of the process at position `i`. A new user namespace gets a
number that no process uses. -/
inductive Step (i : Nat) : Action κ → List (Proc κ) → List (Proc κ) → Prop
  | execve {ps : List (Proc κ)} {p : Proc κ} (f : File κ) :
      ps[i]? = some p → Step i (.execve f) ps (ps.set i ⟨p.userns, p.sets.exec f⟩)
  | capset {ps : List (Proc κ)} {p : Proc κ} {permitted effective inheritable : Finset κ} :
      ps[i]? = some p → p.sets.CapsetOk permitted effective inheritable →
      Step i (.capset permitted effective inheritable) ps
        (ps.set i ⟨p.userns, p.sets.capset permitted effective inheritable⟩)
  | spawn {ps : List (Proc κ)} {p : Proc κ} :
      ps[i]? = some p → Step i (.spawn false) ps (ps ++ [p])
  | spawnUser {ps : List (Proc κ)} {p : Proc κ} (ns : Nat) :
      ps[i]? = some p → (∀ q ∈ ps, q.userns ≠ ns) →
      Step i (.spawn true) ps (ps ++ [⟨ns, .full⟩])
  | unshare {ps : List (Proc κ)} {p : Proc κ} :
      ps[i]? = some p → Step i (.unshare false) ps ps
  | unshareUser {ps : List (Proc κ)} {p : Proc κ} (ns : Nat) :
      ps[i]? = some p → (∀ q ∈ ps, q.userns ≠ ns) →
      Step i (.unshare true) ps (ps.set i ⟨ns, .full⟩)

/-- The action asks for a new user namespace. -/
def Action.newUser : Action κ → Bool
  | .spawn b | .unshare b => b
  | .execve _ | .capset _ _ _ => false

/-- One action that creates no user namespace keeps every process confined. -/
theorem Step.confined {D : Finset κ} {i : Nat} {a : Action κ} {ps qs : List (Proc κ)}
    (h : Step i a ps qs) (hu : a.newUser = false) (hps : ∀ p ∈ ps, p.sets.Confined D) :
    ∀ q ∈ qs, q.sets.Confined D := by
  intro q hq
  cases h with
  | execve f hi =>
    have hp := hps _ (List.mem_of_getElem? hi)
    rcases List.mem_or_eq_of_mem_set hq with hq | rfl
    · exact hps q hq
    · exact Sets.confined_exec hp.inheritable hp.bounding hp.ambient f
  | capset hi hok =>
    rcases List.mem_or_eq_of_mem_set hq with hq | rfl
    · exact hps q hq
    · exact (hps _ (List.mem_of_getElem? hi)).capset hok
  | spawn hi =>
    rcases List.mem_append.mp hq with hq | hq
    · exact hps q hq
    · rw [List.mem_singleton.mp hq]
      exact hps _ (List.mem_of_getElem? hi)
  | spawnUser _ hi hf => simp [Action.newUser] at hu
  | unshare hi => exact hps q hq
  | unshareUser _ hi hf => simp [Action.newUser] at hu

/-- The process lists that actions of a given kind can lead to. -/
def Steps (may : Action κ → Prop) : List (Proc κ) → List (Proc κ) → Prop :=
  Relation.ReflTransGen fun ps qs => ∃ i a, may a ∧ Step i a ps qs

/-- Every run without a new user namespace keeps every process confined. -/
theorem Steps.confined {may : Action κ → Prop} {D : Finset κ} {ps qs : List (Proc κ)}
    (h : Steps may ps qs) (hmay : ∀ a, may a → a.newUser = false)
    (hps : ∀ p ∈ ps, p.sets.Confined D) : ∀ q ∈ qs, q.sets.Confined D := by
  induction h with
  | refl => exact hps
  | tail _ hs ih =>
    obtain ⟨i, a, ha, hstep⟩ := hs
    exact hstep.confined (hmay a ha) ih

end Capability
