import Mathlib.Logic.Function.Basic
import Mathlib.Data.List.Basic

/-!
# A hierarchy of control groups

One level of directories with a group of processes behind each. A directory can be removed
when its group has no member, and what is made under the same name afterwards is another
group: whoever has a control file of the old one open still refers to that.

`Hierarchy` carries what no operation can break. All members of a group are alive, since a
process leaves its group when it ends, and a group that a directory stands for has a number
below the next one.
-/

namespace ControlGroup

/-- What a process number stands for. -/
inductive Proc
  | free
  | alive
  /-- it has ended and has not been waited for -/
  | zombie
deriving DecidableEq, Repr

/-- Who made the group, what was written to its control files, and the processes in it. -/
structure Group (Owner Setting : Type) where
  owner : Option Owner
  written : List Setting
  members : List Nat

structure Hierarchy (Name Owner Setting : Type) where
  dirs : Name → Option Nat
  groups : Nat → Group Owner Setting
  next : Nat
  procs : Nat → Proc
  known : ∀ {name id}, dirs name = some id → id < next
  live : ∀ {id p}, p ∈ (groups id).members → procs p = .alive

namespace Hierarchy

variable {Name Owner Setting : Type}

/-! ## Directories -/

section Directories

variable [DecidableEq Name]

/-- A new directory, with a new group. -/
def make (h : Hierarchy Name Owner Setting) (name : Name) (owner : Owner) :
    Hierarchy Name Owner Setting where
  dirs := Function.update h.dirs name (some h.next)
  groups := Function.update h.groups h.next ⟨some owner, [], []⟩
  next := h.next + 1
  procs := h.procs
  known {name' id} hid := by
    by_cases hname : name' = name
    · subst hname
      rw [Function.update_self] at hid
      have := Option.some.inj hid
      omega
    · rw [Function.update_of_ne hname] at hid
      have := h.known hid
      omega
  live {id p} hp := by
    by_cases hid : id = h.next
    · subst hid
      rw [Function.update_self] at hp
      cases hp
    · rw [Function.update_of_ne hid] at hp
      exact h.live hp

/-- The directory goes; the group is left to those who refer to it. -/
def remove (h : Hierarchy Name Owner Setting) (name : Name) : Hierarchy Name Owner Setting where
  dirs := Function.update h.dirs name none
  groups := h.groups
  next := h.next
  procs := h.procs
  known {name' id} hid := by
    by_cases hname : name' = name
    · subst hname
      rw [Function.update_self] at hid
      cases hid
    · rw [Function.update_of_ne hname] at hid
      exact h.known hid
  live := h.live

variable {h : Hierarchy Name Owner Setting} {name : Name} {owner : Owner} {id : Nat}

@[simp] theorem make_dirs_self : (h.make name owner).dirs name = some h.next :=
  Function.update_self ..

@[simp] theorem make_groups_self : (h.make name owner).groups h.next = ⟨some owner, [], []⟩ :=
  Function.update_self ..

@[simp] theorem make_procs : (h.make name owner).procs = h.procs := rfl

/-- Who is in a group was there before. -/
theorem make_members {p : Nat} (hp : p ∈ ((h.make name owner).groups id).members) :
    p ∈ (h.groups id).members ∧ (h.make name owner).groups id = h.groups id := by
  by_cases hid : id = h.next
  · subst hid
    rw [make_groups_self] at hp
    cases hp
  · have hsame : (h.make name owner).groups id = h.groups id := Function.update_of_ne hid ..
    exact ⟨hsame ▸ hp, hsame⟩

@[simp] theorem remove_dirs_self : (h.remove name).dirs name = none := Function.update_self ..

@[simp] theorem remove_groups : (h.remove name).groups = h.groups := rfl

@[simp] theorem remove_procs : (h.remove name).procs = h.procs := rfl

end Directories

/-! ## Processes and settings -/

/-- A process comes to be under a number. -/
def fork (h : Hierarchy Name Owner Setting) (p : Nat) : Hierarchy Name Owner Setting where
  dirs := h.dirs
  groups := h.groups
  next := h.next
  procs := Function.update h.procs p .alive
  known := h.known
  live {id q} hq := by
    by_cases hqp : q = p
    · subst hqp
      exact Function.update_self ..
    · rw [Function.update_of_ne hqp]
      exact h.live hq

/-- The number of a process that has ended becomes free. -/
def reap (h : Hierarchy Name Owner Setting) (p : Nat) : Hierarchy Name Owner Setting where
  dirs := h.dirs
  groups := h.groups
  next := h.next
  procs := if h.procs p = .zombie then Function.update h.procs p .free else h.procs
  known := h.known
  live {id q} hq := by
    split
    · rename_i hzombie
      have hqp : q ≠ p := by
        rintro rfl
        exact nomatch (h.live hq).symm.trans hzombie
      rw [Function.update_of_ne hqp]
      exact h.live hq
    · exact h.live hq

/-- A process ends and leaves its group. -/
def exit (h : Hierarchy Name Owner Setting) (p : Nat) : Hierarchy Name Owner Setting where
  dirs := h.dirs
  groups id := { h.groups id with members := (h.groups id).members.filter (· ≠ p) }
  next := h.next
  procs := Function.update h.procs p .zombie
  known := h.known
  live {id q} hq := by
    obtain ⟨hq, hne⟩ := List.mem_filter.mp hq
    rw [Function.update_of_ne (of_decide_eq_true hne)]
    exact h.live hq

/-- The processes that a write brings into a group: the one it names, if it is alive. -/
def joining (h : Hierarchy Name Owner Setting) (member : Option Nat) : List Nat :=
  (member.filter (h.procs · = .alive)).toList

theorem mem_joining {h : Hierarchy Name Owner Setting} {member : Option Nat} {p : Nat} :
    p ∈ h.joining member ↔ member = some p ∧ h.procs p = .alive := by
  rw [joining, Option.mem_toList, Option.filter_eq_some_iff, decide_eq_true_iff]

/-- A control file of a group is written. A process that comes into the group with it leaves
the one it was in. -/
def write (h : Hierarchy Name Owner Setting) (id : Nat) (x : Setting) (member : Option Nat) :
    Hierarchy Name Owner Setting where
  dirs := h.dirs
  groups k := { h.groups k with
    written := if k = id then (h.groups k).written ++ [x] else (h.groups k).written
    members := if k = id then h.joining member ++ (h.groups k).members
      else (h.groups k).members.filter (· ∉ h.joining member) }
  next := h.next
  procs := h.procs
  known := h.known
  live {k p} hp := by
    split at hp
    · rcases List.mem_append.mp hp with hp | hp
      · exact (mem_joining.mp hp).2
      · exact h.live hp
    · exact h.live (List.mem_of_mem_filter hp)

variable {h : Hierarchy Name Owner Setting} {id k p : Nat} {x : Setting} {member : Option Nat}

@[simp] theorem write_owner : ((h.write id x member).groups k).owner = (h.groups k).owner := rfl

@[simp] theorem write_written_self :
    ((h.write id x member).groups id).written = (h.groups id).written ++ [x] := if_pos rfl

/-- A member of a group was one, or comes into it. -/
theorem write_members (hp : p ∈ ((h.write id x member).groups k).members) :
    p ∈ (h.groups k).members ∨ k = id ∧ p ∈ h.joining member := by
  change p ∈ (if k = id then _ else _) at hp
  split at hp
  · exact (List.mem_append.mp hp).symm.imp_right fun hp => ⟨‹_›, hp⟩
  · exact .inl (List.mem_of_mem_filter hp)

theorem joining_mem (hp : p ∈ h.joining member) :
    p ∈ ((h.write id x member).groups id).members := by
  change p ∈ (if id = id then _ else _)
  rw [if_pos rfl]
  exact List.mem_append_left _ hp

/-- A member stays, unless it comes into another group. -/
theorem mem_write (hp : p ∈ (h.groups k).members) (hk : k = id ∨ p ∉ h.joining member) :
    p ∈ ((h.write id x member).groups k).members := by
  change p ∈ (if k = id then _ else _)
  split
  · exact List.mem_append_right _ hp
  · exact List.mem_filter.mpr ⟨hp, decide_eq_true (hk.resolve_left ‹_›)⟩

end Hierarchy

end ControlGroup
