import Mathlib.Data.List.Basic

/-!
# Ids in a user namespace

A process has three user ids, three group ids and a list of supplementary groups. The
kernel holds them as ids of the initial namespace. A map file of a namespace says which of
them have a name inside; a call that sets an id takes the inside name, and an id of all
ones leaves the old one.
-/

namespace UserNs

/-! ## Maps -/

/-- A line of a map file. -/
structure Range where
  inside : Nat
  outside : Nat
  count : Nat
deriving DecidableEq, Repr

namespace Range

variable {m : Range} {id host : Nat}

/-- The host's id of an id inside. -/
def toHost (m : Range) (id : Nat) : Option Nat :=
  if m.inside ≤ id ∧ id < m.inside + m.count then some (m.outside + (id - m.inside)) else none

/-- The name inside of a host's id. -/
def toInside (m : Range) (host : Nat) : Option Nat :=
  if m.outside ≤ host ∧ host < m.outside + m.count then some (m.inside + (host - m.outside))
  else none

theorem toHost_eq_some :
    m.toHost id = some host ↔
      (m.inside ≤ id ∧ id < m.inside + m.count) ∧ m.outside + (id - m.inside) = host := by
  simp [toHost]

end Range

/-- The number that decimal digits stand for. -/
def number (digits : List UInt8) : Option Nat :=
  if digits ≠ [] ∧ digits.all (fun d => 48 ≤ d && d ≤ 57) then
    some (digits.foldl (fun n d => n * 10 + (d.toNat - 48)) 0)
  else none

/-- Three numbers with blanks between them, up to the end of the line. -/
def parseLine (line : List UInt8) : Option Range :=
  match (line.takeWhile (· ≠ 10)).splitOn 32 with
  | [inside, outside, count] => do
    return ⟨← number inside, ← number outside, ← number count⟩
  | _ => none

/-! ## Identities -/

/-- Real, effective and saved id, as host ids. -/
structure Ids where
  real : Nat
  effective : Nat
  saved : Nat
deriving DecidableEq, Repr

namespace Ids

def all (ids : Ids) : List Nat := [ids.real, ids.effective, ids.saved]

/-- One id for all three. -/
def uniform (host : Nat) : Ids := ⟨host, host, host⟩

theorem eq_of_mem_uniform {host id : Nat} (h : id ∈ (uniform host).all) : id = host := by
  simpa only [all, uniform, List.mem_cons, List.not_mem_nil, or_false, or_self] using h

end Ids

/-- `(uid_t) -1` -/
def noChange : UInt32 := 0xFFFFFFFF

/-- The ids that a call can set: `-1` and those with a host id. -/
def Settable (toHost : UInt32 → Option Nat) (id : UInt32) : Prop :=
  id = noChange ∨ (toHost id).isSome

instance (toHost : UInt32 → Option Nat) (id : UInt32) : Decidable (Settable toHost id) :=
  inferInstanceAs (Decidable (_ ∨ _))

/-- One id after a call. -/
def pick (toHost : UInt32 → Option Nat) (id : UInt32) (old : Nat) : Nat :=
  if id = noChange then old else (toHost id).getD old

/-- The three ids after a call that sets them. -/
def Ids.set (ids : Ids) (toHost : UInt32 → Option Nat) (r e s : UInt32) : Ids :=
  ⟨pick toHost r ids.real, pick toHost e ids.effective, pick toHost s ids.saved⟩

/-- Setting all three to one id that has a host id. -/
theorem Ids.set_uniform {ids : Ids} {toHost : UInt32 → Option Nat} {id : UInt32} {host : Nat}
    (hid : id ≠ noChange) (h : toHost id = some host) :
    ids.set toHost id id id = uniform host := by
  simp only [set, pick, if_neg hid, h, Option.getD_some, uniform]

/-- What the kernel knows a process by. -/
structure Creds where
  uid : Ids
  gid : Ids
  groups : List Nat
deriving DecidableEq, Repr

/-- Every host id that the process has. -/
def Creds.hosts (c : Creds) : List Nat := c.uid.all ++ (c.gid.all ++ c.groups)

end UserNs
