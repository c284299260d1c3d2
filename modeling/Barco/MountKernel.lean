import Barco.Linux.MountTree
import Barco.Mount

/-!
# The kernel under `mount_set`

The calls of `mount.c` on the mount tree of the process. A failure pattern says which calls,
counted from the first, fail whatever they ask for, and with which errno. Any other call does
what it asks for when it can and fails when it cannot; which new name, directory or mount it
takes is up to the kernel.

A state also tells the directories that `mkdtemp` has made, those whose removal has failed,
and what the last bind mount was made from. `MS_PRIVATE` changes nothing that is looked at
here: there is one tree of mounts, and nothing is propagated to it.
-/

namespace Barco

open Effect Prog MountTree

variable {Mnt Dir : Type} [DecidableEq Mnt] [DecidableEq Dir]

structure MountState (Mnt Dir : Type) where
  tree : Tree Mnt Dir
  calls : Nat
  /-- a call has failed -/
  failed : Bool
  /-- the directories that `mkdtemp` has made, with their paths -/
  made : List (CStr × Dir)
  /-- the directories that `rmdir` was called for and has failed to remove -/
  refused : Dir → Prop
  /-- the source of the last bind mount, and the place that it named -/
  bound : Option (CStr × Loc Mnt Dir)

namespace MountState

def start (tree : Tree Mnt Dir) : MountState Mnt Dir := ⟨tree, 0, false, [], fun _ => False, none⟩

variable (s s' : MountState Mnt Dir)

/-- `MS_BIND`: a new mount of what the source names. -/
def BindsMount (source target : CStr) : Prop :=
  ∃ (S T : Loc Mnt Dir) (m : Mnt) (hS : s.tree.Names source.1 S) (hT : s.tree.Names target.1 T)
    (hm : ¬ s.tree.mounts m),
    s' = { s with
      tree := s.tree.attach T m S.dir hT.known hm hS.known.2
      bound := some (source, S) }

/-- `MS_PRIVATE`: for mount points only. -/
def SetsPrivate (target : CStr) : Prop :=
  (∃ T, s.tree.Names target.1 T ∧ T.dir = s.tree.top T.mnt) ∧ s' = s

/-- The root of a new file system. -/
def MountsNew (target : CStr) : Prop :=
  ∃ (T : Loc Mnt Dir) (m : Mnt) (d : Dir) (hT : s.tree.Names target.1 T)
    (hm : ¬ s.tree.mounts m), ¬ s.tree.dirs d ∧
    s' = { s with
      tree := (s.tree.newRoot d).attach T m d ⟨hT.known.1, .inl hT.known.2⟩ hm (.inr rfl) }

def Mounts (source : Option CStr) (target : CStr) (flags : Nat) : Prop :=
  if flags &&& MS_BIND ≠ 0 then ∃ path, source = some path ∧ s.BindsMount s' path target
  else if flags &&& MS_PRIVATE ≠ 0 then s.SetsPrivate s' target
  else s.MountsNew s' target

/-- The `X`s of the template make room for a name that was not there. -/
def MakesTemp (template : CStr) (x : Suffix) : Prop :=
  template.1.drop (template.1.length - 6) = ascii "XXXXXX" ∧
  ∃ (P : Loc Mnt Dir) (n : Name) (d : Dir) (hP : s.tree.NamesIn (template.withSuffix x).1 P n),
    ¬ s.tree.dirs d ∧ s.tree.entry P.dir n = none ∧
    s' = { s with
      tree := s.tree.make P.dir n d hP.known.2
      made := s.made ++ [(template.withSuffix x, d)] }

/-- The new root is a mount other than the old one, and what will hold the old root lies under
it. Both mounts lie somewhere, and the process's root is the top of its mount. -/
def Pivots (newRoot putOld : CStr) : Prop :=
  ∃ (N O base : Loc Mnt Dir) (hN : s.tree.Names newRoot.1 N) (hO : s.tree.Names putOld.1 O)
    (hbase : s.tree.on base = some s.tree.root.mnt) (hne : N.mnt ≠ s.tree.root.mnt),
    s.tree.root.dir = s.tree.top s.tree.root.mnt ∧ N.dir = s.tree.top N.mnt ∧
    (∃ l, s.tree.on l = some N.mnt) ∧ O.mnt ≠ s.tree.root.mnt ∧ s.tree.Under N.mnt O.mnt ∧
    s' = { s with tree := s.tree.pivot N.mnt O base hN.known.1 hO.known hbase hne }

def ChangesDir (path : CStr) : Prop :=
  ∃ (l : Loc Mnt Dir) (h : s.tree.Names path.1 l), s' = { s with tree := s.tree.goTo l h.known }

/-- A mount point; without `MNT_DETACH` nothing may lie on it. -/
def Unmounts (target : CStr) (flags : Nat) : Prop :=
  ∃ l, s.tree.Names target.1 l ∧ l.dir = s.tree.top l.mnt ∧
    (flags &&& MNT_DETACH = 0 → ∀ d, s.tree.on ⟨l.mnt, d⟩ = none) ∧
    s' = { s with tree := s.tree.detach l.mnt }

/-- The path is a name of the directory `d`. -/
def Points (path : CStr) (d : Dir) : Prop :=
  ∃ l n, s.tree.NamesIn path.1 l n ∧ s.tree.entry l.dir n = some (.dir d)

/-- The directory is empty and no mount point. -/
def Removes (path : CStr) : Prop :=
  ∃ l n d, s.tree.NamesIn path.1 l n ∧ s.tree.entry l.dir n = some (.dir d) ∧
    (∀ k, s.tree.entry d k = none) ∧ (∀ m, s.tree.on ⟨m, d⟩ = none) ∧
    s' = { s with tree := s.tree.unlink l.dir n }

/-- A call does what it asks for. -/
def Grants : (c : Call) → Answer c → Prop
  | .mount source target _ flags, .ok _ => s.Mounts s' source target flags
  | .mkdtemp template, .ok x => s.MakesTemp s' template x
  | .pivotRoot newRoot putOld, .ok _ => s.Pivots s' newRoot putOld
  | .chdir path, .ok _ => s.ChangesDir s' path
  | .umount2 target flags, .ok _ => s.Unmounts s' target flags
  | .rmdir (.raw path), .ok _ => s.Removes s' path
  | _, _ => False

/-- A call that does what it asks for has not failed. -/
theorem Grants.failed {s s' : MountState Mnt Dir} {c : Call} {r : Answer c}
    (h : s.Grants s' c r) : s'.failed = s.failed := by
  cases c with
  | mount source target fstype flags =>
    cases r with
    | error e => exact h.elim
    | ok u =>
      change s.Mounts s' source target flags at h
      unfold Mounts at h
      split at h
      · obtain ⟨path, -, S, T, m, hS, hT, hm, rfl⟩ := h
        rfl
      · split at h
        · rw [h.2]
        · obtain ⟨T, m, d, hT, hm, -, rfl⟩ := h
          rfl
  | mkdtemp template =>
    cases r with
    | error e => exact h.elim
    | ok x =>
      obtain ⟨-, P, n, d, hP, -, -, rfl⟩ := h
      rfl
  | pivotRoot newRoot putOld =>
    cases r with
    | error e => exact h.elim
    | ok u =>
      obtain ⟨N, O, base, hN, hO, hbase, hne, -, -, -, -, -, rfl⟩ := h
      rfl
  | chdir path =>
    cases r with
    | error e => exact h.elim
    | ok u =>
      obtain ⟨l, hl, rfl⟩ := h
      rfl
  | umount2 target flags =>
    cases r with
    | error e => exact h.elim
    | ok u =>
      obtain ⟨l, -, -, -, rfl⟩ := h
      rfl
  | rmdir path =>
    cases path with
    | raw path =>
      cases r with
      | error e => exact h.elim
      | ok u =>
        obtain ⟨l, n, d, -, -, -, -, rfl⟩ := h
        rfl
    | _ => exact (nomatch h)
  | _ => exact (nomatch h)

end MountState

/-- A call of `mount.c` fails. -/
def refusal : (c : Call) → Errno → Option (Answer c)
  | .mount _ _ _ _, e => some (.error e)
  | .mkdtemp _, e => some (.error e)
  | .pivotRoot _ _, e => some (.error e)
  | .chdir _, e => some (.error e)
  | .umount2 _ _, e => some (.error e)
  | .rmdir _, e => some (.error e)
  | _, _ => none

namespace MountState

/-- After a call that has failed. -/
def fail (s : MountState Mnt Dir) (c : Call) : MountState Mnt Dir :=
  { s with
    calls := s.calls + 1
    failed := true
    refused := fun d => s.refused d ∨ ∃ path, c = .rmdir (.raw path) ∧ s.Points path d }

/-- The call can be done. -/
def Can (s : MountState Mnt Dir) (c : Call) : Prop := ∃ r s', s.Grants s' c r

end MountState

/-- The kernel with a failure pattern. -/
def mountKernel (fails : Nat → Option Errno) : Machine Call Answer (MountState Mnt Dir) where
  may _ c := (refusal c 0).isSome
  step s c r s' := match fails s.calls with
    | some e => refusal c e = some r ∧ s' = s.fail c
    | none => (∃ s₁, s.Grants s₁ c r ∧ s' = { s₁ with calls := s.calls + 1 }) ∨
      ¬ s.Can c ∧ ∃ e, refusal c e = some r ∧ s' = s.fail c

/-- The call fails, being the `n`-th. -/
def FailsAt (fails : Nat → Option Errno) (s : MountState Mnt Dir) (n : Nat) (c : Call) : Prop :=
  fails n ≠ none ∨ ¬ s.Can c

variable {fails : Nat → Option Errno} {P : MountState Mnt Dir → Call → Prop}
  {s s₁ : MountState Mnt Dir} {c : Call}

theorem refusal_isSome (h : (refusal c 0).isSome) (e : Errno) : ∃ r, refusal c e = some r := by
  cases c with
  | mount => exact ⟨_, rfl⟩
  | mkdtemp => exact ⟨_, rfl⟩
  | pivotRoot => exact ⟨_, rfl⟩
  | chdir => exact ⟨_, rfl⟩
  | umount2 => exact ⟨_, rfl⟩
  | rmdir => exact ⟨_, rfl⟩
  | _ => exact nomatch h

theorem mountKernel_grants {r : Answer c} (hnone : fails s.calls = none) (h : s.Grants s₁ c r) :
    (mountKernel fails).step s c r { s₁ with calls := s.calls + 1 } := by
  simp only [mountKernel, hnone]
  exact .inl ⟨s₁, h, rfl⟩

theorem mountKernel_refuses (hmay : (refusal c 0).isSome) (h : FailsAt fails s s.calls c) :
    ∃ r, (mountKernel fails).step s c r (s.fail c) := by
  cases hf : fails s.calls with
  | some e =>
    obtain ⟨r, hr⟩ := refusal_isSome hmay e
    refine ⟨r, ?_⟩
    simpa only [mountKernel, hf, and_true] using hr
  | none =>
    obtain ⟨r, hr⟩ := refusal_isSome hmay 0
    refine ⟨r, ?_⟩
    simp only [mountKernel, hf, and_true]
    exact .inr ⟨h.resolve_left (absurd hf), 0, hr⟩

/-- The kernel answers every call of `mount.c`. -/
theorem mountKernel_answers (s : MountState Mnt Dir) (c : Call)
    (hmay : (mountKernel fails).may s c) : ∃ r s', (mountKernel fails).step s c r s' := by
  by_cases h : FailsAt fails s s.calls c
  · obtain ⟨r, hr⟩ := mountKernel_refuses hmay h
    exact ⟨r, _, hr⟩
  · obtain ⟨hnone, hcan⟩ := not_or.mp h
    obtain ⟨r, s₁, hgrants⟩ := not_not.mp hcan
    exact ⟨r, _, mountKernel_grants (not_not.mp hnone) hgrants⟩

/-- What a step of the kernel is. -/
theorem mountKernel_cases {r : Answer c} {s' : MountState Mnt Dir}
    (h : (mountKernel fails).step s c r s') :
    (∃ e, FailsAt fails s s.calls c ∧ refusal c e = some r ∧ s' = s.fail c) ∨
      fails s.calls = none ∧ ∃ s₁, s.Grants s₁ c r ∧ s' = { s₁ with calls := s.calls + 1 } := by
  simp only [mountKernel] at h
  cases hf : fails s.calls with
  | some e =>
    rw [hf] at h
    exact .inl ⟨e, .inl (hf ▸ nofun), h⟩
  | none =>
    rw [hf] at h
    rcases h with hok | ⟨hcan, e, hr⟩
    · exact .inr ⟨rfl, hok⟩
    · exact .inl ⟨e, .inr hcan, hr⟩

/-- A program that starts with a call of `mount.c`, by what the call can do. -/
theorem mount_call {α : Type} {k : Answer c → Sys α} {Q : α → MountState Mnt Dir → Prop}
    (hmay : P s c)
    (hfail : ∀ e r, refusal c e = some r → FailsAt fails s s.calls c →
      wp ((mountKernel fails).guard P) (k r) Q (s.fail c))
    (hok : ∀ r s₁, fails s.calls = none → s.Grants s₁ c r →
      wp ((mountKernel fails).guard P) (k r) Q { s₁ with calls := s.calls + 1 }) :
    wp ((mountKernel fails).guard P) (sys c >>= k) Q s := by
  refine wp_sys hmay fun r s' hs => ?_
  rcases mountKernel_cases hs with ⟨e, hfails, hr, rfl⟩ | ⟨hnone, s₁, hgrants, rfl⟩
  · exact hfail e r hr hfails
  · exact hok r s₁ hnone hgrants

end Barco
