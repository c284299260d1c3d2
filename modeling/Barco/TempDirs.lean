import Barco.RootSwitch

/-!
# The temporary directories of `mount_set`

`mount_set` makes a directory in the host's `/tmp` and one in the root file system of the
container. Only the second is ever removed: the one call of `rmdir` names the directory that
holds the old root, and nothing names the first after the switch.

1. `Stays`: a directory whose name no call removes.
2. `leaves_nothing_iff`: nothing is left behind exactly when the first directory is never
   made.
3. `host_directory_left`: a run in which nothing fails.
-/

namespace Barco

open Effect Prog MountTree

variable {Mnt Dir : Type}

/-- Each directory that `mkdtemp` made has no name any more, or its removal was tried. -/
def MountState.TidiedUp (s : MountState Mnt Dir) : Prop :=
  ∀ made ∈ s.made, (∀ p n, s.tree.entry p n ≠ some (.dir made.2)) ∨ s.refused made.2

/-- Whenever `mount_set` returns, no temporary directory of it is left. -/
def LeavesNothing [DecidableEq Mnt] [DecidableEq Dir] (fails : Nat → Option Errno)
    (mnt : CStr) (tree : Tree Mnt Dir) : Prop :=
  ∀ (r : Int) (s : MountState Mnt Dir),
    Run (mountKernel fails) (mountSet mnt) (.start tree) (.ret r) s → s.TidiedUp

/-! ## A name that no call removes -/

/-- The directory `d` has the name `n`, and no other, in `p`. -/
structure Stays (p : Dir) (n : Name) (d : Dir) (s : MountState Mnt Dir) : Prop where
  made : ∃ path, (path, d) ∈ s.made
  known : s.tree.dirs d
  name : s.tree.entry p n = some (.dir d)
  only : ∀ {q k}, s.tree.entry q k = some (.dir d) → k = n
  refused : ¬ s.refused d

/-- The call removes no name `n`. -/
def KeepsName (n : Name) (c : Call) : Prop :=
  ∀ path, c = .rmdir (.raw path) → (components path.1).getLast? ≠ some n

section Steps

variable {p d : Dir} {n : Name} {s s₁ : MountState Mnt Dir} {c : Call}

theorem Stays.not_tidied (h : Stays p n d s) : ¬ s.TidiedUp := by
  intro ht
  obtain ⟨path, hmade⟩ := h.made
  rcases ht _ hmade with hgone | hrefused
  · exact hgone p n h.name
  · exact h.refused hrefused

/-- A call that leaves the names and the ghosts alone. -/
theorem Stays.same (h : Stays p n d s) (hmade : s₁.made = s.made)
    (hdirs : s.tree.dirs d → s₁.tree.dirs d) (hentry : s₁.tree.entry = s.tree.entry)
    (hrefused : s₁.refused = s.refused) : Stays p n d s₁ where
  made := hmade ▸ h.made
  known := hdirs h.known
  name := hentry ▸ h.name
  only he := h.only (hentry ▸ he)
  refused := hrefused ▸ h.refused

theorem Stays.fail (h : Stays p n d s) (hc : KeepsName n c) : Stays p n d (s.fail c) where
  made := h.made
  known := h.known
  name := h.name
  only := h.only
  refused := by
    rintro (hr | ⟨path, rfl, l, k, hnames, hentry⟩)
    · exact h.refused hr
    · obtain rfl := h.only hentry
      exact hc path rfl hnames.last

variable [DecidableEq Mnt] [DecidableEq Dir]

theorem Stays.grants {r : Answer c} (h : Stays p n d s) (hc : KeepsName n c)
    (hg : s.Grants s₁ c r) : Stays p n d s₁ := by
  cases c with
  | mount source target fstype flags =>
    cases r with
    | error e => exact hg.elim
    | ok u =>
      change s.Mounts s₁ source target flags at hg
      unfold MountState.Mounts at hg
      split at hg
      · obtain ⟨path, -, S, T, m, hS, hT, hm, rfl⟩ := hg
        exact h.same rfl id rfl rfl
      · split at hg
        · rw [hg.2]
          exact h
        · obtain ⟨T, m, e, hT, hm, -, rfl⟩ := hg
          exact h.same rfl .inl rfl rfl
  | mkdtemp template =>
    cases r with
    | error e => exact hg.elim
    | ok x =>
      obtain ⟨-, P, k, e, hP, hnew, hnone, rfl⟩ := hg
      have hne : e ≠ d := fun he => hnew (he ▸ h.known)
      obtain ⟨path, hmade⟩ := h.made
      exact {
        made := ⟨path, List.mem_append_left _ hmade⟩
        known := .inl h.known
        name := by
          refine (if_neg ?_).trans h.name
          rintro ⟨rfl, rfl⟩
          exact Option.some_ne_none _ (h.name.symm.trans hnone)
        only := fun {q j} he => by
          change (if q = P.dir ∧ j = k then some (Node.dir e) else s.tree.entry q j) = _ at he
          split at he
          · exact absurd (Node.dir.inj (Option.some.inj he)) hne
          · exact h.only he
        refused := h.refused }
  | pivotRoot newRoot putOld =>
    cases r with
    | error e => exact hg.elim
    | ok u =>
      obtain ⟨N, O, base, hN, hO, hbase, hne, -, -, -, -, -, rfl⟩ := hg
      exact h.same rfl id rfl rfl
  | chdir path =>
    cases r with
    | error e => exact hg.elim
    | ok u =>
      obtain ⟨l, hl, rfl⟩ := hg
      exact h.same rfl id rfl rfl
  | umount2 target flags =>
    cases r with
    | error e => exact hg.elim
    | ok u =>
      obtain ⟨l, -, -, -, rfl⟩ := hg
      exact h.same rfl id rfl rfl
  | rmdir path =>
    cases path with
    | raw path =>
      cases r with
      | error e => exact hg.elim
      | ok u =>
        obtain ⟨l, k, e, hnames, -, -, -, rfl⟩ := hg
        have hk : k ≠ n := fun hkn => hc path rfl (hkn ▸ hnames.last)
        exact {
          made := h.made
          known := h.known
          name := (if_neg fun hpn => hk hpn.2.symm).trans h.name
          only := fun {q j} he => by
            change (if q = l.dir ∧ j = k then none else s.tree.entry q j) = _ at he
            split at he
            · exact absurd he.symm (Option.some_ne_none _)
            · exact h.only he
          refused := h.refused }
    | _ => exact False.elim hg
  | _ => exact False.elim hg

/-- A program that never removes the name leaves the directory where it is. -/
theorem Stays.kept {fails : Nat → Option Errno} {q : Sys Int} (h : Stays p n d s)
    (hq : q.Only fun c => (refusal c 0).isSome ∧ KeepsName n c) :
    wp (mountKernel fails) q (fun _ s' => Stays p n d s') s := by
  refine wp_of_only (J := Stays p n d) hq (fun s c hc hs => ⟨hc.1, fun r s' hstep => ?_⟩) h
  rcases mountKernel_cases hstep with ⟨e, -, -, rfl⟩ | ⟨-, s₂, hgrants, rfl⟩
  · exact hs.fail hc.2
  · exact (hs.grants hc.2 hgrants).same rfl id rfl rfl

end Steps

/-! ## The first directory -/

variable [DecidableEq Mnt] [DecidableEq Dir] {fails : Nat → Option Errno} {mnt : CStr}
  {tree : Tree Mnt Dir}

/-- The first two calls of `mount_set`. -/
def remountCall : Call := .mount none slash none (MS_REC ||| MS_PRIVATE)
def mkdtempCall : Call := .mkdtemp mountTemplate

omit [DecidableEq Mnt] in
/-- A directory that was just made. -/
theorem stays_of_made {s s₁ : MountState Mnt Dir} {x : Suffix}
    (h : s.MakesTemp s₁ mountTemplate x) (hrefused : ∀ d, ¬ s.refused d) :
    ∃ p d, Stays p (barcoName x) d s₁ := by
  obtain ⟨-, P, k, d, hP, hnew, hnone, rfl⟩ := h
  obtain rfl : k = barcoName x := by
    have hlast := hP.last
    rw [show components (mountTemplate.withSuffix x).1 = _ from components_mountDir x] at hlast
    exact (Option.some.inj hlast).symm
  refine ⟨P.dir, d, ⟨_, List.mem_append_right _ (List.mem_singleton_self _)⟩, .inr rfl,
    if_pos ⟨rfl, rfl⟩, fun {q j} he => ?_, hrefused d⟩
  change (if q = P.dir ∧ j = barcoName x then some (Node.dir d) else s.tree.entry q j) = _ at he
  split at he
  · exact ‹q = P.dir ∧ j = barcoName x›.2
  · exact absurd (s.tree.known_entry he) hnew

theorem keepsName_of_ne {n : Name} {c : Call} (h : ∀ path, c ≠ .rmdir path) : KeepsName n c :=
  fun _ hc => absurd hc (h _)

/-- Whether a temporary directory can be made is a matter of the tree. -/
theorem can_mkdtemp {s s' : MountState Mnt Dir} {template : CStr}
    (h : s.Can (.mkdtemp template)) (htree : s.tree = s'.tree) : s'.Can (.mkdtemp template) := by
  obtain ⟨r, s₁, hg⟩ := h
  cases r with
  | error e => exact hg.elim
  | ok x =>
    obtain ⟨hend, P, n, d, hP, hd, hnone, -⟩ := hg
    rw [htree] at hP hd hnone
    exact ⟨.ok x, _, hend, P, n, d, hP, hd, hnone, rfl⟩

/-- The first two calls have been granted, or one of them has failed. -/
def Began (fails : Nat → Option Errno) (tree : Tree Mnt Dir) : Prop :=
  ¬ FailsAt fails (.start tree) 0 remountCall ∧ ¬ FailsAt fails (.start tree) 1 mkdtempCall

/-- What `mount_set` does after its first directory does not remove it. -/
theorem mountSet_keeps :
    wp (mountKernel fails) (mountSet mnt)
      (fun _ s => Began fails tree ∧ (∃ p n d, Stays p n d s) ∨
        ¬ Began fails tree ∧ s.made = []) (.start tree) := by
  refine wp_sys rfl fun r s hstep => ?_
  rcases mountKernel_cases hstep with ⟨e, hfails, hr, rfl⟩ | ⟨hnone, s₁, hgrants, rfl⟩
  · obtain rfl := Option.some.inj hr
    exact .inr ⟨fun h => h.1 hfails, rfl⟩
  cases r with
  | error e => exact hgrants.elim
  | ok u =>
  have hfirst : ¬ FailsAt fails (.start tree) 0 remountCall := not_or.mpr
    ⟨not_not.mpr hnone, not_not.mpr ⟨_, _, hgrants⟩⟩
  obtain ⟨-, rfl⟩ : (MountState.start tree).SetsPrivate s₁ slash := hgrants
  refine wp_sys rfl fun r s hstep => ?_
  rcases mountKernel_cases hstep with ⟨e, hfails, hr, rfl⟩ | ⟨hnone, s₂, hgrants, rfl⟩
  · obtain rfl := Option.some.inj hr
    refine .inr ⟨fun h => h.2 (hfails.imp id fun hcan hcan' => hcan ?_), rfl⟩
    exact can_mkdtemp hcan' rfl
  cases r with
  | error e => exact hgrants.elim
  | ok x =>
  have hsecond : ¬ FailsAt fails (.start tree) 1 mkdtempCall := not_or.mpr
    ⟨not_not.mpr hnone, not_not.mpr (can_mkdtemp ⟨_, _, hgrants⟩ rfl)⟩
  obtain ⟨p, d, hstays⟩ := stays_of_made hgrants fun _ h => h
  have hstays₂ : Stays p (barcoName x) d { s₂ with calls := 2 } := hstays.same rfl id rfl rfl
  refine wp_mono (hstays₂.kept ?_)
    fun _ s' h => .inl ⟨⟨hfirst, hsecond⟩, p, _, d, h⟩
  have hcall : ∀ {c : Call} {k : Answer c → Sys Int}, (refusal c 0).isSome →
      KeepsName (barcoName x) c →
      (∀ r, (k r).Only fun c => (refusal c 0).isSome ∧ KeepsName (barcoName x) c) →
      (sys c >>= k).Only fun c => (refusal c 0).isSome ∧ KeepsName (barcoName x) c :=
    fun hmay hkeep hk => ⟨⟨hmay, hkeep⟩, hk⟩
  refine hcall rfl (keepsName_of_ne nofun) fun r => ?_
  cases r with
  | error e => exact only_pure _
  | ok u =>
  refine hcall rfl (keepsName_of_ne nofun) fun r => ?_
  cases r with
  | error e => exact only_pure _
  | ok y =>
  refine hcall rfl (keepsName_of_ne nofun) fun r => ?_
  cases r with
  | error e => exact only_pure _
  | ok u =>
  refine hcall rfl (keepsName_of_ne nofun) fun r => ?_
  cases r with
  | error e => exact only_pure _
  | ok u =>
  refine hcall rfl (keepsName_of_ne nofun) fun r => ?_
  cases r with
  | error e => exact only_pure _
  | ok u =>
  refine hcall rfl ?_ fun r => ?_
  · intro path hpath
    obtain rfl : oldRootPath x y = path := Path.raw.inj (Call.rmdir.inj hpath)
    rw [components_oldRootPath]
    exact fun h => barcoName_ne_oldrootName x y (Option.some.inj h).symm
  cases r with
  | error e => exact only_pure _
  | ok u =>
  refine hcall rfl (keepsName_of_ne nofun) fun r => ?_
  cases r with
  | error e => exact only_pure _
  | ok u => exact only_pure _

/-- Nothing is left behind exactly when the first directory is never made. -/
theorem leaves_nothing_iff (fails : Nat → Option Errno) (mnt : CStr) (tree : Tree Mnt Dir) :
    LeavesNothing fails mnt tree ↔ FailsAt fails (.start tree) 0 remountCall ∨
      FailsAt fails (.start tree) 1 mkdtempCall := by
  have hbegan : Began fails tree ↔ ¬ (FailsAt fails (.start tree) 0 remountCall ∨
      FailsAt fails (.start tree) 1 mkdtempCall) := not_or.symm
  constructor
  · intro h
    by_contra hno
    obtain ⟨r, s, hrun, hpost⟩ := wp_total mountKernel_answers
      (mountSet_keeps : wp (mountKernel fails) (mountSet mnt) _ (.start tree))
    rcases hpost with ⟨-, p, n, d, hstays⟩ | ⟨hfails, -⟩
    · exact hstays.not_tidied (h r s hrun)
    · exact hfails (hbegan.mpr hno)
  · intro h r s hrun
    rcases wp_run mountSet_keeps hrun with ⟨hbegun, -⟩ | ⟨-, hmade⟩
    · exact absurd h (hbegan.mp hbegun)
    · intro made hmem
      rw [hmade] at hmem
      exact nomatch hmem

/-! ## A run in which nothing fails -/

section Host

def srvName : Name := ascii "srv"
def srvDir : CStr := ⟨ascii "/srv", by decide⟩

/-- A root file system, the mount 1, on the one that the kernel begins with. The directories
are `/`, `/tmp`, `/srv` and `/srv/proc`, with the numbers from 1 on. -/
def hostTree : Tree Nat Nat where
  entry p n :=
    if p = 1 ∧ n = tmpName then some (.dir 2)
    else if p = 1 ∧ n = srvName then some (.dir 3)
    else if p = 3 ∧ n = procName.1 then some (.dir 4)
    else none
  parent d := if d = 4 then 3 else if d = 0 then 0 else 1
  top m := m
  on l := if l = ⟨0, 0⟩ then some 1 else none
  root := ⟨1, 1⟩
  cwd := ⟨1, 1⟩
  mounts m := m < 2
  dirs d := d < 5
  once h h' := by
    rw [Option.ite_none_right_eq_some] at h h'
    rw [h.1, h'.1]
  known_on h := by
    obtain ⟨rfl, h⟩ := Option.ite_none_right_eq_some.mp h
    obtain rfl := Option.some.inj h
    decide
  known_entry h := by
    split at h
    · cases h
      decide
    · split at h
      · cases h
        decide
      · obtain ⟨-, h⟩ := Option.ite_none_right_eq_some.mp h
        cases h
        decide
  known_parent _ := by
    split
    · decide
    · split <;> decide
  known_top h := Nat.lt_trans h (by decide)
  known_root := by decide
  known_cwd := by decide

theorem hostTree_remounts :
    (MountState.start hostTree).Grants (.start hostTree) remountCall (.ok ()) :=
  ⟨⟨⟨1, 1⟩, (Tree.names_absolute rfl).mpr .done, rfl⟩, rfl⟩

theorem hostTree_tmp : hostTree.Walks hostTree.root [tmpName] ⟨1, 2⟩ :=
  (Tree.walks_dir (by decide) rfl).mpr (.stay rfl)

theorem hostTree_namesIn :
    hostTree.NamesIn (mountDir suffixA).1 ⟨1, 2⟩ (barcoName suffixA) :=
  (Tree.namesIn_absolute [tmpName] rfl (components_mountDir _)).mpr
    ⟨rfl, ordinary_barcoName _, hostTree_tmp⟩

theorem hostTree_began : Began (fun _ => none) hostTree :=
  ⟨not_or.mpr ⟨not_not.mpr rfl, not_not.mpr ⟨_, _, hostTree_remounts⟩⟩,
    not_or.mpr ⟨not_not.mpr rfl, not_not.mpr ⟨.ok suffixA, _, rfl, ⟨1, 2⟩, barcoName suffixA, 5,
      hostTree_namesIn, Nat.lt_irrefl 5, rfl, rfl⟩⟩⟩

/-- The files of `/srv` on a new mount, in a new root. -/
theorem host_run : ∃ s, Run (mountKernel fun _ => none) (mountSet srvDir) (.start hostTree)
    (.ret 0) s := by
  have hgrants : ∀ {s s₁ : MountState Nat Nat} {c : Call} {r : Answer c} {k : Answer c → Sys Int},
      s.Grants s₁ c r →
      (∃ t, Run (mountKernel fun _ => none) (k r) { s₁ with calls := s.calls + 1 } (.ret 0) t) →
      ∃ t, Run (mountKernel fun _ => none) (sys c >>= k) s (.ret 0) t :=
    fun hg hk => runs_sys (mountKernel_grants rfl hg) hk
  refine hgrants hostTree_remounts ?_
  refine hgrants (c := mkdtempCall) (r := .ok suffixA)
    ⟨rfl, ⟨1, 2⟩, barcoName suffixA, 5, hostTree_namesIn, Nat.lt_irrefl 5, rfl, rfl⟩ ?_
  let t₁ := hostTree.make 2 (barcoName suffixA) 5 hostTree_namesIn.known.2
  have htmp₁ : InTmp hostTree t₁ suffixA ⟨1, 2⟩ 5 :=
    ⟨Tree.extends_make _ (.refl _) (Nat.lt_irrefl 5) rfl, hostTree_tmp, rfl, Nat.lt_irrefl 5⟩
  have hsrv : t₁.Names srvDir.1 ⟨1, 3⟩ := (Tree.names_absolute rfl).mpr
    ((Tree.walks_dir (n := srvName) (by decide) rfl).mpr (.stay rfl))
  have hdir : t₁.Names (mountDir suffixA).1 ⟨1, 5⟩ := by
    rw [Tree.names_absolute rfl, components_mountDir, htmp₁.walks]
    exact .stay rfl
  refine hgrants (c := .mount (some srvDir) (mountDir suffixA) none (MS_BIND ||| MS_PRIVATE))
    (r := .ok ()) ⟨srvDir, rfl, ⟨1, 3⟩, ⟨1, 5⟩, 2, hsrv, hdir, Nat.lt_irrefl 2, rfl⟩ ?_
  let t₂ := t₁.attach ⟨1, 5⟩ 2 3 hdir.known (Nat.lt_irrefl 2) hsrv.known.2
  have hbound : Bound hostTree t₂ suffixA ⟨1, 2⟩ 5 ⟨1, 3⟩ 2 :=
    ⟨⟨Tree.extends_attach _ _ _ htmp₁.grown fun h => Nat.lt_irrefl 5 h.2, hostTree_tmp, rfl,
      Nat.lt_irrefl 5⟩, rfl, rfl, Nat.lt_irrefl 2, fun _ => rfl⟩
  have hinner : t₂.NamesIn (innerDir suffixA suffixA).1 ⟨2, 3⟩ (oldrootName suffixA) :=
    (Tree.namesIn_absolute [tmpName, barcoName suffixA] rfl (components_innerDir _ _)).mpr
      ⟨rfl, ordinary_oldrootName _, hbound.walks.mpr rfl⟩
  have hnew : ¬ t₂.dirs 6 := show ¬ (6 < 5 ∨ 6 = 5) by decide
  refine hgrants (c := .mkdtemp (innerTemplateOf suffixA)) (r := .ok suffixA)
    ⟨rfl, ⟨2, 3⟩, oldrootName suffixA, 6, hinner, hnew, rfl, rfl⟩ ?_
  let t₃ := t₂.make 3 (oldrootName suffixA) 6 hinner.known.2
  have hprep : Prepared hostTree t₃ suffixA suffixA ⟨1, 2⟩ 5 ⟨1, 3⟩ 2 6 :=
    ⟨⟨⟨Tree.extends_make _ hbound.grown hnew rfl, hostTree_tmp, rfl, Nat.lt_irrefl 5⟩, rfl, rfl,
      Nat.lt_irrefl 2, fun _ => rfl⟩, rfl⟩
  have hN : t₃.Names (mountDir suffixA).1 ⟨2, 3⟩ := by
    rw [Tree.names_absolute rfl, components_mountDir, hprep.toBound.walks]
  have hO : t₃.Names (innerDir suffixA suffixA).1 ⟨2, 6⟩ := by
    rw [Tree.names_absolute rfl, components_innerDir, hprep.walks]
  have hne : (2 : Nat) ≠ 1 := by decide
  refine hgrants (c := .pivotRoot (mountDir suffixA) (innerDir suffixA suffixA)) (r := .ok ())
    ⟨⟨2, 3⟩, ⟨2, 6⟩, ⟨0, 0⟩, hN, hO, rfl, hne, rfl, rfl, ⟨⟨1, 5⟩, rfl⟩, hne, .refl, rfl⟩ ?_
  let t₄ := t₃.pivot 2 ⟨2, 6⟩ ⟨0, 0⟩ hN.known.1 hO.known rfl hne
  have hcd : t₄.Names slash.1 ⟨2, 3⟩ := (Tree.names_absolute rfl).mpr .done
  refine hgrants (c := .chdir slash) (r := .ok ()) ⟨⟨2, 3⟩, hcd, rfl⟩ ?_
  let t₅ := t₄.goTo ⟨2, 3⟩ hcd.known
  have hold : t₅.Names (oldRootPath suffixA suffixA).1 ⟨1, 1⟩ := by
    rw [Tree.names_absolute rfl, components_oldRootPath,
      Tree.walks_dir (d := 6) (ordinary_oldrootName _) rfl]
    exact .cross (m := 1) rfl (.stay rfl)
  refine hgrants (c := .umount2 (oldRootPath suffixA suffixA) MNT_DETACH) (r := .ok ())
    ⟨⟨1, 1⟩, hold, rfl, fun h => absurd h (by decide), rfl⟩ ?_
  let t₆ := t₅.detach 1
  have hin : t₆.NamesIn (oldRootPath suffixA suffixA).1 ⟨2, 3⟩ (oldrootName suffixA) :=
    namesIn_oldRootPath.mpr ⟨rfl, rfl⟩
  have hbare : ∀ m, t₆.on ⟨m, 6⟩ = none := by
    intro m
    by_cases hm : m = 2
    · subst hm
      exact Tree.on_detach_self rfl
    · have hbase : (⟨m, 6⟩ : Loc Nat Nat) ≠ ⟨0, 0⟩ := nofun
      have htmp : (⟨m, 6⟩ : Loc Nat Nat) ≠ ⟨1, 5⟩ := nofun
      have hput : (⟨m, 6⟩ : Loc Nat Nat) ≠ ⟨2, 6⟩ := fun h => hm (Loc.mk.inj h).1
      have hon : t₃.on ⟨m, 6⟩ = none := (if_neg htmp).trans (if_neg hbase)
      refine Tree.on_detach (t := t₅) ((if_neg hbase).trans ((if_neg hput).trans ?_)) 1
      rw [hon, ite_self]
  refine hgrants (c := .rmdir (.raw (oldRootPath suffixA suffixA))) (r := .ok ())
    ⟨⟨2, 3⟩, oldrootName suffixA, 6, hin, rfl, fun _ => rfl, hbare, rfl⟩ ?_
  let t₇ := t₆.unlink 3 (oldrootName suffixA)
  have hnone : t₇.on ⟨2, 4⟩ = none := Tree.on_detach (t := t₅) (l := ⟨2, 4⟩) rfl 1
  have hproc : t₇.Names procDir.1 ⟨2, 4⟩ := (Tree.names_absolute rfl).mpr
    ((Tree.walks_dir (n := procName.1) (d := 4) (by decide) rfl).mpr (.stay hnone))
  have hmount : ¬ t₇.mounts 3 := show ¬ (3 < 2 ∨ 3 = 2) by decide
  have hroot : ¬ t₇.dirs 7 := show ¬ ((7 < 5 ∨ 7 = 5) ∨ 7 = 6) by decide
  refine hgrants (c := .mount (some procName) procDir (some procName)
    (MS_NOSUID ||| MS_NOEXEC ||| MS_NODEV)) (r := .ok ())
    ⟨⟨2, 4⟩, 3, 7, hproc, hmount, hroot, rfl⟩ ?_
  exact ⟨_, .refl _ _⟩

/-- Every call of `mount_set` succeeds, and the process is in the files of `/srv`. -/
theorem mount_switches_root_srv : ∃ s, Run (mountKernel fun _ => none) (mountSet srvDir)
    (.start hostTree) (.ret 0) s ∧ SwitchDone srvDir hostTree s.tree s.bound := by
  obtain ⟨s, hrun⟩ := host_run
  exact ⟨s, hrun, (mount_switches_root (fun _ => none) srvDir hostTree).done s hrun⟩

/-- Every call of `mount_set` succeeds, it returns 0, and its directory is left in `/tmp`. -/
theorem host_directory_left : ∃ s, Run (mountKernel fun _ => none) (mountSet srvDir)
    (.start hostTree) (.ret 0) s ∧ ¬ s.TidiedUp := by
  obtain ⟨s, hrun⟩ := host_run
  refine ⟨s, hrun, ?_⟩
  rcases wp_run mountSet_keeps hrun with ⟨-, p, n, d, hstays⟩ | ⟨hfails, -⟩
  · exact hstays.not_tidied
  · exact absurd hostTree_began hfails

end Host

end Barco
