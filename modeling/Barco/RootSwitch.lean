import Barco.MountKernel
import Barco.MountPaths

/-!
# The switch of the root

What `mount_set` makes of the mount tree, call by call. The bind mount is a new one, so
nothing lies on it; the switch puts the old root on the directory inside it, and that is the
only thing that lies on it until `umount2`. `rmdir` succeeds only when it is gone.

1. `InTmp`, `Bound`, `Prepared`, `Pivoted`, `Cleared`: the tree after each of the calls.
2. `mount_switches_root`: after `mount_set` has returned 0 the root is the tree that was
   bound, and no mount that was there before can be reached from it.
-/

namespace Barco

open Effect Prog MountTree

variable {Mnt Dir : Type}

/-! ## What is claimed -/

/-- The process is in the tree that was bound from `mnt`, seen through a mount that was not
there before. -/
structure InNewRoot (mnt : CStr) (t₀ t : Tree Mnt Dir) (bound : Option (CStr × Loc Mnt Dir)) :
    Prop where
  bound : ∃ S, bound = some (mnt, S) ∧ (∀ S₀, t₀.Names mnt.1 S₀ → S = S₀) ∧ t.root.dir = S.dir
  top : t.root.dir = t.top t.root.mnt
  new : ¬ t₀.mounts t.root.mnt

/-- The path is a slash and the last name of the directory for the old root, the last of those
that were made, and names it in the root. -/
def AtPutOld (path : CStr) (t : Tree Mnt Dir) (made : List (CStr × Dir)) : Prop :=
  ∃ putOld n, made.getLast? = some putOld ∧ (components putOld.1.1).getLast? = some n ∧
    path.1 = 47 :: n ∧ t.NamesIn path.1 t.root n ∧ t.entry t.root.dir n = some (.dir putOld.2)

/-- After the switch. -/
structure SwitchDone (mnt : CStr) (t₀ t : Tree Mnt Dir) (bound : Option (CStr × Loc Mnt Dir)) :
    Prop where
  root : InNewRoot mnt t₀ t bound
  cwd : t.cwd = t.root
  /-- no mount that was there lies under the root -/
  detached : ∀ m, t₀.mounts m → ¬ t.Under t.root.mnt m
  /-- and no path leads to one -/
  unreachable : ∀ ns l, t.Walks t.root ns l → ¬ t₀.mounts l.mnt

/-! ## The tree after each call -/

section Stages

variable {t₀ t t' : Tree Mnt Dir} {x y : Suffix} {P S l : Loc Mnt Dir} {b : Mnt} {d₁ d₂ : Dir}

/-- The directory `d₁` has been made in `/tmp`, which is the place `P`. -/
structure InTmp (t₀ t : Tree Mnt Dir) (x : Suffix) (P : Loc Mnt Dir) (d₁ : Dir) : Prop where
  grown : t₀.Extends t
  tmp : t₀.Walks t₀.root [tmpName] P
  name : t.entry P.dir (barcoName x) = some (.dir d₁)
  new : ¬ t₀.dirs d₁

/-- The mount `b` lies on it, showing what `S` shows. -/
structure Bound (t₀ t : Tree Mnt Dir) (x : Suffix) (P : Loc Mnt Dir) (d₁ : Dir)
    (S : Loc Mnt Dir) (b : Mnt) : Prop extends InTmp t₀ t x P d₁ where
  on : t.on ⟨P.mnt, d₁⟩ = some b
  top : t.top b = S.dir
  newMount : ¬ t₀.mounts b
  bare : ∀ d, t.on ⟨b, d⟩ = none

/-- The directory `d₂` has been made in it. -/
structure Prepared (t₀ t : Tree Mnt Dir) (x y : Suffix) (P : Loc Mnt Dir) (d₁ : Dir)
    (S : Loc Mnt Dir) (b : Mnt) (d₂ : Dir) : Prop extends Bound t₀ t x P d₁ S b where
  inner : t.entry S.dir (oldrootName y) = some (.dir d₂)

/-- The root is `b`, and nothing but the old root may lie on it. -/
structure Pivoted (t₀ t : Tree Mnt Dir) (y : Suffix) (S : Loc Mnt Dir) (b : Mnt) (d₂ : Dir) :
    Prop where
  root : t.root = ⟨b, S.dir⟩
  top : t.top b = S.dir
  newMount : ¬ t₀.mounts b
  mounts : ∀ {m}, t₀.mounts m → t.mounts m
  inner : t.entry S.dir (oldrootName y) = some (.dir d₂)
  bare : ∀ d, d ≠ d₂ → t.on ⟨b, d⟩ = none

/-- Nothing lies on the root any more. -/
structure Cleared (t₀ t : Tree Mnt Dir) (S : Loc Mnt Dir) (b : Mnt) : Prop where
  root : t.root = ⟨b, S.dir⟩
  top : t.top b = S.dir
  newMount : ¬ t₀.mounts b
  mounts : ∀ {m}, t₀.mounts m → t.mounts m
  bare : ∀ d, t.on ⟨b, d⟩ = none
  cwd : t.cwd = t.root

theorem InTmp.walks (h : InTmp t₀ t x P d₁) :
    t.Walks t.root [tmpName, barcoName x] l ↔ t.Crosses ⟨P.mnt, d₁⟩ l := by
  have htmp : t.Walks t.root [tmpName] P := h.grown.root ▸ h.tmp.extend h.grown t₀.known_root
  rw [← Tree.walks_dir (ordinary_barcoName x) h.name]
  exact Tree.walks_concat htmp

/-- The place that the path of the bind mount names after the bind. -/
theorem Bound.walks (h : Bound t₀ t x P d₁ S b) :
    t.Walks t.root [tmpName, barcoName x] l ↔ l = ⟨b, S.dir⟩ := by
  rw [h.toInTmp.walks, Tree.crosses_some h.on, h.top, Tree.crosses_none (h.bare _)]

/-- The place that the path for the old root names. -/
theorem Prepared.walks (h : Prepared t₀ t x y P d₁ S b d₂) :
    t.Walks t.root [tmpName, barcoName x, oldrootName y] l ↔ l = ⟨b, d₂⟩ := by
  have hdir : t.Walks t.root [tmpName, barcoName x] ⟨b, S.dir⟩ := h.toBound.walks.mpr rfl
  rw [← Tree.crosses_none (h.bare d₂), ← Tree.walks_dir (ordinary_oldrootName y)
    (show t.entry (Loc.mk b S.dir).dir (oldrootName y) = some (.dir d₂) from h.inner)]
  exact Tree.walks_concat hdir

/-! ### What the calls do -/

variable {s s₁ : MountState Mnt Dir} {mnt : CStr}

/-- The first `mkdtemp`. -/
theorem inTmp_of_made [DecidableEq Dir] (h : s.MakesTemp s₁ mountTemplate x) :
    ∃ P d₁, InTmp s.tree s₁.tree x P d₁ ∧ s₁.tree.on ⟨P.mnt, d₁⟩ = none ∧
      s₁.made = s.made ++ [(mountDir x, d₁)] := by
  obtain ⟨-, P, k, d, hP, hnew, hnone, rfl⟩ := h
  obtain ⟨rfl, -, hw⟩ :=
    (Tree.namesIn_absolute [tmpName] rfl (components_mountDir x)).mp hP
  have hbare : s.tree.on ⟨P.mnt, d⟩ = none := Tree.on_eq_none fun h => hnew h.2
  refine ⟨P, d, ⟨Tree.extends_make hP.known.2 (.refl _) hnew hnone, hw, if_pos ⟨rfl, rfl⟩, hnew⟩,
    hbare, rfl⟩

/-- The bind. -/
theorem bound_of_bind [DecidableEq Mnt] [DecidableEq Dir]
    (h : s.BindsMount s₁ mnt (mountDir x)) (ht : InTmp t₀ s.tree x P d₁)
    (hnone : s.tree.on ⟨P.mnt, d₁⟩ = none) :
    ∃ S b, Bound t₀ s₁.tree x P d₁ S b ∧ s₁.bound = some (mnt, S) ∧ s.tree.Names mnt.1 S ∧
      s₁.made = s.made := by
  obtain ⟨S, T, m, hS, hT, hm, rfl⟩ := h
  have hw := (Tree.names_absolute rfl).mp hT
  rw [components_mountDir, ht.walks, Tree.crosses_none hnone] at hw
  subst hw
  have hknown := hT.known
  refine ⟨S, m, ⟨⟨Tree.extends_attach hknown hm hS.known.2 ht.grown fun h => ht.new h.2, ht.tmp,
    ht.name, ht.new⟩, if_pos rfl, if_pos rfl, fun h => hm (ht.grown.mounts h), fun d => ?_⟩,
    rfl, hS, rfl⟩
  refine (if_neg fun h => ?_).trans (Tree.on_eq_none fun h => hm h.1)
  obtain ⟨rfl, -⟩ := Loc.mk.inj h
  exact hm hknown.1

/-- The second `mkdtemp`. -/
theorem prepared_of_made [DecidableEq Dir]
    (h : s.MakesTemp s₁ (innerTemplateOf x) y) (ht : Bound t₀ s.tree x P d₁ S b) :
    ∃ d₂, Prepared t₀ s₁.tree x y P d₁ S b d₂ ∧ s₁.made = s.made ++ [(innerDir x y, d₂)] ∧
      s₁.bound = s.bound := by
  obtain ⟨-, Q, k, d, hQ, hnew, hnone, rfl⟩ := h
  obtain ⟨rfl, -, hw⟩ := (Tree.namesIn_absolute [tmpName, barcoName x] rfl
    (components_innerDir x y)).mp hQ
  obtain rfl := ht.walks.mp hw
  have hd₁ : (if P.dir = S.dir ∧ barcoName x = oldrootName y then some (Node.dir d)
      else s.tree.entry P.dir (barcoName x)) = some (.dir d₁) :=
    (if_neg fun h => barcoName_ne_oldrootName x y h.2).trans ht.name
  exact ⟨d, ⟨⟨⟨Tree.extends_make hQ.known.2 ht.grown hnew hnone, ht.tmp, hd₁, ht.new⟩, ht.on,
    ht.top, ht.newMount, ht.bare⟩, if_pos ⟨rfl, rfl⟩⟩, rfl, rfl⟩

/-- `pivot_root`. -/
theorem pivoted_of_pivot [DecidableEq Mnt] [DecidableEq Dir]
    (h : s.Pivots s₁ (mountDir x) (innerDir x y)) (ht : Prepared t₀ s.tree x y P d₁ S b d₂) :
    Pivoted t₀ s₁.tree y S b d₂ ∧ s₁.made = s.made ∧ s₁.bound = s.bound := by
  obtain ⟨N, O, base, hN, hO, hbase, hne, -, -, -, -, -, rfl⟩ := h
  have hwN := (Tree.names_absolute rfl).mp hN
  rw [components_mountDir, ht.toBound.walks] at hwN
  have hwO := (Tree.names_absolute rfl).mp hO
  rw [components_innerDir, ht.walks] at hwO
  subst hwN hwO
  refine ⟨⟨?_, ht.top, ht.newMount, ht.grown.mounts, ht.inner, fun d hd => ?_⟩, rfl, rfl⟩
  · exact congrArg (Loc.mk b) ht.top
  · have hnotBase : (⟨b, d⟩ : Loc Mnt Dir) ≠ base := by
      rintro rfl
      exact nomatch (ht.bare d).symm.trans hbase
    have hnotOld : (⟨b, d⟩ : Loc Mnt Dir) ≠ ⟨b, d₂⟩ := fun h => hd (congrArg Loc.dir h)
    refine (if_neg hnotBase).trans ((if_neg hnotOld).trans ?_)
    split
    · rfl
    · exact ht.bare d

/-- `chdir`. -/
theorem pivoted_of_chdir (h : s.ChangesDir s₁ slash) (ht : Pivoted t₀ s.tree y S b d₂) :
    (Pivoted t₀ s₁.tree y S b d₂ ∧ s₁.tree.cwd = s₁.tree.root) ∧ s₁.made = s.made ∧
      s₁.bound = s.bound := by
  obtain ⟨l, hl, rfl⟩ := h
  have hw := (Tree.names_absolute rfl).mp hl
  obtain rfl : l = s.tree.root := by
    cases hw
    rfl
  exact ⟨⟨⟨ht.root, ht.top, ht.newMount, ht.mounts, ht.inner, ht.bare⟩, rfl⟩, rfl, rfl⟩

/-- `umount2`. -/
theorem pivoted_of_umount {path : CStr} {flags : Nat} (h : s.Unmounts s₁ path flags)
    (ht : Pivoted t₀ s.tree y S b d₂) (hcwd : s.tree.cwd = s.tree.root) :
    (Pivoted t₀ s₁.tree y S b d₂ ∧ s₁.tree.cwd = s₁.tree.root) ∧ s₁.made = s.made ∧
      s₁.bound = s.bound := by
  obtain ⟨l, -, -, -, rfl⟩ := h
  exact ⟨⟨⟨ht.root, ht.top, ht.newMount, ht.mounts, ht.inner,
    fun d hd => Tree.on_detach (ht.bare d hd) l.mnt⟩, hcwd⟩, rfl, rfl⟩

theorem namesIn_oldRootPath {k : Name} :
    t.NamesIn (oldRootPath x y).1 l k ↔ k = oldrootName y ∧ l = t.root := by
  have hhead : (oldRootPath x y).1.head? = some 47 := by
    rw [oldRootPath_val]
    rfl
  rw [Tree.namesIn_absolute [] hhead (components_oldRootPath x y)]
  constructor
  · rintro ⟨hk, -, hw⟩
    cases hw
    exact ⟨hk, rfl⟩
  · rintro ⟨hk, rfl⟩
    exact ⟨hk, ordinary_oldrootName y, .done⟩

/-- `rmdir`: it succeeds only where nothing lies on the directory. -/
theorem cleared_of_rmdir [DecidableEq Dir] (h : s.Removes s₁ (oldRootPath x y))
    (ht : Pivoted t₀ s.tree y S b d₂) (hcwd : s.tree.cwd = s.tree.root) :
    Cleared t₀ s₁.tree S b ∧ s₁.bound = s.bound := by
  obtain ⟨l, k, d, hnames, hentry, -, hbare, rfl⟩ := h
  obtain ⟨rfl, rfl⟩ := namesIn_oldRootPath.mp hnames
  rw [ht.root] at hentry
  obtain rfl : d₂ = d := Node.dir.inj (Option.some.inj (ht.inner.symm.trans hentry))
  refine ⟨⟨ht.root, ht.top, ht.newMount, ht.mounts, fun d => ?_, hcwd⟩, rfl⟩
  by_cases hd : d = d₂
  · exact hd ▸ hbare b
  · exact ht.bare d hd

/-- The new `/proc`. -/
theorem switched_of_proc [DecidableEq Mnt] [DecidableEq Dir] {path : CStr}
    (h : s.MountsNew s₁ path) (ht : Cleared t₀ s.tree S b) (hbound : s.bound = some (mnt, S))
    (hS : ∀ S₀, t₀.Names mnt.1 S₀ → S = S₀) :
    SwitchDone mnt t₀ s₁.tree s₁.bound := by
  obtain ⟨T, m, d, hT, hm, -, hs₁⟩ := h
  have hb : s.tree.mounts b := by
    have hroot := s.tree.known_root.1
    rwa [ht.root] at hroot
  have hne : b ≠ m := fun h => hm (h ▸ hb)
  have hroot : s₁.tree.root = ⟨b, S.dir⟩ := by
    rw [hs₁]
    exact ht.root
  have htop : s₁.tree.top b = S.dir := by
    rw [hs₁]
    exact (if_neg hne).trans ht.top
  have hon : ∀ l, s₁.tree.on l = if l = T then some m else s.tree.on l := fun l => by rw [hs₁]; rfl
  -- under the root there are the bind mount and the new one
  have hunder : ∀ m', s₁.tree.Under b m' → m' = b ∨ m' = m := by
    intro m' hm'
    induction hm' with
    | refl => exact .inl rfl
    | @tail c m' _ hc ih =>
      obtain ⟨e, he⟩ := hc
      rw [hon] at he
      split at he
      · exact .inr (Option.some.inj he).symm
      · rcases ih with rfl | rfl
        · exact absurd (he.symm.trans (ht.bare e)) (Option.some_ne_none _)
        · exact absurd (s.tree.known_on he).2.1 hm
  have hdetached : ∀ m', t₀.mounts m' → ¬ s₁.tree.Under s₁.tree.root.mnt m' := by
    intro m' hm' hu
    rw [hroot] at hu
    rcases hunder m' hu with rfl | rfl
    · exact ht.newMount hm'
    · exact hm (ht.mounts hm')
  have hrootTop : s₁.tree.root.dir = s₁.tree.top s₁.tree.root.mnt := by rw [hroot, htop]
  exact {
    root := {
      bound := ⟨S, by rw [hs₁]; exact hbound, hS, by rw [hroot]⟩
      top := hrootTop
      new := by
        rw [hroot]
        exact ht.newMount }
    cwd := by
      rw [hs₁]
      exact ht.cwd
    detached := hdetached
    unreachable := fun ns l hw hl => hdetached _ hl (hw.under hrootTop .refl) }

/-- Where `umount2` and `rmdir` are called. -/
theorem Pivoted.atPutOld {made : List (CStr × Dir)} (ht : Pivoted t₀ t y S b d₂)
    (hmade : made.getLast? = some (innerDir x y, d₂)) : AtPutOld (oldRootPath x y) t made := by
  refine ⟨_, oldrootName y, hmade, ?_, oldRootPath_val x y, ?_, ?_⟩
  · rw [components_innerDir]
    rfl
  · exact namesIn_oldRootPath.mpr ⟨rfl, rfl⟩
  · rw [ht.root]
    exact ht.inner

theorem Pivoted.inNewRoot (ht : Pivoted t₀ t y S b d₂)
    (hS : ∀ S₀, t₀.Names mnt.1 S₀ → S = S₀) : InNewRoot mnt t₀ t (some (mnt, S)) where
  bound := ⟨S, rfl, hS, by rw [ht.root]⟩
  top := by rw [ht.root, ht.top]
  new := by
    rw [ht.root]
    exact ht.newMount

end Stages

/-! ## The run -/

section Run

variable [DecidableEq Mnt] [DecidableEq Dir] {fails : Nat → Option Errno} {mnt : CStr}
  {t₀ : Tree Mnt Dir}

/-- The path that is unmounted and removed. -/
def oldRootRule (mnt : CStr) (t₀ : Tree Mnt Dir) (s : MountState Mnt Dir) : Call → Prop
  | .umount2 path _ => AtPutOld path s.tree s.made ∧ InNewRoot mnt t₀ s.tree s.bound
  | .rmdir (.raw path) => AtPutOld path s.tree s.made ∧ InNewRoot mnt t₀ s.tree s.bound
  | _ => True

/-- What `mount_set` leaves. -/
def Leaves (mnt : CStr) (t₀ : Tree Mnt Dir) (r : Int) (s : MountState Mnt Dir) : Prop :=
  (r = 0 → SwitchDone mnt t₀ s.tree s.bound) ∧ (s.failed = true → r = -1)

/-- A call whose failure ends `mount_set`. -/
theorem switch_step {c : Call} {k : Answer c → Sys Int} {s : MountState Mnt Dir}
    (hrule : oldRootRule mnt t₀ s c) (hfalse : s.failed = false)
    (hk : ∀ e r, refusal c e = some r → k r = pure (-1))
    (hok : ∀ r s₁ n, s₁.failed = false → s.Grants s₁ c r →
      wp ((mountKernel fails).guard (oldRootRule mnt t₀)) (k r) (Leaves mnt t₀)
        { s₁ with calls := n }) :
    wp ((mountKernel fails).guard (oldRootRule mnt t₀)) (sys c >>= k) (Leaves mnt t₀) s := by
  refine mount_call hrule (fun e r hr _ => ?_) fun r s₁ _ hg =>
    hok r s₁ _ (hg.failed.trans hfalse) hg
  rw [hk e r hr]
  exact ⟨fun h => absurd h (by decide), fun _ => rfl⟩

theorem mountSet_leaves :
    wp ((mountKernel fails).guard (oldRootRule mnt t₀)) (mountSet mnt) (Leaves mnt t₀)
      (.start t₀) := by
  refine switch_step trivial rfl (fun e r h => by cases h; rfl) fun r s n hs hg => ?_
  cases r with
  | error e => exact hg.elim
  | ok u =>
  obtain ⟨-, rfl⟩ : (MountState.start t₀).SetsPrivate s slash := hg
  refine switch_step trivial rfl (fun e r h => by cases h; rfl) fun r s n hs hg => ?_
  cases r with
  | error e => exact hg.elim
  | ok x =>
  obtain ⟨P, d₁, htmp, hnone, -⟩ := inTmp_of_made hg
  refine switch_step trivial hs (fun e r h => by cases h; rfl) fun r s n hs hg => ?_
  cases r with
  | error e => exact hg.elim
  | ok u =>
  obtain ⟨_, hpath, hbind⟩ : ∃ path, some mnt = some path ∧ MountState.BindsMount _ s path _ := hg
  obtain rfl := Option.some.inj hpath
  obtain ⟨S, b, hbd, hbound, hS, -⟩ := bound_of_bind hbind htmp hnone
  have hsource : ∀ S₀, t₀.Names mnt.1 S₀ → S = S₀ := fun S₀ h => hS.det (h.extend htmp.grown)
  refine switch_step trivial hs (fun e r h => by cases h; rfl) fun r s n hs hg => ?_
  cases r with
  | error e => exact hg.elim
  | ok y =>
  obtain ⟨d₂, hprep, hmade, hbound₃⟩ := prepared_of_made hg hbd
  refine switch_step trivial hs (fun e r h => by cases h; rfl) fun r s n hs hg => ?_
  cases r with
  | error e => exact hg.elim
  | ok u =>
  obtain ⟨hpiv, hmade₄, hbound₄⟩ := pivoted_of_pivot hg hprep
  refine switch_step trivial hs (fun e r h => by cases h; rfl) fun r s n hs hg => ?_
  cases r with
  | error e => exact hg.elim
  | ok u =>
  obtain ⟨⟨hpiv, hcwd⟩, hmade₅, hbound₅⟩ := pivoted_of_chdir hg hpiv
  have hlast : s.made.getLast? = some (innerDir x y, d₂) := by
    rw [hmade₅.trans (hmade₄.trans hmade)]
    exact List.getLast?_concat
  have hbound : s.bound = some (mnt, S) := hbound₅.trans (hbound₄.trans (hbound₃.trans hbound))
  refine switch_step ⟨hpiv.atPutOld hlast, ?_⟩ hs (fun e r h => by cases h; rfl)
    fun r s n hs hg => ?_
  · rw [hbound]
    exact hpiv.inNewRoot hsource
  cases r with
  | error e => exact hg.elim
  | ok u =>
  obtain ⟨⟨hpiv, hcwd⟩, hmade₆, hbound₆⟩ := pivoted_of_umount hg hpiv hcwd
  have hbound : s.bound = some (mnt, S) := hbound₆.trans hbound
  refine switch_step ⟨hpiv.atPutOld ((congrArg List.getLast? hmade₆).trans hlast), ?_⟩ hs
    (fun e r h => by cases h; rfl) fun r s n hs hg => ?_
  · rw [hbound]
    exact hpiv.inNewRoot hsource
  cases r with
  | error e => exact hg.elim
  | ok u =>
  obtain ⟨hclear, hbound₇⟩ := cleared_of_rmdir hg hpiv hcwd
  refine switch_step trivial hs (fun e r h => by cases h; rfl) fun r s n hs hg => ?_
  cases r with
  | error e => exact hg.elim
  | ok u =>
  have hdone := switched_of_proc hg hclear (hbound₇.trans hbound) hsource
  exact ⟨fun _ => hdone, fun h => nomatch hs.symm.trans h⟩

/-- What is promised of `mount_set` on a tree `t₀`, whatever fails. -/
structure SwitchesRoot (fails : Nat → Option Errno) (mnt : CStr) (t₀ : Tree Mnt Dir) : Prop where
  /-- after 0 the process is in the new root, and cut off from the old one -/
  done : ∀ s, Run (mountKernel fails) (mountSet mnt) (.start t₀) (.ret 0) s →
    SwitchDone mnt t₀ s.tree s.bound
  /-- a call that fails makes it return -1 -/
  failed : ∀ r s, Run (mountKernel fails) (mountSet mnt) (.start t₀) (.ret r) s →
    s.failed = true → r = -1
  /-- `umount2` and `rmdir` are called in the new root for the directory of the old one -/
  unmounts : ∀ path flags k s,
    Run (mountKernel fails) (mountSet mnt) (.start t₀) (.call (.umount2 path flags) k) s →
    AtPutOld path s.tree s.made ∧ InNewRoot mnt t₀ s.tree s.bound
  removes : ∀ path k s,
    Run (mountKernel fails) (mountSet mnt) (.start t₀) (.call (.rmdir (.raw path)) k) s →
    AtPutOld path s.tree s.made ∧ InNewRoot mnt t₀ s.tree s.bound
  /-- the paths are built inside their arrays, and the assertion holds -/
  arrays : ∀ x y, ∃ a, mountArrays x y = some a ∧ a.found = true ∧
    CStr.ofBuf a.mountDir = mountDir x ∧ CStr.ofBuf a.innerMountDir = innerDir x y ∧
    CStr.ofBuf a.oldRoot = oldRootPath x y

/-- After `mount_set` has returned 0 the root is the tree that was bound from `mnt`, and no
mount that was there before can be reached from it. -/
theorem mount_switches_root (fails : Nat → Option Errno) (mnt : CStr) (t₀ : Tree Mnt Dir) :
    SwitchesRoot fails mnt t₀ where
  done _ hrun := (wp_run mountSet_leaves (hrun.guard (oldRootRule mnt t₀))).1 rfl
  failed _ _ hrun := (wp_run mountSet_leaves (hrun.guard (oldRootRule mnt t₀))).2
  unmounts _ _ _ _ hrun := run_call (P := oldRootRule mnt t₀) mountSet_leaves hrun
  removes _ _ _ hrun := run_call (P := oldRootRule mnt t₀) mountSet_leaves hrun
  arrays := mountArrays_fit

end Run

end Barco
