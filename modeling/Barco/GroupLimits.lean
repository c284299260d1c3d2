import Barco.Cgroups

/-!
# No process in a half-limited group

The process id is the last of the settings that `cgroups_init` writes, and the loop stops
at the first failure. So whoever gets into the directory finds every limit in it.

1. `cgroupsInit_whole`: for every directory found and every pattern of failures, the id is
   written to a fresh directory with the three limits, 0 means all four writes, and a
   directory with members stays as it was.
-/

namespace Barco

open Effect Prog

/-! ## The directory -/

/-- The directory of the group: whether processes live in it, and the writes to its control
files since it exists. -/
structure GroupDir where
  occupied : Bool
  written : List CgroupsSetting

/-- The directory if it exists, whether this call made it, and the control files of it that
are open. -/
structure GroupFs where
  dir : Option GroupDir
  fresh : Bool
  opened : Int → Option CStr

/-- Before `cgroups_init`: nothing is made and nothing is open. -/
def GroupFs.before (dir : Option GroupDir) : GroupFs := ⟨dir, false, fun _ => none⟩

def GroupFs.setOpened (s : GroupFs) (fd : Int) (file : Option CStr) : GroupFs :=
  { s with opened := Function.update s.opened fd file }

/-- A write to a control file, which reaches the directory as a whole. -/
def GroupDir.write (d : GroupDir) (x : CgroupsSetting) : GroupDir :=
  ⟨d.occupied || x.name = cgroupProcs, d.written ++ [x]⟩

/-- A directory is made where there is none and removed when nothing lives in it. What
fails changes nothing, but a descriptor is closed all the same. -/
def groupCall (hostname : CStr) (s : GroupFs) : (c : Call) → Answer c → GroupFs → Prop
  | .mkdir (.cgroupDir name), .ok _, s' => name = hostname →
    s.dir = none ∧ s' = { s with dir := some ⟨false, []⟩, fresh := true }
  | .rmdir (.cgroupDir name), .ok _, s' => name = hostname →
    (∃ d, s.dir = some d ∧ d.occupied = false) ∧ s' = { s with dir := none, fresh := false }
  | .open (.cgroupFile name file) _, .ok fd, s' => name = hostname →
    s.dir.isSome ∧ s' = s.setOpened fd (some file)
  | .open _ _, .ok fd, s' => s' = s.setOpened fd none
  | .write fd data, .ok n, s' => n = data.length ∧
    s' = match s.opened fd with
      | some file => { s with dir := s.dir.map (·.write ⟨file, data⟩) }
      | none => s
  | .close fd, _, s' => s' = s.setOpened fd none
  | _, _, s' => s' = s

def groupKernel (hostname : CStr) : Machine Call Answer GroupFs where
  may _ _ := True
  step s c r s' := groupCall hostname s c r s'

/-- The settings before the process. -/
def groupLimits : List CgroupsSetting :=
  [⟨memoryMax, ascii "1G"⟩, ⟨cpuWeight, ascii "256"⟩, ⟨pidsMax, ascii "64"⟩]

/-- This call made the directory, and these are the writes to it. -/
def GroupFs.Holds (s : GroupFs) (settings : List CgroupsSetting) : Prop :=
  s.fresh = true ∧ ∃ d, s.dir = some d ∧ d.written = settings

/-- A process is only put into a group with every limit set. -/
structure AdmitsWhole (hostname : CStr) (pid : Nat) : Prop where
  admitted : ∀ dir fd data k s', Run (groupKernel hostname) (cgroupsInit hostname pid)
    (.before dir) (.call (.write fd data) k) s' → s'.opened fd = some cgroupProcs →
      data = pidBytes pid ∧ s'.Holds groupLimits
  whole : ∀ dir s', Run (groupKernel hostname) (cgroupsInit hostname pid) (.before dir)
    (.ret 0) s' → s'.Holds (cgroupsSettings pid)
  untouched : ∀ dir, dir.occupied = true → ∀ p s', Run (groupKernel hostname)
    (cgroupsInit hostname pid) (.before (some dir)) p s' →
      s'.dir = some dir ∧ ∀ r, p = .ret r → r = -1

/-! ## The first half -/

section Runs

variable {hostname : CStr} {pid : Nat} {s : GroupFs}

/-- The id only goes to a directory with every limit. -/
def Admits (pid : Nat) (s : GroupFs) : Call → Prop
  | .write fd data => s.opened fd = some cgroupProcs →
    data = pidBytes pid ∧ s.Holds groupLimits
  | _ => True

@[simp] theorem setOpened_self (fd : Int) (file : Option CStr) :
    (s.setOpened fd file).opened fd = file := Function.update_self ..

@[simp] theorem setOpened_dir (fd : Int) (file : Option CStr) :
    (s.setOpened fd file).dir = s.dir := rfl

/-- The root group is not the container's: only descriptors change. -/
theorem enableControllers_wp {P : GroupFs → Call → Prop} {Q : Unit → GroupFs → Prop}
    (hP : ∀ o c, (∀ fd data, c = .write fd data → o fd = none) → P { s with opened := o } c)
    (hQ : ∀ o, Q () { s with opened := o }) :
    wp ((groupKernel hostname).guard P) enableControllers Q s := by
  refine wp_sys (hP s.opened _ nofun) ?_
  rintro (e | fd) s₁ h₁
  · obtain rfl : s₁ = s := h₁
    exact hQ _
  · obtain rfl : s₁ = s.setOpened fd none := h₁
    refine wp_sys (hP _ _ ?_) ?_
    · rintro _ _ ⟨rfl, rfl⟩
      exact setOpened_self ..
    · intro r s₂ h₂
      have hs₂ : s₂ = s.setOpened fd none := by
        cases r with
        | error e => exact h₂
        | ok n => simpa [groupKernel, groupCall, guard] using h₂.2
      obtain rfl := hs₂
      refine wp_sys (c := .close fd) (hP _ _ nofun) fun _ s₃ h₃ => ?_
      obtain rfl : s₃ = (s.setOpened fd none).setOpened fd none := h₃
      exact hQ _

theorem admits_of_closed {c : Call} (h : ∀ fd data, c = .write fd data → s.opened fd = none) :
    Admits pid s c := by
  cases c with
  | write fd data =>
    intro hprocs
    rw [h fd data rfl] at hprocs
    cases hprocs
  | _ => trivial

/-- A fresh directory has no setting yet. -/
theorem cgroupsRemake_fresh :
    wp ((groupKernel hostname).guard (Admits pid)) (cgroupsRemake hostname)
      (fun r s' => r = 0 → s'.Holds []) s := by
  refine wp_sys trivial ?_
  rintro (e | _) s₁ h₁
  · exact nofun
  · obtain ⟨-, rfl⟩ := h₁ rfl
    exact fun _ => ⟨rfl, _, rfl, rfl⟩

theorem cgroupsMkdir_fresh :
    wp ((groupKernel hostname).guard (Admits pid)) (cgroupsMkdir hostname)
      (fun r s' => r = 0 ∧ s'.Holds [] ∨ r = -1) s := by
  have hremake : ∀ s, wp ((groupKernel hostname).guard (Admits pid)) (cgroupsRemake hostname)
      (fun r s' => r = 0 ∧ s'.Holds [] ∨ r = -1) s := by
    intro s
    refine wp_mono (wp_returns cgroupsRemake_fresh (P := Status) ?_) ?_
    · rintro (e | _)
      · exact Status.fail
      · exact Status.zero
    · rintro r s' ⟨hfresh, rfl | rfl⟩
      · exact .inl ⟨rfl, hfresh rfl⟩
      · exact .inr rfl
  refine wp_sys trivial ?_
  rintro (e | _) s₁ h₁
  · show wp _ (if e = EEXIST then _ else _) _ s₁
    split
    · refine wp_sys trivial ?_
      rintro (e' | _) s₂ h₂
      · show wp _ (if e' ≠ ENOENT then _ else _) _ s₂
        split
        · exact .inr rfl
        · exact hremake s₂
      · exact hremake s₂
    · exact .inr rfl
  · obtain ⟨-, rfl⟩ := h₁ rfl
    exact .inl ⟨rfl, rfl, _, rfl, rfl⟩

/-- The process comes after the limits, and nothing else is written for it. -/
theorem settings_procs {done todo : List CgroupsSetting} {x : CgroupsSetting}
    (h : cgroupsSettings pid = done ++ x :: todo) (hx : x.name = cgroupProcs) :
    x.value = pidBytes pid ∧ done = groupLimits := by
  have hmem : memoryMax ≠ cgroupProcs := by decide
  have hcpu : cpuWeight ≠ cgroupProcs := by decide
  have hpids : pidsMax ≠ cgroupProcs := by decide
  rcases done with _ | ⟨a, _ | ⟨b, _ | ⟨c, _ | ⟨d, done⟩⟩⟩⟩ <;>
    simp only [cgroupsSettings, List.nil_append, List.cons_append, List.cons.injEq] at h
  · obtain ⟨rfl, -⟩ := h
    exact absurd hx hmem
  · obtain ⟨-, rfl, -⟩ := h
    exact absurd hx hcpu
  · obtain ⟨-, -, rfl, -⟩ := h
    exact absurd hx hpids
  · obtain ⟨rfl, rfl, rfl, rfl, -⟩ := h
    exact ⟨rfl, rfl⟩
  · simp at h

/-- The loop: what is done holds in the directory, so that every setting goes on top of
those before it. -/
theorem cgroupsWrite_holds {todo : List CgroupsSetting} (done : List CgroupsSetting)
    (hall : cgroupsSettings pid = done ++ todo) (hs : s.Holds done) :
    wp ((groupKernel hostname).guard (Admits pid)) (cgroupsWrite hostname todo)
      (fun r s' => r = 0 → s'.Holds (cgroupsSettings pid)) s := by
  induction todo generalizing done s with
  | nil =>
    rw [List.append_nil] at hall
    exact fun _ => hall ▸ hs
  | cons x todo ih =>
    refine wp_sys trivial ?_
    rintro (e | fd) s₁ h₁
    · exact nofun
    obtain ⟨-, rfl⟩ := h₁ rfl
    refine wp_sys (c := .write fd x.value) ?_ ?_
    · intro hprocs
      rw [setOpened_self] at hprocs
      obtain ⟨hvalue, rfl⟩ := settings_procs hall (Option.some.inj hprocs)
      exact ⟨hvalue, hs⟩
    rintro (e | n) s₂ h₂
    · refine wp_sys (c := .close fd) trivial fun _ _ _ => ?_
      exact nofun
    obtain ⟨hfresh, d, hd, hdone⟩ := hs
    have hs₂ : s₂.Holds (done ++ [x]) := by
      have hwrite := h₂.2
      rw [setOpened_self] at hwrite
      subst hwrite
      exact ⟨hfresh, d.write x, by simp [hd], by simp [GroupDir.write, hdone]⟩
    refine wp_sys (c := .close fd) trivial ?_
    rintro (e | _) s₃ h₃
    · exact nofun
    · obtain rfl : s₃ = s₂.setOpened fd none := h₃
      exact ih _ (by simpa using hall) hs₂

theorem cgroupsInit_admits (dir : Option GroupDir) :
    wp ((groupKernel hostname).guard (Admits pid)) (cgroupsInit hostname pid)
      (fun r s' => r = 0 → s'.Holds (cgroupsSettings pid)) (.before dir) := by
  refine (wp_bind _ _ _).mpr (enableControllers_wp (fun o c h => admits_of_closed h) fun o => ?_)
  refine wp_seq cgroupsMkdir_fresh ?_
  rintro r s₁ (⟨rfl, hfresh⟩ | rfl)
  · exact cgroupsWrite_holds [] rfl hfresh
  · exact nofun

/-! ## A directory with members -/

/-- Neither removed nor written to. -/
def Unchanged (dir : GroupDir) (s : GroupFs) (_ : Call) : Prop := s.dir = some dir

theorem cgroupsRemake_taken {dir : GroupDir} (hs : s.dir = some dir) :
    wp ((groupKernel hostname).guard (Unchanged dir)) (cgroupsRemake hostname)
      (fun r s' => r = -1 ∧ s'.dir = some dir) s := by
  refine wp_sys hs ?_
  rintro (e | _) s₁ h₁
  · obtain rfl : s₁ = s := h₁
    exact ⟨rfl, hs⟩
  · exact absurd (h₁ rfl).1 (by simp [hs])

theorem cgroupsMkdir_taken {dir : GroupDir} (hocc : dir.occupied = true)
    (hs : s.dir = some dir) :
    wp ((groupKernel hostname).guard (Unchanged dir)) (cgroupsMkdir hostname)
      (fun r s' => r = -1 ∧ s'.dir = some dir) s := by
  refine wp_sys hs ?_
  rintro (e | _) s₁ h₁
  · obtain rfl : s₁ = s := h₁
    show wp _ (if e = EEXIST then _ else _) _ s₁
    split
    · refine wp_sys hs ?_
      rintro (e' | _) s₂ h₂
      · obtain rfl : s₂ = s₁ := h₂
        show wp _ (if e' ≠ ENOENT then _ else _) _ s₂
        split
        · exact ⟨rfl, hs⟩
        · exact cgroupsRemake_taken hs
      · obtain ⟨⟨d, hd, hfree⟩, -⟩ := h₂ rfl
        rw [hs] at hd
        cases hd
        rw [hocc] at hfree
        cases hfree
    · exact ⟨rfl, hs⟩
  · exact absurd (h₁ rfl).1 (by simp [hs])

theorem cgroupsInit_taken {dir : GroupDir} (hocc : dir.occupied = true) :
    wp ((groupKernel hostname).guard (Unchanged dir)) (cgroupsInit hostname pid)
      (fun r s' => r = -1 ∧ s'.dir = some dir) (.before (some dir)) := by
  refine (wp_bind _ _ _).mpr (enableControllers_wp (fun _ _ _ => rfl) fun o => ?_)
  refine wp_seq (cgroupsMkdir_taken hocc rfl) ?_
  rintro r s₁ ⟨rfl, hs₁⟩
  exact ⟨rfl, hs₁⟩

end Runs

/-- The directory, the order of the writes and the members hold for every host name and
process. -/
theorem cgroupsInit_whole (hostname : CStr) (pid : Nat) : AdmitsWhole hostname pid where
  admitted dir _ _ _ _ hrun := run_call (cgroupsInit_admits dir) hrun
  whole dir _ hrun := wp_run (cgroupsInit_admits dir) (hrun.guard _) rfl
  untouched dir hocc p s' hrun := by
    have hleft := wp_run (cgroupsInit_taken hocc) (hrun.guard _)
    cases p with
    | ret r => exact ⟨hleft.2, by rintro _ ⟨rfl⟩; exact hleft.1⟩
    | call c k => exact ⟨hleft.1, nofun⟩

end Barco
