import Barco.Linux.Capability
import Barco.Sec
import Mathlib.Data.Fintype.Basic

/-!
# What the calls of `sec.c` do

`secKernel` is the part of the kernel, of libcap and of libseccomp that
`sec.c` talks to: the capability sets of the caller, the working copy of
`cap_get_proc`, the filter under construction and the loaded one. Every call
may fail without effect.

`secSetCaps_spec` and `secSetSeccomp_spec` say what the two functions leave
when they return 0, which is exactly when all their steps were done.
-/

namespace Barco

open Effect Prog

/-- All capabilities. -/
def allCaps : List Cap :=
  [.chown, .dacOverride, .dacReadSearch, .fowner, .fsetid, .kill, .setgid, .setuid, .setpcap,
    .linuxImmutable, .netBindService, .netBroadcast, .netAdmin, .netRaw, .ipcLock, .ipcOwner,
    .sysModule, .sysRawio, .sysChroot, .sysPtrace, .sysPacct, .sysAdmin, .sysBoot, .sysNice,
    .sysResource, .sysTime, .sysTtyConfig, .mknod, .lease, .auditWrite, .auditControl, .setfcap,
    .macOverride, .macAdmin, .syslog, .wakeAlarm, .blockSuspend, .auditRead, .perfmon, .bpf,
    .checkpointRestore]

instance : Fintype Cap where
  elems := allCaps.toFinset
  complete c := by cases c <;> decide

/-- The state behind `sec.c`. -/
structure SecState where
  caps : Capability.Sets Cap
  work : Option (Capability.Sets Cap)
  ctx : Option (Seccomp.Filter ScmpAction)
  loaded : Option (Seccomp.Filter ScmpAction)

/-- The effect of an answered call. -/
def secPost (s : SecState) : (c : Call) → Answer c → SecState
  | .prctlCapbsetDrop c, .ok _ => { s with caps := s.caps.dropBounding c }
  | .capGetProc, true => { s with work := some s.caps }
  | .capClearInheritable cs, .ok _ =>
    { s with work := s.work.map fun w => { w with inheritable := w.inheritable \ cs.toFinset } }
  | .capSetProc, .ok _ =>
    match s.work with
    | some w => { s with caps := s.caps.capset w.permitted w.effective w.inheritable }
    | none => s
  | .capFree, _ => { s with work := none }
  | .seccompInit action, true => { s with ctx := some ⟨action, []⟩ }
  | .seccompRuleAdd rule, .ok _ =>
    { s with ctx := s.ctx.map fun f => { f with rules := f.rules ++ [rule] } }
  | .seccompLoad, .ok _ => { s with loaded := s.ctx }
  | .seccompRelease, _ => { s with ctx := none }
  | _, _ => s

/-- Any call may be made and may get any answer. -/
def secKernel : Machine Call Answer SecState where
  may _ _ := True
  step s c r s' := s' = secPost s c r

/-- The filter of `sec_set_seccomp`. -/
def secFilter : Seccomp.Filter ScmpAction := ⟨.allow, secRules⟩

/-! ## Capabilities -/

/-- The loop over `drop_caps` takes each capability it reached the end with out
of the bounding set. -/
theorem dropBounding_spec (cs : List Cap) (s : SecState) :
    wp secKernel (dropBounding cs)
      (fun b t => b = true → t = { s with
        caps := { s.caps with bounding := s.caps.bounding \ cs.toFinset } }) s := by
  unfold dropBounding
  induction cs generalizing s with
  | nil => simp [untilError]
  | cons c cs ih =>
    refine ⟨trivial, fun r s' hs => ?_⟩
    cases r with
    | error e => exact fun h => nomatch h
    | ok u =>
      subst hs
      refine wp_mono (ih _) fun b t ht hb => ?_
      rw [ht hb]
      simp only [secPost, Capability.Sets.dropBounding, List.toFinset_cons]
      congr 2
      ext x
      simp only [Finset.mem_sdiff, Finset.mem_erase, Finset.mem_insert]
      tauto

/-- What `sec_set_caps` makes of the capability sets of its caller. -/
def dropped (caps : Capability.Sets Cap) : Capability.Sets Cap :=
  { caps with
    inheritable := caps.inheritable \ dropCaps.toFinset
    bounding := caps.bounding \ dropCaps.toFinset
    ambient := caps.ambient ∩ caps.permitted ∩ (caps.inheritable \ dropCaps.toFinset) }

/-- `sec_set_caps` returns 0 only after all its steps. -/
theorem secSetCaps_spec (s : SecState) :
    wp secKernel secSetCaps
      (fun r t => r = 0 → t.caps = dropped s.caps ∧ t.loaded = s.loaded) s := by
  unfold secSetCaps
  refine wp_seq (dropBounding_spec dropCaps s) fun b t ht => ?_
  cases b with
  | false => exact fun h => nomatch h
  | true =>
    rw [ht rfl]
    refine ⟨trivial, fun r s₁ h₁ => ?_⟩
    cases r with
    | false => exact fun h => nomatch h
    | true =>
      refine ⟨trivial, fun r s₂ h₂ => ?_⟩
      cases r with
      | error e => exact ⟨trivial, fun _ _ _ h => nomatch h⟩
      | ok u =>
        refine ⟨trivial, fun r s₃ h₃ => ?_⟩
        cases r with
        | error e => exact ⟨trivial, fun _ _ _ h => nomatch h⟩
        | ok u =>
          subst h₁ h₂ h₃
          exact ⟨trivial, fun _ t h _ => h ▸ ⟨rfl, rfl⟩⟩

/-- The bounding, inheritable and ambient sets that `sec_set_caps` leaves do not
meet `drop_caps`. -/
theorem dropped_disjoint (caps : Capability.Sets Cap) :
    Disjoint (dropped caps).inheritable dropCaps.toFinset ∧
    Disjoint (dropped caps).bounding dropCaps.toFinset ∧
    Disjoint (dropped caps).ambient dropCaps.toFinset :=
  ⟨Finset.sdiff_disjoint, Finset.sdiff_disjoint,
    Finset.sdiff_disjoint.mono_left Finset.inter_subset_right⟩

/-! ## The filter -/

theorem addRules_spec (rules : List ScmpRule) (s : SecState) (f : Seccomp.Filter ScmpAction)
    (hf : s.ctx = some f) :
    wp secKernel (addRules rules)
      (fun b t => b = true → t = { s with ctx := some { f with rules := f.rules ++ rules } })
      s := by
  unfold addRules
  induction rules generalizing s f with
  | nil =>
    refine fun _ => ?_
    simp [hf.symm]
  | cons rule rules ih =>
    refine ⟨trivial, fun r s' hs => ?_⟩
    cases r with
    | error e => exact fun h => nomatch h
    | ok u =>
      subst hs
      refine wp_mono (ih _ { f with rules := f.rules ++ [rule] } (by simp [secPost, hf]))
        fun b t ht hb => ?_
      rw [ht hb]
      simp [secPost]

/-- `sec_set_seccomp` returns 0 only with the complete filter loaded, and
otherwise loads nothing. -/
theorem secSetSeccomp_spec (s : SecState) :
    wp secKernel secSetSeccomp
      (fun r t => r = 0 → t.loaded = some secFilter ∧ t.caps = s.caps) s := by
  unfold secSetSeccomp
  refine ⟨trivial, fun r s₁ h₁ => ?_⟩
  cases r with
  | false => exact fun h => nomatch h
  | true =>
    subst h₁
    show wp secKernel (addRules secRules >>= _) _ _
    refine wp_seq (addRules_spec secRules _ ⟨.allow, []⟩ rfl) fun b t ht => ?_
    cases b with
    | false => exact ⟨trivial, fun _ _ _ h => nomatch h⟩
    | true =>
      rw [ht rfl]
      refine ⟨trivial, fun r s₂ h₂ => ?_⟩
      cases r with
      | error e => exact ⟨trivial, fun _ _ _ h => nomatch h⟩
      | ok u =>
        refine ⟨trivial, fun r s₃ h₃ => ?_⟩
        cases r with
        | error e => exact ⟨trivial, fun _ _ _ h => nomatch h⟩
        | ok u =>
          subst h₂ h₃
          exact ⟨trivial, fun _ t h _ => h ▸ ⟨rfl, rfl⟩⟩

end Barco
