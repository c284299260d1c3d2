import Barco.Filter

/-!
# What the processes of a container can regain

The processes of a container go on from the capability sets and the filter
that the two functions of `sec.c` left. Every request goes through the filter,
which sees the registers only; a request it lets through acts on the
capability sets.

1. `confined_after_exec`: the first `execve` leaves no capability of
   `drop_caps`.
2. `allowed_newUser`: the only request that gets through and makes a user
   namespace is `clone3`, whose flags are in memory.
3. `privileges_stay_dropped`: without such a request no process ever has a
   capability of `drop_caps` again; `clone3_regains_privileges` is a run with
   one.
-/

namespace Barco

open Effect Prog Seccomp Capability

/-- What a process of the container asks for. The flags of `clone` and
`unshare` are in register 0. -/
inductive Request
  | execve (file : Capability.File Cap)
  | capset (permitted effective inheritable : Finset Cap)
  | clone
  | clone3 (flags : BitVec 64)
  | unshare

/-- A request, and the registers at the time of the call. -/
structure ContainerCall where
  request : Request
  regs : Regs

namespace ContainerCall

def nr (c : ContainerCall) : Nat :=
  match c.request with
  | .execve _ => Sysno.execve
  | .capset _ _ _ => Sysno.capset
  | .clone => Sysno.clone
  | .clone3 _ => Sysno.clone3
  | .unshare => Sysno.unshare

/-- What the call does once the filter has let it through. -/
def action (c : ContainerCall) : Action Cap :=
  match c.request with
  | .execve file => .execve file
  | .capset permitted effective inheritable => .capset permitted effective inheritable
  | .clone => .spawn (c.regs 0 &&& CLONE_NEWUSER ≠ 0)
  | .clone3 flags => .spawn (flags &&& CLONE_NEWUSER ≠ 0)
  | .unshare => .unshare (c.regs 0 &&& CLONE_NEWUSER ≠ 0)

/-- A `clone3` that asks for a new user namespace. -/
def Clone3NewUser (c : ContainerCall) : Prop :=
  ∃ flags, c.request = .clone3 flags ∧ flags &&& CLONE_NEWUSER ≠ 0

end ContainerCall

/-- Runs of the container under the filter `f` in which every call meets `ok`. -/
def ContainerRun (f : Seccomp.Filter ScmpAction) (ok : ContainerCall → Prop) :
    List (Proc Cap) → List (Proc Cap) → Prop :=
  Steps fun a => ∃ c : ContainerCall, c.action = a ∧ f.eval c.nr c.regs = .allow ∧ ok c

/-- The process has a capability of `drop_caps`. -/
def Privileged (p : Proc Cap) : Prop :=
  ∃ c ∈ dropCaps, c ∈ p.sets.permitted ∨ c ∈ p.sets.effective

/-- `sec_set_caps` and then `sec_set_seccomp`. -/
def secSetup : Sys (Int × Int) := do
  let caps ← secSetCaps
  let filter ← secSetSeccomp
  return (caps, filter)

/-! ## The start of the container -/

/-- What the two functions leave when both return 0. -/
theorem secSetup_spec (s : SecState) :
    wp secKernel secSetup
      (fun r t => r = (0, 0) → t.caps = dropped s.caps ∧ t.loaded = some secFilter) s := by
  refine wp_seq (secSetCaps_spec s) fun r₁ t₁ h₁ => ?_
  refine wp_seq (secSetSeccomp_spec t₁) fun r₂ t₂ h₂ => ?_
  rintro h
  obtain ⟨rfl, rfl⟩ := Prod.mk.inj h
  exact ⟨(h₂ rfl).2.trans (h₁ rfl).1, (h₂ rfl).1⟩

/-- The first `execve` leaves no capability of `drop_caps` in any set. -/
theorem confined_after_exec (caps : Capability.Sets Cap) (file : Capability.File Cap) :
    ((dropped caps).exec file).Confined dropCaps.toFinset :=
  have h := dropped_disjoint caps
  Sets.confined_exec h.1 h.2.1 h.2.2 file

/-! ## What gets through the filter -/

/-- A call with a request for a new user namespace in register 0 is denied. -/
theorem newUser_denied {nr : Nat} {regs : Regs} (hnr : nr = Sysno.unshare ∨ nr = Sysno.clone)
    (hflag : regs 0 &&& CLONE_NEWUSER ≠ 0) : secFilter.eval nr regs ≠ .allow := by
  have hblocked : Blocked nr regs := .inr (.inr (.inl ⟨hnr, hflag⟩))
  rw [secFilter_eval, if_pos (.inl hblocked)]
  decide

/-- Only `clone3` gets through with a request for a new user namespace. -/
theorem allowed_newUser {c : ContainerCall} (hallow : secFilter.eval c.nr c.regs = .allow)
    (hnew : c.action.newUser = true) : c.Clone3NewUser := by
  obtain ⟨request, regs⟩ := c
  cases request with
  | execve file => exact nomatch hnew
  | capset permitted effective inheritable => exact nomatch hnew
  | clone => exact absurd hallow (newUser_denied (.inr rfl) (of_decide_eq_true hnew))
  | clone3 flags => exact ⟨flags, rfl, of_decide_eq_true hnew⟩
  | unshare => exact absurd hallow (newUser_denied (.inl rfl) (of_decide_eq_true hnew))

/-! ## Runs -/

theorem not_privileged_of_confined {p : Proc Cap} (h : p.sets.Confined dropCaps.toFinset) :
    ¬ Privileged p := by
  rintro ⟨c, hc, hp | he⟩
  · exact Finset.disjoint_left.mp h.permitted hp (List.mem_toFinset.mpr hc)
  · exact Finset.disjoint_left.mp h.effective he (List.mem_toFinset.mpr hc)

/-- From any capability state in which the two functions of `sec.c` complete,
after the first `execve` and for every run of the container in which no
process asks `clone3` for a new user namespace, no process has a capability of
`drop_caps`. -/
theorem privileges_stay_dropped {s t : SecState} {f : Seccomp.Filter ScmpAction}
    (hrun : Run secKernel secSetup s (.ret (0, 0)) t) (hf : t.loaded = some f)
    (file : Capability.File Cap) {ps : List (Proc Cap)}
    (h : ContainerRun f (fun c => ¬ c.Clone3NewUser) [⟨0, t.caps.exec file⟩] ps) :
    ∀ p ∈ ps, ¬ Privileged p := by
  obtain ⟨hcaps, hloaded⟩ := wp_run (secSetup_spec s) hrun rfl
  obtain rfl : secFilter = f := Option.some.inj (hloaded.symm.trans hf)
  intro p hp
  refine not_privileged_of_confined (Steps.confined h ?_ ?_ p hp)
  · rintro a ⟨c, rfl, hallow, hok⟩
    exact Bool.eq_false_iff.mpr fun hnew => hok (allowed_newUser hallow hnew)
  · intro q hq
    rw [List.mem_singleton.mp hq, hcaps]
    exact confined_after_exec s.caps file

/-! ## Two runs -/

/-- What the two functions leave when every call is granted. -/
def secGranted : SecState := (secSetup.play (fun _ => granted) secPost secStart).2

theorem secSetup_granted : Run secKernel secSetup secStart (.ret (0, 0)) secGranted :=
  run_play_ret (fun _ => granted) secPost (fun _ _ _ _ => rfl) rfl

theorem secGranted_spec :
    secGranted.caps = dropped .full ∧ secGranted.loaded = some secFilter :=
  wp_run (secSetup_spec secStart) secSetup_granted rfl

/-- `/bin/sh` run by root: a file with full sets. -/
def rootFile : Capability.File Cap := ⟨Finset.univ, Finset.univ, true, true⟩

/-- The container's first process. -/
def firstProc : Proc Cap := ⟨0, secGranted.caps.exec rootFile⟩

/-- `clone3` with `CLONE_NEWUSER` in the flags it points to. -/
def clone3Call : ContainerCall := ⟨.clone3 CLONE_NEWUSER, fun _ => 0⟩

/-- The filter lets `clone3` through, and the new process has `CAP_SYS_ADMIN` in
its new user namespace. -/
theorem clone3_regains_privileges :
    ∃ (t : SecState) (f : Seccomp.Filter ScmpAction) (ps : List (Proc Cap)),
      Run secKernel secSetup secStart (.ret (0, 0)) t ∧ t.loaded = some f ∧
        ContainerRun f (fun _ => True) [⟨0, t.caps.exec rootFile⟩] ps ∧
        ∃ p ∈ ps, Privileged p := by
  have hallow : secFilter.eval clone3Call.nr clone3Call.regs = .allow := by decide
  refine ⟨_, _, [firstProc, ⟨1, .full⟩], secSetup_granted, secGranted_spec.2,
    .single ⟨0, clone3Call.action, ⟨clone3Call, rfl, hallow, trivial⟩, .spawnUser 1 rfl ?_⟩,
    ⟨1, .full⟩, ?_, .sysAdmin, by decide, .inl (Finset.mem_univ _)⟩
  · intro q hq
    rw [List.mem_singleton.mp hq]
    decide
  · exact List.mem_cons_of_mem _ List.mem_cons_self

/-- The first process forks, and the new one executes a file of root's: both have
`CAP_KILL`, and none of `drop_caps`. -/
theorem privileges_stay_dropped_fork :
    ∃ ps : List (Proc Cap), ContainerRun secFilter (fun c => ¬ c.Clone3NewUser) [firstProc] ps ∧
      ps.length = 2 ∧ (∀ p ∈ ps, .kill ∈ p.sets.effective) ∧ ∀ p ∈ ps, ¬ Privileged p := by
  have hfork : ContainerRun secFilter (fun c => ¬ c.Clone3NewUser) [firstProc]
      [firstProc, firstProc] :=
    .single ⟨0, .spawn false, ⟨⟨.clone, fun _ => 0⟩, rfl, by decide,
      by rintro ⟨flags, h, -⟩; exact nomatch h⟩, .spawn rfl⟩
  have hstep : Step 1 (.execve rootFile) [firstProc, firstProc]
      ([firstProc, firstProc].set 1 ⟨firstProc.userns, firstProc.sets.exec rootFile⟩) :=
    .execve rootFile rfl
  have hexec : ContainerRun secFilter (fun c => ¬ c.Clone3NewUser) [firstProc]
      [firstProc, ⟨0, firstProc.sets.exec rootFile⟩] :=
    hfork.tail ⟨1, .execve rootFile, ⟨⟨.execve rootFile, fun _ => 0⟩, rfl, by decide,
      by rintro ⟨flags, h, -⟩; exact nomatch h⟩, hstep⟩
  have hkill : .kill ∈ firstProc.sets.effective ∧
      .kill ∈ (firstProc.sets.exec rootFile).effective := by
    unfold firstProc
    rw [secGranted_spec.1]
    decide +kernel
  refine ⟨_, hexec, rfl, ?_,
    privileges_stay_dropped secSetup_granted secGranted_spec.2 rootFile hexec⟩
  exact List.forall_mem_cons.mpr ⟨hkill.1, List.forall_mem_singleton.mpr hkill.2⟩

end Barco
