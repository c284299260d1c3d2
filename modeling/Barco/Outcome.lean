import Barco.Agreement

/-!
# The handshake, and what `main` returns

What the invariant of the pair says about the system: the child is let go only when
everything is set up, the two never wait for each other, and the value `main` returns
says what became of the child.
-/

namespace Barco

open Effect Prog

section Results

variable {net help : Prop} {retries : Nat} {args : Args}
  {g g' : Global Role Call Answer Int World}

/-! ## The handshake -/

/-- The child is let go, at the latest before it changes its identity. -/
theorem Reached.released {c : Call} {k : Answer c → Sys Int} (h : Reached net help g)
    (hlife : g.kern.life = .starting) (hk : g.prog .child = .call c k)
    (hc : childRule g.kern.child c → goMessage ∈ g.kern.child.heard) : SetUp net g.kern.parent :=
  h.agreed.parent.go (h.agreed.released (hc (h.childCall hlife c k hk)))

/-- The child has terminated. -/
def World.Over (s : World) : Prop := ∃ status, s.life = .zombie status ∨ s.life = .reaped status

/-- What the value that `main` returns says about the child. -/
structure Outcome (help : Prop) (s : World) (r : Int) : Prop where
  /-- a child that was started has ended, or SIGKILL is on its way to it -/
  stopped : s.parent.pid ≠ none → s.Over ∨ s.parent.killed = true
  /-- 0 is the help text, or a program that ended well -/
  zero : r = 0 → help ∨ s.child.execed = true ∧ s.life = .reaped (.exited 0)
  /-- a program that was run has been waited for, and its end is the result -/
  ended : s.child.execed = true → ∃ status, s.life = .reaped status ∧ r = containerStatus status
  signaled : s.child.execed = true → ∀ sig, s.life = .reaped (.signaled sig) → r = 128 + sig
  /-- a failure before `execve` -/
  failed : s.child.execed = false → ¬ help → r ≠ 0

theorem Lives.of_status {pid : Option Nat} {status : WaitStatus} {execed : Bool} {life : Life}
    (h : Lives pid (some status) execed life) :
    life = .reaped status ∧ Terminated execed status := by
  cases h with
  | reaped _ hst => exact ⟨rfl, hst⟩

theorem Lives.not_execed {status : Option WaitStatus} {execed : Bool} {life : Life}
    (h : Lives none status execed life) : execed ≠ true := by
  cases h
  exact nofun

/-- The status of a child is 0 only when its program has exited with 0. -/
theorem Terminated.zero {execed : Bool} {status : WaitStatus} (h : Terminated execed status)
    (hzero : containerStatus status = 0) : execed = true ∧ status = .exited 0 := by
  cases h with
  | @exited code hlt hne =>
    obtain rfl : code = 0 := Int.ofNat.inj hzero
    cases execed with
    | true => exact ⟨rfl, rfl⟩
    | false => exact absurd rfl (hne rfl)
  | @signaled sig hpos hle =>
    have : (128 + sig : Int) = 0 := hzero
    omega

theorem Reached.outcome {r : Int} (h : Reached net help g) (hr : g.prog .parent = .ret r) :
    Outcome help g.kern r := by
  have hexec : g.kern.child.execed = true → goMessage ∈ g.kern.parent.sent := fun he =>
    h.agreed.released (h.agreed.child.executed he)
  cases h.parentRet r hr with
  | noChild hpid =>
    have hfalse : g.kern.child.execed ≠ true := (hpid ▸ h.agreed.lives).not_execed
    exact ⟨fun hne => absurd hpid hne, fun h => absurd h (by decide), fun he => absurd he hfalse,
      fun he => absurd he hfalse, fun _ _ => by decide⟩
  | help hhelp hpid =>
    have hfalse : g.kern.child.execed ≠ true := (hpid ▸ h.agreed.lives).not_execed
    exact ⟨fun hne => absurd hpid hne, fun _ => .inl hhelp, fun he => absurd he hfalse,
      fun he => absurd he hfalse, fun _ hno => absurd hhelp hno⟩
  | stopped hpid hkilled hgo =>
    have hfalse : g.kern.child.execed ≠ true := fun he => hgo (hexec he)
    exact ⟨fun _ => .inr hkilled, fun h => absurd h (by decide), fun he => absurd he hfalse,
      fun he => absurd he hfalse, fun _ _ => by decide⟩
  | @waited pid status hpid hstatus hgo =>
    obtain ⟨hlife, hterm⟩ := (hstatus ▸ h.agreed.lives).of_status
    refine ⟨fun _ => .inl ⟨status, .inr hlife⟩, fun hzero => .inr ?_, fun _ => ⟨status, hlife, rfl⟩,
      fun _ sig hsig => ?_, fun hno _ hzero => ?_⟩
    · obtain ⟨he, rfl⟩ := hterm.zero hzero
      exact ⟨he, hlife⟩
    · obtain rfl : status = .signaled sig := Life.reaped.inj (hlife.symm.trans hsig)
      rfl
    · exact nomatch hno.symm.trans (hterm.zero hzero).1

/-- `main` signals no child that it has waited for, and what it returns is the outcome
of its child. -/
theorem main_outcome (retries : Nat) (args : Args) (g : Global Role Call Answer Int World)
    (h : pairHost.Reachable (pairStart retries args) g) :
    (∀ pid sig k, g.prog .parent = .call (.kill pid sig) k →
      g.kern.parent.pid = some pid ∧ ∀ status, g.kern.life ≠ .reaped status) ∧
    ∀ r, g.prog .parent = .ret r →
      Outcome (args.errors = false ∧ args.help = true) g.kern r := by
  have hreached := pair_reached h
  refine ⟨fun pid sig k hk => ?_, fun r => hreached.outcome⟩
  obtain ⟨hpid, hstatus, -⟩ := hreached.parentCall _ k hk
  refine ⟨hpid, fun status hlife => ?_⟩
  have hlives := hreached.agreed.lives
  rw [hstatus, hlife] at hlives
  generalize g.kern.parent.pid = pid', g.kern.child.execed = execed at hlives
  cases hlives

end Results

/-! ## A run to the end -/

/-- The program of a container exits with 0. -/
def World.finish (s : World) : Option World :=
  if s.life = .running then some (s.exit (.exited 0)) else none

theorem World.finish_env {s s' : World} (h : s.finish = some s') : Env s s' := by
  simp only [finish] at h
  split at h
  · exact Option.some.inj h ▸ .exit ‹_› (by decide)
  · exact nomatch h

/-- `n` calls of one process, all granted. -/
def turns (i : Role) (n : Nat) : List (Host.Turn Role Call Answer) :=
  List.replicate n (.call i granted)

/-- Up to the parent's read, the child's, the parent's `waitpid`, the child's `execve`,
and the end. -/
def plainTurns : List (Host.Turn Role Call Answer) :=
  turns .parent 28 ++ turns .child 24 ++ turns .parent 12 ++ turns .child 58 ++ [.env] ++
    turns .parent 6

theorem plain_run : ∃ g, pairHost.Reachable (pairStart 1 plainArgs) g ∧
    g.prog .parent = .ret 0 ∧ g.kern.parent.mapped = some 0 := by
  have hrun : (pairHost.exec World.post World.finish plainTurns (pairStart 1 plainArgs)).map
      (fun g => ((g.prog .parent).value?, g.kern.parent.mapped)) = some (some 0, some 0) := by
    decide +kernel
  obtain ⟨g, hg, heq⟩ := Option.map_eq_some_iff.mp hrun
  obtain ⟨hret, hmapped⟩ := Prod.mk.inj heq
  exact ⟨g, Host.exec_reachable (fun _ _ _ _ _ => World.post_call) (fun _ _ => World.finish_env) hg,
    eq_ret_of_value? hret, hmapped⟩

/-- A container that is set up, runs and exits with 0. -/
theorem main_outcome_plain : ∃ g, pairHost.Reachable (pairStart 1 plainArgs) g ∧
    g.prog .parent = .ret 0 ∧ g.kern.child.execed = true ∧ g.kern.life = .reaped (.exited 0) := by
  obtain ⟨g, hg, hret, -⟩ := plain_run
  refine ⟨g, hg, hret, ?_⟩
  exact (((main_outcome 1 plainArgs g hg).2 0 hret).zero rfl).resolve_left fun h =>
    absurd h.2 (by decide)

end Barco
