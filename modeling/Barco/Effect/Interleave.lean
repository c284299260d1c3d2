import Barco.Effect.Machine
import Mathlib.Logic.Relation

/-!
# Programs interleaved over a shared kernel

A `Host` runs one program for each index, one call at a time and in any order,
over one kernel state; the environment may move the kernel state in between,
and a call may start another program (a clone).

Proofs about all interleavings are done without the program texts. Each
program follows a local protocol: a `Machine` on private states, checked by
`Prog.wp` on the program alone. `Simulates` says that the shared state and the
private states stay related by an invariant when one process makes one call
its protocol allows. `reachable_inv` then gives the invariant, and the
protocol of what is left of every program, in every reachable state.

`exec` runs a schedule; `exec_reachable` turns its result into a reachable
state.
-/

namespace Effect

variable {ι C : Type} {R : C → Type} {α σ L : Type}

/-- A shared kernel for the processes `ι`. -/
structure Host (ι C : Type) (R : C → Type) (α σ : Type) where
  /-- Process `i` may get this answer to this call, and the kernel moves. -/
  call : ι → σ → (c : C) → R c → σ → Prop
  /-- The environment may move the kernel. -/
  env : σ → σ → Prop
  /-- The program that this call of `i` starts as process `j`, if it starts one. -/
  spawn : ι → (c : C) → R c → ι → Option (Prog C R α)

/-- The state of the whole system: the kernel and what is left of every program. -/
structure Global (ι C : Type) (R : C → Type) (α σ : Type) where
  kern : σ
  prog : ι → Prog C R α

/-- The same programs over another state of the kernel. -/
def Global.map {τ : Type} (f : σ → τ) (g : Global ι C R α σ) : Global ι C R α τ :=
  ⟨f g.kern, g.prog⟩

namespace Host

variable [DecidableEq ι] (H : Host ι C R α σ)

/-- What is left of the programs after process `i` got the answer `r` to `c`. -/
def next (g : Global ι C R α σ) (i : ι) (c : C) (r : R c) (k : R c → Prog C R α) :
    ι → Prog C R α :=
  fun j => if j = i then k r else (H.spawn i c r j).getD (g.prog j)

/-- One step of the system. -/
inductive Step : Global ι C R α σ → Global ι C R α σ → Prop
  | call {g : Global ι C R α σ} {i : ι} {c : C} {k : R c → Prog C R α} {r : R c} {s' : σ} :
      g.prog i = .call c k → H.call i g.kern c r s' → Step g ⟨s', H.next g i c r k⟩
  | env {g : Global ι C R α σ} {s' : σ} : H.env g.kern s' → Step g ⟨s', g.prog⟩

/-- The states the system can reach from `g₀`, in any order of steps. -/
def Reachable (g₀ g : Global ι C R α σ) : Prop := Relation.ReflTransGen H.Step g₀ g

/-- The same system with only the calls that meet a condition on the state they
are made in. -/
def restrict (P : ι → σ → (c : C) → R c → Prop) : Host ι C R α σ :=
  { H with call := fun i s c r s' => H.call i s c r s' ∧ P i s c r }

/-- The shared state and the private states stay related by `I` when a process
makes one call that its protocol allows. -/
structure Simulates (M : ι → Machine C R L) (Q : ι → α → L → Prop) (I : σ → (ι → L) → Prop) :
    Prop where
  call : ∀ {s : σ} {ℓ : ι → L} {i : ι} {c : C} {r : R c} {s' : σ},
    I s ℓ → (M i).may (ℓ i) c → H.call i s c r s' →
    ∃ ℓ' : ι → L, I s' ℓ' ∧ (M i).step (ℓ i) c r (ℓ' i) ∧
      ∀ j, j ≠ i → match H.spawn i c r j with
        | none => ℓ' j = ℓ j
        | some p => Prog.wp (M j) p (Q j) (ℓ' j)
  env : ∀ {s : σ} {ℓ : ι → L} {s' : σ}, I s ℓ → H.env s s' → I s' ℓ

variable {H} {M : ι → Machine C R L} {Q : ι → α → L → Prop} {I : σ → (ι → L) → Prop}

/-- The invariant holds in every reachable state, and what is left of every program still
follows its protocol. A call may be checked with what is known of the states that can be
reached. -/
theorem reachable_under {R' : Global ι C R α σ → Prop} {g₀ g : Global ι C R α σ} (ℓ₀ : ι → L)
    (hR : ∀ g, H.Reachable g₀ g → R' g)
    (hcall : ∀ {g : Global ι C R α σ} {ℓ : ι → L} {i : ι} {c : C} {k : R c → Prog C R α}
      {r : R c} {s' : σ}, R' g → g.prog i = .call c k → I g.kern ℓ → (M i).may (ℓ i) c →
      H.call i g.kern c r s' →
      ∃ ℓ' : ι → L, I s' ℓ' ∧ (M i).step (ℓ i) c r (ℓ' i) ∧
        ∀ j, j ≠ i → match H.spawn i c r j with
          | none => ℓ' j = ℓ j
          | some p => Prog.wp (M j) p (Q j) (ℓ' j))
    (henv : ∀ {s : σ} {ℓ : ι → L} {s' : σ}, I s ℓ → H.env s s' → I s' ℓ)
    (hI : I g₀.kern ℓ₀) (hp : ∀ i, (g₀.prog i).wp (M i) (Q i) (ℓ₀ i)) (h : H.Reachable g₀ g) :
    ∃ ℓ, I g.kern ℓ ∧ ∀ i, (g.prog i).wp (M i) (Q i) (ℓ i) := by
  induction h with
  | refl => exact ⟨ℓ₀, hI, hp⟩
  | @tail g g' hreach hs ih =>
    obtain ⟨ℓ, hIℓ, hpℓ⟩ := ih
    cases hs with
    | env he => exact ⟨ℓ, henv hIℓ he, hpℓ⟩
    | @call i c k r s' hk hc =>
      have hi := hpℓ i
      rw [hk] at hi
      obtain ⟨ℓ', hI', hs, hj⟩ := hcall (hR g hreach) hk hIℓ hi.1 hc
      refine ⟨ℓ', hI', fun j => ?_⟩
      by_cases hji : j = i
      · subst hji
        simpa [next] using hi.2 r _ hs
      · have hother := hj j hji
        simp only [next, if_neg hji]
        cases hsp : H.spawn i c r j with
        | none =>
          rw [hsp] at hother
          rw [hother]
          exact hpℓ j
        | some p => simpa [hsp] using hother

theorem Simulates.reachable_inv (hS : H.Simulates M Q I) {g₀ g : Global ι C R α σ} (ℓ₀ : ι → L)
    (hI : I g₀.kern ℓ₀) (hp : ∀ i, (g₀.prog i).wp (M i) (Q i) (ℓ₀ i)) (h : H.Reachable g₀ g) :
    ∃ ℓ, I g.kern ℓ ∧ ∀ i, (g.prog i).wp (M i) (Q i) (ℓ i) := by
  have hR : ∀ g, H.Reachable g₀ g → True := fun _ _ => trivial
  exact reachable_under ℓ₀ hR (fun _ _ hI hmay hcall => hS.call hI hmay hcall) hS.env hI hp h

/-! ## Two hosts -/

/-- A host that sees more of the kernel's state reaches nothing else. -/
theorem reachable_map {τ : Type} {K : Host ι C R α τ} (f : σ → τ)
    (hcall : ∀ i s c r s', H.call i s c r s' → K.call i (f s) c r (f s'))
    (henv : ∀ s s', H.env s s' → K.env (f s) (f s')) (hspawn : H.spawn = K.spawn)
    {g g' : Global ι C R α σ} (h : H.Reachable g g') : K.Reachable (g.map f) (g'.map f) := by
  induction h with
  | refl => exact .refl
  | @tail g₁ g₂ _ hs ih =>
    refine ih.tail ?_
    cases hs with
    | env he => exact .env (henv _ _ he)
    | @call i c k r s' hk hc =>
      have hnext : H.next g₁ i c r k = K.next (g₁.map f) i c r k := by
        funext j
        simp only [next, Global.map, hspawn]
      rw [Global.map, hnext]
      exact .call hk (hcall i _ c r s' hc)

/-- A host with fewer calls reaches nothing else. -/
theorem reachable_of_restrict {P : ι → σ → (c : C) → R c → Prop} {g g' : Global ι C R α σ}
    (h : (H.restrict P).Reachable g g') : H.Reachable g g' := by
  have hcall : ∀ i s c r s', (H.restrict P).call i s c r s' → H.call i s c r s' :=
    fun _ _ _ _ _ hc => hc.1
  exact reachable_map id hcall (fun _ _ he => he) rfl h

/-! ## Running a schedule -/

variable (H)

/-- One entry of a schedule: a process with the kernel's answer to its call, or a
move of the environment. -/
inductive Turn (ι C : Type) (R : C → Type) where
  | call (who : ι) (answer : (c : C) → Option (R c))
  | env

/-- Run a schedule with a kernel and an environment given as functions; `none` when a
process has no call to make, or no answer is given or possible. -/
def exec (post : ι → σ → (c : C) → R c → Option σ) (move : σ → Option σ) :
    List (Turn ι C R) → Global ι C R α σ → Option (Global ι C R α σ)
  | [], g => some g
  | .env :: ts, g =>
    match move g.kern with
    | none => none
    | some s' => exec post move ts ⟨s', g.prog⟩
  | .call i answer :: ts, g =>
    match g.prog i with
    | .ret _ => none
    | .call c k =>
      match answer c with
      | none => none
      | some r =>
        match post i g.kern c r with
        | none => none
        | some s' => exec post move ts ⟨s', H.next g i c r k⟩

variable {H}

/-- What a schedule reaches is reachable. -/
theorem exec_reachable {post : ι → σ → (c : C) → R c → Option σ} {move : σ → Option σ}
    (hpost : ∀ i s c r s', post i s c r = some s' → H.call i s c r s')
    (hmove : ∀ s s', move s = some s' → H.env s s')
    {ts : List (Turn ι C R)} {g g' : Global ι C R α σ} (h : H.exec post move ts g = some g') :
    H.Reachable g g' := by
  induction ts generalizing g with
  | nil =>
    cases h
    exact .refl
  | cons t ts ih =>
    cases t with
    | env =>
      cases hm : move g.kern with
      | none => simp [exec, hm] at h
      | some s' =>
        simp only [exec, hm] at h
        exact Relation.ReflTransGen.head (.env (hmove _ _ hm)) (ih h)
    | call i answer =>
      cases hk : g.prog i with
      | ret a => simp [exec, hk] at h
      | call c k =>
        cases hr : answer c with
        | none => simp [exec, hk, hr] at h
        | some r =>
          cases hc : post i g.kern c r with
          | none => simp [exec, hk, hr, hc] at h
          | some s' =>
            simp only [exec, hk, hr, hc] at h
            exact Relation.ReflTransGen.head (.call hk (hpost _ _ _ _ _ hc)) (ih h)

end Host

end Effect
