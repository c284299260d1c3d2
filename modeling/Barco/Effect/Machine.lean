import Barco.Effect.Prog

/-!
# Running a program against a machine

A machine says which calls may be made in a state and how a call and its
answer change the state. The same notion serves three purposes: a kernel that
answers calls, a history that only records them, and a local protocol that a
process has to follow.

`Prog.wp M p Q s` is the weakest precondition: started in `s`, every call of
`p` is one the machine allows at that point, and every return satisfies `Q`.
`wp_run` is its soundness for the small steps of `Run`.
-/

namespace Effect

variable {C : Type} {R : C → Type} {α β σ τ : Type}

/-- A machine over the states `σ`. -/
structure Machine (C : Type) (R : C → Type) (σ : Type) where
  /-- The call may be made in the state. -/
  may : σ → C → Prop
  /-- The call may get this answer and leave this state. -/
  step : σ → (c : C) → R c → σ → Prop

/-- A call together with its answer. -/
abbrev Event (C : Type) (R : C → Type) : Type := (c : C) × R c

/-- The machine that gives any answer and writes down what happened. -/
def Machine.history : Machine C R (List (Event C R)) where
  may _ _ := True
  step h c r h' := h' = h ++ [⟨c, r⟩]

/-- The same steps with another rule for what may be called. -/
def Machine.guard (M : Machine C R σ) (P : σ → C → Prop) : Machine C R σ := { M with may := P }

/-- The machine on states of which it sees a part. -/
def Machine.comap (view : τ → σ) (M : Machine C R σ) : Machine C R τ where
  may t c := M.may (view t) c
  step t c r t' := M.step (view t) c r (view t')

/-- `Run M p s q t`: from the state `s`, the program `p` can make calls until
`q` is left to run and the state is `t`. -/
inductive Run (M : Machine C R σ) : Prog C R α → σ → Prog C R α → σ → Prop
  | refl (p : Prog C R α) (s : σ) : Run M p s p s
  | call {c : C} {k : R c → Prog C R α} {r : R c} {q : Prog C R α} {s s' t : σ} :
      M.step s c r s' → Run M (k r) s' q t → Run M (.call c k) s q t

theorem Run.trans {M : Machine C R σ} {p q u : Prog C R α} {s t v : σ}
    (h : Run M p s q t) (h' : Run M q t u v) : Run M p s u v := by
  induction h with
  | refl _ _ => exact h'
  | call hs _ ih => exact .call hs (ih h')

/-- What may be called plays no part in a run. -/
theorem Run.guard {M : Machine C R σ} {p q : Prog C R α} {s t : σ} (h : Run M p s q t)
    (P : σ → C → Prop) : Run (M.guard P) p s q t := by
  induction h with
  | refl _ _ => exact .refl _ _
  | call hs _ ih => exact .call hs ih

/-- The first part of a sequence runs as it does alone. -/
theorem Run.bind_left {M : Machine C R σ} {p q : Prog C R α} {s t : σ} (f : α → Prog C R β)
    (h : Run M p s q t) : Run M (p >>= f) s (q >>= f) t := by
  induction h with
  | refl _ _ => exact .refl _ _
  | call hs _ ih => exact .call hs ih

/-- A sequence runs its first part to the end and then its second. -/
theorem Run.bind {M : Machine C R σ} {p : Prog C R α} {a : α} {f : α → Prog C R β}
    {q : Prog C R β} {s t u : σ} (h : Run M p s (.ret a) t) (h' : Run M (f a) t q u) :
    Run M (p >>= f) s q u :=
  (h.bind_left f).trans h'

namespace Prog

/-- Every call the program can make is allowed when it is made, and every
return satisfies `Q`. -/
def wp (M : Machine C R σ) : Prog C R α → (α → σ → Prop) → σ → Prop
  | .ret a, Q, s => Q a s
  | .call c k, Q, s => M.may s c ∧ ∀ r s', M.step s c r s' → wp M (k r) Q s'

variable {M : Machine C R σ} {Q Q' : α → σ → Prop} {s t : σ}

@[simp] theorem wp_ret (a : α) : wp M (.ret a) Q s ↔ Q a s := Iff.rfl

@[simp] theorem wp_pure (a : α) : wp M (pure a) Q s ↔ Q a s := Iff.rfl

@[simp] theorem wp_perform (c : C) (Q : R c → σ → Prop) :
    wp M (perform c) Q s ↔ M.may s c ∧ ∀ r s', M.step s c r s' → Q r s' := Iff.rfl

@[simp] theorem wp_bind (p : Prog C R α) (f : α → Prog C R β) (Q : β → σ → Prop) :
    wp M (p >>= f) Q s ↔ wp M p (fun a s' => wp M (f a) Q s') s := by
  induction p generalizing s with
  | ret a => rfl
  | call c k ih =>
    exact and_congr Iff.rfl
      (forall_congr' fun r => forall_congr' fun s' => imp_congr Iff.rfl (ih r))

/-- Consequence: a stronger postcondition may be weakened. -/
theorem wp_mono {p : Prog C R α} (h : wp M p Q s) (hQ : ∀ a t, Q a t → Q' a t) :
    wp M p Q' s := by
  induction p generalizing s with
  | ret a => exact hQ a s h
  | call c k ih => exact ⟨h.1, fun r s' hs => ih r (h.2 r s' hs)⟩

/-- Two postconditions that hold separately hold together. -/
theorem wp_and {p : Prog C R α} (h : wp M p Q s) (h' : wp M p Q' s) :
    wp M p (fun a t => Q a t ∧ Q' a t) s := by
  induction p generalizing s with
  | ret a => exact ⟨h, h'⟩
  | call c k ih => exact ⟨h.1, fun r s' hs => ih r (h.2 r s' hs) (h'.2 r s' hs)⟩

/-- Sequencing with a named middle condition. -/
theorem wp_seq {p : Prog C R α} {f : α → Prog C R β} {Q' : β → σ → Prop} (h : wp M p Q s)
    (hf : ∀ a t, Q a t → wp M (f a) Q' t) : wp M (p >>= f) Q' s :=
  (wp_bind p f Q').mpr (wp_mono h hf)

/-- Soundness: what is left of the program after some steps is still correct. -/
theorem wp_run {p q : Prog C R α} (h : wp M p Q s) (hr : Run M p s q t) : wp M q Q t := by
  induction hr with
  | refl _ _ => exact h
  | call hs _ ih => exact ih (h.2 _ _ hs)

/-- A machine that answers every call it allows runs a correct program to its end. -/
theorem wp_total (hM : ∀ s c, M.may s c → ∃ r s', M.step s c r s') {p : Prog C R α}
    (h : wp M p Q s) : ∃ a t, Run M p s (.ret a) t ∧ Q a t := by
  induction p generalizing s with
  | ret a => exact ⟨a, s, .refl _ _, h⟩
  | call c k ih =>
    obtain ⟨r, s', hs⟩ := hM s c h.1
    obtain ⟨a, t, hr, hQ⟩ := ih r (h.2 r s' hs)
    exact ⟨a, t, .call hs hr, hQ⟩

/-- A property of the state that every call in the footprint keeps is kept by
the whole program. -/
theorem wp_of_only {S : C → Prop} {J : σ → Prop} {p : Prog C R α} (hp : p.Only S)
    (hJ : ∀ s c, S c → J s → M.may s c ∧ ∀ r s', M.step s c r s' → J s') (hs : J s) :
    wp M p (fun _ t => J t) s := by
  induction p generalizing s with
  | ret a => exact hs
  | call c k ih =>
    obtain ⟨hm, hk⟩ := hJ s c hp.1 hs
    exact ⟨hm, fun r s' h => ih r (hp.2 r) (hk r s' h)⟩

/-- A program that is correct for `M` is correct for every machine that `M`
simulates: where `M` allows a call the machine does, and its steps are steps of
`M`. -/
theorem wp_sim {N : Machine C R τ} {I : σ → τ → Prop} {u : τ}
    (hsim : ∀ s u c, I s u → M.may s c →
      N.may u c ∧ ∀ r u', N.step u c r u' → ∃ s', M.step s c r s' ∧ I s' u')
    {p : Prog C R α} (h : wp M p Q s) (hI : I s u) :
    wp N p (fun a u' => ∃ s', I s' u' ∧ Q a s') u := by
  induction p generalizing s u with
  | ret a => exact ⟨s, hI, h⟩
  | call c k ih =>
    obtain ⟨hm, hs⟩ := hsim s u c hI h.1
    refine ⟨hm, fun r u' hu => ?_⟩
    obtain ⟨s', hs', hI'⟩ := hs r u' hu
    exact ih r (h.2 r s' hs') hI'

theorem wp_comap {view : τ → σ} {p : Prog C R α} {u : τ} (h : wp M p Q (view u)) :
    wp (M.comap view) p (fun a u' => Q a (view u')) u := by
  induction p generalizing u with
  | ret a => exact h
  | call c k ih => exact ⟨h.1, fun r u' hs => ih r (h.2 r _ hs)⟩

/-- A rule that allows the whole footprint may be added. -/
theorem wp_guard {S : C → Prop} {P : σ → C → Prop} {p : Prog C R α} (h : wp M p Q s)
    (hp : p.Only S) (hP : ∀ s c, S c → P s c) : wp (M.guard P) p Q s := by
  induction p generalizing s with
  | ret a => exact h
  | call c k ih => exact ⟨hP s c hp.1, fun r s' hs => ih r (h.2 r s' hs) (hp.2 r)⟩

/-- A rule for one call holds wherever a run stands at it. -/
theorem run_call {P : σ → C → Prop} {p : Prog C R α} {c : C} {k : R c → Prog C R α}
    (h : wp (M.guard P) p Q s) (hr : Run M p s (.call c k) t) : P t c :=
  (wp_run h (hr.guard P)).1

/-- A machine that can take every answer shows the footprint of a program. -/
theorem only_of_wp {S : C → Prop} (hmay : ∀ s c, M.may s c → S c)
    (hstep : ∀ s c r, ∃ s', M.step s c r s') {p : Prog C R α} (h : wp M p Q s) : p.Only S := by
  induction p generalizing s with
  | ret a => trivial
  | call c k ih =>
    refine ⟨hmay s c h.1, fun r => ?_⟩
    obtain ⟨s', hs'⟩ := hstep s c r
    exact ih r (h.2 r s' hs')

/-- A machine that can take every answer shows what a program can return. -/
theorem returns_of_wp {P : α → Prop} (hstep : ∀ s c r, ∃ s', M.step s c r s') {p : Prog C R α}
    (h : wp M p (fun a _ => P a) s) : p.Returns P := by
  induction p generalizing s with
  | ret a => exact h
  | call c k ih =>
    intro r
    obtain ⟨s', hs'⟩ := hstep s c r
    exact ih r (h.2 r s' hs')

/-- A run can only stand at calls of the footprint. -/
theorem Only.run_call {S : C → Prop} {p : Prog C R α} {c : C} {k : R c → Prog C R α}
    (hp : p.Only S) (hr : Run M p s (.call c k) t) : S c :=
  Prog.run_call (P := fun _ c => S c) (wp_of_only (J := fun _ => True) hp
    (fun _ _ hc _ => ⟨hc, fun _ _ _ => trivial⟩) trivial) hr

/-- A machine that can take every answer has a run to each call the program can make. -/
theorem CanCall.run {p : Prog C R α} {c : C} (h : p.CanCall c)
    (hstep : ∀ s c r, ∃ s', M.step s c r s') (s : σ) : ∃ k t, Run M p s (.call c k) t := by
  induction p generalizing s with
  | ret a => exact h.elim
  | call c' k ih =>
    obtain rfl | ⟨r, hr⟩ := h
    · exact ⟨k, s, .refl _ _⟩
    · obtain ⟨s', hs'⟩ := hstep s c' r
      obtain ⟨k', t, hrun⟩ := ih r hr s'
      exact ⟨k', t, .call hs' hrun⟩

/-- What a program can return may be added to every postcondition. -/
theorem wp_returns {P : α → Prop} {p : Prog C R α} (h : wp M p Q s) (hp : p.Returns P) :
    wp M p (fun a t => Q a t ∧ P a) s := by
  induction p generalizing s with
  | ret a => exact ⟨h, hp⟩
  | call c k ih => exact ⟨h.1, fun r s' hs => ih r (h.2 r s' hs) (hp r)⟩

/-! ## Playing a program against chosen answers -/

/-- Run a program with the answers `ans` and a kernel given as a function, up to
the first call that gets no answer. -/
def play (ans : σ → (c : C) → Option (R c)) (post : σ → (c : C) → R c → σ) :
    Prog C R α → σ → Prog C R α × σ
  | .ret a, s => (.ret a, s)
  | .call c k, s =>
    match ans s c with
    | none => (.call c k, s)
    | some r => play ans post (k r) (post s c r)

theorem run_play (ans : σ → (c : C) → Option (R c)) (post : σ → (c : C) → R c → σ)
    (h : ∀ s c r, ans s c = some r → M.step s c r (post s c r)) {p q : Prog C R α}
    (hp : p.play ans post s = (q, t)) : Run M p s q t := by
  induction p generalizing s with
  | ret b =>
    cases hp
    exact .refl _ _
  | call c k ih =>
    cases hr : ans s c with
    | none =>
      simp only [play, hr] at hp
      cases hp
      exact .refl _ _
    | some r =>
      simp only [play, hr] at hp
      exact .call (h s c r hr) (ih r hp)

/-- The value of a program that has returned. -/
def value? : Prog C R α → Option α
  | .ret a => some a
  | .call _ _ => none

theorem eq_ret_of_value? {p : Prog C R α} {a : α} (h : p.value? = some a) : p = .ret a := by
  cases p with
  | ret b => rw [Option.some.inj h]
  | call c k => exact nomatch h

/-- A program that is played to its end. -/
theorem run_play_ret (ans : σ → (c : C) → Option (R c)) (post : σ → (c : C) → R c → σ)
    (h : ∀ s c r, ans s c = some r → M.step s c r (post s c r)) {p : Prog C R α} {a : α}
    (hp : (p.play ans post s).1.value? = some a) : Run M p s (.ret a) (p.play ans post s).2 :=
  run_play ans post h (Prod.ext (eq_ret_of_value? hp) rfl)

end Prog

/-! ## The history of a run -/

/-- Everything a program adds to its history is in its footprint. -/
theorem Run.only {S : C → Prop} {p q : Prog C R α} {h h' : List (Event C R)}
    (hr : Run Machine.history p h q h') (hp : p.Only S) :
    ∃ new, h' = h ++ new ∧ ∀ e ∈ new, S e.1 := by
  induction hr with
  | refl _ h => exact ⟨[], by simp, by simp⟩
  | @call c k r q h s' t hs _ ih =>
    obtain ⟨new, hnew, hall⟩ := ih (hp.2 r)
    refine ⟨⟨c, r⟩ :: new, ?_, ?_⟩
    · rw [hnew, hs, List.append_assoc]
      rfl
    · intro e he
      cases he with
      | head => exact hp.1
      | tail _ h => exact hall e h

end Effect
