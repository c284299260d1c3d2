/-!
# Programs over a signature of calls

A program is a tree: it returns a value, or it makes one call and goes on with
the answer. The same tree is run alone against a kernel (`Effect.Machine`),
and one call at a time next to other programs (`Effect.Interleave`).

`Only S p` says that every call of `p` is in `S`, whatever the answers are. It
is the footprint lemma of a function: what the function cannot touch.
-/

namespace Effect

/-- A program that makes calls `c : C`, is answered in `R c`, and returns an `α`. -/
inductive Prog (C : Type) (R : C → Type) (α : Type) : Type
  | ret (a : α) : Prog C R α
  | call (c : C) (k : R c → Prog C R α) : Prog C R α

namespace Prog

variable {C : Type} {R : C → Type} {α β : Type}

def bind : Prog C R α → (α → Prog C R β) → Prog C R β
  | .ret a, f => f a
  | .call c k, f => .call c fun r => (k r).bind f

instance : Monad (Prog C R) where
  pure := .ret
  bind := bind

/-- The program that makes one call and returns its answer. -/
def perform (c : C) : Prog C R (R c) := .call c .ret

theorem pure_eq (a : α) : (pure a : Prog C R α) = .ret a := rfl

@[simp] theorem ret_bind (a : α) (f : α → Prog C R β) : (Prog.ret a : Prog C R α) >>= f = f a := rfl

@[simp] theorem call_bind (c : C) (k : R c → Prog C R α) (f : α → Prog C R β) :
    (Prog.call c k : Prog C R α) >>= f = .call c fun r => k r >>= f := rfl

/-! ## Footprints -/

/-- Every call of the program is in `S`. -/
def Only (S : C → Prop) : Prog C R α → Prop
  | .ret _ => True
  | .call c k => S c ∧ ∀ r, (k r).Only S

/-- Every value the program can return satisfies `P`. -/
def Returns (P : α → Prop) : Prog C R α → Prop
  | .ret a => P a
  | .call _ k => ∀ r, (k r).Returns P

variable {S T : C → Prop}

@[simp] theorem only_pure (a : α) : (pure a : Prog C R α).Only S := trivial

@[simp] theorem only_perform {c : C} : (perform c : Prog C R (R c)).Only S ↔ S c :=
  ⟨fun h => h.1, fun h => ⟨h, fun _ => trivial⟩⟩

theorem Only.bind {p : Prog C R α} {f : α → Prog C R β} (hp : p.Only S)
    (hf : ∀ a, (f a).Only S) : (p >>= f).Only S := by
  induction p with
  | ret a => exact hf a
  | call c k ih => exact ⟨hp.1, fun r => ih r (hp.2 r)⟩

/-- The same with what is known about the values in between. -/
theorem Only.bind_returns {P : α → Prop} {p : Prog C R α} {f : α → Prog C R β} (hp : p.Only S)
    (hr : p.Returns P) (hf : ∀ a, P a → (f a).Only S) : (p >>= f).Only S := by
  induction p with
  | ret a => exact hf a hr
  | call c k ih => exact ⟨hp.1, fun r => ih r (hp.2 r) (hr r)⟩

theorem Only.mono {p : Prog C R α} (hp : p.Only S) (h : ∀ c, S c → T c) : p.Only T := by
  induction p with
  | ret a => trivial
  | call c k ih => exact ⟨h c hp.1, fun r => ih r (hp.2 r)⟩

theorem Returns.bind {P : α → Prop} {Q : β → Prop} {p : Prog C R α} {f : α → Prog C R β}
    (hp : p.Returns P) (hf : ∀ a, P a → (f a).Returns Q) : (p >>= f).Returns Q := by
  induction p with
  | ret a => exact hf a hp
  | call c k ih => exact fun r => ih r (hp r)

theorem Returns.mono {P Q : α → Prop} {p : Prog C R α} (hp : p.Returns P)
    (h : ∀ a, P a → Q a) : p.Returns Q := by
  induction p with
  | ret a => exact h a hp
  | call c k ih => exact fun r => ih r (hp r)

/-! ## What a program can do -/

/-- With some answers, the program returns `a`. -/
def CanReturn : Prog C R α → α → Prop
  | .ret b, a => b = a
  | .call _ k, a => ∃ r, (k r).CanReturn a

/-- With some answers, the program makes the call `c`. -/
def CanCall : Prog C R α → C → Prop
  | .ret _, _ => False
  | .call c' k, c => c' = c ∨ ∃ r, (k r).CanCall c

theorem CanReturn.bind {p : Prog C R α} {f : α → Prog C R β} {a : α} {b : β} (hp : p.CanReturn a)
    (hf : (f a).CanReturn b) : (p >>= f).CanReturn b := by
  induction p with
  | ret a' =>
    obtain rfl := hp
    exact hf
  | call c k ih =>
    obtain ⟨r, hr⟩ := hp
    exact ⟨r, ih r hr⟩

/-- A sequence can make what its second part can make after its first has returned. -/
theorem CanReturn.call {p : Prog C R α} {f : α → Prog C R β} {a : α} {c : C} (hp : p.CanReturn a)
    (hf : (f a).CanCall c) : (p >>= f).CanCall c := by
  induction p with
  | ret a' =>
    obtain rfl := hp
    exact hf
  | call c' k ih =>
    obtain ⟨r, hr⟩ := hp
    exact .inr ⟨r, ih r hr⟩

theorem CanCall.bind {p : Prog C R α} {f : α → Prog C R β} {c : C} (hp : p.CanCall c) :
    (p >>= f).CanCall c := by
  induction p with
  | ret a => exact hp.elim
  | call c' k ih => exact hp.imp id fun ⟨r, hr⟩ => ⟨r, ih r hr⟩

theorem Returns.of_can {P : α → Prop} {p : Prog C R α} {a : α} (hp : p.Returns P)
    (h : p.CanReturn a) : P a := by
  induction p with
  | ret a' =>
    obtain rfl := h
    exact hp
  | call c k ih =>
    obtain ⟨r, hr⟩ := h
    exact ih r (hp r) hr

/-- A program whose calls can all be answered can return. -/
theorem exists_return {p : Prog C R α} (hp : p.Only S) (hS : ∀ c, S c → Nonempty (R c)) :
    ∃ a, p.CanReturn a := by
  induction p with
  | ret a => exact ⟨a, rfl⟩
  | call c k ih =>
    obtain ⟨r⟩ := hS c hp.1
    obtain ⟨a, ha⟩ := ih r (hp.2 r)
    exact ⟨a, r, ha⟩

end Prog

end Effect
