import Mathlib.Data.List.Basic

/-!
# Network interfaces and pairs of them

A table of interfaces in network namespaces. Interfaces are made in pairs, and
an end takes the other with it when it is deleted. The table carries its own
well-formedness: an index names one interface and is never given again, a name
is taken once in a namespace, and both ends of a pair have one owner.

Names and owners are arbitrary types. `Step` collects what a request does to a
table, and `Step.origin` says where the interfaces of the new table come from.
-/

namespace Links

/-- One end of a pair. The owner is a mark that no operation changes. -/
structure Link (ν τ : Type) where
  index : Nat
  pair : Nat
  ns : Nat
  name : ν
  owner : τ
deriving DecidableEq

structure Table (ν τ : Type) where
  links : List (Link ν τ)
  /-- the next index and the next pair -/
  next : Nat
  pos : 0 < next
  fresh : ∀ l ∈ links, 0 < l.index ∧ l.index < next ∧ l.pair < next
  index_inj : ∀ l ∈ links, ∀ l' ∈ links, l.index = l'.index → l = l'
  name_inj : ∀ l ∈ links, ∀ l' ∈ links, l.ns = l'.ns → l.name = l'.name → l = l'
  owner_eq : ∀ l ∈ links, ∀ l' ∈ links, l.pair = l'.pair → l.owner = l'.owner

namespace Table

variable {ν τ : Type}

/-- No interface of the namespace has the name. -/
def Free (T : Table ν τ) (ns : Nat) (a : ν) : Prop := ∀ l ∈ T.links, l.ns = ns → l.name ≠ a

instance [DecidableEq ν] (T : Table ν τ) (ns : Nat) (a : ν) : Decidable (T.Free ns a) :=
  inferInstanceAs (Decidable (∀ l ∈ T.links, l.ns = ns → l.name ≠ a))

/-- `if_nametoindex`: the index under a name, or 0. -/
def lookup [DecidableEq ν] (T : Table ν τ) (ns : Nat) (a : ν) : Nat :=
  ((T.links.find? fun l => l.ns = ns ∧ l.name = a).map (·.index)).getD 0

/-- A lookup that finds something finds the interface of that name. -/
theorem lookup_mem [DecidableEq ν] {T : Table ν τ} {ns : Nat} {a : ν} (h : T.lookup ns a ≠ 0) :
    ∃ l ∈ T.links, l.index = T.lookup ns a ∧ l.ns = ns ∧ l.name = a := by
  unfold lookup at h ⊢
  cases hf : T.links.find? fun l => l.ns = ns ∧ l.name = a with
  | none =>
    rw [hf] at h
    exact absurd rfl h
  | some l =>
    have hl := List.find?_some hf
    simp only [decide_eq_true_eq] at hl
    exact ⟨l, List.mem_of_find?_eq_some hf, rfl, hl.1, hl.2⟩

theorem lookup_eq_zero [DecidableEq ν] {T : Table ν τ} {ns : Nat} {a : ν} :
    T.lookup ns a = 0 ↔ T.Free ns a := by
  constructor
  · intro h l hl hns hname
    unfold lookup at h
    cases hf : T.links.find? fun l => l.ns = ns ∧ l.name = a with
    | none => simpa [hns, hname] using List.find?_eq_none.mp hf l hl
    | some l' =>
      have hpos := (T.fresh l' (List.mem_of_find?_eq_some hf)).1
      rw [hf] at h
      exact absurd h (Nat.ne_of_gt hpos)
  · intro h
    by_contra hne
    obtain ⟨l, hl, -, hns, hname⟩ := lookup_mem hne
    exact h l hl hns hname

/-- An interface is found under its name. -/
theorem lookup_of_mem [DecidableEq ν] {T : Table ν τ} {l : Link ν τ} (hl : l ∈ T.links) :
    T.lookup l.ns l.name = l.index := by
  have hne : T.lookup l.ns l.name ≠ 0 := fun h => lookup_eq_zero.mp h l hl rfl rfl
  obtain ⟨l', hl', hidx, hns, hname⟩ := lookup_mem hne
  rw [← hidx, T.name_inj l' hl' l hl hns hname]

theorem lookup_lt [DecidableEq ν] (T : Table ν τ) (ns : Nat) (a : ν) : T.lookup ns a < T.next := by
  by_cases hz : T.lookup ns a = 0
  · exact hz ▸ T.pos
  · obtain ⟨l, hl, hidx, -⟩ := lookup_mem hz
    exact hidx ▸ (T.fresh l hl).2.1

/-! ## Operations -/

/-- A table without interfaces. -/
def empty : Table ν τ where
  links := []
  next := 1
  pos := by decide
  fresh _ h := nomatch h
  index_inj _ h := nomatch h
  name_inj _ h := nomatch h
  owner_eq _ h := nomatch h

/-- Keep some of the interfaces. -/
def filter (T : Table ν τ) (keep : Link ν τ → Bool) : Table ν τ where
  links := T.links.filter keep
  next := T.next
  pos := T.pos
  fresh l hl := T.fresh l (List.mem_of_mem_filter hl)
  index_inj l hl l' hl' := T.index_inj l (List.mem_of_mem_filter hl) l' (List.mem_of_mem_filter hl')
  name_inj l hl l' hl' := T.name_inj l (List.mem_of_mem_filter hl) l' (List.mem_of_mem_filter hl')
  owner_eq l hl l' hl' := T.owner_eq l (List.mem_of_mem_filter hl) l' (List.mem_of_mem_filter hl')

/-- The pairs with an end that satisfies `p`. -/
def hasPair (T : Table ν τ) (p : Link ν τ → Bool) (l : Link ν τ) : Bool :=
  T.links.any fun l' => p l' && l'.pair = l.pair

/-- Delete an interface of a namespace, and the other end with it. -/
def delete (T : Table ν τ) (ns idx : Nat) : Table ν τ :=
  T.filter fun l => !T.hasPair (fun l' => l'.ns = ns && l'.index = idx) l

/-- The end of a namespace deletes every interface in it. -/
def endNs (T : Table ν τ) (ns : Nat) : Table ν τ := T.filter fun l => !T.hasPair (·.ns = ns) l

/-- Make a pair. -/
def create (T : Table ν τ) (o : τ) (ns : Nat) (a b : ν) (ha : T.Free ns a) (hb : T.Free ns b)
    (hab : a ≠ b) : Table ν τ where
  links := ⟨T.next, T.next, ns, a, o⟩ :: ⟨T.next + 1, T.next, ns, b, o⟩ :: T.links
  next := T.next + 2
  pos := Nat.succ_pos _
  fresh l hl := by
    have hpos := T.pos
    simp only [List.mem_cons] at hl
    rcases hl with rfl | rfl | hl
    · exact ⟨hpos, by simp, by simp⟩
    · exact ⟨by simp, by simp, by simp⟩
    · obtain ⟨h₁, h₂, h₃⟩ := T.fresh l hl
      exact ⟨h₁, by omega, by omega⟩
  index_inj l hl l' hl' := by
    simp only [List.mem_cons] at hl hl'
    rcases hl with rfl | rfl | hl <;> rcases hl' with rfl | rfl | hl' <;> intro h
    · rfl
    · simp at h
    · have := (T.fresh l' hl').2.1
      simp only at h
      omega
    · simp at h
    · rfl
    · have := (T.fresh l' hl').2.1
      simp only at h
      omega
    · have := (T.fresh l hl).2.1
      simp only at h
      omega
    · have := (T.fresh l hl).2.1
      simp only at h
      omega
    · exact T.index_inj l hl l' hl' h
  name_inj l hl l' hl' := by
    simp only [List.mem_cons] at hl hl'
    rcases hl with rfl | rfl | hl <;> rcases hl' with rfl | rfl | hl' <;> intro hns hname
    · rfl
    · exact absurd hname hab
    · exact absurd hname.symm (ha l' hl' hns.symm)
    · exact absurd hname.symm hab
    · rfl
    · exact absurd hname.symm (hb l' hl' hns.symm)
    · exact absurd hname (ha l hl hns)
    · exact absurd hname (hb l hl hns)
    · exact T.name_inj l hl l' hl' hns hname
  owner_eq l hl l' hl' := by
    simp only [List.mem_cons] at hl hl'
    rcases hl with rfl | rfl | hl <;> rcases hl' with rfl | rfl | hl' <;> intro h
    · rfl
    · rfl
    · have := (T.fresh l' hl').2.2
      simp only at h
      omega
    · rfl
    · rfl
    · have := (T.fresh l' hl').2.2
      simp only at h
      omega
    · have := (T.fresh l hl).2.2
      simp only at h
      omega
    · have := (T.fresh l hl).2.2
      simp only at h
      omega
    · exact T.owner_eq l hl l' hl' h

/-- A new pair is found under its two names. -/
theorem lookup_create [DecidableEq ν] (T : Table ν τ) {o : τ} {ns : Nat} {a b : ν} (ha : T.Free ns a)
    (hb : T.Free ns b) (hab : a ≠ b) :
    (T.create o ns a b ha hb hab).lookup ns a ≠ 0 ∧ (T.create o ns a b ha hb hab).lookup ns b ≠ 0 :=
  ⟨fun h => lookup_eq_zero.mp h ⟨_, _, _, _, _⟩ List.mem_cons_self rfl rfl,
    fun h => lookup_eq_zero.mp h ⟨_, _, _, _, _⟩ (List.mem_cons_of_mem _ List.mem_cons_self) rfl rfl⟩

/-- Change interfaces without touching what identifies them. -/
def update (T : Table ν τ) (f : Link ν τ → Link ν τ)
    (hf : ∀ l, (f l).index = l.index ∧ (f l).pair = l.pair ∧ (f l).owner = l.owner)
    (hname : ∀ l ∈ T.links, ∀ l' ∈ T.links, (f l).ns = (f l').ns → (f l).name = (f l').name →
      l = l') : Table ν τ where
  links := T.links.map f
  next := T.next
  pos := T.pos
  fresh l hl := by
    obtain ⟨k, hk, rfl⟩ := List.mem_map.mp hl
    obtain ⟨hi, hp, -⟩ := hf k
    rw [hi, hp]
    exact T.fresh k hk
  index_inj l hl l' hl' h := by
    obtain ⟨k, hk, rfl⟩ := List.mem_map.mp hl
    obtain ⟨k', hk', rfl⟩ := List.mem_map.mp hl'
    rw [(hf k).1, (hf k').1] at h
    rw [T.index_inj k hk k' hk' h]
  name_inj l hl l' hl' hns hn := by
    obtain ⟨k, hk, rfl⟩ := List.mem_map.mp hl
    obtain ⟨k', hk', rfl⟩ := List.mem_map.mp hl'
    rw [hname k hk k' hk' hns hn]
  owner_eq l hl l' hl' h := by
    obtain ⟨k, hk, rfl⟩ := List.mem_map.mp hl
    obtain ⟨k', hk', rfl⟩ := List.mem_map.mp hl'
    rw [(hf k).2.1, (hf k').2.1] at h
    rw [(hf k).2.2, (hf k').2.2, T.owner_eq k hk k' hk' h]

/-- Give an interface of a namespace a free name. -/
def rename (T : Table ν τ) (ns idx : Nat) (b : ν) (hb : T.Free ns b) : Table ν τ :=
  T.update (fun l => if l.ns = ns ∧ l.index = idx then { l with name := b } else l)
    (fun l => by split <;> exact ⟨rfl, rfl, rfl⟩) (by
      intro l hl l' hl' hns hname
      split at hns <;> split at hns <;> rename_i h h'
      · exact T.index_inj l hl l' hl' (h.2.trans h'.2.symm)
      · rw [if_pos h, if_neg h'] at hname
        exact absurd hname.symm (hb l' hl' (hns.symm.trans h.1))
      · rw [if_neg h, if_pos h'] at hname
        exact absurd hname (hb l hl (hns.trans h'.1))
      · rw [if_neg h, if_neg h'] at hname
        exact T.name_inj l hl l' hl' hns hname)

/-- Move an interface of a namespace to another one where its name is free. -/
def move (T : Table ν τ) (ns idx ns' : Nat)
    (hfree : ∀ l ∈ T.links, l.ns = ns → l.index = idx → T.Free ns' l.name) : Table ν τ :=
  T.update (fun l => if l.ns = ns ∧ l.index = idx then { l with ns := ns' } else l)
    (fun l => by split <;> exact ⟨rfl, rfl, rfl⟩) (by
      intro l hl l' hl' hns hname
      split at hname <;> split at hname <;> rename_i h h'
      · exact T.index_inj l hl l' hl' (h.2.trans h'.2.symm)
      · rw [if_pos h, if_neg h'] at hns
        exact absurd hname.symm (hfree l hl h.1 h.2 l' hl' hns.symm)
      · rw [if_neg h, if_pos h'] at hns
        exact absurd hname (hfree l' hl' h'.1 h'.2 l hl hns)
      · rw [if_neg h, if_neg h'] at hns
        exact T.name_inj l hl l' hl' hns hname)

/-! ## What the operations leave -/

theorem hasPair_iff {T : Table ν τ} {p : Link ν τ → Bool} {l : Link ν τ} :
    T.hasPair p l = true ↔ ∃ l' ∈ T.links, p l' = true ∧ l'.pair = l.pair := by
  simp [hasPair]

theorem mem_create {T : Table ν τ} {o : τ} {ns : Nat} {a b : ν} (ha : T.Free ns a)
    (hb : T.Free ns b) (hab : a ≠ b) {l : Link ν τ} :
    l ∈ (T.create o ns a b ha hb hab).links ↔
      l = ⟨T.next, T.next, ns, a, o⟩ ∨ l = ⟨T.next + 1, T.next, ns, b, o⟩ ∨ l ∈ T.links := by
  simp [create]

theorem mem_rename {T : Table ν τ} {ns idx : Nat} {b : ν} {hb : T.Free ns b} {l' : Link ν τ} :
    l' ∈ (T.rename ns idx b hb).links ↔
      ∃ l ∈ T.links, (if l.ns = ns ∧ l.index = idx then { l with name := b } else l) = l' := by
  simp [rename, update]

theorem mem_move {T : Table ν τ} {ns idx ns' : Nat}
    (hfree : ∀ l ∈ T.links, l.ns = ns → l.index = idx → T.Free ns' l.name) {l' : Link ν τ} :
    l' ∈ (T.move ns idx ns' hfree).links ↔
      ∃ l ∈ T.links, (if l.ns = ns ∧ l.index = idx then { l with ns := ns' } else l) = l' := by
  simp [move, update]

/-- The other interfaces stay where they are. -/
theorem mem_move_of_ne {T : Table ν τ} {ns idx ns' : Nat}
    (hfree : ∀ l ∈ T.links, l.ns = ns → l.index = idx → T.Free ns' l.name) {l : Link ν τ}
    (hl : l ∈ T.links) (hne : l.index ≠ idx) : l ∈ (T.move ns idx ns' hfree).links :=
  (mem_move hfree).mpr ⟨l, hl, if_neg fun h => hne h.2⟩

theorem mem_delete {T : Table ν τ} {ns idx : Nat} {l : Link ν τ} :
    l ∈ (T.delete ns idx).links ↔
      l ∈ T.links ∧ ∀ l' ∈ T.links, l'.ns = ns → l'.index = idx → l'.pair ≠ l.pair := by
  simp only [delete, filter, List.mem_filter, Bool.not_eq_true', ← Bool.not_eq_true, hasPair_iff]
  simp

theorem mem_endNs {T : Table ν τ} {ns : Nat} {l : Link ν τ} :
    l ∈ (T.endNs ns).links ↔ l ∈ T.links ∧ ∀ l' ∈ T.links, l'.ns = ns → l'.pair ≠ l.pair := by
  simp only [endNs, filter, List.mem_filter, Bool.not_eq_true', ← Bool.not_eq_true, hasPair_iff]
  simp

end Table

/-! ## Requests -/

/-- What a process asks the kernel to do with interfaces. -/
inductive Request (ν : Type)
  | create (a b : ν)
  | delete (idx : Nat)
  | rename (idx : Nat) (b : ν)
  | move (idx : Nat)
  /-- a request that leaves the table as it is -/
  | other

variable {ν τ : Type}

/-- A request of a process of the namespace `ns` is carried out; what it makes
is marked with `o`. -/
inductive Step (o : τ) (ns : Nat) : Request ν → Table ν τ → Table ν τ → Prop
  | create {T : Table ν τ} {a b : ν} (ha : T.Free ns a) (hb : T.Free ns b) (hab : a ≠ b) :
      Step o ns (.create a b) T (T.create o ns a b ha hb hab)
  | delete {T : Table ν τ} {idx : Nat} :
      (∃ l ∈ T.links, l.ns = ns ∧ l.index = idx) → Step o ns (.delete idx) T (T.delete ns idx)
  | rename {T : Table ν τ} {idx : Nat} {b : ν} (hb : T.Free ns b) :
      (∃ l ∈ T.links, l.ns = ns ∧ l.index = idx) →
      Step o ns (.rename idx b) T (T.rename ns idx b hb)
  | move {T : Table ν τ} {idx ns' : Nat}
      (hfree : ∀ l ∈ T.links, l.ns = ns → l.index = idx → T.Free ns' l.name) :
      ns' ≠ ns → (∃ l ∈ T.links, l.ns = ns ∧ l.index = idx) →
      Step o ns (.move idx) T (T.move ns idx ns' hfree)
  | other {T : Table ν τ} : Step o ns .other T T

/-- The same interface, as far as nothing can change it. -/
structure Same (l l' : Link ν τ) : Prop where
  index : l.index = l'.index
  pair : l.pair = l'.pair
  owner : l.owner = l'.owner

theorem Same.refl (l : Link ν τ) : Same l l := ⟨rfl, rfl, rfl⟩

/-- An interface of the new table was there before, or was made by the request. -/
theorem Step.origin {o : τ} {ns : Nat} {req : Request ν} {T T' : Table ν τ}
    (h : Step o ns req T T') : T.next ≤ T'.next ∧ ∀ l' ∈ T'.links,
      (∃ l ∈ T.links, Same l l') ∨
      (T.next ≤ l'.index ∧ l'.index < T'.next ∧ l'.owner = o ∧
        ∃ a b, req = .create a b ∧ (l'.name = a ∨ l'.name = b)) := by
  cases h with
  | @create _ a b ha hb hab =>
    refine ⟨Nat.le_add_right _ _, fun l' hl' => ?_⟩
    rcases (Table.mem_create ha hb hab).mp hl' with rfl | rfl | hl
    · exact .inr ⟨Nat.le_refl _, Nat.lt_add_of_pos_right (by decide), rfl, a, b, rfl, .inl rfl⟩
    · exact .inr ⟨Nat.le_succ _, Nat.lt_succ_self _, rfl, a, b, rfl, .inr rfl⟩
    · exact .inl ⟨l', hl, .refl l'⟩
  | delete _ =>
    exact ⟨Nat.le_refl _, fun l' hl' => .inl ⟨l', (Table.mem_delete.mp hl').1, .refl l'⟩⟩
  | rename hb _ =>
    refine ⟨Nat.le_refl _, fun l' hl' => ?_⟩
    obtain ⟨l, hl, rfl⟩ := Table.mem_rename.mp hl'
    refine .inl ⟨l, hl, ?_⟩
    split <;> exact ⟨rfl, rfl, rfl⟩
  | move hfree _ _ =>
    refine ⟨Nat.le_refl _, fun l' hl' => ?_⟩
    obtain ⟨l, hl, rfl⟩ := (Table.mem_move hfree).mp hl'
    refine .inl ⟨l, hl, ?_⟩
    split <;> exact ⟨rfl, rfl, rfl⟩
  | other => exact ⟨Nat.le_refl _, fun l' hl' => .inl ⟨l', hl', .refl l'⟩⟩

/-! ## Carrying requests out -/

variable [DecidableEq ν]

/-- Carry a request out, if that is possible; interfaces are moved to the next
namespace. -/
def Table.carryOut (o : τ) (ns : Nat) (T : Table ν τ) : Request ν → Option (Table ν τ)
  | .create a b =>
    if h : T.Free ns a ∧ T.Free ns b ∧ a ≠ b then some (T.create o ns a b h.1 h.2.1 h.2.2)
    else none
  | .delete idx =>
    if ∃ l ∈ T.links, l.ns = ns ∧ l.index = idx then some (T.delete ns idx) else none
  | .rename idx b =>
    if h : T.Free ns b ∧ ∃ l ∈ T.links, l.ns = ns ∧ l.index = idx then some (T.rename ns idx b h.1)
    else none
  | .move idx =>
    if h : (∀ l ∈ T.links, l.ns = ns → l.index = idx → T.Free (ns + 1) l.name) ∧
        ∃ l ∈ T.links, l.ns = ns ∧ l.index = idx then
      some (T.move ns idx (ns + 1) h.1)
    else none
  | .other => some T

theorem Table.carryOut_step {o : τ} {ns : Nat} {T T' : Table ν τ} {req : Request ν}
    (h : T.carryOut o ns req = some T') : Step o ns req T T' := by
  cases req with
  | create a b =>
    obtain ⟨hif, heq⟩ := Option.dite_none_right_eq_some.mp h
    obtain rfl := Option.some.inj heq
    exact .create hif.1 hif.2.1 hif.2.2
  | delete idx =>
    obtain ⟨hif, heq⟩ := Option.ite_none_right_eq_some.mp h
    obtain rfl := Option.some.inj heq
    exact .delete hif
  | rename idx b =>
    obtain ⟨hif, heq⟩ := Option.dite_none_right_eq_some.mp h
    obtain rfl := Option.some.inj heq
    exact .rename hif.1 hif.2
  | move idx =>
    obtain ⟨hif, heq⟩ := Option.dite_none_right_eq_some.mp h
    obtain rfl := Option.some.inj heq
    exact .move hif.1 (Nat.succ_ne_self ns) hif.2
  | other =>
    obtain rfl := Option.some.inj h
    exact .other

/-- A deletion of something that is there is carried out. -/
theorem Table.carryOut_delete {o : τ} {ns idx : Nat} {T : Table ν τ}
    (h : ∃ l ∈ T.links, l.ns = ns ∧ l.index = idx) :
    T.carryOut o ns (.delete idx) = some (T.delete ns idx) :=
  if_pos h

end Links
