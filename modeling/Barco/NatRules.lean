import Barco.Effect.Interleave
import Barco.Linux.RuleChain
import Barco.MainWalk
import Barco.NatText
import Barco.NetKernel
import Mathlib.Data.Fintype.Basic

/-!
# Who owns a firewall rule

Any number of runs of `main` on one host, with the chains of its firewall. `iptables`
makes a rule out of what it is given by `parse`; a check looks for the rule, an append
adds it at the end, a delete removes the first one, and any command may fail and do
nothing. The state remembers which run added a rule, the rules of the runs that are
between the start of `setup_nat` and the end of `cleanup_nat`, and those that were there
at the end of a successful `setup_nat`.

`nat_rules_owned`: as long as no check finds its rule, no two such runs have a rule in
common and no delete fails, every run keeps its rules, deletes only what it added, and
all runs together leave the chains as they were. `preset_rule_deleted` is a run that
deletes a rule that was there before it.
-/

namespace Barco

open Effect Prog RuleChain

/-! ## The chains and the runs -/

variable {ρ : Type}

/-- The three rules of a run. -/
def natRules (parse : NatRule → ρ) (subnet hostIf : CStr) : List ρ :=
  [parse (.masquerade subnet hostIf), parse (.forwardSource subnet), parse (.forwardReply subnet)]

structure NatTable (ι ρ : Type) where
  rules : Rules ρ ι
  /-- the rules of a run from the start of `setup_nat` to the end of `cleanup_nat` -/
  active : ι → List ρ
  /-- the rules that were there at the end of a successful `setup_nat` -/
  kept : ι → Option (List ρ)

namespace NatTable

/-- The chains of a host on which nothing runs. -/
def start (ι : Type) (initial : List ρ) : NatTable ι ρ :=
  ⟨initial.map fun x => (x, none), fun _ => [], fun _ => none⟩

variable {ι : Type} [DecidableEq ι] [DecidableEq ρ]

/-- A check that succeeds has found the rule, and a delete has removed one. -/
def Answers (parse : NatRule → ρ) (s : NatTable ι ρ) : (c : Call) → Answer c → Prop
  | .iptables (.check rule), b => b = true → Has s.rules (parse rule)
  | .iptables (.delete rule), b => b = true → Has s.rules (parse rule)
  | _, _ => True

def after (parse : NatRule → ρ) (i : ι) (s : NatTable ι ρ) : (c : Call) → Answer c → NatTable ι ρ
  | .iptables (.append rule), b => if b then { s with rules := add s.rules i (parse rule) } else s
  | .iptables (.delete rule), b => if b then { s with rules := delete s.rules (parse rule) } else s
  | .enter (.setupNat subnet hostIf), _ =>
    { s with active := Function.update s.active i (natRules parse subnet hostIf) }
  | .leave (.setupNat _ _) r, _ =>
    if r = 0 then
      { s with kept := Function.update s.kept i (some ((s.active i).filter fun x => Has s.rules x)) }
    else
      { s with active := Function.update s.active i [] }
  | .enter (.cleanupNat _ _), _ => { s with kept := Function.update s.kept i none }
  | .leave (.cleanupNat _ _) _, _ => { s with active := Function.update s.active i [] }
  | _, _ => s

end NatTable

section Host

variable (parse : NatRule → ρ) {ι : Type} [DecidableEq ι] [DecidableEq ρ]

/-- The runs on one host. -/
def natHost (ι : Type) [DecidableEq ι] : Host ι Call Answer Int (NatTable ι ρ) where
  call i s c r s' := s.Answers parse c r ∧ s' = s.after parse i c r
  env _ _ := False
  spawn _ _ _ _ := none

/-- The runs before their first call. -/
def natStart (initial : List ρ) (retries : ι → Nat) (args : ι → Args) :
    Global ι Call Answer Int (NatTable ι ρ) where
  kern := .start ι initial
  prog i := main (retries i) (args i)

/-- A check is made while the rule is not there and no other run in progress has it, and
a delete does not fail while its rule is there. -/
def Exclusive (i : ι) (s : NatTable ι ρ) : (c : Call) → Answer c → Prop
  | .iptables (.check rule), _ =>
    ¬ Has s.rules (parse rule) ∧ ∀ j, j ≠ i → parse rule ∉ s.active j
  | .iptables (.delete rule), b => b = false → ¬ Has s.rules (parse rule)
  | _, _ => True

/-- What the ownership of rules means in a state of the host. -/
structure NatOwned (initial : List ρ) (g : Global ι Call Answer Int (NatTable ι ρ)) : Prop where
  /-- what was there at the end of `setup_nat` stays until `cleanup_nat` -/
  kept : ∀ i rules, g.kern.kept i = some rules → ∀ x ∈ rules, Has g.kern.rules x
  /-- a run deletes only what it has added -/
  own : ∀ i rule k, g.prog i = .call (.iptables (.delete rule)) k →
    ∀ e, first? g.kern.rules (parse rule) = some e → e.2 = some i
  /-- when all runs are over, the chains are what they were -/
  restored : (∀ i, ∃ r, g.prog i = .ret r) → g.kern.rules.map Prod.fst = initial

end Host

/-! ## What one run keeps to -/

/-- The rules of a run: those it works with, those it has checked, those it has added
and not deleted; and whether it is between `setup_nat` and `cleanup_nat`. -/
structure NatSide (ρ : Type) where
  active : List ρ
  checked : List ρ
  added : List ρ
  settled : Bool

def NatSide.idle : NatSide ρ := ⟨[], [], [], false⟩

section Side

variable (parse : NatRule → ρ) [DecidableEq ρ]

def natMay (l : NatSide ρ) : Call → Prop
  | .iptables (.check rule) => parse rule ∈ l.active ∧ l.settled = false
  | .iptables (.append rule) => parse rule ∈ l.checked ∧ parse rule ∉ l.added ∧ l.settled = false
  | .iptables (.delete rule) => parse rule ∈ l.checked ∧ l.settled = false
  | .enter (.setupNat _ _) => l = .idle
  | .leave (.setupNat _ _) r => l.settled = false ∧
    if r = 0 then ∀ x ∈ l.active, x ∈ l.checked else l.added = []
  | .leave (.cleanupNat _ _) _ => l.settled = false ∧ l.added = []
  | _ => True

/-- What the run can count on when its rules are exclusive. -/
def natHears (l : NatSide ρ) : (c : Call) → Answer c → Prop
  | .iptables (.check rule), b => b = false ∧ parse rule ∉ l.added
  | .iptables (.delete rule), b => b = false → parse rule ∉ l.added
  | _, _ => True

def natNext (l : NatSide ρ) : (c : Call) → Answer c → NatSide ρ
  | .iptables (.check rule), _ => { l with checked := parse rule :: l.checked }
  | .iptables (.append rule), b => if b then { l with added := parse rule :: l.added } else l
  | .iptables (.delete rule), _ => { l with added := l.added.filter fun x => x ≠ parse rule }
  | .enter (.setupNat subnet hostIf), _ => ⟨natRules parse subnet hostIf, [], [], false⟩
  | .leave (.setupNat _ _) r, _ => if r = 0 then { l with settled := true } else .idle
  | .enter (.cleanupNat _ _), _ => { l with settled := false }
  | .leave (.cleanupNat _ _) _, _ => .idle
  | _, _ => l

def natUser : Machine Call Answer (NatSide ρ) where
  may := natMay parse
  step l c r l' := natHears parse l c r ∧ l' = natNext parse l c r

/-- The functions about the firewall. -/
def Fn.OfNat : Fn → Prop
  | .setupNat _ _ | .cleanupNat _ _ => True
  | _ => False

theorem natUser_still : Still (natUser parse) [.firewall] Fn.OfNat fun _ => True := by
  rintro l c - ⟨harea, henter, hleave⟩
  refine ⟨?_, fun r l' h => h.2.trans ?_⟩
  · cases c with
    | iptables cmd => exact absurd List.mem_cons_self harea
    | enter f =>
      cases f with
      | setupNat subnet hostIf => exact absurd trivial (henter _ rfl)
      | _ => trivial
    | leave f r =>
      cases f with
      | setupNat subnet hostIf => exact absurd trivial (hleave _ _ rfl)
      | cleanupNat subnet hostIf => exact absurd trivial (hleave _ _ rfl)
      | _ => trivial
    | _ => trivial
  · cases c with
    | iptables cmd => exact absurd List.mem_cons_self harea
    | enter f =>
      cases f with
      | setupNat subnet hostIf => exact absurd trivial (henter _ rfl)
      | cleanupNat subnet hostIf => exact absurd trivial (henter _ rfl)
      | _ => rfl
    | leave f r =>
      cases f with
      | setupNat subnet hostIf => exact absurd trivial (hleave _ _ rfl)
      | cleanupNat subnet hostIf => exact absurd trivial (hleave _ _ rfl)
      | _ => rfl
    | _ => rfl

variable {parse} {l : NatSide ρ} {β : Type}

theorem nat_call {c : Call} {k : Answer c → Sys β} {Q : β → NatSide ρ → Prop}
    (hmay : natMay parse l c)
    (hk : ∀ r, natHears parse l c r → wp (natUser parse) (k r) Q (natNext parse l c r)) :
    wp (natUser parse) (sys c >>= k) Q l :=
  ⟨hmay, fun r l' h => by
    obtain ⟨hears, rfl⟩ := h
    exact hk r hears⟩

/-- One rule of `setup_nat`: it is checked, and added unless the command fails. -/
theorem checkOrAppend_user {rule : NatRule} (hactive : parse rule ∈ l.active)
    (hopen : l.settled = false) : wp (natUser parse) (checkOrAppend rule) (fun b l' =>
      l' = { l with
        checked := parse rule :: l.checked
        added := if b then parse rule :: l.added else l.added }) l := by
  refine nat_call ⟨hactive, hopen⟩ fun b hears => ?_
  obtain ⟨rfl, hnew⟩ := hears
  refine ⟨⟨List.mem_cons_self, hnew, hopen⟩, fun b l' h => ?_⟩
  obtain ⟨-, rfl⟩ := h
  cases b <;> rfl

/-- After a successful `setup_nat`. -/
structure Settled (rules : List ρ) (l : NatSide ρ) : Prop where
  active : l.active = rules
  checked : ∀ x ∈ rules, x ∈ l.checked
  added : ∀ x ∈ l.added, x ∈ rules
  settled : l.settled = true

omit [DecidableEq ρ] in
theorem mem_of_added {x y : ρ} {rules added : List ρ} {b : Bool} (hy : y ∈ rules)
    (hadded : ∀ x ∈ added, x ∈ rules) (hx : x ∈ if b then y :: added else added) : x ∈ rules := by
  cases b with
  | false => exact hadded x hx
  | true => exact (List.mem_cons.mp hx).elim (fun heq => heq ▸ hy) (hadded x)

theorem setupNat_user (subnet hostIf : CStr) :
    wp (natUser parse) (invoke (.setupNat subnet hostIf) (setupNat subnet hostIf))
      (fun r l' => if r < 0 then l' = .idle else Settled (natRules parse subnet hostIf) l')
      .idle := by
  refine nat_call (c := .enter _) rfl fun _ _ => ?_
  refine wp_seq (Q := fun r l' => l'.settled = false ∧ (r = -1 ∧ l'.added = [] ∨
    r = 0 ∧ l'.active = natRules parse subnet hostIf ∧
      (∀ x ∈ natRules parse subnet hostIf, x ∈ l'.checked) ∧
      ∀ x ∈ l'.added, x ∈ natRules parse subnet hostIf)) ?_ ?_
  · have h₁ : parse (.masquerade subnet hostIf) ∈ natRules parse subnet hostIf := by simp [natRules]
    have h₂ : parse (.forwardSource subnet) ∈ natRules parse subnet hostIf := by simp [natRules]
    have h₃ : parse (.forwardReply subnet) ∈ natRules parse subnet hostIf := by simp [natRules]
    refine wp_seq (checkOrAppend_user h₁ rfl) ?_
    rintro b _ rfl
    cases b with
    | false => exact ⟨rfl, .inl ⟨rfl, rfl⟩⟩
    | true =>
      refine wp_seq (checkOrAppend_user h₂ rfl) ?_
      rintro b₂ _ rfl
      refine wp_seq (checkOrAppend_user h₃ rfl) ?_
      rintro b₃ _ rfl
      refine ⟨rfl, .inr ⟨rfl, rfl, fun x hx => ?_, fun x hx => ?_⟩⟩
      · simp only [natRules, List.mem_cons, List.not_mem_nil, or_false] at hx
        rcases hx with rfl | rfl | rfl <;> simp
      · refine mem_of_added h₃ (fun x hx => mem_of_added h₂ (fun x hx => ?_) hx) hx
        exact List.mem_singleton.mp hx ▸ h₁
  · rintro r l' ⟨hopen, ⟨rfl, hadded⟩ | ⟨rfl, hactive, hchecked, hadded⟩⟩
    · refine nat_call (c := .leave _ (-1)) ⟨hopen, ?_⟩ fun _ _ => ?_
      · exact hadded
      · rfl
    · refine nat_call (c := .leave _ 0) ⟨hopen, ?_⟩ fun _ _ => ?_
      · exact fun x hx => hchecked x (hactive ▸ hx)
      · exact ⟨hactive, hchecked, hadded, rfl⟩

/-- Everything the run has added is deleted again. -/
theorem cleanupNat_user {subnet hostIf subnet' : CStr}
    (h : Settled (natRules parse subnet hostIf) l) (hsame : subnet' = subnet) :
    wp (natUser parse) (invoke (.cleanupNat subnet' hostIf) (cleanupNat subnet' hostIf))
      (fun _ l' => l' = .idle) l := by
  subst hsame
  refine nat_call (c := .enter _) trivial fun _ _ => ?_
  refine wp_seq (Q := fun _ l' => l'.settled = false ∧ l'.added = []) ?_ ?_
  · refine nat_call ⟨h.checked _ (by simp [natRules]), rfl⟩ fun _ _ => ?_
    refine nat_call ⟨h.checked _ (by simp [natRules]), rfl⟩ fun _ _ => ?_
    refine nat_call ⟨h.checked _ (by simp [natRules]), rfl⟩ fun _ _ => ?_
    refine ⟨rfl, List.eq_nil_iff_forall_not_mem.mpr fun x hx => ?_⟩
    simp only [natNext, List.mem_filter, decide_eq_true_eq] at hx
    obtain ⟨⟨⟨hadded, hne₁⟩, hne₂⟩, hne₃⟩ := hx
    have hmem := h.added x hadded
    simp only [natRules, List.mem_cons, List.not_mem_nil, or_false] at hmem
    rcases hmem with rfl | rfl | rfl
    · exact hne₁ rfl
    · exact hne₂ rfl
    · exact hne₃ rfl
  · rintro r l' ⟨hopen, hadded⟩
    exact nat_call (c := .leave _ r) ⟨hopen, hadded⟩ fun _ _ => rfl

/-- What `main` knows of its rules at each stage. -/
inductive NatHolds (parse : NatRule → ρ) : Stage → MainState → NatSide ρ → Prop
  | idle {stage : Stage} {st : MainState} : st.natApplied = false ∨ stage ≠ .running →
      NatHolds parse stage st .idle
  | settled {st : MainState} {ip : CStr} {l : NatSide ρ} : st.natApplied = true →
      st.config.containerIp = some ip → 0 < st.hostIf.1.length →
      Settled (natRules parse (setupSubnet ip) st.hostIf) l → NatHolds parse .running st l

omit [DecidableEq ρ] in
theorem NatHolds.idle_of {stage : Stage} {st : MainState} (h : NatHolds parse stage st l)
    (hno : st.natApplied = false ∨ stage ≠ .running) : l = .idle := by
  cases h with
  | idle _ => rfl
  | settled hnat _ _ _ => exact hno.elim (fun h => nomatch hnat.symm.trans h) fun h => absurd rfl h

/-- All of `main` keeps to it. -/
theorem natUser_walk (parse : NatRule → ρ) : Walk (natUser parse) (NatHolds parse) := by
  have hrun : ∀ {f : Fn} {S : List Area} {body : Sys Int} {stage stage' : Stage} {st : MainState}
      {l : NatSide ρ}, ¬ f.OfNat → Tidy S Status body →
      (∀ a ∈ S, a ∉ [Area.firewall] ∧ a ≠ .mark) → NatHolds parse stage st l →
      (NatHolds parse stage st l → NatHolds parse stage' st l) →
      wp (natUser parse) (invoke f body) (fun _ => NatHolds parse stage' st) l :=
    fun hf hbody hS hJ hnext => wp_mono ((natUser_still parse).wp
      (avoids_invoke (by decide) hf (avoids_of_areas hbody.only hS fun _ h => h)) trivial)
      fun _ _ heq => heq ▸ hnext hJ
  refine walk_of_still (natUser_still parse) (by simp) (fun f hf => ?_) (fun _ => trivial)
    ?_ ?_ ?_ ?_ ?_ ?_ ?_ ?_ ?_ ?_
  · cases f with
    | setupNat subnet hostIf => trivial
    | cleanupNat subnet hostIf => trivial
    | _ => exact hf.elim
  · -- the locals agree
    rintro stage st st' l ⟨⟨fd, hconfig⟩, -, hnat, hif⟩ h
    cases h with
    | idle h => exact .idle (h.imp (hnat.trans ·) id)
    | settled happ hip hpos hset =>
      refine .settled (hnat.trans happ) ?_ (hif ▸ hpos) (hif ▸ hset)
      rw [hconfig]
      exact hip
  · rintro st l h
    cases h with
    | idle h => exact .idle h
    | settled happ hip hpos hset => exact .settled happ hip hpos hset
  · rintro st l hostIf h hnat
    obtain rfl := h.idle_of (.inl hnat)
    exact .idle (.inl hnat)
  · rintro st l ip h hnat hip hpos
    obtain rfl := h.idle_of (.inl hnat)
    refine wp_mono (setupNat_user _ _) fun r l' h' => ?_
    by_cases hr : r < 0
    · rw [if_pos hr] at h' ⊢
      exact h' ▸ .idle (.inl hnat)
    · rw [if_neg hr] at h' ⊢
      exact .settled rfl hip hpos h'
  · exact fun h _ => hrun id (cgroupsInit_tidy _ _) (by decide) h id
  · rintro st l ip h happ hip
    cases h with
    | idle h => exact h.elim (fun h => nomatch happ.symm.trans h) fun h => absurd rfl h
    | settled _ hip' _ hset =>
      obtain rfl := Option.some.inj (hip.symm.trans hip')
      exact wp_mono (cleanupNat_user hset (setupSubnet_eq ip).symm) fun _ _ heq =>
        heq ▸ .idle (.inr nofun)
  · rintro st l h hno
    cases h with
    | idle _ => exact .idle (.inr nofun)
    | settled happ hip hpos _ =>
      rcases hno with hno | hno | hno
      · exact nomatch happ.symm.trans hno
      · exact nomatch hip.symm.trans hno
      · omega
  · exact fun h => h.idle_of (.inr nofun) ▸ .idle (.inr nofun)
  · exact fun h _ => hrun id (cgroupsFree_tidy _) (by decide) h fun h =>
      h.idle_of (.inr nofun) ▸ .idle (.inr nofun)
  · exact fun h _ => h.idle_of (.inr nofun) ▸ .idle (.inr nofun)

/-- When `main` returns, it has no rules. -/
theorem main_natUser (parse : NatRule → ρ) (retries : Nat) (args : Args) :
    wp (natUser parse) (main retries args) (fun _ l => l = .idle) .idle := by
  refine wp_mono ((natUser_walk parse).main retries args fun st hst => .idle (.inl hst.natApplied)) ?_
  rintro r l (⟨st, h⟩ | h)
  · exact h.idle_of (.inr nofun)
  · exact (h (initialState args) ⟨rfl, rfl, rfl⟩).idle_of (.inl rfl)

end Side

/-! ## All runs together -/

section Shared

variable {parse : NatRule → ρ} {ι : Type} [DecidableEq ρ] {initial : List ρ}
  {s s' : NatTable ι ρ} {l : ι → NatSide ρ} {i : ι} {m : NatSide ρ} {x : ρ}

/-- The entries of a rule that the run `i` has checked. -/
def ownEntries (i : ι) (m : NatSide ρ) (x : ρ) : Rules ρ ι :=
  if x ∈ m.added then [(x, some i)] else []

/-- The chains against what each run knows. -/
structure NatShared (initial : List ρ) (s : NatTable ι ρ) (l : ι → NatSide ρ) : Prop where
  active : ∀ i, s.active i = (l i).active
  within : ∀ i, ∀ x ∈ (l i).checked, x ∈ (l i).active
  checked : ∀ i, ∀ x ∈ (l i).added, x ∈ (l i).checked
  seen : ∀ i, ∀ x ∈ (l i).checked, entries s.rules x = ownEntries i (l i) x
  owned : ∀ i x, (x, some i) ∈ s.rules → x ∈ (l i).added
  apart : ∀ i j x, i ≠ j → x ∈ (l i).checked → x ∉ (l j).checked
  unowned : unowned s.rules = initial
  kept : ∀ i rules, s.kept i = some rules → (l i).settled = true ∧ ∀ x ∈ rules, x ∈ (l i).added

/-- A checked rule is there exactly when the run has added it. -/
theorem NatShared.has_iff (h : NatShared initial s l) (hx : x ∈ (l i).checked) :
    Has s.rules x ↔ x ∈ (l i).added := by
  have hseen := h.seen i x hx
  rw [← not_iff_not, ← entries_eq_nil, hseen, ownEntries]
  by_cases hadded : x ∈ (l i).added
  · simp [hadded]
  · simp [hadded]

/-- What would be deleted of a checked rule is the run's own. -/
theorem NatShared.first (h : NatShared initial s l) (hx : x ∈ (l i).checked) {e : ρ × Option ι}
    (he : first? s.rules x = some e) : e = (x, some i) := by
  rw [first?_eq_head?, h.seen i x hx, ownEntries] at he
  split at he
  · exact (Option.some.inj he).symm
  · exact nomatch he

/-- The run `i` goes on to `m` and the chains to `s'`; nothing changes for the others. -/
structure OwnChange (i : ι) (s s' : NatTable ι ρ) (l : ι → NatSide ρ) (m : NatSide ρ) : Prop where
  active : s'.active i = m.active
  within : ∀ x ∈ m.checked, x ∈ m.active
  checked : ∀ x ∈ m.added, x ∈ m.checked
  seen : ∀ x ∈ m.checked, entries s'.rules x = ownEntries i m x
  owned : ∀ x, (x, some i) ∈ s'.rules → x ∈ m.added
  apart : ∀ j x, j ≠ i → x ∈ (l j).checked → x ∉ m.checked
  unowned : unowned s'.rules = unowned s.rules
  kept : ∀ rules, s'.kept i = some rules → m.settled = true ∧ ∀ x ∈ rules, x ∈ m.added
  sameActive : ∀ j, j ≠ i → s'.active j = s.active j
  sameKept : ∀ j, j ≠ i → s'.kept j = s.kept j
  sameEntries : ∀ j x, j ≠ i → x ∈ (l j).checked →
    entries s'.rules x = entries s.rules x
  sameOwned : ∀ j x, j ≠ i → (x, some j) ∈ s'.rules → (x, some j) ∈ s.rules

theorem ownEntries_filter {y : ρ} (hxy : x ≠ y) :
    ownEntries i { m with added := m.added.filter fun z => z ≠ y } x = ownEntries i m x := by
  simp [ownEntries, hxy]

variable [DecidableEq ι]

theorem NatShared.change (h : NatShared initial s l) (hc : OwnChange i s s' l m) :
    NatShared initial s' (Function.update l i m) := by
  have hself : Function.update l i m i = m := Function.update_self i m l
  have hother : ∀ j, j ≠ i → Function.update l i m j = l j := fun j hj =>
    Function.update_of_ne hj m l
  refine ⟨fun j => ?_, fun j => ?_, fun j => ?_, fun j => ?_, fun j => ?_, fun j k x hjk => ?_,
    hc.unowned.trans h.unowned, fun j => ?_⟩
  case refine_6 =>
    by_cases hj : j = i
    · subst hj
      rw [hself, hother k (Ne.symm hjk)]
      exact fun hx hk => hc.apart k x (Ne.symm hjk) hk hx
    · rw [hother j hj]
      by_cases hk : k = i
      · subst hk
        rw [hself]
        exact hc.apart j x hj
      · rw [hother k hk]
        exact h.apart j k x hjk
  all_goals
    by_cases hj : j = i
    · subst hj
      rw [hself]
      first
        | exact hc.active
        | exact hc.within
        | exact hc.checked
        | exact hc.seen
        | exact hc.owned
        | exact hc.kept
    · rw [hother j hj]
      first
        | exact (hc.sameActive j hj).trans (h.active j)
        | exact h.within j
        | exact h.checked j
        | exact fun x hx => (hc.sameEntries j x hj hx).trans (h.seen j x hx)
        | exact fun x hx => h.owned j x (hc.sameOwned j x hj hx)
        | exact fun rules hr => h.kept j rules ((hc.sameKept j hj).symm.trans hr)

/-- The chains and the ghosts stay as they are. -/
theorem NatShared.same (h : NatShared initial s l) (m : NatSide ρ)
    (hactive : m.active = (l i).active)
    (hwithin : ∀ x ∈ m.checked, x ∈ m.active) (hchecked : ∀ x ∈ m.added, x ∈ m.checked)
    (hentries : ∀ x ∈ m.checked, entries s.rules x = ownEntries i m x)
    (howned : ∀ x ∈ (l i).added, x ∈ m.added)
    (hapart : ∀ j x, j ≠ i → x ∈ (l j).checked → x ∉ m.checked)
    (hkept : ∀ rules, s.kept i = some rules → m.settled = true) :
    NatShared initial s (Function.update l i m) :=
  h.change ⟨(h.active i).trans hactive.symm, hwithin, hchecked, hentries,
    fun x hx => howned x (h.owned i x hx), hapart, rfl,
    fun rules hr => ⟨hkept rules hr, fun x hx => howned x ((h.kept i rules hr).2 x hx)⟩,
    fun _ _ => rfl, fun _ _ => rfl, fun _ _ _ _ => rfl, fun _ _ _ => id⟩

/-- A check under the condition: the rule becomes the run's own. -/
theorem NatShared.check {rule : NatRule} (h : NatShared initial s l)
    (hactive : parse rule ∈ (l i).active) (hnew : ¬ Has s.rules (parse rule)) (halone : ∀ j, j ≠ i → parse rule ∉ s.active j) :
    parse rule ∉ (l i).added ∧ NatShared initial s
      (Function.update l i { l i with checked := parse rule :: (l i).checked }) := by
  have hno : parse rule ∉ (l i).added := fun hadded =>
    hnew ((h.has_iff (h.checked i _ hadded)).mpr hadded)
  refine ⟨hno, h.same _ rfl ?_ ?_ ?_ (fun x => id) ?_ fun rules hr => (h.kept i rules hr).1⟩
  · intro x hx
    rcases List.mem_cons.mp hx with rfl | hx
    · exact hactive
    · exact h.within i x hx
  · exact fun x hx => List.mem_cons_of_mem _ (h.checked i x hx)
  · intro x hx
    rcases List.mem_cons.mp hx with rfl | hx
    · rw [entries_eq_nil.mpr hnew]
      exact (if_neg hno).symm
    · exact h.seen i x hx
  · intro j x hj hx hmem
    rcases List.mem_cons.mp hmem with rfl | hmem
    · exact halone j hj (h.active j ▸ h.within j _ hx)
    · exact h.apart j i x hj hx hmem

/-- The rule is added at the end. -/
theorem NatShared.append {rule : NatRule} (h : NatShared initial s l)
    (hchecked : parse rule ∈ (l i).checked) (hno : parse rule ∉ (l i).added)
    (hopen : (l i).settled = false) :
    NatShared initial { s with rules := add s.rules i (parse rule) }
      (Function.update l i { l i with added := parse rule :: (l i).added }) := by
  refine h.change ⟨h.active i, h.within i, ?_, ?_, ?_, fun j x hj hx => h.apart j i x hj hx,
    unowned_add _ _ _, fun rules hr => ?_, fun _ _ => rfl, fun _ _ => rfl, ?_, ?_⟩
  · intro x hx
    rcases List.mem_cons.mp hx with rfl | hx
    · exact hchecked
    · exact h.checked i x hx
  · intro x hx
    rw [entries_add, h.seen i x hx]
    by_cases hxr : parse rule = x
    · subst hxr
      simp [ownEntries, hno]
    · simp [ownEntries, hxr, Ne.symm hxr]
  · intro x hx
    rcases List.mem_append.mp hx with hx | hx
    · exact List.mem_cons_of_mem _ (h.owned i x hx)
    · obtain ⟨rfl, -⟩ := Prod.mk.inj (List.mem_singleton.mp hx)
      exact List.mem_cons_self
  · exact nomatch hopen.symm.trans (h.kept i rules hr).1
  · intro j x hj hx
    have hne : parse rule ≠ x := fun heq => h.apart j i x hj hx (heq ▸ hchecked)
    rw [entries_add, if_neg hne, List.append_nil]
  · intro j x hj hx
    rcases List.mem_append.mp hx with hx | hx
    · exact hx
    · exact absurd (Option.some.inj (Prod.mk.inj (List.mem_singleton.mp hx)).2) hj

/-- The run's own rule is deleted. -/
theorem NatShared.delete {rule : NatRule} (h : NatShared initial s l)
    (hchecked : parse rule ∈ (l i).checked) (hhas : Has s.rules (parse rule))
    (hopen : (l i).settled = false) :
    NatShared initial { s with rules := RuleChain.delete s.rules (parse rule) }
      (Function.update l i { l i with added := (l i).added.filter fun x => x ≠ parse rule }) := by
  have hadded := (h.has_iff hchecked).mp hhas
  have hentries : entries s.rules (parse rule) = [(parse rule, some i)] :=
    (h.seen i _ hchecked).trans (if_pos hadded)
  have hgone : entries (RuleChain.delete s.rules (parse rule)) (parse rule) = [] := by
    rw [entries_delete, if_pos rfl, hentries]
    rfl
  have hfirst : first? s.rules (parse rule) = some (parse rule, some i) := by
    rw [first?_eq_head?, hentries]
    rfl
  have hsub : ∀ e ∈ RuleChain.delete s.rules (parse rule), e ∈ s.rules := fun e he =>
    List.mem_of_mem_eraseP he
  refine h.change ⟨h.active i, h.within i, fun x hx => h.checked i x (List.mem_of_mem_filter hx),
    ?_, ?_, fun j x hj hx => h.apart j i x hj hx, unowned_delete hfirst, fun rules hr => ?_,
    fun _ _ => rfl, fun _ _ => rfl, ?_, fun j x _ hx => hsub _ hx⟩
  · intro x hx
    by_cases hxr : parse rule = x
    · subst hxr
      rw [hgone]
      simp [ownEntries]
    · rw [entries_delete, if_neg hxr, ownEntries_filter (Ne.symm hxr)]
      exact h.seen i x hx
  · intro x hx
    refine List.mem_filter.mpr ⟨h.owned i x (hsub _ hx), decide_eq_true ?_⟩
    rintro rfl
    exact entries_eq_nil.mp hgone ⟨_, hx⟩
  · exact nomatch hopen.symm.trans (h.kept i rules hr).1
  · intro j x hj hx
    have hne : parse rule ≠ x := fun heq => h.apart j i x hj hx (heq ▸ hchecked)
    rw [entries_delete, if_neg hne]

/-- A run starts `setup_nat` with the three rules of its own. -/
theorem NatShared.enterSetup {rules : List ρ} (h : NatShared initial s l) (hidle : l i = .idle) :
    NatShared initial { s with active := Function.update s.active i rules }
      (Function.update l i ⟨rules, [], [], false⟩) := by
  refine h.change ⟨Function.update_self .., nofun, nofun, nofun, fun x hx => ?_, nofun, rfl,
    fun rules' hr => ?_, fun j hj => Function.update_of_ne hj _ _, fun _ _ => rfl,
    fun _ _ _ _ => rfl, fun _ _ _ => id⟩
  · have hadded := h.owned i x hx
    rw [hidle] at hadded
    exact hadded
  · have hset := (h.kept i rules' hr).1
    rw [hidle] at hset
    exact nomatch hset

/-- `setup_nat` was successful: the rules that are there now are the run's own. -/
theorem NatShared.settle (h : NatShared initial s l)
    (hchecked : ∀ x ∈ (l i).active, x ∈ (l i).checked) :
    NatShared initial
      { s with
        kept := Function.update s.kept i (some ((s.active i).filter fun x => Has s.rules x)) }
      (Function.update l i { l i with settled := true }) := by
  refine h.change ⟨h.active i, h.within i, h.checked i, h.seen i, h.owned i,
    fun j x hj hx => h.apart j i x hj hx, rfl, fun rules hr => ⟨rfl, fun x hx => ?_⟩,
    fun _ _ => rfl, fun j hj => Function.update_of_ne hj _ _, fun _ _ _ _ => rfl,
    fun _ _ _ => id⟩
  simp only [Function.update_self, Option.some.injEq] at hr
  subst hr
  obtain ⟨hactive, hhas⟩ := List.mem_filter.mp hx
  rw [h.active i] at hactive
  exact (h.has_iff (hchecked x hactive)).mp (of_decide_eq_true hhas)

/-- The cleanup begins: the run no longer counts on its rules. -/
theorem NatShared.enterCleanup (h : NatShared initial s l) :
    NatShared initial { s with kept := Function.update s.kept i none }
      (Function.update l i { l i with settled := false }) := by
  refine h.change ⟨h.active i, h.within i, h.checked i, h.seen i, h.owned i,
    fun j x hj hx => h.apart j i x hj hx, rfl, fun rules hr => ?_, fun _ _ => rfl,
    fun j hj => Function.update_of_ne hj _ _, fun _ _ _ _ => rfl, fun _ _ _ => id⟩
  exact nomatch (Function.update_self ..).symm.trans hr

/-- A run without rules in the chains is over with them. -/
theorem NatShared.finish (h : NatShared initial s l) (hopen : (l i).settled = false)
    (hadded : (l i).added = []) :
    NatShared initial { s with active := Function.update s.active i [] }
      (Function.update l i .idle) := by
  refine h.change ⟨Function.update_self .., nofun, nofun, nofun,
    fun x hx => List.ne_nil_of_mem (h.owned i x hx) hadded |>.elim, nofun, rfl,
    fun rules hr => ?_, fun j hj => Function.update_of_ne hj _ _, fun _ _ => rfl,
    fun _ _ _ _ => rfl, fun _ _ _ => id⟩
  exact nomatch hopen.symm.trans (h.kept i rules hr).1

/-- Nothing is deleted when the rule is not there. -/
theorem NatShared.absent {rule : NatRule} (h : NatShared initial s l)
    (hno : parse rule ∉ (l i).added) :
    NatShared initial s
      (Function.update l i { l i with added := (l i).added.filter fun x => x ≠ parse rule }) := by
  have hsame : (l i).added.filter (fun x => x ≠ parse rule) = (l i).added :=
    List.filter_eq_self.mpr fun x hx => decide_eq_true fun heq => hno (heq ▸ hx)
  rw [hsame, Function.update_eq_self]
  exact h

variable (parse)

/-- The runs with only those steps that meet the condition. -/
abbrev exclusiveHost (ι : Type) [DecidableEq ι] : Host ι Call Answer Int (NatTable ι ρ) :=
  (natHost parse ι).restrict (Exclusive parse)

/-- One call of one run keeps what is known of the chains. -/
theorem nat_step {c : Call} {r : Answer c} (h : NatShared initial s l)
    (hmay : natMay parse (l i) c) (hanswer : s.Answers parse c r) (hcond : Exclusive parse i s c r) :
    natHears parse (l i) c r ∧
      NatShared initial (s.after parse i c r) (Function.update l i (natNext parse (l i) c r)) := by
  have hstay : NatShared initial s (Function.update l i (l i)) := by
    rwa [Function.update_eq_self]
  cases c with
  | iptables cmd =>
    cases cmd with
    | check rule =>
      obtain ⟨hnew, halone⟩ := hcond
      obtain ⟨hno, hshared⟩ := h.check hmay.1 hnew halone
      refine ⟨⟨?_, hno⟩, hshared⟩
      cases r with
      | false => rfl
      | true => exact absurd (hanswer rfl) hnew
    | append rule =>
      obtain ⟨hchecked, hno, hopen⟩ := hmay
      refine ⟨trivial, ?_⟩
      cases r with
      | false => exact hstay
      | true => exact h.append hchecked hno hopen
    | delete rule =>
      obtain ⟨hchecked, hopen⟩ := hmay
      cases r with
      | false =>
        have hno : parse rule ∉ (l i).added := fun hadded =>
          hcond rfl ((h.has_iff hchecked).mpr hadded)
        exact ⟨fun _ => hno, h.absent hno⟩
      | true => exact ⟨nofun, h.delete hchecked (hanswer rfl) hopen⟩
  | enter f =>
    refine ⟨trivial, ?_⟩
    cases f with
    | setupNat subnet hostIf => exact h.enterSetup hmay
    | cleanupNat subnet hostIf => exact h.enterCleanup
    | _ => exact hstay
  | leave f res =>
    refine ⟨trivial, ?_⟩
    cases f with
    | setupNat subnet hostIf =>
      obtain ⟨hopen, hdone⟩ := hmay
      simp only [NatTable.after, natNext]
      by_cases hres : res = 0
      · rw [if_pos hres] at hdone
        rw [if_pos hres, if_pos hres]
        exact h.settle hdone
      · rw [if_neg hres] at hdone
        rw [if_neg hres, if_neg hres]
        exact h.finish hopen hdone
    | cleanupNat subnet hostIf => exact h.finish hmay.1 hmay.2
    | _ => exact hstay
  | _ => exact ⟨trivial, hstay⟩

/-- One call of one run that follows the protocol keeps the invariant of all runs. -/
theorem nat_simulates : (exclusiveHost parse ι).Simulates (fun _ => natUser parse)
    (fun _ _ l => l = .idle) (NatShared initial) where
  env _ h := h.elim
  call := by
    intro s l i c r s' h hmay hcall
    obtain ⟨⟨hanswer, rfl⟩, hcond⟩ := hcall
    obtain ⟨hears, hshared⟩ := nat_step parse h hmay hanswer hcond
    exact ⟨_, hshared, ⟨hears, Function.update_self ..⟩, fun j hj => Function.update_of_ne hj _ _⟩

/-- The chains of a host on which nothing runs. -/
theorem NatShared.start (ι : Type) (initial : List ρ) :
    NatShared initial (.start ι initial) fun _ => .idle := by
  have hnone : ∀ e ∈ (NatTable.start ι initial).rules, e.2 = none := by
    intro e he
    obtain ⟨x, -, rfl⟩ := List.mem_map.mp he
    rfl
  refine ⟨fun _ => rfl, nofun, nofun, nofun, fun i x hx => absurd (hnone _ hx) nofun, nofun, ?_,
    nofun⟩
  rw [← eq_unowned hnone, NatTable.start, List.map_map]
  exact List.map_id initial

variable {parse}

omit [DecidableEq ι] in
/-- What the invariant says to whoever looks at the chains. -/
theorem NatShared.natOwned {g : Global ι Call Answer Int (NatTable ι ρ)}
    (h : NatShared initial g.kern l)
    (hp : ∀ i, (g.prog i).wp (natUser parse) (fun _ l => l = .idle) (l i)) :
    NatOwned parse initial g := by
  refine ⟨fun i rules hr x hx => ?_, fun i rule k hk e he => ?_, fun hall => ?_⟩
  · have hadded := (h.kept i rules hr).2 x hx
    exact (h.has_iff (h.checked i x hadded)).mpr hadded
  · have hmay := hp i
    rw [hk] at hmay
    rw [h.first hmay.1.1 he]
  · rw [← h.unowned]
    refine eq_unowned fun e he => ?_
    obtain ⟨x, o⟩ := e
    cases o with
    | none => rfl
    | some i =>
      obtain ⟨r, hr⟩ := hall i
      have hidle := hp i
      rw [hr] at hidle
      have hadded := h.owned i x he
      rw [show l i = .idle from hidle] at hadded
      exact nomatch hadded

/-- Under the condition the rules are owned. -/
theorem nat_rules_owned (parse : NatRule → ρ) (initial : List ρ) (retries : ι → Nat)
    (args : ι → Args) {g : Global ι Call Answer Int (NatTable ι ρ)}
    (hg : (exclusiveHost parse ι).Reachable (natStart initial retries args) g) :
    NatOwned parse initial g := by
  obtain ⟨l, hI, hp⟩ := (nat_simulates parse).reachable_inv _ (NatShared.start ι initial)
    (fun i => main_natUser parse (retries i) (args i)) hg
  exact hI.natOwned hp

end Shared

/-! ## Runs of `main` -/

section Runs

variable (parse : NatRule → ρ) {ι : Type} [DecidableEq ρ]

instance (s : NatTable ι ρ) (c : Call) (r : Answer c) : Decidable (s.Answers parse c r) := by
  cases c with
  | iptables cmd => cases cmd with
    | append rule => exact isTrue trivial
    | check rule => exact inferInstanceAs (Decidable (r = true → Has s.rules (parse rule)))
    | delete rule => exact inferInstanceAs (Decidable (r = true → Has s.rules (parse rule)))
  | _ => exact isTrue trivial

variable [DecidableEq ι]

/-- The answer is a possible one, and the chains move. -/
def NatTable.post (i : ι) (s : NatTable ι ρ) (c : Call) (r : Answer c) : Option (NatTable ι ρ) :=
  if s.Answers parse c r then some (s.after parse i c r) else none

variable {parse} in
theorem NatTable.post_call {i : ι} {s s' : NatTable ι ρ} {c : Call} {r : Answer c}
    (h : NatTable.post parse i s c r = some s') : (natHost parse ι).call i s c r s' := by
  simp only [NatTable.post] at h
  split at h
  · exact ⟨‹_›, (Option.some.inj h).symm⟩
  · exact nomatch h

instance [Fintype ι] (i : ι) (s : NatTable ι ρ) (c : Call) (r : Answer c) :
    Decidable (Exclusive parse i s c r) := by
  cases c with
  | iptables cmd => cases cmd with
    | append rule => exact isTrue trivial
    | check rule => exact inferInstanceAs (Decidable (¬ Has s.rules (parse rule) ∧
        ∀ j, j ≠ i → parse rule ∉ s.active j))
    | delete rule => exact inferInstanceAs (Decidable (r = false → ¬ Has s.rules (parse rule)))
  | _ => exact isTrue trivial

end Runs

def natHostIp : CStr := webHostIp

/-- `webArgs` with `--host-ip 10.0.0.1/24 --nat`. -/
def natArgs : Args := { webArgs with hostIp := some natHostIp, nat := true }

/-- The first rule of that run. -/
def webMasquerade : NatRule := .masquerade webIp eth0

/-- `n` calls of one run, all granted but `clone`: netlink acknowledges the sequence number,
and of the rules only those of `found` are found. -/
def natTurns {ι : Type} (who : ι) (found : List NatRule) (seq n : Nat) :
    List (Host.Turn ι Call Answer) :=
  List.replicate n <| .call who fun
    | .recvmsg _ => some (.ok (errorDatagram seq 0 0 0 []))
    | .clone _ _ => some (.error EAGAIN)
    | .iptables (.check rule) => some (decide (rule ∈ found))
    | c => granted c

/-- Old interfaces are deleted, the pair is made, gets its address and goes up, and
`last` calls are made from there. -/
def natRun {ι : Type} (who : ι) (found : List NatRule) (last : Nat) :
    List (Host.Turn ι Call Answer) :=
  natTurns who found 4 35 ++ natTurns who found 1 10 ++ natTurns who found 3 9 ++
    natTurns who found 2 10 ++ natTurns who found 4 last

/-- The subnets of two runs. -/
def sideIp (i : Bool) : CStr := if i then webIp else ⟨ascii "10.0.1.2/24", by decide⟩

def sideArgs (i : Bool) : Args := { natArgs with
  containerIp := some (sideIp i)
  hostIp := some (if i then natHostIp else ⟨ascii "10.0.1.1/24", by decide⟩) }

/-- A rule of the administrator for another subnet. -/
def presetRule : NatRule := .forwardReply ⟨ascii "192.168.0.0/16", by decide⟩

/-- The two runs, by a schedule whose steps meet the condition. -/
def sideExec (ts : List (Host.Turn Bool Call Answer)) :
    Option (Global Bool Call Answer Int (NatTable Bool NatRule)) :=
  (exclusiveHost id Bool).exec
    (fun i s c r => if Exclusive id i s c r then NatTable.post id i s c r else none) (fun _ => none)
    ts (natStart [presetRule] (fun _ => 1) sideArgs)

theorem sideExec_reachable {ts : List (Host.Turn Bool Call Answer)}
    {g : Global Bool Call Answer Int (NatTable Bool NatRule)} (h : sideExec ts = some g) :
    (exclusiveHost id Bool).Reachable (natStart [presetRule] (fun _ => 1) sideArgs) g := by
  refine Host.exec_reachable (fun i s c r s' h => ?_) nofun h
  split at h
  · exact ⟨NatTable.post_call h, ‹_›⟩
  · exact nomatch h

/-- Behind the administrator's rule both runs have their three, and in the end it is there
alone. -/
theorem nat_rules_owned_web :
    (∃ g, (exclusiveHost id Bool).Reachable (natStart [presetRule] (fun _ => 1) sideArgs) g ∧
      ∀ i, g.kern.kept i = some (natRules id (sideIp i) eth0) ∧
        ∀ x ∈ natRules id (sideIp i) eth0, Has g.kern.rules x) ∧
    ∃ g, (exclusiveHost id Bool).Reachable (natStart [presetRule] (fun _ => 1) sideArgs) g ∧
      (∀ i, g.prog i = .ret 1) ∧ g.kern.rules.map Prod.fst = [presetRule] := by
  have hmiddle : (sideExec (natRun true [] 12 ++ natRun false [] 12)).map
      (fun g => [g.kern.kept true, g.kern.kept false]) =
      some [some (natRules id (sideIp true) eth0), some (natRules id (sideIp false) eth0)] := by
    decide +kernel
  have hend : (sideExec (natRun true [] 12 ++ natRun false [] 12 ++ natTurns true [] 4 20 ++
      natTurns false [] 4 20)).map (fun g => [(g.prog true).value?, (g.prog false).value?]) =
      some [some 1, some 1] := by
    decide +kernel
  constructor
  · obtain ⟨g, hexec, hkept⟩ := Option.map_eq_some_iff.mp hmiddle
    simp only [List.cons.injEq, and_true] at hkept
    have hg := sideExec_reachable hexec
    have hboth : ∀ i, g.kern.kept i = some (natRules id (sideIp i) eth0) :=
      Bool.forall_bool.mpr ⟨hkept.2, hkept.1⟩
    exact ⟨g, hg, fun i =>
      ⟨hboth i, (nat_rules_owned id [presetRule] _ _ hg).kept i _ (hboth i)⟩⟩
  · obtain ⟨g, hexec, hret⟩ := Option.map_eq_some_iff.mp hend
    simp only [List.cons.injEq, and_true] at hret
    have hg := sideExec_reachable hexec
    have hboth : ∀ i, g.prog i = .ret 1 :=
      Bool.forall_bool.mpr ⟨eq_ret_of_value? hret.2, eq_ret_of_value? hret.1⟩
    exact ⟨g, hg, hboth,
      (nat_rules_owned id [presetRule] _ _ hg).restored fun i => ⟨1, hboth i⟩⟩

/-- The administrator's own rule is found, so it is not added, and deleted in the end. -/
theorem preset_rule_deleted : ∃ g, (natHost id Unit).Reachable
    (natStart [webMasquerade] (fun _ => 1) fun _ => natArgs) g ∧
    ¬ NatOwned id [webMasquerade] g := by
  have hrun : ((natHost id Unit).exec (NatTable.post id) (fun _ => none)
      (natRun () [webMasquerade] 31) (natStart [webMasquerade] (fun _ => 1) fun _ => natArgs)).map
      (fun g => ((g.prog ()).value?, g.kern.rules)) = some (some 1, []) := by
    decide +kernel
  obtain ⟨g, hexec, heq⟩ := Option.map_eq_some_iff.mp hrun
  obtain ⟨hret, hrules⟩ := Prod.mk.inj heq
  refine ⟨g, Host.exec_reachable (fun _ _ _ _ _ => NatTable.post_call) nofun hexec, fun h => ?_⟩
  have hleft := h.restored fun _ => ⟨1, eq_ret_of_value? hret⟩
  rw [hrules] at hleft
  exact nomatch hleft

end Barco
