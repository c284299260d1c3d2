import Barco.ParentDescriptors
import Barco.VethNames

/-!
# Who closes what

The descriptor table of a process: which numbers it has opened, which of them are
closed by `execve`, and whether `close` was ever called on a number that was not
open. A new descriptor gets a number that is not in use.

A function that is `Tidy` leaves the table as it found it, whatever it opens in
between (`same_of_tidy`). What is left are the socket pair, the end that goes to the
child, and the two closes of `cleanup`.

`descriptors_disciplined_iff`: main closes everything it opened, once, exactly in
the runs in which `clone` does not succeed; the program the child executes
inherits nothing in any run.
-/

namespace Barco

open Effect Prog

/-! ## The table -/

structure FdTable where
  /-- the numbers the process has open -/
  own : List Int
  /-- those that `execve` closes -/
  cloexec : List Int
  /-- `close` was called on a number that was not open -/
  misclosed : Bool
  /-- `clone` has succeeded -/
  cloned : Bool

namespace FdTable

def start : FdTable := ⟨[], [], false, false⟩

/-- A new descriptor, open across `execve`. -/
def opened (s : FdTable) (fd : Int) : FdTable :=
  { s with own := fd :: s.own, cloexec := s.cloexec.filter (· ≠ fd) }

def closed (s : FdTable) (fd : Int) : FdTable :=
  { s with own := s.own.erase fd, misclosed := s.misclosed || decide (fd ∉ s.own) }

end FdTable

/-- A new descriptor gets a number that is not in use. -/
def fdNew (s : FdTable) : (c : Call) → Answer c → Prop
  | .socketNetlink, .ok n => (n : Int) ∉ s.own
  | .open _ _, .ok n => (n : Int) ∉ s.own
  | .socketpair, .ok (a, b) => (a : Int) ∉ s.own ∧ (b : Int) ∉ (s.opened a).own
  | _, _ => True

/-- How a call changes the table. -/
def fdPost (s : FdTable) : (c : Call) → Answer c → FdTable
  | .socketNetlink, .ok n => s.opened n
  | .open _ _, .ok n => s.opened n
  | .socketpair, .ok (a, b) => (s.opened a).opened b
  | .fcntlCloexec fd, .ok _ => { s with cloexec := fd :: s.cloexec }
  | .close fd, _ => s.closed fd
  | .clone _ _, .ok _ => { s with cloned := true }
  | _, _ => s

/-- When the child is made, the process has the two ends of the pair open, and keeps
one of them from the child's program; at `execve` every descriptor is kept back.
Before `clone` has succeeded, only open descriptors are closed. -/
def fdRule (s : FdTable) : Call → Prop
  | .close fd => fd ∈ s.own ∨ s.cloned = true
  | .clone _ config => ∃ a b : Int, s.own = [b, a] ∧ a ∈ s.cloexec ∧ config.fd = b
  | .execve _ _ => ∀ fd ∈ s.own, fd ∈ s.cloexec
  | _ => True

/-- Descriptors with new numbers. -/
def fdKernel : Machine Call Answer FdTable where
  may _ _ := True
  step s c r s' := fdNew s c r ∧ s' = fdPost s c r

def fdGuarded : Machine Call Answer FdTable := fdKernel.guard fdRule

/-! ## Functions that leave the table alone -/

/-- The same table, as far as the descriptors it began with are concerned. -/
structure SameTable (keep : List Int) (s s' : FdTable) : Prop where
  own : s'.own = s.own
  misclosed : s'.misclosed = s.misclosed
  cloned : s'.cloned = s.cloned
  cloexec : ∀ fd ∈ keep, fd ∈ s.cloexec → fd ∈ s'.cloexec

/-- The call is not one of those that the whole table depends on. -/
def Ordinary (c : Call) : Prop := c.area ≠ .sockets ∧ (∀ flags config, c ≠ .clone flags config) ∧
  ∀ path argv, c ≠ .execve path argv

/-- The table in the middle of a function: its own descriptors come first. -/
structure Within (base : List Int) (s₀ : FdTable) (mine : List Int) (s : FdTable) : Prop where
  own : s.own = mine ++ base
  misclosed : s.misclosed = s₀.misclosed
  cloned : s.cloned = s₀.cloned
  cloexec : ∀ fd ∈ base, fd ∈ s₀.cloexec → fd ∈ s.cloexec

theorem Within.opened {base mine : List Int} {s₀ s : FdTable} {fd : Int}
    (h : Within base s₀ mine s) (hnew : fd ∉ s.own) : Within base s₀ (fd :: mine) (s.opened fd) where
  own := congrArg (fd :: ·) h.own
  misclosed := h.misclosed
  cloned := h.cloned
  cloexec := fun d hd hcl => by
    refine List.mem_filter.mpr ⟨h.cloexec d hd hcl, decide_eq_true ?_⟩
    rintro rfl
    exact hnew (h.own ▸ List.mem_append_right _ hd)

/-- One call on descriptors of the function's own. -/
theorem Within.step {base mine : List Int} {s₀ s : FdTable} {c : Call} {r : Answer c}
    (h : Within base s₀ mine s) (hfd : ∀ fd, c.fd? = some fd → fd ∈ mine) (hc : Ordinary c)
    (hnew : fdNew s c r) : Within base s₀ (openAfter mine c r) (fdPost s c r) := by
  cases c with
  | socketNetlink =>
    cases r with
    | error e => exact h
    | ok n => exact h.opened hnew
  | «open» path mode =>
    cases r with
    | error e => exact h
    | ok n => exact h.opened hnew
  | socketpair => exact absurd rfl hc.1
  | fcntlCloexec fd =>
    cases r with
    | error e => exact h
    | ok u =>
      exact ⟨h.own, h.misclosed, h.cloned, fun d hd hcl =>
        List.mem_cons_of_mem _ (h.cloexec d hd hcl)⟩
  | close fd =>
    have hmem := hfd fd rfl
    refine ⟨?_, ?_, h.cloned, h.cloexec⟩
    · show s.own.erase fd = mine.erase fd ++ base
      rw [h.own, List.erase_append_left _ hmem]
    · have hown : fd ∈ s.own := h.own ▸ List.mem_append_left _ hmem
      show (s.misclosed || decide (fd ∉ s.own)) = _
      rw [h.misclosed, decide_eq_false (not_not.mpr hown), Bool.or_false]
  | clone flags config => exact absurd rfl (hc.2.1 flags config)
  | _ => exact h

theorem fdRule_ordinary {s : FdTable} {c : Call} (hc : Ordinary c)
    (hfd : ∀ fd, c.fd? = some fd → fd ∈ s.own) : fdRule s c := by
  cases c with
  | close fd => exact .inl (hfd fd rfl)
  | clone flags config => exact absurd rfl (hc.2.1 flags config)
  | execve path argv => exact absurd rfl (hc.2.2 path argv)
  | _ => trivial

/-- A function that is tidy with the descriptors `mine` leaves the table as it was. -/
theorem same_of_tidy {α : Type} {S : List Area} {P : α → Prop} {p : Sys α} {mine : List Int}
    {s : FdTable} (base : List Int) (hp : wp (tidy S) p (fun a own' => own' = mine ∧ P a) mine)
    (hq : p.Only Ordinary) (hs : s.own = mine ++ base) :
    wp fdGuarded p (fun a s' => SameTable base s s' ∧ P a) s := by
  have hgen : ∀ (p : Sys α) (own : List Int) (t : FdTable),
      wp (tidy S) p (fun a own' => own' = mine ∧ P a) own → p.Only Ordinary →
      Within base s own t → wp fdGuarded p (fun a s' => SameTable base s s' ∧ P a) t := by
    intro p
    induction p with
    | ret a =>
      rintro own t ⟨rfl, ha⟩ - h
      exact ⟨⟨h.own.trans hs.symm, h.misclosed, h.cloned, h.cloexec⟩, ha⟩
    | call c k ih =>
      rintro own t ⟨⟨-, hfd⟩, hk⟩ ⟨hc, hrest⟩ h
      have hown : ∀ fd, c.fd? = some fd → fd ∈ t.own := fun fd h' =>
        h.own ▸ List.mem_append_left _ (hfd fd h')
      refine ⟨fdRule_ordinary hc hown, fun r t' hstep => ?_⟩
      obtain ⟨hnew, rfl⟩ := hstep
      exact ih r _ _ (hk r _ rfl) (hrest r) (h.step hfd hc hnew)
  exact hgen p mine s hp hq ⟨hs, rfl, rfl, fun _ _ h => h⟩

/-- Areas without the calls that the whole table depends on. -/
theorem ordinary_of_areas {α : Type} {S : List Area} {p : Sys α} (hp : p.Only fun c => c.area ∈ S)
    (hS : ∀ a ∈ S, a ≠ .sockets ∧ a ≠ .process ∧ a ≠ .execve) : p.Only Ordinary := by
  refine hp.mono fun c hc => ?_
  obtain ⟨hsockets, hprocess, hexec⟩ := hS _ hc
  refine ⟨hsockets, fun flags config h => hprocess ?_, fun path argv h => hexec ?_⟩ <;>
    rw [h] <;> rfl

/-! ## The parent -/

/-- What `main` holds: nothing before the pair is made, then both ends, and one of
them once the child has the other. -/
structure Holding (st : MainState) (s : FdTable) : Prop where
  misclosed : s.misclosed = false
  own : (st.sockets = (-1, -1) ∧ s.own = [] ∧ s.cloned = false) ∨
    ∃ a b : Nat, a ≠ b ∧ st.sockets = ((a : Int), (b : Int)) ∧
      s.own = if s.cloned then [(a : Int)] else [(b : Int), (a : Int)]

/-- What `main` leaves: nothing open, and one close too many if there is a child. -/
structure Released (s : FdTable) : Prop where
  own : s.own = []
  misclosed : s.misclosed = s.cloned

namespace Holding

variable {st st' : MainState} {s s' : FdTable}

theorem same {base : List Int} (h : Holding st s) (hk : SameTable base s s') : Holding st s' :=
  ⟨hk.misclosed.trans h.misclosed, by rw [hk.own, hk.cloned]; exact h.own⟩

theorem sockets (h : Holding st s) (hst : st'.sockets = st.sockets) : Holding st' s :=
  ⟨h.misclosed, by rw [hst]; exact h.own⟩

/-- A tidy operation of `main`. -/
theorem tidy {α : Type} {S : List Area} {P : α → Prop} {p : Sys α} (h : Holding st s)
    (hp : Tidy S P p) (hq : p.Only Ordinary) :
    wp fdGuarded p (fun a s' => Holding st s' ∧ P a) s :=
  wp_mono (same_of_tidy _ (hp s.own) hq (List.append_nil s.own).symm) fun _ _ hk =>
    ⟨h.same hk.1, hk.2⟩

end Holding

theorem ordinary_releaseNat (st : MainState) : (releaseNat st).Only Ordinary :=
  ordinary_of_areas (releaseNat_tidy st).only (by decide)

/-- `cleanup` closes what is open, and the end it gave away once more. -/
theorem cleanup_releases {st : MainState} {s : FdTable} (h : Holding st s) :
    wp fdGuarded (cleanup st) (fun _ => Released) s := by
  refine wp_seq (h.tidy (releaseNat_tidy st) (ordinary_releaseNat st)) ?_
  rintro - s₁ ⟨h₁, -⟩
  refine wp_seq (h₁.tidy (releaseVeth_tidy st)
    (ordinary_of_areas (releaseVeth_tidy st).only (by decide))) ?_
  rintro - s₂ ⟨h₂, -⟩
  have hlast : ∀ s₃, Released s₃ →
      wp fdGuarded (releaseCgroup st >>= fun _ => pure st.exitcode) (fun _ => Released) s₃ :=
    fun s₃ h₃ => wp_seq (same_of_tidy _ (releaseCgroup_tidy st s₃.own)
      (ordinary_of_areas (releaseCgroup_tidy st).only (by decide)) (List.append_nil _).symm)
      fun _ s₄ hk => ⟨hk.1.own.trans h₃.own, by rw [hk.1.misclosed, hk.1.cloned, h₃.misclosed]⟩
  obtain ⟨hmis, ⟨hsock, hown, hcl⟩ | ⟨a, b, hab, hsock, hown⟩⟩ := h₂
  · rw [hsock]
    exact hlast s₂ ⟨hown, hmis.trans hcl.symm⟩
  · have hba : (b : Int) ≠ a := by omega
    have hpos : ∀ n : Nat, (n : Int) ≥ 0 := Int.natCast_nonneg
    rw [hsock]
    simp only [closeSocket, if_pos (hpos a), if_pos (hpos b)]
    cases hcl : s₂.cloned with
    | false =>
      rw [hcl] at hown
      refine ⟨.inl (by simp [hown]), fun _ s₃ hs₃ => ?_⟩
      obtain ⟨-, rfl⟩ := hs₃
      refine ⟨.inl (by simp [fdPost, FdTable.closed, hown, hba]), fun _ s₄ hs₄ => hlast s₄ ?_⟩
      obtain ⟨-, rfl⟩ := hs₄
      constructor <;> simp [fdPost, FdTable.closed, hown, hmis, hcl, hba]
    | true =>
      rw [hcl] at hown
      refine ⟨.inr hcl, fun _ s₃ hs₃ => ?_⟩
      obtain ⟨-, rfl⟩ := hs₃
      -- the end that `container_init` has closed already
      refine ⟨.inr hcl, fun _ s₄ hs₄ => hlast s₄ ?_⟩
      obtain ⟨-, rfl⟩ := hs₄
      constructor <;> simp [fdPost, FdTable.closed, hown, hmis, hcl]

theorem ordinary_call {c : Call} (h : c.area ≠ .sockets ∧ c.area ≠ .execve)
    (hclone : ∀ flags config, c ≠ .clone flags config) : Ordinary c :=
  ⟨h.1, hclone, fun _ _ hc => h.2 (hc ▸ rfl)⟩

theorem ordinary_containerStop (pid : Nat) : (containerStop pid).Only Ordinary := by
  have hcall : ∀ c : Call, c.area = .process → (∀ flags config, c ≠ .clone flags config) →
      Ordinary c := fun c h => ordinary_call (by simp [h])
  refine ⟨hcall _ rfl (by simp), fun r => ?_⟩
  cases r with
  | error e => exact only_pure ()
  | ok u => exact ⟨hcall _ rfl (by simp), fun _ => only_pure ()⟩

theorem ordinary_waitContainer (pid retries : Nat) : (waitContainer pid retries).Only Ordinary := by
  induction retries with
  | zero => exact ⟨ordinary_call (by simp [Call.area]) (by simp), fun r => nomatch r⟩
  | succ retries ih =>
    refine ⟨ordinary_call (by simp [Call.area]) (by simp), fun r => ?_⟩
    cases r with
    | error e =>
      show Only _ (if e = EINTR then waitContainer pid retries else pure none)
      split
      · exact ih
      · exact only_pure none
    | ok w =>
      show Only _ (if w.1 = pid then pure (some w.2) else waitContainer pid retries)
      split
      · exact only_pure _
      · exact ih

theorem ordinary_moveVeth (pid : Nat) (tmp : CStr) : (moveVeth pid tmp).Only Ordinary := by
  have hclose : ∀ fd, (closeFd fd).Only Ordinary := fun fd =>
    ⟨ordinary_call (by simp [Call.area]) (by simp), fun _ => only_pure ()⟩
  have hstop : (containerStop pid >>= fun _ => pure false).Only Ordinary :=
    (ordinary_containerStop pid).bind fun _ => only_pure false
  refine ⟨ordinary_call (by simp [Call.area, Path.area]) (by simp), fun r => ?_⟩
  cases r with
  | error e => exact hstop
  | ok nsFd =>
    refine (ordinary_of_areas (nlInvoke_tidy (f := .nlMoveToNs tmp nsFd) net_mark
      (nlMoveToNs_tidy tmp nsFd)).only (by decide)).bind fun r => ?_
    split
    · exact (hclose nsFd).bind fun _ => hstop
    · exact (hclose nsFd).bind fun _ => only_pure true

/-- A call that leaves the table as it is. -/
theorem fd_same {β : Type} {c : Call} {k : Answer c → Sys β} {Q : β → FdTable → Prop} {s : FdTable}
    (hrule : fdRule s c) (hpost : ∀ r, fdPost s c r = s)
    (hk : ∀ r, wp fdGuarded (k r) Q s) : wp fdGuarded (sys c >>= k) Q s :=
  ⟨hrule, fun r s' h => by
    obtain rfl : s' = s := h.2.trans (hpost r)
    exact hk r⟩

/-- The marks of a call do not touch the table. -/
theorem fd_invoke {f : Fn} {body : Sys Int} {Q : Int → FdTable → Prop} {s : FdTable}
    (h : wp fdGuarded body Q s) : wp fdGuarded (invoke f body) Q s :=
  fd_same trivial (fun _ => rfl) fun _ => wp_seq h fun _ _ h' =>
    fd_same trivial (fun _ => rfl) fun _ => h'

namespace Holding

variable {st : MainState} {s : FdTable}

/-- An operation of `main` on the end of the pair it keeps. -/
theorem uses {S : List Area} {P : Int → Prop} {p : Sys Int} (h : Holding st s)
    (hp : Uses S P st.sockets.1 p) (hmem : st.sockets.1 ∈ s.own) (hq : p.Only Ordinary) :
    wp fdGuarded p (fun a s' => Holding st s' ∧ P a) s :=
  wp_mono (same_of_tidy _ (hp s.own hmem) hq (List.append_nil s.own).symm) fun _ _ hk =>
    ⟨h.same hk.1, hk.2⟩

theorem stop (pid : Nat) (h : Holding st s) :
    wp fdGuarded (containerStop pid >>= fun _ => pure st.fail)
      (fun st' s' => Holding st' s') s :=
  wp_seq (h.tidy (containerStop_tidy pid) (ordinary_containerStop pid)) fun _ _ h' =>
    h'.1.sockets rfl

/-- Sections 8 to 10, with the parent's end still open. -/
theorem supervise (retries pid : Nat) (h : Holding st s) (hmem : st.sockets.1 ∈ s.own) :
    wp fdGuarded (superviseContainer retries st pid) (fun st' s' => Holding st' s') s := by
  unfold superviseContainer
  cases st.config.hostname with
  | none => exact ⟨trivial, fun r => nomatch r⟩
  | some hostname =>
    refine wp_seq (fd_invoke (same_of_tidy _ (cgroupsInit_tidy hostname pid s.own)
      (ordinary_of_areas (cgroupsInit_tidy hostname pid).only (by decide))
      (List.append_nil s.own).symm)) ?_
    rintro - s₁ ⟨hk₁, -⟩
    have hmem₁ : st.sockets.1 ∈ s₁.own := hk₁.own.symm ▸ hmem
    have hmaps := prepareMappings_uses pid st.sockets.1
    refine wp_seq (fd_invoke ((h.same hk₁).uses hmaps hmem₁
      (ordinary_of_areas hmaps.only (by decide)))) ?_
    rintro r s₂ ⟨h₂, -⟩
    split
    · exact h₂.stop pid
    · refine wp_seq (h₂.tidy (waitContainer_tidy pid retries)
        (ordinary_waitContainer pid retries)) ?_
      rintro (_ | status) s₃ ⟨h₃, -⟩
      · exact h₃.sockets rfl
      · refine h₃.sockets ?_
        split <;> rfl

end Holding

/-- What is held from `clone` on: the parent's end only. -/
theorem holding_cloned {st : MainState} {s : FdTable} {a b : Nat} (hab : a ≠ b)
    (hsock : st.sockets = ((a : Int), (b : Int))) (hown : s.own = [(a : Int)])
    (hmis : s.misclosed = false) (hcl : s.cloned = true) : Holding st s :=
  ⟨hmis, .inr ⟨a, b, hab, hsock, by simp [hcl, hown]⟩⟩

/-- Both ends are open, and the child's end is in the configuration. -/
structure PairOpen (st : MainState) (s : FdTable) : Prop where
  pair : ∃ a b : Nat, a ≠ b ∧ st.sockets = ((a : Int), (b : Int)) ∧ st.config.fd = b ∧
    s.own = [(b : Int), (a : Int)] ∧ (a : Int) ∈ s.cloexec
  misclosed : s.misclosed = false
  cloned : s.cloned = false

theorem PairOpen.holding {st : MainState} {s : FdTable} (h : PairOpen st s) : Holding st s := by
  obtain ⟨a, b, hab, hsock, -, hown, -⟩ := h.pair
  exact ⟨h.misclosed, .inr ⟨a, b, hab, hsock, by simp [h.cloned, hown]⟩⟩

/-- `container_init` gives one end away when it makes the child. -/
theorem containerInit_holds {st : MainState} {s : FdTable} (h : PairOpen st s) :
    wp fdGuarded (containerInit st.config) (fun x s' => Holding { st with config := x.2 } s' ∧
      (0 ≤ x.1 → st.sockets.1 ∈ s'.own)) s := by
  obtain ⟨a, b, hab, hsock, hfd, hown, hcloexec⟩ := h.pair
  refine ⟨⟨a, b, hown, hcloexec, hfd⟩, fun r s₁ hs₁ => ?_⟩
  cases r with
  | error e =>
    obtain ⟨-, rfl⟩ := hs₁
    exact ⟨h.holding.sockets rfl, fun hpid => absurd hpid (show ¬ (0 : Int) ≤ -1 by decide)⟩
  | ok pid =>
    obtain ⟨-, rfl⟩ := hs₁
    have hpos : st.config.fd ≥ 0 := by rw [hfd]; exact Int.natCast_nonneg b
    show wp fdGuarded (if st.config.fd ≥ 0 then _ else _) _ _
    rw [if_pos hpos]
    refine ⟨.inr rfl, fun _ s₂ hs₂ => ?_⟩
    obtain ⟨-, rfl⟩ := hs₂
    have hown₂ : (({ s with cloned := true } : FdTable).closed st.config.fd).own = [(a : Int)] := by
      simp [FdTable.closed, hown, hfd]
    have hmis₂ : (({ s with cloned := true } : FdTable).closed st.config.fd).misclosed = false := by
      simp [FdTable.closed, hown, hfd, h.misclosed]
    refine ⟨holding_cloned hab hsock hown₂ hmis₂ rfl, fun _ => ?_⟩
    show st.sockets.1 ∈ (({ s with cloned := true } : FdTable).closed st.config.fd).own
    rw [hown₂, hsock]
    exact List.mem_cons_self

/-- Sections 7 to 10, from the point where both ends are open. -/
theorem runContainer_holds (retries : Nat) {st : MainState} {s : FdTable} (h : PairOpen st s) :
    wp fdGuarded (runContainer retries st) (fun st' s' => Holding st' s') s := by
  refine wp_seq (containerInit_holds h) ?_
  rintro ⟨pid, config⟩ s₁ ⟨h₁, hmem⟩
  show wp fdGuarded (if pid < 0 then _ else _) _ _
  split
  · exact h₁.sockets rfl
  · rename_i hpid
    have hmem₁ := hmem (by omega)
    refine fd_same (c := .usleep 100000) trivial (fun _ => rfl) fun _ => ?_
    refine fd_same (c := .kill pid.toNat 0) trivial (fun _ => rfl) fun r => ?_
    cases r with
    | error e => exact h₁.sockets rfl
    | ok u =>
      dsimp only
      split
      · rename_i tmp hcreated htmp
        refine wp_seq (same_of_tidy _ (moveVeth_tidy pid.toNat tmp s₁.own)
          (ordinary_moveVeth pid.toNat tmp) (List.append_nil s₁.own).symm) ?_
        rintro b s₂ ⟨hk, -⟩
        split
        · exact (h₁.same hk).sockets rfl
        · exact (h₁.same hk).supervise retries pid.toNat (hk.own.symm ▸ hmem₁)
      · exact h₁.supervise retries pid.toNat hmem₁

/-! ## All of `main` -/

/-- Nothing is open yet. -/
structure Idle (st : MainState) (s : FdTable) : Prop where
  sockets : st.sockets = (-1, -1)
  own : s.own = []
  misclosed : s.misclosed = false
  cloned : s.cloned = false

theorem Idle.holding {st : MainState} {s : FdTable} (h : Idle st s) : Holding st s :=
  ⟨h.misclosed, .inl ⟨h.sockets, h.own, h.cloned⟩⟩

theorem openSockets_opens {st : MainState} {s : FdTable} (h : Idle st s) :
    wp fdGuarded (openSockets st) (fun e s' => match e with
      | .error st' => Holding st' s'
      | .ok st' => PairOpen st' s') s := by
  refine fd_same (c := .geteuid) trivial (fun _ => rfl) fun _ => ⟨trivial, fun r s₁ hs₁ => ?_⟩
  cases r with
  | error e =>
    obtain ⟨-, rfl⟩ := hs₁
    exact h.holding.sockets rfl
  | ok pair =>
    obtain ⟨a, b⟩ := pair
    obtain ⟨⟨-, hb⟩, rfl⟩ := hs₁
    have hab : a ≠ b := by
      rintro rfl
      exact hb List.mem_cons_self
    have hown : ((s.opened a).opened b).own = [(b : Int), (a : Int)] := by
      simp [FdTable.opened, h.own]
    have hcl : ((s.opened a).opened b).cloned = false := h.cloned
    refine ⟨trivial, fun r s₂ hs₂ => ?_⟩
    cases r with
    | error e =>
      obtain ⟨-, rfl⟩ := hs₂
      refine ⟨h.misclosed, .inr ⟨a, b, hab, rfl, ?_⟩⟩
      show ((s.opened a).opened b).own = if ((s.opened a).opened b).cloned then _ else _
      rw [hcl]
      exact hown
    | ok u =>
      obtain ⟨-, rfl⟩ := hs₂
      have hpair : PairOpen { st with
            sockets := ((a : Int), (b : Int)), config := { st.config with fd := (b : Int) } }
          { (s.opened a).opened b with cloexec := (a : Int) :: ((s.opened a).opened b).cloexec } :=
        ⟨⟨a, b, hab, rfl, rfl, hown, List.mem_cons_self⟩, h.misclosed, hcl⟩
      refine fd_same (c := .malloc) trivial (fun _ => rfl) fun r => ?_
      cases r with
      | false => exact hpair.holding.sockets rfl
      | true => exact ⟨hpair.pair, hpair.misclosed, hpair.cloned⟩

theorem SameTable.pairOpen {st : MainState} {s s' : FdTable} (hk : SameTable s.own s s')
    (h : PairOpen st s) : PairOpen st s' := by
  obtain ⟨a, b, hab, hsock, hfd, hown, hcl⟩ := h.pair
  exact ⟨⟨a, b, hab, hsock, hfd, hk.own.trans hown, hk.cloexec a (by simp [hown]) hcl⟩,
    hk.misclosed.trans h.misclosed, hk.cloned.trans h.cloned⟩

/-- An operation that works on none of the open descriptors. -/
theorem same_all {α : Type} {S : List Area} {P : α → Prop} {p : Sys α} (s : FdTable)
    (hp : Tidy S P p) (hq : p.Only Ordinary) :
    wp fdGuarded p (fun a s' => SameTable s.own s s' ∧ P a) s :=
  same_of_tidy _ (hp []) hq rfl

theorem mainFrom_releases (retries : Nat) {st : MainState} {s : FdTable} (h : Idle st s) :
    wp fdGuarded (mainFrom retries st) (fun _ => Released) s := by
  refine wp_seq (openSockets_opens h) fun e s₁ h₁ => ?_
  cases e with
  | error st₁ => exact cleanup_releases h₁
  | ok st₁ =>
    refine wp_seq (wp_returns (same_all s₁ (hostNetwork_tidy st₁)
      (ordinary_of_areas (hostNetwork_tidy st₁).only (by decide))) (hostNetwork_returns st₁)) ?_
    rintro (st₂ | st₂) s₂ ⟨⟨hk, -⟩, hst⟩
    · obtain rfl := hst
      exact cleanup_releases ((hk.pairOpen h₁).holding.sockets rfl)
    · obtain ⟨vethCreated, natApplied, hostIf, rfl, -⟩ := hst
      have h₂ := hk.pairOpen h₁
      refine wp_seq (runContainer_holds retries ⟨h₂.pair, h₂.misclosed, h₂.cloned⟩) ?_
      exact fun st₃ s₃ h₃ => cleanup_releases h₃

theorem Configured.sockets {args : Args} {e : Except MainState MainState} (h : Configured args e) :
    match e with
    | .ok st | .error st => st.sockets = (-1, -1) := by
  cases h <;> rfl

/-- Whatever way `main` takes. -/
theorem main_releases (retries : Nat) (args : Args) :
    wp fdGuarded (main retries args) (fun _ => Released) .start := by
  have hstart : Released .start := ⟨rfl, rfl⟩
  refine fd_same (c := .calloc) trivial (fun _ => rfl) fun b => ?_
  cases b with
  | false => exact hstart
  | true =>
    show wp fdGuarded (if args.errors then _ else _) _ _
    split
    · exact hstart
    · split
      · exact hstart
      · refine wp_seq (wp_returns (same_all .start (fillConfig_tidy args)
          (ordinary_of_areas (fillConfig_tidy args).only (by decide)))
          (fillConfig_configured args)) ?_
        rintro (st | st) s₁ ⟨⟨hk, -⟩, hst⟩
        · exact cleanup_releases
            (Idle.holding ⟨hst.sockets, hk.own, hk.misclosed, hk.cloned⟩)
        · exact mainFrom_releases retries ⟨hst.sockets, hk.own, hk.misclosed, hk.cloned⟩

/-! ## The child -/

/-- The child's end is in the configuration, and `execve` closes the other one. -/
structure EndsKept (config : ContainerConfig) (s : FdTable) : Prop where
  ends : ∃ a b : Int, s.own = [b, a] ∧ a ∈ s.cloexec ∧ config.fd = b
  cloned : s.cloned = true

section Child

variable {config : ContainerConfig} {s s' : FdTable}

theorem EndsKept.same (h : EndsKept config s) (hk : SameTable s.own s s') : EndsKept config s' := by
  obtain ⟨a, b, hown, hcl, hfd⟩ := h.ends
  exact ⟨⟨a, b, hk.own.trans hown, hk.cloexec a (by simp [hown]) hcl, hfd⟩,
    hk.cloned.trans h.cloned⟩

/-- A tidy function of the child. -/
theorem EndsKept.tidy {α : Type} {S : List Area} {P : α → Prop} {p : Sys α}
    (h : EndsKept config s) (hp : Tidy S P p)
    (hS : ∀ a ∈ S, a ≠ .sockets ∧ a ≠ .process ∧ a ≠ .execve) :
    wp fdGuarded p (fun _ s' => EndsKept config s') s :=
  wp_mono (same_all s hp (ordinary_of_areas hp.only hS)) fun _ _ hk => h.same hk.1

theorem containerFail_free (config : ContainerConfig) (fdClosed : Bool) (h : s.cloned = true) :
    wp fdGuarded (containerFail config fdClosed) (fun _ _ => True) s := by
  unfold containerFail
  split
  · exact ⟨.inr h, fun _ _ _ => trivial⟩
  · exact trivial

theorem containerExec_keeps (h : EndsKept config s) :
    wp fdGuarded (containerExec config) (fun _ _ => True) s := by
  obtain ⟨a, b, hown, hcl, hfd⟩ := h.ends
  have huser := userNamespaceInit_uses config.uid config.fd
  -- the user namespace uses the child's end of the pair
  refine wp_seq (fd_invoke (same_of_tidy [a] (huser [config.fd] List.mem_cons_self)
    (ordinary_of_areas huser.only (by decide)) (by rw [hown, hfd]; rfl))) ?_
  rintro r s₁ ⟨hk, -⟩
  have h₁ : EndsKept config s₁ :=
    ⟨⟨a, b, hk.own.trans hown, hk.cloexec a List.mem_cons_self hcl, hfd⟩, hk.cloned.trans h.cloned⟩
  split
  · exact containerFail_free config false h₁.cloned
  refine wp_seq (fd_invoke (h₁.tidy secSetCaps_tidy (by decide))) fun r s₂ h₂ => ?_
  split
  · exact containerFail_free config false h₂.cloned
  refine wp_seq (fd_invoke (h₂.tidy secSetSeccomp_tidy (by decide))) fun r s₃ h₃ => ?_
  split
  · exact containerFail_free config false h₃.cloned
  refine ⟨.inr h₃.cloned, fun r s₄ hs₄ => ?_⟩
  obtain ⟨-, rfl⟩ := hs₄
  cases r with
  | error e => exact containerFail_free config false h₃.cloned
  | ok u =>
    obtain ⟨a, b, hown, hcl, hfd⟩ := h₃.ends
    refine ⟨fun fd hmem => ?_, fun r s₅ _ => ?_⟩
    · have hown₄ : (s₃.closed config.fd).own = [a] := by simp [FdTable.closed, hown, hfd]
      obtain rfl : fd = a := List.mem_singleton.mp (hown₄ ▸ hmem)
      exact hcl
    · cases r with
      | error e => exact trivial
      | ok u => exact trivial

/-- The child's program inherits nothing. -/
theorem containerStart_keeps (h : EndsKept config s) :
    wp fdGuarded (containerStart config) (fun _ _ => True) s := by
  refine wp_seq (h.tidy (containerHostname_tidy config) (by decide)) fun b s₁ h₁ => ?_
  split
  · exact containerFail_free config false h₁.cloned
  refine wp_seq (fd_invoke (h₁.tidy (mountSet_tidy config.mnt) (by decide))) fun r s₂ h₂ => ?_
  split
  · exact containerFail_free config false h₂.cloned
  refine wp_seq (h₂.tidy (configureNetwork_tidy config) (by decide)) fun b s₃ h₃ => ?_
  split
  · exact containerFail_free config false h₃.cloned
  refine wp_seq (h₃.tidy (configureDns_tidy config) (by decide)) fun _ s₄ h₄ => ?_
  exact wp_seq (h₄.tidy enablePingDgram_tidy (by decide)) fun _ s₅ h₅ => containerExec_keeps h₅

end Child

/-! ## The result -/

theorem fdPost_misclosed {s : FdTable} {c : Call} {r : Answer c} (hrule : fdRule s c)
    (hs : s.cloned = false → s.misclosed = false) :
    (fdPost s c r).cloned = false → (fdPost s c r).misclosed = false := by
  cases c with
  | close fd =>
    intro hcl
    have hmem : fd ∈ s.own := hrule.resolve_right (by rw [show s.cloned = false from hcl]; decide)
    simp [fdPost, FdTable.closed, hs hcl, hmem]
  | clone flags config =>
    cases r with
    | error e => exact hs
    | ok pid => exact fun hcl => nomatch hcl
  | socketNetlink =>
    cases r with
    | error e => exact hs
    | ok n => exact hs
  | «open» path mode =>
    cases r with
    | error e => exact hs
    | ok n => exact hs
  | socketpair =>
    cases r with
    | error e => exact hs
    | ok pair => exact hs
  | fcntlCloexec fd =>
    cases r with
    | error e => exact hs
    | ok u => exact hs
  | _ => exact hs

/-- Until `clone` succeeds, nothing is closed that is not open. -/
theorem run_misclosed {α : Type} {p q : Sys α} {Q : α → FdTable → Prop} {s t : FdTable}
    (h : wp fdGuarded p Q s) (hr : Run fdKernel p s q t)
    (hs : s.cloned = false → s.misclosed = false) : t.cloned = false → t.misclosed = false := by
  induction hr with
  | refl _ _ => exact hs
  | call hstep _ ih =>
    refine ih (h.2 _ _ hstep) ?_
    rw [hstep.2]
    exact fdPost_misclosed h.1 hs

/-- A run is disciplined so far: it has closed nothing that was not open, and if it
has returned, nothing is open. -/
structure Disciplined (q : Sys Int) (s : FdTable) : Prop where
  misclosed : s.misclosed = false
  closed : ∀ r, q = .ret r → s.own = []

/-- The program that the child of a run executes inherits none of the descriptors:
the child begins with the parent's table. -/
def ChildInheritsNothing (retries : Nat) (args : Args) : Prop :=
  ∀ flags config k s, Run fdKernel (main retries args) .start (.call (.clone flags config) k) s →
    ∀ path argv k' t, Run fdKernel (containerStart config) { s with cloned := true }
      (.call (.execve path argv) k') t → ∀ fd ∈ t.own, fd ∈ t.cloexec

theorem child_inherits_nothing (retries : Nat) (args : Args) : ChildInheritsNothing retries args := by
  intro flags config k s hr path argv k' t hr'
  have hends : EndsKept config { s with cloned := true } :=
    ⟨run_call (M := fdKernel) (main_releases retries args) hr, rfl⟩
  exact run_call (M := fdKernel) (containerStart_keeps hends) hr'

/-- What the child's program gets is right in every run. What the parent closes is
right until `clone` succeeds, and in a run to the end exactly when it has not:
`cleanup` then closes the end that `container_init` has closed. -/
theorem descriptors_disciplined_iff (retries : Nat) (args : Args) :
    ChildInheritsNothing retries args ∧
      (∀ q s, Run fdKernel (main retries args) .start q s → s.cloned = false → Disciplined q s) ∧
      ∀ r s, Run fdKernel (main retries args) .start (.ret r) s →
        (Disciplined (.ret r) s ↔ s.cloned = false) := by
  have hmain := main_releases retries args
  have hreturn : ∀ r s, Run fdKernel (main retries args) .start (.ret r) s → Released s :=
    fun r s hr => wp_run hmain (hr.guard fdRule)
  have hquiet : ∀ q s, Run fdKernel (main retries args) .start q s → s.cloned = false →
      Disciplined q s := fun q s hr hcl =>
    ⟨run_misclosed hmain hr (fun _ => rfl) hcl, fun r hq => (hreturn r s (hq ▸ hr)).own⟩
  refine ⟨child_inherits_nothing retries args, hquiet, fun r s hr => ⟨fun h => ?_, hquiet _ s hr⟩⟩
  exact (hreturn r s hr).misclosed.symm.trans h.misclosed

/-! ## Two runs -/

/-- Every call succeeds, with a number that is not in use; `clone` is answered with
`child`. -/
def fdAnswer (child : Res Nat) (s : FdTable) : (c : Call) → Option (Answer c)
  | .socketNetlink => if (6 : Int) ∉ s.own then some (.ok 6) else none
  | .open _ _ => if (5 : Int) ∉ s.own then some (.ok 5) else none
  | .socketpair => if (3 : Int) ∉ s.own ∧ (4 : Int) ∉ s.own then some (.ok (3, 4)) else none
  | .clone _ _ => some child
  | c => granted c

theorem fdAnswer_new (child : Res Nat) (s : FdTable) (c : Call) (r : Answer c)
    (h : fdAnswer child s c = some r) : fdKernel.step s c r (fdPost s c r) := by
  refine ⟨?_, rfl⟩
  cases c with
  | socketNetlink =>
    obtain ⟨hnew, heq⟩ := Option.ite_none_right_eq_some.mp h
    obtain rfl := Option.some.inj heq
    exact hnew
  | «open» path mode =>
    obtain ⟨hnew, heq⟩ := Option.ite_none_right_eq_some.mp h
    obtain rfl := Option.some.inj heq
    exact hnew
  | socketpair =>
    obtain ⟨⟨hnew, hnew'⟩, heq⟩ := Option.ite_none_right_eq_some.mp h
    obtain rfl := Option.some.inj heq
    refine ⟨hnew, fun hmem => ?_⟩
    rcases List.mem_cons.mp hmem with heq | hmem
    · exact absurd heq (by decide)
    · exact hnew' hmem
  | _ => trivial

theorem descriptors_disciplined_plain :
    ∃ s, Run fdKernel (main 1 plainArgs) .start (.ret 1) s ∧ Disciplined (.ret 1) s := by
  have hrun := run_play_ret (M := fdKernel) (fdAnswer (.error EAGAIN)) fdPost
    (fdAnswer_new (.error EAGAIN)) (p := main 1 plainArgs) (s := .start) (a := 1)
    (by decide +kernel)
  exact ⟨_, hrun, ((descriptors_disciplined_iff 1 plainArgs).2.2 1 _ hrun).mpr (by decide +kernel)⟩

/-- With every call granted, the container runs and ends, and `main` closes the
child's end twice. -/
theorem child_end_closed_twice :
    ∃ s, Run fdKernel (main 1 plainArgs) .start (.ret 0) s ∧ ¬ Disciplined (.ret 0) s := by
  have hrun := run_play_ret (M := fdKernel) (fdAnswer (.ok 100)) fdPost (fdAnswer_new (.ok 100))
    (p := main 1 plainArgs) (s := .start) (a := 0) (by decide +kernel)
  exact ⟨_, hrun, fun h => absurd h.misclosed (by decide +kernel)⟩

end Barco
