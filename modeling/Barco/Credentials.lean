import Barco.Linux.IdMap
import Barco.Outcome

/-!
# The identity of the container

The pair of processes with the ids of the child, as the kernel of the host knows them. A
child begins with those of `main`. The map files that `main` writes say which ids its
namespace has; only `setresuid` and `setresgid` change an id, and nothing changes the
supplementary groups.

1. `Identified`: at `execve` either the ids were left alone, because -1 was asked for, or
   they are the one mapped id, asked for as 0.
2. `host_identity_iff`: no host identity gets into the container exactly for the numbers
   other than -1 and, for 0, for the groups that are mapped themselves.
3. `root_groups_survive`: `-u 0` from a root shell with the group 0.
-/

namespace Barco

open Effect Prog UserNs

/-! ## Ids in the namespace of the child -/

namespace World

/-- The map that was written to a file of the child. -/
def idMap (s : World) (file : IdFile) : Option UserNs.Range :=
  (s.parent.written.find? (·.1 = file)).bind fun w => parseLine w.2

/-- The host id that the child means by an id. -/
def toHost (s : World) (file : IdFile) (id : UInt32) : Option Nat :=
  if s.child.unshared then (s.idMap file).bind (·.toHost id.toNat) else some id.toNat

/-- The names of a host id in the child's namespace. -/
def toInside (s : World) (file : IdFile) (host : Nat) : Option Nat :=
  if s.child.unshared then (s.idMap file).bind (·.toInside host) else some host

end World

/-- The pair, and the ids of the child. -/
structure IdWorld where
  world : World
  creds : Creds

/-- An id that has no mapping is rejected. -/
def idAnswers (s : World) : (c : Call) → Answer c → Prop
  | .setresgid r e v, .ok _ => ∀ id ∈ [r, e, v], Settable (s.toHost .gidMap) id
  | .setresuid r e v, .ok _ => ∀ id ∈ [r, e, v], Settable (s.toHost .uidMap) id
  | _, _ => True

/-- The ids after a call of the child. -/
def idAfter (s : World) (creds : Creds) : (c : Call) → Answer c → Creds
  | .setresgid r e v, .ok _ => { creds with gid := creds.gid.set (s.toHost .gidMap) r e v }
  | .setresuid r e v, .ok _ => { creds with uid := creds.uid.set (s.toHost .uidMap) r e v }
  | _, _ => creds

def idCall : Role → IdWorld → (c : Call) → Answer c → IdWorld → Prop
  | .parent, s, c, r, s' => World.call .parent s.world c r s'.world ∧ s'.creds = s.creds
  | .child, s, c, r, s' => World.call .child s.world c r s'.world ∧ idAnswers s.world c r ∧
    s'.creds = idAfter s.world s.creds c r

/-- The pair of processes with identities. -/
def idHost : Host Role Call Answer Int IdWorld where
  call := idCall
  env s s' := World.Env s.world s'.world ∧ s'.creds = s.creds
  spawn := pairHost.spawn

/-- `main` before its first call, with the ids that it was started with. -/
def idStart (retries : Nat) (args : Args) (creds : Creds) :
    Global Role Call Answer Int IdWorld where
  kern := ⟨.start, creds⟩
  prog := (pairStart retries args).prog

/-- The child is about to make its `execve`. -/
def AboutToExec (g : Global Role Call Answer Int IdWorld) : Prop :=
  g.kern.world.life = .starting ∧ ∃ path argv k, g.prog .child = .call (.execve path argv) k

/-! ## What the child does about its identity -/

/-- The calls that have succeeded. -/
structure Switched where
  unshared : Bool
  gid : Bool
  uid : Bool

namespace Switched

def start : Switched := ⟨false, false, false⟩

def after (l : Switched) : (c : Call) → Answer c → Switched
  | .unshare _, .ok _ => { l with unshared := true }
  | .setresgid _ _ _, .ok _ => { l with gid := true }
  | .setresuid _ _ _, .ok _ => { l with uid := true }
  | _, _ => l

end Switched

/-- Both ids are set to `uid` in the new namespace, and before `execve`. -/
def switchRule (uid : UInt32) (l : Switched) : Call → Prop
  | .setresgid r e v => (r = uid ∧ e = uid ∧ v = uid) ∧ l.unshared = true
  | .setresuid r e v => (r = uid ∧ e = uid ∧ v = uid) ∧ l.unshared = true
  | .execve _ _ => l.gid = true ∧ l.uid = true
  | .clone _ _ => False
  | _ => True

/-- The user that a clone is for. -/
def Call.clonedFor : Call → Option UInt32
  | .clone _ config => some config.uid
  | _ => none

/-- A clone is for the container that was asked for. -/
def ClonesAs (uid : UInt32) (c : Call) : Prop := ∀ u ∈ c.clonedFor, u = uid

def switchProtocol (uid : UInt32) : Role → Machine Call Answer Switched
  | .parent => { may := fun _ c => ClonesAs uid c, step := fun l _ _ l' => l' = l }
  | .child => { may := switchRule uid, step := fun l c r l' => l' = l.after c r }

section Child

variable {α : Type} {uid : UInt32} {l : Switched}

/-- A call aside from the handshake has nothing to do with the identity. -/
theorem switch_aside {p : Sys α} (hp : p.Only Aside) :
    wp (switchProtocol uid .child) p (fun _ l' => l' = l) l := by
  refine wp_of_only (J := fun l' => l' = l) hp (fun l' c hc hl => ?_) rfl
  subst hl
  obtain ⟨⟨hprocess, -, hidentity, hexec⟩, -⟩ := hc
  cases c with
  | clone flags config => exact absurd rfl hprocess
  | unshare flags => exact absurd rfl hidentity
  | setresgid r e s => exact absurd rfl hidentity
  | setresuid r e s => exact absurd rfl hidentity
  | execve path argv => exact absurd rfl hexec
  | _ => exact ⟨trivial, fun _ _ h => h⟩

theorem switch_call {β : Type} {c : Call} {k : Answer c → Sys β} {Q : β → Switched → Prop}
    (hrule : switchRule uid l c) (hk : ∀ r, wp (switchProtocol uid .child) (k r) Q (l.after c r)) :
    wp (switchProtocol uid .child) (sys c >>= k) Q l :=
  wp_sys hrule fun r _ h => h ▸ hk r

/-- `user_namespace_init` returns 0 only with both ids set. -/
theorem switch_userNamespaceInit (fd : Int) :
    wp (switchProtocol uid .child) (userNamespaceInit uid fd)
      (fun r l' => r < 0 ∨ l'.gid = true ∧ l'.uid = true) l := by
  have hfail : ∀ l : Switched, wp (switchProtocol uid .child) (pure (-1) : Sys Int)
      (fun r l' => r < 0 ∨ l'.gid = true ∧ l'.uid = true) l := fun l => .inl (by decide)
  refine switch_call trivial fun r => ?_
  cases r with
  | error e => exact hfail _
  | ok u =>
  refine switch_call trivial fun r => ?_
  cases r with
  | error e => exact hfail _
  | ok n =>
  dsimp only
  split
  · exact hfail _
  refine switch_call trivial fun r => ?_
  cases r with
  | error e => exact hfail _
  | ok result =>
  dsimp only
  split
  · exact hfail _
  split
  · exact hfail _
  refine switch_call (c := .setresgid uid uid uid) ⟨⟨rfl, rfl, rfl⟩, rfl⟩ fun r => ?_
  cases r with
  | error e => exact hfail _
  | ok u =>
  refine switch_call (c := .setresuid uid uid uid) ⟨⟨rfl, rfl, rfl⟩, rfl⟩ fun r => ?_
  cases r with
  | error e => exact hfail _
  | ok u => exact switch_call trivial fun _ => .inr ⟨rfl, rfl⟩

theorem switch_mark {f : Fn} {body : Sys Int} {Q : Int → Switched → Prop}
    (h : wp (switchProtocol uid .child) body Q l) :
    wp (switchProtocol uid .child) (invoke f body) Q l :=
  switch_call (c := .enter f) trivial fun _ => wp_seq h fun r _ h' =>
    switch_call (c := .leave f r) trivial fun _ => h'

theorem switch_fail (config : ContainerConfig) (fdClosed : Bool) :
    wp (switchProtocol uid .child) (containerFail config fdClosed) (fun _ _ => True) l := by
  unfold containerFail
  split
  · exact switch_call (c := .close config.fd) trivial fun _ => trivial
  · exact trivial

/-- Stages 3 and 4. -/
theorem switch_exec (config : ContainerConfig) :
    wp (switchProtocol config.uid .child) (containerExec config) (fun _ _ => True) l := by
  refine wp_seq (switch_mark (switch_userNamespaceInit config.fd)) fun r l₁ h₁ => ?_
  split
  · exact switch_fail config false
  rename_i hr
  have hset := h₁.resolve_left hr
  refine wp_seq (switch_mark (switch_aside (aside_of_areas secSetCaps_tidy.only (by decide)))) ?_
  rintro r l₂ rfl
  split
  · exact switch_fail config false
  refine wp_seq (switch_mark (switch_aside (aside_of_areas secSetSeccomp_tidy.only
    (by decide)))) ?_
  rintro r l₂ rfl
  split
  · exact switch_fail config false
  refine switch_call (c := .close config.fd) trivial fun r => ?_
  cases r with
  | error e => exact switch_fail config false
  | ok u =>
    refine switch_call (c := .execve config.cmd _) hset fun r => ?_
    cases r with
    | error e => exact switch_fail config true
    | ok u => exact trivial

theorem containerStart_switch (config : ContainerConfig) :
    wp (switchProtocol config.uid .child) (invoke .containerStart (containerStart config))
      (fun _ _ => True) l := by
  refine switch_mark ?_
  refine wp_seq (switch_aside (aside_of_areas (containerHostname_tidy config).only (by decide))) ?_
  rintro b l₁ rfl
  split
  · exact switch_fail config false
  refine wp_seq (switch_mark (switch_aside (aside_of_areas (mountSet_tidy config.mnt).only
    (by decide)))) ?_
  rintro r l₁ rfl
  split
  · exact switch_fail config false
  refine wp_seq (switch_aside (aside_configureNetwork config)) ?_
  rintro b l₁ rfl
  split
  · exact switch_fail config false
  refine wp_seq (switch_aside (aside_of_areas (configureDns_tidy config).only (by decide))) ?_
  rintro - l₁ rfl
  refine wp_seq (switch_aside (aside_of_areas enablePingDgram_tidy.only (by decide))) ?_
  rintro r l₁ rfl
  exact switch_exec config

end Child

/-! ## The clone is for the container that was asked for -/

section Parent

variable {α : Type} {uid : UInt32} {S : List Area}

theorem clonesAs_of_area {c : Call} (hc : c.area ≠ .process) : ClonesAs uid c := by
  cases c with
  | clone flags config => exact absurd rfl hc
  | _ => exact fun u hu => nomatch hu

theorem clonesAs_of_areas {p : Sys α} (hp : p.Only fun c => c.area ∈ S)
    (hS : ∀ a ∈ S, a ≠ .process) : p.Only (ClonesAs uid) :=
  hp.mono fun _ hc => clonesAs_of_area (hS _ hc)

theorem clonesAs_call {c : Call} {k : Answer c → Sys α} (hc : c.clonedFor = none)
    (hk : ∀ r, (k r).Only (ClonesAs uid)) : (sys c >>= k).Only (ClonesAs uid) :=
  ⟨fun u hu => (nomatch (hc ▸ hu : none = some u)), hk⟩

theorem clonesAs_invoke {f : Fn} {body : Sys Int} (hbody : body.Only (ClonesAs uid)) :
    (invoke f body).Only (ClonesAs uid) :=
  clonesAs_call rfl fun _ => hbody.bind fun r => clonesAs_call rfl fun _ => only_pure r

theorem clonesAs_covers : Covers (ClonesAs uid) hostAreas Fn.OfNetwork where
  call _ hc _ := clonesAs_of_area fun h => absurd (h ▸ hc) (show Area.process ∉ hostAreas by decide)
  enter _ _ _ hu := nomatch hu
  leave _ _ _ _ hu := nomatch hu

theorem containerStop_clones (pid : Nat) : (containerStop pid).Only (ClonesAs uid) := by
  refine clonesAs_call rfl fun r => ?_
  cases r with
  | error e => exact only_pure ()
  | ok u => exact clonesAs_call rfl fun _ => only_pure ()

theorem waitContainer_clones (pid retries : Nat) :
    (waitContainer pid retries).Only (ClonesAs uid) := by
  induction retries with
  | zero => exact ⟨fun _ => nofun, fun r => nomatch r⟩
  | succ retries ih =>
    refine clonesAs_call rfl fun r => ?_
    cases r with
    | error e =>
      show Only _ (if e = EINTR then _ else _)
      split
      · exact ih
      · exact only_pure none
    | ok w =>
      show Only _ (if w.1 = pid then _ else _)
      split
      · exact only_pure _
      · exact ih

theorem moveVeth_clones (pid : Nat) (tmp : CStr) : (moveVeth pid tmp).Only (ClonesAs uid) := by
  refine clonesAs_call rfl fun r => ?_
  cases r with
  | error e => exact (containerStop_clones pid).bind fun _ => only_pure false
  | ok nsFd =>
    refine (clonesAs_invoke (f := .nlMoveToNs tmp nsFd) (clonesAs_of_areas
      (nlMoveToNs_tidy tmp nsFd).only (by decide))).bind fun r => ?_
    split
    · exact clonesAs_call (c := .close nsFd) rfl fun _ =>
        (containerStop_clones pid).bind fun _ => only_pure false
    · exact clonesAs_call (c := .close nsFd) rfl fun _ => only_pure true

theorem superviseContainer_clones (retries : Nat) (st : MainState) (pid : Nat) :
    (superviseContainer retries st pid).Only (ClonesAs uid) := by
  unfold superviseContainer
  cases st.config.hostname with
  | none => exact ⟨fun _ => nofun, fun r => nomatch r⟩
  | some hostname =>
    refine (clonesAs_invoke (f := .cgroupsInit hostname pid) (clonesAs_of_areas
      (cgroupsInit_tidy hostname pid).only (by decide))).bind fun _ => ?_
    refine (clonesAs_invoke (f := .prepareMappings pid st.sockets.1) (clonesAs_of_areas
      (prepareMappings_uses pid _).only (by decide))).bind fun r => ?_
    split
    · exact (containerStop_clones pid).bind fun _ => only_pure _
    · refine (waitContainer_clones pid retries).bind fun status => ?_
      cases status with
      | none => exact only_pure _
      | some status => exact only_pure _

theorem runContainer_clones (retries : Nat) {st : MainState} (h : st.config.uid = uid) :
    (runContainer retries st).Only (ClonesAs uid) := by
  have hinit : (containerInit st.config).Only (ClonesAs uid) := by
    refine ⟨fun u hu => ?_, fun r => ?_⟩
    · obtain rfl := Option.some.inj hu
      exact h
    · cases r with
      | error e => exact only_pure _
      | ok pid =>
        show Only _ (if st.config.fd ≥ 0 then _ else _)
        split
        · exact clonesAs_call (c := .close st.config.fd) rfl fun _ => only_pure _
        · exact only_pure _
  refine hinit.bind fun ⟨pid, config⟩ => ?_
  show Only _ (if pid < 0 then _ else _)
  split
  · exact only_pure _
  refine clonesAs_call rfl fun _ => clonesAs_call (c := .kill pid.toNat 0) rfl fun r => ?_
  cases r with
  | error e => exact only_pure _
  | ok u =>
    dsimp only
    split
    · refine (moveVeth_clones _ _).bind fun b => ?_
      split
      · exact only_pure _
      · exact superviseContainer_clones retries _ _
    · exact superviseContainer_clones retries _ _

theorem cleanup_clones (st : MainState) : (cleanup st).Only (ClonesAs uid) := by
  have hclose : ∀ fd, (closeSocket fd).Only (ClonesAs uid) := fun fd => by
    unfold closeSocket
    split
    · exact clonesAs_call (c := .close fd) rfl fun _ => only_pure ()
    · exact only_pure ()
  refine (clonesAs_covers.releaseNat st).bind fun _ => ?_
  refine (clonesAs_covers.releaseVeth st).bind fun _ => ?_
  refine (hclose _).bind fun _ => (hclose _).bind fun _ => ?_
  exact (clonesAs_of_areas (releaseCgroup_tidy st).only (by decide)).bind fun _ => only_pure _

theorem openSockets_clones (st : MainState) : (openSockets st).Only (ClonesAs uid) := by
  refine clonesAs_call rfl fun _ => clonesAs_call rfl fun r => ?_
  cases r with
  | error e => exact only_pure _
  | ok ends =>
    refine clonesAs_call rfl fun r => ?_
    cases r with
    | error e => exact only_pure _
    | ok u => exact clonesAs_call rfl fun b => by cases b <;> exact only_pure _

theorem mainFrom_clones (retries : Nat) {st : MainState} (h : st.config.uid = uid) :
    (mainFrom retries st).Only (ClonesAs uid) := by
  refine (openSockets_clones st).bind_returns (openSockets_returns st) fun e he => ?_
  cases e with
  | error st₁ => exact cleanup_clones st₁
  | ok st₁ =>
    obtain ⟨fd, hconfig⟩ := he
    refine (clonesAs_covers.hostNetwork st₁).bind_returns (hostNetwork_returns st₁) fun e he' => ?_
    cases e with
    | error st₂ => exact cleanup_clones st₂
    | ok st₂ =>
      obtain ⟨vethCreated, natApplied, hostIf, rfl, -⟩ := he'
      have hst : ({ st₁ with vethCreated, natApplied, hostIf } : MainState).config.uid = uid := by
        rw [hconfig]
        exact h
      exact (runContainer_clones retries hst).bind fun st₃ => cleanup_clones st₃

theorem main_clonesAs (retries : Nat) (args : Args) :
    (main retries args).Only (ClonesAs args.uid.toUInt32) := by
  refine clonesAs_call rfl fun b => ?_
  cases b with
  | false => exact only_pure _
  | true =>
    show Only _ (if args.errors then _ else _)
    split
    · exact only_pure _
    split
    · exact only_pure _
    refine (clonesAs_of_areas (fillConfig_tidy args).only (by decide)).bind_returns
      (fillConfig_configured args) fun e he => ?_
    cases he with
    | off hoff => exact mainFrom_clones retries rfl
    | on s hname hip => exact mainFrom_clones retries rfl
    | noPeer => exact cleanup_clones _
    | noTmp => exact cleanup_clones _

end Parent

/-! ## The two together -/

section Together

variable {uid : UInt32} {groups : List Nat}

theorem written_after (p : ParentSide) (c : Call) (r : Answer c) :
    ∃ more, (p.after c r).written = p.written ++ more := by
  have hsame : ∀ q : ParentSide, q.written = p.written →
      ∃ more, q.written = p.written ++ more := fun q h => ⟨[], by rw [h, List.append_nil]⟩
  have hwrote : ∀ fd data, ∃ more, (p.wrote fd data).written = p.written ++ more := by
    intro fd data
    unfold ParentSide.wrote
    split
    · exact ⟨_, rfl⟩
    · exact hsame p rfl
  cases c with
  | write fd data =>
    cases r with
    | error e => exact hsame _ rfl
    | ok n =>
      simp only [ParentSide.after]
      split
      · exact hsame _ rfl
      · split
        · exact hwrote fd data
        · exact hsame _ rfl
  | dprintf fd data =>
    cases r with
    | error e => exact hsame _ rfl
    | ok n => exact hwrote fd data
  | socketpair => cases r <;> exact hsame _ rfl
  | «open» path mode => cases r <;> exact hsame _ rfl
  | clone flags config => cases r <;> exact hsame _ rfl
  | read fd count =>
    cases r with
    | error e => exact hsame _ rfl
    | ok data =>
      simp only [ParentSide.after]
      split <;> exact hsame _ rfl
  | kill pid sig =>
    cases r with
    | error e => exact hsame _ rfl
    | ok u =>
      simp only [ParentSide.after]
      split <;> exact hsame _ rfl
  | waitpid pid =>
    cases r with
    | error e => exact hsame _ rfl
    | ok w =>
      simp only [ParentSide.after]
      split <;> exact hsame _ rfl
  | leave f code =>
    cases f with
    | nlMoveToNs ifname nsFd =>
      simp only [ParentSide.after]
      split <;> exact hsame _ rfl
    | _ => exact hsame _ rfl
  | _ => exact hsame _ rfl

/-- A map that is there stays as it is. -/
theorem idMap_stays {s s' : World} {more : List (IdFile × List UInt8)} {file : IdFile}
    {m : UserNs.Range} (hmore : s'.parent.written = s.parent.written ++ more)
    (h : s.idMap file = some m) : s'.idMap file = some m := by
  unfold World.idMap at h ⊢
  rw [hmore, List.find?_append]
  cases hfind : s.parent.written.find? (·.1 = file) with
  | none => rw [hfind] at h; cases h
  | some w => rw [hfind] at h; exact h

/-- The three ids are left alone, or are the host id of the one that was asked for. -/
def IdsAre (uid : UInt32) (s : World) (file : IdFile) (ids : Ids) : Prop :=
  uid = noChange ∨ ∃ m host, s.idMap file = some m ∧ m.toHost uid.toNat = some host ∧
    ids = .uniform host

theorem IdsAre.stays {s s' : World} {file : IdFile} {ids : Ids}
    {more : List (IdFile × List UInt8)} (h : IdsAre uid s file ids)
    (hmore : s'.parent.written = s.parent.written ++ more) : IdsAre uid s' file ids :=
  h.imp id fun ⟨m, host, hm, hhost, hids⟩ => ⟨m, host, idMap_stays hmore hm, hhost, hids⟩

/-- A call that sets the ids. -/
theorem IdsAre.set {s : World} {file : IdFile} (ids : Ids) (hunshared : s.child.unshared = true)
    (h : ∀ id ∈ [uid, uid, uid], Settable (s.toHost file) id) :
    IdsAre uid s file (ids.set (s.toHost file) uid uid uid) := by
  by_cases hno : uid = noChange
  · exact .inl hno
  · obtain ⟨host, hhost⟩ := Option.isSome_iff_exists.mp
      ((h uid List.mem_cons_self).resolve_left hno)
    refine .inr ?_
    rw [Ids.set_uniform hno hhost]
    unfold World.toHost at hhost
    rw [if_pos hunshared, Option.bind_eq_some_iff] at hhost
    obtain ⟨m, hm, hhost⟩ := hhost
    exact ⟨m, host, hm, hhost, rfl⟩

/-- What the calls of the child have made of its ids. -/
structure Follows (uid : UInt32) (groups : List Nat) (s : IdWorld) (l : Switched) : Prop where
  unshared : l.unshared = true → s.world.child.unshared = true
  gid : l.gid = true → IdsAre uid s.world .gidMap s.creds.gid
  uid : l.uid = true → IdsAre uid s.world .uidMap s.creds.uid
  groups : s.creds.groups = groups

/-- Nothing of it is lost as the parent writes more and the child stays in its namespace. -/
theorem Follows.stays {s s' : IdWorld} {l : Switched} {more : List (IdFile × List UInt8)}
    (h : Follows uid groups s l) (hcreds : s'.creds = s.creds)
    (hmore : s'.world.parent.written = s.world.parent.written ++ more)
    (hchild : s.world.child.unshared = true → s'.world.child.unshared = true) :
    Follows uid groups s' l where
  unshared hl := hchild (h.unshared hl)
  gid hl := hcreds ▸ (h.gid hl).stays hmore
  uid hl := hcreds ▸ (h.uid hl).stays hmore
  groups := hcreds ▸ h.groups

/-- A call of the child by its rule. -/
theorem Follows.childCall {s s' : IdWorld} {l : Switched} {c : Call} {r : Answer c}
    (h : Follows uid groups s l) (hrule : switchRule uid l c)
    (hcall : idCall .child s c r s') : Follows uid groups s' (l.after c r) := by
  obtain ⟨⟨hlife, -, hworld⟩, hans, hcreds⟩ := hcall
  have hmore : s'.world.parent.written = s.world.parent.written ++ [] := by
    rw [hworld, childAfter_parent, List.append_nil]
  have hchild : s'.world.child.unshared = (s.world.child.after c r).unshared := by
    rw [hworld]
    cases c with
    | leave f code => cases f <;> rfl
    | execve path argv => cases r <;> rfl
    | write fd data => cases r <;> rfl
    | read fd count => cases r <;> rfl
    | _ => rfl
  have hkeep : (s.world.child.after c r).unshared = s.world.child.unshared →
      idAfter s.world s.creds c r = s.creds → Follows uid groups s' l := fun hu hc =>
    h.stays (hcreds.trans hc) hmore fun hs => by rw [hchild, hu, hs]
  cases c with
  | unshare flags =>
    cases r with
    | error e => exact hkeep rfl rfl
    | ok u =>
      have h' : Follows uid groups s' l := h.stays hcreds hmore fun _ => hchild
      exact ⟨fun _ => hchild, h'.gid, h'.uid, h'.groups⟩
  | setresgid a b d =>
    obtain ⟨⟨rfl, rfl, rfl⟩, hl⟩ := hrule
    cases r with
    | error e => exact hkeep rfl rfl
    | ok u =>
      have hset := (IdsAre.set s.creds.gid (h.unshared hl) hans).stays hmore
      refine ⟨fun hl => hchild.trans (h.unshared hl), fun _ => ?_, fun hu => ?_, ?_⟩
      · rw [hcreds]
        exact hset
      · rw [hcreds]
        exact (h.uid hu).stays hmore
      · rw [hcreds]
        exact h.groups
  | setresuid a b d =>
    obtain ⟨⟨rfl, rfl, rfl⟩, hl⟩ := hrule
    cases r with
    | error e => exact hkeep rfl rfl
    | ok u =>
      have hset := (IdsAre.set s.creds.uid (h.unshared hl) hans).stays hmore
      refine ⟨fun hl => hchild.trans (h.unshared hl), fun hg => ?_, fun _ => ?_, ?_⟩
      · rw [hcreds]
        exact (h.gid hg).stays hmore
      · rw [hcreds]
        exact hset
      · rw [hcreds]
        exact h.groups
  | write fd data =>
    cases r with
    | error e => exact hkeep rfl rfl
    | ok n =>
      refine hkeep ?_ rfl
      simp only [ChildSide.after]
      split <;> rfl
  | read fd count =>
    cases r with
    | error e => exact hkeep rfl rfl
    | ok data =>
      refine hkeep ?_ rfl
      simp only [ChildSide.after]
      split <;> rfl
  | execve path argv => cases r <;> exact hkeep rfl rfl
  | _ => exact hkeep rfl rfl

/-- A call of the parent changes nothing about the child, unless it is a clone. -/
theorem Follows.parentCall {s s' : IdWorld} {l : Switched} {c : Call} {r : Answer c}
    (h : Follows uid groups s l) (hspawn : pairHost.spawn .parent c r .child = none)
    (hcall : idCall .parent s c r s') : Follows uid groups s' l := by
  obtain ⟨⟨-, hworld⟩, hcreds⟩ := hcall
  obtain ⟨more, hmore⟩ := written_after s.world.parent c r
  have hwritten : s'.world.parent.written = s.world.parent.written ++ more := by
    rw [hworld, parentAfter_parent, hmore]
  refine h.stays hcreds hwritten fun hs => ?_
  rw [hworld, (parentAfter_child hspawn).1, hs]

theorem id_simulates : idHost.Simulates (switchProtocol uid) (fun _ _ _ => True)
    fun s l => Follows uid groups s (l .child) := by
  refine ⟨@fun s l i c r s' hI hmay hcall => ?_, @fun s l s' hI henv => ?_⟩
  · cases i with
    | child =>
      refine ⟨fun | .parent => l .parent | .child => (l .child).after c r,
        hI.childCall hmay hcall, rfl, fun j hj => ?_⟩
      cases j with
      | parent => rfl
      | child => exact absurd rfl hj
    | parent =>
      cases hspawn : pairHost.spawn .parent c r .child with
      | none =>
        refine ⟨l, hI.parentCall hspawn hcall, rfl, fun j hj => ?_⟩
        cases j with
        | parent => exact absurd rfl hj
        | child =>
          have hid : idHost.spawn .parent c r .child = none := hspawn
          rw [hid]
      | some q =>
        refine ⟨fun | .parent => l .parent | .child => .start,
          ⟨nofun, nofun, nofun, hcall.2 ▸ hI.groups⟩, rfl, fun j hj => ?_⟩
        cases j with
        | parent => exact absurd rfl hj
        | child =>
          have hid : idHost.spawn .parent c r .child = some q := hspawn
          rw [hid]
          cases c with
          | clone flags config =>
            cases r with
            | error e => exact nomatch hspawn
            | ok pid =>
              obtain rfl := Option.some.inj hspawn
              obtain rfl := hmay _ rfl
              exact containerStart_switch config
          | _ => exact nomatch hspawn
  · obtain ⟨world, creds⟩ := s'
    obtain ⟨henv, hcreds⟩ := henv
    have hmore : world.parent.written = s.world.parent.written ++ [] := by
      rw [List.append_nil]
      cases henv <;> rfl
    exact hI.stays hcreds hmore fun hs => by cases henv <;> exact hs

end Together

/-! ## At `execve` -/

section Execve

variable {retries : Nat} {args : Args} {creds : Creds}
  {g : Global Role Call Answer Int IdWorld}

/-- The system without the ids is the pair. -/
theorem pair_of_id {g₀ g : Global Role Call Answer Int IdWorld} (h : idHost.Reachable g₀ g) :
    pairHost.Reachable (g₀.map IdWorld.world) (g.map IdWorld.world) := by
  have hcall : ∀ i s c r s', idHost.call i s c r s' →
      pairHost.call i s.world c r s'.world := fun i s c r s' h => by
    cases i with
    | parent => exact h.1
    | child => exact h.1
  exact Host.reachable_map IdWorld.world hcall (fun _ _ h => h.1) rfl h

/-- The map that `user_namespace_prepare_mappings` writes. -/
def wholeMap : UserNs.Range where
  inside := USER_NAMESPACE_UID_CHILD_RANGE_START
  outside := USER_NAMESPACE_UID_PARENT_RANGE_START
  count := USER_NAMESPACE_UID_CHILD_RANGE_SIZE

theorem idMap_written {s : World} (h : s.parent.written = idWrites) :
    s.idMap .uidMap = some wholeMap ∧ s.idMap .gidMap = some wholeMap := by
  unfold World.idMap
  rw [h]
  exact ⟨by decide +kernel, by decide +kernel⟩

/-- The maps are there when the child is let go, which has said that it is ready. -/
theorem Agreed.maps {net : Prop} {s : World} (h : Agreed net s)
    (hgo : goMessage ∈ s.parent.sent) :
    (s.idMap .uidMap = some wholeMap ∧ s.idMap .gidMap = some wholeMap) ∧
      goMessage ∈ s.parent.heard := by
  have hwritten := (h.parent.go hgo).written
  refine ⟨idMap_written hwritten, h.parent.written ?_⟩
  rw [hwritten]
  exact List.cons_ne_nil _ _

/-- That map has room for the id 0 only. -/
theorem wholeMap_toHost {id : UInt32} {host : Nat} (h : wholeMap.toHost id.toNat = some host) :
    id = 0 ∧ host = USER_NAMESPACE_UID_PARENT_RANGE_START := by
  obtain ⟨⟨hlow, hhigh⟩, hhost⟩ := Range.toHost_eq_some.mp h
  simp only [wholeMap, USER_NAMESPACE_UID_CHILD_RANGE_START,
    USER_NAMESPACE_UID_CHILD_RANGE_SIZE] at hlow hhigh hhost
  have hzero : id.toNat = 0 := by omega
  exact ⟨UInt32.toNat_inj.mp hzero, by omega⟩

/-- What the child is when it makes its `execve`. -/
structure Identified (uid : UInt32) (groups : List Nat) (s : IdWorld) : Prop where
  unshared : s.world.child.unshared = true
  maps : s.world.idMap .uidMap = some wholeMap ∧ s.world.idMap .gidMap = some wholeMap
  groups : s.creds.groups = groups
  ids : uid = noChange ∨ uid = 0 ∧
    s.creds.uid = .uniform USER_NAMESPACE_UID_PARENT_RANGE_START ∧
    s.creds.gid = .uniform USER_NAMESPACE_UID_PARENT_RANGE_START

theorem identified (h : idHost.Reachable (idStart retries args creds) g) (hexec : AboutToExec g) :
    Identified args.uid.toUInt32 creds.groups g.kern := by
  obtain ⟨hlife, path, argv, k, hk⟩ := hexec
  have hpair := pair_reached (pair_of_id h)
  have hgo : goMessage ∈ g.kern.world.child.heard := hpair.childCall hlife _ k hk
  obtain ⟨hmaps, hheard⟩ := hpair.agreed.maps (hpair.agreed.released hgo)
  have hunshared : g.kern.world.child.unshared = true := hpair.agreed.unshared hheard
  have hprog : ∀ i, ((idStart retries args creds).prog i).wp
      (switchProtocol args.uid.toUInt32 i) (fun _ _ => True) Switched.start := by
    intro i
    cases i with
    | parent =>
      exact wp_mono (wp_of_only (J := fun _ => True) (main_clonesAs retries args)
        (fun _ c hc _ => ⟨hc, fun _ _ _ => trivial⟩) trivial) fun _ _ _ => trivial
    | child => exact trivial
  have hstart : Follows args.uid.toUInt32 creds.groups ⟨.start, creds⟩ .start :=
    ⟨nofun, nofun, nofun, rfl⟩
  obtain ⟨l, hfollows, hp⟩ := id_simulates.reachable_inv (fun _ => .start) hstart hprog h
  have hchild := hp .child
  rw [hk] at hchild
  obtain ⟨hgid, huid⟩ : (l .child).gid = true ∧ (l .child).uid = true := hchild.1
  have hids : ∀ {file : IdFile} {ids : Ids}, g.kern.world.idMap file = some wholeMap →
      IdsAre args.uid.toUInt32 g.kern.world file ids → args.uid.toUInt32 = noChange ∨
        args.uid.toUInt32 = 0 ∧ ids = .uniform USER_NAMESPACE_UID_PARENT_RANGE_START := by
    rintro file ids hmap (hno | ⟨m, host, hm, hhost, rfl⟩)
    · exact .inl hno
    · obtain rfl : wholeMap = m := Option.some.inj (hmap.symm.trans hm)
      obtain ⟨hzero, rfl⟩ := wholeMap_toHost hhost
      exact .inr ⟨hzero, rfl⟩
  refine ⟨hunshared, hmaps, hfollows.groups, ?_⟩
  rcases hids hmaps.1 (hfollows.uid huid) with hno | ⟨hzero, huids⟩
  · exact .inl hno
  · rcases hids hmaps.2 (hfollows.gid hgid) with hno | ⟨-, hgids⟩
    · exact .inl hno
    · exact .inr ⟨hzero, huids, hgids⟩

end Execve

/-! ## Host identities in the container -/

/-- An id of the host that the namespace of a container stands for. -/
def InMappedRange (host : Nat) : Prop :=
  USER_NAMESPACE_UID_PARENT_RANGE_START ≤ host ∧
    host < USER_NAMESPACE_UID_PARENT_RANGE_START + USER_NAMESPACE_UID_CHILD_RANGE_SIZE

instance (host : Nat) : Decidable (InMappedRange host) := inferInstanceAs (Decidable (_ ∧ _))

/-- All that the child is belongs to its namespace, and there it is `n`. -/
structure Isolated (n : Int32) (s : IdWorld) : Prop where
  mapped : ∀ host ∈ s.creds.hosts, InMappedRange host
  uid : ∀ host ∈ s.creds.uid.all, s.world.toInside .uidMap host = some n.toUInt32.toNat
  gid : ∀ host ∈ s.creds.gid.all, s.world.toInside .gidMap host = some n.toUInt32.toNat
  notRoot : 0 ∉ s.creds.hosts

/-- In every run for the user `n` from these groups, the child is isolated at its `execve`. -/
def NoHostIdentity (n : Int32) (groups : List Nat) : Prop :=
  ∀ (retries : Nat) (args : Args) (uid gid : Ids) (g : Global Role Call Answer Int IdWorld),
    args.uid = n → idHost.Reachable (idStart retries args ⟨uid, gid, groups⟩) g →
    AboutToExec g → Isolated n g.kern

theorem not_root_of_mapped {host : Nat} (h : InMappedRange host) : host ≠ 0 := by
  rintro rfl
  exact absurd h (by decide)

theorem wholeMap_toInside : wholeMap.toInside USER_NAMESPACE_UID_PARENT_RANGE_START = some 0 :=
  rfl

/-- The one mapped id is 0 in the namespace. -/
theorem Identified.toInside {uid : UInt32} {groups : List Nat} {s : IdWorld} {file : IdFile}
    {host : Nat} (h : Identified uid groups s) (hmap : s.world.idMap file = some wholeMap)
    (hhost : host ∈ (Ids.uniform USER_NAMESPACE_UID_PARENT_RANGE_START).all) :
    s.world.toInside file host = some 0 := by
  rw [World.toInside, if_pos h.unshared, hmap, Ids.eq_of_mem_uniform hhost]
  exact wholeMap_toInside

/-- The mapped id with mapped groups is isolated as 0. -/
theorem Identified.isolated {uid : UInt32} {groups : List Nat} {s : IdWorld} {n : Int32}
    (h : Identified uid groups s) (huid : n.toUInt32 = uid) (hno : uid ≠ noChange)
    (hgroups : uid = 0 → ∀ host ∈ groups, InMappedRange host) : Isolated n s := by
  obtain ⟨hzero, huids, hgids⟩ := h.ids.resolve_left hno
  have hmapped : ∀ host ∈ s.creds.hosts, InMappedRange host := by
    intro host hhost
    rcases List.mem_append.mp hhost with hu | hrest
    · exact Ids.eq_of_mem_uniform (huids ▸ hu) ▸ by decide
    · rcases List.mem_append.mp hrest with hg | hs
      · exact Ids.eq_of_mem_uniform (hgids ▸ hg) ▸ by decide
      · exact hgroups hzero host (h.groups ▸ hs)
  have hn : n.toUInt32.toNat = 0 := by rw [huid, hzero]; rfl
  exact {
    mapped := hmapped
    uid := fun host hu => hn ▸ h.toInside h.maps.1 (huids ▸ hu)
    gid := fun host hg => hn ▸ h.toInside h.maps.2 (hgids ▸ hg)
    notRoot := fun h0 => not_root_of_mapped (hmapped 0 h0) rfl }

/-! ### Runs up to `execve` -/

/-- `idAnswers` as a test. -/
def idAnswersBool (s : World) : (c : Call) → Answer c → Bool
  | .setresgid r e v, .ok _ => [r, e, v].all fun id => Settable (s.toHost .gidMap) id
  | .setresuid r e v, .ok _ => [r, e, v].all fun id => Settable (s.toHost .uidMap) id
  | _, _ => true

theorem idAnswersBool_iff (s : World) (c : Call) (r : Answer c) :
    idAnswersBool s c r = true ↔ idAnswers s c r := by
  have hall : ∀ file ids, (List.all ids fun id => Settable (s.toHost file) id) = true ↔
      ∀ id ∈ ids, Settable (s.toHost file) id := fun file ids => by
    simp only [List.all_eq_true, decide_eq_true_eq]
  cases c with
  | setresgid a b d => cases r with
    | error _ => exact iff_of_true rfl trivial
    | ok _ => exact hall .gidMap [a, b, d]
  | setresuid a b d => cases r with
    | error _ => exact iff_of_true rfl trivial
    | ok _ => exact hall .uidMap [a, b, d]
  | _ => exact iff_of_true rfl trivial

instance (s : World) (c : Call) (r : Answer c) : Decidable (idAnswers s c r) :=
  decidable_of_iff _ (idAnswersBool_iff s c r)

/-- The call as a function. -/
def idPost : Role → IdWorld → (c : Call) → Answer c → Option IdWorld
  | .parent, s, c, r => (World.post .parent s.world c r).map fun w => ⟨w, s.creds⟩
  | .child, s, c, r =>
    if idAnswers s.world c r then
      (World.post .child s.world c r).map fun w => ⟨w, idAfter s.world s.creds c r⟩
    else none

theorem idPost_call {i : Role} {s s' : IdWorld} {c : Call} {r : Answer c}
    (h : idPost i s c r = some s') : idCall i s c r s' := by
  cases i with
  | parent =>
    obtain ⟨w, hw, rfl⟩ := Option.map_eq_some_iff.mp h
    exact ⟨World.post_call hw, rfl⟩
  | child =>
    simp only [idPost] at h
    split at h
    · obtain ⟨w, hw, rfl⟩ := Option.map_eq_some_iff.mp h
      exact ⟨World.post_call hw, ‹_›, rfl⟩
    · exact nomatch h

/-- The same with other supplementary groups. -/
def IdWorld.withGroups (groups : List Nat) (s : IdWorld) : IdWorld :=
  ⟨s.world, { s.creds with groups }⟩

theorem idStart_withGroups (retries : Nat) (args : Args) (creds : Creds) (groups : List Nat) :
    (idStart retries args creds).map (IdWorld.withGroups groups) =
      idStart retries args { creds with groups } := by
  unfold idStart Global.map IdWorld.withGroups
  rfl

/-- Groups are looked at by nothing. -/
theorem reachable_withGroups {g₀ g : Global Role Call Answer Int IdWorld} (groups : List Nat)
    (h : idHost.Reachable g₀ g) :
    idHost.Reachable (g₀.map (IdWorld.withGroups groups)) (g.map (IdWorld.withGroups groups)) := by
  have henv : ∀ s s' : IdWorld, idHost.env s s' →
      idHost.env (s.withGroups groups) (s'.withGroups groups) := fun s s' h =>
    ⟨h.1, by unfold IdWorld.withGroups; rw [h.2]⟩
  refine Host.reachable_map _ (fun i s c r s' hcall => ?_) henv rfl h
  cases i with
  | parent => exact ⟨hcall.1, by unfold IdWorld.withGroups; rw [hcall.2]⟩
  | child =>
    obtain ⟨hworld, hans, hcreds⟩ := hcall
    refine ⟨hworld, hans, ?_⟩
    unfold IdWorld.withGroups
    rw [hcreds]
    cases c with
    | setresgid a b d => cases r <;> rfl
    | setresuid a b d => cases r <;> rfl
    | _ => rfl

def StandsAtExecve : Sys Int → Bool
  | .call (.execve _ _) _ => true
  | _ => false

theorem standsAtExecve_iff {p : Sys Int} :
    StandsAtExecve p = true ↔ ∃ path argv k, p = .call (.execve path argv) k := by
  constructor
  · intro h
    cases p with
    | ret code => exact nomatch h
    | call c k =>
      cases c with
      | execve path argv => exact ⟨path, argv, k, rfl⟩
      | _ => exact absurd h Bool.false_ne_true
  · rintro ⟨path, argv, k, rfl⟩
    rfl

/-- Up to the parent's read, the child's, the parent's `waitpid`, and the child's `execve`. -/
def execTurns : List (Host.Turn Role Call Answer) :=
  turns .parent 28 ++ turns .child 24 ++ turns .parent 12 ++ turns .child 57

/-- A container for the user `n`. -/
def argsFor (n : Int32) : Args := { plainArgs with uid := n }

/-- The ids of root. -/
def rootIds : Ids := .uniform 0

/-- Where all is granted, root's container for `n` comes to its `execve`. -/
theorem exec_run {n : Int32} {uid gid : Ids} (groups : List Nat)
    (hrun : (idHost.exec idPost (fun _ => none) execTurns
        (idStart 1 (argsFor n) ⟨rootIds, rootIds, []⟩)).map
      (fun g => (StandsAtExecve (g.prog .child), g.kern.world.life, g.kern.creds.uid, g.kern.creds.gid)) =
        some (true, .starting, uid, gid)) :
    ∃ g, idHost.Reachable (idStart 1 (argsFor n) ⟨rootIds, rootIds, groups⟩) g ∧
      AboutToExec g ∧ g.kern.creds = ⟨uid, gid, groups⟩ := by
  obtain ⟨g, hg, heq⟩ := Option.map_eq_some_iff.mp hrun
  simp only [Prod.mk.injEq] at heq
  obtain ⟨hexec, hlife, huid, hgid⟩ := heq
  have hpost : ∀ i s c r s', idPost i s c r = some s' → idHost.call i s c r s' :=
    fun _ _ _ _ _ => idPost_call
  have hmove : ∀ s s' : IdWorld, none = some s' → idHost.env s s' := fun _ _ h => nomatch h
  have hreach := Host.exec_reachable hpost hmove hg
  have hreach' := reachable_withGroups groups hreach
  rw [idStart_withGroups] at hreach'
  refine ⟨_, hreach', ⟨hlife, standsAtExecve_iff.mp hexec⟩, ?_⟩
  rw [← huid, ← hgid]
  rfl

/-- `-u -1` leaves root what it is. -/
theorem unchanged_run (groups : List Nat) :
    ∃ g, idHost.Reachable (idStart 1 (argsFor (-1)) ⟨rootIds, rootIds, groups⟩) g ∧
      AboutToExec g ∧ g.kern.creds = ⟨rootIds, rootIds, groups⟩ :=
  exec_run groups (by decide +kernel)

/-- `-u 0` changes the ids, and not the groups. -/
theorem zero_run (groups : List Nat) :
    ∃ g, idHost.Reachable (idStart 1 (argsFor 0) ⟨rootIds, rootIds, groups⟩) g ∧
      AboutToExec g ∧ g.kern.creds = ⟨.uniform USER_NAMESPACE_UID_PARENT_RANGE_START,
        .uniform USER_NAMESPACE_UID_PARENT_RANGE_START, groups⟩ :=
  exec_run groups (by decide +kernel)

theorem toUInt32_noChange {n : Int32} : n.toUInt32 = noChange ↔ n = -1 := by
  rw [← Int32.toBitVec_inj, ← UInt32.toBitVec_inj, Int32.toBitVec_toUInt32]
  rfl

theorem toUInt32_zero {n : Int32} : n.toUInt32 = 0 ↔ n = 0 := by
  rw [← Int32.toBitVec_inj, ← UInt32.toBitVec_inj, Int32.toBitVec_toUInt32]
  rfl

/-- No host identity gets into the container exactly for the numbers other than -1 and,
for 0, from groups that are all mapped. -/
theorem host_identity_iff (n : Int32) (groups : List Nat) :
    NoHostIdentity n groups ↔ n ≠ -1 ∧ (n = 0 → ∀ host ∈ groups, InMappedRange host) := by
  constructor
  · intro h
    constructor
    · rintro rfl
      obtain ⟨g, hg, hexec, hcreds⟩ := unchanged_run groups
      refine (h 1 _ _ _ g rfl hg hexec).notRoot ?_
      rw [hcreds]
      exact List.mem_cons_self
    · rintro rfl host hhost
      obtain ⟨g, hg, hexec, hcreds⟩ := zero_run groups
      refine (h 1 _ _ _ g rfl hg hexec).mapped host ?_
      rw [hcreds]
      exact List.mem_append_right _ (List.mem_append_right _ hhost)
  · rintro ⟨hno, hzero⟩ retries args uid gid g rfl hg hexec
    exact (identified hg hexec).isolated rfl (fun h => hno (toUInt32_noChange.mp h))
      fun h => hzero (toUInt32_zero.mp h)

/-- `-u 0` from a root shell whose groups hold 0. -/
theorem root_groups_survive : ¬ NoHostIdentity 0 [0] := by
  intro h
  obtain ⟨g, hg, hexec, hcreds⟩ := zero_run [0]
  refine (h 1 _ _ _ g rfl hg hexec).notRoot ?_
  rw [hcreds]
  decide

end Barco
