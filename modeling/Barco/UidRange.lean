import Barco.Credentials

/-!
# The ids a container can ask for

Runs in which no call fails, but for the rule that `setresuid` and `setresgid` reject an
id without a mapping. `user_namespace_prepare_mappings` writes its maps without a look at
the id that was asked for.

1. `faultlessHost`: the pair where only that rule makes a call fail.
2. `UsableAt`: what such a run promises the one who asks for the user `n`.
3. `uid_usable_iff`: the promise is kept for 0 and for no other number.
4. `documented_uid_fails`: `-u 1000`.
-/

namespace Barco

open Effect Prog UserNs

/-! ## Runs without faults -/

/-- The answer is a success: a write is complete, and a read gives what it asked for. -/
def Call.succeeds : (c : Call) → Answer c → Bool
  | .calloc, done | .malloc, done | .asprintf, done | .strdup, done | .popen, done => done
  | .capGetProc, done | .seccompInit _, done => done
  | .clone _ _, r | .socketpair, r | .open _ _, r | .mkdtemp _, r | .socketNetlink, r => r.isOk
  | .kill _ _, r | .execve _ _, r | .fcntlCloexec _, r | .close _, r | .mkdir _, r => r.isOk
  | .rmdir _, r | .mount _ _ _ _, r | .pivotRoot _ _, r | .chdir _, r | .umount2 _ _, r => r.isOk
  | .setsockoptRcvtimeo _, r | .sethostname _, r | .unshare _, r => r.isOk
  | .setresgid _ _ _, r | .setresuid _ _ _, r | .prctlCapbsetDrop _, r => r.isOk
  | .capClearInheritable _, r | .capSetProc, r | .seccompRuleAdd _, r => r.isOk
  | .seccompAttrNnp _, r | .seccompLoad, r | .recvmsg _, r | .waitpid _, r => r.isOk
  | .sendmsg _ msg, .ok n => n == msg.hdr.len
  | .write _ data, .ok n | .dprintf _ data, .ok n => n == data.length
  | .read _ count, .ok data => data.length == count
  | .sendmsg _ _, .error _ | .write _ _, .error _ | .dprintf _ _, .error _ => false
  | .read _ _, .error _ => false
  | .ifNametoindex _, index => index != 0
  | .iptables (.append _), done | .iptables (.delete _), done => done
  | _, _ => true

/-- The kernel has a reason to reject the ids. -/
def World.rejects (s : World) : Call → Prop
  | .setresgid r e v => ¬ ∀ id ∈ [r, e, v], Settable (s.toHost .gidMap) id
  | .setresuid r e v => ¬ ∀ id ∈ [r, e, v], Settable (s.toHost .uidMap) id
  | _ => False

/-- The pair where no call fails but for an id without a mapping, and where nothing kills
the child before its program runs. -/
def faultlessHost : Host Role Call Answer Int IdWorld :=
  { idHost.restrict (fun _ s c r => c.succeeds r = true ∨ s.world.rejects c) with
    env := fun s s' => idHost.env s s' ∧ s.world.life = .running }

/-- The parent has written its maps and let the child go. -/
def LetGo (s : World) : Prop := goMessage ∈ s.parent.sent

/-- What the user `n` is promised in a state of the pair. -/
structure UsableAt (n : Int32) (g : Global Role Call Answer Int IdWorld) : Prop where
  /-- the maps that were written contain `n` -/
  maps : LetGo g.kern.world → ∀ file ∈ [IdFile.uidMap, IdFile.gidMap],
    ∃ m, g.kern.world.idMap file = some m ∧ (m.toHost n.toUInt32.toNat).isSome
  /-- with them, `user_namespace_init` returns 0 -/
  init : LetGo g.kern.world → g.kern.world.life = .starting → ∀ uid fd r k,
    g.prog .child = .call (.leave (.userNamespaceInit uid fd) r) k → r = 0
  /-- and the child does not end before `execve` -/
  reached : LetGo g.kern.world → g.kern.world.Over → g.kern.world.child.execed = true
  /-- which it makes as `n` -/
  uid : AboutToExec g → ∀ host ∈ g.kern.creds.uid.all,
    g.kern.world.toInside .uidMap host = some n.toUInt32.toNat
  gid : AboutToExec g → ∀ host ∈ g.kern.creds.gid.all,
    g.kern.world.toInside .gidMap host = some n.toUInt32.toNat

/-- Without faults, the user `n` is what was promised, and there is such a run up to
`execve`. -/
structure UidUsable (n : Int32) : Prop where
  always : ∀ (retries : Nat) (args : Args) (creds : Creds)
    (g : Global Role Call Answer Int IdWorld), args.uid = n →
    faultlessHost.Reachable (idStart retries args creds) g → UsableAt n g
  runs : ∃ (retries : Nat) (args : Args) (creds : Creds)
    (g : Global Role Call Answer Int IdWorld), args.uid = n ∧
    faultlessHost.Reachable (idStart retries args creds) g ∧ AboutToExec g

/-- A run without faults is a run. -/
theorem id_of_faultless {g₀ g : Global Role Call Answer Int IdWorld}
    (h : faultlessHost.Reachable g₀ g) : idHost.Reachable g₀ g := by
  have hcall : ∀ i s c r s', faultlessHost.call i s c r s' → idHost.call i s c r s' :=
    fun _ _ _ _ _ hc => hc.1
  exact Host.reachable_map id hcall (fun _ _ he => he.1) rfl h

/-! ## The child -/

/-- Whoever has sent its message has read a whole one. -/
def Answered (c : ChildSide) : Prop := c.sent ≠ [] → ∃ d ∈ c.heard, d.length = 4

/-- What the child for `uid` keeps to where nothing fails: once it was let go it does not
give up. -/
def faultlessRule (uid : UInt32) (c : ChildSide) : Call → Prop
  | .setresgid r e v | .setresuid r e v => r = uid ∧ e = uid ∧ v = uid
  | .leave (.userNamespaceInit _ _) r => Answered c ∧ (goMessage ∈ c.heard → r = 0)
  | .leave .containerStart _ => Answered c ∧ (goMessage ∈ c.heard → c.execed = true)
  | _ => True

def faultlessProtocol (uid : UInt32) : Role → Machine Call Answer ChildSide
  | .parent => { may := fun _ c => ClonesAs uid c, step := fun _ _ _ _ => True }
  | .child =>
    { may := faultlessRule uid
      step := fun c call r c' => childProtocol.step c call r c' ∧ call.succeeds r = true }

section Child

variable {α β : Type} {uid : UInt32} {c : ChildSide}

theorem faultless_call {q : Call} {k : Answer q → Sys β} {Q : β → ChildSide → Prop}
    (hrule : faultlessRule uid c q)
    (hk : ∀ r, q.succeeds r = true → wp (faultlessProtocol uid .child) (k r) Q (c.after q r)) :
    wp (faultlessProtocol uid .child) (sys q >>= k) Q c :=
  ⟨hrule, fun r c' h => by
    obtain ⟨⟨-, rfl⟩, hs⟩ := h
    exact hk r hs⟩

/-- A child that has not begun the handshake is bound to nothing. -/
theorem faultlessRule_quiet {call : Call} (hsent : c.sent = []) (hheard : c.heard = [])
    (hcall : call.area ≠ .identity) : faultlessRule uid c call := by
  have hanswered : Answered c := fun hne => absurd hsent hne
  have hgo : goMessage ∉ c.heard := by
    rw [hheard]
    exact List.not_mem_nil
  cases call with
  | setresgid r e v => exact absurd rfl hcall
  | setresuid r e v => exact absurd rfl hcall
  | leave f code =>
    cases f with
    | userNamespaceInit uid' fd => exact ⟨hanswered, fun h => absurd h hgo⟩
    | containerStart => exact ⟨hanswered, fun h => absurd h hgo⟩
    | _ => trivial
  | _ => trivial

/-- What comes before the handshake. -/
theorem faultless_tidy {S : List Area} {P : α → Prop} {q : Sys α} (hsent : c.sent = [])
    (hheard : c.heard = []) (hq : Tidy S P q) (hn : q.Only Aside) :
    wp (faultlessProtocol uid .child) q (fun a c' => c' = c ∧ P a) c :=
  aside_tidy (fun _ hc _ => faultlessRule_quiet hsent hheard hc.1.2.2.1) (fun _ _ _ h => h.1) hq hn

/-- A loop in which no step fails comes to its end. -/
theorem faultless_untilError {ι : Type} {step : ι → Sys (Res Unit)} (xs : List ι)
    (hstep : ∀ x, wp (faultlessProtocol uid .child) (step x) (fun r c' => r = .ok () ∧ c' = c) c) :
    wp (faultlessProtocol uid .child) (untilError step xs) (fun b c' => b = true ∧ c' = c) c := by
  induction xs with
  | nil => exact ⟨rfl, rfl⟩
  | cons x xs ih =>
    refine wp_seq (hstep x) ?_
    rintro r c' ⟨rfl, rfl⟩
    exact ih

theorem eq_ok_of_isOk {r : Res Unit} (h : r.isOk = true) : r = .ok () := by
  cases r with
  | error e => exact nomatch h
  | ok u => rfl

theorem faultless_secSetCaps : wp (faultlessProtocol uid .child) secSetCaps
    (fun r c' => r = 0 ∧ c' = c) c := by
  refine wp_seq (faultless_untilError dropCaps fun cap => ?_) ?_
  · exact faultless_call (q := .prctlCapbsetDrop cap) trivial fun r hs => ⟨eq_ok_of_isOk hs, rfl⟩
  rintro b c₁ ⟨rfl, rfl⟩
  refine faultless_call trivial fun r hs => ?_
  obtain rfl : r = true := hs
  refine faultless_call trivial fun r hs => ?_
  obtain rfl := eq_ok_of_isOk hs
  refine faultless_call trivial fun r hs => ?_
  obtain rfl := eq_ok_of_isOk hs
  exact faultless_call trivial fun _ _ => ⟨rfl, rfl⟩

theorem faultless_secSetSeccomp : wp (faultlessProtocol uid .child) secSetSeccomp
    (fun r c' => r = 0 ∧ c' = c) c := by
  refine faultless_call trivial fun r hs => ?_
  obtain rfl : r = true := hs
  refine wp_seq (p := addRules secRules) (faultless_untilError secRules fun rule => ?_) ?_
  · exact faultless_call (q := .seccompRuleAdd rule) trivial fun r hs => ⟨eq_ok_of_isOk hs, rfl⟩
  rintro b c₁ ⟨rfl, rfl⟩
  refine faultless_call trivial fun r hs => ?_
  obtain rfl := eq_ok_of_isOk hs
  refine faultless_call trivial fun r hs => ?_
  obtain rfl := eq_ok_of_isOk hs
  exact faultless_call trivial fun _ _ => ⟨rfl, rfl⟩

/-- How `user_namespace_init` ends. -/
structure Switches (r : Int) (c : ChildSide) : Prop where
  answered : Answered c
  result : goMessage ∈ c.heard → r = 0

theorem faultless_userNamespaceInit {config : ContainerConfig} (h : Quiet config c) :
    wp (faultlessProtocol uid .child) (userNamespaceInit uid config.fd) Switches c := by
  obtain ⟨a, b, -, hends, hfd⟩ := h.ends
  have hb : c.ends.b = some config.fd := by rw [hends, hfd]
  refine faultless_call trivial fun r hs => ?_
  obtain rfl := eq_ok_of_isOk hs
  refine faultless_call (c := { c with unshared := true }) trivial fun r hs => ?_
  cases r with
  | error e => exact absurd hs Bool.false_ne_true
  | ok n =>
  obtain rfl : n = 4 := beq_iff_eq.mp hs
  have hwrote : ({ c with unshared := true } : ChildSide).after (.write config.fd (intBytes 0)) (.ok 4) =
      { c with unshared := true, sent := [goMessage] } := by
    simp only [ChildSide.after, hb, if_true, h.sent, List.nil_append]
    rfl
  rw [hwrote]
  refine faultless_call trivial fun r hs => ?_
  cases r with
  | error e => exact absurd hs Bool.false_ne_true
  | ok result =>
  have hlength : result.length = 4 := beq_iff_eq.mp hs
  have hread : ({ c with unshared := true, sent := [goMessage] } : ChildSide).after
      (.read config.fd 4) (.ok result) =
      { c with unshared := true, sent := [goMessage], heard := [result] } := by
    simp only [ChildSide.after, hb, if_true, h.heard, List.nil_append]
  rw [hread]
  have hanswered : Answered { c with unshared := true, sent := [goMessage], heard := [result] } :=
    fun _ => ⟨result, List.mem_singleton.mpr rfl, hlength⟩
  dsimp only
  rw [if_neg (not_not.mpr hlength)]
  split
  · exact ⟨hanswered, fun hgo => absurd (List.mem_singleton.mp hgo).symm ‹_›⟩
  refine faultless_call (q := .setresgid uid uid uid) ⟨rfl, rfl, rfl⟩ fun r hs => ?_
  obtain rfl := eq_ok_of_isOk hs
  refine faultless_call (q := .setresuid uid uid uid) ⟨rfl, rfl, rfl⟩ fun r hs => ?_
  obtain rfl := eq_ok_of_isOk hs
  exact faultless_call trivial fun _ _ => ⟨hanswered, fun _ => rfl⟩

/-- A child that is let go does not end before `execve`. -/
structure Persists (c : ChildSide) : Prop where
  answered : Answered c
  execed : goMessage ∈ c.heard → c.execed = true

theorem Quiet.persists {config : ContainerConfig} (h : Quiet config c) : Persists c where
  answered hne := absurd h.sent hne
  execed hgo := absurd (h.heard ▸ hgo) List.not_mem_nil

theorem faultless_fail (config : ContainerConfig) (fdClosed : Bool) (h : Persists c) :
    wp (faultlessProtocol uid .child) (containerFail config fdClosed) (fun _ => Persists) c := by
  unfold containerFail
  split
  · exact faultless_call (q := .close config.fd) trivial fun _ _ => ⟨h.answered, h.execed⟩
  · exact h

theorem faultless_mark {f : Fn} {body : Sys Int} {Q : Int → ChildSide → Prop}
    (hleave : ∀ r c', Q r c' → faultlessRule uid c' (.leave f r))
    (h : wp (faultlessProtocol uid .child) body Q c) :
    wp (faultlessProtocol uid .child) (invoke f body) Q c :=
  faultless_call (q := .enter f) trivial fun _ _ => wp_seq h fun r c' h' =>
    faultless_call (q := .leave f r) (hleave r c' h') fun _ _ => h'

/-- Stages 3 and 4. -/
theorem faultless_exec {config : ContainerConfig} (h : Quiet config c) :
    wp (faultlessProtocol config.uid .child) (containerExec config) (fun _ => Persists) c := by
  refine wp_seq (faultless_mark (fun r c' h' => ⟨h'.answered, h'.result⟩)
    (faultless_userNamespaceInit h)) fun r c₁ h₁ => ?_
  split
  · rename_i hr
    refine faultless_fail config false ⟨h₁.answered, fun hgo => ?_⟩
    have hzero := h₁.result hgo
    omega
  refine wp_seq (faultless_mark (fun _ _ _ => trivial) faultless_secSetCaps) ?_
  rintro r c₂ ⟨rfl, rfl⟩
  refine wp_seq (faultless_mark (fun _ _ _ => trivial) faultless_secSetSeccomp) ?_
  rintro r c₂ ⟨rfl, rfl⟩
  refine faultless_call (q := .close config.fd) trivial fun r hs => ?_
  obtain rfl := eq_ok_of_isOk hs
  refine faultless_call (q := .execve config.cmd _) trivial fun r hs => ?_
  obtain rfl := eq_ok_of_isOk hs
  exact ⟨h₁.answered, fun _ => rfl⟩

theorem containerStart_faultless {config : ContainerConfig} (h : Quiet config c) :
    wp (faultlessProtocol config.uid .child) (invoke .containerStart (containerStart config))
      (fun _ => Persists) c := by
  refine faultless_mark (fun _ _ h' => ⟨h'.answered, h'.execed⟩) ?_
  refine wp_seq (faultless_tidy h.sent h.heard (containerHostname_tidy config)
    (aside_of_areas (containerHostname_tidy config).only (by decide))) ?_
  rintro b c₁ ⟨rfl, -⟩
  split
  · exact faultless_fail config false h.persists
  refine wp_seq (faultless_mark (fun _ _ _ => trivial) (faultless_tidy h.sent h.heard
    (mountSet_tidy config.mnt) (aside_of_areas (mountSet_tidy config.mnt).only (by decide)))) ?_
  rintro r c₁ ⟨rfl, -⟩
  split
  · exact faultless_fail config false h.persists
  refine wp_seq (faultless_tidy h.sent h.heard (configureNetwork_tidy config)
    (aside_configureNetwork config)) ?_
  rintro b c₁ ⟨rfl, -⟩
  split
  · exact faultless_fail config false h.persists
  refine wp_seq (faultless_tidy h.sent h.heard (configureDns_tidy config)
    (aside_of_areas (configureDns_tidy config).only (by decide))) ?_
  rintro - c₁ ⟨rfl, -⟩
  refine wp_seq (faultless_tidy h.sent h.heard enablePingDgram_tidy
    (aside_of_areas enablePingDgram_tidy.only (by decide))) ?_
  rintro r c₁ ⟨rfl, -⟩
  exact faultless_exec h

end Child

/-! ## The two together -/

section Together

variable {retries : Nat} {args : Args} {creds : Creds}
  {g : Global Role Call Answer Int IdWorld}

/-- What the child's side is to the pair. -/
structure Steady (s : IdWorld) (l : Role → ChildSide) : Prop where
  child : s.world.life = .starting → l .child = s.world.child
  kept : s.world.life ≠ .unborn → s.world.life ≠ .starting → Persists s.world.child

/-- Ids that have a mapping are not rejected. -/
theorem not_rejects_zero {s : World} {c : Call} (hunshared : s.child.unshared = true)
    (hmaps : s.idMap .uidMap = some wholeMap ∧ s.idMap .gidMap = some wholeMap)
    (hrule : faultlessRule 0 s.child c) : ¬ s.rejects c := by
  have hhost : ∀ file, s.idMap file = some wholeMap → (s.toHost file 0).isSome := by
    intro file hmap
    rw [World.toHost, if_pos hunshared, hmap]
    rfl
  have hsettable : ∀ file, s.idMap file = some wholeMap →
      ∀ id ∈ [(0 : UInt32), 0, 0], Settable (s.toHost file) id := by
    intro file hmap id hid
    simp only [List.mem_cons, List.not_mem_nil, or_false, or_self] at hid
    exact .inr (hid ▸ hhost file hmap)
  cases c with
  | setresgid r e v =>
    obtain ⟨rfl, rfl, rfl⟩ := hrule
    exact not_not.mpr (hsettable .gidMap hmaps.2)
  | setresuid r e v =>
    obtain ⟨rfl, rfl, rfl⟩ := hrule
    exact not_not.mpr (hsettable .uidMap hmaps.1)
  | _ => exact id

/-- A call of the child for the user 0 succeeds. -/
theorem succeeds_of_reached {s : World} {net : Prop} {c : Call} {r : Answer c} (h : Agreed net s)
    (hchild : childRule s.child c) (hrule : faultlessRule 0 s.child c)
    (hok : c.succeeds r = true ∨ s.rejects c) : c.succeeds r = true := by
  have hset : goMessage ∈ s.child.heard → c.succeeds r = true := fun hgo => by
    obtain ⟨hmaps, hheard⟩ := h.maps (h.released hgo)
    exact hok.resolve_right (not_rejects_zero (h.unshared hheard) hmaps hrule)
  cases c with
  | setresgid a b d => exact hset hchild
  | setresuid a b d => exact hset hchild
  | _ => exact hok.resolve_right id

/-- The child stays what it was once it is let go. -/
theorem Steady.childCall {s s' : World} {uid : UInt32} {c : Call} {r : Answer c}
    (hcall : World.call .child s c r s') (hchild : childRule s.child c)
    (hrule : faultlessRule uid s.child c) (hlife : s'.life ≠ .starting) : Persists s'.child := by
  obtain ⟨hstarting, -, rfl⟩ := hcall
  cases c with
  | execve path argv =>
    cases r with
    | error e => exact absurd hstarting hlife
    | ok u =>
      have hgo : goMessage ∈ s.child.heard := hchild
      exact ⟨fun _ => ⟨goMessage, hgo, rfl⟩, fun _ => rfl⟩
  | leave f code =>
    cases f with
    | containerStart => exact ⟨hrule.1, hrule.2⟩
    | _ => exact absurd hstarting hlife
  | write fd data => cases r <;> exact absurd hstarting hlife
  | read fd count => cases r <;> exact absurd hstarting hlife
  | _ => exact absurd hstarting hlife

/-- The parent can only wait for a child that has ended. -/
theorem Steady.parentCall {s : World} {c : Call} {r : Answer c} (hans : s.parentAnswers c r)
    (hspawn : pairHost.spawn .parent c r .child = none)
    (hunborn : (s.parentAfter c r).life ≠ .unborn)
    (hstarting : (s.parentAfter c r).life ≠ .starting) :
    s.life ≠ .unborn ∧ s.life ≠ .starting := by
  cases c with
  | clone flags config =>
    cases r with
    | error e => exact ⟨hunborn, hstarting⟩
    | ok pid => exact nomatch hspawn
  | waitpid pid =>
    cases r with
    | error e => exact ⟨hunborn, hstarting⟩
    | ok w =>
      obtain ⟨-, -, hlife⟩ := hans
      rw [hlife]
      exact ⟨nofun, nofun⟩
  | write fd data => cases r <;> exact ⟨hunborn, hstarting⟩
  | read fd count => cases r <;> exact ⟨hunborn, hstarting⟩
  | _ => exact ⟨hunborn, hstarting⟩

/-- What a run without faults for the user 0 keeps, and what is left of the child. -/
theorem steady_reached (huid : args.uid.toUInt32 = 0)
    (h : faultlessHost.Reachable (idStart retries args creds) g) :
    ∃ l, Steady g.kern l ∧ ∀ i, (g.prog i).wp (faultlessProtocol 0 i) (fun _ _ => True) (l i) := by
  have hprog : ∀ i, ((idStart retries args creds).prog i).wp (faultlessProtocol 0 i)
      (fun _ _ => True) (ChildSide.start .none) := by
    intro i
    cases i with
    | parent =>
      have hclones : (main retries args).Only (ClonesAs 0) := huid ▸ main_clonesAs retries args
      exact wp_mono (wp_of_only (J := fun _ => True) hclones
        (fun _ c hc _ => ⟨hc, fun _ _ _ => trivial⟩) trivial) fun _ _ _ => trivial
    | child => exact trivial
  have hR : ∀ g, faultlessHost.Reachable (idStart retries args creds) g →
      Reached (Networking args) (args.errors = false ∧ args.help = true) (g.map IdWorld.world) :=
    fun g hg => pair_reached (pair_of_id (id_of_faultless hg))
  refine Host.reachable_under (I := Steady) (fun _ => .start .none) hR
    (@fun g l i c k r s' hg hk hI hmay hcall => ?_) (@fun s l s' hI henv => ?_)
    ⟨nofun, fun hborn => absurd rfl hborn⟩ hprog h
  · obtain ⟨hcall, hok⟩ := hcall
    cases i with
    | child =>
      obtain ⟨hworld, -, -⟩ := hcall
      have hlife : g.kern.world.life = .starting := hworld.1
      have hchild : childRule g.kern.world.child c := hg.childCall hlife c k hk
      have hrule : faultlessRule 0 g.kern.world.child c := hI.child hlife ▸ hmay
      refine ⟨fun | .parent => l .parent | .child => g.kern.world.child.after c r,
        ⟨fun hlife' => ?_, fun _ hlife' => Steady.childCall hworld hchild hrule hlife'⟩,
        ⟨⟨?_, ?_⟩, succeeds_of_reached hg.agreed hchild hrule hok⟩, fun j hj => ?_⟩
      · obtain ⟨-, -, hnext⟩ := hworld
        rw [hnext] at hlife' ⊢
        exact (childAfter_child hlife').symm
      · rw [hI.child hlife]
        exact answers_opens hworld.2.1
      · rw [hI.child hlife]
      · cases j with
        | parent => rfl
        | child => exact absurd rfl hj
    | parent =>
      obtain ⟨⟨hans, hworld⟩, -⟩ := hcall
      cases hspawn : pairHost.spawn .parent c r .child with
      | none =>
        obtain ⟨hsame, hstays⟩ := parentAfter_child (s := g.kern.world) hspawn
        refine ⟨l, ⟨fun hlife' => ?_, fun hunborn hstarting => ?_⟩, trivial, fun j hj => ?_⟩
        · rw [hworld] at hlife' ⊢
          rw [hsame]
          exact hI.child (hstays hlife')
        · rw [hworld] at hunborn hstarting ⊢
          rw [hsame]
          obtain ⟨hunborn, hstarting⟩ := Steady.parentCall hans hspawn hunborn hstarting
          exact hI.kept hunborn hstarting
        · cases j with
          | parent => exact absurd rfl hj
          | child =>
            have hid : faultlessHost.spawn .parent c r .child = none := hspawn
            rw [hid]
      | some q =>
        refine ⟨fun | .parent => l .parent | .child => s'.world.child,
          ⟨fun _ => rfl, fun hunborn hstarting => ?_⟩, trivial, fun j hj => ?_⟩
        · cases c with
          | clone flags config =>
            cases r with
            | error e => exact nomatch hspawn
            | ok pid => exact absurd (congrArg World.life hworld) hstarting
          | _ => exact nomatch hspawn
        · cases j with
          | parent => exact absurd rfl hj
          | child =>
            have hid : faultlessHost.spawn .parent c r .child = some q := hspawn
            rw [hid]
            cases c with
            | clone flags config =>
              cases r with
              | error e => exact nomatch hspawn
              | ok pid =>
                obtain rfl := Option.some.inj hspawn
                obtain ⟨-, a, b, hab, hends, hfd⟩ := hg.parentCall _ k hk
                have hquiet : Quiet config s'.world.child := by
                  rw [hworld]
                  exact ⟨⟨a, b, hab, hends, hfd⟩, rfl, rfl⟩
                have hzero : config.uid = 0 := hmay _ rfl
                exact wp_mono (hzero ▸ containerStart_faultless hquiet) fun _ _ _ => trivial
            | _ => exact nomatch hspawn
  · obtain ⟨world, creds'⟩ := s'
    obtain ⟨⟨henv, -⟩, hrunning⟩ := henv
    have hkept := hI.kept (hrunning ▸ nofun) (hrunning ▸ nofun)
    refine ⟨fun hlife' => ?_, fun _ _ => ?_⟩
    · cases henv <;> exact nomatch hlife'
    · cases henv <;> exact ⟨hkept.answered, hkept.execed⟩

theorem eq_of_mem_once {α : Type} {xs : List α} {x y : α} (h : xs.length ≤ 1) (hx : x ∈ xs)
    (hy : y ∈ xs) : x = y := by
  obtain ⟨i, hi, rfl⟩ := List.getElem_of_mem hx
  obtain ⟨j, hj, rfl⟩ := List.getElem_of_mem hy
  obtain rfl : i = j := by omega
  rfl

/-- A whole message can only be the one that lets the child go. -/
theorem Agreed.told {net : Prop} {s : World} (h : Agreed net s) (hgo : LetGo s)
    (hanswered : Answered s.child) : goMessage ∈ s.child.heard := by
  have hsent : s.child.sent ≠ [] := by
    obtain hnil | ⟨m, hm, -⟩ := h.asked.taken _ (h.maps hgo).2
    · exact absurd hnil (by decide)
    · exact List.ne_nil_of_mem hm
  obtain ⟨d, hd, hlength⟩ := hanswered hsent
  obtain rfl | ⟨m, hm, n, rfl⟩ := h.answered.taken d hd
  · exact nomatch hlength
  obtain rfl : m = goMessage := eq_of_mem_once h.parent.once hm hgo
  have hfour : goMessage.length = 4 := rfl
  rw [List.length_take, hfour] at hlength
  have hlong : goMessage.length ≤ n := by omega
  rwa [List.take_of_length_le hlong] at hd

/-- The user 0 is what was promised in every run without faults. -/
theorem zero_usableAt (hzero : args.uid = 0)
    (h : faultlessHost.Reachable (idStart retries args creds) g) : UsableAt 0 g := by
  have huid : args.uid.toUInt32 = 0 := toUInt32_zero.mpr hzero
  have hpair := pair_reached (pair_of_id (id_of_faultless h))
  obtain ⟨l, hsteady, hp⟩ := steady_reached huid h
  refine ⟨fun hgo file hfile => ?_, fun hgo hlife uid fd r k hk => ?_, fun hgo hover => ?_,
    fun hexec => ?_, fun hexec => ?_⟩
  · have hmaps := (hpair.agreed.maps hgo).1
    refine ⟨wholeMap, ?_, rfl⟩
    rcases List.mem_pair.mp hfile with rfl | rfl
    · exact hmaps.1
    · exact hmaps.2
  · have hchild := hp .child
    rw [hk, hsteady.child hlife] at hchild
    obtain ⟨⟨hanswered, hresult⟩, -⟩ := hchild
    exact hresult (hpair.agreed.told hgo hanswered)
  · obtain ⟨status, hlife⟩ := hover
    have hkept : Persists g.kern.world.child := hsteady.kept
      (by rcases hlife with hlife | hlife <;> rw [hlife] <;> exact nofun)
      (by rcases hlife with hlife | hlife <;> rw [hlife] <;> exact nofun)
    exact hkept.execed (hpair.agreed.told hgo hkept.answered)
  · have hid := identified (id_of_faultless h) hexec
    obtain ⟨-, huids, -⟩ := hid.ids.resolve_left (huid ▸ by decide)
    exact fun host hhost => hid.toInside hid.maps.1 (huids ▸ hhost)
  · have hid := identified (id_of_faultless h) hexec
    obtain ⟨-, -, hgids⟩ := hid.ids.resolve_left (huid ▸ by decide)
    exact fun host hhost => hid.toInside hid.maps.2 (hgids ▸ hhost)

end Together

/-! ## Runs -/

/-- `rejects` as a test. -/
def World.rejectsBool (s : World) : Call → Bool
  | .setresgid r e v => !List.all [r, e, v] fun id => Settable (s.toHost .gidMap) id
  | .setresuid r e v => !List.all [r, e, v] fun id => Settable (s.toHost .uidMap) id
  | _ => false

theorem World.rejectsBool_iff (s : World) (c : Call) : s.rejectsBool c = true ↔ s.rejects c := by
  have hall : ∀ file ids, (!List.all ids fun id => Settable (s.toHost file) id) = true ↔
      ¬ ∀ id ∈ ids, Settable (s.toHost file) id := fun file ids => by
    simp only [Bool.not_eq_true', Bool.eq_false_iff, ne_eq, List.all_eq_true, decide_eq_true_eq]
  cases c with
  | setresgid a b d => exact hall .gidMap [a, b, d]
  | setresuid a b d => exact hall .uidMap [a, b, d]
  | _ => exact iff_of_false Bool.false_ne_true id

instance (s : World) (c : Call) : Decidable (s.rejects c) :=
  decidable_of_iff _ (s.rejectsBool_iff c)

/-- The call as a function. -/
def faultlessPost (i : Role) (s : IdWorld) (c : Call) (r : Answer c) : Option IdWorld :=
  if c.succeeds r = true ∨ s.world.rejects c then idPost i s c r else none

theorem faultlessPost_call {i : Role} {s s' : IdWorld} {c : Call} {r : Answer c}
    (h : faultlessPost i s c r = some s') : faultlessHost.call i s c r s' := by
  simp only [faultlessPost] at h
  split at h
  · exact ⟨idPost_call h, ‹_›⟩
  · exact nomatch h

/-- What a schedule of root's container for `n` comes to, where nothing else moves. -/
theorem faultless_run {n : Int32} {ts : List (Host.Turn Role Call Answer)} {α : Type}
    {view : Global Role Call Answer Int IdWorld → α} {a : α}
    (hrun : (faultlessHost.exec faultlessPost (fun _ => none) ts
      (idStart 1 (argsFor n) ⟨rootIds, rootIds, []⟩)).map view = some a) :
    ∃ g, faultlessHost.Reachable (idStart 1 (argsFor n) ⟨rootIds, rootIds, []⟩) g ∧
      view g = a := by
  obtain ⟨g, hg, heq⟩ := Option.map_eq_some_iff.mp hrun
  have hpost : ∀ i s c r s', faultlessPost i s c r = some s' → faultlessHost.call i s c r s' :=
    fun _ _ _ _ _ => faultlessPost_call
  have hmove : ∀ s s' : IdWorld, none = some s' → faultlessHost.env s s' := fun _ _ h => nomatch h
  exact ⟨g, Host.exec_reachable hpost hmove hg, heq⟩

/-- Without faults, the user `n` is what was promised exactly for `n = 0`. -/
theorem uid_usable_iff (n : Int32) : UidUsable n ↔ n = 0 := by
  constructor
  · rintro ⟨halways, retries, args, creds, g, huid, hg, hexec⟩
    obtain ⟨path, argv, k, hk⟩ := hexec.2
    have hpair := pair_reached (pair_of_id (id_of_faultless hg))
    have hgo : LetGo g.kern.world :=
      hpair.agreed.released (hpair.childCall hexec.1 (.execve path argv) k hk)
    obtain ⟨m, hm, hn⟩ := (halways retries args creds g huid hg).maps hgo .uidMap
      List.mem_cons_self
    obtain rfl : wholeMap = m := Option.some.inj ((hpair.agreed.maps hgo).1.1.symm.trans hm)
    obtain ⟨host, hhost⟩ := Option.isSome_iff_exists.mp hn
    exact toUInt32_zero.mp (wholeMap_toHost hhost).1
  · rintro rfl
    have hrun : (faultlessHost.exec faultlessPost (fun _ => none) execTurns
        (idStart 1 (argsFor 0) ⟨rootIds, rootIds, []⟩)).map
        (fun g => (StandsAtExecve (g.prog .child), g.kern.world.life)) =
          some (true, .starting) := by
      decide +kernel
    obtain ⟨g, hg, hview⟩ := faultless_run hrun
    obtain ⟨hexec, hlife⟩ := Prod.mk.inj hview
    exact ⟨fun _ _ _ _ huid h => zero_usableAt huid h,
      1, argsFor 0, _, g, rfl, hg, hlife, standsAtExecve_iff.mp hexec⟩

/-- What `user_namespace_init` is about to return. -/
def initResult : Sys Int → Option Int
  | .call (.leave (.userNamespaceInit _ _) r) _ => some r
  | _ => none

theorem eq_leave_of_initResult {p : Sys Int} {r : Int} (h : initResult p = some r) :
    ∃ uid fd k, p = .call (.leave (.userNamespaceInit uid fd) r) k := by
  cases p with
  | ret code => exact nomatch h
  | call c k =>
    cases c with
    | leave f code =>
      cases f with
      | userNamespaceInit uid fd =>
        obtain rfl := Option.some.inj h
        exact ⟨uid, fd, k, rfl⟩
      | _ => exact nomatch h
    | _ => exact nomatch h

/-- The kernel's answer to an id without a mapping. -/
def rejecting : (c : Call) → Option (Answer c)
  | .setresgid _ _ _ => some (.error EINVAL)
  | c => granted c

/-- The container for the user 1000 is given up in `setresgid`. -/
theorem documented_uid_fails : ¬ UidUsable 1000 := by
  intro h
  have hrun : (faultlessHost.exec faultlessPost (fun _ => none)
      (turns .parent 28 ++ turns .child 24 ++ turns .parent 12 ++ turns .child 1 ++
        [.call .child rejecting])
      (idStart 1 (argsFor 1000) ⟨rootIds, rootIds, []⟩)).map
      (fun g => (g.kern.world.parent.sent, g.kern.world.life, initResult (g.prog .child))) =
        some ([goMessage], .starting, some (-1)) := by
    decide +kernel
  obtain ⟨g, hg, hview⟩ := faultless_run hrun
  simp only [Prod.mk.injEq] at hview
  obtain ⟨hsent, hlife, hresult⟩ := hview
  obtain ⟨uid, fd, k, hk⟩ := eq_leave_of_initResult hresult
  have hgo : LetGo g.kern.world := by
    unfold LetGo
    rw [hsent]
    exact List.mem_singleton.mpr rfl
  have hzero : (-1 : Int) = 0 := (h.always 1 _ _ g rfl hg).init hgo hlife uid fd (-1) k hk
  omega

end Barco
