import Barco.Descriptors

/-!
# What has happened when the container executes the command

`container_start` is run against a machine that gives any answer and writes
down what happened. `Mandatory` lists the steps that a container needs before
`execve`. The two functions of `sec.c` return 1 when a step fails and the
caller tests for a negative value, so a failed step of theirs does not stop the
start.

1. `Steps.iff_noFailure`: a sequence of steps that stops at the first failure
   did all of them iff none failed.
2. `start_mandatory_iff`: `execve` is reached with all mandatory steps done iff
   no step of `sec.c` failed.
3. `start_without_caps`: a run in which the first `prctl` fails, and which
   reaches `execve`.
-/

namespace Barco

open Effect Prog

/-- A call of `sec.c` that failed. -/
def SecFailed (e : SysEvent) : Bool :=
  match e.1, e.2 with
  | .prctlCapbsetDrop _, .error _ => true
  | .capGetProc, false => true
  | .capClearInheritable _, .error _ => true
  | .capSetProc, .error _ => true
  | .seccompInit _, false => true
  | .seccompRuleAdd _, .error _ => true
  | .seccompAttrNnp _, .error _ => true
  | .seccompLoad, .error _ => true
  | _, _ => false

def dropEvent (c : Cap) : SysEvent := ⟨.prctlCapbsetDrop c, .ok ()⟩

def ruleEvent (rule : ScmpRule) : SysEvent := ⟨.seccompRuleAdd rule, .ok ()⟩

/-- The successful calls that make up `sec_set_caps`. -/
def capSteps : List SysEvent :=
  dropCaps.map dropEvent ++
    [⟨.capGetProc, true⟩, ⟨.capClearInheritable dropCaps, .ok ()⟩, ⟨.capSetProc, .ok ()⟩]

/-- The successful calls that make up `sec_set_seccomp`. -/
def filterSteps : List SysEvent :=
  ⟨.seccompInit .allow, true⟩ :: (secRules.map ruleEvent ++
    [⟨.seccompAttrNnp 0, .ok ()⟩, ⟨.seccompLoad, .ok ()⟩])

/-- The new root was entered and the old one detached. -/
def RootSwitched (h : List SysEvent) : Prop :=
  ∃ mountDir innerDir : CStr, ⟨.pivotRoot mountDir innerDir, .ok ()⟩ ∈ h ∧
    ⟨.chdir slash, .ok ()⟩ ∈ h ∧ ⟨.umount2 (slash ++ innerDir.basename) MNT_DETACH, .ok ()⟩ ∈ h

/-- The interface was renamed, addressed and brought up, if there is one. -/
def NetworkDone (config : ContainerConfig) (h : List SysEvent) : Prop :=
  ∀ name ip, config.vethName = some name → config.containerIp = some ip →
    (∀ tmp, config.vethTmp = some tmp → ⟨.leave (.nlRenameLink tmp name) 0, ()⟩ ∈ h) ∧
    ⟨.leave (.nlAddAddr name ip) 0, ()⟩ ∈ h ∧ ⟨.leave (.nlSetUp name) 0, ()⟩ ∈ h

/-- The parent acknowledged the id mapping. -/
def IdMapped (config : ContainerConfig) (h : List SysEvent) : Prop :=
  ⟨.read config.fd 4, .ok (intBytes 0)⟩ ∈ h

/-- The mandatory steps of a start, as events of its history. -/
structure Mandatory (config : ContainerConfig) (h : List SysEvent) : Prop where
  root : RootSwitched h
  network : NetworkDone config h
  idMapped : IdMapped config h
  capsDropped : ∀ e ∈ capSteps, e ∈ h
  filterLoaded : ∀ e ∈ filterSteps, e ∈ h
  /-- the last thing that happened -/
  closed : h.getLast? = some ⟨.close config.fd, .ok ()⟩

/-! ## The history of a function -/

/-- The events that the program adds to its history satisfy `Q`. -/
def Adds {α : Type} (Q : α → List SysEvent → Prop) (p : Sys α) : Prop :=
  ∀ h, wp Machine.history p (fun a h' => ∃ new, h' = h ++ new ∧ Q a new) h

namespace Adds

variable {α β : Type} {Q Q' : α → List SysEvent → Prop} {P : β → List SysEvent → Prop}

theorem pure {a : α} (h : Q a []) : Adds Q (Pure.pure a) := fun h' => ⟨[], by simp, h⟩

theorem mono {p : Sys α} (hp : Adds Q p) (h : ∀ a new, Q a new → Q' a new) : Adds Q' p :=
  fun h' => wp_mono (hp h') fun a _ ⟨new, hnew, hq⟩ => ⟨new, hnew, h a new hq⟩

theorem and {p : Sys α} (hp : Adds Q p) (hp' : Adds Q' p) :
    Adds (fun a new => Q a new ∧ Q' a new) p := fun h =>
  wp_mono (wp_and (hp h) (hp' h)) fun a h' ⟨⟨new, hnew, hq⟩, ⟨new', hnew', hq'⟩⟩ => by
    obtain rfl : new = new' := List.append_cancel_left (hnew.symm.trans hnew')
    exact ⟨new, hnew, hq, hq'⟩

theorem bind {p : Sys α} {f : α → Sys β} (hp : Adds Q p)
    (hf : ∀ a new, Q a new → Adds (fun b new' => P b (new ++ new')) (f a)) :
    Adds P (p >>= f) := fun h =>
  wp_seq (hp h) fun a h' ⟨new, hnew, hq⟩ =>
    wp_mono (hf a new hq h') fun b h'' ⟨new', hnew', hp'⟩ =>
      ⟨new ++ new', by rw [hnew', hnew, List.append_assoc], hp'⟩

theorem sys {c : Call} {Q : Answer c → List SysEvent → Prop} (h : ∀ r, Q r [⟨c, r⟩]) :
    Adds Q (sys c) := fun _ => ⟨trivial, fun r _ hs => ⟨[⟨c, r⟩], hs, h r⟩⟩

/-- A call and what follows it. -/
theorem call {c : Call} {k : Answer c → Sys β}
    (hk : ∀ r, Adds (fun b new => P b (⟨c, r⟩ :: new)) (k r)) : Adds P (Barco.sys c >>= k) :=
  bind (sys (Q := fun r new => new = [⟨c, r⟩]) fun _ => rfl) fun r _ hnew => hnew ▸ hk r

end Adds

/-- What a function adds lies in the areas its calls are about. -/
theorem adds_of_wp {α : Type} {S : List Area} {Q : α → List Int → Prop} {own : List Int}
    {p : Sys α} (hp : wp (tidy S) p Q own) :
    Adds (fun a new => (∀ e ∈ new, e.1.area ∈ S) ∧ ∃ own', Q a own') p := fun h => by
  refine wp_mono (wp_sim (N := Machine.history)
    (I := fun _ h' => ∃ new, h' = h ++ new ∧ ∀ e ∈ new, e.1.area ∈ S) ?_ hp ⟨[], by simp⟩)
    fun a h' ⟨own', ⟨new, hnew, hall⟩, ha⟩ => ⟨new, hnew, hall, own', ha⟩
  rintro own h' c ⟨new, rfl, hall⟩ hmay
  refine ⟨trivial, fun r h'' hs => ⟨_, rfl, new ++ [⟨c, r⟩], by rw [hs, List.append_assoc], ?_⟩⟩
  intro e he
  rcases List.mem_append.mp he with he | he
  · exact hall e he
  · rw [List.mem_singleton.mp he]
    exact hmay.1

theorem Tidy.adds {α : Type} {S : List Area} {P : α → Prop} {p : Sys α} (hp : Tidy S P p) :
    Adds (fun a new => (∀ e ∈ new, e.1.area ∈ S) ∧ P a) p :=
  (adds_of_wp (hp [])).mono fun _ _ ⟨hall, _, ha⟩ => ⟨hall, ha.2⟩

theorem Uses.adds {α : Type} {S : List Area} {P : α → Prop} {fd : Int} {p : Sys α}
    (hp : Uses S P fd p) : Adds (fun a new => (∀ e ∈ new, e.1.area ∈ S) ∧ P a) p :=
  (adds_of_wp (hp [fd] List.mem_cons_self)).mono fun _ _ ⟨hall, _, ha⟩ => ⟨hall, ha.2⟩

/-! ## The two functions of `sec.c` -/

/-- Every step happened and nothing failed, or a step is missing and something
failed. -/
def AllOrFail (steps new : List SysEvent) : Prop :=
  ((∀ e ∈ steps, e ∈ new) ∧ ∀ e ∈ new, SecFailed e = false) ∨
  ((∃ e ∈ steps, e ∉ new) ∧ ∃ e ∈ new, SecFailed e = true)

/-- The steps were all done iff nothing failed. -/
theorem AllOrFail.iff_noFailure {steps new : List SysEvent} (h : AllOrFail steps new) :
    (∀ e ∈ steps, e ∈ new) ↔ ∀ e ∈ new, SecFailed e = false := by
  rcases h with ⟨hall, hok⟩ | ⟨⟨e, he, hne⟩, e', he', hfail⟩
  · exact ⟨fun _ => hok, fun _ => hall⟩
  · exact ⟨fun h => absurd (h e he) hne, fun h => by simp [h e' he'] at hfail⟩

/-- One step is missing, and one call failed. -/
theorem AllOrFail.fail {steps new : List SysEvent} (e e' : SysEvent) (he : e ∈ steps)
    (hne : e ∉ new) (he' : e' ∈ new) (hf : SecFailed e' = true) : AllOrFail steps new :=
  .inr ⟨⟨e, he, hne⟩, e', he', hf⟩

/-- Every step, and then something that does not fail. -/
theorem AllOrFail.all {steps rest : List SysEvent} (hs : ∀ e ∈ steps, SecFailed e = false)
    (hr : ∀ e ∈ rest, SecFailed e = false) : AllOrFail steps (steps ++ rest) :=
  .inl ⟨fun _ he => List.mem_append_left _ he, fun e he => (List.mem_append.mp he).elim (hs e) (hr e)⟩

/-- The events of a loop that stops at the first failure: one success for each
item, or no success for some item and a failure. -/
theorem untilError_adds {ι : Type} {step : ι → Sys (Res Unit)} (okEvent : ι → SysEvent)
    (errEvent : ι → Errno → SysEvent) (hinj : Function.Injective okEvent)
    (hne : ∀ x y e, okEvent x ≠ errEvent y e)
    (hstep : ∀ x, Adds (fun r new => new = match r with
      | .ok _ => [okEvent x]
      | .error e => [errEvent x e]) (step x))
    (xs : List ι) (hnd : xs.Nodup) :
    Adds (fun b new => match b with
      | true => new = xs.map okEvent
      | false => (∃ x ∈ xs, okEvent x ∉ new) ∧ ∃ x e, errEvent x e ∈ new) (untilError step xs) := by
  induction xs with
  | nil => exact .pure rfl
  | cons x xs ih =>
    obtain ⟨hx, hnd⟩ := List.nodup_cons.mp hnd
    refine .bind (hstep x) fun r new hnew => ?_
    cases r with
    | error e =>
      obtain rfl : new = [errEvent x e] := hnew
      exact .pure ⟨⟨x, List.mem_cons_self, by simpa using hne x x e⟩, x, e, by simp⟩
    | ok u =>
      obtain rfl : new = [okEvent x] := hnew
      refine (ih hnd).mono fun b new hb => ?_
      cases b with
      | true =>
        obtain rfl : new = xs.map okEvent := hb
        rfl
      | false =>
        obtain ⟨⟨y, hy, hyn⟩, z, e, hz⟩ := hb
        refine ⟨⟨y, List.mem_cons_of_mem x hy, ?_⟩, z, e, List.mem_cons_of_mem _ hz⟩
        have hyx : okEvent y ≠ okEvent x := fun h => hx (hinj h ▸ hy)
        simpa [hyx] using hyn

theorem dropEvent_injective : Function.Injective dropEvent := by
  intro c d h
  simpa [dropEvent] using h

theorem ruleEvent_injective : Function.Injective ruleEvent := by
  intro r r' h
  simpa [ruleEvent] using h

theorem dropBounding_adds :
    Adds (fun b new => match b with
      | true => new = dropCaps.map dropEvent
      | false => AllOrFail capSteps new) (dropBounding dropCaps) := by
  refine (untilError_adds dropEvent (fun c e => ⟨.prctlCapbsetDrop c, .error e⟩)
    dropEvent_injective (by simp [dropEvent]) (fun c => .sys fun r => ?_) dropCaps (by decide)).mono
    fun b new hb => ?_
  · cases r <;> rfl
  · cases b with
    | true => exact hb
    | false =>
      obtain ⟨⟨c, hc, hcn⟩, d, e, hd⟩ := hb
      exact .fail _ _ (List.mem_append_left _ (List.mem_map_of_mem hc)) hcn hd rfl

/-- `sec_set_caps` drops everything, or a call of it failed. -/
theorem secSetCaps_adds : Adds (fun _ new => AllOrFail capSteps new) secSetCaps := by
  refine .bind dropBounding_adds fun b new hb => ?_
  cases b with
  | false => exact .pure (by simpa using hb)
  | true =>
    obtain rfl : new = dropCaps.map dropEvent := hb
    refine .call fun r => ?_
    cases r with
    | false =>
      refine .pure (.fail ⟨.capGetProc, true⟩ ⟨.capGetProc, false⟩ ?_ ?_ ?_ rfl)
      · simp [capSteps]
      · simp [dropEvent]
      · simp
    | true =>
      refine .call fun r => ?_
      cases r with
      | error e =>
        refine .call fun _ => .pure (.fail ⟨.capClearInheritable dropCaps, .ok ()⟩
          ⟨.capClearInheritable dropCaps, .error e⟩ ?_ ?_ ?_ rfl)
        · simp [capSteps]
        · simp [dropEvent]
        · simp
      | ok u =>
        refine .call fun r => ?_
        cases r with
        | error e =>
          refine .call fun _ => .pure (.fail ⟨.capSetProc, .ok ()⟩ ⟨.capSetProc, .error e⟩ ?_ ?_ ?_ rfl)
          · simp [capSteps]
          · simp [dropEvent]
          · simp
        | ok v =>
          refine .call fun w => .pure ?_
          have hall : AllOrFail capSteps (capSteps ++ [⟨.capFree, w⟩]) :=
            .all (by decide) (by simp [SecFailed])
          simpa [capSteps] using hall

theorem addRules_adds :
    Adds (fun b new => match b with
      | true => new = secRules.map ruleEvent
      | false => AllOrFail filterSteps (⟨.seccompInit .allow, true⟩ :: new)) (addRules secRules) := by
  refine (untilError_adds ruleEvent (fun rule e => ⟨.seccompRuleAdd rule, .error e⟩)
    ruleEvent_injective (by simp [ruleEvent]) (fun c => .sys fun r => ?_) secRules (by decide)).mono
    fun b new hb => ?_
  · cases r <;> rfl
  · cases b with
    | true => exact hb
    | false =>
      obtain ⟨⟨rule, hrule, hn⟩, d, e, hd⟩ := hb
      refine .fail (ruleEvent rule) ⟨.seccompRuleAdd d, .error e⟩ ?_ ?_ ?_ rfl
      · exact List.mem_cons_of_mem _ (List.mem_append_left _ (List.mem_map_of_mem hrule))
      · simpa [ruleEvent] using hn
      · exact List.mem_cons_of_mem _ hd

/-- A failed part stays one when the context is released. -/
theorem AllOrFail.release {steps new : List SysEvent} {e : SysEvent} (h : AllOrFail steps new)
    (hne : e ∉ steps) (hf : SecFailed e = false) : AllOrFail steps (new ++ [e]) := by
  rcases h with ⟨hall, hok⟩ | ⟨⟨d, hd, hdn⟩, d', hd', hdf⟩
  · refine .inl ⟨fun d hd => List.mem_append_left _ (hall d hd), fun d hd => ?_⟩
    rcases List.mem_append.mp hd with hd | hd
    · exact hok d hd
    · exact List.mem_singleton.mp hd ▸ hf
  · refine .fail d d' hd ?_ (List.mem_append_left _ hd') hdf
    simp only [List.mem_append, List.mem_singleton, not_or]
    exact ⟨hdn, fun h => hne (h ▸ hd)⟩

/-- `sec_set_seccomp` loads the complete filter, or a call of it failed. -/
theorem secSetSeccomp_adds : Adds (fun _ new => AllOrFail filterSteps new) secSetSeccomp := by
  refine .call fun r => ?_
  cases r with
  | false =>
    refine .pure (.fail ⟨.seccompInit .allow, true⟩ ⟨.seccompInit .allow, false⟩ ?_ ?_ ?_ rfl)
    · simp [filterSteps]
    · simp
    · simp
  | true =>
    refine .bind addRules_adds fun b new hb => ?_
    cases b with
    | false =>
      refine .call fun u => .pure ?_
      exact AllOrFail.release (e := ⟨.seccompRelease, u⟩) hb (by simp [filterSteps, ruleEvent]) rfl
    | true =>
      obtain rfl : new = secRules.map ruleEvent := hb
      refine .call fun r => ?_
      cases r with
      | error e =>
        refine .call fun _ => .pure (.fail ⟨.seccompAttrNnp 0, .ok ()⟩
          ⟨.seccompAttrNnp 0, .error e⟩ ?_ ?_ ?_ rfl)
        · simp [filterSteps]
        · simp [ruleEvent]
        · simp
      | ok u =>
        refine .call fun r => ?_
        cases r with
        | error e =>
          refine .call fun _ => .pure (.fail ⟨.seccompLoad, .ok ()⟩
            ⟨.seccompLoad, .error e⟩ ?_ ?_ ?_ rfl)
          · simp [filterSteps]
          · simp [ruleEvent]
          · simp
        | ok v =>
          refine .call fun w => .pure ?_
          have hall : AllOrFail filterSteps (filterSteps ++ [⟨.seccompRelease, w⟩]) :=
            .all (by decide) (by simp [SecFailed])
          simpa [filterSteps] using hall

/-! ## The steps before `sec.c` -/

/-- `mount_set` returns 0 only after the root was switched. -/
theorem mountSet_adds (mnt : CStr) :
    Adds (fun r new => r = 0 → RootSwitched new) (mountSet mnt) := by
  have hfail : ∀ {Q : List SysEvent → Prop}, Adds (fun (r : Int) new => r = 0 → Q new) (pure (-1)) :=
    .pure fun h => nomatch h
  refine .call fun r => ?_
  cases r with
  | error e => exact hfail
  | ok u =>
  refine .call fun r => ?_
  cases r with
  | error e => exact hfail
  | ok x =>
  refine .call fun r => ?_
  cases r with
  | error e => exact hfail
  | ok u =>
  refine .call fun r => ?_
  cases r with
  | error e => exact hfail
  | ok y =>
  refine .call fun r => ?_
  cases r with
  | error e => exact hfail
  | ok u =>
  refine .call fun r => ?_
  cases r with
  | error e => exact hfail
  | ok u =>
  refine .call fun r => ?_
  cases r with
  | error e => exact hfail
  | ok u =>
  refine .call fun r => ?_
  cases r with
  | error e => exact hfail
  | ok u =>
  refine .call fun r => ?_
  cases r with
  | error e => exact hfail
  | ok u => exact .pure fun _ => ⟨_, _, by simp; exact ⟨rfl, rfl⟩, by simp, by simp⟩

/-- A call of a function of the program leaves its result in the history. -/
theorem invoke_adds {f : Fn} {body : Sys Int} {S : List Area} {P : Int → Prop}
    (h : Tidy S P body) :
    Adds (fun r new => P r ∧ ⟨.leave f r, ()⟩ ∈ new) (invoke f body) := by
  refine .call fun _ => .bind h.adds fun r new hr => .call fun _ => .pure ⟨hr.2, ?_⟩
  simp

/-- A status that is not negative is 0. -/
theorem Status.eq_zero {r : Int} (h : Status r) (hr : ¬ r < 0) : r = 0 := by
  rcases h with rfl | rfl
  · rfl
  · exact absurd (by decide) hr

theorem containerRename_adds (tmp name : CStr) :
    Adds (fun b new => b = true → ⟨.leave (.nlRenameLink tmp name) 0, ()⟩ ∈ new)
      (containerRename tmp name) := by
  refine .bind (pollInterface_tidy tmp 51 0).adds fun waited new _ => ?_
  split
  · exact .pure fun h => nomatch h
  · refine .bind (invoke_adds (nlRenameLink_tidy tmp name)) fun r new' hr => .pure fun hb => ?_
    have hzero : r = 0 := hr.1.eq_zero (by simpa using hb)
    subst hzero
    simp [hr.2]

theorem configureRename_adds (config : ContainerConfig) (name : CStr) :
    Adds (fun b new => b = true →
      ∀ tmp, config.vethTmp = some tmp → ⟨.leave (.nlRenameLink tmp name) 0, ()⟩ ∈ new)
      (configureRename config name) := by
  unfold configureRename
  cases config.vethTmp with
  | none => exact .pure fun _ _ h => nomatch h
  | some tmp =>
    refine (containerRename_adds tmp name).mono fun b new h hb tmp' ht => ?_
    obtain rfl : tmp = tmp' := Option.some.inj ht
    exact h hb

/-- Stage 2 succeeds only with the interface renamed, addressed and up. -/
theorem containerNetwork_adds (config : ContainerConfig) (name ip : CStr) :
    Adds (fun b new => b = true →
      (∀ tmp, config.vethTmp = some tmp → ⟨.leave (.nlRenameLink tmp name) 0, ()⟩ ∈ new) ∧
      ⟨.leave (.nlAddAddr name ip) 0, ()⟩ ∈ new ∧ ⟨.leave (.nlSetUp name) 0, ()⟩ ∈ new)
      (containerNetwork config name ip) := by
  have hstop : ∀ {Q : List SysEvent → Prop}, Adds (fun b new => b = true → Q new) (pure false) :=
    .pure fun h => nomatch h
  refine .bind (invoke_adds (nlSetUp_tidy loName)) fun _ new₁ _ => ?_
  refine .bind (configureRename_adds config name) fun renamed new₂ hren => ?_
  split
  · exact hstop
  rename_i hrenamed
  refine .bind (invoke_adds (nlAddAddr_tidy name ip)) fun r new₃ haddr => ?_
  split
  · exact hstop
  rename_i hr
  obtain rfl := haddr.1.eq_zero hr
  refine .bind (invoke_adds (nlSetUp_tidy name)) fun r new₄ hup => ?_
  split
  · exact hstop
  rename_i hr
  obtain rfl := hup.1.eq_zero hr
  have htmp := hren (by simpa using hrenamed)
  have hdone : ∀ new₅, (∀ tmp, config.vethTmp = some tmp →
        ⟨.leave (.nlRenameLink tmp name) 0, ()⟩ ∈ new₁ ++ (new₂ ++ (new₃ ++ (new₄ ++ new₅)))) ∧
      ⟨.leave (.nlAddAddr name ip) 0, ()⟩ ∈ new₁ ++ (new₂ ++ (new₃ ++ (new₄ ++ new₅))) ∧
      ⟨.leave (.nlSetUp name) 0, ()⟩ ∈ new₁ ++ (new₂ ++ (new₃ ++ (new₄ ++ new₅))) := fun new₅ =>
    ⟨fun tmp ht => by simp [htmp tmp ht], by simp [haddr.2], by simp [hup.2]⟩
  cases config.hostIp with
  | none => exact .pure fun _ => hdone []
  | some hostIp => exact (containerRoute_tidy name hostIp).adds.mono fun _ new₅ _ _ => hdone new₅

theorem configureNetwork_adds (config : ContainerConfig) :
    Adds (fun b new => b = true → NetworkDone config new) (configureNetwork config) := by
  unfold configureNetwork
  split
  · rename_i name ip hname hip
    refine (containerNetwork_adds config name ip).mono fun b new h hb name' ip' hn hi => ?_
    obtain rfl : name = name' := Option.some.inj (hname.symm.trans hn)
    obtain rfl : ip = ip' := Option.some.inj (hip.symm.trans hi)
    exact h hb
  · rename_i hoff
    exact .pure fun _ name ip hn hi => absurd hi (hoff name ip hn)

/-- `user_namespace_init` returns 0 only after the parent's 0 was read. -/
theorem userNamespaceInit_adds (config : ContainerConfig) :
    Adds (fun r new => ¬ r < 0 → IdMapped config new)
      (userNamespaceInit config.uid config.fd) := by
  have hfail : ∀ {Q : List SysEvent → Prop},
      Adds (fun (r : Int) new => ¬ r < 0 → Q new) (pure (-1)) := .pure fun h => absurd (by decide) h
  refine .call fun r => ?_
  cases r with
  | error e => exact hfail
  | ok u =>
  refine .call fun r => ?_
  cases r with
  | error e => exact hfail
  | ok n =>
  dsimp only
  split
  · exact hfail
  refine .call fun r => ?_
  cases r with
  | error e => exact hfail
  | ok result =>
  dsimp only
  split
  · exact hfail
  split
  · exact hfail
  rename_i hzero
  obtain rfl := Decidable.not_not.mp hzero
  refine .call fun r => ?_
  cases r with
  | error e => exact hfail
  | ok u =>
  refine .call fun r => ?_
  cases r with
  | error e => exact hfail
  | ok u => exact .call fun _ => .pure fun _ => by simp [IdMapped]

/-! ## The whole start -/

/-- What is shown where `execve` is called. -/
def AtExecve (config : ContainerConfig) (h : List SysEvent) (c : Call) : Prop :=
  c.area = .execve → (Mandatory config h ↔ ∀ e ∈ h, SecFailed e = false)

/-- A part of the start that does not call `execve`. -/
theorem Adds.quiet {α : Type} {Q : α → List SysEvent → Prop} {p : Sys α} {S : List Area}
    (h : Adds Q p) (hp : p.Only fun c => c.area ∈ S) (hS : Area.execve ∉ S)
    (config : ContainerConfig) (hist : List SysEvent) :
    wp (Machine.history.guard (AtExecve config)) p (fun a h' => ∃ new, h' = hist ++ new ∧ Q a new)
      hist :=
  wp_guard (h hist) hp fun _ _ hc hex => absurd (hex ▸ hc) hS

theorem closeFd_quiet (config : ContainerConfig) (fd : Int) (h : List SysEvent) :
    wp (Machine.history.guard (AtExecve config)) (closeFd fd) (fun _ _ => True) h :=
  ⟨fun hex => (nomatch hex), fun _ _ _ => trivial⟩

theorem containerFail_quiet (config : ContainerConfig) (fdClosed : Bool) (h : List SysEvent) :
    wp (Machine.history.guard (AtExecve config)) (containerFail config fdClosed)
      (fun _ _ => True) h := by
  unfold containerFail
  split
  · exact wp_seq (closeFd_quiet config config.fd h) fun _ _ _ => trivial
  · trivial

/-- The areas of the calls before `sec.c`. -/
def startAreas : List Area := .mount :: .file :: .identity :: netAreas

/-- What the start has done before it restricts itself. -/
structure Ready (config : ContainerConfig) (h : List SysEvent) : Prop where
  areas : ∀ e ∈ h, e.1.area ∈ startAreas
  root : RootSwitched h
  network : NetworkDone config h

theorem RootSwitched.mono {h h' : List SysEvent} (hr : RootSwitched h) (hsub : h ⊆ h') :
    RootSwitched h' := by
  obtain ⟨a, b, h₁, h₂, h₃⟩ := hr
  exact ⟨a, b, hsub h₁, hsub h₂, hsub h₃⟩

theorem NetworkDone.mono {config : ContainerConfig} {h h' : List SysEvent}
    (hn : NetworkDone config h) (hsub : h ⊆ h') : NetworkDone config h' := by
  intro name ip hname hip
  obtain ⟨h₁, h₂, h₃⟩ := hn name ip hname hip
  exact ⟨fun tmp ht => hsub (h₁ tmp ht), hsub h₂, hsub h₃⟩

theorem capSteps_area : ∀ e ∈ capSteps, e.1.area = .caps := by decide

theorem filterSteps_area : ∀ e ∈ filterSteps, e.1.area = .filter := by decide

/-- Only calls of `sec.c` count as failed. -/
theorem SecFailed.area {e : SysEvent} (h : SecFailed e = true) :
    e.1.area = .caps ∨ e.1.area = .filter := by
  obtain ⟨c, r⟩ := e
  cases c <;> first | exact .inl rfl | exact .inr rfl | exact nomatch h

/-- The event is not a call of `sec.c`. -/
def Other (e : SysEvent) : Prop := e.1.area ≠ .caps ∧ e.1.area ≠ .filter

theorem Other.ok {e : SysEvent} (h : Other e) : SecFailed e = false := by
  cases hf : SecFailed e with
  | false => rfl
  | true => exact (SecFailed.area hf).elim (fun hc => absurd hc h.1) fun hc => absurd hc h.2

theorem Other.of_start {e : SysEvent} (h : e.1.area ∈ startAreas) : Other e := by
  refine ⟨fun hc => ?_, fun hc => ?_⟩
  · rw [hc] at h
    exact absurd h (by decide)
  · rw [hc] at h
    exact absurd h (by decide)

theorem Other.of_mark {e : SysEvent} (h : e.1.area = .mark) : Other e := by
  constructor
  · rw [h]
    decide
  · rw [h]
    decide

/-- With everything else done, the mandatory steps are done at `execve` iff
nothing of `sec.c` failed. -/
theorem mandatory_iff {config : ContainerConfig} {pre caps mid filter post : List SysEvent}
    (hpre : ∀ e ∈ pre, Other e) (hmid : ∀ e ∈ mid, Other e) (hpost : ∀ e ∈ post, Other e)
    (hcaps : AllOrFail capSteps caps) (hcapsArea : ∀ e ∈ caps, e.1.area = .caps)
    (hfilter : AllOrFail filterSteps filter) (hfilterArea : ∀ e ∈ filter, e.1.area = .filter)
    (hroot : RootSwitched (pre ++ (caps ++ (mid ++ (filter ++ post)))))
    (hnet : NetworkDone config (pre ++ (caps ++ (mid ++ (filter ++ post)))))
    (hid : IdMapped config (pre ++ (caps ++ (mid ++ (filter ++ post)))))
    (hclose : (pre ++ (caps ++ (mid ++ (filter ++ post)))).getLast? =
      some ⟨.close config.fd, .ok ()⟩) :
    Mandatory config (pre ++ (caps ++ (mid ++ (filter ++ post)))) ↔
      ∀ e ∈ pre ++ (caps ++ (mid ++ (filter ++ post))), SecFailed e = false := by
  have hcapsMem : (∀ e ∈ capSteps, e ∈ pre ++ (caps ++ (mid ++ (filter ++ post)))) ↔
      ∀ e ∈ capSteps, e ∈ caps := by
    refine forall₂_congr fun e he => ?_
    have harea := capSteps_area e he
    simp only [List.mem_append]
    refine ⟨?_, fun h => .inr (.inl h)⟩
    rintro (h | h | h | h | h)
    · exact absurd harea (hpre e h).1
    · exact h
    · exact absurd harea (hmid e h).1
    · exact absurd (harea.symm.trans (hfilterArea e h)) (by decide)
    · exact absurd harea (hpost e h).1
  have hfilterMem : (∀ e ∈ filterSteps, e ∈ pre ++ (caps ++ (mid ++ (filter ++ post)))) ↔
      ∀ e ∈ filterSteps, e ∈ filter := by
    refine forall₂_congr fun e he => ?_
    have harea := filterSteps_area e he
    simp only [List.mem_append]
    refine ⟨?_, fun h => .inr (.inr (.inr (.inl h)))⟩
    rintro (h | h | h | h | h)
    · exact absurd harea (hpre e h).2
    · exact absurd (harea.symm.trans (hcapsArea e h)) (by decide)
    · exact absurd harea (hmid e h).2
    · exact h
    · exact absurd harea (hpost e h).2
  have hnone : (∀ e ∈ pre ++ (caps ++ (mid ++ (filter ++ post))), SecFailed e = false) ↔
      (∀ e ∈ caps, SecFailed e = false) ∧ ∀ e ∈ filter, SecFailed e = false := by
    simp only [List.mem_append]
    refine ⟨fun h => ⟨fun e he => h e (.inr (.inl he)),
      fun e he => h e (.inr (.inr (.inr (.inl he))))⟩, ?_⟩
    rintro ⟨hc, hf⟩ e (h | h | h | h | h)
    · exact (hpre e h).ok
    · exact hc e h
    · exact (hmid e h).ok
    · exact hf e h
    · exact (hpost e h).ok
  rw [hnone, ← hcaps.iff_noFailure, ← hfilter.iff_noFailure, ← hcapsMem, ← hfilterMem]
  exact ⟨fun h => ⟨h.capsDropped, h.filterLoaded⟩, fun h => ⟨hroot, hnet, hid, h.1, h.2, hclose⟩⟩

/-- A function of the program, between its marks. -/
theorem invoke_adds_of {f : Fn} {body : Sys Int} {Q : Int → List SysEvent → Prop}
    (h : Adds Q body) :
    Adds (fun r new => ∃ inner, new = ⟨.enter f, ()⟩ :: (inner ++ [⟨.leave f r, ()⟩]) ∧ Q r inner)
      (invoke f body) :=
  .call fun _ => .bind h fun _ inner hr => .call fun _ => .pure ⟨inner, rfl, hr⟩

theorem invoke_only {f : Fn} {body : Sys Int} {S T : List Area} (hf : f.area ∈ T)
    (h : body.Only fun c => c.area ∈ S) (hST : ∀ a ∈ S, a ∈ T) :
    (invoke f body).Only fun c => c.area ∈ T :=
  ⟨hf, fun _ => (h.mono fun _ hc => hST _ hc).bind fun _ => ⟨hf, fun _ => trivial⟩⟩

theorem mem_startAreas_of_user : ∀ {a : Area}, a ∈ userAreas → a ∈ startAreas := by decide

/-- `mandatory_iff` for the history of a start that stands at `execve`. -/
theorem atExecve {config : ContainerConfig} {h user caps filter : List SysEvent} {r r₁ r₂ : Int}
    (hready : Ready config h) (hid : IdMapped config user)
    (huser : ∀ e ∈ user, e.1.area ∈ startAreas)
    (hcaps : AllOrFail capSteps caps) (hcapsArea : ∀ e ∈ caps, e.1.area ∈ [Area.caps])
    (hfilter : AllOrFail filterSteps filter)
    (hfilterArea : ∀ e ∈ filter, e.1.area ∈ [Area.filter]) :
    let hist := h ++ ⟨.enter (.userNamespaceInit config.uid config.fd), ()⟩ ::
      (user ++ [⟨.leave (.userNamespaceInit config.uid config.fd) r, ()⟩]) ++
      ⟨.enter .secSetCaps, ()⟩ :: (caps ++ [⟨.leave .secSetCaps r₁, ()⟩]) ++
      ⟨.enter .secSetSeccomp, ()⟩ :: (filter ++ [⟨.leave .secSetSeccomp r₂, ()⟩]) ++
      [⟨.close config.fd, .ok ()⟩]
    Mandatory config hist ↔ ∀ e ∈ hist, SecFailed e = false := by
  intro hist
  have hsplit : hist = (h ++ (⟨.enter (.userNamespaceInit config.uid config.fd), ()⟩ ::
        (user ++ [⟨.leave (.userNamespaceInit config.uid config.fd) r, ()⟩,
          ⟨.enter .secSetCaps, ()⟩]))) ++
      (caps ++ ([⟨.leave .secSetCaps r₁, ()⟩, ⟨.enter .secSetSeccomp, ()⟩] ++
      (filter ++ [⟨.leave .secSetSeccomp r₂, ()⟩, ⟨.close config.fd, .ok ()⟩]))) := by
    simp [hist]
  rw [hsplit]
  refine mandatory_iff ?_ ?_ ?_ hcaps (fun e he => List.mem_singleton.mp (hcapsArea e he))
    hfilter (fun e he => List.mem_singleton.mp (hfilterArea e he)) ?_ ?_ ?_ ?_
  · simp only [List.mem_append, List.mem_cons, List.not_mem_nil, or_false]
    rintro e (he | rfl | he | rfl | rfl)
    · exact .of_start (hready.areas e he)
    · exact .of_mark rfl
    · exact .of_start (huser e he)
    · exact .of_mark rfl
    · exact .of_mark rfl
  · simp only [List.mem_cons, List.not_mem_nil, or_false]
    rintro e (rfl | rfl)
    · exact .of_mark rfl
    · exact .of_mark rfl
  · simp only [List.mem_cons, List.not_mem_nil, or_false]
    rintro e (rfl | rfl)
    · exact .of_mark rfl
    · exact ⟨by simp [Call.area], by simp [Call.area]⟩
  · rw [List.append_assoc]
    exact hready.root.mono (List.subset_append_left h _)
  · rw [List.append_assoc]
    exact hready.network.mono (List.subset_append_left h _)
  · simp only [IdMapped, List.mem_append, List.mem_cons]
    exact .inl (.inr (.inr (.inl hid)))
  · rw [← hsplit]
    exact List.getLast?_concat

/-- The rest of the start, once it is ready to restrict itself. -/
theorem containerExec_quiet (config : ContainerConfig) (h : List SysEvent)
    (hready : Ready config h) :
    wp (Machine.history.guard (AtExecve config)) (containerExec config) (fun _ _ => True) h := by
  have huser := invoke_adds_of (f := .userNamespaceInit config.uid config.fd)
    ((userNamespaceInit_uses config.uid config.fd).adds.and (userNamespaceInit_adds config))
  refine wp_seq (huser.quiet (S := .mark :: userAreas)
    (invoke_only List.mem_cons_self (userNamespaceInit_uses _ _).only
      fun _ => List.mem_cons_of_mem _) (by decide) config h) ?_
  rintro r _ ⟨_, rfl, user, rfl, ⟨huserArea, -⟩, hid⟩
  split
  · exact containerFail_quiet config false _
  rename_i hr
  have hcaps := invoke_adds_of (f := .secSetCaps) (secSetCaps_adds.and secSetCaps_tidy.adds)
  refine wp_seq (hcaps.quiet (S := [.mark, .caps])
    (invoke_only (by decide) secSetCaps_tidy.only (by decide)) (by decide) config _) ?_
  rintro r₁ _ ⟨_, rfl, caps, rfl, hcapsAll, hcapsArea, -⟩
  split
  · exact containerFail_quiet config false _
  have hfilter := invoke_adds_of (f := .secSetSeccomp)
    (secSetSeccomp_adds.and secSetSeccomp_tidy.adds)
  refine wp_seq (hfilter.quiet (S := [.mark, .filter])
    (invoke_only (by decide) secSetSeccomp_tidy.only (by decide)) (by decide) config _) ?_
  rintro r₂ _ ⟨_, rfl, filter, rfl, hfilterAll, hfilterArea, -⟩
  split
  · exact containerFail_quiet config false _
  refine ⟨fun hex => (nomatch hex), fun r₃ h₃ hs₃ => ?_⟩
  cases r₃ with
  | error e => exact containerFail_quiet config false _
  | ok u =>
    refine ⟨fun _ => ?_, fun r₄ h₄ _ => ?_⟩
    · rw [hs₃]
      refine atExecve hready (hid hr) ?_ hcapsAll hcapsArea hfilterAll hfilterArea
      exact fun e he => mem_startAreas_of_user (huserArea e he)
    · cases r₄ with
      | error e => exact containerFail_quiet config true _
      | ok v => trivial

theorem Ready.append {config : ContainerConfig} {h new : List SysEvent} (hr : Ready config h)
    (hnew : ∀ e ∈ new, e.1.area ∈ startAreas) : Ready config (h ++ new) where
  areas e he := (List.mem_append.mp he).elim (hr.areas e) (hnew e)
  root := hr.root.mono (List.subset_append_left h new)
  network := hr.network.mono (List.subset_append_left h new)

theorem mem_startAreas_of_file : ∀ {a : Area}, a ∈ fileAreas → a ∈ startAreas := by decide

theorem mem_startAreas_of_net : ∀ {a : Area}, a ∈ netAreas → a ∈ startAreas := by decide

theorem mem_startAreas_of_mount : ∀ {a : Area}, a ∈ [Area.mount] → a ∈ startAreas := by decide

/-- In every run of the start, what `AtExecve` says holds at `execve`. -/
theorem containerStart_quiet (config : ContainerConfig) :
    wp (Machine.history.guard (AtExecve config)) (containerStart config) (fun _ _ => True) [] := by
  refine wp_seq ((containerHostname_tidy config).adds.quiet (containerHostname_tidy config).only
    (by decide) config []) ?_
  rintro named _ ⟨host, rfl, hhost, -⟩
  split
  · exact containerFail_quiet config false _
  have hmount := invoke_adds_of (f := .mountSet config.mnt)
    ((mountSet_tidy config.mnt).adds.and (mountSet_adds config.mnt))
  refine wp_seq (hmount.quiet (S := [.mark, .mount])
    (invoke_only List.mem_cons_self (mountSet_tidy config.mnt).only
      fun _ => List.mem_cons_of_mem _) (by decide) config _) ?_
  rintro r _ ⟨_, rfl, mount, rfl, ⟨hmountArea, hstatus⟩, hroot⟩
  split
  · exact containerFail_quiet config false _
  rename_i hr
  have hnetwork := (configureNetwork_tidy config).adds.and (configureNetwork_adds config)
  refine wp_seq (hnetwork.quiet (configureNetwork_tidy config).only (by decide) config _) ?_
  rintro configured _ ⟨net, rfl, ⟨hnetArea, -⟩, hnet⟩
  split
  · exact containerFail_quiet config false _
  rename_i hconfigured
  refine wp_seq ((configureDns_tidy config).adds.quiet (configureDns_tidy config).only
    (by decide) config _) ?_
  rintro _ _ ⟨dns, rfl, hdns, -⟩
  refine wp_seq (enablePingDgram_tidy.adds.quiet enablePingDgram_tidy.only (by decide) config _) ?_
  rintro _ _ ⟨ping, rfl, hping, -⟩
  refine containerExec_quiet config _ (Ready.append (Ready.append ?_ ?_) ?_)
  · refine ⟨?_, ?_, ?_⟩
    · simp only [List.mem_append, List.mem_cons, List.not_mem_nil, or_false]
      rintro e ((he | rfl | he | rfl) | he)
      · exact mem_startAreas_of_mount (hhost e he)
      · exact mem_startAreas_of_net net_mark
      · exact mem_startAreas_of_mount (hmountArea e he)
      · exact mem_startAreas_of_net net_mark
      · exact mem_startAreas_of_net (hnetArea e he)
    · refine (hroot (hstatus.eq_zero hr)).mono fun e he => ?_
      simp [he]
    · exact (hnet (by simpa using hconfigured)).mono (List.subset_append_right _ net)
  · exact fun e he => mem_startAreas_of_file (hdns e he)
  · exact fun e he => mem_startAreas_of_file (hping e he)

/-- Wherever a run of `container_start` stands at `execve`: the mandatory steps
are all done iff no call of `sec_set_caps` or `sec_set_seccomp` failed. -/
theorem start_mandatory_iff (config : ContainerConfig) {path : CStr} {argv : List CStr}
    {k : Res Unit → Sys Int} {h : List SysEvent}
    (hrun : Run Machine.history (containerStart config) [] (.call (.execve path argv) k) h) :
    Mandatory config h ↔ ∀ e ∈ h, SecFailed e = false :=
  run_call (containerStart_quiet config) hrun rfl

/-! ## Two starts -/

/-- `barco -u 0 -m /rootfs -c /bin/sh`: a container without networking. -/
def plainConfig : ContainerConfig where
  uid := 0
  fd := 4
  hostname := some barcontainer
  cmd := webArgs.cmd
  arg := none
  mnt := webArgs.mnt
  vethName := none
  vethPeer := none
  vethTmp := none
  containerIp := none
  hostIp := none
  dnsServer := some defaultDns
  enableNat := false

/-- Everything succeeds, up to `execve`. -/
def startGranted : (c : Call) → Option (Answer c)
  | .execve _ _ => none
  | c => granted c

/-- Everything but `prctl` succeeds, up to `execve`. -/
def startDenied : (c : Call) → Option (Answer c)
  | .prctlCapbsetDrop _ => some (.error EPERM)
  | c => startGranted c

/-- Write down an answered call. -/
def record (h : List SysEvent) (c : Call) (r : Answer c) : List SysEvent := h ++ [⟨c, r⟩]

/-- A history in which no `prctl` succeeded. -/
def noDrop (h : List SysEvent) : Bool :=
  h.all fun e => match e.1, e.2 with
    | .prctlCapbsetDrop _, .ok _ => false
    | _, _ => true

/-- The first `prctl` fails, `sec_set_caps` returns 1, and the start goes on to
`execve` with no capability dropped. -/
theorem start_without_caps :
    ∃ (k : Res Unit → Sys Int) (h : List SysEvent),
      Run Machine.history (containerStart plainConfig) []
        (.call (.execve plainConfig.cmd [plainConfig.cmd]) k) h ∧
      ¬ Mandatory plainConfig h := by
  refine ⟨_, ((containerStart plainConfig).play (fun _ => startDenied) record []).2,
    run_play (fun _ => startDenied) record (fun _ _ _ _ => rfl) rfl, fun hm => ?_⟩
  have hnone : noDrop ((containerStart plainConfig).play (fun _ => startDenied) record []).2 = true :=
    rfl
  have hdrop := hm.capsDropped (dropEvent .auditControl)
    (List.mem_append_left _ (List.mem_map_of_mem (by decide)))
  exact absurd (List.all_eq_true.mp hnone _ hdrop) (by decide)

/-- A start in which everything succeeds. -/
theorem start_mandatory_granted :
    Mandatory plainConfig
        ((containerStart plainConfig).play (fun _ => startGranted) record []).2 ↔
      ∀ e ∈ ((containerStart plainConfig).play (fun _ => startGranted) record []).2,
        SecFailed e = false :=
  start_mandatory_iff plainConfig
    (run_play (fun _ => startGranted) record (fun _ _ _ _ => rfl) rfl)

end Barco
