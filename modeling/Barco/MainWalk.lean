import Barco.ParentDescriptors

/-!
# A walk through `main`

`main` sets up a few resources one after the other and releases them in
`cleanup`, from wherever it comes. `Walk M J` collects what has to be checked
about a resource: that each operation of `main` keeps the invariant `J`, which
may depend on the stage of the cleanup and on the locals that decide what is
released. `Walk.main` then gives the invariant for all of `main`.

A module about one resource fills in the few operations that touch it.
-/

namespace Barco

open Effect Prog

/-- How far `main` has come in releasing what it holds. -/
inductive Stage
  | running | natReleased | vethReleased | finished
deriving DecidableEq, Repr

/-- The states differ in nothing that decides what is released. -/
structure Agree (st st' : MainState) : Prop where
  config : ∃ fd, st'.config = { st.config with fd := fd }
  vethCreated : st'.vethCreated = st.vethCreated
  natApplied : st'.natApplied = st.natApplied
  hostIf : st'.hostIf = st.hostIf

/-- The areas that belong to no resource of `cleanup` but the sockets. -/
def quietAreas : List Area := [.libc, .process, .sockets, .descriptor, .file, .idMap, .stuck]

variable {L : Type}

/-- Every operation of `main` keeps the invariant `J`. -/
structure Walk (M : Machine Call Answer L) (J : Stage → MainState → L → Prop) : Prop where
  agree : ∀ {stage st st' ℓ}, Agree st st' → J stage st ℓ → J stage st' ℓ
  quiet : ∀ {stage st ℓ c}, J stage st ℓ → c.area ∈ quietAreas →
    M.may ℓ c ∧ ∀ r ℓ', M.step ℓ c r ℓ' → J stage st ℓ'
  delLink : ∀ {st ℓ ifname}, J .running st ℓ → st.vethCreated = false →
    st.config.vethTmp = some ifname ∨ st.config.vethPeer = some ifname →
    wp M (invoke (.nlDelLink ifname) (nlDelLink ifname)) (fun _ => J .running st) ℓ
  createVeth : ∀ {st ℓ tmp peer}, J .running st ℓ → st.vethCreated = false →
    st.config.vethTmp = some tmp → st.config.vethPeer = some peer →
    wp M (invoke (.nlCreateVeth tmp peer) (nlCreateVeth tmp peer))
      (fun r => J .running (if r < 0 then st else { st with vethCreated := true })) ℓ
  addAddr : ∀ {st ℓ peer ip}, J .running st ℓ → st.config.vethPeer = some peer →
    wp M (invoke (.nlAddAddr peer ip) (nlAddAddr peer ip)) (fun _ => J .running st) ℓ
  setUp : ∀ {st ℓ peer}, J .running st ℓ → st.config.vethPeer = some peer →
    wp M (invoke (.nlSetUp peer) (nlSetUp peer)) (fun _ => J .running st) ℓ
  setHostIf : ∀ {st ℓ} hostIf, J .running st ℓ → st.natApplied = false →
    J .running { st with hostIf := hostIf } ℓ
  setupNat : ∀ {st ℓ ip}, J .running st ℓ → st.natApplied = false →
    st.config.containerIp = some ip → 0 < st.hostIf.1.length →
    wp M (invoke (.setupNat (setupSubnet ip) st.hostIf) (setupNat (setupSubnet ip) st.hostIf))
      (fun r => J .running (if r < 0 then st else { st with natApplied := true })) ℓ
  moveToNs : ∀ {st ℓ tmp nsFd}, J .running st ℓ → st.config.vethTmp = some tmp →
    wp M (invoke (.nlMoveToNs tmp nsFd) (nlMoveToNs tmp nsFd)) (fun _ => J .running st) ℓ
  cgroupsInit : ∀ {st ℓ hostname pid}, J .running st ℓ → st.config.hostname = some hostname →
    wp M (invoke (.cgroupsInit hostname pid) (cgroupsInit hostname pid)) (fun _ => J .running st) ℓ
  prepareMappings : ∀ {st ℓ pid fd}, J .running st ℓ →
    wp M (invoke (.prepareMappings pid fd) (prepareMappings pid fd)) (fun _ => J .running st) ℓ
  cleanupNat : ∀ {st ℓ ip}, J .running st ℓ → st.natApplied = true →
    st.config.containerIp = some ip →
    wp M (invoke (.cleanupNat (cleanupSubnet ip) st.hostIf) (cleanupNat (cleanupSubnet ip) st.hostIf))
      (fun _ => J .natReleased st) ℓ
  keepNat : ∀ {st ℓ}, J .running st ℓ →
    st.natApplied = false ∨ st.config.containerIp = none ∨ st.hostIf.1.length = 0 →
    J .natReleased st ℓ
  delPeer : ∀ {st ℓ peer}, J .natReleased st ℓ → st.vethCreated = true →
    st.config.vethPeer = some peer →
    wp M (invoke (.nlDelLink peer) (nlDelLink peer)) (fun _ => J .vethReleased st) ℓ
  keepVeth : ∀ {st ℓ}, J .natReleased st ℓ → st.vethCreated = false ∨ st.config.vethPeer = none →
    J .vethReleased st ℓ
  cgroupsFree : ∀ {st ℓ hostname}, J .vethReleased st ℓ → st.config.hostname = some hostname →
    wp M (invoke (.cgroupsFree hostname) (cgroupsFree hostname)) (fun _ => J .finished st) ℓ
  keepCgroup : ∀ {st ℓ}, J .vethReleased st ℓ → st.config.hostname = none → J .finished st ℓ

namespace Agree

theorem refl (st : MainState) : Agree st st := ⟨⟨st.config.fd, rfl⟩, rfl, rfl, rfl⟩

theorem trans {st st' st'' : MainState} (h : Agree st st') (h' : Agree st' st'') :
    Agree st st'' := by
  obtain ⟨fd, hfd⟩ := h.config
  obtain ⟨fd', hfd'⟩ := h'.config
  exact ⟨⟨fd', by rw [hfd', hfd]⟩, h'.vethCreated.trans h.vethCreated,
    h'.natApplied.trans h.natApplied, h'.hostIf.trans h.hostIf⟩

theorem fail (st : MainState) : Agree st st.fail := ⟨⟨st.config.fd, rfl⟩, rfl, rfl, rfl⟩

theorem vethTmp {st st' : MainState} (h : Agree st st') : st'.config.vethTmp = st.config.vethTmp := by
  obtain ⟨fd, hfd⟩ := h.config
  rw [hfd]

end Agree

namespace Walk

variable {M : Machine Call Answer L} {J : Stage → MainState → L → Prop} {st : MainState} {ℓ : L}
  {stage : Stage}

/-- A function with a quiet footprint keeps the invariant. -/
theorem only (w : Walk M J) {α : Type} {p : Sys α} (hp : p.Only fun c => c.area ∈ quietAreas)
    (hJ : J stage st ℓ) : wp M p (fun _ => J stage st) ℓ :=
  wp_of_only hp (fun _ _ hc h => w.quiet h hc) hJ

theorem tidy (w : Walk M J) {α : Type} {S : List Area} {P : α → Prop} {p : Sys α}
    (hp : Tidy S P p) (hS : ∀ a ∈ S, a ∈ quietAreas) (hJ : J stage st ℓ) :
    wp M p (fun _ => J stage st) ℓ :=
  w.only (hp.only.mono fun _ hc => hS _ hc) hJ

/-- The same with what is known about the result. -/
theorem tidyWith (w : Walk M J) {α : Type} {S : List Area} {P : α → Prop} {p : Sys α}
    (hp : Tidy S P p) (hS : ∀ a ∈ S, a ∈ quietAreas) (hJ : J stage st ℓ) :
    wp M p (fun a ℓ' => J stage st ℓ' ∧ P a) ℓ :=
  wp_returns (w.tidy hp hS hJ) hp.returns

/-- One quiet call. -/
theorem call (w : Walk M J) {β : Type} {c : Call} {k : Answer c → Sys β} {Q : β → L → Prop}
    (hc : c.area ∈ quietAreas) (hJ : J stage st ℓ)
    (hk : ∀ r ℓ', J stage st ℓ' → wp M (k r) Q ℓ') : wp M (sys c >>= k) Q ℓ := by
  obtain ⟨hm, hs⟩ := w.quiet hJ hc
  exact ⟨hm, fun r ℓ' h => hk r ℓ' (hs r ℓ' h)⟩

theorem closeFd (w : Walk M J) {β : Type} {fd : Int} {k : Unit → Sys β} {Q : β → L → Prop}
    (hJ : J stage st ℓ) (hk : ∀ ℓ', J stage st ℓ' → wp M (k ()) Q ℓ') :
    wp M (closeFd fd >>= k) Q ℓ :=
  w.call (c := .close fd) (by simp [Call.area, quietAreas]) hJ fun _ => hk

/-! ## Cleanup -/

theorem releaseNat (w : Walk M J) (hJ : J .running st ℓ) :
    wp M (releaseNat st) (fun _ => J .natReleased st) ℓ := by
  unfold Barco.releaseNat
  split
  · rename_i ip hnat hip
    split
    · exact wp_seq (w.cleanupNat hJ hnat hip) fun _ _ h => h
    · rename_i hlen
      exact w.keepNat hJ (.inr (.inr (by omega)))
  · rename_i hno
    refine w.keepNat hJ ?_
    cases hnat : st.natApplied with
    | false => exact .inl rfl
    | true =>
      cases hip : st.config.containerIp with
      | none => exact .inr (.inl rfl)
      | some ip => exact absurd hip (hno ip hnat)

theorem releaseVeth (w : Walk M J) (hJ : J .natReleased st ℓ) :
    wp M (releaseVeth st) (fun _ => J .vethReleased st) ℓ := by
  unfold Barco.releaseVeth
  split
  · rename_i peer hcreated hpeer
    exact wp_seq (w.delPeer hJ hcreated hpeer) fun _ _ h => h
  · rename_i hno
    refine w.keepVeth hJ ?_
    cases hcreated : st.vethCreated with
    | false => exact .inl rfl
    | true =>
      cases hpeer : st.config.vethPeer with
      | none => exact .inr rfl
      | some peer => exact absurd hpeer (hno peer hcreated)

theorem closeSocket (w : Walk M J) (fd : Int) (hJ : J stage st ℓ) :
    wp M (closeSocket fd) (fun _ => J stage st) ℓ := by
  unfold Barco.closeSocket
  split
  · exact w.call (c := .close fd) (by simp [Call.area, quietAreas]) hJ fun _ _ h => h
  · exact hJ

theorem releaseCgroup (w : Walk M J) (hJ : J .vethReleased st ℓ) :
    wp M (releaseCgroup st) (fun _ => J .finished st) ℓ := by
  unfold Barco.releaseCgroup
  cases hhost : st.config.hostname with
  | none => exact w.keepCgroup hJ hhost
  | some hostname => exact wp_seq (w.cgroupsFree hJ hhost) fun _ _ h => h

theorem cleanup (w : Walk M J) (hJ : J .running st ℓ) :
    wp M (cleanup st) (fun _ ℓ' => ∃ st', J .finished st' ℓ') ℓ := by
  refine wp_seq (w.releaseNat hJ) fun _ _ h₁ => ?_
  refine wp_seq (w.releaseVeth h₁) fun _ _ h₂ => ?_
  refine wp_seq (w.closeSocket _ h₂) fun _ _ h₃ => ?_
  refine wp_seq (w.closeSocket _ h₃) fun _ _ h₄ => ?_
  exact wp_seq (w.releaseCgroup h₄) fun _ _ h₅ => ⟨st, h₅⟩

/-! ## Sockets and the host network -/

/-- The invariant holds of whichever state a section leaves behind. -/
def Leaves (J : Stage → MainState → L → Prop) (P : MainState → Prop) :
    Except MainState MainState → L → Prop
  | .ok st, ℓ => J .running st ℓ ∧ P st
  | .error st, ℓ => J .running st ℓ

theorem openSockets (w : Walk M J) (hJ : J .running st ℓ) :
    wp M (openSockets st) (Leaves J fun st' => Agree st st') ℓ := by
  refine w.call (c := .geteuid) (by decide) hJ fun _ ℓ₁ h₁ => ?_
  refine w.call (c := .socketpair) (by decide) h₁ fun r ℓ₂ h₂ => ?_
  cases r with
  | error e => exact w.agree (.fail st) h₂
  | ok ab =>
    have ha : Agree st { st with sockets := ((ab.1 : Int), (ab.2 : Int)) } :=
      ⟨⟨st.config.fd, rfl⟩, rfl, rfl, rfl⟩
    refine w.call (c := .fcntlCloexec ab.1) (by simp [Call.area, quietAreas]) h₂ fun r ℓ₃ h₃ => ?_
    cases r with
    | error e => exact w.agree (ha.trans (.fail _)) h₃
    | ok u =>
      have hb : Agree st { st with
          sockets := ((ab.1 : Int), (ab.2 : Int)), config := { st.config with fd := ab.2 } } :=
        ⟨⟨ab.2, rfl⟩, rfl, rfl, rfl⟩
      refine w.call (c := .malloc) (by decide) h₃ fun b ℓ₄ h₄ => ?_
      cases b with
      | false => exact w.agree (hb.trans (.fail _)) h₄
      | true =>
        have hc : Agree st { st with
            sockets := ((ab.1 : Int), (ab.2 : Int)), config := { st.config with fd := ab.2 },
            stack := true } := ⟨⟨ab.2, rfl⟩, rfl, rfl, rfl⟩
        exact ⟨w.agree hc h₄, hc⟩

theorem configurePeer (w : Walk M J) {peer : CStr} (hostIp : Option CStr) (hJ : J .running st ℓ)
    (hpeer : st.config.vethPeer = some peer) :
    wp M (configurePeer peer hostIp) (fun _ => J .running st) ℓ := by
  refine wp_seq (Q := fun _ => J .running st) ?_ fun _ ℓ₁ h₁ => ?_
  · cases hostIp with
    | none => exact hJ
    | some ip => exact wp_seq (w.addAddr hJ hpeer) fun _ _ h => h
  · refine wp_seq (w.setUp h₁ hpeer) fun _ ℓ₂ h₂ => ?_
    show wp M (if hostIp.isSome then _ else _) _ _
    split
    · exact wp_seq (w.tidy enableIpForward_tidy (by decide) h₂) fun _ _ h => h
    · exact h₂

theorem length_getD_pos {detected : Option CStr} (h : Detected detected) :
    0 < (detected.getD eth0).1.length := by
  cases detected with
  | none => decide
  | some name => exact h name rfl

theorem applyNat (w : Walk M J) {ip : CStr} (hJ : J .running st ℓ) (hnat : st.natApplied = false)
    (hip : st.config.containerIp = some ip) :
    wp M (applyNat st ip) (fun st' ℓ' => J .running st' ℓ' ∧ st'.config = st.config ∧
      st'.vethCreated = st.vethCreated) ℓ := by
  refine wp_seq (Q := fun d ℓ' => J .running st ℓ' ∧ Detected d) ?_ ?_
  · exact w.tidyWith detectHostInterface_tidy (by decide) hJ
  · rintro detected ℓ₁ ⟨h₁, hd⟩
    have hJ₁ := w.setHostIf (detected.getD eth0) h₁ hnat
    refine wp_seq (w.setupNat hJ₁ hnat hip (length_getD_pos hd)) fun r ℓ₂ h₂ => ?_
    split
    · rename_i hr
      rw [if_pos hr] at h₂
      exact ⟨h₂, rfl, rfl⟩
    · rename_i hr
      rw [if_neg hr] at h₂
      exact ⟨h₂, rfl, rfl⟩

theorem hostNetworkOn (w : Walk M J) {ip tmp peer : CStr} (hJ : J .running st ℓ)
    (hcreated : st.vethCreated = false) (hnat : st.natApplied = false)
    (hip : st.config.containerIp = some ip) (htmp : st.config.vethTmp = some tmp)
    (hpeer : st.config.vethPeer = some peer) :
    wp M (hostNetworkOn st ip tmp peer) (Leaves J fun st' => st'.config = st.config) ℓ := by
  refine wp_seq (w.delLink hJ hcreated (.inl htmp)) fun _ ℓ₁ h₁ => ?_
  refine wp_seq (w.delLink h₁ hcreated (.inr hpeer)) fun _ ℓ₂ h₂ => ?_
  refine wp_seq (w.createVeth h₂ hcreated htmp hpeer) fun r ℓ₃ h₃ => ?_
  split
  · rename_i hr
    rw [if_pos hr] at h₃
    exact w.agree (.fail st) h₃
  · rename_i hr
    rw [if_neg hr] at h₃
    refine wp_seq (w.configurePeer _ h₃ hpeer) fun _ ℓ₄ h₄ => ?_
    split
    · exact wp_seq (w.applyNat h₄ hnat hip) fun st' _ h => ⟨h.1, h.2.1⟩
    · exact ⟨h₄, rfl⟩

theorem overrun (w : Walk M J) {α : Type} {Q : α → L → Prop} (hJ : J stage st ℓ) :
    wp M (overrun : Sys α) Q ℓ :=
  ⟨(w.quiet (c := .undefined) hJ (by decide)).1, fun r => nomatch r⟩

theorem hostNetwork (w : Walk M J) (hJ : J .running st ℓ) (hcreated : st.vethCreated = false)
    (hnat : st.natApplied = false) :
    wp M (hostNetwork st) (Leaves J fun st' => st'.config = st.config) ℓ := by
  unfold Barco.hostNetwork
  split
  · rename_i ip hname hip
    split
    · rename_i tmp peer htmp hpeer
      exact w.hostNetworkOn hJ hcreated hnat hip htmp hpeer
    · exact w.overrun hJ
  · exact ⟨hJ, rfl⟩

/-! ## The container -/

theorem stop (w : Walk M J) (pid : Nat) (hJ : J stage st ℓ) :
    wp M (containerStop pid) (fun _ => J stage st) ℓ :=
  w.tidy (containerStop_tidy pid) (by decide) hJ

theorem moveVeth (w : Walk M J) {pid : Nat} {tmp : CStr} (hJ : J .running st ℓ)
    (htmp : st.config.vethTmp = some tmp) :
    wp M (moveVeth pid tmp) (fun _ => J .running st) ℓ := by
  refine w.call (c := .open (.netNs pid) .rdonly) (by simp [Call.area, Path.area, quietAreas]) hJ
    fun r ℓ₁ h₁ => ?_
  cases r with
  | error e => exact wp_seq (w.stop pid h₁) fun _ _ h => h
  | ok nsFd =>
    refine wp_seq (w.moveToNs h₁ htmp) fun r ℓ₂ h₂ => ?_
    split
    · exact w.closeFd h₂ fun ℓ₃ h₃ => wp_seq (w.stop pid h₃) fun _ _ h => h
    · exact w.closeFd h₂ fun ℓ₃ h₃ => h₃

theorem superviseContainer (w : Walk M J) (retries pid : Nat) (hJ : J .running st ℓ) :
    wp M (superviseContainer retries st pid) (fun st' => J .running st') ℓ := by
  unfold Barco.superviseContainer
  cases hhost : st.config.hostname with
  | none => exact w.overrun hJ
  | some hostname =>
    refine wp_seq (w.cgroupsInit hJ hhost) fun _ ℓ₁ h₁ => ?_
    refine wp_seq (w.prepareMappings h₁) fun r ℓ₂ h₂ => ?_
    split
    · exact wp_seq (w.stop pid h₂) fun _ _ h => w.agree (.fail st) h
    · refine wp_seq (w.tidy (waitContainer_tidy pid retries) (by decide) h₂) fun status ℓ₃ h₃ => ?_
      cases status with
      | none => exact w.agree (.fail st) h₃
      | some status =>
        refine w.agree ?_ h₃
        split
        · exact ⟨⟨st.config.fd, rfl⟩, rfl, rfl, rfl⟩
        · exact .refl st

theorem containerInit (w : Walk M J) (hJ : J .running st ℓ) :
    wp M (containerInit st.config)
      (fun x ℓ' => J .running st ℓ' ∧ ∃ fd, x.2 = { st.config with fd := fd }) ℓ := by
  refine w.call (c := .clone containerFlags st.config) (by simp [Call.area, quietAreas]) hJ
    fun r ℓ₁ h₁ => ?_
  cases r with
  | error e => exact ⟨h₁, st.config.fd, rfl⟩
  | ok pid =>
    show wp M (if _ then _ else _) _ _
    split
    · exact w.closeFd h₁ fun ℓ₂ h₂ => ⟨h₂, -1, rfl⟩
    · exact ⟨h₁, st.config.fd, rfl⟩

theorem runContainer (w : Walk M J) (retries : Nat) (hJ : J .running st ℓ) :
    wp M (runContainer retries st) (fun st' => J .running st') ℓ := by
  refine wp_seq (w.containerInit hJ) ?_
  rintro ⟨pid, config⟩ ℓ₁ ⟨h₁, fd, hfd⟩
  have hagree : Agree st { st with config := config } := ⟨⟨fd, hfd⟩, rfl, rfl, rfl⟩
  have hJ₁ := w.agree hagree h₁
  show wp M (if pid < 0 then _ else _) _ _
  split
  · exact w.agree (.fail _) hJ₁
  · refine w.call (c := .usleep 100000) (by decide) hJ₁ fun _ ℓ₂ h₂ => ?_
    refine w.call (c := .kill pid.toNat 0) (by simp [Call.area, quietAreas]) h₂ fun r ℓ₃ h₃ => ?_
    cases r with
    | error e => exact w.agree (.fail _) h₃
    | ok u =>
      dsimp only
      split
      · rename_i tmp hcreated htmp
        refine wp_seq (w.moveVeth h₃ htmp) fun b ℓ₄ h₄ => ?_
        split
        · exact w.agree (.fail _) h₄
        · exact w.superviseContainer retries pid.toNat h₄
      · exact w.superviseContainer retries pid.toNat h₃

/-! ## All of `main` -/

theorem mainFrom (w : Walk M J) (retries : Nat) (st : MainState) (hJ : J .running st ℓ)
    (hcreated : st.vethCreated = false) (hnat : st.natApplied = false) :
    wp M (mainFrom retries st) (fun _ ℓ' => ∃ st', J .finished st' ℓ') ℓ := by
  refine wp_seq (w.openSockets hJ) fun e ℓ₁ h₁ => ?_
  cases e with
  | error st₁ => exact w.cleanup h₁
  | ok st₁ =>
    obtain ⟨hJ₁, ha⟩ := h₁
    refine wp_seq (w.hostNetwork hJ₁ (ha.vethCreated.trans hcreated) (ha.natApplied.trans hnat))
      fun e ℓ₂ h₂ => ?_
    cases e with
    | error st₂ => exact w.cleanup h₂
    | ok st₂ => exact wp_seq (w.runContainer retries h₂.1) fun st₃ ℓ₃ h₃ => w.cleanup h₃

/-- A quiet call keeps the invariant of every configuration at once. -/
theorem quietFresh (w : Walk M J) {c : Call} (hc : c.area ∈ quietAreas)
    (hJ : ∀ st, Fresh st → J .running st ℓ) :
    M.may ℓ c ∧ ∀ r ℓ', M.step ℓ c r ℓ' → ∀ st, Fresh st → J .running st ℓ' := by
  have hst : Fresh
      { config := ⟨0, 0, some barcontainer, emptyStr, none, emptyStr, none, none, none, none, none,
          none, false⟩
        stack := false, sockets := (-1, -1), exitcode := 0, vethCreated := false, natApplied := false,
        hostIf := emptyStr } := ⟨rfl, rfl, rfl⟩
  exact ⟨(w.quiet (hJ _ hst) hc).1, fun r s' hs st hst => (w.quiet (hJ st hst) hc).2 r s' hs⟩

/-- The invariant holds of every configuration that `fillConfig` may produce. -/
theorem fillConfig (w : Walk M J) (args : Args) (hJ : ∀ st, Fresh st → J .running st ℓ) :
    wp M (fillConfig args) (Leaves J Fresh) ℓ := by
  have hlibc : ∀ c : Call, c.area ∈ [Area.libc] → c.area ∈ quietAreas := fun c hc => by
    rw [List.mem_singleton.mp hc]
    decide
  have hquiet : wp M (Barco.fillConfig args) (fun _ ℓ' => ∀ st, Fresh st → J .running st ℓ') ℓ :=
    wp_of_only ((fillConfig_tidy args).only.mono hlibc) (fun _ _ hc h => w.quietFresh hc h) hJ
  refine wp_mono (wp_returns hquiet (fillConfig_tidy args).returns) ?_
  rintro (st | st) ℓ' ⟨hJ', hfresh⟩
  · exact hJ' st hfresh
  · exact ⟨hJ' st hfresh, hfresh⟩

/-- The invariant of `main`: what a finished cleanup leaves, or nothing was begun. -/
theorem main (w : Walk M J) (retries : Nat) (args : Args)
    (hJ : ∀ st, Fresh st → J .running st ℓ) :
    wp M (main retries args)
      (fun _ ℓ' => (∃ st, J .finished st ℓ') ∨ ∀ st, Fresh st → J .running st ℓ') ℓ := by
  obtain ⟨hm, hs⟩ := w.quietFresh (c := .calloc) (by decide) hJ
  refine ⟨hm, fun b ℓ₁ hstep => ?_⟩
  have h₁ := hs b ℓ₁ hstep
  cases b with
  | false => exact .inr h₁
  | true =>
    show wp M (if args.errors then _ else _) _ _
    split
    · exact .inr h₁
    · split
      · exact .inr h₁
      · refine wp_seq (w.fillConfig args h₁) fun e ℓ₂ h₂ => ?_
        cases e with
        | error st => exact wp_mono (w.cleanup h₂) fun _ _ h => .inl h
        | ok st =>
          exact wp_mono (w.mainFrom retries _ h₂.1 h₂.2.vethCreated h₂.2.natApplied) fun _ _ h => .inl h

end Walk

/-! ## Walks that concern the firewall or the control group -/

/-- Where `K` holds, a call aside from `A` and `F` is allowed and changes nothing. -/
def Still (M : Machine Call Answer L) (A : List Area) (F : Fn → Prop) (K : L → Prop) : Prop :=
  ∀ ℓ c, K ℓ → Avoids A F c → M.may ℓ c ∧ ∀ r ℓ', M.step ℓ c r ℓ' → ℓ' = ℓ

section Still

variable {M : Machine Call Answer L} {J : Stage → MainState → L → Prop} {A : List Area}
  {F : Fn → Prop} {K : L → Prop}

theorem Still.wp {α : Type} {p : Sys α} {ℓ : L} (h : Still M A F K) (hp : p.Only (Avoids A F))
    (hℓ : K ℓ) : wp M p (fun _ ℓ' => ℓ' = ℓ) ℓ :=
  wp_of_only (J := fun ℓ' => ℓ' = ℓ) hp (fun ℓ' c hc heq => by
    subst heq
    exact h ℓ' c hℓ hc) rfl

/-- The functions that work on the firewall and on the control group. -/
def Fn.Host : Fn → Prop
  | .setupNat _ _ | .cleanupNat _ _ | .cgroupsInit _ _ | .cgroupsFree _ => True
  | _ => False

/-- A walk for a machine that sees nothing but the firewall or the control group. -/
theorem walk_of_still (hstill : Still M A F K) (hA : ∀ a ∈ A, a = .firewall ∨ a = .cgroup)
    (hF : ∀ f, F f → f.Host) (hK : ∀ {stage st ℓ}, J stage st ℓ → K ℓ)
    (agree : ∀ {stage st st' ℓ}, Agree st st' → J stage st ℓ → J stage st' ℓ)
    (created : ∀ {st ℓ}, J .running st ℓ → J .running { st with vethCreated := true } ℓ)
    (setHostIf : ∀ {st ℓ} hostIf, J .running st ℓ → st.natApplied = false →
      J .running { st with hostIf := hostIf } ℓ)
    (setupNat : ∀ {st ℓ ip}, J .running st ℓ → st.natApplied = false →
      st.config.containerIp = some ip → 0 < st.hostIf.1.length →
      wp M (invoke (.setupNat (setupSubnet ip) st.hostIf) (setupNat (setupSubnet ip) st.hostIf))
        (fun r => J .running (if r < 0 then st else { st with natApplied := true })) ℓ)
    (cgroupsInit : ∀ {st ℓ hostname pid}, J .running st ℓ → st.config.hostname = some hostname →
      wp M (invoke (.cgroupsInit hostname pid) (cgroupsInit hostname pid))
        (fun _ => J .running st) ℓ)
    (cleanupNat : ∀ {st ℓ ip}, J .running st ℓ → st.natApplied = true →
      st.config.containerIp = some ip →
      wp M (invoke (.cleanupNat (cleanupSubnet ip) st.hostIf)
        (cleanupNat (cleanupSubnet ip) st.hostIf)) (fun _ => J .natReleased st) ℓ)
    (keepNat : ∀ {st ℓ}, J .running st ℓ →
      st.natApplied = false ∨ st.config.containerIp = none ∨ st.hostIf.1.length = 0 →
      J .natReleased st ℓ)
    (keepVeth : ∀ {st ℓ}, J .natReleased st ℓ → J .vethReleased st ℓ)
    (cgroupsFree : ∀ {st ℓ hostname}, J .vethReleased st ℓ →
      st.config.hostname = some hostname →
      wp M (invoke (.cgroupsFree hostname) (cgroupsFree hostname)) (fun _ => J .finished st) ℓ)
    (keepCgroup : ∀ {st ℓ}, J .vethReleased st ℓ → st.config.hostname = none →
      J .finished st ℓ) : Walk M J := by
  have hmark : .mark ∉ A ∧ .delMark ∉ A :=
    ⟨fun h => (hA _ h).elim nofun nofun, fun h => (hA _ h).elim nofun nofun⟩
  have hdel : ∀ ifname, ¬ F (.nlDelLink ifname) := fun ifname h => hF _ h
  have hnl : ∀ {f : Fn} {body : Sys Int} {ℓ : L}, ¬ f.Host → Tidy nlAreas Status body → K ℓ →
      wp M (invoke f body) (fun _ ℓ' => ℓ' = ℓ) ℓ := by
    intro f body ℓ hf hbody hℓ
    have hareas : ∀ a ∈ nlAreas, a ∉ A ∧ a ≠ .mark := fun a ha =>
      ⟨fun h => by rcases hA a h with rfl | rfl <;> exact absurd ha (by decide),
        fun h => by subst h; exact absurd ha (by decide)⟩
    exact hstill.wp (avoids_invoke hmark (fun h => hf (hF f h))
      (avoids_of_areas hbody.only hareas hdel)) hℓ
  have hstays : ∀ {stage st ℓ} {p : Sys Int}, J stage st ℓ →
      wp M p (fun _ ℓ' => ℓ' = ℓ) ℓ → wp M p (fun _ => J stage st) ℓ := fun hJ h =>
    wp_mono h fun _ _ heq => heq ▸ hJ
  exact {
    agree
    quiet := fun {stage st ℓ c} hJ hc => by
      have havoids : Avoids A F c := by
        have hmarks : ∀ f : Fn, f.area ∈ quietAreas → False := by
          intro f hf
          rcases f.area_eq with heq | heq <;> rw [heq] at hf <;> exact absurd hf (by decide)
        refine ⟨fun h => ?_, fun f h => ?_, fun f r h => ?_⟩
        · rcases hA _ h with heq | heq <;> rw [heq] at hc <;> exact absurd hc (by decide)
        · subst h
          exact (hmarks f hc).elim
        · subst h
          exact (hmarks f hc).elim
      obtain ⟨hmay, hstep⟩ := hstill ℓ c (hK hJ) havoids
      exact ⟨hmay, fun r ℓ' hs => hstep r ℓ' hs ▸ hJ⟩
    delLink := fun hJ _ _ => hstays hJ (hnl id (nlDelLink_tidy _) (hK hJ))
    createVeth := fun {st ℓ tmp peer} hJ _ _ _ => by
      refine wp_mono (hnl id (nlCreateVeth_tidy tmp peer) (hK hJ)) fun r ℓ' heq => ?_
      subst heq
      split
      · exact hJ
      · exact created hJ
    addAddr := fun hJ _ => hstays hJ (hnl id (nlAddAddr_tidy _ _) (hK hJ))
    setUp := fun hJ _ => hstays hJ (hnl id (nlSetUp_tidy _) (hK hJ))
    setHostIf
    setupNat
    moveToNs := fun hJ _ => hstays hJ (hnl id (nlMoveToNs_tidy _ _) (hK hJ))
    cgroupsInit
    prepareMappings := fun {st ℓ pid fd} hJ => by
      have hareas : ∀ a ∈ mapAreas, a ∉ A ∧ a ≠ .mark := fun a ha =>
        ⟨fun h => by rcases hA a h with rfl | rfl <;> exact absurd ha (by decide),
          fun h => by subst h; exact absurd ha (by decide)⟩
      exact hstays hJ (hstill.wp (avoids_invoke hmark (fun h => hF _ h)
        (avoids_of_areas (prepareMappings_uses pid fd).only hareas hdel)) (hK hJ))
    cleanupNat
    keepNat
    delPeer := fun hJ _ _ =>
      wp_mono (hnl id (nlDelLink_tidy _) (hK hJ)) fun _ _ heq => heq ▸ keepVeth hJ
    keepVeth := fun hJ _ => keepVeth hJ
    cgroupsFree
    keepCgroup }

end Still

end Barco
