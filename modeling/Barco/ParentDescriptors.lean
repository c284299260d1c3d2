import Barco.Descriptors

/-!
# Areas and descriptors of the parent process

`Tidy` for the functions of `barco.c`, `cgroups.c` and the parent's half of
`user.c`.
-/

namespace Barco

open Effect Prog

/-! ## Configuration and sockets -/

/-- A call of one area that opens nothing and works on no descriptor. -/
theorem Tidy.one {a : Area} {c : Call} (hc : c.area = a) (hfd : c.fd? = none)
    (hopen : ∀ own r, openAfter own c r = own) : Tidy [a] (fun _ => True) (Barco.sys c) :=
  .sys (List.mem_singleton.mpr hc) hfd hopen

theorem drawChars_tidy (n : Nat) : Tidy [.libc] (fun _ => True) (drawChars n) := by
  induction n with
  | zero => exact .pure trivial
  | succ n ih =>
    exact .bind (.one rfl rfl fun _ _ => rfl) fun x _ => .bind ih fun cs _ => .pure trivial

theorem generateRandomSuffix_tidy (buf : List UInt8) :
    Tidy [.libc] (fun _ => True) (generateRandomSuffix buf) :=
  .bind (drawChars_tidy _) fun _ _ => .pure trivial

theorem allocPeer_tidy (args : Args) : Tidy [.libc] (fun _ => True) (allocPeer args) := by
  unfold allocPeer
  split
  · exact .one rfl rfl fun _ _ => rfl
  · exact .one rfl rfl fun _ _ => rfl

/-- The locals when the configuration is filled in and nothing is set up yet. -/
structure Fresh (st : MainState) : Prop where
  hostname : st.config.hostname = some barcontainer
  vethCreated : st.vethCreated = false
  natApplied : st.natApplied = false

/-- Every way out of section 3 leaves the locals fresh. -/
def FreshResult : Except MainState MainState → Prop
  | .ok st | .error st => Fresh st

theorem fillConfig_tidy (args : Args) : Tidy [.libc] FreshResult (fillConfig args) := by
  have hok : ∀ st : MainState, Fresh st → FreshResult (.ok st) := fun _ h => h
  have hfail : ∀ st : MainState, Fresh st → FreshResult (.error st.fail) := fun _ h =>
    ⟨h.hostname, h.vethCreated, h.natApplied⟩
  unfold fillConfig
  split
  · refine .bind (.one rfl rfl fun _ _ => rfl) fun buf _ => ?_
    refine .bind (generateRandomSuffix_tidy _) fun suffix _ => ?_
    refine .bind (allocPeer_tidy args) fun b _ => .ite (fun _ => .pure (hfail _ ⟨rfl, rfl, rfl⟩))
      fun _ => ?_
    refine .bind (.one rfl rfl fun _ _ => rfl) fun b _ => ?_
    exact .ite (fun _ => .pure (hfail _ ⟨rfl, rfl, rfl⟩)) fun _ => .pure (hok _ ⟨rfl, rfl, rfl⟩)
  · exact .pure (hok _ ⟨rfl, rfl, rfl⟩)

/-! ## The host network -/

theorem enableIpForward_tidy : Tidy fileAreas Status enableIpForward := by
  refine .open file_file (fun e => .pure .fail) fun fd => write_close fun n => ?_
  cases n with
  | error e => exact .pure .fail
  | ok n => exact .pure (status_of_count _)

/-- The name of a detected interface is not empty. -/
def Detected (name : Option CStr) : Prop := ∀ a, name = some a → 0 < a.1.length

theorem detectHostInterface_tidy : Tidy [.libc] Detected detectHostInterface := by
  have hnone : Detected none := fun _ h => nomatch h
  refine .bind (.one rfl rfl fun _ _ => rfl) fun b _ => .ite (fun _ => .pure hnone) fun _ => ?_
  refine .bind (.one rfl rfl fun _ _ => rfl) fun line _ => ?_
  cases line with
  | none => exact .bind (.one rfl rfl fun _ _ => rfl) fun _ _ => .pure hnone
  | some line =>
    refine .bind (.one rfl rfl fun _ _ => rfl) fun _ _ => .pure ?_
    intro a ha
    split at ha
    · obtain rfl := Option.some.inj ha
      assumption
    · exact nomatch ha

theorem checkOrAppend_tidy (rule : NatRule) :
    Tidy [.firewall] (fun _ => True) (checkOrAppend rule) := by
  refine .bind (.one rfl rfl fun _ _ => rfl) fun b _ => .ite (fun _ => .pure trivial) fun _ => ?_
  exact .one rfl rfl fun _ _ => rfl

theorem setupNat_tidy (subnet hostIf : CStr) : Tidy [.firewall] Status (setupNat subnet hostIf) := by
  refine .bind (checkOrAppend_tidy _) fun b _ => .ite (fun _ => .pure .fail) fun _ => ?_
  refine .bind (checkOrAppend_tidy _) fun _ _ => ?_
  exact .bind (checkOrAppend_tidy _) fun _ _ => .pure .zero

theorem cleanupNat_tidy (subnet hostIf : CStr) :
    Tidy [.firewall] Status (cleanupNat subnet hostIf) := by
  refine .bind (.one rfl rfl fun _ _ => rfl) fun _ _ => ?_
  refine .bind (.one rfl rfl fun _ _ => rfl) fun _ _ => ?_
  exact .bind (.one rfl rfl fun _ _ => rfl) fun _ _ => .pure .zero

/-- The areas of the firewall part. -/
def natAreas : List Area := [.libc, .firewall, .mark]

theorem nat_mark : Area.mark ∈ natAreas := by decide

theorem applyNat_tidy (st : MainState) (containerIp : CStr) :
    Tidy natAreas (fun _ => True) (applyNat st containerIp) := by
  refine .bind (detectHostInterface_tidy.areas (by decide)) fun detected _ => ?_
  refine .bind (.invoke nat_mark ((setupNat_tidy _ _).areas (by decide))) fun r _ => ?_
  exact .ite (fun _ => .pure trivial) fun _ => .pure trivial

theorem releaseNat_tidy (st : MainState) : Tidy natAreas (fun _ => True) (releaseNat st) := by
  unfold releaseNat
  split
  · refine .ite (fun _ => ?_) fun _ => .pure trivial
    exact .bind (.invoke nat_mark ((cleanupNat_tidy _ _).areas (by decide))) fun _ _ =>
      .pure trivial
  · exact .pure trivial

/-- The areas of the host's end of the pair. -/
def peerAreas : List Area := .file :: netAreas

theorem peer_of_net : ∀ a ∈ netAreas, a ∈ peerAreas := by decide

theorem addHostAddr_tidy (peer : CStr) (hostIp : Option CStr) :
    Tidy netAreas (fun _ => True) (addHostAddr peer hostIp) := by
  unfold addHostAddr
  cases hostIp with
  | none => exact .pure trivial
  | some ip => exact .bind (nlInvoke_tidy net_mark (nlAddAddr_tidy peer ip)) fun _ _ => .pure trivial

theorem configurePeer_tidy (peer : CStr) (hostIp : Option CStr) :
    Tidy peerAreas (fun _ => True) (configurePeer peer hostIp) := by
  refine .bind ((addHostAddr_tidy peer hostIp).areas peer_of_net) fun _ _ => ?_
  refine .bind ((nlInvoke_tidy (f := .nlSetUp peer) net_mark (nlSetUp_tidy peer)).areas peer_of_net) fun _ _ => ?_
  refine .ite (fun _ => ?_) fun _ => .pure trivial
  exact .bind (enableIpForward_tidy.areas (by decide)) fun _ _ => .pure trivial

/-- The areas of section 6. -/
def hostAreas : List Area := .firewall :: peerAreas

theorem host_of_peer : ∀ a ∈ peerAreas, a ∈ hostAreas := by decide

theorem delMark_net : Area.delMark ∈ netAreas := by decide

theorem hostNetworkOn_tidy (st : MainState) (containerIp tmp peer : CStr) :
    Tidy hostAreas (fun _ => True) (hostNetworkOn st containerIp tmp peer) := by
  have hnl : ∀ {f : Fn} {body : Sys Int}, f.area ∈ netAreas → Tidy nlAreas Status body →
      Tidy hostAreas Status (invoke f body) := fun hf h =>
    ((nlInvoke_tidy hf h).areas peer_of_net).areas host_of_peer
  refine .bind (hnl delMark_net (nlDelLink_tidy tmp)) fun _ _ => ?_
  refine .bind (hnl delMark_net (nlDelLink_tidy peer)) fun _ _ => ?_
  refine .bind (hnl net_mark (nlCreateVeth_tidy tmp peer)) fun r _ => ?_
  refine .ite (fun _ => .pure trivial) fun _ => ?_
  refine .bind ((configurePeer_tidy peer _).areas host_of_peer) fun _ _ => ?_
  refine .ite (fun _ => ?_) fun _ => .pure trivial
  exact .bind ((applyNat_tidy _ _).areas (by decide)) fun _ _ => .pure trivial

theorem hostNetwork_tidy (st : MainState) : Tidy hostAreas (fun _ => True) (hostNetwork st) := by
  unfold hostNetwork
  split
  · split
    · exact hostNetworkOn_tidy st _ _ _
    · exact .overrun (by decide)
  · exact .pure trivial

/-- What sections 4 and 5 change of the configuration. -/
def SocketResult (st : MainState) : Except MainState MainState → Prop
  | .ok st' | .error st' => ∃ fd, st'.config = { st.config with fd := fd }

theorem openSockets_returns (st : MainState) : (openSockets st).Returns (SocketResult st) := by
  intro _ r
  cases r with
  | error e => exact ⟨st.config.fd, rfl⟩
  | ok ends =>
    intro r
    cases r with
    | error e => exact ⟨st.config.fd, rfl⟩
    | ok u => exact fun b => by cases b <;> exact ⟨ends.2, rfl⟩

/-- What section 6 changes of the locals. With networking it goes on only with a pair. -/
def HostResult (st : MainState) : Except MainState MainState → Prop
  | .error st' => st' = st.fail
  | .ok st' => ∃ vethCreated natApplied hostIf,
    st' = { st with vethCreated := vethCreated, natApplied := natApplied, hostIf := hostIf } ∧
      (st.config.vethName.isSome → st.config.containerIp.isSome → vethCreated = true)

theorem applyNat_returns (st : MainState) (containerIp : CStr) :
    (applyNat st containerIp).Returns fun st' => ∃ natApplied hostIf,
      st' = { st with natApplied := natApplied, hostIf := hostIf } := by
  refine detectHostInterface_tidy.returns.bind fun detected _ => ?_
  refine (Tidy.invoke (f := .setupNat (setupSubnet containerIp) (detected.getD eth0)) nat_mark
    ((setupNat_tidy _ _).areas (by decide))).returns.bind fun r _ => ?_
  split
  · exact ⟨st.natApplied, _, rfl⟩
  · exact ⟨true, _, rfl⟩

theorem hostNetworkOn_returns (st : MainState) (containerIp tmp peer : CStr) :
    (hostNetworkOn st containerIp tmp peer).Returns (HostResult st) := by
  refine (nlInvoke_tidy (f := .nlDelLink tmp) delMark_net (nlDelLink_tidy tmp)).returns.bind
    fun _ _ => ?_
  refine (nlInvoke_tidy (f := .nlDelLink peer) delMark_net (nlDelLink_tidy peer)).returns.bind
    fun _ _ => ?_
  refine (nlInvoke_tidy (f := .nlCreateVeth tmp peer) net_mark
    (nlCreateVeth_tidy tmp peer)).returns.bind fun r _ => ?_
  split
  · exact rfl
  · refine (configurePeer_tidy peer _).returns.bind fun _ _ => ?_
    split
    · refine (applyNat_returns _ containerIp).bind fun st' h => ?_
      obtain ⟨natApplied, hostIf, rfl⟩ := h
      exact ⟨true, natApplied, hostIf, rfl, fun _ _ => rfl⟩
    · exact ⟨true, st.natApplied, st.hostIf, rfl, fun _ _ => rfl⟩

theorem hostNetwork_returns (st : MainState) : (hostNetwork st).Returns (HostResult st) := by
  unfold hostNetwork
  split
  · split
    · exact hostNetworkOn_returns st _ _ _
    · exact fun r => nomatch r
  · rename_i hoff
    refine ⟨st.vethCreated, st.natApplied, st.hostIf, rfl, fun hname hip => ?_⟩
    obtain ⟨name, hname⟩ := Option.isSome_iff_exists.mp hname
    obtain ⟨ip, hip⟩ := Option.isSome_iff_exists.mp hip
    exact absurd hip (hoff name ip hname)

theorem releaseVeth_tidy (st : MainState) : Tidy netAreas (fun _ => True) (releaseVeth st) := by
  unfold releaseVeth
  split
  · exact .bind (nlInvoke_tidy delMark_net (nlDelLink_tidy _)) fun _ _ => .pure trivial
  · exact .pure trivial

/-! ### Marks -/

/-- The functions that section 6 and the cleanup of the network mark. -/
def Fn.OfNetwork : Fn → Prop
  | .nlCreateVeth _ _ | .nlSetUp _ | .nlAddAddr _ _ | .nlDelLink _ | .setupNat _ _
  | .cleanupNat _ _ => True
  | _ => False

/-- `P` holds of the calls of the areas `S` and of the marks of the functions `F`. -/
structure Covers (P : Call → Prop) (S : List Area) (F : Fn → Prop) : Prop where
  call : ∀ c, c.area ∈ S → c.area ≠ .mark → P c
  enter : ∀ f, F f → P (.enter f)
  leave : ∀ f r, F f → P (.leave f r)

namespace Covers

variable {P : Call → Prop} {S S' : List Area} {F : Fn → Prop}

theorem only {α : Type} {q : Sys α} (h : Covers P S F) (hq : q.Only fun c => c.area ∈ S')
    (hS : ∀ a ∈ S', a ∈ S ∧ a ≠ .mark) : q.Only P :=
  hq.mono fun c hc => h.call c (hS _ hc).1 (hS _ hc).2

theorem invoke {f : Fn} {body : Sys Int} (h : Covers P S F) (hf : F f)
    (hbody : body.Only fun c => c.area ∈ S') (hS : ∀ a ∈ S', a ∈ S ∧ a ≠ .mark) :
    (invoke f body).Only P :=
  ⟨h.enter f hf, fun _ => (h.only hbody hS).bind fun r =>
    ⟨h.leave f r hf, fun _ => only_pure r⟩⟩

variable (h : Covers P hostAreas Fn.OfNetwork)
include h

theorem nl {f : Fn} {body : Sys Int} (hf : f.OfNetwork) (hbody : Tidy nlAreas Status body) :
    (Barco.invoke f body).Only P :=
  h.invoke hf hbody.only (by decide)

theorem addHostAddr (peer : CStr) (hostIp : Option CStr) : (addHostAddr peer hostIp).Only P := by
  unfold Barco.addHostAddr
  cases hostIp with
  | none => exact only_pure ()
  | some ip =>
    exact (h.nl (f := .nlAddAddr peer ip) trivial (nlAddAddr_tidy peer ip)).bind fun _ =>
      only_pure ()

theorem configurePeer (peer : CStr) (hostIp : Option CStr) :
    (configurePeer peer hostIp).Only P := by
  refine (h.addHostAddr peer hostIp).bind fun _ => ?_
  refine (h.nl (f := .nlSetUp peer) trivial (nlSetUp_tidy peer)).bind fun _ => ?_
  split
  · exact (h.only enableIpForward_tidy.only (by decide)).bind fun _ => only_pure ()
  · exact only_pure ()

theorem applyNat (st : MainState) (containerIp : CStr) : (applyNat st containerIp).Only P := by
  refine (h.only detectHostInterface_tidy.only (by decide)).bind fun detected => ?_
  refine (h.invoke (f := .setupNat (setupSubnet containerIp) (detected.getD eth0)) trivial
    (setupNat_tidy _ _).only (by decide)).bind fun r => ?_
  split
  · exact only_pure _
  · exact only_pure _

theorem hostNetwork (st : MainState) : (hostNetwork st).Only P := by
  unfold Barco.hostNetwork
  split
  · split
    · rename_i tmp peer _ _
      refine (h.nl (f := .nlDelLink tmp) trivial (nlDelLink_tidy tmp)).bind fun _ => ?_
      refine (h.nl (f := .nlDelLink peer) trivial (nlDelLink_tidy peer)).bind fun _ => ?_
      refine (h.nl (f := .nlCreateVeth tmp peer) trivial (nlCreateVeth_tidy tmp peer)).bind
        fun _ => ?_
      split
      · exact only_pure _
      · refine (h.configurePeer peer _).bind fun _ => ?_
        split
        · exact (h.applyNat _ _).bind fun _ => only_pure _
        · exact only_pure _
    · exact ⟨h.call .undefined (by decide) (by decide), fun r => nomatch r⟩
  · exact only_pure _

theorem releaseNat (st : MainState) : (releaseNat st).Only P := by
  unfold Barco.releaseNat
  split
  · split
    · exact (h.invoke (f := .cleanupNat _ st.hostIf) trivial (cleanupNat_tidy _ _).only
        (by decide)).bind fun _ => only_pure ()
    · exact only_pure ()
  · exact only_pure ()

theorem releaseVeth (st : MainState) : (releaseVeth st).Only P := by
  unfold Barco.releaseVeth
  split
  · exact (h.nl (f := .nlDelLink _) trivial (nlDelLink_tidy _)).bind fun _ => only_pure ()
  · exact only_pure ()

end Covers

/-! ## The container -/

theorem containerStop_tidy (pid : Nat) : Tidy [.process] (fun _ => True) (containerStop pid) := by
  refine .bind (.one rfl rfl fun _ _ => rfl) fun r _ => ?_
  cases r with
  | error e => exact .pure trivial
  | ok u => exact .bind (.one rfl rfl fun _ _ => rfl) fun _ _ => .pure trivial

theorem waitContainer_tidy (pid retries : Nat) :
    Tidy [.process, .stuck] (fun _ => True) (waitContainer pid retries) := by
  induction retries with
  | zero => exact fun _ => ⟨⟨by decide, by simp [Call.fd?]⟩, fun r => nomatch r⟩
  | succ retries ih =>
    refine .bind (.sys (by simp [Call.area]) rfl fun _ _ => rfl) fun r _ => ?_
    cases r with
    | error e => exact .ite (fun _ => ih) fun _ => .pure trivial
    | ok w => exact .ite (fun _ => .pure trivial) fun _ => ih

/-- The areas of section 7.5. -/
def moveAreas : List Area := .process :: peerAreas

theorem move_of_net : ∀ a ∈ netAreas, a ∈ moveAreas := by decide

theorem move_file : Area.file ∈ moveAreas := by decide

theorem move_descriptor : Area.descriptor ∈ moveAreas := by decide

theorem moveVeth_tidy (pid : Nat) (tmp : CStr) :
    Tidy moveAreas (fun _ => True) (moveVeth pid tmp) := by
  have hstop : Tidy moveAreas (fun _ => True) (containerStop pid) :=
    (containerStop_tidy pid).areas (by decide)
  refine .open move_file (fun e => .bind hstop fun _ _ => .pure trivial) fun nsFd => ?_
  refine .bind ((nlInvoke_tidy (f := .nlMoveToNs tmp nsFd) net_mark
    (nlMoveToNs_tidy tmp nsFd)).areas move_of_net).uses
    fun r _ => .ite (fun _ => ?_) fun _ => .closeFd move_descriptor (.pure trivial)
  exact .closeFd move_descriptor (.bind hstop fun _ _ => .pure trivial)

/-! ## The control group -/

/-- The areas of the control group. -/
def cgroupAreas : List Area := [.cgroup, .descriptor]

theorem cgroup_cgroup : Area.cgroup ∈ cgroupAreas := by decide

theorem cgroup_descriptor : Area.descriptor ∈ cgroupAreas := by decide

theorem enableControllers_tidy : Tidy cgroupAreas (fun _ => True) enableControllers := by
  refine .open cgroup_cgroup (fun e => .pure trivial) fun fd => ?_
  refine .call cgroup_descriptor (fun _ hd => (Option.some.inj hd).symm) (fun _ _ => rfl) fun _ => ?_
  exact .closeFd cgroup_descriptor (.pure trivial)

theorem cgroupsRemake_tidy (hostname : CStr) : Tidy [.cgroup] Status (cgroupsRemake hostname) :=
  .orFail (.one rfl rfl fun _ _ => rfl) (fun _ => rfl) fun _ => .pure .zero

theorem cgroupsMkdir_tidy (hostname : CStr) : Tidy [.cgroup] Status (cgroupsMkdir hostname) := by
  refine .bind (.one rfl rfl fun _ _ => rfl) fun r _ => ?_
  cases r with
  | ok u => exact .pure .zero
  | error e =>
    refine .ite (fun _ => ?_) fun _ => .pure .fail
    refine .bind (.one rfl rfl fun _ _ => rfl) fun r _ => ?_
    cases r with
    | ok u => exact cgroupsRemake_tidy hostname
    | error e => exact .ite (fun _ => .pure .fail) fun _ => cgroupsRemake_tidy hostname

theorem cgroupsWrite_tidy (hostname : CStr) (settings : List CgroupsSetting) :
    Tidy cgroupAreas Status (cgroupsWrite hostname settings) := by
  induction settings with
  | nil => exact .pure .zero
  | cons setting settings ih =>
    refine .open cgroup_cgroup (fun e => .pure .fail) fun fd => ?_
    refine .call cgroup_descriptor (fun _ hd => (Option.some.inj hd).symm) (fun _ _ => rfl)
      fun n => ?_
    cases n with
    | error e => exact .closeFd cgroup_descriptor (.pure .fail)
    | ok n =>
      refine .close cgroup_descriptor fun r => ?_
      cases r with
      | error e => exact .pure .fail
      | ok u => exact ih

theorem cgroupsInit_tidy (hostname : CStr) (pid : Nat) :
    Tidy cgroupAreas Status (cgroupsInit hostname pid) := by
  refine .bind enableControllers_tidy fun _ _ => ?_
  refine .bind ((cgroupsMkdir_tidy hostname).areas (by decide)) fun r _ => ?_
  exact .ite (fun _ => .pure .fail) fun _ => cgroupsWrite_tidy hostname _

theorem cgroupsFree_tidy (hostname : CStr) : Tidy [.cgroup] Status (cgroupsFree hostname) :=
  .orFail (.one rfl rfl fun _ _ => rfl) (fun _ => rfl) fun _ => .pure .zero

theorem releaseCgroup_tidy (st : MainState) :
    Tidy [.cgroup, .mark] (fun _ => True) (releaseCgroup st) := by
  unfold releaseCgroup
  cases st.config.hostname with
  | none => exact .pure trivial
  | some hostname =>
    exact .bind (.invoke (List.mem_cons_of_mem _ List.mem_cons_self)
      ((cgroupsFree_tidy hostname).areas (by decide))) fun _ _ => .pure trivial

/-! ## The id mapping -/

/-- The areas of `user_namespace_prepare_mappings`. -/
def mapAreas : List Area := [.idMap, .descriptor]

theorem map_idMap : Area.idMap ∈ mapAreas := by decide

theorem map_descriptor : Area.descriptor ∈ mapAreas := by decide

theorem writeMaps_tidy (pid : Nat) (files : List IdFile) :
    Tidy mapAreas (fun _ => True) (writeMaps pid files) := by
  induction files with
  | nil => exact .pure trivial
  | cons file files ih =>
    refine .open map_idMap (fun e => .pure trivial) fun mapFd => ?_
    refine .call map_descriptor (fun _ hd => (Option.some.inj hd).symm) (fun _ _ => rfl) fun n => ?_
    cases n with
    | error e => exact .closeFd map_descriptor (.pure trivial)
    | ok n => exact .closeFd map_descriptor ih

/-- Opening a file next to the descriptor in use; it is closed before the
function goes on with that descriptor. -/
theorem Uses.open {S : List Area} {Q : Int → Prop} {fd : Int} {path : Path} {mode : OpenMode}
    {k : Res Nat → Sys Int} (hS : path.area ∈ S) (herr : ∀ e, Uses S Q fd (k (.error e)))
    (hk : ∀ d : Nat, ∀ own, fd ∈ own →
      wp (tidy S) (k (.ok d)) (fun a own' => own' = own ∧ Q a) ((d : Int) :: own)) :
    Uses S Q fd (sys (.open path mode) >>= k) := fun own hmem =>
  ⟨⟨hS, by simp [Call.fd?]⟩, fun r own' h => by
    cases r with
    | error e =>
      obtain rfl : own' = own := h
      exact herr e own' hmem
    | ok d =>
      obtain rfl : own' = (d : Int) :: own := h
      exact hk d own hmem⟩

theorem notifyFailure_uses (fd : Int) : Uses mapAreas Status fd (notifyFailure fd) :=
  .call map_descriptor (fun _ hd => (Option.some.inj hd).symm) (fun _ _ => rfl) fun _ => .pure .fail

/-- The end of `user_namespace_prepare_mappings`: the maps and the answer. -/
theorem writeMaps_uses (pid : Nat) (fd : Int) :
    Uses mapAreas Status fd (do
      if !(← writeMaps pid [.uidMap, .gidMap]) then
        notifyFailure fd
      else
        match ← sys (.write fd (intBytes 0)) with
        | .error _ => return -1
        | .ok n =>
        if n ≠ 4 then
          return -1
        return 0) := by
  intro own hmem
  refine wp_seq (writeMaps_tidy pid _ own) ?_
  rintro b own' ⟨rfl, -⟩
  split
  · exact notifyFailure_uses fd own' hmem
  · have hlast : Uses mapAreas Status fd (do
        match ← sys (.write fd (intBytes 0)) with
        | .error _ => return -1
        | .ok n =>
        if n ≠ 4 then
          return -1
        return 0) := by
      refine .call map_descriptor (fun _ hd => (Option.some.inj hd).symm) (fun _ _ => rfl) fun r => ?_
      cases r with
      | error e => exact .pure .fail
      | ok n => exact .ite (fun _ => .pure .fail) fun _ => .pure .zero
    exact hlast own' hmem

theorem prepareMappings_uses (pid : Nat) (fd : Int) :
    Uses mapAreas Status fd (prepareMappings pid fd) := by
  refine .call map_descriptor (fun _ hd => (Option.some.inj hd).symm) (fun _ _ => rfl) fun r => ?_
  cases r with
  | error e => exact .pure .fail
  | ok unshared =>
  refine .ite (fun _ => .pure .fail) fun _ => .ite (fun _ => notifyFailure_uses fd) fun _ => ?_
  refine .open map_idMap (fun e => notifyFailure_uses fd) fun mapFd own hmem => ?_
  refine ⟨⟨map_descriptor, fun d hd => Option.some.inj hd ▸ List.mem_cons_self⟩, fun r own' h => ?_⟩
  obtain rfl : own' = (mapFd : Int) :: own := h
  have hclose : ∀ {p : Sys Int}, Uses mapAreas Status fd p →
      wp (tidy mapAreas) (closeFd mapFd >>= fun _ => p) (fun a own' => own' = own ∧ Status a)
        ((mapFd : Int) :: own) := fun hp =>
    ⟨⟨map_descriptor, fun d hd => Option.some.inj hd ▸ List.mem_cons_self⟩, fun r own' h => by
      obtain rfl : own' = own := h.trans (List.erase_cons_head _ own)
      exact hp own' hmem⟩
  cases r with
  | error e => exact hclose (notifyFailure_uses fd)
  | ok n =>
    show wp _ (if n ≠ 4 then _ else _) _ _
    split
    · exact hclose (notifyFailure_uses fd)
    · exact hclose (writeMaps_uses pid fd)

end Barco
