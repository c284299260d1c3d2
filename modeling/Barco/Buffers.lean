import Barco.ParentDescriptors
import Barco.Replies
import Barco.VethNames

/-!
# The request structures of `nl_create_veth` and `nl_rename_link`

The two requests that carry names are built in structures of 288 and 96 bytes, and
the names come from the command line. `nl_create_veth` gets the temporary name,
which is always 15 bytes, and the name of the host's end: cut to 15 bytes when
`main` makes it, and the user's own text when `--veth-peer` is given.
`nl_rename_link` gets the text of `--veth` in the child. Nobody looks at a length.

`buffers_respected_iff`: a command line keeps every run of `main` and of the child
inside the structures exactly when the two texts are short enough.
-/

namespace Barco

open Effect Prog Rtattr

/-! ## The rule -/

/-- `sizeof(req)` in `nl_create_veth`. -/
def createReqSize : Nat := 288

/-- `sizeof(req)` in `nl_rename_link`. -/
def renameReqSize : Nat := 96

/-- The call is not a write outside a structure, and no message is longer than the
structure it was built in. Sequence numbers tell the two requests from the others. -/
def WithinBuffer : Call → Prop
  | .undefined => False
  | .sendmsg _ msg => (msg.hdr.seq = 1 → msg.hdr.len ≤ createReqSize) ∧
    (msg.hdr.seq = 7 → msg.hdr.len ≤ renameReqSize)
  | _ => True

/-- In every run of `main`, and of the child it clones, every call keeps to the
structures. -/
def BuffersRespected (retries : Nat) (args : Args) : Prop :=
  ∀ c k h, Run Machine.history (main retries args) [] (.call c k) h →
    WithinBuffer c ∧ ∀ flags config, c = .clone flags config →
      ∀ c' k' h', Run Machine.history (containerStart config) [] (.call c' k') h' → WithinBuffer c'

/-- The names on the command line fit, if they are used at all. -/
def RequestsFit (args : Args) : Prop :=
  args.errors = false → args.help = false →
    ∀ name ip, args.vethName = some name → args.containerIp = some ip →
      name.1.length ≤ 59 ∧ ∀ peer, args.vethPeer = some peer → peer.1.length ≤ 195

/-- A configuration whose names fit the requests they go into. -/
structure ConfigFits (config : ContainerConfig) : Prop where
  hostname : config.hostname.isSome
  names : ∀ name ip, config.vethName = some name → config.containerIp = some ip →
    name.1.length ≤ 59 ∧ ∃ tmp peer, config.vethTmp = some tmp ∧ config.vethPeer = some peer ∧
      CreateFits tmp peer

/-- The rule for one call: the child is made with a configuration that fits. -/
def BufferRule (c : Call) : Prop :=
  WithinBuffer c ∧ ∀ flags config, c = .clone flags config → ConfigFits config

theorem ConfigFits.withFd {config : ContainerConfig} (h : ConfigFits config) (fd : Int) :
    ConfigFits { config with fd := fd } := ⟨h.hostname, h.names⟩

/-! ## Netlink -/

section Netlink

theorem rule_of_area {c : Call} (h : WithinBuffer c) (hc : c.area ≠ .process) : BufferRule c :=
  ⟨h, fun _ _ hclone => absurd (hclone ▸ rfl) hc⟩

theorem within_of_areas {α : Type} {S : List Area} {p : Sys α} (hp : p.Only fun c => c.area ∈ S)
    (hS : ∀ a ∈ S, a ≠ .netlink ∧ a ≠ .process ∧ a ≠ .stuck) : p.Only BufferRule := by
  refine hp.mono fun c hc => ?_
  obtain ⟨hnl, hprocess, hstuck⟩ := hS _ hc
  refine rule_of_area ?_ hprocess
  cases c with
  | sendmsg fd msg => exact absurd rfl hnl
  | undefined => exact absurd rfl hstuck
  | _ => trivial

variable {β : Type}

theorem call_within {c : Call} {k : Answer c → Sys β} (h : WithinBuffer c) (hc : c.area ≠ .process)
    (hk : ∀ r, (k r).Only BufferRule) : (sys c >>= k).Only BufferRule :=
  ⟨rule_of_area h hc, hk⟩

theorem closeFd_within {fd : Int} {k : Unit → Sys β} (hk : (k ()).Only BufferRule) :
    (closeFd fd >>= k).Only BufferRule :=
  call_within trivial (by simp [Call.area]) fun _ => hk

theorem nlSocket_within {f : Int → Sys β} (hf : ∀ sock, (f sock).Only BufferRule) :
    (nlSocket >>= f).Only BufferRule := by
  refine call_within (c := .socketNetlink) trivial (by decide) fun r => ?_
  cases r with
  | error e => exact hf (-1)
  | ok sock =>
    exact call_within (c := .setsockoptRcvtimeo sock) trivial (by simp [Call.area]) fun _ => hf sock

theorem nlSendRecv_within {sock : Int} {msg : NlMsg} {seq type : Nat} {f : Int → Sys β}
    (hmsg : WithinBuffer (.sendmsg sock msg)) (hf : ∀ ret, (f ret).Only BufferRule) :
    (nlSendRecv sock msg seq type >>= f).Only BufferRule := by
  refine Only.bind ?_ hf
  refine call_within hmsg (by simp [Call.area]) fun r => ?_
  cases r with
  | error e => exact only_pure _
  | ok n =>
    refine call_within (c := .uninit 4096) trivial (by decide) fun stack => ?_
    refine call_within (c := .recvmsg sock) trivial (by simp [Call.area]) fun r => ?_
    cases r with
    | error e => exact only_pure _
    | ok data => exact only_pure _

/-- A request that carries no name. -/
theorem request_within {sock : Int} {msg : NlMsg} {seq type : Nat} (h1 : msg.hdr.seq ≠ 1)
    (h7 : msg.hdr.seq ≠ 7) :
    (nlSendRecv sock msg seq type >>= fun ret => closeFd sock >>= fun _ => pure ret).Only
      BufferRule :=
  nlSendRecv_within ⟨fun h => absurd h h1, fun h => absurd h h7⟩ fun ret =>
    closeFd_within (only_pure ret)

theorem wait_within {ifname : CStr} {timeoutMs : Nat} {f : Nat → Sys β}
    (hf : ∀ idx, (f idx).Only BufferRule) :
    (waitForInterface ifname timeoutMs >>= f).Only BufferRule := by
  refine Only.bind ?_ hf
  have hloop : ∀ fuel waited, (waitLoop ifname timeoutMs fuel waited).Only BufferRule := by
    intro fuel
    induction fuel with
    | zero => exact fun waited => only_pure 0
    | succ fuel ih =>
      intro waited
      unfold waitLoop
      split
      · refine call_within (c := .ifNametoindex ifname) trivial (by simp [Call.area]) fun idx => ?_
        split
        · exact only_pure idx
        · exact call_within (c := .usleep 100000) trivial (by decide) fun _ => ih _
      · exact only_pure 0
  exact hloop _ _

theorem invoke_within {f : Fn} {body : Sys Int} {k : Int → Sys β} (hbody : body.Only BufferRule)
    (hk : ∀ r, (k r).Only BufferRule) : (invoke f body >>= k).Only BufferRule := by
  have hmark : ∀ f : Fn, f.area ≠ .process := by
    intro f
    cases f <;> simp [Fn.area]
  refine Only.bind ?_ hk
  refine call_within (c := .enter f) trivial (hmark f) fun _ => hbody.bind fun r => ?_
  exact call_within (c := .leave f r) trivial (hmark f) fun _ => only_pure r

theorem ite_within {c : Prop} [Decidable c] {p q : Sys β} (hp : p.Only BufferRule)
    (hq : q.Only BufferRule) : (if c then p else q).Only BufferRule := by
  split
  · exact hp
  · exact hq

theorem lookup_within {ifname : CStr} {k : Nat → Sys β} (hk : ∀ idx, (k idx).Only BufferRule) :
    (sys (.ifNametoindex ifname) >>= k).Only BufferRule :=
  call_within trivial (by simp [Call.area]) hk

theorem nlDelLink_within (ifname : CStr) : (nlDelLink ifname).Only BufferRule := by
  refine nlSocket_within fun sock => ite_within (only_pure _) ?_
  refine lookup_within fun idx => ite_within (closeFd_within (only_pure _)) ?_
  exact request_within (show 4 ≠ 1 by decide) (show 4 ≠ 7 by decide)

theorem nlSetUp_within (ifname : CStr) : (nlSetUp ifname).Only BufferRule := by
  refine nlSocket_within fun sock => ite_within (only_pure _) ?_
  refine wait_within fun idx => ite_within (closeFd_within (only_pure _)) ?_
  exact request_within (show 2 ≠ 1 by decide) (show 2 ≠ 7 by decide)

theorem nlAddAddr_within (ifname ipCidr : CStr) : (nlAddAddr ifname ipCidr).Only BufferRule := by
  refine nlSocket_within fun sock => ite_within (only_pure _) ?_
  refine wait_within fun idx => ite_within (closeFd_within (only_pure _)) ?_
  cases parseCidr ipCidr with
  | none => exact closeFd_within (only_pure _)
  | some ip => exact request_within (show 3 ≠ 1 by decide) (show 3 ≠ 7 by decide)

theorem nlAddRouteDev_within (sock : Int) (dst : List UInt8) (dstLen : Nat)
    (gateway : Option (List UInt8)) (dev : Option CStr) :
    (nlAddRouteDev sock dst dstLen gateway dev).Only BufferRule := by
  have h1 : 5 ≠ 1 := by decide
  have h7 : 5 ≠ 7 := by decide
  cases dev with
  | none => exact request_within h1 h7
  | some dev =>
    exact lookup_within fun idx => ite_within (closeFd_within (only_pure _)) (request_within h1 h7)

theorem nlAddRoute_within (dest gateway dev : Option CStr) :
    (nlAddRoute dest gateway dev).Only BufferRule := by
  refine nlSocket_within fun sock => ite_within (only_pure _) ?_
  cases parseDest dest with
  | none => exact closeFd_within (only_pure _)
  | some dst =>
    cases gateway with
    | none => exact nlAddRouteDev_within _ _ _ _ _
    | some gw =>
      dsimp only
      cases inetPton gw with
      | none => exact closeFd_within (only_pure _)
      | some gwIp => exact nlAddRouteDev_within _ _ _ _ _

theorem nlMoveToNs_within (ifname : CStr) (nsFd : Int) :
    (nlMoveToNs ifname nsFd).Only BufferRule := by
  refine nlSocket_within fun sock => ite_within (only_pure _) ?_
  refine lookup_within fun idx => ite_within (closeFd_within (only_pure _)) ?_
  exact request_within (show 6 ≠ 1 by decide) (show 6 ≠ 7 by decide)

/-- Names that fit make a creation request that fits. -/
theorem createVethMsg_within {name1 name2 : CStr} (hfit : CreateFits name1 name2) :
    ∃ msg, createVethMsg name1 name2 = some msg ∧ msg.hdr.seq = 1 ∧
      msg.hdr.len ≤ createReqSize := by
  refine ⟨_, createVethMsg_eq hfit, rfl, ?_⟩
  have hveth : (ascii "veth").length = 4 := rfl
  show 32 + (createAttrs name1 name2).length ≤ 288
  rw [createAttrs_eq]
  simp only [List.flatten_cons, List.flatten_nil, List.length_append, List.length_nil, length_le16,
    length_zeros, length_cbytes, hveth]
  unfold CreateFits at hfit
  simp only [align4] at hfit ⊢
  omega

theorem nlCreateVeth_within {name1 name2 : CStr} (hfit : CreateFits name1 name2) :
    (nlCreateVeth name1 name2).Only BufferRule := by
  obtain ⟨msg, hmsg, hseq, hlen⟩ := createVethMsg_within hfit
  refine nlSocket_within fun sock => ite_within (only_pure _) ?_
  rw [hmsg]
  have hsend : WithinBuffer (.sendmsg sock msg) :=
    ⟨fun _ => hlen, fun h => absurd (hseq.symm.trans h) (by decide)⟩
  refine nlSendRecv_within hsend fun ret => closeFd_within (ite_within (only_pure _) ?_)
  refine wait_within fun idx1 => wait_within fun idx2 => ite_within ?_ (only_pure _)
  exact invoke_within (nlDelLink_within name1) fun _ => only_pure _

theorem nlRenameLink_within (oldname : CStr) {newname : CStr} (hfit : newname.1.length ≤ 59) :
    (nlRenameLink oldname newname).Only BufferRule := by
  refine nlSocket_within fun sock => ite_within (only_pure _) ?_
  refine lookup_within fun idx => ite_within (closeFd_within (only_pure _)) ?_
  have hlen : 32 + align4 (newname.1.length + 5) ≤ 96 := by
    unfold align4
    omega
  rw [renameLinkMsg_eq hfit]
  exact nlSendRecv_within ⟨fun h => absurd h (show 7 ≠ 1 by decide), fun _ => hlen⟩ fun ret =>
    closeFd_within (only_pure ret)

end Netlink

/-! ## The child -/

theorem containerFail_within (config : ContainerConfig) (fdClosed : Bool) :
    (containerFail config fdClosed).Only BufferRule := by
  unfold containerFail
  exact ite_within (closeFd_within (only_pure _)) (only_pure _)

theorem pollInterface_within (ifname : CStr) (fuel waited : Nat) :
    (pollInterface ifname fuel waited).Only BufferRule := by
  induction fuel generalizing waited with
  | zero => exact only_pure waited
  | succ fuel ih =>
    refine lookup_within fun idx => ite_within ?_ (only_pure waited)
    exact call_within (c := .usleep 100000) trivial (by decide) fun _ => ih _

theorem configureRename_within (config : ContainerConfig) {name : CStr}
    (hfit : name.1.length ≤ 59) : (configureRename config name).Only BufferRule := by
  unfold configureRename
  cases config.vethTmp with
  | none => exact only_pure true
  | some tmp =>
    refine (pollInterface_within tmp 51 0).bind fun waited => ite_within (only_pure false) ?_
    exact invoke_within (nlRenameLink_within tmp hfit) fun _ => only_pure _

theorem containerNetwork_within (config : ContainerConfig) {name : CStr} (ip : CStr)
    (hfit : name.1.length ≤ 59) : (containerNetwork config name ip).Only BufferRule := by
  refine invoke_within (nlSetUp_within loName) fun _ => ?_
  refine (configureRename_within config hfit).bind fun _ => ite_within (only_pure false) ?_
  refine invoke_within (nlAddAddr_within name ip) fun _ => ite_within (only_pure false) ?_
  refine invoke_within (nlSetUp_within name) fun _ => ite_within (only_pure false) ?_
  cases config.hostIp with
  | none => exact only_pure true
  | some hostIp =>
    refine ite_within (only_pure false) ?_
    exact invoke_within (nlAddRoute_within _ _ _) fun _ => only_pure true

theorem configureNetwork_within {config : ContainerConfig} (hfit : ConfigFits config) :
    (configureNetwork config).Only BufferRule := by
  unfold configureNetwork
  split
  · rename_i name ip hname hip
    exact containerNetwork_within config ip (hfit.names name ip hname hip).1
  · exact only_pure true

theorem containerExec_within (config : ContainerConfig) :
    (containerExec config).Only BufferRule := by
  have huser := (userNamespaceInit_uses config.uid config.fd).only
  refine invoke_within (within_of_areas huser (by decide)) fun _ => ?_
  refine ite_within (containerFail_within config false) ?_
  refine invoke_within (within_of_areas secSetCaps_tidy.only (by decide)) fun _ => ?_
  refine ite_within (containerFail_within config false) ?_
  refine invoke_within (within_of_areas secSetSeccomp_tidy.only (by decide)) fun _ => ?_
  refine ite_within (containerFail_within config false) ?_
  refine call_within (c := .close config.fd) trivial (by simp [Call.area]) fun r => ?_
  cases r with
  | error e => exact containerFail_within config false
  | ok u =>
    refine call_within (c := .execve config.cmd _) trivial (by simp [Call.area]) fun r => ?_
    cases r with
    | error e => exact containerFail_within config true
    | ok u => exact only_pure 0

/-- The child keeps to the structures when its configuration fits. -/
theorem containerStart_within {config : ContainerConfig} (hfit : ConfigFits config) :
    (containerStart config).Only BufferRule := by
  refine (within_of_areas (containerHostname_tidy config).only (by decide)).bind fun _ => ?_
  refine ite_within (containerFail_within config false) ?_
  refine invoke_within (within_of_areas (mountSet_tidy config.mnt).only (by decide)) fun _ => ?_
  refine ite_within (containerFail_within config false) ?_
  refine (configureNetwork_within hfit).bind fun _ => ?_
  refine ite_within (containerFail_within config false) ?_
  refine (within_of_areas (configureDns_tidy config).only (by decide)).bind fun _ => ?_
  refine (within_of_areas enablePingDgram_tidy.only (by decide)).bind fun _ => ?_
  exact containerExec_within config

/-! ## The parent -/

theorem cleanup_within (st : MainState) : (cleanup st).Only BufferRule := by
  have hsocket : ∀ fd, (closeSocket fd).Only BufferRule := fun fd => by
    unfold closeSocket
    exact ite_within (closeFd_within (only_pure ())) (only_pure ())
  have hveth : (releaseVeth st).Only BufferRule := by
    unfold releaseVeth
    split
    · exact invoke_within (nlDelLink_within _) fun _ => only_pure ()
    · exact only_pure ()
  refine (within_of_areas (releaseNat_tidy st).only (by decide)).bind fun _ => ?_
  refine hveth.bind fun _ => (hsocket _).bind fun _ => (hsocket _).bind fun _ => ?_
  exact (within_of_areas (releaseCgroup_tidy st).only (by decide)).bind fun _ => only_pure _

theorem process_within {c : Call} {β : Type} {k : Answer c → Sys β} (h : WithinBuffer c)
    (hc : ∀ flags config, c ≠ .clone flags config) (hk : ∀ r, (k r).Only BufferRule) :
    (sys c >>= k).Only BufferRule :=
  ⟨⟨h, fun flags config hclone => absurd hclone (hc flags config)⟩, hk⟩

theorem containerStop_within {β : Type} (pid : Nat) {k : Unit → Sys β}
    (hk : (k ()).Only BufferRule) : (containerStop pid >>= k).Only BufferRule := by
  refine Only.bind ?_ fun _ => hk
  refine process_within trivial (by simp) fun r => ?_
  cases r with
  | error e => exact only_pure ()
  | ok u => exact process_within trivial (by simp) fun _ => only_pure ()

theorem waitContainer_within (pid retries : Nat) :
    (waitContainer pid retries).Only BufferRule := by
  induction retries with
  | zero => exact ⟨rule_of_area trivial (by decide), fun r => nomatch r⟩
  | succ retries ih =>
    refine process_within trivial (by simp) fun r => ?_
    cases r with
    | error e => exact ite_within ih (only_pure none)
    | ok w => exact ite_within (only_pure _) ih

theorem moveVeth_within (pid : Nat) (tmp : CStr) : (moveVeth pid tmp).Only BufferRule := by
  refine call_within trivial (by simp [Call.area, Path.area]) fun r => ?_
  cases r with
  | error e => exact containerStop_within pid (only_pure false)
  | ok nsFd =>
    refine invoke_within (nlMoveToNs_within tmp nsFd) fun _ => ite_within ?_ ?_
    · exact closeFd_within (containerStop_within pid (only_pure false))
    · exact closeFd_within (only_pure true)

theorem superviseContainer_within (retries : Nat) {st : MainState} (hfit : ConfigFits st.config)
    (pid : Nat) : (superviseContainer retries st pid).Only BufferRule := by
  obtain ⟨hostname, hhost⟩ := Option.isSome_iff_exists.mp hfit.hostname
  unfold superviseContainer
  rw [hhost]
  have hmaps := (prepareMappings_uses pid st.sockets.1).only
  refine invoke_within (within_of_areas (cgroupsInit_tidy hostname pid).only (by decide))
    fun _ => ?_
  refine invoke_within (within_of_areas hmaps (by decide)) fun _ => ite_within ?_ ?_
  · exact containerStop_within pid (only_pure _)
  · refine (waitContainer_within pid retries).bind fun status => ?_
    cases status with
    | none => exact only_pure _
    | some status => exact only_pure _

theorem configurePeer_within (peer : CStr) (hostIp : Option CStr) :
    (configurePeer peer hostIp).Only BufferRule := by
  have haddr : (addHostAddr peer hostIp).Only BufferRule := by
    cases hostIp with
    | none => exact only_pure ()
    | some ip => exact invoke_within (nlAddAddr_within peer ip) fun _ => only_pure ()
  refine haddr.bind fun _ => invoke_within (nlSetUp_within peer) fun _ => ite_within ?_ (only_pure ())
  exact (within_of_areas enableIpForward_tidy.only (by decide)).bind fun _ => only_pure ()

theorem hostNetwork_within {st : MainState} (hfit : ConfigFits st.config) :
    (hostNetwork st).Only BufferRule := by
  unfold hostNetwork
  split
  · rename_i name ip hname hip
    obtain ⟨-, tmp, peer, htmp, hpeer, hcreate⟩ := hfit.names name ip hname hip
    rw [htmp, hpeer]
    refine invoke_within (nlDelLink_within tmp) fun _ => ?_
    refine invoke_within (nlDelLink_within peer) fun _ => ?_
    refine invoke_within (nlCreateVeth_within hcreate) fun _ => ite_within (only_pure _) ?_
    refine (configurePeer_within peer _).bind fun _ => ite_within ?_ (only_pure _)
    exact (within_of_areas (applyNat_tidy _ _).only (by decide)).bind fun _ => only_pure _
  · exact only_pure _

theorem runContainer_within (retries : Nat) {st : MainState} (hfit : ConfigFits st.config) :
    (runContainer retries st).Only BufferRule := by
  have hinit : (containerInit st.config).Only BufferRule ∧
      (containerInit st.config).Returns fun x => ConfigFits x.2 := by
    refine ⟨⟨⟨trivial, ?_⟩, fun r => ?_⟩, fun r => ?_⟩
    · rintro flags config ⟨⟩
      exact hfit
    · cases r with
      | error e => exact only_pure _
      | ok pid => exact ite_within (closeFd_within (only_pure _)) (only_pure _)
    · cases r with
      | error e => exact hfit
      | ok pid =>
        show Returns _ (if st.config.fd ≥ 0 then _ else _)
        split
        · exact fun _ => hfit.withFd (-1)
        · exact hfit
  refine hinit.1.bind_returns hinit.2 ?_
  rintro ⟨pid, config⟩ hconfig
  refine ite_within (only_pure _) ?_
  refine call_within (c := .usleep 100000) trivial (by decide) fun _ => ?_
  refine process_within (c := .kill pid.toNat 0) trivial (by simp) fun r => ?_
  cases r with
  | error e => exact only_pure _
  | ok u =>
    dsimp only
    split
    · refine (moveVeth_within pid.toNat _).bind fun _ => ite_within (only_pure _) ?_
      exact superviseContainer_within retries hconfig pid.toNat
    · exact superviseContainer_within retries hconfig pid.toNat

theorem openSockets_within {st : MainState} (hfit : ConfigFits st.config) :
    (openSockets st).Only BufferRule ∧
      (openSockets st).Returns fun e => ∀ st', e = .ok st' → ConfigFits st'.config := by
  refine ⟨call_within (c := .geteuid) trivial (by decide) fun _ => ?_, fun _ => ?_⟩
  · refine call_within (c := .socketpair) trivial (by decide) fun r => ?_
    cases r with
    | error e => exact only_pure _
    | ok pair =>
      refine call_within (c := .fcntlCloexec pair.1) trivial (by simp [Call.area]) fun r => ?_
      cases r with
      | error e => exact only_pure _
      | ok u =>
        exact call_within (c := .malloc) trivial (by decide) fun b =>
          ite_within (only_pure _) (only_pure _)
  · rintro (e | pair)
    · rintro st' ⟨⟩
    · rintro (e | u)
      · rintro st' ⟨⟩
      · rintro (_ | _)
        · rintro st' ⟨⟩
        · rintro st' ⟨⟩
          exact hfit.withFd pair.2

theorem mainFrom_within (retries : Nat) {st : MainState} (hfit : ConfigFits st.config) :
    (mainFrom retries st).Only BufferRule := by
  obtain ⟨honly, hreturns⟩ := openSockets_within hfit
  refine honly.bind_returns hreturns fun e he => ?_
  cases e with
  | error st₁ => exact cleanup_within st₁
  | ok st₁ =>
    have hfit₁ := he st₁ rfl
    refine (hostNetwork_within hfit₁).bind_returns (hostNetwork_returns st₁) fun e he => ?_
    cases e with
    | error st₂ => exact cleanup_within st₂
    | ok st₂ =>
      obtain ⟨vethCreated, natApplied, hostIf, rfl, -⟩ := he
      have hfit₂ : ConfigFits { st₁ with vethCreated, natApplied, hostIf }.config := hfit₁
      exact (runContainer_within retries hfit₂).bind fun st₃ => cleanup_within st₃

/-- The temporary name is always 15 bytes long. -/
theorem length_vethTmpName (s : VethSuffix) : (vethTmpName s.chars).1.length = 15 := by
  have hlow := s.le_length
  have hdash : vethTmpDash.1.length = 9 := rfl
  simp only [vethTmpName, CStr.take_val, CStr.append_val, List.length_take, List.length_append, hdash]
  omega

theorem createFits_vethTmpName (s : VethSuffix) (peer : CStr) :
    CreateFits (vethTmpName s.chars) peer ↔ peer.1.length ≤ 195 := by
  have h20 : align4 20 = 20 := rfl
  rw [CreateFits, length_vethTmpName, h20]
  omega

theorem length_vethPeerName_le (name suffix : CStr) :
    (vethPeerName name suffix).1.length ≤ 15 := List.length_take_le _ _

/-- The names that `main` puts into the configuration fit. -/
theorem configFits_of_configured {args : Args} {st : MainState} (hargs : args.errors = false)
    (hhelp : args.help = false) (hfit : RequestsFit args) (h : Configured args (.ok st)) :
    ConfigFits st.config := by
  cases h with
  | off hoff => exact ⟨rfl, fun name ip hname => nomatch hname⟩
  | @on name ip s hname hip =>
    refine ⟨rfl, fun name' ip' hname' hip' => ?_⟩
    obtain rfl := Option.some.inj hname'
    obtain ⟨hshort, hpeer⟩ := hfit hargs hhelp name ip hname hip
    refine ⟨hshort, _, _, rfl, rfl, (createFits_vethTmpName s _).mpr ?_⟩
    cases hp : args.vethPeer with
    | none => exact Nat.le_trans (length_vethPeerName_le name s.chars) (by decide)
    | some peer => exact hpeer peer hp

theorem main_within {args : Args} (retries : Nat) (hfit : RequestsFit args) :
    (main retries args).Only BufferRule := by
  refine call_within (c := .calloc) trivial (by decide) fun b => ite_within (only_pure _) ?_
  split
  · exact only_pure _
  · rename_i herrors
    split
    · exact only_pure _
    · rename_i hhelp
      refine (within_of_areas (fillConfig_tidy args).only (by decide)).bind_returns
        (fillConfig_configured args) fun e he => ?_
      cases e with
      | error st => exact cleanup_within st
      | ok st =>
        refine mainFrom_within retries (configFits_of_configured ?_ ?_ hfit he)
        · exact eq_false_of_ne_true herrors
        · exact eq_false_of_ne_true hhelp

/-! ## Runs that overrun a structure -/

/-- A netlink operation fails when it gets no socket. -/
theorem noSocket_fails {f : Int → Sys Int} :
    CanReturn (nlSocket >>= fun sock => if sock < 0 then pure (-1) else f sock) (-1) :=
  ⟨.error EPERM, rfl⟩

/-- The socket that is given out when there is one. -/
theorem canReturn_socket {f : Int → Sys Int} {r : Int} (h : (f (6 : Nat)).CanReturn r) :
    CanReturn (nlSocket >>= fun sock => if sock < 0 then pure (-1) else f sock) r := by
  refine ⟨.ok (6 : Nat), .ok (), ?_⟩
  show CanReturn (if ((6 : Nat) : Int) < 0 then pure (-1) else f (6 : Nat)) r
  rw [if_neg (by decide)]
  exact h

theorem canCall_socket {f : Int → Sys Int} {c : Call} (h : (f (6 : Nat)).CanCall c) :
    CanCall (nlSocket >>= fun sock => if sock < 0 then pure (-1) else f sock) c := by
  refine .inr ⟨.ok (6 : Nat), .inr ⟨.ok (), ?_⟩⟩
  show CanCall (if ((6 : Nat) : Int) < 0 then pure (-1) else f (6 : Nat)) c
  rw [if_neg (by decide)]
  exact h

/-- The interface is there. -/
theorem canCall_lookup {β : Type} {ifname : CStr} {k : Nat → Sys β} {c : Call}
    (h : (k 1).CanCall c) : (sys (.ifNametoindex ifname) >>= k).CanCall c := .inr ⟨(1 : Nat), h⟩

theorem canReturn_invoke {f : Fn} {body : Sys Int} {r : Int} (h : body.CanReturn r) :
    (invoke f body).CanReturn r := ⟨(), h.bind ⟨(), rfl⟩⟩

theorem canCall_invoke {f : Fn} {body : Sys Int} {c : Call} (h : body.CanCall c) :
    (invoke f body).CanCall c := .inr ⟨(), h.bind⟩

/-- The datagram with which the kernel grants request 1. -/
def ackDatagram : List UInt8 := le32 20 ++ le16 NLMSG_ERROR ++ le16 0 ++ le32 1 ++ le32 0 ++ le32 0

/-- The answer to request 1 can be the kernel's acknowledgement. -/
theorem createVeth_granted (sock : Int) (msg : NlMsg) :
    (nlSendRecv sock msg 1 RTM_NEWLINK).CanReturn 0 := by
  refine ⟨.ok (0 : Nat), ⟨List.replicate 4096 0, List.length_replicate⟩, .ok ackDatagram, ?_⟩
  show replyScan (ackDatagram ++ (List.replicate 4096 0).drop ackDatagram.length) 1 RTM_NEWLINK 4096 0
    ackDatagram.length = 0
  decide +kernel

/-- A creation whose names fit can succeed. -/
theorem createVeth_succeeds {name1 name2 : CStr} (hfit : CreateFits name1 name2) :
    (nlCreateVeth name1 name2).CanReturn 0 := by
  obtain ⟨msg, hmsg, -⟩ := createVethMsg_within hfit
  have hwait : ∀ name, (waitForInterface name 5000).CanReturn 1 := fun name => ⟨(1 : Nat), rfl⟩
  refine canReturn_socket ?_
  rw [hmsg]
  refine (createVeth_granted _ msg).bind ⟨.ok (), ?_⟩
  exact (hwait name1).bind ((hwait name2).bind rfl)

/-- A creation whose names do not fit can write past the end of the structure. -/
theorem createVeth_overruns {name1 name2 : CStr} (hfit : ¬ CreateFits name1 name2) :
    (nlCreateVeth name1 name2).CanCall .undefined := by
  refine canCall_socket ?_
  rw [createVethMsg_eq_none hfit]
  exact .inl rfl

/-- A renaming to a name that does not fit can write past the end of the structure. -/
theorem renameLink_overruns (oldname : CStr) {newname : CStr} (hfit : 59 < newname.1.length) :
    (nlRenameLink oldname newname).CanCall .undefined := by
  refine canCall_socket (canCall_lookup ?_)
  rw [if_neg Nat.one_ne_zero, renameLinkMsg_eq_none hfit]
  exact .inl rfl

theorem mountSet_succeeds (mnt : CStr) : (mountSet mnt).CanReturn 0 :=
  ⟨.ok (), .ok suffixA, .ok (), .ok suffixA, .ok (), .ok (), .ok (), .ok (), .ok (), rfl⟩

/-- The child goes on to the renaming. -/
theorem containerStart_overruns {config : ContainerConfig} {hostname ip tmp : CStr} (name : CStr)
    (hhost : config.hostname = some hostname) (hname : config.vethName = some name)
    (hip : config.containerIp = some ip) (htmp : config.vethTmp = some tmp)
    (hlong : 59 < name.1.length) : (containerStart config).CanCall .undefined := by
  have hhostname : (containerHostname config).CanReturn true := by
    unfold containerHostname
    rw [hhost]
    exact ⟨.ok (), rfl⟩
  refine hhostname.call ?_
  refine (canReturn_invoke (mountSet_succeeds config.mnt)).call ?_
  have hpoll : (pollInterface tmp 51 0).CanReturn 0 := ⟨(1 : Nat), rfl⟩
  have hrename : (configureRename config name).CanCall .undefined := by
    unfold configureRename
    rw [htmp]
    exact hpoll.call (canCall_invoke (renameLink_overruns tmp hlong)).bind
  have hnetwork : (configureNetwork config).CanCall .undefined := by
    unfold configureNetwork
    rw [hname, hip]
    exact (canReturn_invoke (f := .nlSetUp loName) noSocket_fails).call hrename.bind
  exact hnetwork.bind

/-- Every call but the two that stop a run can be answered. -/
theorem nonempty_answer {c : Call} (hc : c.area ≠ .stuck) : Nonempty (Answer c) := by
  cases c with
  | uninit n => exact ⟨⟨List.replicate n 0, List.length_replicate⟩⟩
  | undefined => exact absurd rfl hc
  | waiting => exact absurd rfl hc
  | fgets size => exact ⟨none⟩
  | _ => first | exact ⟨.error EPERM⟩ | exact ⟨true⟩ | exact ⟨()⟩ | exact ⟨(0 : Nat)⟩ | exact ⟨(0 : UInt32)⟩

/-- A function without those two calls can return something. -/
theorem exists_return_of_areas {α : Type} {S : List Area} {p : Sys α}
    (hp : p.Only fun c => c.area ∈ S) (hS : Area.stuck ∉ S) : ∃ a, p.CanReturn a :=
  exists_return hp fun _ hc => nonempty_answer fun hstuck => hS (hstuck ▸ hc)

/-- Section 3 can succeed. -/
theorem fillConfig_succeeds {args : Args} {name ip : CStr} (hname : args.vethName = some name)
    (hip : args.containerIp = some ip) : ∃ s : VethSuffix, (fillConfig args).CanReturn
      (.ok (((networkState args name ip).withPeer
        (args.vethPeer.getD (vethPeerName name s.chars))).withTmp (vethTmpName s.chars))) := by
  obtain ⟨buf, hbuf⟩ := exists_return_of_areas
    (generateRandomSuffix_tidy (List.replicate 16 0)).only (by decide)
  obtain ⟨s, hs⟩ := (generateRandomSuffix_returns List.length_replicate).of_can hbuf
  have halloc : (allocPeer args).CanReturn true := by
    unfold allocPeer
    split
    · exact ⟨true, rfl⟩
    · exact ⟨true, rfl⟩
  refine ⟨s, ?_⟩
  unfold fillConfig
  rw [hname, hip]
  refine ⟨⟨List.replicate 16 0, List.length_replicate⟩, hbuf.bind ?_⟩
  refine halloc.bind ⟨true, ?_⟩
  rw [hs]
  rfl

/-- Sections 4 and 5 can succeed. -/
theorem openSockets_succeeds (st : MainState) : (openSockets st).CanReturn
    (.ok { st with sockets := (3, 4), config := { st.config with fd := 4 }, stack := true }) :=
  ⟨(0 : UInt32), .ok ((3 : Nat), (4 : Nat)), .ok (), true, rfl⟩

/-- The part of section 6 after the creation can return. -/
theorem configurePeer_returns (peer : CStr) (hostIp : Option CStr) :
    (configurePeer peer hostIp).CanReturn () := by
  have haddr : (addHostAddr peer hostIp).CanReturn () := by
    cases hostIp with
    | none => exact rfl
    | some ip => exact (canReturn_invoke (f := .nlAddAddr peer ip) noSocket_fails).bind rfl
  refine haddr.bind ((canReturn_invoke (f := .nlSetUp peer) noSocket_fails).bind ?_)
  cases hostIp with
  | none => exact rfl
  | some ip => exact ⟨.error EPERM, rfl⟩

/-- The locals after sections 3 to 5 of a run with networking. -/
def readyState (args : Args) (name ip : CStr) (s : VethSuffix) : MainState :=
  let st := ((networkState args name ip).withPeer
    (args.vethPeer.getD (vethPeerName name s.chars))).withTmp (vethTmpName s.chars)
  { st with sockets := (3, 4), config := { st.config with fd := 4 }, stack := true }

/-- A command line that turns networking on. -/
structure Networked (args : Args) (name ip : CStr) : Prop where
  errors : args.errors = false
  help : args.help = false
  vethName : args.vethName = some name
  containerIp : args.containerIp = some ip

section Main

variable {args : Args} {name ip : CStr}

/-- `main` can come to section 6, and to what that can call. -/
theorem main_reaches (retries : Nat) (h : Networked args name ip) : ∃ s : VethSuffix, ∀ c,
    (hostNetwork (readyState args name ip s) >>= fun e => match e with
      | .error st => cleanup st
      | .ok st => runContainer retries st >>= cleanup).CanCall c → (main retries args).CanCall c := by
  obtain ⟨s, hs⟩ := fillConfig_succeeds h.vethName h.containerIp
  refine ⟨s, fun c hc => .inr ⟨true, ?_⟩⟩
  show CanCall (if args.errors then _ else _) c
  rw [h.errors, h.help]
  exact hs.call ((openSockets_succeeds _).call hc)

/-- Removing the old interfaces can fail, which nobody looks at. -/
theorem delLink_fails (ifname : CStr) :
    (invoke (.nlDelLink ifname) (nlDelLink ifname)).CanReturn (-1) :=
  canReturn_invoke noSocket_fails

/-- A peer name that is too long overruns the structure in the parent. -/
theorem main_overruns (retries : Nat) (h : Networked args name ip) {peer : CStr}
    (hpeer : args.vethPeer = some peer) (hlong : 195 < peer.1.length) :
    (main retries args).CanCall .undefined := by
  obtain ⟨s, hs⟩ := main_reaches retries h
  have hfit : ¬ CreateFits (vethTmpName s.chars) peer := by
    rw [createFits_vethTmpName]
    omega
  have hon : (hostNetworkOn (readyState args name ip s) ip (vethTmpName s.chars) peer).CanCall
      .undefined :=
    (delLink_fails _).call ((delLink_fails peer).call (canCall_invoke (createVeth_overruns hfit)).bind)
  refine hs _ (CanCall.bind ?_)
  show (hostNetworkOn _ ip (vethTmpName s.chars) (args.vethPeer.getD _)).CanCall _
  rw [hpeer]
  exact hon

/-- Section 6 can succeed when the names fit. -/
theorem hostNetworkOn_succeeds (st : MainState) (ip : CStr) {tmp peer : CStr} (hfit : CreateFits tmp peer) :
    ∃ st', (hostNetworkOn st ip tmp peer).CanReturn (.ok st') ∧ st'.config = st.config := by
  have hcreate := canReturn_invoke (f := .nlCreateVeth tmp peer) (createVeth_succeeds hfit)
  let st₁ : MainState := { st with vethCreated := true }
  have hrest : ∀ {e}, CanReturn (if st₁.config.enableNat && st₁.config.hostIp.isSome then
        applyNat st₁ ip >>= fun st => pure (Except.ok st) else pure (Except.ok st₁)) e →
      (hostNetworkOn st ip tmp peer).CanReturn e := fun he =>
    (delLink_fails tmp).bind ((delLink_fails peer).bind (hcreate.bind
      ((configurePeer_returns peer st.config.hostIp).bind he)))
  by_cases hnat : (st₁.config.enableNat && st₁.config.hostIp.isSome) = true
  · obtain ⟨st', hst'⟩ := exists_return_of_areas (applyNat_tidy st₁ ip).only (by decide)
    obtain ⟨_, _, hconfig⟩ := (applyNat_returns st₁ ip).of_can hst'
    refine ⟨st', hrest ?_, by rw [hconfig]⟩
    rw [if_pos hnat]
    exact hst'.bind rfl
  · refine ⟨st₁, hrest ?_, rfl⟩
    rw [if_neg hnat]
    exact rfl

/-- `main` can come to the clone, with names that fit the creation. -/
theorem main_clones (retries : Nat) (h : Networked args name ip)
    (hpeer : ∀ peer, args.vethPeer = some peer → peer.1.length ≤ 195) : ∃ s : VethSuffix,
      (main retries args).CanCall (.clone containerFlags (readyState args name ip s).config) := by
  obtain ⟨s, hs⟩ := main_reaches retries h
  have hfit : CreateFits (vethTmpName s.chars) (args.vethPeer.getD (vethPeerName name s.chars)) := by
    rw [createFits_vethTmpName]
    cases hp : args.vethPeer with
    | none => exact Nat.le_trans (length_vethPeerName_le name s.chars) (by decide)
    | some peer => exact hpeer peer hp
  obtain ⟨st', hst', hconfig⟩ :=
    hostNetworkOn_succeeds (readyState args name ip s) ip hfit
  have hclone : (runContainer retries st').CanCall
      (.clone containerFlags (readyState args name ip s).config) := by
    rw [← hconfig]
    exact .inl rfl
  exact ⟨s, hs _ (hst'.call hclone.bind)⟩

/-- Names that do not fit overrun a structure in the parent or in the child. -/
theorem overrun_of_not_fit (retries : Nat) (hno : ¬ RequestsFit args) :
    ¬ BuffersRespected retries args := by
  intro hall
  have hstep : ∀ h c r, ∃ h', (Machine.history (C := Call) (R := Answer)).step h c r h' :=
    fun h c r => ⟨_, rfl⟩
  refine hno fun herrors hhelp name ip hname hip => ?_
  have hon : Networked args name ip := ⟨herrors, hhelp, hname, hip⟩
  have hpeer : ∀ peer, args.vethPeer = some peer → peer.1.length ≤ 195 := by
    intro peer hp
    by_contra hlong
    obtain ⟨k, t, hrun⟩ := (main_overruns retries hon hp (by omega)).run hstep []
    exact (hall _ k t hrun).1
  refine ⟨?_, hpeer⟩
  by_contra hlong
  obtain ⟨s, hs⟩ := main_clones retries hon hpeer
  obtain ⟨k, t, hrun⟩ := hs.run hstep []
  have hchild := containerStart_overruns name (rfl : (readyState args name ip s).config.hostname = _)
    rfl rfl rfl (by omega)
  obtain ⟨k', t', hrun'⟩ := hchild.run hstep []
  exact (hall _ k t hrun).2 _ _ rfl _ k' t' hrun'

end Main

/-! ## The result -/

/-- Every run of `main` and of its child keeps to the two structures exactly when
`--veth` is at most 59 bytes long and `--veth-peer`, if given, at most 195. -/
theorem buffers_respected_iff (retries : Nat) (args : Args) :
    BuffersRespected retries args ↔ RequestsFit args := by
  refine ⟨fun h => ?_, fun hfit c k h hrun => ?_⟩
  · by_contra hno
    exact overrun_of_not_fit retries hno h
  · obtain ⟨hwithin, hclone⟩ := (main_within retries hfit).run_call hrun
    refine ⟨hwithin, fun flags config hc c' k' h' hrun' => ?_⟩
    exact ((containerStart_within (hclone flags config hc)).run_call hrun').1

/-- `--veth-peer` with a text of 196 bytes -/
def longPeerArgs : Args :=
  { webArgs with vethPeer := some ⟨List.replicate 196 97, by decide +kernel⟩ }

/-- `--veth` with a text of 60 bytes -/
def longNameArgs : Args :=
  { webArgs with vethName := some ⟨List.replicate 60 97, by decide +kernel⟩ }

/-- The parent overruns the creation request, the child the renaming request. -/
theorem long_names_overrun :
    ¬ BuffersRespected 1 longPeerArgs ∧ ¬ BuffersRespected 1 longNameArgs := by
  refine ⟨overrun_of_not_fit 1 fun hfit => ?_, overrun_of_not_fit 1 fun hfit => ?_⟩
  · have hpeer := (hfit rfl rfl _ _ rfl rfl).2 _ rfl
    rw [List.length_replicate] at hpeer
    omega
  · have hname := (hfit rfl rfl _ _ rfl rfl).1
    rw [List.length_replicate] at hname
    omega

end Barco
