import Barco.Main

/-!
# Areas and descriptors

Two facts about a function that do not depend on what the kernel does:
which areas of the kernel its calls are about, and that it uses and closes
only descriptors it has opened itself, all of them before it returns.

Both are one statement, `Tidy`, proved once for each function. A module that
models a part of the kernel gets the functions it is not about from here, with
`wp_sim` or as footprints.
-/

namespace Barco

open Effect Prog

/-- What a call is about. -/
inductive Area
  /-- memory, clocks, host tools, identity lookups -/
  | libc
  | process
  | sockets
  /-- a call on an open descriptor -/
  | descriptor
  /-- opening an ordinary file -/
  | file
  | cgroup
  | idMap
  /-- mounts and the host name -/
  | mount
  | netlink
  | firewall
  | identity
  /-- capabilities of the process -/
  | caps
  /-- the system call filter -/
  | filter
  | execve
  /-- the mark of an `nl_del_link` -/
  | delMark
  | mark
  | stuck
deriving DecidableEq, Repr

def Path.area : Path → Area
  | .ipForward | .pingGroupRange | .resolvConf | .netNs _ => .file
  | .subtreeControl | .cgroupDir _ | .cgroupFile _ _ => .cgroup
  | .idFile _ _ => .idMap
  | .raw _ => .mount

def Fn.area : Fn → Area
  | .nlDelLink _ => .delMark
  | _ => .mark

def Call.area : Call → Area
  | .calloc | .malloc | .asprintf | .strdup | .uninit _ | .rand | .geteuid | .getuid | .usleep _
  | .popen | .fgets _ | .pclose => .libc
  | .clone _ _ | .kill _ _ | .waitpid _ => .process
  | .execve _ _ => .execve
  | .socketpair => .sockets
  | .fcntlCloexec _ | .read _ _ | .write _ _ | .dprintf _ _ | .close _ => .descriptor
  | .open path _ | .mkdir path | .rmdir path => path.area
  | .mkdtemp _ | .mount _ _ _ _ | .pivotRoot _ _ | .chdir _ | .umount2 _ _ | .sethostname _ =>
    .mount
  | .socketNetlink | .setsockoptRcvtimeo _ | .sendmsg _ _ | .recvmsg _ | .ifNametoindex _ =>
    .netlink
  | .iptables _ => .firewall
  | .unshare _ | .setresgid _ _ _ | .setresuid _ _ _ => .identity
  | .prctlCapbsetDrop _ | .capGetProc | .capClearInheritable _ | .capSetProc | .capFree => .caps
  | .seccompInit _ | .seccompRuleAdd _ | .seccompAttrNnp _ | .seccompLoad | .seccompRelease =>
    .filter
  | .enter f | .leave f _ => f.area
  | .undefined | .waiting => .stuck

theorem Fn.area_eq (f : Fn) : f.area = .mark ∨ f.area = .delMark := by
  cases f with
  | nlDelLink ifname => exact .inr rfl
  | _ => exact .inl rfl

/-- The descriptor a call works on. -/
def Call.fd? : Call → Option Int
  | .fcntlCloexec fd | .read fd _ | .write fd _ | .dprintf fd _ | .close fd
  | .setsockoptRcvtimeo fd | .sendmsg fd _ | .recvmsg fd => some fd
  | _ => none

/-- The descriptors that are open after a call, of those opened so far. -/
def openAfter (own : List Int) : (c : Call) → Answer c → List Int
  | .socketNetlink, .ok n => n :: own
  | .open _ _, .ok n => n :: own
  | .close fd, _ => own.erase fd
  | _, _ => own

/-- The calls of some areas, on descriptors opened before. -/
def tidy (S : List Area) : Machine Call Answer (List Int) where
  may own c := c.area ∈ S ∧ ∀ fd, c.fd? = some fd → fd ∈ own
  step own c r own' := own' = openAfter own c r

/-- The function makes calls of the areas `S` only, works on descriptors of its
own, has closed them when it returns, and returns a value in `P`. -/
def Tidy {α : Type} (S : List Area) (P : α → Prop) (p : Sys α) : Prop :=
  ∀ own, wp (tidy S) p (fun a own' => own' = own ∧ P a) own

/-- The same for a function that is handed one descriptor and closes it. -/
def TidyOn {α : Type} (S : List Area) (P : α → Prop) (fd : Int) (p : Sys α) : Prop :=
  ∀ own, wp (tidy S) p (fun a own' => own' = own ∧ P a) (fd :: own)

namespace Tidy

variable {α β : Type} {S T : List Area} {P : α → Prop} {Q : β → Prop}

theorem pure {a : α} (h : P a) : Tidy S P (Pure.pure a) := fun _ => ⟨rfl, h⟩

theorem bind {p : Sys α} {f : α → Sys β} (hp : Tidy S P p) (hf : ∀ a, P a → Tidy S Q (f a)) :
    Tidy S Q (p >>= f) := fun own => wp_seq (hp own) fun a own' h => by
  obtain ⟨rfl, ha⟩ := h
  exact hf a ha own'

theorem mono {P' : α → Prop} {p : Sys α} (hp : Tidy S P p) (h : ∀ a, P a → P' a) :
    Tidy S P' p := fun own => wp_mono (hp own) fun a _ hq => ⟨hq.1, h a hq.2⟩

/-- More areas may be allowed. -/
theorem areas {p : Sys α} (hp : Tidy S P p) (h : ∀ a ∈ S, a ∈ T) : Tidy T P p := fun own =>
  wp_mono (wp_sim (I := fun s u => s = u)
    (fun s u c hsu hm => ⟨hsu ▸ ⟨h _ hm.1, hm.2⟩, fun r u' hu => ⟨u', hsu ▸ hu, rfl⟩⟩)
    (hp own) rfl) fun a u hq => by
      obtain ⟨s, rfl, hs⟩ := hq
      exact hs

/-- The areas are the footprint. -/
theorem only {p : Sys α} (hp : Tidy S P p) : p.Only fun c => c.area ∈ S :=
  only_of_wp (M := tidy S) (fun _ _ hm => hm.1) (fun own c r => ⟨openAfter own c r, rfl⟩) (hp [])

theorem returns {p : Sys α} (hp : Tidy S P p) : p.Returns P :=
  returns_of_wp (M := tidy S) (fun own c r => ⟨openAfter own c r, rfl⟩)
    (wp_mono (hp []) fun _ _ h => h.2)

end Tidy

/-- A function that uses one descriptor and leaves it open. -/
def Uses {α : Type} (S : List Area) (P : α → Prop) (fd : Int) (p : Sys α) : Prop :=
  ∀ own, fd ∈ own → wp (tidy S) p (fun a own' => own' = own ∧ P a) own

section Rules

variable {α β : Type} {S : List Area} {P : α → Prop} {Q : β → Prop} {fd : Int}

/-- A call that opens nothing and works on no descriptor. -/
theorem Tidy.call {c : Call} {k : Answer c → Sys β} (hc : c.area ∈ S) (hfd : c.fd? = none)
    (hopen : ∀ own r, openAfter own c r = own) (hk : ∀ r, Tidy S Q (k r)) :
    Tidy S Q (sys c >>= k) := fun own =>
  ⟨⟨hc, by simp [hfd]⟩, fun r own' h => by
    obtain rfl : own' = own := h.trans (hopen own r)
    exact hk r own'⟩

/-- A call that opens nothing and works on the descriptor at hand, if on one. -/
theorem Uses.call {c : Call} {k : Answer c → Sys β} (hc : c.area ∈ S)
    (hfd : ∀ d, c.fd? = some d → d = fd) (hopen : ∀ own r, openAfter own c r = own)
    (hk : ∀ r, Uses S Q fd (k r)) : Uses S Q fd (sys c >>= k) := fun own hmem =>
  ⟨⟨hc, fun d hd => hfd d hd ▸ hmem⟩, fun r own' h => by
    obtain rfl : own' = own := h.trans (hopen own r)
    exact hk r own' hmem⟩

theorem Uses.pure {a : α} (h : P a) : Uses S P fd (Pure.pure a) := fun _ _ => ⟨rfl, h⟩

theorem Tidy.uses {p : Sys α} (h : Tidy S P p) : Uses S P fd p := fun own _ => h own

/-- A descriptor is used, and then the function goes on to close it. -/
theorem TidyOn.bind {p : Sys α} {f : α → Sys β} (hp : Uses S P fd p)
    (hf : ∀ a, P a → TidyOn S Q fd (f a)) : TidyOn S Q fd (p >>= f) := fun own =>
  wp_seq (hp (fd :: own) List.mem_cons_self) fun a own' h => by
    obtain ⟨rfl, ha⟩ := h
    exact hf a ha own

theorem TidyOn.call {c : Call} {k : Answer c → Sys β} (hc : c.area ∈ S)
    (hfd : ∀ d, c.fd? = some d → d = fd) (hopen : ∀ own r, openAfter own c r = own)
    (hk : ∀ r, TidyOn S Q fd (k r)) : TidyOn S Q fd (sys c >>= k) := fun own =>
  ⟨⟨hc, fun d hd => hfd d hd ▸ List.mem_cons_self⟩, fun r own' h => by
    obtain rfl : own' = fd :: own := h.trans (hopen (fd :: own) r)
    exact hk r own⟩

/-- Closing the descriptor, whatever `close` says. -/
theorem TidyOn.close {k : Answer (.close fd) → Sys β} (hS : Area.descriptor ∈ S)
    (hk : ∀ r, Tidy S Q (k r)) : TidyOn S Q fd (sys (.close fd) >>= k) := fun own =>
  ⟨⟨hS, fun d hd => Option.some.inj hd ▸ List.mem_cons_self⟩, fun r own' h => by
    obtain rfl : own' = own := h.trans (List.erase_cons_head fd own)
    exact hk r own'⟩

theorem TidyOn.closeFd {k : Unit → Sys β} (hS : Area.descriptor ∈ S) (hk : Tidy S Q (k ())) :
    TidyOn S Q fd (closeFd fd >>= k) :=
  TidyOn.close hS fun _ => hk

/-- A file is opened; the rest of the function has to close it. -/
theorem Tidy.open {path : Path} {mode : OpenMode} {k : Res Nat → Sys β} (hS : path.area ∈ S)
    (herr : ∀ e, Tidy S Q (k (.error e))) (hk : ∀ fd : Nat, TidyOn S Q fd (k (.ok fd))) :
    Tidy S Q (sys (.open path mode) >>= k) := fun own =>
  ⟨⟨hS, by simp [Call.fd?]⟩, fun r own' h => by
    cases r with
    | error e =>
      obtain rfl : own' = own := h
      exact herr e own'
    | ok fd =>
      obtain rfl : own' = (fd : Int) :: own := h
      exact hk fd own⟩

theorem Tidy.ite {c : Prop} [Decidable c] {p q : Sys α} (hp : c → Tidy S P p)
    (hq : ¬ c → Tidy S P q) : Tidy S P (if c then p else q) := by
  split
  · exact hp ‹_›
  · exact hq ‹_›

theorem TidyOn.ite {c : Prop} [Decidable c] {p q : Sys α} (hp : c → TidyOn S P fd p)
    (hq : ¬ c → TidyOn S P fd q) : TidyOn S P fd (if c then p else q) := by
  split
  · exact hp ‹_›
  · exact hq ‹_›

theorem Uses.ite {c : Prop} [Decidable c] {p q : Sys α} (hp : c → Uses S P fd p)
    (hq : ¬ c → Uses S P fd q) : Uses S P fd (if c then p else q) := by
  split
  · exact hp ‹_›
  · exact hq ‹_›

theorem Uses.only {p : Sys α} (hp : Uses S P fd p) : p.Only fun c => c.area ∈ S :=
  only_of_wp (M := tidy S) (fun _ _ hm => hm.1) (fun own c r => ⟨openAfter own c r, rfl⟩)
    (hp [fd] List.mem_cons_self)

theorem Tidy.invoke {f : Fn} {body : Sys Int} {P : Int → Prop} (hf : f.area ∈ S)
    (h : Tidy S P body) : Tidy S P (invoke f body) :=
  .call hf rfl (fun _ _ => rfl) fun _ => .bind h fun _ hr =>
    .call hf rfl (fun _ _ => rfl) fun _ => .pure hr

/-- A step of the form: call, and return -1 when it failed. -/
theorem Tidy.orFail {p : Sys (Res α)} {k : Res α → Sys Int} (hp : Tidy S (fun _ => True) p)
    (herr : ∀ e, k (.error e) = Pure.pure (-1)) (hk : ∀ a, Tidy S Status (k (.ok a))) :
    Tidy S Status (p >>= k) :=
  .bind hp fun r _ => by
    cases r with
    | error e => exact herr e ▸ .pure .fail
    | ok a => exact hk a

/-- A single call that opens nothing and works on no descriptor. -/
theorem Tidy.sys {c : Call} (hc : c.area ∈ S) (hfd : c.fd? = none)
    (hopen : ∀ own r, openAfter own c r = own) : Tidy S (fun _ => True) (sys c) := fun own =>
  ⟨⟨hc, by simp [hfd]⟩, fun r own' h => ⟨h.trans (hopen own r), trivial⟩⟩

theorem Tidy.overrun {S : List Area} {P : α → Prop} (hS : Area.stuck ∈ S) :
    Tidy S P (overrun : Sys α) := fun _ => ⟨⟨hS, by simp [Call.fd?]⟩, fun r => nomatch r⟩

end Rules

/-! ## Calls aside from a resource -/

/-- The call is in none of the areas `A` and marks none of the functions `F`. -/
def Avoids (A : List Area) (F : Fn → Prop) (c : Call) : Prop :=
  c.area ∉ A ∧ (∀ f, c = .enter f → ¬ F f) ∧ ∀ f r, c = .leave f r → ¬ F f

section Avoids

variable {α : Type} {A S : List Area} {F : Fn → Prop}

theorem Avoids.areas {c : Call} (h : Avoids A F c) {a : Area} (ha : a ∈ A) : c.area ≠ a :=
  fun heq => h.1 (heq ▸ ha)

/-- Areas other than those of `A`, and no marks but those of `nl_del_link`. -/
theorem avoids_of_areas {q : Sys α} (hq : q.Only fun c => c.area ∈ S)
    (hS : ∀ a ∈ S, a ∉ A ∧ a ≠ .mark) (hdel : ∀ ifname, ¬ F (.nlDelLink ifname)) :
    q.Only (Avoids A F) := by
  have hmark : ∀ f : Fn, f.area ∈ S → ¬ F f := by
    intro f hf
    cases f with
    | nlDelLink ifname => exact hdel ifname
    | _ => exact absurd rfl (hS _ hf).2
  refine hq.mono fun c hc => ⟨(hS _ hc).1, fun f h => ?_, fun f r h => ?_⟩
  · subst h
    exact hmark f hc
  · subst h
    exact hmark f hc

theorem avoids_invoke {f : Fn} {body : Sys Int} (hA : .mark ∉ A ∧ .delMark ∉ A) (hf : ¬ F f)
    (hbody : body.Only (Avoids A F)) : (invoke f body).Only (Avoids A F) := by
  have harea : f.area ∉ A := by
    rcases f.area_eq with h | h <;> rw [h]
    · exact hA.1
    · exact hA.2
  have henter : Avoids A F (.enter f) :=
    ⟨harea, fun f' h => Call.enter.inj h ▸ hf, nofun⟩
  have hleave : ∀ r, Avoids A F (.leave f r) := fun r =>
    ⟨harea, nofun, fun f' r' h => (Call.leave.inj h).1 ▸ hf⟩
  exact ⟨henter, fun _ => hbody.bind fun r => ⟨hleave r, fun _ => only_pure r⟩⟩

end Avoids

/-! ## Netlink -/

/-- The areas of the netlink operations. -/
def nlAreas : List Area := [.netlink, .descriptor, .libc, .stuck, .delMark]

theorem nl_netlink : Area.netlink ∈ nlAreas := by decide

theorem nl_descriptor : Area.descriptor ∈ nlAreas := by decide

theorem nl_libc : Area.libc ∈ nlAreas := by decide

theorem nl_stuck : Area.stuck ∈ nlAreas := by decide

theorem nl_delMark : Area.delMark ∈ nlAreas := by decide

/-- `nl_socket` followed by the test of its result. -/
theorem tidy_nlSocket {P : Int → Prop} {f : Int → Sys Int} (hfail : P (-1))
    (hf : ∀ sock : Nat, TidyOn nlAreas P sock (f sock)) :
    Tidy nlAreas P (nlSocket >>= fun sock => if sock < 0 then pure (-1) else f sock) := by
  intro own
  refine ⟨⟨nl_netlink, by simp [Call.fd?]⟩, fun r own' h => ?_⟩
  cases r with
  | error e =>
    obtain rfl : own' = own := h
    exact ⟨rfl, hfail⟩
  | ok sock =>
    obtain rfl : own' = (sock : Int) :: own := h
    refine ⟨⟨nl_netlink, ?_⟩, fun r own' h => ?_⟩
    · rintro d ⟨⟩
      exact List.mem_cons_self
    · obtain rfl : own' = (sock : Int) :: own := h
      have hpos : ¬ ((sock : Int) < 0) := by omega
      show wp (tidy nlAreas) (if (sock : Int) < 0 then pure (-1) else f sock) _ _
      rw [if_neg hpos]
      exact hf sock own

theorem replyScan_status (buf : List UInt8) (seq type fuel off : Nat) (len : Int) :
    Status (replyScan buf seq type fuel off len) := by
  induction fuel generalizing off len with
  | zero => exact .fail
  | succ fuel ih =>
    simp only [replyScan]
    split_ifs <;> first | exact ih _ _ | exact .zero | exact .fail

theorem nlSendRecv_uses (sock : Int) (msg : NlMsg) (seq type : Nat) :
    Uses nlAreas Status sock (nlSendRecv sock msg seq type) := by
  refine .call nl_netlink (fun d hd => (Option.some.inj hd).symm) (fun _ _ => rfl) fun r => ?_
  cases r with
  | error e => exact .pure .fail
  | ok n =>
    refine .call nl_libc (fun d hd => nomatch hd) (fun _ _ => rfl) fun stack => ?_
    refine .call nl_netlink (fun d hd => (Option.some.inj hd).symm) (fun _ _ => rfl) fun r => ?_
    cases r with
    | error e => exact .pure .fail
    | ok data => exact .pure (replyScan_status _ _ _ _ _ _)

/-- A request on an open socket, and then the close. -/
theorem nlSendRecv_close (sock : Int) (msg : NlMsg) (seq type : Nat) {f : Int → Sys Int}
    (hf : ∀ ret, Status ret → Tidy nlAreas Status (f ret)) :
    TidyOn nlAreas Status sock
      (nlSendRecv sock msg seq type >>= fun ret => closeFd sock >>= fun _ => f ret) :=
  .bind (nlSendRecv_uses sock msg seq type) fun ret hret => .closeFd nl_descriptor (hf ret hret)

theorem waitLoop_tidy (ifname : CStr) (timeoutMs fuel waited : Nat) :
    Tidy nlAreas (fun _ => True) (waitLoop ifname timeoutMs fuel waited) := by
  induction fuel generalizing waited with
  | zero => exact .pure trivial
  | succ fuel ih =>
    refine .ite (fun _ => ?_) fun _ => .pure trivial
    refine .call nl_netlink rfl (fun _ _ => rfl) fun idx => ?_
    refine .ite (fun _ => .pure trivial) fun _ => ?_
    exact .call nl_libc rfl (fun _ _ => rfl) fun _ => ih _

theorem nlDelLink_tidy (ifname : CStr) : Tidy nlAreas Status (nlDelLink ifname) := by
  refine tidy_nlSocket .fail fun sock => ?_
  refine .call nl_netlink (fun d hd => nomatch hd) (fun _ _ => rfl) fun idx => ?_
  refine .ite (fun _ => .closeFd nl_descriptor (.pure .zero)) fun _ => ?_
  exact nlSendRecv_close _ _ _ _ fun ret hret => .pure hret

theorem nlCreateVeth_tidy (name1 name2 : CStr) :
    Tidy nlAreas Status (nlCreateVeth name1 name2) := by
  refine tidy_nlSocket .fail fun sock => ?_
  cases hmsg : createVethMsg name1 name2 with
  | none =>
    exact fun own => ⟨⟨nl_stuck, by simp [Call.fd?]⟩, fun r => nomatch r⟩
  | some msg =>
    refine nlSendRecv_close _ _ _ _ fun ret hret => .ite (fun _ => .pure .fail) fun _ => ?_
    refine .bind (waitLoop_tidy _ _ _ _) fun idx1 _ => ?_
    refine .bind (waitLoop_tidy _ _ _ _) fun idx2 _ => ?_
    refine .ite (fun _ => ?_) fun _ => .pure .zero
    exact .bind (.invoke nl_delMark (nlDelLink_tidy name1)) fun _ _ => .pure .fail

/-- An operation that waits for an interface, sends one request and closes. -/
theorem nlSetUp_tidy (ifname : CStr) : Tidy nlAreas Status (nlSetUp ifname) := by
  refine tidy_nlSocket .fail fun sock => ?_
  refine .bind (waitLoop_tidy _ _ _ _).uses fun idx _ => ?_
  refine .ite (fun _ => .closeFd nl_descriptor (.pure .fail)) fun _ => ?_
  exact nlSendRecv_close _ _ _ _ fun ret hret => .pure hret

theorem nlAddAddr_tidy (ifname ipCidr : CStr) : Tidy nlAreas Status (nlAddAddr ifname ipCidr) := by
  refine tidy_nlSocket .fail fun sock => ?_
  refine .bind (waitLoop_tidy _ _ _ _).uses fun idx _ => ?_
  refine .ite (fun _ => .closeFd nl_descriptor (.pure .fail)) fun _ => ?_
  cases hip : parseCidr ipCidr with
  | none => exact .closeFd nl_descriptor (.pure .fail)
  | some ip => exact nlSendRecv_close _ _ _ _ fun ret hret => .pure hret

theorem nlAddRouteDev_tidy (sock : Int) (dst : List UInt8) (dstLen : Nat)
    (gateway : Option (List UInt8)) (dev : Option CStr) :
    TidyOn nlAreas Status sock (nlAddRouteDev sock dst dstLen gateway dev) := by
  cases dev with
  | none => exact nlSendRecv_close _ _ _ _ fun ret hret => .pure hret
  | some dev =>
    refine .call nl_netlink (fun d hd => nomatch hd) (fun _ _ => rfl) fun idx => ?_
    refine .ite (fun _ => .closeFd nl_descriptor (.pure .fail)) fun _ => ?_
    exact nlSendRecv_close _ _ _ _ fun ret hret => .pure hret

theorem nlAddRoute_tidy (dest gateway dev : Option CStr) :
    Tidy nlAreas Status (nlAddRoute dest gateway dev) := by
  refine tidy_nlSocket .fail fun sock => ?_
  cases hdst : parseDest dest with
  | none => exact .closeFd nl_descriptor (.pure .fail)
  | some dst =>
    cases gateway with
    | none => exact nlAddRouteDev_tidy _ _ _ _ _
    | some gw =>
      cases hgw : inetPton gw with
      | none =>
        simp only [hgw]
        exact .closeFd nl_descriptor (.pure .fail)
      | some gwIp =>
        simp only [hgw]
        exact nlAddRouteDev_tidy _ _ _ _ _

theorem nlMoveToNs_tidy (ifname : CStr) (nsFd : Int) :
    Tidy nlAreas Status (nlMoveToNs ifname nsFd) := by
  refine tidy_nlSocket .fail fun sock => ?_
  refine .call nl_netlink (fun d hd => nomatch hd) (fun _ _ => rfl) fun idx => ?_
  refine .ite (fun _ => .closeFd nl_descriptor (.pure .fail)) fun _ => ?_
  exact nlSendRecv_close _ _ _ _ fun ret hret => .pure hret

theorem nlRenameLink_tidy (oldname newname : CStr) :
    Tidy nlAreas Status (nlRenameLink oldname newname) := by
  refine tidy_nlSocket .fail fun sock => ?_
  refine .call nl_netlink (fun d hd => nomatch hd) (fun _ _ => rfl) fun idx => ?_
  refine .ite (fun _ => .closeFd nl_descriptor (.pure .fail)) fun _ => ?_
  cases hmsg : renameLinkMsg idx newname with
  | none => exact fun own => ⟨⟨nl_stuck, by simp [Call.fd?]⟩, fun r => nomatch r⟩
  | some msg => exact nlSendRecv_close _ _ _ _ fun ret hret => .pure hret

/-! ## The container -/

theorem mountSet_tidy (mnt : CStr) : Tidy [.mount] Status (mountSet mnt) := by
  have hcall : ∀ {c : Call}, c.area = .mount → c.fd? = none →
      (∀ own r, openAfter own c r = own) → Tidy [.mount] (fun _ => True) (sys c) :=
    fun hc hfd hopen => .sys (List.mem_singleton.mpr hc) hfd hopen
  unfold mountSet
  refine .orFail ?_ (fun _ => rfl) fun _ => ?_
  · exact hcall rfl rfl fun _ _ => rfl
  refine .orFail ?_ (fun _ => rfl) fun x => ?_
  · exact hcall rfl rfl fun _ _ => rfl
  refine .orFail ?_ (fun _ => rfl) fun _ => ?_
  · exact hcall rfl rfl fun _ _ => rfl
  refine .orFail ?_ (fun _ => rfl) fun y => ?_
  · exact hcall rfl rfl fun _ _ => rfl
  refine .orFail ?_ (fun _ => rfl) fun _ => ?_
  · exact hcall rfl rfl fun _ _ => rfl
  refine .orFail ?_ (fun _ => rfl) fun _ => ?_
  · exact hcall rfl rfl fun _ _ => rfl
  refine .orFail ?_ (fun _ => rfl) fun _ => ?_
  · exact hcall rfl rfl fun _ _ => rfl
  refine .orFail ?_ (fun _ => rfl) fun _ => ?_
  · exact hcall rfl rfl fun _ _ => rfl
  refine .orFail ?_ (fun _ => rfl) fun _ => ?_
  · exact hcall rfl rfl fun _ _ => rfl
  exact .pure .zero

/-- The areas of the files the container writes. -/
def fileAreas : List Area := [.file, .descriptor, .libc]

theorem file_file : Area.file ∈ fileAreas := by decide

theorem file_descriptor : Area.descriptor ∈ fileAreas := by decide

theorem file_libc : Area.libc ∈ fileAreas := by decide

/-- One write to an open file, and then the close. -/
theorem write_close {fd : Int} {data : List UInt8} {k : Answer (.write fd data) → Sys Int}
    (hk : ∀ r, Tidy fileAreas Status (k r)) :
    TidyOn fileAreas Status fd
      (sys (.write fd data) >>= fun n => closeFd fd >>= fun _ => k n) :=
  .call file_descriptor (fun _ hd => (Option.some.inj hd).symm) (fun _ _ => rfl) fun n =>
    .closeFd file_descriptor (hk n)

/-- The count that `write` returned decides the result. -/
theorem status_of_count (c : Prop) [Decidable c] : Status (if c then 0 else -1) := by
  split
  · exact .zero
  · exact .fail

theorem enablePingDgram_tidy : Tidy fileAreas Status enablePingDgram := by
  refine .open file_file (fun e => .pure .fail) fun fd => write_close fun n => ?_
  cases n with
  | error e => exact .pure .fail
  | ok n => exact .pure (status_of_count _)

theorem setupDns_tidy (dnsServer : CStr) : Tidy fileAreas Status (setupDns dnsServer) := by
  refine .open file_file (fun e => .pure .fail) fun fd => ?_
  refine .call file_libc (fun d hd => nomatch hd) (fun _ _ => rfl) fun buf => ?_
  refine .call file_libc (fun d hd => nomatch hd) (fun _ _ => rfl) fun beyond => ?_
  refine write_close fun n => ?_
  cases n with
  | error e => exact .pure .fail
  | ok n => exact .pure (status_of_count _)

theorem containerHostname_tidy (config : ContainerConfig) :
    Tidy [.mount] (fun _ => True) (containerHostname config) := by
  unfold containerHostname
  cases config.hostname with
  | none => exact .pure trivial
  | some name =>
    refine .bind (.sys (List.mem_singleton.mpr rfl) rfl fun _ _ => rfl) fun r _ => ?_
    cases r with
    | error e => exact .pure trivial
    | ok u => exact .pure trivial

/-- The areas of the container's network set-up. -/
def netAreas : List Area := .mark :: nlAreas

theorem net_of_nl : ∀ a ∈ nlAreas, a ∈ netAreas := by decide

theorem net_mark : Area.mark ∈ netAreas := by decide

theorem pollInterface_tidy (ifname : CStr) (fuel waited : Nat) :
    Tidy nlAreas (fun _ => True) (pollInterface ifname fuel waited) := by
  induction fuel generalizing waited with
  | zero => exact .pure trivial
  | succ fuel ih =>
    refine .call nl_netlink rfl (fun _ _ => rfl) fun idx => .ite (fun _ => ?_) fun _ => .pure trivial
    exact .call nl_libc rfl (fun _ _ => rfl) fun _ => ih _

/-- One marked netlink operation of the container. -/
theorem nlInvoke_tidy {f : Fn} {body : Sys Int} (hf : f.area ∈ netAreas)
    (h : Tidy nlAreas Status body) : Tidy netAreas Status (invoke f body) :=
  .invoke hf (h.areas net_of_nl)

theorem containerRename_tidy (tmp name : CStr) :
    Tidy netAreas (fun _ => True) (containerRename tmp name) := by
  refine .bind ((pollInterface_tidy tmp 51 0).areas net_of_nl) fun waited _ => ?_
  refine .ite (fun _ => .pure trivial) fun _ => ?_
  exact .bind (nlInvoke_tidy net_mark (nlRenameLink_tidy tmp name)) fun _ _ => .pure trivial

theorem configureRename_tidy (config : ContainerConfig) (name : CStr) :
    Tidy netAreas (fun _ => True) (configureRename config name) := by
  unfold configureRename
  cases config.vethTmp with
  | none => exact .pure trivial
  | some tmp => exact containerRename_tidy tmp name

theorem containerRoute_tidy (name hostIp : CStr) :
    Tidy netAreas (fun _ => True) (containerRoute name hostIp) := by
  refine .ite (fun _ => .pure trivial) fun _ => ?_
  exact .bind (nlInvoke_tidy net_mark (nlAddRoute_tidy _ _ _)) fun _ _ => .pure trivial

theorem containerNetwork_tidy (config : ContainerConfig) (name ip : CStr) :
    Tidy netAreas (fun _ => True) (containerNetwork config name ip) := by
  refine .bind (nlInvoke_tidy net_mark (nlSetUp_tidy loName)) fun _ _ => ?_
  refine .bind (configureRename_tidy config name) fun renamed _ => ?_
  refine .ite (fun _ => .pure trivial) fun _ => ?_
  refine .bind (nlInvoke_tidy net_mark (nlAddAddr_tidy name ip)) fun _ _ => ?_
  refine .ite (fun _ => .pure trivial) fun _ => ?_
  refine .bind (nlInvoke_tidy net_mark (nlSetUp_tidy name)) fun _ _ => ?_
  refine .ite (fun _ => .pure trivial) fun _ => ?_
  cases config.hostIp with
  | none => exact .pure trivial
  | some hostIp => exact containerRoute_tidy name hostIp

theorem configureNetwork_tidy (config : ContainerConfig) :
    Tidy netAreas (fun _ => True) (configureNetwork config) := by
  unfold configureNetwork
  split
  · exact containerNetwork_tidy config _ _
  · exact .pure trivial

theorem configureDns_tidy (config : ContainerConfig) :
    Tidy fileAreas (fun _ => True) (configureDns config) := by
  unfold configureDns
  cases config.dnsServer with
  | none => exact .pure trivial
  | some dns => exact .bind (setupDns_tidy dns) fun _ _ => .pure trivial

/-- The areas of `user_namespace_init`. -/
def userAreas : List Area := [.identity, .descriptor, .libc]

theorem user_identity : Area.identity ∈ userAreas := by decide

theorem user_descriptor : Area.descriptor ∈ userAreas := by decide

theorem user_libc : Area.libc ∈ userAreas := by decide

/-- `user_namespace_init` works on the descriptor it is given and leaves it
open. -/
theorem userNamespaceInit_uses (uid : UInt32) (fd : Int) :
    Uses userAreas Status fd (userNamespaceInit uid fd) := by
  refine .call user_identity (fun _ hd => nomatch hd) (fun _ _ => rfl) fun r => ?_
  cases r with
  | error e => exact .pure .fail
  | ok u =>
  refine .call user_descriptor (fun _ hd => (Option.some.inj hd).symm) (fun _ _ => rfl) fun r => ?_
  cases r with
  | error e => exact .pure .fail
  | ok n =>
  refine .ite (fun _ => .pure .fail) fun _ => ?_
  refine .call user_descriptor (fun _ hd => (Option.some.inj hd).symm) (fun _ _ => rfl) fun r => ?_
  cases r with
  | error e => exact .pure .fail
  | ok result =>
  refine .ite (fun _ => .pure .fail) fun _ => .ite (fun _ => .pure .fail) fun _ => ?_
  refine .call user_identity (fun _ hd => nomatch hd) (fun _ _ => rfl) fun r => ?_
  cases r with
  | error e => exact .pure .fail
  | ok u =>
  refine .call user_identity (fun _ hd => nomatch hd) (fun _ _ => rfl) fun r => ?_
  cases r with
  | error e => exact .pure .fail
  | ok u => exact .call user_libc (fun _ hd => nomatch hd) (fun _ _ => rfl) fun _ => .pure .zero

theorem dropBounding_tidy (cs : List Cap) : Tidy [.caps] (fun _ => True) (dropBounding cs) := by
  unfold dropBounding
  induction cs with
  | nil => exact .pure trivial
  | cons c cs ih =>
    refine .call (List.mem_singleton.mpr rfl) rfl (fun _ _ => rfl) fun r => ?_
    cases r with
    | error e => exact .pure trivial
    | ok u => exact ih

theorem secSetCaps_tidy : Tidy [.caps] (fun _ => True) secSetCaps := by
  have hcall : ∀ {c : Call} {k : Answer c → Sys Int}, c.area = .caps → c.fd? = none →
      (∀ own r, openAfter own c r = own) → (∀ r, Tidy [.caps] (fun _ => True) (k r)) →
      Tidy [.caps] (fun _ => True) (sys c >>= k) := fun hc => .call (List.mem_singleton.mpr hc)
  refine .bind (dropBounding_tidy dropCaps) fun b _ => .ite (fun _ => .pure trivial) fun _ => ?_
  refine hcall rfl rfl (fun _ _ => rfl) fun b => .ite (fun _ => .pure trivial) fun _ => ?_
  refine hcall rfl rfl (fun _ _ => rfl) fun r => ?_
  cases r with
  | error e => exact hcall rfl rfl (fun _ _ => rfl) fun _ => .pure trivial
  | ok u =>
  refine hcall rfl rfl (fun _ _ => rfl) fun r => ?_
  cases r with
  | error e => exact hcall rfl rfl (fun _ _ => rfl) fun _ => .pure trivial
  | ok u => exact hcall rfl rfl (fun _ _ => rfl) fun _ => .pure trivial

theorem addRules_tidy (rules : List ScmpRule) :
    Tidy [.filter] (fun _ => True) (addRules rules) := by
  unfold addRules
  induction rules with
  | nil => exact .pure trivial
  | cons rule rules ih =>
    refine .call (List.mem_singleton.mpr rfl) rfl (fun _ _ => rfl) fun r => ?_
    cases r with
    | error e => exact .pure trivial
    | ok u => exact ih

theorem secSetSeccomp_tidy : Tidy [.filter] (fun _ => True) secSetSeccomp := by
  have hcall : ∀ {c : Call} {k : Answer c → Sys Int}, c.area = .filter → c.fd? = none →
      (∀ own r, openAfter own c r = own) → (∀ r, Tidy [.filter] (fun _ => True) (k r)) →
      Tidy [.filter] (fun _ => True) (sys c >>= k) := fun hc => .call (List.mem_singleton.mpr hc)
  have hrelease : Tidy [.filter] (fun _ => True) (do sys .seccompRelease; return (1 : Int)) :=
    hcall rfl rfl (fun _ _ => rfl) fun _ => .pure trivial
  refine hcall rfl rfl (fun _ _ => rfl) fun b => .ite (fun _ => .pure trivial) fun _ => ?_
  refine .bind (addRules_tidy secRules) fun b _ => .ite (fun _ => hrelease) fun _ => ?_
  refine hcall rfl rfl (fun _ _ => rfl) fun r => ?_
  cases r with
  | error e => exact hrelease
  | ok u =>
  refine hcall rfl rfl (fun _ _ => rfl) fun r => ?_
  cases r with
  | error e => exact hrelease
  | ok u => exact hcall rfl rfl (fun _ _ => rfl) fun _ => .pure trivial

end Barco
