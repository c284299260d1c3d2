import Barco.Cidr
import Barco.Main
import Barco.Wire

/-!
# The container's gateway

`container_start` cuts the gateway out of the text from which `nl_add_addr` takes
the address of the host's interface, in another process and with another buffer.
Whenever the text is accepted on the host's side, the default route goes to the
same four bytes.
-/

namespace Barco

open Effect Prog Rtattr

/-- The offset at which `container_start` cuts the host's address. -/
def gatewayLen (hostIp : CStr) : Nat := (hostIp.chr 47).getD hostIp.1.length

/-- What is cut out is short and denotes the address that `parse_cidr` found. -/
theorem gateway_of_parseCidr {hostIp : CStr} {ip : List UInt8} {plen : Nat}
    (h : parseCidr hostIp = some (ip, plen)) :
    gatewayLen hostIp ≤ 15 ∧ inetPton (hostIp.take (gatewayLen hostIp)) = some ip := by
  have hlen : hostIp.1.length < 64 := by
    by_contra hlong
    rw [parseCidr_long hlong] at h
    exact nomatch h
  unfold gatewayLen
  cases hi : hostIp.chr 47 with
  | none =>
    have hip : inetPton hostIp = some ip := by
      rcases (parseCidr_no_slash hi ip plen).mp h with hip | ⟨quad, digits, hs, -⟩
      · exact hip.1
      · exact absurd (hs ▸ List.mem_append_right _ List.mem_cons_self) (chr_eq_none.mp hi)
    rw [Option.getD_none, take_of_length_le (Nat.le_refl _)]
    exact ⟨(length_of_inetPton hip).1, hip⟩
  | some i =>
    rw [parseCidr_slash hi hlen] at h
    obtain ⟨x, hx, hpair⟩ := Option.map_eq_some_iff.mp h
    obtain ⟨rfl, -⟩ := Prod.mk.inj hpair
    have hshort := (length_of_inetPton hx).1
    have hcut := (chr_eq_some hi).2.2
    exact ⟨by rw [Option.getD_some]; omega, hx⟩

/-! ## The requests of the two sides -/

/-- The address request for the interface with this index. -/
def IsAddrRequest (ip : List UInt8) (plen : Nat) (msg : NlMsg) (idx : Nat) : Prop :=
  msg.hdr.type = RTM_NEWADDR ∧ msg.body = .ifaddr AF_INET plen RT_SCOPE_UNIVERSE idx ∧
    tile 24 msg.attrs = some [(IFA_LOCAL, ip), (IFA_ADDRESS, ip)]

/-- The request for the default route through `gw` and the interface with this index. -/
def IsDefaultRoute (gw : List UInt8) (msg : NlMsg) (idx : Nat) : Prop :=
  msg.hdr.type = RTM_NEWROUTE ∧
    msg.body = .rt AF_INET 0 RT_TABLE_MAIN RTPROT_STATIC RT_SCOPE_UNIVERSE RTN_UNICAST ∧
    tile 28 msg.attrs =
      some [(RTA_DST, [0, 0, 0, 0]), (RTA_GATEWAY, gw), (RTA_OIF, le32 idx)]

/-- Every request that is sent satisfies `P` for the index that the interface was
last found to have. -/
def sends (ifname : CStr) (P : NlMsg → Nat → Prop) (h : List SysEvent) : Call → Prop
  | .sendmsg _ msg => ∃ idx, idx ≠ 0 ∧ (⟨.ifNametoindex ifname, idx⟩ : SysEvent) ∈ h ∧ P msg idx
  | _ => True

/-- Histories in which only such requests are sent. -/
def sender (ifname : CStr) (P : NlMsg → Nat → Prop) : Machine Call Answer (List SysEvent) :=
  Machine.history.guard (sends ifname P)

section Rules

variable {ifname : CStr} {P : NlMsg → Nat → Prop} {h : List SysEvent}

/-- After the request nothing else is sent. -/
theorem sender_sendRecv {sock : Int} {msg : NlMsg} {seq type idx : Nat} {Q : Int → List SysEvent → Prop}
    (hidx : idx ≠ 0) (hmem : (⟨.ifNametoindex ifname, idx⟩ : SysEvent) ∈ h) (hP : P msg idx)
    (hQ : ∀ r h', Q r h') : wp (sender ifname P) (nlSendRecv sock msg seq type) Q h := by
  refine ⟨⟨idx, hidx, hmem, hP⟩, ?_⟩
  rintro (e | n) _ rfl
  · exact hQ _ _
  · refine ⟨trivial, fun stack _ _ => ⟨trivial, ?_⟩⟩
    rintro (e | data) h' -
    · exact hQ _ _
    · exact hQ _ _

theorem sender_socket {f : Int → Sys Int} {Q : Int → List SysEvent → Prop} (hfail : ∀ h, Q (-1) h)
    (hf : ∀ (sock : Nat) h, wp (sender ifname P) (f sock) Q h) :
    wp (sender ifname P) (nlSocket >>= fun sock => if sock < 0 then pure (-1) else f sock) Q h := by
  refine ⟨trivial, ?_⟩
  rintro (e | sock) _ rfl
  · exact hfail _
  · refine ⟨trivial, fun r h' _ => ?_⟩
    have hpos : ¬ ((sock : Int) < 0) := by omega
    show wp (sender ifname P) (if (sock : Int) < 0 then pure (-1) else f sock) _ _
    rw [if_neg hpos]
    exact hf sock h'

/-- The index that the wait ends with was found. -/
theorem sender_wait (ifname : CStr) (P : NlMsg → Nat → Prop) (timeoutMs : Nat) (h : List SysEvent) :
    wp (sender ifname P) (waitForInterface ifname timeoutMs)
      (fun idx h' => idx ≠ 0 → (⟨.ifNametoindex ifname, idx⟩ : SysEvent) ∈ h') h := by
  have hloop : ∀ fuel waited h, wp (sender ifname P) (waitLoop ifname timeoutMs fuel waited)
      (fun idx h' => idx ≠ 0 → (⟨.ifNametoindex ifname, idx⟩ : SysEvent) ∈ h') h := by
    intro fuel
    induction fuel with
    | zero => exact fun _ _ hne => absurd rfl hne
    | succ fuel ih =>
      intro waited h
      simp only [waitLoop]
      split
      · refine ⟨trivial, ?_⟩
        rintro idx _ rfl
        show wp _ (if idx ≠ 0 then pure idx else _) _ _
        split
        · exact fun _ => List.mem_append_right _ (List.mem_singleton.mpr rfl)
        · exact ⟨trivial, fun _ h' _ => ih _ h'⟩
      · exact fun hne => absurd rfl hne
  exact hloop _ _ h

theorem sender_invoke {f : Fn} {body : Sys Int}
    (hbody : ∀ h, wp (sender ifname P) body (fun _ _ => True) h) :
    wp (sender ifname P) (invoke f body) (fun _ _ => True) h := by
  refine ⟨trivial, fun _ h₁ _ => ?_⟩
  show wp _ (body >>= fun r => sys (.leave f r) >>= fun _ => pure r) _ _
  exact wp_seq (hbody h₁) fun _ _ _ => ⟨trivial, fun _ _ _ => trivial⟩

end Rules

/-- The host's side: the only request of `nl_add_addr`. -/
theorem nlAddAddr_sends (peer : CStr) {hostIp : CStr} {ip : List UInt8} {plen : Nat}
    (hcidr : parseCidr hostIp = some (ip, plen)) (hip : ip.length = 4) (h : List SysEvent) :
    wp (sender peer (IsAddrRequest ip plen)) (nlAddAddr peer hostIp) (fun _ _ => True) h := by
  refine sender_socket (fun _ => trivial) fun sock h₁ => ?_
  refine wp_seq (sender_wait peer _ 5000 h₁) fun idx h₂ hidx => ?_
  split
  · exact ⟨trivial, fun _ _ _ => trivial⟩
  · rename_i hne
    rw [hcidr]
    refine wp_seq (Q := fun _ _ => True) ?_ fun _ _ _ => ⟨trivial, fun _ _ _ => trivial⟩
    refine sender_sendRecv hne (hidx hne) ⟨rfl, rfl, ?_⟩ fun _ _ => trivial
    have hattrs : (addAddrMsg idx ip plen).attrs = region [(IFA_LOCAL, ip), (IFA_ADDRESS, ip)] := by
      simp [addAddrMsg]
    rw [hattrs, tile_region (by decide)]
    simp [hip, IFA_LOCAL, IFA_ADDRESS]

/-- The container's side: the only request of the default route. -/
theorem containerRoute_sends (name : CStr) {hostIp : CStr} {ip : List UInt8} {plen : Nat}
    (hcidr : parseCidr hostIp = some (ip, plen)) (hip : ip.length = 4) (h : List SysEvent) :
    wp (sender name (IsDefaultRoute ip)) (containerRoute name hostIp) (fun b _ => b = true) h := by
  obtain ⟨hlen, hgw⟩ := gateway_of_parseCidr hcidr
  have hshort : ¬ (hostIp.chr 47).getD hostIp.1.length ≥ 16 := Nat.not_le.mpr (Nat.lt_succ_of_le hlen)
  unfold containerRoute
  rw [if_neg hshort]
  refine wp_seq (sender_invoke fun h₁ => ?_) fun _ _ _ => rfl
  refine sender_socket (fun _ => trivial) fun sock h₂ => ?_
  have hdest : parseDest (some defaultRoute) = some ([0, 0, 0, 0], 0) := rfl
  have hgw' : inetPton (hostIp.take ((hostIp.chr 47).getD hostIp.1.length)) = some ip := hgw
  simp only [hdest, hgw', nlAddRouteDev]
  refine ⟨trivial, ?_⟩
  rintro idx _ rfl
  show wp _ (if idx = 0 then _ else _) _ _
  split
  · exact ⟨trivial, fun _ _ _ => trivial⟩
  · rename_i hne
    refine wp_seq (Q := fun _ _ => True) ?_ fun _ _ _ => ⟨trivial, fun _ _ _ => trivial⟩
    refine sender_sendRecv hne (List.mem_append_right _ (List.mem_singleton.mpr rfl))
      ⟨rfl, rfl, ?_⟩ fun _ _ => trivial
    have hattrs : (addRouteMsg [0, 0, 0, 0] 0 (some ip) (some idx)).attrs =
        region [(RTA_DST, [0, 0, 0, 0]), (RTA_GATEWAY, ip), (RTA_OIF, le32 idx)] := by
      simp [addRouteMsg]
    rw [hattrs, tile_region (by decide)]
    simp [hip, RTA_DST, RTA_GATEWAY, RTA_OIF]

/-- For every host address that the host's side accepts: the gateway is cut out
inside its 16-byte buffer, without the exit for long addresses, what is cut out
denotes the host's address, and every request of the container's side is the
default route through the address that every request of the host's side gives to
the host's interface. -/
theorem gateway_is_host_address (hostIp : CStr) (ip : List UInt8) (plen : Nat)
    (hcidr : parseCidr hostIp = some (ip, plen)) (peer name : CStr) :
    gatewayLen hostIp + 1 ≤ 16 ∧ inetPton (hostIp.take (gatewayLen hostIp)) = some ip ∧
    (∀ b h, Run Machine.history (containerRoute name hostIp) [] (.ret b) h → b = true) ∧
    (∀ fd msg k h, Run Machine.history (nlAddAddr peer hostIp) [] (.call (.sendmsg fd msg) k) h →
      ∃ idx, idx ≠ 0 ∧ (⟨.ifNametoindex peer, idx⟩ : SysEvent) ∈ h ∧ IsAddrRequest ip plen msg idx) ∧
    (∀ fd msg k h, Run Machine.history (containerRoute name hostIp) [] (.call (.sendmsg fd msg) k) h →
      ∃ idx, idx ≠ 0 ∧ (⟨.ifNametoindex name, idx⟩ : SysEvent) ∈ h ∧ IsDefaultRoute ip msg idx) := by
  obtain ⟨hlen, hgw⟩ := gateway_of_parseCidr hcidr
  have hip := (length_of_inetPton hgw).2.2
  refine ⟨Nat.succ_le_succ hlen, hgw, fun b h hrun => ?_, fun fd msg k h hrun => ?_,
    fun fd msg k h hrun => ?_⟩
  · exact wp_run (containerRoute_sends name hcidr hip []) (hrun.guard _)
  · exact run_call (nlAddAddr_sends peer hcidr hip []) hrun
  · exact run_call (containerRoute_sends name hcidr hip []) hrun

/-- Everything is granted up to the request. -/
def upToSend (_ : List SysEvent) : (c : Call) → Option (Answer c)
  | .sendmsg _ _ => none
  | c => granted c

/-- The host address `10.0.0.1/24`, and a run that comes to the request on each side. -/
theorem gateway_is_host_address_web :
    gatewayLen webHostIp + 1 ≤ 16 ∧
    inetPton (webHostIp.take (gatewayLen webHostIp)) = some [10, 0, 0, 1] ∧
    (∀ b h, Run Machine.history (containerRoute webName webHostIp) [] (.ret b) h → b = true) ∧
    (∃ fd msg k h, Run Machine.history (nlAddAddr webName webHostIp) []
        (.call (.sendmsg fd msg) k) h ∧
      ∃ idx, idx ≠ 0 ∧ (⟨.ifNametoindex webName, idx⟩ : SysEvent) ∈ h ∧
        IsAddrRequest [10, 0, 0, 1] 24 msg idx) ∧
    ∃ fd msg k h, Run Machine.history (containerRoute webName webHostIp) []
        (.call (.sendmsg fd msg) k) h ∧
      ∃ idx, idx ≠ 0 ∧ (⟨.ifNametoindex webName, idx⟩ : SysEvent) ∈ h ∧
        IsDefaultRoute [10, 0, 0, 1] msg idx := by
  obtain ⟨hlen, hgw, hreturns, hhost, hcontainer⟩ :=
    gateway_is_host_address webHostIp [10, 0, 0, 1] 24 (by decide) webName webName
  obtain ⟨k, h, hrun⟩ : ∃ k h, Run Machine.history (nlAddAddr webName webHostIp) []
      (.call (.sendmsg 6 (addAddrMsg 7 [10, 0, 0, 1] 24)) k) h :=
    ⟨_, _, run_play upToSend (fun h c r => h ++ [⟨c, r⟩]) (fun _ _ _ _ => rfl) rfl⟩
  obtain ⟨k', h', hrun'⟩ : ∃ k h, Run Machine.history (containerRoute webName webHostIp) []
      (.call (.sendmsg 6 (addRouteMsg [0, 0, 0, 0] 0 (some [10, 0, 0, 1]) (some 7))) k) h :=
    ⟨_, _, run_play upToSend (fun h c r => h ++ [⟨c, r⟩]) (fun _ _ _ _ => rfl) rfl⟩
  exact ⟨hlen, hgw, hreturns, ⟨_, _, k, h, hrun, hhost _ _ k h hrun⟩,
    ⟨_, _, k', h', hrun', hcontainer _ _ k' h' hrun'⟩⟩

end Barco
