import Barco.NetKernel

/-!
# Whether netlink operations report the truth

A network namespace on which sockets, requests and lookups work, and a kernel
whose verdict on a request is given. `ops_truthful_iff` says for which
arguments, tables and verdicts an operation returns 0 exactly when the request
was carried out.

An operation that asks for an acknowledgement is right about every verdict.
`nl_del_link` does not ask for one, so its success looks like a lost answer.
-/

namespace Barco

open Effect Prog Rtattr Links

/-! ## The namespace -/

structure NetState where
  table : Table CStr Unit
  /-- the datagram waiting on the socket -/
  reply : Option (List UInt8)
  /-- what became of the request, once one was sent -/
  outcome : Option Bool

/-- How calls are answered in the namespace `ns`. The kernel carries out a
request if it can and `accept` says so; the interfaces may change while the
process sleeps. -/
def netStep (ns : Nat) (accept : Bool) (s : NetState) : (c : Call) → Answer c → NetState → Prop
  | .socketNetlink, r, s' => (∃ fd, r = .ok fd) ∧ s' = s
  | .setsockoptRcvtimeo _, _, s' | .close _, _, s' | .uninit _, _, s' | .enter _, _, s'
  | .leave _ _, _, s' => s' = s
  | .ifNametoindex ifname, r, s' => r = s.table.lookup ns ifname ∧ s' = s
  | .usleep _, _, s' => ∃ T, s' = { s with table := T }
  | .sendmsg _ msg, r, s' => (∃ n, r = .ok n) ∧ ∃ T b reply, Sent () ns msg s.table T b reply ∧
      (b = true ↔ accept = true ∧ ∃ T', Step () ns (requestOf msg) s.table T') ∧
      s' = ⟨T, reply, some b⟩
  | .recvmsg _, r, s' => r = received s.reply ∧ s' = { s with reply := none }
  | _, _, _ => False

/-- A call may be made when it gets some answer: nothing is left undefined. -/
def netKernel (ns : Nat) (accept : Bool) : Machine Call Answer NetState where
  may s c := ∃ r s', netStep ns accept s c r s'
  step := netStep ns accept

/-! ## Rules -/

section Rules

variable {ns : Nat} {accept : Bool} {s : NetState} {Q : Int → NetState → Prop}

/-- A call that is answered without a change. -/
theorem net_keep {β : Type} (c : Call) {k : Answer c → Sys β} {Q : β → NetState → Prop}
    (r₀ : Answer c) (hc : ∀ r s', netStep ns accept s c r s' ↔ s' = s) :
    wp (netKernel ns accept) (sys c >>= k) Q s ↔ ∀ r, wp (netKernel ns accept) (k r) Q s := by
  constructor
  · exact fun h r => h.2 r s ((hc r s).mpr rfl)
  · refine fun hk => ⟨⟨r₀, s, (hc r₀ s).mpr rfl⟩, fun r s' h => ?_⟩
    obtain rfl := (hc r s').mp h
    exact hk r

theorem net_closeFd {fd : Int} {k : Unit → Sys Int} :
    wp (netKernel ns accept) (closeFd fd >>= k) Q s ↔ wp (netKernel ns accept) (k ()) Q s :=
  (net_keep (.close fd) (.ok ()) fun _ _ => Iff.rfl).trans ⟨fun h => h (.ok ()), fun h _ => h⟩

/-- `nl_socket` works. -/
theorem net_socket {f : Int → Sys Int} :
    wp (netKernel ns accept) (nlSocket >>= fun sock => if sock < 0 then pure (-1) else f sock) Q s ↔
      ∀ sock : Nat, wp (netKernel ns accept) (f sock) Q s := by
  have hpos : ∀ sock : Nat, (if (sock : Int) < 0 then pure (-1) else f sock) = f sock :=
    fun sock => if_neg (by omega)
  constructor
  · intro h sock
    have := (h.2 (.ok sock) s ⟨⟨sock, rfl⟩, rfl⟩).2 (.ok ()) s rfl
    exact hpos sock ▸ this
  · intro hf
    refine ⟨⟨.ok 0, s, ⟨0, rfl⟩, rfl⟩, ?_⟩
    rintro r s' ⟨⟨sock, rfl⟩, rfl⟩
    refine ⟨⟨.ok (), s', rfl⟩, ?_⟩
    rintro r s'' rfl
    show wp _ (if (sock : Int) < 0 then pure (-1) else f sock) _ _
    exact hpos sock ▸ hf sock

theorem net_lookup {ifname : CStr} {k : Nat → Sys Int} :
    wp (netKernel ns accept) (sys (.ifNametoindex ifname) >>= k) Q s ↔
      wp (netKernel ns accept) (k (s.table.lookup ns ifname)) Q s := by
  constructor
  · exact fun h => h.2 _ s ⟨rfl, rfl⟩
  · refine fun hk => ⟨⟨_, s, rfl, rfl⟩, ?_⟩
    rintro r s' ⟨rfl, rfl⟩
    exact hk

/-- Some contents of the receive buffer. -/
def stack₀ : Answer (.uninit 4096) := ⟨List.replicate 4096 0, List.length_replicate⟩

/-- Some run of `nl_send_recv` ends as the kernel's verdict has it. -/
theorem net_sent {sock : Int} {msg : NlMsg} {seq type : Nat} (hseq : msg.hdr.seq = seq)
    (hlt : seq < 4294967296) {T : Table CStr Unit} {b : Bool} {reply : Option (List UInt8)}
    (hs : Sent () ns msg s.table T b reply)
    (hb : b = true ↔ accept = true ∧ ∃ T', Step () ns (requestOf msg) s.table T')
    (h : wp (netKernel ns accept) (nlSendRecv sock msg seq type) Q s) :
    Q (if b && msg.acks then 0 else -1) ⟨T, none, some b⟩ := by
  subst hseq
  have h₁ := h.2 (.ok 0) _ ⟨⟨0, rfl⟩, T, b, reply, hs, hb, rfl⟩
  have h₂ := (net_keep (.uninit 4096) stack₀ fun _ _ => Iff.rfl).mp h₁ stack₀
  have h₃ := h₂.2 _ _ ⟨rfl, rfl⟩
  rw [← hs.result hlt stack₀.1 type]
  cases reply with
  | none => exact h₃
  | some data => exact h₃

/-- `nl_send_recv` returns 0 exactly when the request was carried out and acknowledged. -/
theorem net_sendRecv {sock : Int} {msg : NlMsg} {seq type : Nat} (hseq : msg.hdr.seq = seq)
    (hlt : seq < 4294967296) :
    wp (netKernel ns accept) (nlSendRecv sock msg seq type) Q s ↔
      (accept = true → ∀ T, Step () ns (requestOf msg) s.table T →
        Q (if msg.acks then 0 else -1) ⟨T, none, some true⟩) ∧
      ((accept = true → ∀ T, ¬ Step () ns (requestOf msg) s.table T) →
        Q (-1) ⟨s.table, none, some false⟩) := by
  constructor
  · refine fun h => ⟨fun hacc T hT => ?_, fun hno => ?_⟩
    · obtain ⟨reply, hs⟩ := Sent.of_step hT
      have := net_sent hseq hlt hs (iff_of_true rfl ⟨hacc, T, hT⟩) h
      rwa [Bool.true_and] at this
    · obtain ⟨reply, hs⟩ := Sent.of_refusal () ns msg s.table
      exact net_sent hseq hlt hs
        (iff_of_false Bool.false_ne_true fun ⟨ha, T', hT'⟩ => hno ha T' hT') h
  · rintro ⟨happlied, hrefused⟩
    subst hseq
    have hsend : ∃ r s', netStep ns accept s (.sendmsg sock msg) r s' := by
      by_cases hb : accept = true ∧ ∃ T', Step () ns (requestOf msg) s.table T'
      · obtain ⟨T', hT⟩ := hb.2
        obtain ⟨reply, hs⟩ := Sent.of_step hT
        exact ⟨.ok 0, _, ⟨0, rfl⟩, T', true, reply, hs, iff_of_true rfl hb, rfl⟩
      · obtain ⟨reply, hs⟩ := Sent.of_refusal () ns msg s.table
        exact ⟨.ok 0, _, ⟨0, rfl⟩, s.table, false, reply, hs,
          iff_of_false Bool.false_ne_true hb, rfl⟩
    refine ⟨hsend, ?_⟩
    rintro r s' ⟨⟨n, rfl⟩, T, b, reply, hs, hb, rfl⟩
    refine (net_keep (.uninit 4096) stack₀ fun _ _ => Iff.rfl).mpr
      fun stack => ?_
    refine ⟨⟨_, _, rfl, rfl⟩, ?_⟩
    rintro r s' ⟨rfl, rfl⟩
    -- what is left of the program is `replyResult`
    have hresult := hs.result hlt stack.1 type
    have hwp : wp (netKernel ns accept)
        (pure (replyResult stack.1 msg.hdr.seq type (received reply))) Q ⟨T, none, some b⟩ := by
      rw [hresult]
      cases b with
      | true =>
        rw [Bool.true_and]
        exact happlied (hb.mp rfl).1 T (hs.step_of_applied rfl)
      | false =>
        obtain rfl := hs.eq_of_refused rfl
        refine hrefused fun ha T' hT' => ?_
        exact Bool.false_ne_true (hb.mpr ⟨ha, T', hT'⟩)
    cases reply with
    | none => exact hwp
    | some data => exact hwp

/-- Waiting for an interface that is there. -/
theorem net_wait_found {ifname : CStr} {k : Nat → Sys Int} (hfound : s.table.lookup ns ifname ≠ 0)
    (hk : wp (netKernel ns accept) (k (s.table.lookup ns ifname)) Q s) :
    wp (netKernel ns accept) (waitForInterface ifname 5000 >>= k) Q s := by
  refine ⟨⟨_, s, rfl, rfl⟩, ?_⟩
  rintro r s' ⟨rfl, rfl⟩
  show wp _ ((if _ then _ else _) >>= k) Q _
  rw [if_pos hfound]
  exact hk

/-- Waiting changes nothing but the interfaces. -/
theorem net_wait_any {ifname : CStr} {timeoutMs fuel waited : Nat} {Q : Nat → NetState → Prop}
    (hQ : ∀ idx T, Q idx { s with table := T }) :
    wp (netKernel ns accept) (waitLoop ifname timeoutMs fuel waited) Q s := by
  induction fuel generalizing waited s with
  | zero => exact hQ 0 s.table
  | succ fuel ih =>
    simp only [waitLoop]
    split
    · refine ⟨⟨_, s, rfl, rfl⟩, ?_⟩
      rintro r s' ⟨rfl, rfl⟩
      show wp _ (if _ then _ else _) Q _
      split
      · exact hQ _ s'.table
      · refine ⟨⟨(), s', s'.table, rfl⟩, ?_⟩
        rintro r s'' ⟨T, rfl⟩
        exact ih fun idx T' => hQ idx T'
    · exact hQ 0 s.table

end Rules

/-! ## Operations -/

/-- The operations of `netlink.h`. -/
inductive NlOp
  | createVeth (name1 name2 : CStr)
  | setUp (ifname : CStr)
  | addAddr (ifname ipCidr : CStr)
  | delLink (ifname : CStr)
  | addRoute (dest gateway dev : Option CStr)
  | moveToNs (ifname : CStr) (nsFd : Int)
  | renameLink (oldname newname : CStr)

def NlOp.run : NlOp → Sys Int
  | .createVeth name1 name2 => nlCreateVeth name1 name2
  | .setUp ifname => nlSetUp ifname
  | .addAddr ifname ipCidr => nlAddAddr ifname ipCidr
  | .delLink ifname => nlDelLink ifname
  | .addRoute dest gateway dev => nlAddRoute dest gateway dev
  | .moveToNs ifname nsFd => nlMoveToNs ifname nsFd
  | .renameLink oldname newname => nlRenameLink oldname newname

/-- There is nothing to do: the interface to delete does not exist. -/
def NlOp.Vacuous (ns : Nat) (T : Table CStr Unit) : NlOp → Prop
  | .delLink ifname => T.Free ns ifname
  | _ => False

/-- The result says what became of the request. -/
structure Truth (vacuous : Prop) (r : Int) (s : NetState) : Prop where
  status : Status r
  zero_iff : r = 0 ↔ s.outcome = some true ∨ vacuous
  refused : s.outcome = some false → r = -1

/-- In every run of the operation each call gets an answer, and the result is
the truth about the request. -/
def Truthful (ns : Nat) (accept : Bool) (T : Table CStr Unit) (op : NlOp) : Prop :=
  wp (netKernel ns accept) op.run (Truth (op.Vacuous ns T)) ⟨T, none, none⟩

/-- The condition: a deletion finds nothing or is refused, and the names fit the
structures they are copied into. -/
def NlOp.Sound (ns : Nat) (accept : Bool) (T : Table CStr Unit) : NlOp → Prop
  | .delLink ifname => T.Free ns ifname ∨ accept = false
  | .createVeth name1 name2 => CreateFits name1 name2
  | .renameLink oldname newname => T.Free ns oldname ∨ newname.1.length ≤ 59
  | _ => True

theorem Truth.applied (T : Table CStr Unit) : Truth False 0 ⟨T, none, some true⟩ :=
  ⟨.zero, by simp, by simp⟩

theorem Truth.not_applied {vacuous : Prop} (hno : ¬ vacuous) {s : NetState}
    (h : s.outcome ≠ some true) : Truth vacuous (-1) s := by
  refine ⟨.fail, ?_, fun _ => rfl⟩
  simp [h, hno]

section Ops

variable {ns : Nat} {accept : Bool} {T : Table CStr Unit}

/-- An acknowledged request, and then the close. -/
theorem sendRecv_truth {sock : Int} {msg : NlMsg} {seq type : Nat} {reply : Option (List UInt8)}
    (hack : msg.acks = true) (hseq : msg.hdr.seq = seq) (hlt : seq < 4294967296) :
    wp (netKernel ns accept)
      (nlSendRecv sock msg seq type >>= fun ret => closeFd sock >>= fun _ => pure ret)
      (Truth False) ⟨T, reply, none⟩ := by
  refine wp_seq (Q := Truth False) ((net_sendRecv hseq hlt).mpr ⟨fun _ T' _ => ?_, fun _ => ?_⟩)
    fun ret s h => net_closeFd.mpr h
  · rw [hack]
    exact .applied T'
  · exact .not_applied id (by simp)

theorem closeFd_truth {sock : Int} {reply : Option (List UInt8)} :
    wp (netKernel ns accept) (closeFd sock >>= fun _ => pure (-1)) (Truth False) ⟨T, reply, none⟩ :=
  net_closeFd.mpr (.not_applied id (by simp))

theorem setUp_truthful (ifname : CStr) : Truthful ns accept T (.setUp ifname) := by
  refine net_socket.mpr fun sock => wp_seq (Q := fun _ s => ∃ T', s = ⟨T', none, none⟩)
    (net_wait_any fun _ T' => ⟨T', rfl⟩) ?_
  rintro idx s ⟨T', rfl⟩
  split
  · exact closeFd_truth
  · exact sendRecv_truth (acks_setUpMsg idx) rfl (by decide)

theorem addAddr_truthful (ifname ipCidr : CStr) :
    Truthful ns accept T (.addAddr ifname ipCidr) := by
  refine net_socket.mpr fun sock => wp_seq (Q := fun _ s => ∃ T', s = ⟨T', none, none⟩)
    (net_wait_any fun _ T' => ⟨T', rfl⟩) ?_
  rintro idx s ⟨T', rfl⟩
  split
  · exact closeFd_truth
  · cases hip : parseCidr ipCidr with
    | none => exact closeFd_truth
    | some ip => exact sendRecv_truth (acks_addAddrMsg idx ip.1 ip.2) rfl (by decide)

theorem addRouteDev_truthful (sock : Nat) (dst : List UInt8) (dstLen : Nat)
    (gateway : Option (List UInt8)) (dev : Option CStr) :
    wp (netKernel ns accept) (nlAddRouteDev sock dst dstLen gateway dev) (Truth False)
      ⟨T, none, none⟩ := by
  cases dev with
  | none => exact sendRecv_truth (acks_addRouteMsg _ _ _ _) rfl (by decide)
  | some dev =>
    refine net_lookup.mpr ?_
    split
    · exact closeFd_truth
    · exact sendRecv_truth (acks_addRouteMsg _ _ _ _) rfl (by decide)

theorem addRoute_truthful (dest gateway dev : Option CStr) :
    Truthful ns accept T (.addRoute dest gateway dev) := by
  refine net_socket.mpr fun sock => ?_
  cases hdst : parseDest dest with
  | none => exact closeFd_truth
  | some dst =>
    cases gateway with
    | none => exact addRouteDev_truthful sock dst.1 dst.2 none dev
    | some gw =>
      cases hgw : inetPton gw with
      | none =>
        simp only [hgw]
        exact closeFd_truth
      | some gwIp =>
        simp only [hgw]
        exact addRouteDev_truthful sock dst.1 dst.2 (some gwIp) dev

theorem moveToNs_truthful (ifname : CStr) (nsFd : Int) :
    Truthful ns accept T (.moveToNs ifname nsFd) := by
  refine net_socket.mpr fun sock => net_lookup.mpr ?_
  split
  · exact closeFd_truth
  · exact sendRecv_truth (acks_moveToNsMsg _ nsFd) rfl (by decide)

/-- A function that leaves the defined states is not truthful. -/
theorem not_wp_overrun {s : NetState} {Q : Int → NetState → Prop} :
    ¬ wp (netKernel ns accept) (overrun : Sys Int) Q s := by
  rintro ⟨⟨r, -⟩, -⟩
  exact nomatch r

/-- What is left of `nl_del_link` once the interface is found. -/
theorem delLink_found {sock idx : Nat} (hstep : Step () ns (.delete idx) T (T.delete ns idx)) :
    wp (netKernel ns accept)
      (nlSendRecv sock (delLinkMsg idx) 4 RTM_DELLINK >>= fun ret => closeFd sock >>= fun _ => pure ret)
      (Truth False) ⟨T, none, none⟩ ↔ accept = false := by
  rw [wp_bind]
  simp only [net_closeFd, wp_pure]
  rw [net_sendRecv (show (delLinkMsg idx).hdr.seq = 4 from rfl) (by decide), requestOf_delLinkMsg, acks_delLinkMsg]
  constructor
  · rintro ⟨happlied, -⟩
    by_contra hacc
    -- the deletion is carried out, and the missing answer is taken for a failure
    have := (happlied (Bool.not_eq_false _ ▸ hacc) _ hstep).zero_iff.mpr (.inl rfl)
    exact absurd this (by decide)
  · rintro rfl
    exact ⟨fun h => absurd h Bool.false_ne_true, fun _ => .not_applied id (by simp)⟩

/-- A deletion is truthful when there is nothing to delete, or nothing is deleted. -/
theorem delLink_truthful_iff (ifname : CStr) :
    Truthful ns accept T (.delLink ifname) ↔ T.Free ns ifname ∨ accept = false := by
  refine (net_socket.trans (forall_congr' fun sock => net_lookup)).trans ?_
  by_cases hidx : T.lookup ns ifname = 0
  · simp only [hidx, if_true]
    refine iff_of_true (fun sock => net_closeFd.mpr ⟨.zero, ?_, by simp⟩) ?_
    · exact iff_of_true rfl (.inr (Table.lookup_eq_zero.mp hidx))
    · exact .inl (Table.lookup_eq_zero.mp hidx)
  · have hfree : ¬ T.Free ns ifname := fun h => hidx (Table.lookup_eq_zero.mpr h)
    obtain ⟨l, hl, hlidx, hlns, -⟩ := Table.lookup_mem hidx
    have hvac : NlOp.Vacuous ns T (.delLink ifname) = False := eq_false hfree
    simp only [hidx, if_false, hvac, hfree, false_or]
    have hstep : Step () ns (.delete (T.lookup ns ifname)) T (T.delete ns (T.lookup ns ifname)) :=
      .delete ⟨l, hl, hlns, hlidx⟩
    exact ⟨fun h => (delLink_found hstep).mp (h 0), fun h sock => (delLink_found hstep).mpr h⟩

/-- A pair that was made is found under its two names. -/
theorem createVeth_truthful_iff (name1 name2 : CStr) :
    Truthful ns accept T (.createVeth name1 name2) ↔ CreateFits name1 name2 := by
  refine net_socket.trans ?_
  cases hmsg : createVethMsg name1 name2 with
  | none =>
    refine iff_of_false (fun h => not_wp_overrun (h 0)) fun hfit => ?_
    rw [createVethMsg_eq hfit] at hmsg
    exact nomatch hmsg
  | some msg =>
    refine iff_of_true (fun sock => ?_) (createFits_of_some hmsg)
    obtain ⟨hack, hseq⟩ := acks_createVethMsg hmsg
    refine wp_seq (Q := fun ret s => (ret = 0 ∧ ∃ T', s = ⟨T', none, some true⟩ ∧
        T'.lookup ns name1 ≠ 0 ∧ T'.lookup ns name2 ≠ 0) ∨ (ret = -1 ∧ s.outcome = some false))
      ((net_sendRecv hseq (by decide)).mpr ⟨fun _ T' hstep => ?_, fun _ => .inr ⟨rfl, rfl⟩⟩) ?_
    · rw [requestOf_createVethMsg hmsg] at hstep
      rw [hack]
      cases hstep with
      | create ha hb hab => exact .inl ⟨rfl, _, rfl, T.lookup_create ha hb hab⟩
    · rintro ret s (⟨rfl, T', rfl, h₁, h₂⟩ | ⟨rfl, hs⟩)
      · refine net_closeFd.mpr (net_wait_found h₁ (net_wait_found h₂ ?_))
        rw [if_neg (not_or.mpr ⟨h₁, h₂⟩)]
        exact .applied T'
      · exact net_closeFd.mpr (.not_applied id (by simp [hs]))

theorem renameLink_truthful_iff (oldname newname : CStr) :
    Truthful ns accept T (.renameLink oldname newname) ↔
      T.Free ns oldname ∨ newname.1.length ≤ 59 := by
  refine (net_socket.trans (forall_congr' fun sock => net_lookup)).trans ?_
  by_cases hidx : T.lookup ns oldname = 0
  · simp only [hidx, if_true]
    exact iff_of_true (fun sock => closeFd_truth) (.inl (Table.lookup_eq_zero.mp hidx))
  · have hfree : ¬ T.Free ns oldname := fun h => hidx (Table.lookup_eq_zero.mpr h)
    simp only [hidx, if_false, hfree, false_or]
    cases hmsg : renameLinkMsg (T.lookup ns oldname) newname with
    | none =>
      refine iff_of_false (fun h => not_wp_overrun (h 0)) fun hfit => ?_
      rw [renameLinkMsg_eq hfit] at hmsg
      exact nomatch hmsg
    | some msg =>
      obtain ⟨hack, hseq⟩ := acks_renameLinkMsg hmsg
      refine iff_of_true (fun sock => ?_) (length_of_renameLinkMsg hmsg)
      exact sendRecv_truth hack hseq (by decide)

end Ops

/-! ## The claim -/

/-- An operation tells the truth about its request exactly when it deletes
nothing the kernel agrees to delete, and its names fit. -/
theorem ops_truthful_iff (ns : Nat) (accept : Bool) (T : Table CStr Unit) (op : NlOp) :
    Truthful ns accept T op ↔ op.Sound ns accept T := by
  cases op with
  | createVeth name1 name2 => exact createVeth_truthful_iff name1 name2
  | setUp ifname => exact iff_of_true (setUp_truthful ifname) trivial
  | addAddr ifname ipCidr => exact iff_of_true (addAddr_truthful ifname ipCidr) trivial
  | delLink ifname => exact delLink_truthful_iff ifname
  | addRoute dest gateway dev => exact iff_of_true (addRoute_truthful dest gateway dev) trivial
  | moveToNs ifname nsFd => exact iff_of_true (moveToNs_truthful ifname nsFd) trivial
  | renameLink oldname newname => exact renameLink_truthful_iff oldname newname

/-- The namespace with one pair, `a` and `b`. -/
def onePair : Table CStr Unit :=
  Table.create .empty () 0 ⟨ascii "a", by decide⟩ ⟨ascii "b", by decide⟩ (fun _ h => nomatch h)
    (fun _ h => nomatch h) (by decide)

/-- `nl_del_link` on an interface that the kernel deletes does not return the truth. -/
theorem delLink_untruthful : ¬ Truthful 0 true onePair (.delLink ⟨ascii "a", by decide⟩) := by
  intro h
  refine absurd ((delLink_truthful_iff _).mp h) (not_or.mpr ⟨?_, by decide⟩)
  decide

end Barco
