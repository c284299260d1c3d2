import Barco.Linux.Links
import Barco.Requests

/-!
# The kernel's side of route netlink

How the kernel reads a request, carries it out on the table of interfaces, and
answers it. A refusal is answered with one `NLMSG_ERROR` datagram that carries
the request's sequence number; success is answered with code 0 when the request
asks for an acknowledgement, and not at all otherwise.

1. `replyScan_error`: `nl_send_recv` reads the code out of such a datagram.
2. `Sent.result`: what `nl_send_recv` returns for each verdict.
-/

namespace Barco

open Effect Prog Rtattr Links

/-! ## Requests -/

/-- What a message asks for. -/
def requestOf (msg : NlMsg) : Links.Request CStr :=
  match msg.body with
  | .ifinfo _ idx _ _ =>
    if msg.hdr.type = RTM_DELLINK then .delete idx
    else if msg.hdr.type = RTM_NEWLINK then
      if idx = 0 then (createdNames msg).elim .other fun names => .create names.1 names.2
      else if (find IFLA_NET_NS_FD msg.attrs).isSome then .move idx
      else (newName msg).elim .other fun name => .rename idx name
    else .other
  | _ => .other

theorem requestOf_delLinkMsg (idx : Nat) : requestOf (delLinkMsg idx) = .delete idx := rfl

theorem requestOf_setUpMsg {idx : Nat} (h : idx ≠ 0) : requestOf (setUpMsg idx) = .other := by
  have hname : newName (setUpMsg idx) = none := rfl
  simp only [requestOf, setUpMsg, RTM_NEWLINK, RTM_DELLINK] at hname ⊢
  simp [h, hname, find]

theorem requestOf_addAddrMsg (idx : Nat) (ip : List UInt8) (plen : Nat) :
    requestOf (addAddrMsg idx ip plen) = .other := rfl

theorem requestOf_moveToNsMsg {idx : Nat} (nsFd : Int) (h : idx ≠ 0) :
    requestOf (moveToNsMsg idx nsFd) = .move idx := by
  have hfind := find_single IFLA_NET_NS_FD (by decide)
    (show (intBytes nsFd).length < 65500 by simp [intBytes])
  simp [requestOf, moveToNsMsg, RTM_NEWLINK, RTM_DELLINK, h, hfind]

theorem requestOf_createVethMsg {name1 name2 : CStr} {msg : NlMsg}
    (h : createVethMsg name1 name2 = some msg) : requestOf msg = .create name1 name2 := by
  have hnames := createdNames_createVethMsg h
  rw [createVethMsg_eq (createFits_of_some h)] at h
  obtain rfl := Option.some.inj h
  have hdel : RTM_NEWLINK ≠ RTM_DELLINK := by decide
  simp only [requestOf, hdel, if_false, if_true, hnames, Option.elim_some]

/-! ## Answers -/

/-- An `NLMSG_ERROR` datagram: the header, the code, and what follows it. -/
def errorDatagram (seq code flags pid : Nat) (rest : List UInt8) : List UInt8 :=
  le32 (20 + rest.length) ++ (le16 NLMSG_ERROR ++ (le16 flags ++ (le32 seq ++ (le32 pid ++
    (le32 code ++ rest)))))

/-- The datagram answers the request `seq` with a code, and fits the buffer. -/
def IsError (seq code : Nat) (data : List UInt8) : Prop :=
  data.length ≤ 4096 ∧ ∃ flags pid rest, data = errorDatagram seq code flags pid rest

theorem length_errorDatagram (seq code flags pid : Nat) (rest : List UInt8) :
    (errorDatagram seq code flags pid rest).length = 20 + rest.length := by
  simp [errorDatagram, le32, le16]
  omega

/-- `nl_send_recv` stops at the first message of the datagram and takes its code. -/
theorem replyScan_error {seq code : Nat} {data : List UInt8} (hseq : seq < 4294967296)
    (hcode : code < 4294967296) (h : IsError seq code data) (tail : List UInt8) (type fuel : Nat) :
    replyScan (data ++ tail) seq type (fuel + 1) 0 data.length = if code = 0 then 0 else -1 := by
  obtain ⟨hfit, flags, pid, rest, rfl⟩ := h
  rw [length_errorDatagram] at hfit ⊢
  set n := 20 + rest.length with hn
  have hmlen : le32At (errorDatagram seq code flags pid rest ++ tail) 0 = n := by
    simpa [errorDatagram] using le32At_le32 [] (le16 NLMSG_ERROR ++ (le16 flags ++ (le32 seq ++
      (le32 pid ++ (le32 code ++ (rest ++ tail)))))) (show n < 4294967296 by omega)
  have htype : le16At (errorDatagram seq code flags pid rest ++ tail) (0 + 4) = NLMSG_ERROR := by
    simpa [errorDatagram] using le16At_le16 (le32 n) (le16 flags ++ (le32 seq ++
      (le32 pid ++ (le32 code ++ (rest ++ tail))))) (show NLMSG_ERROR < 65536 by decide)
  have hseq' : le32At (errorDatagram seq code flags pid rest ++ tail) (0 + 8) = seq := by
    simpa [errorDatagram] using le32At_le32 (le32 n ++ (le16 NLMSG_ERROR ++ le16 flags))
      (le32 pid ++ (le32 code ++ (rest ++ tail))) hseq
  have hcode' : le32At (errorDatagram seq code flags pid rest ++ tail) (0 + 16) = code := by
    simpa [errorDatagram] using le32At_le32 (le32 n ++ (le16 NLMSG_ERROR ++ (le16 flags ++
      (le32 seq ++ le32 pid)))) (rest ++ tail) hcode
  have hok : (n : Int) ≥ 16 ∧ n ≥ 16 ∧ (n : Int) ≤ n := by omega
  rw [replyScan, hmlen, htype, hseq', hcode', if_pos hok, if_neg (not_not.mpr rfl), if_pos rfl,
    ite_not]

/-! ## Verdicts -/

/-- The request asks for an acknowledgement. -/
def NlMsg.acks (msg : NlMsg) : Bool := msg.hdr.flags &&& NLM_F_ACK ≠ 0

theorem acks_setUpMsg (idx : Nat) : (setUpMsg idx).acks = true := by
  simp [NlMsg.acks, setUpMsg, NLM_F_REQUEST, NLM_F_ACK]

theorem acks_addAddrMsg (idx : Nat) (ip : List UInt8) (plen : Nat) :
    (addAddrMsg idx ip plen).acks = true := by
  simp [NlMsg.acks, addAddrMsg, NLM_F_REQUEST, NLM_F_ACK, NLM_F_CREATE, NLM_F_REPLACE]

theorem acks_addRouteMsg (dst : List UInt8) (dstLen : Nat) (gateway : Option (List UInt8))
    (dev : Option Nat) : (addRouteMsg dst dstLen gateway dev).acks = true := by
  simp [NlMsg.acks, addRouteMsg, NLM_F_REQUEST, NLM_F_ACK, NLM_F_CREATE, NLM_F_EXCL]

theorem acks_moveToNsMsg (idx : Nat) (nsFd : Int) : (moveToNsMsg idx nsFd).acks = true := by
  simp [NlMsg.acks, moveToNsMsg, NLM_F_REQUEST, NLM_F_ACK]

theorem acks_createVethMsg {name1 name2 : CStr} {msg : NlMsg}
    (h : createVethMsg name1 name2 = some msg) : msg.acks = true ∧ msg.hdr.seq = 1 := by
  rw [createVethMsg_eq (createFits_of_some h)] at h
  obtain rfl := Option.some.inj h
  exact ⟨by simp [NlMsg.acks, NLM_F_REQUEST, NLM_F_CREATE, NLM_F_EXCL, NLM_F_ACK], rfl⟩

theorem acks_renameLinkMsg {idx : Nat} {newname : CStr} {msg : NlMsg}
    (h : renameLinkMsg idx newname = some msg) : msg.acks = true ∧ msg.hdr.seq = 7 := by
  rw [renameLinkMsg_eq (length_of_renameLinkMsg h)] at h
  obtain rfl := Option.some.inj h
  exact ⟨by simp [NlMsg.acks, NLM_F_REQUEST, NLM_F_ACK], rfl⟩

/-- The deletion is the one request that asks for no acknowledgement. -/
theorem acks_delLinkMsg (idx : Nat) : (delLinkMsg idx).acks = false := by
  simp [NlMsg.acks, delLinkMsg, NLM_F_REQUEST, NLM_F_ACK]

/-- The kernel carries out a request or refuses it, and leaves an answer on the
socket. What the request makes is marked with `o`. -/
inductive Sent {τ : Type} (o : τ) (ns : Nat) (msg : NlMsg) :
    Table CStr τ → Table CStr τ → Bool → Option (List UInt8) → Prop
  | acked {T T' : Table CStr τ} {data : List UInt8} : Step o ns (requestOf msg) T T' →
      msg.acks = true → IsError msg.hdr.seq 0 data → Sent o ns msg T T' true (some data)
  | silent {T T' : Table CStr τ} : Step o ns (requestOf msg) T T' → msg.acks = false →
      Sent o ns msg T T' true none
  | refused {T : Table CStr τ} {e : Nat} {data : List UInt8} : 0 < e → e ≤ 4095 →
      IsError msg.hdr.seq (4294967296 - e) data → Sent o ns msg T T false (some data)

variable {τ : Type} {o : τ} {ns : Nat} {msg : NlMsg} {T T' : Table CStr τ}

/-- A request that the kernel carries out has some answer. -/
theorem Sent.of_step (h : Step o ns (requestOf msg) T T') : ∃ reply, Sent o ns msg T T' true reply := by
  cases hack : msg.acks with
  | false => exact ⟨none, .silent h hack⟩
  | true =>
    have hfit : (errorDatagram msg.hdr.seq 0 0 0 []).length ≤ 4096 := by
      rw [length_errorDatagram]
      decide
    exact ⟨_, .acked h hack ⟨hfit, 0, 0, [], rfl⟩⟩

/-- Every request can be refused. -/
theorem Sent.of_refusal (o : τ) (ns : Nat) (msg : NlMsg) (T : Table CStr τ) : ∃ reply, Sent o ns msg T T false reply := by
  have hfit : (errorDatagram msg.hdr.seq (4294967296 - EPERM) 0 0 []).length ≤ 4096 := by
    rw [length_errorDatagram]
    decide
  exact ⟨_, .refused (by decide : 0 < EPERM) (by decide) ⟨hfit, 0, 0, [], rfl⟩⟩

theorem Sent.step_of_applied {b : Bool} {reply : Option (List UInt8)}
    (h : Sent o ns msg T T' b reply) (hb : b = true) : Step o ns (requestOf msg) T T' := by
  cases h with
  | acked hs _ _ => exact hs
  | silent hs _ => exact hs
  | refused _ _ _ => exact nomatch hb

theorem Sent.eq_of_refused {b : Bool} {reply : Option (List UInt8)}
    (h : Sent o ns msg T T' b reply) (hb : b = false) : T' = T := by
  cases h with
  | acked _ _ _ => exact nomatch hb
  | silent _ _ => exact nomatch hb
  | refused _ _ _ => rfl

/-- What `recvmsg` returns: the datagram, or the timeout of the socket. -/
def received : Option (List UInt8) → Res (List UInt8)
  | some data => .ok data
  | none => .error EAGAIN

/-- What `nl_send_recv` makes of what `recvmsg` returned, with the stack behind it. -/
def replyResult (stack : List UInt8) (seq type : Nat) : Res (List UInt8) → Int
  | .error _ => -1
  | .ok data => replyScan (data ++ stack.drop data.length) seq type 4096 0 data.length

/-- The result is 0 exactly for a request that was carried out and acknowledged. -/
theorem Sent.result {b : Bool} {reply : Option (List UInt8)} (h : Sent o ns msg T T' b reply)
    (hseq : msg.hdr.seq < 4294967296) (stack : List UInt8) (type : Nat) :
    replyResult stack msg.hdr.seq type (received reply) = if b && msg.acks then 0 else -1 := by
  cases h with
  | silent _ hack => simp [received, replyResult, hack]
  | acked _ hack herr =>
    simp only [received, replyResult, hack, Bool.and_self, if_true]
    exact replyScan_error hseq (by decide) herr _ type 4095
  | @refused e data hpos hle herr =>
    simp only [received, replyResult, Bool.false_and, Bool.false_eq_true, if_false]
    have hne : 4294967296 - e ≠ 0 := by omega
    have := replyScan_error hseq (by omega) herr (stack.drop data.length) type 4095
    rwa [if_neg hne] at this

end Barco
