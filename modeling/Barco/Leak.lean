import Barco.MainWalk
import Barco.NetKernel

/-!
# Interfaces a run leaves behind

One run of `main` on a network it shares with others. Lookups are truthful,
requests that arrive are carried out or refused, and any call may fail. While
`nl_create_veth` waits for the new ends another process may rename them; the
end of a container takes its interface, and with it the pair, away
(`gentle_endNs`).

`no_leaked_interface`: no interface of the run is left in the host's namespace
when `main` returns, and none at all when `nl_create_veth` fails, in every run
in which

* the answer to a creation that was carried out is received (`Heard`),
* `nl_del_link` can send its request while there is something to delete
  (`Heard`), and
* the first end keeps its name, and nobody else takes one of the two names,
  while `nl_create_veth` waits (`Gentle`).

The invariant is `Held`: every interface of the run is paired with one that the
run can still find and delete.
-/

namespace Barco

open Effect Prog Links

/-! ## The network -/

structure LinkState where
  /-- the owner is `true` for what this run made -/
  table : Table CStr Bool
  /-- the datagram waiting on the socket -/
  reply : Option (List UInt8)
  /-- it answers a creation that was carried out -/
  unread : Bool
  /-- the names of the pair, while `nl_create_veth` runs -/
  names : List CStr
  /-- the index of its first end -/
  first : Nat
  /-- the ends that `nl_create_veth` has not found yet -/
  awaited : List Nat
  /-- `nl_del_link` is running -/
  inDel : Bool

/-- What others do between two calls: they make interfaces of their own, change
those of others, and delete pairs. An interface of the run in the host's
namespace stays as it is unless its index is in `free`: then it may get another
name. -/
structure Meddle (free : List Nat) (T T' : Table CStr Bool) : Prop where
  origin : ∀ l' ∈ T'.links, (∃ l ∈ T.links, Same l l') ∨ l'.owner = false
  stays : ∀ l ∈ T.links, l.owner = true → l.ns = 0 →
    (∃ l' ∈ T'.links, Same l l' ∧ l'.ns = 0 ∧ (l.index ∉ free → l'.name = l.name)) ∨
    ∀ l' ∈ T'.links, l'.pair ≠ l.pair

/-- Any behaviour of the others: the ends that are waited for may be renamed. -/
def anyMeddling (s : LinkState) (T : Table CStr Bool) : Prop := Meddle s.awaited s.table T

/-- The first end keeps its name, and no interface of another process takes one
of the two names while `nl_create_veth` runs. -/
def Gentle (s : LinkState) (T : Table CStr Bool) : Prop :=
  Meddle (s.awaited.filter (· ≠ s.first)) s.table T ∧
  ∀ l' ∈ T.links, l'.owner = false → l'.ns = 0 → l'.name ∈ s.names →
    ∃ l ∈ s.table.links, l.owner = false ∧ l.ns = 0 ∧ l.name ∈ s.names

/-- The end of a network namespace takes its interfaces away, and with them their other ends:
that is one of the things others may do. -/
theorem gentle_endNs (s : LinkState) (ns : Nat) : Gentle s (s.table.endNs ns) := by
  have hsub : ∀ l ∈ (s.table.endNs ns).links, l ∈ s.table.links := fun l hl =>
    (Table.mem_endNs.mp hl).1
  refine ⟨⟨fun l hl => .inl ⟨l, hsub l hl, .refl l⟩, fun l hl _ hns => ?_⟩,
    fun l hl hown hns hname => ⟨l, hsub l hl, hown, hns, hname⟩⟩
  by_cases hend : ∃ k ∈ s.table.links, k.ns = ns ∧ k.pair = l.pair
  · obtain ⟨k, hk, hkns, hpair⟩ := hend
    exact .inr fun l' hl' heq =>
      (Table.mem_endNs.mp hl').2 k hk hkns (hpair.trans heq.symm)
  · have hstays : l ∈ (s.table.endNs ns).links :=
      Table.mem_endNs.mpr ⟨hl, fun k hk hkns hpair => hend ⟨k, hk, hkns, hpair⟩⟩
    exact .inl ⟨l, hstays, .refl l, hns, fun _ => rfl⟩

/-- No interface of the run is left. -/
def Clean (s : LinkState) : Prop := ∀ l ∈ s.table.links, l.owner = false

/-- No interface of the run is left in the host's namespace. -/
def NoLeak (s : LinkState) : Prop := ∀ l ∈ s.table.links, l.owner = true → l.ns ≠ 0

/-- The answer to a creation arrives, and `nl_del_link` can send its request
while an interface of the run is there. -/
def Heard (s : LinkState) : (c : Call) → Answer c → Prop
  | .recvmsg _, r => s.unread = true → r = received s.reply
  | .socketNetlink, .error _ => s.inDel = true → NoLeak s
  | .sendmsg _ _, .error _ => s.inDel = true → NoLeak s
  | _, _ => True

/-- The state behind a request. -/
def afterSend (s : LinkState) (msg : NlMsg) (T : Table CStr Bool) (applied : Bool)
    (reply : Option (List UInt8)) : LinkState :=
  match requestOf msg, applied with
  | .create a b, true =>
    { s with
      table := T, reply := reply, unread := true, names := [a, b], first := s.table.next,
      awaited := [s.table.next, s.table.next + 1] }
  | _, _ => { s with table := T, reply := reply, unread := false }

/-- How a call of `main` is answered. A deletion that arrives is carried out. -/
def linkCall (s : LinkState) : (c : Call) → Answer c → LinkState → Prop
  | .socketNetlink, _, s' => s' = { s with reply := none, unread := false }
  | .ifNametoindex ifname, r, s' =>
    r = s.table.lookup 0 ifname ∧ s' = { s with awaited := s.awaited.filter (· ≠ r) }
  | .sendmsg _ _, .error _, s' => s' = s
  | .sendmsg _ msg, .ok _, s' => ∃ T applied reply, Sent true 0 msg s.table T applied reply ∧
      ((∃ idx, requestOf msg = .delete idx ∧ ∃ l ∈ s.table.links, l.ns = 0 ∧ l.index = idx) →
        applied = true) ∧
      s' = afterSend s msg T applied reply
  | .recvmsg _, r, s' =>
    (r = received s.reply ∨ ∃ e, r = .error e) ∧ s' = { s with reply := none, unread := false }
  | .enter (.nlDelLink _), _, s' => s' = { s with inDel := true }
  | .leave (.nlDelLink _) _, _, s' => s' = { s with inDel := false }
  | .leave (.nlCreateVeth _ _) _, _, s' => s' = { s with names := [], awaited := [] }
  | _, _, s' => s' = s

/-- The network with others that behave as `E` says, and calls that fail only as
`P` allows. -/
def linkKernel (E : LinkState → Table CStr Bool → Prop)
    (P : LinkState → (c : Call) → Answer c → Prop) : Machine Call Answer LinkState where
  may _ _ := True
  step s c r s' := ∃ T, E s T ∧ P { s with table := T } c r ∧ linkCall { s with table := T } c r s'

/-- The runs the theorem is about. -/
def carefulKernel : Machine Call Answer LinkState := linkKernel Gentle Heard

/-- The network before the run. -/
def LinkState.start (T : Table CStr Bool) : LinkState where
  table := T
  reply := none
  unread := false
  names := []
  first := 0
  awaited := []
  inDel := false

/-! ## What others cannot take away -/

/-- The ends that may be renamed. -/
def LinkState.loose (s : LinkState) : List Nat := s.awaited.filter (· ≠ s.first)

/-- Every interface of the run is paired with one in the host's namespace that
satisfies `q` and keeps its name. -/
def Held (q : Link CStr Bool → Prop) (s : LinkState) : Prop :=
  ∀ l ∈ s.table.links, l.owner = true →
    ∃ k ∈ s.table.links, k.owner = true ∧ k.pair = l.pair ∧ k.ns = 0 ∧ k.index ∉ s.loose ∧ q k

variable {s : LinkState} {T : Table CStr Bool} {q : Link CStr Bool → Prop}

/-- What a held state does not depend on: answers, and which ends are still
waited for, as long as they become fewer. -/
structure Stable (I : LinkState → Prop) : Prop where
  env : ∀ {s T}, I s → Gentle s T → I { s with table := T }
  reply : ∀ {s} reply unread, I s → I { s with reply := reply, unread := unread }
  seen : ∀ {s} idx, I s → I { s with awaited := s.awaited.filter (· ≠ idx) }

theorem own_origin (h : Meddle s.loose s.table T) {l' : Link CStr Bool} (hl' : l' ∈ T.links)
    (hown : l'.owner = true) : ∃ l ∈ s.table.links, Same l l' := by
  rcases h.origin l' hl' with hold | hnew
  · exact hold
  · exact absurd (hown.symm.trans hnew) (by decide)

theorem Clean.held (h : Clean s) : Held q s := fun l hl hown =>
  absurd (hown.symm.trans (h l hl)) (by decide)

theorem Clean.of_held (h : Held (fun _ => False) s) : Clean s := fun l hl => by
  by_contra hown
  obtain ⟨k, -, -, -, -, -, hfalse⟩ := h l hl (by simpa using hown)
  exact hfalse

theorem Held.noLeak_clean (h : Held q s) (hno : NoLeak s) : Clean s := fun l hl => by
  by_contra hown
  obtain ⟨k, hk, hkown, -, hkns, -⟩ := h l hl (by simpa using hown)
  exact hno k hk hkown hkns

theorem Clean.noLeak (h : Clean s) : NoLeak s := fun l hl hown =>
  absurd (hown.symm.trans (h l hl)) (by decide)

theorem held_stable : Stable (Held q) where
  env {s T} h hE l' hl' hown := by
    obtain ⟨l, hl, hsame⟩ := own_origin hE.1 hl' hown
    obtain ⟨k, hk, hkown, hpair, hns, hfree, hq⟩ := h l hl (hsame.owner.trans hown)
    rcases hE.1.stays k hk hkown hns with ⟨k', hk', hsame', hns', hname⟩ | hgone
    · obtain rfl : k = k' := by
        cases k
        cases k'
        have := hname hfree
        have := hsame'.index
        have := hsame'.pair
        have := hsame'.owner
        simp_all
      exact ⟨k, hk', hkown, hpair.trans hsame.pair, hns, hfree, hq⟩
    · exact absurd (hsame.pair.symm.trans hpair.symm) (hgone l' hl')
  reply _ _ h := h
  seen {s} idx h l hl hown := by
    obtain ⟨k, hk, hkown, hpair, hns, hfree, hq⟩ := h l hl hown
    refine ⟨k, hk, hkown, hpair, hns, fun hmem => hfree ?_, hq⟩
    simp only [LinkState.loose, List.mem_filter] at hmem ⊢
    exact ⟨hmem.1.1, hmem.2⟩

theorem clean_stable : Stable Clean where
  env {s T} h hE l' hl' := by
    by_contra hown
    obtain ⟨l, hl, hsame⟩ := own_origin hE.1 hl' (by simpa using hown)
    exact hown (hsame.owner ▸ h l hl)
  reply _ _ h := h
  seen _ h := h

theorem Stable.and {I I' : LinkState → Prop} (h : Stable I) (h' : Stable I') :
    Stable fun s => I s ∧ I' s where
  env hI hE := ⟨h.env hI.1 hE, h'.env hI.2 hE⟩
  reply reply unread hI := ⟨h.reply reply unread hI.1, h'.reply reply unread hI.2⟩
  seen idx hI := ⟨h.seen idx hI.1, h'.seen idx hI.2⟩

theorem Stable.or {I I' : LinkState → Prop} (h : Stable I) (h' : Stable I') :
    Stable fun s => I s ∨ I' s where
  env hI hE := hI.imp (h.env · hE) (h'.env · hE)
  reply reply unread hI := hI.imp (h.reply reply unread) (h'.reply reply unread)
  seen idx hI := hI.imp (h.seen idx) (h'.seen idx)

/-- What does not speak about the state at all. -/
theorem Stable.const (P : Prop) : Stable fun _ => P := ⟨fun h _ => h, fun _ _ h => h, fun _ h => h⟩

theorem inDel_stable : Stable fun s => s.inDel = true :=
  ⟨fun h _ => h, fun _ _ h => h, fun _ h => h⟩

/-! ## Rules -/

/-- `nl_create_veth` may not fail and leave an end behind. -/
def leakRule (s : LinkState) : Call → Prop
  | .leave (.nlCreateVeth _ _) r => r = -1 → Clean s
  | _ => True

/-- The careful runs, checked at every return of `nl_create_veth`. -/
def careful : Machine Call Answer LinkState := carefulKernel.guard leakRule

section Rules

variable {I : LinkState → Prop} {β : Type} {Q : β → LinkState → Prop}

/-- A call that changes nothing. -/
theorem careful_call {c : Call} {k : Answer c → Sys β} (hrule : ∀ s, leakRule s c)
    (hc : ∀ s r s', linkCall s c r s' → s' = s) (hI : Stable I) (hs : I s)
    (hk : ∀ r s', I s' → wp careful (k r) Q s') : wp careful (sys c >>= k) Q s := by
  refine ⟨hrule s, ?_⟩
  rintro r s' ⟨T, hE, -, hcall⟩
  obtain rfl := hc _ _ _ hcall
  exact hk r _ (hI.env hs hE)

theorem careful_closeFd {fd : Int} {k : Unit → Sys β} (hI : Stable I) (hs : I s)
    (hk : ∀ s', I s' → wp careful (k ()) Q s') : wp careful (closeFd fd >>= k) Q s :=
  careful_call (c := .close fd) (fun _ => trivial) (fun _ _ _ h => h) hI hs fun _ => hk

theorem careful_socket {f : Int → Sys Int} {Q : Int → LinkState → Prop} (hI : Stable I) (hs : I s)
    (herr : ∀ s', I s' → (s'.inDel = true → NoLeak s') → Q (-1) s')
    (hok : ∀ (sock : Nat) s', I s' → wp careful (f sock) Q s') :
    wp careful (nlSocket >>= fun sock => if sock < 0 then pure (-1) else f sock) Q s := by
  refine ⟨trivial, ?_⟩
  rintro r s' ⟨T, hE, hP, rfl⟩
  have hs' := hI.reply none false (hI.env hs hE)
  cases r with
  | error e => exact herr _ hs' hP
  | ok sock =>
    refine careful_call (c := .setsockoptRcvtimeo sock) (fun _ => trivial) (fun _ _ _ h => h) hI hs'
      fun r s'' hs'' => ?_
    have hpos : ¬ ((sock : Int) < 0) := by omega
    show wp careful (if (sock : Int) < 0 then pure (-1) else f sock) _ _
    rw [if_neg hpos]
    exact hok sock s'' hs''

theorem careful_lookup {ifname : CStr} {k : Nat → Sys β} (hI : Stable I) (hs : I s)
    (hk : ∀ s', I s' → wp careful (k (s'.table.lookup 0 ifname)) Q
      { s' with awaited := s'.awaited.filter (· ≠ s'.table.lookup 0 ifname) }) :
    wp careful (sys (.ifNametoindex ifname) >>= k) Q s := by
  refine ⟨trivial, ?_⟩
  rintro r s' ⟨T, hE, -, rfl, rfl⟩
  exact hk _ (hI.env hs hE)

/-- A request and what `recvmsg` brings, where `A` holds between the two. -/
theorem careful_sendRecv {sock : Int} {msg : NlMsg} {seq type : Nat} {Q : Int → LinkState → Prop}
    {A : LinkState → Prop} (hA : ∀ {s T}, A s → Gentle s T → A { s with table := T })
    (hI : Stable I) (hs : I s)
    (herr : ∀ s', I s' → (s'.inDel = true → NoLeak s') → Q (-1) s')
    (hsent : ∀ s' T applied reply, I s' → Sent true 0 msg s'.table T applied reply →
      ((∃ idx, requestOf msg = .delete idx ∧ ∃ l ∈ s'.table.links, l.ns = 0 ∧ l.index = idx) →
        applied = true) → A (afterSend s' msg T applied reply))
    (hrecv : ∀ s' stack r, A s' → (s'.unread = true → r = received s'.reply) →
      Q (replyResult stack seq type r) { s' with reply := none, unread := false }) :
    wp careful (nlSendRecv sock msg seq type) Q s := by
  refine ⟨trivial, ?_⟩
  rintro r s₁ ⟨T₁, hE₁, hP₁, hcall₁⟩
  cases r with
  | error e =>
    obtain rfl := hcall₁
    exact herr _ (hI.env hs hE₁) hP₁
  | ok n =>
    obtain ⟨T, applied, reply, hsnt, hdel, rfl⟩ := hcall₁
    have hA₁ := hsent _ _ _ _ (hI.env hs hE₁) hsnt hdel
    refine ⟨trivial, ?_⟩
    rintro stack s₂ ⟨T₂, hE₂, -, rfl⟩
    refine ⟨trivial, ?_⟩
    rintro r s₃ ⟨T₃, hE₃, hP₃, -, rfl⟩
    have hA₃ := hA (hA hA₁ hE₂) hE₃
    have := hrecv _ stack.1 r hA₃ hP₃
    cases r with
    | error e => exact this
    | ok data => exact this

/-- A request that keeps what holds, whatever the answer. -/
theorem careful_request {sock : Int} {msg : NlMsg} {seq type : Nat} (hI : Stable I) (hs : I s)
    (hsent : ∀ s' T applied reply, I s' → Sent true 0 msg s'.table T applied reply →
      I (afterSend s' msg T applied reply)) :
    wp careful (nlSendRecv sock msg seq type) (fun _ => I) s :=
  careful_sendRecv (A := I) hI.env hI hs (fun _ h _ => h) (fun s' T b reply h hs _ =>
    hsent s' T b reply h hs) fun _ _ _ h _ => hI.reply none false h

/-- Waiting keeps what holds. -/
theorem careful_wait {ifname : CStr} (hI : Stable I) (timeoutMs : Nat) (hs : I s) :
    wp careful (waitForInterface ifname timeoutMs) (fun _ => I) s := by
  have hloop : ∀ fuel waited s, I s →
      wp careful (waitLoop ifname timeoutMs fuel waited) (fun _ => I) s := by
    intro fuel
    induction fuel with
    | zero => exact fun _ _ h => h
    | succ fuel ih =>
      intro waited s hs
      simp only [waitLoop]
      split
      · refine careful_lookup hI hs fun s' hs' => ?_
        have hseen := hI.seen (s'.table.lookup 0 ifname) hs'
        split
        · exact hseen
        · exact careful_call (c := .usleep 100000) (fun _ => trivial) (fun _ _ _ h => h) hI hseen
            fun _ s'' h => ih _ s'' h
      · exact hs
  exact hloop _ _ s hs

/-- A function under a mark of no importance. -/
theorem careful_invoke {f : Fn} {body : Sys Int} (hI : Stable I) (hs : I s)
    (hrule : ∀ s r, leakRule s (.leave f r))
    (henter : ∀ s r s', linkCall s (.enter f) r s' → s' = s)
    (hleave : ∀ s x r s', linkCall s (.leave f x) r s' → s' = s)
    (hbody : ∀ s, I s → wp careful body (fun _ => I) s) :
    wp careful (invoke f body) (fun _ => I) s := by
  refine careful_call (c := .enter f) (fun _ => trivial) henter hI hs fun _ s₁ h₁ => ?_
  refine wp_seq (hbody s₁ h₁) fun r s₂ h₂ => ?_
  exact careful_call (c := .leave f r) (fun s => hrule s r) (fun s => hleave s r) hI h₂ fun _ _ h => h

end Rules

/-! ## What a request does to the pair -/

variable {msg : NlMsg} {applied : Bool} {reply : Option (List UInt8)} {idx : Nat}

theorem afterSend_of_ne {P : LinkState → Prop} (hne : ∀ a b, requestOf msg ≠ .create a b)
    (h : P { s with table := T, reply := reply, unread := false }) :
    P (afterSend s msg T applied reply) := by
  unfold afterSend
  split
  · rename_i a b hreq
    exact absurd hreq (hne a b)
  · exact h

/-- A request that is not about pairs leaves the table as it is. -/
theorem Sent.table_eq (h : Sent true 0 msg s.table T applied reply) (hreq : requestOf msg = .other) :
    T = s.table := by
  cases applied with
  | false => exact h.eq_of_refused rfl
  | true =>
    have hstep := h.step_of_applied rfl
    rw [hreq] at hstep
    cases hstep with
    | other => rfl

theorem afterSend_other {I : LinkState → Prop} (hI : Stable I) (hreq : requestOf msg = .other)
    (hs : I s) (h : Sent true 0 msg s.table T applied reply) :
    I (afterSend s msg T applied reply) := by
  refine afterSend_of_ne (fun a b => by rw [hreq]; exact fun h => nomatch h) ?_
  rw [h.table_eq hreq]
  exact hI.reply reply false hs

/-- A deletion under the index of the end that is held takes everything with it. -/
theorem afterSend_delete (hreq : requestOf msg = .delete idx) (hs : Held (fun k => k.index = idx) s)
    (h : Sent true 0 msg s.table T applied reply)
    (hdel : (∃ idx, requestOf msg = .delete idx ∧ ∃ l ∈ s.table.links, l.ns = 0 ∧ l.index = idx) →
      applied = true) : Clean (afterSend s msg T applied reply) := by
  refine afterSend_of_ne (fun a b => by rw [hreq]; exact fun h => nomatch h) ?_
  show ∀ l ∈ T.links, l.owner = false
  intro l hl
  by_contra hown
  cases applied with
  | false =>
    obtain rfl := h.eq_of_refused rfl
    obtain ⟨k, hk, -, -, hns, -, hidx⟩ := hs l hl (by simpa using hown)
    exact absurd (hdel ⟨idx, hreq, k, hk, hns, hidx⟩) (by decide)
  | true =>
    have hstep := h.step_of_applied rfl
    rw [hreq] at hstep
    cases hstep with
    | delete _ =>
      obtain ⟨hold, hgone⟩ := Table.mem_delete.mp hl
      obtain ⟨k, hk, -, hpair, hns, -, hidx⟩ := hs l hold (by simpa using hown)
      exact hgone k hk hns hidx hpair

/-- Moving another interface away keeps the end that is held. -/
theorem afterSend_move (hreq : requestOf msg = .move idx)
    (hs : Held (fun k => q k ∧ k.index ≠ idx) s) (h : Sent true 0 msg s.table T applied reply) :
    Held (fun k => q k ∧ k.index ≠ idx) (afterSend s msg T applied reply) := by
  refine afterSend_of_ne (fun a b => by rw [hreq]; exact fun h => nomatch h) ?_
  cases applied with
  | false =>
    obtain rfl := h.eq_of_refused rfl
    exact hs
  | true =>
    have hstep := h.step_of_applied rfl
    rw [hreq] at hstep
    cases hstep with
    | move hfree _ _ =>
      intro l' hl' hown
      obtain ⟨l, hl, heq⟩ := (Table.mem_move hfree).mp hl'
      have hsame : Same l l' := by
        rw [← heq]
        split <;> exact ⟨rfl, rfl, rfl⟩
      obtain ⟨k, hk, hkown, hpair, hns, hloose, hq, hne⟩ := hs l hl (hsame.owner.trans hown)
      exact ⟨k, Table.mem_move_of_ne hfree hk hne, hkown, hpair.trans hsame.pair, hns, hloose, hq, hne⟩

/-- A lookup under the name of the end that is held gives its index. -/
theorem Held.lookup {ifname : CStr} (h : Held (fun k => k.name = ifname) s) :
    Held (fun k => k.index = s.table.lookup 0 ifname) s := fun l hl hown => by
  obtain ⟨k, hk, hkown, hpair, hns, hloose, hname⟩ := h l hl hown
  refine ⟨k, hk, hkown, hpair, hns, hloose, ?_⟩
  show k.index = s.table.lookup 0 ifname
  rw [← Table.lookup_of_mem hk, hns, hname]

theorem Held.clean_of_lookup_zero (h : Held (fun k => k.index = 0) s) : Clean s := fun l hl => by
  by_contra hown
  obtain ⟨k, hk, -, -, -, -, hidx⟩ := h l hl (by simpa using hown)
  exact absurd hidx (Nat.ne_of_gt (s.table.fresh k hk).1)

/-! ## Operations -/

section Operations

variable {ifname : CStr}

/-- `nl_del_link` under the name of the end that is held removes the pair. -/
theorem delLink_clean (hs : Held (fun k => k.name = ifname) s) :
    wp careful (invoke (.nlDelLink ifname) (nlDelLink ifname)) (fun _ => Clean) s := by
  have hI := (held_stable (q := fun k => k.name = ifname)).and inDel_stable
  have hC := clean_stable.and inDel_stable
  refine ⟨trivial, ?_⟩
  rintro r s' ⟨T, hE, -, rfl⟩
  show wp careful (nlDelLink ifname >>= fun r => sys (.leave (.nlDelLink ifname) r) >>= fun _ => pure r)
    _ _
  refine wp_seq (Q := fun _ s => Clean s) ?_ fun r s₂ h₂ =>
    ⟨trivial, fun r s₃ ⟨T₃, hE₃, _, h₃⟩ => h₃ ▸ clean_stable.env h₂ hE₃⟩
  have hs' : Held (fun k => k.name = ifname) { s with table := T, inDel := true } :=
    held_stable.env (s := { s with inDel := true }) hs hE
  refine careful_socket hI ⟨hs', rfl⟩ (fun s₁ h₁ hno => h₁.1.noLeak_clean (hno h₁.2)) fun sock s₁ h₁ => ?_
  refine careful_lookup hI h₁ fun s₂ h₂ => ?_
  have hheld := held_stable.seen (s₂.table.lookup 0 ifname) h₂.1.lookup
  split
  · rename_i hzero
    rw [hzero] at hheld
    exact careful_closeFd clean_stable hheld.clean_of_lookup_zero fun _ h => h
  · refine wp_seq (Q := fun _ s => Clean s) ?_ fun _ s₃ h₃ => careful_closeFd clean_stable h₃ fun _ h => h
    refine careful_sendRecv (A := Clean) clean_stable.env (held_stable.and inDel_stable)
      ⟨hheld, h₂.2⟩ (fun s₃ h₃ hno => h₃.1.noLeak_clean (hno h₃.2)) ?_ fun _ _ _ h _ => h
    exact fun s₃ T b reply h₃ hsent hdel => afterSend_delete (requestOf_delLinkMsg _) h₃.1 hsent hdel

variable {I : LinkState → Prop}

theorem setUp_keeps (hI : Stable I) (hs : I s) :
    wp careful (invoke (.nlSetUp ifname) (nlSetUp ifname)) (fun _ => I) s := by
  refine careful_invoke hI hs (fun _ _ => trivial) (fun _ _ _ h => h) (fun _ _ _ _ h => h)
    fun s₁ h₁ => ?_
  refine careful_socket hI h₁ (fun _ h _ => h) fun sock s₂ h₂ => ?_
  refine wp_seq (careful_wait hI 5000 h₂) fun idx s₃ h₃ => ?_
  split
  · exact careful_closeFd hI h₃ fun _ h => h
  · rename_i hidx
    refine wp_seq (careful_request hI h₃ fun s' T b reply h hsent => ?_) fun _ s₄ h₄ =>
      careful_closeFd hI h₄ fun _ h => h
    exact afterSend_other hI (requestOf_setUpMsg hidx) h hsent

theorem addAddr_keeps {ipCidr : CStr} (hI : Stable I) (hs : I s) :
    wp careful (invoke (.nlAddAddr ifname ipCidr) (nlAddAddr ifname ipCidr)) (fun _ => I) s := by
  refine careful_invoke hI hs (fun _ _ => trivial) (fun _ _ _ h => h) (fun _ _ _ _ h => h)
    fun s₁ h₁ => ?_
  refine careful_socket hI h₁ (fun _ h _ => h) fun sock s₂ h₂ => ?_
  refine wp_seq (careful_wait hI 5000 h₂) fun idx s₃ h₃ => ?_
  split
  · exact careful_closeFd hI h₃ fun _ h => h
  · cases hip : parseCidr ipCidr with
    | none => exact careful_closeFd hI h₃ fun _ h => h
    | some ip =>
      refine wp_seq (careful_request hI h₃ fun s' T b reply h hsent => ?_) fun _ s₄ h₄ =>
        careful_closeFd hI h₄ fun _ h => h
      exact afterSend_other hI (requestOf_addAddrMsg idx ip.1 ip.2) h hsent

/-- Handing over one end keeps what is held under other names. -/
theorem moveToNs_keeps {nsFd : Int} (hq : ∀ k, q k → k.name ≠ ifname) (hs : Held q s) :
    wp careful (invoke (.nlMoveToNs ifname nsFd) (nlMoveToNs ifname nsFd)) (fun _ => Held q) s := by
  refine careful_invoke held_stable hs (fun _ _ => trivial) (fun _ _ _ h => h)
    (fun _ _ _ _ h => h) fun s₁ h₁ => ?_
  refine careful_socket held_stable h₁ (fun _ h _ => h) fun sock s₂ h₂ => ?_
  refine careful_lookup held_stable h₂ fun s₃ h₃ => ?_
  have hseen := held_stable.seen (s₃.table.lookup 0 ifname) h₃
  split
  · exact careful_closeFd held_stable hseen fun _ h => h
  · rename_i hidx
    obtain ⟨l, hl, hlidx, -, hlname⟩ := Table.lookup_mem hidx
    have hother : Held (fun k => q k ∧ k.index ≠ s₃.table.lookup 0 ifname)
        { s₃ with awaited := s₃.awaited.filter (· ≠ s₃.table.lookup 0 ifname) } := by
      intro l' hl' hown
      obtain ⟨k, hk, hkown, hpair, hns, hloose, hqk⟩ := hseen l' hl' hown
      refine ⟨k, hk, hkown, hpair, hns, hloose, hqk, fun heq => hq k hqk ?_⟩
      rw [s₃.table.index_inj k hk l hl (heq.trans hlidx.symm), hlname]
    refine wp_seq (careful_request held_stable hother fun s' T b reply h hsent =>
      afterSend_move (requestOf_moveToNsMsg nsFd hidx) h hsent) fun _ s₄ h₄ => ?_
    refine careful_closeFd held_stable h₄ fun s₅ h₅ l hl hown => ?_
    obtain ⟨k, hk, hkown, hpair, hns, hloose, hqk, -⟩ := h₅ l hl hown
    exact ⟨k, hk, hkown, hpair, hns, hloose, hqk⟩

end Operations

/-! ## Creation -/

/-- The pair that `nl_create_veth` waits for: its first end is held under the
first name, and nobody else has one of the names. -/
structure Awaited (tmp peer : CStr) (s : LinkState) : Prop where
  held : Held (fun k => k.name = tmp) s
  onePair : ∀ l ∈ s.table.links, ∀ l' ∈ s.table.links, l.owner = true → l'.owner = true →
    l.pair = l'.pair
  noForeign : ∀ l ∈ s.table.links, l.owner = false → l.ns = 0 → l.name ∉ s.names
  names : s.names = [tmp, peer]

variable {tmp peer : CStr}

theorem awaited_stable : Stable (Awaited tmp peer) where
  env {s T} h hE := by
    refine ⟨held_stable.env h.held hE, fun l hl l' hl' hown hown' => ?_, fun l hl hown hns hmem => ?_,
      h.names⟩
    · obtain ⟨k, hk, hsame⟩ := own_origin hE.1 hl hown
      obtain ⟨k', hk', hsame'⟩ := own_origin hE.1 hl' hown'
      rw [← hsame.pair, ← hsame'.pair]
      exact h.onePair k hk k' hk' (hsame.owner.trans hown) (hsame'.owner.trans hown')
    · obtain ⟨k, hk, hkown, hkns, hkmem⟩ := hE.2 l hl hown hns hmem
      exact h.noForeign k hk hkown hkns hkmem
  reply reply unread h := ⟨h.held, h.onePair, h.noForeign, h.names⟩
  seen idx h := ⟨held_stable.seen idx h.held, h.onePair, h.noForeign, h.names⟩

/-- Between the request and its answer: nothing was made, or a pair was and the
acknowledgement waits on the socket. -/
def Pending (tmp peer : CStr) (s : LinkState) : Prop :=
  Clean s ∨ (Awaited tmp peer s ∧ tmp ≠ peer ∧ s.unread = true ∧
    ∃ data, s.reply = some data ∧ IsError 1 0 data)

theorem pending_env {T : Table CStr Bool} (h : Pending tmp peer s) (hE : Gentle s T) :
    Pending tmp peer { s with table := T } :=
  h.imp (clean_stable.env · hE) fun h => ⟨awaited_stable.env h.1 hE, h.2⟩

/-- The request of `nl_create_veth` makes nothing, or a pair that is held. -/
theorem afterSend_create (hmsg : createVethMsg tmp peer = some msg) (hs : Clean s)
    (h : Sent true 0 msg s.table T applied reply) :
    Pending tmp peer (afterSend s msg T applied reply) := by
  have hreq := requestOf_createVethMsg hmsg
  obtain ⟨hack, hseq⟩ := acks_createVethMsg hmsg
  cases h with
  | silent _ hno => exact absurd (hno.symm.trans hack) (by decide)
  | refused _ _ _ =>
    simp only [afterSend, hreq]
    exact .inl hs
  | @acked _ data hstep _ herr =>
    simp only [afterSend, hreq]
    rw [hreq] at hstep
    cases hstep with
    | create ha hb hab =>
      have hown : ∀ l ∈ (s.table.create true 0 tmp peer ha hb hab).links, l.owner = true →
          l = ⟨s.table.next, s.table.next, 0, tmp, true⟩ ∨
          l = ⟨s.table.next + 1, s.table.next, 0, peer, true⟩ := by
        intro l hl hown
        rcases (Table.mem_create ha hb hab).mp hl with rfl | rfl | hold
        · exact .inl rfl
        · exact .inr rfl
        · exact absurd (hown.symm.trans (hs l hold)) (by decide)
      have hpair : ∀ l ∈ (s.table.create true 0 tmp peer ha hb hab).links, l.owner = true →
          l.pair = s.table.next := by
        intro l hl h
        rcases hown l hl h with rfl | rfl <;> rfl
      refine .inr ⟨⟨fun l hl h => ?_, fun l hl l' hl' h h' => ?_, fun l hl h hns hmem => ?_, rfl⟩, hab,
        rfl, data, rfl, hseq ▸ herr⟩
      · refine ⟨_, (Table.mem_create ha hb hab).mpr (.inl rfl), rfl, (hpair l hl h).symm, rfl, ?_, rfl⟩
        simp [LinkState.loose]
      · exact (hpair l hl h).trans (hpair l' hl' h').symm
      · rcases (Table.mem_create ha hb hab).mp hl with rfl | rfl | hold
        · exact nomatch h
        · exact nomatch h
        · simp only [List.mem_cons, List.not_mem_nil, or_false] at hmem
          rcases hmem with hname | hname
          · exact ha l hold hns hname
          · exact hb l hold hns hname

/-- Once found, the second end is held as well. -/
theorem Awaited.found (h : Awaited tmp peer s) (hidx : s.table.lookup 0 peer ≠ 0) :
    Held (fun k => k.name = peer)
      { s with awaited := s.awaited.filter (· ≠ s.table.lookup 0 peer) } := by
  obtain ⟨k, hk, hkidx, hns, hname⟩ := Table.lookup_mem hidx
  have hown : k.owner = true := by
    by_contra hno
    refine h.noForeign k hk (by simpa using hno) hns ?_
    rw [h.names, hname]
    exact List.mem_cons_of_mem _ List.mem_cons_self
  refine fun l hl hl' => ⟨k, hk, hown, h.onePair k hk l hl hown hl', hns, ?_, hname⟩
  simp [LinkState.loose, hkidx]

/-- Waiting for the second end. -/
theorem wait_peer (hs : Awaited tmp peer s) :
    wp careful (waitForInterface peer 5000) (fun idx s' => Awaited tmp peer s' ∧
      (idx ≠ 0 → Held (fun k => k.name = peer) s')) s := by
  have hloop : ∀ fuel waited s, Awaited tmp peer s →
      wp careful (waitLoop peer 5000 fuel waited) (fun idx s' => Awaited tmp peer s' ∧
        (idx ≠ 0 → Held (fun k => k.name = peer) s')) s := by
    intro fuel
    induction fuel with
    | zero => exact fun _ _ h => ⟨h, fun h => absurd rfl h⟩
    | succ fuel ih =>
      intro waited s hs
      simp only [waitLoop]
      split
      · refine careful_lookup awaited_stable hs fun s' hs' => ?_
        have hseen := awaited_stable.seen (s'.table.lookup 0 peer) hs'
        split
        · rename_i hidx
          exact ⟨hseen, fun _ => hs'.found hidx⟩
        · exact careful_call (c := .usleep 100000) (fun _ => trivial) (fun _ _ _ h => h)
            awaited_stable hseen fun _ s'' h => ih _ s'' h
      · exact ⟨hs, fun h => absurd rfl h⟩
  exact hloop _ _ s hs

/-- The body of `nl_create_veth`: on failure nothing is left, on success the
second end is held. -/
theorem createVeth_body (hs : Clean s) :
    wp careful (nlCreateVeth tmp peer) (fun r s' => Clean s' ∨
      (0 ≤ r ∧ tmp ≠ peer ∧ Held (fun k => k.name = peer) s')) s := by
  refine careful_socket clean_stable hs (fun _ h _ => .inl h) fun sock s₁ h₁ => ?_
  cases hmsg : createVethMsg tmp peer with
  | none => exact ⟨trivial, fun r => nomatch r⟩
  | some msg =>
    refine wp_seq (Q := fun ret s' => Clean s' ∨ (ret = 0 ∧ tmp ≠ peer ∧ Awaited tmp peer s')) ?_ ?_
    · refine careful_sendRecv (A := Pending tmp peer) pending_env clean_stable h₁ (fun _ h _ => .inl h)
        (fun s' T b reply h hsent _ => afterSend_create hmsg h hsent) ?_
      rintro s' stack r (hclean | ⟨hawait, hne, hunread, data, hreply, herr⟩) hheard
      · exact .inl hclean
      · refine .inr ⟨?_, hne, awaited_stable.reply none false hawait⟩
        rw [hheard hunread, hreply]
        exact replyScan_error (by decide) (by decide) herr _ _ 4095
    · intro ret s₂ h₂
      have hI := clean_stable.or ((Stable.const (ret = 0)).and
        ((Stable.const (tmp ≠ peer)).and (awaited_stable : Stable (Awaited tmp peer))))
      refine careful_closeFd hI h₂ fun s₃ h₃ => ?_
      split
      · rename_i hneg
        refine .inl (h₃.resolve_right fun h => ?_)
        omega
      · rcases h₃ with hclean | ⟨-, hne, hawait⟩
        · refine wp_seq (careful_wait clean_stable 5000 hclean) fun idx1 s₄ h₄ => ?_
          refine wp_seq (careful_wait clean_stable 5000 h₄) fun idx2 s₅ h₅ => ?_
          split
          · exact wp_seq (delLink_clean h₅.held) fun _ _ h => .inl h
          · exact .inl h₅
        · refine wp_seq (careful_wait awaited_stable 5000 hawait) fun idx1 s₄ h₄ => ?_
          refine wp_seq (wait_peer h₄) ?_
          rintro idx2 s₅ ⟨h₅, hheld⟩
          split
          · exact wp_seq (delLink_clean h₅.held) fun _ _ h => .inl h
          · rename_i hidx
            exact .inr ⟨Int.le_refl 0, hne, hheld (not_or.mp hidx).2⟩

theorem createVeth_keeps (hs : Clean s) :
    wp careful (invoke (.nlCreateVeth tmp peer) (nlCreateVeth tmp peer))
      (fun r s' => Clean s' ∨ (0 ≤ r ∧ tmp ≠ peer ∧ Held (fun k => k.name = peer) s')) s := by
  refine careful_call (c := .enter (.nlCreateVeth tmp peer)) (fun _ => trivial) (fun _ _ _ h => h)
    clean_stable hs fun _ s₁ h₁ => ?_
  refine wp_seq (createVeth_body h₁) fun r s₂ h₂ => ⟨fun hr => h₂.resolve_right fun h => ?_, ?_⟩
  · omega
  · rintro u s₃ ⟨T, hE, -, rfl⟩
    rcases h₂ with hclean | ⟨hr, hne, hheld⟩
    · exact .inl (clean_stable.env hclean hE)
    · refine .inr ⟨hr, hne, fun l hl hown => ?_⟩
      obtain ⟨k, hk, hkown, hpair, hns, -, hname⟩ := held_stable.env hheld hE l hl hown
      exact ⟨k, hk, hkown, hpair, hns, by simp [LinkState.loose], hname⟩

/-! ## All of `main` -/

/-- A call that is not about interfaces and marks nothing changes nothing. -/
theorem linkCall_still {c : Call} (hnl : c.area ≠ .netlink) (hdel : c.area ≠ .delMark)
    (hmark : c.area ≠ .mark) :
    (∀ s, leakRule s c) ∧ ∀ s r s', linkCall s c r s' → s' = s := by
  cases c with
  | enter f => cases f <;> first | exact absurd rfl hdel | exact absurd rfl hmark
  | leave f r => cases f <;> first | exact absurd rfl hdel | exact absurd rfl hmark
  | socketNetlink => exact absurd rfl hnl
  | setsockoptRcvtimeo fd => exact absurd rfl hnl
  | sendmsg fd msg => exact absurd rfl hnl
  | recvmsg fd => exact absurd rfl hnl
  | ifNametoindex ifname => exact absurd rfl hnl
  | _ => exact ⟨fun _ => trivial, fun _ _ _ h => h⟩

/-- Such calls keep what holds. -/
theorem careful_still {α : Type} {I : LinkState → Prop} {p : Sys α} (hI : Stable I) (hs : I s)
    (hp : p.Only fun c => c.area ≠ .netlink ∧ c.area ≠ .delMark ∧ c.area ≠ .mark) :
    wp careful p (fun _ => I) s := by
  refine wp_of_only hp (fun s c hc h => ?_) hs
  obtain ⟨hrule, hcall⟩ := linkCall_still hc.1 hc.2.1 hc.2.2
  refine ⟨hrule s, ?_⟩
  rintro r s' ⟨T, hE, -, hstep⟩
  obtain rfl := hcall _ _ _ hstep
  exact hI.env h hE

/-- What `main` holds at a stage: nothing, or a pair whose host end it will delete. -/
def Kept (stage : Stage) (st : MainState) (s : LinkState) : Prop :=
  Clean s ∨ ((stage = .running ∨ stage = .natReleased) ∧ st.vethCreated = true ∧
    ∃ peer, st.config.vethPeer = some peer ∧ st.config.vethTmp ≠ some peer ∧
      Held (fun k => k.name = peer) s)

variable {stage : Stage} {st : MainState}

theorem kept_stable : Stable (Kept stage st) where
  env h hE := h.imp (clean_stable.env · hE) fun ⟨hst, hc, peer, hp, ht, hheld⟩ =>
    ⟨hst, hc, peer, hp, ht, held_stable.env hheld hE⟩
  reply _ _ h := h
  seen idx h := h.imp (clean_stable.seen idx) fun ⟨hst, hc, peer, hp, ht, hheld⟩ =>
    ⟨hst, hc, peer, hp, ht, held_stable.seen idx hheld⟩

theorem Kept.clean_of_not_created (h : Kept stage st s) (hst : st.vethCreated = false) : Clean s :=
  h.resolve_right fun ⟨_, hc, _⟩ => absurd (hst.symm.trans hc) (by decide)

theorem moveToNs_kept {tmp : CStr} {nsFd : Int} (h : Kept stage st s)
    (htmp : st.config.vethTmp = some tmp) :
    wp careful (invoke (.nlMoveToNs tmp nsFd) (nlMoveToNs tmp nsFd)) (fun _ => Kept stage st) s := by
  rcases h with hclean | ⟨hst, hc, peer, hp, ht, hheld⟩
  · exact wp_mono (moveToNs_keeps (q := fun _ => False) (fun _ h => h.elim) hclean.held)
      fun _ _ h => .inl (.of_held h)
  · refine wp_mono (moveToNs_keeps (fun k hk heq => ht ?_) hheld) fun _ _ h =>
      .inr ⟨hst, hc, peer, hp, ht, h⟩
    rw [htmp, ← heq, hk]

/-- `main` deletes what it made, whichever way it leaves. -/
theorem kept_walk : Walk careful Kept := by
  have hinvoke : ∀ {stage st s f S P} {body : Sys Int}, Kept stage st s → Tidy S P body →
      (∀ a ∈ S, a ≠ .netlink ∧ a ≠ .delMark ∧ a ≠ .mark) →
      (∀ s r, leakRule s (.leave f r)) → (∀ s r s', linkCall s (.enter f) r s' → s' = s) →
      (∀ s x r s', linkCall s (.leave f x) r s' → s' = s) →
      wp careful (invoke f body) (fun _ => Kept stage st) s :=
    fun h hbody hS hrule henter hleave => careful_invoke kept_stable h hrule henter hleave
      fun _ h => careful_still kept_stable h (hbody.only.mono fun _ hc => hS _ hc)
  exact {
    agree := fun {stage st st' s} ha h => by
      obtain ⟨fd, hfd⟩ := ha.config
      refine h.imp id fun ⟨hst, hc, peer, hp, ht, hheld⟩ => ⟨hst, ha.vethCreated.trans hc, peer, ?_, ?_,
        hheld⟩
      · rw [hfd]
        exact hp
      · rw [hfd]
        exact ht
    quiet := fun {stage st s c} h hc => by
      have hne : ∀ a : Area, a ∉ quietAreas → c.area ≠ a := fun a ha heq => ha (heq ▸ hc)
      obtain ⟨hrule, hcall⟩ := linkCall_still (hne _ (by decide)) (hne _ (by decide))
        (hne _ (by decide))
      refine ⟨hrule s, ?_⟩
      rintro r s' ⟨T, hE, -, hstep⟩
      obtain rfl := hcall _ _ _ hstep
      exact kept_stable.env h hE
    delLink := fun h hst _ => wp_mono (delLink_clean (h.clean_of_not_created hst).held)
      fun _ _ h => .inl h
    createVeth := fun {st s tmp peer} h hst htmp hpeer => by
      refine wp_mono (createVeth_keeps (h.clean_of_not_created hst)) fun r s' h' => ?_
      rcases h' with hclean | ⟨hr, hne, hheld⟩
      · exact .inl hclean
      · rw [if_neg (by omega)]
        refine .inr ⟨.inl rfl, rfl, peer, hpeer, ?_, hheld⟩
        show st.config.vethTmp ≠ some peer
        rw [htmp]
        exact fun h => hne (Option.some.inj h)
    addAddr := fun h _ => addAddr_keeps kept_stable h
    setUp := fun h _ => setUp_keeps kept_stable h
    setHostIf := fun _ h _ => h
    setupNat := fun {st s ip} h _ _ _ => by
      refine wp_mono (hinvoke h (setupNat_tidy _ _) (by decide) (fun _ _ => trivial)
        (fun _ _ _ h => h) fun _ _ _ _ h => h) fun r s' h' => ?_
      split
      · exact h'
      · exact h'
    moveToNs := fun h htmp => moveToNs_kept h htmp
    cgroupsInit := fun h _ => hinvoke h (cgroupsInit_tidy _ _) (by decide) (fun _ _ => trivial)
      (fun _ _ _ h => h) fun _ _ _ _ h => h
    prepareMappings := fun {st s pid fd} h => by
      refine careful_invoke kept_stable h (fun _ _ => trivial) (fun _ _ _ h => h)
        (fun _ _ _ _ h => h) fun s' h' => careful_still kept_stable h' ?_
      have hS : ∀ a ∈ mapAreas, a ≠ .netlink ∧ a ≠ .delMark ∧ a ≠ .mark := by decide
      exact (prepareMappings_uses pid fd).only.mono fun _ hc => hS _ hc
    cleanupNat := fun {st s ip} h _ _ => wp_mono (hinvoke h (cleanupNat_tidy _ _) (by decide)
      (fun _ _ => trivial) (fun _ _ _ h => h) fun _ _ _ _ h => h) fun _ _ h' =>
        h'.imp id fun ⟨_, h⟩ => ⟨.inr rfl, h⟩
    keepNat := fun h _ => h.imp id fun ⟨_, h⟩ => ⟨.inr rfl, h⟩
    delPeer := fun {st s peer} h _ hpeer => by
      have hheld : Held (fun k => k.name = peer) s := by
        rcases h with hclean | ⟨-, -, peer', hp, -, hheld⟩
        · exact hclean.held
        · obtain rfl := Option.some.inj (hp.symm.trans hpeer)
          exact hheld
      exact wp_mono (delLink_clean hheld) fun _ _ h => .inl h
    keepVeth := fun {st s} h hno => .inl (h.resolve_right fun ⟨_, hc, peer, hp, _⟩ => by
      rcases hno with hno | hno
      · exact absurd (hno.symm.trans hc) (by decide)
      · exact absurd (hno.symm.trans hp) (by simp))
    cgroupsFree := fun {st s hostname} h _ => wp_mono (hinvoke h (cgroupsFree_tidy _) (by decide)
      (fun _ _ => trivial) (fun _ _ _ h => h) fun _ _ _ _ h => h) fun _ _ h' => .inl (h'.resolve_right
        fun ⟨hst, _⟩ => by simp at hst)
    keepCgroup := fun h _ => .inl (h.resolve_right fun ⟨hst, _⟩ => by simp at hst) }

/-- In every careful run no interface of the run is in the host's namespace when
`main` returns, and none is left at all when `nl_create_veth` fails. -/
theorem no_leaked_interface (retries : Nat) (args : Args) (T : Table CStr Bool)
    (hT : ∀ l ∈ T.links, l.owner = false) {p : Sys Int} {s : LinkState}
    (hrun : Run carefulKernel (main retries args) (.start T) p s) :
    (∀ r, p = .ret r → NoLeak s) ∧
    (∀ name1 name2 k, p = .call (.leave (.nlCreateVeth name1 name2) (-1)) k → Clean s) := by
  have hclean : Clean (.start T) := hT
  have hwp := kept_walk.main retries args fun st hst => .inl hclean
  have hpost := wp_run hwp (hrun.guard leakRule)
  refine ⟨fun r hr => ?_, fun name1 name2 k hk => ?_⟩
  · subst hr
    rcases hpost with ⟨st, h⟩ | h
    · exact (h.resolve_right fun ⟨hst, _⟩ => by simp at hst).noLeak
    · exact ((h (initialState args) ⟨rfl, rfl, rfl⟩).clean_of_not_created rfl).noLeak
  · subst hk
    exact hpost.1 rfl

/-! ## Two runs -/

/-- A kernel that carries out what it can and acknowledges it. -/
def linkPost (s : LinkState) : (c : Call) → Answer c → LinkState
  | .socketNetlink, _ => { s with reply := none, unread := false }
  | .ifNametoindex _, r => { s with awaited := s.awaited.filter (· ≠ r) }
  | .sendmsg _ _, .error _ => s
  | .sendmsg _ msg, .ok _ =>
    match s.table.carryOut true 0 (requestOf msg) with
    | some T => afterSend s msg T true (if msg.acks then some (errorDatagram msg.hdr.seq 0 0 0 [])
        else none)
    | none => afterSend s msg s.table false
        (some (errorDatagram msg.hdr.seq (4294967296 - EPERM) 0 0 []))
  | .recvmsg _, _ => { s with reply := none, unread := false }
  | .enter (.nlDelLink _), _ => { s with inDel := true }
  | .leave (.nlDelLink _) _, _ => { s with inDel := false }
  | .leave (.nlCreateVeth _ _) _, _ => { s with names := [], awaited := [] }
  | _, _ => s

/-- Lookups and answers come from the network, everything else succeeds. -/
def linkAnswer (s : LinkState) : (c : Call) → Option (Answer c)
  | .ifNametoindex ifname => some (s.table.lookup 0 ifname)
  | .recvmsg _ => some (received s.reply)
  | c => granted c

/-- The same, but an answer to a creation is lost: a signal interrupts `recvmsg`. -/
def deafAnswer (s : LinkState) : (c : Call) → Option (Answer c)
  | .recvmsg _ => some (if s.unread then .error EINTR else received s.reply)
  | c => linkAnswer s c

theorem isError_errorDatagram (seq code : Nat) : IsError seq code (errorDatagram seq code 0 0 []) := by
  refine ⟨?_, 0, 0, [], rfl⟩
  rw [length_errorDatagram]
  decide

theorem linkPost_send (s : LinkState) (fd : Int) (msg : NlMsg) (n : Nat) :
    linkCall s (.sendmsg fd msg) (.ok n) (linkPost s (.sendmsg fd msg) (.ok n)) := by
  simp only [linkPost]
  split
  · rename_i T hT
    refine ⟨T, true, _, ?_, fun _ => rfl, rfl⟩
    have hstep := Table.carryOut_step hT
    split
    · rename_i hack
      exact .acked hstep hack (isError_errorDatagram _ _)
    · rename_i hack
      exact .silent hstep (by simpa using hack)
  · rename_i hT
    refine ⟨s.table, false, _, .refused (by decide) (by decide) (isError_errorDatagram _ _), ?_, rfl⟩
    rintro ⟨idx, hreq, hmem⟩
    rw [hreq, Table.carryOut_delete hmem] at hT
    exact nomatch hT

theorem meddle_refl (free : List Nat) (T : Table CStr Bool) : Meddle free T T where
  origin l hl := .inl ⟨l, hl, .refl l⟩
  stays l hl _ hns := .inl ⟨l, hl, .refl l, hns, fun _ => rfl⟩

theorem gentle_refl (s : LinkState) : Gentle s s.table :=
  ⟨meddle_refl _ _, fun l hl h hns hmem => ⟨l, hl, h, hns, hmem⟩⟩

theorem linkPost_call (s : LinkState) (c : Call) (r : Answer c) (h : linkAnswer s c = some r) :
    Heard s c r ∧ linkCall s c r (linkPost s c r) := by
  cases c with
  | ifNametoindex ifname =>
    obtain rfl := Option.some.inj h
    exact ⟨trivial, rfl, rfl⟩
  | recvmsg fd =>
    obtain rfl := Option.some.inj h
    exact ⟨fun _ => rfl, .inl rfl, rfl⟩
  | sendmsg fd msg =>
    obtain rfl := Option.some.inj h
    exact ⟨trivial, linkPost_send s fd msg _⟩
  | socketNetlink =>
    obtain rfl := Option.some.inj h
    exact ⟨trivial, rfl⟩
  | enter f => cases f <;> exact ⟨trivial, rfl⟩
  | leave f x => cases f <;> exact ⟨trivial, rfl⟩
  | _ => exact ⟨trivial, rfl⟩

theorem carefulKernel_play (s : LinkState) (c : Call) (r : Answer c) (h : linkAnswer s c = some r) :
    carefulKernel.step s c r (linkPost s c r) :=
  ⟨s.table, gentle_refl s, linkPost_call s c r h⟩

/-- A whole run with networking leaves nothing behind. -/
theorem web_leaves_nothing :
    ∃ s, Run carefulKernel (main 1 webArgs) (.start .empty) (.ret 0) s ∧ NoLeak s :=
  have hrun := run_play_ret (M := carefulKernel) linkAnswer linkPost carefulKernel_play
    (p := main 1 webArgs) (s := .start .empty) (a := 0) (by decide +kernel)
  ⟨_, hrun, (no_leaked_interface 1 webArgs .empty (fun _ h => nomatch h) hrun).1 0 rfl⟩

theorem deaf_play (s : LinkState) (c : Call) (r : Answer c) (h : deafAnswer s c = some r) :
    (linkKernel anyMeddling fun _ _ _ => True).step s c r (linkPost s c r) := by
  refine ⟨s.table, meddle_refl _ _, trivial, ?_⟩
  cases c with
  | recvmsg fd =>
    obtain rfl := Option.some.inj h
    refine ⟨?_, rfl⟩
    split
    · exact .inr ⟨EINTR, rfl⟩
    · exact .inl rfl
  | _ => exact (linkPost_call s _ r h).2

/-- The pair is created, the answer is lost, `nl_create_veth` fails without the
clean-up it has for an incomplete pair, and `main` returns with both ends left. -/
theorem lost_answer_leaks :
    ∃ s, Run (linkKernel anyMeddling fun _ _ _ => True) (main 1 webArgs) (.start .empty) (.ret 1) s ∧
      ¬ NoLeak s := by
  refine ⟨_, run_play_ret deafAnswer linkPost deaf_play (p := main 1 webArgs) (s := .start .empty)
    (by decide +kernel), fun hno => ?_⟩
  have hleft : (((main 1 webArgs).play deafAnswer linkPost (.start .empty)).2.table.links.any
      fun l => l.owner && l.ns == 0) = true := by decide +kernel
  obtain ⟨l, hl, hown⟩ := List.any_eq_true.mp hleft
  simp only [Bool.and_eq_true, beq_iff_eq] at hown
  exact hno l hl hown.1 hown.2

end Barco
