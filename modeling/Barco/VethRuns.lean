import Barco.Effect.Interleave
import Barco.MainWalk
import Barco.NetKernel
import Barco.VethNames

/-!
# Interfaces of runs side by side

Any number of runs share the network of the host. Each makes one pair under its
own names and deletes by name. `veth_runs_apart_iff` says when no request of
one run touches an interface of another.

The local protocol of a run is `ownNames`: it looks up its own two names only,
creates a pair under them only, and deletes or moves only what it looked up.
The shared invariant `Owned` turns this into safety: the interfaces of a run in
the host's namespace have that run's names.
-/

namespace Barco

open Effect Prog Links

/-! ## The local protocol -/

/-- The requests a run may make, knowing some indices. -/
def Asks (r : VethRun) (known : List Nat) : Links.Request CStr → Prop
  | .create a b => a = r.tmp ∧ b = r.peer
  | .delete idx | .move idx => idx ∈ known
  | .rename _ _ => False
  | .other => True

/-- The run asks about its own names only, and remembers the indices it was told. -/
def ownNames (r : VethRun) : Machine Call Answer (List Nat) where
  may known c :=
    match c with
    | .ifNametoindex ifname => ifname = r.tmp ∨ ifname = r.peer
    | .sendmsg _ msg => Asks r known (requestOf msg)
    | _ => True
  step known c res known' :=
    match c, res, known' with
    | .ifNametoindex _, idx, known' => known' = idx :: known
    | _, _, known' => known' = known

variable {r : VethRun}

theorem Asks.mono {known known' : List Nat} {req : Links.Request CStr} (h : Asks r known req)
    (hsub : known ⊆ known') : Asks r known' req := by
  cases req with
  | create a b => exact h
  | delete idx => exact hsub h
  | move idx => exact hsub h
  | rename idx b => exact h
  | other => trivial

/-- The function keeps to the protocol when it knows at least `known`, and
forgets nothing. -/
def Keeps {α : Type} (r : VethRun) (known : List Nat) (p : Sys α) : Prop :=
  ∀ k, known ⊆ k → wp (ownNames r) p (fun _ k' => known ⊆ k') k

namespace Keeps

variable {α β : Type} {known : List Nat}

theorem pure (a : α) : Keeps r known (Pure.pure a) := fun _ h => h

theorem bind {p : Sys α} {f : α → Sys β} (hp : Keeps r known p) (hf : ∀ a, Keeps r known (f a)) :
    Keeps r known (p >>= f) := fun k hk => wp_seq (hp k hk) fun a k' h => hf a k' h

/-- A call that is not about interfaces by name or message. -/
theorem call {c : Call} {f : Answer c → Sys β} (hmay : ∀ k, known ⊆ k → (ownNames r).may k c)
    (hstep : ∀ k res k', (ownNames r).step k c res k' → k' = k)
    (hf : ∀ a, Keeps r known (f a)) : Keeps r known (sys c >>= f) := fun k hk =>
  ⟨hmay k hk, fun res k' h => by
    obtain rfl := hstep k res k' h
    exact hf res k' hk⟩

/-- Nothing outside the netlink area is a concern of the protocol. -/
theorem quiet {c : Call} (hc : c.area ≠ .netlink) (k : List Nat) :
    (ownNames r).may k c ∧ ∀ res k', (ownNames r).step k c res k' → k' = k := by
  cases c <;> first | exact ⟨trivial, fun _ _ h => h⟩ | exact absurd rfl hc

theorem only {p : Sys α} (hp : p.Only fun c => c.area ≠ .netlink) : Keeps r known p := fun _ hk =>
  wp_of_only hp (fun k c hc h => ⟨(quiet hc k).1, fun res k' hs => by
    obtain rfl := (quiet hc k).2 res k' hs
    exact h⟩) hk

theorem tidy {S : List Area} {P : α → Prop} {p : Sys α} (hp : Tidy S P p) (hS : .netlink ∉ S) :
    Keeps r known p := only (hp.only.mono fun _ hc h => hS (h ▸ hc))

theorem lookup {ifname : CStr} {f : Nat → Sys β} (hname : ifname = r.tmp ∨ ifname = r.peer)
    (hf : ∀ idx, Keeps r (idx :: known) (f idx)) :
    Keeps r known (sys (.ifNametoindex ifname) >>= f) := fun k hk =>
  ⟨hname, fun idx k' h => by
    obtain rfl : k' = idx :: k := h
    exact wp_mono (hf idx (idx :: k) (List.cons_subset_cons idx hk)) fun _ _ h' =>
      fun x hx => h' (List.mem_cons_of_mem idx hx)⟩

theorem closeFd {fd : Int} {f : Unit → Sys β} (hf : Keeps r known (f ())) :
    Keeps r known (closeFd fd >>= f) := call (fun _ _ => trivial) (fun _ _ _ h => h) fun _ => hf

theorem nlSocket {f : Int → Sys Int} (hf : ∀ sock, Keeps r known (f sock)) :
    Keeps r known (nlSocket >>= f) := by
  refine bind (call (fun _ _ => trivial) (fun _ _ _ h => h) fun res => ?_) hf
  cases res with
  | error e => exact pure _
  | ok sock => exact call (fun _ _ => trivial) (fun _ _ _ h => h) fun _ => pure _

theorem nlSendRecv {sock : Int} {msg : NlMsg} {seq type : Nat}
    (hasks : Asks r known (requestOf msg)) : Keeps r known (nlSendRecv sock msg seq type) := by
  refine call (fun _ hk => hasks.mono hk) (fun _ _ _ h => h) fun res => ?_
  cases res with
  | error e => exact pure _
  | ok n =>
    refine call (fun _ _ => trivial) (fun _ _ _ h => h) fun stack => ?_
    refine call (fun _ _ => trivial) (fun _ _ _ h => h) fun res => ?_
    cases res with
    | error e => exact pure _
    | ok data => exact pure _

/-- A request on an open socket, and then the close. -/
theorem request {sock : Int} {msg : NlMsg} {seq type : Nat} {f : Int → Sys Int}
    (hasks : Asks r known (requestOf msg)) (hf : ∀ ret, Keeps r known (f ret)) :
    Keeps r known (Barco.nlSendRecv sock msg seq type >>= fun ret =>
      Barco.closeFd sock >>= fun _ => f ret) :=
  bind (nlSendRecv hasks) fun ret => closeFd (hf ret)

theorem ite {c : Prop} [Decidable c] {p q : Sys α} (hp : c → Keeps r known p)
    (hq : ¬ c → Keeps r known q) : Keeps r known (if c then p else q) := by
  split
  · exact hp ‹_›
  · exact hq ‹_›

theorem mono {known' : List Nat} {p : Sys α} (h : Keeps r known p) (hsub : known' ⊆ known) :
    ∀ k, known ⊆ k → wp (ownNames r) p (fun _ k' => known' ⊆ k') k := fun k hk =>
  wp_mono (h k hk) fun _ _ h' => List.Subset.trans hsub h'

theorem wait {ifname : CStr} (hname : ifname = r.tmp ∨ ifname = r.peer) (timeoutMs : Nat) :
    Keeps r known (waitForInterface ifname timeoutMs) := by
  have hloop : ∀ fuel waited known, Keeps r known (waitLoop ifname timeoutMs fuel waited) := by
    intro fuel
    induction fuel with
    | zero => exact fun _ _ => pure _
    | succ fuel ih =>
      refine fun waited known => ite (fun _ => ?_) fun _ => pure _
      refine lookup hname fun idx => ite (fun _ => pure _) fun _ => ?_
      exact call (fun _ _ => trivial) (fun _ _ _ h => h) fun _ => ih _ _
  exact hloop _ _ _

theorem invoke {f : Fn} {body : Sys Int} (h : Keeps r known body) :
    Keeps r known (Barco.invoke f body) :=
  call (fun _ _ => trivial) (fun _ _ _ h => h) fun _ => bind h fun _ =>
    call (fun _ _ => trivial) (fun _ _ _ h => h) fun _ => pure _

theorem overrun : Keeps r known (Barco.overrun : Sys α) := fun _ _ => ⟨trivial, fun e => nomatch e⟩

end Keeps

section Operations

variable {known : List Nat} {ifname : CStr}

theorem nlDelLink_keeps (hname : ifname = r.tmp ∨ ifname = r.peer) :
    Keeps r known (nlDelLink ifname) := by
  refine .nlSocket fun sock => .ite (fun _ => .pure _) fun _ => .lookup hname fun idx => ?_
  refine .ite (fun _ => .closeFd (.pure _)) fun _ => .request ?_ fun _ => .pure _
  rw [requestOf_delLinkMsg]
  exact List.mem_cons_self

theorem nlCreateVeth_keeps : Keeps r known (nlCreateVeth r.tmp r.peer) := by
  refine .nlSocket fun sock => .ite (fun _ => .pure _) fun _ => ?_
  cases hmsg : createVethMsg r.tmp r.peer with
  | none => exact .overrun
  | some msg =>
    have hasks : Asks r known (requestOf msg) := by
      rw [requestOf_createVethMsg hmsg]
      exact ⟨rfl, rfl⟩
    refine .request hasks fun ret => .ite (fun _ => .pure _) fun _ => ?_
    refine .bind (.wait (.inl rfl) 5000) fun idx1 => .bind (.wait (.inr rfl) 5000) fun idx2 => ?_
    refine .ite (fun _ => ?_) fun _ => .pure _
    exact .bind (.invoke (nlDelLink_keeps (.inl rfl))) fun _ => .pure _

theorem nlSetUp_keeps (hname : ifname = r.tmp ∨ ifname = r.peer) :
    Keeps r known (nlSetUp ifname) := by
  refine .nlSocket fun sock => .ite (fun _ => .pure _) fun _ => .bind (.wait hname 5000) fun idx => ?_
  refine .ite (fun _ => .closeFd (.pure _)) fun hidx => .request ?_ fun _ => .pure _
  rw [requestOf_setUpMsg hidx]
  trivial

theorem nlAddAddr_keeps (ipCidr : CStr) (hname : ifname = r.tmp ∨ ifname = r.peer) :
    Keeps r known (nlAddAddr ifname ipCidr) := by
  refine .nlSocket fun sock => .ite (fun _ => .pure _) fun _ => .bind (.wait hname 5000) fun idx => ?_
  refine .ite (fun _ => .closeFd (.pure _)) fun hidx => ?_
  cases hip : parseCidr ipCidr with
  | none => exact .closeFd (.pure _)
  | some ip =>
    refine .request ?_ fun _ => .pure _
    rw [requestOf_addAddrMsg]
    trivial

theorem nlMoveToNs_keeps (nsFd : Int) (hname : ifname = r.tmp ∨ ifname = r.peer) :
    Keeps r known (nlMoveToNs ifname nsFd) := by
  refine .nlSocket fun sock => .ite (fun _ => .pure _) fun _ => .lookup hname fun idx => ?_
  refine .ite (fun _ => .closeFd (.pure _)) fun hidx => .request ?_ fun _ => .pure _
  rw [requestOf_moveToNsMsg nsFd hidx]
  exact List.mem_cons_self

end Operations

/-- The locals name the two ends of the run. -/
def Named (r : VethRun) (st : MainState) : Prop :=
  st.config.vethTmp = some r.tmp ∧ st.config.vethPeer = some r.peer

theorem Named.mem {st : MainState} {ifname : CStr} (h : Named r st)
    (hname : st.config.vethTmp = some ifname ∨ st.config.vethPeer = some ifname) :
    ifname = r.tmp ∨ ifname = r.peer := by
  rcases hname with hname | hname
  · exact .inl (Option.some.inj (hname.symm.trans h.1))
  · exact .inr (Option.some.inj (hname.symm.trans h.2))

/-- All of `main` keeps to the protocol. -/
theorem ownNames_walk (r : VethRun) : Walk (ownNames r) fun _ st _ => Named r st := by
  have hkeeps : ∀ {α : Type} {p : Sys α} {Q : α → Prop} {k : List Nat}, Keeps r [] p →
      (∀ a, Q a) → wp (ownNames r) p (fun a _ => Q a) k := fun h hQ =>
    wp_mono (h _ (List.nil_subset _)) fun a _ _ => hQ a
  have htidy : ∀ {f : Fn} {S : List Area} {P : Int → Prop} {body : Sys Int}, Tidy S P body →
      .netlink ∉ S → Keeps r [] (invoke f body) := fun h hS => .invoke (.tidy h hS)
  exact {
    agree := fun ha h => by
      obtain ⟨fd, hfd⟩ := ha.config
      rw [Named, hfd]
      exact h
    quiet := fun {stage st k c} h hc => by
      have hne : c.area ≠ .netlink := fun heq => absurd (heq ▸ hc) (by decide)
      exact ⟨(Keeps.quiet hne k).1, fun _ _ _ => h⟩
    delLink := fun h _ hname => hkeeps (.invoke (nlDelLink_keeps (h.mem hname))) fun _ => h
    createVeth := fun {st k tmp peer} h _ htmp hpeer => by
      obtain rfl := Option.some.inj (h.1.symm.trans htmp)
      obtain rfl := Option.some.inj (h.2.symm.trans hpeer)
      refine hkeeps (.invoke nlCreateVeth_keeps) fun res => ?_
      split <;> exact h
    addAddr := fun h hname => hkeeps (.invoke (nlAddAddr_keeps _ (h.mem (.inr hname)))) fun _ => h
    setUp := fun h hname => hkeeps (.invoke (nlSetUp_keeps (h.mem (.inr hname)))) fun _ => h
    setHostIf := fun _ h _ => h
    setupNat := fun {st k ip} h _ _ _ => by
      refine hkeeps (htidy (setupNat_tidy _ _) (by decide)) fun res => ?_
      split <;> exact h
    moveToNs := fun h hname => hkeeps (.invoke (nlMoveToNs_keeps _ (h.mem (.inl hname)))) fun _ => h
    cgroupsInit := fun h _ => hkeeps (htidy (cgroupsInit_tidy _ _) (by decide)) fun _ => h
    prepareMappings := fun {st k pid fd} h => by
      refine hkeeps (.invoke (.only ?_)) fun _ => h
      exact (prepareMappings_uses pid fd).only.mono fun _ hc heq => absurd (heq ▸ hc) (by decide)
    cleanupNat := fun h _ _ => hkeeps (htidy (cleanupNat_tidy _ _) (by decide)) fun _ => h
    keepNat := fun h _ => h
    delPeer := fun h _ hname => hkeeps (.invoke (nlDelLink_keeps (h.mem (.inr hname)))) fun _ => h
    keepVeth := fun h _ => h
    cgroupsFree := fun h _ => hkeeps (htidy (cgroupsFree_tidy _) (by decide)) fun _ => h
    keepCgroup := fun h _ => h }

/-! ## The shared network -/

section Shared

variable {ι : Type}

/-- The interfaces of the machine; the owner is the run that made the pair. -/
abbrev HostTable (ι : Type) : Type := Table CStr (Option ι)

/-- How a call of run `i` in the host's namespace is answered. A request may be
carried out or not; a lookup tells the truth or finds nothing. -/
def netCall (i : ι) (T : HostTable ι) : (c : Call) → Answer c → HostTable ι → Prop
  | .ifNametoindex ifname, idx, T' => (idx = T.lookup 0 ifname ∨ idx = 0) ∧ T' = T
  | .sendmsg _ msg, _, T' => T' = T ∨ Step (some i) 0 (requestOf msg) T T'
  | _, _, T' => T' = T

/-- What everyone else does: they make interfaces of their own and change or
delete any, but do not rename a run's interface in the host's namespace, nor
move one there. -/
structure Others (T T' : HostTable ι) : Prop where
  next : T.next ≤ T'.next
  origin : ∀ l' ∈ T'.links,
    (∃ l ∈ T.links, Same l l' ∧
      (l'.ns = 0 → l'.owner ≠ none → l.ns = 0 ∧ l.name = l'.name)) ∨
    (T.next ≤ l'.index ∧ l'.owner = none)

/-- The runs on one host. -/
def netHost (ι : Type) [DecidableEq ι] : Host ι Call Answer Int (HostTable ι) where
  call := netCall
  env := Others
  spawn _ _ _ _ := none

/-- The interfaces of a run in the host's namespace have its names, and what a
run knows is never an interface of another run. -/
structure Owned (runs : ι → VethRun) (T : HostTable ι) (known : ι → List Nat) : Prop where
  named : ∀ l ∈ T.links, ∀ i, l.owner = some i → l.ns = 0 →
    l.name = (runs i).tmp ∨ l.name = (runs i).peer
  below : ∀ i, ∀ idx ∈ known i, idx < T.next
  foreign : ∀ i, ∀ idx ∈ known i, ∀ l ∈ T.links, l.index = idx → ∀ j, j ≠ i → l.owner ≠ some j

variable {runs : ι → VethRun} {T T' : HostTable ι} {known : ι → List Nat}

/-- Interfaces that come from the old table, or are new, keep what is known harmless. -/
theorem Owned.of_origin (h : Owned runs T known) (hnext : T.next ≤ T'.next)
    (horigin : ∀ l' ∈ T'.links, (∃ l ∈ T.links, Same l l') ∨ T.next ≤ l'.index)
    (hnamed : ∀ l ∈ T'.links, ∀ i, l.owner = some i → l.ns = 0 →
      l.name = (runs i).tmp ∨ l.name = (runs i).peer) : Owned runs T' known where
  named := hnamed
  below i idx hidx := Nat.lt_of_lt_of_le (h.below i idx hidx) hnext
  foreign i idx hidx l' hl' hlidx j hj := by
    rcases horigin l' hl' with ⟨l, hl, hsame⟩ | hnew
    · rw [← hsame.owner]
      exact h.foreign i idx hidx l hl (hsame.index.trans hlidx) j hj
    · have := h.below i idx hidx
      omega

theorem Owned.others (h : Owned runs T known) (ho : Others T T') : Owned runs T' known := by
  refine h.of_origin ho.next (fun l' hl' => ?_) fun l' hl' i hi hns => ?_
  · rcases ho.origin l' hl' with ⟨l, hl, hsame, -⟩ | ⟨hnew, -⟩
    · exact .inl ⟨l, hl, hsame⟩
    · exact .inr hnew
  · rcases ho.origin l' hl' with ⟨l, hl, hsame, hkeep⟩ | ⟨-, hnone⟩
    · obtain ⟨hlns, hname⟩ := hkeep hns (by simp [hi])
      rw [← hname]
      exact h.named l hl i (hsame.owner.trans hi) hlns
    · exact absurd (hi.symm.trans hnone) (by simp)

/-- A request that the protocol allows keeps the names. -/
theorem Owned.request (h : Owned runs T known) {i : ι} {req : Links.Request CStr}
    (hasks : Asks (runs i) (known i) req) (hs : Step (some i) 0 req T T') : Owned runs T' known := by
  refine h.of_origin hs.origin.1 (fun l' hl' => ?_) ?_
  · rcases hs.origin.2 l' hl' with hold | ⟨hnew, -⟩
    · exact .inl hold
    · exact .inr hnew
  · intro l' hl' j hj hns
    cases hs with
    | create ha hb hab =>
      rcases (Table.mem_create ha hb hab).mp hl' with rfl | rfl | hl
      · obtain rfl : i = j := Option.some.inj hj
        exact .inl hasks.1
      · obtain rfl : i = j := Option.some.inj hj
        exact .inr hasks.2
      · exact h.named l' hl j hj hns
    | delete _ => exact h.named l' (Table.mem_delete.mp hl').1 j hj hns
    | rename _ _ => exact hasks.elim
    | move hfree hne _ =>
      obtain ⟨l, hl, rfl⟩ := (Table.mem_move hfree).mp hl'
      split at hns
      · exact absurd hns hne
      · rename_i hno
        rw [if_neg hno] at hj ⊢
        exact h.named l hl j hj hns
    | other => exact h.named l' hl' j hj hns

/-- A run learns only indices that were given out. -/
theorem lookup_or_zero_lt {ifname : CStr} {idx : Nat} (hidx : idx = T.lookup 0 ifname ∨ idx = 0) :
    idx < T.next := by
  rcases hidx with rfl | rfl
  · exact T.lookup_lt 0 ifname
  · exact T.pos

/-- What a run looks up under its own names belongs to no other run. -/
theorem Owned.lookup (h : Owned runs T known)
    (hapart : ∀ i j, i ≠ j → VethRun.Apart (runs i) (runs j)) {i : ι} {ifname : CStr} {idx : Nat}
    (hname : ifname = (runs i).tmp ∨ ifname = (runs i).peer)
    (hidx : idx = T.lookup 0 ifname ∨ idx = 0) {l : Link CStr (Option ι)} (hl : l ∈ T.links)
    (hlidx : l.index = idx) {j : ι} (hj : j ≠ i) : l.owner ≠ some j := by
  intro hown
  have hpos := (T.fresh l hl).1
  have hne : T.lookup 0 ifname ≠ 0 := by
    rcases hidx with rfl | rfl
    · omega
    · omega
  obtain ⟨k, hk, hkidx, hkns, hkname⟩ := Table.lookup_mem hne
  have hkl : k = l := T.index_inj k hk l hl (by
    rcases hidx with rfl | rfl
    · rw [hkidx, hlidx]
    · omega)
  subst hkl
  have hnames := h.named k hk j hown hkns
  obtain ⟨h₁, h₂, h₃, h₄⟩ := hapart i j (Ne.symm hj)
  rw [hkname] at hnames
  rcases hname with rfl | rfl <;> rcases hnames with heq | heq
  · exact h₁ heq
  · exact h₂ heq
  · exact h₃ heq
  · exact h₄ heq

variable [DecidableEq ι]

/-- One call that follows the protocol keeps the shared invariant. -/
theorem owned_simulates (hapart : ∀ i j, i ≠ j → VethRun.Apart (runs i) (runs j)) :
    (netHost ι).Simulates (fun i => ownNames (runs i)) (fun _ _ _ => True) (Owned runs) where
  env := Owned.others
  call := by
    intro T known i c res T' h hmay hcall
    cases c with
    | ifNametoindex ifname =>
      obtain ⟨hidx, rfl⟩ := hcall
      refine ⟨Function.update known i (res :: known i), ?_, Function.update_self .., fun j hj =>
        Function.update_of_ne hj ..⟩
      refine ⟨h.named, fun j idx hmem => ?_, fun j idx hmem => ?_⟩
      all_goals
        by_cases hji : j = i
        · subst hji
          rw [Function.update_self, List.mem_cons] at hmem
          rcases hmem with rfl | hmem
          · first
              | exact lookup_or_zero_lt hidx
              | exact fun l hl hlidx k hk => h.lookup hapart hmay hidx hl hlidx hk
          · first | exact h.below j idx hmem | exact h.foreign j idx hmem
        · rw [Function.update_of_ne hji] at hmem
          first | exact h.below j idx hmem | exact h.foreign j idx hmem
    | sendmsg fd msg =>
      rcases hcall with rfl | hs
      · exact ⟨known, h, rfl, fun _ _ => rfl⟩
      · exact ⟨known, h.request hmay hs, rfl, fun _ _ => rfl⟩
    | _ =>
      obtain rfl := hcall
      exact ⟨known, h, rfl, fun _ _ => rfl⟩

/-! ## Deletion is safe -/

/-- The names of the runs: two for each, of at most 15 bytes, all different. -/
def NamesApart (runs : ι → VethRun) : Prop :=
  (∀ i, (runs i).tmp ≠ (runs i).peer ∧ (runs i).tmp.1.length ≤ 15 ∧ (runs i).peer.1.length ≤ 15) ∧
  ∀ i j, i ≠ j → VethRun.Apart (runs i) (runs j)

/-- No call of one run, whatever the answer, takes or changes an interface that
another run made. -/
def Undisturbed (g : Effect.Global ι Call Answer Int (HostTable ι)) : Prop :=
  ∀ i j, i ≠ j → ∀ c k res T', g.prog i = .call c k → netCall i g.kern c res T' →
    ∀ l ∈ g.kern.links, l.owner = some j → l ∈ T'.links

omit [DecidableEq ι] in
/-- A request that the protocol allows leaves the interfaces of the others alone. -/
theorem Owned.spares (h : Owned runs T known) {i j : ι} (hij : i ≠ j) {req : Links.Request CStr}
    (hasks : Asks (runs i) (known i) req) (hs : Step (some i) 0 req T T') {l : Link CStr (Option ι)}
    (hl : l ∈ T.links) (hown : l.owner = some j) : l ∈ T'.links := by
  have hforeign : ∀ k ∈ T.links, k.index ∈ known i → k.owner ≠ some j :=
    fun k hk hidx => h.foreign i k.index hidx k hk rfl j (Ne.symm hij)
  cases hs with
  | create ha hb hab => exact (Table.mem_create ha hb hab).mpr (.inr (.inr hl))
  | delete _ =>
    refine Table.mem_delete.mpr ⟨hl, fun k hk _ hidx hpair => ?_⟩
    exact hforeign k hk (hidx ▸ hasks) ((T.owner_eq k hk l hl hpair).trans hown)
  | rename _ _ => exact hasks.elim
  | move hfree _ _ =>
    refine (Table.mem_move hfree).mpr ⟨l, hl, if_neg ?_⟩
    rintro ⟨-, hidx⟩
    exact hforeign l hl (hidx ▸ hasks) hown
  | other => exact hl

/-- With names apart, every reachable state is one where deletion is safe. -/
theorem undisturbed_of_apart (hapart : ∀ i j, i ≠ j → VethRun.Apart (runs i) (runs j))
    (hT : ∀ l ∈ T.links, l.owner = none) (retries : ι → Nat) (args : ι → Args) (ip : ι → CStr)
    {g : Effect.Global ι Call Answer Int (HostTable ι)}
    (hg : (netHost ι).Reachable
      ⟨T, fun i => mainFrom (retries i) ((runs i).start (args i) (ip i))⟩ g) : Undisturbed g := by
  have hinit : Owned runs T fun _ => [] :=
    ⟨fun l hl i hi => absurd (hi.symm.trans (hT l hl)) (by simp), fun _ _ h => (nomatch h),
      fun _ _ h => (nomatch h)⟩
  have hprog : ∀ i, (mainFrom (retries i) ((runs i).start (args i) (ip i))).wp (ownNames (runs i))
      (fun _ _ => True) [] := fun i =>
    wp_mono ((ownNames_walk (runs i)).mainFrom (retries i) ((runs i).start (args i) (ip i))
      ⟨rfl, rfl⟩ rfl rfl) fun _ _ _ => trivial
  obtain ⟨known, hI, hp⟩ := (owned_simulates hapart).reachable_inv _ hinit hprog hg
  intro i j hij c k res T' hk hcall l hl hown
  have hmay := hp i
  rw [hk] at hmay
  cases c with
  | sendmsg fd msg =>
    rcases hcall with rfl | hs
    · exact hl
    · exact hI.spares hij hmay.1 hs hl hown
  | ifNametoindex ifname => exact hcall.2 ▸ hl
  | _ =>
    obtain rfl := hcall
    exact hl

/-- Section 3 of `main` leaves the start states of runs. The names of the runs differ, and no
run deletes what another one made, exactly when no user's name defeats the suffixes. -/
theorem veth_runs_apart_iff (runs : ι → VethRun)
    (hdiff : ∀ i j, i ≠ j → VethRun.Differ (runs i) (runs j)) (T : HostTable ι)
    (hT : ∀ l ∈ T.links, l.owner = none) (retries : ι → Nat) (args : ι → Args) (ip : ι → CStr) :
    (∀ i name, (args i).vethName = some name → (args i).containerIp = some (ip i) →
      (args i).vethPeer = none → LegalName name → (fillConfig (args i)).Returns fun e =>
        ∀ st, e = .ok st → ∃ r : VethRun, r.name = name ∧ st = r.start (args i) (ip i)) ∧
    ((NamesApart runs ∧ ∀ g, (netHost ι).Reachable
        ⟨T, fun i => mainFrom (retries i) ((runs i).start (args i) (ip i))⟩ g → Undisturbed g) ↔
      (∀ i, ¬ VethRun.TmpClash (runs i) (runs i)) ∧
      ∀ i j, i ≠ j →
        ¬ VethRun.TmpClash (runs i) (runs j) ∧ ¬ VethRun.PeerClash (runs i) (runs j)) := by
  refine ⟨fun i name hname hip hpeer hlegal => fillConfig_start hname hip hpeer hlegal, ?_⟩
  constructor
  · rintro ⟨⟨hself, hapart⟩, -⟩
    refine ⟨fun i hclash => (hself i).1 ((VethRun.peer_eq_tmp_iff _ _).mpr hclash).symm,
      fun i j hij => ?_⟩
    have := (VethRun.apart_iff _ _ (hdiff i j hij)).mp (hapart i j hij)
    exact ⟨this.1, this.2.2⟩
  · rintro ⟨hself, hpair⟩
    have hapart : ∀ i j, i ≠ j → VethRun.Apart (runs i) (runs j) := fun i j hij =>
      (VethRun.apart_iff _ _ (hdiff i j hij)).mpr
        ⟨(hpair i j hij).1, (hpair j i (Ne.symm hij)).1, (hpair i j hij).2⟩
    refine ⟨⟨fun i => ⟨fun h => ?_, Nat.le_of_eq (VethRun.length_tmp _), VethRun.length_peer_le _⟩, hapart⟩,
      fun g hg => undisturbed_of_apart hapart hT retries args ip hg⟩
    exact hself i ((VethRun.peer_eq_tmp_iff _ _).mp h.symm)

end Shared

/-! ## Two runs -/

/-- A suffix of eight equal characters. -/
def suffixOf (b : UInt8) (hb : b ∈ suffixAlphabet) : VethSuffix where
  chars := ⟨List.replicate 8 b, fun h => by
    obtain rfl := List.eq_of_mem_replicate h
    exact absurd hb (by decide)⟩
  le_length := by simp
  length_le := by simp
  drawn b' hb' := by
    obtain rfl := List.eq_of_mem_replicate (List.mem_of_mem_take hb')
    exact hb

/-- Two runs with the user's name `name`, the suffixes `aaaaaaaa` and `bbbbbbbb`. -/
def twoRuns (name : CStr) (legal : LegalName name) (i : Bool) : VethRun where
  name := name
  suffix := if i then suffixOf 98 (by decide) else suffixOf 97 (by decide)
  legal := legal

def frontendName : CStr := ⟨ascii "frontend0", by decide⟩

theorem webName_legal : LegalName webName :=
  ⟨by decide, by decide, by decide +kernel, by decide⟩

theorem frontendName_legal : LegalName frontendName :=
  ⟨by decide, by decide, by decide +kernel, by decide⟩

theorem twoRuns_differ (name : CStr) (legal : LegalName name) (i j : Bool) (hij : i ≠ j) :
    VethRun.Differ (twoRuns name legal i) (twoRuns name legal j) := by
  cases i <;> cases j
  · exact absurd rfl hij
  · exact (by decide : some (97 : UInt8) ≠ some 98)
  · exact (by decide : some (98 : UInt8) ≠ some 97)
  · exact absurd rfl hij

/-- With a short name the two runs keep to their own interfaces. -/
theorem veth_runs_apart_web :
    (fillConfig webArgs).Returns (fun e => ∀ st, e = .ok st →
      ∃ r : VethRun, r.name = webName ∧ st = r.start webArgs webIp) ∧
    NamesApart (twoRuns webName webName_legal) ∧ ∀ g, (netHost Bool).Reachable
      ⟨.empty, fun i => mainFrom 1 ((twoRuns webName webName_legal i).start webArgs webIp)⟩ g →
      Undisturbed g := by
  obtain ⟨hstart, hiff⟩ := veth_runs_apart_iff (twoRuns webName webName_legal)
    (twoRuns_differ _ _) .empty (fun _ h => nomatch h) (fun _ => 1) (fun _ => webArgs) fun _ => webIp
  refine ⟨hstart true webName rfl rfl rfl webName_legal, hiff.mpr ⟨?_, ?_⟩⟩
  · decide
  · decide

/-- With a name of nine bytes the host's ends of the two runs have one name. -/
theorem veth_peers_collide :
    ¬ (NamesApart (twoRuns frontendName frontendName_legal) ∧ ∀ g, (netHost Bool).Reachable
      ⟨.empty, fun i =>
        mainFrom 1 ((twoRuns frontendName frontendName_legal i).start webArgs webIp)⟩ g →
      Undisturbed g) := by
  rintro ⟨⟨-, hapart⟩, -⟩
  refine (hapart false true (by decide)).2.2.2 ((VethRun.peer_eq_peer _ _).mpr ?_)
  decide

end Barco
