import Barco.ParentDescriptors
import Barco.Processes
import Barco.VethNames

/-!
# What each side of the handshake keeps to

Protocols for the parent and for the child, each checked on the program of that side
alone. The parent waits for the child's message before it touches the id files,
sends at most one message, and sends 0 only when everything is set up; it kills the
child only if it has not sent 0, and waits only for a child it has killed or let go.
The child asks once, and changes its identity and executes only after it has read 0.
-/

namespace Barco

open Effect Prog

/-- The message that lets the child go. -/
def goMessage : List UInt8 := intBytes 0

/-- The message that tells it to give up. -/
def failMessage : List UInt8 := intBytes (-1)

/-! ## The parent's protocol -/

/-- What was written to the id files, from the first to the last. -/
def idWrites : List (IdFile × List UInt8) :=
  [(.setgroups, ascii "deny"), (.uidMap, mapLine), (.gidMap, mapLine)]

/-- Everything the child has to wait for has been done; `net` says whether networking
is on. -/
structure SetUp (net : Prop) (p : ParentSide) : Prop where
  written : p.written = idWrites
  cgroup : p.cgroup = true
  moved : net → p.moved = true

/-- What the parent may call. -/
def parentRule (net : Prop) (p : ParentSide) : Call → Prop
  | .clone _ config => p.pid = none ∧ ∃ a b, a ≠ b ∧ p.ends = ⟨some a, some b⟩ ∧ config.fd = b
  | .kill pid sig => p.pid = some pid ∧ p.status = none ∧ (sig = SIGKILL → goMessage ∉ p.sent)
  | .waitpid pid => p.pid = some pid ∧ p.status = none ∧ (p.killed = true ∨ goMessage ∈ p.sent)
  | .write fd data => p.ends.b ≠ some fd ∧
    (p.files fd ≠ none → goMessage ∈ p.heard ∧ p.sent = []) ∧
    (p.ends.a = some fd → p.pid ≠ none ∧ p.sent = [] ∧ p.mapped = none ∧ p.killed = false ∧
      (data = failMessage ∨ data = goMessage ∧ SetUp net p))
  | .dprintf fd _ => p.files fd ≠ none → goMessage ∈ p.heard ∧ p.sent = []
  | .read fd _ => p.ends.b ≠ some fd ∧ (p.ends.a = some fd → p.pid ≠ none ∧ p.heard = [] ∧ p.sent = [])
  | .leave (.prepareMappings _ _) r => p.mapped = none ∧
    (r = 0 ∧ goMessage ∈ p.sent ∨ r = -1 ∧ goMessage ∉ p.sent)
  | .socketpair => p.pid = none
  | _ => True

/-- What the parent can count on. -/
def ParentSide.hears (p : ParentSide) : (c : Call) → Answer c → Prop
  | .socketpair, .ok (x, y) => x ≠ y
  | .socketNetlink, .ok n => p.ends.Free n
  | .open _ _, .ok n => p.ends.Free n
  | .write _ data, .ok n => n ≤ data.length
  | .kill pid _, r => p.pid = some pid → p.status = none → r = .ok ()
  | .waitpid pid, .error e => p.pid = some pid → p.status = none → e = EINTR
  | .waitpid pid, .ok (w, _) => w = pid
  | _, _ => True

def parentProtocol (net : Prop) : Machine Call Answer ParentSide where
  may := parentRule net
  step p c r p' := p.hears c r ∧ p' = p.after c r

/-! ## Calls that do not concern the child -/

/-- The functions whose return the parent's side records. -/
def Fn.Recorded : Fn → Prop
  | .cgroupsInit _ _ | .nlMoveToNs _ _ | .prepareMappings _ _ => True
  | _ => False

/-- The call has to do with the child in no way. -/
def Neutral (c : Call) : Prop := (c.area ≠ .process ∧ c.area ≠ .sockets ∧ c.area ≠ .idMap) ∧
  ∀ f r, c = .leave f r → ¬ f.Recorded

section Neutral

variable {net : Prop} {α β : Type} {p : ParentSide}

/-- No id file is open. -/
def ParentSide.NoFiles (p : ParentSide) : Prop := ∀ fd, p.files fd = none

theorem Ends.close_free {e : Ends} {fd : Int} (h : e.Free fd) : e.close fd = e := by
  simp [Ends.close, h.1, h.2]

theorem fileOf_eq_none {path : Path} (h : path.area ≠ .idMap) : p.fileOf path = none := by
  cases path with
  | idFile pid file => exact absurd rfl h
  | _ => rfl

theorem wrote_noFile {fd : Int} {data : List UInt8} (h : p.files fd = none) :
    p.wrote fd data = p := by
  rw [ParentSide.wrote, h]

theorem after_leave {f : Fn} {r : Int} {u : Answer (.leave f r)} (h : ¬ f.Recorded) :
    p.after (.leave f r) u = p := by
  cases f with
  | cgroupsInit hostname pid => exact absurd trivial h
  | nlMoveToNs ifname nsFd => exact absurd trivial h
  | prepareMappings pid fd => exact absurd trivial h
  | _ => rfl

theorem after_neutral {c : Call} {r : Answer c} (hc : Neutral c) (hfiles : p.NoFiles)
    (hfd : ∀ fd, c.fd? = some fd → p.ends.Free fd) : p.after c r = p := by
  obtain ⟨⟨hprocess, hsockets, hidMap⟩, hleave⟩ := hc
  have hupdate : ∀ n : Int, (fun fd => if fd = n then none else p.files fd) = p.files := fun n =>
    funext fun fd => by rw [hfiles fd]; exact ite_self _
  cases c with
  | clone flags config => exact absurd rfl hprocess
  | kill pid sig => exact absurd rfl hprocess
  | waitpid pid => exact absurd rfl hprocess
  | socketpair => exact absurd rfl hsockets
  | «open» path mode =>
    cases r with
    | error e => rfl
    | ok n => simp only [ParentSide.after, fileOf_eq_none hidMap, hupdate]
  | close fd => simp only [ParentSide.after, Ends.close_free (hfd fd rfl), hupdate]
  | write fd data =>
    cases r with
    | error e => rfl
    | ok n =>
      simp only [ParentSide.after, if_neg (hfd fd rfl).1, wrote_noFile (hfiles fd)]
      exact ite_self _
  | dprintf fd data =>
    cases r with
    | error e => rfl
    | ok n => exact wrote_noFile (hfiles fd)
  | read fd count =>
    cases r with
    | error e => rfl
    | ok data => simp only [ParentSide.after, if_neg (hfd fd rfl).1]
  | leave f code => exact after_leave (hleave f code rfl)
  | _ => rfl

theorem rule_neutral {c : Call} (hc : Neutral c) (hfiles : p.NoFiles)
    (hfd : ∀ fd, c.fd? = some fd → p.ends.Free fd) : parentRule net p c := by
  obtain ⟨⟨hprocess, hsockets, hidMap⟩, hleave⟩ := hc
  cases c with
  | clone flags config => exact absurd rfl hprocess
  | kill pid sig => exact absurd rfl hprocess
  | waitpid pid => exact absurd rfl hprocess
  | socketpair => exact absurd rfl hsockets
  | write fd data =>
    exact ⟨(hfd fd rfl).2, fun h => absurd (hfiles fd) h, fun h => absurd h (hfd fd rfl).1⟩
  | dprintf fd data => exact fun h => absurd (hfiles fd) h
  | read fd count => exact ⟨(hfd fd rfl).2, fun h => absurd h (hfd fd rfl).1⟩
  | leave f code =>
    cases f with
    | prepareMappings pid fd => exact absurd trivial (hleave _ code rfl)
    | _ => trivial
  | _ => trivial

/-- A number that is given out names no end of the pair. -/
def Ends.Opens (e : Ends) : (c : Call) → Answer c → Prop
  | .socketNetlink, .ok n => e.Free n
  | .open _ _, .ok n => e.Free n
  | _, _ => True

theorem Ends.Opens.free {e : Ends} {own : List Int} {c : Call} {r : Answer c} (h : e.Opens c r)
    (hown : ∀ fd ∈ own, e.Free fd) : ∀ fd ∈ openAfter own c r, e.Free fd := by
  have hcons : ∀ n : Nat, e.Free n → ∀ fd ∈ (n : Int) :: own, e.Free fd := by
    intro n hn fd hmem
    rcases List.mem_cons.mp hmem with rfl | hmem
    · exact hn
    · exact hown fd hmem
  cases c with
  | socketNetlink =>
    cases r with
    | error e => exact hown
    | ok n => exact hcons n h
  | «open» path mode =>
    cases r with
    | error e => exact hown
    | ok n => exact hcons n h
  | close fd => exact fun d hmem => hown d (List.mem_of_mem_erase hmem)
  | _ => exact hown

theorem ParentSide.hears.opens {c : Call} {r : Answer c} (h : p.hears c r) : p.ends.Opens c r := by
  cases c with
  | socketNetlink =>
    cases r with
    | error e => trivial
    | ok n => exact h
  | «open» path mode =>
    cases r with
    | error e => trivial
    | ok n => exact h
  | _ => trivial

/-- A tidy function that does not concern the child leaves the parent's side alone. -/
theorem parent_tidy {S : List Area} {P : α → Prop} {q : Sys α} (hq : Tidy S P q)
    (hn : q.Only Neutral) (hfiles : p.NoFiles) :
    wp (parentProtocol net) q (fun a p' => p' = p ∧ P a) p := by
  have hgen : ∀ (q : Sys α) (own : List Int), (∀ fd ∈ own, p.ends.Free fd) →
      wp (tidy S) q (fun a own' => own' = [] ∧ P a) own → q.Only Neutral →
      wp (parentProtocol net) q (fun a p' => p' = p ∧ P a) p := by
    intro q
    induction q with
    | ret a => exact fun own _ h _ => ⟨rfl, h.2⟩
    | call c k ih =>
      rintro own hown ⟨⟨-, hfd⟩, hk⟩ ⟨hc, hrest⟩
      have hfree : ∀ fd, c.fd? = some fd → p.ends.Free fd := fun fd h => hown fd (hfd fd h)
      refine ⟨rule_neutral hc hfiles hfree, fun r p' hstep => ?_⟩
      obtain ⟨hears, rfl⟩ := hstep
      rw [after_neutral hc hfiles hfree]
      exact ih r (openAfter own c r) (hears.opens.free hown) (hk r _ rfl) (hrest r)
  exact hgen q [] (fun _ h => nomatch h) (hq []) hn

/-- Areas that have nothing to do with the child, and no marks of recorded functions. -/
theorem neutral_of_areas {S : List Area} {q : Sys α} (hq : q.Only fun c => c.area ∈ S)
    (hS : ∀ a ∈ S, a ≠ .process ∧ a ≠ .sockets ∧ a ≠ .idMap ∧ a ≠ .mark) : q.Only Neutral := by
  refine hq.mono fun c hc => ?_
  obtain ⟨hprocess, hsockets, hidMap, hmark⟩ := hS _ hc
  refine ⟨⟨hprocess, hsockets, hidMap⟩, fun f r h hf => hmark ?_⟩
  rw [h]
  cases f with
  | nlDelLink ifname => exact hf.elim
  | _ => rfl

theorem neutral_invoke {f : Fn} {body : Sys Int} (hf : ¬ f.Recorded) (hbody : body.Only Neutral) :
    (invoke f body).Only Neutral := by
  have hmark : f.area ≠ .process ∧ f.area ≠ .sockets ∧ f.area ≠ .idMap := by
    cases f <;> simp [Fn.area]
  refine ⟨⟨hmark, fun f' r h => nomatch h⟩, fun _ => hbody.bind fun r => ?_⟩
  refine ⟨⟨hmark, fun f' r' h => ?_⟩, fun _ => only_pure r⟩
  obtain ⟨rfl, rfl⟩ := Call.leave.inj h
  exact hf

end Neutral

/-! ## Sections 3 to 6 and the cleanup are neutral -/

section Main

theorem neutral_covers : Covers Neutral hostAreas Fn.OfNetwork where
  call c hc hmark := by
    have hother : ∀ a ∈ hostAreas, a ≠ .process ∧ a ≠ .sockets ∧ a ≠ .idMap := by decide
    refine ⟨hother _ hc, fun f r h hf => hmark ?_⟩
    subst h
    cases f with
    | nlDelLink ifname => exact hf.elim
    | _ => rfl
  enter f hf := ⟨by cases f <;> simp [Call.area, Fn.area], nofun⟩
  leave f r hf := by
    refine ⟨by cases f <;> simp [Call.area, Fn.area], fun f' r' h => ?_⟩
    obtain ⟨rfl, rfl⟩ := Call.leave.inj h
    cases f with
    | nlMoveToNs ifname nsFd => exact hf.elim
    | cgroupsInit hostname pid => exact hf.elim
    | prepareMappings pid fd => exact hf.elim
    | _ => exact id

theorem neutral_releaseCgroup (st : MainState) : (releaseCgroup st).Only Neutral := by
  unfold releaseCgroup
  cases st.config.hostname with
  | none => exact only_pure ()
  | some hostname =>
    exact (neutral_invoke (f := .cgroupsFree hostname) id
      (neutral_of_areas (cgroupsFree_tidy hostname).only (by decide))).bind fun _ => only_pure ()

end Main

/-! ## The parent and its child -/

section Parent

variable {net : Prop} {β : Type} {p : ParentSide} {a : Int} {pid : Nat}

theorem parent_call {c : Call} {k : Answer c → Sys β} {Q : β → ParentSide → Prop}
    (hrule : parentRule net p c)
    (hk : ∀ r, p.hears c r → wp (parentProtocol net) (k r) Q (p.after c r)) :
    wp (parentProtocol net) (sys c >>= k) Q p :=
  ⟨hrule, fun r p' h => by
    obtain ⟨hears, rfl⟩ := h
    exact hk r hears⟩

theorem parent_neutral {c : Call} {k : Answer c → Sys β} {Q : β → ParentSide → Prop}
    (hc : Neutral c) (hfiles : p.NoFiles) (hfd : ∀ fd, c.fd? = some fd → p.ends.Free fd)
    (hk : ∀ r, p.hears c r → wp (parentProtocol net) (k r) Q p) :
    wp (parentProtocol net) (sys c >>= k) Q p :=
  parent_call (rule_neutral hc hfiles hfd) fun r hears => by
    rw [after_neutral hc hfiles hfd]
    exact hk r hears

/-- Closing a descriptor that is no end of the pair. -/
theorem parent_closeFd {fd : Int} {k : Unit → Sys β} {Q : β → ParentSide → Prop}
    (hfree : p.ends.Free fd) (hfiles : p.NoFiles) (hk : wp (parentProtocol net) (k ()) Q p) :
    wp (parentProtocol net) (closeFd fd >>= k) Q p :=
  parent_neutral (c := .close fd) ⟨by simp [Call.area], nofun⟩ hfiles
    (fun _ h => Option.some.inj h ▸ hfree) fun _ _ => hk

/-- The child exists, has not been waited for, and has been told nothing. -/
structure Waiting (a : Int) (pid : Nat) (p : ParentSide) : Prop where
  ends : p.ends = ⟨some a, none⟩
  pid : p.pid = some pid
  status : p.status = none
  killed : p.killed = false
  mapped : p.mapped = none
  sent : p.sent = []

theorem Waiting.has_pid (h : Waiting a pid p) : p.pid ≠ none := by
  rw [h.pid]
  exact nofun

/-- The child exists, and the parent has done nothing about it. -/
structure Untouched (a : Int) (pid : Nat) (p : ParentSide) : Prop extends Waiting a pid p where
  files : p.NoFiles
  heard : p.heard = []
  written : p.written = []

/-- How `main` can end. -/
inductive Ended (help : Prop) (p : ParentSide) : Int → Prop
  | noChild : p.pid = none → Ended help p 1
  | help : help → p.pid = none → Ended help p 0
  | stopped {pid : Nat} : p.pid = some pid → p.killed = true → goMessage ∉ p.sent → Ended help p 1
  | waited {pid : Nat} {status : WaitStatus} : p.pid = some pid → p.status = some status →
      goMessage ∈ p.sent → Ended help p (containerStatus status)

/-- `container_stop` on a child that was not let go. -/
theorem parent_stop (hpid : p.pid = some pid) (hstatus : p.status = none)
    (hsent : goMessage ∉ p.sent) (hfiles : p.NoFiles) :
    wp (parentProtocol net) (containerStop pid)
      (fun _ p' => p'.pid = some pid ∧ p'.killed = true ∧ goMessage ∉ p'.sent ∧ p'.NoFiles) p := by
  refine parent_call ⟨hpid, hstatus, fun _ => hsent⟩ fun r hears => ?_
  obtain rfl : r = .ok () := hears hpid hstatus
  have hafter : p.after (.kill pid SIGKILL) (.ok ()) = { p with killed := true } := by
    simp [ParentSide.after, hpid]
  rw [hafter]
  refine parent_call ⟨hpid, hstatus, .inl rfl⟩ fun r hears => ?_
  cases r with
  | error e => exact ⟨hpid, rfl, hsent, hfiles⟩
  | ok w =>
    simp only [ParentSide.after, hpid, if_true]
    exact ⟨rfl, rfl, hsent, hfiles⟩

/-- The loop around `waitpid` on a child that was let go. -/
theorem parent_wait (retries : Nat) (hpid : p.pid = some pid) (hstatus : p.status = none)
    (hsent : goMessage ∈ p.sent) (hfiles : p.NoFiles) :
    wp (parentProtocol net) (waitContainer pid retries) (fun o p' => ∃ status, o = some status ∧
      p'.pid = some pid ∧ p'.status = some status ∧ goMessage ∈ p'.sent ∧ p'.NoFiles) p := by
  induction retries with
  | zero => exact ⟨trivial, fun r => nomatch r⟩
  | succ retries ih =>
    refine parent_call ⟨hpid, hstatus, .inr hsent⟩ fun r hears => ?_
    cases r with
    | error e =>
      obtain rfl : e = EINTR := hears hpid hstatus
      exact ih
    | ok w =>
      obtain ⟨w, status⟩ := w
      obtain rfl : w = pid := hears
      simp only [ParentSide.after, hpid, if_true]
      exact ⟨status, rfl, rfl, rfl, hsent, hfiles⟩

/-- A recorded function whose body is neutral. -/
theorem parent_invoke {f : Fn} {S : List Area} {body : Sys Int} {Q : Int → ParentSide → Prop}
    (hbody : Tidy S Status body) (hn : body.Only Neutral) (hfiles : p.NoFiles)
    (hrule : ∀ r, parentRule net p (.leave f r))
    (hQ : ∀ r, Status r → Q r (p.after (.leave f r) ())) :
    wp (parentProtocol net) (invoke f body) Q p := by
  refine parent_call (c := .enter f) trivial fun _ _ => ?_
  refine wp_seq (parent_tidy hbody hn hfiles) ?_
  rintro r p' ⟨rfl, hr⟩
  exact parent_call (hrule r) fun _ _ => hQ r hr

theorem Untouched.go_not_sent (h : Untouched a pid p) : goMessage ∉ p.sent := by
  rw [h.sent]
  exact List.not_mem_nil

/-- The child has been killed, and was not let go. -/
structure Stopped (pid : Nat) (p : ParentSide) : Prop where
  pid : p.pid = some pid
  killed : p.killed = true
  sent : goMessage ∉ p.sent
  files : p.NoFiles

theorem parent_moveToNs (tmp : CStr) (nsFd : Int) (hfiles : p.NoFiles) :
    wp (parentProtocol net) (invoke (.nlMoveToNs tmp nsFd) (nlMoveToNs tmp nsFd))
      (fun r p' => (r < 0 ∧ p' = p) ∨ (¬ r < 0 ∧ p' = { p with moved := true })) p := by
  refine parent_invoke (nlMoveToNs_tidy tmp nsFd)
    (neutral_of_areas (nlMoveToNs_tidy tmp nsFd).only (by decide)) hfiles (fun _ => trivial) ?_
  rintro r (rfl | rfl)
  · exact .inr ⟨by decide, rfl⟩
  · exact .inl ⟨by decide, rfl⟩

/-- Section 7.5: the container's end is handed over, or the child is stopped. -/
theorem parent_moveVeth (tmp : CStr) (h : Untouched a pid p) :
    wp (parentProtocol net) (moveVeth pid tmp)
      (fun b p' => if b then Untouched a pid p' ∧ p'.moved = true else Stopped pid p') p := by
  have hstop : wp (parentProtocol net) (containerStop pid >>= fun _ => pure false)
      (fun b p' => if b then Untouched a pid p' ∧ p'.moved = true else Stopped pid p') p :=
    wp_seq (parent_stop h.pid h.status h.go_not_sent h.files) fun _ _ h' =>
      ⟨h'.1, h'.2.1, h'.2.2.1, h'.2.2.2⟩
  have hopen : Neutral (.open (.netNs pid) .rdonly) :=
    ⟨by simp [Call.area, Path.area], by rintro _ _ ⟨⟩⟩
  refine parent_neutral hopen h.files (by rintro _ ⟨⟩) fun r hears => ?_
  cases r with
  | error e => exact hstop
  | ok nsFd =>
    refine wp_seq (parent_moveToNs tmp nsFd h.files) ?_
    rintro r p' (⟨hr, rfl⟩ | ⟨hr, rfl⟩)
    · rw [if_pos hr]
      exact parent_closeFd hears h.files hstop
    · rw [if_neg hr]
      exact parent_closeFd hears h.files
        ⟨⟨⟨h.ends, h.pid, h.status, h.killed, h.mapped, h.sent⟩, h.files, h.heard, h.written⟩, rfl⟩

/-! ### The maps -/

/-- The id files are being written: the child has announced itself, and everything
else it waits for is done. -/
structure Mapping (net : Prop) (a : Int) (pid : Nat) (w : List (IdFile × List UInt8))
    (p : ParentSide) : Prop extends Waiting a pid p where
  heard : goMessage ∈ p.heard
  cgroup : p.cgroup = true
  moved : net → p.moved = true
  written : p.written = w

/-- The end of `user_namespace_prepare_mappings`. -/
structure Mapped (pid : Nat) (r : Int) (p : ParentSide) : Prop where
  pid : p.pid = some pid
  status : p.status = none
  killed : p.killed = false
  files : p.NoFiles
  mapped : p.mapped = none
  result : r = 0 ∧ goMessage ∈ p.sent ∨ r = -1 ∧ goMessage ∉ p.sent

variable {w : List (IdFile × List UInt8)}

/-- A call on the id file that was opened last. -/
structure OpenFile (fd : Int) (file : IdFile) (p : ParentSide) : Prop where
  free : p.ends.Free fd
  file : p.files fd = some file
  others : ∀ d, d ≠ fd → p.files d = none

theorem Mapping.opened {n : Nat} (file : IdFile) (mode : OpenMode) (h : Mapping net a pid w p)
    (hfiles : p.NoFiles) (hfree : p.ends.Free n) :
    Mapping net a pid w (p.after (.open (.idFile pid file) mode) (.ok n)) ∧
      OpenFile n file (p.after (.open (.idFile pid file) mode) (.ok n)) := by
  refine ⟨⟨⟨h.ends, h.pid, h.status, h.killed, h.mapped, h.sent⟩, h.heard, h.cgroup, h.moved,
    h.written⟩, hfree, ?_, fun d hd => ?_⟩
  · simp [ParentSide.after, ParentSide.fileOf, h.pid]
  · simp [ParentSide.after, hd, hfiles d]

/-- Closing the file leaves none open. -/
theorem Mapping.closed {fd : Int} {file : IdFile} {r : Answer (.close fd)}
    (h : Mapping net a pid w p) (hopen : OpenFile fd file p) :
    Mapping net a pid w (p.after (.close fd) r) ∧ (p.after (.close fd) r).NoFiles := by
  have hends : (p.after (.close fd) r).ends = ⟨some a, none⟩ :=
    (Ends.close_free hopen.free).trans h.ends
  refine ⟨⟨⟨hends, h.pid, h.status, h.killed, h.mapped, h.sent⟩, h.heard, h.cgroup, h.moved,
    h.written⟩, fun d => ?_⟩
  show (if d = fd then none else p.files d) = none
  split
  · rfl
  · exact hopen.others d ‹_›

theorem parent_closeFile {fd : Int} {file : IdFile} {k : Unit → Sys β}
    {Q : β → ParentSide → Prop} (h : Mapping net a pid w p) (hopen : OpenFile fd file p)
    (hk : ∀ p', Mapping net a pid w p' → p'.NoFiles → wp (parentProtocol net) (k ()) Q p') :
    wp (parentProtocol net) (closeFd fd >>= k) Q p :=
  parent_call (c := .close fd) trivial fun _ _ =>
    hk _ (h.closed hopen).1 (h.closed hopen).2

/-- A write to the open file is recorded. -/
theorem Mapping.wrote {fd : Int} {file : IdFile} (data : List UInt8) (h : Mapping net a pid w p)
    (hopen : OpenFile fd file p) : Mapping net a pid (w ++ [(file, data)]) (p.wrote fd data) ∧
      OpenFile fd file (p.wrote fd data) := by
  have hwrote : p.wrote fd data = { p with written := p.written ++ [(file, data)] } := by
    rw [ParentSide.wrote, hopen.file]
  rw [hwrote]
  exact ⟨⟨⟨h.ends, h.pid, h.status, h.killed, h.mapped, h.sent⟩, h.heard, h.cgroup, h.moved,
    congrArg (· ++ _) h.written⟩, hopen.free, hopen.file, hopen.others⟩

theorem parent_write {fd : Int} {file : IdFile} {data : List UInt8} {k : Res Nat → Sys β}
    {Q : β → ParentSide → Prop} (h : Mapping net a pid w p) (hopen : OpenFile fd file p)
    (herr : ∀ e, wp (parentProtocol net) (k (.error e)) Q p)
    (hshort : ∀ n, n ≠ data.length → wp (parentProtocol net) (k (.ok n)) Q p)
    (hfull : wp (parentProtocol net) (k (.ok data.length)) Q (p.wrote fd data)) :
    wp (parentProtocol net) (sys (.write fd data) >>= k) Q p := by
  have hends : p.ends.b ≠ some fd ∧ p.ends.a ≠ some fd := ⟨hopen.free.2, hopen.free.1⟩
  refine parent_call ⟨hends.1, fun _ => ⟨h.heard, h.sent⟩, fun ha => absurd ha hends.2⟩ fun r _ => ?_
  cases r with
  | error e => exact herr e
  | ok n =>
    show wp _ _ _ (if p.ends.a = some fd then _ else if n = data.length then _ else _)
    rw [if_neg hends.2]
    split
    · rename_i hn
      exact hn ▸ hfull
    · exact hshort n ‹_›

theorem failMessage_take_ne (n : Nat) : goMessage ≠ failMessage.take n := by
  intro h
  have hzero : (0 : UInt8) ∈ failMessage.take n := h ▸ (by decide)
  exact absurd (List.mem_of_mem_take hzero) (by decide)

theorem goMessage_take_ne {n : Nat} (hn : n ≤ 4) (hne : n ≠ 4) : goMessage ≠ goMessage.take n := by
  intro h
  have hlen : goMessage.length = 4 := rfl
  have := congrArg List.length h
  rw [List.length_take, hlen] at this
  omega

/-- The label `fail`: whatever comes of it, the child is not let go. -/
theorem parent_notifyFailure (h : Waiting a pid p) (hfiles : p.NoFiles) :
    wp (parentProtocol net) (notifyFailure a) (Mapped pid) p := by
  have hb : p.ends.b ≠ some a := by rw [h.ends]; exact nofun
  have ha : p.ends.a = some a := by rw [h.ends]
  refine parent_call ⟨hb, fun hf => absurd (hfiles a) hf, fun _ =>
    ⟨h.has_pid, h.sent, h.mapped, h.killed, .inl rfl⟩⟩ fun r _ => ?_
  cases r with
  | error e =>
    refine ⟨h.pid, h.status, h.killed, hfiles, h.mapped, .inr ⟨rfl, ?_⟩⟩
    show goMessage ∉ p.sent
    rw [h.sent]
    exact List.not_mem_nil
  | ok n =>
    have hafter : p.after (.write a failMessage) (.ok n) = { p with sent := [failMessage.take n] } := by
      simp only [ParentSide.after, ha, if_true, h.sent, List.nil_append]
    show Mapped pid (-1) (p.after (.write a failMessage) (.ok n))
    rw [hafter]
    refine ⟨h.pid, h.status, h.killed, hfiles, h.mapped, .inr ⟨rfl, fun hmem => ?_⟩⟩
    exact failMessage_take_ne n (List.mem_singleton.mp hmem)

/-- The loop over the maps. -/
theorem parent_writeMaps (files : List IdFile) (h : Mapping net a pid w p) (hfiles : p.NoFiles) :
    wp (parentProtocol net) (writeMaps pid files) (fun b p' => p'.NoFiles ∧ Waiting a pid p' ∧
      (b = true → Mapping net a pid (w ++ files.map fun file => (file, mapLine)) p')) p := by
  induction files generalizing p w with
  | nil => exact ⟨hfiles, h.toWaiting, fun _ => by simpa using h⟩
  | cons file files ih =>
    refine parent_call trivial fun r hears => ?_
    cases r with
    | error e => exact ⟨hfiles, h.toWaiting, nofun⟩
    | ok n =>
      obtain ⟨h₁, hopen⟩ := h.opened file .wronly hfiles hears
      refine parent_call (fun _ => ⟨h₁.heard, h₁.sent⟩) fun r _ => ?_
      cases r with
      | error e => exact parent_closeFile h₁ hopen fun p' h' hf => ⟨hf, h'.toWaiting, nofun⟩
      | ok m =>
        obtain ⟨h₂, hopen₂⟩ := h₁.wrote mapLine hopen
        refine parent_closeFile h₂ hopen₂ fun p' h' hf => wp_mono (ih h' hf) ?_
        rintro b p'' ⟨hf', hw, hb⟩
        exact ⟨hf', hw, fun hb' => by simpa using hb hb'⟩

/-- The last message, which lets the child go. -/
theorem parent_go (h : Mapping net a pid idWrites p) (hfiles : p.NoFiles) :
    wp (parentProtocol net) (do
      match ← sys (.write a (intBytes 0)) with
      | .error _ => return -1
      | .ok n =>
      if n ≠ 4 then
        return -1
      return 0) (Mapped pid) p := by
  have hb : p.ends.b ≠ some a := by rw [h.ends]; exact nofun
  have ha : p.ends.a = some a := by rw [h.ends]
  refine parent_call ⟨hb, fun hf => absurd (hfiles a) hf, fun _ => ⟨h.has_pid, h.sent, h.mapped,
    h.killed, .inr ⟨rfl, h.written, h.cgroup, h.moved⟩⟩⟩ fun r hears => ?_
  cases r with
  | error e =>
    refine ⟨h.pid, h.status, h.killed, hfiles, h.mapped, .inr ⟨rfl, ?_⟩⟩
    show goMessage ∉ p.sent
    rw [h.sent]
    exact List.not_mem_nil
  | ok n =>
    have hafter : p.after (.write a (intBytes 0)) (.ok n) = { p with sent := [goMessage.take n] } := by
      simp only [ParentSide.after, ha, if_true, h.sent, List.nil_append]
      rfl
    show wp _ (if n ≠ 4 then _ else _) _ (p.after (.write a (intBytes 0)) (.ok n))
    rw [hafter]
    split
    · rename_i hn
      refine ⟨h.pid, h.status, h.killed, hfiles, h.mapped, .inr ⟨rfl, fun hmem => ?_⟩⟩
      exact goMessage_take_ne hears hn (List.mem_singleton.mp hmem)
    · rename_i hn
      obtain rfl : n = 4 := not_not.mp hn
      exact ⟨h.pid, h.status, h.killed, hfiles, h.mapped, .inl ⟨rfl, List.mem_singleton.mpr rfl⟩⟩

/-- The three files, one after the other, and the answer. -/
theorem parent_maps (h : Mapping net a pid [] p) (hfiles : p.NoFiles) :
    wp (parentProtocol net) (do
      match ← sys (.open (.idFile pid .setgroups) .wronly) with
      | .error _ => notifyFailure a
      | .ok mapFd =>
      match ← sys (.write mapFd (ascii "deny")) with
      | .error _ =>
        closeFd mapFd
        notifyFailure a
      | .ok n =>
      if n ≠ 4 then
        closeFd mapFd
        notifyFailure a
      else
        closeFd mapFd
        if !(← writeMaps pid [.uidMap, .gidMap]) then
          notifyFailure a
        else
          match ← sys (.write a (intBytes 0)) with
          | .error _ => return -1
          | .ok n =>
          if n ≠ 4 then
            return -1
          return 0) (Mapped pid) p := by
  refine parent_call trivial fun r hears => ?_
  cases r with
  | error e => exact parent_notifyFailure h.toWaiting hfiles
  | ok n =>
    obtain ⟨h₁, hopen⟩ := h.opened .setgroups .wronly hfiles hears
    have hfail : ∀ {p : ParentSide}, Mapping net a pid [] p → OpenFile n .setgroups p →
        wp (parentProtocol net) (closeFd n >>= fun _ => notifyFailure a) (Mapped pid) p :=
      fun h hopen => parent_closeFile h hopen fun p' h' hf => parent_notifyFailure h'.toWaiting hf
    refine parent_write h₁ hopen (fun e => hfail h₁ hopen) (fun m hm => ?_) ?_
    · have hm4 : m ≠ 4 := hm
      dsimp only
      rw [if_pos hm4]
      exact hfail h₁ hopen
    · obtain ⟨h₂, hopen₂⟩ := h₁.wrote (ascii "deny") hopen
      show wp _ (if (ascii "deny").length ≠ 4 then _ else _) _ _
      rw [if_neg (by decide)]
      refine parent_closeFile h₂ hopen₂ fun p' h' hf => ?_
      refine wp_seq (parent_writeMaps [.uidMap, .gidMap] h' hf) ?_
      rintro (_ | _) p'' ⟨hf', hw, hb⟩
      · exact parent_notifyFailure hw hf'
      · exact parent_go (hb rfl) hf'

/-- `user_namespace_prepare_mappings`, after everything before it. -/
theorem parent_prepareMappings (h : Untouched a pid p) (hcgroup : p.cgroup = true)
    (hmoved : net → p.moved = true) :
    wp (parentProtocol net) (prepareMappings pid a) (Mapped pid) p := by
  have hb : p.ends.b ≠ some a := by rw [h.ends]; exact nofun
  have ha : p.ends.a = some a := by rw [h.ends]
  refine parent_call ⟨hb, fun _ => ⟨h.has_pid, h.heard, h.sent⟩⟩ fun r _ => ?_
  cases r with
  | error e => exact ⟨h.pid, h.status, h.killed, h.files, h.mapped, .inr ⟨rfl, h.go_not_sent⟩⟩
  | ok data =>
    have hafter : p.after (.read a 4) (.ok data) = { p with heard := [data] } := by
      simp only [ParentSide.after, ha, if_true, h.heard, List.nil_append]
    rw [hafter]
    have hw : Waiting a pid { p with heard := [data] } :=
      ⟨h.ends, h.pid, h.status, h.killed, h.mapped, h.sent⟩
    dsimp only
    split
    · exact ⟨h.pid, h.status, h.killed, h.files, h.mapped, .inr ⟨rfl, h.go_not_sent⟩⟩
    · split
      · exact parent_notifyFailure hw h.files
      · rename_i hdata
        have hgo : goMessage ∈ [data] := List.mem_singleton.mpr (not_not.mp hdata).symm
        exact parent_maps ⟨hw, hgo, hcgroup, hmoved, h.written⟩ h.files

/-! ### All of `main` -/

theorem Stopped.ended {help : Prop} (h : Stopped pid p) : Ended help p 1 :=
  .stopped h.pid h.killed h.sent

/-- Sections 8 to 10. -/
theorem parent_supervise (retries : Nat) {help : Prop} {st : MainState} (h : Untouched a pid p)
    (hsock : st.sockets.1 = a) (hcode : st.exitcode = 0) (hmoved : net → p.moved = true) :
    wp (parentProtocol net) (superviseContainer retries st pid)
      (fun st' p' => Ended help p' st'.exitcode ∧ p'.NoFiles) p := by
  unfold superviseContainer
  cases st.config.hostname with
  | none => exact ⟨trivial, fun r => nomatch r⟩
  | some hostname =>
    refine wp_seq (parent_invoke (Q := fun _ p' => p' = { p with cgroup := true })
      (cgroupsInit_tidy hostname pid) (neutral_of_areas (cgroupsInit_tidy hostname pid).only
        (by decide)) h.files (fun _ => trivial) fun _ _ => rfl) ?_
    rintro - p₁ rfl
    have h₁ : Untouched a pid { p with cgroup := true } :=
      ⟨⟨h.ends, h.pid, h.status, h.killed, h.mapped, h.sent⟩, h.files, h.heard, h.written⟩
    rw [hsock]
    refine wp_seq (Q := fun r p' => ∃ p₂, Mapped pid r p₂ ∧ p' = { p₂ with mapped := some r })
      ?_ ?_
    · refine parent_call (c := .enter _) trivial fun _ _ => ?_
      refine wp_seq (parent_prepareMappings h₁ rfl hmoved) fun r p₂ h₂ => ?_
      exact parent_call (c := .leave (.prepareMappings pid a) r) ⟨h₂.mapped, h₂.result⟩ fun _ _ =>
        ⟨p₂, h₂, rfl⟩
    · rintro r - ⟨p₂, h₂, rfl⟩
      obtain ⟨rfl, hsent⟩ | ⟨rfl, hsent⟩ := h₂.result
      · rw [if_neg (by decide)]
        refine wp_seq (parent_wait retries h₂.pid h₂.status hsent h₂.files) ?_
        rintro o p₃ ⟨status, rfl, hpid, hstatus, hgo, hfiles⟩
        show Ended help p₃ (if st.exitcode = 0 then _ else _ : MainState).exitcode ∧ _
        rw [if_pos hcode]
        exact ⟨.waited hpid hstatus hgo, hfiles⟩
      · rw [if_pos (by decide)]
        exact wp_seq (parent_stop h₂.pid h₂.status hsent h₂.files) fun _ p₃ h₃ =>
          ⟨.stopped h₃.1 h₃.2.1 h₃.2.2.1, h₃.2.2.2⟩

/-- There is no child, and nothing has been done. -/
structure Alone (p : ParentSide) : Prop where
  files : p.NoFiles
  pid : p.pid = none
  status : p.status = none
  killed : p.killed = false
  mapped : p.mapped = none
  sent : p.sent = []
  heard : p.heard = []
  written : p.written = []

/-- Both ends are open, and the child's is in the configuration. -/
structure EndsReady (st : MainState) (p : ParentSide) : Prop extends Alone p where
  ends : ∃ a b, a ≠ b ∧ p.ends = ⟨some a, some b⟩ ∧ st.sockets = (a, b) ∧ st.config.fd = b ∧ 0 ≤ b

/-- `container_init`: the child has been told nothing when there is one. -/
theorem parent_containerInit {st : MainState} (h : EndsReady st p) :
    wp (parentProtocol net) (containerInit st.config) (fun x p' =>
      (x.1 = -1 ∧ Alone p' ∨ ∃ pid : Nat, x.1 = pid ∧ Untouched st.sockets.1 pid p') ∧
      ∃ fd, x.2 = { st.config with fd := fd }) p := by
  obtain ⟨a, b, hab, hends, hsock, hfd, hpos⟩ := h.ends
  refine parent_call ⟨h.pid, a, b, hab, hends, hfd⟩ fun r _ => ?_
  cases r with
  | error e => exact ⟨.inl ⟨rfl, h.toAlone⟩, st.config.fd, rfl⟩
  | ok pid =>
    have hge : st.config.fd ≥ 0 := by rw [hfd]; exact hpos
    show wp _ (if st.config.fd ≥ 0 then _ else _) _ { p with pid := some pid }
    rw [if_pos hge]
    refine parent_call (c := .close st.config.fd) trivial fun r _ => ?_
    refine ⟨.inr ⟨pid, rfl, ⟨⟨?_, rfl, h.status, h.killed, h.mapped, h.sent⟩, fun d => ?_, h.heard,
      h.written⟩⟩, -1, rfl⟩
    · show p.ends.close st.config.fd = ⟨some st.sockets.1, none⟩
      rw [hends, hsock, hfd]
      simp [Ends.close, hab]
    · show (if d = st.config.fd then none else p.files d) = none
      rw [h.files d, ite_self]

/-- Sections 7 to 10. -/
theorem parent_runContainer (retries : Nat) {help : Prop} {st : MainState} (h : EndsReady st p)
    (hcode : st.exitcode = 0) (hnet : net → st.vethCreated = true ∧ st.config.vethTmp.isSome) :
    wp (parentProtocol net) (runContainer retries st)
      (fun st' p' => Ended help p' st'.exitcode ∧ p'.NoFiles) p := by
  refine wp_seq (parent_containerInit h) ?_
  rintro ⟨pid, config⟩ p₁ ⟨⟨rfl, h₁⟩ | ⟨n, rfl, h₁⟩, fd, rfl⟩
  · exact ⟨.noChild h₁.pid, h₁.files⟩
  · have hn : ¬ ((n : Int) < 0) := by omega
    show wp _ (if (n : Int) < 0 then _ else _) _ _
    rw [if_neg hn]
    refine parent_neutral (c := .usleep 100000) ⟨by decide, nofun⟩ h₁.files nofun fun _ _ => ?_
    refine parent_call (c := .kill (n : Int).toNat 0) ⟨h₁.pid, h₁.status, nofun⟩ fun r hears => ?_
    obtain rfl : r = .ok () := hears h₁.pid h₁.status
    have hafter : p₁.after (.kill (n : Int).toNat 0) (.ok ()) = p₁ := by
      simp [ParentSide.after, SIGKILL]
    rw [hafter]
    dsimp only
    split
    · rename_i tmp hcreated htmp
      refine wp_seq (parent_moveVeth tmp h₁) ?_
      rintro (_ | _) p₂ h₂
      · exact ⟨h₂.ended, h₂.files⟩
      · exact parent_supervise retries h₂.1 rfl hcode fun _ => h₂.2
    · rename_i hno
      refine parent_supervise retries h₁ rfl hcode fun hon => ?_
      obtain ⟨hcreated, htmp⟩ := hnet hon
      obtain ⟨tmp, htmp⟩ := Option.isSome_iff_exists.mp htmp
      exact absurd htmp (hno tmp hcreated)

/-- `Ended` looks at the child only. -/
theorem Ended.same {help : Prop} {p' : ParentSide} {r : Int} (h : Ended help p r)
    (hpid : p'.pid = p.pid) (hkilled : p'.killed = p.killed) (hstatus : p'.status = p.status)
    (hsent : p'.sent = p.sent) : Ended help p' r := by
  cases h with
  | noChild hp => exact .noChild (hpid.trans hp)
  | help hh hp => exact .help hh (hpid.trans hp)
  | stopped hp hk hs => exact .stopped (hpid.trans hp) (hkilled.trans hk) (hsent ▸ hs)
  | waited hp hst hs => exact .waited (hpid.trans hp) (hstatus.trans hst) (hsent ▸ hs)

theorem parent_closeSocket {help : Prop} {r : Int} (fd : Int) (h : Ended help p r)
    (hfiles : p.NoFiles) : wp (parentProtocol net) (closeSocket fd)
      (fun _ p' => Ended help p' r ∧ p'.NoFiles) p := by
  unfold closeSocket
  split
  · refine parent_call (c := .close fd) trivial fun _ _ => ⟨h.same rfl rfl rfl rfl, fun d => ?_⟩
    show (if d = fd then none else p.files d) = none
    rw [hfiles d, ite_self]
  · exact ⟨h, hfiles⟩

/-- The label `cleanup`. -/
theorem parent_cleanup {help : Prop} {st : MainState} (h : Ended help p st.exitcode)
    (hfiles : p.NoFiles) : wp (parentProtocol net) (cleanup st) (fun r p' => Ended help p' r) p := by
  refine wp_seq (parent_tidy (releaseNat_tidy st) (neutral_covers.releaseNat st) hfiles) ?_
  rintro - p₁ ⟨rfl, -⟩
  refine wp_seq (parent_tidy (releaseVeth_tidy st) (neutral_covers.releaseVeth st) hfiles) ?_
  rintro - p₂ ⟨rfl, -⟩
  refine wp_seq (parent_closeSocket _ h hfiles) ?_
  rintro - p₃ ⟨h₃, hfiles₃⟩
  refine wp_seq (parent_closeSocket _ h₃ hfiles₃) ?_
  rintro - p₄ ⟨h₄, hfiles₄⟩
  refine wp_seq (parent_tidy (releaseCgroup_tidy st) (neutral_releaseCgroup st) hfiles₄) ?_
  rintro - p₅ ⟨rfl, -⟩
  exact h₄

/-- Sections 4 and 5. -/
theorem parent_openSockets {st : MainState} (h : Alone p) :
    wp (parentProtocol net) (openSockets st) (fun e p' => match e with
      | .error st' => st'.exitcode = 1 ∧ Alone p'
      | .ok st' => EndsReady st' p' ∧ st'.exitcode = st.exitcode ∧
        ∃ fd, st'.config = { st.config with fd := fd }) p := by
  refine parent_neutral (c := .geteuid) ⟨by decide, nofun⟩ h.files nofun fun _ _ => ?_
  refine parent_call (c := .socketpair) h.pid fun r hears => ?_
  cases r with
  | error e => exact ⟨rfl, h⟩
  | ok pair =>
    obtain ⟨x, y⟩ := pair
    have hxy : (x : Int) ≠ y := fun heq => hears (Int.ofNat.inj heq)
    have h₁ : Alone { p with ends := ⟨some (x : Int), some (y : Int)⟩ } :=
      ⟨h.files, h.pid, h.status, h.killed, h.mapped, h.sent, h.heard, h.written⟩
    refine parent_call (c := .fcntlCloexec x) trivial fun r _ => ?_
    cases r with
    | error e => exact ⟨rfl, h₁⟩
    | ok u =>
      refine parent_call (c := .malloc) trivial fun r _ => ?_
      cases r with
      | false => exact ⟨rfl, h₁⟩
      | true => exact ⟨⟨h₁, x, y, hxy, rfl, rfl, rfl, Int.natCast_nonneg y⟩, rfl, y, rfl⟩

end Parent

/-- A run with networking. -/
def Networking (args : Args) : Prop := args.vethName.isSome ∧ args.containerIp.isSome

theorem main_parentFrom (retries : Nat) {help : Prop} {args : Args} {st : MainState}
    {p : ParentSide} (h : Alone p) (hcode : st.exitcode = 0)
    (hnet : Networking args → st.config.vethName.isSome ∧ st.config.containerIp.isSome ∧
      st.config.vethTmp.isSome) :
    wp (parentProtocol (Networking args)) (mainFrom retries st) (fun r p' => Ended help p' r) p := by
  refine wp_seq (parent_openSockets h) ?_
  rintro (st₁ | st₁) p₁ h₁
  · exact parent_cleanup (h₁.1 ▸ .noChild h₁.2.pid) h₁.2.files
  · obtain ⟨hready, hcode₁, fd, hconfig⟩ := h₁
    refine wp_seq (wp_returns (parent_tidy (hostNetwork_tidy st₁) (neutral_covers.hostNetwork st₁)
      hready.files) (hostNetwork_returns st₁)) ?_
    rintro (st₂ | st₂) p₂ ⟨⟨rfl, -⟩, hst⟩
    · obtain rfl := hst
      exact parent_cleanup (.noChild hready.pid) hready.files
    · obtain ⟨vethCreated, natApplied, hostIf, rfl, hcreated⟩ := hst
      have hready₂ : EndsReady { st₁ with vethCreated, natApplied, hostIf } p₂ :=
        ⟨hready.toAlone, hready.ends⟩
      have hpair : Networking args → vethCreated = true ∧ st₁.config.vethTmp.isSome := fun hon => by
        obtain ⟨hname, hip, htmp⟩ := hnet hon
        rw [hconfig] at hcreated ⊢
        exact ⟨hcreated hname hip, htmp⟩
      exact wp_seq (Q := fun st' p' => Ended help p' st'.exitcode ∧ p'.NoFiles)
        (parent_runContainer retries hready₂ (hcode₁.trans hcode) hpair)
        fun st₃ p₃ h₃ => parent_cleanup h₃.1 h₃.2

/-- The parent follows its protocol, and ends as it should. -/
theorem main_parent (retries : Nat) (args : Args) :
    wp (parentProtocol (Networking args)) (main retries args)
      (fun r p' => Ended (args.errors = false ∧ args.help = true) p' r) .start := by
  have hstart : Alone .start := ⟨fun _ => rfl, rfl, rfl, rfl, rfl, rfl, rfl, rfl⟩
  refine parent_neutral (c := .calloc) ⟨by decide, nofun⟩ hstart.files nofun fun b _ => ?_
  cases b with
  | false => exact .noChild rfl
  | true =>
    show wp _ (if args.errors then _ else _) _ _
    split
    · exact .noChild rfl
    · rename_i herrors
      split
      · rename_i hhelp
        exact .help ⟨eq_false_of_ne_true herrors, hhelp⟩ rfl
      · refine wp_seq (wp_returns (parent_tidy (fillConfig_tidy args)
          (neutral_of_areas (fillConfig_tidy args).only (by decide)) hstart.files)
          (fillConfig_configured args)) ?_
        rintro e p₁ ⟨⟨rfl, -⟩, hconf⟩
        cases hconf with
        | off hoff =>
          refine main_parentFrom retries hstart rfl fun hon => ?_
          rcases hoff with h | h
          · exact absurd hon.1 (by rw [h]; decide)
          · exact absurd hon.2 (by rw [h]; decide)
        | on s hname hip => exact main_parentFrom retries hstart rfl fun _ => ⟨rfl, rfl, rfl⟩
        | noPeer => exact parent_cleanup (.noChild rfl) hstart.files
        | noTmp => exact parent_cleanup (.noChild rfl) hstart.files

/-! ## The child's protocol -/

/-- What the child may call. -/
def childRule (c : ChildSide) : Call → Prop
  | .write fd _ => c.ends.a ≠ some fd ∧ (c.ends.b = some fd → c.unshared = true)
  | .read fd _ => c.ends.a ≠ some fd ∧ (c.ends.b = some fd → c.sent ≠ [] ∧ c.heard = [])
  | .setresgid _ _ _ | .setresuid _ _ _ | .execve _ _ => goMessage ∈ c.heard
  | .leave .containerStart r => r = -1 ∨ c.execed = true
  | .clone _ _ | .kill _ _ | .waitpid _ | .socketpair => False
  | _ => True

def childProtocol : Machine Call Answer ChildSide where
  may := childRule
  step c call r c' := c.ends.Opens call r ∧ c' = c.after call r

/-- The call belongs to no step of the handshake. -/
def Aside (c : Call) : Prop := (c.area ≠ .process ∧ c.area ≠ .sockets ∧ c.area ≠ .identity ∧
  c.area ≠ .execve) ∧ ∀ r, c ≠ .leave .containerStart r

section Child

variable {α β : Type} {c : ChildSide}

theorem childAfter_aside {call : Call} {r : Answer call} (h : Aside call)
    (hfd : ∀ fd, call.fd? = some fd → c.ends.Free fd) : c.after call r = c := by
  obtain ⟨⟨-, -, hidentity, hexec⟩, -⟩ := h
  cases call with
  | close fd => simp only [ChildSide.after, Ends.close_free (hfd fd rfl)]
  | write fd data =>
    cases r with
    | error e => rfl
    | ok n => simp only [ChildSide.after, if_neg (hfd fd rfl).2]
  | read fd count =>
    cases r with
    | error e => rfl
    | ok data => simp only [ChildSide.after, if_neg (hfd fd rfl).2]
  | unshare flags => exact absurd rfl hidentity
  | execve path argv => exact absurd rfl hexec
  | _ => rfl

theorem childRule_aside {call : Call} (h : Aside call)
    (hfd : ∀ fd, call.fd? = some fd → c.ends.Free fd) : childRule c call := by
  obtain ⟨⟨hprocess, hsockets, hidentity, hexec⟩, hleave⟩ := h
  cases call with
  | write fd data => exact ⟨(hfd fd rfl).1, fun hb => absurd hb (hfd fd rfl).2⟩
  | read fd count => exact ⟨(hfd fd rfl).1, fun hb => absurd hb (hfd fd rfl).2⟩
  | setresgid r e s => exact absurd rfl hidentity
  | setresuid r e s => exact absurd rfl hidentity
  | execve path argv => exact absurd rfl hexec
  | clone flags config => exact absurd rfl hprocess
  | kill pid sig => exact absurd rfl hprocess
  | waitpid pid => exact absurd rfl hprocess
  | socketpair => exact absurd rfl hsockets
  | leave f code =>
    cases f with
    | containerStart => exact absurd rfl (hleave code)
    | _ => trivial
  | _ => trivial

/-- A tidy function aside from the handshake leaves the child's side alone, on every
machine that follows it and lets it make such calls. -/
theorem aside_tidy {M : Machine Call Answer ChildSide} {S : List Area} {P : α → Prop} {q : Sys α}
    (hmay : ∀ call, Aside call → (∀ fd, call.fd? = some fd → c.ends.Free fd) → M.may c call)
    (hstep : ∀ call r c', M.step c call r c' → c.ends.Opens call r ∧ c' = c.after call r)
    (hq : Tidy S P q) (hn : q.Only Aside) : wp M q (fun a c' => c' = c ∧ P a) c := by
  have hgen : ∀ (q : Sys α) (own : List Int), (∀ fd ∈ own, c.ends.Free fd) →
      wp (tidy S) q (fun a own' => own' = [] ∧ P a) own → q.Only Aside →
      wp M q (fun a c' => c' = c ∧ P a) c := by
    intro q
    induction q with
    | ret a => exact fun own _ h _ => ⟨rfl, h.2⟩
    | call call k ih =>
      rintro own hown ⟨⟨-, hfd⟩, hk⟩ ⟨hc, hrest⟩
      have hfree : ∀ fd, call.fd? = some fd → c.ends.Free fd := fun fd h => hown fd (hfd fd h)
      refine ⟨hmay call hc hfree, fun r c' hs => ?_⟩
      obtain ⟨hopens, rfl⟩ := hstep call r c' hs
      rw [childAfter_aside hc hfree]
      exact ih r (openAfter own call r) (hopens.free hown) (hk r _ rfl) (hrest r)
  exact hgen q [] (fun _ h => nomatch h) (hq []) hn

theorem child_tidy {S : List Area} {P : α → Prop} {q : Sys α} (hq : Tidy S P q)
    (hn : q.Only Aside) : wp childProtocol q (fun a c' => c' = c ∧ P a) c :=
  aside_tidy (fun _ => childRule_aside) (fun _ _ _ h => h) hq hn

theorem aside_of_areas {S : List Area} {q : Sys α} (hq : q.Only fun c => c.area ∈ S)
    (hS : ∀ a ∈ S, a ≠ .process ∧ a ≠ .sockets ∧ a ≠ .identity ∧ a ≠ .execve ∧ a ≠ .mark) :
    q.Only Aside := by
  refine hq.mono fun c hc => ?_
  obtain ⟨hprocess, hsockets, hidentity, hexec, hmark⟩ := hS _ hc
  exact ⟨⟨hprocess, hsockets, hidentity, hexec⟩, fun r h => hmark (h ▸ rfl)⟩

theorem aside_invoke {f : Fn} {body : Sys Int} (hf : f ≠ .containerStart)
    (hbody : body.Only Aside) : (invoke f body).Only Aside := by
  have hmark : f.area ≠ .process ∧ f.area ≠ .sockets ∧ f.area ≠ .identity ∧ f.area ≠ .execve := by
    cases f <;> simp [Fn.area]
  refine ⟨⟨hmark, fun r h => nomatch h⟩, fun _ => hbody.bind fun r => ?_⟩
  exact ⟨⟨hmark, fun r' h => hf (Call.leave.inj h).1⟩, fun _ => only_pure r⟩

theorem child_call {q : Call} {k : Answer q → Sys β} {Q : β → ChildSide → Prop}
    (hrule : childRule c q) (hk : ∀ r, wp childProtocol (k r) Q (c.after q r)) :
    wp childProtocol (sys q >>= k) Q c :=
  ⟨hrule, fun r c' h => by
    obtain ⟨-, rfl⟩ := h
    exact hk r⟩

theorem aside_nl {f : Fn} {body : Sys Int} (hf : f ≠ .containerStart)
    (hbody : Tidy nlAreas Status body) : (invoke f body).Only Aside :=
  aside_invoke hf (aside_of_areas hbody.only (by decide))

theorem aside_configureNetwork (config : ContainerConfig) : (configureNetwork config).Only Aside := by
  have hrename : ∀ name, (configureRename config name).Only Aside := fun name => by
    unfold configureRename
    cases config.vethTmp with
    | none => exact only_pure true
    | some tmp =>
      refine (aside_of_areas (pollInterface_tidy tmp 51 0).only (by decide)).bind fun waited => ?_
      split
      · exact only_pure false
      · exact (aside_nl (f := .nlRenameLink tmp name) nofun (nlRenameLink_tidy tmp name)).bind
          fun _ => only_pure _
  unfold configureNetwork
  split
  · rename_i name ip _ _
    refine (aside_nl (f := .nlSetUp loName) nofun (nlSetUp_tidy loName)).bind fun _ => ?_
    refine (hrename name).bind fun _ => ?_
    split
    · exact only_pure false
    refine (aside_nl (f := .nlAddAddr name ip) nofun (nlAddAddr_tidy name ip)).bind fun _ => ?_
    split
    · exact only_pure false
    refine (aside_nl (f := .nlSetUp name) nofun (nlSetUp_tidy name)).bind fun _ => ?_
    split
    · exact only_pure false
    cases config.hostIp with
    | none => exact only_pure true
    | some hostIp =>
      show Only _ (if _ then _ else _)
      split
      · exact only_pure false
      · refine Only.bind ?_ fun _ => only_pure true
        exact aside_nl nofun (nlAddRoute_tidy _ _ _)
  · exact only_pure true

/-- Until `user_namespace_init`, the child has done nothing at the socket. -/
structure Quiet (config : ContainerConfig) (c : ChildSide) : Prop where
  ends : ∃ a b, a ≠ b ∧ c.ends = ⟨some a, some b⟩ ∧ config.fd = b
  sent : c.sent = []
  heard : c.heard = []

/-- The child's half of the handshake ends well only after the child was let go. -/
theorem child_userNamespaceInit {config : ContainerConfig} (h : Quiet config c) :
    wp childProtocol (userNamespaceInit config.uid config.fd)
      (fun r c' => r < 0 ∨ goMessage ∈ c'.heard) c := by
  obtain ⟨a, b, hab, hends, hfd⟩ := h.ends
  have hfail : ∀ c : ChildSide, wp childProtocol (pure (-1) : Sys Int)
      (fun r c' => r < 0 ∨ goMessage ∈ c'.heard) c := fun c => .inl (by decide)
  have ha : c.ends.a ≠ some config.fd := by
    rw [hends, hfd]
    exact fun heq => hab (Option.some.inj heq)
  have hb : c.ends.b = some config.fd := by rw [hends, hfd]
  refine child_call trivial fun r => ?_
  cases r with
  | error e => exact hfail _
  | ok u =>
  refine child_call (c := { c with unshared := true }) ⟨ha, fun _ => rfl⟩ fun r => ?_
  cases r with
  | error e => exact hfail _
  | ok n =>
  have hwrote : ({ c with unshared := true } : ChildSide).after (.write config.fd (intBytes 0)) (.ok n) =
      { c with unshared := true, sent := [goMessage.take n] } := by
    simp only [ChildSide.after, hb, if_true, h.sent, List.nil_append]
    rfl
  rw [hwrote]
  dsimp only
  split
  · exact hfail _
  refine child_call ⟨ha, fun _ => ⟨List.cons_ne_nil _ _, h.heard⟩⟩ fun r => ?_
  cases r with
  | error e => exact hfail _
  | ok result =>
  have hread : ({ c with unshared := true, sent := [goMessage.take n] } : ChildSide).after
      (.read config.fd 4) (.ok result) =
      { c with unshared := true, sent := [goMessage.take n], heard := [result] } := by
    simp only [ChildSide.after, hb, if_true, h.heard, List.nil_append]
  rw [hread]
  dsimp only
  split
  · exact hfail _
  split
  · exact hfail _
  rename_i hresult
  obtain rfl : result = goMessage := not_not.mp hresult
  have hgo : goMessage ∈ [goMessage] := List.mem_singleton.mpr rfl
  refine child_call hgo fun r => ?_
  cases r with
  | error e => exact hfail _
  | ok u =>
  refine child_call hgo fun r => ?_
  cases r with
  | error e => exact hfail _
  | ok u => exact child_call trivial fun _ => .inr hgo

theorem child_fail (config : ContainerConfig) (fdClosed : Bool) :
    wp childProtocol (containerFail config fdClosed) (fun r c' => r = -1 ∨ c'.execed = true) c := by
  unfold containerFail
  split
  · exact child_call (q := .close config.fd) trivial fun _ => .inl rfl
  · exact .inl rfl

theorem child_invoke {f : Fn} {body : Sys Int} {Q : Int → ChildSide → Prop}
    (hf : f ≠ .containerStart) (h : wp childProtocol body Q c) :
    wp childProtocol (invoke f body) Q c := by
  have hleave : ∀ (c : ChildSide) r, childRule c (.leave f r) := by
    intro c r
    cases f with
    | containerStart => exact absurd rfl hf
    | _ => trivial
  exact child_call (q := .enter f) trivial fun _ => wp_seq h fun r c' h' =>
    child_call (q := .leave f r) (hleave c' r) fun _ => h'

/-- Stages 3 and 4. -/
theorem child_exec {config : ContainerConfig} (h : Quiet config c) :
    wp childProtocol (containerExec config) (fun r c' => r = -1 ∨ c'.execed = true) c := by
  refine wp_seq (child_invoke nofun (child_userNamespaceInit h)) fun r c₁ h₁ => ?_
  split
  · exact child_fail config false
  rename_i hr
  have hgo : goMessage ∈ c₁.heard := h₁.resolve_left hr
  refine wp_seq (child_invoke nofun (child_tidy secSetCaps_tidy
    (aside_of_areas secSetCaps_tidy.only (by decide)))) ?_
  rintro r c₂ ⟨rfl, -⟩
  split
  · exact child_fail config false
  refine wp_seq (child_invoke nofun (child_tidy secSetSeccomp_tidy
    (aside_of_areas secSetSeccomp_tidy.only (by decide)))) ?_
  rintro r c₂ ⟨rfl, -⟩
  split
  · exact child_fail config false
  refine child_call (q := .close config.fd) trivial fun r => ?_
  cases r with
  | error e => exact child_fail config false
  | ok u =>
    refine child_call (q := .execve config.cmd _) hgo fun r => ?_
    cases r with
    | error e => exact child_fail config true
    | ok u => exact .inr rfl

/-- The child follows its protocol. -/
theorem containerStart_child {config : ContainerConfig} (h : Quiet config c) :
    wp childProtocol (invoke .containerStart (containerStart config)) (fun _ _ => True) c := by
  have hbody : wp childProtocol (containerStart config) (fun r c' => r = -1 ∨ c'.execed = true) c := by
    refine wp_seq (child_tidy (containerHostname_tidy config)
      (aside_of_areas (containerHostname_tidy config).only (by decide))) ?_
    rintro b c₁ ⟨rfl, -⟩
    split
    · exact child_fail config false
    refine wp_seq (child_invoke nofun (child_tidy (mountSet_tidy config.mnt)
      (aside_of_areas (mountSet_tidy config.mnt).only (by decide)))) ?_
    rintro r c₁ ⟨rfl, -⟩
    split
    · exact child_fail config false
    refine wp_seq (child_tidy (configureNetwork_tidy config) (aside_configureNetwork config)) ?_
    rintro b c₁ ⟨rfl, -⟩
    split
    · exact child_fail config false
    refine wp_seq (child_tidy (configureDns_tidy config)
      (aside_of_areas (configureDns_tidy config).only (by decide))) ?_
    rintro - c₁ ⟨rfl, -⟩
    refine wp_seq (child_tidy enablePingDgram_tidy
      (aside_of_areas enablePingDgram_tidy.only (by decide))) ?_
    rintro r c₁ ⟨rfl, -⟩
    exact child_exec h
  exact child_call (q := .enter .containerStart) trivial fun _ => wp_seq hbody fun r c' h' =>
    child_call (q := .leave .containerStart r) h' fun _ => trivial

end Child

end Barco
