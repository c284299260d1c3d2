import Barco.Handshake

/-!
# What holds between the parent and the child

The two protocols together with the socket between them: `Agreed` ties what each side
has done, the messages under way and the life of the child, and every step keeps it.
`pair_reached` puts it together with the protocols for every reachable state.
-/

namespace Barco

open Effect Prog

/-! ## One direction of the socket -/

/-- The messages sent in one direction, those that wait, and what the reads gave. -/
structure Channel (sent inbox heard : List (List UInt8)) : Prop where
  waiting : ∀ m ∈ inbox, m ∈ sent
  taken : ∀ d ∈ heard, d = [] ∨ ∃ m ∈ sent, ∃ n, d = m.take n
  kept : sent ≠ [] → inbox ≠ [] ∨ heard ≠ []

namespace Channel

variable {sent inbox heard : List (List UInt8)}

theorem send (h : Channel sent inbox heard) (m : List UInt8) :
    Channel (sent ++ [m]) (inbox ++ [m]) heard := by
  refine ⟨fun d hd => ?_, fun d hd => ?_, fun _ => .inl (List.append_ne_nil_of_right_ne_nil _ nofun)⟩
  · rcases List.mem_append.mp hd with hd | hd
    · exact List.mem_append_left _ (h.waiting d hd)
    · exact List.mem_append_right _ hd
  · obtain rfl | ⟨m', hm, n, rfl⟩ := h.taken d hd
    · exact .inl rfl
    · exact .inr ⟨m', List.mem_append_left _ hm, n, rfl⟩

theorem receive {peer : Prop} {count : Nat} {d : List UInt8} (h : Channel sent inbox heard)
    (hr : World.Reads inbox peer count d) : Channel sent inbox.tail (heard ++ [d]) := by
  refine ⟨fun m hm => h.waiting m (List.mem_of_mem_tail hm), fun d' hd => ?_,
    fun _ => .inr (List.append_ne_nil_of_right_ne_nil _ nofun)⟩
  rcases List.mem_append.mp hd with hd | hd
  · exact h.taken d' hd
  · obtain rfl := List.mem_singleton.mp hd
    cases inbox with
    | nil => exact .inl hr.2
    | cons m inbox => exact .inr ⟨m, h.waiting m List.mem_cons_self, count, hr⟩

end Channel

/-! ## The parent's side -/

section Sides

variable {net : Prop} {p : ParentSide} {c : ChildSide}

/-- What the parent keeps to by itself. -/
structure ParentFacts (net : Prop) (p : ParentSide) : Prop where
  alone : p.pid = none → p.sent = [] ∧ p.heard = []
  form : ∀ m ∈ p.sent, ∃ n, m = goMessage.take n ∨ m = failMessage.take n
  once : p.sent.length ≤ 1
  go : goMessage ∈ p.sent → SetUp net p
  killed : p.killed = true → goMessage ∉ p.sent
  written : p.written ≠ [] → goMessage ∈ p.heard
  mapped : ∀ r, p.mapped = some r → r = 0 ∧ goMessage ∈ p.sent ∨ r = -1 ∧ goMessage ∉ p.sent

theorem ParentFacts.start : ParentFacts net .start :=
  ⟨fun _ => ⟨rfl, rfl⟩, nofun, Nat.zero_le 1, nofun, nofun, fun h => absurd rfl h, nofun⟩

/-- Descriptors play no part in them. -/
theorem ParentFacts.same (h : ParentFacts net p) (ends : Ends) (files : Int → Option IdFile) :
    ParentFacts net { p with ends, files } :=
  ⟨h.alone, h.form, h.once, fun hgo => ⟨(h.go hgo).written, (h.go hgo).cgroup, (h.go hgo).moved⟩,
    h.killed, h.written, h.mapped⟩

/-- The one message. -/
theorem ParentFacts.sends {data : List UInt8} (h : ParentFacts net p) (hpid : p.pid ≠ none)
    (hsent : p.sent = []) (hmapped : p.mapped = none) (hkilled : p.killed = false)
    (hdata : data = failMessage ∨ data = goMessage ∧ SetUp net p) (n : Nat) :
    ParentFacts net { p with sent := p.sent ++ [data.take n] } := by
  rw [hsent, List.nil_append]
  refine ⟨fun hp => absurd hp hpid, fun m hm => ⟨n, ?_⟩, Nat.le_refl 1, fun hgo => ?_,
    fun hk => absurd (hkilled.symm.trans hk) (by decide), h.written,
    fun r hr => nomatch hmapped.symm.trans hr⟩
  · obtain rfl := List.mem_singleton.mp hm
    exact hdata.elim (fun hf => .inr (hf ▸ rfl)) fun hg => .inl (hg.1 ▸ rfl)
  · obtain rfl | ⟨-, hset⟩ := hdata
    · exact absurd (List.mem_singleton.mp hgo) (failMessage_take_ne n)
    · exact ⟨hset.written, hset.cgroup, hset.moved⟩

theorem wrote_frame (p : ParentSide) (fd : Int) (data : List UInt8) :
    ∃ w, p.wrote fd data = { p with written := w } := by
  unfold ParentSide.wrote
  split
  · exact ⟨_, rfl⟩
  · exact ⟨p.written, rfl⟩

theorem ParentFacts.wrote {fd : Int} {data : List UInt8} (h : ParentFacts net p)
    (hrule : p.files fd ≠ none → goMessage ∈ p.heard ∧ p.sent = []) :
    ParentFacts net (p.wrote fd data) := by
  unfold ParentSide.wrote
  split
  · rename_i file hfile
    obtain ⟨hheard, hsent⟩ := hrule (by rw [hfile]; exact nofun)
    exact ⟨h.alone, h.form, h.once, fun hgo => absurd (hsent ▸ hgo) List.not_mem_nil, h.killed,
      fun _ => hheard, h.mapped⟩
  · exact h

/-- The parent's protocol keeps them. -/
theorem ParentFacts.after {call : Call} (h : ParentFacts net p) (hrule : parentRule net p call)
    (r : Answer call) : ParentFacts net (p.after call r) := by
  have hgo : ∀ hm : goMessage ∈ p.sent, p.written = idWrites ∧ p.cgroup = true ∧
      (net → p.moved = true) := fun hm => ⟨(h.go hm).written, (h.go hm).cgroup, (h.go hm).moved⟩
  cases call with
  | socketpair =>
    cases r with
    | error e => exact h
    | ok ends => exact h.same _ _
  | «open» path mode =>
    cases r with
    | error e => exact h
    | ok n => exact h.same _ _
  | close fd => exact h.same _ _
  | write fd data =>
    cases r with
    | error e => exact h
    | ok n =>
      obtain ⟨-, hfile, hsend⟩ := hrule
      show ParentFacts net (if _ then _ else if _ then _ else _)
      split
      · obtain ⟨hpid, hsent, hmapped, hkilled, hdata⟩ := hsend ‹_›
        exact h.sends hpid hsent hmapped hkilled hdata n
      · split
        · exact h.wrote hfile
        · exact h
  | dprintf fd data =>
    cases r with
    | error e => exact h
    | ok n => exact h.wrote hrule
  | read fd count =>
    cases r with
    | error e => exact h
    | ok data =>
      show ParentFacts net (if _ then _ else _)
      split
      · obtain ⟨hpid, -, hsent⟩ := hrule.2 ‹_›
        exact ⟨fun hp => absurd hp hpid, h.form, h.once, fun hm => absurd (hsent ▸ hm)
          List.not_mem_nil, h.killed, fun hw => List.mem_append_left _ (h.written hw), h.mapped⟩
      · exact h
  | clone flags config =>
    cases r with
    | error e => exact h
    | ok pid => exact ⟨nofun, h.form, h.once, fun hm => ⟨(hgo hm).1, (hgo hm).2.1, (hgo hm).2.2⟩,
        h.killed, h.written, h.mapped⟩
  | kill pid sig =>
    cases r with
    | error e => exact h
    | ok u =>
      show ParentFacts net (if _ then _ else _)
      split
      · rename_i hsig
        exact ⟨h.alone, h.form, h.once, fun hm => ⟨(hgo hm).1, (hgo hm).2.1, (hgo hm).2.2⟩,
          fun _ => hrule.2.2 hsig.2, h.written, h.mapped⟩
      · exact h
  | waitpid pid =>
    cases r with
    | error e => exact h
    | ok w =>
      show ParentFacts net (if _ then _ else _)
      split
      · exact ⟨h.alone, h.form, h.once, fun hm => ⟨(hgo hm).1, (hgo hm).2.1, (hgo hm).2.2⟩,
          h.killed, h.written, h.mapped⟩
      · exact h
  | leave f code =>
    cases f with
    | cgroupsInit hostname pid => exact ⟨h.alone, h.form, h.once, fun hm => ⟨(hgo hm).1, rfl,
        (hgo hm).2.2⟩, h.killed, h.written, h.mapped⟩
    | nlMoveToNs ifname nsFd =>
      show ParentFacts net (if _ then _ else _)
      split
      · exact ⟨h.alone, h.form, h.once, fun hm => ⟨(hgo hm).1, (hgo hm).2.1, fun _ => rfl⟩,
          h.killed, h.written, h.mapped⟩
      · exact h
    | prepareMappings pid fd => exact ⟨h.alone, h.form, h.once, fun hm => ⟨(hgo hm).1,
        (hgo hm).2.1, (hgo hm).2.2⟩, h.killed, h.written, fun r hr => Option.some.inj hr ▸ hrule.2⟩
    | _ => exact h
  | _ => exact h

/-! ## The child's side -/

/-- What the child keeps to by itself. -/
structure ChildFacts (c : ChildSide) : Prop where
  executed : c.execed = true → goMessage ∈ c.heard
  unshared : c.sent ≠ [] → c.unshared = true

theorem ChildFacts.start (ends : Ends) : ChildFacts (.start ends) :=
  ⟨nofun, fun h => absurd rfl h⟩

/-- The child's protocol keeps them. -/
theorem ChildFacts.after {call : Call} (h : ChildFacts c) (hrule : childRule c call)
    (r : Answer call) : ChildFacts (c.after call r) := by
  cases call with
  | close fd => exact ⟨h.executed, h.unshared⟩
  | write fd data =>
    cases r with
    | error e => exact h
    | ok n =>
      show ChildFacts (if _ then _ else _)
      split
      · exact ⟨h.executed, fun _ => hrule.2 ‹_›⟩
      · exact h
  | read fd count =>
    cases r with
    | error e => exact h
    | ok data =>
      show ChildFacts (if _ then _ else _)
      split
      · exact ⟨fun he => List.mem_append_left _ (h.executed he), h.unshared⟩
      · exact h
  | unshare flags =>
    cases r with
    | error e => exact h
    | ok u => exact ⟨h.executed, fun _ => rfl⟩
  | execve path argv =>
    cases r with
    | error e => exact h
    | ok u => exact ⟨fun _ => hrule, h.unshared⟩
  | _ => exact h

end Sides

/-! ## The child's life -/

/-- How a child can have ended: it fails before `execve` only with a nonzero code. -/
inductive Terminated (execed : Bool) : WaitStatus → Prop
  | exited {code : Nat} : code < 256 → (execed = false → code ≠ 0) →
      Terminated execed (.exited code)
  | signaled {sig : Nat} : 1 ≤ sig → sig ≤ 64 → Terminated execed (.signaled sig)

/-- What the parent knows of the child, against the child's life. -/
inductive Lives : Option Nat → Option WaitStatus → Bool → Life → Prop
  | unborn : Lives none none false .unborn
  | starting (pid : Nat) : Lives (some pid) none false .starting
  | running (pid : Nat) : Lives (some pid) none true .running
  | zombie (pid : Nat) {execed : Bool} {status : WaitStatus} : Terminated execed status →
      Lives (some pid) none execed (.zombie status)
  | reaped (pid : Nat) {execed : Bool} {status : WaitStatus} : Terminated execed status →
      Lives (some pid) (some status) execed (.reaped status)

/-- A child that the parent has not waited for is there to be killed and waited for. -/
theorem Lives.unreaped {pid : Nat} {execed : Bool} {life : Life}
    (h : Lives (some pid) none execed life) :
    life = .starting ∨ life = .running ∨ ∃ status, life = .zombie status := by
  cases h with
  | starting => exact .inl rfl
  | running => exact .inr (.inl rfl)
  | zombie _ hst => exact .inr (.inr ⟨_, rfl⟩)

/-- What a child that has not ended says about its parent and about itself. -/
theorem Lives.alive {pid : Option Nat} {status : Option WaitStatus} {execed : Bool} {life : Life}
    (h : Lives pid status execed life) (hlife : life = .starting ∨ life = .running) :
    (∃ n, pid = some n) ∧ status = none ∧ (life = .starting → execed = false) ∧
      (life = .running → execed = true) := by
  cases h with
  | starting n => exact ⟨⟨n, rfl⟩, rfl, fun _ => rfl, nofun⟩
  | running n => exact ⟨⟨n, rfl⟩, rfl, nofun, fun _ => rfl⟩
  | unborn => exact hlife.elim nofun nofun
  | zombie => exact hlife.elim nofun nofun
  | reaped => exact hlife.elim nofun nofun

theorem Lives.status_of_none {status : Option WaitStatus} {execed : Bool} {life : Life}
    (h : Lives none status execed life) : status = none := by
  cases h
  rfl

theorem Lives.terminated {pid : Option Nat} {known : Option WaitStatus} {execed : Bool}
    {status : WaitStatus} (h : Lives pid known execed (.zombie status)) :
    Terminated execed status := by
  cases h with
  | zombie _ hst => exact hst

/-! ## Both together -/

/-- The invariant of the pair. -/
structure Agreed (net : Prop) (s : World) : Prop where
  parent : ParentFacts net s.parent
  child : ChildFacts s.child
  asked : Channel s.child.sent s.toParent s.parent.heard
  answered : Channel s.parent.sent s.toChild s.child.heard
  lives : Lives s.parent.pid s.parent.status s.child.execed s.life
  quiet : s.parent.pid = none → s.child.sent = []

section Together

variable {net : Prop} {s : World}

theorem Agreed.start : Agreed net .start :=
  ⟨.start, .start .none, ⟨nofun, nofun, fun h => absurd rfl h⟩,
    ⟨nofun, nofun, fun h => absurd rfl h⟩, .unborn, fun _ => rfl⟩

/-- What is told about the parent stays true as long as it tells the same. -/
theorem Agreed.withParent (h : Agreed net s) {p : ParentSide} (hp : ParentFacts net p)
    (hpid : p.pid = s.parent.pid) (hstatus : p.status = s.parent.status)
    (hsent : p.sent = s.parent.sent) (hheard : p.heard = s.parent.heard) :
    Agreed net { s with parent := p } := by
  refine ⟨hp, h.child, ?_, ?_, ?_, fun hnone => h.quiet (hpid.symm.trans hnone)⟩
  · rw [hheard]
    exact h.asked
  · rw [hsent]
    exact h.answered
  · rw [hpid, hstatus]
    exact h.lives

theorem Agreed.withChild (h : Agreed net s) {c : ChildSide} (hc : ChildFacts c)
    (hsent : c.sent = s.child.sent) (hheard : c.heard = s.child.heard)
    (hexeced : c.execed = s.child.execed) : Agreed net { s with child := c } := by
  refine ⟨h.parent, hc, ?_, ?_, ?_, fun hnone => hsent.trans (h.quiet hnone)⟩
  · rw [hsent]
    exact h.asked
  · rw [hheard]
    exact h.answered
  · rw [hexeced]
    exact h.lives

/-- The child has been let go: the parent has said so, and everything is set up. -/
theorem Agreed.released (h : Agreed net s) (hgo : goMessage ∈ s.child.heard) :
    goMessage ∈ s.parent.sent := by
  obtain hnil | ⟨m, hm, n, htake⟩ := h.answered.taken _ hgo
  · exact absurd hnil (by decide)
  obtain ⟨k, rfl | rfl⟩ := h.parent.form m hm
  · rw [List.take_take] at htake
    have hlen := congrArg List.length htake
    rw [List.length_take] at hlen
    have hfour : goMessage.length = 4 := rfl
    have hk : 4 ≤ k := by omega
    rwa [List.take_of_length_le (by omega)] at hm
  · rw [List.take_take] at htake
    exact absurd htake (failMessage_take_ne _)

/-- A parent that has heard the child's message knows that it has unshared. -/
theorem Agreed.unshared (h : Agreed net s) (hgo : goMessage ∈ s.parent.heard) :
    s.child.unshared = true := by
  obtain hnil | ⟨m, hm, -⟩ := h.asked.taken _ hgo
  · exact absurd hnil (by decide)
  · exact h.child.unshared (List.ne_nil_of_mem hm)

/-! ### A step of the parent -/

/-- The answers of the kernel are those the parent counts on. -/
theorem Agreed.hears {c : Call} {r : Answer c} (h : Agreed net s) (hans : s.parentAnswers c r) :
    s.parent.hears c r := by
  have hunreaped : ∀ pid, s.parent.pid = some pid → s.parent.status = none →
      s.Unreaped pid := by
    intro pid hpid hstatus
    have hlives := h.lives
    rw [hpid, hstatus] at hlives
    exact ⟨hpid, hlives.unreaped⟩
  cases c with
  | socketpair =>
    cases r with
    | error e => trivial
    | ok ends => exact hans
  | socketNetlink =>
    cases r with
    | error e => trivial
    | ok n => exact hans
  | «open» path mode =>
    cases r with
    | error e => trivial
    | ok n => exact hans
  | write fd data =>
    cases r with
    | error e => trivial
    | ok n => exact hans
  | kill pid sig => exact fun hpid hstatus => hans (hunreaped pid hpid hstatus)
  | waitpid pid =>
    cases r with
    | error e => exact fun hpid hstatus => hans (hunreaped pid hpid hstatus)
    | ok w => exact hans.2.1
  | _ => trivial

theorem parentAfter_parent (s : World) (c : Call) (r : Answer c) :
    (s.parentAfter c r).parent = s.parent.after c r := by
  cases c with
  | clone flags config => cases r <;> rfl
  | waitpid pid => cases r <;> rfl
  | _ => rfl

theorem Agreed.parentWrite {fd : Int} {data : List UInt8} {n : Nat} (h : Agreed net s)
    (hrule : parentRule net s.parent (.write fd data)) :
    Agreed net (s.parentAfter (.write fd data) (.ok n)) := by
  have hp := h.parent.after hrule (.ok n)
  by_cases ha : s.parent.ends.a = some fd
  · have heq : s.parentAfter (.write fd data) (.ok n) = { s with
        parent := { s.parent with sent := s.parent.sent ++ [data.take n] }
        toChild := s.toChild ++ [data.take n] } := by
      simp [World.parentAfter, World.carried, ParentSide.after, ha, hrule.1]
    have hafter : s.parent.after (.write fd data) (.ok n) =
        { s.parent with sent := s.parent.sent ++ [data.take n] } := if_pos ha
    rw [hafter] at hp
    rw [heq]
    exact ⟨hp, h.child, h.asked, h.answered.send _, h.lives, h.quiet⟩
  · obtain ⟨w, hafter⟩ : ∃ w, s.parent.after (.write fd data) (.ok n) =
        { s.parent with written := w } := by
      simp only [ParentSide.after, if_neg ha]
      split
      · exact wrote_frame _ fd data
      · exact ⟨s.parent.written, rfl⟩
    have heq : s.parentAfter (.write fd data) (.ok n) =
        { s with parent := { s.parent with written := w } } := by
      simp [World.parentAfter, World.carried, hafter, ha, hrule.1]
    rw [hafter] at hp
    rw [heq]
    exact h.withParent hp rfl rfl rfl rfl

theorem Agreed.parentRead {fd : Int} {count : Nat} {data : List UInt8} (h : Agreed net s)
    (hrule : parentRule net s.parent (.read fd count))
    (hans : s.answers s.parent.ends (.read fd count) (.ok data)) :
    Agreed net (s.parentAfter (.read fd count) (.ok data)) := by
  have hp := h.parent.after hrule (.ok data)
  by_cases ha : s.parent.ends.a = some fd
  · have heq : s.parentAfter (.read fd count) (.ok data) = { s with
        parent := { s.parent with heard := s.parent.heard ++ [data] }
        toParent := s.toParent.tail } := by
      simp [World.parentAfter, World.carried, ParentSide.after, ha, hrule.1]
    have hafter : s.parent.after (.read fd count) (.ok data) =
        { s.parent with heard := s.parent.heard ++ [data] } := if_pos ha
    rw [hafter] at hp
    rw [heq]
    exact ⟨hp, h.child, h.asked.receive (hans.1 ha), h.answered, h.lives, h.quiet⟩
  · have heq : s.parentAfter (.read fd count) (.ok data) = s := by
      simp [World.parentAfter, World.carried, ParentSide.after, ha, hrule.1]
    rw [heq]
    exact h

/-- A step of the parent that its protocol allows. -/
theorem Agreed.parentStep {c : Call} {r : Answer c} (h : Agreed net s)
    (hrule : parentRule net s.parent c) (hans : s.parentAnswers c r) :
    Agreed net (s.parentAfter c r) := by
  have hp := h.parent.after hrule r
  cases c with
  | socketpair =>
    cases r with
    | error e => exact h
    | ok ends => exact h.withParent hp rfl rfl rfl rfl
  | «open» path mode =>
    cases r with
    | error e => exact h
    | ok n => exact h.withParent hp rfl rfl rfl rfl
  | close fd => exact h.withParent hp rfl rfl rfl rfl
  | write fd data =>
    cases r with
    | error e => exact h
    | ok n => exact h.parentWrite hrule
  | dprintf fd data =>
    cases r with
    | error e => exact h
    | ok n =>
      obtain ⟨w, hw⟩ := wrote_frame s.parent fd data
      have hafter : s.parent.after (.dprintf fd data) (.ok n) =
          { s.parent with written := w } := hw
      refine h.withParent hp ?_ ?_ ?_ ?_ <;> rw [hafter]
  | read fd count =>
    cases r with
    | error e => exact h
    | ok data => exact h.parentRead hrule hans
  | clone flags config =>
    cases r with
    | error e => exact h
    | ok pid =>
      obtain ⟨hsent, hheard⟩ := h.parent.alone hrule.1
      have hstatus : s.parent.status = none := (hrule.1 ▸ h.lives).status_of_none
      refine ⟨hp, .start _, ⟨fun m hm => ?_, ?_, fun hne => absurd rfl hne⟩,
        ⟨h.answered.waiting, nofun, fun hne => absurd hsent hne⟩, ?_, nofun⟩
      · exact absurd (h.quiet hrule.1 ▸ h.asked.waiting m hm) List.not_mem_nil
      · show ∀ d ∈ s.parent.heard, _
        rw [hheard]
        exact nofun
      · show Lives (some pid) s.parent.status false .starting
        rw [hstatus]
        exact .starting pid
  | kill pid sig =>
    cases r with
    | error e => exact h
    | ok u =>
      refine h.withParent hp ?_ ?_ ?_ ?_
      all_goals
        simp only [ParentSide.after]
        split <;> rfl
  | waitpid pid =>
    cases r with
    | error e => exact h
    | ok w =>
      obtain ⟨w, status⟩ := w
      obtain ⟨hpid, -, hlife⟩ := hans
      have hafter : s.parent.after (.waitpid pid) (.ok (w, status)) =
          { s.parent with status := some status } := if_pos hpid
      have heq : s.parentAfter (.waitpid pid) (.ok (w, status)) = { s with
          parent := { s.parent with status := some status }, life := .reaped status } := by
        simp [World.parentAfter, World.carried, ParentSide.after, hpid]
      rw [hafter] at hp
      rw [heq]
      refine ⟨hp, h.child, h.asked, h.answered, ?_, h.quiet⟩
      show Lives s.parent.pid (some status) s.child.execed (.reaped status)
      rw [hpid]
      exact .reaped pid (hlife ▸ h.lives).terminated
  | leave f code =>
    cases f with
    | cgroupsInit hostname pid => exact h.withParent hp rfl rfl rfl rfl
    | nlMoveToNs ifname nsFd =>
      refine h.withParent hp ?_ ?_ ?_ ?_
      all_goals
        simp only [ParentSide.after]
        split <;> rfl
    | prepareMappings pid fd => exact h.withParent hp rfl rfl rfl rfl
    | _ => exact h
  | _ => exact h

/-! ### A step of the child -/

/-- A child ends: its descriptors are closed, and the parent has yet to wait for it. -/
theorem Agreed.exits {status : WaitStatus} (h : Agreed net s)
    (hlife : s.life = .starting ∨ s.life = .running)
    (hst : Terminated s.child.execed status) : Agreed net (s.exit status) := by
  refine ⟨h.parent, ⟨h.child.executed, h.child.unshared⟩, h.asked, h.answered, ?_, h.quiet⟩
  obtain ⟨⟨pid, hpid⟩, hstatus, -⟩ := h.lives.alive hlife
  show Lives s.parent.pid s.parent.status s.child.execed (.zombie status)
  rw [hpid, hstatus]
  exact .zombie pid hst

theorem Agreed.childWrite {fd : Int} {data : List UInt8} {n : Nat} (h : Agreed net s)
    (hlife : s.life = .starting) (hrule : childRule s.child (.write fd data)) :
    Agreed net (s.childAfter (.write fd data) (.ok n)) := by
  have hc := h.child.after hrule (.ok n)
  by_cases hb : s.child.ends.b = some fd
  · have heq : s.childAfter (.write fd data) (.ok n) = { s with
        child := { s.child with sent := s.child.sent ++ [data.take n] }
        toParent := s.toParent ++ [data.take n] } := by
      simp [World.childAfter, World.carried, ChildSide.after, hb, hrule.1]
    have hafter : s.child.after (.write fd data) (.ok n) =
        { s.child with sent := s.child.sent ++ [data.take n] } := if_pos hb
    rw [hafter] at hc
    rw [heq]
    obtain ⟨pid, hpid⟩ := (h.lives.alive (.inl hlife)).1
    exact ⟨h.parent, hc, h.asked.send _, h.answered, h.lives,
      fun hnone => absurd (hpid.symm.trans hnone) (Option.some_ne_none _)⟩
  · have heq : s.childAfter (.write fd data) (.ok n) = s := by
      simp [World.childAfter, World.carried, ChildSide.after, hb, hrule.1]
    rw [heq]
    exact h

theorem Agreed.childRead {fd : Int} {count : Nat} {data : List UInt8} (h : Agreed net s)
    (hrule : childRule s.child (.read fd count))
    (hans : s.answers s.child.ends (.read fd count) (.ok data)) :
    Agreed net (s.childAfter (.read fd count) (.ok data)) := by
  have hc := h.child.after hrule (.ok data)
  by_cases hb : s.child.ends.b = some fd
  · have heq : s.childAfter (.read fd count) (.ok data) = { s with
        child := { s.child with heard := s.child.heard ++ [data] }
        toChild := s.toChild.tail } := by
      simp [World.childAfter, World.carried, ChildSide.after, hb, hrule.1]
    have hafter : s.child.after (.read fd count) (.ok data) =
        { s.child with heard := s.child.heard ++ [data] } := if_pos hb
    rw [hafter] at hc
    rw [heq]
    exact ⟨h.parent, hc, h.asked, h.answered.receive (hans.2 hb), h.lives, h.quiet⟩
  · have heq : s.childAfter (.read fd count) (.ok data) = s := by
      simp [World.childAfter, World.carried, ChildSide.after, hb, hrule.1]
    rw [heq]
    exact h

/-- A step of the child that its protocol allows. -/
theorem Agreed.childStep {c : Call} {r : Answer c} (h : Agreed net s)
    (hlife : s.life = .starting) (hrule : childRule s.child c)
    (hans : s.answers s.child.ends c r) : Agreed net (s.childAfter c r) := by
  have hc := h.child.after hrule r
  obtain ⟨⟨pid, hpid⟩, hstatus, hstarting, -⟩ := h.lives.alive (.inl hlife)
  cases c with
  | close fd => exact h.withChild hc rfl rfl rfl
  | write fd data =>
    cases r with
    | error e => exact h
    | ok n => exact h.childWrite hlife hrule
  | read fd count =>
    cases r with
    | error e => exact h
    | ok data => exact h.childRead hrule hans
  | unshare flags =>
    cases r with
    | error e => exact h
    | ok u => exact h.withChild hc rfl rfl rfl
  | execve path argv =>
    cases r with
    | error e => exact h
    | ok u =>
      refine ⟨h.parent, hc, h.asked, h.answered, ?_, h.quiet⟩
      show Lives s.parent.pid s.parent.status true .running
      rw [hpid, hstatus]
      exact .running pid
  | clone flags config => exact hrule.elim
  | kill pid sig => exact hrule.elim
  | waitpid pid => exact hrule.elim
  | socketpair => exact hrule.elim
  | leave f code =>
    cases f with
    | containerStart =>
      -- a failure is the code 255
      obtain rfl : code = -1 := hrule.resolve_right fun he => by
        rw [hstarting hlife] at he
        exact nomatch he
      exact h.exits (.inl hlife) (.exited (by decide) fun _ => by decide)
    | _ => exact h
  | _ => exact h

/-! ### A step of the environment -/

theorem Agreed.env {s' : World} (h : Agreed net s) (hs : World.Env s s') : Agreed net s' := by
  cases hs with
  | signal hlife hpos hle => exact h.exits hlife (.signaled hpos hle)
  | @exit code hlife hcode =>
    refine h.exits (.inr hlife) (.exited hcode fun hexeced => ?_)
    rw [(h.lives.alive (.inr hlife)).2.2.2 hlife] at hexeced
    exact nomatch hexeced

end Together

/-! ## The pair -/

/-- The local rules of the two roles. -/
def pairProtocol (net : Prop) : Role → Machine Call Answer (ParentSide × ChildSide)
  | .parent => (parentProtocol net).comap Prod.fst
  | .child => childProtocol.comap Prod.snd

def pairPost (help : Prop) : Role → Int → ParentSide × ChildSide → Prop
  | .parent, r, l => Ended help l.1 r
  | .child, _, _ => True

/-- The invariant, and what each role knows of its own side. -/
def Knows (net : Prop) (s : World) (l : Role → ParentSide × ChildSide) : Prop :=
  Agreed net s ∧ (l .parent).1 = s.parent ∧ (s.life = .starting → (l .child).2 = s.child)

section Pair

variable {net help : Prop}

theorem answers_opens {s : World} {e : Ends} {c : Call} {r : Answer c} (h : s.answers e c r) :
    e.Opens c r := by
  cases c with
  | socketNetlink =>
    cases r with
    | error e => trivial
    | ok n => exact h
  | «open» path mode =>
    cases r with
    | error e => trivial
    | ok n => exact h
  | _ => trivial

theorem childAfter_parent (s : World) (c : Call) (r : Answer c) :
    (s.childAfter c r).parent = s.parent := by
  cases c with
  | execve path argv => cases r <;> rfl
  | write fd data => cases r <;> rfl
  | read fd count => cases r <;> rfl
  | leave f code => cases f <;> rfl
  | _ => rfl

/-- The child's record is what its own side says, until it ends. -/
theorem childAfter_child {s : World} {c : Call} {r : Answer c}
    (hlife : (s.childAfter c r).life = .starting) :
    (s.childAfter c r).child = s.child.after c r := by
  cases c with
  | execve path argv => cases r <;> rfl
  | leave f code =>
    cases f with
    | containerStart => exact nomatch hlife
    | _ => rfl
  | _ => rfl

/-- Only a clone gives the parent another child. -/
theorem parentAfter_child {s : World} {c : Call} {r : Answer c}
    (hspawn : pairHost.spawn .parent c r .child = none) :
    (s.parentAfter c r).child = s.child ∧
      ((s.parentAfter c r).life = .starting → s.life = .starting) := by
  cases c with
  | clone flags config =>
    cases r with
    | error e => exact ⟨rfl, id⟩
    | ok pid => exact nomatch hspawn
  | waitpid pid =>
    cases r with
    | error e => exact ⟨rfl, id⟩
    | ok w => exact ⟨rfl, nofun⟩
  | write fd data => cases r <;> exact ⟨rfl, id⟩
  | read fd count => cases r <;> exact ⟨rfl, id⟩
  | _ => exact ⟨rfl, id⟩

theorem pair_simulates : pairHost.Simulates (pairProtocol net) (pairPost help) (Knows net) := by
  refine ⟨@fun s l i c r s' hK hmay hcall => ?_, @fun s l s' hK henv => ?_⟩
  · obtain ⟨hagreed, hparent, hchild⟩ := hK
    cases i with
    | parent =>
      obtain ⟨hans, rfl⟩ := hcall
      have hrule : parentRule net s.parent c := hparent ▸ hmay
      have hnext := hagreed.parentStep hrule hans
      have hstep : (parentProtocol net).step (l .parent).1 c r (s.parentAfter c r).parent := by
        rw [hparent]
        exact ⟨hagreed.hears hans, parentAfter_parent s c r⟩
      cases hspawn : pairHost.spawn .parent c r .child with
      | none =>
        obtain ⟨hsame, hlife⟩ := parentAfter_child (s := s) hspawn
        refine ⟨fun | .parent => ((s.parentAfter c r).parent, (l .parent).2) | .child => l .child,
          ⟨hnext, rfl, fun h => (hchild (hlife h)).trans hsame.symm⟩, hstep, fun j hj => ?_⟩
        cases j with
        | parent => exact absurd rfl hj
        | child =>
          rw [hspawn]
      | some q =>
        refine ⟨fun
            | .parent => ((s.parentAfter c r).parent, (l .parent).2)
            | .child => ((l .child).1, (s.parentAfter c r).child),
          ⟨hnext, rfl, fun _ => rfl⟩, hstep, fun j hj => ?_⟩
        cases j with
        | parent => exact absurd rfl hj
        | child =>
          rw [hspawn]
          cases c with
          | clone flags config =>
            cases r with
            | error e => exact nomatch hspawn
            | ok pid =>
              obtain rfl := Option.some.inj hspawn
              obtain ⟨-, a, b, hab, hends, hfd⟩ := hrule
              exact wp_mono (wp_comap (containerStart_child
                ⟨⟨a, b, hab, hends, hfd⟩, rfl, rfl⟩)) fun _ _ _ => trivial
          | _ => exact nomatch hspawn
    | child =>
      obtain ⟨hlife, hans, rfl⟩ := hcall
      have hrule : childRule s.child c := hchild hlife ▸ hmay
      refine ⟨fun | .parent => l .parent | .child => ((l .child).1, s.child.after c r),
        ⟨hagreed.childStep hlife hrule hans, hparent.trans (childAfter_parent s c r).symm,
          fun h => (childAfter_child h).symm⟩, ?_, fun j hj => ?_⟩
      · show childProtocol.step (l .child).2 c r (s.child.after c r)
        rw [hchild hlife]
        exact ⟨answers_opens hans, rfl⟩
      · cases j with
        | parent => rfl
        | child => exact absurd rfl hj
  · obtain ⟨hagreed, hparent, -⟩ := hK
    refine ⟨hagreed.env henv, ?_, ?_⟩
    · cases henv <;> exact hparent
    · cases henv <;> exact nofun

/-- What holds in a state the pair can reach. -/
structure Reached (net help : Prop) (g : Global Role Call Answer Int World) : Prop where
  agreed : Agreed net g.kern
  parentCall : ∀ c k, g.prog .parent = .call c k → parentRule net g.kern.parent c
  parentRet : ∀ r, g.prog .parent = .ret r → Ended help g.kern.parent r
  childCall : g.kern.life = .starting → ∀ c k, g.prog .child = .call c k →
    childRule g.kern.child c

theorem pair_reached {retries : Nat} {args : Args} {g : Global Role Call Answer Int World}
    (h : pairHost.Reachable (pairStart retries args) g) :
    Reached (Networking args) (args.errors = false ∧ args.help = true) g := by
  have hstart : Knows (Networking args) World.start fun _ => (.start, .start .none) :=
    ⟨.start, rfl, fun h => nomatch (h : Life.unborn = .starting)⟩
  have hprog : ∀ i, ((pairStart retries args).prog i).wp (pairProtocol (Networking args) i)
      (pairPost (args.errors = false ∧ args.help = true) i) (.start, .start .none) := by
    intro i
    cases i with
    | parent =>
      have hmain : wp (parentProtocol (Networking args)) (main retries args)
          (fun r p => Ended (args.errors = false ∧ args.help = true) p r)
          (Prod.fst (ParentSide.start, ChildSide.start .none)) := main_parent retries args
      exact wp_comap hmain
    | child => exact trivial
  obtain ⟨l, ⟨hagreed, hparent, hchild⟩, hp⟩ := pair_simulates.reachable_inv _ hstart hprog h
  have hmain := hp .parent
  have hcontainer := hp .child
  refine ⟨hagreed, fun c k hk => ?_, fun r hr => ?_, fun hlife c k hk => ?_⟩
  · rw [hk] at hmain
    exact hparent ▸ hmain.1
  · rw [hr] at hmain
    exact hparent ▸ hmain
  · rw [hk] at hcontainer
    exact hchild hlife ▸ hcontainer.1

end Pair

end Barco
