import Barco.GroupLimits
import Barco.Linux.ControlGroup
import Barco.Linux.IdMap
import Barco.Outcome

/-!
# Runs that share a control group

Any number of runs of `main` over one hierarchy of control groups, one call at a time and
in any order. All of them use the directory `barcontainer`.

What is assumed of the kernel: `mkdir` fails exactly on a directory that exists, `rmdir`
exactly where there is none or where a process lives in it, a write to a control file is
made as a whole, and `clone` gives out a number that no process has. Any other call may
fail in any way, and a container may end at any step.

1. `KeepsApart`: what the runs owe each other.
2. `Considerate`: the calls that do not interfere.
3. `isolation_iff`: the runs are kept apart exactly as long as every call is considerate.
4. `runs_interfere`: a run that fails early removes the directory of another.
-/

namespace Barco

open Effect Prog ControlGroup


/-! ## Process ids as text -/

/-- The byte of a decimal digit. -/
def digitByte (d : Nat) : UInt8 := (Nat.digitChar d).toNat.toUInt8

theorem digitByte_bounds {d : Nat} (h : d < 10) :
    (48 ≤ digitByte d && digitByte d ≤ 57) = true ∧ (digitByte d).toNat - 48 = d := by
  have hall : ∀ d : Fin 10, (48 ≤ digitByte d && digitByte d ≤ 57) = true ∧
      (digitByte d).toNat - 48 = d := by decide
  exact hall ⟨d, h⟩

theorem pidBytes_step (pid : Nat) : pidBytes pid =
    if pid < 10 then [digitByte pid] else pidBytes (pid / 10) ++ [digitByte (pid % 10)] := by
  unfold pidBytes
  rw [Nat.toDigits_eq_if (by decide)]
  split
  · rfl
  · rw [List.map_append]
    rfl

/-- The text of a process id is read as that id. -/
theorem number_pidBytes (pid : Nat) : UserNs.number (pidBytes pid) = some pid := by
  have hread : ∀ pid, pidBytes pid ≠ [] ∧
      (pidBytes pid).all (fun d => 48 ≤ d && d ≤ 57) = true ∧
      (pidBytes pid).foldl (fun n d => n * 10 + (d.toNat - 48)) 0 = pid := by
    intro pid
    induction pid using Nat.strongRecOn with
    | ind pid ih =>
      rw [pidBytes_step]
      split
      · obtain ⟨hdigit, hvalue⟩ := digitByte_bounds ‹_›
        refine ⟨List.cons_ne_nil _ _, ?_, ?_⟩
        · rw [List.all_cons, hdigit]
          rfl
        · simp only [List.foldl_cons, List.foldl_nil, hvalue, Nat.zero_mul, Nat.zero_add]
      · obtain ⟨-, hall, hfold⟩ := ih (pid / 10) (by omega)
        obtain ⟨hdigit, hvalue⟩ := digitByte_bounds (Nat.mod_lt pid (by decide : 0 < 10))
        refine ⟨List.append_ne_nil_of_right_ne_nil _ (List.cons_ne_nil _ _), ?_, ?_⟩
        · rw [List.all_append, hall, List.all_cons, hdigit]
          rfl
        · rw [List.foldl_append, hfold]
          simp only [List.foldl_cons, List.foldl_nil, hvalue]
          omega
  obtain ⟨hne, hall, hfold⟩ := hread pid
  rw [UserNs.number, if_pos ⟨hne, hall⟩, hfold]

/-! ## One run -/

/-- The control file that a path names. -/
def Path.controlFile : Path → Option CStr
  | .cgroupFile _ name => some name
  | _ => none

/-- One run of barco, as far as the control group is concerned. -/
structure GroupRun where
  /-- the container, from `clone` until it was waited for -/
  pid : Option Nat
  /-- it is in `cgroups_init`, and has been at `rmdir` there -/
  inside : Bool
  retried : Bool
  /-- it has made the directory and has not removed it -/
  made : Bool
  /-- what it has written to the control files since then -/
  written : List CgroupsSetting
  /-- the control files that are open, by their number -/
  opened : Int → Option CStr
  /-- `cgroups_init` has returned 0 -/
  limited : Bool
  /-- `cgroups_free`, the last function of a run, has returned -/
  finished : Bool

namespace GroupRun

def start : GroupRun := ⟨none, false, false, false, [], fun _ => none, false, false⟩

def after (l : GroupRun) : (c : Call) → Answer c → GroupRun
  | .clone _ _, .ok pid => { l with pid := some pid }
  | .waitpid _, .ok _ => { l with pid := none }
  | .enter (.cgroupsInit _ _), _ => { l with inside := true }
  | .leave (.cgroupsInit _ _) r, _ => { l with inside := false, limited := r == 0 }
  | .leave (.cgroupsFree _) _, _ => { l with finished := true }
  | .mkdir (.cgroupDir _), .ok _ => { l with made := true, written := [] }
  | .rmdir (.cgroupDir _), .ok _ => { l with made := false, retried := l.retried || l.inside }
  | .rmdir (.cgroupDir _), .error _ => { l with retried := l.retried || l.inside }
  | .open path _, .ok fd => { l with opened := Function.update l.opened fd path.controlFile }
  | .close fd, _ => { l with opened := Function.update l.opened fd none }
  | .write fd data, .ok _ =>
    match l.opened fd with
    | some file => { l with written := l.written ++ [⟨file, data⟩] }
    | none => l
  | _, _ => l

/-- A failure that makes `cgroups_init` return -1. -/
def fatal (l : GroupRun) : (c : Call) → Answer c → Bool
  | .mkdir (.cgroupDir _), .error e => l.retried || e != EEXIST
  | .rmdir (.cgroupDir _), .error e => l.inside && e != ENOENT
  | .open (.cgroupFile _ _) _, .error _ => true
  | .write fd _, .error _ | .close fd, .error _ => (l.opened fd).isSome
  | _, _ => false

end GroupRun

/-! ## All runs -/

section Sharing

variable {ι : Type}

/-- The hierarchy and the runs. A descriptor of a control file refers to a directory and to
the group that was behind it. -/
structure Sharing (ι : Type) where
  tree : Hierarchy CStr ι CgroupsSetting
  run : ι → GroupRun
  place : ι → Int → CStr × Nat
  /-- another run has removed the directory of this one before it was finished -/
  lost : ι → Bool
  /-- `cgroups_init` has failed because of another run -/
  hindered : ι → Bool

namespace Sharing

/-- The process that a write to a control file names. -/
def named (file : CStr) (data : List UInt8) : Option Nat :=
  if file = cgroupProcs then UserNs.number data else none

/-- What a run can be answered. -/
def answers (s : Sharing ι) (i : ι) : (c : Call) → Answer c → Prop
  | .mkdir (.cgroupDir name), .ok _ => s.tree.dirs name = none
  | .mkdir (.cgroupDir name), .error e => e = EEXIST ↔ s.tree.dirs name ≠ none
  | .rmdir (.cgroupDir name), .ok _ =>
    ∃ id, s.tree.dirs name = some id ∧ (s.tree.groups id).members = []
  | .rmdir (.cgroupDir name), .error e => (e = ENOENT ↔ s.tree.dirs name = none) ∧
    ∀ id, s.tree.dirs name = some id → (s.tree.groups id).members ≠ []
  | .open (.cgroupFile name _) _, .ok _ => s.tree.dirs name ≠ none
  | .write fd data, .ok n => (s.run i).opened fd ≠ none → n = data.length ∧
    s.tree.dirs (s.place i fd).1 = some (s.place i fd).2
  | .clone _ _, .ok pid => s.tree.procs pid = .free
  | .waitpid pid, .ok (w, _) =>
    w = pid ∧ (s.run i).pid = some pid ∧ s.tree.procs pid = .zombie
  | _, _ => True

/-- The hierarchy after a call. -/
def treeAfter (s : Sharing ι) (i : ι) : (c : Call) → Answer c → Hierarchy CStr ι CgroupsSetting
  | .mkdir (.cgroupDir name), .ok _ => s.tree.make name i
  | .rmdir (.cgroupDir name), .ok _ => s.tree.remove name
  | .write fd data, .ok _ =>
    match (s.run i).opened fd with
    | some file => s.tree.write (s.place i fd).2 ⟨file, data⟩ (named file data)
    | none => s.tree
  | .clone _ _, .ok pid => s.tree.fork pid
  | .waitpid pid, .ok _ => s.tree.reap pid
  | _, _ => s.tree

variable [DecidableEq ι]

/-- Another run that has made the directory and is not finished. -/
def holder (s : Sharing ι) (i : ι) (name : CStr) : Option ι :=
  ((s.tree.dirs name).bind fun id => (s.tree.groups id).owner).filter fun j =>
    j ≠ i ∧ (s.run j).finished = false

/-- A run whose directory the call removes. -/
def removes (s : Sharing ι) (i : ι) : (c : Call) → Answer c → Option ι
  | .rmdir (.cgroupDir name), .ok _ => s.holder i name
  | _, _ => none

/-- Another run is in the way of the call, or was. -/
def obstructed (s : Sharing ι) (i : ι) : Call → Bool
  | .mkdir (.cgroupDir name) | .rmdir (.cgroupDir name) | .open (.cgroupFile name _) _ =>
    (s.holder i name).isSome || s.lost i
  | _ => s.lost i

def placeAfter (s : Sharing ι) (i : ι) : (c : Call) → Answer c → ι → Int → CStr × Nat
  | .open (.cgroupFile name _) _, .ok fd =>
    Function.update s.place i (Function.update (s.place i) fd (name, (s.tree.dirs name).getD 0))
  | _, _ => s.place

def after (s : Sharing ι) (i : ι) (c : Call) (r : Answer c) : Sharing ι where
  tree := s.treeAfter i c r
  run := Function.update s.run i ((s.run i).after c r)
  place := s.placeAfter i c r
  lost j := s.lost j || s.removes i c r = some j
  hindered j := s.hindered j || (j = i && (s.run i).fatal c r && s.obstructed i c)

/-- A process ends. -/
def exit (s : Sharing ι) (p : Nat) : Sharing ι := { s with tree := s.tree.exit p }

end Sharing

/-- What was there before: a directory that no run has made, with its settings and the
processes in it, or none. -/
structure Found where
  written : List CgroupsSetting
  members : List Nat

/-- The hierarchy before the first run. -/
def Found.tree (ι : Type) (found : Option Found) : Hierarchy CStr ι CgroupsSetting where
  dirs name := if name = barcontainer then found.map fun _ => 0 else none
  groups _ := ⟨none, (found.map Found.written).getD [], (found.map Found.members).getD []⟩
  next := 1
  procs p := if p ∈ (found.map Found.members).getD [] then .alive else .free
  known {name id} h := by
    split at h
    · obtain ⟨-, -, rfl⟩ := Option.map_eq_some_iff.mp h
      decide
    · exact nomatch h
  live hp := if_pos hp

variable [DecidableEq ι]

/-- The runs of barco on one host. -/
def sharingHost : Host ι Call Answer Int (Sharing ι) where
  call i s c r s' := s.answers i c r ∧ s' = s.after i c r
  env s s' := ∃ p, s.tree.procs p = .alive ∧ s' = s.exit p
  spawn _ _ _ _ := none

/-- The runs before their first calls. -/
def sharingStart (retries : ι → Nat) (args : ι → Args) (found : Option Found) :
    Global ι Call Answer Int (Sharing ι) where
  kern := ⟨Found.tree ι found, fun _ => .start, fun _ _ => (barcontainer, 0), fun _ => false,
    fun _ => false⟩
  prog i := main (retries i) (args i)

/-- What a control file holds: what was written to it last. -/
def holds (written : List CgroupsSetting) (name : CStr) : Option (List UInt8) :=
  (written.reverse.find? (·.name = name)).map CgroupsSetting.value

/-- The container of `i` lives under its limits, and no other container does. -/
structure Secluded (s : Sharing ι) (i : ι) (p id : Nat) : Prop where
  dir : s.tree.dirs barcontainer = some id
  limits : ∀ x ∈ groupLimits, holds (s.tree.groups id).written x.name = some x.value
  member : p ∈ (s.tree.groups id).members
  alone : ∀ j q, j ≠ i → (s.run j).pid = some q → q ∉ (s.tree.groups id).members

/-- What the runs owe each other. -/
structure KeepsApart (s : Sharing ι) : Prop where
  /-- no run removes the directory of another that has not finished -/
  kept : ∀ i, s.lost i = false
  /-- and none makes the `cgroups_init` of another fail -/
  free : ∀ i, s.hindered i = false
  /-- after a `cgroups_init` that returned 0 the container stays limited and alone -/
  limited : ∀ i p, (s.run i).limited = true → (s.run i).pid = some p →
    s.tree.procs p = .alive → ∃ id, Secluded s i p id

/-- The calls that do not interfere: a run goes for the directory of another that has not
finished neither with the `rmdir` of `cgroups_init` nor with the `mkdir` after it, and with
the `rmdir` of `cgroups_free` only when a process lives there. -/
def Considerate (i : ι) (s : Sharing ι) : Call → Prop
  | .mkdir (.cgroupDir name) => (s.run i).retried = true → s.holder i name = none
  | .rmdir (.cgroupDir name) => s.holder i name ≠ none → (s.run i).inside = false ∧
    ∀ id, s.tree.dirs name = some id → (s.tree.groups id).members ≠ []
  | _ => True

/-- The same runs with considerate calls only. -/
def considerateHost : Host ι Call Answer Int (Sharing ι) :=
  sharingHost.restrict fun i s c _ => Considerate i s c

end Sharing

/-! ## What one run keeps to -/

/-- What a run may call. -/
def groupRunRule (l : GroupRun) (c : Call) : Prop :=
  l.finished = false ∧ match c with
  | .clone _ _ => l = .start
  | .mkdir (.cgroupDir name) => name = barcontainer ∧ l.opened = fun _ => none
  | .rmdir (.cgroupDir name) => name = barcontainer
  | .open (.cgroupFile name _) _ => name = barcontainer ∧ l.made = true
  | .write fd data => ∀ file, l.opened fd = some file → l.made = true ∧ l.limited = false ∧
    (file = cgroupProcs → ∃ p, l.pid = some p ∧ data = pidBytes p)
  | .leave (.cgroupsInit _ _) r => r = 0 → l.made = true ∧ ∃ p, l.pid = some p ∧
    l.written = cgroupsSettings p
  | _ => True

def groupRunProtocol : Machine Call Answer GroupRun where
  may := groupRunRule
  step l c r l' := l' = l.after c r

/-- The calls that a run makes for its container and its group. -/
def Call.ofGroup : Call → Bool
  | .mkdir (.cgroupDir _) | .rmdir (.cgroupDir _) | .open (.cgroupFile _ _) _ => true
  | .clone _ _ | .waitpid _ => true
  | .enter (.cgroupsInit _ _) | .leave (.cgroupsInit _ _) _ | .leave (.cgroupsFree _) _ => true
  | _ => false

section Walk

variable {α β : Type} {l : GroupRun}

/-- No control file is open, and there is more to do. -/
structure AllClosed (l : GroupRun) : Prop where
  opened : l.opened = fun _ => none
  finished : l.finished = false

theorem update_closed (fd : Int) :
    Function.update (fun _ : Int => (none : Option CStr)) fd none = fun _ => none :=
  Function.update_eq_self ..

theorem after_notOfGroup {c : Call} {r : Answer c} (hc : c.ofGroup = false) (h : AllClosed l) :
    l.after c r = l := by
  have hopen : ∀ fd : Int, { l with opened := Function.update l.opened fd none } = l := fun fd => by
    rw [h.opened, update_closed, ← h.opened]
  cases c with
  | «open» path mode =>
    cases r with
    | error e => rfl
    | ok fd =>
      cases path with
      | cgroupFile name file => exact nomatch hc
      | _ => exact hopen fd
  | close fd => exact hopen fd
  | write fd data =>
    cases r with
    | error e => rfl
    | ok n =>
      simp only [GroupRun.after, h.opened]
  | mkdir path =>
    cases path with
    | cgroupDir name => exact nomatch hc
    | _ => rfl
  | rmdir path =>
    cases path with
    | cgroupDir name => exact nomatch hc
    | _ => rfl
  | clone flags config => exact nomatch hc
  | waitpid pid => exact nomatch hc
  | enter f =>
    cases f with
    | cgroupsInit hostname pid => exact nomatch hc
    | _ => rfl
  | leave f code =>
    cases f with
    | cgroupsInit hostname pid => exact nomatch hc
    | cgroupsFree hostname => exact nomatch hc
    | _ => rfl
  | _ => rfl

theorem rule_notOfGroup {c : Call} (hc : c.ofGroup = false) (h : AllClosed l) : groupRunRule l c := by
  refine ⟨h.finished, ?_⟩
  cases c with
  | «open» path mode =>
    cases path with
    | cgroupFile name file => exact nomatch hc
    | _ => trivial
  | write fd data =>
    intro file hfile
    rw [h.opened] at hfile
    exact nomatch hfile
  | mkdir path =>
    cases path with
    | cgroupDir name => exact nomatch hc
    | _ => trivial
  | rmdir path =>
    cases path with
    | cgroupDir name => exact nomatch hc
    | _ => trivial
  | clone flags config => exact nomatch hc
  | leave f code =>
    cases f with
    | cgroupsInit hostname pid => exact nomatch hc
    | _ => trivial
  | _ => trivial

/-- What has nothing to do with the group changes nothing. -/
theorem wp_notOfGroup {p : Sys α} (hp : p.Only fun c => c.ofGroup = false) (h : AllClosed l) :
    wp groupRunProtocol p (fun _ l' => l' = l) l := by
  refine wp_of_only (J := fun l' => l' = l) hp (fun l' c hc hl => ?_) rfl
  subst hl
  exact ⟨rule_notOfGroup hc h, fun r l' hs => hs.trans (after_notOfGroup hc h)⟩

/-- A call of a run that waits for its container, or one that is none of the group's. -/
def Waits (c : Call) : Prop := c.ofGroup = false ∨ ∃ pid, c = .waitpid pid

/-- The same with `waitpid`, after which there is no container. -/
theorem wp_waits {p : Sys α} (hp : p.Only Waits) (h : AllClosed l) :
    wp groupRunProtocol p (fun _ => AllClosed) l := by
  refine wp_of_only (J := AllClosed) hp (fun l' c hc hl => ?_) h
  rcases hc with hgroup | ⟨pid, rfl⟩
  · refine ⟨rule_notOfGroup hgroup hl, fun r l'' hs => ?_⟩
    obtain rfl : l'' = l' := hs.trans (after_notOfGroup hgroup hl)
    exact hl
  · refine ⟨⟨hl.finished, trivial⟩, fun r l'' hs => ?_⟩
    obtain rfl : l'' = l'.after (.waitpid pid) r := hs
    cases r with
    | error e => exact hl
    | ok w => exact ⟨hl.opened, hl.finished⟩

/-! ### The footprint of the rest of `main` -/

theorem notOfGroup_area {c : Call} (hcgroup : c.area ≠ .cgroup) (hprocess : c.area ≠ .process)
    (hmark : c.area ≠ .mark) : c.ofGroup = false := by
  cases c with
  | «open» path mode =>
    cases path with
    | cgroupFile name file => exact absurd rfl hcgroup
    | _ => rfl
  | mkdir path =>
    cases path with
    | cgroupDir name => exact absurd rfl hcgroup
    | _ => rfl
  | rmdir path =>
    cases path with
    | cgroupDir name => exact absurd rfl hcgroup
    | _ => rfl
  | clone flags config => exact absurd rfl hprocess
  | waitpid pid => exact absurd rfl hprocess
  | enter f =>
    cases f with
    | cgroupsInit hostname pid => exact absurd rfl hmark
    | _ => rfl
  | leave f code =>
    cases f with
    | cgroupsInit hostname pid => exact absurd rfl hmark
    | cgroupsFree hostname => exact absurd rfl hmark
    | _ => rfl
  | _ => rfl

theorem notOfGroup_areas {S : List Area} {p : Sys α} (hp : p.Only fun c => c.area ∈ S)
    (hS : ∀ a ∈ S, a ≠ .cgroup ∧ a ≠ .process ∧ a ≠ .mark) :
    p.Only fun c => c.ofGroup = false :=
  hp.mono fun _ hc => notOfGroup_area (hS _ hc).1 (hS _ hc).2.1 (hS _ hc).2.2

theorem notOfGroup_invoke {f : Fn} {body : Sys Int} (henter : (Call.enter f).ofGroup = false)
    (hleave : ∀ r, (Call.leave f r).ofGroup = false)
    (hbody : body.Only fun c => c.ofGroup = false) :
    (invoke f body).Only fun c => c.ofGroup = false :=
  ⟨henter, fun _ => hbody.bind fun r => ⟨hleave r, fun _ => only_pure r⟩⟩

theorem notOfGroup_covers : Covers (fun c => c.ofGroup = false) hostAreas Fn.OfNetwork where
  call c hc hmark := notOfGroup_area
    (fun h => absurd (h ▸ hc) (show Area.cgroup ∉ hostAreas by decide))
    (fun h => absurd (h ▸ hc) (show Area.process ∉ hostAreas by decide)) hmark
  enter f hf := by
    cases f with
    | cgroupsInit hostname pid => exact hf.elim
    | _ => rfl
  leave f r hf := by
    cases f with
    | cgroupsInit hostname pid => exact hf.elim
    | cgroupsFree hostname => exact hf.elim
    | _ => rfl

theorem containerStop_waits (pid : Nat) : (containerStop pid).Only Waits := by
  refine ⟨.inl rfl, fun r => ?_⟩
  cases r with
  | error e => exact only_pure ()
  | ok u => exact ⟨.inr ⟨pid, rfl⟩, fun _ => only_pure ()⟩

theorem waitContainer_waits (pid retries : Nat) : (waitContainer pid retries).Only Waits := by
  induction retries with
  | zero => exact ⟨.inl rfl, fun r => nomatch r⟩
  | succ retries ih =>
    refine ⟨.inr ⟨pid, rfl⟩, fun r => ?_⟩
    cases r with
    | error e =>
      show Only _ (if e = EINTR then _ else _)
      split
      · exact ih
      · exact only_pure none
    | ok w =>
      show Only _ (if w.1 = pid then _ else _)
      split
      · exact only_pure _
      · exact ih

/-! ### `cgroups_init` -/

theorem group_call {c : Call} {k : Answer c → Sys β} {Q : β → GroupRun → Prop}
    (hrule : groupRunRule l c) (hk : ∀ r, wp groupRunProtocol (k r) Q (l.after c r)) :
    wp groupRunProtocol (sys c >>= k) Q l :=
  wp_sys hrule fun r _ h => h ▸ hk r

/-- A run with a container that has no limits yet. -/
structure Unlimited (p : Nat) (l : GroupRun) : Prop extends AllClosed l where
  pid : l.pid = some p
  limited : l.limited = false

theorem enableControllers_notOfGroup : enableControllers.Only fun c => c.ofGroup = false := by
  refine ⟨rfl, fun r => ?_⟩
  cases r with
  | error e => exact only_pure ()
  | ok fd => exact ⟨rfl, fun _ => ⟨rfl, fun _ => only_pure ()⟩⟩

/-- What the directory part leaves behind. -/
def Made (p : Nat) (r : Int) (l : GroupRun) : Prop :=
  Unlimited p l ∧ (r = -1 ∨ r = 0 ∧ l.made = true ∧ l.written = [])

theorem cgroupsMkdir_run {p : Nat} (h : Unlimited p l) :
    wp groupRunProtocol (cgroupsMkdir barcontainer) (Made p) l := by
  have hfail : ∀ l, Unlimited p l → Made p (-1) l := fun l h => ⟨h, .inl rfl⟩
  have hdone : ∀ l, Unlimited p l →
      Made p 0 (l.after (.mkdir (.cgroupDir barcontainer)) (.ok ())) := fun l h =>
    ⟨⟨⟨h.opened, h.finished⟩, h.pid, h.limited⟩, .inr ⟨rfl, rfl, rfl⟩⟩
  have hremake : ∀ l, Unlimited p l →
      wp groupRunProtocol (cgroupsRemake barcontainer) (Made p) l := fun l h => by
    refine group_call ⟨h.finished, rfl, h.opened⟩ fun r => ?_
    cases r with
    | error e => exact hfail l h
    | ok u => exact hdone l h
  refine group_call ⟨h.finished, rfl, h.opened⟩ fun r => ?_
  cases r with
  | ok u => exact hdone l h
  | error e =>
    show wp _ (if e = EEXIST then _ else _) _ l
    split
    · refine group_call ⟨h.finished, rfl⟩ fun r => ?_
      cases r with
      | error e' =>
        have h' : Unlimited p (l.after (.rmdir (.cgroupDir barcontainer)) (.error e')) :=
          ⟨⟨h.opened, h.finished⟩, h.pid, h.limited⟩
        show wp _ (if e' ≠ ENOENT then _ else _) _ _
        split
        · exact hfail _ h'
        · exact hremake _ h'
      | ok u => exact hremake _ ⟨⟨h.opened, h.finished⟩, h.pid, h.limited⟩
    · exact hfail l h

/-- What the loop leaves behind. -/
def Wrote (p : Nat) (r : Int) (l : GroupRun) : Prop :=
  AllClosed l ∧ (r = 0 → l.made = true ∧ l.pid = some p ∧ l.written = cgroupsSettings p)

theorem update_opened (fd : Int) (file : CStr) (h : AllClosed l) :
    Function.update (Function.update l.opened fd (some file)) fd none = fun _ => none := by
  rw [Function.update_idem, h.opened, update_closed]

/-- The loop: one file is open at a time, and what it writes is what is done. -/
theorem cgroupsWrite_run {p : Nat} {todo : List CgroupsSetting} (h : Unlimited p l)
    (hmade : l.made = true) (hall : cgroupsSettings p = l.written ++ todo) :
    wp groupRunProtocol (cgroupsWrite barcontainer todo) (Wrote p) l := by
  have hfail : ∀ l, AllClosed l → Wrote p (-1) l := fun l h => ⟨h, fun hr => by omega⟩
  induction todo generalizing l with
  | nil =>
    rw [List.append_nil] at hall
    exact ⟨h.toAllClosed, fun _ => ⟨hmade, h.pid, hall.symm⟩⟩
  | cons x todo ih =>
    refine group_call ⟨h.finished, rfl, hmade⟩ fun r => ?_
    cases r with
    | error e => exact hfail l h.toAllClosed
    | ok fd =>
    refine group_call (c := .write fd x.value) ⟨h.finished, fun file hfile => ?_⟩ fun r => ?_
    · obtain rfl : x.name = file := by
        simpa only [GroupRun.after, Path.controlFile, Function.update_self, Option.some.injEq]
          using hfile
      exact ⟨hmade, h.limited, fun hx => ⟨p, h.pid, (settings_procs hall hx).1⟩⟩
    cases r with
    | error e =>
      refine group_call (c := .close fd) ⟨h.finished, trivial⟩ fun _ => hfail _ ⟨?_, h.finished⟩
      exact update_opened fd x.name h.toAllClosed
    | ok n =>
    have hwrote : (l.after (.open (.cgroupFile barcontainer x.name) .wronly) (.ok fd)).after
        (.write fd x.value) (.ok n) = { l with
          opened := Function.update l.opened fd (some x.name), written := l.written ++ [x] } := by
      simp only [GroupRun.after, Path.controlFile, Function.update_self]
    rw [hwrote]
    refine group_call (c := .close fd) ⟨h.finished, trivial⟩ fun r => ?_
    have hclosed := update_opened fd x.name h.toAllClosed
    cases r with
    | error e => exact hfail _ ⟨hclosed, h.finished⟩
    | ok u =>
      refine ih ⟨⟨hclosed, h.finished⟩, h.pid, h.limited⟩ hmade ?_
      show cgroupsSettings p = l.written ++ [x] ++ todo
      rw [List.append_assoc]
      exact hall

theorem cgroupsInit_run {p : Nat} (h : Unlimited p l) :
    wp groupRunProtocol (invoke (.cgroupsInit barcontainer p) (cgroupsInit barcontainer p))
      (fun _ => AllClosed) l := by
  refine group_call (c := .enter (.cgroupsInit barcontainer p)) ⟨h.finished, trivial⟩ fun _ => ?_
  have hbody : wp groupRunProtocol (cgroupsInit barcontainer p) (Wrote p)
      { l with inside := true } := by
    refine wp_seq (wp_notOfGroup enableControllers_notOfGroup ⟨h.opened, h.finished⟩) ?_
    rintro - l₁ rfl
    refine wp_seq (cgroupsMkdir_run ⟨⟨h.opened, h.finished⟩, h.pid, h.limited⟩) ?_
    rintro r l₂ ⟨h₂, rfl | ⟨rfl, hmade, hwritten⟩⟩
    · exact ⟨h₂.toAllClosed, fun hr => by omega⟩
    · refine cgroupsWrite_run h₂ hmade ?_
      rw [hwritten, List.nil_append]
  refine wp_seq hbody fun r l' h' => ?_
  refine group_call (c := .leave (.cgroupsInit barcontainer p) r)
    ⟨h'.1.finished, fun hr => ?_⟩ fun _ => ⟨h'.1.opened, h'.1.finished⟩
  obtain ⟨hmade, hpid, hwritten⟩ := h'.2 hr
  exact ⟨hmade, p, hpid, hwritten⟩

/-! ### `main` -/

theorem wp_prefix {p : Sys α} {f : α → Sys β} {Q : β → GroupRun → Prop}
    (hp : p.Only fun c => c.ofGroup = false) (h : AllClosed l)
    (hf : ∀ a, wp groupRunProtocol (f a) Q l) : wp groupRunProtocol (p >>= f) Q l :=
  wp_seq (wp_notOfGroup hp h) fun a _ hl => hl ▸ hf a

theorem containerStop_run (pid : Nat) (h : AllClosed l) :
    wp groupRunProtocol (containerStop pid) (fun _ => AllClosed) l :=
  wp_waits (containerStop_waits pid) h

/-- Section 7.5 leaves the container there, or has stopped it. -/
theorem moveVeth_run {p : Nat} (pid : Nat) (tmp : CStr) (h : Unlimited p l) :
    wp groupRunProtocol (moveVeth pid tmp)
      (fun b l' => AllClosed l' ∧ (b = true → Unlimited p l')) l := by
  have hstop : wp groupRunProtocol (do containerStop pid; return false)
      (fun b l' => AllClosed l' ∧ (b = true → Unlimited p l')) l :=
    wp_seq (containerStop_run pid h.toAllClosed) fun _ _ h' => ⟨h', nofun⟩
  refine wp_prefix (p := sys (.open (.netNs pid) .rdonly)) ⟨rfl, fun _ => trivial⟩ h.toAllClosed
    fun r => ?_
  cases r with
  | error e => exact hstop
  | ok nsFd =>
    refine wp_prefix (notOfGroup_invoke (f := .nlMoveToNs tmp nsFd) rfl (fun _ => rfl)
      (notOfGroup_areas (nlMoveToNs_tidy tmp nsFd).only (by decide))) h.toAllClosed fun r => ?_
    have hclose : (closeFd nsFd).Only fun c => c.ofGroup = false := ⟨rfl, fun _ => trivial⟩
    split
    · exact wp_prefix hclose h.toAllClosed fun _ => hstop
    · exact wp_prefix hclose h.toAllClosed fun _ => ⟨h.toAllClosed, fun _ => h⟩

theorem superviseContainer_run {p : Nat} (retries : Nat) {st : MainState} (h : Unlimited p l)
    (hname : st.config.hostname = some barcontainer) :
    wp groupRunProtocol (superviseContainer retries st p) (fun st' l' => AllClosed l' ∧
      st'.config.hostname = some barcontainer) l := by
  unfold superviseContainer
  rw [hname]
  refine wp_seq (cgroupsInit_run h) fun _ l₁ h₁ => ?_
  refine wp_prefix (notOfGroup_invoke (f := .prepareMappings p st.sockets.1) rfl (fun _ => rfl)
    (notOfGroup_areas (prepareMappings_uses p _).only (by decide))) h₁ fun r => ?_
  split
  · exact wp_seq (containerStop_run p h₁) fun _ _ h₂ => ⟨h₂, hname⟩
  · refine wp_seq (wp_waits (waitContainer_waits p retries) h₁) fun status l₂ h₂ => ?_
    cases status with
    | none => exact ⟨h₂, hname⟩
    | some status =>
      refine ⟨h₂, ?_⟩
      show (if st.exitcode = 0 then _ else st).config.hostname = _
      split <;> exact hname

theorem runContainer_run (retries : Nat) {st : MainState}
    (hname : st.config.hostname = some barcontainer) :
    wp groupRunProtocol (runContainer retries st) (fun st' l' => AllClosed l' ∧
      st'.config.hostname = some barcontainer) .start := by
  have hinit : wp groupRunProtocol (containerInit st.config) (fun r l' =>
      r.2.hostname = some barcontainer ∧ AllClosed l' ∧ (0 ≤ r.1 → Unlimited r.1.toNat l')) .start := by
    refine group_call ⟨rfl, rfl⟩ fun r => ?_
    cases r with
    | error e => exact ⟨hname, ⟨rfl, rfl⟩, fun hr => absurd (show (0 : Int) ≤ -1 from hr) (by decide)⟩
    | ok pid =>
      have h : Unlimited pid { GroupRun.start with pid := some pid } := ⟨⟨rfl, rfl⟩, rfl, rfl⟩
      show wp _ (if st.config.fd ≥ 0 then _ else _) _ _
      split
      · exact wp_prefix (p := closeFd st.config.fd) ⟨rfl, fun _ => trivial⟩ h.toAllClosed
          fun _ => ⟨hname, h.toAllClosed, fun _ => h⟩
      · exact ⟨hname, h.toAllClosed, fun _ => h⟩
  refine wp_seq hinit ?_
  rintro ⟨pid, config⟩ l₁ ⟨hname, hclosed, hpid⟩
  show wp _ (if pid < 0 then _ else _) _ _
  split
  · exact ⟨hclosed, hname⟩
  have h := hpid (by omega)
  refine wp_prefix (p := sys (.usleep 100000)) ⟨rfl, fun _ => trivial⟩ hclosed fun _ => ?_
  refine wp_prefix (p := sys (.kill pid.toNat 0)) ⟨rfl, fun _ => trivial⟩ hclosed fun r => ?_
  cases r with
  | error e => exact ⟨hclosed, hname⟩
  | ok u =>
    dsimp only
    split
    · refine wp_seq (moveVeth_run _ _ h) ?_
      rintro b l₂ ⟨hclosed, hcontainer⟩
      cases b with
      | false => exact ⟨hclosed, hname⟩
      | true => exact superviseContainer_run retries (hcontainer rfl) hname
    · exact superviseContainer_run retries h hname

theorem cleanup_run {st : MainState} (h : AllClosed l) (hname : st.config.hostname = some barcontainer) :
    wp groupRunProtocol (cleanup st) (fun _ _ => True) l := by
  have hclose : ∀ fd, (closeSocket fd).Only fun c => c.ofGroup = false := fun fd => by
    unfold closeSocket
    split
    · exact ⟨rfl, fun _ => trivial⟩
    · exact only_pure ()
  refine wp_prefix (notOfGroup_covers.releaseNat st) h fun _ => ?_
  refine wp_prefix (notOfGroup_covers.releaseVeth st) h fun _ => ?_
  refine wp_prefix (hclose _) h fun _ => wp_prefix (hclose _) h fun _ => ?_
  unfold releaseCgroup
  rw [hname]
  refine group_call (c := .enter (.cgroupsFree barcontainer)) ⟨h.finished, trivial⟩ fun _ => ?_
  refine group_call (c := .rmdir (.cgroupDir barcontainer)) ⟨h.finished, rfl⟩ fun r => ?_
  cases r with
  | error e =>
    exact group_call (c := .leave (.cgroupsFree barcontainer) (-1)) ⟨h.finished, trivial⟩
      fun _ => trivial
  | ok u =>
    exact group_call (c := .leave (.cgroupsFree barcontainer) 0) ⟨h.finished, trivial⟩
      fun _ => trivial

theorem openSockets_notOfGroup (st : MainState) :
    (openSockets st).Only fun c => c.ofGroup = false := by
  refine ⟨rfl, fun _ => ⟨rfl, fun r => ?_⟩⟩
  cases r with
  | error e => exact only_pure _
  | ok ends =>
    refine ⟨rfl, fun r => ?_⟩
    cases r with
    | error e => exact only_pure _
    | ok u => exact ⟨rfl, fun b => by cases b <;> exact only_pure _⟩

/-- A section that has nothing to do with the group, with what it returns. -/
theorem wp_section {P : α → Prop} {p : Sys α} {f : α → Sys β} {Q : β → GroupRun → Prop}
    (hp : p.Only fun c => c.ofGroup = false) (hr : p.Returns P) (h : AllClosed l)
    (hf : ∀ a, P a → wp groupRunProtocol (f a) Q l) : wp groupRunProtocol (p >>= f) Q l :=
  wp_seq (wp_returns (wp_notOfGroup hp h) hr) fun a _ hl => hl.1 ▸ hf a hl.2

theorem mainFrom_run (retries : Nat) {st : MainState}
    (hname : st.config.hostname = some barcontainer) :
    wp groupRunProtocol (mainFrom retries st) (fun _ _ => True) .start := by
  have hstart : AllClosed .start := ⟨rfl, rfl⟩
  refine wp_section (openSockets_notOfGroup st) (openSockets_returns st) hstart fun e he => ?_
  cases e with
  | error st₁ =>
    obtain ⟨fd, hconfig⟩ := he
    exact cleanup_run hstart ((congrArg ContainerConfig.hostname hconfig).trans hname)
  | ok st₁ =>
    obtain ⟨fd, hconfig⟩ := he
    have hname₁ := (congrArg ContainerConfig.hostname hconfig).trans hname
    refine wp_section (notOfGroup_covers.hostNetwork st₁) (hostNetwork_returns st₁) hstart
      fun e he => ?_
    cases e with
    | error st₂ =>
      obtain rfl := he
      exact cleanup_run hstart hname₁
    | ok st₂ =>
      obtain ⟨vethCreated, natApplied, hostIf, rfl, -⟩ := he
      exact wp_seq (runContainer_run retries hname₁) fun _ _ h => cleanup_run h.1 h.2

/-- A run keeps to its rules. -/
theorem main_run (retries : Nat) (args : Args) :
    wp groupRunProtocol (main retries args) (fun _ _ => True) .start := by
  have hstart : AllClosed .start := ⟨rfl, rfl⟩
  refine group_call ⟨rfl, trivial⟩ fun b => ?_
  cases b with
  | false => exact trivial
  | true =>
    show wp _ (if args.errors then _ else _) _ _
    split
    · exact trivial
    split
    · exact trivial
    refine wp_section (notOfGroup_areas (fillConfig_tidy args).only (by decide))
      (fillConfig_configured args) hstart fun e he => ?_
    cases he with
    | off hoff => exact mainFrom_run retries rfl
    | on s hname hip => exact mainFrom_run retries rfl
    | noPeer => exact cleanup_run hstart rfl
    | noTmp => exact cleanup_run hstart rfl

end Walk

/-! ## All runs together -/

section Together

variable {ι : Type} {s s' : Sharing ι} {i j : ι} {id : Nat}

/-- The directory is the run's, with what it has written there. -/
structure Owns (s : Sharing ι) (i : ι) (id : Nat) : Prop where
  dir : s.tree.dirs barcontainer = some id
  owner : (s.tree.groups id).owner = some i
  written : (s.tree.groups id).written = (s.run i).written
  place : ∀ fd file, (s.run i).opened fd = some file → s.place i fd = (barcontainer, id)
  joined : ∀ p, (s.run i).pid = some p → s.tree.procs p = .alive →
    (∃ x ∈ (s.run i).written, x.name = cgroupProcs) → p ∈ (s.tree.groups id).members

/-- The container lives in the directory that its run has made, with all the settings. -/
structure Seated (s : Sharing ι) (i : ι) (p id : Nat) : Prop where
  dir : s.tree.dirs barcontainer = some id
  owner : (s.tree.groups id).owner = some i
  written : (s.tree.groups id).written = cgroupsSettings p
  member : p ∈ (s.tree.groups id).members

/-- The invariant of considerate runs. -/
structure Orderly (s : Sharing ι) : Prop where
  owns : ∀ i, (s.run i).made = true → (s.run i).finished = false → ∃ id, Owns s i id
  seated : ∀ i p, (s.run i).limited = true → (s.run i).pid = some p →
    s.tree.procs p = .alive → ∃ id, Seated s i p id
  owner : ∀ id p i, p ∈ (s.tree.groups id).members → (s.run i).pid = some p →
    (s.tree.groups id).owner = some i
  used : ∀ i p, (s.run i).pid = some p → s.tree.procs p ≠ .free
  distinct : ∀ i j p, (s.run i).pid = some p → (s.run j).pid = some p → i = j

theorem Owns.unique {k : Nat} (h : Owns s i id) (h' : Owns s j k) : i = j := by
  obtain rfl : id = k := Option.some.inj (h.dir.symm.trans h'.dir)
  exact Option.some.inj (h.owner.symm.trans h'.owner)

theorem Seated.unique {p k : Nat} (h : Seated s j p k) (h' : Owns s i id) : j = i := by
  obtain rfl : k = id := Option.some.inj (h.dir.symm.trans h'.dir)
  exact Option.some.inj (h.owner.symm.trans h'.owner)

/-- A run that a step does not concern owns what it owned. -/
theorem Owns.stays (h : Owns s i id) (hdir : s'.tree.dirs = s.tree.dirs)
    (hgroups : s'.tree.groups = s.tree.groups) (hrun : s'.run i = s.run i)
    (hplace : s'.place i = s.place i)
    (halive : ∀ p, (s.run i).pid = some p → s'.tree.procs p = .alive → s.tree.procs p = .alive) :
    Owns s' i id where
  dir := hdir ▸ h.dir
  owner := hgroups ▸ h.owner
  written := by
    rw [hgroups, hrun]
    exact h.written
  place fd file hfile := by
    rw [hplace]
    exact h.place fd file (hrun ▸ hfile)
  joined p hpid hp hx := by
    rw [hgroups]
    rw [hrun] at hpid hx
    exact h.joined p hpid (halive p hpid hp) hx

theorem Seated.stays {p : Nat} (h : Seated s i p id) (hdir : s'.tree.dirs = s.tree.dirs)
    (hgroups : s'.tree.groups = s.tree.groups) : Seated s' i p id :=
  ⟨hdir ▸ h.dir, hgroups ▸ h.owner, hgroups ▸ h.written, hgroups ▸ h.member⟩

/-! ### Steps that leave the hierarchy alone -/

/-- A run that claims no more than before. -/
structure Lesser (l l' : GroupRun) : Prop where
  pid : l'.pid = l.pid
  made : l'.made = true → l.made = true
  finished : l'.finished = false → l.finished = false
  written : l'.written = l.written

theorem Lesser.refl (l : GroupRun) : Lesser l l := ⟨rfl, id, id, rfl⟩

theorem Orderly.frame (h : Orderly s) (htree : s'.tree = s.tree)
    (hrun : ∀ i, Lesser (s.run i) (s'.run i))
    (hplace : ∀ i id, Owns s i id → ∀ fd file, (s'.run i).opened fd = some file →
      s'.place i fd = (barcontainer, id))
    (hseated : ∀ i p, (s'.run i).limited = true → (s.run i).pid = some p →
      s.tree.procs p = .alive → ∃ id, Seated s i p id) : Orderly s' := by
  refine ⟨fun i hmade hfinished => ?_, fun i p hlimited hpid halive => ?_, fun id p i hp hpid => ?_,
    fun i p hpid => ?_, fun i j p hi hj => ?_⟩
  · obtain ⟨id, ho⟩ := h.owns i ((hrun i).made hmade) ((hrun i).finished hfinished)
    refine ⟨id, htree ▸ ho.dir, htree ▸ ho.owner, ?_, hplace i id ho, fun p hpid halive hx => ?_⟩
    · rw [htree, (hrun i).written]
      exact ho.written
    · rw [htree] at halive ⊢
      exact ho.joined p ((hrun i).pid ▸ hpid) halive ((hrun i).written ▸ hx)
  · rw [htree] at halive
    obtain ⟨id, hs⟩ := hseated i p hlimited ((hrun i).pid ▸ hpid) halive
    exact ⟨id, hs.stays (htree ▸ rfl) (htree ▸ rfl)⟩
  · rw [htree] at hp ⊢
    exact h.owner id p i hp ((hrun i).pid ▸ hpid)
  · rw [htree]
    exact h.used i p ((hrun i).pid ▸ hpid)
  · exact h.distinct i j p ((hrun i).pid ▸ hi) ((hrun j).pid ▸ hj)

/-- The container of a run ends, or another process. -/
theorem Orderly.exit (h : Orderly s) (p : Nat) : Orderly (s.exit p) := by
  have halive : ∀ q, (s.exit p).tree.procs q = .alive → q ≠ p ∧ s.tree.procs q = .alive := by
    intro q hq
    have hne : q ≠ p := by
      rintro rfl
      exact nomatch (Function.update_self (f := s.tree.procs) ..).symm.trans hq
    exact ⟨hne, (Function.update_of_ne hne ..).symm.trans hq⟩
  have hmem : ∀ {id q}, q ≠ p → q ∈ (s.tree.groups id).members →
      q ∈ ((s.exit p).tree.groups id).members := fun hne hq =>
    List.mem_filter.mpr ⟨hq, decide_eq_true hne⟩
  refine ⟨fun i hmade hfinished => ?_, fun i q hlimited hpid hq => ?_, fun id q i hq hpid => ?_,
    fun i q hpid => ?_, h.distinct⟩
  · obtain ⟨id, ho⟩ := h.owns i hmade hfinished
    refine ⟨id, ho.dir, ho.owner, ho.written, ho.place, fun q hpid hq hx => ?_⟩
    obtain ⟨hne, hq⟩ := halive q hq
    exact hmem hne (ho.joined q hpid hq hx)
  · obtain ⟨hne, hq⟩ := halive q hq
    obtain ⟨id, hs⟩ := h.seated i q hlimited hpid hq
    exact ⟨id, hs.dir, hs.owner, hs.written, hmem hne hs.member⟩
  · exact h.owner id q i (List.mem_of_mem_filter hq) hpid
  · by_cases hqp : q = p
    · subst hqp
      exact fun hfree => nomatch (Function.update_self (f := s.tree.procs) ..).symm.trans hfree
    · exact fun hfree => h.used i q hpid ((Function.update_of_ne hqp ..).symm.trans hfree)

/-! ### Steps of one run -/

variable [DecidableEq ι]

@[simp] theorem after_run_self (c : Call) (r : Answer c) :
    (s.after i c r).run i = (s.run i).after c r := Function.update_self ..

theorem after_run_of_ne (c : Call) (r : Answer c) (hj : j ≠ i) : (s.after i c r).run j = s.run j :=
  Function.update_of_ne hj ..

/-- A run claims no more after the call, and the others are as they were. -/
theorem lesser_after {c : Call} {r : Answer c} (hrun : Lesser (s.run i) ((s.run i).after c r))
    (j : ι) : Lesser (s.run j) ((s.after i c r).run j) := by
  by_cases hj : j = i
  · subst hj
    rw [after_run_self]
    exact hrun
  · rw [after_run_of_ne c r hj]
    exact .refl _

/-- A call that leaves the hierarchy alone, and opens no control file. -/
theorem Orderly.still {c : Call} {r : Answer c} (h : Orderly s) (htree : s.treeAfter i c r = s.tree)
    (hplace : s.placeAfter i c r = s.place) (hrun : Lesser (s.run i) ((s.run i).after c r))
    (hopened : ∀ fd file, ((s.run i).after c r).opened fd = some file →
      (s.run i).opened fd = some file)
    (hlimited : ((s.run i).after c r).limited = true → (s.run i).limited = true) :
    Orderly (s.after i c r) := by
  refine h.frame htree (lesser_after hrun) (fun j id ho fd file hfile => ?_)
    fun j p hlim hpid halive => ?_
  · refine (congrFun (congrFun hplace j) fd).trans (ho.place fd file ?_)
    by_cases hj : j = i
    · subst hj
      rw [after_run_self] at hfile
      exact hopened fd file hfile
    · rwa [after_run_of_ne c r hj] at hfile
  · refine h.seated j p ?_ hpid halive
    by_cases hj : j = i
    · subst hj
      rw [after_run_self] at hlim
      exact hlimited hlim
    · rwa [after_run_of_ne c r hj] at hlim

/-- `cgroups_init` returns, with 0 only when the container is in its directory. -/
theorem Orderly.initialized {name : CStr} {pid : Nat} {code : Int} (h : Orderly s)
    (hrule : groupRunRule (s.run i) (.leave (.cgroupsInit name pid) code)) :
    Orderly (s.after i (.leave (.cgroupsInit name pid) code) ()) := by
  obtain ⟨hfinished, hzero⟩ := hrule
  refine h.frame rfl (lesser_after ⟨rfl, id, id, rfl⟩) (fun j id ho fd file hfile => ?_)
    fun j p hlimited hpid halive => ?_
  · refine ho.place fd file ?_
    by_cases hj : j = i
    · subst hj
      rw [after_run_self] at hfile
      exact hfile
    · rwa [after_run_of_ne _ _ hj] at hfile
  · by_cases hj : j = i
    · subst hj
      rw [after_run_self] at hlimited
      obtain ⟨hmade, p', hpid', hwritten⟩ := hzero (beq_iff_eq.mp hlimited)
      obtain rfl : p = p' := Option.some.inj (hpid.symm.trans hpid')
      obtain ⟨id, ho⟩ := h.owns j hmade hfinished
      refine ⟨id, ho.dir, ho.owner, ho.written.trans hwritten, ho.joined p hpid halive ?_⟩
      rw [hwritten]
      exact ⟨⟨cgroupProcs, pidBytes p⟩, by simp [cgroupsSettings], rfl⟩
    · rw [after_run_of_ne _ _ hj] at hlimited
      exact h.seated j p hlimited hpid halive

/-- A control file is opened in the directory that the run owns. -/
theorem Orderly.opens {file : CStr} {mode : OpenMode} {fd : Nat} (h : Orderly s) :
    Orderly (s.after i (.open (.cgroupFile barcontainer file) mode) (.ok fd)) := by
  refine h.frame rfl (lesser_after ⟨rfl, id, id, rfl⟩) (fun j id ho d f hf => ?_)
    fun j p hlimited hpid halive => h.seated j p ?_ hpid halive
  · by_cases hj : j = i
    · subst hj
      rw [after_run_self] at hf
      refine (congrFun (Function.update_self ..) d).trans ?_
      rw [ho.dir]
      by_cases hd : d = fd
      · rw [hd, Function.update_self]
        rfl
      · rw [Function.update_of_ne hd]
        exact ho.place d f ((Function.update_of_ne hd ..).symm.trans hf)
    · rw [after_run_of_ne _ _ hj] at hf
      exact (congrFun (Function.update_of_ne hj ..) d).trans (ho.place d f hf)
  · by_cases hj : j = i
    · subst hj
      rw [after_run_self] at hlimited
      exact hlimited
    · rwa [after_run_of_ne _ _ hj] at hlimited

/-- A control file is written: nobody else has one of this directory open. -/
theorem Orderly.writes {fd : Int} {data : List UInt8} {n : Nat} {file : CStr} (h : Orderly s)
    (hrule : groupRunRule (s.run i) (.write fd data)) (hfile : (s.run i).opened fd = some file) :
    Orderly (s.after i (.write fd data) (.ok n)) := by
  obtain ⟨hfinished, hrule⟩ := hrule
  obtain ⟨hmade, hunlimited, hprocs⟩ := hrule file hfile
  obtain ⟨id, ho⟩ := h.owns i hmade hfinished
  have hafter : (s.run i).after (.write fd data) (.ok n) =
      { s.run i with written := (s.run i).written ++ [⟨file, data⟩] } := by
    simp only [GroupRun.after, hfile]
  have htree : (s.after i (.write fd data) (.ok n)).tree =
      s.tree.write id ⟨file, data⟩ (Sharing.named file data) := by
    show s.treeAfter i (.write fd data) (.ok n) = _
    simp only [Sharing.treeAfter, hfile, ho.place fd file hfile]
  have hself : (s.after i (.write fd data) (.ok n)).run i =
      { s.run i with written := (s.run i).written ++ [⟨file, data⟩] } := after_run_self .. |>.trans hafter
  have hother := fun j (hj : j ≠ i) => after_run_of_ne (s := s) (.write fd data) (.ok n) hj
  have hpids : ∀ j, ((s.after i (.write fd data) (.ok n)).run j).pid = (s.run j).pid := fun j => by
    by_cases hj : j = i
    · rw [hj, hself]
    · rw [hother j hj]
  -- the process that joins is the container of this run
  have hjoins : ∀ p, p ∈ s.tree.joining (Sharing.named file data) → (s.run i).pid = some p := by
    intro p hp
    obtain ⟨hnamed, -⟩ := Hierarchy.mem_joining.mp hp
    unfold Sharing.named at hnamed
    split at hnamed
    · obtain ⟨q, hq, rfl⟩ := hprocs ‹_›
      rw [number_pidBytes] at hnamed
      rwa [← Option.some.inj hnamed]
    · cases hnamed
  refine ⟨fun j hmade' hfinished' => ?_, fun j p hlimited hpid halive => ?_, fun k p j hp hpid => ?_,
    fun j p hpid => ?_, fun j k p hj hk => h.distinct j k p (hpids j ▸ hj) (hpids k ▸ hk)⟩
  · by_cases hj : j = i
    · subst hj
      refine ⟨id, ?_, ?_, ?_, fun d f hf => ?_, fun p hpid halive hx => ?_⟩
      · rw [htree]
        exact ho.dir
      · rw [htree]
        exact ho.owner
      · rw [htree, hself, Hierarchy.write_written_self, ho.written]
      · rw [hself] at hf
        exact ho.place d f hf
      · rw [hself] at hpid hx
        rw [htree] at halive ⊢
        obtain ⟨x, hx, hname⟩ := hx
        rcases List.mem_append.mp hx with hx | hx
        · exact Hierarchy.mem_write (ho.joined p hpid halive ⟨x, hx, hname⟩) (.inl rfl)
        · obtain rfl := List.mem_singleton.mp hx
          obtain rfl : file = cgroupProcs := hname
          obtain ⟨q, hq, rfl⟩ := hprocs rfl
          obtain rfl : q = p := Option.some.inj (hq.symm.trans hpid)
          exact Hierarchy.joining_mem (Hierarchy.mem_joining.mpr
            ⟨(if_pos rfl).trans (number_pidBytes q), halive⟩)
    · rw [hother j hj] at hmade' hfinished'
      obtain ⟨k, ho'⟩ := h.owns j hmade' hfinished'
      exact absurd (ho'.unique ho) hj
  · by_cases hj : j = i
    · subst hj
      rw [hself] at hlimited
      exact nomatch hunlimited.symm.trans hlimited
    · rw [hother j hj] at hlimited
      rw [htree] at halive
      obtain ⟨k, hs⟩ := h.seated j p hlimited (hpids j ▸ hpid) halive
      exact absurd (hs.unique ho) hj
  · rw [htree] at hp ⊢
    rw [hpids] at hpid
    rcases Hierarchy.write_members hp with hold | ⟨rfl, hjoin⟩
    · exact h.owner k p j hold hpid
    · rw [h.distinct j i p hpid (hjoins p hjoin)]
      exact ho.owner
  · rw [htree]
    exact h.used j p (hpids j ▸ hpid)

/-- A run gets its container, under a number that nobody had. -/
theorem Orderly.clones {flags : Nat} {config : ContainerConfig} {pid : Nat} (h : Orderly s)
    (hrule : groupRunRule (s.run i) (.clone flags config)) (hfree : s.tree.procs pid = .free) :
    Orderly (s.after i (.clone flags config) (.ok pid)) := by
  have hstart : s.run i = .start := hrule.2
  have hself : (s.after i (.clone flags config) (.ok pid)).run i =
      { GroupRun.start with pid := some pid } := by
    rw [after_run_self, hstart]
    rfl
  have hother := fun j (hj : j ≠ i) =>
    after_run_of_ne (s := s) (.clone flags config) (.ok pid) hj
  have hused : ∀ j p, j ≠ i → (s.run j).pid = some p → p ≠ pid := by
    rintro j p hj hp rfl
    exact h.used j p hp hfree
  have hprocs : ∀ p, p ≠ pid →
      (s.after i (.clone flags config) (.ok pid)).tree.procs p = s.tree.procs p := fun p hp =>
    Function.update_of_ne hp ..
  refine ⟨fun j hmade hfinished => ?_, fun j p hlimited hpid halive => ?_, fun k p j hp hpid => ?_,
    fun j p hpid => ?_, fun j k p hj hk => ?_⟩
  · by_cases hj : j = i
    · subst hj
      rw [hself] at hmade
      exact nomatch hmade
    · rw [hother j hj] at hmade hfinished
      obtain ⟨id, ho⟩ := h.owns j hmade hfinished
      exact ⟨id, ho.stays rfl rfl (hother j hj) rfl fun p hpid halive =>
        hprocs p (hused j p hj hpid) ▸ halive⟩
  · by_cases hj : j = i
    · subst hj
      rw [hself] at hlimited
      exact nomatch hlimited
    · rw [hother j hj] at hlimited hpid
      rw [hprocs p (hused j p hj hpid)] at halive
      obtain ⟨id, hs⟩ := h.seated j p hlimited hpid halive
      exact ⟨id, hs.stays rfl rfl⟩
  · by_cases hj : j = i
    · subst hj
      rw [hself] at hpid
      obtain rfl : pid = p := Option.some.inj hpid
      have hlive : s.tree.procs pid = .alive := s.tree.live hp
      exact nomatch hlive.symm.trans hfree
    · rw [hother j hj] at hpid
      exact h.owner k p j hp hpid
  · by_cases hj : j = i
    · subst hj
      rw [hself] at hpid
      obtain rfl : pid = p := Option.some.inj hpid
      exact fun hno => nomatch (Function.update_self (f := s.tree.procs) ..).symm.trans hno
    · rw [hother j hj] at hpid
      rw [hprocs p (hused j p hj hpid)]
      exact h.used j p hpid
  · by_cases hji : j = i
    · by_cases hki : k = i
      · rw [hji, hki]
      · subst hji
        rw [hself] at hj
        rw [hother k hki] at hk
        exact absurd (Option.some.inj hj).symm (hused k p hki hk)
    · rw [hother j hji] at hj
      by_cases hki : k = i
      · subst hki
        rw [hself] at hk
        exact absurd (Option.some.inj hk).symm (hused j p hji hj)
      · rw [hother k hki] at hk
        exact h.distinct j k p hj hk

/-- A run has waited for its container. -/
theorem Orderly.waits {pid : Nat} {w : Nat × WaitStatus} (h : Orderly s)
    (hpid : (s.run i).pid = some pid) (hzombie : s.tree.procs pid = .zombie) :
    Orderly (s.after i (.waitpid pid) (.ok w)) := by
  have hself : (s.after i (.waitpid pid) (.ok w)).run i = { s.run i with pid := none } :=
    after_run_self ..
  have hother := fun j (hj : j ≠ i) => after_run_of_ne (s := s) (.waitpid pid) (.ok w) hj
  have hnone : ∀ p, ((s.after i (.waitpid pid) (.ok w)).run i).pid ≠ some p := fun p hp => by
    rw [hself] at hp
    exact nomatch hp
  have hused : ∀ j p, j ≠ i → (s.run j).pid = some p → p ≠ pid := by
    rintro j p hj hp rfl
    exact hj (h.distinct j i p hp hpid)
  have hprocs : ∀ p, p ≠ pid →
      (s.after i (.waitpid pid) (.ok w)).tree.procs p = s.tree.procs p := fun p hp =>
    (congrFun (if_pos hzombie) p).trans (Function.update_of_ne hp ..)
  refine ⟨fun j hmade hfinished => ?_, fun j p hlimited hp halive => ?_, fun k p j hmem hp => ?_,
    fun j p hp => ?_, fun j k p hj hk => ?_⟩
  · by_cases hj : j = i
    · subst hj
      have hmade' : (s.run j).made = true := by rwa [hself] at hmade
      have hfinished' : (s.run j).finished = false := by rwa [hself] at hfinished
      obtain ⟨id, ho⟩ := h.owns j hmade' hfinished'
      refine ⟨id, ho.dir, ho.owner, ?_, fun d f hf => ?_, fun p hp => absurd hp (hnone p)⟩
      · rw [hself]
        exact ho.written
      · rw [hself] at hf
        exact ho.place d f hf
    · rw [hother j hj] at hmade hfinished
      obtain ⟨id, ho⟩ := h.owns j hmade hfinished
      exact ⟨id, ho.stays rfl rfl (hother j hj) rfl fun p hp halive =>
        hprocs p (hused j p hj hp) ▸ halive⟩
  · by_cases hj : j = i
    · subst hj
      exact absurd hp (hnone p)
    · rw [hother j hj] at hlimited hp
      rw [hprocs p (hused j p hj hp)] at halive
      obtain ⟨id, hs⟩ := h.seated j p hlimited hp halive
      exact ⟨id, hs.stays rfl rfl⟩
  · by_cases hj : j = i
    · subst hj
      exact absurd hp (hnone p)
    · rw [hother j hj] at hp
      exact h.owner k p j hmem hp
  · by_cases hj : j = i
    · subst hj
      exact absurd hp (hnone p)
    · rw [hother j hj] at hp
      rw [hprocs p (hused j p hj hp)]
      exact h.used j p hp
  · by_cases hji : j = i
    · subst hji
      exact absurd hj (hnone p)
    · by_cases hki : k = i
      · subst hki
        exact absurd hk (hnone p)
      · rw [hother j hji] at hj
        rw [hother k hki] at hk
        exact h.distinct j k p hj hk

/-- The owner is in the way of every other run, and nobody is in the way of the owner. -/
theorem Owns.holder (h : Owns s j id) (hj : j ≠ i) (hfinished : (s.run j).finished = false) :
    s.holder i barcontainer = some j := by
  unfold Sharing.holder
  rw [h.dir, Option.bind_some, h.owner]
  exact Option.filter_eq_some_iff.mpr ⟨rfl, decide_eq_true ⟨hj, hfinished⟩⟩

theorem Owns.no_holder (h : Owns s i id) : s.holder i barcontainer = none := by
  unfold Sharing.holder
  rw [h.dir, Option.bind_some, h.owner]
  exact if_neg fun hi => (of_decide_eq_true hi).1 rfl

/-- A run makes the directory where there is none. -/
theorem Orderly.makes (h : Orderly s)
    (hrule : groupRunRule (s.run i) (.mkdir (.cgroupDir barcontainer)))
    (hnone : s.tree.dirs barcontainer = none) :
    Orderly (s.after i (.mkdir (.cgroupDir barcontainer)) (.ok ())) := by
  have hopened : (s.run i).opened = fun _ => none := hrule.2.2
  have hself : (s.after i (.mkdir (.cgroupDir barcontainer)) (.ok ())).run i =
      { s.run i with made := true, written := [] } := after_run_self ..
  have hother := fun j (hj : j ≠ i) =>
    after_run_of_ne (s := s) (.mkdir (.cgroupDir barcontainer)) (.ok ()) hj
  have hpids : ∀ j, ((s.after i (.mkdir (.cgroupDir barcontainer)) (.ok ())).run j).pid =
      (s.run j).pid := fun j => by
    by_cases hj : j = i
    · rw [hj, hself]
    · rw [hother j hj]
  refine ⟨fun j hmade hfinished => ?_, fun j p hlimited hpid halive => ?_, fun k p j hp hpid => ?_,
    fun j p hpid => h.used j p (hpids j ▸ hpid),
    fun j k p hj hk => h.distinct j k p (hpids j ▸ hj) (hpids k ▸ hk)⟩
  · by_cases hj : j = i
    · subst hj
      refine ⟨s.tree.next, Hierarchy.make_dirs_self, ?_, ?_, fun d f hf => ?_,
        fun p hpid halive hx => ?_⟩
      · exact congrArg Group.owner (Hierarchy.make_groups_self (h := s.tree))
      · rw [hself]
        exact congrArg Group.written (Hierarchy.make_groups_self (h := s.tree))
      · rw [hself] at hf
        exact nomatch (congrFun hopened d).symm.trans hf
      · rw [hself] at hx
        obtain ⟨x, hx, -⟩ := hx
        exact nomatch hx
    · rw [hother j hj] at hmade hfinished
      obtain ⟨id, ho⟩ := h.owns j hmade hfinished
      exact nomatch hnone.symm.trans ho.dir
  · have hlim : (s.run j).limited = true := by
      by_cases hj : j = i
      · subst hj
        rwa [hself] at hlimited
      · rwa [hother j hj] at hlimited
    obtain ⟨id, hs⟩ := h.seated j p hlim (hpids j ▸ hpid) halive
    exact nomatch hnone.symm.trans hs.dir
  · obtain ⟨hold, hsame⟩ := Hierarchy.make_members hp
    exact (congrArg Group.owner hsame).trans (h.owner k p j hold (hpids j ▸ hpid))

/-- A run removes a directory without members that is nobody else's. -/
theorem Orderly.removes (h : Orderly s) (hid : s.tree.dirs barcontainer = some id)
    (hempty : (s.tree.groups id).members = []) (hfree : s.holder i barcontainer = none) :
    Orderly (s.after i (.rmdir (.cgroupDir barcontainer)) (.ok ())) := by
  have hself : (s.after i (.rmdir (.cgroupDir barcontainer)) (.ok ())).run i =
      { s.run i with made := false, retried := (s.run i).retried || (s.run i).inside } :=
    after_run_self ..
  have hother := fun j (hj : j ≠ i) =>
    after_run_of_ne (s := s) (.rmdir (.cgroupDir barcontainer)) (.ok ()) hj
  have hpids : ∀ j, ((s.after i (.rmdir (.cgroupDir barcontainer)) (.ok ())).run j).pid =
      (s.run j).pid := fun j => by
    by_cases hj : j = i
    · rw [hj, hself]
    · rw [hother j hj]
  refine ⟨fun j hmade hfinished => ?_, fun j p hlimited hpid halive => ?_,
    fun k p j hp hpid => h.owner k p j hp (hpids j ▸ hpid),
    fun j p hpid => h.used j p (hpids j ▸ hpid),
    fun j k p hj hk => h.distinct j k p (hpids j ▸ hj) (hpids k ▸ hk)⟩
  · by_cases hj : j = i
    · subst hj
      rw [hself] at hmade
      exact absurd hmade Bool.false_ne_true
    · rw [hother j hj] at hmade hfinished
      obtain ⟨k, ho⟩ := h.owns j hmade hfinished
      exact absurd ((ho.holder hj hfinished).symm.trans hfree) (Option.some_ne_none _)
  · have hlim : (s.run j).limited = true := by
      by_cases hj : j = i
      · subst hj
        rwa [hself] at hlimited
      · rwa [hother j hj] at hlimited
    obtain ⟨k, hs⟩ := h.seated j p hlim (hpids j ▸ hpid) halive
    obtain rfl : id = k := Option.some.inj (hid.symm.trans hs.dir)
    exact absurd (hempty ▸ hs.member) List.not_mem_nil

/-- Every considerate call keeps the invariant. -/
theorem Orderly.call {c : Call} {r : Answer c} (h : Orderly s) (hrule : groupRunRule (s.run i) c)
    (hans : s.answers i c r) (hconsiderate : Considerate i s c) : Orderly (s.after i c r) := by
  have hstill : ∀ {c : Call} {r : Answer c}, s.treeAfter i c r = s.tree →
      s.placeAfter i c r = s.place → (s.run i).after c r = s.run i → Orderly (s.after i c r) := by
    intro c r htree hplace hrun
    refine h.still htree hplace ?_ (fun _ _ hf => ?_) fun hl => ?_
    · rw [hrun]
      exact .refl _
    · rwa [hrun] at hf
    · rwa [hrun] at hl
  cases c with
  | clone flags config =>
    cases r with
    | error e => exact hstill rfl rfl rfl
    | ok pid => exact h.clones hrule hans
  | waitpid pid =>
    cases r with
    | error e => exact hstill rfl rfl rfl
    | ok w => exact h.waits hans.2.1 hans.2.2
  | «open» path mode =>
    cases r with
    | error e => cases path <;> exact hstill rfl rfl rfl
    | ok fd =>
      have hother : path.controlFile = none → s.placeAfter i (.open path mode) (.ok fd) = s.place →
          Orderly (s.after i (.open path mode) (.ok fd)) := fun hnone hplace => by
        refine h.still rfl hplace ⟨rfl, id, id, rfl⟩ (fun d f hf => ?_) id
        simp only [GroupRun.after, hnone] at hf
        by_cases hd : d = fd
        · rw [hd, Function.update_self] at hf
          exact nomatch hf
        · rwa [Function.update_of_ne hd] at hf
      cases path with
      | cgroupFile name file =>
        obtain ⟨-, rfl, -⟩ := hrule
        exact h.opens
      | _ => exact hother rfl rfl
  | close fd =>
    refine h.still rfl rfl ⟨rfl, id, id, rfl⟩ (fun d f hf => ?_) id
    by_cases hd : d = fd
    · subst hd
      exact nomatch (Function.update_self (f := (s.run i).opened) ..).symm.trans hf
    · exact (Function.update_of_ne hd ..).symm.trans hf
  | write fd data =>
    cases r with
    | error e => exact hstill rfl rfl rfl
    | ok n =>
      cases hfile : (s.run i).opened fd with
      | none =>
        refine hstill ?_ rfl ?_
        · simp only [Sharing.treeAfter, hfile]
        · simp only [GroupRun.after, hfile]
      | some file => exact h.writes hrule hfile
  | mkdir path =>
    cases path with
    | cgroupDir name =>
      cases r with
      | error e => exact hstill rfl rfl rfl
      | ok u =>
        obtain rfl : name = barcontainer := hrule.2.1
        exact h.makes hrule hans
    | _ => exact hstill rfl rfl rfl
  | rmdir path =>
    cases path with
    | cgroupDir name =>
      cases r with
      | error e => exact h.still rfl rfl ⟨rfl, id, id, rfl⟩ (fun _ _ hf => hf) id
      | ok u =>
        obtain rfl : name = barcontainer := hrule.2
        obtain ⟨id, hid, hempty⟩ := hans
        refine h.removes hid hempty ?_
        by_contra hholder
        exact (hconsiderate hholder).2 id hid hempty
    | _ => exact hstill rfl rfl rfl
  | enter f =>
    cases f with
    | cgroupsInit name pid => exact h.still rfl rfl ⟨rfl, id, id, rfl⟩ (fun _ _ hf => hf) id
    | _ => exact hstill rfl rfl rfl
  | leave f code =>
    cases f with
    | cgroupsInit name pid => exact h.initialized hrule
    | cgroupsFree name => exact h.still rfl rfl ⟨rfl, id, nofun, rfl⟩ (fun _ _ hf => hf) id
    | _ => exact hstill rfl rfl rfl
  | _ => exact hstill rfl rfl rfl

/-! ### Nobody is lost or hindered -/

/-- A considerate call removes nobody's directory. -/
theorem removes_of_considerate {c : Call} {r : Answer c} (hans : s.answers i c r)
    (hconsiderate : Considerate i s c) : s.removes i c r = none := by
  cases c with
  | rmdir path =>
    cases path with
    | cgroupDir name =>
      cases r with
      | error e => rfl
      | ok u =>
        obtain ⟨id, hid, hempty⟩ := hans
        by_contra hholder
        exact (hconsiderate hholder).2 id hid hempty
    | _ => rfl
  | _ => rfl

theorem holder_dir {name : CStr} (h : s.holder i name ≠ none) : s.tree.dirs name ≠ none := by
  intro hnone
  unfold Sharing.holder at h
  rw [hnone] at h
  exact h rfl

/-- Where all calls are considerate, nobody is in the way of a call that fails. -/
theorem not_hindered {c : Call} {r : Answer c} (h : Orderly s) (hrule : groupRunRule (s.run i) c)
    (hans : s.answers i c r) (hconsiderate : Considerate i s c) (hlost : s.lost i = false) :
    ((s.run i).fatal c r && s.obstructed i c) = false := by
  rw [Bool.and_eq_false_iff, or_iff_not_imp_left]
  intro hfatal
  rw [Bool.not_eq_false] at hfatal
  have hclear : ∀ name, s.holder i name = none →
      ((s.holder i name).isSome || s.lost i) = false := fun name hno => by
    rw [hno, hlost]
    rfl
  cases c with
  | mkdir path =>
    cases path with
    | cgroupDir name =>
      cases r with
      | ok u => exact nomatch hfatal
      | error e =>
        refine hclear name ?_
        by_contra hholder
        have he : e = EEXIST := hans.mpr (holder_dir hholder)
        have hretried : (s.run i).retried = true := by
          simpa only [GroupRun.fatal, he, bne_self_eq_false, Bool.or_false] using hfatal
        exact hholder (hconsiderate hretried)
    | _ => exact hlost
  | rmdir path =>
    cases path with
    | cgroupDir name =>
      cases r with
      | ok u => exact nomatch hfatal
      | error e =>
        refine hclear name ?_
        by_contra hholder
        have hinside : (s.run i).inside = true := (Bool.and_eq_true_iff.mp hfatal).1
        exact nomatch hinside.symm.trans (hconsiderate hholder).1
    | _ => exact hlost
  | «open» path mode =>
    cases path with
    | cgroupFile name file =>
      obtain ⟨hfinished, rfl, hmade⟩ := hrule
      obtain ⟨id, ho⟩ := h.owns i hmade hfinished
      exact hclear barcontainer ho.no_holder
    | _ => exact hlost
  | _ => exact hlost

/-- Orderly runs in which nothing has happened to anybody. -/
structure Regular (s : Sharing ι) : Prop extends Orderly s where
  kept : ∀ i, s.lost i = false
  free : ∀ i, s.hindered i = false

theorem Regular.call {c : Call} {r : Answer c} (h : Regular s) (hrule : groupRunRule (s.run i) c)
    (hans : s.answers i c r) (hconsiderate : Considerate i s c) : Regular (s.after i c r) where
  toOrderly := h.toOrderly.call hrule hans hconsiderate
  kept j := by
    show (s.lost j || decide (s.removes i c r = some j)) = false
    rw [h.kept j, removes_of_considerate hans hconsiderate]
    rfl
  free j := by
    have hno := not_hindered h.toOrderly hrule hans hconsiderate (h.kept i)
    show (s.hindered j || (decide (j = i) && (s.run i).fatal c r && s.obstructed i c)) = false
    rw [h.free j, Bool.and_assoc, hno, Bool.and_false]
    rfl

theorem sharing_simulates : (considerateHost (ι := ι)).Simulates (fun _ => groupRunProtocol)
    (fun _ _ _ => True) fun s l => l = s.run ∧ Regular s := by
  refine ⟨@fun s l i c r s' hI hmay hcall => ?_, @fun s l s' hI henv => ?_⟩
  · obtain ⟨rfl, hregular⟩ := hI
    obtain ⟨⟨hans, rfl⟩, hconsiderate⟩ := hcall
    exact ⟨(s.after i c r).run, ⟨rfl, hregular.call hmay hans hconsiderate⟩, after_run_self c r,
      fun j hj => after_run_of_ne c r hj⟩
  · obtain ⟨rfl, hregular⟩ := hI
    obtain ⟨p, -, rfl⟩ := henv
    exact ⟨rfl, hregular.toOrderly.exit p, hregular.kept, hregular.free⟩

variable {retries : ι → Nat} {args : ι → Args} {found : Option Found}
  {g g' : Global ι Call Answer Int (Sharing ι)}

theorem regular_of_considerate
    (h : considerateHost.Reachable (sharingStart retries args found) g) : Regular g.kern := by
  have hstart : Regular (sharingStart retries args found).kern :=
    ⟨⟨nofun, nofun, nofun, nofun, nofun⟩, fun _ => rfl, fun _ => rfl⟩
  obtain ⟨l, ⟨-, hregular⟩, -⟩ := sharing_simulates.reachable_inv (fun _ => .start)
    ⟨rfl, hstart⟩ (fun i => main_run (retries i) (args i)) h
  exact hregular

/-- With all the settings written, each limit holds. -/
theorem holds_settings (p : Nat) {x : CgroupsSetting} (hx : x ∈ groupLimits) :
    holds (cgroupsSettings p) x.name = some x.value := by
  simp only [groupLimits, List.mem_cons, List.not_mem_nil, or_false] at hx
  rcases hx with rfl | rfl | rfl <;> rfl

omit [DecidableEq ι] in
theorem Regular.keepsApart (h : Regular s) : KeepsApart s where
  kept := h.kept
  free := h.free
  limited i p hlimited hpid halive := by
    obtain ⟨id, hs⟩ := h.seated i p hlimited hpid halive
    refine ⟨id, hs.dir, fun x hx => hs.written ▸ holds_settings p hx, hs.member,
      fun j q hj hq hmem => hj ?_⟩
    exact Option.some.inj ((h.owner id q j hmem hq).symm.trans hs.owner)

/-- A call that is not considerate takes another's directory or fails because of it. -/
theorem considerate_of_apart {c : Call} {r : Answer c} (hans : s.answers i c r)
    (hkept : ∀ j, (s.after i c r).lost j = false) (hfree : (s.after i c r).hindered i = false) :
    Considerate i s c := by
  have hno : (s.run i).fatal c r = true → s.obstructed i c = true → False := fun hf ho => by
    have hhindered : (s.hindered i || (decide (i = i) && (s.run i).fatal c r &&
        s.obstructed i c)) = false := hfree
    rw [hf, ho, decide_eq_true rfl] at hhindered
    simp at hhindered
  cases c with
  | mkdir path =>
    cases path with
    | cgroupDir name =>
      intro hretried
      by_contra hholder
      cases r with
      | ok u => exact holder_dir hholder hans
      | error e =>
        refine hno ?_ ?_
        · simp only [GroupRun.fatal, hretried, Bool.true_or]
        · simp only [Sharing.obstructed, Option.isSome_iff_ne_none.mpr hholder, Bool.true_or]
    | _ => trivial
  | rmdir path =>
    cases path with
    | cgroupDir name =>
      intro hholder
      cases r with
      | ok u =>
        obtain ⟨j, hj⟩ := Option.ne_none_iff_exists'.mp hholder
        have hlost : (s.lost j || decide (s.holder i name = some j)) = false := hkept j
        rw [hj, decide_eq_true rfl, Bool.or_true] at hlost
        exact nomatch hlost
      | error e =>
        refine ⟨?_, hans.2⟩
        by_contra hinside
        rw [Bool.not_eq_false] at hinside
        refine hno ?_ ?_
        · have he : e ≠ ENOENT := fun he => holder_dir hholder (hans.1.mp he)
          simp only [GroupRun.fatal, hinside, Bool.true_and, bne_iff_ne.mpr he]
        · simp only [Sharing.obstructed, Option.isSome_iff_ne_none.mpr hholder, Bool.true_or]
    | _ => trivial
  | _ => trivial

/-- What is wrong stays wrong. -/
theorem apart_before {c : Call} {r : Answer c} (hkept : ∀ j, (s.after i c r).lost j = false)
    (hfree : ∀ j, (s.after i c r).hindered j = false) :
    (∀ j, s.lost j = false) ∧ ∀ j, s.hindered j = false :=
  ⟨fun j => (Bool.or_eq_false_iff.mp (hkept j)).1, fun j => (Bool.or_eq_false_iff.mp (hfree j)).1⟩

theorem considerate_reachable (h : sharingHost.Reachable g g')
    (hapart : (∀ j, g'.kern.lost j = false) ∧ ∀ j, g'.kern.hindered j = false) :
    considerateHost.Reachable g g' := by
  induction h with
  | refl => exact .refl
  | @tail g₁ g₂ _ hs ih =>
    obtain ⟨hkept, hfree⟩ := hapart
    cases hs with
    | env henv =>
      obtain ⟨p, halive, rfl⟩ := henv
      exact (ih ⟨hkept, hfree⟩).tail (.env ⟨p, halive, rfl⟩)
    | @call i c k r s' hk hcall =>
      obtain ⟨hans, rfl⟩ := hcall
      exact (ih (apart_before hkept hfree)).tail
        (.call hk ⟨⟨hans, rfl⟩, considerate_of_apart hans hkept (hfree i)⟩)

end Together

/-- Any number of runs of barco: they have been kept apart exactly when each of their calls
was considerate. -/
theorem isolation_iff {ι : Type} [DecidableEq ι] (retries : ι → Nat) (args : ι → Args)
    (found : Option Found) (g : Global ι Call Answer Int (Sharing ι)) :
    sharingHost.Reachable (sharingStart retries args found) g ∧ KeepsApart g.kern ↔
      considerateHost.Reachable (sharingStart retries args found) g := by
  constructor
  · rintro ⟨h, hapart⟩
    exact considerate_reachable h ⟨hapart.kept, hapart.free⟩
  · intro h
    exact ⟨Host.reachable_of_restrict h, (regular_of_considerate h).keepsApart⟩

/-! ## Two runs -/

/-- All runs on all hosts are kept apart. -/
def RunsApart : Prop :=
  ∀ (ι : Type) [DecidableEq ι] (retries : ι → Nat) (args : ι → Args) (found : Option Found)
    (g : Global ι Call Answer Int (Sharing ι)),
    sharingHost.Reachable (sharingStart retries args found) g → KeepsApart g.kern

/-- A quick test for the answers that a run of two gets. -/
def Sharing.allows (s : Sharing Bool) (i : Bool) : (c : Call) → Answer c → Bool
  | .mkdir (.cgroupDir name), .ok _ => (s.tree.dirs name).isNone
  | .mkdir (.cgroupDir _), .error _ | .rmdir (.cgroupDir _), .error _ => false
  | .rmdir (.cgroupDir name), .ok _ =>
    (s.tree.dirs name).any fun id => (s.tree.groups id).members.isEmpty
  | .open (.cgroupFile name _) _, .ok _ => (s.tree.dirs name).isSome
  | .write fd data, .ok n => ((s.run i).opened fd).isNone ||
    (n == data.length && s.tree.dirs (s.place i fd).1 == some (s.place i fd).2)
  | .clone _ _, .ok pid => s.tree.procs pid = .free
  | .waitpid _, .ok _ => false
  | _, _ => true

theorem Sharing.allows_answers {s : Sharing Bool} {i : Bool} {c : Call} {r : Answer c}
    (h : s.allows i c r = true) : s.answers i c r := by
  cases c with
  | mkdir path =>
    cases path with
    | cgroupDir name =>
      cases r with
      | error e => exact nomatch h
      | ok u => exact Option.isNone_iff_eq_none.mp h
    | _ => cases r <;> trivial
  | rmdir path =>
    cases path with
    | cgroupDir name =>
      cases r with
      | error e => exact nomatch h
      | ok u =>
        obtain ⟨id, hid, hempty⟩ := (Option.any_eq_true _ _).mp h
        exact ⟨id, hid, List.isEmpty_iff.mp hempty⟩
    | _ => cases r <;> trivial
  | «open» path mode =>
    cases path with
    | cgroupFile name file =>
      cases r with
      | error e => trivial
      | ok fd => exact Option.isSome_iff_ne_none.mp h
    | _ => cases r <;> trivial
  | write fd data =>
    cases r with
    | error e => trivial
    | ok n =>
      intro hne
      rcases Bool.or_eq_true_iff.mp h with hnone | hsome
      · exact absurd (Option.isNone_iff_eq_none.mp hnone) hne
      · obtain ⟨hlength, hdir⟩ := Bool.and_eq_true_iff.mp hsome
        exact ⟨beq_iff_eq.mp hlength, beq_iff_eq.mp hdir⟩
  | clone flags config =>
    cases r with
    | error e => trivial
    | ok pid =>
      have hfree : s.tree.procs pid = .free := of_decide_eq_true h
      exact hfree
  | waitpid pid =>
    cases r with
    | error e => trivial
    | ok w => exact nomatch h
  | _ => trivial

/-- The call as a function. -/
def sharingPost (i : Bool) (s : Sharing Bool) (c : Call) (r : Answer c) : Option (Sharing Bool) :=
  if s.allows i c r then some (s.after i c r) else none

theorem sharingPost_call {i : Bool} {s s' : Sharing Bool} {c : Call} {r : Answer c}
    (h : sharingPost i s c r = some s') : sharingHost.call i s c r s' := by
  simp only [sharingPost] at h
  split at h
  · exact ⟨Sharing.allows_answers ‹_›, (Option.some.inj h).symm⟩
  · exact nomatch h

/-- Two runs, up to what a schedule comes to. -/
theorem sharing_run {ts : List (Host.Turn Bool Call Answer)} {α : Type} {a : α}
    {view : Global Bool Call Answer Int (Sharing Bool) → α}
    (h : (sharingHost.exec sharingPost (fun _ => none) ts
      (sharingStart (fun _ => 1) (fun _ => plainArgs) none)).map view = some a) :
    ∃ g, sharingHost.Reachable (sharingStart (fun _ : Bool => 1) (fun _ => plainArgs) none) g ∧
      view g = a := by
  obtain ⟨g, hg, hview⟩ := Option.map_eq_some_iff.mp h
  have hpost : ∀ i s c r s', sharingPost i s c r = some s' → sharingHost.call i s c r s' :=
    fun _ _ _ _ _ => sharingPost_call
  have hmove : ∀ s s' : Sharing Bool, none = some s' → sharingHost.env s s' :=
    fun _ _ h => nomatch h
  exact ⟨g, Host.exec_reachable hpost hmove hg, hview⟩

/-- A container is limited by considerate calls. -/
theorem isolation_limited : ∃ g, considerateHost.Reachable
    (sharingStart (fun _ : Bool => 1) (fun _ => plainArgs) none) g ∧
      (sharingHost.Reachable (sharingStart (fun _ : Bool => 1) (fun _ => plainArgs) none) g ∧
        KeepsApart g.kern) ∧
      (g.kern.run true).limited = true ∧ (g.kern.run true).pid = some 100 ∧
      g.kern.tree.procs 100 = .alive := by
  have hrun : (sharingHost.exec sharingPost (fun _ => none)
      (List.replicate 27 (.call true granted))
      (sharingStart (fun _ => 1) (fun _ => plainArgs) none)).map (fun g =>
        ((g.kern.run true).limited, (g.kern.run true).pid, g.kern.tree.procs 100,
          [g.kern.lost true, g.kern.lost false, g.kern.hindered true, g.kern.hindered false])) =
        some (true, some 100, .alive, [false, false, false, false]) := by
    decide +kernel
  obtain ⟨g, hg, hview⟩ := sharing_run hrun
  simp only [Prod.mk.injEq, List.cons.injEq, and_true] at hview
  obtain ⟨hlimited, hpid, halive, hlost, hlost', hhindered, hhindered'⟩ := hview
  have hconsiderate := considerate_reachable hg ⟨Bool.forall_bool.mpr ⟨hlost', hlost⟩,
    Bool.forall_bool.mpr ⟨hhindered', hhindered⟩⟩
  exact ⟨g, hconsiderate, (isolation_iff _ _ none g).mpr hconsiderate, hlimited, hpid, halive⟩

/-- There is no process for a container. -/
def noProcess : (c : Call) → Option (Answer c)
  | .clone _ _ => some (.error EAGAIN)
  | c => granted c

/-- One run has made its directory; another has no container and removes it in its cleanup. -/
theorem runs_interfere : ¬ RunsApart := by
  intro h
  have hrun : (sharingHost.exec sharingPost (fun _ => none)
      (List.replicate 14 (.call true granted) ++ List.replicate 10 (.call false noProcess))
      (sharingStart (fun _ => 1) (fun _ => plainArgs) none)).map (fun g => g.kern.lost true) =
        some true := by
    decide +kernel
  obtain ⟨g, hg, hlost⟩ := sharing_run hrun
  exact nomatch hlost.symm.trans ((h Bool _ _ _ g hg).kept true)

end Barco
