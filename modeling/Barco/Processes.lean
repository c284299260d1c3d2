import Barco.Effect.Interleave
import Barco.Main

/-!
# The parent, the child and the socket between them

`main` and the process it clones, run one call at a time and in any order over one
kernel: the life of the child, the two ends of a `SOCK_SEQPACKET` pair with the
messages that are under way, and the id files of the child.

What is assumed of the kernel:
* an exited child stays a zombie until it is waited for;
* `kill` on a child that has not been waited for succeeds, and `waitpid` on it waits
  for the child to exit or fails with `EINTR`;
* messages are atomic, and a read returns nothing when every copy of the peer's end
  is closed; a descriptor number is not given out while it names an end.

Any other call may fail in any way, and the child may be killed at any step.
-/

namespace Barco

open Effect

inductive Role
  | parent | child
deriving DecidableEq

/-! ## The socket pair -/

/-- The numbers under which a process holds the two ends of the pair: `a` is the
parent's end, `b` the child's. -/
structure Ends where
  a : Option Int
  b : Option Int
deriving DecidableEq

namespace Ends

def none : Ends := ⟨.none, .none⟩

def close (e : Ends) (fd : Int) : Ends :=
  ⟨if e.a = some fd then .none else e.a, if e.b = some fd then .none else e.b⟩

/-- The number names no end. -/
def Free (e : Ends) (fd : Int) : Prop := e.a ≠ some fd ∧ e.b ≠ some fd

instance (e : Ends) (fd : Int) : Decidable (e.Free fd) := inferInstanceAs (Decidable (_ ∧ _))

end Ends

/-! ## What each side has done -/

/-- The parent's descriptors, its child, and what it has done so far. -/
structure ParentSide where
  ends : Ends
  /-- the id files that are open, by their number -/
  files : Int → Option IdFile
  /-- what was written to id files, in order -/
  written : List (IdFile × List UInt8)
  /-- the messages it sent and the results of its reads at the socket -/
  sent : List (List UInt8)
  heard : List (List UInt8)
  /-- `cgroups_init` has returned -/
  cgroup : Bool
  /-- `nl_move_to_ns` has returned 0 -/
  moved : Bool
  /-- what `user_namespace_prepare_mappings` has returned -/
  mapped : Option Int
  pid : Option Nat
  /-- SIGKILL was sent to the child -/
  killed : Bool
  /-- what `waitpid` returned for the child -/
  status : Option WaitStatus

/-- The child's descriptors, and what it has done so far. -/
structure ChildSide where
  ends : Ends
  /-- `unshare(CLONE_NEWUSER)` has succeeded -/
  unshared : Bool
  sent : List (List UInt8)
  heard : List (List UInt8)
  /-- `execve` has succeeded -/
  execed : Bool

namespace ParentSide

def start : ParentSide :=
  ⟨.none, fun _ => none, [], [], [], false, false, none, none, false, none⟩

/-- The file of the child that the path names. -/
def fileOf (p : ParentSide) : Path → Option IdFile
  | .idFile pid file => if p.pid = some pid then some file else none
  | _ => none

/-- A write that may go to an id file. -/
def wrote (p : ParentSide) (fd : Int) (data : List UInt8) : ParentSide :=
  match p.files fd with
  | some file => { p with written := p.written ++ [(file, data)] }
  | none => p

def after (p : ParentSide) : (c : Call) → Answer c → ParentSide
  | .socketpair, .ok (x, y) => { p with ends := ⟨some x, some y⟩ }
  | .open path _, .ok n =>
    { p with files := fun fd => if fd = n then p.fileOf path else p.files fd }
  | .close fd, _ =>
    { p with ends := p.ends.close fd, files := fun d => if d = fd then none else p.files d }
  | .write fd data, .ok n =>
    if p.ends.a = some fd then { p with sent := p.sent ++ [data.take n] }
    else if n = data.length then p.wrote fd data else p
  | .dprintf fd data, .ok _ => p.wrote fd data
  | .read fd _, .ok data => if p.ends.a = some fd then { p with heard := p.heard ++ [data] } else p
  | .clone _ _, .ok pid => { p with pid := some pid }
  | .kill pid sig, .ok _ => if p.pid = some pid ∧ sig = SIGKILL then { p with killed := true } else p
  | .waitpid pid, .ok (_, status) => if p.pid = some pid then { p with status := some status } else p
  | .leave (.cgroupsInit _ _) _, _ => { p with cgroup := true }
  | .leave (.nlMoveToNs _ _) r, _ => if r = 0 then { p with moved := true } else p
  | .leave (.prepareMappings _ _) r, _ => { p with mapped := some r }
  | _, _ => p

end ParentSide

namespace ChildSide

/-- A child begins with its parent's descriptors. -/
def start (ends : Ends) : ChildSide := ⟨ends, false, [], [], false⟩

/-- `execve` closes the parent's end, which `main` has marked for it. -/
def after (c : ChildSide) : (call : Call) → Answer call → ChildSide
  | .close fd, _ => { c with ends := c.ends.close fd }
  | .write fd data, .ok n =>
    if c.ends.b = some fd then { c with sent := c.sent ++ [data.take n] } else c
  | .read fd _, .ok data => if c.ends.b = some fd then { c with heard := c.heard ++ [data] } else c
  | .unshare _, .ok _ => { c with unshared := true }
  | .execve _ _, .ok _ => { c with execed := true, ends := { c.ends with a := none } }
  | _, _ => c

end ChildSide

/-! ## The kernel -/

inductive Life
  | unborn
  /-- the child runs `container_start` -/
  | starting
  /-- the child runs the program -/
  | running
  | zombie (status : WaitStatus)
  | reaped (status : WaitStatus)
deriving DecidableEq

structure World where
  parent : ParentSide
  child : ChildSide
  /-- messages that wait at the parent's end and at the child's -/
  toParent : List (List UInt8)
  toChild : List (List UInt8)
  life : Life

namespace World

def start : World := ⟨.start, .start .none, [], [], .unborn⟩

/-- The child exists and has not been waited for. -/
def Unreaped (s : World) (pid : Nat) : Prop :=
  s.parent.pid = some pid ∧ (s.life = .starting ∨ s.life = .running ∨ ∃ st, s.life = .zombie st)

instance (s : World) (pid : Nat) : Decidable (s.Unreaped pid) :=
  match h : s.life with
  | .starting => decidable_of_iff (s.parent.pid = some pid) (by simp [Unreaped, h])
  | .running => decidable_of_iff (s.parent.pid = some pid) (by simp [Unreaped, h])
  | .zombie _ => decidable_of_iff (s.parent.pid = some pid) (by simp [Unreaped, h])
  | .unborn => isFalse (by simp [Unreaped, h])
  | .reaped _ => isFalse (by simp [Unreaped, h])

/-- A copy of the end is open somewhere. -/
def aOpen (s : World) : Prop := s.parent.ends.a.isSome ∨ s.child.ends.a.isSome
def bOpen (s : World) : Prop := s.parent.ends.b.isSome ∨ s.child.ends.b.isSome

/-- What a read of `count` bytes gives where the messages `inbox` wait and the peer's
end is open or not. -/
def Reads (inbox : List (List UInt8)) (peer : Prop) (count : Nat) (data : List UInt8) : Prop :=
  match inbox with
  | msg :: _ => data = msg.take count
  | [] => ¬ peer ∧ data = []

/-- What a process that holds the ends `e` can be answered. -/
def answers (s : World) (e : Ends) : (c : Call) → Answer c → Prop
  | .socketpair, .ok (x, y) => x ≠ y
  | .socketNetlink, .ok n => e.Free n
  | .open _ _, .ok n => e.Free n
  | .write _ data, .ok n => n ≤ data.length
  | .read fd count, .ok data => (e.a = some fd → Reads s.toParent s.bOpen count data) ∧
    (e.b = some fd → Reads s.toChild s.aOpen count data)
  | _, _ => True

/-- What the parent can be answered. -/
def parentAnswers (s : World) : (c : Call) → Answer c → Prop
  | .clone _ _, .ok _ => s.life = .unborn
  | .kill pid _, r => s.Unreaped pid → r = .ok ()
  | .waitpid pid, .error e => s.Unreaped pid → e = EINTR
  | .waitpid pid, .ok (w, status) => s.parent.pid = some pid ∧ w = pid ∧ s.life = .zombie status
  | c, r => s.answers s.parent.ends c r

instance (inbox : List (List UInt8)) (peer : Prop) [Decidable peer] (count : Nat)
    (data : List UInt8) : Decidable (Reads inbox peer count data) :=
  match inbox with
  | msg :: _ => inferInstanceAs (Decidable (data = msg.take count))
  | [] => inferInstanceAs (Decidable (¬ peer ∧ data = []))

instance (s : World) : Decidable s.aOpen := inferInstanceAs (Decidable (_ ∨ _))
instance (s : World) : Decidable s.bOpen := inferInstanceAs (Decidable (_ ∨ _))

/-- `answers` as a test. -/
def answersBool (s : World) (e : Ends) : (c : Call) → Answer c → Bool
  | .socketpair, .ok (x, y) => x ≠ y
  | .socketNetlink, .ok n => e.Free n
  | .open _ _, .ok n => e.Free n
  | .write _ data, .ok n => n ≤ data.length
  | .read fd count, .ok data => (e.a = some fd → Reads s.toParent s.bOpen count data) ∧
    (e.b = some fd → Reads s.toChild s.aOpen count data)
  | _, _ => true

theorem answersBool_iff (s : World) (e : Ends) (c : Call) (r : Answer c) :
    s.answersBool e c r = true ↔ s.answers e c r := by
  cases c with
  | socketpair => cases r with
    | error _ => exact iff_of_true rfl trivial
    | ok ends => exact decide_eq_true_iff
  | socketNetlink => cases r with
    | error _ => exact iff_of_true rfl trivial
    | ok n => exact decide_eq_true_iff
  | «open» path mode => cases r with
    | error _ => exact iff_of_true rfl trivial
    | ok n => exact decide_eq_true_iff
  | write fd data => cases r with
    | error _ => exact iff_of_true rfl trivial
    | ok n => exact decide_eq_true_iff
  | read fd count => cases r with
    | error _ => exact iff_of_true rfl trivial
    | ok data => exact decide_eq_true_iff
  | _ => exact iff_of_true rfl trivial

instance (s : World) (e : Ends) (c : Call) (r : Answer c) : Decidable (s.answers e c r) :=
  decidable_of_iff _ (answersBool_iff s e c r)

/-- `parentAnswers` as a test. -/
def parentAnswersBool (s : World) : (c : Call) → Answer c → Bool
  | .clone _ _, .ok _ => s.life = .unborn
  | .kill pid _, r => s.Unreaped pid → r = .ok ()
  | .waitpid pid, .error e => s.Unreaped pid → e = EINTR
  | .waitpid pid, .ok (w, status) => s.parent.pid = some pid ∧ w = pid ∧ s.life = .zombie status
  | c, r => s.answersBool s.parent.ends c r

theorem parentAnswersBool_iff (s : World) (c : Call) (r : Answer c) :
    s.parentAnswersBool c r = true ↔ s.parentAnswers c r := by
  cases c with
  | clone flags config => cases r with
    | error _ => exact iff_of_true rfl trivial
    | ok pid => exact decide_eq_true_iff
  | kill pid sig => exact decide_eq_true_iff
  | waitpid pid => cases r with
    | error e => exact decide_eq_true_iff
    | ok w => exact decide_eq_true_iff
  | _ => exact answersBool_iff s s.parent.ends _ r

instance (s : World) (c : Call) (r : Answer c) : Decidable (s.parentAnswers c r) :=
  decidable_of_iff _ (parentAnswersBool_iff s c r)

/-- The messages after a call of a process that holds the ends `e`. -/
def carried (s : World) (e : Ends) : (c : Call) → Answer c → World
  | .write fd data, .ok n =>
    { s with
      toChild := if e.a = some fd then s.toChild ++ [data.take n] else s.toChild
      toParent := if e.b = some fd then s.toParent ++ [data.take n] else s.toParent }
  | .read fd _, .ok _ =>
    { s with
      toParent := if e.a = some fd then s.toParent.tail else s.toParent
      toChild := if e.b = some fd then s.toChild.tail else s.toChild }
  | _, _ => s

def parentAfter (s : World) (c : Call) (r : Answer c) : World :=
  let s' := { s.carried s.parent.ends c r with parent := s.parent.after c r }
  match c, r with
  | .clone _ _, .ok _ => { s' with child := .start s.parent.ends, life := .starting }
  | .waitpid _, .ok (_, status) => { s' with life := .reaped status }
  | _, _ => s'

/-- The child has terminated: its descriptors are closed. -/
def exit (s : World) (status : WaitStatus) : World :=
  { s with child := { s.child with ends := .none }, life := .zombie status }

/-- The return value of `container_start` is the child's exit status. -/
def childAfter (s : World) (c : Call) (r : Answer c) : World :=
  let s' := { s.carried s.child.ends c r with child := s.child.after c r }
  match c, r with
  | .execve _ _, .ok _ => { s' with life := .running }
  | .leave .containerStart code, _ => s'.exit (.exited (code % 256).toNat)
  | _, _ => s'

/-- A call and its answer. The child makes calls as long as it runs `container_start`. -/
def call : Role → World → (c : Call) → Answer c → World → Prop
  | .parent, s, c, r, s' => s.parentAnswers c r ∧ s' = s.parentAfter c r
  | .child, s, c, r, s' => s.life = .starting ∧ s.answers s.child.ends c r ∧ s' = s.childAfter c r

/-- The call as a function. -/
def post : Role → World → (c : Call) → Answer c → Option World
  | .parent, s, c, r => if s.parentAnswers c r then some (s.parentAfter c r) else none
  | .child, s, c, r =>
    if s.life = .starting ∧ s.answers s.child.ends c r then some (s.childAfter c r) else none

theorem post_call {i : Role} {s s' : World} {c : Call} {r : Answer c}
    (h : post i s c r = some s') : call i s c r s' := by
  cases i with
  | parent =>
    simp only [post] at h
    split at h
    · exact ⟨‹_›, (Option.some.inj h).symm⟩
    · exact nomatch h
  | child =>
    simp only [post] at h
    split at h
    · rename_i hc
      exact ⟨hc.1, hc.2, (Option.some.inj h).symm⟩
    · exact nomatch h

/-- A child may be killed by a signal, and the program may exit. -/
inductive Env : World → World → Prop
  | signal {s : World} {sig : Nat} : s.life = .starting ∨ s.life = .running → 1 ≤ sig → sig ≤ 64 →
      Env s (s.exit (.signaled sig))
  | exit {s : World} {code : Nat} : s.life = .running → code < 256 → Env s (s.exit (.exited code))

end World

/-- The two processes; `clone` starts the child. -/
def pairHost : Host Role Call Answer Int World where
  call := World.call
  env := World.Env
  spawn
    | .parent, .clone _ config, .ok _, .child =>
      some (invoke .containerStart (containerStart config))
    | _, _, _, _ => none

/-- `main` before its first call; there is no child. -/
def pairStart (retries : Nat) (args : Args) : Global Role Call Answer Int World where
  kern := .start
  prog
    | .parent => main retries args
    | .child => .ret 0

end Barco
