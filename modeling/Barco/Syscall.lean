import Barco.Effect.Machine
import Barco.Linux.Seccomp
import Mathlib.Algebra.Group.Int.Defs
import Mathlib.Algebra.GroupWithZero.Nat

/-!
# The calls barco makes

Every function of the program is a `Sys α`: a tree of the calls below. Calls
that fail with -1 and an errno are answered in `Res`; a pointer result is a
`Bool` (NULL or not) where only that is looked at. Descriptors are C ints as
arguments, so that -1 can be passed on, and naturals as results.

Three kinds of calls have no counterpart in the kernel:
* `enter` and `leave` are ghosts. They record that a function of the program
  was called and what it returned, and change nothing.
* `uninit n` is the prior contents of `n` bytes of stack.
* `undefined` and `waiting` have no answer: the run has no defined
  continuation (a write outside an object), or still loops.
-/

namespace Barco

open Effect

/-! ## C strings -/

/-- A C string without its terminating NUL. -/
abbrev CStr : Type := {bs : List UInt8 // 0 ∉ bs}

/-- The bytes of an ASCII literal of the source. -/
def ascii (s : String) : List UInt8 := s.toList.map fun c => c.toNat.toUInt8

namespace CStr

def append (a b : CStr) : CStr := ⟨a.1 ++ b.1, by simp [a.2, b.2]⟩

instance : Append CStr := ⟨append⟩

/-- The first `n` bytes: `%.*s`, or `snprintf` into a buffer of `n + 1`. -/
def take (n : Nat) (s : CStr) : CStr := ⟨s.1.take n, fun h => s.2 (List.mem_of_mem_take h)⟩

def drop (n : Nat) (s : CStr) : CStr := ⟨s.1.drop n, fun h => s.2 (List.mem_of_mem_drop h)⟩

/-- The string in a buffer: everything before the first NUL. -/
def ofBuf (bs : List UInt8) : CStr :=
  ⟨bs.takeWhile (· ≠ 0), fun h => by simpa using List.all_eq_true.mp List.all_takeWhile 0 h⟩

/-- `strchr`: the offset of the first `b`. -/
def chr (b : UInt8) (s : CStr) : Option Nat := s.1.findIdx? (· = b)

@[simp] theorem append_val (a b : CStr) : (a ++ b).1 = a.1 ++ b.1 := rfl

@[simp] theorem take_val (n : Nat) (s : CStr) : (s.take n).1 = s.1.take n := rfl

@[simp] theorem ofBuf_val (bs : List UInt8) : (ofBuf bs).1 = bs.takeWhile (· ≠ 0) := rfl

end CStr

/-! ## Errors, paths and descriptors -/

abbrev Errno : Type := Nat

def EPERM : Errno := 1
def ENOENT : Errno := 2
def EINTR : Errno := 4
def EAGAIN : Errno := 11
def EEXIST : Errno := 17
def EINVAL : Errno := 22

/-- The answer of a call that can fail with an errno. -/
abbrev Res (α : Type) : Type := Except Errno α

/-- The files of `/proc/<pid>` that set up a user namespace. -/
inductive IdFile
  | setgroups | uidMap | gidMap
deriving DecidableEq, Repr

/-- The paths the program opens, makes or removes. -/
inductive Path
  /-- `/proc/sys/net/ipv4/ip_forward` -/
  | ipForward
  /-- `/proc/sys/net/ipv4/ping_group_range` -/
  | pingGroupRange
  /-- `/etc/resolv.conf` -/
  | resolvConf
  /-- `/sys/fs/cgroup/cgroup.subtree_control` -/
  | subtreeControl
  /-- `/sys/fs/cgroup/<hostname>` -/
  | cgroupDir (hostname : CStr)
  /-- `/sys/fs/cgroup/<hostname>/<name>` -/
  | cgroupFile (hostname name : CStr)
  /-- `/proc/<pid>/ns/net` -/
  | netNs (pid : Nat)
  /-- `/proc/<pid>/<file>` -/
  | idFile (pid : Nat) (file : IdFile)
  /-- a path built at run time -/
  | raw (bytes : CStr)
deriving DecidableEq

inductive OpenMode
  | rdonly | wronly
  /-- `O_WRONLY | O_CREAT | O_TRUNC`, 0644 -/
  | rewrite
deriving DecidableEq, Repr

/-- What `waitpid` reports about a child. -/
inductive WaitStatus
  | exited (code : Nat)
  | signaled (sig : Nat)
  | other
deriving DecidableEq, Repr

/-- The six bytes `mkdtemp` puts in place of `XXXXXX`. -/
abbrev Suffix : Type := {bs : List UInt8 // bs.length = 6 ∧ 0 ∉ bs ∧ 47 ∉ bs}

/-- A C `int` as the four bytes that cross a socket. -/
def intBytes (n : Int) : List UInt8 :=
  let u := (n % 2 ^ 32).toNat
  [(u % 256).toUInt8, (u / 256 % 256).toUInt8, (u / 65536 % 256).toUInt8, (u / 16777216).toUInt8]

/-! ## The configuration of a container -/

/-- `container_config`. A pointer that may be NULL is an `Option`. -/
structure ContainerConfig where
  uid : UInt32
  fd : Int
  hostname : Option CStr
  cmd : CStr
  arg : Option CStr
  mnt : CStr
  vethName : Option CStr
  vethPeer : Option CStr
  vethTmp : Option CStr
  containerIp : Option CStr
  hostIp : Option CStr
  dnsServer : Option CStr
  enableNat : Bool
deriving DecidableEq

/-! ## Netlink messages -/

/-- `struct nlmsghdr`. -/
structure NlMsgHdr where
  len : Nat
  type : Nat
  flags : Nat
  seq : Nat
deriving DecidableEq, Repr

/-- The fixed header that follows: `struct ifinfomsg`, `ifaddrmsg` or `rtmsg`. -/
inductive NlBody
  | ifinfo (family index flags change : Nat)
  | ifaddr (family prefixlen scope index : Nat)
  | rt (family dstLen table protocol scope type : Nat)
deriving DecidableEq, Repr

/-- A request: the headers, and the attribute bytes up to `nlmsg_len`. -/
structure NlMsg where
  hdr : NlMsgHdr
  body : NlBody
  attrs : List UInt8
deriving DecidableEq, Repr

/-! ## Firewall commands -/

/-- The rules barco puts into `POSTROUTING` and `FORWARD`. -/
inductive NatRule
  /-- `-t nat POSTROUTING -s subnet -o host_if -j MASQUERADE` -/
  | masquerade (subnet hostIf : CStr)
  /-- `FORWARD -s subnet -j ACCEPT` -/
  | forwardSource (subnet : CStr)
  /-- `FORWARD -d subnet -m state --state RELATED,ESTABLISHED -j ACCEPT` -/
  | forwardReply (subnet : CStr)
deriving DecidableEq

/-- One `iptables` command of a shell line. -/
inductive Iptables
  | check (rule : NatRule)
  | append (rule : NatRule)
  | delete (rule : NatRule)
deriving DecidableEq

/-! ## Capabilities and seccomp rules -/

/-- The capabilities of `linux/capability.h`, in their numeric order. -/
inductive Cap
  | chown | dacOverride | dacReadSearch | fowner | fsetid | kill | setgid | setuid | setpcap
  | linuxImmutable | netBindService | netBroadcast | netAdmin | netRaw | ipcLock | ipcOwner
  | sysModule | sysRawio | sysChroot | sysPtrace | sysPacct | sysAdmin | sysBoot | sysNice
  | sysResource | sysTime | sysTtyConfig | mknod | lease | auditWrite | auditControl | setfcap
  | macOverride | macAdmin | syslog | wakeAlarm | blockSuspend | auditRead | perfmon | bpf
  | checkpointRestore
deriving DecidableEq, Repr

inductive ScmpAction
  | allow
  | errno (e : Errno)
deriving DecidableEq, Repr

/-- One `seccomp_rule_add`: the action, the native system call number and the
`SCMP_CMP_MASKED_EQ` comparisons. -/
abbrev ScmpRule : Type := Seccomp.Rule ScmpAction

/-! ## Calls and answers -/

/-- The functions whose calls and results the ghosts record. -/
inductive Fn
  | nlCreateVeth (name1 name2 : CStr)
  | nlSetUp (ifname : CStr)
  | nlAddAddr (ifname ipCidr : CStr)
  | nlDelLink (ifname : CStr)
  | nlAddRoute (dest gateway dev : Option CStr)
  | nlMoveToNs (ifname : CStr) (nsFd : Int)
  | nlRenameLink (oldname newname : CStr)
  | setupNat (subnet hostIf : CStr)
  | cleanupNat (subnet hostIf : CStr)
  | cgroupsInit (hostname : CStr) (pid : Nat)
  | cgroupsFree (hostname : CStr)
  | prepareMappings (pid : Nat) (fd : Int)
  | mountSet (mnt : CStr)
  | userNamespaceInit (uid : UInt32) (fd : Int)
  | secSetCaps
  | secSetSeccomp
  | containerStart
deriving DecidableEq

inductive Call
  -- memory and libc
  | calloc | malloc | asprintf | strdup
  | uninit (n : Nat)
  | rand
  -- processes
  | geteuid | getuid
  | usleep (usec : Nat)
  | clone (flags : Nat) (config : ContainerConfig)
  | kill (pid sig : Nat)
  | waitpid (pid : Nat)
  | execve (path : CStr) (argv : List CStr)
  -- descriptors and files
  | socketpair
  | fcntlCloexec (fd : Int)
  | open (path : Path) (mode : OpenMode)
  | read (fd : Int) (count : Nat)
  | write (fd : Int) (data : List UInt8)
  | dprintf (fd : Int) (data : List UInt8)
  | close (fd : Int)
  | mkdir (path : Path)
  | rmdir (path : Path)
  | mkdtemp (template : CStr)
  -- mounts
  | mount (source : Option CStr) (target : CStr) (fstype : Option CStr) (flags : Nat)
  | pivotRoot (newRoot putOld : CStr)
  | chdir (path : CStr)
  | umount2 (target : CStr) (flags : Nat)
  -- network
  | socketNetlink
  | setsockoptRcvtimeo (fd : Int)
  | sendmsg (fd : Int) (msg : NlMsg)
  | recvmsg (fd : Int)
  | ifNametoindex (ifname : CStr)
  -- host tools
  | popen
  | fgets (size : Nat)
  | pclose
  | iptables (cmd : Iptables)
  -- identity
  | sethostname (name : CStr)
  | unshare (flags : Nat)
  | setresgid (rgid egid sgid : UInt32)
  | setresuid (ruid euid suid : UInt32)
  -- capabilities and seccomp
  | prctlCapbsetDrop (cap : Cap)
  | capGetProc
  | capClearInheritable (caps : List Cap)
  | capSetProc
  | capFree
  | seccompInit (action : ScmpAction)
  | seccompRuleAdd (rule : ScmpRule)
  | seccompAttrNnp (value : Nat)
  | seccompLoad
  | seccompRelease
  -- ghosts
  | enter (f : Fn)
  | leave (f : Fn) (result : Int)
  -- no answer
  | undefined
  | waiting
deriving DecidableEq

/-- What each call is answered with. -/
@[reducible] def Answer : Call → Type
  | .calloc | .malloc | .asprintf | .strdup => Bool
  | .uninit n => {bs : List UInt8 // bs.length = n}
  | .rand => Nat
  | .geteuid | .getuid => UInt32
  | .usleep _ => Unit
  | .clone _ _ => Res Nat
  | .kill _ _ => Res Unit
  | .waitpid _ => Res (Nat × WaitStatus)
  | .execve _ _ => Res Unit
  | .socketpair => Res (Nat × Nat)
  | .fcntlCloexec _ => Res Unit
  | .open _ _ => Res Nat
  | .read _ _ => Res (List UInt8)
  | .write _ _ => Res Nat
  | .dprintf _ _ => Res Nat
  | .close _ => Res Unit
  | .mkdir _ => Res Unit
  | .rmdir _ => Res Unit
  | .mkdtemp _ => Res Suffix
  | .mount _ _ _ _ => Res Unit
  | .pivotRoot _ _ => Res Unit
  | .chdir _ => Res Unit
  | .umount2 _ _ => Res Unit
  | .socketNetlink => Res Nat
  | .setsockoptRcvtimeo _ => Res Unit
  | .sendmsg _ _ => Res Nat
  | .recvmsg _ => Res (List UInt8)
  | .ifNametoindex _ => Nat
  | .popen => Bool
  | .fgets _ => Option (List UInt8)
  | .pclose => Unit
  | .iptables _ => Bool
  | .sethostname _ => Res Unit
  | .unshare _ => Res Unit
  | .setresgid _ _ _ => Res Unit
  | .setresuid _ _ _ => Res Unit
  | .prctlCapbsetDrop _ => Res Unit
  | .capGetProc => Bool
  | .capClearInheritable _ => Res Unit
  | .capSetProc => Res Unit
  | .capFree => Unit
  | .seccompInit _ => Bool
  | .seccompRuleAdd _ => Res Unit
  | .seccompAttrNnp _ => Res Unit
  | .seccompLoad => Res Unit
  | .seccompRelease => Unit
  | .enter _ => Unit
  | .leave _ _ => Unit
  | .undefined => Empty
  | .waiting => Empty

/-- A function of the program. -/
abbrev Sys (α : Type) : Type := Prog Call Answer α

/-- A call and the answer it got. -/
abbrev SysEvent : Type := Event Call Answer

def sys (c : Call) : Sys (Answer c) := Prog.perform c

section Steps

variable {σ β : Type} {M : Machine Call Answer σ} {c : Call} {k : Answer c → Sys β} {s : σ}

/-- A program that starts with a call is correct when the call is allowed and what follows
every answer is correct. -/
theorem wp_sys {Q : β → σ → Prop} (hmay : M.may s c)
    (hk : ∀ r s', M.step s c r s' → Prog.wp M (k r) Q s') : Prog.wp M (sys c >>= k) Q s :=
  ⟨hmay, hk⟩

/-- It runs to its end when it does from one answer on. -/
theorem runs_sys {a : β} {r : Answer c} {s' : σ} (hs : M.step s c r s')
    (hk : ∃ t, Run M (k r) s' (.ret a) t) : ∃ t, Run M (sys c >>= k) s (.ret a) t := by
  obtain ⟨t, hrun⟩ := hk
  exact ⟨t, .call hs hrun⟩

end Steps

/-- Call the function `f` of the program, recording its result. -/
def invoke (f : Fn) (body : Sys Int) : Sys Int := do
  sys (.enter f)
  let r ← body
  sys (.leave f r)
  return r

/-- `close` whose result the source does not look at. -/
def closeFd (fd : Int) : Sys Unit := do
  let _ ← sys (.close fd)
  return ()

/-- A C result that says success or failure. -/
def Status (r : Int) : Prop := r = 0 ∨ r = -1

theorem Status.zero : Status 0 := .inl rfl

theorem Status.fail : Status (-1) := .inr rfl

/-! ## A machine on which nothing fails -/

/-- The suffix that `granted` gives to every temporary directory. -/
def suffixA : Suffix := ⟨ascii "aaaaaa", by decide⟩

/-- The answers of a machine on which every call succeeds: descriptors and pids
are fixed numbers, memory is zeroed, writes are complete, a read gives the
four bytes of 0, and every interface exists. -/
def granted : (c : Call) → Option (Answer c)
  | .calloc => some true
  | .malloc => some true
  | .asprintf => some true
  | .strdup => some true
  | .uninit n => some ⟨List.replicate n 0, List.length_replicate⟩
  | .rand => some 0
  | .geteuid => some 0
  | .getuid => some 0
  | .usleep _ => some ()
  | .clone _ _ => some (.ok 100)
  | .kill _ _ => some (.ok ())
  | .waitpid pid => some (.ok (pid, .exited 0))
  | .execve _ _ => some (.ok ())
  | .socketpair => some (.ok (3, 4))
  | .fcntlCloexec _ => some (.ok ())
  | .open _ _ => some (.ok 5)
  | .read _ _ => some (.ok (intBytes 0))
  | .write _ data => some (.ok data.length)
  | .dprintf _ data => some (.ok data.length)
  | .close _ => some (.ok ())
  | .mkdir _ => some (.ok ())
  | .rmdir _ => some (.ok ())
  | .mkdtemp _ => some (.ok suffixA)
  | .mount _ _ _ _ => some (.ok ())
  | .pivotRoot _ _ => some (.ok ())
  | .chdir _ => some (.ok ())
  | .umount2 _ _ => some (.ok ())
  | .socketNetlink => some (.ok 6)
  | .setsockoptRcvtimeo _ => some (.ok ())
  | .sendmsg _ msg => some (.ok msg.hdr.len)
  | .recvmsg _ => none
  | .ifNametoindex _ => some 7
  | .popen => some true
  | .fgets _ => some (some (ascii "eth0\n"))
  | .pclose => some ()
  | .iptables _ => some true
  | .sethostname _ => some (.ok ())
  | .unshare _ => some (.ok ())
  | .setresgid _ _ _ => some (.ok ())
  | .setresuid _ _ _ => some (.ok ())
  | .prctlCapbsetDrop _ => some (.ok ())
  | .capGetProc => some true
  | .capClearInheritable _ => some (.ok ())
  | .capSetProc => some (.ok ())
  | .capFree => some ()
  | .seccompInit _ => some true
  | .seccompRuleAdd _ => some (.ok ())
  | .seccompAttrNnp _ => some (.ok ())
  | .seccompLoad => some (.ok ())
  | .seccompRelease => some ()
  | .enter _ => some ()
  | .leave _ _ => some ()
  | .undefined => none
  | .waiting => none

end Barco
