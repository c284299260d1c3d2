import Barco.Syscall

/-!
# Capabilities and the system call filter (`sec.c`)

`secSetCaps` drops twenty capabilities from the bounding set, one `prctl` at a
time, and from the inheritable set. `secSetSeccomp` builds and loads the
filter. Both return 1 when a step fails.

The `||` chain of the source is `secRules`, added in order by `addRules`.
-/

namespace Barco

/-- `drop_caps`, in the order of the source. -/
def dropCaps : List Cap :=
  [.auditControl, .auditRead, .auditWrite, .blockSuspend,
    .dacReadSearch, .fsetid, .ipcLock, .macAdmin,
    .macOverride, .mknod, .setfcap, .syslog,
    .sysAdmin, .sysBoot, .sysModule, .sysNice,
    .sysRawio, .sysResource, .sysTime, .wakeAlarm]

/-- Do a step for every item, up to the first one that fails; `false` when one
did. -/
def untilError {ι : Type} (step : ι → Sys (Res Unit)) : List ι → Sys Bool
  | [] => return true
  | x :: xs => do
    match ← step x with
    | .error _ => return false
    | .ok _ => untilError step xs

/-- The loop over `drop_caps`. -/
def dropBounding (cs : List Cap) : Sys Bool := untilError (fun c => sys (.prctlCapbsetDrop c)) cs

def secSetCaps : Sys Int := do
  if !(← dropBounding dropCaps) then
    return 1
  if !(← sys .capGetProc) then
    return 1
  match ← sys (.capClearInheritable dropCaps) with
  | .error _ =>
    sys .capFree
    return 1
  | .ok _ =>
    match ← sys .capSetProc with
    | .error _ =>
      sys .capFree
      return 1
    | .ok _ =>
      sys .capFree
      return 0

/-! ## The filter -/

/-! Native x86-64 system call numbers. -/

namespace Sysno

def ioctl : Nat := 16
def clone : Nat := 56
def execve : Nat := 59
def chmod : Nat := 90
def fchmod : Nat := 91
def ptrace : Nat := 101
def capset : Nat := 126
def mbind : Nat := 237
def setMempolicy : Nat := 238
def addKey : Nat := 248
def requestKey : Nat := 249
def keyctl : Nat := 250
def migratePages : Nat := 256
def fchmodat : Nat := 268
def unshare : Nat := 272
def movePages : Nat := 279
def perfEventOpen : Nat := 298
def userfaultfd : Nat := 323
def clone3 : Nat := 435

end Sysno

def S_ISUID : BitVec 64 := 0o4000
def S_ISGID : BitVec 64 := 0o2000
def CLONE_NEWUSER : BitVec 64 := 0x10000000
def TIOCSTI : BitVec 64 := 0x5412

/-- `SEC_SCMP_FAIL` -/
def secScmpFail : ScmpAction := .errno EPERM

/-- A rule with one masked comparison of argument `i` with `v` under the mask `v`. -/
def maskedRule (nr : Nat) (i : Fin 6) (v : BitVec 64) : ScmpRule :=
  ⟨secScmpFail, nr, [⟨i, v, v⟩]⟩

/-- A rule without comparisons. -/
def plainRule (nr : Nat) : ScmpRule := ⟨secScmpFail, nr, []⟩

/-- The rules of `sec_set_seccomp`, in the order of the source. -/
def secRules : List ScmpRule :=
  [maskedRule Sysno.chmod 1 S_ISUID,
    maskedRule Sysno.chmod 1 S_ISGID,
    maskedRule Sysno.fchmod 1 S_ISUID,
    maskedRule Sysno.fchmod 1 S_ISGID,
    maskedRule Sysno.fchmodat 2 S_ISUID,
    maskedRule Sysno.fchmodat 2 S_ISGID,
    maskedRule Sysno.unshare 0 CLONE_NEWUSER,
    maskedRule Sysno.clone 0 CLONE_NEWUSER,
    maskedRule Sysno.ioctl 1 TIOCSTI,
    plainRule Sysno.keyctl,
    plainRule Sysno.addKey,
    plainRule Sysno.requestKey,
    plainRule Sysno.ptrace,
    plainRule Sysno.mbind,
    plainRule Sysno.migratePages,
    plainRule Sysno.movePages,
    plainRule Sysno.setMempolicy,
    plainRule Sysno.userfaultfd,
    plainRule Sysno.perfEventOpen]

/-- The `seccomp_rule_add` part of the chain. -/
def addRules (rules : List ScmpRule) : Sys Bool :=
  untilError (fun rule => sys (.seccompRuleAdd rule)) rules

def secSetSeccomp : Sys Int := do
  if !(← sys (.seccompInit .allow)) then
    return 1
  if !(← addRules secRules) then
    sys .seccompRelease
    return 1
  match ← sys (.seccompAttrNnp 0) with
  | .error _ =>
    sys .seccompRelease
    return 1
  | .ok _ =>
    match ← sys .seccompLoad with
    | .error _ =>
      sys .seccompRelease
      return 1
    | .ok _ =>
      sys .seccompRelease
      return 0

end Barco
