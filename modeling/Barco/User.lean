import Barco.Syscall

/-!
# The user namespace (`user.c`)

`userNamespaceInit` is the child's half of the handshake and
`prepareMappings` (`user_namespace_prepare_mappings`) is the parent's. They
exchange C ints over a sequenced-packet socket pair.
-/

namespace Barco

def USER_NAMESPACE_UID_PARENT_RANGE_START : Nat := 10000
def USER_NAMESPACE_UID_CHILD_RANGE_START : Nat := 0
def USER_NAMESPACE_UID_CHILD_RANGE_SIZE : Nat := 1

/-- `CLONE_NEWUSER` as the argument of `unshare`. -/
def cloneNewuser : Nat := 0x10000000

def userNamespaceInit (uid : UInt32) (fd : Int) : Sys Int := do
  match ← sys (.unshare cloneNewuser) with
  | .error _ => return -1
  | .ok _ =>
  match ← sys (.write fd (intBytes 0)) with
  | .error _ => return -1
  | .ok n =>
  if n ≠ 4 then
    return -1
  match ← sys (.read fd 4) with
  | .error _ => return -1
  | .ok result =>
  if result.length ≠ 4 then
    return -1
  if result ≠ intBytes 0 then
    return -1
  match ← sys (.setresgid uid uid uid) with
  | .error _ => return -1
  | .ok _ =>
  match ← sys (.setresuid uid uid uid) with
  | .error _ => return -1
  | .ok _ =>
  let _ ← sys .getuid
  return 0

/-- The decimal digits of a number, most significant first. -/
def decimalBytes (n : Nat) : List UInt8 := (Nat.toDigits 10 n).map fun c => c.toNat.toUInt8

/-- The line written to `uid_map` and `gid_map`: `"%d %d %d\n"`. -/
def mapLine : List UInt8 :=
  decimalBytes USER_NAMESPACE_UID_CHILD_RANGE_START ++ ascii " " ++
    decimalBytes USER_NAMESPACE_UID_PARENT_RANGE_START ++ ascii " " ++
    decimalBytes USER_NAMESPACE_UID_CHILD_RANGE_SIZE ++ ascii "\n"

/-- The `fail` label: tell the child, whatever comes of it. -/
def notifyFailure (fd : Int) : Sys Int := do
  let _ ← sys (.write fd (intBytes (-1)))
  return -1

/-- The loop over `uid_map` and `gid_map`; `false` when it went to `fail`. -/
def writeMaps (pid : Nat) : List IdFile → Sys Bool
  | [] => return true
  | file :: files => do
    match ← sys (.open (.idFile pid file) .wronly) with
    | .error _ => return false
    | .ok mapFd =>
      match ← sys (.dprintf mapFd mapLine) with
      | .error _ =>
        closeFd mapFd
        return false
      | .ok _ =>
        closeFd mapFd
        writeMaps pid files

def prepareMappings (pid : Nat) (fd : Int) : Sys Int := do
  match ← sys (.read fd 4) with
  | .error _ => return -1
  | .ok unshared =>
  if unshared.length ≠ 4 then
    return -1
  if unshared ≠ intBytes 0 then
    notifyFailure fd
  else
    match ← sys (.open (.idFile pid .setgroups) .wronly) with
    | .error _ => notifyFailure fd
    | .ok mapFd =>
    match ← sys (.write mapFd (ascii "deny")) with
    | .error _ =>
      closeFd mapFd
      notifyFailure fd
    | .ok n =>
    if n ≠ 4 then
      closeFd mapFd
      notifyFailure fd
    else
      closeFd mapFd
      if !(← writeMaps pid [.uidMap, .gidMap]) then
        notifyFailure fd
      else
        match ← sys (.write fd (intBytes 0)) with
        | .error _ => return -1
        | .ok n =>
        if n ≠ 4 then
          return -1
        return 0

end Barco
