import Barco.Cgroups
import Barco.Mount
import Barco.Netlink
import Barco.Sec
import Barco.User

/-!
# The container process (`container.c`)

`containerStart` is the entry of the cloned child: it sets up the root, the
network, the user namespace and the restrictions, and ends in `execve`. Every
`goto fail` is `containerFail`. `containerInit` clones it and closes the
parent's copy of the child's socket.
-/

namespace Barco

def loName : CStr := ⟨ascii "lo", by decide⟩

def enablePingDgram : Sys Int := do
  match ← sys (.open .pingGroupRange .wronly) with
  | .error _ => return -1
  | .ok fd =>
    let n ← sys (.write fd (ascii "0 65535\n"))
    closeFd fd
    match n with
    | .error _ => return -1
    | .ok n => return (if n = 8 then 0 else -1)

/-- The text `setup_dns` formats. -/
def resolvText (dnsServer : CStr) : List UInt8 :=
  ascii "# generated by barco\nnameserver " ++ dnsServer.1 ++
    ascii "\nnameserver 8.8.4.4\noptions timeout:2 attempts:3\n"

/-- The first `n` bytes at a 256-byte buffer that holds `text` as `snprintf`
left it; what lies behind the buffer is `beyond`. -/
def bufferBytes (text : List UInt8) (buf : List UInt8) (n : Nat) (beyond : List UInt8) :
    List UInt8 :=
  let written := text.take 255 ++ [0]
  (written ++ buf.drop written.length ++ beyond).take n

/-- `setup_dns`: the count handed to `write` is the length the whole text has,
whatever fitted into the buffer. -/
def setupDns (dnsServer : CStr) : Sys Int := do
  match ← sys (.open .resolvConf .rewrite) with
  | .error _ => return -1
  | .ok fd =>
    let text := resolvText dnsServer
    let buf ← sys (.uninit 256)
    let beyond ← sys (.uninit (text.length - 256))
    let n ← sys (.write fd (bufferBytes text buf.1 text.length beyond.1))
    closeFd fd
    match n with
    | .error _ => return -1
    | .ok n => return (if n = text.length then 0 else -1)

/-- The label `fail`; `fdClosed` is the source's `fd_closed`. -/
def containerFail (config : ContainerConfig) (fdClosed : Bool) : Sys Int := do
  if !fdClosed && config.fd ≥ 0 then
    closeFd config.fd
  return -1

/-- The inline loop that waits for the interface: the milliseconds waited. -/
def pollInterface (ifname : CStr) : Nat → Nat → Sys Nat
  | 0, waited => return waited
  | fuel + 1, waited => do
    let idx ← sys (.ifNametoindex ifname)
    if idx = 0 ∧ waited < 5000 then
      sys (.usleep 100000)
      pollInterface ifname fuel (waited + 100)
    else
      return waited

/-- Wait for the temporary interface and rename it; `false` is `goto fail`. -/
def containerRename (tmp name : CStr) : Sys Bool := do
  let waited ← pollInterface tmp 51 0
  if waited ≥ 5000 then
    return false
  return !((← invoke (.nlRenameLink tmp name) (nlRenameLink tmp name)) < 0)

/-- The renaming, when there is a temporary name. -/
def configureRename (config : ContainerConfig) (name : CStr) : Sys Bool :=
  match config.vethTmp with
  | some tmp => containerRename tmp name
  | none => return true

/-- The default route through the host's address; `false` is `goto fail`. -/
def containerRoute (name hostIp : CStr) : Sys Bool := do
  let addrLen := (hostIp.chr 47).getD hostIp.1.length
  if addrLen ≥ 16 then
    return false
  let _ ← invoke (.nlAddRoute (some defaultRoute) (some (hostIp.take addrLen)) (some name))
    (nlAddRoute (some defaultRoute) (some (hostIp.take addrLen)) (some name))
  return true

/-- Stage 2 of `container_start`, when networking is on; `false` is `goto fail`. -/
def containerNetwork (config : ContainerConfig) (name ip : CStr) : Sys Bool := do
  let _ ← invoke (.nlSetUp loName) (nlSetUp loName)
  if !(← configureRename config name) then
    return false
  if (← invoke (.nlAddAddr name ip) (nlAddAddr name ip)) < 0 then
    return false
  if (← invoke (.nlSetUp name) (nlSetUp name)) < 0 then
    return false
  match config.hostIp with
  | some hostIp => containerRoute name hostIp
  | none => return true

/-- Stages 3 and 4 of `container_start`: restrict, close the socket, execute. -/
def containerExec (config : ContainerConfig) : Sys Int := do
  if (← invoke (.userNamespaceInit config.uid config.fd)
      (userNamespaceInit config.uid config.fd)) < 0 then
    containerFail config false
  else if (← invoke .secSetCaps secSetCaps) < 0 then
    containerFail config false
  else if (← invoke .secSetSeccomp secSetSeccomp) < 0 then
    containerFail config false
  else
    match ← sys (.close config.fd) with
    | .error _ => containerFail config false
    | .ok _ =>
      match ← sys (.execve config.cmd (config.cmd :: config.arg.toList)) with
      | .error _ => containerFail config true
      | .ok _ => return 0

/-- `sethostname`, when there is a name; `false` is `goto fail`. -/
def containerHostname (config : ContainerConfig) : Sys Bool := do
  match config.hostname with
  | none => return true
  | some name =>
    match ← sys (.sethostname name) with
    | .error _ => return false
    | .ok _ => return true

/-- Stage 2, if networking is on; `false` is `goto fail`. -/
def configureNetwork (config : ContainerConfig) : Sys Bool :=
  match config.vethName, config.containerIp with
  | some name, some ip => containerNetwork config name ip
  | _, _ => return true

/-- `setup_dns`, when there is a server; its result is not looked at. -/
def configureDns (config : ContainerConfig) : Sys Unit := do
  match config.dnsServer with
  | some dns =>
    let _ ← setupDns dns
    return ()
  | none => return ()

def containerStart (config : ContainerConfig) : Sys Int := do
  if !(← containerHostname config) then
    containerFail config false
  else if (← invoke (.mountSet config.mnt) (mountSet config.mnt)) < 0 then
    containerFail config false
  else if !(← configureNetwork config) then
    containerFail config false
  else
    configureDns config
    let _ ← enablePingDgram
    containerExec config

/-- `CLONE_NEWNS | CLONE_NEWCGROUP | CLONE_NEWPID | CLONE_NEWIPC | CLONE_NEWNET |
CLONE_NEWUTS | SIGCHLD` -/
def containerFlags : Nat :=
  0x00020000 ||| 0x02000000 ||| 0x20000000 ||| 0x08000000 ||| 0x40000000 ||| 0x04000000 ||| 17

/-- `container_init`: the child's pid or -1, and the configuration with the
socket closed. -/
def containerInit (config : ContainerConfig) : Sys (Int × ContainerConfig) := do
  match ← sys (.clone containerFlags config) with
  | .error _ => return (-1, config)
  | .ok pid =>
    if config.fd ≥ 0 then
      closeFd config.fd
      return ((pid : Int), { config with fd := -1 })
    else
      return ((pid : Int), config)

def SIGKILL : Nat := 9

def containerStop (pid : Nat) : Sys Unit := do
  match ← sys (.kill pid SIGKILL) with
  | .error _ => return ()
  | .ok _ =>
    let _ ← sys (.waitpid pid)
    return ()

end Barco
