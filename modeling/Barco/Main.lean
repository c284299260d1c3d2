import Barco.Container

/-!
# The parent process (`barco.c`)

`main` is cut at the numbered sections of the source. A section returns
`.error st` for `goto cleanup` and `.ok st` to go on, where `st` holds the
locals that `cleanup` reads. The `while (1)` around `waitpid` gets a number of
retries; a run that uses them up is still waiting.
-/

namespace Barco

/-- What `arg_parse` leaves in the argument table. -/
structure Args where
  errors : Bool
  help : Bool
  uid : Int32
  mnt : CStr
  cmd : CStr
  arg : Option CStr
  vethName : Option CStr
  vethPeer : Option CStr
  containerIp : Option CStr
  hostIp : Option CStr
  nat : Bool
  dns : Option CStr

/-- The locals of `main` that live until `cleanup`. -/
structure MainState where
  config : ContainerConfig
  stack : Bool
  sockets : Int × Int
  exitcode : Int
  vethCreated : Bool
  natApplied : Bool
  hostIf : CStr

def barcontainer : CStr := ⟨ascii "barcontainer", by decide⟩
def defaultDns : CStr := ⟨ascii "8.8.8.8", by decide⟩
def eth0 : CStr := ⟨ascii "eth0", by decide⟩
def emptyStr : CStr := ⟨[], by decide⟩

/-! ## Interface names -/

def suffixAlphabet : List UInt8 := ascii "abcdefghijklmnopqrstuvwxyz0123456789"

/-- One character drawn for the suffix. -/
def suffixChar (n : Nat) : UInt8 := suffixAlphabet.getD (n % 36) 0

def drawChars : Nat → Sys (List UInt8)
  | 0 => return []
  | n + 1 => do
    let x ← sys .rand
    return suffixChar x :: (← drawChars n)

/-- `generate_random_suffix` on a buffer with the given prior contents: at most
eight characters at the front, a NUL at the end, the rest as it was. -/
def generateRandomSuffix (buf : List UInt8) : Sys (List UInt8) := do
  let chars ← drawChars (min (buf.length - 1) 8)
  return (chars ++ buf.drop chars.length).set (buf.length - 1) 0

def vethDash : CStr := ⟨ascii "veth-", by decide⟩
def dash : CStr := ⟨ascii "-", by decide⟩
def vethTmpDash : CStr := ⟨ascii "veth-tmp-", by decide⟩

/-- `"veth-%s-%s"` through a 64-byte buffer and `"%.15s"`. -/
def vethPeerName (vethName suffix : CStr) : CStr :=
  ((vethDash ++ vethName ++ dash ++ suffix).take 63).take 15

/-- `"veth-tmp-%s"` through a 64-byte buffer and `"%.15s"`. -/
def vethTmpName (suffix : CStr) : CStr := ((vethTmpDash ++ suffix).take 63).take 15

/-! ## Sections 3 to 5: configuration, sockets, stack -/

/-- The state of `main` when the configuration is filled in from the options. -/
def initialState (args : Args) : MainState where
  config :=
    { uid := args.uid.toUInt32
      fd := 0
      hostname := some barcontainer
      cmd := args.cmd
      arg := args.arg
      mnt := args.mnt
      vethName := none
      vethPeer := none
      vethTmp := none
      containerIp := none
      hostIp := none
      dnsServer := some (args.dns.getD defaultDns)
      enableNat := false }
  stack := false
  sockets := (-1, -1)
  exitcode := 0
  vethCreated := false
  natApplied := false
  hostIf := emptyStr

def MainState.fail (st : MainState) : MainState := { st with exitcode := 1 }

/-- The state with the options of a run with networking. -/
def networkState (args : Args) (vethName containerIp : CStr) : MainState :=
  let st := initialState args
  { st with config := { st.config with
    vethName := some vethName
    containerIp := some containerIp
    hostIp := args.hostIp
    enableNat := args.nat } }

def MainState.withPeer (st : MainState) (peer : CStr) : MainState :=
  { st with config := { st.config with vethPeer := some peer } }

def MainState.withTmp (st : MainState) (tmp : CStr) : MainState :=
  { st with config := { st.config with vethTmp := some tmp } }

/-- Copy the name of the host's end: formatted, or the user's own. -/
def allocPeer (args : Args) : Sys Bool :=
  match args.vethPeer with
  | none => sys .asprintf
  | some _ => sys .strdup

/-- Section 3: the network part of the configuration. -/
def fillConfig (args : Args) : Sys (Except MainState MainState) := do
  match args.vethName, args.containerIp with
  | some vethName, some containerIp =>
    let st := networkState args vethName containerIp
    let suffix := CStr.ofBuf (← generateRandomSuffix (← sys (.uninit 16)).1)
    if !(← allocPeer args) then
      return .error st.fail
    let st := st.withPeer (args.vethPeer.getD (vethPeerName vethName suffix))
    if !(← sys .asprintf) then
      return .error st.fail
    return .ok (st.withTmp (vethTmpName suffix))
  | _, _ => return .ok (initialState args)

/-- Sections 4 and 5: the socket pair and the stack of the child. -/
def openSockets (st : MainState) : Sys (Except MainState MainState) := do
  let _ ← sys .geteuid
  match ← sys .socketpair with
  | .error _ => return .error st.fail
  | .ok (a, b) =>
  let st := { st with sockets := ((a : Int), (b : Int)) }
  match ← sys (.fcntlCloexec a) with
  | .error _ => return .error st.fail
  | .ok _ =>
  let st := { st with config := { st.config with fd := b } }
  if !(← sys .malloc) then
    return .error st.fail
  return .ok { st with stack := true }

/-! ## Section 6: the host network -/

def enableIpForward : Sys Int := do
  match ← sys (.open .ipForward .wronly) with
  | .error _ => return -1
  | .ok fd =>
    let n ← sys (.write fd (ascii "1\n"))
    closeFd fd
    match n with
    | .error _ => return -1
    | .ok n => return (if n = 2 then 0 else -1)

/-- Drop the trailing newlines and carriage returns of a line. -/
def chomp (line : CStr) : CStr :=
  ⟨(line.1.reverse.dropWhile fun b => b = 10 ∨ b = 13).reverse, fun h =>
    line.2 (List.mem_reverse.mp ((List.dropWhile_sublist _).subset (List.mem_reverse.mp h)))⟩

/-- `detect_host_interface` into a 64-byte buffer: the name, if one was found. -/
def detectHostInterface : Sys (Option CStr) := do
  if !(← sys .popen) then
    return none
  match ← sys (.fgets 64) with
  | none =>
    sys .pclose
    return none
  | some line =>
    sys .pclose
    let name := chomp (CStr.ofBuf (line.take 63))
    return (if name.1.length > 0 then some name else none)

/-- `iptables -C … || iptables -A …` -/
def checkOrAppend (rule : NatRule) : Sys Bool := do
  if ← sys (.iptables (.check rule)) then
    return true
  sys (.iptables (.append rule))

def setupNat (subnet hostIf : CStr) : Sys Int := do
  if !(← checkOrAppend (.masquerade subnet hostIf)) then
    return -1
  let _ ← checkOrAppend (.forwardSource subnet)
  let _ ← checkOrAppend (.forwardReply subnet)
  return 0

def cleanupNat (subnet hostIf : CStr) : Sys Int := do
  let _ ← sys (.iptables (.delete (.masquerade subnet hostIf)))
  let _ ← sys (.iptables (.delete (.forwardSource subnet)))
  let _ ← sys (.iptables (.delete (.forwardReply subnet)))
  return 0

def slash24 : CStr := ⟨ascii "/24", by decide⟩

/-- The subnet of section 6, formatted into 32 bytes: with a prefix length the
part before the `/` and the part from it on, otherwise `"%s/24"`. -/
def setupSubnet (containerIp : CStr) : CStr :=
  match containerIp.chr 47 with
  | some i => (containerIp.take i ++ containerIp.drop i).take 31
  | none => (containerIp ++ slash24).take 31

/-- The subnet of the cleanup, formatted into 32 bytes. -/
def cleanupSubnet (containerIp : CStr) : CStr :=
  match containerIp.chr 47 with
  | some _ => containerIp.take 31
  | none => (containerIp ++ slash24).take 31

/-- The NAT part of section 6. -/
def applyNat (st : MainState) (containerIp : CStr) : Sys MainState := do
  let detected ← detectHostInterface
  let st := { st with hostIf := detected.getD eth0 }
  let subnet := setupSubnet containerIp
  if (← invoke (.setupNat subnet st.hostIf) (setupNat subnet st.hostIf)) < 0 then
    return st
  return { st with natApplied := true }

/-- The address of the host's end, when there is one. -/
def addHostAddr (peer : CStr) (hostIp : Option CStr) : Sys Unit := do
  match hostIp with
  | some ip =>
    let _ ← invoke (.nlAddAddr peer ip) (nlAddAddr peer ip)
    return ()
  | none => return ()

/-- The host's end of the pair: address, link state, forwarding. -/
def configurePeer (peer : CStr) (hostIp : Option CStr) : Sys Unit := do
  addHostAddr peer hostIp
  let _ ← invoke (.nlSetUp peer) (nlSetUp peer)
  if hostIp.isSome then
    let _ ← enableIpForward
    return ()
  else
    return ()

/-- Section 6 when networking is on. -/
def hostNetworkOn (st : MainState) (containerIp tmp peer : CStr) :
    Sys (Except MainState MainState) := do
  let _ ← invoke (.nlDelLink tmp) (nlDelLink tmp)
  let _ ← invoke (.nlDelLink peer) (nlDelLink peer)
  if (← invoke (.nlCreateVeth tmp peer) (nlCreateVeth tmp peer)) < 0 then
    return .error st.fail
  let st := { st with vethCreated := true }
  configurePeer peer st.config.hostIp
  if st.config.enableNat && st.config.hostIp.isSome then
    return .ok (← applyNat st containerIp)
  return .ok st

/-- Section 6. The names are set whenever networking is on. -/
def hostNetwork (st : MainState) : Sys (Except MainState MainState) := do
  match st.config.vethName, st.config.containerIp with
  | some _, some containerIp =>
    match st.config.vethTmp, st.config.vethPeer with
    | some tmp, some peer => hostNetworkOn st containerIp tmp peer
    | _, _ => overrun
  | _, _ => return .ok st

/-! ## Sections 7 to 10: the container -/

/-- Section 7.5: hand the container's end over; `false` is `goto cleanup` with
the child stopped. -/
def moveVeth (pid : Nat) (tmp : CStr) : Sys Bool := do
  match ← sys (.open (.netNs pid) .rdonly) with
  | .error _ =>
    containerStop pid
    return false
  | .ok nsFd =>
    if (← invoke (.nlMoveToNs tmp nsFd) (nlMoveToNs tmp nsFd)) < 0 then
      closeFd nsFd
      containerStop pid
      return false
    closeFd nsFd
    return true

/-- Section 10: the child's status, or `none` when `waitpid` failed. -/
def waitContainer (pid : Nat) : Nat → Sys (Option WaitStatus)
  | 0 => .call .waiting fun e => nomatch e
  | retries + 1 => do
    match ← sys (.waitpid pid) with
    | .error e => if e = EINTR then waitContainer pid retries else return none
    | .ok (w, status) => if w = pid then return some status else waitContainer pid retries

/-- `container_status` from the wait status. -/
def containerStatus : WaitStatus → Int
  | .exited code => code
  | .signaled sig => 128 + sig
  | .other => 0

/-- Sections 8 to 10, with the child running. -/
def superviseContainer (retries : Nat) (st : MainState) (pid : Nat) : Sys MainState := do
  match st.config.hostname with
  | none => overrun
  | some hostname =>
    let _ ← invoke (.cgroupsInit hostname pid) (cgroupsInit hostname pid)
    if (← invoke (.prepareMappings pid st.sockets.1) (prepareMappings pid st.sockets.1)) < 0 then
      containerStop pid
      return st.fail
    match ← waitContainer pid retries with
    | none => return st.fail
    | some status =>
      return if st.exitcode = 0 then { st with exitcode := containerStatus status } else st

/-- Sections 7 to 10. -/
def runContainer (retries : Nat) (st : MainState) : Sys MainState := do
  let (pid, config) ← containerInit st.config
  let st := { st with config := config }
  if pid < 0 then
    return st.fail
  sys (.usleep 100000)
  match ← sys (.kill pid.toNat 0) with
  | .error _ => return st.fail
  | .ok _ =>
    match st.vethCreated, st.config.vethTmp with
    | true, some tmp =>
      if !(← moveVeth pid.toNat tmp) then
        return st.fail
      superviseContainer retries st pid.toNat
    | _, _ => superviseContainer retries st pid.toNat

/-! ## Cleanup -/

/-- Remove the firewall rules, when they were set up. -/
def releaseNat (st : MainState) : Sys Unit := do
  match st.natApplied, st.config.containerIp with
  | true, some ip =>
    if st.hostIf.1.length > 0 then
      let _ ← invoke (.cleanupNat (cleanupSubnet ip) st.hostIf)
        (cleanupNat (cleanupSubnet ip) st.hostIf)
      return ()
    else
      return ()
  | _, _ => return ()

/-- Remove the host's end of the pair, when the pair was created. -/
def releaseVeth (st : MainState) : Sys Unit := do
  match st.vethCreated, st.config.vethPeer with
  | true, some peer =>
    let _ ← invoke (.nlDelLink peer) (nlDelLink peer)
    return ()
  | _, _ => return ()

def closeSocket (fd : Int) : Sys Unit := do
  if fd ≥ 0 then closeFd fd else return ()

/-- Remove the control group, whether or not this run made it. -/
def releaseCgroup (st : MainState) : Sys Unit := do
  match st.config.hostname with
  | some hostname =>
    let _ ← invoke (.cgroupsFree hostname) (cgroupsFree hostname)
    return ()
  | none => return ()

/-- The label `cleanup`. -/
def cleanup (st : MainState) : Sys Int := do
  releaseNat st
  releaseVeth st
  closeSocket st.sockets.1
  closeSocket st.sockets.2
  releaseCgroup st
  return st.exitcode

/-- `main` from section 4 on. -/
def mainFrom (retries : Nat) (st : MainState) : Sys Int := do
  match ← openSockets st with
  | .error st => cleanup st
  | .ok st =>
    match ← hostNetwork st with
    | .error st => cleanup st
    | .ok st => cleanup (← runContainer retries st)

def main (retries : Nat) (args : Args) : Sys Int := do
  if !(← sys .calloc) then
    return 1
  if args.errors then
    return 1
  if args.help then
    return 0
  match ← fillConfig args with
  | .error st => cleanup st
  | .ok st => mainFrom retries st

/-! ## A command line -/

def webName : CStr := ⟨ascii "web", by decide⟩
def webIp : CStr := ⟨ascii "10.0.0.2/24", by decide⟩
def webHostIp : CStr := ⟨ascii "10.0.0.1/24", by decide⟩

/-- `barco -u 0 -m /rootfs -c /bin/sh --veth web --container-ip 10.0.0.2/24` -/
def webArgs : Args where
  errors := false
  help := false
  uid := 0
  mnt := ⟨ascii "/rootfs", by decide⟩
  cmd := ⟨ascii "/bin/sh", by decide⟩
  arg := none
  vethName := some webName
  vethPeer := none
  containerIp := some webIp
  hostIp := none
  nat := false
  dns := none

/-- The command line of `webArgs` without networking. -/
def plainArgs : Args := { webArgs with vethName := none, containerIp := none }

end Barco
