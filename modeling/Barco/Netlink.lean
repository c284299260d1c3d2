import Barco.Linux.Rtattr
import Barco.Syscall

/-!
# Route netlink requests (`netlink.c`)

Each operation opens a socket, resolves an interface name, builds one request,
and sends it with `nlSendRecv`, which reads one datagram and scans it for the
answer. The header structs are records; the attribute area behind them is the
byte buffer of the source, written at computed offsets. A builder returns
`none` when a write falls outside the structure.
-/

namespace Barco

open Rtattr

/-! ## Constants of the uapi headers -/

def NLMSG_ERROR : Nat := 2
def NLMSG_DONE : Nat := 3
def RTM_NEWLINK : Nat := 16
def RTM_DELLINK : Nat := 17
def RTM_NEWADDR : Nat := 20
def RTM_NEWROUTE : Nat := 24
def NLM_F_REQUEST : Nat := 0x1
def NLM_F_ACK : Nat := 0x4
def NLM_F_REPLACE : Nat := 0x100
def NLM_F_EXCL : Nat := 0x200
def NLM_F_CREATE : Nat := 0x400
def IFLA_IFNAME : Nat := 3
def IFLA_LINKINFO : Nat := 18
def IFLA_NET_NS_FD : Nat := 28
def IFLA_INFO_KIND : Nat := 1
def IFLA_INFO_DATA : Nat := 2
def VETH_INFO_PEER : Nat := 1
def IFA_ADDRESS : Nat := 1
def IFA_LOCAL : Nat := 2
def RTA_DST : Nat := 1
def RTA_OIF : Nat := 4
def RTA_GATEWAY : Nat := 5
def IFF_UP : Nat := 1
def AF_UNSPEC : Nat := 0
def AF_INET : Nat := 2
def RT_SCOPE_UNIVERSE : Nat := 0
def RT_SCOPE_LINK : Nat := 253
def RT_TABLE_MAIN : Nat := 254
def RTPROT_STATIC : Nat := 4
def RTN_UNICAST : Nat := 1

/-- `NLMSG_LENGTH`: the payload behind the 16-byte message header. -/
def nlmsgLength (n : Nat) : Nat := n + 16

/-- `memcpy` of a string with its terminating NUL. -/
def cbytes (s : CStr) : List UInt8 := s.1 ++ [0]

/-! ## Sockets, replies and name lookups -/

/-- `nl_socket`: the descriptor, or -1. -/
def nlSocket : Sys Int := do
  match ← sys .socketNetlink with
  | .error _ => return -1
  | .ok sock =>
    let _ ← sys (.setsockoptRcvtimeo sock)
    return sock

/-- The receive loop of `nl_send_recv` on the buffer `buf`, at the offset `off`
with `len` bytes remaining. `NLMSG_NEXT` moves both; `len` may become negative. -/
def replyScan (buf : List UInt8) (seq type : Nat) : Nat → Nat → Int → Int
  | 0, _, _ => -1
  | fuel + 1, off, len =>
    let mlen := le32At buf off
    if len ≥ 16 ∧ mlen ≥ 16 ∧ (mlen : Int) ≤ len then
      if le32At buf (off + 8) ≠ seq then
        replyScan buf seq type fuel (off + align4 mlen) (len - align4 mlen)
      else if le16At buf (off + 4) = NLMSG_ERROR then
        if le32At buf (off + 16) ≠ 0 then -1 else 0
      else if le16At buf (off + 4) = type ∨ le16At buf (off + 4) = NLMSG_DONE then
        0
      else
        replyScan buf seq type fuel (off + align4 mlen) (len - align4 mlen)
    else
      -1

/-- `nl_send_recv`: send the request, read one datagram into a 4096-byte stack
buffer and scan it. Every message of the loop is at least 16 bytes, so a fuel
of 4096 is never used up. -/
def nlSendRecv (sock : Int) (msg : NlMsg) (seq type : Nat) : Sys Int := do
  match ← sys (.sendmsg sock msg) with
  | .error _ => return -1
  | .ok _ =>
    let stack ← sys (.uninit 4096)
    match ← sys (.recvmsg sock) with
    | .error _ => return -1
    | .ok data =>
      let buf := data ++ stack.1.drop data.length
      return replyScan buf seq type 4096 0 data.length

/-- The loop of `wait_for_interface`. -/
def waitLoop (ifname : CStr) (timeoutMs : Nat) : Nat → Nat → Sys Nat
  | 0, _ => return 0
  | fuel + 1, waited => do
    if waited < timeoutMs then
      let idx ← sys (.ifNametoindex ifname)
      if idx ≠ 0 then
        return idx
      sys (.usleep 100000)
      waitLoop ifname timeoutMs fuel (waited + 100)
    else
      return 0

/-- `wait_for_interface`: the index, or 0 after the timeout. Each round waits
100 ms. -/
def waitForInterface (ifname : CStr) (timeoutMs : Nat) : Sys Nat :=
  waitLoop ifname timeoutMs (timeoutMs / 100 + 1) 0

/-! ## Addresses -/

/-- One decimal octet as `inet_pton` reads it: one to three digits, no leading
zero, at most 255. -/
def octet (bs : List UInt8) : Option UInt8 :=
  if bs.length = 0 ∨ bs.length > 3 ∨ bs.any (fun b => b < 48 ∨ b > 57) then none
  else if bs.length > 1 ∧ bs.head? = some 48 then none
  else
    let n := bs.foldl (fun acc b => acc * 10 + (b.toNat - 48)) 0
    if n > 255 then none else some n.toUInt8

/-- `inet_pton(AF_INET, …)`: the four bytes of a dotted quad. -/
def inetPton (s : CStr) : Option (List UInt8) :=
  match s.1.splitOn 46 with
  | [a, b, c, d] => do
    return [← octet a, ← octet b, ← octet c, ← octet d]
  | _ => none

/-- The number at the front of a string: everything from the first byte that is
not a digit on is ignored. -/
def digitsValue (bs : List UInt8) : Nat :=
  (bs.takeWhile fun b => 48 ≤ b ∧ b ≤ 57).foldl (fun acc b => acc * 10 + (b.toNat - 48)) 0

/-- `strtol` in base ten: blanks and one sign are skipped, and a value out of
range is the nearest `long`. -/
def strtol (bs : List UInt8) : Int :=
  let value : Int :=
    match bs.dropWhile fun b => b = 32 ∨ (9 ≤ b ∧ b ≤ 13) with
    | 45 :: l => -(digitsValue l : Int)
    | 43 :: l => digitsValue l
    | l => digitsValue l
  max (-2 ^ 63) (min value (2 ^ 63 - 1))

/-- `atoi`: the low 32 bits of `strtol`. -/
def atoi (bs : List UInt8) : Int := (strtol bs).bmod (2 ^ 32)

/-- Assignment of an `int` to a `uint8_t`. -/
def toU8 (n : Int) : Nat := (n % 256).toNat

/-- `parse_cidr`: the address bytes and the prefix length. -/
def parseCidr (s : CStr) : Option (List UInt8 × Nat) :=
  if s.1.length ≥ 64 then none
  else
    match s.chr 47 with
    | some i => (inetPton (s.take i)).map fun ip => (ip, toU8 (atoi (s.1.drop (i + 1))))
    | none => (inetPton s).map fun ip => (ip, 24)

/-! ## Requests -/

/-- Struct offsets below 32 belong to the headers; the attribute area follows
`struct ifinfomsg`. -/
def attrPoke (off : Nat) (bs buf : List UInt8) : Option (List UInt8) :=
  if off < 32 then none else poke (off - 32) bs buf

def attrRta (off len type : Nat) (buf : List UInt8) : Option (List UInt8) :=
  attrPoke off (le16 len ++ le16 type) buf

/-- The request of `nl_create_veth`, in a structure with a 256-byte attribute
area. Offsets count from the start of the structure. The three nested headers
are written once, with the lengths the source patches into them at the end. -/
def createVethMsg (name1 name2 : CStr) : Option NlMsg := do
  let buf := List.replicate 256 0
  let nlmsgLen := nlmsgLength 16
  -- 1. IFLA_IFNAME
  let iname := align4 nlmsgLen
  let inameLen := rtaLength (name1.1.length + 1)
  let buf ← attrRta iname inameLen IFLA_IFNAME buf
  let buf ← attrPoke (iname + 4) (cbytes name1) buf
  let nlmsgLen := nlmsgLen + align4 inameLen
  -- 2. IFLA_LINKINFO
  let li := align4 nlmsgLen
  let liLen := rtaLength 0
  -- 2.1 IFLA_INFO_KIND
  let kind := li + rtaLength 0
  let kindLen := rtaLength 4
  let buf ← attrRta kind kindLen IFLA_INFO_KIND buf
  let buf ← attrPoke (kind + 4) (ascii "veth") buf
  let liLen := liLen + kindLen
  -- 2.2 IFLA_INFO_DATA and VETH_INFO_PEER
  let data := li + align4 liLen
  let dataLen := rtaLength 0
  let peer := data + rtaLength 0
  let peerLen := rtaLength 16
  let buf ← attrPoke (peer + 4) (List.replicate 16 0) buf
  -- the name of the other end
  let pname := peer + 4 + 16
  let pnameLen := rtaLength (name2.1.length + 1)
  let buf ← attrRta pname pnameLen IFLA_IFNAME buf
  let buf ← attrPoke (pname + 4) (cbytes name2) buf
  let peerLen := peerLen + align4 pnameLen
  let dataLen := dataLen + align4 peerLen
  let liLen := liLen + align4 dataLen
  let nlmsgLen := nlmsgLen + align4 liLen
  let buf ← attrRta peer peerLen VETH_INFO_PEER buf
  let buf ← attrRta data dataLen IFLA_INFO_DATA buf
  let buf ← attrRta li liLen IFLA_LINKINFO buf
  return {
    hdr := ⟨nlmsgLen, RTM_NEWLINK, NLM_F_REQUEST ||| NLM_F_CREATE ||| NLM_F_EXCL ||| NLM_F_ACK, 1⟩
    body := .ifinfo AF_UNSPEC 0 0 0
    attrs := buf.take (nlmsgLen - 32) }

/-- The request of `nl_set_up`. -/
def setUpMsg (idx : Nat) : NlMsg where
  hdr := ⟨nlmsgLength 16, RTM_NEWLINK, NLM_F_REQUEST ||| NLM_F_ACK, 2⟩
  body := .ifinfo AF_UNSPEC idx IFF_UP IFF_UP
  attrs := []

/-- The request of `nl_add_addr`. -/
def addAddrMsg (idx : Nat) (ip : List UInt8) (plen : Nat) : NlMsg where
  hdr := ⟨nlmsgLength 8 + align4 (rtaLength 4) + align4 (rtaLength 4), RTM_NEWADDR,
    NLM_F_REQUEST ||| NLM_F_CREATE ||| NLM_F_REPLACE ||| NLM_F_ACK, 3⟩
  body := .ifaddr AF_INET plen RT_SCOPE_UNIVERSE idx
  attrs := rtaBytes IFA_LOCAL ip ++ rtaBytes IFA_ADDRESS ip

/-- The request of `nl_del_link`. -/
def delLinkMsg (idx : Nat) : NlMsg where
  hdr := ⟨nlmsgLength 16, RTM_DELLINK, NLM_F_REQUEST, 4⟩
  body := .ifinfo AF_UNSPEC idx 0 0
  attrs := []

/-- The request of `nl_add_route`: `p - &req` is the length of what was written. -/
def addRouteMsg (dst : List UInt8) (dstLen : Nat) (gateway : Option (List UInt8))
    (dev : Option Nat) : NlMsg :=
  let attrs := rtaBytes RTA_DST dst ++
    (match gateway with | some gw => rtaBytes RTA_GATEWAY gw | none => []) ++
    (match dev with | some idx => rtaBytes RTA_OIF (le32 idx) | none => [])
  { hdr := ⟨nlmsgLength 12 + attrs.length, RTM_NEWROUTE,
      NLM_F_REQUEST ||| NLM_F_CREATE ||| NLM_F_EXCL ||| NLM_F_ACK, 5⟩
    body := .rt AF_INET dstLen RT_TABLE_MAIN RTPROT_STATIC
      (if gateway.isSome then RT_SCOPE_UNIVERSE else RT_SCOPE_LINK) RTN_UNICAST
    attrs := attrs }

/-- The request of `nl_move_to_ns`. -/
def moveToNsMsg (idx : Nat) (nsFd : Int) : NlMsg where
  hdr := ⟨nlmsgLength 16 + align4 (rtaLength 4), RTM_NEWLINK, NLM_F_REQUEST ||| NLM_F_ACK, 6⟩
  body := .ifinfo AF_UNSPEC idx 0 0
  attrs := rtaBytes IFLA_NET_NS_FD (intBytes nsFd)

/-- The request of `nl_rename_link`, in a structure with a 64-byte attribute area. -/
def renameLinkMsg (idx : Nat) (newname : CStr) : Option NlMsg := do
  let buf := List.replicate 64 0
  let nlmsgLen := nlmsgLength 16
  let rta := align4 nlmsgLen
  let rtaLen := rtaLength (newname.1.length + 1)
  let buf ← attrRta rta rtaLen IFLA_IFNAME buf
  let buf ← attrPoke (rta + 4) (cbytes newname) buf
  let nlmsgLen := nlmsgLen + align4 rtaLen
  return {
    hdr := ⟨nlmsgLen, RTM_NEWLINK, NLM_F_REQUEST ||| NLM_F_ACK, 7⟩
    body := .ifinfo AF_UNSPEC idx 0 0
    attrs := buf.take (nlmsgLen - 32) }

/-! ## Operations -/

/-- A write outside a structure: nothing is known about the run from here on. -/
def overrun {α : Type} : Sys α := .call .undefined fun e => nomatch e

def nlDelLink (ifname : CStr) : Sys Int := do
  let sock ← nlSocket
  if sock < 0 then
    return -1
  let idx ← sys (.ifNametoindex ifname)
  if idx = 0 then
    closeFd sock
    return 0
  let ret ← nlSendRecv sock (delLinkMsg idx) 4 RTM_DELLINK
  closeFd sock
  return ret

def nlCreateVeth (name1 name2 : CStr) : Sys Int := do
  let sock ← nlSocket
  if sock < 0 then
    return -1
  match createVethMsg name1 name2 with
  | none => overrun
  | some msg =>
  let ret ← nlSendRecv sock msg 1 RTM_NEWLINK
  closeFd sock
  if ret < 0 then
    return -1
  let idx1 ← waitForInterface name1 5000
  let idx2 ← waitForInterface name2 5000
  if idx1 = 0 ∨ idx2 = 0 then
    let _ ← invoke (.nlDelLink name1) (nlDelLink name1)
    return -1
  return 0

def nlSetUp (ifname : CStr) : Sys Int := do
  let sock ← nlSocket
  if sock < 0 then
    return -1
  let idx ← waitForInterface ifname 5000
  if idx = 0 then
    closeFd sock
    return -1
  let ret ← nlSendRecv sock (setUpMsg idx) 2 RTM_NEWLINK
  closeFd sock
  return ret

def nlAddAddr (ifname ipCidr : CStr) : Sys Int := do
  let sock ← nlSocket
  if sock < 0 then
    return -1
  let idx ← waitForInterface ifname 5000
  if idx = 0 then
    closeFd sock
    return -1
  match parseCidr ipCidr with
  | none =>
    closeFd sock
    return -1
  | some (ip, plen) =>
    let ret ← nlSendRecv sock (addAddrMsg idx ip plen) 3 RTM_NEWADDR
    closeFd sock
    return ret

def defaultRoute : CStr := ⟨ascii "default", by decide⟩

/-- The destination of `nl_add_route`: the first 63 bytes of `dest`, cut at the
first `/`; the prefix length defaults to 32. -/
def parseDest : Option CStr → Option (List UInt8 × Nat)
  | none => some ([0, 0, 0, 0], 0)
  | some dest =>
    if dest = defaultRoute then some ([0, 0, 0, 0], 0)
    else
      let buf := dest.take 63
      match buf.chr 47 with
      | some i => (inetPton (buf.take i)).map fun ip => (ip, toU8 (atoi (buf.1.drop (i + 1))))
      | none => (inetPton buf).map fun ip => (ip, 32)

/-- The end of `nl_add_route`: send the request and close the socket. -/
def nlAddRouteSend (sock : Int) (msg : NlMsg) : Sys Int := do
  let ret ← nlSendRecv sock msg 5 RTM_NEWROUTE
  closeFd sock
  return ret

/-- The output interface of `nl_add_route`, when one is asked for. -/
def nlAddRouteDev (sock : Int) (dst : List UInt8) (dstLen : Nat) (gateway : Option (List UInt8)) :
    Option CStr → Sys Int
  | none => nlAddRouteSend sock (addRouteMsg dst dstLen gateway none)
  | some dev => do
    let idx ← sys (.ifNametoindex dev)
    if idx = 0 then
      closeFd sock
      return -1
    nlAddRouteSend sock (addRouteMsg dst dstLen gateway (some idx))

def nlAddRoute (dest gateway dev : Option CStr) : Sys Int := do
  let sock ← nlSocket
  if sock < 0 then
    return -1
  match parseDest dest with
  | none =>
    closeFd sock
    return -1
  | some (dst, dstLen) =>
    match gateway with
    | none => nlAddRouteDev sock dst dstLen none dev
    | some gw =>
      match inetPton gw with
      | none =>
        closeFd sock
        return -1
      | some gwIp => nlAddRouteDev sock dst dstLen (some gwIp) dev

def nlMoveToNs (ifname : CStr) (nsFd : Int) : Sys Int := do
  let sock ← nlSocket
  if sock < 0 then
    return -1
  let idx ← sys (.ifNametoindex ifname)
  if idx = 0 then
    closeFd sock
    return -1
  let ret ← nlSendRecv sock (moveToNsMsg idx nsFd) 6 RTM_NEWLINK
  closeFd sock
  return ret

def nlRenameLink (oldname newname : CStr) : Sys Int := do
  let sock ← nlSocket
  if sock < 0 then
    return -1
  let idx ← sys (.ifNametoindex oldname)
  if idx = 0 then
    closeFd sock
    return -1
  match renameLinkMsg idx newname with
  | none => overrun
  | some msg =>
    let ret ← nlSendRecv sock msg 7 RTM_NEWLINK
    closeFd sock
    return ret

end Barco
