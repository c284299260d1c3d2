import Barco.Requests

/-!
# Requests on the wire

The bytes that `sendmsg` gets, and how a receiver takes them apart: the message
header, the fixed header that goes with the type, and attributes that fill the
rest. A message is decoded only if its length field is its length and every
field the source leaves alone is zero.

1. `decode_bytes`: the headers are read as they were written.
2. `flat_requests_faithful`: the requests without nesting.
3. `veth_request_round_trip`: the request that creates a pair.
-/

namespace Barco

open Rtattr

/-! ## Layout -/

def byte (n : Nat) : List UInt8 := [(n % 256).toUInt8]

/-- `struct nlmsghdr`; `nlmsg_pid` stays zero. -/
def NlMsgHdr.bytes (hdr : NlMsgHdr) : List UInt8 :=
  le32 hdr.len ++ (le16 hdr.type ++ (le16 hdr.flags ++ (le32 hdr.seq ++ le32 0)))

/-- `struct ifinfomsg`, `ifaddrmsg` and `rtmsg`, with zeros for the other fields. -/
def NlBody.bytes : NlBody → List UInt8
  | .ifinfo family index flags change =>
    byte family ++ (byte 0 ++ (le16 0 ++ (le32 index ++ (le32 flags ++ le32 change))))
  | .ifaddr family prefixlen scope index =>
    byte family ++ (byte prefixlen ++ (byte 0 ++ (byte scope ++ le32 index)))
  | .rt family dstLen table protocol scope type =>
    byte family ++ (byte dstLen ++ (byte 0 ++ (byte 0 ++ (byte table ++ (byte protocol ++
      (byte scope ++ (byte type ++ le32 0)))))))

/-- The size of the fixed header. -/
def NlBody.size : NlBody → Nat
  | .ifinfo _ _ _ _ => 16
  | .ifaddr _ _ _ _ => 8
  | .rt _ _ _ _ _ _ => 12

/-- What `sendmsg` is given. -/
def NlMsg.bytes (msg : NlMsg) : List UInt8 := msg.hdr.bytes ++ (msg.body.bytes ++ msg.attrs)

/-! ## Decoding -/

/-- A message as a receiver sees it. -/
structure Decoded where
  hdr : NlMsgHdr
  body : NlBody
  attrs : List (Nat × List UInt8)
deriving DecidableEq

/-- The fixed header behind a message header of this type. -/
def decodeBody (type : Nat) (bs : List UInt8) : Option NlBody :=
  if type = RTM_NEWLINK ∨ type = RTM_DELLINK then
    if byteAt bs 1 = 0 ∧ le16At bs 2 = 0 then
      some (.ifinfo (byteAt bs 0) (le32At bs 4) (le32At bs 8) (le32At bs 12))
    else none
  else if type = RTM_NEWADDR then
    if byteAt bs 2 = 0 then
      some (.ifaddr (byteAt bs 0) (byteAt bs 1) (byteAt bs 3) (le32At bs 4))
    else none
  else if type = RTM_NEWROUTE then
    if byteAt bs 2 = 0 ∧ byteAt bs 3 = 0 ∧ le32At bs 8 = 0 then
      some (.rt (byteAt bs 0) (byteAt bs 1) (byteAt bs 4) (byteAt bs 5) (byteAt bs 6) (byteAt bs 7))
    else none
  else none

def decode (bs : List UInt8) : Option Decoded := do
  let hdr : NlMsgHdr := ⟨le32At bs 0, le16At bs 4, le16At bs 6, le32At bs 8⟩
  if hdr.len ≠ bs.length ∨ bs.length < 16 ∨ le32At bs 12 ≠ 0 then none
  else
    let body ← decodeBody hdr.type (bs.drop 16)
    if bs.length < 16 + body.size then none
    else
      let attrs ← tile (align4 (16 + body.size)) (bs.drop (align4 (16 + body.size)))
      return ⟨hdr, body, attrs⟩

/-! ## Reading what was written -/

@[simp] theorem length_byte (n : Nat) : (byte n).length = 1 := rfl

@[simp] theorem NlMsgHdr.length_bytes (hdr : NlMsgHdr) : hdr.bytes.length = 16 := rfl

@[simp] theorem NlBody.length_bytes (body : NlBody) : body.bytes.length = body.size := by
  cases body <;> rfl

/-- The fields of the fixed header fit their places. -/
def NlBody.Fits : NlBody → Prop
  | .ifinfo family index flags change =>
    family < 256 ∧ index < 4294967296 ∧ flags < 4294967296 ∧ change < 4294967296
  | .ifaddr family prefixlen scope index =>
    family < 256 ∧ prefixlen < 256 ∧ scope < 256 ∧ index < 4294967296
  | .rt family dstLen table protocol scope type =>
    family < 256 ∧ dstLen < 256 ∧ table < 256 ∧ protocol < 256 ∧ scope < 256 ∧ type < 256

/-- The type goes with the fixed header. -/
def NlBody.Typed (type : Nat) : NlBody → Prop
  | .ifinfo _ _ _ _ => type = RTM_NEWLINK ∨ type = RTM_DELLINK
  | .ifaddr _ _ _ _ => type = RTM_NEWADDR
  | .rt _ _ _ _ _ _ => type = RTM_NEWROUTE

/-- The numbers in the headers fit their places, and the length is the length. -/
structure NlMsg.Sized (msg : NlMsg) : Prop where
  typed : msg.body.Typed msg.hdr.type
  len : msg.hdr.len = msg.bytes.length
  lenFits : msg.hdr.len < 4294967296
  typeFits : msg.hdr.type < 65536
  flagsFit : msg.hdr.flags < 65536
  seqFits : msg.hdr.seq < 4294967296
  bodyFits : msg.body.Fits

theorem byteAt_byte {n : Nat} (hn : n < 256) : byteAt (byte n) 0 = n :=
  (toNat_mod_toUInt8 n).trans (Nat.mod_eq_of_lt hn)

theorem le16At_self {n : Nat} (hn : n < 65536) : le16At (le16 n) 0 = n := le16At_le16 [] [] hn

theorem le32At_self {n : Nat} (hn : n < 4294967296) : le32At (le32 n) 0 = n := le32At_le32 [] [] hn

/-- The fixed header is read as it was written. -/
theorem decodeBody_bytes {type : Nat} {body : NlBody} (ht : body.Typed type) (hfit : body.Fits)
    (rest : List UInt8) : decodeBody type (body.bytes ++ rest) = some body := by
  cases body with
  | ifinfo family index flags change =>
    obtain ⟨hfamily, hindex, hflags, hchange⟩ := hfit
    rw [decodeBody, if_pos (show type = RTM_NEWLINK ∨ type = RTM_DELLINK from ht), if_pos ⟨rfl, rfl⟩]
    congr 2
    · exact byteAt_byte hfamily
    · exact le32At_self hindex
    · exact le32At_self hflags
    · exact le32At_self hchange
  | ifaddr family prefixlen scope index =>
    obtain ⟨hfamily, hprefixlen, hscope, hindex⟩ := hfit
    obtain rfl : type = RTM_NEWADDR := ht
    rw [decodeBody, if_neg (by decide), if_pos rfl,
      if_pos (show byteAt ((NlBody.ifaddr family prefixlen scope index).bytes ++ rest) 2 = 0 from rfl)]
    congr 2
    · exact byteAt_byte hfamily
    · exact byteAt_byte hprefixlen
    · exact byteAt_byte hscope
    · exact le32At_self hindex
  | rt family dstLen table protocol scope kind =>
    obtain ⟨hfamily, hdstLen, htable, hprotocol, hscope, hkind⟩ := hfit
    obtain rfl : type = RTM_NEWROUTE := ht
    rw [decodeBody, if_neg (by decide), if_neg (by decide), if_pos rfl, if_pos ⟨rfl, rfl, rfl⟩]
    congr 2
    · exact byteAt_byte hfamily
    · exact byteAt_byte hdstLen
    · exact byteAt_byte htable
    · exact byteAt_byte hprotocol
    · exact byteAt_byte hscope
    · exact byteAt_byte hkind

theorem align4_size (body : NlBody) : align4 (16 + body.size) = 16 + body.size := by
  cases body <;> simp [NlBody.size, align4]

theorem length_bytes (msg : NlMsg) : msg.bytes.length = 16 + msg.body.size + msg.attrs.length := by
  simp [NlMsg.bytes, Nat.add_assoc]

/-- A message whose attributes fill the rest is read as it was written. -/
theorem decode_bytes {msg : NlMsg} {attrs : List (Nat × List UInt8)} (hs : msg.Sized)
    (hattrs : tile (16 + msg.body.size) msg.attrs = some attrs) :
    decode msg.bytes = some ⟨msg.hdr, msg.body, attrs⟩ := by
  have hlen : le32At msg.bytes 0 = msg.hdr.len := le32At_self hs.lenFits
  have htype : le16At msg.bytes 4 = msg.hdr.type := le16At_self hs.typeFits
  have hflags : le16At msg.bytes 6 = msg.hdr.flags := le16At_self hs.flagsFit
  have hseq : le32At msg.bytes 8 = msg.hdr.seq := le32At_self hs.seqFits
  have hpid : le32At msg.bytes 12 = 0 := rfl
  have hbody : msg.bytes.drop 16 = msg.body.bytes ++ msg.attrs := rfl
  have hrest : msg.bytes.drop (16 + msg.body.size) = msg.attrs := by
    rw [← List.drop_drop, hbody, ← NlBody.length_bytes, List.drop_left]
  have hlong := length_bytes msg
  have hok : ¬ (msg.hdr.len ≠ msg.bytes.length ∨ msg.bytes.length < 16 ∨ 0 ≠ 0) := by
    have := hs.len
    omega
  have hok' : ¬ (msg.bytes.length < 16 + msg.body.size) := by omega
  simp only [decode, hlen, htype, hflags, hseq, hpid, hbody, if_neg hok]
  rw [decodeBody_bytes hs.typed hs.bodyFits]
  simp [hok', align4_size, hrest, hattrs]

/-! ## The requests without nesting -/

def areaRta (base off len type : Nat) (buf : List UInt8) : Option (List UInt8) :=
  areaPoke base off (le16 len ++ le16 type) buf

/-- The request of `nl_add_addr` as it is written, in a structure with a 64-byte
attribute area behind `struct ifaddrmsg`. -/
def addAddrReq (idx : Nat) (ip : List UInt8) (plen : Nat) : Option NlMsg := do
  let buf := List.replicate 64 0
  let nlmsgLen := nlmsgLength 8
  let rta := align4 nlmsgLen
  let buf ← areaRta 24 rta (rtaLength 4) IFA_LOCAL buf
  let buf ← areaPoke 24 (rta + 4) ip buf
  let nlmsgLen := nlmsgLen + align4 (rtaLength 4)
  let rta := align4 nlmsgLen
  let buf ← areaRta 24 rta (rtaLength 4) IFA_ADDRESS buf
  let buf ← areaPoke 24 (rta + 4) ip buf
  let nlmsgLen := nlmsgLen + align4 (rtaLength 4)
  return {
    hdr := ⟨nlmsgLen, RTM_NEWADDR, NLM_F_REQUEST ||| NLM_F_CREATE ||| NLM_F_REPLACE ||| NLM_F_ACK, 3⟩
    body := .ifaddr AF_INET plen RT_SCOPE_UNIVERSE idx
    attrs := buf.take (nlmsgLen - 24) }

/-- One attribute of `nl_add_route`, at the pointer `p` into the attribute area
`buf`; the pointer moves behind it. -/
def routeRta (type : Nat) (payload : List UInt8) (p : Nat) (buf : List UInt8) :
    Option (Nat × List UInt8) := do
  let buf ← areaRta 28 p (rtaLength 4) type buf
  let buf ← areaPoke 28 (p + 4) payload buf
  return (p + align4 (rtaLength 4), buf)

/-- The same for an attribute that may be absent. -/
def routeRtaOpt (type : Nat) (payload : Option (List UInt8)) (p : Nat) (buf : List UInt8) :
    Option (Nat × List UInt8) :=
  match payload with
  | some payload => routeRta type payload p buf
  | none => some (p, buf)

/-- The request of `nl_add_route` as it is written, in a structure with a 512-byte
attribute area behind `struct rtmsg`. -/
def addRouteReq (dst : List UInt8) (dstLen : Nat) (gateway : Option (List UInt8))
    (dev : Option Nat) : Option NlMsg := do
  let s ← routeRta RTA_DST dst (align4 (nlmsgLength 12)) (List.replicate 512 0)
  let s ← routeRtaOpt RTA_GATEWAY gateway s.1 s.2
  let s ← routeRtaOpt RTA_OIF (dev.map le32) s.1 s.2
  return {
    hdr := ⟨s.1, RTM_NEWROUTE, NLM_F_REQUEST ||| NLM_F_CREATE ||| NLM_F_EXCL ||| NLM_F_ACK, 5⟩
    body := .rt AF_INET dstLen RT_TABLE_MAIN RTPROT_STATIC
      (if gateway.isSome then RT_SCOPE_UNIVERSE else RT_SCOPE_LINK) RTN_UNICAST
    attrs := s.2.take (s.1 - 28) }

/-- The request of `nl_move_to_ns` as it is written, in a structure with a 64-byte
attribute area. -/
def moveToNsReq (idx : Nat) (nsFd : Int) : Option NlMsg := do
  let buf := List.replicate 64 0
  let nlmsgLen := nlmsgLength 16
  let rta := align4 nlmsgLen
  let buf ← attrRta rta (rtaLength 4) IFLA_NET_NS_FD buf
  let buf ← attrPoke (rta + 4) (intBytes nsFd) buf
  let nlmsgLen := nlmsgLen + align4 (rtaLength 4)
  return {
    hdr := ⟨nlmsgLen, RTM_NEWLINK, NLM_F_REQUEST ||| NLM_F_ACK, 6⟩
    body := .ifinfo AF_UNSPEC idx 0 0
    attrs := buf.take (nlmsgLen - 32) }

/-- An IPv4 address in network byte order. -/
structure Ipv4 where
  a : UInt8
  b : UInt8
  c : UInt8
  d : UInt8
deriving DecidableEq

def Ipv4.bytes (ip : Ipv4) : List UInt8 := [ip.a, ip.b, ip.c, ip.d]

theorem addAddrReq_eq (idx : Nat) (ip : Ipv4) (plen : Nat) :
    addAddrReq idx ip.bytes plen = some (addAddrMsg idx ip.bytes plen) := by
  have hbuf : List.replicate 64 (0 : UInt8) =
      [zeros 4, zeros 4, zeros 4, zeros 4, zeros 48].flatten := rfl
  unfold addAddrReq
  rw [hbuf]
  refine bind_areaPoke 24 (show List.map List.length _ = [4, 4, 4, 4, 48] from rfl) 0 rfl rfl fun hsegs => ?_
  refine bind_areaPoke 24 hsegs 1 rfl rfl fun hsegs => ?_
  refine bind_areaPoke 24 hsegs 2 rfl rfl fun hsegs => ?_
  refine bind_areaPoke 24 hsegs 3 rfl rfl fun _ => ?_
  simp [addAddrMsg, rtaBytes, align4, rtaLength, nlmsgLength, Ipv4.bytes, le16]

/-- An attribute of four bytes lands on the next two segments. -/
theorem bind_routeRta {α : Type} {type : Nat} {p : Nat} {payload : List UInt8}
    {segs : List (List UInt8)} {lens : List Nat} {k : Nat × List UInt8 → Option α}
    {result : Option α} (hsegs : segs.map List.length = lens) (i : Nat)
    (hp : p = 28 + (lens.take i).sum) (hpayload : payload.length = 4)
    (hlen : lens[i]? = some 4) (hlen' : lens[i + 1]? = some 4)
    (hk : ((segs.set i (le16 8 ++ le16 type)).set (i + 1) payload).map List.length = lens →
      k (p + 8, ((segs.set i (le16 8 ++ le16 type)).set (i + 1) payload).flatten) = result) :
    (routeRta type payload p segs.flatten >>= k) = result := by
  have hsum : (lens.take (i + 1)).sum = (lens.take i).sum + 4 := by
    rw [List.take_add_one, hlen]
    simp
  simp only [routeRta, Option.bind_eq_bind, Option.bind_assoc]
  refine bind_areaPoke 28 hsegs i hp hlen fun hsegs => ?_
  refine bind_areaPoke 28 hsegs (i + 1) (by omega) (hpayload.symm ▸ hlen') fun hsegs => ?_
  exact hk hsegs

theorem addRouteReq_eq (dst : Ipv4) (dstLen : Nat) (gateway : Option Ipv4) (dev : Option Nat) :
    addRouteReq dst.bytes dstLen (gateway.map Ipv4.bytes) dev =
      some (addRouteMsg dst.bytes dstLen (gateway.map Ipv4.bytes) dev) := by
  have hbuf : List.replicate 512 (0 : UInt8) =
      [zeros 4, zeros 4, zeros 4, zeros 4, zeros 4, zeros 4, zeros 488].flatten := by
    simp only [List.flatten_cons, List.flatten_nil, zeros, List.append_nil,
      List.replicate_append_replicate]
  unfold addRouteReq
  rw [hbuf]
  have hsegs : [zeros 4, zeros 4, zeros 4, zeros 4, zeros 4, zeros 4, zeros 488].map List.length =
      [4, 4, 4, 4, 4, 4, 488] := by simp
  refine bind_routeRta hsegs 0 rfl rfl rfl rfl fun hsegs => ?_
  cases gateway with
  | none =>
    simp only [Option.map_none, routeRtaOpt, Option.bind_eq_bind, Option.bind_some]
    cases dev with
    | none => simp [addRouteMsg, rtaBytes, align4, rtaLength, nlmsgLength, Ipv4.bytes, le16]
    | some idx =>
      refine bind_routeRta hsegs 2 rfl rfl rfl rfl fun hsegs => ?_
      simp [addRouteMsg, rtaBytes, align4, rtaLength, nlmsgLength, Ipv4.bytes, le16, le32]
  | some gw =>
    refine bind_routeRta hsegs 2 rfl rfl rfl rfl fun hsegs => ?_
    cases dev with
    | none => simp [routeRtaOpt, addRouteMsg, rtaBytes, align4, rtaLength, nlmsgLength, Ipv4.bytes, le16]
    | some idx =>
      refine bind_routeRta hsegs 4 rfl rfl rfl rfl fun hsegs => ?_
      simp [addRouteMsg, rtaBytes, align4, rtaLength, nlmsgLength, Ipv4.bytes, le16, le32]

theorem moveToNsReq_eq (idx : Nat) (nsFd : Int) :
    moveToNsReq idx nsFd = some (moveToNsMsg idx nsFd) := by
  have hbuf : List.replicate 64 (0 : UInt8) = [zeros 4, zeros 4, zeros 56].flatten := rfl
  unfold moveToNsReq
  rw [hbuf]
  refine bind_attrPoke (show List.map List.length _ = [4, 4, 56] from rfl) 0 rfl rfl fun hsegs => ?_
  refine bind_attrPoke hsegs 1 rfl rfl fun _ => ?_
  simp [moveToNsMsg, rtaBytes, align4, rtaLength, nlmsgLength, intBytes, le16]

/-- The request is built inside its structure of `size` bytes, `nlmsg_len` is the
number of bytes sent, and a receiver reads exactly these fields and attributes. -/
def Faithful (req : Option NlMsg) (size type flags seq : Nat) (body : NlBody)
    (attrs : List (Nat × List UInt8)) : Prop :=
  ∃ msg, req = some msg ∧ msg.hdr.len ≤ size ∧ msg.hdr.len = msg.bytes.length ∧
    decode msg.bytes = some ⟨⟨msg.hdr.len, type, flags, seq⟩, body, attrs⟩

theorem Ipv4.length_bytes (ip : Ipv4) : ip.bytes.length = 4 := rfl

theorem length_intBytes (n : Int) : (intBytes n).length = 4 := rfl

/-- A request whose length field is right, in terms of what it was built from. -/
theorem faithful_of {req : Option NlMsg} {msg : NlMsg} {size : Nat}
    {attrs : List (Nat × List UInt8)} (hreq : req = some msg) (hattrs : msg.attrs = region attrs)
    (hvalid : ∀ a ∈ attrs, a.1 < 65536 ∧ a.2.length < 65500)
    (hlen : msg.hdr.len = 16 + msg.body.size + msg.attrs.length) (hfits : msg.hdr.len ≤ size)
    (hsize : size < 4294967296) (htyped : msg.body.Typed msg.hdr.type) (hbody : msg.body.Fits)
    (hhdr : msg.hdr.type < 65536 ∧ msg.hdr.flags < 65536 ∧ msg.hdr.seq < 4294967296) :
    Faithful req size msg.hdr.type msg.hdr.flags msg.hdr.seq msg.body attrs := by
  have hbytes : msg.hdr.len = msg.bytes.length := hlen.trans (length_bytes msg).symm
  refine ⟨msg, hreq, hfits, hbytes, decode_bytes ?_ ?_⟩
  · exact ⟨htyped, hbytes, Nat.lt_of_le_of_lt hfits hsize, hhdr.1, hhdr.2.1, hhdr.2.2, hbody⟩
  · rw [hattrs]
    exact tile_region (align4_size msg.body ▸ align4_mod _) hvalid

theorem addAddr_faithful (idx : UInt32) (ip : Ipv4) (plen : UInt8) :
    Faithful (addAddrReq idx.toNat ip.bytes plen.toNat) 88 RTM_NEWADDR
      (NLM_F_REQUEST ||| NLM_F_CREATE ||| NLM_F_REPLACE ||| NLM_F_ACK) 3
      (.ifaddr AF_INET plen.toNat RT_SCOPE_UNIVERSE idx.toNat)
      [(IFA_LOCAL, ip.bytes), (IFA_ADDRESS, ip.bytes)] := by
  have hlen : (addAddrMsg idx.toNat ip.bytes plen.toNat).hdr.len = 40 := rfl
  refine faithful_of (addAddrReq_eq _ ip _) ?_ ?_ ?_ ?_ (by decide) rfl ?_ ?_
  · simp [addAddrMsg]
  · simp [Ipv4.length_bytes, IFA_LOCAL, IFA_ADDRESS]
  · rw [hlen]
    simp [addAddrMsg, NlBody.size, length_rtaBytes, Ipv4.length_bytes, align4]
  · rw [hlen]
    decide
  · exact ⟨by decide, plen.toNat_lt, by decide, idx.toNat_lt⟩
  · exact ⟨(by decide : RTM_NEWADDR < 65536), (by decide : _ ||| NLM_F_ACK < 65536),
      (by decide : 3 < 4294967296)⟩

/-- The attributes of `nl_add_route`: those that are there, in this order. -/
def routeAttrs (dst : Ipv4) (gateway : Option Ipv4) (dev : Option UInt32) :
    List (Nat × List UInt8) :=
  (RTA_DST, dst.bytes) :: ((gateway.map fun gw => (RTA_GATEWAY, gw.bytes)).toList ++
    (dev.map fun idx => (RTA_OIF, le32 idx.toNat)).toList)

theorem addRouteMsg_attrs (dst : Ipv4) (dstLen : Nat) (gateway : Option Ipv4) (dev : Option UInt32) :
    (addRouteMsg dst.bytes dstLen (gateway.map Ipv4.bytes) (dev.map UInt32.toNat)).attrs =
      region (routeAttrs dst gateway dev) := by
  cases gateway <;> cases dev <;> simp [addRouteMsg, routeAttrs]

theorem routeAttrs_valid (dst : Ipv4) (gateway : Option Ipv4) (dev : Option UInt32) :
    ∀ a ∈ routeAttrs dst gateway dev, a.1 < 65536 ∧ a.2.length = 4 := by
  cases gateway <;> cases dev <;>
    simp [routeAttrs, Ipv4.length_bytes, RTA_DST, RTA_GATEWAY, RTA_OIF]

theorem length_region_routeAttrs (dst : Ipv4) (gateway : Option Ipv4) (dev : Option UInt32) :
    (region (routeAttrs dst gateway dev)).length ≤ 24 := by
  cases gateway <;> cases dev <;>
    simp [routeAttrs, length_rtaBytes, Ipv4.length_bytes, align4]

theorem addRoute_faithful (dst : Ipv4) (dstLen : UInt8) (gateway : Option Ipv4)
    (dev : Option UInt32) :
    Faithful (addRouteReq dst.bytes dstLen.toNat (gateway.map Ipv4.bytes) (dev.map UInt32.toNat)) 540
      RTM_NEWROUTE (NLM_F_REQUEST ||| NLM_F_CREATE ||| NLM_F_EXCL ||| NLM_F_ACK) 5
      (.rt AF_INET dstLen.toNat RT_TABLE_MAIN RTPROT_STATIC
        (if gateway.isSome then RT_SCOPE_UNIVERSE else RT_SCOPE_LINK) RTN_UNICAST)
      (routeAttrs dst gateway dev) := by
  have hattrs := addRouteMsg_attrs dst dstLen.toNat gateway dev
  have hlen : (addRouteMsg dst.bytes dstLen.toNat (gateway.map Ipv4.bytes)
      (dev.map UInt32.toNat)).hdr.len = 28 + (region (routeAttrs dst gateway dev)).length := by
    rw [← hattrs]
    rfl
  have hbound := length_region_routeAttrs dst gateway dev
  have hscope : (if (gateway.map Ipv4.bytes).isSome then RT_SCOPE_UNIVERSE else RT_SCOPE_LINK) =
      if gateway.isSome then RT_SCOPE_UNIVERSE else RT_SCOPE_LINK := by rw [Option.isSome_map]
  rw [← hscope]
  refine faithful_of (addRouteReq_eq dst _ gateway _) hattrs (fun a ha => ?_) ?_ ?_ (by decide) rfl ?_ ?_
  · obtain ⟨htype, hfour⟩ := routeAttrs_valid dst gateway dev a ha
    exact ⟨htype, by omega⟩
  · rw [hlen, hattrs]
    rfl
  · omega
  · refine ⟨by decide, dstLen.toNat_lt, by decide, by decide, ?_, by decide⟩
    split <;> decide
  · exact ⟨(by decide : RTM_NEWROUTE < 65536), (by decide : _ ||| NLM_F_ACK < 65536),
      (by decide : 5 < 4294967296)⟩

theorem moveToNs_faithful (idx : UInt32) (nsFd : Int32) :
    Faithful (moveToNsReq idx.toNat nsFd.toInt) 96 RTM_NEWLINK (NLM_F_REQUEST ||| NLM_F_ACK) 6
      (.ifinfo AF_UNSPEC idx.toNat 0 0) [(IFLA_NET_NS_FD, intBytes nsFd.toInt)] := by
  have hlen : (moveToNsMsg idx.toNat nsFd.toInt).hdr.len = 40 := rfl
  refine faithful_of (moveToNsReq_eq _ _) ?_ ?_ ?_ ?_ (by decide) (.inl rfl) ?_ ?_
  · simp [moveToNsMsg]
  · simp [length_intBytes, IFLA_NET_NS_FD]
  · rw [hlen]
    simp [moveToNsMsg, NlBody.size, length_rtaBytes, length_intBytes, align4]
  · rw [hlen]
    decide
  · exact ⟨by decide, idx.toNat_lt, by decide, by decide⟩
  · exact ⟨(by decide : RTM_NEWLINK < 65536), (by decide : _ ||| NLM_F_ACK < 65536),
      (by decide : 6 < 4294967296)⟩

theorem renameLink_faithful (idx : UInt32) {newname : CStr} (hname : newname.1.length ≤ 59) :
    Faithful (renameLinkMsg idx.toNat newname) 96 RTM_NEWLINK (NLM_F_REQUEST ||| NLM_F_ACK) 7
      (.ifinfo AF_UNSPEC idx.toNat 0 0) [(IFLA_IFNAME, cbytes newname)] := by
  refine faithful_of (renameLinkMsg_eq hname) ?_ ?_ ?_ ?_ (by decide) (.inl rfl) ?_ ?_
  · simp
  · have := length_cbytes newname
    simp only [List.mem_singleton, forall_eq]
    exact ⟨by decide, by omega⟩
  · simp only [NlBody.size, length_rtaBytes, length_cbytes, align4]
    omega
  · simp only [align4]
    omega
  · exact ⟨by decide, idx.toNat_lt, by decide, by decide⟩
  · exact ⟨(by decide : RTM_NEWLINK < 65536), (by decide : _ ||| NLM_F_ACK < 65536),
      (by decide : 7 < 4294967296)⟩

/-- The four requests without nesting are built inside their structures, are read back as what
they were built from, and are the messages that the operations send (the rename is sent as it
is built). -/
theorem flat_requests_faithful (idx : UInt32) (ip dst : Ipv4) (plen : UInt8)
    (gateway : Option Ipv4) (dev : Option UInt32) (nsFd : Int32) (newname : CStr)
    (hname : newname.1.length ≤ 59) :
    Faithful (addAddrReq idx.toNat ip.bytes plen.toNat) 88 RTM_NEWADDR
      (NLM_F_REQUEST ||| NLM_F_CREATE ||| NLM_F_REPLACE ||| NLM_F_ACK) 3
      (.ifaddr AF_INET plen.toNat RT_SCOPE_UNIVERSE idx.toNat)
      [(IFA_LOCAL, ip.bytes), (IFA_ADDRESS, ip.bytes)] ∧
    Faithful (addRouteReq dst.bytes plen.toNat (gateway.map Ipv4.bytes) (dev.map UInt32.toNat)) 540
      RTM_NEWROUTE (NLM_F_REQUEST ||| NLM_F_CREATE ||| NLM_F_EXCL ||| NLM_F_ACK) 5
      (.rt AF_INET plen.toNat RT_TABLE_MAIN RTPROT_STATIC
        (if gateway.isSome then RT_SCOPE_UNIVERSE else RT_SCOPE_LINK) RTN_UNICAST)
      (routeAttrs dst gateway dev) ∧
    Faithful (moveToNsReq idx.toNat nsFd.toInt) 96 RTM_NEWLINK (NLM_F_REQUEST ||| NLM_F_ACK) 6
      (.ifinfo AF_UNSPEC idx.toNat 0 0) [(IFLA_NET_NS_FD, intBytes nsFd.toInt)] ∧
    Faithful (renameLinkMsg idx.toNat newname) 96 RTM_NEWLINK (NLM_F_REQUEST ||| NLM_F_ACK) 7
      (.ifinfo AF_UNSPEC idx.toNat 0 0) [(IFLA_IFNAME, cbytes newname)] ∧
    addAddrReq idx.toNat ip.bytes plen.toNat = some (addAddrMsg idx.toNat ip.bytes plen.toNat) ∧
    addRouteReq dst.bytes plen.toNat (gateway.map Ipv4.bytes) (dev.map UInt32.toNat) =
      some (addRouteMsg dst.bytes plen.toNat (gateway.map Ipv4.bytes) (dev.map UInt32.toNat)) ∧
    moveToNsReq idx.toNat nsFd.toInt = some (moveToNsMsg idx.toNat nsFd.toInt) :=
  ⟨addAddr_faithful idx ip plen, addRoute_faithful dst plen gateway dev, moveToNs_faithful idx nsFd,
    renameLink_faithful idx hname, addAddrReq_eq _ ip _, addRouteReq_eq dst _ gateway _,
    moveToNsReq_eq _ _⟩

/-- The address 10.0.0.2/24, the default route through 10.0.0.1, a move and a rename to
`eth0`. -/
theorem flat_requests_faithful_eth0 :
    Faithful (some (addAddrMsg 7 [10, 0, 0, 2] 24)) 88 RTM_NEWADDR
      (NLM_F_REQUEST ||| NLM_F_CREATE ||| NLM_F_REPLACE ||| NLM_F_ACK) 3
      (.ifaddr AF_INET 24 RT_SCOPE_UNIVERSE 7)
      [(IFA_LOCAL, [10, 0, 0, 2]), (IFA_ADDRESS, [10, 0, 0, 2])] ∧
    Faithful (some (addRouteMsg [0, 0, 0, 0] 24 (some [10, 0, 0, 1]) (some 7))) 540 RTM_NEWROUTE
      (NLM_F_REQUEST ||| NLM_F_CREATE ||| NLM_F_EXCL ||| NLM_F_ACK) 5
      (.rt AF_INET 24 RT_TABLE_MAIN RTPROT_STATIC RT_SCOPE_UNIVERSE RTN_UNICAST)
      [(RTA_DST, [0, 0, 0, 0]), (RTA_GATEWAY, [10, 0, 0, 1]), (RTA_OIF, le32 7)] ∧
    Faithful (some (moveToNsMsg 7 5)) 96 RTM_NEWLINK (NLM_F_REQUEST ||| NLM_F_ACK) 6
      (.ifinfo AF_UNSPEC 7 0 0) [(IFLA_NET_NS_FD, intBytes 5)] ∧
    Faithful (renameLinkMsg 7 ⟨ascii "eth0", by decide⟩) 96 RTM_NEWLINK
      (NLM_F_REQUEST ||| NLM_F_ACK) 7 (.ifinfo AF_UNSPEC 7 0 0)
      [(IFLA_IFNAME, ascii "eth0" ++ [0])] := by
  obtain ⟨haddr, hroute, hmove, hrename, haddrMsg, hrouteMsg, hmoveMsg⟩ :=
    flat_requests_faithful 7 ⟨10, 0, 0, 2⟩ ⟨0, 0, 0, 0⟩ 24 (some ⟨10, 0, 0, 1⟩) (some 7) 5
      ⟨ascii "eth0", by decide⟩ (by decide)
  exact ⟨haddrMsg ▸ haddr, hrouteMsg ▸ hroute, hmoveMsg ▸ hmove, hrename⟩

/-! ## The request that creates a pair -/

/-- What a receiver finds in the nested attributes: the first name, the kind, the
`struct ifinfomsg` of the other end, and its name. -/
structure VethRequest where
  ifname : List UInt8
  kind : List UInt8
  peerInfo : List UInt8
  peerIfname : List UInt8
deriving DecidableEq

/-- The payload of an attribute that has to be the only one of its region, and of
this type. -/
def only (type : Nat) : List (Nat × List UInt8) → Option (List UInt8)
  | [a] => if a.1 = type then some a.2 else none
  | _ => none

/-- The payloads of two attributes that have to be all of their region, in order. -/
def both (type type' : Nat) : List (Nat × List UInt8) → Option (List UInt8 × List UInt8)
  | [a, b] => if a.1 = type ∧ b.1 = type' then some (a.2, b.2) else none
  | _ => none

/-- Take a request apart at every nesting level. A nested region starts four bytes
behind a header on a multiple of four. -/
def decodeVeth (attrs : List (Nat × List UInt8)) : Option VethRequest := do
  let top ← both IFLA_IFNAME IFLA_LINKINFO attrs
  let info ← both IFLA_INFO_KIND IFLA_INFO_DATA (← tile 0 top.2)
  let peer ← only VETH_INFO_PEER (← tile 0 info.2)
  if peer.length < 16 then none
  else
    let peerIfname ← only IFLA_IFNAME (← tile 0 (peer.drop 16))
    return ⟨top.1, info.1, peer.take 16, peerIfname⟩

/-- The nested attributes of the request, from the inside out. -/
def peerPayload (name2 : CStr) : List UInt8 := zeros 16 ++ region [(IFLA_IFNAME, cbytes name2)]

def dataPayload (name2 : CStr) : List UInt8 := region [(VETH_INFO_PEER, peerPayload name2)]

def infoPayload (name2 : CStr) : List UInt8 :=
  region [(IFLA_INFO_KIND, ascii "veth"), (IFLA_INFO_DATA, dataPayload name2)]

theorem createAttrs_region (name1 name2 : CStr) : createAttrs name1 name2 =
    region [(IFLA_IFNAME, cbytes name1), (IFLA_LINKINFO, infoPayload name2)] := by
  simp [createAttrs, infoPayload, dataPayload, peerPayload]

theorem length_infoPayload (name2 : CStr) :
    (infoPayload name2).length = 12 + (dataPayload name2).length ∧
    (dataPayload name2).length = 4 + (peerPayload name2).length ∧
    (peerPayload name2).length = 20 + align4 (name2.1.length + 1) := by
  have hveth : (ascii "veth").length = 4 := rfl
  simp only [infoPayload, dataPayload, peerPayload, region_cons, region_nil, List.append_nil,
    List.length_append, length_rtaBytes, length_zeros, length_cbytes, hveth, align4]
  omega

/-- The nested regions are read back level by level. -/
theorem decodeVeth_region (name1 name2 : CStr) (hlen : name2.1.length ≤ 1000) :
    decodeVeth [(IFLA_IFNAME, cbytes name1), (IFLA_LINKINFO, infoPayload name2)] =
      some ⟨cbytes name1, ascii "veth", zeros 16, cbytes name2⟩ := by
  obtain ⟨hinfo, hdata, hpeer⟩ := length_infoPayload name2
  have hname := length_cbytes name2
  have hbound : align4 (name2.1.length + 1) ≤ 1004 := by
    unfold align4
    omega
  have htile₁ : tile 0 (infoPayload name2) =
      some [(IFLA_INFO_KIND, ascii "veth"), (IFLA_INFO_DATA, dataPayload name2)] := by
    refine tile_region (by decide) fun a ha => ?_
    simp only [List.mem_cons, List.not_mem_nil, or_false] at ha
    rcases ha with rfl | rfl
    · exact ⟨by decide, by decide⟩
    · exact ⟨(by decide : IFLA_INFO_DATA < 65536), (by omega : (dataPayload name2).length < 65500)⟩
  have htile₂ : tile 0 (dataPayload name2) = some [(VETH_INFO_PEER, peerPayload name2)] := by
    refine tile_region (by decide) fun a ha => ?_
    obtain rfl := List.mem_singleton.mp ha
    exact ⟨(by decide : VETH_INFO_PEER < 65536), (by omega : (peerPayload name2).length < 65500)⟩
  have hdrop : (peerPayload name2).drop 16 = region [(IFLA_IFNAME, cbytes name2)] := by
    conv => lhs; arg 1; rw [← length_zeros 16]
    exact List.drop_left
  have htake : (peerPayload name2).take 16 = zeros 16 := by
    conv => lhs; arg 1; rw [← length_zeros 16]
    exact List.take_left
  have htile₃ : tile 0 ((peerPayload name2).drop 16) = some [(IFLA_IFNAME, cbytes name2)] := by
    rw [hdrop]
    refine tile_region (by decide) fun a ha => ?_
    obtain rfl := List.mem_singleton.mp ha
    exact ⟨(by decide : IFLA_IFNAME < 65536), (by omega : (cbytes name2).length < 65500)⟩
  have hlong : ¬ (peerPayload name2).length < 16 := by omega
  simp [decodeVeth, both, only, htile₁, htile₂, htile₃, htake, hlong]

/-- For all names that an interface can have, the request of `nl_create_veth` is
read back, to its last byte and on every level, as what it was built from. -/
theorem veth_request_round_trip (name1 name2 : CStr)
    (h1 : 1 ≤ name1.1.length ∧ name1.1.length ≤ 15)
    (h2 : 1 ≤ name2.1.length ∧ name2.1.length ≤ 15) :
    ∃ msg attrs, createVethMsg name1 name2 = some msg ∧ msg.hdr.len = msg.bytes.length ∧
      decode (msg.bytes.take msg.hdr.len) = some ⟨⟨msg.hdr.len, RTM_NEWLINK,
        NLM_F_REQUEST ||| NLM_F_CREATE ||| NLM_F_EXCL ||| NLM_F_ACK, 1⟩,
        .ifinfo AF_UNSPEC 0 0 0, attrs⟩ ∧
      decodeVeth attrs = some ⟨cbytes name1, ascii "veth", zeros 16, cbytes name2⟩ := by
  have hfit : CreateFits name1 name2 := by
    unfold CreateFits align4
    omega
  obtain ⟨hinfo, hdata, hpeer⟩ := length_infoPayload name2
  have hregion := createAttrs_region name1 name2
  have hlen : (createAttrs name1 name2).length ≤ 256 := by
    rw [hregion]
    simp only [region_cons, region_nil, List.append_nil, List.length_append, length_rtaBytes,
      length_cbytes, hinfo, hdata, hpeer, align4]
    omega
  obtain ⟨msg, hmsg, hsize, hbytes, hdecode⟩ :
      Faithful (createVethMsg name1 name2) 288 RTM_NEWLINK
        (NLM_F_REQUEST ||| NLM_F_CREATE ||| NLM_F_EXCL ||| NLM_F_ACK) 1 (.ifinfo AF_UNSPEC 0 0 0)
        [(IFLA_IFNAME, cbytes name1), (IFLA_LINKINFO, infoPayload name2)] := by
    refine faithful_of (createVethMsg_eq hfit) hregion (fun a ha => ?_) rfl ?_ (by decide) (.inl rfl)
      ?_ ?_
    · have hname := length_cbytes name1
      unfold align4 at hpeer
      simp only [List.mem_cons, List.not_mem_nil, or_false] at ha
      rcases ha with rfl | rfl
      · exact ⟨(by decide : IFLA_IFNAME < 65536), (by omega : (cbytes name1).length < 65500)⟩
      · exact ⟨(by decide : IFLA_LINKINFO < 65536), (by omega : (infoPayload name2).length < 65500)⟩
    · show 32 + (createAttrs name1 name2).length ≤ 288
      omega
    · exact ⟨by decide, by decide, by decide, by decide⟩
    · exact ⟨(by decide : RTM_NEWLINK < 65536), (by decide : _ ||| NLM_F_ACK < 65536),
        (by decide : 1 < 4294967296)⟩
  refine ⟨msg, _, hmsg, hbytes, ?_, decodeVeth_region name1 name2 (by omega)⟩
  rw [hbytes, List.take_length, ← hbytes]
  exact hdecode

/-- The pair `veth-tmp-aaaaaa` and `web`. -/
theorem veth_request_round_trip_web :
    ∃ msg attrs, createVethMsg ⟨ascii "veth-tmp-aaaaaa", by decide⟩ ⟨ascii "web", by decide⟩ = some msg ∧
      msg.hdr.len = msg.bytes.length ∧
      decode (msg.bytes.take msg.hdr.len) = some ⟨⟨msg.hdr.len, RTM_NEWLINK,
        NLM_F_REQUEST ||| NLM_F_CREATE ||| NLM_F_EXCL ||| NLM_F_ACK, 1⟩,
        .ifinfo AF_UNSPEC 0 0 0, attrs⟩ ∧
      decodeVeth attrs = some ⟨ascii "veth-tmp-aaaaaa" ++ [0], ascii "veth", zeros 16, ascii "web" ++ [0]⟩ :=
  veth_request_round_trip ⟨ascii "veth-tmp-aaaaaa", by decide⟩ ⟨ascii "web", by decide⟩ (by decide)
    (by decide)

end Barco
