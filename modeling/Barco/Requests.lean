import Barco.Netlink

/-!
# What the request builders produce

The buffer that `nl_create_veth` and `nl_rename_link` fill at computed offsets
holds a well-formed list of attributes, and the names are read back from it as
they were given. The builders write outside their structure exactly when the
names are too long for it.

1. `createVethMsg_eq`, `createVethMsg_eq_none`: the request, or an overrun.
2. `createdNames_createVethMsg`: the kernel reads the two names.
3. `renameLinkMsg_eq`, `renameLinkMsg_eq_none`: the request for a rename, or an
   overrun.
-/

namespace Barco

open Rtattr

/-! ## Writes into the attribute area -/

/-- A write into a structure whose attribute area starts at `base`. -/
def areaPoke (base off : Nat) (bs buf : List UInt8) : Option (List UInt8) :=
  if off < base then none else poke (off - base) bs buf

/-- A write on the `i`-th segment of a buffer replaces the segment. The lengths
of the segments say where it starts, and stay as they were. -/
theorem bind_areaPoke {α : Type} (base : Nat) {off : Nat} {new : List UInt8}
    {segs : List (List UInt8)} {lens : List Nat} {k : List UInt8 → Option α} {result : Option α}
    (hsegs : segs.map List.length = lens) (i : Nat) (hoff : off = base + (lens.take i).sum)
    (hlen : lens[i]? = some new.length)
    (hk : (segs.set i new).map List.length = lens → k (segs.set i new).flatten = result) :
    (areaPoke base off new segs.flatten >>= k) = result := by
  subst hsegs
  rw [List.getElem?_map] at hlen
  obtain ⟨seg, hseg, hl⟩ := Option.map_eq_some_iff.mp hlen
  obtain ⟨hi, rfl⟩ := List.getElem?_eq_some_iff.mp hseg
  have hsplit : segs.flatten =
      (segs.take i).flatten ++ (segs[i] ++ (segs.drop (i + 1)).flatten) := by
    rw [← List.flatten_cons, ← List.flatten_append, ← List.drop_eq_getElem_cons hi,
      List.take_append_drop]
  have hset : (segs.set i new).flatten =
      (segs.take i).flatten ++ (new ++ (segs.drop (i + 1)).flatten) := by
    rw [← List.flatten_cons, ← List.flatten_append, List.set_eq_take_append_cons_drop, if_pos hi]
  have hpre : (segs.take i).flatten.length = ((segs.map List.length).take i).sum := by
    rw [List.length_flatten, List.map_take]
  have hpoke : areaPoke base off new segs.flatten = some (segs.set i new).flatten := by
    rw [areaPoke, if_neg (by omega), hsplit, hset]
    exact poke_append (by omega) hl
  rw [hpoke]
  refine hk ?_
  have hself := List.set_getElem_self (by simpa using hi : i < (segs.map List.length).length)
  rwa [List.getElem_map, hl, ← List.map_set] at hself

/-- The same behind `struct ifinfomsg`. -/
theorem bind_attrPoke {α : Type} {off : Nat} {new : List UInt8} {segs : List (List UInt8)}
    {lens : List Nat} {k : List UInt8 → Option α} {result : Option α}
    (hsegs : segs.map List.length = lens) (i : Nat) (hoff : off = 32 + (lens.take i).sum)
    (hlen : lens[i]? = some new.length)
    (hk : (segs.set i new).map List.length = lens → k (segs.set i new).flatten = result) :
    (attrPoke off new segs.flatten >>= k) = result :=
  bind_areaPoke 32 hsegs i hoff hlen hk

theorem length_cbytes (s : CStr) : (cbytes s).length = s.1.length + 1 := by
  simp [cbytes]

/-- A write keeps the length of the area. -/
theorem length_of_attrPoke {off : Nat} {bs buf buf' : List UInt8}
    (h : attrPoke off bs buf = some buf') : buf'.length = buf.length := by
  unfold attrPoke at h
  split at h
  · exact nomatch h
  · exact length_of_poke h

/-- A write behind the end of the area fails. -/
theorem attrPoke_eq_none {off : Nat} {bs buf : List UInt8} (h : 32 + buf.length < off + bs.length) :
    attrPoke off bs buf = none := by
  unfold attrPoke
  split
  · rfl
  · rw [poke, if_neg (by omega)]

/-! ## The rename request -/

/-- `k` zero bytes. -/
def zeros (k : Nat) : List UInt8 := List.replicate k 0

@[simp] theorem length_zeros (k : Nat) : (zeros k).length = k := List.length_replicate

/-- The bytes of a finished attribute, as the segments header, payload, padding. -/
theorem rtaBytes_eq {type len n : Nat} {payload : List UInt8} (hn : payload.length = n)
    (hlen : len = n + 4) :
    le16 len ++ le16 type ++ (payload ++ zeros (align4 n - n)) = rtaBytes type payload := by
  subst hn hlen
  simp [rtaBytes, rtaLength, zeros]

/-- An attribute whose payload needs no padding. -/
theorem rtaBytes_aligned {type len : Nat} {payload : List UInt8} (hlen : len = payload.length + 4)
    (h4 : payload.length % 4 = 0) :
    rtaBytes type payload = le16 len ++ le16 type ++ payload := by
  subst hlen
  have hpad : align4 payload.length - payload.length = 0 := by
    unfold align4
    omega
  simp [rtaBytes, rtaLength, hpad]

/-- The request of `nl_rename_link`, when the name fits its structure. -/
theorem renameLinkMsg_eq {idx : Nat} {newname : CStr} (hfit : newname.1.length ≤ 59) :
    renameLinkMsg idx newname = some {
      hdr := ⟨32 + align4 (newname.1.length + 5), RTM_NEWLINK, NLM_F_REQUEST ||| NLM_F_ACK, 7⟩
      body := .ifinfo AF_UNSPEC idx 0 0
      attrs := rtaBytes IFLA_IFNAME (cbytes newname) } := by
  have hlen := length_cbytes newname
  set n := newname.1.length with hn
  let pad := align4 (n + 1) - (n + 1)
  let rest := 60 - align4 (n + 1)
  have hbuf : List.replicate 64 0 = [zeros 4, zeros (n + 1), zeros pad, zeros rest].flatten := by
    simp only [List.flatten_cons, List.flatten_nil, zeros, List.append_nil,
      List.replicate_append_replicate, pad, rest]
    congr 1
    unfold align4
    omega
  unfold renameLinkMsg
  rw [hbuf, ← hn]
  have hsegs : [zeros 4, zeros (n + 1), zeros pad, zeros rest].map List.length =
      [4, n + 1, pad, rest] := by simp
  refine bind_attrPoke hsegs 0 rfl rfl fun hsegs => ?_
  refine bind_attrPoke hsegs 1 rfl (by simp [hlen]) fun _ => ?_
  have hattrs : [le16 (rtaLength (n + 1)) ++ le16 IFLA_IFNAME, cbytes newname, zeros pad,
        zeros rest].flatten.take (32 + align4 (n + 5) - 32) =
      rtaBytes IFLA_IFNAME (cbytes newname) := by
    rw [← rtaBytes_eq hlen rfl]
    have hsplit : [le16 (rtaLength (n + 1)) ++ le16 IFLA_IFNAME, cbytes newname, zeros pad,
        zeros rest].flatten = (le16 (n + 1 + 4) ++ le16 IFLA_IFNAME ++
          (cbytes newname ++ zeros pad)) ++ zeros rest := by
      simp [rtaLength]
    rw [hsplit]
    refine List.take_left' ?_
    simp only [List.length_append, length_le16, hlen, length_zeros, pad, align4]
    omega
  rw [← hattrs]
  rfl

/-- A name too long for the structure is written past its end. -/
theorem renameLinkMsg_eq_none {idx : Nat} {newname : CStr} (hfit : 59 < newname.1.length) :
    renameLinkMsg idx newname = none := by
  unfold renameLinkMsg
  refine Option.bind_eq_none_iff.mpr fun buf hbuf => ?_
  have hlen : buf.length = 64 := (length_of_attrPoke hbuf).trans List.length_replicate
  refine Option.bind_eq_none_iff.mpr fun buf' hbuf' => ?_
  rw [attrPoke_eq_none] at hbuf'
  · exact nomatch hbuf'
  · rw [hlen, length_cbytes]
    show 32 + 64 < 36 + _
    omega

theorem length_of_renameLinkMsg {idx : Nat} {newname : CStr} {msg : NlMsg}
    (h : renameLinkMsg idx newname = some msg) : newname.1.length ≤ 59 := by
  by_contra hno
  rw [renameLinkMsg_eq_none (by omega)] at h
  exact nomatch h

/-! ## The creation request -/

/-- The names fit the attribute area of `nl_create_veth`. -/
def CreateFits (name1 name2 : CStr) : Prop := align4 (name1.1.length + 5) + name2.1.length ≤ 215

instance (name1 name2 : CStr) : Decidable (CreateFits name1 name2) :=
  inferInstanceAs (Decidable (_ ≤ _))

/-- The attributes of the request of `nl_create_veth`. -/
def createAttrs (name1 name2 : CStr) : List UInt8 :=
  rtaBytes IFLA_IFNAME (cbytes name1) ++
    rtaBytes IFLA_LINKINFO (rtaBytes IFLA_INFO_KIND (ascii "veth") ++
      rtaBytes IFLA_INFO_DATA (rtaBytes VETH_INFO_PEER
        (zeros 16 ++ rtaBytes IFLA_IFNAME (cbytes name2))))

/-- `createAttrs` as the segments the source writes. -/
theorem createAttrs_eq (name1 name2 : CStr) :
    let n := name1.1.length
    let m := name2.1.length
    let peerLen := rtaLength 16 + align4 (rtaLength (m + 1))
    let dataLen := rtaLength 0 + align4 peerLen
    let liLen := rtaLength 0 + rtaLength 4 + align4 dataLen
    createAttrs name1 name2 =
      [le16 (rtaLength (n + 1)) ++ le16 IFLA_IFNAME, cbytes name1, zeros (align4 (n + 1) - (n + 1)),
        le16 liLen ++ le16 IFLA_LINKINFO, le16 (rtaLength 4) ++ le16 IFLA_INFO_KIND, ascii "veth",
        le16 dataLen ++ le16 IFLA_INFO_DATA, le16 peerLen ++ le16 VETH_INFO_PEER, zeros 16,
        le16 (rtaLength (m + 1)) ++ le16 IFLA_IFNAME, cbytes name2,
        zeros (align4 (m + 1) - (m + 1))].flatten := by
  intro n m peerLen dataLen liLen
  have hlen1 : (cbytes name1).length = n + 1 := length_cbytes name1
  have hlen2 : (cbytes name2).length = m + 1 := length_cbytes name2
  have hname2 : (rtaBytes IFLA_IFNAME (cbytes name2)).length = 4 + align4 (m + 1) := by
    rw [length_rtaBytes, hlen2]
  have hkind : (rtaBytes IFLA_INFO_KIND (ascii "veth")).length = 8 := rfl
  have hpeer : rtaBytes VETH_INFO_PEER (zeros 16 ++ rtaBytes IFLA_IFNAME (cbytes name2)) =
      le16 peerLen ++ le16 VETH_INFO_PEER ++ (zeros 16 ++ rtaBytes IFLA_IFNAME (cbytes name2)) := by
    refine rtaBytes_aligned ?_ ?_ <;>
      simp only [List.length_append, length_zeros, hname2, peerLen, rtaLength, align4] <;> omega
  have hpeerLen : (rtaBytes VETH_INFO_PEER (zeros 16 ++ rtaBytes IFLA_IFNAME (cbytes name2))).length
      = align4 peerLen := by
    rw [hpeer]
    simp only [List.length_append, length_le16, length_zeros, hname2, peerLen, rtaLength, align4]
    omega
  have hdata : rtaBytes IFLA_INFO_DATA
        (rtaBytes VETH_INFO_PEER (zeros 16 ++ rtaBytes IFLA_IFNAME (cbytes name2))) =
      le16 dataLen ++ le16 IFLA_INFO_DATA ++
        rtaBytes VETH_INFO_PEER (zeros 16 ++ rtaBytes IFLA_IFNAME (cbytes name2)) := by
    refine rtaBytes_aligned ?_ ?_ <;> rw [hpeerLen] <;> simp only [dataLen, rtaLength, align4] <;>
      omega
  have hinfo : rtaBytes IFLA_LINKINFO (rtaBytes IFLA_INFO_KIND (ascii "veth") ++
        rtaBytes IFLA_INFO_DATA
          (rtaBytes VETH_INFO_PEER (zeros 16 ++ rtaBytes IFLA_IFNAME (cbytes name2)))) =
      le16 liLen ++ le16 IFLA_LINKINFO ++ (rtaBytes IFLA_INFO_KIND (ascii "veth") ++
        rtaBytes IFLA_INFO_DATA
          (rtaBytes VETH_INFO_PEER (zeros 16 ++ rtaBytes IFLA_IFNAME (cbytes name2)))) := by
    refine rtaBytes_aligned ?_ ?_ <;>
      simp only [hdata, hkind, List.length_append, length_le16, hpeerLen, liLen, dataLen, rtaLength,
        align4] <;> omega
  have hkindEq : rtaBytes IFLA_INFO_KIND (ascii "veth") =
      le16 (rtaLength 4) ++ le16 IFLA_INFO_KIND ++ ascii "veth" := rfl
  rw [createAttrs, hinfo, hdata, hpeer, hkindEq, ← rtaBytes_eq hlen1 rfl, ← rtaBytes_eq hlen2 rfl]
  simp [rtaLength]

/-- The request of `nl_create_veth`, when the names fit its structure. -/
theorem createVethMsg_eq {name1 name2 : CStr} (hfit : CreateFits name1 name2) :
    createVethMsg name1 name2 = some {
      hdr := ⟨32 + (createAttrs name1 name2).length, RTM_NEWLINK,
        NLM_F_REQUEST ||| NLM_F_CREATE ||| NLM_F_EXCL ||| NLM_F_ACK, 1⟩
      body := .ifinfo AF_UNSPEC 0 0 0
      attrs := createAttrs name1 name2 } := by
  have hlen1 := length_cbytes name1
  have hlen2 := length_cbytes name2
  have hattrs := createAttrs_eq name1 name2
  unfold CreateFits at hfit
  set n := name1.1.length with hn
  set m := name2.1.length with hm
  let pad1 := align4 (n + 1) - (n + 1)
  let pad2 := align4 (m + 1) - (m + 1)
  let rest := 212 - align4 (n + 1) - align4 (m + 1)
  have hbuf : List.replicate 256 0 = [zeros 4, zeros (n + 1), zeros pad1, zeros 4, zeros 4, zeros 4,
      zeros 4, zeros 4, zeros 16, zeros 4, zeros (m + 1), zeros pad2, zeros rest].flatten := by
    simp only [List.flatten_cons, List.flatten_nil, zeros, List.append_nil,
      List.replicate_append_replicate, pad1, pad2, rest]
    congr 1
    unfold align4 at hfit ⊢
    omega
  unfold createVethMsg
  rw [hbuf, ← hn, ← hm]
  have hsegs : [zeros 4, zeros (n + 1), zeros pad1, zeros 4, zeros 4, zeros 4, zeros 4, zeros 4,
      zeros 16, zeros 4, zeros (m + 1), zeros pad2, zeros rest].map List.length =
      [4, n + 1, pad1, 4, 4, 4, 4, 4, 16, 4, m + 1, pad2, rest] := by simp
  have hoff : ∀ j, align4 (32 + align4 (n + 1 + 4)) + j = 32 + (4 + (n + 1 + (pad1 + j))) := by
    intro j
    simp only [pad1, align4]
    omega
  refine bind_attrPoke hsegs 0 rfl rfl fun hsegs => ?_
  refine bind_attrPoke hsegs 1 rfl (by simp [hlen1]) fun hsegs => ?_
  have h12 : align4 12 = 12 := rfl
  -- the kind, the empty peer structure and the second name
  refine bind_attrPoke hsegs 4 (by simp [nlmsgLength, rtaLength, hoff]) rfl fun hsegs => ?_
  refine bind_attrPoke hsegs 5 (by simp [nlmsgLength, rtaLength, Nat.add_assoc, hoff]) rfl
    fun hsegs => ?_
  refine bind_attrPoke hsegs 8 (by simp [nlmsgLength, rtaLength, h12, Nat.add_assoc, hoff]) rfl
    fun hsegs => ?_
  refine bind_attrPoke hsegs 9 (by simp [nlmsgLength, rtaLength, h12, Nat.add_assoc, hoff]) rfl
    fun hsegs => ?_
  refine bind_attrPoke hsegs 10 (by simp [nlmsgLength, rtaLength, h12, Nat.add_assoc, hoff])
    (by simp [hlen2]) fun hsegs => ?_
  -- the headers of the nested attributes, from the inside out
  refine bind_attrPoke hsegs 7 (by simp [nlmsgLength, rtaLength, h12, Nat.add_assoc, hoff]) rfl
    fun hsegs => ?_
  refine bind_attrPoke hsegs 6 (by simp [nlmsgLength, rtaLength, h12, Nat.add_assoc, hoff]) rfl
    fun hsegs => ?_
  refine bind_attrPoke hsegs 3 (by simpa [nlmsgLength, rtaLength] using hoff 0) rfl fun _ => ?_
  have hlength : nlmsgLength 16 + align4 (rtaLength (n + 1)) +
      align4 (rtaLength 0 + rtaLength 4 + align4 (rtaLength 0 + align4 (rtaLength 16 +
        align4 (rtaLength (m + 1))))) = 32 + (createAttrs name1 name2).length := by
    have hveth : (ascii "veth").length = 4 := rfl
    rw [hattrs]
    simp only [List.flatten_cons, List.flatten_nil, List.length_append, length_le16, length_zeros,
      hlen1, hlen2, hveth, List.length_nil, nlmsgLength, rtaLength, align4]
    omega
  have htake : ([le16 (rtaLength (n + 1)) ++ le16 IFLA_IFNAME, cbytes name1, zeros pad1,
      le16 (rtaLength 0 + rtaLength 4 + align4 (rtaLength 0 + align4 (rtaLength 16 +
        align4 (rtaLength (m + 1))))) ++ le16 IFLA_LINKINFO,
      le16 (rtaLength 4) ++ le16 IFLA_INFO_KIND, ascii "veth",
      le16 (rtaLength 0 + align4 (rtaLength 16 + align4 (rtaLength (m + 1)))) ++
        le16 IFLA_INFO_DATA,
      le16 (rtaLength 16 + align4 (rtaLength (m + 1))) ++ le16 VETH_INFO_PEER, zeros 16,
      le16 (rtaLength (m + 1)) ++ le16 IFLA_IFNAME, cbytes name2, zeros pad2,
      zeros rest].flatten).take (createAttrs name1 name2).length = createAttrs name1 name2 := by
    conv => lhs; arg 2; rw [show ∀ a b c d e f g h i j k l r : List UInt8,
      [a, b, c, d, e, f, g, h, i, j, k, l, r].flatten =
        [a, b, c, d, e, f, g, h, i, j, k, l].flatten ++ r by simp]
    rw [hattrs]
    exact List.take_left
  have hbound : 32 + (createAttrs name1 name2).length - 32 = (createAttrs name1 name2).length := by
    omega
  rw [← hbound, ← hlength] at htake
  rw [← hlength, ← htake]
  rfl

/-- Names too long for the structure are written past its end. -/
theorem createVethMsg_eq_none {name1 name2 : CStr} (hfit : ¬ CreateFits name1 name2) :
    createVethMsg name1 name2 = none := by
  unfold createVethMsg
  refine Option.bind_eq_none_iff.mpr fun buf₁ h₁ => Option.bind_eq_none_iff.mpr fun buf₂ h₂ => ?_
  refine Option.bind_eq_none_iff.mpr fun buf₃ h₃ => Option.bind_eq_none_iff.mpr fun buf₄ h₄ => ?_
  refine Option.bind_eq_none_iff.mpr fun buf₅ h₅ => Option.bind_eq_none_iff.mpr fun buf₆ h₆ => ?_
  have hlen : buf₆.length = 256 := by
    rw [length_of_attrPoke h₆, length_of_attrPoke h₅, length_of_attrPoke h₄, length_of_attrPoke h₃,
      length_of_attrPoke h₂, length_of_attrPoke h₁, List.length_replicate]
  refine Option.bind_eq_none_iff.mpr fun buf₇ h₇ => ?_
  rw [attrPoke_eq_none] at h₇
  · exact nomatch h₇
  · rw [hlen, length_cbytes]
    unfold CreateFits at hfit
    simp only [nlmsgLength, rtaLength, align4] at hfit ⊢
    omega

theorem createFits_of_some {name1 name2 : CStr} {msg : NlMsg}
    (h : createVethMsg name1 name2 = some msg) : CreateFits name1 name2 := by
  by_contra hno
  rw [createVethMsg_eq_none hno] at h
  exact nomatch h

/-! ## What the kernel reads -/

/-- The string at the front of an attribute. -/
def attrName (payload : List UInt8) : CStr := .ofBuf payload

/-- The two names in a request that creates a `veth` pair. -/
def createdNames (msg : NlMsg) : Option (CStr × CStr) := do
  let name1 ← find IFLA_IFNAME msg.attrs
  let info ← find IFLA_LINKINFO msg.attrs
  let kind ← find IFLA_INFO_KIND info
  if kind ≠ ascii "veth" then none
  let data ← find IFLA_INFO_DATA info
  let peer ← find VETH_INFO_PEER data
  let name2 ← find IFLA_IFNAME (peer.drop 16)
  return (attrName name1, attrName name2)

/-- The new name in a request that changes an interface. -/
def newName (msg : NlMsg) : Option CStr := (find IFLA_IFNAME msg.attrs).map attrName

theorem attrName_cbytes (s : CStr) : attrName (cbytes s) = s := by
  refine Subtype.ext ?_
  have hall : ∀ b ∈ s.1, (decide (b ≠ 0)) = true := fun b hb =>
    decide_eq_true fun h => s.2 (h ▸ hb)
  simp only [attrName, CStr.ofBuf, cbytes]
  rw [List.takeWhile_append_of_pos hall]
  simp

/-- The kernel reads the two names as they were given. -/
theorem createdNames_createVethMsg {name1 name2 : CStr} {msg : NlMsg}
    (h : createVethMsg name1 name2 = some msg) : createdNames msg = some (name1, name2) := by
  have hfit := createFits_of_some h
  rw [createVethMsg_eq hfit] at h
  obtain rfl := Option.some.inj h
  have hlen1 := length_cbytes name1
  have hlen2 := length_cbytes name2
  unfold CreateFits align4 at hfit
  have hpeer : (rtaBytes IFLA_IFNAME (cbytes name2)).length < 1000 := by
    rw [length_rtaBytes, hlen2]
    unfold align4
    omega
  have hdata : (rtaBytes VETH_INFO_PEER (zeros 16 ++ rtaBytes IFLA_IFNAME (cbytes name2))).length <
      2000 := by
    rw [length_rtaBytes, List.length_append, length_zeros]
    unfold align4
    omega
  have hkind : (ascii "veth").length < 65500 := by decide
  have hinfo : (rtaBytes IFLA_INFO_KIND (ascii "veth") ++ rtaBytes IFLA_INFO_DATA
      (rtaBytes VETH_INFO_PEER (zeros 16 ++ rtaBytes IFLA_IFNAME (cbytes name2)))).length <
      65500 := by
    rw [List.length_append, length_rtaBytes, length_rtaBytes]
    have : (ascii "veth").length = 4 := rfl
    unfold align4
    omega
  have houter := find_pair IFLA_IFNAME IFLA_LINKINFO (by decide) (by decide)
    (by decide) (by omega : (cbytes name1).length < 65500) hinfo
  have hinner := find_pair IFLA_INFO_KIND IFLA_INFO_DATA (by decide)
    (by decide) (by decide) hkind (by omega : (rtaBytes VETH_INFO_PEER
      (zeros 16 ++ rtaBytes IFLA_IFNAME (cbytes name2))).length < 65500)
  have hveth := find_single VETH_INFO_PEER (by decide)
    (by rw [List.length_append, length_zeros]; omega :
      (zeros 16 ++ rtaBytes IFLA_IFNAME (cbytes name2)).length < 65500)
  have hname := find_single IFLA_IFNAME (by decide)
    (by omega : (cbytes name2).length < 65500)
  have hdrop : (zeros 16 ++ rtaBytes IFLA_IFNAME (cbytes name2)).drop 16 =
      rtaBytes IFLA_IFNAME (cbytes name2) := by
    conv => lhs; arg 1; rw [← length_zeros 16]
    exact List.drop_left
  simp [createdNames, createAttrs, houter.1, houter.2, hinner.1, hinner.2, hveth, hdrop, hname,
    attrName_cbytes]

end Barco
