import Barco.Cidr
import Barco.Main

/-!
# The firewall's subnet

`main` formats the subnet of the firewall rules from the container's address,
once for `setup_nat` and once for `cleanup_nat`, into 32 bytes each, and a shell
runs the commands. `nat_subnet_faithful_iff`: for which addresses that
`parse_cidr` accepts the text is one word for the same network.
-/

namespace Barco

/-! ## The commands -/

/-- The three commands of `setup_nat`, before they are cut to 511 bytes. -/
def setupNatCmds (subnet hostIf : CStr) : List (List UInt8) :=
  [ascii "iptables -t nat -C POSTROUTING -s " ++ subnet.1 ++ ascii " -o " ++ hostIf.1 ++
      ascii " -j MASQUERADE 2>/dev/null || iptables -t nat -A POSTROUTING -s " ++ subnet.1 ++
      ascii " -o " ++ hostIf.1 ++ ascii " -j MASQUERADE",
    ascii "iptables -C FORWARD -s " ++ subnet.1 ++
      ascii " -j ACCEPT 2>/dev/null || iptables -A FORWARD -s " ++ subnet.1 ++ ascii " -j ACCEPT",
    ascii "iptables -C FORWARD -d " ++ subnet.1 ++
      ascii " -m state --state RELATED,ESTABLISHED -j ACCEPT 2>/dev/null || iptables -A FORWARD -d " ++
      subnet.1 ++ ascii " -m state --state RELATED,ESTABLISHED -j ACCEPT"]

/-- The three commands of `cleanup_nat`. -/
def cleanupNatCmds (subnet hostIf : CStr) : List (List UInt8) :=
  [ascii "iptables -t nat -D POSTROUTING -s " ++ subnet.1 ++ ascii " -o " ++ hostIf.1 ++
      ascii " -j MASQUERADE 2>/dev/null",
    ascii "iptables -D FORWARD -s " ++ subnet.1 ++ ascii " -j ACCEPT 2>/dev/null",
    ascii "iptables -D FORWARD -d " ++ subnet.1 ++
      ascii " -m state --state RELATED,ESTABLISHED -j ACCEPT 2>/dev/null"]

/-- What the formats of the commands add to the subnet and the interface. -/
def natLiterals : List String :=
  ["iptables -t nat -C POSTROUTING -s ",
    " -o ",
    " -j MASQUERADE 2>/dev/null || iptables -t nat -A POSTROUTING -s ",
    " -j MASQUERADE",
    "iptables -C FORWARD -s ",
    " -j ACCEPT 2>/dev/null || iptables -A FORWARD -s ",
    " -j ACCEPT",
    "iptables -C FORWARD -d ",
    " -m state --state RELATED,ESTABLISHED -j ACCEPT 2>/dev/null || iptables -A FORWARD -d ",
    " -m state --state RELATED,ESTABLISHED -j ACCEPT",
    "iptables -t nat -D POSTROUTING -s ",
    " -j MASQUERADE 2>/dev/null",
    "iptables -D FORWARD -s ",
    " -j ACCEPT 2>/dev/null",
    "iptables -D FORWARD -d ",
    " -m state --state RELATED,ESTABLISHED -j ACCEPT 2>/dev/null"]

/-- A subnet of 31 bytes and an interface name of 63 leave every command whole. -/
theorem natCmds_fit {subnet hostIf : CStr} (hs : subnet.1.length ≤ 31) (hi : hostIf.1.length ≤ 63)
    {cmd : List UInt8} (hcmd : cmd ∈ setupNatCmds subnet hostIf ++ cleanupNatCmds subnet hostIf) :
    cmd.length ≤ 511 := by
  have hlit : ∀ s ∈ natLiterals, (ascii s).length ≤ 90 := by decide
  have hopt : (ascii " -o ").length ≤ 4 := by decide
  simp only [natLiterals, List.forall_mem_cons] at hlit
  simp only [setupNatCmds, cleanupNatCmds, List.cons_append, List.nil_append, List.mem_cons,
    List.not_mem_nil, or_false] at hcmd
  rcases hcmd with rfl | rfl | rfl | rfl | rfl | rfl <;>
    · simp only [List.length_append]
      omega

/-! ## The subnet -/

/-- A byte that means itself to a shell. -/
def ShellPlain (b : UInt8) : Prop := IsDigit b ∨ b = 46 ∨ b = 47

instance (b : UInt8) : Decidable (ShellPlain b) := inferInstanceAs (Decidable (_ ∨ _))

/-- One word of a shell command. -/
def ShellWord (s : CStr) : Prop := s.1 ≠ [] ∧ ∀ b ∈ s.1, ShellPlain b

/-- `A.B.C.D/p` -/
def SubnetForm (s : CStr) : Prop :=
  ∃ (quad : CStr) (digits : List UInt8), s.1 = quad.1 ++ 47 :: digits ∧
    (inetPton quad).isSome = true ∧ digits ≠ [] ∧ ∀ b ∈ digits, IsDigit b

/-- The two texts are the same word of the right form, with the address and the
prefix length of the container, and no command is cut. -/
structure SubnetFaithful (containerIp : CStr) : Prop where
  same : setupSubnet containerIp = cleanupSubnet containerIp
  word : ShellWord (setupSubnet containerIp)
  form : SubnetForm (setupSubnet containerIp)
  parsed : parseCidr (setupSubnet containerIp) = parseCidr containerIp
  whole : ∀ hostIf : CStr, hostIf.1.length ≤ 63 →
    ∀ cmd ∈ setupNatCmds (setupSubnet containerIp) hostIf ++
      cleanupNatCmds (cleanupSubnet containerIp) hostIf, cmd.length ≤ 511

/-- What of the text behind the `/` at `i` fits into the 31 bytes. -/
def keptPrefix (containerIp : CStr) (i : Nat) : List UInt8 :=
  (containerIp.1.drop (i + 1)).take (30 - i)

/-- What is kept of a prefix length is a number, and the same one to `parse_cidr`. -/
def PrefixKept (containerIp : CStr) : Prop :=
  ∀ i, containerIp.chr 47 = some i →
    keptPrefix containerIp i ≠ [] ∧ (∀ b ∈ keptPrefix containerIp i, IsDigit b) ∧
    toU8 (atoi (keptPrefix containerIp i)) = toU8 (atoi (containerIp.1.drop (i + 1)))

theorem SubnetForm.word {s : CStr} (h : SubnetForm s) : ShellWord s := by
  obtain ⟨quad, digits, hs, hquad, hne, hdigits⟩ := h
  obtain ⟨ip, hip⟩ := Option.isSome_iff_exists.mp hquad
  rw [ShellWord, hs]
  refine ⟨by simp, fun b hb => ?_⟩
  rcases List.mem_append.mp hb with hb | hb
  · exact ((length_of_inetPton hip).2.1 b hb).elim (fun h => .inr (.inl h)) .inl
  · rcases List.mem_cons.mp hb with rfl | hb
    · exact .inr (.inr rfl)
    · exact .inl (hdigits b hb)

theorem setupSubnet_slash {containerIp : CStr} {i : Nat} (h : containerIp.chr 47 = some i) :
    setupSubnet containerIp = containerIp.take 31 ∧
      cleanupSubnet containerIp = containerIp.take 31 := by
  have hjoin : containerIp.take i ++ containerIp.drop i = containerIp :=
    Subtype.ext (List.take_append_drop i containerIp.1)
  rw [setupSubnet, cleanupSubnet, h]
  exact ⟨congrArg (CStr.take 31) hjoin, rfl⟩

theorem setupSubnet_no_slash {containerIp : CStr} (h : containerIp.chr 47 = none) :
    setupSubnet containerIp = (containerIp ++ slash24).take 31 ∧
      cleanupSubnet containerIp = (containerIp ++ slash24).take 31 := by
  rw [setupSubnet, cleanupSubnet, h]
  exact ⟨rfl, rfl⟩

theorem setupSubnet_eq (containerIp : CStr) : setupSubnet containerIp = cleanupSubnet containerIp := by
  cases h : containerIp.chr 47 with
  | none => rw [(setupSubnet_no_slash h).1, (setupSubnet_no_slash h).2]
  | some i => rw [(setupSubnet_slash h).1, (setupSubnet_slash h).2]

theorem length_setupSubnet_le (containerIp : CStr) : (setupSubnet containerIp).1.length ≤ 31 := by
  cases h : containerIp.chr 47 with
  | none =>
    rw [(setupSubnet_no_slash h).1]
    exact List.length_take_le _ _
  | some i =>
    rw [(setupSubnet_slash h).1]
    exact List.length_take_le _ _

/-- Everything about the text follows from its form and what it parses as. -/
theorem subnetFaithful_of {containerIp : CStr} (hform : SubnetForm (setupSubnet containerIp))
    (hparsed : parseCidr (setupSubnet containerIp) = parseCidr containerIp) :
    SubnetFaithful containerIp where
  same := setupSubnet_eq containerIp
  word := hform.word
  form := hform
  parsed := hparsed
  whole hostIf hi cmd hcmd := by
    rw [← setupSubnet_eq] at hcmd
    exact natCmds_fit (length_setupSubnet_le containerIp) hi hcmd

/-- Without a `/` the text is the address with `/24`. -/
theorem faithful_no_slash {containerIp : CStr} {ip : List UInt8} {plen : Nat}
    (h : containerIp.chr 47 = none) (hcidr : parseCidr containerIp = some (ip, plen)) :
    SubnetFaithful containerIp := by
  obtain ⟨hip, rfl⟩ : inetPton containerIp = some ip ∧ plen = 24 := by
    rcases (parseCidr_no_slash h ip plen).mp hcidr with hip | ⟨quad, digits, hs, -⟩
    · exact hip
    · exact absurd (hs ▸ List.mem_append_right _ List.mem_cons_self) (chr_eq_none.mp h)
  have hlen := (length_of_inetPton hip).1
  have htext : setupSubnet containerIp = containerIp ++ slash24 := by
    rw [(setupSubnet_no_slash h).1]
    refine take_of_length_le ?_
    have : slash24.1.length = 3 := rfl
    rw [CStr.append_val, List.length_append]
    omega
  have hsplit : (containerIp ++ slash24).1 = containerIp.1 ++ 47 :: ascii "24" := rfl
  refine subnetFaithful_of ?_ ?_
  · rw [htext]
    exact ⟨containerIp, ascii "24", hsplit, Option.isSome_iff_exists.mpr ⟨ip, hip⟩,
      by decide, by decide +kernel⟩
  · have hchr := chr_append hsplit (slash_not_mem hip)
    have hshort : (containerIp ++ slash24).1.length < 64 := by
      rw [hsplit, List.length_append]
      have : (47 :: ascii "24").length = 3 := rfl
      omega
    have htake : (containerIp ++ slash24).take containerIp.1.length = containerIp :=
      Subtype.ext (by rw [CStr.take_val, hsplit, List.take_left])
    have hdrop : (containerIp ++ slash24).1.drop (containerIp.1.length + 1) = ascii "24" := by
      rw [hsplit, drop_cut rfl]
    rw [htext, hcidr, parseCidr_slash hchr hshort, htake, hdrop, hip, Option.map_some]
    exact congrArg (fun n => some (ip, n)) (by decide)

/-- With a `/` the text is the front of the address, cut where the buffer ends. -/
theorem subnet_slash {containerIp : CStr} {i : Nat} (h : containerIp.chr 47 = some i) (hi : i ≤ 15) :
    (containerIp.take 31).1 = (containerIp.take i).1 ++ 47 :: keptPrefix containerIp i ∧
    (containerIp.take 31).chr 47 = some i ∧
    (containerIp.take 31).take i = containerIp.take i ∧
    (containerIp.take 31).1.drop (i + 1) = keptPrefix containerIp i := by
  obtain ⟨hs, hno, hlen⟩ := chr_eq_some h
  have hcut : (containerIp.take 31).1 = (containerIp.take i).1 ++ 47 :: keptPrefix containerIp i := by
    rw [CStr.take_val]
    conv => lhs; rw [hs]
    rw [List.take_append, List.take_of_length_le (by omega), hlen,
      show 31 - i = (30 - i) + 1 by omega, List.take_succ_cons]
    rfl
  refine ⟨hcut, ?_, ?_, ?_⟩
  · rw [chr_append hcut hno, hlen]
  · refine Subtype.ext ?_
    rw [CStr.take_val, CStr.take_val, List.take_take, Nat.min_eq_left (by omega)]
    rfl
  · rw [hcut, drop_cut hlen]

/-- The firewall's text is faithful exactly when the part of the prefix length that
fits is a number, and the same one. -/
theorem nat_subnet_faithful_iff (containerIp : CStr) (ip : List UInt8) (plen : Nat)
    (hcidr : parseCidr containerIp = some (ip, plen)) :
    SubnetFaithful containerIp ↔ PrefixKept containerIp := by
  cases h : containerIp.chr 47 with
  | none => exact iff_of_true (faithful_no_slash h hcidr) fun i hi => nomatch h.symm.trans hi
  | some i =>
    have hlong : containerIp.1.length < 64 := by
      by_contra hlong
      rw [parseCidr_long hlong] at hcidr
      exact nomatch hcidr
    have hparse := parseCidr_slash h hlong
    obtain ⟨x, hip, -⟩ := Option.map_eq_some_iff.mp (hparse.symm.trans hcidr)
    have hi : i ≤ 15 := (chr_eq_some h).2.2 ▸ (length_of_inetPton hip).1
    obtain ⟨hcut, hchr, htake, hdrop⟩ := subnet_slash h hi
    have htext := (setupSubnet_slash h).1
    have hshort : (containerIp.take 31).1.length < 64 := by
      have := List.length_take_le 31 containerIp.1
      rw [CStr.take_val]
      omega
    have hkept : parseCidr (containerIp.take 31) =
        some (x, toU8 (atoi (keptPrefix containerIp i))) := by
      rw [parseCidr_slash hchr hshort, htake, hdrop, hip, Option.map_some]
    have hfull : parseCidr containerIp = some (x, toU8 (atoi (containerIp.1.drop (i + 1)))) := by
      rw [hparse, hip, Option.map_some]
    constructor
    · rintro hfaith j hj
      obtain rfl : i = j := Option.some.inj (h.symm.trans hj)
      obtain ⟨quad, digits, hs, hquad, hne, hdigits⟩ := htext ▸ hfaith.form
      obtain ⟨y, hy⟩ := Option.isSome_iff_exists.mp hquad
      have hquadlen : quad.1.length = i :=
        Option.some.inj ((chr_append hs (slash_not_mem hy)).symm.trans hchr)
      have hsame : keptPrefix containerIp i = digits := by rw [← hdrop, hs, drop_cut hquadlen]
      rw [hsame]
      refine ⟨hne, hdigits, ?_⟩
      have hparsed := hfaith.parsed
      rw [htext, hkept, hfull, hsame] at hparsed
      exact congrArg Prod.snd (Option.some.inj hparsed)
    · intro hcond
      obtain ⟨hne, hdigits, hval⟩ := hcond i h
      refine subnetFaithful_of ?_ ?_
      · rw [htext]
        exact ⟨containerIp.take i, _, hcut, Option.isSome_iff_exists.mpr ⟨x, hip⟩, hne, hdigits⟩
      · rw [htext, hkept, hfull, hval]

/-- The address `10.0.0.2/24` is formatted as it is. -/
theorem nat_subnet_faithful_web : SubnetFaithful webIp ↔ PrefixKept webIp :=
  nat_subnet_faithful_iff webIp [10, 0, 0, 2] 24 (by decide)

/-- What follows the prefix length of an accepted address reaches the shell. -/
theorem subnet_runs_command :
    ¬ ∀ containerIp ip plen, parseCidr containerIp = some (ip, plen) → SubnetFaithful containerIp := by
  intro h
  have hfaith := h ⟨ascii "10.0.0.2/24;reboot", by decide⟩ [10, 0, 0, 2] 24 (by decide)
  have hword := hfaith.word.2 59 (by decide)
  exact absurd hword (by decide)

end Barco
