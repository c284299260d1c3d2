import Barco.Netlink
import Mathlib.Data.List.TakeWhile

/-!
# Addresses with a prefix length

The grammar of `parse_cidr`, and which strings the parser treats as the grammar
does. The prefix goes through `atoi`, which reports no errors, and through eight
bits; the destination of `nl_add_route` is parsed by a second copy of the code.

1. `length_of_inetPton`: a dotted quad has at most 15 bytes, digits and dots.
2. `parse_cidr_grammar_iff`: where `parse_cidr` accepts exactly the grammar.
3. `cidr_parsers_agree_iff`: where the two parsers agree.
-/

namespace Barco

/-! ## Cutting a string -/

/-- Where `strchr` finds a byte. -/
theorem chr_eq_some {b : UInt8} {s : CStr} {i : Nat} (h : s.chr b = some i) :
    s.1 = (s.take i).1 ++ b :: s.1.drop (i + 1) ∧ b ∉ (s.take i).1 ∧ (s.take i).1.length = i := by
  obtain ⟨hi, hb, hbefore⟩ := List.findIdx?_eq_some_iff_getElem.mp h
  have hlen : (s.take i).1.length = i := List.length_take_of_le (Nat.le_of_lt hi)
  refine ⟨?_, fun hmem => ?_, hlen⟩
  · conv => lhs; rw [← List.take_append_drop i s.1, List.drop_eq_getElem_cons hi]
    rw [of_decide_eq_true hb]
    rfl
  · obtain ⟨j, hj, hget⟩ := List.mem_iff_getElem.mp hmem
    have hji : j < i := hlen ▸ hj
    refine hbefore j hji (decide_eq_true ?_)
    rw [← hget]
    exact List.getElem_take.symm

theorem chr_append {b : UInt8} {pre rest : List UInt8} {s : CStr} (h : s.1 = pre ++ b :: rest)
    (hpre : b ∉ pre) : s.chr b = some pre.length := by
  rw [CStr.chr, h]
  refine List.findIdx?_eq_some_iff_getElem.mpr ⟨by simp, by simp, fun j hj => ?_⟩
  rw [List.getElem_append_left hj]
  simp only [decide_eq_true_eq]
  exact fun heq => hpre (heq ▸ List.getElem_mem hj)

theorem chr_eq_none {b : UInt8} {s : CStr} : s.chr b = none ↔ b ∉ s.1 := by
  rw [CStr.chr, List.findIdx?_eq_none_iff]
  constructor
  · exact fun h hmem => by simpa using h b hmem
  · exact fun h x hx => by simpa using fun heq : x = b => h (heq ▸ hx)

/-- What stands behind the byte. -/
theorem drop_cut {b : UInt8} {pre rest : List UInt8} {i : Nat} (h : pre.length = i) :
    (pre ++ b :: rest).drop (i + 1) = rest := by
  subst h
  rw [← List.drop_drop, List.drop_left]
  rfl

/-! ## Dotted quads -/

def IsDigit (b : UInt8) : Prop := 48 ≤ b ∧ b ≤ 57

instance (b : UInt8) : Decidable (IsDigit b) := inferInstanceAs (Decidable (_ ∧ _))

/-- What `inet_pton` takes for one number. -/
theorem octet_eq_some {bs : List UInt8} {n : UInt8} (h : octet bs = some n) :
    1 ≤ bs.length ∧ bs.length ≤ 3 ∧ ∀ b ∈ bs, IsDigit b := by
  unfold octet at h
  split at h
  · exact nomatch h
  · rename_i hno
    obtain ⟨hne, hlen, hany⟩ : ¬ bs.length = 0 ∧ ¬ bs.length > 3 ∧ _ :=
      (not_or.mp hno).imp id not_or.mp
    have hdigit : ∀ b ∈ bs, 48 ≤ b ∧ b ≤ 57 := by simpa using hany
    exact ⟨by omega, by omega, hdigit⟩

/-- The four numbers of a dotted quad. -/
theorem inetPton_eq_some {s : CStr} {ip : List UInt8} (h : inetPton s = some ip) :
    ∃ a b c d, s.1 = a ++ 46 :: (b ++ 46 :: (c ++ 46 :: d)) ∧
      ∃ na nb nc nd, octet a = some na ∧ octet b = some nb ∧ octet c = some nc ∧
        octet d = some nd ∧ ip = [na, nb, nc, nd] := by
  unfold inetPton at h
  split at h
  · rename_i a b c d hsplit
    have hs : s.1 = a ++ 46 :: (b ++ 46 :: (c ++ 46 :: d)) := by
      rw [← (List.intercalate_splitOn 46 : _ = s.1), hsplit]
      simp [List.intercalate]
    simp only [Option.pure_def, Option.bind_eq_bind, Option.bind_eq_some_iff, Option.some.injEq] at h
    obtain ⟨na, ha, nb, hb, nc, hc, nd, hd, rfl⟩ := h
    exact ⟨a, b, c, d, hs, na, nb, nc, nd, ha, hb, hc, hd, rfl⟩
  · exact nomatch h

/-- A dotted quad is short and has no other bytes than digits and dots. -/
theorem length_of_inetPton {s : CStr} {ip : List UInt8} (h : inetPton s = some ip) :
    s.1.length ≤ 15 ∧ (∀ b ∈ s.1, b = 46 ∨ IsDigit b) ∧ ip.length = 4 := by
  obtain ⟨a, b, c, d, hs, na, nb, nc, nd, ha, hb, hc, hd, rfl⟩ := inetPton_eq_some h
  obtain ⟨-, ha3, hda⟩ := octet_eq_some ha
  obtain ⟨-, hb3, hdb⟩ := octet_eq_some hb
  obtain ⟨-, hc3, hdc⟩ := octet_eq_some hc
  obtain ⟨-, hd3, hdd⟩ := octet_eq_some hd
  refine ⟨?_, fun x hx => ?_, rfl⟩
  · rw [hs]
    simp only [List.length_append, List.length_cons]
    omega
  · rw [hs] at hx
    simp only [List.mem_append, List.mem_cons] at hx
    rcases hx with hx | hx | hx | hx | hx | hx | hx
    · exact .inr (hda x hx)
    · exact .inl hx
    · exact .inr (hdb x hx)
    · exact .inl hx
    · exact .inr (hdc x hx)
    · exact .inl hx
    · exact .inr (hdd x hx)

theorem slash_not_mem {s : CStr} {ip : List UInt8} (h : inetPton s = some ip) : 47 ∉ s.1 :=
  fun hmem => by
    rcases (length_of_inetPton h).2.1 47 hmem with h46 | hdigit
    · exact absurd h46 (by decide)
    · exact absurd hdigit (by decide)

/-! ## The prefix length -/

/-- The number that a string of digits denotes. -/
def decimal (bs : List UInt8) : Nat := bs.foldl (fun acc b => acc * 10 + (b.toNat - 48)) 0

/-- A nonempty string of digits for a number up to 32. -/
def PrefixText (bs : List UInt8) : Prop := bs ≠ [] ∧ (∀ b ∈ bs, IsDigit b) ∧ decimal bs ≤ 32

instance (bs : List UInt8) : Decidable (PrefixText bs) := inferInstanceAs (Decidable (_ ∧ _))

/-- What follows a string of digits is not looked at. -/
theorem digitsValue_digits {bs : List UInt8} (h : ∀ b ∈ bs, IsDigit b) :
    digitsValue bs = decimal bs := by
  have htake : bs.takeWhile (fun b => decide (48 ≤ b ∧ b ≤ 57)) = bs :=
    List.takeWhile_eq_self_iff.mpr fun b hb => decide_eq_true (h b hb)
  rw [digitsValue, htake]
  rfl

/-- `strtol` on digits: the number, or the largest `long`. -/
theorem strtol_digits {bs : List UInt8} (hne : bs ≠ []) (h : ∀ b ∈ bs, IsDigit b) :
    strtol bs = min (decimal bs : Int) (2 ^ 63 - 1) := by
  obtain ⟨b, rest, rfl⟩ := List.exists_cons_of_ne_nil hne
  obtain ⟨hlow, hhigh⟩ := h b List.mem_cons_self
  have hlow' : 48 ≤ b.toNat := UInt8.le_iff_toNat_le.mp hlow
  have hspace : ¬ (b = 32 ∨ (9 ≤ b ∧ b ≤ 13)) := by
    rintro (rfl | ⟨-, h13⟩)
    · exact absurd hlow (by decide)
    · have : b.toNat ≤ 13 := UInt8.le_iff_toNat_le.mp h13
      omega
  have hdrop : (b :: rest).dropWhile (fun b => decide (b = 32 ∨ (9 ≤ b ∧ b ≤ 13))) = b :: rest :=
    List.dropWhile_cons_of_neg (by simpa using hspace)
  have hminus : b ≠ 45 := by
    rintro rfl
    exact absurd hlow (by decide)
  have hplus : b ≠ 43 := by
    rintro rfl
    exact absurd hlow (by decide)
  have hvalue := digitsValue_digits h
  unfold strtol
  rw [hdrop]
  split
  · rename_i l heq
    exact absurd (List.cons.inj heq).1 hminus
  · rename_i l heq
    exact absurd (List.cons.inj heq).1 hplus
  · show max _ (min ((digitsValue (b :: rest) : Nat) : Int) _) = _
    rw [hvalue]
    have : (2 : Int) ^ 63 = 9223372036854775808 := rfl
    omega

/-- A proper prefix length survives `atoi` and the eight bits. -/
theorem toU8_atoi {bs : List UInt8} (h : PrefixText bs) : toU8 (atoi bs) = decimal bs := by
  obtain ⟨hne, hdigits, hle⟩ := h
  have hmod : (2 ^ 32 : Nat) = 4294967296 := rfl
  rw [atoi, strtol_digits hne hdigits, toU8, Int.bmod]
  omega

/-! ## What `parse_cidr` accepts -/

/-- An address with a prefix length, or without one for 24. -/
def CidrText (s : CStr) (ip : List UInt8) (p : Nat) : Prop :=
  (inetPton s = some ip ∧ p = 24) ∨
  ∃ (quad : CStr) (digits : List UInt8), s.1 = quad.1 ++ 47 :: digits ∧ inetPton quad = some ip ∧
    PrefixText digits ∧ decimal digits = p

/-- Where a dotted quad stands before a `/`, what follows is a number up to 32
exactly when the string is short enough for the buffer. -/
def PrefixPlain (s : CStr) : Prop :=
  ∀ i, s.chr 47 = some i → (inetPton (s.take i)).isSome = true →
    (PrefixText (s.1.drop (i + 1)) ↔ s.1.length < 64)

/-- Without a `/` the parser and the grammar both ask `inet_pton` only. -/
theorem parseCidr_no_slash {s : CStr} (h : s.chr 47 = none) (ip : List UInt8) (p : Nat) :
    parseCidr s = some (ip, p) ↔ CidrText s ip p := by
  have hgrammar : CidrText s ip p ↔ inetPton s = some ip ∧ p = 24 := by
    refine or_iff_left ?_
    rintro ⟨quad, digits, hs, -⟩
    exact chr_eq_none.mp h (hs ▸ List.mem_append_right _ List.mem_cons_self)
  rw [hgrammar, parseCidr, h]
  constructor
  · intro heq
    split at heq
    · exact nomatch heq
    · obtain ⟨x, hx, hpair⟩ := Option.map_eq_some_iff.mp heq
      obtain ⟨rfl, rfl⟩ := Prod.mk.inj hpair
      exact ⟨hx, rfl⟩
  · rintro ⟨hip, rfl⟩
    have := (length_of_inetPton hip).1
    rw [if_neg (by omega)]
    simp [hip]

/-- With a `/`, the grammar splits the string there. -/
theorem cidrText_slash {s : CStr} {i : Nat} (h : s.chr 47 = some i) (ip : List UInt8) (p : Nat) :
    CidrText s ip p ↔ inetPton (s.take i) = some ip ∧ PrefixText (s.1.drop (i + 1)) ∧
      decimal (s.1.drop (i + 1)) = p := by
  obtain ⟨hs, -, hlen⟩ := chr_eq_some h
  constructor
  · rintro (⟨hip, -⟩ | ⟨quad, digits, hs', hip, htext, hp⟩)
    · exact absurd (hs ▸ List.mem_append_right _ List.mem_cons_self) (slash_not_mem hip)
    · obtain rfl := Option.some.inj ((chr_append hs' (slash_not_mem hip)).symm.trans h)
      have hquad : s.take quad.1.length = quad := Subtype.ext (by rw [CStr.take_val, hs', List.take_left])
      have hdigits : s.1.drop (quad.1.length + 1) = digits := by rw [hs', drop_cut rfl]
      rw [hquad, hdigits]
      exact ⟨hip, htext, hp⟩
  · rintro ⟨hip, htext, hp⟩
    exact .inr ⟨s.take i, _, hs, hip, htext, hp⟩

theorem parseCidr_slash {s : CStr} {i : Nat} (h : s.chr 47 = some i) (hlen : s.1.length < 64) :
    parseCidr s = (inetPton (s.take i)).map fun ip => (ip, toU8 (atoi (s.1.drop (i + 1)))) := by
  rw [parseCidr, if_neg (by omega), h]

theorem parseCidr_long {s : CStr} (hlen : ¬ s.1.length < 64) : parseCidr s = none := by
  rw [parseCidr, if_pos (by omega)]

/-- `parse_cidr` accepts exactly the grammar, with its values, on the strings whose
prefix length is plain. -/
theorem parse_cidr_grammar_iff (s : CStr) :
    (∀ ip p, parseCidr s = some (ip, p) ↔ CidrText s ip p) ↔ PrefixPlain s := by
  constructor
  · intro h i hi hsome
    obtain ⟨ip, hip⟩ := Option.isSome_iff_exists.mp hsome
    constructor
    · intro htext
      by_contra hlong
      have := (h ip _).mpr ((cidrText_slash hi ip _).mpr ⟨hip, htext, rfl⟩)
      rw [parseCidr_long hlong] at this
      exact nomatch this
    · intro hlen
      have hparse : parseCidr s = some (ip, toU8 (atoi (s.1.drop (i + 1)))) := by
        rw [parseCidr_slash hi hlen, hip, Option.map_some]
      exact ((cidrText_slash hi ip _).mp ((h ip _).mp hparse)).2.1
  · intro h ip p
    cases hi : s.chr 47 with
    | none => exact parseCidr_no_slash hi ip p
    | some i =>
      rw [cidrText_slash hi]
      by_cases hlen : s.1.length < 64
      · rw [parseCidr_slash hi hlen]
        constructor
        · intro heq
          obtain ⟨x, hx, hpair⟩ := Option.map_eq_some_iff.mp heq
          obtain ⟨rfl, rfl⟩ := Prod.mk.inj hpair
          have htext := (h i hi (Option.isSome_iff_exists.mpr ⟨x, hx⟩)).mpr hlen
          exact ⟨hx, htext, (toU8_atoi htext).symm⟩
        · rintro ⟨hip, htext, rfl⟩
          rw [hip, Option.map_some, toU8_atoi htext]
      · rw [parseCidr_long hlen]
        refine iff_of_false (fun h => nomatch h) ?_
        rintro ⟨hip, htext, -⟩
        exact hlen ((h i hi (Option.isSome_iff_exists.mpr ⟨ip, hip⟩)).mp htext)

/-- A prefix length of 280 is taken for 24. -/
theorem prefix_wraps : ¬ ∀ ip p, parseCidr ⟨ascii "10.0.0.2/280", by decide⟩ = some (ip, p) ↔
    CidrText ⟨ascii "10.0.0.2/280", by decide⟩ ip p := by
  intro h
  have hplain := (cidrText_slash (s := ⟨ascii "10.0.0.2/280", by decide⟩) (i := 8) (by decide)
    [10, 0, 0, 2] 24).mp ((h _ _).mp (by decide))
  exact absurd hplain.2.1 (by decide +kernel)

/-! ## The second parser -/

/-- The destination parser of `nl_add_route` does with `dest` what `parse_cidr`
does, apart from the default prefix length and from `default`. -/
def ParsersAgree (dest : CStr) : Prop :=
  (47 ∈ dest.1 → parseDest (some dest) = parseCidr dest) ∧
  (47 ∉ dest.1 → dest ≠ defaultRoute →
    (parseDest (some dest)).map (·.1) = (parseCidr dest).map (·.1))

/-- A string with a dotted quad before a `/` fits the buffer. -/
def QuadFits (dest : CStr) : Prop :=
  ∀ i, dest.chr 47 = some i → (inetPton (dest.take i)).isSome = true → dest.1.length < 64

theorem parseDest_of_ne {dest : CStr} (h : dest ≠ defaultRoute) :
    parseDest (some dest) = match (dest.take 63).chr 47 with
      | some i => (inetPton ((dest.take 63).take i)).map fun ip =>
          (ip, toU8 (atoi ((dest.take 63).1.drop (i + 1))))
      | none => (inetPton (dest.take 63)).map fun ip => (ip, 32) := by
  unfold parseDest
  exact if_neg h

theorem ne_default_of_slash {dest : CStr} (h : 47 ∈ dest.1) : dest ≠ defaultRoute := by
  rintro rfl
  exact absurd h (by decide)

theorem take_of_length_le {n : Nat} {s : CStr} (h : s.1.length ≤ n) : s.take n = s :=
  Subtype.ext (List.take_of_length_le h)

theorem inetPton_long {s : CStr} (h : 15 < s.1.length) : inetPton s = none := by
  cases hip : inetPton s with
  | none => rfl
  | some ip =>
    have := (length_of_inetPton hip).1
    omega

/-- Without a `/` both parsers ask `inet_pton` only. -/
theorem parseDest_no_slash {dest : CStr} (h : 47 ∉ dest.1) (hne : dest ≠ defaultRoute) :
    (parseDest (some dest)).map (·.1) = (parseCidr dest).map (·.1) := by
  have hnone : (dest.take 63).chr 47 = none :=
    chr_eq_none.mpr fun hmem => h (List.mem_of_mem_take hmem)
  have hfst : ∀ (ip : Option (List UInt8)) (p : Nat), (ip.map fun ip => (ip, p)).map (·.1) = ip :=
    fun ip p => by cases ip <;> rfl
  rw [parseDest_of_ne hne, hnone]
  by_cases hlen : dest.1.length < 64
  · rw [parseCidr, if_neg (by omega), chr_eq_none.mpr h, take_of_length_le (by omega)]
    simp only [hfst]
  · have hlong : 15 < (dest.take 63).1.length := by
      rw [CStr.take_val, List.length_take]
      omega
    rw [parseCidr_long hlen, inetPton_long hlong]
    rfl

/-- The first 63 bytes of a longer string are parsed by what stands before the `/`. -/
theorem parseDest_long {dest : CStr} {i : Nat} (hi : dest.chr 47 = some i)
    (hlen : ¬ dest.1.length < 64) :
    parseDest (some dest) = none ↔ inetPton (dest.take i) = none := by
  obtain ⟨hs, hno, hleni⟩ := chr_eq_some hi
  have hmem : 47 ∈ dest.1 := by
    rw [hs]
    exact List.mem_append_right _ List.mem_cons_self
  rw [parseDest_of_ne (ne_default_of_slash hmem)]
  by_cases hi63 : i < 63
  · have hcut : (dest.take 63).1 = (dest.take i).1 ++ 47 :: (dest.1.drop (i + 1)).take (62 - i) := by
      rw [CStr.take_val]
      conv => lhs; rw [hs]
      rw [List.take_append, List.take_of_length_le (by omega), hleni,
        show 63 - i = (62 - i) + 1 by omega, List.take_succ_cons]
    have htake : (dest.take 63).take i = dest.take i :=
      Subtype.ext (by rw [CStr.take_val, CStr.take_val, List.take_take, Nat.min_eq_left (by omega)]; rfl)
    rw [chr_append hcut hno, hleni]
    simp only [htake, Option.map_eq_none_iff]
  · have hnone : (dest.take 63).chr 47 = none := by
      refine chr_eq_none.mpr fun hmem63 => hno ?_
      have : (dest.take 63).1 = (dest.take i).1.take 63 := by
        rw [CStr.take_val, CStr.take_val, List.take_take, Nat.min_eq_left (by omega)]
      exact List.mem_of_mem_take (this ▸ hmem63)
    have hlong : 15 < (dest.take 63).1.length := by
      rw [CStr.take_val, List.length_take]
      omega
    have hlong' : 15 < (dest.take i).1.length := by omega
    rw [hnone]
    simp only [inetPton_long hlong, inetPton_long hlong', Option.map_none]

/-- The two parsers agree on a string exactly when it is shorter than the buffer or
has no dotted quad before a `/`. -/
theorem cidr_parsers_agree_iff (dest : CStr) : ParsersAgree dest ↔ QuadFits dest := by
  constructor
  · rintro ⟨hslash, -⟩ i hi hsome
    by_contra hlen
    have hmem : 47 ∈ dest.1 := by
      by_contra hno
      exact nomatch hi.symm.trans (chr_eq_none.mpr hno)
    have hnone := (parseDest_long hi hlen).mp ((hslash hmem).trans (parseCidr_long hlen))
    rw [hnone] at hsome
    exact nomatch hsome
  · intro h
    refine ⟨fun hmem => ?_, parseDest_no_slash⟩
    cases hi : dest.chr 47 with
    | none => exact absurd hmem (chr_eq_none.mp hi)
    | some i =>
      by_cases hlen : dest.1.length < 64
      · rw [parseDest_of_ne (ne_default_of_slash hmem), parseCidr_slash hi hlen,
          take_of_length_le (by omega), hi]
      · have hnone : inetPton (dest.take i) = none := by
          by_contra hsome
          exact hlen (h i hi (Option.isSome_iff_ne_none.mpr hsome))
        rw [parseCidr_long hlen]
        exact (parseDest_long hi hlen).mpr hnone

/-- `10.0.0.0/0…08` with 61 digits: cut to 63 bytes, the number is 0. -/
def longDest : CStr := ⟨ascii "10.0.0.0/" ++ List.replicate 60 48 ++ [56], by decide⟩

theorem parsers_differ : ¬ ParsersAgree longDest := by
  rintro ⟨hslash, -⟩
  exact absurd (hslash (by decide)) (by decide)

end Barco
