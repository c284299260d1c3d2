import Barco.Main

/-!
# The names of the two ends

A run names its ends after its random suffix: `veth-tmp-` with the suffix for
the container's end and `veth-`, the user's name and the suffix for the host's
end, both cut to 15 bytes. What survives of the suffix depends on the user's
name.

1. `peer_eq_tmp_iff`: when the host's end of one run is called like the
   container's end of another or of the same run.
2. `peer_eq_peer_iff`: when the host's ends of two runs have one name.
-/

namespace Barco

open Effect

/-- A legal interface name. -/
structure LegalName (name : CStr) : Prop where
  nonempty : 0 < name.1.length
  short : name.1.length ≤ 15
  bytes : ∀ b ∈ name.1, b ≠ 47 ∧ b ≠ 58 ∧ b ≠ 32 ∧ ¬ (9 ≤ b ∧ b ≤ 13)
  notDots : name.1 ≠ ascii "." ∧ name.1 ≠ ascii ".."

/-- A suffix as `generate_random_suffix` leaves it: eight characters are drawn,
and the buffer may hold up to seven more bytes before its last NUL. -/
structure VethSuffix where
  chars : CStr
  le_length : 8 ≤ chars.1.length
  length_le : chars.1.length ≤ 15
  drawn : ∀ b ∈ chars.1.take 8, b ∈ suffixAlphabet

/-- A run with networking and no `--veth-peer`: the user's name and the suffix. -/
structure VethRun where
  name : CStr
  suffix : VethSuffix
  legal : LegalName name

namespace VethRun

/-- The container's end. -/
def tmp (r : VethRun) : CStr := vethTmpName r.suffix.chars

/-- The host's end. -/
def peer (r : VethRun) : CStr := vethPeerName r.name r.suffix.chars

/-- What follows `veth-` in the name of the host's end. -/
def stem (r : VethRun) : List UInt8 := (r.name.1 ++ 45 :: r.suffix.chars.1).take 10

/-- What follows `veth-` in the name of the container's end. -/
def tmpStem (r : VethRun) : List UInt8 := ascii "tmp-" ++ r.suffix.chars.1.take 6

variable (r r' : VethRun)

theorem peer_val : r.peer.1 = ascii "veth-" ++ r.stem := by
  have h63 : (ascii "veth-" ++ (r.name.1 ++ 45 :: r.suffix.chars.1)).length ≤ 63 := by
    have := r.legal.short
    have := r.suffix.length_le
    have h5 : (ascii "veth-").length = 5 := rfl
    simp only [List.length_append, List.length_cons, h5]
    omega
  have hval : r.peer.1 = ((ascii "veth-" ++ (r.name.1 ++ 45 :: r.suffix.chars.1)).take 63).take 15 := by
    simp [peer, vethPeerName, vethDash, dash, ascii]
  rw [hval, List.take_of_length_le h63, List.take_append]
  rfl

theorem tmp_val : r.tmp.1 = ascii "veth-" ++ r.tmpStem := by
  have h63 : (ascii "veth-tmp-" ++ r.suffix.chars.1).length ≤ 63 := by
    have := r.suffix.length_le
    have h9 : (ascii "veth-tmp-").length = 9 := rfl
    simp only [List.length_append, h9]
    omega
  have hval : r.tmp.1 = ((ascii "veth-tmp-" ++ r.suffix.chars.1).take 63).take 15 := rfl
  rw [hval, List.take_of_length_le h63, List.take_append]
  rfl

theorem length_peer_le : r.peer.1.length ≤ 15 := by
  rw [peer_val, List.length_append, stem, List.length_take]
  have : (ascii "veth-").length = 5 := rfl
  omega

theorem length_tmp : r.tmp.1.length = 15 := by
  have h5 : (ascii "veth-").length = 5 := rfl
  have h4 : (ascii "tmp-").length = 4 := rfl
  have := r.suffix.le_length
  rw [tmp_val, tmpStem, List.length_append, List.length_append, List.length_take]
  omega

theorem peer_eq_peer : r.peer = r'.peer ↔ r.stem = r'.stem := by
  rw [Subtype.ext_iff, peer_val, peer_val, List.append_right_inj]

theorem peer_eq_tmp : r.peer = r'.tmp ↔ r.stem = r'.tmpStem := by
  rw [Subtype.ext_iff, peer_val, tmp_val, List.append_right_inj]

theorem tmp_eq_tmp : r.tmp = r'.tmp ↔ r.suffix.chars.1.take 6 = r'.suffix.chars.1.take 6 := by
  rw [Subtype.ext_iff, tmp_val, tmp_val, List.append_right_inj, tmpStem, tmpStem,
    List.append_right_inj]

/-! ## Positions -/

/-- The dash is not among the characters that are drawn. -/
theorem suffix_ne_dash {i : Nat} (hi : i < 8) : r.suffix.chars.1[i]? ≠ some 45 := by
  intro h
  have hmem : (45 : UInt8) ∈ r.suffix.chars.1.take 8 :=
    List.mem_of_getElem? ((List.getElem?_take_of_lt hi).trans h)
  exact absurd (r.suffix.drawn 45 hmem) (by decide)

theorem stem_dash (h10 : r.name.1.length < 10) : r.stem[r.name.1.length]? = some 45 := by
  rw [stem, List.getElem?_take_of_lt h10, List.getElem?_append_right (Nat.le_refl _)]
  simp

theorem stem_suffix {i : Nat} (h10 : r.name.1.length + 1 + i < 10) :
    r.stem[r.name.1.length + 1 + i]? = r.suffix.chars.1[i]? := by
  rw [stem, List.getElem?_take_of_lt h10, List.getElem?_append_right (by omega),
    show r.name.1.length + 1 + i - r.name.1.length = i + 1 by omega, List.getElem?_cons_succ]

theorem length_stem : r.stem.length = 10 := by
  have := r.legal.nonempty
  have := r.suffix.le_length
  rw [stem, List.length_take, List.length_append, List.length_cons]
  omega

/-- A long name leaves nothing of the suffix. -/
theorem stem_long (h : 10 ≤ r.name.1.length) : r.stem = r.name.1.take 10 :=
  List.take_append_of_le_length h

theorem tmpStem_suffix {i : Nat} (h : i < 6) : r.tmpStem[4 + i]? = r.suffix.chars.1[i]? := by
  have h4 : (ascii "tmp-").length = 4 := rfl
  rw [tmpStem, List.getElem?_append_right (by omega), h4, Nat.add_sub_cancel_left,
    List.getElem?_take_of_lt h]

theorem length_tmpStem : r.tmpStem.length = 10 := by
  have h4 : (ascii "tmp-").length = 4 := rfl
  have := r.suffix.le_length
  rw [tmpStem, List.length_append, List.length_take, h4]
  omega

/-! ## The container's end against the host's end -/

/-- The user's name of `r` turns the host's end into the container's end of
`r'`: it is `tmp`, with the same six characters, or it spells the end out. -/
def TmpClash : Prop :=
  (r.name.1 = ascii "tmp" ∧ r.suffix.chars.1.take 6 = r'.suffix.chars.1.take 6) ∨
    ascii "tmp-" ++ r'.suffix.chars.1.take 6 <+: r.name.1

instance : Decidable (TmpClash r r') := inferInstanceAs (Decidable (_ ∨ _))

theorem stem_eq_tmpStem_of_clash (h : TmpClash r r') : r.stem = r'.tmpStem := by
  rcases h with ⟨hname, hsuffix⟩ | hprefix
  · rw [tmpStem, ← hsuffix, stem, hname, List.take_append]
    rfl
  · have hlen := hprefix.length_le
    have h10 := r'.length_tmpStem
    rw [stem_long r (by rw [← h10]; exact hlen)]
    rw [← tmpStem] at hprefix
    rw [List.prefix_iff_eq_take.mp hprefix, h10]

theorem clash_of_stem_eq_tmpStem (h : r.stem = r'.tmpStem) : TmpClash r r' := by
  by_cases hlong : 10 ≤ r.name.1.length
  · refine .inr ?_
    rw [← tmpStem, ← h, stem_long r hlong]
    exact List.take_prefix _ _
  · have hdash := stem_dash r (by omega)
    rw [h] at hdash
    have hpos := r.legal.nonempty
    -- the dash behind the name falls on the dash of `tmp-`
    have hlen : r.name.1.length = 3 := by
      by_contra hne
      rcases Nat.lt_or_ge r.name.1.length 4 with hlt | hge
      · have hcases : r.name.1.length = 1 ∨ r.name.1.length = 2 := by omega
        rcases hcases with hlen | hlen <;> rw [hlen] at hdash <;>
          simp [tmpStem, ascii] at hdash
      · obtain ⟨i, hi⟩ := Nat.exists_eq_add_of_le hge
        rw [hi, tmpStem_suffix r' (by omega)] at hdash
        exact suffix_ne_dash r' (by omega) hdash
    have hstem : r.stem = r.name.1 ++ 45 :: r.suffix.chars.1.take 6 := by
      rw [stem, List.take_append, hlen, List.take_of_length_le (by omega)]
      rfl
    have hparts : r.name.1 ++ 45 :: r.suffix.chars.1.take 6 =
        ascii "tmp" ++ 45 :: r'.suffix.chars.1.take 6 := hstem ▸ h
    obtain ⟨hname, hrest⟩ := List.append_inj hparts hlen
    exact .inl ⟨hname, (List.cons.inj hrest).2⟩

theorem peer_eq_tmp_iff : r.peer = r'.tmp ↔ TmpClash r r' :=
  (peer_eq_tmp r r').trans ⟨clash_of_stem_eq_tmpStem r r', stem_eq_tmpStem_of_clash r r'⟩

/-! ## The host's ends of two runs -/

/-- The name of `r'` spells out what the shorter name of `r` makes of the host's end. -/
def Spells : Prop :=
  r.name.1.length ≤ 8 ∧ (r.name.1 ++ 45 :: r.suffix.chars.1).take 10 <+: r'.name.1

/-- The user's names leave nothing of the suffixes that tells the ends apart. -/
def PeerClash : Prop :=
  (9 ≤ r.name.1.length ∧ 9 ≤ r'.name.1.length ∧
    (r.name.1 ++ [45]).take 10 = (r'.name.1 ++ [45]).take 10) ∨
  Spells r r' ∨ Spells r' r

instance : Decidable (Spells r r') := inferInstanceAs (Decidable (_ ∧ _))

instance : Decidable (PeerClash r r') := inferInstanceAs (Decidable (_ ∨ _))

/-- The suffixes differ in their first character. -/
def Differ : Prop := r.suffix.chars.1[0]? ≠ r'.suffix.chars.1[0]?

theorem stem_nine (h : 9 ≤ r.name.1.length) : r.stem = (r.name.1 ++ [45]).take 10 := by
  have hsplit : r.name.1 ++ 45 :: r.suffix.chars.1 =
      (r.name.1 ++ [45]) ++ r.suffix.chars.1 := by simp
  rw [stem, hsplit, List.take_append_of_le_length]
  rw [List.length_append, List.length_singleton]
  omega

theorem spells_iff (h : r.name.1.length ≤ 8) (h' : 10 ≤ r'.name.1.length) :
    Spells r r' ↔ r.stem = r'.stem := by
  rw [Spells, ← stem, List.prefix_iff_eq_take, length_stem, stem_long r' h']
  exact and_iff_right h

theorem not_spells (h' : r'.name.1.length ≤ 9) : ¬ Spells r r' := by
  rintro ⟨-, hprefix⟩
  have := hprefix.length_le
  rw [← stem, length_stem] at this
  omega

/-- Two names of at most nine bytes, one of at most eight, never clash. -/
theorem stem_ne_of_short (hdiff : Differ r r') (h : r.name.1.length ≤ 8)
    (h' : r'.name.1.length ≤ 9) : r.stem ≠ r'.stem := by
  intro heq
  have hpos := r.legal.nonempty
  have hpos' := r'.legal.nonempty
  rcases Nat.lt_trichotomy r.name.1.length r'.name.1.length with hlt | hlen | hgt
  · -- the dash behind the longer name falls on a character that was drawn
    obtain ⟨i, hi⟩ := Nat.exists_eq_add_of_le (Nat.succ_le_of_lt hlt)
    have hdash := stem_dash r' (by omega)
    rw [← heq, hi, stem_suffix r (by omega)] at hdash
    exact suffix_ne_dash r (by omega) hdash
  · -- the first characters of the suffixes fall on each other
    have h₀ := stem_suffix r (i := 0) (by omega)
    have h₀' := stem_suffix r' (i := 0) (by omega)
    rw [heq, hlen] at h₀
    exact hdiff (h₀.symm.trans h₀')
  · obtain ⟨i, hi⟩ := Nat.exists_eq_add_of_le (Nat.succ_le_of_lt hgt)
    have hdash := stem_dash r (by omega)
    rw [heq, hi, stem_suffix r' (by omega)] at hdash
    exact suffix_ne_dash r' (by omega) hdash

theorem Differ.symm (h : Differ r r') : Differ r' r := fun heq => h heq.symm

theorem peer_eq_peer_iff (hdiff : Differ r r') : r.peer = r'.peer ↔ PeerClash r r' := by
  rw [peer_eq_peer, PeerClash]
  rcases Nat.lt_or_ge r.name.1.length 9 with hshort | hlong <;>
    rcases Nat.lt_or_ge r'.name.1.length 9 with hshort' | hlong'
  · have hne := stem_ne_of_short r r' hdiff (by omega) (by omega)
    have hno := not_spells r r' (by omega)
    have hno' := not_spells r' r (by omega)
    simp only [hne, hno, hno', or_false, false_iff]
    omega
  · have hno' := not_spells r' r (by omega)
    by_cases h10 : 10 ≤ r'.name.1.length
    · rw [← spells_iff r r' (by omega) h10]
      simp only [hno', or_false]
      exact ⟨.inr, fun h => h.resolve_left (by omega)⟩
    · have hne := stem_ne_of_short r r' hdiff (by omega) (by omega)
      have hno := not_spells r r' (by omega)
      simp only [hne, hno, hno', or_false, false_iff]
      omega
  · have hno := not_spells r r' (by omega)
    by_cases h10 : 10 ≤ r.name.1.length
    · rw [eq_comm, ← spells_iff r' r (by omega) h10]
      simp only [hno, false_or]
      exact ⟨.inr, fun h => h.resolve_left (by omega)⟩
    · have hne := stem_ne_of_short r' r (Differ.symm r r' hdiff) (by omega) (by omega)
      have hno' := not_spells r' r (by omega)
      simp only [Ne.symm hne, hno, hno', or_false, false_iff]
      omega
  · have hno : ¬ Spells r r' := fun h => by have := h.1; omega
    have hno' : ¬ Spells r' r := fun h => by have := h.1; omega
    rw [stem_nine r hlong, stem_nine r' hlong']
    simp only [hno, hno', or_false]
    exact ⟨fun h => ⟨hlong, hlong', h⟩, fun h => h.2.2⟩

/-! ## All names of two runs -/

/-- No name of one run is a name of the other. -/
def Apart : Prop := r.tmp ≠ r'.tmp ∧ r.tmp ≠ r'.peer ∧ r.peer ≠ r'.tmp ∧ r.peer ≠ r'.peer

theorem tmp_ne_tmp (hdiff : Differ r r') : r.tmp ≠ r'.tmp := by
  intro h
  have h6 := (tmp_eq_tmp r r').mp h
  have h0 : (r.suffix.chars.1.take 6)[0]? = (r'.suffix.chars.1.take 6)[0]? := by rw [h6]
  rw [List.getElem?_take_of_lt (by decide), List.getElem?_take_of_lt (by decide)] at h0
  exact hdiff h0

/-- Two runs whose suffixes differ in the first character have no name in
common exactly when none of the user's names defeats the suffix. -/
theorem apart_iff (hdiff : Differ r r') :
    Apart r r' ↔ ¬ TmpClash r r' ∧ ¬ TmpClash r' r ∧ ¬ PeerClash r r' := by
  have h₁ : r.tmp ≠ r'.tmp := tmp_ne_tmp r r' hdiff
  have h₂ : r.tmp ≠ r'.peer ↔ ¬ TmpClash r' r := by
    rw [← peer_eq_tmp_iff, ne_eq, eq_comm]
  have h₃ : r.peer ≠ r'.tmp ↔ ¬ TmpClash r r' := not_congr (peer_eq_tmp_iff r r')
  have h₄ : r.peer ≠ r'.peer ↔ ¬ PeerClash r r' := not_congr (peer_eq_peer_iff r r' hdiff)
  rw [Apart, h₂, h₃, h₄]
  exact ⟨fun h => ⟨h.2.2.1, h.2.1, h.2.2.2⟩, fun h => ⟨h₁, h.2.1, h.1, h.2.2⟩⟩

/-- The locals of `main` when the names of the run are made. -/
def start (args : Args) (containerIp : CStr) : MainState :=
  ((networkState args r.name containerIp).withPeer r.peer).withTmp r.tmp

end VethRun

/-! ## Where the names come from -/

theorem suffixChar_mem (n : Nat) : suffixChar n ∈ suffixAlphabet := by
  have hlen : n % 36 < suffixAlphabet.length := Nat.mod_lt n (by decide)
  rw [suffixChar, List.getD_eq_getElem?_getD, List.getElem?_eq_getElem hlen]
  exact List.getElem_mem hlen

theorem drawChars_returns (n : Nat) :
    (drawChars n).Returns fun cs => cs.length = n ∧ ∀ b ∈ cs, b ∈ suffixAlphabet := by
  induction n with
  | zero => exact ⟨rfl, fun _ h => nomatch h⟩
  | succ n ih =>
    intro x
    refine ih.bind fun cs hcs => ⟨congrArg (· + 1) hcs.1, fun b hb => ?_⟩
    rcases List.mem_cons.mp hb with rfl | hb
    · exact suffixChar_mem x
    · exact hcs.2 b hb

/-- The string in a buffer of 16 bytes whose first eight are drawn and whose
last is NUL. -/
theorem ofBuf_drawn {chars : List UInt8} (rest : List UInt8) (hlen : chars.length = 8)
    (hdrawn : ∀ b ∈ chars, b ∈ suffixAlphabet) :
    (CStr.ofBuf ((chars ++ rest).set 15 0)).1 = chars ++ (rest.set 7 0).takeWhile (· ≠ 0) := by
  have hset : (chars ++ rest).set 15 0 = chars ++ rest.set 7 0 := by
    rw [List.set_append_right _ _ (by omega), hlen]
  have hne : ∀ b ∈ chars, decide (b ≠ 0) = true := fun b hb =>
    decide_eq_true fun h => absurd (h ▸ hdrawn b hb) (by decide)
  rw [hset, CStr.ofBuf_val, List.takeWhile_append_of_pos hne]

theorem suffix_of_buffer {chars rest : List UInt8} (hlen : chars.length = 8)
    (hrest : rest.length = 8) (hdrawn : ∀ b ∈ chars, b ∈ suffixAlphabet) :
    ∃ s : VethSuffix, s.chars = CStr.ofBuf ((chars ++ rest).set 15 0) := by
  have hval := ofBuf_drawn rest hlen hdrawn
  have htail : ((rest.set 7 0).takeWhile (· ≠ 0)).length ≤ 7 := by
    by_contra hlong
    have hpre := List.takeWhile_prefix (l := rest.set 7 0) (· ≠ 0)
    have hall := hpre.eq_of_length (by
      have := hpre.length_le
      rw [List.length_set] at this ⊢
      omega)
    have hzero : (0 : UInt8) ∈ rest.set 7 0 :=
      List.mem_of_getElem? (i := 7) (List.getElem?_set_self (by omega))
    rw [← hall] at hzero
    simpa using List.all_eq_true.mp List.all_takeWhile 0 hzero
  refine ⟨⟨CStr.ofBuf ((chars ++ rest).set 15 0), ?_, ?_, ?_⟩, rfl⟩
  · rw [hval, List.length_append]
    omega
  · rw [hval, List.length_append]
    omega
  · rw [hval, List.take_append_of_le_length (by omega), List.take_of_length_le (by omega)]
    exact hdrawn

theorem generateRandomSuffix_returns {buf : List UInt8} (hlen : buf.length = 16) :
    (generateRandomSuffix buf).Returns fun bs => ∃ s : VethSuffix, s.chars = CStr.ofBuf bs := by
  refine (drawChars_returns _).bind fun chars hchars => ?_
  have h8 : chars.length = 8 := by
    rw [hchars.1, hlen]
    rfl
  have h15 : buf.length - 1 = 15 := by rw [hlen]
  rw [h15]
  exact suffix_of_buffer h8 (by rw [List.length_drop, hlen, h8]) hchars.2

/-- What section 3 of `main` leaves. -/
inductive Configured (args : Args) : Except MainState MainState → Prop
  | off : args.vethName = none ∨ args.containerIp = none →
      Configured args (.ok (initialState args))
  | on {name ip : CStr} (s : VethSuffix) : args.vethName = some name →
      args.containerIp = some ip → Configured args (.ok (((networkState args name ip).withPeer
        (args.vethPeer.getD (vethPeerName name s.chars))).withTmp (vethTmpName s.chars)))
  | noPeer {name ip : CStr} : Configured args (.error (networkState args name ip).fail)
  | noTmp {name ip peer : CStr} :
      Configured args (.error ((networkState args name ip).withPeer peer).fail)

theorem allocPeer_bind {args : Args} {P : Except MainState MainState → Prop}
    {f : Bool → Sys (Except MainState MainState)} (hf : ∀ b, (f b).Returns P) :
    (allocPeer args >>= f).Returns P := by
  unfold allocPeer
  split
  · exact hf
  · exact hf

theorem fillConfig_configured (args : Args) : (fillConfig args).Returns (Configured args) := by
  unfold fillConfig
  split
  · rename_i name ip hname hip
    intro buf
    refine Prog.Returns.bind (p := generateRandomSuffix buf.1)
      (generateRandomSuffix_returns buf.2) ?_
    rintro bs ⟨s, hs⟩
    simp only [← hs]
    refine allocPeer_bind ?_
    rintro (_ | _)
    · exact .noPeer
    · rintro (_ | _)
      · exact .noTmp
      · exact .on s hname hip
  · rename_i hoff
    refine .off ?_
    cases hname : args.vethName with
    | none => exact .inl rfl
    | some name =>
      cases hip : args.containerIp with
      | none => exact .inr rfl
      | some ip => exact absurd hip (hoff name ip hname)

/-- Section 3 of `main` leaves a run that names itself. -/
theorem fillConfig_start {args : Args} {name ip : CStr} (hname : args.vethName = some name)
    (hip : args.containerIp = some ip) (hpeer : args.vethPeer = none) (hlegal : LegalName name) :
    (fillConfig args).Returns fun e =>
      ∀ st, e = .ok st → ∃ r : VethRun, r.name = name ∧ st = r.start args ip := by
  refine (fillConfig_configured args).mono ?_
  rintro e (h | ⟨s, hname', hip'⟩ | _ | _) st he
  · rw [hname, hip] at h
    exact absurd h (by simp)
  · obtain rfl := Except.ok.inj he
    obtain rfl := Option.some.inj (hname.symm.trans hname')
    obtain rfl := Option.some.inj (hip.symm.trans hip')
    exact ⟨⟨name, s, hlegal⟩, rfl, by rw [hpeer]; rfl⟩
  · exact nomatch he
  · exact nomatch he

end Barco
