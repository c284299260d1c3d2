import Barco.MainArgs
import Barco.VethNames

/-!
# What the names of the two ends depend on

`generate_random_suffix` draws eight characters into a buffer of sixteen bytes and sets the
last byte only; what stood in between may belong to the string. The names are cut to 15
bytes.

1. `names_determined_iff`: they are made of the user's name and the drawn characters alone,
   unless the user's name is empty and the name of the host's end is made from it.
2. `accepted_names_determined`: so they are after every line that `arg_parse` accepts, as it
   takes no empty name.
-/

namespace Barco

open Effect Prog

/-- The state is what was drawn so far; every other answer is open. -/
def drawCall (chars : List UInt8) : (c : Call) → Answer c → List UInt8
  | .rand, n => chars ++ [suffixChar n]
  | _, _ => chars

def drawKernel : Machine Call Answer (List UInt8) where
  may _ _ := True
  step chars c r chars' := chars' = drawCall chars c r

/-- A run of section 3 that draws `chars` and leaves `st`. -/
def Drawn (args : Args) (chars : List UInt8) (st : MainState) : Prop :=
  Run drawKernel (fillConfig args) [] (.ret (.ok st)) chars

/-- The container's end: the first 15 bytes of `veth-tmp-` and the characters. -/
def tmpBytes (chars : List UInt8) : List UInt8 := (ascii "veth-tmp-" ++ chars).take 15

/-- The host's end: the first 15 bytes of `veth-`, the name, a dash and the characters. -/
def peerBytes (name : CStr) (chars : List UInt8) : List UInt8 :=
  (ascii "veth-" ++ (name.1 ++ 45 :: chars)).take 15

/-- The names are made of the user's name and the eight characters alone: whatever stood on
the stack, two runs that draw the same characters make the same names. -/
structure NamesDetermined (args : Args) (name : CStr) : Prop where
  eight : ∀ chars st, Drawn args chars st → chars.length = 8
  tmp : ∀ chars st, Drawn args chars st →
    st.config.vethTmp.map Subtype.val = some (tmpBytes chars)
  peer : args.vethPeer = none → ∀ chars st, Drawn args chars st →
    st.config.vethPeer.map Subtype.val = some (peerBytes name chars)
  same : ∀ chars st st', Drawn args chars st → Drawn args chars st' →
    st.config.vethTmp = st'.config.vethTmp ∧ st.config.vethPeer = st'.config.vethPeer

/-! ## The characters that survive -/

section Names

variable {chars tail : List UInt8} {suffix name : CStr}

theorem vethTmpName_val (hsuffix : suffix.1 = chars ++ tail) (hlen : chars.length = 8) :
    (vethTmpName suffix).1 = tmpBytes chars := by
  have h9 : (ascii "veth-tmp-").length = 9 := rfl
  have hval : (vethTmpName suffix).1 = ((ascii "veth-tmp-" ++ suffix.1).take 63).take 15 := rfl
  rw [hval, List.take_take, hsuffix, ← List.append_assoc, Nat.min_eq_left (by decide),
    List.take_append_of_le_length (by rw [List.length_append]; omega), tmpBytes]

theorem vethPeerName_eq (name suffix : CStr) :
    (vethPeerName name suffix).1 = (ascii "veth-" ++ (name.1 ++ 45 :: suffix.1)).take 15 := by
  have hval : (vethPeerName name suffix).1 =
      ((ascii "veth-" ++ name.1 ++ [45] ++ suffix.1).take 63).take 15 := rfl
  rw [hval, List.take_take, Nat.min_eq_left (by decide)]
  simp only [List.append_assoc, List.singleton_append]

/-- A name of one byte is enough to fill the 15 bytes. -/
theorem vethPeerName_val (hsuffix : suffix.1 = chars ++ tail) (hlen : chars.length = 8)
    (hname : name.1 ≠ []) : (vethPeerName name suffix).1 = peerBytes name chars := by
  have h5 : (ascii "veth-").length = 5 := rfl
  have hpos : 0 < name.1.length := List.length_pos_iff.mpr hname
  have hsplit : ascii "veth-" ++ (name.1 ++ 45 :: suffix.1) =
      ascii "veth-" ++ (name.1 ++ 45 :: chars) ++ tail := by
    rw [hsuffix]
    simp only [List.append_assoc, List.cons_append]
  rw [vethPeerName_eq, hsplit, List.take_append_of_le_length, peerBytes]
  simp only [List.length_append, List.length_cons]
  omega

end Names

/-! ## The runs of section 3 -/

theorem draw_call {β : Type} {c : Call} {k : Answer c → Sys β} {Q : β → List UInt8 → Prop}
    {chars : List UInt8} (hk : ∀ r, wp drawKernel (k r) Q (drawCall chars c r)) :
    wp drawKernel (sys c >>= k) Q chars :=
  ⟨trivial, fun r _ h => h ▸ hk r⟩

theorem drawChars_draws (n : Nat) (chars : List UInt8) :
    wp drawKernel (drawChars n) (fun cs chars' => chars' = chars ++ cs ∧ cs.length = n ∧
      ∀ b ∈ cs, b ∈ suffixAlphabet) chars := by
  induction n generalizing chars with
  | zero => exact ⟨(List.append_nil _).symm, rfl, nofun⟩
  | succ n ih =>
    refine draw_call fun x => wp_seq (ih _) ?_
    rintro cs _ ⟨rfl, hlen, hmem⟩
    refine ⟨by simp [drawCall], congrArg (· + 1) hlen, fun b hb => ?_⟩
    rcases List.mem_cons.mp hb with rfl | hb
    · exact suffixChar_mem x
    · exact hmem b hb

/-- The suffix starts with the eight characters; what follows them is left over. -/
theorem generateRandomSuffix_draws {buf : List UInt8} (hlen : buf.length = 16) :
    wp drawKernel (generateRandomSuffix buf) (fun bs chars => chars.length = 8 ∧
      ∃ tail, (CStr.ofBuf bs).1 = chars ++ tail) [] := by
  refine wp_seq (drawChars_draws _ []) ?_
  rintro cs chars ⟨hchars, hcs, hmem⟩
  obtain rfl : chars = cs := hchars
  have h8 : chars.length = 8 := by
    rw [hcs, hlen]
    rfl
  have h15 : buf.length - 1 = 15 := by rw [hlen]
  refine ⟨h8, ((buf.drop chars.length).set 7 0).takeWhile (· ≠ 0), ?_⟩
  rw [h15]
  exact ofBuf_drawn _ h8 hmem

/-- What a run of section 3 has put into the configuration. -/
structure NamesOf (args : Args) (name : CStr) (chars : List UInt8) (st : MainState) : Prop where
  eight : chars.length = 8
  suffix : ∃ suffix : CStr, (∃ tail, suffix.1 = chars ++ tail) ∧
    st.config.vethTmp = some (vethTmpName suffix) ∧
    st.config.vethPeer = some (args.vethPeer.getD (vethPeerName name suffix))

theorem fillConfig_draws {args : Args} {name ip : CStr} (hname : args.vethName = some name)
    (hip : args.containerIp = some ip) :
    wp drawKernel (fillConfig args)
      (fun e chars => ∀ st, e = .ok st → NamesOf args name chars st) [] := by
  unfold fillConfig
  rw [hname, hip]
  refine draw_call fun buf => wp_seq (generateRandomSuffix_draws buf.2) ?_
  rintro bs chars ⟨h8, htail⟩
  have halloc : wp drawKernel (allocPeer args) (fun _ chars' => chars' = chars) chars := by
    unfold allocPeer
    split
    · exact ⟨trivial, fun _ _ h => h⟩
    · exact ⟨trivial, fun _ _ h => h⟩
  refine wp_seq halloc ?_
  rintro (_ | _) _ rfl
  · exact fun st h => nomatch h
  · refine draw_call ?_
    rintro (_ | _)
    · exact fun st h => nomatch h
    · intro st h
      obtain rfl := Except.ok.inj h
      exact ⟨h8, CStr.ofBuf bs, htail, rfl, rfl⟩

/-- The two names are determined where the user's name is not empty or names the host's
end itself. -/
theorem namesDetermined_of {args : Args} {name ip : CStr} (hname : args.vethName = some name)
    (hip : args.containerIp = some ip) (h : name.1 ≠ [] ∨ args.vethPeer.isSome) :
    NamesDetermined args name := by
  have hof : ∀ chars st, Drawn args chars st → NamesOf args name chars st := fun chars st hrun =>
    wp_run (fillConfig_draws hname hip) hrun st rfl
  have htmp : ∀ chars st, Drawn args chars st →
      st.config.vethTmp.map Subtype.val = some (tmpBytes chars) := by
    intro chars st hrun
    obtain ⟨h8, suffix, ⟨tail, hsuffix⟩, htmp, -⟩ := hof chars st hrun
    rw [htmp, Option.map_some, vethTmpName_val hsuffix h8]
  have hpeer : args.vethPeer = none → ∀ chars st, Drawn args chars st →
      st.config.vethPeer.map Subtype.val = some (peerBytes name chars) := by
    intro hnone chars st hrun
    obtain ⟨h8, suffix, ⟨tail, hsuffix⟩, -, hpeer⟩ := hof chars st hrun
    have hne : name.1 ≠ [] := h.resolve_right (by rw [hnone]; decide)
    rw [hpeer, hnone, Option.map_some, Option.getD_none, vethPeerName_val hsuffix h8 hne]
  refine ⟨fun chars st hrun => (hof chars st hrun).eight, htmp, hpeer, ?_⟩
  intro chars st st' hrun hrun'
  have hinj := Option.map_injective Subtype.val_injective (α := CStr)
  refine ⟨hinj ((htmp chars st hrun).trans (htmp chars st' hrun').symm), ?_⟩
  cases hnone : args.vethPeer with
  | none => exact hinj ((hpeer hnone chars st hrun).trans (hpeer hnone chars st' hrun').symm)
  | some peer =>
    obtain ⟨-, _, -, -, hpeer⟩ := hof chars st hrun
    obtain ⟨-, _, -, -, hpeer'⟩ := hof chars st' hrun'
    rw [hpeer, hpeer', hnone]
    rfl

/-! ## The empty name -/

/-- Every call is granted, every draw is an `a`, and the stack is full of `b`. -/
def stackAnswer (b : UInt8) (_ : List UInt8) : (c : Call) → Option (Answer c)
  | .uninit n => some ⟨List.replicate n b, List.length_replicate⟩
  | c => granted c

/-- The suffix drawn on such a stack. -/
def stackSuffix (b : UInt8) : CStr := .ofBuf ((List.replicate 8 97 ++ List.replicate 8 b).set 15 0)

theorem drawn_on_stack (b : UInt8) {args : Args} {name ip : CStr}
    (hname : args.vethName = some name) (hip : args.containerIp = some ip)
    (hpeer : args.vethPeer = none) :
    Drawn args (List.replicate 8 97) (((networkState args name ip).withPeer
      (vethPeerName name (stackSuffix b))).withTmp (vethTmpName (stackSuffix b))) := by
  refine run_play (stackAnswer b) drawCall (fun _ _ _ _ => rfl) ?_
  simp only [fillConfig, hname, hip, allocPeer, hpeer]
  rfl

/-- The names are determined exactly when the user's name is not empty or the host's end
has a name of its own. -/
theorem names_determined_iff (args : Args) (name ip : CStr) (hname : args.vethName = some name)
    (hip : args.containerIp = some ip) :
    NamesDetermined args name ↔ name.1 ≠ [] ∨ args.vethPeer.isSome := by
  refine ⟨fun h => ?_, namesDetermined_of hname hip⟩
  by_contra hno
  obtain ⟨hempty, hpeer⟩ := not_or.mp hno
  obtain rfl : name = emptyStr := Subtype.ext (not_not.mp hempty)
  have hpeer : args.vethPeer = none := Option.not_isSome_iff_eq_none.mp hpeer
  have hsame := (h.same _ _ _ (drawn_on_stack 0 hname hip hpeer)
    (drawn_on_stack 98 hname hip hpeer)).2
  exact absurd (Option.some.inj hsame) (by decide)

/-! ## The names of a line -/

/-- On every line that `arg_parse` accepts the user's name is not empty, and the names depend
on it and the drawn characters alone. -/
theorem accepted_names_determined (posixlyCorrect binaryPrefix : Bool) (argv0 : CStr)
    (words : List CStr) {n : Nat} {table : ArgTable} {args : Args} {name ip : CStr}
    (hdone : argParse posixlyCorrect binaryPrefix n (argv0.1 :: plainWords words) barcoTable =
      .done table) (hnone : table.endtable.errors = []) (hargs : argsOf table = some args)
    (hname : args.vethName = some name) (hip : args.containerIp = some ip) :
    name.1 ≠ [] ∧ NamesDetermined args name := by
  have hne := vethName_ne_nil hdone hnone hargs hname
  exact ⟨hne, (names_determined_iff args name ip hname hip).mpr (.inl hne)⟩

/-- A line with networking, with this word for `--veth`. -/
def vethLine (veth : CStr) : List CStr :=
  [⟨ascii "--uid=0", by decide⟩, ⟨ascii "-m/rootfs", by decide⟩, ⟨ascii "-c/bin/sh", by decide⟩,
    veth, ⟨ascii "--container-ip=10.0.0.2/24", by decide⟩]

def webWord : CStr := ⟨ascii "--veth=web", by decide⟩
def emptyWord : CStr := ⟨ascii "--veth=", by decide⟩

theorem accepted_names_determined_web : ∃ table args,
    argParse false true 6 (ascii "barco" :: plainWords (vethLine webWord)) barcoTable =
        .done table ∧
      table.endtable.errors = [] ∧ argsOf table = some args ∧ args.vethName = some webName ∧
      args.containerIp = some webIp ∧ NamesDetermined args webName ∧
      ∃ st, Drawn args (List.replicate 8 97) st := by
  have hends : (argParse false true 6 (ascii "barco" :: plainWords (vethLine webWord))
      barcoTable).result.map (fun table => table.endtable.errors) = some [] := by decide +kernel
  have htaken : ((argParse false true 6 (ascii "barco" :: plainWords (vethLine webWord))
      barcoTable).result.bind argsOf).map
      (fun args => [args.vethName, args.vethPeer, args.containerIp]) =
      some [some webName, none, some webIp] := by decide +kernel
  obtain ⟨table, hresult, hnone⟩ := Option.map_eq_some_iff.mp hends
  rw [hresult, Option.bind_some] at htaken
  have hdone := Parsed.result_eq_some.mp hresult
  obtain ⟨args, hargs, hnames⟩ := Option.map_eq_some_iff.mp htaken
  simp only [List.cons.injEq, and_true] at hnames
  obtain ⟨hname, hpeer, hip⟩ := hnames
  exact ⟨table, args, hdone, hnone, hargs, hname, hip,
    (accepted_names_determined false true ⟨ascii "barco", by decide⟩ (vethLine webWord) hdone
      hnone hargs hname hip).2, _, drawn_on_stack 0 hname hip hpeer⟩

/-- `--veth=` is an error, and no accepted line gives the empty name; with it, the ninth byte
of the stack would be the 15th of the host's end. -/
theorem empty_name_refused :
    (argParse false true 6 (ascii "barco" :: plainWords (vethLine emptyWord))
        barcoTable).result.map (fun table => table.endtable.errors) =
      some [⟨ARG_EMISSARG, none, some (ascii "--veth=")⟩] ∧
    (∀ (posixlyCorrect binaryPrefix : Bool) (argv0 : CStr) (words : List CStr) (n : Nat)
      (table : ArgTable) (args : Args),
      argParse posixlyCorrect binaryPrefix n (argv0.1 :: plainWords words) barcoTable =
        .done table → table.endtable.errors = [] → argsOf table = some args →
      args.vethName ≠ some emptyStr) ∧
      ¬ NamesDetermined { webArgs with vethName := some emptyStr } emptyStr := by
  refine ⟨by decide +kernel, ?_, ?_⟩
  · intro posixlyCorrect binaryPrefix argv0 words n table args hdone hnone hargs hname
    exact vethName_ne_nil hdone hnone hargs hname rfl
  · intro h
    rcases (names_determined_iff _ emptyStr webIp rfl rfl).mp h with hne | hpeer
    · exact hne rfl
    · cases hpeer

end Barco
