import Barco.SecKernel

/-!
# What the filter denies

`Blocked` is the documented list of blocked calls. The filter that
`sec_set_seccomp` loads agrees with it call by call but for `ioctl`: the rule
compares the request with `TIOCSTI` under the mask `TIOCSTI`, which is a test
of one bit for a flag, but not for a request code of three bits.

1. `filterDenies_iff`: the filter denies the listed calls, and the `ioctl`
   requests that contain the bits of `TIOCSTI`.
2. `filter_documented_iff`: the exact calls on which the filter and the list
   agree.
3. `window_size_denied`: `TIOCGWINSZ` is denied.
-/

namespace Barco

open Effect Prog Seccomp

/-- `TIOCSTI` as the kernel reads a request: the low half of the register. -/
def tiocsti : BitVec 32 := 0x5412

/-- The system calls that are blocked for all arguments. -/
def blockedAlways : List Nat :=
  [Sysno.keyctl, Sysno.addKey, Sysno.requestKey, Sysno.ptrace, Sysno.mbind, Sysno.migratePages,
    Sysno.movePages, Sysno.setMempolicy, Sysno.userfaultfd, Sysno.perfEventOpen]

/-- A mode with the set-user-id or the set-group-id bit. -/
def SetId (mode : BitVec 64) : Prop := mode &&& S_ISUID ≠ 0 ∨ mode &&& S_ISGID ≠ 0

/-- The documented list of blocked calls. -/
def Blocked (nr : Nat) (regs : Regs) : Prop :=
  (nr = Sysno.chmod ∨ nr = Sysno.fchmod) ∧ SetId (regs 1) ∨
  nr = Sysno.fchmodat ∧ SetId (regs 2) ∨
  (nr = Sysno.unshare ∨ nr = Sysno.clone) ∧ regs 0 &&& CLONE_NEWUSER ≠ 0 ∨
  nr = Sysno.ioctl ∧ (regs 1).setWidth 32 = tiocsti ∨
  nr ∈ blockedAlways

instance (nr : Nat) (regs : Regs) : Decidable (Blocked nr regs) :=
  inferInstanceAs (Decidable ((_ ∨ _) ∧ (_ ∨ _) ∨ _ ∧ (_ ∨ _) ∨ (_ ∨ _) ∧ _ ∨ _ ∧ _ ∨ _))

/-- What the list says about a call. -/
def documentedAction (nr : Nat) (regs : Regs) : ScmpAction :=
  if Blocked nr regs then secScmpFail else .allow

/-- The request contains the bits of `TIOCSTI` in the whole register. -/
def HasTiocsti (request : BitVec 64) : Prop := request &&& TIOCSTI = TIOCSTI

instance (request : BitVec 64) : Decidable (HasTiocsti request) :=
  inferInstanceAs (Decidable (_ = _))

/-! ## The rules as a predicate -/

/-- Every rule of the filter has the same action. -/
theorem secRules_action : ∀ rule ∈ secRules, rule.action = secScmpFail := by decide

theorem S_ISUID_bit (x : BitVec 64) : x &&& S_ISUID = S_ISUID ↔ x &&& S_ISUID ≠ 0 :=
  masked_bit (i := 11) (by decide) (by decide) x

theorem S_ISGID_bit (x : BitVec 64) : x &&& S_ISGID = S_ISGID ↔ x &&& S_ISGID ≠ 0 :=
  masked_bit (i := 10) (by decide) (by decide) x

theorem CLONE_NEWUSER_bit (x : BitVec 64) :
    x &&& CLONE_NEWUSER = CLONE_NEWUSER ↔ x &&& CLONE_NEWUSER ≠ 0 :=
  masked_bit (i := 28) (by decide) (by decide) x

/-- The mask of the rule reads the low half of the register only. -/
theorem and_TIOCSTI (x : BitVec 64) : x &&& TIOCSTI = (x.setWidth 32 &&& tiocsti).setWidth 64 := by
  have hmask : TIOCSTI = tiocsti.setWidth 64 := by decide
  rw [hmask]
  refine BitVec.eq_of_getLsbD_eq fun i hi => ?_
  by_cases h : i < 32
  · simp [h, hi]
  · simp [h, hi, BitVec.getLsbD_of_ge tiocsti i (by omega)]

/-- A `TIOCSTI` request contains the bits of `TIOCSTI`. -/
theorem hasTiocsti_of_setWidth {x : BitVec 64} (h : x.setWidth 32 = tiocsti) : HasTiocsti x := by
  unfold HasTiocsti
  rw [and_TIOCSTI, h]
  decide

theorem maskedRule_fires (n : Nat) (i : Fin 6) (v : BitVec 64) (nr : Nat) (regs : Regs) :
    (maskedRule n i v).fires nr regs = true ↔ nr = n ∧ regs i &&& v = v := by
  rw [Rule.fires_iff]
  simp [maskedRule]

theorem plainRules_fire (ns : List Nat) (nr : Nat) (regs : Regs) :
    (ns.map plainRule).any (·.fires nr regs) = true ↔ nr ∈ ns := by
  simp [Rule.fires_iff, plainRule]

/-- The two rules about set-id modes in one argument of one call. -/
theorem setIdRules_fire (n : Nat) (i : Fin 6) (nr : Nat) (regs : Regs) :
    [maskedRule n i S_ISUID, maskedRule n i S_ISGID].any (·.fires nr regs) = true ↔
      nr = n ∧ SetId (regs i) := by
  simp only [List.any_cons, List.any_nil, Bool.or_false, Bool.or_eq_true, maskedRule_fires,
    S_ISUID_bit, S_ISGID_bit, SetId, and_or_left]

/-- The two rules about new user namespaces. -/
theorem newUserRules_fire (nr : Nat) (regs : Regs) :
    [maskedRule Sysno.unshare 0 CLONE_NEWUSER, maskedRule Sysno.clone 0 CLONE_NEWUSER].any
        (·.fires nr regs) = true ↔
      (nr = Sysno.unshare ∨ nr = Sysno.clone) ∧ regs 0 &&& CLONE_NEWUSER ≠ 0 := by
  simp only [List.any_cons, List.any_nil, Bool.or_false, Bool.or_eq_true, maskedRule_fires,
    CLONE_NEWUSER_bit, or_and_right]

/-- The filter, rule group by rule group. -/
theorem secRules_groups :
    secRules = [maskedRule Sysno.chmod 1 S_ISUID, maskedRule Sysno.chmod 1 S_ISGID] ++
      ([maskedRule Sysno.fchmod 1 S_ISUID, maskedRule Sysno.fchmod 1 S_ISGID] ++
      ([maskedRule Sysno.fchmodat 2 S_ISUID, maskedRule Sysno.fchmodat 2 S_ISGID] ++
      ([maskedRule Sysno.unshare 0 CLONE_NEWUSER, maskedRule Sysno.clone 0 CLONE_NEWUSER] ++
      ([maskedRule Sysno.ioctl 1 TIOCSTI] ++ blockedAlways.map plainRule)))) := rfl

/-- What the filter denies: the list, and every `ioctl` request that contains
the bits of `TIOCSTI`. -/
theorem filterDenies_iff (nr : Nat) (regs : Regs) :
    secRules.any (·.fires nr regs) = true ↔
      Blocked nr regs ∨ nr = Sysno.ioctl ∧ HasTiocsti (regs 1) := by
  have hti : (regs 1).setWidth 32 = tiocsti → HasTiocsti (regs 1) := hasTiocsti_of_setWidth
  have hioctl : [maskedRule Sysno.ioctl 1 TIOCSTI].any (·.fires nr regs) = true ↔
      nr = Sysno.ioctl ∧ HasTiocsti (regs 1) := by
    simp only [List.any_cons, List.any_nil, Bool.or_false, maskedRule_fires, HasTiocsti]
  rw [secRules_groups]
  simp only [List.any_append, Bool.or_eq_true, setIdRules_fire, newUserRules_fire, hioctl,
    plainRules_fire, Blocked, or_and_right]
  constructor
  · rintro (h | h | h | h | h | h)
    · exact .inl (.inl (.inl h))
    · exact .inl (.inl (.inr h))
    · exact .inl (.inr (.inl h))
    · exact .inl (.inr (.inr (.inl h)))
    · exact .inr h
    · exact .inl (.inr (.inr (.inr (.inr h))))
  · rintro (((h | h) | h | h | ⟨hnr, h⟩ | h) | h)
    · exact .inl h
    · exact .inr (.inl h)
    · exact .inr (.inr (.inl h))
    · exact .inr (.inr (.inr (.inl h)))
    · exact .inr (.inr (.inr (.inr (.inl ⟨hnr, hti h⟩))))
    · exact .inr (.inr (.inr (.inr (.inr h))))
    · exact .inr (.inr (.inr (.inr (.inl h))))

/-- The filter that `sec_set_seccomp` builds, as a function of the call. -/
theorem secFilter_eval (nr : Nat) (regs : Regs) :
    secFilter.eval nr regs =
      if Blocked nr regs ∨ nr = Sysno.ioctl ∧ HasTiocsti (regs 1) then secScmpFail else .allow := by
  rw [Filter.eval_eq_of_uniform secRules_action]
  exact if_congr (filterDenies_iff nr regs) rfl rfl

/-! ## Agreement with the list -/

/-- An `ioctl` that is not `TIOCSTI` and whose request contains its bits. -/
def Overdenied (nr : Nat) (regs : Regs) : Prop :=
  nr = Sysno.ioctl ∧ HasTiocsti (regs 1) ∧ (regs 1).setWidth 32 ≠ tiocsti

instance (nr : Nat) (regs : Regs) : Decidable (Overdenied nr regs) :=
  inferInstanceAs (Decidable (_ ∧ _ ∧ _))

/-- No rule but the one for `ioctl` is about `ioctl`. -/
theorem blocked_ioctl (regs : Regs) :
    Blocked Sysno.ioctl regs ↔ (regs 1).setWidth 32 = tiocsti := by
  simp [Blocked, blockedAlways, Sysno.ioctl, Sysno.chmod, Sysno.fchmod, Sysno.fchmodat,
    Sysno.unshare, Sysno.clone, Sysno.keyctl, Sysno.addKey, Sysno.requestKey, Sysno.ptrace,
    Sysno.mbind, Sysno.migratePages, Sysno.movePages, Sysno.setMempolicy, Sysno.userfaultfd,
    Sysno.perfEventOpen]

/-- Every filter that `sec_set_seccomp` leaves with the result 0 decides a call
as the list documents it, unless the call is an `ioctl` whose request contains
the bits of `TIOCSTI` and is another request. -/
theorem filter_documented_iff {s t : SecState} {f : Seccomp.Filter ScmpAction}
    (hrun : Run secKernel secSetSeccomp s (.ret 0) t) (hf : t.loaded = some f)
    (nr : Nat) (regs : Regs) :
    f.eval nr regs = documentedAction nr regs ↔ ¬ Overdenied nr regs := by
  have hloaded := (wp_run (secSetSeccomp_spec s) hrun rfl).1
  obtain rfl : secFilter = f := Option.some.inj (hloaded.symm.trans hf)
  rw [secFilter_eval, documentedAction]
  by_cases hio : nr = Sysno.ioctl
  · subst hio
    simp only [blocked_ioctl]
    unfold Overdenied
    by_cases hti : (regs 1).setWidth 32 = tiocsti
    · simp [hti]
    · by_cases hbits : HasTiocsti (regs 1) <;> simp [hti, hbits, secScmpFail]
  · simp [Overdenied, hio]

/-- The state before the two functions: the child is in its new user namespace. -/
def secStart : SecState := ⟨.full, none, none, none⟩

theorem secSetSeccomp_granted :
    Run secKernel secSetSeccomp secStart (.ret 0) { secStart with loaded := some secFilter } :=
  run_play (fun _ => granted) secPost (fun _ _ _ _ => rfl) rfl

/-- The registers of `ioctl(0, TIOCGWINSZ, …)`. -/
def windowSizeRegs : Regs := fun i => if i = 1 then 0x5413 else 0

/-- The loaded filter denies `TIOCGWINSZ`, which is not on the list. -/
theorem window_size_denied :
    ∃ (t : SecState) (f : Seccomp.Filter ScmpAction),
      Run secKernel secSetSeccomp secStart (.ret 0) t ∧ t.loaded = some f ∧
        f.eval Sysno.ioctl windowSizeRegs = .errno EPERM ∧
        ¬ Blocked Sysno.ioctl windowSizeRegs :=
  ⟨_, _, secSetSeccomp_granted, rfl, by decide, by decide⟩

/-- The request 0x5401 (`TCGETS`) lacks a bit of `TIOCSTI`: the filter decides
it as documented. -/
theorem filter_documented_tcgets :
    secFilter.eval Sysno.ioctl (fun i => if i = 1 then 0x5401 else 0) =
        documentedAction Sysno.ioctl (fun i => if i = 1 then 0x5401 else 0) ↔
      ¬ Overdenied Sysno.ioctl (fun i => if i = 1 then 0x5401 else 0) :=
  filter_documented_iff secSetSeccomp_granted rfl _ _

end Barco
