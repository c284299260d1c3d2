import Barco.Filter
import Mathlib.Logic.Relation

/-!
# Files with a set-id mode

The documented purpose of the first six rules is that no set-user-id or set-group-id file
is made in the container. The rules name the mode argument of `chmod`, `fchmod` and
`fchmodat`. A mode also comes in with `fchmodat2` and with every call that creates a file.

1. `setId_kept_iff`: among the calls that the filter allows, exactly those that bring a
   set-id mode in another way give a file a set-id bit, and without them no run does.
2. `open_makes_setuid`: `open` with `O_CREAT` and the mode 04755.
-/

namespace Barco

open Effect Prog Seccomp

/-! ## The calls -/

/-- The calls that change the mode of a file or create one. -/
inductive ModeCall
  | chmod | fchmod | fchmodat | fchmodat2 | open | openat | openat2 | creat | mknod | mknodat
deriving DecidableEq, Repr

/-- The native x86-64 numbers. -/
def ModeCall.nr : ModeCall → Nat
  | .chmod => Sysno.chmod
  | .fchmod => Sysno.fchmod
  | .fchmodat => Sysno.fchmodat
  | .fchmodat2 => 452
  | .open => 2
  | .openat => 257
  | .openat2 => 437
  | .creat => 85
  | .mknod => 133
  | .mknodat => 259

/-- `struct open_how`, which `openat2` reads from memory. -/
structure OpenHow where
  flags : BitVec 64
  mode : BitVec 64

/-- A call with its registers, and the memory that it reads. -/
structure FsCall where
  name : ModeCall
  regs : Regs
  how : OpenHow

/-- `S_IALLUGO`: the bits of a mode that a call can set. -/
def S_IALLUGO : BitVec 64 := 0o7777

/-- `O_CREAT` or `__O_TMPFILE`. -/
def WillCreate (flags : BitVec 64) : Prop := flags &&& 0o20000100 ≠ 0

instance (flags : BitVec 64) : Decidable (WillCreate flags) := inferInstanceAs (Decidable (_ ≠ _))

namespace FsCall

/-- The mode that the call gives to an existing file. -/
def changeMode (c : FsCall) : Option (BitVec 64) :=
  match c.name with
  | .chmod => some (c.regs 1)
  | .fchmod => some (c.regs 1)
  | .fchmodat => some (c.regs 2)
  | .fchmodat2 => some (c.regs 2)
  | _ => none

/-- The mode with which the call creates a file, if it creates one. `openat2` refuses a mode
with other bits. -/
def createMode (c : FsCall) : Option (BitVec 64) :=
  match c.name with
  | .open => if WillCreate (c.regs 1) then some (c.regs 2) else none
  | .openat => if WillCreate (c.regs 2) then some (c.regs 3) else none
  | .openat2 =>
    if WillCreate c.how.flags ∧ c.how.mode &&& ~~~S_IALLUGO = 0 then some c.how.mode else none
  | .creat => some (c.regs 1)
  | .mknod => some (c.regs 1)
  | .mknodat => some (c.regs 2)
  | _ => none

end FsCall

/-! ## The file system -/

/-- The modes of the files there are. -/
abbrev Files : Type := Nat → Option (BitVec 64)

def Files.set (fs : Files) (file : Nat) (mode : BitVec 64) : Files :=
  Function.update fs file (some mode)

/-- What a call can do to the files: nothing, as when it fails; change the mode of one;
create one with what the umask leaves; or take the set-id bits of one that is opened. -/
inductive FsStep (umask : BitVec 64) (c : FsCall) : Files → Files → Prop
  | same (fs : Files) : FsStep umask c fs fs
  | change {fs : Files} {file : Nat} {old mode : BitVec 64} : c.changeMode = some mode →
      fs file = some old → FsStep umask c fs (fs.set file (mode &&& S_IALLUGO))
  | create {fs : Files} {file : Nat} {mode : BitVec 64} : c.createMode = some mode →
      fs file = none →
      FsStep umask c fs (fs.set file (mode &&& S_IALLUGO &&& ~~~(umask &&& 0o777)))
  | strip {fs : Files} {file : Nat} {old : BitVec 64} : fs file = some old →
      FsStep umask c fs (fs.set file (old &&& ~~~(S_ISUID ||| S_ISGID)))

/-- A set-id bit in the second state was there in the first. -/
def NoNewSetId (fs fs' : Files) : Prop :=
  ∀ bit ∈ [S_ISUID, S_ISGID], ∀ file mode', fs' file = some mode' → mode' &&& bit ≠ 0 →
    ∃ mode, fs file = some mode ∧ mode &&& bit ≠ 0

/-- Under no umask and on no files does the call make a set-id bit. -/
def KeepsSetId (c : FsCall) : Prop :=
  ∀ umask fs fs', FsStep umask c fs fs' → NoNewSetId fs fs'

/-- The call brings in a set-id mode in a way that no rule is about. -/
def PlantsSetId (c : FsCall) : Prop :=
  (∃ mode, c.createMode = some mode ∧ SetId mode) ∨ c.name = .fchmodat2 ∧ SetId (c.regs 2)

/-- One call that the filter lets through. -/
def AllowedStep (f : Seccomp.Filter ScmpAction) (P : FsCall → Prop) (fs fs' : Files) : Prop :=
  ∃ umask c, f.eval c.name.nr c.regs = .allow ∧ P c ∧ FsStep umask c fs fs'

/-! ## The bits -/

section Bits

variable {mode umask : BitVec 64} {bit : BitVec 64}

/-- Changing and creating keep both bits of the mode. -/
theorem and_allugo (hbit : bit ∈ [S_ISUID, S_ISGID]) :
    mode &&& S_IALLUGO &&& bit = mode &&& bit := by
  have hmask : S_IALLUGO &&& bit = bit := by
    rcases List.mem_pair.mp hbit with rfl | rfl <;> decide
  rw [BitVec.and_assoc, hmask]

theorem and_umask (hbit : bit ∈ [S_ISUID, S_ISGID]) :
    mode &&& S_IALLUGO &&& ~~~(umask &&& 0o777) &&& bit = mode &&& bit := by
  have hmask : (0o777 : BitVec 64) &&& bit = 0 := by
    rcases List.mem_pair.mp hbit with rfl | rfl <;> decide
  have hnot : ~~~(umask &&& 0o777) &&& bit = bit := by
    refine BitVec.eq_of_getLsbD_eq fun i hi => ?_
    have hoff : ((0o777 : BitVec 64).getLsbD i && bit.getLsbD i) = false := by
      rw [← BitVec.getLsbD_and, hmask]
      exact BitVec.getLsbD_zero
    simp only [BitVec.getLsbD_and, BitVec.getLsbD_not, hi, decide_true, Bool.true_and]
    generalize (0o777 : BitVec 64).getLsbD i = low at hoff
    generalize bit.getLsbD i = b at hoff
    cases low <;> cases b <;> simp_all
  rw [BitVec.and_assoc, hnot, and_allugo hbit]

theorem strip_bit (hbit : bit ∈ [S_ISUID, S_ISGID]) :
    mode &&& ~~~(S_ISUID ||| S_ISGID) &&& bit = 0 := by
  have hmask : ~~~(S_ISUID ||| S_ISGID) &&& bit = 0 := by
    rcases List.mem_pair.mp hbit with rfl | rfl <;> decide
  rw [BitVec.and_assoc, hmask]
  exact BitVec.and_zero

theorem setId_iff : SetId mode ↔ ∃ bit ∈ [S_ISUID, S_ISGID], mode &&& bit ≠ 0 := by
  simp [SetId]

end Bits

/-! ## One call -/

section Calls

variable {fs : Files} {file : Nat} {c : FsCall} {mode : BitVec 64}

theorem noNewSetId_refl (fs : Files) : NoNewSetId fs fs :=
  fun _ _ _ mode hmode hset => ⟨mode, hmode, hset⟩

theorem NoNewSetId.trans {fs₁ fs₂ fs₃ : Files} (h : NoNewSetId fs₁ fs₂)
    (h' : NoNewSetId fs₂ fs₃) : NoNewSetId fs₁ fs₃ := by
  intro bit hbit file mode hmode hset
  obtain ⟨mode₂, hmode₂, hset₂⟩ := h' bit hbit file mode hmode hset
  exact h bit hbit file mode₂ hmode₂ hset₂

/-- A file that gets a mode without set-id bits has none that is new. -/
theorem noNewSetId_set (h : ∀ bit ∈ [S_ISUID, S_ISGID], mode &&& bit = 0) :
    NoNewSetId fs (fs.set file mode) := by
  intro bit hbit file' mode' hmode' hset
  by_cases heq : file' = file
  · subst heq
    obtain rfl : mode = mode' := by simpa [Files.set] using hmode'
    exact absurd (h bit hbit) hset
  · exact ⟨mode', by simpa [Files.set, heq] using hmode', hset⟩

theorem set_new {bit : BitVec 64} (hbit : bit ∈ [S_ISUID, S_ISGID])
    (hold : ∀ old, fs file = some old → old &&& bit = 0) (hset : mode &&& bit ≠ 0) :
    ¬ NoNewSetId fs (fs.set file mode) := by
  intro h
  obtain ⟨old, hmode, hbad⟩ := h bit hbit file mode (by simp [Files.set]) hset
  exact hbad (hold old hmode)

/-- A mode that the rules are about never gets through. -/
theorem changeMode_allowed (hallow : secFilter.eval c.name.nr c.regs = .allow)
    (hplants : ¬ PlantsSetId c) (hmode : c.changeMode = some mode) : ¬ SetId mode := by
  intro hset
  have hblocked : ¬ Blocked c.name.nr c.regs := by
    intro h
    rw [secFilter_eval, if_pos (.inl h)] at hallow
    cases hallow
  obtain ⟨name, regs, how⟩ := c
  cases name <;> simp only [FsCall.changeMode, Option.some.injEq, reduceCtorEq] at hmode <;>
    subst hmode
  · exact hblocked (.inl ⟨.inl rfl, hset⟩)
  · exact hblocked (.inl ⟨.inr rfl, hset⟩)
  · exact hblocked (.inr (.inl ⟨rfl, hset⟩))
  · exact hplants (.inr ⟨rfl, hset⟩)

theorem keeps_of_not_plants (hallow : secFilter.eval c.name.nr c.regs = .allow)
    (hplants : ¬ PlantsSetId c) : KeepsSetId c := by
  have hzero : ∀ {mode}, ¬ SetId mode → ∀ bit ∈ [S_ISUID, S_ISGID], mode &&& bit = 0 := by
    intro mode hno bit hbit
    by_contra hset
    exact hno (setId_iff.mpr ⟨bit, hbit, hset⟩)
  intro umask fs fs' hstep
  cases hstep with
  | same => exact noNewSetId_refl fs
  | change hmode hfile =>
    refine noNewSetId_set fun bit hbit => ?_
    rw [and_allugo hbit]
    exact hzero (changeMode_allowed hallow hplants hmode) bit hbit
  | create hmode hfile =>
    refine noNewSetId_set fun bit hbit => ?_
    rw [and_umask hbit]
    exact hzero (fun hset => hplants (.inl ⟨_, hmode, hset⟩)) bit hbit
  | strip hfile => exact noNewSetId_set fun bit hbit => strip_bit hbit

/-- A call that plants a bit does so on a file without it. -/
theorem not_keeps_of_plants (h : PlantsSetId c) : ¬ KeepsSetId c := by
  intro hkeeps
  rcases h with ⟨mode, hmode, hset⟩ | ⟨hname, hset⟩
  · obtain ⟨bit, hbit, hset⟩ := setId_iff.mp hset
    have hstep : FsStep 0 c (fun _ => none) (Files.set (fun _ => none) 0 _) := .create hmode rfl
    refine set_new hbit ?_ ?_ (hkeeps _ _ _ hstep)
    · exact nofun
    · rwa [and_umask hbit]
  · obtain ⟨bit, hbit, hset⟩ := setId_iff.mp hset
    have hmode : c.changeMode = some (c.regs 2) := by rw [FsCall.changeMode, hname]
    have hstep : FsStep 0 c (fun _ => some 0) (Files.set (fun _ => some 0) 0 _) :=
      .change hmode rfl
    refine set_new hbit ?_ ?_ (hkeeps _ _ _ hstep)
    · rintro old ⟨rfl⟩
      exact BitVec.zero_and
    · rwa [and_allugo hbit]

end Calls

/-! ## The filter -/

/-- Of the calls that the loaded filter allows, exactly those that plant a set-id mode break
what the rules are for; a run of others makes no set-id file. -/
theorem setId_kept_iff {s t : SecState} {f : Seccomp.Filter ScmpAction}
    (hrun : Run secKernel secSetSeccomp s (.ret 0) t) (hf : t.loaded = some f) :
    (∀ c : FsCall, f.eval c.name.nr c.regs = .allow →
      (KeepsSetId c ↔ ¬ PlantsSetId c)) ∧
    ∀ fs fs', Relation.ReflTransGen (AllowedStep f fun c => ¬ PlantsSetId c) fs fs' →
      NoNewSetId fs fs' := by
  have hloaded := (wp_run (secSetSeccomp_spec s) hrun rfl).1
  obtain rfl : secFilter = f := Option.some.inj (hloaded.symm.trans hf)
  refine ⟨fun c hallow => ?_, fun fs fs' hsteps => ?_⟩
  · exact ⟨fun hkeeps hplants => not_keeps_of_plants hplants hkeeps, keeps_of_not_plants hallow⟩
  · induction hsteps with
    | refl => exact noNewSetId_refl fs
    | tail _ hstep ih =>
      obtain ⟨umask, c, hallow, hplants, hstep⟩ := hstep
      exact ih.trans (keeps_of_not_plants hallow hplants umask _ _ hstep)

/-- `open` without `O_CREAT`, whatever the third register holds. -/
def openRead : FsCall := ⟨.open, fun i => if i = 2 then 0o4755 else 0, ⟨0, 0⟩⟩

theorem setId_kept_read : KeepsSetId openRead := by
  have hno : ¬ PlantsSetId openRead := by
    rintro (⟨mode, hmode, -⟩ | ⟨hname, -⟩)
    · have hnone : openRead.createMode = none := by decide
      cases hnone.symm.trans hmode
    · cases hname
  exact ((setId_kept_iff secSetSeccomp_granted rfl).1 openRead (by decide)).mpr hno

/-- `open` with `O_CREAT | O_WRONLY` and the mode 04755. -/
def openSetuid : FsCall :=
  ⟨.open, fun i => if i = 1 then 0o101 else if i = 2 then 0o4755 else 0, ⟨0, 0⟩⟩

/-- The loaded filter allows it, and a set-user-id file appears. -/
theorem open_makes_setuid :
    ∃ (t : SecState) (f : Seccomp.Filter ScmpAction),
      Run secKernel secSetSeccomp secStart (.ret 0) t ∧ t.loaded = some f ∧
        f.eval openSetuid.name.nr openSetuid.regs = .allow ∧
        ∃ fs', FsStep 0o022 openSetuid (fun _ => none) fs' ∧ fs' 0 = some 0o4755 := by
  have hstep : FsStep 0o022 openSetuid (fun _ => none) (Files.set (fun _ => none) 0 _) :=
    .create rfl rfl
  exact ⟨_, _, secSetSeccomp_granted, rfl, by decide, _, hstep, by decide⟩

end Barco
