import Barco.Effect.Machine
import Barco.Main
import Mathlib.Data.Nat.Find

/-!
# The two loops that wait for an interface

`wait_for_interface` tests the clock before it polls: 50 polls in 5000 ms. The loop of
`container_start` polls before it tests the clock, 51 times, and the clock alone decides
afterwards. `wait_loops_agree_iff`: the two agree on a sequence of answers, and report a
timeout only when they saw nothing, unless the interface appears at the 51st poll.
-/

namespace Barco

open Effect Prog

/-- `if_nametoindex` answers from the sequence `a`; the state is the number of polls. -/
def pollCall (a : Nat → Nat) (n : Nat) : (c : Call) → Answer c → Nat → Prop
  | .ifNametoindex _, idx, n' => idx = a n ∧ n' = n + 1
  | _, _, n' => n' = n

/-- The kernel of the two loops: they poll and sleep. -/
def pollKernel (a : Nat → Nat) : Machine Call Answer Nat where
  may _ c := (∃ ifname, c = .ifNametoindex ifname) ∨ c = .usleep 100000
  step n c r n' := pollCall a n c r n'

/-- The polls from `n` up to `m` see nothing. -/
def Unseen (a : Nat → Nat) (n m : Nat) : Prop := ∀ i, n ≤ i → i < m → a i = 0

/-- Whatever fuel above the needed one it gets, the loop returns, and always the value `r`
after `n` polls. -/
def EndsWith {β : Type} (a : Nat → Nat) (loop : Nat → Sys β) (r : β) (n : Nat) : Prop :=
  ∀ fuel, 51 ≤ fuel → Run (pollKernel a) (loop fuel) 0 (.ret r) n ∧
    ∀ r' n', Run (pollKernel a) (loop fuel) 0 (.ret r') n' → r' = r ∧ n' = n

/-- Both loops end, a timeout is reported only when no poll saw the interface, and either
both report one or none does. -/
def WaitLoopsAgree (ifname : CStr) (a : Nat → Nat) : Prop :=
  ∃ idx n waited m, EndsWith a (fun fuel => waitLoop ifname 5000 fuel 0) idx n ∧
    EndsWith a (fun fuel => pollInterface ifname fuel 0) waited m ∧
    (idx = 0 → Unseen a 0 n) ∧ (5000 ≤ waited → Unseen a 0 m) ∧ (idx = 0 ↔ 5000 ≤ waited)

/-! ## The results of the loops -/

section Loops

variable {a : Nat → Nat} {n m i : Nat} {ifname : CStr}

theorem pollKernel_answers (n : Nat) (c : Call) (h : (pollKernel a).may n c) :
    ∃ r n', (pollKernel a).step n c r n' := by
  rcases h with ⟨ifname, rfl⟩ | rfl
  · exact ⟨a n, n + 1, rfl, rfl⟩
  · exact ⟨(), n, rfl⟩

theorem Unseen.cons (h : Unseen a (n + 1) m) (hn : a n = 0) : Unseen a n m := by
  intro i hi him
  by_cases heq : i = n
  · exact heq ▸ hn
  · exact h i (by omega) him

theorem Unseen.none (h : m ≤ n) : Unseen a n m := fun i hi him => absurd him (by omega)

/-- What `wait_for_interface` returns after `m` polls from the `n`-th on. -/
inductive WaitResult (a : Nat → Nat) (n : Nat) : Nat → Nat → Prop
  | found {i : Nat} : n ≤ i → i < 50 → Unseen a n i → a i ≠ 0 → WaitResult a n (a i) (i + 1)
  | timeout : Unseen a n 50 → WaitResult a n 0 50

/-- The milliseconds that the loop of `container_start` counts: 100 for each poll but the
last one, which sees the interface or is the 51st. -/
inductive PollResult (a : Nat → Nat) (n : Nat) : Nat → Nat → Prop
  | last {i : Nat} : n ≤ i → i ≤ 50 → Unseen a n i → a i ≠ 0 ∨ i = 50 →
      PollResult a n (100 * i) (i + 1)

theorem waitLoop_polls (ifname : CStr) (fuel n : Nat) (hn : n ≤ 50) (hfuel : 50 < fuel + n) :
    wp (pollKernel a) (waitLoop ifname 5000 fuel (100 * n)) (WaitResult a n) n := by
  induction fuel generalizing n with
  | zero => omega
  | succ fuel ih =>
    unfold waitLoop
    split
    · refine ⟨.inl ⟨ifname, rfl⟩, ?_⟩
      rintro _ _ ⟨rfl, rfl⟩
      show wp _ (if a n ≠ 0 then _ else _) _ _
      split
      · exact .found (Nat.le_refl n) (by omega) (.none (Nat.le_refl n)) ‹_›
      · rename_i hzero
        have hzero : a n = 0 := not_not.mp hzero
        refine ⟨.inr rfl, ?_⟩
        rintro _ _ rfl
        refine wp_mono (ih (n + 1) (by omega) (by omega)) ?_
        rintro _ _ (⟨hi, hlt, hunseen, hseen⟩ | hunseen)
        · exact .found (by omega) hlt (hunseen.cons hzero) hseen
        · exact .timeout (hunseen.cons hzero)
    · obtain rfl : n = 50 := by omega
      exact .timeout (.none (Nat.le_refl 50))

theorem pollInterface_polls (ifname : CStr) (fuel n : Nat) (hn : n ≤ 50) (hfuel : 50 < fuel + n) :
    wp (pollKernel a) (pollInterface ifname fuel (100 * n)) (PollResult a n) n := by
  induction fuel generalizing n with
  | zero => omega
  | succ fuel ih =>
    refine ⟨.inl ⟨ifname, rfl⟩, ?_⟩
    rintro _ _ ⟨rfl, rfl⟩
    show wp _ (if a n = 0 ∧ 100 * n < 5000 then _ else _) _ _
    split
    · rename_i hgo
      refine ⟨.inr rfl, ?_⟩
      rintro _ _ rfl
      refine wp_mono (ih (n + 1) (by omega) (by omega)) ?_
      rintro _ _ ⟨hi, hle, hunseen, hlast⟩
      exact .last (by omega) hle (hunseen.cons hgo.1) hlast
    · rename_i hstop
      exact .last (Nat.le_refl n) hn (.none (Nat.le_refl n)) (by omega)

/-- A loop with one possible result ends with it. -/
theorem endsWith_of_wp {β : Type} {loop : Nat → Sys β} {Q : β → Nat → Prop} {r : β}
    (hwp : ∀ fuel, 51 ≤ fuel → wp (pollKernel a) (loop fuel) Q 0) (hr : Q r n)
    (huniq : ∀ r' n', Q r' n' → r' = r ∧ n' = n) : EndsWith a loop r n := by
  intro fuel hfuel
  obtain ⟨r', n', hrun, hQ⟩ := wp_total pollKernel_answers (hwp fuel hfuel)
  obtain ⟨rfl, rfl⟩ := huniq r' n' hQ
  exact ⟨hrun, fun r'' n'' hrun' => huniq r'' n'' (wp_run (hwp fuel hfuel) hrun')⟩

/-- The first visible poll is one. -/
theorem Unseen.first_unique {j : Nat} (hi : Unseen a n i) (hj : Unseen a n j) (hni : n ≤ i)
    (hnj : n ≤ j) (hseen : a i ≠ 0) (hseen' : a j ≠ 0) : i = j := by
  rcases Nat.lt_trichotomy i j with h | h | h
  · exact absurd (hj i hni h) hseen
  · exact h
  · exact absurd (hi j hnj h) hseen'

theorem WaitResult.unique {r r' m' : Nat} (h : WaitResult a n r m) (h' : WaitResult a n r' m') :
    r' = r ∧ m' = m := by
  cases h with
  | found hni hi hunseen hseen =>
    cases h' with
    | found hnj hj hunseen' hseen' =>
      obtain rfl := hunseen'.first_unique hunseen hnj hni hseen' hseen
      exact ⟨rfl, rfl⟩
    | timeout hnone => exact absurd (hnone _ hni hi) hseen
  | timeout hnone =>
    cases h' with
    | found hnj hj hunseen' hseen' => exact absurd (hnone _ hnj hj) hseen'
    | timeout _ => exact ⟨rfl, rfl⟩

theorem PollResult.unique {w w' m' : Nat} (h : PollResult a n w m) (h' : PollResult a n w' m') :
    w' = w ∧ m' = m := by
  cases h with
  | @last i hni hi hunseen hlast =>
    cases h' with
    | @last j hnj hj hunseen' hlast' =>
      have heq : i = j := by
        rcases Nat.lt_trichotomy i j with hlt | heq | hgt
        · exact absurd (hunseen' i hni hlt) (hlast.resolve_right (by omega))
        · exact heq
        · exact absurd (hunseen j hnj hgt) (hlast'.resolve_right (by omega))
      subst heq
      exact ⟨rfl, rfl⟩

theorem waitLoop_endsWith {r : Nat} (h : WaitResult a 0 r m) :
    EndsWith a (fun fuel => waitLoop ifname 5000 fuel 0) r m :=
  endsWith_of_wp (fun fuel hfuel => waitLoop_polls ifname fuel 0 (by decide) (by omega)) h
    fun _ _ => h.unique

theorem pollInterface_endsWith {w : Nat} (h : PollResult a 0 w m) :
    EndsWith a (fun fuel => pollInterface ifname fuel 0) w m :=
  endsWith_of_wp (fun fuel hfuel => pollInterface_polls ifname fuel 0 (by decide) (by omega)) h
    fun _ _ => h.unique

theorem EndsWith.unique {β : Type} {loop : Nat → Sys β} {r r' : β} (h : EndsWith a loop r n)
    (h' : EndsWith a loop r' m) : r' = r ∧ m = n :=
  (h 51 (Nat.le_refl 51)).2 r' m (h' 51 (Nat.le_refl 51)).1

/-- Some poll before the 51st sees the interface, or none of the first 50 does. -/
theorem first_seen (a : Nat → Nat) :
    (∃ i < 50, Unseen a 0 i ∧ a i ≠ 0) ∨ Unseen a 0 50 := by
  by_cases h : ∃ i, i < 50 ∧ a i ≠ 0
  · refine .inl ⟨Nat.find h, (Nat.find_spec h).1, fun i _ hi => ?_, (Nat.find_spec h).2⟩
    have hmin := Nat.find_min h hi
    have := (Nat.find_spec h).1
    by_contra hne
    exact hmin ⟨by omega, hne⟩
  · refine .inr fun i _ hi => ?_
    by_contra hne
    exact h ⟨i, hi, hne⟩

end Loops

/-- The two loops agree and miss nothing, but for an interface that appears at the 51st
poll: `container_start` sees it there and reports a timeout. -/
theorem wait_loops_agree_iff (ifname : CStr) (a : Nat → Nat) :
    WaitLoopsAgree ifname a ↔ ¬ (Unseen a 0 50 ∧ a 50 ≠ 0) := by
  constructor
  · rintro ⟨idx, n, waited, m, -, hpoll, -, honly, -⟩ ⟨hunseen, hseen⟩
    have hlast : PollResult a 0 (100 * 50) 51 := .last (Nat.zero_le _) (Nat.le_refl _) hunseen (.inr rfl)
    obtain ⟨rfl, rfl⟩ := hpoll.unique (pollInterface_endsWith hlast)
    exact hseen (honly (Nat.le_refl _) 50 (Nat.zero_le _) (by decide))
  · intro hno
    rcases first_seen a with ⟨i, hi, hunseen, hseen⟩ | hunseen
    · refine ⟨a i, i + 1, 100 * i, i + 1,
        waitLoop_endsWith (.found (Nat.zero_le i) hi hunseen hseen),
        pollInterface_endsWith (.last (Nat.zero_le i) (by omega) hunseen (.inl hseen)),
        fun h => absurd h hseen, fun h => absurd h (by omega), ?_⟩
      exact ⟨fun h => absurd h hseen, fun h => absurd h (by omega)⟩
    · have hzero : a 50 = 0 := by
        by_contra hseen
        exact hno ⟨hunseen, hseen⟩
      refine ⟨0, 50, 5000, 51, waitLoop_endsWith (.timeout hunseen),
        pollInterface_endsWith (.last (i := 50) (Nat.zero_le _) (Nat.le_refl _) hunseen (.inr rfl)),
        fun _ => hunseen, fun _ i _ hi => ?_, fun _ => Nat.le_refl _, fun _ => rfl⟩
      by_cases h : i = 50
      · exact h ▸ hzero
      · exact hunseen i (Nat.zero_le i) (by omega)

/-- The interface appears after five seconds, at the 51st poll. -/
theorem late_interface_missed : ¬ WaitLoopsAgree eth0 fun n => if n = 50 then 3 else 0 := by
  rintro ⟨idx, n, waited, m, -, hpoll, -, honly, -⟩
  have hunseen : Unseen (fun n => if n = 50 then 3 else 0) 0 50 := fun i _ hi =>
    if_neg (Nat.ne_of_lt hi)
  have hlast : PollResult (fun n => if n = 50 then 3 else 0) 0 (100 * 50) 51 :=
    .last (Nat.zero_le _) (Nat.le_refl _) hunseen (.inr rfl)
  obtain ⟨rfl, rfl⟩ := hpoll.unique (pollInterface_endsWith hlast)
  exact absurd (honly (Nat.le_refl _) 50 (Nat.zero_le _) (by decide)) (by decide)

end Barco
