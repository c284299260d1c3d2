import Mathlib.Data.Int.GCD
import Mathlib.Data.Nat.ModEq
import Mathlib.Logic.Equiv.Basic

/-!
# Exchanging two adjacent blocks in place

Two adjacent blocks, of `a` and `b` positions from `s` on, change places. Each
position moves along `next`, and the cells of a cycle are carried on by
exchanging one after the other with the cell that the cycle starts from. There
are `gcd a b` cycles, all of one length, and they start at neighbours.

1. `next_eq`: from `s` on, a position moves by `b` modulo the common length.
2. `cycle_next`: one cycle carries every cell of its residue class on.
3. `exchange_apply`: all of them exchange the blocks.
-/

namespace BlockExchange

variable {α : Type}

/-- Where the content of a position belongs: behind `e`, the end of the first block, it
moves down by the length of the first block, before it up by that of the second. -/
def next (e a b pos : Nat) : Nat := if e ≤ pos then pos - a else pos + b

/-- The cells `p` and `c` exchanged. -/
def swapAt (f : Nat → α) (p c : Nat) : Nat → α := fun q => f (Equiv.swap p c q)

/-- `j` steps from `pos` on the cycle of `c`. -/
def cycle (e a b c : Nat) : Nat → Nat → (Nat → α) → Nat → α
  | 0, _, f => f
  | j + 1, pos, f => cycle e a b c j (next e a b pos) (swapAt f (next e a b pos) c)

/-- The first `i` cycles, each of `len` steps. -/
def cycles (e a b len : Nat) : Nat → (Nat → α) → Nat → α
  | 0, f => f
  | i + 1, f => cycle e a b (e + i) len (e + i) (cycles e a b len i f)

/-- All the cycles of two blocks from `s` on. -/
def exchange (s a b : Nat) (f : Nat → α) : Nat → α :=
  cycles (s + a) a b ((a + b) / Nat.gcd a b) (Nat.gcd a b) f

theorem swapAt_left (f : Nat → α) (p c : Nat) : swapAt f p c p = f c := by
  rw [swapAt, Equiv.swap_apply_left]

theorem swapAt_right (f : Nat → α) (p c : Nat) : swapAt f p c c = f p := by
  rw [swapAt, Equiv.swap_apply_right]

theorem swapAt_of_ne {f : Nat → α} {p c q : Nat} (hp : q ≠ p) (hc : q ≠ c) :
    swapAt f p c q = f q := by
  rw [swapAt, Equiv.swap_apply_of_ne_of_ne hp hc]

/-! ## The walk -/

section Walk

variable {s a b r : Nat}

/-- From `s` on, the walk goes round. -/
theorem next_eq (hr : r < a + b) : next (s + a) a b (s + r) = s + (r + b) % (a + b) := by
  unfold next
  by_cases h : a ≤ r
  · have hmod : (r + b) % (a + b) = r - a := by
      have hsplit : r + b = (r - a) + (a + b) := by omega
      rw [hsplit, Nat.add_mod_right, Nat.mod_eq_of_lt (by omega)]
    rw [if_pos (by omega), hmod]
    omega
  · rw [if_neg (by omega), Nat.mod_eq_of_lt (by omega)]
    omega

/-- The `k`-th position from `s + r` on. -/
def spot (s a b r k : Nat) : Nat := s + (r + k * b) % (a + b)

theorem spot_zero (hr : r < a + b) : spot s a b r 0 = s + r := by
  rw [spot, Nat.zero_mul, Nat.add_zero, Nat.mod_eq_of_lt hr]

theorem next_spot (hn : 0 < a + b) (k : Nat) :
    next (s + a) a b (spot s a b r k) = spot s a b r (k + 1) := by
  rw [spot, next_eq (Nat.mod_lt _ hn), Nat.mod_add_mod, Nat.add_assoc, ← Nat.succ_mul]
  rfl

/-- After `(a + b) / gcd a b` steps the walk is where it started. -/
theorem spot_add_len (r k : Nat) :
    spot s a b r (k + (a + b) / Nat.gcd a b) = spot s a b r k := by
  have hdvd : Nat.gcd a b ∣ b := Nat.gcd_dvd_right a b
  have hdvd' : Nat.gcd a b ∣ a + b := Nat.dvd_add (Nat.gcd_dvd_left a b) hdvd
  have hround : (a + b) / Nat.gcd a b * b = (a + b) * (b / Nat.gcd a b) := by
    rw [Nat.div_mul_right_comm hdvd', Nat.mul_div_assoc _ hdvd]
  rw [spot, spot, Nat.add_mul, hround, ← Nat.add_assoc, Nat.add_mul_mod_self_left]

/-- Before that it comes nowhere twice. -/
theorem spot_inj {k k' : Nat} (hn : 0 < a + b) (hk : k < (a + b) / Nat.gcd a b)
    (hk' : k' < (a + b) / Nat.gcd a b) (h : spot s a b r k = spot s a b r k') : k = k' := by
  have hmod : r + k * b ≡ r + k' * b [MOD a + b] := Nat.add_left_cancel h
  have hmul : b * k ≡ b * k' [MOD a + b] := by
    rw [Nat.mul_comm b, Nat.mul_comm b]
    exact Nat.ModEq.add_left_cancel' r hmod
  have hcancel := Nat.ModEq.cancel_left_div_gcd hn hmul
  have hgcd : Nat.gcd (a + b) b = Nat.gcd a b := Nat.gcd_add_self_left b a
  rw [hgcd] at hcancel
  exact hcancel.eq_of_lt_of_lt hk hk'

/-- It comes everywhere in its residue class. -/
theorem exists_spot {q : Nat} (ha : 0 < a) (hb : 0 < b) (hr : r < a + b) (hq : q < a + b)
    (h : q % Nat.gcd a b = r % Nat.gcd a b) :
    ∃ k, k < (a + b) / Nat.gcd a b ∧ spot s a b r k = s + q := by
  have hgpos : 0 < Nat.gcd a b := Nat.gcd_pos_of_pos_left b ha
  have hdvd : Nat.gcd a b ∣ a + b := Nat.dvd_add (Nat.gcd_dvd_left a b) (Nat.gcd_dvd_right a b)
  have hlen : 0 < (a + b) / Nat.gcd a b := Nat.div_pos (Nat.le_of_dvd (by omega) hdvd) hgpos
  have hgcd : Nat.gcd b (a + b) = Nat.gcd a b := by
    rw [Nat.gcd_add_self_right, Nat.gcd_comm]
  have hlt : Nat.gcd b (a + b) < a + b := by
    rw [hgcd]
    exact Nat.lt_of_le_of_lt (Nat.gcd_le_right a hb) (by omega)
  -- some number of steps goes on by `gcd a b`, and a multiple of it goes from `r` to `q`
  obtain ⟨m, -, hm⟩ := Nat.exists_mul_mod_eq_gcd hlt
  rw [hgcd] at hm
  have hm' : b * m ≡ Nat.gcd a b [MOD a + b] := by
    rw [Nat.ModEq, hm, Nat.mod_eq_of_lt (hgcd ▸ hlt)]
  obtain ⟨t, ht⟩ : Nat.gcd a b ∣ q + (a + b) - r := by
    refine (Nat.modEq_iff_dvd' (by omega)).mp ?_
    have hzero : a + b ≡ 0 [MOD Nat.gcd a b] := (Nat.modEq_zero_iff_dvd).mpr hdvd
    exact h.symm.trans (hzero.symm.add_left q)
  have hgo : spot s a b r (m * t) = s + q := by
    have hmod : r + m * t * b ≡ q [MOD a + b] := by
      have hmul : m * t * b = b * m * t := by rw [Nat.mul_comm, Nat.mul_assoc]
      have hround : q + (a + b) ≡ q [MOD a + b] := Nat.add_mod_right q (a + b)
      have hsum : r + Nat.gcd a b * t = q + (a + b) := by rw [← ht]; omega
      rw [hmul]
      exact ((hm'.mul_right t).add_left r).trans (hsum ▸ hround)
    rw [spot, hmod, Nat.mod_eq_of_lt hq]
  have hperiod : ∀ u k, spot s a b r (k + u * ((a + b) / Nat.gcd a b)) = spot s a b r k := by
    intro u k
    induction u with
    | zero => rw [Nat.zero_mul, Nat.add_zero]
    | succ u ih => rw [Nat.succ_mul, ← Nat.add_assoc, spot_add_len, ih]
  refine ⟨m * t % ((a + b) / Nat.gcd a b), Nat.mod_lt _ hlen, ?_⟩
  rw [← hgo, ← hperiod (m * t / ((a + b) / Nat.gcd a b)), Nat.mod_add_div']

/-- It does not leave that class. -/
theorem spot_mod (hn : 0 < a + b) (k : Nat) :
    ∃ q, q < a + b ∧ spot s a b r k = s + q ∧ q % Nat.gcd a b = r % Nat.gcd a b := by
  have hdvd : Nat.gcd a b ∣ a + b := Nat.dvd_add (Nat.gcd_dvd_left a b) (Nat.gcd_dvd_right a b)
  refine ⟨(r + k * b) % (a + b), Nat.mod_lt _ hn, rfl, ?_⟩
  obtain ⟨t, ht⟩ := Nat.gcd_dvd_right a b
  have hk : k * b = Nat.gcd a b * (k * t) := by
    conv_lhs => rw [ht]
    rw [Nat.mul_left_comm]
  rw [Nat.mod_mod_of_dvd _ hdvd, hk, Nat.add_mul_mod_self_left]

end Walk

/-! ## One cycle -/

section Cycle

variable {s a b r : Nat} {f₀ f : Nat → α}

/-- After `k` steps of a cycle: the content of each position passed is one on, that of the
last is held at the start, and nothing else has moved. -/
structure Carried (s a b r : Nat) (f₀ f : Nat → α) (k : Nat) : Prop where
  carried : ∀ i < k, f (spot s a b r (i + 1)) = f₀ (spot s a b r i)
  held : f (spot s a b r 0) = f₀ (spot s a b r k)
  rest : ∀ q, (∀ i ≤ k, q ≠ spot s a b r i) → f q = f₀ q

theorem Carried.zero : Carried s a b r f₀ f₀ 0 :=
  ⟨fun _ h => absurd h (Nat.not_lt_zero _), rfl, fun _ _ => rfl⟩

theorem Carried.step {k : Nat} (h : Carried s a b r f₀ f k) (hn : 0 < a + b)
    (hk : k + 1 < (a + b) / Nat.gcd a b) :
    Carried s a b r f₀ (swapAt f (spot s a b r (k + 1)) (spot s a b r 0)) (k + 1) where
  carried i hi := by
    rcases Nat.lt_succ_iff_lt_or_eq.mp hi with hlt | rfl
    · rw [swapAt_of_ne (fun heq => ?_) (fun heq => ?_), h.carried i hlt]
      · have := spot_inj hn (by omega) hk heq
        omega
      · have := spot_inj hn (by omega) (by omega) heq
        omega
    · rw [swapAt_left, h.held]
  held := by
    rw [swapAt_right]
    refine h.rest _ fun i hi heq => ?_
    have := spot_inj hn hk (by omega) heq
    omega
  rest q hq := by
    rw [swapAt_of_ne (hq _ (Nat.le_refl _)) (hq 0 (Nat.zero_le _))]
    exact h.rest q fun i hi => hq i (Nat.le_succ_of_le hi)

/-- The rest of a cycle. -/
theorem cycle_carried {j k : Nat} (h : Carried s a b r f₀ f k) (hn : 0 < a + b)
    (hj : k + (j + 1) = (a + b) / Nat.gcd a b) :
    Carried s a b r f₀
      (cycle (s + a) a b (spot s a b r 0) (j + 1) (spot s a b r k) f) (k + j) := by
  induction j generalizing k f with
  | zero =>
    have hlast : spot s a b r (k + 1) = spot s a b r 0 := by
      rw [← spot_add_len r 0, Nat.zero_add, hj]
    have hself : swapAt f (spot s a b r 0) (spot s a b r 0) = f := by
      funext q
      rw [swapAt, Equiv.swap_self, Equiv.refl_apply]
    rw [cycle, next_spot hn, hlast, hself]
    exact h
  | succ j ih =>
    rw [cycle, next_spot hn]
    have hrest := ih (h.step hn (by omega)) (by omega)
    rwa [Nat.add_assoc, Nat.add_comm 1 j] at hrest

/-- A whole cycle from `s + r` on carries the positions of one residue class along `next`. -/
theorem cycle_next (ha : 0 < a) (hb : 0 < b) (hr : r < a + b) (f : Nat → α) (q : Nat)
    (hq : q < a + b) (h : q % Nat.gcd a b = r % Nat.gcd a b) :
    cycle (s + a) a b (s + r) ((a + b) / Nat.gcd a b) (s + r) f (next (s + a) a b (s + q)) =
      f (s + q) := by
  have hn : 0 < a + b := by omega
  obtain ⟨k, hk, hspot⟩ := exists_spot (s := s) ha hb hr hq h
  obtain ⟨j, hj⟩ : ∃ j, 0 + (j + 1) = (a + b) / Nat.gcd a b :=
    ⟨(a + b) / Nat.gcd a b - 1, by omega⟩
  have hall := cycle_carried (f := f) (s := s) (r := r) Carried.zero hn hj
  rw [spot_zero hr, Nat.zero_add] at hall
  rw [← hj, ← hspot, next_spot hn, Nat.zero_add]
  rcases Nat.lt_succ_iff_lt_or_eq.mp (show k < j + 1 by omega) with hlt | rfl
  · exact hall.carried k hlt
  · have hlast : spot s a b r (k + 1) = spot s a b r 0 := by
      rw [← spot_add_len r 0, Nat.zero_add, ← hj, Nat.zero_add]
    rw [hlast]
    exact hall.held

/-- It leaves the others alone. -/
theorem cycle_other (hb : 0 < b) (hr : r < a + b) (f : Nat → α) (p : Nat)
    (h : ∀ q < a + b, q % Nat.gcd a b = r % Nat.gcd a b → p ≠ s + q) :
    cycle (s + a) a b (s + r) ((a + b) / Nat.gcd a b) (s + r) f p = f p := by
  have hn : 0 < a + b := by omega
  have hdvd : Nat.gcd a b ∣ a + b := Nat.dvd_add (Nat.gcd_dvd_left a b) (Nat.gcd_dvd_right a b)
  have hlen : 0 < (a + b) / Nat.gcd a b :=
    Nat.div_pos (Nat.le_of_dvd hn hdvd) (Nat.gcd_pos_of_pos_right a hb)
  obtain ⟨j, hj⟩ : ∃ j, 0 + (j + 1) = (a + b) / Nat.gcd a b :=
    ⟨(a + b) / Nat.gcd a b - 1, by omega⟩
  have hall := cycle_carried (f := f) (s := s) (r := r) Carried.zero hn hj
  rw [spot_zero hr, Nat.zero_add] at hall
  rw [← hj, Nat.zero_add]
  refine hall.rest p fun i _ heq => ?_
  obtain ⟨q, hq, hspot, hmod⟩ := spot_mod (s := s) (r := r) hn i
  exact h q hq hmod (heq.trans hspot)

end Cycle

/-! ## All cycles -/

section Cycles

variable {s a b : Nat} {f f' : Nat → α}

/-- The residue classes below `i` are carried on, and nothing else has moved. -/
structure CarriedBelow (s a b : Nat) (f f' : Nat → α) (i : Nat) : Prop where
  moved : ∀ q < a + b, q % Nat.gcd a b < i → f' (next (s + a) a b (s + q)) = f (s + q)
  still : ∀ q < a + b, i ≤ q % Nat.gcd a b → f' (s + q) = f (s + q)
  outside : ∀ p, (∀ q < a + b, p ≠ s + q) → f' p = f p

theorem CarriedBelow.zero : CarriedBelow s a b f f 0 :=
  ⟨fun _ _ h => absurd h (Nat.not_lt_zero _), fun _ _ _ => rfl, fun _ _ => rfl⟩

/-- A step keeps the residue class. -/
theorem exists_next (hn : 0 < a + b) (q : Nat) (hq : q < a + b) :
    ∃ q', q' < a + b ∧ next (s + a) a b (s + q) = s + q' ∧
      q' % Nat.gcd a b = q % Nat.gcd a b := by
  obtain ⟨q', hq', hspot, hmod⟩ := spot_mod (s := s) (r := q) hn 1
  refine ⟨q', hq', ?_, hmod⟩
  rw [← hspot, next_eq hq, spot, Nat.one_mul]

theorem CarriedBelow.step {i : Nat} (h : CarriedBelow s a b f f' i) (ha : 0 < a) (hb : 0 < b)
    (hi : i < Nat.gcd a b) :
    CarriedBelow s a b f
      (cycle (s + a) a b (s + a + i) ((a + b) / Nat.gcd a b) (s + a + i) f') (i + 1) := by
  have hle : Nat.gcd a b ≤ b := Nat.gcd_le_right a hb
  have hr : a + i < a + b := by omega
  have hres : (a + i) % Nat.gcd a b = i := by
    obtain ⟨t, ht⟩ := Nat.gcd_dvd_left a b
    have hsum : a + i = i + Nat.gcd a b * t := by rw [← ht, Nat.add_comm]
    rw [hsum, Nat.add_mul_mod_self_left, Nat.mod_eq_of_lt hi]
  rw [Nat.add_assoc]
  constructor
  · intro q hq hlt
    rcases Nat.lt_succ_iff_lt_or_eq.mp hlt with hold | heq
    · -- carried by an earlier cycle: this one stays in another class
      obtain ⟨q', hq', hnext, hmod⟩ := exists_next (s := s) (by omega) q hq
      rw [cycle_other hb hr, h.moved q hq hold]
      intro p hp hclass hne
      have : p = q' := by omega
      rw [this, hmod, hres] at hclass
      omega
    · rw [cycle_next ha hb hr f' q hq (by rw [heq, hres]), h.still q hq (by omega)]
  · intro q hq hle
    rw [cycle_other hb hr, h.still q hq (by omega)]
    intro p hp hclass hne
    have : p = q := by omega
    rw [this, hres] at hclass
    omega
  · intro p hp
    rw [cycle_other hb hr, h.outside p hp]
    intro q hq _ heq
    exact hp q hq heq

theorem cycles_carried (ha : 0 < a) (hb : 0 < b) (f : Nat → α) {i : Nat}
    (hi : i ≤ Nat.gcd a b) :
    CarriedBelow s a b f (cycles (s + a) a b ((a + b) / Nat.gcd a b) i f) i := by
  induction i with
  | zero => exact .zero
  | succ i ih => exact (ih (by omega)).step ha hb hi

/-- The two blocks have changed places, and nothing else has moved. -/
theorem exchange_apply (ha : 0 < a) (hb : 0 < b) (f : Nat → α) (p : Nat) :
    exchange s a b f p =
      if p < s then f p
      else if p < s + b then f (p + a)
      else if p < s + (a + b) then f (p - b)
      else f p := by
  have hall := cycles_carried (s := s) ha hb f (Nat.le_refl (Nat.gcd a b))
  have hpos : 0 < Nat.gcd a b := Nat.gcd_pos_of_pos_left b ha
  have houtside : (∀ q < a + b, p ≠ s + q) → exchange s a b f p = f p := hall.outside p
  have hmoved : ∀ q < a + b, next (s + a) a b (s + q) = p → exchange s a b f p = f (s + q) := by
    intro q hq hnext
    rw [← hnext]
    exact hall.moved q hq (Nat.mod_lt _ hpos)
  by_cases hbefore : p < s
  · rw [if_pos hbefore]
    exact houtside fun q _ => by omega
  rw [if_neg hbefore]
  by_cases hfirst : p < s + b
  · have hfrom : s + (p - s + a) = p + a := by omega
    have hnext : next (s + a) a b (s + (p - s + a)) = p := by
      unfold next
      rw [if_pos (by omega)]
      omega
    rw [if_pos hfirst, ← hfrom]
    exact hmoved (p - s + a) (by omega) hnext
  rw [if_neg hfirst]
  by_cases hsecond : p < s + (a + b)
  · have hfrom : s + (p - s - b) = p - b := by omega
    have hnext : next (s + a) a b (s + (p - s - b)) = p := by
      unfold next
      rw [if_neg (by omega)]
      omega
    rw [if_pos hsecond, ← hfrom]
    exact hmoved (p - s - b) (by omega) hnext
  · rw [if_neg hsecond]
    exact houtside fun q _ => by omega

end Cycles

end BlockExchange
