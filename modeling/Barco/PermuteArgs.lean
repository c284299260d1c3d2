import Barco.Getopt

/-!
# `permute_args` exchanges two blocks

The scanner moves the words it has skipped behind the options it has read by
exchanging two blocks of the vector in place, cycle by cycle. `BlockExchange`
says what the cycles do to the positions. Here they are the cells of a list, and
`permuteArgs_append` is the result on words.
-/

namespace Barco

open BlockExchange

theorem gcdLoop_eq {n a b : Nat} (hb : 0 < b) (hn : b ≤ n) : gcdLoop n a b = Nat.gcd a b := by
  induction n generalizing a b with
  | zero => omega
  | succ n ih =>
    unfold gcdLoop
    by_cases h : a % b = 0
    · rw [if_pos h, Nat.gcd_eq_right (Nat.dvd_of_mod_eq_zero h)]
    · have hlt : a % b < b := Nat.mod_lt _ hb
      rw [if_neg h, ih (Nat.pos_of_ne_zero h) (by omega), Nat.gcd_comm b, ← Nat.gcd_rec,
        Nat.gcd_comm]

theorem gcd_eq {a b : Nat} (hb : 0 < b) : gcd a b = some (Nat.gcd a b) := by
  unfold gcd
  rw [if_neg (Nat.ne_of_gt hb), gcdLoop_eq hb (Nat.le_refl b)]

/-! ## Cells -/

/-- The vector as its cells. -/
def cells (nargv : Argv) : Nat → Option (Option (List UInt8)) := fun q => nargv[q]?

/-- One exchange inside the vector. -/
theorem swapArgs_cells (nargv : Argv) {pos cstart : Nat} (hpos : pos < nargv.length)
    (hc : cstart < nargv.length) :
    ∃ nargv', swapArgs pos cstart nargv = some nargv' ∧ nargv'.length = nargv.length ∧
      cells nargv' = swapAt (cells nargv) pos cstart := by
  refine ⟨(nargv.set pos nargv[cstart]).set cstart nargv[pos], ?_, ?_, ?_⟩
  · unfold swapArgs
    rw [List.getElem?_eq_getElem hpos, List.getElem?_eq_getElem hc]
    rfl
  · rw [List.length_set, List.length_set]
  · funext q
    by_cases hqc : q = cstart
    · subst hqc
      rw [swapAt_right]
      unfold cells
      rw [List.getElem?_set_self (by rwa [List.length_set]), List.getElem?_eq_getElem hpos]
    by_cases hqp : q = pos
    · subst hqp
      rw [swapAt_left]
      unfold cells
      rw [List.getElem?_set_ne (Ne.symm hqc), List.getElem?_set_self hpos,
        List.getElem?_eq_getElem hc]
    · rw [swapAt_of_ne hqp hqc]
      unfold cells
      rw [List.getElem?_set_ne (Ne.symm hqc), List.getElem?_set_ne (Ne.symm hqp)]

section Blocks

variable {s a b : Nat}

/-- The rest of a cycle that runs inside the two blocks. -/
theorem permuteCycle_cells (nargv : Argv) (hn : 0 < a + b) (hlen : s + (a + b) ≤ nargv.length)
    {cstart : Nat} (hc : cstart < nargv.length) (j : Nat) {r : Nat} (hr : r < a + b) :
    ∃ nargv', permuteCycle (s + a) a b cstart j (s + r) nargv = some nargv' ∧
      nargv'.length = nargv.length ∧
      cells nargv' = cycle (s + a) a b cstart j (s + r) (cells nargv) := by
  induction j generalizing nargv r with
  | zero => exact ⟨nargv, rfl, rfl, rfl⟩
  | succ j ih =>
    have hnext : next (s + a) a b (s + r) = s + (r + b) % (a + b) := next_eq hr
    have hlt : (r + b) % (a + b) < a + b := Nat.mod_lt _ hn
    obtain ⟨mid, hmid, hmidLen, hmidCells⟩ :=
      swapArgs_cells nargv (show s + (r + b) % (a + b) < nargv.length by omega) hc
    obtain ⟨nargv', hrun, hlen', hcells⟩ := ih mid (by omega) (by omega) hlt
    refine ⟨nargv', ?_, by omega, ?_⟩
    · unfold permuteCycle
      have hpos : (if s + a ≤ s + r then s + r - a else s + r + b) = s + (r + b) % (a + b) :=
        hnext
      simp only [hpos, hmid]
      exact hrun
    · rw [hcells, hmidCells, cycle, hnext]

/-- The first cycles. -/
theorem permuteCycles_cells {nargv : Argv} (ha : 0 < a) (hb : 0 < b)
    (hlen : s + (a + b) ≤ nargv.length) (len : Nat) {i : Nat} (hi : i ≤ Nat.gcd a b) :
    ∃ nargv', permuteCycles (s + a) a b len i nargv = some nargv' ∧
      nargv'.length = nargv.length ∧ cells nargv' = cycles (s + a) a b len i (cells nargv) := by
  induction i with
  | zero => exact ⟨nargv, rfl, rfl, rfl⟩
  | succ i ih =>
    obtain ⟨mid, hmid, hmidLen, hmidCells⟩ := ih (by omega)
    have hle : Nat.gcd a b ≤ b := Nat.gcd_le_right a hb
    obtain ⟨nargv', hrun, hlen', hcells⟩ :=
      permuteCycle_cells (s := s) (a := a) (b := b) mid (by omega) (by omega)
        (show s + a + i < mid.length by omega) len (r := a + i) (by omega)
    refine ⟨nargv', ?_, by omega, ?_⟩
    · unfold permuteCycles
      rw [hmid]
      rw [← Nat.add_assoc] at hrun
      exact hrun
    · rw [hcells, hmidCells, cycles, Nat.add_assoc]

end Blocks

/-- The two blocks change places, in order, and everything around them stays. -/
theorem permuteArgs_append (front nonopts opts rest : Argv) (hn : nonopts ≠ [])
    (ho : opts ≠ []) :
    permuteArgs front.length (front.length + nonopts.length)
        (front.length + nonopts.length + opts.length) (front ++ nonopts ++ opts ++ rest) =
      some (front ++ opts ++ nonopts ++ rest) := by
  have ha : 0 < nonopts.length := List.length_pos_iff.mpr hn
  have hb : 0 < opts.length := List.length_pos_iff.mpr ho
  have hlen : front.length + (nonopts.length + opts.length) ≤
      (front ++ nonopts ++ opts ++ rest).length := by
    simp only [List.length_append]
    omega
  obtain ⟨nargv, hrun, hlen', hcells⟩ :=
    permuteCycles_cells ha hb hlen
      ((nonopts.length + opts.length) / Nat.gcd nonopts.length opts.length) (Nat.le_refl _)
  have hall : cells nargv = exchange front.length nonopts.length opts.length
      (cells (front ++ nonopts ++ opts ++ rest)) := hcells
  have hout : nargv = front ++ opts ++ nonopts ++ rest := by
    apply List.ext_getElem?
    intro p
    have hp := congrFun hall p
    rw [exchange_apply ha hb] at hp
    unfold cells at hp
    rw [hp]
    by_cases hbefore : p < front.length
    · rw [if_pos hbefore]
      simp only [List.append_assoc, List.getElem?_append_left hbefore]
    rw [if_neg hbefore]
    by_cases hfirst : p < front.length + opts.length
    · rw [if_pos hfirst]
      simp only [List.append_assoc]
      rw [List.getElem?_append_right (by omega), List.getElem?_append_right (by omega),
        List.getElem?_append_left (by omega), List.getElem?_append_right (by omega),
        List.getElem?_append_left (by omega)]
      congr 1
      omega
    rw [if_neg hfirst]
    by_cases hsecond : p < front.length + (nonopts.length + opts.length)
    · rw [if_pos hsecond]
      simp only [List.append_assoc]
      rw [List.getElem?_append_right (by omega), List.getElem?_append_left (by omega),
        List.getElem?_append_right (by omega), List.getElem?_append_right (by omega),
        List.getElem?_append_left (by omega)]
      congr 1
      omega
    · rw [if_neg hsecond]
      simp only [List.append_assoc]
      rw [List.getElem?_append_right (by omega), List.getElem?_append_right (by omega),
        List.getElem?_append_right (by omega), List.getElem?_append_right (by omega),
        List.getElem?_append_right (by omega), List.getElem?_append_right (by omega)]
      congr 1
      omega
  have hnn : front.length + nonopts.length - front.length = nonopts.length := by omega
  have hno : front.length + nonopts.length + opts.length - (front.length + nonopts.length) =
      opts.length := by omega
  have hboth : front.length + nonopts.length + opts.length - front.length =
      nonopts.length + opts.length := by omega
  unfold permuteArgs
  simp only [hnn, hno, hboth, gcd_eq hb, Option.bind_eq_bind, Option.bind_some]
  rw [hrun, hout]

/-- A longer beginning is a shorter one and what is between. -/
theorem take_append_between (nargv : Argv) {i j : Nat} (h : i ≤ j) :
    nargv.take i ++ (nargv.take j).drop i = nargv.take j := by
  have hsplit := List.take_append_drop i (nargv.take j)
  rwa [List.take_take, Nat.min_eq_left h] at hsplit

/-- `permute_args` on any vector and any bounds in it: the words from `nonoptStart` to
`nonoptEnd` come behind those up to `optEnd`, each block in its order. -/
theorem permuteArgs_exchanges (nargv : Argv) (nonoptStart nonoptEnd optEnd : Nat)
    (hnonopts : nonoptStart < nonoptEnd) (hopts : nonoptEnd < optEnd)
    (hend : optEnd ≤ nargv.length) :
    permuteArgs nonoptStart nonoptEnd optEnd nargv =
      some (nargv.take nonoptStart ++ (nargv.take optEnd).drop nonoptEnd ++
        (nargv.take nonoptEnd).drop nonoptStart ++ nargv.drop optEnd) := by
  have hfront : (nargv.take nonoptStart).length = nonoptStart := by
    rw [List.length_take]
    omega
  have hblock : ((nargv.take nonoptEnd).drop nonoptStart).length = nonoptEnd - nonoptStart := by
    rw [List.length_drop, List.length_take]
    omega
  have hblock' : ((nargv.take optEnd).drop nonoptEnd).length = optEnd - nonoptEnd := by
    rw [List.length_drop, List.length_take]
    omega
  have hsplit : nargv.take nonoptStart ++ (nargv.take nonoptEnd).drop nonoptStart ++
      (nargv.take optEnd).drop nonoptEnd ++ nargv.drop optEnd = nargv := by
    rw [take_append_between nargv hnonopts.le, take_append_between nargv hopts.le,
      List.take_append_drop]
  have hrun := permuteArgs_append (nargv.take nonoptStart)
    ((nargv.take nonoptEnd).drop nonoptStart) ((nargv.take optEnd).drop nonoptEnd)
    (nargv.drop optEnd) (List.ne_nil_of_length_pos (by omega))
    (List.ne_nil_of_length_pos (by omega))
  have hmid : nonoptStart + (nonoptEnd - nonoptStart) = nonoptEnd := by omega
  have hlast : nonoptEnd + (optEnd - nonoptEnd) = optEnd := by omega
  rwa [hfront, hblock, hblock', hmid, hlast, hsplit] at hrun

/-- Two operands in front of `-v`, behind the program's name. -/
theorem permuteArgs_exchanges_verbose :
    permuteArgs 1 3 4 [some [98], some [120], some [121], some [45, 118], none] =
      some [some [98], some [45, 118], some [120], some [121], none] :=
  permuteArgs_exchanges [some [98], some [120], some [121], some [45, 118], none] 1 3 4
    (by decide) (by decide) (by decide)

end Barco
