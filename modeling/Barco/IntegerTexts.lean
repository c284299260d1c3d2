import Barco.ArgTable
import Barco.GroupSharing
import Mathlib.Data.List.TakeWhile

/-!
# Integers on the command line

`arg_int` tries hexadecimal, octal and binary digits behind a prefix before decimal
ones, and `strtol` stays within 64 bits. A decimal text has no prefix, so it is read as
it stands, or refused when it is no `int`.

1. `strtol0X_decimal`, `strtolBase_decimal`: the two ways to read the text.
2. `int_text_exact`: the text of every integer.
-/

namespace Barco

/-- The text of an integer. -/
def decimalText (v : Int) : List UInt8 :=
  if v < 0 then chDash :: pidBytes v.natAbs else pidBytes v.natAbs

/-- A decimal digit is no sign, no space and no letter of a prefix. -/
structure Decimal (c : UInt8) : Prop where
  digit : isDigit 10 c = true
  value : digitValue c = c.toNat - 48
  space : isSpace c = false
  sign : c ≠ chDash ∧ c ≠ chPlus
  letter : ∀ x ∈ ([88, 79, 66] : List UInt8), toUpper c ≠ toUpper x

theorem decimal_of_bounds {c : UInt8} (h : (48 ≤ c && c ≤ 57) = true) : Decimal c := by
  have hall : ∀ c ∈ ([48, 49, 50, 51, 52, 53, 54, 55, 56, 57] : List UInt8),
      isDigit 10 c = true ∧ digitValue c = c.toNat - 48 ∧ isSpace c = false ∧
        (c ≠ chDash ∧ c ≠ chPlus) ∧
        ∀ x ∈ ([88, 79, 66] : List UInt8), toUpper c ≠ toUpper x := by decide +kernel
  have hmem : c ∈ ([48, 49, 50, 51, 52, 53, 54, 55, 56, 57] : List UInt8) := by
    obtain ⟨hlow, hhigh⟩ := (Bool.and_eq_true _ _).mp h
    have hlow' := UInt8.le_iff_toNat_le.mp (of_decide_eq_true hlow)
    have hhigh' := UInt8.le_iff_toNat_le.mp (of_decide_eq_true hhigh)
    simp only [List.mem_cons, ← UInt8.toNat_inj, List.not_mem_nil, or_false]
    simp only [UInt8.reduceToNat] at *
    omega
  obtain ⟨hdigit, hvalue, hspace, hsign, hletter⟩ := hall c hmem
  exact ⟨hdigit, hvalue, hspace, hsign, hletter⟩

theorem pidBytes_decimal (n : Nat) : pidBytes n ≠ [] ∧ (∀ c ∈ pidBytes n, Decimal c) ∧
    numberValue 10 (pidBytes n) = n := by
  have hnumber := number_pidBytes n
  unfold UserNs.number at hnumber
  split at hnumber
  · next h =>
    have hall : ∀ c ∈ pidBytes n, Decimal c := fun c hc =>
      decimal_of_bounds (List.all_eq_true.mp h.2 c hc)
    refine ⟨h.1, hall, ?_⟩
    refine Eq.trans ?_ (Option.some.inj hnumber)
    refine List.foldl_ext _ _ 0 fun acc c hc => ?_
    rw [(hall c hc).value]
  · cases hnumber

section Text

variable {binaryPrefix : Bool} {digits : List UInt8}

theorem scanSign_decimal (hne : digits ≠ []) (h : ∀ c ∈ digits, Decimal c) :
    scanSign (digits.dropWhile isSpace) = (1, digits) ∧
      scanSign ((chDash :: digits).dropWhile isSpace) = (-1, digits) := by
  obtain ⟨c, cs, rfl⟩ := List.exists_cons_of_ne_nil hne
  have hc := h c List.mem_cons_self
  constructor
  · rw [List.dropWhile_cons_of_neg (by simp [hc.space]), scanSign, if_neg hc.sign.1,
      if_neg hc.sign.2]
  · rw [List.dropWhile_cons_of_neg (by decide), scanSign, if_pos rfl]

/-- A decimal text has none of the prefixes. -/
theorem strtol0X_decimal {text : List UInt8} {sign : Int} {x : UInt8} {base : Nat}
    (hscan : scanSign (text.dropWhile isSpace) = (sign, digits)) (h : ∀ c ∈ digits, Decimal c)
    (hx : x ∈ ([88, 79, 66] : List UInt8)) : strtol0X binaryPrefix x base text = none := by
  unfold strtol0X
  rw [hscan]
  dsimp only
  split
  · next c t =>
    have hc := h c (List.mem_cons_of_mem 48 List.mem_cons_self)
    rw [if_neg (hc.letter x hx)]
  · rfl

theorem strtolBase_decimal {text : List UInt8} {sign : Int}
    (hscan : scanSign (text.dropWhile isSpace) = (sign, digits)) (hne : digits ≠ [])
    (h : ∀ c ∈ digits, Decimal c) :
    strtolBase binaryPrefix 10 text =
      some (max (-2 ^ 63) (min (sign * numberValue 10 digits) (2 ^ 63 - 1)), []) := by
  have htake : digits.takeWhile (isDigit 10) = digits :=
    List.takeWhile_eq_self_iff.mpr fun c hc => (h c hc).digit
  have hdrop : digits.dropWhile (isDigit 10) = [] :=
    List.dropWhile_eq_nil_iff.mpr fun c hc => (h c hc).digit
  unfold strtolBase
  rw [hscan]
  dsimp only
  have hother : ¬ ((10 : Nat) = 16) := by decide
  have hother' : ¬ ((10 : Nat) = 2) := by decide
  -- the base has no prefix
  simp only [hother, hother', false_and, or_false, and_false, if_false]
  split
  · rw [htake, hdrop, if_neg hne]
  · rw [htake, hdrop, if_neg hne]

end Text

/-- No way with a prefix reads the text, and `strtol` reads all of it. -/
theorem number_decimalText (binaryPrefix : Bool) (v : Int) :
    (strtol0X binaryPrefix 88 16 (decimalText v)).or
        ((strtol0X binaryPrefix 79 8 (decimalText v)).or
          ((strtol0X binaryPrefix 66 2 (decimalText v)).or
            (strtolBase binaryPrefix 10 (decimalText v)))) =
      some (max (-2 ^ 63) (min v (2 ^ 63 - 1)), []) := by
  obtain ⟨hne, hall, hnumber⟩ := pidBytes_decimal v.natAbs
  obtain ⟨hplus, hminus⟩ := scanSign_decimal hne hall
  obtain ⟨sign, hscan, hsign⟩ : ∃ sign : Int,
      scanSign ((decimalText v).dropWhile isSpace) = (sign, pidBytes v.natAbs) ∧
        sign * v.natAbs = v := by
    unfold decimalText
    by_cases hneg : v < 0
    · rw [if_pos hneg]
      exact ⟨-1, hminus, by omega⟩
    · rw [if_neg hneg]
      exact ⟨1, hplus, by omega⟩
  rw [strtol0X_decimal hscan hall (by decide), strtol0X_decimal hscan hall (by decide),
    strtol0X_decimal hscan hall (by decide), strtolBase_decimal hscan hne hall, hnumber, hsign]
  rfl

theorem scanSuffix_nil : scanSuffix [] = some 1 := by decide +kernel

/-- The text of a value of the type is read as this value. -/
theorem argIntText_int32 (binaryPrefix : Bool) (x : Int32) :
    argIntText binaryPrefix (decimalText x.toInt) = .ok x := by
  have hlow : -2 ^ 31 ≤ x.toInt := x.le_toInt
  have hhigh : x.toInt < 2 ^ 31 := x.toInt_lt
  have hclamp : max (-2 ^ 63) (min x.toInt (2 ^ 63 - 1)) = x.toInt := by omega
  unfold argIntText
  rw [number_decimalText, hclamp]
  dsimp only
  rw [scanSuffix_nil]
  dsimp only
  rw [if_neg (by unfold INT_MAX INT_MIN; omega), if_neg (by simp), Int.mul_one,
    Int32.ofInt_toInt]

/-- The text of an integer is read as this integer when it is an `int`, and refused when it
is none: no value wraps around. -/
theorem int_text_exact (binaryPrefix : Bool) (v : Int) :
    argIntText binaryPrefix (decimalText v) =
      if INT_MIN ≤ v ∧ v ≤ INT_MAX then .ok (Int32.ofInt v) else .error ARG_ERR_OVERFLOW := by
  unfold argIntText
  rw [number_decimalText]
  dsimp only
  rw [scanSuffix_nil]
  dsimp only
  by_cases hfits : INT_MIN ≤ v ∧ v ≤ INT_MAX
  · have hclamp : max (-2 ^ 63) (min v (2 ^ 63 - 1)) = v := by
      unfold INT_MIN INT_MAX at hfits
      omega
    rw [if_pos hfits, hclamp, if_neg (by omega), if_neg (by simp), Int.mul_one]
  · rw [if_neg hfits, if_pos (by unfold INT_MIN INT_MAX at *; omega)]

end Barco
