-- Rounding to the nearest integer, where a tie goes to the even one, and decimal digits.
import Mathlib.Algebra.Order.Field.Rat
import Mathlib.Data.List.DropRight
import Mathlib.Data.Rat.Floor
import Mathlib.Tactic.GCongr
import Mathlib.Tactic.Linarith
import Mathlib.Tactic.Positivity

namespace decimals

/-! ## Rounding -/

section rounding

variable {x y : ℚ}

/-- The nearest integer. Of two that are as near, it is the even one. -/
def round_half_even (x : ℚ) : Int :=
  if x - ⌊x⌋ < 1 / 2 then ⌊x⌋
  else if 1 / 2 < x - ⌊x⌋ then ⌊x⌋ + 1
  else if ⌊x⌋ % 2 = 0 then ⌊x⌋ else ⌊x⌋ + 1

theorem floor_le_round (x : ℚ) : ⌊x⌋ ≤ round_half_even x := by
  unfold round_half_even
  split_ifs <;> omega

theorem round_le_floor (x : ℚ) : round_half_even x ≤ ⌊x⌋ + 1 := by
  unfold round_half_even
  split_ifs <;> omega

/-- Between two neighbouring integers it goes up once. -/
theorem round_mono_of_floor (hfloor : ⌊x⌋ = ⌊y⌋) (h : x ≤ y) :
    round_half_even x ≤ round_half_even y := by
  have hrest : x - ⌊x⌋ ≤ y - ⌊y⌋ := by
    rw [hfloor]
    exact sub_le_sub_right h _
  unfold round_half_even
  rw [hfloor] at hrest ⊢
  split_ifs <;> first | omega | linarith

theorem round_int (n : Int) : round_half_even n = n := by
  unfold round_half_even
  rw [Int.floor_intCast, sub_self, if_pos (by norm_num)]

/-- The integer that is less than one half away. -/
theorem round_of_near {n : Int} (h : |x - n| < 1 / 2) : round_half_even x = n := by
  obtain ⟨hlow, hhigh⟩ := abs_lt.mp h
  rcases le_or_gt (n : ℚ) x with hle | hlt
  · have hfloor : ⌊x⌋ = n := Int.floor_eq_iff.mpr ⟨hle, by linarith⟩
    unfold round_half_even
    rw [hfloor, if_pos hhigh]
  · have hfloor : ⌊x⌋ = n - 1 := by
      refine Int.floor_eq_iff.mpr ⟨?_, ?_⟩ <;> push_cast <;> linarith
    unfold round_half_even
    rw [hfloor]
    push_cast
    rw [if_neg (by linarith), if_pos (by linarith)]
    omega

theorem round_mono (h : x ≤ y) : round_half_even x ≤ round_half_even y := by
  rcases (Int.floor_mono h).eq_or_lt with hfloor | hlt
  · exact round_mono_of_floor hfloor h
  · calc round_half_even x ≤ ⌊x⌋ + 1 := round_le_floor x
      _ ≤ ⌊y⌋ := hlt
      _ ≤ round_half_even y := floor_le_round y

/-- The number with so many digits after the point. -/
def to_places (x : ℚ) (places : Nat) : ℚ := round_half_even (x * 10 ^ places) / 10 ^ places

theorem to_places_mono (places : Nat) (h : x ≤ y) : to_places x places ≤ to_places y places := by
  have hmono := round_mono (mul_le_mul_of_nonneg_right h (by positivity : (0 : ℚ) ≤ 10 ^ places))
  unfold to_places
  gcongr

theorem to_places_int (n : Int) (places : Nat) : to_places n places = n := by
  have hscaled : (n : ℚ) * 10 ^ places = (n * 10 ^ places : Int) := by push_cast; rfl
  unfold to_places
  rw [hscaled, round_int, ← hscaled, mul_div_assoc, div_self (by positivity), mul_one]

end rounding

/-! ## Digits -/

/-- The digits of a number without a leading zero. -/
theorem toDigits_head_ne_zero {n : Nat} (h : 0 < n) : (Nat.toDigits 10 n).head? ≠ some '0' := by
  induction n using Nat.strong_induction_on with
  | _ n ih =>
    rcases Nat.lt_or_ge n 10 with hlt | hge
    · have hdigit : ∀ d < 10, 0 < d → [Nat.digitChar d].head? ≠ some '0' := by decide
      rw [Nat.toDigits_of_lt_base hlt]
      exact hdigit n hlt h
    · rw [Nat.toDigits_of_base_le (by omega) hge, List.head?_append_of_ne_nil _ Nat.toDigits_ne_nil]
      exact ih (n / 10) (by omega) (by omega)

theorem isDigit_of_mem_toDigits {n : Nat} {c : Char} (h : c ∈ Nat.toDigits 10 n) :
    c.isDigit = true :=
  Nat.isDigit_of_mem_toDigits (by omega) (le_refl 10) h

/-! ## Decimals -/

/-- Digits with so many of them after the point. -/
structure Decimal where
  mantissa : Nat
  places : Int
deriving DecidableEq

def Decimal.value (d : Decimal) : ℚ := d.mantissa / 10 ^ d.places

/-- The digits up to the last one that is not zero. -/
def significant (n : Nat) : List Char := (Nat.toDigits 10 n).rdropWhile (· == '0')

theorem significant_digits {n : Nat} (h : 0 < n) : ∃ c rest, significant n = c :: rest ∧
    c ≠ '0' ∧ ∀ d ∈ c :: rest, d.isDigit = true := by
  have hhead := toDigits_head_ne_zero h
  have hstart : significant n <+: Nat.toDigits 10 n := List.rdropWhile_prefix _ _
  obtain ⟨first, others, hdigits⟩ := List.exists_cons_of_ne_nil (@Nat.toDigits_ne_nil n 10)
  have hne : significant n ≠ [] := by
    intro hnil
    have hzero := List.rdropWhile_eq_nil_iff.mp hnil first (hdigits ▸ List.mem_cons_self)
    rw [hdigits, List.head?_cons, beq_iff_eq.mp hzero] at hhead
    exact hhead rfl
  obtain ⟨c, rest, hsig⟩ := List.exists_cons_of_ne_nil hne
  refine ⟨c, rest, hsig, ?_, fun d hd => isDigit_of_mem_toDigits (hstart.subset (hsig ▸ hd))⟩
  rintro rfl
  obtain ⟨tail, htail⟩ := hstart
  rw [← htail, hsig] at hhead
  exact hhead rfl

/-- The digits with the point after the first `point` of them. -/
def fixed (sig : List Char) (point : Int) : List Char :=
  if point ≤ 0 then "0.".toList ++ List.replicate (-point).toNat '0' ++ sig
  else if sig.length ≤ point then
    sig ++ List.replicate (point - sig.length).toNat '0' ++ ".0".toList
  else sig.take point.toNat ++ '.' :: sig.drop point.toNat

/-- One digit before the point, and the exponent with two digits or more. -/
def scientific (sig : List Char) (exp : Int) : List Char :=
  let fraction := if sig.length ≤ 1 then [] else '.' :: sig.drop 1
  let exponent := Nat.toDigits 10 exp.natAbs
  sig.take 1 ++ fraction ++ 'e' :: (if exp < 0 then '-' else '+') ::
    ((if exponent.length < 2 then ['0'] else []) ++ exponent)

/-- The sign before the digits. -/
def minus (negative : Bool) : List Char := if negative then ['-'] else []

/-- The layout of `float.__repr__`. -/
def float_repr (negative : Bool) (d : Decimal) : List Char :=
  let point : Int := (Nat.toDigits 10 d.mantissa).length - d.places
  if d.mantissa = 0 then minus negative ++ "0.0".toList
  else if -4 < point ∧ point ≤ 16 then minus negative ++ fixed (significant d.mantissa) point
  else minus negative ++ scientific (significant d.mantissa) (point - 1)

/-- `str` of an integer. -/
def int_repr (n : Int) : List Char := minus (n < 0) ++ Nat.toDigits 10 n.natAbs

end decimals
