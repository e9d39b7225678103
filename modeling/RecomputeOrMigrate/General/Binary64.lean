-- The floats of 64 bits as exact numbers: rounding to the nearest float, the arithmetic, and the
-- rounding to decimal places.
import Mathlib.Data.Int.Log
import Mathlib.Order.WithBot
import Mathlib.Tactic.FieldSimp
import RecomputeOrMigrate.General.Decimals

open decimals

namespace binary64

/-! ## The nearest float -/

/-- The exponent of the last of 53 bits. Near 0 there are fewer. -/
def last_bit (q : ℚ) : Int := max (Int.log 2 q) (-1022) - 52

/-- The nearest number with so many bits. Of two that are as near, it is the even one. -/
def nearest (q : ℚ) : ℚ := round_half_even (q / 2 ^ last_bit q) * 2 ^ last_bit q

section nearest

variable {x y : ℚ} {n e : Int}

theorem power_pos (e : Int) : (0 : ℚ) < 2 ^ e := zpow_pos two_pos e

theorem last_bit_ge (x : ℚ) : -1074 ≤ last_bit x := by
  unfold last_bit
  omega

theorem last_bit_mono (hx : 0 < x) (h : x ≤ y) : last_bit x ≤ last_bit y := by
  have hlog : Int.log 2 x ≤ Int.log 2 y := Int.log_mono_right hx h
  unfold last_bit
  omega

theorem last_bit_le (hx : 0 < x) (he : -1074 ≤ e) (h : x < 2 ^ (e + 53)) : last_bit x ≤ e := by
  have hlog := (Int.lt_zpow_iff_log_lt (b := 2) Nat.one_lt_two hx).mp (by exact_mod_cast h)
  unfold last_bit
  omega

theorem le_last_bit (hx : 0 < x) (h : 2 ^ (e + 52) ≤ x) : e ≤ last_bit x := by
  have hlog := (Int.zpow_le_iff_le_log (b := 2) Nat.one_lt_two hx).mp (by exact_mod_cast h)
  unfold last_bit
  omega

theorem lt_power (x : ℚ) : x < 2 ^ (last_bit x + 53) := by
  have hlt : x < ((2 : Nat) : ℚ) ^ (Int.log 2 x + 1) := Int.lt_zpow_succ_log_self Nat.one_lt_two x
  refine hlt.trans_le ?_
  push_cast
  refine zpow_le_zpow_right₀ (by norm_num) ?_
  unfold last_bit
  omega

/-- Above the smallest floats the first of the 53 bits is 1. -/
theorem power_le (hx : 0 < x) (h : -1074 < last_bit x) : 2 ^ (last_bit x + 52) ≤ x := by
  have hle : ((2 : Nat) : ℚ) ^ Int.log 2 x ≤ x := Int.zpow_log_le_self Nat.one_lt_two hx
  have hlog : last_bit x + 52 = Int.log 2 x := by
    unfold last_bit at h ⊢
    omega
  rw [hlog]
  exact_mod_cast hle

theorem nearest_zero : nearest 0 = 0 := by
  unfold nearest
  rw [zero_div, show (0 : ℚ) = (0 : Int) from rfl, round_int, Int.cast_zero, zero_mul]

theorem nearest_nonneg (h : 0 ≤ x) : 0 ≤ nearest x := by
  have hround : 0 ≤ round_half_even (x / 2 ^ last_bit x) := by
    have hmono := round_mono (div_nonneg h (power_pos (last_bit x)).le)
    rwa [show (0 : ℚ) = (0 : Int) from rfl, round_int] at hmono
  have hcast : (0 : ℚ) ≤ round_half_even (x / 2 ^ last_bit x) := by exact_mod_cast hround
  exact mul_nonneg hcast (power_pos _).le

/-- A number whose bits fit is the nearest to itself. -/
theorem nearest_of_multiple (he : last_bit x ≤ e) (h : x = n * 2 ^ e) : nearest x = x := by
  obtain ⟨k, hk⟩ := Int.eq_ofNat_of_zero_le (sub_nonneg.mpr he)
  have hsplit : (2 : ℚ) ^ e = 2 ^ k * 2 ^ last_bit x := by
    rw [← zpow_natCast, ← zpow_add₀ two_ne_zero]
    congr 1
    omega
  have hscaled : x / 2 ^ last_bit x = (n * 2 ^ k : Int) := by
    rw [div_eq_iff (power_pos _).ne']
    push_cast
    rw [mul_assoc, ← hsplit]
    exact h
  unfold nearest
  rw [hscaled, round_int, ← hscaled, div_mul_cancel₀ _ (power_pos _).ne']

theorem nearest_of_bits (hn : 0 ≤ n) (hlt : n < 2 ^ 53) (he : -1074 ≤ e) :
    nearest (n * 2 ^ e) = n * 2 ^ e := by
  rcases hn.eq_or_lt with rfl | hpos
  · rw [Int.cast_zero, zero_mul, nearest_zero]
  · have hx : (0 : ℚ) < n * 2 ^ e := mul_pos (by exact_mod_cast hpos) (power_pos e)
    refine nearest_of_multiple (last_bit_le hx he ?_) rfl
    calc (n : ℚ) * 2 ^ e < 2 ^ 53 * 2 ^ e :=
          mul_lt_mul_of_pos_right (by exact_mod_cast hlt) (power_pos e)
      _ = 2 ^ (e + 53) := by rw [zpow_add₀ two_ne_zero, mul_comm]; rfl

/-- The nearest float is at most the power of two above the number. -/
theorem nearest_le_power (x : ℚ) : nearest x ≤ 2 ^ (last_bit x + 53) := by
  have hle : x / 2 ^ last_bit x ≤ ((2 ^ 53 : Int) : ℚ) := by
    rw [div_le_iff₀ (power_pos _)]
    refine (lt_power x).le.trans_eq ?_
    rw [zpow_add₀ two_ne_zero, mul_comm]
    norm_num
  have hround := round_mono hle
  rw [round_int] at hround
  have hcast : (round_half_even (x / 2 ^ last_bit x) : ℚ) ≤ 2 ^ 53 := by exact_mod_cast hround
  calc nearest x ≤ 2 ^ 53 * 2 ^ last_bit x :=
        mul_le_mul_of_nonneg_right hcast (power_pos _).le
    _ = 2 ^ (last_bit x + 53) := by rw [zpow_add₀ two_ne_zero, mul_comm]; rfl

theorem power_le_nearest (hx : 0 < x) (h : -1074 < last_bit x) :
    2 ^ (last_bit x + 52) ≤ nearest x := by
  have hle : ((2 ^ 52 : Int) : ℚ) ≤ x / 2 ^ last_bit x := by
    rw [le_div_iff₀ (power_pos _)]
    refine le_trans (le_of_eq ?_) (power_le hx h)
    rw [zpow_add₀ two_ne_zero, mul_comm]
    norm_num
  have hround := round_mono hle
  rw [round_int] at hround
  have hcast : 2 ^ 52 ≤ (round_half_even (x / 2 ^ last_bit x) : ℚ) := by exact_mod_cast hround
  calc (2 : ℚ) ^ (last_bit x + 52) = 2 ^ 52 * 2 ^ last_bit x := by
        rw [zpow_add₀ two_ne_zero, mul_comm]; rfl
    _ ≤ nearest x := mul_le_mul_of_nonneg_right hcast (power_pos _).le

/-- Rounding keeps the order. With the same last bit it is the order of the integers, and else a
power of two lies between. -/
theorem nearest_mono (hx : 0 ≤ x) (h : x ≤ y) : nearest x ≤ nearest y := by
  rcases hx.eq_or_lt with rfl | hpos
  · rw [nearest_zero]
    exact nearest_nonneg h
  rcases (last_bit_mono hpos h).eq_or_lt with hsame | hlt
  · have hscaled : x / 2 ^ last_bit x ≤ y / 2 ^ last_bit x := by
      have := power_pos (last_bit x)
      gcongr
    have hround : (round_half_even (x / 2 ^ last_bit x) : ℚ) ≤
        round_half_even (y / 2 ^ last_bit x) := by
      exact_mod_cast round_mono hscaled
    unfold nearest
    rw [← hsame]
    exact mul_le_mul_of_nonneg_right hround (power_pos _).le
  · calc nearest x ≤ 2 ^ (last_bit x + 53) := nearest_le_power x
      _ ≤ 2 ^ (last_bit y + 52) := zpow_le_zpow_right₀ (by norm_num) (by omega)
      _ ≤ nearest y := by
        have := last_bit_ge x
        exact power_le_nearest (hpos.trans_le h) (by omega)

/-- The nearest float is a float. The 54th bit that rounding up may need is followed by zeros. -/
theorem nearest_nearest (hx : 0 ≤ x) : nearest (nearest x) = nearest x := by
  have he := last_bit_ge x
  have hle := nearest_le_power x
  have hnonneg := nearest_nonneg hx
  unfold nearest at hle hnonneg
  rw [zpow_add₀ two_ne_zero, mul_comm ((2 : ℚ) ^ last_bit x)] at hle
  have hn : 0 ≤ round_half_even (x / 2 ^ last_bit x) := by
    exact_mod_cast nonneg_of_mul_nonneg_left hnonneg (power_pos _)
  have hbits : round_half_even (x / 2 ^ last_bit x) ≤ 2 ^ 53 := by
    exact_mod_cast le_of_mul_le_mul_right hle (power_pos _)
  change nearest (round_half_even (x / 2 ^ last_bit x) * 2 ^ last_bit x) =
    round_half_even (x / 2 ^ last_bit x) * 2 ^ last_bit x
  rcases hbits.eq_or_lt with hfull | hlt
  · have hcarry : (round_half_even (x / 2 ^ last_bit x) : ℚ) * 2 ^ last_bit x =
        (2 ^ 52 : Int) * 2 ^ (last_bit x + 1) := by
      rw [hfull, zpow_add₀ two_ne_zero]
      push_cast
      ring
    rw [hcarry]
    exact nearest_of_bits (by norm_num) (by norm_num) (by omega)
  · exact nearest_of_bits hn hlt he

theorem nearest_of_near (he : last_bit x = e) (h : |x - n * 2 ^ e| < 2 ^ e / 2) :
    nearest x = n * 2 ^ e := by
  have hscaled : |x / 2 ^ e - n| < 1 / 2 := by
    have hdiff : x / 2 ^ e - n = (x - n * 2 ^ e) / 2 ^ e := by
      rw [sub_div, mul_div_cancel_right₀ _ (power_pos e).ne']
    rw [hdiff, abs_div, abs_of_pos (power_pos e), div_lt_iff₀ (power_pos e)]
    linarith
  unfold nearest
  rw [he, round_of_near hscaled]

theorem half_power (e : Int) : (2 : ℚ) ^ e = 2 * 2 ^ (e - 1) := by
  rw [zpow_sub₀ two_ne_zero]
  ring

/-- Below a power of two the floats are twice as dense, so that the last bit is one lower there. -/
theorem nearest_below_power {q : ℚ} (hx : 0 < x) (hq : q = (2 ^ 53 : Int) * 2 ^ e)
    (he : last_bit x ≤ e) (h : |x - q| * (2 * 10 ^ 16) ≤ q) : nearest x = q := by
  have hpow := power_pos e
  have hnear : |x - q| < 2 ^ e / 2 := by
    rw [hq] at h ⊢
    push_cast at h ⊢
    linarith
  have hbit : e ≤ last_bit x := by
    refine le_last_bit hx ?_
    obtain ⟨hlow, -⟩ := abs_lt.mp hnear
    rw [hq] at hlow
    rw [zpow_add₀ two_ne_zero, mul_comm]
    push_cast at hlow
    norm_num at hlow ⊢
    linarith
  rw [hq] at hnear ⊢
  exact nearest_of_near (le_antisymm he hbit) hnear

/-- A float is the nearest to all that is so close to it. -/
theorem nearest_of_close {q : ℚ} (hx : 0 < x) (hq : 0 < q) (hf : nearest q = q)
    (h : |x - q| * (2 * 10 ^ 16) ≤ q) : nearest x = q := by
  obtain ⟨n, e, he, hn⟩ : ∃ n e : Int, last_bit q = e ∧ q = n * 2 ^ e := ⟨_, _, rfl, hf.symm⟩
  have hpow := power_pos e
  have hbelow : q < 2 ^ 53 * 2 ^ e := by
    have hlt := lt_power q
    rw [he, zpow_add₀ two_ne_zero, mul_comm] at hlt
    exact_mod_cast hlt
  have hnear : |x - q| < 2 ^ e / 2 := by linarith
  have hsame : last_bit x = e → nearest x = q := fun hbit =>
    (nearest_of_near hbit (hn ▸ hnear)).trans hn.symm
  obtain ⟨hlow, hhigh⟩ := abs_lt.mp hnear
  rcases le_or_gt q x with hle | hlt
  · have hlast : n ≤ 2 ^ 53 - 1 := by
      rw [hn] at hbelow
      have hlt : n < 2 ^ 53 := by exact_mod_cast lt_of_mul_lt_mul_right hbelow hpow.le
      omega
    have htop : q ≤ (2 ^ 53 - 1) * 2 ^ e :=
      hn ▸ mul_le_mul_of_nonneg_right (by exact_mod_cast hlast) hpow.le
    refine hsame (le_antisymm (last_bit_le hx (he ▸ last_bit_ge q) ?_) (he ▸ last_bit_mono hq hle))
    rw [zpow_add₀ two_ne_zero]
    norm_num
    linarith
  · rcases (he ▸ last_bit_mono hx hlt.le : last_bit x ≤ e).eq_or_lt with hbit | hbit
    · exact hsame hbit
    · -- a power of two lies between, and `q` is not above it
      have hmin := last_bit_ge x
      have hpower : (2 : ℚ) ^ (e + 52) = 2 ^ 52 * 2 ^ e := by
        rw [zpow_add₀ two_ne_zero, mul_comm]
        norm_num
      have habove : 2 ^ 52 * 2 ^ e ≤ q := by
        have hle := power_le hq (by omega)
        rwa [he, hpower] at hle
      have hunder : x < 2 ^ 52 * 2 ^ e := by
        rw [← hpower]
        exact (lt_power x).trans_le (zpow_le_zpow_right₀ (by norm_num) (by omega))
      have hcount : n = 2 ^ 52 := by
        have hlt' : (n : ℚ) * 2 ^ e < (2 ^ 52 + 1) * 2 ^ e := by linarith
        rw [hn] at habove
        have hge : (2 ^ 52 : Int) ≤ n := by exact_mod_cast le_of_mul_le_mul_right habove hpow
        have hle : n < 2 ^ 52 + 1 := by exact_mod_cast lt_of_mul_lt_mul_right hlt' hpow.le
        omega
      refine nearest_below_power (e := e - 1) hx ?_ (by omega) h
      rw [hn, hcount, half_power e]
      push_cast
      ring

end nearest

/-! ## Floats -/

/-- The largest finite float. -/
def largest : ℚ := (2 ^ 53 - 1 : Int) * 2 ^ (971 : Int)

/-- A float that is a number: its sign, which a zero has too, and its size. -/
structure Finite where
  negative : Bool
  size : ℚ
  size_nonneg : 0 ≤ size
  nearest_size : nearest size = size
  size_le : size ≤ largest
deriving DecidableEq

def Finite.value (x : Finite) : ℚ := if x.negative then -x.size else x.size

inductive Binary64
  | nan
  | infinite (negative : Bool)
  | finite (x : Finite)
deriving DecidableEq

/-- It is neither infinite nor `nan`. -/
def Binary64.IsFinite (x : Binary64) : Prop := ∃ y, x = .finite y

/-- The place of a float in the order. `nan` has none. -/
def Binary64.value : Binary64 → Option (WithBot (WithTop ℚ))
  | .nan => none
  | .infinite true => some ⊥
  | .infinite false => some ⊤
  | .finite x => some (x.value : WithTop ℚ)

/-- A comparison with `nan` is false. -/
def Binary64.le (x y : Binary64) : Bool :=
  match x.value, y.value with
  | some a, some b => decide (a ≤ b)
  | _, _ => false

theorem Binary64.le_finite {x y : Finite} :
    (Binary64.finite x).le (.finite y) = decide (x.value ≤ y.value) := by
  unfold le value
  simp only [WithBot.coe_le_coe, WithTop.coe_le_coe]

theorem largest_pos : 0 < largest := mul_pos (by norm_num) (power_pos 971)

theorem nearest_largest : nearest largest = largest :=
  nearest_of_bits (by norm_num) (by norm_num) (by norm_num)

theorem largest_int : ∃ n : Int, largest = n := by
  refine ⟨(2 ^ 53 - 1) * 2 ^ 971, ?_⟩
  unfold largest
  rw [Int.cast_mul, Int.cast_pow]
  rfl

/-- The nearest float to a number. Beyond the largest it is infinite. -/
def of_rat (negative : Bool) (q : ℚ) : Binary64 :=
  if h : nearest |q| ≤ largest then
    .finite ⟨negative, nearest |q|, nearest_nonneg (abs_nonneg q),
      nearest_nearest (abs_nonneg q), h⟩
  else .infinite negative

theorem of_rat_isFinite {q : ℚ} (negative : Bool) (h : nearest |q| ≤ largest) :
    (of_rat negative q).IsFinite := ⟨_, dif_pos h⟩

def zero (negative : Bool) : Finite :=
  ⟨negative, 0, le_rfl, nearest_zero, largest_pos.le⟩

/-- An integer as a float, unless it is too large. -/
def of_int (n : Int) : Option Binary64 :=
  match of_rat (n < 0) n with
  | .finite x => some (.finite x)
  | _ => none

/-- The quotient of two integers, rounded once. -/
def int_div (m n : Int) : Option Binary64 :=
  match of_rat ((m < 0) ^^ (n < 0)) (m / n) with
  | .finite x => some (.finite x)
  | _ => none

def Finite.neg (x : Finite) : Finite := { x with negative := !x.negative }

def Binary64.neg : Binary64 → Binary64
  | .nan => .nan
  | .infinite negative => .infinite !negative
  | .finite x => .finite x.neg

/-- A sum of zero has a sign only when both do. -/
def Binary64.add : Binary64 → Binary64 → Binary64
  | .nan, _ | _, .nan => .nan
  | .infinite a, .infinite b => if a = b then .infinite a else .nan
  | .infinite a, .finite _ | .finite _, .infinite a => .infinite a
  | .finite x, .finite y =>
    let sum := x.value + y.value
    if sum = 0 then .finite (zero (x.negative && y.negative)) else of_rat (sum < 0) sum

def Binary64.sub (x y : Binary64) : Binary64 := x.add y.neg

def Binary64.mul : Binary64 → Binary64 → Binary64
  | .nan, _ | _, .nan => .nan
  | .infinite a, .infinite b => .infinite (a ^^ b)
  | .infinite a, .finite x | .finite x, .infinite a =>
    if x.size = 0 then .nan else .infinite (a ^^ x.negative)
  | .finite x, .finite y => of_rat (x.negative ^^ y.negative) (x.size * y.size)

/-- There is no quotient by zero. -/
def Binary64.div : Binary64 → Binary64 → Option Binary64
  | x, .finite y =>
    if y.size = 0 then none
    else match x with
      | .nan => some .nan
      | .infinite a => some (.infinite (a ^^ y.negative))
      | .finite x => some (of_rat (x.negative ^^ y.negative) (x.size / y.size))
  | .nan, _ | _, .nan => some .nan
  | .infinite _, .infinite _ => some .nan
  | .finite x, .infinite b => some (.finite (zero (x.negative ^^ b)))

/-! ## Rounding to places -/

theorem to_places_nonneg {x : ℚ} (places : Nat) (h : 0 ≤ x) : 0 ≤ to_places x places := by
  have hmono := to_places_mono places h
  rwa [show (0 : ℚ) = (0 : Int) from rfl, to_places_int] at hmono

/-- The largest float is not passed, as it is an integer. -/
theorem nearest_to_places_le {x : ℚ} (places : Nat) (hx : 0 ≤ x) (h : x ≤ largest) :
    nearest (to_places x places) ≤ largest := by
  have hplaces : to_places x places ≤ largest := by
    obtain ⟨n, hn⟩ := largest_int
    refine (to_places_mono places h).trans_eq ?_
    rw [hn]
    exact to_places_int n places
  exact (nearest_mono (to_places_nonneg places hx) hplaces).trans_eq nearest_largest

/-- `round(x, places)`: the float that is nearest to the rounded decimal, with the sign of `x`. -/
def Finite.round (x : Finite) (places : Nat) : Finite where
  negative := x.negative
  size := nearest (to_places x.size places)
  size_nonneg := nearest_nonneg (to_places_nonneg places x.size_nonneg)
  nearest_size := nearest_nearest (to_places_nonneg places x.size_nonneg)
  size_le := nearest_to_places_le places x.size_nonneg x.size_le

def Binary64.round (x : Binary64) (places : Nat) : Binary64 :=
  match x with
  | .finite x => .finite (x.round places)
  | x => x

section round

variable {x y : Finite}

theorem Binary64.round_isFinite {x : Binary64} {places : Nat} :
    (x.round places).IsFinite ↔ x.IsFinite := by
  unfold IsFinite
  cases x <;> simp [round]

theorem Finite.value_of_negative (h : x.negative = true) : x.value = -x.size := if_pos h

theorem Finite.value_of_positive (h : x.negative = false) : x.value = x.size := by
  unfold Finite.value
  rw [h]
  exact if_neg Bool.false_ne_true

theorem Finite.size_round_mono (places : Nat) (h : x.size ≤ y.size) :
    (x.round places).size ≤ (y.round places).size :=
  nearest_mono (to_places_nonneg places x.size_nonneg) (to_places_mono places h)

theorem Finite.size_round_zero (places : Nat) (h : x.size = 0) : (x.round places).size = 0 := by
  have hplaces : to_places 0 places = 0 := by exact_mod_cast to_places_int 0 places
  unfold Finite.round
  dsimp only
  rw [h, hplaces, nearest_zero]

/-- The rounding keeps the order. -/
theorem Finite.round_value_mono (places : Nat) (h : x.value ≤ y.value) :
    (x.round places).value ≤ (y.round places).value := by
  have hx := x.size_nonneg
  have hy := y.size_nonneg
  cases hxs : x.negative <;> cases hys : y.negative
  · rw [value_of_positive hxs, value_of_positive hys] at h
    rw [value_of_positive (x := x.round places) hxs, value_of_positive (x := y.round places) hys]
    exact size_round_mono places h
  · -- both are zeros
    rw [value_of_positive hxs, value_of_negative hys] at h
    rw [value_of_positive (x := x.round places) hxs, value_of_negative (x := y.round places) hys,
      size_round_zero places (by linarith), size_round_zero places (by linarith), neg_zero]
  · rw [value_of_negative (x := x.round places) hxs, value_of_positive (x := y.round places) hys]
    exact (neg_nonpos.mpr (x.round places).size_nonneg).trans (y.round places).size_nonneg
  · rw [value_of_negative hxs, value_of_negative hys] at h
    rw [value_of_negative (x := x.round places) hxs, value_of_negative (x := y.round places) hys]
    exact neg_le_neg (size_round_mono places (neg_le_neg_iff.mp h))

end round

/-! ## The shortest decimal -/

/-- The two decimals with so many places around `q`, the nearer one first. -/
def neighbours (q : ℚ) (places : Int) : List Decimal :=
  let below := ⌊q * 10 ^ places⌋.toNat
  if q * 10 ^ places - below ≤ 1 / 2 then [⟨below, places⟩, ⟨below + 1, places⟩]
  else [⟨below + 1, places⟩, ⟨below, places⟩]

/-- The decimals around `q` that have up to 17 digits, those with few digits first. -/
def candidates (q : ℚ) : List Decimal :=
  (List.range 17).flatMap fun (digits : Nat) => neighbours q (digits - Int.log 10 q)

/-- The decimal with the fewest digits to which `q` is the nearest float. -/
def shortest (q : ℚ) : Decimal :=
  ((candidates q).find? fun d => nearest d.value = q).getD ⟨0, 0⟩

/-- The nearer of the two decimals is at most half of the last place away. -/
theorem exists_neighbour {q : ℚ} (hq : 0 < q) (places : Int) :
    ∃ d ∈ neighbours q places, |d.value - q| * (2 * 10 ^ places) ≤ 1 := by
  have hten : (0 : ℚ) < 10 ^ places := zpow_pos (by norm_num) places
  have hfloor : ((⌊q * 10 ^ places⌋.toNat : Nat) : ℚ) = ⌊q * 10 ^ places⌋ := by
    exact_mod_cast Int.toNat_of_nonneg (Int.floor_nonneg.mpr (mul_pos hq hten).le)
  have hlow := Int.floor_le (q * 10 ^ places)
  have hhigh := Int.lt_floor_add_one (q * 10 ^ places)
  have hscale : ∀ m : Nat, |(m : ℚ) - q * 10 ^ places| ≤ 1 / 2 →
      |(⟨m, places⟩ : Decimal).value - q| * (2 * 10 ^ places) ≤ 1 := by
    intro m hm
    have hdiff : (⟨m, places⟩ : Decimal).value - q = (m - q * 10 ^ places) / 10 ^ places := by
      unfold Decimal.value
      rw [sub_div, mul_div_cancel_right₀ _ hten.ne']
    rw [hdiff, abs_div, abs_of_pos hten, mul_left_comm, div_mul_cancel₀ _ hten.ne']
    linarith
  unfold neighbours
  dsimp only
  split_ifs with hnear
  · refine ⟨_, List.mem_cons_self, hscale _ (abs_le.mpr ⟨?_, ?_⟩)⟩ <;> linarith
  · refine ⟨_, List.mem_cons_self, hscale _ (abs_le.mpr ⟨?_, ?_⟩)⟩ <;> push_cast <;> linarith

/-- There is such a decimal, as 17 digits do for each float. -/
theorem nearest_shortest {q : ℚ} (hq : 0 < q) (hf : nearest q = q) :
    nearest (shortest q).value = q := by
  obtain ⟨d, hd, hclose⟩ := exists_neighbour hq ((16 : Nat) - Int.log 10 q)
  have hlog : (10 : ℚ) ^ Int.log 10 q ≤ q := by
    exact_mod_cast Int.zpow_log_le_self (b := 10) (by norm_num) hq
  have hplaces : |d.value - q| * (2 * 10 ^ 16) ≤ q := by
    rw [zpow_sub₀ (by norm_num), zpow_natCast, mul_div_assoc', mul_div_assoc',
      div_le_one (zpow_pos (by norm_num) _)] at hclose
    exact hclose.trans hlog
  have hpos : 0 < d.value := by
    have habs := abs_nonneg (d.value - q)
    obtain ⟨hlow, -⟩ := abs_le.mp (le_refl |d.value - q|)
    linarith
  have hmem : d ∈ candidates q := by
    have hdigits : 16 ∈ List.range 17 := List.mem_range.mpr (by norm_num)
    exact List.mem_flatMap.mpr ⟨16, hdigits, hd⟩
  unfold shortest
  cases hfind : (candidates q).find? fun d => nearest d.value = q with
  | none =>
    have hnot := List.find?_eq_none.mp hfind d hmem
    exact absurd (decide_eq_true (nearest_of_close hpos hq hf hplaces)) hnot
  | some found =>
    have hfound := List.find?_some hfind
    exact of_decide_eq_true hfound

/-- `float.__repr__`. -/
def Finite.repr (x : Finite) : List Char := float_repr x.negative (shortest x.size)

/-- The float that a reader takes from the text: the one that is nearest to the decimal. -/
def Finite.reread (x : Finite) : Binary64 := of_rat x.negative (shortest x.size).value

/-- A float is read again as it was written. -/
theorem Finite.reread_eq (x : Finite) : x.reread = .finite x := by
  have hread : nearest (shortest x.size).value = x.size := by
    rcases x.size_nonneg.eq_or_lt with hzero | hpos
    · rw [← hzero]
      decide +kernel
    · exact nearest_shortest hpos x.nearest_size
  have hvalue : 0 ≤ (shortest x.size).value := by
    exact div_nonneg (Nat.cast_nonneg _) (zpow_nonneg (by norm_num) _)
  unfold reread of_rat
  simp only [abs_of_nonneg hvalue, hread, dif_pos x.size_le]

def Binary64.reread : Binary64 → Binary64
  | .finite x => x.reread
  | x => x

theorem Binary64.reread_eq (x : Binary64) : x.reread = x := by
  cases x with
  | finite x => exact x.reread_eq
  | _ => rfl

end binary64
