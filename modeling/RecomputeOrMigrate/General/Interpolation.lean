-- A table of points in the order of their keys: the straight line between two
-- neighbours, and the neighbours of a number that is not a key.
import Mathlib.Algebra.Order.Field.Basic
import Mathlib.Analysis.Convex.Basic
import Mathlib.Data.List.Basic
import Mathlib.Tactic.FieldSimp
import Mathlib.Tactic.Linarith
import Mathlib.Tactic.Ring

namespace interpolation

/-! ## The line between two points -/

section line

variable {K : Type} [Field K] {x₀ x₁ y₀ y₁ x a : K}

/-- The value at `x` of the line from `(x₀, y₀)` to `(x₁, y₁)`. -/
def line (x₀ x₁ y₀ y₁ x : K) : K := y₀ + (x - x₀) / (x₁ - x₀) * (y₁ - y₀)

theorem line_left : line x₀ x₁ y₀ y₁ x₀ = y₀ := by
  unfold line
  rw [sub_self, zero_div, zero_mul, add_zero]

variable [LinearOrder K] [IsStrictOrderedRing K]

/-- A multiple of the key that is below both ends of a line is below the line. -/
theorem below_line (hx : x₀ < x₁) (h₀ : a * x₀ < y₀) (h₁ : a * x₁ < y₁) (hl : x₀ ≤ x)
    (hr : x ≤ x₁) : a * x < line x₀ x₁ y₀ y₁ x := by
  have hwidth : 0 < x₁ - x₀ := sub_pos.mpr hx
  -- both are the same weighted mean of their ends
  have hmean : (line x₀ x₁ y₀ y₁ x - a * x) * (x₁ - x₀) =
      (x₁ - x) * (y₀ - a * x₀) + (x - x₀) * (y₁ - a * x₁) := by
    unfold line
    field_simp
    ring
  have hpos : 0 < (x₁ - x) * (y₀ - a * x₀) + (x - x₀) * (y₁ - a * x₁) := by
    rcases hl.lt_or_eq with hlt | rfl
    · have hleft : 0 ≤ (x₁ - x) * (y₀ - a * x₀) :=
        mul_nonneg (sub_nonneg.mpr hr) (sub_pos.mpr h₀).le
      have hright : 0 < (x - x₀) * (y₁ - a * x₁) := mul_pos (sub_pos.mpr hlt) (sub_pos.mpr h₁)
      linarith
    · rw [sub_self, zero_mul, add_zero]
      exact mul_pos hwidth (sub_pos.mpr h₀)
  rw [← hmean] at hpos
  exact sub_pos.mp (pos_of_mul_pos_left hpos hwidth.le)

/-- The line stays between its ends. -/
theorem line_between (hx : x₀ < x₁) (hl : x₀ ≤ x) (hr : x ≤ x₁) :
    min y₀ y₁ ≤ line x₀ x₁ y₀ y₁ x ∧ line x₀ x₁ y₀ y₁ x ≤ max y₀ y₁ := by
  have hwidth : 0 < x₁ - x₀ := sub_pos.mpr hx
  have hweight : 0 ≤ (x - x₀) / (x₁ - x₀) := div_nonneg (sub_nonneg.mpr hl) hwidth.le
  have hrest : 0 ≤ 1 - (x - x₀) / (x₁ - x₀) := by
    rw [sub_nonneg, div_le_one hwidth]
    exact sub_le_sub_right hr x₀
  have hmean : line x₀ x₁ y₀ y₁ x =
      (1 - (x - x₀) / (x₁ - x₀)) • y₀ + ((x - x₀) / (x₁ - x₀)) • y₁ := by
    unfold line
    rw [smul_eq_mul, smul_eq_mul]
    ring
  rw [hmean]
  exact ⟨Convex.min_le_combo y₀ y₁ hrest hweight (sub_add_cancel _ _),
    Convex.combo_le_max y₀ y₁ hrest hweight (sub_add_cancel _ _)⟩

theorem line_mono {x' : K} (hx : x₀ < x₁) (hy : y₀ ≤ y₁) (h : x ≤ x') :
    line x₀ x₁ y₀ y₁ x ≤ line x₀ x₁ y₀ y₁ x' := by
  have hwidth : 0 < x₁ - x₀ := sub_pos.mpr hx
  have hrise : 0 ≤ y₁ - y₀ := sub_nonneg.mpr hy
  unfold line
  gcongr

end line

/-! ## Neighbours in a list of keys -/

section neighbours

variable {α : Type} {keys : List α} {lo hi k : α}

/-- `hi` comes right after `lo`. -/
def Neighbours (keys : List α) (lo hi : α) : Prop :=
  ∃ i, keys[i]? = some lo ∧ keys[i + 1]? = some hi

namespace Neighbours

theorem left_mem (h : Neighbours keys lo hi) : lo ∈ keys := by
  obtain ⟨i, hlo, -⟩ := h
  exact List.mem_of_getElem? hlo

theorem right_mem (h : Neighbours keys lo hi) : hi ∈ keys := by
  obtain ⟨i, -, hhi⟩ := h
  exact List.mem_of_getElem? hhi

variable [LinearOrder α]

/-- No key lies between two neighbours. -/
theorem le_or_le (hs : keys.Pairwise (· < ·)) (h : Neighbours keys lo hi) (hk : k ∈ keys) :
    k ≤ lo ∨ hi ≤ k := by
  obtain ⟨i, hlo, hhi⟩ := h
  obtain ⟨j, hj⟩ := List.mem_iff_getElem?.mp hk
  obtain ⟨hil, rfl⟩ := List.getElem?_eq_some_iff.mp hlo
  obtain ⟨hih, rfl⟩ := List.getElem?_eq_some_iff.mp hhi
  obtain ⟨hjl, rfl⟩ := List.getElem?_eq_some_iff.mp hj
  have hlt := List.pairwise_iff_getElem.mp hs
  rcases Nat.lt_trichotomy j i with h | rfl | h
  · exact .inl (hlt j i hjl hil h).le
  · exact .inl le_rfl
  · rcases Nat.lt_or_eq_of_le (Nat.succ_le_of_lt h) with h | rfl
    · exact .inr (hlt (i + 1) j hih hjl h).le
    · exact .inr le_rfl

end Neighbours

variable [LinearOrder α]

theorem head_le (hs : keys.Pairwise (· < ·)) (hf : keys.head? = some lo) (hk : k ∈ keys) :
    lo ≤ k := by
  obtain ⟨rest, rfl⟩ := List.head?_eq_some_iff.mp hf
  rcases List.mem_cons.mp hk with rfl | h
  · exact le_rfl
  · exact (List.rel_of_pairwise_cons hs h).le

theorem le_last (hs : keys.Pairwise (· < ·)) (hl : keys.getLast? = some hi) (hk : k ∈ keys) :
    k ≤ hi := by
  obtain ⟨before, rfl⟩ := List.getLast?_eq_some_iff.mp hl
  rcases List.mem_append.mp hk with h | h
  · exact ((List.pairwise_append.mp hs).2.2 k h hi List.mem_cons_self).le
  · exact (List.mem_singleton.mp h).le

/-- The keys up to `x` end with the left neighbour of `x`. -/
theorem takeWhile_neighbours {x first last : α} (hf : keys.head? = some first) (hx : first ≤ x)
    (hl : last ∈ keys) (hlast : x < last) :
    ∃ i lo hi, (keys.takeWhile (· ≤ x)).length = i + 1 ∧ keys[i]? = some lo ∧
      keys[i + 1]? = some hi ∧ lo ≤ x ∧ x < hi := by
  induction keys generalizing first with
  | nil => cases hf
  | cons a rest ih =>
    cases hf
    rw [List.takeWhile_cons_of_pos (by simpa using hx), List.length_cons]
    have hrest : last ∈ rest := by
      rcases List.mem_cons.mp hl with rfl | h
      · exact absurd hlast hx.not_gt
      · exact h
    cases rest with
    | nil => cases hrest
    | cons b bs =>
      rcases le_or_gt b x with hb | hb
      · obtain ⟨i, lo, hi, hlen, hlo, hhi, hle, hlt⟩ := ih rfl hb hrest
        exact ⟨i + 1, lo, hi, by rw [hlen], hlo, hhi, hle, hlt⟩
      · rw [List.takeWhile_cons_of_neg (by simpa using hb)]
        exact ⟨0, a, b, rfl, rfl, rfl, hx, hb⟩

end neighbours

end interpolation
