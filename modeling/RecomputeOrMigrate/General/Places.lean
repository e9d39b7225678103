-- Things at places. Each place lists what is there, and each thing is once at the place that
-- it has and at no other.
import Mathlib.Data.List.Nodup
import Mathlib.Logic.Function.Basic

namespace places

variable {P ι : Type} [DecidableEq P] [DecidableEq ι] {contents : P → List ι}
  {place : ι → Option P} {i : ι} {p q : P} {rest : List ι}

/-- Each thing is listed once at its place, and nowhere else. -/
def Located (contents : P → List ι) (place : ι → Option P) : Prop :=
  ∀ i p, (contents p).count i = if place i = some p then 1 else 0

theorem located_nowhere (h : ∀ p, contents p = []) : Located contents fun _ => none := by
  intro i p
  rw [h, List.count_nil, if_neg]
  exact nofun

theorem Located.mem_iff (h : Located contents place) : i ∈ contents p ↔ place i = some p := by
  rw [← List.count_pos_iff, h i p]
  split <;> simp_all

theorem Located.nodup (h : Located contents place) (p : P) : (contents p).Nodup := by
  rw [List.nodup_iff_count_le_one]
  intro i
  rw [h i p]
  split
  · exact Nat.le_refl 1
  · exact Nat.zero_le 1

theorem Located.at_head (h : Located contents place) (hp : contents p = i :: rest) :
    place i = some p :=
  h.mem_iff.mp (hp ▸ List.mem_cons_self)

/-- The first thing at a place leaves it. -/
theorem Located.leave (h : Located contents place) (hp : contents p = i :: rest) :
    Located (Function.update contents p rest) (Function.update place i none) := by
  intro j r
  by_cases hr : r = p
  · subst hr
    have hcount := h j r
    rw [hp, List.count_cons] at hcount
    rw [Function.update_self]
    by_cases hj : j = i
    · subst hj
      rw [if_pos (h.at_head hp)] at hcount
      simp_all
    · rw [Function.update_of_ne hj, ← hcount]
      simp [Ne.symm hj]
  · rw [Function.update_of_ne hr, h j r]
    by_cases hj : j = i
    · subst hj
      rw [h.at_head hp, Function.update_self]
      simp [Ne.symm hr]
    · rw [Function.update_of_ne hj]

/-- A thing that is nowhere joins a place at its end. -/
theorem Located.enter (h : Located contents place) (hi : place i = none) (q : P) :
    Located (Function.update contents q (contents q ++ [i]))
      (Function.update place i (some q)) := by
  intro j r
  by_cases hj : j = i
  · subst hj
    rw [Function.update_self]
    have hcount := h j r
    rw [hi] at hcount
    by_cases hr : r = q
    · subst hr
      rw [Function.update_self, List.count_append, hcount]
      simp
    · rw [Function.update_of_ne hr, hcount]
      simp [Ne.symm hr]
  · rw [Function.update_of_ne hj, ← h j r]
    by_cases hr : r = q
    · subst hr
      rw [Function.update_self, List.count_append]
      simp [Ne.symm hj]
    · rw [Function.update_of_ne hr]

/-- The first thing at a place goes to the end of another one. -/
theorem Located.move (h : Located contents place) (hp : contents p = i :: rest) (hne : q ≠ p) :
    Located (Function.update (Function.update contents p rest) q (contents q ++ [i]))
      (Function.update place i (some q)) := by
  have hin := (h.leave hp).enter (Function.update_self i none place) q
  rwa [Function.update_of_ne hne, Function.update_idem] at hin

end places
