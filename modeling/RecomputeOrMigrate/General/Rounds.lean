-- Rounds through the stops of a tour, one stop after the other.
import Mathlib.Data.List.Basic

namespace rounds

variable {α : Type} {tour : List α} {m k : Nat} {a : α}

/-- The stops of `m` whole rounds, and the first `k` stops of the next round. -/
def visits (tour : List α) (m k : Nat) : List α :=
  (List.replicate m tour).flatten ++ tour.take k

theorem visits_whole (tour : List α) (m : Nat) :
    visits tour m 0 = (List.replicate m tour).flatten := by
  unfold visits
  rw [List.take_zero, List.append_nil]

/-- The next stop. -/
theorem visits_next (h : tour[k]? = some a) : visits tour m k ++ [a] = visits tour m (k + 1) := by
  unfold visits
  rw [List.append_assoc, List.take_add_one, h]
  rfl

/-- The last stop ends the round. -/
theorem visits_full (h : k = tour.length) : visits tour m k = visits tour (m + 1) 0 := by
  unfold visits
  rw [h, List.take_length, List.take_zero, List.append_nil, List.replicate_succ',
    List.flatten_concat]

theorem length_visits_whole (tour : List α) (m : Nat) :
    (visits tour m 0).length = m * tour.length := by
  rw [visits_whole, List.length_flatten, List.map_replicate, List.sum_replicate_nat]

end rounds
