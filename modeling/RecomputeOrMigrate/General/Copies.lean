-- Copies from one memory to another. A list of pairs says which cell goes to
-- which cell, and the copies run in the order of the list.
import Mathlib.Data.List.Nodup
import Mathlib.Logic.Function.Basic

namespace copies

variable {α κ : Type}

/-- Copy cell `p.1` of `source` to cell `p.2` of `target`, for each pair `p` in turn. -/
def copyAll (source target : Nat → α) (pairs : List (Nat × Nat)) : Nat → α :=
  pairs.foldl (fun m p => Function.update m p.2 (source p.1)) target

theorem copyAll_of_notMem (source target : Nat → α) {pairs : List (Nat × Nat)} {j : Nat}
    (h : j ∉ pairs.map Prod.snd) : copyAll source target pairs j = target j := by
  induction pairs generalizing target with
  | nil => rfl
  | cons p ps ih =>
    simp only [List.map_cons, List.mem_cons, not_or] at h
    have := ih (Function.update target p.2 (source p.1)) h.2
    rw [Function.update_of_ne h.1] at this
    exact this

/-- When no cell is the target twice, each target has what its source had. -/
theorem copyAll_of_mem (source target : Nat → α) {pairs : List (Nat × Nat)} {i j : Nat}
    (hnd : (pairs.map Prod.snd).Nodup) (h : (i, j) ∈ pairs) :
    copyAll source target pairs j = source i := by
  induction pairs generalizing target with
  | nil => simp at h
  | cons p ps ih =>
    rw [List.map_cons, List.nodup_cons] at hnd
    rcases List.mem_cons.mp h with rfl | h
    · have := copyAll_of_notMem source (Function.update target j (source i)) hnd.1
      rw [Function.update_self] at this
      exact this
    · exact ih (Function.update target p.2 (source p.1)) hnd.2 h

/-- Two lists that are put together from parts of pairwise equal lengths pair up
part by part. -/
theorem zip_flatMap (f g : κ → List Nat) {ks : List κ}
    (h : ∀ k ∈ ks, (f k).length = (g k).length) :
    (ks.flatMap f).zip (ks.flatMap g) = ks.flatMap fun k => (f k).zip (g k) := by
  induction ks with
  | nil => rfl
  | cons k ks ih =>
    simp only [List.flatMap_cons]
    rw [List.zip_append (h k (by simp)), ih fun k' hk' => h k' (by simp [hk'])]

end copies
