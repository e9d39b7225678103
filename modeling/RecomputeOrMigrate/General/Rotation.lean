-- A rotating index and a queue of the places that it passed. The index goes
-- round `p` places, and the queue holds the last `n` of them, oldest first.
import Mathlib.Data.Int.ModEq
import Mathlib.Data.List.Nodup
import Mathlib.Data.List.Range

namespace rotation

/-- The last `n` places of an index that is at `c` now. -/
def passed (p : Nat) (c : Int) (n : Nat) : List Nat :=
  (List.range n).map fun i : Nat => ((c + 1 - n + (i : Int)) % p).toNat

variable {p n : Nat} {c : Int}

/-- The index goes to the next place, and that place joins the queue at its end. -/
theorem passed_push (p : Nat) (c : Int) (n : Nat) :
    passed p ((c + 1) % p) (n + 1) = passed p c n ++ [((c + 1) % p).toNat] := by
  unfold passed
  rw [List.range_succ, List.map_append, List.map_singleton]
  congr 1
  · apply List.map_congr_left
    intro i _
    have : ((c + 1) % p + 1 - ((n + 1 : Nat) : Int) + i) = ((c + 1) % p + (i - n)) := by
      push_cast
      omega
    rw [this, Int.emod_add_emod]
    congr 2
    omega
  · have : ((c + 1) % p + 1 - ((n + 1 : Nat) : Int) + n) = (c + 1) % p := by
      push_cast
      omega
    rw [this, Int.emod_emod]

/-- The oldest place leaves the queue. -/
theorem passed_pop (p : Nat) (c : Int) (n : Nat) :
    (passed p c (n + 1)).tail = passed p c n := by
  unfold passed
  rw [List.range_succ_eq_map, List.map_cons, List.tail_cons, List.map_map]
  apply List.map_congr_left
  intro i _
  simp only [Function.comp_apply]
  congr 2
  push_cast
  omega

/-- What is left after the oldest place is again the last places of the index. -/
theorem rest_eq_passed {k : Nat} {rest : List Nat} (h : k :: rest = passed p c (rest.length + 1)) :
    rest = passed p c rest.length := by
  rw [← passed_pop, ← h, List.tail_cons]

/-- When the queue has every place, its oldest place is the next one of the index. -/
theorem head_of_full (hp : 0 < p) : (passed p c p).head? = some (((c + 1) % p).toNat) := by
  obtain ⟨n, rfl⟩ : ∃ n, p = n + 1 := ⟨p - 1, by omega⟩
  unfold passed
  rw [List.range_succ_eq_map, List.map_cons, List.head?_cons]
  congr 2
  rw [show c + 1 - ((n + 1 : Nat) : Int) + ((0 : Nat) : Int) = c + 1 - ((n + 1 : Nat) : Int) by
    omega, Int.sub_emod_right]

/-- No place is in the queue twice. -/
theorem passed_nodup (hp : 0 < p) (hn : n ≤ p) : (passed p c n).Nodup := by
  refine List.Nodup.map_on ?_ List.nodup_range
  intro i hi j hj h
  rw [List.mem_range] at hi hj
  have h1 := Int.emod_nonneg (c + 1 - n + i) (b := p) (by omega)
  have h2 := Int.emod_nonneg (c + 1 - n + j) (b := p) (by omega)
  have heq : (c + 1 - n + i) % p = (c + 1 - n + j) % p := by omega
  have hdvd : (p : Int) ∣ (c + 1 - n + i) - (c + 1 - n + j) := Int.ModEq.dvd heq.symm
  have habs : |(c + 1 - n + i) - (c + 1 - n + j)| < (p : Int) := by
    rw [abs_lt]
    omega
  have := Int.eq_zero_of_abs_lt_dvd hdvd habs
  omega

/-- A queue that is not full does not have the next place of the index. -/
theorem next_notMem (hp : 0 < p) (hn : n < p) : ((c + 1) % p).toNat ∉ passed p c n := by
  have := passed_nodup (c := (c + 1) % p) hp (show n + 1 ≤ p from hn)
  rw [passed_push, List.nodup_append'] at this
  exact fun hc => List.disjoint_left.mp this.2.2 hc (by simp)

end rotation
