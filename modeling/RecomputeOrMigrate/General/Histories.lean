-- Histories: the list of all that happened, the oldest first.
import Mathlib.Data.List.DropRight
import Mathlib.Data.List.Induction

namespace histories

variable {α : Type}

/-- What happened after the last thing that meets `p`, or all when nothing meets it. -/
def sinceLast (p : α → Prop) [DecidablePred p] (history : List α) : List α :=
  (history.reverse.takeWhile fun x => !decide (p x)).reverse

variable {p : α → Prop} [DecidablePred p] {history : List α} {x y : α}

@[simp]
theorem sinceLast_nil : sinceLast p ([] : List α) = [] := rfl

theorem sinceLast_append (history : List α) (x : α) :
    sinceLast p (history ++ [x]) = if p x then [] else sinceLast p history ++ [x] := by
  unfold sinceLast
  rw [List.reverse_append, List.reverse_singleton, List.singleton_append, List.takeWhile_cons]
  by_cases hx : p x <;> simp [hx]

theorem mem_sinceLast_append :
    y ∈ sinceLast p (history ++ [x]) ↔ ¬ p x ∧ (y ∈ sinceLast p history ∨ y = x) := by
  rw [sinceLast_append]
  by_cases hx : p x <;> simp [hx]

/-- A thing that does not meet `p` stays until something meets `p`. -/
theorem mem_sinceLast_of_none {before between : List α} (hx : ¬ p x) (h : ∀ y ∈ between, ¬ p y) :
    x ∈ sinceLast p (before ++ x :: between) := by
  induction between using List.reverseRecOn with
  | nil => exact mem_sinceLast_append.mpr ⟨hx, Or.inr rfl⟩
  | append_singleton between y ih =>
    rw [← List.cons_append, ← List.append_assoc, mem_sinceLast_append]
    refine ⟨h y (by simp), Or.inl (ih ?_)⟩
    intro z hz
    exact h z (by simp [hz])

theorem mem_of_mem_sinceLast (h : x ∈ sinceLast p history) : x ∈ history := by
  unfold sinceLast at h
  exact List.mem_reverse.mp ((List.takeWhile_sublist _).mem (List.mem_reverse.mp h))

/-- What stands in the first part of a history without repetitions did not come after what
stands in the rest. -/
theorem not_sublist_append {xs ys : List α} (hnd : (xs ++ ys).Nodup) (hx : x ∈ xs) (hy : y ∈ ys) :
    ¬ [y, x].Sublist (xs ++ ys) := by
  intro h
  have hdis := (List.nodup_append.mp hnd).2.2
  obtain ⟨first, rest, heq, hfirst, hrest⟩ := List.sublist_append_iff.mp h
  cases first with
  | nil =>
    obtain rfl : [y, x] = rest := heq
    exact hdis x hx x (hrest.subset (by simp)) rfl
  | cons z tail =>
    obtain rfl : y = z := (List.cons.inj heq).1
    exact hdis y (hfirst.subset List.mem_cons_self) y hy rfl

/-- A buffer of the last `n` things that drops its head when it is too long. -/
theorem rtake_append_singleton (n : Nat) (history : List α) (x : α) :
    (history ++ [x]).rtake n =
      if n < (history.rtake n ++ [x]).length then (history.rtake n ++ [x]).tail
      else history.rtake n ++ [x] := by
  unfold List.rtake
  rw [List.length_append, List.length_append, List.length_singleton, List.length_drop]
  split
  · have hle : n ≤ history.length := by omega
    have hstart : history.length + 1 - n = (history.length - n) + 1 := by omega
    rw [hstart, ← List.drop_one, ← List.drop_drop, List.drop_append_of_le_length (by omega)]
  · have hstart : history.length + 1 - n = 0 ∧ history.length - n = 0 := by omega
    rw [hstart.1, hstart.2, List.drop_zero, List.drop_zero]

/-! ## Laws of each thing that happened -/

/-- `P` holds of each thing that happened and of all that happened before it. -/
def Always (P : List α → α → Prop) (history : List α) : Prop :=
  ∀ before x rest, history = before ++ x :: rest → P before x

variable {P : List α → α → Prop}

theorem always_nil : Always P [] := by
  intro before x rest h
  simp at h

theorem always_append_singleton : Always P (history ++ [x]) ↔ Always P history ∧ P history x := by
  constructor
  · intro h
    refine ⟨?_, h history x [] rfl⟩
    intro before y rest hy
    exact h before y (rest ++ [x]) (by simp [hy])
  · rintro ⟨h, hx⟩ before y rest hy
    induction rest using List.reverseRecOn with
    | nil =>
      obtain ⟨rfl, hxy⟩ := List.append_inj' hy rfl
      obtain rfl : x = y := by simpa using hxy
      exact hx
    | append_singleton rest z _ =>
      rw [← List.cons_append, ← List.append_assoc] at hy
      exact h before y rest (List.append_inj' hy rfl).1

end histories
