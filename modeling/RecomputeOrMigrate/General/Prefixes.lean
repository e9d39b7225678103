-- The longest prefix of a list with a property, for a property that shorter
-- prefixes keep. A greedy loop finds it.
import Mathlib.Data.List.Infix

namespace prefixes

variable {α : Type} {P : List α → Prop} {xs p rest : List α}

/-- `p` is the longest prefix of `xs` with the property. -/
structure Longest (P : List α → Prop) (xs p : List α) : Prop where
  start : p <+: xs
  holds : P p
  longest : ∀ q, q <+: xs → P q → q <+: p

/-- A prefix that breaks the property with its next element is the longest one. -/
theorem longest_of_stop (hP : ∀ a b, P (a ++ b) → P a) (hp : P p)
    (hstop : ∀ x, rest.head? = some x → ¬P (p ++ [x])) : Longest P (p ++ rest) p := by
  refine ⟨List.prefix_append p rest, hp, ?_⟩
  intro q hq hPq
  rcases List.prefix_or_prefix_of_prefix hq (List.prefix_append p rest) with h | ⟨more, rfl⟩
  · exact h
  · cases more with
    | nil => simp
    | cons x more =>
      -- the longer prefix takes the element that breaks the property
      have hx : rest.head? = some x := by
        obtain ⟨t, rfl⟩ := (List.prefix_append_right_inj p).mp hq
        rfl
      refine absurd (hP (p ++ [x]) more ?_) (hstop x hx)
      simpa using hPq

end prefixes
