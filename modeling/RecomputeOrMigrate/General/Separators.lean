-- Texts whose parts are joined by a separator, and what can be read back from them.
import Mathlib.Data.List.Basic

namespace separators

variable {α : Type} {a b : α} {l m x y d d' : List α}

/-- The last part of a path, and what is before it. -/
theorem last_part_inj (hx : a ∉ x) (hy : a ∉ y) (h : d ++ a :: x = d' ++ a :: y) :
    d = d' ∧ x = y := by
  have hlen : ∀ {d d' x y : List α}, a ∉ y → d ++ a :: x = d' ++ a :: y →
      d.length ≤ d'.length := by
    intro d d' x y hy h
    by_contra hlt
    have hget := congrArg (·[d.length]?) h
    rw [List.getElem?_append_right (Nat.le_refl _), Nat.sub_self, List.getElem?_cons_zero,
      List.getElem?_append_right (by omega)] at hget
    obtain ⟨k, hk⟩ : ∃ k, d.length - d'.length = k + 1 :=
      Nat.exists_eq_succ_of_ne_zero (by omega)
    rw [hk, List.getElem?_cons_succ] at hget
    exact hy (List.mem_of_getElem? hget.symm)
  obtain ⟨hdir, hlast⟩ := List.append_inj h (Nat.le_antisymm (hlen hy h) (hlen hx h.symm))
  exact ⟨hdir, (List.cons.inj hlast).2⟩

variable [DecidableEq α]

/-- `sep.join(l.split(a))` puts the separator in the place of each `a`. -/
theorem intercalate_splitOn (sep : List α) (a : α) (l : List α) :
    sep.intercalate (l.splitOn a) = l.flatMap fun c => if c = a then sep else [c] := by
  induction l with
  | nil => simp [List.splitOn_nil]
  | cons c l ih =>
    rw [List.splitOn_cons_eq_if_modifyHead, List.flatMap_cons, ← ih]
    obtain ⟨part, parts, hparts⟩ := List.exists_cons_of_ne_nil (List.splitOn_ne_nil a l)
    rw [hparts]
    by_cases hc : c = a
    · simp [hc, List.intercalate_cons_of_ne_nil]
    · cases parts with
      | nil => simp [hc]
      | cons next rest => simp [hc, List.intercalate_cons_cons]

/-- Two of `b` stand for each `a`. -/
def doubled (a b : α) (l : List α) : List α := l.flatMap fun c => if c = a then [b, b] else [c]

theorem doubled_cons_same (a b : α) (l : List α) :
    doubled a b (a :: l) = b :: b :: doubled a b l := by
  simp [doubled]

theorem doubled_cons_other {c : α} (h : c ≠ a) (b : α) (l : List α) :
    doubled a b (c :: l) = c :: doubled a b l := by
  simp [doubled, h]

theorem doubled_cons_ne_nil (a b c : α) (l : List α) : doubled a b (c :: l) ≠ [] := by
  by_cases hc : c = a
  · rw [hc, doubled_cons_same]
    exact List.cons_ne_nil _ _
  · rw [doubled_cons_other hc]
    exact List.cons_ne_nil _ _

/-- No `b` stands directly before another one or before an `a`. -/
def Plain (a b : α) (l : List α) : Prop := l.IsChain fun c c' => c = b → c' ≠ b ∧ c' ≠ a

/-- What stands for an `a` at the start cannot come from anything else. -/
theorem doubled_ne_of_plain (hm : Plain a b (b :: m)) :
    doubled a b m ≠ b :: doubled a b l := by
  cases m with
  | nil => exact List.cons_ne_nil _ _ |>.symm
  | cons c m =>
    obtain ⟨hb, ha⟩ := List.isChain_cons_cons.mp hm |>.1 rfl
    rw [doubled_cons_other ha]
    exact fun h => hb (List.cons.inj h).1

theorem doubled_inj (hl : Plain a b l) (hm : Plain a b m)
    (h : doubled a b l = doubled a b m) : l = m := by
  induction l generalizing m with
  | nil =>
    cases m with
    | nil => rfl
    | cons c m => exact absurd h.symm (doubled_cons_ne_nil a b c m)
  | cons c l ih =>
    cases m with
    | nil => exact absurd h (doubled_cons_ne_nil a b c l)
    | cons c' m =>
      have hrest : doubled a b l = doubled a b m → l = m := ih hl.of_cons hm.of_cons
      by_cases hc : c = a <;> by_cases hc' : c' = a
      · rw [hc, hc', doubled_cons_same, doubled_cons_same] at h
        rw [hc, hc', hrest (List.cons.inj (List.cons.inj h).2).2]
      · rw [hc, doubled_cons_same, doubled_cons_other hc'] at h
        obtain ⟨hhead, htail⟩ := List.cons.inj h
        exact absurd htail.symm (doubled_ne_of_plain (hhead ▸ hm))
      · rw [hc', doubled_cons_same, doubled_cons_other hc] at h
        obtain ⟨hhead, htail⟩ := List.cons.inj h
        exact absurd htail (doubled_ne_of_plain (hhead ▸ hl))
      · rw [doubled_cons_other hc, doubled_cons_other hc'] at h
        obtain ⟨hhead, htail⟩ := List.cons.inj h
        rw [hhead, hrest htail]

end separators
