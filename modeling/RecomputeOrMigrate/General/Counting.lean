-- Counting. A place holds a thing once when the counts of all places add up
-- to one, so the laws of what is where are sums of counts.
import Mathlib.Algebra.BigOperators.Group.Finset.Basic
import Mathlib.Algebra.BigOperators.Group.List.Basic
import Mathlib.Algebra.Order.BigOperators.Group.Finset
import Mathlib.Algebra.Order.Ring.Nat
import Mathlib.Data.Finset.Dedup

namespace counting

variable {α β κ : Type}

/-! ## Sums over keys -/

/-- Two sums over the keys of a table that differ at one key only. A key that
is in no table adds nothing. -/
theorem sum_change [DecidableEq κ] {K K' : Finset κ} {f f' : κ → Nat} (a : κ)
    (hK : ∀ r ∉ K, f r = 0) (hK' : ∀ r ∉ K', f' r = 0) (h : ∀ r, r ≠ a → f' r = f r) :
    ∑ r ∈ K', f' r + f a = ∑ r ∈ K, f r + f' a := by
  have hU : ∑ r ∈ K, f r = ∑ r ∈ insert a (K ∪ K'), f r :=
    Finset.sum_subset (fun r hr => by simp [hr]) fun r _ hr => hK r hr
  have hU' : ∑ r ∈ K', f' r = ∑ r ∈ insert a (K ∪ K'), f' r :=
    Finset.sum_subset (fun r hr => by simp [hr]) fun r _ hr => hK' r hr
  have ha : a ∈ insert a (K ∪ K') := Finset.mem_insert_self _ _
  have hrest : ∑ r ∈ (insert a (K ∪ K')).erase a, f' r =
      ∑ r ∈ (insert a (K ∪ K')).erase a, f r :=
    Finset.sum_congr rfl fun r hr => h r (Finset.ne_of_mem_erase hr)
  rw [hU, hU', ← Finset.add_sum_erase _ f ha, ← Finset.add_sum_erase _ f' ha, hrest]
  omega

theorem sum_toFinset_eq [DecidableEq κ] {l : List κ} (h : l.Nodup) (f : κ → Nat) :
    ∑ r ∈ l.toFinset, f r = (l.map f).sum := List.sum_toFinset f h

/-- A part of a list without duplicates leaves it. -/
theorem toFinset_of_perm_append [DecidableEq α] {l f k : List α} (h : (l ++ f).Perm k)
    (hk : k.Nodup) : l.toFinset = k.toFinset \ f.toFinset := by
  have hdis := (List.nodup_append'.mp (h.nodup_iff.mpr hk)).2.2
  ext a
  rw [Finset.mem_sdiff, List.mem_toFinset, List.mem_toFinset, List.mem_toFinset, ← h.mem_iff,
    List.mem_append]
  constructor
  · exact fun ha => ⟨Or.inl ha, List.disjoint_left.mp hdis ha⟩
  · exact fun ⟨ha, hf⟩ => ha.resolve_right hf

/-! ## One place -/

/-- A thing that several places hold once together is once in one of them and not in the
others. -/
theorem exists_place [DecidableEq α] [DecidableEq κ] {places : List κ} {f : κ → List α} {a : α}
    (hnd : places.Nodup) (h : (places.flatMap f).count a = 1) :
    ∃ p, ∀ q ∈ places, (f q).count a = if q = p then 1 else 0 := by
  induction places with
  | nil => simp at h
  | cons p places ih =>
    rw [List.nodup_cons] at hnd
    rw [List.flatMap_cons, List.count_append] at h
    by_cases hp : (f p).count a = 0
    · obtain ⟨p', hp'⟩ := ih hnd.2 (by omega)
      by_cases hpp : p = p'
      · subst hpp
        -- the rest holds it once, but not at `p`
        rw [hp, Nat.zero_add] at h
        have hrest : (places.flatMap f).count a = 0 := by
          rw [List.count_flatMap, List.sum_eq_zero_iff]
          intro n hn
          obtain ⟨q, hq, rfl⟩ := List.mem_map.mp hn
          rw [Function.comp_apply, hp' q hq, if_neg]
          rintro rfl
          exact hnd.1 hq
        omega
      · refine ⟨p', fun q hq => ?_⟩
        rcases List.mem_cons.mp hq with rfl | hq
        · rw [hp, if_neg hpp]
        · exact hp' q hq
    · refine ⟨p, fun q hmem => ?_⟩
      rcases List.mem_cons.mp hmem with rfl | hq
      · rw [if_pos rfl]
        omega
      · have hne : q ≠ p := by
          rintro rfl
          exact hnd.1 hq
        have hle : (f q).count a ≤ (places.flatMap f).count a := by
          rw [List.count_flatMap]
          exact List.le_sum_of_mem (List.mem_map_of_mem (f := List.count a ∘ f) hq)
        rw [if_neg hne]
        omega

/-- When no key is there twice, one element has the key of `a`. -/
theorem filter_key [DecidableEq κ] {f : α → κ} {l : List α} {a : α} (hnd : (l.map f).Nodup)
    (h : a ∈ l) : l.filter (fun b => f b == f a) = [a] := by
  induction l with
  | nil => cases h
  | cons b l ih =>
    rw [List.map_cons, List.nodup_cons] at hnd
    rcases List.mem_cons.mp h with rfl | h
    · have hnone : l.filter (fun b => f b == f a) = [] := by
        rw [List.filter_eq_nil_iff]
        exact fun b hb hc => hnd.1 (eq_of_beq hc ▸ List.mem_map_of_mem hb)
      rw [List.filter_cons, hnone, beq_self_eq_true, if_pos rfl]
    · have hne : f b ≠ f a := fun hc => hnd.1 (hc ▸ List.mem_map_of_mem h)
      rw [List.filter_cons, beq_eq_false_iff_ne.mpr hne, if_neg Bool.false_ne_true]
      exact ih hnd.2 h

/-! ## One element of a list that changes -/

theorem sum_map_set (f : α → Nat) {l : List α} {i : Nat} (hi : i < l.length) (x : α) :
    ((l.set i x).map f).sum + f l[i] = (l.map f).sum + f x := by
  induction l generalizing i with
  | nil => simp at hi
  | cons a l ih =>
    cases i with
    | zero => simp; omega
    | succ i =>
      have := ih (i := i) (by simpa using hi)
      simp only [List.set_cons_succ, List.map_cons, List.sum_cons, List.getElem_cons_succ]
      omega

theorem count_flatMap_set [DecidableEq β] (f : α → List β) {l : List α} {i : Nat}
    (hi : i < l.length) (x : α) (b : β) :
    ((l.set i x).flatMap f).count b + (f l[i]).count b =
      (l.flatMap f).count b + (f x).count b := by
  simp only [List.count_flatMap]
  exact sum_map_set (List.count b ∘ f) hi x

theorem sum_map_le {f g : α → Nat} {l : List α} (h : ∀ a ∈ l, f a ≤ g a) :
    (l.map f).sum ≤ (l.map g).sum := by
  induction l with
  | nil => simp
  | cons a l ih =>
    have h1 := h a (by simp)
    have h2 := ih fun b hb => h b (by simp [hb])
    simp only [List.map_cons, List.sum_cons]
    omega

end counting
