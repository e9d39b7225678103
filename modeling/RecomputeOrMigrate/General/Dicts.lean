-- A dictionary as Python keeps it: one entry for each key, in the order in
-- which the keys came in.
import Mathlib.Data.List.Nodup

namespace dicts

/-- `dict`. A key has one entry. -/
structure Dict (κ ν : Type) where
  items : List (κ × ν)
  nodup : (items.map Prod.fst).Nodup

namespace Dict

variable {κ ν : Type}

def empty : Dict κ ν := ⟨[], List.nodup_nil⟩

def keys (d : Dict κ ν) : List κ := d.items.map Prod.fst

instance : Membership κ (Dict κ ν) := ⟨fun d k => k ∈ d.keys⟩

theorem mem_def {d : Dict κ ν} {k : κ} : k ∈ d ↔ k ∈ d.items.map Prod.fst := Iff.rfl

theorem not_mem_empty (k : κ) : k ∉ (empty : Dict κ ν) := List.not_mem_nil

variable [DecidableEq κ]

/-- `d.get(k)`. -/
def get? (d : Dict κ ν) (k : κ) : Option ν := d.items.lookup k

instance (k : κ) (d : Dict κ ν) : Decidable (k ∈ d) := inferInstanceAs (Decidable (k ∈ d.keys))

/-- The entries after `d[k] = v`. A key that is there keeps its place. -/
def assigned (items : List (κ × ν)) (k : κ) (v : ν) : List (κ × ν) :=
  if k ∈ items.map Prod.fst then items.map fun p => if p.1 = k then (k, v) else p
  else items ++ [(k, v)]

theorem assigned_keys (items : List (κ × ν)) (k : κ) (v : ν) :
    (assigned items k v).map Prod.fst =
      if k ∈ items.map Prod.fst then items.map Prod.fst else items.map Prod.fst ++ [k] := by
  unfold assigned
  split
  · rw [List.map_map]
    apply List.map_congr_left
    intro p _
    simp only [Function.comp]
    split
    · next hp => exact hp.symm
    · rfl
  · simp

theorem assigned_nodup {items : List (κ × ν)} (h : (items.map Prod.fst).Nodup) (k : κ) (v : ν) :
    ((assigned items k v).map Prod.fst).Nodup := by
  rw [assigned_keys]
  split
  · exact h
  · next hk => exact List.nodup_append'.mpr ⟨h, by simp, by simpa using hk⟩

/-- `d[k] = v`. -/
def set (d : Dict κ ν) (k : κ) (v : ν) : Dict κ ν :=
  ⟨assigned d.items k v, assigned_nodup d.nodup k v⟩

/-- `d.setdefault(k, v)`. -/
def setdefault (d : Dict κ ν) (k : κ) (v : ν) : Dict κ ν := if k ∈ d then d else d.set k v

/-- `d.pop(k, None)` and `del d[k]` for a key that is there. -/
def pop (d : Dict κ ν) (k : κ) : Dict κ ν where
  items := d.items.filter fun p => p.1 ≠ k
  nodup := d.nodup.sublist (List.filter_sublist.map _)

/-! ## What a key has -/

theorem mem_iff_isSome {d : Dict κ ν} {k : κ} : k ∈ d ↔ (d.get? k).isSome := by
  unfold get?
  rw [List.lookup_isSome_iff, mem_def, List.mem_map]
  apply exists_congr
  intro p
  rw [beq_iff_eq, eq_comm]

theorem get?_eq_none {d : Dict κ ν} {k : κ} : d.get? k = none ↔ k ∉ d := by
  rw [mem_iff_isSome, Option.not_isSome_iff_eq_none]

@[simp]
theorem get?_empty (k : κ) : (empty : Dict κ ν).get? k = none := rfl

theorem lookup_eq_some {items : List (κ × ν)} (h : (items.map Prod.fst).Nodup) {k : κ} {v : ν} :
    items.lookup k = some v ↔ (k, v) ∈ items := by
  induction items with
  | nil => simp
  | cons p rest ih =>
    obtain ⟨k', v'⟩ := p
    rw [List.map_cons, List.nodup_cons] at h
    rw [List.lookup_cons, List.mem_cons, Prod.mk.injEq]
    by_cases hk : k = k'
    · subst hk
      have hrest : (k, v) ∉ rest := fun hmem => h.1 (List.mem_map.mpr ⟨(k, v), hmem, rfl⟩)
      simp [hrest, eq_comm]
    · rw [beq_eq_false_iff_ne.mpr hk, ih h.2]
      simp [hk]

theorem get?_eq_some {d : Dict κ ν} {k : κ} {v : ν} : d.get? k = some v ↔ (k, v) ∈ d.items :=
  lookup_eq_some d.nodup

theorem get?_set (d : Dict κ ν) (k k' : κ) (v : ν) :
    (d.set k v).get? k' = if k' = k then some v else d.get? k' := by
  apply Option.ext
  intro w
  rw [get?_eq_some]
  unfold set assigned
  split
  · next hk =>
    obtain ⟨p, hp, rfl⟩ := List.mem_map.mp hk
    rw [List.mem_map]
    constructor
    · rintro ⟨q, hq, hqw⟩
      split at hqw
      · cases hqw
        simp
      · next hne =>
        subst hqw
        rw [if_neg hne, get?_eq_some]
        exact hq
    · intro hw
      split at hw
      · next heq =>
        cases hw
        exact ⟨p, hp, by simp [heq]⟩
      · next hne =>
        rw [get?_eq_some] at hw
        exact ⟨(k', w), hw, by simp [hne]⟩
  · next hk =>
    rw [List.mem_append, List.mem_singleton, ← get?_eq_some, Prod.mk.injEq]
    by_cases hkk : k' = k
    · subst hkk
      rw [get?_eq_none.mpr hk]
      simp [eq_comm]
    · simp [hkk]

theorem get?_setdefault (d : Dict κ ν) (k k' : κ) (v : ν) :
    (d.setdefault k v).get? k' = if k' = k ∧ k ∉ d then some v else d.get? k' := by
  unfold setdefault
  by_cases hk : k ∈ d
  · simp [hk]
  · simp [hk, get?_set]

theorem get?_pop (d : Dict κ ν) (k k' : κ) :
    (d.pop k).get? k' = if k' = k then none else d.get? k' := by
  apply Option.ext
  intro w
  rw [get?_eq_some]
  unfold pop
  rw [List.mem_filter, ← get?_eq_some]
  by_cases hkk : k' = k <;> simp [hkk]

/-! ## A loop that changes values -/

theorem get?_foldl_set {items : List (κ × ν)} (hnodup : (items.map Prod.fst).Nodup) (p : κ → Bool)
    (f : ν → ν) (d : Dict κ ν) (k : κ) :
    (items.foldl (fun d x => if p x.1 then d.set x.1 (f x.2) else d) d).get? k =
      if p k then (items.lookup k).elim (d.get? k) fun v => some (f v) else d.get? k := by
  induction items generalizing d with
  | nil => split <;> rfl
  | cons x rest ih =>
    rw [List.map_cons, List.nodup_cons] at hnodup
    rw [List.foldl_cons, ih hnodup.2, List.lookup_cons]
    by_cases hk : k = x.1
    · have hrest : rest.lookup k = none := by
        rw [List.lookup_eq_none_iff]
        intro y hy
        exact bne_iff_ne.mpr fun heq => hnodup.1 (hk ▸ heq ▸ List.mem_map_of_mem hy)
      rw [hrest, hk, beq_self_eq_true]
      split
      · simp [get?_set]
      · rfl
    · have hsame : (if p x.1 then d.set x.1 (f x.2) else d).get? k = d.get? k := by
        split
        · rw [get?_set, if_neg hk]
        · rfl
      rw [beq_eq_false_iff_ne.mpr hk, hsame]

/-- A loop over the items that sets some of the keys. -/
theorem get?_foldl_items (p : κ → Bool) (f : ν → ν) (d : Dict κ ν) (k : κ) :
    (d.items.foldl (fun d x => if p x.1 then d.set x.1 (f x.2) else d) d).get? k =
      (d.get? k).map fun v => if p k then f v else v := by
  rw [get?_foldl_set d.nodup]
  change (if p k then (d.get? k).elim (d.get? k) fun v => some (f v) else d.get? k) = _
  cases d.get? k <;> split <;> rfl

end Dict

end dicts
