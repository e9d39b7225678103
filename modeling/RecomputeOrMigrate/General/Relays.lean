-- A relay of batches. The first station brings a batch, each later one takes the first batch of
-- its queue, and a station holds its batch until it passes it to the queue of the next one.
import Mathlib.Data.List.Infix
import Mathlib.Logic.Function.Basic
import Mathlib.Logic.Relation

namespace relays

/-- What each station took so far, what waits in its queue and what it holds. -/
structure Relay (β : Type) where
  taken : Nat → List β
  waiting : Nat → List β
  held : Nat → List β

namespace Relay

variable {β : Type} {r r' : Relay β} {b : β} {rest : List β} {j k : Nat}

def start : Relay β := ⟨fun _ => [], fun _ => [], fun _ => []⟩

/-- A station passes on what it holds. -/
def pass (r : Relay β) (k : Nat) : Relay β where
  taken := r.taken
  waiting := Function.update r.waiting (k + 1) (r.waiting (k + 1) ++ r.held k)
  held := Function.update r.held k []

def take (r : Relay β) (k : Nat) (b : β) (rest : List β) : Relay β where
  taken := Function.update r.taken k (r.taken k ++ [b])
  waiting := Function.update r.waiting k rest
  held := Function.update r.held k [b]

def bring (r : Relay β) (b : β) : Relay β where
  taken := Function.update r.taken 0 (r.taken 0 ++ [b])
  waiting := r.waiting
  held := Function.update r.held 0 [b]

/-- A station takes a batch when its hands are free. -/
inductive Step : Relay β → Relay β → Prop
  | pass (r : Relay β) (k : Nat) : Step r (r.pass k)
  | take {r : Relay β} {k : Nat} {b : β} {rest : List β} (waits : r.waiting (k + 1) = b :: rest)
      (free : r.held (k + 1) = []) : Step r (r.take (k + 1) b rest)
  | bring {r : Relay β} (b : β) (free : r.held 0 = []) : Step r (r.bring b)

/-! ## What the steps change -/

@[simp] theorem pass_taken : (r.pass k).taken = r.taken := rfl

@[simp] theorem pass_held_self : (r.pass k).held k = [] := Function.update_self ..

theorem pass_held_of_ne (h : j ≠ k) : (r.pass k).held j = r.held j := Function.update_of_ne h ..

@[simp] theorem pass_waiting_next : (r.pass k).waiting (k + 1) = r.waiting (k + 1) ++ r.held k :=
  Function.update_self ..

theorem pass_waiting_of_ne (h : j ≠ k + 1) : (r.pass k).waiting j = r.waiting j :=
  Function.update_of_ne h ..

@[simp] theorem take_taken_self : (r.take k b rest).taken k = r.taken k ++ [b] :=
  Function.update_self ..

theorem take_taken_of_ne (h : j ≠ k) : (r.take k b rest).taken j = r.taken j :=
  Function.update_of_ne h ..

@[simp] theorem take_waiting_self : (r.take k b rest).waiting k = rest := Function.update_self ..

theorem take_waiting_of_ne (h : j ≠ k) : (r.take k b rest).waiting j = r.waiting j :=
  Function.update_of_ne h ..

@[simp] theorem take_held_self : (r.take k b rest).held k = [b] := Function.update_self ..

theorem take_held_of_ne (h : j ≠ k) : (r.take k b rest).held j = r.held j :=
  Function.update_of_ne h ..

@[simp] theorem bring_taken_first : (r.bring b).taken 0 = r.taken 0 ++ [b] := by
  simp [bring]

theorem bring_taken_of_ne (h : j ≠ 0) : (r.bring b).taken j = r.taken j :=
  Function.update_of_ne h ..

@[simp] theorem bring_waiting : (r.bring b).waiting = r.waiting := rfl

@[simp] theorem bring_held_first : (r.bring b).held 0 = [b] := by
  simp [bring]

theorem bring_held_of_ne (h : j ≠ 0) : (r.bring b).held j = r.held j := Function.update_of_ne h ..

/-! ## The order of the batches -/

/-- What a station took went on in this order: the next one took the first of it, the rest waits
there, and the last is still held. -/
def Ordered (r : Relay β) : Prop :=
  ∀ k, r.taken k = r.taken (k + 1) ++ r.waiting (k + 1) ++ r.held k

theorem start_ordered : (start : Relay β).Ordered := fun _ => rfl

theorem Ordered.pass (h : r.Ordered) (k : Nat) : (r.pass k).Ordered := by
  intro j
  rw [pass_taken, h j]
  by_cases hj : j = k
  · subst hj
    simp
  · rw [pass_held_of_ne hj, pass_waiting_of_ne (by omega)]

theorem Ordered.take (h : r.Ordered) (waits : r.waiting (k + 1) = b :: rest)
    (free : r.held (k + 1) = []) : (r.take (k + 1) b rest).Ordered := by
  intro j
  have hj := h j
  by_cases hself : j = k + 1
  · subst hself
    rw [free, List.append_nil] at hj
    rw [take_taken_self, take_taken_of_ne (by omega), take_waiting_of_ne (by omega),
      take_held_self, hj]
  · rw [take_taken_of_ne hself, take_held_of_ne hself, hj]
    by_cases hnext : j = k
    · subst hnext
      rw [take_taken_self, take_waiting_self, waits]
      simp
    · rw [take_taken_of_ne (by omega), take_waiting_of_ne (by omega)]

theorem Ordered.bring (h : r.Ordered) (free : r.held 0 = []) : (r.bring b).Ordered := by
  intro j
  have hj := h j
  rw [bring_waiting, bring_taken_of_ne (Nat.succ_ne_zero j)]
  by_cases hself : j = 0
  · subst hself
    rw [free, List.append_nil] at hj
    rw [bring_taken_first, bring_held_first, hj]
  · rw [bring_taken_of_ne hself, bring_held_of_ne hself, hj]

theorem Step.ordered (h : Step r r') (hr : r.Ordered) : r'.Ordered := by
  cases h with
  | pass k => exact hr.pass k
  | take waits free => exact hr.take waits free
  | bring b free => exact hr.bring free

theorem ordered_of_steps (h : Relation.ReflTransGen Step r r') (hr : r.Ordered) : r'.Ordered := by
  induction h with
  | refl => exact hr
  | tail _ hstep ih => exact hstep.ordered ih

/-- A station took what the first one brought, up to some batch. -/
theorem Ordered.taken_prefix (h : r.Ordered) (k : Nat) : r.taken k <+: r.taken 0 := by
  induction k with
  | zero => exact List.prefix_rfl
  | succ k ih =>
    have hnext : r.taken (k + 1) <+: r.taken k := by
      rw [h k, List.append_assoc]
      exact List.prefix_append _ _
    exact hnext.trans ih

/-- Also with what waits for it. -/
theorem Ordered.arrived_prefix (h : r.Ordered) (k : Nat) :
    r.taken (k + 1) ++ r.waiting (k + 1) <+: r.taken 0 := by
  have hnext : r.taken (k + 1) ++ r.waiting (k + 1) <+: r.taken k := by
    rw [h k]
    exact List.prefix_append _ _
  exact hnext.trans (h.taken_prefix k)

theorem Ordered.waiting_sublist (h : r.Ordered) (k : Nat) :
    (r.waiting (k + 1)).Sublist (r.taken 0) :=
  (List.sublist_append_right _ _).trans (h.arrived_prefix k).sublist

end Relay

end relays
