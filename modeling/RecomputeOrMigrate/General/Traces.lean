-- Calls that are watched: beside the state runs the trace of all that was seen of
-- it. What a watched call does to the state is what the call itself does.
import RecomputeOrMigrate.General.Calls

open calls

namespace traces

variable {ε σ τ α β : Type}

/-- A state and all that was seen of it so far, the oldest first. -/
structure Traced (σ τ : Type) where
  state : σ
  trace : List τ

/-- The call `m`, where `seen s s'` is what one sees of the change from `s` to `s'`. -/
def watch (seen : σ → σ → List τ) (m : Call ε σ α) : Call ε (Traced σ τ) α := fun t =>
  match m t.state with
  | .ok a s => .ok a ⟨s, t.trace ++ seen t.state s⟩
  | .error e s => .error e ⟨s, t.trace ++ seen t.state s⟩

/-- `x` goes on the trace. -/
def note (x : τ) : Call ε (Traced σ τ) Unit := modify fun t => { t with trace := t.trace ++ [x] }

theorem note_apply (x : τ) (t : Traced σ τ) :
    (note x : Call ε (Traced σ τ) Unit) t = .ok () ⟨t.state, t.trace ++ [x]⟩ := rfl

theorem watch_ok {seen : σ → σ → List τ} {m : Call ε σ α} {t : Traced σ τ} {a : α} {s : σ}
    (h : m t.state = .ok a s) : watch seen m t = .ok a ⟨s, t.trace ++ seen t.state s⟩ := by
  unfold watch
  rw [h]

theorem watch_error {seen : σ → σ → List τ} {m : Call ε σ α} {t : Traced σ τ} {e : ε} {s : σ}
    (h : m t.state = .error e s) : watch seen m t = .error e ⟨s, t.trace ++ seen t.state s⟩ := by
  unfold watch
  rw [h]

/-! ## The call without its trace -/

/-- The outcome without the trace. -/
def forget : EStateM.Result ε (Traced σ τ) α → EStateM.Result ε σ α
  | .ok a t => .ok a t.state
  | .error e t => .error e t.state

/-- The watched call does what `m` does. -/
def Erases (watched : Call ε (Traced σ τ) α) (m : Call ε σ α) : Prop :=
  ∀ t, forget (watched t) = m t.state

theorem erases_watch (seen : σ → σ → List τ) (m : Call ε σ α) : Erases (watch seen m) m := by
  intro t
  unfold watch
  cases m t.state <;> rfl

theorem erases_pure (a : α) : Erases (pure a : Call ε (Traced σ τ) α) (pure a) := fun _ => rfl

theorem erases_bind {watched : Call ε (Traced σ τ) α} {m : Call ε σ α}
    {next : α → Call ε (Traced σ τ) β} {f : α → Call ε σ β} (hm : Erases watched m)
    (hf : ∀ a, Erases (next a) (f a)) : Erases (watched >>= next) (m >>= f) := by
  intro t
  have h := hm t
  rw [bind_apply, bind_apply, ← h]
  cases watched t with
  | ok a t' => exact hf a t'
  | error e t' => rfl

theorem erases_forM {watched : β → Call ε (Traced σ τ) PUnit} {m : β → Call ε σ PUnit}
    (h : ∀ x, Erases (watched x) (m x)) (xs : List β) : Erases (xs.forM watched) (xs.forM m) := by
  induction xs with
  | nil => exact erases_pure _
  | cons x rest ih => exact erases_bind (h x) fun _ => ih

theorem Erases.leaves {watched : Call ε (Traced σ τ) α} {m : Call ε σ α} (h : Erases watched m)
    (t : Traced σ τ) : (leaves watched t).state = leaves m t.state := by
  unfold calls.leaves
  rw [← h t]
  cases watched t <;> rfl

/-- What the call keeps, the watched call keeps. -/
theorem Erases.keeps {watched : Call ε (Traced σ τ) α} {m : Call ε σ α} {I : σ → Prop}
    (h : Erases watched m) (hm : Keeps I m) : Keeps (fun t => I t.state) watched := by
  intro t ht
  have hk := hm t.state ht
  rw [← h t] at hk
  cases hw : watched t <;> rw [hw] at hk <;> exact hk

/-! ## What a call adds to the trace -/

/-- Since the trace `old`, only things of the kind `P` were seen. -/
def Adds (P : τ → Prop) (old : List τ) (t : Traced σ τ) : Prop :=
  ∃ new, t.trace = old ++ new ∧ ∀ x ∈ new, P x

variable {P : τ → Prop} {old : List τ}

theorem adds_refl (t : Traced σ τ) : Adds P t.trace t := ⟨[], by simp, by simp⟩

theorem Adds.append {t : Traced σ τ} (h : Adds P old t) (s : σ) {xs : List τ}
    (hx : ∀ x ∈ xs, P x) : Adds P old (⟨s, t.trace ++ xs⟩ : Traced σ τ) := by
  obtain ⟨new, hnew, hp⟩ := h
  refine ⟨new ++ xs, by rw [hnew, List.append_assoc], ?_⟩
  intro x hxn
  rcases List.mem_append.mp hxn with h1 | h1
  · exact hp x h1
  · exact hx x h1

theorem adds_note {x : τ} (h : P x) :
    Keeps (Adds P old) (note x : Call ε (Traced σ τ) Unit) := by
  intro t ht
  exact ht.append t.state (by simpa using h)

theorem adds_watch {seen : σ → σ → List τ} {m : Call ε σ α}
    (h : ∀ s, ∀ x ∈ seen s (leaves m s), P x) : Keeps (Adds P old) (watch seen m) := by
  intro t ht
  have hs := h t.state
  unfold calls.leaves at hs
  unfold watch
  cases hm : m t.state <;> rw [hm] at hs <;> exact ht.append _ hs

end traces
