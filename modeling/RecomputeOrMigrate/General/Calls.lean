-- Calls that may raise. A call works on a state. It returns a value or it
-- raises, and the state that it leaves stays in both cases, as the fields of
-- a Python object do.
import Mathlib.Logic.Basic

namespace calls

variable {ε σ α β : Type}

/-- A call returns or raises, and leaves a state in both cases. -/
abbrev Call (ε σ α : Type) := EStateM ε σ α

/-- `assert p`, which raises `e` when `p` is false. -/
def assert (p : Prop) [Decidable p] (e : ε) : Call ε σ Unit := if p then pure () else throw e

/-- `try: m; except Exception as e`, with what `m` returned or raised. What `m` did to the
state stays. -/
def attempt (m : Call ε σ α) : Call ε σ (Except ε α) := fun s =>
  match m s with
  | .ok a s' => .ok (.ok a) s'
  | .error e s' => .ok (.error e) s'

/-- The state that a call leaves. -/
def leaves (m : Call ε σ α) (s : σ) : σ :=
  match m s with
  | .ok _ s' => s'
  | .error _ s' => s'

/-- A call as a caller sees it that does not catch the exception. -/
def run (m : Call ε σ α) (s : σ) : Except ε (α × σ) :=
  match m s with
  | .ok a s' => .ok (a, s')
  | .error e _ => .error e

/-! ## One turn of a call -/

theorem bind_apply (m : Call ε σ α) (f : α → Call ε σ β) (s : σ) :
    (m >>= f) s = match m s with
      | .ok a s' => f a s'
      | .error e s' => .error e s' := rfl

theorem pure_apply (a : α) (s : σ) : (pure a : Call ε σ α) s = .ok a s := rfl

theorem throw_apply (e : ε) (s : σ) : (throw e : Call ε σ α) s = .error e s := rfl

theorem get_apply (s : σ) : (get : Call ε σ σ) s = .ok s s := rfl

theorem modify_apply (f : σ → σ) (s : σ) : (modify f : Call ε σ Unit) s = .ok () (f s) := rfl

theorem assert_apply (p : Prop) [Decidable p] (e : ε) (s : σ) :
    (assert p e : Call ε σ Unit) s = if p then .ok () s else .error e s := by
  unfold assert
  split <;> rfl

theorem ofExcept_apply (x : Except ε α) (s : σ) :
    (MonadExcept.ofExcept x : Call ε σ α) s = match x with
      | .ok a => .ok a s
      | .error e => .error e s := by
  cases x <;> rfl

theorem attempt_apply (m : Call ε σ α) (s : σ) :
    attempt m s = match m s with
      | .ok a s' => .ok (.ok a) s'
      | .error e s' => .ok (.error e) s' := rfl

theorem run_eq_ok {m : Call ε σ α} {s s' : σ} {a : α} :
    run m s = .ok (a, s') ↔ m s = .ok a s' := by
  unfold run
  cases m s <;> simp

theorem run_eq_error {m : Call ε σ α} {s : σ} {e : ε} :
    run m s = .error e ↔ ∃ s', m s = .error e s' := by
  unfold run
  cases m s <;> simp

/-- After a part that returns, the rest runs with its value. -/
theorem ok_bind {x : Except ε α} {f : α → Except ε β} {a : α} (h : x = .ok a) :
    (x >>= f) = f a := by
  subst h
  rfl

/-- A sequence that returns is two parts that return. -/
theorem bind_eq_ok {x : Except ε α} {f : α → Except ε β} {b : β} :
    (x >>= f) = .ok b ↔ ∃ a, x = .ok a ∧ f a = .ok b := by
  cases x <;> simp [bind, Except.bind]

/-- A call that returns what a test accepts. -/
theorem ok_of_any {x : Except ε α} {p : α → Bool} (h : x.toOption.any p = true) :
    ∃ a, x = .ok a ∧ p a = true := by
  cases x with
  | error e => cases h
  | ok a => exact ⟨a, rfl, h⟩

/-- A loop in which each turn returns gives the list of the values. -/
theorem mapM_ok {f : α → Except ε β} {g : α → β} {xs : List α} (h : ∀ x ∈ xs, f x = .ok (g x)) :
    xs.mapM f = .ok (xs.map g) := by
  induction xs with
  | nil => rfl
  | cons x rest ih =>
    rw [List.mapM_cons, h x List.mem_cons_self, ih fun y hy => h y (List.mem_cons_of_mem x hy)]
    rfl

/-! ## Loops that stop at the first exception -/

/-- The results of a call one by one, or its exception alone. -/
def each : Except ε (List α) → List (Except ε α)
  | .ok results => results.map .ok
  | .error e => [.error e]

theorem mapM_each (x : Except ε (List α)) : (each x).mapM id = x := by
  cases x with
  | error e => rfl
  | ok results =>
    rw [each, List.mapM_map]
    exact (mapM_ok (g := id) fun _ _ => rfl).trans (by rw [List.map_id])

/-- What every turn computes anew is computed once before the loop. -/
theorem mapM_bind (x : Except ε α) (f : α → Nat → Except ε β) (n : Nat) :
    ((List.range (n + 1)).mapM fun i => x >>= fun a => f a i) =
      x >>= fun a => (List.range (n + 1)).mapM (f a) := by
  cases x with
  | ok a => rfl
  | error e =>
    rw [List.range_succ_eq_map, List.mapM_cons]
    rfl

/-- A loop in a loop. -/
theorem mapM_flatMap (f : σ → List (Except ε α)) (xs : List σ) :
    (xs.flatMap f).mapM id = List.flatten <$> xs.mapM fun x => (f x).mapM id := by
  induction xs with
  | nil => rfl
  | cons x xs ih =>
    rw [List.flatMap_cons, List.mapM_append, ih, List.mapM_cons]
    cases (f x).mapM id with
    | error e => rfl
    | ok ys => cases xs.mapM fun x => (f x).mapM id <;> rfl

theorem mapM_mapError {ε' : Type} (g : ε → ε') (xs : List (Except ε α)) :
    (xs.map (·.mapError g)).mapM id = (xs.mapM id).mapError g := by
  induction xs with
  | nil => rfl
  | cons x xs ih =>
    rw [List.map_cons, List.mapM_cons, ih, List.mapM_cons]
    cases x with
    | error e => rfl
    | ok y => cases xs.mapM id <;> rfl

/-! ## Pre- and postconditions -/

/-- From a state that meets `P`, the call returns and meets `Q`, or raises and
meets `E`. -/
def Meets (P : σ → Prop) (m : Call ε σ α) (Q : α → σ → Prop) (E : ε → σ → Prop) : Prop :=
  ∀ s, P s → match m s with
    | .ok a s' => Q a s'
    | .error e s' => E e s'

/-- A call keeps `I` when it holds after the call, also when the call raises. -/
def Keeps (I : σ → Prop) (m : Call ε σ α) : Prop := Meets I m (fun _ => I) (fun _ => I)

variable {P : σ → Prop} {Q : α → σ → Prop} {R : β → σ → Prop} {E : ε → σ → Prop} {I : σ → Prop}

theorem Meets.of_ok {m : Call ε σ α} (h : Meets P m Q E) {s s' : σ} {a : α} (hp : P s)
    (hm : m s = .ok a s') : Q a s' := by
  have := h s hp
  rwa [hm] at this

theorem Meets.imp {P' : σ → Prop} {Q' : α → σ → Prop} {E' : ε → σ → Prop} {m : Call ε σ α}
    (h : Meets P m Q E) (hp : ∀ s, P' s → P s) (hq : ∀ a s, Q a s → Q' a s)
    (he : ∀ e s, E e s → E' e s) : Meets P' m Q' E' := by
  intro s hs
  have h1 := h s (hp s hs)
  cases hm : m s with
  | ok a s' => rw [hm] at h1; exact hq a s' h1
  | error e s' => rw [hm] at h1; exact he e s' h1

theorem Meets.and {P' : σ → Prop} {Q' : α → σ → Prop} {E' : ε → σ → Prop} {m : Call ε σ α}
    (h : Meets P m Q E) (h' : Meets P' m Q' E') :
    Meets (fun s => P s ∧ P' s) m (fun a s => Q a s ∧ Q' a s) (fun e s => E e s ∧ E' e s) := by
  intro s hs
  have h1 := h s hs.1
  have h2 := h' s hs.2
  cases hm : m s <;> rw [hm] at h1 h2 <;> exact ⟨h1, h2⟩

theorem meets_pure {a : α} (h : ∀ s, P s → Q a s) : Meets P (pure a) Q E := h

theorem meets_bind {m : Call ε σ α} {f : α → Call ε σ β} (hm : Meets P m Q E)
    (hf : ∀ a, Meets (Q a) (f a) R E) : Meets P (m >>= f) R E := by
  intro s hs
  have h1 := hm s hs
  rw [bind_apply]
  cases hms : m s with
  | ok a s' => rw [hms] at h1; exact hf a s' h1
  | error e s' => rw [hms] at h1; exact h1

/-- The loop rule for an assertion that each turn keeps. -/
theorem meets_forM_of_mem (xs : List α) (f : α → Call ε σ PUnit)
    (h : ∀ x ∈ xs, Meets I (f x) (fun _ => I) E) : Meets I (xs.forM f) (fun _ => I) E := by
  induction xs with
  | nil => exact meets_pure fun _ hs => hs
  | cons x rest ih =>
    exact meets_bind (h x (by simp)) fun _ => ih fun y hy => h y (by simp [hy])

theorem keeps_pure (a : α) : Keeps I (pure a : Call ε σ α) := fun _ h => h

theorem keeps_bind {m : Call ε σ α} {f : α → Call ε σ β} (hm : Keeps I m)
    (hf : ∀ a, Keeps I (f a)) : Keeps I (m >>= f) := meets_bind hm hf

theorem keeps_forM (xs : List α) (f : α → Call ε σ PUnit) (h : ∀ x, Keeps I (f x)) :
    Keeps I (xs.forM f) := meets_forM_of_mem xs f fun x _ => h x

/-- What a call keeps may promise less where it raises. -/
theorem Keeps.meets {m : Call ε σ α} (h : Keeps I m) {E : ε → σ → Prop}
    (he : ∀ e s, I s → E e s) : Meets I m (fun _ => I) E :=
  Meets.imp h (fun _ hs => hs) (fun _ _ hs => hs) he

theorem Meets.leaves {J : σ → Prop} {m : Call ε σ α} (h : Meets P m (fun _ => J) (fun _ => J))
    {s : σ} (hs : P s) : J (leaves m s) := by
  have := h s hs
  unfold calls.leaves
  cases hm : m s <;> rw [hm] at this <;> exact this

theorem Keeps.leaves {m : Call ε σ α} (h : Keeps I m) {s : σ} (hs : I s) : I (leaves m s) :=
  Meets.leaves h hs

/-! ## Outcomes

A caller that does not catch the exception sees the value or the exception. -/

/-- The value meets `Q`, or the exception meets `E`. -/
def Gives (x : Except ε α) (Q : α → Prop) (E : ε → Prop) : Prop :=
  match x with
  | .ok a => Q a
  | .error e => E e

variable {x : Except ε α} {q q' : α → Prop} {r : β → Prop} {e e' : ε → Prop}

theorem gives_ok {a : α} (h : q a) : Gives (.ok a : Except ε α) q e := h

theorem gives_pure {a : α} (h : q a) : Gives (pure a : Except ε α) q e := h

theorem gives_bind {f : α → Except ε β} (hx : Gives x q e) (hf : ∀ a, q a → Gives (f a) r e) :
    Gives (x >>= f) r e := by
  cases x with
  | ok a => exact hf a hx
  | error err => exact hx

theorem gives_congr {y : Except ε α} (hx : x = y) (h : Gives y q e) : Gives x q e := by
  subst hx
  exact h

theorem gives_ok_bind {f : α → Except ε β} {a : α} (hx : x = .ok a) (h : Gives (f a) r e) :
    Gives (x >>= f) r e := by
  subst hx
  exact h

theorem gives_error_bind {f : α → Except ε β} {err : ε} (hx : x = .error err) (h : e err) :
    Gives (x >>= f) r e := by
  subst hx
  exact h

theorem Gives.imp (h : Gives x q e) (hq : ∀ a, q a → q' a) (he : ∀ err, e err → e' err) :
    Gives x q' e' := by
  cases x with
  | ok a => exact hq a h
  | error err => exact he err h

/-- The exception is the one of `x` itself. -/
theorem Gives.error_eq (h : Gives x q e) : Gives x q fun err => x = .error err ∧ e err := by
  cases x with
  | ok a => exact h
  | error err => exact ⟨rfl, h⟩

theorem Gives.of_ok (h : Gives x q e) {a : α} (ha : x = .ok a) : q a := by subst ha; exact h

theorem Gives.of_error (h : Gives x q e) {err : ε} (he : x = .error err) : e err := by
  subst he; exact h

theorem gives_of_ok {a : α} (hx : x = .ok a) (h : q a) : Gives x q e := by subst hx; exact h

/-- Anything that the call can give or raise. -/
theorem gives_any (x : Except ε α) : Gives x (fun _ => True) (fun _ => True) := by
  cases x <;> exact trivial

theorem gives_foldlM {f : α → β → Except ε α} {a : α} (xs : List β)
    (ha : q a) (h : ∀ a, q a → ∀ b ∈ xs, Gives (f a b) q e) : Gives (xs.foldlM f a) q e := by
  induction xs generalizing a with
  | nil => exact ha
  | cons b xs ih =>
    rw [List.foldlM_cons]
    exact gives_bind (h a ha b List.mem_cons_self) fun a ha =>
      ih ha fun a ha b hb => h a ha b (List.mem_cons_of_mem _ hb)

theorem gives_mapError {ε' : Type} {g : ε → ε'}
    (h : Gives x q fun _ => True) : Gives (x.mapError g) q fun _ => True := by
  cases x with
  | ok a => exact h
  | error e => exact trivial

end calls
