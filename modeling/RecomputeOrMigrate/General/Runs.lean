-- Runs of a machine. In each state, an action cannot happen, or it raises, or
-- it leads to the next state. A run goes on as long as nothing raises.
import Mathlib.Logic.Relation
import RecomputeOrMigrate.General.Calls

open calls

namespace runs

variable {ε σ τ α β : Type}

/-- What an action does: `none` when it cannot happen in this state. -/
abbrev Machine (ε σ α : Type) := σ → α → Option (Except ε σ)

/-- A machine whose actions also give an output, without the output. -/
def withoutOutput (act : σ → α → Option (Except ε (σ × β))) : Machine ε σ α :=
  fun s a => (act s a).map fun x => (·.1) <$> x

theorem withoutOutput_eq_ok {act : σ → α → Option (Except ε (σ × β))} {s s' : σ} {a : α} :
    withoutOutput act s a = some (.ok s') ↔ ∃ b, act s a = some (.ok (s', b)) := by
  unfold withoutOutput
  cases act s a with
  | none => simp
  | some x => cases x <;> simp [Functor.map, Except.map, Prod.ext_iff]

theorem withoutOutput_eq_error {act : σ → α → Option (Except ε (σ × β))} {s : σ} {a : α} {e : ε} :
    withoutOutput act s a = some (.error e) ↔ act s a = some (.error e) := by
  unfold withoutOutput
  cases act s a with
  | none => simp
  | some x => cases x <;> simp [Functor.map, Except.map]

/-- Some action leads from one state to the next. -/
def Steps (m : Machine ε σ α) (s s' : σ) : Prop := ∃ a, m s a = some (.ok s')

/-- Actions in any order lead from the first state to the last. -/
def Reaches (m : Machine ε σ α) (s s' : σ) : Prop := Relation.ReflTransGen (Steps m) s s'

/-- The run of a list of actions, for a machine that is evaluated. -/
def runAll (m : Machine ε σ α) : σ → List α → Option σ
  | s, [] => some s
  | s, a :: rest =>
    match m s a with
    | some (.ok s') => runAll m s' rest
    | _ => none

theorem Reaches.refl (m : Machine ε σ α) (s : σ) : Reaches m s s := Relation.ReflTransGen.refl

theorem Reaches.tail {m : Machine ε σ α} {s s' s'' : σ} {a : α} (h : Reaches m s s')
    (ha : m s' a = some (.ok s'')) : Reaches m s s'' := Relation.ReflTransGen.tail h ⟨a, ha⟩

theorem reaches_of_runAll {m : Machine ε σ α} {actions : List α} {s s' : σ}
    (h : runAll m s actions = some s') : Reaches m s s' := by
  induction actions generalizing s with
  | nil => cases h; exact Reaches.refl m _
  | cons a rest ih =>
    simp only [runAll] at h
    split at h
    · next s1 h1 => exact Relation.ReflTransGen.head ⟨a, h1⟩ (ih h)
    · cases h

theorem runAll_one {m : Machine ε σ α} {a : α} {s s' : σ} :
    runAll m s [a] = some s' ↔ m s a = some (.ok s') := by
  simp only [runAll]
  cases m s a with
  | none => simp
  | some x => cases x <;> simp

/-- A run that is evaluated reaches a state that passes the test. -/
theorem reaches_of_any {m : Machine ε σ α} {s : σ} (actions : List α) (p : σ → Bool)
    (h : (runAll m s actions).any p = true) : ∃ s', Reaches m s s' ∧ p s' = true := by
  obtain ⟨s', hr, hp⟩ := (Option.any_eq_true _ _).mp h
  exact ⟨s', reaches_of_runAll hr, hp⟩

/-- The machine with only those steps that meet `p`. -/
def restrict (m : Machine ε σ α) (p : σ → α → Prop) [∀ s a, Decidable (p s a)] :
    Machine ε σ α := fun s a => if p s a then m s a else none

theorem restrict_eq_some {m : Machine ε σ α} {p : σ → α → Prop} [∀ s a, Decidable (p s a)] {s : σ}
    {a : α} {x : Except ε σ} : restrict m p s a = some x ↔ p s a ∧ m s a = some x := by
  unfold restrict
  by_cases hp : p s a <;> simp [hp]

/-- The machine with notes beside its state, which each action may add to. -/
def beside (m : Machine ε σ α) (note : σ → α → τ → τ) : Machine ε (σ × τ) α :=
  fun (s, notes) a => (m s a).map fun x => (·, note s a notes) <$> x

theorem beside_eq_ok {m : Machine ε σ α} {note : σ → α → τ → τ} {s s' : σ} {a : α} {t t' : τ} :
    beside m note (s, t) a = some (.ok (s', t')) ↔ m s a = some (.ok s') ∧ note s a t = t' := by
  unfold beside
  dsimp only
  cases m s a with
  | none => simp
  | some x => cases x <;> simp [Functor.map, Except.map]

/-- The machine with the outputs of its actions so far. -/
def withLog (act : σ → α → Option (Except ε (σ × List β))) : Machine ε (σ × List β) α :=
  fun (s, log) a => (act s a).map fun x => (fun (s', bs) => (s', log ++ bs)) <$> x

theorem withLog_eq_ok {act : σ → α → Option (Except ε (σ × List β))} {s s' : σ} {a : α}
    {log log' : List β} :
    withLog act (s, log) a = some (.ok (s', log')) ↔
      ∃ bs, act s a = some (.ok (s', bs)) ∧ log' = log ++ bs := by
  unfold withLog
  dsimp only
  cases act s a with
  | none => simp
  | some x =>
    cases x with
    | error e => simp [Functor.map, Except.map]
    | ok r =>
      obtain ⟨s₁, bs⟩ := r
      constructor
      · intro h
        cases h
        exact ⟨bs, rfl, rfl⟩
      · rintro ⟨_, hact, rfl⟩
        cases hact
        rfl

/-- Each action keeps `I`, and only exceptions of the kind `E` can come. -/
def Sound (m : Machine ε σ α) (I : σ → Prop) (E : ε → Prop) : Prop :=
  ∀ s a x, I s → m s a = some x → Gives x I E

theorem sound_withoutOutput {act : σ → α → Option (Except ε (σ × β))} {I : σ → Prop}
    {E : ε → Prop} (h : ∀ s a x, I s → act s a = some x → Gives x (fun p => I p.1) E) :
    Sound (withoutOutput act) I E := by
  intro s a x hs hx
  unfold withoutOutput at hx
  obtain ⟨y, hy, rfl⟩ := Option.map_eq_some_iff.mp hx
  have := h s a y hs hy
  cases y <;> exact this

theorem Sound.step {m : Machine ε σ α} {I : σ → Prop} {E : ε → Prop} (h : Sound m I E) {s s' : σ}
    {a : α} (hs : I s) (ha : m s a = some (.ok s')) : I s' := h s a (.ok s') hs ha

/-- What holds at first and is kept by each action holds in every state of a run. -/
theorem Sound.invariant {m : Machine ε σ α} {I : σ → Prop} {E : ε → Prop} (h : Sound m I E)
    {s s' : σ} (hs : I s) (hr : Reaches m s s') : I s' := by
  induction hr with
  | refl => exact hs
  | tail _ hstep ih => exact h.step ih hstep.choose_spec

/-! ## Parts of an action

An action may be several parts that follow each other, each with its outputs. -/

/-- The parts lead from the first state to the last and give these outputs. -/
inductive Emits (part : σ → List β → σ → Prop) : σ → List β → σ → Prop
  | refl (s : σ) : Emits part s [] s
  | tail {s s' s'' : σ} {bs cs : List β} : Emits part s bs s' → part s' cs s'' →
      Emits part s (bs ++ cs) s''

variable {part : σ → List β → σ → Prop}

theorem Emits.single {s s' : σ} {bs : List β} (h : part s bs s') : Emits part s bs s' :=
  (Emits.refl s).tail h

/-- What each part keeps holds after all of them. -/
theorem Emits.invariant {I : σ → Prop} (hI : ∀ s bs s', I s → part s bs s' → I s') {s s' : σ}
    {bs : List β} (h : Emits part s bs s') (hs : I s) : I s' := by
  induction h with
  | refl => exact hs
  | tail _ hpart ih => exact hI _ _ _ ih hpart

/-- What each part keeps beside the outputs so far holds after all of them. -/
theorem Emits.logged {J : σ → List β → Prop}
    (hJ : ∀ s log bs s', J s log → part s bs s' → J s' (log ++ bs)) {s s' : σ} {bs : List β}
    (h : Emits part s bs s') {log : List β} (hs : J s log) : J s' (log ++ bs) := by
  induction h with
  | refl =>
    rw [List.append_nil]
    exact hs
  | tail _ hpart ih =>
    rw [← List.append_assoc]
    exact hJ _ _ _ _ ih hpart

/-- The parts of one machine are parts of another one. -/
theorem Emits.map {υ : Type} {part' : υ → List β → υ → Prop} (k : σ → υ)
    (hk : ∀ s bs s', part s bs s' → part' (k s) bs (k s')) {s s' : σ} {bs : List β}
    (h : Emits part s bs s') : Emits part' (k s) bs (k s') := by
  induction h with
  | refl => exact .refl _
  | tail _ hpart ih => exact ih.tail (hk _ _ _ hpart)

/-- A second state follows the outputs one by one. When each part does this, and both
states together do a part of another machine, then so do all parts. -/
theorem Emits.follows {υ : Type} {J : τ → σ → Prop} {f : τ → β → Except ε τ}
    {part' : υ → List β → υ → Prop} (k : τ → σ → υ)
    (hJ : ∀ t s bs s', J t s → part s bs s' →
      ∃ t', bs.foldlM f t = .ok t' ∧ J t' s' ∧ part' (k t s) bs (k t' s')) {t : τ} {s s' : σ}
    {bs : List β} (h : Emits part s bs s') (hs : J t s) :
    ∃ t', bs.foldlM f t = .ok t' ∧ J t' s' ∧ Emits part' (k t s) bs (k t' s') := by
  induction h with
  | refl => exact ⟨t, rfl, hs, .refl _⟩
  | tail _ hpart ih =>
    obtain ⟨t1, h1, hJ1, hd1⟩ := ih
    obtain ⟨t2, h2, hJ2, hd2⟩ := hJ _ _ _ _ hJ1 hpart
    refine ⟨t2, ?_, hJ2, hd1.tail hd2⟩
    rw [List.foldlM_append, h1]
    exact h2

end runs
