-- Streams of asynchronous work with events, as a GPU has them, and which work is
-- sure to come after which.
import Mathlib.Logic.Relation

namespace streams

variable {σ ω : Type}

/-- What the host issues, in the order of issue. All but `synchronize` only puts
something on a stream. -/
inductive Op (σ ω : Type)
  | work (w : ω) (stream : σ)
  | record (event : Nat) (stream : σ)
  | wait (event : Nat) (stream : σ)
  /-- The host blocks until the event has come. -/
  | synchronize (event : Nat)

def Op.stream : Op σ ω → Option σ
  | .work _ s => some s
  | .record _ s => some s
  | .wait _ s => some s
  | .synchronize _ => none

/-- The operation waits for the event. -/
def Op.WaitsFor (op : Op σ ω) (event : Nat) : Prop :=
  (∃ s, op = .wait event s) ∨ op = .synchronize event

variable {ops more : List (Op σ ω)} {i j : Nat} {s : σ} {op : Op σ ω}

/-- The operation `j` starts when the operation `i` is done, for one of three reasons. A
stream works in the order of issue. An event comes when all is done that its stream got
before the last record. The host issues nothing while it blocks. -/
inductive Direct (ops : List (Op σ ω)) (i j : Nat) : Prop
  | in_order (a b : Op σ ω) (s : σ) : i < j → ops[i]? = some a → ops[j]? = some b →
      a.stream = some s → b.stream = some s → Direct ops i j
  | by_event (event : Nat) (s : σ) (b : Op σ ω) : i < j → ops[i]? = some (.record event s) →
      (∀ k s', i < k → k < j → ops[k]? ≠ some (.record event s')) → ops[j]? = some b →
      b.WaitsFor event → Direct ops i j
  | by_host (event : Nat) (b : Op σ ω) : i < j → ops[i]? = some (.synchronize event) →
      ops[j]? = some b → Direct ops i j

/-- The operation `j` is sure to come after the operation `i`. -/
def Ordered (ops : List (Op σ ω)) (i j : Nat) : Prop := Relation.TransGen (Direct ops) i j

/-- The work `b` is sure to come after the work `a`. -/
def WorkOrdered (ops : List (Op σ ω)) (a b : ω) : Prop :=
  ∃ i j s s', ops[i]? = some (.work a s) ∧ ops[j]? = some (.work b s') ∧ Ordered ops i j

/-- The host has waited until the work was done. -/
def WorkDone (ops : List (Op σ ω)) (a : ω) : Prop :=
  ∃ i j s event, ops[i]? = some (.work a s) ∧ ops[j]? = some (.synchronize event) ∧
    Ordered ops i j

theorem Direct.lt (h : Direct ops i j) : i < j := by
  cases h <;> assumption

theorem Direct.lt_length (h : Direct ops i j) : j < ops.length := by
  cases h with
  | in_order _ _ _ _ _ hj => exact (List.getElem?_eq_some_iff.mp hj).1
  | by_event _ _ _ _ _ _ hj => exact (List.getElem?_eq_some_iff.mp hj).1
  | by_host _ _ _ _ hj => exact (List.getElem?_eq_some_iff.mp hj).1

/-- Work on one stream is ordered as it was issued. -/
theorem workOrdered_of_stream {a b : ω} (hlt : i < j) (ha : ops[i]? = some (.work a s))
    (hb : ops[j]? = some (.work b s)) : WorkOrdered ops a b :=
  ⟨i, j, s, s, ha, hb, .single (.in_order _ _ s hlt ha hb rfl rfl)⟩

theorem getElem?_of_append (hj : j < ops.length) : (ops ++ more)[j]? = ops[j]? :=
  List.getElem?_append_left hj

/-- What is issued later does not change what came before. -/
theorem Direct.of_append (h : Direct (ops ++ more) i j) (hj : j < ops.length) :
    Direct ops i j := by
  have hi : i < ops.length := Nat.lt_trans h.lt hj
  cases h with
  | in_order a b s hlt ha hb hsa hsb =>
    rw [getElem?_of_append hi] at ha
    rw [getElem?_of_append hj] at hb
    exact .in_order a b s hlt ha hb hsa hsb
  | by_event e s b hlt ha hlast hb hw =>
    rw [getElem?_of_append hi] at ha
    rw [getElem?_of_append hj] at hb
    refine .by_event e s b hlt ha (fun k s' hik hkj => ?_) hb hw
    have hk : (ops ++ more)[k]? = ops[k]? := getElem?_of_append (Nat.lt_trans hkj hj)
    rw [← hk]
    exact hlast k s' hik hkj
  | by_host e b hlt ha hb =>
    rw [getElem?_of_append hi] at ha
    rw [getElem?_of_append hj] at hb
    exact .by_host e b hlt ha hb

theorem Ordered.of_append (h : Ordered (ops ++ more) i j) (hj : j < ops.length) :
    Ordered ops i j := by
  induction h with
  | single hd => exact .single (hd.of_append hj)
  | tail _ hd ih => exact .tail (ih (Nat.lt_trans hd.lt hj)) (hd.of_append hj)

/-! ## Work that nothing waits for

As long as the events that a stream records after an operation are waited for on that
stream only, everything that is sure to come after the operation is on the stream. -/

/-- All that comes after the operation `i` is on the stream `s`, and the events that it
records are events of `E`. -/
def OnlyOn (ops : List (Op σ ω)) (i : Nat) (s : σ) (E : Nat → Prop) : Prop :=
  ∀ j, (j = i ∨ Ordered ops i j) → ∃ op, ops[j]? = some op ∧ op.stream = some s ∧
    ∀ e s', op = .record e s' → E e

/-- The operation is on the stream, where it records events of `E` only, or it is
elsewhere and waits for no event of `E`. -/
def Op.Apart (op : Op σ ω) (s : σ) (E : Nat → Prop) : Prop :=
  (op.stream = some s ∧ ∀ e s', op = .record e s' → E e) ∨
    (op.stream ≠ some s ∧ ∀ e, op.WaitsFor e → ¬ E e)

theorem onlyOn_last (w : ω) (s : σ) (E : Nat → Prop) (ops : List (Op σ ω)) :
    OnlyOn (ops ++ [.work w s]) ops.length s E := by
  have hlast : (ops ++ [Op.work w s])[ops.length]? = some (.work w s) := by simp
  rintro j (rfl | h)
  · exact ⟨_, hlast, rfl, nofun⟩
  · -- nothing was issued after it
    exfalso
    induction h with
    | single h =>
      have hlt := h.lt
      have hlen := h.lt_length
      simp only [List.length_append, List.length_singleton] at hlen
      omega
    | tail _ _ ih => exact ih

theorem OnlyOn.snoc {E : Nat → Prop} (h : OnlyOn ops i s E) (hop : op.Apart s E) :
    OnlyOn (ops ++ [op]) i s E := by
  have hi : i < ops.length := by
    obtain ⟨_, hget, -⟩ := h i (Or.inl rfl)
    exact (List.getElem?_eq_some_iff.mp hget).1
  have hstays : ∀ j, j < ops.length → (j = i ∨ Ordered (ops ++ [op]) i j) →
      j = i ∨ Ordered ops i j := fun _ hj hor => hor.imp_right fun hord => hord.of_append hj
  rintro j (rfl | hord)
  · obtain ⟨a, hget, ha⟩ := h j (Or.inl rfl)
    exact ⟨a, (getElem?_of_append hi).trans hget, ha⟩
  · by_cases hj : j < ops.length
    · obtain ⟨a, hget, ha⟩ := h j (hstays j hj (Or.inr hord))
      exact ⟨a, (getElem?_of_append hj).trans hget, ha⟩
    · -- the new operation, and the last step that orders it
      obtain ⟨k, hk, hd⟩ : ∃ k, (k = i ∨ Ordered (ops ++ [op]) i k) ∧ Direct (ops ++ [op]) k j := by
        cases hord with
        | single hd => exact ⟨i, Or.inl rfl, hd⟩
        | tail hord' hd => exact ⟨_, Or.inr hord', hd⟩
      have hlen := hd.lt_length
      simp only [List.length_append, List.length_singleton] at hlen
      obtain rfl : j = ops.length := by omega
      have hnew : (ops ++ [op])[ops.length]? = some op := by simp
      have hkl : k < ops.length := hd.lt
      obtain ⟨a, hget, hsa, hrec⟩ := h k (hstays k hkl hk)
      refine ⟨op, hnew, ?_⟩
      rcases hop with hop | hop
      · exact hop
      · exfalso
        cases hd with
        | in_order a' b s' _ ha hb hsa' hsb =>
          rw [getElem?_of_append hkl, hget] at ha
          rw [hnew] at hb
          cases ha
          cases hb
          exact hop.1 (hsb.trans (hsa'.symm.trans hsa))
        | by_event e s' b _ ha _ hb hw =>
          rw [getElem?_of_append hkl, hget] at ha
          rw [hnew] at hb
          cases ha
          cases hb
          exact hop.2 e hw (hrec e s' rfl)
        | by_host e b _ ha _ =>
          rw [getElem?_of_append hkl, hget] at ha
          cases ha
          cases hsa

theorem OnlyOn.append {E : Nat → Prop} (h : OnlyOn ops i s E) (hmore : ∀ op ∈ more, op.Apart s E) :
    OnlyOn (ops ++ more) i s E := by
  induction more generalizing ops with
  | nil =>
    rw [List.append_nil]
    exact h
  | cons op rest ih =>
    rw [List.append_cons]
    apply ih
    · exact h.snoc (hmore op List.mem_cons_self)
    · exact fun op' hop' => hmore op' (List.mem_cons_of_mem op hop')

/-- Work on another stream does not come after the operation for sure. -/
theorem OnlyOn.not_ordered {E : Nat → Prop} (h : OnlyOn ops i s E) (hj : ops[j]? = some op)
    (hs : op.stream ≠ some s) : ¬ Ordered ops i j := by
  intro hord
  obtain ⟨op', hget, hs', -⟩ := h j (Or.inr hord)
  rw [hj] at hget
  cases hget
  exact hs hs'

end streams
