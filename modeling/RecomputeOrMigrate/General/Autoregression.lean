-- Models that write a text token by token. A token leaves an entry that depends on
-- the entries before it, and the entries of a text decide its next token.
import Mathlib.Data.List.Basic

namespace autoregression

variable {τ κ : Type}

/-- The entry of a token after some entries, and the token that follows. -/
structure Model (τ κ : Type) where
  entry : List κ → τ → κ
  next : List κ → τ

namespace Model

variable (m : Model τ κ)

/-- The entries with those of more tokens, one token after the other. -/
def extend : List κ → List τ → List κ
  | past, [] => past
  | past, t :: ts => extend (past ++ [m.entry past t]) ts

/-- The entries of a text. -/
def entries (text : List τ) : List κ := m.extend [] text

/-- The tokens that the model writes after a text, `n` of them. -/
def generate (text : List τ) : Nat → List τ
  | 0 => []
  | n + 1 => generate text n ++ [m.next (m.entries (text ++ generate text n))]

theorem extend_append (past : List κ) (ts us : List τ) :
    m.extend past (ts ++ us) = m.extend (m.extend past ts) us := by
  induction ts generalizing past with
  | nil => rfl
  | cons t ts ih => exact ih _

theorem entries_append (ts us : List τ) :
    m.entries (ts ++ us) = m.extend (m.entries ts) us := m.extend_append [] ts us

/-- The entries that were there stay in front. -/
theorem extend_eq_append (past : List κ) (ts : List τ) :
    m.extend past ts = past ++ (m.extend past ts).drop past.length := by
  induction ts generalizing past with
  | nil => simp [extend]
  | cons t ts ih =>
    have hpast : past <+: m.extend (past ++ [m.entry past t]) ts := by
      rw [ih]
      exact (List.prefix_append past _).trans (List.prefix_append _ _)
    obtain ⟨more, hmore⟩ := hpast
    rw [extend, ← hmore, List.drop_left]

theorem length_extend (past : List κ) (ts : List τ) :
    (m.extend past ts).length = past.length + ts.length := by
  induction ts generalizing past with
  | nil => rfl
  | cons t ts ih =>
    rw [extend, ih, List.length_append, List.length_singleton, List.length_cons]
    omega

@[simp] theorem length_entries (text : List τ) : (m.entries text).length = text.length := by
  rw [entries, length_extend, List.length_nil, Nat.zero_add]

/-- The entries of a text begin with those of its first tokens. -/
theorem entries_take_append (text : List τ) {n : Nat} (h : n ≤ text.length) :
    m.entries (text.take n) ++ (m.entries text).drop n = m.entries text := by
  have hall : m.entries text = m.extend (m.entries (text.take n)) (text.drop n) := by
    rw [← entries_append, List.take_append_drop]
  rw [hall]
  conv_rhs => rw [extend_eq_append]
  rw [length_entries, List.length_take, Nat.min_eq_left h]

@[simp] theorem length_generate (text : List τ) (n : Nat) : (m.generate text n).length = n := by
  induction n with
  | zero => rfl
  | succ n ih => rw [generate, List.length_append, ih, List.length_singleton]

end Model

end autoregression
