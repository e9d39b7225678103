-- The laws of one request: what a new token changes, when it is the last one,
-- and which positions of the text a request sends to the workers.
import Mathlib.Data.List.Basic
import RecomputeOrMigrate.Callbacks
import RecomputeOrMigrate.General.Calls

open calls

namespace distserve

namespace Request

/-! ## One token -/

/-- The request with one more token, finished or not. -/
def grow (r : Request) (token : String) (token_id : TokenId) : Request :=
  check_finish_condition
    { r with
      generated_tokens := r.generated_tokens ++ [token]
      generated_token_ids := r.generated_token_ids ++ [token_id]
      tokens_paired := r.paired_append token token_id }

/-- `add_generated_token` raises only for a request beyond its limit. -/
theorem add_generated_token_eq {r : Request}
    (h : r.get_output_len ≤ r.sampling_params.max_tokens) (token : String) (token_id : TokenId) :
    r.add_generated_token token token_id = .ok (r.grow token token_id) := by
  unfold add_generated_token
  rw [if_neg (Nat.not_lt.mpr h)]
  rfl

/-- The rule of `_check_finish_condition` for a token that comes after `output_len`
others. -/
def IsLastToken (sampling_params : SamplingParams) (output_len : Nat) (token : String) : Prop :=
  sampling_params.max_tokens ≤ output_len + 1 ∨
    (sampling_params.ignore_eos = false ∧ token ∈ sampling_params.stop)

instance (p : SamplingParams) (n : Nat) (token : String) : Decidable (IsLastToken p n token) :=
  inferInstanceAs (Decidable (_ ∨ _))

theorem check_finish_condition_eq (r : Request) :
    r.check_finish_condition =
      { r with is_finished := r.is_finished ||
          decide (r.sampling_params.max_tokens ≤ r.get_output_len) ||
          (!r.sampling_params.ignore_eos &&
            r.generated_tokens.getLast?.any (· ∈ r.sampling_params.stop)) } := by
  unfold check_finish_condition
  cases r with
  | mk i p sp ts is f hp =>
    simp only [get_output_len]
    by_cases h1 : sp.max_tokens ≤ is.length <;> cases h2 : sp.ignore_eos <;>
      cases h3 : ts.getLast?.any (· ∈ sp.stop) <;> simp [h1, h2, h3]

section Grow

variable (r : Request) (token : String) (token_id : TokenId)

@[simp] theorem grow_request_id : (r.grow token token_id).request_id = r.request_id := by
  simp [grow, check_finish_condition_eq]

@[simp] theorem grow_prompt_token_ids :
    (r.grow token token_id).prompt_token_ids = r.prompt_token_ids := by
  simp [grow, check_finish_condition_eq]

@[simp] theorem grow_sampling_params :
    (r.grow token token_id).sampling_params = r.sampling_params := by
  simp [grow, check_finish_condition_eq]

@[simp] theorem grow_generated_tokens :
    (r.grow token token_id).generated_tokens = r.generated_tokens ++ [token] := by
  simp [grow, check_finish_condition_eq]

@[simp] theorem grow_generated_token_ids :
    (r.grow token token_id).generated_token_ids = r.generated_token_ids ++ [token_id] := by
  simp [grow, check_finish_condition_eq]

@[simp] theorem grow_get_input_len : (r.grow token token_id).get_input_len = r.get_input_len := by
  simp [get_input_len]

@[simp] theorem grow_get_output_len :
    (r.grow token token_id).get_output_len = r.get_output_len + 1 := by
  simp [get_output_len]

/-- An unfinished request is finished by its last token. -/
theorem grow_is_finished (h : r.is_finished = false) :
    (r.grow token token_id).is_finished =
      decide (IsLastToken r.sampling_params r.get_output_len token) := by
  unfold grow
  rw [check_finish_condition_eq]
  rw [Bool.eq_iff_iff, decide_eq_true_iff]
  simp [h, get_output_len, IsLastToken]

end Grow

/-! ## Requests that may grow -/

/-- A request that is not finished may get more tokens. -/
def MayGrow (r : Request) : Prop :=
  r.is_finished = false ∧ r.get_output_len < r.sampling_params.max_tokens

/-- A request is not finished as long as it is below its limit. -/
theorem grow_may_grow {r : Request} (h : r.MayGrow) (token : String) (token_id : TokenId)
    (hf : (r.grow token token_id).is_finished = false) : (r.grow token token_id).MayGrow := by
  refine ⟨hf, ?_⟩
  rw [grow_is_finished r token token_id h.1, decide_eq_false_iff_not] at hf
  rw [grow_get_output_len, grow_sampling_params]
  by_contra hn
  exact hf (Or.inl (Nat.not_lt.mp hn))

theorem fresh_may_grow {r : Request} (ht : r.generated_token_ids = [])
    (hf : r.is_finished = false) : r.MayGrow := by
  refine ⟨hf, ?_⟩
  have := r.sampling_params.max_tokens_pos
  simp only [get_output_len, ht, List.length_nil]
  omega

/-! ## The positions of the text -/

/-- The text of a request so far: the prompt and the tokens after it. -/
def text (r : Request) : List TokenId := r.prompt_token_ids ++ r.generated_token_ids

theorem is_context_stage_iff (r : Request) : r.is_context_stage = true ↔ r.get_output_len = 0 := by
  simp [is_context_stage, get_output_len, r.tokens_paired]

/-- The tokens that a request sends stand in its text at the index that it sends
with them, and they are the end of the text. -/
theorem sent_tokens (r : Request) :
    r.text.drop r.get_first_new_token_index = r.get_input_tokens_ids := by
  unfold get_first_new_token_index get_input_tokens_ids text
  by_cases h : r.is_context_stage = true
  · have h0 := (is_context_stage_iff r).mp h
    simp only [h, if_true, List.drop_zero]
    rw [List.length_eq_zero_iff.mp h0, List.append_nil]
  · have h0 : r.get_output_len ≠ 0 := fun hc => h ((is_context_stage_iff r).mpr hc)
    simp only [h, get_input_len]
    obtain ⟨pre, last, hpre⟩ : ∃ pre last, r.generated_token_ids = pre ++ [last] := by
      rcases List.eq_nil_or_concat r.generated_token_ids with hn | ⟨pre, last, hpre⟩
      · simp [get_output_len, hn] at h0
      · exact ⟨pre, last, by simpa using hpre⟩
    unfold get_output_len
    rw [hpre, ← List.append_assoc, List.getLast?_concat, Option.toList_some]
    apply List.drop_left'
    simp

/-- The end of what a request sends is the end of its text. -/
theorem sent_end (r : Request) :
    r.get_first_new_token_index + r.get_num_input_tokens = r.get_input_len + r.get_output_len := by
  have h := congrArg List.length r.sent_tokens
  have hle : r.get_first_new_token_index ≤ r.text.length := by
    unfold get_first_new_token_index
    split
    · omega
    · simp [text, get_input_len, get_output_len]
  have ht : r.text.length = r.get_input_len + r.get_output_len := by
    simp [text, get_input_len, get_output_len]
  rw [List.length_drop] at h
  unfold get_num_input_tokens
  omega

/-- A request in the decoding stage sends one token. -/
theorem one_input_token {r : Request} (h : r.get_output_len ≠ 0) : r.get_num_input_tokens = 1 := by
  have h1 := r.sent_end
  have hc : r.is_context_stage = false := by
    rw [← Bool.not_eq_true, is_context_stage_iff]
    exact h
  unfold get_first_new_token_index at h1
  rw [hc] at h1
  simp only [Bool.false_eq_true, if_false] at h1
  omega

end Request

/-! ## The requests of a batch -/

namespace BatchedRequests

/-- The requests of a batch after the workers gave some tokens. -/
def growAll : List Request → List String → List TokenId → List Request
  | r :: rs, t :: ts, i :: is => r.grow t i :: growAll rs ts is
  | rs, _, _ => rs

theorem add_generated_tokens_eq {rs : List Request}
    (h : ∀ r ∈ rs, r.get_output_len ≤ r.sampling_params.max_tokens) (ts : List String)
    (is : List TokenId) : add_generated_tokens rs ts is = .ok (growAll rs ts is) := by
  induction rs generalizing ts is with
  | nil => cases ts <;> cases is <;> rfl
  | cons r rs ih =>
    cases ts with
    | nil => cases is <;> rfl
    | cons t ts =>
      cases is with
      | nil => rfl
      | cons i is =>
        unfold add_generated_tokens growAll
        rw [Request.add_generated_token_eq (h r (by simp)), ih fun r' hr' => h r' (by simp [hr'])]
        rfl

/-- What each request keeps when it grows is kept in the batch. -/
theorem growAll_map {α : Type} (f : Request → α) (hf : ∀ r t i, f (r.grow t i) = f r)
    (rs : List Request) (ts : List String) (is : List TokenId) :
    (growAll rs ts is).map f = rs.map f := by
  induction rs generalizing ts is with
  | nil => cases ts <;> cases is <;> rfl
  | cons r rs ih =>
    cases ts with
    | nil => cases is <;> rfl
    | cons t ts =>
      cases is with
      | nil => rfl
      | cons i is => simp [growAll, hf, ih]

@[simp] theorem length_growAll (rs : List Request) (ts : List String) (is : List TokenId) :
    (growAll rs ts is).length = rs.length := by
  have := congrArg List.length (growAll_map (·.request_id) (fun r t i => r.grow_request_id t i)
    rs ts is)
  rwa [List.length_map, List.length_map] at this

/-- The ids of a batch that grew, first those of the finished requests. -/
theorem ids_of_grown (rs : List Request) (ts : List String) (is : List TokenId) :
    (((growAll rs ts is).filter (·.is_finished)).map (·.request_id) ++
      ((growAll rs ts is).filter fun q => !q.is_finished).map (·.request_id)).Perm
        (rs.map (·.request_id)) := by
  rw [← growAll_map (·.request_id) (fun r t i => r.grow_request_id t i) rs ts is, ← List.map_append]
  exact (List.filter_append_perm _ _).map _

/-- A request of the batch stays as it was or grows by one token. -/
theorem mem_growAll {rs : List Request} {ts : List String} {is : List TokenId} {q : Request}
    (h : q ∈ growAll rs ts is) : ∃ r ∈ rs, q = r ∨ ∃ t i, q = r.grow t i := by
  induction rs generalizing ts is with
  | nil => cases ts <;> cases is <;> simp [growAll] at h
  | cons r rs ih =>
    cases ts with
    | nil => exact ⟨q, by cases is <;> simpa [growAll] using h, Or.inl rfl⟩
    | cons t ts =>
      cases is with
      | nil => exact ⟨q, by simpa [growAll] using h, Or.inl rfl⟩
      | cons i is =>
        rcases List.mem_cons.mp h with rfl | h
        · exact ⟨r, by simp, Or.inr ⟨t, i, rfl⟩⟩
        · obtain ⟨r', hr', hq⟩ := ih h
          exact ⟨r', by simp [hr'], hq⟩

/-- With one token for each request, each of them grows. -/
theorem mem_growAll_of_length {rs : List Request} {ts : List String} {is : List TokenId}
    (ht : ts.length = rs.length) (hi : is.length = rs.length) {q : Request}
    (h : q ∈ growAll rs ts is) : ∃ r ∈ rs, ∃ t i, q = r.grow t i := by
  induction rs generalizing ts is with
  | nil => cases ts <;> cases is <;> simp [growAll] at h
  | cons r rs ih =>
    obtain ⟨t, ts, rfl⟩ := List.exists_cons_of_length_eq_add_one ht
    obtain ⟨i, is, rfl⟩ := List.exists_cons_of_length_eq_add_one hi
    rcases List.mem_cons.mp h with rfl | h
    · exact ⟨r, by simp, t, i, rfl⟩
    · obtain ⟨r', hr', hq⟩ := ih (by simpa using ht) (by simpa using hi) h
      exact ⟨r', by simp [hr'], hq⟩

end BatchedRequests

end distserve
