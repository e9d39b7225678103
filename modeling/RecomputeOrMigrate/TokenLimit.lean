-- The length limit of a request (request.py): how many tokens it stores when
-- `add_generated_token` is called any number of times.
import Mathlib.Data.List.Induction
import RecomputeOrMigrate.RequestGrowth

namespace distserve.Request

/-- The arguments of one call of `add_generated_token`. -/
abbrev TokenCall := String × TokenId

/-- A call that raises leaves the request as it is: the check comes first. -/
def called (r : Request) (c : TokenCall) : Request :=
  (r.add_generated_token c.1 c.2).toOption.getD r

/-- The request after these calls. -/
def after_calls (fresh : Request) (calls : List TokenCall) : Request := calls.foldl called fresh

/-- One of the calls is the `max_tokens`-th, or it brings a stop token that counts. -/
def Ended (sampling_params : SamplingParams) (calls : List TokenCall) : Prop :=
  ∃ k c, calls[k]? = some c ∧ (k + 1 = sampling_params.max_tokens ∨
    (sampling_params.ignore_eos = false ∧ c.1 ∈ sampling_params.stop))

/-- The length limit, in every state of the run of these calls. -/
structure KeepsItsLimit (fresh : Request) (calls : List TokenCall) : Prop where
  stored_le : ∀ before, before <+: calls →
    (fresh.after_calls before).generated_tokens.length ≤ fresh.sampling_params.max_tokens
  /-- A call that would exceed the limit raises and changes nothing. -/
  exceeding : ∀ before c, before ++ [c] <+: calls →
    fresh.sampling_params.max_tokens < (fresh.after_calls before).generated_tokens.length + 1 →
      (fresh.after_calls before).add_generated_token c.1 c.2 =
          .error (.tokens_exceed fresh.sampling_params.max_tokens fresh.request_id) ∧
        fresh.after_calls (before ++ [c]) = fresh.after_calls before
  paired : ∀ before, before <+: calls → (fresh.after_calls before).generated_tokens.length =
    (fresh.after_calls before).generated_token_ids.length
  finished_iff : ∀ before, before <+: calls →
    ((fresh.after_calls before).is_finished = true ↔ Ended fresh.sampling_params before)
  stays_finished : ∀ before c, before ++ [c] <+: calls →
    (fresh.after_calls before).is_finished = true →
      (fresh.after_calls (before ++ [c])).is_finished = true

variable {r : Request} {calls : List TokenCall} {c : TokenCall} {sampling_params : SamplingParams}

theorem after_calls_append (fresh : Request) (calls : List TokenCall) (c : TokenCall) :
    fresh.after_calls (calls ++ [c]) = (fresh.after_calls calls).called c := by
  unfold after_calls
  rw [List.foldl_append]
  rfl

/-! ## One call -/

theorem add_generated_token_full (h : r.sampling_params.max_tokens < r.get_output_len)
    (c : TokenCall) : r.add_generated_token c.1 c.2 =
      .error (.tokens_exceed r.sampling_params.max_tokens r.request_id) :=
  if_pos h

theorem called_full (h : r.sampling_params.max_tokens < r.get_output_len) (c : TokenCall) :
    r.called c = r := by
  unfold called
  rw [add_generated_token_full h]
  rfl

theorem called_below (h : r.get_output_len ≤ r.sampling_params.max_tokens) (c : TokenCall) :
    r.called c = r.grow c.1 c.2 := by
  unfold called
  rw [add_generated_token_eq h]
  rfl

theorem grow_is_finished_iff (r : Request) (token : String) (token_id : TokenId) :
    (r.grow token token_id).is_finished = true ↔
      r.is_finished = true ∨ IsLastToken r.sampling_params r.get_output_len token := by
  unfold grow
  rw [check_finish_condition_eq]
  simp [get_output_len, IsLastToken, or_assoc]

/-! ## What ends a request -/

theorem not_ended_nil : ¬ Ended sampling_params [] := by simp [Ended]

theorem ended_append : Ended sampling_params (calls ++ [c]) ↔
    Ended sampling_params calls ∨ (calls.length + 1 = sampling_params.max_tokens ∨
      (sampling_params.ignore_eos = false ∧ c.1 ∈ sampling_params.stop)) := by
  unfold Ended
  constructor
  · rintro ⟨k, d, hk, hd⟩
    rcases lt_trichotomy k calls.length with hlt | rfl | hgt
    · rw [List.getElem?_append_left hlt] at hk
      exact Or.inl ⟨k, d, hk, hd⟩
    · obtain rfl : c = d := by simpa using hk
      exact Or.inr hd
    · have hnone : (calls ++ [c])[k]? = none := by simp; omega
      rw [hnone] at hk
      cases hk
  · rintro (⟨k, d, hk, hd⟩ | hc)
    · have hlt : k < calls.length := (List.getElem?_eq_some_iff.mp hk).1
      exact ⟨k, d, by rw [List.getElem?_append_left hlt, hk], hd⟩
    · exact ⟨calls.length, c, by simp, hc⟩

/-- The limit itself ends the request. -/
theorem ended_of_limit (h : sampling_params.max_tokens ≤ calls.length) :
    Ended sampling_params calls := by
  have hpos := sampling_params.max_tokens_pos
  have hlt : sampling_params.max_tokens - 1 < calls.length := by omega
  exact ⟨_, calls[sampling_params.max_tokens - 1], List.getElem?_eq_getElem hlt,
    Or.inl (Nat.sub_add_cancel hpos)⟩

/-- A token ends a request that has stored every token so far by the same rule. -/
theorem ended_append_iff_last_token : Ended sampling_params (calls ++ [c]) ↔
    Ended sampling_params calls ∨ IsLastToken sampling_params calls.length c.1 := by
  rw [ended_append]
  unfold IsLastToken
  constructor
  · rintro (h | h | h)
    · exact Or.inl h
    · exact Or.inr (Or.inl h.ge)
    · exact Or.inr (Or.inr h)
  · rintro (h | h | h)
    · exact Or.inl h
    · rcases h.eq_or_lt with heq | hlt
      · exact Or.inr (Or.inl heq.symm)
      · exact Or.inl (ended_of_limit (Nat.lt_succ_iff.mp hlt))
    · exact Or.inr (Or.inr h)

/-! ## A run of calls -/

/-- What a request is after these calls: it has taken one token too many before it raises. -/
structure Took (fresh : Request) (calls : List TokenCall) (r : Request) : Prop where
  id_eq : r.request_id = fresh.request_id
  params_eq : r.sampling_params = fresh.sampling_params
  tokens_eq : r.generated_tokens =
    (calls.take (fresh.sampling_params.max_tokens + 1)).map Prod.fst
  finished_iff : r.is_finished = true ↔ Ended fresh.sampling_params calls

theorem Took.output_len {fresh : Request} (h : Took fresh calls r) :
    r.get_output_len = min (fresh.sampling_params.max_tokens + 1) calls.length := by
  rw [get_output_len, ← r.tokens_paired, h.tokens_eq, List.length_map, List.length_take]

theorem Took.called {fresh : Request} (h : Took fresh calls r) (c : TokenCall) :
    Took fresh (calls ++ [c]) (r.called c) := by
  have hlen := h.output_len
  by_cases hfull : r.sampling_params.max_tokens < r.get_output_len
  · rw [called_full hfull]
    rw [h.params_eq] at hfull
    have hmany : fresh.sampling_params.max_tokens + 1 ≤ calls.length := by omega
    have hended : Ended fresh.sampling_params calls := ended_of_limit (by omega)
    exact {
      id_eq := h.id_eq
      params_eq := h.params_eq
      tokens_eq := by rw [h.tokens_eq, List.take_append_of_le_length hmany]
      finished_iff := by
        rw [ended_append, h.finished_iff]
        exact ⟨Or.inl, fun _ => hended⟩ }
  · rw [called_below (Nat.not_lt.mp hfull)]
    rw [h.params_eq] at hfull
    have hfew : calls.length ≤ fresh.sampling_params.max_tokens := by omega
    have hlen' : r.get_output_len = calls.length := by omega
    exact {
      id_eq := by rw [grow_request_id, h.id_eq]
      params_eq := by rw [grow_sampling_params, h.params_eq]
      tokens_eq := by
        rw [grow_generated_tokens, h.tokens_eq, List.take_of_length_le (by omega),
          List.take_of_length_le (by simpa using hfew), List.map_append]
        rfl
      finished_iff := by
        rw [grow_is_finished_iff, h.finished_iff, h.params_eq, hlen',
          ended_append_iff_last_token] }

theorem took_after_calls (request_id : RequestId) (prompt_token_ids : List TokenId)
    (sampling_params : SamplingParams) (calls : List TokenCall) :
    Took (create request_id prompt_token_ids sampling_params) calls
      ((create request_id prompt_token_ids sampling_params).after_calls calls) := by
  induction calls using List.reverseRecOn with
  | nil =>
    exact {
      id_eq := rfl
      params_eq := rfl
      tokens_eq := rfl
      finished_iff := iff_of_false Bool.false_ne_true not_ended_nil }
  | append_singleton calls c ih =>
    rw [after_calls_append]
    exact ih.called c

/-- The request stores one token more than it may, and the calls after that raise. -/
theorem stored_after_calls (request_id : RequestId) (prompt_token_ids : List TokenId)
    (sampling_params : SamplingParams) (calls : List TokenCall) :
    ((create request_id prompt_token_ids sampling_params).after_calls
      calls).generated_tokens.length = min (sampling_params.max_tokens + 1) calls.length := by
  rw [(took_after_calls request_id prompt_token_ids sampling_params calls).tokens_eq,
    List.length_map, List.length_take]
  rfl

/-- The limit is kept exactly when no more than `max_tokens` calls are made. -/
theorem the_limit_is_kept_iff (request_id : RequestId) (prompt_token_ids : List TokenId)
    (sampling_params : SamplingParams) (calls : List TokenCall) :
    KeepsItsLimit (create request_id prompt_token_ids sampling_params) calls ↔
      calls.length ≤ sampling_params.max_tokens := by
  have htook := took_after_calls request_id prompt_token_ids sampling_params
  have hstored := stored_after_calls request_id prompt_token_ids sampling_params
  constructor
  · intro h
    have hle : _ ≤ sampling_params.max_tokens := h.stored_le calls (List.prefix_refl calls)
    rw [hstored] at hle
    omega
  · intro hfew
    have hshort : ∀ before : List TokenCall, before <+: calls →
        before.length ≤ sampling_params.max_tokens := fun _ hp => hp.length_le.trans hfew
    exact {
      stored_le := by
        intro before hp
        have := hshort before hp
        rw [hstored]
        exact (min_le_right _ _).trans this
      exceeding := by
        -- the call is one of the first `max_tokens`, so it does not exceed the limit
        intro before c hp hexceeds
        have hlt := hshort _ hp
        rw [List.length_append, List.length_singleton] at hlt
        rw [hstored] at hexceeds
        have hexceeds : sampling_params.max_tokens <
          min (sampling_params.max_tokens + 1) before.length + 1 := hexceeds
        omega
      paired := fun before _ => Request.tokens_paired _
      finished_iff := fun before _ => (htook before).finished_iff
      stays_finished := by
        intro before c _ hf
        have hended := (htook before).finished_iff.mp hf
        exact (htook (before ++ [c])).finished_iff.mpr (ended_append.mpr (Or.inl hended)) }

/-- A request with the limit 1 stores two tokens. -/
theorem the_limit_is_exceeded :
    ¬ ∀ request_id prompt_token_ids sampling_params calls,
      KeepsItsLimit (create request_id prompt_token_ids sampling_params) calls := by
  intro h
  have hle := (h 0 [1] ⟨[], true, 1, le_rfl⟩ [("a", 5), ("b", 6)]).stored_le _ (List.prefix_refl _)
  exact absurd hle (by decide)

end distserve.Request
