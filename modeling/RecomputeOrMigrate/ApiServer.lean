-- The streaming case of `generate` (distserve_api_server.py). A step output refers to the
-- request of the engines, so the text of a chunk is the text that the request has when the
-- consumer takes the output.
import RecomputeOrMigrate.OutputStream

open calls runs

namespace distserve

/-- `get_response`. -/
def Request.get_response (r : Request) : String := String.join r.generated_tokens

namespace LLMEngine

/-- `step_output.request` as it is now. The engines append the tokens to this object. -/
def live (s : LLMEngine) (r : RequestId) : Option Request :=
  s.engines.requests.find? (·.request_id == r)

/-- Behind the next output of the request, one with a text waits in the queue. -/
def lags (s : LLMEngine) (r : RequestId) : Bool :=
  ((s.request_outputs r).getD []).tail.any (·.new_token ≠ "")

/-- The texts of the chunks that were streamed for each request, and whether its consumer ever
lagged when it took an output. -/
structure Streamed where
  texts : RequestId → List String
  lagged : RequestId → Bool

def Streamed.none : Streamed := ⟨fun _ => [], fun _ => false⟩

/-- `stream_results`: the consumer reads the response as soon as it has the output. -/
def stream_results (s : LLMEngine) (a : Action) (sent : Streamed) : Streamed :=
  match a with
  | .get_output r => {
      texts := Function.update sent.texts r
        (sent.texts r ++ [(s.live r).elim "" Request.get_response])
      lagged := Function.update sent.lagged r (sent.lagged r || s.lags r) }
  | _ => sent

/-- The engine with the chunks beside it. -/
def serve (decode : Tokenizer) (tokenizer : PromptTokenizer) :
    Machine PyError (LLMEngine × Streamed) Action :=
  beside (step decode tokenizer) stream_results

/-- Each chunk has one token more than the one before it, and the last one has them all. -/
structure Advances (s : LLMEngine) (chunks : List String) (q : Request) : Prop where
  chunk : ∀ k (h : k < chunks.length), chunks[k] = String.join (q.generated_tokens.take (k + 1))
  last : s.generators q.request_id = .returned → chunks.getLast? = some q.get_response

variable {s s' : LLMEngine} {decode : Tokenizer} {tokenizer : PromptTokenizer} {cc : CacheConfig}
  {sent : Streamed} {r : RequestId} {a : Action}

/-! ## Texts -/

theorem join_eq_empty {texts : List String} : String.join texts = "" ↔ ∀ t ∈ texts, t = "" := by
  induction texts with
  | nil => simp
  | cons t texts ih => rw [String.join_cons, String.append_eq_empty_iff, ih, List.forall_mem_cons]

/-- All texts together are the first of them when the others are empty. -/
theorem join_append_eq_left {texts rest : List String} :
    String.join (texts ++ rest) = String.join texts ↔ ∀ t ∈ rest, t = "" := by
  rw [String.join_append, String.append_eq_left_iff, join_eq_empty]

/-! ## What the outputs tell -/

/-- The tokens of the outputs of a request. -/
def tokens_of (s : LLMEngine) (r : RequestId) : List String := (s.outputs r).map (·.new_token)

theorem Streams.tokens_of_request (hs : Streams decode cc s) {q : Request}
    (hq : q ∈ s.engines.requests) : q.generated_tokens = s.tokens_of q.request_id := by
  have hmem : q ∈ (s.engines.serving s.outputs).requests := by
    rw [Engines.requests_serving]
    exact hq
  have htold : Told q (s.outputs q.request_id) := hs.served.told q hmem
  have hfirst := congrArg (List.map Prod.fst) htold.tokens
  rw [List.map_map, List.map_fst_zip q.tokens_paired.le] at hfirst
  exact hfirst.symm

/-- The live request of an id that was added. -/
theorem Streams.live_eq (hs : Streams decode cc s) (hr : r ∈ s.ids) :
    (s.live r).elim "" Request.get_response = String.join (s.tokens_of r) := by
  obtain ⟨q₀, hq₀, hid₀⟩ := List.mem_map.mp hr
  obtain ⟨q, hq, horigin⟩ := hs.served.exists_request hq₀
  rw [Engines.requests_serving, Multiset.mem_coe] at hq
  have hid : q.request_id = r := (congrArg Prod.fst horigin).trans hid₀
  cases hlive : s.live r with
  | none =>
    have hnone := List.find?_eq_none.mp hlive q hq
    simp [hid] at hnone
  | some p =>
    have hp : p.request_id = r := by simpa using List.find?_some hlive
    have htokens := hs.tokens_of_request (List.mem_of_find?_eq_some hlive)
    rw [hp] at htokens
    rw [Option.elim_some, Request.get_response, htokens]

/-! ## One action -/

theorem on_callback_keeps {c : Callback} (h : s.on_callback c = .ok s') :
    s'.yielded = s.yielded ∧ s'.produced = s.produced := by
  cases c with
  | engine_on_new_step_output request_id o =>
    simp only [on_callback, on_new_step_output_callback] at h
    split at h <;> cases h
    exact ⟨rfl, rfl⟩
  | engine_on_new_lifetime_event request_id t d =>
    simp only [on_callback, on_new_lifetime_event_callback] at h
    split at h
    · cases h
    · split at h <;> cases h <;> exact ⟨rfl, rfl⟩
  | clear_migrated_blocks mr =>
    cases h
    exact ⟨rfl, rfl⟩

theorem callbacks_keep {cs : List Callback} (h : cs.foldlM on_callback s = .ok s') :
    s'.yielded = s.yielded ∧ s'.produced = s.produced := by
  induction cs generalizing s with
  | nil =>
    cases h
    exact ⟨rfl, rfl⟩
  | cons c cs ih =>
    obtain ⟨s₁, h₁, hrest⟩ := bind_eq_ok.mp h
    obtain ⟨hy, hp⟩ := on_callback_keeps h₁
    obtain ⟨hy', hp'⟩ := ih hrest
    exact ⟨hy'.trans hy, hp'.trans hp⟩

/-- Only `get_output` yields, and the workers only add tokens. -/
theorem step_keeps (ha : ∀ r, a ≠ .get_output r)
    (hx : step decode tokenizer s a = some (.ok s')) :
    s'.yielded = s.yielded ∧ s.produced <+: s'.produced := by
  cases a with
  | generate args =>
    simp only [step] at hx
    split at hx
    · cases hx
      exact ⟨rfl, List.prefix_refl _⟩
    · split at hx
      · rw [start_request_eq] at hx
        cases hx
        exact ⟨rfl, List.prefix_refl _⟩
      · cases hx
  | get_output r => exact absurd rfl (ha r)
  | resume r =>
    simp only [step] at hx
    split at hx
    · have hx := Option.some.inj hx
      unfold resume at hx
      split at hx
      · split at hx <;> cases hx
        exact ⟨rfl, List.prefix_refl _⟩
      · cases hx
        exact ⟨rfl, List.prefix_refl _⟩
    · cases hx
  | close r =>
    simp only [step] at hx
    split at hx <;> cases hx <;> exact ⟨rfl, List.prefix_refl _⟩
  | pop_request_lifetime_events r =>
    simp only [step] at hx
    split at hx <;> cases hx
    exact ⟨rfl, List.prefix_refl _⟩
  | engines b =>
    by_cases hb : ∃ q, b = .add_request q
    · obtain ⟨q, rfl⟩ := hb
      cases hx
    · rw [step_engines fun q hq => hb ⟨q, hq⟩] at hx
      obtain ⟨y, -, hy⟩ := Option.map_eq_some_iff.mp hx
      obtain ⟨⟨e, cs⟩, rfl, hfold⟩ := bind_eq_ok.mp hy
      obtain ⟨hyielded, hproduced⟩ := callbacks_keep hfold
      refine ⟨hyielded, ?_⟩
      rw [hproduced]
      exact List.prefix_append _ _

/-- The outputs of a request only get more. -/
theorem tokens_grow (hs : Streams decode cc s) (hs' : Streams decode cc s')
    (h : s.produced <+: s'.produced) (r : RequestId) : s.tokens_of r <+: s'.tokens_of r := by
  have htokens : ∀ {e : LLMEngine}, Streams decode cc e → e.tokens_of r =
      (e.produced.filter (·.1 == r)).map fun p => (decode p.2).getD "" := by
    intro e he
    have hfirst := congrArg (List.map Prod.fst) (he.tokens r)
    rw [List.map_map, List.map_map] at hfirst
    exact hfirst
  rw [htokens hs, htokens hs']
  exact (h.filter _).map _

theorem get_output_queue {o : StepOutput} (h : s.get_output r = some (.ok (s', o))) :
    ∃ queue, s.request_outputs r = some (o :: queue) := by
  unfold get_output at h
  split at h
  · split at h
    · cases h
    · cases h
    · next queue hq =>
      cases h
      exact ⟨queue, hq⟩
  · cases h

/-! ## The chunks -/

/-- The text `k` has the first `k + 1` tokens. -/
def FirstTokens (texts tokens : List String) : Prop :=
  ∀ k (h : k < texts.length), texts[k] = String.join (tokens.take (k + 1))

theorem firstTokens_grow {texts tokens tokens' : List String} (h : tokens <+: tokens')
    (hlen : texts.length ≤ tokens.length) :
    FirstTokens texts tokens' ↔ FirstTokens texts tokens := by
  obtain ⟨more, rfl⟩ := h
  refine forall₂_congr fun k hk => ?_
  rw [List.take_append_of_le_length (by omega)]

theorem firstTokens_append {texts tokens : List String} {t : String} :
    FirstTokens (texts ++ [t]) tokens ↔
      FirstTokens texts tokens ∧ t = String.join (tokens.take (texts.length + 1)) := by
  constructor
  · intro h
    constructor
    · intro k hk
      have hk' := h k (by simp; omega)
      rwa [List.getElem_append_left hk] at hk'
    · have hlast := h texts.length (by simp)
      rwa [List.getElem_append_right le_rfl, List.getElem_singleton] at hlast
  · rintro ⟨h, ht⟩ k hk
    by_cases hlt : k < texts.length
    · rw [List.getElem_append_left hlt]
      exact h k hlt
    · obtain rfl : k = texts.length := by
        rw [List.length_append, List.length_singleton] at hk
        omega
      rw [List.getElem_append_right le_rfl, List.getElem_singleton]
      exact ht

/-- There is one chunk for each output that was yielded, and they are right as long as no
consumer lagged. -/
structure Chunked (s : LLMEngine) (sent : Streamed) : Prop where
  one_each : ∀ r, (sent.texts r).length = (s.yielded r).length
  right_iff : ∀ r, FirstTokens (sent.texts r) (s.tokens_of r) ↔ sent.lagged r = false

theorem chunked_create (c : EnginesConfig) : Chunked (create c) .none where
  one_each _ := rfl
  right_iff _ := iff_of_true (fun _ h => absurd h (Nat.not_lt_zero _)) rfl

theorem length_yielded_le (s : LLMEngine) (r : RequestId) :
    (s.yielded r).length ≤ (s.tokens_of r).length := by
  unfold tokens_of outputs
  rw [List.length_map, List.length_append]
  exact Nat.le_add_right _ _

theorem Chunked.other (h : Chunked s sent) (hyielded : s'.yielded = s.yielded)
    (hgrow : ∀ r, s.tokens_of r <+: s'.tokens_of r) : Chunked s' sent where
  one_each r := by rw [h.one_each, hyielded]
  right_iff r := by
    rw [firstTokens_grow (hgrow r) ((h.one_each r).trans_le (length_yielded_le s r)),
      h.right_iff]

/-- A chunk has the tokens of all outputs, those that wait in the queue included. -/
theorem Chunked.get_output (h : Chunked s sent) (hs : Streams decode cc s) {o : StepOutput}
    {queue : List StepOutput} (hq : s.request_outputs r = some (o :: queue))
    (hyielded : s'.yielded r = s.yielded r ++ [o]) (hc : Consumed r s s') :
    Chunked s' (stream_results s (.get_output r) sent) := by
  have hr : r ∈ s.ids := hs.consumers.started r hc.before.1
  have hsame : ∀ r', s'.tokens_of r' = s.tokens_of r' := fun r' => by
    unfold tokens_of
    rw [hc.outputs_eq]
  have htokens : s.tokens_of r =
      ((s.yielded r).map (·.new_token) ++ [o.new_token]) ++ queue.map (·.new_token) := by
    unfold tokens_of outputs
    rw [hq, Option.getD_some, List.map_append, List.map_cons, List.append_assoc]
    rfl
  have hlags : s.lags r = false ↔ ∀ t ∈ queue.map (·.new_token), t = "" := by
    unfold lags
    rw [hq, Option.getD_some, List.tail_cons]
    simp
  constructor
  · intro r'
    by_cases hr' : r' = r
    · subst hr'
      simp [stream_results, hyielded, h.one_each]
    · simp [stream_results, Function.update_of_ne hr', h.one_each, (hc.others r' hr').2.2.2]
  · intro r'
    rw [hsame]
    by_cases hr' : r' = r
    · subst hr'
      have htake : (s.tokens_of r').take ((sent.texts r').length + 1) =
          (s.yielded r').map (·.new_token) ++ [o.new_token] := by
        rw [htokens, List.take_left' (by simp [h.one_each])]
      simp only [stream_results, Function.update_self]
      rw [firstTokens_append, h.right_iff, hs.live_eq hr, htake, htokens, join_append_eq_left,
        ← hlags, Bool.or_eq_false_iff]
    · simp only [stream_results, Function.update_of_ne hr']
      exact h.right_iff r'

theorem serve_sound (decode : Tokenizer) (tokenizer : PromptTokenizer) (cc : CacheConfig) :
    runs.Sound (serve decode tokenizer) (fun p => Streams decode cc p.1 ∧ Chunked p.1 p.2)
      fun _ => True := by
  rintro ⟨s, sent⟩ a x ⟨hs, h⟩ hx
  cases x with
  | error err => trivial
  | ok p =>
    obtain ⟨s', sent'⟩ := p
    obtain ⟨hstep, rfl⟩ := beside_eq_ok.mp hx
    have hs' : Streams decode cc s' := (step_gives hs hstep).of_ok rfl
    refine ⟨hs', ?_⟩
    by_cases ha : ∃ r, a = .get_output r
    · obtain ⟨r, rfl⟩ := ha
      obtain ⟨y, hy, hys⟩ := Option.map_eq_some_iff.mp hstep
      obtain ⟨s₁, o, rfl, -, hyielded, hc⟩ := get_output_gives hs hy
      obtain rfl : s₁ = s' := Except.ok.inj hys
      obtain ⟨queue, hq⟩ := get_output_queue hy
      exact h.get_output hs hq hyielded hc
    · have hnot : ∀ r, a ≠ .get_output r := fun r hr => ha ⟨r, hr⟩
      obtain ⟨hyielded, hproduced⟩ := step_keeps hnot hstep
      have hsent : stream_results s a sent = sent := by
        cases a with
        | get_output r => exact absurd rfl (hnot r)
        | _ => rfl
      rw [hsent]
      exact h.other hyielded (tokens_grow hs hs' hproduced)

/-- In every state of every run of the engines and of the consumers of the endpoint, the chunks
of a request advance by one token each exactly when, at each chunk, no later output of the
request with a text was in its queue. -/
theorem chunks_advance_iff (decode : Tokenizer) (tokenizer : PromptTokenizer) (c : EnginesConfig)
    (s : LLMEngine) (sent : Streamed)
    (h : Reaches (serve decode tokenizer) (create c, .none) (s, sent)) :
    ∀ q₀ ∈ s.engines.added, ∃ q ∈ s.engines.requests, q.origin = q₀.origin ∧
      (Advances s (sent.texts q.request_id) q ↔ sent.lagged q.request_id = false) := by
  obtain ⟨(hs : Streams decode c.cache_config s), (hchunked : Chunked s sent)⟩ :=
    (serve_sound decode tokenizer c.cache_config).invariant
      ⟨streams_create c, chunked_create c⟩ h
  intro q₀ hq₀
  obtain ⟨q, hq, horigin⟩ := hs.served.exists_request hq₀
  rw [Engines.requests_serving, Multiset.mem_coe] at hq
  have hid : q.request_id = q₀.request_id := congrArg Prod.fst horigin
  refine ⟨q, hq, horigin, ?_⟩
  rw [← hchunked.right_iff, ← hs.tokens_of_request hq]
  constructor
  · exact fun hadvances => hadvances.chunk
  · intro hfirst
    refine ⟨hfirst, fun hreturned => ?_⟩
    -- all outputs were yielded, so the last chunk has all tokens
    rw [hid] at hreturned
    obtain ⟨hall, last, hlast, -⟩ := (hs.faithful hq₀).returned hreturned
    have hlen : (sent.texts q.request_id).length = q.generated_tokens.length := by
      rw [hchunked.one_each, hs.tokens_of_request hq, tokens_of, hid, hall, List.length_map]
    have hpos : 0 < (sent.texts q.request_id).length := by
      rw [hchunked.one_each, hid]
      exact List.length_pos_of_ne_nil fun hnil => by simp [hnil] at hlast
    have hend : (sent.texts q.request_id).length - 1 < (sent.texts q.request_id).length := by omega
    rw [List.getLast?_eq_getElem?, List.getElem?_eq_getElem hend, hfirst _ hend,
      Nat.sub_add_cancel hpos, hlen, List.take_length]
    rfl

/-- The tokens 4, 5 and 6 are letters. -/
def letters : Tokenizer := fun token_id =>
  if token_id = 4 then some "a" else if token_id = 5 then some "b" else
    if token_id = 6 then some "c" else none

/-- A request for these tokens gets the first one from the context stage. Its consumer takes
the output at once. -/
def firstChunk (max_tokens : Nat) (h : 1 ≤ max_tokens) : List Action :=
  [.generate ⟨none, none, some [1, 2, 3], ⟨[], true, max_tokens, h⟩, none⟩,
    .engines (.context_begin_step 0), .engines (.context_batch_returns [4]), .get_output 0,
    .engines .bridge_get, .engines (.decoding_begin_step 0), .engines .decoding_wake,
    .engines .migration_ends, .engines (.decoding_begin_step 1),
    .engines (.decoding_begin_step 2), .engines .decoding_wake,
    .engines (.decoding_batch_returns [5])]

/-- The requests of a state with their ids and tokens. -/
def tokensNow (s : LLMEngine) : List (RequestId × List String) :=
  s.engines.requests.map fun q => (q.request_id, q.generated_tokens)

/-- A consumer that takes each output at once gets one token after the other. -/
theorem two_chunks_advance : ∃ (s : LLMEngine) (sent : Streamed),
    sent.texts 0 = ["a", "ab"] ∧ ∃ q ∈ s.engines.requests, Advances s (sent.texts 0) q := by
  obtain ⟨⟨s, sent⟩, hr, hs⟩ := reaches_of_any (m := serve letters ⟨fun _ => [], fun _ => []⟩)
    (s := (create Engines.smallConfig, Streamed.none))
    (firstChunk 2 (by decide) ++ [.resume 0, .get_output 0])
    (fun p => decide (p.2.texts 0 = ["a", "ab"] ∧ p.2.lagged 0 = false ∧
      p.1.engines.added.map (·.request_id) = [0]))
    (by decide +kernel)
  obtain ⟨htexts, hlagged, hids⟩ := of_decide_eq_true hs
  have hzero : 0 ∈ s.engines.added.map (·.request_id) := by
    rw [hids]
    exact List.mem_cons_self
  obtain ⟨q₀, hq₀, hid₀⟩ := List.mem_map.mp hzero
  obtain ⟨q, hq, horigin, hiff⟩ := chunks_advance_iff _ _ _ s sent hr q₀ hq₀
  have hid : q.request_id = 0 := (congrArg Prod.fst horigin).trans hid₀
  rw [hid] at hiff
  exact ⟨s, sent, htexts, q, hq, hiff.mpr hlagged⟩

/-- While the consumer sends the first chunk, the engine appends two tokens. The second chunk
has both. -/
theorem a_chunk_skips_a_token :
    ¬ ∀ decode tokenizer c s sent, Reaches (serve decode tokenizer) (create c, .none) (s, sent) →
      ∀ q ∈ s.engines.requests, Advances s (sent.texts q.request_id) q := by
  intro h
  obtain ⟨⟨s, sent⟩, hr, hs⟩ := reaches_of_any (m := serve letters ⟨fun _ => [], fun _ => []⟩)
    (s := (create Engines.smallConfig, Streamed.none))
    (firstChunk 3 (by decide) ++ [.engines (.decoding_begin_step 3),
      .engines (.decoding_begin_step 4), .engines .decoding_wake,
      .engines (.decoding_batch_returns [6]), .resume 0, .get_output 0])
    (fun p => decide (p.2.texts 0 = ["a", "abc"] ∧ p.1.tokensNow = [(0, ["a", "b", "c"])]))
    (by decide +kernel)
  obtain ⟨htexts, htokens⟩ := of_decide_eq_true hs
  obtain ⟨q, hq, hpair⟩ : ∃ q ∈ s.engines.requests,
      (q.request_id, q.generated_tokens) = (0, ["a", "b", "c"]) := by
    apply List.mem_map.mp
    rw [show s.engines.requests.map (fun q => (q.request_id, q.generated_tokens)) = _ from htokens]
    exact List.mem_cons_self
  obtain ⟨hid, hgenerated⟩ := Prod.mk.inj hpair
  have hchunk := (h _ _ _ s sent hr q hq).chunk
  rw [hid, htexts, hgenerated] at hchunk
  exact absurd (hchunk 1 (by decide)) (by decide)

end LLMEngine

end distserve
