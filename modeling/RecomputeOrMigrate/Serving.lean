-- What the two engines do for the requests, without their queues and batches: each
-- request rests or is with the workers, it goes there with its new tokens, and it
-- comes back with one token more.
import Mathlib.Data.Multiset.AddSub
import Mathlib.Data.Multiset.MapFold
import Mathlib.Data.Multiset.UnionInter
import RecomputeOrMigrate.General.Counting
import RecomputeOrMigrate.RequestGrowth

namespace distserve

/-! ## What goes to the workers -/

/-- What a call `step` sends for one request. -/
structure Sent where
  input_tokens : List TokenId
  first_token_index : Nat
  block_table : List Nat
deriving DecidableEq

/-- The positions of the text that the workers write. -/
def Sent.positions (x : Sent) : List Nat := List.range' x.first_token_index x.input_tokens.length

def Request.sentWith (q : Request) (block_table : List Nat) : Sent :=
  ⟨q.get_input_tokens_ids, q.get_first_new_token_index, block_table⟩

/-- The first `n` positions of the text were written, each of them once and in order. -/
structure Covers (sends : List Sent) (text : List TokenId) (n : Nat) : Prop where
  positions : sends.flatMap Sent.positions = List.range n
  tokens : sends.flatMap (·.input_tokens) = text.take n

variable {q : Request} {sends : List Sent}

theorem Request.length_text (q : Request) : q.text.length = q.get_input_len + q.get_output_len := by
  simp [text, get_input_len, get_output_len]

theorem covers_nil (text : List TokenId) : Covers [] text 0 := ⟨rfl, rfl⟩

/-- A request sends what is missing of its text. -/
theorem Covers.send (h : Covers sends q.text q.get_first_new_token_index) (table : List Nat) :
    Covers (sends ++ [q.sentWith table]) q.text q.text.length := by
  have hend : q.get_first_new_token_index + q.get_input_tokens_ids.length = q.text.length := by
    rw [q.length_text]
    exact q.sent_end
  constructor
  · rw [List.flatMap_append, h.positions, List.flatMap_singleton, ← hend, List.range_eq_range',
      List.range_eq_range', Sent.positions]
    change _ ++ List.range' q.get_first_new_token_index q.get_input_tokens_ids.length = _
    have := List.range'_append_1 (s := 0) (m := q.get_first_new_token_index)
      (n := q.get_input_tokens_ids.length)
    rwa [Nat.zero_add] at this
  · rw [List.flatMap_append, h.tokens, List.flatMap_singleton, List.take_length]
    change _ ++ q.get_input_tokens_ids = _
    rw [← q.sent_tokens]
    exact List.take_append_drop _ _

/-- After a new token, only that one is missing. -/
theorem Covers.grow (h : Covers sends q.text q.text.length) (t : String) (i : TokenId) :
    Covers sends (q.grow t i).text (q.grow t i).get_first_new_token_index := by
  have htext : (q.grow t i).text = q.text ++ [i] := by simp [Request.text]
  have hfirst : (q.grow t i).get_first_new_token_index = q.text.length := by
    have hc : (q.grow t i).is_context_stage = false := by
      rw [← Bool.not_eq_true, Request.is_context_stage_iff, Request.grow_get_output_len]
      omega
    unfold Request.get_first_new_token_index
    rw [hc, q.length_text]
    simp only [Bool.false_eq_true, if_false, Request.grow_get_input_len,
      Request.grow_get_output_len]
    omega
  constructor
  · rw [hfirst]
    exact h.positions
  · rw [hfirst, htext, List.take_append_of_le_length (Nat.le_refl _)]
    exact h.tokens

/-! ## What comes back -/

/-- The outputs of a request tell its tokens. Each output but the last one is unfinished,
and the last one is finished when the request is. -/
structure Told (q : Request) (outputs : List StepOutput) : Prop where
  tokens : outputs.map (fun o => (o.new_token, o.new_token_id)) =
    q.generated_tokens.zip q.generated_token_ids
  flags : ∀ i (h : i < outputs.length), outputs[i].is_finished =
    decide (Request.IsLastToken q.sampling_params i outputs[i].new_token)
  before : ∀ o ∈ outputs.dropLast, o.is_finished = false
  finished : q.is_finished = outputs.getLast?.any (·.is_finished)
  limit : outputs.length ≤ q.sampling_params.max_tokens

theorem told_fresh (ht : q.generated_token_ids = []) (hf : q.is_finished = false) :
    Told q [] := by
  refine ⟨?_, by simp, by simp, hf, Nat.zero_le _⟩
  rw [ht, List.zip_nil_right]
  rfl

theorem Told.length {outputs : List StepOutput} (h : Told q outputs) :
    outputs.length = q.get_output_len := by
  have := congrArg List.length h.tokens
  rw [List.length_map, List.length_zip, q.tokens_paired, Nat.min_self] at this
  exact this

/-- An unfinished request has no finished output. -/
theorem Told.unfinished {outputs : List StepOutput} (h : Told q outputs)
    (hf : q.is_finished = false) {o : StepOutput} (ho : o ∈ outputs) : o.is_finished = false := by
  rcases List.eq_nil_or_concat outputs with rfl | ⟨pre, last, rfl⟩
  · cases ho
  · have hlast := h.finished
    have hbefore := h.before
    simp only [List.concat_eq_append, List.mem_append, List.mem_singleton] at ho
    rw [List.concat_eq_append, List.getLast?_concat] at hlast
    rw [List.concat_eq_append, List.dropLast_concat] at hbefore
    rcases ho with ho | rfl
    · exact hbefore o ho
    · rw [← hf, hlast]
      rfl

theorem Told.grow {outputs : List StepOutput} (h : Told q outputs) (hq : q.MayGrow) (t : String)
    (i : TokenId) :
    Told (q.grow t i) (outputs ++ [StepOutput.create (q.grow t i) t i]) where
  tokens := by
    rw [List.map_append, h.tokens, Request.grow_generated_tokens,
      Request.grow_generated_token_ids, List.zip_append q.tokens_paired]
    rfl
  flags j hj := by
    rw [Request.grow_sampling_params]
    by_cases hlt : j < outputs.length
    · rw [List.getElem_append_left hlt]
      exact h.flags j hlt
    · have hje : j = outputs.length := by
        rw [List.length_append, List.length_singleton] at hj
        omega
      subst hje
      rw [List.getElem_append_right (Nat.le_refl _)]
      simp only [Nat.sub_self, List.getElem_cons_zero]
      rw [h.length]
      exact Request.grow_is_finished q t i hq.1
  before o ho := by
    rw [List.dropLast_concat] at ho
    exact h.unfinished hq.1 ho
  finished := by
    rw [List.getLast?_concat]
    rfl
  limit := by
    rw [List.length_append, h.length, Request.grow_sampling_params]
    exact hq.2

/-- A request that is not finished may grow. -/
theorem Told.may_grow {outputs : List StepOutput} (h : Told q outputs)
    (hf : q.is_finished = false) : q.MayGrow := by
  refine ⟨hf, ?_⟩
  rw [← h.length]
  rcases Nat.eq_zero_or_pos outputs.length with h0 | hpos
  · have := q.sampling_params.max_tokens_pos
    omega
  · have hlast := h.flags (outputs.length - 1) (by omega)
    rw [h.unfinished hf (List.getElem_mem _), eq_comm, decide_eq_false_iff_not,
      Request.IsLastToken, not_or] at hlast
    omega

/-- The outputs of a batch are for its requests, with the tokens in the same order. -/
theorem step_outputs_keys {rs : List Request} {ts : List String} {is : List TokenId}
    (ht : ts.length = rs.length) (hi : is.length = rs.length) :
    (step_outputs (BatchedRequests.growAll rs ts is) ts is).map
        (fun o => (o.request_id, o.new_token, o.new_token_id)) =
      (rs.map (·.request_id)).zip (ts.zip is) := by
  induction rs generalizing ts is with
  | nil => cases ts <;> cases is <;> simp [BatchedRequests.growAll, step_outputs]
  | cons r rs ih =>
    obtain ⟨t, ts, rfl⟩ := List.exists_cons_of_length_eq_add_one ht
    obtain ⟨i, is, rfl⟩ := List.exists_cons_of_length_eq_add_one hi
    have hhead : (StepOutput.create (r.grow t i) t i).request_id = r.request_id :=
      r.grow_request_id t i
    simp only [BatchedRequests.growAll, step_outputs, List.map_cons, List.zip_cons_cons, hhead,
      ih (Nat.succ.inj ht) (Nat.succ.inj hi)]
    rfl

theorem ids_of_step_outputs {rs : List Request} {ts : List String} {is : List TokenId}
    (ht : ts.length = rs.length) (hi : is.length = rs.length) :
    (step_outputs (BatchedRequests.growAll rs ts is) ts is).map (·.request_id) =
      rs.map (·.request_id) := by
  have h := congrArg (List.map Prod.fst) (step_outputs_keys ht hi)
  rw [List.map_map, List.map_fst_zip (by simp [ht, hi])] at h
  exact h

/-- A request outside the batch has no output. -/
theorem no_output_of_others {rs : List Request} {ts : List String} {is : List TokenId}
    (ht : ts.length = rs.length) (hi : is.length = rs.length) {r : RequestId}
    (hr : r ∉ rs.map (·.request_id)) :
    (step_outputs (BatchedRequests.growAll rs ts is) ts is).filter (·.request_id == r) = [] := by
  rw [List.filter_eq_nil_iff]
  intro o ho hc
  apply hr
  rw [← ids_of_step_outputs ht hi, ← eq_of_beq hc]
  exact List.mem_map_of_mem ho

/-- Each request of a batch without duplicates has one output. -/
theorem step_outputs_of_grown {rs : List Request} {ts : List String} {is : List TokenId}
    (ht : ts.length = rs.length) (hi : is.length = rs.length)
    (hnd : (rs.map (·.request_id)).Nodup) :
    ∀ g ∈ BatchedRequests.growAll rs ts is, ∃ r ∈ rs, ∃ t i, g = r.grow t i ∧
      (step_outputs (BatchedRequests.growAll rs ts is) ts is).filter
        (·.request_id == r.request_id) = [StepOutput.create (r.grow t i) t i] := by
  induction rs generalizing ts is with
  | nil => cases ts <;> cases is <;> simp [BatchedRequests.growAll]
  | cons r rs ih =>
    obtain ⟨t, ts, rfl⟩ := List.exists_cons_of_length_eq_add_one ht
    obtain ⟨i, is, rfl⟩ := List.exists_cons_of_length_eq_add_one hi
    rw [List.map_cons, List.nodup_cons] at hnd
    have hhead : (StepOutput.create (r.grow t i) t i).request_id = r.request_id :=
      r.grow_request_id t i
    intro g hg
    rcases List.mem_cons.mp hg with rfl | hg
    · refine ⟨r, List.mem_cons_self, t, i, rfl, ?_⟩
      have hnone := no_output_of_others (Nat.succ.inj ht) (Nat.succ.inj hi) hnd.1
      simp only [BatchedRequests.growAll, step_outputs, List.filter_cons, hhead, hnone,
        beq_self_eq_true, if_true]
    · obtain ⟨r', hr', t', i', hg', hf⟩ := ih (Nat.succ.inj ht) (Nat.succ.inj hi) hnd.2 g hg
      refine ⟨r', List.mem_cons_of_mem _ hr', t', i', hg', ?_⟩
      have hne : r.request_id ≠ r'.request_id := fun hc =>
        hnd.1 (hc ▸ List.mem_map_of_mem hr')
      simp only [BatchedRequests.growAll, step_outputs, List.filter_cons, hhead,
        beq_eq_false_iff_ne.mpr hne, hf, Bool.false_eq_true, if_false]

/-! ## The machine -/

/-- What stays of a request as long as it is served. -/
def Request.origin (q : Request) : RequestId × List TokenId × SamplingParams :=
  (q.request_id, q.prompt_token_ids, q.sampling_params)

/-- The requests that were added, those that rest and those that are with the workers,
with all that was sent and told for each request. -/
structure Serving where
  added : List Request
  resting : Multiset Request
  with_workers : Multiset Request
  sends : RequestId → List Sent
  outputs : RequestId → List StepOutput

namespace Serving

def requests (v : Serving) : Multiset Request := v.resting + v.with_workers

/-- What a call `step` for the requests `rs` sends for the request `r`. -/
def sentFor (rs : List Request) (table : RequestId → List Nat) (r : RequestId) : List Sent :=
  (rs.filter (·.request_id == r)).map fun q => q.sentWith (table r)

inductive Step (block_size : Nat) : Serving → Serving → Prop
  | stays (v : Serving) : Step block_size v v
  | arrives {v : Serving} {q : Request} (new : q.request_id ∉ v.added.map (·.request_id))
      (no_tokens : q.generated_token_ids = []) (unfinished : q.is_finished = false) :
      Step block_size v { v with added := v.added ++ [q], resting := q ::ₘ v.resting }
  | sends {v : Serving} {rs : List Request} {resting : Multiset Request}
      {table : RequestId → List Nat} (leave : v.resting = ↑rs + resting)
      (unfinished : ∀ q ∈ rs, q.is_finished = false)
      (room : ∀ q ∈ rs, q.text.length ≤ (table q.request_id).length * block_size) :
      Step block_size v { v with
        resting
        with_workers := v.with_workers + ↑rs
        sends := fun r => v.sends r ++ sentFor rs table r }
  | answers {v : Serving} {rs : List Request} {with_workers : Multiset Request}
      {ts : List String} {is : List TokenId} (leave : v.with_workers = ↑rs + with_workers)
      (tokens : ts.length = rs.length) (ids : is.length = rs.length) :
      Step block_size v { v with
        resting := v.resting + ↑(BatchedRequests.growAll rs ts is)
        with_workers
        outputs := fun r => v.outputs r ++
          (step_outputs (BatchedRequests.growAll rs ts is) ts is).filter (·.request_id == r) }

/-! The steps by what they change. -/

section Changes

variable {block_size : Nat} {v v' : Serving}

theorem Step.of_stays (added : v'.added = v.added) (resting : v'.resting = v.resting)
    (with_workers : v'.with_workers = v.with_workers) (sends : ∀ r, v'.sends r = v.sends r)
    (outputs : ∀ r, v'.outputs r = v.outputs r) : Step block_size v v' := by
  obtain ⟨_, _, _, _, _⟩ := v'
  obtain rfl : _ = v.sends := funext sends
  obtain rfl : _ = v.outputs := funext outputs
  dsimp only at added resting with_workers
  subst added resting with_workers
  exact .stays v

theorem Step.of_arrives {q : Request} (added : v'.added = v.added ++ [q])
    (join : v'.resting = q ::ₘ v.resting) (with_workers : v'.with_workers = v.with_workers)
    (sends : ∀ r, v'.sends r = v.sends r) (outputs : ∀ r, v'.outputs r = v.outputs r)
    (new : q.request_id ∉ v.added.map (·.request_id)) (no_tokens : q.generated_token_ids = [])
    (unfinished : q.is_finished = false) : Step block_size v v' := by
  obtain ⟨_, _, _, _, _⟩ := v'
  obtain rfl : _ = v.sends := funext sends
  obtain rfl : _ = v.outputs := funext outputs
  dsimp only at added join with_workers
  subst added join with_workers
  exact .arrives new no_tokens unfinished

theorem Step.of_sends (rs : List Request) (table : RequestId → List Nat)
    (added : v'.added = v.added)
    (leave : v.resting = ↑rs + v'.resting) (join : v'.with_workers = v.with_workers + ↑rs)
    (sends : ∀ r, v'.sends r = v.sends r ++ sentFor rs table r)
    (outputs : ∀ r, v'.outputs r = v.outputs r) (unfinished : ∀ q ∈ rs, q.is_finished = false)
    (room : ∀ q ∈ rs, q.text.length ≤ (table q.request_id).length * block_size) :
    Step block_size v v' := by
  obtain ⟨_, _, _, _, _⟩ := v'
  obtain rfl : _ = fun r => v.sends r ++ sentFor rs table r := funext sends
  obtain rfl : _ = v.outputs := funext outputs
  dsimp only at added leave join
  subst added join
  exact .sends leave unfinished room

theorem Step.of_answers (rs : List Request) (ts : List String) (is : List TokenId)
    (added : v'.added = v.added)
    (leave : v.with_workers = ↑rs + v'.with_workers)
    (join : v'.resting = v.resting + ↑(BatchedRequests.growAll rs ts is))
    (sends : ∀ r, v'.sends r = v.sends r)
    (outputs : ∀ r, v'.outputs r = v.outputs r ++
      (step_outputs (BatchedRequests.growAll rs ts is) ts is).filter (·.request_id == r))
    (tokens : ts.length = rs.length) (ids : is.length = rs.length) : Step block_size v v' := by
  obtain ⟨_, _, _, _, _⟩ := v'
  obtain rfl : _ = v.sends := funext sends
  obtain rfl : _ = fun r => v.outputs r ++ _ := funext outputs
  dsimp only at added leave join
  subst added join
  exact .answers leave tokens ids

end Changes

/-- The invariant of the machine. -/
structure Served (block_size : Nat) (v : Serving) : Prop where
  origins : v.requests.map Request.origin = ↑(v.added.map Request.origin)
  nodup : (v.added.map (·.request_id)).Nodup
  unknown : ∀ r ∉ v.added.map (·.request_id), v.sends r = [] ∧ v.outputs r = []
  rested : ∀ q ∈ v.resting, Covers (v.sends q.request_id) q.text q.get_first_new_token_index
  working : ∀ q ∈ v.with_workers, q.is_finished = false ∧
    Covers (v.sends q.request_id) q.text q.text.length
  told : ∀ q ∈ v.requests, Told q (v.outputs q.request_id)
  room : ∀ r, ∀ x ∈ v.sends r,
    x.first_token_index + x.input_tokens.length ≤ x.block_table.length * block_size

variable {block_size : Nat} {v v' : Serving}

theorem Served.ids (h : Served block_size v) :
    v.requests.map (·.request_id) = ↑(v.added.map (·.request_id)) := by
  have := congrArg (Multiset.map Prod.fst) h.origins
  rw [Multiset.map_map, Multiset.map_coe, List.map_map] at this
  exact this

theorem Served.requests_nodup (h : Served block_size v) :
    (v.requests.map (·.request_id)).Nodup := by
  rw [h.ids, Multiset.coe_nodup]
  exact h.nodup

/-- Each request that was added is still there, with its prompt and its parameters. -/
theorem Served.exists_request (h : Served block_size v) {q₀ : Request} (hq : q₀ ∈ v.added) :
    ∃ q ∈ v.requests, q.origin = q₀.origin := by
  have hmem : q₀.origin ∈ v.requests.map Request.origin := by
    rw [h.origins, Multiset.mem_coe]
    exact List.mem_map_of_mem hq
  exact Multiset.mem_map.mp hmem

theorem Served.covers (h : Served block_size v) {q : Request} (hq : q ∈ v.requests) :
    ∃ n, Covers (v.sends q.request_id) q.text n := by
  rcases Multiset.mem_add.mp hq with hq | hq
  · exact ⟨_, h.rested q hq⟩
  · exact ⟨_, (h.working q hq).2⟩

/-- A part of the requests has other ids than the rest. -/
theorem nodup_parts {rs : List Request} {rest : Multiset Request}
    (h : ((↑rs + rest : Multiset Request).map (·.request_id)).Nodup) :
    (rs.map (·.request_id)).Nodup ∧ ∀ q ∈ rest, q.request_id ∉ rs.map (·.request_id) := by
  rw [Multiset.map_add, Multiset.nodup_add, Multiset.map_coe, Multiset.coe_nodup] at h
  refine ⟨h.1, fun q hq hc => ?_⟩
  exact Multiset.disjoint_left.mp h.2.2 (Multiset.mem_coe.mpr hc) (Multiset.mem_map_of_mem _ hq)

theorem sentFor_of_notMem {rs : List Request} {r : RequestId}
    (h : r ∉ rs.map (·.request_id)) (table : RequestId → List Nat) : sentFor rs table r = [] := by
  unfold sentFor
  rw [List.map_eq_nil_iff, List.filter_eq_nil_iff]
  exact fun q hq hc => h (eq_of_beq hc ▸ List.mem_map_of_mem hq)

theorem sentFor_of_mem {rs : List Request} (hnd : (rs.map (·.request_id)).Nodup) {q : Request}
    (hq : q ∈ rs) (table : RequestId → List Nat) :
    sentFor rs table q.request_id = [q.sentWith (table q.request_id)] := by
  unfold sentFor
  rw [counting.filter_key hnd hq]
  rfl

theorem served_arrives (h : Served block_size v) {q : Request}
    (hnew : q.request_id ∉ v.added.map (·.request_id)) (ht : q.generated_token_ids = [])
    (hf : q.is_finished = false) :
    Served block_size { v with added := v.added ++ [q], resting := q ::ₘ v.resting } := by
  obtain ⟨hsends, houtputs⟩ := h.unknown q.request_id hnew
  have hold : ∀ r, r ∉ (v.added ++ [q]).map (·.request_id) →
      r ∉ v.added.map (·.request_id) := fun r hr hc => hr (by
    rw [List.map_append]
    exact List.mem_append_left _ hc)
  refine ⟨?_, ?_, fun r hr => h.unknown r (hold r hr), fun p hp => ?_, h.working, fun p hp => ?_,
    h.room⟩
  · unfold requests
    rw [Multiset.cons_add, Multiset.map_cons]
    change _ ::ₘ v.requests.map Request.origin = _
    rw [h.origins, Multiset.cons_coe, List.map_append, Multiset.coe_eq_coe]
    exact (List.perm_append_singleton _ _).symm
  · rw [List.map_append, List.nodup_append_comm]
    exact List.nodup_cons.mpr ⟨hnew, h.nodup⟩
  · rcases Multiset.mem_cons.mp hp with rfl | hp
    · have hfirst : p.get_first_new_token_index = 0 := by
        unfold Request.get_first_new_token_index
        rw [if_pos]
        rw [Request.is_context_stage_iff, Request.get_output_len, ht]
        rfl
      rw [hfirst]
      exact hsends ▸ covers_nil p.text
    · exact h.rested p hp
  · unfold requests at hp
    rw [Multiset.cons_add] at hp
    rcases Multiset.mem_cons.mp hp with rfl | hp
    · exact houtputs ▸ told_fresh ht hf
    · exact h.told p hp

theorem served_sends (h : Served block_size v) {rs : List Request} {resting : Multiset Request}
    {table : RequestId → List Nat} (hleave : v.resting = ↑rs + resting)
    (hf : ∀ q ∈ rs, q.is_finished = false)
    (hroom : ∀ q ∈ rs, q.text.length ≤ (table q.request_id).length * block_size) :
    Served block_size { v with
      resting
      with_workers := v.with_workers + ↑rs
      sends := fun r => v.sends r ++ sentFor rs table r } := by
  have hreq : v.requests = resting + (v.with_workers + ↑rs) := by
    unfold requests
    rw [hleave]
    ac_rfl
  have hnd := h.requests_nodup
  unfold requests at hnd
  rw [hleave, Multiset.add_assoc] at hnd
  obtain ⟨hrs, hothers⟩ := nodup_parts hnd
  have hmem : ∀ q ∈ rs, q ∈ v.resting := fun q hq => by
    rw [hleave]
    exact Multiset.mem_add.mpr (Or.inl (Multiset.mem_coe.mpr hq))
  refine ⟨?_, h.nodup, fun r hr => ?_, fun q hq => ?_, fun q hq => ?_, fun q hq => ?_,
    fun r x hx => ?_⟩
  · unfold requests
    rw [← hreq]
    exact h.origins
  · have hrs' : r ∉ rs.map (·.request_id) := by
      intro hc
      obtain ⟨q, hq, rfl⟩ := List.mem_map.mp hc
      apply hr
      rw [← Multiset.mem_coe, ← h.ids]
      exact Multiset.mem_map_of_mem _ (Multiset.mem_add.mpr (Or.inl (hmem q hq)))
    dsimp only
    rw [sentFor_of_notMem hrs', List.append_nil]
    exact h.unknown r hr
  · have hq' : q ∈ v.resting := by
      rw [hleave]
      exact Multiset.mem_add.mpr (Or.inr hq)
    dsimp only
    rw [sentFor_of_notMem (hothers q (Multiset.mem_add.mpr (Or.inl hq))), List.append_nil]
    exact h.rested q hq'
  · dsimp only
    rcases Multiset.mem_add.mp hq with hq | hq
    · rw [sentFor_of_notMem (hothers q (Multiset.mem_add.mpr (Or.inr hq))), List.append_nil]
      exact h.working q hq
    · rw [Multiset.mem_coe] at hq
      rw [sentFor_of_mem hrs hq]
      exact ⟨hf q hq, (h.rested q (hmem q hq)).send _⟩
  · unfold requests at hq
    rw [← hreq] at hq
    exact h.told q hq
  · rcases List.mem_append.mp hx with hx | hx
    · exact h.room r x hx
    · obtain ⟨q, hq, rfl⟩ := List.mem_map.mp hx
      obtain ⟨hq, hr⟩ := List.mem_filter.mp hq
      have := hroom q hq
      rw [eq_of_beq hr, q.length_text, ← q.sent_end] at this
      exact this

theorem served_answers (h : Served block_size v) {rs : List Request}
    {with_workers : Multiset Request} {ts : List String} {is : List TokenId}
    (hleave : v.with_workers = ↑rs + with_workers) (hts : ts.length = rs.length)
    (his : is.length = rs.length) :
    Served block_size { v with
      resting := v.resting + ↑(BatchedRequests.growAll rs ts is)
      with_workers
      outputs := fun r => v.outputs r ++
        (step_outputs (BatchedRequests.growAll rs ts is) ts is).filter (·.request_id == r) } := by
  have hnd := h.requests_nodup
  have hreq : v.requests = ↑rs + (v.resting + with_workers) := by
    unfold requests
    rw [hleave]
    ac_rfl
  rw [hreq] at hnd
  obtain ⟨hrs, hothers⟩ := nodup_parts hnd
  have hgrown := step_outputs_of_grown hts his hrs
  have hmem : ∀ q ∈ rs, q ∈ v.with_workers := fun q hq => by
    rw [hleave]
    exact Multiset.mem_add.mpr (Or.inl (Multiset.mem_coe.mpr hq))
  have hnone : ∀ r ∉ rs.map (·.request_id),
      (step_outputs (BatchedRequests.growAll rs ts is) ts is).filter (·.request_id == r) = [] :=
    fun r => no_output_of_others hts his
  refine ⟨?_, h.nodup, fun r hr => ?_, fun q hq => ?_, fun q hq => ?_, fun q hq => ?_, h.room⟩
  · have horigin : (BatchedRequests.growAll rs ts is).map Request.origin = rs.map Request.origin :=
      BatchedRequests.growAll_map _ (fun r t i => by simp [Request.origin]) rs ts is
    rw [← h.origins, hreq, requests]
    simp only [Multiset.map_add, Multiset.map_coe, horigin]
    ac_rfl
  · have hrs' : r ∉ rs.map (·.request_id) := by
      intro hc
      obtain ⟨q, hq, rfl⟩ := List.mem_map.mp hc
      apply hr
      rw [← Multiset.mem_coe, ← h.ids]
      exact Multiset.mem_map_of_mem _ (Multiset.mem_add.mpr (Or.inr (hmem q hq)))
    dsimp only
    rw [hnone r hrs', List.append_nil]
    exact h.unknown r hr
  · rcases Multiset.mem_add.mp hq with hq | hq
    · exact h.rested q hq
    · obtain ⟨r, hr, t, i, rfl, -⟩ := hgrown q (Multiset.mem_coe.mp hq)
      rw [Request.grow_request_id]
      exact (h.working r (hmem r hr)).2.grow t i
  · apply h.working q
    rw [hleave]
    exact Multiset.mem_add.mpr (Or.inr hq)
  · have hq' : q ∈ v.resting + with_workers ∨ q ∈ BatchedRequests.growAll rs ts is := by
      simp only [requests, Multiset.mem_add, Multiset.mem_coe] at hq ⊢
      tauto
    dsimp only
    rcases hq' with hq | hq
    · rw [hnone _ (hothers q hq), List.append_nil]
      exact h.told q (by rw [hreq]; exact Multiset.mem_add.mpr (Or.inr hq))
    · obtain ⟨r, hr, t, i, rfl, hout⟩ := hgrown q hq
      have htold := h.told r (Multiset.mem_add.mpr (Or.inr (hmem r hr)))
      rw [Request.grow_request_id, hout]
      exact htold.grow (htold.may_grow (h.working r (hmem r hr)).1) t i

/-- Each step keeps the invariant. -/
theorem Step.served (hs : Step block_size v v') (h : Served block_size v) :
    Served block_size v' := by
  cases hs with
  | stays => exact h
  | arrives hnew ht hf => exact served_arrives h hnew ht hf
  | sends hleave hf hroom => exact served_sends h hleave hf hroom
  | answers hleave hts his => exact served_answers h hleave hts his

end Serving

end distserve
