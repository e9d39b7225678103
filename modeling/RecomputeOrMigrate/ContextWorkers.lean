-- What the workers of the context engine keep: the entries of the prompt of each request
-- whose blocks the engine still has, and the tokens of the batches that run.
import RecomputeOrMigrate.WorkerMemory

open autoregression calls runs

namespace distserve

open kv_store

variable {κ : Type} {model : Model TokenId κ} {decode : Tokenizer}

/-- The tokens of a request are those that the model writes after its prompt. -/
def Request.WrittenBy (model : Model TokenId κ) (q : Request) : Prop :=
  q.generated_token_ids = model.generate q.prompt_token_ids q.get_output_len

open BlockManager

namespace Request

theorem writtenBy_fresh {q : Request} (h : q.generated_token_ids = []) : q.WrittenBy model := by
  simp [WrittenBy, get_output_len, h, Model.generate]

theorem WrittenBy.grow {q : Request} (h : q.WrittenBy model) (t : String) :
    (q.grow t (model.next (model.entries q.text))).WrittenBy model := by
  unfold WrittenBy at h ⊢
  rw [grow_generated_token_ids, grow_prompt_token_ids, grow_get_output_len, Model.generate, ← h]
  rfl

/-- After a new token, what was sent before is all but the new one. -/
theorem take_first_new_grow (q : Request) (t : String) (i : TokenId) :
    (q.grow t i).text.take (q.grow t i).get_first_new_token_index = q.text := by
  have htext : (q.grow t i).text = q.text ++ [i] := by simp [text]
  have hfirst : (q.grow t i).get_first_new_token_index = q.text.length := by
    have hc : (q.grow t i).is_context_stage = false := by
      rw [← Bool.not_eq_true, is_context_stage_iff, grow_get_output_len]
      omega
    rw [get_first_new_token_index, hc, q.length_text, grow_get_input_len, grow_get_output_len]
    simp only [Bool.false_eq_true, if_false]
    omega
  rw [htext, hfirst, List.take_left']
  rfl

/-- With the first token, the prompt was sent. -/
theorem take_first_new_of_one {q : Request} (h : q.get_output_len = 1) :
    q.text.take q.get_first_new_token_index = q.prompt_token_ids := by
  have hc : q.is_context_stage = false := by
    rw [← Bool.not_eq_true, is_context_stage_iff, h]
    omega
  have hfirst : q.get_first_new_token_index = q.prompt_token_ids.length := by
    rw [get_first_new_token_index, hc, h]
    rfl
  rw [hfirst, text, List.take_left']
  rfl

end Request

/-- Each request of a batch that comes back has the token of the model. -/
theorem mem_growAll_answersOf {rs : List Request} {ts : List String}
    (hts : ts.length = rs.length) {q : Request}
    (h : q ∈ BatchedRequests.growAll rs ts (answersOf model rs)) :
    ∃ r ∈ rs, ∃ t, q = r.grow t (model.next (model.entries r.text)) := by
  unfold answersOf at h
  induction rs generalizing ts with
  | nil => cases ts <;> simp [BatchedRequests.growAll] at h
  | cons r rs ih =>
    obtain ⟨t, ts, rfl⟩ := List.exists_cons_of_length_eq_add_one hts
    rcases List.mem_cons.mp h with rfl | h
    · exact ⟨r, List.mem_cons_self, t, rfl⟩
    · obtain ⟨r', hr', hq⟩ := ih (Nat.succ.inj hts) h
      exact ⟨r', List.mem_cons_of_mem _ hr', hq⟩

/-- A batch that comes back has the tokens of the model. -/
theorem written_of_grown {rs : List Request} (hrs : ∀ r ∈ rs, r.WrittenBy model) {q : Request}
    (hq : q ∈ BatchedRequests.growAll rs (decode.decode_tokens (answersOf model rs))
      (answersOf model rs)) : q.WrittenBy model := by
  obtain ⟨r, hr, t, rfl⟩ := mem_growAll_answersOf
    (by rw [Tokenizer.decode_tokens, List.length_map, answersOf, List.length_map]) hq
  exact (hrs r hr).grow t

namespace ContextStageLLMEngine

variable {e e' : ContextStageLLMEngine} {w : Workers κ} {cs : List Callback}

def block_size (e : ContextStageLLMEngine) : Nat := e.block_manager.cache_config.block_size

/-- The batches that are with the workers. -/
def sent_batches (e : ContextStageLLMEngine) : List (List Request) :=
  (e.batches_in_pipeline.map BatchedRequests.requests).filter (· ≠ [])

/-- What the workers have once they ran all calls of the engine. -/
structure Computes (model : Model TokenId κ) (e : ContextStageLLMEngine) (w : Workers κ) :
    Prop where
  working : ∀ q ∈ e.in_flight,
    Stores e.block_size e.block_manager w.memory q.request_id (model.entries q.text)
  handing : ∀ q ∈ e.scheduler.unaccepted_queue,
    Stores e.block_size e.block_manager w.memory q.request_id (model.entries q.prompt_token_ids)
  results : w.results = e.sent_batches.map (answersOf model)

/-- The calls of the engine from `e` to `e'`, and the workers after all of them. -/
def ComputesAfter (model : Model TokenId κ) (e e' : ContextStageLLMEngine) (w : Workers κ) :
    Prop :=
  ∃ cs, e'.block_manager.remote_calls = e.block_manager.remote_calls ++ cs ∧
    Computes model e' (w.after model e.block_size cs)

theorem Pushed.block_size {now : Nat} {moved : List Request} (h : Pushed e now moved e') :
    e'.block_size = e.block_size := by
  unfold ContextStageLLMEngine.block_size
  rw [h.cache_config]

theorem Pushed.sent_batches {now : Nat} {moved : List Request} (h : Pushed e now moved e') :
    e'.sent_batches = e.sent_batches ++ if moved = [] then [] else [moved] := by
  unfold ContextStageLLMEngine.sent_batches
  rw [h.pipeline, List.map_append, List.filter_append, List.map_singleton, List.filter_singleton]
  by_cases hm : moved = [] <;> simp [hm]

/-- A fresh batch is ready for the workers. -/
theorem Pushed.ready {now : Nat} {moved : List Request} (hs : Sound e)
    (h : Pushed e now moved e') (d : Devices (Nat → κ)) {q : Request} (hq : q ∈ moved) :
    Ready model e.block_size e'.block_manager d q := by
  have hin : q ∈ e'.in_flight ++ e'.scheduler.unaccepted_queue := by
    rw [h.in_flight]
    simp [hq]
  obtain ⟨ht, hf⟩ := hs.fresh q (by rw [h.waiting]; simp [hq])
  have htext : q.text = q.prompt_token_ids := by rw [Request.text, ht, List.append_nil]
  have hfirst : q.get_first_new_token_index = 0 := by
    unfold Request.get_first_new_token_index
    rw [if_pos ((Request.is_context_stage_iff q).mpr (by simp [Request.get_output_len, ht]))]
  refine ⟨h.accounts.owned_gpu (List.mem_map_of_mem hin), ?_, ?_⟩
  · rw [← allocated_eq, h.allocated hs q hin, htext]
    exact e.block_manager.cache_config.le_blocks_for _
  · rw [hfirst, List.take_zero]
    exact stores_nil

/-- The next batch goes to the workers. -/
theorem Pushed.computes {now : Nat} {moved : List Request} (hs : Sound e)
    (h : Pushed e now moved e') (hc : Computes model e w) : ComputesAfter model e e' w := by
  obtain ⟨m, hal, hm⟩ := h.manager
  obtain ⟨cs, hcarry⟩ := carries_of_waits (κ := κ) hal.waits hal.others
  have hnd := hs.nodup
  rw [present, h.waiting, List.append_assoc, List.append_assoc, List.map_append,
    List.nodup_append'] at hnd
  -- the requests that were there are not those of the batch
  have hold : ∀ q ∈ e.in_flight ++ e.scheduler.unaccepted_queue,
      q.request_id ∉ moved.map (·.request_id) := fun q hq hc =>
    List.disjoint_left.mp hnd.2.2 hc
      (List.mem_map_of_mem (List.mem_append_right _ hq))
  have howned : e'.block_manager.owned = m.owned := by rw [hm, owned_sendStep]
  by_cases hmoved : moved = []
  · subst hmoved
    rw [sendStep, if_pos rfl] at hm
    refine ⟨cs, by rw [hm]; exact hcarry.calls, ?_⟩
    rw [Workers.after_of_not_forwards hcarry.quiet]
    refine ⟨fun q hq => ?_, fun q hq => ?_, ?_⟩
    · rw [h.in_flight, List.append_nil] at hq
      rw [h.block_size, hm]
      exact hcarry.stores (by simp) (hc.working q hq)
    · rw [h.unaccepted] at hq
      rw [h.block_size, hm]
      exact hcarry.stores (by simp) (hc.handing q hq)
    · rw [h.sent_batches]
      simpa using hc.results
  · have hstep : m.stepCall moved = e'.block_manager.stepCall moved := by
      rw [hm]
      exact stepCall_congr fun q _ => congrFun (tableOf_sendStep _).symm _
    refine ⟨cs ++ [e'.block_manager.stepCall moved], ?_, ?_⟩
    · rw [← hstep, ← List.append_assoc, ← hcarry.calls, hm, sendStep, if_neg hmoved]
      rfl
    rw [Workers.after_append, Workers.after_of_not_forwards hcarry.quiet]
    obtain ⟨htokens, hnew, hothers⟩ := run_step_stores model
      (w := { w with memory := cs.foldl run_call w.memory })
      e.block_manager.cache_config.block_size_pos h.accounts.partitioned hnd.1
      fun q hq => h.ready hs _ hq
    have hkeeps : ∀ q ∈ e.in_flight ++ e.scheduler.unaccepted_queue, ∀ values : List κ,
        Stores e.block_size e.block_manager w.memory q.request_id values →
        Stores e.block_size e'.block_manager (Workers.run_call model e.block_size
          { w with memory := cs.foldl run_call w.memory }
          (e'.block_manager.stepCall moved)).memory q.request_id values :=
      fun q hq values hv => hothers _ (hold q hq) _
        ((stores_congr howned).mpr (hcarry.stores (hold q hq) hv))
    refine ⟨fun q hq => ?_, fun q hq => ?_, ?_⟩
    · rw [h.in_flight, List.mem_append] at hq
      rw [h.block_size]
      rcases hq with hq | hq
      · exact hkeeps q (List.mem_append_left _ hq) _ (hc.working q hq)
      · exact hnew q hq
    · rw [h.unaccepted] at hq
      rw [h.block_size]
      exact hkeeps q (List.mem_append_right _ hq) _ (hc.handing q hq)
    · rw [h.sent_batches, if_neg hmoved, List.map_append, List.map_singleton, ← hc.results]
      exact htokens

/-- The test for a full pipeline calls no workers. -/
theorem Checked.sent_batches (h : Checked e e') : e'.sent_batches = e.sent_batches := by
  unfold ContextStageLLMEngine.sent_batches
  rcases h.pipeline with hp | ⟨b, rest, hb, hnone, hp⟩
  · rw [hp]
  · rw [hp, hb, List.map_cons, hnone, List.filter_cons_of_neg (by simp)]

theorem Checked.computes (h : Checked e e') (hc : Computes model e w) :
    ComputesAfter model e e' w := by
  have hm : e'.block_manager = e.block_manager := by
    unfold block_manager
    rw [h.scheduler]
  refine ⟨[], by rw [hm, List.append_nil], fun q hq => ?_, fun q hq => ?_, ?_⟩
  · rw [h.in_flight] at hq
    unfold ContextStageLLMEngine.block_size
    rw [hm]
    exact hc.working q hq
  · rw [h.scheduler] at hq
    unfold ContextStageLLMEngine.block_size
    rw [hm]
    exact hc.handing q hq
  · rw [h.sent_batches]
    exact hc.results

/-- The batch that comes back was with the workers. -/
theorem sent_batches_head {batch : BatchedRequests} {rest : List BatchedRequests} (hs : Sound e)
    (hp : e.point = .awaiting) (hb : e.batches_in_pipeline = batch :: rest) :
    e.sent_batches =
      batch.requests :: (rest.map BatchedRequests.requests).filter (· ≠ []) := by
  obtain ⟨c, futures, hf⟩ := hs.awaiting hp
  have hfs := hs.futures
  rw [hb, hf] at hfs
  cases hfs with
  | cons hfirst _ =>
    unfold sent_batches
    rw [hb, List.map_cons, List.filter_cons_of_pos (by simpa using hfirst.1)]

/-- The earliest result is that of the batch that comes back. -/
theorem Computes.result {batch : BatchedRequests} {rest : List BatchedRequests}
    {ids : List TokenId} {results : List (List TokenId)} (hs : Sound e) (hp : e.point = .awaiting)
    (hb : e.batches_in_pipeline = batch :: rest) (hc : Computes model e w)
    (hr : w.results = ids :: results) : ids = answersOf model batch.requests := by
  have := hc.results
  rw [sent_batches_head hs hp hb, hr, List.map_cons] at this
  exact (List.cons.inj this).1

/-- A batch comes back, and its result is taken. -/
theorem Took.computes {batch : BatchedRequests} {rest : List BatchedRequests}
    {ids : List TokenId} {results : List (List TokenId)} (hs : Sound e) (hs' : Sound e')
    (hp : e.point = .awaiting) (hb : e.batches_in_pipeline = batch :: rest)
    (h : Took e (BatchedRequests.growAll batch.requests (decode.decode_tokens ids) ids) e')
    (hc : Computes model e w) (hr : w.results = ids :: results) :
    ComputesAfter model e e' { w with results } := by
  have hids := hc.result hs hp hb hr
  have hlen : ids.length = batch.requests.length := by
    rw [hids, answersOf, List.length_map]
  have hts : (decode.decode_tokens ids).length = batch.requests.length := by
    rw [Tokenizer.decode_tokens, List.length_map, hlen]
  have hcarry := carries_of_owned (κ := κ) h.remote_calls (fun c hc => by
    obtain ⟨q, -, rfl⟩ := List.mem_map.mp hc
    rfl) h.others
  have hsize : e'.block_size = e.block_size := by
    unfold block_size
    rw [h.cache_config]
  -- an owner is not one of the finished requests, which own nothing any more
  have hstays : ∀ q ∈ e'.in_flight ++ e'.scheduler.unaccepted_queue, q.request_id ∉
      ((BatchedRequests.growAll batch.requests (decode.decode_tokens ids) ids).filter
        (·.is_finished)).map (·.request_id) := fun q hq hc => by
    have := hs'.accounts.owned_gpu (List.mem_map_of_mem hq)
    rw [h.gone _ hc] at this
    cases this
  have hin : e.in_flight = batch.requests ++ e'.in_flight := by
    unfold in_flight
    rw [hb, h.pipeline, hb]
    rfl
  refine ⟨_, h.remote_calls, ?_⟩
  rw [Workers.after_of_not_forwards hcarry.quiet]
  refine ⟨fun q hq => ?_, fun q hq => ?_, ?_⟩
  · rw [hsize]
    exact hcarry.stores (hstays q (List.mem_append_left _ hq))
      (hc.working q (by rw [hin]; exact List.mem_append_right _ hq))
  · rw [hsize]
    apply hcarry.stores (hstays q (List.mem_append_right _ hq))
    rw [h.unaccepted, List.mem_append] at hq
    rcases hq with hq | hq
    · exact hc.handing q hq
    · have hgrown := (List.mem_filter.mp hq).1
      rw [hids] at hgrown
      obtain ⟨r, hr', t, rfl⟩ := mem_growAll_answersOf (by rw [← hids]; exact hts) hgrown
      have hflight : r ∈ e.in_flight := by
        rw [hin]
        exact List.mem_append_left _ hr'
      have htext : r.text = r.prompt_token_ids := by
        rw [Request.text, (hs.fresh r (List.mem_append_right _ hflight)).1, List.append_nil]
      rw [Request.grow_request_id, Request.grow_prompt_token_ids, ← htext]
      exact hc.working r hflight
  · have hres := hc.results
    rw [sent_batches_head hs hp hb, hr, List.map_cons] at hres
    unfold sent_batches
    rw [h.pipeline, hb, List.tail_cons]
    exact (List.cons.inj hres).2

/-- The requests that keep their blocks are other ones. -/
theorem Cleared.ne {r : RequestId} (hs : Sound e) (h : Cleared e r e')
    (hun : r ∈ e.scheduler.unaccepted_queue.map (·.request_id)) {q : Request}
    (hq : q ∈ e'.in_flight ++ e'.scheduler.unaccepted_queue) : q.request_id ≠ r := by
  have hin : e'.in_flight = e.in_flight := by
    rw [h.same]
    rfl
  obtain ⟨q0, rfl, hperm⟩ := eraseP_perm hun
  have hnd := hs.accounts.nodup.of_append_left
  have hids := ((hperm.append_left e.in_flight).trans List.perm_middle).map (·.request_id)
  rw [owners, hids.nodup_iff, List.map_cons, List.nodup_cons, ← h.unaccepted, ← hin] at hnd
  exact fun hc => hnd.1 (hc ▸ List.mem_map_of_mem hq)

/-- A migrated request goes away. -/
theorem Cleared.computes {r : RequestId} (hs : Sound e) (h : Cleared e r e')
    (hun : r ∈ e.scheduler.unaccepted_queue.map (·.request_id)) (hc : Computes model e w) :
    ComputesAfter model e e' w := by
  obtain ⟨m, hf, hm⟩ := h.manager
  have hcalls : e'.block_manager.remote_calls =
      e.block_manager.remote_calls ++ [.clear_request_resource r] := by
    rw [hm, ← hf.remote_calls]
    rfl
  have hcarry : Carries κ [r] e.block_manager e'.block_manager [.clear_request_resource r] :=
    carries_of_owned hcalls (fun c hc => by rw [List.mem_singleton.mp hc]; rfl) fun r' hr' => by
      rw [hm]
      exact hf.others r' hr'
  have hsize : e'.block_size = e.block_size := by
    unfold block_size
    rw [hm]
    exact congrArg CacheConfig.block_size hf.cache_config
  have hstays : ∀ q ∈ e'.in_flight ++ e'.scheduler.unaccepted_queue, q.request_id ∉ [r] :=
    fun q hq hc => h.ne hs hun hq (List.mem_singleton.mp hc)
  have hin : e'.in_flight = e.in_flight := by
    rw [h.same]
    rfl
  have hbatches : e'.sent_batches = e.sent_batches := by
    rw [h.same]
    rfl
  refine ⟨_, hcalls, ?_⟩
  rw [Workers.after_of_not_forwards hcarry.quiet]
  refine ⟨fun q hq => ?_, fun q hq => ?_, ?_⟩
  · rw [hsize]
    exact hcarry.stores (hstays q (List.mem_append_left _ hq)) (hc.working q (hin ▸ hq))
  · rw [hsize]
    apply hcarry.stores (hstays q (List.mem_append_right _ hq))
    rw [h.unaccepted] at hq
    exact hc.handing q (List.mem_of_mem_eraseP hq)
  · rw [hbatches]
    exact hc.results

/-! ## The requests that are handed over -/

/-- The engine holds a request that it handed over, with the blocks that it sent along. -/
def HoldsFor (e : ContextStageLLMEngine) (mr : MigratingRequest) : Prop :=
  mr.req ∈ e.scheduler.unaccepted_queue ∧
    e.block_manager.owned mr.req.request_id = some (.GPU, mr.block_indexes)

/-- The requests that are handed over are not with the workers. -/
theorem Sound.in_flight_ne (hs : Sound e) {q q' : Request} (hq : q ∈ e.in_flight)
    (hun : q' ∈ e.scheduler.unaccepted_queue) : q.request_id ≠ q'.request_id := by
  have hnd := hs.accounts.nodup.of_append_left
  rw [owners, List.map_append, List.nodup_append'] at hnd
  exact fun hc => List.disjoint_left.mp hnd.2.2 (List.mem_map_of_mem hq)
    (hc ▸ List.mem_map_of_mem hun)

theorem Pushed.holds_for {now : Nat} {moved : List Request} {mr : MigratingRequest}
    (hs : Sound e) (h : Pushed e now moved e') (hmr : HoldsFor e mr) : HoldsFor e' mr := by
  obtain ⟨m, hal, hm⟩ := h.manager
  refine ⟨by rw [h.unaccepted]; exact hmr.1, ?_⟩
  rw [hm, owned_sendStep, hal.others _ fun hc => ?_]
  · exact hmr.2
  · have hnd := hs.nodup
    rw [present, h.waiting, List.append_assoc, List.append_assoc, List.map_append,
      List.nodup_append'] at hnd
    exact List.disjoint_left.mp hnd.2.2 hc
      (List.mem_map_of_mem (List.mem_append_right _ (List.mem_append_right _ hmr.1)))

/-- What a batch that comes back adds to the bridge queue. -/
theorem Took.holds_for {batch : BatchedRequests} {rest : List BatchedRequests}
    {ids : List TokenId} {mr : MigratingRequest} (hs : Sound e)
    (hb : e.batches_in_pipeline = batch :: rest)
    (h : Took e (BatchedRequests.growAll batch.requests (decode.decode_tokens ids) ids) e') :
    (HoldsFor e mr → HoldsFor e' mr) ∧
      (mr ∈ e'.bridge_queue → mr ∈ e.bridge_queue ∨ HoldsFor e' mr) := by
  set grown := BatchedRequests.growAll batch.requests (decode.decode_tokens ids) ids
  have hin : ∀ q ∈ batch.requests, q ∈ e.in_flight := fun q hq => by
    unfold in_flight
    rw [hb, List.flatMap_cons]
    exact List.mem_append_left _ hq
  have hids : ∀ q ∈ grown, q.request_id ∈ batch.requests.map (·.request_id) := fun q hq => by
    rcases BatchedRequests.mem_growAll hq with ⟨r, hr, rfl | ⟨t, i, rfl⟩⟩
    · exact List.mem_map_of_mem hr
    · rw [Request.grow_request_id]
      exact List.mem_map_of_mem hr
  constructor
  · rintro ⟨hun, howned⟩
    refine ⟨by rw [h.unaccepted]; exact List.mem_append_left _ hun, ?_⟩
    rw [h.others _ fun hc => ?_]
    · exact howned
    · obtain ⟨q, hq, hid⟩ := List.mem_map.mp hc
      obtain ⟨r, hr, hid'⟩ := List.mem_map.mp (hids q (List.mem_filter.mp hq).1)
      exact hs.in_flight_ne (hin r hr) hun (hid'.trans hid)
  · intro hmr
    rw [h.bridge, List.mem_append] at hmr
    apply hmr.imp id
    intro hmr
    obtain ⟨q, hq, rfl⟩ := List.mem_map.mp hmr
    refine ⟨by rw [h.unaccepted]; exact List.mem_append_right _ hq, ?_⟩
    rw [h.others _ fun hc => ?_]
    · obtain ⟨r, hr, hid⟩ := List.mem_map.mp (hids q (List.mem_filter.mp hq).1)
      rw [← hid]
      exact hs.accounts.owned_gpu (List.mem_map_of_mem (List.mem_append_left _ (hin r hr)))
    · -- the finished requests of the batch are other ones
      have hnd := hs.accounts.nodup.of_append_left
      rw [owners, in_flight, hb, List.flatMap_cons, List.append_assoc, List.map_append,
        List.nodup_append'] at hnd
      have hgrown := ((BatchedRequests.ids_of_grown batch.requests
        (decode.decode_tokens ids) ids).nodup_iff).mpr hnd.1
      exact List.disjoint_left.mp (List.nodup_append'.mp hgrown).2.2 hc (List.mem_map_of_mem hq)

/-- The clear of one request leaves the others. -/
theorem Cleared.holds_for {r : RequestId} {mr : MigratingRequest} (h : Cleared e r e')
    (hne : mr.req.request_id ≠ r) (hmr : HoldsFor e mr) : HoldsFor e' mr := by
  obtain ⟨m, hf, hm⟩ := h.manager
  constructor
  · rw [h.unaccepted]
    exact (List.mem_eraseP_of_neg (by simpa using hne)).mpr hmr.1
  · rw [hm]
    exact (hf.others _ fun hc => hne (List.mem_singleton.mp hc)).trans hmr.2

/-- The engine keeps what it handed over, but for the requests that are cleared. -/
theorem Part.holds_for {first : ContextStageLLMEngine} {a : Action}
    (h : Part decode a first e cs e') (mr : MigratingRequest)
    (ha : ∀ mr, a ≠ .clear_migrated_blocks mr) :
    (HoldsFor e mr → HoldsFor e' mr) ∧
      (mr ∈ e'.bridge_queue → mr ∈ e.bridge_queue ∨ HoldsFor e' mr) := by
  cases h with
  | pushes hs hp h =>
    exact ⟨h.holds_for hs, fun hmr => Or.inl (h.bridge ▸ hmr)⟩
  | checks hs h =>
    refine ⟨fun hmr => ?_, fun hmr => Or.inl (h.bridge ▸ hmr)⟩
    unfold HoldsFor block_manager at hmr ⊢
    rwa [h.scheduler]
  | takes hs hp hb h => exact h.holds_for hs hb
  | adds hs hnew ht hf => exact ⟨id, Or.inl⟩
  | gets hs hb => exact ⟨id, fun hmr => Or.inl (by rw [hb]; exact List.mem_cons_of_mem _ hmr)⟩
  | clears hs hun h => exact absurd rfl (ha _)

/-! ## The calls that wait for the workers -/

/-- The steps that still wait for the workers are those of the latest batches. The results
that the engine did not take are those of the batches before them. -/
structure Queued (e : ContextStageLLMEngine) (w : Workers κ) : Prop where
  executed_le : w.executed ≤ e.block_manager.remote_calls.length
  plain : ∀ c ∈ e.block_manager.remote_calls, c.isStep = true ∨ c.inert = true
  order : ∃ ran, e.sent_batches.map e.block_manager.stepCall =
    ran ++ (w.pending e.block_manager).filter RemoteCall.isStep ∧ ran.length = w.results.length

theorem pending_append {m m' : BlockManager} {cs : List RemoteCall}
    (hle : w.executed ≤ m.remote_calls.length) (h : m'.remote_calls = m.remote_calls ++ cs) :
    w.pending m' = w.pending m ++ cs := by
  rw [Workers.pending, h, List.drop_append_of_le_length hle]
  rfl

/-- More calls, which are inert but for the steps of new batches. -/
theorem Queued.more {cs : List RemoteCall} {new : List (List Request)} (hq : Queued e w)
    (hcs : e'.block_manager.remote_calls = e.block_manager.remote_calls ++ cs)
    (hplain : ∀ c ∈ cs, c.isStep = true ∨ c.inert = true)
    (hbatches : e'.sent_batches = e.sent_batches ++ new)
    (htables : ∀ rs ∈ e.sent_batches, ∀ q ∈ rs,
      e'.block_manager.tableOf q.request_id = e.block_manager.tableOf q.request_id)
    (hnew : cs.filter RemoteCall.isStep = new.map e'.block_manager.stepCall) : Queued e' w where
  executed_le := by
    rw [hcs, List.length_append]
    exact Nat.le_add_right_of_le hq.executed_le
  plain c hc := by
    rw [hcs, List.mem_append] at hc
    exact hc.elim (hq.plain c) (hplain c)
  order := by
    obtain ⟨ran, hran, hlen⟩ := hq.order
    refine ⟨ran, ?_, hlen⟩
    rw [pending_append hq.executed_le hcs, List.filter_append, hnew, hbatches, List.map_append,
      ← List.append_assoc, ← hran]
    congr 1
    exact List.map_congr_left fun rs hrs => stepCall_congr (htables rs hrs)

/-- The requests of the batches with the workers. -/
theorem mem_in_flight_of_sent {rs : List Request} (hrs : rs ∈ e.sent_batches) {q : Request}
    (hq : q ∈ rs) : q ∈ e.in_flight := by
  obtain ⟨b, hb, rfl⟩ := List.mem_map.mp (List.mem_filter.mp hrs).1
  exact List.mem_flatMap.mpr ⟨b, hb, hq⟩

theorem Pushed.queued {now : Nat} {moved : List Request} (hs : Sound e) (hs' : Sound e')
    (h : Pushed e now moved e') (hq : Queued e w) : Queued e' w := by
  obtain ⟨m, hal, hm⟩ := h.manager
  obtain ⟨cs, hcs, hwait⟩ := hal.waits
  have hnd := hs.nodup
  rw [present, h.waiting, List.append_assoc, List.append_assoc, List.map_append,
    List.nodup_append'] at hnd
  have htable : e'.block_manager.stepCall moved = m.stepCall moved := by
    rw [hm]
    exact stepCall_congr fun q _ => congrFun (tableOf_sendStep _) _
  have hcalls : e'.block_manager.remote_calls = e.block_manager.remote_calls ++
      (cs ++ if moved = [] then [] else [e'.block_manager.stepCall moved]) := by
    rw [hm, sendStep]
    split
    · simpa using hcs
    · rw [← List.append_assoc, ← hcs, ← htable, hm, sendStep, if_neg ‹_›]
      rfl
  refine hq.more hcalls ?_ h.sent_batches ?_ ?_
  · intro c hc
    rcases List.mem_append.mp hc with hc | hc
    · exact Or.inr (hwait c hc).inert
    · split at hc
      · cases hc
      · exact Or.inl (by rw [List.mem_singleton.mp hc]; rfl)
  · intro rs hrs q hqr
    refine tableOf_congr hs.accounts.same_keys hs'.accounts.same_keys ?_
    rw [hm, owned_sendStep]
    refine hal.others _ fun hc => List.disjoint_left.mp hnd.2.2 hc (List.mem_map_of_mem
      (List.mem_append_right _ (List.mem_append_left _ (mem_in_flight_of_sent hrs hqr))))
  · rw [List.filter_append, List.filter_eq_nil_iff.mpr fun c hc => by
      rcases hwait c hc with rfl | rfl <;> simp [RemoteCall.isStep]]
    split
    · rfl
    · rfl

theorem Checked.queued (h : Checked e e') (hq : Queued e w) : Queued e' w := by
  have hm : e'.block_manager = e.block_manager := by
    unfold block_manager
    rw [h.scheduler]
  have hbatches : e'.sent_batches = e.sent_batches ++ [] := by
    rw [h.sent_batches, List.append_nil]
  have hcalls : e'.block_manager.remote_calls = e.block_manager.remote_calls ++ [] := by
    rw [hm, List.append_nil]
  exact hq.more hcalls (by simp) hbatches (fun _ _ _ _ => by rw [hm]) rfl

theorem Took.queued {batch : BatchedRequests} {rest : List BatchedRequests}
    {ids : List TokenId} {results : List (List TokenId)} (hs : Sound e) (hs' : Sound e')
    (hp : e.point = .awaiting) (hb : e.batches_in_pipeline = batch :: rest)
    (h : Took e (BatchedRequests.growAll batch.requests (decode.decode_tokens ids) ids) e')
    (hr : w.results = ids :: results) (hq : Queued e w) : Queued e' { w with results } := by
  have hbatches : e.sent_batches = batch.requests :: e'.sent_batches := by
    rw [sent_batches_head hs hp hb, sent_batches, h.pipeline, hb]
    rfl
  obtain ⟨ran, hran, hlen⟩ := hq.order
  rw [hr, List.length_cons] at hlen
  obtain ⟨c, ran, rfl⟩ := List.exists_cons_of_length_eq_add_one hlen
  rw [hbatches, List.map_cons, List.cons_append] at hran
  refine ⟨?_, ?_, ran, ?_, Nat.succ.inj hlen⟩
  · rw [h.remote_calls, List.length_append]
    exact Nat.le_add_right_of_le hq.executed_le
  · intro c' hc'
    rw [h.remote_calls, List.mem_append] at hc'
    rcases hc' with hc' | hc'
    · exact hq.plain c' hc'
    · obtain ⟨q, -, rfl⟩ := List.mem_map.mp hc'
      exact Or.inr rfl
  · change _ = ran ++ (w.pending e'.block_manager).filter RemoteCall.isStep
    have hclear : ∀ rs : List Request, (rs.map fun q => RemoteCall.clear_request_resource
        q.request_id).filter RemoteCall.isStep = [] := fun rs => by
      rw [List.filter_eq_nil_iff]
      intro c' hc'
      obtain ⟨q, -, rfl⟩ := List.mem_map.mp hc'
      simp [RemoteCall.isStep]
    rw [pending_append hq.executed_le h.remote_calls, List.filter_append, hclear, List.append_nil,
      ← (List.cons.inj hran).2]
    refine List.map_congr_left fun rs hrs => stepCall_congr fun q hqr => ?_
    refine tableOf_congr hs.accounts.same_keys hs'.accounts.same_keys (h.others _ fun hc => ?_)
    have := hs'.accounts.owned_gpu (List.mem_map_of_mem
      (List.mem_append_left _ (mem_in_flight_of_sent hrs hqr)))
    rw [h.gone _ hc] at this
    cases this

theorem Cleared.queued {r : RequestId} (hs : Sound e) (h : Cleared e r e')
    (hun : r ∈ e.scheduler.unaccepted_queue.map (·.request_id)) (hq : Queued e w) :
    Queued e' w := by
  obtain ⟨m, hf, hm⟩ := h.manager
  have hbatches : e'.sent_batches = e.sent_batches ++ [] := by
    rw [List.append_nil, h.same]
    rfl
  have hin : e'.in_flight = e.in_flight := by
    rw [h.same]
    rfl
  have hcalls : e'.block_manager.remote_calls =
      e.block_manager.remote_calls ++ [.clear_request_resource r] := by
    rw [hm, ← hf.remote_calls]
    rfl
  refine hq.more hcalls ?_ hbatches ?_ rfl
  · exact fun c hc => Or.inr (by rw [List.mem_singleton.mp hc]; rfl)
  · intro rs hrs q hqr
    have hq' := mem_in_flight_of_sent hrs hqr
    have howned := hs.accounts.owned_gpu (List.mem_map_of_mem (List.mem_append_left _ hq'))
    apply tableOf_eq (l := .GPU)
    rw [← howned, hm]
    exact hf.others _ fun hc => h.ne hs hun (List.mem_append_left _ (hin ▸ hq'))
      (List.mem_singleton.mp hc)

/-- The workers run their next call. -/
theorem Queued.run {c : RemoteCall} {cs : List RemoteCall} (hq : Queued e w)
    (hp : w.pending e.block_manager = c :: cs) :
    Queued e { w.run_call model e.block_size c with executed := w.executed + 1 } ∧
      Workers.pending { w.run_call model e.block_size c with executed := w.executed + 1 }
        e.block_manager = cs := by
  have hpending : e.block_manager.remote_calls.drop (w.executed + 1) = cs := by
    rw [← List.tail_drop]
    exact congrArg List.tail hp
  have hmem : c ∈ e.block_manager.remote_calls :=
    List.mem_of_mem_drop (i := w.executed) (by rw [← Workers.pending, hp]; exact List.mem_cons_self)
  have hlt : w.executed < e.block_manager.remote_calls.length := by
    have := congrArg List.length hp
    rw [Workers.pending, List.length_drop, List.length_cons] at this
    omega
  obtain ⟨ran, hran, hlen⟩ := hq.order
  rw [hp] at hran
  refine ⟨⟨hlt, hq.plain, ?_⟩, hpending⟩
  rcases hq.plain c hmem with hstep | hinert
  · rw [List.filter_cons_of_pos hstep] at hran
    refine ⟨ran ++ [c], ?_, ?_⟩
    · rw [hran, Workers.pending, hpending, List.append_assoc]
      rfl
    · rw [List.length_append, List.length_singleton, hlen]
      exact (Workers.results_of_isStep hstep).symm
  · rw [List.filter_cons_of_neg (by rw [RemoteCall.not_isStep_of_inert hinert]; simp)] at hran
    refine ⟨ran, ?_, ?_⟩
    · rw [hran, Workers.pending, hpending]
    · rw [hlen, Workers.run_call_of_inert hinert]

/-- The calls that wait do not touch the blocks of a request that is handed over. -/
theorem Queued.agrees (hs : Sound e) (hq : Queued e w) {q : Request}
    (hun : q ∈ e.scheduler.unaccepted_queue) {b : Nat}
    (hb : b ∈ e.block_manager.tableOf q.request_id) :
    (w.after model e.block_size (w.pending e.block_manager)).memory.gpu b = w.memory.gpu b := by
  have hsteps : ∀ c ∈ w.pending e.block_manager, c.isStep = true →
      ∃ rs ∈ e.sent_batches, e.block_manager.stepCall rs = c := by
    intro c hc hstep
    obtain ⟨ran, hran, -⟩ := hq.order
    have : c ∈ e.sent_batches.map e.block_manager.stepCall := by
      rw [hran]
      exact List.mem_append_right _ (List.mem_filter.mpr ⟨hc, hstep⟩)
    exact List.mem_map.mp this
  have hplain : ∀ c ∈ w.pending e.block_manager, c.isStep = true ∨ c.inert = true :=
    fun c hc => hq.plain c (List.mem_of_mem_drop hc)
  generalize w.pending e.block_manager = cs at hsteps hplain
  clear hq
  unfold Workers.after
  induction cs generalizing w with
  | nil => rfl
  | cons c cs ih =>
    rw [List.foldl_cons, ih (fun c' hc' => hsteps c' (List.mem_cons_of_mem _ hc'))
      fun c' hc' => hplain c' (List.mem_cons_of_mem _ hc')]
    rcases hplain c List.mem_cons_self with hstep | hinert
    · obtain ⟨rs, hrs, rfl⟩ := hsteps c List.mem_cons_self hstep
      change (forward model e.block_size w.memory.gpu (sentRequests _ _ _)).1 b = _
      rw [sentRequests_stepCall]
      refine forward_of_notMem fun x hx hbx => ?_
      obtain ⟨r, hr, rfl⟩ := List.mem_map.mp hx
      have hin := mem_in_flight_of_sent hrs hr
      have hne := hs.in_flight_ne hin hun
      have hr' := hs.accounts.owned_gpu (List.mem_map_of_mem (List.mem_append_left _ hin))
      have hq' := hs.accounts.owned_gpu (List.mem_map_of_mem (List.mem_append_right _ hun))
      refine hs.accounts.partitioned.held_disjoint .GPU hne (b := b) ?_ ?_
      · rwa [heldAt_self hr']
      · rwa [heldAt_self hq']
    · rw [Workers.run_call_of_inert hinert]

/-! ## Every action -/

/-- The workers follow the engine: the calls that wait will give them what it counts on. -/
structure Follows (model : Model TokenId κ) (e : ContextStageLLMEngine) (w : Workers κ) :
    Prop where
  queued : Queued e w
  computes : Computes model e (w.after model e.block_size (w.pending e.block_manager))

theorem Follows.of_after (h : Follows model e w) (hq : Queued e' w)
    (hsize : e'.block_size = e.block_size)
    (hc : ComputesAfter model e e' (w.after model e.block_size (w.pending e.block_manager))) :
    Follows model e' w := by
  obtain ⟨calls, hcalls, hc⟩ := hc
  refine ⟨hq, ?_⟩
  rw [hsize, pending_append h.queued.executed_le hcalls, Workers.after_append]
  exact hc

/-- A part of an action that takes no result. -/
theorem Part.follows {first : ContextStageLLMEngine} {a : Action}
    (h : Part decode a first e cs e') (ha : ∀ ids, a ≠ .batch_returns ids)
    (hf : Follows model e w) : Follows model e' w := by
  have hsize : e'.block_size = e.block_size :=
    congrArg (fun config => config.2.1.block_size) h.config
  cases h with
  | pushes hs hp h =>
    exact hf.of_after (h.queued hs (h.sound hs hp) hf.queued) hsize (h.computes hs hf.computes)
  | checks hs h => exact hf.of_after (h.queued hf.queued) hsize (h.computes hf.computes)
  | takes hs hp hb h => exact absurd rfl (ha _)
  | adds hs hnew ht hfin =>
    exact ⟨⟨hf.queued.executed_le, hf.queued.plain, hf.queued.order⟩,
      hf.computes.working, hf.computes.handing, hf.computes.results⟩
  | gets hs hb =>
    exact ⟨⟨hf.queued.executed_le, hf.queued.plain, hf.queued.order⟩,
      hf.computes.working, hf.computes.handing, hf.computes.results⟩
  | clears hs hun h =>
    exact hf.of_after (h.queued hs hun hf.queued) hsize (h.computes hs hun hf.computes)

/-- A batch comes back. Its result is the answer of the model. -/
theorem Follows.take {batch : BatchedRequests} {rest : List BatchedRequests}
    {ids : List TokenId} {results : List (List TokenId)} (hs : Sound e) (hs' : Sound e')
    (hp : e.point = .awaiting) (hb : e.batches_in_pipeline = batch :: rest)
    (h : Took e (BatchedRequests.growAll batch.requests (decode.decode_tokens ids) ids) e')
    (hf : Follows model e w) (hr : w.results = ids :: results) :
    ids = answersOf model batch.requests ∧ Follows model e' { w with results } := by
  obtain ⟨more, hmore, htake⟩ := Workers.after_take model e.block_size hr
    (w.pending e.block_manager)
  refine ⟨hf.computes.result hs hp hb hmore, ?_⟩
  obtain ⟨calls, hcalls, hc⟩ := h.computes hs hs' hp hb hf.computes hmore
  refine ⟨h.queued hs hs' hp hb hr hf.queued, ?_⟩
  have hpending : Workers.pending { w with results } e'.block_manager =
      w.pending e.block_manager ++ calls := pending_append hf.queued.executed_le hcalls
  have hsize : e'.block_size = e.block_size := by
    unfold block_size
    rw [h.cache_config]
  rw [hsize, hpending, Workers.after_append, htake]
  exact hc

/-- The tokens of the requests stay those of the model. -/
theorem Part.written {first : ContextStageLLMEngine} {a : Action}
    (h : Part decode a first e cs e') (hans : ∀ ids, a = .batch_returns ids →
      ∀ batch ∈ first.batches_in_pipeline.head?, ids = answersOf model batch.requests)
    (hw : ∀ q ∈ e.resting ++ e.in_flight, q.WrittenBy model) :
    ∀ q ∈ e'.resting ++ e'.in_flight, q.WrittenBy model := by
  intro q hq
  cases h with
  | pushes hs hp h =>
    apply hw q
    rw [h.resting]
    rw [h.in_flight] at hq
    simp only [List.mem_append] at hq ⊢
    tauto
  | checks hs h =>
    apply hw q
    rw [resting, h.scheduler, h.bridge, h.finished, h.in_flight] at hq
    exact hq
  | @takes _ _ batch rest ids hs hp hb h =>
    obtain rfl : ids = answersOf model batch.requests := hans ids rfl batch (by rw [hb]; rfl)
    have hin : e.in_flight = batch.requests ++ e'.in_flight := by
      unfold in_flight
      rw [hb, h.pipeline, hb]
      rfl
    rw [hin] at hw
    rw [List.mem_append, h.resting.mem_iff, List.mem_append] at hq
    rcases hq with (hq | hq) | hq
    · exact hw q (List.mem_append_left _ hq)
    · exact written_of_grown (fun r hr => hw r (by simp [hr])) hq
    · exact hw q (by simp [hq])
  | @adds _ request hs hnew ht hf =>
    simp only [resting, add_request, ContextStageFCFSScheduler.add_request, in_flight,
      List.mem_append, List.mem_singleton] at hq hw
    by_cases hreq : q = request
    · rw [hreq]
      exact Request.writtenBy_fresh ht
    · exact hw q (by tauto)
  | gets hs hb =>
    apply hw q
    unfold resting at hq ⊢
    rw [hb]
    simp only [in_flight, List.map_cons, List.mem_append, List.mem_cons] at hq ⊢
    tauto
  | clears hs hun h =>
    rw [h.same] at hq
    exact hw q hq

/-- The workers run their next call. -/
theorem Follows.run {c : RemoteCall} {calls : List RemoteCall} (hf : Follows model e w)
    (hp : w.pending e.block_manager = c :: calls) :
    Follows model e { w.run_call model e.block_size c with executed := w.executed + 1 } := by
  obtain ⟨hq, hpending⟩ := hf.queued.run hp
  refine ⟨hq, ?_⟩
  have hc := hf.computes
  rw [hp] at hc
  rw [hpending, Workers.after_executed]
  exact ⟨hc.working, hc.handing, hc.results⟩

end ContextStageLLMEngine

end distserve
