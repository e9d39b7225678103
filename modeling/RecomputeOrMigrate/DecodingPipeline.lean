-- The pipeline of the decoding engine: the engine keeps a queue of batches, and the
-- scheduler keeps a rotating index. Both agree which batch comes back next, and
-- nothing touches a batch while it is with the workers.
import RecomputeOrMigrate.DecodingRun

open calls runs rotation

namespace distserve.DecodingStageLLMEngine

open BlockManager DecodingStageFCFSScheduler

/-! ## A batch in flight -/

/-- What the batch `i` of `e` can see of `e'`: it is the same batch, its requests own
the same blocks, and it is still in flight unless it is empty. -/
structure Untouched (e : DecodingStageLLMEngine) (i : Nat) (e' : DecodingStageLLMEngine) :
    Prop where
  batch : e'.scheduler.batch i = e.scheduler.batch i
  owned : ∀ q ∈ (e.scheduler.batch i).requests,
    e'.block_manager.owned q.request_id = e.block_manager.owned q.request_id
  in_flight : (e.scheduler.batch i).requests ≠ [] → i ∈ e'.batches_in_pipeline

variable {e e' first : DecodingStageLLMEngine} {decode : Tokenizer} {a : Action}
  {cs : List Callback} {i : Nat}

theorem Core.batched_nodup (h : Core e) : (e.scheduler.batched.map (·.request_id)).Nodup := by
  have := h.nodup
  rw [present_eq] at this
  simp only [List.map_append] at this
  exact this.of_append_right.of_append_left.of_append_right

/-- Rescheduling and allocating for one batch leaves the blocks of the others alone. -/
theorem Pushed.owned_ne {now : Nat} {s' : DecodingStageFCFSScheduler} {m : BlockManager}
    (hs : Sound e) (h : Pushed e now s' m e') (hi : i ≠ s'.cur) {q : Request}
    (hq : q ∈ (e.scheduler.batch i).requests) :
    e'.block_manager.owned q.request_id = e.block_manager.owned q.request_id := by
  have hcur := h.schedules.cur
  -- the request is not one of those that change their place
  have hout : q.request_id ∉ ((e.scheduler.turned.batch e.scheduler.turned.cur).requests ++
      e.scheduler.turned.swapped_queue ++ e.scheduler.turned.waiting_queue).map
        (·.request_id) := by
    have hnd := hs.nodup
    rw [present_eq] at hnd
    simp only [List.map_append] at hnd
    have hnd := hnd.of_append_right
    have hqb : q.request_id ∈ e.scheduler.batched.map (·.request_id) :=
      List.mem_map_of_mem (mem_batched_of_mem hq)
    intro hc
    simp only [List.map_append, List.mem_append] at hc
    rcases hc with (hc | hc) | hc
    · obtain ⟨r, hr, hid⟩ := List.mem_map.mp hc
      exact batch_disjoint hs.batched_nodup (fun hc => hi (hc.trans hcur.symm)) hq hr hid.symm
    · exact List.disjoint_left.mp (List.nodup_append'.mp hnd).2.2
        (List.mem_append_right _ hqb) hc
    · exact List.disjoint_left.mp (List.nodup_append'.mp hnd.of_append_left).2.2 hc hqb
  have hout' : q.request_id ∉ (s'.batch s'.cur).requests.map (·.request_id) := by
    intro hc
    have hperm := (h.schedules.perm.map (·.request_id)).mem_iff (a := q.request_id)
    rw [← hcur] at hperm hout
    apply hout (hperm.mp _)
    simp only [List.map_append, List.mem_append]
    exact Or.inl (Or.inl hc)
  unfold block_manager
  rw [h.scheduler]
  apply (congrFun (owned_sendStep _) _).trans
  rw [h.allocated.others _ hout', h.schedules.owned _ hout]
  rfl

/-- No part of an action touches a batch in flight, but the return of its own result. -/
theorem Part.untouched (h : Part decode a first e cs e') (hi : i ∈ first.batches_in_pipeline)
    (hret : ∀ ids, a = .batch_returns ids → first.batches_in_pipeline.head? ≠ some i)
    (hu : Untouched first i e) : Untouched first i e' := by
  cases h with
  | pushes hs hp h =>
    rename_i s' m
    have hne : i ≠ s'.cur := by
      rintro rfl
      exact h.cur_notMem hs hp hi
    exact ⟨h.batch_ne hs.toCore hne, fun q hq => h.owned_ne hs hne hq,
      fun _ => by rw [h.pipeline]; exact List.mem_append_left _ hi⟩
  | checks _ _ h _ =>
    refine ⟨?_, ?_, fun hne => ?_⟩
    · rw [h.same]
      exact hu.batch
    · rw [h.same]
      exact hu.owned
    · rcases h.pipeline with hpipe | ⟨j, hpipe, hempty⟩
      · rw [hpipe]
        exact hu.in_flight hne
      · have := hu.in_flight hne
        rw [hpipe] at this
        apply (List.mem_cons.mp this).resolve_left
        rintro rfl
        rw [hu.batch] at hempty
        exact hne hempty
  | takes hs hp h =>
    rename_i j m ids
    have hne : i ≠ j := fun hc => hret ids rfl (by rw [h.head, hc]; rfl)
    refine ⟨?_, fun q hq => ?_, fun _ => ?_⟩
    · exact h.batch_ne hne
    · rw [h.same]
      apply h.freed.others _
      intro hc
      obtain ⟨r, hr, hid⟩ := List.mem_map.mp hc
      obtain ⟨r', hr', hr''⟩ := BatchedRequests.mem_growAll (List.mem_filter.mp hr).1
      refine batch_disjoint hs.batched_nodup hne hq hr' (hid.symm.trans ?_)
      rcases hr'' with rfl | ⟨t, tid, rfl⟩
      · rfl
      · exact Request.grow_request_id _ _ _
    · rw [h.head] at hi
      rw [h.same]
      exact (List.mem_cons.mp hi).resolve_left hne
  | accepts hs hp h =>
    rename_i mr m
    refine ⟨?_, fun q hq => ?_, fun hne => ?_⟩
    · rw [h.same]
      exact hu.batch
    · rw [← hu.owned q hq, h.same]
      refine h.allocated.others _ fun hc => h.new ?_
      have hid : q.request_id = mr.req.request_id := List.mem_singleton.mp hc
      rw [← hu.batch] at hq
      rw [← hid]
      exact List.mem_map_of_mem (by simp [mem_batched_of_mem hq])
    · rw [h.same]
      exact hu.in_flight hne
  | ends hs hp => exact ⟨rfl, fun _ _ => rfl, fun _ => hi⟩
  | adds hs hnew hh => exact ⟨rfl, fun _ _ => rfl, fun _ => hi⟩

/-! ## Every run -/

section Runs

variable (parallel_config : ParallelConfig) (cache_config : CacheConfig)
  (max_batch_size max_tokens_per_batch : Nat) (waiting_block_prop_threshold : ℚ)
  (num_gpu_blocks num_cpu_blocks : Nat) (decode : Tokenizer)

/-- In every state of every run, a full pipeline begins with the batch of the last stage,
also within a step. No batch is in the pipeline twice. A batch never starts twice and
never ends without a start. A result grows the batch at the head of the pipeline, and
just its finished requests leave. No other action touches a batch in flight. -/
theorem the_pipeline_agrees_with_the_scheduler (e : DecodingStageLLMEngine)
    (h : Reaches (step decode) (create parallel_config cache_config max_batch_size
      max_tokens_per_batch waiting_block_prop_threshold num_gpu_blocks num_cpu_blocks) e) :
    (e.batches_in_pipeline.length = parallel_config.pipeline_parallel_size →
      e.batches_in_pipeline.head? = some e.scheduler.last_stage_index) ∧
    (e.point = .idle → ∀ now e' cs, e.push_next_batch now = .ok (e', cs) →
      e'.batches_in_pipeline.Nodup ∧
      (e'.batches_in_pipeline.length = parallel_config.pipeline_parallel_size →
        e'.batches_in_pipeline.head? = some e'.scheduler.last_stage_index)) ∧
    e.batches_in_pipeline.Nodup ∧
    (∀ a, step decode e a ≠ some (.error .already_started) ∧
      step decode e a ≠ some (.error .not_started)) ∧
    (e.point = .awaiting → ∀ ids, ∃ i rest b e' cs, e.batches_in_pipeline = i :: rest ∧
      (e.scheduler.batch i).finish_one_iteration (decode.decode_tokens ids) ids = .ok b ∧
      e.take_result decode ids = .ok (e', cs) ∧
      e'.finished_requests = e.finished_requests ++ b.requests.filter (·.is_finished) ∧
      e'.scheduler.batch i = ⟨b.requests.filter (fun q => !q.is_finished), none⟩ ∧
      ∀ j, j ≠ i → e'.scheduler.batch j = e.scheduler.batch j) ∧
    (∀ a e', step decode e a = some (.ok e') → ∀ i ∈ e.batches_in_pipeline,
      (∀ ids, a = .batch_returns ids → e.batches_in_pipeline.head? ≠ some i) →
      Untouched e i e') := by
  obtain ⟨hs, hc⟩ := reached_sound h
  have hpc : e.parallel_config = parallel_config := congrArg Prod.fst hc
  have hhead : ∀ {e : DecodingStageLLMEngine}, Core e → e.parallel_config = parallel_config →
      e.batches_in_pipeline.length = parallel_config.pipeline_parallel_size →
        e.batches_in_pipeline.head? = some e.scheduler.last_stage_index := by
    intro e hs hpc hfull
    rw [hs.head_eq (hpc ▸ hfull)]
    rfl
  have hnodup : ∀ {e : DecodingStageLLMEngine}, Core e → e.batches_in_pipeline.Nodup := by
    intro e hs
    rw [hs.phase]
    exact passed_nodup e.parallel_config.pipeline_parallel_size_pos hs.room
  refine ⟨hhead hs.toCore hpc, ?_, hnodup hs.toCore, ?_, ?_, ?_⟩
  · intro hp now e' cs he
    obtain ⟨s', m, (hpush : Pushed e now s' m e'), -⟩ :=
      (push_next_batch_gives hs hp now).of_ok he
    have hcore := hpush.core hs hp
    refine ⟨hnodup hcore, hhead hcore ?_⟩
    rw [hpush.same]
    exact hpc
  · intro a
    refine ⟨fun ha => ?_, fun ha => ?_⟩
    all_goals
      obtain ⟨-, -, m, q, -, -, herr⟩ :=
        (act_gives hs (withoutOutput_eq_error.mp ha)).of_error rfl
      cases herr
  · intro hp ids
    obtain ⟨e', i, m, he, ht⟩ := take_result_cases hs hp decode ids
    refine ⟨i, _, _, e', _, ht.head, ht.finish, he, ?_, ?_, ?_⟩
    · rw [ht.same]
      rfl
    · exact ht.batch_self hs
    · intro j hj
      exact ht.batch_ne hj
  · intro a e' ha i hi hret
    obtain ⟨cs, hcs⟩ := withoutOutput_eq_ok.mp ha
    have hdoes := ((act_gives hs hcs).of_ok rfl).2
    exact hdoes.invariant (fun _ _ _ hu hp => hp.untouched hi hret hu)
      ⟨rfl, fun _ _ => rfl, fun _ => hi⟩

end Runs

/-- Two stages, and an empty batch behind the batch of the only request. -/
theorem the_request_is_ahead_of_an_empty_batch : ∃ e : DecodingStageLLMEngine,
    (e.batches_in_pipeline = [1, 0] ∧ (e.scheduler.batch 1).requests.length = 1) ∧
      e.batches_in_pipeline.head? = some e.scheduler.last_stage_index := by
  obtain ⟨e, hr, he⟩ := reaches_of_any (m := step fun _ => none)
    (s := create ⟨1, 2, by decide, by decide⟩ ⟨2, by decide⟩ 8 8 1 4 4)
    [.add_request (firstToken 0), .begin_step 0, .wake, .migration_ends, .begin_step 1,
      .begin_step 2]
    (fun e => decide (e.batches_in_pipeline = [1, 0] ∧
      (e.scheduler.batch 1).requests.length = 1)) (by decide +kernel)
  have he := of_decide_eq_true he
  exact ⟨e, he, (the_pipeline_agrees_with_the_scheduler _ _ _ _ _ _ _ _ e hr).1 (by simp [he.1])⟩

end distserve.DecodingStageLLMEngine
