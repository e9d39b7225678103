-- The block accounts of the context stage: the counter of the scheduler, its
-- unaccepted queue and the block manager always agree, so no allocation fails.
import RecomputeOrMigrate.ContextRun

open calls runs

namespace distserve.ContextStageLLMEngine

open BlockManager

section Runs

variable (parallel_config : ParallelConfig) (cache_config : CacheConfig)
  (max_batch_size max_tokens_per_batch num_gpu_blocks : Nat) (decode : Tokenizer)

/-- In every state of every run, each request in the pipeline or in the unaccepted
queue owns just the GPU blocks of its prompt, no other request owns a block, and the
counter of the scheduler is the sum over the pipeline. So no call raises, and all
blocks come back when the last request has left. -/
theorem context_blocks_are_accounted_for (e : ContextStageLLMEngine)
    (h : Reaches (step decode) (create parallel_config cache_config max_batch_size
      max_tokens_per_batch num_gpu_blocks) e) :
    e.scheduler.num_on_fly_request_block =
        (e.in_flight.map fun q => cache_config.blocks_for q.get_input_len).sum ∧
      (∀ q ∈ e.in_flight ++ e.scheduler.unaccepted_queue, ∃ table,
        e.block_manager.owned q.request_id = some (.GPU, table) ∧
        table.length = cache_config.blocks_for q.get_input_len) ∧
      (∀ r ∉ e.owners, e.block_manager.owned r = none) ∧
      ((e.in_flight ++ e.scheduler.unaccepted_queue).map fun q =>
        cache_config.blocks_for q.get_input_len).sum ≤ num_gpu_blocks ∧
      (∀ a err, step decode e a ≠ some (.error err)) ∧
      (e.in_flight = [] → e.scheduler.unaccepted_queue = [] →
        e.scheduler.num_on_fly_request_block = 0 ∧
        e.block_manager.get_num_avail_blocks .GPU = num_gpu_blocks) := by
  obtain ⟨hs, hc⟩ := (@step_sound decode
    (fun e => e.config = (parallel_config, cache_config, num_gpu_blocks))
    fun _ _ _ _ _ he hp => hp.config.trans he).invariant ⟨sound_create _ _ _ _ _, rfl⟩ h
  obtain ⟨-, hcc, hg⟩ : _ ∧ _ ∧ _ := by simpa [config] using hc
  have hblocks : ∀ rs : List Request, e.scheduler.blocks_of rs =
      (rs.map fun q => cache_config.blocks_for q.get_input_len).sum := fun rs => by
    rw [← hcc]; rfl
  have hsum := hs.accounts.avail_gpu
  rw [hs.allocated_sum, ← ContextStageFCFSScheduler.blocks_of_append, hg] at hsum
  refine ⟨by rw [hs.counter, hblocks], ?_, ?_, ?_, ?_, ?_⟩
  · intro q hq
    refine ⟨_, hs.accounts.owned_gpu (List.mem_map_of_mem hq), ?_⟩
    rw [← allocated_eq, hs.sizes q hq, ← hcc]
    rfl
  · exact fun r hr => hs.accounts.owned_none hr (by simp)
  · rw [← hblocks]
    omega
  · exact fun a err ha => (act_gives hs (withoutOutput_eq_error.mp ha)).of_error rfl
  · intro h1 h2
    rw [h1, h2] at hsum
    refine ⟨by rw [hs.counter, h1]; rfl, ?_⟩
    have : e.scheduler.blocks_of ([] ++ []) = 0 := rfl
    omega

end Runs

/-- Two requests, one of them in the pipeline and one handed over. -/
theorem two_requests_are_accounted_for : ∃ e : ContextStageLLMEngine,
    (e.in_flight.map (·.request_id) = [1] ∧
      e.scheduler.unaccepted_queue.map (·.request_id) = [0]) ∧
      e.scheduler.num_on_fly_request_block = (e.in_flight.map fun q =>
        CacheConfig.blocks_for ⟨2, by decide⟩ q.get_input_len).sum := by
  obtain ⟨e, hr, he⟩ := reaches_of_any (m := step fun _ => none)
    (s := create ⟨1, 1, by decide, by decide⟩ ⟨2, by decide⟩ 1 8 4)
    [.add_request (Request.create 0 [1, 2, 3] ⟨[], false, 2, by decide⟩),
      .add_request (Request.create 1 [1, 2, 3] ⟨[], false, 2, by decide⟩),
      .begin_step 0, .batch_returns [4], .begin_step 1]
    (fun e => decide (e.in_flight.map (·.request_id) = [1] ∧
      e.scheduler.unaccepted_queue.map (·.request_id) = [0]))
    (by decide +kernel)
  exact ⟨e, of_decide_eq_true he, (context_blocks_are_accounted_for _ _ _ _ _ _ e hr).1⟩

end distserve.ContextStageLLMEngine
