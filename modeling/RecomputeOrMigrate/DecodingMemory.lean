-- The memory of the decoding engine: what `get_next_batch` returns fits the GPU, and
-- no call fails but a swap-out that finds too few CPU blocks.
import RecomputeOrMigrate.DecodingRun

open calls runs

namespace distserve.DecodingStageLLMEngine

open BlockManager DecodingStageFCFSScheduler

section Runs

variable (parallel_config : ParallelConfig) (cache_config : CacheConfig)
  (max_batch_size max_tokens_per_batch : Nat) (waiting_block_prop_threshold : ℚ)
  (num_gpu_blocks num_cpu_blocks : Nat) (decode : Tokenizer)

/-- In every state of every run, a call that raises is a swap-out at the begin of a step
that finds too few CPU blocks. The batch that `get_next_batch` returns keeps its limits,
all requests fit the GPU with it, and its blocks are allocated and on the GPU. -/
theorem only_a_swap_out_can_fail (e : DecodingStageLLMEngine)
    (h : Reaches (step decode) (create parallel_config cache_config max_batch_size
      max_tokens_per_batch waiting_block_prop_threshold num_gpu_blocks num_cpu_blocks) e) :
    (∀ a err, step decode e a = some (.error err) → (∃ now, a = .begin_step now) ∧
      e.scheduler.get_next_batch = .error err ∧ CpuShortage err) ∧
    (e.point = .idle → Gives e.scheduler.get_next_batch (fun s =>
      (s.batched.map fun q => cache_config.blocks_for (q.get_input_len + q.get_output_len)).sum +
        (s.waiting_queue.map fun q => cache_config.blocks_for q.get_input_len).sum ≤
          num_gpu_blocks ∧
      (s.batch s.cur).requests.length ≤ max_batch_size ∧
      (s.batch s.cur).get_num_input_tokens ≤ max_tokens_per_batch ∧
      ∃ m, allocate_blocks_batched (s.batch s.cur).requests s.block_manager = .ok () m ∧
        is_all_requests_on_gpu (s.batch s.cur).requests m = .ok true m) CpuShortage) := by
  obtain ⟨hs, hc⟩ := reached_sound h
  simp only [config, block_manager, Prod.mk.injEq] at hc
  obtain ⟨hpc, hcc, hsize, htokens, hgpu⟩ := hc
  refine ⟨?_, fun hp => ?_⟩
  · intro a err ha
    exact (act_gives hs (withoutOutput_eq_error.mp ha)).of_error rfl
  · have hk := hs.kept
    rw [show e.migrating = [] by simp [migrating, hp]] at hk
    refine (get_next_batch_gives hk).imp ?_ fun _ => id
    rintro s ⟨hk', ho, hr⟩
    obtain ⟨rs, hsame⟩ := hr.same
    have hcc' : s.block_manager.cache_config = cache_config := hr.cache_config.trans hcc
    have hgpu' : s.block_manager.max_num_gpu_blocks = num_gpu_blocks :=
      (max_num_gpu_blocks_congr hr.max_num_blocks).trans hgpu
    have hcur : s.cur < s.batch_queues.length := by
      have := e.scheduler.next_index_lt
      rw [hr.cur, hk'.shaped, hsame]
      exact this
    have hlimits : s.max_batch_size = max_batch_size ∧
        s.max_tokens_per_batch = max_tokens_per_batch := by
      rw [hsame]
      exact ⟨hsize, htokens⟩
    obtain ⟨m, he, hon_gpu, -⟩ := batch_allocates hk' ho hcur
    refine ⟨?_, ?_, ?_, m, he, hon_gpu⟩
    · unfold overcommitted needed_by_waiting at ho
      rw [needed_by_batches_eq hk'.shaped, hgpu'] at ho
      unfold needed get_block_needed at ho
      rw [hcc'] at ho
      exact Nat.not_lt.mp ho
    · exact (hk'.limits s.cur).1.trans hlimits.1.le
    · rw [num_input_tokens_eq fun q hq => hk'.growing q (by simp [mem_batched_of_mem hq])]
      exact (hk'.limits s.cur).2.trans hlimits.2.le

end Runs

/-- One request got its second token, and the batch fits again with it. -/
theorem the_batch_of_one_request_fits : ∃ e : DecodingStageLLMEngine,
    (e.point = .idle ∧ e.scheduler.needed_by_batches = 3) ∧
      Gives e.scheduler.get_next_batch (fun s =>
        (s.batched.map fun q => CacheConfig.blocks_for ⟨2, by decide⟩
          (q.get_input_len + q.get_output_len)).sum +
          (s.waiting_queue.map fun q => CacheConfig.blocks_for ⟨2, by decide⟩
            q.get_input_len).sum ≤ 4 ∧
        (s.batch s.cur).requests.length ≤ 8 ∧ (s.batch s.cur).get_num_input_tokens ≤ 8 ∧
        ∃ m, allocate_blocks_batched (s.batch s.cur).requests s.block_manager = .ok () m ∧
          is_all_requests_on_gpu (s.batch s.cur).requests m = .ok true m) CpuShortage := by
  obtain ⟨e, hr, he⟩ := reaches_of_any (m := step fun _ => none)
    (s := create ⟨1, 1, by decide, by decide⟩ ⟨2, by decide⟩ 8 8 1 4 4)
    [.add_request (firstToken 0), .begin_step 0, .wake, .migration_ends, .begin_step 1,
      .batch_returns [5]]
    (fun e => decide (e.point = .idle ∧ e.scheduler.needed_by_batches = 3))
    (by decide +kernel)
  have he := of_decide_eq_true he
  exact ⟨e, he, (only_a_swap_out_can_fail _ _ _ _ _ _ _ _ e hr).2 he.1⟩

end distserve.DecodingStageLLMEngine
