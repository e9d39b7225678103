-- Admission in the decoding scheduler. With empty batches, the head of the waiting queue
-- gets in when its prompt fits the GPU a second time: `_check_add_to_cur_batch` counts
-- the waiting queue, where the candidate still stands, and then the candidate.
import RecomputeOrMigrate.DecodingRun

open calls runs

namespace distserve

namespace DecodingStageFCFSScheduler

variable {s : DecodingStageFCFSScheduler} {head : Request} {rest : List Request}

/-- The scheduler after the head of the waiting queue went to the current batch. -/
def headTaken (s : DecodingStageFCFSScheduler) (head : Request) (rest : List Request) :
    DecodingStageFCFSScheduler :=
  s.rearranged ((s.batch s.cur).requests ++ [head]) s.swapped_queue rest s.block_manager

theorem batch_headTaken (hcur : s.cur < s.batch_queues.length) (head : Request)
    (rest : List Request) : ((s.headTaken head rest).batch (s.headTaken head rest).cur).requests =
      (s.batch s.cur).requests ++ [head] :=
  congrArg BatchedRequests.requests (batch_rearranged_self hcur)

theorem headTaken_lt (hcur : s.cur < s.batch_queues.length) (head : Request)
    (rest : List Request) :
    (s.headTaken head rest).cur < (s.headTaken head rest).batch_queues.length :=
  hcur.trans_eq (List.length_set).symm

/-- One turn of the loop, when no request is swapped out and none is there twice. -/
theorem admit_loop_waiting (turns : Nat) (hswapped : s.swapped_queue = [])
    (hw : s.waiting_queue = head :: rest)
    (hnodup : (((s.batch s.cur).requests ++ s.waiting_queue).map (·.request_id)).Nodup) :
    admit_loop (turns + 1) s = if s.check_add_to_cur_batch head then
      admit_loop turns (s.headTaken head rest) else .ok s := by
  have hadd : (s.batch s.cur).add_request head =
      .ok { s.batch s.cur with requests := (s.batch s.cur).requests ++ [head] } := by
    unfold BatchedRequests.add_request
    apply if_neg
    intro hc
    rw [hw, List.map_append, List.nodup_append'] at hnodup
    exact List.disjoint_left.mp hnodup.2.2 hc (by simp)
  rw [admit_loop, hswapped, hw]
  dsimp only
  rw [ok_bind hadd]
  rfl

/-- Without swapped requests, the loop only adds waiting requests to the batch. A request
that is in the batch stays there. -/
theorem admit_loop_keeps_batch (turns : Nat) (s : DecodingStageFCFSScheduler)
    (hcur : s.cur < s.batch_queues.length) (hswapped : s.swapped_queue = [])
    (hnodup : (((s.batch s.cur).requests ++ s.waiting_queue).map (·.request_id)).Nodup) :
    Gives (admit_loop turns s)
      (fun s' => (s.batch s.cur).requests ⊆ (s'.batch s'.cur).requests) fun _ => False := by
  induction turns generalizing s with
  | zero => exact List.Subset.refl _
  | succ turns ih =>
    cases hw : s.waiting_queue with
    | nil =>
      unfold admit_loop
      rw [hswapped, hw]
      exact List.Subset.refl _
    | cons head rest =>
      rw [admit_loop_waiting turns hswapped hw hnodup]
      have hbatch := batch_headTaken hcur head rest
      split
      · refine (ih (s.headTaken head rest) (headTaken_lt hcur head rest) hswapped ?_).imp ?_
          fun _ => id
        · rw [hbatch]
          rw [hw] at hnodup
          simpa [headTaken, rearranged] using hnodup
        · intro s' hs'
          rw [hbatch] at hs'
          exact List.Subset.trans (List.subset_append_left _ _) hs'
      · exact List.Subset.refl _

theorem batch_of_empty (hempty : s.batched = []) (i : Nat) : (s.batch i).requests = [] := by
  apply List.eq_nil_iff_forall_not_mem.mpr
  intro q hq
  have := mem_batched_of_mem hq
  simp [hempty] at this

/-- With empty batches, the test for the head of the waiting queue is one on blocks. -/
theorem check_head (hempty : s.batched = []) (hshaped : s.Shaped)
    (hgrowing : 1 ≤ head.get_output_len) (hsize : 1 ≤ s.max_batch_size)
    (htokens : 1 ≤ s.max_tokens_per_batch) :
    s.check_add_to_cur_batch head = true ↔
      s.needed_by_waiting + s.needed head ≤ s.block_manager.max_num_gpu_blocks := by
  have hbatch := batch_of_empty hempty s.cur
  have hone := Request.one_input_token (r := head) (by omega)
  unfold check_add_to_cur_batch BatchedRequests.get_num_input_tokens
  rw [needed_by_batches_eq hshaped, hempty, hbatch, hone]
  simp only [List.length_nil, List.map_nil, List.sum_nil, Bool.and_eq_true, decide_eq_true_eq]
  omega

/-- With empty batches, nothing is swapped out, and the first turn of the second loop tests
the head of the waiting queue. -/
theorem get_next_batch_of_empty (hempty : s.batched = []) (hswapped : s.swapped_queue = [])
    (hw : s.waiting_queue = head :: rest) (hshaped : s.Shaped)
    (hnodup : (s.waiting_queue.map (·.request_id)).Nodup)
    (hfits : s.needed_by_waiting ≤ s.block_manager.max_num_gpu_blocks) :
    s.get_next_batch = if s.turned.check_add_to_cur_batch head then
      admit_loop rest.length (s.turned.headTaken head rest) else .ok s.turned := by
  have hbatch := batch_of_empty (s := s.turned) hempty s.turned.cur
  have hnot : ¬ s.turned.overcommitted := by
    have hsum := needed_by_batches_eq (s := s.turned) hshaped
    rw [show s.turned.batched = [] from hempty] at hsum
    unfold overcommitted
    rw [hsum, List.map_nil, List.sum_nil, Nat.zero_add]
    exact Nat.not_lt.mpr hfits
  have hout : swap_out_loop (s.turned.batch s.turned.cur).requests.length s.turned =
      .ok s.turned := by
    rw [hbatch]
    exact if_neg hnot
  have hin := admit_loop_waiting (s := s.turned) rest.length hswapped hw
    (by rw [hbatch]; exact hnodup)
  rw [← hin]
  unfold get_next_batch
  apply (ok_bind hout).trans
  rw [show s.turned.swapped_queue = [] from hswapped, show s.turned.waiting_queue = _ from hw,
    List.length_nil, List.length_cons, Nat.zero_add]

/-- With empty batches, the head of the waiting queue gets into the batch just when all
prompts and the head fit together. -/
theorem get_next_batch_takes_head_iff (hempty : s.batched = []) (hswapped : s.swapped_queue = [])
    (hw : s.waiting_queue = head :: rest) (hshaped : s.Shaped)
    (hnodup : (s.waiting_queue.map (·.request_id)).Nodup) (hgrowing : 1 ≤ head.get_output_len)
    (hsize : 1 ≤ s.max_batch_size) (htokens : 1 ≤ s.max_tokens_per_batch)
    (hfits : s.needed_by_waiting ≤ s.block_manager.max_num_gpu_blocks) :
    (∃ s', s.get_next_batch = .ok s' ∧ head ∈ (s'.batch s'.cur).requests) ↔
      s.needed_by_waiting + s.needed head ≤ s.block_manager.max_num_gpu_blocks := by
  have hcur := turned_lt hshaped
  have hbatch := batch_of_empty (s := s.turned) hempty s.turned.cur
  have hcheck := check_head (s := s.turned) hempty hshaped hgrowing hsize htokens
  rw [get_next_batch_of_empty hempty hswapped hw hshaped hnodup hfits]
  change s.turned.check_add_to_cur_batch head = true ↔
    s.needed_by_waiting + s.needed head ≤ s.block_manager.max_num_gpu_blocks at hcheck
  rw [← hcheck]
  constructor
  · rintro ⟨s', hs', hmem⟩
    by_contra hno
    rw [if_neg hno] at hs'
    cases hs'
    rw [hbatch] at hmem
    simp at hmem
  · intro hyes
    rw [if_pos hyes]
    have hkeep := admit_loop_keeps_batch rest.length (s.turned.headTaken head rest)
      (headTaken_lt hcur head rest) hswapped (by
        rw [batch_headTaken hcur, hbatch]
        rw [hw] at hnodup
        simpa [headTaken, rearranged] using hnodup)
    cases he : admit_loop rest.length (s.turned.headTaken head rest) with
    | error err => exact (hkeep.of_error he).elim
    | ok s' =>
      refine ⟨s', rfl, hkeep.of_ok he ?_⟩
      rw [batch_headTaken hcur]
      simp

end DecodingStageFCFSScheduler

namespace DecodingStageLLMEngine

open DecodingStageFCFSScheduler

/-- With empty batches and no swapped request, `get_next_batch` puts the head of the waiting
queue into the batch just when the prompt of the head fits the GPU once more, beside the
head with its tokens and the prompts of the others. -/
theorem the_head_gets_in_iff_its_prompt_fits_twice (parallel_config : ParallelConfig)
    (cache_config : CacheConfig) (max_batch_size max_tokens_per_batch : Nat)
    (waiting_block_prop_threshold : ℚ) (num_gpu_blocks num_cpu_blocks : Nat) (decode : Tokenizer)
    (e : DecodingStageLLMEngine) (h : Reaches (step decode) (create parallel_config cache_config
      max_batch_size max_tokens_per_batch waiting_block_prop_threshold num_gpu_blocks
      num_cpu_blocks) e) (hsize : 1 ≤ max_batch_size) (htokens : 1 ≤ max_tokens_per_batch)
    (hempty : ∀ b ∈ e.scheduler.batch_queues, b.requests = [])
    (hswapped : e.scheduler.swapped_queue = []) (head : Request) (rest : List Request)
    (hwaiting : e.scheduler.waiting_queue = head :: rest)
    (hfits : cache_config.blocks_for (head.get_input_len + head.get_output_len) +
      (rest.map fun q => cache_config.blocks_for q.get_input_len).sum ≤ num_gpu_blocks) :
    (∃ s, e.scheduler.get_next_batch = .ok s ∧ head ∈ (s.batch s.cur).requests) ↔
      cache_config.blocks_for head.get_input_len +
        cache_config.blocks_for (head.get_input_len + head.get_output_len) +
          (rest.map fun q => cache_config.blocks_for q.get_input_len).sum ≤ num_gpu_blocks := by
  obtain ⟨hs, hc⟩ := reached_sound h
  simp only [config, block_manager, Prod.mk.injEq] at hc
  obtain ⟨-, hcc, hsz, htk, hgpu⟩ := hc
  have hbatched : e.scheduler.batched = [] := List.flatMap_eq_nil_iff.mpr hempty
  have hnodup : (e.scheduler.waiting_queue.map (·.request_id)).Nodup := by
    have hnd := hs.nodup
    rw [present_eq, List.append_assoc e.scheduler.waiting_queue] at hnd
    have hrest := (List.nodup_append.mp hnd).2.1
    rw [List.map_append] at hrest
    exact (List.nodup_append.mp hrest).1
  have hgrowing := hs.kept.growing head (by simp [hwaiting])
  have hsum : e.scheduler.needed_by_waiting = cache_config.blocks_for head.get_input_len +
      (rest.map fun q => cache_config.blocks_for q.get_input_len).sum := by
    unfold needed_by_waiting get_block_needed
    rw [hwaiting, hcc, List.map_cons, List.sum_cons]
  have hneed : e.scheduler.needed head =
      cache_config.blocks_for (head.get_input_len + head.get_output_len) := by
    unfold needed get_block_needed
    rw [hcc]
  have hle := blocks_for_le cache_config (Nat.le_add_right head.get_input_len head.get_output_len)
  rw [get_next_batch_takes_head_iff hbatched hswapped hwaiting hs.kept.shaped hnodup hgrowing.2
    (hsz ▸ hsize) (htk ▸ htokens) (by rw [hsum, hgpu]; omega), hsum, hneed, hgpu]
  omega

/-- A prompt of two blocks on a GPU of four. -/
theorem a_short_head_gets_in : ∃ e : DecodingStageLLMEngine,
    (e.scheduler.waiting_queue = [(firstToken 0).req] ∧ e.scheduler.swapped_queue = [] ∧
      ∀ b ∈ e.scheduler.batch_queues, b.requests = []) ∧
    ((∃ s, e.scheduler.get_next_batch = .ok s ∧
      (firstToken 0).req ∈ (s.batch s.cur).requests) ↔ 2 + 2 + 0 ≤ 4) := by
  obtain ⟨e, hr, he⟩ := reaches_of_any (m := step fun _ => none)
    (s := create ⟨1, 1, by decide, by decide⟩ ⟨2, by decide⟩ 8 8 1 4 4)
    [.add_request (firstToken 0), .begin_step 0, .wake, .migration_ends]
    (fun e => decide (e.scheduler.waiting_queue = [(firstToken 0).req] ∧
      e.scheduler.swapped_queue = [] ∧ ∀ b ∈ e.scheduler.batch_queues, b.requests = []))
    (by decide +kernel)
  have he := of_decide_eq_true he
  exact ⟨e, he, the_head_gets_in_iff_its_prompt_fits_twice _ _ _ _ _ _ _ _ e hr (by decide)
    (by decide) he.2.2 he.2.1 _ [] he.1 (by decide)⟩

/-- On a GPU of three blocks the same request is accepted and fits, but the batch that
comes next is empty: its two prompt blocks count twice. -/
theorem a_request_that_fits_never_starts : ∃ e : DecodingStageLLMEngine,
    Reaches (step fun _ => none)
      (create ⟨1, 1, by decide, by decide⟩ ⟨2, by decide⟩ 8 8 1 3 4) e ∧
    e.scheduler.waiting_queue = [(firstToken 0).req] ∧ e.scheduler.swapped_queue = [] ∧
    (∀ b ∈ e.scheduler.batch_queues, b.requests = []) ∧
    CacheConfig.blocks_for ⟨2, by decide⟩ ((firstToken 0).req.get_input_len +
      (firstToken 0).req.get_output_len) ≤ 3 ∧
    ¬ ∃ s, e.scheduler.get_next_batch = .ok s ∧
      (firstToken 0).req ∈ (s.batch s.cur).requests := by
  obtain ⟨e, hr, he⟩ := reaches_of_any (m := step fun _ => none)
    (s := create ⟨1, 1, by decide, by decide⟩ ⟨2, by decide⟩ 8 8 1 3 4)
    [.add_request (firstToken 0), .begin_step 0, .wake, .migration_ends]
    (fun e => decide (e.scheduler.waiting_queue = [(firstToken 0).req] ∧
      e.scheduler.swapped_queue = [] ∧ ∀ b ∈ e.scheduler.batch_queues, b.requests = []) &&
      e.scheduler.get_next_batch.toOption.any fun s => (s.batch s.cur).requests.isEmpty)
    (by decide +kernel)
  obtain ⟨hq, hnext⟩ := Bool.and_eq_true_iff.mp he
  obtain ⟨hw, hs, hb⟩ := of_decide_eq_true hq
  refine ⟨e, hr, hw, hs, hb, by decide, ?_⟩
  rintro ⟨s, hok, hmem⟩
  rw [hok] at hnext
  have hnil : (s.batch s.cur).requests = [] := List.isEmpty_iff.mp hnext
  rw [hnil] at hmem
  simp at hmem

end DecodingStageLLMEngine

end distserve
