-- What an action of the decoding engine does. Each action is a few parts, and the
-- invariant holds between them, so a law of every part is a law of every run.
import RecomputeOrMigrate.DecodingInvariant

open calls runs rotation

namespace distserve.DecodingStageLLMEngine

open BlockManager DecodingStageFCFSScheduler

/-! ## The result of a batch -/

/-- The callbacks of a batch, whose requests are `grown` now. -/
def result_outputs (grown : List Request) (tokens : List String) (ids : List TokenId) :
    List Callback :=
  (step_outputs grown tokens ids).flatMap fun step_output =>
    .engine_on_new_step_output step_output.request_id step_output ::
      if step_output.is_finished then
        [Callback.engine_on_new_lifetime_event step_output.request_id .DecodingEnd false]
      else []

/-- The engine after the batch `i` came back with the requests `grown`, and the block
manager freed the finished ones. -/
def took (e : DecodingStageLLMEngine) (i : Nat) (grown : List Request) (m : BlockManager) :
    DecodingStageLLMEngine :=
  let finished_reqs := grown.filter (·.is_finished)
  { e with
    scheduler :=
      { e.scheduler.setBatch i ⟨grown.filter fun q => !q.is_finished, none⟩ with
        block_manager :=
          m.remote_call_all_workers_async (.clear_request_resource_batched finished_reqs) }
    batches_in_pipeline := e.batches_in_pipeline.tail
    batches_ret_futures := e.batches_ret_futures.tail
    worker_request_ids := e.worker_request_ids.map fun (worker, ids) =>
      (worker, ids \ (finished_reqs.map (·.request_id)).toFinset)
    finished_requests := e.finished_requests ++ finished_reqs
    point := .idle }

/-- What the result of the earliest batch does. -/
structure Took (e : DecodingStageLLMEngine) (i : Nat) (tokens : List String) (ids : List TokenId)
    (m : BlockManager) (e' : DecodingStageLLMEngine) : Prop where
  head : e.batches_in_pipeline = i :: e.batches_in_pipeline.tail
  last_stage : i = e.scheduler.last_stage_index
  finish : (e.scheduler.batch i).finish_one_iteration tokens ids =
    .ok ⟨BatchedRequests.growAll (e.scheduler.batch i).requests tokens ids, none⟩
  freed : Freed e.block_manager (((BatchedRequests.growAll (e.scheduler.batch i).requests tokens
    ids).filter (·.is_finished)).map (·.request_id)) m
  accounts : Accounts m ((e.scheduler.waiting_queue ++ e'.scheduler.batched).map (·.request_id))
    (e.scheduler.swapped_queue.map (·.request_id))
  same : e' = e.took i (BatchedRequests.growAll (e.scheduler.batch i).requests tokens ids) m

/-- The batch at the head of a full pipeline is the one of the last stage. -/
theorem Core.head_eq {e : DecodingStageLLMEngine} (h : Core e)
    (hfull : e.batches_in_pipeline.length = e.parallel_config.pipeline_parallel_size) :
    e.batches_in_pipeline = e.scheduler.last_stage_index :: e.batches_in_pipeline.tail := by
  have hphase := h.phase
  have hhead := head_of_full (c := e.scheduler.cur_index)
    e.parallel_config.pipeline_parallel_size_pos
  rw [hfull] at hphase
  rw [← hphase, ← h.parallel_config] at hhead
  exact (List.cons_head?_tail hhead).symm

/-- The finished requests of a batch that comes back leave it, and no other ones do. -/
theorem batched_ids_of_grown {s : DecodingStageFCFSScheduler} {i : Nat}
    (hi : i < s.batch_queues.length) (ts : List String) (is : List TokenId) :
    (s.batched.map (·.request_id)).Perm
      (((BatchedRequests.growAll (s.batch i).requests ts is).filter (·.is_finished)).map
        (·.request_id) ++ (s.setBatch i ⟨(BatchedRequests.growAll (s.batch i).requests ts
          is).filter fun q => !q.is_finished, none⟩).batched.map (·.request_id)) := by
  have hset := (batched_setBatch hi ⟨(BatchedRequests.growAll (s.batch i).requests ts is).filter
    fun q => !q.is_finished, none⟩).map (·.request_id)
  have hids := BatchedRequests.ids_of_grown (s.batch i).requests ts is
  apply List.perm_iff_count.mpr
  intro r
  have hset := hset.count_eq r
  have hids := hids.count_eq r
  simp only [List.map_append, List.count_append] at hset hids ⊢
  omega

theorem take_result_cases {e : DecodingStageLLMEngine} (h : Sound e) (hp : e.point = .awaiting)
    (decode : Tokenizer) (ids : List TokenId) :
    ∃ e' i m, e.take_result decode ids = .ok (e', result_outputs
        (BatchedRequests.growAll (e.scheduler.batch i).requests (decode.decode_tokens ids) ids)
        (decode.decode_tokens ids) ids) ∧
      Took e i (decode.decode_tokens ids) ids m e' := by
  have hat := h.at_point
  simp only [AtPoint, hp] at hat
  obtain ⟨hfull, c, futures, hf⟩ := hat
  have hhead := h.head_eq hfull
  have hfs := h.futures
  set i := e.scheduler.last_stage_index with hi
  rw [hhead, hf] at hfs
  obtain ⟨hne, hst, -⟩ : FutureOf (e.scheduler.batch i) (some c) := by
    cases hfs with
    | cons hif _ => exact hif
  set ts := decode.decode_tokens ids
  set grown := BatchedRequests.growAll (e.scheduler.batch i).requests ts ids with hgrown
  have hk := h.kept
  rw [show e.migrating = [] by simp [migrating, hp]] at hk
  have hilt : i < e.scheduler.batch_queues.length := by
    rw [hk.shaped]
    exact e.scheduler.next_index_lt
  have hfinish : (e.scheduler.batch i).finish_one_iteration ts ids = .ok ⟨grown, none⟩ := by
    unfold BatchedRequests.finish_one_iteration
    rw [if_neg hst, BatchedRequests.add_generated_tokens_eq]
    · rfl
    · intro q hq
      have := (hk.growing q (by simp [mem_batched_of_mem hq])).1.2
      omega
  have hset : ((e.scheduler.setBatch i ⟨grown, none⟩).pop_finished_requests) =
      (grown.filter (·.is_finished),
        e.scheduler.setBatch i ⟨grown.filter fun q => !q.is_finished, none⟩) := by
    unfold pop_finished_requests
    have hlast : (e.scheduler.setBatch i ⟨grown, none⟩).last_stage_index = i := rfl
    rw [hlast, batch_setBatch_self hilt]
    simp [BatchedRequests.pop_finished_requests, setBatch]
  have hperm : ((e.scheduler.waiting_queue ++ e.scheduler.batched).map (·.request_id)).Perm
      ((grown.filter (·.is_finished)).map (·.request_id) ++ (e.scheduler.waiting_queue ++
        (e.scheduler.setBatch i ⟨grown.filter fun q => !q.is_finished, none⟩).batched).map
          (·.request_id)) := by
    apply List.perm_iff_count.mpr
    intro r
    have hbatched := (batched_ids_of_grown hilt ts ids).count_eq r
    rw [← hgrown] at hbatched
    simp only [List.map_append, List.count_append] at hbatched ⊢
    omega
  obtain ⟨m, he, hacc, hfreed⟩ := Accounts.free_batched _
    (hk.accounts.perm hperm (List.Perm.refl _))
  refine ⟨e.took i grown m, i, m, ?_, hhead, rfl, hfinish, hfreed, hacc, rfl⟩
  unfold take_result
  rw [hhead]
  apply (ok_bind hfinish).trans
  simp only [hset]
  apply (ok_bind (run_eq_ok.mpr he)).trans
  rfl

section Took

variable {e e' : DecodingStageLLMEngine} {i : Nat} {tokens : List String} {ids : List TokenId}
  {m : BlockManager}

/-- A request that grew in a batch still grows when it is not finished. -/
theorem growing_of_grown {rs : List Request} (h : ∀ r ∈ rs, Growing r) {q : Request}
    (hq : q ∈ (BatchedRequests.growAll rs tokens ids).filter fun q => !q.is_finished) :
    Growing q ∧ ∃ r ∈ rs, r.request_id = q.request_id ∧ r.get_input_len = q.get_input_len ∧
      r.get_output_len ≤ q.get_output_len := by
  rw [List.mem_filter, Bool.not_eq_true'] at hq
  obtain ⟨r, hr, rfl | ⟨t, tid, rfl⟩⟩ := BatchedRequests.mem_growAll hq.1
  · exact ⟨h q hr, q, hr, rfl, rfl, Nat.le_refl _⟩
  · refine ⟨⟨Request.grow_may_grow (h r hr).1 t tid hq.2, ?_⟩, r, hr, by simp, by simp, by simp⟩
    simp

theorem Took.lt (h : Sound e) (ht : Took e i tokens ids m e') :
    i < e.scheduler.batch_queues.length := by
  rw [h.kept.shaped, ht.last_stage]
  exact e.scheduler.next_index_lt

theorem Took.batch_ne (ht : Took e i tokens ids m e') {j : Nat} (hj : j ≠ i) :
    e'.scheduler.batch j = e.scheduler.batch j := by
  rw [ht.same]
  exact batch_setBatch_ne e.scheduler hj.symm _

theorem Took.batch_self (h : Sound e) (ht : Took e i tokens ids m e') :
    e'.scheduler.batch i = ⟨(BatchedRequests.growAll (e.scheduler.batch i).requests tokens
      ids).filter fun q => !q.is_finished, none⟩ := by
  rw [ht.same]
  exact batch_setBatch_self (ht.lt h) _

theorem Took.waiting_queue (ht : Took e i tokens ids m e') :
    e'.scheduler.waiting_queue = e.scheduler.waiting_queue := by
  rw [ht.same]
  rfl

theorem Took.swapped_queue (ht : Took e i tokens ids m e') :
    e'.scheduler.swapped_queue = e.scheduler.swapped_queue := by
  rw [ht.same]
  rfl

/-- A request that stays keeps its blocks. -/
theorem Took.allocated (h : Sound e) (ht : Took e i tokens ids m e') {r : RequestId}
    (hr : r ∈ (e'.scheduler.waiting_queue ++ e'.scheduler.batched ++
      e'.scheduler.swapped_queue).map (·.request_id)) :
    m.get_allocated_num_blocks r = e.scheduler.block_manager.get_allocated_num_blocks r := by
  apply allocated_congr h.kept.accounts.same_keys ht.accounts.same_keys
  apply ht.freed.others
  intro hc
  rw [ht.waiting_queue, ht.swapped_queue, List.map_append, List.mem_append] at hr
  have hgone := ht.freed.gone r hc
  rcases hr with hr | hr
  · rw [ht.accounts.owned_gpu hr] at hgone
    cases hgone
  · rw [ht.accounts.owned_cpu hr] at hgone
    cases hgone

theorem Took.kept (h : Sound e) (hp : e.point = .awaiting) (ht : Took e i tokens ids m e') :
    Kept [] i e'.scheduler := by
  have hk := h.kept
  rw [show e.migrating = [] by simp [migrating, hp], ← ht.last_stage] at hk
  set unfinished := (BatchedRequests.growAll (e.scheduler.batch i).requests tokens ids).filter
    fun q => !q.is_finished with hun
  have hsched : e'.scheduler = { e.scheduler.setBatch i ⟨unfinished, none⟩ with
      block_manager := e'.scheduler.block_manager } := by
    rw [ht.same]
    rfl
  have hblock : e'.scheduler.block_manager = m.remote_call_all_workers_async
      (.clear_request_resource_batched ((BatchedRequests.growAll (e.scheduler.batch i).requests
        tokens ids).filter (·.is_finished))) := by
    rw [ht.same]
    rfl
  have hman : e'.scheduler.block_manager.get_allocated_num_blocks =
      m.get_allocated_num_blocks := by
    rw [hblock]
    rfl
  have hcc : e'.scheduler.block_manager.cache_config = e.scheduler.block_manager.cache_config := by
    rw [hblock]
    exact ht.freed.cache_config
  have hneed : ∀ q, e'.scheduler.needed q = e.scheduler.needed q := needed_congr_manager hcc
  have hbatch' : (e'.scheduler.batch i).requests = unfinished :=
    congrArg BatchedRequests.requests (ht.batch_self h)
  have hwaiting := ht.waiting_queue
  have hswapped := ht.swapped_queue
  have hgrown : ∀ q ∈ unfinished, _ := fun q hq =>
    growing_of_grown (fun r hr => hk.growing r (by simp [mem_batched_of_mem hr])) hq
  refine ⟨?_, ?_, ?_, ?_, ?_, ?_, ?_, ?_⟩
  · rw [hsched]
    exact (List.length_set).trans hk.shaped
  · rw [hblock, hwaiting, hswapped]
    exact ht.accounts.remote _
  · intro q hq
    rw [hman, ht.allocated h (List.mem_map_of_mem (by simp only [List.mem_append] at hq ⊢; tauto))]
    rw [hwaiting] at hq
    rw [hk.waiting_sizes q hq]
    exact (congrArg (CacheConfig.blocks_for · q.get_input_len) hcc).symm
  · intro q hq
    rw [hman, hneed, ht.allocated h (List.mem_map_of_mem (by simp [hq]))]
    obtain ⟨j, -, hqj⟩ := mem_batched.mp hq
    by_cases hj : j = i
    · subst hj
      rw [hbatch'] at hqj
      obtain ⟨-, r, hr, hid, hin, hout⟩ := hgrown q hqj
      rw [← hid]
      refine (hk.batch_sizes r (mem_batched_of_mem hr)).trans (blocks_for_le _ ?_)
      omega
    · rw [ht.batch_ne hj] at hqj
      exact hk.batch_sizes q (mem_batched_of_mem hqj)
  · intro j hj q hq
    rw [hman, hneed, ht.allocated h (List.mem_map_of_mem (by simp [mem_batched_of_mem hq]))]
    rw [ht.batch_ne hj] at hq
    exact hk.grown_sizes j hj q hq
  · intro q hq
    rw [hman, hneed, ht.allocated h (List.mem_map_of_mem (by simp [hq]))]
    rw [hswapped] at hq
    exact hk.swapped_sizes q hq
  · intro q hq
    rw [hwaiting, hswapped] at hq
    simp only [List.mem_append, mem_batched] at hq
    rcases hq with ((hq | hq) | ⟨j, -, hq⟩) | hq
    · simp at hq
    · exact hk.growing q (by simp [hq])
    · by_cases hj : j = i
      · subst hj
        rw [hbatch'] at hq
        exact (hgrown q hq).1
      · rw [ht.batch_ne hj] at hq
        exact hk.growing q (by simp [mem_batched_of_mem hq])
    · exact hk.growing q (by simp [hq])
  · intro j
    have hlim := hk.limits j
    have hmax : e'.scheduler.max_batch_size = e.scheduler.max_batch_size ∧
      e'.scheduler.max_tokens_per_batch = e.scheduler.max_tokens_per_batch := by
      rw [hsched]
      exact ⟨rfl, rfl⟩
    rw [hmax.1, hmax.2]
    by_cases hj : j = i
    · subst hj
      rw [hbatch']
      have hle := List.length_filter_le (fun q : Request => !q.is_finished)
        (BatchedRequests.growAll (e.scheduler.batch j).requests tokens ids)
      rw [BatchedRequests.length_growAll] at hle
      exact ⟨hle.trans hlim.1, hle.trans hlim.2⟩
    · rw [ht.batch_ne hj]
      exact hlim

/-- The finished requests of the batch leave the engine, and no other ones do. -/
theorem Took.perm (h : Sound e) (hp : e.point = .awaiting) (ht : Took e i tokens ids m e') :
    (e'.present ++ ((BatchedRequests.growAll (e.scheduler.batch i).requests tokens ids).filter
      (·.is_finished)).map (·.request_id)).Perm e.present := by
  have hbatched := batched_ids_of_grown (ht.lt h) tokens ids
  have hmig : e.in_migration = [] := by simp [in_migration, hp]
  have hpresent : e'.present =
      e.scheduler.unaccepted_queue.map (·.req.request_id) ++
      (e.scheduler.waiting_queue ++ (e.scheduler.setBatch i ⟨(BatchedRequests.growAll
        (e.scheduler.batch i).requests tokens ids).filter fun q => !q.is_finished, none⟩).batched ++
      e.scheduler.swapped_queue).map (·.request_id) := by
    rw [present_eq, ht.same]
    exact congrArg (List.map _ · ++ _) (List.append_nil e.scheduler.unaccepted_queue)
  rw [hpresent, present_eq, hmig, List.append_nil]
  apply List.perm_iff_count.mpr
  intro r
  have hbatched := hbatched.count_eq r
  simp only [List.map_append, List.count_append] at hbatched ⊢
  omega

theorem Took.sound (h : Sound e) (hp : e.point = .awaiting) (ht : Took e i tokens ids m e') :
    Sound e' := by
  have hfull : e.batches_in_pipeline.length = e.parallel_config.pipeline_parallel_size := by
    have := h.at_point
    simp only [AtPoint, hp] at this
    exact this.1
  have hrest := ht.head
  have hphase := h.phase
  have hnd := passed_nodup (c := e.scheduler.cur_index)
    e.parallel_config.pipeline_parallel_size_pos h.room
  rw [← h.phase, hrest, List.nodup_cons] at hnd
  have hpipe : e'.batches_in_pipeline = e.batches_in_pipeline.tail := by rw [ht.same]; rfl
  have hpc : e'.parallel_config = e.parallel_config := by rw [ht.same]; rfl
  have hin : e'.in_migration = [] := by rw [ht.same]; rfl
  have hlen : e'.batches_in_pipeline.length < e'.parallel_config.pipeline_parallel_size := by
    rw [hpipe, hpc, ← hfull, hrest]
    exact Nat.lt_succ_self _
  refine ⟨⟨?_, ?_, (ht.perm h hp).nodup_iff.mpr h.nodup |>.of_append_left, ?_, ?_, hlen.le, ?_, ?_⟩,
    ?_⟩
  · have hlast : e'.scheduler.last_stage_index = i := by
      rw [ht.last_stage, ht.same]
      rfl
    rw [migrating_eq, hin, hlast]
    exact ht.kept h hp
  · rw [ht.same]
    exact h.parallel_config
  · have hcc : e'.block_manager.cache_config = e.block_manager.cache_config := by
      rw [ht.same]
      exact ht.freed.cache_config
    rw [hin, hcc, ht.same, List.append_nil]
    exact fun mr hmr => h.handed mr (List.mem_append_left _ hmr)
  · rw [hrest] at hphase
    have := rest_eq_passed hphase
    rw [← hpipe] at this
    rw [hpc]
    apply this.trans
    rw [ht.same]
    rfl
  · have hfs := h.futures
    have hfut : e'.batches_ret_futures = e.batches_ret_futures.tail := by rw [ht.same]; rfl
    rw [hpipe, hfut]
    rw [hrest] at hfs
    obtain ⟨f, futures, -, hfs, hf⟩ := List.forall₂_cons_left_iff.mp hfs
    rw [hf, List.tail_cons]
    refine futures_congr hfs fun j hj => ht.batch_ne ?_
    rintro rfl
    exact hnd.1 hj
  · intro j hj
    by_cases hji : j = i
    · have hnone : (e'.scheduler.batch i).start_time = none :=
        congrArg BatchedRequests.start_time (ht.batch_self h)
      rw [hji] at hj
      exact absurd hnone hj
    · rw [ht.batch_ne hji] at hj
      have := h.started j hj
      rw [hrest] at this
      rw [hpipe]
      exact (List.mem_cons.mp this).resolve_left hji
  · have hpoint : e'.point = .idle := by rw [ht.same]; rfl
    simp only [AtPoint, hpoint]
    exact hlen

end Took

/-! ## The requests from the bridge queue -/

/-- The engine after it accepted the first request of the unaccepted queue, and the
block manager allocated its blocks. -/
def accepted (e : DecodingStageLLMEngine) (mr : MigratingRequest) (m : BlockManager) :
    DecodingStageLLMEngine :=
  { e with
    scheduler := { e.scheduler with
      unaccepted_queue := e.scheduler.unaccepted_queue.tail
      block_manager := m.remote_call_all_workers_async (.migrate_blocks mr.block_indexes
        mr.context_parallel_config (m.tableOf mr.req.request_id)) }
    point := .migrating mr }

/-- What a turn of `post_process` does that accepts a request. -/
structure Accepted (e : DecodingStageLLMEngine) (mr : MigratingRequest) (m : BlockManager)
    (e' : DecodingStageLLMEngine) : Prop where
  head : e.scheduler.unaccepted_queue = mr :: e.scheduler.unaccepted_queue.tail
  new : mr.req.request_id ∉
    (e.scheduler.waiting_queue ++ e.scheduler.batched ++ e.scheduler.swapped_queue).map
      (·.request_id)
  allocated : Allocated e.block_manager [mr.req.without_generated_tokens] m
  accounts : Accounts m ((mr.req :: (e.scheduler.waiting_queue ++ e.scheduler.batched)).map
    (·.request_id)) (e.scheduler.swapped_queue.map (·.request_id))
  size : m.get_allocated_num_blocks mr.req.request_id =
    e.scheduler.get_block_needed mr.req.get_input_len
  same : e' = e.accepted mr m

theorem post_process_cases {e : DecodingStageLLMEngine} (h : Sound e) (hp : e.point = .idle) :
    e.post_process = .ok (e, []) ∨ ∃ mr m e', Accepted e mr m e' ∧ e.post_process = .ok (e',
      [.engine_on_new_lifetime_event mr.req.request_id .MigrationBegin false]) := by
  have hidle : ({ e with point := .idle } : DecodingStageLLMEngine) = e := by
    rw [← hp]
  unfold post_process
  split
  · exact Or.inl (by rw [hidle])
  · next mr rest hun =>
    split
    · next hacc =>
      simp only [should_accept, Bool.and_eq_true, decide_eq_true_eq] at hacc
      have hk := h.kept
      rw [show e.migrating = [] by simp [migrating, hp]] at hk
      have hnew : mr.req.request_id ∉ (e.scheduler.waiting_queue ++ e.scheduler.batched ++
          e.scheduler.swapped_queue).map (·.request_id) := by
        have hnd := h.nodup
        rw [present_eq, hun, List.cons_append, List.map_cons, List.cons_append,
          List.nodup_cons] at hnd
        exact fun hc => hnd.1 (List.mem_append_right _ hc)
      have hnew' := hnew
      rw [List.map_append, List.mem_append, not_or] at hnew'
      have hzero : e.block_manager.get_allocated_num_blocks mr.req.request_id = 0 :=
        hk.accounts.allocated_none hnew'.1 hnew'.2
      have hneed : e.block_manager.get_num_blocks_needed mr.req.without_generated_tokens =
          e.scheduler.get_block_needed mr.req.get_input_len := rfl
      obtain ⟨m, he, hacc', hal, -⟩ := hk.accounts.allocate mr.req.without_generated_tokens
        hnew'.2 ((Nat.sub_le _ _).trans hacc.2)
      replace hacc' : Accounts m ((mr.req :: (e.scheduler.waiting_queue ++
          e.scheduler.batched)).map (·.request_id)) (e.scheduler.swapped_queue.map
            (·.request_id)) := by
        split at hacc'
        · next hmem => exact absurd hmem hnew'.1
        · exact hacc'
      have hsize : m.get_allocated_num_blocks mr.req.request_id =
          e.scheduler.get_block_needed mr.req.get_input_len := by
        apply (hal.allocated _ (List.mem_singleton.mpr rfl)).trans
        apply (congrArg (max _) hzero).trans
        rw [Nat.max_zero]
        exact hneed
      have hblocks := (h.handed mr (by simp [hun])).blocks
      have htab : get_block_table mr.req.request_id m = .ok (m.tableOf mr.req.request_id) m :=
        get_block_table_eq ((hacc'.mem_table _).mpr (Or.inl List.mem_cons_self))
      refine Or.inr ⟨mr, m, e.accepted mr m, ⟨by rw [hun]; rfl, hnew, hal, hacc', hsize, rfl⟩, ?_⟩
      apply (ok_bind (run_eq_ok.mpr he)).trans
      apply (ok_bind (run_eq_ok.mpr htab)).trans
      refine (if_neg ?_).trans ?_
      · rw [not_not, ← allocated_eq, hsize]
        exact hblocks.symm
      · unfold accepted
        rw [hun]
        rfl
    · exact Or.inl (by rw [hidle])

section Accepted

variable {e e' : DecodingStageLLMEngine} {mr : MigratingRequest} {m : BlockManager}

theorem Accepted.in_migration_eq (ha : Accepted e mr m e') : e'.in_migration = [mr] := by
  rw [ha.same]
  rfl

theorem Accepted.batch (ha : Accepted e mr m e') (i : Nat) :
    e'.scheduler.batch i = e.scheduler.batch i := by
  rw [ha.same]
  rfl

theorem Accepted.queues (ha : Accepted e mr m e') :
    e'.scheduler.waiting_queue = e.scheduler.waiting_queue ∧
      e'.scheduler.batched = e.scheduler.batched ∧
      e'.scheduler.swapped_queue = e.scheduler.swapped_queue := by
  rw [ha.same]
  exact ⟨rfl, rfl, rfl⟩

theorem Accepted.cache_config (ha : Accepted e mr m e') :
    e'.scheduler.block_manager.cache_config = e.scheduler.block_manager.cache_config := by
  rw [ha.same]
  exact ha.allocated.cache_config

/-- The requests that were there keep their blocks. -/
theorem Accepted.keeps (h : Sound e) (ha : Accepted e mr m e') {q : Request}
    (hq : q ∈ e.scheduler.waiting_queue ++ e.scheduler.batched ++ e.scheduler.swapped_queue) :
    e'.scheduler.block_manager.get_allocated_num_blocks q.request_id =
      e.scheduler.block_manager.get_allocated_num_blocks q.request_id := by
  rw [ha.same]
  apply allocated_congr h.kept.accounts.same_keys ha.accounts.same_keys
  apply ha.allocated.others
  intro hc
  have hid : q.request_id = mr.req.request_id := List.mem_singleton.mp hc
  exact ha.new (hid ▸ List.mem_map_of_mem hq)

theorem Accepted.kept (h : Sound e) (hp : e.point = .idle) (ha : Accepted e mr m e') :
    Kept [mr.req] e'.scheduler.last_stage_index e'.scheduler := by
  have hk := h.kept
  rw [show e.migrating = [] by simp [migrating, hp]] at hk
  have hhand := h.handed mr (by rw [ha.head]; simp)
  have hneed : ∀ q, e'.scheduler.needed q = e.scheduler.needed q :=
    needed_congr_manager ha.cache_config
  have hblock : ∀ n, e'.scheduler.get_block_needed n = e.scheduler.get_block_needed n :=
    fun n => congrArg (CacheConfig.blocks_for · n) ha.cache_config
  have hsize : e'.scheduler.block_manager.get_allocated_num_blocks mr.req.request_id =
      e'.scheduler.get_block_needed mr.req.get_input_len := by
    rw [hblock, ← ha.size, ha.same]
    rfl
  obtain ⟨hw, hb, hsw⟩ := ha.queues
  refine ⟨?_, ?_, ?_, ?_, ?_, ?_, ?_, ?_⟩
  · rw [ha.same]
    exact hk.shaped
  · rw [hw, hb, hsw, ha.same]
    exact ha.accounts.remote _
  · intro q hq
    rw [hw] at hq
    rcases List.mem_cons.mp hq with rfl | hq
    · exact hsize
    · rw [ha.keeps h (by simpa using Or.inl hq), hblock]
      exact hk.waiting_sizes q hq
  · intro q hq
    rw [hb] at hq
    rw [ha.keeps h (by simp [hq]), hneed]
    exact hk.batch_sizes q hq
  · intro i hi q hq
    rw [ha.batch] at hq
    rw [ha.keeps h (by simp [mem_batched_of_mem hq]), hneed]
    refine hk.grown_sizes i (fun hc => hi (hc.trans ?_)) q hq
    rw [ha.same]
    rfl
  · intro q hq
    rw [hsw] at hq
    rw [ha.keeps h (by simp [hq]), hneed]
    exact hk.swapped_sizes q hq
  · intro q hq
    rw [hw, hb, hsw, List.append_assoc, List.append_assoc] at hq
    rcases List.mem_cons.mp hq with rfl | hq
    · refine ⟨⟨hhand.not_finished, ?_⟩, hhand.first_token.ge⟩
      rw [hhand.first_token]
      exact hhand.below_limit
    · exact hk.growing q (by simpa using hq)
  · intro i
    rw [ha.batch, ha.same]
    exact hk.limits i

theorem Accepted.sound (h : Sound e) (hp : e.point = .idle) (ha : Accepted e mr m e') :
    Sound e' := by
  have hmig := ha.in_migration_eq
  obtain ⟨hw, hb, hsw⟩ := ha.queues
  refine ⟨⟨?_, ?_, ?_, ?_, ?_, ?_, ?_, ?_⟩, ?_⟩
  · rw [migrating_eq, hmig]
    exact ha.kept h hp
  · rw [ha.same]
    exact h.parallel_config
  · have hnd := h.nodup
    rw [present_eq, ha.head, show e.in_migration = [] by simp [in_migration, hp],
      List.append_nil] at hnd
    rw [present_eq, hmig, hw, hb, hsw]
    have hun : e'.scheduler.unaccepted_queue = e.scheduler.unaccepted_queue.tail := by
      rw [ha.same]
      rfl
    rw [hun]
    refine (List.Perm.nodup_iff (List.Perm.append_right _ (List.Perm.map _ ?_))).mpr hnd
    exact List.perm_append_singleton _ _
  · intro mr' hmr'
    have hcc : e'.block_manager.cache_config = e.block_manager.cache_config := ha.cache_config
    rw [hcc]
    apply h.handed mr' (List.mem_append_left _ ?_)
    rw [hmig, ha.same] at hmr'
    rw [ha.head]
    exact List.mem_cons.mpr ((List.mem_append.mp hmr').symm.imp List.mem_singleton.mp id)
  · rw [ha.same]
    exact h.phase
  · rw [ha.same]
    exact h.room
  · rw [ha.same]
    exact futures_congr h.futures fun i _ => rfl
  · rw [ha.same]
    exact h.started
  · have := h.at_point
    rw [ha.same]
    simpa [AtPoint, hp, accepted] using this

end Accepted

/-- The migrated request waits, and the engine may begin the next step. -/
theorem end_migration_sound {e : DecodingStageLLMEngine} {mr : MigratingRequest} (h : Sound e)
    (hp : e.point = .migrating mr) : Sound (e.end_migration mr).1 := by
  have hk := h.kept
  have hmig : e.in_migration = [mr] := by simp [in_migration, hp]
  rw [migrating_eq, hmig, List.map_singleton] at hk
  have hperm : (mr.req :: e.scheduler.waiting_queue).Perm
      (e.scheduler.waiting_queue ++ [mr.req]) := (List.perm_append_singleton _ _).symm
  refine ⟨⟨⟨hk.shaped, ?_, ?_, hk.batch_sizes, hk.grown_sizes, hk.swapped_sizes, ?_, hk.limits⟩,
    h.parallel_config, ?_, ?_, h.phase, h.room, h.futures, h.started⟩, ?_⟩
  · exact hk.accounts.perm ((List.Perm.append_right _ hperm).map _) (List.Perm.refl _)
  · exact fun q hq => hk.waiting_sizes q (hperm.mem_iff.mpr hq)
  · intro q hq
    apply hk.growing q
    simp only [List.mem_append, List.append_assoc] at hq ⊢
    rcases hq with hq | hq | hq
    · simp [end_migration, migrating] at hq
    · have := hperm.mem_iff.mpr hq
      simp only [List.mem_cons] at this
      simp only [List.mem_singleton]
      tauto
    · exact Or.inr (Or.inr hq)
  · refine (List.Perm.nodup_iff ?_).mp h.nodup
    rw [present_eq, present_eq, hmig]
    apply List.perm_iff_count.mpr
    intro r
    simp only [end_migration, in_migration, batched, List.map_append, List.count_append,
      List.map_cons, List.map_nil, List.append_nil]
    omega
  · intro mr' hmr'
    refine h.handed mr' (List.mem_append_left _ ?_)
    simpa [end_migration, in_migration] using hmr'
  · have := h.at_point
    simp only [AtPoint, hp] at this
    exact this

theorem add_request_sound {e : DecodingStageLLMEngine} {mr : MigratingRequest} (h : Sound e)
    (hnew : mr.req.request_id ∉ e.present)
    (hhand : HandedOver e.block_manager.cache_config mr) :
    Sound { e with scheduler := e.scheduler.add_request mr } := by
  have hk := h.kept
  refine ⟨⟨⟨hk.shaped, hk.accounts, hk.waiting_sizes, hk.batch_sizes, hk.grown_sizes,
    hk.swapped_sizes, hk.growing, hk.limits⟩, h.parallel_config, ?_, ?_, h.phase, h.room, h.futures,
    h.started⟩, h.at_point⟩
  · have hnd := List.nodup_cons.mpr ⟨hnew, h.nodup⟩
    refine (List.Perm.nodup_iff ?_).mp hnd
    rw [present_eq, present_eq]
    apply List.perm_iff_count.mpr
    intro r
    simp only [DecodingStageFCFSScheduler.add_request, in_migration, batched, List.map_append,
      List.count_append, List.map_cons, List.map_nil, List.count_cons, List.count_nil]
    omega
  · intro mr' hmr'
    simp only [DecodingStageFCFSScheduler.add_request, List.mem_append, List.mem_singleton] at hmr'
    rcases hmr' with (hmr' | rfl) | hmr'
    · exact h.handed mr' (List.mem_append_left _ hmr')
    · exact hhand
    · exact h.handed mr' (List.mem_append_right _ hmr')

/-! ## What an action does -/

/-- One part of an action that began in the first state, with its callbacks. The parts
that only one action has are the first ones of it. -/
inductive Part (decode : Tokenizer) : Action → DecodingStageLLMEngine →
    DecodingStageLLMEngine → List Callback → DecodingStageLLMEngine → Prop
  | pushes {e e' : DecodingStageLLMEngine} {now : Nat} {s' : DecodingStageFCFSScheduler}
      {m : BlockManager} (sound : Sound e) (point : e.point = .idle) (h : Pushed e now s' m e') :
      Part decode (.begin_step now) e e ((s'.batch s'.cur).requests.map fun q =>
        .engine_on_new_lifetime_event q.request_id .DecodingBegin true) e'
  | checks {a : Action} {first e e' : DecodingStageLLMEngine} (core : Core e)
      (point : e.in_migration = []) (h : Checked e e') (sound : Sound e') :
      Part decode a first e [] e'
  | takes {e e' : DecodingStageLLMEngine} {i : Nat} {m : BlockManager} {ids : List TokenId}
      (sound : Sound e) (point : e.point = .awaiting)
      (h : Took e i (decode.decode_tokens ids) ids m e') :
      Part decode (.batch_returns ids) e e (result_outputs (BatchedRequests.growAll
        (e.scheduler.batch i).requests (decode.decode_tokens ids) ids) (decode.decode_tokens ids)
        ids) e'
  | accepts {a : Action} {first e e' : DecodingStageLLMEngine} {mr : MigratingRequest}
      {m : BlockManager} (sound : Sound e) (point : e.point = .idle) (h : Accepted e mr m e') :
      Part decode a first e
        [.engine_on_new_lifetime_event mr.req.request_id .MigrationBegin false] e'
  | ends {e : DecodingStageLLMEngine} {mr : MigratingRequest} (sound : Sound e)
      (point : e.point = .migrating mr) :
      Part decode .migration_ends e e (e.end_migration mr).2 (e.end_migration mr).1
  | adds {e : DecodingStageLLMEngine} {mr : MigratingRequest} (sound : Sound e)
      (new : mr.req.request_id ∉ e.present)
      (handed : HandedOver e.block_manager.cache_config mr) :
      Part decode (.add_request mr) e e [] { e with scheduler := e.scheduler.add_request mr }

/-- The parts of an action. -/
abbrev Does (decode : Tokenizer) (a : Action) (e : DecodingStageLLMEngine) :=
  Emits (Part decode a e) e

variable {e e1 first : DecodingStageLLMEngine} {decode : Tokenizer} {a : Action}
  {cs : List Callback}

theorem go_on_gives (hd : Does decode a e cs e1) (h : Sound e1) :
    Gives (e1.go_on cs) (fun r => Sound r.1 ∧ Does decode a e r.2 r.1) fun _ => False := by
  unfold go_on
  split
  · next hp =>
    rcases post_process_cases h hp with he | ⟨mr, m, e', ha, he⟩
    · refine gives_ok_bind he (gives_pure ⟨h, ?_⟩)
      rwa [List.append_nil]
    · exact gives_ok_bind he (gives_pure ⟨ha.sound h hp, hd.tail (.accepts h hp ha)⟩)
  · exact ⟨h, hd⟩

theorem begin_step_gives (h : Sound e) (hp : e.point = .idle) (now : Nat) :
    Gives (e.begin_step now) (fun r => Sound r.1 ∧ Does decode (.begin_step now) e r.2 r.1)
      (SwapOutFails e) := by
  unfold begin_step
  apply gives_bind (push_next_batch_gives h hp now)
  rintro ⟨e1, cs⟩ ⟨s', m, (hpush : Pushed e now s' m e1), (hcs : cs = _)⟩
  have hcore := hpush.core h hp
  have hd : Does decode (.begin_step now) e cs e1 := by
    rw [hcs]
    exact .single (.pushes h hp hpush)
  rcases hpush.point with hp1 | hp1
  · refine gives_congr (if_pos hp1) (gives_pure ⟨⟨hcore, ?_⟩, hd⟩)
    simp [AtPoint, hp1]
  · apply gives_congr (if_neg (by rw [hp1]; simp))
    have hin : e1.in_migration = [] := by simp [in_migration, hp1]
    obtain ⟨e2, he2, hs2, hc2⟩ := check_pipeline_cases hcore hin
    refine gives_ok_bind he2 ((go_on_gives ?_ hs2).imp (fun _ => id) fun _ => False.elim)
    have := hd.tail (.checks hcore hin hc2 hs2)
    rwa [List.append_nil] at this

/-- An action keeps the invariant, and all that it does is made of these parts. Only the
swap-outs at the begin of a step can raise. -/
theorem act_gives (h : Sound e)
    {x : Except PyError (DecodingStageLLMEngine × List Callback)} (hx : act decode e a = some x) :
    Gives x (fun r => Sound r.1 ∧ Does decode a e r.2 r.1)
      fun err => (∃ now, a = .begin_step now) ∧ SwapOutFails e err := by
  cases a with
  | add_request mr =>
    simp only [act] at hx
    split at hx
    · next hc =>
      cases hx
      exact ⟨add_request_sound h hc.1 hc.2, .single (.adds h hc.1 hc.2)⟩
    · cases hx
  | begin_step now =>
    simp only [act] at hx
    split at hx
    · next hp =>
      cases hx
      exact (begin_step_gives h hp now).imp (fun _ => id) fun _ => And.intro ⟨now, rfl⟩
    · cases hx
  | wake =>
    simp only [act] at hx
    split at hx
    · next hp =>
      cases hx
      have hin : e.in_migration = [] := by simp [in_migration, hp]
      obtain ⟨e1, he1, hs1, hc1⟩ := check_pipeline_cases h.toCore hin
      exact gives_ok_bind he1 ((go_on_gives (.single (.checks h.toCore hin hc1 hs1)) hs1).imp
        (fun _ => id) fun _ => False.elim)
    · cases hx
  | batch_returns ids =>
    simp only [act] at hx
    split at hx
    · next hp =>
      cases hx
      obtain ⟨e1, i, m, he1, ht⟩ := take_result_cases h hp decode ids
      exact gives_ok_bind he1 ((go_on_gives (.single (.takes h hp ht)) (ht.sound h hp)).imp
        (fun _ => id) fun _ => False.elim)
    · cases hx
  | migration_ends =>
    simp only [act] at hx
    split at hx
    · next mr hp =>
      cases hx
      exact (go_on_gives (.single (.ends h hp)) (end_migration_sound h hp)).imp
        (fun _ => id) fun _ => False.elim
    · cases hx

/-! ## Every run -/

/-- What no action changes: the parallel and cache configurations, the limits of a batch
and the number of GPU blocks. -/
def config (e : DecodingStageLLMEngine) : ParallelConfig × CacheConfig × Nat × Nat × Nat :=
  (e.parallel_config, e.block_manager.cache_config, e.scheduler.max_batch_size,
    e.scheduler.max_tokens_per_batch, e.block_manager.max_num_gpu_blocks)

theorem Part.config {e' : DecodingStageLLMEngine} (h : Part decode a first e cs e') :
    e'.config = e.config := by
  simp only [DecodingStageLLMEngine.config, block_manager, Prod.mk.injEq]
  cases h with
  | pushes hs hp h =>
    obtain ⟨rs, hr⟩ := h.schedules.same
    have hlimits : ∀ s' : DecodingStageFCFSScheduler, s' = e.scheduler.turned.rearranged rs
        s'.swapped_queue s'.waiting_queue s'.block_manager →
        s'.max_batch_size = e.scheduler.max_batch_size ∧
          s'.max_tokens_per_batch = e.scheduler.max_tokens_per_batch := fun s' hs' => by
      rw [hs']
      exact ⟨rfl, rfl⟩
    rw [h.same]
    refine ⟨rfl, ?_, (hlimits _ hr).1, (hlimits _ hr).2, ?_⟩
    · exact (cache_config_sendStep _).trans
        (h.allocated.cache_config.trans h.schedules.cache_config)
    · exact (max_num_gpu_blocks_sendStep _).trans (max_num_gpu_blocks_congr
        (h.allocated.max_num_blocks.trans h.schedules.max_num_blocks))
  | checks _ _ h _ =>
    rw [h.same]
    exact ⟨rfl, rfl, rfl, rfl, rfl⟩
  | takes hs hp h =>
    rw [h.same]
    exact ⟨rfl, h.freed.cache_config, rfl, rfl, max_num_gpu_blocks_congr h.freed.max_num_blocks⟩
  | accepts hs hp h =>
    rw [h.same]
    exact ⟨rfl, h.allocated.cache_config, rfl, rfl,
      max_num_gpu_blocks_congr h.allocated.max_num_blocks⟩
  | ends hs hp => exact ⟨rfl, rfl, rfl, rfl, rfl⟩
  | adds hs hnew hh => exact ⟨rfl, rfl, rfl, rfl, rfl⟩

/-- An invariant of the parts is one of the runs. -/
theorem step_sound (J : DecodingStageLLMEngine → Prop)
    (hJ : ∀ a first e cs e', J e → Part decode a first e cs e' → J e') :
    runs.Sound (step decode) (fun e => Sound e ∧ J e) CpuShortage :=
  sound_withoutOutput fun _ _ _ h hx => (act_gives h.1 hx).imp
    (fun _ hr => ⟨hr.1, hr.2.invariant (hJ _ _) h.2⟩) fun _ herr => herr.2.2

/-- In every state of every run, the invariant holds and the configuration is the one at
the start. -/
theorem reached_sound {pc : ParallelConfig} {cc : CacheConfig} {b t : Nat} {w : ℚ} {g c : Nat}
    {decode : Tokenizer} {e : DecodingStageLLMEngine}
    (h : Reaches (step decode) (create pc cc b t w g c) e) :
    Sound e ∧ e.config = (pc, cc, b, t, g) :=
  (step_sound (fun e => e.config = (pc, cc, b, t, g))
    fun _ _ _ _ _ he hp => (Part.config hp).trans he).invariant
      ⟨sound_create _ _ _ _ _ _ _, rfl⟩ h

theorem one_le_three : 1 ≤ 3 := by decide

/-- A request with the prompt `[1, 2, 3]` that has its first token and may get two more. -/
def firstToken (request_id : RequestId) : MigratingRequest where
  req := (Request.create request_id [1, 2, 3] ⟨[], false, 3, one_le_three⟩).grow "4" 4
  block_indexes := [0, 1]
  context_parallel_config := ⟨1, 1, Nat.one_pos, Nat.one_pos⟩

end distserve.DecodingStageLLMEngine
