-- What an action of the context engine does. Each action is a few parts, and the
-- invariant holds between them, so a law of every part is a law of every run.
import RecomputeOrMigrate.BlockAccounts
import RecomputeOrMigrate.ContextEngine
import RecomputeOrMigrate.RequestGrowth

open calls runs

namespace distserve

/-! ## The scheduler -/

namespace ContextStageFCFSScheduler

theorem blocks_of_append (s : ContextStageFCFSScheduler) (a b : List Request) :
    s.blocks_of (a ++ b) = s.blocks_of a + s.blocks_of b := by
  simp [blocks_of]

/-- The three limits of a batch. -/
structure Fits (s : ContextStageFCFSScheduler) (rs : List Request) : Prop where
  batch_size : rs.length ≤ s.max_batch_size
  tokens : (rs.map Request.get_num_input_tokens).sum ≤ s.max_tokens_per_batch
  blocks : (s.blocks_of rs : Int) + s.blocks_of s.unaccepted_queue + s.num_on_fly_request_block ≤
    s.block_manager.max_num_gpu_blocks

theorem fits_of_check {s : ContextStageFCFSScheduler} {b : BatchedRequests} {request : Request}
    (h : s.check_add_to_cur_batch b request = true) : s.Fits (b.requests ++ [request]) := by
  simp only [check_add_to_cur_batch, Bool.and_eq_true, decide_eq_true_eq] at h
  obtain ⟨⟨hsize, htokens⟩, hblocks⟩ := h
  refine ⟨?_, ?_, hblocks⟩
  · rw [List.length_append, List.length_singleton]
    exact hsize
  · rw [List.map_append, List.sum_append, List.map_singleton, List.sum_singleton]
    exact htokens

/-- The loop moves requests from the head of the waiting queue to the batch. It
does not raise, and a batch that it added to fits. -/
theorem fill_batch_cases (s : ContextStageFCFSScheduler) (b : BatchedRequests)
    (waiting : List Request) (hnd : ((b.requests ++ waiting).map (·.request_id)).Nodup) :
    ∃ moved rest, s.fill_batch b waiting =
        .ok ({ b with requests := b.requests ++ moved }, rest) ∧
      waiting = moved ++ rest ∧ (moved ≠ [] → s.Fits (b.requests ++ moved)) := by
  induction waiting generalizing b with
  | nil => exact ⟨[], [], by simp [fill_batch, pure, Except.pure], rfl, by simp⟩
  | cons request rest ih =>
    unfold fill_batch
    cases hc : s.check_add_to_cur_batch b request with
    | false => exact ⟨[], request :: rest, by simp [pure, Except.pure], rfl, by simp⟩
    | true =>
      have hnew : request.request_id ∉ b.get_request_ids := by
        rw [List.map_append, List.map_cons, List.nodup_append] at hnd
        intro hmem
        exact hnd.2.2 _ hmem _ (List.mem_cons_self) rfl
      have hadd : b.add_request request = .ok { b with requests := b.requests ++ [request] } := by
        unfold BatchedRequests.add_request
        rw [if_neg hnew]
        rfl
      obtain ⟨moved, rest', he, hw, hfit⟩ :=
        ih { b with requests := b.requests ++ [request] } (by simpa using hnd)
      refine ⟨request :: moved, rest', ?_, by rw [hw]; rfl, fun _ => ?_⟩
      · simp only [if_true, hadd, bind, Except.bind]
        simpa using he
      · by_cases hm : moved = []
        · subst hm
          exact fits_of_check hc
        · simpa using hfit hm

/-- `get_next_batch_and_pop` returns a batch from the head of the waiting queue. -/
theorem get_next_batch_and_pop_cases (s : ContextStageFCFSScheduler)
    (hnd : (s.waiting_queue.map (·.request_id)).Nodup) :
    ∃ moved rest, s.get_next_batch_and_pop = .ok (⟨moved, none⟩,
        { s with
          waiting_queue := rest
          num_on_fly_request_block := s.num_on_fly_request_block + s.blocks_of moved }) ∧
      s.waiting_queue = moved ++ rest ∧ (moved ≠ [] → s.Fits moved) := by
  obtain ⟨moved, rest, he, hw, hfit⟩ := s.fill_batch_cases .empty s.waiting_queue
    (by simpa [BatchedRequests.empty] using hnd)
  refine ⟨moved, rest, ?_, hw, by simpa [BatchedRequests.empty] using hfit⟩
  unfold get_next_batch_and_pop
  rw [he]
  rfl

end ContextStageFCFSScheduler

namespace ContextStageLLMEngine

open BlockManager

/-! ## What each part of a step does -/

/-- The requests of the batches in the pipeline. -/
def in_flight (e : ContextStageLLMEngine) : List Request :=
  e.batches_in_pipeline.flatMap BatchedRequests.requests

/-- The ids of the requests that own blocks: in the pipeline or unaccepted. -/
def owners (e : ContextStageLLMEngine) : List RequestId :=
  (e.in_flight ++ e.scheduler.unaccepted_queue).map (·.request_id)

/-- `e'` is `e` after the requests `moved` left the waiting queue for the pipeline. -/
structure Pushed (e : ContextStageLLMEngine) (now : Nat) (moved : List Request)
    (e' : ContextStageLLMEngine) : Prop where
  waiting : e.scheduler.waiting_queue = moved ++ e'.scheduler.waiting_queue
  unaccepted : e'.scheduler.unaccepted_queue = e.scheduler.unaccepted_queue
  counter : e'.scheduler.num_on_fly_request_block =
    e.scheduler.num_on_fly_request_block + e.scheduler.blocks_of moved
  pipeline : e'.batches_in_pipeline =
    e.batches_in_pipeline ++ [⟨moved, if moved = [] then none else some now⟩]
  futures : e'.batches_ret_futures = e.batches_ret_futures ++
    [if moved = [] then none else some (e'.block_manager.stepCall moved)]
  manager : ∃ m, Allocated e.block_manager moved m ∧ e'.block_manager = m.sendStep moved
  accounts : Accounts e'.block_manager e'.owners []
  bridge : e'.bridge_queue = e.bridge_queue
  finished : e'.finished_requests = e.finished_requests
  parallel_config : e'.parallel_config = e.parallel_config
  point : e'.point = if moved = [] then .sleeping else e.point

/-- `e'` is `e` after the earliest batch, with the requests `grown` now, left the
pipeline. -/
structure Took (e : ContextStageLLMEngine) (grown : List Request) (e' : ContextStageLLMEngine) :
    Prop where
  waiting : e'.scheduler.waiting_queue = e.scheduler.waiting_queue
  unaccepted : e'.scheduler.unaccepted_queue =
    e.scheduler.unaccepted_queue ++ grown.filter fun q => !q.is_finished
  counter : e'.scheduler.num_on_fly_request_block =
    e.scheduler.num_on_fly_request_block - e.scheduler.blocks_of grown
  pipeline : e'.batches_in_pipeline = e.batches_in_pipeline.tail
  futures : e'.batches_ret_futures = e.batches_ret_futures.tail
  bridge : e'.bridge_queue = e.bridge_queue ++ (grown.filter fun q => !q.is_finished).map
    fun q => ⟨q, e.block_manager.tableOf q.request_id, e.parallel_config⟩
  finished : e'.finished_requests = e.finished_requests ++ grown.filter (·.is_finished)
  others : ∀ r ∉ (grown.filter (·.is_finished)).map (·.request_id),
    e'.block_manager.owned r = e.block_manager.owned r
  gone : ∀ r ∈ (grown.filter (·.is_finished)).map (·.request_id), e'.block_manager.owned r = none
  cache_config : e'.block_manager.cache_config = e.block_manager.cache_config
  max_num_blocks : e'.block_manager.max_num_blocks = e.block_manager.max_num_blocks
  remote_calls : e'.block_manager.remote_calls = e.block_manager.remote_calls ++
    ((grown.filter (·.is_finished)).map fun q => .clear_request_resource q.request_id)
  parallel_config : e'.parallel_config = e.parallel_config
  point : e'.point = .idle

/-! ## The invariant -/

/-- The state of the engine at an await point. -/
structure Sound (e : ContextStageLLMEngine) : Prop where
  nodup : e.present.Nodup
  accounts : Accounts e.block_manager e.owners []
  sizes : ∀ q ∈ e.in_flight ++ e.scheduler.unaccepted_queue,
    e.block_manager.get_allocated_num_blocks q.request_id =
      e.scheduler.get_block_needed q.get_input_len
  counter : e.scheduler.num_on_fly_request_block = e.scheduler.blocks_of e.in_flight
  fresh : ∀ q ∈ e.scheduler.waiting_queue ++ e.in_flight,
    q.generated_token_ids = [] ∧ q.is_finished = false
  futures : List.Forall₂ FutureOf e.batches_in_pipeline e.batches_ret_futures
  awaiting : e.point = .awaiting → ∃ c rest, e.batches_ret_futures = some c :: rest

theorem sound_create (pc : ParallelConfig) (cc : CacheConfig) (b t g : Nat) :
    Sound (create pc cc b t g) where
  nodup := by simp [create, present]
  accounts := accounts_create g 1 cc
  sizes := by simp [create, in_flight]
  counter := by simp [create, in_flight, ContextStageFCFSScheduler.blocks_of]
  fresh := by simp [create, in_flight]
  futures := .nil
  awaiting := by simp [create]

/-- The blocks of a list of owners are what the scheduler counts for them. -/
theorem Sound.allocated_sum {e : ContextStageLLMEngine} (h : Sound e) :
    (e.owners.map e.block_manager.get_allocated_num_blocks).sum =
      e.scheduler.blocks_of e.in_flight + e.scheduler.blocks_of e.scheduler.unaccepted_queue := by
  rw [← ContextStageFCFSScheduler.blocks_of_append, owners, List.map_map]
  exact congrArg List.sum (List.map_congr_left h.sizes)

theorem needed_of_fresh {e : ContextStageLLMEngine} {q : Request}
    (h : q.generated_token_ids = []) :
    e.block_manager.get_num_blocks_needed q = e.scheduler.get_block_needed q.get_input_len := by
  simp [get_num_blocks_needed, ContextStageFCFSScheduler.get_block_needed, Request.get_output_len,
    h, block_manager]

/-- The blocks of a batch that fits are there, whether or not it has requests. -/
theorem allocates_of_fits {e : ContextStageLLMEngine} (h : Sound e) {moved rest : List Request}
    (hw : e.scheduler.waiting_queue = moved ++ rest) (hfit : e.scheduler.Fits moved) :
    ∃ m, allocate_blocks_batched moved e.block_manager = .ok () m ∧
      Allocated e.block_manager moved m ∧
      Accounts m (e.owners ++ moved.map (·.request_id)) [] := by
  have hnd := h.nodup
  simp only [present, hw, List.map_append, List.append_assoc] at hnd
  have hneed : (moved.map fun q => e.block_manager.get_num_blocks_needed q -
      e.block_manager.get_allocated_num_blocks q.request_id).sum ≤ e.scheduler.blocks_of moved := by
    apply counting.sum_map_le
    intro q hq
    rw [needed_of_fresh (h.fresh q (by simp [hw, hq])).1]
    omega
  have hblocks := hfit.blocks
  have hcounter := h.counter
  have havail := h.accounts.avail_gpu
  rw [h.allocated_sum] at havail
  simp only [block_manager] at havail hblocks
  obtain ⟨m, he, hal, hacc⟩ := h.accounts.allocate_batched moved (List.Nodup.of_append_left hnd)
    (by simp) (by simp only [block_manager] at hneed ⊢; omega)
  refine ⟨m, he, hal, hacc _ ?_ fun r => by rw [List.mem_append]⟩
  have hdis : (moved.map (·.request_id) ++ e.owners).Nodup := by
    refine hnd.sublist (List.Sublist.append_left ?_ _)
    simp [owners, in_flight]
  exact (List.perm_append_comm.nodup_iff).mp hdis

/-- The first part of a step returns. -/
theorem push_next_batch_cases {e : ContextStageLLMEngine} (h : Sound e) (now : Nat) :
    ∃ moved e' cs, e.push_next_batch now = .ok (e', cs) ∧ Pushed e now moved e' ∧
      cs = moved.map fun q => .engine_on_new_lifetime_event q.request_id .ContextBegin false := by
  have hnd := h.nodup
  simp only [present, List.map_append, List.append_assoc] at hnd
  obtain ⟨moved, rest, he, hw, hfit⟩ := e.scheduler.get_next_batch_and_pop_cases
    (List.Nodup.of_append_left hnd)
  unfold push_next_batch
  rw [he]
  by_cases hm : moved = []
  · subst hm
    refine ⟨[], _, _, rfl, ?_, rfl⟩
    constructor <;> try rfl
    · exact hw
    · exact ⟨e.block_manager, Allocated.refl _, rfl⟩
    · simpa [owners, in_flight, block_manager] using h.accounts
  · obtain ⟨m, hm', hal, hacc⟩ := allocates_of_fits h hw (hfit hm)
    have htab : get_partial_block_table (moved.map (·.request_id)) m =
        .ok ((moved.map (·.request_id)).map m.tableOf) m :=
      get_partial_block_table_eq fun r hr =>
        (hacc.mem_table r).mpr (Or.inl (List.mem_append_right _ hr))
    refine ⟨moved,
      { e with
        scheduler :=
          { e.scheduler with
            waiting_queue := rest
            num_on_fly_request_block := e.scheduler.num_on_fly_request_block +
              e.scheduler.blocks_of moved
            block_manager := m.remote_call_all_workers_async (m.stepCall moved) }
        batches_in_pipeline := e.batches_in_pipeline ++ [⟨moved, some now⟩]
        batches_ret_futures := e.batches_ret_futures ++ [some (m.stepCall moved)] },
      _, ?_, ?_, rfl⟩
    · rw [ok_bind rfl]
      apply (if_neg (by simpa using hm)).trans
      apply (ok_bind (run_eq_ok.mpr hm')).trans
      apply (ok_bind rfl).trans
      apply (ok_bind (run_eq_ok.mpr htab)).trans
      simp only [withManager, stepCall, List.map_map]
      rfl
    · refine ⟨hw, rfl, rfl, by simp [hm], by simp [hm]; rfl, ⟨m, hal, by simp [sendStep, hm]; rfl⟩,
        ?_, rfl, rfl, rfl, by simp [hm]⟩
      refine (hacc.perm ?_ (List.Perm.refl _)).remote _
      simp only [owners, in_flight, List.flatMap_append, List.flatMap_cons, List.flatMap_nil,
        List.append_nil, List.map_append, List.append_assoc]
      exact List.Perm.append_left _ List.perm_append_comm

theorem blocks_of_congr {s s' : ContextStageFCFSScheduler}
    (h : s'.block_manager.cache_config = s.block_manager.cache_config) :
    s'.blocks_of = s.blocks_of := by
  funext rs
  simp [ContextStageFCFSScheduler.blocks_of, ContextStageFCFSScheduler.get_block_needed, h]

theorem Pushed.cache_config {e e' : ContextStageLLMEngine} {now : Nat} {moved : List Request}
    (h : Pushed e now moved e') :
    e'.block_manager.cache_config = e.block_manager.cache_config := by
  obtain ⟨m, hal, hm⟩ := h.manager
  rw [hm, cache_config_sendStep, hal.cache_config]

theorem Pushed.in_flight {e e' : ContextStageLLMEngine} {now : Nat} {moved : List Request}
    (h : Pushed e now moved e') : e'.in_flight = e.in_flight ++ moved := by
  simp [ContextStageLLMEngine.in_flight, h.pipeline]

/-- The blocks that a request owns after the push. -/
theorem Pushed.allocated {e e' : ContextStageLLMEngine} {now : Nat} {moved : List Request}
    (hs : Sound e) (h : Pushed e now moved e') (q : Request)
    (hq : q ∈ e'.in_flight ++ e'.scheduler.unaccepted_queue) :
    e'.block_manager.get_allocated_num_blocks q.request_id =
      e.scheduler.get_block_needed q.get_input_len := by
  obtain ⟨m, hal, hm⟩ := h.manager
  have hnd := hs.nodup
  rw [present, h.waiting, List.append_assoc, List.append_assoc, List.map_append,
    List.nodup_append'] at hnd
  have hkeys : SameKeys m := by
    have := h.accounts.same_keys
    rw [hm] at this
    unfold sendStep at this
    split at this <;> exact this
  rw [hm, get_allocated_num_blocks_sendStep]
  rw [h.in_flight, h.unaccepted] at hq
  by_cases hmv : q ∈ moved
  · have hout : q.request_id ∉ e.owners := fun hc =>
      List.disjoint_left.mp hnd.2.2 (List.mem_map_of_mem hmv)
        (by rw [List.map_append]; exact List.mem_append_right _ hc)
    rw [hal.allocated q hmv, hs.accounts.allocated_none hout (by simp), Nat.max_zero]
    exact needed_of_fresh (hs.fresh q (by rw [h.waiting]; simp [hmv])).1
  · have hq' : q ∈ e.in_flight ++ e.scheduler.unaccepted_queue := by
      simp only [List.mem_append] at hq ⊢
      tauto
    rw [← hs.sizes q hq']
    apply allocated_congr hs.accounts.same_keys hkeys
    apply hal.others
    intro hc
    exact List.disjoint_left.mp hnd.2.2 hc
      (by rw [List.map_append]; exact List.mem_append_right _ (List.mem_map_of_mem hq'))

theorem Pushed.sound {e e' : ContextStageLLMEngine} {now : Nat} {moved : List Request}
    (hs : Sound e) (hp : e.point = .idle) (h : Pushed e now moved e') : Sound e' where
  nodup := by
    refine (List.Perm.nodup_iff ?_).mp hs.nodup
    refine List.Perm.map _ (List.perm_iff_count.mpr fun q => ?_)
    simp only [h.waiting, h.unaccepted, h.pipeline, List.flatMap_append, List.flatMap_singleton,
      List.count_append]
    omega
  accounts := h.accounts
  sizes q hq := by
    rw [h.allocated hs q hq]
    unfold ContextStageFCFSScheduler.get_block_needed
    exact congrArg (CacheConfig.blocks_for · _) h.cache_config.symm
  counter := by
    rw [h.counter, h.in_flight, blocks_of_congr h.cache_config,
      ContextStageFCFSScheduler.blocks_of_append, hs.counter]
    push_cast
    rfl
  fresh q hq := by
    apply hs.fresh
    rw [h.in_flight] at hq
    rw [h.waiting]
    simp only [List.mem_append] at hq ⊢
    tauto
  futures := by
    rw [h.pipeline, h.futures]
    refine List.rel_append hs.futures (List.Forall₂.cons ?_ .nil)
    by_cases hm : moved = []
    · simp [hm, FutureOf]
    · rw [if_neg hm, if_neg hm]
      exact ⟨hm, by simp, _, _, _, rfl⟩
  awaiting hc := by
    rw [h.point, hp] at hc
    split at hc <;> cases hc

/-! ## The test for a full pipeline -/

/-- `e'` is `e` after the test: a batch without requests may have left. -/
structure Checked (e e' : ContextStageLLMEngine) : Prop where
  scheduler : e'.scheduler = e.scheduler
  in_flight : e'.in_flight = e.in_flight
  pipeline : e'.batches_in_pipeline = e.batches_in_pipeline ∨
    ∃ b rest, e.batches_in_pipeline = b :: rest ∧ b.requests = [] ∧ e'.batches_in_pipeline = rest
  bridge : e'.bridge_queue = e.bridge_queue
  finished : e'.finished_requests = e.finished_requests
  parallel_config : e'.parallel_config = e.parallel_config

theorem check_pipeline_cases {e : ContextStageLLMEngine} (h : Sound e) :
    ∃ e', e.check_pipeline = .ok e' ∧ Sound e' ∧ Checked e e' := by
  unfold check_pipeline
  have hlen := h.futures.length_eq
  split
  · next hfull =>
    have hpos := e.parallel_config.pipeline_parallel_size_pos
    cases hf : e.batches_ret_futures with
    | nil =>
      rw [hf, List.length_nil] at hlen
      omega
    | cons f futures =>
      have hfs := h.futures
      rw [hf] at hfs
      cases hb : e.batches_in_pipeline with
      | nil => rw [hb] at hfs; cases hfs
      | cons b batches =>
        rw [hb] at hfs
        cases hfs with
        | cons hfb hrest =>
          cases f with
          | none =>
            have hin : (b :: batches).flatMap BatchedRequests.requests =
                batches.flatMap BatchedRequests.requests := by
              rw [List.flatMap_cons, hfb.1, List.nil_append]
            have hin' : e.in_flight = batches.flatMap BatchedRequests.requests := by
              unfold ContextStageLLMEngine.in_flight
              rw [hb, hin]
            refine ⟨_, rfl, ⟨?_, ?_, ?_, ?_, ?_, by simpa [hb] using hrest, by simp⟩,
              ⟨rfl, ?_, Or.inr ⟨b, batches, hb, hfb.1, rfl⟩, rfl, rfl, rfl⟩⟩
            · simpa [present, hb, hfb.1] using h.nodup
            · simpa [owners, ContextStageLLMEngine.in_flight, hb, hfb.1, block_manager]
                using h.accounts
            · simpa [ContextStageLLMEngine.in_flight, hb, hfb.1, block_manager] using h.sizes
            · simpa [ContextStageLLMEngine.in_flight, hb, hfb.1] using h.counter
            · simpa [ContextStageLLMEngine.in_flight, hb, hfb.1] using h.fresh
            · simp [ContextStageLLMEngine.in_flight, hb, hfb.1]
          | some c =>
            exact ⟨{ e with point := .awaiting }, by simp [hb, hf],
              ⟨h.nodup, h.accounts, h.sizes, h.counter, h.fresh, h.futures,
                fun _ => ⟨c, futures, hf⟩⟩,
              ⟨rfl, rfl, Or.inl rfl, rfl, rfl, rfl⟩⟩
  · exact ⟨_, rfl, ⟨h.nodup, h.accounts, h.sizes, h.counter, h.fresh, h.futures, by simp⟩,
      ⟨rfl, rfl, Or.inl rfl, rfl, rfl, rfl⟩⟩

/-! ## The result of a batch -/

theorem free_request_resources_eq {e : ContextStageLLMEngine} {r : RequestId}
    {gpu cpu : List RequestId} (h : Accounts e.block_manager (r :: gpu) cpu) :
    ∃ m, e.free_request_resources r =
        .ok (e.withManager (m.remote_call_all_workers_async (.clear_request_resource r))) ∧
      Accounts m gpu cpu ∧ Freed e.block_manager [r] m := by
  obtain ⟨m, he, hacc, hf⟩ := h.free
  refine ⟨m, ?_, hacc, hf.freed⟩
  unfold free_request_resources
  rw [ok_bind (run_eq_ok.mpr he)]
  rfl

/-- `e'` is `e` after the loop `hand_over` for the requests `rs`. -/
structure HandedOver (e : ContextStageLLMEngine) (rs : List Request)
    (e' : ContextStageLLMEngine) : Prop where
  same : e' = { e.withManager e'.block_manager with
    bridge_queue := e'.bridge_queue, finished_requests := e'.finished_requests }
  bridge : e'.bridge_queue = e.bridge_queue ++ (rs.filter fun q => !q.is_finished).map
    fun q => ⟨q, e.block_manager.tableOf q.request_id, e.parallel_config⟩
  finished : e'.finished_requests = e.finished_requests ++ rs.filter (·.is_finished)
  others : ∀ r ∉ (rs.filter (·.is_finished)).map (·.request_id),
    e'.block_manager.owned r = e.block_manager.owned r
  gone : ∀ r ∈ (rs.filter (·.is_finished)).map (·.request_id), e'.block_manager.owned r = none
  cache_config : e'.block_manager.cache_config = e.block_manager.cache_config
  max_num_blocks : e'.block_manager.max_num_blocks = e.block_manager.max_num_blocks
  remote_calls : e'.block_manager.remote_calls = e.block_manager.remote_calls ++
    (rs.filter (·.is_finished)).map fun q => .clear_request_resource q.request_id

/-- A finished request goes away before the rest is handed over. -/
theorem HandedOver.cons_finished {q : Request} {rest : List Request} {m : BlockManager}
    {e e' : ContextStageLLMEngine} (hf : q.is_finished = true)
    (hfr : Freed e.block_manager [q.request_id] m)
    (htab : ∀ q' ∈ rest.filter (fun q => !q.is_finished),
      m.tableOf q'.request_id = e.block_manager.tableOf q'.request_id)
    (h : HandedOver { e.withManager
      (m.remote_call_all_workers_async (.clear_request_resource q.request_id)) with
        finished_requests := e.finished_requests ++ [q] } rest e') :
    HandedOver e (q :: rest) e' := by
  refine ⟨h.same, ?_, ?_, ?_, ?_, h.cache_config.trans hfr.cache_config,
    h.max_num_blocks.trans hfr.max_num_blocks, ?_⟩
  · rw [h.bridge, List.filter_cons_of_neg (by simp [hf])]
    exact congrArg (e.bridge_queue ++ ·) (List.map_congr_left fun q' hq' => by
      rw [← htab q' hq']; rfl)
  · rw [h.finished, List.filter_cons_of_pos hf, List.append_assoc]
    rfl
  · intro r hr
    rw [List.filter_cons_of_pos hf, List.map_cons, List.mem_cons, not_or] at hr
    rw [h.others r hr.2, ← hfr.others r (by simpa using hr.1)]
    rfl
  · intro r hr
    rw [List.filter_cons_of_pos hf, List.map_cons, List.mem_cons] at hr
    by_cases hr' : r ∈ (rest.filter (·.is_finished)).map (·.request_id)
    · exact h.gone r hr'
    · rw [h.others r hr']
      exact hfr.gone r (by simpa using hr.resolve_right hr')
  · rw [h.remote_calls, List.filter_cons_of_pos hf, List.map_cons]
    change (m.remote_calls ++ [_]) ++ _ = _
    rw [hfr.remote_calls, List.append_assoc]
    rfl

/-- An unfinished request goes into the bridge queue before the rest is handed over. -/
theorem HandedOver.cons_unfinished {q : Request} {rest : List Request}
    {e e' : ContextStageLLMEngine} (hf : q.is_finished = false)
    (h : HandedOver { e with bridge_queue := e.bridge_queue ++
      [⟨q, e.block_manager.tableOf q.request_id, e.parallel_config⟩] } rest e') :
    HandedOver e (q :: rest) e' := by
  have hfilter : (q :: rest).filter (·.is_finished) = rest.filter (·.is_finished) :=
    List.filter_cons_of_neg (by simp [hf])
  have hfilter' : (q :: rest).filter (fun q => !q.is_finished) =
      q :: rest.filter (fun q => !q.is_finished) := List.filter_cons_of_pos (by simp [hf])
  refine ⟨h.same, ?_, ?_, ?_, ?_, h.cache_config, h.max_num_blocks, ?_⟩
  · rw [h.bridge, hfilter', List.map_cons, List.append_assoc]
    rfl
  · rw [h.finished, hfilter]
  · rw [hfilter]
    exact h.others
  · rw [hfilter]
    exact h.gone
  · rw [h.remote_calls, hfilter]
    rfl

/-- The loop returns: the finished requests of the batch own their blocks until it
frees them, and the others keep them. -/
theorem hand_over_cases (rs : List Request) (e : ContextStageLLMEngine) (gpu : List RequestId)
    (hacc : Accounts e.block_manager ((rs.filter (·.is_finished)).map (·.request_id) ++ gpu) [])
    (hgpu : ∀ q ∈ rs, q.is_finished = false → q.request_id ∈ gpu) :
    ∃ e', e.hand_over rs = .ok e' ∧ Accounts e'.block_manager gpu [] ∧ HandedOver e rs e' := by
  induction rs generalizing e with
  | nil => exact ⟨e, rfl, hacc, ⟨rfl, by simp, by simp, by simp, by simp, rfl, rfl, by simp⟩⟩
  | cons q rest ih =>
    have hgpu' : ∀ q' ∈ rest, q'.is_finished = false → q'.request_id ∈ gpu :=
      fun q' hq' => hgpu q' (by simp [hq'])
    unfold hand_over
    cases hf : q.is_finished with
    | true =>
      rw [List.filter_cons_of_pos hf, List.map_cons, List.cons_append] at hacc
      have hq : q.request_id ∉ gpu := fun hc => by
        have hnd := hacc.nodup
        rw [List.cons_append, List.nodup_cons] at hnd
        exact hnd.1 (by simp [hc])
      obtain ⟨m, he, hacc1, hfr⟩ := free_request_resources_eq hacc
      obtain ⟨e', he', hacc', hh⟩ := ih
        { e.withManager
            (m.remote_call_all_workers_async (.clear_request_resource q.request_id)) with
          finished_requests := e.finished_requests ++ [q] } (hacc1.remote _) hgpu'
      have htab : ∀ q' ∈ rest.filter (fun q => !q.is_finished),
          m.tableOf q'.request_id = e.block_manager.tableOf q'.request_id := by
        intro q' hq'
        rw [List.mem_filter, Bool.not_eq_true'] at hq'
        refine tableOf_congr hacc.same_keys hacc1.same_keys (hfr.others _ ?_)
        rw [List.mem_singleton]
        exact fun hc => hq (hc ▸ hgpu' q' hq'.1 hq'.2)
      refine ⟨e', ?_, hacc', hh.cons_finished hf hfr htab⟩
      simp only [if_true]
      rw [ok_bind he]
      exact he'
    | false =>
      have hq : q.request_id ∈ e.block_manager.block_table :=
        (hacc.mem_table _).mpr (Or.inl (List.mem_append_right _ (hgpu q (by simp) hf)))
      rw [List.filter_cons_of_neg (by simp [hf])] at hacc
      obtain ⟨e', he', hacc', hh⟩ := ih
        { e with bridge_queue := e.bridge_queue ++
          [⟨q, e.block_manager.tableOf q.request_id, e.parallel_config⟩] } hacc hgpu'
      refine ⟨e', ?_, hacc', hh.cons_unfinished hf⟩
      rw [ok_bind (run_eq_ok.mpr (get_block_table_eq hq))]
      exact he'

/-- The earliest batch with the requests `grown` leaves the pipeline, and its
requests are handed over. -/
theorem hand_over_took {e : ContextStageLLMEngine} (h : Sound e) {first : BatchedRequests}
    {rest : List BatchedRequests} (hb : e.batches_in_pipeline = first :: rest) (ts : List String)
    (is : List TokenId) :
    let grown := BatchedRequests.growAll first.requests ts is
    ∃ e', ContextStageLLMEngine.hand_over
        { e with
          scheduler := e.scheduler.on_finish_requests ⟨grown, none⟩
          batches_in_pipeline := rest
          batches_ret_futures := e.batches_ret_futures.tail } grown = .ok e' ∧
      Took e grown { e' with point := .idle } ∧
      Accounts e'.block_manager (owners { e' with point := .idle }) [] := by
  intro grown
  have hin : e.in_flight = first.requests ++ rest.flatMap BatchedRequests.requests := by
    unfold in_flight
    rw [hb, List.flatMap_cons]
  have hids : ((grown.filter (·.is_finished)).map (·.request_id) ++
      (grown.filter fun q => !q.is_finished).map (·.request_id)).Perm
        (first.requests.map (·.request_id)) := BatchedRequests.ids_of_grown first.requests ts is
  obtain ⟨e', he', hacc, hh⟩ := hand_over_cases grown
    { e with
      scheduler := e.scheduler.on_finish_requests ⟨grown, none⟩
      batches_in_pipeline := rest
      batches_ret_futures := e.batches_ret_futures.tail }
    ((rest.flatMap BatchedRequests.requests ++ (e.scheduler.unaccepted_queue ++
      grown.filter fun q => !q.is_finished)).map (·.request_id))
    (h.accounts.perm (by
      unfold owners
      rw [hin]
      apply List.perm_iff_count.mpr
      intro r
      have := hids.count_eq r
      simp only [List.map_append, List.count_append] at this ⊢
      omega) (List.Perm.refl _))
    (fun q hq hf => by
      simp only [List.map_append, List.mem_append, List.mem_map, List.mem_filter]
      exact Or.inr (Or.inr ⟨q, ⟨hq, by simp [hf]⟩, rfl⟩))
  refine ⟨e', he', ⟨?_, ?_, ?_, ?_, ?_, hh.bridge, hh.finished, hh.others, hh.gone,
    hh.cache_config, hh.max_num_blocks, hh.remote_calls, ?_, rfl⟩, ?_⟩
  · rw [hh.same]; rfl
  · rw [hh.same]; rfl
  · rw [hh.same]; rfl
  · rw [hh.same, hb]; rfl
  · rw [hh.same]; rfl
  · rw [hh.same]; rfl
  · have : owners { e' with point := .idle } = (rest.flatMap BatchedRequests.requests ++
        (e.scheduler.unaccepted_queue ++ grown.filter fun q => !q.is_finished)).map
          (·.request_id) := by
      rw [hh.same]; rfl
    rw [this]
    exact hacc

theorem Took.sound {e e' : ContextStageLLMEngine} (h : Sound e) {first : BatchedRequests}
    {rest : List BatchedRequests} (hb : e.batches_in_pipeline = first :: rest) {ts : List String}
    {is : List TokenId} (ht : Took e (BatchedRequests.growAll first.requests ts is) e')
    (hacc : Accounts e'.block_manager e'.owners []) : Sound e' := by
  have hin : e.in_flight = first.requests ++ rest.flatMap BatchedRequests.requests := by
    unfold in_flight
    rw [hb, List.flatMap_cons]
  have hin' : e'.in_flight = rest.flatMap BatchedRequests.requests := by
    unfold in_flight
    rw [ht.pipeline, hb, List.tail_cons]
  have hids := BatchedRequests.ids_of_grown first.requests ts is
  have hneed : e'.scheduler.get_block_needed = e.scheduler.get_block_needed := by
    funext n
    exact congrArg (CacheConfig.blocks_for · n) ht.cache_config
  have hnd := h.nodup
  simp only [present, hb, List.flatMap_cons, List.map_append] at hnd
  refine ⟨?_, hacc, ?_, ?_, ?_, ?_, ?_⟩
  · -- the finished requests are no longer present, the others only change their place
    refine ((List.perm_iff_count.mpr fun r => ?_ : List.Perm _ (e'.present ++
      (((BatchedRequests.growAll first.requests ts is).filter (·.is_finished)).map
        (·.request_id)))).nodup_iff.mp hnd).of_append_left
    have := hids.count_eq r
    simp only [present, ht.waiting, ht.pipeline, ht.unaccepted, hb, List.tail_cons,
      List.map_append, List.count_append] at this ⊢
    omega
  · intro q hq
    -- an owner is not one of the finished requests, which own nothing any more
    have hout : q.request_id ∉ ((BatchedRequests.growAll first.requests ts is).filter
        (·.is_finished)).map (·.request_id) := fun hc => by
      have := hacc.owned_gpu (List.mem_map_of_mem hq)
      rw [ht.gone _ hc] at this
      cases this
    rw [hneed, allocated_congr h.accounts.same_keys hacc.same_keys (ht.others _ hout)]
    rw [hin', ht.unaccepted, ← List.append_assoc, List.mem_append] at hq
    rcases hq with hq | hq
    · exact h.sizes q (by
        rw [hin]
        simp only [List.mem_append] at hq ⊢
        tauto)
    · obtain ⟨r, hr, hqr⟩ := BatchedRequests.mem_growAll (List.mem_filter.mp hq).1
      have hsize := h.sizes r (by rw [hin]; simp [hr])
      rcases hqr with rfl | ⟨t, i, rfl⟩
      · exact hsize
      · rw [Request.grow_request_id, Request.grow_get_input_len]
        exact hsize
  · rw [ht.counter, hin', h.counter, hin, ContextStageFCFSScheduler.blocks_of_append,
      blocks_of_congr ht.cache_config]
    have hgrown : e.scheduler.blocks_of (BatchedRequests.growAll first.requests ts is) =
        e.scheduler.blocks_of first.requests := by
      unfold ContextStageFCFSScheduler.blocks_of
      rw [BatchedRequests.growAll_map]
      intro r t i
      rw [Request.grow_get_input_len]
    rw [hgrown]
    push_cast
    omega
  · intro q hq
    apply h.fresh
    rw [ht.waiting, hin'] at hq
    rw [hin]
    simp only [List.mem_append] at hq ⊢
    tauto
  · have hfs := h.futures
    rw [ht.pipeline, ht.futures]
    cases hf : e.batches_ret_futures with
    | nil => rw [hb, hf] at hfs; cases hfs
    | cons f fs =>
      rw [hb, hf] at hfs
      cases hfs with
      | cons _ hrest => simpa [hb] using hrest
  · simp [ht.point]

/-- The part after the await returns, whatever tokens the workers give. -/
theorem take_result_cases {e : ContextStageLLMEngine} (h : Sound e) (hp : e.point = .awaiting)
    (decode : Tokenizer) (ids : List TokenId) :
    ∃ first rest e', e.batches_in_pipeline = first :: rest ∧
      e.take_result decode ids =
        .ok (e', (step_outputs
          (BatchedRequests.growAll first.requests (decode.decode_tokens ids) ids)
          (decode.decode_tokens ids) ids).flatMap fun step_output =>
            [.engine_on_new_lifetime_event step_output.request_id .ContextEnd false,
              .engine_on_new_step_output step_output.request_id step_output]) ∧
      Took e (BatchedRequests.growAll first.requests (decode.decode_tokens ids) ids) e' ∧
      Sound e' := by
  obtain ⟨c, fs, hfs⟩ := h.awaiting hp
  have hf2 := h.futures
  rw [hfs] at hf2
  cases hb : e.batches_in_pipeline with
  | nil => rw [hb] at hf2; cases hf2
  | cons first rest =>
    rw [hb] at hf2
    cases hf2 with
    | cons hfirst _ =>
      obtain ⟨e', he', ht, hacc⟩ := hand_over_took h hb (decode.decode_tokens ids) ids
      have hfinish : first.finish_one_iteration (decode.decode_tokens ids) ids =
          .ok ⟨BatchedRequests.growAll first.requests (decode.decode_tokens ids) ids, none⟩ := by
        unfold BatchedRequests.finish_one_iteration
        rw [if_neg hfirst.2.1, BatchedRequests.add_generated_tokens_eq]
        · rfl
        · intro q hq
          have := (h.fresh q (by simp [ContextStageLLMEngine.in_flight, hb, hq])).1
          simp [Request.get_output_len, this]
      refine ⟨first, rest, { e' with point := .idle }, rfl, ?_, ht, Took.sound h hb ht hacc⟩
      unfold take_result
      simp only [hb]
      rw [ok_bind hfinish]
      apply (ok_bind he').trans
      rfl

/-! ## The other actions -/

/-- A migrated request gives its blocks back and leaves the unaccepted queue. -/
structure Cleared (e : ContextStageLLMEngine) (r : RequestId) (e' : ContextStageLLMEngine) :
    Prop where
  same : e' = { e with scheduler := { e.scheduler with
    block_manager := e'.block_manager, unaccepted_queue := e'.scheduler.unaccepted_queue } }
  unaccepted : e'.scheduler.unaccepted_queue =
    e.scheduler.unaccepted_queue.eraseP fun q => q.request_id == r
  manager : ∃ m, Freed e.block_manager [r] m ∧
    e'.block_manager = m.remote_call_all_workers_async (.clear_request_resource r)

/-- The queue is the migrated request and the rest. -/
theorem eraseP_perm {rs : List Request} {r : RequestId} (h : r ∈ rs.map (·.request_id)) :
    ∃ q, q.request_id = r ∧ rs.Perm (q :: rs.eraseP fun q => q.request_id == r) := by
  obtain ⟨q, hq, hr⟩ := List.mem_map.mp h
  obtain ⟨a, l1, l2, -, ha, hl, he⟩ := List.exists_of_eraseP (p := fun q => q.request_id == r) hq
    (by simpa using hr)
  refine ⟨a, by simpa using ha, ?_⟩
  rw [he, hl]
  exact List.perm_middle

theorem clear_migrated_blocks_cases {e : ContextStageLLMEngine} (h : Sound e)
    (mr : MigratingRequest)
    (hmr : mr.req.request_id ∈ e.scheduler.unaccepted_queue.map (·.request_id)) :
    ∃ e', e.clear_migrated_blocks_callback mr = .ok e' ∧ Cleared e mr.req.request_id e' ∧
      Sound e' := by
  obtain ⟨q, hq, hperm⟩ := eraseP_perm hmr
  have howners : e.owners.Perm (mr.req.request_id :: (e.in_flight ++
      e.scheduler.unaccepted_queue.eraseP fun q => q.request_id == mr.req.request_id).map
        (·.request_id)) := by
    have := (List.Perm.append_left e.in_flight hperm).map (·.request_id)
    apply this.trans
    rw [List.map_append, List.map_cons, hq, List.map_append]
    exact List.perm_middle
  obtain ⟨m, he, hacc, hfr⟩ := free_request_resources_eq
    (h.accounts.perm howners (List.Perm.refl _))
  refine ⟨{ e with scheduler := { e.scheduler with
      block_manager := m.remote_call_all_workers_async (.clear_request_resource mr.req.request_id)
      unaccepted_queue := e.scheduler.unaccepted_queue.eraseP
        fun q => q.request_id == mr.req.request_id } }, ?_, ⟨rfl, rfl, ⟨m, hfr, rfl⟩⟩, ?_⟩
  · unfold clear_migrated_blocks_callback
    rw [ok_bind he]
    rfl
  · have hblocks : ∀ s : ContextStageFCFSScheduler,
        s.block_manager.cache_config = e.block_manager.cache_config →
          s.get_block_needed = e.scheduler.get_block_needed := fun s hs => by
      funext n
      exact congrArg (CacheConfig.blocks_for · n) hs
    have hsub : ∀ q ∈ e.in_flight ++ e.scheduler.unaccepted_queue.eraseP
        (fun q => q.request_id == mr.req.request_id),
        q ∈ e.in_flight ++ e.scheduler.unaccepted_queue := fun q hq => by
      rw [List.mem_append] at hq ⊢
      exact hq.imp id List.mem_of_mem_eraseP
    refine ⟨?_, hacc.remote _, ?_, ?_, h.fresh, h.futures, h.awaiting⟩
    · exact h.nodup.sublist ((List.Sublist.append_left List.eraseP_sublist _).map _)
    · intro q hq
      rw [hblocks _ hfr.cache_config, ← h.sizes q (hsub q hq)]
      apply allocated_congr h.accounts.same_keys hacc.same_keys
      apply hfr.others
      rw [List.mem_singleton]
      intro hc
      have hnd := howners.nodup_iff.mp (List.Nodup.of_append_left h.accounts.nodup)
      rw [List.nodup_cons] at hnd
      have hmem := List.mem_map_of_mem (f := fun q : Request => q.request_id) hq
      rw [hc] at hmem
      exact hnd.1 hmem
    · refine h.counter.trans (congrArg Nat.cast (congrFun (blocks_of_congr ?_) _).symm)
      exact hfr.cache_config

theorem add_request_sound {e : ContextStageLLMEngine} (h : Sound e) {request : Request}
    (hnew : request.request_id ∉ e.present) (ht : request.generated_token_ids = [])
    (hf : request.is_finished = false) : Sound (e.add_request request) where
  nodup := by
    refine (List.Perm.nodup_iff ?_).mp (List.nodup_cons.mpr ⟨hnew, h.nodup⟩)
    unfold present
    rw [← List.map_cons (f := fun q : Request => q.request_id)]
    refine List.Perm.map _ (List.perm_iff_count.mpr fun q => ?_)
    simp only [add_request, ContextStageFCFSScheduler.add_request, List.count_append,
      List.count_cons, List.count_nil]
    omega
  accounts := h.accounts
  sizes := h.sizes
  counter := h.counter
  fresh q hq := by
    simp only [add_request, ContextStageFCFSScheduler.add_request, List.mem_append,
      List.mem_singleton] at hq
    rcases hq with (hq | rfl) | hq
    · exact h.fresh q (List.mem_append_left _ hq)
    · exact ⟨ht, hf⟩
    · exact h.fresh q (List.mem_append_right _ hq)
  futures := h.futures
  awaiting := h.awaiting

/-- The invariant says nothing about the bridge queue. -/
theorem Sound.withBridge {e : ContextStageLLMEngine} (h : Sound e)
    (bridge_queue : List MigratingRequest) : Sound { e with bridge_queue } :=
  ⟨h.nodup, h.accounts, h.sizes, h.counter, h.fresh, h.futures, h.awaiting⟩

/-! ## What an action does -/

/-- The callbacks of a batch, whose requests are `grown` now. -/
def result_outputs (grown : List Request) (tokens : List String) (ids : List TokenId) :
    List Callback :=
  (step_outputs grown tokens ids).flatMap fun step_output =>
    [.engine_on_new_lifetime_event step_output.request_id .ContextEnd false,
      .engine_on_new_step_output step_output.request_id step_output]

/-- One part of an action that began in the first state, with its callbacks. The parts
that only one action has are the first ones of it. -/
inductive Part (decode : Tokenizer) : Action → ContextStageLLMEngine →
    ContextStageLLMEngine → List Callback → ContextStageLLMEngine → Prop
  | pushes {e e' : ContextStageLLMEngine} {now : Nat} {moved : List Request} (sound : Sound e)
      (point : e.point = .idle) (h : Pushed e now moved e') :
      Part decode (.begin_step now) e e (moved.map fun q =>
        .engine_on_new_lifetime_event q.request_id .ContextBegin false) e'
  | checks {a : Action} {first e e' : ContextStageLLMEngine} (sound : Sound e)
      (h : Checked e e') : Part decode a first e [] e'
  | takes {e e' : ContextStageLLMEngine} {batch : BatchedRequests} {rest : List BatchedRequests}
      {ids : List TokenId} (sound : Sound e) (point : e.point = .awaiting)
      (head : e.batches_in_pipeline = batch :: rest)
      (h : Took e (BatchedRequests.growAll batch.requests (decode.decode_tokens ids) ids) e') :
      Part decode (.batch_returns ids) e e (result_outputs (BatchedRequests.growAll batch.requests
        (decode.decode_tokens ids) ids) (decode.decode_tokens ids) ids) e'
  | adds {e : ContextStageLLMEngine} {request : Request} (sound : Sound e)
      (new : request.request_id ∉ e.present) (no_tokens : request.generated_token_ids = [])
      (unfinished : request.is_finished = false) :
      Part decode (.add_request request) e e [] (e.add_request request)
  | gets {e : ContextStageLLMEngine} {mr : MigratingRequest} {rest : List MigratingRequest}
      (sound : Sound e) (head : e.bridge_queue = mr :: rest) :
      Part decode .bridge_get e e [] { e with bridge_queue := rest }
  | clears {e e' : ContextStageLLMEngine} {mr : MigratingRequest} (sound : Sound e)
      (unaccepted : mr.req.request_id ∈ e.scheduler.unaccepted_queue.map (·.request_id))
      (h : Cleared e mr.req.request_id e') : Part decode (.clear_migrated_blocks mr) e e [] e'

/-- The parts of an action. -/
abbrev Does (decode : Tokenizer) (a : Action) (e : ContextStageLLMEngine) :=
  Emits (Part decode a e) e

variable {e e' first : ContextStageLLMEngine} {decode : Tokenizer} {a : Action}
  {cs : List Callback}

theorem begin_step_gives (h : Sound e) (hp : e.point = .idle) (now : Nat) :
    Gives (e.begin_step now) (fun r => Sound r.1 ∧ Does decode (.begin_step now) e r.2 r.1)
      fun _ => False := by
  obtain ⟨moved, e1, cs, he, hpush, rfl⟩ := push_next_batch_cases h now
  have h1 := hpush.sound h hp
  have hd : Does decode (.begin_step now) e _ e1 := .single (.pushes h hp hpush)
  unfold begin_step
  apply gives_ok_bind he
  dsimp only
  split
  · exact ⟨h1, hd⟩
  · obtain ⟨e2, he2, h2, hc⟩ := check_pipeline_cases h1
    refine gives_ok_bind he2 (gives_pure ⟨h2, ?_⟩)
    have := hd.tail (.checks h1 hc)
    rwa [List.append_nil] at this

/-- No action raises, each action keeps the invariant, and all that it does is made of
these parts. -/
theorem act_gives (hs : Sound e) {x : Except PyError (ContextStageLLMEngine × List Callback)}
    (hx : act decode e a = some x) :
    Gives x (fun r => Sound r.1 ∧ Does decode a e r.2 r.1) fun _ => False := by
  cases a with
  | add_request request =>
    simp only [act] at hx
    split at hx
    · next hc =>
      cases hx
      exact ⟨add_request_sound hs hc.1 hc.2.1 hc.2.2, .single (.adds hs hc.1 hc.2.1 hc.2.2)⟩
    · cases hx
  | begin_step now =>
    simp only [act] at hx
    split at hx
    · next hp =>
      cases hx
      exact begin_step_gives hs hp now
    · cases hx
  | wake =>
    simp only [act] at hx
    split at hx
    · cases hx
      obtain ⟨e2, he2, h2, hc⟩ := check_pipeline_cases hs
      rw [he2]
      exact ⟨h2, .single (.checks hs hc)⟩
    · cases hx
  | batch_returns ids =>
    simp only [act] at hx
    split at hx
    · next hp =>
      cases hx
      obtain ⟨_, _, e1, hhead, he, ht, h1⟩ := take_result_cases hs hp decode ids
      exact gives_of_ok he ⟨h1, .single (.takes hs hp hhead ht)⟩
    · cases hx
  | bridge_get =>
    simp only [act] at hx
    split at hx
    · cases hx
    · next hne =>
      cases hx
      obtain ⟨mr, rest, hb⟩ := List.exists_cons_of_ne_nil hne
      refine ⟨hs.withBridge _, ?_⟩
      rw [hb]
      exact .single (.gets hs hb)
  | clear_migrated_blocks mr =>
    simp only [act] at hx
    split at hx
    · next hc =>
      cases hx
      obtain ⟨e1, he, hcl, h1⟩ := clear_migrated_blocks_cases hs mr hc
      rw [he]
      exact ⟨h1, .single (.clears hs hc hcl)⟩
    · cases hx

/-! ## Every run -/

/-- What no action changes: the parallel and cache configurations and the number of GPU
blocks. -/
def config (e : ContextStageLLMEngine) : ParallelConfig × CacheConfig × Nat :=
  (e.parallel_config, e.block_manager.cache_config, e.block_manager.max_num_gpu_blocks)

theorem Pushed.config {e e' : ContextStageLLMEngine} {now : Nat} {moved : List Request}
    (h : Pushed e now moved e') : e'.config = e.config := by
  obtain ⟨m, hal, hm⟩ := h.manager
  simp only [ContextStageLLMEngine.config, h.parallel_config, hm, cache_config_sendStep,
    max_num_gpu_blocks_sendStep, hal.cache_config, max_num_gpu_blocks_congr hal.max_num_blocks]

theorem Checked.config {e e' : ContextStageLLMEngine} (h : Checked e e') :
    e'.config = e.config := by
  simp only [ContextStageLLMEngine.config, h.parallel_config, block_manager, h.scheduler]

theorem Took.config {e e' : ContextStageLLMEngine} {grown : List Request}
    (h : Took e grown e') : e'.config = e.config := by
  simp only [ContextStageLLMEngine.config, h.parallel_config, h.cache_config,
    max_num_gpu_blocks_congr h.max_num_blocks]

theorem Cleared.config {e e' : ContextStageLLMEngine} {r : RequestId} (h : Cleared e r e') :
    e'.config = e.config := by
  obtain ⟨m, hf, hm⟩ := h.manager
  have hp : e'.parallel_config = e.parallel_config := by rw [h.same]
  simp only [ContextStageLLMEngine.config, hp, hm]
  exact congrArg _ (congrArg₂ _ hf.cache_config (max_num_gpu_blocks_congr hf.max_num_blocks))

theorem Part.config (h : Part decode a first e cs e') : e'.config = e.config := by
  cases h with
  | pushes _ _ h => exact h.config
  | checks _ h => exact h.config
  | takes _ _ _ h => exact h.config
  | adds _ _ _ _ => rfl
  | gets _ _ => rfl
  | clears _ _ h => exact h.config

/-- An invariant of the parts is one of the runs. -/
theorem step_sound (J : ContextStageLLMEngine → Prop)
    (hJ : ∀ a first e cs e', J e → Part decode a first e cs e' → J e') :
    runs.Sound (step decode) (fun e => Sound e ∧ J e) fun _ => False :=
  sound_withoutOutput fun _ _ _ h hx => (act_gives h.1 hx).imp
    (fun _ hr => ⟨hr.1, hr.2.invariant (hJ _ _) h.2⟩) fun _ => id

end ContextStageLLMEngine

end distserve
