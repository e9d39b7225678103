-- The engine of the decoding stage (single_stage_engine.py). Its coroutines are
-- cut at the points where they await: other coroutines run only there.
import Mathlib.Data.Finset.Insert
import Mathlib.Data.Finset.SDiff
import RecomputeOrMigrate.Callbacks
import RecomputeOrMigrate.DecodingScheduler
import RecomputeOrMigrate.General.Runs

open calls

namespace distserve

/-- Where the coroutine of the event loop is. -/
inductive DecodingPoint
  /-- Between two steps. -/
  | idle
  /-- In the sleep of a step without requests. -/
  | sleeping
  /-- At the result of the earliest batch. -/
  | awaiting
  /-- At the transfer of the blocks of one request, in `post_process`. -/
  | migrating (migrating_req : MigratingRequest)
deriving DecidableEq

/-- `DecodingStageLLMEngine`. The pipeline holds the indexes of the batches. Of the
worker handles only the keys matter here. The list `finished_requests` is not in the
source: it remembers the requests that left as finished. -/
structure DecodingStageLLMEngine where
  parallel_config : ParallelConfig
  scheduler : DecodingStageFCFSScheduler
  batches_in_pipeline : List Nat
  batches_ret_futures : List (Option RemoteCall)
  worker_handles : List Nat
  worker_request_ids : List (Nat × Finset RequestId)
  finished_requests : List Request
  point : DecodingPoint

/-- The request with its generated tokens hidden, as `_migrate_blocks` does it. -/
def Request.without_generated_tokens (r : Request) : Request :=
  { r with generated_tokens := [], generated_token_ids := [], tokens_paired := paired_nil }

namespace DecodingStageLLMEngine

/-- `initialize` and `_build_worker_index`: one handle for each pipeline stage. -/
def create (parallel_config : ParallelConfig) (cache_config : CacheConfig)
    (max_batch_size max_tokens_per_batch : Nat) (waiting_block_prop_threshold : ℚ)
    (num_gpu_blocks num_cpu_blocks : Nat) : DecodingStageLLMEngine where
  parallel_config
  scheduler :=
    { max_batch_size
      max_tokens_per_batch
      waiting_block_prop_threshold
      parallel_config
      block_manager := .create num_gpu_blocks num_cpu_blocks cache_config
      unaccepted_queue := []
      waiting_queue := []
      swapped_queue := []
      cur_index := -1
      batch_queues := List.replicate parallel_config.pipeline_parallel_size .empty }
  batches_in_pipeline := []
  batches_ret_futures := []
  worker_handles := List.range parallel_config.pipeline_parallel_size
  worker_request_ids := (List.range parallel_config.pipeline_parallel_size).map fun pp_rank =>
    (pp_rank, ∅)
  finished_requests := []
  point := .idle

/-- `self.block_manager`. -/
def block_manager (e : DecodingStageLLMEngine) : BlockManager := e.scheduler.block_manager

def withManager (e : DecodingStageLLMEngine) (m : BlockManager) : DecodingStageLLMEngine :=
  { e with scheduler := { e.scheduler with block_manager := m } }

/-- The loop over `self._worker_request_ids.values()`, which changes each set. -/
def trackAll (e : DecodingStageLLMEngine) (f : Finset RequestId → Finset RequestId) :
    DecodingStageLLMEngine :=
  { e with worker_request_ids := e.worker_request_ids.map fun (worker, ids) => (worker, f ids) }

/-! ## The parts of `_step` -/

/-- The first part: the next batch goes to the workers and into the pipeline. The
coroutine sleeps after a batch without requests. -/
def push_next_batch (e : DecodingStageLLMEngine) (now : Nat) :
    Except PyError (DecodingStageLLMEngine × List Callback) := do
  let scheduler ← e.scheduler.get_next_batch
  let e := { e with scheduler }
  let batched_requests := scheduler.batch scheduler.cur
  if batched_requests.requests.length = 0 then
    return (
      { e with
        batches_in_pipeline := e.batches_in_pipeline ++ [scheduler.cur]
        batches_ret_futures := e.batches_ret_futures ++ [none]
        point := .sleeping }, [])
  else
    let begins := batched_requests.requests.map fun request =>
      Callback.engine_on_new_lifetime_event request.request_id .DecodingBegin true
    let (_, m) ← run (BlockManager.allocate_blocks_batched batched_requests.requests)
      e.block_manager
    let (on_gpu, m) ← run (BlockManager.is_all_requests_on_gpu batched_requests.requests) m
    if !on_gpu then throw .swapped_out_to_cpu
    let batched_requests ← batched_requests.start_one_iteration now
    let request_ids := batched_requests.get_request_ids
    let (block_table, m) ← run (BlockManager.get_partial_block_table request_ids) m
    let step := RemoteCall.step request_ids batched_requests.get_input_tokens_batched
      batched_requests.get_first_token_indexes block_table
    let e := e.withManager (m.remote_call_all_workers_async step)
    let e := { e with scheduler := e.scheduler.setBatch scheduler.cur batched_requests }
    let e := e.trackAll (· ∪ request_ids.toFinset)
    return (
      { e with
        batches_in_pipeline := e.batches_in_pipeline ++ [scheduler.cur]
        batches_ret_futures := e.batches_ret_futures ++ [some step] }, begins)

/-- The test for a full pipeline. When its earliest batch has no requests, that
batch just goes. Else the coroutine awaits the result. -/
def check_pipeline (e : DecodingStageLLMEngine) : Except PyError DecodingStageLLMEngine :=
  if e.batches_in_pipeline.length = e.parallel_config.pipeline_parallel_size then
    match e.batches_ret_futures with
    | [] => .error .list_index_out_of_range
    | none :: futures =>
      .ok { e with
        batches_in_pipeline := e.batches_in_pipeline.tail
        batches_ret_futures := futures
        point := .idle }
    | some _ :: _ => .ok { e with point := .awaiting }
  else .ok { e with point := .idle }

/-- The part after the await: the earliest batch has its tokens, and its finished
requests leave the engine. -/
def take_result (decode : Tokenizer) (e : DecodingStageLLMEngine)
    (generated_tokens_ids : List TokenId) :
    Except PyError (DecodingStageLLMEngine × List Callback) := do
  let generated_tokens := decode.decode_tokens generated_tokens_ids
  match e.batches_in_pipeline with
  | [] => throw .list_index_out_of_range
  | first :: rest =>
    let finished_batch ←
      (e.scheduler.batch first).finish_one_iteration generated_tokens generated_tokens_ids
    let scheduler := e.scheduler.setBatch first finished_batch
    let outputs := (step_outputs finished_batch.requests generated_tokens
      generated_tokens_ids).flatMap fun step_output =>
        .engine_on_new_step_output step_output.request_id step_output ::
          if step_output.is_finished then
            [Callback.engine_on_new_lifetime_event step_output.request_id .DecodingEnd false]
          else []
    let (finished_reqs, scheduler) := scheduler.pop_finished_requests
    let e := { e with scheduler }
    let e := e.trackAll (· \ (finished_reqs.map (·.request_id)).toFinset)
    let (_, m) ← run (BlockManager.free_blocks_batched finished_reqs) e.block_manager
    let e := e.withManager
      (m.remote_call_all_workers_async (.clear_request_resource_batched finished_reqs))
    return (
      { e with
        batches_in_pipeline := rest
        batches_ret_futures := e.batches_ret_futures.tail
        finished_requests := e.finished_requests ++ finished_reqs
        point := .idle }, outputs)

/-- One turn of the loop of `post_process`, up to the await in `_migrate_blocks`.
The step ends when no request is accepted. -/
def post_process (e : DecodingStageLLMEngine) :
    Except PyError (DecodingStageLLMEngine × List Callback) :=
  match e.scheduler.unaccepted_queue with
  | [] => .ok ({ e with point := .idle }, [])
  | migrating_req :: rest =>
    if e.scheduler.should_accept migrating_req then do
      let e := { e with scheduler := { e.scheduler with unaccepted_queue := rest } }
      let (_, m) ← run (BlockManager.allocate_blocks migrating_req.req.without_generated_tokens)
        e.block_manager
      let (target_block_indexes, m) ←
        run (BlockManager.get_block_table migrating_req.req.request_id) m
      if target_block_indexes.length ≠ migrating_req.block_indexes.length then
        throw .block_counts_differ
      let e := e.withManager (m.remote_call_all_workers_async (.migrate_blocks
        migrating_req.block_indexes migrating_req.context_parallel_config target_block_indexes))
      return ({ e with point := .migrating migrating_req },
        [.engine_on_new_lifetime_event migrating_req.req.request_id .MigrationBegin false])
    else .ok ({ e with point := .idle }, [])

/-- The end of `_migrate_blocks` and of the turn of the loop. -/
def end_migration (e : DecodingStageLLMEngine) (migrating_req : MigratingRequest) :
    DecodingStageLLMEngine × List Callback :=
  ({ e with
      scheduler := { e.scheduler with
        waiting_queue := e.scheduler.waiting_queue ++ [migrating_req.req] }
      point := .idle },
    [.engine_on_new_lifetime_event migrating_req.req.request_id .MigrationEnd false,
      .clear_migrated_blocks migrating_req])

/-! ## The machine -/

/-- The coroutine goes on to `post_process`, unless it sleeps or awaits. -/
def go_on (e : DecodingStageLLMEngine) (callbacks : List Callback) :
    Except PyError (DecodingStageLLMEngine × List Callback) :=
  if e.point = .idle then do
    let (e, more) ← e.post_process
    return (e, callbacks ++ more)
  else .ok (e, callbacks)

/-- `_step` up to its first await. -/
def begin_step (e : DecodingStageLLMEngine) (now : Nat) :
    Except PyError (DecodingStageLLMEngine × List Callback) := do
  let (e, callbacks) ← e.push_next_batch now
  if e.point = .sleeping then return (e, callbacks)
  else
    let e ← e.check_pipeline
    e.go_on callbacks

/-- What can happen next at an await point. -/
inductive Action
  | add_request (migrating_req : MigratingRequest)
  | begin_step (now : Nat)
  | wake
  | batch_returns (generated_tokens_ids : List TokenId)
  | migration_ends

/-- The request that is being migrated. -/
def migrating (e : DecodingStageLLMEngine) : List Request :=
  match e.point with
  | .migrating migrating_req => [migrating_req.req]
  | _ => []

/-- The ids of the requests that are in the engine. -/
def present (e : DecodingStageLLMEngine) : List RequestId :=
  (e.scheduler.unaccepted_queue.map (·.req) ++ e.migrating ++ e.scheduler.waiting_queue ++
    e.scheduler.batch_queues.flatMap BatchedRequests.requests ++
    e.scheduler.swapped_queue).map (·.request_id)

/-- What the context stage promises for a request in the bridge queue: it has its
first token and may get more, and its prompt has its blocks. -/
structure HandedOver (cache_config : CacheConfig) (migrating_req : MigratingRequest) : Prop where
  first_token : migrating_req.req.get_output_len = 1
  not_finished : migrating_req.req.is_finished = false
  below_limit : 1 < migrating_req.req.sampling_params.max_tokens
  blocks : migrating_req.block_indexes.length =
    cache_config.blocks_for migrating_req.req.get_input_len

instance (c : CacheConfig) (mr : MigratingRequest) : Decidable (HandedOver c mr) :=
  decidable_of_iff (mr.req.get_output_len = 1 ∧ mr.req.is_finished = false ∧
      1 < mr.req.sampling_params.max_tokens ∧
      mr.block_indexes.length = c.blocks_for mr.req.get_input_len)
    ⟨fun ⟨a, b, c, d⟩ => ⟨a, b, c, d⟩, fun ⟨a, b, c, d⟩ => ⟨a, b, c, d⟩⟩

/-- One action with the functions of the other engines that it calls. A request
that comes from the bridge queue is not in the engine yet. -/
def act (decode : Tokenizer) (e : DecodingStageLLMEngine) :
    Action → Option (Except PyError (DecodingStageLLMEngine × List Callback))
  | .add_request migrating_req =>
    if migrating_req.req.request_id ∉ e.present ∧
        HandedOver e.block_manager.cache_config migrating_req then
      some (.ok ({ e with scheduler := e.scheduler.add_request migrating_req }, []))
    else none
  | .begin_step now => if e.point = .idle then some (e.begin_step now) else none
  | .wake =>
    if e.point = .sleeping then
      some do
        let e ← e.check_pipeline
        e.go_on []
    else none
  | .batch_returns ids =>
    if e.point = .awaiting then
      some do
        let (e, callbacks) ← e.take_result decode ids
        e.go_on callbacks
    else none
  | .migration_ends =>
    match e.point with
    | .migrating migrating_req =>
      let (e, callbacks) := e.end_migration migrating_req
      some (e.go_on callbacks)
    | _ => none

/-- The engine alone. -/
def step (decode : Tokenizer) : runs.Machine PyError DecodingStageLLMEngine Action :=
  runs.withoutOutput (act decode)

end DecodingStageLLMEngine

end distserve
