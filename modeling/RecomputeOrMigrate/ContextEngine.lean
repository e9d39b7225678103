-- The engine of the context stage (single_stage_engine.py). Its coroutine `_step`
-- is cut at the points where it awaits: other coroutines run only there.
import RecomputeOrMigrate.Callbacks
import RecomputeOrMigrate.ContextScheduler
import RecomputeOrMigrate.General.Runs

open calls

namespace distserve

/-- Where the coroutine of the event loop is. -/
inductive ContextPoint
  /-- Between two steps. -/
  | idle
  /-- In the sleep of a step without requests. -/
  | sleeping
  /-- At the result of the earliest batch. -/
  | awaiting
deriving DecidableEq

/-- `ContextStageLLMEngine`. A future of `batches_ret_futures` is the remote call
that will give the tokens. The list `finished_requests` is not in the source: it
remembers the requests that left as finished. -/
structure ContextStageLLMEngine where
  parallel_config : ParallelConfig
  scheduler : ContextStageFCFSScheduler
  batches_in_pipeline : List BatchedRequests
  batches_ret_futures : List (Option RemoteCall)
  bridge_queue : List MigratingRequest
  finished_requests : List Request
  point : ContextPoint

namespace ContextStageLLMEngine

/-- `initialize`. `_init_kvcache` gives the context stage one CPU block. -/
def create (parallel_config : ParallelConfig) (cache_config : CacheConfig)
    (max_batch_size max_tokens_per_batch num_gpu_blocks : Nat) : ContextStageLLMEngine where
  parallel_config
  scheduler :=
    { max_batch_size
      max_tokens_per_batch
      block_manager := .create num_gpu_blocks 1 cache_config
      waiting_queue := []
      unaccepted_queue := []
      num_on_fly_request_block := 0 }
  batches_in_pipeline := []
  batches_ret_futures := []
  bridge_queue := []
  finished_requests := []
  point := .idle

/-- `self.block_manager`. -/
def block_manager (e : ContextStageLLMEngine) : BlockManager := e.scheduler.block_manager

def withManager (e : ContextStageLLMEngine) (m : BlockManager) : ContextStageLLMEngine :=
  { e with scheduler := { e.scheduler with block_manager := m } }

def add_request (e : ContextStageLLMEngine) (request : Request) : ContextStageLLMEngine :=
  { e with scheduler := e.scheduler.add_request request }

/-- `_free_request_resources`. -/
def free_request_resources (e : ContextStageLLMEngine) (request_id : RequestId) :
    Except PyError ContextStageLLMEngine := do
  let (_, m) ← run (BlockManager.free_blocks request_id) e.block_manager
  return e.withManager (m.remote_call_all_workers_async (.clear_request_resource request_id))

def clear_migrated_blocks_callback (e : ContextStageLLMEngine)
    (migrated_request : MigratingRequest) : Except PyError ContextStageLLMEngine := do
  let e ← e.free_request_resources migrated_request.req.request_id
  return { e with scheduler := e.scheduler.on_request_migrated migrated_request }

/-! ## The parts of `_step` -/

/-- The first part: the next batch goes to the workers and into the pipeline. The
coroutine sleeps after a batch without requests. -/
def push_next_batch (e : ContextStageLLMEngine) (now : Nat) :
    Except PyError (ContextStageLLMEngine × List Callback) := do
  let (batched_requests, scheduler) ← e.scheduler.get_next_batch_and_pop
  let e := { e with scheduler }
  if batched_requests.requests.length = 0 then
    return (
      { e with
        batches_in_pipeline := e.batches_in_pipeline ++ [batched_requests]
        batches_ret_futures := e.batches_ret_futures ++ [none]
        point := .sleeping }, [])
  else
    let (_, m) ← run (BlockManager.allocate_blocks_batched batched_requests.requests)
      e.block_manager
    let begins := batched_requests.requests.map fun request =>
      Callback.engine_on_new_lifetime_event request.request_id .ContextBegin false
    let batched_requests ← batched_requests.start_one_iteration now
    let (block_table, m) ← run
      (BlockManager.get_partial_block_table batched_requests.get_request_ids) m
    let step := RemoteCall.step batched_requests.get_request_ids
      batched_requests.get_input_tokens_batched batched_requests.get_first_token_indexes block_table
    let e := e.withManager (m.remote_call_all_workers_async step)
    return (
      { e with
        batches_in_pipeline := e.batches_in_pipeline ++ [batched_requests]
        batches_ret_futures := e.batches_ret_futures ++ [some step] }, begins)

/-- The test for a full pipeline. When its earliest batch has no requests, that
batch just goes. Else the coroutine awaits the result. -/
def check_pipeline (e : ContextStageLLMEngine) : Except PyError ContextStageLLMEngine :=
  if e.batches_in_pipeline.length = e.parallel_config.pipeline_parallel_size then
    match e.batches_ret_futures with
    | [] => .error .list_index_out_of_range
    | none :: futures =>
      .ok { e with
        batches_in_pipeline := e.batches_in_pipeline.tail
        batches_ret_futures := futures
        point := .idle }
    | some _ :: _ => .ok { e with point := .awaiting }
  else .ok { e with point := .idle }

/-- The last loop of `_step`. An unfinished request goes to the bridge queue. -/
def hand_over (e : ContextStageLLMEngine) : List Request → Except PyError ContextStageLLMEngine
  | [] => return e
  | request :: rest =>
    if request.is_finished then do
      let e ← e.free_request_resources request.request_id
      hand_over { e with finished_requests := e.finished_requests ++ [request] } rest
    else do
      let (block_indexes, _) ← run (BlockManager.get_block_table request.request_id) e.block_manager
      hand_over { e with bridge_queue :=
        e.bridge_queue ++ [⟨request, block_indexes, e.parallel_config⟩] } rest

/-- The part after the await: the earliest batch has its tokens. -/
def take_result (decode : Tokenizer) (e : ContextStageLLMEngine)
    (generated_tokens_ids : List TokenId) :
    Except PyError (ContextStageLLMEngine × List Callback) := do
  let generated_tokens := decode.decode_tokens generated_tokens_ids
  match e.batches_in_pipeline with
  | [] => throw .list_index_out_of_range
  | first :: rest =>
    let finished_batch ← first.finish_one_iteration generated_tokens generated_tokens_ids
    let e := { e with scheduler := e.scheduler.on_finish_requests finished_batch }
    let outputs := (step_outputs finished_batch.requests generated_tokens
      generated_tokens_ids).flatMap fun step_output =>
        [Callback.engine_on_new_lifetime_event step_output.request_id .ContextEnd false,
          .engine_on_new_step_output step_output.request_id step_output]
    let e := { e with
      batches_in_pipeline := rest
      batches_ret_futures := e.batches_ret_futures.tail }
    let e ← e.hand_over finished_batch.requests
    return ({ e with point := .idle }, outputs)

/-! ## The machine -/

/-- `_step` up to its first await. -/
def begin_step (e : ContextStageLLMEngine) (now : Nat) :
    Except PyError (ContextStageLLMEngine × List Callback) := do
  let (e, callbacks) ← e.push_next_batch now
  if e.point = .sleeping then return (e, callbacks)
  else
    let e ← e.check_pipeline
    return (e, callbacks)

/-- What can happen next at an await point. -/
inductive Action
  | add_request (request : Request)
  | begin_step (now : Nat)
  | wake
  | batch_returns (generated_tokens_ids : List TokenId)
  | bridge_get
  | clear_migrated_blocks (migrated_request : MigratingRequest)

/-- The ids of the requests that are in the engine. -/
def present (e : ContextStageLLMEngine) : List RequestId :=
  (e.scheduler.waiting_queue ++ e.batches_in_pipeline.flatMap BatchedRequests.requests ++
    e.scheduler.unaccepted_queue).map (·.request_id)

/-- One action with the functions of the LLM engine that it calls. A new request is
not in the engine yet and has no tokens, and a migrated request is one that the
engine handed over. -/
def act (decode : Tokenizer) (e : ContextStageLLMEngine) :
    Action → Option (Except PyError (ContextStageLLMEngine × List Callback))
  | .add_request request =>
    if request.request_id ∉ e.present ∧ request.generated_token_ids = [] ∧
        request.is_finished = false then
      some (.ok (e.add_request request, []))
    else none
  | .begin_step now => if e.point = .idle then some (e.begin_step now) else none
  | .wake => if e.point = .sleeping then some ((·, []) <$> e.check_pipeline) else none
  | .batch_returns ids => if e.point = .awaiting then some (e.take_result decode ids) else none
  | .bridge_get =>
    if e.bridge_queue = [] then none
    else some (.ok ({ e with bridge_queue := e.bridge_queue.tail }, []))
  | .clear_migrated_blocks migrated_request =>
    if migrated_request.req.request_id ∈ e.scheduler.unaccepted_queue.map (·.request_id) then
      some ((·, []) <$> e.clear_migrated_blocks_callback migrated_request)
    else none

/-- The engine alone. -/
def step (decode : Tokenizer) : runs.Machine PyError ContextStageLLMEngine Action :=
  runs.withoutOutput (act decode)

end ContextStageLLMEngine

end distserve
