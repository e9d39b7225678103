-- The two engines and the bridge queue between them (engine.py, single_stage_engine.py).
-- Their event loops run in one thread, so they interleave only where they await.
import RecomputeOrMigrate.ContextEngine
import RecomputeOrMigrate.DecodingEngine

open calls

namespace distserve

/-- What the two engines are made with. Both have the same blocks. -/
structure EnginesConfig where
  context_parallel_config : ParallelConfig
  decoding_parallel_config : ParallelConfig
  cache_config : CacheConfig
  context_max_batch_size : Nat
  context_max_tokens_per_batch : Nat
  decoding_max_batch_size : Nat
  decoding_max_tokens_per_batch : Nat
  waiting_block_prop_threshold : ℚ
  context_num_gpu_blocks : Nat
  decoding_num_gpu_blocks : Nat
  decoding_num_cpu_blocks : Nat

/-- `context_engine` and `decoding_engine` of `LLMEngine`. The list `added` is not in the
source: it remembers the requests that were added. -/
structure Engines where
  context_engine : ContextStageLLMEngine
  decoding_engine : DecodingStageLLMEngine
  added : List Request

namespace Engines

def create (c : EnginesConfig) : Engines where
  context_engine := .create c.context_parallel_config c.cache_config c.context_max_batch_size
    c.context_max_tokens_per_batch c.context_num_gpu_blocks
  decoding_engine := .create c.decoding_parallel_config c.cache_config c.decoding_max_batch_size
    c.decoding_max_tokens_per_batch c.waiting_block_prop_threshold c.decoding_num_gpu_blocks
    c.decoding_num_cpu_blocks
  added := []

/-- `self.context_engine.add_request`. -/
def add_request (s : Engines) (request : Request) : Engines :=
  { s with
    context_engine := s.context_engine.add_request request
    added := s.added ++ [request] }

/-- The workers answer the earliest call `step` with one token for each request. -/
def answers : List (Option RemoteCall) → List TokenId → Bool
  | some (.step request_ids _ _ _) :: _, ids => ids.length == request_ids.length
  | _, _ => false

/-- The callback that the decoding engine got from the context engine. The others go to
the LLM engine. -/
def clear_migrated_blocks (e : ContextStageLLMEngine) :
    Callback → Except PyError ContextStageLLMEngine
  | .clear_migrated_blocks migrated_request => e.clear_migrated_blocks_callback migrated_request
  | _ => .ok e

/-- One of the loops goes on, or a request arrives. -/
inductive Action
  | add_request (request : Request)
  | context_begin_step (now : Nat)
  | context_wake
  | context_batch_returns (generated_tokens_ids : List TokenId)
  | bridge_get
  | decoding_begin_step (now : Nat)
  | decoding_wake
  | decoding_batch_returns (generated_tokens_ids : List TokenId)
  | migration_ends

variable (decode : Tokenizer)

/-- An action of the context engine. -/
def in_context (s : Engines) (a : ContextStageLLMEngine.Action) :
    Option (Except PyError (Engines × List Callback)) :=
  (s.context_engine.act decode a).map fun result => do
    let (context_engine, callbacks) ← result
    return ({ s with context_engine }, callbacks)

/-- An action of the decoding engine. Its callbacks to the context engine run at once. -/
def in_decoding (s : Engines) (a : DecodingStageLLMEngine.Action) :
    Option (Except PyError (Engines × List Callback)) :=
  (s.decoding_engine.act decode a).map fun result => do
    let (decoding_engine, callbacks) ← result
    let context_engine ← callbacks.foldlM clear_migrated_blocks s.context_engine
    return ({ s with context_engine, decoding_engine }, callbacks)

/-- One action. A new request has an id that no request had before. The bridge loop of
the decoding engine takes a request from the queue and adds it at once. -/
def act (s : Engines) : Action → Option (Except PyError (Engines × List Callback))
  | .add_request request =>
    if request.request_id ∉ s.added.map (·.request_id) ∧ request.generated_token_ids = [] ∧
        request.is_finished = false then
      some (.ok (s.add_request request, []))
    else none
  | .context_begin_step now => s.in_context decode (.begin_step now)
  | .context_wake => s.in_context decode .wake
  | .context_batch_returns ids =>
    if answers s.context_engine.batches_ret_futures ids then
      s.in_context decode (.batch_returns ids)
    else none
  | .bridge_get =>
    match s.context_engine.bridge_queue with
    | [] => none
    | migrating_req :: rest =>
      some (.ok ({ s with
        context_engine := { s.context_engine with bridge_queue := rest }
        decoding_engine := { s.decoding_engine with
          scheduler := s.decoding_engine.scheduler.add_request migrating_req } }, []))
  | .decoding_begin_step now => s.in_decoding decode (.begin_step now)
  | .decoding_wake => s.in_decoding decode .wake
  | .decoding_batch_returns ids =>
    if answers s.decoding_engine.batches_ret_futures ids then
      s.in_decoding decode (.batch_returns ids)
    else none
  | .migration_ends => s.in_decoding decode .migration_ends

/-- The two engines alone. -/
def step : runs.Machine PyError Engines Action := runs.withoutOutput (act decode)

end Engines

end distserve
