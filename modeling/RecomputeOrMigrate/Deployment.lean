-- The two engines with their workers (worker.py). The workers of an engine run its calls
-- in the order in which it sent them, each some time after it was sent, and a call ends
-- before the next one begins.
import RecomputeOrMigrate.EnginesServe
import RecomputeOrMigrate.General.Autoregression
import RecomputeOrMigrate.General.Pages
import RecomputeOrMigrate.KVStore

open autoregression calls copies runs

namespace distserve

variable {κ : Type}

/-- The calls that read the cache of other workers. -/
def RemoteCall.isMigration : RemoteCall → Bool
  | .migrate_blocks .. => true
  | _ => false

/-! ## The workers of one engine -/

/-- The workers of an engine together: their key-value cache and swap space, how many of the
calls of the engine they ran, and the results of `step` that the engine did not take yet. -/
structure Workers (κ : Type) where
  memory : kv_store.Devices (Nat → κ)
  executed : Nat
  results : List (List TokenId)

/-- What a call `step` sends, request by request. -/
def sentRequests (input_tokens_batched : List (List TokenId)) (first_token_indexes : List Nat)
    (block_table : List (List Nat)) : List Sent :=
  (input_tokens_batched.zip (first_token_indexes.zip block_table)).map
    fun (input, first, table) => ⟨input, first, table⟩

section Forward

variable (model : Model TokenId κ) (block_size : Nat)

/-- `self.model.forward` for one request. It reads the keys and values of the positions
before the first new one and writes those of the new tokens. -/
def forward_one (gpu : pages.Memory κ) (x : Sent) : pages.Memory κ × TokenId :=
  let past := pages.read block_size gpu x.block_table x.first_token_index
  let entries := model.extend past x.input_tokens
  (pages.write block_size gpu x.block_table x.first_token_index (entries.drop past.length),
    model.next entries)

/-- `self.model.forward`: one token for each request. -/
def forward : pages.Memory κ → List Sent → pages.Memory κ × List TokenId
  | gpu, [] => (gpu, [])
  | gpu, x :: rest =>
    let (gpu, token) := forward_one model block_size gpu x
    let (gpu, tokens) := forward gpu rest
    (gpu, token :: tokens)

namespace Workers

/-- A call that needs no other workers. -/
def run_call (w : Workers κ) : RemoteCall → Workers κ
  | .step _ input_tokens_batched first_token_indexes block_table =>
    let (gpu, tokens) := forward model block_size w.memory.gpu
      (sentRequests input_tokens_batched first_token_indexes block_table)
    { w with memory := { w.memory with gpu }, results := w.results ++ [tokens] }
  | c => { w with memory := kv_store.run_call w.memory c }

/-- `migrate_blocks`, which reads the cache of the context workers. -/
def migrate_blocks (w : Workers κ) (context_gpu : pages.Memory κ)
    (context_block_indexes decoding_block_indexes : List Nat) : Workers κ :=
  { w with memory := { w.memory with
    gpu := copyAll context_gpu w.memory.gpu (context_block_indexes.zip decoding_block_indexes) } }

/-- A call of the decoding engine. -/
def run_decoding_call (w : Workers κ) (context_gpu : pages.Memory κ) : RemoteCall → Workers κ
  | .migrate_blocks context_block_indexes _ decoding_block_indexes =>
    w.migrate_blocks context_gpu context_block_indexes decoding_block_indexes
  | c => w.run_call model block_size c

/-- The calls that wait for the workers. -/
def pending (w : Workers κ) (m : BlockManager) : List RemoteCall := m.remote_calls.drop w.executed

end Workers

end Forward

/-! ## The deployment -/

/-- The engines of `LLMEngine` with the workers of both. -/
structure Deployment (κ : Type) where
  engines : Engines
  context_workers : Workers κ
  decoding_workers : Workers κ

namespace Deployment

/-- At first, the caches hold anything. -/
def create (c : EnginesConfig) (context_memory decoding_memory : kv_store.Devices (Nat → κ)) :
    Deployment κ where
  engines := .create c
  context_workers := ⟨context_memory, 0, []⟩
  decoding_workers := ⟨decoding_memory, 0, []⟩

/-- One of the loops goes on, a request arrives, or workers run their next call. -/
inductive Action
  | add_request (request : Request)
  | context_begin_step (now : Nat)
  | context_wake
  | context_batch_returns
  | bridge_get
  | decoding_begin_step (now : Nat)
  | decoding_wake
  | decoding_batch_returns
  | migration_ends
  | context_workers_run
  | decoding_workers_run

variable (decode : Tokenizer) (model : Model TokenId κ)

/-- An action of the engines. The workers go on with what they have. -/
def engines_act (s : Deployment κ) (a : Engines.Action) :
    Option (Except PyError (Deployment κ)) :=
  (Engines.step decode s.engines a).map fun result => do
    let engines ← result
    return { s with engines }

/-- One action. A batch returns with the earliest result that its engine did not take, and
a migration ends when no `migrate_blocks` waits for the workers any more. -/
def step : Machine PyError (Deployment κ) Action := fun s a =>
  match a with
  | .add_request request => s.engines_act decode (.add_request request)
  | .context_begin_step now => s.engines_act decode (.context_begin_step now)
  | .context_wake => s.engines_act decode .context_wake
  | .context_batch_returns =>
    match s.context_workers.results with
    | [] => none
    | generated_tokens_ids :: rest =>
      engines_act decode { s with context_workers := { s.context_workers with results := rest } }
        (.context_batch_returns generated_tokens_ids)
  | .bridge_get => s.engines_act decode .bridge_get
  | .decoding_begin_step now => s.engines_act decode (.decoding_begin_step now)
  | .decoding_wake => s.engines_act decode .decoding_wake
  | .decoding_batch_returns =>
    match s.decoding_workers.results with
    | [] => none
    | generated_tokens_ids :: rest =>
      engines_act decode { s with decoding_workers := { s.decoding_workers with results := rest } }
        (.decoding_batch_returns generated_tokens_ids)
  | .migration_ends =>
    if (s.decoding_workers.pending s.engines.decoding_engine.block_manager).any
      RemoteCall.isMigration then none
    else s.engines_act decode .migration_ends
  | .context_workers_run =>
    match s.context_workers.pending s.engines.context_engine.block_manager with
    | [] => none
    | c :: _ =>
      some (.ok { s with
        context_workers :=
          { s.context_workers.run_call model
              s.engines.context_engine.block_manager.cache_config.block_size c with
            executed := s.context_workers.executed + 1 } })
  | .decoding_workers_run =>
    match s.decoding_workers.pending s.engines.decoding_engine.block_manager with
    | [] => none
    | c :: _ =>
      some (.ok { s with
        decoding_workers :=
          { s.decoding_workers.run_decoding_call model
              s.engines.decoding_engine.block_manager.cache_config.block_size
              s.context_workers.memory.gpu c with
            executed := s.decoding_workers.executed + 1 } })

end Deployment

end distserve
