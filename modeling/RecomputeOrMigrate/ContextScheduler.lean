-- The scheduler of the context stage (context_stage_scheduler.py).
import RecomputeOrMigrate.BlockManager

namespace distserve

/-- `ContextStageFCFSScheduler` with its limits. The block manager is the one of the
engine. Of the requests in `unaccepted_queue`, only the id and the prompt are read. -/
structure ContextStageFCFSScheduler where
  max_batch_size : Nat
  max_tokens_per_batch : Nat
  block_manager : BlockManager
  waiting_queue : List Request
  unaccepted_queue : List Request
  num_on_fly_request_block : Int

namespace ContextStageFCFSScheduler

def add_request (s : ContextStageFCFSScheduler) (request : Request) : ContextStageFCFSScheduler :=
  { s with waiting_queue := s.waiting_queue ++ [request] }

/-- `_get_block_needed`. -/
def get_block_needed (s : ContextStageFCFSScheduler) (length : Nat) : Nat :=
  s.block_manager.cache_config.blocks_for length

/-- The sum of `_get_block_needed` over the prompts of some requests. -/
def blocks_of (s : ContextStageFCFSScheduler) (requests : List Request) : Nat :=
  (requests.map fun req => s.get_block_needed req.get_input_len).sum

/-- `_check_add_to_cur_batch`: the batch size, the tokens and the GPU blocks. -/
def check_add_to_cur_batch (s : ContextStageFCFSScheduler) (next_batch : BatchedRequests)
    (request : Request) : Bool :=
  next_batch.requests.length < s.max_batch_size &&
  next_batch.get_num_input_tokens + request.get_num_input_tokens ≤ s.max_tokens_per_batch &&
  (s.blocks_of (next_batch.requests ++ [request]) : Int) + s.blocks_of s.unaccepted_queue +
    s.num_on_fly_request_block ≤ s.block_manager.max_num_gpu_blocks

/-- The loop of `get_next_batch_and_pop`, with the batch so far and the waiting queue. -/
def fill_batch (s : ContextStageFCFSScheduler) (next_batch : BatchedRequests) :
    List Request → Except PyError (BatchedRequests × List Request)
  | [] => return (next_batch, [])
  | request :: rest =>
    if s.check_add_to_cur_batch next_batch request then do
      let next_batch ← next_batch.add_request request
      fill_batch s next_batch rest
    else return (next_batch, request :: rest)

def get_next_batch_and_pop (s : ContextStageFCFSScheduler) :
    Except PyError (BatchedRequests × ContextStageFCFSScheduler) := do
  let (next_batch, waiting_queue) ← s.fill_batch .empty s.waiting_queue
  return (next_batch,
    { s with
      waiting_queue
      num_on_fly_request_block := s.num_on_fly_request_block + s.blocks_of next_batch.requests })

/-- The requests that go on to the decoding stage wait there to be accepted. -/
def on_finish_requests (s : ContextStageFCFSScheduler) (batch : BatchedRequests) :
    ContextStageFCFSScheduler :=
  { s with
    unaccepted_queue := s.unaccepted_queue ++ batch.requests.filter (fun r => !r.is_finished)
    num_on_fly_request_block := s.num_on_fly_request_block - s.blocks_of batch.requests }

/-- The first request with the id of the migrated one goes. -/
def on_request_migrated (s : ContextStageFCFSScheduler) (migrated_request : MigratingRequest) :
    ContextStageFCFSScheduler :=
  { s with unaccepted_queue := s.unaccepted_queue.eraseP fun request =>
      request.request_id == migrated_request.req.request_id }

end ContextStageFCFSScheduler

end distserve
