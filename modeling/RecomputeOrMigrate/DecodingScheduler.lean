-- The scheduler of the decoding stage (decoding_stage_scheduler.py).
import Mathlib.Data.Rat.Defs
import Mathlib.Algebra.Order.Ring.Rat
import RecomputeOrMigrate.BlockManager

open calls

namespace distserve

/-- `DecodingStageFCFSScheduler` with its limits. The block manager is the one of the
engine. The batches are objects that the engine also holds, so a batch is known by
its index in `batch_queues`. -/
structure DecodingStageFCFSScheduler where
  max_batch_size : Nat
  max_tokens_per_batch : Nat
  waiting_block_prop_threshold : ℚ
  parallel_config : ParallelConfig
  block_manager : BlockManager
  unaccepted_queue : List MigratingRequest
  waiting_queue : List Request
  swapped_queue : List Request
  cur_index : Int
  batch_queues : List BatchedRequests

namespace DecodingStageFCFSScheduler

/-- `_get_block_needed`. -/
def get_block_needed (s : DecodingStageFCFSScheduler) (length : Nat) : Nat :=
  s.block_manager.cache_config.blocks_for length

/-- `self.batch_queues[index]`. -/
def batch (s : DecodingStageFCFSScheduler) (index : Nat) : BatchedRequests :=
  s.batch_queues.getD index .empty

def setBatch (s : DecodingStageFCFSScheduler) (index : Nat) (b : BatchedRequests) :
    DecodingStageFCFSScheduler :=
  { s with batch_queues := s.batch_queues.set index b }

/-- `self.cur_index` where it is used as an index, so after `get_next_batch` began. -/
def cur (s : DecodingStageFCFSScheduler) : Nat := s.cur_index.toNat

/-- `(self.cur_index + 1) % self.parallel_config.pipeline_parallel_size`. -/
def next_index (s : DecodingStageFCFSScheduler) : Int :=
  (s.cur_index + 1) % s.parallel_config.pipeline_parallel_size

/-- The blocks that a request in a batch needs. -/
def needed (s : DecodingStageFCFSScheduler) (request : Request) : Nat :=
  s.get_block_needed (request.get_input_len + request.get_output_len)

/-- The sum over all batches. -/
def needed_by_batches (s : DecodingStageFCFSScheduler) : Nat :=
  ((List.range s.parallel_config.pipeline_parallel_size).map fun index =>
    ((s.batch index).requests.map s.needed).sum).sum

/-- The sum over the waiting queue, which counts the prompts only. -/
def needed_by_waiting (s : DecodingStageFCFSScheduler) : Nat :=
  (s.waiting_queue.map fun req => s.get_block_needed req.get_input_len).sum

/-- `_check_add_to_cur_batch`: the batch size, the tokens and the GPU blocks. -/
def check_add_to_cur_batch (s : DecodingStageFCFSScheduler) (request : Request) : Bool :=
  (s.batch s.cur).requests.length < s.max_batch_size &&
  (s.batch s.cur).get_num_input_tokens + request.get_num_input_tokens ≤ s.max_tokens_per_batch &&
  s.needed_by_batches + s.needed_by_waiting + s.needed request ≤ s.block_manager.max_num_gpu_blocks

/-- `add_request`. It never waits. -/
def add_request (s : DecodingStageFCFSScheduler) (migrating_req : MigratingRequest) :
    DecodingStageFCFSScheduler :=
  { s with unaccepted_queue := s.unaccepted_queue ++ [migrating_req] }

/-- `_get_last_stage_batch`, as an index. -/
def last_stage_index (s : DecodingStageFCFSScheduler) : Nat := s.next_index.toNat

/-- `pop_finished_requests`, on the batch of the last stage. -/
def pop_finished_requests (s : DecodingStageFCFSScheduler) :
    List Request × DecodingStageFCFSScheduler :=
  let (finished, b) := (s.batch s.last_stage_index).pop_finished_requests
  (finished, s.setBatch s.last_stage_index b)

/-! ## `get_next_batch` -/

/-- The test of the first loop: the batches and the waiting queue need too much. -/
def overcommitted (s : DecodingStageFCFSScheduler) : Prop :=
  s.block_manager.max_num_gpu_blocks < s.needed_by_batches + s.needed_by_waiting

instance (s : DecodingStageFCFSScheduler) : Decidable s.overcommitted :=
  inferInstanceAs (Decidable (_ < _))

/-- The loop that swaps out. Each turn takes the last request of the current batch,
so there are at most as many turns as requests, and then `pop(-1)` raises. -/
def swap_out_loop : Nat → DecodingStageFCFSScheduler → Except PyError DecodingStageFCFSScheduler
  | 0, s => if s.overcommitted then .error .pop_from_empty_list else .ok s
  | turns + 1, s =>
    if s.overcommitted then
      match (s.batch s.cur).requests.getLast? with
      | none => .error .pop_from_empty_list
      | some request => do
        let s := s.setBatch s.cur
          { s.batch s.cur with requests := (s.batch s.cur).requests.dropLast }
        let s := { s with swapped_queue := s.swapped_queue ++ [request] }
        let (_, m) ← run (BlockManager.swap_out_requests [request]) s.block_manager
        swap_out_loop turns { s with block_manager := m }
    else .ok s

/-- The loop that adds requests, first those of the swapped queue. Each turn takes
one request from a queue, so it ends when both are empty. -/
def admit_loop : Nat → DecodingStageFCFSScheduler → Except PyError DecodingStageFCFSScheduler
  | 0, s => .ok s
  | turns + 1, s =>
    match s.swapped_queue, s.waiting_queue with
    | request :: rest, _ =>
      if s.check_add_to_cur_batch request then do
        let (_, m) ← run (BlockManager.swap_in_requests [request]) s.block_manager
        let s := { s with block_manager := m }
        let b ← (s.batch s.cur).add_request request
        admit_loop turns { s.setBatch s.cur b with swapped_queue := rest }
      else .ok s
    | [], request :: rest =>
      if s.check_add_to_cur_batch request then do
        let b ← (s.batch s.cur).add_request request
        admit_loop turns { s.setBatch s.cur b with waiting_queue := rest }
      else .ok s
    | [], [] => .ok s

/-- `get_next_batch`. The batch that it returns is the one of `cur`. -/
def get_next_batch (s : DecodingStageFCFSScheduler) :
    Except PyError DecodingStageFCFSScheduler := do
  let s := { s with cur_index := s.next_index }
  let s ← swap_out_loop (s.batch s.cur).requests.length s
  admit_loop (s.swapped_queue.length + s.waiting_queue.length) s

/-! ## `post_process` -/

/-- `should_accept`. -/
def should_accept (s : DecodingStageFCFSScheduler) (migrating_req : MigratingRequest) : Bool :=
  (s.needed_by_waiting : ℚ) < s.block_manager.max_num_gpu_blocks * s.waiting_block_prop_threshold &&
  s.get_block_needed migrating_req.req.get_input_len ≤ s.block_manager.get_num_avail_blocks .GPU

end DecodingStageFCFSScheduler

end distserve
