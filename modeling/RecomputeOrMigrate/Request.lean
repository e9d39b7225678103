-- A request and a batch of requests (request.py): what a request sends to the
-- workers, and when it is finished.
import Mathlib.Algebra.Order.Ring.Nat
import RecomputeOrMigrate.Errors

namespace distserve

/-! ## The configuration -/

/-- `CacheConfig`. A block holds one token or more. -/
structure CacheConfig where
  block_size : Nat
  block_size_pos : 0 < block_size
deriving DecidableEq

/-- The blocks that hold `length` tokens, as `get_num_blocks_needed` and both
functions `_get_block_needed` count them. -/
def CacheConfig.blocks_for (c : CacheConfig) (length : Nat) : Nat :=
  (length + c.block_size - 1) / c.block_size

/-- `ParallelConfig`. -/
structure ParallelConfig where
  tensor_parallel_size : Nat
  pipeline_parallel_size : Nat
  tensor_parallel_size_pos : 0 < tensor_parallel_size
  pipeline_parallel_size_pos : 0 < pipeline_parallel_size
deriving DecidableEq

/-- `SamplingParams`. `_verify_args` raises when `max_tokens` is below 1. -/
structure SamplingParams where
  stop : List String
  ignore_eos : Bool
  max_tokens : Nat
  max_tokens_pos : 1 ≤ max_tokens
deriving DecidableEq

/-! ## One request -/

/-- `Request`. The two token lists always have one length, so the assertion of
`get_output_len` cannot fail. -/
structure Request where
  request_id : RequestId
  prompt_token_ids : List TokenId
  sampling_params : SamplingParams
  generated_tokens : List String
  generated_token_ids : List TokenId
  is_finished : Bool
  tokens_paired : generated_tokens.length = generated_token_ids.length
deriving DecidableEq

namespace Request

theorem paired_nil : ([] : List String).length = ([] : List TokenId).length := rfl

/-- `Request.__init__`. -/
def create (request_id : RequestId) (prompt_token_ids : List TokenId)
    (sampling_params : SamplingParams) : Request where
  request_id
  prompt_token_ids
  sampling_params
  generated_tokens := []
  generated_token_ids := []
  is_finished := false
  tokens_paired := paired_nil

def get_input_len (r : Request) : Nat := r.prompt_token_ids.length

def get_output_len (r : Request) : Nat := r.generated_token_ids.length

def is_context_stage (r : Request) : Bool := r.generated_tokens.length == 0

/-- `_check_finish_condition`. -/
def check_finish_condition (r : Request) : Request :=
  let r :=
    if r.sampling_params.max_tokens ≤ r.get_output_len then { r with is_finished := true } else r
  if r.sampling_params.ignore_eos then r
  else if r.generated_tokens.getLast?.any (· ∈ r.sampling_params.stop) then
    { r with is_finished := true }
  else r

theorem paired_append (r : Request) (token : String) (token_id : TokenId) :
    (r.generated_tokens ++ [token]).length = (r.generated_token_ids ++ [token_id]).length := by
  simp [r.tokens_paired]

/-- `add_generated_token`. The test is `>`, not `>=`. -/
def add_generated_token (r : Request) (token : String) (token_id : TokenId) :
    Except PyError Request :=
  if r.sampling_params.max_tokens < r.get_output_len then
    throw (.tokens_exceed r.sampling_params.max_tokens r.request_id)
  else
    return check_finish_condition
      { r with
        generated_tokens := r.generated_tokens ++ [token]
        generated_token_ids := r.generated_token_ids ++ [token_id]
        tokens_paired := r.paired_append token token_id }

/-- `get_input_tokens_ids`: the prompt in the context stage, and the newest
token in the decoding stage. -/
def get_input_tokens_ids (r : Request) : List TokenId :=
  if r.is_context_stage then r.prompt_token_ids else r.generated_token_ids.getLast?.toList

def get_num_input_tokens (r : Request) : Nat := r.get_input_tokens_ids.length

/-- `get_first_new_token_index`. -/
def get_first_new_token_index (r : Request) : Nat :=
  if r.is_context_stage then 0 else r.get_input_len + r.get_output_len - 1

end Request

/-! ## A batch -/

/-- `BatchedRequests`. Of `start_time`, the code only asks whether it is there. -/
structure BatchedRequests where
  requests : List Request
  start_time : Option Nat
deriving DecidableEq

namespace BatchedRequests

/-- `BatchedRequests()`. -/
def empty : BatchedRequests := ⟨[], none⟩

def get_request_ids (b : BatchedRequests) : List RequestId := b.requests.map (·.request_id)

def get_num_input_tokens (b : BatchedRequests) : Nat :=
  (b.requests.map Request.get_num_input_tokens).sum

def get_input_tokens_batched (b : BatchedRequests) : List (List TokenId) :=
  b.requests.map Request.get_input_tokens_ids

def get_first_token_indexes (b : BatchedRequests) : List Nat :=
  b.requests.map Request.get_first_new_token_index

def add_request (b : BatchedRequests) (request : Request) : Except PyError BatchedRequests :=
  if request.request_id ∈ b.get_request_ids then throw (.already_exists request.request_id)
  else return { b with requests := b.requests ++ [request] }

/-- `pop_finished_requests`: the finished requests, and the batch without them. -/
def pop_finished_requests (b : BatchedRequests) : List Request × BatchedRequests :=
  (b.requests.filter (·.is_finished),
    { b with requests := b.requests.filter (fun r => !r.is_finished) })

def start_one_iteration (b : BatchedRequests) (start_time : Nat) :
    Except PyError BatchedRequests :=
  if b.start_time = none then return { b with start_time := some start_time }
  else throw .already_started

/-- The loop of `finish_one_iteration`. `zip` stops at the shortest list. -/
def add_generated_tokens : List Request → List String → List TokenId →
    Except PyError (List Request)
  | r :: rs, t :: ts, i :: is => do
    let r ← r.add_generated_token t i
    let rs ← add_generated_tokens rs ts is
    return r :: rs
  | rs, _, _ => return rs

def finish_one_iteration (b : BatchedRequests) (generated_tokens : List String)
    (generated_tokens_ids : List TokenId) : Except PyError BatchedRequests :=
  if b.start_time = none then throw .not_started
  else do
    let requests ← add_generated_tokens b.requests generated_tokens generated_tokens_ids
    return ⟨requests, none⟩

end BatchedRequests

/-- `MigratingRequest`: a request that finished the context stage, with its
blocks on the context side. -/
structure MigratingRequest where
  req : Request
  block_indexes : List Nat
  context_parallel_config : ParallelConfig
deriving DecidableEq

end distserve
