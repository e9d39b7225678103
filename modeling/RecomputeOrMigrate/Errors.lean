-- The exceptions that the engines raise, and the text that `str(exc)` gives.

namespace distserve

/-- The unique id of a request. -/
abbrev RequestId := Nat

abbrev TokenId := Int

/-- The location of a block. -/
inductive BlockLocation
  | GPU
  | CPU
deriving DecidableEq, Repr

def BlockLocation.name : BlockLocation → String
  | .GPU => "GPU"
  | .CPU => "CPU"

/-- An exception of the source, with the values that its text shows. -/
inductive PyError
  | not_enough_free_blocks (location : BlockLocation) (requested available : Nat)
  | currently_on_cpu (request_id : RequestId)
  | not_allocated (request_id : RequestId)
  | is_on_now (request_id : RequestId) (location : BlockLocation)
  | key_error (key : Nat)
  | already_exists (request_id : RequestId)
  | already_started
  | not_started
  | tokens_exceed (max_tokens : Nat) (request_id : RequestId)
  | pop_from_empty_list
  | list_index_out_of_range
  | swapped_out_to_cpu
  /-- The assertion of `_migrate_blocks` on the two table lengths has no text. -/
  | block_counts_differ
  | no_attribute (class_name attr : String)
  | target_not_registered (worker_idx : Nat)
  /-- The assertion of `create_request` on the prompt has no text. -/
  | prompt_missing
  | no_prompts
  | prompt_lengths_differ
  | sampling_params_differ (num_requests num_sampling_params : Nat)
  | empty_prefill_time_table
  | division_by_zero
  | integer_division_by_zero
  | int_too_large
  | quotient_too_large
  | layers_not_divisible (num_layers pipeline_parallel_size : Nat)
  | heads_not_divisible (num_heads tensor_parallel_size : Nat)
  /-- The assertion of `_init_placement_groups` has no text. -/
  | worker_counts_differ
  | no_source_workers (request_id : RequestId)
  | all_sources_exhausted (request_id : RequestId) (last_exc : String)
  /-- An exception that a remote call gives back. -/
  | remote (text : String)
deriving DecidableEq, Repr

def PyError.text : PyError → String
  | .not_enough_free_blocks l n k =>
    s!"not enough free blocks on {l.name}, requested {n}, available {k}"
  | .currently_on_cpu r =>
    s!"request {r} is currently on CPU. Please migrate it to GPU before allocating ore blocks"
  | .not_allocated r => s!"request {r} not allocated"
  | .is_on_now r l => s!"request {r} is on BlockLocation.{l.name} now"
  | .key_error k => s!"{k}"
  | .already_exists r => s!"request {r} already exists"
  | .already_started => "the batch has already started one iteration"
  | .not_started => "the batch has not been started"
  | .tokens_exceed m r =>
    s!"The generated tokens exceed the maximum output length {m}                for request {r}."
  | .pop_from_empty_list => "pop from empty list"
  | .list_index_out_of_range => "list index out of range"
  | .swapped_out_to_cpu => "Some requests are currently swapped out to CPU"
  | .block_counts_differ => ""
  | .no_attribute c a => s!"'{c}' object has no attribute '{a}'"
  | .target_not_registered w => s!"Target worker {w} is not registered"
  | .prompt_missing => ""
  | .no_prompts => "prompts or prompt_token_ids must be provided"
  | .prompt_lengths_differ => "The lengths of prompts and prompt_token_ids must be the same."
  | .sampling_params_differ n m =>
    "prompts should pair with the list of sampling parameters,                  " ++
      s!"but got {n} prompts and {m} sampling parameters"
  | .empty_prefill_time_table => "prefill_time_table must not be empty"
  | .division_by_zero => "division by zero"
  | .integer_division_by_zero => "integer division or modulo by zero"
  | .int_too_large => "int too large to convert to float"
  | .quotient_too_large => "integer division result too large for a float"
  | .layers_not_divisible n p =>
    s!"Number of layers ({n}) must be divisible by the size of pipeline parallel group ({p})."
  | .heads_not_divisible n t =>
    s!"Total number of attention heads ({n}) must be divisible by the size of tensor " ++
      s!"parallel group ({t})."
  | .worker_counts_differ => ""
  | .no_source_workers r =>
    s!"pull_kv_blocks_for_request: no source workers available for request {r}"
  | .all_sources_exhausted r last_exc =>
    s!"pull_kv_blocks_for_request: all sources exhausted for request {r}: {last_exc}"
  | .remote t => t

end distserve
