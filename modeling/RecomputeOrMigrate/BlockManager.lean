-- The block manager (block_manager.py): which request owns which key-value
-- blocks, on the GPU or on the CPU, and the calls that it sends to the workers.
import Mathlib.Data.List.AList
import RecomputeOrMigrate.General.Calls
import RecomputeOrMigrate.Request

open calls

namespace distserve

/-- A remote call on every worker of one engine. -/
inductive RemoteCall
  | wait_for_all_swap_out
  | wait_for_all_swap_in
  | swap_blocks (requests : List Request) (source_block_ids target_block_ids : List Nat)
      (is_swap_in : Bool)
  | step (request_ids : List RequestId) (input_tokens_batched : List (List TokenId))
      (first_token_indexes : List Nat) (block_table : List (List Nat))
  | migrate_blocks (context_block_indexes : List Nat) (context_parallel_config : ParallelConfig)
      (decoding_block_indexes : List Nat)
  | clear_request_resource (request_id : RequestId)
  | clear_request_resource_batched (requests : List Request)
deriving DecidableEq

/-- The blocks of one device that no request owns. The last swap that used a
block of `swapping_blocks_list` as its source may still run. -/
structure BlockPool where
  free_blocks_list : List Nat
  swapping_blocks_list : List Nat
deriving DecidableEq

/-- `BlockManager`. The pool `gpu` is `free_gpu_blocks_list` with
`swapping_gpu_blocks_list`, and `cpu` is the same for the CPU. The list
`remote_calls` holds all that the engine sent to its workers, oldest first. -/
structure BlockManager where
  max_num_gpu_blocks : Nat
  max_num_cpu_blocks : Nat
  cache_config : CacheConfig
  gpu : BlockPool
  cpu : BlockPool
  block_table : AList fun _ : RequestId => List Nat
  request_location : AList fun _ : RequestId => BlockLocation
  remote_calls : List RemoteCall

namespace BlockManager

/-- `BlockManager.__init__`. -/
def create (max_num_gpu_blocks max_num_cpu_blocks : Nat) (cache_config : CacheConfig) :
    BlockManager where
  max_num_gpu_blocks
  max_num_cpu_blocks
  cache_config
  gpu := ⟨List.range max_num_gpu_blocks, []⟩
  cpu := ⟨List.range max_num_cpu_blocks, []⟩
  block_table := ∅
  request_location := ∅
  remote_calls := []

/-! ## The fields by location -/

def max_num_blocks (s : BlockManager) : BlockLocation → Nat
  | .GPU => s.max_num_gpu_blocks
  | .CPU => s.max_num_cpu_blocks

def pool (s : BlockManager) : BlockLocation → BlockPool
  | .GPU => s.gpu
  | .CPU => s.cpu

def withPool (s : BlockManager) (location : BlockLocation) (p : BlockPool) : BlockManager :=
  match location with
  | .GPU => { s with gpu := p }
  | .CPU => { s with cpu := p }

/-- `self.free_gpu_blocks_list += blocks`, and the same for the CPU. -/
def addFree (s : BlockManager) (location : BlockLocation) (blocks : List Nat) : BlockManager :=
  s.withPool location { s.pool location with
    free_blocks_list := (s.pool location).free_blocks_list ++ blocks }

/-- `self.swapping_gpu_blocks_list += blocks`, and the same for the CPU. -/
def addSwapping (s : BlockManager) (location : BlockLocation) (blocks : List Nat) :
    BlockManager :=
  s.withPool location { s.pool location with
    swapping_blocks_list := (s.pool location).swapping_blocks_list ++ blocks }

/-- `self.block_table[request_id] = blocks`. -/
def setTable (s : BlockManager) (request_id : RequestId) (blocks : List Nat) : BlockManager :=
  { s with block_table := s.block_table.insert request_id blocks }

/-- `self.request_location[request_id] = location`. -/
def setLocation (s : BlockManager) (request_id : RequestId) (location : BlockLocation) :
    BlockManager :=
  { s with request_location := s.request_location.insert request_id location }

/-- `self.block_table.pop(request_id)` and `self.request_location.pop(request_id)`. -/
def popTable (s : BlockManager) (request_id : RequestId) : BlockManager :=
  { s with
    block_table := s.block_table.erase request_id
    request_location := s.request_location.erase request_id }

/-- `engine_remote_call_all_workers_async`. -/
def remote_call_all_workers_async (s : BlockManager) (c : RemoteCall) : BlockManager :=
  { s with remote_calls := s.remote_calls ++ [c] }

/-! ## The methods -/

/-- `get_num_avail_gpu_blocks` and `get_num_avail_cpu_blocks`. -/
def get_num_avail_blocks (s : BlockManager) (location : BlockLocation) : Nat :=
  (s.pool location).free_blocks_list.length + (s.pool location).swapping_blocks_list.length

/-- Swap-outs leave GPU blocks behind, and swap-ins leave CPU blocks behind. -/
def wait_for_all_swap : BlockLocation → RemoteCall
  | .GPU => .wait_for_all_swap_out
  | .CPU => .wait_for_all_swap_in

/-- The flush in `_get_free_blocks`: wait for the swaps, then the blocks are free. -/
def flush (s : BlockManager) (location : BlockLocation) : BlockManager :=
  (s.remote_call_all_workers_async (wait_for_all_swap location)).withPool location
    ⟨(s.pool location).free_blocks_list ++ (s.pool location).swapping_blocks_list, []⟩

/-- The slice in `_get_free_blocks`: the first `num_blocks` free blocks go. -/
def takeFree (s : BlockManager) (location : BlockLocation) (num_blocks : Nat) : BlockManager :=
  s.withPool location { s.pool location with
    free_blocks_list := (s.pool location).free_blocks_list.drop num_blocks }

/-- `_get_free_blocks`. -/
def get_free_blocks (num_blocks : Nat) (location : BlockLocation) :
    Call PyError BlockManager (List Nat) := do
  let s ← get
  let num_avail_blocks := s.get_num_avail_blocks location
  assert (num_blocks ≤ num_avail_blocks)
    (.not_enough_free_blocks location num_blocks num_avail_blocks)
  modify fun s =>
    if (s.pool location).free_blocks_list.length < num_blocks then s.flush location else s
  let s ← get
  modify fun s => s.takeFree location num_blocks
  return (s.pool location).free_blocks_list.take num_blocks

def get_allocated_num_blocks (s : BlockManager) (request_id : RequestId) : Nat :=
  ((s.block_table.lookup request_id).getD []).length

/-- `get_location`. -/
def get_location (s : BlockManager) (request_id : RequestId) : Option BlockLocation :=
  s.request_location.lookup request_id

def get_num_blocks_needed (s : BlockManager) (request : Request) : Nat :=
  s.cache_config.blocks_for (request.get_input_len + request.get_output_len)

/-- `self.request_location[request_id]`. -/
def locationOf (request_id : RequestId) : Call PyError BlockManager BlockLocation := do
  let s ← get
  match s.request_location.lookup request_id with
  | some location => return location
  | none => throw (.key_error request_id)

def allocate_blocks (request : Request) : Call PyError BlockManager Unit := do
  let s ← get
  assert (request.request_id ∉ s.block_table ∨ s.get_location request.request_id = some .GPU)
    (.currently_on_cpu request.request_id)
  let num_blocks_needed := s.get_num_blocks_needed request
  match s.block_table.lookup request.request_id with
  | none =>
    let blocks ← get_free_blocks num_blocks_needed .GPU
    modify fun s => (s.setTable request.request_id blocks).setLocation request.request_id .GPU
  | some table =>
    if table.length < num_blocks_needed then
      let blocks ← get_free_blocks (num_blocks_needed - table.length) .GPU
      modify fun s => s.setTable request.request_id (table ++ blocks)

def allocate_blocks_batched (requests : List Request) : Call PyError BlockManager Unit :=
  requests.forM allocate_blocks

def free_blocks (request_id : RequestId) : Call PyError BlockManager Unit := do
  let s ← get
  match s.block_table.lookup request_id with
  | none => throw (.not_allocated request_id)
  | some table =>
    let location ← locationOf request_id
    modify fun s => s.addFree location table
    modify fun s => s.popTable request_id

def free_blocks_batched (requests : List Request) : Call PyError BlockManager Unit :=
  requests.forM fun request => free_blocks request.request_id

def get_block_table (request_id : RequestId) : Call PyError BlockManager (List Nat) := do
  let s ← get
  match s.block_table.lookup request_id with
  | none => throw (.not_allocated request_id)
  | some table => return table

def get_partial_block_table (request_ids : List RequestId) :
    Call PyError BlockManager (List (List Nat)) :=
  request_ids.mapM get_block_table

/-- The loop of `swap_requests`, with the source and target blocks so far. -/
def swap_loop (cur_location target_location : BlockLocation) :
    List Request → List Nat → List Nat → Call PyError BlockManager (List Nat × List Nat)
  | [], source_block_ids, target_block_ids => return (source_block_ids, target_block_ids)
  | request :: rest, source_block_ids, target_block_ids => do
    let s ← get
    match s.block_table.lookup request.request_id with
    | none => throw (.not_allocated request.request_id)
    | some old_block_ids =>
      let location ← locationOf request.request_id
      assert (location = cur_location) (.is_on_now request.request_id target_location)
      let new_block_ids ← get_free_blocks old_block_ids.length target_location
      modify fun s => (s.setTable request.request_id new_block_ids).setLocation
        request.request_id target_location
      modify fun s => s.addSwapping cur_location old_block_ids
      swap_loop cur_location target_location rest (source_block_ids ++ old_block_ids)
        (target_block_ids ++ new_block_ids)

def swap_requests (requests : List Request) (is_swap_in : Bool) :
    Call PyError BlockManager Unit := do
  let cur_location : BlockLocation := if is_swap_in then .CPU else .GPU
  let target_location : BlockLocation := if is_swap_in then .GPU else .CPU
  let (source_block_ids, target_block_ids) ← swap_loop cur_location target_location requests [] []
  modify fun s => s.remote_call_all_workers_async
    (.swap_blocks requests source_block_ids target_block_ids is_swap_in)

def swap_in_requests (requests : List Request) : Call PyError BlockManager Unit :=
  swap_requests requests true

def swap_out_requests (requests : List Request) : Call PyError BlockManager Unit :=
  swap_requests requests false

/-- The loop of `is_all_requests_on_gpu`. It indexes `request_location`. -/
def is_all_requests_on_gpu : List Request → Call PyError BlockManager Bool
  | [] => return true
  | request :: rest => do
    let location ← locationOf request.request_id
    if location = .CPU then return false
    is_all_requests_on_gpu rest

end BlockManager

end distserve
