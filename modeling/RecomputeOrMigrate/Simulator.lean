-- The simulated run (base/worker.py, base/scheduler.py). The events of simpy are a list in the
-- order in which they are processed, and one step processes the first of them. A request is
-- known by its index in the workload.
import Mathlib.Logic.Function.Basic
import RecomputeOrMigrate.SimCluster
import RecomputeOrMigrate.SimRequest

open calls

namespace simdistserve

/-! ## The state -/

/-- What an event does when it is processed. -/
inductive Action
  /-- The first step of `Worker.run`. -/
  | start (wid : Nat)
  /-- The wakeup event of this number of a worker. -/
  | wakeup (wid number : Nat)
  /-- The end of the iteration of a worker. -/
  | iteration (wid : Nat)
  /-- The first step of `put_request_at_time`, and the end of its delay. -/
  | put_request (i : Nat)
  | arrival (i : Nat)
  /-- The end of the process of `put_request_at_time`. -/
  | process_end (i : Nat)
deriving DecidableEq

/-- An event of simpy. Priority 0 is urgent, 1 is normal. -/
structure Event where
  time : ℚ
  priority : Nat
  action : Action

def Event.before (a b : Event) : Prop :=
  a.time < b.time ∨ (a.time = b.time ∧ a.priority < b.priority)

instance (a b : Event) : Decidable (a.before b) :=
  inferInstanceAs (Decidable (a.time < b.time ∨ (a.time = b.time ∧ a.priority < b.priority)))

/-- A new event comes after the events with its time and priority. -/
def insert_event (e : Event) : List Event → List Event
  | [] => [e]
  | head :: rest => if e.before head then e :: head :: rest else head :: insert_event e rest

/-- Where the process of a worker is. -/
inductive Status
  | created
  /-- It waits for the wakeup event of this number. -/
  | suspended (number : Nat)
  | prefilling (prefill_items decode_reqs : List Nat)
  | decoding (decode_reqs : List Nat)
deriving DecidableEq

/-- The fields of a worker that change. `wakeup_event` is the number of its current event, and
those with lower numbers are triggered. -/
structure WorkerState where
  prefill_queue : List Nat
  decode_queue : List Nat
  prefill_ips : Nat
  wakeup_event : Nat
  status : Status

/-- The state between two events. `drawn` counts the chunk ids that were drawn. -/
structure Sim where
  now : ℚ
  queue : List Event
  workers : Nat → WorkerState
  requests : Nat → Request
  drawn : Nat

namespace Sim

def modify_request (s : Sim) (i : Nat) (f : Request → Request) : Sim :=
  { s with requests := Function.update s.requests i (f (s.requests i)) }

def modify_worker (s : Sim) (wid : Nat) (f : WorkerState → WorkerState) : Sim :=
  { s with workers := Function.update s.workers wid (f (s.workers wid)) }

/-- `Environment.schedule`. -/
def schedule (s : Sim) (action : Action) (priority : Nat) (delay : ℚ) : Sim :=
  { s with queue := insert_event ⟨s.now + delay, priority, action⟩ s.queue }

/-- `Environment.timeout`, with what its process does afterwards. -/
def timeout (s : Sim) (action : Action) (delay : ℚ) : Except SimError Sim :=
  if delay < 0 then .error (.negative_delay delay) else .ok (s.schedule action 1 delay)

/-! ## Forwarding -/

def wakeup (s : Sim) (wid : Nat) : Sim :=
  (s.schedule (.wakeup wid (s.workers wid).wakeup_event) 1 0).modify_worker wid fun w =>
    { w with wakeup_event := w.wakeup_event + 1 }

def push_prefill (s : Sim) (wid : Nat) (items : List Nat) : Sim :=
  s.modify_worker wid fun w => { w with prefill_queue := w.prefill_queue ++ items }

def push_decode (s : Sim) (wid : Nat) (items : List Nat) : Sim :=
  s.modify_worker wid fun w => { w with decode_queue := w.decode_queue ++ items }

def forward_prefill (s : Sim) (next_worker : Nat) (items : List Nat) : Sim :=
  if items = [] then s else (s.push_prefill next_worker items).wakeup next_worker

/-- `forward_decode` to the next worker. -/
def forward_decode (s : Sim) (next_worker : Nat) (items : List Nat) : Sim :=
  if items = [] then s else (s.push_decode next_worker items).wakeup next_worker

/-! ## The global scheduler -/

/-- The first of the workers with the least load. -/
def find_best_worker (load : Nat → Nat) : List Nat → Except SimError Nat
  | [] => .error .min_of_empty_sequence
  | wid :: rest => .ok (rest.foldl (fun best w => if load w < load best then w else best) wid)

def schedule_prefill (c : Cluster) (s : Sim) (i : Nat) : Except SimError Sim :=
  if (s.requests i).counter < 0 then do
    let wid ← find_best_worker
      (fun w => (s.workers w).prefill_ips + (s.workers w).prefill_queue.length) c.prefill_heads
    return (s.push_prefill wid [i]).wakeup wid
  else .error .assertion_failed

def schedule_decode (c : Cluster) (s : Sim) (i : Nat) : Except SimError Sim :=
  if (s.requests i).counter ≥ 0 then
    if (s.requests i).should_finish then
      .ok (s.modify_request i fun r => r.finish_decode s.now false none)
    else do
      let wid ← find_best_worker
        (fun w => (s.workers w).prefill_ips + (s.workers w).decode_queue.length) c.decode_heads
      let s := s.modify_request i fun r => r.wait_decode s.now (some wid)
      return (s.push_decode wid [i]).wakeup wid
  else .error .assertion_failed

def schedule_new_req (c : Cluster) (s : Sim) (i : Nat) : Except SimError Sim :=
  if (s.requests i).counter < 0 then schedule_prefill c s i else schedule_decode c s i

/-! ## Batches -/

def has_back_pressure (c : Cluster) (s : Sim) (wid : Nat) : Bool :=
  ((s.workers wid).decode_queue.map fun i => (s.requests i).current_context_len).sum >
    c.config.back_pressure_threshold

/-- The requests that are taken from the head of a decode queue, and the rest. -/
def take_decodes (requests : Nat → Request) : Nat → Nat → List Nat → List Nat × List Nat
  | 0, _, queue => ([], queue)
  | _ + 1, _, [] => ([], [])
  | n + 1, decode_max_tokens, req :: queue =>
    let tokens := (requests req).current_context_len + 1
    if tokens > decode_max_tokens then ([], req :: queue)
    else
      let (decode_reqs, rest) := take_decodes requests n (decode_max_tokens - tokens) queue
      (req :: decode_reqs, rest)

def enter_decodes (s : Sim) (wid remaining_tok_in_batch : Nat) : List Nat × Sim :=
  let decode_queue := (s.workers wid).decode_queue
  let decode_len := min remaining_tok_in_batch decode_queue.length
  let (decode_reqs, rest) := take_decodes s.requests decode_len 50000 decode_queue
  let s := s.modify_worker wid fun w => { w with decode_queue := rest }
  (decode_reqs, decode_reqs.foldl
    (fun s i => s.modify_request i fun r => r.do_decode s.now (some wid)) s)

/-- A worker that is not the first takes the requests with the chunk id of the head. -/
def take_chunk (requests : Nat → Request) (chunk_id : Option Nat) :
    Nat → List Nat → List Nat × List Nat
  | 0, queue => ([], queue)
  | _ + 1, [] => ([], [])
  | n + 1, candidate :: queue =>
    if (requests candidate).chunk_id ≠ chunk_id then ([], candidate :: queue)
    else
      let (result, rest) := take_chunk requests chunk_id n queue
      (candidate :: result, rest)

/-- The size that is cut from a candidate. -/
def sched_size (enable_chunked_prefill : Bool) (remain_prefill_lens prefill_max_tokens
    chunk_size : Nat) : Nat :=
  if enable_chunked_prefill then min remain_prefill_lens (prefill_max_tokens - chunk_size)
  else remain_prefill_lens

/-- The loop of `_enter_prefill` ends at this candidate. -/
def breaks (enable_chunked_prefill : Bool) (sched_size prefill_max_tokens : Nat) : Bool :=
  if enable_chunked_prefill then sched_size = 0 else sched_size > prefill_max_tokens

/-- The first worker cuts the chunks of a batch. Both `chunk_size` and `prefill_max_tokens`
change with each chunk. -/
def cut_chunks (enable_chunked_prefill : Bool) (wid chunk_id : Nat) :
    Nat → Nat → Nat → Sim → List Nat × Sim
  | 0, _, _, s => ([], s)
  | n + 1, chunk_size, prefill_max_tokens, s =>
    match (s.workers wid).prefill_queue with
    | [] => ([], s)
    | candidate :: queue =>
      let size := sched_size enable_chunked_prefill (s.requests candidate).remain_prefill_lens
        prefill_max_tokens chunk_size
      if breaks enable_chunked_prefill size prefill_max_tokens then ([], s)
      else
        let s := s.modify_request candidate fun r => r.cut_chunk size chunk_id
        let s := s.modify_worker wid fun w => { w with prefill_queue := queue }
        let (result, s) := cut_chunks enable_chunked_prefill wid chunk_id n (chunk_size + size)
          (prefill_max_tokens - size) s
        (candidate :: result, s)

def enter_prefill (c : Cluster) (s : Sim) (wid : Nat) : List Nat × Sim :=
  let prefill_queue := (s.workers wid).prefill_queue
  let max_request_size := min c.config.max_prefill_batch prefill_queue.length
  let (result, s) :=
    if (c.worker wid).pipe_rank ≠ 0 then
      let chunk_id := prefill_queue.head?.bind fun i => (s.requests i).chunk_id
      let (result, rest) := take_chunk s.requests chunk_id max_request_size prefill_queue
      (result, s.modify_worker wid fun w => { w with prefill_queue := rest })
    else
      let chunk_id := c.uuids s.drawn
      cut_chunks c.config.enable_chunked_prefill wid chunk_id max_request_size 0
        c.config.max_prefill_tokens { s with drawn := s.drawn + 1 }
  (result, result.foldl
    (fun s i => s.modify_request i fun r => r.do_prefill s.now (some wid)) s)

/-- One turn of the loop of `_exit_prefill`. -/
def exit_prefill_item (c : Cluster) (wid item : Nat) (s : Sim) : Except SimError Sim :=
  let worker := c.worker wid
  let s := s.modify_request item fun r =>
    r.finish_prefill s.now worker.is_last_in_pipeline (some worker.next_worker)
  if !worker.is_last_in_pipeline || (s.requests item).remain_prefill_lens > 0 then
    .ok (s.forward_prefill worker.next_worker [item])
  else if (s.requests item).should_finish then .ok s
  else if worker.should_request_stay then .ok (s.forward_decode worker.next_worker [item])
  else schedule_decode c s item

def exit_prefill (c : Cluster) (wid : Nat) : List Nat → Sim → Except SimError Sim
  | [], s => .ok s
  | item :: prefill_items, s => do
    let s ← exit_prefill_item c wid item s
    exit_prefill c wid prefill_items s

def exit_decode (c : Cluster) (wid : Nat) (decode_reqs : List Nat) (s : Sim) : Sim :=
  if decode_reqs = [] then s
  else
    let worker := c.worker wid
    let s := decode_reqs.foldl (fun s i => s.modify_request i fun r =>
      r.finish_decode s.now worker.is_last_in_pipeline (some worker.next_worker)) s
    let next_decode_batch := decode_reqs.filter fun i => !(s.requests i).should_finish
    s.forward_decode worker.next_worker next_decode_batch

/-! ## Iterations -/

/-- `do_prefill` until its timeout. -/
def do_prefill (c : Cluster) (s : Sim) (wid : Nat) : Except SimError Sim := do
  let (prefill_items, s) := enter_prefill c s wid
  let prefill_len_list := prefill_items.map fun i => (s.requests i).current_prefill_lens
  let (decode_reqs, s) :=
    if c.config.enable_chunked_prefill then
      enter_decodes s wid (c.config.max_prefill_tokens - prefill_len_list.sum)
    else ([], s)
  let delay ← get_prefill_time c.profiles c.config.engine_type c.config.model_type
    c.config.tp_prefill c.PP_prefill prefill_len_list
  let num_tokens :=
    ((prefill_items ++ decode_reqs).map fun i => (s.requests i).current_context_len).sum
  let delay := if (c.worker wid).pipe_rank = 0 then delay + add_ray_overhead num_tokens else delay
  let s := s.modify_worker wid fun w =>
    { w with prefill_ips := prefill_items.length, status := .prefilling prefill_items decode_reqs }
  s.timeout (.iteration wid) delay

/-- `do_decode` until its timeout. -/
def do_decode (c : Cluster) (s : Sim) (wid : Nat) : Except SimError Sim := do
  let (decode_reqs, s) := enter_decodes s wid c.config.max_decode_tokens
  let context_lens := decode_reqs.map fun i => (s.requests i).current_context_len
  let delay ← get_decode_time c.profiles c.config.engine_type c.config.model_type
    c.config.tp_decode c.PP_decode decode_reqs.length (context_lens.map (· + 1))
  let delay :=
    if (c.worker wid).pipe_rank = 0 then delay + add_ray_overhead context_lens.sum else delay
  let s := s.modify_worker wid fun w => { w with status := .decoding decode_reqs }
  s.timeout (.iteration wid) delay

/-- The next iteration of the loop of `run`. -/
def run_iteration (c : Cluster) (s : Sim) (wid : Nat) : Except SimError Sim :=
  if (s.workers wid).prefill_queue ≠ [] ∧ !has_back_pressure c s wid then do_prefill c s wid
  else do_decode c s wid

/-- The start of the loop of `run`. -/
def run_loop (c : Cluster) (s : Sim) (wid : Nat) : Except SimError Sim :=
  if (s.workers wid).prefill_queue = [] ∧ (s.workers wid).decode_queue = [] then
    .ok (s.modify_worker wid fun w => { w with status := .suspended w.wakeup_event })
  else run_iteration c s wid

/-- The rest of an iteration after its timeout, and the loop again. -/
def finish_iteration (c : Cluster) (s : Sim) (wid : Nat) : Except SimError Sim :=
  match (s.workers wid).status with
  | .prefilling prefill_items decode_reqs => do
    let s := s.modify_worker wid fun w => { w with prefill_ips := 0 }
    let s ← exit_prefill c wid prefill_items s
    run_loop c (exit_decode c wid decode_reqs s) wid
  | .decoding decode_reqs => run_loop c (exit_decode c wid decode_reqs s) wid
  | _ => .ok s

/-- The process of a worker goes on after its wakeup event. -/
def resume_after_wakeup (c : Cluster) (s : Sim) (wid number : Nat) : Except SimError Sim :=
  match (s.workers wid).status with
  | .suspended k => if k = number then run_iteration c s wid else .ok s
  | _ => .ok s

/-- The process of a worker starts. -/
def start_worker (c : Cluster) (s : Sim) (wid : Nat) : Except SimError Sim :=
  match (s.workers wid).status with
  | .created => run_loop c s wid
  | _ => .ok s

end Sim

/-! ## Runs -/

/-- A request of a workload, with its time after the one before. -/
structure Arrival where
  inter_arrival : ℚ
  req_init_counter : Int := -1
  prefill_length : Nat
  output_lens : Nat

abbrev Workload := List Arrival

/-- A request of the workload before the run. -/
def created (workload : Workload) (i : Nat) : Request :=
  match workload[i]? with
  | some a => Request.create a.req_init_counter a.prefill_length a.output_lens
  | none => Request.create (-1) 0 0

/-- `wake_time` of the request. -/
def wake_time (workload : Workload) (i : Nat) : ℚ :=
  ((workload.take (i + 1)).map (·.inter_arrival)).sum

namespace Sim

def put_request (workload : Workload) (s : Sim) (i : Nat) : Except SimError Sim :=
  s.timeout (.arrival i) (wake_time workload i)

/-- The rest of `put_request_at_time` after its delay. -/
def inject (c : Cluster) (s : Sim) (i : Nat) : Except SimError Sim := do
  let s := s.modify_request i fun r => r.init s.now
  let s ← schedule_new_req c s i
  return s.schedule (.process_end i) 1 0

def process (c : Cluster) (workload : Workload) (s : Sim) : Action → Except SimError Sim
  | .start wid => start_worker c s wid
  | .wakeup wid number => resume_after_wakeup c s wid number
  | .iteration wid => finish_iteration c s wid
  | .put_request i => put_request workload s i
  | .arrival i => inject c s i
  | .process_end _ => .ok s

/-- `Environment.step`. Without an event the run is over. -/
def step (c : Cluster) (workload : Workload) (s : Sim) : Except SimError Sim :=
  match s.queue with
  | [] => .ok s
  | e :: rest => process c workload { s with now := e.time, queue := rest } e.action

/-- The state before the first event: `cluster.run()` and `put_requests_with_interarrivals`. -/
def start (c : Cluster) (workload : Workload) : Sim where
  now := 0
  queue := (c.all_workers.map fun w => ⟨0, 0, .start w.wid⟩) ++
    (List.range workload.length).map fun i => ⟨0, 0, .put_request i⟩
  workers := fun _ => ⟨[], [], 0, 0, .created⟩
  requests := created workload
  drawn := 0

/-- `env.run()` up to this many events. -/
def run (c : Cluster) (workload : Workload) : Nat → Except SimError Sim
  | 0 => .ok (start c workload)
  | n + 1 => do
    let s ← run c workload n
    step c workload s

/-- A request of two tokens, and one of none. -/
def small_workload : Workload := [⟨0, -1, 4, 2⟩, ⟨1, -1, 3, 0⟩]

/-- A run of the small cluster. -/
def small_run (n : Nat) : Except SimError Sim := do
  let c ← small_cluster
  run c small_workload n

end Sim

end simdistserve
