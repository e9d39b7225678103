-- The requests of the simulator (base/request.py) and the latencies that are computed from
-- their logs (base/organize_data.py). Times are rational numbers for the floats.
import Mathlib.Algebra.Order.Field.Rat

namespace simdistserve

/-! ## Requests -/

/-- The events of a request. -/
inductive RequestEvent
  | init
  | wait_prefill
  | do_prefill
  | wait_decode
  | do_decode
  | finish_prefill
  | finish_decode
  | exit_system
deriving DecidableEq

structure LogEntry where
  time : ℚ
  event : RequestEvent
  wid : Option Int
deriving DecidableEq

structure Request where
  counter : Int
  log : List LogEntry
  terminated : Bool
  prefill_lens : Nat
  output_lens : Nat
  remain_prefill_lens : Nat
  current_prefill_lens : Nat
  chunk_id : Option Nat
  /-- The sizes of the chunks that were cut. Only the proofs use them. -/
  chunks : List Nat

namespace Request

def create (req_init_counter : Int) (prefill_length output_lens : Nat) : Request where
  counter := req_init_counter
  log := []
  terminated := false
  prefill_lens := prefill_length
  output_lens := output_lens
  remain_prefill_lens := prefill_length
  current_prefill_lens := 0
  chunk_id := none
  chunks := []

def current_context_len (r : Request) : Nat := r.prefill_lens + r.counter.toNat

def should_finish (r : Request) : Bool := r.counter ≥ r.output_lens

/-- A request that is terminated logs nothing more. -/
def log_event (r : Request) (now : ℚ) (event : RequestEvent) (wid : Option Int) : Request :=
  if r.terminated then r else { r with log := r.log ++ [⟨now, event, wid⟩] }

def init (r : Request) (now : ℚ) : Request := r.log_event now .init (some (-1))

def wait_prefill (r : Request) (now : ℚ) (wid : Option Int) : Request :=
  r.log_event now .wait_prefill wid

def do_prefill (r : Request) (now : ℚ) (wid : Option Int) : Request :=
  r.log_event now .do_prefill wid

def wait_decode (r : Request) (now : ℚ) (wid : Option Int) : Request :=
  r.log_event now .wait_decode wid

def do_decode (r : Request) (now : ℚ) (wid : Option Int) : Request :=
  r.log_event now .do_decode wid

def reset_chunked_prefill_metadata (r : Request) : Request :=
  { r with chunk_id := none, current_prefill_lens := 0 }

/-- The last event of a request. -/
def exit_system (r : Request) (now : ℚ) : Request :=
  { r.log_event now .exit_system (some (-1)) with terminated := true }

def finish_prefill (r : Request) (now : ℚ) (is_finished_one_round : Bool)
    (next_wid : Option Int) : Request :=
  if !is_finished_one_round then r.wait_prefill now next_wid
  else
    let r := r.reset_chunked_prefill_metadata
    if r.remain_prefill_lens > 0 then r.wait_prefill now next_wid
    else
      -- all the prefills are done
      let r := { r with counter := 0 }.wait_decode now next_wid
      if r.should_finish then r.exit_system now else r

def finish_decode (r : Request) (now : ℚ) (is_finished_one_round : Bool)
    (next_wid : Option Int) : Request :=
  let r := if is_finished_one_round then { r with counter := r.counter + 1 } else r
  let r := r.wait_decode now next_wid
  if r.should_finish then r.exit_system now else r

/-- The chunk that a first worker cuts from the request. -/
def cut_chunk (r : Request) (sched_size chunk_id : Nat) : Request :=
  { r with
    current_prefill_lens := sched_size
    remain_prefill_lens := r.remain_prefill_lens - sched_size
    chunk_id := some chunk_id
    chunks := r.chunks ++ [sched_size] }

/-- The request was put into the cluster. -/
def Injected (r : Request) : Prop := ∃ entry ∈ r.log, entry.event = .init

/-- The request has logged its exit. -/
def Exited (r : Request) : Prop := ∃ entry ∈ r.log, entry.event = .exit_system

/-! ## What the log leaves as it is -/

section log

variable (r : Request) (now : ℚ) (event : RequestEvent) (wid : Option Int)

@[simp] theorem log_event_counter : (r.log_event now event wid).counter = r.counter := by
  unfold log_event
  split <;> rfl

@[simp] theorem log_event_terminated :
    (r.log_event now event wid).terminated = r.terminated := by
  unfold log_event
  split <;> rfl

@[simp] theorem log_event_prefill_lens :
    (r.log_event now event wid).prefill_lens = r.prefill_lens := by
  unfold log_event
  split <;> rfl

@[simp] theorem log_event_output_lens :
    (r.log_event now event wid).output_lens = r.output_lens := by
  unfold log_event
  split <;> rfl

@[simp] theorem log_event_remain :
    (r.log_event now event wid).remain_prefill_lens = r.remain_prefill_lens := by
  unfold log_event
  split <;> rfl

@[simp] theorem log_event_current :
    (r.log_event now event wid).current_prefill_lens = r.current_prefill_lens := by
  unfold log_event
  split <;> rfl

@[simp] theorem log_event_chunks : (r.log_event now event wid).chunks = r.chunks := by
  unfold log_event
  split <;> rfl

@[simp] theorem log_event_should_finish :
    (r.log_event now event wid).should_finish = r.should_finish := by
  unfold should_finish
  rw [log_event_counter, log_event_output_lens]

theorem exit_system_should_finish : (r.exit_system now).should_finish = r.should_finish := by
  have hlog := log_event_should_finish r now .exit_system (some (-1))
  exact hlog

end log

end Request

/-! ## Latencies -/

/-- A row of the data frame of the events. -/
structure EventRow where
  start_time : ℚ
  end_time : ℚ
  event_type : RequestEvent

/-- An event ends when the next one starts. The last one has no duration. -/
def transform_request_log_to_df : List LogEntry → List EventRow
  | [] => []
  | [e] => [⟨e.time, e.time, e.event⟩]
  | e :: e' :: rest => ⟨e.time, e'.time, e.event⟩ :: transform_request_log_to_df (e' :: rest)

/-- The rows of one kind of event. -/
def rows_of (df : List EventRow) (event_type : RequestEvent) : List EventRow :=
  df.filter (·.event_type = event_type)

def first_event (df : List EventRow) : Option ℚ := ((rows_of df .init).map (·.start_time)).min?

def first_wait_decode (df : List EventRow) : Option ℚ :=
  ((rows_of df .wait_decode).map (·.start_time)).min?

def last_event (df : List EventRow) : Option ℚ :=
  ((rows_of df .exit_system).map (·.end_time)).max?

/-- The three latencies of a request. A missing event gives a missing latency. -/
structure Latencies where
  first_token_latency : Option ℚ
  decoding_latency : Option ℚ
  total_latency : Option ℚ

def calculate_per_request_latency (df : List EventRow) : Latencies where
  first_token_latency := do return (← first_wait_decode df) - (← first_event df)
  decoding_latency := do return (← last_event df) - (← first_wait_decode df)
  total_latency := do return (← last_event df) - (← first_event df)

end simdistserve
