-- What the decoding engine reports at the end of a step. The report asks the scheduler
-- for `get_num_waiting_requests`, which it does not have, and the exception is dropped.
-- So the actor never hears a length, and its entries stay at 0.
import RecomputeOrMigrate.DecodingRun
import RecomputeOrMigrate.LocalScheduler

open calls runs dicts histories

namespace distserve

namespace DecodingStageFCFSScheduler

/-! ## The getters of the scheduler -/

def get_processing_num_requests (s : DecodingStageFCFSScheduler) : Nat :=
  (s.batch_queues.map fun batch => batch.requests.length).sum

def get_waiting_num_requests (s : DecodingStageFCFSScheduler) : Nat := s.waiting_queue.length

def get_total_num_requests (s : DecodingStageFCFSScheduler) : Nat :=
  s.get_processing_num_requests + s.get_waiting_num_requests

/-- The getter of this name. -/
def getter (s : DecodingStageFCFSScheduler) (name : String) : Except PyError Nat :=
  if name = "get_total_num_requests" then .ok s.get_total_num_requests
  else if name = "get_processing_num_requests" then .ok s.get_processing_num_requests
  else if name = "get_waiting_num_requests" then .ok s.get_waiting_num_requests
  else .error (.no_attribute "DecodingStageFCFSScheduler" name)

end DecodingStageFCFSScheduler

namespace DecodingStageLLMEngine

open LocalScheduler

/-! ## The report -/

/-- `self._worker_idx`, which nothing sets. -/
def worker_idx : Except PyError Int :=
  .error (.no_attribute "DecodingStageLLMEngine" "_worker_idx")

/-- The calls to the actor at the end of `_step`. The state is the list of what was sent. -/
def report_queue_length (e : DecodingStageLLMEngine) : Call PyError (List Message) Unit := do
  let qlen ← MonadExcept.ofExcept (e.scheduler.getter "get_num_waiting_requests")
  let worker_id ← MonadExcept.ofExcept worker_idx
  modify fun sent => sent ++ [.update_queue_length worker_id qlen]
  e.worker_handles.forM fun worker_id =>
    modify fun sent => sent ++ [.update_queue_length worker_id qlen]

/-- `except Exception: pass`: what was sent until then stays. -/
def reports (e : DecodingStageLLMEngine) : List Message := leaves e.report_queue_length []

/-- The getter does not exist, so nothing is sent. -/
theorem reports_eq_nil (e : DecodingStageLLMEngine) : e.reports = [] := rfl

/-! ## The engine and the actor -/

/-- The engine, the messages that the actor got, and `_dead_workers`. -/
structure Reported where
  engine : DecodingStageLLMEngine
  heard : List Message
  dead_workers : Finset Nat

/-- What can happen: the engine acts, a worker fails, or the LLM engine has a new
bandwidth. -/
inductive Event
  | act (a : Action)
  | worker_fails (worker_idx : Nat)
  | probe_bandwidth (bandwidth_mbps now : ℚ)

/-- The action ends a step when the coroutine is between two steps after it. -/
def EndsStep : Action → DecodingStageLLMEngine → Prop
  | .add_request _, _ => False
  | _, e => e.point = .idle

instance (a : Action) (e : DecodingStageLLMEngine) : Decidable (EndsStep a e) :=
  match a with
  | .add_request _ => isFalse id
  | .begin_step _ | .wake | .batch_returns _ | .migration_ends =>
    inferInstanceAs (Decidable (e.point = .idle))

/-- `initialize`, with `_register_rom_workers`: each pipeline stage is registered. -/
def Reported.create (e : DecodingStageLLMEngine) : Reported where
  engine := e
  heard := (List.range e.parallel_config.pipeline_parallel_size).map fun worker_id =>
    .register_worker worker_id
  dead_workers := ∅

/-- One event. The actor gets the messages in the order in which they are sent. A worker
that fails is deregistered, and it is not pinged again. -/
def stepReported (decode : Tokenizer) : Machine PyError Reported Event
  | s, .act a => (act decode s.engine a).map fun x => do
    let (e, _) ← x
    return { s with
      engine := e
      heard := s.heard ++ if EndsStep a e then e.reports else [] }
  | s, .worker_fails worker_idx =>
    if worker_idx ∈ s.engine.worker_handles ∧ worker_idx ∉ s.dead_workers then
      some (.ok { s with
        heard := s.heard ++ [.deregister_worker worker_idx]
        dead_workers := insert worker_idx s.dead_workers })
    else none
  | s, .probe_bandwidth bandwidth_mbps now =>
    some (.ok { s with heard := s.heard ++ [.update_bandwidth bandwidth_mbps now] })

/-- No message is a report. -/
def Silent (heard : List Message) : Prop := ∀ m ∈ heard, ∀ w, m.length_of w = none

/-- Without reports, each entry is the 0 of `register_worker`. -/
theorem Silent.queue_length {heard : List Message} (h : Silent heard) (rom_config : ROMConfig)
    (w : Int) : (after rom_config heard).get_queue_length w = 0 := by
  have hnone : last_length heard w = 0 := by
    unfold last_length
    rw [List.filterMap_eq_nil_iff.mpr fun m hm => h m (mem_of_mem_sinceLast hm) w]
    rfl
  obtain ⟨hsome, hempty⟩ := get?_after rom_config heard w
  unfold get_queue_length
  by_cases he : Entered heard w
  · rw [hsome he, hnone]
    rfl
  · rw [hempty he]
    rfl

theorem Silent.append {heard : List Message} (h : Silent heard) {m : Message}
    (hm : ∀ w, m.length_of w = none) : Silent (heard ++ [m]) := by
  intro m' hm'
  rcases List.mem_append.mp hm' with hm' | hm'
  · exact h m' hm'
  · obtain rfl := List.mem_singleton.mp hm'
    exact hm

theorem stepReported_silent (decode : Tokenizer) :
    runs.Sound (stepReported decode) (fun s => Silent s.heard) fun _ => True := by
  intro s ev x hs hx
  cases x with
  | error err => trivial
  | ok s' =>
    cases ev with
    | act a =>
      obtain ⟨y, -, hy⟩ := Option.map_eq_some_iff.mp hx
      obtain ⟨⟨e, cs⟩, -, hs'⟩ := bind_eq_ok.mp hy
      cases hs'
      change Silent (s.heard ++ if EndsStep a e then e.reports else [])
      rw [reports_eq_nil, ite_self, List.append_nil]
      exact hs
    | worker_fails worker_idx =>
      simp only [stepReported] at hx
      split at hx
      · cases hx
        exact hs.append fun _ => rfl
      · cases hx
    | probe_bandwidth bandwidth_mbps now =>
      cases hx
      exact hs.append fun _ => rfl

theorem silent_create (e : DecodingStageLLMEngine) : Silent (Reported.create e).heard := by
  intro m hm
  obtain ⟨worker_id, -, rfl⟩ := List.mem_map.mp hm
  exact fun _ => rfl

/-- In every state of every run, so after each completed step: the actor's entries of the
live workers are the length of the waiting queue just when no request waits or no live
worker has an entry. -/
theorem recorded_lengths_are_real_iff_none_waits (parallel_config : ParallelConfig)
    (cache_config : CacheConfig) (max_batch_size max_tokens_per_batch : Nat)
    (waiting_block_prop_threshold : ℚ) (num_gpu_blocks num_cpu_blocks : Nat) (decode : Tokenizer)
    (rom_config : ROMConfig) (s : Reported) (h : Reaches (stepReported decode) (.create (create
      parallel_config cache_config max_batch_size max_tokens_per_batch
      waiting_block_prop_threshold num_gpu_blocks num_cpu_blocks)) s) :
    (∀ w : Nat, (w : Int) ∈ (after rom_config s.heard).queue_lengths → w ∉ s.dead_workers →
      (after rom_config s.heard).get_queue_length w =
        s.engine.scheduler.get_waiting_num_requests) ↔
    s.engine.scheduler.waiting_queue = [] ∨
      ∀ w : Nat, (w : Int) ∈ (after rom_config s.heard).queue_lengths → w ∈ s.dead_workers := by
  have hsilent : Silent s.heard := (stepReported_silent decode).invariant (silent_create _) h
  have hzero := hsilent.queue_length rom_config
  have hlen : (0 : Int) = s.engine.scheduler.get_waiting_num_requests ↔
      s.engine.scheduler.waiting_queue = [] := by
    unfold DecodingStageFCFSScheduler.get_waiting_num_requests
    rw [← List.length_eq_zero_iff]
    omega
  constructor
  · intro hreal
    by_cases hnone : ∀ w : Nat, (w : Int) ∈ (after rom_config s.heard).queue_lengths →
        w ∈ s.dead_workers
    · exact Or.inr hnone
    · left
      by_contra hwaits
      apply hnone
      intro w hw
      by_contra hlive
      exact hwaits (hlen.mp ((hzero w).symm.trans (hreal w hw hlive)))
  · rintro (hempty | hnone) w hw hlive
    · rw [hzero w]
      exact hlen.mpr hempty
    · exact absurd (hnone w hw) hlive

/-- No request waits after the only one went into the batch, and 0 is the length. -/
theorem the_length_of_no_waiting_request_is_recorded : ∃ s : Reported,
    s.engine.scheduler.waiting_queue = [] ∧ s.engine.scheduler.needed_by_batches = 2 ∧
    ((∀ w : Nat, (w : Int) ∈ (after ⟨.rom, 10000, 32, 32, 128, 2, ∅⟩ s.heard).queue_lengths →
        w ∉ s.dead_workers → (after ⟨.rom, 10000, 32, 32, 128, 2, ∅⟩ s.heard).get_queue_length w =
          s.engine.scheduler.get_waiting_num_requests) ↔
      s.engine.scheduler.waiting_queue = [] ∨ ∀ w : Nat, (w : Int) ∈
        (after ⟨.rom, 10000, 32, 32, 128, 2, ∅⟩ s.heard).queue_lengths → w ∈ s.dead_workers) := by
  obtain ⟨s, hr, hs⟩ := reaches_of_any (m := stepReported fun _ => none)
    (s := .create (create ⟨1, 1, by decide, by decide⟩ ⟨2, by decide⟩ 8 8 1 4 4))
    [.act (.add_request (firstToken 0)), .act (.begin_step 0), .act .wake, .act .migration_ends,
      .act (.begin_step 1)]
    (fun s => decide (s.engine.scheduler.waiting_queue = [] ∧
      s.engine.scheduler.needed_by_batches = 2)) (by decide +kernel)
  have hs := of_decide_eq_true hs
  exact ⟨s, hs.1, hs.2, recorded_lengths_are_real_iff_none_waits _ _ _ _ _ _ _ _ _ s hr⟩

/-- The step ends with one request in the waiting queue, and the entry of the only worker
is still 0. -/
theorem the_length_of_a_waiting_request_is_not_recorded : ∃ s s' : Reported,
    Reaches (stepReported fun _ => none)
      (.create (create ⟨1, 1, by decide, by decide⟩ ⟨2, by decide⟩ 8 8 1 4 4)) s ∧
    stepReported (fun _ => none) s (.act .migration_ends) = some (.ok s') ∧
    EndsStep .migration_ends s'.engine ∧ 0 ∉ s'.dead_workers ∧
    (0 : Int) ∈ (after ⟨.rom, 10000, 32, 32, 128, 2, ∅⟩ s'.heard).queue_lengths ∧
    (after ⟨.rom, 10000, 32, 32, 128, 2, ∅⟩ s'.heard).get_queue_length 0 = 0 ∧
    s'.engine.scheduler.get_waiting_num_requests = 1 := by
  obtain ⟨s, hr, hs⟩ := reaches_of_any (m := stepReported fun _ => none)
    (s := .create (create ⟨1, 1, by decide, by decide⟩ ⟨2, by decide⟩ 8 8 1 4 4))
    [.act (.add_request (firstToken 0)), .act (.begin_step 0), .act .wake]
    (fun s => (runAll (stepReported fun _ => none) s [.act .migration_ends]).any
      fun (s' : Reported) => decide (EndsStep .migration_ends s'.engine ∧ s'.dead_workers = ∅ ∧
        s'.heard = [.register_worker 0] ∧ s'.engine.scheduler.get_waiting_num_requests = 1))
    (by decide +kernel)
  obtain ⟨s', ha, hs'⟩ := (Option.any_eq_true _ _).mp hs
  obtain ⟨hend, hdead, hheard, hwaiting⟩ := of_decide_eq_true hs'
  refine ⟨s, s', hr, runAll_one.mp ha, hend, by simp [hdead], ?_, ?_, hwaiting⟩
  · rw [hheard, Dict.mem_iff_isSome]
    decide
  · rw [hheard]
    decide

end DecodingStageLLMEngine

end distserve
