-- The recovery after the failure of a decode worker (single_stage_engine.py, worker.py):
-- which requests it migrates, which it loses, and what it writes in the log.
import Mathlib.Data.Finset.Lattice.Fold
import Mathlib.Order.Lattice.Nat
import RecomputeOrMigrate.FailureTracking
import RecomputeOrMigrate.RomDecision

open calls

namespace distserve

/-! ## The transfer of the blocks -/

/-- What comes of `get_kvcache_mem_handles` on one source worker. An exception has its text. -/
inductive SourceOutcome
  | kvcache_mem_handles (handles : List Nat)
  /-- The worker is dead, a `RayActorError`. -/
  | actor_died (text : String)
  | failed (text : String)
deriving DecidableEq

/-- What `migrate_blocks` is given for its parameter `context_parallel_config`. -/
inductive ConfigArgument
  | parallel_config (config : ParallelConfig)
  /-- A dictionary, which has no field of a configuration. -/
  | dict (entries : List (Nat × Nat))

namespace ConfigArgument

def pipeline_parallel_size : ConfigArgument → Except PyError Nat
  | .parallel_config config => .ok config.pipeline_parallel_size
  | .dict _ => .error (.no_attribute "dict" "pipeline_parallel_size")

def tensor_parallel_size : ConfigArgument → Except PyError Nat
  | .parallel_config config => .ok config.tensor_parallel_size
  | .dict _ => .error (.no_attribute "dict" "tensor_parallel_size")

end ConfigArgument

section transfer

variable {α β : Type} (block_migration_op : α → Nat → Nat → β → Except PyError Unit)

/-- `ParaWorker.migrate_blocks`. Python does not check the types of what it is given. The
operator of the extension copies the blocks. -/
def migrate_blocks (context_block_indexes : α) (context_parallel_config : ConfigArgument)
    (decoding_block_indexes : β) : Except PyError Unit := do
  let pipeline_parallel_size ← context_parallel_config.pipeline_parallel_size
  let tensor_parallel_size ← context_parallel_config.tensor_parallel_size
  block_migration_op context_block_indexes pipeline_parallel_size tensor_parallel_size
    decoding_block_indexes

end transfer

section pull

variable (block_migration_op : RequestId → Nat → Nat → List Nat → Except PyError Unit)
  (request_id : RequestId) (block_table : List Nat)

/-- `_call_migrate_blocks`, which passes its arguments on in their order. -/
def call_migrate_blocks (migrating_request_id : RequestId)
    (src_to_dst_block_map : List (Nat × Nat)) (src_worker_kvcache_mem_handles : List Nat) :
    Except PyError Unit :=
  migrate_blocks block_migration_op migrating_request_id (.dict src_to_dst_block_map)
    src_worker_kvcache_mem_handles

/-- The loop of `pull_kv_blocks_for_request`. Only after a dead source, it tries the next
one. -/
def try_sources (last_exc : String) : List SourceOutcome → Except PyError Unit
  | [] => .error (.all_sources_exhausted request_id last_exc)
  | .kvcache_mem_handles src_handles :: _ =>
    match call_migrate_blocks block_migration_op request_id
        (block_table.map fun blk => (blk, blk)) src_handles with
    | .ok () => .ok ()
    | .error exc => .error (.all_sources_exhausted request_id exc.text)
  | .actor_died text :: rest => try_sources text rest
  | .failed text :: _ => .error (.all_sources_exhausted request_id text)

/-- `pull_kv_blocks_for_request`. -/
def pull_kv_blocks_for_request (sources : List SourceOutcome) : Except PyError Unit :=
  if sources = [] then .error (.no_source_workers request_id)
  else try_sources block_migration_op request_id block_table "no sources tried" sources

theorem try_sources_fails (last_exc : String) (sources : List SourceOutcome) :
    ∃ exc, try_sources block_migration_op request_id block_table last_exc sources = .error exc := by
  induction sources generalizing last_exc with
  | nil => exact ⟨_, rfl⟩
  | cons source rest ih =>
    cases source with
    | kvcache_mem_handles src_handles => exact ⟨_, rfl⟩
    | actor_died text => exact ih text
    | failed text => exact ⟨_, rfl⟩

/-- No pull succeeds: `migrate_blocks` gets the map of the blocks for a configuration. -/
theorem pull_kv_blocks_for_request_fails (sources : List SourceOutcome) :
    ∃ exc, pull_kv_blocks_for_request block_migration_op request_id block_table sources =
      .error exc := by
  unfold pull_kv_blocks_for_request
  split
  · exact ⟨_, rfl⟩
  · exact try_sources_fails block_migration_op request_id block_table _ sources

end pull

/-! ## The state and the surroundings -/

/-- A call of one of the functions of `ROMLogger`. The times are left out. -/
inductive RomLogCall
  | log_worker_failure (worker_id : Nat) (affected_request_ids : List RequestId)
      (error_msg : String)
  | log_decision (request_id : RequestId) (prompt_len : Nat) (bandwidth_mbps : ℚ)
      (c_mig : WithTop ℚ) (c_recomp : ℚ) (decision : RomDecision) (policy : RomPolicy)
      (failed_worker_id : Nat) (target_worker_id : Option Nat)
  | log_recovery (request_id : RequestId) (decision : RomDecision) (success : Bool)
      (error : Option String)

/-- What is done for a request. -/
inductive RecoveryAction
  | migrate (target_worker_idx : Nat)
  | recompute
deriving DecidableEq

def RecoveryAction.decision : RecoveryAction → RomDecision
  | .migrate _ => .migrate
  | .recompute => .recompute

/-- The fields of the decoding engine that the recovery uses or changes. The list
`deregistered` holds the messages to the local scheduler. The list `recovered` is not in
the source: it remembers the actions that took effect. -/
structure RecoveryState where
  worker_handles : List Nat
  worker_request_ids : List (Nat × Finset RequestId)
  dead_workers : Finset Nat
  deregistered : List Nat
  log : List RomLogCall
  recovered : List (RequestId × RecoveryAction)

/-- Where the recovery calls `ray.get_actor("rom_local_scheduler")`. -/
inductive GetActor
  | to_deregister
  | to_choose_target
  | for_bandwidth (request_id : RequestId)

/-- What the recovery gets from the others while it runs. The loops of the engine go on at
each await, so a request may have lost its block table when its turn comes. `list` gives the
elements of a set in the order of Python. -/
structure Surroundings where
  get_actor : GetActor → Except PyError Unit
  get_best_decode_worker : Except PyError (Option Nat)
  get_bandwidth : RequestId → Except PyError ℚ
  /-- The map of the LLM engine, when the decoding engine has one. -/
  llm_engine : Option (RequestId → Option RequestId → Option Nat)
  block_table : RequestId → Option (List Nat)
  /-- The call to the target itself. -/
  reach_target : RequestId → Except PyError Unit
  /-- What comes of the source worker, for the target that asks. -/
  source : RequestId → Nat → SourceOutcome
  block_migration_op : RequestId → Nat → Nat → List Nat → Except PyError Unit
  /-- The text that Ray makes of the exception of a remote call. -/
  task_error_text : String → String
  list : Finset RequestId → List RequestId
  list_nodup : ∀ s, (list s).Nodup
  mem_list : ∀ s r, r ∈ list s ↔ r ∈ s

namespace Surroundings

variable (env : Surroundings) (rom_config : ROMConfig)

/-- The target that is chosen once for all requests. An exception means no target. -/
def target_worker_idx : Option Nat :=
  match do env.get_actor .to_choose_target; env.get_best_decode_worker with
  | .ok target_worker_idx => target_worker_idx
  | .error _ => none

/-- The bandwidth for a request. After an exception it is the one of the configuration. -/
def bw_mbps (request_id : RequestId) : ℚ :=
  match do env.get_actor (.for_bandwidth request_id); env.get_bandwidth request_id with
  | .ok bandwidth_mbps => bandwidth_mbps
  | .error _ => rom_config.sim_bandwidth_mbps

/-- The decision for a request, with the prompt length and both costs. -/
def rom_decision (request_id : RequestId) : Except PyError (RomDecision × Nat × WithTop ℚ × ℚ) :=
  match env.llm_engine with
  | some prompt_len_map =>
    get_rom_decision rom_config (prompt_len_map request_id) (env.get_bandwidth request_id)
      request_id (some (env.bw_mbps rom_config request_id))
  | none => do
    let (decision, c_mig, c_recomp) ←
      make_decision 0 (env.bw_mbps rom_config request_id) rom_config
    return (decision, 0, c_mig, c_recomp)

/-- The remote call `pull_kv_blocks_for_request` on the target. -/
def pull (request_id : RequestId) (block_table source_workers : List Nat) :
    Except PyError Unit := do
  env.reach_target request_id
  match pull_kv_blocks_for_request env.block_migration_op request_id block_table
      (source_workers.map (env.source request_id)) with
  | .ok () => return ()
  | .error exc => throw (.remote (env.task_error_text exc.text))

end Surroundings

/-! ## The recovery -/

namespace RecoveryState

/-- `self._worker_request_ids.get(worker_idx, set())`. -/
def affected (s : RecoveryState) (worker_idx : Nat) : Finset RequestId :=
  (s.worker_request_ids.lookup worker_idx).getD ∅

/-- Each set discards the request, and the one of the target gets it. -/
def track_on_target (s : RecoveryState) (request_id target_worker_idx : Nat) : RecoveryState :=
  let discarded := s.worker_request_ids.map fun (worker, ids) => (worker, ids.erase request_id)
  { s with
    worker_request_ids :=
      if target_worker_idx ∈ s.worker_request_ids.map Prod.fst then
        discarded.map fun (worker, ids) =>
          (worker, if worker = target_worker_idx then insert request_id ids else ids)
      else discarded ++ [(target_worker_idx, {request_id})] }

/-- The migration of a request took effect. -/
def migrated (s : RecoveryState) (request_id target_worker_idx : Nat) : RecoveryState :=
  { s.track_on_target request_id target_worker_idx with
    recovered := s.recovered ++ [(request_id, .migrate target_worker_idx)] }

def add_log (s : RecoveryState) (call : RomLogCall) : RecoveryState :=
  { s with log := s.log ++ [call] }

end RecoveryState

section Recovery

variable (env : Surroundings) (rom_config : ROMConfig)

def recover_via_migrate (request_id target_worker_idx : Nat) :
    Call PyError RecoveryState Unit := do
  let s ← get
  if target_worker_idx ∉ s.worker_handles then
    throw (.target_not_registered target_worker_idx)
  let block_table ← match env.block_table request_id with
    | some block_table => pure block_table
    | none => throw (.not_allocated request_id)
  MonadExcept.ofExcept (env.pull request_id block_table
    (s.worker_handles.filter (· ≠ target_worker_idx)))
  modify (·.migrated request_id target_worker_idx)

/-- No class of the source has this method, so the call raises. -/
def recover_via_recompute (_request_id : RequestId) : Call PyError RecoveryState Unit :=
  throw (.no_attribute "DecodingStageLLMEngine" "recover_via_recompute")

/-- `_recover_one_request`. The log gets the decision also when another action was tried,
and the exception of the action goes no further. -/
def recover_one_request (failed_worker_idx : Nat) (target_worker_idx : Option Nat)
    (request_id : RequestId) : Call PyError RecoveryState Unit := do
  let (decision, prompt_len, c_mig, c_recomp) ←
    MonadExcept.ofExcept (env.rom_decision rom_config request_id)
  modify (·.add_log (.log_decision request_id prompt_len (env.bw_mbps rom_config request_id) c_mig
    c_recomp decision rom_config.policy failed_worker_idx target_worker_idx))
  let outcome ← attempt (match decision, target_worker_idx with
    | .migrate, some target_worker_idx => recover_via_migrate env request_id target_worker_idx
    | _, _ => recover_via_recompute request_id)
  match outcome with
  | .ok () => modify (·.add_log (.log_recovery request_id decision true none))
  | .error exc => modify (·.add_log (.log_recovery request_id decision false (some exc.text)))

/-- `_handle_decode_worker_failure`. -/
def handle_decode_worker_failure (worker_idx : Nat) (error : String) :
    Call PyError RecoveryState Unit := do
  modify fun s => { s with dead_workers := insert worker_idx s.dead_workers }
  let affected := env.list ((← get).affected worker_idx)
  modify (·.add_log (.log_worker_failure worker_idx affected error))
  match env.get_actor .to_deregister with
  | .ok () => modify fun s => { s with deregistered := s.deregistered ++ [worker_idx] }
  | .error _ => pure ()
  if affected = [] then return
  affected.forM (recover_one_request env rom_config worker_idx env.target_worker_idx)

end Recovery

/-! ## What the recovery should do -/

/-- The fields of the engine when the failure of a worker is found. -/
def DecodingStageLLMEngine.failing (e : DecodingStageLLMEngine) (dead_workers : Finset Nat) :
    RecoveryState where
  worker_handles := e.worker_handles
  worker_request_ids := e.worker_request_ids
  dead_workers
  deregistered := []
  log := []
  recovered := []

/-- The decisions that `log_recovery` wrote for a request. -/
def RecoveryState.recorded (s : RecoveryState) (r : RequestId) : List RomDecision :=
  s.log.filterMap fun
    | .log_recovery request_id decision _ _ => if request_id = r then some decision else none
    | _ => none

namespace Surroundings

variable (env : Surroundings) (rom_config : ROMConfig) (handles : List Nat)

/-- The target is registered, the request has its block table, and the pull succeeds. -/
def pull_succeeds (r : RequestId) (target : Nat) : Bool :=
  decide (target ∈ handles) && (env.block_table r).any fun block_table =>
    (env.pull r block_table (handles.filter (· ≠ target))).isOk

/-- The action that a request should get: the migration when the decision, the target and
the pull allow it, and the recomputation otherwise. -/
def wanted (r : RequestId) : RecoveryAction :=
  match env.rom_decision rom_config r, env.target_worker_idx with
  | .ok (.migrate, _), some target =>
    if env.pull_succeeds handles r target then .migrate target else .recompute
  | _, _ => .recompute

/-- The request got the wanted action once, and the log records it. -/
structure Recovered (s : RecoveryState) (r : RequestId) : Prop where
  once : s.recovered.filter (·.1 == r) = [(r, env.wanted rom_config handles r)]
  recorded : s.recorded r = [(env.wanted rom_config handles r).decision]

end Surroundings

/-! ## What it does -/

variable {env : Surroundings} {rom_config : ROMConfig} {handles : List Nat}
  {s s' : RecoveryState} {worker : Nat} {r : RequestId}

theorem Surroundings.pull_fails (env : Surroundings) (r : RequestId)
    (block_table source_workers : List Nat) :
    ∃ exc, env.pull r block_table source_workers = .error exc := by
  obtain ⟨exc, hpull⟩ := pull_kv_blocks_for_request_fails env.block_migration_op r block_table
    (source_workers.map (env.source r))
  unfold Surroundings.pull
  rw [hpull]
  cases env.reach_target r with
  | ok u => exact ⟨_, rfl⟩
  | error exc => exact ⟨exc, rfl⟩

/-- A migration always raises. -/
theorem recover_via_migrate_raises (env : Surroundings) (r : RequestId) (target : Nat)
    (s : RecoveryState) : ∃ exc, recover_via_migrate env r target s = .error exc s := by
  unfold recover_via_migrate
  by_cases hreg : target ∈ s.worker_handles
  · cases htable : env.block_table r with
    | none =>
      refine ⟨.not_allocated r, ?_⟩
      simp [bind_apply, get_apply, hreg, throw_apply]
    | some block_table =>
      obtain ⟨exc, hpull⟩ := env.pull_fails r block_table (s.worker_handles.filter (· ≠ target))
      refine ⟨exc, ?_⟩
      simp only [bind_apply, get_apply, hreg, not_true, if_false, pure_apply, hpull,
        ofExcept_apply]
  · refine ⟨.target_not_registered target, ?_⟩
    simp [bind_apply, get_apply, hreg, throw_apply]

/-- One request was tried, and the log has the decision for it and that its action failed. -/
structure Tried (rom_config : ROMConfig) (worker : Nat) (target : Option Nat) (r : RequestId)
    (decision : RomDecision) (s s' : RecoveryState) : Prop where
  worker_handles : s'.worker_handles = s.worker_handles
  dead_workers : s'.dead_workers = s.dead_workers
  recovered : s'.recovered = s.recovered
  log : ∃ prompt_len bandwidth_mbps c_mig c_recomp error, s'.log = s.log ++
    [.log_decision r prompt_len bandwidth_mbps c_mig c_recomp decision rom_config.policy worker
      target, .log_recovery r decision false error]

/-- The exception of the action is caught, so only the decision can raise. -/
theorem recover_one_request_cases (env : Surroundings) (rom_config : ROMConfig) (worker : Nat)
    (target : Option Nat) (r : RequestId) (s : RecoveryState) :
    (∃ exc, env.rom_decision rom_config r = .error exc ∧
      recover_one_request env rom_config worker target r s = .error exc s) ∨
    ∃ decision costs s', env.rom_decision rom_config r = .ok (decision, costs) ∧
      recover_one_request env rom_config worker target r s = .ok () s' ∧
      Tried rom_config worker target r decision s s' := by
  unfold recover_one_request
  cases hd : env.rom_decision rom_config r with
  | error exc => exact Or.inl ⟨exc, rfl, by simp only [bind_apply, ofExcept_apply]⟩
  | ok v =>
    obtain ⟨decision, prompt_len, c_mig, c_recomp⟩ := v
    refine Or.inr ⟨decision, (prompt_len, c_mig, c_recomp), ?_⟩
    simp only [bind_apply, ofExcept_apply, modify_apply, attempt_apply]
    set s₁ := s.add_log (.log_decision r prompt_len (env.bw_mbps rom_config r) c_mig c_recomp
      decision rom_config.policy worker target) with hs₁
    have htried : ∀ exc : PyError, Tried rom_config worker target r decision s
        (s₁.add_log (.log_recovery r decision false (some exc.text))) := fun exc =>
      { worker_handles := rfl
        dead_workers := rfl
        recovered := rfl
        log := ⟨prompt_len, env.bw_mbps rom_config r, c_mig, c_recomp, some exc.text, by
          simp [hs₁, RecoveryState.add_log, List.append_assoc]⟩ }
    cases decision with
    | recompute => exact ⟨_, trivial, rfl, htried _⟩
    | migrate =>
      cases target with
      | none => exact ⟨_, trivial, rfl, htried _⟩
      | some target =>
        obtain ⟨exc, he⟩ := recover_via_migrate_raises env r target s₁
        exact ⟨_, trivial, by simp only [he, modify_apply], htried exc⟩

/-- The engine before the loop over the affected requests. -/
def RecoveryState.begun (env : Surroundings) (worker : Nat) (error : String) (s : RecoveryState) :
    RecoveryState :=
  { s with
    dead_workers := insert worker s.dead_workers
    deregistered := s.deregistered ++
      match env.get_actor .to_deregister with
      | .ok () => [worker]
      | .error _ => []
    log := s.log ++ [.log_worker_failure worker (env.list (s.affected worker)) error] }

theorem handle_decode_worker_failure_eq (env : Surroundings) (rom_config : ROMConfig)
    (worker : Nat) (error : String) (s : RecoveryState) :
    handle_decode_worker_failure env rom_config worker error s =
      (env.list (s.affected worker)).forM
        (recover_one_request env rom_config worker env.target_worker_idx)
        (s.begun env worker error) := by
  have haffected : ({ s with dead_workers := insert worker s.dead_workers } :
      RecoveryState).affected worker = s.affected worker := rfl
  unfold handle_decode_worker_failure RecoveryState.begun
  simp only [bind_apply, modify_apply, get_apply, haffected, RecoveryState.add_log]
  cases env.get_actor .to_deregister <;> by_cases hnil : env.list (s.affected worker) = [] <;>
    simp [hnil, bind_apply, modify_apply, pure_apply]

/-- No action takes effect. -/
theorem keeps_recover_one_request (env : Surroundings) (rom_config : ROMConfig) (worker : Nat)
    (target : Option Nat) (r : RequestId) :
    Keeps (fun s => s.recovered = []) (recover_one_request env rom_config worker target r) := by
  intro s hs
  rcases recover_one_request_cases env rom_config worker target r s with
    ⟨exc, -, he⟩ | ⟨decision, costs, s', -, he, ht⟩
  · rw [he]
    exact hs
  · rw [he]
    exact ht.recovered.trans hs

/-! ## The failure of a worker -/

section Failure

variable (env : Surroundings) (rom_config : ROMConfig) (e : DecodingStageLLMEngine)
  (dead_workers : Finset Nat) (worker : Nat) (error : String)

theorem none_recovered_after_failure :
    (leaves (handle_decode_worker_failure env rom_config worker error)
      (e.failing dead_workers)).recovered = [] := by
  have hloop := keeps_forM (env.list ((e.failing dead_workers).affected worker)) _
    (keeps_recover_one_request env rom_config worker env.target_worker_idx)
  have hbegun : ((e.failing dead_workers).begun env worker error).recovered = [] := rfl
  have hleaves := hloop.leaves hbegun
  unfold leaves at hleaves ⊢
  rwa [handle_decode_worker_failure_eq]

/-- After the failure of a worker, each affected request got the wanted action once, with
this action in the log, exactly when no request is affected. -/
theorem none_is_left_behind_iff_none_is_affected :
    (∀ r ∈ e.affected worker, env.Recovered rom_config e.worker_handles
      (leaves (handle_decode_worker_failure env rom_config worker error)
        (e.failing dead_workers)) r) ↔ e.affected worker = ∅ := by
  constructor
  · intro h
    rw [Finset.eq_empty_iff_forall_notMem]
    intro r hr
    have honce := (h r hr).once
    rw [none_recovered_after_failure] at honce
    cases honce
  · intro hnone r hr
    rw [hnone] at hr
    exact absurd hr (Finset.notMem_empty r)

end Failure

/-- Calls that all succeed. -/
def allSucceed : Surroundings where
  get_actor _ := .ok ()
  get_best_decode_worker := .ok (some 1)
  get_bandwidth _ := .ok 10000
  llm_engine := none
  block_table _ := some [0, 1]
  reach_target _ := .ok ()
  source _ _ := .kvcache_mem_handles []
  block_migration_op _ _ _ _ := .ok ()
  task_error_text text := text
  list s := (List.range (s.sup id + 1)).filter (· ∈ s)
  list_nodup s := List.nodup_range.filter _
  mem_list s r := by
    rw [List.mem_filter, List.mem_range, Nat.lt_succ_iff, decide_eq_true_iff]
    exact and_iff_right_of_imp (Finset.le_sup (f := id))

/-- The policy that never migrates. -/
def alwaysRecompute : ROMConfig where
  policy := .always_recompute
  sim_bandwidth_mbps := 10000
  num_layers := 32
  num_kv_heads := 32
  head_dim := 128
  dtype_bytes := 2
  prefill_time_table := AList.insert 64 (1 / 200) ∅

open runs DecodingStageLLMEngine in
/-- A request that should be recomputed is left behind, although all calls succeed. -/
theorem a_request_to_recompute_is_left_behind : ∃ e : DecodingStageLLMEngine,
    Reaches (step fun _ => none) (create ⟨1, 2, by decide, by decide⟩ ⟨2, by decide⟩ 8 8 1 4 4) e ∧
      0 ∈ e.affected 0 ∧
      ¬ ∀ r ∈ e.affected 0, allSucceed.Recovered alwaysRecompute e.worker_handles
        (leaves (handle_decode_worker_failure allSucceed alwaysRecompute 0 "died") (e.failing ∅))
        r := by
  obtain ⟨e, hr, he⟩ := reaches_of_any (m := step fun _ => none)
    (s := create ⟨1, 2, by decide, by decide⟩ ⟨2, by decide⟩ 8 8 1 4 4)
    [.add_request (firstToken 0), .begin_step 0, .wake, .migration_ends, .begin_step 1]
    (fun e => decide (0 ∈ e.affected 0)) (by decide +kernel)
  have haffected := of_decide_eq_true he
  refine ⟨e, hr, haffected, fun hall => ?_⟩
  have honce := (hall 0 haffected).once
  rw [none_recovered_after_failure] at honce
  cases honce

end distserve
