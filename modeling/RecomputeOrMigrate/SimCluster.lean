-- The clusters of the simulator (clusters/disagg.py, clusters/vllm.py), the workers as their
-- constructors leave them, and the estimated times of an iteration (time_estimator.py).
-- Rational numbers stand for the floats.
import Mathlib.Algebra.Order.Field.Rat
import Mathlib.Algebra.BigOperators.Group.List.Basic
import Mathlib.Data.List.Nodup
import RecomputeOrMigrate.General.Calls

open calls

namespace simdistserve

/-- The exceptions of the simulator. -/
inductive SimError
  | list_index_out_of_range
  /-- `ValueError(model_type)`. -/
  | value_error (model_type : String)
  | min_of_empty_sequence
  | key_error (model : String) (tp : Nat)
  | division_by_zero
  | negative_delay (delay : ℚ)
  /-- The assertions of the scheduler on the counter have no text. -/
  | assertion_failed
deriving DecidableEq

/-! ## Models -/

inductive ModelTypes
  | opt_13b
  | opt_66b
  | opt_175b
deriving DecidableEq

namespace ModelTypes

/-- The constant of the source. -/
def value : ModelTypes → String
  | .opt_13b => "OPT-13B"
  | .opt_66b => "OPT-66B"
  | .opt_175b => "OPT-175B"

def formalize_model_name : ModelTypes → String
  | .opt_13b => "facebook/opt-13b"
  | .opt_66b => "facebook/opt-66b"
  | .opt_175b => "facebook/opt-175b"

/-- The model with this constant. `formalize_model_name` raises on other strings. -/
def of_value (x : String) : Except SimError ModelTypes :=
  if x = value .opt_13b then .ok .opt_13b
  else if x = value .opt_66b then .ok .opt_66b
  else if x = value .opt_175b then .ok .opt_175b
  else .error (.value_error x)

end ModelTypes

/-! ## Configurations -/

inductive EngineType
  | distserve
  | vllm
deriving DecidableEq

/-- The keyword arguments of a worker. -/
structure WorkerConfig where
  model_type : String
  TP : Nat := 1
  TP_Prefill : Option Nat := none
  TP_Decode : Option Nat := none
  prefill_max_batch_size : Int := 10 ^ 7
  decode_max_batch_size : Int := 10 ^ 7
  prefill_max_tokens : Int := 10 ^ 7
  decode_max_tokens : Int := 10 ^ 7
  enable_chunked_prefill : Bool := false
  engine_type : EngineType := .distserve

/-- A limit that is not positive stands for a number that is big enough. -/
def positive_or_default (limit : Int) : Nat := if limit > 0 then limit.toNat else 10 ^ 7

namespace WorkerConfig

/-- The sizes that `Worker.__init__` keeps. One of `TP_Prefill` and `TP_Decode` alone is
ignored. -/
def tp_prefill (config : WorkerConfig) : Nat :=
  match config.TP_Prefill, config.TP_Decode with
  | some tp_prefill, some _ => tp_prefill
  | _, _ => config.TP

def tp_decode (config : WorkerConfig) : Nat :=
  match config.TP_Prefill, config.TP_Decode with
  | some _, some tp_decode => tp_decode
  | _, _ => 1

def max_prefill_batch (config : WorkerConfig) : Nat :=
  positive_or_default config.prefill_max_batch_size

def max_decode_batch (config : WorkerConfig) : Nat :=
  positive_or_default config.decode_max_batch_size

def max_prefill_tokens (config : WorkerConfig) : Nat :=
  positive_or_default config.prefill_max_tokens

def max_decode_tokens (config : WorkerConfig) : Nat :=
  positive_or_default config.decode_max_tokens

/-- `int(decode_max_batch_size * decode_back_pressure)`, where the factor is its default 0.9. -/
def back_pressure_threshold (config : WorkerConfig) : Nat := config.max_decode_batch * 9 / 10

end WorkerConfig

theorem positive_or_default_pos (limit : Int) : 0 < positive_or_default limit := by
  unfold positive_or_default
  split
  · omega
  · exact Nat.pos_of_ne_zero (by decide)

/-! ## Estimated times -/

/-- The fitted parameters of one model at one tensor parallelism. -/
structure ProfileRow where
  prefill : ℚ × ℚ × ℚ
  decoding_large_small_bs_threshold : Nat
  decoding_smallbs : ℚ × ℚ × ℚ
  decoding_largebs : ℚ × ℚ × ℚ

/-- The profile data of the two engines, by the formal name of the model and tensor parallelism. -/
structure Profiles where
  distserve_profile_data : String → Nat → Option ProfileRow
  vllm_profile_data : String → Nat → Option ProfileRow

def Profiles.row (profiles : Profiles) (engine_type : EngineType) (model_type : String)
    (TP : Nat) : Except SimError ProfileRow := do
  let profile_data := match engine_type with
    | .distserve => profiles.distserve_profile_data
    | .vllm => profiles.vllm_profile_data
  let model ← ModelTypes.of_value model_type
  match profile_data model.formalize_model_name TP with
  | none => .error (.key_error model.formalize_model_name TP)
  | some params => .ok params

/-- `1 / pp`. -/
def pp_factor (pp : Nat) : Except SimError ℚ :=
  if pp = 0 then .error .division_by_zero else .ok (1 / pp)

def get_prefill_time (profiles : Profiles) (engine_type : EngineType) (model_type : String)
    (TP pp : Nat) (prefill_len_list : List Nat) : Except SimError ℚ := do
  let params ← profiles.row engine_type model_type TP
  let (a, b, c) := params.prefill
  let factor ← pp_factor pp
  let num_total_tokens : Nat := prefill_len_list.sum
  let sum_num_tokens_sqr : Nat := (prefill_len_list.map (· ^ 2)).sum
  return (a + b * num_total_tokens + c * sum_num_tokens_sqr) * factor + pp

def get_decode_time (profiles : Profiles) (engine_type : EngineType) (model_type : String)
    (TP pp batch_size : Nat) (token_generated_list : List Nat) : Except SimError ℚ := do
  let params ← profiles.row engine_type model_type TP
  let (a, b, c) :=
    if batch_size < params.decoding_large_small_bs_threshold then params.decoding_smallbs
    else params.decoding_largebs
  let factor ← pp_factor pp
  let num_total_tokens : Nat := token_generated_list.sum
  return (a + b * num_total_tokens + c * batch_size) * factor

def add_ray_overhead (sum_of_tokens : Nat) : ℚ := 2 + sum_of_tokens * (1 / 10000)

/-! ## Clusters -/

/-- The fields of a worker that do not change. -/
structure Worker where
  wid : Nat
  pipe_rank : Nat
  is_last_in_pipeline : Bool
  next_worker : Nat
  should_request_stay : Bool
deriving DecidableEq

/-- A cluster, with the data that its workers read. All workers get the same arguments. The
global scheduler knows the first workers of the instances. -/
structure Cluster where
  config : WorkerConfig
  profiles : Profiles
  /-- The ids that `random.getrandbits` draws for the chunks, in order. -/
  uuids : Nat → Nat
  PP_prefill : Nat
  PP_decode : Nat
  prefill_instances : List (List Worker)
  decode_instances : List (List Worker)
  all_workers : List Worker

/-- One instance, chained cyclically. Its last worker keeps its requests when `stay` holds. -/
def make_instance (stay : Bool) (PP worker_id : Nat) : Except SimError (List Worker) :=
  if PP = 0 then .error .list_index_out_of_range
  else .ok ((List.range PP).map fun i =>
    { wid := worker_id + i
      pipe_rank := i
      is_last_in_pipeline := i + 1 = PP
      next_worker := if i + 1 = PP then worker_id else worker_id + i + 1
      should_request_stay := stay || i + 1 ≠ PP })

/-- The loop over the instances. The ids go on from `worker_id`. -/
def make_instances (stay : Bool) (PP : Nat) : Nat → Nat → Except SimError (List (List Worker))
  | 0, _ => .ok []
  | N + 1, worker_id => do
    let inst ← make_instance stay PP worker_id
    let rest ← make_instances stay PP N (worker_id + PP)
    return inst :: rest

def DisaggCluster (config : WorkerConfig) (profiles : Profiles) (uuids : Nat → Nat)
    (N_prefill_instance N_decode_instance PP_prefill PP_decode : Nat) :
    Except SimError Cluster := do
  let prefill_instances ← make_instances false PP_prefill N_prefill_instance 0
  let decode_instances ←
    make_instances true PP_decode N_decode_instance (N_prefill_instance * PP_prefill)
  return {
    config := config
    profiles := profiles
    uuids := uuids
    PP_prefill := PP_prefill
    PP_decode := PP_decode
    prefill_instances := prefill_instances
    decode_instances := decode_instances
    all_workers := (prefill_instances ++ decode_instances).flatten }

def VLLMCluster (config : WorkerConfig) (profiles : Profiles) (uuids : Nat → Nat)
    (N_instance PP : Nat) : Except SimError Cluster := do
  let instances ← make_instances true PP N_instance 0
  return {
    config := config
    profiles := profiles
    uuids := uuids
    PP_prefill := PP
    PP_decode := PP
    prefill_instances := instances
    decode_instances := instances
    all_workers := instances.flatten }

namespace Cluster

/-- The first workers of the instances. -/
def prefill_heads (c : Cluster) : List Nat := c.prefill_instances.filterMap (·.head?.map (·.wid))

def decode_heads (c : Cluster) : List Nat := c.decode_instances.filterMap (·.head?.map (·.wid))

/-- The worker with this id. -/
def worker (c : Cluster) (wid : Nat) : Worker :=
  (c.all_workers.find? (·.wid = wid)).getD ⟨wid, 0, true, wid, true⟩

end Cluster

/-! ## How the workers are chained -/

/-- The worker ids from `first` on are the stages of one pipeline, in order. -/
structure Pipeline (c : Cluster) (first PP : Nat) : Prop where
  pos : 0 < PP
  rank : ∀ k < PP, (c.worker (first + k)).pipe_rank = k
  last : ∀ k < PP, (c.worker (first + k)).is_last_in_pipeline = decide (k + 1 = PP)
  next : ∀ k < PP, (c.worker (first + k)).next_worker = if k + 1 = PP then first else first + k + 1
  started : ∀ k < PP, first + k ∈ c.all_workers.map (·.wid)

/-- A pipeline whose workers are one of these instances. -/
def IsInstance (c : Cluster) (instances : List (List Worker)) (PP first : Nat) : Prop :=
  Pipeline c first PP ∧ ∃ inst ∈ instances, inst.map (·.wid) = List.range' first PP

/-- The instances of a cluster are pipelines. A request that stays after its prefill is at the
head of an instance that decodes. -/
structure Cluster.Wired (c : Cluster) : Prop where
  prefill : ∀ first ∈ c.prefill_heads, IsInstance c c.prefill_instances c.PP_prefill first
  decode : ∀ first ∈ c.decode_heads, IsInstance c c.decode_instances c.PP_decode first
  stay : ∀ first ∈ c.prefill_heads,
    (c.worker (first + (c.PP_prefill - 1))).should_request_stay = true → first ∈ c.decode_heads

section wiring

variable {stay : Bool} {PP N worker_id : Nat} {inst : List Worker}
  {instances : List (List Worker)} {c : Cluster}

theorem make_instance_eq (h : make_instance stay PP worker_id = .ok inst) :
    0 < PP ∧ inst.map (·.wid) = List.range' worker_id PP ∧ ∀ w, w ∈ inst ↔ ∃ k < PP, w =
      { wid := worker_id + k
        pipe_rank := k
        is_last_in_pipeline := k + 1 = PP
        next_worker := if k + 1 = PP then worker_id else worker_id + k + 1
        should_request_stay := stay || k + 1 ≠ PP } := by
  unfold make_instance at h
  split at h
  · cases h
  · next hpos =>
    cases h
    refine ⟨Nat.pos_of_ne_zero hpos, ?_, ?_⟩
    · rw [List.map_map, List.range'_eq_map_range]
      rfl
    · intro w
      rw [List.mem_map]
      constructor
      · rintro ⟨k, hk, rfl⟩
        exact ⟨k, List.mem_range.mp hk, rfl⟩
      · rintro ⟨k, hk, rfl⟩
        exact ⟨k, List.mem_range.mpr hk, rfl⟩

/-- The ids of the instances follow each other. -/
theorem make_instances_wids (h : make_instances stay PP N worker_id = .ok instances) :
    instances.flatten.map (·.wid) = List.range' worker_id (N * PP) ∧
      ∀ inst ∈ instances, ∃ first, make_instance stay PP first = .ok inst := by
  induction N generalizing worker_id instances with
  | zero =>
    cases h
    refine ⟨?_, nofun⟩
    rw [Nat.zero_mul]
    rfl
  | succ N ih =>
    unfold make_instances at h
    obtain ⟨inst, hi, h⟩ := bind_eq_ok.mp h
    obtain ⟨rest, hr, h⟩ := bind_eq_ok.mp h
    cases h
    obtain ⟨hwids, hall⟩ := ih hr
    constructor
    · rw [List.flatten_cons, List.map_append, hwids, (make_instance_eq hi).2.1,
        List.range'_append_1, Nat.succ_mul, Nat.add_comm]
    · intro other hother
      rcases List.mem_cons.mp hother with rfl | hother
      · exact ⟨worker_id, hi⟩
      · exact hall other hother

theorem worker_eq (hnd : (c.all_workers.map (·.wid)).Nodup) {w : Worker}
    (hw : w ∈ c.all_workers) : c.worker w.wid = w := by
  unfold Cluster.worker
  cases hf : c.all_workers.find? (·.wid = w.wid) with
  | none =>
    rw [List.find?_eq_none] at hf
    exact absurd (decide_eq_true rfl) (hf w hw)
  | some v =>
    have hv := List.find?_some hf
    rw [decide_eq_true_eq] at hv
    exact List.inj_on_of_nodup_map hnd (List.mem_of_find?_eq_some hf) hw hv

/-- The head of an instance starts a pipeline. -/
theorem pipeline_of_make_instance (hnd : (c.all_workers.map (·.wid)).Nodup) {first : Nat}
    (h : make_instance stay PP first = .ok inst) (hall : ∀ w ∈ inst, w ∈ c.all_workers) :
    Pipeline c first PP ∧ (c.worker (first + (PP - 1))).should_request_stay = stay := by
  obtain ⟨hpos, -, hmem⟩ := make_instance_eq h
  have hworker : ∀ k < PP, c.worker (first + k) =
      { wid := first + k
        pipe_rank := k
        is_last_in_pipeline := k + 1 = PP
        next_worker := if k + 1 = PP then first else first + k + 1
        should_request_stay := stay || k + 1 ≠ PP } := by
    intro k hk
    exact worker_eq hnd (hall _ ((hmem _).mpr ⟨k, hk, rfl⟩))
  refine ⟨⟨hpos, ?_, ?_, ?_, ?_⟩, ?_⟩
  · intro k hk
    rw [hworker k hk]
  · intro k hk
    rw [hworker k hk]
  · intro k hk
    rw [hworker k hk]
  · intro k hk
    exact List.mem_map.mpr ⟨_, hall _ ((hmem _).mpr ⟨k, hk, rfl⟩), rfl⟩
  · rw [hworker (PP - 1) (Nat.sub_lt hpos Nat.one_pos)]
    have hlast : PP - 1 + 1 = PP := Nat.sub_add_cancel hpos
    simp [hlast]

theorem head_of_instance {first : Nat} (h : make_instance stay PP first = .ok inst) :
    inst.head?.map (·.wid) = some first := by
  obtain ⟨hpos, hwids, -⟩ := make_instance_eq h
  rw [← List.head?_map, hwids]
  obtain ⟨k, rfl⟩ := Nat.exists_eq_add_one.mpr hpos
  rfl

/-- The heads of the instances are instances of a cluster that has all their workers. -/
theorem isInstance_of_heads (hnd : (c.all_workers.map (·.wid)).Nodup)
    (h : make_instances stay PP N worker_id = .ok instances)
    (hall : ∀ inst ∈ instances, ∀ w ∈ inst, w ∈ c.all_workers) {first : Nat}
    (hf : first ∈ instances.filterMap (·.head?.map (·.wid))) :
    IsInstance c instances PP first ∧
      (c.worker (first + (PP - 1))).should_request_stay = stay := by
  obtain ⟨inst, hinst, hhead⟩ := List.mem_filterMap.mp hf
  obtain ⟨k, hk⟩ := (make_instances_wids h).2 inst hinst
  rw [head_of_instance hk] at hhead
  cases hhead
  obtain ⟨hpipe, hstay⟩ := pipeline_of_make_instance hnd hk (hall inst hinst)
  exact ⟨⟨hpipe, inst, hinst, (make_instance_eq hk).2.1⟩, hstay⟩

theorem disagg_wired {config : WorkerConfig} {profiles : Profiles} {uuids : Nat → Nat}
    {N_prefill N_decode PP_prefill PP_decode : Nat}
    (h : DisaggCluster config profiles uuids N_prefill N_decode PP_prefill PP_decode = .ok c) :
    c.Wired := by
  unfold DisaggCluster at h
  obtain ⟨prefill_instances, hp, h⟩ := bind_eq_ok.mp h
  obtain ⟨decode_instances, hd, h⟩ := bind_eq_ok.mp h
  cases h
  have hnd : ((prefill_instances ++ decode_instances).flatten.map (·.wid)).Nodup := by
    have hids : List.range' 0 (N_prefill * PP_prefill) ++
        List.range' (N_prefill * PP_prefill) (N_decode * PP_decode) =
        List.range' 0 (N_prefill * PP_prefill + N_decode * PP_decode) := by
      rw [← List.range'_append_1, Nat.zero_add]
    rw [List.flatten_append, List.map_append, (make_instances_wids hp).1,
      (make_instances_wids hd).1, hids]
    exact List.nodup_range'
  have hprefill : ∀ inst ∈ prefill_instances, ∀ w ∈ inst,
      w ∈ (prefill_instances ++ decode_instances).flatten :=
    fun inst hinst w hw => List.mem_flatten.mpr ⟨inst, List.mem_append_left _ hinst, hw⟩
  have hdecode : ∀ inst ∈ decode_instances, ∀ w ∈ inst,
      w ∈ (prefill_instances ++ decode_instances).flatten :=
    fun inst hinst w hw => List.mem_flatten.mpr ⟨inst, List.mem_append_right _ hinst, hw⟩
  constructor
  · intro first hf
    refine (isInstance_of_heads ?_ hp ?_ hf).1
    · exact hnd
    · exact hprefill
  · intro first hf
    refine (isInstance_of_heads ?_ hd ?_ hf).1
    · exact hnd
    · exact hdecode
  · intro first hf hstay
    refine absurd hstay (Bool.eq_false_iff.mp (isInstance_of_heads ?_ hp ?_ hf).2)
    · exact hnd
    · exact hprefill

theorem vllm_wired {config : WorkerConfig} {profiles : Profiles} {uuids : Nat → Nat}
    (h : VLLMCluster config profiles uuids N PP = .ok c) : c.Wired := by
  unfold VLLMCluster at h
  obtain ⟨instances, hi, h⟩ := bind_eq_ok.mp h
  cases h
  have hnd : (instances.flatten.map (·.wid)).Nodup := by
    rw [(make_instances_wids hi).1]
    exact List.nodup_range'
  have hall : ∀ inst ∈ instances, ∀ w ∈ inst, w ∈ instances.flatten :=
    fun inst hinst w hw => List.mem_flatten.mpr ⟨inst, hinst, hw⟩
  constructor
  · intro first hf
    refine (isInstance_of_heads ?_ hi ?_ hf).1
    · exact hnd
    · exact hall
  · intro first hf
    refine (isInstance_of_heads ?_ hi ?_ hf).1
    · exact hnd
    · exact hall
  · exact fun first hf _ => hf

end wiring

theorem disagg_fields {config : WorkerConfig} {profiles : Profiles} {uuids : Nat → Nat}
    {N_prefill N_decode PP_prefill PP_decode : Nat} {c : Cluster}
    (h : DisaggCluster config profiles uuids N_prefill N_decode PP_prefill PP_decode = .ok c) :
    c.config = config ∧ c.profiles = profiles ∧ c.PP_prefill = PP_prefill ∧
      c.PP_decode = PP_decode := by
  unfold DisaggCluster at h
  obtain ⟨prefill_instances, -, h⟩ := bind_eq_ok.mp h
  obtain ⟨decode_instances, -, h⟩ := bind_eq_ok.mp h
  cases h
  exact ⟨rfl, rfl, rfl, rfl⟩

/-- The clusters that the two constructors build. -/
inductive Constructed (c : Cluster) : Prop
  | disagg {config : WorkerConfig} {profiles : Profiles} {uuids : Nat → Nat}
      {N_prefill_instance N_decode_instance PP_prefill PP_decode : Nat}
      (h : DisaggCluster config profiles uuids N_prefill_instance N_decode_instance PP_prefill
        PP_decode = .ok c) : Constructed c
  | vllm {config : WorkerConfig} {profiles : Profiles} {uuids : Nat → Nat} {N_instance PP : Nat}
      (h : VLLMCluster config profiles uuids N_instance PP = .ok c) : Constructed c

theorem Constructed.wired {c : Cluster} (h : Constructed c) : c.Wired := by
  cases h with
  | disagg h => exact disagg_wired h
  | vllm h => exact vllm_wired h

/-! ## A small cluster -/

/-- The fitted parameters of `facebook/opt-13b` at a tensor parallelism of 1. -/
def opt_13b : ProfileRow where
  prefill := (18.10254647486372, 0.1019122572698738, 7.122264314252114e-06)
  decoding_large_small_bs_threshold := 95
  decoding_smallbs := (19.934702624895458, 0.0006269356524350583, 0.03850697740828398)
  decoding_largebs := (7.1661889468253595, 0.0005798000403396046, 0.15831096191764046)

def opt_13b_profiles : Profiles where
  distserve_profile_data model TP :=
    if model = "facebook/opt-13b" ∧ TP = 1 then some opt_13b else none
  vllm_profile_data _ _ := none

/-- One worker that prefills, and two that decode. -/
def small_cluster : Except SimError Cluster :=
  DisaggCluster { model_type := "OPT-13B" } opt_13b_profiles id 1 1 1 2

theorem small_cluster_constructed {c : Cluster} (h : small_cluster = .ok c) : Constructed c :=
  .disagg h

end simdistserve
