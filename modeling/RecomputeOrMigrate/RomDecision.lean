-- The decision between migration and recomputation (rom_decision.py, rom_config.py), with
-- rational numbers for the floats.
import Mathlib.Algebra.Order.Field.Rat
import Mathlib.Data.List.AList
import Mathlib.Data.List.Sort
import Mathlib.Order.WithBot
import RecomputeOrMigrate.Errors

namespace distserve

/-- The valid values of `ROMConfig.policy`. -/
inductive RomPolicy
  | rom
  | always_migrate
  | always_recompute
deriving DecidableEq

/-- `DecisionStr`. -/
inductive RomDecision
  | migrate
  | recompute
deriving DecidableEq

/-- `ROMConfig`, without the monitor and the log file. -/
structure ROMConfig where
  policy : RomPolicy
  sim_bandwidth_mbps : ℚ
  num_layers : Int
  num_kv_heads : Int
  head_dim : Int
  dtype_bytes : Int
  prefill_time_table : AList fun _ : Int => ℚ

def compute_kv_size_bytes (prompt_len num_layers num_kv_heads head_dim dtype_bytes : Int) : Int :=
  if prompt_len ≤ 0 then 0
  else 2 * num_layers * num_kv_heads * head_dim * prompt_len * dtype_bytes

def compute_kv_size_bytes_from_config (prompt_len : Int) (rom_config : ROMConfig) : Int :=
  compute_kv_size_bytes prompt_len rom_config.num_layers rom_config.num_kv_heads
    rom_config.head_dim rom_config.dtype_bytes

/-- The cost is `math.inf` when the link is down. -/
def compute_c_mig (kv_size_bytes : Int) (bandwidth_mbps : ℚ) : WithTop ℚ :=
  if bandwidth_mbps ≤ 0 ∨ kv_size_bytes < 0 then ⊤
  else if kv_size_bytes = 0 then 0
  else ((kv_size_bytes / (bandwidth_mbps * 1000000) : ℚ) : WithTop ℚ)

/-- `xs[i]`. A negative index counts from the end. -/
def item {α : Type} (xs : List α) (i : Int) : Except PyError α :=
  match if 0 ≤ i then xs[i.toNat]?
    else if -xs.length ≤ i then xs[(xs.length + i).toNat]? else none with
  | some x => .ok x
  | none => .error .list_index_out_of_range

/-- `bisect.bisect_right`, for a sorted list. -/
def bisect_right (keys : List Int) (x : Int) : Int := (keys.takeWhile (· ≤ x)).length

/-- `_interpolate`. -/
def interpolate (keys : List Int) (values : List ℚ) (x : Int) : Except PyError ℚ := do
  if x ≤ (← item keys 0) then item values 0
  else if (← item keys (-1)) ≤ x then item values (-1)
  else
    let idx := bisect_right keys x
    let lo ← item keys (idx - 1)
    let hi ← item keys idx
    let t_lo ← item values (idx - 1)
    let t_hi ← item values idx
    if hi - lo = 0 then throw .division_by_zero
    let frac : ℚ := (x - lo) / (hi - lo)
    return t_lo + frac * (t_hi - t_lo)

/-- The table is not empty, or this raises `ValueError`, also for the length 0. -/
def compute_c_recomp (prompt_len : Int) (prefill_time_table : AList fun _ : Int => ℚ) :
    Except PyError ℚ :=
  if prefill_time_table.keys = [] then throw .empty_prefill_time_table
  else if prompt_len ≤ 0 then return 0
  else
    let keys := prefill_time_table.keys.insertionSort (· ≤ ·)
    let values := keys.filterMap prefill_time_table.lookup
    interpolate keys values prompt_len

/-- A tie goes to the migration. -/
def make_decision (prompt_len : Int) (bandwidth_mbps : ℚ) (rom_config : ROMConfig) :
    Except PyError (RomDecision × WithTop ℚ × ℚ) := do
  let kv_bytes := compute_kv_size_bytes_from_config prompt_len rom_config
  let c_mig := compute_c_mig kv_bytes bandwidth_mbps
  let c_recomp ← compute_c_recomp prompt_len rom_config.prefill_time_table
  let decision := match rom_config.policy with
    | .always_migrate => RomDecision.migrate
    | .always_recompute => .recompute
    | .rom => if c_mig ≤ c_recomp then .migrate else .recompute
  return (decision, c_mig, c_recomp)

/-- `LLMEngine.get_rom_decision`. The key of the map is the argument `request_id` of
`generate`. Without an override, the local scheduler gives the bandwidth. -/
def get_rom_decision (rom_config : ROMConfig) (prompt_len_map : Option RequestId → Option Nat)
    (get_bandwidth : Except PyError ℚ) (request_id : RequestId)
    (bandwidth_mbps_override : Option ℚ) :
    Except PyError (RomDecision × Nat × WithTop ℚ × ℚ) := do
  let prompt_len := (prompt_len_map (some request_id)).getD 0
  let bw ← match bandwidth_mbps_override with
    | some bandwidth_mbps => pure bandwidth_mbps
    | none => get_bandwidth
  let (decision, c_mig, c_recomp) ← make_decision prompt_len bw rom_config
  return (decision, prompt_len, c_mig, c_recomp)

end distserve
