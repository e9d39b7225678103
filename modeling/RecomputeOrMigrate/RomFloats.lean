-- The decision between migration and recomputation (rom_decision.py, rom_config.py) in the
-- floats that the code computes with.
import RecomputeOrMigrate.General.Binary64
import RecomputeOrMigrate.General.Calls
import RecomputeOrMigrate.RomDecision

open binary64 calls

namespace distserve.floats

/-- `ROMConfig`, without the monitor and the log file. -/
structure ROMConfig where
  policy : RomPolicy
  sim_bandwidth_mbps : Binary64
  num_layers : Int
  num_kv_heads : Int
  head_dim : Int
  dtype_bytes : Int
  prefill_time_table : AList fun _ : Int => Binary64

/-- `ROMConfig()`. -/
def ROMConfig.default : ROMConfig where
  policy := .rom
  sim_bandwidth_mbps := of_rat false 10000
  num_layers := 32
  num_kv_heads := 32
  head_dim := 128
  dtype_bytes := 2
  prefill_time_table := List.toAList
    [⟨64, of_rat false (5 / 1000)⟩, ⟨128, of_rat false (10 / 1000)⟩,
      ⟨256, of_rat false (18 / 1000)⟩, ⟨512, of_rat false (32 / 1000)⟩,
      ⟨1024, of_rat false (60 / 1000)⟩, ⟨2048, of_rat false (115 / 1000)⟩,
      ⟨4096, of_rat false (225 / 1000)⟩, ⟨8192, of_rat false (440 / 1000)⟩]

/-- `validate` accepts the configuration. -/
structure ROMConfig.Valid (rom_config : ROMConfig) : Prop where
  sim_bandwidth_mbps : rom_config.sim_bandwidth_mbps.le (.finite (zero false)) = false
  num_layers : 0 < rom_config.num_layers
  num_kv_heads : 0 < rom_config.num_kv_heads
  head_dim : 0 < rom_config.head_dim
  dtype_bytes : rom_config.dtype_bytes ∈ [1, 2, 4]
  prefill_time_table : rom_config.prefill_time_table.keys ≠ []

def compute_kv_size_bytes_from_config (prompt_len : Int) (rom_config : ROMConfig) : Int :=
  compute_kv_size_bytes prompt_len rom_config.num_layers rom_config.num_kv_heads
    rom_config.head_dim rom_config.dtype_bytes

/-- A float, or the exception of the operation that has none. -/
def or_raise (error : PyError) : Option Binary64 → Except PyError Binary64
  | some x => .ok x
  | none => .error error

/-- The cost is `math.inf` when the link is down. The size is made a float before the division. -/
def compute_c_mig (kv_size_bytes : Int) (bandwidth_mbps : Binary64) : Except PyError Binary64 :=
  if bandwidth_mbps.le (.finite (zero false)) ∨ kv_size_bytes < 0 then return .infinite false
  else if kv_size_bytes = 0 then return .finite (zero false)
  else do
    let size ← or_raise .int_too_large (of_int kv_size_bytes)
    or_raise .division_by_zero (size.div (bandwidth_mbps.mul (of_rat false 1000000)))

/-- `_interpolate`. The fraction is a quotient of integers, and the line is computed in floats. -/
def interpolate (keys : List Int) (values : List Binary64) (x : Int) : Except PyError Binary64 := do
  if x ≤ (← item keys 0) then item values 0
  else if (← item keys (-1)) ≤ x then item values (-1)
  else
    let idx := bisect_right keys x
    let lo ← item keys (idx - 1)
    let hi ← item keys idx
    let t_lo ← item values (idx - 1)
    let t_hi ← item values idx
    if hi - lo = 0 then throw .division_by_zero
    let frac ← or_raise .quotient_too_large (int_div (x - lo) (hi - lo))
    return t_lo.add (frac.mul (t_hi.sub t_lo))

/-- The table is not empty, or this raises `ValueError`, also for the length 0. -/
def compute_c_recomp (prompt_len : Int) (prefill_time_table : AList fun _ : Int => Binary64) :
    Except PyError Binary64 :=
  if prefill_time_table.keys = [] then throw .empty_prefill_time_table
  else if prompt_len ≤ 0 then return .finite (zero false)
  else
    let keys := prefill_time_table.keys.insertionSort (· ≤ ·)
    let values := keys.filterMap prefill_time_table.lookup
    interpolate keys values prompt_len

/-- A tie goes to the migration. -/
def make_decision (prompt_len : Int) (bandwidth_mbps : Binary64) (rom_config : ROMConfig) :
    Except PyError (RomDecision × Binary64 × Binary64) := do
  let kv_bytes := compute_kv_size_bytes_from_config prompt_len rom_config
  let c_mig ← compute_c_mig kv_bytes bandwidth_mbps
  let c_recomp ← compute_c_recomp prompt_len rom_config.prefill_time_table
  let decision := match rom_config.policy with
    | .always_migrate => RomDecision.migrate
    | .always_recompute => .recompute
    | .rom => if c_mig.le c_recomp then .migrate else .recompute
  return (decision, c_mig, c_recomp)

theorem default_valid : ROMConfig.default.Valid :=
  ⟨by decide +kernel, by decide, by decide, by decide, by decide, by decide +kernel⟩

variable {p : Int} {bw c_mig c_recomp : Binary64} {rom_config : ROMConfig} {d : RomDecision}

/-- The migration cost of a prompt. -/
def migration_cost (p : Int) (bandwidth_mbps : Binary64) (rom_config : ROMConfig) :
    Except PyError Binary64 :=
  compute_c_mig (compute_kv_size_bytes_from_config p rom_config) bandwidth_mbps

/-- `make_decision` compares the two costs. -/
theorem make_decision_ok_iff (hpol : rom_config.policy = .rom) :
    make_decision p bw rom_config = .ok (d, c_mig, c_recomp) ↔
      migration_cost p bw rom_config = .ok c_mig ∧
        compute_c_recomp p rom_config.prefill_time_table = .ok c_recomp ∧
          d = if c_mig.le c_recomp then .migrate else .recompute := by
  unfold make_decision migration_cost
  rw [bind_eq_ok]
  constructor
  · rintro ⟨m, hm, h⟩
    obtain ⟨t, ht, h⟩ := bind_eq_ok.mp h
    rw [hpol] at h
    cases h
    exact ⟨hm, ht, rfl⟩
  · rintro ⟨hm, ht, rfl⟩
    refine ⟨c_mig, hm, bind_eq_ok.mpr ⟨c_recomp, ht, ?_⟩⟩
    rw [hpol]
    rfl

end distserve.floats
