-- The search for the best rate of one configuration of the simulated cluster
-- (benchmarks/search_binary.py), with rational numbers for the floats.
import Mathlib.Algebra.Order.Archimedean.Basic
import Mathlib.Algebra.Order.Field.Rat
import Mathlib.Data.Rat.Floor
import Mathlib.Tactic.Linarith
import Mathlib.Tactic.Ring

namespace simdistserve

/-! ## The search -/

/-- A configuration of each backend. -/
inductive SearchConfig
  | distserve (pp_cross tp_prefill pp_prefill tp_decode pp_decode : Nat)
  | vllm (tp pp : Nat)
deriving DecidableEq

def SearchConfig.backend : SearchConfig → String
  | .distserve .. => "distserve"
  | .vllm .. => "vllm"

def SearchConfig.num_gpu : SearchConfig → Nat
  | .distserve pp_cross tp_prefill pp_prefill tp_decode pp_decode =>
    pp_cross * (tp_prefill * pp_prefill + tp_decode * pp_decode)
  | .vllm tp pp => tp * pp

/-- The arguments of `run_binary_search` that all configurations share, with the formal name of
the model. -/
structure SearchTask where
  model_type : String
  prefill_target : Int
  decode_target : Int
  prefill_containment : Int
  decode_containment : Int
  max_per_gpu_rate : ℚ
  esp : ℚ
  N : Nat

/-- The arguments that `parse_args` gives to `run_experiment`. -/
structure ExperimentArgs where
  N : Nat
  prefill_containment : Int
  prefill_target : Int
  decode_containment : Int
  decode_target : Int
  model : String
  backend : String
  tp_prefill : Nat
  pp_prefill : Nat
  tp_decode : Nat
  pp_decode : Nat
  rate : ℚ

/-- `fixed_args`, `config_args` and the rate. -/
def experiment_args (task : SearchTask) (config : SearchConfig) (rate : ℚ) : ExperimentArgs where
  N := task.N
  prefill_containment := task.prefill_containment
  prefill_target := task.prefill_target
  decode_containment := task.decode_containment
  decode_target := task.decode_target
  model := task.model_type
  backend := config.backend
  tp_prefill := match config with
    | .distserve _ tp_prefill _ _ _ => tp_prefill
    | .vllm tp _ => tp
  pp_prefill := match config with
    | .distserve pp_cross _ pp_prefill _ _ => pp_cross * pp_prefill
    | .vllm _ pp => pp
  tp_decode := match config with
    | .distserve _ _ _ tp_decode _ => tp_decode
    | .vllm _ _ => 0
  pp_decode := match config with
    | .distserve pp_cross _ _ _ pp_decode => pp_cross * pp_decode
    | .vllm _ _ => 0
  rate := rate

section search

variable {ε : Type}

/-- The experiments: each raises or says whether both stages contain their targets. Without a
containment to check, a stage gives `None`. -/
abbrev Experiment (ε : Type) := ExperimentArgs → Except ε (Option Bool × Option Bool)

/-- One experiment at a rate for each GPU, and its `success`. -/
def simulate (run_experiment : Experiment ε) (task : SearchTask) (config : SearchConfig)
    (this_rate : ℚ) : Except ε Bool := do
  let (is_prefill_contained, is_decode_contained) ←
    run_experiment (experiment_args task config (this_rate * config.num_gpu))
  return is_prefill_contained.getD false && is_decode_contained.getD false

/-- The variables of the loop, with the rates of `time_durations`. -/
structure Bracket where
  low : ℚ
  high : ℚ
  best_per_gpu_rate : ℚ
  time_durations : List ℚ

/-- Update the range. -/
def Bracket.narrow (b : Bracket) (this_rate : ℚ) (success : Bool) : Bracket :=
  let b := { b with time_durations := b.time_durations ++ [this_rate] }
  if success then { b with low := this_rate, best_per_gpu_rate := this_rate }
  else { b with high := this_rate }

/-- The loop of `run_binary_search`, with at most `fuel` turns. An experiment that raises ends
it without a rate. -/
def search_loop (simulate : ℚ → Except ε Bool) (esp : ℚ) : Nat → Bracket → Option (Option Bracket)
  | 0, _ => none
  | fuel + 1, b =>
    if esp < b.high - b.low then
      let this_rate := (b.low + b.high) / 2
      match simulate this_rate with
      | .error _ => some none
      | .ok success => search_loop simulate esp fuel (b.narrow this_rate success)
    else some (some b)

/-- The range before the first turn. -/
def SearchTask.bracket (task : SearchTask) : Bracket :=
  ⟨0, task.max_per_gpu_rate, 0, []⟩

/-- `run_binary_search`: the best rate, or `None`. -/
def run_binary_search (run_experiment : Experiment ε) (task : SearchTask) (config : SearchConfig)
    (fuel : Nat) : Option (Option ℚ) :=
  (search_loop (simulate run_experiment task config) task.esp fuel task.bracket).map
    (·.map (·.best_per_gpu_rate))

/-! ## One turn -/

variable {attempt : ℚ → Except ε Bool} {esp top : ℚ} {b b' : Bracket}

/-- A lower rate than a successful one is successful too. -/
def DownwardClosed (attempt : ℚ → Except ε Bool) : Prop :=
  ∀ r r', 0 < r' → r' ≤ r → attempt r = .ok true → attempt r' = .ok true

/-- The range from `low` to `high`: `low` is the best rate, it is 0 or was simulated with
success, and no rate above `high` is successful when success is downward closed. -/
structure Sound (attempt : ℚ → Except ε Bool) (top : ℚ) (b : Bracket) : Prop where
  best : b.best_per_gpu_rate = b.low
  nonneg : 0 ≤ b.low
  found : b.low = 0 ∨ (b.low ∈ b.time_durations ∧ attempt b.low = .ok true)
  fails : DownwardClosed attempt → ∀ r, r ≤ top → attempt r = .ok true → r ≤ b.high

theorem sound_start : Sound attempt top ⟨0, top, 0, []⟩ :=
  ⟨rfl, le_rfl, .inl rfl, fun _ _ h _ => h⟩

/-- A turn halves the range. -/
theorem narrow_width (success : Bool) :
    (b.narrow ((b.low + b.high) / 2) success).high - (b.narrow ((b.low + b.high) / 2) success).low =
      (b.high - b.low) / 2 := by
  unfold Bracket.narrow
  cases success
  · simp only [Bool.false_eq_true, if_false]
    ring
  · simp only [if_true]
    ring

theorem Sound.narrow (h : Sound attempt top b) (hwide : 0 < b.high - b.low) {success : Bool}
    (hs : attempt ((b.low + b.high) / 2) = .ok success) :
    Sound attempt top (b.narrow ((b.low + b.high) / 2) success) := by
  have hlow := h.nonneg
  have hrate : 0 < (b.low + b.high) / 2 := by linarith
  unfold Bracket.narrow
  cases success with
  | true =>
    simp only [if_true]
    refine ⟨rfl, hrate.le, .inr ⟨List.mem_append_right _ List.mem_cons_self, hs⟩, h.fails⟩
  | false =>
    simp only [Bool.false_eq_true, if_false]
    refine ⟨h.best, hlow, h.found.imp_right (And.imp_left (List.mem_append_left _)), ?_⟩
    intro hdown r hr hsucc
    -- a success above the rate that failed would make it succeed
    by_contra hlt
    rw [hdown r _ hrate (not_le.mp hlt).le hsucc] at hs
    cases hs

/-! ## The loop -/

theorem search_loop_sound (hesp : 0 < esp) {fuel : Nat} (h : Sound attempt top b)
    (hl : search_loop attempt esp fuel b = some (some b')) :
    Sound attempt top b' ∧ b'.high - b'.low ≤ esp := by
  induction fuel generalizing b with
  | zero => cases hl
  | succ fuel ih =>
    unfold search_loop at hl
    split at hl
    · next hwide =>
      dsimp only at hl
      cases hs : attempt ((b.low + b.high) / 2) with
      | error e =>
        rw [hs] at hl
        cases hl
      | ok success =>
        rw [hs] at hl
        exact ih (h.narrow (hesp.trans hwide) hs) hl
    · next hnarrow =>
      cases hl
      exact ⟨h, not_lt.mp hnarrow⟩

/-- With a turn for each halving of the range the loop comes to an end. -/
theorem search_loop_ends {n : Nat} (hn : b.high - b.low ≤ esp * 2 ^ n) {fuel : Nat}
    (hfuel : n < fuel) : ∃ outcome, search_loop attempt esp fuel b = some outcome := by
  induction n generalizing b fuel with
  | zero =>
    obtain ⟨fuel, rfl⟩ := Nat.exists_eq_add_one.mpr (Nat.zero_lt_of_lt hfuel)
    rw [pow_zero, mul_one] at hn
    unfold search_loop
    rw [if_neg (not_lt.mpr hn)]
    exact ⟨_, rfl⟩
  | succ n ih =>
    obtain ⟨fuel, rfl⟩ := Nat.exists_eq_add_one.mpr (Nat.zero_lt_of_lt hfuel)
    unfold search_loop
    split
    · dsimp only
      cases attempt ((b.low + b.high) / 2) with
      | error e => exact ⟨_, rfl⟩
      | ok success =>
        apply ih _ (Nat.lt_of_succ_lt_succ hfuel)
        rw [pow_succ] at hn
        rw [narrow_width]
        linarith
    · exact ⟨_, rfl⟩

/-- More turns than needed change nothing. -/
theorem search_loop_mono {fuel : Nat} {outcome : Option Bracket}
    (h : search_loop attempt esp fuel b = some outcome) {fuel' : Nat} (hle : fuel ≤ fuel') :
    search_loop attempt esp fuel' b = some outcome := by
  induction fuel generalizing b fuel' with
  | zero => cases h
  | succ fuel ih =>
    obtain ⟨fuel', rfl⟩ := Nat.exists_eq_add_one.mpr (Nat.lt_of_lt_of_le (Nat.succ_pos fuel) hle)
    unfold search_loop at h ⊢
    split
    · next hwide =>
      rw [if_pos hwide] at h
      dsimp only at h ⊢
      cases hs : attempt ((b.low + b.high) / 2) with
      | error e =>
        rw [hs] at h
        exact h
      | ok success =>
        rw [hs] at h
        exact ih h (Nat.le_of_succ_le_succ hle)
    · next hnarrow =>
      rw [if_neg hnarrow] at h
      exact h

/-! ## The rate that it returns -/

variable {run_experiment : Experiment ε} {task : SearchTask} {config : SearchConfig}
  {outcome outcome' : Option ℚ}

/-- `run_binary_search` returns this for the configuration. -/
def Returns (run_experiment : Experiment ε) (task : SearchTask) (config : SearchConfig)
    (outcome : Option ℚ) : Prop :=
  ∃ fuel, run_binary_search run_experiment task config fuel = some outcome

/-- The search of the configuration simulates this rate. -/
def Simulated (run_experiment : Experiment ε) (task : SearchTask) (config : SearchConfig)
    (rate : ℚ) : Prop :=
  ∃ fuel b, search_loop (simulate run_experiment task config) task.esp fuel task.bracket =
    some (some b) ∧ rate ∈ b.time_durations

/-- The experiment of a configuration succeeds at a rate. -/
def Succeeds (run_experiment : Experiment ε) (task : SearchTask) (config : SearchConfig)
    (rate : ℚ) : Prop :=
  simulate run_experiment task config rate = .ok true

/-- The search of each configuration comes to an end. -/
theorem run_binary_search_returns (run_experiment : Experiment ε) (config : SearchConfig)
    (hesp : 0 < task.esp) : ∃ outcome, Returns run_experiment task config outcome := by
  obtain ⟨n, hn⟩ := pow_unbounded_of_one_lt (task.max_per_gpu_rate / task.esp) one_lt_two
  have hwidth : task.bracket.high - task.bracket.low ≤ task.esp * 2 ^ n := by
    change task.max_per_gpu_rate - 0 ≤ _
    rw [sub_zero, mul_comm]
    exact ((div_lt_iff₀ hesp).mp hn).le
  have hends : ∃ outcome, search_loop (simulate run_experiment task config) task.esp (n + 1)
      task.bracket = some outcome :=
    search_loop_ends hwidth (Nat.lt_succ_self n)
  obtain ⟨outcome, ho⟩ := hends
  refine ⟨outcome.map (·.best_per_gpu_rate), n + 1, ?_⟩
  unfold run_binary_search
  rw [ho]
  rfl

theorem Returns.unique (h : Returns run_experiment task config outcome)
    (h' : Returns run_experiment task config outcome') : outcome = outcome' := by
  obtain ⟨fuel, h⟩ := h
  obtain ⟨fuel', h'⟩ := h'
  unfold run_binary_search at h h'
  obtain ⟨b, hb, rfl⟩ := Option.map_eq_some_iff.mp h
  obtain ⟨b', hb', rfl⟩ := Option.map_eq_some_iff.mp h'
  have hmax := search_loop_mono hb (Nat.le_max_left fuel fuel')
  rw [search_loop_mono hb' (Nat.le_max_right fuel fuel')] at hmax
  rw [Option.some.inj hmax]

/-- The rate that a search returns starts a range no wider than `esp`. -/
theorem Returns.range (hesp : 0 < task.esp) {rate : ℚ}
    (h : Returns run_experiment task config (some rate)) :
    ∃ fuel b, search_loop (simulate run_experiment task config) task.esp fuel task.bracket =
        some (some b) ∧
      Sound (simulate run_experiment task config) task.max_per_gpu_rate b ∧
      b.high ≤ rate + task.esp ∧ b.low = rate := by
  obtain ⟨fuel, h⟩ := h
  unfold run_binary_search at h
  obtain ⟨outcome, hb, he⟩ := Option.map_eq_some_iff.mp h
  obtain ⟨b, rfl, rfl⟩ := Option.map_eq_some_iff.mp he
  obtain ⟨hsound, hwidth⟩ := search_loop_sound hesp sound_start hb
  refine ⟨fuel, b, hb, hsound, ?_, hsound.best.symm⟩
  rw [hsound.best]
  linarith

/-- It is 0 or was simulated with success. -/
theorem Returns.found (hesp : 0 < task.esp) {rate : ℚ}
    (h : Returns run_experiment task config (some rate)) :
    0 ≤ rate ∧ (rate = 0 ∨
      (Simulated run_experiment task config rate ∧ Succeeds run_experiment task config rate)) := by
  obtain ⟨fuel, b, hb, hsound, -, rfl⟩ := h.range hesp
  refine ⟨hsound.nonneg, hsound.found.imp_right ?_⟩
  rintro ⟨hmem, hsucc⟩
  exact ⟨⟨fuel, b, hb, hmem⟩, hsucc⟩

/-- No successful rate is more than `esp` above it. -/
theorem Returns.near (hesp : 0 < task.esp) {rate r : ℚ}
    (h : Returns run_experiment task config (some rate))
    (hdown : DownwardClosed (simulate run_experiment task config))
    (hr : r ≤ task.max_per_gpu_rate) (hsucc : Succeeds run_experiment task config r) :
    r ≤ rate + task.esp := by
  obtain ⟨fuel, b, -, hsound, hhigh, -⟩ := h.range hesp
  exact (hsound.fails hdown r hr hsucc).trans hhigh

end search

end simdistserve
