-- The search for the best configuration in parallel processes (benchmarks/parallel_bisect.py).
-- Each process searches the rate of one configuration and writes it to a dictionary that they
-- share. The processes and the main process interleave in any way.
import RecomputeOrMigrate.BestConfig
import RecomputeOrMigrate.General.Dicts
import RecomputeOrMigrate.General.Runs
import RecomputeOrMigrate.SearchSpace

open dicts runs

namespace simdistserve

/-! ## The model -/

inductive Backend
  | distserve
  | vllm
deriving DecidableEq

def Backend.name : Backend → String
  | .distserve => "distserve"
  | .vllm => "vllm"

/-- The arguments of `main`, with the four parts of `attainment`. -/
structure SearchArgs where
  num_node : Nat
  num_gpu_per_node : Nat
  model_type : ModelTypes
  is_dist_high : Bool
  backend : Backend
  prefill_target : Int
  decode_target : Int
  prefill_containment : Int
  decode_containment : Int
  max_per_gpu_rate : ℚ
  esp : ℚ
  N : Nat

/-- What each process gets beside its configuration. -/
def SearchArgs.task (args : SearchArgs) : SearchTask where
  model_type := args.model_type.formalize_model_name
  prefill_target := args.prefill_target
  decode_target := args.decode_target
  prefill_containment := args.prefill_containment
  decode_containment := args.decode_containment
  max_per_gpu_rate := args.max_per_gpu_rate
  esp := args.esp
  N := args.N

def SearchArgs.configs (args : SearchArgs) : List SearchConfig :=
  match args.backend with
  | .distserve =>
    get_distserve_configs args.model_type args.num_node args.num_gpu_per_node args.is_dist_high
  | .vllm => get_vllm_config args.model_type (args.num_node * args.num_gpu_per_node)

/-- The configurations that the search is to go over. -/
def SearchArgs.Possible (args : SearchArgs) (config : SearchConfig) : Prop :=
  config.backend = args.backend.name ∧
    Placeable args.model_type args.num_node args.num_gpu_per_node args.is_dist_high config

theorem SearchArgs.mem_configs {args : SearchArgs} {config : SearchConfig} :
    config ∈ args.configs ↔ args.Possible config := by
  unfold configs Possible
  cases args.backend with
  | distserve => exact mem_get_distserve_configs
  | vllm => exact mem_get_vllm_config

theorem SearchArgs.configs_nodup (args : SearchArgs) : args.configs.Nodup := by
  unfold configs
  cases args.backend with
  | distserve => exact get_distserve_configs_nodup
  | vllm => exact get_vllm_config_nodup

/-- Where a process is in `run_binary_search`: before a turn of the loop, after the return, or it
is not alive any more. -/
inductive Search
  | looping (b : Bracket)
  | returned
  | exited

/-- A process that was started. -/
structure SearchProcess where
  config : SearchConfig
  search : Search

/-- `is_alive()`. -/
def SearchProcess.is_alive (p : SearchProcess) : Bool :=
  match p.search with
  | .exited => false
  | _ => true

/-- Where `main` is. -/
inductive MainPoint
  /-- Before the next turn of the loop over the configurations. -/
  | next
  /-- Before it looks at `processes[i]`, with the process of `config` not yet started. -/
  | looks (config : SearchConfig) (i : Nat)
  /-- In the sleep after it looked at all processes or found one that ended. -/
  | sleeps (config : SearchConfig) (found : Bool)
  /-- Before it joins `processes[i]`. -/
  | joins (i : Nat)
  | returned (result : Dict SearchConfig ℚ)

/-- `main` and its processes. The list `configs` has those that the loop still goes over, and
`processes` the pids that it holds. All processes that were started are in `started`, in the order
of their pids. -/
structure SearchPool where
  point : MainPoint
  configs : List SearchConfig
  processes : List Nat
  started : List SearchProcess
  result : Dict SearchConfig ℚ

namespace SearchPool

def init (configs : List SearchConfig) : SearchPool := ⟨.next, configs, [], [], .empty⟩

/-- `processes[i].is_alive()` for the process with this pid. -/
def is_alive (s : SearchPool) (pid : Nat) : Bool := s.started[pid]?.any SearchProcess.is_alive

/-- `proc.start()` and `processes.append(proc)`. -/
def start (s : SearchPool) (config : SearchConfig) (bracket : Bracket) : SearchPool :=
  { s with
    point := .next
    processes := s.processes ++ [s.started.length]
    started := s.started ++ [⟨config, .looping bracket⟩] }

/-- The process goes on to this point. -/
def goes_on (s : SearchPool) (pid : Nat) (p : SearchProcess) (search : Search) : SearchPool :=
  { s with started := s.started.set pid { p with search } }

variable {ε : Type} (run_experiment : Experiment ε) (task : SearchTask) (max_cpu_count : Int)

/-- The main process goes on. It waits in `join` as long as the process is alive. -/
def main (s : SearchPool) : Option SearchPool :=
  match s.point with
  | .next =>
    match s.configs with
    | [] => some { s with point := .joins 0 }
    | config :: rest =>
      let s := { s with configs := rest }
      if (s.processes.length : Int) ≥ max_cpu_count then some { s with point := .looks config 0 }
      else some (s.start config task.bracket)
  | .looks config i =>
    match s.processes[i]? with
    | none => some { s with point := .sleeps config false }
    | some pid =>
      if s.is_alive pid then some { s with point := .looks config (i + 1) }
      else some { s with point := .sleeps config true, processes := s.processes.eraseIdx i }
  | .sleeps config found =>
    if found then some (s.start config task.bracket)
    else some { s with point := .looks config 0 }
  | .joins i =>
    match s.processes[i]? with
    | none => some { s with point := .returned s.result }
    | some pid => if s.is_alive pid then none else some { s with point := .joins (i + 1) }
  | .returned _ => none

/-- A process goes on: it does a turn of the loop of `run_binary_search`, returns or exits. An
experiment that raises makes it return without a rate. -/
def turn (s : SearchPool) (pid : Nat) : Option SearchPool :=
  match s.started[pid]? with
  | none => none
  | some p =>
    match p.search with
    | .looping b =>
      if task.esp < b.high - b.low then
        let this_rate := (b.low + b.high) / 2
        match simulate run_experiment task p.config this_rate with
        | .error _ => some (s.goes_on pid p .returned)
        | .ok success => some (s.goes_on pid p (.looping (b.narrow this_rate success)))
      else some { s.goes_on pid p .returned with
        result := s.result.set p.config b.best_per_gpu_rate }
    | .returned => some (s.goes_on pid p .exited)
    | .exited => none

inductive Action
  | main
  | turn (pid : Nat)

/-- Nothing raises out of `main` or out of a process. -/
def step : Machine Empty SearchPool Action
  | s, .main => (s.main task max_cpu_count).map .ok
  | s, .turn pid => (s.turn run_experiment task pid).map .ok

variable {run_experiment : Experiment ε} {task : SearchTask} {max_cpu_count : Int}
  {s s' : SearchPool} {pid : Nat}

/-! ## What a step does -/

/-- A step of the main process. -/
inductive MainStep (task : SearchTask) (max_cpu_count : Int) (s : SearchPool) : SearchPool → Prop
  | ends_loop (point : s.point = .next) (configs : s.configs = []) :
      MainStep task max_cpu_count s { s with point := .joins 0 }
  | waits {config : SearchConfig} {rest : List SearchConfig} (point : s.point = .next)
      (configs : s.configs = config :: rest) (full : max_cpu_count ≤ s.processes.length) :
      MainStep task max_cpu_count s { s with configs := rest, point := .looks config 0 }
  | starts {config : SearchConfig} {rest : List SearchConfig} (point : s.point = .next)
      (configs : s.configs = config :: rest) (free : (s.processes.length : Int) < max_cpu_count) :
      MainStep task max_cpu_count s ({ s with configs := rest }.start config task.bracket)
  | passes {config : SearchConfig} {i pid : Nat} (point : s.point = .looks config i)
      (held : s.processes[i]? = some pid) (alive : s.is_alive pid = true) :
      MainStep task max_cpu_count s { s with point := .looks config (i + 1) }
  | pops {config : SearchConfig} {i pid : Nat} (point : s.point = .looks config i)
      (held : s.processes[i]? = some pid) (dead : s.is_alive pid = false) :
      MainStep task max_cpu_count s
        { s with point := .sleeps config true, processes := s.processes.eraseIdx i }
  | finds_none {config : SearchConfig} {i : Nat} (point : s.point = .looks config i)
      (all : s.processes[i]? = none) :
      MainStep task max_cpu_count s { s with point := .sleeps config false }
  | starts_next {config : SearchConfig} (point : s.point = .sleeps config true) :
      MainStep task max_cpu_count s (s.start config task.bracket)
  | looks_again {config : SearchConfig} (point : s.point = .sleeps config false) :
      MainStep task max_cpu_count s { s with point := .looks config 0 }
  | joins {i pid : Nat} (point : s.point = .joins i) (held : s.processes[i]? = some pid)
      (dead : s.is_alive pid = false) :
      MainStep task max_cpu_count s { s with point := .joins (i + 1) }
  | returns {i : Nat} (point : s.point = .joins i) (all : s.processes[i]? = none) :
      MainStep task max_cpu_count s { s with point := .returned s.result }

theorem main_cases (h : s.main task max_cpu_count = some s') :
    MainStep task max_cpu_count s s' := by
  unfold main at h
  split at h
  · next hpoint =>
    split at h
    · next hconfigs =>
      cases h
      exact .ends_loop hpoint hconfigs
    · next config rest hconfigs =>
      dsimp only at h
      split at h
      · next hfull =>
        cases h
        exact .waits hpoint hconfigs hfull
      · next hfree =>
        cases h
        exact .starts hpoint hconfigs (not_le.mp hfree)
  · next config i hpoint =>
    split at h
    · next hall =>
      cases h
      exact .finds_none hpoint hall
    · next pid hheld =>
      split at h
      · next halive =>
        cases h
        exact .passes hpoint hheld halive
      · next hdead =>
        cases h
        exact .pops hpoint hheld (Bool.eq_false_of_not_eq_true hdead)
  · next config found hpoint =>
    cases found with
    | true =>
      cases h
      exact .starts_next hpoint
    | false =>
      cases h
      exact .looks_again hpoint
  · next i hpoint =>
    split at h
    · next hall =>
      cases h
      exact .returns hpoint hall
    · next pid hheld =>
      split at h
      · cases h
      · next hdead =>
        cases h
        exact .joins hpoint hheld (Bool.eq_false_of_not_eq_true hdead)
  · cases h

/-- A step of a process. -/
inductive Turn (run_experiment : Experiment ε) (task : SearchTask) (s : SearchPool) (pid : Nat)
    (p : SearchProcess) : SearchPool → Prop
  | raises {b : Bracket} {e : ε} (search : p.search = .looping b)
      (wide : task.esp < b.high - b.low)
      (failed : simulate run_experiment task p.config ((b.low + b.high) / 2) = .error e) :
      Turn run_experiment task s pid p (s.goes_on pid p .returned)
  | narrows {b : Bracket} {success : Bool} (search : p.search = .looping b)
      (wide : task.esp < b.high - b.low)
      (ran : simulate run_experiment task p.config ((b.low + b.high) / 2) = .ok success) :
      Turn run_experiment task s pid p
        (s.goes_on pid p (.looping (b.narrow ((b.low + b.high) / 2) success)))
  | writes {b : Bracket} (search : p.search = .looping b) (narrow : ¬ task.esp < b.high - b.low) :
      Turn run_experiment task s pid p
        { s.goes_on pid p .returned with result := s.result.set p.config b.best_per_gpu_rate }
  | exits (search : p.search = .returned) :
      Turn run_experiment task s pid p (s.goes_on pid p .exited)

theorem turn_cases (h : s.turn run_experiment task pid = some s') :
    ∃ p, s.started[pid]? = some p ∧ Turn run_experiment task s pid p s' := by
  unfold turn at h
  split at h
  · cases h
  · next p hp =>
    refine ⟨p, hp, ?_⟩
    dsimp only at h
    split at h
    · next b hsearch =>
      split at h
      · next hwide =>
        split at h
        · next e hfailed =>
          cases h
          exact .raises hsearch hwide hfailed
        · next success hran =>
          cases h
          exact .narrows hsearch hwide hran
      · next hnarrow =>
        cases h
        exact .writes hsearch hnarrow
    · next hsearch =>
      cases h
      exact .exits hsearch
    · cases h

theorem step_cases {action : Action}
    (h : step run_experiment task max_cpu_count s action = some (.ok s')) :
    MainStep task max_cpu_count s s' ∨
      ∃ pid p, s.started[pid]? = some p ∧ Turn run_experiment task s pid p s' := by
  cases action with
  | main =>
    obtain ⟨_, hmain, heq⟩ := Option.map_eq_some_iff.mp h
    cases heq
    exact .inl (main_cases hmain)
  | turn pid =>
    obtain ⟨_, hturn, heq⟩ := Option.map_eq_some_iff.mp h
    cases heq
    exact .inr ⟨pid, turn_cases hturn⟩

end SearchPool

end simdistserve
