-- What the parallel search comes to. It can return on each machine with a processor for the
-- searches, and the best rate that it gives does not depend on the order of the processes.
import RecomputeOrMigrate.SearchPoolRun

open dicts runs

namespace simdistserve

namespace SearchPool

variable {ε : Type} {run_experiment : Experiment ε} {task : SearchTask} {max_cpu_count : Int}
  {all : List SearchConfig} {s s' : SearchPool} {pid : Nat} {p : SearchProcess}

/-! ## The processes come to an end -/

theorem reaches_main (h : s.main task max_cpu_count = some s') :
    Reaches (step run_experiment task max_cpu_count) s s' :=
  (Reaches.refl _ s).tail (a := .main) (congrArg (Option.map Except.ok) h)

theorem reaches_turn (h : s.turn run_experiment task pid = some s') :
    Reaches (step run_experiment task max_cpu_count) s s' :=
  (Reaches.refl _ s).tail (a := .turn pid) (congrArg (Option.map Except.ok) h)

/-- Only processes went on. -/
structure Searches (run_experiment : Experiment ε) (task : SearchTask) (max_cpu_count : Int)
    (s s' : SearchPool) : Prop where
  reaches : Reaches (step run_experiment task max_cpu_count) s s'
  point_eq : s'.point = s.point
  configs_eq : s'.configs = s.configs
  processes_eq : s'.processes = s.processes

theorem Searches.refl (s : SearchPool) : Searches run_experiment task max_cpu_count s s :=
  ⟨Reaches.refl _ s, rfl, rfl, rfl⟩

theorem Searches.trans {s₁ s₂ s₃ : SearchPool}
    (h : Searches run_experiment task max_cpu_count s₁ s₂)
    (h' : Searches run_experiment task max_cpu_count s₂ s₃) :
    Searches run_experiment task max_cpu_count s₁ s₃ :=
  ⟨h.reaches.trans h'.reaches, h'.point_eq.trans h.point_eq, h'.configs_eq.trans h.configs_eq,
    h'.processes_eq.trans h.processes_eq⟩

theorem searches_of_turn (search : Search) (result : Dict SearchConfig ℚ)
    (h : s.turn run_experiment task pid = some { s.goes_on pid p search with result }) :
    Searches run_experiment task max_cpu_count s { s.goes_on pid p search with result } :=
  ⟨reaches_turn h, rfl, rfl, rfl⟩

/-- One process can come to its end. -/
def Exits (run_experiment : Experiment ε) (task : SearchTask) (max_cpu_count : Int)
    (s : SearchPool) (pid : Nat) (p : SearchProcess) : Prop :=
  ∃ s', Searches run_experiment task max_cpu_count s s' ∧
    s'.started = s.started.set pid { p with search := .exited }

theorem Exits.before (search : Search) (result : Dict SearchConfig ℚ)
    (hturn : s.turn run_experiment task pid = some { s.goes_on pid p search with result })
    (h : Exits run_experiment task max_cpu_count { s.goes_on pid p search with result } pid
      { p with search }) : Exits run_experiment task max_cpu_count s pid p := by
  obtain ⟨s', hs', hstarted⟩ := h
  refine ⟨s', (searches_of_turn search result hturn).trans hs', ?_⟩
  rw [hstarted]
  exact List.set_set ..

theorem started_goes_on (hp : s.started[pid]? = some p) {search : Search} :
    (s.goes_on pid p search).started[pid]? = some { p with search } := by
  unfold goes_on
  exact List.getElem?_set_self (List.getElem?_eq_some_iff.mp hp).1

theorem exits_of_returned (hp : s.started[pid]? = some p) (hsearch : p.search = .returned) :
    Exits run_experiment task max_cpu_count s pid p := by
  refine ⟨s.goes_on pid p .exited, searches_of_turn .exited s.result ?_, rfl⟩
  unfold turn
  rw [hp]
  simp only [hsearch]
  rfl

/-- The range is halved until the search returns. -/
theorem exits_of_looping {n : Nat} {b : Bracket} (hp : s.started[pid]? = some p)
    (hsearch : p.search = .looping b) (hwidth : b.high - b.low ≤ task.esp * 2 ^ n) :
    Exits run_experiment task max_cpu_count s pid p := by
  induction n generalizing s p b with
  | zero =>
    rw [pow_zero, mul_one] at hwidth
    refine Exits.before .returned (s.result.set p.config b.best_per_gpu_rate) ?_
      (exits_of_returned (started_goes_on hp) rfl)
    unfold turn
    rw [hp]
    simp only [hsearch, if_neg (not_lt.mpr hwidth)]
  | succ n ih =>
    by_cases hwide : task.esp < b.high - b.low
    · cases hran : simulate run_experiment task p.config ((b.low + b.high) / 2) with
      | error e =>
        refine Exits.before .returned s.result ?_
          (exits_of_returned (started_goes_on hp) rfl)
        unfold turn
        rw [hp]
        simp only [hsearch, if_pos hwide, hran]
        rfl
      | ok success =>
        refine Exits.before (.looping (b.narrow ((b.low + b.high) / 2) success)) s.result ?_
          (ih (started_goes_on hp) rfl ?_)
        · unfold turn
          rw [hp]
          simp only [hsearch, if_pos hwide, hran]
          rfl
        · rw [narrow_width, div_le_iff₀ two_pos]
          rwa [pow_succ, ← mul_assoc] at hwidth
    · refine Exits.before .returned (s.result.set p.config b.best_per_gpu_rate) ?_
        (exits_of_returned (started_goes_on hp) rfl)
      unfold turn
      rw [hp]
      simp only [hsearch, if_neg hwide]

/-- Each process can come to its end. -/
theorem exits (hesp : 0 < task.esp) (hp : s.started[pid]? = some p)
    (halive : p.is_alive = true) : Exits run_experiment task max_cpu_count s pid p := by
  cases hsearch : p.search with
  | looping b =>
    obtain ⟨n, hn⟩ := pow_unbounded_of_one_lt ((b.high - b.low) / task.esp) one_lt_two
    refine exits_of_looping (n := n) hp hsearch ?_
    rw [mul_comm]
    exact ((div_lt_iff₀ hesp).mp hn).le
  | returned => exact exits_of_returned hp hsearch
  | exited => simp [SearchProcess.is_alive, hsearch] at halive

/-- While the main process looks for a process that ended, it holds as many as it may. -/
def Full (max_cpu_count : Int) (s : SearchPool) : Prop :=
  match s.point with
  | .looks _ _ | .sleeps _ false => max_cpu_count ≤ s.processes.length
  | _ => True

theorem Full.main (h : Full max_cpu_count s) (hstep : MainStep task max_cpu_count s s') :
    Full max_cpu_count s' := by
  unfold Full at h
  cases hstep with
  | waits point configs full => exact full
  | passes point held alive =>
    rw [point] at h
    exact h
  | finds_none point all =>
    rw [point] at h
    exact h
  | looks_again point =>
    rw [point] at h
    exact h
  | _ => trivial

/-- The main process can return. -/
def CanReturn (run_experiment : Experiment ε) (task : SearchTask) (max_cpu_count : Int)
    (s : SearchPool) : Prop :=
  ∃ s' result, Reaches (step run_experiment task max_cpu_count) s s' ∧ s'.point = .returned result

theorem CanReturn.before (h : CanReturn run_experiment task max_cpu_count s')
    (hreaches : Reaches (step run_experiment task max_cpu_count) s s') :
    CanReturn run_experiment task max_cpu_count s := by
  obtain ⟨s₂, result, hs₂, hpoint⟩ := h
  exact ⟨s₂, result, hreaches.trans hs₂, hpoint⟩

/-- It can start the process that it has not started yet. -/
structure StartsNext (run_experiment : Experiment ε) (task : SearchTask) (max_cpu_count : Int)
    (s s' : SearchPool) : Prop where
  reaches : Reaches (step run_experiment task max_cpu_count) s s'
  point_eq : s'.point = .next
  configs_eq : s'.configs = s.configs

theorem StartsNext.before {s₁ : SearchPool}
    (h : StartsNext run_experiment task max_cpu_count s₁ s')
    (hmain : s.main task max_cpu_count = some s₁) (hconfigs : s₁.configs = s.configs) :
    StartsNext run_experiment task max_cpu_count s s' :=
  ⟨(reaches_main hmain).trans h.reaches, h.point_eq, h.configs_eq.trans hconfigs⟩

/-- The configurations that have no process yet. -/
def left (s : SearchPool) : Nat := (s.pending ++ s.configs).length

/-- No process was started, and the main process is before a configuration or looks for a process
that ended. -/
def Stuck (s : SearchPool) : Prop :=
  s.processes = [] ∧ s.started = [] ∧
    match s.point with
    | .next => s.configs ≠ []
    | .looks _ _ => True
    | .sleeps _ found => found = false
    | _ => False

/-- Without a place for a process it looks for a process that ended, again and again. -/
theorem Stuck.main (hcpu : max_cpu_count ≤ 0) (h : s.Stuck)
    (hstep : MainStep task max_cpu_count s s') : s'.Stuck := by
  obtain ⟨hnil, hstarted, hpoint⟩ := h
  cases hstep with
  | ends_loop point configs =>
    rw [point] at hpoint
    exact absurd configs hpoint
  | waits point configs full => exact ⟨hnil, hstarted, trivial⟩
  | starts point configs free =>
    rw [hnil, List.length_nil] at free
    omega
  | passes point held alive => exact ⟨hnil, hstarted, trivial⟩
  | pops point held dead =>
    rw [hnil] at held
    cases held
  | finds_none point all => exact ⟨hnil, hstarted, rfl⟩
  | starts_next point =>
    rw [point] at hpoint
    cases hpoint
  | looks_again point => exact ⟨hnil, hstarted, trivial⟩
  | joins point held dead =>
    rw [point] at hpoint
    cases hpoint
  | returns point all =>
    rw [point] at hpoint
    cases hpoint

/-- It never waits in this. -/
theorem Stuck.goes_on (hcpu : max_cpu_count ≤ 0) (h : s.Stuck) :
    ∃ s', s.main task max_cpu_count = some s' := by
  obtain ⟨hnil, -, hpoint⟩ := h
  unfold SearchPool.main
  cases hp : s.point with
  | next =>
    rw [hp] at hpoint
    cases hc : s.configs with
    | nil => exact absurd hc hpoint
    | cons config rest =>
      have hfull : (s.processes.length : Int) ≥ max_cpu_count := by
        rw [hnil]
        exact hcpu
      exact ⟨_, if_pos hfull⟩
  | looks config i =>
    simp only [hnil, List.getElem?_nil]
    exact ⟨_, rfl⟩
  | sleeps config found =>
    rw [hp] at hpoint
    subst hpoint
    exact ⟨_, rfl⟩
  | joins i =>
    rw [hp] at hpoint
    exact hpoint.elim
  | returned result =>
    rw [hp] at hpoint
    exact hpoint.elim

/-- The searches could also run one after the other. -/
theorem exists_searchResult {configs : List SearchConfig} (run_experiment : Experiment ε)
    (hesp : 0 < task.esp) (hnodup : configs.Nodup) :
    Nonempty (SearchResult run_experiment task configs) := by
  have hends : ∀ config, ∃ outcome, Returns run_experiment task config outcome := fun config =>
    run_binary_search_returns run_experiment config hesp
  choose outcome houtcome using hends
  refine ⟨configs.filterMap fun config => (outcome config).map (config, ·), ?_, ?_⟩
  · rw [List.map_filterMap]
    refine hnodup.filterMap fun c c' config hc hc' => ?_
    simp only [Option.map_map, Option.mem_def, Option.map_eq_some_iff, Function.comp] at hc hc'
    obtain ⟨_, _, rfl⟩ := hc
    obtain ⟨_, _, hsame⟩ := hc'
    exact hsame.symm
  · intro config rate
    rw [List.mem_filterMap]
    constructor
    · rintro ⟨c, hc, heq⟩
      obtain ⟨r, hr, hpair⟩ := Option.map_eq_some_iff.mp heq
      cases hpair
      exact ⟨hc, hr ▸ houtcome config⟩
    · rintro ⟨hc, hrate⟩
      refine ⟨config, hc, ?_⟩
      rw [(houtcome config).unique hrate]
      rfl

/-- The rate that `find_best_config` gives and the number of GPUs of its configuration are the same
in every run and for every number of processes. It is the highest rate that a search of a possible
configuration returns, that configuration has the fewest GPUs of those with this rate, and the
rate is near the best at which an experiment succeeds. -/
theorem the_best_is_the_same_in_each_run (run_experiment : Experiment ε) (args : SearchArgs)
    (hesp : 0 < args.esp)
    (hsome : ∃ config, args.Possible config ∧ ¬ Skipped run_experiment args.task config) :
    ∃ best num_gpu,
      (∀ max_cpu_count s result, Runs run_experiment args max_cpu_count s →
        s.point = .returned result →
        ∃ config, find_best_config result.items = (some config, best) ∧
          config.num_gpu = num_gpu ∧ args.Possible config ∧
          Returns run_experiment args.task config (some best)) ∧
      (∀ config rate, args.Possible config → Returns run_experiment args.task config (some rate) →
        rate ≤ best ∧ (rate = best → num_gpu ≤ config.num_gpu)) ∧
      ∀ config rate, args.Possible config → ¬ Skipped run_experiment args.task config →
        DownwardClosed (simulate run_experiment args.task config) →
        rate ≤ args.max_per_gpu_rate → Succeeds run_experiment args.task config rate →
        rate ≤ best + args.esp := by
  have hesp' : 0 < args.task.esp := hesp
  -- what a result has at its best item, whichever run it comes from
  have hbest : ∀ r : SearchResult run_experiment args.task args.configs, ∃ config rate,
      find_best_config r.items = (some config, rate) ∧ args.Possible config ∧
      Returns run_experiment args.task config (some rate) ∧
      ∀ c rate', args.Possible c → Returns run_experiment args.task c (some rate') →
        rate' ≤ rate ∧ (rate' = rate → config.num_gpu ≤ c.num_gpu) := by
    intro r
    obtain ⟨c, hc, hkept⟩ := hsome
    obtain ⟨outcome, ho⟩ := run_binary_search_returns run_experiment c hesp'
    have hne : r.items ≠ [] := by
      cases outcome with
      | none => exact absurd ho hkept
      | some rate =>
        exact List.ne_nil_of_mem ((r.complete c rate).mpr ⟨args.mem_configs.mpr hc, ho⟩)
    obtain ⟨config, rate, hfind, hmem, highest, fewest⟩ := find_best_config_best
      (fun item hitem => (((r.complete item.1 item.2).mp hitem).2.found hesp').1) hne
    obtain ⟨hconfig, hreturns⟩ := (r.complete config rate).mp hmem
    refine ⟨config, rate, hfind, args.mem_configs.mp hconfig, hreturns, ?_⟩
    intro c' rate' hc' hrate'
    have hitem := (r.complete c' rate').mpr ⟨args.mem_configs.mpr hc', hrate'⟩
    exact ⟨highest _ hitem, fewest _ hitem⟩
  obtain ⟨serial⟩ := exists_searchResult run_experiment hesp' args.configs_nodup
  obtain ⟨config, best, -, hconfig, hreturns, hall⟩ := hbest serial
  refine ⟨best, config.num_gpu, ?_, hall, ?_⟩
  · intro max_cpu_count s result hruns hpoint
    obtain ⟨config', best', hfind, hconfig', hreturns', hall'⟩ := hbest (the_result hruns hpoint)
    have hle := hall config' best' hconfig' hreturns'
    have hge := hall' config best hconfig hreturns
    obtain rfl : best' = best := le_antisymm hle.1 hge.1
    exact ⟨config', hfind, le_antisymm (hge.2 rfl) (hle.2 rfl), hconfig', hreturns'⟩
  · intro c rate hc hkept hdown hrate hsucc
    obtain ⟨outcome, ho⟩ := run_binary_search_returns run_experiment c hesp'
    cases outcome with
    | none => exact absurd ho hkept
    | some found =>
      have hnear := ho.near hesp' hdown hrate hsucc
      have hle := (hall c found hc ho).1
      exact hnear.trans (add_le_add_left hle _)

/-- Two of the three configurations keep up at 3 / 4 for each GPU. One of them has one GPU. -/
theorem one_gpu_is_best_at_three_quarters : ∃ s result, Runs keeps_up two_gpus 2 s ∧
    s.point = .returned result ∧
    find_best_config result.items = (some (.vllm 1 1), 3 / 4) := by
  have hconfigs : two_gpus.configs = [.vllm 1 1, .vllm 1 2, .vllm 2 1] := by decide +kernel
  have hone : Returns keeps_up two_gpus.task (.vllm 1 1) (some (3 / 4)) := ⟨3, by decide +kernel⟩
  have hpipeline : Returns keeps_up two_gpus.task (.vllm 1 2) (some (1 / 2)) :=
    ⟨3, by decide +kernel⟩
  have hpossible : two_gpus.Possible (.vllm 1 1) := by
    rw [← two_gpus.mem_configs, hconfigs]
    exact List.mem_cons_self
  have hkept : ¬ Skipped keeps_up two_gpus.task (.vllm 1 1) := fun hskip => by
    cases hskip.unique hone
  obtain ⟨best, num_gpu, hruns, hall, -⟩ := the_best_is_the_same_in_each_run keeps_up two_gpus
    (by decide +kernel) ⟨_, hpossible, hkept⟩
  obtain ⟨s, result, hs, hpoint⟩ := two_gpus_return
  obtain ⟨config, hfind, hgpus, hconfig, hreturns⟩ := hruns 2 s result hs hpoint
  obtain ⟨hle, hfew⟩ := hall _ _ hpossible hone
  rw [← two_gpus.mem_configs, hconfigs, List.mem_cons, List.mem_pair] at hconfig
  refine ⟨s, result, hs, hpoint, ?_⟩
  rcases hconfig with rfl | rfl | rfl
  · rw [hfind, Option.some.inj (hreturns.unique hone)]
  · obtain rfl := Option.some.inj (hreturns.unique hpipeline)
    exact absurd hle (by decide +kernel)
  · -- it has two GPUs, and one of them is enough for the rate
    have htwo : Returns keeps_up two_gpus.task (.vllm 2 1) (some (3 / 4)) := ⟨3, by decide +kernel⟩
    obtain rfl := Option.some.inj (hreturns.unique htwo)
    have hsmall := hfew rfl
    rw [← hgpus] at hsmall
    exact absurd hsmall (by decide)

end SearchPool

end simdistserve
