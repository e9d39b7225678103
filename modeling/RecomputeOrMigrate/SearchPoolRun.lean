-- The runs of the parallel search. In any order of the steps, as many processes run as allowed,
-- each configuration has one, and the result is what the searches return.
import Mathlib.Data.List.Perm.Subperm
import RecomputeOrMigrate.SearchPool

open dicts runs

namespace simdistserve.SearchPool

variable {ε : Type} {run_experiment : Experiment ε} {task : SearchTask} {max_cpu_count : Int}
  {all : List SearchConfig} {s s' : SearchPool} {pid : Nat} {p : SearchProcess}

/-! ## The rest of a search -/

section rest

variable {attempt : ℚ → Except ε Bool} {esp : ℚ} {b : Bracket} {outcome : Option Bracket}

/-- The loop goes on from this range to this outcome. -/
def Ends (attempt : ℚ → Except ε Bool) (esp : ℚ) (b : Bracket) (outcome : Option Bracket) : Prop :=
  ∃ fuel, search_loop attempt esp fuel b = some outcome

theorem ends_of_raises {e : ε} (wide : esp < b.high - b.low)
    (failed : attempt ((b.low + b.high) / 2) = .error e) : Ends attempt esp b none := by
  refine ⟨1, ?_⟩
  unfold search_loop
  rw [if_pos wide]
  simp only [failed]

theorem ends_of_narrow (narrow : ¬ esp < b.high - b.low) : Ends attempt esp b (some b) := by
  refine ⟨1, ?_⟩
  unfold search_loop
  rw [if_neg narrow]

theorem Ends.before {success : Bool} (wide : esp < b.high - b.low)
    (ran : attempt ((b.low + b.high) / 2) = .ok success)
    (h : Ends attempt esp (b.narrow ((b.low + b.high) / 2) success) outcome) :
    Ends attempt esp b outcome := by
  obtain ⟨fuel, h⟩ := h
  refine ⟨fuel + 1, ?_⟩
  unfold search_loop
  rw [if_pos wide]
  simpa only [ran] using h

theorem returns_of_ends {config : SearchConfig}
    (h : Ends (simulate run_experiment task config) task.esp task.bracket outcome) :
    Returns run_experiment task config (outcome.map (·.best_per_gpu_rate)) := by
  obtain ⟨fuel, h⟩ := h
  refine ⟨fuel, ?_⟩
  unfold run_binary_search
  rw [h]
  rfl

end rest

/-! ## The invariant -/

/-- What a process did so far. Until it returns, it has written nothing, and its search ends as
the rest of it does. Then the dictionary has what the search returns. -/
def Follows (run_experiment : Experiment ε) (task : SearchTask) (result : Dict SearchConfig ℚ)
    (p : SearchProcess) : Prop :=
  match p.search with
  | .looping b => p.config ∉ result ∧ ∀ outcome,
      Ends (simulate run_experiment task p.config) task.esp b outcome →
      Ends (simulate run_experiment task p.config) task.esp task.bracket outcome
  | _ => Returns run_experiment task p.config (result.get? p.config)

/-- The configuration whose process the main process has not started yet. -/
def pending (s : SearchPool) : List SearchConfig :=
  match s.point with
  | .looks config _ => [config]
  | .sleeps config _ => [config]
  | _ => []

/-- The places that are taken: also the one that the main process found free for the next
process. -/
def occupied (s : SearchPool) : Nat :=
  match s.point with
  | .sleeps _ true => s.processes.length + 1
  | _ => s.processes.length

/-- What the main process knows after its loop. -/
def Joined (s : SearchPool) : Prop :=
  match s.point with
  | .joins i => s.configs = [] ∧ ∀ pid ∈ s.processes.take i, s.is_alive pid = false
  | .returned result => s.configs = [] ∧ (∀ pid, s.is_alive pid = false) ∧ result = s.result
  | _ => True

structure Kept (run_experiment : Experiment ε) (task : SearchTask) (max_cpu_count : Int)
    (all : List SearchConfig) (s : SearchPool) : Prop where
  in_order : s.started.map (·.config) ++ s.pending ++ s.configs = all
  follows : ∀ (pid : Nat) p, s.started[pid]? = some p → Follows run_experiment task s.result p
  written : ∀ config ∈ s.result, config ∈ s.started.map (·.config)
  held : ∀ pid, s.is_alive pid = true → pid ∈ s.processes
  room : (s.occupied : Int) ≤ max 0 max_cpu_count
  joined : s.Joined

theorem kept_init : Kept run_experiment task max_cpu_count all (init all) where
  in_order := rfl
  follows := fun pid p hp => by cases hp
  written := fun config h => absurd h (Dict.not_mem_empty config)
  held := fun pid h => by cases h
  room := le_max_left 0 _
  joined := trivial

/-! ## A step of the main process -/

theorem is_alive_start {config : SearchConfig} {b : Bracket} :
    (s.start config b).is_alive pid = (decide (pid = s.started.length) || s.is_alive pid) := by
  unfold is_alive start
  dsimp only
  rw [List.getElem?_append]
  by_cases hlt : pid < s.started.length
  · rw [if_pos hlt, decide_eq_false (by omega), Bool.false_or]
  · rw [if_neg hlt, List.getElem?_eq_none (not_lt.mp hlt)]
    by_cases heq : pid = s.started.length
    · subst heq
      simp [SearchProcess.is_alive]
    · rw [List.getElem?_eq_none (by simp; omega)]
      simp [heq]

/-- The next process is started. -/
theorem Kept.start (h : Kept run_experiment task max_cpu_count all s) (hnodup : all.Nodup)
    {config : SearchConfig} (rest : List SearchConfig)
    (hnext : s.pending ++ s.configs = config :: rest)
    (hroom : ((s.processes.length + 1 : Nat) : Int) ≤ max 0 max_cpu_count) :
    Kept run_experiment task max_cpu_count all
      ({ s with configs := rest }.start config task.bracket) := by
  have hall := h.in_order
  rw [List.append_assoc, hnext] at hall
  have hnew : config ∉ s.started.map (·.config) := by
    rw [← hall, List.nodup_append'] at hnodup
    exact fun hmem => List.disjoint_left.mp hnodup.2.2 hmem List.mem_cons_self
  refine ⟨?_, ?_, ?_, ?_, ?_, trivial⟩
  · rw [← hall]
    simp [SearchPool.start, pending]
  · intro pid p hp
    change (s.started ++ [_])[pid]? = some p at hp
    rw [List.getElem?_append] at hp
    split at hp
    · exact h.follows pid p hp
    · rw [List.getElem?_singleton] at hp
      split at hp
      · cases hp
        exact ⟨fun hmem => hnew (h.written config hmem), fun _ ho => ho⟩
      · cases hp
  · intro other hmem
    change other ∈ (s.started ++ [_]).map SearchProcess.config
    rw [List.map_append]
    exact List.mem_append_left _ (h.written other hmem)
  · intro pid halive
    change pid ∈ s.processes ++ [s.started.length]
    rw [is_alive_start, Bool.or_eq_true, decide_eq_true_eq] at halive
    rcases halive with rfl | halive
    · exact List.mem_append_right _ (List.mem_singleton_self _)
    · exact List.mem_append_left _ (h.held pid halive)
  · change ((s.processes ++ [s.started.length]).length : Int) ≤ _
    rw [List.length_append]
    exact hroom

/-- A step of the main process that starts no process and keeps those that are alive. -/
theorem Kept.moves (h : Kept run_experiment task max_cpu_count all s)
    (hstarted : s'.started = s.started) (hresult : s'.result = s.result)
    (hnext : s'.pending ++ s'.configs = s.pending ++ s.configs)
    (hheld : ∀ pid ∈ s.processes, s.is_alive pid = true → pid ∈ s'.processes)
    (hroom : s'.occupied ≤ s.occupied) (hjoined : s'.Joined) :
    Kept run_experiment task max_cpu_count all s' := by
  have halive : ∀ pid, s'.is_alive pid = s.is_alive pid := fun pid => by
    unfold is_alive
    rw [hstarted]
  refine ⟨?_, ?_, ?_, ?_, ?_, hjoined⟩
  · rw [hstarted, List.append_assoc, hnext, ← List.append_assoc]
    exact h.in_order
  · rw [hstarted, hresult]
    exact h.follows
  · rw [hstarted, hresult]
    exact h.written
  · intro pid hpid
    rw [halive] at hpid
    exact hheld pid (h.held pid hpid) hpid
  · exact (Int.ofNat_le.mpr hroom).trans h.room

theorem Kept.main (h : Kept run_experiment task max_cpu_count all s) (hnodup : all.Nodup)
    (hstep : MainStep task max_cpu_count s s') : Kept run_experiment task max_cpu_count all s' := by
  have hjoined := h.joined
  have hroom := h.room
  unfold Joined at hjoined
  unfold occupied at hroom
  cases hstep with
  | ends_loop point configs =>
    refine h.moves rfl rfl ?_ (fun _ hpid _ => hpid) ?_ ⟨configs, ?_⟩
    · simp [pending, point]
    · simp [occupied, point]
    · intro pid hpid
      cases hpid
  | @waits config rest point configs full =>
    refine h.moves rfl rfl ?_ (fun _ hpid _ => hpid) ?_ trivial
    · simp [pending, point, configs]
    · simp [occupied, point]
  | @starts config rest point configs free =>
    refine h.start hnodup rest ?_ ?_
    · simp [pending, point, configs]
    · omega
  | passes point held alive =>
    refine h.moves rfl rfl ?_ (fun _ hpid _ => hpid) ?_ trivial
    · simp [pending, point]
    · simp [occupied, point]
  | @pops config i pid point held dead =>
    refine h.moves rfl rfl ?_ ?_ ?_ trivial
    · simp [pending, point]
    · intro other hother halive
      obtain ⟨j, hj⟩ := List.mem_iff_getElem?.mp hother
      refine List.mem_eraseIdx_iff_getElem?.mpr ⟨j, ?_, hj⟩
      -- the process that is popped is not alive
      rintro rfl
      rw [held] at hj
      rw [← Option.some.inj hj, dead] at halive
      cases halive
    · have hi := (List.getElem?_eq_some_iff.mp held).1
      simp only [occupied, point, List.length_eraseIdx_of_lt hi]
      omega
  | finds_none point all =>
    refine h.moves rfl rfl ?_ (fun _ hpid _ => hpid) ?_ trivial
    · simp [pending, point]
    · simp [occupied, point]
  | @starts_next config point =>
    rw [point] at hroom
    exact h.start hnodup s.configs (by simp [pending, point]) hroom
  | looks_again point =>
    refine h.moves rfl rfl ?_ (fun _ hpid _ => hpid) ?_ trivial
    · simp [pending, point]
    · simp [occupied, point]
  | @joins i pid point held dead =>
    rw [point] at hjoined
    refine h.moves rfl rfl ?_ (fun _ hpid _ => hpid) ?_ ⟨hjoined.1, ?_⟩
    · simp [pending, point]
    · simp [occupied, point]
    · rw [List.take_add_one, held]
      intro other hother
      rcases List.mem_append.mp hother with hother | hother
      · exact hjoined.2 other hother
      · rw [List.mem_singleton.mp hother]
        exact dead
  | @returns i point hall =>
    rw [point] at hjoined
    refine h.moves rfl rfl ?_ (fun _ hpid _ => hpid) ?_ ⟨hjoined.1, ?_, rfl⟩
    · simp [pending, point]
    · simp [occupied, point]
    · intro pid
      change s.is_alive pid = false
      by_contra halive
      have hpid := h.held pid (Bool.eq_true_of_not_eq_false halive)
      rw [← List.take_of_length_le (List.getElem?_eq_none_iff.mp hall)] at hpid
      exact halive (hjoined.2 pid hpid)

/-! ## A step of a process -/

theorem Follows.congr {result result' : Dict SearchConfig ℚ}
    (h : Follows run_experiment task result p)
    (hsame : result'.get? p.config = result.get? p.config) :
    Follows run_experiment task result' p := by
  unfold Follows at h ⊢
  rw [Dict.mem_iff_isSome] at h ⊢
  rwa [hsame]

theorem Turn.is_alive (h : Turn run_experiment task s pid p s') : p.is_alive = true := by
  unfold SearchProcess.is_alive
  cases h with
  | raises search _ _ => rw [search]
  | narrows search _ _ => rw [search]
  | writes search _ => rw [search]
  | exits search => rw [search]

/-- A process goes on, and of the dictionary it changes at most its own entry. -/
theorem Kept.goes_on (h : Kept run_experiment task max_cpu_count all s) (hnodup : all.Nodup)
    (hp : s.started[pid]? = some p) (halive : p.is_alive = true) {search : Search}
    {result : Dict SearchConfig ℚ} (hfollows : Follows run_experiment task result { p with search })
    (hothers : ∀ config ≠ p.config, result.get? config = s.result.get? config) :
    Kept run_experiment task max_cpu_count all { s.goes_on pid p search with result } := by
  have hconfigs : (s.started.set pid { p with search }).map (·.config) =
      s.started.map (·.config) := by
    apply List.ext_getElem?
    intro i
    rw [List.getElem?_map, List.getElem?_map, List.getElem?_set]
    split
    · next heq =>
      subst heq
      rw [if_pos (List.getElem?_eq_some_iff.mp hp).1, hp]
      rfl
    · rfl
  have hpid : s.is_alive pid = true := by
    unfold SearchPool.is_alive
    rw [hp]
    exact halive
  have hstill : ∀ other, (s.goes_on pid p search).is_alive other = true →
      s.is_alive other = true := by
    intro other hother
    unfold SearchPool.is_alive SearchPool.goes_on at hother
    rw [List.getElem?_set] at hother
    split at hother
    · next heq => exact heq ▸ hpid
    · exact hother
  have hdead : ∀ other, s.is_alive other = false →
      (s.goes_on pid p search).is_alive other = false := fun other hother =>
    Bool.eq_false_of_not_eq_true fun h' => Bool.eq_false_iff.mp hother (hstill other h')
  refine ⟨?_, ?_, ?_, fun other hother => h.held other (hstill other hother), h.room, ?_⟩
  · change (s.started.set pid _).map SearchProcess.config ++ s.pending ++ s.configs = all
    rw [hconfigs]
    exact h.in_order
  · intro i p' hp'
    change (s.started.set pid _)[i]? = some p' at hp'
    rw [List.getElem?_set] at hp'
    split at hp'
    · split at hp'
      · cases hp'
        exact hfollows
      · cases hp'
    · next hne =>
      refine (h.follows i p' hp').congr (hothers _ ?_)
      intro hsame
      have hsub := hnodup.sublist (h.in_order ▸ (List.sublist_append_left _ _).trans
        (List.sublist_append_left _ _) : (s.started.map (·.config)).Sublist all)
      apply hne
      apply (List.getElem?_inj (by simpa using (List.getElem?_eq_some_iff.mp hp).1) hsub).mp
      rw [List.getElem?_map, List.getElem?_map, hp, hp']
      exact congrArg some hsame.symm
  · intro config hconfig
    change config ∈ (s.started.set pid _).map SearchProcess.config
    rw [hconfigs]
    by_cases hself : config = p.config
    · rw [hself]
      exact List.mem_map_of_mem (List.mem_of_getElem? hp)
    · apply h.written
      rw [Dict.mem_iff_isSome] at hconfig ⊢
      rwa [← hothers config hself]
  · have hjoined := h.joined
    unfold Joined at hjoined ⊢
    dsimp only [SearchPool.goes_on]
    split at hjoined
    · exact ⟨hjoined.1, fun other hother => hdead other (hjoined.2 other hother)⟩
    · -- the main process returned, so no process is alive
      rw [hjoined.2.1 pid] at hpid
      cases hpid
    · trivial

theorem Kept.turn (h : Kept run_experiment task max_cpu_count all s) (hnodup : all.Nodup)
    (hp : s.started[pid]? = some p) (hturn : Turn run_experiment task s pid p s') :
    Kept run_experiment task max_cpu_count all s' := by
  have hfollows := h.follows pid p hp
  have halive := hturn.is_alive
  unfold Follows at hfollows
  cases hturn with
  | raises search wide failed =>
    rw [search] at hfollows
    refine h.goes_on hnodup hp halive ?_ fun _ _ => rfl
    have hends := hfollows.2 none (ends_of_raises wide failed)
    change Returns run_experiment task p.config (s.result.get? p.config)
    rw [Dict.get?_eq_none.mpr hfollows.1]
    exact returns_of_ends hends
  | narrows search wide ran =>
    rw [search] at hfollows
    refine h.goes_on hnodup hp halive ⟨hfollows.1, ?_⟩ fun _ _ => rfl
    intro outcome hends
    exact hfollows.2 outcome (hends.before wide ran)
  | @writes b search narrow =>
    rw [search] at hfollows
    refine h.goes_on hnodup hp halive ?_ fun config hne => ?_
    · have hends := hfollows.2 (some b) (ends_of_narrow narrow)
      change Returns run_experiment task p.config ((s.result.set p.config _).get? p.config)
      rw [Dict.get?_set, if_pos rfl]
      exact returns_of_ends hends
    · rw [Dict.get?_set, if_neg hne]
  | exits search =>
    rw [search] at hfollows
    exact h.goes_on hnodup hp halive hfollows fun _ _ => rfl

/-! ## A run -/

theorem Kept.step (h : Kept run_experiment task max_cpu_count all s) (hnodup : all.Nodup)
    {action : Action} (hstep : step run_experiment task max_cpu_count s action = some (.ok s')) :
    Kept run_experiment task max_cpu_count all s' := by
  rcases step_cases hstep with hmain | ⟨pid, p, hp, hturn⟩
  · exact h.main hnodup hmain
  · exact h.turn hnodup hp hturn

theorem kept_of_reaches (hnodup : all.Nodup)
    (h : Reaches (step run_experiment task max_cpu_count) (init all) s) :
    Kept run_experiment task max_cpu_count all s := by
  induction h with
  | refl => exact kept_init
  | tail _ hstep ih =>
    obtain ⟨action, hstep⟩ := hstep
    exact ih.step hnodup hstep

/-- The pids of the processes that run. -/
def alive (s : SearchPool) : List Nat := (List.range s.started.length).filter s.is_alive

theorem Kept.alive_le (h : Kept run_experiment task max_cpu_count all s) :
    (s.alive.length : Int) ≤ max 0 max_cpu_count := by
  have hsub : s.alive.length ≤ s.processes.length := by
    have hnodup : s.alive.Nodup := List.nodup_range.filter _
    refine (List.subperm_of_subset hnodup fun pid hpid => ?_).length_le
    exact h.held pid (List.mem_filter.mp hpid).2
  have hle : s.processes.length ≤ s.occupied := by
    unfold occupied
    split <;> omega
  exact (Int.ofNat_le.mpr (hsub.trans hle)).trans h.room

/-- What `main` returns. -/
theorem Kept.complete (h : Kept run_experiment task max_cpu_count all s)
    {result : Dict SearchConfig ℚ} (hpoint : s.point = .returned result) (config : SearchConfig)
    (rate : ℚ) :
    (config, rate) ∈ result.items ↔
      config ∈ all ∧ Returns run_experiment task config (some rate) := by
  have hjoined := h.joined
  have hall := h.in_order
  unfold Joined at hjoined
  unfold pending at hall
  rw [hpoint] at hjoined hall
  obtain ⟨hconfigs, hdead, rfl⟩ := hjoined
  rw [hconfigs, List.append_nil, List.append_nil] at hall
  -- each process returned what the dictionary has for it
  have hreturns : ∀ p ∈ s.started,
      Returns run_experiment task p.config (s.result.get? p.config) := by
    intro p hp
    obtain ⟨pid, hpid⟩ := List.mem_iff_getElem?.mp hp
    have hfollows := h.follows pid p hpid
    have hexited := hdead pid
    unfold is_alive at hexited
    unfold Follows at hfollows
    rw [hpid] at hexited
    cases hsearch : p.search with
    | looping b => simp [SearchProcess.is_alive, hsearch] at hexited
    | returned => simpa only [hsearch] using hfollows
    | exited => simpa only [hsearch] using hfollows
  rw [← Dict.get?_eq_some]
  constructor
  · intro hget
    have hmem : config ∈ s.started.map (·.config) :=
      h.written config (Dict.mem_iff_isSome.mpr (by rw [hget]; rfl))
    obtain ⟨p, hp, rfl⟩ := List.mem_map.mp hmem
    exact ⟨hall ▸ hmem, hget ▸ hreturns p hp⟩
  · rintro ⟨hmem, hrate⟩
    rw [← hall] at hmem
    obtain ⟨p, hp, rfl⟩ := List.mem_map.mp hmem
    exact (hreturns p hp).unique hrate

/-- The runs of `main`. -/
abbrev Runs (run_experiment : Experiment ε) (args : SearchArgs) (max_cpu_count : Int)
    (s : SearchPool) : Prop :=
  Reaches (step run_experiment args.task max_cpu_count) (init args.configs) s

/-- The dictionary that `main` returns. -/
def the_result {args : SearchArgs} (h : Runs run_experiment args max_cpu_count s)
    {result : Dict SearchConfig ℚ} (hpoint : s.point = .returned result) :
    SearchResult run_experiment args.task args.configs where
  items := result.items
  keys_differ := result.nodup
  complete := (kept_of_reaches args.configs_nodup h).complete hpoint

/-- In each run no more processes run at once than allowed, and no configuration has two. When
`main` returns, none of them runs any more, each configuration had its process, and the result is
what their searches returned. -/
theorem each_config_is_searched_once (run_experiment : Experiment ε) (args : SearchArgs)
    (max_cpu_count : Int) (s : SearchPool) (h : Runs run_experiment args max_cpu_count s) :
    (s.alive.length : Int) ≤ max 0 max_cpu_count ∧
    (s.started.map (·.config)).Nodup ∧ s.started.map (·.config) <+: args.configs ∧
    ∀ result, s.point = .returned result →
      s.alive = [] ∧ s.started.map (·.config) = args.configs ∧
      ∃ r : SearchResult run_experiment args.task args.configs, r.items = result.items := by
  have hkept := kept_of_reaches args.configs_nodup h
  have hprefix : s.started.map (·.config) <+: args.configs := by
    rw [← hkept.in_order, List.append_assoc]
    exact List.prefix_append _ _
  refine ⟨hkept.alive_le, args.configs_nodup.sublist hprefix.sublist, hprefix, ?_⟩
  intro result hpoint
  have hjoined := hkept.joined
  have hall := hkept.in_order
  unfold Joined at hjoined
  unfold pending at hall
  rw [hpoint] at hjoined hall
  obtain ⟨hconfigs, hdead, -⟩ := hjoined
  refine ⟨?_, ?_, the_result h hpoint, rfl⟩
  · unfold alive
    rw [List.filter_eq_nil_iff]
    exact fun pid _ => Bool.eq_false_iff.mp (hdead pid)
  · rwa [hconfigs, List.append_nil, List.append_nil] at hall

/-- A search for two GPUs. It has three configurations. -/
def two_gpus : SearchArgs where
  num_node := 1
  num_gpu_per_node := 2
  model_type := .opt_13b
  is_dist_high := true
  backend := .vllm
  prefill_target := 200
  decode_target := 100
  prefill_containment := 90
  decode_containment := 90
  max_per_gpu_rate := 1
  esp := 1 / 4
  N := 300

def has_returned (s : SearchPool) : Bool :=
  match s.point with
  | .returned _ => true
  | _ => false

/-- Two processes at once. The third one starts when the second one has ended. -/
def two_at_once : List Action :=
  [.main, .main, .main, .turn 0, .turn 1, .main, .turn 1, .turn 1, .turn 1, .main, .main, .main,
    .turn 2, .turn 0, .turn 2, .turn 2, .turn 0, .turn 2, .turn 0, .main, .main, .main]

theorem two_gpus_return :
    ∃ s result, Runs keeps_up two_gpus 2 s ∧ s.point = .returned result := by
  obtain ⟨s, hs, hreturned⟩ := reaches_of_any (m := step keeps_up two_gpus.task 2)
    (s := init two_gpus.configs) two_at_once has_returned (by decide +kernel)
  unfold has_returned at hreturned
  cases hpoint : s.point with
  | returned result => exact ⟨s, result, hs, hpoint⟩
  | _ => simp [hpoint] at hreturned

theorem three_configs_are_searched : ∃ s, Runs keeps_up two_gpus 2 s ∧
    s.alive = [] ∧ s.started.map (·.config) = [.vllm 1 1, .vllm 1 2, .vllm 2 1] := by
  obtain ⟨s, result, hs, hpoint⟩ := two_gpus_return
  obtain ⟨-, -, -, hdone⟩ := each_config_is_searched_once keeps_up two_gpus 2 s hs
  obtain ⟨halive, hall, -⟩ := hdone result hpoint
  have hconfigs : two_gpus.configs = [.vllm 1 1, .vllm 1 2, .vllm 2 1] := by decide +kernel
  exact ⟨s, hs, halive, hall.trans hconfigs⟩

end simdistserve.SearchPool
