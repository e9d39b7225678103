-- The best configuration of those that a search found rates for
-- (`find_best_config` in simulate.py, over the results that parallel_bisect.py collects).
import Mathlib.Data.List.Induction
import RecomputeOrMigrate.RateSearch

namespace simdistserve

/-! ## The best of the results -/

/-- The variables of the loop. Before the first configuration `best_ngpu` is infinite, which is
`none`. -/
structure BestSoFar where
  best_config : Option SearchConfig
  best_ngpu : Option Nat
  best_per_gpu_rate : ℚ

/-- `num_gpu < best_ngpu`. -/
def fewer_gpus (num_gpu : Nat) : Option Nat → Bool
  | none => true
  | some best_ngpu => num_gpu < best_ngpu

/-- One turn of the loop. -/
def BestSoFar.update (best : BestSoFar) (item : SearchConfig × ℚ) : BestSoFar :=
  let (config, per_gpu_rate) := item
  let num_gpu := config.num_gpu
  if per_gpu_rate > best.best_per_gpu_rate ∨
      (per_gpu_rate = best.best_per_gpu_rate ∧ fewer_gpus num_gpu best.best_ngpu) then
    ⟨some config, some num_gpu, per_gpu_rate⟩
  else best

/-- `find_best_config` over the items of the dictionary. -/
def find_best_config (items : List (SearchConfig × ℚ)) : Option SearchConfig × ℚ :=
  let best := items.foldl BestSoFar.update ⟨none, none, 0⟩
  (best.best_config, best.best_per_gpu_rate)

/-! ## What the loop keeps -/

variable {items seen : List (SearchConfig × ℚ)} {best : BestSoFar}

/-- The best of the configurations seen: none has a higher rate, and of those with its rate none
has fewer GPUs. -/
inductive Best (seen : List (SearchConfig × ℚ)) : BestSoFar → Prop
  | nothing (h : seen = []) : Best seen ⟨none, none, 0⟩
  | found {config : SearchConfig} {rate : ℚ} (mem : (config, rate) ∈ seen)
      (highest : ∀ item ∈ seen, item.2 ≤ rate)
      (fewest : ∀ item ∈ seen, item.2 = rate → config.num_gpu ≤ item.1.num_gpu) :
      Best seen ⟨some config, some config.num_gpu, rate⟩

theorem BestSoFar.update_eq (best : BestSoFar) (item : SearchConfig × ℚ) :
    best.update item =
      if item.2 > best.best_per_gpu_rate ∨
          (item.2 = best.best_per_gpu_rate ∧ fewer_gpus item.1.num_gpu best.best_ngpu) then
        ⟨some item.1, some item.1.num_gpu, item.2⟩
      else best :=
  rfl

theorem Best.update (h : Best seen best) {item : SearchConfig × ℚ} (hpos : 0 ≤ item.2) :
    Best (seen ++ [item]) (best.update item) := by
  rw [BestSoFar.update_eq]
  cases h with
  | nothing hseen =>
    subst hseen
    have hfirst : item.2 > 0 ∨ (item.2 = 0 ∧ fewer_gpus item.1.num_gpu none) :=
      hpos.lt_or_eq.imp_right fun h => ⟨h.symm, rfl⟩
    rw [if_pos hfirst]
    apply Best.found (by simp)
    · intro other hother
      rw [List.mem_singleton.mp hother]
    · intro other hother _
      rw [List.mem_singleton.mp hother]
  | @found config rate mem highest fewest =>
    split
    · next hbetter =>
      apply Best.found (by simp)
      · intro other hother
        rcases List.mem_append.mp hother with hold | hnew
        · rcases hbetter with hlt | ⟨heq, -⟩
          · exact (highest other hold).trans hlt.le
          · exact (highest other hold).trans heq.ge
        · rw [List.mem_singleton.mp hnew]
      · intro other hother hsame
        rcases List.mem_append.mp hother with hold | hnew
        · rcases hbetter with hlt | ⟨heq, hfew⟩
          · exact absurd (highest other hold) (not_le.mpr (hsame ▸ hlt))
          · exact (of_decide_eq_true hfew).le.trans (fewest other hold (hsame.trans heq))
        · rw [List.mem_singleton.mp hnew]
    · next hworse =>
      obtain ⟨hrate, hgpus⟩ := not_or.mp hworse
      apply Best.found (List.mem_append_left _ mem)
      · intro other hother
        rcases List.mem_append.mp hother with hold | hnew
        · exact highest other hold
        · rw [List.mem_singleton.mp hnew]
          exact not_lt.mp hrate
      · intro other hother hsame
        rcases List.mem_append.mp hother with hold | hnew
        · exact fewest other hold hsame
        · rw [List.mem_singleton.mp hnew] at hsame ⊢
          have hnot : ¬ decide (item.1.num_gpu < config.num_gpu) = true :=
            fun h => hgpus ⟨hsame, h⟩
          rw [decide_eq_true_eq] at hnot
          exact not_lt.mp hnot

theorem best_foldl (hpos : ∀ item ∈ items, 0 ≤ item.2) :
    Best items (items.foldl BestSoFar.update ⟨none, none, 0⟩) := by
  induction items using List.reverseRecOn with
  | nil => exact .nothing rfl
  | append_singleton items item ih =>
    rw [List.foldl_append]
    apply (ih fun other h => hpos other (List.mem_append_left _ h)).update
    exact hpos item (by simp)

/-- Of some results with no negative rate `find_best_config` returns one with the highest rate,
and of those one with the fewest GPUs. -/
theorem find_best_config_best (hpos : ∀ item ∈ items, 0 ≤ item.2) (hne : items ≠ []) :
    ∃ config rate, find_best_config items = (some config, rate) ∧ (config, rate) ∈ items ∧
      (∀ item ∈ items, item.2 ≤ rate) ∧
      ∀ item ∈ items, item.2 = rate → config.num_gpu ≤ item.1.num_gpu := by
  have hbest := best_foldl hpos
  unfold find_best_config
  generalize items.foldl BestSoFar.update ⟨none, none, 0⟩ = best at hbest
  cases hbest with
  | nothing h => exact absurd h hne
  | found mem highest fewest => exact ⟨_, _, rfl, mem, highest, fewest⟩

/-! ## The results of the processes -/

section results

variable {ε : Type} {run_experiment : Experiment ε} {task : SearchTask}
  {configs : List SearchConfig}

/-- The dictionary when the processes are done: the configurations with the rates that their
searches returned, in any order. -/
structure SearchResult (run_experiment : Experiment ε) (task : SearchTask)
    (configs : List SearchConfig) where
  items : List (SearchConfig × ℚ)
  keys_differ : (items.map Prod.fst).Nodup
  complete : ∀ config rate, (config, rate) ∈ items ↔
    config ∈ configs ∧ Returns run_experiment task config (some rate)

/-- The search of the configuration returns no rate, since an experiment raised. -/
def Skipped (run_experiment : Experiment ε) (task : SearchTask) (config : SearchConfig) : Prop :=
  Returns run_experiment task config none

/-- What the search finds for one configuration: it ends, with a rate that is 0 or was simulated
with success, unless it raises. -/
def SearchedSoundly (run_experiment : Experiment ε) (task : SearchTask)
    (config : SearchConfig) : Prop :=
  Skipped run_experiment task config ∨
    ∃ b, Returns run_experiment task config (some b) ∧
      (b = 0 ∨
        (Simulated run_experiment task config b ∧ Succeeds run_experiment task config b)) ∧
      (DownwardClosed (simulate run_experiment task config) →
        ∀ r, 0 ≤ r → r ≤ task.max_per_gpu_rate → Succeeds run_experiment task config r →
          r ≤ b + task.esp)

theorem searched_soundly (hesp : 0 < task.esp) (config : SearchConfig) :
    SearchedSoundly run_experiment task config := by
  obtain ⟨outcome, ho⟩ := run_binary_search_returns run_experiment config hesp
  cases outcome with
  | none => exact .inl ho
  | some b =>
    refine .inr ⟨b, ho, (ho.found hesp).2, ?_⟩
    intro hdown r _ hr hsucc
    exact ho.near hesp hdown hr hsucc

/-- Each search is near the best rate of its configuration, and the configuration that is chosen
is near the best rate of all and has the fewest GPUs at its own rate. -/
theorem the_chosen_config_is_near_the_best (run_experiment : Experiment ε) (task : SearchTask)
    (configs : List SearchConfig) (hesp : 0 < task.esp) :
    (∀ config ∈ configs, SearchedSoundly run_experiment task config) ∧
    ∀ result : SearchResult run_experiment task configs,
      (∃ config ∈ configs, ¬ Skipped run_experiment task config) →
      ∃ config b, find_best_config result.items = (some config, b) ∧
        (config, b) ∈ result.items ∧
        (b = 0 ∨ (Simulated run_experiment task config b ∧
          Succeeds run_experiment task config b)) ∧
        (∀ item ∈ result.items, item.2 = b → config.num_gpu ≤ item.1.num_gpu) ∧
        ((∀ c ∈ configs, ¬ Skipped run_experiment task c →
            DownwardClosed (simulate run_experiment task c)) →
          ∀ c ∈ configs, ¬ Skipped run_experiment task c →
            ∀ r, 0 ≤ r → r ≤ task.max_per_gpu_rate → Succeeds run_experiment task c r →
              r ≤ b + task.esp) := by
  refine ⟨fun config _ => searched_soundly hesp config, ?_⟩
  intro result hsome
  -- a configuration that is not skipped has its rate among the results
  have listed : ∀ c ∈ configs, ¬ Skipped run_experiment task c →
      ∃ rate, (c, rate) ∈ result.items ∧ Returns run_experiment task c (some rate) := by
    intro c hc hkept
    obtain ⟨outcome, ho⟩ := run_binary_search_returns run_experiment c hesp
    cases outcome with
    | none => exact absurd ho hkept
    | some rate => exact ⟨rate, (result.complete c rate).mpr ⟨hc, ho⟩, ho⟩
  have hpos : ∀ item ∈ result.items, 0 ≤ item.2 := by
    intro item hitem
    exact (((result.complete item.1 item.2).mp hitem).2.found hesp).1
  have hne : result.items ≠ [] := by
    obtain ⟨c, hc, hkept⟩ := hsome
    obtain ⟨rate, hmem, -⟩ := listed c hc hkept
    exact List.ne_nil_of_mem hmem
  obtain ⟨config, b, hfind, hmem, highest, fewest⟩ := find_best_config_best hpos hne
  have hfound := ((result.complete config b).mp hmem).2.found hesp
  refine ⟨config, b, hfind, hmem, hfound.2, fewest, ?_⟩
  intro hdown c hc hkept r _ hr hsucc
  obtain ⟨rate, hrate, ho⟩ := listed c hc hkept
  have hnear := ho.near hesp (hdown c hc hkept) hr hsucc
  exact hnear.trans (by linarith [highest _ hrate])

/-- Two configurations and a cluster that keeps up with one request each second for each GPU. -/
def two_configs : List SearchConfig := [.vllm 2 1, .vllm 1 1]

def keeps_up : Experiment String := fun args =>
  .ok (some (decide (args.rate ≤ args.tp_prefill)), some true)

def quick_search : SearchTask := ⟨"facebook/opt-13b", 200, 100, 90, 90, 4, 1 / 2, 300⟩

theorem keeps_up_returns (config : SearchConfig) (h : config ∈ two_configs) (rate : ℚ) :
    Returns keeps_up quick_search config (some rate) ↔ rate = 1 := by
  have hone : Returns keeps_up quick_search config (some 1) := by
    rcases List.mem_pair.mp h with rfl | rfl
    · exact ⟨4, by decide +kernel⟩
    · exact ⟨4, by decide +kernel⟩
  constructor
  · intro hrate
    exact Option.some.inj (hrate.unique hone)
  · rintro rfl
    exact hone

def two_results : SearchResult keeps_up quick_search two_configs where
  items := [(.vllm 2 1, 1), (.vllm 1 1, 1)]
  keys_differ := by decide
  complete := by
    intro config rate
    constructor
    · intro h
      have hmem : config ∈ two_configs ∧ rate = 1 := by
        simp only [List.mem_cons, Prod.mk.injEq, List.not_mem_nil, or_false] at h
        rcases h with ⟨rfl, rfl⟩ | ⟨rfl, rfl⟩ <;> decide
      exact ⟨hmem.1, (keeps_up_returns config hmem.1 rate).mpr hmem.2⟩
    · rintro ⟨hmem, hrate⟩
      obtain rfl := (keeps_up_returns config hmem rate).mp hrate
      rcases List.mem_pair.mp hmem with rfl | rfl
      · exact List.mem_cons_self
      · exact List.mem_cons_of_mem _ List.mem_cons_self

theorem two_configs_searched :
    SearchedSoundly keeps_up quick_search (.vllm 1 1) ∧
    ∃ config b, find_best_config two_results.items = (some config, b) ∧
      (config, b) ∈ two_results.items ∧
      ∀ item ∈ two_results.items, item.2 = b → config.num_gpu ≤ item.1.num_gpu := by
  have hkept : ∃ config ∈ two_configs, ¬ Skipped keeps_up quick_search config := by
    refine ⟨.vllm 1 1, by decide, ?_⟩
    intro hskip
    have hone := (keeps_up_returns (.vllm 1 1) (by decide) 1).mpr rfl
    cases hskip.unique hone
  obtain ⟨hsearch, hbest⟩ := the_chosen_config_is_near_the_best keeps_up quick_search two_configs
    (by decide +kernel)
  obtain ⟨config, b, hfind, hmem, -, hfew, -⟩ := hbest two_results hkept
  exact ⟨hsearch _ (by decide), config, b, hfind, hmem, hfew⟩

end results

end simdistserve
