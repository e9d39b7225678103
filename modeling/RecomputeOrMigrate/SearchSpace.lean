-- The configurations that the search for the best one goes through
-- (benchmarks/search_configs.py and estimators/memory_estimator.py).
import Mathlib.Data.List.Nodup
import RecomputeOrMigrate.RateSearch
import RecomputeOrMigrate.SimCluster

namespace simdistserve

/-- `(layers, heads)`. The keys of the source are the formal names. -/
def model_hyperparams : ModelTypes → Nat × Nat
  | .opt_13b => (40, 40)
  | .opt_66b => (64, 72)
  | .opt_175b => (96, 96)

/-- The loop that both functions below have: the numbers of `range(1, 1 + total)` that divide
`total`. -/
def divisors (total : Nat) : List Nat := (List.range' 1 total).filter fun n => total % n = 0

def get_model_possible_pp (model : ModelTypes) : List Nat := divisors (model_hyperparams model).1

def get_model_possible_tp (model : ModelTypes) : List Nat := divisors (model_hyperparams model).2

/-- The loop over `product(cpps, tps, pps, tps, pps)`. -/
def get_distserve_configs (model_type : ModelTypes) (num_node num_gpu_per_node : Nat)
    (is_high_affinity : Bool) : List SearchConfig :=
  let total_num_gpus := num_node * num_gpu_per_node
  let possible_tps := get_model_possible_tp model_type
  let possible_pps := get_model_possible_pp model_type
  -- with low affinity the GPUs of a stage are in one node
  let within := if is_high_affinity then total_num_gpus else num_gpu_per_node
  let tps := possible_tps.filter (· ≤ within)
  let pps := possible_pps.filter (· ≤ within)
  let cpps := if is_high_affinity then [1] else possible_pps.filter (· ≤ num_node)
  cpps.flatMap fun pp_cross => tps.flatMap fun tp_prefill => pps.flatMap fun pp_prefill =>
    tps.flatMap fun tp_decode => pps.flatMap fun pp_decode =>
      let gpu_per_segment := tp_prefill * pp_prefill + tp_decode * pp_decode
      if is_high_affinity = false ∧ gpu_per_segment > num_gpu_per_node then []
      else if pp_cross * gpu_per_segment > total_num_gpus then []
      else if pp_cross * pp_prefill ∉ possible_pps then []
      else if pp_cross * pp_decode ∉ possible_pps then []
      else [.distserve pp_cross tp_prefill pp_prefill tp_decode pp_decode]

def get_vllm_config (model_type : ModelTypes) (num_gpus : Nat) : List SearchConfig :=
  (get_model_possible_tp model_type).flatMap fun tp =>
    (get_model_possible_pp model_type).flatMap fun pp =>
      if tp * pp > num_gpus then [] else [.vllm tp pp]

/-! ## What a configuration must meet -/

theorem mem_divisors {total n : Nat} (htotal : 0 < total) : n ∈ divisors total ↔ n ∣ total := by
  unfold divisors
  rw [List.mem_filter, List.mem_range'_1, decide_eq_true_eq, ← Nat.dvd_iff_mod_eq_zero]
  constructor
  · exact fun h => h.2
  · intro h
    have hle := Nat.le_of_dvd htotal h
    have hpos := Nat.pos_of_dvd_of_pos h htotal
    exact ⟨⟨hpos, by omega⟩, h⟩

theorem divisors_nodup (total : Nat) : (divisors total).Nodup :=
  (List.nodup_range' : (List.range' 1 total).Nodup).filter _

theorem hyperparams_pos (model : ModelTypes) :
    0 < (model_hyperparams model).1 ∧ 0 < (model_hyperparams model).2 := by
  cases model <;> decide

theorem mem_possible_pp {model : ModelTypes} {pp : Nat} :
    pp ∈ get_model_possible_pp model ↔ pp ∣ (model_hyperparams model).1 :=
  mem_divisors (hyperparams_pos model).1

theorem mem_possible_tp {model : ModelTypes} {tp : Nat} :
    tp ∈ get_model_possible_tp model ↔ tp ∣ (model_hyperparams model).2 :=
  mem_divisors (hyperparams_pos model).2

/-- The GPUs can hold the model in this way: the layers are divided evenly among the stages and
the heads among the GPUs of a stage, and there are enough GPUs. With low affinity, what `pp_cross`
repeats is within one node. -/
def Placeable (model : ModelTypes) (num_node num_gpu_per_node : Nat) (is_high_affinity : Bool) :
    SearchConfig → Prop
  | .distserve pp_cross tp_prefill pp_prefill tp_decode pp_decode =>
    (tp_prefill ∣ (model_hyperparams model).2 ∧ tp_decode ∣ (model_hyperparams model).2) ∧
    (pp_cross * pp_prefill ∣ (model_hyperparams model).1 ∧
      pp_cross * pp_decode ∣ (model_hyperparams model).1) ∧
    pp_cross * (tp_prefill * pp_prefill + tp_decode * pp_decode) ≤ num_node * num_gpu_per_node ∧
    if is_high_affinity then pp_cross = 1
    else pp_cross ≤ num_node ∧
      tp_prefill * pp_prefill + tp_decode * pp_decode ≤ num_gpu_per_node
  | .vllm tp pp =>
    tp ∣ (model_hyperparams model).2 ∧ pp ∣ (model_hyperparams model).1 ∧
    tp * pp ≤ num_node * num_gpu_per_node

variable {model : ModelTypes} {num_node num_gpu_per_node num_gpus : Nat} {is_high_affinity : Bool}
  {config : SearchConfig}

theorem mem_filter_pp {pp bound : Nat} (h : pp ∣ (model_hyperparams model).1) (hle : pp ≤ bound) :
    pp ∈ (get_model_possible_pp model).filter (· ≤ bound) :=
  List.mem_filter.mpr ⟨mem_possible_pp.mpr h, decide_eq_true hle⟩

theorem mem_filter_tp {tp bound : Nat} (h : tp ∣ (model_hyperparams model).2) (hle : tp ≤ bound) :
    tp ∈ (get_model_possible_tp model).filter (· ≤ bound) :=
  List.mem_filter.mpr ⟨mem_possible_tp.mpr h, decide_eq_true hle⟩

/-- One turn of the loop of `get_distserve_configs`. -/
theorem mem_turn {A B C D : Prop} [Decidable A] [Decidable B] [Decidable C] [Decidable D]
    {x : SearchConfig} :
    config ∈ (if A then [] else if B then [] else if C then [] else if D then [] else [x]) ↔
      ¬ A ∧ ¬ B ∧ ¬ C ∧ ¬ D ∧ config = x := by
  simp only [List.mem_ite_nil_left, List.mem_singleton]

/-- The numbers of GPUs that a stage of a placeable configuration has are within the bound. -/
theorem factors_le {tp pp total : Nat} (htp : 0 < tp) (hpp : 0 < pp) (h : tp * pp ≤ total) :
    tp ≤ total ∧ pp ≤ total :=
  ⟨(Nat.le_mul_of_pos_right tp hpp).trans h, (Nat.le_mul_of_pos_left pp htp).trans h⟩

/-- `get_distserve_configs` lists the placeable configurations and no others. -/
theorem mem_get_distserve_configs :
    config ∈ get_distserve_configs model num_node num_gpu_per_node is_high_affinity ↔
      config.backend = "distserve" ∧
        Placeable model num_node num_gpu_per_node is_high_affinity config := by
  unfold get_distserve_configs
  simp only [List.mem_flatMap, mem_turn, mem_possible_pp]
  constructor
  · rintro ⟨pp_cross, hcross, tp_prefill, htp, pp_prefill, -, tp_decode, htd, pp_decode, -,
      hnode, htotal, hpp, hpd, rfl⟩
    rw [List.mem_filter, mem_possible_tp] at htp htd
    refine ⟨rfl, ⟨htp.1, htd.1⟩, ⟨not_not.mp hpp, not_not.mp hpd⟩, not_lt.mp htotal, ?_⟩
    cases is_high_affinity with
    | true => exact List.mem_singleton.mp hcross
    | false =>
      have hle := (List.mem_filter.mp hcross).2
      exact ⟨of_decide_eq_true hle, not_lt.mp fun h => hnode ⟨rfl, h⟩⟩
  · rintro ⟨hbackend, hplace⟩
    cases config with
    | vllm tp pp => exact absurd hbackend (by simp [SearchConfig.backend])
    | distserve pp_cross tp_prefill pp_prefill tp_decode pp_decode =>
      obtain ⟨⟨htp, htd⟩, ⟨hpp, hpd⟩, htotal, hwithin⟩ := hplace
      obtain ⟨hlayers, hheads⟩ := hyperparams_pos model
      have hcross := Nat.pos_of_dvd_of_pos (dvd_of_mul_right_dvd hpp) hlayers
      have hsegment : tp_prefill * pp_prefill + tp_decode * pp_decode ≤
          if is_high_affinity then num_node * num_gpu_per_node else num_gpu_per_node := by
        cases is_high_affinity with
        | true =>
          obtain rfl : pp_cross = 1 := hwithin
          rwa [Nat.one_mul] at htotal
        | false => exact hwithin.2
      have hpp' := dvd_of_mul_left_dvd hpp
      have hpd' := dvd_of_mul_left_dvd hpd
      have hprefill := factors_le (Nat.pos_of_dvd_of_pos htp hheads)
        (Nat.pos_of_dvd_of_pos hpp' hlayers) ((Nat.le_add_right _ _).trans hsegment)
      have hdecode := factors_le (Nat.pos_of_dvd_of_pos htd hheads)
        (Nat.pos_of_dvd_of_pos hpd' hlayers) ((Nat.le_add_left _ _).trans hsegment)
      refine ⟨pp_cross, ?_, tp_prefill, mem_filter_tp htp hprefill.1, pp_prefill,
        mem_filter_pp hpp' hprefill.2, tp_decode, mem_filter_tp htd hdecode.1, pp_decode,
        mem_filter_pp hpd' hdecode.2, ?_, not_lt.mpr htotal, not_not.mpr hpp, not_not.mpr hpd, rfl⟩
      · cases is_high_affinity with
        | true => exact List.mem_singleton.mpr hwithin
        | false => exact mem_filter_pp (dvd_of_mul_right_dvd hpp) hwithin.1
      · rintro ⟨rfl, hnode⟩
        exact absurd hsegment (not_le.mpr hnode)

theorem mem_get_vllm_config :
    config ∈ get_vllm_config model (num_node * num_gpu_per_node) ↔
      config.backend = "vllm" ∧
        Placeable model num_node num_gpu_per_node is_high_affinity config := by
  unfold get_vllm_config
  simp only [List.mem_flatMap, List.mem_ite_nil_left, List.mem_singleton, mem_possible_tp,
    mem_possible_pp, not_lt, gt_iff_lt]
  constructor
  · rintro ⟨tp, htp, pp, hpp, hle, rfl⟩
    exact ⟨rfl, htp, hpp, hle⟩
  · rintro ⟨hbackend, hplace⟩
    cases config with
    | distserve => exact absurd hbackend (by simp [SearchConfig.backend])
    | vllm tp pp => exact ⟨tp, hplace.1, pp, hplace.2.1, hplace.2.2, rfl⟩

/-! ## No configuration comes twice -/

theorem nodup_flatMap {α β : Type} {l : List α} {f : α → List β} (hl : l.Nodup)
    (hf : ∀ a ∈ l, (f a).Nodup) (hdiff : ∀ a b x, x ∈ f a → x ∈ f b → a = b) :
    (l.flatMap f).Nodup := by
  rw [List.nodup_flatMap]
  refine ⟨hf, hl.imp ?_⟩
  intro a b hne x ha hb
  exact hne (hdiff a b x ha hb)

theorem get_distserve_configs_nodup :
    (get_distserve_configs model num_node num_gpu_per_node is_high_affinity).Nodup := by
  unfold get_distserve_configs
  dsimp only
  have htps := fun bound => (divisors_nodup (model_hyperparams model).2).filter (· ≤ bound)
  have hpps := fun bound => (divisors_nodup (model_hyperparams model).1).filter (· ≤ bound)
  refine nodup_flatMap ?_ (fun pp_cross _ => nodup_flatMap (htps _) (fun tp_prefill _ =>
    nodup_flatMap (hpps _) (fun pp_prefill _ => nodup_flatMap (htps _) (fun tp_decode _ =>
      nodup_flatMap (hpps _) (fun pp_decode _ => ?_) ?_) ?_) ?_) ?_) ?_
  · cases is_high_affinity with
    | true => exact List.nodup_singleton 1
    | false => exact hpps _
  · split_ifs <;> simp
  all_goals
    intro a b x ha hb
    simp only [List.mem_flatMap, mem_turn] at ha hb
    grind

theorem get_vllm_config_nodup : (get_vllm_config model num_gpus).Nodup := by
  unfold get_vllm_config
  refine nodup_flatMap (divisors_nodup _) (fun tp _ =>
    nodup_flatMap (divisors_nodup _) (fun pp _ => ?_) ?_) ?_
  · split_ifs <;> simp
  all_goals
    intro a b x ha hb
    simp only [List.mem_flatMap, List.mem_ite_nil_left, List.mem_singleton] at ha hb
    grind

end simdistserve
