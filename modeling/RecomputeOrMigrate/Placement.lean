-- The placement of the workers on the nodes (engine.py, single_stage_engine.py,
-- config.py): the two stages that own one layer share a placement group.
import Mathlib.Data.Nat.GCD.Basic
import Mathlib.Order.Interval.Finset.Nat
import RecomputeOrMigrate.General.Calls
import RecomputeOrMigrate.Request

open calls

namespace distserve

/-! ## The two functions that place -/

/-- `a // b` for integers. -/
def floordiv (a b : Nat) : Except PyError Nat :=
  if b = 0 then throw .integer_division_by_zero else return a / b

/-- `ModelConfig`, with the number of layers of its `hf_config`. -/
structure ModelConfig where
  num_hidden_layers : Nat

/-- `ParallelConfig()`. -/
def ParallelConfig.default : ParallelConfig := ⟨1, 1, Nat.one_pos, Nat.one_pos⟩

/-- The layers of one pipeline stage. -/
def ModelConfig.get_num_layers (model_config : ModelConfig) (parallel_config : ParallelConfig) :
    Except PyError Nat :=
  if model_config.num_hidden_layers % parallel_config.pipeline_parallel_size = 0 then
    return model_config.num_hidden_layers / parallel_config.pipeline_parallel_size
  else
    throw (.layers_not_divisible model_config.num_hidden_layers
      parallel_config.pipeline_parallel_size)

/-- A placement group with its bundles of one GPU each, all on one node. -/
structure PlacementGroup where
  bundles : Nat
deriving DecidableEq

/-- `LLMEngine._init_placement_groups`. -/
def init_placement_groups (model_config : ModelConfig) (context decoding : ParallelConfig) :
    Except PyError (List PlacementGroup) := do
  let layer_per_context_pp ← model_config.get_num_layers context
  let layer_per_decoding_pp ← model_config.get_num_layers decoding
  let layer_per_placement_group := Nat.lcm layer_per_context_pp layer_per_decoding_pp
  let workers_per_placement_group :=
    (← floordiv layer_per_placement_group layer_per_context_pp) * context.tensor_parallel_size +
      (← floordiv layer_per_placement_group layer_per_decoding_pp) * decoding.tensor_parallel_size
  let num_placement_groups ←
    floordiv (← model_config.get_num_layers .default) layer_per_placement_group
  if num_placement_groups * workers_per_placement_group =
      context.pipeline_parallel_size * context.tensor_parallel_size +
        decoding.pipeline_parallel_size * decoding.tensor_parallel_size then
    return List.replicate num_placement_groups ⟨workers_per_placement_group⟩
  else throw .worker_counts_differ

/-- A `ParaWorker` where it is placed. -/
structure PlacedWorker where
  worker_id : Nat
  pipeline_parallel_rank : Nat
  tensor_parallel_rank : Nat
  placement_group_index : Nat
deriving DecidableEq

/-- The workers of the pipeline stage `i`. -/
def stage_workers (placement_groups : List PlacementGroup) (parallel_config : ParallelConfig)
    (pp_per_placement_group i : Nat) : Except PyError (List PlacedWorker) := do
  let placement_group_index ← floordiv i pp_per_placement_group
  match placement_groups[placement_group_index]? with
  | none => throw .list_index_out_of_range
  | some _ =>
    return (List.range parallel_config.tensor_parallel_size).map fun j =>
      ⟨i * parallel_config.tensor_parallel_size + j, i, j, placement_group_index⟩

/-- `SingleStageLLMEngine._init_workers`. -/
def init_workers (model_config : ModelConfig) (placement_groups : List PlacementGroup)
    (parallel_config : ParallelConfig) : Except PyError (List (List PlacedWorker)) := do
  let layer_per_placement_group ←
    floordiv (← model_config.get_num_layers .default) placement_groups.length
  let layer_per_pp ← model_config.get_num_layers parallel_config
  let pp_per_placement_group ← floordiv layer_per_placement_group layer_per_pp
  (List.range parallel_config.pipeline_parallel_size).mapM
    (stage_workers placement_groups parallel_config pp_per_placement_group)

/-- The worker holds the layer: the stages own equal runs of layers, in order. -/
def PlacedWorker.Owns (worker : PlacedWorker) (layer_per_pp layer : Nat) : Prop :=
  worker.pipeline_parallel_rank * layer_per_pp ≤ layer ∧
    layer < (worker.pipeline_parallel_rank + 1) * layer_per_pp

/-! ## The arithmetic of the layout -/

variable {L l m i g layer : Nat}

theorem floordiv_eq {a b : Nat} (h : 0 < b) : floordiv a b = .ok (a / b) := if_neg h.ne'

theorem get_num_layers_eq {model_config : ModelConfig} {pc : ParallelConfig}
    (h : pc.pipeline_parallel_size ∣ model_config.num_hidden_layers) :
    model_config.get_num_layers pc =
      .ok (model_config.num_hidden_layers / pc.pipeline_parallel_size) :=
  if_pos (Nat.mod_eq_zero_of_dvd h)

theorem get_num_layers_default (model_config : ModelConfig) :
    model_config.get_num_layers .default = .ok model_config.num_hidden_layers := by
  rw [get_num_layers_eq (one_dvd _)]
  exact congrArg _ (Nat.div_one _)

/-- A group of `m` layers holds `m / l` stages of `l` layers. -/
theorem groups_mul_stages (hl : l ∣ m) (hm : m ∣ L) : L / m * (m / l) = L / l := by
  rw [Nat.mul_comm, Nat.div_mul_div_comm hl hm, Nat.mul_comm m L]
  rcases Nat.eq_zero_or_pos m with rfl | hpos
  · obtain rfl := Nat.eq_zero_of_zero_dvd hm
    simp
  · exact Nat.mul_div_mul_right L l hpos

theorem group_in_range (hl : l ∣ m) (hm : m ∣ L) (hi : i < L / l) : i / (m / l) < L / m := by
  apply Nat.div_lt_of_lt_mul
  rw [Nat.mul_comm, groups_mul_stages hl hm]
  exact hi

/-- The group of the stage that owns a layer is the group of the layer. -/
theorem group_of_layer (hl : l ∣ m) (hlow : i * l ≤ layer) (hhigh : layer < (i + 1) * l) :
    i / (m / l) = layer / m := by
  have hi : layer / l = i := Nat.div_eq_of_lt_le hlow hhigh
  rw [← hi, Nat.div_div_eq_div_mul, Nat.mul_div_cancel' hl]

/-- Each group gets `k` of the `n * k` stages. -/
theorem stages_in_group (n k g : Nat) (hk : 0 < k) (hg : g < n) :
    (List.range (n * k)).countP (fun i => i / k == g) = k := by
  have hfilter : (Finset.range (n * k)).filter (fun i => i / k = g) =
      Finset.Ico (g * k) ((g + 1) * k) := by
    ext i
    have hend : (g + 1) * k ≤ n * k := Nat.mul_le_mul_right k hg
    rw [Finset.mem_filter, Finset.mem_range, Finset.mem_Ico, Nat.div_eq_iff hk]
    constructor
    · rintro ⟨-, hlow, hhigh⟩
      rw [Nat.add_mul]
      omega
    · rintro ⟨hlow, hhigh⟩
      rw [Nat.add_mul] at hhigh hend
      omega
  have hcard := congrArg Finset.card hfilter
  rw [Nat.card_Ico, Nat.add_mul, Nat.one_mul, Nat.add_sub_cancel_left] at hcard
  rw [List.countP_eq_length_filter]
  exact hcard

/-! ## The workers -/

/-- The workers of a stage when its group is there. -/
def placed (pc : ParallelConfig) (pp_per_placement_group i : Nat) : List PlacedWorker :=
  (List.range pc.tensor_parallel_size).map fun j =>
    ⟨i * pc.tensor_parallel_size + j, i, j, i / pp_per_placement_group⟩

variable {model_config : ModelConfig} {placement_groups : List PlacementGroup}
  {pc : ParallelConfig} {worker : PlacedWorker}

/-- `_init_workers` for groups of `m` layers: no index is out of range. -/
theorem init_workers_eq (hpos : 0 < model_config.num_hidden_layers)
    (hpc : pc.pipeline_parallel_size ∣ model_config.num_hidden_layers)
    (hl : model_config.num_hidden_layers / pc.pipeline_parallel_size ∣ m)
    (hm : m ∣ model_config.num_hidden_layers)
    (hgroups : placement_groups.length = model_config.num_hidden_layers / m) :
    init_workers model_config placement_groups pc =
      .ok ((List.range pc.pipeline_parallel_size).map
        (placed pc (m / (model_config.num_hidden_layers / pc.pipeline_parallel_size)))) := by
  set L := model_config.num_hidden_layers with hL
  have hmpos : 0 < m := Nat.pos_of_dvd_of_pos hm hpos
  have hlpos : 0 < L / pc.pipeline_parallel_size := Nat.pos_of_dvd_of_pos hl hmpos
  have hstages : L / (L / pc.pipeline_parallel_size) = pc.pipeline_parallel_size :=
    Nat.div_div_self hpc hpos.ne'
  have hk : 0 < m / (L / pc.pipeline_parallel_size) := Nat.div_pos (Nat.le_of_dvd hmpos hl) hlpos
  unfold init_workers
  have hn : 0 < placement_groups.length := by
    rw [hgroups]
    exact Nat.div_pos (Nat.le_of_dvd hpos hm) hmpos
  rw [get_num_layers_default, ok_bind rfl, floordiv_eq hn, ok_bind rfl, get_num_layers_eq hpc,
    ok_bind rfl, floordiv_eq hlpos, ok_bind rfl, hgroups, ← hL, Nat.div_div_self hm hpos.ne']
  apply mapM_ok
  intro i hi
  have hlt : i / (m / (L / pc.pipeline_parallel_size)) < placement_groups.length := by
    rw [hgroups]
    apply group_in_range hl hm
    rw [hstages]
    exact List.mem_range.mp hi
  unfold stage_workers
  rw [floordiv_eq hk, ok_bind rfl, List.getElem?_eq_getElem hlt]
  rfl

theorem mem_placed {k : Nat} (h : worker ∈ placed pc k i) :
    worker.pipeline_parallel_rank = i ∧ worker.placement_group_index = i / k := by
  obtain ⟨j, -, rfl⟩ := List.mem_map.mp h
  exact ⟨rfl, rfl⟩

theorem countP_placed (pc : ParallelConfig) (k i g : Nat) :
    (placed pc k i).countP (fun w => w.placement_group_index == g) =
      if i / k == g then pc.tensor_parallel_size else 0 := by
  unfold placed
  rw [List.countP_map]
  split
  · next h =>
    apply (List.countP_eq_length.mpr fun j _ => h).trans
    exact List.length_range
  · next h => exact List.countP_eq_zero.mpr fun j _ => h

/-- Each group gets all workers of its stages. -/
theorem countP_workers (pc : ParallelConfig) (stages : List Nat) (k g : Nat) :
    ((stages.map (placed pc k)).flatten).countP (fun w => w.placement_group_index == g) =
      stages.countP (fun i => i / k == g) * pc.tensor_parallel_size := by
  induction stages with
  | nil => simp
  | cons i rest ih =>
    rw [List.map_cons, List.flatten_cons, List.countP_append, ih, countP_placed, List.countP_cons,
      Nat.add_mul, Nat.add_comm]
    split <;> simp

/-- The workers that `_init_workers` places, for groups of `m` layers. -/
structure PlacedIn (L m : Nat) (pc : ParallelConfig) (workers : List PlacedWorker) : Prop where
  in_range : ∀ w ∈ workers, w.placement_group_index < L / m
  counted : ∀ g < L / m, workers.countP (fun w => w.placement_group_index == g) =
    m / (L / pc.pipeline_parallel_size) * pc.tensor_parallel_size
  owned : ∀ layer < L, ∃ w ∈ workers, w.Owns (L / pc.pipeline_parallel_size) layer
  aligned : ∀ w ∈ workers, ∀ layer, w.Owns (L / pc.pipeline_parallel_size) layer →
    w.placement_group_index = layer / m

theorem placed_in (hpos : 0 < L) (hpc : pc.pipeline_parallel_size ∣ L)
    (hl : L / pc.pipeline_parallel_size ∣ m) (hm : m ∣ L) :
    PlacedIn L m pc ((List.range pc.pipeline_parallel_size).map
      (placed pc (m / (L / pc.pipeline_parallel_size)))).flatten := by
  have hmpos : 0 < m := Nat.pos_of_dvd_of_pos hm hpos
  have hlpos : 0 < L / pc.pipeline_parallel_size := Nat.pos_of_dvd_of_pos hl hmpos
  have hstages : L / (L / pc.pipeline_parallel_size) = pc.pipeline_parallel_size :=
    Nat.div_div_self hpc hpos.ne'
  have hmem : ∀ w, w ∈ ((List.range pc.pipeline_parallel_size).map
      (placed pc (m / (L / pc.pipeline_parallel_size)))).flatten →
      w.pipeline_parallel_rank < pc.pipeline_parallel_size ∧ w.placement_group_index =
        w.pipeline_parallel_rank / (m / (L / pc.pipeline_parallel_size)) := by
    intro w hw
    obtain ⟨l, hin, hw⟩ := List.mem_flatten.mp hw
    obtain ⟨i, hi, rfl⟩ := List.mem_map.mp hin
    obtain ⟨rfl, hg⟩ := mem_placed hw
    exact ⟨List.mem_range.mp hi, hg⟩
  refine ⟨fun w hw => ?_, fun g hg => ?_, fun layer hlayer => ?_, fun w hw layer ho => ?_⟩
  · obtain ⟨hi, hg⟩ := hmem w hw
    rw [hg]
    apply group_in_range hl hm
    rw [hstages]
    exact hi
  · have hcount := stages_in_group (L / m) (m / (L / pc.pipeline_parallel_size)) g
      (Nat.div_pos (Nat.le_of_dvd hmpos hl) hlpos) hg
    rw [groups_mul_stages hl hm, hstages] at hcount
    rw [countP_workers, hcount]
  · -- the first tensor parallel worker of the stage `layer / l`
    have hi : layer / (L / pc.pipeline_parallel_size) < pc.pipeline_parallel_size := by
      apply Nat.div_lt_of_lt_mul
      rw [Nat.div_mul_cancel hpc]
      exact hlayer
    refine ⟨_, List.mem_flatten.mpr ⟨_, List.mem_map.mpr ⟨_, List.mem_range.mpr hi, rfl⟩,
      List.mem_map.mpr ⟨0, List.mem_range.mpr pc.tensor_parallel_size_pos, rfl⟩⟩, ?_, ?_⟩
    · exact Nat.div_mul_le_self layer _
    · exact (Nat.div_lt_iff_lt_mul hlpos).mp (Nat.lt_succ_self _)
  · rw [(hmem w hw).2]
    exact group_of_layer hl ho.1 ho.2

/-- `_init_placement_groups`: the assertion holds, and no division is inexact. -/
theorem init_placement_groups_eq {model_config : ModelConfig} {context decoding : ParallelConfig}
    {lc ld : Nat} (hpos : 0 < model_config.num_hidden_layers)
    (hc : context.pipeline_parallel_size ∣ model_config.num_hidden_layers)
    (hd : decoding.pipeline_parallel_size ∣ model_config.num_hidden_layers)
    (hlc : lc = model_config.num_hidden_layers / context.pipeline_parallel_size)
    (hld : ld = model_config.num_hidden_layers / decoding.pipeline_parallel_size) :
    init_placement_groups model_config context decoding =
      .ok (List.replicate (model_config.num_hidden_layers / Nat.lcm lc ld)
        ⟨Nat.lcm lc ld / lc * context.tensor_parallel_size +
          Nat.lcm lc ld / ld * decoding.tensor_parallel_size⟩) := by
  set L := model_config.num_hidden_layers with hL
  have hmc : lc ∣ Nat.lcm lc ld := Nat.dvd_lcm_left _ _
  have hmd : ld ∣ Nat.lcm lc ld := Nat.dvd_lcm_right _ _
  have hm : Nat.lcm lc ld ∣ L := by
    rw [hlc, hld]
    exact Nat.lcm_dvd (Nat.div_dvd_of_dvd hc) (Nat.div_dvd_of_dvd hd)
  have hmpos : 0 < Nat.lcm lc ld := Nat.pos_of_dvd_of_pos hm hpos
  have hcsize : L / Nat.lcm lc ld * (Nat.lcm lc ld / lc) = context.pipeline_parallel_size := by
    rw [groups_mul_stages hmc hm, hlc, Nat.div_div_self hc hpos.ne']
  have hdsize : L / Nat.lcm lc ld * (Nat.lcm lc ld / ld) = decoding.pipeline_parallel_size := by
    rw [groups_mul_stages hmd hm, hld, Nat.div_div_self hd hpos.ne']
  unfold init_placement_groups
  rw [get_num_layers_eq hc, ok_bind rfl, get_num_layers_eq hd, ok_bind rfl, ← hL, ← hlc, ← hld]
  dsimp only
  rw [floordiv_eq (Nat.pos_of_dvd_of_pos hmc hmpos), ok_bind rfl,
    floordiv_eq (Nat.pos_of_dvd_of_pos hmd hmpos), ok_bind rfl, get_num_layers_default,
    ok_bind rfl, floordiv_eq hmpos, ok_bind rfl]
  apply if_pos
  rw [Nat.mul_add, ← Nat.mul_assoc, ← Nat.mul_assoc, hcsize, hdsize]

/-- The placement is aligned: both calls return, each group gets its workers, and the
workers of both engines that hold one layer are in one group. -/
theorem the_workers_of_a_layer_share_a_placement_group {model_config : ModelConfig}
    {context decoding : ParallelConfig} (hpos : 0 < model_config.num_hidden_layers)
    (hc : context.pipeline_parallel_size ∣ model_config.num_hidden_layers)
    (hd : decoding.pipeline_parallel_size ∣ model_config.num_hidden_layers) :
    ∃ placement_groups context_workers decoding_workers,
      init_placement_groups model_config context decoding = .ok placement_groups ∧
      init_workers model_config placement_groups context = .ok context_workers ∧
      init_workers model_config placement_groups decoding = .ok decoding_workers ∧
      (∀ w ∈ context_workers.flatten ++ decoding_workers.flatten,
        w.placement_group_index < placement_groups.length) ∧
      (∀ g group, placement_groups[g]? = some group →
        (context_workers.flatten ++ decoding_workers.flatten).countP
          (fun w => w.placement_group_index == g) = group.bundles) ∧
      ∀ layer < model_config.num_hidden_layers,
        (∃ a ∈ context_workers.flatten,
          a.Owns (model_config.num_hidden_layers / context.pipeline_parallel_size) layer) ∧
        (∃ b ∈ decoding_workers.flatten,
          b.Owns (model_config.num_hidden_layers / decoding.pipeline_parallel_size) layer) ∧
        ∀ a ∈ context_workers.flatten, ∀ b ∈ decoding_workers.flatten,
          a.Owns (model_config.num_hidden_layers / context.pipeline_parallel_size) layer →
          b.Owns (model_config.num_hidden_layers / decoding.pipeline_parallel_size) layer →
          a.placement_group_index = b.placement_group_index := by
  set L := model_config.num_hidden_layers
  have hmc := Nat.dvd_lcm_left (L / context.pipeline_parallel_size)
    (L / decoding.pipeline_parallel_size)
  have hmd := Nat.dvd_lcm_right (L / context.pipeline_parallel_size)
    (L / decoding.pipeline_parallel_size)
  have hm := Nat.lcm_dvd (Nat.div_dvd_of_dvd hc) (Nat.div_dvd_of_dvd hd)
  have hcw := placed_in hpos hc hmc hm
  have hdw := placed_in hpos hd hmd hm
  refine ⟨_, _, _, init_placement_groups_eq hpos hc hd rfl rfl,
    init_workers_eq hpos hc hmc hm List.length_replicate,
    init_workers_eq hpos hd hmd hm List.length_replicate, fun w hw => ?_, fun g group hg => ?_,
    fun layer hlayer => ⟨hcw.owned layer hlayer, hdw.owned layer hlayer,
      fun a ha b hb hao hbo => ?_⟩⟩
  · rw [List.length_replicate]
    exact (List.mem_append.mp hw).elim (hcw.in_range w) (hdw.in_range w)
  · obtain ⟨hlt, rfl⟩ := List.getElem?_eq_some_iff.mp hg
    rw [List.length_replicate] at hlt
    rw [List.countP_append, hcw.counted g hlt, hdw.counted g hlt, List.getElem_replicate]
  · rw [hcw.aligned a ha layer hao, hdw.aligned b hb layer hbo]

/-- Twelve layers in two stages of six, and in three stages of four. -/
theorem twelve_layers_are_aligned :
    ∃ placement_groups context_workers decoding_workers,
      init_placement_groups ⟨12⟩ ⟨2, 2, Nat.two_pos, Nat.two_pos⟩ ⟨1, 3, Nat.one_pos, three_pos⟩ =
        .ok placement_groups ∧
      init_workers ⟨12⟩ placement_groups ⟨2, 2, Nat.two_pos, Nat.two_pos⟩ = .ok context_workers ∧
      init_workers ⟨12⟩ placement_groups ⟨1, 3, Nat.one_pos, three_pos⟩ = .ok decoding_workers := by
  obtain ⟨groups, cw, dw, hgroups, hcw, hdw, -⟩ :=
    @the_workers_of_a_layer_share_a_placement_group ⟨12⟩ ⟨2, 2, Nat.two_pos, Nat.two_pos⟩
      ⟨1, 3, Nat.one_pos, three_pos⟩ (by decide) (by decide) (by decide)
  exact ⟨groups, cw, dw, hgroups, hcw, hdw⟩

/-- The engine cannot place a model without layers: the first `//` divides by zero. -/
theorem a_model_without_layers_is_not_placed :
    ¬ ∀ (model_config : ModelConfig) (context decoding : ParallelConfig),
      context.pipeline_parallel_size ∣ model_config.num_hidden_layers →
      decoding.pipeline_parallel_size ∣ model_config.num_hidden_layers →
      ∃ placement_groups, init_placement_groups model_config context decoding =
        .ok placement_groups := by
  intro h
  obtain ⟨groups, hgroups⟩ := h ⟨0⟩ .default .default (dvd_zero _) (dvd_zero _)
  have hraises : init_placement_groups ⟨0⟩ .default .default = .error .integer_division_by_zero :=
    rfl
  rw [hraises] at hgroups
  cases hgroups

end distserve
