-- The size of the cache of one prompt, as the cost model computes it (rom_decision.py) and as
-- the workers allocate it in blocks (worker.py, config.py). The engine gives the cost model
-- the layers and the heads of the loaded model, but not its dtype.
import Mathlib.Tactic.Ring
import RecomputeOrMigrate.Placement
import RecomputeOrMigrate.RomDecision

open calls

namespace distserve

/-! ## The two computations -/

/-- The values of `ModelConfig.dtype` that `_verify_args` lets through. -/
inductive ModelDtype
  | fp16
  | fp32
deriving DecidableEq

/-- `ModelConfig`, with the fields of its `hf_config` that the size of the cache reads. -/
structure CacheModelConfig extends ModelConfig where
  dtype : ModelDtype
  model_type : String
  hidden_size : Nat
  num_attention_heads : Nat
  new_decoder_architecture : Bool
  multi_query : Bool
  n_head_kv : Option Nat
  num_key_value_heads : Option Nat

namespace CacheModelConfig

def get_dtype_size (model_config : CacheModelConfig) : Nat :=
  match model_config.dtype with
  | .fp16 => 2
  | .fp32 => 4

def get_head_size (model_config : CacheModelConfig) : Except PyError Nat :=
  floordiv model_config.hidden_size model_config.num_attention_heads

/-- The heads of one tensor parallel worker. A falcon model of the new architecture has more
than one head, whatever its flag `multi_query`. -/
def get_num_heads (model_config : CacheModelConfig) (parallel_config : ParallelConfig) :
    Except PyError Nat :=
  let new_decoder_arch_falcon :=
    model_config.model_type == "falcon" && model_config.new_decoder_architecture
  if !new_decoder_arch_falcon && model_config.multi_query then return 1
  else match model_config.n_head_kv with
    | some n_head_kv => return n_head_kv / parallel_config.tensor_parallel_size
    | none => match model_config.num_key_value_heads with
      | some num_key_value_heads =>
        return num_key_value_heads / parallel_config.tensor_parallel_size
      | none =>
        let total_num_attention_heads := model_config.num_attention_heads
        if total_num_attention_heads % parallel_config.tensor_parallel_size = 0 then
          return total_num_attention_heads / parallel_config.tensor_parallel_size
        else throw (.heads_not_divisible total_num_attention_heads
          parallel_config.tensor_parallel_size)

/-- `ParaWorker._get_block_size_in_bytes`. -/
def get_block_size_in_bytes (block_size : Nat) (model_config : CacheModelConfig)
    (parallel_config : ParallelConfig) : Except PyError Nat := do
  let num_layers ← model_config.get_num_layers parallel_config
  let num_heads ← model_config.get_num_heads parallel_config
  let head_dim ← model_config.get_head_size
  let key_cache_size := num_layers * num_heads * block_size * head_dim
  let total := key_cache_size * 2
  return total * model_config.get_dtype_size

/-- One block of every worker of a stage. -/
def stage_block_bytes (block_size : Nat) (model_config : CacheModelConfig)
    (parallel_config : ParallelConfig) : Except PyError Nat := do
  let sizes ← (List.range (parallel_config.pipeline_parallel_size *
    parallel_config.tensor_parallel_size)).mapM fun _ =>
      get_block_size_in_bytes block_size model_config parallel_config
  return sizes.sum

end CacheModelConfig

/-- The layers, the heads and the head size of the loaded model replace those of the
configuration. Its `dtype_bytes` stays. -/
def ROMConfig.update_from_model_config (rom_config : ROMConfig)
    (num_layers num_kv_heads head_dim : Int) : ROMConfig :=
  { rom_config with num_layers, num_kv_heads, head_dim }

/-- The call of `apply_model_config_to_rom` in `LLMEngine.__init__`. -/
def apply_model_config_to_rom (model_config : CacheModelConfig) (rom_config : ROMConfig) :
    Except PyError ROMConfig := do
  let num_kv_heads ← model_config.get_num_heads .default
  let head_dim ← model_config.get_head_size
  return rom_config.update_from_model_config model_config.num_hidden_layers num_kv_heads head_dim

/-- The cost model and the workers agree on a prompt: its bytes are those of its blocks when it
fills them, and else less by less than one block of every worker. -/
def SizeAgrees (model_config : CacheModelConfig) (rom_config : ROMConfig)
    (parallel_config : ParallelConfig) (block_size prompt_len : Nat) : Prop :=
  ∃ total : Nat, model_config.stage_block_bytes block_size parallel_config = .ok total ∧
    let kv_bytes := compute_kv_size_bytes_from_config prompt_len rom_config
    if block_size ∣ prompt_len then kv_bytes = (prompt_len / block_size : Nat) * total
    else
      let blocks := (prompt_len + block_size - 1) / block_size
      kv_bytes < blocks * total ∧ blocks * total - kv_bytes < total

/-! ## What the workers allocate -/

namespace CacheModelConfig

variable {model_config : CacheModelConfig} {parallel_config : ParallelConfig}

/-- Each worker of the stage has its share of the heads. -/
theorem get_num_heads_split {kv : Nat} (hkv : model_config.get_num_heads .default = .ok kv)
    (h : parallel_config.tensor_parallel_size ∣ kv) :
    ∃ n, model_config.get_num_heads parallel_config = .ok n ∧
      n * parallel_config.tensor_parallel_size = kv := by
  unfold get_num_heads at hkv ⊢
  dsimp only at hkv ⊢
  by_cases hq : (!(model_config.model_type == "falcon" && model_config.new_decoder_architecture) &&
      model_config.multi_query) = true
  · rw [if_pos hq] at hkv ⊢
    cases hkv
    exact ⟨1, rfl, by rw [Nat.dvd_one.mp h]⟩
  · rw [if_neg hq] at hkv ⊢
    cases hn : model_config.n_head_kv with
    | some n =>
      rw [hn] at hkv
      have hkv : n = kv := by simpa [ParallelConfig.default, pure, Except.pure] using hkv
      subst hkv
      exact ⟨_, rfl, Nat.div_mul_cancel h⟩
    | none =>
      rw [hn] at hkv
      cases hm : model_config.num_key_value_heads with
      | some n =>
        rw [hm] at hkv
        have hkv : n = kv := by simpa [ParallelConfig.default, pure, Except.pure] using hkv
        subst hkv
        exact ⟨_, rfl, Nat.div_mul_cancel h⟩
      | none =>
        rw [hm] at hkv
        have hkv : model_config.num_attention_heads = kv := by
          simpa [ParallelConfig.default, pure, Except.pure, Nat.mod_one] using hkv
        subst hkv
        dsimp only
        rw [if_pos (Nat.mod_eq_zero_of_dvd h)]
        exact ⟨_, rfl, Nat.div_mul_cancel h⟩

theorem get_block_size_in_bytes_eq {layers heads head_dim : Nat}
    (hl : model_config.get_num_layers parallel_config = .ok layers)
    (hh : model_config.get_num_heads parallel_config = .ok heads)
    (hd : model_config.get_head_size = .ok head_dim) (block_size : Nat) :
    model_config.get_block_size_in_bytes block_size parallel_config =
      .ok (layers * heads * block_size * head_dim * 2 * model_config.get_dtype_size) := by
  unfold get_block_size_in_bytes
  rw [ok_bind hl, ok_bind hh, ok_bind hd]
  rfl

/-- The bytes of one token in all layers and heads of the model. -/
def token_bytes (model_config : CacheModelConfig) (kv head_dim : Nat) : Nat :=
  2 * model_config.num_hidden_layers * kv * head_dim

/-- The shares of the workers make up the model. -/
theorem stage_block_bytes_eq {kv head_dim : Nat}
    (hkv : model_config.get_num_heads .default = .ok kv)
    (hd : model_config.get_head_size = .ok head_dim)
    (hpp : parallel_config.pipeline_parallel_size ∣ model_config.num_hidden_layers)
    (htp : parallel_config.tensor_parallel_size ∣ kv) (block_size : Nat) :
    model_config.stage_block_bytes block_size parallel_config =
      .ok (model_config.token_bytes kv head_dim * block_size * model_config.get_dtype_size) := by
  have hl := get_num_layers_eq hpp
  have hlayers := Nat.div_mul_cancel hpp
  obtain ⟨heads, hh, hheads⟩ := get_num_heads_split hkv htp
  unfold stage_block_bytes
  rw [ok_bind (mapM_ok fun _ _ => get_block_size_in_bytes_eq hl hh hd block_size)]
  congr 1
  rw [List.map_const', List.sum_replicate, List.length_range]
  unfold token_bytes
  rw [← hheads]
  nth_rewrite 2 [← hlayers]
  simp only [nsmul_eq_mul, Nat.cast_id]
  ring

end CacheModelConfig

/-! ## What the cost model computes -/

section

variable {model_config : CacheModelConfig} {rom_config rom_config' : ROMConfig}
  {parallel_config : ParallelConfig} {kv head_dim block_size : Nat}

/-- The engine overwrites the architecture, and keeps `dtype_bytes`. -/
theorem apply_model_config_to_rom_eq (hkv : model_config.get_num_heads .default = .ok kv)
    (hrom : apply_model_config_to_rom model_config rom_config = .ok rom_config') :
    ∃ head_dim, model_config.get_head_size = .ok head_dim ∧
      rom_config' = { rom_config with
        num_layers := model_config.num_hidden_layers, num_kv_heads := kv, head_dim } := by
  unfold apply_model_config_to_rom at hrom
  rw [ok_bind hkv] at hrom
  obtain ⟨head_dim, hd, hrom⟩ := bind_eq_ok.mp hrom
  cases hrom
  exact ⟨head_dim, hd, rfl⟩

theorem kv_size_bytes_eq {prompt_len : Nat} (hL : 0 < prompt_len) :
    compute_kv_size_bytes_from_config prompt_len { rom_config with
        num_layers := model_config.num_hidden_layers, num_kv_heads := kv, head_dim } =
      model_config.token_bytes kv head_dim * prompt_len * rom_config.dtype_bytes := by
  have hpos : ¬(prompt_len : Int) ≤ 0 := by omega
  unfold compute_kv_size_bytes_from_config compute_kv_size_bytes
  rw [if_neg hpos]
  unfold CacheModelConfig.token_bytes
  push_cast
  ring

theorem get_head_size_eq_zero (hd : model_config.get_head_size = .ok head_dim) :
    head_dim = 0 ↔ model_config.hidden_size < model_config.num_attention_heads := by
  unfold CacheModelConfig.get_head_size floordiv at hd
  split at hd
  · cases hd
  · next hheads =>
    cases hd
    rw [Nat.div_eq_zero_iff]
    omega

end

/-! ## Blocks of tokens -/

/-- A length that does not fill its last block stays below its blocks by less than a block. -/
theorem below_its_blocks {block_size L : Nat} (hb : 0 < block_size) (hd : ¬block_size ∣ L) :
    L < (L + block_size - 1) / block_size * block_size ∧
      (L + block_size - 1) / block_size * block_size - L < block_size := by
  have hdm := Nat.div_add_mod L block_size
  have hlt := Nat.mod_lt L hb
  have hr : L % block_size ≠ 0 := fun h => hd (Nat.dvd_of_mod_eq_zero h)
  have hceil : (L + block_size - 1) / block_size = L / block_size + 1 := by
    apply Nat.div_eq_of_lt_le
    · rw [Nat.add_mul, Nat.mul_comm]
      omega
    · rw [Nat.add_mul, Nat.add_mul, Nat.mul_comm (L / block_size)]
      omega
  rw [hceil, Nat.add_mul, Nat.one_mul, Nat.mul_comm (L / block_size)]
  omega

/-! ## When they agree -/

/-- The cache of the model takes no bytes at all. -/
def CacheModelConfig.NoCache (model_config : CacheModelConfig) (kv : Nat) : Prop :=
  model_config.num_hidden_layers = 0 ∨ kv = 0 ∨
    model_config.hidden_size < model_config.num_attention_heads

section

variable {model_config : CacheModelConfig} {rom_config rom_config' : ROMConfig}
  {parallel_config : ParallelConfig} {kv head_dim block_size : Nat}

theorem token_bytes_eq_zero (hd : model_config.get_head_size = .ok head_dim) :
    model_config.token_bytes kv head_dim = 0 ↔ model_config.NoCache kv := by
  unfold CacheModelConfig.token_bytes CacheModelConfig.NoCache
  rw [← get_head_size_eq_zero hd]
  simp only [Nat.mul_eq_zero]
  omega

/-- Agreement in terms of the bytes of one token. -/
theorem sizeAgrees_iff (hkv : model_config.get_num_heads .default = .ok kv)
    (hd : model_config.get_head_size = .ok head_dim)
    (hpp : parallel_config.pipeline_parallel_size ∣ model_config.num_hidden_layers)
    (htp : parallel_config.tensor_parallel_size ∣ kv) {L : Nat} (hL : 0 < L) :
    SizeAgrees model_config { rom_config with
        num_layers := model_config.num_hidden_layers, num_kv_heads := kv, head_dim }
        parallel_config block_size L ↔
      let u := model_config.token_bytes kv head_dim
      let total := u * block_size * model_config.get_dtype_size
      let kv_bytes : Int := u * L * rom_config.dtype_bytes
      if block_size ∣ L then kv_bytes = (L / block_size : Nat) * (total : Nat)
      else
        let blocks := (L + block_size - 1) / block_size
        kv_bytes < blocks * (total : Nat) ∧ blocks * (total : Nat) - kv_bytes < (total : Nat) := by
  unfold SizeAgrees
  rw [CacheModelConfig.stage_block_bytes_eq hkv hd hpp htp, kv_size_bytes_eq hL]
  constructor
  · rintro ⟨total, ht, h⟩
    cases ht
    exact h
  · intro h
    exact ⟨_, rfl, h⟩

/-- With the right dtype they agree on every length. -/
theorem agrees_of_dtype (hkv : model_config.get_num_heads .default = .ok kv)
    (hd : model_config.get_head_size = .ok head_dim)
    (hpp : parallel_config.pipeline_parallel_size ∣ model_config.num_hidden_layers)
    (htp : parallel_config.tensor_parallel_size ∣ kv) (hb : 0 < block_size)
    (hu : model_config.token_bytes kv head_dim ≠ 0)
    (hdtype : rom_config.dtype_bytes = model_config.get_dtype_size) {L : Nat} (hL : 0 < L) :
    SizeAgrees model_config { rom_config with
        num_layers := model_config.num_hidden_layers, num_kv_heads := kv, head_dim }
        parallel_config block_size L := by
  rw [sizeAgrees_iff hkv hd hpp htp hL, hdtype]
  set u := model_config.token_bytes kv head_dim
  have hds : 0 < model_config.get_dtype_size := by
    unfold CacheModelConfig.get_dtype_size
    split <;> omega
  have hpos : 0 < u * model_config.get_dtype_size := Nat.mul_pos (Nat.pos_of_ne_zero hu) hds
  dsimp only
  split
  · next h =>
    obtain ⟨q, rfl⟩ := h
    rw [Nat.mul_div_cancel_left q hb]
    push_cast
    ring
  · next h =>
    obtain ⟨hlow, hhigh⟩ := below_its_blocks hb h
    set blocks := (L + block_size - 1) / block_size
    have hlow' := Nat.mul_lt_mul_of_pos_left hlow hpos
    have hhigh' := Nat.mul_lt_mul_of_pos_left hhigh hpos
    rw [Nat.mul_sub] at hhigh'
    have e1 : u * model_config.get_dtype_size * (blocks * block_size) =
        blocks * (u * block_size * model_config.get_dtype_size) := by ring
    have e2 : u * model_config.get_dtype_size * L = u * L * model_config.get_dtype_size := by ring
    have e3 : u * model_config.get_dtype_size * block_size =
        u * block_size * model_config.get_dtype_size := by ring
    rw [e1, e2] at hlow' hhigh'
    rw [e3] at hhigh'
    constructor
    · exact_mod_cast hlow'
    · rw [sub_lt_iff_lt_add]
      have hsum : blocks * (u * block_size * model_config.get_dtype_size) <
          u * block_size * model_config.get_dtype_size +
            u * L * model_config.get_dtype_size := by omega
      exact_mod_cast hsum

/-- The cost model and the workers agree on every prompt length if and only if the `dtype_bytes`
of the configuration is the size of the model's dtype. When the cache takes no bytes at all,
both sizes are 0, which is less than a block for no length. -/
theorem the_sizes_agree_iff_the_dtypes_do
    (hrom : apply_model_config_to_rom model_config rom_config = .ok rom_config')
    (hkv : model_config.get_num_heads .default = .ok kv)
    (hpp : parallel_config.pipeline_parallel_size ∣ model_config.num_hidden_layers)
    (htp : parallel_config.tensor_parallel_size ∣ kv) (hb : 0 < block_size) :
    (∀ prompt_len, 0 < prompt_len →
      SizeAgrees model_config rom_config' parallel_config block_size prompt_len) ↔
    (¬model_config.NoCache kv ∧ rom_config.dtype_bytes = model_config.get_dtype_size) ∨
      (model_config.NoCache kv ∧ block_size = 1) := by
  obtain ⟨head_dim, hd, rfl⟩ := apply_model_config_to_rom_eq hkv hrom
  by_cases hu : model_config.token_bytes kv head_dim = 0
  · have hnone := (token_bytes_eq_zero hd).mp hu
    constructor
    · intro h
      refine Or.inr ⟨hnone, ?_⟩
      -- a single token does not fill a larger block
      by_contra hne
      have h1 := (sizeAgrees_iff hkv hd hpp htp Nat.one_pos).mp (h 1 Nat.one_pos)
      dsimp only at h1
      rw [if_neg (by rw [Nat.dvd_one]; exact hne), hu] at h1
      simp at h1
    · rintro (⟨h, -⟩ | ⟨-, rfl⟩)
      · exact absurd hnone h
      · intro L hL
        rw [sizeAgrees_iff hkv hd hpp htp hL]
        dsimp only
        rw [if_pos (one_dvd L), hu]
        simp
  · have hsome := fun h => hu ((token_bytes_eq_zero hd).mpr h)
    constructor
    · intro h
      refine Or.inl ⟨hsome, ?_⟩
      -- one full block decides
      have h1 := (sizeAgrees_iff hkv hd hpp htp hb).mp (h block_size hb)
      dsimp only at h1
      rw [if_pos dvd_rfl, Nat.div_self hb] at h1
      push_cast at h1
      rw [one_mul] at h1
      apply mul_left_cancel₀ _ h1
      apply mul_ne_zero <;> omega
    · rintro (⟨-, hdtype⟩ | ⟨h, -⟩)
      · intro L hL
        exact agrees_of_dtype hkv hd hpp htp hb hu hdtype hL
      · exact absurd h hsome

end

/-- Two layers with two heads of 64 numbers. -/
def twoHeads (dtype : ModelDtype) : CacheModelConfig where
  num_hidden_layers := 2
  dtype := dtype
  model_type := "llama"
  hidden_size := 128
  num_attention_heads := 2
  new_decoder_architecture := false
  multi_query := false
  n_head_kv := none
  num_key_value_heads := some 2

/-- The defaults of `ROMConfig`, whose dtype is fp16. -/
def fp16Config : ROMConfig := ⟨.rom, 10000, 32, 32, 128, 2, AList.singleton 64 (5 / 1000)⟩

/-- `fp16Config` for the model with two heads. -/
def twoHeadsConfig : ROMConfig :=
  { fp16Config with num_layers := 2, num_kv_heads := 2, head_dim := 64 }

/-- Four workers with one layer and one head each. -/
def fourWorkers : ParallelConfig := ⟨2, 2, Nat.two_pos, Nat.two_pos⟩

/-- A prompt of 40 tokens in fp16 takes three blocks of 16 tokens. -/
theorem forty_tokens_agree_in_fp16 :
    SizeAgrees (twoHeads .fp16) twoHeadsConfig fourWorkers 16 40 := by
  have hrom : apply_model_config_to_rom (twoHeads .fp16) fp16Config = .ok twoHeadsConfig := rfl
  have hkv : (twoHeads .fp16).get_num_heads .default = .ok 2 := rfl
  apply (the_sizes_agree_iff_the_dtypes_do hrom hkv (by decide) (by decide) (by decide)).mpr
  · exact .inl ⟨by unfold CacheModelConfig.NoCache; decide, rfl⟩
  · decide

/-- In fp32 the cost model counts half of the bytes. -/
theorem a_block_in_fp32_is_twice_as_large :
    apply_model_config_to_rom (twoHeads .fp32) fp16Config = .ok twoHeadsConfig ∧
      ¬SizeAgrees (twoHeads .fp32) twoHeadsConfig fourWorkers 16 16 := by
  refine ⟨rfl, ?_⟩
  rintro ⟨total, ht, h⟩
  cases ht
  revert h
  decide

end distserve
