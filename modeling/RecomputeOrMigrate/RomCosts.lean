-- The two costs that the rom decision compares, and how it answers to a faster link or a
-- smaller model.
import Mathlib.Tactic.GCongr
import Mathlib.Tactic.Positivity
import RecomputeOrMigrate.General.Calls
import RecomputeOrMigrate.General.Interpolation
import RecomputeOrMigrate.RomDecision

open calls interpolation

namespace distserve

/-! ## The table -/

section table

variable {table : AList fun _ : Int => ℚ} {k : Int}

/-- The keys of the table in the order in which `compute_c_recomp` sorts them. -/
def sorted_keys (table : AList fun _ : Int => ℚ) : List Int := table.keys.insertionSort (· ≤ ·)

/-- The time at a key. -/
def time_at (table : AList fun _ : Int => ℚ) (k : Int) : ℚ := (table.lookup k).getD 0

theorem mem_sorted_keys : k ∈ sorted_keys table ↔ k ∈ table.keys := List.mem_insertionSort _

theorem sorted_keys_pairwise : (sorted_keys table).Pairwise (· < ·) := by
  have hle : (sorted_keys table).Pairwise (· ≤ ·) := List.pairwise_insertionSort _ _
  have hne : (sorted_keys table).Nodup :=
    (List.perm_insertionSort _ _).nodup_iff.mpr table.nodupKeys
  exact (hle.and hne).imp fun h => lt_of_le_of_ne h.1 h.2

theorem sorted_keys_ne_nil (h : table.keys ≠ []) : sorted_keys table ≠ [] := by
  obtain ⟨k, hk⟩ := List.exists_mem_of_ne_nil _ h
  exact List.ne_nil_of_mem (mem_sorted_keys.mpr hk)

theorem values_eq : (sorted_keys table).filterMap table.lookup =
    (sorted_keys table).map (time_at table) := by
  rw [← List.filterMap_eq_map]
  apply List.filterMap_congr
  intro k hk
  have hin : k ∈ table := mem_sorted_keys.mp hk
  obtain ⟨t, ht⟩ := Option.isSome_iff_exists.mp (AList.lookup_isSome.mpr hin)
  unfold time_at
  simp only [ht, Function.comp, Option.getD_some]

end table

/-! ## Interpolation -/

section interpolate

theorem item_nat {α : Type} {xs : List α} {i : Nat} {x : α} (h : xs[i]? = some x) :
    item xs (i : Int) = .ok x := by
  unfold item
  rw [if_pos (Int.natCast_nonneg i), Int.toNat_natCast, h]

theorem item_first {α : Type} (x : α) (xs : List α) : item (x :: xs) 0 = .ok x := rfl

theorem item_last {α : Type} {xs : List α} {x : α} (h : xs.getLast? = some x) :
    item xs (-1) = .ok x := by
  obtain ⟨before, rfl⟩ := List.getLast?_eq_some_iff.mp h
  have hlen : (before ++ [x]).length = before.length + 1 := by simp
  unfold item
  rw [if_neg (by decide), if_pos (by omega), hlen]
  have hidx : ((before.length + 1 : Nat) + (-1) : Int).toNat = before.length := by omega
  rw [hidx, List.getElem?_append_right (Nat.le_refl _), Nat.sub_self]
  rfl

/-- What `_interpolate` predicts for `x`: the time of an end of the table, or the line between
the neighbours of `x`. -/
inductive Predicts (keys : List Int) (time : Int → ℚ) (x : Int) : ℚ → Prop
  | first {k : Int} (hk : keys.head? = some k) (hx : x ≤ k) : Predicts keys time x (time k)
  | last {k : Int} (hk : keys.getLast? = some k) (hx : k ≤ x) : Predicts keys time x (time k)
  | within {lo hi : Int} (h : Neighbours keys lo hi) (hlo : lo ≤ x) (hhi : x < hi) :
    Predicts keys time x (line lo hi (time lo) (time hi) x)

/-- It finds a prediction without an index out of range or a division by zero. -/
theorem interpolate_predicts {keys : List Int} (hne : keys ≠ []) (time : Int → ℚ) (x : Int) :
    ∃ t, interpolate keys (keys.map time) x = .ok t ∧ Predicts keys time x t := by
  obtain ⟨first, rest, rfl⟩ := List.exists_cons_of_ne_nil hne
  obtain ⟨last, hlast⟩ : ∃ last, (first :: rest).getLast? = some last :=
    ⟨_, List.getLast?_eq_some_getLast hne⟩
  have hvalue : ((first :: rest).map time).getLast? = some (time last) := by
    rw [List.getLast?_map, hlast]
    rfl
  unfold interpolate
  rw [ok_bind (item_first first rest)]
  by_cases hfirst : x ≤ first
  · rw [if_pos hfirst]
    exact ⟨_, item_first _ _, .first rfl hfirst⟩
  rw [if_neg hfirst, ok_bind (item_last hlast)]
  by_cases hx : last ≤ x
  · rw [if_pos hx]
    exact ⟨_, item_last hvalue, .last hlast hx⟩
  rw [if_neg hx]
  obtain ⟨i, lo, hi, hlen, hlo, hhi, hle, hlt⟩ := takeWhile_neighbours rfl (not_le.mp hfirst).le
    (List.mem_of_getLast? hlast) (not_le.mp hx)
  have hidx : bisect_right (first :: rest) x = ((i + 1 : Nat) : Int) := by
    unfold bisect_right
    rw [hlen]
  have hbefore : ((i + 1 : Nat) : Int) - 1 = (i : Nat) := by omega
  have htime : ∀ {j : Nat} {k : Int}, (first :: rest)[j]? = some k →
      ((first :: rest).map time)[j]? = some (time k) := by
    intro j k h
    rw [List.getElem?_map, h]
    rfl
  dsimp only
  rw [hidx, hbefore, ok_bind (item_nat hlo), ok_bind (item_nat hhi),
    ok_bind (item_nat (htime hlo)), ok_bind (item_nat (htime hhi)), if_neg (by omega)]
  exact ⟨_, rfl, .within ⟨i, hlo, hhi⟩ hle hlt⟩

end interpolate

/-! ## The cost of a recomputation -/

section recomputation

variable {table : AList fun _ : Int => ℚ} {p : Int}

theorem c_recomp_nonpos (hne : table.keys ≠ []) (hp : p ≤ 0) :
    compute_c_recomp p table = .ok 0 := by
  unfold compute_c_recomp
  rw [if_neg hne, if_pos hp]
  rfl

theorem c_recomp_predicts (hne : table.keys ≠ []) (hp : 0 < p) :
    ∃ t, compute_c_recomp p table = .ok t ∧ Predicts (sorted_keys table) (time_at table) p t := by
  have h := interpolate_predicts (sorted_keys_ne_nil hne) (time_at table) p
  rw [← values_eq] at h
  unfold compute_c_recomp
  rw [if_neg hne, if_neg (not_le.mpr hp)]
  exact h

/-- A table with a key has a time for every length. -/
theorem c_recomp_ok (hne : table.keys ≠ []) (p : Int) : ∃ t, compute_c_recomp p table = .ok t := by
  rcases le_or_gt p 0 with hp | hp
  · exact ⟨0, c_recomp_nonpos hne hp⟩
  · obtain ⟨t, ht, -⟩ := c_recomp_predicts hne hp
    exact ⟨t, ht⟩

/-- At a key it is the time of the table. -/
theorem c_recomp_key {k : Int} (hk : k ∈ sorted_keys table) (hpos : 0 < k) :
    compute_c_recomp k table = .ok (time_at table k) := by
  have hne : table.keys ≠ [] := List.ne_nil_of_mem (mem_sorted_keys.mp hk)
  obtain ⟨t, ht, hpred⟩ := c_recomp_predicts hne hpos
  rw [ht]
  cases hpred with
  | first hfirst hx => rw [le_antisymm hx (head_le sorted_keys_pairwise hfirst hk)]
  | last hlast hx => rw [le_antisymm hx (le_last sorted_keys_pairwise hlast hk)]
  | within h hlo hhi =>
    rcases h.le_or_le sorted_keys_pairwise hk with hle | hle
    · rw [le_antisymm hlo hle, line_left]
    · omega

end recomputation

/-! ## The cost of a migration -/

/-- Each parameter of the architecture is positive. -/
structure ROMConfig.HasArchitecture (rom_config : ROMConfig) : Prop where
  num_layers : 0 < rom_config.num_layers
  num_kv_heads : 0 < rom_config.num_kv_heads
  head_dim : 0 < rom_config.head_dim
  dtype_bytes : 0 < rom_config.dtype_bytes

/-- The migration cost of a prompt. -/
def migration_cost (p : Int) (bandwidth_mbps : ℚ) (rom_config : ROMConfig) : WithTop ℚ :=
  compute_c_mig (compute_kv_size_bytes_from_config p rom_config) bandwidth_mbps

section migration

variable {rom_config rom_config' : ROMConfig} {bw bw' : ℚ} {p : Int}

/-- The seconds for one token. -/
def seconds_per_token (bandwidth_mbps : ℚ) (rom_config : ROMConfig) : ℚ :=
  2 * rom_config.num_layers * rom_config.num_kv_heads * rom_config.head_dim *
    rom_config.dtype_bytes / (bandwidth_mbps * 1000000)

theorem migration_cost_down (h : bw ≤ 0) : migration_cost p bw rom_config = ⊤ := by
  unfold migration_cost compute_c_mig
  rw [if_pos (.inl h)]

theorem migration_cost_nonpos (h : 0 < bw) (hp : p ≤ 0) : migration_cost p bw rom_config = 0 := by
  unfold migration_cost compute_c_mig compute_kv_size_bytes_from_config compute_kv_size_bytes
  rw [if_pos hp, if_neg (by simpa using h), if_pos rfl]

/-- Over a link that is up the cost grows with each token. -/
theorem migration_cost_eq (ha : rom_config.HasArchitecture) (h : 0 < bw) (hp : 0 < p) :
    migration_cost p bw rom_config = (seconds_per_token bw rom_config * p : ℚ) := by
  obtain ⟨hl, hh, hd, hb⟩ := ha
  have hpos : 0 < 2 * rom_config.num_layers * rom_config.num_kv_heads * rom_config.head_dim * p *
      rom_config.dtype_bytes := by positivity
  unfold migration_cost compute_c_mig compute_kv_size_bytes_from_config compute_kv_size_bytes
    seconds_per_token
  rw [if_neg (not_le.mpr hp), if_neg, if_neg hpos.ne']
  · congr 1
    push_cast
    ring
  · rintro (hdown | hneg)
    · exact absurd h (not_lt.mpr hdown)
    · omega

theorem seconds_per_token_mono (ha' : rom_config'.HasArchitecture)
    (hl : rom_config'.num_layers ≤ rom_config.num_layers)
    (hh : rom_config'.num_kv_heads ≤ rom_config.num_kv_heads)
    (hd : rom_config'.head_dim ≤ rom_config.head_dim)
    (hb : rom_config'.dtype_bytes ≤ rom_config.dtype_bytes) (h : 0 < bw) (hbw : bw ≤ bw') :
    seconds_per_token bw' rom_config' ≤ seconds_per_token bw rom_config := by
  obtain ⟨hl', hh', hd', hb'⟩ := ha'
  have hl₀ : (0 : ℚ) < rom_config'.num_layers := mod_cast hl'
  have hh₀ : (0 : ℚ) < rom_config'.num_kv_heads := mod_cast hh'
  have hd₀ : (0 : ℚ) < rom_config'.head_dim := mod_cast hd'
  have hb₀ : (0 : ℚ) < rom_config'.dtype_bytes := mod_cast hb'
  have hl₁ : (0 : ℚ) < rom_config.num_layers := mod_cast hl'.trans_le hl
  have hh₁ : (0 : ℚ) < rom_config.num_kv_heads := mod_cast hh'.trans_le hh
  have hd₁ : (0 : ℚ) < rom_config.head_dim := mod_cast hd'.trans_le hd
  have hb₁ : (0 : ℚ) < rom_config.dtype_bytes := mod_cast hb'.trans_le hb
  unfold seconds_per_token
  gcongr

/-- A faster link and a smaller model do not make a migration dearer. -/
theorem migration_cost_mono (ha : rom_config.HasArchitecture) (ha' : rom_config'.HasArchitecture)
    (hl : rom_config'.num_layers ≤ rom_config.num_layers)
    (hh : rom_config'.num_kv_heads ≤ rom_config.num_kv_heads)
    (hd : rom_config'.head_dim ≤ rom_config.head_dim)
    (hb : rom_config'.dtype_bytes ≤ rom_config.dtype_bytes) (hbw : bw ≤ bw') :
    migration_cost p bw' rom_config' ≤ migration_cost p bw rom_config := by
  rcases le_or_gt bw 0 with h | h
  · rw [migration_cost_down h]
    exact le_top
  · have h' : 0 < bw' := h.trans_le hbw
    rcases le_or_gt p 0 with hp | hp
    · rw [migration_cost_nonpos h hp, migration_cost_nonpos h' hp]
    · rw [migration_cost_eq ha h hp, migration_cost_eq ha' h' hp, WithTop.coe_le_coe]
      have hp₀ : (0 : ℚ) ≤ p := mod_cast hp.le
      exact mul_le_mul_of_nonneg_right (seconds_per_token_mono ha' hl hh hd hb h hbw) hp₀

end migration

/-! ## The decision -/

section decision

variable {rom_config rom_config' : ROMConfig} {bw bw' : ℚ} {p : Int}

/-- `make_decision` compares the two costs. -/
theorem make_decision_eq {t : ℚ} (ht : compute_c_recomp p rom_config.prefill_time_table = .ok t)
    (hpol : rom_config.policy = .rom) :
    make_decision p bw rom_config =
      .ok (if migration_cost p bw rom_config ≤ t then .migrate else .recompute,
        migration_cost p bw rom_config, t) := by
  unfold make_decision
  rw [ok_bind ht, hpol]
  rfl

/-- The returned cost of a path. -/
def cost_of (d : RomDecision) (c_mig : WithTop ℚ) (c_recomp : ℚ) : WithTop ℚ :=
  match d with
  | .migrate => c_mig
  | .recompute => c_recomp

/-- The decision takes the cheaper path. A migration stays one over a faster link and for a
smaller model, with the same recomputation cost and no larger migration cost. -/
theorem the_decision_is_monotone (hne : rom_config.prefill_time_table.keys ≠ [])
    (htable : rom_config'.prefill_time_table = rom_config.prefill_time_table)
    (hpol : rom_config.policy = .rom) (hpol' : rom_config'.policy = .rom)
    (ha : rom_config.HasArchitecture) (ha' : rom_config'.HasArchitecture) (hbw : bw ≤ bw')
    (hl : rom_config'.num_layers ≤ rom_config.num_layers)
    (hh : rom_config'.num_kv_heads ≤ rom_config.num_kv_heads)
    (hd : rom_config'.head_dim ≤ rom_config.head_dim)
    (hb : rom_config'.dtype_bytes ≤ rom_config.dtype_bytes) (p : Int) :
    (∀ c_mig c_recomp, make_decision p bw rom_config = .ok (.migrate, c_mig, c_recomp) →
      ∃ c_mig', make_decision p bw' rom_config' = .ok (.migrate, c_mig', c_recomp) ∧
        c_mig' ≤ c_mig) ∧
    ∃ d c_mig c_recomp, make_decision p bw rom_config = .ok (d, c_mig, c_recomp) ∧
      cost_of d c_mig c_recomp = min c_mig c_recomp := by
  obtain ⟨t, ht⟩ := c_recomp_ok hne p
  have ht' : compute_c_recomp p rom_config'.prefill_time_table = .ok t := by rw [htable, ht]
  rw [make_decision_eq ht hpol, make_decision_eq ht' hpol']
  constructor
  · intro c_mig c_recomp h
    have hle := migration_cost_mono (p := p) ha ha' hl hh hd hb hbw
    by_cases hmig : migration_cost p bw rom_config ≤ t
    · rw [if_pos hmig] at h
      cases h
      rw [if_pos (hle.trans hmig)]
      exact ⟨_, rfl, hle⟩
    · rw [if_neg hmig] at h
      cases h
  · refine ⟨_, _, _, rfl, ?_⟩
    split
    · next h => exact (min_eq_left h).symm
    · next h => exact (min_eq_right (not_le.mp h).le).symm

end decision

/-- Two layers of one head, with one measured time. -/
def twoLayers : ROMConfig := ⟨.rom, 10000, 2, 1, 128, 2, AList.singleton 64 (5 / 1000)⟩

def oneLayer : ROMConfig := { twoLayers with num_layers := 1 }

theorem twoLayers_hasArchitecture : twoLayers.HasArchitecture :=
  ⟨by decide, by decide, by decide, by decide⟩

theorem oneLayer_hasArchitecture : oneLayer.HasArchitecture :=
  ⟨by decide, by decide, by decide, by decide⟩

/-- From two layers over a link of 100 MB/s to one layer over a link of 200 MB/s. -/
theorem one_layer_migrates_when_two_do :
    (∀ c_mig c_recomp, make_decision 40 100 twoLayers = .ok (.migrate, c_mig, c_recomp) →
      ∃ c_mig', make_decision 40 200 oneLayer = .ok (.migrate, c_mig', c_recomp) ∧
        c_mig' ≤ c_mig) ∧
    ∃ d c_mig c_recomp, make_decision 40 100 twoLayers = .ok (d, c_mig, c_recomp) ∧
      cost_of d c_mig c_recomp = min c_mig c_recomp :=
  the_decision_is_monotone (by decide)
    (show oneLayer.prefill_time_table = twoLayers.prefill_time_table from rfl) rfl rfl
    twoLayers_hasArchitecture oneLayer_hasArchitecture (show (100 : ℚ) ≤ 200 by norm_num)
    (by decide) (by decide) (by decide) (by decide) 40

end distserve
