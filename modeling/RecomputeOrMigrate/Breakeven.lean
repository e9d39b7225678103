-- The breakeven length of rom_decision.py. It is a key of the table, and the decisions are
-- about every length. A tie counts as breakeven, but is decided for the migration.
import Mathlib.Data.Int.LeastGreatest
import Mathlib.Order.Bounds.Basic
import RecomputeOrMigrate.RomCosts

open calls interpolation

namespace distserve

/-! ## The search over the keys -/

/-- `sys.maxsize`. -/
def sys_maxsize : Int := 9223372036854775807

/-- The loop of `breakeven_prompt_len`. -/
def breakeven_search (bandwidth_mbps : ℚ) (rom_config : ROMConfig) : List Int → Except PyError Int
  | [] => return sys_maxsize
  | k :: keys => do
    let (_, c_mig, c_recomp) ← make_decision k bandwidth_mbps rom_config
    if c_recomp ≤ c_mig then return k
    else breakeven_search bandwidth_mbps rom_config keys

def breakeven_prompt_len (bandwidth_mbps : ℚ) (rom_config : ROMConfig) : Except PyError Int :=
  breakeven_search bandwidth_mbps rom_config
    (rom_config.prefill_time_table.keys.insertionSort (· ≤ ·))

section

variable {bw : ℚ} {rom_config : ROMConfig} {k m p : Int}

/-- The recomputation of a prompt costs no more than its migration. -/
def NotDearer (bw : ℚ) (rom_config : ROMConfig) (k : Int) : Prop :=
  ∃ t : ℚ, compute_c_recomp k rom_config.prefill_time_table = .ok t ∧
    t ≤ migration_cost k bw rom_config

/-- The recomputation of a prompt costs less than its migration. -/
def Cheaper (bw : ℚ) (rom_config : ROMConfig) (k : Int) : Prop :=
  ∃ t : ℚ, compute_c_recomp k rom_config.prefill_time_table = .ok t ∧
    t < migration_cost k bw rom_config

/-- The keys at which the search stops. -/
def stops (bw : ℚ) (rom_config : ROMConfig) : Set Int :=
  {k | k ∈ rom_config.prefill_time_table.keys ∧ NotDearer bw rom_config k}

theorem Cheaper.notDearer (h : Cheaper bw rom_config k) : NotDearer bw rom_config k := by
  obtain ⟨t, ht, hlt⟩ := h
  exact ⟨t, ht, hlt.le⟩

theorem make_decision_costs (bw : ℚ) {t : ℚ}
    (ht : compute_c_recomp k rom_config.prefill_time_table = .ok t) :
    ∃ d, make_decision k bw rom_config = .ok (d, migration_cost k bw rom_config, t) := by
  unfold make_decision
  rw [ok_bind ht]
  exact ⟨_, rfl⟩

/-- The decision under the policy that compares the costs. -/
theorem rom_decision_eq (bw : ℚ) {t : ℚ}
    (ht : compute_c_recomp k rom_config.prefill_time_table = .ok t) :
    make_decision k bw { rom_config with policy := .rom } =
      .ok (if migration_cost k bw rom_config ≤ t then .migrate else .recompute,
        migration_cost k bw rom_config, t) :=
  make_decision_eq ht rfl

/-- The search stops at the first key where it can. -/
theorem breakeven_search_cases (bw : ℚ) (hne : rom_config.prefill_time_table.keys ≠ [])
    {keys : List Int} (hs : keys.Pairwise (· < ·)) :
    ∃ k, breakeven_search bw rom_config keys = .ok k ∧
      (IsLeast {k | k ∈ keys ∧ NotDearer bw rom_config k} k ∨
        (k = sys_maxsize ∧ ∀ j ∈ keys, ¬NotDearer bw rom_config j)) := by
  induction keys with
  | nil => exact ⟨sys_maxsize, rfl, .inr ⟨rfl, fun j hj => by cases hj⟩⟩
  | cons a rest ih =>
    obtain ⟨hfirst, hrest⟩ := List.pairwise_cons.mp hs
    obtain ⟨t, ht⟩ := c_recomp_ok hne a
    obtain ⟨d, hd⟩ := make_decision_costs bw ht
    unfold breakeven_search
    rw [ok_bind hd]
    by_cases hle : (t : WithTop ℚ) ≤ migration_cost a bw rom_config
    · refine ⟨a, if_pos hle, .inl ⟨⟨List.mem_cons_self, t, ht, hle⟩, ?_⟩⟩
      rintro j ⟨hj, -⟩
      rcases List.mem_cons.mp hj with rfl | hj
      · exact le_rfl
      · exact (hfirst j hj).le
    · have hnot : ¬NotDearer bw rom_config a := by
        rintro ⟨t', ht', h⟩
        rw [ht] at ht'
        cases ht'
        exact hle h
      obtain ⟨k, hk, hcases⟩ := ih hrest
      refine ⟨k, (if_neg hle).trans hk, ?_⟩
      rcases hcases with ⟨⟨hmem, hwin⟩, hleast⟩ | ⟨hmax, hnone⟩
      · refine .inl ⟨⟨List.mem_cons_of_mem a hmem, hwin⟩, ?_⟩
        rintro j ⟨hj, hj'⟩
        rcases List.mem_cons.mp hj with rfl | hj
        · exact absurd hj' hnot
        · exact hleast ⟨hj, hj'⟩
      · refine .inr ⟨hmax, ?_⟩
        intro j hj
        rcases List.mem_cons.mp hj with rfl | hj
        · exact hnot
        · exact hnone j hj

/-- The breakeven length is the least key at which the search stops, or `sys.maxsize`. -/
theorem breakeven_cases (bw : ℚ) (hne : rom_config.prefill_time_table.keys ≠ []) :
    ∃ k, breakeven_prompt_len bw rom_config = .ok k ∧
      (IsLeast (stops bw rom_config) k ∨
        (k = sys_maxsize ∧ ∀ j ∈ rom_config.prefill_time_table.keys,
          ¬NotDearer bw rom_config j)) := by
  obtain ⟨k, hk, hcases⟩ := breakeven_search_cases bw hne sorted_keys_pairwise
  refine ⟨k, hk, ?_⟩
  simp only [mem_sorted_keys] at hcases
  exact hcases

/-! ## Below the breakeven length -/

/-- The keys below the breakeven length `k`. They are all the keys when `k` is `sys.maxsize`
and no key. -/
def keys_below (rom_config : ROMConfig) (k : Int) : Set Int :=
  {j | j ∈ rom_config.prefill_time_table.keys ∧
    (j < k ∨ (k = sys_maxsize ∧ sys_maxsize ∉ rom_config.prefill_time_table.keys))}

theorem not_notDearer_below (hk : breakeven_prompt_len bw rom_config = .ok k) {j : Int}
    (hj : j ∈ keys_below rom_config k) : ¬NotDearer bw rom_config j := by
  obtain ⟨hmem, hbelow⟩ := hj
  obtain ⟨k', hk', hcases⟩ := breakeven_cases bw (List.ne_nil_of_mem hmem)
  rw [hk] at hk'
  cases hk'
  rcases hcases with ⟨⟨hkey, -⟩, hleast⟩ | ⟨-, hnone⟩
  · intro h
    rcases hbelow with hlt | ⟨rfl, hnot⟩
    · exact absurd (hleast ⟨hmem, h⟩) (not_le.mpr hlt)
    · exact hnot hkey
  · exact hnone j hmem

/-- Where the search goes on, the link is up, the key is positive and a migration costs less. -/
theorem migration_is_cheaper_at (ha : rom_config.HasArchitecture) {j : Int}
    (hj : j ∈ rom_config.prefill_time_table.keys) (h : ¬NotDearer bw rom_config j) :
    0 < bw ∧ 0 < j ∧
      seconds_per_token bw rom_config * j < time_at rom_config.prefill_time_table j := by
  have hbw : 0 < bw := by
    by_contra hdown
    obtain ⟨t, ht⟩ := c_recomp_ok (List.ne_nil_of_mem hj) j
    exact h ⟨t, ht, by rw [migration_cost_down (not_lt.mp hdown)]; exact le_top⟩
  have hpos : 0 < j := by
    by_contra hneg
    exact h ⟨0, c_recomp_nonpos (List.ne_nil_of_mem hj) (not_lt.mp hneg), by
      rw [migration_cost_nonpos hbw (not_lt.mp hneg), WithTop.coe_zero]⟩
  refine ⟨hbw, hpos, ?_⟩
  by_contra hle
  refine h ⟨_, c_recomp_key (mem_sorted_keys.mpr hj) hpos, ?_⟩
  rw [migration_cost_eq ha hbw hpos, WithTop.coe_le_coe]
  exact not_lt.mp hle

/-- If a migration costs less at each key up to the key `m`, then it costs less than what the
table predicts for any length up to `m`. -/
theorem below_prediction {keys : List Int} {time : Int → ℚ} {a t : ℚ} (ha : 0 ≤ a)
    (hs : keys.Pairwise (· < ·)) (hm : m ∈ keys) (hbelow : ∀ j ∈ keys, j ≤ m → a * j < time j)
    (hpm : p ≤ m) (ht : Predicts keys time p t) : a * p < t := by
  cases ht with
  | @first k hk hx =>
    have hpk : a * p ≤ a * k := mul_le_mul_of_nonneg_left (mod_cast hx) ha
    exact hpk.trans_lt (hbelow k (List.mem_of_mem_head? hk) (head_le hs hk hm))
  | @last k hk hx =>
    have hmk : m ≤ k := le_last hs hk hm
    obtain rfl : k = p := by omega
    exact hbelow k (List.mem_of_getLast? hk) hpm
  | @within lo hi hn hlo hhi =>
    rcases hn.le_or_le hs hm with hle | hle
    · -- the length is the key `m` itself
      obtain rfl : lo = p := by omega
      rw [line_left]
      exact hbelow lo hn.left_mem hpm
    · exact below_line (mod_cast hlo.trans_lt hhi) (hbelow lo hn.left_mem (hlo.trans hpm))
        (hbelow hi hn.right_mem hle) (mod_cast hlo) (mod_cast hhi.le)

theorem seconds_per_token_nonneg (ha : rom_config.HasArchitecture) (hbw : 0 < bw) :
    0 ≤ seconds_per_token bw rom_config := by
  obtain ⟨hl, hh, hd, hb⟩ := ha
  have hl : (0 : ℚ) < rom_config.num_layers := mod_cast hl
  have hh : (0 : ℚ) < rom_config.num_kv_heads := mod_cast hh
  have hd : (0 : ℚ) < rom_config.head_dim := mod_cast hd
  have hb : (0 : ℚ) < rom_config.dtype_bytes := mod_cast hb
  unfold seconds_per_token
  positivity

/-- Up to the last key before the breakeven length, on a key or between two keys, the decision
is to migrate, and a migration costs less. -/
theorem below_breakeven_migration_is_cheaper (ha : rom_config.HasArchitecture)
    (hk : breakeven_prompt_len bw rom_config = .ok k)
    (hm : IsGreatest (keys_below rom_config k) m) (hp : 0 < p) (hpm : p ≤ m) :
    ∃ c_mig c_recomp, make_decision p bw { rom_config with policy := .rom } =
      .ok (.migrate, c_mig, c_recomp) ∧ c_mig < c_recomp := by
  have hkey : m ∈ rom_config.prefill_time_table.keys := hm.1.1
  have hne := List.ne_nil_of_mem hkey
  obtain ⟨hbw, -, -⟩ := migration_is_cheaper_at ha hkey (not_notDearer_below hk hm.1)
  obtain ⟨t, ht, hpred⟩ := c_recomp_predicts hne hp
  have hlt : seconds_per_token bw rom_config * p < t := by
    apply below_prediction (seconds_per_token_nonneg ha hbw) sorted_keys_pairwise
      (mem_sorted_keys.mpr hkey) _ hpm hpred
    intro j hj hjm
    have hjkey := mem_sorted_keys.mp hj
    apply (migration_is_cheaper_at ha hjkey (not_notDearer_below hk ⟨hjkey, _⟩)).2.2
    exact hm.1.2.imp_left hjm.trans_lt
  have hcost : migration_cost p bw rom_config < t := by
    rw [migration_cost_eq ha hbw hp, WithTop.coe_lt_coe]
    exact hlt
  have hdec := rom_decision_eq bw ht
  refine ⟨migration_cost p bw rom_config, t, hdec.trans ?_, hcost⟩
  exact congrArg Except.ok (congrArg (·, _) (if_pos hcost.le))

end

/-- A table with three keys. -/
def threeTimes : ROMConfig :=
  { twoLayers with
    prefill_time_table := AList.insert 256 0 (AList.insert 128 (6 / 1000)
      (AList.singleton 64 (5 / 1000))) }

theorem threeTimes_breakeven : breakeven_prompt_len 100 threeTimes = .ok 256 := by decide +kernel

/-- A hundred tokens lie between the first two keys, below the breakeven length 256. -/
theorem a_hundred_tokens_migrate :
    ∃ c_mig c_recomp, make_decision 100 100 { threeTimes with policy := .rom } =
      .ok (.migrate, c_mig, c_recomp) ∧ c_mig < c_recomp :=
  below_breakeven_migration_is_cheaper (m := 128) ⟨by decide, by decide, by decide, by decide⟩
    threeTimes_breakeven
    ⟨⟨by decide, .inl (by decide)⟩, by
      rintro j ⟨hj, hlt | ⟨h, -⟩⟩
      · have hcases : j = 256 ∨ j = 128 ∨ j = 64 := by simpa [threeTimes] using hj
        omega
      · exact absurd h (by decide)⟩
    (by decide) (by decide)

/-- A table whose only key is `sys.maxsize`. -/
def maxsizeTable : ROMConfig :=
  { twoLayers with prefill_time_table := AList.singleton sys_maxsize 0 }

/-- The search returns the key `sys.maxsize`, where the recomputation is cheaper. -/
theorem the_sentinel_may_be_a_key :
    breakeven_prompt_len 1 maxsizeTable = .ok sys_maxsize ∧
      IsGreatest {j | j ∈ maxsizeTable.prefill_time_table.keys} sys_maxsize ∧
      ¬∃ c_mig c_recomp, make_decision sys_maxsize 1 { maxsizeTable with policy := .rom } =
        .ok (.migrate, c_mig, c_recomp) ∧ c_mig < c_recomp := by
  refine ⟨by decide +kernel, ⟨by decide, fun j hj => ?_⟩, ?_⟩
  · have hj : j = sys_maxsize := by simpa [maxsizeTable] using hj
    exact hj.le
  · rintro ⟨c_mig, c_recomp, h, -⟩
    have hdec : (make_decision sys_maxsize 1 { maxsizeTable with policy := .rom }).map Prod.fst =
        .ok .recompute := by decide +kernel
    rw [h] at hdec
    cases hdec

/-! ## The breakeven length and the decisions -/

section

variable {bw : ℚ} {rom_config : ROMConfig} {k : Int}

/-- The policy `rom` decides `d` for a prompt. -/
def Chooses (bw : ℚ) (rom_config : ROMConfig) (d : RomDecision) (k : Int) : Prop :=
  ∃ c_mig c_recomp,
    make_decision k bw { rom_config with policy := .rom } = .ok (d, c_mig, c_recomp)

/-- The breakeven length is the least key at which the decision is to recompute, and
`sys.maxsize` exactly when the decision is to migrate at each key. -/
def AgreesWithDecisions (bw : ℚ) (rom_config : ROMConfig) : Prop :=
  ∃ k, breakeven_prompt_len bw rom_config = .ok k ∧
    (∀ m, IsLeast {j | j ∈ rom_config.prefill_time_table.keys ∧
      Chooses bw rom_config .recompute j} m → k = m) ∧
    (k = sys_maxsize ↔
      ∀ j ∈ rom_config.prefill_time_table.keys, Chooses bw rom_config .migrate j)

/-- The least key at which the search can stop is no tie. When this key is `sys.maxsize`
itself, the recomputation is cheaper at no key. -/
def StopsWithoutTie (bw : ℚ) (rom_config : ROMConfig) : Prop :=
  ∀ k, IsLeast (stops bw rom_config) k →
    if k = sys_maxsize then
      ∀ j ∈ rom_config.prefill_time_table.keys, ¬Cheaper bw rom_config j
    else Cheaper bw rom_config k

theorem chooses_recompute_iff (hne : rom_config.prefill_time_table.keys ≠ []) :
    Chooses bw rom_config .recompute k ↔ Cheaper bw rom_config k := by
  obtain ⟨t, ht⟩ := c_recomp_ok hne k
  unfold Chooses Cheaper
  rw [rom_decision_eq bw ht]
  constructor
  · rintro ⟨c_mig, c_recomp, h⟩
    split at h
    · cases h
    · next hlt => exact ⟨t, ht, not_le.mp hlt⟩
  · rintro ⟨t', ht', hlt⟩
    rw [ht] at ht'
    cases ht'
    exact ⟨_, _, congrArg Except.ok (congrArg (·, _) (if_neg (not_le.mpr hlt)))⟩

theorem chooses_migrate_iff (hne : rom_config.prefill_time_table.keys ≠ []) :
    Chooses bw rom_config .migrate k ↔ ¬Cheaper bw rom_config k := by
  obtain ⟨t, ht⟩ := c_recomp_ok hne k
  unfold Chooses Cheaper
  rw [rom_decision_eq bw ht]
  constructor
  · rintro ⟨c_mig, c_recomp, h⟩ ⟨t', ht', hlt⟩
    rw [ht] at ht'
    cases ht'
    split at h
    · next hle => exact absurd hlt (not_lt.mpr hle)
    · cases h
  · intro h
    have hle : ¬(t : WithTop ℚ) < migration_cost k bw rom_config := fun hlt => h ⟨t, ht, hlt⟩
    exact ⟨_, _, congrArg Except.ok (congrArg (·, _) (if_pos (not_lt.mp hle)))⟩

/-- When the search stops at `k`, it agrees with the decisions if and only if `k` is no tie. -/
theorem agrees_where_it_stops (hk : breakeven_prompt_len bw rom_config = .ok k)
    (hleast : IsLeast (stops bw rom_config) k) :
    AgreesWithDecisions bw rom_config ↔
      if k = sys_maxsize then
        ∀ j ∈ rom_config.prefill_time_table.keys, ¬Cheaper bw rom_config j
      else Cheaper bw rom_config k := by
  have hkey := hleast.1.1
  have hne := List.ne_nil_of_mem hkey
  have hmigrate : (∀ j ∈ rom_config.prefill_time_table.keys, Chooses bw rom_config .migrate j) ↔
      ∀ j ∈ rom_config.prefill_time_table.keys, ¬Cheaper bw rom_config j :=
    forall₂_congr fun _ _ => chooses_migrate_iff hne
  unfold AgreesWithDecisions
  rw [hk, hmigrate]
  simp only [chooses_recompute_iff hne, Except.ok.injEq, exists_eq_left']
  split
  · next hmax =>
    constructor
    · rintro ⟨-, h⟩
      exact h.mp hmax
    · intro h
      exact ⟨fun m hm => absurd hm.1.2 (h m hm.1.1), fun _ => h, fun _ => hmax⟩
  · next hmax =>
    constructor
    · rintro ⟨hrec, hall⟩
      -- some key recomputes, and the least of them is `k`
      by_contra hno
      have hnone : ∀ j ∈ rom_config.prefill_time_table.keys, ¬Cheaper bw rom_config j := by
        intro j hj hcheap
        obtain ⟨m, hm, hleast'⟩ := Int.exists_least_of_bdd
          (P := fun j => j ∈ rom_config.prefill_time_table.keys ∧ Cheaper bw rom_config j)
          ⟨k, fun j hj => hleast.2 ⟨hj.1, hj.2.notDearer⟩⟩ ⟨j, hj, hcheap⟩
        exact hno (hrec m ⟨hm, hleast'⟩ ▸ hm.2)
      exact hmax (hall.mpr hnone)
    · intro hcheap
      refine ⟨fun m hm => ?_, fun h => absurd h hmax, fun h => absurd hcheap (h k hkey)⟩
      exact le_antisymm (hleast.2 ⟨hm.1.1, hm.1.2.notDearer⟩) (hm.2 ⟨hkey, hcheap⟩)

/-- The breakeven length agrees with the decisions if and only if the search does not stop at
a tie. -/
theorem breakeven_agrees_iff_it_stops_without_tie (bw : ℚ) (rom_config : ROMConfig) :
    AgreesWithDecisions bw rom_config ↔ StopsWithoutTie bw rom_config := by
  by_cases hne : rom_config.prefill_time_table.keys = []
  · have hnokey : ∀ j, j ∉ rom_config.prefill_time_table.keys := by
      intro j
      rw [hne]
      exact List.not_mem_nil
    constructor
    · intro _ k hk
      exact absurd hk.1.1 (hnokey k)
    · intro _
      refine ⟨sys_maxsize, ?_, fun m hm => absurd hm.1.1 (hnokey m),
        fun _ j hj => absurd hj (hnokey j), fun _ => rfl⟩
      unfold breakeven_prompt_len
      rw [hne]
      rfl
  · obtain ⟨k, hk, hleast | ⟨hmax, hnone⟩⟩ := breakeven_cases bw hne
    · rw [agrees_where_it_stops hk hleast]
      constructor
      · intro h k' hk'
        rw [hk'.unique hleast]
        exact h
      · intro h
        exact h k hleast
    · have hno : ∀ j ∈ rom_config.prefill_time_table.keys, ¬Cheaper bw rom_config j :=
        fun j hj h => hnone j hj h.notDearer
      constructor
      · intro _ k' hk'
        exact absurd hk'.1.2 (hnone k' hk'.1.1)
      · intro _
        refine ⟨k, hk, fun m hm => ?_, fun _ j hj => ?_, fun _ => hmax⟩
        · exact absurd ((chooses_recompute_iff hne).mp hm.1.2) (hno m hm.1.1)
        · exact (chooses_migrate_iff hne).mpr (hno j hj)

end

/-- Two layers over a link of 1 MB/s, where both costs are equal at the only key. -/
def tieTable : ROMConfig :=
  { twoLayers with prefill_time_table := AList.singleton 64 (65536 / 1000000) }

/-- The breakeven length is the key 64, at which the decision is to migrate. -/
theorem a_tie_is_breakeven_but_migrates : ¬AgreesWithDecisions 1 tieTable := by
  rintro ⟨k, hk, -, hmax⟩
  have hbreakeven : breakeven_prompt_len 1 tieTable = .ok 64 := by decide +kernel
  have hmigrate : make_decision 64 1 { tieTable with policy := .rom } =
      .ok (.migrate, ((65536 / 1000000 : ℚ) : WithTop ℚ), 65536 / 1000000) := by decide +kernel
  rw [hbreakeven] at hk
  cases hk
  have hall : ∀ j ∈ tieTable.prefill_time_table.keys, Chooses 1 tieTable .migrate j := by
    intro j hj
    obtain rfl : j = 64 := by simpa [tieTable] using hj
    exact ⟨_, _, hmigrate⟩
  exact absurd (hmax.mpr hall) (by decide)

end distserve
