-- The time of a recomputation as a function of the prompt length: it goes through the
-- points of the table, stays between neighbours and grows with the table.
import RecomputeOrMigrate.RomCosts

open interpolation

namespace distserve

variable {keys : List Int} {time : Int → ℚ} {p q k : Int} {t u : ℚ}

/-! ## Between the neighbours -/

/-- The time `t` fits the points of the table: beyond an end it is the value of that end, and
else it lies between the values of the two keys around `p`. At a key both are that key. -/
structure Fits (table : AList fun _ : Int => ℚ) (p : Int) (t : ℚ) : Prop where
  below : ∀ k v, table.lookup k = some v → (∀ k' ∈ table.keys, k ≤ k') → p ≤ k → t = v
  above : ∀ k v, table.lookup k = some v → (∀ k' ∈ table.keys, k' ≤ k) → k ≤ p → t = v
  between : ∀ lo hi v w, table.lookup lo = some v → table.lookup hi = some w → lo ≤ p → p ≤ hi →
    (∀ k ∈ table.keys, k ≤ lo ∨ hi ≤ k) → min v w ≤ t ∧ t ≤ max v w

theorem time_at_eq {table : AList fun _ : Int => ℚ} {v : ℚ} (h : table.lookup k = some v) :
    time_at table k = v := by
  unfold time_at
  rw [h, Option.getD_some]

theorem mem_of_lookup {table : AList fun _ : Int => ℚ} {v : ℚ} (h : table.lookup k = some v) :
    k ∈ sorted_keys table := by
  rw [mem_sorted_keys, ← AList.mem_keys, ← AList.lookup_isSome, h]
  rfl

theorem Predicts.below (hs : keys.Pairwise (· < ·)) (h : Predicts keys time p t) (hk : k ∈ keys)
    (hleast : ∀ k' ∈ keys, k ≤ k') (hp : p ≤ k) : t = time k := by
  cases h with
  | first hfirst hx =>
    rw [le_antisymm (head_le hs hfirst hk) (hleast _ (List.mem_of_head? hfirst))]
  | last hlast hx =>
    rw [le_antisymm (hx.trans hp) (hleast _ (List.mem_of_getLast? hlast))]
  | within hn hlo hhi =>
    obtain rfl := le_antisymm (hlo.trans hp) (hleast _ hn.left_mem)
    rw [le_antisymm hp hlo, line_left]

theorem Predicts.above (hs : keys.Pairwise (· < ·)) (h : Predicts keys time p t) (hk : k ∈ keys)
    (hlargest : ∀ k' ∈ keys, k' ≤ k) (hp : k ≤ p) : t = time k := by
  cases h with
  | first hfirst hx =>
    rw [le_antisymm (hlargest _ (List.mem_of_head? hfirst)) (hp.trans hx)]
  | last hlast hx =>
    rw [le_antisymm (hlargest _ (List.mem_of_getLast? hlast)) (le_last hs hlast hk)]
  | within hn hlo hhi => exact absurd (hhi.trans_le (hlargest _ hn.right_mem)) hp.not_gt

theorem Predicts.between {lo hi : Int} (hs : keys.Pairwise (· < ·)) (h : Predicts keys time p t)
    (hlo : lo ∈ keys) (hhi : hi ∈ keys) (hlp : lo ≤ p) (hph : p ≤ hi)
    (hnone : ∀ k ∈ keys, k ≤ lo ∨ hi ≤ k) :
    min (time lo) (time hi) ≤ t ∧ t ≤ max (time lo) (time hi) := by
  cases h with
  | first hfirst hx =>
    rw [le_antisymm (head_le hs hfirst hlo) (hlp.trans hx)]
    exact ⟨min_le_left _ _, le_max_left _ _⟩
  | last hlast hx =>
    rw [le_antisymm (hx.trans hph) (le_last hs hlast hhi)]
    exact ⟨min_le_right _ _, le_max_right _ _⟩
  | @within a b hn hap hpb =>
    have hb : hi ≤ b := (hnone b hn.right_mem).resolve_left fun hle =>
      (hpb.trans_le hle).not_ge hlp
    rcases hn.le_or_le hs hhi with hle | hle
    · -- the right key is `p` itself
      obtain rfl := le_antisymm hap (hph.trans hle)
      rw [line_left, le_antisymm hle hph]
      exact ⟨min_le_right _ _, le_max_right _ _⟩
    · obtain rfl := le_antisymm hb hle
      rcases hnone a hn.left_mem with hal | hal
      · have hla : lo ≤ a := (hn.le_or_le hs hlo).resolve_right fun hge =>
          (hpb.trans_le hge).not_ge hlp
        obtain rfl := le_antisymm hal hla
        exact line_between (mod_cast hap.trans_lt hpb) (mod_cast hap) (mod_cast hpb.le)
      · exact absurd (hap.trans_lt hpb) hal.not_gt

theorem Predicts.fits {table : AList fun _ : Int => ℚ}
    (h : Predicts (sorted_keys table) (time_at table) p t) : Fits table p t where
  below k v hv hleast hp := by
    rw [← time_at_eq hv]
    exact h.below sorted_keys_pairwise (mem_of_lookup hv)
      (fun k' hk' => hleast k' (mem_sorted_keys.mp hk')) hp
  above k v hv hlargest hp := by
    rw [← time_at_eq hv]
    exact h.above sorted_keys_pairwise (mem_of_lookup hv)
      (fun k' hk' => hlargest k' (mem_sorted_keys.mp hk')) hp
  between lo hi v w hv hw hlp hph hnone := by
    rw [← time_at_eq hv, ← time_at_eq hw]
    exact h.between sorted_keys_pairwise (mem_of_lookup hv) (mem_of_lookup hw) hlp hph
      fun k hk => hnone k (mem_sorted_keys.mp hk)

/-! ## Longer prompts -/

/-- The times do not fall from one key to a larger one. -/
def Nondecreasing (keys : List Int) (time : Int → ℚ) : Prop :=
  ∀ k ∈ keys, ∀ k' ∈ keys, k ≤ k' → time k ≤ time k'

theorem Predicts.le_time (hs : keys.Pairwise (· < ·)) (hm : Nondecreasing keys time)
    (h : Predicts keys time p t) (hk : k ∈ keys) (hp : p ≤ k) : t ≤ time k := by
  cases h with
  | first hfirst hx => exact hm _ (List.mem_of_head? hfirst) k hk (head_le hs hfirst hk)
  | last hlast hx => exact hm _ (List.mem_of_getLast? hlast) k hk (hx.trans hp)
  | @within a b hn hap hpb =>
    have hab := hap.trans_lt hpb
    rcases hn.le_or_le hs hk with hle | hle
    · rw [le_antisymm (hp.trans hle) hap, line_left]
      exact hm a hn.left_mem k hk (hap.trans hp)
    · calc line (a : ℚ) b (time a) (time b) p ≤ max (time a) (time b) :=
          (line_between (mod_cast hab) (mod_cast hap) (mod_cast hpb.le)).2
        _ = time b := max_eq_right (hm a hn.left_mem b hn.right_mem hab.le)
        _ ≤ time k := hm b hn.right_mem k hk hle

theorem Predicts.time_le (hs : keys.Pairwise (· < ·)) (hm : Nondecreasing keys time)
    (h : Predicts keys time p t) (hk : k ∈ keys) (hp : k ≤ p) : time k ≤ t := by
  cases h with
  | first hfirst hx => exact hm k hk _ (List.mem_of_head? hfirst) (hp.trans hx)
  | last hlast hx => exact hm k hk _ (List.mem_of_getLast? hlast) (le_last hs hlast hk)
  | @within a b hn hap hpb =>
    have hab := hap.trans_lt hpb
    have hka : k ≤ a := (hn.le_or_le hs hk).resolve_right fun hge => (hpb.trans_le hge).not_ge hp
    calc time k ≤ time a := hm k hk a hn.left_mem hka
      _ = min (time a) (time b) := (min_eq_left (hm a hn.left_mem b hn.right_mem hab.le)).symm
      _ ≤ line (a : ℚ) b (time a) (time b) p :=
        (line_between (mod_cast hab) (mod_cast hap) (mod_cast hpb.le)).1

/-- A key between two lengths is between their times too. With no key there, both lengths
have one pair of neighbours. -/
theorem Predicts.mono (hs : keys.Pairwise (· < ·)) (hm : Nondecreasing keys time)
    (hp : Predicts keys time p t) (hq : Predicts keys time q u) (hpq : p ≤ q) : t ≤ u := by
  have through : ∀ k ∈ keys, p ≤ k → k ≤ q → t ≤ u := fun k hk hpk hkq =>
    (hp.le_time hs hm hk hpk).trans (hq.time_le hs hm hk hkq)
  cases hp with
  | last hlast hx => exact hq.time_le hs hm (List.mem_of_getLast? hlast) (hx.trans hpq)
  | @first k hfirst hx =>
    rcases le_total k q with hkq | hqk
    · exact hq.time_le hs hm (List.mem_of_head? hfirst) hkq
    · exact (hq.below hs (List.mem_of_head? hfirst) (fun _ => head_le hs hfirst) hqk).ge
  | @within a b hn hap hpb =>
    rcases le_or_gt b q with hbq | hqb
    · exact through b hn.right_mem hpb.le hbq
    · have hab := hap.trans_lt hpb
      have hrise := hm a hn.left_mem b hn.right_mem hab.le
      cases hq with
      | @first k hfirst hx =>
        have hkq : k ≤ q := ((head_le hs hfirst hn.left_mem).trans hap).trans hpq
        exact through k (List.mem_of_head? hfirst) (hpq.trans hx) hkq
      | last hlast hx => exact absurd (hqb.trans_le (le_last hs hlast hn.right_mem)) hx.not_gt
      | @within c d hn' hcq hqd =>
        rcases hn.le_or_le hs hn'.left_mem with hca | hbc
        · rcases hn'.le_or_le hs hn.left_mem with hac | hda
          · obtain rfl := le_antisymm hca hac
            have hdb : d ≤ b := (hn'.le_or_le hs hn.right_mem).resolve_left fun hbc =>
              (hab.trans_le hbc).false
            have hbd : b ≤ d := (hn.le_or_le hs hn'.right_mem).resolve_left fun hda =>
              (hcq.trans_lt hqd).not_ge hda
            obtain rfl := le_antisymm hdb hbd
            exact line_mono (mod_cast hab) hrise (mod_cast hpq)
          · exact absurd (hqd.trans_le (hda.trans hap)) hpq.not_gt
        · exact absurd (hqb.trans_le hbc) hcq.not_gt

theorem Predicts.nonneg (hpos : ∀ k ∈ keys, 0 ≤ time k)
    (h : Predicts keys time p t) : 0 ≤ t := by
  cases h with
  | first hfirst hx => exact hpos _ (List.mem_of_head? hfirst)
  | last hlast hx => exact hpos _ (List.mem_of_getLast? hlast)
  | @within a b hn hap hpb =>
    exact (le_min (hpos a hn.left_mem) (hpos b hn.right_mem)).trans
      (line_between (mod_cast hap.trans_lt hpb) (mod_cast hap) (mod_cast hpb.le)).1

/-! ## The table of `compute_c_recomp` -/

/-- The times of the table are not negative and do not fall from a key to a larger one. -/
structure GrowingTimes (table : AList fun _ : Int => ℚ) : Prop where
  nonneg : ∀ k v, table.lookup k = some v → 0 ≤ v
  mono : ∀ k k' v w, table.lookup k = some v → table.lookup k' = some w → k ≤ k' → v ≤ w

theorem lookup_of_mem {table : AList fun _ : Int => ℚ} (h : k ∈ sorted_keys table) :
    table.lookup k = some (time_at table k) := by
  have hin : k ∈ table := mem_sorted_keys.mp h
  obtain ⟨v, hv⟩ := Option.isSome_iff_exists.mp (AList.lookup_isSome.mpr hin)
  rw [hv, time_at_eq hv]

theorem c_recomp_mono {table : AList fun _ : Int => ℚ} (hne : table.keys ≠ [])
    (h : GrowingTimes table) (hpq : p ≤ q) (ht : compute_c_recomp p table = .ok t)
    (hu : compute_c_recomp q table = .ok u) : t ≤ u := by
  have hm : Nondecreasing (sorted_keys table) (time_at table) := fun k hk k' hk' =>
    h.mono k k' _ _ (lookup_of_mem hk) (lookup_of_mem hk')
  have hpos : ∀ k ∈ sorted_keys table, 0 ≤ time_at table k := fun k hk =>
    h.nonneg k _ (lookup_of_mem hk)
  rcases le_or_gt p 0 with hp | hp
  · obtain rfl : 0 = t := Except.ok.inj ((c_recomp_nonpos hne hp).symm.trans ht)
    rcases le_or_gt q 0 with hq | hq
    · obtain rfl : 0 = u := Except.ok.inj ((c_recomp_nonpos hne hq).symm.trans hu)
      exact le_rfl
    · obtain ⟨u', hu', hpred⟩ := c_recomp_predicts hne hq
      obtain rfl : u' = u := Except.ok.inj (hu'.symm.trans hu)
      exact hpred.nonneg hpos
  · obtain ⟨t', ht', hpred⟩ := c_recomp_predicts hne hp
    obtain rfl : t' = t := Except.ok.inj (ht'.symm.trans ht)
    obtain ⟨u', hu', hpred'⟩ := c_recomp_predicts hne (hp.trans_le hpq)
    obtain rfl : u' = u := Except.ok.inj (hu'.symm.trans hu)
    exact hpred.mono sorted_keys_pairwise hm hpred' hpq

/-- For every table with a key, and with positive keys only, the time is there for every
length: 0 for a length that is not positive, the value of the table at each key, and what fits
the points of the table at a positive length. It grows with the prompt when the table does. -/
theorem the_prefill_time_follows_the_table (table : AList fun _ : Int => ℚ)
    (hne : table.keys ≠ []) (hkeys : ∀ k ∈ table.keys, 0 < k) :
    (∀ p, ∃ t, compute_c_recomp p table = .ok t ∧ (p ≤ 0 → t = 0) ∧ (0 < p → Fits table p t)) ∧
    (∀ k v, table.lookup k = some v → compute_c_recomp k table = .ok v) ∧
    (GrowingTimes table → ∀ p q, p ≤ q → ∀ t u, compute_c_recomp p table = .ok t →
      compute_c_recomp q table = .ok u → t ≤ u) := by
  refine ⟨fun p => ?_, fun k v hv => ?_, fun h p q hpq t u => c_recomp_mono hne h hpq⟩
  · rcases le_or_gt p 0 with hp | hp
    · exact ⟨0, c_recomp_nonpos hne hp, fun _ => rfl, fun hpos => absurd hpos hp.not_gt⟩
    · obtain ⟨t, ht, hpred⟩ := c_recomp_predicts hne hp
      exact ⟨t, ht, fun hle => absurd hp hle.not_gt, fun _ => hpred.fits⟩
  · have hk := mem_of_lookup hv
    rw [c_recomp_key hk (hkeys k (mem_sorted_keys.mp hk)), time_at_eq hv]

/-- Two measured times, the longer prompt first. -/
def twoTimes : AList fun _ : Int => ℚ := (AList.singleton 64 1).insert 128 2

theorem twoTimes_lookup {v : ℚ} (h : twoTimes.lookup k = some v) :
    k = 64 ∧ v = 1 ∨ k = 128 ∧ v = 2 := by
  have hmem : (⟨k, v⟩ : Sigma fun _ : Int => ℚ) ∈ [⟨128, 2⟩, ⟨64, 1⟩] :=
    AList.mem_lookup_iff.mp h
  simpa [or_comm] using hmem

theorem twoTimes_grow : GrowingTimes twoTimes where
  nonneg k v hv := by
    rcases twoTimes_lookup hv with ⟨-, rfl⟩ | ⟨-, rfl⟩ <;> norm_num
  mono k k' v w hv hw hle := by
    rcases twoTimes_lookup hv with ⟨rfl, rfl⟩ | ⟨rfl, rfl⟩ <;>
      rcases twoTimes_lookup hw with ⟨rfl, rfl⟩ | ⟨rfl, rfl⟩ <;>
        first | omega | norm_num

/-- The time of 100 tokens is between the two. -/
theorem hundred_tokens_between :
    ∃ t u, compute_c_recomp 0 twoTimes = .ok t ∧ compute_c_recomp 100 twoTimes = .ok u ∧ t ≤ u ∧
      1 ≤ u ∧ u ≤ 2 := by
  obtain ⟨hfits, -, hmono⟩ :=
    the_prefill_time_follows_the_table twoTimes (by decide) (by decide)
  obtain ⟨t, ht, -⟩ := hfits 0
  obtain ⟨u, hu, -, hfit⟩ := hfits 100
  have hbetween := (hfit (by decide)).between 64 128 1 2 rfl rfl
    (by decide) (by decide) (by decide)
  refine ⟨t, u, ht, hu, hmono twoTimes_grow 0 100 (by decide) t u ht hu, ?_⟩
  rwa [min_eq_left one_le_two, max_eq_right one_le_two] at hbetween

end distserve
