-- The bandwidth that the actor estimates (rom_local_scheduler.py) stays between the least
-- and the largest value that it knows of.
import Mathlib.Analysis.Convex.Basic
import RecomputeOrMigrate.LocalScheduler

open histories

namespace distserve.LocalScheduler

/-- The `ValueError` of `set_bandwidth_alpha`, with the value that its text shows. -/
structure AlphaOutOfRange where
  alpha : ℚ
deriving DecidableEq

/-- `float_repr` is how a float is shown. -/
def AlphaOutOfRange.text (float_repr : ℚ → String) (e : AlphaOutOfRange) : String :=
  s!"alpha must be in (0, 1], got {float_repr e.alpha}"

def set_bandwidth_alpha (s : LocalScheduler) (alpha : ℚ) :
    Except AlphaOutOfRange LocalScheduler :=
  if 0 < alpha ∧ alpha ≤ 1 then .ok { s with bw_alpha := alpha } else .error ⟨alpha⟩

/-- A call to the actor, the one that may raise included. -/
inductive Call
  | message (m : Message)
  | set_bandwidth_alpha (alpha : ℚ)
deriving DecidableEq

def call (s : LocalScheduler) : Call → Except AlphaOutOfRange LocalScheduler
  | .message m => .ok (s.receive m)
  | .set_bandwidth_alpha alpha => s.set_bandwidth_alpha alpha

/-- The actor stays as it is when a call raises. -/
def called (s : LocalScheduler) (c : Call) : LocalScheduler := (s.call c).toOption.getD s

/-- The actor after these calls. -/
def after_calls (rom_config : ROMConfig) (calls : List Call) : LocalScheduler :=
  calls.foldl called (create rom_config)

/-! ## What was seen -/

def Call.IsReset (c : Call) : Prop := c = .message .reset

instance : DecidablePred Call.IsReset := fun c =>
  inferInstanceAs (Decidable (c = .message .reset))

/-- The positive sample that the call brings. -/
def Call.sample : Call → Option ℚ
  | .message (.update_bandwidth bandwidth_mbps _) =>
    if 0 < bandwidth_mbps then some bandwidth_mbps else none
  | _ => none

/-- The positive samples since the last reset, in arrival order. -/
def samples (calls : List Call) : List ℚ := (sinceLast Call.IsReset calls).filterMap Call.sample

/-- The least of the configured bandwidth and the samples. -/
def least_seen (rom_config : ROMConfig) (calls : List Call) : ℚ :=
  (samples calls).foldl min rom_config.sim_bandwidth_mbps

/-- The largest of the configured bandwidth and the samples. -/
def most_seen (rom_config : ROMConfig) (calls : List Call) : ℚ :=
  (samples calls).foldl max rom_config.sim_bandwidth_mbps

variable {rom_config : ROMConfig} {calls : List Call} {c : Call} {s : LocalScheduler}

theorem samples_append :
    samples (calls ++ [c]) = if c.IsReset then [] else samples calls ++ c.sample.toList := by
  unfold samples
  rw [sinceLast_append]
  split
  · rfl
  · rw [List.filterMap_append]
    cases hc : c.sample <;> simp [hc]

theorem after_calls_append :
    after_calls rom_config (calls ++ [c]) = (after_calls rom_config calls).called c := by
  unfold after_calls
  rw [List.foldl_append]
  rfl

theorem pos_of_mem_samples {x : ℚ} (hx : x ∈ samples calls) : 0 < x := by
  obtain ⟨c, -, hc⟩ := List.mem_filterMap.mp hx
  cases c with
  | set_bandwidth_alpha alpha => simp [Call.sample] at hc
  | message m =>
    cases m with
    | update_bandwidth bandwidth_mbps now =>
      obtain ⟨hpos, rfl⟩ : 0 < bandwidth_mbps ∧ bandwidth_mbps = x := by
        simpa [Call.sample] using hc
      exact hpos
    | _ => simp [Call.sample] at hc

theorem foldl_min_le (xs : List ℚ) (x : ℚ) : xs.foldl min x ≤ x := by
  induction xs generalizing x with
  | nil => exact le_rfl
  | cons y ys ih => exact (ih _).trans (min_le_left x y)

theorem le_foldl_max (xs : List ℚ) (x : ℚ) : x ≤ xs.foldl max x := by
  induction xs generalizing x with
  | nil => exact le_rfl
  | cons y ys ih => exact (le_max_left x y).trans (ih _)

theorem foldl_min_pos {xs : List ℚ} {x : ℚ} (hx : 0 < x) (hxs : ∀ y ∈ xs, 0 < y) :
    0 < xs.foldl min x := by
  induction xs generalizing x with
  | nil => exact hx
  | cons y ys ih =>
    exact ih (lt_min hx (hxs y (by simp))) fun z hz => hxs z (List.mem_cons_of_mem y hz)

/-! ## The estimate -/

/-- What holds of the actor after these calls. -/
structure Estimates (rom_config : ROMConfig) (calls : List Call) (s : LocalScheduler) : Prop where
  config_eq : s.config = rom_config
  alpha_pos : 0 < s.bw_alpha
  alpha_le : s.bw_alpha ≤ 1
  least_le : least_seen rom_config calls ≤ s.bandwidth_mbps
  le_most : s.bandwidth_mbps ≤ most_seen rom_config calls
  history_eq : s.bw_history = (samples calls).rtake bw_history_max

theorem estimates_nil (rom_config : ROMConfig) : Estimates rom_config [] (create rom_config) where
  config_eq := rfl
  alpha_pos := by norm_num [create]
  alpha_le := by norm_num [create]
  least_le := le_rfl
  le_most := le_rfl
  history_eq := rfl

/-- A call that is no reset and brings no sample changes nothing that was seen. -/
theorem samples_append_of_none (hr : ¬ c.IsReset) (hc : c.sample = none) :
    samples (calls ++ [c]) = samples calls := by
  rw [samples_append, if_neg hr, hc, Option.toList_none, List.append_nil]

theorem Estimates.of_same_samples {s' : LocalScheduler} (h : Estimates rom_config calls s)
    (hsamples : samples (calls ++ [c]) = samples calls) (hconfig : s'.config = s.config)
    (hpos : 0 < s'.bw_alpha) (hle : s'.bw_alpha ≤ 1) (hbw : s'.bandwidth_mbps = s.bandwidth_mbps)
    (hhistory : s'.bw_history = s.bw_history) : Estimates rom_config (calls ++ [c]) s' where
  config_eq := hconfig.trans h.config_eq
  alpha_pos := hpos
  alpha_le := hle
  least_le := by
    rw [hbw]
    simpa only [least_seen, hsamples] using h.least_le
  le_most := by
    rw [hbw]
    simpa only [most_seen, hsamples] using h.le_most
  history_eq := by rw [hhistory, hsamples, h.history_eq]

/-- A positive sample moves the estimate towards it. -/
theorem Estimates.update_bandwidth (h : Estimates rom_config calls s) (bandwidth_mbps now : ℚ) :
    Estimates rom_config (calls ++ [.message (.update_bandwidth bandwidth_mbps now)])
      (s.update_bandwidth bandwidth_mbps now) := by
  have hr : ¬ (Call.message (.update_bandwidth bandwidth_mbps now)).IsReset := by
    simp [Call.IsReset]
  unfold LocalScheduler.update_bandwidth
  split
  case isTrue hnonpos =>
    have hnone : (Call.message (.update_bandwidth bandwidth_mbps now)).sample = none :=
      if_neg (not_lt.mpr hnonpos)
    exact h.of_same_samples (samples_append_of_none hr hnone) rfl h.alpha_pos h.alpha_le rfl rfl
  case isFalse hpos =>
    have hsamples : samples (calls ++ [.message (.update_bandwidth bandwidth_mbps now)]) =
        samples calls ++ [bandwidth_mbps] := by
      rw [samples_append, if_neg hr]
      simp [Call.sample, not_le.mp hpos]
    have hleast : least_seen rom_config
        (calls ++ [.message (.update_bandwidth bandwidth_mbps now)]) =
          min (least_seen rom_config calls) bandwidth_mbps := by
      simp [least_seen, hsamples]
    have hmost : most_seen rom_config
        (calls ++ [.message (.update_bandwidth bandwidth_mbps now)]) =
          max (most_seen rom_config calls) bandwidth_mbps := by
      simp [most_seen, hsamples]
    -- the new estimate is a mean of the sample and the old one
    have hweights : s.bw_alpha + (1 - s.bw_alpha) = 1 := by ring
    have hrest : 0 ≤ 1 - s.bw_alpha := sub_nonneg.mpr h.alpha_le
    have hmin := Convex.min_le_combo bandwidth_mbps s.bandwidth_mbps h.alpha_pos.le hrest hweights
    have hmax := Convex.combo_le_max bandwidth_mbps s.bandwidth_mbps h.alpha_pos.le hrest hweights
    exact {
      config_eq := h.config_eq
      alpha_pos := h.alpha_pos
      alpha_le := h.alpha_le
      least_le := by
        rw [hleast, min_comm]
        exact (min_le_min_left bandwidth_mbps h.least_le).trans hmin
      le_most := by
        rw [hmost, max_comm]
        exact hmax.trans (max_le_max_left bandwidth_mbps h.le_most)
      history_eq := by
        rw [hsamples, rtake_append_singleton, ← h.history_eq] }

/-- The law of one call. -/
theorem Estimates.called (h : Estimates rom_config calls s) (c : Call) :
    Estimates rom_config (calls ++ [c]) (s.called c) := by
  cases c with
  | set_bandwidth_alpha alpha =>
    have hsamples : samples (calls ++ [.set_bandwidth_alpha alpha]) = samples calls :=
      samples_append_of_none (by simp [Call.IsReset]) rfl
    unfold LocalScheduler.called call LocalScheduler.set_bandwidth_alpha
    by_cases ha : 0 < alpha ∧ alpha ≤ 1
    · simp only [ha, and_self, if_true]
      exact h.of_same_samples hsamples rfl ha.1 ha.2 rfl rfl
    · simp only [ha, if_false]
      exact h.of_same_samples hsamples rfl h.alpha_pos h.alpha_le rfl rfl
  | message m =>
    cases m with
    | update_bandwidth bandwidth_mbps now => exact h.update_bandwidth bandwidth_mbps now
    | reset =>
      have hnil : samples (calls ++ [.message .reset]) = [] := by
        have hreset : (Call.message .reset).IsReset := rfl
        rw [samples_append, if_pos hreset]
      exact {
        config_eq := h.config_eq
        alpha_pos := h.alpha_pos
        alpha_le := h.alpha_le
        least_le := by
          rw [least_seen, hnil, ← h.config_eq]
          exact le_rfl
        le_most := by
          rw [most_seen, hnil, ← h.config_eq]
          exact le_rfl
        history_eq := by
          rw [hnil]
          rfl }
    | _ =>
      exact h.of_same_samples (samples_append_of_none (by simp [Call.IsReset]) rfl) rfl
        h.alpha_pos h.alpha_le rfl rfl

theorem estimates_after_calls (rom_config : ROMConfig) (calls : List Call) :
    Estimates rom_config calls (after_calls rom_config calls) := by
  induction calls using List.reverseRecOn with
  | nil => exact estimates_nil rom_config
  | append_singleton calls c ih =>
    rw [after_calls_append]
    exact ih.called c

/-- A stale estimate gives way to the configured value, which is among what was seen. -/
theorem Estimates.get_bandwidth (h : Estimates rom_config calls s) (now : ℚ) :
    least_seen rom_config calls ≤ s.get_bandwidth now ∧
      s.get_bandwidth now ≤ most_seen rom_config calls := by
  have hconfig : least_seen rom_config calls ≤ s.config.sim_bandwidth_mbps ∧
      s.config.sim_bandwidth_mbps ≤ most_seen rom_config calls := by
    rw [h.config_eq]
    exact ⟨foldl_min_le _ _, le_foldl_max _ _⟩
  unfold LocalScheduler.get_bandwidth
  split
  · exact hconfig
  · split
    · exact hconfig
    · exact ⟨h.least_le, h.le_most⟩

/-- After any calls and at any time, the actor answers with a positive value between the
least and the largest that it has seen, and it keeps the last hundred samples. A rejected
`alpha` changes nothing. -/
theorem the_estimate_stays_between_what_was_seen (rom_config : ROMConfig)
    (hsim : 0 < rom_config.sim_bandwidth_mbps) (calls : List Call) :
    (∀ now, 0 < (after_calls rom_config calls).get_bandwidth now ∧
      least_seen rom_config calls ≤ (after_calls rom_config calls).get_bandwidth now ∧
      (after_calls rom_config calls).get_bandwidth now ≤ most_seen rom_config calls) ∧
    (after_calls rom_config calls).bw_history = (samples calls).rtake 100 ∧
    ∀ alpha, ¬ (0 < alpha ∧ alpha ≤ 1) →
      (after_calls rom_config calls).set_bandwidth_alpha alpha = .error ⟨alpha⟩ ∧
      after_calls rom_config (calls ++ [.set_bandwidth_alpha alpha]) =
        after_calls rom_config calls := by
  have h := estimates_after_calls rom_config calls
  refine ⟨fun now => ?_, h.history_eq, fun alpha ha => ?_⟩
  · have hbetween := h.get_bandwidth now
    exact ⟨(foldl_min_pos hsim fun _ => pos_of_mem_samples).trans_le hbetween.1, hbetween⟩
  · have herror : (after_calls rom_config calls).set_bandwidth_alpha alpha = .error ⟨alpha⟩ :=
      if_neg ha
    refine ⟨herror, ?_⟩
    rw [after_calls_append]
    simp only [LocalScheduler.called, call, herror]
    rfl

/-- A sample of 40 on a seed of 100, and an `alpha` that is refused. -/
theorem an_estimate_between_its_samples :
    0 < (after_calls ⟨.rom, 100, 32, 32, 128, 2, ∅⟩
      [.message (.update_bandwidth 40 0), .set_bandwidth_alpha 2]).get_bandwidth 10 :=
  ((the_estimate_stays_between_what_was_seen ⟨.rom, 100, 32, 32, 128, 2, ∅⟩ (by norm_num)
    [.message (.update_bandwidth 40 0), .set_bandwidth_alpha 2]).1 10).1

end distserve.LocalScheduler
