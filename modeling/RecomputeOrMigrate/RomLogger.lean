-- The record that the logger writes for a decision (rom_logger.py), and when it agrees with
-- itself.
import RecomputeOrMigrate.General.JsonDumps
import RecomputeOrMigrate.RomFloats

open binary64 calls

namespace distserve

/-! ## The record -/

def RomDecision.str : RomDecision → String
  | .migrate => "migrate"
  | .recompute => "recompute"

def RomPolicy.str : RomPolicy → String
  | .rom => "rom"
  | .always_migrate => "always_migrate"
  | .always_recompute => "always_recompute"

/-- The dictionary that `log_decision` makes, without its fixed `event`. -/
structure DecisionRecord where
  ts : Finite
  request_id : String
  prompt_len : Int
  bandwidth_mbps : Binary64
  c_mig_s : Binary64
  c_recomp_s : Binary64
  decision : RomDecision
  policy : RomPolicy
  failed_worker_id : Option Int
  target_worker_id : Option Int

def DecisionRecord.items (record : DecisionRecord) : List (String × json.Value) :=
  [("event", .str "rom_decision"),
    ("ts", .float (.finite record.ts)),
    ("request_id", .str record.request_id),
    ("prompt_len", .int record.prompt_len),
    ("bandwidth_mbps", .float record.bandwidth_mbps),
    ("c_mig_s", .float record.c_mig_s),
    ("c_recomp_s", .float record.c_recomp_s),
    ("decision", .str record.decision.str),
    ("policy", .str record.policy.str),
    ("failed_worker_id", record.failed_worker_id.elim .none .int),
    ("target_worker_id", record.target_worker_id.elim .none .int)]

/-- `log_decision`, at the time `ts`. It rounds the costs to microseconds. -/
def log_decision (ts : Finite) (request_id : String) (prompt_len : Int)
    (bandwidth_mbps c_mig c_recomp : Binary64) (decision : RomDecision) (policy : RomPolicy)
    (failed_worker_id target_worker_id : Option Int) : DecisionRecord where
  ts
  request_id
  prompt_len
  bandwidth_mbps := bandwidth_mbps.round 3
  c_mig_s := c_mig.round 6
  c_recomp_s := c_recomp.round 6
  decision
  policy
  failed_worker_id
  target_worker_id

/-- The line in the log. -/
def DecisionRecord.line (record : DecisionRecord) : List Char := json.dumps record.items

/-- The decision is the one that a reader takes from the costs in the line. -/
def DecisionRecord.Consistent (record : DecisionRecord) : Prop :=
  record.decision = .migrate ↔ record.c_mig_s.reread.le record.c_recomp_s.reread = true

variable {record : DecisionRecord}

/-- A float that is no number makes a text that is not JSON. -/
theorem line_isObject : json.IsObject record.line ↔
    record.bandwidth_mbps.IsFinite ∧ record.c_mig_s.IsFinite ∧ record.c_recomp_s.IsFinite := by
  unfold DecisionRecord.line
  rw [json.dumps_isObject]
  have hworker : ∀ worker_id : Option Int,
      (worker_id.elim json.Value.none .int).IsStandard := by
    intro worker_id
    cases worker_id <;> trivial
  constructor
  · intro h
    exact ⟨h ("bandwidth_mbps", .float record.bandwidth_mbps) (by simp [DecisionRecord.items]),
      h ("c_mig_s", .float record.c_mig_s) (by simp [DecisionRecord.items]),
      h ("c_recomp_s", .float record.c_recomp_s) (by simp [DecisionRecord.items])⟩
  · rintro ⟨hbandwidth, hmig, hrecomp⟩
    simp only [DecisionRecord.items, List.forall_mem_cons]
    exact ⟨trivial, ⟨_, rfl⟩, trivial, trivial, hbandwidth, hmig, hrecomp, trivial, trivial,
      hworker _, hworker _, fun _ h => by cases h⟩

/-! ## A logged decision -/

/-- The recomputation is cheaper, by less than the record shows. -/
def TiesInTheLog (c_mig c_recomp : Finite) : Prop :=
  c_recomp.value < c_mig.value ∧ (c_recomp.round 6).value = (c_mig.round 6).value

/-- The bandwidth and both costs are numbers, and the record shows which cost is smaller. -/
def ShowsItsCosts (prompt_len : Int) (bandwidth_mbps : Binary64)
    (rom_config : floats.ROMConfig) : Prop :=
  bandwidth_mbps.IsFinite ∧ ∃ c_mig c_recomp : Finite,
    floats.migration_cost prompt_len bandwidth_mbps rom_config = .ok (.finite c_mig) ∧
      floats.compute_c_recomp prompt_len rom_config.prefill_time_table = .ok (.finite c_recomp) ∧
        ¬ TiesInTheLog c_mig c_recomp

/-- The record of a decision is JSON and agrees with itself. -/
def LogsConsistently (ts : Finite) (request_id : String)
    (failed_worker_id target_worker_id : Option Int) (prompt_len : Int) (bandwidth_mbps : Binary64)
    (rom_config : floats.ROMConfig) : Prop :=
  ∃ decision c_mig c_recomp,
    floats.make_decision prompt_len bandwidth_mbps rom_config = .ok (decision, c_mig, c_recomp) ∧
    let record := log_decision ts request_id prompt_len bandwidth_mbps c_mig c_recomp decision
      rom_config.policy failed_worker_id target_worker_id
    record.Consistent ∧ json.IsObject record.line

section agreement

variable {rom_config : floats.ROMConfig} {bw : Binary64} {p : Int} {c_mig c_recomp : Finite}

/-- The rounding keeps the order, so only a tie that it makes hides the decision. -/
theorem consistent_iff (hmig : record.c_mig_s = .finite (c_mig.round 6))
    (hrecomp : record.c_recomp_s = .finite (c_recomp.round 6))
    (hdecision : record.decision =
      if (Binary64.finite c_mig).le (.finite c_recomp) then .migrate else .recompute) :
    record.Consistent ↔ ¬ TiesInTheLog c_mig c_recomp := by
  unfold DecisionRecord.Consistent TiesInTheLog
  rw [hmig, hrecomp, hdecision, Binary64.reread_eq, Binary64.reread_eq]
  simp only [Binary64.le_finite, decide_eq_true_eq]
  by_cases h : c_mig.value ≤ c_recomp.value
  · rw [if_pos h]
    exact ⟨fun _ htie => absurd htie.1 (not_lt.mpr h), fun _ => iff_of_true rfl
      (Finite.round_value_mono 6 h)⟩
  · have hlt := not_le.mp h
    have hle := Finite.round_value_mono 6 hlt.le
    rw [if_neg h]
    constructor
    · rintro hiff ⟨-, hsame⟩
      have hmigrate := hiff.mpr hsame.ge
      cases hmigrate
    · intro htie
      refine iff_of_false (by decide) fun hge => htie ⟨hlt, le_antisymm hle hge⟩

/-- The record of a decision is JSON and agrees with itself if and only if the bandwidth and the
costs are finite floats and no tie was made by rounding. -/
theorem the_log_agrees_iff (hpol : rom_config.policy = .rom) (ts : Finite) (request_id : String)
    (failed_worker_id target_worker_id : Option Int) :
    LogsConsistently ts request_id failed_worker_id target_worker_id p bw rom_config ↔
      ShowsItsCosts p bw rom_config := by
  constructor
  · rintro ⟨d, m, t, hmake, hconsistent, hobject⟩
    obtain ⟨hm, ht, hd⟩ := (floats.make_decision_ok_iff hpol).mp hmake
    obtain ⟨hbandwidth, hmig, hrecomp⟩ := line_isObject.mp hobject
    obtain ⟨c_mig, rfl⟩ := Binary64.round_isFinite.mp hmig
    obtain ⟨c_recomp, rfl⟩ := Binary64.round_isFinite.mp hrecomp
    exact ⟨Binary64.round_isFinite.mp hbandwidth, c_mig, c_recomp, hm, ht,
      (consistent_iff rfl rfl hd).mp hconsistent⟩
  · rintro ⟨hbandwidth, c_mig, c_recomp, hm, ht, htie⟩
    exact ⟨_, _, _, (floats.make_decision_ok_iff hpol).mpr ⟨hm, ht, rfl⟩,
      (consistent_iff rfl rfl rfl).mpr htie,
      line_isObject.mpr ⟨Binary64.round_isFinite.mpr hbandwidth, ⟨_, rfl⟩, ⟨_, rfl⟩⟩⟩

/-- The costs are finite, and the smaller one is smaller in the record. -/
def comparable : Binary64 × Binary64 → Bool
  | (.finite c_mig, .finite c_recomp) =>
    c_mig.value ≤ c_recomp.value || (c_recomp.round 6).value < (c_mig.round 6).value
  | _ => false

theorem showsItsCosts_of_any (hbandwidth : bw.IsFinite)
    (h : (do
      let c_mig ← floats.migration_cost p bw rom_config
      let c_recomp ← floats.compute_c_recomp p rom_config.prefill_time_table
      return (c_mig, c_recomp)).toOption.any comparable = true) :
    ShowsItsCosts p bw rom_config := by
  obtain ⟨costs, hcosts, htest⟩ := ok_of_any h
  obtain ⟨m, hm, hcosts⟩ := bind_eq_ok.mp hcosts
  obtain ⟨t, ht, hcosts⟩ := bind_eq_ok.mp hcosts
  cases hcosts
  cases m with
  | finite c_mig =>
    cases t with
    | finite c_recomp =>
      refine ⟨hbandwidth, c_mig, c_recomp, hm, ht, fun htie => ?_⟩
      rcases Bool.or_eq_true_iff.mp htest with hle | hlt
      · exact absurd htie.1 (not_lt.mpr (of_decide_eq_true hle))
      · exact absurd htie.2 (of_decide_eq_true hlt).ne
    | _ => cases htest
  | _ => cases htest

/-- The logged costs are those of a migration, beside the decision to recompute. -/
def hides_its_decision (result : RomDecision × Binary64 × Binary64) : Bool :=
  decide (result.1 = .recompute) && (result.2.1.round 6).le (result.2.2.round 6)

theorem not_logsConsistently_of_hidden {ts : Finite} {request_id : String}
    {failed_worker_id target_worker_id : Option Int}
    (h : (floats.make_decision p bw rom_config).toOption.any hides_its_decision = true) :
    ¬ LogsConsistently ts request_id failed_worker_id target_worker_id p bw rom_config := by
  obtain ⟨result, hresult, htest⟩ := ok_of_any h
  rintro ⟨d, c_mig, c_recomp, hmake, hconsistent, -⟩
  rw [hresult] at hmake
  cases hmake
  obtain ⟨hrecompute, hle⟩ := Bool.and_eq_true_iff.mp htest
  unfold DecisionRecord.Consistent at hconsistent
  rw [Binary64.reread_eq, Binary64.reread_eq] at hconsistent
  have hmigrate := hconsistent.mpr hle
  exact absurd ((of_decide_eq_true hrecompute).symm.trans hmigrate) (by decide)

theorem not_logsConsistently_of_infinite {ts : Finite} {request_id : String}
    {failed_worker_id target_worker_id : Option Int}
    (h : floats.migration_cost p bw rom_config = .ok (.infinite false)) :
    ¬ LogsConsistently ts request_id failed_worker_id target_worker_id p bw rom_config := by
  rintro ⟨d, c_mig, c_recomp, hmake, -, hobject⟩
  obtain ⟨m, hm, hmake⟩ := bind_eq_ok.mp hmake
  obtain ⟨t, -, hmake⟩ := bind_eq_ok.mp hmake
  cases hmake
  rw [show floats.compute_c_mig _ bw = _ from h] at hm
  cases hm
  obtain ⟨-, ⟨x, hx⟩, -⟩ := line_isObject.mp hobject
  cases hx

end agreement

/-- Half a second after some second. -/
def some_time : Finite where
  negative := false
  size := 3436000001 / 2
  size_nonneg := by norm_num
  nearest_size := by decide +kernel
  size_le := by decide +kernel

/-- The migration of 1024 tokens takes 0.0536870912 s over a link of 10000 MB/s, and their
recomputation 0.06 s. -/
theorem a_cheap_migration_is_logged :
    LogsConsistently some_time "req-42" (some 2) (some 1) 1024 (of_rat false 10000)
      floats.ROMConfig.default :=
  (the_log_agrees_iff rfl _ _ _ _).mpr
    (showsItsCosts_of_any (of_rat_isFinite false (by decide +kernel)) (by decide +kernel))

/-- Both costs are logged as 0.06 beside the decision to recompute. Without bandwidth the line has
`Infinity` in it. -/
theorem the_log_hides_a_decision : floats.ROMConfig.default.Valid ∧
    ¬ LogsConsistently some_time "req-42" (some 2) (some 1) 1024
      (of_rat false (8947773968550262 / 1000000000000)) floats.ROMConfig.default ∧
    ¬ LogsConsistently some_time "req-42" (some 2) (some 1) 1024 (of_rat false 0)
      floats.ROMConfig.default := by
  refine ⟨floats.default_valid, not_logsConsistently_of_hidden (by decide +kernel),
    not_logsConsistently_of_infinite (by decide +kernel)⟩

end distserve
