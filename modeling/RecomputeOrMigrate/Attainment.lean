-- The attainments that a simulation reports (benchmarks/simulate_dist.py): the workload that is
-- loaded, the table of its latencies, and the shares of the requests that meet a target.
import Mathlib.Algebra.Order.Field.Basic
import Mathlib.Tactic.FieldSimp
import Mathlib.Tactic.Linarith
import Mathlib.Tactic.NormNum
import Mathlib.Tactic.Ring
import RecomputeOrMigrate.Simulator

open calls

namespace simdistserve

/-! ## The workload -/

/-- What Python draws at random. A sample has as many items as were asked for. -/
structure Randomness where
  sample : List (Nat × Nat) → Nat → List (Nat × Nat)
  length_sample : ∀ dataset k, k ≤ dataset.length → (sample dataset k).length = k
  gamma : Nat → List ℚ
  length_gamma : ∀ n, (gamma n).length = n

/-- An item of a workload file. -/
structure FileItem where
  start_time : ℚ
  prompt_len : Nat
  output_len : Nat

/-- `--workload`: a named dataset, with the lengths of its prompts and outputs, or a file. -/
inductive WorkloadArg
  | dataset (reqs : List (Nat × Nat))
  | file (data : List FileItem)

/-- `--arrival`. All but `fixed` are drawn for a dataset. -/
inductive ArrivalArg
  | poisson
  | gamma
  | fixed
  | custom
deriving DecidableEq

/-- The arguments that the attainments depend on. -/
structure SimulateArgs where
  N : Int
  workload : WorkloadArg
  arrival : ArrivalArg
  /-- `⊤` stands for `inf`. -/
  rate : WithTop ℚ
  prefill_target : Int
  decode_target : Int
  slo_scales : List ℚ

inductive LoadError
  | sample_larger_than_population_or_negative
  | n_not_positive
  | division_by_zero
  /-- The inter-arrivals and the requests differ in number. -/
  | lengths_differ
deriving DecidableEq

/-- `sample_requests`. -/
def sample_requests (random : Randomness) (reqs : List (Nat × Nat)) (num_prompts : Int) :
    Except LoadError (List (Nat × Nat)) :=
  if num_prompts < 0 ∨ reqs.length < num_prompts then
    .error .sample_larger_than_population_or_negative
  else .ok (random.sample reqs num_prompts.toNat)

/-- `1 / rate * 1000`. -/
def fixed_delay : WithTop ℚ → Except LoadError ℚ
  | ⊤ => .ok 0
  | (rate : ℚ) => if rate = 0 then .error .division_by_zero else .ok (1 / rate * 1000)

def get_fixed_interarrival (n : Int) (delay : ℚ) : Except LoadError (List ℚ) :=
  if 0 < n then .ok (0 :: List.replicate (n - 1).toNat delay) else .error .n_not_positive

def get_gamma_interarrival (random : Randomness) (n : Int) : Except LoadError (List ℚ) :=
  if 0 < n then .ok (0 :: (random.gamma (n - 1).toNat).map (· * 1000)) else .error .n_not_positive

def convert_absolutearrival_to_interarrival (x : List ℚ) : List ℚ :=
  0 :: x.tail.zipWith (fun next before => (next - before) * 1000) x

def load_workload (random : Randomness) (args : SimulateArgs) :
    Except LoadError (List (Nat × Nat) × List ℚ) :=
  match args.workload with
  | .dataset reqs => do
    let requests ← sample_requests random reqs args.N
    if args.arrival = .fixed then
      let delay ← fixed_delay args.rate
      let arrival ← get_fixed_interarrival args.N delay
      return (requests, arrival)
    else
      let arrival ← get_gamma_interarrival random args.N
      return (requests, arrival)
  | .file data =>
    .ok (data.map fun d => (d.prompt_len, d.output_len),
      convert_absolutearrival_to_interarrival (data.map (·.start_time)))

/-- The requests with their inter-arrivals, as `put_requests_with_interarrivals` puts them. -/
def put_requests (requests : List (Nat × Nat)) (inter_arrivals : List ℚ) :
    Except LoadError Workload :=
  if inter_arrivals.length = requests.length then
    .ok (requests.zipWith (fun lens inter_arrival =>
      { inter_arrival, prefill_length := lens.1, output_lens := lens.2 }) inter_arrivals)
  else .error .lengths_differ

/-- The workload that `main` simulates. -/
def simulated_workload (random : Randomness) (args : SimulateArgs) : Except LoadError Workload := do
  let (requests, arrival) ← load_workload random args
  put_requests requests arrival

/-- A simulation that is over. -/
structure FinishedRun (c : Cluster) (workload : Workload) where
  steps : Nat
  state : Sim
  reached : Sim.run c workload steps = .ok state
  ended : state.queue = []

/-! ## The table of the latencies -/

/-- The columns of the data frame that the attainments read. A missing value is `NaN`. -/
structure LatencyRow where
  first_token_latency : Option ℚ
  tpot : Option ℚ

/-- The quotient, where an infinite one counts as 0. -/
def tpot (decoding_latency : Option ℚ) (output_lens : Nat) : Option ℚ :=
  decoding_latency.bind fun d =>
    if output_lens = 0 then (if d = 0 then none else some 0) else some (d / output_lens)

def latency_row (r : Request) : LatencyRow :=
  let latencies := calculate_per_request_latency (transform_request_log_to_df r.log)
  { first_token_latency := latencies.first_token_latency
    tpot := tpot latencies.decoding_latency r.output_lens }

/-- `per_request_latency_df`, one row for each request. -/
def FinishedRun.per_request_latency {c : Cluster} {workload : Workload}
    (run : FinishedRun c workload) : List LatencyRow :=
  (List.range workload.length).map fun i => latency_row (run.state.requests i)

/-! ## The attainments -/

/-- A comparison with `NaN` is false. -/
def meets (latency : Option ℚ) (target : ℚ) : Bool := latency.any (· ≤ target)

def meets_prefill (args : SimulateArgs) (scale : ℚ) (row : LatencyRow) : Bool :=
  meets row.first_token_latency (args.prefill_target * scale)

def meets_decode (args : SimulateArgs) (scale : ℚ) (row : LatencyRow) : Bool :=
  meets row.tpot (args.decode_target * scale)

def meets_both (args : SimulateArgs) (scale : ℚ) (row : LatencyRow) : Bool :=
  meets_prefill args scale row && meets_decode args scale row

/-- The number of rows over `N`, in percent. Over 0 it is `inf` or `NaN`. -/
def attainment (args : SimulateArgs) (rows : List LatencyRow) (meet : LatencyRow → Bool) :
    Option ℚ :=
  if args.N = 0 then none else some ((rows.countP meet : ℚ) / args.N * 100)

def prefill_attainment (args : SimulateArgs) (rows : List LatencyRow) (scale : ℚ) : Option ℚ :=
  attainment args rows (meets_prefill args scale)

def decode_attainment (args : SimulateArgs) (rows : List LatencyRow) (scale : ℚ) : Option ℚ :=
  attainment args rows (meets_decode args scale)

def both_attainment (args : SimulateArgs) (rows : List LatencyRow) (scale : ℚ) : Option ℚ :=
  attainment args rows (meets_both args scale)

/-! ## True percentages -/

/-- The part of the requests that meet a target, in percent. -/
def share (rows : List LatencyRow) (meet : LatencyRow → Bool) : ℚ :=
  100 * rows.countP meet / rows.length

/-- The reported attainments are the parts of the simulated requests. -/
structure TruePercentages (args : SimulateArgs) (rows : List LatencyRow) : Prop where
  prefill : ∀ scale ∈ args.slo_scales,
    prefill_attainment args rows scale = some (share rows (meets_prefill args scale))
  decode : ∀ scale ∈ args.slo_scales,
    decode_attainment args rows scale = some (share rows (meets_decode args scale))
  both : ∀ scale ∈ args.slo_scales,
    both_attainment args rows scale = some (share rows (meets_both args scale))
  bounded : ∀ scale ∈ args.slo_scales, ∀ p, prefill_attainment args rows scale = some p ∨
    decode_attainment args rows scale = some p ∨ both_attainment args rows scale = some p →
      0 ≤ p ∧ p ≤ 100
  both_le : ∀ scale ∈ args.slo_scales, ∀ b p, both_attainment args rows scale = some b →
    prefill_attainment args rows scale = some p ∨ decode_attainment args rows scale = some p →
      b ≤ p
  prefill_mono : ∀ scale ∈ args.slo_scales, ∀ scale' ∈ args.slo_scales, scale ≤ scale' →
    ∀ p p', prefill_attainment args rows scale = some p →
      prefill_attainment args rows scale' = some p' → p ≤ p'
  decode_mono : ∀ scale ∈ args.slo_scales, ∀ scale' ∈ args.slo_scales, scale ≤ scale' →
    ∀ p p', decode_attainment args rows scale = some p →
      decode_attainment args rows scale' = some p' → p ≤ p'
  both_mono : ∀ scale ∈ args.slo_scales, ∀ scale' ∈ args.slo_scales, scale ≤ scale' →
    ∀ p p', both_attainment args rows scale = some p →
      both_attainment args rows scale' = some p' → p ≤ p'

/-- No request meets a target at this scale. -/
def MeetsNone (args : SimulateArgs) (rows : List LatencyRow) (scale : ℚ) : Prop :=
  ∀ row ∈ rows, meets_prefill args scale row = false ∧ meets_decode args scale row = false

/-- `N` is the number of the requests of a file, or it is not 0 and nothing is to be counted. A
dataset gives `N` requests. -/
def SimulateArgs.CountsRequests (args : SimulateArgs) (rows : List LatencyRow) : Prop :=
  match args.workload with
  | .dataset _ => True
  | .file data => ∀ scale ∈ args.slo_scales,
    args.N = data.length ∨ (args.N ≠ 0 ∧ MeetsNone args rows scale)

/-- A negative target is stricter at the larger of two scales, and the latency is between the
scaled targets. -/
def LeavesOut (target : Int) (latency : Option ℚ) (scale scale' : ℚ) : Prop :=
  target < 0 ∧ ∃ l, latency = some l ∧ target * scale' < l ∧ l ≤ target * scale

/-- A larger scale leaves no request out. This asks nothing of targets that are not negative. -/
def SimulateArgs.LeavesNoneOut (args : SimulateArgs) (rows : List LatencyRow) : Prop :=
  ∀ scale ∈ args.slo_scales, ∀ scale' ∈ args.slo_scales, scale ≤ scale' → ∀ row ∈ rows,
    ¬ LeavesOut args.prefill_target row.first_token_latency scale scale' ∧
      ¬ LeavesOut args.decode_target row.tpot scale scale'

variable {random : Randomness} {args : SimulateArgs} {workload : Workload} {rows : List LatencyRow}
  {meet meet' : LatencyRow → Bool} {scale scale' : ℚ}

/-! ### The number of the requests -/

theorem length_convert (x : List ℚ) :
    (convert_absolutearrival_to_interarrival x).length = (x.length - 1) + 1 := by
  unfold convert_absolutearrival_to_interarrival
  rw [List.length_cons, List.length_zipWith, List.length_tail,
    Nat.min_eq_left (Nat.sub_le _ _)]

theorem put_requests_length {requests : List (Nat × Nat)} {inter_arrivals : List ℚ}
    (h : put_requests requests inter_arrivals = .ok workload) :
    workload.length = requests.length ∧ inter_arrivals.length = requests.length := by
  unfold put_requests at h
  split at h
  · next hlen =>
    cases h
    exact ⟨by rw [List.length_zipWith, hlen, Nat.min_self], hlen⟩
  · cases h

theorem sample_requests_length {reqs requests : List (Nat × Nat)} {N : Int}
    (h : sample_requests random reqs N = .ok requests) : (requests.length : Int) = N := by
  unfold sample_requests at h
  split at h
  · cases h
  · next hfits =>
    cases h
    rw [random.length_sample _ _ (by omega)]
    omega

theorem length_of_fixed {n : Int} {delay : ℚ} {arrival : List ℚ}
    (h : get_fixed_interarrival n delay = .ok arrival) : 0 < n := by
  unfold get_fixed_interarrival at h
  split at h
  · assumption
  · cases h

theorem length_of_gamma {n : Int} {arrival : List ℚ}
    (h : get_gamma_interarrival random n = .ok arrival) : 0 < n := by
  unfold get_gamma_interarrival at h
  split at h
  · assumption
  · cases h

/-- There is a request. A dataset gives `N` of them, and a file those that it lists. -/
theorem simulated_workload_length (h : simulated_workload random args = .ok workload) :
    0 < workload.length ∧ (∀ reqs, args.workload = .dataset reqs → args.N = workload.length) ∧
      ∀ data, args.workload = .file data → data.length = workload.length := by
  unfold simulated_workload at h
  obtain ⟨⟨requests, arrival⟩, hload, hput⟩ := bind_eq_ok.mp h
  obtain ⟨hlen, hsame⟩ := put_requests_length hput
  unfold load_workload at hload
  cases hworkload : args.workload with
  | dataset reqs =>
    rw [hworkload] at hload
    obtain ⟨sampled, hsample, hload⟩ := bind_eq_ok.mp hload
    have hN := sample_requests_length hsample
    have hpos : 0 < args.N ∧ sampled = requests := by
      split at hload
      · obtain ⟨delay, -, hload⟩ := bind_eq_ok.mp hload
        obtain ⟨drawn, harrival, hload⟩ := bind_eq_ok.mp hload
        cases hload
        exact ⟨length_of_fixed harrival, rfl⟩
      · obtain ⟨drawn, harrival, hload⟩ := bind_eq_ok.mp hload
        cases hload
        exact ⟨length_of_gamma harrival, rfl⟩
    obtain ⟨hpos, rfl⟩ := hpos
    refine ⟨by omega, fun _ _ => by omega, fun data hdata => by cases hdata⟩
  | file data =>
    rw [hworkload] at hload
    cases hload
    rw [length_convert, List.length_map, List.length_map] at hsame
    rw [List.length_map] at hlen
    refine ⟨by omega, ?_, ?_⟩
    · intro reqs hreqs
      cases hreqs
    · intro data' hdata
      cases hdata
      exact hlen.symm

/-! ### The shares -/

/-- The quotient is the share when the counted requests are all, or when none is counted. -/
theorem attainment_eq_share_iff (hpos : 0 < rows.length) :
    attainment args rows meet = some (share rows meet) ↔
      args.N = rows.length ∨ (args.N ≠ 0 ∧ rows.countP meet = 0) := by
  have hn : (rows.length : ℚ) ≠ 0 := by exact_mod_cast hpos.ne'
  unfold attainment share
  by_cases hN : args.N = 0
  · rw [if_pos hN, hN]
    simp
    omega
  · have hN' : (args.N : ℚ) ≠ 0 := by exact_mod_cast hN
    rw [if_neg hN, Option.some_inj]
    constructor
    · intro h
      by_cases hcount : rows.countP meet = 0
      · exact Or.inr ⟨hN, hcount⟩
      · left
        have hcount' : (rows.countP meet : ℚ) ≠ 0 := by exact_mod_cast hcount
        field_simp at h
        exact_mod_cast h.symm
    · rintro (h | ⟨-, hcount⟩)
      · rw [h]
        push_cast
        ring
      · rw [hcount]
        simp

theorem share_bounded (rows : List LatencyRow) (meet : LatencyRow → Bool) :
    0 ≤ share rows meet ∧ share rows meet ≤ 100 := by
  unfold share
  constructor
  · positivity
  · rw [mul_div_assoc]
    have hle : (rows.countP meet : ℚ) / rows.length ≤ 1 :=
      div_le_one_of_le₀ (by exact_mod_cast List.countP_le_length) (Nat.cast_nonneg _)
    linarith

theorem share_mono (h : ∀ row ∈ rows, meet row = true → meet' row = true) :
    share rows meet ≤ share rows meet' := by
  have hcount : (rows.countP meet : ℚ) ≤ rows.countP meet' := by
    exact_mod_cast List.countP_mono_left h
  unfold share
  gcongr

theorem meets_iff {latency : Option ℚ} {target : ℚ} :
    meets latency target = true ↔ ∃ l, latency = some l ∧ l ≤ target := by
  unfold meets
  simp only [Option.any_eq_true, decide_eq_true_eq]

/-- A larger target is met when a smaller one is. -/
theorem meets_mono {latency : Option ℚ} {target target' : ℚ} (h : target ≤ target')
    (hm : meets latency target = true) : meets latency target' = true := by
  obtain ⟨l, hl, hle⟩ := meets_iff.mp hm
  exact meets_iff.mpr ⟨l, hl, hle.trans h⟩

/-- A latency meets the target of the larger scale too, unless it is left out. -/
theorem meets_of_not_leavesOut {target : Int} {latency : Option ℚ} (h : scale ≤ scale')
    (hnot : ¬ LeavesOut target latency scale scale')
    (hm : meets latency (target * scale) = true) : meets latency (target * scale') = true := by
  rcases le_or_gt 0 target with ht | ht
  · exact meets_mono (mul_le_mul_of_nonneg_left h (by exact_mod_cast ht)) hm
  · obtain ⟨l, hl, hle⟩ := meets_iff.mp hm
    refine meets_iff.mpr ⟨l, hl, ?_⟩
    by_contra hlt
    exact hnot ⟨ht, l, hl, not_le.mp hlt, hle⟩

/-- What is left out meets the target of the smaller scale only, and that of the larger scale is
stricter. -/
theorem LeavesOut.meets {target : Int} {latency : Option ℚ}
    (h : LeavesOut target latency scale scale') :
    meets latency (target * scale) = true ∧ meets latency (target * scale') = false := by
  obtain ⟨-, l, hl, hlt, hle⟩ := h
  refine ⟨meets_iff.mpr ⟨l, hl, hle⟩, ?_⟩
  rw [← Bool.not_eq_true, meets_iff]
  rintro ⟨l', hl', hle'⟩
  rw [hl, Option.some_inj] at hl'
  exact absurd hle' (not_le.mpr (hl' ▸ hlt))

theorem meets_of_neg {target : Int} {latency : Option ℚ} (ht : target < 0) (h : scale ≤ scale')
    (hm : meets latency (target * scale') = true) : meets latency (target * scale) = true :=
  meets_mono (mul_le_mul_of_nonpos_left h (by exact_mod_cast ht.le)) hm

/-- Rows are lost when all that meet the one meet the other, and one row does not. -/
theorem share_lt {row : LatencyRow} (h : ∀ row ∈ rows, meet' row = true → meet row = true)
    (hrow : row ∈ rows) (hm : meet row = true) (hm' : meet' row = false) :
    share rows meet' < share rows meet := by
  have hcount : rows.countP meet' < rows.countP meet := by
    obtain ⟨before, after, rfl⟩ := List.append_of_mem hrow
    have hbefore : before.countP meet' ≤ before.countP meet :=
      List.countP_mono_left fun row hr => h row (List.mem_append_left _ hr)
    have hafter : after.countP meet' ≤ after.countP meet :=
      List.countP_mono_left fun row hr =>
        h row (List.mem_append_right _ (List.mem_cons_of_mem _ hr))
    rw [List.countP_append, List.countP_append, List.countP_cons_of_pos hm,
      List.countP_cons_of_neg (by rw [hm']; exact Bool.false_ne_true)]
    omega
  have hpos : (0 : ℚ) < rows.length := by exact_mod_cast List.length_pos_of_mem hrow
  unfold share
  gcongr

/-- A share that does not shrink leaves nothing out. -/
theorem not_leavesOut_of_share_le {target : Int} {latency : LatencyRow → Option ℚ}
    (hle : scale ≤ scale')
    (h : share rows (fun row => meets (latency row) (target * scale)) ≤
      share rows fun row => meets (latency row) (target * scale'))
    {row : LatencyRow} (hrow : row ∈ rows) : ¬ LeavesOut target (latency row) scale scale' :=
  fun hout => absurd h (not_le.mpr (share_lt (fun _ _ => meets_of_neg hout.1 hle) hrow
    hout.meets.1 hout.meets.2))

theorem meets_both_iff {row : LatencyRow} : meets_both args scale row = true ↔
    meets_prefill args scale row = true ∧ meets_decode args scale row = true :=
  Bool.and_eq_true_iff

/-- Attainments that are the shares behave as percentages do when no request is left out. -/
theorem truePercentages_of_shares
    (hprefill : ∀ scale ∈ args.slo_scales,
      prefill_attainment args rows scale = some (share rows (meets_prefill args scale)))
    (hdecode : ∀ scale ∈ args.slo_scales,
      decode_attainment args rows scale = some (share rows (meets_decode args scale)))
    (hboth : ∀ scale ∈ args.slo_scales,
      both_attainment args rows scale = some (share rows (meets_both args scale)))
    (hout : args.LeavesNoneOut rows) : TruePercentages args rows where
  prefill := hprefill
  decode := hdecode
  both := hboth
  bounded scale hs p := by
    rw [hprefill scale hs, hdecode scale hs, hboth scale hs]
    rintro (h | h | h) <;> cases h <;> exact share_bounded _ _
  both_le scale hs b p := by
    rw [hprefill scale hs, hdecode scale hs, hboth scale hs]
    rintro hb (h | h) <;> cases hb <;> cases h
    · exact share_mono fun row _ hm => (meets_both_iff.mp hm).1
    · exact share_mono fun row _ hm => (meets_both_iff.mp hm).2
  prefill_mono scale hs scale' hs' hle p p' := by
    rw [hprefill scale hs, hprefill scale' hs']
    rintro h h'
    cases h
    cases h'
    exact share_mono fun row hrow =>
      meets_of_not_leavesOut hle (hout scale hs scale' hs' hle row hrow).1
  decode_mono scale hs scale' hs' hle p p' := by
    rw [hdecode scale hs, hdecode scale' hs']
    rintro h h'
    cases h
    cases h'
    exact share_mono fun row hrow =>
      meets_of_not_leavesOut hle (hout scale hs scale' hs' hle row hrow).2
  both_mono scale hs scale' hs' hle p p' := by
    rw [hboth scale hs, hboth scale' hs']
    rintro h h'
    cases h
    cases h'
    refine share_mono fun row hrow hm => ?_
    obtain ⟨hm, hm'⟩ := meets_both_iff.mp hm
    obtain ⟨hnot, hnot'⟩ := hout scale hs scale' hs' hle row hrow
    exact meets_both_iff.mpr
      ⟨meets_of_not_leavesOut hle hnot hm, meets_of_not_leavesOut hle hnot' hm'⟩

/-- True percentages that grow with the scale leave no request out. -/
theorem TruePercentages.leavesNoneOut (h : TruePercentages args rows) :
    args.LeavesNoneOut rows := by
  intro scale hs scale' hs' hle row hrow
  have hprefill := h.prefill_mono scale hs scale' hs' hle _ _ (h.prefill scale hs)
    (h.prefill scale' hs')
  have hdecode := h.decode_mono scale hs scale' hs' hle _ _ (h.decode scale hs)
    (h.decode scale' hs')
  exact ⟨not_leavesOut_of_share_le hle hprefill hrow, not_leavesOut_of_share_le hle hdecode hrow⟩

theorem meetsNone_iff : MeetsNone args rows scale ↔
    rows.countP (meets_prefill args scale) = 0 ∧ rows.countP (meets_decode args scale) = 0 := by
  unfold MeetsNone
  rw [List.countP_eq_zero, List.countP_eq_zero]
  simp only [Bool.not_eq_true]
  exact ⟨fun h => ⟨fun row hrow => (h row hrow).1, fun row hrow => (h row hrow).2⟩,
    fun h row hrow => ⟨h.1 row hrow, h.2 row hrow⟩⟩

theorem MeetsNone.both (h : MeetsNone args rows scale) :
    rows.countP (meets_both args scale) = 0 := by
  rw [List.countP_eq_zero]
  intro row hrow hm
  have hprefill := (meets_both_iff.mp hm).1
  rw [(h row hrow).1] at hprefill
  cases hprefill

/-- The attainments are the shares exactly when `N` counts the requests at each scale, and they
grow with the scale when no request is left out. -/
theorem truePercentages_iff (hpos : 0 < rows.length) : TruePercentages args rows ↔
    (∀ scale ∈ args.slo_scales,
      args.N = rows.length ∨ (args.N ≠ 0 ∧ MeetsNone args rows scale)) ∧
        args.LeavesNoneOut rows := by
  constructor
  · intro h
    refine ⟨fun scale hs => ?_, h.leavesNoneOut⟩
    rcases (attainment_eq_share_iff hpos).mp (h.prefill scale hs) with hN | ⟨hN, hprefill⟩
    · exact Or.inl hN
    · rcases (attainment_eq_share_iff hpos).mp (h.decode scale hs) with hN' | ⟨-, hdecode⟩
      · exact Or.inl hN'
      · exact Or.inr ⟨hN, meetsNone_iff.mpr ⟨hprefill, hdecode⟩⟩
  · rintro ⟨h, hout⟩
    refine truePercentages_of_shares ?_ ?_ ?_ hout <;>
      · intro scale hs
        refine (attainment_eq_share_iff hpos).mpr ((h scale hs).imp id fun hnone => ⟨hnone.1, ?_⟩)
        first
        | exact (meetsNone_iff.mp hnone.2).1
        | exact (meetsNone_iff.mp hnone.2).2
        | exact hnone.2.both

/-- For each workload that `main` loads and each simulation of it that is over, the attainments
are true percentages exactly when the workload is a dataset, or `N` is the number of the requests
of the file, or there is nothing to count and `N` is not 0, and no negative target leaves a
request out at a larger scale. -/
theorem attainment_is_a_true_percentage_iff (random : Randomness) (args : SimulateArgs)
    (workload : Workload) (h : simulated_workload random args = .ok workload) (c : Cluster)
    (run : FinishedRun c workload) :
    TruePercentages args run.per_request_latency ↔
      args.CountsRequests run.per_request_latency ∧
        args.LeavesNoneOut run.per_request_latency := by
  obtain ⟨hpos, hdataset, hfile⟩ := simulated_workload_length h
  have hlen : run.per_request_latency.length = workload.length := by
    rw [FinishedRun.per_request_latency, List.length_map, List.length_range]
  rw [truePercentages_iff (hlen ▸ hpos), hlen]
  refine and_congr_left fun _ => ?_
  unfold SimulateArgs.CountsRequests
  cases hworkload : args.workload with
  | dataset reqs => exact iff_of_true (fun _ _ => Or.inl (hdataset reqs hworkload)) trivial
  | file data =>
    dsimp only
    rw [hfile data hworkload]

theorem leavesNoneOut_of_nonneg (hprefill : 0 ≤ args.prefill_target)
    (hdecode : 0 ≤ args.decode_target) : args.LeavesNoneOut rows :=
  fun _ _ _ _ _ _ _ => ⟨fun h => absurd h.1 (not_lt.mpr hprefill),
    fun h => absurd h.1 (not_lt.mpr hdecode)⟩

/-- Nothing is drawn for a file. -/
def firstSample : Randomness where
  sample dataset k := dataset.take k
  length_sample _ _ h := by rw [List.length_take, Nat.min_eq_left h]
  gamma n := List.replicate n 0
  length_gamma _ := List.length_replicate

/-- A file with one request of 4 prompt tokens and 2 output tokens. -/
def oneRequest (N : Int) : SimulateArgs where
  N := N
  workload := .file [⟨0, 4, 2⟩]
  arrival := .custom
  rate := ⊤
  prefill_target := 200
  decode_target := 100
  slo_scales := [1]

/-- The simulation of this file is over after 16 events, and its request meets the targets. -/
theorem one_request_finishes : ∃ c, ∃ run : FinishedRun c [⟨0, -1, 4, 2⟩],
    run.per_request_latency.all (meets_prefill (oneRequest 64) 1) = true := by
  obtain ⟨s, hs, htest⟩ := ok_of_any
    (x := do
      let c ← small_cluster
      Sim.run c [⟨0, -1, 4, 2⟩] 16)
    (p := fun s => s.queue.isEmpty && meets_prefill (oneRequest 64) 1 (latency_row (s.requests 0)))
    (by decide +kernel)
  obtain ⟨hover, hmeets⟩ := Bool.and_eq_true_iff.mp htest
  obtain ⟨c, -, hrun⟩ := bind_eq_ok.mp hs
  refine ⟨c, ⟨16, s, hrun, List.isEmpty_iff.mp hover⟩, ?_⟩
  rw [FinishedRun.per_request_latency, List.all_map, List.all_eq_true]
  intro i hi
  obtain rfl : i = 0 := by simpa using hi
  exact hmeets

/-- With `--N 1` the attainments are true. -/
theorem one_of_one_request : ∃ c, ∃ run : FinishedRun c [⟨0, -1, 4, 2⟩],
    TruePercentages (oneRequest 1) run.per_request_latency := by
  obtain ⟨c, run, -⟩ := one_request_finishes
  exact ⟨c, run, (attainment_is_a_true_percentage_iff firstSample (oneRequest 1) _ rfl c run).mpr
    ⟨fun _ _ => Or.inl rfl, leavesNoneOut_of_nonneg (by decide) (by decide)⟩⟩

/-- With the default of 64, one request of one that meets the target counts for 1.5625 percent. -/
theorem one_of_sixty_four_requests : ¬ ∀ random args workload,
    simulated_workload random args = .ok workload → ∀ c (run : FinishedRun c workload),
      TruePercentages args run.per_request_latency := by
  intro h
  obtain ⟨c, run, hmeets⟩ := one_request_finishes
  have htrue := h firstSample (oneRequest 64) [⟨0, -1, 4, 2⟩] rfl c run
  have hone : run.per_request_latency.length = 1 := by
    rw [FinishedRun.per_request_latency, List.length_map]
    rfl
  obtain ⟨hcount, -⟩ := (truePercentages_iff (hone ▸ Nat.zero_lt_one)).mp htrue
  rcases hcount 1 (List.mem_singleton_self 1) with hN | ⟨-, hnone⟩
  · rw [hone] at hN
    exact absurd hN (by decide)
  · have hrow : latency_row (run.state.requests 0) ∈ run.per_request_latency :=
      List.mem_map_of_mem (List.mem_singleton_self 0)
    have hmeet := List.all_eq_true.mp hmeets _ hrow
    rw [(hnone _ hrow).1] at hmeet
    cases hmeet

end simdistserve
