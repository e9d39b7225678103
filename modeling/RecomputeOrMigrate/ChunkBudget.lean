-- How much of its token budget a first worker fills when it cuts chunks. `chunk_size` grows and
-- `prefill_max_tokens` falls with each chunk, so each chunk is paid for twice.
import RecomputeOrMigrate.SimChunks

namespace simdistserve.Sim

variable {c : Cluster} {i wid chunk_id n chunk_size max left : Nat} {s s' : Sim}
  {result queue : List Nat}

/-- The sizes that `_enter_prefill` schedules, in the order of its result. -/
def scheduled (c : Cluster) (s : Sim) (wid : Nat) : List Nat :=
  (enter_prefill c s wid).1.map fun i =>
    ((enter_prefill c s wid).2.requests i).current_prefill_lens

/-- The batch fills the budget as far as the queue and the batch size allow. -/
structure FillsItsBudget (c : Cluster) (s : Sim) (wid : Nat) : Prop where
  total_le : (scheduled c s wid).sum ≤ c.config.max_prefill_tokens
  filled : (scheduled c s wid).sum < c.config.max_prefill_tokens →
    ((enter_prefill c s wid).2.workers wid).prefill_queue = [] ∨
      (enter_prefill c s wid).1.length = c.config.max_prefill_batch
  whole : ∀ i ∈ (enter_prefill c s wid).1.dropLast,
    ((enter_prefill c s wid).2.requests i).current_prefill_lens =
      (s.requests i).remain_prefill_lens
  decreased : ∀ i ∈ (enter_prefill c s wid).1, (s.requests i).remain_prefill_lens =
    ((enter_prefill c s wid).2.requests i).remain_prefill_lens +
      ((enter_prefill c s wid).2.requests i).current_prefill_lens

/-- The first request fills the budget alone, or the requests that the batch may take stand in
the queue once, and all but the last of them have less than half of the budget together. -/
def BudgetIsNotHalved (c : Cluster) (s : Sim) (wid : Nat) : Prop :=
  let queue := (s.workers wid).prefill_queue
  let n := min c.config.max_prefill_batch queue.length
  (∃ i, queue.head? = some i ∧ c.config.max_prefill_tokens ≤ (s.requests i).remain_prefill_lens) ∨
    ((queue.take n).Nodup ∧ 2 * ((queue.take (n - 1)).map fun i =>
      (s.requests i).remain_prefill_lens).sum < c.config.max_prefill_tokens)

/-! ## The loop -/

/-- What the loop does with `left` tokens of the budget. -/
structure Budgeted (left : Nat) (s : Sim) (result : List Nat) (s' : Sim) : Prop where
  total_le : (result.map fun i => (s'.requests i).current_prefill_lens).sum ≤ left
  nothing : left = 0 → result = []
  pos : ∀ i ∈ result, 0 < (s.requests i).remain_prefill_lens
  decreased : ∀ i ∈ result, (s.requests i).remain_prefill_lens =
    (s'.requests i).remain_prefill_lens + (s'.requests i).current_prefill_lens
  whole : ∀ i ∈ result.dropLast,
    (s'.requests i).current_prefill_lens = (s.requests i).remain_prefill_lens

theorem Budgeted.nil : Budgeted left s [] s :=
  ⟨Nat.zero_le left, fun _ => rfl, by simp, by simp, by simp⟩

theorem breaks_iff {remain : Nat} :
    breaks true (sched_size true remain max chunk_size) max = true ↔
      remain = 0 ∨ max - chunk_size = 0 := by
  simp [breaks, sched_size]

/-- A request is not taken again after its chunk was cut: it has nothing left, or the budget
has nothing left. -/
theorem not_taken_again {candidate : Nat}
    (hsize : chunk_size = min (s.requests candidate).remain_prefill_lens left)
    (h : Budgeted (left - 2 * chunk_size)
      (s.cut_one wid candidate queue chunk_size chunk_id) result s') : candidate ∉ result := by
  intro hin
  have hpos := h.pos candidate hin
  rw [cut_one_self] at hpos
  have hmore : 0 < (s.requests candidate).remain_prefill_lens - chunk_size := hpos
  have hnil : result = [] := h.nothing (by omega)
  rw [hnil] at hin
  cases hin

theorem Budgeted.cons {candidate size : Nat} (hpos : 0 < size)
    (hsize : size = min (s.requests candidate).remain_prefill_lens left)
    (hcuts : CutsChunks wid chunk_id n (s.cut_one wid candidate queue size chunk_id) result s')
    (h : Budgeted (left - 2 * size) (s.cut_one wid candidate queue size chunk_id) result s') :
    Budgeted left s (candidate :: result) s' := by
  have hnot := not_taken_again hsize h
  have hself : s'.requests candidate = (s.requests candidate).cut_chunk size chunk_id := by
    rw [hcuts.other candidate hnot, cut_one_self]
  have hcurrent : (s'.requests candidate).current_prefill_lens = size := by
    rw [hself]
    rfl
  have hremain : (s'.requests candidate).remain_prefill_lens =
      (s.requests candidate).remain_prefill_lens - size := by
    rw [hself]
    rfl
  have hother : ∀ i ∈ result,
      (s.cut_one wid candidate queue size chunk_id).requests i = s.requests i := fun i hi =>
    cut_one_other queue size fun heq => hnot (heq ▸ hi)
  constructor
  · have htotal := h.total_le
    rw [List.map_cons, List.sum_cons, hcurrent]
    omega
  · intro hleft
    omega
  · intro i hi
    rcases List.mem_cons.mp hi with rfl | hi
    · omega
    · rw [← hother i hi]
      exact h.pos i hi
  · intro i hi
    rcases List.mem_cons.mp hi with rfl | hi
    · rw [hremain, hcurrent]
      omega
    · rw [← hother i hi]
      exact h.decreased i hi
  · intro i hi
    cases hresult : result with
    | nil => simp [hresult] at hi
    | cons j rest =>
      rw [hresult, List.dropLast_cons_of_ne_nil (List.cons_ne_nil j rest), ← hresult] at hi
      rcases List.mem_cons.mp hi with rfl | hi
      · have hmore : left - 2 * size ≠ 0 := fun hzero => by simp [h.nothing hzero] at hresult
        rw [hcurrent]
        omega
      · rw [← hother i (List.dropLast_subset _ hi)]
        exact h.whole i hi

/-- After a chunk the budget has lost its size twice. -/
theorem left_after_chunk (max chunk_size size : Nat) :
    max - size - (chunk_size + size) = max - chunk_size - 2 * size := by omega

theorem cut_chunks_budgeted (wid chunk_id n chunk_size max : Nat) (s : Sim) :
    Budgeted (max - chunk_size) s (cut_chunks true wid chunk_id n chunk_size max s).1
      (cut_chunks true wid chunk_id n chunk_size max s).2 := by
  induction n generalizing chunk_size max s with
  | zero => exact .nil
  | succ n ih =>
    cases hqueue : (s.workers wid).prefill_queue with
    | nil =>
      rw [cut_chunks_empty hqueue]
      exact .nil
    | cons candidate queue =>
      cases hbreaks : breaks true (sched_size true
        (s.requests candidate).remain_prefill_lens max chunk_size) max with
      | true =>
        rw [cut_chunks_breaks hqueue hbreaks]
        exact .nil
      | false =>
        have hpos : 0 < min (s.requests candidate).remain_prefill_lens (max - chunk_size) := by
          have hgo := mt breaks_iff.mpr (Bool.eq_false_iff.mp hbreaks)
          omega
        have hrest := ih (chunk_size + min (s.requests candidate).remain_prefill_lens
          (max - chunk_size)) (max - min (s.requests candidate).remain_prefill_lens
            (max - chunk_size)) (s.cut_one wid candidate queue
              (min (s.requests candidate).remain_prefill_lens (max - chunk_size)) chunk_id)
        rw [left_after_chunk] at hrest
        rw [cut_chunks_cons hqueue hbreaks]
        exact .cons hpos rfl (cut_chunks_cuts ..) hrest

/-! ## When the loop takes all candidates -/

/-- The sizes that are still to be cut from these requests. -/
def remaining (s : Sim) (items : List Nat) : List Nat :=
  items.map fun i => (s.requests i).remain_prefill_lens

theorem remaining_cut_one {candidate size : Nat} {items : List Nat} (h : candidate ∉ items) :
    (s.cut_one wid candidate queue size chunk_id).remaining items = s.remaining items := by
  apply List.map_congr_left
  intro i hi
  have hne : i ≠ candidate := fun heq => h (heq ▸ hi)
  rw [cut_one_other queue size hne]

/-- The loop takes one candidate after the other as long as twice the sizes before it are in
the budget. -/
theorem cut_chunks_takes_all (hlen : n < (s.workers wid).prefill_queue.length) :
    (cut_chunks true wid chunk_id (n + 1) chunk_size max s).1.length = n + 1 ↔
      ((s.workers wid).prefill_queue.take (n + 1)).Nodup ∧
      (∀ size ∈ s.remaining ((s.workers wid).prefill_queue.take (n + 1)), 0 < size) ∧
      2 * (s.remaining ((s.workers wid).prefill_queue.take n)).sum < max - chunk_size := by
  induction n generalizing chunk_size max s with
  | zero =>
    obtain ⟨candidate, queue, hqueue⟩ := List.exists_cons_of_ne_nil (List.ne_nil_of_length_pos hlen)
    cases hbreaks : breaks true (sched_size true
        (s.requests candidate).remain_prefill_lens max chunk_size) max with
    | true =>
      have hstop := breaks_iff.mp hbreaks
      rw [cut_chunks_breaks hqueue hbreaks, hqueue]
      simp [remaining]
      omega
    | false =>
      have hgo := mt breaks_iff.mpr (Bool.eq_false_iff.mp hbreaks)
      rw [cut_chunks_cons hqueue hbreaks, hqueue]
      simp [remaining, cut_chunks]
      omega
  | succ n ih =>
    obtain ⟨candidate, queue, hqueue⟩ := List.exists_cons_of_ne_nil
      (List.ne_nil_of_length_pos ((Nat.zero_le _).trans_lt hlen))
    have hlen' : n < queue.length := by
      rw [hqueue, List.length_cons] at hlen
      omega
    cases hbreaks : breaks true (sched_size true
        (s.requests candidate).remain_prefill_lens max chunk_size) max with
    | true =>
      have hstop := breaks_iff.mp hbreaks
      rw [cut_chunks_breaks hqueue hbreaks, hqueue, List.take_succ_cons, List.take_succ_cons]
      simp [remaining]
      omega
    | false =>
      have hgo := mt breaks_iff.mpr (Bool.eq_false_iff.mp hbreaks)
      generalize hsize : sched_size true (s.requests candidate).remain_prefill_lens max
        chunk_size = size
      have hmin : size = min (s.requests candidate).remain_prefill_lens (max - chunk_size) :=
        hsize.symm
      have hlen' : n < ((s.cut_one wid candidate queue size chunk_id).workers
          wid).prefill_queue.length := by rwa [cut_one_queue]
      have hrest := @ih (chunk_size + size) (max - size) _ hlen'
      rw [cut_one_queue, left_after_chunk] at hrest
      rw [cut_chunks_cons hqueue hbreaks]
      dsimp only
      rw [hsize, List.length_cons, Nat.succ_inj, hrest, hqueue, List.take_succ_cons,
        List.take_succ_cons, List.nodup_cons]
      constructor
      · rintro ⟨hnd, hpos, htwice⟩
        -- the candidate was cut whole, so it does not come again
        have hwhole : size = (s.requests candidate).remain_prefill_lens := by omega
        have hnot : candidate ∉ queue.take (n + 1) := fun hin => by
          have hmore := hpos _ (List.mem_map_of_mem hin)
          rw [cut_one_self] at hmore
          have hmore : 0 < (s.requests candidate).remain_prefill_lens - size := hmore
          omega
        have hbefore : candidate ∉ queue.take n := fun hin =>
          hnot (List.take_subset_take_left queue (Nat.le_succ n) hin)
        rw [remaining_cut_one hnot] at hpos
        rw [remaining_cut_one hbefore] at htwice
        have hcandidate : 0 < (s.requests candidate).remain_prefill_lens := by omega
        refine ⟨⟨hnot, hnd⟩, ?_, ?_⟩
        · intro more hmore
          rcases List.mem_cons.mp hmore with rfl | hmore
          · exact hcandidate
          · exact hpos more hmore
        · have hsum : (s.remaining (candidate :: queue.take n)).sum =
              (s.requests candidate).remain_prefill_lens + (s.remaining (queue.take n)).sum := rfl
          omega
      · rintro ⟨⟨hnot, hnd⟩, hpos, htwice⟩
        have hbefore : candidate ∉ queue.take n := fun hin =>
          hnot (List.take_subset_take_left queue (Nat.le_succ n) hin)
        rw [remaining_cut_one hnot, remaining_cut_one hbefore]
        have hsum : (s.remaining (candidate :: queue.take n)).sum =
            (s.requests candidate).remain_prefill_lens + (s.remaining (queue.take n)).sum := rfl
        exact ⟨hnd, fun more hmore => hpos more (List.mem_cons_of_mem _ hmore), by omega⟩

/-- Only a first request that is as large as the budget fills it. -/
theorem cut_chunks_fills {candidate : Nat} {queue : List Nat}
    (hqueue : (s.workers wid).prefill_queue = candidate :: queue) (hleft : 0 < max - chunk_size) :
    ((cut_chunks true wid chunk_id (n + 1) chunk_size max s).1.map fun i =>
        ((cut_chunks true wid chunk_id (n + 1) chunk_size max s).2.requests
          i).current_prefill_lens).sum = max - chunk_size ↔
      max - chunk_size ≤ (s.requests candidate).remain_prefill_lens := by
  cases hbreaks : breaks true (sched_size true
      (s.requests candidate).remain_prefill_lens max chunk_size) max with
  | true =>
    have hstop := breaks_iff.mp hbreaks
    rw [cut_chunks_breaks hqueue hbreaks]
    simp
    omega
  | false =>
    have hgo := mt breaks_iff.mpr (Bool.eq_false_iff.mp hbreaks)
    generalize hsize : sched_size true (s.requests candidate).remain_prefill_lens max
      chunk_size = size
    have hmin : size = min (s.requests candidate).remain_prefill_lens (max - chunk_size) :=
      hsize.symm
    have hbudget := cut_chunks_budgeted wid chunk_id n (chunk_size + size) (max - size)
      (s.cut_one wid candidate queue size chunk_id)
    have hcuts := cut_chunks_cuts true wid chunk_id n (chunk_size + size) (max - size)
      (s.cut_one wid candidate queue size chunk_id)
    rw [left_after_chunk] at hbudget
    rw [cut_chunks_cons hqueue hbreaks]
    dsimp only
    rw [hsize]
    have hnot := not_taken_again hmin hbudget
    have htotal := hbudget.total_le
    rw [List.map_cons, List.sum_cons, hcuts.other candidate hnot, cut_one_self]
    have hcurrent : ((s.requests candidate).cut_chunk size chunk_id).current_prefill_lens = size :=
      rfl
    rw [hcurrent]
    omega

/-! ## `_enter_prefill` of a first worker -/

/-- The size of the batch that the loop may take. -/
def max_request_size (c : Cluster) (s : Sim) (wid : Nat) : Nat :=
  min c.config.max_prefill_batch (s.workers wid).prefill_queue.length

/-- The loop of a first worker that cuts chunks, with the chunk id drawn. -/
def cut_batch (c : Cluster) (s : Sim) (wid : Nat) : List Nat × Sim :=
  cut_chunks true wid (c.uuids s.drawn) (max_request_size c s wid) 0 c.config.max_prefill_tokens
    { s with drawn := s.drawn + 1 }

section enter

variable (hfirst : (c.worker wid).pipe_rank = 0) (hchunked : c.config.enable_chunked_prefill = true)
include hfirst hchunked

theorem enter_prefill_cuts : (enter_prefill c s wid).1 = (cut_batch c s wid).1 ∧
    SameChunks (cut_batch c s wid).2 (enter_prefill c s wid).2 := by
  have hrank : ¬ (c.worker wid).pipe_rank ≠ 0 := not_not.mpr hfirst
  unfold enter_prefill
  dsimp only
  rw [if_neg hrank, hchunked]
  exact ⟨rfl, sameChunks_log _ _ _⟩

theorem scheduled_eq : scheduled c s wid =
    (cut_batch c s wid).1.map fun i => ((cut_batch c s wid).2.requests i).current_prefill_lens := by
  obtain ⟨hresult, hsame⟩ := enter_prefill_cuts hfirst hchunked (s := s)
  unfold scheduled
  rw [hresult]
  exact List.map_congr_left fun i _ => hsame.current i

/-- The total stays in the budget, all but the last request are scheduled whole, and what is
scheduled is taken off. -/
theorem cut_batch_budgeted : (scheduled c s wid).sum ≤ c.config.max_prefill_tokens ∧
    (∀ i ∈ (enter_prefill c s wid).1.dropLast,
      ((enter_prefill c s wid).2.requests i).current_prefill_lens =
        (s.requests i).remain_prefill_lens) ∧
    ∀ i ∈ (enter_prefill c s wid).1, (s.requests i).remain_prefill_lens =
      ((enter_prefill c s wid).2.requests i).remain_prefill_lens +
        ((enter_prefill c s wid).2.requests i).current_prefill_lens := by
  obtain ⟨hresult, hsame⟩ := enter_prefill_cuts hfirst hchunked (s := s)
  have hbudget := cut_chunks_budgeted wid (c.uuids s.drawn) (max_request_size c s wid) 0
    c.config.max_prefill_tokens { s with drawn := s.drawn + 1 }
  rw [scheduled_eq hfirst hchunked, hresult]
  refine ⟨hbudget.total_le, fun i hi => ?_, fun i hi => ?_⟩
  · rw [hsame.current]
    exact hbudget.whole i hi
  · rw [hsame.current, hsame.remain]
    exact hbudget.decreased i hi

/-- The queue was exhausted or the batch is full exactly when the loop took all candidates. -/
theorem exhausted_iff : (((enter_prefill c s wid).2.workers wid).prefill_queue = [] ∨
      (enter_prefill c s wid).1.length = c.config.max_prefill_batch) ↔
    (cut_batch c s wid).1.length = max_request_size c s wid := by
  obtain ⟨hresult, hsame⟩ := enter_prefill_cuts hfirst hchunked (s := s)
  have hcuts := cut_chunks_cuts true wid (c.uuids s.drawn) (max_request_size c s wid) 0
    c.config.max_prefill_tokens { s with drawn := s.drawn + 1 }
  have hqueue : (s.workers wid).prefill_queue = (cut_batch c s wid).1 ++
    ((cut_batch c s wid).2.workers wid).prefill_queue := hcuts.queue_eq
  have hle : (cut_batch c s wid).1.length ≤ max_request_size c s wid := hcuts.length_le
  have hlen := congrArg List.length hqueue
  rw [List.length_append] at hlen
  rw [hresult, hsame.workers, ← List.length_eq_zero_iff]
  unfold max_request_size at hle ⊢
  omega

end enter

/-- A first worker that cuts chunks fills its budget greedily exactly when its first request
fills it alone, or when all but the last of the requests it may take need less than half. -/
theorem the_budget_is_filled_iff (hfirst : (c.worker wid).pipe_rank = 0)
    (hchunked : c.config.enable_chunked_prefill = true)
    (hpos : ∀ i ∈ (s.workers wid).prefill_queue, 0 < (s.requests i).remain_prefill_lens) :
    FillsItsBudget c s wid ↔ BudgetIsNotHalved c s wid := by
  obtain ⟨htotal, hwhole, hdecreased⟩ := cut_batch_budgeted hfirst hchunked (s := s)
  have hexhausted := exhausted_iff hfirst hchunked (s := s)
  have hbudget : 0 < c.config.max_prefill_tokens := positive_or_default_pos _
  have hbatch : 0 < c.config.max_prefill_batch := positive_or_default_pos _
  have hfills : FillsItsBudget c s wid ↔ ((scheduled c s wid).sum < c.config.max_prefill_tokens →
      (cut_batch c s wid).1.length = max_request_size c s wid) := by
    rw [← hexhausted]
    exact ⟨fun h => h.filled, fun h => ⟨htotal, h, hwhole, hdecreased⟩⟩
  rw [hfills]
  unfold BudgetIsNotHalved
  dsimp only
  cases hqueue : (s.workers wid).prefill_queue with
  | nil =>
    -- there is nothing to take
    have hnone : (cut_batch c s wid).1.length = max_request_size c s wid := by
      unfold cut_batch
      rw [cut_chunks_empty (s := { s with drawn := s.drawn + 1 }) hqueue]
      simp [max_request_size, hqueue]
    simp [hnone, hbudget]
  | cons candidate queue =>
    obtain ⟨n, hn⟩ : ∃ n, max_request_size c s wid = n + 1 := by
      apply Nat.exists_eq_add_one.mpr
      rw [max_request_size, hqueue, List.length_cons]
      omega
    have hsize : min c.config.max_prefill_batch (candidate :: queue).length = n + 1 := by
      rw [← hn, max_request_size, hqueue]
    have hlen : n < (s.workers wid).prefill_queue.length := by
      rw [hqueue]
      omega
    have htakes := @cut_chunks_takes_all wid (c.uuids s.drawn) n 0 c.config.max_prefill_tokens
      { s with drawn := s.drawn + 1 } hlen
    have hfull := @cut_chunks_fills wid (c.uuids s.drawn) n 0 c.config.max_prefill_tokens
      { s with drawn := s.drawn + 1 } candidate queue hqueue hbudget
    have hsum : (scheduled c s wid).sum = c.config.max_prefill_tokens ↔
        c.config.max_prefill_tokens ≤ (s.requests candidate).remain_prefill_lens := by
      rw [scheduled_eq hfirst hchunked]
      unfold cut_batch
      rw [hn]
      exact hfull
    have htook : (cut_batch c s wid).1.length = n + 1 ↔
        ((candidate :: queue).take (n + 1)).Nodup ∧
        2 * (((candidate :: queue).take n).map fun i =>
          (s.requests i).remain_prefill_lens).sum < c.config.max_prefill_tokens := by
      have hall : ∀ size ∈ s.remaining ((candidate :: queue).take (n + 1)), 0 < size := by
        intro size hsize
        obtain ⟨i, hi, rfl⟩ := List.mem_map.mp hsize
        exact hpos i (hqueue ▸ List.mem_of_mem_take hi)
      unfold cut_batch
      rw [hn, htakes]
      dsimp only
      rw [hqueue]
      exact ⟨fun h => ⟨h.1, h.2.2⟩, fun h => ⟨h.1, hall, h.2⟩⟩
    rw [hn, hsize, Nat.add_sub_cancel, ← htook]
    have hhead : (∃ i, (candidate :: queue).head? = some i ∧
        c.config.max_prefill_tokens ≤ (s.requests i).remain_prefill_lens) ↔
        (scheduled c s wid).sum = c.config.max_prefill_tokens := by
      rw [hsum]
      simp
    rw [hhead]
    constructor
    · intro h
      rcases htotal.eq_or_lt with heq | hlt
      · exact Or.inl heq
      · exact Or.inr (h hlt)
    · rintro (heq | htaken) hlt
      · exact absurd heq hlt.ne
      · exact htaken

/-- One worker that prefills with a budget of 10 tokens, and one that decodes. -/
def ten_tokens : Cluster where
  config := {
    model_type := "OPT-13B"
    prefill_max_tokens := 10
    enable_chunked_prefill := true }
  profiles := opt_13b_profiles
  uuids := id
  PP_prefill := 1
  PP_decode := 1
  prefill_instances := [[⟨0, 0, true, 0, false⟩]]
  decode_instances := [[⟨1, 0, true, 1, true⟩]]
  all_workers := [⟨0, 0, true, 0, false⟩, ⟨1, 0, true, 1, true⟩]

example : DisaggCluster ten_tokens.config opt_13b_profiles id 1 1 1 1 = .ok ten_tokens := rfl

/-- Two requests with `a` and `b` tokens wait at the first worker. -/
def two_waiting (a b : Nat) : Sim where
  now := 0
  queue := []
  workers wid := ⟨if wid = 0 then [0, 1] else [], [], 0, 0, .created⟩
  requests i := .create (-1) (if i = 0 then a else b) 1
  drawn := 0

theorem two_waiting_pos {a b : Nat} (ha : 0 < a) (hb : 0 < b) :
    ∀ i ∈ ((two_waiting a b).workers 0).prefill_queue,
      0 < ((two_waiting a b).requests i).remain_prefill_lens := by
  simp [two_waiting, Request.create, ha, hb]

/-- Behind a request of 4 tokens, 2 of the request of 6 tokens are taken, and the queue is empty. -/
theorem four_and_six_empty_the_queue : FillsItsBudget ten_tokens (two_waiting 4 6) 0 :=
  (the_budget_is_filled_iff (show (ten_tokens.worker 0).pipe_rank = 0 from rfl) rfl
    (two_waiting_pos (by decide) (by decide))).mpr (Or.inr (by decide))

/-- With 6 tokens before it, nothing is taken of the second request, though 4 tokens are left. -/
theorem six_and_six_leave_four :
    ¬ ∀ c s wid, (c.worker wid).pipe_rank = 0 → c.config.enable_chunked_prefill = true →
      (∀ i ∈ (s.workers wid).prefill_queue, 0 < (s.requests i).remain_prefill_lens) →
      FillsItsBudget c s wid := by
  intro h
  have hfilled := (h ten_tokens (two_waiting 6 6) 0 rfl rfl
    (two_waiting_pos (by decide) (by decide))).filled
  exact absurd (hfilled (by decide)) (by decide)

end simdistserve.Sim
