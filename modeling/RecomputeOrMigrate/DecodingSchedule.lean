-- The laws of the decoding scheduler: what `get_next_batch` does to the queues,
-- and why it fits the GPU, although it counts blocks that are not allocated yet.
import RecomputeOrMigrate.BlockAccounts
import RecomputeOrMigrate.DecodingScheduler
import RecomputeOrMigrate.RequestGrowth

open calls counting

namespace distserve.DecodingStageFCFSScheduler

open BlockManager

/-! ## The batches -/

/-- The requests of all batches. -/
def batched (s : DecodingStageFCFSScheduler) : List Request :=
  s.batch_queues.flatMap BatchedRequests.requests

/-- One batch object for each stage of the pipeline. -/
def Shaped (s : DecodingStageFCFSScheduler) : Prop :=
  s.batch_queues.length = s.parallel_config.pipeline_parallel_size

theorem batch_eq {s : DecodingStageFCFSScheduler} {i : Nat} (hi : i < s.batch_queues.length) :
    s.batch i = s.batch_queues[i] := by
  simp [batch, List.getD_eq_getElem?_getD, hi]

theorem batch_of_le {s : DecodingStageFCFSScheduler} {i : Nat} (hi : s.batch_queues.length ≤ i) :
    s.batch i = .empty := by
  simp [batch, List.getD_eq_getElem?_getD, List.getElem?_eq_none hi]

theorem batch_setBatch_self {s : DecodingStageFCFSScheduler} {i : Nat}
    (hi : i < s.batch_queues.length) (b : BatchedRequests) : (s.setBatch i b).batch i = b := by
  simp [batch, setBatch, List.getD_eq_getElem?_getD, hi]

theorem batch_setBatch_ne (s : DecodingStageFCFSScheduler) {i j : Nat} (h : i ≠ j)
    (b : BatchedRequests) : (s.setBatch i b).batch j = s.batch j := by
  simp [batch, setBatch, List.getD_eq_getElem?_getD, List.getElem?_set_ne h]

theorem mem_batched {s : DecodingStageFCFSScheduler} {q : Request} :
    q ∈ s.batched ↔ ∃ i < s.batch_queues.length, q ∈ (s.batch i).requests := by
  unfold batched
  rw [List.mem_flatMap]
  constructor
  · rintro ⟨b, hb, hq⟩
    obtain ⟨i, hi, rfl⟩ := List.getElem_of_mem hb
    exact ⟨i, hi, by rwa [batch_eq hi]⟩
  · rintro ⟨i, hi, hq⟩
    rw [batch_eq hi] at hq
    exact ⟨_, List.getElem_mem hi, hq⟩

theorem mem_batched_of_mem {s : DecodingStageFCFSScheduler} {i : Nat} {q : Request}
    (h : q ∈ (s.batch i).requests) : q ∈ s.batched := by
  refine mem_batched.mpr ⟨i, ?_, h⟩
  by_contra hn
  rw [batch_of_le (Nat.not_lt.mp hn)] at h
  simp [BatchedRequests.empty] at h

/-- A batch that changes exchanges its old requests for its new ones. -/
theorem batched_setBatch {s : DecodingStageFCFSScheduler} {i : Nat}
    (hi : i < s.batch_queues.length) (b : BatchedRequests) :
    ((s.setBatch i b).batched ++ (s.batch i).requests).Perm (s.batched ++ b.requests) := by
  apply List.perm_iff_count.mpr
  intro q
  rw [List.count_append, List.count_append, batch_eq hi]
  exact count_flatMap_set BatchedRequests.requests hi b q

/-- A batch object that changes but keeps its requests. -/
theorem requests_setBatch {s : DecodingStageFCFSScheduler} {i : Nat} {b : BatchedRequests}
    (h : b.requests = (s.batch i).requests) (j : Nat) :
    ((s.setBatch i b).batch j).requests = (s.batch j).requests := by
  by_cases hj : i = j
  · subst hj
    by_cases hi : i < s.batch_queues.length
    · rw [batch_setBatch_self hi, h]
    · unfold setBatch
      rw [List.set_eq_of_length_le (Nat.not_lt.mp hi)]
  · rw [batch_setBatch_ne s hj]

theorem batched_setBatch_same {s : DecodingStageFCFSScheduler} {i : Nat}
    (hi : i < s.batch_queues.length) {b : BatchedRequests}
    (h : b.requests = (s.batch i).requests) : (s.setBatch i b).batched = s.batched := by
  unfold batched setBatch
  rw [List.flatMap_def, List.flatMap_def, List.map_set, h, batch_eq hi,
    ← List.map_set, List.set_getElem_self]

theorem batched_nodup_of_mem {s : DecodingStageFCFSScheduler}
    (h : (s.batched.map (·.request_id)).Nodup) {i : Nat} (hi : i < s.batch_queues.length) :
    ((s.batch i).requests.map (·.request_id)).Nodup := by
  rw [batch_eq hi]
  refine h.sublist (List.Sublist.map _ ?_)
  exact List.sublist_flatten_of_mem (List.mem_map_of_mem (List.getElem_mem hi))

/-- A request is in one batch only. -/
theorem batch_disjoint {s : DecodingStageFCFSScheduler} (h : (s.batched.map (·.request_id)).Nodup)
    {i j : Nat} (hij : i ≠ j) {q r : Request} (hq : q ∈ (s.batch i).requests)
    (hr : r ∈ (s.batch j).requests) : q.request_id ≠ r.request_id := by
  have hlt : ∀ {k : Nat} {a : Request}, a ∈ (s.batch k).requests → k < s.batch_queues.length :=
    fun ha => by
      by_contra hn
      rw [batch_of_le (Nat.not_lt.mp hn)] at ha
      simp [BatchedRequests.empty] at ha
  have hi := hlt hq
  have hj := hlt hr
  rw [batch_eq hi] at hq
  rw [batch_eq hj] at hr
  unfold batched at h
  rw [List.map_flatMap, List.nodup_flatMap] at h
  have hdis := List.pairwise_iff_getElem.mp h.2
  intro hid
  rcases Nat.lt_or_gt_of_ne hij with hlt | hlt
  · exact hdis i j hi hj hlt (List.mem_map_of_mem hq) (hid ▸ List.mem_map_of_mem hr)
  · exact hdis j i hj hi hlt (List.mem_map_of_mem hr) (hid ▸ List.mem_map_of_mem hq)

theorem needed_by_batches_eq {s : DecodingStageFCFSScheduler} (h : s.Shaped) :
    s.needed_by_batches = (s.batched.map s.needed).sum := by
  have hrange : (List.range s.parallel_config.pipeline_parallel_size).map s.batch =
      s.batch_queues := by
    rw [← h]
    apply List.ext_getElem (by simp)
    intro i h1 h2
    simp [batch_eq (s := s) (i := i) h2]
  have hsums : ((List.range s.parallel_config.pipeline_parallel_size).map fun index =>
      ((s.batch index).requests.map s.needed).sum) =
      s.batch_queues.map fun b => (b.requests.map s.needed).sum := by
    rw [← hrange, List.map_map]
    rfl
  unfold needed_by_batches batched
  rw [hsums, List.flatMap_def, List.map_flatten, List.sum_flatten, List.map_map, List.map_map]
  rfl

/-! ## The invariant -/

/-- Every request of the decoding stage grows and sends one token in each step. -/
def Growing (q : Request) : Prop := q.MayGrow ∧ 1 ≤ q.get_output_len

/-- The state of the scheduler while the requests `mig` are migrated. The blocks of
a batch are all that it needs, except for the batch `x`, which may have grown. -/
structure Kept (mig : List Request) (x : Nat) (s : DecodingStageFCFSScheduler) : Prop where
  shaped : s.Shaped
  accounts : Accounts s.block_manager
    ((mig ++ s.waiting_queue ++ s.batched).map (·.request_id))
    (s.swapped_queue.map (·.request_id))
  waiting_sizes : ∀ q ∈ mig ++ s.waiting_queue,
    s.block_manager.get_allocated_num_blocks q.request_id = s.get_block_needed q.get_input_len
  batch_sizes : ∀ q ∈ s.batched, s.block_manager.get_allocated_num_blocks q.request_id ≤ s.needed q
  grown_sizes : ∀ i, i ≠ x → ∀ q ∈ (s.batch i).requests,
    s.block_manager.get_allocated_num_blocks q.request_id = s.needed q
  swapped_sizes : ∀ q ∈ s.swapped_queue,
    s.block_manager.get_allocated_num_blocks q.request_id ≤ s.needed q
  growing : ∀ q ∈ mig ++ s.waiting_queue ++ s.batched ++ s.swapped_queue, Growing q
  limits : ∀ i, (s.batch i).requests.length ≤ s.max_batch_size ∧
    (s.batch i).requests.length ≤ s.max_tokens_per_batch

variable {mig : List Request} {x : Nat} {s s' : DecodingStageFCFSScheduler}

/-- A batch sends as many tokens as it has requests. -/
theorem num_input_tokens_eq {b : BatchedRequests} (h : ∀ q ∈ b.requests, Growing q) :
    b.get_num_input_tokens = b.requests.length := by
  unfold BatchedRequests.get_num_input_tokens
  rw [List.map_congr_left (g := fun _ => 1) fun q hq => Request.one_input_token (by
    have := (h q hq).2
    omega)]
  simp

theorem needed_by_waiting_eq (h : Kept mig x s) :
    s.needed_by_waiting = (s.waiting_queue.map fun q =>
      s.block_manager.get_allocated_num_blocks q.request_id).sum := by
  unfold needed_by_waiting
  exact congrArg List.sum (List.map_congr_left fun q hq =>
    (h.waiting_sizes q (List.mem_append_right _ hq)).symm)

theorem Kept.batched_nodup (h : Kept mig x s) : (s.batched.map (·.request_id)).Nodup := by
  have hnd := h.accounts.nodup.of_append_left
  rw [List.map_append] at hnd
  exact hnd.of_append_right

/-- The ids of the requests that wait are apart from those in the batches, and the ids of the
swapped requests from both. -/
theorem Kept.waiting_apart (h : Kept mig x s) :
    ((mig ++ s.waiting_queue).map (·.request_id)).Disjoint (s.batched.map (·.request_id)) := by
  have hnd := h.accounts.nodup.of_append_left
  rw [List.map_append] at hnd
  exact (List.nodup_append'.mp hnd).2.2

theorem Kept.swapped_apart (h : Kept mig x s) :
    ((mig ++ s.waiting_queue ++ s.batched).map (·.request_id)).Disjoint
      (s.swapped_queue.map (·.request_id)) :=
  (List.nodup_append'.mp h.accounts.nodup).2.2

/-- The GPU blocks that are not available belong to the waiting queue, the batches
and the migrated requests. -/
theorem Kept.avail (h : Kept mig x s) :
    s.block_manager.get_num_avail_blocks .GPU +
      (mig.map fun q => s.block_manager.get_allocated_num_blocks q.request_id).sum +
      s.needed_by_waiting +
      (s.batched.map fun q => s.block_manager.get_allocated_num_blocks q.request_id).sum =
    s.block_manager.max_num_gpu_blocks := by
  have := h.accounts.avail_gpu
  simp only [List.map_append, List.map_map, List.sum_append] at this
  rw [needed_by_waiting_eq h]
  simp only [Function.comp_def] at this
  omega

/-- What the batches need beyond the blocks that they have. -/
theorem Kept.growth (h : Kept mig x s) :
    s.needed_by_batches =
      (s.batched.map fun q => s.block_manager.get_allocated_num_blocks q.request_id).sum +
      (s.batched.map fun q => s.needed q -
        s.block_manager.get_allocated_num_blocks q.request_id).sum := by
  rw [needed_by_batches_eq h.shaped, ← List.sum_map_add]
  refine congrArg List.sum (List.map_congr_left fun q hq => ?_)
  have := h.batch_sizes q hq
  omega

/-- When the batch that may have grown is empty, the requests fit. -/
theorem Kept.not_over (h : Kept mig x s) (hx : (s.batch x).requests = []) : ¬ s.overcommitted := by
  have hzero : (s.batched.map fun q => s.needed q -
      s.block_manager.get_allocated_num_blocks q.request_id).sum = 0 := by
    rw [List.sum_eq_zero_iff]
    intro n hn
    obtain ⟨q, hq, rfl⟩ := List.mem_map.mp hn
    obtain ⟨i, -, hqi⟩ := mem_batched.mp hq
    have hi : i ≠ x := by
      rintro rfl
      rw [hx] at hqi
      simp at hqi
    rw [h.grown_sizes i hi q hqi]
    omega
  have h1 := h.avail
  have h2 := h.growth
  unfold overcommitted
  omega

/-! ## Requests that change their queue -/

/-- The scheduler with other requests in the current batch and in the two queues. -/
def rearranged (s : DecodingStageFCFSScheduler) (rs swapped waiting : List Request)
    (m : BlockManager) : DecodingStageFCFSScheduler :=
  { s.setBatch s.cur { s.batch s.cur with requests := rs } with
    swapped_queue := swapped, waiting_queue := waiting, block_manager := m }

/-- `s'` is `s` after requests moved between the current batch, the swapped queue and
the waiting queue. The block manager only swapped some of them. -/
structure Reschedules (s s' : DecodingStageFCFSScheduler) : Prop where
  same : ∃ rs, s' = s.rearranged rs s'.swapped_queue s'.waiting_queue s'.block_manager
  perm : ((s'.batch s.cur).requests ++ s'.swapped_queue ++ s'.waiting_queue).Perm
    ((s.batch s.cur).requests ++ s.swapped_queue ++ s.waiting_queue)
  owned : ∀ r ∉ ((s.batch s.cur).requests ++ s.swapped_queue ++ s.waiting_queue).map
    (·.request_id), s'.block_manager.owned r = s.block_manager.owned r
  cache_config : s'.block_manager.cache_config = s.block_manager.cache_config
  max_num_blocks : s'.block_manager.max_num_blocks = s.block_manager.max_num_blocks
  upkeep : OnlyCalls IsUpkeep s.block_manager s'.block_manager

section Rearranged

variable {rs swapped waiting : List Request} {m : BlockManager}

theorem batch_rearranged_self (hcur : s.cur < s.batch_queues.length) :
    (s.rearranged rs swapped waiting m).batch s.cur = { s.batch s.cur with requests := rs } :=
  batch_setBatch_self hcur _

theorem batch_rearranged_ne {i : Nat} (hi : i ≠ s.cur) :
    (s.rearranged rs swapped waiting m).batch i = s.batch i :=
  batch_setBatch_ne s hi.symm _

variable (rs swapped waiting m) in
theorem batched_rearranged (hcur : s.cur < s.batch_queues.length) :
    ((s.rearranged rs swapped waiting m).batched ++ (s.batch s.cur).requests).Perm
      (s.batched ++ rs) := batched_setBatch hcur _

theorem shaped_rearranged (h : s.Shaped) : (s.rearranged rs swapped waiting m).Shaped := by
  unfold Shaped rearranged setBatch
  rw [List.length_set]
  exact h

theorem needed_congr_manager (h : s'.block_manager.cache_config = s.block_manager.cache_config)
    (q : Request) : s'.needed q = s.needed q := by
  unfold needed get_block_needed
  rw [h]

theorem blocks_for_le (c : CacheConfig) {a b : Nat} (h : a ≤ b) : c.blocks_for a ≤ c.blocks_for b :=
  Nat.div_le_div_right (by omega)

/-- The invariant stays when requests move between the current batch and the queues
and no request gets or loses blocks. -/
theorem Kept.rearrange (h : Kept mig s.cur s) (hcur : s.cur < s.batch_queues.length)
    (hperm : (rs ++ swapped ++ waiting).Perm
      ((s.batch s.cur).requests ++ s.swapped_queue ++ s.waiting_queue))
    (hswapped : ∀ q ∈ swapped, q ∈ (s.batch s.cur).requests ++ s.swapped_queue)
    (hwaiting : ∀ q ∈ waiting, q ∈ s.waiting_queue)
    (haccounts : Accounts m ((mig ++ waiting ++
      (s.rearranged rs swapped waiting m).batched).map (·.request_id))
        (swapped.map (·.request_id)))
    (halloc : ∀ r, m.get_allocated_num_blocks r = s.block_manager.get_allocated_num_blocks r)
    (hcc : m.cache_config = s.block_manager.cache_config)
    (hsize : rs.length ≤ s.max_batch_size) (htokens : rs.length ≤ s.max_tokens_per_batch) :
    Kept mig s.cur (s.rearranged rs swapped waiting m) := by
  have hneed : ∀ q, (s.rearranged rs swapped waiting m).needed q = s.needed q :=
    needed_congr_manager hcc
  have hblock : ∀ n, (s.rearranged rs swapped waiting m).get_block_needed n =
      s.get_block_needed n := fun n => congrArg (CacheConfig.blocks_for · n) hcc
  have hmem : ∀ q ∈ rs, q ∈ s.batched ++ s.swapped_queue ++ s.waiting_queue := by
    intro q hq
    have := hperm.mem_iff.mp (List.mem_append_left _ (List.mem_append_left _ hq))
    simp only [List.mem_append] at this ⊢
    exact this.imp (Or.imp mem_batched_of_mem id) id
  have hbatched : ∀ q ∈ (s.rearranged rs swapped waiting m).batched,
      q ∈ s.batched ++ s.swapped_queue ++ s.waiting_queue := by
    intro q hq
    have := (batched_rearranged _ _ _ _ hcur).mem_iff.mp (List.mem_append_left _ hq)
    rcases List.mem_append.mp this with hq | hq
    · simp [hq]
    · exact hmem q hq
  have hle : ∀ q ∈ s.batched ++ s.swapped_queue ++ s.waiting_queue,
      s.block_manager.get_allocated_num_blocks q.request_id ≤ s.needed q := by
    intro q hq
    simp only [List.mem_append] at hq
    rcases hq with (hq | hq) | hq
    · exact h.batch_sizes q hq
    · exact h.swapped_sizes q hq
    · rw [h.waiting_sizes q (List.mem_append_right _ hq)]
      exact blocks_for_le _ (Nat.le_add_right _ _)
  refine ⟨shaped_rearranged h.shaped, haccounts, ?_, ?_, ?_, ?_, ?_, ?_⟩
  · intro q hq
    rw [hblock, ← h.waiting_sizes q (by
      simp only [List.mem_append] at hq ⊢
      exact hq.imp id (hwaiting q))]
    exact halloc _
  · intro q hq
    rw [hneed]
    exact (halloc _).trans_le (hle q (hbatched q hq))
  · intro i hi q hq
    rw [batch_rearranged_ne hi] at hq
    rw [hneed]
    exact (halloc _).trans (h.grown_sizes i hi q hq)
  · intro q hq
    rw [hneed]
    refine (halloc _).trans_le (hle q ?_)
    have := hswapped q hq
    simp only [List.mem_append] at this ⊢
    exact Or.inl (this.imp mem_batched_of_mem id)
  · intro q hq
    apply h.growing
    simp only [List.mem_append] at hq hbatched hswapped ⊢
    rcases hq with ((hq | hq) | hq) | hq
    · exact Or.inl (Or.inl (Or.inl hq))
    · exact Or.inl (Or.inl (Or.inr (hwaiting q hq)))
    · have := hbatched q hq
      tauto
    · have := (hswapped q hq).imp mem_batched_of_mem id
      tauto
  · intro i
    by_cases hi : i = s.cur
    · subst hi
      rw [batch_rearranged_self hcur]
      exact ⟨hsize, htokens⟩
    · rw [batch_rearranged_ne hi]
      exact h.limits i

end Rearranged

/-- A second rearrangement leaves nothing of the first. -/
theorem rearranged_rearranged (hcur : s.cur < s.batch_queues.length)
    (rs rs' sw sw' w w' : List Request) (m m' : BlockManager) :
    (s.rearranged rs sw w m).rearranged rs' sw' w' m' = s.rearranged rs' sw' w' m' := by
  have hb : (s.rearranged rs sw w m).batch (s.rearranged rs sw w m).cur =
      { s.batch s.cur with requests := rs } := batch_rearranged_self hcur
  rw [rearranged, hb]
  simp only [rearranged, setBatch, cur, List.set_set]

theorem Reschedules.refl (s : DecodingStageFCFSScheduler) : Reschedules s s where
  same := by
    have : s.batch_queues.set s.cur (s.batch s.cur) = s.batch_queues := by
      by_cases hi : s.cur < s.batch_queues.length
      · rw [batch_eq hi, List.set_getElem_self]
      · rw [List.set_eq_of_length_le (Nat.not_lt.mp hi)]
    refine ⟨(s.batch s.cur).requests, ?_⟩
    unfold rearranged setBatch
    rw [this]
  perm := List.Perm.refl _
  owned _ _ := rfl
  cache_config := rfl
  max_num_blocks := rfl
  upkeep := OnlyCalls.refl _ _

theorem Reschedules.cur (h : Reschedules s s') : s'.cur = s.cur := by
  obtain ⟨rs, hs⟩ := h.same
  rw [hs]
  rfl

theorem Reschedules.trans {s1 s2 : DecodingStageFCFSScheduler}
    (hcur : s.cur < s.batch_queues.length) (h : Reschedules s s1) (h' : Reschedules s1 s2) :
    Reschedules s s2 where
  same := by
    obtain ⟨rs1, h1⟩ := h.same
    obtain ⟨rs2, h2⟩ := h'.same
    refine ⟨rs2, h2.trans ?_⟩
    rw [h1, rearranged_rearranged hcur]
  perm := by
    have h1 := h.perm
    have h2 := h'.perm
    rw [h.cur] at h2
    exact h2.trans h1
  owned r hr := by
    have hr1 : r ∉ ((s1.batch s1.cur).requests ++ s1.swapped_queue ++ s1.waiting_queue).map
        (·.request_id) := by
      rw [h.cur]
      exact fun hc => hr (((h.perm.map _).mem_iff).mp hc)
    rw [h'.owned r hr1, h.owned r hr]
  cache_config := h'.cache_config.trans h.cache_config
  max_num_blocks := h'.max_num_blocks.trans h.max_num_blocks
  upkeep := h.upkeep.trans h'.upkeep

/-! ## The loop that swaps out -/

/-- The exception of a swap-out that finds too few CPU blocks. -/
def CpuShortage (err : PyError) : Prop :=
  ∃ m q, swap_out_requests [q] m = .error err m ∧
    m.get_num_avail_blocks .CPU < m.get_allocated_num_blocks q.request_id ∧
    err = .not_enough_free_blocks .CPU (m.get_allocated_num_blocks q.request_id)
      (m.get_num_avail_blocks .CPU)

/-- One turn takes the last request of the current batch. -/
theorem swap_out_turn (h : Kept mig s.cur s) (hcur : s.cur < s.batch_queues.length)
    {init : List Request} {q : Request} (hlast : (s.batch s.cur).requests = init ++ [q]) :
    (∃ err, CpuShortage err ∧
      swap_out_requests [q] s.block_manager = .error err s.block_manager) ∨
    ∃ m, swap_out_requests [q] s.block_manager = .ok () m ∧
      Kept mig s.cur (s.rearranged init (s.swapped_queue ++ [q]) s.waiting_queue m) ∧
      Reschedules s (s.rearranged init (s.swapped_queue ++ [q]) s.waiting_queue m) := by
  have hbatched : ∀ m, s.batched.Perm (q ::
      (s.rearranged init (s.swapped_queue ++ [q]) s.waiting_queue m).batched) := fun m => by
    apply List.perm_iff_count.mpr
    intro a
    have := (batched_rearranged init (s.swapped_queue ++ [q]) s.waiting_queue m hcur).count_eq a
    rw [hlast] at this
    simp only [List.count_append, List.count_cons, List.count_nil] at this ⊢
    omega
  have hgpu : ∀ m, ((mig ++ s.waiting_queue ++ s.batched).map (·.request_id)).Perm
      (q.request_id :: (mig ++ s.waiting_queue ++ (s.rearranged init (s.swapped_queue ++ [q])
        s.waiting_queue m).batched).map (·.request_id)) := fun m => by
    exact ((List.Perm.append_left _ (hbatched m)).trans List.perm_middle).map (·.request_id)
  rcases (h.accounts.perm (hgpu s.block_manager) (List.Perm.refl _)).swap_out q with
    ⟨hlt, he⟩ | ⟨m, he, hacc, hrel⟩
  · exact Or.inl ⟨_, ⟨s.block_manager, q, he, hlt, rfl⟩, he⟩
  · have hsize := h.limits s.cur
    rw [hlast, List.length_append, List.length_singleton] at hsize
    have hperm : (init ++ (s.swapped_queue ++ [q]) ++ s.waiting_queue).Perm
        ((s.batch s.cur).requests ++ s.swapped_queue ++ s.waiting_queue) := by
      rw [hlast]
      apply List.perm_iff_count.mpr
      intro a
      simp only [List.count_append]
      omega
    refine Or.inr ⟨m, he, h.rearrange hcur hperm ?_ (fun _ hq => hq) ?_
      (hrel.allocated_eq h.accounts.same_keys hacc.same_keys) hrel.cache_config (by omega)
      (by omega), ⟨⟨init, rfl⟩, ?_, ?_, hrel.cache_config, hrel.max_num_blocks, hrel.upkeep⟩⟩
    · intro a ha
      rw [hlast]
      simp only [List.mem_append, List.mem_singleton] at ha ⊢
      tauto
    · apply hacc.perm (List.Perm.refl _)
      rw [List.map_append, List.map_singleton]
      exact (List.perm_append_singleton _ _).symm
    · rw [batch_rearranged_self hcur]
      exact hperm
    · intro r hr
      refine hrel.others r fun hc => hr ?_
      simp [hlast, hc]

/-- The first loop only moves requests of the current batch to the swapped queue. -/
structure SwapsOut (s s' : DecodingStageFCFSScheduler) : Prop where
  waiting : s'.waiting_queue = s.waiting_queue
  from_batch : (s'.batch s.cur).requests ++ s'.swapped_queue ⊆
    (s.batch s.cur).requests ++ s.swapped_queue

theorem swaps_out_turn (hcur : s.cur < s.batch_queues.length) {init : List Request} {q : Request}
    (hlast : (s.batch s.cur).requests = init ++ [q]) (m : BlockManager) :
    SwapsOut s (s.rearranged init (s.swapped_queue ++ [q]) s.waiting_queue m) := by
  refine ⟨rfl, ?_⟩
  rw [batch_rearranged_self hcur, hlast]
  intro a ha
  simp only [rearranged, List.mem_append, List.mem_singleton] at ha ⊢
  tauto

/-- The loop ends with requests that fit. It pops no empty batch: without the
current batch, all requests have their blocks. -/
theorem swap_out_loop_gives (turns : Nat) (s : DecodingStageFCFSScheduler)
    (h : Kept mig s.cur s) (hcur : s.cur < s.batch_queues.length)
    (hturns : turns = (s.batch s.cur).requests.length) :
    Gives (swap_out_loop turns s)
      (fun s' => Kept mig s.cur s' ∧ ¬ s'.overcommitted ∧ Reschedules s s' ∧ SwapsOut s s')
      CpuShortage := by
  induction turns generalizing s with
  | zero =>
    have hn := h.not_over (List.length_eq_zero_iff.mp hturns.symm)
    unfold swap_out_loop
    rw [if_neg hn]
    exact ⟨h, hn, Reschedules.refl s, rfl, fun _ => id⟩
  | succ turns ih =>
    unfold swap_out_loop
    split
    · next hover =>
      obtain ⟨init, q, hlast⟩ := List.eq_nil_or_concat (s.batch s.cur).requests |>.resolve_left
        (fun hc => by rw [hc] at hturns; cases hturns)
      rw [List.concat_eq_append] at hlast
      simp only [hlast, List.getLast?_concat, List.dropLast_concat]
      rcases swap_out_turn h hcur hlast with ⟨err, herr, he⟩ | ⟨m, he, hk, hr⟩
      · exact gives_error_bind (run_eq_error.mpr ⟨_, he⟩) herr
      · apply gives_ok_bind (run_eq_ok.mpr he)
        let s1 := s.rearranged init (s.swapped_queue ++ [q]) s.waiting_queue m
        have hlen : turns = (s1.batch s1.cur).requests.length := by
          refine Eq.trans ?_ (congrArg (fun b => b.requests.length)
            (batch_rearranged_self hcur).symm)
          rw [hlast, List.length_append, List.length_singleton] at hturns
          exact Nat.succ.inj hturns
        have hout := swaps_out_turn hcur hlast m
        refine (ih _ hk ?_ hlen).imp (fun s' ⟨h1, h2, h3, h4⟩ => ⟨h1, h2, hr.trans hcur h3,
          h4.waiting.trans hout.waiting, fun _ ha => hout.from_batch (h4.from_batch ha)⟩)
          fun _ => id
        exact hcur.trans_eq (List.length_set).symm
    · next hn => exact ⟨h, hn, Reschedules.refl s, rfl, fun _ => id⟩

/-! ## The loop that adds requests -/

/-- The test of the scheduler in terms of the invariant. -/
theorem room_of_check (h : Kept mig x s) {q : Request} (hq : Growing q)
    (hc : s.check_add_to_cur_batch q = true) :
    (s.batch s.cur).requests.length + 1 ≤ s.max_batch_size ∧
      (s.batch s.cur).requests.length + 1 ≤ s.max_tokens_per_batch ∧
      s.needed_by_batches + s.needed_by_waiting + s.needed q ≤
        s.block_manager.max_num_gpu_blocks := by
  simp only [check_add_to_cur_batch, Bool.and_eq_true, decide_eq_true_eq] at hc
  obtain ⟨⟨hsize, htokens⟩, hblocks⟩ := hc
  have hbatch : ∀ a ∈ (s.batch s.cur).requests, Growing a := fun a ha =>
    h.growing a (by simp [mem_batched_of_mem ha])
  rw [num_input_tokens_eq hbatch, Request.one_input_token (by have := hq.2; omega)] at htokens
  exact ⟨hsize, htokens, hblocks⟩

section Admit

variable {q : Request} {swapped waiting : List Request} {m : BlockManager}

variable (q swapped waiting m) in
theorem batched_admitted (hcur : s.cur < s.batch_queues.length) :
    (s.rearranged ((s.batch s.cur).requests ++ [q]) swapped waiting m).batched.Perm
      (q :: s.batched) := by
  apply List.perm_iff_count.mpr
  intro a
  have := (batched_rearranged ((s.batch s.cur).requests ++ [q]) swapped waiting m hcur).count_eq a
  simp only [List.count_append, List.count_cons, List.count_nil] at this ⊢
  omega

theorem needed_admitted (h : s.Shaped) (hcur : s.cur < s.batch_queues.length)
    (hcc : m.cache_config = s.block_manager.cache_config) :
    (s.rearranged ((s.batch s.cur).requests ++ [q]) swapped waiting m).needed_by_batches =
      s.needed_by_batches + s.needed q := by
  rw [needed_by_batches_eq (shaped_rearranged h), needed_by_batches_eq h,
    ((batched_admitted q swapped waiting m hcur).map _).sum_eq, List.map_cons, List.sum_cons,
    Nat.add_comm]
  have hneed : (s.rearranged ((s.batch s.cur).requests ++ [q]) swapped waiting m).needed =
      s.needed := funext fun a => needed_congr_manager hcc a
  rw [hneed]

/-- The batch does not have the request yet. -/
theorem add_request_eq (h : Kept mig x s) (hq : q ∈ s.swapped_queue ∨ q ∈ s.waiting_queue) :
    (s.batch s.cur).add_request q =
      .ok { s.batch s.cur with requests := (s.batch s.cur).requests ++ [q] } := by
  have hnew : q.request_id ∉ (s.batch s.cur).get_request_ids := by
    intro hc
    obtain ⟨a, ha, hid⟩ := List.mem_map.mp hc
    have hbatched := mem_batched_of_mem ha
    rcases hq with hq | hq
    · exact h.swapped_apart (List.mem_map_of_mem (List.mem_append_right _ hbatched))
        (hid ▸ List.mem_map_of_mem hq)
    · exact h.waiting_apart (List.mem_map_of_mem (List.mem_append_right _ hq))
        (hid ▸ List.mem_map_of_mem hbatched)
  unfold BatchedRequests.add_request
  rw [if_neg hnew]
  rfl

end Admit

/-- A turn that swaps the first request of the swapped queue in. -/
theorem swap_in_turn (h : Kept [] s.cur s) (hcur : s.cur < s.batch_queues.length)
    {q : Request} {rest : List Request} (hs : s.swapped_queue = q :: rest)
    (hc : s.check_add_to_cur_batch q = true) :
    ∃ m, swap_in_requests [q] s.block_manager = .ok () m ∧
      Kept [] s.cur (s.rearranged ((s.batch s.cur).requests ++ [q]) rest s.waiting_queue m) ∧
      ¬ (s.rearranged ((s.batch s.cur).requests ++ [q]) rest s.waiting_queue m).overcommitted ∧
      Reschedules s (s.rearranged ((s.batch s.cur).requests ++ [q]) rest s.waiting_queue m) := by
  obtain ⟨hsize, htokens, hblocks⟩ := room_of_check h (h.growing q (by simp [hs])) hc
  have havail := h.avail
  have hgrowth := h.growth
  have hq := h.swapped_sizes q (by simp [hs])
  obtain ⟨m, he, hacc, hrel⟩ := Accounts.swap_in q (by simpa [hs] using h.accounts)
    (by simp only [List.map_nil, List.sum_nil] at havail; omega)
  have hperm : ((s.batch s.cur).requests ++ [q] ++ rest ++ s.waiting_queue).Perm
      ((s.batch s.cur).requests ++ s.swapped_queue ++ s.waiting_queue) := by
    rw [hs]
    simp
  refine ⟨m, he, h.rearrange hcur hperm ?_ (fun _ hq => hq) ?_
    (hrel.allocated_eq h.accounts.same_keys hacc.same_keys) hrel.cache_config (by simpa using hsize)
    (by simpa using htokens), ?_, ⟨⟨_, rfl⟩, ?_, ?_, hrel.cache_config, hrel.max_num_blocks,
      hrel.upkeep⟩⟩
  · intro a ha
    simp [hs, ha]
  · refine hacc.perm ?_ (List.Perm.refl _)
    have hadmitted := List.Perm.append_left s.waiting_queue
      (batched_admitted q rest s.waiting_queue m hcur)
    have hp := (hadmitted.trans List.perm_middle).map (·.request_id)
    simpa using hp.symm
  · unfold overcommitted
    rw [needed_admitted h.shaped hcur hrel.cache_config]
    have hw : (s.rearranged ((s.batch s.cur).requests ++ [q]) rest s.waiting_queue
        m).needed_by_waiting = s.needed_by_waiting :=
      congrArg List.sum (List.map_congr_left fun a _ =>
        congrArg (CacheConfig.blocks_for · a.get_input_len) hrel.cache_config)
    rw [hw]
    have hmax := max_num_gpu_blocks_congr hrel.max_num_blocks
    change ¬ m.max_num_gpu_blocks < _
    omega
  · rw [batch_rearranged_self hcur]
    exact hperm
  · intro r hr
    refine hrel.others r fun hc => hr ?_
    simp [hs, hc]

/-- A turn that takes the first request of the waiting queue. -/
theorem take_waiting_turn (h : Kept [] s.cur s) (hcur : s.cur < s.batch_queues.length)
    {q : Request} {rest : List Request} (hw : s.waiting_queue = q :: rest)
    (hc : s.check_add_to_cur_batch q = true) :
    let s' := s.rearranged ((s.batch s.cur).requests ++ [q]) s.swapped_queue rest s.block_manager
    Kept [] s.cur s' ∧ ¬ s'.overcommitted ∧ Reschedules s s' := by
  intro s'
  obtain ⟨hsize, htokens, hblocks⟩ := room_of_check h (h.growing q (by simp [hw])) hc
  have hperm : ((s.batch s.cur).requests ++ [q] ++ s.swapped_queue ++ rest).Perm
      ((s.batch s.cur).requests ++ s.swapped_queue ++ s.waiting_queue) := by
    rw [hw]
    apply List.perm_iff_count.mpr
    intro a
    simp only [List.count_append, List.count_cons, List.count_nil]
    omega
  refine ⟨h.rearrange hcur hperm (fun a ha => List.mem_append_right _ ha) ?_ ?_ (fun _ => rfl) rfl
    (by simpa using hsize) (by simpa using htokens), ?_,
    ⟨⟨_, rfl⟩, ?_, fun _ _ => rfl, rfl, rfl, OnlyCalls.refl _ _⟩⟩
  · intro a ha
    simp [hw, ha]
  · refine h.accounts.perm ?_ (List.Perm.refl _)
    apply List.Perm.map _
    rw [hw]
    apply List.perm_middle.symm.trans
    exact List.Perm.append_left rest (batched_admitted _ _ _ _ hcur).symm
  · have hnw : s.needed_by_waiting = s.get_block_needed q.get_input_len + s'.needed_by_waiting := by
      unfold needed_by_waiting
      rw [hw, List.map_cons, List.sum_cons]
      rfl
    unfold overcommitted
    rw [needed_admitted h.shaped hcur rfl]
    change ¬ s.block_manager.max_num_gpu_blocks < _
    omega
  · rw [batch_rearranged_self hcur]
    exact hperm

/-- The second loop only takes requests from the two queues. -/
def Admits (s s' : DecodingStageFCFSScheduler) : Prop :=
  s'.swapped_queue ⊆ s.swapped_queue ∧ s'.waiting_queue ⊆ s.waiting_queue

/-- The loop raises nothing and keeps the requests within the GPU. -/
theorem admit_loop_gives (turns : Nat) (s : DecodingStageFCFSScheduler) (h : Kept [] s.cur s)
    (hcur : s.cur < s.batch_queues.length) (hover : ¬ s.overcommitted) :
    Gives (admit_loop turns s)
      (fun s' => Kept [] s.cur s' ∧ ¬ s'.overcommitted ∧ Reschedules s s' ∧ Admits s s')
      fun _ => False := by
  have hstop : Kept [] s.cur s ∧ ¬ s.overcommitted ∧ Reschedules s s ∧ Admits s s :=
    ⟨h, hover, Reschedules.refl s, List.Subset.refl _, List.Subset.refl _⟩
  induction turns generalizing s with
  | zero => exact hstop
  | succ turns ih =>
    unfold admit_loop
    split
    · next q rest hs =>
      split
      · next hc =>
        obtain ⟨m, he, hk, ho, hr⟩ := swap_in_turn h hcur hs hc
        have hadd := add_request_eq h (q := q) (Or.inl (by simp [hs]))
        refine gives_ok_bind (run_eq_ok.mpr he) (gives_ok_bind hadd ?_)
        refine (ih (s.rearranged ((s.batch s.cur).requests ++ [q]) rest s.waiting_queue m) hk
          (hcur.trans_eq (List.length_set).symm) ho
          ⟨hk, ho, Reschedules.refl _, List.Subset.refl _, List.Subset.refl _⟩).imp ?_ fun _ => id
        refine fun s' ⟨h1, h2, h3, h4⟩ => ⟨h1, h2, hr.trans hcur h3, ?_, h4.2⟩
        exact fun _ ha => hs ▸ List.mem_cons_of_mem _ (h4.1 ha)
      · exact hstop
    · next q rest hs hw =>
      split
      · next hc =>
        obtain ⟨hk, ho, hr⟩ := take_waiting_turn h hcur hw hc
        have hadd := add_request_eq h (q := q) (Or.inr (by simp [hw]))
        apply gives_ok_bind hadd
        refine (ih (s.rearranged ((s.batch s.cur).requests ++ [q]) s.swapped_queue rest
          s.block_manager) hk (hcur.trans_eq (List.length_set).symm) ho
          ⟨hk, ho, Reschedules.refl _, List.Subset.refl _, List.Subset.refl _⟩).imp ?_ fun _ => id
        refine fun s' ⟨h1, h2, h3, h4⟩ => ⟨h1, h2, hr.trans hcur h3, h4.1, ?_⟩
        exact fun _ ha => hw ▸ List.mem_cons_of_mem _ (h4.2 ha)
      · exact hstop
    · exact hstop

/-! ## `get_next_batch` -/

theorem next_index_lt (s : DecodingStageFCFSScheduler) :
    s.last_stage_index < s.parallel_config.pipeline_parallel_size := by
  have hpos := s.parallel_config.pipeline_parallel_size_pos
  have h1 := Int.emod_nonneg (s.cur_index + 1)
    (b := s.parallel_config.pipeline_parallel_size) (by omega)
  have h2 := Int.emod_lt_of_pos (s.cur_index + 1)
    (b := s.parallel_config.pipeline_parallel_size) (by omega)
  unfold last_stage_index next_index
  omega

/-- The scheduler with its index at the next batch. -/
def turned (s : DecodingStageFCFSScheduler) : DecodingStageFCFSScheduler :=
  { s with cur_index := s.next_index }

theorem turned_lt (h : s.Shaped) : s.turned.cur < s.turned.batch_queues.length := by
  have := s.next_index_lt
  rw [← h] at this
  exact this

/-- What `get_next_batch` does: no request begins to wait, and those that are swapped out
come from the batch. -/
structure Schedules (s s' : DecodingStageFCFSScheduler) : Prop extends
    Reschedules s.turned s' where
  waiting : s'.waiting_queue ⊆ s.waiting_queue
  swapped : s'.swapped_queue ⊆ (s.batch s.last_stage_index).requests ++ s.swapped_queue

/-- `get_next_batch` returns requests that fit, or a swap-out finds too few CPU
blocks. -/
theorem get_next_batch_gives (h : Kept [] s.last_stage_index s) :
    Gives s.get_next_batch
      (fun s' => Kept [] s.last_stage_index s' ∧ ¬ s'.overcommitted ∧ Schedules s s')
      CpuShortage := by
  have hcur := turned_lt h.shaped
  have hk : Kept [] s.turned.cur s.turned := ⟨h.shaped, h.accounts, h.waiting_sizes,
    h.batch_sizes, h.grown_sizes, h.swapped_sizes, h.growing, h.limits⟩
  unfold get_next_batch
  apply gives_bind (swap_out_loop_gives _ s.turned hk hcur rfl)
  rintro s1 ⟨hk1, ho1, hr1, hout⟩
  have hlen : s1.batch_queues.length = s.turned.batch_queues.length := by
    rw [hk1.shaped]
    obtain ⟨rs, hs1⟩ := hr1.same
    rw [hs1]
    exact hk.shaped.symm
  have hc1 : s1.cur = s.turned.cur := hr1.cur
  refine (admit_loop_gives _ s1 (hc1 ▸ hk1) (by rw [hc1, hlen]; exact hcur) ho1).imp ?_
    fun _ hf => hf.elim
  rintro s2 ⟨hk2, ho2, hr2, hin⟩
  rw [hc1] at hk2
  exact ⟨hk2, ho2, hr1.trans hcur hr2, fun _ ha => hout.waiting ▸ hin.2 ha,
    fun _ ha => hout.from_batch (List.mem_append_right _ (hin.1 ha))⟩

end distserve.DecodingStageFCFSScheduler
