-- The invariant of the decoding engine: the scheduler, the pipeline and the block
-- manager agree, also after a batch went to the workers.
import RecomputeOrMigrate.DecodingEngine
import RecomputeOrMigrate.DecodingSchedule
import RecomputeOrMigrate.General.Rotation

open calls runs rotation

namespace distserve.DecodingStageLLMEngine

open BlockManager DecodingStageFCFSScheduler

/-! ## The invariant -/

/-- The request that is being migrated, as it came from the bridge queue. -/
def in_migration (e : DecodingStageLLMEngine) : List MigratingRequest :=
  match e.point with
  | .migrating migrating_req => [migrating_req]
  | _ => []

theorem migrating_eq (e : DecodingStageLLMEngine) : e.migrating = e.in_migration.map (·.req) := by
  cases hp : e.point <;> simp [migrating, in_migration, hp]

theorem present_eq (e : DecodingStageLLMEngine) :
    e.present = (e.scheduler.unaccepted_queue ++ e.in_migration).map (·.req.request_id) ++
      (e.scheduler.waiting_queue ++ e.scheduler.batched ++ e.scheduler.swapped_queue).map
        (·.request_id) := by
  unfold present
  rw [migrating_eq]
  simp only [List.map_append, List.map_map, List.append_assoc]
  rfl

/-- The scheduler keeps its accounts, and the pipeline is the last batches that the
scheduler's index passed. -/
structure Core (e : DecodingStageLLMEngine) : Prop where
  kept : Kept e.migrating e.scheduler.last_stage_index e.scheduler
  parallel_config : e.scheduler.parallel_config = e.parallel_config
  nodup : e.present.Nodup
  handed : ∀ mr ∈ e.scheduler.unaccepted_queue ++ e.in_migration,
    HandedOver e.block_manager.cache_config mr
  phase : e.batches_in_pipeline = passed e.parallel_config.pipeline_parallel_size
    e.scheduler.cur_index e.batches_in_pipeline.length
  room : e.batches_in_pipeline.length ≤ e.parallel_config.pipeline_parallel_size
  futures : List.Forall₂ (fun i f => FutureOf (e.scheduler.batch i) f) e.batches_in_pipeline
    e.batches_ret_futures
  started : ∀ i, (e.scheduler.batch i).start_time ≠ none → i ∈ e.batches_in_pipeline

/-- The futures belong to the same batches as long as those do not change. -/
theorem futures_congr {s s' : DecodingStageFCFSScheduler} {indexes : List Nat}
    {futures : List (Option RemoteCall)}
    (h : List.Forall₂ (fun i f => FutureOf (s.batch i) f) indexes futures)
    (hb : ∀ i ∈ indexes, s'.batch i = s.batch i) :
    List.Forall₂ (fun i f => FutureOf (s'.batch i) f) indexes futures := by
  induction h with
  | nil => exact .nil
  | cons hif _ ih =>
    refine .cons ?_ (ih fun i hi => hb i (List.mem_cons_of_mem _ hi))
    rw [hb _ List.mem_cons_self]
    exact hif

/-- How full the pipeline is at each await point. -/
def AtPoint (e : DecodingStageLLMEngine) : Prop :=
  match e.point with
  | .sleeping => True
  | .awaiting => e.batches_in_pipeline.length = e.parallel_config.pipeline_parallel_size ∧
      ∃ c rest, e.batches_ret_futures = some c :: rest
  | _ => e.batches_in_pipeline.length < e.parallel_config.pipeline_parallel_size

structure Sound (e : DecodingStageLLMEngine) : Prop extends Core e where
  at_point : AtPoint e

theorem batched_create (pc : ParallelConfig) (cc : CacheConfig) (b t : Nat) (w : ℚ) (g c : Nat) :
    (create pc cc b t w g c).scheduler.batched = [] := by
  simp [batched, create, BatchedRequests.empty]

theorem core_create (pc : ParallelConfig) (cc : CacheConfig) (b t : Nat) (w : ℚ) (g c : Nat) :
    Core (create pc cc b t w g c) := by
  have hbatch : ∀ i, ((create pc cc b t w g c).scheduler.batch i) = .empty := by
    intro i
    simp only [batch, create, List.getD_eq_getElem?_getD, List.getElem?_replicate]
    split <;> rfl
  have hbatched := batched_create pc cc b t w g c
  refine ⟨⟨?_, ?_, ?_, ?_, ?_, ?_, ?_, ?_⟩, rfl, ?_, ?_, rfl, Nat.zero_le _, .nil, ?_⟩
  · simp [Shaped, create]
  · rw [hbatched]
    exact accounts_create g c cc
  · simp [create, migrating]
  · rw [hbatched]
    simp
  · intro i _ q hq
    rw [hbatch] at hq
    simp [BatchedRequests.empty] at hq
  · simp [create]
  · rw [hbatched]
    simp [create, migrating]
  · intro i
    rw [hbatch]
    exact ⟨Nat.zero_le _, Nat.zero_le _⟩
  · change (List.map _ ([] ++ (create pc cc b t w g c).scheduler.batched ++ [])).Nodup
    rw [hbatched]
    simp
  · simp [create, in_migration]
  · intro i hi
    rw [hbatch] at hi
    exact absurd rfl hi

theorem sound_create (pc : ParallelConfig) (cc : CacheConfig) (b t : Nat) (w : ℚ) (g c : Nat) :
    Sound (create pc cc b t w g c) :=
  ⟨core_create pc cc b t w g c, pc.pipeline_parallel_size_pos⟩

/-! ## The next batch goes into the pipeline -/

/-- A batch after it went to the workers. Without requests it does not start. -/
def sent (rs : List Request) (now : Nat) : BatchedRequests :=
  ⟨rs, if rs = [] then none else some now⟩

/-- The engine after the scheduler became `s'` and the current batch got its blocks
in `m`. -/
def pushed (e : DecodingStageLLMEngine) (s' : DecodingStageFCFSScheduler) (m : BlockManager)
    (now : Nat) : DecodingStageLLMEngine :=
  let rs := (s'.batch s'.cur).requests
  { e with
    scheduler :=
      { s'.setBatch s'.cur (sent rs now) with block_manager := m.sendStep rs }
    batches_in_pipeline := e.batches_in_pipeline ++ [s'.cur]
    batches_ret_futures := e.batches_ret_futures ++ [if rs = [] then none else some (m.stepCall rs)]
    worker_request_ids := e.worker_request_ids.map fun (worker, ids) =>
      (worker, ids ∪ (rs.map (·.request_id)).toFinset)
    point := if rs = [] then .sleeping else .idle }

/-- What the first part of a step does. -/
structure Pushed (e : DecodingStageLLMEngine) (now : Nat) (s' : DecodingStageFCFSScheduler)
    (m : BlockManager) (e' : DecodingStageLLMEngine) : Prop where
  schedules : Schedules e.scheduler s'
  kept : Kept [] e.scheduler.last_stage_index s'
  fits : ¬ s'.overcommitted
  allocated : Allocated s'.block_manager (s'.batch s'.cur).requests m
  accounts : Accounts m ((s'.waiting_queue ++ s'.batched).map (·.request_id))
    (s'.swapped_queue.map (·.request_id))
  same : e' = e.pushed s' m now

/-- The blocks that the current batch still needs are available. -/
theorem room_for_batch {s : DecodingStageFCFSScheduler} {x : Nat} (h : Kept [] x s)
    (ho : ¬ s.overcommitted) (hcur : s.cur < s.batch_queues.length) :
    (((s.batch s.cur).requests).map fun q => s.block_manager.get_num_blocks_needed q -
      s.block_manager.get_allocated_num_blocks q.request_id).sum ≤
      s.block_manager.get_num_avail_blocks .GPU := by
  have hsub : (s.batch s.cur).requests.Sublist s.batched := by
    rw [batch_eq hcur]
    exact List.sublist_flatten_of_mem (List.mem_map_of_mem (List.getElem_mem hcur))
  have hle := (hsub.map fun q => s.needed q -
    s.block_manager.get_allocated_num_blocks q.request_id).sum_le_sum fun _ _ => Nat.zero_le _
  have h1 := h.avail
  have h2 := h.growth
  unfold overcommitted at ho
  change ((s.batch s.cur).requests.map fun q => s.needed q -
    s.block_manager.get_allocated_num_blocks q.request_id).sum ≤ _
  simp only [List.map_nil, List.sum_nil] at h1
  omega

/-- The current batch gets its blocks, all on the GPU. -/
theorem batch_allocates {s : DecodingStageFCFSScheduler} {x : Nat} (h : Kept [] x s)
    (ho : ¬ s.overcommitted) (hcur : s.cur < s.batch_queues.length) :
    ∃ m, allocate_blocks_batched (s.batch s.cur).requests s.block_manager = .ok () m ∧
      is_all_requests_on_gpu (s.batch s.cur).requests m = .ok true m ∧
      get_partial_block_table (s.batch s.cur).get_request_ids m =
        .ok ((s.batch s.cur).get_request_ids.map m.tableOf) m ∧
      Allocated s.block_manager (s.batch s.cur).requests m ∧
      Accounts m ((s.waiting_queue ++ s.batched).map (·.request_id))
        (s.swapped_queue.map (·.request_id)) := by
  have hsub : ∀ q ∈ (s.batch s.cur).requests, q.request_id ∈
      (s.waiting_queue ++ s.batched).map (·.request_id) := fun q hq =>
    List.mem_map_of_mem (List.mem_append_right _ (mem_batched_of_mem hq))
  have hnd : ((s.waiting_queue ++ s.batched).map (·.request_id) ++
    s.swapped_queue.map (·.request_id)).Nodup := h.accounts.nodup
  obtain ⟨m, he, hal, hacc⟩ := h.accounts.allocate_batched (s.batch s.cur).requests
    (batched_nodup_of_mem h.batched_nodup hcur)
    (fun q hq hc => h.swapped_apart (hsub q hq) hc)
    (room_for_batch h ho hcur)
  have hacc' := hacc _ hnd.of_append_left fun r => by
    refine ⟨Or.inl, ?_⟩
    rintro (hr | hr)
    · exact hr
    · obtain ⟨q, hq, rfl⟩ := List.mem_map.mp hr
      exact hsub q hq
  refine ⟨m, he, hacc'.all_on_gpu hsub, get_partial_block_table_eq fun r hr => ?_, hal, hacc'⟩
  obtain ⟨q, hq, rfl⟩ := List.mem_map.mp hr
  exact (hacc'.mem_table _).mpr (Or.inl (hsub q hq))

/-- The batches of a scheduler that was rescheduled: only the current one changed,
and only its requests. -/
theorem reschedules_batch {s s' : DecodingStageFCFSScheduler} (h : Reschedules s s')
    (hcur : s.cur < s.batch_queues.length) :
    (∀ i, i ≠ s.cur → s'.batch i = s.batch i) ∧
      (s'.batch s.cur).start_time = (s.batch s.cur).start_time ∧
      s'.batch_queues.length = s.batch_queues.length ∧
      s'.parallel_config = s.parallel_config ∧ s'.cur_index = s.cur_index ∧
      s'.unaccepted_queue = s.unaccepted_queue := by
  obtain ⟨rs, hs⟩ := h.same
  rw [hs]
  refine ⟨fun i hi => batch_rearranged_ne hi, ?_, List.length_set, rfl, rfl, rfl⟩
  rw [batch_rearranged_self hcur]

/-- A swap-out of `get_next_batch` finds too few CPU blocks. -/
def SwapOutFails (e : DecodingStageLLMEngine) (err : PyError) : Prop :=
  e.scheduler.get_next_batch = .error err ∧ CpuShortage err

/-- The first part of a step returns, unless a swap-out fails. -/
theorem push_next_batch_gives {e : DecodingStageLLMEngine} (h : Sound e) (hp : e.point = .idle)
    (now : Nat) :
    Gives (e.push_next_batch now) (fun r => ∃ s' m, Pushed e now s' m r.1 ∧
      r.2 = (s'.batch s'.cur).requests.map fun q =>
        .engine_on_new_lifetime_event q.request_id .DecodingBegin true) (SwapOutFails e) := by
  have hmig : e.migrating = [] := by simp [migrating, hp]
  have hk := h.kept
  rw [hmig] at hk
  have hroom : e.batches_in_pipeline.length < e.parallel_config.pipeline_parallel_size := by
    have := h.at_point
    simpa [AtPoint, hp] using this
  unfold push_next_batch
  apply gives_bind (get_next_batch_gives hk).error_eq
  rintro s' ⟨hk', ho, hr⟩
  have hcur0 := turned_lt hk.shaped
  obtain ⟨-, hstart, hlen, -⟩ := reschedules_batch hr.toReschedules hcur0
  have hcur : s'.cur < s'.batch_queues.length := by
    rw [hr.cur, hlen]
    exact hcur0
  -- the batch is not in the pipeline yet, so it has not started
  have hstart' : (s'.batch s'.cur).start_time = none := by
    rw [hr.cur, hstart]
    by_contra hc
    have hmem := h.started _ hc
    rw [h.phase] at hmem
    refine next_notMem (c := e.scheduler.cur_index)
      e.parallel_config.pipeline_parallel_size_pos hroom ?_
    rw [← h.parallel_config] at hmem ⊢
    exact hmem
  have hbatch : s'.batch s'.cur = ⟨(s'.batch s'.cur).requests, none⟩ := by
    rw [← hstart']
  by_cases hrs : (s'.batch s'.cur).requests = []
  · have hset : s'.setBatch s'.cur ⟨[], none⟩ = s' := by
      rw [hrs] at hbatch
      rw [← hbatch, batch_eq hcur, setBatch, List.set_getElem_self]
    refine gives_congr (if_pos (by simpa using hrs)) (gives_pure ?_)
    refine ⟨s', s'.block_manager, ⟨hr, hk', ho, ?_, ?_, ?_⟩, by rw [hrs]; rfl⟩
    · rw [hrs]
      exact Allocated.refl _
    · simpa using hk'.accounts
    · simp [pushed, sent, hrs, hset, sendStep]
  · obtain ⟨m, he, hgpu, htab, hal, hacc⟩ := batch_allocates hk' ho hcur
    have hstep : (s'.batch s'.cur).start_one_iteration now =
        .ok ⟨(s'.batch s'.cur).requests, some now⟩ := by
      unfold BatchedRequests.start_one_iteration
      rw [if_pos hstart']
      rfl
    apply gives_congr (if_neg (by simpa using hrs))
    apply gives_ok_bind (run_eq_ok.mpr he)
    apply gives_ok_bind (run_eq_ok.mpr hgpu)
    apply gives_ok_bind hstep
    apply gives_ok_bind (run_eq_ok.mpr htab)
    refine gives_pure ⟨s', m, ⟨hr, hk', ho, hal, hacc, ?_⟩, rfl⟩
    simp only [pushed, sent, hrs, if_false, sendStep, BatchedRequests.get_request_ids, List.map_map]
    rw [show e.point = .idle from hp]
    rfl

section Pushed

variable {e e' : DecodingStageLLMEngine} {now : Nat} {s' : DecodingStageFCFSScheduler}
  {m : BlockManager}

theorem Pushed.scheduler (h : Pushed e now s' m e') :
    e'.scheduler = { s'.setBatch s'.cur (sent (s'.batch s'.cur).requests now) with
      block_manager := m.sendStep (s'.batch s'.cur).requests } := by
  rw [h.same]
  rfl

/-- All batches have the blocks that they need after the push. -/
theorem Pushed.kept_push (h : Pushed e now s' m e') (hcur : s'.cur < s'.batch_queues.length)
    (x : Nat) : Kept [] x e'.scheduler := by
  have hk := h.kept
  have hidx : s'.cur = e.scheduler.last_stage_index := h.schedules.cur
  have hcc : e'.scheduler.block_manager.cache_config = s'.block_manager.cache_config := by
    rw [h.scheduler]
    exact (cache_config_sendStep _).trans h.allocated.cache_config
  have hneed : ∀ q, e'.scheduler.needed q = s'.needed q := needed_congr_manager hcc
  have halloc : e'.scheduler.block_manager.get_allocated_num_blocks =
      m.get_allocated_num_blocks := by
    rw [h.scheduler]
    exact get_allocated_num_blocks_sendStep _
  have hbatched : e'.scheduler.batched = s'.batched := by
    rw [h.scheduler]
    exact batched_setBatch_same hcur rfl
  have hbatch : ∀ i, (e'.scheduler.batch i).requests = (s'.batch i).requests := fun i => by
    rw [h.scheduler]
    exact requests_setBatch (b := sent (s'.batch s'.cur).requests now) rfl i
  have hwaiting : e'.scheduler.waiting_queue = s'.waiting_queue := by rw [h.scheduler]; rfl
  have hswapped : e'.scheduler.swapped_queue = s'.swapped_queue := by rw [h.scheduler]; rfl
  have hothers : ∀ q ∈ s'.waiting_queue ++ s'.batched ++ s'.swapped_queue,
      q ∉ (s'.batch s'.cur).requests → m.get_allocated_num_blocks q.request_id =
        s'.block_manager.get_allocated_num_blocks q.request_id := by
    intro q hq hqc
    have hnd := hk.accounts.nodup
    rw [← List.map_append] at hnd
    refine allocated_congr hk.accounts.same_keys h.accounts.same_keys (h.allocated.others _ ?_)
    intro hc
    obtain ⟨q', hq', hid⟩ := List.mem_map.mp hc
    have hmem : q' ∈ [] ++ s'.waiting_queue ++ s'.batched ++ s'.swapped_queue := by
      simp [mem_batched_of_mem hq']
    exact hqc (List.inj_on_of_nodup_map hnd hmem hq hid ▸ hq')
  have hsizes : ∀ q ∈ s'.batched, m.get_allocated_num_blocks q.request_id = s'.needed q := by
    intro q hq
    obtain ⟨i, -, hqi⟩ := mem_batched.mp hq
    by_cases hqc : q ∈ (s'.batch s'.cur).requests
    · rw [h.allocated.allocated q hqc]
      exact max_eq_left (hk.batch_sizes q hq)
    · rw [hothers q (by simp [hq]) hqc]
      refine hk.grown_sizes i ?_ q hqi
      rintro rfl
      rw [hidx] at hqc
      exact hqc hqi
  refine ⟨?_, ?_, ?_, ?_, ?_, ?_, ?_, ?_⟩
  · rw [h.scheduler]
    exact (List.length_set).trans hk.shaped
  · rw [hbatched, hwaiting, hswapped, h.scheduler]
    exact h.accounts.sendStep _
  · intro q hq
    rw [hwaiting] at hq
    have hqc : q ∉ (s'.batch s'.cur).requests := fun hc =>
      hk.waiting_apart (List.mem_map_of_mem hq) (List.mem_map_of_mem (mem_batched_of_mem hc))
    rw [halloc, hothers q (List.mem_append_left _ (List.mem_append_left _ hq)) hqc,
      hk.waiting_sizes q hq]
    exact (congrArg (CacheConfig.blocks_for · q.get_input_len) hcc).symm
  · rw [hbatched, halloc]
    exact fun q hq => (hsizes q hq).trans_le (hneed q).ge
  · intro i _ q hq
    rw [hbatch] at hq
    rw [halloc, hneed]
    exact hsizes q (mem_batched_of_mem hq)
  · intro q hq
    rw [hswapped] at hq
    have hqc : q ∉ (s'.batch s'.cur).requests := fun hc =>
      hk.swapped_apart (List.mem_map_of_mem (List.mem_append_right _ (mem_batched_of_mem hc)))
        (List.mem_map_of_mem hq)
    rw [halloc, hneed, hothers q (List.mem_append_right _ hq) hqc]
    exact hk.swapped_sizes q hq
  · rw [hbatched, hwaiting, hswapped]
    exact hk.growing
  · intro i
    rw [hbatch, h.scheduler]
    exact hk.limits i

/-- The requests of the decoding stage only change their queue. -/
theorem Pushed.perm (h : Pushed e now s' m e')
    (hcur : e.scheduler.turned.cur < e.scheduler.turned.batch_queues.length) :
    (e'.scheduler.waiting_queue ++ e'.scheduler.batched ++ e'.scheduler.swapped_queue).Perm
      (e.scheduler.waiting_queue ++ e.scheduler.batched ++ e.scheduler.swapped_queue) := by
  obtain ⟨rs, hs⟩ := h.schedules.same
  have hperm := h.schedules.perm
  have hcur' : s'.cur < s'.batch_queues.length := by
    rw [h.schedules.cur, (reschedules_batch h.schedules.toReschedules hcur).2.2.1]
    exact hcur
  have hrs : (s'.batch s'.cur).requests = rs := by
    rw [hs]
    exact congrArg BatchedRequests.requests (batch_rearranged_self hcur)
  have hb : (s'.batched ++ (e.scheduler.turned.batch e.scheduler.turned.cur).requests).Perm
      (e.scheduler.turned.batched ++ (s'.batch s'.cur).requests) := by
    rw [hrs, hs]
    exact batched_rearranged _ _ _ _ hcur
  have hw : e'.scheduler.waiting_queue = s'.waiting_queue := by rw [h.scheduler]; rfl
  have hsw : e'.scheduler.swapped_queue = s'.swapped_queue := by rw [h.scheduler]; rfl
  have hb' : e'.scheduler.batched = s'.batched := by
    rw [h.scheduler]
    exact batched_setBatch_same hcur' rfl
  apply List.perm_iff_count.mpr
  intro q
  have h1 := hperm.count_eq q
  have h2 := hb.count_eq q
  rw [h.schedules.cur] at h2
  rw [hw, hsw, hb']
  change _ = (e.scheduler.turned.waiting_queue ++ e.scheduler.turned.batched ++
    e.scheduler.turned.swapped_queue).count q
  simp only [List.count_append] at h1 h2 ⊢
  omega

theorem Pushed.point (h : Pushed e now s' m e') : e'.point = .sleeping ∨ e'.point = .idle := by
  rw [h.same]
  unfold pushed
  by_cases hrs : (s'.batch s'.cur).requests = [] <;> simp [hrs]

theorem Pushed.cur_eq (hs : Core e) (h : Pushed e now s' m e') :
    s'.cur = ((e.scheduler.cur_index + 1) % e.parallel_config.pipeline_parallel_size).toNat := by
  rw [h.schedules.cur, ← hs.parallel_config]
  rfl

theorem Pushed.cur_lt (hs : Core e) (h : Pushed e now s' m e') :
    s'.cur < s'.batch_queues.length := by
  have hsame := reschedules_batch h.schedules.toReschedules (turned_lt hs.kept.shaped)
  rw [h.schedules.cur, hsame.2.2.1]
  exact turned_lt hs.kept.shaped

theorem Pushed.pipeline (h : Pushed e now s' m e') :
    e'.batches_in_pipeline = e.batches_in_pipeline ++ [s'.cur] := by
  rw [h.same]
  rfl

/-- The batch that goes to the workers is not with them yet. -/
theorem Pushed.cur_notMem (hs : Sound e) (hp : e.point = .idle) (h : Pushed e now s' m e') :
    s'.cur ∉ e.batches_in_pipeline := by
  have hroom : e.batches_in_pipeline.length < e.parallel_config.pipeline_parallel_size := by
    have := hs.at_point
    simpa [AtPoint, hp] using this
  rw [hs.phase, h.cur_eq hs.toCore]
  exact next_notMem e.parallel_config.pipeline_parallel_size_pos hroom

theorem Pushed.batch_ne (hs : Core e) (h : Pushed e now s' m e') {i : Nat} (hi : i ≠ s'.cur) :
    e'.scheduler.batch i = e.scheduler.batch i := by
  rw [h.scheduler]
  apply (batch_setBatch_ne s' (Ne.symm hi) _).trans
  have hsame := reschedules_batch h.schedules.toReschedules (turned_lt hs.kept.shaped)
  exact hsame.1 i (h.schedules.cur ▸ hi)

theorem Pushed.batch_cur (hs : Core e) (h : Pushed e now s' m e') :
    e'.scheduler.batch s'.cur = sent (s'.batch s'.cur).requests now := by
  rw [h.scheduler]
  exact batch_setBatch_self (h.cur_lt hs) _

theorem Pushed.core (hs : Sound e) (hp : e.point = .idle) (h : Pushed e now s' m e') :
    Core e' := by
  have hroom : e.batches_in_pipeline.length < e.parallel_config.pipeline_parallel_size := by
    have := hs.at_point
    simpa [AtPoint, hp] using this
  have hcur := turned_lt hs.kept.shaped
  obtain ⟨-, -, -, hpc, hidx, hun⟩ := reschedules_batch h.schedules.toReschedules hcur
  have hpc' : e'.parallel_config = e.parallel_config := by rw [h.same]; rfl
  have hmig : e'.migrating = [] ∧ e'.in_migration = [] := by
    rcases h.point with hp' | hp' <;> simp [migrating, in_migration, hp']
  have hunacc : e'.scheduler.unaccepted_queue = e.scheduler.unaccepted_queue := by
    rw [h.scheduler]
    exact hun
  have hcc : e'.block_manager.cache_config = e.block_manager.cache_config := by
    unfold block_manager
    rw [h.scheduler]
    exact (cache_config_sendStep _).trans
      (h.allocated.cache_config.trans h.schedules.cache_config)
  refine ⟨?_, ?_, ?_, ?_, ?_, ?_, ?_, ?_⟩
  · rw [hmig.1]
    exact h.kept_push (h.cur_lt hs.toCore) _
  · rw [h.scheduler, hpc', ← hs.parallel_config]
    exact hpc
  · refine (List.Perm.nodup_iff (List.Perm.map _ ?_)).mpr hs.nodup
    rw [hmig.1, hunacc, List.append_nil, show e.migrating = [] by simp [migrating, hp],
      List.append_nil]
    simp only [List.append_assoc]
    apply List.Perm.append_left _
    have := h.perm hcur
    rwa [List.append_assoc, List.append_assoc] at this
  · rw [hmig.2, hunacc, hcc, List.append_nil]
    exact fun mr hmr => hs.handed mr (List.mem_append_left _ hmr)
  · have hidx' : e'.scheduler.cur_index =
        (e.scheduler.cur_index + 1) % e.parallel_config.pipeline_parallel_size := by
      rw [h.scheduler, ← hs.parallel_config]
      exact hidx
    rw [h.pipeline, hpc', hidx', List.length_append, List.length_singleton, passed_push, ← hs.phase,
      h.cur_eq hs.toCore]
  · rw [h.pipeline, hpc', List.length_append, List.length_singleton]
    exact hroom
  · have hfut : e'.batches_ret_futures = e.batches_ret_futures ++
        [if (s'.batch s'.cur).requests = [] then none
          else some (m.stepCall (s'.batch s'.cur).requests)] := by rw [h.same]; rfl
    rw [h.pipeline, hfut]
    refine List.rel_append ?_ (.cons ?_ .nil)
    · refine futures_congr hs.futures fun i hi => h.batch_ne hs.toCore ?_
      rintro rfl
      exact h.cur_notMem hs hp hi
    · rw [h.batch_cur hs.toCore]
      by_cases hrs : (s'.batch s'.cur).requests = []
      · simp [sent, hrs, FutureOf]
      · simp only [sent, hrs, if_false]
        exact ⟨hrs, by simp, _, _, _, rfl⟩
  · intro i hi
    rw [h.pipeline, List.mem_append, List.mem_singleton]
    by_cases hic : i = s'.cur
    · exact Or.inr hic
    · rw [h.batch_ne hs.toCore hic] at hi
      exact Or.inl (hs.started i hi)

end Pushed

/-! ## The test for a full pipeline -/

/-- `e'` is `e` after the test: a batch without requests may have left. -/
structure Checked (e e' : DecodingStageLLMEngine) : Prop where
  same : e' = { e with
    batches_in_pipeline := e'.batches_in_pipeline
    batches_ret_futures := e'.batches_ret_futures
    point := e'.point }
  pipeline : e'.batches_in_pipeline = e.batches_in_pipeline ∨
    ∃ i, e.batches_in_pipeline = i :: e'.batches_in_pipeline ∧ (e.scheduler.batch i).requests = []
  point : e'.point = .idle ∨ e'.point = .awaiting

/-- The core looks at the point only to find the migrated request. -/
theorem Core.withPoint {e : DecodingStageLLMEngine} (h : Core e) (hp : e.in_migration = [])
    (point : DecodingPoint) (hpoint : in_migration { e with point } = []) :
    Core { e with point } := by
  have hmig : e.migrating = [] := by rw [migrating_eq, hp]; rfl
  have hmig' : migrating { e with point } = [] := by rw [migrating_eq, hpoint]; rfl
  have hpresent : present { e with point } = e.present := by
    unfold present
    rw [hmig, hmig']
  exact ⟨by rw [hmig', ← hmig]; exact h.kept, h.parallel_config, by rw [hpresent]; exact h.nodup,
    by rw [hpoint, ← hp]; exact h.handed, h.phase, h.room, h.futures, h.started⟩

theorem check_pipeline_cases {e : DecodingStageLLMEngine} (h : Core e)
    (hp : e.in_migration = []) : ∃ e', e.check_pipeline = .ok e' ∧ Sound e' ∧ Checked e e' := by
  have hlen := h.futures.length_eq
  unfold check_pipeline
  split
  · next hfull =>
    have hpos := e.parallel_config.pipeline_parallel_size_pos
    cases hf : e.batches_ret_futures with
    | nil =>
      rw [hf, List.length_nil] at hlen
      omega
    | cons f futures =>
      have hfs := h.futures
      rw [hf] at hfs
      cases hb : e.batches_in_pipeline with
      | nil => rw [hb] at hfs; cases hfs
      | cons i rest =>
        rw [hb] at hfs
        cases hfs with
        | cons hif hrest =>
          cases f with
          | none =>
            have hcore := h.withPoint hp .idle rfl
            have hphase := h.phase
            have hroom := h.room
            rw [hb] at hphase hroom
            rw [List.length_cons] at hroom
            refine ⟨_, rfl, ⟨⟨hcore.kept, hcore.parallel_config, hcore.nodup, hcore.handed,
              rest_eq_passed hphase, Nat.le_of_succ_le hroom, hrest, ?_⟩, hroom⟩,
              ⟨rfl, Or.inr ⟨i, hb, hif.1⟩, Or.inl rfl⟩⟩
            intro j hj
            have hmem := h.started j hj
            rw [hb] at hmem
            apply (List.mem_cons.mp hmem).resolve_left
            rintro rfl
            exact hj hif.2
          | some c =>
            exact ⟨{ e with point := .awaiting }, by simp [hb, hf],
              ⟨h.withPoint hp _ rfl, hfull, c, futures, hf⟩,
              ⟨by simp [hb, hf], Or.inl rfl, Or.inr rfl⟩⟩
  · next hnot =>
    have := h.room
    refine ⟨_, rfl, ⟨h.withPoint hp _ rfl, ?_⟩, ⟨rfl, Or.inl rfl, Or.inl rfl⟩⟩
    change e.batches_in_pipeline.length < e.parallel_config.pipeline_parallel_size
    omega

end distserve.DecodingStageLLMEngine
