-- Which requests the decoding engine counts as lost when a worker dies, and which
-- requests own blocks there.
import RecomputeOrMigrate.DecodingRun

open calls runs

namespace distserve.DecodingStageLLMEngine

open BlockManager DecodingStageFCFSScheduler

/-- `_worker_request_ids.get(worker_idx, set())` in `_handle_decode_worker_failure`. -/
def affected (e : DecodingStageLLMEngine) (worker_idx : Nat) : Finset RequestId :=
  (e.worker_request_ids.lookup worker_idx).getD ∅

/-- The unfinished requests of the engine that own blocks of its block manager. -/
def unfinished_owners (e : DecodingStageLLMEngine) : List RequestId :=
  ((e.scheduler.unaccepted_queue.map (·.req) ++ e.migrating ++ e.scheduler.waiting_queue ++
    e.scheduler.batch_queues.flatMap BatchedRequests.requests ++
    e.scheduler.swapped_queue).filter fun q =>
      !q.is_finished && decide (q.request_id ∈ e.block_manager.block_table)).map (·.request_id)

/-- The ids of the requests that were in a batch before: batched now or swapped out. -/
def started_ids (e : DecodingStageLLMEngine) : Finset RequestId :=
  ((e.scheduler.batched ++ e.scheduler.swapped_queue).map (·.request_id)).toFinset

variable {e e' first : DecodingStageLLMEngine} {decode : Tokenizer} {a : Action}
  {cs : List Callback}

/-! ## What the engine tracks -/

/-- Each worker has the requests that were in a batch, and no others. -/
def Tracks (e : DecodingStageLLMEngine) : Prop :=
  e.worker_request_ids = e.worker_handles.map fun worker => (worker, e.started_ids)

theorem Tracks.of_eq (h : Tracks e) {f : Finset RequestId → Finset RequestId}
    (hids : e'.worker_request_ids = e.worker_request_ids.map fun (worker, ids) => (worker, f ids))
    (hw : e'.worker_handles = e.worker_handles) (hs : e'.started_ids = f e.started_ids) :
    Tracks e' := by
  unfold Tracks
  rw [hids, h, hw, hs, List.map_map]
  rfl

/-- A batch that goes to the workers is tracked. A request that is swapped out was
tracked before. -/
theorem Pushed.started_ids {now : Nat} {s' : DecodingStageFCFSScheduler} {m : BlockManager}
    (hs : Sound e) (h : Pushed e now s' m e') :
    e'.started_ids =
      e.started_ids ∪ ((s'.batch s'.cur).requests.map (·.request_id)).toFinset := by
  have hcur := h.schedules.cur
  have hb : e'.scheduler.batched = s'.batched := by
    rw [h.scheduler]
    exact batched_setBatch_same (h.cur_lt hs.toCore) rfl
  have hsw : e'.scheduler.swapped_queue = s'.swapped_queue := by rw [h.scheduler]; rfl
  have hbatch : ∀ i, i ≠ s'.cur → s'.batch i = e.scheduler.batch i := fun i hi =>
    (reschedules_batch h.schedules.toReschedules (turned_lt hs.kept.shaped)).1 i (hcur ▸ hi)
  have hstarted : ∀ q, q ∈ s'.batched ++ s'.swapped_queue ↔
      q ∈ e.scheduler.batched ++ e.scheduler.swapped_queue ∨ q ∈ (s'.batch s'.cur).requests := by
    intro q
    constructor
    · intro hq
      rcases List.mem_append.mp hq with hq | hq
      · obtain ⟨i, -, hqi⟩ := mem_batched.mp hq
        by_cases hi : i = s'.cur
        · exact Or.inr (hi ▸ hqi)
        · rw [hbatch i hi] at hqi
          exact Or.inl (List.mem_append_left _ (mem_batched_of_mem hqi))
      · exact Or.inl (List.mem_append.mpr
          ((List.mem_append.mp (h.schedules.swapped hq)).imp mem_batched_of_mem id))
    · rintro (hq | hq)
      · -- it stays in its batch, or it is one of the requests that changed their place
        have hmoved : q ∈ (e.scheduler.batch e.scheduler.last_stage_index).requests ++
            e.scheduler.swapped_queue → q ∈ s'.batched ++ s'.swapped_queue := by
          intro hq'
          have hperm := h.schedules.perm.mem_iff.mpr (List.mem_append_left
            e.scheduler.turned.waiting_queue hq')
          rcases List.mem_append.mp hperm with hperm | hperm
          · exact List.mem_append.mpr ((List.mem_append.mp hperm).imp mem_batched_of_mem id)
          · have hnd := hs.nodup
            rw [present_eq] at hnd
            have hnd := List.Nodup.of_map _ (List.Nodup.of_append_right hnd)
            rw [List.append_assoc, List.nodup_append'] at hnd
            exact (List.disjoint_left.mp hnd.2.2 (h.schedules.waiting hperm) hq).elim
        rcases List.mem_append.mp hq with hq' | hq'
        · obtain ⟨i, -, hqi⟩ := mem_batched.mp hq'
          by_cases hi : i = s'.cur
          · rw [hi, hcur] at hqi
            exact hmoved (List.mem_append_left _ hqi)
          · rw [← hbatch i hi] at hqi
            exact List.mem_append_left _ (mem_batched_of_mem hqi)
        · exact hmoved (List.mem_append_right _ hq')
      · exact List.mem_append_left _ (mem_batched_of_mem hq)
  unfold DecodingStageLLMEngine.started_ids
  rw [hb, hsw]
  ext r
  simp only [Finset.mem_union, List.mem_toFinset, List.mem_map]
  simp only [hstarted, or_and_right, exists_or]

theorem Took.started_ids {i : Nat} {tokens : List String} {ids : List TokenId} {m : BlockManager}
    (hs : Sound e) (h : Took e i tokens ids m e') :
    e'.started_ids = e.started_ids \ (((BatchedRequests.growAll (e.scheduler.batch i).requests
      tokens ids).filter (·.is_finished)).map (·.request_id)).toFinset := by
  have hbatched := batched_ids_of_grown (h.lt hs) tokens ids
  set finished := ((BatchedRequests.growAll (e.scheduler.batch i).requests tokens ids).filter
    (·.is_finished)).map (·.request_id)
  have hstarted : e'.started_ids = (((e.scheduler.setBatch i ⟨(BatchedRequests.growAll
      (e.scheduler.batch i).requests tokens ids).filter fun q => !q.is_finished, none⟩).batched ++
        e.scheduler.swapped_queue).map (·.request_id)).toFinset := by
    rw [h.same]
    rfl
  have hnd := hs.nodup
  rw [present_eq, List.append_assoc] at hnd
  replace hnd := hnd.of_append_right
  rw [List.map_append] at hnd
  rw [hstarted]
  refine counting.toFinset_of_perm_append ?_ hnd.of_append_right
  apply List.perm_iff_count.mpr
  intro r
  have hbatched := hbatched.count_eq r
  simp only [List.map_append, List.count_append] at hbatched ⊢
  omega

theorem Part.tracks (h : Part decode a first e cs e') (ht : Tracks e) : Tracks e' := by
  cases h with
  | pushes hs hp h =>
    refine ht.of_eq (f := (· ∪ _)) ?_ ?_ (h.started_ids hs)
    · rw [h.same]
      rfl
    · rw [h.same]
      rfl
  | checks _ _ h _ =>
    rw [h.same]
    exact ht
  | takes hs hp h =>
    refine ht.of_eq (f := (· \ _)) ?_ ?_ (h.started_ids hs)
    · rw [h.same]
      rfl
    · rw [h.same]
      rfl
  | accepts hs hp h =>
    rw [h.same]
    exact ht
  | ends hs hp => exact ht
  | adds hs hnew hh => exact ht

theorem Part.worker_handles (h : Part decode a first e cs e') :
    e'.worker_handles = e.worker_handles := by
  cases h with
  | pushes _ _ h => rw [h.same]; rfl
  | checks _ _ h _ => rw [h.same]
  | takes _ _ h => rw [h.same]; rfl
  | accepts _ _ h => rw [h.same]; rfl
  | ends _ _ => rfl
  | adds _ _ _ => rfl

theorem Tracks.affected_eq (h : Tracks e) {worker : Nat} (hw : worker ∈ e.worker_handles) :
    e.affected worker = e.started_ids := by
  have hlookup : ∀ l : List Nat, worker ∈ l →
      (l.map fun w => (w, e.started_ids)).lookup worker = some e.started_ids := by
    intro l hl
    induction l with
    | nil => cases hl
    | cons w rest ih =>
      rw [List.map_cons, List.lookup_cons]
      by_cases hwr : worker = w
      · simp [hwr]
      · rw [beq_eq_false_iff_ne.mpr hwr]
        exact ih ((List.mem_cons.mp hl).resolve_left hwr)
  unfold affected
  rw [h, hlookup _ hw]
  rfl

theorem tracks_create (pc : ParallelConfig) (cc : CacheConfig) (b t : Nat) (w : ℚ) (g c : Nat) :
    Tracks (create pc cc b t w g c) := by
  have hstarted : (create pc cc b t w g c).started_ids = ∅ := by
    unfold started_ids
    rw [batched_create]
    rfl
  unfold Tracks
  rw [hstarted]
  rfl

/-! ## Every run -/

/-- The requests that own blocks are unfinished, and they are waiting, migrated or
started. -/
theorem Sound.mem_unfinished_owners (h : Sound e) (r : RequestId) :
    r ∈ e.unfinished_owners ↔
      r ∈ (e.migrating ++ e.scheduler.waiting_queue).map (·.request_id) ∨ r ∈ e.started_ids := by
  have htable : r ∈ e.block_manager.block_table ↔
      r ∈ (e.migrating ++ e.scheduler.waiting_queue).map (·.request_id) ∨ r ∈ e.started_ids := by
    apply (h.kept.accounts.mem_table r).trans
    simp only [started_ids, List.mem_toFinset, List.map_append, List.mem_append]
    tauto
  rw [← htable]
  simp only [unfinished_owners, List.mem_map, List.mem_filter, Bool.and_eq_true, Bool.not_eq_true',
    decide_eq_true_eq]
  constructor
  · rintro ⟨q, ⟨-, -, hq⟩, rfl⟩
    exact hq
  · intro hr
    have hids : r ∈ (e.migrating ++ e.scheduler.waiting_queue ++ e.scheduler.batched ++
        e.scheduler.swapped_queue).map (·.request_id) := by
      have := htable.mp hr
      simp only [started_ids, List.mem_toFinset, List.map_append, List.mem_append] at this ⊢
      tauto
    obtain ⟨q, hq, rfl⟩ := List.mem_map.mp hids
    refine ⟨q, ⟨?_, (h.kept.growing q hq).1.1, hr⟩, rfl⟩
    simp only [List.mem_append] at hq ⊢
    exact hq.imp (Or.imp (Or.imp Or.inr id) id) id

section Runs

variable (parallel_config : ParallelConfig) (cache_config : CacheConfig)
  (max_batch_size max_tokens_per_batch : Nat) (waiting_block_prop_threshold : ℚ)
  (num_gpu_blocks num_cpu_blocks : Nat) (decode : Tokenizer)

/-- In every state of every run, the tracked requests are those that own blocks exactly
when no request is waiting or being migrated. -/
theorem tracking_is_exact_when_none_waits (e : DecodingStageLLMEngine)
    (h : Reaches (step decode) (create parallel_config cache_config max_batch_size
      max_tokens_per_batch waiting_block_prop_threshold num_gpu_blocks num_cpu_blocks) e) :
    (∀ worker ∈ e.worker_handles, ∀ r, r ∈ e.affected worker ↔ r ∈ e.unfinished_owners) ↔
      e.scheduler.waiting_queue = [] ∧ e.migrating = [] := by
  obtain ⟨hs, ht, hw⟩ := (@step_sound decode
    (fun e => Tracks e ∧ e.worker_handles = List.range parallel_config.pipeline_parallel_size)
    fun _ _ _ _ _ he hp => ⟨hp.tracks he.1, hp.worker_handles.trans he.2⟩).invariant
      ⟨sound_create _ _ _ _ _ _ _, tracks_create _ _ _ _ _ _ _, rfl⟩ h
  constructor
  · intro hall
    have hzero : 0 ∈ e.worker_handles := by
      rw [hw]
      exact List.mem_range.mpr parallel_config.pipeline_parallel_size_pos
    -- a request that waits owns blocks, but it was in no batch
    have hnone : e.migrating ++ e.scheduler.waiting_queue = [] := by
      apply List.eq_nil_iff_forall_not_mem.mpr
      intro q hq
      have hq' := List.mem_map_of_mem (f := (·.request_id)) hq
      have htracked := (hall 0 hzero q.request_id).mpr
        ((hs.mem_unfinished_owners q.request_id).mpr (Or.inl hq'))
      rw [ht.affected_eq hzero, started_ids, List.mem_toFinset, List.map_append,
        List.mem_append] at htracked
      rcases htracked with hbatched | hswapped
      · exact hs.kept.waiting_apart hq' hbatched
      · refine hs.kept.swapped_apart ?_ hswapped
        rw [List.map_append]
        exact List.mem_append_left _ hq'
    exact ⟨(List.append_eq_nil_iff.mp hnone).2, (List.append_eq_nil_iff.mp hnone).1⟩
  · rintro ⟨hwait, hmig⟩ worker hworker r
    rw [ht.affected_eq hworker, hs.mem_unfinished_owners, hwait, hmig]
    simp

end Runs

/-- A request that waits for its first batch owns blocks, and no worker has it. -/
theorem a_waiting_request_is_not_tracked : ∃ e : DecodingStageLLMEngine,
    Reaches (step fun _ => none) (create ⟨1, 1, by decide, by decide⟩ ⟨2, by decide⟩ 8 8 1 4 4) e ∧
      ¬ ∀ worker ∈ e.worker_handles, ∀ r, r ∈ e.affected worker ↔ r ∈ e.unfinished_owners := by
  obtain ⟨e, hr, he⟩ := reaches_of_any (m := step fun _ => none)
    (s := create ⟨1, 1, by decide, by decide⟩ ⟨2, by decide⟩ 8 8 1 4 4)
    [.add_request (firstToken 0), .begin_step 0, .wake, .migration_ends]
    (fun e => decide (0 ∈ e.worker_handles ∧ 0 ∉ e.affected 0 ∧ 0 ∈ e.unfinished_owners))
    (by decide +kernel)
  obtain ⟨hworker, hnot, howns⟩ := of_decide_eq_true he
  exact ⟨e, hr, fun hall => hnot ((hall 0 hworker 0).mpr howns)⟩

/-- The same request in a batch is tracked. -/
theorem a_started_request_is_tracked : ∃ e : DecodingStageLLMEngine,
    0 ∈ e.unfinished_owners ∧
      ∀ worker ∈ e.worker_handles, ∀ r, r ∈ e.affected worker ↔ r ∈ e.unfinished_owners := by
  obtain ⟨e, hr, he⟩ := reaches_of_any (m := step fun _ => none)
    (s := create ⟨1, 1, by decide, by decide⟩ ⟨2, by decide⟩ 8 8 1 4 4)
    [.add_request (firstToken 0), .begin_step 0, .wake, .migration_ends,
      .begin_step 1]
    (fun e => decide (e.scheduler.waiting_queue = [] ∧ e.migrating = [] ∧
      0 ∈ e.unfinished_owners)) (by decide +kernel)
  obtain ⟨hwait, hmig, howns⟩ := of_decide_eq_true he
  exact ⟨e, howns, (tracking_is_exact_when_none_waits _ _ _ _ _ _ _ _ e hr).mpr ⟨hwait, hmig⟩⟩

end distserve.DecodingStageLLMEngine
