-- What the workers of the decoding engine keep: the entries of each request that has its
-- blocks there, wherever it waits, and the tokens of the batches that run.
import RecomputeOrMigrate.ContextWorkers

open autoregression calls copies rotation runs

namespace distserve

open kv_store BlockManager

variable {κ : Type} {model : Model TokenId κ} {decode : Tokenizer}

/-! ## The scheduler -/

namespace DecodingStageFCFSScheduler

variable {s s' : DecodingStageFCFSScheduler}

/-- What the loop that swaps out does to the contents. -/
theorem swap_out_loop_carries (turns : Nat) (hp : Partitioned s.block_manager)
    (h : swap_out_loop turns s = .ok s') :
    Partitioned s'.block_manager ∧ ∃ cs, Carries κ [] s.block_manager s'.block_manager cs := by
  induction turns generalizing s with
  | zero =>
    unfold swap_out_loop at h
    split at h
    · cases h
    · cases h
      exact ⟨hp, [], Carries.refl _⟩
  | succ turns ih =>
    unfold swap_out_loop at h
    split at h
    · split at h
      · cases h
      · next request hlast =>
        obtain ⟨⟨_, m⟩, hm, hrest⟩ := bind_eq_ok.mp h
        obtain ⟨hp1, cs1, h1⟩ := swap_requests_carries hp (run_eq_ok.mp hm)
        obtain ⟨hp2, cs2, h2⟩ := ih (s := { s.setBatch s.cur _ with
          swapped_queue := s.swapped_queue ++ [request], block_manager := m }) hp1 hrest
        exact ⟨hp2, _, h1.trans h2⟩
    · cases h
      exact ⟨hp, [], Carries.refl _⟩

/-- What the loop that adds requests does to the contents. -/
theorem admit_loop_carries (turns : Nat) (hp : Partitioned s.block_manager)
    (h : admit_loop turns s = .ok s') :
    Partitioned s'.block_manager ∧ ∃ cs, Carries κ [] s.block_manager s'.block_manager cs := by
  induction turns generalizing s with
  | zero =>
    cases h
    exact ⟨hp, [], Carries.refl _⟩
  | succ turns ih =>
    unfold admit_loop at h
    split at h
    · next request rest hq =>
      split at h
      · obtain ⟨⟨_, m⟩, hm, hrest⟩ := bind_eq_ok.mp h
        obtain ⟨b, -, hrest⟩ := bind_eq_ok.mp hrest
        obtain ⟨hp1, cs1, h1⟩ := swap_requests_carries hp (run_eq_ok.mp hm)
        obtain ⟨hp2, cs2, h2⟩ := ih (s := { { s with block_manager := m }.setBatch s.cur b with
          swapped_queue := rest }) hp1 hrest
        exact ⟨hp2, _, h1.trans h2⟩
      · cases h
        exact ⟨hp, [], Carries.refl _⟩
    · next request rest hsq hwq =>
      split at h
      · obtain ⟨b, -, hrest⟩ := bind_eq_ok.mp h
        exact ih (s := { s.setBatch s.cur b with waiting_queue := rest }) hp hrest
      · cases h
        exact ⟨hp, [], Carries.refl _⟩
    · cases h
      exact ⟨hp, [], Carries.refl _⟩

theorem get_next_batch_carries (hp : Partitioned s.block_manager)
    (h : s.get_next_batch = .ok s') :
    Partitioned s'.block_manager ∧ ∃ cs, Carries κ [] s.block_manager s'.block_manager cs := by
  obtain ⟨s1, h1, h2⟩ := bind_eq_ok.mp h
  obtain ⟨hp1, cs1, hc1⟩ := swap_out_loop_carries (κ := κ) (s := s.turned) _ hp h1
  obtain ⟨hp2, cs2, hc2⟩ := admit_loop_carries (κ := κ) _ hp1 h2
  exact ⟨hp2, _, hc1.trans hc2⟩

end DecodingStageFCFSScheduler

/-! ## The engine -/

namespace DecodingStageLLMEngine

open DecodingStageFCFSScheduler

variable {e e' : DecodingStageLLMEngine} {w : Workers κ} {cs : List Callback}

theorem is_all_requests_on_gpu_state {rs : List Request} {m m' : BlockManager} {b : Bool}
    (h : is_all_requests_on_gpu rs m = .ok b m') : m' = m := by
  induction rs with
  | nil =>
    cases h
    rfl
  | cons request rest ih =>
    unfold is_all_requests_on_gpu at h
    rw [bind_apply] at h
    unfold locationOf at h
    rw [bind_apply, get_apply] at h
    dsimp only at h
    cases hl : m.request_location.lookup request.request_id with
    | none =>
      rw [hl] at h
      cases h
    | some location =>
      rw [hl] at h
      cases location with
      | CPU =>
        cases h
        rfl
      | GPU => exact ih h

theorem get_block_table_state {r : RequestId} {m m' : BlockManager} {table : List Nat}
    (h : get_block_table r m = .ok table m') : m' = m := by
  unfold get_block_table at h
  rw [bind_apply, get_apply] at h
  dsimp only at h
  cases hl : m.block_table.lookup r <;> rw [hl] at h <;> cases h
  rfl

theorem get_partial_block_table_state {ids : List RequestId} {m m' : BlockManager}
    {tables : List (List Nat)} (h : get_partial_block_table ids m = .ok tables m') : m' = m := by
  unfold get_partial_block_table at h
  induction ids generalizing m tables with
  | nil =>
    cases h
    rfl
  | cons r ids ih =>
    rw [List.mapM_cons, bind_apply] at h
    cases ht : get_block_table r m with
    | error err m1 => rw [ht] at h; cases h
    | ok table m1 =>
      rw [ht] at h
      simp only [bind_apply] at h
      cases hids : (ids.mapM get_block_table : Call PyError BlockManager _) m1 with
      | error err m2 => rw [hids] at h; cases h
      | ok rest m2 =>
        rw [hids] at h
        cases h
        exact (ih hids).trans (get_block_table_state ht)

/-- The first part of a step sends the calls of the scheduler and the allocations, and then
perhaps one more. -/
theorem push_next_batch_carries {now : Nat} (hp : Partitioned e.block_manager)
    (hpoint : e.point = .idle) (h : e.push_next_batch now = .ok (e', cs)) :
    ∃ m calls, Carries κ [] e.block_manager m calls ∧
      (e'.point = .sleeping ∧ e'.block_manager = m ∨
        ∃ c, e'.point = .idle ∧ e'.block_manager = m.remote_call_all_workers_async c) := by
  obtain ⟨s', hs', hpush⟩ := bind_eq_ok.mp h
  obtain ⟨hp1, cs1, h1⟩ := get_next_batch_carries (κ := κ) hp hs'
  dsimp only at hpush
  split at hpush
  · cases hpush
    exact ⟨_, cs1, h1, Or.inl ⟨rfl, rfl⟩⟩
  · obtain ⟨⟨_, m⟩, hm, hgpu⟩ := bind_eq_ok.mp hpush
    obtain ⟨⟨on_gpu, m1⟩, hm1, hstart⟩ := bind_eq_ok.mp hgpu
    cases on_gpu with
    | false => cases hstart
    | true =>
      obtain ⟨b, -, htables⟩ := bind_eq_ok.mp hstart
      obtain ⟨⟨tables, m2⟩, hm2, hlast⟩ := bind_eq_ok.mp htables
      obtain rfl : m1 = m := is_all_requests_on_gpu_state (run_eq_ok.mp hm1)
      obtain rfl : m2 = m1 := get_partial_block_table_state (run_eq_ok.mp hm2)
      cases hlast
      obtain ⟨cs2, h2⟩ := allocate_batched_carries (κ := κ) hp1 (run_eq_ok.mp hm)
      exact ⟨m2, _, h1.trans h2, Or.inr ⟨_, hpoint, rfl⟩⟩

def block_size (e : DecodingStageLLMEngine) : Nat := e.block_manager.cache_config.block_size

/-- The batches that are with the workers. -/
def sent_batches (e : DecodingStageLLMEngine) : List (List Request) :=
  (e.batches_in_pipeline.map fun i => (e.scheduler.batch i).requests).filter (· ≠ [])

/-- The requests that have their blocks and are not with the workers. -/
def unsent (e : DecodingStageLLMEngine) : List Request :=
  e.scheduler.waiting_queue ++ e.scheduler.batch_queues.flatMap unsentOf ++
    e.scheduler.swapped_queue

/-- What the workers have once they ran all calls of the engine. -/
structure Computes (model : Model TokenId κ) (e : DecodingStageLLMEngine) (w : Workers κ) :
    Prop where
  waiting : ∀ q ∈ e.unsent, Stores e.block_size e.block_manager w.memory q.request_id
    (model.entries (q.text.take q.get_first_new_token_index))
  working : ∀ q ∈ e.in_flight,
    Stores e.block_size e.block_manager w.memory q.request_id (model.entries q.text)
  results : w.results = e.sent_batches.map (answersOf model)

/-- The call that brings the entries of a request here. -/
def migrateCall (m : BlockManager) (mr : MigratingRequest) : RemoteCall :=
  .migrate_blocks mr.block_indexes mr.context_parallel_config (m.tableOf mr.req.request_id)

/-- The calls `calls` are those that the engine sent from `e` to `e'`. As long as a request is
being migrated, nothing is sent after its blocks. -/
structure Sends (e : DecodingStageLLMEngine) (calls : List RemoteCall)
    (e' : DecodingStageLLMEngine) : Prop where
  remote_calls : e'.block_manager.remote_calls = e.block_manager.remote_calls ++ calls
  block_size : e'.block_size = e.block_size
  migration : ∃ plain, calls = plain ++ e'.in_migration.map (migrateCall e'.block_manager) ∧
    ∀ c ∈ plain, c.isMigration = false

/-- The engine went from `e` to `e'`, and the workers ran the calls. -/
def ComputesAfter (model : Model TokenId κ) (e e' : DecodingStageLLMEngine) (w : Workers κ) :
    Prop :=
  ∃ calls, Sends e calls e' ∧ Computes model e' (w.after model e.block_size calls)

theorem ComputesAfter.trans {e1 : DecodingStageLLMEngine} (h : ComputesAfter model e e1 w)
    (hmig : e1.in_migration = []) (h' : ∀ v : Workers κ, Computes model e1 v →
      ComputesAfter model e1 e' v) : ComputesAfter model e e' w := by
  obtain ⟨calls, hs, hc⟩ := h
  obtain ⟨calls', hs', hc'⟩ := h' _ hc
  obtain ⟨plain, hplain, hquiet⟩ := hs.migration
  obtain ⟨plain', hplain', hquiet'⟩ := hs'.migration
  rw [hmig, List.map_nil, List.append_nil] at hplain
  refine ⟨calls ++ calls', ⟨?_, hs'.block_size.trans hs.block_size, plain ++ plain', ?_, ?_⟩, ?_⟩
  · rw [hs'.remote_calls, hs.remote_calls, List.append_assoc]
  · rw [hplain, hplain', List.append_assoc]
  · exact fun c hc => (List.mem_append.mp hc).elim (hquiet c) (hquiet' c)
  · rw [hs.block_size] at hc'
    rw [Workers.after_append]
    exact hc'

/-- Each request that has its blocks is with the workers or not. -/
theorem unsent_perm (e : DecodingStageLLMEngine) :
    (e.unsent ++ e.in_flight).Perm
      (e.scheduler.waiting_queue ++ e.scheduler.batched ++ e.scheduler.swapped_queue) := by
  have hbatches : (e.scheduler.batch_queues.flatMap unsentOf ++
      e.scheduler.batch_queues.flatMap sentOf).Perm e.scheduler.batched := by
    unfold batched
    induction e.scheduler.batch_queues with
    | nil => exact List.Perm.refl _
    | cons b bs ih =>
      have hb : (unsentOf b ++ sentOf b).Perm b.requests := by
        unfold unsentOf sentOf
        split <;> simp
      apply List.perm_iff_count.mpr
      intro q
      have h1 := ih.count_eq q
      have h2 := hb.count_eq q
      simp only [List.flatMap_cons, List.count_append] at h1 h2 ⊢
      omega
  apply List.perm_iff_count.mpr
  intro q
  have := hbatches.count_eq q
  simp only [unsent, in_flight, List.count_append] at this ⊢
  omega

theorem Core.unsent_nodup (hs : Core e) : ((e.unsent ++ e.in_flight).map (·.request_id)).Nodup := by
  have hnd := hs.nodup
  rw [present_eq] at hnd
  exact ((e.unsent_perm.map _).nodup_iff).mpr hnd.of_append_right

/-- Nothing is sent. -/
theorem Computes.after (hc : Computes model e' w) (hm : e'.block_manager = e.block_manager)
    (hmig : e'.in_migration = []) : ComputesAfter model e e' w := by
  refine ⟨[], ⟨by rw [hm, List.append_nil], ?_, [], by rw [hmig]; rfl, by simp⟩, hc⟩
  unfold block_size
  rw [hm]

/-- A request that waits or is with the workers has its blocks. -/
theorem Core.owned_ne_none (hs : Core e) {q : Request} (hq : q ∈ e.unsent ++ e.in_flight) :
    e.block_manager.owned q.request_id ≠ none := by
  intro hnone
  have hacc := hs.kept.accounts
  rw [e.unsent_perm.mem_iff, List.mem_append] at hq
  rcases hq with hq | hq
  · have := hacc.owned_gpu (List.mem_map_of_mem (f := fun q : Request => q.request_id)
      (show q ∈ e.migrating ++ e.scheduler.waiting_queue ++ e.scheduler.batched by
        rw [List.append_assoc]
        exact List.mem_append_right _ hq))
    exact Option.some_ne_none _ (this.symm.trans hnone)
  · have := hacc.owned_cpu (List.mem_map_of_mem (f := fun q : Request => q.request_id) hq)
    exact Option.some_ne_none _ (this.symm.trans hnone)

/-! ### The next batch -/

section Pushed

variable {now : Nat} {s' : DecodingStageFCFSScheduler} {m : BlockManager}

theorem remote_call_inj {m m' : BlockManager} {c c' : RemoteCall}
    (h : m.remote_call_all_workers_async c = m'.remote_call_all_workers_async c') : m = m' := by
  obtain ⟨_, _, _, _, _, _, _, calls⟩ := m
  obtain ⟨_, _, _, _, _, _, _, calls'⟩ := m'
  simp only [remote_call_all_workers_async, BlockManager.mk.injEq] at h ⊢
  obtain ⟨h1, h2, h3, h4, h5, h6, h7, h8⟩ := h
  exact ⟨h1, h2, h3, h4, h5, h6, h7, (List.append_inj' h8 rfl).1⟩

theorem Pushed.carries (hs : Sound e) (hp : e.point = .idle)
    (he : e.push_next_batch now = .ok (e', cs)) (h : Pushed e now s' m e') :
    ∃ calls, Carries κ [] e.block_manager m calls := by
  obtain ⟨m1, calls, hcarry, hm1⟩ := push_next_batch_carries (κ := κ)
    hs.kept.accounts.partitioned hp he
  have hpoint : e'.point = if (s'.batch s'.cur).requests = [] then .sleeping else .idle := by
    rw [h.same]
    rfl
  have hm : e'.block_manager = m.sendStep (s'.batch s'.cur).requests := by
    unfold block_manager
    rw [h.scheduler]
  refine ⟨calls, ?_⟩
  by_cases hrs : (s'.batch s'.cur).requests = []
  · rw [if_pos hrs] at hpoint
    rw [sendStep, if_pos hrs] at hm
    rcases hm1 with ⟨-, hm1⟩ | ⟨c, hidle, -⟩
    · rwa [← hm, hm1]
    · rw [hpoint] at hidle
      cases hidle
  · rw [if_neg hrs] at hpoint
    rw [sendStep, if_neg hrs] at hm
    rcases hm1 with ⟨hsleep, -⟩ | ⟨c, -, hm1⟩
    · rw [hpoint] at hsleep
      cases hsleep
    · rwa [remote_call_inj (hm.symm.trans hm1)]

theorem Pushed.unsent (hs : Sound e) (hp : e.point = .idle) (h : Pushed e now s' m e') :
    e.unsent.Perm ((s'.batch s'.cur).requests ++ e'.unsent) := by
  have hrest := (h.serves hs hp).1
  have hun : e'.scheduler.unaccepted_queue = e.scheduler.unaccepted_queue := by
    rw [h.scheduler]
    exact (reschedules_batch h.schedules.toReschedules (turned_lt hs.kept.shaped)).2.2.2.2.2
  have hfin : e'.finished_requests = e.finished_requests := by
    rw [h.same]
    rfl
  have hmig : e.in_migration = [] ∧ e'.in_migration = [] := by
    rcases h.point with hp' | hp' <;> simp [in_migration, hp, hp']
  apply List.perm_iff_count.mpr
  intro q
  have := hrest.count_eq q
  simp only [resting, DecodingStageLLMEngine.unsent, hun, hfin, hmig, List.count_append]
    at this ⊢
  omega

theorem Pushed.sent_batches (hs : Sound e) (hp : e.point = .idle) (h : Pushed e now s' m e') :
    e'.sent_batches = e.sent_batches ++
      if (s'.batch s'.cur).requests = [] then [] else [(s'.batch s'.cur).requests] := by
  have hold : e.batches_in_pipeline.map (fun i => (e'.scheduler.batch i).requests) =
      e.batches_in_pipeline.map fun i => (e.scheduler.batch i).requests := by
    refine List.map_congr_left fun i hi => ?_
    rw [h.batch_ne hs.toCore]
    rintro rfl
    exact h.cur_notMem hs hp hi
  have hcur : (e'.scheduler.batch s'.cur).requests = (s'.batch s'.cur).requests := by
    rw [h.batch_cur hs.toCore]
    rfl
  unfold DecodingStageLLMEngine.sent_batches
  rw [h.pipeline, List.map_append, hold, List.filter_append, List.map_singleton, hcur,
    List.filter_singleton]
  by_cases hrs : (s'.batch s'.cur).requests = [] <;> simp [hrs]

theorem Pushed.block_size (h : Pushed e now s' m e') : e'.block_size = e.block_size := by
  unfold DecodingStageLLMEngine.block_size block_manager
  rw [h.scheduler]
  exact congrArg CacheConfig.block_size ((cache_config_sendStep _).trans
    (h.allocated.cache_config.trans h.schedules.cache_config))

/-- The requests of the batch are ready for the workers. -/
theorem Pushed.ready (hs : Sound e) (hp : e.point = .idle) (h : Pushed e now s' m e')
    {d : Devices (Nat → κ)} {calls : List RemoteCall}
    (hcarry : Carries κ [] e.block_manager m calls)
    (hd : ∀ q ∈ e.unsent, Stores e.block_size e.block_manager d q.request_id
      (model.entries (q.text.take q.get_first_new_token_index)))
    {q : Request} (hq : q ∈ (s'.batch s'.cur).requests) :
    Ready model e.block_size m (calls.foldl run_call d) q := by
  refine ⟨h.accounts.owned_gpu (List.mem_map_of_mem (List.mem_append_right _
    (mem_batched_of_mem hq))), ?_, ?_⟩
  · have halloc := h.allocated.allocated q hq
    have hneed : s'.block_manager.get_num_blocks_needed q =
        e.block_manager.cache_config.blocks_for q.text.length := by
      rw [q.length_text, get_num_blocks_needed]
      exact congrArg (CacheConfig.blocks_for · _) h.schedules.cache_config
    have hle := e.block_manager.cache_config.le_blocks_for q.text.length
    rw [← allocated_eq, halloc, hneed]
    exact hle.trans (Nat.mul_le_mul_right _ (le_max_left _ _))
  · exact hcarry.stores (by simp) (hd q ((h.unsent hs hp).mem_iff.mpr (List.mem_append_left _ hq)))

theorem Pushed.computes (hs : Sound e) (hp : e.point = .idle)
    (he : e.push_next_batch now = .ok (e', cs)) (h : Pushed e now s' m e')
    (hc : Computes model e w) : ComputesAfter model e e' w := by
  obtain ⟨calls, hcarry⟩ := h.carries (κ := κ) hs hp he
  have hquiet : ∀ c ∈ calls, c.isMigration = false := fun c hc =>
    RemoteCall.not_isMigration_of_not_forwards (hcarry.quiet c hc)
  have hmig : e'.in_migration = [] := by
    rcases h.point with hp' | hp' <;> simp [in_migration, hp']
  have hm : e'.block_manager = m.sendStep (s'.batch s'.cur).requests := by
    unfold block_manager
    rw [h.scheduler]
  have hperm := h.unsent hs hp
  have hflight := (h.serves hs hp).2
  have hnd : ((e'.unsent ++ (e.in_flight ++ (s'.batch s'.cur).requests)).map
      (·.request_id)).Nodup :=
    (((hflight.append_left _).map _).nodup_iff).mp (h.core hs hp).unsent_nodup
  set rs := (s'.batch s'.cur).requests with hrs
  -- the requests that do not go to the workers are not those of the batch
  have hold : ∀ q ∈ e'.unsent ++ e.in_flight, q.request_id ∉ rs.map (·.request_id) := by
    rw [← List.append_assoc, List.map_append, List.nodup_append'] at hnd
    exact fun q hq hc => List.disjoint_left.mp hnd.2.2 (List.mem_map_of_mem hq) hc
  have hsub : ∀ q ∈ e'.unsent, q ∈ e.unsent := fun q hq =>
    hperm.mem_iff.mpr (List.mem_append_right _ hq)
  have howned : e'.block_manager.owned = m.owned := by rw [hm, owned_sendStep]
  by_cases hnone : rs = []
  · rw [sendStep, if_pos hnone] at hm
    refine ⟨calls, ⟨by rw [hm]; exact hcarry.calls, h.block_size, calls, ?_, hquiet⟩, ?_⟩
    · rw [hmig, List.map_nil, List.append_nil]
    rw [Workers.after_of_not_forwards hcarry.quiet]
    refine ⟨fun q hq => ?_, fun q hq => ?_, ?_⟩
    · rw [h.block_size, hm]
      exact hcarry.stores (by simp) (hc.waiting q (hsub q hq))
    · rw [hflight.mem_iff, hnone, List.append_nil] at hq
      rw [h.block_size, hm]
      exact hcarry.stores (by simp) (hc.working q hq)
    · rw [h.sent_batches hs hp, if_pos hnone, List.append_nil]
      exact hc.results
  · refine ⟨calls ++ [m.stepCall rs], ⟨?_, h.block_size, calls ++ [m.stepCall rs], ?_, ?_⟩, ?_⟩
    · rw [← List.append_assoc, ← hcarry.calls, hm, sendStep, if_neg hnone]
      rfl
    · rw [hmig, List.map_nil, List.append_nil]
    · intro c hc
      rcases List.mem_append.mp hc with hc | hc
      · exact hquiet c hc
      · rw [List.mem_singleton.mp hc]
        rfl
    rw [Workers.after_append, Workers.after_of_not_forwards hcarry.quiet]
    obtain ⟨htokens, hnew, hothers⟩ := run_step_stores model
      (w := { w with memory := calls.foldl run_call w.memory })
      e.block_manager.cache_config.block_size_pos h.accounts.partitioned
      (by
        rw [← List.append_assoc, List.map_append] at hnd
        exact hnd.of_append_right)
      fun q hq => h.ready hs hp hcarry hc.waiting hq
    have hkeeps : ∀ q ∈ e'.unsent ++ e.in_flight, ∀ values : List κ,
        Stores e.block_size e.block_manager w.memory q.request_id values →
        Stores e.block_size m (Workers.run_call model e.block_size
          { w with memory := calls.foldl run_call w.memory } (m.stepCall rs)).memory
          q.request_id values :=
      fun q hq values hv => hothers _ (hold q hq) _ (hcarry.stores (by simp) hv)
    refine ⟨fun q hq => ?_, fun q hq => ?_, ?_⟩
    · rw [h.block_size, stores_congr howned]
      exact hkeeps q (List.mem_append_left _ hq) _ (hc.waiting q (hsub q hq))
    · rw [h.block_size, stores_congr howned]
      rcases List.mem_append.mp (hflight.mem_iff.mp hq) with hq | hq
      · exact hkeeps q (List.mem_append_right _ hq) _ (hc.working q hq)
      · exact hnew q hq
    · rw [h.sent_batches hs hp, if_neg hnone, List.map_append, List.map_singleton, ← hc.results]
      exact htokens

end Pushed

theorem Checked.in_migration_eq (h : Checked e e') : e'.in_migration = [] := by
  rcases h.point with hp | hp <;> simp [in_migration, hp]

theorem Checked.computes (h : Checked e e') (hc : Computes model e w) :
    ComputesAfter model e e' w := by
  have hmig := h.in_migration_eq
  have hsched : e'.scheduler = e.scheduler := by rw [h.same]
  have hm : e'.block_manager = e.block_manager := by
    unfold block_manager
    rw [hsched]
  refine Computes.after ⟨?_, ?_, ?_⟩ hm hmig
  · have hun : e'.unsent = e.unsent := by
      unfold unsent
      rw [hsched]
    rw [hun, block_size, hm]
    exact hc.waiting
  · have hin : e'.in_flight = e.in_flight := by
      unfold in_flight
      rw [hsched]
    rw [hin, block_size, hm]
    exact hc.working
  · have hbatches : e'.sent_batches = e.sent_batches := by
      unfold sent_batches
      rw [hsched]
      rcases h.pipeline with hp | ⟨i, hi, hnone⟩
      · rw [hp]
      · rw [hi, List.map_cons, hnone, List.filter_cons_of_neg (by simp)]
    rw [hbatches]
    exact hc.results

/-! ### A batch comes back -/

section Took

variable {i : Nat} {ids : List TokenId} {results : List (List TokenId)} {m : BlockManager}

/-- The batch that comes back was with the workers. -/
theorem sent_batches_head (hs : Sound e) (hp : e.point = .awaiting) {rest : List Nat}
    (hb : e.batches_in_pipeline = i :: rest) : e.sent_batches =
      (e.scheduler.batch i).requests ::
        (rest.map fun j => (e.scheduler.batch j).requests).filter (· ≠ []) := by
  have hat := hs.at_point
  simp only [AtPoint, hp] at hat
  obtain ⟨-, c, futures, hf⟩ := hat
  have hfs := hs.futures
  rw [hb, hf] at hfs
  cases hfs with
  | cons hfirst _ =>
    unfold sent_batches
    rw [hb, List.map_cons, List.filter_cons_of_pos (by simpa using hfirst.1)]

/-- The earliest result is that of the batch that comes back. -/
theorem Computes.result (hs : Sound e) (hp : e.point = .awaiting) {rest : List Nat}
    (hb : e.batches_in_pipeline = i :: rest) (hc : Computes model e w)
    (hr : w.results = ids :: results) : ids = answersOf model (e.scheduler.batch i).requests := by
  have := hc.results
  rw [sent_batches_head hs hp hb, hr, List.map_cons] at this
  exact (List.cons.inj this).1

theorem Took.sent_batches (hs : Sound e) (hp : e.point = .awaiting)
    (h : Took e i (decode.decode_tokens ids) ids m e') :
    e.sent_batches = (e.scheduler.batch i).requests :: e'.sent_batches := by
  have hnd := passed_nodup (c := e.scheduler.cur_index)
    e.parallel_config.pipeline_parallel_size_pos hs.room
  rw [← hs.phase, h.head, List.nodup_cons] at hnd
  have hpipe : e'.batches_in_pipeline = e.batches_in_pipeline.tail := by
    rw [h.same]
    rfl
  rw [sent_batches_head hs hp h.head, DecodingStageLLMEngine.sent_batches, hpipe]
  congr 2
  refine List.map_congr_left fun j hj => ?_
  rw [h.batch_ne]
  rintro rfl
  exact hnd.1 hj

/-- The unfinished requests of the batch wait for the next one. -/
theorem Took.unsent (hs : Sound e) (hp : e.point = .awaiting)
    (h : Took e i (decode.decode_tokens ids) ids m e') :
    e'.unsent.Perm (e.unsent ++ (BatchedRequests.growAll (e.scheduler.batch i).requests
      (decode.decode_tokens ids) ids).filter fun q => !q.is_finished) := by
  set grown := BatchedRequests.growAll (e.scheduler.batch i).requests
    (decode.decode_tokens ids) ids with hgrown
  have hrest := (h.serves hs hp).2
  have hparts := List.filter_append_perm (fun q : Request => q.is_finished) grown
  have hun : e'.scheduler.unaccepted_queue = e.scheduler.unaccepted_queue := by
    rw [h.same]
    rfl
  have hfin : e'.finished_requests =
      e.finished_requests ++ grown.filter (·.is_finished) := by
    rw [h.same]
    rfl
  have hmig : e.in_migration = [] := by simp [in_migration, hp]
  have hmig' : e'.in_migration = [] := by
    rw [h.same]
    rfl
  apply List.perm_iff_count.mpr
  intro q
  have h1 := hrest.count_eq q
  have h2 := hparts.count_eq q
  simp only [resting, DecodingStageLLMEngine.unsent, hun, hfin, hmig, hmig', ← hgrown,
    List.count_append] at h1 h2 ⊢
  omega

/-- A batch comes back, and its result is taken. -/
theorem Took.computes (hs : Sound e) (hp : e.point = .awaiting)
    (h : Took e i (decode.decode_tokens ids) ids m e') (hc : Computes model e w)
    (hr : w.results = ids :: results) : ComputesAfter model e e' { w with results } := by
  have hs' := h.sound hs hp
  have hids := hc.result hs hp h.head hr
  have hts : (decode.decode_tokens ids).length = (e.scheduler.batch i).requests.length := by
    rw [Tokenizer.decode_tokens, List.length_map, hids, answersOf, List.length_map]
  have hm : e'.block_manager = m.remote_call_all_workers_async (.clear_request_resource_batched
      ((BatchedRequests.growAll (e.scheduler.batch i).requests (decode.decode_tokens ids)
        ids).filter (·.is_finished))) := by
    rw [h.same]
    rfl
  have hmig : e'.in_migration = [] := by
    rw [h.same]
    rfl
  have hsize : e'.block_size = e.block_size := by
    unfold block_size
    rw [hm]
    exact congrArg CacheConfig.block_size h.freed.cache_config
  set finished := (BatchedRequests.growAll (e.scheduler.batch i).requests
    (decode.decode_tokens ids) ids).filter (·.is_finished)
  have hcalls : e'.block_manager.remote_calls =
      e.block_manager.remote_calls ++ [.clear_request_resource_batched finished] := by
    rw [hm, ← h.freed.remote_calls]
    rfl
  have hcarry := carries_of_owned (κ := κ) hcalls
    (fun c hc => by rw [List.mem_singleton.mp hc]; rfl) fun r hr => by
      rw [hm]
      exact h.freed.others r hr
  -- an owner is not one of the finished requests, which own nothing any more
  have hstays : ∀ q ∈ e'.unsent ++ e'.in_flight,
      q.request_id ∉ finished.map (·.request_id) := fun q hq hc =>
    hs'.owned_ne_none hq (by
      rw [hm]
      exact h.freed.gone _ hc)
  have hflight := (h.serves hs hp).1
  refine ⟨[_], ⟨hcalls, hsize, [_], by rw [hmig]; rfl, fun c hc => ?_⟩, ?_⟩
  · rw [List.mem_singleton.mp hc]
    rfl
  rw [Workers.after_of_not_forwards hcarry.quiet]
  refine ⟨fun q hq => ?_, fun q hq => ?_, ?_⟩
  · rw [hsize]
    apply hcarry.stores (hstays q (List.mem_append_left _ hq))
    rcases List.mem_append.mp ((h.unsent hs hp).mem_iff.mp hq) with hq | hq
    · exact hc.waiting q hq
    · have hgrown := (List.mem_filter.mp hq).1
      rw [hids] at hgrown
      obtain ⟨r, hr', t, rfl⟩ := mem_growAll_answersOf (by rw [← hids]; exact hts) hgrown
      rw [Request.grow_request_id, Request.take_first_new_grow]
      exact hc.working r (hflight.mem_iff.mpr (List.mem_append_left _ hr'))
  · rw [hsize]
    exact hcarry.stores (hstays q (List.mem_append_right _ hq))
      (hc.working q (hflight.mem_iff.mpr (List.mem_append_right _ hq)))
  · have hres := hc.results
    rw [h.sent_batches hs hp, hr, List.map_cons] at hres
    exact (List.cons.inj hres).2

end Took

/-! ### The migration of a request -/

section Migration

variable {mr : MigratingRequest} {m : BlockManager}

/-- The engine gets the blocks of a request and asks for its entries. -/
theorem Accepted.computes (h : Accepted e mr m e') (hc : Computes model e w) :
    ComputesAfter model e e' w := by
  obtain ⟨calls, hcarry⟩ := carries_of_waits (κ := κ) h.allocated.waits h.allocated.others
  have hmig := h.in_migration_eq
  have hm : e'.block_manager = m.remote_call_all_workers_async (migrateCall m mr) := by
    rw [h.same]
    rfl
  have hsize : e'.block_size = e.block_size := by
    unfold block_size block_manager
    rw [h.cache_config]
  have hun : e'.unsent = e.unsent := by
    rw [h.same]
    rfl
  have hin : e'.in_flight = e.in_flight := by
    rw [h.same]
    rfl
  have hold : ∀ q ∈ e.unsent ++ e.in_flight,
      q.request_id ∉ [mr.req.without_generated_tokens].map (·.request_id) := fun q hq hc => by
    rw [e.unsent_perm.mem_iff] at hq
    have hid : q.request_id = mr.req.request_id := List.mem_singleton.mp hc
    exact h.new (hid ▸ List.mem_map_of_mem hq)
  refine ⟨calls ++ [migrateCall m mr], ⟨?_, hsize, calls, ?_, fun c hc =>
    RemoteCall.not_isMigration_of_not_forwards (hcarry.quiet c hc)⟩, ?_⟩
  · rw [← List.append_assoc, ← hcarry.calls, hm]
    rfl
  · rw [hmig, hm]
    rfl
  rw [Workers.after_append, Workers.after_of_not_forwards hcarry.quiet]
  have hkeeps : ∀ q ∈ e.unsent ++ e.in_flight, ∀ values : List κ,
      Stores e.block_size e.block_manager w.memory q.request_id values →
      Stores e.block_size e'.block_manager (calls.foldl run_call w.memory) q.request_id values :=
    fun q hq values hv => by
      rw [hm]
      exact hcarry.stores (hold q hq) hv
  refine ⟨fun q hq => ?_, fun q hq => ?_, ?_⟩
  · rw [hsize]
    rw [hun] at hq
    exact hkeeps q (List.mem_append_left _ hq) _ (hc.waiting q hq)
  · rw [hsize]
    rw [hin] at hq
    exact hkeeps q (List.mem_append_right _ hq) _ (hc.working q hq)
  · have hbatches : e'.sent_batches = e.sent_batches := by
      rw [h.same]
      rfl
    rw [hbatches]
    exact hc.results

/-- The entries of the request are here. -/
theorem end_migration_computes (hs : Sound e) (hp : e.point = .migrating mr)
    (hc : Computes model e w) (hreq : Stores e.block_size e.block_manager w.memory
      mr.req.request_id (model.entries mr.req.prompt_token_ids)) :
    ComputesAfter model e (e.end_migration mr).1 w := by
  have hone := (hs.handed mr (by simp [in_migration, hp])).first_token
  have hun : ∀ q ∈ (e.end_migration mr).1.unsent, q ∈ e.unsent ∨ q = mr.req := fun q hq => by
    simp only [unsent, end_migration, List.mem_append, List.mem_singleton] at hq ⊢
    tauto
  refine Computes.after ⟨fun q hq => ?_, hc.working, hc.results⟩ rfl rfl
  rcases hun q hq with hq | rfl
  · exact hc.waiting q hq
  · rwa [Request.take_first_new_of_one hone]

/-- A request from the bridge queue has no blocks here. -/
theorem Computes.add_request (hc : Computes model e w) (mr : MigratingRequest) :
    Computes model { e with scheduler := e.scheduler.add_request mr } w :=
  ⟨hc.waiting, hc.working, hc.results⟩

end Migration

/-! ### The actions -/

theorem go_on_computes {cs' : List Callback} (hs : Sound e) (hmig : e.in_migration = [])
    (h : e.go_on cs = .ok (e', cs')) (hc : Computes model e w) : ComputesAfter model e e' w := by
  unfold go_on at h
  split at h
  · next hp =>
    rcases post_process_cases hs hp with he | ⟨mr, m, e1, ha, he⟩
    · rw [ok_bind he] at h
      cases h
      exact hc.after rfl hmig
    · rw [ok_bind he] at h
      cases h
      exact ha.computes hc
  · cases h
    exact hc.after rfl hmig

theorem begin_step_computes {now : Nat} (hs : Sound e) (hc : Computes model e w)
    (hx : act decode e (.begin_step now) = some (.ok (e', cs))) : ComputesAfter model e e' w := by
  simp only [act] at hx
  split at hx
  · next hp =>
    obtain ⟨⟨e1, cs1⟩, he1, hrest⟩ := bind_eq_ok.mp (Option.some.inj hx)
    obtain ⟨s', m, hpush, -⟩ := (push_next_batch_gives hs hp now).of_ok he1
    dsimp only at hpush hrest
    have hmig : e1.in_migration = [] := by
      rcases hpush.point with hp1 | hp1 <;> simp [in_migration, hp1]
    have h1 := hpush.computes hs hp he1 hc
    split at hrest
    · cases hrest
      exact h1
    · obtain ⟨e2, he2, hgo⟩ := bind_eq_ok.mp hrest
      obtain ⟨e2', he2', hs2, hcheck⟩ := check_pipeline_cases (hpush.core hs hp) hmig
      cases he2.symm.trans he2'
      exact (h1.trans hmig fun v hv => hcheck.computes hv).trans hcheck.in_migration_eq
        fun v hv => go_on_computes hs2 hcheck.in_migration_eq hgo hv
  · cases hx

theorem wake_computes (hs : Sound e) (hc : Computes model e w)
    (hx : act decode e .wake = some (.ok (e', cs))) : ComputesAfter model e e' w := by
  simp only [act] at hx
  split at hx
  · next hp =>
    obtain ⟨e1, he1, hgo⟩ := bind_eq_ok.mp (Option.some.inj hx)
    obtain ⟨e1', he1', hs1, hcheck⟩ := check_pipeline_cases hs.toCore
      (by simp [in_migration, hp])
    cases he1.symm.trans he1'
    exact (hcheck.computes hc).trans hcheck.in_migration_eq
      fun v hv => go_on_computes hs1 hcheck.in_migration_eq hgo hv
  · cases hx

theorem batch_returns_computes {ids : List TokenId} {results : List (List TokenId)} (hs : Sound e)
    (hc : Computes model e w) (hr : w.results = ids :: results)
    (hx : act decode e (.batch_returns ids) = some (.ok (e', cs))) :
    ComputesAfter model e e' { w with results } := by
  simp only [act] at hx
  split at hx
  · next hp =>
    obtain ⟨⟨e1, cs1⟩, he1, hgo⟩ := bind_eq_ok.mp (Option.some.inj hx)
    obtain ⟨e1', i, m, he1', ht⟩ := take_result_cases hs hp decode ids
    cases he1.symm.trans he1'
    have hmig : e1.in_migration = [] := by
      rw [ht.same]
      rfl
    exact (ht.computes hs hp hc hr).trans hmig fun v hv =>
      go_on_computes (ht.sound hs hp) hmig hgo hv
  · cases hx

theorem migration_ends_computes (hs : Sound e) (hc : Computes model e w)
    (hreq : ∀ mr ∈ e.in_migration, Stores e.block_size e.block_manager w.memory
      mr.req.request_id (model.entries mr.req.prompt_token_ids))
    (hx : act decode e .migration_ends = some (.ok (e', cs))) : ComputesAfter model e e' w := by
  simp only [act] at hx
  split at hx
  · next mr hp =>
    have h1 := end_migration_computes hs hp hc (hreq mr (by simp [in_migration, hp]))
    exact h1.trans rfl fun v hv =>
      go_on_computes (end_migration_sound hs hp) rfl (Option.some.inj hx) hv
  · cases hx

/-! ### Every run -/

/-- The workers follow the engine. The blocks of the request that is being migrated are the
last ones to come, or they are here. -/
structure Follows (model : Model TokenId κ) (e : DecodingStageLLMEngine) (w : Workers κ) :
    Prop where
  executed_le : w.executed ≤ e.block_manager.remote_calls.length
  computes : Computes model e (w.after model e.block_size (w.pending e.block_manager))
  migration : (∃ plain, w.pending e.block_manager =
      plain ++ e.in_migration.map (migrateCall e.block_manager) ∧
        ∀ c ∈ plain, c.isMigration = false) ∨
    (w.pending e.block_manager = [] ∧ ∀ mr ∈ e.in_migration, Stores e.block_size e.block_manager
      w.memory mr.req.request_id (model.entries mr.req.prompt_token_ids))

theorem Follows.plain (h : Follows model e w) (hmig : e.in_migration = []) :
    ∀ c ∈ w.pending e.block_manager, c.isMigration = false := by
  rcases h.migration with ⟨plain, hp, hplain⟩ | ⟨hp, -⟩
  · rw [hp, hmig, List.map_nil, List.append_nil]
    exact hplain
  · rw [hp]
    simp

/-- Without a call that waits for a migration, its entries are here. -/
theorem Follows.migrated (h : Follows model e w)
    (hplain : ∀ c ∈ w.pending e.block_manager, c.isMigration = false) :
    ∀ mr ∈ e.in_migration, Stores e.block_size e.block_manager
      (w.after model e.block_size (w.pending e.block_manager)).memory mr.req.request_id
        (model.entries mr.req.prompt_token_ids) := by
  intro mr hmr
  rcases h.migration with ⟨plain, hp, -⟩ | ⟨hp, hreq⟩
  · have := hplain (migrateCall e.block_manager mr) (by
      rw [hp]
      exact List.mem_append_right _ (List.mem_map_of_mem hmr))
    cases this
  · rw [hp]
    exact hreq mr hmr

theorem Follows.of_after (h : Follows model e w) {results : List (List TokenId)}
    (hplain : ∀ c ∈ w.pending e.block_manager, c.isMigration = false)
    (hc : ComputesAfter model e e'
      (Workers.after model e.block_size { w with results } (w.pending e.block_manager))) :
    Follows model e' { w with results } := by
  obtain ⟨calls, hs, hc⟩ := hc
  obtain ⟨plain, hcalls, hquiet⟩ := hs.migration
  have hpending : Workers.pending { w with results } e'.block_manager =
      w.pending e.block_manager ++ calls :=
    ContextStageLLMEngine.pending_append h.executed_le hs.remote_calls
  refine ⟨?_, ?_, Or.inl ⟨w.pending e.block_manager ++ plain, ?_, ?_⟩⟩
  · rw [hs.remote_calls, List.length_append]
    exact Nat.le_add_right_of_le h.executed_le
  · rw [hpending, hs.block_size, Workers.after_append]
    exact hc
  · rw [hpending, hcalls, List.append_assoc]
  · exact fun c hc => (List.mem_append.mp hc).elim (hplain c) (hquiet c)

theorem Follows.begin_step {now : Nat} (hs : Sound e) (hf : Follows model e w)
    (hx : act decode e (.begin_step now) = some (.ok (e', cs))) : Follows model e' w := by
  have hp : e.point = .idle := by
    by_contra hp
    rw [act, if_neg hp] at hx
    cases hx
  exact hf.of_after (hf.plain (by simp [in_migration, hp]))
    (begin_step_computes hs hf.computes hx)

theorem Follows.wake (hs : Sound e) (hf : Follows model e w)
    (hx : act decode e .wake = some (.ok (e', cs))) : Follows model e' w := by
  have hp : e.point = .sleeping := by
    by_contra hp
    rw [act, if_neg hp] at hx
    cases hx
  exact hf.of_after (hf.plain (by simp [in_migration, hp])) (wake_computes hs hf.computes hx)

/-- A batch comes back. Its result is the answer of the model. -/
theorem Follows.batch_returns {ids : List TokenId} {results : List (List TokenId)} (hs : Sound e)
    (hf : Follows model e w) (hr : w.results = ids :: results)
    (hx : act decode e (.batch_returns ids) = some (.ok (e', cs))) :
    (∀ i ∈ e.batches_in_pipeline.head?, ids = answersOf model (e.scheduler.batch i).requests) ∧
      Follows model e' { w with results } := by
  have hp : e.point = .awaiting := by
    by_contra hp
    rw [act, if_neg hp] at hx
    cases hx
  obtain ⟨more, hmore, htake⟩ := Workers.after_take model e.block_size hr
    (w.pending e.block_manager)
  constructor
  · intro i hi
    obtain ⟨rest, hb⟩ := List.head?_eq_some_iff.mp hi
    exact hf.computes.result hs hp hb hmore
  · refine hf.of_after (hf.plain (by simp [in_migration, hp])) ?_
    rw [htake]
    exact batch_returns_computes hs hf.computes hmore hx

/-- A migration ends when no call for it waits. -/
theorem Follows.migration_ends (hs : Sound e) (hf : Follows model e w)
    (hplain : ∀ c ∈ w.pending e.block_manager, c.isMigration = false)
    (hx : act decode e .migration_ends = some (.ok (e', cs))) : Follows model e' w :=
  hf.of_after hplain (migration_ends_computes hs hf.computes (hf.migrated hplain) hx)

theorem Follows.add_request (hf : Follows model e w) (mr : MigratingRequest) :
    Follows model { e with scheduler := e.scheduler.add_request mr } w :=
  ⟨hf.executed_le, hf.computes.add_request mr, hf.migration⟩

/-- The blocks of a request come from the other workers. -/
theorem Computes.migrate {mr : MigratingRequest} {context_gpu : pages.Memory κ} (hs : Sound e)
    (hmig : e.in_migration = [mr]) (hc : Computes model e w)
    (hctx : pages.Holds e.block_size context_gpu mr.block_indexes
      (model.entries mr.req.prompt_token_ids)) :
    Computes model e (w.migrate_blocks context_gpu mr.block_indexes
        (e.block_manager.tableOf mr.req.request_id)) ∧
      Stores e.block_size e.block_manager (w.migrate_blocks context_gpu mr.block_indexes
        (e.block_manager.tableOf mr.req.request_id)).memory mr.req.request_id
          (model.entries mr.req.prompt_token_ids) := by
  have hmigrating : e.migrating = [mr.req] := by rw [migrating_eq, hmig, List.map_singleton]
  have hacc := hs.kept.accounts
  rw [hmigrating] at hacc
  have howned : e.block_manager.owned mr.req.request_id =
      some (.GPU, e.block_manager.tableOf mr.req.request_id) := hacc.owned_gpu (by simp)
  have hlen : (e.block_manager.tableOf mr.req.request_id).length = mr.block_indexes.length := by
    have hsize := hs.kept.waiting_sizes mr.req (by simp [hmigrating])
    rw [← allocated_eq, (hs.handed mr (by simp [hmig])).blocks]
    exact hsize
  have hnd : (e.block_manager.tableOf mr.req.request_id).Nodup := by
    rw [← heldAt_self howned]
    exact hacc.partitioned.held_nodup .GPU _
  -- the other requests have other blocks
  have hne : ∀ q ∈ e.unsent ++ e.in_flight, q.request_id ≠ mr.req.request_id := fun q hq hc => by
    have hnd := hs.nodup
    rw [present_eq, hmig, List.nodup_append'] at hnd
    have hq' := List.mem_map_of_mem (f := fun q : Request => q.request_id)
      (e.unsent_perm.mem_iff.mp hq)
    rw [hc] at hq'
    exact List.disjoint_left.mp hnd.2.2 (by simp) hq'
  have hothers : ∀ q ∈ e.unsent ++ e.in_flight, ∀ values : List κ,
      Stores e.block_size e.block_manager w.memory q.request_id values →
      Stores e.block_size e.block_manager (w.migrate_blocks context_gpu mr.block_indexes
        (e.block_manager.tableOf mr.req.request_id)).memory q.request_id values :=
    fun q hq values hv => hv.of_written hacc.partitioned howned (hne q hq) fun b hb =>
      copyAll_of_notMem _ _ fun hc => hb (by
        rwa [List.map_snd_zip hlen.le] at hc)
  refine ⟨⟨fun q hq => hothers q (List.mem_append_left _ hq) _ (hc.waiting q hq),
    fun q hq => hothers q (List.mem_append_right _ hq) _ (hc.working q hq), hc.results⟩, ?_⟩
  rw [stores_iff_holds howned]
  exact hctx.copyAll hlen hnd

/-- Only the bridge queue brings requests. -/
theorem Part.brings_none {first : DecodingStageLLMEngine} {a : Action}
    (h : Part decode a first e cs e') (ha : ∀ mr, a ≠ .add_request mr) :
    e'.scheduler.unaccepted_queue ++ e'.in_migration ⊆
      e.scheduler.unaccepted_queue ++ e.in_migration := by
  cases h with
  | pushes hs hp h =>
    have hun : e'.scheduler.unaccepted_queue = e.scheduler.unaccepted_queue := by
      rw [h.scheduler]
      exact (reschedules_batch h.schedules.toReschedules (turned_lt hs.kept.shaped)).2.2.2.2.2
    have hmig : e'.in_migration = [] := by
      rcases h.point with hp' | hp' <;> simp [in_migration, hp']
    rw [hun, hmig, List.append_nil]
    exact List.subset_append_left _ _
  | checks hs hp h hs' =>
    rw [h.in_migration_eq, hp, h.same]
    exact List.Subset.refl _
  | takes hs hp h =>
    rw [h.same]
    refine List.Subset.trans ?_ (List.subset_append_left _ _)
    rw [in_migration, took, List.append_nil]
    exact List.Subset.refl _
  | accepts hs hp h =>
    have hun : e'.scheduler.unaccepted_queue = e.scheduler.unaccepted_queue.tail := by
      rw [h.same]
      rfl
    rw [hun, h.in_migration_eq, h.head, List.tail_cons]
    intro mr hmr
    simp only [List.mem_append, List.mem_cons, List.not_mem_nil, or_false] at hmr ⊢
    tauto
  | ends hs hp =>
    rw [end_migration, in_migration, List.append_nil]
    exact List.subset_append_left _ _
  | adds hs hnew hh => exact absurd rfl (ha _)

/-- The tokens of the requests stay those of the model. -/
theorem Part.written {first : DecodingStageLLMEngine} {a : Action}
    (h : Part decode a first e cs e') (ha : ∀ mr, a ≠ .add_request mr)
    (hans : ∀ ids, a = .batch_returns ids → ∀ i ∈ first.batches_in_pipeline.head?,
      ids = answersOf model (first.scheduler.batch i).requests)
    (hw : ∀ q ∈ e.resting ++ e.in_flight, q.WrittenBy model) :
    ∀ q ∈ e'.resting ++ e'.in_flight, q.WrittenBy model := by
  intro q hq
  cases h with
  | pushes hs hp h =>
    apply hw q
    obtain ⟨hrest, hflight⟩ := h.serves hs hp
    rw [List.mem_append, hflight.mem_iff, List.mem_append] at hq
    rw [List.mem_append, hrest.mem_iff, List.mem_append]
    tauto
  | checks hs hp h hs' =>
    apply hw q
    have hmig := h.in_migration_eq
    unfold resting at hq ⊢
    rw [hmig] at hq
    rw [hp]
    rw [h.same] at hq
    exact hq
  | @takes _ _ i m ids hs hp h =>
    obtain rfl : ids = answersOf model (e.scheduler.batch i).requests :=
      hans ids rfl i (by rw [h.head]; rfl)
    obtain ⟨hflight, hrest⟩ := h.serves hs hp
    have hw' : ∀ r ∈ (e.scheduler.batch i).requests ++ e'.in_flight, r.WrittenBy model :=
      fun r hr => hw r (List.mem_append_right _ (hflight.mem_iff.mpr hr))
    rw [List.mem_append, hrest.mem_iff, List.mem_append] at hq
    rcases hq with (hq | hq) | hq
    · exact hw q (List.mem_append_left _ hq)
    · exact written_of_grown (fun r hr => hw' r (List.mem_append_left _ hr)) hq
    · exact hw' q (List.mem_append_right _ hq)
  | accepts hs hp h =>
    apply hw q
    have hin : e'.in_flight = e.in_flight := by
      rw [h.same]
      rfl
    rwa [List.mem_append, (h.resting hp).mem_iff, hin, ← List.mem_append] at hq
  | ends hs hp =>
    apply hw q
    rwa [List.mem_append, (resting_end_migration hp).mem_iff, ← List.mem_append] at hq
  | adds hs hnew hh => exact absurd rfl (ha _)

/-- The workers run their next call. -/
theorem Follows.run {c : RemoteCall} {calls : List RemoteCall} {context_gpu : pages.Memory κ}
    (hs : Sound e) (hf : Follows model e w) (hp : w.pending e.block_manager = c :: calls)
    (hctx : ∀ mr ∈ e.in_migration, pages.Holds e.block_size context_gpu mr.block_indexes
      (model.entries mr.req.prompt_token_ids)) :
    Follows model e { w.run_decoding_call model e.block_size context_gpu c with
      executed := w.executed + 1 } := by
  have hpending : e.block_manager.remote_calls.drop (w.executed + 1) = calls := by
    rw [← List.tail_drop]
    exact congrArg List.tail hp
  have hlt : w.executed + 1 ≤ e.block_manager.remote_calls.length := by
    have := congrArg List.length hp
    rw [Workers.pending, List.length_drop, List.length_cons] at this
    omega
  have hc := hf.computes
  rcases hf.migration with ⟨plain, hall, hplain⟩ | ⟨hnone, -⟩
  · cases plain with
    | nil =>
      -- the last call of a migration, with no other call before it
      rw [hp, List.nil_append] at hall
      obtain ⟨mr, hmig, rfl, rfl⟩ : ∃ mr, e.in_migration = [mr] ∧
          c = migrateCall e.block_manager mr ∧ calls = [] := by
        unfold in_migration at hall ⊢
        split at hall
        · next mr _ =>
          rw [List.map_singleton] at hall
          exact ⟨mr, rfl, (List.cons.inj hall).1, (List.cons.inj hall).2⟩
        · cases hall
      rw [hp] at hc
      have hrun := Computes.migrate hs hmig hc (hctx mr (by simp [hmig]))
      refine ⟨hlt, ?_, Or.inr ⟨hpending, ?_⟩⟩
      · rw [Workers.pending, hpending]
        exact ⟨hrun.1.waiting, hrun.1.working, hrun.1.results⟩
      · intro mr' hmr'
        rw [hmig, List.mem_singleton] at hmr'
        subst hmr'
        exact hrun.2
    | cons c' plain =>
      rw [hp, List.cons_append] at hall
      obtain ⟨rfl, hcalls⟩ := List.cons.inj hall
      have hplain' := hplain c List.mem_cons_self
      have hsame : w.run_decoding_call model e.block_size context_gpu c =
          w.run_call model e.block_size c := by
        cases c <;> first | rfl | cases hplain'
      rw [hp] at hc
      refine ⟨hlt, ?_, Or.inl ⟨plain, hpending.trans hcalls, fun c' hc' =>
        hplain c' (List.mem_cons_of_mem _ hc')⟩⟩
      rw [Workers.pending, hpending, hsame, Workers.after_executed]
      exact ⟨hc.waiting, hc.working, hc.results⟩
  · rw [hp] at hnone
    cases hnone

end DecodingStageLLMEngine

end distserve
