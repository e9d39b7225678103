-- What one part of an action does to the requests that an engine holds: where they
-- are, who waits for them, what was sent for them and how often their blocks were freed.
import RecomputeOrMigrate.ContextRun
import RecomputeOrMigrate.DecodingRun
import RecomputeOrMigrate.Serving

open calls runs

namespace distserve

/-- The requests whose resources a call frees. -/
def RemoteCall.frees : RemoteCall → List RequestId
  | .clear_request_resource request_id => [request_id]
  | .clear_request_resource_batched requests => requests.map (·.request_id)
  | _ => []

/-- The requests whose blocks an engine freed, in order. -/
def BlockManager.freed (m : BlockManager) : List RequestId :=
  m.remote_calls.flatMap RemoteCall.frees

/-- What a call sends for one request. The lists of a call `step` belong together. -/
def RemoteCall.sentFor (r : RequestId) : RemoteCall → List Sent
  | .step request_ids inputs firsts tables =>
    ((request_ids.zip (inputs.zip (firsts.zip tables))).filter (·.1 == r)).map
      fun (_, input, first, table) => ⟨input, first, table⟩
  | _ => []

/-- What an engine sent to its workers for one request, in order. -/
def BlockManager.sends (m : BlockManager) (r : RequestId) : List Sent :=
  m.remote_calls.flatMap (·.sentFor r)

namespace BlockManager

variable {m m' : BlockManager}

theorem freed_remote (c : RemoteCall) :
    (m.remote_call_all_workers_async c).freed = m.freed ++ c.frees := by
  simp [freed, remote_call_all_workers_async]

theorem freed_upkeep (h : OnlyCalls IsUpkeep m m') : m'.freed = m.freed := by
  apply h.flatMap_eq
  intro c hc
  rcases hc with (rfl | rfl) | ⟨rs, src, tgt, b, rfl⟩ <;> rfl

theorem freed_waits (h : OnlyWaits m m') : m'.freed = m.freed :=
  freed_upkeep (h.imp fun _ => Or.inl)

theorem freed_sendStep (rs : List Request) : (m.sendStep rs).freed = m.freed := by
  unfold sendStep
  split
  · rfl
  · rw [freed_remote]
    exact List.append_nil _

theorem sends_remote (c : RemoteCall) (r : RequestId) :
    (m.remote_call_all_workers_async c).sends r = m.sends r ++ c.sentFor r := by
  simp [sends, remote_call_all_workers_async]

theorem sends_upkeep (h : OnlyCalls IsUpkeep m m') : m'.sends = m.sends := by
  funext r
  apply h.flatMap_eq
  intro c hc
  rcases hc with (rfl | rfl) | ⟨rs, src, tgt, b, rfl⟩ <;> rfl

theorem sends_waits (h : OnlyWaits m m') : m'.sends = m.sends :=
  sends_upkeep (h.imp fun _ => Or.inl)

theorem sentFor_stepCall (rs : List Request) (r : RequestId) :
    (m.stepCall rs).sentFor r = Serving.sentFor rs m.tableOf r := by
  rw [stepCall, RemoteCall.sentFor, List.zip_map', List.zip_map', List.zip_map', List.filter_map,
    List.map_map, Serving.sentFor]
  apply List.map_congr_left
  intro q hq
  rw [← eq_of_beq (List.mem_filter.mp hq).2]
  rfl

theorem sends_sendStep (rs : List Request) (r : RequestId) :
    (m.sendStep rs).sends r = m.sends r ++ Serving.sentFor rs m.tableOf r := by
  unfold sendStep
  split
  · next hrs =>
    subst hrs
    exact (List.append_nil _).symm
  · rw [sends_remote, sentFor_stepCall]

theorem tableOf_sendStep (rs : List Request) : (m.sendStep rs).tableOf = m.tableOf := by
  unfold sendStep
  split <;> rfl

end BlockManager

/-! ## The context engine -/

namespace ContextStageLLMEngine

open BlockManager

/-- The ids of the requests that are in the engine or left it as finished, but not of
those that left it through the bridge queue. -/
def held (e : ContextStageLLMEngine) : List RequestId :=
  (e.scheduler.waiting_queue ++ e.in_flight ++ e.bridge_queue.map (·.req) ++
    e.finished_requests).map (·.request_id)

variable {e e' first : ContextStageLLMEngine} {decode : Tokenizer} {a : Action}
  {cs : List Callback}

theorem Pushed.held {now : Nat} {moved : List Request} (h : Pushed e now moved e') :
    e'.held.Perm e.held := by
  refine List.Perm.map _ (List.perm_iff_count.mpr fun q => ?_)
  rw [h.waiting, h.in_flight, h.bridge, h.finished]
  simp only [List.count_append]
  omega

theorem Took.held {batch : BatchedRequests} {rest : List BatchedRequests}
    (hb : e.batches_in_pipeline = batch :: rest) {tokens : List String} {ids : List TokenId}
    (h : Took e (BatchedRequests.growAll batch.requests tokens ids) e') : e'.held.Perm e.held := by
  have hids := BatchedRequests.ids_of_grown batch.requests tokens ids
  apply List.perm_iff_count.mpr
  intro r
  have := hids.count_eq r
  simp only [ContextStageLLMEngine.held, ContextStageLLMEngine.in_flight, h.waiting, h.pipeline,
    h.bridge, h.finished, hb, List.tail_cons, List.flatMap_cons, List.map_append, List.map_map,
    List.count_append] at this ⊢
  simp only [Function.comp_def] at this ⊢
  omega

theorem Pushed.freed {now : Nat} {moved : List Request} (h : Pushed e now moved e') :
    e'.block_manager.freed = e.block_manager.freed := by
  obtain ⟨m, hal, hm⟩ := h.manager
  rw [hm, freed_sendStep, freed_waits hal.waits]

theorem Took.freed {grown : List Request} (h : Took e grown e') :
    e'.block_manager.freed =
      e.block_manager.freed ++ (grown.filter (·.is_finished)).map (·.request_id) := by
  unfold BlockManager.freed
  rw [h.remote_calls, List.flatMap_append]
  congr 1
  rw [List.flatMap_map]
  exact List.flatMap_pure_eq_map _ _

theorem Pushed.sends {now : Nat} {moved : List Request} (h : Pushed e now moved e')
    (r : RequestId) : e'.block_manager.sends r =
      e.block_manager.sends r ++ Serving.sentFor moved e'.block_manager.tableOf r := by
  obtain ⟨m, hal, hm⟩ := h.manager
  rw [hm, sends_sendStep, tableOf_sendStep, sends_waits hal.waits]

theorem Took.sends {grown : List Request} (h : Took e grown e') :
    e'.block_manager.sends = e.block_manager.sends := by
  funext r
  unfold BlockManager.sends
  rw [h.remote_calls, List.flatMap_append, List.flatMap_map]
  exact (congrArg (_ ++ ·) (List.flatMap_eq_nil_iff.mpr fun _ _ => rfl)).trans (List.append_nil _)

theorem Cleared.sends {r : RequestId} (h : Cleared e r e') :
    e'.block_manager.sends = e.block_manager.sends := by
  obtain ⟨m, hf, hm⟩ := h.manager
  funext r'
  rw [hm, sends_remote, BlockManager.sends, hf.remote_calls]
  exact List.append_nil _

theorem Cleared.freed {r : RequestId} (h : Cleared e r e') :
    e'.block_manager.freed = e.block_manager.freed ++ [r] := by
  obtain ⟨m, hf, hm⟩ := h.manager
  rw [hm, freed_remote]
  simp [BlockManager.freed, hf.remote_calls, RemoteCall.frees]

/-- The first request of the bridge queue leaves the engine. -/
theorem held_bridge {mr : MigratingRequest} {rest : List MigratingRequest}
    (hb : e.bridge_queue = mr :: rest) :
    e.held.Perm (mr.req.request_id :: { e with bridge_queue := rest }.held) := by
  unfold held
  rw [hb, ← List.map_cons (f := fun q : Request => q.request_id)]
  refine List.Perm.map _ (List.perm_iff_count.mpr fun q => ?_)
  simp only [in_flight, List.map_cons, List.count_append, List.count_cons]
  omega

end ContextStageLLMEngine

/-! ## The decoding engine -/

namespace DecodingStageLLMEngine

open BlockManager DecodingStageFCFSScheduler

/-- The requests that the engine got and whose blocks on the other side it still needs. -/
def to_clear (e : DecodingStageLLMEngine) : List RequestId :=
  (e.scheduler.unaccepted_queue ++ e.in_migration).map (·.req.request_id)

/-- The requests that the engine has with their blocks. -/
def resident (e : DecodingStageLLMEngine) : List Request :=
  e.scheduler.waiting_queue ++ e.scheduler.batched ++ e.scheduler.swapped_queue

/-- The requests whose blocks on the other side are cleared. -/
def cleared (e : DecodingStageLLMEngine) : List RequestId :=
  (e.resident ++ e.finished_requests).map (·.request_id)

variable {e e' first : DecodingStageLLMEngine} {decode : Tokenizer} {a : Action}
  {cs : List Callback}

theorem present_perm (e : DecodingStageLLMEngine) :
    (e.to_clear ++ e.resident.map (·.request_id)).Perm e.present := by
  rw [present_eq]
  exact List.Perm.refl _

/-- A part that only moves requests within the engine. The blocks that it frees are those
of the requests that finish. -/
structure Quiet (e : DecodingStageLLMEngine) (cs : List Callback) (e' : DecodingStageLLMEngine) :
    Prop where
  to_clear : e'.to_clear.Perm e.to_clear
  cleared : e'.cleared.Perm e.cleared
  freed : e.block_manager.freed = e.finished_requests.map (·.request_id) →
    e'.block_manager.freed = e'.finished_requests.map (·.request_id)
  cache_config : e'.block_manager.cache_config = e.block_manager.cache_config
  sends : ∀ r ∉ e'.cleared, e'.block_manager.sends r = e.block_manager.sends r
  callbacks : ∀ mr, Callback.clear_migrated_blocks mr ∉ cs

theorem Pushed.freed {now : Nat} {s' : DecodingStageFCFSScheduler} {m : BlockManager}
    (h : Pushed e now s' m e') : e'.block_manager.freed = e.block_manager.freed := by
  unfold block_manager
  rw [h.scheduler]
  apply (freed_sendStep _).trans
  rw [freed_waits h.allocated.waits]
  exact freed_upkeep h.schedules.upkeep

theorem Pushed.sends {now : Nat} {s' : DecodingStageFCFSScheduler} {m : BlockManager}
    (h : Pushed e now s' m e') (r : RequestId) : e'.block_manager.sends r =
      e.block_manager.sends r ++
        Serving.sentFor (s'.batch s'.cur).requests e'.block_manager.tableOf r := by
  have hm : e'.block_manager = m.sendStep (s'.batch s'.cur).requests := by
    unfold block_manager
    rw [h.scheduler]
  rw [hm, sends_sendStep, tableOf_sendStep, sends_waits h.allocated.waits]
  exact congrArg (· r ++ _) (sends_upkeep h.schedules.upkeep)

theorem Took.sends {i : Nat} {tokens : List String} {ids : List TokenId} {m : BlockManager}
    (h : Took e i tokens ids m e') : e'.block_manager.sends = e.block_manager.sends := by
  funext r
  rw [h.same]
  apply (sends_remote _ r).trans
  unfold BlockManager.sends
  rw [h.freed.remote_calls]
  exact List.append_nil _

theorem Accepted.sends {mr : MigratingRequest} {m : BlockManager} (h : Accepted e mr m e') :
    e'.block_manager.sends = e.block_manager.sends := by
  funext r
  rw [h.same]
  apply (sends_remote _ r).trans
  rw [sends_waits h.allocated.waits]
  exact List.append_nil _

theorem Took.freed_eq {i : Nat} {tokens : List String} {ids : List TokenId} {m : BlockManager}
    (h : Took e i tokens ids m e') :
    e'.block_manager.freed = e.block_manager.freed ++ ((BatchedRequests.growAll
      (e.scheduler.batch i).requests tokens ids).filter (·.is_finished)).map (·.request_id) := by
  rw [h.same]
  apply freed_remote _ |>.trans
  unfold BlockManager.freed
  rw [h.freed.remote_calls]
  rfl

theorem Accepted.freed {mr : MigratingRequest} {m : BlockManager} (h : Accepted e mr m e') :
    e'.block_manager.freed = e.block_manager.freed := by
  rw [h.same]
  apply freed_remote _ |>.trans
  rw [freed_waits h.allocated.waits]
  exact List.append_nil _

theorem Pushed.quiet {now : Nat} {s' : DecodingStageFCFSScheduler} {m : BlockManager}
    (hs : Sound e) (hp : e.point = .idle) (h : Pushed e now s' m e') :
    Quiet e ((s'.batch s'.cur).requests.map fun q =>
      .engine_on_new_lifetime_event q.request_id .DecodingBegin true) e' := by
  have hfin : e'.finished_requests = e.finished_requests := by rw [h.same]; rfl
  refine ⟨?_, ?_, fun hf => by rw [h.freed, hf, hfin], ?_, fun r hr => ?_, by simp⟩
  · have hun : e'.scheduler.unaccepted_queue = e.scheduler.unaccepted_queue := by
      rw [h.scheduler]
      exact (reschedules_batch h.schedules.toReschedules (turned_lt hs.kept.shaped)).2.2.2.2.2
    have hmig : e'.in_migration = [] := by
      rcases h.point with hp' | hp' <;> simp [in_migration, hp']
    rw [DecodingStageLLMEngine.to_clear, DecodingStageLLMEngine.to_clear, hun, hmig,
      show e.in_migration = [] by simp [in_migration, hp]]
  · unfold DecodingStageLLMEngine.cleared
    rw [hfin]
    exact ((h.perm (turned_lt hs.kept.shaped)).append_right _).map _
  · unfold block_manager
    rw [h.scheduler]
    exact (cache_config_sendStep _).trans
      (h.allocated.cache_config.trans h.schedules.cache_config)
  · rw [h.sends, Serving.sentFor_of_notMem, List.append_nil]
    intro hc
    obtain ⟨q, hq, rfl⟩ := List.mem_map.mp hc
    have hbatch : q ∈ e'.scheduler.batched := by
      apply mem_batched_of_mem (i := s'.cur)
      rw [h.batch_cur hs.toCore]
      exact hq
    exact hr (List.mem_map_of_mem (by simp [resident, hbatch]))

theorem Took.quiet {i : Nat} {tokens : List String} {ids : List TokenId} {m : BlockManager}
    (hs : Sound e) (hp : e.point = .awaiting) (h : Took e i tokens ids m e') :
    Quiet e (result_outputs (BatchedRequests.growAll (e.scheduler.batch i).requests tokens ids)
      tokens ids) e' := by
  have hfin : e'.finished_requests = e.finished_requests ++ (BatchedRequests.growAll
      (e.scheduler.batch i).requests tokens ids).filter (·.is_finished) := by
    rw [h.same]
    rfl
  have hclear : e'.to_clear = e.to_clear := by
    rw [h.same]
    simp [DecodingStageLLMEngine.to_clear, took, in_migration, setBatch, hp]
  refine ⟨by rw [hclear], ?_, fun hf => by rw [h.freed_eq, hf, hfin, List.map_append], ?_,
    fun r _ => by rw [h.sends], ?_⟩
  · have hperm := h.perm hs hp
    have h1 := e'.present_perm
    have h2 := e.present_perm
    rw [hclear] at h1
    apply List.perm_iff_count.mpr
    intro r
    have hperm := hperm.count_eq r
    have h1 := h1.count_eq r
    have h2 := h2.count_eq r
    simp only [DecodingStageLLMEngine.cleared, hfin, List.map_append, List.count_append]
      at hperm h1 h2 ⊢
    omega
  · rw [h.same]
    exact h.freed.cache_config
  · intro mr hmr
    simp only [result_outputs, List.mem_flatMap, List.mem_cons] at hmr
    obtain ⟨o, -, hmr | hmr⟩ := hmr
    · cases hmr
    · split at hmr <;> simp at hmr

theorem Accepted.quiet {mr : MigratingRequest} {m : BlockManager} (hp : e.point = .idle)
    (h : Accepted e mr m e') :
    Quiet e [.engine_on_new_lifetime_event mr.req.request_id .MigrationBegin false] e' := by
  have hfin : e'.finished_requests = e.finished_requests := by rw [h.same]; rfl
  refine ⟨?_, ?_, fun hf => by rw [h.freed, hf, hfin], ?_, fun r _ => by rw [h.sends], by simp⟩
  · have hmig : e.in_migration = [] := by simp [in_migration, hp]
    have hclear : e'.to_clear =
        (e.scheduler.unaccepted_queue.tail ++ [mr]).map (·.req.request_id) := by
      rw [h.same]
      rfl
    rw [hclear, DecodingStageLLMEngine.to_clear, hmig, List.append_nil]
    conv_rhs => rw [h.head]
    exact (List.perm_append_singleton _ _).map _
  · rw [h.same]
    exact List.Perm.refl _
  · rw [h.same]
    exact h.allocated.cache_config

/-- A part is quiet, but for the end of a migration and a new request. -/
theorem Part.cases (h : Part decode a first e cs e') :
    Quiet e cs e' ∨
    (∃ mr, Sound e ∧ e.point = .migrating mr ∧ cs = (e.end_migration mr).2 ∧
      e' = (e.end_migration mr).1) ∨
    ∃ mr, a = .add_request mr := by
  cases h with
  | pushes hs hp h => exact Or.inl (h.quiet hs hp)
  | checks hs hp h hs' =>
    have hclear : e'.to_clear = e.to_clear := by
      have hmig : e'.in_migration = [] := by
        rcases h.point with hp' | hp' <;> simp [in_migration, hp']
      unfold DecodingStageLLMEngine.to_clear
      rw [hmig, hp, h.same]
    refine Or.inl ⟨by rw [hclear], ?_, ?_, ?_, fun _ _ => ?_, by simp⟩
    · rw [h.same]
      exact List.Perm.refl _
    · rw [h.same]
      exact id
    · rw [h.same]
      rfl
    · rw [h.same]
      rfl
  | takes hs hp h => exact Or.inl (h.quiet hs hp)
  | accepts hs hp h => exact Or.inl (h.quiet hp)
  | ends hs hp => exact Or.inr (Or.inl ⟨_, hs, hp, rfl, rfl⟩)
  | adds hs hnew hh => exact Or.inr (Or.inr ⟨_, rfl⟩)

/-- A request from the bridge queue. -/
theorem to_clear_add_request (e : DecodingStageLLMEngine) (mr : MigratingRequest) :
    { e with scheduler := e.scheduler.add_request mr }.to_clear.Perm
      (mr.req.request_id :: e.to_clear) := by
  unfold to_clear
  rw [← List.map_cons (f := fun mr : MigratingRequest => mr.req.request_id)]
  refine List.Perm.map _ (List.perm_iff_count.mpr fun q => ?_)
  simp only [add_request, in_migration, List.count_append, List.count_cons, List.count_nil]
  omega

/-- The end of a migration. -/
theorem end_migration_moves {mr : MigratingRequest} (hp : e.point = .migrating mr) :
    e.to_clear.Perm (mr.req.request_id :: (e.end_migration mr).1.to_clear) ∧
      (e.end_migration mr).1.cleared.Perm (mr.req.request_id :: e.cleared) := by
  have hmig : e.in_migration = [mr] := by simp [in_migration, hp]
  constructor
  · rw [to_clear, hmig, List.map_append]
    apply (List.perm_append_singleton _ _).trans
    simp [to_clear, end_migration, in_migration]
  · apply List.perm_iff_count.mpr
    intro r
    simp only [cleared, resident, end_migration, batched, List.map_append, List.map_cons,
      List.map_nil, List.count_append, List.count_cons, List.count_nil]
    omega

end DecodingStageLLMEngine

end distserve
