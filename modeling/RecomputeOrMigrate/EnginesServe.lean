-- The two engines serve: each part of an action is a step of the machine that knows
-- only which requests rest and which are with the workers.
import RecomputeOrMigrate.EnginesRun

open calls runs

namespace distserve

/-- Blocks that are counted for a length hold that many tokens. -/
theorem CacheConfig.le_blocks_for (c : CacheConfig) (length : Nat) :
    length ≤ c.blocks_for length * c.block_size := by
  have h := Nat.div_add_mod (length + c.block_size - 1) c.block_size
  have hlt := Nat.mod_lt (length + c.block_size - 1) c.block_size_pos
  have hpos := c.block_size_pos
  unfold blocks_for
  rw [Nat.mul_comm]
  omega

/-- The outputs among some callbacks. -/
def outputsOf (cs : List Callback) : List StepOutput :=
  cs.filterMap fun
    | .engine_on_new_step_output _ step_output => some step_output
    | _ => none

theorem outputsOf_append (cs ds : List Callback) :
    outputsOf (cs ++ ds) = outputsOf cs ++ outputsOf ds := List.filterMap_append

/-! ## The requests of each engine -/

namespace ContextStageLLMEngine

/-- The requests in the context engine that are not with the workers. -/
def resting (e : ContextStageLLMEngine) : List Request :=
  e.scheduler.waiting_queue ++ e.bridge_queue.map (·.req) ++ e.finished_requests

variable {e e' : ContextStageLLMEngine}

theorem Pushed.resting {now : Nat} {moved : List Request} (h : Pushed e now moved e') :
    e.resting = moved ++ e'.resting := by
  unfold ContextStageLLMEngine.resting
  rw [h.waiting, h.bridge, h.finished]
  simp only [List.append_assoc]

theorem outputsOf_result (grown : List Request) (tokens : List String) (ids : List TokenId) :
    outputsOf (result_outputs grown tokens ids) = step_outputs grown tokens ids := by
  unfold outputsOf result_outputs
  rw [List.filterMap_flatMap]
  exact List.flatMap_singleton' _

theorem Took.resting {grown : List Request} (h : Took e grown e') :
    e'.resting.Perm (e.resting ++ grown) := by
  have hparts := List.filter_append_perm (fun q : Request => q.is_finished) grown
  apply List.perm_iff_count.mpr
  intro q
  have := hparts.count_eq q
  simp only [ContextStageLLMEngine.resting, h.waiting, h.bridge, h.finished, List.map_append,
    List.map_map, Function.comp_def, List.map_id', List.count_append] at this ⊢
  omega

end ContextStageLLMEngine

namespace DecodingStageLLMEngine

open BlockManager DecodingStageFCFSScheduler

/-- The requests of a batch that has started. -/
def sentOf (b : BatchedRequests) : List Request := if b.start_time = none then [] else b.requests

/-- The requests of a batch that has not started. -/
def unsentOf (b : BatchedRequests) : List Request := if b.start_time = none then b.requests else []

def in_flight (e : DecodingStageLLMEngine) : List Request := e.scheduler.batch_queues.flatMap sentOf

/-- The requests in the decoding engine that are not with the workers. -/
def resting (e : DecodingStageLLMEngine) : List Request :=
  (e.scheduler.unaccepted_queue ++ e.in_migration).map MigratingRequest.req ++
    e.scheduler.waiting_queue ++ e.scheduler.batch_queues.flatMap unsentOf ++
    e.scheduler.swapped_queue ++ e.finished_requests

theorem sentOf_sent (rs : List Request) (now : Nat) : sentOf (sent rs now) = rs := by
  by_cases h : rs = [] <;> simp [sentOf, sent, h]

theorem unsentOf_sent (rs : List Request) (now : Nat) : unsentOf (sent rs now) = [] := by
  by_cases h : rs = [] <;> simp [unsentOf, sent, h]

variable {e e' : DecodingStageLLMEngine}

theorem Pushed.batch_queues {now : Nat} {s' : DecodingStageFCFSScheduler} {m : BlockManager}
    (h : Pushed e now s' m e') : e'.scheduler.batch_queues =
      e.scheduler.batch_queues.set s'.cur (sent (s'.batch s'.cur).requests now) := by
  obtain ⟨rs, hs⟩ := h.schedules.same
  have hq : s'.batch_queues = e.scheduler.batch_queues.set s'.cur
      { e.scheduler.batch s'.cur with requests := rs } := by
    rw [h.schedules.cur, hs]
    rfl
  rw [h.scheduler]
  apply (congrArg (List.set · s'.cur _) hq).trans
  rw [List.set_set]

/-- The current batch goes to the workers. -/
theorem Pushed.serves {now : Nat} {s' : DecodingStageFCFSScheduler} {m : BlockManager}
    (hs : Sound e) (hp : e.point = .idle) (h : Pushed e now s' m e') :
    e.resting.Perm ((s'.batch s'.cur).requests ++ e'.resting) ∧
      e'.in_flight.Perm (e.in_flight ++ (s'.batch s'.cur).requests) := by
  set rs := (s'.batch s'.cur).requests with hrs
  have hcur := turned_lt hs.kept.shaped
  have hi : s'.cur < e.scheduler.batch_queues.length := by
    rw [h.schedules.cur]
    exact hcur
  have hstart : (e.scheduler.batch_queues[s'.cur]).start_time = none := by
    rw [← batch_eq hi]
    by_contra hc
    exact h.cur_notMem hs hp (hs.started _ hc)
  have hsent : sentOf e.scheduler.batch_queues[s'.cur] = [] := if_pos hstart
  have hunsent : unsentOf e.scheduler.batch_queues[s'.cur] =
      (e.scheduler.batch s'.cur).requests := by
    rw [batch_eq hi]
    exact if_pos hstart
  have hfields : e'.scheduler.unaccepted_queue = e.scheduler.unaccepted_queue ∧
      e'.scheduler.waiting_queue = s'.waiting_queue ∧
      e'.scheduler.swapped_queue = s'.swapped_queue ∧
      e'.finished_requests = e.finished_requests := by
    refine ⟨?_, by rw [h.scheduler]; rfl, by rw [h.scheduler]; rfl, by rw [h.same]; rfl⟩
    rw [h.scheduler]
    exact (reschedules_batch h.schedules.toReschedules hcur).2.2.2.2.2
  obtain ⟨hun, hw, hsw, hfin⟩ := hfields
  have hmig : e.in_migration = [] ∧ e'.in_migration = [] := by
    rcases h.point with hp' | hp' <;> simp [in_migration, hp, hp']
  have hperm := h.schedules.perm
  rw [← h.schedules.cur, ← hrs] at hperm
  constructor
  · apply List.perm_iff_count.mpr
    intro q
    have h1 := hperm.count_eq q
    have h2 := counting.count_flatMap_set unsentOf hi (sent rs now) q
    rw [hunsent, unsentOf_sent] at h2
    change _ = List.count q ((e.scheduler.batch s'.cur).requests ++ e.scheduler.swapped_queue ++
      e.scheduler.waiting_queue) at h1
    simp only [resting, h.batch_queues, hun, hw, hsw, hfin, hmig, ← hrs, List.count_append,
      List.count_nil, List.append_nil] at h1 h2 ⊢
    omega
  · apply List.perm_iff_count.mpr
    intro q
    have h2 := counting.count_flatMap_set sentOf hi (sent rs now) q
    rw [hsent, sentOf_sent] at h2
    unfold in_flight
    rw [h.batch_queues, List.count_append]
    exact h2

theorem outputsOf_result (grown : List Request) (tokens : List String) (ids : List TokenId) :
    outputsOf (result_outputs grown tokens ids) = step_outputs grown tokens ids := by
  unfold outputsOf result_outputs
  rw [List.filterMap_flatMap]
  refine (List.flatMap_congr fun o _ => ?_).trans (List.flatMap_singleton' _)
  cases o.is_finished <;> rfl

/-- The batch at the head of the pipeline comes back. -/
theorem Took.serves {i : Nat} {tokens : List String} {ids : List TokenId} {m : BlockManager}
    (hs : Sound e) (hp : e.point = .awaiting) (h : Took e i tokens ids m e') :
    e.in_flight.Perm ((e.scheduler.batch i).requests ++ e'.in_flight) ∧
      e'.resting.Perm (e.resting ++
        BatchedRequests.growAll (e.scheduler.batch i).requests tokens ids) := by
  set grown := BatchedRequests.growAll (e.scheduler.batch i).requests tokens ids with hgrown
  have hi := h.lt hs
  have hstart : (e.scheduler.batch_queues[i]).start_time ≠ none := by
    rw [← batch_eq hi]
    intro hc
    have := h.finish
    unfold BatchedRequests.finish_one_iteration at this
    rw [if_pos hc] at this
    cases this
  have hsent : sentOf e.scheduler.batch_queues[i] = (e.scheduler.batch i).requests := by
    rw [batch_eq hi]
    exact if_neg hstart
  have hunsent : unsentOf e.scheduler.batch_queues[i] = [] := if_neg hstart
  have hqueues : e'.scheduler.batch_queues =
      e.scheduler.batch_queues.set i ⟨grown.filter fun q => !q.is_finished, none⟩ := by
    rw [h.same]
    rfl
  constructor
  · apply List.perm_iff_count.mpr
    intro q
    have h2 := counting.count_flatMap_set sentOf hi
      ⟨grown.filter fun q => !q.is_finished, none⟩ q
    rw [hsent] at h2
    unfold in_flight
    rw [hqueues, List.count_append]
    simp only [sentOf, if_true, List.count_nil] at h2 ⊢
    omega
  · have hparts := List.filter_append_perm (fun q : Request => q.is_finished) grown
    have hmig : e.in_migration = [] := by simp [in_migration, hp]
    have hrest : e'.resting = (e.scheduler.unaccepted_queue ++ []).map MigratingRequest.req ++
        e.scheduler.waiting_queue ++ e'.scheduler.batch_queues.flatMap unsentOf ++
        e.scheduler.swapped_queue ++ (e.finished_requests ++ grown.filter (·.is_finished)) := by
      rw [h.same]
      rfl
    apply List.perm_iff_count.mpr
    intro q
    have h1 := hparts.count_eq q
    have h2 := counting.count_flatMap_set unsentOf hi
      ⟨grown.filter fun q => !q.is_finished, none⟩ q
    rw [hunsent] at h2
    rw [hrest, resting, hmig, hqueues]
    simp only [unsentOf, if_true, List.count_append, List.count_nil] at h1 h2 ⊢
    omega

theorem Accepted.resting {mr : MigratingRequest} {m : BlockManager} (hp : e.point = .idle)
    (h : Accepted e mr m e') : e'.resting.Perm e.resting := by
  have hmig : e.in_migration = [] := by simp [in_migration, hp]
  have hrest : e'.resting =
      (e.scheduler.unaccepted_queue.tail ++ [mr]).map MigratingRequest.req ++
      e.scheduler.waiting_queue ++ e.scheduler.batch_queues.flatMap unsentOf ++
      e.scheduler.swapped_queue ++ e.finished_requests := by
    rw [h.same]
    rfl
  rw [hrest, DecodingStageLLMEngine.resting, hmig, List.append_nil]
  conv_rhs => rw [h.head]
  refine List.Perm.append_right _ (List.Perm.append_right _ (List.Perm.append_right _
    (List.Perm.append_right _ (List.Perm.map _ ?_))))
  exact List.perm_append_singleton _ _

theorem resting_add_request (e : DecodingStageLLMEngine) (mr : MigratingRequest) :
    { e with scheduler := e.scheduler.add_request mr }.resting.Perm (mr.req :: e.resting) := by
  apply List.perm_iff_count.mpr
  intro q
  simp only [resting, add_request, in_migration, List.map_append, List.map_cons, List.map_nil,
    List.count_append, List.count_cons, List.count_nil]
  omega

theorem resting_end_migration {mr : MigratingRequest} (hp : e.point = .migrating mr) :
    (e.end_migration mr).1.resting.Perm e.resting := by
  have hmig : e.in_migration = [mr] := by simp [in_migration, hp]
  apply List.perm_iff_count.mpr
  intro q
  unfold resting
  rw [hmig]
  simp only [end_migration, in_migration, List.map_append, List.map_cons, List.map_nil,
    List.count_append, List.count_nil]
  omega

end DecodingStageLLMEngine

namespace Engines

/-- The requests as they are now. -/
def requests (s : Engines) : List Request :=
  (s.context_engine.resting ++ s.decoding_engine.resting) ++
    (s.context_engine.in_flight ++ s.decoding_engine.in_flight)

/-- What was sent for a request. The decoding stage comes after the context stage. -/
def sends (s : Engines) (r : RequestId) : List Sent :=
  s.context_engine.block_manager.sends r ++ s.decoding_engine.block_manager.sends r

/-- The two engines as a machine that serves, when these outputs were told. -/
def serving (s : Engines) (outputs : RequestId → List StepOutput) : Serving where
  added := s.added
  resting := ↑(s.context_engine.resting ++ s.decoding_engine.resting)
  with_workers := ↑(s.context_engine.in_flight ++ s.decoding_engine.in_flight)
  sends := s.sends
  outputs

theorem requests_serving (s : Engines) (outputs : RequestId → List StepOutput) :
    (s.serving outputs).requests = ↑s.requests := Multiset.coe_add _ _

/-- The outputs after some callbacks. -/
def told (outputs : RequestId → List StepOutput) (cs : List Callback) (r : RequestId) :
    List StepOutput :=
  outputs r ++ (outputsOf cs).filter (·.request_id == r)

theorem told_of_none {cs : List Callback} (h : outputsOf cs = [])
    (outputs : RequestId → List StepOutput) : told outputs cs = outputs := by
  funext r
  simp [told, h]

theorem told_append (outputs : RequestId → List StepOutput) (cs ds : List Callback) :
    told outputs (cs ++ ds) = told (told outputs cs) ds := by
  funext r
  simp [told, outputsOf_append, List.filter_append]

variable {s s' first : Engines} {decode : Tokenizer} {a : Action} {cs : List Callback}
  {cc : CacheConfig} {outputs : RequestId → List StepOutput}

theorem context_serves {b : ContextStageLLMEngine.Action} {c : ContextStageLLMEngine}
    (ha : a.of_context = some b) (hans : Answered first a) (hl : Linked s)
    (hcc : s.context_engine.block_manager.cache_config = cc)
    (h : ContextStageLLMEngine.Part decode b first.context_engine s.context_engine cs c) :
    Serving.Step cc.block_size (s.serving outputs)
      ({ s with context_engine := c }.serving (told outputs cs)) := by
  obtain ⟨e, d, added⟩ := s
  obtain ⟨e0, d0, added0⟩ := first
  dsimp only at h hcc
  cases h with
  | @pushes _ _ now moved hs hp h =>
    have hfresh : ∀ q ∈ moved, q.generated_token_ids = [] ∧ q.is_finished = false := fun q hq =>
      hs.fresh q (by rw [h.waiting]; simp [hq])
    have hnone : outputsOf (moved.map fun q => Callback.engine_on_new_lifetime_event q.request_id
        .ContextBegin false) = [] := by
      simp [outputsOf, List.filterMap_map]
    refine .of_sends moved c.block_manager.tableOf rfl ?_ ?_ (fun r => ?_)
      (fun r => by rw [told_of_none hnone]; rfl) (fun q hq => (hfresh q hq).2) fun q hq => ?_
    · simp only [serving, h.resting, Multiset.coe_add, List.append_assoc]
    · simp only [serving, h.in_flight, Multiset.coe_add, Multiset.coe_eq_coe, List.append_assoc]
      exact List.Perm.append_left _ List.perm_append_comm
    · simp only [serving, sends, h.sends, List.append_assoc]
      by_cases hr : r ∈ moved.map (·.request_id)
      · have hheld : r ∈ e.held := by
          unfold ContextStageLLMEngine.held
          rw [h.waiting]
          simp only [List.map_append, List.mem_append]
          exact Or.inl (Or.inl (Or.inl (Or.inl hr)))
        rw [hl.decoding_sends r (hl.notMem_held hheld).2, List.append_nil, List.nil_append]
      · rw [Serving.sentFor_of_notMem hr, List.append_nil, List.nil_append]
    · have halloc := h.allocated hs q (by rw [h.in_flight]; simp [hq])
      rw [BlockManager.allocated_eq] at halloc
      rw [halloc, q.length_text, Request.get_output_len, (hfresh q hq).1, ← hcc]
      exact CacheConfig.le_blocks_for _ _
  | checks hs h =>
    refine .of_stays rfl ?_ ?_ (fun r => ?_) fun r => by rw [told_of_none rfl]; rfl
    · simp only [serving, ContextStageLLMEngine.resting, h.scheduler, h.bridge, h.finished]
    · simp only [serving, h.in_flight]
    · simp only [serving, sends, ContextStageLLMEngine.block_manager, h.scheduler]
  | @takes _ _ batch rest ids hs hp hb h =>
    have hlen : ids.length = batch.requests.length := by
      cases a <;> cases ha
      exact length_of_answered hs hb hans
    refine .of_answers batch.requests (decode.decode_tokens ids) ids rfl ?_ ?_
      (fun r => ?_) (fun r => ?_) (by rw [Tokenizer.decode_tokens, List.length_map, hlen]) hlen
    · simp only [serving, ContextStageLLMEngine.in_flight, hb, h.pipeline, List.tail_cons,
        List.flatMap_cons, Multiset.coe_add, List.append_assoc]
    · simp only [serving, Multiset.coe_add, Multiset.coe_eq_coe]
      apply (h.resting.append_right _).trans
      rw [List.append_assoc, List.append_assoc]
      exact List.Perm.append_left _ List.perm_append_comm
    · simp only [serving, sends, h.sends]
    · simp only [serving, told, ContextStageLLMEngine.outputsOf_result]
  | adds hs hnew ht hf => cases a <;> cases ha
  | gets hs hb => cases a <;> cases ha
  | clears hs hun h => cases a <;> cases ha

/-- An answered batch has a token for each request. -/
theorem length_of_answered_batch {e : DecodingStageLLMEngine} {i : Nat} {rest : List Nat}
    {ids : List TokenId} (hs : e.Sound) (hb : e.batches_in_pipeline = i :: rest)
    (h : answers e.batches_ret_futures ids = true) :
    ids.length = (e.scheduler.batch i).requests.length := by
  have hf := hs.futures
  rw [hb] at hf
  obtain ⟨f, futures, hbf, -, hfs⟩ := List.forall₂_cons_left_iff.mp hf
  rw [hfs] at h
  exact length_of_answers hbf h

theorem decoding_serves {b : DecodingStageLLMEngine.Action} {d : DecodingStageLLMEngine}
    (ha : a.of_decoding = some b) (hans : Answered first a)
    (hcc : s.decoding_engine.block_manager.cache_config = cc)
    (h : DecodingStageLLMEngine.Part decode b first.decoding_engine s.decoding_engine cs d) :
    Serving.Step cc.block_size (s.serving outputs)
      ({ s with decoding_engine := d }.serving (told outputs cs)) := by
  obtain ⟨c, e, added⟩ := s
  obtain ⟨c0, e0, added0⟩ := first
  dsimp only at h hcc
  cases h with
  | @pushes _ _ now s' m hs hp h =>
    obtain ⟨hrest, hsent⟩ := h.serves hs hp
    have hgrow : ∀ q ∈ (s'.batch s'.cur).requests, DecodingStageFCFSScheduler.Growing q :=
      fun q hq => h.kept.growing q
        (by simp [DecodingStageFCFSScheduler.mem_batched_of_mem hq])
    have hnone : outputsOf ((s'.batch s'.cur).requests.map fun q =>
        Callback.engine_on_new_lifetime_event q.request_id .DecodingBegin true) = [] := by
      simp [outputsOf, List.filterMap_map]
    refine .of_sends (s'.batch s'.cur).requests d.block_manager.tableOf rfl ?_ ?_
      (fun r => ?_) (fun r => by rw [told_of_none hnone]; rfl) (fun q hq => (hgrow q hq).1.1)
      fun q hq => ?_
    · simp only [serving, Multiset.coe_add, Multiset.coe_eq_coe]
      apply (hrest.append_left _).trans
      rw [← List.append_assoc, ← List.append_assoc]
      exact List.Perm.append_right _ List.perm_append_comm
    · simp only [serving, Multiset.coe_add, Multiset.coe_eq_coe, List.append_assoc]
      exact hsent.append_left _
    · simp only [serving, sends, h.sends, List.append_assoc]
    · have hm : d.block_manager.tableOf = m.tableOf := by
        unfold DecodingStageLLMEngine.block_manager
        rw [h.scheduler]
        exact BlockManager.tableOf_sendStep _
      have hconfig : s'.block_manager.cache_config = cc :=
        h.schedules.cache_config.trans hcc
      have halloc := h.allocated.allocated q hq
      rw [BlockManager.allocated_eq, BlockManager.get_num_blocks_needed, hconfig] at halloc
      rw [hm, halloc, q.length_text]
      exact (CacheConfig.le_blocks_for _ _).trans
        (Nat.mul_le_mul_right _ (Nat.le_max_left _ _))
  | checks hs hp h hs' =>
    refine .of_stays rfl ?_ ?_ (fun r => ?_) fun r => by rw [told_of_none rfl]; rfl
    · have hmig : d.in_migration = [] := by
        rcases h.point with hp' | hp' <;> simp [DecodingStageLLMEngine.in_migration, hp']
      simp only [serving, DecodingStageLLMEngine.resting, hmig, hp]
      rw [h.same]
    · simp only [serving, DecodingStageLLMEngine.in_flight]
      rw [h.same]
    · simp only [serving, sends]
      rw [h.same]
      rfl
  | @takes _ _ i m ids hs hp h =>
    obtain ⟨hsent, hrest⟩ := h.serves hs hp
    have hlen : ids.length = (e.scheduler.batch i).requests.length := by
      cases a <;> cases ha
      exact length_of_answered_batch hs h.head hans
    refine .of_answers (e.scheduler.batch i).requests (decode.decode_tokens ids) ids rfl ?_ ?_
      (fun r => ?_) (fun r => ?_)
      (by rw [Tokenizer.decode_tokens, List.length_map, hlen]) hlen
    · simp only [serving, Multiset.coe_add, Multiset.coe_eq_coe]
      apply (hsent.append_left _).trans
      rw [← List.append_assoc, ← List.append_assoc]
      exact List.Perm.append_right _ List.perm_append_comm
    · simp only [serving, Multiset.coe_add, Multiset.coe_eq_coe, List.append_assoc]
      exact hrest.append_left _
    · simp only [serving, sends, h.sends]
    · simp only [serving, told, DecodingStageLLMEngine.outputsOf_result]
  | accepts hs hp h =>
    refine .of_stays rfl ?_ ?_ (fun r => ?_) fun r => by rw [told_of_none rfl]; rfl
    · simp only [serving, Multiset.coe_eq_coe]
      exact (h.resting hp).append_left _
    · simp only [serving, DecodingStageLLMEngine.in_flight]
      rw [h.same]
      rfl
    · simp only [serving, sends, h.sends]
  | ends hs hp =>
    refine .of_stays rfl ?_ rfl (fun r => rfl) fun r => by rw [told_of_none rfl]; rfl
    simp only [serving, Multiset.coe_eq_coe]
    exact (DecodingStageLLMEngine.resting_end_migration hp).append_left _
  | adds hs hnew hh => cases a <;> cases ha

/-- Each part of an action is a step of the machine. -/
theorem Part.serves (hl : Linked s)
    (hcc : s.context_engine.block_manager.cache_config = cc)
    (h : Part decode a first s cs s') (outputs : RequestId → List StepOutput) :
    Serving.Step cc.block_size (s.serving outputs) (s'.serving (told outputs cs)) := by
  cases h with
  | @adds q ha hs hnew ht hf =>
    refine .of_arrives rfl ?_ rfl (fun r => rfl) (fun r => by rw [told_of_none rfl]; rfl) hnew ht hf
    simp only [serving, Multiset.cons_coe, Multiset.coe_eq_coe]
    apply List.perm_iff_count.mpr
    intro p
    simp only [ContextStageLLMEngine.resting, ContextStageLLMEngine.add_request,
      ContextStageFCFSScheduler.add_request, List.count_append, List.count_cons, List.count_nil]
    omega
  | context ha hans h => exact context_serves ha hans hl hcc h
  | @bridges mr rest ha hs hb =>
    refine .of_stays rfl ?_ rfl (fun r => rfl) fun r => by rw [told_of_none rfl]; rfl
    simp only [serving, Multiset.coe_eq_coe]
    apply List.perm_iff_count.mpr
    intro p
    have := (s.decoding_engine.resting_add_request mr).count_eq p
    simp only [ContextStageLLMEngine.resting, hb, List.map_cons, List.count_append,
      List.count_cons] at this ⊢
    omega
  | decoding ha hans h hq => exact decoding_serves ha hans (hl.same_blocks.symm.trans hcc) h
  | migrates hs hp hcs hun hc =>
    refine .of_stays rfl ?_ ?_ (fun r => ?_) fun r => by rw [told_of_none rfl]; rfl
    · simp only [serving, Multiset.coe_eq_coe]
      rw [hc.same]
      exact (DecodingStageLLMEngine.resting_end_migration hp).append_left _
    · simp only [serving]
      rw [hc.same]
      rfl
    · simp only [serving, sends, hc.sends]
      rfl

/-! ## Every run -/

theorem Part.cache_config (h : Part decode a first s cs s') :
    s'.context_engine.block_manager.cache_config =
      s.context_engine.block_manager.cache_config := by
  cases h with
  | adds ha hs hnew ht hf => rfl
  | context ha hans h => exact congrArg (fun config => config.2.1) h.config
  | bridges ha hs hb => rfl
  | decoding ha hans h hq => rfl
  | migrates hs hp hcs hun hc => exact congrArg (fun config => config.2.1) hc.config

/-- The invariant of the machine after an action, with the outputs of the action. -/
theorem Does.served (h : Does decode a s cs s') (hl : Linked s)
    (hcc : s.context_engine.block_manager.cache_config = cc)
    (hv : Serving.Served cc.block_size (s.serving outputs)) :
    Serving.Served cc.block_size (s'.serving (told outputs cs)) ∧
      s'.context_engine.block_manager.cache_config = cc := by
  induction h with
  | refl => exact ⟨by rwa [told_of_none rfl], hcc⟩
  | tail hdoes hpart ih =>
    have hl' : Linked _ := Does.linked hdoes hl
    rw [told_append]
    exact ⟨(hpart.serves hl' ih.2 _).served ih.1, hpart.cache_config.trans ih.2⟩

/-- All batches are empty at first. -/
theorem batches_create (c : EnginesConfig) (f : BatchedRequests → List Request)
    (hf : f .empty = []) :
    (create c).decoding_engine.scheduler.batch_queues.flatMap f = [] := by
  apply List.flatMap_eq_nil_iff.mpr
  intro b hb
  rw [List.eq_of_mem_replicate hb, hf]

theorem served_create (c : EnginesConfig) (block_size : Nat) :
    Serving.Served block_size ((create c).serving fun _ => []) := by
  have hunsent := batches_create c DecodingStageLLMEngine.unsentOf rfl
  have hrest : (create c).decoding_engine.resting = [] :=
    congrArg (fun l => [] ++ [] ++ l ++ [] ++ []) hunsent
  have hsent : (create c).decoding_engine.in_flight = [] := batches_create c _ rfl
  have hresting : ((create c).serving fun _ => []).resting = 0 := by
    simp only [serving, hrest]
    rfl
  have hworking : ((create c).serving fun _ => []).with_workers = 0 := by
    simp only [serving, hsent]
    rfl
  have hnone : ((create c).serving fun _ => []).requests = 0 := by
    unfold Serving.requests
    rw [hresting, hworking]
    rfl
  refine ⟨by rw [hnone]; rfl, .nil, fun _ _ => ⟨rfl, rfl⟩, ?_, ?_, ?_, fun r x hx => by cases hx⟩
  · rw [hresting]
    exact fun q hq => absurd hq (Multiset.notMem_zero q)
  · rw [hworking]
    exact fun q hq => absurd hq (Multiset.notMem_zero q)
  · rw [hnone]
    exact fun q hq => absurd hq (Multiset.notMem_zero q)

/-- In every state of every run, the engines serve with some outputs. -/
theorem served_of_reaches {c : EnginesConfig} (h : Reaches (step decode) (create c) s) :
    ∃ outputs, Serving.Served c.cache_config.block_size (s.serving outputs) := by
  have hsound : runs.Sound (step decode) (fun s => Sound s ∧
      s.context_engine.block_manager.cache_config = c.cache_config ∧
        ∃ outputs, Serving.Served c.cache_config.block_size (s.serving outputs))
      DecodingStageFCFSScheduler.CpuShortage := by
    refine sound_withoutOutput fun s a x hI hx => (act_gives hI.1 hx).imp ?_ fun _ herr => herr.2.2
    rintro ⟨s', cs⟩ ⟨hs', hdoes⟩
    obtain ⟨hs, hcc, outputs, hv⟩ := hI
    obtain ⟨hv', hcc'⟩ := Does.served hdoes hs.linked hcc hv
    exact ⟨hs', hcc', _, hv'⟩
  exact (hsound.invariant ⟨sound_create c, rfl, _, served_create c _⟩ h).2.2

end Engines

end distserve
