-- The events in the life of a request (lifetime.py): which of them the engines signal, and
-- at which place of the request.
import RecomputeOrMigrate.EnginesServe
import RecomputeOrMigrate.General.Phases

open calls runs phases

namespace distserve

/-! ## The events -/

/-- The events of a life, in the order of the comment in lifetime.py. -/
def lifetime : List LifetimeEventType :=
  [.Issued, .ContextBegin, .ContextEnd, .MigrationBegin, .MigrationEnd, .DecodingBegin,
    .DecodingEnd]

theorem lifetime_nodup : lifetime.Nodup := by decide

/-- The event of a callback about the request `r`, with `dont_add_if_dup`. -/
def Callback.eventFor (r : RequestId) : Callback → Option (LifetimeEventType × Bool)
  | .engine_on_new_lifetime_event request_id event_type dont_add_if_dup =>
    if request_id = r then some (event_type, dont_add_if_dup) else none
  | _ => none

/-- The events of some callbacks about the request `r`, in order. -/
def eventsFor (cs : List Callback) (r : RequestId) : List (LifetimeEventType × Bool) :=
  cs.filterMap (·.eventFor r)

theorem eventsFor_append (cs ds : List Callback) (r : RequestId) :
    eventsFor (cs ++ ds) r = eventsFor cs r ++ eventsFor ds r := List.filterMap_append

variable {cs : List Callback} {r : RequestId} {t : LifetimeEventType} {d : Bool}

theorem eventsFor_eq_nil (h : ∀ t d, .engine_on_new_lifetime_event r t d ∉ cs) :
    eventsFor cs r = [] := by
  apply List.filterMap_eq_nil_iff.mpr
  intro c hc
  cases c with
  | engine_on_new_lifetime_event r' t d =>
    apply if_neg
    rintro rfl
    exact h t d hc
  | _ => rfl

/-- One event for each of these requests. -/
theorem eventsFor_map {ids : List RequestId} (hnd : ids.Nodup) :
    eventsFor (ids.map fun r => .engine_on_new_lifetime_event r t d) r =
      if r ∈ ids then [(t, d)] else [] := by
  induction ids with
  | nil => rfl
  | cons a ids ih =>
    rw [List.nodup_cons] at hnd
    have ih := ih hnd.2
    unfold eventsFor at ih ⊢
    rw [List.map_cons, List.filterMap_cons, ih]
    by_cases ha : a = r
    · subst ha
      simp [Callback.eventFor, hnd.1]
    · have ha' : r ≠ a := fun hc => ha hc.symm
      simp [Callback.eventFor, ha, ha']

theorem eventsFor_requests {rs : List Request} (hnd : (rs.map (·.request_id)).Nodup)
    (r : RequestId) :
    eventsFor (rs.map fun q => .engine_on_new_lifetime_event q.request_id t d) r =
      if r ∈ rs.map (·.request_id) then [(t, d)] else [] := by
  rw [← eventsFor_map hnd, List.map_map]
  rfl

theorem eventsFor_one (q r : RequestId) :
    eventsFor [.engine_on_new_lifetime_event q t d] r = if r ∈ [q] then [(t, d)] else [] :=
  eventsFor_map (List.nodup_singleton q)

/-! ## The context engine -/

namespace ContextStageLLMEngine

/-- The requests with the number of their events, by their place. -/
def entered (e : ContextStageLLMEngine) : List (RequestId × Nat) :=
  e.scheduler.waiting_queue.map (fun q => (q.request_id, 1)) ++
    e.in_flight.map (fun q => (q.request_id, 2)) ++
    e.bridge_queue.map (fun mr => (mr.req.request_id, 3)) ++
    e.finished_requests.map (fun q => (q.request_id, 3))

variable {e e' first : ContextStageLLMEngine} {decode : Tokenizer} {a : Action}

theorem entered_keys (e : ContextStageLLMEngine) : e.entered.map Prod.fst = e.held := by
  simp [entered, held, List.map_map, Function.comp_def]

/-- Each request of a batch that came back has one event. -/
theorem eventsFor_result {grown : List Request} {ts : List String} {is : List TokenId}
    (r : RequestId) : eventsFor (result_outputs grown ts is) r =
      eventsFor (((step_outputs grown ts is).map (·.request_id)).map fun r =>
        .engine_on_new_lifetime_event r .ContextEnd false) r := by
  unfold result_outputs
  induction step_outputs grown ts is with
  | nil => rfl
  | cons o os ih =>
    rw [List.flatMap_cons, eventsFor_append, ih]
    unfold eventsFor
    rw [List.map_cons, List.map_cons, List.filterMap_cons, List.filterMap_cons]
    by_cases hr : o.request_id = r <;> simp [Callback.eventFor, hr]

theorem Pushed.enters {now : Nat} {moved : List Request} (h : Pushed e now moved e')
    (hnd : e.held.Nodup) :
    Enters lifetime e.entered (eventsFor (moved.map fun q =>
      .engine_on_new_lifetime_event q.request_id .ContextBegin false)) e'.entered := by
  have hmoved : (moved.map (·.request_id)).Nodup := by
    unfold ContextStageLLMEngine.held at hnd
    rw [h.waiting] at hnd
    simp only [List.map_append, List.append_assoc] at hnd
    exact (List.nodup_append.mp hnd).1
  set rest := e'.scheduler.waiting_queue.map (fun q => (q.request_id, 1)) ++
    e.in_flight.map (fun q => (q.request_id, 2)) ++
    e.bridge_queue.map (fun mr => (mr.req.request_id, 3)) ++
    e.finished_requests.map (fun q => (q.request_id, 3)) with hrest
  have hbefore : e.entered.Perm ((moved.map (·.request_id)).map (·, 1) ++
      rest) := by
    apply List.perm_iff_count.mpr
    intro p
    simp only [entered, hrest, h.waiting, List.map_append, List.map_map, Function.comp_def,
      List.count_append]
    omega
  have hafter : e'.entered.Perm ((moved.map (·.request_id)).map (·, 1 + 1) ++
      rest) := by
    apply List.perm_iff_count.mpr
    intro p
    simp only [entered, hrest, h.in_flight, h.bridge, h.finished, List.map_append, List.map_map,
      Function.comp_def, List.count_append, Nat.reduceAdd]
    omega
  exact .each rfl hbefore hafter (eventsFor_requests hmoved)

theorem Took.enters {batch : BatchedRequests} {rest : List BatchedRequests} {ids : List TokenId}
    (hbatch : e.batches_in_pipeline = batch :: rest) (h : Took e
      (BatchedRequests.growAll batch.requests (decode.decode_tokens ids) ids) e')
    (hlen : ids.length = batch.requests.length) (hnd : e.held.Nodup) :
    Enters lifetime e.entered (eventsFor (result_outputs (BatchedRequests.growAll batch.requests
      (decode.decode_tokens ids) ids) (decode.decode_tokens ids) ids)) e'.entered := by
  have htokens : (decode.decode_tokens ids).length = batch.requests.length := by
    unfold Tokenizer.decode_tokens
    rw [List.length_map]
    exact hlen
  have hids := ids_of_step_outputs htokens hlen
  have hflight : e.in_flight = batch.requests ++ e'.in_flight := by
    unfold in_flight
    rw [hbatch, h.pipeline, hbatch]
    rfl
  have hbatchnd : (batch.requests.map (·.request_id)).Nodup := by
    unfold ContextStageLLMEngine.held at hnd
    rw [hflight] at hnd
    simp only [List.map_append, List.append_assoc] at hnd
    exact (List.nodup_append.mp (List.nodup_append.mp hnd).2.1).1
  have hgrown := (BatchedRequests.ids_of_grown batch.requests (decode.decode_tokens ids) ids).map
    fun r => (r, 3)
  set others := e.scheduler.waiting_queue.map (fun q => (q.request_id, 1)) ++
    e'.in_flight.map (fun q => (q.request_id, 2)) ++
    e.bridge_queue.map (fun mr => (mr.req.request_id, 3)) ++
    e.finished_requests.map (fun q => (q.request_id, 3)) with hothers
  have hbefore : e.entered.Perm ((batch.requests.map (·.request_id)).map (·, 2) ++
      others) := by
    apply List.perm_iff_count.mpr
    intro p
    simp only [entered, hothers, hflight, List.map_append, List.map_map, Function.comp_def,
      List.count_append]
    omega
  have hafter : e'.entered.Perm ((batch.requests.map (·.request_id)).map (·, 2 + 1) ++
      others) := by
    apply List.perm_iff_count.mpr
    intro p
    have hgrown := hgrown.count_eq p
    simp only [entered, hothers, h.waiting, h.bridge, h.finished, List.map_append, List.map_map,
      Function.comp_def, List.count_append, Nat.reduceAdd] at hgrown ⊢
    omega
  apply Enters.each rfl hbefore hafter
  intro r
  rw [eventsFor_result, hids, eventsFor_map hbatchnd]

theorem Checked.entered (h : Checked e e') : e'.entered = e.entered := by
  rw [ContextStageLLMEngine.entered, ContextStageLLMEngine.entered, h.scheduler, h.in_flight,
    h.bridge, h.finished]

theorem Cleared.entered (h : Cleared e r e') : e'.entered = e.entered := by
  rw [h.same]
  rfl

/-- Only finished requests are added to those that left as finished. -/
theorem Part.finished (h : Part decode a first e cs e') {q : Request}
    (hq : q ∈ e'.finished_requests) : q ∈ e.finished_requests ∨ q.is_finished = true := by
  cases h with
  | pushes hs hp h => exact Or.inl (h.finished ▸ hq)
  | checks hs h => exact Or.inl (h.finished ▸ hq)
  | takes hs hp hb h =>
    rw [h.finished, List.mem_append, List.mem_filter] at hq
    exact hq.imp id And.right
  | adds hs hnew ht hf => exact Or.inl hq
  | gets hs hb => exact Or.inl hq
  | clears hs hun h =>
    rw [h.same] at hq
    exact Or.inl hq

end ContextStageLLMEngine

/-! ## The decoding engine -/

namespace DecodingStageLLMEngine

open DecodingStageFCFSScheduler

/-- The requests with the number of their events, by their place. A swapped request was in
a batch before. -/
def entered (e : DecodingStageLLMEngine) : List (RequestId × Nat) :=
  e.scheduler.unaccepted_queue.map (fun mr => (mr.req.request_id, 3)) ++
    e.in_migration.map (fun mr => (mr.req.request_id, 4)) ++
    e.scheduler.waiting_queue.map (fun q => (q.request_id, 5)) ++
    (e.scheduler.batched ++ e.scheduler.swapped_queue).map (fun q => (q.request_id, 6)) ++
    e.finished_requests.map (fun q => (q.request_id, 7))

variable {e e' first : DecodingStageLLMEngine} {decode : Tokenizer} {a : Action}

theorem entered_keys (e : DecodingStageLLMEngine) :
    e.entered.map Prod.fst = e.to_clear ++ e.cleared := by
  simp [entered, to_clear, cleared, resident, List.map_map, Function.comp_def]

/-- Each finished request of a batch that came back has one event. -/
theorem eventsFor_result {grown : List Request} {ts : List String} {is : List TokenId}
    (ht : ts.length = grown.length) (hi : is.length = grown.length) (r : RequestId) :
    eventsFor (result_outputs grown ts is) r =
      eventsFor (((grown.filter (·.is_finished)).map (·.request_id)).map fun r =>
        .engine_on_new_lifetime_event r .DecodingEnd false) r := by
  unfold result_outputs
  induction grown generalizing ts is with
  | nil =>
    cases ts <;> cases is <;> rfl
  | cons q grown ih =>
    obtain ⟨t, ts, rfl⟩ := List.exists_cons_of_length_eq_add_one ht
    obtain ⟨i, is, rfl⟩ := List.exists_cons_of_length_eq_add_one hi
    have ih := ih (Nat.succ.inj ht) (Nat.succ.inj hi)
    unfold step_outputs
    rw [List.flatMap_cons, eventsFor_append, ih, List.filter_cons]
    cases hq : q.is_finished with
    | false => simp [StepOutput.create, hq, eventsFor, Callback.eventFor]
    | true =>
      by_cases hr : q.request_id = r <;>
        simp [StepOutput.create, hq, eventsFor, Callback.eventFor, hr]

/-- The requests that left the waiting queue are in the batch that goes to the workers. The
swapped requests were in a batch before. -/
theorem Pushed.newly {now : Nat} {s' : DecodingStageFCFSScheduler} {m : BlockManager}
    (hs : Sound e) (h : Pushed e now s' m e') :
    ∃ newly : List Request,
      e.scheduler.waiting_queue.Perm (e'.scheduler.waiting_queue ++ newly) ∧
      (e'.scheduler.batched ++ e'.scheduler.swapped_queue).Perm
        (e.scheduler.batched ++ e.scheduler.swapped_queue ++ newly) ∧
      newly ⊆ (s'.batch s'.cur).requests := by
  have hcur := turned_lt hs.kept.shaped
  have hperm := h.perm hcur
  have hnd : (e.scheduler.waiting_queue ++ e.scheduler.batched ++
      e.scheduler.swapped_queue).Nodup := by
    have hpresent := hs.nodup
    rw [present_eq] at hpresent
    exact List.Nodup.of_map _ (List.nodup_append.mp hpresent).2.1
  have hnd' := hperm.nodup_iff.mpr hnd
  have hw : e'.scheduler.waiting_queue = s'.waiting_queue := by rw [h.scheduler]; rfl
  have hsw : e'.scheduler.swapped_queue = s'.swapped_queue := by rw [h.scheduler]; rfl
  rw [List.append_assoc] at hnd hnd'
  have hsub : e'.scheduler.waiting_queue ⊆ e.scheduler.waiting_queue := by
    rw [hw]
    exact h.schedules.waiting
  let stays := e.scheduler.waiting_queue.filter (· ∈ e'.scheduler.waiting_queue)
  let newly := e.scheduler.waiting_queue.filter fun q => !decide (q ∈ e'.scheduler.waiting_queue)
  have hstays : stays.Perm e'.scheduler.waiting_queue := by
    apply (List.perm_ext_iff_of_nodup ((List.nodup_append.mp hnd).1.filter _)
      (List.nodup_append.mp hnd').1).mpr
    intro q
    rw [List.mem_filter, decide_eq_true_eq]
    exact ⟨fun hq => hq.2, fun hq => ⟨hsub hq, hq⟩⟩
  have hsplit : e.scheduler.waiting_queue.Perm (e'.scheduler.waiting_queue ++ newly) :=
    ((List.filter_append_perm _ _).symm).trans (hstays.append_right newly)
  refine ⟨newly, hsplit, ?_, ?_⟩
  · apply List.perm_iff_count.mpr
    intro q
    have h1 := hperm.count_eq q
    have h2 := hsplit.count_eq q
    simp only [List.count_append] at h1 h2 ⊢
    omega
  · intro q hq
    obtain ⟨hwait, hleft⟩ := List.mem_filter.mp hq
    have hleft : q ∉ e'.scheduler.waiting_queue := by simpa using hleft
    have hold : q ∉ e.scheduler.batched ++ e.scheduler.swapped_queue := by
      intro hc
      exact (List.nodup_append.mp hnd).2.2 q hwait q hc rfl
    rw [List.mem_append, not_or] at hold
    have hall : q ∈ e'.scheduler.waiting_queue ++ e'.scheduler.batched ++
        e'.scheduler.swapped_queue := by
      apply hperm.mem_iff.mpr
      simp [hwait]
    rw [List.append_assoc, List.mem_append, List.mem_append] at hall
    rcases hall with hc | hbatched | hswapped
    · exact absurd hc hleft
    · obtain ⟨i, -, hqi⟩ := mem_batched.mp hbatched
      by_cases hi : i = s'.cur
      · rw [hi, h.batch_cur hs.toCore] at hqi
        exact hqi
      · rw [h.batch_ne hs.toCore hi] at hqi
        exact absurd (mem_batched_of_mem hqi) hold.1
    · rw [hsw] at hswapped
      rcases List.mem_append.mp (h.schedules.swapped hswapped) with hc | hc
      · exact absurd (mem_batched_of_mem hc) hold.1
      · exact absurd hc hold.2

theorem Pushed.enters {now : Nat} {s' : DecodingStageFCFSScheduler} {m : BlockManager}
    (hs : Sound e) (hp : e.point = .idle) (h : Pushed e now s' m e') :
    Enters lifetime e.entered (eventsFor ((s'.batch s'.cur).requests.map fun q =>
      .engine_on_new_lifetime_event q.request_id .DecodingBegin true)) e'.entered := by
  obtain ⟨newly, hwaiting, hbegun, hsub⟩ := h.newly hs
  have hcur : ((s'.batch s'.cur).requests.map (·.request_id)).Nodup :=
    batched_nodup_of_mem h.kept.batched_nodup (h.cur_lt hs.toCore)
  have hevents := eventsFor_requests (t := .DecodingBegin) (d := true) hcur
  have hun : e'.scheduler.unaccepted_queue = e.scheduler.unaccepted_queue := by
    rw [h.scheduler]
    exact (reschedules_batch h.schedules.toReschedules (turned_lt hs.kept.shaped)).2.2.2.2.2
  have hmig : e.in_migration = [] ∧ e'.in_migration = [] := by
    rcases h.point with hp' | hp' <;> simp [in_migration, hp, hp']
  have hfin : e'.finished_requests = e.finished_requests := by
    rw [h.same]
    rfl
  set rest := e.scheduler.unaccepted_queue.map (fun mr => (mr.req.request_id, 3)) ++
    e'.scheduler.waiting_queue.map (fun q => (q.request_id, 5)) ++
    (e.scheduler.batched ++ e.scheduler.swapped_queue).map (fun q => (q.request_id, 6)) ++
    e.finished_requests.map (fun q => (q.request_id, 7)) with hrest
  have hbefore : e.entered.Perm ((newly.map (·.request_id)).map (·, 5) ++ rest) := by
    apply List.perm_iff_count.mpr
    intro p
    have hw := (hwaiting.map fun q => (q.request_id, 5)).count_eq p
    simp only [entered, hrest, hmig.1, List.map_append, List.map_map, Function.comp_def,
      List.map_nil, List.count_append, List.count_nil] at hw ⊢
    omega
  have hafter : e'.entered.Perm ((newly.map (·.request_id)).map (·, 5 + 1) ++ rest) := by
    apply List.perm_iff_count.mpr
    intro p
    have hb := (hbegun.map fun q => (q.request_id, 6)).count_eq p
    simp only [entered, hrest, hun, hfin, hmig.2, List.map_append, List.map_map,
      Function.comp_def, List.map_nil, List.count_append, List.count_nil, Nat.reduceAdd] at hb ⊢
    omega
  refine .enters (t := .DecodingBegin) rfl hbefore hafter ?_ ?_
  · intro r hr
    refine ⟨true, ?_⟩
    rw [hevents, if_pos]
    exact List.map_subset _ hsub hr
  · intro r hr
    rw [hevents]
    by_cases hc : r ∈ (s'.batch s'.cur).requests.map (·.request_id)
    · -- the request was in a batch or swapped out before, and its event comes again
      right
      rw [if_pos hc]
      refine ⟨rfl, ?_⟩
      obtain ⟨q, hq, rfl⟩ := List.mem_map.mp hc
      have hq' : q ∈ e'.scheduler.batched := by
        apply mem_batched_of_mem (i := s'.cur)
        rw [h.batch_cur hs.toCore]
        exact hq
      have hold := hbegun.mem_iff.mp (List.mem_append_left e'.scheduler.swapped_queue hq')
      rw [List.mem_append] at hold
      rcases hold with hold | hold
      · have hmem := List.mem_map_of_mem (f := fun q : Request => (q.request_id, 6)) hold
        rw [hrest]
        exact List.mem_append_left _ (List.mem_append_right _ hmem)
      · exact absurd (List.mem_map_of_mem hold) hr
    · exact Or.inl (if_neg hc)

theorem Took.enters {i : Nat} {tokens : List String} {ids : List TokenId} {m : BlockManager}
    (hs : Sound e) (hp : e.point = .awaiting) (h : Took e i tokens ids m e')
    (ht : tokens.length = (e.scheduler.batch i).requests.length)
    (hi : ids.length = (e.scheduler.batch i).requests.length) :
    Enters lifetime e.entered (eventsFor (result_outputs (BatchedRequests.growAll
      (e.scheduler.batch i).requests tokens ids) tokens ids)) e'.entered := by
  set batch := (e.scheduler.batch i).requests with hbatch
  set grown := BatchedRequests.growAll batch tokens ids with hgrown
  have hilt := h.lt hs
  have hids := BatchedRequests.ids_of_grown batch tokens ids
  rw [← hgrown] at hids
  have hbatched := batched_ids_of_grown hilt tokens ids
  rw [← hbatch, ← hgrown] at hbatched
  have hfields : e'.scheduler.batched =
      (e.scheduler.setBatch i ⟨grown.filter fun q => !q.is_finished, none⟩).batched ∧
      e'.scheduler.unaccepted_queue = e.scheduler.unaccepted_queue ∧
      e'.scheduler.waiting_queue = e.scheduler.waiting_queue ∧
      e'.scheduler.swapped_queue = e.scheduler.swapped_queue ∧ e'.in_migration = [] ∧
      e'.finished_requests = e.finished_requests ++ grown.filter (·.is_finished) := by
    rw [h.same]
    exact ⟨rfl, rfl, rfl, rfl, rfl, rfl⟩
  obtain ⟨hb, hun, hw, hsw, hmig', hfin⟩ := hfields
  have hmig : e.in_migration = [] := by simp [in_migration, hp]
  have hnd : (batch.map (·.request_id)).Nodup := by
    have hpresent := hs.nodup
    rw [present_eq] at hpresent
    simp only [List.map_append] at hpresent
    exact batched_nodup_of_mem hpresent.of_append_right.of_append_left.of_append_right hilt
  have hfinnd : ((grown.filter (·.is_finished)).map (·.request_id)).Nodup :=
    (hids.nodup_iff.mpr hnd).of_append_left
  set rest := e.scheduler.unaccepted_queue.map (fun mr => (mr.req.request_id, 3)) ++
    e.scheduler.waiting_queue.map (fun q => (q.request_id, 5)) ++
    (e'.scheduler.batched ++ e.scheduler.swapped_queue).map (fun q => (q.request_id, 6)) ++
    e.finished_requests.map (fun q => (q.request_id, 7)) with hrest
  have hbefore : e.entered.Perm
      (((grown.filter (·.is_finished)).map (·.request_id)).map (·, 6) ++ rest) := by
    apply List.perm_iff_count.mpr
    intro p
    have hbatched := (hbatched.map fun r => (r, 6)).count_eq p
    simp only [entered, hrest, hb, hmig, List.map_append, List.map_map, Function.comp_def,
      List.map_nil, List.count_append, List.count_nil] at hbatched ⊢
    omega
  have hafter : e'.entered.Perm
      (((grown.filter (·.is_finished)).map (·.request_id)).map (·, 6 + 1) ++ rest) := by
    apply List.perm_iff_count.mpr
    intro p
    simp only [entered, hrest, hun, hw, hsw, hmig', hfin, List.map_append, List.map_map,
      Function.comp_def, List.map_nil, List.count_append, List.count_nil, Nat.reduceAdd]
    omega
  apply Enters.each rfl hbefore hafter
  intro r
  rw [eventsFor_result (by rw [hgrown, BatchedRequests.length_growAll, ht])
    (by rw [hgrown, BatchedRequests.length_growAll, hi]), eventsFor_map hfinnd]

theorem Accepted.enters {mr : MigratingRequest} {m : BlockManager} (hp : e.point = .idle)
    (h : Accepted e mr m e') :
    Enters lifetime e.entered (eventsFor
      [.engine_on_new_lifetime_event mr.req.request_id .MigrationBegin false]) e'.entered := by
  have hmig : e.in_migration = [] := by simp [in_migration, hp]
  have hentered : e'.entered = e.scheduler.unaccepted_queue.tail.map
      (fun mr => (mr.req.request_id, 3)) ++ [(mr.req.request_id, 4)] ++
      e.scheduler.waiting_queue.map (fun q => (q.request_id, 5)) ++
      (e.scheduler.batched ++ e.scheduler.swapped_queue).map (fun q => (q.request_id, 6)) ++
      e.finished_requests.map (fun q => (q.request_id, 7)) := by
    rw [h.same]
    rfl
  set rest := e.scheduler.unaccepted_queue.tail.map (fun mr => (mr.req.request_id, 3)) ++
    e.scheduler.waiting_queue.map (fun q => (q.request_id, 5)) ++
    (e.scheduler.batched ++ e.scheduler.swapped_queue).map (fun q => (q.request_id, 6)) ++
    e.finished_requests.map (fun q => (q.request_id, 7)) with hrest
  have hbefore : e.entered.Perm ([mr.req.request_id].map (·, 3) ++ rest) := by
    apply List.perm_iff_count.mpr
    intro p
    unfold entered
    rw [h.head, hmig]
    simp only [hrest, List.map_cons, List.map_nil, List.count_append, List.count_cons,
      List.count_nil]
    omega
  have hafter : e'.entered.Perm ([mr.req.request_id].map (·, 3 + 1) ++ rest) := by
    apply List.perm_iff_count.mpr
    intro p
    rw [hentered]
    simp only [hrest, List.map_cons, List.map_nil, List.count_append, List.count_cons,
      List.count_nil, Nat.reduceAdd]
    omega
  exact .each rfl hbefore hafter (eventsFor_one _)

theorem end_migration_enters {mr : MigratingRequest} (hp : e.point = .migrating mr) :
    Enters lifetime e.entered (eventsFor (e.end_migration mr).2)
      (e.end_migration mr).1.entered := by
  have hmig : e.in_migration = [mr] := by simp [in_migration, hp]
  have hentered : (e.end_migration mr).1.entered = e.scheduler.unaccepted_queue.map
      (fun mr => (mr.req.request_id, 3)) ++
      (e.scheduler.waiting_queue ++ [mr.req]).map (fun q => (q.request_id, 5)) ++
      (e.scheduler.batched ++ e.scheduler.swapped_queue).map (fun q => (q.request_id, 6)) ++
      e.finished_requests.map (fun q => (q.request_id, 7)) := by
    simp [entered, end_migration, in_migration, batched]
  set rest := e.scheduler.unaccepted_queue.map (fun mr => (mr.req.request_id, 3)) ++
    e.scheduler.waiting_queue.map (fun q => (q.request_id, 5)) ++
    (e.scheduler.batched ++ e.scheduler.swapped_queue).map (fun q => (q.request_id, 6)) ++
    e.finished_requests.map (fun q => (q.request_id, 7)) with hrest
  have hbefore : e.entered.Perm ([mr.req.request_id].map (·, 4) ++ rest) := by
    apply List.perm_iff_count.mpr
    intro p
    unfold entered
    rw [hmig]
    simp only [hrest, List.map_cons, List.map_nil, List.count_append, List.count_cons,
      List.count_nil]
    omega
  have hafter : (e.end_migration mr).1.entered.Perm
      ([mr.req.request_id].map (·, 4 + 1) ++ rest) := by
    apply List.perm_iff_count.mpr
    intro p
    rw [hentered]
    simp only [hrest, List.map_append, List.map_cons, List.map_nil, List.count_append,
      List.count_cons, List.count_nil, Nat.reduceAdd]
    omega
  exact .each rfl hbefore hafter (eventsFor_one _)

theorem Checked.entered (hp : e.in_migration = []) (h : Checked e e') : e'.entered = e.entered := by
  have hmig : e'.in_migration = [] := by
    rcases h.point with hp' | hp' <;> simp [in_migration, hp']
  unfold DecodingStageLLMEngine.entered
  rw [hmig, hp, h.same]

/-- Only finished requests are added to those that left as finished. -/
theorem Part.finished (h : Part decode a first e cs e') {q : Request}
    (hq : q ∈ e'.finished_requests) : q ∈ e.finished_requests ∨ q.is_finished = true := by
  cases h with
  | pushes hs hp h =>
    rw [h.same] at hq
    exact Or.inl hq
  | checks hs hp h hs' =>
    rw [h.same] at hq
    exact Or.inl hq
  | takes hs hp h =>
    rw [h.same] at hq
    rcases List.mem_append.mp hq with hq | hq
    · exact Or.inl hq
    · exact Or.inr (List.mem_filter.mp hq).2
  | accepts hs hp h =>
    rw [h.same] at hq
    exact Or.inl hq
  | ends hs hp => exact Or.inl hq
  | adds hs hnew hh => exact Or.inl hq

end DecodingStageLLMEngine

/-! ## Both engines -/

namespace Engines

variable {s s' first : Engines} {decode : Tokenizer} {a : Action}
  {log log' : RequestId → Option (List LifetimeEventType)}

/-- The requests of both engines with the number of their events. -/
def entered (s : Engines) : List (RequestId × Nat) :=
  s.context_engine.entered ++ s.decoding_engine.entered

/-- Each request that was added is in one place. -/
theorem Linked.entered_keys (h : Linked s) :
    (s.entered.map Prod.fst).Perm (s.added.map (·.request_id)) := by
  rw [entered, List.map_append, ContextStageLLMEngine.entered_keys,
    DecodingStageLLMEngine.entered_keys, ← List.append_assoc]
  exact h.once

theorem Linked.entered_nodup (h : Linked s) : (s.entered.map Prod.fst).Nodup :=
  h.entered_keys.nodup_iff.mpr h.nodup

/-- A new request waits for the context engine. -/
theorem entered_add_request (s : Engines) (q : Request) :
    (s.add_request q).entered.Perm ((q.request_id, 1) :: s.entered) := by
  apply List.perm_iff_count.mpr
  intro p
  simp only [entered, add_request, ContextStageLLMEngine.entered,
    ContextStageLLMEngine.add_request, ContextStageFCFSScheduler.add_request,
    ContextStageLLMEngine.in_flight, List.map_append, List.map_cons, List.map_nil,
    List.count_append, List.count_cons, List.count_nil]
  omega

theorem context_enters {b : ContextStageLLMEngine.Action} {c : ContextStageLLMEngine}
    (ha : a.of_context = some b) (hans : Answered first a) (hl : Linked s)
    (h : ContextStageLLMEngine.Part decode b first.context_engine s.context_engine cs c) :
    Enters lifetime s.context_engine.entered (eventsFor cs) c.entered := by
  have hheld : s.context_engine.held.Nodup :=
    (hl.once.nodup_iff.mpr hl.nodup).of_append_left.of_append_left
  obtain ⟨e, d, added⟩ := s
  obtain ⟨e0, d0, added0⟩ := first
  dsimp only at h hheld ⊢
  cases h with
  | pushes hs hp h => exact h.enters hheld
  | checks hs h => exact .stays (List.Perm.of_eq h.entered) fun r => rfl
  | @takes _ _ batch rest ids hs hp hbatch h =>
    have hlen : ids.length = batch.requests.length := by
      cases a <;> cases ha
      exact length_of_answered hs hbatch hans
    exact h.enters hbatch hlen hheld
  | adds hs hnew ht hf => cases a <;> cases ha
  | gets hs hb => cases a <;> cases ha
  | clears hs hun h => cases a <;> cases ha

theorem decoding_enters {b : DecodingStageLLMEngine.Action} {d : DecodingStageLLMEngine}
    (ha : a.of_decoding = some b) (hans : Answered first a)
    (h : DecodingStageLLMEngine.Part decode b first.decoding_engine s.decoding_engine cs d) :
    Enters lifetime s.decoding_engine.entered (eventsFor cs) d.entered := by
  obtain ⟨c, e, added⟩ := s
  obtain ⟨c0, e0, added0⟩ := first
  dsimp only at h ⊢
  cases h with
  | pushes hs hp h => exact h.enters hs hp
  | checks hs hp h hs' => exact .stays (List.Perm.of_eq (h.entered hp)) fun r => rfl
  | @takes _ _ i m ids hs hp h =>
    have hlen : ids.length = (e.scheduler.batch i).requests.length := by
      cases a <;> cases ha
      exact length_of_answered_batch hs h.head hans
    exact h.enters hs hp (by rw [Tokenizer.decode_tokens, List.length_map, hlen]) hlen
  | accepts hs hp h => exact h.enters hp
  | ends hs hp => exact DecodingStageLLMEngine.end_migration_enters hp
  | adds hs hnew hh => cases a <;> cases ha

/-- In each part of an action, some requests enter the same phase. -/
theorem Part.enters (h : Part decode a first s cs s') (ha : ∀ q, a ≠ .add_request q)
    (hl : Linked s) : Enters lifetime s.entered (eventsFor cs) s'.entered := by
  cases h with
  | adds haction hs hnew ht hf => exact absurd haction (ha _)
  | context haction hans h => exact (context_enters haction hans hl h).append _
  | @bridges mr rest haction hs hhead =>
    refine .stays ?_ fun r => rfl
    apply List.perm_iff_count.mpr
    intro p
    simp only [entered, ContextStageLLMEngine.entered, DecodingStageLLMEngine.entered, hhead,
      ContextStageLLMEngine.in_flight, DecodingStageLLMEngine.in_migration,
      DecodingStageFCFSScheduler.add_request, DecodingStageFCFSScheduler.batched, List.map_cons,
      List.map_append, List.map_nil, List.count_append, List.count_cons, List.count_nil]
    omega
  | decoding haction hans h hq =>
    exact (decoding_enters haction hans h).prepend _
  | @migrates s mr c hs hp hcs hun hc =>
    change Enters lifetime s.entered _
      (c.entered ++ (s.decoding_engine.end_migration mr).1.entered)
    rw [hc.entered]
    exact (DecodingStageLLMEngine.end_migration_enters hp).prepend _

/-- The list of each request after an action. -/
theorem Does.logged (h : Does decode a s cs s') (ha : ∀ q, a ≠ .add_request q) (hl : Linked s)
    (hlog : Logged lifetime s.entered log)
    (hlog' : ∀ r, log' r = (log r).map fun events => recordAll events (eventsFor cs r)) :
    Logged lifetime s'.entered log' := by
  induction h generalizing log' with
  | refl =>
    have heq : log' = log := by
      funext r
      rw [hlog']
      cases log r <;> rfl
    rw [heq]
    exact hlog
  | @tail s₁ s₂ before cs hdoes hpart ih =>
    have hmid : Logged lifetime s₁.entered fun r => (log r).map fun events =>
        recordAll events (eventsFor before r) := ih fun r => rfl
    refine (hpart.enters ha (Does.linked hdoes hl)).logged hmid lifetime_nodup
      (Does.linked hdoes hl).entered_nodup fun r => ?_
    rw [hlog', Option.map_map, eventsFor_append]
    congr 1
    funext events
    exact recordAll_append ..

/-! ## The finished requests -/

/-- The requests that left an engine as finished. -/
def finished_requests (s : Engines) : List Request :=
  s.context_engine.finished_requests ++ s.decoding_engine.finished_requests

/-- A request with all events left the decoding engine as finished. -/
theorem finished_of_entered {r : RequestId} {n : Nat} (h : (r, n) ∈ s.entered) (hn : 6 < n) :
    r ∈ s.finished_requests.map (·.request_id) := by
  simp only [entered, ContextStageLLMEngine.entered, DecodingStageLLMEngine.entered,
    List.mem_append, List.mem_map, Prod.mk.injEq] at h
  unfold finished_requests
  rw [List.map_append, List.mem_append]
  rcases h with (((h | h) | h) | h) | ((((h | h) | h) | h) | h)
  on_goal 9 => exact Or.inr (List.mem_map.mpr (h.imp fun q hq => ⟨hq.1, hq.2.1⟩))
  all_goals
    obtain ⟨q, -, -, hq⟩ := h
    omega

/-- A finished request is at no other place. -/
theorem Sound.finished_place (hs : Sound s) {q : Request} (hq : q ∈ s.requests)
    (hf : q.is_finished = true) : q ∈ s.finished_requests := by
  have hfresh := hs.context_sound.fresh
  have hgrowing := hs.decoding_sound.kept.growing
  have hhanded := hs.decoding_sound.handed
  have hunsent : ∀ i ∈ s.decoding_engine.scheduler.batch_queues, q ∉ i.requests := by
    intro b hb hc
    have hmem : q ∈ s.decoding_engine.scheduler.batched := List.mem_flatMap.mpr ⟨b, hb, hc⟩
    have hno := (hgrowing q (by simp [hmem])).1.1
    simp [hf] at hno
  simp only [requests, ContextStageLLMEngine.resting, DecodingStageLLMEngine.resting,
    List.mem_append] at hq
  unfold finished_requests
  rw [List.mem_append]
  rcases hq with (((hq | hq) | hq) | ((((hq | hq) | hq) | hq) | hq)) | (hq | hq)
  · have hno := (hfresh q (List.mem_append_left _ hq)).2
    simp [hf] at hno
  · obtain ⟨mr, hmr, rfl⟩ := List.mem_map.mp hq
    have hno := (hs.linked.handed mr hmr).not_finished
    simp [hf] at hno
  · exact Or.inl hq
  · obtain ⟨mr, hmr, rfl⟩ := List.mem_map.mp hq
    have hno := (hhanded mr hmr).not_finished
    simp [hf] at hno
  · have hno := (hgrowing q (by simp [hq])).1.1
    simp [hf] at hno
  · obtain ⟨b, hb, hqb⟩ := List.mem_flatMap.mp hq
    unfold DecodingStageLLMEngine.unsentOf at hqb
    split at hqb
    · exact absurd hqb (hunsent b hb)
    · cases hqb
  · have hno := (hgrowing q (by simp [hq])).1.1
    simp [hf] at hno
  · exact Or.inr hq
  · have hno := (hfresh q (List.mem_append_right _ hq)).2
    simp [hf] at hno
  · obtain ⟨b, hb, hqb⟩ := List.mem_flatMap.mp hq
    unfold DecodingStageLLMEngine.sentOf at hqb
    split at hqb
    · cases hqb
    · exact absurd hqb (hunsent b hb)

/-- Only finished requests leave an engine as finished. -/
theorem Part.finished (h : Part decode a first s cs s')
    (hs : ∀ q ∈ s.finished_requests, q.is_finished = true) :
    ∀ q ∈ s'.finished_requests, q.is_finished = true := by
  unfold finished_requests at hs ⊢
  cases h with
  | adds haction hs' hnew ht hf => exact hs
  | context haction hans h =>
    intro q hq
    rcases List.mem_append.mp hq with hq | hq
    · exact (h.finished hq).elim (fun hq => hs q (List.mem_append_left _ hq)) id
    · exact hs q (List.mem_append_right _ hq)
  | bridges haction hs' hhead => exact hs
  | decoding haction hans h hquiet =>
    intro q hq
    rcases List.mem_append.mp hq with hq | hq
    · exact hs q (List.mem_append_left _ hq)
    · exact (h.finished hq).elim (fun hq => hs q (List.mem_append_right _ hq)) id
  | @migrates s mr c hs' hp hcs hun hc =>
    intro q hq
    rw [hc.same] at hq
    exact hs q hq

theorem Does.finished (h : Does decode a s cs s')
    (hs : ∀ q ∈ s.finished_requests, q.is_finished = true) :
    ∀ q ∈ s'.finished_requests, q.is_finished = true :=
  Emits.invariant (fun _ _ _ hs hpart => hpart.finished hs) h hs

end Engines

end distserve
