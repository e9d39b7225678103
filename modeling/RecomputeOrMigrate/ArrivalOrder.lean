-- The order in which requests go through the context stage and the bridge. Whatever the
-- interleaving of the loops, no request overtakes another one before it is migrated.
import RecomputeOrMigrate.EnginesRun

open calls runs

namespace distserve

/-! ## The events of one type -/

/-- The request of a callback that signals an event of this type. -/
def Callback.idOf (t : LifetimeEventType) : Callback → Option RequestId
  | .engine_on_new_lifetime_event request_id event_type _ =>
    if event_type = t then some request_id else none
  | _ => none

/-- The requests with an event of this type, in the order of the events. -/
def eventIds (t : LifetimeEventType) (log : List Callback) : List RequestId :=
  log.filterMap (Callback.idOf t)

variable {t t' : LifetimeEventType} {d : Bool}

@[simp] theorem eventIds_nil : eventIds t [] = [] := rfl

@[simp] theorem eventIds_append (cs cs' : List Callback) :
    eventIds t (cs ++ cs') = eventIds t cs ++ eventIds t cs' := List.filterMap_append

@[simp] theorem eventIds_requests (rs : List Request) :
    eventIds t (rs.map fun q => .engine_on_new_lifetime_event q.request_id t' d) =
      if t' = t then rs.map (·.request_id) else [] := by
  unfold eventIds
  rw [List.filterMap_map]
  by_cases h : t' = t
  · simp [Callback.idOf, h]
  · simp [Callback.idOf, h]

@[simp] theorem eventIds_one (r : RequestId) :
    eventIds t [.engine_on_new_lifetime_event r t' d] = if t' = t then [r] else [] := by
  unfold eventIds
  by_cases h : t' = t
  · simp [Callback.idOf, h]
  · simp [Callback.idOf, h]

/-- The requests of a batch that comes back end their context stage in its order. -/
theorem eventIds_context_result (grown : List Request) (ts : List String) (is : List TokenId) :
    eventIds t (ContextStageLLMEngine.result_outputs grown ts is) =
      if t = .ContextEnd then (step_outputs grown ts is).map (·.request_id) else [] := by
  unfold ContextStageLLMEngine.result_outputs eventIds
  induction step_outputs grown ts is with
  | nil => simp
  | cons o os ih =>
    rw [List.flatMap_cons, List.filterMap_append, ih]
    by_cases h : t = .ContextEnd
    · simp [Callback.idOf, h]
    · have h' : LifetimeEventType.ContextEnd ≠ t := fun heq => h heq.symm
      simp [Callback.idOf, h, h']

theorem eventIds_decoding_result (ht : t ≠ .DecodingEnd) (grown : List Request)
    (ts : List String) (is : List TokenId) :
    eventIds t (DecodingStageLLMEngine.result_outputs grown ts is) = [] := by
  have hne : LifetimeEventType.DecodingEnd ≠ t := fun heq => ht heq.symm
  unfold DecodingStageLLMEngine.result_outputs eventIds
  induction step_outputs grown ts is with
  | nil => rfl
  | cons o os ih =>
    rw [List.flatMap_cons, List.filterMap_append, ih]
    split <;> simp [Callback.idOf, hne]

/-! ## The context engine -/

/-- In a batch with distinct ids, those that stay are those that are not finished. -/
theorem unfinished_ids {rs : List Request} (hnodup : (rs.map (·.request_id)).Nodup) :
    (rs.map (·.request_id)).filter (· ∉ (rs.filter (·.is_finished)).map (·.request_id)) =
      (rs.filter fun q => !q.is_finished).map (·.request_id) := by
  rw [List.filter_map]
  refine congrArg (List.map _) (List.filter_congr ?_)
  intro q hq
  cases hfinished : q.is_finished with
  | true =>
    apply decide_eq_false
    exact not_not.mpr (List.mem_map_of_mem (List.mem_filter.mpr ⟨hq, hfinished⟩))
  | false =>
    apply decide_eq_true
    intro hmem
    obtain ⟨q', hq', hid⟩ := List.mem_map.mp hmem
    obtain ⟨hq', hfinished'⟩ := List.mem_filter.mp hq'
    rw [List.inj_on_of_nodup_map hnodup hq' hq hid, hfinished] at hfinished'
    cases hfinished'

namespace ContextStageLLMEngine

variable {e e' first : ContextStageLLMEngine} {decode : Tokenizer} {a : Action}
  {cs : List Callback}

/-- The ids of the requests in the pipeline and in the queues before and after it. -/
def waiting_ids (e : ContextStageLLMEngine) : List RequestId :=
  e.scheduler.waiting_queue.map (·.request_id)

def batched_ids (e : ContextStageLLMEngine) : List RequestId := e.in_flight.map (·.request_id)

def bridge_ids (e : ContextStageLLMEngine) : List RequestId :=
  e.bridge_queue.map (·.req.request_id)

def finished_ids (e : ContextStageLLMEngine) : List RequestId :=
  e.finished_requests.map (·.request_id)

/-- The requests move on in order, and each that does not finish goes to the bridge queue. -/
structure Forwards (e : ContextStageLLMEngine) (cs : List Callback) (e' : ContextStageLLMEngine)
    (finished : List RequestId) : Prop where
  begun : eventIds .ContextBegin cs ++ e'.waiting_ids = e.waiting_ids
  ended : eventIds .ContextEnd cs ++ (e'.batched_ids ++ e'.waiting_ids) =
    e.batched_ids ++ e.waiting_ids
  finished_eq : e'.finished_ids = e.finished_ids ++ finished
  subset : finished ⊆ eventIds .ContextEnd cs
  bridge : e'.bridge_ids = e.bridge_ids ++ (eventIds .ContextEnd cs).filter (· ∉ finished)
  no_begin : eventIds .MigrationBegin cs = []
  no_end : eventIds .MigrationEnd cs = []

/-- Nothing moves. -/
theorem forwards_of_eq (hwaiting : e'.waiting_ids = e.waiting_ids)
    (hbatched : e'.batched_ids = e.batched_ids) (hfinished : e'.finished_ids = e.finished_ids)
    (hbridge : e'.bridge_ids = e.bridge_ids) : Forwards e [] e' [] := by
  constructor <;> simp [hwaiting, hbatched, hfinished, hbridge]

theorem Pushed.forwards {now : Nat} {moved : List Request} (h : Pushed e now moved e') :
    Forwards e (moved.map fun q => .engine_on_new_lifetime_event q.request_id .ContextBegin false)
      e' [] := by
  have hwaiting : e.waiting_ids = moved.map (·.request_id) ++ e'.waiting_ids := by
    unfold waiting_ids
    rw [h.waiting, List.map_append]
  have hbatched : e'.batched_ids = e.batched_ids ++ moved.map (·.request_id) := by
    unfold batched_ids
    rw [h.in_flight, List.map_append]
  constructor
  · simp [hwaiting]
  · simp [hwaiting, hbatched]
  · simp [finished_ids, h.finished]
  · simp
  · simp [bridge_ids, h.bridge]
  · simp
  · simp

theorem Took.forwards {batch : BatchedRequests} {rest : List BatchedRequests} {ids : List TokenId}
    (hhead : e.batches_in_pipeline = batch :: rest)
    (h : Took e (BatchedRequests.growAll batch.requests (decode.decode_tokens ids) ids) e')
    (hlength : ids.length = batch.requests.length) (hnodup : e.batched_ids.Nodup) :
    ∃ finished, Forwards e (result_outputs (BatchedRequests.growAll batch.requests
      (decode.decode_tokens ids) ids) (decode.decode_tokens ids) ids) e' finished := by
  set grown := BatchedRequests.growAll batch.requests (decode.decode_tokens ids) ids with hgrown
  have htokens : (decode.decode_tokens ids).length = batch.requests.length := by
    unfold Tokenizer.decode_tokens
    rw [List.length_map, hlength]
  have hids : grown.map (·.request_id) = batch.requests.map (·.request_id) :=
    BatchedRequests.growAll_map (·.request_id) (fun r t i => r.grow_request_id t i) _ _ _
  have hended : eventIds .ContextEnd (result_outputs grown (decode.decode_tokens ids) ids) =
      grown.map (·.request_id) := by
    rw [eventIds_context_result, if_pos rfl, hids]
    exact ids_of_step_outputs htokens hlength
  have hbatched : e.batched_ids = grown.map (·.request_id) ++ e'.batched_ids := by
    unfold batched_ids in_flight
    rw [h.pipeline, hhead, List.flatMap_cons, List.map_append, hids, List.tail_cons]
  have hgrown_nodup : (grown.map (·.request_id)).Nodup := by
    rw [hbatched] at hnodup
    exact (List.nodup_append.mp hnodup).1
  refine ⟨(grown.filter (·.is_finished)).map (·.request_id), ?_, ?_, ?_, ?_, ?_, ?_, ?_⟩
  · rw [eventIds_context_result, if_neg (by decide), List.nil_append]
    unfold waiting_ids
    rw [h.waiting]
  · rw [hended, hbatched, List.append_assoc]
    unfold waiting_ids
    rw [h.waiting]
  · unfold finished_ids
    rw [h.finished, List.map_append]
  · rw [hended]
    exact (List.filter_sublist.map _).subset
  · rw [hended, unfinished_ids hgrown_nodup]
    unfold bridge_ids
    rw [h.bridge, List.map_append, List.map_map]
    rfl
  · rw [eventIds_context_result, if_neg (by decide)]
  · rw [eventIds_context_result, if_neg (by decide)]

theorem Cleared.forwards {r : RequestId} (h : Cleared e r e') : Forwards e [] e' [] := by
  rw [h.same]
  exact forwards_of_eq rfl rfl rfl rfl

end ContextStageLLMEngine

/-! ## The decoding engine -/

namespace DecodingStageLLMEngine

open DecodingStageFCFSScheduler

variable {e e' first : DecodingStageLLMEngine} {decode : Tokenizer} {a : Action}
  {cs : List Callback}

def unaccepted_ids (e : DecodingStageLLMEngine) : List RequestId :=
  e.scheduler.unaccepted_queue.map (·.req.request_id)

def migrating_ids (e : DecodingStageLLMEngine) : List RequestId :=
  e.in_migration.map (·.req.request_id)

theorem eventIds_end_migration (mr : MigratingRequest) :
    eventIds t (e.end_migration mr).2 = if .MigrationEnd = t then [mr.req.request_id] else [] := by
  unfold end_migration eventIds
  by_cases h : .MigrationEnd = t
  · simp [Callback.idOf, h]
  · simp [Callback.idOf, h]

/-- The requests are migrated one at a time and in order. -/
structure TakesIn (e : DecodingStageLLMEngine) (cs : List Callback)
    (e' : DecodingStageLLMEngine) : Prop where
  begun : eventIds .MigrationBegin cs ++ e'.unaccepted_ids = e.unaccepted_ids
  ended : eventIds .MigrationEnd cs ++ (e'.migrating_ids ++ e'.unaccepted_ids) =
    e.migrating_ids ++ e.unaccepted_ids
  no_begin : eventIds .ContextBegin cs = []
  no_end : eventIds .ContextEnd cs = []

theorem takes_in_end_migration {mr : MigratingRequest} (hp : e.point = .migrating mr) :
    TakesIn e (e.end_migration mr).2 (e.end_migration mr).1 := by
  have hbefore : e.migrating_ids = [mr.req.request_id] := by
    simp [migrating_ids, in_migration, hp]
  have hafter : (e.end_migration mr).1.migrating_ids = [] := rfl
  have hunaccepted : (e.end_migration mr).1.unaccepted_ids = e.unaccepted_ids := rfl
  constructor <;> simp [eventIds_end_migration, hbefore, hafter, hunaccepted]

theorem Part.takes_in (h : Part decode a first e cs e') (hadds : ∀ mr, a ≠ .add_request mr) :
    TakesIn e cs e' := by
  cases h with
  | @pushes _ _ now s' m hs hp h =>
    have hunaccepted : e'.unaccepted_ids = e.unaccepted_ids := by
      unfold unaccepted_ids
      rw [h.scheduler]
      exact congrArg _ (reschedules_batch h.schedules.toReschedules
        (turned_lt hs.kept.shaped)).2.2.2.2.2
    have hbefore : e.migrating_ids = [] := by simp [migrating_ids, in_migration, hp]
    have hafter : e'.migrating_ids = [] := by
      rcases h.point with hp' | hp' <;> simp [migrating_ids, in_migration, hp']
    constructor <;> simp [hunaccepted, hbefore, hafter]
  | checks hcore hp h hs' =>
    have hunaccepted : e'.unaccepted_ids = e.unaccepted_ids := by
      unfold unaccepted_ids
      rw [h.same]
    have hbefore : e.migrating_ids = [] := by simp [migrating_ids, hp]
    have hafter : e'.migrating_ids = [] := by
      rcases h.point with hp' | hp' <;> simp [migrating_ids, in_migration, hp']
    constructor <;> simp [hunaccepted, hbefore, hafter]
  | @takes _ _ i m ids hs hp h =>
    have hunaccepted : e'.unaccepted_ids = e.unaccepted_ids := by
      rw [h.same]
      rfl
    have hbefore : e.migrating_ids = [] := by simp [migrating_ids, in_migration, hp]
    have hafter : e'.migrating_ids = [] := by
      rw [h.same]
      rfl
    have hnone : ∀ t, t ≠ .DecodingEnd → eventIds t (result_outputs (BatchedRequests.growAll
        (e.scheduler.batch i).requests (decode.decode_tokens ids) ids) (decode.decode_tokens ids)
        ids) = [] := fun t ht => eventIds_decoding_result ht _ _ _
    constructor
    · rw [hnone _ (by decide), hunaccepted, List.nil_append]
    · rw [hnone _ (by decide), hunaccepted, hbefore, hafter]
      rfl
    · exact hnone _ (by decide)
    · exact hnone _ (by decide)
  | @accepts _ _ _ _ mr m hs hp h =>
    have hhead : e.unaccepted_ids = mr.req.request_id :: e'.unaccepted_ids := by
      unfold unaccepted_ids
      rw [h.same, h.head]
      rfl
    have hbefore : e.migrating_ids = [] := by simp [migrating_ids, in_migration, hp]
    have hafter : e'.migrating_ids = [mr.req.request_id] := by
      rw [h.same]
      rfl
    constructor <;> simp [hhead, hbefore, hafter]
  | ends hs hp => exact takes_in_end_migration hp
  | adds hs hnew hhanded => exact absurd rfl (hadds _)

end DecodingStageLLMEngine

/-! ## Both engines -/

namespace Engines

open ContextStageLLMEngine DecodingStageLLMEngine

variable {s s' first : Engines} {decode : Tokenizer} {a : Action} {cs log : List Callback}

/-- The requests that go on to the decoding stage: those that did not finish before it. -/
def going_on (s : Engines) : List RequestId :=
  (s.added.map (·.request_id)).filter (· ∉ s.context_engine.finished_ids)

/-- The events of each kind come in the order in which the requests were added, and the rest of
the requests is in the queues in this order. One request is migrated at a time. -/
structure InOrder (s : Engines) (log : List Callback) : Prop where
  begun : eventIds .ContextBegin log ++ s.context_engine.waiting_ids = s.added.map (·.request_id)
  ended : eventIds .ContextEnd log ++
    (s.context_engine.batched_ids ++ s.context_engine.waiting_ids) = s.added.map (·.request_id)
  migrating : eventIds .MigrationBegin log =
    eventIds .MigrationEnd log ++ s.decoding_engine.migrating_ids
  migrated : eventIds .MigrationEnd log ++
    (s.decoding_engine.migrating_ids ++ s.decoding_engine.unaccepted_ids) ++
    s.context_engine.bridge_ids ++
    (s.context_engine.batched_ids ++ s.context_engine.waiting_ids) = s.going_on

theorem inOrder_create (c : EnginesConfig) : InOrder (create c) [] := by
  constructor <;> rfl

theorem filter_middle {before middle after dropped : List RequestId}
    (hnodup : (before ++ (middle ++ after)).Nodup) (hsub : dropped ⊆ middle) :
    (before ++ (middle ++ after)).filter (· ∉ dropped) =
      before ++ (middle.filter (· ∉ dropped) ++ after) := by
  obtain ⟨-, hrest, hbefore⟩ := List.nodup_append'.mp hnodup
  obtain ⟨-, -, hafter⟩ := List.nodup_append'.mp hrest
  have hbefore' : before.filter (· ∉ dropped) = before := by
    rw [List.filter_eq_self]
    intro r hr
    exact decide_eq_true fun hdropped =>
      List.disjoint_left.mp hbefore hr (List.mem_append_left _ (hsub hdropped))
  have hafter' : after.filter (· ∉ dropped) = after := by
    rw [List.filter_eq_self]
    intro r hr
    exact decide_eq_true fun hdropped => List.disjoint_right.mp hafter hr (hsub hdropped)
  rw [List.filter_append, List.filter_append, hbefore', hafter']

theorem going_on_of_finished {c : ContextStageLLMEngine} {finished : List RequestId}
    (h : c.finished_ids = s.context_engine.finished_ids ++ finished) :
    { s with context_engine := c }.going_on = s.going_on.filter (· ∉ finished) := by
  unfold going_on
  rw [List.filter_filter, h]
  apply List.filter_congr
  intro r _
  simp only [List.mem_append, not_or, Bool.decide_and, Bool.and_comm]

theorem InOrder.context (h : InOrder s log) (hnodup : (s.added.map (·.request_id)).Nodup)
    {c : ContextStageLLMEngine} {finished : List RequestId}
    (hforwards : Forwards s.context_engine cs c finished) :
    InOrder { s with context_engine := c } (log ++ cs) := by
  constructor
  · rw [eventIds_append, List.append_assoc, hforwards.begun]
    exact h.begun
  · rw [eventIds_append, List.append_assoc, hforwards.ended]
    exact h.ended
  · rw [eventIds_append, eventIds_append, hforwards.no_begin, hforwards.no_end, List.append_nil,
      List.append_nil]
    exact h.migrating
  · have hmigrated := h.migrated
    have hgoing : s.going_on.Nodup := hnodup.filter _
    rw [going_on_of_finished hforwards.finished_eq]
    rw [← hmigrated, ← hforwards.ended] at hgoing ⊢
    rw [filter_middle hgoing hforwards.subset, eventIds_append, hforwards.no_end, List.append_nil,
      hforwards.bridge]
    simp only [List.append_assoc]

theorem InOrder.decoding (h : InOrder s log) {d : DecodingStageLLMEngine}
    (htakes : TakesIn s.decoding_engine cs d) :
    InOrder { s with decoding_engine := d } (log ++ cs) := by
  have hbegin : s.decoding_engine.migrating_ids ++ eventIds .MigrationBegin cs =
      eventIds .MigrationEnd cs ++ d.migrating_ids := by
    apply (List.append_left_inj d.unaccepted_ids).mp
    rw [List.append_assoc, htakes.begun, List.append_assoc, htakes.ended]
  constructor
  · rw [eventIds_append, htakes.no_begin, List.append_nil]
    exact h.begun
  · rw [eventIds_append, htakes.no_end, List.append_nil]
    exact h.ended
  · rw [eventIds_append, eventIds_append, h.migrating, List.append_assoc, List.append_assoc, hbegin]
  · have hmigrated := h.migrated
    rw [← htakes.ended] at hmigrated
    rw [eventIds_append, List.append_assoc (eventIds .MigrationEnd log)]
    exact hmigrated

theorem InOrder.bridge (h : InOrder s log) {mr : MigratingRequest} {rest : List MigratingRequest}
    (hhead : s.context_engine.bridge_queue = mr :: rest) :
    InOrder { s with
      context_engine := { s.context_engine with bridge_queue := rest }
      decoding_engine := { s.decoding_engine with
        scheduler := s.decoding_engine.scheduler.add_request mr } } log := by
  have hbridge : s.context_engine.bridge_ids =
      [mr.req.request_id] ++ rest.map (·.req.request_id) := by
    unfold bridge_ids
    rw [hhead]
    rfl
  refine ⟨h.begun, h.ended, h.migrating, ?_⟩
  have hmigrated := h.migrated
  rw [hbridge] at hmigrated
  change eventIds .MigrationEnd log ++ (s.decoding_engine.migrating_ids ++
    (s.decoding_engine.scheduler.unaccepted_queue ++ [mr]).map (·.req.request_id)) ++
    rest.map (·.req.request_id) ++ _ = s.going_on
  rw [List.map_append, ← hmigrated]
  simp only [unaccepted_ids, List.append_assoc, List.map_cons, List.map_nil]
  rfl

theorem InOrder.add (h : InOrder s log) (hlinked : Linked s) {request : Request}
    (hnew : request.request_id ∉ s.added.map (·.request_id)) :
    InOrder { s with
      context_engine := s.context_engine.add_request request
      added := s.added ++ [request] } log := by
  have hwaiting : (s.context_engine.add_request request).waiting_ids =
      s.context_engine.waiting_ids ++ [request.request_id] := List.map_append
  have hfinished : request.request_id ∉ s.context_engine.finished_ids := by
    intro hmem
    apply hnew
    rw [← hlinked.once.mem_iff, held, List.map_append]
    exact List.mem_append_left _ (List.mem_append_left _ (List.mem_append_right _ hmem))
  have hgoing : (s.added.map (·.request_id) ++ [request.request_id]).filter
      (· ∉ s.context_engine.finished_ids) = s.going_on ++ [request.request_id] := by
    have hself : [request.request_id].filter (· ∉ s.context_engine.finished_ids) =
        [request.request_id] := List.filter_eq_self.mpr (by simpa using hfinished)
    rw [List.filter_append, hself]
    rfl
  constructor
  · rw [hwaiting, ← List.append_assoc, h.begun, List.map_append]
    rfl
  · rw [hwaiting, ← List.append_assoc, ← List.append_assoc, List.append_assoc (eventIds _ _)]
    change eventIds .ContextEnd log ++ (s.context_engine.batched_ids ++ _) ++ _ = _
    rw [h.ended, List.map_append]
    rfl
  · exact h.migrating
  · change _ = ((s.added ++ [request]).map (·.request_id)).filter
      (· ∉ s.context_engine.finished_ids)
    rw [List.map_append, List.map_singleton, hgoing, ← h.migrated, hwaiting]
    simp only [List.append_assoc]
    rfl

theorem context_forwards {b : ContextStageLLMEngine.Action} (ha : a.of_context = some b)
    (hans : Answered first a) {e c : ContextStageLLMEngine} (hnodup : e.batched_ids.Nodup)
    (h : ContextStageLLMEngine.Part decode b first.context_engine e cs c) :
    ∃ finished, Forwards e cs c finished := by
  obtain ⟨e₀, d₀, added₀⟩ := first
  dsimp only at h
  cases h with
  | pushes sound point h => exact ⟨[], h.forwards⟩
  | checks sound h =>
    refine ⟨[], forwards_of_eq ?_ ?_ ?_ ?_⟩
    · rw [waiting_ids, h.scheduler]
      rfl
    · rw [batched_ids, h.in_flight]
      rfl
    · rw [finished_ids, h.finished]
      rfl
    · rw [bridge_ids, h.bridge]
      rfl
  | takes sound point head h =>
    have hlength := by
      cases a <;> cases ha
      exact length_of_answered sound head hans
    exact h.forwards head hlength hnodup
  | adds sound new no_tokens unfinished => cases a <;> cases ha
  | gets sound head => cases a <;> cases ha
  | clears sound unaccepted h => cases a <;> cases ha

theorem Linked.batched_nodup (h : Linked s) : s.context_engine.batched_ids.Nodup := by
  have hheld : s.context_engine.held.Nodup := by
    have hnodup := h.once.nodup_iff.mpr h.nodup
    rw [List.append_assoc] at hnodup
    exact (List.nodup_append.mp hnodup).1
  unfold held at hheld
  simp only [List.map_append, List.append_assoc] at hheld
  exact (List.nodup_append.mp (List.nodup_append.mp hheld).2.1).1

theorem Part.inOrder (h : Part decode a first s cs s') (hlinked : Linked s)
    (horder : InOrder s log) : InOrder s' (log ++ cs) := by
  cases h with
  | adds action sound new no_tokens unfinished =>
    rw [List.append_nil]
    exact horder.add hlinked new
  | context action answered h =>
    obtain ⟨finished, hforwards⟩ := context_forwards action answered hlinked.batched_nodup h
    exact horder.context hlinked.nodup hforwards
  | bridges action sound head =>
    rw [List.append_nil]
    exact horder.bridge head
  | decoding action answered h quiet =>
    refine horder.decoding (h.takes_in ?_)
    rintro mr rfl
    cases a <;> cases action
  | migrates sound point context_sound unaccepted cleared =>
    have hcontext := horder.context hlinked.nodup cleared.forwards
    rw [List.append_nil] at hcontext
    exact hcontext.decoding (takes_in_end_migration point)

/-! ## A run -/

theorem inOrder_of_reaches {c : EnginesConfig}
    (h : Reaches (withLog (act decode)) (create c, []) (s, log)) : Sound s ∧ InOrder s log := by
  suffices hinv : ∀ x, Reaches (withLog (act decode)) (create c, []) x →
      Sound x.1 ∧ InOrder x.1 x.2 from hinv _ h
  intro x hx
  induction hx with
  | refl => exact ⟨sound_create c, inOrder_create c⟩
  | @tail x y _ hstep ih =>
    obtain ⟨s₁, log₁⟩ := x
    obtain ⟨s₂, log₂⟩ := y
    obtain ⟨a, hstep⟩ := hstep
    obtain ⟨cs, hact, rfl⟩ := withLog_eq_ok.mp hstep
    obtain ⟨hsound, hdoes⟩ := act_gives ih.1 hact
    have hkept := Emits.logged (J := fun s log => Linked s ∧ InOrder s log)
      (fun _ _ _ _ hJ hpart => ⟨hpart.linked hJ.1, hpart.inOrder hJ.1 hJ.2⟩) hdoes
      ⟨ih.1.linked, ih.2⟩
    exact ⟨hsound, hkept.2⟩

/-- Of a list without duplicates, what comes before a member of a first part is in it. -/
theorem sublist_of_prefix {before all : List RequestId} (hnodup : all.Nodup)
    (hbefore : before <+: all) {r r' : RequestId} (hsub : [r, r'].Sublist all) (hr' : r' ∈ before) :
    [r, r'].Sublist before := by
  obtain ⟨rest, rfl⟩ := hbefore
  have hdisjoint := (List.nodup_append'.mp hnodup).2.2
  obtain ⟨l, l', heq, hl, hl'⟩ := List.sublist_append_iff.mp hsub
  have hnil : l' = [] := by
    by_contra hne
    -- else the last one of the two is in the rest
    have hlast := List.getLast_mem hne
    have hr : l'.getLast hne = r' := by
      have h := congrArg List.getLast? heq
      rw [List.getLast?_append_of_ne_nil l hne, List.getLast?_eq_getLast_of_ne_nil hne] at h
      exact (Option.some.inj h).symm
    exact List.disjoint_left.mp hdisjoint hr' (hl'.subset (hr ▸ hlast))
  rw [heq, hnil, List.append_nil]
  exact hl

/-- In each run of the two engines, the requests begin and end their context stage in the order in
which they were added, and those that did not finish there are migrated one at a time and in this
order. So none overtakes another one before the decoding stage. -/
theorem requests_are_migrated_in_order (c : EnginesConfig) (decode : Tokenizer) (s : Engines)
    (log : List Callback) (h : Reaches (withLog (act decode)) (create c, []) (s, log)) :
    InOrder s log ∧
    ∀ r r', [r, r'].Sublist (s.added.map (·.request_id)) → r ∉ s.context_engine.finished_ids →
      r' ∈ eventIds .MigrationBegin log → [r, r'].Sublist (eventIds .MigrationBegin log) := by
  obtain ⟨hsound, horder⟩ := inOrder_of_reaches h
  refine ⟨horder, ?_⟩
  intro r r' hsub hr hr'
  have hbefore : eventIds .MigrationBegin log <+: s.going_on := by
    rw [horder.migrating, ← horder.migrated]
    simp only [List.append_assoc, List.prefix_append_right_inj]
    exact List.prefix_append _ _
  have hnodup : s.going_on.Nodup := hsound.linked.nodup.filter _
  refine sublist_of_prefix hnodup hbefore ?_ hr'
  have hr'' := (List.mem_filter.mp (hbefore.subset hr')).2
  have hkept : [r, r'].filter (· ∉ s.context_engine.finished_ids) = [r, r'] := by
    rw [List.filter_eq_self]
    simpa [hr] using hr''
  rw [← hkept]
  exact hsub.filter _

/-- Of three requests the first one is decoded, the second one is in the bridge queue and the
last one waits. -/
theorem three_requests_go_on_in_order : ∃ s log,
    Reaches (withLog (act fun _ => none)) (create smallConfig, []) (s, log) ∧
    eventIds .MigrationEnd log = [0] ∧ eventIds .ContextEnd log = [0, 1] ∧
    s.added.map (·.request_id) = [0, 1] ++ s.context_engine.waiting_ids ∧
    s.going_on = [0, 1, 2] := by
  obtain ⟨⟨s, log⟩, hr, hs⟩ := reaches_of_any (m := withLog (act fun _ => none))
    (s := (create smallConfig, []))
    [.add_request (smallRequest 0), .add_request (smallRequest 1),
      .add_request (smallRequest 2), .context_begin_step 0, .context_batch_returns [4],
      .bridge_get, .decoding_begin_step 0, .decoding_wake, .migration_ends,
      .decoding_begin_step 1, .context_begin_step 1, .context_batch_returns [5]]
    (fun x => decide (eventIds .MigrationEnd x.2 = [0] ∧ eventIds .ContextEnd x.2 = [0, 1] ∧
      x.1.context_engine.batched_ids = [] ∧ x.1.going_on = [0, 1, 2]))
    (by decide +kernel)
  obtain ⟨hmigrated, hended, hbatched, hgoing⟩ := of_decide_eq_true hs
  obtain ⟨horder, -⟩ := requests_are_migrated_in_order smallConfig _ s log hr
  refine ⟨s, log, hr, hmigrated, hended, ?_, hgoing⟩
  rw [← horder.ended, hended, hbatched]
  rfl

end Engines

end distserve
