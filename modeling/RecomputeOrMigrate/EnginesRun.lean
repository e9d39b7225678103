-- What an action of the two engines does. They hold each request together, so an
-- action of one of them finds what it needs in the other one.
import RecomputeOrMigrate.Engines
import RecomputeOrMigrate.Handoff

open calls runs

namespace distserve.Engines

open BlockManager

/-! ## The invariant -/

/-- The engines share the requests that were added. The context engine keeps the blocks
of a request until the decoding engine clears it. -/
structure Linked (s : Engines) : Prop where
  nodup : (s.added.map (·.request_id)).Nodup
  once : (s.context_engine.held ++ s.decoding_engine.to_clear ++ s.decoding_engine.cleared).Perm
    (s.added.map (·.request_id))
  handing : (s.context_engine.scheduler.unaccepted_queue.map (·.request_id)).Perm
    (s.context_engine.bridge_queue.map (·.req.request_id) ++ s.decoding_engine.to_clear)
  handed : ∀ mr ∈ s.context_engine.bridge_queue,
    DecodingStageLLMEngine.HandedOver s.decoding_engine.block_manager.cache_config mr
  same_blocks : s.context_engine.block_manager.cache_config =
    s.decoding_engine.block_manager.cache_config
  context_freed : s.context_engine.block_manager.freed.Perm
    (s.decoding_engine.cleared ++ s.context_engine.finished_requests.map (·.request_id))
  decoding_freed : s.decoding_engine.block_manager.freed =
    s.decoding_engine.finished_requests.map (·.request_id)
  decoding_sends : ∀ r ∉ s.decoding_engine.cleared, s.decoding_engine.block_manager.sends r = []

structure Sound (s : Engines) : Prop where
  context_sound : s.context_engine.Sound
  decoding_sound : s.decoding_engine.Sound
  linked : Linked s

theorem linked_create (c : EnginesConfig) : Linked (create c) := by
  have hcleared : (create c).decoding_engine.cleared = [] := by
    rw [DecodingStageLLMEngine.cleared, DecodingStageLLMEngine.resident, create,
      DecodingStageLLMEngine.batched_create]
    rfl
  have hheld : (create c).context_engine.held = [] := rfl
  refine ⟨.nil, ?_, .nil, by simp [create, ContextStageLLMEngine.create], rfl, ?_, rfl,
    fun _ _ => rfl⟩
  · rw [hcleared, hheld]
    exact List.Perm.refl _
  · rw [hcleared]
    exact List.Perm.refl _

theorem sound_create (c : EnginesConfig) : Sound (create c) :=
  ⟨ContextStageLLMEngine.sound_create _ _ _ _ _,
    DecodingStageLLMEngine.sound_create _ _ _ _ _ _ _, linked_create c⟩

/-- A request that was not added is in none of the engines. -/
theorem Linked.notMem_present {s : Engines} (h : Linked s) {r : RequestId}
    (hr : r ∉ s.added.map (·.request_id)) : r ∉ s.context_engine.present := by
  intro hc
  rw [← h.once.mem_iff, List.append_assoc, List.mem_append, List.mem_append, not_or,
    not_or] at hr
  unfold ContextStageLLMEngine.present at hc
  rw [List.map_append, List.mem_append] at hc
  rcases hc with hc | hc
  · apply hr.1
    unfold ContextStageLLMEngine.held
    rw [List.append_assoc, List.map_append]
    exact List.mem_append_left _ hc
  · rw [h.handing.mem_iff, List.mem_append] at hc
    rcases hc with hc | hc
    · apply hr.1
      obtain ⟨mr, hmr, rfl⟩ := List.mem_map.mp hc
      refine List.mem_map_of_mem (f := fun q : Request => q.request_id)
        (List.mem_append_left _ (List.mem_append_right _ (List.mem_map_of_mem hmr)))
    · exact hr.2.1 hc

/-- No request is in both engines. -/
theorem Linked.notMem_held {s : Engines} (h : Linked s) {r : RequestId}
    (hr : r ∈ s.context_engine.held) :
    r ∉ s.decoding_engine.to_clear ∧ r ∉ s.decoding_engine.cleared := by
  have hnd := h.once.nodup_iff.mpr h.nodup
  rw [List.append_assoc, List.nodup_append'] at hnd
  have hdis := List.disjoint_left.mp hnd.2.2 hr
  rwa [List.mem_append, not_or] at hdis

/-- A request in the bridge queue is not in the decoding engine. -/
theorem Linked.bridge_notMem {s : Engines} (h : Linked s) {mr : MigratingRequest}
    {rest : List MigratingRequest} (hb : s.context_engine.bridge_queue = mr :: rest) :
    mr.req.request_id ∉ s.decoding_engine.present := by
  obtain ⟨hto, hcl⟩ := h.notMem_held
    ((ContextStageLLMEngine.held_bridge hb).mem_iff.mpr List.mem_cons_self)
  rw [← s.decoding_engine.present_perm.mem_iff, List.mem_append, not_or]
  unfold DecodingStageLLMEngine.cleared at hcl
  rw [List.map_append, List.mem_append, not_or] at hcl
  exact ⟨hto, hcl.1⟩

/-! ## What an action does -/

/-- The action of the context engine that an action is. -/
def Action.of_context : Action → Option ContextStageLLMEngine.Action
  | .context_begin_step now => some (.begin_step now)
  | .context_wake => some .wake
  | .context_batch_returns ids => some (.batch_returns ids)
  | _ => none

/-- The action of the decoding engine that an action is. -/
def Action.of_decoding : Action → Option DecodingStageLLMEngine.Action
  | .decoding_begin_step now => some (.begin_step now)
  | .decoding_wake => some .wake
  | .decoding_batch_returns ids => some (.batch_returns ids)
  | .migration_ends => some .migration_ends
  | _ => none

/-- The workers gave one token for each request. -/
def Answered (s : Engines) : Action → Prop
  | .context_batch_returns ids => answers s.context_engine.batches_ret_futures ids = true
  | .decoding_batch_returns ids => answers s.decoding_engine.batches_ret_futures ids = true
  | _ => True

/-- One part of an action that began in the first state, with its callbacks. -/
inductive Part (decode : Tokenizer) (a : Action) (first : Engines) :
    Engines → List Callback → Engines → Prop
  | adds {request : Request} (action : a = .add_request request) (sound : Sound first)
      (new : request.request_id ∉ first.added.map (·.request_id))
      (no_tokens : request.generated_token_ids = []) (unfinished : request.is_finished = false) :
      Part decode a first first []
        { first with
          context_engine := first.context_engine.add_request request
          added := first.added ++ [request] }
  | context {b : ContextStageLLMEngine.Action} {s : Engines} {cs : List Callback}
      {context_engine : ContextStageLLMEngine} (action : a.of_context = some b)
      (answered : Answered first a)
      (h : ContextStageLLMEngine.Part decode b first.context_engine s.context_engine cs
        context_engine) : Part decode a first s cs { s with context_engine }
  | bridges {mr : MigratingRequest} {rest : List MigratingRequest} (action : a = .bridge_get)
      (sound : Sound first) (head : first.context_engine.bridge_queue = mr :: rest) :
      Part decode a first first []
        { first with
          context_engine := { first.context_engine with bridge_queue := rest }
          decoding_engine := { first.decoding_engine with
            scheduler := first.decoding_engine.scheduler.add_request mr } }
  | decoding {b : DecodingStageLLMEngine.Action} {s : Engines} {cs : List Callback}
      {decoding_engine : DecodingStageLLMEngine} (action : a.of_decoding = some b)
      (answered : Answered first a)
      (h : DecodingStageLLMEngine.Part decode b first.decoding_engine s.decoding_engine cs
        decoding_engine)
      (quiet : DecodingStageLLMEngine.Quiet s.decoding_engine cs decoding_engine) :
      Part decode a first s cs { s with decoding_engine }
  | migrates {s : Engines} {mr : MigratingRequest} {context_engine : ContextStageLLMEngine}
      (sound : s.decoding_engine.Sound) (point : s.decoding_engine.point = .migrating mr)
      (context_sound : s.context_engine.Sound)
      (unaccepted : mr.req.request_id ∈
        s.context_engine.scheduler.unaccepted_queue.map (·.request_id))
      (cleared : ContextStageLLMEngine.Cleared s.context_engine mr.req.request_id context_engine) :
      Part decode a first s (s.decoding_engine.end_migration mr).2
        { s with
          context_engine
          decoding_engine := (s.decoding_engine.end_migration mr).1 }

/-- The parts of an action. -/
abbrev Does (decode : Tokenizer) (a : Action) (s : Engines) := Emits (Part decode a s) s

variable {s s' first : Engines} {decode : Tokenizer} {a : Action} {cs : List Callback}

/-- One answer for each request of the earliest batch. -/
theorem length_of_answers {b : BatchedRequests} {f : Option RemoteCall}
    {futures : List (Option RemoteCall)} {ids : List TokenId} (hf : FutureOf b f)
    (h : answers (f :: futures) ids = true) : ids.length = b.requests.length := by
  cases f with
  | none => cases h
  | some c =>
    obtain ⟨-, -, inputs, firsts, tables, rfl⟩ := hf
    simpa [answers, BatchedRequests.get_request_ids] using h

/-- What the context engine puts in the bridge queue is what the decoding engine needs. -/
theorem handed_of_took {e e' : ContextStageLLMEngine} {batch : BatchedRequests}
    {rest : List BatchedRequests} {ids : List TokenId} (hs : e.Sound)
    (hb : e.batches_in_pipeline = batch :: rest) (hlen : ids.length = batch.requests.length)
    (h : ContextStageLLMEngine.Took e
      (BatchedRequests.growAll batch.requests (decode.decode_tokens ids) ids) e')
    {mr : MigratingRequest} (hmr : mr ∈ e'.bridge_queue) :
    mr ∈ e.bridge_queue ∨
      DecodingStageLLMEngine.HandedOver e.block_manager.cache_config mr := by
  rw [h.bridge, List.mem_append] at hmr
  apply hmr.imp id
  intro hmr
  obtain ⟨q, hq, rfl⟩ := List.mem_map.mp hmr
  rw [List.mem_filter, Bool.not_eq_true'] at hq
  obtain ⟨r, hr, t, i, rfl⟩ := BatchedRequests.mem_growAll_of_length
    (by rw [Tokenizer.decode_tokens, List.length_map]; exact hlen) hlen hq.1
  have hin : r ∈ e.in_flight := by
    unfold ContextStageLLMEngine.in_flight
    rw [hb, List.flatMap_cons]
    exact List.mem_append_left _ hr
  obtain ⟨ht, hf⟩ := hs.fresh r (List.mem_append_right _ hin)
  have hout : (r.grow t i).get_output_len = 1 := by
    rw [Request.grow_get_output_len, Request.get_output_len, ht]
    rfl
  refine ⟨hout, hq.2, ?_, ?_⟩
  · have := (Request.grow_may_grow (Request.fresh_may_grow ht hf) t i hq.2).2
    rwa [hout] at this
  · change (e.block_manager.tableOf (r.grow t i).request_id).length =
      e.scheduler.get_block_needed (r.grow t i).get_input_len
    rw [Request.grow_request_id, Request.grow_get_input_len]
    exact hs.sizes r (List.mem_append_left _ hin)

/-- The context engine keeps the link when it holds the same requests. -/
theorem Linked.withContext (h : Linked s) {c : ContextStageLLMEngine}
    (hheld : c.held.Perm s.context_engine.held)
    (hhanding : (c.scheduler.unaccepted_queue.map (·.request_id)).Perm
      (c.bridge_queue.map (·.req.request_id) ++ s.decoding_engine.to_clear))
    (hhanded : ∀ mr ∈ c.bridge_queue, mr ∈ s.context_engine.bridge_queue ∨
      DecodingStageLLMEngine.HandedOver s.context_engine.block_manager.cache_config mr)
    (hcc : c.block_manager.cache_config = s.context_engine.block_manager.cache_config)
    (hfreed : c.block_manager.freed.Perm
      (s.decoding_engine.cleared ++ c.finished_requests.map (·.request_id))) :
    Linked { s with context_engine := c } where
  nodup := h.nodup
  once := ((hheld.append_right _).append_right _).trans h.once
  handing := hhanding
  handed mr hmr := by
    rcases hhanded mr hmr with hmr | hmr
    · exact h.handed mr hmr
    · rwa [h.same_blocks] at hmr
  same_blocks := hcc.trans h.same_blocks
  context_freed := hfreed
  decoding_freed := h.decoding_freed
  decoding_sends := h.decoding_sends

/-- An answered batch has a token for each request. -/
theorem length_of_answered {e : ContextStageLLMEngine} {batch : BatchedRequests}
    {rest : List BatchedRequests} {ids : List TokenId} (hs : e.Sound)
    (hb : e.batches_in_pipeline = batch :: rest)
    (h : answers e.batches_ret_futures ids = true) : ids.length = batch.requests.length := by
  have hf := hs.futures
  rw [hb] at hf
  obtain ⟨f, futures, hbf, -, hfs⟩ := List.forall₂_cons_left_iff.mp hf
  rw [hfs] at h
  exact length_of_answers hbf h

theorem context_linked {b : ContextStageLLMEngine.Action} {c : ContextStageLLMEngine}
    (ha : a.of_context = some b) (hans : Answered first a) (hl : Linked s)
    (h : ContextStageLLMEngine.Part decode b first.context_engine s.context_engine cs c) :
    Linked { s with context_engine := c } := by
  obtain ⟨e, d, added⟩ := s
  obtain ⟨e0, d0, added0⟩ := first
  dsimp only at h
  cases h with
  | pushes hs hp h =>
    refine hl.withContext h.held ?_ ?_ h.cache_config ?_
    · rw [h.unaccepted, h.bridge]
      exact hl.handing
    · rw [h.bridge]
      exact fun mr => Or.inl
    · rw [h.freed, h.finished]
      exact hl.context_freed
  | checks hs h =>
    have hb : c.block_manager = e.block_manager := by
      rw [ContextStageLLMEngine.block_manager, h.scheduler]
      rfl
    refine hl.withContext ?_ ?_ ?_ (by rw [hb]) ?_
    · rw [ContextStageLLMEngine.held, h.scheduler, h.in_flight, h.bridge, h.finished]
      exact List.Perm.refl _
    · rw [h.scheduler, h.bridge]
      exact hl.handing
    · rw [h.bridge]
      exact fun mr => Or.inl
    · rw [hb, h.finished]
      exact hl.context_freed
  | @takes _ _ batch rest ids hs hp hb h =>
    have hlen : ids.length = batch.requests.length := by
      cases a <;> cases ha
      exact length_of_answered hs hb hans
    refine hl.withContext (h.held hb) ?_ (fun mr => handed_of_took hs hb hlen h) h.cache_config ?_
    · have := hl.handing
      apply List.perm_iff_count.mpr
      intro r
      have := this.count_eq r
      rw [h.unaccepted, h.bridge]
      simp only [List.map_append, List.map_map, List.count_append, Function.comp_def] at this ⊢
      omega
    · rw [h.freed, h.finished, List.map_append, ← List.append_assoc]
      exact hl.context_freed.append_right _
  | adds hs hnew ht hf => cases a <;> cases ha
  | gets hs hb => cases a <;> cases ha
  | clears hs hun h => cases a <;> cases ha

/-- The decoding engine keeps the link when it only moves requests. -/
theorem decoding_linked {d : DecodingStageLLMEngine} (hl : Linked s)
    (hq : DecodingStageLLMEngine.Quiet s.decoding_engine cs d) :
    Linked { s with decoding_engine := d } where
  nodup := hl.nodup
  once := by
    refine List.Perm.trans ?_ hl.once
    exact (hq.to_clear.append_left _).append hq.cleared
  handing := hl.handing.trans (hq.to_clear.symm.append_left _)
  handed mr hmr := by
    rw [hq.cache_config]
    exact hl.handed mr hmr
  same_blocks := hl.same_blocks.trans hq.cache_config.symm
  context_freed := hl.context_freed.trans (hq.cleared.symm.append_right _)
  decoding_freed := hq.freed hl.decoding_freed
  decoding_sends r hr := (hq.sends r hr).trans
    (hl.decoding_sends r fun hc => hr (hq.cleared.mem_iff.mpr hc))

/-- The first request of the bridge queue moves to the decoding engine. -/
theorem bridge_linked {mr : MigratingRequest} {rest : List MigratingRequest} (hl : Linked s)
    (hb : s.context_engine.bridge_queue = mr :: rest) :
    Linked { s with
      context_engine := { s.context_engine with bridge_queue := rest }
      decoding_engine := { s.decoding_engine with
        scheduler := s.decoding_engine.scheduler.add_request mr } } where
  nodup := hl.nodup
  once := by
    have h1 := ContextStageLLMEngine.held_bridge hb
    have h2 := s.decoding_engine.to_clear_add_request mr
    refine List.Perm.trans (List.Perm.append_right _ ?_) hl.once
    refine (h2.append_left _).trans (List.perm_middle.trans ?_)
    exact (h1.append_right _).symm
  handing := by
    apply hl.handing.trans
    rw [hb]
    exact List.perm_middle.symm.trans
      ((s.decoding_engine.to_clear_add_request mr).symm.append_left _)
  handed mr' hmr' := hl.handed mr' (by rw [hb]; exact List.mem_cons_of_mem _ hmr')
  same_blocks := hl.same_blocks
  context_freed := hl.context_freed
  decoding_freed := hl.decoding_freed
  decoding_sends := hl.decoding_sends

/-- The end of a migration clears the blocks on the context side. -/
theorem migration_linked {mr : MigratingRequest} {c : ContextStageLLMEngine} (hl : Linked s)
    (hp : s.decoding_engine.point = .migrating mr)
    (hc : ContextStageLLMEngine.Cleared s.context_engine mr.req.request_id c) :
    Linked { s with
      context_engine := c
      decoding_engine := (s.decoding_engine.end_migration mr).1 } := by
  obtain ⟨hto, hcl⟩ := DecodingStageLLMEngine.end_migration_moves hp
  have hheld : c.held = s.context_engine.held := by
    rw [hc.same]
    rfl
  have hbridge : c.bridge_queue = s.context_engine.bridge_queue := by
    rw [hc.same]
  have hcc : c.block_manager.cache_config = s.context_engine.block_manager.cache_config :=
    congrArg (fun config => config.2.1) hc.config
  have hin : mr.req.request_id ∈
      s.context_engine.scheduler.unaccepted_queue.map (·.request_id) := by
    rw [hl.handing.mem_iff, List.mem_append, hto.mem_iff]
    exact Or.inr List.mem_cons_self
  obtain ⟨q, hq, hperm⟩ := ContextStageLLMEngine.eraseP_perm hin
  refine ⟨hl.nodup, ?_, ?_, ?_, hcc.trans hl.same_blocks, ?_, hl.decoding_freed,
    fun r hr => hl.decoding_sends r fun h => hr (hcl.mem_iff.mpr (List.mem_cons_of_mem _ h))⟩
  · refine List.Perm.trans (List.perm_iff_count.mpr fun r => ?_) hl.once
    have h1 := hto.count_eq r
    have h2 := hcl.count_eq r
    simp only [hheld, List.count_append, List.count_cons] at h1 h2 ⊢
    omega
  · apply List.perm_iff_count.mpr
    intro r
    have h1 := hto.count_eq r
    have h2 := (hperm.map (·.request_id)).count_eq r
    have h3 := hl.handing.count_eq r
    rw [hc.unaccepted, hbridge]
    simp only [List.map_cons, hq, List.count_append, List.count_cons] at h1 h2 h3 ⊢
    omega
  · rw [hbridge]
    exact hl.handed
  · have hfin : c.finished_requests = s.context_engine.finished_requests := by rw [hc.same]
    apply List.perm_iff_count.mpr
    intro r
    have h1 := hcl.count_eq r
    have h2 := hl.context_freed.count_eq r
    rw [hc.freed, hfin]
    simp only [List.count_append, List.count_cons, List.count_nil] at h1 h2 ⊢
    omega

/-- Each part keeps the link. -/
theorem Part.linked (h : Part decode a first s cs s') (hl : Linked s) : Linked s' := by
  cases h with
  | adds ha hs hnew ht hf =>
    refine ⟨?_, ?_, hl.handing, hl.handed, hl.same_blocks, hl.context_freed, hl.decoding_freed,
      hl.decoding_sends⟩
    · rw [List.map_append, List.nodup_append_comm]
      exact List.nodup_cons.mpr ⟨hnew, hl.nodup⟩
    · apply List.perm_iff_count.mpr
      intro r
      have := hl.once.count_eq r
      simp only [ContextStageLLMEngine.held, ContextStageLLMEngine.add_request,
        ContextStageLLMEngine.in_flight, ContextStageFCFSScheduler.add_request, List.map_append,
        List.count_append] at this ⊢
      omega
  | context ha hans h => exact context_linked ha hans hl h
  | bridges ha hs hb => exact bridge_linked hl hb
  | decoding ha hans h hq => exact decoding_linked hl hq
  | migrates hs hp hcs hun hc => exact migration_linked hl hp hc

theorem Does.linked (h : Does decode a s cs s') (hl : Linked s) : Linked s' :=
  Emits.invariant (fun _ _ _ hl hp => hp.linked hl) h hl

/-! ## Every action -/

/-- An action of the context engine keeps the invariant and does not raise. -/
theorem in_context_gives (hs : Sound s) {b : ContextStageLLMEngine.Action}
    (ha : a.of_context = some b) (hans : Answered s a)
    {x : Except PyError (Engines × List Callback)} (hx : s.in_context decode b = some x) :
    Gives x (fun r => Sound r.1 ∧ Does decode a s r.2 r.1) fun _ => False := by
  obtain ⟨y, hy, rfl⟩ := Option.map_eq_some_iff.mp hx
  apply gives_bind (ContextStageLLMEngine.act_gives hs.context_sound hy)
  rintro ⟨c, cs⟩ ⟨hc, hd⟩
  have hd' : Does decode a s cs { s with context_engine := c } :=
    hd.map (fun c => { s with context_engine := c }) fun _ _ _ h => .context ha hans h
  exact gives_pure ⟨⟨hc, hs.decoding_sound, hd'.linked hs.linked⟩, hd'⟩

/-- The callbacks of a quiet part change nothing in the context engine. -/
theorem clear_none {e : ContextStageLLMEngine} (h : ∀ mr, Callback.clear_migrated_blocks mr ∉ cs) :
    cs.foldlM clear_migrated_blocks e = .ok e := by
  induction cs with
  | nil => rfl
  | cons c cs ih =>
    have hc : clear_migrated_blocks e c = .ok e := by
      cases c with
      | clear_migrated_blocks mr => exact absurd List.mem_cons_self (h mr)
      | _ => rfl
    rw [List.foldlM_cons, hc]
    exact ih fun mr hmr => h mr (List.mem_cons_of_mem _ hmr)

/-- The context engine follows a part of the decoding engine. -/
theorem follows_part {b : DecodingStageLLMEngine.Action} (ha : a.of_decoding = some b)
    (hans : Answered first a) {c : ContextStageLLMEngine} {d d' : DecodingStageLLMEngine}
    (hc : c.Sound) (hl : Linked { s with context_engine := c, decoding_engine := d })
    (h : DecodingStageLLMEngine.Part decode b first.decoding_engine d cs d') :
    ∃ c', cs.foldlM clear_migrated_blocks c = .ok c' ∧
      (c'.Sound ∧ Linked { s with context_engine := c', decoding_engine := d' }) ∧
      Part decode a first { s with context_engine := c, decoding_engine := d } cs
        { s with context_engine := c', decoding_engine := d' } := by
  rcases h.cases with hq | ⟨mr, hd, hp, hcs, hd'⟩ | ⟨mr, hb⟩
  · have hpart : Part decode a first { s with context_engine := c, decoding_engine := d } cs
        { s with context_engine := c, decoding_engine := d' } := .decoding ha hans h hq
    exact ⟨c, clear_none hq.callbacks, ⟨hc, hpart.linked hl⟩, hpart⟩
  · subst hcs hd'
    have hin : mr.req.request_id ∈ c.scheduler.unaccepted_queue.map (·.request_id) := by
      rw [hl.handing.mem_iff, List.mem_append,
        (DecodingStageLLMEngine.end_migration_moves hp).1.mem_iff]
      exact Or.inr List.mem_cons_self
    obtain ⟨c', hc', hcl, hs'⟩ := ContextStageLLMEngine.clear_migrated_blocks_cases hc mr hin
    have hpart : Part decode a first { s with context_engine := c, decoding_engine := d }
        (d.end_migration mr).2
        { s with context_engine := c', decoding_engine := (d.end_migration mr).1 } :=
      .migrates hd hp hc hin hcl
    refine ⟨c', ?_, ⟨hs', hpart.linked hl⟩, hpart⟩
    exact (ok_bind hc').trans rfl
  · subst hb
    cases a <;> cases ha

/-- An action of the decoding engine keeps the invariant. Only the swap-outs at the begin
of a step can raise. -/
theorem in_decoding_gives (hs : Sound s) {b : DecodingStageLLMEngine.Action}
    (ha : a.of_decoding = some b) (hans : Answered s a)
    {x : Except PyError (Engines × List Callback)} (hx : s.in_decoding decode b = some x) :
    Gives x (fun r => Sound r.1 ∧ Does decode a s r.2 r.1) fun err =>
      (∃ now, b = .begin_step now) ∧ s.decoding_engine.SwapOutFails err := by
  obtain ⟨y, hy, rfl⟩ := Option.map_eq_some_iff.mp hx
  apply gives_bind (DecodingStageLLMEngine.act_gives hs.decoding_sound hy)
  rintro ⟨d, cs⟩ ⟨hd, hdoes⟩
  obtain ⟨c, hc, ⟨hcs, hl⟩, hdoes'⟩ := Emits.follows
    (J := fun c d => c.Sound ∧ Linked { s with context_engine := c, decoding_engine := d })
    (fun c d => { s with context_engine := c, decoding_engine := d })
    (fun _ _ _ _ hJ h => follows_part ha hans hJ.1 hJ.2 h) hdoes ⟨hs.context_sound, hs.linked⟩
  exact gives_ok_bind hc (gives_pure ⟨⟨hcs, hd, hl⟩, hdoes'⟩)

/-- An action keeps the invariant, and all that it does is made of these parts. Only the
swap-outs of the decoding engine can raise. -/
theorem act_gives (hs : Sound s) {x : Except PyError (Engines × List Callback)}
    (hx : act decode s a = some x) :
    Gives x (fun r => Sound r.1 ∧ Does decode a s r.2 r.1) fun err =>
      (∃ now, a = .decoding_begin_step now) ∧ s.decoding_engine.SwapOutFails err := by
  cases a with
  | add_request request =>
    simp only [act] at hx
    split at hx
    · next hc =>
      cases hx
      have hpart : Part decode (.add_request request) s s [] _ := .adds rfl hs hc.1 hc.2.1 hc.2.2
      exact ⟨⟨ContextStageLLMEngine.add_request_sound hs.context_sound
        (hs.linked.notMem_present hc.1) hc.2.1 hc.2.2, hs.decoding_sound, hpart.linked hs.linked⟩,
        .single hpart⟩
    · cases hx
  | context_begin_step now =>
    exact (in_context_gives (a := .context_begin_step now) hs rfl trivial hx).imp (fun _ => id)
      fun _ => False.elim
  | context_wake =>
    exact (in_context_gives (a := .context_wake) hs rfl trivial hx).imp (fun _ => id)
      fun _ => False.elim
  | context_batch_returns ids =>
    simp only [act] at hx
    split at hx
    · next hans =>
      exact (in_context_gives (a := .context_batch_returns ids) hs rfl hans hx).imp (fun _ => id)
        fun _ => False.elim
    · cases hx
  | bridge_get =>
    simp only [act] at hx
    split at hx
    · cases hx
    · next mr rest hb =>
      cases hx
      have hpart : Part decode .bridge_get s s [] _ := .bridges rfl hs hb
      have hl := hpart.linked hs.linked
      refine ⟨⟨?_, ?_, hl⟩, .single hpart⟩
      · exact hs.context_sound.withBridge rest
      · refine DecodingStageLLMEngine.add_request_sound hs.decoding_sound ?_ ?_
        · exact hs.linked.bridge_notMem hb
        · exact hs.linked.handed mr (by rw [hb]; exact List.mem_cons_self)
  | decoding_begin_step now =>
    exact (in_decoding_gives (a := .decoding_begin_step now) hs rfl trivial hx).imp (fun _ => id)
      fun _ herr => ⟨⟨now, rfl⟩, herr.2⟩
  | decoding_wake =>
    apply (in_decoding_gives (a := .decoding_wake) hs rfl trivial hx).imp (fun _ => id)
    rintro _ ⟨⟨_, h⟩, _⟩
    cases h
  | decoding_batch_returns ids =>
    simp only [act] at hx
    split at hx
    · next hans =>
      refine (in_decoding_gives (a := .decoding_batch_returns ids) hs rfl hans hx).imp
        (fun _ => id) ?_
      rintro _ ⟨⟨_, h⟩, _⟩
      cases h
    · cases hx
  | migration_ends =>
    apply (in_decoding_gives (a := .migration_ends) hs rfl trivial hx).imp (fun _ => id)
    rintro _ ⟨⟨_, h⟩, _⟩
    cases h

/-! ## Every run -/

/-- An invariant of the parts is one of the runs. -/
theorem step_sound (J : Engines → Prop)
    (hJ : ∀ a first s cs s', J s → Linked s → Part decode a first s cs s' → J s') :
    runs.Sound (step decode) (fun s => Sound s ∧ J s)
      DecodingStageFCFSScheduler.CpuShortage :=
  sound_withoutOutput fun s a _ h hx => (act_gives h.1 hx).imp
    (fun _ hr => ⟨hr.1, (hr.2.invariant (I := fun s => Linked s ∧ J s)
      (fun _ _ _ hI hp => ⟨hp.linked hI.1, hJ a s _ _ _ hI.2 hI.1 hp⟩) ⟨h.1.linked, h.2⟩).2⟩)
    fun _ herr => herr.2.2

/-- The invariant holds in every state of every run. -/
theorem sound_of_reaches {c : EnginesConfig} (h : Reaches (step decode) (create c) s) : Sound s :=
  ((step_sound (fun _ => True) fun _ _ _ _ _ _ _ _ => trivial).invariant
    ⟨sound_create c, trivial⟩ h).1

/-- Two stages that decode up to two requests at a time, for the runs below that are
evaluated. -/
def smallConfig : EnginesConfig where
  context_parallel_config := ⟨1, 1, Nat.one_pos, Nat.one_pos⟩
  decoding_parallel_config := ⟨1, 2, Nat.one_pos, Nat.two_pos⟩
  cache_config := ⟨2, Nat.two_pos⟩
  context_max_batch_size := 1
  context_max_tokens_per_batch := 8
  decoding_max_batch_size := 2
  decoding_max_tokens_per_batch := 4
  waiting_block_prop_threshold := 1
  context_num_gpu_blocks := 8
  decoding_num_gpu_blocks := 8
  decoding_num_cpu_blocks := 4

/-- A request with the prompt `[1, 2, 3]` that may get three tokens. -/
def smallRequest (request_id : RequestId) : Request :=
  .create request_id [1, 2, 3] ⟨[], false, 3, DecodingStageLLMEngine.one_le_three⟩

end distserve.Engines
