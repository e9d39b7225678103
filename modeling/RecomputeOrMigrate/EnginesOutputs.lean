-- What the engines tell the LLM engine in an action: for which requests, and with which
-- tokens of the workers.
import RecomputeOrMigrate.EnginesServe
import RecomputeOrMigrate.LLMEngine

open calls runs

namespace distserve

/-! ## What the callbacks are about -/

/-- The request of a callback meets `P`. -/
def Callback.Concerns (P : RequestId → Prop) : Callback → Prop
  | .engine_on_new_step_output request_id step_output =>
    step_output.request_id = request_id ∧ P request_id
  | .engine_on_new_lifetime_event request_id _ _ => P request_id
  | .clear_migrated_blocks _ => True

theorem Callback.Concerns.imp {P Q : RequestId → Prop} (h : ∀ r, P r → Q r) {c : Callback}
    (hc : c.Concerns P) : c.Concerns Q := by
  cases c with
  | engine_on_new_step_output r o => exact ⟨hc.1, h r hc.2⟩
  | engine_on_new_lifetime_event r _ _ => exact h r hc
  | clear_migrated_blocks _ => trivial

/-- An unfinished request of the list has this id. -/
def Unfinished (rs : List Request) (r : RequestId) : Prop :=
  ∃ q ∈ rs, q.request_id = r ∧ q.is_finished = false

theorem Unfinished.subset {rs rs' : List Request} {r : RequestId} (h : Unfinished rs r)
    (hs : rs ⊆ rs') : Unfinished rs' r := by
  obtain ⟨q, hq, hr⟩ := h
  exact ⟨q, hs hq, hr⟩

/-- The outputs of a batch are for its requests. -/
theorem unfinished_of_step_outputs {rs : List Request} {ts : List String} {is : List TokenId}
    (hf : ∀ q ∈ rs, q.is_finished = false) {o : StepOutput}
    (ho : o ∈ step_outputs (BatchedRequests.growAll rs ts is) ts is) :
    Unfinished rs o.request_id := by
  induction rs generalizing ts is with
  | nil => cases ho
  | cons r rs ih =>
    match ts, is with
    | [], _ => cases ho
    | _ :: _, [] => cases ho
    | t :: ts, i :: is =>
      rcases List.mem_cons.mp ho with rfl | ho
      · exact ⟨r, List.mem_cons_self, (r.grow_request_id t i).symm, hf r List.mem_cons_self⟩
      · exact (ih (fun q hq => hf q (List.mem_cons_of_mem _ hq)) ho).subset
          (List.subset_cons_self _ _)

namespace ContextStageLLMEngine

variable {e e' first : ContextStageLLMEngine} {decode : Tokenizer} {a : Action}
  {cs : List Callback}

/-- Only the result of a batch has outputs. -/
theorem Part.no_outputs (h : Part decode a first e cs e') (ha : ∀ ids, a ≠ .batch_returns ids) :
    outputsOf cs = [] := by
  cases h with
  | pushes hs hp h => simp [outputsOf, List.filterMap_map]
  | takes hs hp hb h => exact absurd rfl (ha _)
  | _ => rfl

theorem Part.concerns (h : Part decode a first e cs e') :
    ∀ c ∈ cs, c.Concerns (Unfinished (e.resting ++ e.in_flight)) := by
  cases h with
  | pushes hs hp h =>
    intro c hc
    obtain ⟨q, hq, rfl⟩ := List.mem_map.mp hc
    have hw : q ∈ e.scheduler.waiting_queue := by
      rw [h.waiting]
      exact List.mem_append_left _ hq
    exact ⟨q, by simp [resting, hw], rfl, (hs.fresh q (List.mem_append_left _ hw)).2⟩
  | checks hs h => simp
  | @takes _ _ batch rest ids hs hp hb h =>
    have hin : batch.requests ⊆ e.in_flight := by
      unfold in_flight
      rw [hb, List.flatMap_cons]
      exact List.subset_append_left _ _
    have hf : ∀ q ∈ batch.requests, q.is_finished = false := fun q hq =>
      (hs.fresh q (List.mem_append_right _ (hin hq))).2
    intro c hc
    obtain ⟨o, ho, hc⟩ := List.mem_flatMap.mp hc
    have hun := (unfinished_of_step_outputs hf ho).subset
      (List.Subset.trans hin (List.subset_append_right e.resting _))
    simp only [List.mem_cons, List.not_mem_nil, or_false] at hc
    rcases hc with rfl | rfl
    · exact hun
    · exact ⟨rfl, hun⟩
  | adds hs hnew ht hf => simp
  | gets hs hb => simp
  | clears hs hun h => simp

end ContextStageLLMEngine

namespace DecodingStageLLMEngine

open DecodingStageFCFSScheduler

variable {e e' first : DecodingStageLLMEngine} {decode : Tokenizer} {a : Action}
  {cs cs' : List Callback}

/-- Only the result of a batch has outputs. -/
theorem Part.no_outputs (h : Part decode a first e cs e') (ha : ∀ ids, a ≠ .batch_returns ids) :
    outputsOf cs = [] := by
  cases h with
  | pushes hs hp h => simp [outputsOf, List.filterMap_map]
  | takes hs hp h => exact absurd rfl (ha _)
  | _ => rfl

theorem go_on_outputs (hs : Sound e) (h : e.go_on cs = .ok (e', cs')) :
    outputsOf cs' = outputsOf cs := by
  unfold go_on at h
  split at h
  · next hp =>
    rcases post_process_cases hs hp with hpost | ⟨mr, m, e₁, -, hpost⟩
    · rw [hpost] at h
      cases h
      rw [List.append_nil]
    · rw [hpost] at h
      cases h
      rw [outputsOf_append]
      exact List.append_nil _
  · cases h
    rfl

theorem end_migration_concerns {mr : MigratingRequest} (hs : Sound e)
    (hp : e.point = .migrating mr) :
    ∀ c ∈ (e.end_migration mr).2, c.Concerns (Unfinished (e.resting ++ e.in_flight)) := by
  have hmig : e.in_migration = [mr] := by simp [in_migration, hp]
  have hun : Unfinished (e.resting ++ e.in_flight) mr.req.request_id :=
    ⟨mr.req, by simp [resting, hmig], rfl, (hs.handed mr (by simp [hmig])).not_finished⟩
  intro c hc
  simp only [end_migration, List.mem_cons, List.not_mem_nil, or_false] at hc
  rcases hc with rfl | rfl
  · exact hun
  · trivial

theorem Part.concerns (h : Part decode a first e cs e') :
    ∀ c ∈ cs, c.Concerns (Unfinished (e.resting ++ e.in_flight)) := by
  cases h with
  | @pushes _ _ now s' m hs hp h =>
    intro c hc
    obtain ⟨q, hq, rfl⟩ := List.mem_map.mp hc
    have hgrow : Growing q := h.kept.growing q (by simp [mem_batched_of_mem hq])
    refine ⟨q, List.mem_append_left _ ?_, rfl, hgrow.1.1⟩
    rw [(h.serves hs hp).1.mem_iff]
    exact List.mem_append_left _ hq
  | checks hs hp h hs' => simp
  | @takes _ _ i m ids hs hp h =>
    have hin : (e.scheduler.batch i).requests ⊆ e.in_flight := fun q hq => by
      rw [(h.serves hs hp).1.mem_iff]
      exact List.mem_append_left _ hq
    have hf : ∀ q ∈ (e.scheduler.batch i).requests, q.is_finished = false := fun q hq =>
      (hs.kept.growing q (by simp [mem_batched_of_mem hq])).1.1
    intro c hc
    obtain ⟨o, ho, hc⟩ := List.mem_flatMap.mp hc
    have hun := (unfinished_of_step_outputs hf ho).subset
      (List.Subset.trans hin (List.subset_append_right e.resting _))
    rcases List.mem_cons.mp hc with rfl | hc
    · exact ⟨rfl, hun⟩
    · split at hc
      · rw [List.mem_singleton.mp hc]
        exact hun
      · cases hc
  | @accepts _ _ _ _ mr m hs hp h =>
    have hmr : mr ∈ e.scheduler.unaccepted_queue := by
      rw [h.head]
      exact List.mem_cons_self
    have hhanded := hs.handed mr (List.mem_append_left _ hmr)
    intro c hc
    rw [List.mem_singleton.mp hc]
    refine ⟨mr.req, List.mem_append_left _ ?_, rfl, hhanded.not_finished⟩
    simp only [resting, List.map_append, List.mem_append]
    exact Or.inl (Or.inl (Or.inl (Or.inl (Or.inl (List.mem_map_of_mem hmr)))))
  | ends hs hp => exact end_migration_concerns hs hp
  | adds hs hnew hh => simp

end DecodingStageLLMEngine

namespace Engines

open BlockManager

variable {s s' first : Engines} {decode : Tokenizer} {a : Action} {cs : List Callback}
  {cc : CacheConfig} {outputs : RequestId → List StepOutput}

/-- The callbacks of a part are about requests that were not finished before. -/
theorem Part.concerns (h : Part decode a first s cs s') :
    ∀ c ∈ cs, c.Concerns (Unfinished s.requests) := by
  have hcontext : s.context_engine.resting ++ s.context_engine.in_flight ⊆ s.requests := by
    intro q hq
    simp only [requests, List.mem_append] at hq ⊢
    tauto
  have hdecoding : s.decoding_engine.resting ++ s.decoding_engine.in_flight ⊆ s.requests := by
    intro q hq
    simp only [requests, List.mem_append] at hq ⊢
    tauto
  cases h with
  | adds ha hs hnew ht hf => simp
  | context ha hans h => exact fun c hc => (h.concerns c hc).imp fun r hr => hr.subset hcontext
  | bridges ha hs hb => simp
  | decoding ha hans h hq => exact fun c hc => (h.concerns c hc).imp fun r hr => hr.subset hdecoding
  | migrates hs hp hcs hun hc =>
    exact fun c hc => (DecodingStageLLMEngine.end_migration_concerns hs hp c hc).imp
      fun r hr => hr.subset hdecoding

theorem Part.added (h : Part decode a first s cs s') (ha : ∀ q, a ≠ .add_request q) :
    s'.added = s.added := by
  cases h with
  | adds haction hs hnew ht hf => exact absurd haction (ha _)
  | context _ hans h => rfl
  | bridges _ hs hb => rfl
  | decoding _ hans h hq => rfl
  | migrates hs hp hcs hun hc => rfl

/-- The callbacks of an action are about requests that were added and told no last token
before. -/
theorem Does.concerns (h : Does decode a s cs s') (ha : ∀ q, a ≠ .add_request q) (hl : Linked s)
    (hcc : s.context_engine.block_manager.cache_config = cc)
    (hv : Serving.Served cc.block_size (s.serving outputs)) :
    s'.added = s.added ∧ ∀ c ∈ cs, c.Concerns fun r =>
      r ∈ s.added.map (·.request_id) ∧ ∀ o ∈ outputs r, o.is_finished = false := by
  induction h with
  | refl => exact ⟨rfl, by simp⟩
  | @tail s₁ _ before cs hdoes hpart ih =>
    obtain ⟨hadded, hbefore⟩ := ih
    refine ⟨(hpart.added ha).trans hadded, fun c hc => ?_⟩
    rcases List.mem_append.mp hc with hc | hc
    · exact hbefore c hc
    · apply (hpart.concerns c hc).imp
      intro r hr
      obtain ⟨q, hq, rfl, hf⟩ := hr
      have hv₁ := (Does.served hdoes hl hcc hv).1
      have hq' : q ∈ (s₁.serving (told outputs before)).requests := by
        rw [requests_serving]
        exact hq
      constructor
      · have := Multiset.mem_map_of_mem (·.request_id) hq'
        rw [hv₁.ids, Multiset.mem_coe] at this
        change _ ∈ s₁.added.map _ at this
        rwa [hadded] at this
      · exact fun o ho => (hv₁.told q hq').unfinished hf (List.mem_append_left _ ho)

/-! ## The tokens of the workers -/

/-- Only the result of a batch has outputs. -/
theorem Part.no_outputs (h : Part decode a first s cs s')
    (hc : ∀ ids, a ≠ .context_batch_returns ids) (hd : ∀ ids, a ≠ .decoding_batch_returns ids) :
    outputsOf cs = [] := by
  cases h with
  | context ha hans h =>
    apply h.no_outputs
    intro ids hb
    subst hb
    cases a <;> cases ha
    exact hc ids rfl
  | decoding ha hans h hq =>
    apply h.no_outputs
    intro ids hb
    subst hb
    cases a <;> cases ha
    exact hd ids rfl
  | _ => rfl

theorem Does.no_outputs (h : Does decode a s cs s') (hc : ∀ ids, a ≠ .context_batch_returns ids)
    (hd : ∀ ids, a ≠ .decoding_batch_returns ids) : outputsOf cs = [] := by
  induction h with
  | refl => rfl
  | tail _ hpart ih =>
    rw [outputsOf_append, ih, hpart.no_outputs hc hd]
    rfl

theorem zip_decoded (decode : Tokenizer) (rs : List RequestId) (ids : List TokenId) :
    rs.zip ((decode.decode_tokens ids).zip ids) =
      (rs.zip ids).map fun p => (p.1, (decode p.2).getD "", p.2) := by
  induction rs generalizing ids with
  | nil => rfl
  | cons r rs ih =>
    cases ids with
    | nil => rfl
    | cons i ids => exact congrArg ((r, (decode i).getD "", i) :: ·) (ih ids)

/-- The workers answer for the requests of the batch. -/
theorem answered_of_future {b : BatchedRequests} {f : Option RemoteCall}
    {futures : List (Option RemoteCall)} {ids : List TokenId} (hf : FutureOf b f)
    (h : answers (f :: futures) ids = true) :
    LLMEngine.answered (f :: futures) ids = (b.requests.map (·.request_id)).zip ids := by
  cases f with
  | none => cases h
  | some c =>
    obtain ⟨-, -, inputs, firsts, tables, rfl⟩ := hf
    rfl

/-- The outputs of a batch tell what the workers answered. -/
theorem outputs_of_answered {b : BatchedRequests} {f : Option RemoteCall}
    {futures : List (Option RemoteCall)} {ids : List TokenId} (hf : FutureOf b f)
    (h : answers (f :: futures) ids = true) :
    (step_outputs (BatchedRequests.growAll b.requests (decode.decode_tokens ids) ids)
        (decode.decode_tokens ids) ids).map (fun o => (o.request_id, o.new_token, o.new_token_id)) =
      (LLMEngine.answered (f :: futures) ids).map fun p => (p.1, (decode p.2).getD "", p.2) := by
  have hlen := length_of_answers hf h
  rw [step_outputs_keys (by rw [Tokenizer.decode_tokens, List.length_map, hlen]) hlen,
    answered_of_future hf h]
  exact zip_decoded decode _ ids

theorem context_outputs {ids : List TokenId} (hs : Sound s)
    (hx : act decode s (.context_batch_returns ids) = some (.ok (s', cs))) :
    (outputsOf cs).map (fun o => (o.request_id, o.new_token, o.new_token_id)) =
      (LLMEngine.answered s.context_engine.batches_ret_futures ids).map
        fun p => (p.1, (decode p.2).getD "", p.2) := by
  simp only [act] at hx
  split at hx
  · next hans =>
    obtain ⟨y, hy, hyx⟩ := Option.map_eq_some_iff.mp hx
    simp only [ContextStageLLMEngine.act] at hy
    split at hy
    · next hp =>
      cases hy
      obtain ⟨batch, rest, e', hb, he, -, -⟩ :=
        ContextStageLLMEngine.take_result_cases hs.context_sound hp decode ids
      rw [ok_bind he] at hyx
      cases hyx
      have hf := hs.context_sound.futures
      rw [hb] at hf
      obtain ⟨f, futures, hbf, -, hfs⟩ := List.forall₂_cons_left_iff.mp hf
      rw [hfs] at hans ⊢
      exact (congrArg (List.map _) (ContextStageLLMEngine.outputsOf_result _ _ _)).trans
        (outputs_of_answered hbf hans)
    · cases hy
  · cases hx

theorem decoding_outputs {ids : List TokenId} (hs : Sound s)
    (hx : act decode s (.decoding_batch_returns ids) = some (.ok (s', cs))) :
    (outputsOf cs).map (fun o => (o.request_id, o.new_token, o.new_token_id)) =
      (LLMEngine.answered s.decoding_engine.batches_ret_futures ids).map
        fun p => (p.1, (decode p.2).getD "", p.2) := by
  simp only [act] at hx
  split at hx
  · next hans =>
    obtain ⟨y, hy, hyx⟩ := Option.map_eq_some_iff.mp hx
    simp only [DecodingStageLLMEngine.act] at hy
    split at hy
    · next hp =>
      cases hy
      obtain ⟨e', i, m, he, ht⟩ :=
        DecodingStageLLMEngine.take_result_cases hs.decoding_sound hp decode ids
      obtain ⟨⟨d, ds⟩, hgo, hclear⟩ := bind_eq_ok.mp hyx
      obtain ⟨c, -, hcs⟩ := bind_eq_ok.mp hclear
      cases hcs
      have hgo' := (ok_bind he).symm.trans hgo
      have hf := hs.decoding_sound.futures
      rw [ht.head] at hf
      obtain ⟨f, futures, hbf, -, hfs⟩ := List.forall₂_cons_left_iff.mp hf
      rw [hfs] at hans ⊢
      rw [DecodingStageLLMEngine.go_on_outputs (ht.sound hs.decoding_sound hp) hgo',
        DecodingStageLLMEngine.outputsOf_result]
      exact outputs_of_answered hbf hans
    · cases hy
  · cases hx

/-- The outputs of an action tell what the workers gave, in the same order. -/
theorem act_outputs (hs : Sound s) (hx : act decode s a = some (.ok (s', cs))) :
    (outputsOf cs).map (fun o => (o.request_id, o.new_token, o.new_token_id)) =
      (LLMEngine.produces s a).map fun p => (p.1, (decode p.2).getD "", p.2) := by
  have hdoes := ((act_gives hs hx).of_ok rfl).2
  cases a with
  | context_batch_returns ids => exact context_outputs hs hx
  | decoding_batch_returns ids => exact decoding_outputs hs hx
  | _ => rw [hdoes.no_outputs (fun _ => nofun) fun _ => nofun]; rfl

end Engines

end distserve
