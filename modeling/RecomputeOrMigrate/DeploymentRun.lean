-- What the deployment computes: in every state of every run, the tokens of a request are
-- those that the model itself writes after its prompt.
import RecomputeOrMigrate.DecodingWorkers

open autoregression calls copies runs

namespace distserve

open kv_store BlockManager

variable {κ : Type} {model : Model TokenId κ} {decode : Tokenizer}

/-! ## The engines -/

namespace Engines

variable {s s' first : Engines} {a : Action} {cs : List Callback}

/-- The workers gave the tokens of the model. -/
def AnsweredBy (model : Model TokenId κ) (s : Engines) : Action → Prop
  | .context_batch_returns ids => ∀ batch ∈ s.context_engine.batches_in_pipeline.head?,
      ids = answersOf model batch.requests
  | .decoding_batch_returns ids => ∀ i ∈ s.decoding_engine.batches_in_pipeline.head?,
      ids = answersOf model (s.decoding_engine.scheduler.batch i).requests
  | _ => True

theorem mem_requests {q : Request} : q ∈ s.requests ↔
    q ∈ s.context_engine.resting ++ s.context_engine.in_flight ∨
      q ∈ s.decoding_engine.resting ++ s.decoding_engine.in_flight := by
  simp only [requests, List.mem_append]
  tauto

/-- The tokens of the requests stay those of the model. -/
theorem Part.written (hans : AnsweredBy model first a) (h : Part decode a first s cs s')
    (hw : ∀ q ∈ s.requests, q.WrittenBy model) : ∀ q ∈ s'.requests, q.WrittenBy model := by
  intro q hq
  have hcontext : ∀ q ∈ s.context_engine.resting ++ s.context_engine.in_flight,
      q.WrittenBy model := fun q hq => hw q (mem_requests.mpr (Or.inl hq))
  have hdecoding : ∀ q ∈ s.decoding_engine.resting ++ s.decoding_engine.in_flight,
      q.WrittenBy model := fun q hq => hw q (mem_requests.mpr (Or.inr hq))
  rw [mem_requests] at hq
  cases h with
  | @adds request ha hs hnew ht hf =>
    rcases hq with hq | hq
    · have hpart : ContextStageLLMEngine.Part decode _ _ _ _ _ := .adds hs.context_sound
        (hs.linked.notMem_present hnew) ht hf
      exact hpart.written (fun _ h => by cases h) hcontext q hq
    · exact hdecoding q hq
  | context ha hans' h =>
    rcases hq with hq | hq
    · refine h.written (fun ids hb => ?_) hcontext q hq
      subst hb
      cases a <;> cases ha
      exact hans
    · exact hdecoding q hq
  | @bridges mr rest ha hs hb =>
    have hmr : mr.req.WrittenBy model := hcontext mr.req (by
      simp [ContextStageLLMEngine.resting, hb])
    rcases hq with hq | hq
    · have hpart : ContextStageLLMEngine.Part decode _ _ _ _ _ := .gets hs.context_sound hb
      exact hpart.written (fun _ h => by cases h) hcontext q hq
    · rw [List.mem_append, (s.decoding_engine.resting_add_request mr).mem_iff, List.mem_cons,
        or_assoc] at hq
      rcases hq with rfl | hq
      · exact hmr
      · exact hdecoding q (List.mem_append.mpr hq)
  | decoding ha hans' h hquiet =>
    rcases hq with hq | hq
    · exact hcontext q hq
    · refine h.written (fun mr hb => ?_) (fun ids hb => ?_) hdecoding q hq
      · subst hb
        cases a <;> cases ha
      · subst hb
        cases a <;> cases ha
        exact hans
  | migrates hs hp hcs hun hc =>
    rcases hq with hq | hq
    · rw [hc.same] at hq
      exact hcontext q hq
    · have hpart : DecodingStageLLMEngine.Part decode _ _ _ _ _ := .ends hs hp
      exact hpart.written (fun _ h => by cases h) (fun _ h => by cases h) hdecoding q hq

/-- What is on its way to the decoding engine. -/
def on_its_way (s : Engines) : List MigratingRequest :=
  s.context_engine.bridge_queue ++
    (s.decoding_engine.scheduler.unaccepted_queue ++ s.decoding_engine.in_migration)

/-- The context engine holds what is on its way to the other one. -/
def Handing (s : Engines) : Prop := ∀ mr ∈ s.on_its_way, s.context_engine.HoldsFor mr

theorem Part.handing (hl : Linked s) (h : Part decode a first s cs s') (hh : Handing s) :
    Handing s' := by
  intro mr hmr
  simp only [on_its_way, List.mem_append] at hmr
  have hbridge : mr ∈ s.context_engine.bridge_queue → s.context_engine.HoldsFor mr :=
    fun hmr => hh mr (List.mem_append_left _ hmr)
  have hdecoding : mr ∈ s.decoding_engine.scheduler.unaccepted_queue ++
      s.decoding_engine.in_migration → s.context_engine.HoldsFor mr :=
    fun hmr => hh mr (List.mem_append_right _ hmr)
  rw [List.mem_append] at hdecoding
  cases h with
  | adds ha hs hnew ht hf => exact hmr.elim hbridge hdecoding
  | context ha hans h =>
    obtain ⟨hold, hnew⟩ := h.holds_for mr fun mr hb => by
      subst hb
      cases a <;> cases ha
    rcases hmr with hmr | hmr
    · exact (hnew hmr).elim (fun hmr => hold (hbridge hmr)) id
    · exact hold (hdecoding hmr)
  | @bridges mr0 rest ha hs hb =>
    rw [hb, List.mem_cons] at hbridge
    have hun : mr ∈ s.decoding_engine.scheduler.unaccepted_queue ++ [mr0] →
        mr ∈ s.decoding_engine.scheduler.unaccepted_queue ∨ mr = mr0 := by
      rw [List.mem_append, List.mem_singleton]
      exact id
    rcases hmr with hmr | hmr | hmr
    · exact hbridge (Or.inr hmr)
    · exact (hun hmr).elim (fun hmr => hdecoding (Or.inl hmr)) fun hmr => hbridge (Or.inl hmr)
    · exact hdecoding (Or.inr hmr)
  | decoding ha hans h hquiet =>
    refine hmr.elim hbridge fun hmr => hdecoding (List.mem_append.mp
      (h.brings_none (fun mr hb => ?_) (List.mem_append.mpr hmr)))
    subst hb
    cases a <;> cases ha
  | @migrates s mr0 c hs hp hcs hun hc =>
    have hmig : s.decoding_engine.in_migration = [mr0] := by
      simp [DecodingStageLLMEngine.in_migration, hp]
    -- the request that the context engine clears is no longer on its way
    have hnd := hcs.accounts.nodup.of_append_left
    rw [ContextStageLLMEngine.owners, List.map_append] at hnd
    have hnd' := hl.handing.nodup_iff.mp hnd.of_append_right
    rw [DecodingStageLLMEngine.to_clear, hmig, List.map_append, ← List.append_assoc,
      List.nodup_append'] at hnd'
    have hbridge' : c.bridge_queue = s.context_engine.bridge_queue := by rw [hc.same]
    rw [hbridge'] at hmr
    have hmr' : mr ∈ s.context_engine.bridge_queue ∨
        mr ∈ s.decoding_engine.scheduler.unaccepted_queue := by
      refine hmr.imp id fun hmr => hmr.elim id fun hmr => ?_
      cases hmr
    have hmem : mr.req.request_id ∈ s.context_engine.bridge_queue.map (·.req.request_id) ++
        s.decoding_engine.scheduler.unaccepted_queue.map (·.req.request_id) := by
      rw [List.mem_append]
      exact hmr'.imp List.mem_map_of_mem List.mem_map_of_mem
    refine hc.holds_for (fun hid => ?_) (hmr'.elim hbridge fun hmr => hdecoding (Or.inl hmr))
    exact List.disjoint_left.mp hnd'.2.2 hmem (by simp [hid])

/-- The workers of the context engine follow it in each part, but for a batch that comes
back: its result is taken from them. -/
theorem Part.context_follows (ha : ∀ ids, a ≠ .context_batch_returns ids)
    (h : Part decode a first s cs s') {w : Workers κ}
    (hf : s.context_engine.Follows model w) : s'.context_engine.Follows model w := by
  cases h with
  | adds ha' hs hnew ht hfin =>
    have hpart : ContextStageLLMEngine.Part decode _ _ _ _ _ := .adds hs.context_sound
      (hs.linked.notMem_present hnew) ht hfin
    exact hpart.follows (fun _ h => by cases h) hf
  | context ha' hans h =>
    refine h.follows (fun ids hb => ?_) hf
    subst hb
    cases a <;> cases ha'
    exact ha _ rfl
  | bridges ha' hs hb =>
    have hpart : ContextStageLLMEngine.Part decode _ _ _ _ _ := .gets hs.context_sound hb
    exact hpart.follows (fun _ h => by cases h) hf
  | decoding ha' hans h hquiet => exact hf
  | migrates hs hp hcs hun hc =>
    have hpart : ContextStageLLMEngine.Part decode _ _ _ _ _ := .clears hcs hun hc
    exact hpart.follows (fun _ h => by cases h) hf

theorem in_context_ok {b : ContextStageLLMEngine.Action}
    (h : s.in_context decode b = some (.ok (s', cs))) :
    ∃ c, s.context_engine.act decode b = some (.ok (c, cs)) ∧
      s' = { s with context_engine := c } := by
  obtain ⟨x, hx, hbind⟩ := Option.map_eq_some_iff.mp h
  obtain ⟨⟨c, cs'⟩, rfl, hrest⟩ := bind_eq_ok.mp hbind
  cases hrest
  exact ⟨c, hx, rfl⟩

theorem in_decoding_ok {b : DecodingStageLLMEngine.Action}
    (h : s.in_decoding decode b = some (.ok (s', cs))) :
    ∃ d c, s.decoding_engine.act decode b = some (.ok (d, cs)) ∧
      s' = { s with context_engine := c, decoding_engine := d } := by
  obtain ⟨x, hx, hbind⟩ := Option.map_eq_some_iff.mp h
  obtain ⟨⟨d, cs'⟩, rfl, hfold⟩ := bind_eq_ok.mp hbind
  obtain ⟨c, -, hrest⟩ := bind_eq_ok.mp hfold
  cases hrest
  exact ⟨d, c, hx, rfl⟩

end Engines

/-! ## The deployment -/

namespace Deployment

variable {s s' : Deployment κ} {a : Action}

theorem engines_act_ok {a : Engines.Action} (h : s.engines_act decode a = some (.ok s')) :
    ∃ e cs, Engines.act decode s.engines a = some (.ok (e, cs)) ∧
      s' = { s with engines := e } := by
  obtain ⟨x, hx, hbind⟩ := Option.map_eq_some_iff.mp h
  obtain ⟨e, rfl, hrest⟩ := bind_eq_ok.mp hbind
  obtain ⟨cs, hact⟩ := withoutOutput_eq_ok.mp hx
  cases hrest
  exact ⟨e, cs, hact, rfl⟩

/-- The workers follow their engines, and each text is that of the model. -/
structure Right (model : Model TokenId κ) (s : Deployment κ) : Prop where
  sound : s.engines.Sound
  context : s.engines.context_engine.Follows model s.context_workers
  decoding : s.engines.decoding_engine.Follows model s.decoding_workers
  handing : s.engines.Handing
  written : ∀ q ∈ s.engines.requests, q.WrittenBy model

/-- An action of the engines whose workers follow them. -/
theorem Right.act {a : Engines.Action} {e : Engines} {cs : List Callback} {w v : Workers κ}
    (h : Right model s) (hans : Engines.AnsweredBy model s.engines a)
    (hx : Engines.act decode s.engines a = some (.ok (e, cs)))
    (hcontext : e.context_engine.Follows model w) (hdecoding : e.decoding_engine.Follows model v) :
    Right model ⟨e, w, v⟩ := by
  obtain ⟨hs, hdoes⟩ := (Engines.act_gives h.sound hx).of_ok rfl
  obtain ⟨-, hhanding, hwritten⟩ := hdoes.invariant
    (I := fun s => Engines.Linked s ∧ s.Handing ∧ ∀ q ∈ s.requests, q.WrittenBy model)
    (fun _ _ _ hI hp => ⟨hp.linked hI.1, hp.handing hI.1 hI.2.1, hp.written hans hI.2.2⟩)
    ⟨h.sound.linked, h.handing, h.written⟩
  exact ⟨hs, hcontext, hdecoding, hhanding, hwritten⟩

/-- The workers of the context engine go on to follow it. -/
theorem Right.context_follows {a : Engines.Action} {e : Engines} {cs : List Callback}
    (h : Right model s) (ha : ∀ ids, a ≠ .context_batch_returns ids)
    (hx : Engines.act decode s.engines a = some (.ok (e, cs))) :
    e.context_engine.Follows model s.context_workers := by
  obtain ⟨-, hdoes⟩ := (Engines.act_gives h.sound hx).of_ok rfl
  exact hdoes.invariant
    (I := fun e => e.context_engine.Follows model s.context_workers)
    (fun _ _ _ hI hp => hp.context_follows ha hI) h.context

/-- The context workers have the entries of a request that is being migrated. -/
theorem Right.holds (h : Right model s) {mr : MigratingRequest}
    (hmr : mr ∈ s.engines.decoding_engine.in_migration) :
    pages.Holds s.engines.decoding_engine.block_size s.context_workers.memory.gpu
      mr.block_indexes (model.entries mr.req.prompt_token_ids) := by
  obtain ⟨hun, howned⟩ := h.handing mr (List.mem_append_right _ (List.mem_append_right _ hmr))
  have hsize : s.engines.decoding_engine.block_size = s.engines.context_engine.block_size :=
    congrArg CacheConfig.block_size h.sound.linked.same_blocks.symm
  have hstores := h.context.computes.handing _ hun
  rw [stores_iff_holds howned] at hstores
  rw [hsize]
  refine hstores.congr fun b hb => ?_
  rw [← tableOf_eq howned] at hb
  exact (h.context.queued.agrees h.sound.context_sound hun hb).symm

/-- An action of the context engine that takes no result. -/
theorem Right.in_context {a : Engines.Action} {b : ContextStageLLMEngine.Action}
    (h : Right model s) (ha : ∀ ids, a ≠ .context_batch_returns ids)
    (hans : Engines.AnsweredBy model s.engines a)
    (hab : Engines.act decode s.engines a = s.engines.in_context decode b)
    (hx : s.engines_act decode a = some (.ok s')) : Right model s' := by
  obtain ⟨e, cs, hact, rfl⟩ := engines_act_ok hx
  obtain ⟨c, -, rfl⟩ := Engines.in_context_ok (hab.symm.trans hact)
  exact h.act hans hact (h.context_follows ha hact) h.decoding

/-- An action of the decoding engine that takes no result. -/
theorem Right.in_decoding {a : Engines.Action} {b : DecodingStageLLMEngine.Action}
    (h : Right model s) (ha : ∀ ids, a ≠ .context_batch_returns ids)
    (hans : Engines.AnsweredBy model s.engines a)
    (hab : Engines.act decode s.engines a = s.engines.in_decoding decode b)
    (hfollows : ∀ d cs, s.engines.decoding_engine.act decode b = some (.ok (d, cs)) →
      d.Follows model s.decoding_workers)
    (hx : s.engines_act decode a = some (.ok s')) : Right model s' := by
  obtain ⟨e, cs, hact, rfl⟩ := engines_act_ok hx
  obtain ⟨d, c, hd, rfl⟩ := Engines.in_decoding_ok (hab.symm.trans hact)
  exact h.act hans hact (h.context_follows ha hact) (hfollows d cs hd)

/-- Each action keeps the invariant. -/
theorem Right.step (h : Right model s) (hx : step decode model s a = some (.ok s')) :
    Right model s' := by
  have hcs := h.sound.context_sound
  have hds := h.sound.decoding_sound
  cases a with
  | add_request request =>
    obtain ⟨e, cs, hact, rfl⟩ := engines_act_ok hx
    refine h.act (a := .add_request request) trivial hact
      (h.context_follows (fun _ h => by cases h) hact) ?_
    simp only [Engines.act] at hact
    split at hact
    · cases hact
      exact h.decoding
    · cases hact
  | context_begin_step now =>
    exact h.in_context (a := .context_begin_step now) (fun _ h => by cases h) trivial rfl hx
  | context_wake => exact h.in_context (a := .context_wake) (fun _ h => by cases h) trivial rfl hx
  | context_batch_returns =>
    simp only [Deployment.step] at hx
    split at hx
    · cases hx
    · next ids results hr =>
      obtain ⟨e, cs, hact, rfl⟩ := engines_act_ok hx
      have hin : s.engines.in_context decode (.batch_returns ids) = some (.ok (e, cs)) := by
        simp only [Engines.act] at hact
        split at hact
        · exact hact
        · cases hact
      obtain ⟨c, hc, rfl⟩ := Engines.in_context_ok hin
      simp only [ContextStageLLMEngine.act] at hc
      split at hc
      · next hp =>
        obtain ⟨batch, rest, c', hb, hc', htook, hs'⟩ :=
          ContextStageLLMEngine.take_result_cases hcs hp decode ids
        cases (Option.some.inj hc).symm.trans hc'
        obtain ⟨hids, hfollows⟩ := h.context.take hcs hs' hp hb htook hr
        refine h.act (a := .context_batch_returns ids) (fun batch' hb' => ?_) hact hfollows
          h.decoding
        rw [hb] at hb'
        cases hb'
        exact hids
      · cases hc
  | bridge_get =>
    obtain ⟨e, cs, hact, rfl⟩ := engines_act_ok hx
    refine h.act (a := .bridge_get) trivial hact
      (h.context_follows (fun _ h => by cases h) hact) ?_
    simp only [Engines.act] at hact
    split at hact
    · cases hact
    · cases hact
      exact h.decoding.add_request _
  | decoding_begin_step now =>
    exact h.in_decoding (a := .decoding_begin_step now) (fun _ h => by cases h) trivial rfl
      (fun _ _ hd => h.decoding.begin_step hds hd) hx
  | decoding_wake =>
    exact h.in_decoding (a := .decoding_wake) (fun _ h => by cases h) trivial rfl
      (fun _ _ hd => h.decoding.wake hds hd) hx
  | decoding_batch_returns =>
    simp only [Deployment.step] at hx
    split at hx
    · cases hx
    · next ids results hr =>
      obtain ⟨e, cs, hact, rfl⟩ := engines_act_ok hx
      have hin : s.engines.in_decoding decode (.batch_returns ids) = some (.ok (e, cs)) := by
        simp only [Engines.act] at hact
        split at hact
        · exact hact
        · cases hact
      obtain ⟨d, c, hd, rfl⟩ := Engines.in_decoding_ok hin
      obtain ⟨hids, hfollows⟩ := h.decoding.batch_returns hds hr hd
      exact h.act (a := .decoding_batch_returns ids) hids hact
        (h.context_follows (fun _ h => by cases h) hact) hfollows
  | migration_ends =>
    simp only [Deployment.step] at hx
    split at hx
    · cases hx
    · next hnone =>
      refine h.in_decoding (a := .migration_ends) (fun _ h => by cases h) trivial rfl
        (fun _ _ hd => h.decoding.migration_ends hds (fun c hc => ?_) hd) hx
      by_contra hmig
      exact hnone (List.any_eq_true.mpr ⟨c, hc, eq_true_of_ne_false hmig⟩)
  | context_workers_run =>
    simp only [Deployment.step] at hx
    split at hx
    · cases hx
    · next c calls hp =>
      cases hx
      exact ⟨h.sound, h.context.run hp, h.decoding, h.handing, h.written⟩
  | decoding_workers_run =>
    simp only [Deployment.step] at hx
    split at hx
    · cases hx
    · next c calls hp =>
      cases hx
      exact ⟨h.sound, h.context, h.decoding.run hds hp fun mr hmr => h.holds hmr, h.handing,
        h.written⟩

/-! ## Every run -/

theorem right_create (c : EnginesConfig) (context_memory decoding_memory : Devices (Nat → κ)) :
    Right model (create c context_memory decoding_memory) := by
  have hunsent := Engines.batches_create c DecodingStageLLMEngine.unsentOf rfl
  have hsent := Engines.batches_create c DecodingStageLLMEngine.sentOf rfl
  refine ⟨Engines.sound_create c, ⟨⟨Nat.zero_le _, by simp [create, Engines.create,
    ContextStageLLMEngine.create, ContextStageLLMEngine.block_manager, BlockManager.create],
    [], rfl, rfl⟩, ?_, ?_, rfl⟩, ⟨Nat.zero_le _, ⟨?_, ?_, rfl⟩, Or.inl ⟨[], rfl, by simp⟩⟩, ?_, ?_⟩
  · exact fun q hq => by cases hq
  · exact fun q hq => by cases hq
  · intro q hq
    have hun : (create c context_memory decoding_memory).engines.decoding_engine.unsent = [] :=
      congrArg (fun l => [] ++ l ++ []) hunsent
    rw [hun] at hq
    cases hq
  · intro q hq
    have hin : (create c context_memory decoding_memory).engines.decoding_engine.in_flight = [] :=
      hsent
    rw [hin] at hq
    cases hq
  · exact fun mr hmr => by cases hmr
  · intro q hq
    have hnone : (create c context_memory decoding_memory).engines.requests = [] := by
      have hrest : (Engines.create c).decoding_engine.resting = [] :=
        congrArg (fun l => [] ++ [] ++ l ++ [] ++ []) hunsent
      have hin : (Engines.create c).decoding_engine.in_flight = [] := hsent
      change ([] ++ (Engines.create c).decoding_engine.resting) ++
        ([] ++ (Engines.create c).decoding_engine.in_flight) = []
      rw [hrest, hin]
      rfl
    rw [hnone] at hq
    cases hq

theorem right_of_reaches {c : EnginesConfig} {context_memory decoding_memory : Devices (Nat → κ)}
    (h : Reaches (step decode model) (create c context_memory decoding_memory) s) :
    Right model s := by
  induction h with
  | refl => exact right_create c context_memory decoding_memory
  | tail _ hstep ih =>
    obtain ⟨a, ha⟩ := hstep
    exact ih.step ha

theorem engines_act_reaches {b : Engines.Action} (h : s.engines_act decode b = some (.ok s')) :
    Reaches (Engines.step decode) s.engines s'.engines := by
  obtain ⟨e, cs, hact, rfl⟩ := engines_act_ok h
  exact (Reaches.refl _ _).tail (withoutOutput_eq_ok.mpr ⟨cs, hact⟩)

/-- The engines of a deployment run as they do alone, with the results of the workers. -/
theorem engines_reach (h : step decode model s a = some (.ok s')) :
    Reaches (Engines.step decode) s.engines s'.engines := by
  cases a with
  | context_batch_returns =>
    simp only [step] at h
    split at h
    · cases h
    · next ids results hr =>
      exact engines_act_reaches
        (s := { s with context_workers := { s.context_workers with results } }) h
  | decoding_batch_returns =>
    simp only [step] at h
    split at h
    · cases h
    · next ids results hr =>
      exact engines_act_reaches
        (s := { s with decoding_workers := { s.decoding_workers with results } }) h
  | migration_ends =>
    simp only [step] at h
    split at h
    · cases h
    · exact engines_act_reaches h
  | context_workers_run =>
    simp only [step] at h
    split at h
    · cases h
    · cases h
      exact Reaches.refl _ _
  | decoding_workers_run =>
    simp only [step] at h
    split at h
    · cases h
    · cases h
      exact Reaches.refl _ _
  | _ => exact engines_act_reaches h

theorem engines_reaches {c : EnginesConfig} {context_memory decoding_memory : Devices (Nat → κ)}
    (h : Reaches (step decode model) (create c context_memory decoding_memory) s) :
    Reaches (Engines.step decode) (Engines.create c) s.engines := by
  induction h with
  | refl => exact Reaches.refl _ _
  | tail _ hstep ih =>
    obtain ⟨a, ha⟩ := hstep
    exact Relation.ReflTransGen.trans ih (engines_reach ha)

/-- In every state of every run, each request that was added has exactly the tokens that the
model writes after its prompt on its own. -/
theorem written_by_the_model {c : EnginesConfig}
    {context_memory decoding_memory : Devices (Nat → κ)}
    (h : Reaches (step decode model) (create c context_memory decoding_memory) s) :
    ∀ q₀ ∈ s.engines.added, ∃ q ∈ s.engines.requests, q.origin = q₀.origin ∧
      q.generated_token_ids = model.generate q₀.prompt_token_ids q.get_output_len := by
  intro q₀ hq₀
  obtain ⟨outputs, hv⟩ := Engines.served_of_reaches (engines_reaches h)
  obtain ⟨q, hq, horigin⟩ := hv.exists_request hq₀
  rw [Engines.requests_serving, Multiset.mem_coe] at hq
  have hprompt : q.prompt_token_ids = q₀.prompt_token_ids :=
    congrArg (fun origin => origin.2.1) horigin
  refine ⟨q, hq, horigin, ?_⟩
  rw [← hprompt]
  exact (right_of_reaches h).written q hq

end Deployment

end distserve
