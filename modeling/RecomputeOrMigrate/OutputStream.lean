-- The outputs of the engines reach the generators: the laws of `LLMEngine.generate`
-- (engine.py), for every run of the engines and of the consumers.
import RecomputeOrMigrate.EnginesOutputs

open calls runs

namespace distserve

/-! ## The invariant -/

/-- What a generator yielded, by where it is. -/
def Generator.Follows (yielded : List StepOutput) : Generator → Prop
  | .not_started => yielded = []
  | .waiting => ∀ o ∈ yielded, o.is_finished = false
  | .suspended step_output =>
    ∃ before, yielded = before ++ [step_output] ∧ ∀ o ∈ before, o.is_finished = false
  | .returned => ∃ before last, yielded = before ++ [last] ∧ last.is_finished = true ∧
      ∀ o ∈ before, o.is_finished = false
  | .closed => True

namespace LLMEngine

/-- All outputs of a request: what was yielded, and then what the queue holds. -/
def outputs (s : LLMEngine) (r : RequestId) : List StepOutput :=
  s.yielded r ++ (s.request_outputs r).getD []

/-- The ids of the requests that were added. -/
def ids (s : LLMEngine) : List RequestId := s.engines.added.map (·.request_id)

/-- A request has its queue until its generator returns. -/
structure Consumers (s : LLMEngine) : Prop where
  queues : ∀ r, (s.request_outputs r).isSome ↔ r ∈ s.ids ∧ s.generators r ≠ .returned
  events : ∀ r ∈ s.ids, s.generators r ≠ .returned → (s.request_lifetime_events r).isSome
  started : ∀ r, s.generators r ≠ .not_started → r ∈ s.ids
  follows : ∀ r, (s.generators r).Follows (s.yielded r)

/-- The engines serve with the outputs that the generators yield, and these tell the
tokens of the workers. -/
structure Streams (decode : Tokenizer) (cc : CacheConfig) (s : LLMEngine) : Prop where
  sound : s.engines.Sound
  cache_config : s.engines.context_engine.block_manager.cache_config = cc
  served : Serving.Served cc.block_size (s.engines.serving s.outputs)
  own : ∀ r, ∀ o ∈ s.outputs r, o.request_id = r
  tokens : ∀ r, (s.outputs r).map (fun o => (o.new_token, o.new_token_id)) =
    (s.produced.filter (·.1 == r)).map fun p => ((decode p.2).getD "", p.2)
  consumers : Consumers s

variable {s s' : LLMEngine} {decode : Tokenizer} {tokenizer : PromptTokenizer} {cc : CacheConfig}
  {cs : List Callback}

theorem streams_create (c : EnginesConfig) : Streams decode c.cache_config (create c) where
  sound := Engines.sound_create c
  cache_config := rfl
  served := Engines.served_create c _
  own _ _ ho := by cases ho
  tokens _ := rfl
  consumers :=
    { queues := fun r => ⟨fun h => (by cases h), fun h => (by cases h.1)⟩
      events := fun r hr => by cases hr
      started := fun r h => absurd rfl h
      follows := fun r => rfl }

/-! ## The callbacks -/

/-- The request has a queue and a list of events. -/
def HasKeys (s : LLMEngine) (r : RequestId) : Prop :=
  (s.request_outputs r).isSome ∧ (s.request_lifetime_events r).isSome

/-- The engine after some callbacks. -/
structure Informed (s : LLMEngine) (cs : List Callback) (s' : LLMEngine) : Prop where
  queues : ∀ r, s'.request_outputs r =
    (s.request_outputs r).map (· ++ (outputsOf cs).filter (·.request_id == r))
  events : ∀ r, (s'.request_lifetime_events r).isSome = (s.request_lifetime_events r).isSome
  same : s' = { s with
    request_outputs := s'.request_outputs
    request_lifetime_events := s'.request_lifetime_events }

theorem informed_refl (s : LLMEngine) (h : outputsOf cs = []) : Informed s cs s := by
  refine ⟨fun r => ?_, fun r => rfl, rfl⟩
  rw [h]
  cases s.request_outputs r <;> simp

theorem Informed.trans {s'' : LLMEngine} {ds : List Callback} (h : Informed s cs s')
    (h' : Informed s' ds s'') : Informed s (cs ++ ds) s'' := by
  refine ⟨fun r => ?_, fun r => (h'.events r).trans (h.events r), ?_⟩
  · rw [h'.queues, h.queues, Option.map_map, outputsOf_append, List.filter_append]
    congr 1
    funext queue
    exact List.append_assoc _ _ _
  · rw [h'.same, h.same]

theorem callback_informs {c : Callback} (h : c.Concerns s.HasKeys) :
    ∃ s', s.on_callback c = .ok s' ∧ Informed s [c] s' := by
  cases c with
  | engine_on_new_step_output r o =>
    obtain ⟨hr, hkey, -⟩ := h
    obtain ⟨queue, hq⟩ := Option.isSome_iff_exists.mp hkey
    have hput : s.on_callback (.engine_on_new_step_output r o) = .ok { s with
        request_outputs := Function.update s.request_outputs r (some (queue ++ [o])) } := by
      simp only [on_callback, on_new_step_output_callback, hq]
    refine ⟨_, hput, fun r' => ?_, fun r' => rfl, rfl⟩
    by_cases hr' : r' = r
    · rw [hr']
      simp [outputsOf, hq, hr]
    · have hne : r ≠ r' := fun hc => hr' hc.symm
      dsimp only
      rw [Function.update_of_ne hr']
      simp [outputsOf, hr, hne]
  | engine_on_new_lifetime_event r t d =>
    obtain ⟨events, he⟩ := Option.isSome_iff_exists.mp h.2
    simp only [on_callback, on_new_lifetime_event_callback, he]
    split
    · exact ⟨s, rfl, informed_refl s rfl⟩
    · refine ⟨_, rfl, (informed_refl s rfl).queues, fun r' => ?_, rfl⟩
      dsimp only
      by_cases hr' : r' = r
      · rw [hr', he, Function.update_self]
        rfl
      · rw [Function.update_of_ne hr']
  | clear_migrated_blocks mr => exact ⟨s, rfl, informed_refl s rfl⟩

theorem Informed.hasKeys (h : Informed s cs s') {r : RequestId} (hr : s.HasKeys r) :
    s'.HasKeys r := by
  refine ⟨?_, (h.events r).trans hr.2⟩
  rw [h.queues, Option.isSome_map]
  exact hr.1

/-- The callbacks find the queue of their request. -/
theorem callbacks_inform (h : ∀ c ∈ cs, c.Concerns s.HasKeys) :
    ∃ s', cs.foldlM on_callback s = .ok s' ∧ Informed s cs s' := by
  induction cs generalizing s with
  | nil => exact ⟨s, rfl, informed_refl s rfl⟩
  | cons c cs ih =>
    obtain ⟨s₁, h₁, hs₁⟩ := callback_informs (h c List.mem_cons_self)
    obtain ⟨s', hs', hinf⟩ := ih fun c' hc' =>
      (h c' (List.mem_cons_of_mem _ hc')).imp fun _ => hs₁.hasKeys
    exact ⟨s', (ok_bind h₁).trans hs', hs₁.trans hinf⟩

/-! ## The consumers -/

/-- Only the consumer of the request `r` goes on. -/
structure Consumed (r : RequestId) (s s' : LLMEngine) : Prop where
  engines : s'.engines = s.engines
  produced : s'.produced = s.produced
  outputs : s'.outputs r = s.outputs r
  queue : (s'.request_outputs r).isSome ↔ s'.generators r ≠ .returned
  events : s'.generators r ≠ .returned →
    s'.request_lifetime_events r = s.request_lifetime_events r
  follows : (s'.generators r).Follows (s'.yielded r)
  before : s.generators r ≠ .not_started ∧
    (s.generators r = .returned → s'.generators r = .returned)
  others : ∀ r' ≠ r, s'.request_outputs r' = s.request_outputs r' ∧
    s'.request_lifetime_events r' = s.request_lifetime_events r' ∧
    s'.generators r' = s.generators r' ∧ s'.yielded r' = s.yielded r'

theorem Consumed.outputs_eq {r : RequestId} (h : Consumed r s s') : s'.outputs = s.outputs := by
  funext r'
  by_cases hr : r' = r
  · rw [hr]
    exact h.outputs
  · obtain ⟨hq, -, -, hy⟩ := h.others r' hr
    unfold LLMEngine.outputs
    rw [hq, hy]

theorem Consumed.streams {r : RequestId} (h : Consumed r s s') (hs : Streams decode cc s) :
    Streams decode cc s' where
  sound := by
    rw [h.engines]
    exact hs.sound
  cache_config := by
    rw [h.engines]
    exact hs.cache_config
  served := by
    rw [h.engines, h.outputs_eq]
    exact hs.served
  own := by
    rw [h.outputs_eq]
    exact hs.own
  tokens := by
    rw [h.outputs_eq, h.produced]
    exact hs.tokens
  consumers := by
    have hids : s'.ids = s.ids := by rw [ids, h.engines, ids]
    have hr := hs.consumers.started r h.before.1
    constructor
    · intro r'
      by_cases hr' : r' = r
      · subst hr'
        rw [hids, h.queue]
        exact ⟨fun hne => ⟨hr, hne⟩, fun hne => hne.2⟩
      · obtain ⟨hq, -, hg, -⟩ := h.others r' hr'
        rw [hids, hq, hg]
        exact hs.consumers.queues r'
    · intro r' hmem hne
      rw [hids] at hmem
      by_cases hr' : r' = r
      · subst hr'
        rw [h.events hne]
        exact hs.consumers.events r' hmem fun hc => hne (h.before.2 hc)
      · obtain ⟨-, he, hg, -⟩ := h.others r' hr'
        rw [hg] at hne
        rw [he]
        exact hs.consumers.events r' hmem hne
    · intro r' hne
      rw [hids]
      by_cases hr' : r' = r
      · exact hr' ▸ hr
      · rw [(h.others r' hr').2.2.1] at hne
        exact hs.consumers.started r' hne
    · intro r'
      by_cases hr' : r' = r
      · exact hr' ▸ h.follows
      · obtain ⟨-, -, hg, hy⟩ := h.others r' hr'
        rw [hg, hy]
        exact hs.consumers.follows r'

theorem Streams.queue_of_started (hs : Streams decode cc s) {r : RequestId}
    (h : s.generators r ≠ .not_started) (h' : s.generators r ≠ .returned) :
    ∃ queue, s.request_outputs r = some queue :=
  Option.isSome_iff_exists.mp ((hs.consumers.queues r).mpr ⟨hs.consumers.started r h, h'⟩)

/-- The generator yields the first output of its queue. -/
theorem get_output_gives (hs : Streams decode cc s) {r : RequestId}
    {x : Except PyError (LLMEngine × StepOutput)} (hx : s.get_output r = some x) :
    ∃ s' o, x = .ok (s', o) ∧ s'.generators r = .suspended o ∧
      s'.yielded r = s.yielded r ++ [o] ∧ Consumed r s s' := by
  unfold get_output at hx
  split at hx
  · next hg =>
    obtain ⟨queue, hq⟩ := hs.queue_of_started (r := r) (by rw [hg]; nofun) (by rw [hg]; nofun)
    rw [hq] at hx
    have hf := hs.consumers.follows r
    rw [hg] at hf
    cases queue with
    | nil => cases hx
    | cons o queue =>
      cases hx
      refine ⟨_, o, rfl, Function.update_self .., Function.update_self .., rfl, rfl, ?_, ?_, ?_, ?_,
        ?_, fun r' hr' => ?_⟩
      · simp [outputs, hq]
      · simp
      · exact fun _ => rfl
      · simp only [Function.update_self]
        exact ⟨_, rfl, hf⟩
      · simp [hg]
      · simp [Function.update_of_ne hr']
  · cases hx

/-- After the last output, the queue is empty. -/
theorem Streams.queue_empty (hs : Streams decode cc s) {r : RequestId} {before : List StepOutput}
    {o : StepOutput} (hy : s.yielded r = before ++ [o]) (hf : o.is_finished = true)
    {queue : List StepOutput} (hq : s.request_outputs r = some queue) : queue = [] := by
  have hr := ((hs.consumers.queues r).mp (by rw [hq]; rfl)).1
  obtain ⟨q₀, hq₀, rfl⟩ := List.mem_map.mp hr
  obtain ⟨q, hmem, horigin⟩ := hs.served.exists_request hq₀
  have hid : q.request_id = q₀.request_id := congrArg Prod.fst horigin
  have htold := (hs.served.told q hmem).before
  rw [hid] at htold
  change ∀ o ∈ (s.outputs q₀.request_id).dropLast, _ at htold
  by_contra hne
  have hlast : o ∈ (s.outputs q₀.request_id).dropLast := by
    unfold outputs
    rw [hy, hq, Option.getD_some, List.dropLast_append_of_ne_nil hne]
    simp
  rw [htold o hlast] at hf
  cases hf

theorem resume_gives (hs : Streams decode cc s) {r : RequestId} {o : StepOutput}
    (hg : s.generators r = .suspended o) :
    ∃ s', s.resume r o = .ok s' ∧ s'.yielded r = s.yielded r ∧
      s'.generators r = (if o.is_finished then .returned else .waiting) ∧ Consumed r s s' := by
  obtain ⟨queue, hq⟩ := hs.queue_of_started (r := r) (by rw [hg]; nofun) (by rw [hg]; nofun)
  have hf := hs.consumers.follows r
  rw [hg] at hf
  obtain ⟨before, hy, hbefore⟩ := hf
  unfold resume
  by_cases hfin : o.is_finished = true
  · rw [if_pos hfin, if_pos hfin, hq]
    have hempty := hs.queue_empty hy hfin hq
    refine ⟨_, rfl, rfl, Function.update_self .., rfl, rfl, ?_, ?_, ?_, ?_, ?_, fun r' hr' => ?_⟩
    · simp [outputs, hq, hempty]
    · simp
    · exact fun _ => rfl
    · simp only [Function.update_self]
      exact ⟨before, o, hy, hfin, hbefore⟩
    · simp [hg]
    · simp [Function.update_of_ne hr']
  · rw [if_neg hfin, if_neg hfin]
    refine ⟨_, rfl, rfl, Function.update_self .., rfl, rfl, rfl, ?_, ?_, ?_, ?_, fun r' hr' => ?_⟩
    · simp [hq]
    · exact fun _ => rfl
    · simp only [Function.update_self]
      intro p hp
      rw [hy, List.mem_append, List.mem_singleton] at hp
      rcases hp with hp | rfl
      · exact hbefore p hp
      · exact Bool.eq_false_iff.mpr hfin
    · simp [hg]
    · simp [Function.update_of_ne hr']

theorem close_consumed (hs : Streams decode cc s) {r : RequestId}
    (h : s.generators r ≠ .not_started) (h' : s.generators r ≠ .returned) :
    Consumed r s { s with generators := Function.update s.generators r .closed } := by
  obtain ⟨queue, hq⟩ := hs.queue_of_started h h'
  refine ⟨rfl, rfl, rfl, ?_, fun _ => rfl, ?_, ⟨h, fun hc => absurd hc h'⟩, fun r' hr' => ?_⟩
  · simp [hq]
  · simp only [Function.update_self]
    trivial
  · simp [Function.update_of_ne hr']

theorem pop_consumed (hs : Streams decode cc s) {r : RequestId}
    (h : s.generators r = .returned) :
    Consumed r s { s with
      request_lifetime_events := Function.update s.request_lifetime_events r none } := by
  refine ⟨rfl, rfl, rfl, ?_, fun hc => absurd h hc, hs.consumers.follows r, ⟨?_, id⟩,
    fun r' hr' => ?_⟩
  · rw [hs.consumers.queues r]
    exact ⟨fun hc => hc.2, fun hc => absurd h hc⟩
  · rw [h]
    nofun
  · simp [Function.update_of_ne hr']

/-- The request whose consumer goes on. -/
def Action.consumer : Action → Option RequestId
  | .get_output r | .resume r | .close r => some r
  | _ => none

theorem consumer_gives (hs : Streams decode cc s) {a : Action} {r : RequestId}
    (ha : a.consumer = some r) {x : Except PyError LLMEngine}
    (hx : step decode tokenizer s a = some x) : ∃ s', x = .ok s' ∧ Consumed r s s' := by
  cases a with
  | get_output r' =>
    obtain rfl := Option.some.inj ha
    obtain ⟨y, hy, rfl⟩ := Option.map_eq_some_iff.mp hx
    obtain ⟨s', o, rfl, -, -, hc⟩ := get_output_gives hs hy
    exact ⟨s', rfl, hc⟩
  | resume r' =>
    obtain rfl := Option.some.inj ha
    simp only [step] at hx
    split at hx
    · next o hg =>
      cases hx
      obtain ⟨s', hs', -, -, hc⟩ := resume_gives hs hg
      exact ⟨s', hs', hc⟩
    · cases hx
  | close r' =>
    obtain rfl := Option.some.inj ha
    simp only [step] at hx
    split at hx
    · next hg =>
      cases hx
      exact ⟨_, rfl, close_consumed hs (by simp [hg]) (by simp [hg])⟩
    · next hg =>
      cases hx
      exact ⟨_, rfl, close_consumed hs (by simp [hg]) (by simp [hg])⟩
    · cases hx
  | _ => cases ha

/-! ## The actions of the engines -/

/-- The id is the argument, or the next one of the counter. -/
theorem create_request_eq (tokenizer : PromptTokenizer) (args : GenerateArgs) (n : Nat) :
    create_request tokenizer args n =
      match args.prompt_ids tokenizer with
      | some prompt_token_ids =>
        .ok (.create (args.request_id.getD n) prompt_token_ids args.sampling_params)
          (if args.request_id = none then n + 1 else n)
      | none => .error .prompt_missing (if args.request_id = none then n + 1 else n) := by
  unfold create_request
  cases args.request_id <;> cases args.prompt_ids tokenizer <;> rfl

theorem Streams.withCounter (hs : Streams decode cc s) (request_counter : Nat) :
    Streams decode cc { s with request_counter } :=
  ⟨hs.sound, hs.cache_config, hs.served, hs.own, hs.tokens,
    ⟨hs.consumers.queues, hs.consumers.events, hs.consumers.started, hs.consumers.follows⟩⟩

/-- The first event of a request is there when it goes to the context engine. -/
theorem start_request_eq (tokenizer : PromptTokenizer) (s : LLMEngine) (args : GenerateArgs)
    (req : Request) : s.start_request tokenizer args req = .ok { s with
      request_outputs := Function.update s.request_outputs req.request_id (some [])
      request_lifetime_events :=
        Function.update s.request_lifetime_events req.request_id (some [.Issued])
      engines := s.engines.add_request req
      prompt_len_map := Function.update s.prompt_len_map args.request_id
        (some (args.prompt_len_value tokenizer))
      generators := Function.update s.generators req.request_id .waiting } := by
  have hissued : ({ s with
      request_outputs := Function.update s.request_outputs req.request_id (some [])
      request_lifetime_events :=
        Function.update s.request_lifetime_events req.request_id (some []) } :
      LLMEngine).on_new_lifetime_event_callback req.request_id .Issued false = .ok { s with
        request_outputs := Function.update s.request_outputs req.request_id (some [])
        request_lifetime_events :=
          Function.update s.request_lifetime_events req.request_id (some [.Issued]) } := by
    simp [on_new_lifetime_event_callback]
  exact ok_bind hissued

/-- A new request gets its queue. -/
theorem start_request_gives (hs : Streams decode cc s) (tokenizer : PromptTokenizer)
    (args : GenerateArgs) {req : Request} (hnew : req.request_id ∉ s.ids)
    (ht : req.generated_token_ids = []) (hf : req.is_finished = false) :
    ∃ s', s.start_request tokenizer args req = .ok s' ∧ Streams decode cc s' ∧
      s'.engines.added = s.engines.added ++ [req] ∧
      s'.generators = Function.update s.generators req.request_id .waiting ∧
      s'.yielded = s.yielded ∧ s'.yielded req.request_id = [] := by
  have hx : s.engines.act decode (.add_request req) =
      some (.ok (s.engines.add_request req, [])) := if_pos ⟨hnew, ht, hf⟩
  obtain ⟨hsound, hdoes⟩ := (Engines.act_gives hs.sound hx).of_ok rfl
  obtain ⟨hserved, hcc⟩ := Engines.Does.served hdoes hs.sound.linked hs.cache_config hs.served
  rw [Engines.told_of_none rfl] at hserved
  have hnone : s.request_outputs req.request_id = none := by
    by_contra hc
    exact hnew ((hs.consumers.queues _).mp (Option.isSome_iff_ne_none.mpr hc)).1
  have hyielded : s.yielded req.request_id = [] := by
    have : s.outputs req.request_id = [] := (hs.served.unknown _ hnew).2
    unfold outputs at this
    rw [List.append_eq_nil_iff] at this
    exact this.1
  refine ⟨_, start_request_eq tokenizer s args req, ?_⟩
  have hout : ({ s with
      engines := s.engines.add_request req
      request_outputs := Function.update s.request_outputs req.request_id (some []) } :
      LLMEngine).outputs = s.outputs := by
    funext r
    by_cases hr : r = req.request_id
    · simp [outputs, hr, hnone]
    · simp [outputs, Function.update_of_ne hr]
  have hids : ∀ r, r ∈ (s.engines.add_request req).added.map (·.request_id) ↔
      r ∈ s.ids ∨ r = req.request_id := fun r => by
    simp [Engines.add_request, ids]
  refine ⟨⟨hsound, hcc, hout ▸ hserved, hout ▸ hs.own, hout ▸ hs.tokens, ?_⟩, rfl, rfl, rfl,
    hyielded⟩
  constructor
  · intro r
    refine Iff.trans ?_ (and_congr_left' (hids r).symm)
    by_cases hr : r = req.request_id
    · simp [hr]
    · simp [hr, hs.consumers.queues r]
  · intro r hmem hne
    replace hmem := (hids r).mp hmem
    by_cases hr : r = req.request_id
    · simp [hr]
    · simp only [Function.update_of_ne hr] at hne ⊢
      exact hs.consumers.events r (hmem.resolve_right hr) hne
  · intro r hne
    apply (hids r).mpr
    by_cases hr : r = req.request_id
    · exact Or.inr hr
    · simp only [Function.update_of_ne hr] at hne
      exact Or.inl (hs.consumers.started r hne)
  · intro r
    by_cases hr : r = req.request_id
    · simp only [hr, Function.update_self, hyielded]
      exact fun o ho => by cases ho
    · simp only [Function.update_of_ne hr]
      exact hs.consumers.follows r

/-- After its last output, a request gets no output. -/
theorem Streams.hasKeys (hs : Streams decode cc s) {r : RequestId} (hr : r ∈ s.ids)
    (hf : ∀ o ∈ s.outputs r, o.is_finished = false) : s.HasKeys r := by
  have hne : s.generators r ≠ .returned := by
    intro hg
    have hfollows := hs.consumers.follows r
    rw [hg] at hfollows
    obtain ⟨before, last, hy, hlast, -⟩ := hfollows
    rw [hf last (by simp [outputs, hy])] at hlast
    cases hlast
  exact ⟨(hs.consumers.queues r).mpr ⟨hr, hne⟩, hs.consumers.events r hr hne⟩

/-- The tokens of one request, among those that the workers gave. -/
theorem filter_tokens {os : List StepOutput} {ps : List (RequestId × TokenId)}
    (h : os.map (fun o => (o.request_id, o.new_token, o.new_token_id)) =
      ps.map fun p => (p.1, (decode p.2).getD "", p.2)) (r : RequestId) :
    (os.filter (·.request_id == r)).map (fun o => (o.new_token, o.new_token_id)) =
      (ps.filter (·.1 == r)).map fun p => ((decode p.2).getD "", p.2) := by
  have hfilter := congrArg (fun l => (l.filter fun p => p.1 == r).map Prod.snd) h
  simp only [List.filter_map, List.map_map] at hfilter
  exact hfilter

theorem step_engines {a : Engines.Action} (ha : ∀ q, a ≠ .add_request q) (s : LLMEngine) :
    step decode tokenizer s (.engines a) =
      (s.engines.act decode a).map fun result => result >>= fun p =>
        p.2.foldlM on_callback
          { s with engines := p.1, produced := s.produced ++ produces s.engines a } := by
  cases a with
  | add_request q => exact absurd rfl (ha q)
  | _ => rfl

theorem engines_gives (hs : Streams decode cc s) {a : Engines.Action}
    (ha : ∀ q, a ≠ .add_request q) {x : Except PyError LLMEngine}
    (hx : step decode tokenizer s (.engines a) = some x) :
    Gives x (fun s' => Streams decode cc s' ∧ s'.engines.added = s.engines.added ∧
        s'.generators = s.generators ∧ s'.yielded = s.yielded)
      fun err => (∃ now, a = .decoding_begin_step now) ∧
        s.engines.decoding_engine.SwapOutFails err := by
  rw [step_engines ha] at hx
  obtain ⟨y, hy, rfl⟩ := Option.map_eq_some_iff.mp hx
  cases y with
  | error err => exact (Engines.act_gives hs.sound hy).of_error rfl
  | ok result =>
    obtain ⟨e, cs⟩ := result
    obtain ⟨hsound, hdoes⟩ := (Engines.act_gives hs.sound hy).of_ok rfl
    obtain ⟨hadded, hconcerns⟩ :=
      Engines.Does.concerns hdoes ha hs.sound.linked hs.cache_config hs.served
    obtain ⟨hserved, hcc⟩ := Engines.Does.served hdoes hs.sound.linked hs.cache_config hs.served
    have hkeys : ∀ c ∈ cs, c.Concerns s.HasKeys := fun c hc =>
      (hconcerns c hc).imp fun r hr => hs.hasKeys hr.1 hr.2
    obtain ⟨s', hfold, hinf⟩ := callbacks_inform
      (s := { s with engines := e, produced := s.produced ++ produces s.engines a }) hkeys
    apply gives_of_ok hfold
    have hengines : s'.engines = e := by rw [hinf.same]
    have hproduced : s'.produced = s.produced ++ produces s.engines a := by rw [hinf.same]
    have hgenerators : s'.generators = s.generators := by rw [hinf.same]
    have hyielded : s'.yielded = s.yielded := by rw [hinf.same]
    have hids : s'.ids = s.ids := by rw [ids, hengines, hadded, ids]
    have hout : s'.outputs = Engines.told s.outputs cs := by
      funext r
      unfold outputs Engines.told
      rw [hyielded, hinf.queues r, List.append_assoc]
      congr 1
      cases hq : s.request_outputs r with
      | some queue => rfl
      | none =>
        -- a request without a queue is in no callback
        have hnil : (outputsOf cs).filter (·.request_id == r) = [] := by
          rw [List.filter_eq_nil_iff]
          intro o ho hc
          obtain ⟨c, hmem, hco⟩ := List.mem_filterMap.mp ho
          cases c with
          | engine_on_new_step_output r' o' =>
            cases hco
            obtain ⟨hid, hkey, -⟩ := hkeys _ hmem
            rw [← hid, eq_of_beq hc, hq] at hkey
            cases hkey
          | _ => cases hco
        rw [hnil]
        rfl
    refine ⟨⟨hengines ▸ hsound, hengines ▸ hcc, ?_, ?_, ?_, ?_⟩, by rw [hengines, hadded],
      hgenerators, hyielded⟩
    · rw [hengines, hout]
      exact hserved
    · intro r o ho
      rw [hout] at ho
      rcases List.mem_append.mp ho with ho | ho
      · exact hs.own r o ho
      · exact eq_of_beq (List.mem_filter.mp ho).2
    · intro r
      rw [hout, hproduced, Engines.told, List.map_append, List.filter_append, List.map_append,
        hs.tokens r, filter_tokens (Engines.act_outputs hs.sound hy) r]
    · constructor
      · intro r
        rw [hinf.queues, Option.isSome_map, hids, hgenerators]
        exact hs.consumers.queues r
      · intro r hmem hne
        rw [hids] at hmem
        rw [hgenerators] at hne
        exact (hinf.events r).trans (hs.consumers.events r hmem hne)
      · rw [hids, hgenerators]
        exact hs.consumers.started
      · rw [hgenerators, hyielded]
        exact hs.consumers.follows

/-- The first turn of a generator whose prompt is there. -/
theorem generate_gives (hs : Streams decode cc s) {args : GenerateArgs}
    {prompt_token_ids : List TokenId} (hp : args.prompt_ids tokenizer = some prompt_token_ids)
    {x : Except PyError LLMEngine} (hx : step decode tokenizer s (.generate args) = some x)
    {r : RequestId} (hr : r = args.request_id.getD s.request_counter) :
    ∃ s', x = .ok s' ∧ Streams decode cc s' ∧ r ∉ s.ids ∧
      s'.engines.added = s.engines.added ++ [.create r prompt_token_ids args.sampling_params] ∧
      s'.generators = Function.update s.generators r .waiting ∧
      s'.yielded = s.yielded ∧ s'.yielded r = [] := by
  subst hr
  simp only [step, create_request_eq, hp] at hx
  split at hx
  · next hnew =>
    cases hx
    obtain ⟨s', hs', hstreams, hrest⟩ := start_request_gives (hs.withCounter
      (if args.request_id = none then s.request_counter + 1 else s.request_counter))
      tokenizer args hnew rfl rfl
    exact ⟨s', hs', hstreams, hnew, hrest⟩
  · cases hx

/-! ## Every run -/

/-- Each action keeps the invariant. Only the swap-outs of the decoding engine can raise. -/
theorem step_gives (hs : Streams decode cc s) {a : Action} {x : Except PyError LLMEngine}
    (hx : step decode tokenizer s a = some x) :
    Gives x (Streams decode cc) fun err => (∃ now, a = .engines (.decoding_begin_step now)) ∧
      s.engines.decoding_engine.SwapOutFails err := by
  have hconsumer : ∀ r, a.consumer = some r → Gives x (Streams decode cc) fun err =>
      (∃ now, a = .engines (.decoding_begin_step now)) ∧
        s.engines.decoding_engine.SwapOutFails err := by
    intro r ha
    obtain ⟨s', rfl, hc⟩ := consumer_gives hs ha hx
    exact hc.streams hs
  cases a with
  | generate args =>
    cases hp : args.prompt_ids tokenizer with
    | none =>
      simp only [step, create_request_eq, hp] at hx
      cases hx
      exact hs.withCounter _
    | some prompt_token_ids =>
      obtain ⟨s', rfl, hs', -⟩ := generate_gives hs hp hx rfl
      exact hs'
  | get_output r => exact hconsumer r rfl
  | resume r => exact hconsumer r rfl
  | close r => exact hconsumer r rfl
  | pop_request_lifetime_events r =>
    simp only [step] at hx
    split at hx
    · next hg =>
      cases hx
      exact gives_ok ((pop_consumed hs hg).streams hs)
    · cases hx
  | engines a =>
    by_cases ha : ∃ q, a = .add_request q
    · obtain ⟨q, rfl⟩ := ha
      cases hx
    · apply (engines_gives hs (fun q hq => ha ⟨q, hq⟩) hx).imp (fun _ => And.left)
      intro _ herr
      obtain ⟨⟨now, rfl⟩, herr⟩ := herr
      exact ⟨⟨now, rfl⟩, herr⟩

theorem streams_of_reaches {c : EnginesConfig}
    (h : Reaches (step decode tokenizer) (create c) s) : Streams decode c.cache_config s := by
  have hsound : runs.Sound (step decode tokenizer) (Streams decode c.cache_config)
      DecodingStageFCFSScheduler.CpuShortage := fun s a x hs hx =>
    (step_gives hs hx).imp (fun _ => id) fun _ herr => herr.2.2
  exact hsound.invariant (streams_create c) h

/-! ## One request -/

/-- What the outputs of a request are, and what its generator yielded of them. -/
structure Faithful (decode : Tokenizer) (s : LLMEngine) (q : Request) : Prop where
  /-- No output is lost, doubled or moved, up to what the workers gave for the request. -/
  tokens : (s.outputs q.request_id).map (fun o => (o.new_token, o.new_token_id)) =
    (s.produced.filter (·.1 == q.request_id)).map fun p => ((decode p.2).getD "", p.2)
  own : ∀ o ∈ s.outputs q.request_id, o.request_id = q.request_id
  /-- An output is finished when its token is a stop token or the last one allowed. -/
  stops : ∀ i (h : i < (s.outputs q.request_id).length),
    ((s.outputs q.request_id)[i]).is_finished =
      decide (Request.IsLastToken q.sampling_params i (s.outputs q.request_id)[i].new_token)
  /-- Nothing comes after a finished output. -/
  before : ∀ o ∈ (s.outputs q.request_id).dropLast, o.is_finished = false
  limit : (s.outputs q.request_id).length ≤ q.sampling_params.max_tokens
  /-- The generator goes on after an unfinished output. -/
  waiting : s.generators q.request_id = .waiting →
    ∀ o ∈ s.yielded q.request_id, o.is_finished = false
  /-- The generator returns after the finished output, when it has yielded all. -/
  returned : s.generators q.request_id = .returned →
    s.yielded q.request_id = s.outputs q.request_id ∧
      ∃ last, (s.yielded q.request_id).getLast? = some last ∧ last.is_finished = true

theorem Streams.faithful (hs : Streams decode cc s) {q₀ : Request} (hq₀ : q₀ ∈ s.engines.added) :
    Faithful decode s q₀ := by
  obtain ⟨q, hq, horigin⟩ := hs.served.exists_request hq₀
  simp only [Request.origin, Prod.mk.injEq] at horigin
  obtain ⟨hid, -, hparams⟩ := horigin
  have htold : Told q (s.outputs q.request_id) := hs.served.told q hq
  rw [hid] at htold
  have hfollows := hs.consumers.follows q₀.request_id
  refine ⟨hs.tokens _, hs.own _, ?_, htold.before, hparams ▸ htold.limit, fun hg => ?_,
    fun hg => ?_⟩
  · rw [← hparams]
    exact htold.flags
  · rwa [hg] at hfollows
  · rw [hg] at hfollows
    obtain ⟨before, last, hy, hlast, -⟩ := hfollows
    have hnone : s.request_outputs q₀.request_id = none := by
      rw [← Option.not_isSome_iff_eq_none, hs.consumers.queues]
      exact fun hc => hc.2 hg
    refine ⟨?_, last, ?_, hlast⟩
    · unfold outputs
      rw [hnone, Option.getD_none, List.append_nil]
    · rw [hy, List.getLast?_concat]

end LLMEngine

end distserve
