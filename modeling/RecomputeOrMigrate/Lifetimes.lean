-- The life of a request (lifetime.py): the list of events that the LLM engine keeps is always
-- a first part of the life. No event comes after the last one, so a consumer may take the
-- list away as soon as it sees the last output.
import RecomputeOrMigrate.LifetimeEvents
import RecomputeOrMigrate.PromptLengths

open calls runs phases

namespace distserve.LLMEngine

variable {s s' : LLMEngine} {decode : Tokenizer} {tokenizer : PromptTokenizer} {cc : CacheConfig}
  {cs : List Callback} {log log' : RequestId → Option (List LifetimeEventType)}

/-! ## The callbacks -/

theorem callback_records {c : Callback} (h : s.on_callback c = .ok s') (r : RequestId) :
    s'.request_lifetime_events r =
      (s.request_lifetime_events r).map fun events => recordAll events (eventsFor [c] r) := by
  cases c with
  | engine_on_new_step_output r' o =>
    simp only [on_callback, on_new_step_output_callback] at h
    split at h <;> cases h
    exact Option.map_id'.symm
  | engine_on_new_lifetime_event r' t d =>
    simp only [on_callback, on_new_lifetime_event_callback] at h
    split at h
    · cases h
    · next events he =>
      have hrecord : s'.request_lifetime_events = Function.update s.request_lifetime_events r'
          (some (record events t d)) := by
        unfold record
        split at h
        · next hdup =>
          cases h
          rw [if_pos hdup, ← he, Function.update_eq_self]
        · next hdup =>
          cases h
          rw [if_neg hdup]
      rw [hrecord]
      by_cases hr : r = r'
      · subst hr
        rw [Function.update_self, he]
        simp [eventsFor, Callback.eventFor, recordAll]
      · have hne : r' ≠ r := fun hc => hr hc.symm
        rw [Function.update_of_ne hr]
        simp [eventsFor, Callback.eventFor, hne, recordAll]
  | clear_migrated_blocks mr =>
    cases h
    exact Option.map_id'.symm

theorem callbacks_record (h : cs.foldlM on_callback s = .ok s') (r : RequestId) :
    s'.request_lifetime_events r =
      (s.request_lifetime_events r).map fun events => recordAll events (eventsFor cs r) := by
  induction cs generalizing s with
  | nil =>
    cases h
    exact Option.map_id'.symm
  | cons c cs ih =>
    rw [List.foldlM_cons] at h
    obtain ⟨s1, h1, h⟩ := bind_eq_ok.mp h
    have hsplit : eventsFor (c :: cs) r = eventsFor [c] r ++ eventsFor cs r :=
      eventsFor_append [c] cs r
    rw [ih h, callback_records h1, Option.map_map]
    congr 1
    funext events
    rw [hsplit, recordAll_append]
    rfl

/-! ## Consumers that take the list away early -/

/-- The generator yielded the last output of the request. -/
def SawLast (s : LLMEngine) (r : RequestId) : Prop := ∃ o ∈ s.yielded r, o.is_finished = true

instance (s : LLMEngine) (r : RequestId) : Decidable (s.SawLast r) :=
  inferInstanceAs (Decidable (∃ o ∈ s.yielded r, o.is_finished = true))

/-- The machine whose consumers may pop the events of a request as soon as they see its last
output. -/
def stepPopping (decode : Tokenizer) (tokenizer : PromptTokenizer) :
    Machine PyError LLMEngine Action := fun s a =>
  match a with
  | .pop_request_lifetime_events request_id =>
    if s.SawLast request_id then
      some (.ok { s with
        request_lifetime_events :=
          Function.update s.request_lifetime_events request_id none })
    else none
  | a => step decode tokenizer s a

/-- The engine with the lists that nobody took away. -/
def withEvents (s : LLMEngine) (log : RequestId → Option (List LifetimeEventType)) : LLMEngine :=
  { s with request_lifetime_events := log }

/-- The lists that nobody took away list the life of each request up to its place. Only the
list of a request whose last output was seen may be missing. -/
structure Lives (decode : Tokenizer) (cc : CacheConfig) (s : LLMEngine)
    (log : RequestId → Option (List LifetimeEventType)) : Prop where
  streams : Streams decode cc (s.withEvents log)
  logged : Logged lifetime s.engines.entered log
  kept : ∀ r, s.request_lifetime_events r = log r ∨
    s.request_lifetime_events r = none ∧ s.SawLast r
  finished : ∀ q ∈ s.engines.finished_requests, q.is_finished = true

/-- A finished request stays finished, and its list stays or is taken away. -/
def Unchanged (s s' : LLMEngine) : Prop :=
  ∀ r, s.Finished r → s'.Finished r ∧ (s'.request_lifetime_events r = s.request_lifetime_events r ∨
    s'.request_lifetime_events r = none)

theorem unchanged_refl (s : LLMEngine) : Unchanged s s := fun _ hr => ⟨hr, Or.inl rfl⟩

theorem Unchanged.trans {s'' : LLMEngine} (h : Unchanged s s') (h' : Unchanged s' s'') :
    Unchanged s s'' := by
  intro r hr
  obtain ⟨hr', hlist⟩ := h r hr
  obtain ⟨hr'', hlist'⟩ := h' r hr'
  refine ⟨hr'', ?_⟩
  rcases hlist' with heq | hnone
  · rw [heq]
    exact hlist
  · exact Or.inr hnone

theorem Lives.mem_ids (h : Lives decode cc s log) {r : RequestId} (hr : s.Finished r) :
    r ∈ s.ids := by
  by_contra hc
  obtain ⟨o, ho, -⟩ := hr
  have hnone : s.outputs r = [] := (h.streams.served.unknown r hc).2
  rw [hnone] at ho
  cases ho

/-! ## The actions of a consumer -/

/-- A consumer that goes on does not look at the events. -/
theorem consumer_withEvents {a : Action} {r : RequestId} (ha : a.consumer = some r)
    {x : Except PyError LLMEngine} (hx : step decode tokenizer s a = some x)
    (log : RequestId → Option (List LifetimeEventType)) :
    step decode tokenizer (s.withEvents log) a = some ((·.withEvents log) <$> x) := by
  cases a with
  | get_output r' =>
    obtain ⟨y, hy, rfl⟩ := Option.map_eq_some_iff.mp hx
    unfold get_output at hy
    by_cases hg : s.generators r' = .waiting
    · rw [if_pos hg] at hy
      simp only [step, get_output, withEvents, hg, if_true]
      cases hq : s.request_outputs r' with
      | none =>
        rw [hq] at hy
        cases hy
        rfl
      | some queue =>
        rw [hq] at hy
        cases queue <;> cases hy
        rfl
    · rw [if_neg hg] at hy
      cases hy
  | resume r' =>
    simp only [step] at hx
    split at hx
    · next o hg =>
      cases hx
      simp only [step, show (s.withEvents log).generators r' = .suspended o from hg]
      unfold resume
      by_cases ho : o.is_finished = true
      · rw [if_pos ho, if_pos ho]
        cases hq : s.request_outputs r' <;> simp only [withEvents, hq] <;> rfl
      · rw [if_neg ho, if_neg ho]
        rfl
    · cases hx
  | close r' =>
    simp only [step] at hx
    split at hx
    · next hg =>
      cases hx
      simp only [step, show (s.withEvents log).generators r' = .waiting from hg]
      rfl
    · next o hg =>
      cases hx
      simp only [step, show (s.withEvents log).generators r' = .suspended o from hg]
      rfl
    · cases hx
  | _ => cases ha

theorem consumer_keeps {a : Action} {r : RequestId} (ha : a.consumer = some r)
    (hx : step decode tokenizer s a = some (.ok s')) :
    s'.request_lifetime_events = s.request_lifetime_events ∧
      ∀ r, s.SawLast r → s'.SawLast r := by
  cases a with
  | get_output r' =>
    obtain ⟨y, hy, hys⟩ := Option.map_eq_some_iff.mp hx
    unfold get_output at hy
    split at hy
    · split at hy <;> cases hy <;> cases hys
      refine ⟨rfl, ?_⟩
      rintro r1 ⟨o, ho, hf⟩
      refine ⟨o, ?_, hf⟩
      by_cases hr : r1 = r'
      · subst hr
        simp [ho]
      · simpa [Function.update_of_ne hr] using ho
    · cases hy
  | resume r' =>
    simp only [step] at hx
    split at hx
    · unfold resume at hx
      split at hx
      · split at hx <;> cases hx
        exact ⟨rfl, fun _ => id⟩
      · cases hx
        exact ⟨rfl, fun _ => id⟩
    · cases hx
  | close r' =>
    simp only [step] at hx
    split at hx <;> cases hx <;> exact ⟨rfl, fun _ => id⟩
  | _ => cases ha

theorem Lives.consumer (h : Lives decode cc s log) {a : Action} {r : RequestId}
    (ha : a.consumer = some r) {x : Except PyError LLMEngine}
    (hx : step decode tokenizer s a = some x) :
    ∃ s', x = .ok s' ∧ Lives decode cc s' log ∧ Unchanged s s' := by
  obtain ⟨t, ht, hc⟩ := consumer_gives h.streams ha (consumer_withEvents ha hx log)
  cases x with
  | error err => cases ht
  | ok s' =>
    obtain rfl : s'.withEvents log = t := Except.ok.inj ht
    obtain ⟨hevents, hsaw⟩ := consumer_keeps ha hx
    have hengines : s'.engines = s.engines := hc.engines
    have houtputs : s'.outputs = s.outputs := hc.outputs_eq
    refine ⟨s', rfl, ⟨hc.streams h.streams, hengines ▸ h.logged, ?_, hengines ▸ h.finished⟩, ?_⟩
    · intro r'
      rw [hevents]
      exact (h.kept r').imp id (And.imp_right (hsaw r'))
    · intro r' hr'
      refine ⟨?_, Or.inl (by rw [hevents])⟩
      unfold Finished
      rw [houtputs]
      exact hr'

/-! ## A new request -/

theorem Lives.generate (h : Lives decode cc s log) {args : GenerateArgs}
    {x : Except PyError LLMEngine} (hx : step decode tokenizer s (.generate args) = some x) :
    ∃ s' log', x = .ok s' ∧ Lives decode cc s' log' ∧ Unchanged s s' := by
  cases hp : args.prompt_ids tokenizer with
  | none =>
    simp only [step, create_request_eq, hp] at hx
    cases hx
    exact ⟨_, log, rfl, ⟨h.streams.withCounter _, h.logged, h.kept, h.finished⟩,
      fun r hr => ⟨hr, Or.inl rfl⟩⟩
  | some prompt_token_ids =>
    set req := Request.create (args.request_id.getD s.request_counter) prompt_token_ids
      args.sampling_params with hreq
    have hid : req.request_id = args.request_id.getD s.request_counter := rfl
    simp only [step, create_request_eq, hp] at hx
    split at hx
    · next hnew =>
      rw [start_request_eq] at hx
      cases hx
      refine ⟨_, Function.update log req.request_id (some [.Issued]), rfl, ?_, ?_⟩
      · -- the same call, when nobody took a list away
        have ht : step decode tokenizer (s.withEvents log) (.generate args) =
            some (start_request tokenizer { s.withEvents log with
              request_counter := if args.request_id = none then s.request_counter + 1
                else s.request_counter } args req) := by
          simp only [step, create_request_eq, hp]
          exact if_pos hnew
        obtain ⟨t, ht', hstreams, -⟩ := generate_gives h.streams hp ht hid
        rw [start_request_eq] at ht'
        obtain rfl := Except.ok.inj ht'
        have hkeys : (s.engines.entered.map Prod.fst).Perm s.ids :=
          h.streams.sound.linked.entered_keys
        refine ⟨hstreams, h.logged.arrives (k := req.request_id) ?_ (t := .Issued) rfl ?_ ?_, ?_,
          h.finished⟩
        · exact fun hc => hnew (hkeys.mem_iff.mp hc)
        · exact Engines.entered_add_request s.engines req
        · exact fun r => Function.update_apply ..
        · intro r
          by_cases hr : r = req.request_id
          · left
            simp only [hr, ← hreq, Function.update_self]
          · simp only [← hreq, Function.update_of_ne hr]
            exact h.kept r
      · intro r hr
        have hne : r ≠ req.request_id := fun hc => hnew (hc ▸ h.mem_ids hr)
        refine ⟨?_, Or.inl (Function.update_of_ne hne ..)⟩
        obtain ⟨o, ho, hf⟩ := hr
        refine ⟨o, ?_, hf⟩
        simp only [outputs, ← hreq, Function.update_of_ne hne]
        exact ho
    · cases hx

/-! ## The actions of the engines -/

/-- No callback is about a request after its last output. -/
theorem Lives.silent (h : Lives decode cc s log) {a : Engines.Action} {e : Engines}
    (hy : s.engines.act decode a = some (.ok (e, cs))) {r : RequestId} (hr : s.Finished r)
    (t : LifetimeEventType) (d : Bool) : .engine_on_new_lifetime_event r t d ∉ cs := by
  intro hc
  have ha : ∀ q, a ≠ .add_request q := by
    rintro q rfl
    simp only [Engines.act] at hy
    split at hy <;> cases hy
    cases hc
  have hdoes := ((Engines.act_gives h.streams.sound hy).of_ok rfl).2
  have hconcerns := (Engines.Does.concerns hdoes ha h.streams.sound.linked h.streams.cache_config
    h.streams.served).2 _ hc
  obtain ⟨o, ho, hf⟩ := hr
  have hno := hconcerns.2 o ho
  rw [hf] at hno
  cases hno

/-- A request without its last output has its list, which nobody could take away. -/
theorem Lives.hasKeys (h : Lives decode cc s log) {r : RequestId} (hr : r ∈ s.ids)
    (hunfinished : ∀ o ∈ s.outputs r, o.is_finished = false) : s.HasKeys r := by
  obtain ⟨hqueue, hlist⟩ := h.streams.hasKeys hr hunfinished
  refine ⟨hqueue, ?_⟩
  rcases h.kept r with he | ⟨-, o, ho, hf⟩
  · rw [he]
    exact hlist
  · have hno := hunfinished o (List.mem_append_left _ ho)
    rw [hf] at hno
    cases hno

theorem Informed.finished (h : Informed s cs s') {r : RequestId} (hr : s.Finished r) :
    s'.Finished r := by
  obtain ⟨o, ho, hf⟩ := hr
  refine ⟨o, ?_, hf⟩
  have hyielded : s'.yielded = s.yielded := by rw [h.same]
  unfold outputs
  rw [hyielded, h.queues r]
  rcases List.mem_append.mp ho with ho | ho
  · exact List.mem_append_left _ ho
  · apply List.mem_append_right
    cases hq : s.request_outputs r with
    | none =>
      rw [hq] at ho
      cases ho
    | some queue =>
      rw [hq] at ho
      exact List.mem_append_left _ ho

theorem Lives.engines (h : Lives decode cc s log) {a : Engines.Action}
    (ha : ∀ q, a ≠ .add_request q) {x : Except PyError LLMEngine}
    (hx : step decode tokenizer s (.engines a) = some x) :
    Gives x (fun s' => ∃ log', Lives decode cc s' log' ∧ Unchanged s s')
      DecodingStageFCFSScheduler.CpuShortage := by
  rw [step_engines ha] at hx
  obtain ⟨y, hy, rfl⟩ := Option.map_eq_some_iff.mp hx
  cases y with
  | error err => exact ((Engines.act_gives h.streams.sound hy).of_error rfl).2.2
  | ok result =>
    obtain ⟨e, cs⟩ := result
    have hdoes := ((Engines.act_gives h.streams.sound hy).of_ok rfl).2
    have hlinked := h.streams.sound.linked
    have hconcerns := (Engines.Does.concerns hdoes ha hlinked h.streams.cache_config
      h.streams.served).2
    -- a request that is told something has its list, in both engines
    have hkeys : ∀ c ∈ cs, c.Concerns (s.withEvents log).HasKeys := fun c hc =>
      (hconcerns c hc).imp fun r hr => h.streams.hasKeys hr.1 hr.2
    have hkeys' : ∀ c ∈ cs, c.Concerns s.HasKeys := fun c hc =>
      (hconcerns c hc).imp fun r hr => h.hasKeys hr.1 hr.2
    obtain ⟨t', hfold, hinf⟩ := callbacks_inform (s := { s.withEvents log with
      engines := e, produced := s.produced ++ produces s.engines a }) hkeys
    obtain ⟨s', hfold', hinf'⟩ := callbacks_inform
      (s := { s with engines := e, produced := s.produced ++ produces s.engines a }) hkeys'
    refine gives_of_ok hfold' ⟨t'.request_lifetime_events, ?_, ?_⟩
    · have hengines : s'.engines = e := by rw [hinf'.same]
      have hyielded : s'.yielded = s.yielded := by rw [hinf'.same]
      have htwin : t' = s'.withEvents t'.request_lifetime_events := by
        have hqueues : t'.request_outputs = s'.request_outputs := by
          funext r
          exact (hinf.queues r).trans (hinf'.queues r).symm
        rw [hinf.same, hqueues, hinf'.same]
        rfl
      have hx' : step decode tokenizer (s.withEvents log) (.engines a) = some (.ok t') := by
        rw [step_engines ha]
        exact (congrArg (Option.map _) hy).trans (congrArg some hfold)
      have hstreams := ((engines_gives h.streams ha hx').of_ok rfl).1
      rw [htwin] at hstreams
      refine ⟨hstreams, ?_, ?_, ?_⟩
      · rw [hengines]
        exact hdoes.logged ha hlinked h.logged (callbacks_record hfold)
      · intro r
        rw [callbacks_record hfold', callbacks_record hfold]
        rcases h.kept r with he | ⟨hnone, hsaw⟩
        · left
          change (s.request_lifetime_events r).map _ = (log r).map _
          rw [he]
        · right
          refine ⟨?_, ?_⟩
          · change (s.request_lifetime_events r).map _ = none
            rw [hnone]
            rfl
          · unfold SawLast
            rw [hyielded]
            exact hsaw
      · rw [hengines]
        exact hdoes.finished h.finished
    · intro r hr
      have hsilent : eventsFor cs r = [] := eventsFor_eq_nil (h.silent hy hr)
      constructor
      · exact hinf'.finished hr
      · rw [callbacks_record hfold', hsilent]
        exact Or.inl Option.map_id'

/-! ## Every run -/

theorem lives_create (decode : Tokenizer) (c : EnginesConfig) :
    Lives decode c.cache_config (create c) fun _ => none where
  streams := streams_create c
  logged := by
    have hkeys := (Engines.linked_create c).entered_keys
    have hempty : (create c).engines.entered = [] := by
      have := hkeys.length_eq
      rw [List.length_map] at this
      exact List.length_eq_zero_iff.mp this
    rw [hempty]
    exact ⟨fun p hp => (by cases hp), fun _ _ => rfl⟩
  kept _ := Or.inl rfl
  finished q hq := by cases hq

/-- Each action keeps the lists, and only the swap-outs of the decoding engine can raise. -/
theorem stepPopping_gives (h : Lives decode cc s log) {a : Action} {x : Except PyError LLMEngine}
    (hx : stepPopping decode tokenizer s a = some x) :
    Gives x (fun s' => ∃ log', Lives decode cc s' log' ∧ Unchanged s s')
      DecodingStageFCFSScheduler.CpuShortage := by
  have hconsumer : ∀ r, a.consumer = some r → step decode tokenizer s a = some x →
      Gives x (fun s' => ∃ log', Lives decode cc s' log' ∧ Unchanged s s')
        DecodingStageFCFSScheduler.CpuShortage := by
    intro r ha hx
    obtain ⟨s', rfl, hs', hun⟩ := h.consumer ha hx
    exact ⟨log, hs', hun⟩
  cases a with
  | generate args =>
    obtain ⟨s', log', rfl, hs', hun⟩ := h.generate hx
    exact ⟨log', hs', hun⟩
  | get_output r => exact hconsumer r rfl hx
  | resume r => exact hconsumer r rfl hx
  | close r => exact hconsumer r rfl hx
  | pop_request_lifetime_events r =>
    simp only [stepPopping] at hx
    split at hx
    · next hsaw =>
      cases hx
      refine ⟨log, ⟨h.streams, h.logged, fun r' => ?_, h.finished⟩, fun r' hr' => ⟨hr', ?_⟩⟩
      · by_cases hr : r' = r
        · rw [hr]
          exact Or.inr ⟨Function.update_self .., hsaw⟩
        · simp only [Function.update_of_ne hr]
          exact h.kept r'
      · by_cases hr : r' = r
        · rw [hr]
          exact Or.inr (Function.update_self ..)
        · exact Or.inl (Function.update_of_ne hr ..)
    · cases hx
  | engines a =>
    by_cases ha : ∃ q, a = .add_request q
    · obtain ⟨q, rfl⟩ := ha
      cases hx
    · exact h.engines (fun q hq => ha ⟨q, hq⟩) hx

theorem lives_of_reaches (h : Lives decode cc s log)
    (hr : Reaches (stepPopping decode tokenizer) s s') :
    (∃ log', Lives decode cc s' log') ∧ Unchanged s s' := by
  induction hr with
  | refl => exact ⟨⟨log, h⟩, unchanged_refl s⟩
  | tail _ hstep ih =>
    obtain ⟨⟨log₁, h₁⟩, hun₁⟩ := ih
    obtain ⟨a, ha⟩ := hstep
    obtain ⟨log₂, h₂, hun₂⟩ := (stepPopping_gives h₁ ha).of_ok rfl
    exact ⟨⟨log₂, h₂⟩, hun₁.trans hun₂⟩

/-! ## The laws of the lists -/

/-- A request has told its last output when it left an engine as finished. -/
theorem Lives.finished_iff (h : Lives decode cc s log) (r : RequestId) :
    s.Finished r ↔ r ∈ s.engines.finished_requests.map (·.request_id) := by
  have htold := h.streams.served.told
  have hrequests : (s.engines.serving s.outputs).requests = ↑s.engines.requests :=
    Engines.requests_serving s.engines s.outputs
  have hflag : ∀ q ∈ s.engines.requests, q.is_finished = true ↔ s.Finished q.request_id := by
    intro q hq
    have hq' : q ∈ (s.engines.serving s.outputs).requests := by
      rw [hrequests]
      exact hq
    have htold : Told q (s.outputs q.request_id) := htold q hq'
    constructor
    · intro hf
      rw [htold.finished] at hf
      obtain ⟨o, ho, hlast⟩ := (Option.any_eq_true ..).mp hf
      exact ⟨o, List.mem_of_getLast? ho, hlast⟩
    · rintro ⟨o, ho, hlast⟩
      by_contra hf
      have hno := htold.unfinished (Bool.eq_false_iff.mpr hf) ho
      rw [hlast] at hno
      cases hno
  constructor
  · intro hr
    obtain ⟨q₀, hq₀, rfl⟩ := List.mem_map.mp (h.mem_ids hr)
    obtain ⟨q, hq, horigin⟩ := h.streams.served.exists_request hq₀
    have hid : q.request_id = q₀.request_id := congrArg Prod.fst horigin
    have hq : q ∈ s.engines.requests := by
      have : q ∈ (s.engines.serving s.outputs).requests := hq
      rwa [hrequests] at this
    rw [← hid] at hr ⊢
    exact List.mem_map_of_mem (h.streams.sound.finished_place hq ((hflag q hq).mpr hr))
  · intro hr
    obtain ⟨q, hq, rfl⟩ := List.mem_map.mp hr
    refine (hflag q ?_).mp (h.finished q hq)
    unfold Engines.finished_requests at hq
    rw [List.mem_append] at hq
    simp only [Engines.requests, ContextStageLLMEngine.resting, DecodingStageLLMEngine.resting,
      List.mem_append]
    tauto

theorem Lives.events_eq (h : Lives decode cc s log) {r : RequestId} {n : Nat}
    (hr : (r, n) ∈ s.engines.entered) {events : List LifetimeEventType}
    (hevents : s.request_lifetime_events r = some events) : events = lifetime.take n := by
  have hlog := h.logged.entered (r, n) hr
  rcases h.kept r with he | ⟨hnone, -⟩
  · rw [he, hlog] at hevents
    exact (Option.some.inj hevents).symm
  · rw [hnone] at hevents
    cases hevents

/-- The automaton of the events. -/
structure InLife (s : LLMEngine) : Prop where
  in_order : ∀ r events, s.request_lifetime_events r = some events →
    events <+: lifetime ∧ events.Nodup
  kept : ∀ r ∈ s.ids, s.request_lifetime_events r = none → s.SawLast r
  context_stage : ∀ q ∈ s.engines.context_engine.finished_requests, ∀ events,
    s.request_lifetime_events q.request_id = some events →
      events = [.Issued, .ContextBegin, .ContextEnd]
  decoding_stage : ∀ r, s.Finished r →
    r ∉ s.engines.context_engine.finished_requests.map (·.request_id) → ∀ events,
      s.request_lifetime_events r = some events → events = lifetime
  /-- The last event does not come before the last output. -/
  unfinished : ∀ r, ¬ s.Finished r → ∀ events, s.request_lifetime_events r = some events →
    .DecodingEnd ∉ events

theorem Lives.inLife (h : Lives decode cc s log) : InLife s := by
  have hkeys : (s.engines.entered.map Prod.fst).Perm s.ids := h.streams.sound.linked.entered_keys
  have hplace : ∀ r events, s.request_lifetime_events r = some events →
      ∃ n, (r, n) ∈ s.engines.entered ∧ events = lifetime.take n := by
    intro r events hevents
    by_cases hr : r ∈ s.engines.entered.map Prod.fst
    · obtain ⟨⟨r', n⟩, hp, rfl⟩ := List.mem_map.mp hr
      exact ⟨n, hp, h.events_eq hp hevents⟩
    · exfalso
      have hnone := h.logged.unknown r hr
      rcases h.kept r with he | ⟨he, -⟩
      · rw [he, hnone] at hevents
        cases hevents
      · rw [he] at hevents
        cases hevents
  constructor
  · intro r events hevents
    obtain ⟨n, -, rfl⟩ := hplace r events hevents
    exact ⟨List.take_prefix _ _, lifetime_nodup.sublist (List.take_sublist _ _)⟩
  · intro r hr hnone
    rcases h.kept r with he | ⟨-, hsaw⟩
    · exfalso
      obtain ⟨⟨r', n⟩, hp, rfl⟩ := List.mem_map.mp (hkeys.mem_iff.mpr hr)
      have hlog := h.logged.entered (r', n) hp
      rw [← he, hnone] at hlog
      cases hlog
    · exact hsaw
  · intro q hq events hevents
    refine h.events_eq (n := 3) ?_ hevents
    simp only [Engines.entered, ContextStageLLMEngine.entered, List.mem_append, List.mem_map]
    exact Or.inl (Or.inr ⟨q, hq, rfl⟩)
  · intro r hr hcontext events hevents
    have hfin := (h.finished_iff r).mp hr
    unfold Engines.finished_requests at hfin
    rw [List.map_append, List.mem_append] at hfin
    obtain ⟨q, hq, rfl⟩ := List.mem_map.mp (hfin.resolve_left hcontext)
    refine h.events_eq (n := 7) ?_ hevents
    simp only [Engines.entered, DecodingStageLLMEngine.entered, List.mem_append, List.mem_map]
    exact Or.inr (Or.inr ⟨q, hq, rfl⟩)
  · intro r hr events hevents
    obtain ⟨n, hp, rfl⟩ := hplace r events hevents
    have hn : n ≤ 6 := by
      by_contra hn
      exact hr ((h.finished_iff r).mpr (Engines.finished_of_entered hp (by omega)))
    intro hc
    have hmem : .DecodingEnd ∈ lifetime.take 6 := (List.take_prefix_take_left hn).subset hc
    revert hmem
    decide

/-- In every state of every run of the engines and of consumers that may pop the list of a
request as soon as they see its last output: the lists are in the automaton, the list of a
finished request does not change until it is popped, no callback of an engine is about it any
more, and so no callback misses a list. -/
theorem events_follow_the_lifetime (decode : Tokenizer) (tokenizer : PromptTokenizer)
    (c : EnginesConfig) (s : LLMEngine)
    (h : Reaches (stepPopping decode tokenizer) (create c) s) :
    InLife s ∧
    (∀ s', Reaches (stepPopping decode tokenizer) s s' → ∀ r, s.Finished r →
      s'.request_lifetime_events r = s.request_lifetime_events r ∨
        s'.request_lifetime_events r = none) ∧
    (∀ a e cs, s.engines.act decode a = some (.ok (e, cs)) →
      ∀ r, s.Finished r → ∀ t d, .engine_on_new_lifetime_event r t d ∉ cs) ∧
    (∀ a err, stepPopping decode tokenizer s a = some (.error err) →
      DecodingStageFCFSScheduler.CpuShortage err) := by
  obtain ⟨⟨log, hlives⟩, -⟩ := lives_of_reaches (lives_create decode c) h
  refine ⟨hlives.inLife, ?_, ?_, ?_⟩
  · intro s' hs' r hr
    exact ((lives_of_reaches hlives hs').2 r hr).2
  · intro a e cs hact r hr
    exact hlives.silent hact hr
  · intro a err herr
    exact (stepPopping_gives hlives herr).of_error rfl

/-- Request 0 gets two tokens, one from each stage. Its consumer sees the last one, and all
events are there. -/
theorem the_last_output_comes_after_all_events : ∃ s : LLMEngine,
    s.SawLast 0 ∧ s.request_lifetime_events 0 = some lifetime ∧ InLife s := by
  obtain ⟨s, hr, hs⟩ := reaches_of_any (m := stepPopping (fun _ => none) noTokenizer)
    (s := create Engines.smallConfig)
    [.generate ⟨none, none, some [1, 2, 3], ⟨[], false, 2, Nat.two_pos⟩, none⟩,
      .engines (.context_begin_step 0), .engines (.context_batch_returns [4]),
      .engines .bridge_get, .engines (.decoding_begin_step 0), .engines .decoding_wake,
      .engines .migration_ends, .engines (.decoding_begin_step 1),
      .engines (.decoding_begin_step 2), .engines .decoding_wake, .get_output 0, .resume 0,
      .engines (.decoding_batch_returns [5]), .get_output 0]
    (fun s => decide (s.SawLast 0 ∧ s.request_lifetime_events 0 = some lifetime))
    (by decide +kernel)
  obtain ⟨hsaw, hevents⟩ := of_decide_eq_true hs
  exact ⟨s, hsaw, hevents, (events_follow_the_lifetime _ _ _ s hr).1⟩

end distserve.LLMEngine
