-- The engines of the source as one source of outputs for the calls of `generate`. Each run of the
-- LLM engine is, for its calls, a run of the machine of calls with any ids.
import RecomputeOrMigrate.ReusedIds

open calls runs

namespace distserve

namespace LLMCalls

/-! ## What a call and its request agree on -/

/-- Where the generator of this call is when the one of its request is there. -/
def generator_of (call : Nat) : Generator → CallGenerator
  | .not_started => .not_started
  | .waiting => .waiting call
  | .suspended step_output => .suspended step_output
  | .returned => .returned
  | .closed => .closed

/-- The call has the queue, the generator and the outputs of its request. -/
structure Agrees (t : LLMCalls) (s : LLMEngine) (call : Nat) (r : RequestId) : Prop where
  queue : t.request_outputs r = (s.request_outputs r).map fun _ => call
  contents : t.queues call = (s.request_outputs r).getD []
  generator : t.generators call = generator_of call (s.generators r)
  outputs : t.outputs call = s.outputs r

/-- The calls stand as the engine does. -/
structure Mirrors (t : LLMCalls) (s : LLMEngine) (calls : List LLMEngine.Generated) : Prop where
  calls_eq : t.calls = calls
  request_counter : t.request_counter = s.request_counter
  prompt_len_map : t.prompt_len_map = s.prompt_len_map
  each : ∀ call c, calls[call]? = some c → t.Agrees s call c.req.request_id
  known : ∀ r, s.request_outputs r ≠ none →
    ∃ (call : Nat) (c : LLMEngine.Generated), calls[call]? = some c ∧ c.req.request_id = r
  nodup : (calls.map (·.req.request_id)).Nodup
  unused : ∀ call, calls.length ≤ call → t.outputs call = []

theorem mirrors_create (c : EnginesConfig) : Mirrors create (LLMEngine.create c) [] where
  calls_eq := rfl
  request_counter := rfl
  prompt_len_map := rfl
  each _ _ hc := by cases hc
  known _ hr := absurd rfl hr
  nodup := List.nodup_nil
  unused _ _ := rfl

/-- The two machines change this call and this request only. -/
structure Changes (call : Nat) (r : RequestId) (t t' : LLMCalls) (s s' : LLMEngine) : Prop where
  calls_eq : t'.calls = t.calls
  others : ∀ k, k ≠ call → t'.queues k = t.queues k ∧ t'.generators k = t.generators k ∧
    t'.outputs k = t.outputs k
  other_ids : ∀ r', r' ≠ r → t'.request_outputs r' = t.request_outputs r' ∧
    s'.request_outputs r' = s.request_outputs r' ∧ s'.generators r' = s.generators r' ∧
    s'.yielded r' = s.yielded r'

variable {t t' : LLMCalls} {s s' : LLMEngine} {calls : List LLMEngine.Generated}
  {decode : Tokenizer} {tokenizer : PromptTokenizer} {cc : CacheConfig} {call : Nat}
  {c : LLMEngine.Generated}

theorem Mirrors.index (h : Mirrors t s calls) {k : Nat} {c' : LLMEngine.Generated}
    (hc : calls[call]? = some c) (hk : calls[k]? = some c')
    (hid : c'.req.request_id = c.req.request_id) : k = call := by
  have hlt := (List.getElem?_eq_some_iff.mp hk).1
  refine (List.getElem?_inj (by rwa [List.length_map]) h.nodup).mp ?_
  rw [List.getElem?_map, List.getElem?_map, hk, hc, Option.map_some, Option.map_some, hid]

theorem Mirrors.changed (h : Mirrors t s calls) (hc : calls[call]? = some c)
    (hch : Changes call c.req.request_id t t' s s')
    (hcounter : t'.request_counter = s'.request_counter)
    (hmap : t'.prompt_len_map = s'.prompt_len_map)
    (hself : t'.Agrees s' call c.req.request_id) : Mirrors t' s' calls where
  calls_eq := hch.calls_eq.trans h.calls_eq
  request_counter := hcounter
  prompt_len_map := hmap
  each k c' hk := by
    by_cases hid : c'.req.request_id = c.req.request_id
    · obtain rfl := h.index hc hk hid
      rw [hid]
      exact hself
    · have hne : k ≠ call := by
        rintro rfl
        rw [hc] at hk
        exact hid (by rw [Option.some.inj hk])
      obtain ⟨hqueues, hgenerators, houtputs⟩ := hch.others k hne
      obtain ⟨hqueue, hs, hg, hy⟩ := hch.other_ids _ hid
      have hk := h.each k c' hk
      refine ⟨?_, ?_, ?_, ?_⟩
      · rw [hqueue, hs, hk.queue]
      · rw [hqueues, hs, hk.contents]
      · rw [hgenerators, hg, hk.generator]
      · rw [houtputs, hk.outputs]
        unfold LLMEngine.outputs
        rw [hs, hy]
  known r hr := by
    by_cases hid : r = c.req.request_id
    · exact ⟨call, c, hc, hid.symm⟩
    · rw [(hch.other_ids r hid).2.1] at hr
      exact h.known r hr
  nodup := h.nodup
  unused k hk := by
    have hne : k ≠ call := by
      rintro rfl
      rw [List.getElem?_eq_none hk] at hc
      cases hc
    rw [(hch.others k hne).2.2]
    exact h.unused k hk

/-- Fields of the engine that no call looks at may change. -/
theorem Mirrors.congr (h : Mirrors t s calls) (hcounter : s'.request_counter = s.request_counter)
    (hmap : s'.prompt_len_map = s.prompt_len_map) (hqueues : s'.request_outputs = s.request_outputs)
    (hgenerators : s'.generators = s.generators) (hyielded : s'.yielded = s.yielded) :
    Mirrors t s' calls where
  calls_eq := h.calls_eq
  request_counter := h.request_counter.trans hcounter.symm
  prompt_len_map := h.prompt_len_map.trans hmap.symm
  each k c' hk := by
    have hk := h.each k c' hk
    refine ⟨?_, ?_, ?_, ?_⟩
    · rw [hqueues, hk.queue]
    · rw [hqueues, hk.contents]
    · rw [hgenerators, hk.generator]
    · rw [hk.outputs]
      unfold LLMEngine.outputs
      rw [hqueues, hyielded]
  known r hr := h.known r (hqueues ▸ hr)
  nodup := h.nodup
  unused := h.unused

theorem Mirrors.getElem? (h : Mirrors t s calls) (hc : calls[call]? = some c) :
    t.calls[call]? = some c := by
  rw [h.calls_eq, hc]

/-! ## The engines -/

/-- An output of the engines goes to the queue of the call of its request. -/
theorem Mirrors.output (h : Mirrors t s calls) {r : RequestId} {o : StepOutput}
    (hs : s.on_new_step_output_callback r o = .ok s') :
    ∃ t', Reaches (step tokenizer) t t' ∧ Mirrors t' s' calls := by
  unfold LLMEngine.on_new_step_output_callback at hs
  split at hs
  · cases hs
  · next queue hq =>
    cases hs
    obtain ⟨call, c, hc, rfl⟩ := h.known r (by rw [hq]; exact Option.some_ne_none _)
    have hagrees := h.each call c hc
    have hqueue : t.request_outputs c.req.request_id = some call := by
      rw [hagrees.queue, hq, Option.map_some]
    have hstep : step tokenizer t (.output call o) = some (.ok { t with
        outputs := Function.update t.outputs call (t.outputs call ++ [o])
        queues := Function.update t.queues call (t.queues call ++ [o]) }) := by
      simp only [step, h.getElem? hc, Option.map_some, on_new_step_output_callback, hqueue]
    refine ⟨_, (Reaches.refl _ _).tail hstep, ?_⟩
    refine h.changed hc ⟨rfl, ?_, ?_⟩ h.request_counter h.prompt_len_map ?_
    · intro k hk
      exact ⟨Function.update_of_ne hk .., rfl, Function.update_of_ne hk ..⟩
    · intro r' hr'
      exact ⟨rfl, Function.update_of_ne hr' .., rfl, rfl⟩
    · refine ⟨?_, ?_, hagrees.generator, ?_⟩
      · dsimp only
        rw [Function.update_self, hqueue, Option.map_some]
      · dsimp only
        rw [Function.update_self, Function.update_self, hagrees.contents, hq]
        rfl
      · dsimp only
        rw [Function.update_self, hagrees.outputs]
        unfold LLMEngine.outputs
        dsimp only
        rw [Function.update_self, hq, Option.getD_some, Option.getD_some, List.append_assoc]

theorem Mirrors.callbacks (h : Mirrors t s calls) {callbacks : List Callback}
    (hs : callbacks.foldlM LLMEngine.on_callback s = .ok s') :
    ∃ t', Reaches (step tokenizer) t t' ∧ Mirrors t' s' calls := by
  induction callbacks generalizing t s with
  | nil =>
    cases hs
    exact ⟨t, Reaches.refl _ _, h⟩
  | cons callback rest ih =>
    obtain ⟨s₁, hs₁, hs⟩ := bind_eq_ok.mp hs
    obtain ⟨t₁, hr₁, h₁⟩ : ∃ t₁, Reaches (step tokenizer) t t₁ ∧ Mirrors t₁ s₁ calls := by
      cases callback with
      | engine_on_new_step_output r o => exact h.output hs₁
      | engine_on_new_lifetime_event r event_type dont_add_if_dup =>
        have hs₁ : s.on_new_lifetime_event_callback r event_type dont_add_if_dup = .ok s₁ := hs₁
        unfold LLMEngine.on_new_lifetime_event_callback at hs₁
        split at hs₁
        · cases hs₁
        · split at hs₁ <;> cases hs₁ <;> exact ⟨t, Reaches.refl _ _, h.congr rfl rfl rfl rfl rfl⟩
      | clear_migrated_blocks mr =>
        cases hs₁
        exact ⟨t, Reaches.refl _ _, h⟩
    obtain ⟨t', hr', h'⟩ := ih h₁ hs
    exact ⟨t', Relation.ReflTransGen.trans hr₁ hr', h'⟩

/-! ## The consumers -/

/-- A request whose generator is open has its call, and the call has its queue. -/
theorem Mirrors.of_started (h : Mirrors t s calls) (hs : LLMEngine.Streams decode cc s)
    {r : RequestId} (hstarted : s.generators r ≠ .not_started)
    (hopen : s.generators r ≠ .returned) :
    ∃ (call : Nat) (c : LLMEngine.Generated) (queue : List StepOutput), calls[call]? = some c ∧
      c.req.request_id = r ∧ s.request_outputs r = some queue ∧
      t.request_outputs r = some call := by
  obtain ⟨queue, hq⟩ := hs.queue_of_started hstarted hopen
  obtain ⟨call, c, hc, rfl⟩ := h.known r (by rw [hq]; exact Option.some_ne_none _)
  refine ⟨call, c, queue, hc, rfl, hq, ?_⟩
  rw [(h.each call c hc).queue, hq, Option.map_some]

/-- A generator goes to another place, and nothing is taken or deleted. -/
theorem Mirrors.set_generator (h : Mirrors t s calls) (hc : calls[call]? = some c)
    (generator : Generator) : Mirrors
      { t with generators := Function.update t.generators call (generator_of call generator) }
      { s with generators := Function.update s.generators c.req.request_id generator } calls := by
  have hagrees := h.each call c hc
  refine h.changed hc ⟨rfl, ?_, ?_⟩ h.request_counter h.prompt_len_map ?_
  · intro k hk
    exact ⟨rfl, Function.update_of_ne hk .., rfl⟩
  · intro r' hr'
    exact ⟨rfl, rfl, Function.update_of_ne hr' .., rfl⟩
  · refine ⟨hagrees.queue, hagrees.contents, ?_, hagrees.outputs⟩
    dsimp only
    rw [Function.update_self, Function.update_self]

theorem Mirrors.get_output (h : Mirrors t s calls) (hs : LLMEngine.Streams decode cc s)
    {r : RequestId}
    (hstep : LLMEngine.step decode tokenizer s (.get_output r) = some (.ok s')) :
    ∃ t', Reaches (step tokenizer) t t' ∧ Mirrors t' s' calls := by
  obtain ⟨y, hy, hys⟩ := Option.map_eq_some_iff.mp hstep
  unfold LLMEngine.get_output at hy
  split at hy
  · next hg =>
    obtain ⟨call, c, queue, hc, rfl, hq, hqueue⟩ :=
      h.of_started hs (r := r) (by simp [hg]) (by simp [hg])
    rw [hq] at hy
    cases queue with
    | nil => cases hy
    | cons o queue =>
      cases hy
      cases hys
      have hagrees := h.each call c hc
      have hcontents : t.queues call = o :: queue := by
        rw [hagrees.contents, hq, Option.getD_some]
      have hgenerator : t.generators call = .waiting call := by
        rw [hagrees.generator, hg]
        rfl
      have hstep' : step tokenizer t (.get_output call) = some (.ok { t with
          queues := Function.update t.queues call queue
          generators := Function.update t.generators call (.suspended o) }) := by
        simp only [step, LLMCalls.get_output, hgenerator, hcontents, Option.map_some]
      refine ⟨_, (Reaches.refl _ _).tail hstep', ?_⟩
      refine h.changed hc ⟨rfl, ?_, ?_⟩ h.request_counter h.prompt_len_map ?_
      · intro k hk
        exact ⟨Function.update_of_ne hk .., Function.update_of_ne hk .., rfl⟩
      · intro r' hr'
        exact ⟨rfl, Function.update_of_ne hr' .., Function.update_of_ne hr' ..,
          Function.update_of_ne hr' ..⟩
      · refine ⟨?_, ?_, ?_, ?_⟩ <;> dsimp only
        · rw [Function.update_self, hqueue, Option.map_some]
        · rw [Function.update_self, Function.update_self, Option.getD_some]
        · rw [Function.update_self, Function.update_self]
          rfl
        · rw [hagrees.outputs]
          unfold LLMEngine.outputs
          dsimp only
          rw [Function.update_self, Function.update_self, hq, Option.getD_some, Option.getD_some,
            List.append_assoc]
          rfl
  · cases hy

theorem Mirrors.resume (h : Mirrors t s calls) (hs : LLMEngine.Streams decode cc s)
    {r : RequestId} {o : StepOutput} (hg : s.generators r = .suspended o)
    (hresume : s.resume r o = .ok s') :
    ∃ t', Reaches (step tokenizer) t t' ∧ Mirrors t' s' calls := by
  obtain ⟨call, c, queue, hc, rfl, hq, hqueue⟩ :=
    h.of_started hs (r := r) (by simp [hg]) (by simp [hg])
  have hagrees := h.each call c hc
  have hgenerator : t.generators call = .suspended o := by
    rw [hagrees.generator, hg]
    rfl
  have hstep : step tokenizer t (.resume call) =
      some (.ok (t.resume call c.req.request_id o)) := by
    simp only [step, hgenerator, h.getElem? hc]
  refine ⟨_, (Reaches.refl _ _).tail hstep, ?_⟩
  unfold LLMEngine.resume at hresume
  unfold LLMCalls.resume
  rw [hqueue]
  dsimp only
  by_cases hlast : o.is_finished = true
  · rw [if_pos hlast, hq] at hresume
    cases hresume
    rw [if_pos hlast]
    -- nothing is left in the queue that is deleted
    have hfollows := hs.consumers.follows c.req.request_id
    rw [hg] at hfollows
    obtain ⟨before, hyielded, -⟩ := hfollows
    have hempty : queue = [] := hs.queue_empty hyielded hlast hq
    refine h.changed hc ⟨rfl, ?_, ?_⟩ h.request_counter ?_ ?_
    · intro k hk
      exact ⟨rfl, Function.update_of_ne hk .., rfl⟩
    · intro r' hr'
      exact ⟨Function.update_of_ne hr' .., Function.update_of_ne hr' ..,
        Function.update_of_ne hr' .., rfl⟩
    · dsimp only
      rw [h.prompt_len_map]
    · refine ⟨?_, ?_, ?_, ?_⟩ <;> dsimp only
      · rw [Function.update_self, Function.update_self, Option.map_none]
      · rw [Function.update_self, hagrees.contents, hq, hempty]
        rfl
      · rw [Function.update_self, Function.update_self]
        rfl
      · rw [hagrees.outputs]
        unfold LLMEngine.outputs
        dsimp only
        rw [Function.update_self, hq, hempty]
        rfl
  · rw [if_neg hlast] at hresume
    cases hresume
    rw [if_neg hlast]
    exact h.set_generator hc .waiting

theorem Mirrors.close (h : Mirrors t s calls) (hs : LLMEngine.Streams decode cc s) {r : RequestId}
    (hstep : LLMEngine.step decode tokenizer s (.close r) = some (.ok s')) :
    ∃ t', Reaches (step tokenizer) t t' ∧ Mirrors t' s' calls := by
  obtain ⟨hg, rfl⟩ : (s.generators r = .waiting ∨ ∃ o, s.generators r = .suspended o) ∧
      s' = { s with generators := Function.update s.generators r .closed } := by
    simp only [LLMEngine.step] at hstep
    split at hstep
    · next hg =>
      cases hstep
      exact ⟨.inl hg, rfl⟩
    · next o hg =>
      cases hstep
      exact ⟨.inr ⟨o, hg⟩, rfl⟩
    · cases hstep
  have hstarted : s.generators r ≠ .not_started ∧ s.generators r ≠ .returned := by
    rcases hg with hg | ⟨o, hg⟩ <;> simp [hg]
  obtain ⟨call, c, queue, hc, rfl, hq, hqueue⟩ := h.of_started hs hstarted.1 hstarted.2
  have hagrees := h.each call c hc
  have hstep' : step tokenizer t (.close call) = some (.ok { t with
      generators := Function.update t.generators call .closed }) := by
    have hgenerator := hagrees.generator
    rcases hg with hg | ⟨o, hg⟩ <;> rw [hg] at hgenerator <;>
      simp only [step, hgenerator, generator_of]
  exact ⟨_, (Reaches.refl _ _).tail hstep', h.set_generator hc .closed⟩

/-! ## A new call -/

theorem Mirrors.withCounter (h : Mirrors t s calls) (request_counter : Nat) :
    Mirrors { t with request_counter } { s with request_counter } calls where
  calls_eq := h.calls_eq
  request_counter := rfl
  prompt_len_map := h.prompt_len_map
  each call c hc := ⟨(h.each call c hc).queue, (h.each call c hc).contents,
    (h.each call c hc).generator, (h.each call c hc).outputs⟩
  known := h.known
  nodup := h.nodup
  unused := h.unused

/-- The request of a new call has an id of its own here, so it takes over no queue. -/
theorem Mirrors.called (h : Mirrors t s calls) (hs : LLMEngine.Streams decode cc s)
    (hids : calls.map (·.req.request_id) = s.ids) {args : GenerateArgs} {req : Request}
    (hnew : req.request_id ∉ s.ids) (hstart : s.start_request tokenizer args req = .ok s') :
    Mirrors (t.start_request tokenizer args req) s' (calls ++ [⟨args, req⟩]) := by
  rw [LLMEngine.start_request_eq] at hstart
  cases hstart
  have hlength : t.calls.length = calls.length := by rw [h.calls_eq]
  have hother : ∀ {k : Nat} {c' : LLMEngine.Generated}, calls[k]? = some c' →
      c'.req.request_id ≠ req.request_id := by
    intro k c' hk heq
    apply hnew
    rw [← hids, ← heq]
    exact List.mem_map_of_mem (List.mem_of_getElem? hk)
  unfold LLMCalls.start_request
  rw [hlength]
  constructor
  case calls_eq =>
    dsimp only
    rw [h.calls_eq]
  case request_counter => exact h.request_counter
  case prompt_len_map =>
    dsimp only
    rw [h.prompt_len_map]
  case each =>
    intro k c' hk
    rcases lt_trichotomy k calls.length with hlt | rfl | hgt
    · rw [List.getElem?_append_left hlt] at hk
      have hagrees := h.each k c' hk
      have hid := hother hk
      refine ⟨?_, ?_, ?_, ?_⟩ <;> dsimp only
      · rw [Function.update_of_ne hid, Function.update_of_ne hid, hagrees.queue]
      · rw [Function.update_of_ne hlt.ne, Function.update_of_ne hid, hagrees.contents]
      · rw [Function.update_of_ne hlt.ne, Function.update_of_ne hid, hagrees.generator]
      · rw [hagrees.outputs]
        unfold LLMEngine.outputs
        dsimp only
        rw [Function.update_of_ne hid]
    · rw [List.getElem?_concat_length] at hk
      cases hk
      have hnone : s.outputs req.request_id = [] := (hs.served.unknown _ hnew).2
      refine ⟨?_, ?_, ?_, ?_⟩ <;> dsimp only
      · rw [Function.update_self, Function.update_self, Option.map_some]
      · rw [Function.update_self, Function.update_self, Option.getD_some]
      · rw [Function.update_self, Function.update_self]
        rfl
      · unfold LLMEngine.outputs at hnone ⊢
        dsimp only
        rw [h.unused _ le_rfl, Function.update_self, (List.append_eq_nil_iff.mp hnone).1]
        rfl
    · rw [List.getElem?_eq_none (by rw [List.length_append]; exact hgt)] at hk
      cases hk
  case known =>
    intro r hr
    by_cases hid : r = req.request_id
    · exact ⟨calls.length, ⟨args, req⟩, List.getElem?_concat_length, hid.symm⟩
    · dsimp only at hr
      rw [Function.update_of_ne hid] at hr
      obtain ⟨k, c', hk, hc'⟩ := h.known r hr
      refine ⟨k, c', ?_, hc'⟩
      rw [List.getElem?_append_left (List.getElem?_eq_some_iff.mp hk).1, hk]
  case nodup =>
    rw [List.map_append, List.map_cons, List.map_nil, hids, ← List.concat_eq_append]
    exact (hids ▸ h.nodup).concat hnew
  case unused =>
    intro k hk
    rw [List.length_append] at hk
    exact h.unused k (by omega)

theorem Mirrors.generate (h : Mirrors t s calls) (hs : LLMEngine.Streams decode cc s)
    (he : LLMEngine.Entries tokenizer s calls) {args : GenerateArgs}
    (hstep : LLMEngine.step decode tokenizer s (.generate args) = some (.ok s')) :
    ∃ t', Reaches (step tokenizer) t t' ∧
      Mirrors t' s' (LLMEngine.noteCall tokenizer s (.generate args) calls) := by
  have hids : calls.map (·.req.request_id) = s.ids := by
    unfold LLMEngine.ids
    rw [← he.added, List.map_map]
    rfl
  simp only [LLMEngine.step] at hstep
  cases hreq : create_request tokenizer args s.request_counter with
  | error err request_counter =>
    rw [hreq] at hstep
    cases hstep
    have hstep' : step tokenizer t (.generate args) = some (.ok { t with request_counter }) := by
      simp only [step, h.request_counter, hreq]
    refine ⟨_, (Reaches.refl _ _).tail hstep', ?_⟩
    simp only [LLMEngine.noteCall, hreq]
    exact h.withCounter request_counter
  | ok req request_counter =>
    rw [hreq] at hstep
    have hstep' : step tokenizer t (.generate args) =
        some (.ok ({ t with request_counter }.start_request tokenizer args req)) := by
      simp only [step, h.request_counter, hreq]
    refine ⟨_, (Reaches.refl _ _).tail hstep', ?_⟩
    simp only [LLMEngine.noteCall, hreq]
    dsimp only at hstep
    split at hstep
    · next hnew =>
      exact (h.withCounter request_counter).called (hs.withCounter request_counter) hids hnew
        (Option.some.inj hstep)
    · cases hstep

/-! ## Every run -/

theorem Mirrors.engines (h : Mirrors t s calls) {a : Engines.Action}
    (ha : ∀ q, a ≠ .add_request q)
    (hstep : LLMEngine.step decode tokenizer s (.engines a) = some (.ok s')) :
    ∃ t', Reaches (step tokenizer) t t' ∧ Mirrors t' s' calls := by
  rw [LLMEngine.step_engines ha] at hstep
  obtain ⟨y, -, hy⟩ := Option.map_eq_some_iff.mp hstep
  obtain ⟨p, -, hfold⟩ := bind_eq_ok.mp hy
  have hengines : Mirrors t { s with
      engines := p.1, produced := s.produced ++ LLMEngine.produces s.engines a } calls :=
    h.congr rfl rfl rfl rfl rfl
  exact hengines.callbacks hfold

/-- Each action of the engine is a run of the calls, which may be empty. -/
theorem Mirrors.step (h : Mirrors t s calls) (hs : LLMEngine.Streams decode cc s)
    (he : LLMEngine.Entries tokenizer s calls) {a : LLMEngine.Action}
    (hstep : LLMEngine.step decode tokenizer s a = some (.ok s')) :
    ∃ t', Reaches (step tokenizer) t t' ∧
      Mirrors t' s' (LLMEngine.noteCall tokenizer s a calls) := by
  cases a with
  | generate args => exact h.generate hs he hstep
  | get_output r => exact h.get_output hs hstep
  | resume r =>
    simp only [LLMEngine.step] at hstep
    split at hstep
    · next o hg => exact h.resume hs hg (Option.some.inj hstep)
    · cases hstep
  | close r => exact h.close hs hstep
  | pop_request_lifetime_events r =>
    simp only [LLMEngine.step] at hstep
    split at hstep
    · cases hstep
      exact ⟨t, Reaches.refl _ _, h.congr rfl rfl rfl rfl rfl⟩
    · cases hstep
  | engines a =>
    have ha : ∀ q, a ≠ .add_request q := by
      rintro q rfl
      cases hstep
    exact h.engines ha hstep

theorem Mirrors.finished_iff (h : Mirrors t s calls) (hc : calls[call]? = some c) :
    t.Finished call ↔ s.Finished c.req.request_id := by
  unfold Finished LLMEngine.Finished
  rw [(h.each call c hc).outputs]

/-- A decision finds the same length in both. -/
theorem Mirrors.ownLengths_iff (h : Mirrors t s calls) (he : LLMEngine.Entries tokenizer s calls) :
    t.OwnLengths ↔ s.OwnLengths := by
  have hof : ∀ req ∈ s.engines.added, ∃ (call : Nat) (c : LLMEngine.Generated),
      calls[call]? = some c ∧ c.req = req := by
    intro req hreq
    rw [← he.added] at hreq
    obtain ⟨c, hmem, rfl⟩ := List.mem_map.mp hreq
    obtain ⟨call, hc⟩ := List.mem_iff_getElem?.mp hmem
    exact ⟨call, c, hc, rfl⟩
  have hadded : ∀ {call : Nat} {c : LLMEngine.Generated}, t.calls[call]? = some c →
      calls[call]? = some c ∧ c.req ∈ s.engines.added := by
    intro call c hc
    rw [h.calls_eq] at hc
    refine ⟨hc, ?_⟩
    rw [← he.added]
    exact List.mem_map_of_mem (List.mem_of_getElem? hc)
  constructor
  · intro hown
    constructor
    · intro req hreq hf rom_config get_bandwidth override d hd
      obtain ⟨call, c, hc, rfl⟩ := hof req hreq
      rw [← h.prompt_len_map] at hd
      exact hown.decisions call c (h.getElem? hc) (fun hf' => hf ((h.finished_iff hc).mp hf'))
        _ _ _ d hd
    · intro req hreq hf
      obtain ⟨call, c, hc, rfl⟩ := hof req hreq
      rw [← h.prompt_len_map]
      exact hown.removed call c (h.getElem? hc) ((h.finished_iff hc).mpr hf)
  · intro hown
    constructor
    · intro call c hc hf rom_config get_bandwidth override d hd
      obtain ⟨hc, hreq⟩ := hadded hc
      rw [h.prompt_len_map] at hd
      exact hown.decisions c.req hreq (fun hf' => hf ((h.finished_iff hc).mpr hf')) _ _ _ d hd
    · intro call c hc hf
      obtain ⟨hc, hreq⟩ := hadded hc
      rw [h.prompt_len_map]
      exact hown.removed c.req hreq ((h.finished_iff hc).mp hf)

/-- Each run of the engine is, for its calls, a run of the machine of calls: the queues, the
generators, the outputs and `_prompt_len_map` are the same, and so is what the decisions find. -/
theorem the_engine_is_a_run_of_calls (decode : Tokenizer) (tokenizer : PromptTokenizer)
    (c : EnginesConfig) (s : LLMEngine) (calls : List LLMEngine.Generated)
    (h : Reaches (LLMEngine.stepNoted decode tokenizer) (LLMEngine.create c, []) (s, calls)) :
    ∃ t, Reaches (step tokenizer) create t ∧ Mirrors t s calls ∧
      (t.OwnLengths ↔ s.OwnLengths) := by
  have hinvariant : ∀ {p : LLMEngine × List LLMEngine.Generated},
      Reaches (LLMEngine.stepNoted decode tokenizer) (LLMEngine.create c, []) p →
      LLMEngine.Streams decode c.cache_config p.1 ∧ LLMEngine.Entries tokenizer p.1 p.2 :=
    fun hr => (LLMEngine.stepNoted_sound decode tokenizer c.cache_config).invariant
      ⟨LLMEngine.streams_create c, LLMEngine.entries_create tokenizer c⟩ hr
  have hrun : ∀ p, Reaches (LLMEngine.stepNoted decode tokenizer) (LLMEngine.create c, []) p →
      ∃ t, Reaches (LLMCalls.step tokenizer) create t ∧ Mirrors t p.1 p.2 := by
    intro p hp
    induction hp with
    | refl => exact ⟨create, Reaches.refl _ _, mirrors_create c⟩
    | tail hr ha ih =>
      obtain ⟨a, ha⟩ := ha
      obtain ⟨hstep, hnote⟩ := beside_eq_ok.mp ha
      obtain ⟨hs, he⟩ := hinvariant hr
      obtain ⟨t, ht, h⟩ := ih
      obtain ⟨t', ht', h'⟩ := h.step hs he hstep
      exact ⟨t', Relation.ReflTransGen.trans ht ht', hnote ▸ h'⟩
  obtain ⟨t, ht, hmirrors⟩ := hrun (s, calls) h
  exact ⟨t, ht, hmirrors, hmirrors.ownLengths_iff (hinvariant h).2⟩

/-- The only call, with the explicit id 7, has the output of its request. -/
theorem a_run_with_one_request_is_a_run_of_one_call : ∃ (s : LLMEngine) (t : LLMCalls),
    s.outputs 7 ≠ [] ∧ Reaches (step LLMEngine.noTokenizer) create t ∧
      t.outputs 0 = s.outputs 7 ∧ (t.OwnLengths ↔ s.OwnLengths) := by
  obtain ⟨⟨s, calls⟩, hr, hs⟩ :=
    reaches_of_any (m := LLMEngine.stepNoted (fun _ => none) LLMEngine.noTokenizer)
      (s := (LLMEngine.create Engines.smallConfig, []))
      [.generate (LLMEngine.threeTokens (some 7)), .engines (.context_begin_step 0),
        .engines (.context_batch_returns [4]), .get_output 7]
      (fun s => decide (s.1.outputs 7 ≠ [] ∧ s.2.map (·.req.request_id) = [7]))
      (by decide +kernel)
  obtain ⟨hout, hids⟩ := of_decide_eq_true hs
  obtain ⟨t, ht, hmirrors, hown⟩ :=
    the_engine_is_a_run_of_calls _ LLMEngine.noTokenizer Engines.smallConfig s calls hr
  refine ⟨s, t, hout, ht, ?_, hown⟩
  obtain ⟨c, rfl, hc⟩ := List.map_eq_singleton_iff.mp hids
  rw [(hmirrors.each 0 c rfl).outputs, hc]

end LLMCalls

end distserve
