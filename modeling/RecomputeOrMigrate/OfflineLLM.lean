-- The offline wrapper (llm.py): it generates for a list of prompts and returns the lists
-- of outputs when all of them are done.
import RecomputeOrMigrate.OutputStream

open calls runs

namespace distserve

/-! ## The arguments -/

/-- The argument `prompts`: one prompt or a list of them. -/
inductive Prompts
  | str (prompt : String)
  | list (prompts : List String)

/-- The argument `sampling_params`: for all prompts or for each of them. -/
inductive OfflineSampling
  | for_all (sampling_params : SamplingParams)
  | for_each (sampling_params : List SamplingParams)

/-- The arguments of `OfflineLLM.generate`. -/
structure OfflineArgs where
  prompts : Option Prompts
  prompt_token_ids : Option (List (List TokenId))
  sampling_params : Option OfflineSampling

/-- `SamplingParams()`. -/
def SamplingParams.default : SamplingParams := ⟨[], false, 16, by decide⟩

def Prompts.to_list : Prompts → List String
  | .str prompt => [prompt]
  | .list prompts => prompts

/-- `num_requests`, after the checks on the prompts. -/
def OfflineArgs.num_requests (a : OfflineArgs) : Except PyError Nat :=
  match a.prompts.map Prompts.to_list, a.prompt_token_ids with
  | none, none => throw .no_prompts
  | some prompts, none => return prompts.length
  | none, some prompt_token_ids => return prompt_token_ids.length
  | some prompts, some prompt_token_ids =>
    if prompts.length ≠ prompt_token_ids.length then throw .prompt_lengths_differ
    else return prompts.length

/-- `sampling_params` as a list for `num_requests` prompts. -/
def OfflineArgs.sampling_params_list (a : OfflineArgs) (num_requests : Nat) :
    Except PyError (List SamplingParams) :=
  match a.sampling_params with
  | none => return List.replicate num_requests .default
  | some (.for_all sampling_params) => return List.replicate num_requests sampling_params
  | some (.for_each sampling_params) =>
    if sampling_params.length = num_requests then return sampling_params
    else throw (.sampling_params_differ num_requests sampling_params.length)

/-- What each coroutine passes on to `self.engine.generate`. -/
def OfflineArgs.request_args (a : OfflineArgs) : Except PyError (List GenerateArgs) := do
  let num_requests ← a.num_requests
  let sampling_params ← a.sampling_params_list num_requests
  return sampling_params.mapIdx fun req_index sampling_params =>
    { prompt := (a.prompts.map Prompts.to_list).bind (·[req_index]?)
      prompt_len := none
      prompt_token_ids := a.prompt_token_ids.bind (·[req_index]?)
      sampling_params
      request_id := none }

theorem OfflineArgs.length_of_sampling_params_list {a : OfflineArgs} {n : Nat}
    {ps : List SamplingParams} (h : a.sampling_params_list n = .ok ps) : ps.length = n := by
  unfold OfflineArgs.sampling_params_list at h
  split at h
  · cases h
    exact List.length_replicate
  · cases h
    exact List.length_replicate
  · split at h
    · next heq =>
      cases h
      exact heq
    · cases h

/-- Each prompt is there, as a text or as tokens. -/
theorem OfflineArgs.prompt_ids_of_request_args {a : OfflineArgs} {args : List GenerateArgs}
    (h : a.request_args = .ok args) (tokenizer : PromptTokenizer) {b : GenerateArgs}
    (hb : b ∈ args) : b.prompt_ids tokenizer ≠ none := by
  unfold OfflineArgs.request_args at h
  obtain ⟨n, hn, h⟩ := bind_eq_ok.mp h
  obtain ⟨ps, hps, h⟩ := bind_eq_ok.mp h
  cases h
  obtain ⟨i, hi, rfl⟩ := List.mem_mapIdx.mp hb
  rw [length_of_sampling_params_list hps] at hi
  unfold OfflineArgs.num_requests at hn
  unfold GenerateArgs.prompt_ids
  split at hn
  · cases hn
  · next prompts hp ht =>
    cases hn
    simp [hp, ht, List.getElem?_eq_getElem hi]
  · next prompt_token_ids hp ht =>
    cases hn
    simp [ht, List.getElem?_eq_getElem hi]
  · next prompts prompt_token_ids hp ht =>
    split at hn
    · cases hn
    · next heq =>
      cases hn
      rw [not_not] at heq
      rw [heq] at hi
      simp [ht, List.getElem?_eq_getElem hi]

/-! ## The machine -/

/-- `deal_with_request_coroutine`. It has an id since its generator began. -/
structure RequestTask where
  request_id : Option RequestId
  step_outputs : List StepOutput
  done : Bool

/-- `OfflineLLM` in a call of `generate`. -/
structure OfflineLLM where
  engine : LLMEngine
  request_args : List GenerateArgs
  request_tasks : List RequestTask

namespace OfflineLLM

def create (c : EnginesConfig) (request_args : List GenerateArgs) : OfflineLLM where
  engine := .create c
  request_args
  request_tasks := request_args.map fun _ => ⟨none, [], false⟩

/-- `asyncio.gather(*request_tasks)`, which returns when all tasks are done. -/
def gather (s : OfflineLLM) : Option (List (List StepOutput)) :=
  if s.request_tasks.all (·.done) then some (s.request_tasks.map (·.step_outputs)) else none

/-- A task goes on, or one of the engines goes on. -/
inductive Action
  | run_task (req_index : Nat)
  | engines (action : Engines.Action)

variable (decode : Tokenizer) (tokenizer : PromptTokenizer)

/-- The first turn of a task: the generator begins. -/
def begin_task (s : OfflineLLM) (req_index : Nat) (args : GenerateArgs) :
    Option (Except PyError OfflineLLM) :=
  if args.prompt_ids tokenizer = none then some (.error .prompt_missing)
  else
    (s.engine.step decode tokenizer (.generate args)).map fun result => do
      let engine ← result
      return { s with
        engine
        request_tasks := s.request_tasks.set req_index
          ⟨some (args.request_id.getD s.engine.request_counter), [], false⟩ }

/-- A turn of the loop of a task: the generator yields, and the task wants more. -/
def go_on (s : OfflineLLM) (req_index : Nat) (task : RequestTask) (request_id : RequestId) :
    Option (Except PyError OfflineLLM) :=
  (s.engine.get_output request_id).map fun result => do
    let (engine, step_output) ← result
    let engine ← engine.resume request_id step_output
    return { s with
      engine
      request_tasks := s.request_tasks.set req_index
        { task with
          step_outputs := task.step_outputs ++ [step_output]
          done := step_output.is_finished } }

def step : Machine PyError OfflineLLM Action := fun s a =>
  match a with
  | .run_task req_index =>
    match s.request_args[req_index]?, s.request_tasks[req_index]? with
    | some args, some task =>
      match task.request_id with
      | none => s.begin_task decode tokenizer req_index args
      | some request_id => if task.done then none else s.go_on req_index task request_id
    | _, _ => none
  | .engines action =>
    (s.engine.step decode tokenizer (.engines action)).map fun result => do
      let engine ← result
      return { s with engine }

/-! ## The invariant -/

/-- The request `r` was made of these arguments. -/
def MadeOf (e : LLMEngine) (tokenizer : PromptTokenizer) (args : GenerateArgs) (r : RequestId) :
    Prop :=
  ∃ q ∈ e.engines.added, q.request_id = r ∧
    args.prompt_ids tokenizer = some q.prompt_token_ids ∧ q.sampling_params = args.sampling_params

/-- A task has what its generator yielded. -/
structure TaskOf (e : LLMEngine) (tokenizer : PromptTokenizer) (args : GenerateArgs)
    (task : RequestTask) : Prop where
  begun : task.done = true → task.request_id ≠ none
  made : ∀ r, task.request_id = some r → MadeOf e tokenizer args r ∧
    e.yielded r = task.step_outputs ∧ e.generators r = if task.done then .returned else .waiting

structure Tasks (c : EnginesConfig) (decode : Tokenizer) (tokenizer : PromptTokenizer)
    (args : List GenerateArgs) (s : OfflineLLM) : Prop where
  reaches : Reaches (LLMEngine.step decode tokenizer) (.create c) s.engine
  request_args : s.request_args = args
  length : s.request_tasks.length = args.length
  tasks : ∀ (i : Nat) (a : GenerateArgs) (t : RequestTask), args[i]? = some a →
    s.request_tasks[i]? = some t → TaskOf s.engine tokenizer a t
  distinct : ∀ (i j : Nat) (t u : RequestTask) (r : RequestId), s.request_tasks[i]? = some t →
    s.request_tasks[j]? = some u → t.request_id = some r → u.request_id = some r → i = j

variable {c : EnginesConfig} {decode : Tokenizer} {tokenizer : PromptTokenizer}
  {args : List GenerateArgs} {s : OfflineLLM}

theorem tasks_create (c : EnginesConfig) (decode : Tokenizer) (tokenizer : PromptTokenizer)
    (args : List GenerateArgs) : Tasks c decode tokenizer args (create c args) := by
  have hnone : ∀ (i : Nat) (t : RequestTask), (create c args).request_tasks[i]? = some t →
      t = ⟨none, [], false⟩ := fun i t ht => by
    obtain ⟨a, -, rfl⟩ := List.mem_map.mp (List.mem_of_getElem? ht)
    rfl
  refine ⟨.refl _ _, rfl, List.length_map _, fun i a t _ ht => ?_, fun i j t u r ht _ hr _ => ?_⟩
  · rw [hnone i t ht]
    exact ⟨fun h => (by cases h), fun r hr => by cases hr⟩
  · rw [hnone i t ht] at hr
    cases hr

/-- Nothing changes for a task when nothing changes for its request. -/
theorem TaskOf.congr {e e' : LLMEngine} {a : GenerateArgs} {t : RequestTask}
    (h : TaskOf e tokenizer a t) (hadded : e.engines.added ⊆ e'.engines.added)
    (hsame : ∀ r, t.request_id = some r →
      e'.yielded r = e.yielded r ∧ e'.generators r = e.generators r) : TaskOf e' tokenizer a t := by
  refine ⟨h.begun, fun r hr => ?_⟩
  obtain ⟨⟨q, hq, hmade⟩, hy, hg⟩ := h.made r hr
  exact ⟨⟨q, hadded hq, hmade⟩, (hsame r hr).1.trans hy, (hsame r hr).2.trans hg⟩

/-- One task changes, with its request. -/
theorem Tasks.withTask (h : Tasks c decode tokenizer args s) {engine : LLMEngine} {i : Nat}
    {a : GenerateArgs} {r : RequestId} {task : RequestTask} (ha : args[i]? = some a)
    (hreaches : Reaches (LLMEngine.step decode tokenizer) (.create c) engine)
    (hadded : s.engine.engines.added ⊆ engine.engines.added)
    (hsame : ∀ r' ≠ r, engine.yielded r' = s.engine.yielded r' ∧
      engine.generators r' = s.engine.generators r')
    (hr : task.request_id = some r) (htask : TaskOf engine tokenizer a task)
    (hothers : ∀ (j : Nat) (u : RequestTask), j ≠ i → s.request_tasks[j]? = some u →
      u.request_id ≠ some r) :
    Tasks c decode tokenizer args
      { s with engine, request_tasks := s.request_tasks.set i task } := by
  have hcases : ∀ (j : Nat) (u : RequestTask), (s.request_tasks.set i task)[j]? = some u →
      (j = i ∧ u = task) ∨ (j ≠ i ∧ s.request_tasks[j]? = some u) := fun j u hu => by
    rw [List.getElem?_set] at hu
    split at hu
    · next hji =>
      split at hu
      · exact Or.inl ⟨hji.symm, (Option.some.inj hu).symm⟩
      · cases hu
    · next hji => exact Or.inr ⟨fun hc => hji hc.symm, hu⟩
  refine ⟨hreaches, h.request_args, (List.length_set ..).trans h.length, fun j b u hb hu => ?_,
    fun j k t u r' ht hu hrt hru => ?_⟩
  · rcases hcases j u hu with ⟨rfl, rfl⟩ | ⟨hne, hu⟩
    · rw [ha] at hb
      cases hb
      exact htask
    · refine (h.tasks j b u hb hu).congr hadded fun r' hr' => hsame r' ?_
      rintro rfl
      exact hothers j u hne hu hr'
  · rcases hcases j t ht with ⟨hj, hjt⟩ | ⟨hj, hjt⟩ <;>
      rcases hcases k u hu with ⟨hk, hku⟩ | ⟨hk, hku⟩
    · exact hj.trans hk.symm
    · rw [hjt, hr] at hrt
      cases hrt
      exact absurd hru (hothers k u hk hku)
    · rw [hku, hr] at hru
      cases hru
      exact absurd hrt (hothers j t hj hjt)
    · exact h.distinct j k t u r' hjt hku hrt hru

theorem begin_task_gives (h : Tasks c decode tokenizer args s) {i : Nat} {a : GenerateArgs}
    (ha : args[i]? = some a) (hprompt : a.prompt_ids tokenizer ≠ none)
    {x : Except PyError OfflineLLM} (hx : s.begin_task decode tokenizer i a = some x) :
    Gives x (Tasks c decode tokenizer args) fun _ => False := by
  unfold begin_task at hx
  rw [if_neg hprompt] at hx
  obtain ⟨prompt_token_ids, hp⟩ := Option.ne_none_iff_exists'.mp hprompt
  obtain ⟨y, hy, rfl⟩ := Option.map_eq_some_iff.mp hx
  set r := a.request_id.getD s.engine.request_counter with hr
  obtain ⟨engine, rfl, -, hnew, hadded, hg, hyielded, hnil⟩ :=
    LLMEngine.generate_gives (LLMEngine.streams_of_reaches h.reaches) hp hy hr
  refine gives_ok (h.withTask (r := r) ha (h.reaches.tail hy) ?_ (fun r' hne => ?_) rfl ?_ ?_)
  · rw [hadded]
    exact List.subset_append_left _ _
  · rw [hyielded, hg, Function.update_of_ne hne]
    exact ⟨rfl, rfl⟩
  · refine ⟨fun hd => (by cases hd), fun r' hr' => ?_⟩
    cases hr'
    refine ⟨⟨.create r prompt_token_ids a.sampling_params, ?_, rfl, hp, rfl⟩, hnil, ?_⟩
    · rw [hadded]
      exact List.mem_append_right _ List.mem_cons_self
    · rw [hg, Function.update_self]
      rfl
  · intro j u hj hu hru
    -- the request of another task was added before
    have hlt : j < args.length := by
      rw [← h.length]
      exact (List.getElem?_eq_some_iff.mp hu).1
    obtain ⟨⟨q, hq, hid, -⟩, -⟩ :=
      (h.tasks j args[j] u (List.getElem?_eq_getElem hlt) hu).made r hru
    exact hnew (hid ▸ List.mem_map_of_mem hq)

theorem go_on_gives (h : Tasks c decode tokenizer args s) {i : Nat} {a : GenerateArgs}
    {task : RequestTask} {r : RequestId} (ha : args[i]? = some a)
    (ht : s.request_tasks[i]? = some task) (hr : task.request_id = some r)
    {x : Except PyError OfflineLLM} (hx : s.go_on i task r = some x) :
    Gives x (Tasks c decode tokenizer args) fun _ => False := by
  obtain ⟨y, hy, rfl⟩ := Option.map_eq_some_iff.mp hx
  have hs := LLMEngine.streams_of_reaches h.reaches
  obtain ⟨e₁, o, rfl, hg₁, hy₁, hc₁⟩ := LLMEngine.get_output_gives hs hy
  have hs₁ := hc₁.streams hs
  obtain ⟨e₂, he₂, hy₂, hg₂, hc₂⟩ := LLMEngine.resume_gives hs₁ hg₁
  refine gives_ok_bind rfl (gives_ok_bind he₂ (gives_pure ?_))
  have hreaches₁ : Reaches (LLMEngine.step decode tokenizer) (.create c) e₁ :=
    h.reaches.tail (a := .get_output r) (congrArg (Option.map _) hy)
  have hreaches₂ : Reaches (LLMEngine.step decode tokenizer) (.create c) e₂ := by
    apply hreaches₁.tail (a := .resume r)
    simp only [LLMEngine.step, hg₁, he₂]
  have hengines : e₂.engines = s.engine.engines := hc₂.engines.trans hc₁.engines
  obtain ⟨hmade, hyielded, -⟩ := (h.tasks i a task ha ht).made r hr
  refine h.withTask (r := r) ha hreaches₂ ?_ (fun r' hne => ?_) hr ?_ ?_
  · rw [hengines]
    exact List.Subset.refl _
  · obtain ⟨-, -, hg, hy⟩ := hc₁.others r' hne
    obtain ⟨-, -, hg', hy'⟩ := hc₂.others r' hne
    exact ⟨hy'.trans hy, hg'.trans hg⟩
  · refine ⟨fun _ hnone => ?_, fun r' hr' => ?_⟩
    · rw [hr] at hnone
      cases hnone
    obtain rfl : r = r' := Option.some.inj (hr.symm.trans hr')
    refine ⟨?_, ?_, hg₂⟩
    · obtain ⟨q, hq, hmade⟩ := hmade
      exact ⟨q, hengines ▸ hq, hmade⟩
    · rw [hy₂, hy₁, hyielded]
  · exact fun j u hj hu hru => hj (h.distinct j i u task r hu ht hru hr)

/-! ## Every run -/

theorem step_gives (h : Tasks c decode tokenizer args s)
    (hprompts : ∀ a ∈ args, a.prompt_ids tokenizer ≠ none) {a : Action}
    {x : Except PyError OfflineLLM} (hx : step decode tokenizer s a = some x) :
    Gives x (Tasks c decode tokenizer args) DecodingStageFCFSScheduler.CpuShortage := by
  cases a with
  | run_task i =>
    simp only [step, h.request_args] at hx
    split at hx
    · next a task ha ht =>
      split at hx
      · exact (begin_task_gives h ha (hprompts a (List.mem_of_getElem? ha)) hx).imp
          (fun _ => id) fun _ => False.elim
      · next r hr =>
        split at hx
        · cases hx
        · exact (go_on_gives h ha ht hr hx).imp (fun _ => id) fun _ => False.elim
    · cases hx
  | engines b =>
    obtain ⟨y, hy, rfl⟩ := Option.map_eq_some_iff.mp hx
    have hb : ∀ q, b ≠ .add_request q := by
      rintro q rfl
      cases hy
    have hgives := LLMEngine.engines_gives (LLMEngine.streams_of_reaches h.reaches) hb hy
    cases y with
    | error err => exact hgives.2.2
    | ok engine =>
      obtain ⟨-, hadded, hg, hyielded⟩ := hgives
      refine gives_ok ⟨h.reaches.tail hy, h.request_args, h.length, fun i a t ha ht => ?_,
        h.distinct⟩
      refine (h.tasks i a t ha ht).congr ?_ fun r _ => ?_
      · rw [hadded]
        exact List.Subset.refl _
      · rw [hyielded, hg]
        exact ⟨rfl, rfl⟩

theorem tasks_of_reaches (hprompts : ∀ a ∈ args, a.prompt_ids tokenizer ≠ none)
    (h : Reaches (step decode tokenizer) (create c args) s) : Tasks c decode tokenizer args s := by
  have hsound : runs.Sound (step decode tokenizer) (Tasks c decode tokenizer args)
      DecodingStageFCFSScheduler.CpuShortage := fun s a x h hx => step_gives h hprompts hx
  exact hsound.invariant (tasks_create c decode tokenizer args) h

/-- The lists come in the order of the arguments, each for a request of its own. -/
theorem Tasks.of_gather (h : Tasks c decode tokenizer args s) {result : List (List StepOutput)}
    (hresult : s.gather = some result) :
    ∃ rs : List RequestId, rs.Nodup ∧ List.Forall₂ (MadeOf s.engine tokenizer) args rs ∧
      result = rs.map s.engine.yielded ∧ ∀ r ∈ rs, s.engine.generators r = .returned := by
  unfold gather at hresult
  split at hresult
  · next hall =>
    cases hresult
    have hdone : ∀ t ∈ s.request_tasks, t.done = true := List.all_eq_true.mp hall
    have htask : ∀ (i : Nat) (hi : i < s.request_tasks.length),
        ∃ r, s.request_tasks[i].request_id = some r ∧
          MadeOf s.engine tokenizer (args.get ⟨i, h.length ▸ hi⟩) r ∧
          s.engine.yielded r = s.request_tasks[i].step_outputs ∧
          s.engine.generators r = .returned := fun i hi => by
      have ht := h.tasks i _ _ (List.getElem?_eq_getElem (h.length ▸ hi))
        (List.getElem?_eq_getElem hi)
      have hd := hdone _ (List.getElem_mem hi)
      obtain ⟨r, hr⟩ := Option.ne_none_iff_exists'.mp (ht.begun hd)
      obtain ⟨hmade, hy, hg⟩ := ht.made r hr
      rw [hd] at hg
      exact ⟨r, hr, hmade, hy, hg⟩
    refine ⟨s.request_tasks.map fun t => t.request_id.getD 0, ?_, ?_, ?_, fun r hr => ?_⟩
    · rw [List.Nodup, List.pairwise_iff_getElem]
      intro i j hi hj hij heq
      rw [List.length_map] at hi hj
      obtain ⟨r, hr, -⟩ := htask i hi
      obtain ⟨r', hr', -⟩ := htask j hj
      rw [List.getElem_map, List.getElem_map, hr, hr', Option.getD_some, Option.getD_some] at heq
      subst heq
      exact Nat.ne_of_lt hij (h.distinct i j _ _ r (List.getElem?_eq_getElem hi)
        (List.getElem?_eq_getElem hj) hr hr')
    · rw [List.forall₂_iff_get]
      refine ⟨by rw [List.length_map, h.length], fun i hi hi' => ?_⟩
      rw [List.length_map] at hi'
      obtain ⟨r, hr, hmade, -⟩ := htask i hi'
      simpa [hr] using hmade
    · rw [List.map_map]
      apply List.map_congr_left
      intro t ht
      obtain ⟨i, hi, rfl⟩ := List.getElem_of_mem ht
      obtain ⟨r, hr, -, hy, -⟩ := htask i hi
      rw [Function.comp_apply, hr, Option.getD_some, hy]
    · obtain ⟨t, ht, rfl⟩ := List.mem_map.mp hr
      obtain ⟨i, hi, rfl⟩ := List.getElem_of_mem ht
      obtain ⟨r, hr, -, -, hg⟩ := htask i hi
      rw [hr, Option.getD_some, hg]
  · cases hresult

/-- In every run, the outputs of a request are the tokens that the workers gave for it, and
the generator yields them in order and returns after the finished one, which is the last.
Nothing but a swap-out raises, so no queue is missed. When `OfflineLLM.generate` returns, it
returns all that the generators yielded, in the order of the prompts. -/
theorem every_token_is_yielded_once_and_in_order (c : EnginesConfig) (decode : Tokenizer)
    (tokenizer : PromptTokenizer) :
    (∀ s : LLMEngine, Reaches (LLMEngine.step decode tokenizer) (.create c) s →
      (∀ q ∈ s.engines.added, s.Faithful decode q) ∧
      ∀ a err, LLMEngine.step decode tokenizer s a = some (.error err) →
        (∃ now, a = .engines (.decoding_begin_step now)) ∧
          s.engines.decoding_engine.SwapOutFails err) ∧
    ∀ (a : OfflineArgs) (args : List GenerateArgs) (s : OfflineLLM), a.request_args = .ok args →
      Reaches (step decode tokenizer) (create c args) s →
        Reaches (LLMEngine.step decode tokenizer) (.create c) s.engine ∧
        (∀ b err, step decode tokenizer s b = some (.error err) →
          DecodingStageFCFSScheduler.CpuShortage err) ∧
        ∀ result, s.gather = some result →
          ∃ rs : List RequestId, rs.Nodup ∧ List.Forall₂ (MadeOf s.engine tokenizer) args rs ∧
            result = rs.map s.engine.yielded ∧ ∀ r ∈ rs, s.engine.generators r = .returned := by
  refine ⟨fun s h => ?_, fun a args s hargs h => ?_⟩
  · have hs := LLMEngine.streams_of_reaches h
    exact ⟨fun q hq => hs.faithful hq, fun a err hx =>
      (LLMEngine.step_gives hs hx).of_error rfl⟩
  · have hprompts : ∀ b ∈ args, b.prompt_ids tokenizer ≠ none := fun b hb =>
      OfflineArgs.prompt_ids_of_request_args hargs tokenizer hb
    have ht := tasks_of_reaches hprompts h
    exact ⟨ht.reaches, fun b err hx => (step_gives ht hprompts hx).of_error rfl,
      fun result hresult => ht.of_gather hresult⟩

/-- Two prompts. The first one gets the tokens 4 and 5, of which 5 is a stop token, and the
second one gets the token 7. -/
theorem two_prompts_get_their_tokens : ∃ (s : OfflineLLM) (result : List (List StepOutput)),
    s.gather = some result ∧ result.map (·.map (·.new_token_id)) = [[4, 5], [7]] ∧
      ∃ rs : List RequestId, rs.Nodup ∧ result = rs.map s.engine.yielded := by
  let decode : Tokenizer := fun token_id => if token_id = 5 then some "stop" else none
  let tokenizer : PromptTokenizer := ⟨fun _ => [1, 2, 3], fun _ => []⟩
  let a : OfflineArgs := ⟨some (.list ["first", "second"]), none,
    some (.for_each [⟨["stop"], false, 3, by decide⟩, ⟨[], false, 1, by decide⟩])⟩
  let args : List GenerateArgs :=
    [⟨some "first", none, none, ⟨["stop"], false, 3, by decide⟩, none⟩,
      ⟨some "second", none, none, ⟨[], false, 1, by decide⟩, none⟩]
  obtain ⟨s, hr, hs⟩ := reaches_of_any (m := step decode tokenizer)
    (s := create Engines.smallConfig args)
    [.run_task 0, .run_task 1, .engines (.context_begin_step 0),
      .engines (.context_batch_returns [4]), .engines (.context_begin_step 1),
      .engines (.context_batch_returns [7]), .engines .bridge_get,
      .engines (.decoding_begin_step 0), .engines .decoding_wake, .engines .migration_ends,
      .engines (.decoding_begin_step 1), .engines (.decoding_begin_step 2),
      .engines .decoding_wake, .run_task 0, .engines (.decoding_batch_returns [5]),
      .run_task 1, .run_task 0]
    (fun s : OfflineLLM => decide (s.gather.map (·.map (·.map (·.new_token_id))) =
      some [[4, 5], [7]]))
    (by decide +kernel)
  obtain ⟨result, hg, hids⟩ := Option.map_eq_some_iff.mp (of_decide_eq_true hs)
  obtain ⟨-, -, hgather⟩ := (every_token_is_yielded_once_and_in_order Engines.smallConfig decode
    tokenizer).2 a args s rfl hr
  obtain ⟨rs, hnd, -, hresult, -⟩ := hgather result hg
  exact ⟨s, result, hg, hids, rs, hnd, hresult⟩

end OfflineLLM

end distserve
