-- The deployment with the streams of its workers (worker.py): `swap_blocks` only enqueues its
-- copies, and they come some time later. The events that later calls wait for do not cover them,
-- so no call waits for them here.
import RecomputeOrMigrate.DeploymentRun

open autoregression calls copies runs

namespace distserve

variable {κ : Type}

/-- The calls that return before their work is done. -/
def RemoteCall.enqueues : RemoteCall → Bool
  | .swap_blocks .. => true
  | _ => false

/-- The swaps of both directions have streams of their own. -/
def RemoteCall.same_stream : RemoteCall → RemoteCall → Bool
  | .swap_blocks _ _ _ is_swap_in, .swap_blocks _ _ _ is_swap_in' => is_swap_in == is_swap_in'
  | _, _ => false

/-- The engines with their workers, and the swaps whose copies are still on the streams, the oldest
first. -/
structure StreamedDeployment (κ : Type) where
  deployment : Deployment κ
  context_copies : List RemoteCall
  decoding_copies : List RemoteCall

namespace Deployment

/-- The deployment with other contents on the workers. -/
def with_memory (s : Deployment κ) (context_memory decoding_memory : kv_store.Devices (Nat → κ)) :
    Deployment κ :=
  { s with
    context_workers := { s.context_workers with memory := context_memory }
    decoding_workers := { s.decoding_workers with memory := decoding_memory } }

/-- The workers run their next call. -/
def Action.runs_call : Action → Bool
  | .context_workers_run => true
  | .decoding_workers_run => true
  | _ => false

end Deployment

namespace StreamedDeployment

def create (c : EnginesConfig) (context_memory decoding_memory : kv_store.Devices (Nat → κ)) :
    StreamedDeployment κ where
  deployment := .create c context_memory decoding_memory
  context_copies := []
  decoding_copies := []

inductive Action
  | deployment (action : Deployment.Action)
  /-- The copies of a swap of the context workers come to their end. -/
  | context_copies_end (swap : Nat)
  | decoding_copies_end (swap : Nat)

/-- The swap is the oldest one on its stream. -/
def next_on_stream (copies : List RemoteCall) (swap : Nat) : Option RemoteCall :=
  copies[swap]?.filter fun c => (copies.take swap).all fun before => !before.same_stream c

variable (decode : Tokenizer) (model : Model TokenId κ)

/-- An action of the deployment in which no swap is issued. -/
def act (s : StreamedDeployment κ) (a : Deployment.Action) :
    Option (Except PyError (StreamedDeployment κ)) :=
  (Deployment.step decode model s.deployment a).map fun result => do
    let deployment ← result
    return { s with deployment }

def step : Machine PyError (StreamedDeployment κ) Action := fun s a =>
  match a with
  | .deployment .context_workers_run =>
    let w := s.deployment.context_workers
    match w.pending s.deployment.engines.context_engine.block_manager with
    | [] => none
    | c :: _ =>
      if c.enqueues then
        some (.ok { s with
          deployment := { s.deployment with
            context_workers := { w with executed := w.executed + 1 } }
          context_copies := s.context_copies ++ [c] })
      else s.act decode model .context_workers_run
  | .deployment .decoding_workers_run =>
    let w := s.deployment.decoding_workers
    match w.pending s.deployment.engines.decoding_engine.block_manager with
    | [] => none
    | c :: _ =>
      if c.enqueues then
        some (.ok { s with
          deployment := { s.deployment with
            decoding_workers := { w with executed := w.executed + 1 } }
          decoding_copies := s.decoding_copies ++ [c] })
      else s.act decode model .decoding_workers_run
  | .deployment action => s.act decode model action
  | .context_copies_end swap =>
    (next_on_stream s.context_copies swap).map fun c =>
      let w := s.deployment.context_workers
      .ok { s with
        deployment := { s.deployment with
          context_workers := { w with memory := kv_store.run_call w.memory c } }
        context_copies := s.context_copies.eraseIdx swap }
  | .decoding_copies_end swap =>
    (next_on_stream s.decoding_copies swap).map fun c =>
      let w := s.deployment.decoding_workers
      .ok { s with
        deployment := { s.deployment with
          decoding_workers := { w with memory := kv_store.run_call w.memory c } }
        decoding_copies := s.decoding_copies.eraseIdx swap }

/-- Workers run a call when the copies of the swaps before it are done. A call of the decoding
workers may read the cache of the context workers, so it has to come after the copies of both. -/
def copies_done (s : StreamedDeployment κ) : Action → Bool
  | .deployment .context_workers_run => s.context_copies.isEmpty
  | .deployment .decoding_workers_run => s.context_copies.isEmpty && s.decoding_copies.isEmpty
  | _ => true

/-- The deployment in the runs in which each call of the workers finds the copies done. -/
def ordered_step : Machine PyError (StreamedDeployment κ) Action :=
  restrict (step decode model) fun s a => s.copies_done a = true

end StreamedDeployment

/-! ## Contents that a step does not touch -/

variable {decode : Tokenizer} {model : Model TokenId κ}

namespace Deployment

variable {s s' : Deployment κ} {a : Action} {mc md : kv_store.Devices (Nat → κ)}

theorem engines_act_with_memory (b : Engines.Action) :
    (s.with_memory mc md).engines_act decode b =
      (s.engines_act decode b).map fun result => (·.with_memory mc md) <$> result := by
  unfold engines_act
  change (Engines.step decode s.engines b).map _ = _
  rw [Option.map_map]
  congr 1
  funext result
  cases result <;> rfl

/-- Only the workers touch the contents. -/
theorem step_with_memory (ha : a.runs_call = false) :
    step decode model (s.with_memory mc md) a =
      (step decode model s a).map fun result => (·.with_memory mc md) <$> result := by
  cases a with
  | context_workers_run => cases ha
  | decoding_workers_run => cases ha
  | context_batch_returns =>
    cases hr : s.context_workers.results with
    | nil =>
      have hr' : (s.with_memory mc md).context_workers.results = [] := hr
      simp only [step, hr, hr']
      rfl
    | cons ids rest =>
      have hr' : (s.with_memory mc md).context_workers.results = ids :: rest := hr
      simp only [step, hr, hr']
      exact engines_act_with_memory
        (s := { s with context_workers := { s.context_workers with results := rest } }) _
  | decoding_batch_returns =>
    cases hr : s.decoding_workers.results with
    | nil =>
      have hr' : (s.with_memory mc md).decoding_workers.results = [] := hr
      simp only [step, hr, hr']
      rfl
    | cons ids rest =>
      have hr' : (s.with_memory mc md).decoding_workers.results = ids :: rest := hr
      simp only [step, hr, hr']
      exact engines_act_with_memory
        (s := { s with decoding_workers := { s.decoding_workers with results := rest } }) _
  | migration_ends =>
    change (if (s.decoding_workers.pending s.engines.decoding_engine.block_manager).any
        RemoteCall.isMigration then none
      else (s.with_memory mc md).engines_act decode .migration_ends) = _
    unfold step
    dsimp only
    split
    · rfl
    · exact engines_act_with_memory _
  | _ => exact engines_act_with_memory _

theorem memory_of_step (ha : a.runs_call = false) (h : step decode model s a = some (.ok s')) :
    s'.context_workers.memory = s.context_workers.memory ∧
      s'.decoding_workers.memory = s.decoding_workers.memory := by
  have hsame : step decode model s a = (step decode model s a).map fun result =>
      (·.with_memory s.context_workers.memory s.decoding_workers.memory) <$> result :=
    step_with_memory ha
  rw [h] at hsame
  have hs' : s' = s'.with_memory s.context_workers.memory s.decoding_workers.memory :=
    Except.ok.inj (Option.some.inj hsame)
  rw [hs']
  exact ⟨rfl, rfl⟩

theorem context_run_eq {c : RemoteCall} {rest : List RemoteCall}
    (h : s.context_workers.pending s.engines.context_engine.block_manager = c :: rest) :
    step decode model s .context_workers_run = some (.ok { s with
      context_workers := { s.context_workers.run_call model
        s.engines.context_engine.block_manager.cache_config.block_size c with
          executed := s.context_workers.executed + 1 } }) := by
  simp only [step, h]

theorem decoding_run_eq {c : RemoteCall} {rest : List RemoteCall}
    (h : s.decoding_workers.pending s.engines.decoding_engine.block_manager = c :: rest) :
    step decode model s .decoding_workers_run = some (.ok { s with
      decoding_workers := { s.decoding_workers.run_decoding_call model
        s.engines.decoding_engine.block_manager.cache_config.block_size
          s.context_workers.memory.gpu c with
            executed := s.decoding_workers.executed + 1 } }) := by
  simp only [step, h]

end Deployment

/-! ## Runs in order -/

namespace StreamedDeployment

variable {s s' : StreamedDeployment κ} {a : Action}

/-- The deployment as it is when all copies are done. -/
def settled (s : StreamedDeployment κ) : Deployment κ :=
  s.deployment.with_memory
    (s.context_copies.foldl kv_store.run_call s.deployment.context_workers.memory)
    (s.decoding_copies.foldl kv_store.run_call s.deployment.decoding_workers.memory)

/-- At most one swap of each engine is on the streams. -/
def AtMostOne (s : StreamedDeployment κ) : Prop :=
  s.context_copies.length ≤ 1 ∧ s.decoding_copies.length ≤ 1

/-- An action that issues no call is one of the settled deployment. -/
theorem act_settled {b : Deployment.Action} (hb : b.runs_call = false)
    (h : s.act decode model b = some (.ok s')) :
    Deployment.step decode model s.settled b = some (.ok s'.settled) ∧
      s'.context_copies = s.context_copies ∧ s'.decoding_copies = s.decoding_copies := by
  obtain ⟨result, hresult, hs'⟩ := Option.map_eq_some_iff.mp h
  obtain ⟨d, rfl, hs'⟩ := bind_eq_ok.mp hs'
  cases hs'
  obtain ⟨hc, hd⟩ := Deployment.memory_of_step hb hresult
  refine ⟨?_, rfl, rfl⟩
  unfold settled
  dsimp only
  rw [Deployment.step_with_memory hb, hresult, hc, hd]
  rfl

/-- A swap that is alone on the streams settles nothing anew when its copies are done. -/
theorem settled_of_alone {copies : List RemoteCall} {swap : Nat} {c : RemoteCall}
    (hone : copies.length ≤ 1) (h : next_on_stream copies swap = some c)
    (d : kv_store.Devices (Nat → κ)) :
    (copies.eraseIdx swap).foldl kv_store.run_call (kv_store.run_call d c) =
      copies.foldl kv_store.run_call d ∧ (copies.eraseIdx swap).length ≤ 1 := by
  obtain ⟨hget, -⟩ := Option.filter_eq_some_iff.mp h
  obtain ⟨hlt, hc⟩ := List.getElem?_eq_some_iff.mp hget
  cases copies with
  | nil => exact absurd hlt (Nat.not_lt_zero _)
  | cons c' rest =>
    obtain rfl : rest = [] := by simpa using hone
    obtain rfl : swap = 0 := by simpa using hlt
    cases hc
    exact ⟨rfl, Nat.zero_le 1⟩

theorem run_call_of_enqueues {w : Workers κ} {size : Nat} {c : RemoteCall}
    (h : c.enqueues = true) :
    w.run_call model size c = { w with memory := kv_store.run_call w.memory c } ∧
      ∀ gpu, w.run_decoding_call model size gpu c =
        { w with memory := kv_store.run_call w.memory c } := by
  cases c <;> first | exact ⟨rfl, fun _ => rfl⟩ | cases h

/-- The context workers run a call after the copies, or issue a swap. -/
theorem settled_context_run (hdone : s.context_copies = [])
    (h : step decode model s (.deployment .context_workers_run) = some (.ok s')) :
    Deployment.step decode model s.settled .context_workers_run = some (.ok s'.settled) ∧
      s'.context_copies.length ≤ 1 ∧ s'.decoding_copies = s.decoding_copies := by
  simp only [step] at h
  cases hpending : s.deployment.context_workers.pending
      s.deployment.engines.context_engine.block_manager with
  | nil =>
    rw [hpending] at h
    cases h
  | cons c rest =>
    rw [hpending] at h
    dsimp only at h
    have hsettled : s.settled.context_workers.pending
        s.settled.engines.context_engine.block_manager = c :: rest := hpending
    rw [Deployment.context_run_eq hsettled]
    unfold settled
    by_cases hc : c.enqueues = true
    · rw [if_pos hc] at h
      cases h
      dsimp only
      rw [hdone, (run_call_of_enqueues hc).1]
      exact ⟨rfl, Nat.le_refl 1, rfl⟩
    · rw [if_neg hc, act, Deployment.context_run_eq hpending] at h
      cases h
      dsimp only
      rw [hdone]
      exact ⟨rfl, Nat.zero_le 1, rfl⟩

theorem settled_decoding_run (hdone : s.context_copies = [] ∧ s.decoding_copies = [])
    (h : step decode model s (.deployment .decoding_workers_run) = some (.ok s')) :
    Deployment.step decode model s.settled .decoding_workers_run = some (.ok s'.settled) ∧
      s'.context_copies = s.context_copies ∧ s'.decoding_copies.length ≤ 1 := by
  simp only [step] at h
  cases hpending : s.deployment.decoding_workers.pending
      s.deployment.engines.decoding_engine.block_manager with
  | nil =>
    rw [hpending] at h
    cases h
  | cons c rest =>
    rw [hpending] at h
    dsimp only at h
    have hsettled : s.settled.decoding_workers.pending
        s.settled.engines.decoding_engine.block_manager = c :: rest := hpending
    rw [Deployment.decoding_run_eq hsettled]
    unfold settled
    by_cases hc : c.enqueues = true
    · rw [if_pos hc] at h
      cases h
      dsimp only
      rw [hdone.1, hdone.2, (run_call_of_enqueues hc).2]
      exact ⟨rfl, rfl, Nat.le_refl 1⟩
    · rw [if_neg hc, act, Deployment.decoding_run_eq hpending] at h
      cases h
      dsimp only
      rw [hdone.1, hdone.2]
      exact ⟨rfl, rfl, Nat.zero_le 1⟩

/-- An action in order is one of the settled deployment, or copies that come to their end. -/
theorem settled_step (hone : s.AtMostOne) (h : ordered_step decode model s a = some (.ok s')) :
    Reaches (Deployment.step decode model) s.settled s'.settled ∧ s'.AtMostOne := by
  obtain ⟨hdone, hx⟩ := restrict_eq_some.mp h
  cases a with
  | deployment b =>
    by_cases hb : b.runs_call = true
    · cases b with
      | context_workers_run =>
        obtain ⟨hstep, hc, hd⟩ := settled_context_run (List.isEmpty_iff.mp hdone) hx
        exact ⟨(Reaches.refl _ _).tail hstep, hc, hd ▸ hone.2⟩
      | decoding_workers_run =>
        obtain ⟨hc₀, hd₀⟩ := Bool.and_eq_true_iff.mp hdone
        obtain ⟨hstep, hc, hd⟩ :=
          settled_decoding_run ⟨List.isEmpty_iff.mp hc₀, List.isEmpty_iff.mp hd₀⟩ hx
        exact ⟨(Reaches.refl _ _).tail hstep, hc ▸ hone.1, hd⟩
      | _ => cases hb
    · have hact : s.act decode model b = some (.ok s') := by
        cases b <;> first | exact hx | exact absurd rfl hb
      obtain ⟨hstep, hc, hd⟩ := act_settled (Bool.eq_false_iff.mpr hb) hact
      exact ⟨(Reaches.refl _ _).tail hstep, hc ▸ hone.1, hd ▸ hone.2⟩
  | context_copies_end swap =>
    obtain ⟨c, hc, hs'⟩ := Option.map_eq_some_iff.mp hx
    cases hs'
    obtain ⟨hsame, hlen⟩ := settled_of_alone hone.1 hc s.deployment.context_workers.memory
    unfold settled
    dsimp only
    rw [hsame]
    exact ⟨Reaches.refl _ _, hlen, hone.2⟩
  | decoding_copies_end swap =>
    obtain ⟨c, hc, hs'⟩ := Option.map_eq_some_iff.mp hx
    cases hs'
    obtain ⟨hsame, hlen⟩ := settled_of_alone hone.2 hc s.deployment.decoding_workers.memory
    unfold settled
    dsimp only
    rw [hsame]
    exact ⟨Reaches.refl _ _, hone.1, hlen⟩

/-- A run in order is a run of the deployment whose workers end each call. -/
theorem settled_reaches {c : EnginesConfig} {mc md : kv_store.Devices (Nat → κ)}
    (h : Reaches (ordered_step decode model) (create c mc md) s) :
    Reaches (Deployment.step decode model) (.create c mc md) s.settled ∧ s.AtMostOne := by
  induction h with
  | refl => exact ⟨Reaches.refl _ _, Nat.zero_le 1, Nat.zero_le 1⟩
  | tail _ hstep ih =>
    obtain ⟨a, ha⟩ := hstep
    obtain ⟨hreaches, hone⟩ := settled_step ih.2 ha
    exact ⟨Relation.ReflTransGen.trans ih.1 hreaches, hone⟩

/-- In every state of every run in which the copies of a swap are done before the next call of the
workers, each request that was added has exactly the tokens that the model writes after its prompt
when it keeps all entries and nothing moves. So batches, paged blocks, swaps and the migration from
one engine to the other change no text. -/
theorem the_text_is_that_of_the_model (c : EnginesConfig)
    (context_memory decoding_memory : kv_store.Devices (Nat → κ)) (decode : Tokenizer)
    (model : Model TokenId κ) (s : StreamedDeployment κ)
    (h : Reaches (ordered_step decode model) (create c context_memory decoding_memory) s) :
    ∀ q₀ ∈ s.deployment.engines.added, ∃ q ∈ s.deployment.engines.requests,
      q.origin = q₀.origin ∧
        q.generated_token_ids = model.generate q₀.prompt_token_ids q.get_output_len :=
  Deployment.written_by_the_model (s := s.settled) (settled_reaches h).1

/-- A model for the run below: an entry is its token and its position, and the next token is
the sum of the entries. -/
def smallModel : Model TokenId Int where
  entry past t := past.length + t
  next entries := entries.sum

/-- The decoding engine has three blocks of four tokens. -/
def threeBlocks : EnginesConfig where
  context_parallel_config := ⟨1, 1, Nat.one_pos, Nat.one_pos⟩
  decoding_parallel_config := ⟨1, 1, Nat.one_pos, Nat.one_pos⟩
  cache_config := ⟨4, by decide⟩
  context_max_batch_size := 2
  context_max_tokens_per_batch := 8
  decoding_max_batch_size := 8
  decoding_max_tokens_per_batch := 8
  waiting_block_prop_threshold := 1
  context_num_gpu_blocks := 8
  decoding_num_gpu_blocks := 3
  decoding_num_cpu_blocks := 4

def threeMore (request_id : RequestId) (prompt_token_ids : List TokenId) : Request :=
  .create request_id prompt_token_ids ⟨[], false, 3, DecodingStageLLMEngine.one_le_three⟩

/-- Both requests move to the decoding engine, where each needs a second block for its second
token. Request 1 is swapped out, and it is swapped in again when request 0 is finished. -/
def swapsOneRequest : List Action :=
  [.deployment (.add_request (threeMore 0 [1, 2, 3])),
    .deployment (.add_request (threeMore 1 [2, 3, 4])),
    .deployment (.context_begin_step 0), .deployment .context_workers_run,
    .deployment .context_batch_returns, .deployment .bridge_get, .deployment .bridge_get,
    .deployment (.decoding_begin_step 0), .deployment .decoding_wake,
    .deployment .decoding_workers_run, .deployment .migration_ends,
    .deployment .decoding_workers_run, .deployment .context_workers_run,
    .deployment .migration_ends, .deployment .context_workers_run,
    .deployment (.decoding_begin_step 0), .deployment .decoding_workers_run,
    .deployment .decoding_batch_returns, .deployment .decoding_workers_run,
    .deployment (.decoding_begin_step 0), .deployment .decoding_workers_run, .decoding_copies_end 0,
    .deployment .decoding_workers_run, .deployment .decoding_batch_returns,
    .deployment .decoding_workers_run, .deployment (.decoding_begin_step 0),
    .deployment .decoding_workers_run, .decoding_copies_end 0, .deployment .decoding_workers_run,
    .deployment .decoding_batch_returns]

/-- The directions of the swaps that the decoding engine asked for. -/
def swaps (s : StreamedDeployment κ) : List Bool :=
  s.deployment.engines.decoding_engine.block_manager.remote_calls.filterMap fun c =>
    match c with
    | .swap_blocks _ _ _ is_swap_in => some is_swap_in
    | _ => none

/-- The blocks held other values at first, and both requests get the tokens of the model. -/
theorem a_swapped_request_of_the_small_model : ∃ s : StreamedDeployment Int,
    s.swaps = [false, true] ∧
    s.deployment.engines.requests.map (·.generated_token_ids) =
      [smallModel.generate [1, 2, 3] 3, smallModel.generate [2, 3, 4] 3] ∧
    ∀ q₀ ∈ s.deployment.engines.added, ∃ q ∈ s.deployment.engines.requests,
      q.origin = q₀.origin ∧
        q.generated_token_ids = smallModel.generate q₀.prompt_token_ids q.get_output_len := by
  obtain ⟨s, hr, hs⟩ := reaches_of_any (m := ordered_step (fun _ => none) smallModel)
    (s := create threeBlocks ⟨fun _ _ => 7, fun _ _ => 8⟩ ⟨fun _ _ => 9, fun _ _ => 10⟩)
    swapsOneRequest
    (fun s : StreamedDeployment Int => decide (s.swaps = [false, true] ∧
      s.deployment.engines.requests.map (·.generated_token_ids) =
        [smallModel.generate [1, 2, 3] 3, smallModel.generate [2, 3, 4] 3]))
    (by decide +kernel)
  obtain ⟨hswaps, htokens⟩ := of_decide_eq_true hs
  exact ⟨s, hswaps, htokens, the_text_is_that_of_the_model _ _ _ _ _ s hr⟩

end StreamedDeployment

end distserve
