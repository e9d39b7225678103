-- The LLM engine (engine.py): it gives each request a queue for its outputs, and the
-- generator of the request yields what the queue holds.
import Mathlib.Logic.Function.Basic
import RecomputeOrMigrate.Engines

open calls

namespace distserve

/-! ## A new request -/

/-- What the LLM engine uses of the tokenizer, besides `decode`. -/
structure PromptTokenizer where
  encode : String → List TokenId
  tokenize : String → List String

/-- The arguments of `generate`. -/
structure GenerateArgs where
  prompt : Option String
  prompt_len : Option Nat
  prompt_token_ids : Option (List TokenId)
  sampling_params : SamplingParams
  request_id : Option RequestId

/-- The tokens of the prompt. -/
def GenerateArgs.prompt_ids (tokenizer : PromptTokenizer) (args : GenerateArgs) :
    Option (List TokenId) :=
  match args.prompt_token_ids, args.prompt with
  | some prompt_token_ids, _ => some prompt_token_ids
  | none, some prompt => some (tokenizer.encode prompt)
  | none, none => none

/-- `create_request`, which changes the counter. The counter has gone on when the prompt
is missing. -/
def create_request (tokenizer : PromptTokenizer) (args : GenerateArgs) :
    Call PyError Nat Request := do
  let request_id ← match args.request_id with
    | some request_id => pure request_id
    | none => modifyGet fun request_counter => (request_counter, request_counter + 1)
  match args.prompt_ids tokenizer with
  | some prompt_token_ids => return .create request_id prompt_token_ids args.sampling_params
  | none => throw .prompt_missing

/-- The value that `generate` puts in `_prompt_len_map`. -/
def GenerateArgs.prompt_len_value (tokenizer : PromptTokenizer) (args : GenerateArgs) : Nat :=
  match args.prompt_len, args.prompt_token_ids, args.prompt with
  | some prompt_len, _, _ => prompt_len
  | none, some prompt_token_ids, _ => prompt_token_ids.length
  | none, none, some prompt => (tokenizer.tokenize prompt).length
  | none, none, none => 0

/-! ## The engine -/

/-- Where the coroutine `generate` of one request is. -/
inductive Generator
  | not_started
  /-- At the next output of the queue. -/
  | waiting
  /-- It yielded this output to its consumer. -/
  | suspended (step_output : StepOutput)
  /-- It yielded the last output and deleted the queue. -/
  | returned
  /-- The consumer cancelled or closed it. -/
  | closed
deriving DecidableEq

/-- `LLMEngine`. The lists `yielded` and `produced` are not in the source: they remember
what each generator yielded, and the tokens that the workers gave for the requests of
their batches. -/
structure LLMEngine where
  engines : Engines
  request_counter : Nat
  request_outputs : RequestId → Option (List StepOutput)
  request_lifetime_events : RequestId → Option (List LifetimeEventType)
  prompt_len_map : Option RequestId → Option Nat
  generators : RequestId → Generator
  yielded : RequestId → List StepOutput
  produced : List (RequestId × TokenId)

namespace LLMEngine

def create (c : EnginesConfig) : LLMEngine where
  engines := .create c
  request_counter := 0
  request_outputs := fun _ => none
  request_lifetime_events := fun _ => none
  prompt_len_map := fun _ => none
  generators := fun _ => .not_started
  yielded := fun _ => []
  produced := []

/-! ## The callbacks -/

/-- `_on_new_step_output_callback`. -/
def on_new_step_output_callback (s : LLMEngine) (request_id : RequestId)
    (step_output : StepOutput) : Except PyError LLMEngine :=
  match s.request_outputs request_id with
  | none => .error (.key_error request_id)
  | some queue => .ok { s with
      request_outputs :=
        Function.update s.request_outputs request_id (some (queue ++ [step_output])) }

/-- `_on_new_lifetime_event_callback`. -/
def on_new_lifetime_event_callback (s : LLMEngine) (request_id : RequestId)
    (event_type : LifetimeEventType) (dont_add_if_dup : Bool) : Except PyError LLMEngine :=
  match s.request_lifetime_events request_id with
  | none => .error (.key_error request_id)
  | some events =>
    if dont_add_if_dup ∧ events.getLast? = some event_type then .ok s
    else .ok { s with
      request_lifetime_events :=
        Function.update s.request_lifetime_events request_id (some (events ++ [event_type])) }

/-- A call of one of the engines. The context engine has cleared the blocks already. -/
def on_callback (s : LLMEngine) : Callback → Except PyError LLMEngine
  | .engine_on_new_step_output request_id step_output =>
    s.on_new_step_output_callback request_id step_output
  | .engine_on_new_lifetime_event request_id event_type dont_add_if_dup =>
    s.on_new_lifetime_event_callback request_id event_type dont_add_if_dup
  | .clear_migrated_blocks _ => .ok s

/-! ## The parts of `generate` -/

/-- The part before the loop, for the request that `create_request` gave. -/
def start_request (tokenizer : PromptTokenizer) (s : LLMEngine) (args : GenerateArgs)
    (req : Request) : Except PyError LLMEngine := do
  let s := { s with
    request_outputs := Function.update s.request_outputs req.request_id (some [])
    request_lifetime_events := Function.update s.request_lifetime_events req.request_id (some []) }
  let s ← s.on_new_lifetime_event_callback req.request_id .Issued false
  return { s with
    engines := s.engines.add_request req
    prompt_len_map := Function.update s.prompt_len_map args.request_id
      (some (args.prompt_len_value tokenizer))
    generators := Function.update s.generators req.request_id .waiting }

/-- The generator takes the first output of its queue and yields it. It waits as long as
there is none. -/
def get_output (s : LLMEngine) (request_id : RequestId) :
    Option (Except PyError (LLMEngine × StepOutput)) :=
  if s.generators request_id = .waiting then
    match s.request_outputs request_id with
    | none => some (.error (.key_error request_id))
    | some [] => none
    | some (step_output :: queue) =>
      some (.ok ({ s with
        request_outputs := Function.update s.request_outputs request_id (some queue)
        generators := Function.update s.generators request_id (.suspended step_output)
        yielded := Function.update s.yielded request_id
          (s.yielded request_id ++ [step_output]) }, step_output))
  else none

/-- The consumer wants more after this output. The key of `_prompt_len_map` is the id of
the request here, and the argument `request_id` before. -/
def resume (s : LLMEngine) (request_id : RequestId) (step_output : StepOutput) :
    Except PyError LLMEngine :=
  if step_output.is_finished then
    match s.request_outputs request_id with
    | none => .error (.key_error request_id)
    | some _ => .ok { s with
        request_outputs := Function.update s.request_outputs request_id none
        prompt_len_map := Function.update s.prompt_len_map (some request_id) none
        generators := Function.update s.generators request_id .returned }
  else .ok { s with generators := Function.update s.generators request_id .waiting }

/-! ## The machine -/

/-- The tokens that the workers give for the requests of the earliest call `step`. -/
def answered : List (Option RemoteCall) → List TokenId → List (RequestId × TokenId)
  | some (.step request_ids _ _ _) :: _, ids => request_ids.zip ids
  | _, _ => []

/-- The tokens that the workers give in an action. -/
def produces (s : Engines) : Engines.Action → List (RequestId × TokenId)
  | .context_batch_returns ids => answered s.context_engine.batches_ret_futures ids
  | .decoding_batch_returns ids => answered s.decoding_engine.batches_ret_futures ids
  | _ => []

/-- A generator goes on, or the consumer does something, or one of the engines goes on. -/
inductive Action
  | generate (args : GenerateArgs)
  | get_output (request_id : RequestId)
  | resume (request_id : RequestId)
  | close (request_id : RequestId)
  | pop_request_lifetime_events (request_id : RequestId)
  | engines (action : Engines.Action)

variable (decode : Tokenizer) (tokenizer : PromptTokenizer)

/-- One action. The exception of `create_request` goes to the consumer. A new request has
an id that no request had before. The caller clears the lifetime events of a request after
the generator returned. -/
def step : runs.Machine PyError LLMEngine Action := fun s a =>
  match a with
  | .generate args =>
    match create_request tokenizer args s.request_counter with
    | .error _ request_counter => some (.ok { s with request_counter })
    | .ok req request_counter =>
      if req.request_id ∉ s.engines.added.map (·.request_id) then
        some ({ s with request_counter }.start_request tokenizer args req)
      else none
  | .get_output request_id => (s.get_output request_id).map fun result => (·.1) <$> result
  | .resume request_id =>
    match s.generators request_id with
    | .suspended step_output => some (s.resume request_id step_output)
    | _ => none
  | .close request_id =>
    match s.generators request_id with
    | .waiting | .suspended _ =>
      some (.ok { s with generators := Function.update s.generators request_id .closed })
    | _ => none
  | .pop_request_lifetime_events request_id =>
    if s.generators request_id = .returned then
      some (.ok { s with
        request_lifetime_events :=
          Function.update s.request_lifetime_events request_id none })
    else none
  | .engines (.add_request _) => none
  | .engines action =>
    (s.engines.act decode action).map fun result => do
      let (engines, callbacks) ← result
      callbacks.foldlM on_callback
        { s with engines, produced := s.produced ++ produces s.engines action }

end LLMEngine

end distserve
