-- What the two engines tell the LLM engine (single_stage_engine.py, lifetime.py):
-- a new output token or a new event in the life of a request.
import RecomputeOrMigrate.Request

namespace distserve

/-- `LifetimeEventType`. -/
inductive LifetimeEventType
  | Issued
  | ContextBegin
  | ContextEnd
  | MigrationBegin
  | MigrationEnd
  | DecodingBegin
  | DecodingEnd
deriving DecidableEq, Repr

/-- `StepOutput`. The flag `is_finished` is the one of the request at this step. -/
structure StepOutput where
  request : Request
  request_id : RequestId
  new_token : String
  new_token_id : TokenId
  is_finished : Bool
deriving DecidableEq

/-- `StepOutput.__init__`. -/
def StepOutput.create (request : Request) (new_token : String) (new_token_id : TokenId) :
    StepOutput where
  request
  request_id := request.request_id
  new_token
  new_token_id
  is_finished := request.is_finished

/-- A call of one of the functions that the engines get when they are made. -/
inductive Callback
  | engine_on_new_step_output (request_id : RequestId) (step_output : StepOutput)
  | engine_on_new_lifetime_event (request_id : RequestId) (event_type : LifetimeEventType)
      (dont_add_if_dup : Bool)
  | clear_migrated_blocks (migrated_request : MigratingRequest)
deriving DecidableEq

/-- `tokenizer.decode`. It gives `none` when it raises. -/
abbrev Tokenizer := TokenId → Option String

/-- The loop that decodes the tokens of a step. A token that does not decode is `""`. -/
def Tokenizer.decode_tokens (decode : Tokenizer) (token_ids : List TokenId) : List String :=
  token_ids.map fun token_id => (decode token_id).getD ""

/-- The outputs of a step, one for each request of the batch. `zip` stops at the
shortest list. -/
def step_outputs : List Request → List String → List TokenId → List StepOutput
  | request :: requests, new_token :: tokens, new_token_id :: ids =>
    StepOutput.create request new_token new_token_id :: step_outputs requests tokens ids
  | _, _, _ => []

end distserve
