-- The calls of `generate` with any ids (engine.py). A call may have the id of an earlier one, or
-- one that the counter gave. It then takes over the queue and the entry of `_prompt_len_map`. The
-- engines are left open here: they give any outputs for the added requests, at any time.
import RecomputeOrMigrate.PromptLengths

open calls runs

namespace distserve

/-! ## The calls -/

/-- Where the coroutine of a call is. -/
inductive CallGenerator
  | not_started
  /-- At the next output of the queue that this call made. -/
  | waiting (queue : Nat)
  /-- It yielded this output to its consumer. -/
  | suspended (step_output : StepOutput)
  /-- It yielded the last output, deleted the queue of its id and removed the entry. -/
  | returned
  /-- The consumer cancelled or closed it. -/
  | closed
  /-- There was no queue under its id. -/
  | raised
deriving DecidableEq

/-- The parts of `LLMEngine` that `generate` uses, with numbered calls. A queue has the number of
the call that made it. The list `outputs` is not in the source: it remembers what the engines gave
for the request of each call. -/
structure LLMCalls where
  request_counter : Nat
  calls : List LLMEngine.Generated
  request_outputs : RequestId → Option Nat
  queues : Nat → List StepOutput
  prompt_len_map : Option RequestId → Option Nat
  generators : Nat → CallGenerator
  outputs : Nat → List StepOutput

namespace LLMCalls

def create : LLMCalls where
  request_counter := 0
  calls := []
  request_outputs := fun _ => none
  queues := fun _ => []
  prompt_len_map := fun _ => none
  generators := fun _ => .not_started
  outputs := fun _ => []

/-- The part of `generate` before the loop. Its new queue and its entry replace those of the same
id. -/
def start_request (tokenizer : PromptTokenizer) (s : LLMCalls) (args : GenerateArgs)
    (req : Request) : LLMCalls :=
  { s with
    calls := s.calls ++ [⟨args, req⟩]
    request_outputs := Function.update s.request_outputs req.request_id (some s.calls.length)
    queues := Function.update s.queues s.calls.length []
    prompt_len_map := Function.update s.prompt_len_map args.request_id
      (some (args.prompt_len_value tokenizer))
    generators := Function.update s.generators s.calls.length (.waiting s.calls.length) }

/-- The engines give an output for the request of a call, and it goes to the queue that its id has
now. Without a queue the callback raises in the engine. -/
def on_new_step_output_callback (s : LLMCalls) (call : Nat) (request_id : RequestId)
    (step_output : StepOutput) : LLMCalls :=
  let s := { s with
    outputs := Function.update s.outputs call (s.outputs call ++ [step_output]) }
  match s.request_outputs request_id with
  | none => s
  | some queue => { s with
      queues := Function.update s.queues queue (s.queues queue ++ [step_output]) }

/-- The generator takes the first output of the queue that it waits for. -/
def get_output (s : LLMCalls) (call : Nat) : Option LLMCalls :=
  match s.generators call with
  | .waiting queue =>
    match s.queues queue with
    | [] => none
    | step_output :: rest => some { s with
        queues := Function.update s.queues queue rest
        generators := Function.update s.generators call (.suspended step_output) }
  | _ => none

/-- The consumer wants more after this output. The queue is looked up under the id again. -/
def resume (s : LLMCalls) (call : Nat) (request_id : RequestId) (step_output : StepOutput) :
    LLMCalls :=
  match s.request_outputs request_id with
  | none => { s with generators := Function.update s.generators call .raised }
  | some queue =>
    if step_output.is_finished then { s with
      request_outputs := Function.update s.request_outputs request_id none
      prompt_len_map := Function.update s.prompt_len_map (some request_id) none
      generators := Function.update s.generators call .returned }
    else { s with generators := Function.update s.generators call (.waiting queue) }

inductive Action
  | generate (args : GenerateArgs)
  | output (call : Nat) (step_output : StepOutput)
  | get_output (call : Nat)
  | resume (call : Nat)
  | close (call : Nat)

/-- One action. The exception of `create_request` goes to the consumer. -/
def step (tokenizer : PromptTokenizer) : Machine PyError LLMCalls Action := fun s a =>
  match a with
  | .generate args =>
    match create_request tokenizer args s.request_counter with
    | .error _ request_counter => some (.ok { s with request_counter })
    | .ok req request_counter =>
      some (.ok ({ s with request_counter }.start_request tokenizer args req))
  | .output call step_output =>
    s.calls[call]?.map fun c =>
      .ok (s.on_new_step_output_callback call c.req.request_id step_output)
  | .get_output call => (s.get_output call).map .ok
  | .resume call =>
    match s.generators call, s.calls[call]? with
    | .suspended step_output, some c => some (.ok (s.resume call c.req.request_id step_output))
    | _, _ => none
  | .close call =>
    match s.generators call with
    | .waiting _ | .suspended _ =>
      some (.ok { s with generators := Function.update s.generators call .closed })
    | _ => none

/-! ## What a decision finds -/

/-- An output told that the request of the call is finished. -/
def Finished (s : LLMCalls) (call : Nat) : Prop := ∃ o ∈ s.outputs call, o.is_finished = true

/-- Each decision for an unfinished request computes with the length of its prompt, and a
finished request has no entry. -/
structure OwnLengths (s : LLMCalls) : Prop where
  decisions : ∀ call c, s.calls[call]? = some c → ¬ s.Finished call →
    ∀ rom_config get_bandwidth override d, get_rom_decision rom_config s.prompt_len_map
      get_bandwidth c.req.request_id override = .ok d → d.2.1 = c.req.prompt_token_ids.length
  removed : ∀ call c, s.calls[call]? = some c → s.Finished call →
    s.prompt_len_map (some c.req.request_id) = none

/-- A call that added its request, or a generator that ran to its end. -/
inductive Event
  | called (call : LLMEngine.Generated)
  | returned (req : Request)

/-- The call was given this id, or the generator that returned has a request with it. -/
def Event.concerns (request_id : RequestId) : Event → Bool
  | .called call => decide (call.args.request_id = some request_id)
  | .returned req => decide (req.request_id = request_id)

def latest (request_id : RequestId) (events : List Event) : Option Event :=
  (events.filter (Event.concerns request_id)).getLast?

/-- The decisions for this request find its prompt length: the latest call with its id had this
length, and no generator of the id returned since, or nothing is found and the prompt is empty. -/
def FindsLength (tokenizer : PromptTokenizer) (events : List Event) (req : Request) : Prop :=
  match latest req.request_id events with
  | some (.called call) => call.args.prompt_len_value tokenizer = req.prompt_token_ids.length
  | _ => req.prompt_token_ids = []

/-- After each call with the id of this request, a generator of the id returned. -/
def Cleared (events : List Event) (req : Request) : Prop :=
  ∀ call, latest req.request_id events ≠ some (.called call)

/-- The events after an action. -/
def noteEvent (tokenizer : PromptTokenizer) (s : LLMCalls) (a : Action) (events : List Event) :
    List Event :=
  match a with
  | .generate args =>
    match create_request tokenizer args s.request_counter with
    | .ok req _ => events ++ [.called ⟨args, req⟩]
    | .error _ _ => events
  | .resume call =>
    match s.generators call, s.calls[call]? with
    | .suspended step_output, some c =>
      if step_output.is_finished ∧ s.request_outputs c.req.request_id ≠ none then
        events ++ [.returned c.req]
      else events
    | _, _ => events
  | _ => events

/-- The calls with their events so far. -/
def stepNoted (tokenizer : PromptTokenizer) : Machine PyError (LLMCalls × List Event) Action :=
  beside (step tokenizer) (noteEvent tokenizer)

variable {tokenizer : PromptTokenizer} {s s' : LLMCalls} {events : List Event}
  {request_id : RequestId} {e : Event}

/-! ## The entries of the map -/

theorem latest_append_of_concerns (h : e.concerns request_id = true) :
    latest request_id (events ++ [e]) = some e := by
  unfold latest
  rw [List.filter_append, List.filter_singleton, h]
  exact List.getLast?_concat

theorem latest_append_of_not (h : e.concerns request_id = false) :
    latest request_id (events ++ [e]) = latest request_id events := by
  unfold latest
  rw [List.filter_append, List.filter_singleton, h]
  simp

/-- The entry that the latest event of an id left. -/
def entry (tokenizer : PromptTokenizer) : Option Event → Option Nat
  | some (.called call) => some (call.args.prompt_len_value tokenizer)
  | _ => none

/-- The latest event of an id decides its entry. -/
def Entries (tokenizer : PromptTokenizer) (s : LLMCalls) (events : List Event) : Prop :=
  ∀ request_id, s.prompt_len_map (some request_id) = entry tokenizer (latest request_id events)

theorem entries_create (tokenizer : PromptTokenizer) : Entries tokenizer create [] := fun _ => rfl

theorem Entries.congr (h : Entries tokenizer s events)
    (hmap : s'.prompt_len_map = s.prompt_len_map) : Entries tokenizer s' events := by
  intro request_id
  rw [hmap]
  exact h request_id

theorem Entries.called (h : Entries tokenizer s events) {args : GenerateArgs} {req : Request}
    (hmap : s'.prompt_len_map = Function.update s.prompt_len_map args.request_id
      (some (args.prompt_len_value tokenizer))) :
    Entries tokenizer s' (events ++ [.called ⟨args, req⟩]) := by
  intro request_id
  rw [hmap]
  by_cases hid : args.request_id = some request_id
  · have hconcerns : (Event.called ⟨args, req⟩).concerns request_id = true := decide_eq_true hid
    rw [latest_append_of_concerns hconcerns, ← hid, Function.update_self]
    rfl
  · have hconcerns : (Event.called ⟨args, req⟩).concerns request_id = false := decide_eq_false hid
    rw [latest_append_of_not hconcerns, Function.update_of_ne (Ne.symm hid)]
    exact h request_id

theorem Entries.returned (h : Entries tokenizer s events) {req : Request}
    (hmap : s'.prompt_len_map = Function.update s.prompt_len_map (some req.request_id) none) :
    Entries tokenizer s' (events ++ [.returned req]) := by
  intro request_id
  rw [hmap]
  by_cases hid : req.request_id = request_id
  · have hconcerns : (Event.returned req).concerns request_id = true := decide_eq_true hid
    rw [latest_append_of_concerns hconcerns, hid, Function.update_self]
    rfl
  · have hconcerns : (Event.returned req).concerns request_id = false := decide_eq_false hid
    rw [latest_append_of_not hconcerns,
      Function.update_of_ne fun hc => hid (Option.some.inj hc).symm]
    exact h request_id

/-- Each action keeps the entries. -/
theorem Entries.step (h : Entries tokenizer s events) {a : Action}
    (hx : LLMCalls.step tokenizer s a = some (.ok s')) :
    Entries tokenizer s' (noteEvent tokenizer s a events) := by
  cases a with
  | generate args =>
    simp only [LLMCalls.step] at hx
    simp only [noteEvent]
    cases hcreate : create_request tokenizer args s.request_counter with
    | error err request_counter =>
      rw [hcreate] at hx
      cases hx
      exact h.congr rfl
    | ok req request_counter =>
      rw [hcreate] at hx
      cases hx
      exact h.called rfl
  | output call step_output =>
    obtain ⟨c, -, hx⟩ := Option.map_eq_some_iff.mp hx
    cases hx
    refine h.congr ?_
    unfold on_new_step_output_callback
    dsimp only
    split <;> rfl
  | get_output call =>
    obtain ⟨t, ht, hx⟩ := Option.map_eq_some_iff.mp hx
    cases hx
    refine h.congr ?_
    unfold LLMCalls.get_output at ht
    split at ht
    · split at ht <;> cases ht
      rfl
    · cases ht
  | resume call =>
    simp only [LLMCalls.step] at hx
    simp only [noteEvent]
    split at hx
    · next step_output c hg hc =>
      cases hx
      unfold LLMCalls.resume
      cases hqueue : s.request_outputs c.req.request_id with
      | none =>
        rw [if_neg (by simp)]
        exact h.congr rfl
      | some queue =>
        by_cases hfinished : step_output.is_finished = true
        · rw [if_pos ⟨hfinished, by simp⟩]
          dsimp only
          rw [if_pos hfinished]
          exact h.returned rfl
        · rw [if_neg fun hc => hfinished hc.1]
          dsimp only
          rw [if_neg hfinished]
          exact h.congr rfl
    · cases hx
  | close call =>
    simp only [LLMCalls.step] at hx
    split at hx <;> cases hx <;> exact h.congr rfl

theorem stepNoted_sound (tokenizer : PromptTokenizer) :
    Sound (stepNoted tokenizer) (fun s => Entries tokenizer s.1 s.2) fun _ => True := by
  rintro ⟨s, events⟩ a x h hx
  cases x with
  | error err => trivial
  | ok s' =>
    obtain ⟨s', events'⟩ := s'
    obtain ⟨hstep, rfl⟩ := beside_eq_ok.mp hx
    exact Entries.step h hstep

/-! ## Every run -/

theorem Entries.finds_iff (h : Entries tokenizer s events) {req : Request} :
    FindsLength tokenizer events req ↔
      (s.prompt_len_map (some req.request_id)).getD 0 = req.prompt_token_ids.length := by
  rw [h req.request_id]
  unfold FindsLength
  cases hlatest : latest req.request_id events with
  | none => exact List.length_eq_zero_iff.symm.trans eq_comm
  | some e =>
    cases e with
    | called call => exact Iff.rfl
    | returned req' => exact List.length_eq_zero_iff.symm.trans eq_comm

theorem Entries.cleared_iff (h : Entries tokenizer s events) {req : Request} :
    Cleared events req ↔ s.prompt_len_map (some req.request_id) = none := by
  rw [h req.request_id]
  unfold Cleared
  cases hlatest : latest req.request_id events with
  | none => simp [entry]
  | some e => cases e <;> simp [entry]

/-- In every state of every run with any ids, the decisions for the unfinished requests compute
with their own lengths and the finished requests have no entry, just when the latest call with the
id of each unfinished request had its length, and the id of each finished request was cleared. -/
theorem own_lengths_for_any_ids_iff (tokenizer : PromptTokenizer) (s : LLMCalls)
    (events : List Event) (h : Reaches (stepNoted tokenizer) (create, []) (s, events)) :
    OwnLengths s ↔ ∀ call c, s.calls[call]? = some c →
      (¬ s.Finished call → FindsLength tokenizer events c.req) ∧
        (s.Finished call → Cleared events c.req) := by
  have hentries : Entries tokenizer s events :=
    (stepNoted_sound tokenizer).invariant (entries_create tokenizer) h
  constructor
  · intro hown call c hc
    constructor
    · intro hf
      obtain ⟨d, hd⟩ := decides_with_one_length s.prompt_len_map (.ok 0) c.req.request_id
      rw [hentries.finds_iff, ← get_rom_decision_prompt_len hd]
      exact hown.decisions call c hc hf _ _ _ d hd
    · intro hf
      exact hentries.cleared_iff.mpr (hown.removed call c hc hf)
  · intro hall
    constructor
    · intro call c hc hf rom_config get_bandwidth override d hd
      rw [get_rom_decision_prompt_len hd]
      exact hentries.finds_iff.mp ((hall call c hc).1 hf)
    · intro call c hc hf
      exact hentries.cleared_iff.mp ((hall call c hc).2 hf)

/-- The arguments for a prompt of one token. -/
def oneToken (request_id : Option RequestId) : GenerateArgs :=
  ⟨none, none, some [1], ⟨[], false, 1, Nat.one_pos⟩, request_id⟩

/-- The last output of request 7. -/
def lastOutput : StepOutput :=
  ⟨.create 7 [1, 2, 3] ⟨[], false, 1, Nat.one_pos⟩, 7, "", 4, true⟩

/-- The engines finished the requests of both calls, and the latest event of id 7 cleared it. -/
def finished_and_cleared (s : LLMCalls × List Event) : Bool :=
  s.1.calls.map (·.req.request_id) == [7, 7] &&
    (List.range 2).all (fun call => (s.1.outputs call).any (·.is_finished)) &&
      match latest 7 s.2 with
      | some (.returned _) => true
      | _ => false

/-- Two calls have the id 7. The generator of the second one takes the last output of the first
one and clears the id, and the queue of the first call stays empty. -/
theorem two_calls_with_one_id_are_cleared : ∃ s : LLMCalls,
    s.calls.map (·.req.request_id) = [7, 7] ∧ s.generators 1 = .returned ∧ OwnLengths s := by
  obtain ⟨⟨s, events⟩, hr, hs⟩ := reaches_of_any (m := stepNoted LLMEngine.noTokenizer)
    (s := (create, []))
    [.generate (LLMEngine.threeTokens (some 7)), .generate (LLMEngine.threeTokens (some 7)),
      .output 0 lastOutput, .output 1 lastOutput, .get_output 1, .resume 1]
    (fun s => decide (s.1.generators 1 = .returned) && finished_and_cleared s) (by decide +kernel)
  obtain ⟨hreturned, hs⟩ := Bool.and_eq_true_iff.mp hs
  obtain ⟨hs, hlatest⟩ := Bool.and_eq_true_iff.mp hs
  obtain ⟨hids, hfinished⟩ := Bool.and_eq_true_iff.mp hs
  have hids : s.calls.map (·.req.request_id) = [7, 7] := beq_iff_eq.mp hids
  refine ⟨s, hids, of_decide_eq_true hreturned,
    (own_lengths_for_any_ids_iff LLMEngine.noTokenizer s events hr).mpr fun call c hc => ?_⟩
  have hid : c.req.request_id = 7 := by
    have hmem : c.req.request_id ∈ [7, 7] := hids ▸ List.mem_map_of_mem (List.mem_of_getElem? hc)
    simpa using hmem
  have hcall : call < 2 := by
    have hlen : s.calls.length = 2 := by simpa using congrArg List.length hids
    exact hlen ▸ (List.getElem?_eq_some_iff.mp hc).1
  obtain ⟨o, ho, hlast⟩ :=
    List.any_eq_true.mp (List.all_eq_true.mp hfinished call (List.mem_range.mpr hcall))
  refine ⟨fun hf => absurd ⟨o, ho, hlast⟩ hf, fun _ called hcalled => ?_⟩
  rw [hid] at hcalled
  rw [show latest 7 events = _ from hcalled] at hlatest
  cases hlatest

/-- A decision for an unfinished request of this length finds another one. -/
theorem not_ownLengths {call : Nat} {c : LLMEngine.Generated} (hc : s.calls[call]? = some c)
    (hout : s.outputs call = [])
    (hlen : (s.prompt_len_map (some c.req.request_id)).getD 0 ≠ c.req.prompt_token_ids.length) :
    ¬ OwnLengths s := by
  intro hown
  obtain ⟨d, hd⟩ := decides_with_one_length s.prompt_len_map (.ok 0) c.req.request_id
  apply hlen
  rw [← get_rom_decision_prompt_len hd]
  exact hown.decisions call c hc (by simp [Finished, hout]) _ _ _ d hd

/-- The first call added a request without output that finds another length. -/
def finds_another_length (s : LLMCalls) : Bool :=
  s.outputs 0 == [] && s.calls[0]?.any fun c =>
    decide ((s.prompt_len_map (some c.req.request_id)).getD 0 ≠ c.req.prompt_token_ids.length)

theorem not_ownLengths_of_test (h : finds_another_length s = true) : ¬ OwnLengths s := by
  obtain ⟨hout, h⟩ := Bool.and_eq_true_iff.mp h
  obtain ⟨c, hc, hlen⟩ := (Option.any_eq_true _ _).mp h
  exact not_ownLengths hc (beq_iff_eq.mp hout) (of_decide_eq_true hlen)

/-- Request 0 got its id from the counter. Its length is under `None`, and a decision for it
computes with 0. After a call with the explicit id 0, it computes with the length of that call. -/
theorem a_request_without_an_id_finds_another_length : ∃ s s' : LLMCalls,
    Reaches (step LLMEngine.noTokenizer) create s ∧ s.calls.length = 1 ∧ ¬ OwnLengths s ∧
      Reaches (step LLMEngine.noTokenizer) s s' ∧
        s'.calls.map (·.args.request_id) = [none, some 0] ∧ ¬ OwnLengths s' := by
  obtain ⟨s, hr, hs⟩ := reaches_of_any (m := step LLMEngine.noTokenizer) (s := create)
    [.generate (LLMEngine.threeTokens none)]
    (fun s => decide (s.calls.length = 1) && finds_another_length s &&
      (runAll (step LLMEngine.noTokenizer) s [.generate (oneToken (some 0))]).any fun s' =>
        s'.calls.map (·.args.request_id) == [none, some 0] && finds_another_length s')
    (by decide +kernel)
  obtain ⟨hs, hrun⟩ := Bool.and_eq_true_iff.mp hs
  obtain ⟨hlen, hother⟩ := Bool.and_eq_true_iff.mp hs
  obtain ⟨s', hr', hs'⟩ := reaches_of_any _ _ hrun
  obtain ⟨hids, hother'⟩ := Bool.and_eq_true_iff.mp hs'
  exact ⟨s, s', hr, of_decide_eq_true hlen, not_ownLengths_of_test hother, hr', beq_iff_eq.mp hids,
    not_ownLengths_of_test hother'⟩

end LLMCalls

end distserve
