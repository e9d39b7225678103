-- The worker of one GPU (worker.py): the table of swap events, and what a worker
-- issues to its streams for each call that it gets.
import Mathlib.Data.List.Induction
import RecomputeOrMigrate.General.Dicts
import RecomputeOrMigrate.General.Streams
import RecomputeOrMigrate.BlockManager

open dicts streams

namespace distserve

/-- The current stream runs the model, and two streams swap. -/
inductive CudaStream
  | current_stream
  | swap_in_stream
  | swap_out_stream
deriving DecidableEq

/-- The asynchronous work that the call with this number issues. -/
inductive CudaWork
  /-- The copies of `swapping_ops.swap`. -/
  | copies (call : Nat)
  /-- `model.forward`. -/
  | forward (call : Nat)
deriving DecidableEq

def CudaWork.call : CudaWork → Nat
  | .copies call => call
  | .forward call => call

/-- `ParaWorker` as far as it synchronizes, for any keys of `swap_event_table`. An event has
the number of the call that records it. The list `issued` holds all that the worker issued,
the oldest first. -/
structure ParaWorker (κ : Type) where
  swap_event_table : Dict κ Nat
  latest_swap_in_event : Option Nat
  latest_swap_out_event : Option Nat
  num_calls : Nat
  issued : List (Op CudaStream CudaWork)

/-- A call of a method. -/
inductive WorkerCall (κ : Type)
  | swap_blocks (request_ids : List κ) (source_block_ids target_block_ids : List Nat)
      (is_swap_in : Bool)
  | step (request_ids : List κ)
  | clear_request_resource (request_id : κ)
  | clear_request_resource_batched (request_ids : List κ)
  | wait_for_all_swap_in
  | wait_for_all_swap_out
  /-- A method that does not touch the swap events. -/
  | migrate_blocks

/-- The call swaps the blocks of the request. -/
def WorkerCall.Swaps {κ : Type} (request_id : κ) : WorkerCall κ → Prop
  | .swap_blocks request_ids _ _ _ => request_id ∈ request_ids
  | _ => False

/-- The call is a step or a clear of the request. -/
def WorkerCall.Ends {κ : Type} (request_id : κ) : WorkerCall κ → Prop
  | .step request_ids => request_id ∈ request_ids
  | .clear_request_resource r => request_id = r
  | .clear_request_resource_batched request_ids => request_id ∈ request_ids
  | _ => False

namespace ParaWorker

variable {κ : Type} [DecidableEq κ]

/-- `__init__`. -/
def create : ParaWorker κ := ⟨.empty, none, none, 0, []⟩

def issue (w : ParaWorker κ) (op : Op CudaStream CudaWork) : ParaWorker κ :=
  { w with issued := w.issued ++ [op] }

/-- The stream of `swap_blocks`. -/
def swap_stream (is_swap_in : Bool) : CudaStream :=
  if is_swap_in then .swap_in_stream else .swap_out_stream

/-- A turn of the loop of `swap_blocks`: a swap of this request that was issued before is
waited for. -/
def save_event (event : Nat) (stream : CudaStream) (w : ParaWorker κ) (request_id : κ) :
    ParaWorker κ :=
  let w := match w.swap_event_table.get? request_id with
    | some before => w.issue (.wait before stream)
    | none => w
  { w with swap_event_table := w.swap_event_table.set request_id event }

/-- The event is recorded before the copies are issued. -/
def swap_blocks (w : ParaWorker κ) (request_ids : List κ) (is_swap_in : Bool) : ParaWorker κ :=
  let stream := swap_stream is_swap_in
  let event := w.num_calls
  let w := w.issue (.record event stream)
  let w := request_ids.foldl (save_event event stream) w
  let w := if is_swap_in then { w with latest_swap_in_event := some event }
    else { w with latest_swap_out_event := some event }
  w.issue (.work (.copies w.num_calls) stream)

/-- A turn of the loop of `step`. -/
def wait_for_swap (w : ParaWorker κ) (request_id : κ) : ParaWorker κ :=
  match w.swap_event_table.get? request_id with
  | some event =>
    let w := w.issue (.wait event .current_stream)
    { w with swap_event_table := w.swap_event_table.pop request_id }
  | none => w

def step (w : ParaWorker κ) (request_ids : List κ) : ParaWorker κ :=
  (request_ids.foldl wait_for_swap w).issue (.work (.forward w.num_calls) .current_stream)

def clear_request_resource (w : ParaWorker κ) (request_id : κ) : ParaWorker κ :=
  { w with swap_event_table := w.swap_event_table.pop request_id }

def clear_request_resource_batched (w : ParaWorker κ) (request_ids : List κ) : ParaWorker κ :=
  request_ids.foldl clear_request_resource w

def wait_for_all_swap_in (w : ParaWorker κ) : ParaWorker κ :=
  match w.latest_swap_in_event with
  | some event => { w.issue (.synchronize event) with latest_swap_in_event := none }
  | none => w

def wait_for_all_swap_out (w : ParaWorker κ) : ParaWorker κ :=
  match w.latest_swap_out_event with
  | some event => { w.issue (.synchronize event) with latest_swap_out_event := none }
  | none => w

def method (w : ParaWorker κ) : WorkerCall κ → ParaWorker κ
  | .swap_blocks request_ids _ _ is_swap_in => w.swap_blocks request_ids is_swap_in
  | .step request_ids => w.step request_ids
  | .clear_request_resource request_id => w.clear_request_resource request_id
  | .clear_request_resource_batched request_ids => w.clear_request_resource_batched request_ids
  | .wait_for_all_swap_in => w.wait_for_all_swap_in
  | .wait_for_all_swap_out => w.wait_for_all_swap_out
  | .migrate_blocks => w

/-- The worker does one call after the other. -/
def receive (w : ParaWorker κ) (c : WorkerCall κ) : ParaWorker κ :=
  { w.method c with num_calls := w.num_calls + 1 }

def after (heard : List (WorkerCall κ)) : ParaWorker κ := heard.foldl receive create

/-! ## What a call does to the table -/

variable {w : ParaWorker κ} {request_ids : List κ} {k : κ} {event : Nat} {stream : CudaStream}

theorem get?_save_event (r : κ) : (save_event event stream w r).swap_event_table.get? k =
    if k = r then some event else w.swap_event_table.get? k := by
  unfold save_event
  cases hr : w.swap_event_table.get? r <;> exact Dict.get?_set ..

theorem get?_wait_for_swap (r : κ) : (wait_for_swap w r).swap_event_table.get? k =
    if k = r then none else w.swap_event_table.get? k := by
  unfold wait_for_swap
  cases hr : w.swap_event_table.get? r with
  | some before => exact Dict.get?_pop ..
  | none =>
    by_cases hk : k = r
    · simp [hk, hr]
    · simp [hk]

theorem get?_save_events (request_ids : List κ) :
    (request_ids.foldl (save_event event stream) w).swap_event_table.get? k =
      if k ∈ request_ids then some event else w.swap_event_table.get? k := by
  induction request_ids generalizing w with
  | nil => rfl
  | cons r rest ih =>
    rw [List.foldl_cons, ih, get?_save_event]
    by_cases hk : k = r <;> simp [hk]

theorem get?_wait_for_swaps (request_ids : List κ) :
    (request_ids.foldl wait_for_swap w).swap_event_table.get? k =
      if k ∈ request_ids then none else w.swap_event_table.get? k := by
  induction request_ids generalizing w with
  | nil => rfl
  | cons r rest ih =>
    rw [List.foldl_cons, ih, get?_wait_for_swap]
    by_cases hk : k = r <;> simp [hk]

theorem get?_swap_blocks (request_ids : List κ) (is_swap_in : Bool) :
    (w.swap_blocks request_ids is_swap_in).swap_event_table.get? k =
      if k ∈ request_ids then some w.num_calls else w.swap_event_table.get? k := by
  unfold swap_blocks
  cases is_swap_in <;> exact get?_save_events request_ids

theorem get?_step (request_ids : List κ) : (w.step request_ids).swap_event_table.get? k =
    if k ∈ request_ids then none else w.swap_event_table.get? k := get?_wait_for_swaps request_ids

theorem get?_clear_request_resource_batched (request_ids : List κ) :
    (w.clear_request_resource_batched request_ids).swap_event_table.get? k =
      if k ∈ request_ids then none else w.swap_event_table.get? k := by
  unfold clear_request_resource_batched
  induction request_ids generalizing w with
  | nil => rfl
  | cons r rest ih =>
    rw [List.foldl_cons, ih, clear_request_resource, Dict.get?_pop]
    by_cases hk : k = r <;> simp [hk]

omit [DecidableEq κ] in
theorem wait_for_all_swap_in_table : w.wait_for_all_swap_in.swap_event_table =
    w.swap_event_table := by
  unfold wait_for_all_swap_in
  split <;> rfl

omit [DecidableEq κ] in
theorem wait_for_all_swap_out_table : w.wait_for_all_swap_out.swap_event_table =
    w.swap_event_table := by
  unfold wait_for_all_swap_out
  split <;> rfl

/-- Only a swap gives a key an entry, and only a step or a clear takes it. -/
theorem get?_receive (w : ParaWorker κ) (c : WorkerCall κ) (k : κ) :
    (c.Swaps k → (w.receive c).swap_event_table.get? k = some w.num_calls) ∧
      (c.Ends k → (w.receive c).swap_event_table.get? k = none) ∧
      (¬ c.Swaps k → ¬ c.Ends k →
        (w.receive c).swap_event_table.get? k = w.swap_event_table.get? k) := by
  cases c with
  | swap_blocks request_ids _ _ is_swap_in =>
    have h := get?_swap_blocks (w := w) (k := k) request_ids is_swap_in
    exact ⟨fun hs => h.trans (if_pos hs), False.elim, fun hs _ => h.trans (if_neg hs)⟩
  | step request_ids =>
    have h := get?_step (w := w) (k := k) request_ids
    exact ⟨False.elim, fun he => h.trans (if_pos he), fun _ he => h.trans (if_neg he)⟩
  | clear_request_resource r =>
    have h := Dict.get?_pop w.swap_event_table r k
    exact ⟨False.elim, fun he => h.trans (if_pos he), fun _ he => h.trans (if_neg he)⟩
  | clear_request_resource_batched request_ids =>
    have h := get?_clear_request_resource_batched (w := w) (k := k) request_ids
    exact ⟨False.elim, fun he => h.trans (if_pos he), fun _ he => h.trans (if_neg he)⟩
  | wait_for_all_swap_in =>
    exact ⟨False.elim, False.elim, fun _ _ => congrArg (·.get? k) wait_for_all_swap_in_table⟩
  | wait_for_all_swap_out =>
    exact ⟨False.elim, False.elim, fun _ _ => congrArg (·.get? k) wait_for_all_swap_out_table⟩
  | migrate_blocks => exact ⟨False.elim, False.elim, fun _ _ => rfl⟩

/-- The latest event of one direction. -/
def latest_swap_event (w : ParaWorker κ) (is_swap_in : Bool) : Option Nat :=
  if is_swap_in then w.latest_swap_in_event else w.latest_swap_out_event

/-- What each turn of a loop leaves alone is as before after the loop. -/
theorem foldl_keeps {α β γ : Type} (f : α → β) {g : α → γ → α}
    (h : ∀ a c, f (g a c) = f a) (cs : List γ) (a : α) : f (cs.foldl g a) = f a := by
  induction cs generalizing a with
  | nil => rfl
  | cons c rest ih => exact (ih _).trans (h a c)

theorem num_calls_save_event (w : ParaWorker κ) (r : κ) :
    (save_event event stream w r).num_calls = w.num_calls := by
  unfold save_event
  cases w.swap_event_table.get? r <;> rfl

theorem num_calls_wait_for_swap (w : ParaWorker κ) (r : κ) :
    (wait_for_swap w r).num_calls = w.num_calls := by
  unfold wait_for_swap
  cases w.swap_event_table.get? r <;> rfl

theorem latest_save_event (d : Bool) (w : ParaWorker κ) (r : κ) :
    (save_event event stream w r).latest_swap_event d = w.latest_swap_event d := by
  unfold save_event
  cases w.swap_event_table.get? r <;> rfl

theorem latest_wait_for_swap (d : Bool) (w : ParaWorker κ) (r : κ) :
    (wait_for_swap w r).latest_swap_event d = w.latest_swap_event d := by
  unfold wait_for_swap
  cases w.swap_event_table.get? r <;> rfl

theorem latest_swap_blocks (request_ids : List κ) (is_swap_in d : Bool) :
    (w.swap_blocks request_ids is_swap_in).latest_swap_event d =
      if d = is_swap_in then some w.num_calls else w.latest_swap_event d := by
  have h := foldl_keeps (·.latest_swap_event d) (latest_save_event d) request_ids
    (g := save_event w.num_calls (swap_stream is_swap_in))
    (w.issue (.record w.num_calls (swap_stream is_swap_in)))
  cases d <;> cases is_swap_in <;> first | rfl | exact h

/-- The latest event of a direction is the one of this call, or it was there before. -/
theorem latest_receive {c : WorkerCall κ} {d : Bool}
    (h : (w.receive c).latest_swap_event d = some event) :
    ((∃ request_ids source_block_ids target_block_ids,
        c = .swap_blocks request_ids source_block_ids target_block_ids d) ∧ event = w.num_calls) ∨
      w.latest_swap_event d = some event := by
  cases c with
  | swap_blocks request_ids src tgt is_swap_in =>
    have h' := (latest_swap_blocks request_ids is_swap_in d).symm.trans h
    split at h'
    · next hd =>
      subst hd
      exact Or.inl ⟨⟨request_ids, src, tgt, rfl⟩, (Option.some.inj h').symm⟩
    · exact Or.inr h'
  | step request_ids =>
    have hkeeps := foldl_keeps (·.latest_swap_event d) (latest_wait_for_swap d) request_ids w
    exact Or.inr (hkeeps.symm.trans h)
  | clear_request_resource_batched request_ids =>
    have hkeeps := foldl_keeps (·.latest_swap_event d) (fun _ _ => rfl) request_ids w
      (g := clear_request_resource)
    exact Or.inr (hkeeps.symm.trans h)
  | clear_request_resource r => exact Or.inr h
  | migrate_blocks => exact Or.inr h
  | wait_for_all_swap_in =>
    cases hl : w.latest_swap_in_event with
    | none => cases d <;> simp_all [receive, method, wait_for_all_swap_in, latest_swap_event]
    | some e =>
      cases d <;> simp_all [receive, method, wait_for_all_swap_in, latest_swap_event, issue]
  | wait_for_all_swap_out =>
    cases hl : w.latest_swap_out_event with
    | none => cases d <;> simp_all [receive, method, wait_for_all_swap_out, latest_swap_event]
    | some e =>
      cases d <;> simp_all [receive, method, wait_for_all_swap_out, latest_swap_event, issue]

theorem issued_save_events (event : Nat) (stream : CudaStream) (request_ids : List κ) :
    ∃ waits, (request_ids.foldl (save_event event stream) w).issued = w.issued ++ waits ∧
      ∀ op ∈ waits, ∃ before, op = .wait before stream ∧
        (before = event ∨ ∃ r ∈ request_ids, w.swap_event_table.get? r = some before) := by
  induction request_ids generalizing w with
  | nil => exact ⟨[], (List.append_nil _).symm, fun _ h => absurd h List.not_mem_nil⟩
  | cons r rest ih =>
    obtain ⟨waits, hissued, hwaits⟩ := ih (w := save_event event stream w r)
    -- a later request of the list may meet the new event again
    have hrest : ∀ op ∈ waits, ∃ before, op = .wait before stream ∧ (before = event ∨
        ∃ r' ∈ r :: rest, w.swap_event_table.get? r' = some before) := by
      intro op hop
      obtain ⟨before, rfl, hb⟩ := hwaits op hop
      refine ⟨before, rfl, ?_⟩
      rcases hb with hb | ⟨r', hr', hget⟩
      · exact Or.inl hb
      · rw [get?_save_event] at hget
        split at hget
        · exact Or.inl (Option.some.inj hget).symm
        · exact Or.inr ⟨r', List.mem_cons_of_mem r hr', hget⟩
    cases hr : w.swap_event_table.get? r with
    | none =>
      refine ⟨waits, ?_, hrest⟩
      rw [List.foldl_cons, hissued]
      unfold save_event
      rw [hr]
    | some before =>
      refine ⟨.wait before stream :: waits, ?_, fun op hop => ?_⟩
      · rw [List.foldl_cons, hissued]
        unfold save_event
        rw [hr]
        exact List.append_assoc w.issued [.wait before stream] waits
      · rcases List.mem_cons.mp hop with rfl | hop
        · exact ⟨before, rfl, Or.inr ⟨r, List.mem_cons_self, hr⟩⟩
        · exact hrest op hop

theorem issued_wait_for_swaps (request_ids : List κ) :
    ∃ waits, (request_ids.foldl wait_for_swap w).issued = w.issued ++ waits ∧
      ∀ op ∈ waits, ∃ before, op = .wait before .current_stream ∧
        ∃ r ∈ request_ids, w.swap_event_table.get? r = some before := by
  induction request_ids generalizing w with
  | nil => exact ⟨[], (List.append_nil _).symm, fun _ h => absurd h List.not_mem_nil⟩
  | cons r rest ih =>
    obtain ⟨waits, hissued, hwaits⟩ := ih (w := wait_for_swap w r)
    have hrest : ∀ op ∈ waits, ∃ before, op = .wait before .current_stream ∧
        ∃ r' ∈ r :: rest, w.swap_event_table.get? r' = some before := by
      intro op hop
      obtain ⟨before, rfl, r', hr', hget⟩ := hwaits op hop
      refine ⟨before, rfl, r', List.mem_cons_of_mem r hr', ?_⟩
      rw [get?_wait_for_swap] at hget
      split at hget
      · cases hget
      · exact hget
    cases hr : w.swap_event_table.get? r with
    | none =>
      refine ⟨waits, ?_, hrest⟩
      rw [List.foldl_cons, hissued]
      unfold wait_for_swap
      rw [hr]
    | some before =>
      refine ⟨.wait before .current_stream :: waits, ?_, fun op hop => ?_⟩
      · rw [List.foldl_cons, hissued]
        unfold wait_for_swap
        rw [hr]
        exact List.append_assoc w.issued [.wait before .current_stream] waits
      · rcases List.mem_cons.mp hop with rfl | hop
        · exact ⟨before, rfl, r, List.mem_cons_self, hr⟩
        · exact hrest op hop

/-- The record, the waits for the swaps before, and the copies. -/
theorem issued_swap_blocks (request_ids : List κ) (is_swap_in : Bool) :
    ∃ waits, (w.swap_blocks request_ids is_swap_in).issued = w.issued ++
        (.record w.num_calls (swap_stream is_swap_in) :: waits ++
          [.work (.copies w.num_calls) (swap_stream is_swap_in)]) ∧
      ∀ op ∈ waits, ∃ before, op = .wait before (swap_stream is_swap_in) ∧ (before = w.num_calls ∨
        ∃ r ∈ request_ids, w.swap_event_table.get? r = some before) := by
  obtain ⟨waits, hissued, hwaits⟩ := issued_save_events
    (w := w.issue (.record w.num_calls (swap_stream is_swap_in))) w.num_calls
    (swap_stream is_swap_in) request_ids
  refine ⟨waits, ?_, hwaits⟩
  set w' := request_ids.foldl (save_event w.num_calls (swap_stream is_swap_in))
    (w.issue (.record w.num_calls (swap_stream is_swap_in)))
  have hnum : w'.num_calls = w.num_calls :=
    foldl_keeps (fun w : ParaWorker κ => w.num_calls) num_calls_save_event request_ids _
  have hcopies : (w.swap_blocks request_ids is_swap_in).issued =
      w'.issued ++ [.work (.copies w'.num_calls) (swap_stream is_swap_in)] := by
    cases is_swap_in <;> rfl
  rw [hcopies, hissued, hnum]
  simp [issue]

/-- The waits for the swaps of the batch, and the forward. -/
theorem issued_step (request_ids : List κ) :
    ∃ waits, (w.step request_ids).issued =
        w.issued ++ (waits ++ [.work (.forward w.num_calls) .current_stream]) ∧
      ∀ op ∈ waits, ∃ before, op = .wait before .current_stream ∧
        ∃ r ∈ request_ids, w.swap_event_table.get? r = some before := by
  obtain ⟨waits, hissued, hwaits⟩ := issued_wait_for_swaps (w := w) request_ids
  refine ⟨waits, ?_, hwaits⟩
  have hnum : (request_ids.foldl wait_for_swap w).num_calls = w.num_calls :=
    foldl_keeps (·.num_calls) num_calls_wait_for_swap request_ids w
  unfold step
  unfold issue
  rw [hissued, hnum, List.append_assoc]

omit [DecidableEq κ] in
theorem issued_wait_for_all_swap_in : w.wait_for_all_swap_in.issued =
    w.issued ++ (w.latest_swap_in_event.map Op.synchronize).toList := by
  unfold wait_for_all_swap_in
  cases w.latest_swap_in_event with
  | none => exact (List.append_nil _).symm
  | some event => rfl

omit [DecidableEq κ] in
theorem issued_wait_for_all_swap_out : w.wait_for_all_swap_out.issued =
    w.issued ++ (w.latest_swap_out_event.map Op.synchronize).toList := by
  unfold wait_for_all_swap_out
  cases w.latest_swap_out_event with
  | none => exact (List.append_nil _).symm
  | some event => rfl

theorem after_append (heard : List (WorkerCall κ)) (c : WorkerCall κ) :
    after (heard ++ [c]) = (after heard).receive c := by
  unfold after
  rw [List.foldl_append]
  rfl

theorem after_num_calls (heard : List (WorkerCall κ)) : (after heard).num_calls = heard.length := by
  induction heard using List.reverseRecOn with
  | nil => rfl
  | append_singleton heard c ih =>
    rw [after_append, List.length_append, ← ih]
    rfl

end ParaWorker

end distserve
