-- What `_enter_prefill` takes out of the queue of a worker, and what it writes to the requests
-- that it takes.
import RecomputeOrMigrate.SimFrame

namespace simdistserve.Sim

variable {c : Cluster} {chunked : Bool} {i wid chunk_id n chunk_size max : Nat} {s : Sim}

/-! ## The log of a batch -/

/-- The log changes nothing that a chunk is made of. -/
structure SameChunks (s s' : Sim) : Prop where
  workers : s'.workers = s.workers
  queue : s'.queue = s.queue
  drawn : s'.drawn = s.drawn
  remain : ∀ i, (s'.requests i).remain_prefill_lens = (s.requests i).remain_prefill_lens
  current : ∀ i, (s'.requests i).current_prefill_lens = (s.requests i).current_prefill_lens
  chunk_id : ∀ i, (s'.requests i).chunk_id = (s.requests i).chunk_id

theorem SameChunks.refl : SameChunks s s :=
  ⟨rfl, rfl, rfl, fun _ => rfl, fun _ => rfl, fun _ => rfl⟩

theorem SameChunks.trans {s' s'' : Sim} (h : SameChunks s s') (h' : SameChunks s' s'') :
    SameChunks s s'' :=
  ⟨h'.workers.trans h.workers, h'.queue.trans h.queue, h'.drawn.trans h.drawn,
    fun i => (h'.remain i).trans (h.remain i), fun i => (h'.current i).trans (h.current i),
    fun i => (h'.chunk_id i).trans (h.chunk_id i)⟩

/-- A change of one request that keeps its chunk. -/
theorem sameChunks_modify_request {f : Request → Request}
    (hremain : (f (s.requests i)).remain_prefill_lens = (s.requests i).remain_prefill_lens)
    (hcurrent : (f (s.requests i)).current_prefill_lens = (s.requests i).current_prefill_lens)
    (hid : (f (s.requests i)).chunk_id = (s.requests i).chunk_id) :
    SameChunks s (s.modify_request i f) := by
  refine ⟨rfl, rfl, rfl, ?_, ?_, ?_⟩ <;>
    · intro j
      rw [modify_request_requests]
      by_cases hj : j = i
      · subst hj
        rw [Function.update_self]
        assumption
      · rw [Function.update_of_ne hj]

theorem log_event_chunk_id (r : Request) (now : ℚ) (event : RequestEvent) (wid : Option Int) :
    (r.log_event now event wid).chunk_id = r.chunk_id := by
  unfold Request.log_event
  split <;> rfl

/-- The loop over the result logs each request. -/
theorem sameChunks_log (result : List Nat) (s : Sim) (wid : Option Int) :
    SameChunks s
      (result.foldl (fun s i => s.modify_request i fun r => r.do_prefill s.now wid) s) := by
  induction result generalizing s with
  | nil => exact .refl
  | cons i result ih =>
    have hone : SameChunks s (s.modify_request i fun r => r.do_prefill s.now wid) :=
      sameChunks_modify_request (Request.log_event_remain ..) (Request.log_event_current ..)
        (log_event_chunk_id ..)
    exact hone.trans (ih _)

/-! ## A later worker -/

/-- A later worker takes the requests with this chunk id, up to the first that has another. -/
theorem take_chunk_eq (requests : Nat → Request) (id : Option Nat) (n : Nat) (queue : List Nat) :
    (take_chunk requests id n queue).1 =
      (queue.take n).takeWhile fun i => (requests i).chunk_id = id := by
  induction queue generalizing n with
  | nil => cases n <;> rfl
  | cons candidate queue ih =>
    cases n with
    | zero => rfl
    | succ n =>
      unfold take_chunk
      rw [List.take_succ_cons, List.takeWhile_cons]
      split
      · next h => simp [h]
      · next h =>
        rw [not_not] at h
        simp [h, ih n]

/-! ## The first worker -/

/-- What the loop of the first worker has done with the requests that it takes. -/
structure CutsChunks (wid chunk_id n : Nat) (s : Sim) (result : List Nat) (s' : Sim) : Prop where
  queue_eq : (s.workers wid).prefill_queue = result ++ (s'.workers wid).prefill_queue
  workers_eq : s'.workers =
    Function.update s.workers wid
      { s.workers wid with prefill_queue := (s'.workers wid).prefill_queue }
  events_eq : s'.queue = s.queue
  drawn_eq : s'.drawn = s.drawn
  length_le : result.length ≤ n
  other : ∀ i, i ∉ result → s'.requests i = s.requests i
  chunk_id_eq : ∀ i ∈ result, (s'.requests i).chunk_id = some chunk_id

theorem CutsChunks.nil : CutsChunks wid chunk_id n s [] s :=
  ⟨rfl, (Function.update_eq_self wid s.workers).symm, rfl, rfl, Nat.zero_le n, fun _ _ => rfl,
    by simp⟩

/-- The state after the first turn of the loop that takes the candidate. -/
def cut_one (s : Sim) (wid candidate : Nat) (queue : List Nat) (size chunk_id : Nat) : Sim :=
  (s.modify_request candidate fun r => r.cut_chunk size chunk_id).modify_worker wid
    fun w => { w with prefill_queue := queue }

theorem cut_one_queue (candidate : Nat) (queue : List Nat) (size : Nat) :
    ((s.cut_one wid candidate queue size chunk_id).workers wid).prefill_queue = queue := by
  unfold cut_one
  rw [modify_worker_workers, Function.update_self]

theorem cut_one_self (candidate : Nat) (queue : List Nat) (size : Nat) :
    (s.cut_one wid candidate queue size chunk_id).requests candidate =
      (s.requests candidate).cut_chunk size chunk_id := by
  unfold cut_one
  rw [modify_worker_requests, modify_request_requests, Function.update_self]

theorem cut_one_other {candidate : Nat} (queue : List Nat) (size : Nat) (hi : i ≠ candidate) :
    (s.cut_one wid candidate queue size chunk_id).requests i = s.requests i := by
  unfold cut_one
  rw [modify_worker_requests, modify_request_requests, Function.update_of_ne hi]

/-- One turn of the loop. -/
theorem cut_chunks_cons {candidate : Nat} {queue : List Nat}
    (hqueue : (s.workers wid).prefill_queue = candidate :: queue)
    (hfits : breaks chunked (sched_size chunked (s.requests candidate).remain_prefill_lens max
      chunk_size) max = false) :
    cut_chunks chunked wid chunk_id (n + 1) chunk_size max s =
      let size := sched_size chunked (s.requests candidate).remain_prefill_lens max chunk_size
      let rest := cut_chunks chunked wid chunk_id n (chunk_size + size) (max - size)
        (s.cut_one wid candidate queue size chunk_id)
      (candidate :: rest.1, rest.2) := by
  conv_lhs => unfold cut_chunks
  rw [hqueue]
  dsimp only
  rw [hfits, if_neg Bool.false_ne_true]
  rfl

theorem cut_chunks_breaks {candidate : Nat} {queue : List Nat}
    (hqueue : (s.workers wid).prefill_queue = candidate :: queue)
    (hbreaks : breaks chunked (sched_size chunked (s.requests candidate).remain_prefill_lens max
      chunk_size) max = true) :
    cut_chunks chunked wid chunk_id (n + 1) chunk_size max s = ([], s) := by
  unfold cut_chunks
  rw [hqueue]
  dsimp only
  rw [hbreaks, if_pos rfl]

theorem cut_chunks_empty (hqueue : (s.workers wid).prefill_queue = []) :
    cut_chunks chunked wid chunk_id n chunk_size max s = ([], s) := by
  cases n with
  | zero => rfl
  | succ n =>
    unfold cut_chunks
    rw [hqueue]

theorem CutsChunks.cons {candidate size : Nat} {queue result : List Nat} {s' : Sim}
    (hqueue : (s.workers wid).prefill_queue = candidate :: queue)
    (h : CutsChunks wid chunk_id n (s.cut_one wid candidate queue size chunk_id) result s') :
    CutsChunks wid chunk_id (n + 1) s (candidate :: result) s' where
  queue_eq := by
    rw [hqueue, List.cons_append, ← h.queue_eq, cut_one_queue]
  workers_eq := by
    rw [h.workers_eq]
    unfold cut_one
    rw [modify_worker_workers, Function.update_idem, Function.update_self, Function.update_self]
    rfl
  events_eq := h.events_eq
  drawn_eq := h.drawn_eq
  length_le := Nat.succ_le_succ h.length_le
  other i hi := by
    rw [List.mem_cons, not_or] at hi
    rw [h.other i hi.2, cut_one_other queue size hi.1]
  chunk_id_eq i hi := by
    by_cases hin : i ∈ result
    · exact h.chunk_id_eq i hin
    · obtain rfl := (List.mem_cons.mp hi).resolve_right hin
      rw [h.other i hin, cut_one_self]
      rfl

theorem cut_chunks_cuts (chunked : Bool) (wid chunk_id n chunk_size max : Nat) (s : Sim) :
    CutsChunks wid chunk_id n s (cut_chunks chunked wid chunk_id n chunk_size max s).1
      (cut_chunks chunked wid chunk_id n chunk_size max s).2 := by
  induction n generalizing chunk_size max s with
  | zero => exact .nil
  | succ n ih =>
    cases hqueue : (s.workers wid).prefill_queue with
    | nil =>
      rw [cut_chunks_empty hqueue]
      exact .nil
    | cons candidate queue =>
      cases hbreaks : breaks chunked (sched_size chunked
        (s.requests candidate).remain_prefill_lens max chunk_size) max with
      | true =>
        rw [cut_chunks_breaks hqueue hbreaks]
        exact .nil
      | false =>
        rw [cut_chunks_cons hqueue hbreaks]
        exact .cons hqueue (ih ..)

end simdistserve.Sim
