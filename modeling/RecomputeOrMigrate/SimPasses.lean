-- What one event of a run does to the prefill queues and to the batches that are prefilled, in
-- the order in which the requests stand there.
import RecomputeOrMigrate.SimChunks
import RecomputeOrMigrate.SimRuns
import RecomputeOrMigrate.SimStages

open calls

namespace simdistserve

/-- What a batch holds of a request. -/
structure Chunk where
  request : Nat
  current_prefill_lens : Nat
  chunk_id : Option Nat
deriving DecidableEq

namespace Sim

variable {c : Cluster} {workload : Workload} {s s' s'' s1 : Sim} {i v wid n : Nat}
  {items : List Nat} {e : Event} {rest : List Event}

def chunk (s : Sim) (i : Nat) : Chunk :=
  ⟨i, (s.requests i).current_prefill_lens, (s.requests i).chunk_id⟩

/-- The batch of a worker, when it prefills one. -/
def in_progress (s : Sim) (wid : Nat) : List (List Chunk) :=
  match (s.workers wid).status with
  | .prefilling prefill_items _ => [prefill_items.map s.chunk]
  | _ => []

/-! ## What leaves the prefills as they are -/

structure SameBatches (s s' : Sim) : Prop where
  prefill_queue : ∀ v, (s'.workers v).prefill_queue = (s.workers v).prefill_queue
  status : ∀ v, (s'.workers v).status = (s.workers v).status
  chunk : ∀ i, s'.chunk i = s.chunk i
  drawn : s'.drawn = s.drawn

theorem SameBatches.refl : SameBatches s s := ⟨fun _ => rfl, fun _ => rfl, fun _ => rfl, rfl⟩

theorem SameBatches.trans (h : SameBatches s s') (h' : SameBatches s' s'') :
    SameBatches s s'' :=
  ⟨fun v => (h'.prefill_queue v).trans (h.prefill_queue v),
    fun v => (h'.status v).trans (h.status v), fun i => (h'.chunk i).trans (h.chunk i),
    h'.drawn.trans h.drawn⟩

theorem SameChunks.same_batches (h : SameChunks s s') : SameBatches s s' := by
  refine ⟨fun v => by rw [h.workers], fun v => by rw [h.workers], ?_, h.drawn⟩
  intro i
  unfold Sim.chunk
  rw [h.current, h.chunk_id]

/-- The chunks of the other requests. -/
theorem modify_request_chunk {f : Request → Request} (h : v ≠ i) :
    (s.modify_request i f).chunk v = s.chunk v := by
  unfold chunk
  rw [modify_request_requests, Function.update_of_ne h]

theorem same_batches_modify_request {f : Request → Request}
    (hcurrent : (f (s.requests i)).current_prefill_lens = (s.requests i).current_prefill_lens)
    (hid : (f (s.requests i)).chunk_id = (s.requests i).chunk_id) :
    SameBatches s (s.modify_request i f) := by
  refine ⟨fun _ => rfl, fun _ => rfl, ?_, rfl⟩
  intro v
  by_cases hv : v = i
  · subst hv
    unfold chunk
    rw [modify_request_requests, Function.update_self, hcurrent, hid]
  · exact modify_request_chunk hv

theorem same_batches_log {now : ℚ} {event : RequestEvent} {next_wid : Option Int} :
    SameBatches s (s.modify_request i fun r => r.log_event now event next_wid) :=
  same_batches_modify_request (Request.log_event_current ..) (log_event_chunk_id ..)

theorem same_batches_modify_worker {g : WorkerState → WorkerState}
    (hqueue : (g (s.workers wid)).prefill_queue = (s.workers wid).prefill_queue)
    (hstatus : (g (s.workers wid)).status = (s.workers wid).status) :
    SameBatches s (s.modify_worker wid g) := by
  refine ⟨?_, ?_, fun _ => rfl, rfl⟩ <;>
    · intro v
      rw [modify_worker_workers]
      by_cases hv : v = wid
      · subst hv
        rw [Function.update_self]
        assumption
      · rw [Function.update_of_ne hv]

theorem same_batches_schedule {action : Action} {priority : Nat} {delay : ℚ} :
    SameBatches s (s.schedule action priority delay) :=
  ⟨fun _ => rfl, fun _ => rfl, fun _ => rfl, rfl⟩

theorem same_batches_wakeup (s : Sim) (wid : Nat) : SameBatches s (s.wakeup wid) :=
  same_batches_schedule.trans (same_batches_modify_worker rfl rfl)

theorem same_batches_push_decode : SameBatches s ((s.push_decode wid items).wakeup wid) :=
  .trans (same_batches_modify_worker rfl rfl) (same_batches_wakeup _ wid)

theorem same_batches_forward_decode : SameBatches s (s.forward_decode wid items) := by
  unfold forward_decode
  split
  · exact .refl
  · exact same_batches_push_decode

theorem finish_decode_current (r : Request) (now : ℚ) (last : Bool) (next_wid : Option Int) :
    (r.finish_decode now last next_wid).current_prefill_lens = r.current_prefill_lens := by
  unfold Request.finish_decode Request.wait_decode Request.exit_system
  dsimp only
  split <;> split <;> simp

theorem finish_decode_chunk_id (r : Request) (now : ℚ) (last : Bool) (next_wid : Option Int) :
    (r.finish_decode now last next_wid).chunk_id = r.chunk_id := by
  unfold Request.finish_decode Request.wait_decode Request.exit_system
  dsimp only
  split <;> split <;> simp [log_event_chunk_id]

theorem same_batches_schedule_decode (h : schedule_decode c s i = .ok s') :
    SameBatches s s' := by
  unfold schedule_decode at h
  split at h
  · split at h
    · cases h
      exact same_batches_modify_request (finish_decode_current ..) (finish_decode_chunk_id ..)
    · obtain ⟨head, -, h⟩ := bind_eq_ok.mp h
      cases h
      exact same_batches_log.trans same_batches_push_decode
  · cases h

/-- A loop over requests of which each turn keeps the chunk of its request. -/
theorem same_batches_foldl {f : Sim → Request → Request}
    (hcurrent : ∀ s r, (f s r).current_prefill_lens = r.current_prefill_lens)
    (hid : ∀ s r, (f s r).chunk_id = r.chunk_id) (items : List Nat) (s : Sim) :
    SameBatches s (items.foldl (fun s i => s.modify_request i (f s)) s) := by
  induction items generalizing s with
  | nil => exact .refl
  | cons i items ih =>
    have hone : SameBatches s (s.modify_request i (f s)) :=
      same_batches_modify_request (hcurrent s _) (hid s _)
    exact hone.trans (ih _)

theorem same_batches_exit_decode (c : Cluster) (wid : Nat) (items : List Nat) (s : Sim) :
    SameBatches s (exit_decode c wid items s) := by
  unfold exit_decode
  split
  · exact .refl
  · exact (same_batches_foldl (fun _ _ => finish_decode_current ..)
      (fun _ _ => finish_decode_chunk_id ..) items s).trans same_batches_forward_decode

theorem same_batches_enter_decodes (s : Sim) (wid remaining : Nat) :
    SameBatches s (enter_decodes s wid remaining).2 := by
  unfold enter_decodes
  exact .trans (same_batches_modify_worker rfl rfl) (same_batches_foldl
    (fun _ _ => Request.log_event_current ..) (fun _ _ => log_event_chunk_id ..) _ _)

/-- The items join the prefill queue of a worker at its end. -/
structure Joins (wid : Nat) (items : List Nat) (s s' : Sim) : Prop where
  self : (s'.workers wid).prefill_queue = (s.workers wid).prefill_queue ++ items
  other : ∀ v, v ≠ wid → (s'.workers v).prefill_queue = (s.workers v).prefill_queue
  status : ∀ v, (s'.workers v).status = (s.workers v).status
  chunk : ∀ i, s'.chunk i = s.chunk i
  drawn : s'.drawn = s.drawn

theorem joins_push_prefill (s : Sim) (wid : Nat) (items : List Nat) :
    Joins wid items s ((s.push_prefill wid items).wakeup wid) := by
  have hwoken := same_batches_wakeup (s.push_prefill wid items) wid
  refine ⟨?_, ?_, ?_, hwoken.chunk, hwoken.drawn⟩
  · rw [hwoken.prefill_queue]
    unfold push_prefill
    rw [modify_worker_workers, Function.update_self]
  · intro v hv
    rw [hwoken.prefill_queue]
    unfold push_prefill
    rw [modify_worker_workers, Function.update_of_ne hv]
  · intro v
    rw [hwoken.status]
    unfold push_prefill
    rw [modify_worker_workers]
    by_cases hv : v = wid
    · subst hv
      rw [Function.update_self]
    · rw [Function.update_of_ne hv]

/-! ## The end of a prefill -/

/-- What `_exit_prefill` does with the items of a batch. A worker that is not the last one passes
them on in their order. The last one resets what it says of their chunks. -/
structure Passes (c : Cluster) (wid : Nat) (items : List Nat) (s s' : Sim) : Prop where
  next : (c.worker wid).is_last_in_pipeline = false →
    (s'.workers (c.worker wid).next_worker).prefill_queue =
      (s.workers (c.worker wid).next_worker).prefill_queue ++ items
  other : ∀ v, v ≠ (c.worker wid).next_worker ∨ items = [] →
    (s'.workers v).prefill_queue = (s.workers v).prefill_queue
  status : ∀ v, (s'.workers v).status = (s.workers v).status
  chunk : ∀ i, (c.worker wid).is_last_in_pipeline = false ∨ i ∉ items → s'.chunk i = s.chunk i
  drawn : s'.drawn = s.drawn

theorem SameBatches.passes (h : SameBatches s s') (c : Cluster) (wid : Nat) :
    Passes c wid [] s s' :=
  ⟨fun _ => by rw [h.prefill_queue, List.append_nil], fun v _ => h.prefill_queue v, h.status,
    fun i _ => h.chunk i, h.drawn⟩

theorem Passes.append {items' : List Nat} (h : Passes c wid items s s')
    (h' : Passes c wid items' s' s'') : Passes c wid (items ++ items') s s'' := by
  refine ⟨?_, ?_, fun v => (h'.status v).trans (h.status v), ?_, h'.drawn.trans h.drawn⟩
  · intro hlast
    rw [h'.next hlast, h.next hlast, List.append_assoc]
  · intro v hv
    rw [List.append_eq_nil_iff] at hv
    rw [h'.other v (hv.imp_right fun hnil => hnil.2), h.other v (hv.imp_right fun hnil => hnil.1)]
  · intro i hi
    rw [List.mem_append, not_or] at hi
    rw [h'.chunk i (hi.imp_right fun hnot => hnot.2), h.chunk i (hi.imp_right fun hnot => hnot.1)]

/-- The request of one turn keeps its chunk when the worker is not the last one. -/
theorem after_prefill_chunk
    (hi : (c.worker wid).is_last_in_pipeline = false ∨ v ≠ i) :
    (s.modify_request i (c.after_prefill s.now wid)).chunk v = s.chunk v := by
  rcases hi with hlast | hv
  · unfold Cluster.after_prefill Request.finish_prefill
    rw [hlast]
    exact same_batches_log.chunk v
  · exact modify_request_chunk hv

theorem exit_prefill_item_passes (h : exit_prefill_item c wid i s = .ok s') :
    Passes c wid [i] s s' := by
  obtain ⟨s1, hs1⟩ : ∃ s1, s.modify_request i (c.after_prefill s.now wid) = s1 := ⟨_, rfl⟩
  have hworkers : s1.workers = s.workers := hs1 ▸ rfl
  have hdrawn : s1.drawn = s.drawn := hs1 ▸ rfl
  have hchunk : ∀ j, (c.worker wid).is_last_in_pipeline = false ∨ j ∉ [i] →
      s1.chunk j = s.chunk j := by
    intro j hj
    rw [← hs1]
    exact after_prefill_chunk (hj.imp_right List.ne_of_not_mem_cons)
  -- what the last worker does with the request afterwards does not touch the prefills
  have hends : c.prefills_on wid (c.after_prefill s.now wid (s.requests i)) = false →
      SameBatches s1 s' → Passes c wid [i] s s' := by
    intro hdone hsame
    have hlast := (after_prefill_done hdone).1
    refine ⟨fun hnot => ?_, ?_, ?_, ?_, hsame.drawn.trans hdrawn⟩
    · rw [hlast] at hnot
      cases hnot
    · intro v _
      rw [hsame.prefill_queue, hworkers]
    · intro v
      rw [hsame.status, hworkers]
    · intro j hj
      rw [hsame.chunk, hchunk j hj]
  rw [(exit_prefill_item_eq hs1).2] at h
  split at h
  · cases h
    have hjoins := joins_push_prefill s1 (c.worker wid).next_worker [i]
    refine ⟨fun _ => hworkers ▸ hjoins.self, ?_, ?_, ?_, hjoins.drawn.trans hdrawn⟩
    · intro v hv
      rw [← hworkers]
      exact hjoins.other v (hv.resolve_right (List.cons_ne_nil i []))
    · intro v
      rw [← hworkers]
      exact hjoins.status v
    · intro j hj
      exact (hjoins.chunk j).trans (hchunk j hj)
  · next hdone =>
    rw [Bool.not_eq_true] at hdone
    split at h
    · cases h
      exact hends hdone .refl
    · split at h
      · cases h
        exact hends hdone same_batches_forward_decode
      · exact hends hdone (same_batches_schedule_decode h)

theorem exit_prefill_passes (h : exit_prefill c wid items s = .ok s') :
    Passes c wid items s s' := by
  induction items generalizing s with
  | nil =>
    cases h
    exact SameBatches.refl.passes c wid
  | cons i items ih =>
    obtain ⟨s1, hitem, h⟩ := bind_eq_ok.mp h
    exact (exit_prefill_item_passes hitem).append (ih h)

/-! ## The start of an iteration -/

/-- The worker starts to wait or to compute, and the queues and the chunks stay. -/
structure SetsBatch (wid : Nat) (status : Status) (s s' : Sim) : Prop where
  prefill_queue : ∀ v, (s'.workers v).prefill_queue = (s.workers v).prefill_queue
  self : (s'.workers wid).status = status
  other : ∀ v, v ≠ wid → (s'.workers v).status = (s.workers v).status
  chunk : ∀ i, s'.chunk i = s.chunk i
  drawn : s'.drawn = s.drawn

theorem SameBatches.sets_batch {status : Status} (h : SameBatches s s1)
    (h' : SetsBatch wid status s1 s') : SetsBatch wid status s s' :=
  ⟨fun v => (h'.prefill_queue v).trans (h.prefill_queue v), h'.self,
    fun v hv => (h'.other v hv).trans (h.status v), fun i => (h'.chunk i).trans (h.chunk i),
    h'.drawn.trans h.drawn⟩

theorem sets_batch_modify_worker (wid : Nat) {g : WorkerState → WorkerState}
    (hqueue : (g (s.workers wid)).prefill_queue = (s.workers wid).prefill_queue) :
    SetsBatch wid (g (s.workers wid)).status s (s.modify_worker wid g) := by
  refine ⟨?_, ?_, ?_, fun _ => rfl, rfl⟩
  · intro v
    rw [modify_worker_workers]
    by_cases hv : v = wid
    · subst hv
      rw [Function.update_self, hqueue]
    · rw [Function.update_of_ne hv]
  · rw [modify_worker_workers, Function.update_self]
  · intro v hv
    rw [modify_worker_workers, Function.update_of_ne hv]

theorem timeout_sets_batch {g : WorkerState → WorkerState} {action : Action} {delay : ℚ}
    (hqueue : (g (s.workers wid)).prefill_queue = (s.workers wid).prefill_queue)
    (h : (s.modify_worker wid g).timeout action delay = .ok s') :
    SetsBatch wid (g (s.workers wid)).status s s' := by
  unfold timeout at h
  split at h
  · cases h
  · cases h
    have hsets := sets_batch_modify_worker wid (g := g) hqueue
    exact ⟨hsets.prefill_queue, hsets.self, hsets.other, hsets.chunk, hsets.drawn⟩

/-- The items leave the head of the queue of a worker. Only a first worker changes chunks. -/
structure Picks (c : Cluster) (wid : Nat) (items : List Nat) (s s' : Sim) : Prop where
  queue : (s.workers wid).prefill_queue = items ++ (s'.workers wid).prefill_queue
  other : ∀ v, v ≠ wid → (s'.workers v).prefill_queue = (s.workers v).prefill_queue
  status : ∀ v, (s'.workers v).status = (s.workers v).status
  chunk : ∀ i, ((c.worker wid).pipe_rank = 0 → i ∉ (s.workers wid).prefill_queue) →
    s'.chunk i = s.chunk i

theorem Picks.same_batches (h : Picks c wid items s s1) (h' : SameBatches s1 s') :
    Picks c wid items s s' :=
  ⟨by rw [h'.prefill_queue, h.queue], fun v hv => (h'.prefill_queue v).trans (h.other v hv),
    fun v => (h'.status v).trans (h.status v), fun i hi => (h'.chunk i).trans (h.chunk i hi)⟩

/-- What a worker has in its batch when its event is over. A worker that is not the first takes
the requests at the head of its queue that have one id, and the first one draws an id. -/
inductive Enters (c : Cluster) (wid : Nat) (s s' : Sim) : Prop
  | idle (batch : s'.in_progress wid = [])
      (queue : (s'.workers wid).prefill_queue = (s.workers wid).prefill_queue)
      (drawn : s'.drawn = s.drawn)
  | regroup {i : Nat} {items : List Nat} (later : (c.worker wid).pipe_rank ≠ 0)
      (head : (s.workers wid).prefill_queue.head? = some i)
      (items_eq : items = ((s.workers wid).prefill_queue.take (min c.config.max_prefill_batch
        (s.workers wid).prefill_queue.length)).takeWhile
          fun j => (s.requests j).chunk_id = (s.requests i).chunk_id)
      (batch : s'.in_progress wid = [items.map s'.chunk])
      (queue : (s.workers wid).prefill_queue = items ++ (s'.workers wid).prefill_queue)
      (drawn : s'.drawn = s.drawn)
  | cut {items : List Nat} (first : (c.worker wid).pipe_rank = 0)
      (length_le : items.length ≤ c.config.max_prefill_batch)
      (id : ∀ i ∈ items, (s'.chunk i).chunk_id = some (c.uuids s.drawn))
      (batch : s'.in_progress wid = [items.map s'.chunk]) (drawn : s'.drawn = s.drawn + 1)

/-- The process of a worker goes on with its loop. -/
structure Continues (c : Cluster) (wid : Nat) (s s' : Sim) : Prop where
  queue : ∀ v, v ≠ wid → (s'.workers v).prefill_queue = (s.workers v).prefill_queue
  status : ∀ v, v ≠ wid → (s'.workers v).status = (s.workers v).status
  chunk : ∀ i, ((c.worker wid).pipe_rank = 0 → i ∉ (s.workers wid).prefill_queue) →
    s'.chunk i = s.chunk i
  enters : Enters c wid s s'

theorem SetsBatch.idles {status : Status} (h : SetsBatch wid status s s')
    (hidle : ∀ items reqs, status ≠ .prefilling items reqs) : Continues c wid s s' := by
  refine ⟨fun v _ => h.prefill_queue v, h.other, fun i _ => h.chunk i,
    .idle ?_ (h.prefill_queue wid) h.drawn⟩
  unfold in_progress
  rw [h.self]
  split
  · next items reqs => exact absurd rfl (hidle items reqs)
  · rfl

theorem SetsBatch.in_progress {reqs : List Nat}
    (h : SetsBatch wid (.prefilling items reqs) s s') :
    s'.in_progress wid = [items.map s'.chunk] := by
  unfold Sim.in_progress
  rw [h.self]

/-- `_enter_prefill` of a worker that is not the first. -/
theorem enter_prefill_later (later : (c.worker wid).pipe_rank ≠ 0)
    (head : (s.workers wid).prefill_queue.head? = some i) :
    (enter_prefill c s wid).1 = ((s.workers wid).prefill_queue.take
      (min c.config.max_prefill_batch (s.workers wid).prefill_queue.length)).takeWhile
        (fun j => (s.requests j).chunk_id = (s.requests i).chunk_id) ∧
    Picks c wid (enter_prefill c s wid).1 s (enter_prefill c s wid).2 ∧
    (enter_prefill c s wid).2.drawn = s.drawn := by
  unfold enter_prefill
  dsimp only
  rw [if_pos later, head, Option.bind_some]
  dsimp only
  rw [take_chunk_eq]
  have happend := take_chunk_append s.requests (s.requests i).chunk_id
    (min c.config.max_prefill_batch (s.workers wid).prefill_queue.length)
    (s.workers wid).prefill_queue
  rw [take_chunk_eq] at happend
  have hlog := (sameChunks_log (((s.workers wid).prefill_queue.take
    (min c.config.max_prefill_batch (s.workers wid).prefill_queue.length)).takeWhile
      fun j => (s.requests j).chunk_id = (s.requests i).chunk_id)
    (s.modify_worker wid fun w => { w with prefill_queue := (take_chunk s.requests
      (s.requests i).chunk_id (min c.config.max_prefill_batch
        (s.workers wid).prefill_queue.length) (s.workers wid).prefill_queue).2 })
    (some wid)).same_batches
  refine ⟨rfl, .same_batches ?_ hlog, hlog.drawn⟩
  refine ⟨?_, ?_, ?_, fun _ _ => rfl⟩
  · rw [modify_worker_workers, Function.update_self]
    exact happend.symm
  · intro v hv
    rw [modify_worker_workers, Function.update_of_ne hv]
  · intro v
    rw [modify_worker_workers]
    by_cases hv : v = wid
    · subst hv
      rw [Function.update_self]
    · rw [Function.update_of_ne hv]

theorem enter_prefill_first (first : (c.worker wid).pipe_rank = 0) :
    (enter_prefill c s wid).1.length ≤ c.config.max_prefill_batch ∧
    (∀ i ∈ (enter_prefill c s wid).1,
      ((enter_prefill c s wid).2.chunk i).chunk_id = some (c.uuids s.drawn)) ∧
    Picks c wid (enter_prefill c s wid).1 s (enter_prefill c s wid).2 ∧
    (enter_prefill c s wid).2.drawn = s.drawn + 1 := by
  unfold enter_prefill
  dsimp only
  rw [if_neg (not_not.mpr first)]
  have hcuts := cut_chunks_cuts c.config.enable_chunked_prefill wid (c.uuids s.drawn)
    (min c.config.max_prefill_batch (s.workers wid).prefill_queue.length) 0
    c.config.max_prefill_tokens { s with drawn := s.drawn + 1 }
  generalize cut_chunks c.config.enable_chunked_prefill wid (c.uuids s.drawn)
    (min c.config.max_prefill_batch (s.workers wid).prefill_queue.length) 0
    c.config.max_prefill_tokens { s with drawn := s.drawn + 1 } = cut at hcuts ⊢
  obtain ⟨items, s1⟩ := cut
  dsimp only at hcuts ⊢
  have hlog := (sameChunks_log items s1 (some wid)).same_batches
  refine ⟨hcuts.length_le.trans (Nat.min_le_left _ _), ?_, .same_batches ?_ hlog,
    hlog.drawn.trans hcuts.drawn_eq⟩
  · intro i hi
    rw [hlog.chunk]
    exact hcuts.chunk_id_eq i hi
  · refine ⟨hcuts.queue_eq, ?_, ?_, ?_⟩
    · intro v hv
      rw [hcuts.workers_eq, Function.update_of_ne hv]
    · intro v
      rw [hcuts.workers_eq]
      by_cases hv : v = wid
      · subst hv
        rw [Function.update_self]
      · rw [Function.update_of_ne hv]
    · intro i hi
      have hnot : i ∉ items := fun hin => hi first (by
        rw [show (s.workers wid).prefill_queue = _ from hcuts.queue_eq]
        exact List.mem_append_left _ hin)
      unfold chunk
      rw [hcuts.other i hnot]

/-- The batch of a prefill is in progress until its timeout. -/
theorem Picks.continues {reqs : List Nat} (h : Picks c wid items s s1)
    (hsets : SetsBatch wid (.prefilling items reqs) s1 s') (henters : Enters c wid s s') :
    Continues c wid s s' :=
  ⟨fun v hv => (hsets.prefill_queue v).trans (h.other v hv),
    fun v hv => (hsets.other v hv).trans (h.status v),
    fun i hi => (hsets.chunk i).trans (h.chunk i hi), henters⟩

theorem enter_prefill_continues {reqs : List Nat} (hqueue : (s.workers wid).prefill_queue ≠ [])
    (hsets : SetsBatch wid (.prefilling (enter_prefill c s wid).1 reqs) (enter_prefill c s wid).2
      s') : Continues c wid s s' := by
  by_cases first : (c.worker wid).pipe_rank = 0
  · obtain ⟨hlength, hid, hpicks, hdrawn⟩ := enter_prefill_first (s := s) first
    refine hpicks.continues hsets (.cut first hlength ?_ hsets.in_progress
      (hsets.drawn.trans hdrawn))
    intro i hi
    rw [hsets.chunk]
    exact hid i hi
  · obtain ⟨i, rest, hcons⟩ := List.exists_cons_of_ne_nil hqueue
    have head : (s.workers wid).prefill_queue.head? = some i := by rw [hcons, List.head?_cons]
    obtain ⟨hitems, hpicks, hdrawn⟩ := enter_prefill_later first head
    refine hpicks.continues hsets (.regroup first head hitems hsets.in_progress ?_
      (hsets.drawn.trans hdrawn))
    rw [hsets.prefill_queue]
    exact hpicks.queue

/-- `do_prefill` executes what `_enter_prefill` took. -/
theorem do_prefill_sets_batch (h : do_prefill c s wid = .ok s') :
    ∃ reqs, SetsBatch wid (.prefilling (enter_prefill c s wid).1 reqs) (enter_prefill c s wid).2
      s' := by
  unfold do_prefill at h
  generalize enter_prefill c s wid = entered at h ⊢
  obtain ⟨items, s1⟩ := entered
  dsimp only at h ⊢
  split at h
  · have hsame := same_batches_enter_decodes s1 wid (c.config.max_prefill_tokens -
      (items.map fun i => (s1.requests i).current_prefill_lens).sum)
    generalize enter_decodes s1 wid (c.config.max_prefill_tokens -
      (items.map fun i => (s1.requests i).current_prefill_lens).sum) = entered at h hsame
    obtain ⟨reqs, s2⟩ := entered
    obtain ⟨delay, -, h⟩ := bind_eq_ok.mp h
    exact ⟨reqs, hsame.sets_batch (timeout_sets_batch rfl h)⟩
  · obtain ⟨delay, -, h⟩ := bind_eq_ok.mp h
    exact ⟨[], timeout_sets_batch rfl h⟩

theorem do_prefill_continues (hqueue : (s.workers wid).prefill_queue ≠ [])
    (h : do_prefill c s wid = .ok s') : Continues c wid s s' := by
  obtain ⟨reqs, hsets⟩ := do_prefill_sets_batch h
  exact enter_prefill_continues hqueue hsets

theorem do_decode_continues (h : do_decode c s wid = .ok s') : Continues c wid s s' := by
  unfold do_decode at h
  have hsame := same_batches_enter_decodes s wid c.config.max_decode_tokens
  generalize enter_decodes s wid c.config.max_decode_tokens = entered at h hsame
  obtain ⟨reqs, s1⟩ := entered
  dsimp only at h hsame
  obtain ⟨delay, -, h⟩ := bind_eq_ok.mp h
  exact (hsame.sets_batch (timeout_sets_batch rfl h)).idles nofun

theorem run_iteration_continues (h : run_iteration c s wid = .ok s') :
    Continues c wid s s' := by
  unfold run_iteration at h
  split at h
  · next hqueue => exact do_prefill_continues hqueue.1 h
  · exact do_decode_continues h

theorem run_loop_continues (h : run_loop c s wid = .ok s') : Continues c wid s s' := by
  unfold run_loop at h
  split at h
  · cases h
    have hsets := sets_batch_modify_worker (s := s) wid
      (g := fun w => { w with status := .suspended w.wakeup_event }) rfl
    exact hsets.idles nofun
  · exact run_iteration_continues h

/-! ## A whole event -/

/-- An event resumes the process of a worker: what it prefilled goes on, and then the loop. -/
def Resumes (c : Cluster) (wid : Nat) (s s' : Sim) : Prop :=
  ∃ s1, Passes c wid (s.workers wid).status.batch.items s s1 ∧ Continues c wid s1 s'

theorem same_batches_popped (s : Sim) (e : Event) (rest : List Event) :
    SameBatches s (s.popped e rest) :=
  ⟨fun _ => rfl, fun _ => rfl, fun _ => rfl, rfl⟩

theorem finish_iteration_resumes (hruns : ∃ k, Status.Runs (s.workers wid).status k)
    (h : finish_iteration c (s.popped e rest) wid = .ok s') : Resumes c wid s s' := by
  have hpopped := (same_batches_popped s e rest).passes c wid
  unfold finish_iteration at h
  rw [show ((s.popped e rest).workers wid).status = (s.workers wid).status from rfl] at h
  unfold Resumes
  obtain ⟨k, ⟨items, reqs, hst, -⟩ | ⟨reqs, hst, -⟩⟩ := hruns
  · rw [hst] at h ⊢
    obtain ⟨s1, hexit, hloop⟩ := bind_eq_ok.mp h
    have hips : SameBatches (s.popped e rest)
        ((s.popped e rest).modify_worker wid fun w => { w with prefill_ips := 0 }) :=
      same_batches_modify_worker rfl rfl
    have hdecodes := (same_batches_exit_decode c wid reqs s1).passes c wid
    have hpasses := (hpopped.append (hips.passes c wid)).append
      ((exit_prefill_passes hexit).append hdecodes)
    rw [List.append_nil, List.nil_append, List.append_nil] at hpasses
    exact ⟨_, hpasses, run_loop_continues hloop⟩
  · rw [hst] at h ⊢
    have hdecodes := (same_batches_exit_decode c wid reqs (s.popped e rest)).passes c wid
    exact ⟨_, hpopped.append hdecodes, run_loop_continues h⟩

/-- The first event is the one that the process of this worker waits for. -/
def resumes (s : Sim) (wid : Nat) : Prop :=
  s.queue.head?.map (·.action) = some (s.next_action wid)

instance (s : Sim) (wid : Nat) : Decidable (s.resumes wid) :=
  inferInstanceAs (Decidable (s.queue.head?.map (·.action) = some (s.next_action wid)))

theorem resumes_iff (hqueue : s.queue = e :: rest) :
    s.resumes wid ↔ e.action = s.next_action wid := by
  unfold resumes
  rw [hqueue]
  exact Option.some_inj

/-- Only one process is resumed. -/
theorem resumes_unique (h : s.resumes wid) (h' : s.resumes v) : wid = v := by
  have hsame := congrArg Action.worker (Option.some.inj (h.symm.trans h'))
  rw [next_action_worker, next_action_worker] at hsame
  exact Option.some.inj hsame

/-- An event that resumes no worker. A request that arrives goes to a first worker. -/
structure Rests (c : Cluster) (s s' : Sim) : Prop where
  queue : ∀ v, v ∉ c.prefill_heads → (s'.workers v).prefill_queue = (s.workers v).prefill_queue
  status : ∀ v, (s'.workers v).status = (s.workers v).status
  chunk : ∀ i, s'.chunk i = s.chunk i
  drawn : s'.drawn = s.drawn

theorem SameBatches.rests (h : SameBatches s s') : Rests c s s' :=
  ⟨fun v _ => h.prefill_queue v, h.status, h.chunk, h.drawn⟩

theorem inject_rests (h : inject c s i = .ok s') : Rests c s s' := by
  unfold inject at h
  obtain ⟨s1, hsched, h⟩ := bind_eq_ok.mp h
  cases h
  have hinit : SameBatches s (s.modify_request i fun r => r.init s.now) := same_batches_log
  unfold schedule_new_req at hsched
  split at hsched
  · next hcount =>
    unfold schedule_prefill at hsched
    rw [if_pos hcount] at hsched
    obtain ⟨head, hhead, hsched⟩ := bind_eq_ok.mp hsched
    cases hsched
    have hjoins := joins_push_prefill (s.modify_request i fun r => r.init s.now) head [i]
    refine ⟨?_, hjoins.status, fun j => (hjoins.chunk j).trans (hinit.chunk j), hjoins.drawn⟩
    intro v hv
    exact hjoins.other v fun heq => hv (heq ▸ find_best_worker_mem hhead)
  · exact (hinit.trans ((same_batches_schedule_decode hsched).trans same_batches_schedule)).rests

/-- Each event resumes a worker, or it rests. -/
theorem step_cases (h : step c workload s = .ok s') :
    (∃ wid, s.resumes wid ∧ Resumes c wid s s') ∨
      ((∀ wid, ¬ s.resumes wid) ∧ Rests c s s') := by
  unfold step at h
  split at h
  · next hnil =>
    cases h
    refine .inr ⟨fun wid hresumes => ?_, SameBatches.refl.rests⟩
    unfold resumes at hresumes
    rw [hnil] at hresumes
    cases hresumes
  · next e rest hqueue =>
    change process c workload (s.popped e rest) e.action = .ok s' at h
    have hpopped := same_batches_popped s e rest
    simp only [resumes_iff hqueue]
    cases haction : e.action with
    | start wid =>
      rw [haction] at h
      rcases start_worker_cases h with ⟨hst, hrun⟩ | ⟨hst, rfl⟩
      · change (s.workers wid).status = .created at hst
        refine .inl ⟨wid, ?_, s.popped e rest, ?_, run_loop_continues hrun⟩
        · rw [next_action, hst]
        · rw [hst]
          exact hpopped.passes c wid
      · exact .inr ⟨fun v => ne_next_action_of_worker rfl (start_ne_next_action hst) v,
          hpopped.rests⟩
    | wakeup wid number =>
      rw [haction] at h
      rcases resume_after_wakeup_cases h with ⟨hst, hrun⟩ | ⟨hst, rfl⟩
      · change (s.workers wid).status = .suspended number at hst
        refine .inl ⟨wid, ?_, s.popped e rest, ?_, run_iteration_continues hrun⟩
        · rw [next_action, hst]
        · rw [hst]
          exact hpopped.passes c wid
      · exact .inr ⟨fun v => ne_next_action_of_worker rfl (wakeup_ne_next_action hst) v,
          hpopped.rests⟩
    | iteration wid =>
      rw [haction] at h
      rcases finish_iteration_cases h with ⟨k, hruns⟩ | ⟨hst, rfl⟩
      · exact .inl ⟨wid, iteration_eq_next_action hruns, finish_iteration_resumes ⟨k, hruns⟩ h⟩
      · exact .inr ⟨fun v => ne_next_action_of_worker rfl (iteration_ne_next_action hst) v,
          hpopped.rests⟩
    | put_request i =>
      rw [haction] at h
      refine .inr ⟨fun v => ne_next_action (Option.some_ne_none v).symm, ?_⟩
      change put_request workload (s.popped e rest) i = .ok s' at h
      unfold put_request timeout at h
      split at h
      · cases h
      · cases h
        exact (hpopped.trans same_batches_schedule).rests
    | arrival i =>
      rw [haction] at h
      have hrests := inject_rests h
      exact .inr ⟨fun v => ne_next_action (Option.some_ne_none v).symm,
        fun v hv => (hrests.queue v hv).trans (hpopped.prefill_queue v),
        fun v => (hrests.status v).trans (hpopped.status v),
        fun j => (hrests.chunk j).trans (hpopped.chunk j), hrests.drawn.trans hpopped.drawn⟩
    | process_end i =>
      rw [haction] at h
      cases h
      exact .inr ⟨fun v => ne_next_action (Option.some_ne_none v).symm, hpopped.rests⟩

end Sim

end simdistserve
