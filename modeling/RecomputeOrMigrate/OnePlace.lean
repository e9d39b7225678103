-- Where a request is: in each state of each run of the two engines, it is in one
-- place, and the place says on which side it has blocks.
import RecomputeOrMigrate.EnginesRun

open calls runs counting

namespace distserve

/-- The places of a request. -/
inductive Place
  | context_waiting
  | context_batch
  | bridge_queue
  | decoding_unaccepted
  | being_migrated
  | decoding_waiting
  | decoding_batch
  | swapped
  | finished
deriving DecidableEq

namespace Place

def all : List Place :=
  [context_waiting, context_batch, bridge_queue, decoding_unaccepted, being_migrated,
    decoding_waiting, decoding_batch, swapped, finished]

theorem mem_all (p : Place) : p ∈ all := by cases p <;> decide

theorem all_nodup : all.Nodup := by decide

/-- The request has its blocks on the context side. -/
def hasContextBlocks : Place → Bool
  | context_batch | bridge_queue | decoding_unaccepted | being_migrated => true
  | _ => false

/-- The request has its blocks on the decoding side. -/
def hasDecodingBlocks : Place → Bool
  | being_migrated | decoding_waiting | decoding_batch | swapped => true
  | _ => false

/-- The blocks of the request on the context side are not needed any more. -/
def leftContext : Place → Bool
  | decoding_waiting | decoding_batch | swapped | finished => true
  | _ => false

end Place

namespace Engines

open BlockManager DecodingStageLLMEngine

/-- The requests at a place. Those in a batch are listed once for each batch that has
them. -/
def requestsAt (s : Engines) : Place → List RequestId
  | .context_waiting => s.context_engine.scheduler.waiting_queue.map (·.request_id)
  | .context_batch => s.context_engine.in_flight.map (·.request_id)
  | .bridge_queue => s.context_engine.bridge_queue.map (·.req.request_id)
  | .decoding_unaccepted => s.decoding_engine.scheduler.unaccepted_queue.map (·.req.request_id)
  | .being_migrated => s.decoding_engine.migrating.map (·.request_id)
  | .decoding_waiting => s.decoding_engine.scheduler.waiting_queue.map (·.request_id)
  | .decoding_batch => s.decoding_engine.scheduler.batched.map (·.request_id)
  | .swapped => s.decoding_engine.scheduler.swapped_queue.map (·.request_id)
  | .finished =>
    (s.context_engine.finished_requests ++ s.decoding_engine.finished_requests).map (·.request_id)

variable {s : Engines}

/-- All places together hold just the requests that were added. -/
theorem Linked.places (h : Linked s) :
    (Place.all.flatMap s.requestsAt).Perm (s.added.map (·.request_id)) := by
  refine List.Perm.trans (List.perm_iff_count.mpr fun r => ?_) h.once
  simp only [Place.all, List.flatMap_cons, List.flatMap_nil, requestsAt,
    ContextStageLLMEngine.held, to_clear, cleared, resident, migrating_eq, List.map_append,
    List.map_map, List.count_append, List.count_nil, Function.comp_def]
  omega

/-- The requests with blocks on the context side. -/
theorem Sound.mem_context_table (h : Sound s) (r : RequestId) :
    r ∈ s.context_engine.block_manager.block_table ↔
      ∃ p : Place, p.hasContextBlocks = true ∧ r ∈ s.requestsAt p := by
  have hmem : r ∈ s.context_engine.block_manager.block_table ↔
      r ∈ s.requestsAt .context_batch ∨ r ∈ s.requestsAt .bridge_queue ∨
        r ∈ s.requestsAt .decoding_unaccepted ∨ r ∈ s.requestsAt .being_migrated := by
    rw [h.context_sound.accounts.mem_table, ContextStageLLMEngine.owners, List.map_append,
      List.mem_append, h.linked.handing.mem_iff, List.mem_append, to_clear, List.map_append,
      List.mem_append, requestsAt, requestsAt, requestsAt, requestsAt, migrating_eq, List.map_map]
    simp only [Function.comp_def, List.not_mem_nil, or_false]
  rw [hmem]
  constructor
  · rintro (hr | hr | hr | hr)
    exacts [⟨_, rfl, hr⟩, ⟨_, rfl, hr⟩, ⟨_, rfl, hr⟩, ⟨_, rfl, hr⟩]
  · rintro ⟨p, hp, hr⟩
    cases p <;> simp only [Place.hasContextBlocks, Bool.false_eq_true] at hp <;> simp [hr]

/-- The requests with blocks on the decoding side. -/
theorem Sound.mem_decoding_table (h : Sound s) (r : RequestId) :
    r ∈ s.decoding_engine.block_manager.block_table ↔
      ∃ p : Place, p.hasDecodingBlocks = true ∧ r ∈ s.requestsAt p := by
  have hmem : r ∈ s.decoding_engine.block_manager.block_table ↔
      r ∈ s.requestsAt .being_migrated ∨ r ∈ s.requestsAt .decoding_waiting ∨
        r ∈ s.requestsAt .decoding_batch ∨ r ∈ s.requestsAt .swapped := by
    apply (h.decoding_sound.kept.accounts.mem_table r).trans
    simp only [requestsAt, List.map_append, List.mem_append, or_assoc]
  rw [hmem]
  constructor
  · rintro (hr | hr | hr | hr)
    exacts [⟨_, rfl, hr⟩, ⟨_, rfl, hr⟩, ⟨_, rfl, hr⟩, ⟨_, rfl, hr⟩]
  · rintro ⟨p, hp, hr⟩
    cases p <;> simp only [Place.hasDecodingBlocks, Bool.false_eq_true] at hp <;> simp [hr]

/-- How often the context engine freed the blocks of a request. -/
theorem Linked.count_context_freed (h : Linked s) (r : RequestId) :
    s.context_engine.block_manager.freed.count r =
      ((Place.all.filter Place.leftContext).map fun p => (s.requestsAt p).count r).sum := by
  rw [h.context_freed.count_eq]
  simp only [Place.all, Place.leftContext, requestsAt, cleared, resident, List.filter_cons,
    List.filter_nil, List.map_append, List.map_cons, List.map_nil, List.count_append,
    List.sum_cons, List.sum_nil, if_true, if_false, Bool.false_eq_true]
  omega

/-- In every state of every run, each request that was added is once in one place and not
in the others. It has blocks on each side as long as that side needs them, the context
side frees them once, and the decoding side frees them when the request finishes there.
Only a swap-out that finds too few CPU blocks can raise. -/
theorem every_request_is_in_exactly_one_place (c : EnginesConfig) (decode : Tokenizer)
    (s : Engines) (h : Reaches (step decode) (create c) s) :
    (∀ r ∈ s.added.map (·.request_id), ∃ place : Place,
      (∀ p, (s.requestsAt p).count r = if p = place then 1 else 0) ∧
      (r ∈ s.context_engine.block_manager.block_table ↔ place.hasContextBlocks = true) ∧
      (r ∈ s.decoding_engine.block_manager.block_table ↔ place.hasDecodingBlocks = true) ∧
      s.context_engine.block_manager.freed.count r = (if place.leftContext then 1 else 0) ∧
      s.decoding_engine.block_manager.freed.count r =
        (s.decoding_engine.finished_requests.map (·.request_id)).count r) ∧
    (∀ r ∉ s.added.map (·.request_id), ∀ p, r ∉ s.requestsAt p) ∧
    ∀ a err, step decode s a = some (.error err) →
      DecodingStageFCFSScheduler.CpuShortage err := by
  have hs := sound_of_reaches h
  have hperm := hs.linked.places
  refine ⟨fun r hr => ?_, fun r hr p hp => ?_, fun a err ha =>
    ((act_gives hs (withoutOutput_eq_error.mp ha)).of_error rfl).2.2⟩
  · obtain ⟨place, hplace⟩ := exists_place (f := s.requestsAt) (a := r) Place.all_nodup
      (by rw [hperm.count_eq, List.count_eq_one_of_mem hs.linked.nodup hr])
    replace hplace : ∀ p, (s.requestsAt p).count r = if p = place then 1 else 0 :=
      fun p => hplace p p.mem_all
    have hmem : ∀ p, r ∈ s.requestsAt p ↔ p = place := fun p => by
      rw [← List.count_pos_iff, hplace]
      split <;> simp [*]
    refine ⟨place, hplace, ?_, ?_, ?_, by rw [hs.linked.decoding_freed]⟩
    · rw [hs.mem_context_table]
      simp [hmem]
    · rw [hs.mem_decoding_table]
      simp [hmem]
    · rw [hs.linked.count_context_freed]
      simp only [hplace]
      cases place <;> rfl
  · refine hr (hperm.mem_iff.mp ?_)
    exact List.mem_flatMap.mpr ⟨p, p.mem_all, hp⟩

/-- Three requests. One waits in the context stage, one is in the bridge queue, and one
is in a batch of the decoding stage. -/
theorem three_requests_are_in_three_places : ∃ s : Engines,
    (s.requestsAt .context_waiting = [2] ∧ s.requestsAt .bridge_queue = [1] ∧
      s.requestsAt .decoding_batch = [0]) ∧
      ∃ place : Place, ∀ p, (s.requestsAt p).count 0 = if p = place then 1 else 0 := by
  obtain ⟨s, hr, hs⟩ := reaches_of_any (m := step fun _ => none) (s := create smallConfig)
    [.add_request (smallRequest 0), .add_request (smallRequest 1),
      .add_request (smallRequest 2), .context_begin_step 0, .context_batch_returns [4],
      .bridge_get, .decoding_begin_step 0, .decoding_wake, .migration_ends,
      .decoding_begin_step 1, .context_begin_step 1, .context_batch_returns [5]]
    (fun s : Engines => decide ((s.requestsAt .context_waiting = [2] ∧
      s.requestsAt .bridge_queue = [1] ∧ s.requestsAt .decoding_batch = [0]) ∧
        0 ∈ s.added.map Request.request_id))
    (by decide +kernel)
  obtain ⟨hplaces, hadded⟩ := of_decide_eq_true hs
  obtain ⟨place, hplace, -⟩ :=
    (every_request_is_in_exactly_one_place smallConfig _ s hr).1 0 hadded
  exact ⟨s, hplaces, place, hplace⟩

end Engines

end distserve
