-- The batch that the context scheduler takes: the longest prefix of the waiting queue within
-- its three limits.
import RecomputeOrMigrate.ContextRun
import RecomputeOrMigrate.General.Prefixes

open prefixes

namespace distserve

namespace ContextStageFCFSScheduler

variable {s : ContextStageFCFSScheduler} {rs : List Request}

/-- The limits on the batch size, on the prompt tokens and on the blocks, for requests that
have no token yet. The empty batch is within them. -/
def Admissible (s : ContextStageFCFSScheduler) (rs : List Request) : Prop :=
  rs = [] ∨
    (rs.length ≤ s.max_batch_size ∧
      (rs.map Request.get_input_len).sum ≤ s.max_tokens_per_batch ∧
      (s.blocks_of rs : Int) + s.blocks_of s.unaccepted_queue + s.num_on_fly_request_block ≤
        s.block_manager.max_num_gpu_blocks)

/-! ## The limits -/

/-- The check lets a request in exactly when the batch fits with it. -/
theorem check_iff_fits (b : BatchedRequests) (request : Request) :
    s.check_add_to_cur_batch b request = true ↔ s.Fits (b.requests ++ [request]) := by
  constructor
  · exact fits_of_check
  · rintro ⟨hsize, htokens, hblocks⟩
    rw [List.length_append, List.length_singleton] at hsize
    rw [List.map_append, List.sum_append, List.map_singleton, List.sum_singleton] at htokens
    unfold check_add_to_cur_batch
    rw [decide_eq_true (p := _ < _) hsize, Bool.true_and, Bool.and_eq_true, decide_eq_true_iff,
      decide_eq_true_iff]
    exact ⟨htokens, hblocks⟩

/-- A request without a token runs its prompt. -/
theorem input_tokens_of_new {r : Request} (h : r.generated_tokens = []) :
    r.get_num_input_tokens = r.get_input_len := by
  unfold Request.get_num_input_tokens Request.get_input_tokens_ids Request.is_context_stage
  rw [h]
  rfl

theorem fits_iff (hnew : ∀ r ∈ rs, r.generated_tokens = []) (hne : rs ≠ []) :
    s.Fits rs ↔ s.Admissible rs := by
  have htokens : rs.map Request.get_num_input_tokens = rs.map Request.get_input_len :=
    List.map_congr_left fun r hr => input_tokens_of_new (hnew r hr)
  constructor
  · rintro ⟨hsize, htok, hblocks⟩
    exact .inr ⟨hsize, htokens ▸ htok, hblocks⟩
  · rintro (h | ⟨hsize, htok, hblocks⟩)
    · exact absurd h hne
    · exact ⟨hsize, htokens ▸ htok, hblocks⟩

/-- All three sums grow along a queue. -/
theorem admissible_of_append (a b : List Request) (h : s.Admissible (a ++ b)) :
    s.Admissible a := by
  rcases h with h | ⟨hsize, htokens, hblocks⟩
  · exact .inl (List.append_eq_nil_iff.mp h).1
  · rw [List.length_append] at hsize
    rw [List.map_append, List.sum_append] at htokens
    rw [blocks_of_append] at hblocks
    push_cast at hblocks
    exact .inr ⟨by omega, by omega, by omega⟩

/-! ## The loop -/

/-- The loop stops at the end of the queue or at a request that does not fit any more. -/
theorem fill_batch_stops {b b' : BatchedRequests} {waiting rest : List Request}
    (h : s.fill_batch b waiting = .ok (b', rest)) (x : Request) (hx : rest.head? = some x) :
    ¬s.Fits (b'.requests ++ [x]) := by
  induction waiting generalizing b with
  | nil =>
    cases h
    cases hx
  | cons request waiting ih =>
    unfold fill_batch at h
    split at h
    · obtain ⟨grown, -, h⟩ := calls.bind_eq_ok.mp h
      exact ih h
    · next hcheck =>
      cases h
      cases hx
      rw [← check_iff_fits]
      exact hcheck

/-- The batch is the longest admissible prefix of the waiting queue. The rest of the queue stays
in order, the counter grows by the blocks of the batch, and nothing else changes. -/
theorem the_batch_is_the_longest_admissible_prefix (s : ContextStageFCFSScheduler)
    (hids : (s.waiting_queue.map (·.request_id)).Nodup)
    (hnew : ∀ r ∈ s.waiting_queue, r.generated_tokens = []) :
    ∃ batch rest, s.waiting_queue = batch ++ rest ∧
      Longest s.Admissible s.waiting_queue batch ∧
      s.get_next_batch_and_pop = .ok (⟨batch, none⟩,
        { s with
          waiting_queue := rest
          num_on_fly_request_block := s.num_on_fly_request_block + s.blocks_of batch }) := by
  obtain ⟨batch, rest, hfill, hwait, hfit⟩ := s.fill_batch_cases .empty s.waiting_queue
    (by simpa [BatchedRequests.empty] using hids)
  have hnew' : ∀ r ∈ batch ++ rest, r.generated_tokens = [] := hwait ▸ hnew
  have hbatch : ∀ r ∈ batch, r.generated_tokens = [] := fun r hr =>
    hnew' r (List.mem_append_left rest hr)
  refine ⟨batch, rest, hwait, ?_, ?_⟩
  · rw [hwait]
    apply longest_of_stop admissible_of_append
    · by_cases hb : batch = []
      · exact .inl hb
      · exact (fits_iff hbatch hb).mp (hfit hb)
    · intro x hx hadm
      have hxnew : ∀ r ∈ batch ++ [x], r.generated_tokens = [] := by
        intro r hr
        rcases List.mem_append.mp hr with hr | hr
        · exact hbatch r hr
        · rw [List.mem_singleton.mp hr]
          exact hnew' x (List.mem_append_right batch (List.mem_of_mem_head? hx))
      exact fill_batch_stops hfill x hx ((fits_iff hxnew (by simp)).mpr hadm)
  · unfold get_next_batch_and_pop
    rw [hfill]
    rfl

/-- Three prompts of two tokens before a scheduler with room for five tokens. -/
def threeWaiting : ContextStageFCFSScheduler where
  max_batch_size := 3
  max_tokens_per_batch := 5
  block_manager := .create 4 0 ⟨2, Nat.two_pos⟩
  waiting_queue := [.create 0 [1, 2] ⟨[], true, 1, Nat.le_refl 1⟩,
    .create 1 [3, 4] ⟨[], true, 1, Nat.le_refl 1⟩, .create 2 [5, 6] ⟨[], true, 1, Nat.le_refl 1⟩]
  unaccepted_queue := []
  num_on_fly_request_block := 0

theorem two_of_three_fill_the_batch :
    ∃ batch rest, threeWaiting.waiting_queue = batch ++ rest ∧
      Longest threeWaiting.Admissible threeWaiting.waiting_queue batch ∧
      threeWaiting.get_next_batch_and_pop = .ok (⟨batch, none⟩,
        { threeWaiting with
          waiting_queue := rest
          num_on_fly_request_block :=
            threeWaiting.num_on_fly_request_block + threeWaiting.blocks_of batch }) :=
  the_batch_is_the_longest_admissible_prefix threeWaiting (by decide) (by decide)

end ContextStageFCFSScheduler

end distserve
