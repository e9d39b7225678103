-- The keys of `swap_event_table`: the block manager names the requests of a swap by the
-- requests themselves, and a step looks for their ids.
import RecomputeOrMigrate.BlockPartition
import RecomputeOrMigrate.General.Histories
import RecomputeOrMigrate.ParaWorker

open calls histories streams

namespace distserve

/-- What a worker gets as a key: an id, or the copy of a request that came with a call. A
copy equals no id, and no copy that came with another call. -/
inductive TableKey
  | request_id (request_id : RequestId)
  | request (call : Nat) (request_id : RequestId)
deriving DecidableEq

def TableKey.requestOf : TableKey → RequestId
  | .request_id r => r
  | .request _ r => r

/-- The call with this number as a worker gets it. The loop of
`clear_request_resource_batched` reads the ids of the requests. -/
def RemoteCall.received (call : Nat) : RemoteCall → WorkerCall TableKey
  | .swap_blocks requests source_block_ids target_block_ids is_swap_in =>
    .swap_blocks (requests.map fun request => .request call request.request_id)
      source_block_ids target_block_ids is_swap_in
  | .step request_ids _ _ _ => .step (request_ids.map .request_id)
  | .clear_request_resource request_id => .clear_request_resource (.request_id request_id)
  | .clear_request_resource_batched requests =>
    .clear_request_resource_batched (requests.map fun request => .request_id request.request_id)
  | .wait_for_all_swap_in => .wait_for_all_swap_in
  | .wait_for_all_swap_out => .wait_for_all_swap_out
  | .migrate_blocks _ _ _ => .migrate_blocks

/-- The calls, in the order in which they were sent. -/
def received_calls (sent : List RemoteCall) : List (WorkerCall TableKey) :=
  sent.zipIdx.map fun (c, call) => c.received call

/-- The worker after all that the engine sent. -/
def worker_after (sent : List RemoteCall) : ParaWorker TableKey :=
  ParaWorker.after (received_calls sent)

/-! ## What the engine sends about a request -/

namespace RemoteCall

/-- The request is swapped. -/
def Swaps (r : RequestId) : RemoteCall → Prop
  | .swap_blocks requests _ _ _ => r ∈ requests.map (·.request_id)
  | _ => False

/-- The request is in the batch of a step. -/
def Steps (r : RequestId) : RemoteCall → Prop
  | .step request_ids _ _ _ => r ∈ request_ids
  | _ => False

/-- The resources of the request are cleared. -/
def Clears (r : RequestId) : RemoteCall → Prop
  | .clear_request_resource request_id => r = request_id
  | .clear_request_resource_batched requests => r ∈ requests.map (·.request_id)
  | _ => False

instance (r : RequestId) : DecidablePred (Swaps r)
  | .swap_blocks requests _ _ _ => inferInstanceAs (Decidable (r ∈ requests.map (·.request_id)))
  | .wait_for_all_swap_out | .wait_for_all_swap_in | .step .. | .migrate_blocks .. |
    .clear_request_resource _ | .clear_request_resource_batched _ => .isFalse id

instance (r : RequestId) : DecidablePred (Steps r)
  | .step request_ids _ _ _ => inferInstanceAs (Decidable (r ∈ request_ids))
  | .wait_for_all_swap_out | .wait_for_all_swap_in | .swap_blocks .. | .migrate_blocks .. |
    .clear_request_resource _ | .clear_request_resource_batched _ => .isFalse id

instance (r : RequestId) : DecidablePred (Clears r)
  | .clear_request_resource request_id => inferInstanceAs (Decidable (r = request_id))
  | .clear_request_resource_batched requests =>
    inferInstanceAs (Decidable (r ∈ requests.map (·.request_id)))
  | .wait_for_all_swap_out | .wait_for_all_swap_in | .swap_blocks .. | .migrate_blocks .. |
    .step .. => .isFalse id

end RemoteCall

/-- The number of the last call that swaps the request, which is its latest swap event. -/
def latest_swap (r : RequestId) (sent : List RemoteCall) : Option Nat :=
  (sent.zipIdx.filter fun p => p.1.Swaps r).getLast?.map Prod.snd

/-- A swap of the request came after its previous step or clear. -/
def SwappedSince (r : RequestId) (sent : List RemoteCall) : Prop :=
  ∃ c ∈ sinceLast (fun c => c.Steps r ∨ c.Clears r) sent, c.Swaps r

/-- What the call issues to the streams. -/
def newly_issued (sent : List RemoteCall) (c : RemoteCall) : List (Op CudaStream CudaWork) :=
  (worker_after (sent ++ [c])).issued.drop (worker_after sent).issued.length

/-- Requirement 1: a step waits for the latest swap of each request that was swapped since
its previous step or clear. -/
def StepWaits (sent : List RemoteCall) (c : RemoteCall) : Prop :=
  ∀ r, c.Steps r → SwappedSince r sent → ∃ event, latest_swap r sent = some event ∧
    (worker_after sent).swap_event_table.get? (.request_id r) = some event ∧
    .wait event .current_stream ∈ newly_issued sent c

/-- A clear leaves no entry for the request. -/
def ClearForgets (sent : List RemoteCall) (c : RemoteCall) : Prop :=
  ∀ r, c.Clears r → ∀ key ∈ (worker_after (sent ++ [c])).swap_event_table, key.requestOf ≠ r

/-- The call is a step or a clear of a request that an earlier call swapped. -/
def NamesSwapped (sent : List RemoteCall) (c : RemoteCall) : Prop :=
  ∃ r, (c.Steps r ∨ c.Clears r) ∧ ∃ swap ∈ sent, swap.Swaps r

/-! ## The keys of the table -/

variable {sent before : List RemoteCall} {c : RemoteCall} {r : RequestId} {call : Nat}

theorem received_calls_append (sent : List RemoteCall) (c : RemoteCall) :
    received_calls (sent ++ [c]) = received_calls sent ++ [c.received sent.length] := by
  unfold received_calls
  simp [List.zipIdx_append]

theorem worker_after_append (sent : List RemoteCall) (c : RemoteCall) :
    worker_after (sent ++ [c]) = (worker_after sent).receive (c.received sent.length) := by
  unfold worker_after
  rw [received_calls_append, ParaWorker.after_append]

theorem received_swaps (c : RemoteCall) (call : Nat) (r : RequestId) :
    (c.received call).Swaps (.request call r) ↔ c.Swaps r := by
  cases c <;> simp [RemoteCall.received, WorkerCall.Swaps, RemoteCall.Swaps]

/-- No swap is about an id. -/
theorem not_received_swaps_id (c : RemoteCall) (call : Nat) (r : RequestId) :
    ¬ (c.received call).Swaps (.request_id r) := by
  cases c <;> simp [RemoteCall.received, WorkerCall.Swaps]

/-- No step and no clear is about a copy of a request. -/
theorem not_received_ends_copy (c : RemoteCall) (call n : Nat) (r : RequestId) :
    ¬ (c.received call).Ends (.request n r) := by
  cases c <;> simp [RemoteCall.received, WorkerCall.Ends]

/-- There is never an entry under an id. -/
theorem no_entry_under_an_id (sent : List RemoteCall) (r : RequestId) :
    (worker_after sent).swap_event_table.get? (.request_id r) = none := by
  induction sent using List.reverseRecOn with
  | nil => rfl
  | append_singleton sent c ih =>
    rw [worker_after_append]
    obtain ⟨-, hends, hkeeps⟩ := (worker_after sent).get?_receive (c.received sent.length)
      (.request_id r)
    by_cases he : (c.received sent.length).Ends (.request_id r)
    · exact hends he
    · rw [hkeeps (not_received_swaps_id c _ r) he]
      exact ih

/-- An entry under a copy stays for ever. -/
theorem entry_stays {n : Nat} (h : .request n r ∈ (worker_after sent).swap_event_table) :
    .request n r ∈ (worker_after (sent ++ [c])).swap_event_table := by
  rw [dicts.Dict.mem_iff_isSome, worker_after_append]
  obtain ⟨hswaps, -, hkeeps⟩ := (worker_after sent).get?_receive (c.received sent.length)
    (.request n r)
  by_cases hs : (c.received sent.length).Swaps (.request n r)
  · rw [hswaps hs]
    rfl
  · rw [hkeeps hs (not_received_ends_copy c _ n r)]
    exact dicts.Dict.mem_iff_isSome.mp h

/-- Each swapped request has an entry under a copy. -/
theorem entry_of_swap (h : ∃ swap ∈ sent, swap.Swaps r) :
    ∃ n, .request n r ∈ (worker_after sent).swap_event_table := by
  induction sent using List.reverseRecOn with
  | nil =>
    obtain ⟨_, hm, _⟩ := h
    cases hm
  | append_singleton sent c ih =>
    obtain ⟨swap, hmem, hs⟩ := h
    rcases List.mem_append.mp hmem with hmem | hmem
    · obtain ⟨n, hn⟩ := ih ⟨swap, hmem, hs⟩
      exact ⟨n, entry_stays hn⟩
    · obtain rfl := List.mem_singleton.mp hmem
      refine ⟨sent.length, ?_⟩
      rw [dicts.Dict.mem_iff_isSome, worker_after_append,
        ((worker_after sent).get?_receive _ _).1 ((received_swaps swap _ r).mpr hs)]
      rfl

theorem swaps_of_received {key : TableKey} (h : (c.received call).Swaps key) :
    c.Swaps key.requestOf := by
  cases c with
  | swap_blocks requests _ _ _ =>
    obtain ⟨request, hmem, rfl⟩ := List.mem_map.mp h
    exact List.mem_map_of_mem hmem
  | _ => exact h.elim

/-- Each entry is about a request that was swapped. -/
theorem swap_of_entry {key : TableKey} (h : key ∈ (worker_after sent).swap_event_table) :
    ∃ swap ∈ sent, swap.Swaps key.requestOf := by
  induction sent using List.reverseRecOn with
  | nil => exact absurd h (dicts.Dict.not_mem_empty key)
  | append_singleton sent c ih =>
    rw [dicts.Dict.mem_iff_isSome, worker_after_append] at h
    obtain ⟨-, hends, hkeeps⟩ := (worker_after sent).get?_receive (c.received sent.length) key
    by_cases hs : (c.received sent.length).Swaps key
    · exact ⟨c, List.mem_append_right _ List.mem_cons_self, swaps_of_received hs⟩
    · by_cases he : (c.received sent.length).Ends key
      · rw [hends he] at h
        cases h
      · rw [hkeeps hs he] at h
        obtain ⟨swap, hmem, hswap⟩ := ih (dicts.Dict.mem_iff_isSome.mpr h)
        exact ⟨swap, List.mem_append_left _ hmem, hswap⟩

/-! ## Requirement 1 -/

theorem RemoteCall.Swaps.not_ends (h : c.Swaps r) : ¬ (c.Steps r ∨ c.Clears r) := by
  cases c <;> simp_all [Swaps, Steps, Clears]

/-- When a step or a clear came after the swap, it named a swapped request. -/
theorem named_of_not_swappedSince (hswap : ∃ swap ∈ sent, swap.Swaps r)
    (h : ¬ SwappedSince r sent) : ∃ before c, before ++ [c] <+: sent ∧
      (c.Steps r ∨ c.Clears r) ∧ ∃ swap ∈ before, swap.Swaps r := by
  induction sent using List.reverseRecOn with
  | nil =>
    obtain ⟨_, hm, _⟩ := hswap
    cases hm
  | append_singleton sent c ih =>
    obtain ⟨swap, hmem, hs⟩ := hswap
    by_cases hc : c.Steps r ∨ c.Clears r
    · refine ⟨sent, c, List.prefix_refl _, hc, swap, ?_, hs⟩
      rcases List.mem_append.mp hmem with hmem | hmem
      · exact hmem
      · obtain rfl := List.mem_singleton.mp hmem
        exact absurd hc hs.not_ends
    · have hold : ¬ SwappedSince r sent := fun ⟨x, hx, hxs⟩ =>
        h ⟨x, mem_sinceLast_append.mpr ⟨hc, Or.inl hx⟩, hxs⟩
      have hin : swap ∈ sent := by
        rcases List.mem_append.mp hmem with hmem | hmem
        · exact hmem
        · obtain rfl := List.mem_singleton.mp hmem
          exact absurd ⟨swap, mem_sinceLast_append.mpr ⟨hc, Or.inr rfl⟩, hs⟩ h
      obtain ⟨before, c', hp, hrest⟩ := ih ⟨swap, hin, hs⟩ hold
      exact ⟨before, c', hp.trans (List.prefix_append _ _), hrest⟩

/-- A worker meets Requirement 1 and forgets what is cleared exactly when no swapped request
is named again. -/
theorem steps_wait_iff_no_swapped_request_is_named (sent : List RemoteCall) :
    (∀ before c, before ++ [c] <+: sent → StepWaits before c ∧ ClearForgets before c) ↔
      ∀ before c, before ++ [c] <+: sent → ¬ NamesSwapped before c := by
  constructor
  · intro hall before
    -- by induction on the number of calls before the one that names the request
    induction hn : before.length using Nat.strong_induction_on generalizing before with
    | _ n ih =>
      rintro c hp ⟨r, hnames, hswap⟩
      obtain ⟨hwaits, hforgets⟩ := hall before c hp
      rcases hnames with hstep | hclear
      · by_cases hsince : SwappedSince r before
        · obtain ⟨event, -, hget, -⟩ := hwaits r hstep hsince
          rw [no_entry_under_an_id] at hget
          cases hget
        · obtain ⟨before', c', hp', hnames', hswap'⟩ := named_of_not_swappedSince hswap hsince
          have hlt : before'.length < n := by
            have hle := hp'.length_le
            rw [List.length_append, List.length_singleton] at hle
            omega
          have hp'' : before' ++ [c'] <+: sent :=
            hp'.trans ((List.prefix_append _ _).trans hp)
          exact ih before'.length hlt before' rfl c' hp'' ⟨r, hnames', hswap'⟩
      · obtain ⟨k, hk⟩ := entry_of_swap hswap
        exact hforgets r hclear _ (entry_stays hk) rfl
  · intro hnone before c hp
    refine ⟨fun r hstep hsince => ?_, fun r hclear key hkey hr => ?_⟩
    · obtain ⟨swap, hmem, hs⟩ := hsince
      exact absurd ⟨r, Or.inl hstep, swap, mem_of_mem_sinceLast hmem, hs⟩ (hnone before c hp)
    · obtain ⟨swap, hmem, hs⟩ := swap_of_entry hkey
      rw [hr] at hs
      refine hnone before c hp ⟨r, Or.inr hclear, swap, ?_, hs⟩
      rcases List.mem_append.mp hmem with hmem | hmem
      · exact hmem
      · obtain rfl := List.mem_singleton.mp hmem
        exact absurd (Or.inr hclear) hs.not_ends

/-- The block manager swaps a request out and in again, and the engine steps it: the worker
issues the step without a wait. -/
theorem the_step_after_a_swap_does_not_wait :
    let q := Request.create 0 [1, 2, 3] ⟨[], false, 3, by decide⟩
    let sent := (BlockManager.afterCalls (.create 4 4 ⟨2, Nat.two_pos⟩)
      [.allocate_blocks q, .swap_out_requests [q], .swap_in_requests [q]]).remote_calls
    ¬ StepWaits sent (.step [0] [[1, 2, 3]] [0] [[2, 3]]) := by
  intro q sent h
  have hsent : sent =
      [.swap_blocks [q] [0, 1] [0, 1] false, .swap_blocks [q] [0, 1] [2, 3] true] := by
    decide +kernel
  have hsince : SwappedSince 0 sent := by
    rw [hsent]
    unfold SwappedSince
    decide +kernel
  obtain ⟨event, -, hget, -⟩ := h 0 List.mem_cons_self hsince
  rw [no_entry_under_an_id] at hget
  cases hget

end distserve
