-- The trace of the block manager: the messages that it sends and the blocks that
-- it hands out, in their order. A block that was the source of a swap is handed out
-- again only after the manager sent the message that waits for the swaps.
import RecomputeOrMigrate.BlockPartition
import RecomputeOrMigrate.General.Histories
import RecomputeOrMigrate.General.Traces

open calls histories traces

namespace distserve

/-- What the manager does that matters to a block: it sends a message to the workers,
or `_get_free_blocks` hands blocks out. -/
inductive TraceEvent
  | sent (c : RemoteCall)
  | handed_out (location : BlockLocation) (blocks : List Nat)
deriving DecidableEq

namespace TraceEvent

/-- The blocks that a message names as sources of a swap. A swap-in reads the CPU. -/
def sources : TraceEvent → List (BlockLocation × Nat)
  | .sent (.swap_blocks _ source_block_ids _ is_swap_in) =>
    source_block_ids.map fun b => (if is_swap_in then .CPU else .GPU, b)
  | _ => []

/-- The blocks that are handed out. -/
def handed : TraceEvent → List (BlockLocation × Nat)
  | .handed_out location blocks => blocks.map fun b => (location, b)
  | _ => []

end TraceEvent

/-- The messages that the manager sent between `s` and `s'`. -/
def sentSince (s s' : BlockManager) : List TraceEvent :=
  (s'.remote_calls.drop s.remote_calls.length).map .sent

/-- The manager with its trace. -/
abbrev TracedManager := Traced BlockManager TraceEvent

namespace TracedManager

variable {α : Type}

def create (max_num_gpu_blocks max_num_cpu_blocks : Nat) (cache_config : CacheConfig) :
    TracedManager :=
  ⟨BlockManager.create max_num_gpu_blocks max_num_cpu_blocks cache_config, []⟩

/-! ## The methods with the trace

Each method is the one of the block manager, where `_get_free_blocks` puts what it
hands out on the trace. -/

/-- A part of a method, with the messages that it sends on the trace. -/
def traced (m : Call PyError BlockManager α) : Call PyError TracedManager α := watch sentSince m

def get_free_blocks (num_blocks : Nat) (location : BlockLocation) :
    Call PyError TracedManager (List Nat) := do
  let blocks ← traced (BlockManager.get_free_blocks num_blocks location)
  note (.handed_out location blocks)
  return blocks

def allocate_blocks (request : Request) : Call PyError TracedManager Unit := do
  let s ← traced get
  traced (assert
    (request.request_id ∉ s.block_table ∨ s.get_location request.request_id = some .GPU)
    (.currently_on_cpu request.request_id))
  let num_blocks_needed := s.get_num_blocks_needed request
  match s.block_table.lookup request.request_id with
  | none =>
    let blocks ← get_free_blocks num_blocks_needed .GPU
    traced (modify fun s =>
      (s.setTable request.request_id blocks).setLocation request.request_id .GPU)
  | some table =>
    if table.length < num_blocks_needed then
      let blocks ← get_free_blocks (num_blocks_needed - table.length) .GPU
      traced (modify fun s => s.setTable request.request_id (table ++ blocks))

/-- The loop of `swap_requests`. -/
def swap_loop (cur_location target_location : BlockLocation) :
    List Request → List Nat → List Nat → Call PyError TracedManager (List Nat × List Nat)
  | [], source_block_ids, target_block_ids => return (source_block_ids, target_block_ids)
  | request :: rest, source_block_ids, target_block_ids => do
    let s ← traced get
    match s.block_table.lookup request.request_id with
    | none => traced (throw (.not_allocated request.request_id))
    | some old_block_ids =>
      let location ← traced (BlockManager.locationOf request.request_id)
      traced (assert (location = cur_location) (.is_on_now request.request_id target_location))
      let new_block_ids ← get_free_blocks old_block_ids.length target_location
      traced (modify fun s => (s.setTable request.request_id new_block_ids).setLocation
        request.request_id target_location)
      traced (modify fun s => s.addSwapping cur_location old_block_ids)
      swap_loop cur_location target_location rest (source_block_ids ++ old_block_ids)
        (target_block_ids ++ new_block_ids)

def swap_requests (requests : List Request) (is_swap_in : Bool) :
    Call PyError TracedManager Unit := do
  let cur_location : BlockLocation := if is_swap_in then .CPU else .GPU
  let target_location : BlockLocation := if is_swap_in then .GPU else .CPU
  let (source_block_ids, target_block_ids) ← swap_loop cur_location target_location requests [] []
  traced (modify fun s => s.remote_call_all_workers_async
    (.swap_blocks requests source_block_ids target_block_ids is_swap_in))

/-- A call of a method. Only `allocate_blocks` and the swaps hand blocks out. -/
def method : BlockManager.ManagerCall → Call PyError TracedManager Unit
  | .allocate_blocks request => allocate_blocks request
  | .allocate_blocks_batched requests => requests.forM allocate_blocks
  | .swap_in_requests requests => swap_requests requests true
  | .swap_out_requests requests => swap_requests requests false
  | c => traced c.method

/-- The manager and its trace after the calls. -/
def afterCalls (t : TracedManager) (cs : List BlockManager.ManagerCall) : TracedManager :=
  cs.foldl (fun t c => leaves (method c) t) t

/-! ## The trace changes nothing -/

theorem erases_traced (m : Call PyError BlockManager α) : Erases (traced m) m :=
  erases_watch _ _

theorem get_free_blocks_erases (n : Nat) (l : BlockLocation) :
    Erases (get_free_blocks n l) (BlockManager.get_free_blocks n l) := by
  intro t
  have h := erases_traced (BlockManager.get_free_blocks n l) t
  unfold get_free_blocks
  rw [bind_apply, ← h]
  cases traced (BlockManager.get_free_blocks n l) t <;> rfl

theorem allocate_blocks_erases (request : Request) :
    Erases (allocate_blocks request) (BlockManager.allocate_blocks request) := by
  unfold allocate_blocks BlockManager.allocate_blocks
  apply erases_bind (erases_traced get)
  intro s
  apply erases_bind (erases_traced _)
  intro _
  dsimp only
  cases s.block_table.lookup request.request_id with
  | none => exact erases_bind (get_free_blocks_erases _ _) fun _ => erases_traced _
  | some table =>
    dsimp only
    split
    · exact erases_bind (get_free_blocks_erases _ _) fun _ => erases_traced _
    · exact erases_pure _

theorem swap_loop_erases (cur target : BlockLocation) (requests : List Request)
    (src tgt : List Nat) : Erases (swap_loop cur target requests src tgt)
      (BlockManager.swap_loop cur target requests src tgt) := by
  induction requests generalizing src tgt with
  | nil => exact erases_pure _
  | cons request rest ih =>
    unfold swap_loop BlockManager.swap_loop
    apply erases_bind (erases_traced get)
    intro s
    cases s.block_table.lookup request.request_id with
    | none => exact erases_traced _
    | some old =>
      apply erases_bind (erases_traced _)
      intro location
      apply erases_bind (erases_traced _)
      intro _
      apply erases_bind (get_free_blocks_erases _ _)
      intro new
      apply erases_bind (erases_traced _)
      intro _
      apply erases_bind (erases_traced _)
      intro _
      exact ih _ _

theorem swap_requests_erases (requests : List Request) (is_swap_in : Bool) :
    Erases (swap_requests requests is_swap_in)
      (BlockManager.swap_requests requests is_swap_in) := by
  unfold swap_requests BlockManager.swap_requests
  exact erases_bind (swap_loop_erases _ _ _ _ _) fun _ => erases_traced _

theorem method_erases (c : BlockManager.ManagerCall) : Erases (method c) c.method := by
  cases c with
  | allocate_blocks request => exact allocate_blocks_erases request
  | allocate_blocks_batched requests => exact erases_forM allocate_blocks_erases requests
  | free_blocks request_id => exact erases_traced _
  | free_blocks_batched requests => exact erases_traced _
  | swap_in_requests requests => exact swap_requests_erases requests true
  | swap_out_requests requests => exact swap_requests_erases requests false

/-- Under the trace runs the block manager itself. -/
theorem afterCalls_state (cs : List BlockManager.ManagerCall) (t : TracedManager) :
    (afterCalls t cs).state = BlockManager.afterCalls t.state cs := by
  induction cs generalizing t with
  | nil => rfl
  | cons c rest ih =>
    unfold afterCalls BlockManager.afterCalls
    rw [List.foldl_cons, List.foldl_cons, ← (method_erases c).leaves t]
    exact ih (leaves (method c) t)

/-! ## What a step puts on the trace -/

theorem sentSince_append {s s' : BlockManager} (cs : List RemoteCall)
    (h : s'.remote_calls = s.remote_calls ++ cs) : sentSince s s' = cs.map .sent := by
  unfold sentSince
  rw [h, List.drop_left]

/-- A part of a method that sends nothing. -/
def Silent (m : Call PyError BlockManager α) : Prop :=
  ∀ s, (leaves m s).remote_calls = s.remote_calls

/-- A part that looks at the manager and changes nothing. -/
def Looks (m : Call PyError BlockManager α) : Prop := ∀ s, leaves m s = s

theorem looks_get : Looks (get : Call PyError BlockManager BlockManager) := fun _ => rfl

theorem looks_throw (e : PyError) : Looks (throw e : Call PyError BlockManager α) := fun _ => rfl

theorem looks_assert (p : Prop) [Decidable p] (e : PyError) :
    Looks (assert p e : Call PyError BlockManager Unit) := by
  intro s
  unfold leaves
  rw [assert_apply]
  by_cases hp : p <;> simp [hp]

theorem looks_locationOf (r : RequestId) : Looks (BlockManager.locationOf r) := by
  intro s
  unfold leaves BlockManager.locationOf
  simp only [bind_apply, get_apply]
  cases s.request_location.lookup r <;> rfl

theorem Looks.silent {m : Call PyError BlockManager α} (h : Looks m) : Silent m := by
  intro s
  rw [h s]

theorem silent_modify {f : BlockManager → BlockManager}
    (h : ∀ s, (f s).remote_calls = s.remote_calls) :
    Silent (modify f : Call PyError BlockManager Unit) := h

theorem sentSince_silent {m : Call PyError BlockManager α} (h : Silent m) (s : BlockManager) :
    sentSince s (leaves m s) = [] :=
  sentSince_append [] (by rw [h s, List.append_nil])

/-- `_get_free_blocks` raises and changes nothing, or it hands out free blocks of the
manager, after a flush when it needs one. -/
theorem get_free_blocks_ok (n : Nat) (l : BlockLocation) (s : BlockManager) :
    (∃ e, BlockManager.get_free_blocks n l s = .error e s) ∨
      ∃ s1, (s1 = s ∨ s1 = s.flush l) ∧ BlockManager.get_free_blocks n l s =
        .ok ((s1.pool l).free_blocks_list.take n) (s1.takeFree l n) := by
  unfold BlockManager.get_free_blocks
  simp only [bind_apply, get_apply, assert_apply, modify_apply, pure_apply]
  by_cases h : n ≤ s.get_num_avail_blocks l
  · rw [if_pos h]
    by_cases hf : (s.pool l).free_blocks_list.length < n
    · exact Or.inr ⟨s.flush l, Or.inr rfl, by simp [hf]⟩
    · exact Or.inr ⟨s, Or.inl rfl, by simp [hf]⟩
  · exact Or.inl ⟨_, by rw [if_neg h]⟩

/-- A law that silent parts and hand-outs keep is kept by the loop of a swap. -/
theorem swap_loop_keeps {I : TracedManager → Prop} {cur target : BlockLocation}
    (hs : ∀ {β : Type} {m : Call PyError BlockManager β}, Silent m → Keeps I (traced m))
    (hg : ∀ n, Keeps I (get_free_blocks n target)) (requests : List Request)
    (src tgt : List Nat) : Keeps I (swap_loop cur target requests src tgt) := by
  induction requests generalizing src tgt with
  | nil => exact keeps_pure _
  | cons request rest ih =>
    unfold swap_loop
    apply keeps_bind (hs looks_get.silent)
    intro s
    cases s.block_table.lookup request.request_id with
    | none => exact hs (looks_throw _).silent
    | some old =>
      apply keeps_bind (hs (looks_locationOf _).silent)
      intro location
      apply keeps_bind (hs (looks_assert _ _).silent)
      intro _
      apply keeps_bind (hg _)
      intro new
      refine keeps_bind (hs (silent_modify ?_)) fun _ => keeps_bind (hs (silent_modify ?_)) ?_
      · exact fun _ => rfl
      · exact fun s => BlockManager.remote_calls_withPool s _ _
      · exact fun _ => ih _ _

/-! ## No block is handed out while a swap may read it -/

/-- The manager asked for a swap of the block, and did not wait for the swaps since. -/
def Pending (trace : List TraceEvent) (block : BlockLocation × Nat) : Prop :=
  ∃ e ∈ sinceLast (fun e => e = .sent (BlockManager.wait_for_all_swap block.1)) trace,
    block ∈ e.sources

theorem pending_append_singleton {trace : List TraceEvent} {e : TraceEvent}
    {block : BlockLocation × Nat} : Pending (trace ++ [e]) block ↔
      e ≠ .sent (BlockManager.wait_for_all_swap block.1) ∧
        (Pending trace block ∨ block ∈ e.sources) := by
  unfold Pending
  constructor
  · rintro ⟨e', he, hb⟩
    obtain ⟨hw, he' | rfl⟩ := mem_sinceLast_append.mp he
    · exact ⟨hw, Or.inl ⟨e', he', hb⟩⟩
    · exact ⟨hw, Or.inr hb⟩
  · rintro ⟨hw, ⟨e', he, hb⟩ | hb⟩
    · exact ⟨e', mem_sinceLast_append.mpr ⟨hw, Or.inl he⟩, hb⟩
    · exact ⟨e, mem_sinceLast_append.mpr ⟨hw, Or.inr rfl⟩, hb⟩

theorem mem_sources_swap {requests : List Request} {src tgt : List Nat} {is_swap_in : Bool}
    {block : BlockLocation × Nat} :
    block ∈ (TraceEvent.sent (.swap_blocks requests src tgt is_swap_in)).sources ↔
      block.1 = (if is_swap_in then BlockLocation.CPU else BlockLocation.GPU) ∧
        block.2 ∈ src := by
  obtain ⟨l, b⟩ := block
  simp only [TraceEvent.sources, List.mem_map, Prod.mk.injEq]
  constructor
  · rintro ⟨b', hb, rfl, rfl⟩
    exact ⟨rfl, hb⟩
  · rintro ⟨rfl, hb⟩
    exact ⟨b, hb, rfl, rfl⟩

theorem mem_handed_out {l : BlockLocation} {blocks : List Nat} {block : BlockLocation × Nat} :
    block ∈ (TraceEvent.handed_out l blocks).handed ↔ block.1 = l ∧ block.2 ∈ blocks := by
  obtain ⟨l', b⟩ := block
  simp only [TraceEvent.handed, List.mem_map, Prod.mk.injEq]
  constructor
  · rintro ⟨b', hb, rfl, rfl⟩
    exact ⟨rfl, hb⟩
  · rintro ⟨rfl, hb⟩
    exact ⟨b, hb, rfl, rfl⟩

/-- Each pending block waits in the swapping list of its device, and no block was
pending when it was handed out. -/
structure Guarded (t : TracedManager) : Prop where
  waits : ∀ block, Pending t.trace block → block.2 ∈ (t.state.pool block.1).swapping_blocks_list
  safe : Always (fun before e => ∀ block ∈ e.handed, ¬ Pending before block) t.trace

theorem guarded_create (g c : Nat) (cc : CacheConfig) : Guarded (create g c cc) where
  waits block h := by
    obtain ⟨e, he, _⟩ := h
    simp [create] at he
  safe := always_nil

/-- A silent change that takes no block off the swapping lists. -/
theorem Guarded.silent {t : TracedManager} (h : Guarded t) {s : BlockManager}
    (hs : ∀ l, (t.state.pool l).swapping_blocks_list ⊆ (s.pool l).swapping_blocks_list) :
    Guarded ⟨s, t.trace⟩ :=
  ⟨fun block hb => hs block.1 (h.waits block hb), h.safe⟩

/-- After the manager waited for the swaps of `l`, its swapping list may go. -/
theorem Guarded.wait {t : TracedManager} (h : Guarded t) (l : BlockLocation) {s : BlockManager}
    (hs : ∀ l', l' ≠ l → (s.pool l').swapping_blocks_list =
      (t.state.pool l').swapping_blocks_list) :
    Guarded ⟨s, t.trace ++ [.sent (BlockManager.wait_for_all_swap l)]⟩ where
  waits block hb := by
    obtain ⟨hw, hb | hb⟩ := pending_append_singleton.mp hb
    · have hne : block.1 ≠ l := by
        rintro rfl
        exact hw rfl
      dsimp only
      rw [hs _ hne]
      exact h.waits block hb
    · cases l <;> simp [TraceEvent.sources, BlockManager.wait_for_all_swap] at hb
  safe := by
    rw [always_append_singleton]
    refine ⟨h.safe, ?_⟩
    intro block hb
    simp [TraceEvent.handed] at hb

/-- A block that is not in the swapping list may be handed out. -/
theorem Guarded.hand_out {t : TracedManager} (h : Guarded t) {l : BlockLocation}
    {blocks : List Nat} (hb : ∀ b ∈ blocks, b ∉ (t.state.pool l).swapping_blocks_list) :
    Guarded ⟨t.state, t.trace ++ [.handed_out l blocks]⟩ where
  waits block hp := by
    obtain ⟨_, hp | hp⟩ := pending_append_singleton.mp hp
    · exact h.waits block hp
    · simp [TraceEvent.sources] at hp
  safe := by
    rw [always_append_singleton]
    refine ⟨h.safe, ?_⟩
    intro block hm hp
    obtain ⟨rfl, hmem⟩ := mem_handed_out.mp hm
    exact hb _ hmem (h.waits block hp)

/-- The sources of a swap are in the swapping list when the message goes out. -/
theorem Guarded.swap {t : TracedManager} (h : Guarded t) (requests : List Request)
    {src : List Nat} (tgt : List Nat) (is_swap_in : Bool) {s : BlockManager}
    (hp : s.pool = t.state.pool)
    (hs : src ⊆ (t.state.pool (if is_swap_in then .CPU else .GPU)).swapping_blocks_list) :
    Guarded ⟨s, t.trace ++ [.sent (.swap_blocks requests src tgt is_swap_in)]⟩ where
  waits block hb := by
    dsimp only
    rw [hp]
    obtain ⟨_, hb | hb⟩ := pending_append_singleton.mp hb
    · exact h.waits block hb
    · obtain ⟨hl, hb⟩ := mem_sources_swap.mp hb
      rw [hl]
      exact hs hb
  safe := by
    rw [always_append_singleton]
    refine ⟨h.safe, ?_⟩
    intro block hb
    simp [TraceEvent.handed] at hb

/-! ## The methods keep it -/

/-- No free block of the device is in its swapping list. -/
def Apart (l : BlockLocation) (s : BlockManager) : Prop :=
  ∀ b ∈ (s.pool l).free_blocks_list, b ∉ (s.pool l).swapping_blocks_list

theorem apart_of_partitioned {s : BlockManager} (h : BlockManager.Partitioned s)
    (l : BlockLocation) : Apart l s := by
  intro b hf hs
  have hnd := (h.blocks l).nodup_iff.mpr List.nodup_range
  exact List.disjoint_of_nodup_append (List.nodup_append.mp hnd).1 hf hs

theorem apart_flush (s : BlockManager) (l : BlockLocation) : Apart l (s.flush l) := by
  intro b _
  simp [BlockManager.flush]

/-- The law of a hand-out: the manager is guarded, the free blocks are apart, and the
swapping list of the other device is `other`. -/
structure HandsOut (l : BlockLocation) (other : List Nat) (t : TracedManager) : Prop where
  guarded : Guarded t
  apart : Apart l t.state
  other : ∀ l', l' ≠ l → (t.state.pool l').swapping_blocks_list = other

theorem HandsOut.flush {l : BlockLocation} {other : List Nat} {t : TracedManager}
    (h : HandsOut l other t) : HandsOut l other
      ⟨t.state.flush l, t.trace ++ [.sent (BlockManager.wait_for_all_swap l)]⟩ where
  guarded := by
    apply h.guarded.wait l
    intro l' hl
    rw [(BlockManager.flush_takes t.state l).other l' hl]
  apart := apart_flush t.state l
  other l' hl := by
    dsimp only
    rw [(BlockManager.flush_takes t.state l).other l' hl]
    exact h.other l' hl

/-- The first free blocks leave the pool and are handed out. -/
theorem HandsOut.take {l : BlockLocation} {other : List Nat} {t : TracedManager}
    (h : HandsOut l other t) (n : Nat) : HandsOut l other ⟨t.state.takeFree l n,
      t.trace ++ [.handed_out l ((t.state.pool l).free_blocks_list.take n)]⟩ := by
  have hswap : ∀ l', ((t.state.takeFree l n).pool l').swapping_blocks_list =
      (t.state.pool l').swapping_blocks_list := by
    intro l'
    by_cases hl : l' = l
    · subst hl
      simp [BlockManager.takeFree]
    · rw [(BlockManager.takeFree_takes t.state l n).other l' hl]
  constructor
  · have hfree : ∀ b ∈ (t.state.pool l).free_blocks_list.take n,
        b ∉ (t.state.pool l).swapping_blocks_list :=
      fun b hb => h.apart b (List.mem_of_mem_take hb)
    have hout := h.guarded.hand_out hfree
    exact hout.silent fun l' => by rw [hswap l']; exact List.Subset.refl _
  · intro b hb
    rw [hswap l]
    apply h.apart b
    simp only [BlockManager.takeFree, BlockManager.pool_withPool_self] at hb
    exact List.mem_of_mem_drop hb
  · intro l' hl
    rw [hswap l']
    exact h.other l' hl

theorem get_free_blocks_hands_out (n : Nat) (l : BlockLocation) (other : List Nat) :
    Keeps (HandsOut l other) (get_free_blocks n l) := by
  intro t h
  unfold get_free_blocks traced
  rcases get_free_blocks_ok n l t.state with ⟨e, he⟩ | ⟨s1, hs1, he⟩
  · rw [bind_apply, watch_error he, sentSince_append [] (by simp)]
    simpa using h
  · rw [bind_apply, watch_ok he]
    rcases hs1 with rfl | rfl
    · rw [sentSince_append [] (by simp [BlockManager.takeFree])]
      simpa [bind_apply, note_apply, pure_apply] using h.take n
    · rw [sentSince_append [BlockManager.wait_for_all_swap l]
        (by simp [BlockManager.takeFree, BlockManager.flush,
          BlockManager.remote_call_all_workers_async])]
      simpa [bind_apply, note_apply, pure_apply] using h.flush.take n

/-- A silent part goes from one law to another when the state that it leaves does. -/
theorem meets_traced {I J : TracedManager → Prop} {m : Call PyError BlockManager α}
    (hm : Silent m) (h : ∀ t, I t → J ⟨leaves m t.state, t.trace⟩) :
    Meets I (traced m) (fun _ => J) (fun _ => J) := by
  intro t ht
  have hsent := sentSince_silent hm t.state
  have hj := h t ht
  unfold leaves at hsent hj
  unfold traced watch
  cases he : m t.state <;> rw [he] at hsent hj <;> dsimp only <;> rw [hsent, List.append_nil] <;>
    exact hj

theorem keeps_looks {I : TracedManager → Prop} {m : Call PyError BlockManager α} (hm : Looks m) :
    Keeps I (traced m) := by
  apply meets_traced hm.silent
  intro t ht
  rw [hm t.state]
  exact ht

theorem traced_throw (e : PyError) (t : TracedManager) :
    (traced (throw e) : Call PyError TracedManager α) t = .error e t := by
  unfold traced
  rw [watch_error (throw_apply e t.state), sentSince_append [] (by simp)]
  simp

theorem traced_send (c : RemoteCall) (t : TracedManager) :
    traced (modify fun s => s.remote_call_all_workers_async c) t =
      .ok () ⟨t.state.remote_call_all_workers_async c, t.trace ++ [.sent c]⟩ := by
  unfold traced
  rw [watch_ok (modify_apply _ _), sentSince_append [c] rfl]
  rfl

theorem allocate_blocks_guarded (request : Request) (other : List Nat) :
    Meets (HandsOut .GPU other) (allocate_blocks request) (fun _ => Guarded)
      (fun _ => Guarded) := by
  have hg : ∀ (e : PyError) t, HandsOut .GPU other t → Guarded t := fun _ _ h => h.guarded
  have htake (n : Nat) := (get_free_blocks_hands_out n .GPU other).meets hg
  unfold allocate_blocks
  apply meets_bind ((keeps_looks looks_get).meets hg)
  intro s
  apply meets_bind ((keeps_looks (looks_assert _ _)).meets hg)
  intro _
  dsimp only
  cases s.block_table.lookup request.request_id with
  | none =>
    apply meets_bind (htake _)
    intro blocks
    apply meets_traced
    · exact fun _ => rfl
    · exact fun t h => h.guarded.silent fun l => by simp [leaves, modify_apply]
  | some table =>
    dsimp only
    split
    · apply meets_bind (htake _)
      intro blocks
      apply meets_traced
      · exact fun _ => rfl
      · exact fun t h => h.guarded.silent fun l => by simp [leaves, modify_apply]
    · exact meets_pure fun t h => h.guarded

/-- One turn of the loop of a swap puts the old blocks on the swapping list of `cur`. -/
theorem HandsOut.addSwapping {cur target : BlockLocation} (hne : target ≠ cur)
    {other : List Nat} {t : TracedManager} (h : HandsOut target other t) (old : List Nat) :
    HandsOut target (other ++ old) ⟨t.state.addSwapping cur old, t.trace⟩ := by
  have hpool : (t.state.addSwapping cur old).pool target = t.state.pool target :=
    BlockManager.pool_withPool_ne _ _ hne
  have hcur : ∀ l', l' ≠ target → l' = cur := by
    intro l' hl
    cases l' <;> cases cur <;> cases target <;> simp_all
  have hother : ∀ l', l' ≠ target →
      ((t.state.addSwapping cur old).pool l').swapping_blocks_list = other ++ old := by
    intro l' hl
    obtain rfl := hcur l' hl
    rw [← h.other l' hl]
    simp [BlockManager.addSwapping]
  constructor
  · apply h.guarded.silent
    intro l
    by_cases hl : l = target
    · rw [hl, hpool]
      exact List.Subset.refl _
    · rw [hother l hl, h.other l hl]
      exact List.subset_append_left _ _
  · unfold Apart
    dsimp only
    rw [hpool]
    exact h.apart
  · exact hother

/-- While the loop runs, the blocks that it collected wait in the swapping list. -/
theorem swap_loop_guarded {cur target : BlockLocation} (hne : target ≠ cur)
    (requests : List Request) (src tgt other : List Nat) (hsrc : src ⊆ other) :
    Meets (HandsOut target other) (swap_loop cur target requests src tgt)
      (fun p t => Guarded t ∧ p.1 ⊆ (t.state.pool cur).swapping_blocks_list)
      (fun _ => Guarded) := by
  induction requests generalizing src tgt other with
  | nil =>
    apply meets_pure
    intro t h
    refine ⟨h.guarded, ?_⟩
    rw [h.other cur (Ne.symm hne)]
    exact hsrc
  | cons request rest ih =>
    have hg : ∀ (e : PyError) t, HandsOut target other t → Guarded t := fun _ _ h => h.guarded
    unfold swap_loop
    apply meets_bind ((keeps_looks looks_get).meets hg)
    intro s
    cases s.block_table.lookup request.request_id with
    | none =>
      intro t ht
      dsimp only
      rw [traced_throw]
      exact ht.guarded
    | some old =>
      apply meets_bind ((keeps_looks (looks_locationOf _)).meets hg)
      intro location
      apply meets_bind ((keeps_looks (looks_assert _ _)).meets hg)
      intro _
      apply meets_bind ((get_free_blocks_hands_out _ target other).meets hg)
      intro new
      apply meets_bind (Q := fun _ => HandsOut target other)
      · refine Keeps.meets (meets_traced (fun _ => rfl) fun t h => ⟨h.guarded.silent ?_, ?_, ?_⟩) hg
        · intro l
          simp [leaves, modify_apply]
        · simpa [Apart, leaves, modify_apply] using h.apart
        · simpa [leaves, modify_apply] using h.other
      · intro _
        apply meets_bind (Q := fun _ => HandsOut target (other ++ old))
        · intro t h
          have hk := meets_traced (m := modify fun s => s.addSwapping cur old)
            (silent_modify fun s => BlockManager.remote_calls_withPool s _ _)
            (fun t (h : HandsOut target other t) => h.addSwapping hne old) t h
          exact hk
        · intro _
          apply ih
          exact List.append_subset.mpr ⟨List.subset_append_of_subset_left _ hsrc,
            List.subset_append_right _ _⟩

/-- The requests of a swap are collected first, and the message goes out at the end. -/
theorem swap_requests_guarded (requests : List Request) (is_swap_in : Bool) :
    Meets (fun t => Guarded t ∧ BlockManager.Partitioned t.state)
      (swap_requests requests is_swap_in) (fun _ => Guarded) (fun _ => Guarded) := by
  unfold swap_requests
  apply meets_bind (Q := fun p t => Guarded t ∧ p.1 ⊆
    (t.state.pool (if is_swap_in then .CPU else .GPU)).swapping_blocks_list)
  · rintro t ⟨hg, hp⟩
    refine swap_loop_guarded ?_ requests [] []
      (t.state.pool (if is_swap_in then .CPU else .GPU)).swapping_blocks_list
      (List.nil_subset _) t ⟨hg, apart_of_partitioned hp _, ?_⟩
    · cases is_swap_in <;> simp
    · intro l' hl
      cases l' <;> cases is_swap_in <;> first | rfl | exact absurd rfl hl
  · rintro ⟨src, tgt⟩ t ⟨hg, hs⟩
    have h := hg.swap requests tgt is_swap_in
      (BlockManager.pool_remote t.state (.swap_blocks requests src tgt is_swap_in)) hs
    dsimp only
    rw [traced_send]
    exact h

/-- A guarded manager with the partition of its blocks. -/
def GuardedAs (m : BlockLocation → Nat) (t : TracedManager) : Prop :=
  Guarded t ∧ BlockManager.PartitionedAs m t.state

theorem keeps_guardedAs {m : BlockLocation → Nat} {watched : Call PyError TracedManager Unit}
    {method : Call PyError BlockManager Unit} (he : Erases watched method)
    (hp : Keeps (BlockManager.PartitionedAs m) method)
    (hg : Meets (GuardedAs m) watched (fun _ => Guarded) (fun _ => Guarded)) :
    Keeps (GuardedAs m) watched :=
  (hg.and (he.keeps hp)).imp (fun _ h => ⟨h, h.2⟩) (fun _ _ h => h) (fun _ _ h => h)

theorem allocate_blocks_keeps (m : BlockLocation → Nat) (request : Request) :
    Keeps (GuardedAs m) (allocate_blocks request) := by
  apply keeps_guardedAs (allocate_blocks_erases request)
    (BlockManager.allocate_blocks_keeps m request)
  rintro t ⟨hg, hp, _⟩
  refine allocate_blocks_guarded request (t.state.pool .CPU).swapping_blocks_list t
    ⟨hg, apart_of_partitioned hp .GPU, ?_⟩
  intro l hl
  cases l
  · exact absurd rfl hl
  · rfl

/-- The messages and the swapping lists are these. -/
def SwappingIs (cs : List RemoteCall) (swapping : BlockLocation → List Nat) (s : BlockManager) :
    Prop :=
  s.remote_calls = cs ∧ ∀ l, (s.pool l).swapping_blocks_list = swapping l

/-- Freed blocks go from a table to the free list. No swapping list changes. -/
theorem free_blocks_swapping (cs : List RemoteCall) (swapping : BlockLocation → List Nat)
    (r : RequestId) : Keeps (SwappingIs cs swapping) (BlockManager.free_blocks r) := by
  rintro s ⟨hc, hs⟩
  unfold BlockManager.free_blocks
  simp only [bind_apply, get_apply]
  cases s.block_table.lookup r with
  | none => exact ⟨hc, hs⟩
  | some table =>
    simp only [bind_apply, BlockManager.locationOf, get_apply]
    cases s.request_location.lookup r with
    | none => exact ⟨hc, hs⟩
    | some location =>
      refine ⟨by simpa [BlockManager.addFree, BlockManager.popTable] using hc, ?_⟩
      intro l
      rw [← hs l, BlockManager.pool_popTable]
      by_cases hl : l = location
      · subst hl
        simp [BlockManager.addFree]
      · unfold BlockManager.addFree
        rw [BlockManager.pool_withPool_ne _ _ hl]

theorem guarded_of_swapping {m : Call PyError BlockManager α}
    (h : ∀ cs swapping, Keeps (SwappingIs cs swapping) m) : Keeps Guarded (traced m) := by
  have hl (s : BlockManager) := (h s.remote_calls fun l => (s.pool l).swapping_blocks_list).leaves
    (s := s) ⟨rfl, fun _ => rfl⟩
  apply meets_traced
  · exact fun s => (hl s).1
  · intro t ht
    apply ht.silent
    intro l
    rw [(hl t.state).2 l]
    exact List.Subset.refl _

theorem method_guarded (m : BlockLocation → Nat) (c : BlockManager.ManagerCall) :
    Meets (GuardedAs m) (method c) (fun _ => Guarded) (fun _ => Guarded) := by
  have hkept (watched : Call PyError TracedManager Unit) (h : Keeps (GuardedAs m) watched) :
      Meets (GuardedAs m) watched (fun _ => Guarded) (fun _ => Guarded) :=
    h.imp (fun _ h => h) (fun _ _ h => h.1) (fun _ _ h => h.1)
  cases c with
  | allocate_blocks request => exact hkept _ (allocate_blocks_keeps m request)
  | allocate_blocks_batched requests =>
    exact hkept _ (keeps_forM _ _ (allocate_blocks_keeps m))
  | free_blocks request_id =>
    exact (guarded_of_swapping fun cs sw => free_blocks_swapping cs sw request_id).imp
      (fun _ h => h.1) (fun _ _ h => h) (fun _ _ h => h)
  | free_blocks_batched requests =>
    exact (guarded_of_swapping fun cs sw =>
      keeps_forM _ _ fun request => free_blocks_swapping cs sw request.request_id).imp
      (fun _ h => h.1) (fun _ _ h => h) (fun _ _ h => h)
  | swap_in_requests requests =>
    exact (swap_requests_guarded requests true).imp (fun _ h => ⟨h.1, h.2.1⟩) (fun _ _ h => h)
      (fun _ _ h => h)
  | swap_out_requests requests =>
    exact (swap_requests_guarded requests false).imp (fun _ h => ⟨h.1, h.2.1⟩) (fun _ _ h => h)
      (fun _ _ h => h)

theorem afterCalls_guarded (g c : Nat) (cc : CacheConfig) (cs : List BlockManager.ManagerCall) :
    Guarded (afterCalls (create g c cc) cs) := by
  induction cs using List.reverseRecOn with
  | nil => exact guarded_create g c cc
  | append_singleton cs call ih =>
    -- the manager under the trace has its partition, since the trace changes nothing
    have hpartition : BlockManager.PartitionedAs (BlockManager.create g c cc).max_num_blocks
        (afterCalls (create g c cc) cs).state := by
      rw [afterCalls_state]
      exact BlockManager.afterCalls_keeps _ cs ⟨BlockManager.partitioned_create g c cc, rfl⟩
    have hstep := (method_guarded _ call).leaves ⟨ih, hpartition⟩
    unfold afterCalls
    rw [List.foldl_append]
    exact hstep

/-! ## One swap -/

/-- What happens in one swap: sources are at one device, hand-outs at the other. -/
def OfSwap (is_swap_in : Bool) (e : TraceEvent) : Prop :=
  (∀ block ∈ e.sources, block.1 = if is_swap_in then .CPU else .GPU) ∧
    ∀ block ∈ e.handed, block.1 = if is_swap_in then .GPU else .CPU

theorem get_free_blocks_adds {P : TraceEvent → Prop} {old : List TraceEvent} {n : Nat}
    {l : BlockLocation} (hw : P (.sent (BlockManager.wait_for_all_swap l)))
    (hh : ∀ blocks, P (.handed_out l blocks)) : Keeps (Adds P old) (get_free_blocks n l) := by
  apply keeps_bind
  · apply adds_watch
    intro s x hx
    rcases get_free_blocks_ok n l s with ⟨e, he⟩ | ⟨s1, rfl | rfl, he⟩
    · simp [leaves, he, sentSince] at hx
    · simp [leaves, he, sentSince, BlockManager.takeFree] at hx
    · simp only [leaves, he] at hx
      rw [sentSince_append [BlockManager.wait_for_all_swap l]
        (by simp [BlockManager.takeFree, BlockManager.flush,
          BlockManager.remote_call_all_workers_async])] at hx
      obtain rfl : x = _ := by simpa using hx
      exact hw
  · intro blocks
    exact keeps_bind (adds_note (hh blocks)) fun _ => keeps_pure _

theorem swap_requests_adds (requests : List Request) (is_swap_in : Bool)
    (old : List TraceEvent) :
    Keeps (Adds (OfSwap is_swap_in) old) (swap_requests requests is_swap_in) := by
  unfold swap_requests
  apply keeps_bind
  · apply swap_loop_keeps
    · intro β m hm
      apply adds_watch
      intro s x hx
      rw [sentSince_silent hm] at hx
      simp at hx
    · intro n
      apply get_free_blocks_adds
      · cases is_swap_in <;>
          simp [OfSwap, TraceEvent.sources, TraceEvent.handed, BlockManager.wait_for_all_swap]
      · intro blocks
        refine ⟨by simp [TraceEvent.sources], fun block hb => (mem_handed_out.mp hb).1⟩
  · rintro ⟨src, tgt⟩
    apply adds_watch
    intro s x hx
    obtain rfl : x = .sent (.swap_blocks requests src tgt is_swap_in) := by
      rw [show leaves _ s = s.remote_call_all_workers_async _ from rfl,
        sentSince_append [_] rfl] at hx
      simpa using hx
    exact ⟨fun block hb => (mem_sources_swap.mp hb).1, by simp [TraceEvent.handed]⟩

/-! ## The law -/

/-- After any calls, also calls that raise half-way: between the message of a swap
and a hand-out of one of its source blocks stands the message that waits for the
swaps from that device. And one swap never hands out a block that it reads. -/
theorem no_block_is_reused_while_a_swap_may_read_it (max_num_gpu_blocks max_num_cpu_blocks : Nat)
    (cache_config : CacheConfig) (cs : List BlockManager.ManagerCall) :
    let t := afterCalls (create max_num_gpu_blocks max_num_cpu_blocks cache_config) cs
    (∀ before e between e' rest, t.trace = before ++ e :: between ++ e' :: rest →
      ∀ block ∈ e.sources, block ∈ e'.handed →
        .sent (BlockManager.wait_for_all_swap block.1) ∈ between) ∧
    ∀ requests is_swap_in, ∃ new,
      (leaves (swap_requests requests is_swap_in) t).trace = t.trace ++ new ∧
      ∀ e ∈ new, ∀ e' ∈ new, ∀ block ∈ e.sources, block ∉ e'.handed := by
  intro t
  constructor
  · intro before e between e' rest ht block hsrc hout
    by_contra hnone
    have hsafe := (afterCalls_guarded max_num_gpu_blocks max_num_cpu_blocks cache_config cs).safe
      (before ++ e :: between) e' rest ht block hout
    refine hsafe ⟨e, mem_sinceLast_of_none ?_ ?_, hsrc⟩
    · rintro rfl
      cases hl : block.1 <;> rw [hl] at hsrc <;>
        simp [TraceEvent.sources, BlockManager.wait_for_all_swap] at hsrc
    · rintro x hx rfl
      exact hnone hx
  · intro requests is_swap_in
    obtain ⟨new, hnew, hp⟩ :=
      (swap_requests_adds requests is_swap_in t.trace).leaves (adds_refl t)
    refine ⟨new, hnew, ?_⟩
    intro e he e' he' block hsrc hout
    have h1 := (hp e he).1 block hsrc
    have h2 := (hp e' he').2 block hout
    rw [h1] at h2
    cases is_swap_in <;> simp at h2

end TracedManager

end distserve
