-- The partition law of the block manager: each block is in exactly one pool or
-- one table, after any calls, and also after calls that raise half-way.
import RecomputeOrMigrate.BlockOwners

open calls counting

namespace distserve.BlockManager

/-! ## The invariant -/

/-- Each block of each device is once in the pool or in one table of a request
located there, and the two tables have the same keys. -/
structure Partitioned (s : BlockManager) : Prop where
  same_keys : SameKeys s
  blocks : ∀ l, List.Perm
    ((s.pool l).free_blocks_list ++ (s.pool l).swapping_blocks_list ++ s.located l)
    (List.range (s.max_num_blocks l))

theorem count_located (s : BlockManager) (l : BlockLocation) (b : Nat) :
    (s.located l).count b = ∑ r ∈ s.block_table.keys.toFinset, (s.heldAt l r).count b := by
  rw [sum_toFinset_eq s.block_table.keys_nodup, located, List.count_flatMap]
  rfl

/-- The blocks of a location in terms of counts. -/
theorem perm_iff_count (s : BlockManager) (l : BlockLocation) :
    List.Perm ((s.pool l).free_blocks_list ++ (s.pool l).swapping_blocks_list ++ s.located l)
      (List.range (s.max_num_blocks l)) ↔
    ∀ b, poolCount s l b + (s.located l).count b = (List.range (s.max_num_blocks l)).count b := by
  rw [List.perm_iff_count]
  simp only [poolCount, List.count_append]

theorem Moves.located {s s' : BlockManager} {r : RequestId} (h : Moves s r s')
    (l : BlockLocation) (b : Nat) :
    (s'.located l).count b + (s.heldAt l r).count b =
      (s.located l).count b + (s'.heldAt l r).count b := by
  rw [count_located, count_located]
  apply sum_change r
  · intro r' hr
    rw [heldAt_of_notMem (by simpa [AList.mem_keys] using hr), List.count_nil]
  · intro r' hr
    rw [heldAt_of_notMem (by simpa [AList.mem_keys] using hr), List.count_nil]
  · intro r' hr
    rw [heldAt_congr (h.others r' hr)]

/-- A move between the pools and one table keeps the partition. -/
theorem Partitioned.moves {s s' : BlockManager} {r : RequestId} (hp : Partitioned s)
    (h : Moves s r s') : Partitioned s' where
  same_keys := h.sameKeys
  blocks l := by
    rw [perm_iff_count]
    intro b
    have h1 := (perm_iff_count s l).mp (hp.blocks l) b
    have h2 := h.located l b
    have h3 := h.count l b
    rw [h.max_num_blocks, ← h1]
    omega

/-- A remote call moves no block. -/
theorem moves_remote {s : BlockManager} (h : SameKeys s) (c : RemoteCall) (r : RequestId) :
    Moves s r (s.remote_call_all_workers_async c) :=
  ⟨fun _ _ => rfl, h, fun l b => by simp [poolCount, heldAt], rfl, by simp⟩

theorem partitioned_create (g c : Nat) (cc : CacheConfig) : Partitioned (create g c cc) where
  same_keys := sameKeys_create g c cc
  blocks l := by cases l <;> simp [create, pool, located, max_num_blocks]

/-! ## Every method keeps the partition -/

/-- The partition of a manager that was made with the sizes `m`. -/
def PartitionedAs (m : BlockLocation → Nat) (s : BlockManager) : Prop :=
  Partitioned s ∧ s.max_num_blocks = m

theorem PartitionedAs.moves {m : BlockLocation → Nat} {s s' : BlockManager} {r : RequestId}
    (hp : PartitionedAs m s) (h : Moves s r s') : PartitionedAs m s' :=
  ⟨hp.1.moves h, by rw [h.max_num_blocks, hp.2]⟩

variable (m : BlockLocation → Nat)

theorem allocate_blocks_keeps (request : Request) :
    Keeps (PartitionedAs m) (allocate_blocks request) := by
  intro s hs
  rcases allocate_blocks_cases hs.1.same_keys request with ⟨_, e, he⟩ | ⟨_, s', he, h⟩
  · rw [he]; exact hs
  · rw [he]; exact hs.moves h.moves

theorem free_blocks_keeps (r : RequestId) : Keeps (PartitionedAs m) (free_blocks r) := by
  intro s hs
  rcases free_blocks_cases hs.1.same_keys r with ⟨_, he⟩ | ⟨_, s', he, h⟩
  · rw [he]; exact hs
  · rw [he]; exact hs.moves h.moves

/-- The loop of a swap may raise at any request. The requests before it stay
swapped, with the partition intact. -/
theorem swap_loop_keeps {cur target : BlockLocation} (hne : target ≠ cur)
    (requests : List Request) (src tgt : List Nat) :
    Keeps (PartitionedAs m) (swap_loop cur target requests src tgt) := by
  induction requests generalizing src tgt with
  | nil => exact keeps_pure _
  | cons request rest ih =>
    intro s hs
    rcases swap_loop_cons hne hs.1.same_keys request rest src tgt with
      (⟨_, e, _, he⟩ | ⟨_, _, _, he⟩) | ⟨old, new, s1, h1, _, he⟩
    · rw [he]; exact hs
    · rw [he]; exact hs
    · rw [he]; exact ih _ _ s1 (hs.moves h1.moves)

theorem swap_requests_keeps (requests : List Request) (is_swap_in : Bool) :
    Keeps (PartitionedAs m) (swap_requests requests is_swap_in) := by
  unfold swap_requests
  apply keeps_bind
  · apply swap_loop_keeps
    cases is_swap_in <;> simp
  · rintro ⟨src, tgt⟩ s hs
    exact hs.moves (moves_remote hs.1.same_keys _ 0)

/-! ## The law -/

/-- A call of a method that changes the tables. -/
inductive ManagerCall
  | allocate_blocks (request : Request)
  | allocate_blocks_batched (requests : List Request)
  | free_blocks (request_id : RequestId)
  | free_blocks_batched (requests : List Request)
  | swap_in_requests (requests : List Request)
  | swap_out_requests (requests : List Request)

def ManagerCall.method : ManagerCall → Call PyError BlockManager Unit
  | .allocate_blocks request => BlockManager.allocate_blocks request
  | .allocate_blocks_batched requests => BlockManager.allocate_blocks_batched requests
  | .free_blocks request_id => BlockManager.free_blocks request_id
  | .free_blocks_batched requests => BlockManager.free_blocks_batched requests
  | .swap_in_requests requests => BlockManager.swap_in_requests requests
  | .swap_out_requests requests => BlockManager.swap_out_requests requests

theorem method_keeps (c : ManagerCall) : Keeps (PartitionedAs m) c.method := by
  cases c with
  | allocate_blocks request => exact allocate_blocks_keeps m request
  | allocate_blocks_batched requests => exact keeps_forM _ _ (allocate_blocks_keeps m)
  | free_blocks request_id => exact free_blocks_keeps m request_id
  | free_blocks_batched requests =>
    exact keeps_forM _ _ fun request => free_blocks_keeps m request.request_id
  | swap_in_requests requests => exact swap_requests_keeps m requests true
  | swap_out_requests requests => exact swap_requests_keeps m requests false

/-- The manager after the calls, where a caller goes on after a call that raises. -/
def afterCalls (s : BlockManager) (cs : List ManagerCall) : BlockManager :=
  cs.foldl (fun s c => leaves c.method s) s

theorem afterCalls_keeps (cs : List ManagerCall) {s : BlockManager} (hs : PartitionedAs m s) :
    PartitionedAs m (afterCalls s cs) := by
  induction cs generalizing s with
  | nil => exact hs
  | cons c rest ih => exact ih ((method_keeps m c).leaves hs)

/-- After any calls on any requests, also calls that raise half-way, each GPU
block is in the free list, in the swapping list or in the table of one request on
the GPU, and in only one of them. The same holds for the CPU blocks, and the two
tables have the same keys. -/
theorem every_block_has_exactly_one_place (max_num_gpu_blocks max_num_cpu_blocks : Nat)
    (cache_config : CacheConfig) (cs : List ManagerCall) :
    let s := afterCalls (create max_num_gpu_blocks max_num_cpu_blocks cache_config) cs
    List.Perm (s.gpu.free_blocks_list ++ s.gpu.swapping_blocks_list ++ s.located .GPU)
        (List.range max_num_gpu_blocks) ∧
      List.Perm (s.cpu.free_blocks_list ++ s.cpu.swapping_blocks_list ++ s.located .CPU)
        (List.range max_num_cpu_blocks) ∧
      ∀ r, r ∈ s.block_table ↔ r ∈ s.request_location := by
  intro s
  have h := afterCalls_keeps _ cs
    ⟨partitioned_create max_num_gpu_blocks max_num_cpu_blocks cache_config, rfl⟩
  refine ⟨?_, ?_, h.1.same_keys⟩
  · have hg := h.1.blocks .GPU
    rw [h.2] at hg
    exact hg
  · have hc := h.1.blocks .CPU
    rw [h.2] at hc
    exact hc

/-! ## What the partition gives -/

/-- A block stands in at most one table of a location, and at most once. -/
theorem Partitioned.count_held_le {s : BlockManager} (h : Partitioned s) (l : BlockLocation)
    (b : Nat) : ∑ r ∈ s.block_table.keys.toFinset, (s.heldAt l r).count b ≤ 1 := by
  rw [← count_located]
  have h1 := (perm_iff_count s l).mp (h.blocks l) b
  have h2 := List.nodup_iff_count_le_one.mp (List.nodup_range (n := s.max_num_blocks l)) b
  omega

theorem mem_keys_of_heldAt {s : BlockManager} {l : BlockLocation} {r : RequestId} {b : Nat}
    (h : b ∈ s.heldAt l r) : r ∈ s.block_table.keys.toFinset := by
  rw [List.mem_toFinset, ← AList.mem_keys]
  by_contra hn
  rw [heldAt_of_notMem hn] at h
  simp at h

theorem Partitioned.held_nodup {s : BlockManager} (h : Partitioned s) (l : BlockLocation)
    (r : RequestId) : (s.heldAt l r).Nodup := by
  rw [List.nodup_iff_count_le_one]
  intro b
  by_cases hb : b ∈ s.heldAt l r
  · have h1 := h.count_held_le l b
    have h2 := Finset.single_le_sum (f := fun r => (s.heldAt l r).count b)
      (fun _ _ => Nat.zero_le _) (mem_keys_of_heldAt hb)
    exact le_trans h2 h1
  · rw [List.count_eq_zero_of_not_mem hb]; omega

/-- Two requests own no block together. -/
theorem Partitioned.held_disjoint {s : BlockManager} (h : Partitioned s) (l : BlockLocation)
    {r r' : RequestId} (hne : r ≠ r') {b : Nat} (hb : b ∈ s.heldAt l r) :
    b ∉ s.heldAt l r' := by
  intro hb'
  have h1 := h.count_held_le l b
  have hmem := mem_keys_of_heldAt hb
  have hmem' : r' ∈ s.block_table.keys.toFinset.erase r :=
    Finset.mem_erase.mpr ⟨hne.symm, mem_keys_of_heldAt hb'⟩
  have h2 := Finset.add_sum_erase _ (fun r => (s.heldAt l r).count b) hmem
  have h3 := Finset.single_le_sum (f := fun r => (s.heldAt l r).count b)
    (fun _ _ => Nat.zero_le _) hmem'
  have h4 := List.count_pos_iff.mpr hb
  have h5 := List.count_pos_iff.mpr hb'
  omega

/-- The available blocks and the blocks of the requests located at `l` are all
blocks of `l`. -/
theorem Partitioned.avail_eq {s : BlockManager} (h : Partitioned s) (l : BlockLocation)
    {rs : List RequestId} (hnd : rs.Nodup)
    (hmem : ∀ r, r ∈ rs ↔ s.get_location r = some l) :
    s.get_num_avail_blocks l + (rs.map fun r => (s.tableOf r).length).sum = s.max_num_blocks l := by
  have hlen := (h.blocks l).length_eq
  simp only [List.length_append, List.length_range] at hlen
  have hloc : (s.located l).length = (rs.map fun r => (s.heldAt l r).length).sum := by
    rw [located, List.length_flatMap, ← sum_toFinset_eq s.block_table.keys_nodup,
      ← sum_toFinset_eq hnd]
    refine (Finset.sum_subset ?_ ?_).symm
    · intro r hr
      have := (hmem r).mp (by simpa using hr)
      rw [List.mem_toFinset, ← AList.mem_keys, h.same_keys r, ← AList.lookup_isSome]
      simp only [get_location] at this
      simp [this]
    · intro r _ hr
      have hn : s.get_location r ≠ some l := fun hc => hr (by simpa using (hmem r).mpr hc)
      unfold heldAt
      cases ho : s.owned r with
      | none => rfl
      | some lt =>
        obtain ⟨l', t⟩ := lt
        have hl' : s.get_location r = some l' := (lookup_of_owned ho).1
        have : l' ≠ l := fun hc => hn (by rw [hl', hc])
        simp [this]
  have htab : (rs.map fun r => (s.heldAt l r).length) = rs.map fun r => (s.tableOf r).length := by
    apply List.map_congr_left
    intro r hr
    have hl := (hmem r).mp hr
    have hmem' : r ∈ s.block_table := by
      rw [h.same_keys r, ← AList.lookup_isSome]
      simp only [get_location] at hl
      simp [hl]
    obtain ⟨⟨l', t⟩, ho⟩ := Option.isSome_iff_exists.mp
      ((owned_isSome_iff h.same_keys r).mpr hmem')
    have hl' : l' = l := by
      have : s.get_location r = some l' := (lookup_of_owned ho).1
      rw [hl] at this
      exact (Option.some.inj this).symm
    subst hl'
    rw [heldAt_self ho, tableOf_eq ho]
  rw [← htab, ← hloc]
  unfold get_num_avail_blocks
  omega

end distserve.BlockManager
