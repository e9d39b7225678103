-- The accounts of the block manager: which requests own blocks on the GPU and
-- on the CPU, and what each call does to that, as the engines need it.
import RecomputeOrMigrate.BlockPartition

open calls counting

namespace distserve.BlockManager

/-! ## The accounts -/

/-- The requests `gpu` own blocks on the GPU, the requests `cpu` own blocks on the
CPU, and no other request owns a block. -/
structure Accounts (m : BlockManager) (gpu cpu : List RequestId) : Prop where
  partitioned : Partitioned m
  nodup : (gpu ++ cpu).Nodup
  on_gpu : ∀ r, m.get_location r = some .GPU ↔ r ∈ gpu
  on_cpu : ∀ r, m.get_location r = some .CPU ↔ r ∈ cpu

variable {m m' : BlockManager} {gpu cpu gpu' cpu' : List RequestId} {r : RequestId}

theorem accounts_create (g c : Nat) (cc : CacheConfig) : Accounts (create g c cc) [] [] where
  partitioned := partitioned_create g c cc
  nodup := by simp
  on_gpu r := by simp [create, get_location]
  on_cpu r := by simp [create, get_location]

theorem Accounts.perm (h : Accounts m gpu cpu) (hg : gpu.Perm gpu') (hc : cpu.Perm cpu') :
    Accounts m gpu' cpu' where
  partitioned := h.partitioned
  nodup := (hg.append hc).nodup_iff.mp h.nodup
  on_gpu r := by rw [h.on_gpu, hg.mem_iff]
  on_cpu r := by rw [h.on_cpu, hc.mem_iff]

theorem Accounts.same_keys (h : Accounts m gpu cpu) : SameKeys m := h.partitioned.same_keys

theorem get_location_eq (h : SameKeys m) (r : RequestId) :
    m.get_location r = (m.owned r).map (·.1) := location_eq h r

theorem Accounts.owned_gpu (h : Accounts m gpu cpu) (hr : r ∈ gpu) :
    m.owned r = some (.GPU, m.tableOf r) := by
  have hl := (h.on_gpu r).mpr hr
  rw [get_location_eq h.same_keys] at hl
  obtain ⟨⟨l, t⟩, ho, rfl⟩ := Option.map_eq_some_iff.mp hl
  rw [ho, tableOf_eq ho]

theorem Accounts.owned_cpu (h : Accounts m gpu cpu) (hr : r ∈ cpu) :
    m.owned r = some (.CPU, m.tableOf r) := by
  have hl := (h.on_cpu r).mpr hr
  rw [get_location_eq h.same_keys] at hl
  obtain ⟨⟨l, t⟩, ho, rfl⟩ := Option.map_eq_some_iff.mp hl
  rw [ho, tableOf_eq ho]

theorem Accounts.owned_none (h : Accounts m gpu cpu) (hg : r ∉ gpu) (hc : r ∉ cpu) :
    m.owned r = none := by
  cases ho : m.owned r with
  | none => rfl
  | some lt =>
    have hl := get_location_eq h.same_keys r
    rw [ho] at hl
    obtain ⟨l, t⟩ := lt
    cases l with
    | GPU => exact absurd ((h.on_gpu r).mp hl) hg
    | CPU => exact absurd ((h.on_cpu r).mp hl) hc

theorem Accounts.mem_table (h : Accounts m gpu cpu) (r : RequestId) :
    r ∈ m.block_table ↔ r ∈ gpu ∨ r ∈ cpu := by
  rw [← owned_isSome_iff h.same_keys]
  constructor
  · intro hs
    by_contra hn
    rw [not_or] at hn
    rw [h.owned_none hn.1 hn.2] at hs
    simp at hs
  · rintro (hr | hr)
    · rw [h.owned_gpu hr]; rfl
    · rw [h.owned_cpu hr]; rfl

/-- `get_allocated_num_blocks` is the length of the table. -/
theorem allocated_eq (m : BlockManager) (r : RequestId) :
    m.get_allocated_num_blocks r = (m.tableOf r).length := rfl

theorem tableOf_congr (hs : SameKeys m) (hs' : SameKeys m') (h : m'.owned r = m.owned r) :
    m'.tableOf r = m.tableOf r := by
  simp [tableOf, table_eq hs, table_eq hs', h]

theorem allocated_congr (hs : SameKeys m) (hs' : SameKeys m') (h : m'.owned r = m.owned r) :
    m'.get_allocated_num_blocks r = m.get_allocated_num_blocks r := by
  rw [allocated_eq, allocated_eq, tableOf_congr hs hs' h]

theorem Accounts.allocated_none (h : Accounts m gpu cpu) (hg : r ∉ gpu) (hc : r ∉ cpu) :
    m.get_allocated_num_blocks r = 0 := by
  rw [allocated_eq, tableOf_of_none h.same_keys (h.owned_none hg hc), List.length_nil]

/-- All GPU blocks are available or owned. -/
theorem Accounts.avail_gpu (h : Accounts m gpu cpu) :
    m.get_num_avail_blocks .GPU + (gpu.map m.get_allocated_num_blocks).sum =
      m.max_num_gpu_blocks :=
  h.partitioned.avail_eq .GPU (List.Nodup.of_append_left h.nodup) fun r => (h.on_gpu r).symm

theorem max_num_gpu_blocks_congr (h : m'.max_num_blocks = m.max_num_blocks) :
    m'.max_num_gpu_blocks = m.max_num_gpu_blocks := congrFun h .GPU

/-- The accounts after the blocks of one request moved. -/
theorem Accounts.moves (h : Accounts m gpu cpu) (hm : Moves m r m')
    (hnd : (gpu' ++ cpu').Nodup) (hothers : ∀ r', r' ≠ r → (r' ∈ gpu' ↔ r' ∈ gpu))
    (hothers' : ∀ r', r' ≠ r → (r' ∈ cpu' ↔ r' ∈ cpu))
    (hg : (m'.owned r).map (·.1) = some .GPU ↔ r ∈ gpu')
    (hc : (m'.owned r).map (·.1) = some .CPU ↔ r ∈ cpu') : Accounts m' gpu' cpu' where
  partitioned := h.partitioned.moves hm
  nodup := hnd
  on_gpu r' := by
    rw [get_location_eq hm.sameKeys]
    by_cases hr : r' = r
    · subst hr; exact hg
    · rw [hm.others r' hr, ← get_location_eq h.same_keys, h.on_gpu, hothers r' hr]
  on_cpu r' := by
    rw [get_location_eq hm.sameKeys]
    by_cases hr : r' = r
    · subst hr; exact hc
    · rw [hm.others r' hr, ← get_location_eq h.same_keys, h.on_cpu, hothers' r' hr]

/-! ## Allocations -/

/-- `m'` is `m` after each of the requests `rs` got the blocks that it needs. -/
structure Allocated (m : BlockManager) (rs : List Request) (m' : BlockManager) : Prop where
  others : ∀ r ∉ rs.map (·.request_id), m'.owned r = m.owned r
  allocated : ∀ q ∈ rs, m'.get_allocated_num_blocks q.request_id =
    max (m.get_num_blocks_needed q) (m.get_allocated_num_blocks q.request_id)
  cache_config : m'.cache_config = m.cache_config
  max_num_blocks : m'.max_num_blocks = m.max_num_blocks
  waits : OnlyWaits m m'

theorem needed_congr (h : m'.cache_config = m.cache_config) (q : Request) :
    m'.get_num_blocks_needed q = m.get_num_blocks_needed q := by
  simp [get_num_blocks_needed, h]

theorem Accounts.allocate (h : Accounts m gpu cpu) (q : Request) (hcpu : q.request_id ∉ cpu)
    (havail : m.get_num_blocks_needed q - m.get_allocated_num_blocks q.request_id ≤
      m.get_num_avail_blocks .GPU) :
    ∃ m', allocate_blocks q m = .ok () m' ∧
      Accounts m' (if q.request_id ∈ gpu then gpu else q.request_id :: gpu) cpu ∧
      Allocated m [q] m' ∧
      m'.get_num_avail_blocks .GPU +
        (m.get_num_blocks_needed q - m.get_allocated_num_blocks q.request_id) =
        m.get_num_avail_blocks .GPU := by
  rcases allocate_blocks_cases h.same_keys q with ⟨hbad | hbad, -⟩ | ⟨-, m', he, ha⟩
  · obtain ⟨t, ht⟩ := hbad
    have := get_location_eq h.same_keys q.request_id
    rw [ht] at this
    exact absurd ((h.on_cpu _).mp this) hcpu
  · rw [← allocated_eq] at hbad
    omega
  · obtain ⟨blocks, hown, hlen, hav⟩ := ha.table
    rw [← allocated_eq] at hlen
    refine ⟨m', he, ?_, ⟨?_, ?_, ha.moves.cache_config, ha.moves.max_num_blocks, ha.waits⟩, ?_⟩
    · apply h.moves ha.moves
      · split
        · exact h.nodup
        · next hg =>
          rw [List.cons_append, List.nodup_cons]
          exact ⟨by simp [hg, hcpu], h.nodup⟩
      · intro r' hr
        split
        · rfl
        · simp [hr]
      · exact fun r' _ => Iff.rfl
      · rw [hown]
        split <;> simp_all
      · rw [hown]
        simp [hcpu]
    · intro r hr
      exact ha.moves.others r (by simpa using hr)
    · intro q' hq'
      rw [List.mem_singleton] at hq'
      subst hq'
      rw [allocated_eq, tableOf_eq hown, List.length_append, ← allocated_eq, hlen]
    · omega

theorem Allocated.refl (m : BlockManager) : Allocated m [] m :=
  ⟨fun _ _ => rfl, by simp, rfl, rfl, OnlyCalls.refl _ m⟩

theorem Allocated.cons {m1 : BlockManager} {q : Request} {rest : List Request}
    (hs : SameKeys m) (hs1 : SameKeys m1) (hs' : SameKeys m')
    (hq : q.request_id ∉ rest.map (·.request_id)) (h : Allocated m [q] m1)
    (h' : Allocated m1 rest m') : Allocated m (q :: rest) m' where
  others r hr := by
    rw [List.map_cons, List.mem_cons, not_or] at hr
    rw [h'.others r hr.2, h.others r (by simpa using hr.1)]
  allocated q' hq' := by
    rcases List.mem_cons.mp hq' with rfl | hq'
    · rw [allocated_congr hs1 hs' (h'.others _ hq), h.allocated q' (by simp)]
    · have hne : q'.request_id ≠ q.request_id := fun hc => hq (hc ▸ List.mem_map_of_mem hq')
      rw [h'.allocated q' hq', needed_congr h.cache_config,
        allocated_congr hs hs1 (h.others _ (by simpa using hne))]
  cache_config := h'.cache_config.trans h.cache_config
  max_num_blocks := h'.max_num_blocks.trans h.max_num_blocks
  waits := h.waits.trans h'.waits

/-- When the blocks suffice for all that the requests still need, then
`allocate_blocks_batched` returns. -/
theorem Accounts.allocate_batched (h : Accounts m gpu cpu) (rs : List Request)
    (hnd : (rs.map (·.request_id)).Nodup) (hcpu : ∀ q ∈ rs, q.request_id ∉ cpu)
    (havail : (rs.map fun q => m.get_num_blocks_needed q -
      m.get_allocated_num_blocks q.request_id).sum ≤ m.get_num_avail_blocks .GPU) :
    ∃ m', allocate_blocks_batched rs m = .ok () m' ∧ Allocated m rs m' ∧
      ∀ gpu' : List RequestId, gpu'.Nodup →
        (∀ r, r ∈ gpu' ↔ r ∈ gpu ∨ r ∈ rs.map (·.request_id)) → Accounts m' gpu' cpu := by
  induction rs generalizing m gpu with
  | nil =>
    refine ⟨m, rfl, Allocated.refl m, fun gpu' hnd' hmem => ?_⟩
    exact h.perm ((List.perm_ext_iff_of_nodup (List.Nodup.of_append_left h.nodup) hnd').mpr
      fun r => by simp [hmem]) (List.Perm.refl _)
  | cons q rest ih =>
    rw [List.map_cons, List.nodup_cons] at hnd
    rw [List.map_cons, List.sum_cons] at havail
    obtain ⟨m1, he1, hacc1, hal1, hav1⟩ := h.allocate q (hcpu q (by simp)) (by omega)
    have hrest : (rest.map fun q => m1.get_num_blocks_needed q -
        m1.get_allocated_num_blocks q.request_id) = rest.map fun q =>
        m.get_num_blocks_needed q - m.get_allocated_num_blocks q.request_id := by
      apply List.map_congr_left
      intro q' hq'
      have hne : q'.request_id ≠ q.request_id := fun hc => hnd.1 (hc ▸ List.mem_map_of_mem hq')
      rw [needed_congr hal1.cache_config,
        allocated_congr h.same_keys hacc1.same_keys (hal1.others _ (by simpa using hne))]
    obtain ⟨m', he, hal, hacc⟩ := ih hacc1 hnd.2 (fun q' hq' => hcpu q' (by simp [hq']))
      (by rw [hrest]; omega)
    have hs' : SameKeys m' := by
      refine (hacc ((if q.request_id ∈ gpu then gpu else q.request_id :: gpu) ∪
        rest.map (·.request_id)) ?_ (by simp [List.mem_union_iff])).same_keys
      exact hnd.2.union _
    refine ⟨m', ?_, Allocated.cons h.same_keys hacc1.same_keys hs' hnd.1 hal1 hal, ?_⟩
    · change (allocate_blocks q >>= fun _ => rest.forM allocate_blocks) m = .ok () m'
      rw [bind_apply, he1]
      exact he
    · intro gpu' hnd' hmem
      apply hacc gpu' hnd'
      intro r
      rw [hmem, List.map_cons, List.mem_cons]
      split
      · next hq => exact ⟨by rintro (h1 | rfl | h1) <;> simp_all, by rintro (h1 | h1) <;> simp_all⟩
      · rw [List.mem_cons]
        tauto

/-! ## Tables for the workers -/

theorem get_block_table_eq (h : r ∈ m.block_table) :
    get_block_table r m = .ok (m.tableOf r) m := by
  obtain ⟨t, ht⟩ := Option.isSome_iff_exists.mp (AList.lookup_isSome.mpr h)
  simp [get_block_table, bind_apply, get_apply, ht, pure_apply, tableOf]

theorem get_partial_block_table_eq {ids : List RequestId} (h : ∀ r ∈ ids, r ∈ m.block_table) :
    get_partial_block_table ids m = .ok (ids.map m.tableOf) m := by
  unfold get_partial_block_table
  induction ids with
  | nil => rfl
  | cons r rest ih =>
    rw [List.mapM_cons, bind_apply, get_block_table_eq (h r (by simp))]
    simp only [bind_apply, ih fun r' hr' => h r' (by simp [hr']), List.map_cons]
    rfl

/-- The call `step` for the requests of a batch. -/
def stepCall (m : BlockManager) (rs : List Request) : RemoteCall :=
  .step (rs.map (·.request_id)) (rs.map Request.get_input_tokens_ids)
    (rs.map Request.get_first_new_token_index) (rs.map fun q => m.tableOf q.request_id)

/-- The future of a batch is the call `step` for its requests. A batch without
requests has no future and did not start. -/
def FutureOf (b : BatchedRequests) : Option RemoteCall → Prop
  | none => b.requests = [] ∧ b.start_time = none
  | some c => b.requests ≠ [] ∧ b.start_time ≠ none ∧ ∃ inputs firsts tables,
      c = .step b.get_request_ids inputs firsts tables

/-- A batch with requests goes to the workers. -/
def sendStep (m : BlockManager) (rs : List Request) : BlockManager :=
  if rs = [] then m else m.remote_call_all_workers_async (m.stepCall rs)

@[simp] theorem owned_sendStep (rs : List Request) : (m.sendStep rs).owned = m.owned := by
  unfold sendStep
  split <;> rfl

@[simp] theorem cache_config_sendStep (rs : List Request) :
    (m.sendStep rs).cache_config = m.cache_config := by
  unfold sendStep
  split <;> rfl

@[simp] theorem max_num_gpu_blocks_sendStep (rs : List Request) :
    (m.sendStep rs).max_num_gpu_blocks = m.max_num_gpu_blocks := by
  unfold sendStep
  split <;> rfl

@[simp] theorem get_allocated_num_blocks_sendStep (rs : List Request) :
    (m.sendStep rs).get_allocated_num_blocks = m.get_allocated_num_blocks := by
  unfold sendStep
  split <;> rfl

theorem Accounts.remote (h : Accounts m gpu cpu) (c : RemoteCall) :
    Accounts (m.remote_call_all_workers_async c) gpu cpu :=
  ⟨h.partitioned.moves (moves_remote h.same_keys c 0), h.nodup, h.on_gpu, h.on_cpu⟩

theorem Accounts.sendStep (h : Accounts m gpu cpu) (rs : List Request) :
    Accounts (m.sendStep rs) gpu cpu := by
  unfold BlockManager.sendStep
  split
  · exact h
  · exact h.remote _

theorem Accounts.all_on_gpu (h : Accounts m gpu cpu) {rs : List Request}
    (hrs : ∀ q ∈ rs, q.request_id ∈ gpu) : is_all_requests_on_gpu rs m = .ok true m := by
  induction rs with
  | nil => rfl
  | cons q rest ih =>
    have hq := (h.on_gpu _).mpr (hrs q (by simp))
    unfold is_all_requests_on_gpu
    rw [bind_apply, locationOf_eq hq]
    simpa using ih fun q' hq' => hrs q' (by simp [hq'])

/-! ## Frees -/

/-- A request on the GPU gives its blocks back. -/
theorem Accounts.free (h : Accounts m (r :: gpu) cpu) :
    ∃ m', free_blocks r m = .ok () m' ∧ Accounts m' gpu cpu ∧ Frees m r m' := by
  have hnd := h.nodup
  rw [List.cons_append, List.nodup_cons] at hnd
  rcases free_blocks_cases h.same_keys r with ⟨hbad, -⟩ | ⟨-, m', he, hf⟩
  · rw [h.owned_gpu (by simp)] at hbad
    cases hbad
  · refine ⟨m', he, ?_, hf⟩
    apply h.moves hf.moves hnd.2
    · intro r' hr
      simp [hr]
    · exact fun _ _ => Iff.rfl
    · have : r ∉ gpu := fun hc => hnd.1 (List.mem_append_left _ hc)
      simp [hf.gone, this]
    · have : r ∉ cpu := fun hc => hnd.1 (List.mem_append_right _ hc)
      simp [hf.gone, this]

/-- `m'` is `m` after each of the requests `ids` gave its blocks back. -/
structure Freed (m : BlockManager) (ids : List RequestId) (m' : BlockManager) : Prop where
  others : ∀ r ∉ ids, m'.owned r = m.owned r
  gone : ∀ r ∈ ids, m'.owned r = none
  cache_config : m'.cache_config = m.cache_config
  max_num_blocks : m'.max_num_blocks = m.max_num_blocks
  remote_calls : m'.remote_calls = m.remote_calls

theorem Frees.freed (h : Frees m r m') : Freed m [r] m' where
  others r' hr := h.moves.others r' (by simpa using hr)
  gone r' hr := by rw [List.mem_singleton] at hr; subst hr; exact h.gone
  cache_config := h.moves.cache_config
  max_num_blocks := h.moves.max_num_blocks
  remote_calls := h.remote_calls

theorem Freed.trans {m1 : BlockManager} {ids ids' : List RequestId} (h : Freed m ids m1)
    (h' : Freed m1 ids' m') : Freed m (ids ++ ids') m' where
  others r hr := by
    rw [List.mem_append, not_or] at hr
    rw [h'.others r hr.2, h.others r hr.1]
  gone r hr := by
    by_cases hr' : r ∈ ids'
    · exact h'.gone r hr'
    · rw [h'.others r hr']
      exact h.gone r ((List.mem_append.mp hr).resolve_right hr')
  cache_config := h'.cache_config.trans h.cache_config
  max_num_blocks := h'.max_num_blocks.trans h.max_num_blocks
  remote_calls := h'.remote_calls.trans h.remote_calls

theorem Accounts.free_batched (rs : List Request)
    (h : Accounts m (rs.map (·.request_id) ++ gpu) cpu) :
    ∃ m', free_blocks_batched rs m = .ok () m' ∧ Accounts m' gpu cpu ∧
      Freed m (rs.map (·.request_id)) m' := by
  induction rs generalizing m with
  | nil => exact ⟨m, rfl, h, fun _ _ => rfl, by simp, rfl, rfl, rfl⟩
  | cons q rest ih =>
    obtain ⟨m1, he1, h1, hf1⟩ := h.free
    obtain ⟨m', he, h', hf⟩ := ih h1
    refine ⟨m', ?_, h', hf1.freed.trans hf⟩
    change (free_blocks q.request_id >>= fun _ => rest.forM fun q => free_blocks q.request_id) m =
      .ok () m'
    rw [bind_apply, he1]
    exact he

/-! ## Swaps of one request -/

/-- The calls that the block manager sends by itself. -/
def IsUpkeep (c : RemoteCall) : Prop :=
  IsWait c ∨ ∃ rs src tgt b, c = .swap_blocks rs src tgt b

/-- `m'` is `m` after the request `r` changed its device. -/
structure Relocated (m : BlockManager) (r : RequestId) (m' : BlockManager) : Prop where
  others : ∀ r', r' ≠ r → m'.owned r' = m.owned r'
  allocated : m'.get_allocated_num_blocks r = m.get_allocated_num_blocks r
  cache_config : m'.cache_config = m.cache_config
  max_num_blocks : m'.max_num_blocks = m.max_num_blocks
  upkeep : OnlyCalls IsUpkeep m m'

/-- No request gets or loses blocks. -/
theorem Relocated.allocated_eq (h : Relocated m r m') (hs : SameKeys m) (hs' : SameKeys m')
    (r' : RequestId) : m'.get_allocated_num_blocks r' = m.get_allocated_num_blocks r' := by
  by_cases hr : r' = r
  · subst hr
    exact h.allocated
  · exact allocated_congr hs hs' (h.others r' hr)

/-- A swap of one request that is on the device `cur` returns exactly when the
other device has the blocks, and the exception names that device. -/
theorem swap_one (is_swap_in : Bool) (hs : SameKeys m) (q : Request) {old : List Nat}
    (ho : m.owned q.request_id = some (if is_swap_in then .CPU else .GPU, old)) :
    (m.get_num_avail_blocks (if is_swap_in then .GPU else .CPU) < old.length ∧
      swap_requests [q] is_swap_in m = .error (.not_enough_free_blocks
        (if is_swap_in then .GPU else .CPU) old.length
        (m.get_num_avail_blocks (if is_swap_in then .GPU else .CPU))) m) ∨
    (old.length ≤ m.get_num_avail_blocks (if is_swap_in then .GPU else .CPU) ∧
      ∃ m' new, swap_requests [q] is_swap_in m = .ok () m' ∧ Moves m q.request_id m' ∧
        m'.owned q.request_id = some (if is_swap_in then .GPU else .CPU, new) ∧
        Relocated m q.request_id m') := by
  have hne : (if is_swap_in then BlockLocation.GPU else .CPU) ≠
      if is_swap_in then BlockLocation.CPU else .GPU := by cases is_swap_in <;> simp
  unfold swap_requests
  simp only [bind_apply]
  rcases swap_loop_cons hne hs q [] [] [] with
    (⟨hn, -⟩ | ⟨old', ho', hlt, he⟩) | ⟨old', new, m1, h1, hle, he⟩
  · exact absurd ⟨old, ho⟩ hn
  · rw [ho] at ho'
    obtain rfl : old = old' := (Prod.mk.inj (Option.some.inj ho')).2
    exact Or.inl ⟨hlt, by rw [he]⟩
  · have ho' := h1.before
    rw [ho] at ho'
    obtain rfl : old = old' := (Prod.mk.inj (Option.some.inj ho')).2
    rw [List.nil_append, List.nil_append] at he
    refine Or.inr ⟨hle, m1.remote_call_all_workers_async (.swap_blocks [q] old new is_swap_in), new,
      by rw [he]; rfl, ?_, h1.after, ?_⟩
    · exact ⟨h1.moves.others, h1.moves.sameKeys, fun l b => h1.moves.count l b,
        h1.moves.cache_config, h1.moves.max_num_blocks⟩
    · refine ⟨h1.moves.others, ?_, h1.moves.cache_config, h1.moves.max_num_blocks, ?_⟩
      · change (m1.tableOf q.request_id).length = (m.tableOf q.request_id).length
        rw [tableOf_eq h1.after, tableOf_eq ho, h1.same_length]
      · exact (h1.waits.imp fun c hc => Or.inl hc).trans ⟨[.swap_blocks [q] old new is_swap_in],
          rfl, fun c hc => Or.inr ⟨[q], old, new, is_swap_in, by simpa using hc⟩⟩

theorem Accounts.swap_out (q : Request) (h : Accounts m (q.request_id :: gpu) cpu) :
    (m.get_num_avail_blocks .CPU < m.get_allocated_num_blocks q.request_id ∧
      swap_out_requests [q] m = .error (.not_enough_free_blocks .CPU
        (m.get_allocated_num_blocks q.request_id) (m.get_num_avail_blocks .CPU)) m) ∨
    ∃ m', swap_out_requests [q] m = .ok () m' ∧ Accounts m' gpu (q.request_id :: cpu) ∧
      Relocated m q.request_id m' := by
  have hnd := h.nodup
  rw [List.cons_append, List.nodup_cons, List.mem_append, not_or] at hnd
  rcases swap_one false h.same_keys q (h.owned_gpu (by simp)) with
    ⟨hlt, he⟩ | ⟨-, m', new, he, hm, hown, hrel⟩
  · exact Or.inl ⟨hlt, he⟩
  · refine Or.inr ⟨m', he, ?_, hrel⟩
    apply h.moves hm
    · exact (List.perm_middle.nodup_iff).mpr (List.nodup_cons.mpr
        ⟨by simp [hnd.1.1, hnd.1.2], hnd.2⟩)
    · intro r' hr
      simp [hr]
    · intro r' hr
      simp [hr]
    · simp [hown, hnd.1.1]
    · simp [hown]

theorem Accounts.swap_in (q : Request) (h : Accounts m gpu (q.request_id :: cpu))
    (havail : m.get_allocated_num_blocks q.request_id ≤ m.get_num_avail_blocks .GPU) :
    ∃ m', swap_in_requests [q] m = .ok () m' ∧ Accounts m' (q.request_id :: gpu) cpu ∧
      Relocated m q.request_id m' := by
  have hnd := (List.perm_middle.nodup_iff).mp h.nodup
  rw [List.nodup_cons, List.mem_append, not_or] at hnd
  rcases swap_one true h.same_keys q (h.owned_cpu (by simp)) with
    ⟨hlt, -⟩ | ⟨-, m', new, he, hm, hown, hrel⟩
  · exact absurd hlt (not_lt.mpr havail)
  · refine ⟨m', he, ?_, hrel⟩
    apply h.moves hm
    · exact List.nodup_cons.mpr ⟨by simp [hnd.1.1, hnd.1.2], hnd.2⟩
    · intro r' hr
      simp [hr]
    · intro r' hr
      simp [hr]
    · simp [hown]
    · simp [hown, hnd.1.2]

end distserve.BlockManager
