-- The key-value store that the two block pools, the tables and the swaps make
-- together: a request reads back what it wrote, wherever its blocks are.
import RecomputeOrMigrate.BlockPartition
import RecomputeOrMigrate.General.Copies

open calls copies

namespace distserve.kv_store

open BlockManager

variable {α : Type}

/-! ## The devices -/

/-- The contents of the blocks on the workers: `k_cache` with `v_cache`, and
`k_swap` with `v_swap`. -/
structure Devices (α : Type) where
  gpu : Nat → α
  cpu : Nat → α

def Devices.memory (d : Devices α) : BlockLocation → Nat → α
  | .GPU => d.gpu
  | .CPU => d.cpu

/-- What a worker does to the contents when it runs a call. `swap_blocks` copies
the source blocks to the target blocks. -/
def run_call (d : Devices α) : RemoteCall → Devices α
  | .swap_blocks _ source_block_ids target_block_ids true =>
    { d with gpu := copyAll d.cpu d.gpu (source_block_ids.zip target_block_ids) }
  | .swap_blocks _ source_block_ids target_block_ids false =>
    { d with cpu := copyAll d.gpu d.cpu (source_block_ids.zip target_block_ids) }
  | _ => d

/-- The block manager of an engine and the contents on its workers. -/
structure KVStore (α : Type) where
  manager : BlockManager
  devices : Devices α

/-- Logical block `j` of a request, through its table and its location. -/
def KVStore.read (k : KVStore α) (r : RequestId) (j : Nat) : Option α :=
  (k.manager.owned r).bind fun (l, t) => t[j]?.map (k.devices.memory l)

/-! ## The steps -/

/-- A call of the block manager, or a forward step that writes a logical block. -/
inductive Action (α : Type)
  | call (c : ManagerCall)
  | write (request_id : RequestId) (j : Nat) (content : α)

/-- A call must return, and the workers run the calls that it sent. A forward step
writes through the table of a request on the GPU. -/
def step (k : KVStore α) : Action α → Option (KVStore α)
  | .call c =>
    match c.method k.manager with
    | .ok _ s => some ⟨s, (s.remote_calls.drop k.manager.remote_calls.length).foldl run_call
        k.devices⟩
    | .error _ _ => none
  | .write r j v =>
    match k.manager.owned r with
    | some (.GPU, t) => t[j]?.map fun b =>
        { k with devices := { k.devices with gpu := Function.update k.devices.gpu b v } }
    | _ => none

def run (k : KVStore α) (actions : List (Action α)) : Option (KVStore α) := actions.foldlM step k

/-! ## The abstract store -/

/-- What each request wrote last at each logical block. -/
abbrev Written (α : Type) := RequestId → Nat → Option α

/-- The requests that a call frees. -/
def freed : ManagerCall → List RequestId
  | .free_blocks request_id => [request_id]
  | .free_blocks_batched requests => requests.map (·.request_id)
  | _ => []

/-- A write is remembered until the request is freed. No other action counts. -/
def writtenAfter (w : Written α) : Action α → Written α
  | .call c => fun r j => if r ∈ freed c then none else w r j
  | .write r j v => fun r' j' => if r' = r ∧ j' = j then some v else w r' j'

/-! ## Calls that send no copy -/

/-- The tables grow at their end, no copy is sent, and only the requests `gone`
lose their blocks. -/
structure Extends (gone : List RequestId) (s s' : BlockManager) : Prop where
  partitioned : Partitioned s'
  waits : OnlyWaits s s'
  owned : ∀ r ∉ gone, ∀ l t, s.owned r = some (l, t) → ∃ u, s'.owned r = some (l, t ++ u)

theorem Extends.refl {s : BlockManager} (h : Partitioned s) (gone : List RequestId) :
    Extends gone s s := ⟨h, OnlyCalls.refl _ s, fun _ _ _ t ho => ⟨[], by simpa using ho⟩⟩

theorem Extends.trans {gone : List RequestId} {s s1 s2 : BlockManager} (h : Extends gone s s1)
    (h' : Extends gone s1 s2) : Extends gone s s2 where
  partitioned := h'.partitioned
  waits := h.waits.trans h'.waits
  owned r hr l t ho := by
    obtain ⟨u, hu⟩ := h.owned r hr l t ho
    obtain ⟨v, hv⟩ := h'.owned r hr l (t ++ u) hu
    exact ⟨u ++ v, by rw [hv, List.append_assoc]⟩

/-- An allocation adds blocks at the end of one table on the GPU. -/
theorem allocate_blocks_extends (gone : List RequestId) (s : BlockManager) (request : Request) :
    Meets (Extends gone s) (allocate_blocks request) (fun _ => Extends gone s)
      (fun _ _ => True) := by
  intro s1 h1
  rcases allocate_blocks_cases h1.partitioned.same_keys request with ⟨_, e, he⟩ | ⟨hcpu, s2, he, h⟩
  · rw [he]; trivial
  · rw [he]
    refine h1.trans ⟨h1.partitioned.moves h.moves, h.waits, fun r _ l t ho => ?_⟩
    by_cases hr : r = request.request_id
    · subst hr
      obtain ⟨blocks, hb, -, -⟩ := h.table
      rw [tableOf_eq ho] at hb
      cases l with
      | GPU => exact ⟨blocks, hb⟩
      | CPU => exact absurd ⟨t, ho⟩ hcpu
    · exact ⟨[], by rw [h.moves.others r hr, ho, List.append_nil]⟩

theorem free_blocks_extends (gone : List RequestId) (s : BlockManager) {r : RequestId}
    (hr : r ∈ gone) :
    Meets (Extends gone s) (free_blocks r) (fun _ => Extends gone s) (fun _ _ => True) := by
  intro s1 h1
  rcases free_blocks_cases h1.partitioned.same_keys r with ⟨_, he⟩ | ⟨_, s2, he, h⟩
  · rw [he]; trivial
  · rw [he]
    refine h1.trans ⟨h1.partitioned.moves h.moves, ⟨[], by simp [h.remote_calls], by simp⟩,
      fun r' hr' l t ho => ⟨[], ?_⟩⟩
    have hne : r' ≠ r := fun hc => hr' (hc ▸ hr)
    rw [h.moves.others r' hne, ho, List.append_nil]

/-- A wait changes no contents. -/
theorem run_waits (d : Devices α) {cs : List RemoteCall} (h : ∀ c ∈ cs, IsWait c) :
    cs.foldl run_call d = d := by
  induction cs with
  | nil => rfl
  | cons c cs ih =>
    have hc : run_call d c = d := by rcases h c (by simp) with rfl | rfl <;> rfl
    rw [List.foldl_cons, hc]
    exact ih fun c' hc' => h c' (by simp [hc'])

theorem Extends.read {gone : List RequestId} {k : KVStore α} {s : BlockManager}
    (h : Extends gone k.manager s) {r : RequestId} (hr : r ∉ gone) {j : Nat} {v : α}
    (hv : k.read r j = some v) :
    KVStore.read ⟨s, (s.remote_calls.drop k.manager.remote_calls.length).foldl run_call
      k.devices⟩ r j = some v := by
  obtain ⟨w, hw, hw'⟩ := h.waits
  have hd : (s.remote_calls.drop k.manager.remote_calls.length).foldl run_call k.devices =
      k.devices := by
    rw [hw, List.drop_left]
    exact run_waits _ hw'
  rw [hd]
  unfold KVStore.read at hv ⊢
  cases ho : k.manager.owned r with
  | none => simp [ho] at hv
  | some lt =>
    obtain ⟨l, t⟩ := lt
    obtain ⟨u, hu⟩ := h.owned r hr l t ho
    simp only [ho, Option.bind_some, Option.map_eq_some_iff] at hv
    obtain ⟨b, hb, rfl⟩ := hv
    have : (t ++ u)[j]? = some b := by
      rw [List.getElem?_append_left (List.getElem?_eq_some_iff.mp hb).1, hb]
    simp [hu, this]

/-! ## Swaps -/

/-- What a list of swaps does to the owners: the blocks that it leaves and the
blocks that it takes are the old and the new tables, one request after the other. -/
structure Swapped (cur target : BlockLocation) (s : BlockManager) (ids : List RequestId)
    (src tgt : List Nat) (s' : BlockManager) : Prop where
  partitioned : Partitioned s'
  waits : OnlyWaits s s'
  nodup : ids.Nodup
  before : ∀ r ∈ ids, s.owned r = some (cur, s.heldAt cur r)
  after : ∀ r ∈ ids, s'.owned r = some (target, s'.heldAt target r)
  same_length : ∀ r ∈ ids, (s.heldAt cur r).length = (s'.heldAt target r).length
  others : ∀ r ∉ ids, s'.owned r = s.owned r
  source : src = ids.flatMap (s.heldAt cur)
  target : tgt = ids.flatMap (s'.heldAt target)

theorem swaps_swapped {cur target : BlockLocation} (hne : target ≠ cur) {s s' : BlockManager}
    {requests : List Request} {src tgt : List Nat} (h : Swaps cur target s requests src tgt s')
    (hs : Partitioned s) :
    Swapped cur target s (requests.map (·.request_id)) src tgt s' := by
  induction h with
  | nil s => exact ⟨hs, OnlyCalls.refl _ s, by simp, by simp, by simp, by simp, by simp, rfl, rfl⟩
  | @cons s s1 s' request rest old new src tgt h1 _ ih =>
    have ih := ih (hs.moves h1.moves)
    -- the first request is not swapped again, because it is not at `cur` any more
    have hfirst : request.request_id ∉ rest.map (·.request_id) := by
      intro hmem
      have := ih.before _ hmem
      rw [h1.after] at this
      exact hne (congrArg Prod.fst (Option.some.inj this))
    have hrest : ∀ r ∈ rest.map (·.request_id), s1.owned r = s.owned r := fun r hr =>
      h1.moves.others r fun hc => hfirst (hc ▸ hr)
    have hheld : ∀ r ∈ rest.map (·.request_id), s1.heldAt cur r = s.heldAt cur r := fun r hr =>
      heldAt_congr (hrest r hr) cur
    have hafter : s'.owned request.request_id = some (target, new) := by
      rw [ih.others _ hfirst, h1.after]
    have hsrc : (rest.map (·.request_id)).flatMap (s1.heldAt cur) =
        (rest.map (·.request_id)).flatMap (s.heldAt cur) := List.flatMap_congr hheld
    have hold : s.heldAt cur request.request_id = old := heldAt_self h1.before
    have hnew : s'.heldAt target request.request_id = new := heldAt_self hafter
    refine ⟨ih.partitioned, h1.waits.trans ih.waits, ?_, ?_, ?_, ?_, ?_, ?_, ?_⟩
    · exact List.nodup_cons.mpr ⟨hfirst, ih.nodup⟩
    · rw [List.map_cons, List.forall_mem_cons]
      exact ⟨by rw [hold]; exact h1.before, fun r hr => by
        rw [← hrest r hr, ih.before r hr, hheld r hr]⟩
    · rw [List.map_cons, List.forall_mem_cons]
      exact ⟨by rw [hnew]; exact hafter, ih.after⟩
    · rw [List.map_cons, List.forall_mem_cons]
      exact ⟨by rw [hold, hnew, h1.same_length], fun r hr => by
        rw [← hheld r hr, ih.same_length r hr]⟩
    · intro r hr
      rw [List.map_cons, List.mem_cons, not_or] at hr
      rw [ih.others r hr.2, h1.moves.others r hr.1]
    · rw [List.map_cons, List.flatMap_cons, hold, ← hsrc, ← ih.source]
    · rw [List.map_cons, List.flatMap_cons, hnew, ← ih.target]

/-- No block is the target of two copies. -/
theorem Swapped.target_nodup {cur target : BlockLocation} {s s' : BlockManager}
    {ids : List RequestId} {src tgt : List Nat} (h : Swapped cur target s ids src tgt s') :
    tgt.Nodup := by
  rw [h.target, List.nodup_flatMap]
  refine ⟨fun r _ => h.partitioned.held_nodup target r, ?_⟩
  refine h.nodup.imp fun {a b} hab => ?_
  exact List.disjoint_left.mpr fun x hx => h.partitioned.held_disjoint target hab hx

/-- After the copies, each request reads at its new place what it had at the old
one, and the blocks of the other requests have what they had. -/
theorem Swapped.read {cur target : BlockLocation} {s s' : BlockManager} {ids : List RequestId}
    {src tgt : List Nat} (hne : target ≠ cur) (h : Swapped cur target s ids src tgt s')
    {d d' : Devices α} (hcur : d'.memory cur = d.memory cur)
    (htarget : d'.memory target = copyAll (d.memory cur) (d.memory target) (src.zip tgt))
    (r : RequestId) (j : Nat) : KVStore.read ⟨s', d'⟩ r j = KVStore.read ⟨s, d⟩ r j := by
  have hpairs : src.zip tgt = ids.flatMap fun r => (s.heldAt cur r).zip (s'.heldAt target r) := by
    rw [h.source, h.target, zip_flatMap _ _ h.same_length]
  have hsnd : (src.zip tgt).map Prod.snd = tgt := by
    apply List.map_snd_zip
    rw [h.source, h.target, List.length_flatMap, List.length_flatMap]
    exact le_of_eq (congrArg List.sum (List.map_congr_left fun r hr => (h.same_length r hr).symm))
  unfold KVStore.read
  by_cases hr : r ∈ ids
  · simp only [h.before r hr, h.after r hr, Option.bind_some, htarget]
    have hlen := h.same_length r hr
    by_cases hj : j < (s.heldAt cur r).length
    · have hj' : j < (s'.heldAt target r).length := hlen ▸ hj
      rw [List.getElem?_eq_getElem hj, List.getElem?_eq_getElem hj']
      simp only [Option.map_some, Option.some.injEq]
      apply copyAll_of_mem _ _ (by rw [hsnd]; exact h.target_nodup)
      rw [hpairs, List.mem_flatMap]
      refine ⟨r, hr, ?_⟩
      rw [← List.getElem_zip (h := by simpa using ⟨hj, hj'⟩)]
      exact List.getElem_mem _
    · rw [List.getElem?_eq_none (by omega), List.getElem?_eq_none (by omega)]
      rfl
  · have ho := h.others r hr
    simp only [ho]
    cases hor : s.owned r with
    | none => rfl
    | some lt =>
      obtain ⟨l, t⟩ := lt
      simp only [Option.bind_some]
      cases hb : t[j]? with
      | none => rfl
      | some b =>
        simp only [Option.map_some, Option.some.injEq]
        by_cases hl : l = target
        · subst hl
          rw [htarget]
          apply copyAll_of_notMem
          rw [hsnd, h.target, List.mem_flatMap]
          rintro ⟨r', hr', hbr'⟩
          have hbr : b ∈ s'.heldAt l r := by
            rw [heldAt_self (ho.trans hor)]
            exact List.mem_of_getElem? hb
          have hne' : r ≠ r' := fun hc => hr (hc ▸ hr')
          exact h.partitioned.held_disjoint l hne' hbr hbr'
        · have hl' : l = cur := by
            cases l <;> cases cur <;> cases target <;> simp_all
          rw [hl', hcur]

/-- A swap that returns keeps the partition and all that a request can read. -/
theorem swap_requests_read {k : KVStore α} (hp : Partitioned k.manager) {requests : List Request}
    {is_swap_in : Bool} {s : BlockManager}
    (h : swap_requests requests is_swap_in k.manager = .ok () s) :
    Partitioned s ∧ ∀ r j, KVStore.read ⟨s, (s.remote_calls.drop
      k.manager.remote_calls.length).foldl run_call k.devices⟩ r j = k.read r j := by
  unfold swap_requests at h
  simp only [bind_apply] at h
  have hne : (if is_swap_in then BlockLocation.GPU else .CPU) ≠
      if is_swap_in then BlockLocation.CPU else .GPU := by cases is_swap_in <;> simp
  cases hm : swap_loop (if is_swap_in then .CPU else .GPU) (if is_swap_in then .GPU else .CPU)
      requests [] [] k.manager with
  | error e s' => rw [hm] at h; simp at h
  | ok p s1 =>
    obtain ⟨src, tgt⟩ := p
    rw [hm] at h
    simp only [modify_apply, EStateM.Result.ok.injEq, true_and] at h
    subst h
    obtain ⟨a, b, ha, hb, hab⟩ := swaps_of_swap_loop hne requests hp.same_keys hm
    rw [List.nil_append] at ha hb
    subst ha hb
    have hsw := swaps_swapped hne hab hp
    refine ⟨hsw.partitioned.moves (moves_remote hsw.partitioned.same_keys _ 0), fun r j => ?_⟩
    -- the workers wait, and then they run the one message of this swap
    obtain ⟨w, hw, hw'⟩ := hsw.waits
    have hd : ((s1.remote_call_all_workers_async
          (.swap_blocks requests src tgt is_swap_in)).remote_calls.drop
          k.manager.remote_calls.length).foldl run_call k.devices =
        run_call k.devices (.swap_blocks requests src tgt is_swap_in) := by
      simp only [remote_call_all_workers_async, hw, List.append_assoc, List.drop_left,
        List.foldl_append, run_waits _ hw', List.foldl_cons, List.foldl_nil]
    rw [hd]
    refine hsw.read (d := k.devices) hne ?_ ?_ r j
    · cases is_swap_in <;> rfl
    · cases is_swap_in <;> rfl

/-! ## The law -/

/-- What was written and not freed can be read. -/
def Faithful (k : KVStore α) (w : Written α) : Prop :=
  Partitioned k.manager ∧ ∀ r j v, w r j = some v → k.read r j = some v

theorem Extends.faithful {c : ManagerCall} {k : KVStore α} {w : Written α} {s : BlockManager}
    (h : Extends (freed c) k.manager s) (hk : Faithful k w) :
    Faithful ⟨s, (s.remote_calls.drop k.manager.remote_calls.length).foldl run_call k.devices⟩
      (writtenAfter w (.call c)) := by
  refine ⟨h.partitioned, fun r j v hv => ?_⟩
  simp only [writtenAfter] at hv
  split at hv
  · cases hv
  · next hr => exact h.read hr (hk.2 r j v hv)

theorem call_faithful {k : KVStore α} {w : Written α} (hk : Faithful k w) (c : ManagerCall)
    {s : BlockManager} (h : c.method k.manager = .ok () s) :
    Faithful ⟨s, (s.remote_calls.drop k.manager.remote_calls.length).foldl run_call k.devices⟩
      (writtenAfter w (.call c)) := by
  have hrefl := Extends.refl hk.1 (freed c)
  cases c with
  | allocate_blocks request =>
    exact Extends.faithful ((allocate_blocks_extends _ _ request).of_ok hrefl h) hk
  | allocate_blocks_batched requests =>
    have hloop := meets_forM_of_mem requests allocate_blocks fun request _ =>
      allocate_blocks_extends (freed (.allocate_blocks_batched requests)) k.manager request
    exact Extends.faithful (hloop.of_ok hrefl h) hk
  | free_blocks request_id =>
    exact Extends.faithful ((free_blocks_extends _ _ (by simp [freed])).of_ok hrefl h) hk
  | free_blocks_batched requests =>
    have hloop := meets_forM_of_mem requests (fun request => free_blocks request.request_id)
      fun request hr => free_blocks_extends (freed (.free_blocks_batched requests))
        k.manager (List.mem_map_of_mem hr)
    exact Extends.faithful (hloop.of_ok hrefl h) hk
  | swap_in_requests requests =>
    obtain ⟨hp, hread⟩ := swap_requests_read hk.1 h
    refine ⟨hp, fun r j v hv => ?_⟩
    rw [hread]
    exact hk.2 r j v (by simpa [writtenAfter, freed] using hv)
  | swap_out_requests requests =>
    obtain ⟨hp, hread⟩ := swap_requests_read hk.1 h
    refine ⟨hp, fun r j v hv => ?_⟩
    rw [hread]
    exact hk.2 r j v (by simpa [writtenAfter, freed] using hv)

/-- A write changes one block, and no other request and no other logical block has it. -/
theorem write_faithful {k k' : KVStore α} {w : Written α} (hk : Faithful k w) {r : RequestId}
    {j : Nat} {v : α} (h : step k (.write r j v) = some k') :
    Faithful k' (writtenAfter w (.write r j v)) := by
  simp only [step] at h
  split at h
  · next t ho =>
    simp only [Option.map_eq_some_iff] at h
    obtain ⟨b, hb, rfl⟩ := h
    have hheld : k.manager.heldAt .GPU r = t := heldAt_self ho
    refine ⟨hk.1, fun r' j' v' hv => ?_⟩
    simp only [writtenAfter] at hv
    split at hv
    · next hrj =>
      obtain ⟨rfl, rfl⟩ := hrj
      simp only [KVStore.read, ho, Option.bind_some, hb, Option.map_some, Devices.memory,
        Function.update_self, hv]
    · next hrj =>
      have hread := hk.2 r' j' v' hv
      unfold KVStore.read at hread ⊢
      cases ho' : k.manager.owned r' with
      | none => simp [ho'] at hread
      | some lt =>
        obtain ⟨l, t'⟩ := lt
        simp only [ho', Option.bind_some, Option.map_eq_some_iff] at hread ⊢
        obtain ⟨b', hb', rfl⟩ := hread
        refine ⟨b', hb', ?_⟩
        cases l with
        | CPU => rfl
        | GPU =>
          refine Function.update_of_ne ?_ _ _
          rintro rfl
          by_cases hr : r' = r
          · subst hr
            rw [ho] at ho'
            obtain ⟨-, rfl⟩ := Prod.mk.inj (Option.some.inj ho')
            have hnd := hheld ▸ hk.1.held_nodup .GPU r'
            have hlt := (List.getElem?_eq_some_iff.mp hb).1
            exact hrj ⟨rfl, ((List.getElem?_inj hlt hnd).mp (hb.trans hb'.symm)).symm⟩
          · refine hk.1.held_disjoint .GPU hr (b := b') ?_ ?_
            · rw [heldAt_self ho']; exact List.mem_of_getElem? hb'
            · rw [hheld]; exact List.mem_of_getElem? hb
  · cases h

theorem step_faithful {k k' : KVStore α} {w : Written α} (hk : Faithful k w) {a : Action α}
    (h : step k a = some k') : Faithful k' (writtenAfter w a) := by
  cases a with
  | write r j v => exact write_faithful hk h
  | call c =>
    simp only [step] at h
    split at h
    · next s hs =>
      cases h
      exact call_faithful hk c hs
    · cases h

theorem run_faithful {k k' : KVStore α} {w : Written α} (hk : Faithful k w)
    (actions : List (Action α)) (h : run k actions = some k') :
    Faithful k' (actions.foldl writtenAfter w) := by
  induction actions generalizing k w with
  | nil => cases h; exact hk
  | cons a rest ih =>
    simp only [run, List.foldlM_cons, Option.bind_eq_bind, Option.bind_eq_some_iff] at h
    obtain ⟨k1, h1, h2⟩ := h
    exact ih (step_faithful hk h1) h2

/-- After any calls that return, swaps of many requests in one message among them,
and any writes of forward steps in between, a request reads at each logical block
what it wrote there last. -/
theorem each_request_reads_what_it_wrote_last (max_num_gpu_blocks max_num_cpu_blocks : Nat)
    (cache_config : CacheConfig) (devices : Devices α) (actions : List (Action α)) (k : KVStore α)
    (h : run ⟨create max_num_gpu_blocks max_num_cpu_blocks cache_config, devices⟩ actions =
      some k) (r : RequestId) (j : Nat) (v : α)
    (hw : actions.foldl writtenAfter (fun _ _ => none) r j = some v) : k.read r j = some v :=
  (run_faithful (w := fun _ _ => none)
    ⟨partitioned_create max_num_gpu_blocks max_num_cpu_blocks cache_config, by simp⟩
    actions h).2 r j v hw

/-- Three requests, two GPU blocks and one CPU block. -/
def threeRequests : List (Action Nat) :=
  let request := fun r => Request.create r [5] ⟨[], false, 4, by decide⟩
  [.call (.allocate_blocks (request 0)), .write 0 0 7, .call (.swap_out_requests [request 0]),
    .call (.allocate_blocks (request 1)), .write 1 0 9, .call (.allocate_blocks (request 2)),
    .write 2 0 8, .call (.free_blocks 1), .call (.swap_in_requests [request 0])]

/-- The first request reads what it wrote, after another one used its block. -/
theorem the_first_of_three_requests_reads_its_block :
    ∃ k, run ⟨create 2 1 ⟨1, by decide⟩, ⟨fun _ => 0, fun _ => 0⟩⟩ threeRequests = some k ∧
      k.read 0 0 = some 7 := by
  have h : (run ⟨create 2 1 ⟨1, by decide⟩, ⟨fun _ => 0, fun _ => 0⟩⟩ threeRequests).isSome := by
    decide +kernel
  obtain ⟨k, hk⟩ := Option.isSome_iff_exists.mp h
  exact ⟨k, hk, each_request_reads_what_it_wrote_last 2 1 ⟨1, by decide⟩ ⟨fun _ => 0, fun _ => 0⟩
    threeRequests k hk 0 0 7 (by decide +kernel)⟩

end distserve.kv_store
