-- Who owns which block. Each method of the block manager changes the blocks
-- of its own requests and no others, and no block is lost on the way.
import RecomputeOrMigrate.BlockManager
import RecomputeOrMigrate.General.Counting

open calls

namespace distserve.BlockManager

/-! ## The owners -/

/-- The location and the table of a request. -/
def owned (s : BlockManager) (r : RequestId) : Option (BlockLocation × List Nat) :=
  (s.request_location.lookup r).bind fun l => (s.block_table.lookup r).map fun t => (l, t)

/-- The blocks that a request owns at one location. -/
def heldAt (s : BlockManager) (l : BlockLocation) (r : RequestId) : List Nat :=
  match s.owned r with
  | some (l', t) => if l' = l then t else []
  | none => []

/-- The blocks of the tables of the requests located at `l`. -/
def located (s : BlockManager) (l : BlockLocation) : List Nat :=
  s.block_table.keys.flatMap (s.heldAt l)

/-- The two tables have the same keys. -/
def SameKeys (s : BlockManager) : Prop :=
  ∀ r, r ∈ s.block_table ↔ r ∈ s.request_location

/-- How often block `b` stands in the pool of location `l`. -/
def poolCount (s : BlockManager) (l : BlockLocation) (b : Nat) : Nat :=
  (s.pool l).free_blocks_list.count b + (s.pool l).swapping_blocks_list.count b

theorem sameKeys_create (g c : Nat) (cc : CacheConfig) : SameKeys (create g c cc) := by
  intro r
  simp [create, AList.mem_keys]

theorem lookup_of_owned {s : BlockManager} {r : RequestId} {l : BlockLocation} {t : List Nat}
    (h : s.owned r = some (l, t)) :
    s.request_location.lookup r = some l ∧ s.block_table.lookup r = some t := by
  unfold owned at h
  cases hl : s.request_location.lookup r with
  | none => simp [hl] at h
  | some l' => cases ht : s.block_table.lookup r with
    | none => simp [hl, ht] at h
    | some t' => simpa [hl, ht] using h

theorem owned_isSome_iff {s : BlockManager} (h : SameKeys s) (r : RequestId) :
    (s.owned r).isSome ↔ r ∈ s.block_table := by
  have hr := h r
  rw [← AList.lookup_isSome, ← AList.lookup_isSome] at hr
  rw [← AList.lookup_isSome]
  unfold owned
  cases hl : s.request_location.lookup r <;> cases ht : s.block_table.lookup r <;>
    simp_all

theorem owned_none_iff {s : BlockManager} (h : SameKeys s) (r : RequestId) :
    s.owned r = none ↔ r ∉ s.block_table := by
  rw [← owned_isSome_iff h r]
  cases s.owned r <;> simp

theorem location_eq {s : BlockManager} (h : SameKeys s) (r : RequestId) :
    s.request_location.lookup r = (s.owned r).map (·.1) := by
  have hr := h r
  rw [← AList.lookup_isSome, ← AList.lookup_isSome] at hr
  unfold owned
  cases hl : s.request_location.lookup r <;> cases ht : s.block_table.lookup r <;>
    simp_all

theorem table_eq {s : BlockManager} (h : SameKeys s) (r : RequestId) :
    s.block_table.lookup r = (s.owned r).map (·.2) := by
  have hr := h r
  rw [← AList.lookup_isSome, ← AList.lookup_isSome] at hr
  unfold owned
  cases hl : s.request_location.lookup r <;> cases ht : s.block_table.lookup r <;>
    simp_all

theorem heldAt_self {s : BlockManager} {r : RequestId} {l : BlockLocation} {t : List Nat}
    (h : s.owned r = some (l, t)) : s.heldAt l r = t := by simp [heldAt, h]

theorem heldAt_ne {s : BlockManager} {r : RequestId} {l l' : BlockLocation} {t : List Nat}
    (h : s.owned r = some (l, t)) (hl : l ≠ l') : s.heldAt l' r = [] := by simp [heldAt, h, hl]

theorem heldAt_none {s : BlockManager} {r : RequestId} (h : s.owned r = none)
    (l : BlockLocation) : s.heldAt l r = [] := by simp [heldAt, h]

theorem heldAt_congr {s s' : BlockManager} {r : RequestId} (h : s'.owned r = s.owned r)
    (l : BlockLocation) : s'.heldAt l r = s.heldAt l r := by simp [heldAt, h]

theorem heldAt_of_notMem {s : BlockManager} {r : RequestId} (h : r ∉ s.block_table)
    (l : BlockLocation) : s.heldAt l r = [] := by
  apply heldAt_none
  rw [← AList.lookup_eq_none] at h
  simp [owned, h]

/-! ## The fields after an update -/

@[simp] theorem pool_withPool_self (s : BlockManager) (l : BlockLocation) (p : BlockPool) :
    (s.withPool l p).pool l = p := by cases l <;> rfl

theorem pool_withPool_ne (s : BlockManager) {l l' : BlockLocation} (p : BlockPool) (h : l' ≠ l) :
    (s.withPool l p).pool l' = s.pool l' := by
  cases l <;> cases l' <;> first | rfl | exact absurd rfl h

@[simp] theorem block_table_withPool (s : BlockManager) (l : BlockLocation) (p : BlockPool) :
    (s.withPool l p).block_table = s.block_table := by cases l <;> rfl

@[simp] theorem request_location_withPool (s : BlockManager) (l : BlockLocation) (p : BlockPool) :
    (s.withPool l p).request_location = s.request_location := by cases l <;> rfl

@[simp] theorem remote_calls_withPool (s : BlockManager) (l : BlockLocation) (p : BlockPool) :
    (s.withPool l p).remote_calls = s.remote_calls := by cases l <;> rfl

@[simp] theorem cache_config_withPool (s : BlockManager) (l : BlockLocation) (p : BlockPool) :
    (s.withPool l p).cache_config = s.cache_config := by cases l <;> rfl

@[simp] theorem max_num_blocks_withPool (s : BlockManager) (l : BlockLocation) (p : BlockPool) :
    (s.withPool l p).max_num_blocks = s.max_num_blocks := by
  funext l'; cases l <;> cases l' <;> rfl

@[simp] theorem owned_withPool (s : BlockManager) (l : BlockLocation) (p : BlockPool)
    (r : RequestId) : (s.withPool l p).owned r = s.owned r := by simp [owned]

@[simp] theorem pool_setTable (s : BlockManager) (r : RequestId) (t : List Nat) :
    (s.setTable r t).pool = s.pool := by funext l; cases l <;> rfl

@[simp] theorem max_num_blocks_setTable (s : BlockManager) (r : RequestId) (t : List Nat) :
    (s.setTable r t).max_num_blocks = s.max_num_blocks := by funext l; cases l <;> rfl

@[simp] theorem pool_setLocation (s : BlockManager) (r : RequestId) (l : BlockLocation) :
    (s.setLocation r l).pool = s.pool := by funext l'; cases l' <;> rfl

@[simp] theorem max_num_blocks_setLocation (s : BlockManager) (r : RequestId)
    (l : BlockLocation) : (s.setLocation r l).max_num_blocks = s.max_num_blocks := by
  funext l'; cases l' <;> rfl

@[simp] theorem pool_popTable (s : BlockManager) (r : RequestId) :
    (s.popTable r).pool = s.pool := by funext l; cases l <;> rfl

@[simp] theorem max_num_blocks_popTable (s : BlockManager) (r : RequestId) :
    (s.popTable r).max_num_blocks = s.max_num_blocks := by funext l; cases l <;> rfl

theorem owned_popTable (s : BlockManager) (r r' : RequestId) :
    (s.popTable r).owned r' = if r' = r then none else s.owned r' := by
  unfold owned popTable
  by_cases h : r' = r
  · subst h; simp
  · simp [AList.lookup_erase_ne h, h]

theorem owned_setTable {s : BlockManager} {r : RequestId} {l : BlockLocation}
    (hl : s.request_location.lookup r = some l) (t : List Nat) (r' : RequestId) :
    (s.setTable r t).owned r' = if r' = r then some (l, t) else s.owned r' := by
  unfold owned setTable
  by_cases h : r' = r
  · subst h; simp [AList.lookup_insert, hl]
  · simp [AList.lookup_insert_ne h, h]

theorem owned_setTable_setLocation (s : BlockManager) (r r' : RequestId) (l : BlockLocation)
    (t : List Nat) :
    ((s.setTable r t).setLocation r l).owned r' = if r' = r then some (l, t) else s.owned r' := by
  unfold owned setTable setLocation
  by_cases h : r' = r
  · subst h; simp [AList.lookup_insert]
  · simp [AList.lookup_insert_ne h, h]

theorem sameKeys_setTable {s : BlockManager} (h : SameKeys s) {r : RequestId}
    (hr : r ∈ s.block_table) (t : List Nat) : SameKeys (s.setTable r t) := by
  intro r'
  have := h r'
  simp only [setTable, AList.mem_insert, ← this, or_iff_right_iff_imp]
  rintro rfl
  exact hr

theorem sameKeys_setTable_setLocation {s : BlockManager} (h : SameKeys s) (r : RequestId)
    (l : BlockLocation) (t : List Nat) : SameKeys ((s.setTable r t).setLocation r l) := by
  intro r'
  simp [setTable, setLocation, AList.mem_insert, h r']

theorem sameKeys_withPool {s : BlockManager} (h : SameKeys s) (l : BlockLocation)
    (p : BlockPool) : SameKeys (s.withPool l p) := by
  intro r
  simpa using h r

@[simp] theorem pool_remote (s : BlockManager) (c : RemoteCall) :
    (s.remote_call_all_workers_async c).pool = s.pool := by funext l; cases l <;> rfl

@[simp] theorem owned_remote (s : BlockManager) (c : RemoteCall) :
    (s.remote_call_all_workers_async c).owned = s.owned := rfl

@[simp] theorem max_num_blocks_remote (s : BlockManager) (c : RemoteCall) :
    (s.remote_call_all_workers_async c).max_num_blocks = s.max_num_blocks := by
  funext l; cases l <;> rfl

/-! ## Free blocks are taken -/

/-- The calls that ask the workers to wait. -/
def IsWait (c : RemoteCall) : Prop := c = .wait_for_all_swap_out ∨ c = .wait_for_all_swap_in

theorem isWait_wait (l : BlockLocation) : IsWait (wait_for_all_swap l) := by
  cases l
  · exact Or.inl rfl
  · exact Or.inr rfl

/-- The calls from `s` to `s'` are all of the kind `P`. -/
def OnlyCalls (P : RemoteCall → Prop) (s s' : BlockManager) : Prop :=
  ∃ cs, s'.remote_calls = s.remote_calls ++ cs ∧ ∀ c ∈ cs, P c

theorem OnlyCalls.refl (P : RemoteCall → Prop) (s : BlockManager) : OnlyCalls P s s :=
  ⟨[], by simp, by simp⟩

theorem OnlyCalls.trans {P : RemoteCall → Prop} {s s1 s2 : BlockManager} (h : OnlyCalls P s s1)
    (h' : OnlyCalls P s1 s2) : OnlyCalls P s s2 := by
  obtain ⟨w, hw, hw'⟩ := h
  obtain ⟨v, hv, hv'⟩ := h'
  refine ⟨w ++ v, by rw [hv, hw, List.append_assoc], fun c hc => ?_⟩
  rcases List.mem_append.mp hc with hc | hc
  · exact hw' c hc
  · exact hv' c hc

theorem OnlyCalls.imp {P Q : RemoteCall → Prop} {s s' : BlockManager} (h : OnlyCalls P s s')
    (hpq : ∀ c, P c → Q c) : OnlyCalls Q s s' := by
  obtain ⟨w, hw, hw'⟩ := h
  exact ⟨w, hw, fun c hc => hpq c (hw' c hc)⟩

/-- What is read off the calls does not change when the new calls give nothing. -/
theorem OnlyCalls.flatMap_eq {α : Type} {P : RemoteCall → Prop} {s s' : BlockManager}
    {f : RemoteCall → List α} (h : OnlyCalls P s s') (hf : ∀ c, P c → f c = []) :
    s'.remote_calls.flatMap f = s.remote_calls.flatMap f := by
  obtain ⟨w, hw, hw'⟩ := h
  rw [hw, List.flatMap_append, List.flatMap_eq_nil_iff.mpr fun c hc => hf c (hw' c hc),
    List.append_nil]

/-- The calls from `s` to `s'` only wait. -/
abbrev OnlyWaits (s s' : BlockManager) : Prop := OnlyCalls IsWait s s'

/-- `s'` is `s` after `blocks` left the pool of `l`. -/
structure Takes (s : BlockManager) (l : BlockLocation) (blocks : List Nat) (s' : BlockManager) :
    Prop where
  block_table : s'.block_table = s.block_table
  request_location : s'.request_location = s.request_location
  cache_config : s'.cache_config = s.cache_config
  max_num_blocks : s'.max_num_blocks = s.max_num_blocks
  count : ∀ b, poolCount s' l b + blocks.count b = poolCount s l b
  avail : s'.get_num_avail_blocks l + blocks.length = s.get_num_avail_blocks l
  other : ∀ l', l' ≠ l → s'.pool l' = s.pool l'
  remote_calls : OnlyWaits s s'

theorem Takes.owned {s s' : BlockManager} {l : BlockLocation} {blocks : List Nat}
    (h : Takes s l blocks s') : s'.owned = s.owned := by
  funext r
  simp [BlockManager.owned, h.block_table, h.request_location]

theorem Takes.sameKeys {s s' : BlockManager} {l : BlockLocation} {blocks : List Nat}
    (h : Takes s l blocks s') (hs : SameKeys s) : SameKeys s' := by
  intro r
  rw [h.block_table, h.request_location]
  exact hs r

theorem flush_takes (s : BlockManager) (l : BlockLocation) : Takes s l [] (s.flush l) where
  block_table := by simp [flush, remote_call_all_workers_async]
  request_location := by simp [flush, remote_call_all_workers_async]
  cache_config := by simp [flush, remote_call_all_workers_async]
  max_num_blocks := by simp [flush]
  count b := by simp [poolCount, flush, List.count_append]
  avail := by simp [get_num_avail_blocks, flush]
  other l' h := by simp [flush, pool_withPool_ne _ _ h]
  remote_calls := ⟨[wait_for_all_swap l], by simp [flush, remote_call_all_workers_async], by
    simp [isWait_wait]⟩

theorem takeFree_takes (s : BlockManager) (l : BlockLocation) (n : Nat) :
    Takes s l ((s.pool l).free_blocks_list.take n) (s.takeFree l n) where
  block_table := by simp [takeFree]
  request_location := by simp [takeFree]
  cache_config := by simp [takeFree]
  max_num_blocks := by simp [takeFree]
  count b := by
    have h : (s.pool l).free_blocks_list.count b =
        ((s.pool l).free_blocks_list.take n).count b +
          ((s.pool l).free_blocks_list.drop n).count b := by
      rw [← List.count_append, List.take_append_drop]
    simp only [poolCount, takeFree, pool_withPool_self, h]
    omega
  avail := by
    simp only [get_num_avail_blocks, takeFree, pool_withPool_self, List.length_drop,
      List.length_take]
    omega
  other l' h := by simp [takeFree, pool_withPool_ne _ _ h]
  remote_calls := ⟨[], by simp [takeFree], by simp⟩

theorem Takes.trans {s s1 s2 : BlockManager} {l : BlockLocation} {a b : List Nat}
    (h : Takes s l a s1) (h' : Takes s1 l b s2) : Takes s l (a ++ b) s2 where
  block_table := by rw [h'.block_table, h.block_table]
  request_location := by rw [h'.request_location, h.request_location]
  cache_config := by rw [h'.cache_config, h.cache_config]
  max_num_blocks := by rw [h'.max_num_blocks, h.max_num_blocks]
  count c := by
    have h1 := h.count c
    have h2 := h'.count c
    rw [List.count_append]
    omega
  avail := by
    have h1 := h.avail
    have h2 := h'.avail
    rw [List.length_append]
    omega
  other l' hl := by rw [h'.other l' hl, h.other l' hl]
  remote_calls := h.remote_calls.trans h'.remote_calls

/-- `_get_free_blocks` raises with the state as it was, or takes as many blocks
as it was asked for. -/
theorem get_free_blocks_cases (n : Nat) (l : BlockLocation) (s : BlockManager) :
    (s.get_num_avail_blocks l < n ∧ get_free_blocks n l s =
      .error (.not_enough_free_blocks l n (s.get_num_avail_blocks l)) s) ∨
    (n ≤ s.get_num_avail_blocks l ∧ ∃ blocks s', get_free_blocks n l s = .ok blocks s' ∧
      blocks.length = n ∧ Takes s l blocks s') := by
  unfold get_free_blocks
  simp only [bind_apply, get_apply, assert_apply, modify_apply, pure_apply]
  by_cases h : n ≤ s.get_num_avail_blocks l
  · refine Or.inr ⟨h, ?_⟩
    simp only [h, if_true]
    by_cases hf : (s.pool l).free_blocks_list.length < n
    · simp only [hf, if_true]
      refine ⟨_, _, rfl, ?_, (flush_takes s l).trans (takeFree_takes _ l n)⟩
      have : n ≤ (s.pool l).free_blocks_list.length + (s.pool l).swapping_blocks_list.length := h
      simp [flush, this]
    · simp only [hf, if_false]
      exact ⟨_, _, rfl, by simp; omega, takeFree_takes s l n⟩
  · refine Or.inl ⟨by omega, ?_⟩
    simp [h]

/-! ## The methods move the blocks of one request -/

/-- From `s` to `s'`, blocks moved between the pools and the table of `r` only. -/
structure Moves (s : BlockManager) (r : RequestId) (s' : BlockManager) : Prop where
  others : ∀ r', r' ≠ r → s'.owned r' = s.owned r'
  sameKeys : SameKeys s'
  count : ∀ l b, poolCount s' l b + (s'.heldAt l r).count b =
    poolCount s l b + (s.heldAt l r).count b
  cache_config : s'.cache_config = s.cache_config
  max_num_blocks : s'.max_num_blocks = s.max_num_blocks

theorem Moves.refl {s : BlockManager} (h : SameKeys s) (r : RequestId) : Moves s r s :=
  ⟨fun _ _ => rfl, h, fun _ _ => rfl, rfl, rfl⟩

/-- The blocks that leave the pool of `l` go to the table of `r`, at the end. -/
theorem Takes.moves {s s1 s' : BlockManager} {l : BlockLocation} {blocks : List Nat}
    {r : RequestId} (old : List Nat) (h : Takes s l blocks s1) (hk : SameKeys s')
    (hp : s'.pool = s1.pool) (hold : ∀ l', s.heldAt l' r = if l' = l then old else [])
    (hnew : s'.owned r = some (l, old ++ blocks))
    (hothers : ∀ r', r' ≠ r → s'.owned r' = s1.owned r')
    (hc : s'.cache_config = s1.cache_config) (hm : s'.max_num_blocks = s1.max_num_blocks) :
    Moves s r s' where
  others r' hr := by rw [hothers r' hr, h.owned]
  sameKeys := hk
  count l' b := by
    rw [hold l']
    by_cases hl : l' = l
    · subst hl
      have := h.count b
      simp only [poolCount, hp, heldAt_self hnew, if_true, List.count_append] at this ⊢
      omega
    · simp only [poolCount, hp, h.other l' hl, heldAt_ne hnew (Ne.symm hl), hl, if_false]
  cache_config := by rw [hc, h.cache_config]
  max_num_blocks := by rw [hm, h.max_num_blocks]

/-- The table of a request, or `[]`. -/
def tableOf (s : BlockManager) (r : RequestId) : List Nat := (s.block_table.lookup r).getD []

theorem tableOf_eq {s : BlockManager} {r : RequestId} {l : BlockLocation} {t : List Nat}
    (h : s.owned r = some (l, t)) : s.tableOf r = t := by
  simp [tableOf, (lookup_of_owned h).2]

theorem tableOf_of_none {s : BlockManager} {r : RequestId} (h : SameKeys s)
    (hn : s.owned r = none) : s.tableOf r = [] := by simp [tableOf, table_eq h, hn]

/-- `s'` is `s` after `allocate_blocks` gave the request all that it needs. -/
structure Allocates (s : BlockManager) (request : Request) (s' : BlockManager) : Prop where
  moves : Moves s request.request_id s'
  table : ∃ blocks, s'.owned request.request_id =
      some (.GPU, s.tableOf request.request_id ++ blocks) ∧
    (s.tableOf request.request_id).length + blocks.length =
      max (s.get_num_blocks_needed request) (s.tableOf request.request_id).length ∧
    s'.get_num_avail_blocks .GPU + blocks.length = s.get_num_avail_blocks .GPU
  waits : OnlyWaits s s'

/-- `allocate_blocks` raises with the state as it was when the request is on the
CPU or the blocks do not suffice. Else it returns. -/
theorem allocate_blocks_cases {s : BlockManager} (hs : SameKeys s) (request : Request) :
    (((∃ t, s.owned request.request_id = some (.CPU, t)) ∨
        s.get_num_avail_blocks .GPU < s.get_num_blocks_needed request -
          (s.tableOf request.request_id).length) ∧
      ∃ e, allocate_blocks request s = .error e s) ∨
    (¬ (∃ t, s.owned request.request_id = some (.CPU, t)) ∧
      ∃ s', allocate_blocks request s = .ok () s' ∧ Allocates s request s') := by
  unfold allocate_blocks
  simp only [bind_apply, get_apply, assert_apply]
  cases ho : s.owned request.request_id with
  | none =>
    have hn : request.request_id ∉ s.block_table := (owned_none_iff hs _).mp ho
    have ht : s.block_table.lookup request.request_id = none := AList.lookup_eq_none.mpr hn
    have htab : s.tableOf request.request_id = [] := tableOf_of_none hs ho
    simp only [hn, not_false_eq_true, true_or, if_true, ht, htab, List.length_nil, Nat.sub_zero]
    rcases get_free_blocks_cases (s.get_num_blocks_needed request) .GPU s with
      ⟨h, he⟩ | ⟨_, blocks, s1, he, hlen, htake⟩
    · exact Or.inl ⟨Or.inr h, _, by rw [bind_apply, he]⟩
    · refine Or.inr ⟨by simp, _, by rw [bind_apply, he]; rfl, ?_, ⟨blocks, ?_, ?_, ?_⟩, ?_⟩
      · refine htake.moves [] (sameKeys_setTable_setLocation (htake.sameKeys hs) _ _ _)
          (by simp) (fun l' => by simp [heldAt_none ho]) (by simp [owned_setTable_setLocation])
          ?_ rfl (by simp)
        intro r' hr
        simp [owned_setTable_setLocation, hr]
      · simp [owned_setTable_setLocation, htab]
      · simp [hlen, htab]
      · simpa [get_num_avail_blocks] using htake.avail
      · exact htake.remote_calls
  | some lt =>
    obtain ⟨l, t⟩ := lt
    obtain ⟨hl, ht⟩ := lookup_of_owned ho
    have htab : s.tableOf request.request_id = t := tableOf_eq ho
    have hmem : request.request_id ∈ s.block_table := by
      rw [← AList.lookup_isSome, ht]; rfl
    cases l with
    | CPU =>
      refine Or.inl ⟨Or.inl ⟨t, rfl⟩, .currently_on_cpu request.request_id, ?_⟩
      simp [hmem, get_location, hl]
    | GPU =>
      simp only [hmem, get_location, hl, or_true, if_true, ht, htab]
      by_cases hlt : t.length < s.get_num_blocks_needed request
      · simp only [hlt, if_true]
        rcases get_free_blocks_cases (s.get_num_blocks_needed request - t.length) .GPU s with
          ⟨h, he⟩ | ⟨_, blocks, s1, he, hlen, htake⟩
        · exact Or.inl ⟨Or.inr h, _, by rw [bind_apply, he]⟩
        · have hl1 : s1.request_location.lookup request.request_id = some .GPU := by
            rw [htake.request_location, hl]
          have hmem1 : request.request_id ∈ s1.block_table := by rw [htake.block_table]; exact hmem
          refine Or.inr ⟨by simp, _, by rw [bind_apply, he]; rfl, ?_, ⟨blocks, ?_, ?_, ?_⟩, ?_⟩
          · refine htake.moves t (sameKeys_setTable (htake.sameKeys hs) hmem1 _)
              (by simp) ?_ (by simp [owned_setTable hl1]) ?_ rfl (by simp)
            · intro l'
              cases l'
              · simp [heldAt_self ho]
              · simp [heldAt_ne ho]
            · intro r' hr
              simp [owned_setTable hl1, hr]
          · simp [owned_setTable hl1, htab]
          · simp only [htab, hlen]; omega
          · simpa [get_num_avail_blocks] using htake.avail
          · exact htake.remote_calls
      · simp only [hlt, if_false]
        refine Or.inr ⟨by simp, s, rfl, Moves.refl hs _, ⟨[], ?_, ?_, by simp⟩, OnlyCalls.refl _ s⟩
        · simp [ho, htab]
        · simp only [htab, List.length_nil]; omega

/-- `s'` is `s` after `free_blocks` gave the blocks of `r` back. -/
structure Frees (s : BlockManager) (r : RequestId) (s' : BlockManager) : Prop where
  moves : Moves s r s'
  gone : s'.owned r = none
  remote_calls : s'.remote_calls = s.remote_calls

theorem locationOf_eq {s : BlockManager} {r : RequestId} {l : BlockLocation}
    (h : s.request_location.lookup r = some l) : locationOf r s = .ok l s := by
  simp [locationOf, bind_apply, get_apply, h, pure_apply]

/-- `free_blocks` raises with the state as it was when the request owns nothing.
Else it returns. -/
theorem free_blocks_cases {s : BlockManager} (hs : SameKeys s) (r : RequestId) :
    (s.owned r = none ∧ free_blocks r s = .error (.not_allocated r) s) ∨
    (s.owned r ≠ none ∧ ∃ s', free_blocks r s = .ok () s' ∧ Frees s r s') := by
  unfold free_blocks
  simp only [bind_apply, get_apply]
  cases ho : s.owned r with
  | none =>
    have hn : r ∉ s.block_table := (owned_none_iff hs _).mp ho
    exact Or.inl ⟨rfl, by simp [AList.lookup_eq_none.mpr hn, throw_apply]⟩
  | some lt =>
    obtain ⟨l, t⟩ := lt
    obtain ⟨hl, ht⟩ := lookup_of_owned ho
    refine Or.inr ⟨by simp, (s.addFree l t).popTable r, ?_, ?_, ?_, ?_⟩
    · simp only [ht, bind_apply, locationOf_eq hl, modify_apply]
    · refine ⟨?_, ?_, ?_, ?_, ?_⟩
      · intro r' hr
        simp [owned_popTable, hr, addFree]
      · intro r'
        simp [popTable, addFree, AList.mem_erase, hs r']
      · intro l' b
        rw [heldAt_none (by simp [owned_popTable])]
        by_cases hll : l' = l
        · subst hll
          simp only [poolCount, pool_popTable, addFree, pool_withPool_self, List.count_append,
            List.count_nil, heldAt_self ho]
          omega
        · simp only [poolCount, pool_popTable, addFree, pool_withPool_ne _ _ hll,
            heldAt_ne ho (Ne.symm hll)]
      · simp [popTable, addFree]
      · simp [addFree]
    · simp [owned_popTable]
    · simp [popTable, addFree]

/-! ## Swaps -/

/-- One turn of the loop of `swap_requests`: the blocks `old` of `r` at `cur` wait
in the swapping list, and `r` owns the blocks `new` at `target`. -/
structure SwapsOne (cur target : BlockLocation) (s : BlockManager) (r : RequestId)
    (old new : List Nat) (s' : BlockManager) : Prop where
  before : s.owned r = some (cur, old)
  after : s'.owned r = some (target, new)
  same_length : new.length = old.length
  moves : Moves s r s'
  waits : OnlyWaits s s'

/-- One turn raises with the state as it was, or swaps the first request. -/
theorem swap_loop_cons {cur target : BlockLocation} (hne : target ≠ cur) {s : BlockManager}
    (hs : SameKeys s) (request : Request) (rest : List Request) (src tgt : List Nat) :
    ((¬ (∃ old, s.owned request.request_id = some (cur, old)) ∧
        ∃ e, (e = .not_allocated request.request_id ∨ e = .is_on_now request.request_id target) ∧
          swap_loop cur target (request :: rest) src tgt s = .error e s) ∨
      (∃ old, s.owned request.request_id = some (cur, old) ∧
        s.get_num_avail_blocks target < old.length ∧
        swap_loop cur target (request :: rest) src tgt s =
          .error (.not_enough_free_blocks target old.length (s.get_num_avail_blocks target)) s)) ∨
    ∃ old new s', SwapsOne cur target s request.request_id old new s' ∧
      old.length ≤ s.get_num_avail_blocks target ∧
      swap_loop cur target (request :: rest) src tgt s =
        swap_loop cur target rest (src ++ old) (tgt ++ new) s' := by
  rw [swap_loop]
  simp only [bind_apply, get_apply]
  cases ho : s.owned request.request_id with
  | none =>
    have hn : request.request_id ∉ s.block_table := (owned_none_iff hs _).mp ho
    exact Or.inl (Or.inl ⟨by simp, _, .inl rfl, by rw [AList.lookup_eq_none.mpr hn]; rfl⟩)
  | some lt =>
    obtain ⟨l, t⟩ := lt
    obtain ⟨hl, ht⟩ := lookup_of_owned ho
    simp only [ht, bind_apply, locationOf_eq hl, assert_apply]
    by_cases hcur : l = cur
    · subst hcur
      simp only [if_true]
      rcases get_free_blocks_cases t.length target s with
        ⟨h, he⟩ | ⟨hle, blocks, s1, he, hlen, htake⟩
      · exact Or.inl (Or.inr ⟨t, rfl, h, by rw [he]⟩)
      · refine Or.inr ⟨t, blocks, _, ⟨ho, ?_, hlen, ⟨?_, ?_, ?_, ?_, ?_⟩, ?_⟩, hle, by
          rw [he]; simp only [modify_apply]; rfl⟩
        · simp [addSwapping, owned_setTable_setLocation]
        · intro r' hr
          simp [addSwapping, owned_setTable_setLocation, hr, htake.owned]
        · exact sameKeys_withPool (sameKeys_setTable_setLocation (htake.sameKeys hs) _ _ _) _ _
        · intro l' b
          by_cases hll : l' = l
          · subst hll
            rw [heldAt_ne (l := target) (t := blocks)
              (by simp [addSwapping, owned_setTable_setLocation]) hne]
            simp only [poolCount, addSwapping, pool_withPool_self, pool_setLocation,
              pool_setTable, heldAt_self ho, List.count_append, List.count_nil,
              htake.other _ (Ne.symm hne)]
            omega
          · have htl : target = l' := by
              cases l <;> cases target <;> cases l' <;> first | rfl | exact absurd rfl hne |
                exact absurd rfl hll
            subst htl
            have := htake.count b
            rw [heldAt_self (t := blocks) (by simp [addSwapping, owned_setTable_setLocation])]
            simp only [poolCount, addSwapping, pool_withPool_ne _ _ hll, pool_setLocation,
              pool_setTable, heldAt_ne ho (Ne.symm hll), List.count_nil] at this ⊢
            omega
        · simpa [addSwapping, setTable, setLocation] using htake.cache_config
        · simpa [addSwapping] using htake.max_num_blocks
        · simpa [OnlyCalls, addSwapping, setTable, setLocation] using htake.remote_calls
    · refine Or.inl (Or.inl ⟨by simp [hcur], _, .inr rfl, ?_⟩)
      simp [hcur]

/-- The swaps of a list of requests, one after the other, with the blocks that
they leave and the blocks that they take, in the order of the list. -/
inductive Swaps (cur target : BlockLocation) :
    BlockManager → List Request → List Nat → List Nat → BlockManager → Prop
  | nil (s : BlockManager) : Swaps cur target s [] [] [] s
  | cons {s s1 s' : BlockManager} {request : Request} {rest : List Request}
      {old new src tgt : List Nat} :
      SwapsOne cur target s request.request_id old new s1 → Swaps cur target s1 rest src tgt s' →
      Swaps cur target s (request :: rest) (old ++ src) (new ++ tgt) s'

/-- The loop of `swap_requests` returns only after it swapped each request. -/
theorem swaps_of_swap_loop {cur target : BlockLocation} (hne : target ≠ cur)
    (requests : List Request) {s s' : BlockManager} (hs : SameKeys s) {src tgt src' tgt' : List Nat}
    (h : swap_loop cur target requests src tgt s = .ok (src', tgt') s') :
    ∃ a b, src' = src ++ a ∧ tgt' = tgt ++ b ∧ Swaps cur target s requests a b s' := by
  induction requests generalizing s src tgt with
  | nil =>
    simp only [swap_loop, pure_apply, EStateM.Result.ok.injEq, Prod.mk.injEq] at h
    obtain ⟨⟨rfl, rfl⟩, rfl⟩ := h
    exact ⟨[], [], by simp, by simp, Swaps.nil s⟩
  | cons request rest ih =>
    rcases swap_loop_cons hne hs request rest src tgt with
      (⟨_, e, _, he⟩ | ⟨_, _, _, he⟩) | ⟨old, new, s1, h1, _, he⟩
    · rw [he] at h; cases h
    · rw [he] at h; cases h
    · rw [he] at h
      obtain ⟨a, b, rfl, rfl, hab⟩ := ih h1.moves.sameKeys h
      exact ⟨old ++ a, new ++ b, by simp, by simp, Swaps.cons h1 hab⟩

end distserve.BlockManager
