-- Swaps of several requests at once. The tables change request by request, and the copies
-- are sent after the loop. A refusal of a later request leaves the earlier ones moved, with
-- no copy sent.
import RecomputeOrMigrate.BlockAccounts

open calls

namespace distserve.BlockManager

variable {cur target : BlockLocation} {s s1 s' : BlockManager} {requests : List Request}
  {src tgt : List Nat}

/-- The assertions of a swap. -/
def IsRefusal : PyError → Prop
  | .not_allocated _ => True
  | .is_on_now _ _ => True
  | .not_enough_free_blocks _ _ _ => True
  | _ => False

/-- Where a swap finds its requests. -/
def swap_source (is_swap_in : Bool) : BlockLocation := if is_swap_in then .CPU else .GPU

/-- Where a swap moves its requests. -/
def swap_target (is_swap_in : Bool) : BlockLocation := if is_swap_in then .GPU else .CPU

/-- A swap moves all its requests and sends one copy command for all of their blocks, or it
raises an assertion and leaves the tables and the pools as they were. -/
def AllOrNothing (requests : List Request) (is_swap_in : Bool) (s : BlockManager) : Prop :=
  match swap_requests requests is_swap_in s with
  | .ok () s' =>
    (∀ q ∈ requests, s'.get_location q.request_id = some (swap_target is_swap_in)) ∧
      ∃ waits, (∀ c ∈ waits, IsWait c) ∧ s'.remote_calls = s.remote_calls ++ waits ++
        [.swap_blocks requests (requests.flatMap fun q => s.tableOf q.request_id)
          (requests.flatMap fun q => s'.tableOf q.request_id) is_swap_in]
  | .error e s' =>
    IsRefusal e ∧ s'.block_table = s.block_table ∧ s'.request_location = s.request_location ∧
      s'.gpu = s.gpu ∧ s'.cpu = s.cpu

/-- The requests can be swapped together: they differ, they are all at `cur`, and `target` has
blocks for all of them. -/
structure Swappable (cur target : BlockLocation) (s : BlockManager) (requests : List Request) :
    Prop where
  distinct : (requests.map (·.request_id)).Nodup
  at_cur : ∀ q ∈ requests, s.get_location q.request_id = some cur
  room : (requests.map fun q => (s.tableOf q.request_id).length).sum ≤
    s.get_num_avail_blocks target

/-! ## What a series of swaps does -/

/-- Each swap takes as many blocks of the target as it leaves behind. -/
theorem SwapsOne.avail (hne : target ≠ cur) {r : RequestId} {old new : List Nat}
    (h : SwapsOne cur target s r old new s') :
    s'.get_num_avail_blocks target + old.length = s.get_num_avail_blocks target := by
  have hperm : ((s'.pool target).free_blocks_list ++ (s'.pool target).swapping_blocks_list ++
      new).Perm ((s.pool target).free_blocks_list ++ (s.pool target).swapping_blocks_list) := by
    rw [List.perm_iff_count]
    intro b
    have hb := h.moves.count target b
    rw [heldAt_self h.after, heldAt_ne h.before hne.symm, List.count_nil] at hb
    simp only [List.count_append]
    unfold poolCount at hb
    omega
  have hlen := hperm.length_eq
  rw [List.length_append, List.length_append, List.length_append, h.same_length] at hlen
  exact hlen

theorem Swaps.others (h : Swaps cur target s requests src tgt s') {r : RequestId}
    (hr : r ∉ requests.map (·.request_id)) : s'.owned r = s.owned r := by
  induction h with
  | nil => rfl
  | cons h1 _ ih =>
    rw [List.map_cons, List.mem_cons, not_or] at hr
    rw [ih hr.2, h1.moves.others r hr.1]

theorem Swaps.waits (h : Swaps cur target s requests src tgt s') : OnlyWaits s s' := by
  induction h with
  | nil => exact OnlyCalls.refl _ _
  | cons h1 _ ih => exact h1.waits.trans ih

theorem get_location_of_owned {r : RequestId} {l : BlockLocation} {t : List Nat}
    (h : s.owned r = some (l, t)) : s.get_location r = some l := (lookup_of_owned h).1

theorem owned_of_get_location (hs : SameKeys s) {r : RequestId} {l : BlockLocation}
    (h : s.get_location r = some l) : s.owned r = some (l, s.tableOf r) := by
  unfold get_location at h
  rw [location_eq hs] at h
  cases ho : s.owned r with
  | none =>
    rw [ho] at h
    cases h
  | some lt =>
    rw [ho] at h
    cases h
    rw [tableOf_eq ho]

theorem get_location_congr (hs : SameKeys s) (hs' : SameKeys s') {r : RequestId}
    (h : s'.owned r = s.owned r) : s'.get_location r = s.get_location r := by
  rw [get_location_eq hs, get_location_eq hs', h]

/-- Distinct requests give their old tables and get their new ones, in the order of the list. -/
theorem Swaps.blocks (h : Swaps cur target s requests src tgt s') (hs : SameKeys s)
    (hnd : (requests.map (·.request_id)).Nodup) :
    src = requests.flatMap (fun q => s.tableOf q.request_id) ∧
      tgt = requests.flatMap (fun q => s'.tableOf q.request_id) ∧
      ∀ q ∈ requests, s'.get_location q.request_id = some target := by
  induction h with
  | nil => exact ⟨rfl, rfl, fun q hq => absurd hq List.not_mem_nil⟩
  | @cons s s1 s' request rest old new src tgt h1 hrest ih =>
    rw [List.map_cons, List.nodup_cons] at hnd
    have hs1 := h1.moves.sameKeys
    obtain ⟨hsrc, htgt, hloc⟩ := ih hs1 hnd.2
    have hfirst : s'.owned request.request_id = some (target, new) := by
      rw [hrest.others hnd.1, h1.after]
    have hold : rest.flatMap (fun q => s1.tableOf q.request_id) =
        rest.flatMap (fun q => s.tableOf q.request_id) := by
      apply List.flatMap_congr
      intro q hq
      have hne : q.request_id ≠ request.request_id := fun he =>
        hnd.1 (he ▸ List.mem_map_of_mem hq)
      exact tableOf_congr hs hs1 (h1.moves.others _ hne)
    refine ⟨?_, ?_, ?_⟩
    · rw [List.flatMap_cons, tableOf_eq h1.before, hsrc, hold]
    · rw [List.flatMap_cons, tableOf_eq hfirst, htgt]
    · intro q hq
      rcases List.mem_cons.mp hq with rfl | hq
      · exact get_location_of_owned hfirst
      · exact hloc q hq

/-! ## When all of them are swapped -/

/-- A series of swaps starts from a state that allows it. -/
theorem Swaps.swappable (hne : target ≠ cur) (hs : SameKeys s)
    (h : Swaps cur target s requests src tgt s') : Swappable cur target s requests := by
  induction h with
  | nil => exact ⟨List.nodup_nil, fun q hq => absurd hq List.not_mem_nil, Nat.zero_le _⟩
  | @cons s s1 s' request rest old new src tgt h1 _ ih =>
    have hs1 := h1.moves.sameKeys
    obtain ⟨hnd, hcur, hroom⟩ := ih hs1
    -- the first request has left, so none of the others has its id
    have hdiff : ∀ q ∈ rest, q.request_id ≠ request.request_id := by
      intro q hq he
      have hq' := hcur q hq
      rw [he, get_location_of_owned h1.after] at hq'
      exact hne (Option.some.inj hq')
    have hold : rest.map (fun q => (s1.tableOf q.request_id).length) =
        rest.map (fun q => (s.tableOf q.request_id).length) := by
      apply List.map_congr_left
      intro q hq
      rw [tableOf_congr hs hs1 (h1.moves.others _ (hdiff q hq))]
    refine ⟨?_, ?_, ?_⟩
    · rw [List.map_cons, List.nodup_cons]
      refine ⟨?_, hnd⟩
      intro hmem
      obtain ⟨q, hq, he⟩ := List.mem_map.mp hmem
      exact hdiff q hq he
    · intro q hq
      rcases List.mem_cons.mp hq with rfl | hq
      · exact get_location_of_owned h1.before
      · rw [← hcur q hq]
        exact (get_location_congr hs hs1 (h1.moves.others _ (hdiff q hq))).symm
    · have havail := h1.avail hne
      rw [List.map_cons, List.sum_cons, tableOf_eq h1.before, ← hold]
      omega

/-- What is left after a swap can still be swapped. -/
theorem Swappable.rest {request : Request} {rest : List Request} {old new : List Nat}
    (hne : target ≠ cur) (hs : SameKeys s) (h : Swappable cur target s (request :: rest))
    (h1 : SwapsOne cur target s request.request_id old new s1) :
    Swappable cur target s1 rest := by
  obtain ⟨hnd, hcur, hroom⟩ := h
  rw [List.map_cons, List.nodup_cons] at hnd
  have hdiff : ∀ q ∈ rest, q.request_id ≠ request.request_id := fun q hq he =>
    hnd.1 (he ▸ List.mem_map_of_mem hq)
  have hs1 := h1.moves.sameKeys
  have hold : rest.map (fun q => (s1.tableOf q.request_id).length) =
      rest.map (fun q => (s.tableOf q.request_id).length) := by
    apply List.map_congr_left
    intro q hq
    rw [tableOf_congr hs hs1 (h1.moves.others _ (hdiff q hq))]
  refine ⟨hnd.2, ?_, ?_⟩
  · intro q hq
    rw [get_location_congr hs hs1 (h1.moves.others _ (hdiff q hq))]
    exact hcur q (List.mem_cons_of_mem _ hq)
  · have havail := h1.avail hne
    rw [List.map_cons, List.sum_cons, tableOf_eq h1.before] at hroom
    rw [hold]
    omega

/-- The loop swaps all requests if they can be swapped together. -/
theorem swap_loop_of_swappable (hne : target ≠ cur) (hs : SameKeys s)
    (h : Swappable cur target s requests) (src tgt : List Nat) :
    ∃ src' tgt' s', swap_loop cur target requests src tgt s = .ok (src', tgt') s' := by
  induction requests generalizing s src tgt with
  | nil => exact ⟨src, tgt, s, rfl⟩
  | cons request rest ih =>
    have howned := owned_of_get_location hs (h.at_cur request List.mem_cons_self)
    rcases swap_loop_cons hne hs request rest src tgt with
      (⟨hno, -⟩ | ⟨old, ho, hlt, -⟩) | ⟨old, new, s1, h1, -, he⟩
    · exact absurd ⟨_, howned⟩ hno
    · have hroom := h.room
      rw [List.map_cons, List.sum_cons, tableOf_eq ho] at hroom
      omega
    · rw [he]
      exact ih h1.moves.sameKeys (h.rest hne hs h1) _ _

/-! ## A refusal -/

/-- A refused loop raises an assertion, and a request that is at the target stays there. -/
theorem swap_loop_refused (hne : target ≠ cur) (hs : SameKeys s) {e : PyError}
    (h : swap_loop cur target requests src tgt s = .error e s') :
    IsRefusal e ∧ SameKeys s' ∧
      ∀ r, s.get_location r = some target → s'.get_location r = some target := by
  induction requests generalizing s src tgt with
  | nil => cases h
  | cons request rest ih =>
    rcases swap_loop_cons hne hs request rest src tgt with
      (⟨-, e', rfl | rfl, he⟩ | ⟨old, -, -, he⟩) | ⟨old, new, s1, h1, -, he⟩
    · rw [he] at h
      cases h
      exact ⟨trivial, hs, fun _ hr => hr⟩
    · rw [he] at h
      cases h
      exact ⟨trivial, hs, fun _ hr => hr⟩
    · rw [he] at h
      cases h
      exact ⟨trivial, hs, fun _ hr => hr⟩
    · rw [he] at h
      have hs1 := h1.moves.sameKeys
      obtain ⟨hkind, hs', hstay⟩ := ih hs1 h
      refine ⟨hkind, hs', fun r hr => hstay r ?_⟩
      have hdiff : r ≠ request.request_id := by
        rintro rfl
        rw [get_location_of_owned h1.before] at hr
        exact hne (Option.some.inj hr).symm
      rw [get_location_congr hs hs1 (h1.moves.others r hdiff)]
      exact hr

/-- When the first request is refused, nothing changed. When a later one is, the first one has
moved. -/
theorem swap_loop_first {request : Request} {rest : List Request} (hne : target ≠ cur)
    (hs : SameKeys s) {e : PyError}
    (h : swap_loop cur target (request :: rest) src tgt s = .error e s') :
    (s' = s ∧ ¬Swappable cur target s [request]) ∨
      (s.get_location request.request_id = some cur ∧
        s'.get_location request.request_id = some target ∧ Swappable cur target s [request]) := by
  rcases swap_loop_cons hne hs request rest src tgt with
    (⟨hno, e', -, he⟩ | ⟨old, ho, hlt, he⟩) | ⟨old, new, s1, h1, hle, he⟩
  · rw [he] at h
    cases h
    exact .inl ⟨rfl, fun hsw => hno ⟨_, owned_of_get_location hs (hsw.at_cur _ List.mem_cons_self)⟩⟩
  · rw [he] at h
    cases h
    refine .inl ⟨rfl, fun hsw => ?_⟩
    have hroom := hsw.room
    rw [List.map_cons, List.sum_cons, tableOf_eq ho] at hroom
    omega
  · rw [he] at h
    have hs1 := h1.moves.sameKeys
    refine .inr ⟨get_location_of_owned h1.before,
      (swap_loop_refused hne hs1 h).2.2 _ (get_location_of_owned h1.after), ?_⟩
    exact Swaps.swappable hne hs (.cons h1 (.nil s1))

/-! ## The law -/

theorem swap_target_ne (is_swap_in : Bool) : swap_target is_swap_in ≠ swap_source is_swap_in := by
  cases is_swap_in <;> decide

theorem swap_requests_of_ok {is_swap_in : Bool}
    (h : swap_loop (swap_source is_swap_in) (swap_target is_swap_in) requests [] [] s =
      .ok (src, tgt) s') :
    swap_requests requests is_swap_in s =
      .ok () (s'.remote_call_all_workers_async (.swap_blocks requests src tgt is_swap_in)) := by
  unfold swap_source swap_target at h
  unfold swap_requests
  rw [bind_apply, h]
  rfl

theorem swap_requests_of_error {is_swap_in : Bool} {e : PyError}
    (h : swap_loop (swap_source is_swap_in) (swap_target is_swap_in) requests [] [] s =
      .error e s') : swap_requests requests is_swap_in s = .error e s' := by
  unfold swap_source swap_target at h
  unfold swap_requests
  rw [bind_apply, h]

/-- A swap that returns moved all requests with one copy command. -/
theorem allOrNothing_of_returns {is_swap_in : Bool} (hs : SameKeys s)
    (h : swap_loop (swap_source is_swap_in) (swap_target is_swap_in) requests [] [] s =
      .ok (src, tgt) s') :
    AllOrNothing requests is_swap_in s ∧
      Swappable (swap_source is_swap_in) (swap_target is_swap_in) s requests := by
  obtain ⟨a, b, rfl, rfl, hswaps⟩ := swaps_of_swap_loop (swap_target_ne is_swap_in) requests hs h
  have hsw := hswaps.swappable (swap_target_ne is_swap_in) hs
  obtain ⟨ha, hb, hloc⟩ := hswaps.blocks hs hsw.distinct
  obtain ⟨waits, hcalls, hwaits⟩ := hswaps.waits
  refine ⟨?_, hsw⟩
  unfold AllOrNothing
  rw [swap_requests_of_ok h]
  refine ⟨hloc, waits, hwaits, ?_⟩
  unfold remote_call_all_workers_async
  rw [hcalls, ha, hb]
  rfl

/-- A swap is all or nothing if and only if all of its requests can be swapped together, or
already the first one cannot be swapped. -/
theorem a_swap_is_all_or_nothing_iff (hs : SameKeys s) (requests : List Request)
    (is_swap_in : Bool) :
    AllOrNothing requests is_swap_in s ↔
      Swappable (swap_source is_swap_in) (swap_target is_swap_in) s requests ∨
      ∃ first rest, requests = first :: rest ∧
        ¬Swappable (swap_source is_swap_in) (swap_target is_swap_in) s [first] := by
  have hne := swap_target_ne is_swap_in
  cases hloop : swap_loop (swap_source is_swap_in) (swap_target is_swap_in) requests [] [] s with
  | ok st s' =>
    obtain ⟨hall, hsw⟩ := allOrNothing_of_returns hs hloop
    exact ⟨fun _ => .inl hsw, fun _ => hall⟩
  | error e s' =>
    have hno : ¬Swappable (swap_source is_swap_in) (swap_target is_swap_in) s requests := by
      intro hsw
      obtain ⟨src', tgt', s'', he⟩ := swap_loop_of_swappable hne hs hsw [] []
      rw [hloop] at he
      cases he
    obtain ⟨hkind, -, -⟩ := swap_loop_refused hne hs hloop
    cases requests with
    | nil => cases hloop
    | cons first rest =>
      unfold AllOrNothing
      rw [swap_requests_of_error hloop]
      rcases swap_loop_first hne hs hloop with ⟨rfl, hfirst⟩ | ⟨hbefore, hafter, hfirst⟩
      · exact ⟨fun _ => .inr ⟨first, rest, rfl, hfirst⟩, fun _ => ⟨hkind, rfl, rfl, rfl, rfl⟩⟩
      · constructor
        · rintro ⟨-, -, hloc, -, -⟩
          -- the first request is at the target now
          unfold get_location at hbefore hafter
          rw [hloc, hbefore] at hafter
          exact absurd (Option.some.inj hafter).symm hne
        · rintro (hsw | ⟨q, qs, hq, hnot⟩)
          · exact absurd hsw hno
          · cases hq
            exact absurd hfirst hnot

/-- Two requests of one block each on the GPU, and room for one block on the CPU. -/
def twoOnGPU : BlockManager :=
  afterCalls (create 2 1 ⟨2, Nat.two_pos⟩)
    [.allocate_blocks (.create 0 [1, 2] ⟨[], true, 1, Nat.one_pos⟩),
      .allocate_blocks (.create 1 [3, 4] ⟨[], true, 1, Nat.one_pos⟩)]

theorem twoOnGPU_sameKeys : SameKeys twoOnGPU :=
  (every_block_has_exactly_one_place 2 1 ⟨2, Nat.two_pos⟩ _).2.2

/-- The first of them alone is swapped out. -/
theorem one_request_is_swapped_out :
    AllOrNothing [.create 0 [1, 2] ⟨[], true, 1, Nat.one_pos⟩] false twoOnGPU :=
  (a_swap_is_all_or_nothing_iff twoOnGPU_sameKeys _ false).mpr
    (.inl ⟨by decide, by decide, by decide⟩)

/-- Both of them together do not fit: the first one is on the CPU now, and no copy was sent. -/
theorem the_second_request_is_refused :
    ¬AllOrNothing [.create 0 [1, 2] ⟨[], true, 1, Nat.one_pos⟩,
      .create 1 [3, 4] ⟨[], true, 1, Nat.one_pos⟩] false twoOnGPU := by
  have hrefused : ∃ e s', swap_requests [.create 0 [1, 2] ⟨[], true, 1, Nat.one_pos⟩,
      .create 1 [3, 4] ⟨[], true, 1, Nat.one_pos⟩] false twoOnGPU = .error e s' ∧
      s'.get_location 0 = some .CPU := ⟨_, _, rfl, by decide +kernel⟩
  have hbefore : twoOnGPU.get_location 0 = some .GPU := by decide +kernel
  obtain ⟨e, s', he, hmoved⟩ := hrefused
  unfold AllOrNothing
  rw [he]
  rintro ⟨-, -, hloc, -, -⟩
  unfold get_location at hmoved hbefore
  rw [hloc, hbefore] at hmoved
  cases hmoved

end distserve.BlockManager
