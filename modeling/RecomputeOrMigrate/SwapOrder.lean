-- The order of the copies of a swap and the work that needs them: an event that is
-- recorded before the copies does not cover them.
import Mathlib.Data.Nat.Find
import RecomputeOrMigrate.ParaWorker

open dicts streams

namespace distserve.ParaWorker

variable {κ : Type} {heard before calls : List (WorkerCall κ)} {c : WorkerCall κ} {r : κ}
  {is_swap_in direction : Bool} {k call event : Nat}

/-! ## The requirements -/

/-- The call with this number is a swap in this direction. -/
def SwapCall (heard : List (WorkerCall κ)) (call : Nat) (is_swap_in : Bool) : Prop :=
  ∃ request_ids source_block_ids target_block_ids,
    heard[call]? = some (.swap_blocks request_ids source_block_ids target_block_ids is_swap_in)

/-- The call with this number swaps the request in this direction. -/
def Swapped (heard : List (WorkerCall κ)) (call : Nat) (r : κ) (is_swap_in : Bool) : Prop :=
  ∃ request_ids source_block_ids target_block_ids, r ∈ request_ids ∧
    heard[call]? = some (.swap_blocks request_ids source_block_ids target_block_ids is_swap_in)

/-- What the call promises after the calls `heard`. The forward of a step and the copies of
a swap come after the copies of each earlier swap of their requests, and the copies of a
direction are done when the wait for them returns. -/
def Covered [DecidableEq κ] (heard : List (WorkerCall κ)) (c : WorkerCall κ) : Prop :=
  let issued := (after (heard ++ [c])).issued
  match c with
  | .step request_ids => ∀ r ∈ request_ids, ∀ k direction, Swapped heard k r direction →
      WorkOrdered issued (.copies k) (.forward heard.length)
  | .swap_blocks request_ids _ _ _ => ∀ r ∈ request_ids, ∀ k direction,
      Swapped heard k r direction → WorkOrdered issued (.copies k) (.copies heard.length)
  | .wait_for_all_swap_in => ∀ k, SwapCall heard k true → WorkDone issued (.copies k)
  | .wait_for_all_swap_out => ∀ k, SwapCall heard k false → WorkDone issued (.copies k)
  | _ => True

/-- The call has to wait for the copies of an earlier swap on another stream. -/
def MustWait (heard : List (WorkerCall κ)) : WorkerCall κ → Prop
  | .step request_ids => ∃ r ∈ request_ids, ∃ k direction, Swapped heard k r direction
  | .swap_blocks request_ids _ _ is_swap_in =>
    ∃ r ∈ request_ids, ∃ k, Swapped heard k r (!is_swap_in)
  | .wait_for_all_swap_in => ∃ k, SwapCall heard k true
  | .wait_for_all_swap_out => ∃ k, SwapCall heard k false
  | _ => False

/-! ## The calls that were heard -/

theorem Swapped.swapCall (h : Swapped heard call r is_swap_in) :
    SwapCall heard call is_swap_in := by
  obtain ⟨ids, src, tgt, -, hget⟩ := h
  exact ⟨ids, src, tgt, hget⟩

theorem SwapCall.lt (h : SwapCall heard call is_swap_in) : call < heard.length := by
  obtain ⟨_, _, _, hget⟩ := h
  exact (List.getElem?_eq_some_iff.mp hget).1

theorem getElem?_extend {α : Type} {xs ys : List α} {x : α} (hp : xs <+: ys)
    (h : xs[k]? = some x) : ys[k]? = some x := by
  obtain ⟨more, rfl⟩ := hp
  rw [List.getElem?_append_left (List.getElem?_eq_some_iff.mp h).1]
  exact h

theorem SwapCall.extend (h : SwapCall heard call is_swap_in) (hp : heard <+: calls) :
    SwapCall calls call is_swap_in := by
  obtain ⟨ids, src, tgt, hget⟩ := h
  exact ⟨ids, src, tgt, getElem?_extend hp hget⟩

theorem Swapped.extend (h : Swapped heard call r is_swap_in) (hp : heard <+: calls) :
    Swapped calls call r is_swap_in := by
  obtain ⟨ids, src, tgt, hr, hget⟩ := h
  exact ⟨ids, src, tgt, hr, getElem?_extend hp hget⟩

/-- A call swaps in one direction. -/
theorem SwapCall.same (h : SwapCall heard call is_swap_in) (h' : SwapCall heard call direction) :
    is_swap_in = direction := by
  obtain ⟨_, _, _, hget⟩ := h
  obtain ⟨_, _, _, hget'⟩ := h'
  rw [hget] at hget'
  cases hget'
  rfl

theorem swapCall_last (request_ids : List κ) (src tgt : List Nat) :
    SwapCall (heard ++ [.swap_blocks request_ids src tgt is_swap_in]) heard.length is_swap_in :=
  ⟨request_ids, src, tgt, by simp⟩

/-! ## The events that the worker keeps -/

variable [DecidableEq κ]

/-- An entry of the table is the event of a swap of its request. -/
theorem swapped_of_entry (h : (after heard).swap_event_table.get? r = some event) :
    ∃ direction, Swapped heard event r direction := by
  induction heard using List.reverseRecOn with
  | nil => cases h
  | append_singleton heard c ih =>
    rw [after_append] at h
    obtain ⟨hswaps, hends, hkeeps⟩ := (after heard).get?_receive c r
    by_cases hs : c.Swaps r
    · rw [hswaps hs, after_num_calls] at h
      cases h
      cases c with
      | swap_blocks request_ids src tgt direction =>
        exact ⟨direction, request_ids, src, tgt, hs, by simp⟩
      | _ => exact hs.elim
    · by_cases he : c.Ends r
      · rw [hends he] at h
        cases h
      · rw [hkeeps hs he] at h
        obtain ⟨direction, hd⟩ := ih h
        exact ⟨direction, hd.extend (List.prefix_append _ _)⟩

/-- The latest event of a direction is the event of a swap in this direction. -/
theorem swapCall_of_latest (h : (after heard).latest_swap_event direction = some event) :
    SwapCall heard event direction := by
  induction heard using List.reverseRecOn with
  | nil => cases direction <;> cases h
  | append_singleton heard c ih =>
    rw [after_append] at h
    rcases latest_receive h with ⟨⟨ids, src, tgt, rfl⟩, rfl⟩ | h
    · rw [after_num_calls]
      exact swapCall_last ids src tgt
    · exact (ih h).extend (List.prefix_append _ _)

/-! ## What a call issues -/

/-- A call issues these operations only. -/
inductive Issues (heard : List (WorkerCall κ)) :
    WorkerCall κ → Op CudaStream CudaWork → Prop
  | record (request_ids : List κ) (src tgt : List Nat) (direction : Bool) :
      Issues heard (.swap_blocks request_ids src tgt direction)
        (.record heard.length (swap_stream direction))
  | wait_for_itself (request_ids : List κ) (src tgt : List Nat) (direction : Bool) :
      Issues heard (.swap_blocks request_ids src tgt direction)
        (.wait heard.length (swap_stream direction))
  | wait_for_swap {request_ids : List κ} {src tgt : List Nat} {direction : Bool} {r : κ}
      {event : Nat} {d : Bool} : r ∈ request_ids → Swapped heard event r d →
      Issues heard (.swap_blocks request_ids src tgt direction)
        (.wait event (swap_stream direction))
  | copies (request_ids : List κ) (src tgt : List Nat) (direction : Bool) :
      Issues heard (.swap_blocks request_ids src tgt direction)
        (.work (.copies heard.length) (swap_stream direction))
  | wait_in_step {request_ids : List κ} {r : κ} {event : Nat} {d : Bool} : r ∈ request_ids →
      Swapped heard event r d → Issues heard (.step request_ids) (.wait event .current_stream)
  | forward (request_ids : List κ) :
      Issues heard (.step request_ids) (.work (.forward heard.length) .current_stream)
  | synchronize_in {event : Nat} : SwapCall heard event true →
      Issues heard .wait_for_all_swap_in (.synchronize event)
  | synchronize_out {event : Nat} : SwapCall heard event false →
      Issues heard .wait_for_all_swap_out (.synchronize event)

theorem issues_wait_of_swap {request_ids : List κ} {src tgt : List Nat}
    {op : Op CudaStream CudaWork} (h : ∃ event, op = .wait event (swap_stream direction) ∧
      (event = (after heard).num_calls ∨
        ∃ r ∈ request_ids, (after heard).swap_event_table.get? r = some event)) :
    Issues heard (.swap_blocks request_ids src tgt direction) op := by
  obtain ⟨event, rfl, rfl | ⟨r, hr, hget⟩⟩ := h
  · rw [after_num_calls]
    exact .wait_for_itself request_ids src tgt direction
  · obtain ⟨d, hd⟩ := swapped_of_entry hget
    exact .wait_for_swap hr hd

/-- The copies are the last that a swap issues. -/
theorem issued_after_swap (heard : List (WorkerCall κ)) (request_ids : List κ) (src tgt : List Nat)
    (direction : Bool) :
    ∃ ops, (after (heard ++ [.swap_blocks request_ids src tgt direction])).issued =
        (after heard).issued ++ ops ++
          [.work (.copies heard.length) (swap_stream direction)] ∧
      ∀ op ∈ ops, Issues heard (.swap_blocks request_ids src tgt direction) op ∧
        ∀ w s, op ≠ .work w s := by
  obtain ⟨waits, hissued, hwaits⟩ := (after heard).issued_swap_blocks request_ids direction
  refine ⟨.record heard.length (swap_stream direction) :: waits, ?_, fun op hop => ?_⟩
  · rw [after_append]
    apply hissued.trans
    rw [after_num_calls, List.append_assoc]
  · rcases List.mem_cons.mp hop with rfl | hop
    · exact ⟨.record request_ids src tgt direction, nofun⟩
    · refine ⟨issues_wait_of_swap (hwaits op hop), ?_⟩
      obtain ⟨event, rfl, -⟩ := hwaits op hop
      nofun

/-- The forward is the last that a step issues. -/
theorem issued_after_step (heard : List (WorkerCall κ)) (request_ids : List κ) :
    ∃ ops, (after (heard ++ [.step request_ids])).issued =
        (after heard).issued ++ ops ++ [.work (.forward heard.length) .current_stream] ∧
      ∀ op ∈ ops, Issues heard (.step request_ids) op ∧ ∀ w s, op ≠ .work w s := by
  obtain ⟨waits, hissued, hwaits⟩ := (after heard).issued_step request_ids
  refine ⟨waits, ?_, fun op hop => ?_⟩
  · rw [after_append]
    apply hissued.trans
    rw [after_num_calls, List.append_assoc]
  · obtain ⟨event, rfl, r, hr, hget⟩ := hwaits op hop
    obtain ⟨d, hd⟩ := swapped_of_entry hget
    exact ⟨.wait_in_step hr hd, nofun⟩

theorem issued_append (heard : List (WorkerCall κ)) (c : WorkerCall κ) :
    ∃ ops, (after (heard ++ [c])).issued = (after heard).issued ++ ops ∧
      ∀ op ∈ ops, Issues heard c op := by
  have hnil : ((after heard).receive c).issued = (after heard).issued →
      ∃ ops, (after (heard ++ [c])).issued = (after heard).issued ++ ops ∧
        ∀ op ∈ ops, Issues heard c op := fun hl =>
    ⟨[], ((congrArg issued (after_append heard c)).trans hl).trans (List.append_nil _).symm,
      fun _ h => absurd h List.not_mem_nil⟩
  cases c with
  | swap_blocks request_ids src tgt direction =>
    obtain ⟨ops, hissued, hops⟩ := issued_after_swap heard request_ids src tgt direction
    refine ⟨_, hissued.trans (List.append_assoc ..), fun op hop => ?_⟩
    rcases List.mem_append.mp hop with hop | hop
    · exact (hops op hop).1
    · obtain rfl := List.mem_singleton.mp hop
      exact .copies request_ids src tgt direction
  | step request_ids =>
    obtain ⟨ops, hissued, hops⟩ := issued_after_step heard request_ids
    refine ⟨_, hissued.trans (List.append_assoc ..), fun op hop => ?_⟩
    rcases List.mem_append.mp hop with hop | hop
    · exact (hops op hop).1
    · obtain rfl := List.mem_singleton.mp hop
      exact .forward request_ids
  | wait_for_all_swap_in =>
    refine ⟨_, (congrArg issued (after_append heard _)).trans issued_wait_for_all_swap_in,
      fun op hop => ?_⟩
    obtain ⟨event, hlatest, rfl⟩ := Option.map_eq_some_iff.mp (Option.mem_toList.mp hop)
    exact .synchronize_in (swapCall_of_latest hlatest)
  | wait_for_all_swap_out =>
    refine ⟨_, (congrArg issued (after_append heard _)).trans issued_wait_for_all_swap_out,
      fun op hop => ?_⟩
    obtain ⟨event, hlatest, rfl⟩ := Option.map_eq_some_iff.mp (Option.mem_toList.mp hop)
    exact .synchronize_out (swapCall_of_latest hlatest)
  | clear_request_resource r => exact hnil rfl
  | clear_request_resource_batched request_ids =>
    exact hnil (foldl_keeps issued (g := clear_request_resource) (fun _ _ => rfl) request_ids _)
  | migrate_blocks => exact hnil rfl

/-- The forwards run on the current stream, and the copies on the stream of their call. -/
theorem work_of_issued {w : CudaWork} {s : CudaStream}
    (h : .work w s ∈ (after heard).issued) :
    (∃ n < heard.length, w = .forward n ∧ s = .current_stream) ∨
      ∃ n d, w = .copies n ∧ SwapCall heard n d ∧ s = swap_stream d := by
  induction heard using List.reverseRecOn with
  | nil => cases h
  | append_singleton heard c ih =>
    obtain ⟨ops, hissued, hops⟩ := issued_append heard c
    rw [hissued] at h
    rcases List.mem_append.mp h with h | h
    · rcases ih h with ⟨n, hn, hrest⟩ | ⟨n, d, hw, hswap, hs⟩
      · refine Or.inl ⟨n, ?_, hrest⟩
        rw [List.length_append]
        omega
      · exact Or.inr ⟨n, d, hw, hswap.extend (List.prefix_append _ _), hs⟩
    · cases hops _ h with
      | copies ids src tgt d => exact Or.inr ⟨_, d, rfl, swapCall_last ids src tgt, rfl⟩
      | forward ids => exact Or.inl ⟨_, by simp, rfl, rfl⟩

/-! ## Copies that nothing waits for -/

/-- The events of the swaps in this direction after the call `k`. -/
def LaterEvents (calls : List (WorkerCall κ)) (k : Nat) (direction : Bool) (event : Nat) : Prop :=
  k < event ∧ SwapCall calls event direction

/-- All that comes after the copies of the call `k` is on the stream of its direction. -/
def Alone (calls heard : List (WorkerCall κ)) (k : Nat) (direction : Bool) : Prop :=
  ∀ i s, (after heard).issued[i]? = some (.work (.copies k) s) →
    OnlyOn (after heard).issued i (swap_stream direction) (LaterEvents calls k direction)

theorem swap_stream_inj (h : swap_stream is_swap_in = swap_stream direction) :
    is_swap_in = direction := by
  cases is_swap_in <;> cases direction <;> first | rfl | cases h

theorem current_stream_ne (direction : Bool) :
    CudaStream.current_stream ≠ swap_stream direction := by
  cases direction <;> nofun

omit [DecidableEq κ] in
/-- What a call issues is apart from the copies of `k` when it waits for none of the later
events from elsewhere. -/
theorem Issues.apart {op : Op CudaStream CudaWork} (h : Issues heard c op)
    (hp : heard ++ [c] <+: calls) (hk : k < heard.length)
    (hwait : ∀ event, op.WaitsFor event → op.stream ≠ some (swap_stream direction) →
      ¬ LaterEvents calls k direction event) :
    op.Apart (swap_stream direction) (LaterEvents calls k direction) := by
  by_cases hs : op.stream = some (swap_stream direction)
  · refine Or.inl ⟨hs, fun event s hop => ?_⟩
    subst hop
    cases h with
    | record ids src tgt d =>
      obtain rfl := swap_stream_inj (Option.some.inj hs)
      exact ⟨hk, (swapCall_last ids src tgt).extend hp⟩
  · exact Or.inr ⟨hs, fun event he => hwait event he hs⟩

theorem Alone.step (h : Alone calls heard k direction) (hk : k < heard.length)
    (hapart : ∀ op, Issues heard c op →
      op.Apart (swap_stream direction) (LaterEvents calls k direction)) :
    Alone calls (heard ++ [c]) k direction := by
  intro i s hi
  obtain ⟨ops, hissued, hops⟩ := issued_append heard c
  rw [hissued] at hi ⊢
  by_cases hlt : i < (after heard).issued.length
  · rw [List.getElem?_append_left hlt] at hi
    exact (h i s hi).append fun op hop => hapart op (hops op hop)
  · rw [List.getElem?_append_right (Nat.le_of_not_lt hlt)] at hi
    -- a call issues no copies of an earlier call
    have hissues := hops _ (List.mem_of_getElem? hi)
    cases hissues with
    | copies => exact absurd hk (Nat.lt_irrefl _)

theorem alone_after_swap (request_ids : List κ) (src tgt : List Nat) :
    Alone calls (heard ++ [.swap_blocks request_ids src tgt direction]) heard.length direction := by
  intro i s hi
  obtain ⟨ops, hissued, hops⟩ := issued_after_swap heard request_ids src tgt direction
  rw [hissued] at hi ⊢
  by_cases hlt : i < ((after heard).issued ++ ops).length
  · rw [List.getElem?_append_left hlt] at hi
    rcases List.mem_append.mp (List.mem_of_getElem? hi) with hmem | hmem
    · rcases work_of_issued hmem with ⟨_, _, hw, _⟩ | ⟨n, d, hw, hswap, _⟩
      · cases hw
      · cases hw
        exact absurd hswap.lt (Nat.lt_irrefl _)
    · exact absurd rfl ((hops _ hmem).2 _ _)
  · have hlen := (List.getElem?_eq_some_iff.mp hi).1
    rw [List.length_append, List.length_singleton] at hlen
    obtain rfl : i = ((after heard).issued ++ ops).length := by omega
    exact onlyOn_last _ _ _ _

/-- As long as no call has to wait, the copies of each swap stay alone. -/
theorem alone_of_quiet (hp : heard <+: calls)
    (hquiet : ∀ before c, before ++ [c] <+: heard → ¬ MustWait before c)
    (hk : SwapCall heard k direction) : Alone calls heard k direction := by
  induction heard using List.reverseRecOn with
  | nil => exact absurd hk.lt (Nat.not_lt_zero k)
  | append_singleton heard c ih =>
    have hlen := hk.lt
    rw [List.length_append, List.length_singleton] at hlen
    by_cases hlast : k = heard.length
    · subst hlast
      obtain ⟨ids, src, tgt, hget⟩ := hk
      rw [List.getElem?_concat_length] at hget
      cases hget
      exact alone_after_swap ids src tgt
    · have hlt : k < heard.length := by omega
      have hold : SwapCall heard k direction := by
        obtain ⟨ids, src, tgt, hget⟩ := hk
        rw [List.getElem?_append_left hlt] at hget
        exact ⟨ids, src, tgt, hget⟩
      have hbefore : heard <+: calls := (List.prefix_append _ _).trans hp
      have hnow := hquiet heard c (List.prefix_refl _)
      refine (ih hbefore (fun b c' hb => hquiet b c' (hb.trans (List.prefix_append _ _)))
        hold).step hlt fun op hop => hop.apart hp hlt fun event hw hs hlater => ?_
      have hdir : ∀ {d}, SwapCall calls event d → d = direction := fun hd => hd.same hlater.2
      cases hop with
      | record | copies | forward => rcases hw with ⟨_, hw⟩ | hw <;> cases hw
      | wait_for_itself ids src tgt d =>
        obtain ⟨_, hw⟩ | hw := hw <;> cases hw
        exact hs (congrArg _ (congrArg _ (hdir ((swapCall_last ids src tgt).extend hp))))
      | @wait_for_swap ids src tgt d' r e d hr hd =>
        obtain ⟨_, hw⟩ | hw := hw <;> cases hw
        have hdd := hdir (hd.swapCall.extend hbefore)
        subst hdd
        apply hnow
        refine ⟨r, hr, event, ?_⟩
        have hne : d' ≠ d := fun h => hs (congrArg some (congrArg swap_stream h))
        cases d <;> cases d' <;> first | exact hd | exact absurd rfl hne
      | @wait_in_step ids r e d hr hd => exact hnow ⟨r, hr, e, d, hd⟩
      | @synchronize_in e hd => exact hnow ⟨e, hd⟩
      | @synchronize_out e hd => exact hnow ⟨e, hd⟩

/-! ## The law -/

theorem exists_greatest {P : Nat → Prop} {n : Nat} (h : ∃ k, P k) (hn : ∀ k, P k → k < n) :
    ∃ k, P k ∧ ∀ j, P j → j ≤ k := by
  classical
  obtain ⟨k, hk⟩ := h
  refine ⟨Nat.findGreatest P n, Nat.findGreatest_spec (hn k hk).le hk, fun j hj => ?_⟩
  exact Nat.le_findGreatest (hn j hj).le hj

section first_call

variable {before : List (WorkerCall κ)}
  (hquiet : ∀ h c, h ++ [c] <+: before → ¬ MustWait h c)
include hquiet

/-- The copies of a swap stay alone when the next call waits for no later event of their
direction from elsewhere. -/
theorem alone_with {c : WorkerCall κ} (hk : SwapCall before k direction)
    (hwait : ∀ op, Issues before c op → ∀ event, op.WaitsFor event →
      op.stream ≠ some (swap_stream direction) →
        ¬ LaterEvents (before ++ [c]) k direction event) :
    Alone (before ++ [c]) (before ++ [c]) k direction := by
  apply (alone_of_quiet (List.prefix_append before [c]) hquiet hk).step hk.lt
  intro op hop
  exact hop.apart (List.prefix_refl _) hk.lt (hwait op hop)

theorem step_not_covered {request_ids : List κ} (h : MustWait before (.step request_ids)) :
    ¬ Covered before (.step request_ids) := by
  intro hcovered
  obtain ⟨r₀, hr₀, k₀, direction, h₀⟩ := h
  -- the last swap of these requests in this direction
  obtain ⟨k, ⟨r, hr, hk⟩, hmax⟩ := exists_greatest
    (P := fun k => ∃ r ∈ request_ids, Swapped before k r direction) ⟨k₀, r₀, hr₀, h₀⟩
    fun k ⟨_, _, hk⟩ => hk.swapCall.lt
  have halone : Alone (before ++ [.step request_ids]) (before ++ [.step request_ids]) k
      direction := by
    apply alone_with hquiet hk.swapCall
    intro op hop event hw _ hlater
    cases hop with
    | forward => rcases hw with ⟨_, hw⟩ | hw <;> cases hw
    | @wait_in_step _ r' _ d hr' hd =>
      obtain ⟨_, hw⟩ | hw := hw <;> cases hw
      obtain rfl : d = direction :=
        (hd.swapCall.extend (List.prefix_append before _)).same hlater.2
      exact absurd (hmax event ⟨r', hr', hd⟩) (Nat.not_le_of_lt hlater.1)
  obtain ⟨i, j, s, s', hi, hj, hord⟩ := hcovered r hr k direction hk
  refine (halone i s hi).not_ordered hj ?_ hord
  rcases work_of_issued (List.mem_of_getElem? hj) with ⟨_, _, _, rfl⟩ | ⟨_, _, hw, _⟩
  · exact fun h => current_stream_ne direction (Option.some.inj h)
  · cases hw

theorem swap_not_covered {request_ids : List κ} {src tgt : List Nat} {is_swap_in : Bool}
    (h : MustWait before (.swap_blocks request_ids src tgt is_swap_in)) :
    ¬ Covered before (.swap_blocks request_ids src tgt is_swap_in) := by
  intro hcovered
  obtain ⟨r₀, hr₀, k₀, h₀⟩ := h
  -- the last swap of these requests in the other direction
  obtain ⟨k, ⟨r, hr, hk⟩, hmax⟩ := exists_greatest
    (P := fun k => ∃ r ∈ request_ids, Swapped before k r (!is_swap_in)) ⟨k₀, r₀, hr₀, h₀⟩
    fun k ⟨_, _, hk⟩ => hk.swapCall.lt
  have hnew : SwapCall (before ++ [.swap_blocks request_ids src tgt is_swap_in]) before.length
      is_swap_in := swapCall_last request_ids src tgt
  have halone : Alone (before ++ [.swap_blocks request_ids src tgt is_swap_in])
      (before ++ [.swap_blocks request_ids src tgt is_swap_in]) k (!is_swap_in) := by
    apply alone_with hquiet hk.swapCall
    intro op hop event hw _ hlater
    cases hop with
    | record | copies => rcases hw with ⟨_, hw⟩ | hw <;> cases hw
    | wait_for_itself =>
      obtain ⟨_, hw⟩ | hw := hw <;> cases hw
      exact ((Bool.eq_not_self is_swap_in).mp (hnew.same hlater.2)).elim
    | @wait_for_swap _ _ _ _ r' _ d hr' hd =>
      obtain ⟨_, hw⟩ | hw := hw <;> cases hw
      obtain rfl : d = !is_swap_in :=
        (hd.swapCall.extend (List.prefix_append before _)).same hlater.2
      exact absurd (hmax event ⟨r', hr', hd⟩) (Nat.not_le_of_lt hlater.1)
  obtain ⟨i, j, s, s', hi, hj, hord⟩ := hcovered r hr k _ hk
  refine (halone i s hi).not_ordered hj ?_ hord
  rcases work_of_issued (List.mem_of_getElem? hj) with ⟨_, _, hw, _⟩ | ⟨n, d, hw, hd, rfl⟩
  · cases hw
  · cases hw
    obtain rfl := hd.same hnew
    exact fun h => (Bool.eq_not_self d).mp (swap_stream_inj (Option.some.inj h))

/-- A call of the host that waits for swaps of one direction does not wait for the copies of
the last one. -/
theorem not_all_done {c : WorkerCall κ} (h : ∃ k, SwapCall before k direction)
    (hwait : ∀ op, Issues before c op → ∀ event, op.WaitsFor event →
      SwapCall before event direction) :
    ∃ k, SwapCall before k direction ∧
      ¬ WorkDone (after (before ++ [c])).issued (.copies k) := by
  obtain ⟨k, hk, hmax⟩ := exists_greatest h fun k hk => SwapCall.lt hk
  refine ⟨k, hk, ?_⟩
  have halone : Alone (before ++ [c]) (before ++ [c]) k direction := by
    apply alone_with hquiet hk
    intro op hop event hw _ hlater
    exact absurd (hmax event (hwait op hop event hw)) (Nat.not_le_of_lt hlater.1)
  rintro ⟨i, j, s, event, hi, hj, hord⟩
  exact (halone i s hi).not_ordered hj nofun hord

/-- The first call that has to wait does not wait for the copies. -/
theorem not_covered {c : WorkerCall κ} (h : MustWait before c) : ¬ Covered before c := by
  cases c with
  | step request_ids => exact step_not_covered hquiet h
  | swap_blocks request_ids src tgt is_swap_in => exact swap_not_covered hquiet h
  | wait_for_all_swap_in =>
    obtain ⟨k, hk, hnot⟩ := not_all_done hquiet (c := .wait_for_all_swap_in) h (by
      intro op hop event hw
      cases hop with
      | synchronize_in hd =>
        obtain ⟨_, hw⟩ | hw := hw <;> cases hw
        exact hd)
    exact fun hcovered => hnot (hcovered k hk)
  | wait_for_all_swap_out =>
    obtain ⟨k, hk, hnot⟩ := not_all_done hquiet (c := .wait_for_all_swap_out) h (by
      intro op hop event hw
      cases hop with
      | synchronize_out hd =>
        obtain ⟨_, hw⟩ | hw := hw <;> cases hw
        exact hd)
    exact fun hcovered => hnot (hcovered k hk)
  | clear_request_resource => exact fun _ => h
  | clear_request_resource_batched => exact fun _ => h
  | migrate_blocks => exact fun _ => h

end first_call

/-- The copies of each swap are issued. -/
theorem copies_issued (h : SwapCall heard k direction) :
    ∃ i : Nat, (after heard).issued[i]? =
      some (Op.work (.copies k) (swap_stream direction)) := by
  induction heard using List.reverseRecOn with
  | nil => exact absurd h.lt (Nat.not_lt_zero k)
  | append_singleton heard c ih =>
    obtain ⟨ids, src, tgt, hget⟩ := h
    by_cases hlt : k < heard.length
    · rw [List.getElem?_append_left hlt] at hget
      obtain ⟨i, hi⟩ := ih ⟨ids, src, tgt, hget⟩
      obtain ⟨ops, hissued, -⟩ := issued_append heard c
      refine ⟨i, ?_⟩
      rw [hissued]
      exact getElem?_extend (List.prefix_append _ _) hi
    · have hlen := (List.getElem?_eq_some_iff.mp hget).1
      rw [List.length_append, List.length_singleton] at hlen
      obtain rfl : k = heard.length := by omega
      rw [List.getElem?_concat_length] at hget
      cases hget
      obtain ⟨ops, hissued, -⟩ := issued_after_swap heard ids src tgt direction
      exact ⟨((after heard).issued ++ ops).length, by rw [hissued, List.getElem?_concat_length]⟩

theorem covered_of_not_mustWait (h : ¬ MustWait before c) : Covered before c := by
  cases c with
  | step request_ids => exact fun r hr k d hd => absurd ⟨r, hr, k, d, hd⟩ h
  | swap_blocks request_ids src tgt is_swap_in =>
    intro r hr k d hd
    have hsame : d = is_swap_in := by
      by_contra hne
      apply h
      refine ⟨r, hr, k, ?_⟩
      cases d <;> cases is_swap_in <;> first | exact hd | exact absurd rfl hne
    subst hsame
    -- both are on one stream
    obtain ⟨ops, hissued, -⟩ := issued_after_swap before request_ids src tgt d
    obtain ⟨i, hi⟩ := copies_issued hd.swapCall
    have hlt := (List.getElem?_eq_some_iff.mp hi).1
    have hold : ((after before).issued ++ ops ++
        [Op.work (.copies before.length) (swap_stream d)])[i]? =
          some (.work (.copies k) (swap_stream d)) :=
      getElem?_extend ((List.prefix_append _ ops).trans (List.prefix_append _ _)) hi
    show WorkOrdered (after (before ++ [_])).issued _ _
    rw [hissued]
    refine workOrdered_of_stream ?_ hold (List.getElem?_concat_length ..)
    rw [List.length_append]
    omega
  | wait_for_all_swap_in => exact fun k hk => absurd ⟨k, hk⟩ h
  | wait_for_all_swap_out => exact fun k hk => absurd ⟨k, hk⟩ h
  | clear_request_resource => trivial
  | clear_request_resource_batched => trivial
  | migrate_blocks => trivial

/-- In a run, all three requirements hold exactly when no call has to wait for copies on
another stream. -/
theorem copies_are_covered_iff_no_call_must_wait (calls : List (WorkerCall κ)) :
    (∀ before c, before ++ [c] <+: calls → Covered before c) ↔
      ∀ before c, before ++ [c] <+: calls → ¬ MustWait before c := by
  constructor
  · intro hall before
    -- by induction on the number of calls before the one that has to wait
    induction hn : before.length using Nat.strong_induction_on generalizing before with
    | _ n ih =>
      intro c hp hmust
      refine not_covered (fun h c' hp' => ?_) hmust (hall before c hp)
      have hlt : h.length < n := by
        have hle := hp'.length_le
        rw [List.length_append, List.length_singleton] at hle
        omega
      exact ih h.length hlt h rfl c' (hp'.trans ((List.prefix_append _ _).trans hp))
  · exact fun hnone before c hp => covered_of_not_mustWait (hnone before c hp)

/-- The step after a swap-in does not wait for its copies. -/
theorem the_forward_may_run_before_the_copies :
    ¬ Covered [.swap_blocks [0] [1] [2] true] (.step [0]) := by
  apply not_covered
  · intro h c hp
    have hle := hp.length_le
    rw [List.length_append, List.length_singleton, List.length_singleton] at hle
    obtain rfl : h = [] := List.eq_nil_of_length_eq_zero (by omega)
    obtain rfl : c = .swap_blocks [0] [1] [2] true := by simpa using hp
    rintro ⟨r, -, k, hk⟩
    exact Nat.not_lt_zero k hk.swapCall.lt
  · exact ⟨0, List.mem_cons_self, 0, true, [0], [1], [2], List.mem_cons_self, rfl⟩

end distserve.ParaWorker
