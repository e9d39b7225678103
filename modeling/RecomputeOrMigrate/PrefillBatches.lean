-- The batches of a prefill pipeline. A later worker finds the batches of the first one again by
-- their chunk ids alone: the pipeline is a relay of whole batches.
import RecomputeOrMigrate.General.Relays
import RecomputeOrMigrate.SimPasses

open calls places relays

namespace simdistserve.Sim

variable {c : Cluster} {workload : Workload} {s s' s1 : Sim} {whereabouts : Nat → Where}
  {first i j k n v wid : Nat} {items : List Nat} {entered : Nat → List (List Chunk)}
  {r : Relay (List Chunk)}

/-- The batch that a worker enters during an event. -/
def entered_at (s s' : Sim) (wid : Nat) : List (List Chunk) :=
  if s.resumes wid then s'.in_progress wid else []

/-- The batches that `_enter_prefill` of a worker returned so far, in their order. -/
def history (c : Cluster) (workload : Workload) : Nat → Nat → List (List Chunk)
  | 0, _ => []
  | n + 1, wid =>
    match run c workload n, run c workload (n + 1) with
    | .ok s, .ok s' => history c workload n wid ++ s.entered_at s' wid
    | _, _ => history c workload n wid

theorem history_succ (h : run c workload n = .ok s) (h' : run c workload (n + 1) = .ok s') :
    history c workload (n + 1) wid = history c workload n wid ++ s.entered_at s' wid := by
  conv_lhs => unfold history
  rw [h, h']

/-! ## The ids of the batches -/

/-- Each batch has a request, fits the batch size and has an id of its own. -/
structure Formed (c : Cluster) (drawn : Nat) (batches : List (List Chunk)) : Prop where
  nonempty : ∀ b ∈ batches, b ≠ []
  length_le : ∀ b ∈ batches, b.length ≤ c.config.max_prefill_batch
  id : ∀ b ∈ batches, ∃ j < drawn, ∀ x ∈ b, x.chunk_id = some (c.uuids j)
  distinct : batches.Pairwise fun b b' => ∀ x ∈ b, ∀ y ∈ b', x.chunk_id ≠ y.chunk_id

theorem formed_nil : Formed c n [] := ⟨nofun, nofun, nofun, .nil⟩

theorem Formed.mono {batches : List (List Chunk)} (h : Formed c j batches) (hle : j ≤ n) :
    Formed c n batches :=
  ⟨h.nonempty, h.length_le, fun b hb => (h.id b hb).imp fun _ hi => ⟨hi.1.trans_le hle, hi.2⟩,
    h.distinct⟩

/-- The next batch gets the next id. -/
theorem Formed.append {batches : List (List Chunk)} {b : List Chunk} (h : Formed c n batches)
    (huuids : Function.Injective c.uuids) (hnonempty : b ≠ [])
    (hlength : b.length ≤ c.config.max_prefill_batch)
    (hid : ∀ x ∈ b, x.chunk_id = some (c.uuids n)) : Formed c (n + 1) (batches ++ [b]) := by
  refine ⟨?_, ?_, ?_, ?_⟩
  · intro b' hb'
    rcases List.mem_append.mp hb' with hb' | hb'
    · exact h.nonempty b' hb'
    · exact List.mem_singleton.mp hb' ▸ hnonempty
  · intro b' hb'
    rcases List.mem_append.mp hb' with hb' | hb'
    · exact h.length_le b' hb'
    · exact List.mem_singleton.mp hb' ▸ hlength
  · intro b' hb'
    rcases List.mem_append.mp hb' with hb' | hb'
    · exact (h.mono (Nat.le_succ n)).id b' hb'
    · exact ⟨n, Nat.lt_succ_self n, List.mem_singleton.mp hb' ▸ hid⟩
  · rw [List.pairwise_append]
    refine ⟨h.distinct, List.pairwise_singleton _ _, ?_⟩
    intro b' hb' b'' hb'' x hx y hy heq
    obtain ⟨j, hj, hall⟩ := h.id b' hb'
    rw [List.mem_singleton.mp hb''] at hy
    rw [hall x hx, hid y hy] at heq
    exact hj.ne (huuids (Option.some.inj heq))

/-- What passes a test before the first thing that fails. -/
theorem takeWhile_first_batch {α : Type} {p : α → Bool} {b rest : List α}
    (hlength : b.length ≤ n) (hb : ∀ x ∈ b, p x = true) (hrest : ∀ x ∈ rest, p x = false) :
    ((b ++ rest).take n).takeWhile p = b := by
  have hnone : (rest.take (n - b.length)).takeWhile p = [] := by
    cases hcons : rest.take (n - b.length) with
    | nil => rfl
    | cons x others =>
      have hx : x ∈ rest := List.mem_of_mem_take (hcons ▸ List.mem_cons_self)
      rw [List.takeWhile_cons, if_neg (by rw [hrest x hx]; exact Bool.false_ne_true)]
  rw [List.take_append, List.take_of_length_le hlength, List.takeWhile_append_of_pos hb, hnone,
    List.append_nil]

/-- The requests at the head of a queue that have one id are the first batch. -/
theorem Formed.takes_first {batches rest : List (List Chunk)} {b : List Chunk} {x : Chunk}
    {queue : List Chunk} (h : Formed c n batches) (hsub : (b :: rest).Sublist batches)
    (hqueue : queue = b ++ rest.flatten) (hhead : queue.head? = some x) :
    (queue.take (min c.config.max_prefill_batch queue.length)).takeWhile
      (fun y => y.chunk_id = x.chunk_id) = b := by
  have hb : b ∈ batches := hsub.subset List.mem_cons_self
  have hdistinct := (List.pairwise_cons.mp (h.distinct.sublist hsub)).1
  obtain ⟨i, -, hid⟩ := h.id b hb
  have hx : x ∈ b := by
    obtain ⟨y, others, rfl⟩ := List.exists_cons_of_ne_nil (h.nonempty b hb)
    rw [hqueue, List.cons_append, List.head?_cons] at hhead
    cases hhead
    exact List.mem_cons_self
  have hlength : b.length ≤ min c.config.max_prefill_batch queue.length := by
    refine le_min (h.length_le b hb) ?_
    rw [hqueue, List.length_append]
    exact Nat.le_add_right _ _
  generalize min c.config.max_prefill_batch queue.length = m at hlength
  rw [hqueue]
  apply takeWhile_first_batch hlength
  · intro y hy
    rw [hid y hy, hid x hx, decide_eq_true rfl]
  · intro y hy
    obtain ⟨b', hb', hy⟩ := List.mem_flatten.mp hy
    exact decide_eq_false (hdistinct b' hb' x hx y hy).symm

/-! ## Where the requests are -/

theorem Tracked.queue_place (h : Tracked c workload s whereabouts)
    (hi : i ∈ (s.workers v).prefill_queue) : (whereabouts i).place = some (.prefill_queue v) :=
  (Located.mem_iff h.located (p := .prefill_queue v)).mp hi

theorem Tracked.items_place (h : Tracked c workload s whereabouts)
    (hi : i ∈ (s.workers v).status.batch.items) :
    (whereabouts i).place = some (.prefill_batch v) :=
  (Located.mem_iff h.located (p := .prefill_batch v)).mp hi

theorem Tracked.items_stage (hc : c.Wired) (h : Tracked c workload s whereabouts)
    (hi : i ∈ (s.workers v).status.batch.items) : c.PrefillStage v := by
  have hstands := (h.lives i).stands hc (created_fresh workload i)
  rw [Where.placed_of_place (h.items_place hi)] at hstands
  exact hstands.1

/-- A worker is at one stage of one pipeline. -/
theorem stage_unique {first' : Nat} (hc : c.Wired) (hfirst : first ∈ c.prefill_heads)
    (hfirst' : first' ∈ c.prefill_heads) (hj : j < c.PP_prefill) (hk : k < c.PP_prefill)
    (h : first + j = first' + k) : first = first' ∧ j = k := by
  have hrank := (hc.prefill first hfirst).1.rank j hj
  rw [h, (hc.prefill first' hfirst').1.rank k hk] at hrank
  omega

theorem next_ne_self (hc : c.Wired) (hPP : 1 < c.PP_prefill) (h : c.PrefillStage wid) :
    (c.worker wid).next_worker ≠ wid := by
  obtain ⟨first, hfirst, k, hk, rfl⟩ := h
  rw [(hc.prefill first hfirst).1.next k hk]
  split <;> omega

/-! ## What an event leaves as it is -/

theorem in_progress_congr (hstatus : (s'.workers v).status = (s.workers v).status)
    (hchunk : ∀ i ∈ (s.workers v).status.batch.items, s'.chunk i = s.chunk i) :
    s'.in_progress v = s.in_progress v := by
  unfold in_progress
  rw [hstatus]
  cases hst : (s.workers v).status with
  | prefilling items reqs =>
    rw [hst] at hchunk
    exact congrArg (fun batch => [batch]) (List.map_congr_left hchunk)
  | created => rfl
  | suspended number => rfl
  | decoding reqs => rfl

theorem in_progress_flatten : ((s.in_progress v).filter (· ≠ [])).flatten =
    (s.workers v).status.batch.items.map s.chunk := by
  rw [List.flatten_filter_ne_nil]
  unfold in_progress
  cases (s.workers v).status with
  | prefilling items reqs => exact List.append_nil _
  | created => rfl
  | suspended number => rfl
  | decoding reqs => rfl

section event

variable (hc : c.Wired) (hPP : 1 < c.PP_prefill) (htracked : Tracked c workload s whereabouts)
  (hpasses : Passes c wid (s.workers wid).status.batch.items s s1)
  (hgoes : Continues c wid s1 s')

include hc hPP htracked hpasses

/-- What a worker passes on does not come back to its own queue. -/
theorem passes_self : (s1.workers wid).prefill_queue = (s.workers wid).prefill_queue := by
  apply hpasses.other
  cases hitems : (s.workers wid).status.batch.items with
  | nil => exact .inr rfl
  | cons i items =>
    have hi : i ∈ (s.workers wid).status.batch.items := hitems ▸ List.mem_cons_self
    exact .inl (next_ne_self hc hPP (htracked.items_stage hc hi)).symm

include hgoes

theorem event_chunk
    (hitems : (c.worker wid).is_last_in_pipeline = false ∨
      i ∉ (s.workers wid).status.batch.items)
    (hqueue : (c.worker wid).pipe_rank = 0 → i ∉ (s.workers wid).prefill_queue) :
    s'.chunk i = s.chunk i := by
  rw [← passes_self hc hPP htracked hpasses] at hqueue
  rw [hgoes.chunk i hqueue, hpasses.chunk i hitems]

/-- A request in the queue of a worker that is not a first one keeps its chunk. -/
theorem event_queue_chunk (hv : (c.worker v).pipe_rank ≠ 0)
    (hi : i ∈ (s.workers v).prefill_queue) : s'.chunk i = s.chunk i := by
  have hplace := htracked.queue_place hi
  apply event_chunk hc hPP htracked hpasses hgoes
  · refine .inr fun hin => ?_
    rw [htracked.items_place hin] at hplace
    cases hplace
  · intro hzero hin
    rw [htracked.queue_place hin] at hplace
    cases hplace
    exact hv hzero

/-- So does a request in a batch, as long as it is not passed on by a last worker. -/
theorem event_items_chunk (hv : v ≠ wid ∨ (c.worker wid).is_last_in_pipeline = false)
    (hi : i ∈ (s.workers v).status.batch.items) : s'.chunk i = s.chunk i := by
  have hplace := htracked.items_place hi
  apply event_chunk hc hPP htracked hpasses hgoes
  · rcases hv with hv | hlast
    · refine .inr fun hin => hv ?_
      rw [htracked.items_place hin] at hplace
      cases hplace
      rfl
    · exact .inl hlast
  · intro _ hin
    rw [htracked.queue_place hin] at hplace
    cases hplace

theorem event_in_progress (hv : v ≠ wid) : s'.in_progress v = s.in_progress v := by
  apply in_progress_congr
  · rw [hgoes.status v hv, hpasses.status]
  · intro i hi
    exact event_items_chunk hc hPP htracked hpasses hgoes (.inl hv) hi

end event

/-! ## The pipeline is a relay -/

/-- What the stages of the pipeline show of a relay: a batch without a request is none, and a
queue does not show where its batches end. -/
structure Shows (c : Cluster) (first : Nat) (entered : Nat → List (List Chunk)) (s : Sim)
    (r : Relay (List Chunk)) : Prop where
  taken : ∀ k < c.PP_prefill, r.taken k = (entered (first + k)).filter (· ≠ [])
  held : ∀ k < c.PP_prefill, r.held k = (s.in_progress (first + k)).filter (· ≠ [])
  waiting : ∀ k, k + 1 < c.PP_prefill →
    (s.workers (first + (k + 1))).prefill_queue.map s.chunk = (r.waiting (k + 1)).flatten
  nonempty : ∀ k, k + 1 < c.PP_prefill → [] ∉ entered (first + (k + 1))

/-- An event of another pipeline or of no worker. -/
theorem Shows.other (h : Shows c first entered s r)
    (hentered : ∀ k < c.PP_prefill, s.entered_at s' (first + k) = [])
    (hbatch : ∀ k < c.PP_prefill, s'.in_progress (first + k) = s.in_progress (first + k))
    (hqueue : ∀ k, k + 1 < c.PP_prefill →
      (s'.workers (first + (k + 1))).prefill_queue = (s.workers (first + (k + 1))).prefill_queue)
    (hchunk : ∀ k, k + 1 < c.PP_prefill → ∀ i ∈ (s.workers (first + (k + 1))).prefill_queue,
      s'.chunk i = s.chunk i) :
    Shows c first (fun v => entered v ++ s.entered_at s' v) s' r := by
  refine ⟨?_, ?_, ?_, ?_⟩
  · intro k hk
    rw [hentered k hk, List.append_nil]
    exact h.taken k hk
  · intro k hk
    rw [hbatch k hk]
    exact h.held k hk
  · intro k hk
    rw [hqueue k hk, List.map_congr_left (hchunk k hk)]
    exact h.waiting k hk
  · intro k hk
    rw [hentered (k + 1) hk, List.append_nil]
    exact h.nonempty k hk

/-- The middle of an event of stage `j`, which has passed its batch on from `s` to `s1`. What the
other stages have is already that of `s'`. -/
structure Passed (c : Cluster) (first j : Nat) (entered : Nat → List (List Chunk)) (s1 s' : Sim)
    (r : Relay (List Chunk)) : Prop where
  taken : ∀ k < c.PP_prefill, r.taken k = (entered (first + k)).filter (· ≠ [])
  free : r.held j = []
  held : ∀ k < c.PP_prefill, k ≠ j → r.held k = (s'.in_progress (first + k)).filter (· ≠ [])
  waiting : ∀ k, k + 1 < c.PP_prefill →
    (s1.workers (first + (k + 1))).prefill_queue.map s'.chunk = (r.waiting (k + 1)).flatten
  nonempty : ∀ k, k + 1 < c.PP_prefill → [] ∉ entered (first + (k + 1))

theorem Shows.pass (h : Shows c first entered s r) (hc : c.Wired) (hPP : 1 < c.PP_prefill)
    (htracked : Tracked c workload s whereabouts) (hfirst : first ∈ c.prefill_heads)
    (hj : j < c.PP_prefill)
    (hpasses : Passes c (first + j) (s.workers (first + j)).status.batch.items s s1)
    (hgoes : Continues c (first + j) s1 s') : Passed c first j entered s1 s' (r.pass j) := by
  have hpipe := (hc.prefill first hfirst).1
  have hnext := hpipe.next j hj
  refine ⟨h.taken, Relay.pass_held_self, ?_, ?_, h.nonempty⟩
  · intro k hk hne
    rw [Relay.pass_held_of_ne hne, h.held k hk,
      event_in_progress hc hPP htracked hpasses hgoes (by omega)]
  · intro k hk
    have hstay : (s.workers (first + (k + 1))).prefill_queue.map s'.chunk =
        (r.waiting (k + 1)).flatten := by
      rw [← h.waiting k hk]
      apply List.map_congr_left
      intro i hi
      apply event_queue_chunk hc hPP htracked hpasses hgoes _ hi
      rw [hpipe.rank (k + 1) hk]
      exact Nat.succ_ne_zero k
    by_cases hkj : k = j
    · subst hkj
      have hlast : (c.worker (first + k)).is_last_in_pipeline = false := by
        rw [hpipe.last k hj]
        exact decide_eq_false hk.ne
      have hmoved := hpasses.next hlast
      rw [hnext, if_neg hk.ne, Nat.add_assoc] at hmoved
      have hitems : (s.workers (first + k)).status.batch.items.map s'.chunk =
          (r.held k).flatten := by
        rw [h.held k hj, in_progress_flatten]
        apply List.map_congr_left
        intro i hi
        exact event_items_chunk hc hPP htracked hpasses hgoes (.inr hlast) hi
      rw [hmoved, List.map_append, hstay, hitems, Relay.pass_waiting_next, List.flatten_append]
    · have hother : first + (k + 1) ≠ (c.worker (first + j)).next_worker := by
        rw [hnext]
        split <;> omega
      rw [hpasses.other _ (.inl hother), hstay, Relay.pass_waiting_of_ne (by omega)]

/-- Only the stage of the event enters a batch. -/
theorem entered_at_of_ne (h : s.resumes wid) (hv : v ≠ wid) : s.entered_at s' v = [] := by
  unfold entered_at
  exact if_neg fun hresumes => hv (resumes_unique hresumes h)

theorem entered_at_self (h : s.resumes wid) : s.entered_at s' wid = s'.in_progress wid :=
  if_pos h

/-- The stage enters what its batch is at the end of the event. -/
theorem Passed.shows {r' : Relay (List Chunk)} (h : Passed c first j entered s1 s' r)
    (hresumes : s.resumes (first + j))
    (hqueue : ∀ v, v ≠ first + j → (s'.workers v).prefill_queue = (s1.workers v).prefill_queue)
    (hothers : ∀ k, k ≠ j →
      r'.taken k = r.taken k ∧ r'.waiting k = r.waiting k ∧ r'.held k = r.held k)
    (htaken : r'.taken j = r.taken j ++ (s'.in_progress (first + j)).filter (· ≠ []))
    (hheld : r'.held j = (s'.in_progress (first + j)).filter (· ≠ []))
    (hwaiting : 0 < j →
      (s'.workers (first + j)).prefill_queue.map s'.chunk = (r'.waiting j).flatten)
    (hnonempty : 0 < j → [] ∉ s'.in_progress (first + j)) :
    Shows c first (fun v => entered v ++ s.entered_at s' v) s' r' := by
  refine ⟨?_, ?_, ?_, ?_⟩
  · intro k hk
    rw [List.filter_append, ← h.taken k hk]
    by_cases hkj : k = j
    · rw [hkj, entered_at_self hresumes, htaken]
    · rw [entered_at_of_ne hresumes (by omega), List.filter_nil, List.append_nil,
        (hothers k hkj).1]
  · intro k hk
    by_cases hkj : k = j
    · rw [hkj, hheld]
    · rw [(hothers k hkj).2.2, h.held k hk hkj]
  · intro k hk
    by_cases hkj : k + 1 = j
    · rw [hkj]
      exact hwaiting (by omega)
    · rw [hqueue _ (by omega), (hothers (k + 1) hkj).2.1, h.waiting k hk]
  · intro k hk
    rw [List.mem_append, not_or]
    refine ⟨h.nonempty k hk, ?_⟩
    by_cases hkj : k + 1 = j
    · rw [hkj, entered_at_self hresumes]
      exact hnonempty (by omega)
    · rw [entered_at_of_ne hresumes (by omega)]
      exact List.not_mem_nil

/-- What holds of a pipeline between two events. -/
structure Relays (c : Cluster) (first : Nat) (entered : Nat → List (List Chunk)) (s : Sim)
    (r : Relay (List Chunk)) : Prop where
  steps : Relation.ReflTransGen Relay.Step .start r
  shows : Shows c first entered s r
  formed : Formed c s.drawn (r.taken 0)

theorem Relays.ordered (h : Relays c first entered s r) : r.Ordered :=
  Relay.ordered_of_steps h.steps Relay.start_ordered

/-- The stage takes the first of the batches that wait for it, whole. -/
theorem takes_first_batch {m : Nat} (hordered : r.Ordered) (hformed : Formed c n (r.taken 0))
    (hhead : (s1.workers wid).prefill_queue.head? = some i)
    (hitems : items = ((s1.workers wid).prefill_queue.take (min c.config.max_prefill_batch
      (s1.workers wid).prefill_queue.length)).takeWhile
        fun j => (s1.requests j).chunk_id = (s1.requests i).chunk_id)
    (hwaiting : (s1.workers wid).prefill_queue.map s1.chunk = (r.waiting (m + 1)).flatten) :
    ∃ rest, r.waiting (m + 1) = items.map s1.chunk :: rest ∧ items.map s1.chunk ≠ [] := by
  cases hbatches : r.waiting (m + 1) with
  | nil =>
    rw [hbatches, List.flatten_nil, List.map_eq_nil_iff] at hwaiting
    rw [hwaiting] at hhead
    cases hhead
  | cons b rest =>
    have hsub := hordered.waiting_sublist m
    rw [hbatches] at hsub hwaiting
    have hfirst := hformed.takes_first hsub hwaiting (x := s1.chunk i)
      (by rw [List.head?_map, hhead, Option.map_some])
    rw [List.length_map, ← List.map_take, List.takeWhile_map] at hfirst
    have hb : items.map s1.chunk = b := by
      rw [hitems]
      exact hfirst
    rw [hb]
    exact ⟨rest, rfl, hformed.nonempty b (hsub.subset List.mem_cons_self)⟩

theorem filter_nonempty {b : List Chunk} (h : b ≠ []) : [b].filter (· ≠ []) = [b] :=
  List.filter_cons_of_pos (decide_eq_true h)

section run

variable (hc : c.Wired) (hPP : 1 < c.PP_prefill) (huuids : Function.Injective c.uuids)
  (hfirst : first ∈ c.prefill_heads)

include hc hPP huuids hfirst

/-- An event of a stage of the pipeline. -/
theorem Relays.stage_event (h : Relays c first entered s r)
    (htracked : Tracked c workload s whereabouts) (hj : j < c.PP_prefill)
    (hresumes : s.resumes (first + j)) (hevent : Resumes c (first + j) s s') :
    ∃ r', Relays c first (fun v => entered v ++ s.entered_at s' v) s' r' := by
  obtain ⟨s1, hpasses, hgoes⟩ := hevent
  have hrank := (hc.prefill first hfirst).1.rank j hj
  have hpassed := h.shows.pass hc hPP htracked hfirst hj hpasses hgoes
  have hsteps := h.steps.tail (.pass r j)
  have hordered := h.ordered.pass j
  have hformed : Formed c s1.drawn ((r.pass j).taken 0) := hpasses.drawn ▸ h.formed
  cases hgoes.enters with
  | idle batch queue drawn =>
    refine ⟨r.pass j, hsteps, ?_, drawn ▸ hformed⟩
    refine hpassed.shows hresumes hgoes.queue (fun _ _ => ⟨rfl, rfl, rfl⟩) ?_ ?_ ?_ ?_
    · rw [batch, List.filter_nil, List.append_nil]
    · rw [batch]
      exact hpassed.free
    · intro hpos
      obtain ⟨m, rfl⟩ := Nat.exists_eq_add_one.mpr hpos
      rw [queue]
      exact hpassed.waiting m hj
    · intro _
      rw [batch]
      exact List.not_mem_nil
  | @regroup i items later head items_eq batch queue drawn =>
    rw [hrank] at later
    obtain ⟨m, rfl⟩ := Nat.exists_eq_add_one.mpr (Nat.pos_of_ne_zero later)
    have hchunk : s'.chunk = s1.chunk := by
      funext i
      exact hgoes.chunk i fun hzero => absurd (hrank.symm.trans hzero) later
    have hwaiting := hpassed.waiting m hj
    rw [hchunk] at hwaiting
    obtain ⟨rest, hwaits, hnonempty⟩ :=
      takes_first_batch hordered hformed head items_eq hwaiting
    refine ⟨(r.pass (m + 1)).take (m + 1) (items.map s1.chunk) rest,
      hsteps.tail (.take hwaits hpassed.free), ?_, ?_⟩
    · rw [hchunk] at batch
      refine hpassed.shows hresumes hgoes.queue (fun k hk => ⟨Relay.take_taken_of_ne hk,
        Relay.take_waiting_of_ne hk, Relay.take_held_of_ne hk⟩) ?_ ?_ (fun _ => ?_) fun _ => ?_
      · rw [batch, filter_nonempty hnonempty, Relay.take_taken_self]
      · rw [batch, filter_nonempty hnonempty, Relay.take_held_self]
      · rw [queue, List.map_append, hwaits, List.flatten_cons] at hwaiting
        rw [Relay.take_waiting_self, hchunk]
        exact List.append_cancel_left hwaiting
      · rw [batch, List.mem_singleton]
        exact hnonempty.symm
    · rw [Relay.take_taken_of_ne (Nat.succ_ne_zero m).symm, drawn]
      exact hformed
  | @cut items first_stage length_le id batch drawn =>
    obtain rfl : j = 0 := hrank.symm.trans first_stage
    by_cases hitems : items = []
    · refine ⟨r.pass 0, hsteps, ?_, drawn ▸ hformed.mono (Nat.le_succ _)⟩
      have hnone : (s'.in_progress (first + 0)).filter (· ≠ []) = [] := by
        rw [batch, hitems]
        rfl
      refine hpassed.shows hresumes hgoes.queue (fun _ _ => ⟨rfl, rfl, rfl⟩) ?_ ?_ nofun nofun
      · rw [hnone, List.append_nil]
      · rw [hnone]
        exact hpassed.free
    · have hnonempty : items.map s'.chunk ≠ [] := fun hnil => hitems (List.map_eq_nil_iff.mp hnil)
      refine ⟨(r.pass 0).bring (items.map s'.chunk), hsteps.tail (.bring _ hpassed.free), ?_, ?_⟩
      · refine hpassed.shows hresumes hgoes.queue (fun k hk => ⟨Relay.bring_taken_of_ne hk, rfl,
          Relay.bring_held_of_ne hk⟩) ?_ ?_ nofun nofun
        · rw [batch, filter_nonempty hnonempty, Relay.bring_taken_first]
        · rw [batch, filter_nonempty hnonempty, Relay.bring_held_first]
      · rw [Relay.bring_taken_first, drawn]
        refine hformed.append huuids hnonempty ?_ ?_
        · rw [List.length_map]
          exact length_le
        · intro x hx
          obtain ⟨i, hi, rfl⟩ := List.mem_map.mp hx
          exact id i hi

omit huuids in
/-- An event of a worker that is not in the pipeline. -/
theorem Relays.other_event (h : Relays c first entered s r)
    (htracked : Tracked c workload s whereabouts) (hresumes : s.resumes wid)
    (hother : ∀ k < c.PP_prefill, first + k ≠ wid) (hevent : Resumes c wid s s') :
    Relays c first (fun v => entered v ++ s.entered_at s' v) s' r := by
  obtain ⟨s1, hpasses, hgoes⟩ := hevent
  refine ⟨h.steps, ?_, h.formed.mono ?_⟩
  · apply h.shows.other
    · exact fun k hk => entered_at_of_ne hresumes (hother k hk)
    · exact fun k hk => event_in_progress hc hPP htracked hpasses hgoes (hother k hk)
    · intro k hk
      rw [hgoes.queue _ (hother (k + 1) hk)]
      apply hpasses.other
      by_contra hnext
      rw [not_or, not_not] at hnext
      -- a worker that passes items on to the pipeline is in it
      obtain ⟨i, hi⟩ := List.exists_mem_of_ne_nil _ hnext.2
      obtain ⟨first', hfirst', j, hj, rfl⟩ := htracked.items_stage hc hi
      obtain ⟨j', hj', hstage⟩ := (hc.prefill first' hfirst').1.next_stage hj
      obtain ⟨rfl, -⟩ := stage_unique hc hfirst hfirst' hk hj' (hnext.1.trans hstage)
      exact hother j hj rfl
    · intro k hk i hi
      apply event_queue_chunk hc hPP htracked hpasses hgoes _ hi
      rw [(hc.prefill first hfirst).1.rank (k + 1) hk]
      exact Nat.succ_ne_zero k
  · rw [← hpasses.drawn]
    cases hgoes.enters with
    | idle batch queue drawn => exact drawn.ge
    | regroup later head items_eq batch queue drawn => exact drawn.ge
    | cut first_stage length_le id batch drawn => exact drawn ▸ Nat.le_succ _

omit hPP huuids in
/-- An event of no worker. -/
theorem Relays.rest_event (h : Relays c first entered s r) (hnone : ∀ wid, ¬ s.resumes wid)
    (hrests : Rests c s s') : Relays c first (fun v => entered v ++ s.entered_at s' v) s' r := by
  refine ⟨h.steps, ?_, hrests.drawn ▸ h.formed⟩
  apply h.shows.other
  · exact fun k _ => if_neg (hnone _)
  · exact fun k _ => in_progress_congr (hrests.status _) fun i _ => hrests.chunk i
  · intro k hk
    refine hrests.queue _ fun hhead => ?_
    obtain ⟨-, hzero⟩ := stage_unique hc hhead hfirst ((Nat.zero_le _).trans_lt hk) hk
      (Nat.add_zero _)
    cases hzero
  · exact fun k _ i _ => hrests.chunk i

/-- One event of the run is some steps of the relay. -/
theorem Relays.event (h : Relays c first entered s r) (htracked : Tracked c workload s whereabouts)
    (hstep : step c workload s = .ok s') :
    ∃ r', Relays c first (fun v => entered v ++ s.entered_at s' v) s' r' := by
  rcases step_cases hstep with ⟨wid, hresumes, hevent⟩ | ⟨hnone, hrests⟩
  · by_cases hstage : ∃ j < c.PP_prefill, first + j = wid
    · obtain ⟨j, hj, rfl⟩ := hstage
      exact h.stage_event hc hPP huuids hfirst htracked hj hresumes hevent
    · refine ⟨r, h.other_event hc hPP hfirst htracked hresumes ?_ hevent⟩
      exact fun k hk heq => hstage ⟨k, hk, heq⟩
  · exact ⟨r, h.rest_event hc hfirst hnone hrests⟩

omit hc hPP huuids hfirst in
theorem start_relays : Relays c first (history c workload 0) (start c workload) .start :=
  ⟨.refl, ⟨fun _ _ => rfl, fun _ _ => rfl, fun _ _ => rfl, fun _ _ => List.not_mem_nil⟩,
    formed_nil⟩

/-- A run is a run of the relay. -/
theorem run_relays (h : run c workload n = .ok s) :
    ∃ r, Relays c first (history c workload n) s r := by
  induction n generalizing s with
  | zero =>
    cases h
    exact ⟨.start, start_relays⟩
  | succ n ih =>
    obtain ⟨s1, h1, hstep⟩ := bind_eq_ok.mp h
    obtain ⟨r, hr⟩ := ih h1
    obtain ⟨whereabouts, htracked⟩ := run_tracked h1
    obtain ⟨r', hr'⟩ := hr.event hc hPP huuids hfirst htracked hstep
    have hhistory : history c workload (n + 1) =
        fun v => history c workload n v ++ s1.entered_at s v :=
      funext fun _ => history_succ h1 h
    exact ⟨r', hhistory ▸ hr'⟩

end run

/-- Between any two events the prefill queue of a later stage is a concatenation of whole batches.
The batches that the stage has entered, and then these, are the ones that the first stage formed,
in its order and with the same chunks. -/
theorem every_stage_takes_whole_batches (hc : Constructed c)
    (huuids : Function.Injective c.uuids) (hfirst : first ∈ c.prefill_heads) (hk : 1 ≤ k)
    (hlast : k < c.PP_prefill) (h : run c workload n = .ok s) :
    ∃ waiting : List (List Chunk),
      (s.workers (first + k)).prefill_queue.map s.chunk = waiting.flatten ∧
      history c workload n (first + k) ++ waiting <+:
        (history c workload n first).filter (· ≠ []) := by
  obtain ⟨m, rfl⟩ := Nat.exists_eq_add_one.mpr hk
  have hPP : 1 < c.PP_prefill := by omega
  obtain ⟨r, hr⟩ := run_relays hc.wired hPP huuids hfirst h
  have hprefix := hr.ordered.arrived_prefix m
  have hall : (history c workload n (first + (m + 1))).filter (· ≠ []) =
      history c workload n (first + (m + 1)) := by
    rw [List.filter_eq_self]
    intro b hb
    exact decide_eq_true fun hnil => hr.shows.nonempty m hlast (hnil ▸ hb)
  rw [hr.shows.taken (m + 1) hlast, hall, hr.shows.taken 0 (by omega), Nat.add_zero] at hprefix
  exact ⟨r.waiting (m + 1), hr.shows.waiting m hlast, hprefix⟩

/-- A prefill instance of two stages, and one worker that decodes. -/
def two_stages : Cluster where
  config := { model_type := "OPT-13B" }
  profiles := opt_13b_profiles
  uuids := id
  PP_prefill := 2
  PP_decode := 1
  prefill_instances := [[⟨0, 0, false, 1, true⟩, ⟨1, 1, true, 0, false⟩]]
  decode_instances := [[⟨2, 0, true, 2, true⟩]]
  all_workers := [⟨0, 0, false, 1, true⟩, ⟨1, 1, true, 0, false⟩, ⟨2, 0, true, 2, true⟩]

theorem two_stages_constructed : Constructed two_stages :=
  .disagg (show DisaggCluster two_stages.config opt_13b_profiles id 1 1 2 1 = .ok two_stages from
    rfl)

def three_requests : Workload := [⟨0, -1, 4, 1⟩, ⟨0, -1, 3, 1⟩, ⟨1, -1, 5, 1⟩]

/-- The first two requests wait as one batch at the second stage. -/
theorem two_requests_wait_as_a_batch : ∃ s, run two_stages three_requests 16 = .ok s ∧
    (s.workers 1).prefill_queue = [0, 1] ∧ ∃ waiting : List (List Chunk),
      (s.workers (0 + 1)).prefill_queue.map s.chunk = waiting.flatten ∧
      history two_stages three_requests 16 (0 + 1) ++ waiting <+:
        (history two_stages three_requests 16 0).filter (· ≠ []) := by
  obtain ⟨s, hs, htest⟩ := ok_of_any (x := run two_stages three_requests 16)
    (p := fun s => decide ((s.workers 1).prefill_queue = [0, 1])) (by decide +kernel)
  exact ⟨s, hs, of_decide_eq_true htest, every_stage_takes_whole_batches two_stages_constructed
    Function.injective_id List.mem_cons_self le_rfl Nat.one_lt_two hs⟩

end simdistserve.Sim
