-- First come, first served, with one pipeline stage: the batch, the swapped queue and
-- the waiting queue stand in the order of acceptance as long as each swap-out is alone.
-- A second one goes behind the first in the swapped queue, although it came before.
import RecomputeOrMigrate.DecodingRun
import RecomputeOrMigrate.General.Histories

open calls runs histories

namespace distserve

namespace DecodingStageFCFSScheduler

open BlockManager

/-! ## The line of the requests -/

/-- The requests in the order in which the scheduler would serve them again. -/
def line (s : DecodingStageFCFSScheduler) : List Request :=
  (s.batch s.cur).requests ++ s.swapped_queue ++ s.waiting_queue

/-- When `get_next_batch` swaps out, no other request is swapped out, and to swap out the
last request of the batch is enough. -/
def SwapsOutAlone (s : DecodingStageFCFSScheduler) : Prop :=
  s.overcommitted → s.swapped_queue = [] ∧
    s.needed_by_batches + s.needed_by_waiting ≤ s.block_manager.max_num_gpu_blocks +
      ((s.batch s.last_stage_index).requests.getLast?.map s.needed).getD 0

instance (s : DecodingStageFCFSScheduler) : Decidable s.SwapsOutAlone :=
  inferInstanceAs (Decidable (_ → _))

variable {s s' : DecodingStageFCFSScheduler}

theorem line_rearranged (hcur : s.cur < s.batch_queues.length) (rs sw w : List Request)
    (m : BlockManager) : (s.rearranged rs sw w m).line = rs ++ sw ++ w :=
  congrArg (·.requests ++ sw ++ w) (batch_rearranged_self hcur)

theorem add_request_ok {b b' : BatchedRequests} {q : Request} (h : b.add_request q = .ok b') :
    b' = { b with requests := b.requests ++ [q] } := by
  unfold BatchedRequests.add_request at h
  split at h
  · cases h
  · exact (Except.ok.inj h).symm

/-- The second loop takes the requests in their order to the end of the batch. -/
theorem admit_loop_line (turns : Nat) (s : DecodingStageFCFSScheduler)
    (hcur : s.cur < s.batch_queues.length) (h : admit_loop turns s = .ok s') :
    s'.line = s.line := by
  induction turns generalizing s with
  | zero =>
    cases h
    rfl
  | succ turns ih =>
    unfold admit_loop at h
    split at h
    · next q rest hs =>
      split at h
      · obtain ⟨⟨_, m⟩, -, h⟩ := bind_eq_ok.mp h
        obtain ⟨b, hb, h⟩ := bind_eq_ok.mp h
        obtain rfl := add_request_ok hb
        have hline := ih (s.rearranged ((s.batch s.cur).requests ++ [q]) rest s.waiting_queue m)
          (hcur.trans_eq (List.length_set).symm) h
        rw [hline, line_rearranged hcur, line, hs]
        simp
      · cases h
        rfl
    · next q rest hs hw =>
      split at h
      · obtain ⟨b, hb, h⟩ := bind_eq_ok.mp h
        obtain rfl := add_request_ok hb
        have hline := ih (s.rearranged ((s.batch s.cur).requests ++ [q]) s.swapped_queue rest
          s.block_manager) (hcur.trans_eq (List.length_set).symm) h
        rw [hline, line_rearranged hcur, line, hs, hw]
        simp
      · cases h
        rfl
    · cases h
      rfl

/-- With one stage there is one batch. -/
theorem batched_of_one (hshaped : s.Shaped) (hone : s.parallel_config.pipeline_parallel_size = 1)
    {i : Nat} (hi : i = 0) : s.batched = (s.batch i).requests := by
  obtain ⟨b, hb⟩ := List.length_eq_one_iff.mp (hshaped.trans hone)
  unfold batched batch
  rw [hb, hi]
  simp

theorem last_stage_of_one (hone : s.parallel_config.pipeline_parallel_size = 1) :
    s.last_stage_index = 0 := by
  unfold last_stage_index next_index
  rw [hone]
  simp

theorem turned_cur (hone : s.parallel_config.pipeline_parallel_size = 1) : s.turned.cur = 0 :=
  last_stage_of_one hone

/-- After the last request of the only batch went, its blocks are not needed. -/
theorem needed_after_swap_out (hshaped : s.Shaped)
    (hone : s.parallel_config.pipeline_parallel_size = 1) (hcur : s.cur = 0) {init : List Request}
    {q : Request} (hlast : (s.batch s.cur).requests = init ++ [q]) (sw : List Request)
    {m : BlockManager} (hcc : m.cache_config = s.block_manager.cache_config) :
    (s.rearranged init sw s.waiting_queue m).needed_by_batches + s.needed q =
        s.needed_by_batches ∧
      (s.rearranged init sw s.waiting_queue m).needed_by_waiting = s.needed_by_waiting := by
  have hlt : s.cur < s.batch_queues.length := by
    rw [hcur, hshaped, hone]
    exact Nat.one_pos
  have hneed : (s.rearranged init sw s.waiting_queue m).needed = s.needed :=
    funext fun a => needed_congr_manager hcc a
  have hrest : (s.rearranged init sw s.waiting_queue m).batched = init :=
    (batched_of_one (shaped_rearranged hshaped) hone hcur).trans
      (congrArg BatchedRequests.requests (batch_rearranged_self hlt))
  constructor
  · rw [needed_by_batches_eq (shaped_rearranged hshaped), needed_by_batches_eq hshaped, hrest,
      hneed, batched_of_one hshaped hone hcur, hlast]
    simp
  · exact congrArg List.sum (List.map_congr_left fun a _ =>
      congrArg (CacheConfig.blocks_for · a.get_input_len) hcc)

/-- One swap-out leaves the line as it is, when no other request is swapped out. -/
theorem swap_out_loop_line (hk : Kept [] s.cur s) (hcur : s.cur = 0)
    (hone : s.parallel_config.pipeline_parallel_size = 1)
    (halone : s.overcommitted → s.swapped_queue = [] ∧
      s.needed_by_batches + s.needed_by_waiting ≤ s.block_manager.max_num_gpu_blocks +
        ((s.batch s.cur).requests.getLast?.map s.needed).getD 0)
    (h : swap_out_loop (s.batch s.cur).requests.length s = .ok s') :
    s'.line = s.line ∧ s'.cur = s.cur ∧ s'.batch_queues.length = s.batch_queues.length := by
  have hlt : s.cur < s.batch_queues.length := by
    rw [hcur, hk.shaped, hone]
    exact Nat.one_pos
  by_cases hover : s.overcommitted
  · obtain ⟨hswapped, hroom⟩ := halone hover
    obtain hnil | ⟨init, q, hlast⟩ := List.eq_nil_or_concat (s.batch s.cur).requests
    · exact absurd hover (hk.not_over hnil)
    rw [List.concat_eq_append] at hlast
    rw [hlast, List.length_append, List.length_singleton, swap_out_loop, if_pos hover] at h
    simp only [hlast, List.getLast?_concat, List.dropLast_concat] at h hroom
    obtain ⟨⟨_, m⟩, hrun, h⟩ := bind_eq_ok.mp h
    have hm : swap_out_requests [q] s.block_manager = .ok () m := run_eq_ok.mp hrun
    obtain ⟨err, -, he⟩ | ⟨m', he, hk1, hr⟩ := swap_out_turn hk hlt hlast
    · rw [he] at hm
      cases hm
    rw [he] at hm
    cases hm
    have hcc : m.cache_config = s.block_manager.cache_config := hr.cache_config
    obtain ⟨hbatches, hwaiting⟩ := needed_after_swap_out hk.shaped hone hcur hlast
      (s.swapped_queue ++ [q]) hcc
    have hmax : m.max_num_gpu_blocks = s.block_manager.max_num_gpu_blocks :=
      max_num_gpu_blocks_congr hr.max_num_blocks
    have hfits :
        ¬ (s.rearranged init (s.swapped_queue ++ [q]) s.waiting_queue m).overcommitted := by
      unfold overcommitted
      rw [hwaiting]
      change ¬ m.max_num_gpu_blocks < _
      simp only [Option.map_some, Option.getD_some] at hroom
      omega
    have hstop : swap_out_loop init.length
        (s.rearranged init (s.swapped_queue ++ [q]) s.waiting_queue m) =
          .ok (s.rearranged init (s.swapped_queue ++ [q]) s.waiting_queue m) := by
      cases init.length <;> exact if_neg hfits
    obtain rfl := Except.ok.inj (hstop.symm.trans h)
    refine ⟨?_, rfl, List.length_set⟩
    rw [line_rearranged hlt, line, hlast, hswapped]
    simp
  · have hstop : swap_out_loop (s.batch s.cur).requests.length s = .ok s := by
      cases (s.batch s.cur).requests.length <;> exact if_neg hover
    rw [hstop] at h
    cases h
    exact ⟨rfl, rfl, rfl⟩

/-- `get_next_batch` leaves the line as it is, when a swap-out is alone. -/
theorem get_next_batch_line (hk : Kept [] s.last_stage_index s)
    (hone : s.parallel_config.pipeline_parallel_size = 1) (halone : s.SwapsOutAlone)
    (h : s.get_next_batch = .ok s') : s'.line = s.turned.line := by
  have hk' : Kept [] s.turned.cur s.turned := ⟨hk.shaped, hk.accounts, hk.waiting_sizes,
    hk.batch_sizes, hk.grown_sizes, hk.swapped_sizes, hk.growing, hk.limits⟩
  unfold get_next_batch at h
  obtain ⟨s1, hout, hin⟩ := bind_eq_ok.mp h
  obtain ⟨hline, hcur, hlen⟩ := swap_out_loop_line hk' (turned_cur hone) hone halone hout
  rw [← hline]
  apply admit_loop_line _ s1 ?_ hin
  rw [hcur, hlen]
  exact turned_lt hk.shaped

end DecodingStageFCFSScheduler

namespace DecodingStageLLMEngine

open BlockManager DecodingStageFCFSScheduler

/-! ## The order of acceptance -/

/-- The ids of the accepted requests that are not finished, in the order in which
`post_process` accepted them. An acceptance begins the migration. -/
def note (accepted : List RequestId) : Callback → List RequestId
  | .engine_on_new_lifetime_event request_id .MigrationBegin _ => accepted ++ [request_id]
  | .engine_on_new_lifetime_event request_id .DecodingEnd _ =>
    accepted.filter (· ≠ request_id)
  | _ => accepted

/-- The engine with the order of acceptance beside it. -/
def stepInOrder (decode : Tokenizer) :
    Machine PyError (DecodingStageLLMEngine × List RequestId) Action :=
  fun (e, accepted) a => (act decode e a).map fun x =>
    (fun (e', callbacks) => (e', callbacks.foldl note accepted)) <$> x

theorem stepInOrder_eq_ok {decode : Tokenizer} {e e' : DecodingStageLLMEngine}
    {accepted accepted' : List RequestId} {a : Action}
    (h : stepInOrder decode (e, accepted) a = some (.ok (e', accepted'))) :
    ∃ callbacks, act decode e a = some (.ok (e', callbacks)) ∧
      accepted' = callbacks.foldl note accepted := by
  unfold stepInOrder at h
  dsimp only at h
  cases hx : act decode e a with
  | none => simp [hx] at h
  | some x =>
    rw [hx] at h
    cases x with
    | error err => simp [Functor.map, Except.map] at h
    | ok r =>
      obtain ⟨rfl, rfl⟩ : r.1 = e' ∧ r.2.foldl note accepted = accepted' := by
        simpa [Functor.map, Except.map] using h
      exact ⟨r.2, rfl, rfl⟩

/-- The steps of which a swap-out is alone. -/
def Alone (s : DecodingStageLLMEngine × List RequestId) : Action → Prop
  | .begin_step _ => s.1.scheduler.SwapsOutAlone
  | _ => True

instance (s : DecodingStageLLMEngine × List RequestId) (a : Action) : Decidable (Alone s a) := by
  cases a <;> unfold Alone <;> infer_instance

theorem start_one_iteration_ok {b b' : BatchedRequests} {now : Nat}
    (h : b.start_one_iteration now = .ok b') : b'.requests = b.requests := by
  unfold BatchedRequests.start_one_iteration at h
  split at h
  · cases h
    rfl
  · cases h

/-- After the first part of a step, the queues are those of `get_next_batch`. -/
theorem push_next_batch_queues {e e' : DecodingStageLLMEngine} (hs : Sound e)
    (hp : e.point = .idle) {now : Nat} {cs : List Callback}
    (h : e.push_next_batch now = .ok (e', cs)) :
    ∃ s', e.scheduler.get_next_batch = .ok s' ∧ Kept [] e.scheduler.last_stage_index s' ∧
      Schedules e.scheduler s' ∧ e'.scheduler.batched = s'.batched ∧
      e'.scheduler.swapped_queue = s'.swapped_queue ∧
      e'.scheduler.waiting_queue = s'.waiting_queue := by
  have hk := hs.kept
  rw [show e.migrating = [] by simp [migrating, hp]] at hk
  unfold push_next_batch at h
  obtain ⟨s', hnext, h⟩ := bind_eq_ok.mp h
  obtain ⟨hk', -, hr⟩ := (get_next_batch_gives hk).of_ok hnext
  have hlt : s'.cur < s'.batch_queues.length := by
    rw [hr.cur, (reschedules_batch hr.toReschedules (turned_lt hk.shaped)).2.2.1]
    exact turned_lt hk.shaped
  refine ⟨s', hnext, hk', hr, ?_⟩
  dsimp only at h
  split at h
  · cases h
    exact ⟨rfl, rfl, rfl⟩
  · obtain ⟨⟨_, m1⟩, -, h⟩ := bind_eq_ok.mp h
    obtain ⟨⟨on_gpu, m2⟩, -, h⟩ := bind_eq_ok.mp h
    cases on_gpu with
    | false => cases h
    | true =>
      obtain ⟨b, hb, h⟩ := bind_eq_ok.mp h
      obtain ⟨⟨block_table, m3⟩, -, h⟩ := bind_eq_ok.mp h
      cases h
      refine ⟨?_, rfl, rfl⟩
      exact batched_setBatch_same hlt (start_one_iteration_ok hb)

/-- The line of the scheduler and the request that is being migrated are the accepted
requests in their order. -/
structure InOrder (e : DecodingStageLLMEngine) (accepted : List RequestId) : Prop where
  one : e.scheduler.parallel_config.pipeline_parallel_size = 1
  order : accepted = (e.scheduler.batched ++ e.scheduler.swapped_queue ++
    e.scheduler.waiting_queue ++ e.migrating).map (·.request_id)

variable {e e' : DecodingStageLLMEngine} {accepted : List RequestId}

theorem InOrder.congr (h : InOrder e accepted)
    (hpc : e'.scheduler.parallel_config = e.scheduler.parallel_config)
    (hb : e'.scheduler.batched = e.scheduler.batched)
    (hsw : e'.scheduler.swapped_queue = e.scheduler.swapped_queue)
    (hw : e'.scheduler.waiting_queue ++ e'.migrating = e.scheduler.waiting_queue ++ e.migrating) :
    InOrder e' accepted := by
  refine ⟨hpc ▸ h.one, ?_⟩
  rw [h.order, hb, hsw, List.append_assoc _ _ e.migrating, List.append_assoc _ _ e'.migrating, hw]

/-- `get_next_batch` returns a line in the order of acceptance. -/
theorem InOrder.next (h : InOrder e accepted) (hs : Sound e) (hp : e.point = .idle)
    (halone : e.scheduler.SwapsOutAlone) {s' : DecodingStageFCFSScheduler}
    (hnext : e.scheduler.get_next_batch = .ok s') :
    accepted = s'.line.map (·.request_id) ∧ s'.batched = (s'.batch s'.cur).requests ∧
      s'.parallel_config = e.scheduler.parallel_config := by
  have hmig : e.migrating = [] := by simp [migrating, hp]
  have hk := hs.kept
  rw [hmig] at hk
  obtain ⟨hk', -, hr⟩ := (get_next_batch_gives hk).of_ok hnext
  have hpc := (reschedules_batch hr.toReschedules (turned_lt hk.shaped)).2.2.2.1
  have hcur : s'.cur = 0 := hr.cur.trans (turned_cur h.one)
  refine ⟨?_, batched_of_one hk'.shaped (hpc ▸ h.one) hcur, hpc⟩
  rw [get_next_batch_line hk h.one halone hnext, h.order, hmig, List.append_nil, line,
    ← batched_of_one (s := e.scheduler.turned) hk.shaped h.one (turned_cur h.one)]
  rfl

/-- When `post_process` accepts a request, that one is the last in the order. -/
theorem InOrder.go_on (h : InOrder e accepted) (hs : Sound e) {cs cs' : List Callback}
    (hd : e.go_on cs = .ok (e', cs')) :
    ∃ more, cs' = cs ++ more ∧ InOrder e' (more.foldl note accepted) := by
  unfold DecodingStageLLMEngine.go_on at hd
  split at hd
  · next hp =>
    rcases post_process_cases hs hp with he | ⟨mr, m, e1, ha, he⟩
    · rw [he] at hd
      cases hd
      exact ⟨[], rfl, h⟩
    · rw [he] at hd
      cases hd
      refine ⟨_, rfl, ?_, ?_⟩
      · rw [ha.same]
        exact h.one
      · have hmig : e.migrating = [] := by simp [migrating, hp]
        rw [List.foldl_cons, List.foldl_nil, note, h.order, ha.same, hmig]
        simp [DecodingStageLLMEngine.accepted, migrating, batched]
  · cases hd
    exact ⟨[], by simp, h⟩

/-- The begin of a batch changes nothing in the order. -/
theorem note_begins (rs : List Request) : (rs.map fun q =>
    Callback.engine_on_new_lifetime_event q.request_id .DecodingBegin true).foldl note accepted =
      accepted := by
  induction rs with
  | nil => rfl
  | cons q rest ih => exact ih

theorem InOrder.push (h : InOrder e accepted) (hs : Sound e) (hp : e.point = .idle)
    (halone : e.scheduler.SwapsOutAlone) {now : Nat} {cs : List Callback}
    (hd : e.push_next_batch now = .ok (e', cs)) : InOrder e' (cs.foldl note accepted) := by
  obtain ⟨s', m, (hpush : Pushed e now s' m e'), (hcs : cs = _)⟩ :=
    (push_next_batch_gives hs hp now).of_ok hd
  obtain ⟨s1, hnext, -, -, hb, hsw, hw⟩ := push_next_batch_queues hs hp hd
  obtain ⟨horder, hbatch, hpc⟩ := h.next hs hp halone hnext
  rw [hcs, note_begins]
  have hmig : e'.migrating = [] := by
    rcases hpush.point with hp' | hp' <;> simp [migrating, hp']
  constructor
  · have hcore := hpush.core hs hp
    rw [hcore.parallel_config, hpush.same]
    exact hs.parallel_config ▸ h.one
  · rw [horder, hb, hsw, hw, hmig, List.append_nil, line, hbatch]

theorem InOrder.checked (h : InOrder e accepted) (hin : e.in_migration = [])
    (hc : Checked e e') : InOrder e' accepted := by
  have hmig : e.migrating = [] := by rw [migrating_eq, hin]; rfl
  have hmig' : e'.migrating = [] := by
    rcases hc.point with hp | hp <;> simp [migrating, hp]
  have hs : e'.scheduler = e.scheduler := by rw [hc.same]
  apply h.congr
  · rw [hs]
  · rw [hs]
  · rw [hs]
  · rw [hs, hmig, hmig']

/-! ## The result of a batch -/

/-- The requests whose last token is among the outputs leave the order. -/
theorem note_outputs (outputs : List StepOutput) (accepted : List RequestId) :
    (outputs.flatMap fun step_output =>
      .engine_on_new_step_output step_output.request_id step_output ::
        if step_output.is_finished then
          [Callback.engine_on_new_lifetime_event step_output.request_id .DecodingEnd false]
        else []).foldl note accepted =
      accepted.filter fun r => ∀ o ∈ outputs, o.is_finished = true → r ≠ o.request_id := by
  induction outputs generalizing accepted with
  | nil => simp
  | cons o rest ih =>
    rw [List.flatMap_cons, List.foldl_append, ih, List.foldl_cons]
    cases ho : o.is_finished with
    | false => simp [note, ho]
    | true =>
      simp only [note, if_true, List.foldl_cons, List.foldl_nil, List.filter_filter]
      apply List.filter_congr
      intro r _
      simp [ho, Bool.and_comm]

/-- Each output is for a request of the list. -/
theorem output_of_request {rs : List Request} {ts : List String} {is : List TokenId}
    {o : StepOutput} (ho : o ∈ step_outputs rs ts is) :
    ∃ q ∈ rs, o.request_id = q.request_id ∧ o.is_finished = q.is_finished := by
  induction rs generalizing ts is with
  | nil => cases ho
  | cons r rest ih =>
    match ts, is with
    | [], _ => cases ho
    | _ :: _, [] => cases ho
    | t :: ts, i :: is =>
      rcases List.mem_cons.mp ho with rfl | ho
      · exact ⟨r, List.mem_cons_self, rfl, rfl⟩
      · obtain ⟨q, hq, hid⟩ := ih ho
        exact ⟨q, List.mem_cons_of_mem _ hq, hid⟩

/-- A request that finishes in a step has an output of this step. -/
theorem output_of_finished {rs : List Request} {ts : List String} {is : List TokenId}
    (hf : ∀ q ∈ rs, q.is_finished = false) {g : Request}
    (hg : g ∈ BatchedRequests.growAll rs ts is) (hfin : g.is_finished = true) :
    ∃ o ∈ step_outputs (BatchedRequests.growAll rs ts is) ts is,
      o.is_finished = true ∧ g.request_id = o.request_id := by
  induction rs generalizing ts is with
  | nil => cases ts <;> cases is <;> simp [BatchedRequests.growAll] at hg
  | cons r rest ih =>
    have hstays : g ∈ r :: rest → False := by
      intro hm
      rw [hf g hm] at hfin
      cases hfin
    cases ts with
    | nil => exact (hstays hg).elim
    | cons t ts =>
      cases is with
      | nil => exact (hstays hg).elim
      | cons i is =>
        rcases List.mem_cons.mp hg with rfl | hg
        · exact ⟨_, List.mem_cons_self, hfin, rfl⟩
        · obtain ⟨o, ho, hid⟩ := ih (fun q hq => hf q (List.mem_cons_of_mem _ hq)) hg
          exact ⟨o, List.mem_cons_of_mem _ ho, hid⟩

/-- An output is for a request of the batch, so the others keep their places. -/
theorem others_stay {grown : List Request} {ts : List String} {is : List TokenId}
    (rs : List Request) (h : ∀ q ∈ rs, q.request_id ∉ grown.map (·.request_id)) :
    (rs.map (·.request_id)).filter (fun r => ∀ o ∈ step_outputs grown ts is,
      o.is_finished = true → r ≠ o.request_id) = rs.map (·.request_id) := by
  rw [List.filter_eq_self]
  intro r hr
  obtain ⟨q, hq, rfl⟩ := List.mem_map.mp hr
  apply decide_eq_true
  intro o ho _ hid
  obtain ⟨g, hg, hgid, -⟩ := output_of_request ho
  exact h q hq (hid.trans hgid ▸ List.mem_map_of_mem hg)

/-- Of the batch, those stay that are not finished. -/
theorem unfinished_stay {rs : List Request} {ts : List String} {is : List TokenId}
    (hf : ∀ q ∈ rs, q.is_finished = false)
    (hnd : ((BatchedRequests.growAll rs ts is).map (·.request_id)).Nodup) :
    ((BatchedRequests.growAll rs ts is).map (·.request_id)).filter
      (fun r => ∀ o ∈ step_outputs (BatchedRequests.growAll rs ts is) ts is,
        o.is_finished = true → r ≠ o.request_id) =
      ((BatchedRequests.growAll rs ts is).filter fun q => !q.is_finished).map (·.request_id) := by
  rw [List.filter_map]
  refine congrArg (List.map _) (List.filter_congr ?_)
  intro g hg
  cases hfin : g.is_finished with
  | true =>
    obtain ⟨o, ho, hof, hid⟩ := output_of_finished hf hg hfin
    exact decide_eq_false fun hall => hall o ho hof hid
  | false =>
    apply decide_eq_true
    intro o ho hof hid
    obtain ⟨g', hg', hgid, hgf⟩ := output_of_request ho
    have hsame := List.inj_on_of_nodup_map hnd hg hg' (hid.trans hgid)
    rw [hgf, ← hsame, hfin] at hof
    cases hof

/-- The finished requests leave the batch and the order together. -/
theorem InOrder.take (h : InOrder e accepted) (hs : Sound e) (hp : e.point = .awaiting)
    {i : Nat} {tokens : List String} {ids : List TokenId} {m : BlockManager}
    (ht : Took e i tokens ids m e') : InOrder e' ((result_outputs (BatchedRequests.growAll
      (e.scheduler.batch i).requests tokens ids) tokens ids).foldl note accepted) := by
  have hmig : e.migrating = [] := by simp [migrating, hp]
  have hmig' : e'.migrating = [] := by rw [ht.same]; rfl
  have hi : i = 0 := ht.last_stage.trans (last_stage_of_one h.one)
  have hbatched := batched_of_one hs.kept.shaped h.one hi
  set grown := BatchedRequests.growAll (e.scheduler.batch i).requests tokens ids with hgrown
  have hone' : e'.scheduler.parallel_config.pipeline_parallel_size = 1 := by
    rw [ht.same]
    exact h.one
  have hbatched' : e'.scheduler.batched = grown.filter fun q => !q.is_finished := by
    rw [batched_of_one (ht.sound hs hp).kept.shaped hone' hi, ht.batch_self hs]
  have hids : (e.scheduler.batched).map (·.request_id) = grown.map (·.request_id) := by
    rw [hbatched, hgrown]
    exact (BatchedRequests.growAll_map (·.request_id)
      (fun r t i => r.grow_request_id t i) _ tokens ids).symm
  have hunfinished : ∀ q ∈ (e.scheduler.batch i).requests, q.is_finished = false := fun q hq =>
    (hs.kept.growing q (by simp [mem_batched_of_mem hq])).1.1
  have hnodup : (((grown.map (·.request_id)) ++ e.scheduler.swapped_queue.map (·.request_id)) ++
      e.scheduler.waiting_queue.map (·.request_id)).Nodup := by
    have hnd := hs.nodup
    rw [present_eq, List.append_assoc e.scheduler.waiting_queue] at hnd
    rw [← hids, ← List.map_append, ← List.map_append]
    refine (List.Perm.nodup_iff (List.Perm.map _ ?_)).mp (List.nodup_append.mp hnd).2.1
    exact List.perm_append_comm
  have hgrownNodup := (List.nodup_append'.mp (List.nodup_append'.mp hnodup).1).1
  refine ⟨hone', ?_⟩
  unfold result_outputs
  rw [note_outputs, h.order, hmig, hmig', hbatched', ht.same]
  simp only [took, List.append_nil, List.map_append, List.filter_append, hids]
  rw [unfinished_stay hunfinished hgrownNodup, others_stay e.scheduler.swapped_queue,
    others_stay e.scheduler.waiting_queue]
  · rfl
  · intro q hq hc
    exact List.disjoint_left.mp (List.nodup_append'.mp hnodup).2.2
      (List.mem_append_left _ hc) (List.mem_map_of_mem hq)
  · intro q hq hc
    exact List.disjoint_left.mp (List.nodup_append'.mp (List.nodup_append'.mp hnodup).1).2.2
      hc (List.mem_map_of_mem hq)

/-! ## Every run -/

/-- After a part of an action, the rest goes on in the order. -/
theorem InOrder.then_go_on {e1 : DecodingStageLLMEngine} {cs cs' : List Callback}
    (h : InOrder e1 (cs.foldl note accepted)) (hs : Sound e1) (hd : e1.go_on cs = .ok (e', cs')) :
    InOrder e' (cs'.foldl note accepted) := by
  obtain ⟨more, rfl, hmore⟩ := h.go_on hs hd
  rw [List.foldl_append]
  exact hmore

theorem InOrder.begin_step (h : InOrder e accepted) (hs : Sound e) (hp : e.point = .idle)
    (halone : e.scheduler.SwapsOutAlone) {now : Nat} {cs : List Callback}
    (hd : e.begin_step now = .ok (e', cs)) : InOrder e' (cs.foldl note accepted) := by
  unfold DecodingStageLLMEngine.begin_step at hd
  obtain ⟨⟨e1, cs1⟩, hpush, hd⟩ := bind_eq_ok.mp hd
  have h1 := h.push hs hp halone hpush
  obtain ⟨s', m, (hpushed : Pushed e now s' m e1), -⟩ :=
    (push_next_batch_gives hs hp now).of_ok hpush
  dsimp only at hd
  split at hd
  · cases hd
    exact h1
  · next hawake =>
    have hin : e1.in_migration = [] := by
      simp [in_migration, hpushed.point.resolve_left hawake]
    obtain ⟨e2, he2, hs2, hc⟩ := check_pipeline_cases (hpushed.core hs hp) hin
    rw [ok_bind he2] at hd
    exact (h1.checked hin hc).then_go_on hs2 hd

/-- Each action keeps the order, as long as each swap-out is alone. -/
theorem InOrder.act (h : InOrder e accepted) (hs : Sound e) {decode : Tokenizer} {a : Action}
    (halone : Alone (e, accepted) a) {cs : List Callback}
    (ha : act decode e a = some (.ok (e', cs))) : InOrder e' (cs.foldl note accepted) := by
  cases a with
  | add_request mr =>
    simp only [DecodingStageLLMEngine.act] at ha
    split at ha
    · cases ha
      exact h.congr rfl rfl rfl rfl
    · cases ha
  | begin_step now =>
    simp only [DecodingStageLLMEngine.act] at ha
    split at ha
    · next hp => exact h.begin_step hs hp halone (Option.some.inj ha)
    · cases ha
  | wake =>
    simp only [DecodingStageLLMEngine.act] at ha
    split at ha
    · next hp =>
      have hin : e.in_migration = [] := by simp [in_migration, hp]
      obtain ⟨e1, he1, hs1, hc⟩ := check_pipeline_cases hs.toCore hin
      rw [ok_bind he1] at ha
      have h1 : InOrder e1 (([] : List Callback).foldl note accepted) := h.checked hin hc
      exact h1.then_go_on hs1 (Option.some.inj ha)
    · cases ha
  | batch_returns ids =>
    simp only [DecodingStageLLMEngine.act] at ha
    split at ha
    · next hp =>
      obtain ⟨e1, i, m, he1, ht⟩ := take_result_cases hs hp decode ids
      rw [ok_bind he1] at ha
      exact (h.take hs hp ht).then_go_on (ht.sound hs hp) (Option.some.inj ha)
    · cases ha
  | migration_ends =>
    simp only [DecodingStageLLMEngine.act] at ha
    split at ha
    · next mr hp =>
      have h1 : InOrder (e.end_migration mr).1
          ((e.end_migration mr).2.foldl note accepted) := by
        refine h.congr rfl rfl rfl ?_
        simp [end_migration, migrating, hp]
      exact h1.then_go_on (end_migration_sound hs hp) (Option.some.inj ha)
    · cases ha

theorem stepInOrder_sound (decode : Tokenizer) :
    runs.Sound (restrict (stepInOrder decode) Alone)
      (fun s => Sound s.1 ∧ InOrder s.1 s.2) fun _ => True := by
  rintro ⟨e, accepted⟩ a x ⟨hs, h⟩ hx
  obtain ⟨halone, hx⟩ := restrict_eq_some.mp hx
  cases x with
  | error err => trivial
  | ok s' =>
    obtain ⟨e', accepted'⟩ := s'
    obtain ⟨cs, ha, rfl⟩ := stepInOrder_eq_ok hx
    exact ⟨((act_gives hs ha).of_ok rfl).1, h.act hs halone ha⟩

theorem inOrder_create (pc : ParallelConfig) (cc : CacheConfig) (b t : Nat) (w : ℚ) (g c : Nat)
    (hone : pc.pipeline_parallel_size = 1) : InOrder (create pc cc b t w g c) [] := by
  refine ⟨hone, ?_⟩
  rw [batched_create]
  rfl

/-- With one pipeline stage, in every run in which each swap-out is alone, `get_next_batch`
never puts a request into the batch while one that was accepted before it waits or is
swapped out. -/
theorem no_request_overtakes_when_swap_outs_are_alone (parallel_config : ParallelConfig)
    (cache_config : CacheConfig) (max_batch_size max_tokens_per_batch : Nat)
    (waiting_block_prop_threshold : ℚ) (num_gpu_blocks num_cpu_blocks : Nat) (decode : Tokenizer)
    (hone : parallel_config.pipeline_parallel_size = 1) (e : DecodingStageLLMEngine)
    (accepted : List RequestId) (h : Reaches (restrict (stepInOrder decode) Alone)
      (create parallel_config cache_config max_batch_size max_tokens_per_batch
        waiting_block_prop_threshold num_gpu_blocks num_cpu_blocks, []) (e, accepted))
    (hidle : e.point = .idle) (halone : e.scheduler.SwapsOutAlone) (s : DecodingStageFCFSScheduler)
    (hnext : e.scheduler.get_next_batch = .ok s) (a b : RequestId)
    (hab : [a, b].Sublist accepted) :
    ¬ (b ∈ (s.batch s.cur).requests.map (·.request_id) ∧
      a ∈ (s.swapped_queue ++ s.waiting_queue).map (·.request_id)) := by
  obtain ⟨(hs : Sound e), (horder : InOrder e accepted)⟩ := (stepInOrder_sound decode).invariant
    ⟨sound_create _ _ _ _ _ _ _, inOrder_create _ _ _ _ _ _ _ hone⟩ h
  obtain ⟨hline, -, -⟩ := horder.next hs hidle halone hnext
  rintro ⟨hb, ha⟩
  have hnodup : accepted.Nodup := by
    have hnd := hs.nodup
    rw [present_eq] at hnd
    rw [horder.order, show e.migrating = [] by simp [migrating, hidle], List.append_nil]
    refine (List.Perm.nodup_iff (List.Perm.map _ ?_)).mp (List.nodup_append.mp hnd).2.1
    rw [List.append_assoc]
    exact List.perm_append_comm
  unfold line at hline
  rw [List.append_assoc, List.map_append] at hline
  rw [hline] at hab hnodup
  exact not_sublist_append hnodup hb ha hab

/-- A request whose prompt takes one block, with its first token. -/
def oneBlock (request_id : RequestId) (prompt_token_ids : List TokenId) : MigratingRequest where
  req := (Request.create request_id prompt_token_ids ⟨[], false, 3, one_le_three⟩).grow "4" 4
  block_indexes := [0]
  context_parallel_config := ⟨1, 1, Nat.one_pos, Nat.one_pos⟩

/-- Both requests of a batch need a second block, and the later one is swapped out. -/
theorem the_later_request_is_swapped_out : ∃ (e : DecodingStageLLMEngine)
    (accepted : List RequestId) (s : DecodingStageFCFSScheduler),
    ((s.batch s.cur).requests.map (·.request_id) = [0] ∧
      s.swapped_queue.map (·.request_id) = [1] ∧ e.scheduler.get_next_batch = .ok s ∧
      [0, 1].Sublist accepted) ∧
    ¬ (1 ∈ (s.batch s.cur).requests.map (·.request_id) ∧
      0 ∈ (s.swapped_queue ++ s.waiting_queue).map (·.request_id)) := by
  obtain ⟨⟨e, accepted⟩, hr, he⟩ := reaches_of_any
    (m := restrict (stepInOrder fun _ => none) Alone)
    (s := (create ⟨1, 1, by decide, by decide⟩ ⟨4, by decide⟩ 8 8 1 3 4, []))
    [.add_request (oneBlock 0 [1, 2, 3]), .add_request (oneBlock 1 [1, 2, 3]), .begin_step 0, .wake,
      .migration_ends, .migration_ends, .begin_step 1, .batch_returns [5, 5]]
    (fun s => decide (s.1.point = .idle ∧ s.1.scheduler.SwapsOutAlone ∧ s.2 = [0, 1]) &&
      s.1.scheduler.get_next_batch.toOption.any fun s =>
        (s.batch s.cur).requests.map (·.request_id) = [0] &&
          s.swapped_queue.map (·.request_id) = [1])
    (by decide +kernel)
  obtain ⟨hstate, hnext⟩ := Bool.and_eq_true_iff.mp he
  obtain ⟨hidle, halone, rfl⟩ := of_decide_eq_true hstate
  cases hs : e.scheduler.get_next_batch with
  | error err => simp [hs, Except.toOption] at hnext
  | ok s =>
    rw [hs] at hnext
    obtain ⟨hb, hsw⟩ := Bool.and_eq_true_iff.mp hnext
    exact ⟨e, [0, 1], s, ⟨of_decide_eq_true hb, of_decide_eq_true hsw, hs, List.Sublist.refl _⟩,
      no_request_overtakes_when_swap_outs_are_alone _ _ _ _ _ _ _ _ rfl e _ hr hidle halone s hs
        0 1 (List.Sublist.refl _)⟩

/-- Two swap-outs in one call: request 2 goes behind the batch first and request 1 after
it, so request 2 comes back first, before request 1 that was accepted earlier. -/
theorem a_later_request_overtakes : ∃ (e : DecodingStageLLMEngine) (accepted : List RequestId)
    (s : DecodingStageFCFSScheduler),
    Reaches (stepInOrder fun _ => none)
      (create ⟨1, 1, by decide, by decide⟩ ⟨4, by decide⟩ 8 8 1 4 4, []) (e, accepted) ∧
    e.point = .idle ∧ e.scheduler.get_next_batch = .ok s ∧ [1, 2].Sublist accepted ∧
    2 ∈ (s.batch s.cur).requests.map (·.request_id) ∧
    1 ∈ s.swapped_queue.map (·.request_id) := by
  obtain ⟨⟨e, accepted⟩, hr, he⟩ := reaches_of_any
    (m := stepInOrder fun _ => none)
    (s := (create ⟨1, 1, by decide, by decide⟩ ⟨4, by decide⟩ 8 8 1 4 4, []))
    [.add_request (oneBlock 0 [1, 2, 3]), .add_request (oneBlock 1 [1, 2, 3]),
      .add_request (oneBlock 2 [1]), .begin_step 0, .wake, .migration_ends, .migration_ends,
      .migration_ends, .begin_step 1, .add_request (oneBlock 3 [1]), .batch_returns [5, 5, 5],
      .migration_ends]
    (fun s => decide (s.1.point = .idle ∧ s.2 = [0, 1, 2, 3]) &&
      s.1.scheduler.get_next_batch.toOption.any fun s =>
        (s.batch s.cur).requests.map (·.request_id) = [0, 2] &&
          s.swapped_queue.map (·.request_id) = [1])
    (by decide +kernel)
  obtain ⟨hstate, hnext⟩ := Bool.and_eq_true_iff.mp he
  obtain ⟨hidle, rfl⟩ := of_decide_eq_true hstate
  cases hs : e.scheduler.get_next_batch with
  | error err => simp [hs, Except.toOption] at hnext
  | ok s =>
    rw [hs] at hnext
    obtain ⟨hb, hsw⟩ := Bool.and_eq_true_iff.mp hnext
    refine ⟨e, [0, 1, 2, 3], s, hr, hidle, hs, by decide, ?_, ?_⟩
    · rw [of_decide_eq_true hb]
      decide
    · rw [of_decide_eq_true hsw]
      decide

end DecodingStageLLMEngine

end distserve
