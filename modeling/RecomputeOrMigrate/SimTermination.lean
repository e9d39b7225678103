-- The simulation of a workload that can be served terminates. No step raises, each iteration
-- takes a request, and each request exits.
import RecomputeOrMigrate.General.Progress
import RecomputeOrMigrate.SimConservation
import RecomputeOrMigrate.SimTakes

open calls places progress

namespace simdistserve

namespace Sim

variable {c : Cluster} {workload : Workload} {s s' s1 : Sim} {B : Batches} {b : Batch} {i wid : Nat}
  {whereabouts : Nat → Where} {e : Event} {rest : List Event}

/-! ## The parts of a step -/

theorem find_best_worker_ok (load : Nat → Nat) {heads : List Nat} (h : heads ≠ []) :
    ∃ wid, find_best_worker load heads = .ok wid := by
  obtain ⟨wid, rest, rfl⟩ := List.exists_cons_of_ne_nil h
  exact ⟨_, rfl⟩

theorem schedule_decode_ok (hcount : 0 ≤ (s.requests i).counter)
    (hheads : (s.requests i).should_finish = false → c.decode_heads ≠ []) :
    ∃ s', schedule_decode c s i = .ok s' := by
  unfold schedule_decode
  rw [if_pos hcount]
  split
  · exact ⟨_, rfl⟩
  · next hmore =>
    obtain ⟨v, hv⟩ := find_best_worker_ok _ (hheads (Bool.eq_false_iff.mpr hmore))
    rw [ok_bind hv]
    exact ⟨_, rfl⟩

/-- A request that decodes needs a decode instance. -/
theorem decode_heads_of_decodes {a : Arrival} {r : Request} (ha : c.Serves a)
    (hr : Decodes (Request.create a.req_init_counter a.prefill_length a.output_lens) r) :
    c.decode_heads ≠ [] := by
  have hstarts : a.req_init_counter ≤ r.counter := hr.starts
  have hcount := hr.count
  have hmore : r.counter < a.output_lens := hr.more
  exact ha.decode_instance (by omega)

theorem exit_prefill_item_ok (hw : Servable c workload) {items : List Nat}
    (hs : Populated c workload s (Function.update B wid b)) (hitems : b.items = i :: items) :
    ∃ s', exit_prefill_item c wid i s = .ok s' := by
  have hi : i ∈ s.contents (Function.update B wid b) (.prefill_batch wid) := by
    simp [contents, hitems]
  obtain ⟨a, ha, hstage, hstands⟩ := hs.stands hi
  obtain ⟨s1, hs1⟩ : ∃ s1, s.modify_request i (c.after_prefill s.now wid) = s1 := ⟨_, rfl⟩
  obtain ⟨hrequest, heq⟩ := exit_prefill_item_eq hs1
  rw [heq]
  split
  · exact ⟨_, rfl⟩
  · next hdone =>
    have hafter := hstands.after_prefill_done (Bool.eq_false_iff.mpr hdone)
    split
    · exact ⟨_, rfl⟩
    · next hmore =>
      rw [if_neg hmore] at hafter
      split
      · exact ⟨_, rfl⟩
      · apply schedule_decode_ok
        · rw [hrequest]
          exact hafter.count
        · exact fun _ => decode_heads_of_decodes (hw.requests a (List.mem_of_getElem? ha)) hafter

theorem exit_prefill_ok (hc : c.Wired) (hw : Servable c workload) {items : List Nat}
    (hs : Populated c workload s (Function.update B wid b)) (hitems : b.items = items) :
    ∃ s', exit_prefill c wid items s = .ok s' := by
  induction items generalizing s b with
  | nil => exact ⟨s, rfl⟩
  | cons i items ih =>
    obtain ⟨s1, hs1⟩ := exit_prefill_item_ok hw hs hitems
    have hfollows := exit_prefill_item_follows 0 (some wid) B hitems hs1
    unfold exit_prefill
    rw [ok_bind hs1]
    exact ih (hfollows.populated hc hs) rfl

/-- The rest of an iteration, and the next one. -/
theorem finish_iteration_starts (hc : c.Wired) (hw : Servable c workload)
    (hs : Populated c workload s s.batches)
    (hruns : ∃ k, Status.Runs (s.workers wid).status k) :
    ∃ s', finish_iteration c s wid = .ok s' ∧ Starts s wid s' := by
  -- the process goes on when it holds no batch any more
  have hloop : ∀ s1, (∃ k, Follows c 0 (some wid) k s s.batches s1
      (Function.update s.batches wid .empty)) → ∃ s', run_loop c s1 wid = .ok s' ∧
      Starts s wid s' := by
    rintro s1 ⟨k, hfollows⟩
    have hs1 := hfollows.populated hc hs
    rw [← hfollows.frame.batches] at hs1
    obtain ⟨s', hs', hstarts⟩ := run_loop_starts hc hw hs1
    exact ⟨s', hs', hstarts.takes, fun v hv =>
      (hstarts.others v hv).trans (hfollows.frame.status v)⟩
  have hself := Function.update_eq_self wid s.batches
  have hnodup : (s.batches wid).decode_reqs.Nodup := by
    obtain ⟨whereabouts, hloc, -⟩ := hs
    exact Located.nodup hloc (.decode_batch wid)
  unfold finish_iteration
  obtain ⟨k, ⟨items, reqs, hst, -⟩ | ⟨reqs, hst, -⟩⟩ := hruns
  · have hbatch : s.batches wid = ⟨[], items, [], reqs, []⟩ := by
      unfold batches
      rw [hst]
      rfl
    rw [hbatch] at hself hnodup
    rw [hst]
    dsimp only
    have hips := no_prefill_ips_follows c 0 wid s s.batches
    have hs0 := hips.populated hc hs
    rw [← hself] at hs0
    obtain ⟨s1, hs1⟩ := exit_prefill_ok hc hw hs0 rfl
    rw [ok_bind hs1]
    apply hloop
    have hexit := exit_prefill_follows 0 (some wid) s.batches
      (b := ⟨[], items, [], reqs, []⟩) rfl hs1
    have hdecode := exit_decode_follows c 0 wid (some wid) s1 s.batches
      (b := ⟨[], [], [], reqs, []⟩) rfl rfl hnodup
    rw [hself] at hexit
    exact ⟨0, (hips.trans_zero hexit).trans_zero hdecode⟩
  · have hbatch : s.batches wid = ⟨[], [], [], reqs, []⟩ := by
      unfold batches
      rw [hst]
      rfl
    rw [hbatch] at hself hnodup
    rw [hst]
    apply hloop
    have hdecode := exit_decode_follows c 0 wid (some wid) s s.batches
      (b := ⟨[], [], [], reqs, []⟩) rfl rfl hnodup
    rw [hself] at hdecode
    exact ⟨0, hdecode⟩

/-! ## One event -/

theorem Takes.of_status {v : Nat} (h : s.Takes v)
    (hstatus : (s'.workers v).status = (s.workers v).status) : s'.Takes v := by
  unfold Takes at h ⊢
  rw [hstatus]
  exact h

/-- The event of a worker. -/
theorem Starts.all_take (h : Starts s wid s') (htakes : ∀ v, s.Takes v) (v : Nat) :
    s'.Takes v := by
  by_cases hv : v = wid
  · exact hv ▸ h.takes
  · exact (htakes v).of_status (h.others v hv)

theorem schedule_new_req_ok {a : Arrival} (ha : c.Serves a)
    (hcounter : (s.requests i).counter = a.req_init_counter)
    (hlens : (s.requests i).output_lens = a.output_lens) :
    ∃ s', schedule_new_req c s i = .ok s' := by
  unfold schedule_new_req
  split
  · next hcount =>
    unfold schedule_prefill
    rw [if_pos hcount]
    obtain ⟨v, hv⟩ := find_best_worker_ok
      (fun w => (s.workers w).prefill_ips + (s.workers w).prefill_queue.length)
      (ha.prefill_instance (hcounter ▸ hcount))
    rw [ok_bind hv]
    exact ⟨_, rfl⟩
  · next hcount =>
    apply schedule_decode_ok (not_lt.mp hcount)
    intro hmore
    unfold Request.should_finish at hmore
    rw [decide_eq_false_iff_not] at hmore
    exact ha.decode_instance (by omega)

theorem inject_ok (hw : Servable c workload) (hpending : whereabouts i = .pending)
    (hloc : s.LocatedAt s.batches whereabouts) (hi : i < workload.length)
    (hrequest : s.requests i = created workload i) :
    ∃ s', inject c s i = .ok s' ∧ ∀ v, (s'.workers v).status = (s.workers v).status := by
  have hcreated := created_eq (List.getElem?_eq_getElem hi)
  have hinit : (s.modify_request i fun r => r.init s.now).requests i =
      (created workload i).init s.now := by
    rw [modify_request_requests, Function.update_self, hrequest]
  obtain ⟨s1, hs1⟩ : ∃ s1, schedule_new_req c (s.modify_request i fun r => r.init s.now) i =
      .ok s1 := by
    apply schedule_new_req_ok (hw.requests workload[i] (List.getElem_mem hi))
    · rw [hinit, Request.init, Request.log_event_counter, hcreated]
      rfl
    · rw [hinit, Request.init, Request.log_event_output_lens, hcreated]
      rfl
  obtain ⟨r, o, -, -, -, -, hframe, -⟩ := schedule_new_req_follows hpending hloc hs1
  unfold inject
  rw [ok_bind hs1]
  exact ⟨_, rfl, hframe.status⟩

theorem Populated.resting (h : Populated c workload s s.batches)
    (hbatch : (s.workers wid).status.batch = .empty) :
    Populated c workload s (Function.update s.batches wid .empty) := by
  rw [← hbatch, show (s.workers wid).status.batch = s.batches wid from rfl,
    Function.update_eq_self]
  exact h

theorem start_worker_takes (hc : c.Wired) (hw : Servable c workload)
    (h : Populated c workload s s.batches) (htakes : ∀ v, s.Takes v) :
    ∃ s', start_worker c s wid = .ok s' ∧ ∀ v, s'.Takes v := by
  unfold start_worker
  cases hst : (s.workers wid).status with
  | created =>
    obtain ⟨s', hs', hstarts⟩ := run_loop_starts hc hw (h.resting (congrArg Status.batch hst))
    exact ⟨s', hs', hstarts.all_take htakes⟩
  | suspended number => exact ⟨s, rfl, htakes⟩
  | prefilling items reqs => exact ⟨s, rfl, htakes⟩
  | decoding reqs => exact ⟨s, rfl, htakes⟩

/-- The event that a worker waits for is triggered, so there is something in a queue. -/
theorem Tracked.woken_for {number : Nat} (h : Tracked c workload s whereabouts)
    (hmem : .wakeup wid number ∈ s.actions) (hst : (s.workers wid).status = .suspended number) :
    (s.workers wid).prefill_queue ≠ [] ∨ (s.workers wid).decode_queue ≠ [] := by
  have hlt := h.timely.triggered wid number hmem
  have hawake := h.awake wid
  unfold Awake at hawake
  rw [hst] at hawake
  rcases hawake with ⟨heq, -⟩ | ⟨-, hsome, -⟩
  · exact absurd heq hlt.ne
  · exact hsome

theorem resume_after_wakeup_takes {number : Nat} (hc : c.Wired) (hw : Servable c workload)
    (h : Populated c workload s s.batches) (htakes : ∀ v, s.Takes v)
    (hsome : (s.workers wid).status = .suspended number →
      (s.workers wid).prefill_queue ≠ [] ∨ (s.workers wid).decode_queue ≠ []) :
    ∃ s', resume_after_wakeup c s wid number = .ok s' ∧ ∀ v, s'.Takes v := by
  unfold resume_after_wakeup
  cases hst : (s.workers wid).status with
  | created => exact ⟨s, rfl, htakes⟩
  | suspended k =>
    dsimp only
    split
    · next hk =>
      obtain ⟨s', hs', hstarts⟩ := run_iteration_starts hc hw
        (h.resting (congrArg Status.batch hst)) (hsome (hst.trans (congrArg _ hk)))
      exact ⟨s', hs', hstarts.all_take htakes⟩
    · exact ⟨s, rfl, htakes⟩
  | prefilling items reqs => exact ⟨s, rfl, htakes⟩
  | decoding reqs => exact ⟨s, rfl, htakes⟩

theorem finish_iteration_takes (hc : c.Wired) (hw : Servable c workload)
    (h : Populated c workload s s.batches) (htakes : ∀ v, s.Takes v) :
    ∃ s', finish_iteration c s wid = .ok s' ∧ ∀ v, s'.Takes v := by
  by_cases hruns : ∃ k, Status.Runs (s.workers wid).status k
  · obtain ⟨s', hs', hstarts⟩ := finish_iteration_starts hc hw h hruns
    exact ⟨s', hs', hstarts.all_take htakes⟩
  · unfold finish_iteration
    cases hst : (s.workers wid).status with
    | created => exact ⟨s, rfl, htakes⟩
    | suspended number => exact ⟨s, rfl, htakes⟩
    | prefilling items reqs => exact absurd ⟨_, .inl ⟨items, reqs, hst, le_rfl⟩⟩ hruns
    | decoding reqs => exact absurd ⟨_, .inr ⟨reqs, hst, le_rfl⟩⟩ hruns

/-- The next event goes through, and the iterations take requests. -/
theorem step_takes (hc : c.Wired) (hw : Servable c workload) (h : Tracked c workload s whereabouts)
    (hstands : (s.population whereabouts).Stands c (created workload) workload.length)
    (htakes : ∀ v, s.Takes v) (hsome : s.queue ≠ []) :
    ∃ s', step c workload s = .ok s' ∧ ∀ v, s'.Takes v := by
  obtain ⟨e, rest, hqueue⟩ := List.exists_cons_of_ne_nil hsome
  have hpopulated : Populated c workload (s.popped e rest) (s.popped e rest).batches :=
    ⟨whereabouts, h.located, hstands⟩
  unfold step
  rw [hqueue]
  change ∃ s', process c workload (s.popped e rest) e.action = .ok s' ∧ ∀ v, s'.Takes v
  cases haction : e.action with
  | start wid => exact start_worker_takes hc hw hpopulated htakes
  | wakeup wid number =>
    have hmem : .wakeup wid number ∈ s.actions := by
      unfold actions
      rw [hqueue, List.map_cons, haction]
      exact List.mem_cons_self
    exact resume_after_wakeup_takes hc hw hpopulated htakes (h.woken_for hmem)
  | iteration wid => exact finish_iteration_takes hc hw hpopulated htakes
  | put_request i =>
    obtain ⟨⟨-, hi⟩, -⟩ := h.arrives hqueue (.inl haction)
    unfold process put_request timeout
    dsimp only
    rw [if_neg (not_lt.mpr (hw.wake_times i hi))]
    exact ⟨_, rfl, htakes⟩
  | arrival i =>
    obtain ⟨⟨hpending, hi⟩, -⟩ := h.arrives hqueue (.inr haction)
    have hi' := hstands.stands i
    rw [show (s.population whereabouts).whereabouts i = .pending from hpending] at hi'
    obtain ⟨s', hs', hstatus⟩ := inject_ok (s := s.popped e rest) hw hpending h.located hi hi'
    exact ⟨s', hs', fun v => (htakes v).of_status (hstatus v)⟩
  | process_end i => exact ⟨s.popped e rest, rfl, htakes⟩

/-! ## Whole runs -/

theorem run_eq_steps (c : Cluster) (workload : Workload) (n : Nat) :
    run c workload n = steps (step c workload) (start c workload) n := by
  induction n with
  | zero => rfl
  | succ n ih =>
    unfold run steps
    rw [ih]

/-- The measure of a state is the weight of its events and twice the work of its requests. -/
def Left (c : Cluster) (workload : Workload) (m : Nat) (s : Sim) : Prop :=
  ∃ whereabouts, Tracked c workload s whereabouts ∧
    (s.population whereabouts).Stands c (created workload) workload.length ∧
    (∀ v, s.Takes v) ∧ m = s.weight + 2 * (s.population whereabouts).work c workload.length

theorem start_left (c : Cluster) (workload : Workload) :
    ∃ m, Left c workload m (start c workload) :=
  ⟨_, _, start_tracked c workload, ⟨fun _ => rfl, fun _ _ => rfl⟩, fun _ => trivial, rfl⟩

/-- Each event lowers the measure. -/
theorem step_lowers (hc : c.Wired) (hw : Servable c workload) :
    Lowers (step c workload) (fun s => s.queue = []) (Left c workload) := by
  constructor
  · rintro m s ⟨whereabouts, htracked, hstands, htakes, rfl⟩ hsome
    obtain ⟨s', hs', htakes'⟩ := step_takes hc hw htracked hstands htakes hsome
    obtain ⟨n, whereabouts', hsteps, htracked', hweight⟩ := step_advances htracked hsome hs'
    obtain ⟨hstands', hwork⟩ := hsteps.lowers hc (created_fresh workload) hstands
    have hless := hweight htakes'
    exact ⟨_, s', hs', ⟨whereabouts', htracked', hstands', htakes', rfl⟩, by omega⟩
  · intro s hover
    unfold step
    rw [hover]

/-- Without an event each worker waits, and has nothing to do. -/
theorem Tracked.over_empty {spot : Spot} (h : Tracked c workload s whereabouts)
    (hover : s.queue = []) (hspot : spot.wid ∈ c.all_workers.map (·.wid)) :
    s.requests_at spot = [] := by
  have hnone : ∀ a, a ∉ s.actions := by
    intro a
    unfold actions
    rw [hover]
    exact List.not_mem_nil
  have hawake := h.awake spot.wid
  unfold Awake at hawake
  cases hst : (s.workers spot.wid).status with
  | created =>
    rw [hst] at hawake
    exact absurd (hawake hspot) (hnone _)
  | suspended number =>
    rw [hst] at hawake
    obtain ⟨-, hprefill, hdecode⟩ := hawake.resolve_right fun hc => hnone _ hc.2.2
    cases spot with
    | prefill_queue wid => exact hprefill
    | decode_queue wid => exact hdecode
    | batch wid => exact congrArg Status.executing hst
  | prefilling items reqs =>
    rw [hst] at hawake
    exact absurd hawake (hnone _)
  | decoding reqs =>
    rw [hst] at hawake
    exact absurd hawake (hnone _)

/-- When the run is over each request has exited. -/
theorem Left.all_exited {m : Nat} (hc : c.Wired) (h : Left c workload m s) (hover : s.queue = [])
    (hi : i < workload.length) : (s.requests i).Exited := by
  obtain ⟨whereabouts, htracked, hstands, -, -⟩ := h
  have harrivals := htracked.arrivals i
  have hnone : s.arrivals i = 0 := by
    unfold arrivals actions
    rw [hover]
    rfl
  rw [hnone] at harrivals
  have hgone := hstands.stands i
  cases hwhere : whereabouts i with
  | pending =>
    rw [if_pos ⟨hwhere, hi⟩] at harrivals
    cases harrivals
  | placed p =>
    obtain ⟨spot, hspot, hcount⟩ := htracked.one_spot hc hwhere
    have hone := hcount spot
    rw [htracked.over_empty hover hspot, if_pos rfl] at hone
    cases hone
  | gone =>
    rw [show (s.population whereabouts).whereabouts i = .gone from hwhere] at hgone
    exact hgone.2

end Sim

/-- The simulation of a workload that can be served. Each iteration that a worker starts takes
a request, and after finitely many events the run is over and each request has exited. -/
theorem servable_workload_terminates {c : Cluster} {workload : Workload} (hc : Constructed c)
    (hw : Servable c workload) :
    (∀ n, ∃ s, Sim.run c workload n = .ok s ∧ ∀ wid, s.Takes wid) ∧
    ∃ n s, Sim.run c workload n = .ok s ∧ s.queue = [] ∧
      ∀ i < workload.length, (s.requests i).Exited := by
  have hlowers := Sim.step_lowers hc.wired hw
  obtain ⟨m, hstart⟩ := Sim.start_left c workload
  constructor
  · intro n
    obtain ⟨m', s, hrun, ⟨whereabouts, -, -, htakes, -⟩, -⟩ := steps_ok hlowers hstart n
    exact ⟨s, (Sim.run_eq_steps c workload n).trans hrun, htakes⟩
  · obtain ⟨n, m', s, hrun, hleft, hover⟩ := steps_ended hlowers hstart
    exact ⟨n, s, (Sim.run_eq_steps c workload n).trans hrun, hover,
      fun i hi => hleft.all_exited hc.wired hover hi⟩

/-- The workers of the small cluster can run batches of any sizes. -/
theorem small_cluster_times {c : Cluster} (h : small_cluster = .ok c) (batch_size : Nat)
    (lens : List Nat) :
    Estimated (get_prefill_time c.profiles c.config.engine_type c.config.model_type
        c.config.tp_prefill c.PP_prefill lens) ∧
      Estimated (get_decode_time c.profiles c.config.engine_type c.config.model_type
        c.config.tp_decode c.PP_decode batch_size lens) := by
  obtain ⟨hconfig, hprofiles, hprefill, hdecode⟩ := disagg_fields h
  have hrow : c.profiles.row c.config.engine_type c.config.model_type 1 = .ok opt_13b := by
    rw [hprofiles, hconfig]
    rfl
  have htp : c.config.tp_prefill = 1 ∧ c.config.tp_decode = 1 := by
    rw [hconfig]
    exact ⟨rfl, rfl⟩
  rw [htp.1, htp.2, hprefill, hdecode]
  constructor
  · apply get_prefill_time_estimated hrow Nat.one_pos <;> decide +kernel
  · apply get_decode_time_estimated hrow Nat.two_pos <;> decide +kernel

theorem small_cluster_servable {c : Cluster} (h : small_cluster = .ok c) :
    Servable c Sim.small_workload := by
  obtain ⟨hconfig, -⟩ := disagg_fields h
  have hheads : c.prefill_heads ≠ [] ∧ c.decode_heads ≠ [] := by
    obtain ⟨c', hc', htest⟩ := ok_of_any (x := small_cluster)
      (p := fun c => decide (c.prefill_heads ≠ [] ∧ c.decode_heads ≠ [])) (by decide +kernel)
    rw [h] at hc'
    cases hc'
    exact of_decide_eq_true htest
  refine ⟨?_, ?_, ?_, ?_⟩
  · intro a ha
    refine ⟨fun _ => hheads.1, fun _ => hheads.2, ?_, ?_⟩
    · intro _
      rw [hconfig]
      revert a
      decide
    · revert a
      decide
  · decide +kernel
  · exact fun _ _ _ => (small_cluster_times h 0 _).1
  · exact fun _ _ _ => (small_cluster_times h _ _).2

theorem small_workload_terminates : ∃ c, Constructed c ∧ Servable c Sim.small_workload ∧
    ∃ n s, Sim.run c Sim.small_workload n = .ok s ∧ s.queue = [] ∧
      (s.requests 0).Exited ∧ (s.requests 1).Exited := by
  obtain ⟨c, hc, -⟩ := ok_of_any (x := small_cluster) (p := fun _ => true) (by decide +kernel)
  have hw := small_cluster_servable hc
  obtain ⟨-, n, s, hrun, hover, hexited⟩ :=
    servable_workload_terminates (small_cluster_constructed hc) hw
  exact ⟨c, small_cluster_constructed hc, hw, n, s, hrun, hover, hexited 0 Nat.two_pos,
    hexited 1 Nat.one_lt_two⟩

/-! ## A context that is too long -/

namespace Sim

/-- A worker takes no request for its iteration, and its next iteration is the only event. The
context of its first request is too long for a batch. -/
structure Refusing (s : Sim) (wid i : Nat) : Prop where
  queue : s.actions = [.iteration wid]
  prefill_queue : (s.workers wid).prefill_queue = []
  decode_queue : (s.workers wid).decode_queue.head? = some i
  status : (s.workers wid).status = .decoding []
  context : 50000 ≤ (s.requests i).current_context_len

variable {c : Cluster} {workload : Workload} {s : Sim} {wid i : Nat}

/-- A context that is too long for a batch is not taken. -/
theorem refused_decodes {others : List Nat} {remaining : Nat}
    (hqueue : (s.workers wid).decode_queue = i :: others)
    (hcontext : 50000 ≤ (s.requests i).current_context_len) (hremaining : 0 < remaining) :
    enter_decodes s wid remaining =
      ([], s.modify_worker wid fun w => { w with decode_queue := i :: others }) := by
  obtain ⟨n, hn⟩ := Nat.exists_eq_add_one.mpr (lt_min hremaining (Nat.succ_pos others.length))
  unfold enter_decodes
  rw [hqueue]
  dsimp only
  rw [show min remaining (i :: others).length = n + 1 from hn]
  unfold take_decodes
  dsimp only
  rw [if_pos (show (s.requests i).current_context_len + 1 > 50000 by omega)]
  rfl

/-- The only event is taken from the list. -/
theorem Refusing.popped (h : Refusing s wid i) :
    ∃ e, s.queue = [e] ∧ e.action = .iteration wid ∧ ∃ others,
      ((s.popped e []).workers wid).decode_queue = i :: others := by
  have hactions := h.queue
  unfold actions at hactions
  obtain ⟨e, hqueue, haction⟩ := List.map_eq_singleton_iff.mp hactions
  obtain ⟨others, hdecode⟩ := List.head?_eq_some_iff.mp h.decode_queue
  exact ⟨e, hqueue, haction, others, hdecode⟩

/-- The request is refused again and again. -/
theorem Refusing.step (h : Refusing s wid i) (workload : Workload)
    (htime : Estimated (get_decode_time c.profiles c.config.engine_type c.config.model_type
      c.config.tp_decode c.PP_decode 0 [])) :
    ∃ s', step c workload s = .ok s' ∧ Refusing s' wid i := by
  obtain ⟨delay, hdelay, hpos⟩ := htime
  obtain ⟨e, hqueue, haction, others, hdecode⟩ := h.popped
  have hprefill : ((s.popped e []).workers wid).prefill_queue = [] := h.prefill_queue
  have henter := refused_decodes (s := s.popped e []) hdecode h.context
    (positive_or_default_pos c.config.decode_max_tokens)
  have hrun : finish_iteration c (s.popped e []) wid = do_decode c (s.popped e []) wid := by
    unfold finish_iteration
    rw [show ((s.popped e []).workers wid).status = .decoding [] from h.status]
    dsimp only
    rw [show exit_decode c wid [] (s.popped e []) = s.popped e [] from rfl]
    unfold run_loop run_iteration
    rw [hdecode, hprefill, if_neg fun hc => List.cons_ne_nil _ _ hc.2, if_neg fun hc => hc.1 rfl]
  unfold Sim.step
  rw [hqueue]
  change ∃ s', process c workload (s.popped e []) e.action = .ok s' ∧ Refusing s' wid i
  rw [haction]
  unfold process
  dsimp only
  rw [hrun]
  unfold do_decode WorkerConfig.max_decode_tokens
  rw [henter]
  simp only [List.map_nil, List.length_nil, List.sum_nil]
  rw [ok_bind hdelay]
  unfold timeout
  rw [if_neg (not_lt.mpr (iteration_delay hpos _))]
  refine ⟨_, rfl, ?_, ?_, ?_, ?_, h.context⟩
  · rfl
  · rw [schedule_workers, modify_worker_workers, Function.update_self, modify_worker_workers,
      Function.update_self]
    exact hprefill
  · rw [schedule_workers, modify_worker_workers, Function.update_self, modify_worker_workers,
      Function.update_self]
    rfl
  · rw [schedule_workers, modify_worker_workers, Function.update_self]

theorem Refusing.takes_none (h : Refusing s wid i) : ¬ s.Takes wid := by
  unfold Takes
  rw [h.status]
  exact not_not.mpr rfl

/-- The run goes on without end. -/
theorem Refusing.forever {m : Nat} (hrun : run c workload m = .ok s) (h : Refusing s wid i)
    (htime : Estimated (get_decode_time c.profiles c.config.engine_type c.config.model_type
      c.config.tp_decode c.PP_decode 0 [])) (n : Nat) :
    ∃ s', run c workload (m + n) = .ok s' ∧ Refusing s' wid i := by
  induction n with
  | zero => exact ⟨s, hrun, h⟩
  | succ n ih =>
    obtain ⟨s1, hs1, hrefusing⟩ := ih
    obtain ⟨s', hs', hrefusing'⟩ := hrefusing.step workload htime
    exact ⟨s', (ok_bind hs1).trans hs', hrefusing'⟩

/-- A run that is over stays over. -/
theorem run_stays {n : Nat} (hrun : run c workload n = .ok s) (hover : s.queue = []) (k : Nat) :
    run c workload (n + k) = .ok s := by
  induction k with
  | zero => exact hrun
  | succ k ih =>
    refine (ok_bind ih).trans ?_
    unfold step
    rw [hover]

theorem Refusing.never_over {m : Nat} (hrun : run c workload m = .ok s) (h : Refusing s wid i)
    (htime : Estimated (get_decode_time c.profiles c.config.engine_type c.config.model_type
      c.config.tp_decode c.PP_decode 0 [])) {n : Nat} {s1 : Sim} (hs1 : run c workload n = .ok s1) :
    s1.queue ≠ [] := by
  intro hover
  obtain ⟨s', hs', hrefusing⟩ := h.forever hrun htime n
  have hstays := run_stays hs1 hover m
  rw [Nat.add_comm, hs'] at hstays
  cases hstays
  have hactions := hrefusing.queue
  unfold actions at hactions
  rw [hover] at hactions
  cases hactions

/-- One request, with a prompt as long as the most that is decoded in a batch. -/
def long_context : Workload := [⟨0, -1, 50000, 1⟩]

end Sim

/-- The request of a long context is never decoded. Its worker runs iterations without a
request, and the run does not end. -/
theorem long_context_never_ends : ∃ c, small_cluster = .ok c ∧ Constructed c ∧
    (∃ n s, Sim.run c Sim.long_context n = .ok s ∧ ¬ s.Takes 1) ∧
    ∀ n s, Sim.run c Sim.long_context n = .ok s → s.queue ≠ [] := by
  obtain ⟨s, hs, htest⟩ := ok_of_any (p := fun s => decide (s.actions = [.iteration 1] ∧
      (s.workers 1).prefill_queue = [] ∧ (s.workers 1).decode_queue.head? = some 0 ∧
      (s.workers 1).status = .decoding [] ∧ 50000 ≤ (s.requests 0).current_context_len))
    (x := do
      let c ← small_cluster
      Sim.run c Sim.long_context 9) (by decide +kernel)
  obtain ⟨c, hc, hrun⟩ := bind_eq_ok.mp hs
  obtain ⟨hqueue, hprefill, hdecode, hstatus, hcontext⟩ := of_decide_eq_true htest
  have hrefusing : s.Refusing 1 0 := ⟨hqueue, hprefill, hdecode, hstatus, hcontext⟩
  have htime := (small_cluster_times hc 0 []).2
  exact ⟨c, hc, small_cluster_constructed hc, ⟨9, s, hrun, hrefusing.takes_none⟩,
    fun n s' hs' => hrefusing.never_over hrun htime hs'⟩

end simdistserve
