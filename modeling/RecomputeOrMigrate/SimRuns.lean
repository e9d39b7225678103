-- The whole simulated run. After each event every request lives on, the lists of the workers
-- say where it is, and no wakeup is lost.
import Mathlib.Data.List.Count
import RecomputeOrMigrate.SimSteps

open calls places

namespace simdistserve

/-- The worker whose process an event resumes. -/
def Action.worker : Action → Option Nat
  | .start wid => some wid
  | .wakeup wid _ => some wid
  | .iteration wid => some wid
  | _ => none

namespace Sim

variable {c : Cluster} {workload : Workload} {s s' : Sim} {i wid : Nat} {e : Event}
  {rest : List Event} {whereabouts : Nat → Where}

/-- What holds between two events, with where each request is. -/
structure Tracked (c : Cluster) (workload : Workload) (s : Sim) (whereabouts : Nat → Where) :
    Prop where
  located : s.LocatedAt s.batches whereabouts
  lives : ∀ i, Lives c (created workload i) s.now (s.requests i) (whereabouts i)
  arrivals : ∀ i, s.arrivals i =
    if whereabouts i = .pending ∧ i < workload.length then 1 else 0
  awake : ∀ v, s.Awake c v
  timely : s.Timely

/-- One event leads from `s` to `s'`. When each iteration takes a request, there are fewer than
two new events for each transition. -/
def Advances (c : Cluster) (workload : Workload) (s : Sim) (whereabouts : Nat → Where)
    (s' : Sim) : Prop :=
  ∃ n whereabouts', Population.Steps c s'.now workload.length n (s.population whereabouts)
      (s'.population whereabouts') ∧
    Tracked c workload s' whereabouts' ∧
    ((∀ v, s'.Takes v) → s'.weight + 1 ≤ s.weight + 2 * n)

/-- The state when the first event is taken from the list. -/
def popped (s : Sim) (e : Event) (rest : List Event) : Sim :=
  { s with now := e.time, queue := rest }

/-- What the next event of a worker is. -/
def next_action (s : Sim) (wid : Nat) : Action :=
  match (s.workers wid).status with
  | .created => .start wid
  | .suspended number => .wakeup wid number
  | _ => .iteration wid

theorem next_action_worker (s : Sim) (wid : Nat) : (s.next_action wid).worker = some wid := by
  unfold next_action
  cases (s.workers wid).status <;> rfl

/-- The event of another worker, or of no worker, is not the next one of this worker. -/
theorem ne_next_action {a : Action} (h : a.worker ≠ some wid) : a ≠ s.next_action wid := by
  rintro rfl
  exact h (next_action_worker s wid)

theorem ne_next_action_of_worker {a : Action} (hworker : a.worker = some wid)
    (hne : a ≠ s.next_action wid) (v : Nat) : a ≠ s.next_action v := by
  by_cases hv : v = wid
  · exact hv ▸ hne
  · apply ne_next_action
    rw [hworker]
    exact fun hc => hv (Option.some.inj hc).symm

theorem start_ne_next_action (hst : (s.workers wid).status ≠ .created) :
    .start wid ≠ s.next_action wid := by
  unfold next_action
  cases hw : (s.workers wid).status with
  | created => exact absurd hw hst
  | suspended number => exact nofun
  | prefilling items reqs => exact nofun
  | decoding reqs => exact nofun

theorem wakeup_ne_next_action {number : Nat} (hst : (s.workers wid).status ≠ .suspended number) :
    .wakeup wid number ≠ s.next_action wid := by
  unfold next_action
  cases hw : (s.workers wid).status with
  | created => exact nofun
  | suspended k =>
    intro hc
    cases hc
    exact hst hw
  | prefilling items reqs => exact nofun
  | decoding reqs => exact nofun

theorem iteration_ne_next_action (hst : ∀ k, ¬ Status.Runs (s.workers wid).status k) :
    .iteration wid ≠ s.next_action wid := by
  unfold next_action
  cases hw : (s.workers wid).status with
  | created => exact nofun
  | suspended k => exact nofun
  | prefilling items reqs => exact absurd (.inl ⟨items, reqs, hw, le_rfl⟩) (hst items.length)
  | decoding reqs => exact absurd (.inr ⟨reqs, hw, le_rfl⟩) (hst reqs.length)

theorem iteration_eq_next_action {k : Nat} (hruns : Status.Runs (s.workers wid).status k) :
    .iteration wid = s.next_action wid := by
  unfold next_action
  rcases hruns with ⟨items, reqs, hw, -⟩ | ⟨reqs, hw, -⟩
  · rw [hw]
  · rw [hw]

/-! ## The first event -/

section popped

variable (hqueue : s.queue = e :: rest)

include hqueue

theorem Timely.popped (h : s.Timely) : s.now ≤ e.time ∧ (s.popped e rest).Timely := by
  have hsorted := h.sorted
  rw [hqueue] at hsorted
  obtain ⟨hfirst, hrest⟩ := List.pairwise_cons.mp hsorted
  refine ⟨h.future e (hqueue ▸ List.mem_cons_self), hrest, hfirst, ?_⟩
  intro wid number hmem
  apply h.triggered
  unfold actions at hmem ⊢
  rw [hqueue]
  exact List.mem_cons_of_mem _ hmem

theorem popped_weight : s.weight = (s.popped e rest).weight + e.action.cost := by
  unfold weight actions
  rw [hqueue, List.map_cons, List.map_cons, List.sum_cons, Nat.add_comm]
  rfl

theorem popped_arrivals (i : Nat) : s.arrivals i = (s.popped e rest).arrivals i +
    if e.action = .put_request i ∨ e.action = .arrival i then 1 else 0 := by
  unfold arrivals actions
  rw [hqueue, List.map_cons, List.count_cons, List.count_cons]
  simp only [popped, beq_iff_eq]
  by_cases hput : e.action = .put_request i
  · rw [hput]
    simp
    omega
  · by_cases harrival : e.action = .arrival i
    · rw [harrival]
      simp
      omega
    · simp [hput, harrival]

theorem Awake.popped {v : Nat} (h : s.Awake c v) (hne : e.action ≠ s.next_action v) :
    (s.popped e rest).Awake c v := by
  have hmem : ∀ a, a ∈ s.actions → e.action ≠ a → a ∈ (s.popped e rest).actions := by
    intro a ha hna
    unfold actions at ha ⊢
    rw [hqueue, List.map_cons] at ha
    exact (List.mem_cons.mp ha).resolve_left fun h => hna h.symm
  unfold next_action at hne
  unfold Awake at h ⊢
  rw [show (s.popped e rest).workers = s.workers from rfl]
  cases hst : (s.workers v).status with
  | created =>
    rw [hst] at h hne
    exact fun hw => hmem _ (h hw) hne
  | suspended number =>
    rw [hst] at h hne
    exact h.imp_right fun ⟨hlt, hsome, ha⟩ => ⟨hlt, hsome, hmem _ ha hne⟩
  | prefilling items reqs =>
    rw [hst] at h hne
    exact hmem _ h hne
  | decoding reqs =>
    rw [hst] at h hne
    exact hmem _ h hne

end popped

/-! ## The process of a worker goes on -/

theorem not_arrival_of_worker {a : Action} (h : a.worker = some wid) :
    ¬ (a = .put_request i ∨ a = .arrival i) := by
  rintro (rfl | rfl) <;> cases h

theorem Tracked.worker_event (h : Tracked c workload s whereabouts) (wid : Nat)
    (hqueue : s.queue = e :: rest)
    (haction : e.action = s.next_action wid)
    (hs : Settles c wid (s.popped e rest) (s.batches wid) s') :
    Advances c workload s whereabouts s' := by
  obtain ⟨hle, htimely⟩ := h.timely.popped hqueue
  have hloc : (s.popped e rest).LocatedAt
      (Function.update (s.popped e rest).batches wid (s.batches wid)) whereabouts := by
    rw [show (s.popped e rest).batches = s.batches from rfl, Function.update_eq_self]
    exact h.located
  obtain ⟨n, whereabouts', hsteps, hloc', hlen⟩ := hs.moves whereabouts hloc
  have hnow : s'.now = e.time := hs.now
  have hworker : e.action.worker = some wid := haction ▸ next_action_worker s wid
  refine ⟨n, whereabouts', ?_, ⟨hloc', ?_, ?_, ?_, hs.timely htimely⟩, ?_⟩
  · rw [hnow]
    exact hsteps.mono (Nat.zero_le _)
  · intro i
    rw [hnow]
    exact hsteps.lives (fun j => (h.lives j).wait hle) i
  · intro i
    have hpopped := popped_arrivals hqueue i
    rw [if_neg (not_arrival_of_worker hworker), Nat.add_zero] at hpopped
    have hpending : whereabouts' i = .pending ↔ whereabouts i = .pending := hsteps.pending_iff i
    rw [hs.arrivals, ← hpopped, h.arrivals]
    simp only [hpending]
  · apply hs.awake
    intro v hv
    apply (h.awake v).popped hqueue (ne_next_action _)
    rw [hworker]
    exact fun hc => hv (Option.some.inj hc).symm
  · intro htakes
    have hweight := hlen (htakes wid)
    have hcost := e.action.cost_pos
    rw [popped_weight hqueue]
    omega

/-- An event that no process waits for. -/
theorem Tracked.idle_event (h : Tracked c workload s whereabouts) (hqueue : s.queue = e :: rest)
    (haction : ∀ v, e.action ≠ s.next_action v)
    (harrival : ∀ j, ¬ (e.action = .put_request j ∨ e.action = .arrival j)) :
    Advances c workload s whereabouts (s.popped e rest) := by
  obtain ⟨hle, htimely⟩ := h.timely.popped hqueue
  refine ⟨0, whereabouts, .refl _, ⟨h.located, fun i => (h.lives i).wait hle, ?_, ?_, htimely⟩, ?_⟩
  · intro i
    have hpopped := popped_arrivals hqueue i
    rw [if_neg (harrival i), Nat.add_zero] at hpopped
    rw [← hpopped, h.arrivals]
  · exact fun v => (h.awake v).popped hqueue (haction v)
  · intro _
    rw [popped_weight hqueue]
    exact Nat.add_le_add_left e.action.cost_pos _

/-- An event of a worker that waits for another one. -/
theorem Tracked.idle_worker_event (h : Tracked c workload s whereabouts) (wid : Nat)
    (hqueue : s.queue = e :: rest) (hworker : e.action.worker = some wid)
    (haction : e.action ≠ s.next_action wid) :
    Advances c workload s whereabouts (s.popped e rest) := by
  apply h.idle_event hqueue
  · exact ne_next_action_of_worker hworker haction
  · exact fun j => not_arrival_of_worker hworker

/-! ## Arrivals -/

theorem schedule_arrival (s : Sim) (i j : Nat) (priority : Nat) (delay : ℚ) :
    (s.schedule (.arrival i) priority delay).arrivals j =
      s.arrivals j + if j = i then 1 else 0 := by
  unfold arrivals actions
  rw [schedule_queue, ((insert_event_perm _ _).map _).count_eq,
    ((insert_event_perm _ _).map _).count_eq, List.map_cons, List.count_cons, List.count_cons]
  by_cases hj : j = i
  · subst hj
    simp
    omega
  · simp [hj, Ne.symm hj]

theorem Tracked.put_request_event (h : Tracked c workload s whereabouts)
    (hqueue : s.queue = e :: rest) (haction : e.action = .put_request i)
    (hs : put_request workload (s.popped e rest) i = .ok s') :
    Advances c workload s whereabouts s' := by
  obtain ⟨hle, htimely⟩ := h.timely.popped hqueue
  unfold put_request timeout at hs
  split at hs
  · cases hs
  · next hdelay =>
    cases hs
    refine ⟨0, whereabouts, .refl _, ⟨h.located, fun i => (h.lives i).wait hle, ?_, ?_,
      htimely.schedule _ _ (not_lt.mp hdelay) nofun⟩, ?_⟩
    · intro j
      have hpopped := popped_arrivals hqueue j
      rw [haction] at hpopped
      rw [← h.arrivals, hpopped, schedule_arrival]
      by_cases hj : j = i
      · simp [hj]
      · simp [hj, Ne.symm hj]
    · intro v
      have hne : e.action ≠ s.next_action v := ne_next_action (by rw [haction]; exact nofun)
      refine ((h.awake v).popped hqueue hne).more ?_ ?_
      · rfl
      · exact fun a ha => (mem_schedule_actions ..).mpr (.inr ha)
    · intro _
      rw [schedule_weight, popped_weight hqueue, haction]
      exact le_rfl

/-- A request that arrives starts its life in the cluster. -/
theorem schedule_new_req_follows {B : Batches} {s1 : Sim} (hpending : whereabouts i = .pending)
    (hloc : s.LocatedAt B whereabouts)
    (h : schedule_new_req c (s.modify_request i fun r => r.init s.now) i = .ok s1) :
    ∃ r o, o ≠ .pending ∧ Life c s.now (s.requests i) .pending r o ∧
      s1.requests = Function.update s.requests i r ∧
      s1.LocatedAt B (Function.update whereabouts i o) ∧ Frame c none s s1 ∧
      s1.weight ≤ s.weight + 1 := by
  have hnowhere : (whereabouts i).place = none := by rw [hpending]; rfl
  have hrequest : (s.modify_request i fun r => r.init s.now).requests i =
      (s.requests i).init s.now := by
    rw [modify_request_requests, Function.update_self]
  have hcounter : ((s.requests i).init s.now).counter = (s.requests i).counter :=
    Request.log_event_counter ..
  have hfinish : ((s.requests i).init s.now).should_finish = (s.requests i).should_finish :=
    Request.log_event_should_finish ..
  unfold schedule_new_req at h
  rw [hrequest, hcounter] at h
  split at h
  · next hcount =>
    unfold schedule_prefill at h
    rw [hrequest, hcounter, if_pos hcount] at h
    obtain ⟨v, hv, h⟩ := bind_eq_ok.mp h
    cases h
    refine ⟨_, .placed (.prefill_queue v), nofun, .arrive_prefill hcount (find_best_worker_mem hv),
      rfl, ?_, (frame_modify_request i _).trans (frame_push_prefill (List.cons_ne_nil i [])),
      (push_prefill_weight _ _ _).le⟩
    unfold LocatedAt
    rw [place_update, contents_wakeup, contents_push_prefill]
    exact Located.enter hloc hnowhere _
  · next hcount =>
    rw [not_lt] at hcount
    cases hdone : (s.requests i).should_finish with
    | true =>
      unfold schedule_decode at h
      rw [hrequest, hcounter, hfinish, if_pos hcount, if_pos hdone] at h
      cases h
      refine ⟨_, .gone, nofun, .arrive_finished hcount hdone, ?_, ?_, ?_, Nat.le_succ _⟩
      · rw [modify_request_twice]
        rfl
      · unfold LocatedAt
        rw [place_update, Function.update_eq_self_iff.mpr hnowhere.symm]
        exact hloc
      · exact (frame_modify_request i _).trans (frame_modify_request i _)
    | false =>
      obtain ⟨v, hv, rfl⟩ := schedule_decode_eq (by rw [hrequest, hfinish, hdone]) h
      rw [modify_request_twice]
      refine ⟨_, .placed (.decode_queue v), nofun, .arrive_decode hcount hdone hv, rfl, ?_,
        (frame_modify_request i _).trans (frame_push_decode (List.cons_ne_nil i [])),
        (push_decode_weight _ _ _).le⟩
      unfold LocatedAt
      rw [place_update, contents_wakeup, contents_push_decode]
      exact Located.enter hloc hnowhere _

/-- The event of a request is the only one for its arrival. -/
theorem Tracked.arrives (h : Tracked c workload s whereabouts) (hqueue : s.queue = e :: rest)
    (haction : e.action = .put_request i ∨ e.action = .arrival i) :
    (whereabouts i = .pending ∧ i < workload.length) ∧ (s.popped e rest).arrivals i = 0 := by
  have hself := h.arrivals i
  rw [popped_arrivals hqueue i, if_pos haction] at hself
  by_cases hif : whereabouts i = .pending ∧ i < workload.length
  · rw [if_pos hif] at hself
    exact ⟨hif, by omega⟩
  · rw [if_neg hif] at hself
    omega

theorem Tracked.arrival_event (h : Tracked c workload s whereabouts)
    (hqueue : s.queue = e :: rest) (haction : e.action = .arrival i)
    (hs : inject c (s.popped e rest) i = .ok s') : Advances c workload s whereabouts s' := by
  obtain ⟨hle, htimely⟩ := h.timely.popped hqueue
  have hpopped := popped_arrivals hqueue
  obtain ⟨⟨hpending, hi⟩, hzero⟩ := h.arrives hqueue (.inr haction)
  unfold inject at hs
  obtain ⟨s1, hsched, hs⟩ := bind_eq_ok.mp hs
  cases hs
  obtain ⟨r, o, ho, hlife, hreq, hloc, hframe, hweight⟩ :=
    schedule_new_req_follows (s := s.popped e rest) (B := s.batches) hpending h.located hsched
  have hbatches : s1.batches = s.batches := by
    funext v
    exact congrArg Status.batch (hframe.status v)
  have hnow : s1.now = e.time := hframe.now
  have hstep : Population.Step c e.time workload.length (s.population whereabouts)
      (s1.population (Function.update whereabouts i o)) := by
    refine ⟨i, r, o, ?_, fun _ => hi, ?_⟩
    · rw [show (s.population whereabouts).whereabouts i = .pending from hpending]
      exact hlife
    · unfold population
      rw [hreq]
      rfl
  refine ⟨1, Function.update whereabouts i o, ?_, ⟨?_, ?_, ?_, ?_, ?_⟩, ?_⟩
  · exact (congrArg (fun t => Population.Steps c t workload.length 1 _ _) hnow).mpr (.single hstep)
  · rw [← hbatches] at hloc
    exact hloc
  · intro j
    have hlives := (Population.Steps.single hstep).lives (fun j => (h.lives j).wait hle) j
    rw [← hnow] at hlives
    exact hlives
  · intro j
    have hsame := schedule_arrivals s1 j (.process_end i) 1 0 nofun nofun
    rw [hsame, hframe.arrivals]
    by_cases hj : j = i
    · subst hj
      rw [hzero, Function.update_self, if_neg fun hc => ho hc.1]
    · have hother := hpopped j
      rw [haction, if_neg (by simp [Ne.symm hj]), Nat.add_zero] at hother
      rw [Function.update_of_ne hj, ← h.arrivals, hother]
  · intro v
    have hne : e.action ≠ s.next_action v := ne_next_action (by rw [haction]; exact nofun)
    refine (hframe.awake v nofun ((h.awake v).popped hqueue hne)).more ?_ ?_
    · rfl
    · exact fun a ha => (mem_schedule_actions ..).mpr (.inr ha)
  · exact (hframe.timely htimely).schedule _ _ le_rfl nofun
  · intro _
    rw [schedule_weight, popped_weight hqueue, haction]
    change s1.weight + 1 + 1 ≤ (s.popped e rest).weight + 1 + 2
    omega

/-! ## Every event -/

theorem start_worker_cases (h : start_worker c s wid = .ok s') :
    ((s.workers wid).status = .created ∧ run_loop c s wid = .ok s') ∨
      ((s.workers wid).status ≠ .created ∧ s' = s) := by
  unfold start_worker at h
  split at h
  · next hst => exact .inl ⟨hst, h⟩
  · next hst =>
    cases h
    exact .inr ⟨hst, rfl⟩

theorem resume_after_wakeup_cases {number : Nat}
    (h : resume_after_wakeup c s wid number = .ok s') :
    ((s.workers wid).status = .suspended number ∧ run_iteration c s wid = .ok s') ∨
      ((s.workers wid).status ≠ .suspended number ∧ s' = s) := by
  unfold resume_after_wakeup at h
  split at h
  · next k hst =>
    split at h
    · next hk => exact .inl ⟨hk ▸ hst, h⟩
    · next hk =>
      cases h
      refine .inr ⟨?_, rfl⟩
      rw [hst]
      exact fun hc => hk (Status.suspended.inj hc)
  · next hst =>
    cases h
    exact .inr ⟨hst number, rfl⟩

theorem finish_iteration_cases (h : finish_iteration c s wid = .ok s') :
    (∃ k, Status.Runs (s.workers wid).status k) ∨
      ((∀ k, ¬ Status.Runs (s.workers wid).status k) ∧ s' = s) := by
  unfold finish_iteration at h
  cases hst : (s.workers wid).status with
  | prefilling items reqs => exact .inl ⟨items.length, .inl ⟨items, reqs, rfl, le_rfl⟩⟩
  | decoding reqs => exact .inl ⟨reqs.length, .inr ⟨reqs, rfl, le_rfl⟩⟩
  | created =>
    rw [hst] at h
    cases h
    refine .inr ⟨?_, rfl⟩
    rintro k (⟨items, reqs, hc, -⟩ | ⟨reqs, hc, -⟩) <;> cases hc
  | suspended number =>
    rw [hst] at h
    cases h
    refine .inr ⟨?_, rfl⟩
    rintro k (⟨items, reqs, hc, -⟩ | ⟨reqs, hc, -⟩) <;> cases hc

theorem Tracked.start_event (h : Tracked c workload s whereabouts) (hqueue : s.queue = e :: rest)
    (haction : e.action = .start wid) (hs : start_worker c (s.popped e rest) wid = .ok s') :
    Advances c workload s whereabouts s' := by
  rcases start_worker_cases hs with ⟨hst, hrun⟩ | ⟨hst, rfl⟩
  · change (s.workers wid).status = .created at hst
    have hsettles := run_loop_settles hrun
    apply h.worker_event wid hqueue
    · rw [haction, next_action, hst]
    · rw [batches, hst]
      exact hsettles
  · change (s.workers wid).status ≠ .created at hst
    exact h.idle_worker_event wid hqueue (haction ▸ rfl) (haction ▸ start_ne_next_action hst)

theorem Tracked.wakeup_event {number : Nat} (h : Tracked c workload s whereabouts)
    (hqueue : s.queue = e :: rest) (haction : e.action = .wakeup wid number)
    (hs : resume_after_wakeup c (s.popped e rest) wid number = .ok s') :
    Advances c workload s whereabouts s' := by
  rcases resume_after_wakeup_cases hs with ⟨hst, hrun⟩ | ⟨hst, rfl⟩
  · change (s.workers wid).status = .suspended number at hst
    have hsettles := run_iteration_settles hrun
    apply h.worker_event wid hqueue
    · rw [haction, next_action, hst]
    · rw [batches, hst]
      exact hsettles
  · change (s.workers wid).status ≠ .suspended number at hst
    exact h.idle_worker_event wid hqueue (haction ▸ rfl) (haction ▸ wakeup_ne_next_action hst)

theorem Tracked.iteration_event (h : Tracked c workload s whereabouts)
    (hqueue : s.queue = e :: rest) (haction : e.action = .iteration wid)
    (hs : finish_iteration c (s.popped e rest) wid = .ok s') :
    Advances c workload s whereabouts s' := by
  rcases finish_iteration_cases hs with ⟨k, hruns⟩ | ⟨hst, rfl⟩
  · have hnd : (s.batches wid).decode_reqs.Nodup := Located.nodup h.located (.decode_batch wid)
    have hsettles := finish_iteration_settles ⟨k, hruns⟩ hnd hs
    exact h.worker_event wid hqueue (haction.trans (iteration_eq_next_action hruns)) hsettles
  · exact h.idle_worker_event wid hqueue (haction ▸ rfl) (haction ▸ iteration_ne_next_action hst)

/-- One event keeps what holds between two events. -/
theorem step_advances (h : Tracked c workload s whereabouts) (hsome : s.queue ≠ [])
    (hs : step c workload s = .ok s') : Advances c workload s whereabouts s' := by
  unfold step at hs
  split at hs
  · next hnil => exact absurd hnil hsome
  · next e rest hqueue =>
    change process c workload (s.popped e rest) e.action = .ok s' at hs
    cases haction : e.action with
    | start wid =>
      rw [haction] at hs
      exact h.start_event hqueue haction hs
    | wakeup wid number =>
      rw [haction] at hs
      exact h.wakeup_event hqueue haction hs
    | iteration wid =>
      rw [haction] at hs
      exact h.iteration_event hqueue haction hs
    | put_request i =>
      rw [haction] at hs
      exact h.put_request_event hqueue haction hs
    | arrival i =>
      rw [haction] at hs
      exact h.arrival_event hqueue haction hs
    | process_end i =>
      rw [haction] at hs
      cases hs
      apply h.idle_event hqueue
      · exact fun v => ne_next_action (by rw [haction]; exact nofun)
      · rw [haction]
        rintro j (hc | hc) <;> cases hc

/-! ## Whole runs -/

theorem start_actions (c : Cluster) (workload : Workload) : (start c workload).actions =
    (c.all_workers.map fun w => .start w.wid) ++ (List.range workload.length).map .put_request := by
  unfold actions start
  rw [List.map_append, List.map_map, List.map_map]
  rfl

theorem start_times {e : Event} (he : e ∈ (start c workload).queue) : e.time = 0 := by
  unfold start at he
  rcases List.mem_append.mp he with hw | hr
  · obtain ⟨w, -, rfl⟩ := List.mem_map.mp hw
    rfl
  · obtain ⟨i, -, rfl⟩ := List.mem_map.mp hr
    rfl

theorem start_arrivals (c : Cluster) (workload : Workload) (i : Nat) :
    (start c workload).arrivals i = if i < workload.length then 1 else 0 := by
  have hnone : ∀ a : Action, a.worker = none →
      (c.all_workers.map fun w => Action.start w.wid).count a = 0 := by
    intro a ha
    rw [List.count_eq_zero]
    intro hmem
    obtain ⟨w, -, rfl⟩ := List.mem_map.mp hmem
    cases ha
  have hput : ((List.range workload.length).map Action.put_request).count (.put_request i) =
      if i < workload.length then 1 else 0 := by
    rw [List.count_map_of_injective _ _ fun _ _ h => Action.put_request.inj h,
      List.nodup_range.count]
    simp only [List.mem_range]
  have harrival : ((List.range workload.length).map Action.put_request).count (.arrival i) = 0 := by
    rw [List.count_eq_zero]
    intro hmem
    obtain ⟨j, -, hj⟩ := List.mem_map.mp hmem
    cases hj
  unfold arrivals
  rw [start_actions, List.count_append, List.count_append, hnone _ rfl, hnone _ rfl, hput, harrival]
  omega

theorem start_tracked (c : Cluster) (workload : Workload) :
    Tracked c workload (start c workload) fun _ => .pending := by
  refine ⟨?_, fun i => .start, ?_, ?_, ?_⟩
  · apply located_nowhere
    intro p
    cases p <;> rfl
  · intro i
    rw [start_arrivals]
    simp
  · intro v hv
    rw [start_actions]
    obtain ⟨w, hw, rfl⟩ := List.mem_map.mp hv
    exact List.mem_append_left _ (List.mem_map_of_mem hw)
  · constructor
    · apply List.pairwise_of_forall_mem_list
      intro a ha b hb
      rw [start_times ha, start_times hb]
    · intro e he
      exact (start_times he).ge
    · intro wid number hmem
      rw [start_actions] at hmem
      rcases List.mem_append.mp hmem with hw | hr
      · obtain ⟨w, -, hw⟩ := List.mem_map.mp hw
        cases hw
      · obtain ⟨i, -, hi⟩ := List.mem_map.mp hr
        cases hi

/-- Between any two events of a run each request lives on and no wakeup is lost. -/
theorem run_tracked {n : Nat} (h : run c workload n = .ok s) :
    ∃ whereabouts, Tracked c workload s whereabouts := by
  induction n generalizing s with
  | zero =>
    cases h
    exact ⟨_, start_tracked c workload⟩
  | succ n ih =>
    obtain ⟨s1, h1, hstep⟩ := bind_eq_ok.mp h
    obtain ⟨whereabouts, hs1⟩ := ih h1
    by_cases hsome : s1.queue = []
    · unfold step at hstep
      rw [hsome] at hstep
      cases hstep
      exact ⟨whereabouts, hs1⟩
    · obtain ⟨_, whereabouts', _, hs, _⟩ := step_advances hs1 hsome hstep
      exact ⟨whereabouts', hs⟩

end Sim

end simdistserve
