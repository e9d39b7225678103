-- What the parts of a simulated step leave as it is: the times of the events, the wakeups of
-- the other workers and the arrivals that are to come.
import Mathlib.Algebra.Order.Group.Unbundled.Basic
import Mathlib.Tactic.Linarith
import RecomputeOrMigrate.Simulator

namespace simdistserve

/-! ## The list of events -/

theorem insert_event_perm (e : Event) (queue : List Event) :
    (insert_event e queue).Perm (e :: queue) := by
  induction queue with
  | nil => exact List.Perm.refl _
  | cons head rest ih =>
    unfold insert_event
    split
    · exact List.Perm.refl _
    · exact (ih.cons head).trans (List.Perm.swap e head rest)

/-- The events are in the order of their times. -/
def Sorted (queue : List Event) : Prop := queue.Pairwise fun a b => a.time ≤ b.time

theorem insert_event_sorted (e : Event) {queue : List Event} (h : Sorted queue) :
    Sorted (insert_event e queue) := by
  induction queue with
  | nil => exact List.pairwise_singleton _ _
  | cons head rest ih =>
    obtain ⟨hhead, hrest⟩ := List.pairwise_cons.mp h
    unfold insert_event
    split
    · next hbefore =>
      apply List.pairwise_cons.mpr ⟨_, h⟩
      have hle : e.time ≤ head.time := hbefore.elim le_of_lt fun h => h.1.le
      intro b hb
      rcases List.mem_cons.mp hb with rfl | hb
      · exact hle
      · exact hle.trans (hhead b hb)
    · next hafter =>
      refine List.pairwise_cons.mpr ⟨?_, ih hrest⟩
      have hle : head.time ≤ e.time := not_lt.mp fun hlt => hafter (.inl hlt)
      intro b hb
      rcases List.mem_cons.mp ((insert_event_perm e rest).mem_iff.mp hb) with rfl | hb
      · exact hle
      · exact hhead b hb

/-- The first event of an arrival leads to another one. -/
def Action.cost : Action → Nat
  | .put_request _ => 2
  | _ => 1

theorem Action.cost_pos (a : Action) : 0 < a.cost := by
  cases a <;> exact Nat.succ_pos _

namespace Sim

/-- What is to be done. -/
def actions (s : Sim) : List Action := s.queue.map (·.action)

/-- The number of events, where the first one of an arrival counts for both. -/
def weight (s : Sim) : Nat := (s.actions.map Action.cost).sum

/-- How often the request is to arrive. -/
def arrivals (s : Sim) (i : Nat) : Nat :=
  s.actions.count (.put_request i) + s.actions.count (.arrival i)

/-- No event is in the past, and the events are in order. The event of a wakeup is
triggered. -/
structure Timely (s : Sim) : Prop where
  sorted : Sorted s.queue
  future : ∀ e ∈ s.queue, s.now ≤ e.time
  triggered : ∀ wid number, .wakeup wid number ∈ s.actions → number < (s.workers wid).wakeup_event

/-- The next event for a worker is there. A worker that waits for an event that is not
triggered has empty queues. One whose event is triggered has something in a queue. -/
def Awake (c : Cluster) (s : Sim) (wid : Nat) : Prop :=
  match (s.workers wid).status with
  | .created => wid ∈ c.all_workers.map (·.wid) → .start wid ∈ s.actions
  | .suspended number =>
    (number = (s.workers wid).wakeup_event ∧
      (s.workers wid).prefill_queue = [] ∧ (s.workers wid).decode_queue = []) ∨
    (number < (s.workers wid).wakeup_event ∧
      ((s.workers wid).prefill_queue ≠ [] ∨ (s.workers wid).decode_queue ≠ []) ∧
      .wakeup wid number ∈ s.actions)
  | _ => .iteration wid ∈ s.actions

/-- A worker that stays as it is is still awake when there are more events. -/
theorem Awake.more {c : Cluster} {s s' : Sim} {v : Nat} (h : s.Awake c v)
    (hworker : s'.workers v = s.workers v) (hmore : ∀ a ∈ s.actions, a ∈ s'.actions) :
    s'.Awake c v := by
  unfold Awake at h ⊢
  rw [hworker]
  cases hst : (s.workers v).status with
  | created =>
    rw [hst] at h
    exact fun hmem => hmore _ (h hmem)
  | suspended number =>
    rw [hst] at h
    exact h.imp_right fun ⟨hlt, hsome, hmem⟩ => ⟨hlt, hsome, hmore _ hmem⟩
  | prefilling items reqs =>
    rw [hst] at h
    exact hmore _ h
  | decoding reqs =>
    rw [hst] at h
    exact hmore _ h

/-! ## The parts of the state -/

section fields

variable (s : Sim) (i wid : Nat) (f : Request → Request) (g : WorkerState → WorkerState)
  (action : Action) (priority : Nat) (delay : ℚ) (items : List Nat)

@[simp] theorem modify_request_now : (s.modify_request i f).now = s.now := rfl

@[simp] theorem modify_request_queue : (s.modify_request i f).queue = s.queue := rfl

@[simp] theorem modify_request_workers : (s.modify_request i f).workers = s.workers := rfl

@[simp] theorem modify_request_requests :
    (s.modify_request i f).requests = Function.update s.requests i (f (s.requests i)) := rfl

@[simp] theorem modify_worker_now : (s.modify_worker wid g).now = s.now := rfl

@[simp] theorem modify_worker_queue : (s.modify_worker wid g).queue = s.queue := rfl

@[simp] theorem modify_worker_requests : (s.modify_worker wid g).requests = s.requests := rfl

@[simp] theorem modify_worker_workers :
    (s.modify_worker wid g).workers = Function.update s.workers wid (g (s.workers wid)) := rfl

@[simp] theorem schedule_now : (s.schedule action priority delay).now = s.now := rfl

@[simp] theorem schedule_workers : (s.schedule action priority delay).workers = s.workers := rfl

@[simp] theorem schedule_requests :
    (s.schedule action priority delay).requests = s.requests := rfl

@[simp] theorem schedule_queue : (s.schedule action priority delay).queue =
    insert_event ⟨s.now + delay, priority, action⟩ s.queue := rfl

@[simp] theorem wakeup_now : (s.wakeup wid).now = s.now := rfl

@[simp] theorem wakeup_requests : (s.wakeup wid).requests = s.requests := rfl

@[simp] theorem wakeup_queue : (s.wakeup wid).queue =
    insert_event ⟨s.now + 0, 1, .wakeup wid (s.workers wid).wakeup_event⟩ s.queue := rfl

theorem wakeup_worker (v : Nat) : (s.wakeup wid).workers v =
    { s.workers v with
      wakeup_event := (s.workers v).wakeup_event + if v = wid then 1 else 0 } := by
  unfold wakeup
  rw [modify_worker_workers]
  by_cases hv : v = wid
  · subst hv
    rw [Function.update_self, if_pos rfl]
    rfl
  · rw [Function.update_of_ne hv, if_neg hv]
    rfl

theorem schedule_weight :
    (s.schedule action priority delay).weight = s.weight + action.cost := by
  unfold weight actions
  rw [schedule_queue, (((insert_event_perm _ _).map _).map _).sum_eq, List.map_cons,
    List.map_cons, List.sum_cons, Nat.add_comm]

theorem mem_schedule_actions {a : Action} :
    a ∈ (s.schedule action priority delay).actions ↔ a = action ∨ a ∈ s.actions := by
  unfold actions
  rw [schedule_queue, ((insert_event_perm _ _).map _).mem_iff, List.map_cons, List.mem_cons]

theorem schedule_arrivals (h : action ≠ .put_request i) (h' : action ≠ .arrival i) :
    (s.schedule action priority delay).arrivals i = s.arrivals i := by
  unfold arrivals actions
  rw [schedule_queue, ((insert_event_perm _ _).map _).count_eq,
    ((insert_event_perm _ _).map _).count_eq, List.map_cons, List.count_cons_of_ne h,
    List.count_cons_of_ne h']

variable {s delay}

theorem Timely.schedule (h : s.Timely) (hdelay : 0 ≤ delay)
    (haction : ∀ wid number, action = .wakeup wid number →
      number < (s.workers wid).wakeup_event) :
    (s.schedule action priority delay).Timely := by
  refine ⟨insert_event_sorted _ h.sorted, ?_, ?_⟩
  · intro e he
    rcases List.mem_cons.mp ((insert_event_perm _ _).mem_iff.mp he) with rfl | he
    · exact le_add_of_nonneg_right hdelay
    · exact h.future e he
  · intro v number hmem
    rcases (mem_schedule_actions ..).mp hmem with heq | hmem
    · exact haction v number heq.symm
    · exact h.triggered v number hmem

/-- A worker changes. What was triggered stays triggered. -/
theorem Timely.modify_worker (h : s.Timely)
    (hg : (s.workers wid).wakeup_event ≤ (g (s.workers wid)).wakeup_event) :
    (s.modify_worker wid g).Timely := by
  refine ⟨h.sorted, h.future, ?_⟩
  intro v number hmem
  have hlt := h.triggered v number hmem
  rw [modify_worker_workers]
  by_cases hv : v = wid
  · subst hv
    rw [Function.update_self]
    exact hlt.trans_le hg
  · rw [Function.update_of_ne hv]
    exact hlt

theorem mem_wakeup_actions {a : Action} :
    a ∈ (s.wakeup wid).actions ↔ a = .wakeup wid (s.workers wid).wakeup_event ∨ a ∈ s.actions :=
  mem_schedule_actions s _ 1 0

/-- The event of a wakeup is triggered at once. -/
theorem Timely.wakeup (h : s.Timely) : (s.wakeup wid).Timely := by
  refine Timely.schedule (.wakeup wid (s.workers wid).wakeup_event) 1
    (h.modify_worker wid (fun w => { w with wakeup_event := w.wakeup_event + 1 })
      (Nat.le_succ _)) le_rfl ?_
  rintro v number ⟨⟩
  rw [modify_worker_workers, Function.update_self]
  exact Nat.lt_succ_self _

end fields

/-! ## Frames -/

/-- What a part of a step leaves as it is, while the process of the worker `busy` runs. -/
structure Frame (c : Cluster) (busy : Option Nat) (s s' : Sim) : Prop where
  now : s'.now = s.now
  status : ∀ v, (s'.workers v).status = (s.workers v).status
  awake : ∀ v, busy ≠ some v → s.Awake c v → s'.Awake c v
  timely : s.Timely → s'.Timely
  arrivals : ∀ i, s'.arrivals i = s.arrivals i

variable {c : Cluster} {busy : Option Nat} {s s' s'' : Sim}

theorem Frame.refl : Frame c busy s s :=
  ⟨rfl, fun _ => rfl, fun _ _ h => h, id, fun _ => rfl⟩

theorem Frame.trans (h : Frame c busy s s') (h' : Frame c busy s' s'') : Frame c busy s s'' :=
  ⟨h'.now.trans h.now, fun v => (h'.status v).trans (h.status v),
    fun v hv ha => h'.awake v hv (h.awake v hv ha), fun ht => h'.timely (h.timely ht),
    fun i => (h'.arrivals i).trans (h.arrivals i)⟩

theorem frame_modify_request (i : Nat) (f : Request → Request) :
    Frame c busy s (s.modify_request i f) :=
  ⟨rfl, fun _ => rfl, fun _ _ h => h, fun h => ⟨h.sorted, h.future, h.triggered⟩, fun _ => rfl⟩

/-- The busy worker changes its own queues. -/
theorem frame_modify_worker (wid : Nat) {g : WorkerState → WorkerState}
    (hg : ∀ w, (g w).status = w.status) (hnumber : ∀ w, (g w).wakeup_event = w.wakeup_event) :
    Frame c (some wid) s (s.modify_worker wid g) := by
  refine ⟨rfl, ?_, ?_, fun h => h.modify_worker wid g (hnumber _).ge, fun _ => rfl⟩
  · intro v
    rw [modify_worker_workers]
    by_cases hv : v = wid
    · subst hv
      rw [Function.update_self, hg]
    · rw [Function.update_of_ne hv]
  · intro v hv ha
    have hne : v ≠ wid := fun h => hv (h ▸ rfl)
    unfold Awake at ha ⊢
    rw [modify_worker_workers, Function.update_of_ne hne]
    exact ha

section woken

variable {wid : Nat} {g : WorkerState → WorkerState}

/-- The other workers and their events stay. -/
theorem woken_worker_of_ne {v : Nat} (hv : v ≠ wid) :
    ((s.modify_worker wid g).wakeup wid).workers v = s.workers v := by
  rw [wakeup_worker, if_neg hv, modify_worker_workers, Function.update_of_ne hv]
  rfl

theorem woken_worker (hnumber : ∀ w, (g w).wakeup_event = w.wakeup_event) :
    ((s.modify_worker wid g).wakeup wid).workers wid =
      { g (s.workers wid) with wakeup_event := (s.workers wid).wakeup_event + 1 } := by
  rw [wakeup_worker, if_pos rfl, modify_worker_workers, Function.update_self, hnumber]

theorem mem_woken_actions (hnumber : ∀ w, (g w).wakeup_event = w.wakeup_event) {a : Action} :
    a ∈ ((s.modify_worker wid g).wakeup wid).actions ↔
      a = .wakeup wid (s.workers wid).wakeup_event ∨ a ∈ s.actions := by
  rw [mem_wakeup_actions, modify_worker_workers, Function.update_self, hnumber]
  rfl

/-- The event of a worker that waits is triggered now, or it was before. -/
theorem Awake.woken (ha : s.Awake c wid) (hstatus : ∀ w, (g w).status = w.status)
    (hnumber : ∀ w, (g w).wakeup_event = w.wakeup_event)
    (hsome : ∀ w, (g w).prefill_queue ≠ [] ∨ (g w).decode_queue ≠ []) :
    ((s.modify_worker wid g).wakeup wid).Awake c wid := by
  unfold Awake at ha ⊢
  rw [woken_worker hnumber]
  dsimp only
  rw [hstatus]
  cases hst : (s.workers wid).status with
  | created =>
    rw [hst] at ha
    exact fun hmem => (mem_woken_actions hnumber).mpr (.inr (ha hmem))
  | suspended number =>
    rw [hst] at ha
    refine .inr ?_
    rcases ha with ⟨hcur, -⟩ | ⟨hlt, -, hmem⟩
    · exact ⟨Nat.lt_succ_of_le hcur.le, hsome _,
        (mem_woken_actions hnumber).mpr (.inl (hcur ▸ rfl))⟩
    · exact ⟨hlt.trans (Nat.lt_succ_self _), hsome _,
        (mem_woken_actions hnumber).mpr (.inr hmem)⟩
  | prefilling items reqs =>
    rw [hst] at ha
    exact (mem_woken_actions hnumber).mpr (.inr ha)
  | decoding reqs =>
    rw [hst] at ha
    exact (mem_woken_actions hnumber).mpr (.inr ha)

variable (wid) in
/-- A worker gets something and is woken up. -/
theorem frame_woken (hstatus : ∀ w, (g w).status = w.status)
    (hnumber : ∀ w, (g w).wakeup_event = w.wakeup_event)
    (hsome : ∀ w, (g w).prefill_queue ≠ [] ∨ (g w).decode_queue ≠ []) :
    Frame c busy s ((s.modify_worker wid g).wakeup wid) := by
  refine ⟨rfl, ?_, ?_, fun ht => (ht.modify_worker wid g (hnumber _).ge).wakeup wid, ?_⟩
  · intro v
    by_cases hv : v = wid
    · subst hv
      rw [woken_worker hnumber]
      exact hstatus _
    · rw [woken_worker_of_ne hv]
  · intro v _ ha
    by_cases hv : v = wid
    · subst hv
      exact ha.woken hstatus hnumber hsome
    · exact ha.more (woken_worker_of_ne hv) fun _ h => (mem_woken_actions hnumber).mpr (.inr h)
  · intro i
    exact schedule_arrivals (s.modify_worker wid g) i _ 1 0 nofun nofun

end woken

end Sim

end simdistserve
