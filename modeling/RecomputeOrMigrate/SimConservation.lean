-- No request of the simulator is lost or doubled, and no wakeup of a worker is lost, between
-- any two events of a run.
import RecomputeOrMigrate.SimRuns
import RecomputeOrMigrate.SimStages

open calls places

namespace simdistserve

/-! ## The spots of a cluster -/

/-- The two queues of a worker, and the batch that it executes. -/
inductive Spot
  | prefill_queue (wid : Nat)
  | decode_queue (wid : Nat)
  | batch (wid : Nat)
deriving DecidableEq

def Spot.wid : Spot → Nat
  | .prefill_queue wid => wid
  | .decode_queue wid => wid
  | .batch wid => wid

/-- The requests in the batch that a worker executes. -/
def Status.executing : Status → List Nat
  | .prefilling prefill_items decode_reqs => prefill_items ++ decode_reqs
  | .decoding decode_reqs => decode_reqs
  | _ => []

def Sim.requests_at (s : Sim) : Spot → List Nat
  | .prefill_queue wid => (s.workers wid).prefill_queue
  | .decode_queue wid => (s.workers wid).decode_queue
  | .batch wid => (s.workers wid).status.executing

/-- The spot of a place. Between two events nothing is picked or done. -/
def Place.spot : Place → Option Spot
  | .prefill_queue wid => some (.prefill_queue wid)
  | .prefill_batch wid => some (.batch wid)
  | .decode_queue wid => some (.decode_queue wid)
  | .decode_batch wid => some (.batch wid)
  | .prefill_picked _ => none
  | .decode_picked _ => none
  | .decode_done _ => none

theorem executing_eq (status : Status) :
    status.executing = status.batch.items ++ status.batch.decode_reqs := by
  cases status with
  | created => rfl
  | suspended number => rfl
  | prefilling prefill_items decode_reqs => rfl
  | decoding decode_reqs => rfl

theorem batch_settled (status : Status) :
    status.batch.picked = [] ∧ status.batch.decode_picked = [] ∧ status.batch.done = [] := by
  cases status with
  | created => exact ⟨rfl, rfl, rfl⟩
  | suspended number => exact ⟨rfl, rfl, rfl⟩
  | prefilling prefill_items decode_reqs => exact ⟨rfl, rfl, rfl⟩
  | decoding decode_reqs => exact ⟨rfl, rfl, rfl⟩

namespace Sim

variable {c : Cluster} {workload : Workload} {s : Sim} {whereabouts : Nat → Where} {i : Nat}
  {p : Place}

theorem contents_of_no_spot (s : Sim) (h : p.spot = none) : s.contents s.batches p = [] := by
  cases p with
  | prefill_picked wid => exact (batch_settled _).1
  | decode_picked wid => exact (batch_settled _).2.1
  | decode_done wid => exact (batch_settled _).2.2
  | prefill_queue wid => cases h
  | prefill_batch wid => cases h
  | decode_queue wid => cases h
  | decode_batch wid => cases h

theorem contents_count (h : s.LocatedAt s.batches whereabouts) (hi : whereabouts i = .placed p)
    (q : Place) : (s.contents s.batches q).count i = if p = q then 1 else 0 := by
  rw [h i q]
  simp only [hi, Where.place, Option.some.injEq]

/-- A request at a place is once at its spot, and at no other spot. -/
theorem count_at (h : s.LocatedAt s.batches whereabouts) (hi : whereabouts i = .placed p)
    (spot : Spot) : (s.requests_at spot).count i = if p.spot = some spot then 1 else 0 := by
  have hcount := contents_count h hi
  cases spot with
  | prefill_queue wid =>
    refine (hcount (.prefill_queue wid)).trans ?_
    cases p <;> simp [Place.spot]
  | decode_queue wid =>
    refine (hcount (.decode_queue wid)).trans ?_
    cases p <;> simp [Place.spot]
  | batch wid =>
    have hitems := hcount (.prefill_batch wid)
    have hreqs := hcount (.decode_batch wid)
    unfold contents batches at hitems hreqs
    unfold requests_at
    dsimp only at hitems hreqs ⊢
    rw [executing_eq, List.count_append, hitems, hreqs]
    cases p <;> simp [Place.spot]

/-- A place is at a worker of the cluster. -/
theorem stands_worker {created r : Request} {spot : Spot} (hc : c.Wired)
    (h : Stands c created r (.placed p)) (hspot : p.spot = some spot) :
    spot.wid ∈ c.all_workers.map (·.wid) := by
  cases p with
  | prefill_queue wid =>
    cases hspot
    exact hc.prefill_worker h.1
  | prefill_batch wid =>
    cases hspot
    exact hc.prefill_worker h.1
  | decode_queue wid =>
    cases hspot
    exact hc.decode_worker h.1
  | decode_batch wid =>
    cases hspot
    exact hc.decode_worker h.1
  | prefill_picked wid => cases hspot
  | decode_picked wid => cases hspot
  | decode_done wid => cases hspot

theorem Tracked.one_spot (hc : c.Wired) (h : Tracked c workload s whereabouts)
    (hi : whereabouts i = .placed p) :
    ∃ spot, spot.wid ∈ c.all_workers.map (·.wid) ∧
      ∀ spot', (s.requests_at spot').count i = if spot' = spot then 1 else 0 := by
  have hstands := (h.lives i).stands hc (created_fresh workload i)
  rw [hi] at hstands
  cases hspot : p.spot with
  | none =>
    have hcount := contents_count h.located hi p
    rw [contents_of_no_spot s hspot, if_pos rfl] at hcount
    cases hcount
  | some spot =>
    refine ⟨spot, stands_worker hc hstands hspot, ?_⟩
    intro spot'
    rw [count_at h.located hi, hspot]
    simp only [Option.some.injEq, eq_comm]

/-- A request that is injected and has not exited is at a place. -/
theorem Tracked.at_place (hc : c.Wired) (h : Tracked c workload s whereabouts)
    (hinjected : (s.requests i).Injected) (hexited : ¬ (s.requests i).Exited) :
    ∃ p, whereabouts i = .placed p := by
  have hfresh := created_fresh workload i
  have hstands := (h.lives i).stands hc hfresh
  cases hi : whereabouts i with
  | pending =>
    rw [hi] at hstands
    obtain ⟨entry, hmem, -⟩ := hinjected
    rw [show s.requests i = created workload i from hstands, hfresh.log] at hmem
    cases hmem
  | placed p => exact ⟨p, rfl⟩
  | gone =>
    rw [hi] at hstands
    exact absurd hstands.2 hexited

/-- A worker that waits for an event that is not triggered has nothing to do. -/
theorem Tracked.no_lost_wakeup {wid number : Nat} (h : Tracked c workload s whereabouts)
    (hst : (s.workers wid).status = .suspended number)
    (hnumber : (s.workers wid).wakeup_event ≤ number) :
    (s.workers wid).prefill_queue = [] ∧ (s.workers wid).decode_queue = [] := by
  have hawake := h.awake wid
  unfold Awake at hawake
  rw [hst] at hawake
  rcases hawake with ⟨-, hempty⟩ | ⟨hlt, -, -⟩
  · exact hempty
  · exact absurd hlt (not_lt.mpr hnumber)

end Sim

/-- Between any two events each request in the cluster is in one spot of one worker, and no
worker waits for its wakeup event with a request in a queue. -/
theorem no_request_and_no_wakeup_is_lost {c : Cluster} {workload : Workload} {n : Nat} {s : Sim}
    (hc : Constructed c) (h : Sim.run c workload n = .ok s) :
    (∀ i < workload.length, (s.requests i).Injected → ¬ (s.requests i).Exited →
      ∃ spot, spot.wid ∈ c.all_workers.map (·.wid) ∧
        ∀ spot', (s.requests_at spot').count i = if spot' = spot then 1 else 0) ∧
    ∀ w ∈ c.all_workers, ∀ number, (s.workers w.wid).status = .suspended number →
      (s.workers w.wid).wakeup_event ≤ number →
      (s.workers w.wid).prefill_queue = [] ∧ (s.workers w.wid).decode_queue = [] := by
  obtain ⟨whereabouts, htracked⟩ := Sim.run_tracked h
  constructor
  · intro i _ hinjected hexited
    obtain ⟨p, hp⟩ := htracked.at_place hc.wired hinjected hexited
    exact htracked.one_spot hc.wired hp
  · intro w _ number hst hnumber
    exact htracked.no_lost_wakeup hst hnumber

/-- The first request is decoded while the second one is prefilled. -/
theorem two_requests_in_two_spots : ∃ c s, Constructed c ∧ Sim.run c Sim.small_workload 13 = .ok s ∧
    s.requests_at (.batch 1) = [0] ∧ s.requests_at (.batch 0) = [1] ∧
    ∃ spot : Spot, ∀ spot', (s.requests_at spot').count 0 = if spot' = spot then 1 else 0 := by
  obtain ⟨s, hs, htest⟩ := ok_of_any (x := Sim.small_run 13)
    (p := fun s => decide ((s.requests_at (.batch 1) = [0] ∧ s.requests_at (.batch 0) = [1]) ∧
      (∃ entry ∈ (s.requests 0).log, entry.event = .init) ∧
        ¬ ∃ entry ∈ (s.requests 0).log, entry.event = .exit_system)) (by decide +kernel)
  obtain ⟨c, hc, hrun⟩ := bind_eq_ok.mp hs
  obtain ⟨⟨hone, hzero⟩, hinjected, hexited⟩ := of_decide_eq_true htest
  have hconstructed := small_cluster_constructed hc
  obtain ⟨spot, -, hspot⟩ := (no_request_and_no_wakeup_is_lost hconstructed hrun).1 0
    Nat.two_pos hinjected hexited
  exact ⟨c, s, hconstructed, hrun, hone, hzero, spot, hspot⟩

end simdistserve
