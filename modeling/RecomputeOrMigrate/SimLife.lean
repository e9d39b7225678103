-- The life of one request in a cluster, without the queues and the other requests. Each
-- transition is something that a worker or the scheduler does with this request.
import RecomputeOrMigrate.SimCluster
import RecomputeOrMigrate.SimRequest
import Mathlib.Logic.Function.Basic

namespace simdistserve

/-! ## Where a request is -/

/-- The places of a cluster. A batch is picked from a queue first and then executed, and what
it decoded is done before it is forwarded. -/
inductive Place
  | prefill_queue (wid : Nat)
  | prefill_picked (wid : Nat)
  | prefill_batch (wid : Nat)
  | decode_queue (wid : Nat)
  | decode_picked (wid : Nat)
  | decode_batch (wid : Nat)
  | decode_done (wid : Nat)
deriving DecidableEq

/-- Before its injection a request is pending, and after its exit it is gone. -/
inductive Where
  | pending
  | placed (p : Place)
  | gone
deriving DecidableEq

def Where.place : Where → Option Place
  | .placed p => some p
  | _ => none

theorem Where.placed_of_place {o : Where} {p : Place} (h : o.place = some p) : o = .placed p := by
  cases o with
  | pending => cases h
  | placed p' => cases h; rfl
  | gone => cases h

/-! ## The transitions -/

/-- The size that a first worker may cut from a request. -/
def Cuts (config : WorkerConfig) (r : Request) (size : Nat) : Prop :=
  size ≤ r.remain_prefill_lens ∧
    if config.enable_chunked_prefill then 0 < size
    else size = r.remain_prefill_lens ∧ size ≤ config.max_prefill_tokens

/-- The request after the prefill of one worker. -/
def Cluster.after_prefill (c : Cluster) (now : ℚ) (wid : Nat) (r : Request) : Request :=
  r.finish_prefill now (c.worker wid).is_last_in_pipeline (some (c.worker wid).next_worker)

def Cluster.after_decode (c : Cluster) (now : ℚ) (wid : Nat) (r : Request) : Request :=
  r.finish_decode now (c.worker wid).is_last_in_pipeline (some (c.worker wid).next_worker)

/-- The request goes on with its prefill: to the next worker, or to the first one with the next
chunk. -/
def Cluster.prefills_on (c : Cluster) (wid : Nat) (r : Request) : Bool :=
  !(c.worker wid).is_last_in_pipeline || r.remain_prefill_lens > 0

/-- One transition at a time `now`. -/
inductive Life (c : Cluster) (now : ℚ) : Request → Where → Request → Where → Prop
  | arrive_prefill {r : Request} {wid : Nat} (count : r.counter < 0)
      (head : wid ∈ c.prefill_heads) :
      Life c now r .pending (r.init now) (.placed (.prefill_queue wid))
  | arrive_decode {r : Request} {wid : Nat} (count : 0 ≤ r.counter)
      (more : r.should_finish = false) (head : wid ∈ c.decode_heads) :
      Life c now r .pending ((r.init now).wait_decode now (some wid)) (.placed (.decode_queue wid))
  | arrive_finished {r : Request} (count : 0 ≤ r.counter) (finish : r.should_finish = true) :
      Life c now r .pending ((r.init now).finish_decode now false none) .gone
  | cut {r : Request} {wid size chunk_id : Nat} (first : (c.worker wid).pipe_rank = 0)
      (cuts : Cuts c.config r size) :
      Life c now r (.placed (.prefill_queue wid)) (r.cut_chunk size chunk_id)
        (.placed (.prefill_picked wid))
  | regroup {r : Request} {wid : Nat} (later : (c.worker wid).pipe_rank ≠ 0) :
      Life c now r (.placed (.prefill_queue wid)) r (.placed (.prefill_picked wid))
  | start_prefill {r : Request} {wid : Nat} :
      Life c now r (.placed (.prefill_picked wid)) (r.do_prefill now (some wid))
        (.placed (.prefill_batch wid))
  | pass_prefill {r : Request} {wid : Nat}
      (on : c.prefills_on wid (c.after_prefill now wid r) = true) :
      Life c now r (.placed (.prefill_batch wid)) (c.after_prefill now wid r)
        (.placed (.prefill_queue (c.worker wid).next_worker))
  | exit_prefill {r : Request} {wid : Nat}
      (done : c.prefills_on wid (c.after_prefill now wid r) = false)
      (finish : (c.after_prefill now wid r).should_finish = true) :
      Life c now r (.placed (.prefill_batch wid)) (c.after_prefill now wid r) .gone
  | stay {r : Request} {wid : Nat}
      (done : c.prefills_on wid (c.after_prefill now wid r) = false)
      (more : (c.after_prefill now wid r).should_finish = false)
      (stays : (c.worker wid).should_request_stay = true) :
      Life c now r (.placed (.prefill_batch wid)) (c.after_prefill now wid r)
        (.placed (.decode_queue (c.worker wid).next_worker))
  | hand_over {r : Request} {wid next : Nat}
      (done : c.prefills_on wid (c.after_prefill now wid r) = false)
      (more : (c.after_prefill now wid r).should_finish = false)
      (leaves : (c.worker wid).should_request_stay = false) (head : next ∈ c.decode_heads) :
      Life c now r (.placed (.prefill_batch wid))
        ((c.after_prefill now wid r).wait_decode now (some next))
        (.placed (.decode_queue next))
  | pick_decode {r : Request} {wid : Nat} (fits : r.current_context_len + 1 ≤ 50000) :
      Life c now r (.placed (.decode_queue wid)) r (.placed (.decode_picked wid))
  | start_decode {r : Request} {wid : Nat} :
      Life c now r (.placed (.decode_picked wid)) (r.do_decode now (some wid))
        (.placed (.decode_batch wid))
  | finish_decode {r : Request} {wid : Nat}
      (more : (c.after_decode now wid r).should_finish = false) :
      Life c now r (.placed (.decode_batch wid)) (c.after_decode now wid r)
        (.placed (.decode_done wid))
  | exit_decode {r : Request} {wid : Nat}
      (finish : (c.after_decode now wid r).should_finish = true) :
      Life c now r (.placed (.decode_batch wid)) (c.after_decode now wid r) .gone
  | pass_decode {r : Request} {wid : Nat} :
      Life c now r (.placed (.decode_done wid)) r
        (.placed (.decode_queue (c.worker wid).next_worker))

/-- A life from its start until a time. -/
inductive Lives (c : Cluster) (created : Request) : ℚ → Request → Where → Prop
  | start {t : ℚ} : Lives c created t created .pending
  | wait {t t' : ℚ} {r : Request} {o : Where} (life : Lives c created t r o) (le : t ≤ t') :
      Lives c created t' r o
  | step {t : ℚ} {r r' : Request} {o o' : Where} (life : Lives c created t r o)
      (next : Life c t r o r' o') : Lives c created t r' o'

/-! ## Many requests -/

/-- The requests with where they are. -/
structure Population where
  requests : Nat → Request
  whereabouts : Nat → Where

/-- A transition of one request. Only the first `N` requests arrive. -/
def Population.Step (c : Cluster) (now : ℚ) (N : Nat) (p p' : Population) : Prop :=
  ∃ i r o, Life c now (p.requests i) (p.whereabouts i) r o ∧
    (p.whereabouts i = .pending → i < N) ∧
    p' = ⟨Function.update p.requests i r, Function.update p.whereabouts i o⟩

/-- This many transitions at a time `now`. -/
inductive Population.Steps (c : Cluster) (now : ℚ) (N : Nat) :
    Nat → Population → Population → Prop
  | refl (p : Population) : Steps c now N 0 p p
  | tail {n : Nat} {p p' p'' : Population} (steps : Steps c now N n p p')
      (step : p'.Step c now N p'') : Steps c now N (n + 1) p p''

variable {c : Cluster} {now : ℚ} {N m n : Nat} {p p' p'' : Population}

theorem Population.Steps.trans (h : Steps c now N m p p') (h' : Steps c now N n p' p'') :
    Steps c now N (m + n) p p'' := by
  induction h' with
  | refl => exact h
  | tail _ hstep ih => exact (ih h).tail hstep

theorem Population.Steps.single (h : p.Step c now N p') : Steps c now N 1 p p' :=
  (Steps.refl p).tail h

theorem Population.Steps.mono (h : Steps c now m n p p') (hle : m ≤ N) : Steps c now N n p p' := by
  induction h with
  | refl => exact .refl _
  | tail _ hstep ih =>
    obtain ⟨i, r, o, hlife, hpending, hp⟩ := hstep
    exact ih.tail ⟨i, r, o, hlife, fun h => (hpending h).trans_le hle, hp⟩

/-- No request is pending again. -/
theorem Life.not_pending {r r' : Request} {o o' : Where} (h : Life c now r o r' o') :
    o' ≠ .pending := by
  cases h <;> exact nofun

/-- Without an arrival the same requests are pending. -/
theorem Population.Steps.pending_iff (h : Steps c now 0 n p p') (i : Nat) :
    p'.whereabouts i = .pending ↔ p.whereabouts i = .pending := by
  induction h with
  | refl => exact Iff.rfl
  | tail _ hstep ih =>
    obtain ⟨j, r, o, hlife, hplaced, rfl⟩ := hstep
    rw [← ih]
    dsimp only
    by_cases hj : i = j
    · subst hj
      rw [Function.update_self]
      constructor
      · intro h
        exact absurd h hlife.not_pending
      · intro h
        exact absurd (hplaced h) (Nat.not_lt_zero i)
    · rw [Function.update_of_ne hj]

/-- Each request lives on through the steps. -/
theorem Population.Steps.lives (h : Steps c now N n p p') {created : Nat → Request}
    (hp : ∀ i, Lives c (created i) now (p.requests i) (p.whereabouts i)) (i : Nat) :
    Lives c (created i) now (p'.requests i) (p'.whereabouts i) := by
  induction h with
  | refl => exact hp i
  | tail _ hstep ih =>
    obtain ⟨j, r, o, hlife, -, rfl⟩ := hstep
    dsimp only
    by_cases hj : i = j
    · subst hj
      rw [Function.update_self, Function.update_self]
      exact (ih hp).step hlife
    · rw [Function.update_of_ne hj, Function.update_of_ne hj]
      exact ih hp

end simdistserve
