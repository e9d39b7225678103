-- How many transitions a request still needs. Each transition of its life leaves fewer.
import Mathlib.Algebra.BigOperators.Group.Finset.Piecewise
import RecomputeOrMigrate.SimStages

namespace simdistserve

/-! ## The work of one request -/

namespace Cluster

variable (c : Cluster) (r : Request) (k : Nat)

/-- All rounds of the decoding, with four transitions at each stage. -/
def decoding_work : Nat := r.output_lens * (4 * c.PP_decode)

/-- The rounds that the rest of the prompt takes at most, with three transitions at each stage. -/
def chunks_work : Nat := max r.remain_prefill_lens 1 * (3 * c.PP_prefill) + c.decoding_work r

/-- From the stage `k` of a round of the prefill on. -/
def prefill_work : Nat :=
  r.remain_prefill_lens * (3 * c.PP_prefill) + 3 * (c.PP_prefill - k) + c.decoding_work r

/-- From the stage `k` of a round of the decoding on. -/
def decode_work : Nat :=
  (r.output_lens - r.counter.toNat - 1) * (4 * c.PP_decode) + 4 * (c.PP_decode - k)

def work (c : Cluster) (r : Request) : Where → Nat
  | .pending => c.chunks_work r + 1
  | .placed (.prefill_queue wid) =>
    if (c.worker wid).pipe_rank = 0 then c.chunks_work r
    else c.prefill_work r (c.worker wid).pipe_rank
  | .placed (.prefill_picked wid) => c.prefill_work r (c.worker wid).pipe_rank - 1
  | .placed (.prefill_batch wid) => c.prefill_work r (c.worker wid).pipe_rank - 2
  | .placed (.decode_queue wid) => c.decode_work r (c.worker wid).pipe_rank
  | .placed (.decode_picked wid) => c.decode_work r (c.worker wid).pipe_rank - 1
  | .placed (.decode_batch wid) => c.decode_work r (c.worker wid).pipe_rank - 2
  | .placed (.decode_done wid) =>
    c.decode_work r (c.worker (c.worker wid).next_worker).pipe_rank + 1
  | .gone => 0

end Cluster

section work

variable {c : Cluster} {created r r' : Request} {now : ℚ} {event : RequestEvent}
  {next_wid : Option Int} {o o' : Where} {wid k : Nat}

@[simp] theorem log_event_chunks_work :
    c.chunks_work (r.log_event now event next_wid) = c.chunks_work r := by
  unfold Cluster.chunks_work Cluster.decoding_work
  rw [Request.log_event_remain, Request.log_event_output_lens]

@[simp] theorem log_event_prefill_work :
    c.prefill_work (r.log_event now event next_wid) k = c.prefill_work r k := by
  unfold Cluster.prefill_work Cluster.decoding_work
  rw [Request.log_event_remain, Request.log_event_output_lens]

@[simp] theorem log_event_decode_work :
    c.decode_work (r.log_event now event next_wid) k = c.decode_work r k := by
  unfold Cluster.decode_work
  rw [Request.log_event_counter, Request.log_event_output_lens]

/-- At the next stage of the same round. -/
theorem prefill_work_next (hk : k + 1 < c.PP_prefill) :
    c.prefill_work r (k + 1) + 3 = c.prefill_work r k := by
  unfold Cluster.prefill_work
  omega

theorem decode_work_next (hk : k + 1 < c.PP_decode) :
    c.decode_work r (k + 1) + 4 = c.decode_work r k := by
  unfold Cluster.decode_work
  omega

/-- A cut starts a round. -/
theorem cut_work {size chunk_id : Nat} (cuts : Cuts c.config r size) :
    c.prefill_work (r.cut_chunk size chunk_id) 0 ≤ c.chunks_work r := by
  have hrounds : r.remain_prefill_lens - size + 1 ≤ max r.remain_prefill_lens 1 := by
    obtain ⟨hle, hsize⟩ := cuts
    split at hsize <;> omega
  have hle := Nat.mul_le_mul_right (3 * c.PP_prefill) hrounds
  rw [Nat.succ_mul] at hle
  unfold Cluster.prefill_work Cluster.chunks_work Request.cut_chunk Cluster.decoding_work
  dsimp only
  omega

/-- The end of a round with something left. -/
theorem last_prefill_work (hk : k + 1 = c.PP_prefill) (hremain : 0 < r.remain_prefill_lens) :
    c.prefill_work r k = c.chunks_work r + 3 := by
  unfold Cluster.prefill_work Cluster.chunks_work
  rw [Nat.max_eq_left hremain, show c.PP_prefill - k = 1 by omega]
  omega

/-- The end of the prefill. -/
theorem prefilled_work (hk : k + 1 = c.PP_prefill) (hremain : r.remain_prefill_lens = 0) :
    c.prefill_work r k = c.decoding_work r + 3 := by
  unfold Cluster.prefill_work
  rw [hremain, Nat.zero_mul, show c.PP_prefill - k = 1 by omega]
  omega

/-- The decoding of a request that has more to decode. -/
theorem Decodes.decode_work_first (h : Decodes created r) :
    c.decode_work r 0 = (r.output_lens - r.counter.toNat) * (4 * c.PP_decode) := by
  have hmore := h.more
  have hcount := h.count
  rw [← h.output_lens] at hmore
  unfold Cluster.decode_work
  obtain ⟨n, hn⟩ : ∃ n, r.output_lens - r.counter.toNat = n + 1 :=
    ⟨r.output_lens - r.counter.toNat - 1, by omega⟩
  rw [hn, Nat.add_sub_cancel, Nat.succ_mul n, Nat.sub_zero]

theorem Decodes.decode_work_le (h : Decodes created r) :
    c.decode_work r 0 ≤ c.decoding_work r := by
  rw [h.decode_work_first]
  exact Nat.mul_le_mul_right _ (Nat.sub_le _ _)

/-- The end of a round of the decoding. -/
theorem last_decode_work (hk : k + 1 = c.PP_decode) : c.decode_work r k =
    (r.output_lens - r.counter.toNat - 1) * (4 * c.PP_decode) + 4 := by
  unfold Cluster.decode_work
  rw [show c.PP_decode - k = 1 by omega]

/-! ## The stages of a pipeline -/

theorem Pipeline.next_rank {first PP : Nat} (h : Pipeline c first PP) (hk : k < PP) :
    (c.worker (c.worker (first + k)).next_worker).pipe_rank = if k + 1 = PP then 0 else k + 1 := by
  rw [h.next k hk]
  split
  · exact h.rank 0 h.pos
  · exact h.rank (k + 1) (by omega)

/-- The rank of a stage, and of the next one. -/
theorem Cluster.Wired.prefill_ranks (hc : c.Wired) (h : c.PrefillStage wid) :
    (c.worker wid).pipe_rank < c.PP_prefill ∧
    (c.worker wid).is_last_in_pipeline = decide ((c.worker wid).pipe_rank + 1 = c.PP_prefill) ∧
    (c.worker (c.worker wid).next_worker).pipe_rank =
      if (c.worker wid).pipe_rank + 1 = c.PP_prefill then 0 else (c.worker wid).pipe_rank + 1 := by
  obtain ⟨first, hf, k, hk, rfl⟩ := h
  have hpipe := (hc.prefill first hf).1
  rw [hpipe.rank k hk]
  exact ⟨hk, hpipe.last k hk, hpipe.next_rank hk⟩

theorem Cluster.Wired.decode_ranks (hc : c.Wired) (h : c.DecodeStage wid) :
    (c.worker wid).pipe_rank < c.PP_decode ∧
    (c.worker wid).is_last_in_pipeline = decide ((c.worker wid).pipe_rank + 1 = c.PP_decode) ∧
    (c.worker (c.worker wid).next_worker).pipe_rank =
      if (c.worker wid).pipe_rank + 1 = c.PP_decode then 0 else (c.worker wid).pipe_rank + 1 := by
  obtain ⟨first, hf, k, hk, rfl⟩ := h
  have hpipe := (hc.decode first hf).1
  rw [hpipe.rank k hk]
  exact ⟨hk, hpipe.last k hk, hpipe.next_rank hk⟩

/-- There is work left at each stage. -/
theorem Cluster.Wired.prefill_work_pos (hc : c.Wired) (h : c.PrefillStage wid) (r : Request) :
    3 ≤ c.prefill_work r (c.worker wid).pipe_rank := by
  have hk := (hc.prefill_ranks h).1
  unfold Cluster.prefill_work
  omega

theorem Cluster.Wired.decode_work_pos (hc : c.Wired) (h : c.DecodeStage wid) (r : Request) :
    4 ≤ c.decode_work r (c.worker wid).pipe_rank := by
  have hk := (hc.decode_ranks h).1
  unfold Cluster.decode_work
  omega

theorem Cluster.Wired.prefill_head_rank (hc : c.Wired) (h : wid ∈ c.prefill_heads) :
    (c.worker wid).pipe_rank = 0 :=
  (hc.prefill wid h).1.rank 0 (hc.prefill wid h).1.pos

theorem Cluster.Wired.decode_head_rank (hc : c.Wired) (h : wid ∈ c.decode_heads) :
    (c.worker wid).pipe_rank = 0 :=
  (hc.decode wid h).1.rank 0 (hc.decode wid h).1.pos

/-! ## One transition -/

/-- The request goes on with its prefill. -/
theorem pass_prefill_work (hc : c.Wired) (hstage : c.PrefillStage wid)
    (on : c.prefills_on wid (c.after_prefill now wid r) = true) :
    c.work (c.after_prefill now wid r) (.placed (.prefill_queue (c.worker wid).next_worker)) <
      c.work r (.placed (.prefill_batch wid)) := by
  obtain ⟨hk, hlast, hnext⟩ := hc.prefill_ranks hstage
  have hpos := hc.prefill_work_pos hstage r
  obtain ⟨chunk_id, size, -, heq⟩ := after_prefill_on on
  have hchunks : c.chunks_work (c.after_prefill now wid r) = c.chunks_work r := by
    rw [heq]
    exact log_event_chunks_work
  have hprefill : ∀ k, c.prefill_work (c.after_prefill now wid r) k = c.prefill_work r k := by
    intro k
    rw [heq]
    exact log_event_prefill_work
  unfold Cluster.work
  dsimp only
  rw [hnext, hchunks, hprefill]
  by_cases hround : (c.worker wid).pipe_rank + 1 = c.PP_prefill
  · unfold Cluster.prefills_on at on
    rw [after_prefill_remain, hlast, decide_eq_true hround] at on
    have hremain : 0 < r.remain_prefill_lens := of_decide_eq_true on
    rw [if_pos hround, if_pos rfl, last_prefill_work hround hremain]
    omega
  · have hwork := prefill_work_next (c := c) (r := r) (k := (c.worker wid).pipe_rank) (by omega)
    rw [if_neg hround, if_neg (Nat.succ_ne_zero _)]
    omega

/-- The prefill is over, and the request goes to the head of an instance that decodes. -/
theorem prefill_done_work {head : Nat} (hc : c.Wired) (hstage : c.PrefillStage wid)
    (hhead : head ∈ c.decode_heads) (done : c.prefills_on wid (c.after_prefill now wid r) = false)
    (hs : Decodes created r') (hlens : r'.output_lens = r.output_lens) :
    c.work r' (.placed (.decode_queue head)) < c.work r (.placed (.prefill_batch wid)) := by
  obtain ⟨-, hlast, -⟩ := hc.prefill_ranks hstage
  obtain ⟨hround, hremain, -⟩ := after_prefill_done done
  rw [hlast, decide_eq_true_eq] at hround
  have hle := hs.decode_work_le (c := c)
  unfold Cluster.decoding_work at hle
  rw [hlens] at hle
  unfold Cluster.work
  dsimp only
  rw [hc.decode_head_rank hhead, prefilled_work hround hremain]
  unfold Cluster.decoding_work
  omega

theorem finish_decode_work (hc : c.Wired) (hstage : c.DecodeStage wid) (hs : Decodes created r)
    (hafter : Decodes created (c.after_decode now wid r))
    (heq : c.after_decode now wid r =
      r.decoded now (c.worker wid).is_last_in_pipeline (some (c.worker wid).next_worker)) :
    c.work (c.after_decode now wid r) (.placed (.decode_done wid)) <
      c.work r (.placed (.decode_batch wid)) := by
  obtain ⟨hk, hlast, hnext⟩ := hc.decode_ranks hstage
  have hpos := hc.decode_work_pos hstage r
  unfold Cluster.work
  dsimp only
  rw [hnext]
  by_cases hround : (c.worker wid).pipe_rank + 1 = c.PP_decode
  · -- one token less is to be decoded
    have hcounter : (c.after_decode now wid r).counter = r.counter + 1 := by
      rw [heq, hlast, decide_eq_true hround]
      exact Request.log_event_counter ..
    have hlens : (c.after_decode now wid r).output_lens = r.output_lens := by
      rw [heq]
      exact Request.log_event_output_lens ..
    have hcount := hs.count
    have htokens : r.output_lens - (r.counter + 1).toNat = r.output_lens - r.counter.toNat - 1 := by
      omega
    rw [if_pos hround, hafter.decode_work_first, hcounter, hlens, htokens,
      last_decode_work hround]
    omega
  · have hsame : c.decode_work (c.after_decode now wid r) ((c.worker wid).pipe_rank + 1) =
        c.decode_work r ((c.worker wid).pipe_rank + 1) := by
      rw [heq, hlast, decide_eq_false hround]
      exact log_event_decode_work
    have hwork := decode_work_next (c := c) (r := r) (k := (c.worker wid).pipe_rank) (by omega)
    rw [if_neg hround, hsame]
    omega

/-- Each transition leaves less work. -/
theorem Life.lowers (hc : c.Wired) (hfresh : Fresh created) (h : Life c now r o r' o')
    (hs : Stands c created r o) : c.work r' o' < c.work r o := by
  have hs' := h.stands hc hfresh hs
  cases h with
  | arrive_prefill count head =>
    unfold Cluster.work
    dsimp only
    rw [if_pos (hc.prefill_head_rank head), Request.init, log_event_chunks_work]
    exact Nat.lt_succ_self _
  | @arrive_decode wid count more head =>
    have hle := hs'.2.decode_work_le (c := c)
    have hlens : (((r.init now).wait_decode now (some (wid : Int))).output_lens) =
        r.output_lens := by
      rw [Request.wait_decode, Request.log_event_output_lens, Request.init,
        Request.log_event_output_lens]
    unfold Cluster.decoding_work at hle
    rw [hlens] at hle
    unfold Cluster.work Cluster.chunks_work Cluster.decoding_work
    dsimp only
    rw [hc.decode_head_rank head]
    omega
  | arrive_finished count finish => exact Nat.succ_pos _
  | @cut wid size chunk_id first cuts =>
    have hpos := hc.prefill_work_pos hs.1 (r.cut_chunk size chunk_id)
    have hle : c.prefill_work (r.cut_chunk size chunk_id) 0 ≤ c.chunks_work r := cut_work cuts
    unfold Cluster.work
    dsimp only
    rw [if_pos first]
    rw [first] at hpos ⊢
    omega
  | regroup later =>
    have hpos := hc.prefill_work_pos hs.1 r
    unfold Cluster.work
    dsimp only
    rw [if_neg later]
    omega
  | start_prefill =>
    have hpos := hc.prefill_work_pos hs.1 r
    unfold Cluster.work
    dsimp only
    rw [Request.do_prefill, log_event_prefill_work]
    omega
  | pass_prefill on => exact pass_prefill_work hc hs.1 on
  | exit_prefill done finish =>
    have hpos := hc.prefill_work_pos hs.1 r
    unfold Cluster.work
    dsimp only
    omega
  | stay done more stays =>
    have hhead := hc.stays hs.1 (after_prefill_done done).1 stays
    exact prefill_done_work hc hs.1 hhead done hs'.2
      (hs'.2.output_lens.trans hs.2.output_lens.symm)
  | hand_over done more leaves head =>
    exact prefill_done_work hc hs.1 head done hs'.2
      (hs'.2.output_lens.trans hs.2.output_lens.symm)
  | pick_decode fits =>
    have hpos := hc.decode_work_pos hs.1 r
    unfold Cluster.work
    dsimp only
    omega
  | start_decode =>
    have hpos := hc.decode_work_pos hs.1 r
    unfold Cluster.work
    dsimp only
    rw [Request.do_decode, log_event_decode_work]
    omega
  | finish_decode more =>
    exact finish_decode_work hc hs.1 hs.2 hs'.2 (after_decode_more more)
  | exit_decode finish =>
    have hpos := hc.decode_work_pos hs.1 r
    unfold Cluster.work
    dsimp only
    omega
  | pass_decode => exact Nat.lt_succ_self _

end work

/-! ## The work of many requests -/

namespace Population

variable {c : Cluster} {now : ℚ} {created : Nat → Request} {N n : Nat} {p p' : Population}

/-- The work of the requests that arrive. -/
def work (c : Cluster) (N : Nat) (p : Population) : Nat :=
  ∑ i ∈ Finset.range N, c.work (p.requests i) (p.whereabouts i)

/-- What holds of each request where it is, and the other requests do not arrive. -/
structure Stands (c : Cluster) (created : Nat → Request) (N : Nat) (p : Population) : Prop where
  stands : ∀ i, simdistserve.Stands c (created i) (p.requests i) (p.whereabouts i)
  others : ∀ i, N ≤ i → p.whereabouts i = .pending

theorem Stands.lt (h : Stands c created N p) {i : Nat} (hi : p.whereabouts i ≠ .pending) :
    i < N := by
  by_contra hge
  exact hi (h.others i (not_lt.mp hge))

/-- One transition leaves less work. -/
theorem Step.lowers (hc : c.Wired) (hfresh : ∀ i, Fresh (created i)) (h : p.Step c now N p')
    (hp : Stands c created N p) : Stands c created N p' ∧ p'.work c N < p.work c N := by
  obtain ⟨i, r, o, hlife, hpending, rfl⟩ := h
  have hi : i < N := by
    by_cases ho : p.whereabouts i = .pending
    · exact hpending ho
    · exact hp.lt ho
  constructor
  · constructor
    · intro j
      dsimp only
      by_cases hj : j = i
      · subst hj
        rw [Function.update_self, Function.update_self]
        exact hlife.stands hc (hfresh j) (hp.stands j)
      · rw [Function.update_of_ne hj, Function.update_of_ne hj]
        exact hp.stands j
    · intro j hj
      dsimp only
      rw [Function.update_of_ne (by omega)]
      exact hp.others j hj
  · have hlower := hlife.lowers hc (hfresh i) (hp.stands i)
    have hwork : (fun j => c.work (Function.update p.requests i r j)
        (Function.update p.whereabouts i o j)) =
        Function.update (fun j => c.work (p.requests j) (p.whereabouts j)) i (c.work r o) := by
      funext j
      by_cases hj : j = i
      · subst hj
        rw [Function.update_self, Function.update_self, Function.update_self]
      · rw [Function.update_of_ne hj, Function.update_of_ne hj, Function.update_of_ne hj]
    unfold work
    dsimp only
    rw [hwork, Finset.sum_update_of_mem (Finset.mem_range.mpr hi),
      Finset.sum_eq_add_sum_sdiff_singleton_of_mem (Finset.mem_range.mpr hi)
        fun j => c.work (p.requests j) (p.whereabouts j)]
    omega

theorem Steps.lowers (hc : c.Wired) (hfresh : ∀ i, Fresh (created i)) (h : Steps c now N n p p')
    (hp : Stands c created N p) : Stands c created N p' ∧ p'.work c N + n ≤ p.work c N := by
  induction h with
  | refl => exact ⟨hp, le_rfl⟩
  | tail _ hstep ih =>
    obtain ⟨hmiddle, hle⟩ := ih hp
    obtain ⟨hstands, hlt⟩ := hstep.lowers hc hfresh hmiddle
    exact ⟨hstands, by omega⟩

end Population

end simdistserve
