-- The stages of the pipelines: where a request is in its life, its counter and its lengths
-- agree, whatever counter it was created with.
import RecomputeOrMigrate.SimLife
import RecomputeOrMigrate.Simulator

namespace simdistserve

/-! ## What the workers do with a request -/

section requests

variable {c : Cluster} {now : ℚ} {wid : Nat} {r : Request}

/-- The request at the end of its prefill. -/
def Request.prefilled (r : Request) (now : ℚ) (next_wid : Option Int) : Request :=
  { r with chunk_id := none, current_prefill_lens := 0, counter := 0 }.wait_decode now next_wid

theorem after_prefill_remain :
    (c.after_prefill now wid r).remain_prefill_lens = r.remain_prefill_lens := by
  unfold Cluster.after_prefill Request.finish_prefill Request.exit_system Request.wait_prefill
    Request.wait_decode
  split
  · exact Request.log_event_remain ..
  · dsimp only
    split
    · exact Request.log_event_remain ..
    · split <;> simp [Request.reset_chunked_prefill_metadata]

/-- While the prefill goes on the request only waits. -/
theorem after_prefill_on (h : c.prefills_on wid (c.after_prefill now wid r) = true) :
    ∃ chunk_id size, (size = r.current_prefill_lens ∨ size = 0) ∧ c.after_prefill now wid r =
      { r with chunk_id := chunk_id, current_prefill_lens := size }.wait_prefill now
        (some (c.worker wid).next_worker) := by
  unfold Cluster.prefills_on at h
  rw [after_prefill_remain] at h
  unfold Cluster.after_prefill Request.finish_prefill
  cases hlast : (c.worker wid).is_last_in_pipeline with
  | false => exact ⟨r.chunk_id, r.current_prefill_lens, .inl rfl, rfl⟩
  | true =>
    rw [hlast] at h
    have hremain : r.remain_prefill_lens > 0 := of_decide_eq_true h
    exact ⟨none, 0, .inr rfl, if_pos hremain⟩

theorem after_prefill_done (h : c.prefills_on wid (c.after_prefill now wid r) = false) :
    (c.worker wid).is_last_in_pipeline = true ∧ r.remain_prefill_lens = 0 ∧
      c.after_prefill now wid r =
        if (r.prefilled now (some (c.worker wid).next_worker)).should_finish then
          (r.prefilled now (some (c.worker wid).next_worker)).exit_system now
        else r.prefilled now (some (c.worker wid).next_worker) := by
  unfold Cluster.prefills_on at h
  rw [after_prefill_remain] at h
  unfold Cluster.after_prefill Request.finish_prefill
  cases hlast : (c.worker wid).is_last_in_pipeline with
  | false =>
    rw [hlast] at h
    cases h
  | true =>
    rw [hlast] at h
    have hremain : ¬ r.remain_prefill_lens > 0 := of_decide_eq_false h
    exact ⟨rfl, Nat.eq_zero_of_not_pos hremain, if_neg hremain⟩

/-- The request after a worker decoded a token of it. -/
def Request.decoded (r : Request) (now : ℚ) (last : Bool) (next_wid : Option Int) : Request :=
  { r with counter := if last then r.counter + 1 else r.counter }.wait_decode now next_wid

theorem after_decode_eq : c.after_decode now wid r =
    if (r.decoded now (c.worker wid).is_last_in_pipeline
      (some (c.worker wid).next_worker)).should_finish then
      (r.decoded now (c.worker wid).is_last_in_pipeline
        (some (c.worker wid).next_worker)).exit_system now
    else r.decoded now (c.worker wid).is_last_in_pipeline (some (c.worker wid).next_worker) := by
  unfold Cluster.after_decode Request.finish_decode Request.decoded
  cases (c.worker wid).is_last_in_pipeline <;> rfl

/-- A request that is not finished has not logged its exit. -/
theorem after_prefill_more (done : c.prefills_on wid (c.after_prefill now wid r) = false)
    (more : (c.after_prefill now wid r).should_finish = false) :
    c.after_prefill now wid r = r.prefilled now (some (c.worker wid).next_worker) := by
  obtain ⟨-, -, heq⟩ := after_prefill_done done
  rw [heq] at more ⊢
  split at more
  · next hfinish =>
    rw [Request.exit_system_should_finish, hfinish] at more
    cases more
  · next hmore => exact if_neg hmore

theorem after_decode_more (more : (c.after_decode now wid r).should_finish = false) :
    c.after_decode now wid r =
      r.decoded now (c.worker wid).is_last_in_pipeline (some (c.worker wid).next_worker) := by
  rw [after_decode_eq] at more ⊢
  split at more
  · next hfinish =>
    rw [Request.exit_system_should_finish, hfinish] at more
    cases more
  · next hmore => exact if_neg hmore

end requests

/-! ## Stages -/

namespace Cluster

def PrefillStage (c : Cluster) (wid : Nat) : Prop :=
  ∃ first ∈ c.prefill_heads, ∃ k < c.PP_prefill, wid = first + k

def DecodeStage (c : Cluster) (wid : Nat) : Prop :=
  ∃ first ∈ c.decode_heads, ∃ k < c.PP_decode, wid = first + k

end Cluster

section stages

variable {c : Cluster} {wid first PP k : Nat}

/-- The next worker of a pipeline is in the pipeline. -/
theorem Pipeline.next_stage (h : Pipeline c first PP) (hk : k < PP) :
    ∃ k' < PP, (c.worker (first + k)).next_worker = first + k' := by
  rw [h.next k hk]
  split
  · exact ⟨0, h.pos, rfl⟩
  · exact ⟨k + 1, by omega, rfl⟩

theorem Cluster.Wired.prefill_head (hc : c.Wired) (h : wid ∈ c.prefill_heads) :
    c.PrefillStage wid :=
  ⟨wid, h, 0, (hc.prefill wid h).1.pos, rfl⟩

theorem Cluster.Wired.decode_head (hc : c.Wired) (h : wid ∈ c.decode_heads) :
    c.DecodeStage wid :=
  ⟨wid, h, 0, (hc.decode wid h).1.pos, rfl⟩

theorem Cluster.Wired.prefill_worker (hc : c.Wired) (h : c.PrefillStage wid) :
    wid ∈ c.all_workers.map (·.wid) := by
  obtain ⟨first, hf, k, hk, rfl⟩ := h
  exact (hc.prefill first hf).1.started k hk

theorem Cluster.Wired.decode_worker (hc : c.Wired) (h : c.DecodeStage wid) :
    wid ∈ c.all_workers.map (·.wid) := by
  obtain ⟨first, hf, k, hk, rfl⟩ := h
  exact (hc.decode first hf).1.started k hk

theorem Cluster.Wired.prefill_next (hc : c.Wired) (h : c.PrefillStage wid) :
    c.PrefillStage (c.worker wid).next_worker := by
  obtain ⟨first, hf, k, hk, rfl⟩ := h
  obtain ⟨k', hk', hnext⟩ := (hc.prefill first hf).1.next_stage hk
  exact ⟨first, hf, k', hk', hnext⟩

theorem Cluster.Wired.decode_next (hc : c.Wired) (h : c.DecodeStage wid) :
    c.DecodeStage (c.worker wid).next_worker := by
  obtain ⟨first, hf, k, hk, rfl⟩ := h
  obtain ⟨k', hk', hnext⟩ := (hc.decode first hf).1.next_stage hk
  exact ⟨first, hf, k', hk', hnext⟩

/-- The last worker of a prefill instance is followed by its first one. -/
theorem Cluster.Wired.last_stage (hc : c.Wired) (h : c.PrefillStage wid)
    (hlast : (c.worker wid).is_last_in_pipeline = true) :
    ∃ first ∈ c.prefill_heads, wid = first + (c.PP_prefill - 1) ∧
      (c.worker wid).next_worker = first := by
  obtain ⟨first, hf, k, hk, rfl⟩ := h
  have hpipe := (hc.prefill first hf).1
  rw [hpipe.last k hk, decide_eq_true_eq] at hlast
  refine ⟨first, hf, by omega, ?_⟩
  rw [hpipe.next k hk, if_pos hlast]

/-- A prefill that comes back to the first worker has something left. -/
theorem Cluster.Wired.remains {now : ℚ} {r : Request} (hc : c.Wired) (h : c.PrefillStage wid)
    (on : c.prefills_on wid (c.after_prefill now wid r) = true)
    (hfirst : (c.worker (c.worker wid).next_worker).pipe_rank = 0) :
    0 < r.remain_prefill_lens := by
  obtain ⟨first, hf, k, hk, rfl⟩ := h
  have hpipe := (hc.prefill first hf).1
  unfold Cluster.prefills_on at on
  rw [after_prefill_remain, hpipe.last k hk] at on
  by_cases hlast : k + 1 = c.PP_prefill
  · simpa [hlast] using on
  · -- the next worker is not a first one
    rw [hpipe.next k hk, if_neg hlast, Nat.add_assoc, hpipe.rank (k + 1) (by omega)] at hfirst
    cases hfirst

/-- A request that stays after its prefill is at the head of an instance that decodes. -/
theorem Cluster.Wired.stays (hc : c.Wired) (h : c.PrefillStage wid)
    (hlast : (c.worker wid).is_last_in_pipeline = true)
    (hstay : (c.worker wid).should_request_stay = true) :
    (c.worker wid).next_worker ∈ c.decode_heads := by
  obtain ⟨first, hf, hwid, hnext⟩ := hc.last_stage h hlast
  rw [hnext]
  exact hc.stay first hf (hwid ▸ hstay)

end stages

/-! ## The counter and the lengths -/

/-- A request as it is created. -/
structure Fresh (created : Request) : Prop where
  log : created.log = []
  running : created.terminated = false
  remain : created.remain_prefill_lens = created.prefill_lens
  current : created.current_prefill_lens = 0
  chunks : created.chunks = []

theorem created_fresh (workload : Workload) (i : Nat) : Fresh (created workload i) := by
  unfold created
  split <;> exact ⟨rfl, rfl, rfl, rfl, rfl⟩

theorem created_eq {workload : Workload} {i : Nat} {a : Arrival} (h : workload[i]? = some a) :
    created workload i = Request.create a.req_init_counter a.prefill_length a.output_lens := by
  unfold created
  rw [h]

/-- The request has not logged its exit, and its lengths are those that it was created with. -/
structure Running (created r : Request) : Prop where
  running : r.terminated = false
  prefill_lens : r.prefill_lens = created.prefill_lens
  output_lens : r.output_lens = created.output_lens

/-- The request is not prefilled yet. -/
structure Prefills (created r : Request) : Prop extends Running created r where
  starts : created.counter < 0
  count : r.counter = created.counter
  remain : r.remain_prefill_lens ≤ created.prefill_lens
  current : r.current_prefill_lens ≤ created.prefill_lens

/-- The request has more tokens to decode. -/
structure Decodes (created r : Request) : Prop extends Running created r where
  starts : created.counter ≤ r.counter
  count : 0 ≤ r.counter
  more : r.counter < created.output_lens

/-- What holds of a request where it is. -/
def Stands (c : Cluster) (created r : Request) : Where → Prop
  | .pending => r = created
  | .placed (.prefill_queue wid) => c.PrefillStage wid ∧ Prefills created r ∧
      ((c.worker wid).pipe_rank = 0 →
        r.remain_prefill_lens = created.prefill_lens ∨ 0 < r.remain_prefill_lens)
  | .placed (.prefill_picked wid) => c.PrefillStage wid ∧ Prefills created r
  | .placed (.prefill_batch wid) => c.PrefillStage wid ∧ Prefills created r
  | .placed (.decode_queue wid) => c.DecodeStage wid ∧ Decodes created r
  | .placed (.decode_picked wid) => c.DecodeStage wid ∧ Decodes created r
  | .placed (.decode_batch wid) => c.DecodeStage wid ∧ Decodes created r
  | .placed (.decode_done wid) => c.DecodeStage wid ∧ Decodes created r
  | .gone => r.terminated = true ∧ r.Exited

section requests

variable {created r : Request} {now : ℚ} {event : RequestEvent} {wid : Option Int}

theorem Running.log_event (h : Running created r) :
    Running created (r.log_event now event wid) := by
  refine ⟨?_, ?_, ?_⟩
  · rw [Request.log_event_terminated, h.running]
  · rw [Request.log_event_prefill_lens, h.prefill_lens]
  · rw [Request.log_event_output_lens, h.output_lens]

theorem Prefills.log_event (h : Prefills created r) :
    Prefills created (r.log_event now event wid) := by
  refine ⟨h.toRunning.log_event, h.starts, ?_, ?_, ?_⟩
  · rw [Request.log_event_counter]
    exact h.count
  · rw [Request.log_event_remain]
    exact h.remain
  · rw [Request.log_event_current]
    exact h.current

theorem Decodes.log_event (h : Decodes created r) :
    Decodes created (r.log_event now event wid) := by
  refine ⟨h.toRunning.log_event, ?_, ?_, ?_⟩
  · rw [Request.log_event_counter]
    exact h.starts
  · rw [Request.log_event_counter]
    exact h.count
  · rw [Request.log_event_counter]
    exact h.more

/-- What is not finished has more to decode. -/
theorem Running.decodes (h : Running created r) (starts : created.counter ≤ r.counter)
    (count : 0 ≤ r.counter) (more : r.should_finish = false) : Decodes created r := by
  refine ⟨h, starts, count, ?_⟩
  unfold Request.should_finish at more
  rw [decide_eq_false_iff_not, not_le, h.output_lens] at more
  exact more

theorem exit_system_exited (h : r.terminated = false) :
    (r.exit_system now).terminated = true ∧ (r.exit_system now).Exited := by
  refine ⟨rfl, ⟨now, .exit_system, some (-1)⟩, ?_, rfl⟩
  unfold Request.exit_system Request.log_event
  rw [h]
  exact List.mem_append_right _ (List.mem_singleton.mpr rfl)

theorem Stands.running {c : Cluster} {p : Place} (h : Stands c created r (.placed p)) :
    r.terminated = false := by
  cases p with
  | prefill_queue wid => exact h.2.1.running
  | prefill_picked wid => exact h.2.running
  | prefill_batch wid => exact h.2.running
  | decode_queue wid => exact h.2.running
  | decode_picked wid => exact h.2.running
  | decode_batch wid => exact h.2.running
  | decode_done wid => exact h.2.running

end requests

/-! ## One transition -/

section lives

variable {c : Cluster} {now : ℚ} {created r r' : Request} {o o' : Where} {wid : Nat}

theorem Prefills.cut_chunk {size chunk_id : Nat} (h : Prefills created r)
    (cuts : Cuts c.config r size) : Prefills created (r.cut_chunk size chunk_id) := by
  refine ⟨⟨h.running, h.prefill_lens, h.output_lens⟩, h.starts, h.count, ?_, ?_⟩
  · exact (Nat.sub_le _ _).trans h.remain
  · exact cuts.1.trans h.remain

theorem Prefills.after_prefill_on (h : Prefills created r)
    (on : c.prefills_on wid (c.after_prefill now wid r) = true) :
    Prefills created (c.after_prefill now wid r) := by
  obtain ⟨chunk_id, size, hsize, heq⟩ := simdistserve.after_prefill_on on
  rw [heq]
  apply Prefills.log_event
  refine ⟨⟨h.running, h.prefill_lens, h.output_lens⟩, h.starts, h.count, h.remain, ?_⟩
  dsimp only
  rcases hsize with rfl | rfl
  · exact h.current
  · exact Nat.zero_le _

theorem Prefills.prefilled (h : Prefills created r) (now : ℚ) (next_wid : Option Int) :
    Running created (r.prefilled now next_wid) ∧ (r.prefilled now next_wid).counter = 0 := by
  constructor
  · apply Running.log_event
    exact ⟨h.running, h.prefill_lens, h.output_lens⟩
  · exact Request.log_event_counter ..

/-- After the last prefill the request exits or has more to decode. -/
theorem Prefills.after_prefill_done (h : Prefills created r)
    (done : c.prefills_on wid (c.after_prefill now wid r) = false) :
    if (c.after_prefill now wid r).should_finish then
      (c.after_prefill now wid r).terminated = true ∧ (c.after_prefill now wid r).Exited
    else Decodes created (c.after_prefill now wid r) := by
  obtain ⟨-, -, heq⟩ := simdistserve.after_prefill_done done
  obtain ⟨hrunning, hcount⟩ := h.prefilled now (some ((c.worker wid).next_worker : Int))
  rw [heq]
  split
  · next hfinish =>
    rw [if_pos (by rw [Request.exit_system_should_finish]; exact hfinish)]
    exact exit_system_exited hrunning.running
  · next hmore =>
    exact hrunning.decodes (h.starts.le.trans hcount.ge) hcount.ge (Bool.eq_false_iff.mpr hmore)

variable (c now wid) in
theorem Decodes.after_decode (h : Decodes created r) :
    if (c.after_decode now wid r).should_finish then
      (c.after_decode now wid r).terminated = true ∧ (c.after_decode now wid r).Exited
    else Decodes created (c.after_decode now wid r) := by
  have hrunning : Running created (r.decoded now (c.worker wid).is_last_in_pipeline
      (some (c.worker wid).next_worker)) := by
    apply Running.log_event
    exact ⟨h.running, h.prefill_lens, h.output_lens⟩
  have hcount : r.counter ≤ (r.decoded now (c.worker wid).is_last_in_pipeline
      (some (c.worker wid).next_worker)).counter := by
    unfold Request.decoded Request.wait_decode
    rw [Request.log_event_counter]
    dsimp only
    split <;> omega
  rw [after_decode_eq]
  split
  · next hfinish =>
    rw [if_pos (by rw [Request.exit_system_should_finish]; exact hfinish)]
    exact exit_system_exited hrunning.running
  · next hmore =>
    exact hrunning.decodes (h.starts.trans hcount) (h.count.trans hcount)
      (Bool.eq_false_iff.mpr hmore)

/-- A transition keeps what holds of a request where it is. -/
theorem Life.stands (hc : c.Wired) (hfresh : Fresh created) (h : Life c now r o r' o')
    (hs : Stands c created r o) : Stands c created r' o' := by
  cases h with
  | arrive_prefill count head =>
    cases hs
    have hprefills : Prefills created created :=
      ⟨⟨hfresh.running, rfl, rfl⟩, count, rfl, hfresh.remain.le,
        hfresh.current.le.trans (Nat.zero_le _)⟩
    refine ⟨hc.prefill_head head, hprefills.log_event, fun _ => .inl ?_⟩
    rw [Request.init, Request.log_event_remain, hfresh.remain]
  | arrive_decode count more head =>
    cases hs
    have hrunning : Running created created := ⟨hfresh.running, rfl, rfl⟩
    exact ⟨hc.decode_head head, (hrunning.decodes le_rfl count more).log_event.log_event⟩
  | arrive_finished count finish =>
    cases hs
    have hrunning : ((created.init now).wait_decode now none).terminated = false := by
      rw [Request.wait_decode, Request.log_event_terminated, Request.init,
        Request.log_event_terminated, hfresh.running]
    have hfinish : ((created.init now).wait_decode now none).should_finish = true := by
      rw [Request.wait_decode, Request.log_event_should_finish, Request.init,
        Request.log_event_should_finish, finish]
    have heq : (created.init now).finish_decode now false none =
        ((created.init now).wait_decode now none).exit_system now := if_pos hfinish
    rw [heq]
    exact exit_system_exited hrunning
  | cut first cuts => exact ⟨hs.1, hs.2.1.cut_chunk cuts⟩
  | regroup later => exact ⟨hs.1, hs.2.1⟩
  | start_prefill => exact ⟨hs.1, hs.2.log_event⟩
  | pass_prefill on =>
    obtain ⟨hstage, hprefills⟩ := hs
    refine ⟨hc.prefill_next hstage, hprefills.after_prefill_on on, ?_⟩
    intro hfirst
    rw [after_prefill_remain]
    exact .inr (hc.remains hstage on hfirst)
  | exit_prefill done finish =>
    have hafter := hs.2.after_prefill_done done
    rw [if_pos finish] at hafter
    exact hafter
  | stay done more stays =>
    have hafter := hs.2.after_prefill_done done
    rw [if_neg (Bool.eq_false_iff.mp more)] at hafter
    exact ⟨hc.decode_head (hc.stays hs.1 (after_prefill_done done).1 stays), hafter⟩
  | hand_over done more leaves head =>
    have hafter := hs.2.after_prefill_done done
    rw [if_neg (Bool.eq_false_iff.mp more)] at hafter
    exact ⟨hc.decode_head head, hafter.log_event⟩
  | pick_decode fits => exact hs
  | start_decode => exact ⟨hs.1, hs.2.log_event⟩
  | @finish_decode wid more =>
    have hafter := hs.2.after_decode c now wid
    rw [if_neg (Bool.eq_false_iff.mp more)] at hafter
    exact ⟨hs.1, hafter⟩
  | @exit_decode wid finish =>
    have hafter := hs.2.after_decode c now wid
    rw [if_pos finish] at hafter
    exact hafter
  | pass_decode => exact ⟨hc.decode_next hs.1, hs.2⟩

theorem Lives.stands {t : ℚ} (hc : c.Wired) (hfresh : Fresh created)
    (h : Lives c created t r o) : Stands c created r o := by
  induction h with
  | start => exact rfl
  | wait _ _ ih => exact ih
  | step _ hlife ih => exact hlife.stands hc hfresh ih

end lives

end simdistserve
