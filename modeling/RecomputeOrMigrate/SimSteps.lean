-- One event of the simulated run. The process that it resumes runs to its next event, and
-- what it does are transitions of the lives of the requests.
import RecomputeOrMigrate.SimBatches

open calls places

namespace simdistserve

namespace Sim

variable {c : Cluster} {N k i wid : Nat} {s s' s1 : Sim} {B B' : Batches} {b b' : Batch}

/-! ## The process of a worker -/

/-- The worker took a request with the iteration that it started, or it started none. -/
def Takes (s : Sim) (wid : Nat) : Prop :=
  match (s.workers wid).status with
  | .prefilling prefill_items _ => prefill_items ≠ []
  | .decoding decode_reqs => decode_reqs ≠ []
  | _ => True

/-- The process of a worker, which holds `b`, runs from `s` to its next event. -/
structure Settles (c : Cluster) (wid : Nat) (s : Sim) (b : Batch) (s' : Sim) : Prop where
  now : s'.now = s.now
  awake : (∀ v, v ≠ wid → s.Awake c v) → ∀ v, s'.Awake c v
  timely : s.Timely → s'.Timely
  arrivals : ∀ i, s'.arrivals i = s.arrivals i
  moves : ∀ whereabouts, s.LocatedAt (Function.update s.batches wid b) whereabouts →
    ∃ n whereabouts',
      Population.Steps c s.now 0 n (s.population whereabouts) (s'.population whereabouts') ∧
      s'.LocatedAt s'.batches whereabouts' ∧
      (s'.Takes wid → s'.weight ≤ s.weight + n)

theorem Frame.batches (h : Frame c (some wid) s s') : s'.batches = s.batches := by
  funext v
  exact congrArg Status.batch (h.status v)

/-- A part of the process before the rest of it. -/
theorem Follows.settles
    (h : Follows c 0 (some wid) 0 s (Function.update s.batches wid b) s1
      (Function.update s.batches wid b'))
    (hs : Settles c wid s1 b' s') : Settles c wid s b s' := by
  refine ⟨hs.now.trans h.frame.now, ?_, fun ht => hs.timely (h.frame.timely ht),
    fun i => (hs.arrivals i).trans (h.frame.arrivals i), ?_⟩
  · intro hawake
    apply hs.awake
    intro v hv
    exact h.frame.awake v (fun hc => hv (Option.some.inj hc).symm) (hawake v hv)
  · intro whereabouts hloc
    obtain ⟨n, whereabouts1, hsteps, hloc1, hlen⟩ := h.moves whereabouts hloc
    rw [← h.frame.batches] at hloc1
    obtain ⟨m, whereabouts', hsteps', hloc', hlen'⟩ := hs.moves whereabouts1 hloc1
    rw [h.frame.now] at hsteps'
    refine ⟨n + m, whereabouts', hsteps.trans hsteps', hloc', ?_⟩
    intro htakes
    have := hlen' htakes
    omega

/-- The status of a worker becomes `status`, and its queues stay. -/
structure SetsStatus (status : Status) (w w' : WorkerState) : Prop where
  status : w'.status = status
  wakeup_event : w'.wakeup_event = w.wakeup_event
  prefill_queue : w'.prefill_queue = w.prefill_queue
  decode_queue : w'.decode_queue = w.decode_queue

theorem SetsStatus.contents {g : WorkerState → WorkerState} {status : Status}
    (hg : SetsStatus status (s.workers wid) (g (s.workers wid))) :
    (s.modify_worker wid g).contents (s.modify_worker wid g).batches =
      s.contents (Function.update s.batches wid status.batch) := by
  have hbatches : (s.modify_worker wid g).batches =
      Function.update s.batches wid status.batch := by
    funext v
    unfold batches
    rw [modify_worker_workers]
    by_cases hv : v = wid
    · subst hv
      rw [Function.update_self, Function.update_self, hg.status]
    · rw [Function.update_of_ne hv, Function.update_of_ne hv]
  rw [hbatches]
  have hqueues : ∀ v, ((s.modify_worker wid g).workers v).prefill_queue =
      (s.workers v).prefill_queue ∧
      ((s.modify_worker wid g).workers v).decode_queue = (s.workers v).decode_queue := by
    intro v
    rw [modify_worker_workers]
    by_cases hv : v = wid
    · subst hv
      rw [Function.update_self]
      exact ⟨hg.prefill_queue, hg.decode_queue⟩
    · rw [Function.update_of_ne hv]
      exact ⟨rfl, rfl⟩
  funext p
  cases p with
  | prefill_queue v => exact (hqueues v).1
  | decode_queue v => exact (hqueues v).2
  | prefill_picked v => rfl
  | prefill_batch v => rfl
  | decode_picked v => rfl
  | decode_batch v => rfl
  | decode_done v => rfl

theorem awake_others (g : WorkerState → WorkerState) {v : Nat} (hv : v ≠ wid)
    (h : s.Awake c v) : (s.modify_worker wid g).Awake c v := by
  apply h.more
  · rw [modify_worker_workers, Function.update_of_ne hv]
  · exact fun _ h => h

/-- The status of a worker in an iteration, with at most `k` requests of its own kind. -/
def Status.Runs (status : Status) (k : Nat) : Prop :=
  (∃ prefill_items decode_reqs, status = .prefilling prefill_items decode_reqs ∧
    prefill_items.length ≤ k) ∨
  ∃ decode_reqs, status = .decoding decode_reqs ∧ decode_reqs.length ≤ k

theorem awake_iff_of_runs {status : Status} (hruns : Status.Runs status k)
    (hst : (s.workers wid).status = status) : s.Awake c wid ↔ .iteration wid ∈ s.actions := by
  unfold Awake
  rw [hst]
  rcases hruns with ⟨items, reqs, rfl, -⟩ | ⟨reqs, rfl, -⟩
  · exact Iff.rfl
  · exact Iff.rfl

theorem Takes.pos {status : Status} (hruns : Status.Runs status k)
    (hst : (s.workers wid).status = status) (h : s.Takes wid) : 0 < k := by
  unfold Takes at h
  rw [hst] at h
  rcases hruns with ⟨items, reqs, rfl, hle⟩ | ⟨reqs, rfl, hle⟩
  · exact (List.length_pos_of_ne_nil h).trans_le hle
  · exact (List.length_pos_of_ne_nil h).trans_le hle

/-- An iteration starts with the batch that the worker holds. -/
theorem iteration_settles (status : Status) {g : WorkerState → WorkerState} {delay : ℚ}
    (h : Follows c 0 (some wid) k s (Function.update s.batches wid .empty) s1
      (Function.update s.batches wid status.batch))
    (hg : SetsStatus status (s1.workers wid) (g (s1.workers wid)))
    (hruns : Status.Runs status k)
    (hs' : (s1.modify_worker wid g).timeout (.iteration wid) delay = .ok s') :
    Settles c wid s .empty s' := by
  unfold timeout at hs'
  split at hs'
  · cases hs'
  · next hdelay =>
    cases hs'
    have hstatus : ((s1.modify_worker wid g).workers wid).status = status := by
      rw [modify_worker_workers, Function.update_self]
      exact hg.status
    refine ⟨h.frame.now, ?_, ?_, ?_, ?_⟩
    · intro hawake v
      by_cases hv : v = wid
      · subst hv
        refine (awake_iff_of_runs hruns ?_).mpr ?_
        · exact hstatus
        · exact (mem_schedule_actions ..).mpr (.inl rfl)
      · have hthere := h.frame.awake v (fun hc => hv (Option.some.inj hc).symm) (hawake v hv)
        refine Awake.more (awake_others g hv hthere) ?_ ?_
        · rfl
        · exact fun a ha => (mem_schedule_actions ..).mpr (.inr ha)
    · intro ht
      have hmiddle := (h.frame.timely ht).modify_worker wid g hg.wakeup_event.ge
      exact hmiddle.schedule _ _ (not_lt.mp hdelay) nofun
    · intro i
      have hsame := schedule_arrivals (s1.modify_worker wid g) i (.iteration wid) 1 delay nofun
        nofun
      exact hsame.trans (h.frame.arrivals i)
    · intro whereabouts hloc
      obtain ⟨n, whereabouts', hsteps, hloc', hlen⟩ := h.moves whereabouts hloc
      refine ⟨n, whereabouts', hsteps, ?_, ?_⟩
      · rw [← h.frame.batches] at hloc'
        have hcontents := hg.contents (s := s1)
        unfold LocatedAt at hloc' ⊢
        rw [← hcontents] at hloc'
        exact hloc'
      · intro htakes
        have hpos := Takes.pos hruns hstatus htakes
        rw [schedule_weight]
        change s1.weight + 1 ≤ _
        omega

theorem do_prefill_settles (h : do_prefill c s wid = .ok s') : Settles c wid s .empty s' := by
  unfold do_prefill at h
  have henter := enter_prefill_follows c 0 wid s s.batches
  generalize enter_prefill c s wid = entered at h henter
  obtain ⟨items, s1⟩ := entered
  dsimp only at h henter
  split at h
  · have hdecode := henter.trans (enter_decodes_follows c 0 wid s1 s.batches
      (b := { Batch.empty with items := items }) (c.config.max_prefill_tokens -
        (items.map fun i => (s1.requests i).current_prefill_lens).sum) rfl rfl)
    generalize enter_decodes s1 wid (c.config.max_prefill_tokens -
      (items.map fun i => (s1.requests i).current_prefill_lens).sum) = entered at h hdecode
    obtain ⟨reqs, s2⟩ := entered
    obtain ⟨delay, -, h⟩ := bind_eq_ok.mp h
    refine iteration_settles (.prefilling items reqs) hdecode ?_ ?_ h
    · exact ⟨rfl, rfl, rfl, rfl⟩
    · exact .inl ⟨items, reqs, rfl, Nat.le_add_right _ _⟩
  · obtain ⟨delay, -, h⟩ := bind_eq_ok.mp h
    refine iteration_settles (.prefilling items []) henter ?_ ?_ h
    · exact ⟨rfl, rfl, rfl, rfl⟩
    · exact .inl ⟨items, [], rfl, le_rfl⟩

theorem do_decode_settles (h : do_decode c s wid = .ok s') : Settles c wid s .empty s' := by
  unfold do_decode at h
  have henter := enter_decodes_follows c 0 wid s s.batches (b := .empty)
    c.config.max_decode_tokens rfl rfl
  generalize enter_decodes s wid c.config.max_decode_tokens = entered at h henter
  obtain ⟨reqs, s1⟩ := entered
  dsimp only at h henter
  obtain ⟨delay, -, h⟩ := bind_eq_ok.mp h
  refine iteration_settles (.decoding reqs) henter ?_ ?_ h
  · exact ⟨rfl, rfl, rfl, rfl⟩
  · exact .inr ⟨reqs, rfl, le_rfl⟩

theorem run_iteration_settles (h : run_iteration c s wid = .ok s') :
    Settles c wid s .empty s' := by
  unfold run_iteration at h
  split at h
  · exact do_prefill_settles h
  · exact do_decode_settles h

theorem run_loop_settles (h : run_loop c s wid = .ok s') : Settles c wid s .empty s' := by
  unfold run_loop at h
  split at h
  · next hempty =>
    cases h
    have hg : SetsStatus (.suspended (s.workers wid).wakeup_event) (s.workers wid)
        { s.workers wid with status := .suspended (s.workers wid).wakeup_event } :=
      ⟨rfl, rfl, rfl, rfl⟩
    refine ⟨rfl, ?_, fun ht => ht.modify_worker wid _ le_rfl, fun _ => rfl, ?_⟩
    · intro hawake v
      by_cases hv : v = wid
      · subst hv
        unfold Awake
        rw [modify_worker_workers, Function.update_self]
        exact .inl ⟨rfl, hempty⟩
      · exact awake_others _ hv (hawake v hv)
    · intro whereabouts hloc
      refine ⟨0, whereabouts, .refl _, ?_, fun _ => le_rfl⟩
      unfold LocatedAt
      rw [hg.contents (g := fun w => { w with status := .suspended w.wakeup_event })]
      exact hloc
  · exact run_iteration_settles h

variable (c N wid s B) in
/-- The prefills in progress are over. -/
theorem no_prefill_ips_follows : Follows c N (some wid) 0 s B
    (s.modify_worker wid fun w => { w with prefill_ips := 0 }) B := by
  refine .of_same (frame_modify_worker wid (fun _ => rfl) fun _ => rfl) ?_ rfl rfl
  funext p
  cases p <;> simp [contents, Function.update_apply] <;> split <;> simp_all

theorem finish_iteration_settles (hruns : ∃ k, Status.Runs (s.workers wid).status k)
    (hnd : (s.batches wid).decode_reqs.Nodup) (h : finish_iteration c s wid = .ok s') :
    Settles c wid s (s.batches wid) s' := by
  unfold finish_iteration at h
  unfold batches at hnd ⊢
  obtain ⟨k, ⟨items, reqs, hst, -⟩ | ⟨reqs, hst, -⟩⟩ := hruns
  · rw [hst] at h hnd ⊢
    obtain ⟨s1, hexit, hloop⟩ := bind_eq_ok.mp h
    have hprefill := (no_prefill_ips_follows c 0 wid s _).trans_zero
      (exit_prefill_follows 0 (some wid) s.batches (b := ⟨[], items, [], reqs, []⟩) rfl hexit)
    have hdecode := exit_decode_follows c 0 wid (some wid) s1 s.batches
      (b := ⟨[], [], [], reqs, []⟩) rfl rfl hnd
    exact (hprefill.trans_zero hdecode).settles (run_loop_settles hloop)
  · rw [hst] at h hnd ⊢
    have hdecode := exit_decode_follows c 0 wid (some wid) s s.batches
      (b := ⟨[], [], [], reqs, []⟩) rfl rfl hnd
    exact hdecode.settles (run_loop_settles h)

end Sim

end simdistserve
