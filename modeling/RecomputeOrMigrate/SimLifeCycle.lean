-- The life cycle of a simulated request: its log when it is terminated, and the latencies
-- that are computed from the log.
import RecomputeOrMigrate.SimLogs
import RecomputeOrMigrate.SimRuns

open calls rounds

namespace simdistserve

/-! ## The data frame of a log -/

section latencies

variable {t : ℚ} {log : List LogEntry} {e : LogEntry} {event : RequestEvent}

/-- Each event has a row, in order. -/
theorem df_starts (log : List LogEntry) :
    (transform_request_log_to_df log).map (fun row => (row.start_time, row.event_type)) =
      log.map fun e => (e.time, e.event) := by
  fun_induction transform_request_log_to_df log with
  | case1 => rfl
  | case2 e => rfl
  | case3 e e' rest ih => rw [List.map_cons, List.map_cons, ih]

theorem rows_of_starts (log : List LogEntry) (event : RequestEvent) :
    (rows_of (transform_request_log_to_df log) event).map (·.start_time) =
      (log.filter (·.event = event)).map (·.time) := by
  have hpairs := congrArg (fun pairs => (pairs.filter (fun pair => pair.2 = event)).map Prod.fst)
    (df_starts log)
  simp only [List.filter_map, List.map_map] at hpairs
  exact hpairs

/-- The last event ends when it starts. -/
theorem df_last (before : List LogEntry) (e : LogEntry) :
    ∃ rows, transform_request_log_to_df (before ++ [e]) = rows ++ [⟨e.time, e.time, e.event⟩] ∧
      rows.map (·.event_type) = before.map (·.event) := by
  induction before with
  | nil => exact ⟨[], rfl, rfl⟩
  | cons head rest ih =>
    obtain ⟨rows, hrows, htypes⟩ := ih
    cases rest with
    | nil => exact ⟨[⟨head.time, e.time, head.event⟩], rfl, rfl⟩
    | cons second rest =>
      refine ⟨⟨head.time, second.time, head.event⟩ :: rows, ?_, ?_⟩
      · exact congrArg (⟨head.time, second.time, head.event⟩ :: ·) hrows
      · rw [List.map_cons, List.map_cons, htypes]

theorem Ended.sorted (h : Ended t log) : log.Pairwise fun e e' => e.time ≤ e'.time := by
  obtain ⟨before, e, rfl, -, hgoing, -⟩ := h
  exact hgoing.sorted_append rfl

/-- The first event is the only one of its kind. -/
theorem Ended.starts (h : Ended t log) :
    ∃ e rest, log = e :: rest ∧ e.event = .init ∧ ∀ e' ∈ rest, e'.event ≠ .init := by
  obtain ⟨before, last, rfl, hlast, hgoing, -⟩ := h
  obtain ⟨e, rest, rfl, he, hrest⟩ := hgoing.starts
  refine ⟨e, rest ++ [last], rfl, he, ?_⟩
  intro e' he'
  rcases List.mem_append.mp he' with hmem | hmem
  · exact hrest e' hmem
  · rw [List.mem_singleton.mp hmem, hlast]
    exact nofun

/-- The last event is the only one of its kind. -/
theorem Ended.ends (h : Ended t log) :
    ∃ rest e, log = rest ++ [e] ∧ e.event = .exit_system ∧
      ∀ e' ∈ rest, e'.event ≠ .exit_system := by
  obtain ⟨before, e, hlog, he, hgoing, -⟩ := h
  exact ⟨before, e, hlog, he, hgoing.going⟩

theorem Ended.first_event (h : Ended t log) :
    ∃ time, first_event (transform_request_log_to_df log) = some time ∧
      ∀ e ∈ log, time ≤ e.time := by
  have hsorted := h.sorted
  obtain ⟨e, rest, rfl, he, hrest⟩ := h.starts
  refine ⟨e.time, ?_, ?_⟩
  · have hfilter : rest.filter (·.event = .init) = [] := by
      rw [List.filter_eq_nil_iff]
      intro e' he'
      simpa using hrest e' he'
    unfold simdistserve.first_event
    rw [rows_of_starts, List.filter_cons_of_pos (by simpa using he), hfilter]
    rfl
  · intro e' he'
    rcases List.mem_cons.mp he' with rfl | hmem
    · exact le_rfl
    · exact List.rel_of_pairwise_cons hsorted hmem

theorem Ended.last_event (h : Ended t log) :
    ∃ time, last_event (transform_request_log_to_df log) = some time ∧
      ∀ e ∈ log, e.time ≤ time := by
  obtain ⟨before, e, rfl, he, hgoing, -⟩ := h
  refine ⟨e.time, ?_, ?_⟩
  · obtain ⟨rows, hrows, htypes⟩ := df_last before e
    have hfilter : rows.filter (·.event_type = .exit_system) = [] := by
      rw [List.filter_eq_nil_iff]
      intro row hrow
      have hmem : row.event_type ∈ before.map (·.event) := htypes ▸ List.mem_map_of_mem hrow
      obtain ⟨e', he', heq⟩ := List.mem_map.mp hmem
      rw [← heq]
      simpa using hgoing.going e' he'
    unfold simdistserve.last_event rows_of
    rw [hrows, List.filter_append, hfilter, he]
    rfl
  · intro e' he'
    rcases List.mem_append.mp he' with hmem | hmem
    · exact hgoing.past e' hmem
    · rw [List.mem_singleton.mp hmem]

/-- The first event that waits for a decoding is one of the log. -/
theorem first_wait_decode_mem (he : e ∈ log) (hevent : e.event = .wait_decode) :
    ∃ e' ∈ log, first_wait_decode (transform_request_log_to_df log) = some e'.time := by
  unfold first_wait_decode
  rw [rows_of_starts]
  have hmem : e.time ∈ (log.filter (·.event = .wait_decode)).map (·.time) :=
    List.mem_map_of_mem (List.mem_filter.mpr ⟨he, decide_eq_true hevent⟩)
  obtain ⟨time, htime⟩ := Option.isSome_iff_exists.mp (List.isSome_min?_of_mem hmem)
  obtain ⟨e', he', rfl⟩ := List.mem_map.mp (List.min?_mem htime)
  exact ⟨e', (List.mem_filter.mp he').1, htime⟩

/-- A log that has its last event, and waits for a decoding, gives all latencies. None is
negative. -/
theorem Ended.latencies (h : Ended t log) (he : e ∈ log) (hevent : e.event = .wait_decode) :
    ∃ first_token decoding total,
      calculate_per_request_latency (transform_request_log_to_df log) =
        ⟨some first_token, some decoding, some total⟩ ∧
      0 ≤ first_token ∧ 0 ≤ decoding ∧ 0 ≤ total := by
  obtain ⟨first, hfirst, hle⟩ := h.first_event
  obtain ⟨last, hlast, hge⟩ := h.last_event
  obtain ⟨e', he', hwait⟩ := first_wait_decode_mem he hevent
  refine ⟨e'.time - first, last - e'.time, last - first, ?_, ?_, ?_, ?_⟩
  · unfold calculate_per_request_latency
    rw [hfirst, hlast, hwait]
    rfl
  · exact sub_nonneg.mpr (hle e' he')
  · exact sub_nonneg.mpr (hge e' he')
  · exact sub_nonneg.mpr ((hle e' he').trans (hge e' he'))

end latencies

/-! ## Whole lives -/

/-- What the log of a terminated request says, with the chunks that were cut from it. -/
structure LifeCycle (c : Cluster) (a : Arrival) (log : List LogEntry) (chunks : List Nat) :
    Prop where
  sorted : log.Pairwise fun e e' => e.time ≤ e'.time
  starts : ∃ e rest, log = e :: rest ∧ e.event = .init ∧ ∀ e' ∈ rest, e'.event ≠ .init
  ends : ∃ rest e, log = rest ++ [e] ∧ e.event = .exit_system ∧ ∀ e' ∈ rest, e'.event ≠ .exit_system
  waits : ∃ before e after, log = before ++ e :: after ∧ e.event = .wait_decode ∧
    ∀ e' ∈ before, e'.event ≠ .do_decode
  /-- The prefills are rounds through the stages of an instance, one for each chunk. -/
  prefills : ∃ inst ∈ c.prefill_instances, wids_of log .do_prefill =
    (List.replicate chunks.length (inst.map fun w => some (w.wid : Int))).flatten
  prefill_count : (wids_of log .do_prefill).length = chunks.length * c.PP_prefill
  chunk_sizes : chunks.sum = a.prefill_length
  /-- The decodes are rounds through the stages of an instance, one for each token. -/
  decodes : 0 < a.output_lens → ∃ inst ∈ c.decode_instances, wids_of log .do_decode =
    (List.replicate a.output_lens (inst.map fun w => some (w.wid : Int))).flatten
  decode_count : (wids_of log .do_decode).length = a.output_lens * c.PP_decode
  latencies : ∃ first_token decoding total,
    calculate_per_request_latency (transform_request_log_to_df log) =
      ⟨some first_token, some decoding, some total⟩ ∧
    0 ≤ first_token ∧ 0 ≤ decoding ∧ 0 ≤ total

section lives

variable {c : Cluster} {created r : Request} {t : ℚ} {first PP : Nat}
  {instances : List (List Worker)} {log : List LogEntry} {event : RequestEvent}

/-- The rounds through the stages of an instance name its workers. -/
theorem IsInstance.rounds (h : IsInstance c instances PP first) (m : Nat) :
    ∃ inst ∈ instances, visits (stages first PP) m 0 =
      (List.replicate m (inst.map fun w => some (w.wid : Int))).flatten := by
  obtain ⟨-, inst, hinst, hwids⟩ := h
  refine ⟨inst, hinst, ?_⟩
  rw [visits_whole, stages, ← hwids, List.map_map]
  rfl

theorem none_of_wids_of (h : wids_of log event = []) : ∀ e ∈ log, e.event ≠ event := by
  unfold wids_of at h
  rw [List.map_eq_nil_iff, List.filter_eq_nil_iff] at h
  intro e he
  simpa using h e he

/-- A request that is gone has gone through its whole life cycle. -/
theorem Logged.life_cycle {a : Arrival} (hc : c.Wired)
    (hprefill : created.prefill_lens = a.prefill_length)
    (houtput : created.output_lens = a.output_lens) (h : Logged c created t r .gone) :
    LifeCycle c a r.log r.chunks := by
  obtain ⟨hended, hprefilled, hdecoded⟩ := h
  obtain ⟨first, hfirst, hvisited⟩ := hprefilled.visited
  obtain ⟨before, e, after, hlog, he, hbefore⟩ := hprefilled.waited
  rw [DecodedAll, houtput] at hdecoded
  refine ⟨hended.sorted, hended.starts, hended.ends, ?_, ?_, ?_, ?_, ?_, ?_, ?_⟩
  · exact ⟨before, e, after, hlog, he, none_of_wids_of hbefore⟩
  · rw [hvisited]
    exact (hc.prefill first hfirst).rounds _
  · rw [hvisited, length_visits_whole, stages_length]
  · rw [hprefilled.sizes, hprefill]
  · intro hpos
    rcases hdecoded with ⟨hzero, -⟩ | ⟨first, hfirst, hvisited⟩
    · omega
    · rw [hvisited]
      exact (hc.decode first hfirst).rounds _
  · rcases hdecoded with ⟨hzero, hnone⟩ | ⟨first, -, hvisited⟩
    · rw [hnone, hzero, Nat.zero_mul]
      rfl
    · rw [hvisited, length_visits_whole, stages_length]
  · apply hended.latencies (e := e)
    · rw [hlog]
      exact List.mem_append_right _ List.mem_cons_self
    · exact he

end lives

/-- Each request that is created with the default counter and terminates has gone through its
life cycle, in each run of each cluster. -/
theorem terminated_request_life_cycle {c : Cluster} {workload : Workload} {n : Nat} {s : Sim}
    {i : Nat} {a : Arrival} (hc : Constructed c) (h : Sim.run c workload n = .ok s)
    (ha : workload[i]? = some a) (hcounter : a.req_init_counter = -1)
    (hterminated : (s.requests i).terminated = true) :
    LifeCycle c a (s.requests i).log (s.requests i).chunks := by
  obtain ⟨whereabouts, htracked⟩ := Sim.run_tracked h
  have hlives := htracked.lives i
  have hcreated := created_eq ha
  have hstands := hlives.stands hc.wired (created_fresh workload i)
  have hneg : (created workload i).counter < 0 := by
    rw [hcreated]
    unfold Request.create
    dsimp only
    omega
  have hlogged := hlives.logged hc.wired (created_fresh workload i) hneg
  cases hi : whereabouts i with
  | pending =>
    rw [hi] at hstands
    rw [show s.requests i = created workload i from hstands,
      (created_fresh workload i).running] at hterminated
    cases hterminated
  | placed p =>
    rw [hi] at hstands
    rw [hstands.running] at hterminated
    cases hterminated
  | gone =>
    rw [hi] at hlogged
    apply hlogged.life_cycle hc.wired
    · rw [hcreated]
      rfl
    · rw [hcreated]
      rfl

/-- The request of two tokens is terminated after 22 events. -/
theorem two_tokens_life_cycle : ∃ c s, Constructed c ∧
    Sim.run c Sim.small_workload 22 = .ok s ∧ (s.requests 0).chunks = [4] ∧
    LifeCycle c ⟨0, -1, 4, 2⟩ (s.requests 0).log (s.requests 0).chunks := by
  obtain ⟨s, hs, htest⟩ := ok_of_any (x := Sim.small_run 22)
    (p := fun s => decide ((s.requests 0).terminated = true ∧ (s.requests 0).chunks = [4]))
    (by decide +kernel)
  obtain ⟨c, hc, hrun⟩ := bind_eq_ok.mp hs
  obtain ⟨hterminated, hchunks⟩ := of_decide_eq_true htest
  have hconstructed := small_cluster_constructed hc
  exact ⟨c, s, hconstructed, hrun, hchunks,
    terminated_request_life_cycle hconstructed hrun rfl rfl hterminated⟩

end simdistserve
