-- The logs of the simulated requests. Each transition adds its events at the end, and the
-- events say which stages a request has visited.
import RecomputeOrMigrate.General.Rounds
import RecomputeOrMigrate.SimStages

open rounds

namespace simdistserve

/-! ## Logs -/

/-- The workers of the events of one kind, in the order of the log. -/
def wids_of (log : List LogEntry) (event : RequestEvent) : List (Option Int) :=
  (log.filter (·.event = event)).map (·.wid)

/-- The workers of a pipeline, as a log names them. -/
def stages (first PP : Nat) : List (Option Int) :=
  (List.range' first PP).map fun wid : Nat => some (wid : Int)

/-- The log has its first event and not its last one, at a time. -/
structure Going (t : ℚ) (log : List LogEntry) : Prop where
  starts : ∃ e rest, log = e :: rest ∧ e.event = .init ∧ ∀ e' ∈ rest, e'.event ≠ .init
  going : ∀ e ∈ log, e.event ≠ .exit_system
  sorted : log.Pairwise fun e e' => e.time ≤ e'.time
  past : ∀ e ∈ log, e.time ≤ t

/-- The log has its last event. -/
def Ended (t : ℚ) (log : List LogEntry) : Prop :=
  ∃ before e, log = before ++ [e] ∧ e.event = .exit_system ∧ Going e.time before ∧ e.time ≤ t

section logs

variable {log : List LogEntry} {e : LogEntry} {event event' : RequestEvent} {t t' : ℚ}
  {r : Request} {wid : Option Int} {first PP k : Nat}

theorem stages_length (first PP : Nat) : (stages first PP).length = PP := by
  unfold stages
  rw [List.length_map, List.length_range']

theorem stages_get (h : k < PP) :
    (stages first PP)[k]? = some (some ((first + k : Nat) : Int)) := by
  unfold stages
  rw [List.getElem?_map, List.getElem?_range' h, Nat.one_mul]
  rfl

theorem wids_of_append : wids_of (log ++ [e]) event =
    wids_of log event ++ if e.event = event then [e.wid] else [] := by
  unfold wids_of
  rw [List.filter_append, List.map_append, List.filter_singleton]
  by_cases h : e.event = event <;> simp [h]

theorem log_event_log (h : r.terminated = false) :
    (r.log_event t event wid).log = r.log ++ [⟨t, event, wid⟩] := by
  unfold Request.log_event
  rw [h]
  rfl

theorem wids_of_log_event_self (h : r.terminated = false) :
    wids_of (r.log_event t event wid).log event = wids_of r.log event ++ [wid] := by
  rw [log_event_log h, wids_of_append, if_pos rfl]

/-- An event of another kind. -/
theorem wids_of_log_event (h : event ≠ event') :
    wids_of (r.log_event t event wid).log event' = wids_of r.log event' := by
  cases hr : r.terminated with
  | true =>
    unfold Request.log_event
    rw [hr]
    rfl
  | false => rw [log_event_log hr, wids_of_append, if_neg h, List.append_nil]

theorem Going.wait (h : Going t log) (hle : t ≤ t') : Going t' log :=
  ⟨h.starts, h.going, h.sorted, fun e he => (h.past e he).trans hle⟩

theorem Going.sorted_append (h : Going t log) (he : e.time = t) :
    (log ++ [e]).Pairwise fun e e' => e.time ≤ e'.time := by
  rw [List.pairwise_append]
  refine ⟨h.sorted, List.pairwise_singleton _ _, ?_⟩
  intro a ha b hb
  rw [List.mem_singleton.mp hb, he]
  exact h.past a ha

/-- An event in the middle. -/
theorem Going.log_event (h : Going t r.log) (hrunning : r.terminated = false)
    (hinit : event ≠ .init) (hexit : event ≠ .exit_system) :
    Going t (r.log_event t event wid).log := by
  rw [log_event_log hrunning]
  obtain ⟨e, rest, hlog, he, hrest⟩ := h.starts
  refine ⟨⟨e, rest ++ [⟨t, event, wid⟩], ?_, he, ?_⟩, ?_, h.sorted_append rfl, ?_⟩
  · rw [hlog]
    rfl
  · intro e' he'
    rcases List.mem_append.mp he' with hmem | hmem
    · exact hrest e' hmem
    · rw [List.mem_singleton.mp hmem]
      exact hinit
  · intro e' he'
    rcases List.mem_append.mp he' with hmem | hmem
    · exact h.going e' hmem
    · rw [List.mem_singleton.mp hmem]
      exact hexit
  · intro e' he'
    rcases List.mem_append.mp he' with hmem | hmem
    · exact h.past e' hmem
    · rw [List.mem_singleton.mp hmem]

/-- The last event. -/
theorem Going.exit_system (h : Going t r.log) (hrunning : r.terminated = false) :
    Ended t (r.exit_system t).log :=
  ⟨r.log, ⟨t, .exit_system, some (-1)⟩, log_event_log hrunning, rfl, h, le_rfl⟩

end logs

/-! ## Visits -/

/-- The request has visited the stages of a prefill instance, `m` rounds and `k` stages, with
this many chunks cut. -/
structure Prefilling (c : Cluster) (created r : Request) (first m k cut : Nat) : Prop where
  head : first ∈ c.prefill_heads
  visited : wids_of r.log .do_prefill = visits (stages first c.PP_prefill) m k
  cut : r.chunks.length = cut
  sizes : r.chunks.sum + r.remain_prefill_lens = created.prefill_lens
  undecoded : wids_of r.log .do_decode = []

/-- The request has visited the stages of a prefill instance once for each chunk, and it
waited for its decoding before it was decoded. -/
structure Prefilled (c : Cluster) (created r : Request) : Prop where
  visited : ∃ first ∈ c.prefill_heads,
    wids_of r.log .do_prefill = visits (stages first c.PP_prefill) r.chunks.length 0
  sizes : r.chunks.sum = created.prefill_lens
  waited : ∃ before e after, r.log = before ++ e :: after ∧ e.event = .wait_decode ∧
    wids_of before .do_decode = []

/-- The request has visited the stages of a decode instance, once for each token and `k`
stages more. -/
structure Decoding (c : Cluster) (r : Request) (first k : Nat) : Prop where
  head : first ∈ c.decode_heads
  visited : wids_of r.log .do_decode = visits (stages first c.PP_decode) r.counter.toNat k

/-- The visits of a request where it is. -/
def Visited (c : Cluster) (created r : Request) : Place → Prop
  | .prefill_queue wid => ∃ first m k, k < c.PP_prefill ∧ wid = first + k ∧
      Prefilling c created r first m k (m + min k 1)
  | .prefill_picked wid => ∃ first m k, k < c.PP_prefill ∧ wid = first + k ∧
      Prefilling c created r first m k (m + 1)
  | .prefill_batch wid => ∃ first m k, k < c.PP_prefill ∧ wid = first + k ∧
      Prefilling c created r first m (k + 1) (m + 1)
  | .decode_queue wid => Prefilled c created r ∧
      ∃ first k, k < c.PP_decode ∧ wid = first + k ∧ Decoding c r first k
  | .decode_picked wid => Prefilled c created r ∧
      ∃ first k, k < c.PP_decode ∧ wid = first + k ∧ Decoding c r first k
  | .decode_batch wid => Prefilled c created r ∧
      ∃ first k, k < c.PP_decode ∧ wid = first + k ∧ Decoding c r first (k + 1)
  | .decode_done wid => Prefilled c created r ∧
      ∃ first k, k < c.PP_decode ∧ (c.worker wid).next_worker = first + k ∧ Decoding c r first k

/-- A request without tokens is not decoded. Any other one has visited the stages of a decode
instance once for each token. -/
def DecodedAll (c : Cluster) (created r : Request) : Prop :=
  (created.output_lens = 0 ∧ wids_of r.log .do_decode = []) ∨
    ∃ first ∈ c.decode_heads,
      wids_of r.log .do_decode = visits (stages first c.PP_decode) created.output_lens 0

/-- What the log says of a request where it is, at a time. -/
def Logged (c : Cluster) (created : Request) (t : ℚ) (r : Request) : Where → Prop
  | .pending => True
  | .placed p => Going t r.log ∧ Visited c created r p
  | .gone => Ended t r.log ∧ Prefilled c created r ∧ DecodedAll c created r

/-! ## Events that are no visits -/

section events

variable {c : Cluster} {created r : Request} {now t t' : ℚ} {event : RequestEvent}
  {wid : Option Int} {first m k cut : Nat} {o : Where}

theorem Logged.wait (h : Logged c created t r o) (hle : t ≤ t') : Logged c created t' r o := by
  cases o with
  | pending => exact trivial
  | placed p => exact ⟨h.1.wait hle, h.2⟩
  | gone =>
    obtain ⟨⟨before, e, hlog, he, hgoing, het⟩, hrest⟩ := h
    exact ⟨⟨before, e, hlog, he, hgoing, het.trans hle⟩, hrest⟩

theorem Prefilling.log_event (h : Prefilling c created r first m k cut)
    (hprefill : event ≠ .do_prefill) (hdecode : event ≠ .do_decode) :
    Prefilling c created (r.log_event now event wid) first m k cut := by
  refine ⟨h.head, ?_, ?_, ?_, ?_⟩
  · rw [wids_of_log_event hprefill, h.visited]
  · rw [Request.log_event_chunks, h.cut]
  · rw [Request.log_event_chunks, Request.log_event_remain, h.sizes]
  · rw [wids_of_log_event hdecode, h.undecoded]

theorem Prefilled.log_event (h : Prefilled c created r) (hprefill : event ≠ .do_prefill) :
    Prefilled c created (r.log_event now event wid) := by
  refine ⟨?_, ?_, ?_⟩
  · rw [wids_of_log_event hprefill, Request.log_event_chunks]
    exact h.visited
  · rw [Request.log_event_chunks]
    exact h.sizes
  · obtain ⟨before, e, after, hlog, he, hbefore⟩ := h.waited
    cases hr : r.terminated with
    | true =>
      refine ⟨before, e, after, ?_, he, hbefore⟩
      unfold Request.log_event
      rw [hr]
      exact hlog
    | false =>
      refine ⟨before, e, after ++ [⟨now, event, wid⟩], ?_, he, hbefore⟩
      rw [log_event_log hr, hlog, List.append_assoc]
      rfl

theorem Decoding.log_event (h : Decoding c r first k) (hdecode : event ≠ .do_decode) :
    Decoding c (r.log_event now event wid) first k := by
  refine ⟨h.head, ?_⟩
  rw [wids_of_log_event hdecode, Request.log_event_counter]
  exact h.visited

end events

/-! ## Visits of the next stage -/

section visits

variable {c : Cluster} {created r : Request} {now : ℚ} {wid first m k cut : Nat}

theorem Prefilling.do_prefill (h : Prefilling c created r first m k cut)
    (hrunning : r.terminated = false) (hk : k < c.PP_prefill) :
    Prefilling c created (r.do_prefill now (some ((first + k : Nat) : Int))) first m (k + 1)
      cut := by
  refine ⟨h.head, ?_, ?_, ?_, ?_⟩
  · rw [Request.do_prefill, wids_of_log_event_self hrunning, h.visited, visits_next]
    exact stages_get hk
  · rw [Request.do_prefill, Request.log_event_chunks, h.cut]
  · rw [Request.do_prefill, Request.log_event_chunks, Request.log_event_remain, h.sizes]
  · rw [Request.do_prefill, wids_of_log_event, h.undecoded]
    exact nofun

/-- A round of the prefill is over. -/
theorem Prefilling.full (h : Prefilling c created r first m k cut) (hk : k = c.PP_prefill) :
    Prefilling c created r first (m + 1) 0 cut := by
  refine ⟨h.head, ?_, h.cut, h.sizes, h.undecoded⟩
  rw [h.visited, visits_full]
  rw [hk, stages_length]

theorem Prefilling.cut_chunk {size chunk_id : Nat} (h : Prefilling c created r first m k cut)
    (cuts : Cuts c.config r size) :
    Prefilling c created (r.cut_chunk size chunk_id) first m k (cut + 1) := by
  refine ⟨h.head, h.visited, ?_, ?_, h.undecoded⟩
  · unfold Request.cut_chunk
    rw [List.length_append, h.cut]
    rfl
  · have hsizes := h.sizes
    have hle := cuts.1
    unfold Request.cut_chunk
    rw [List.sum_append, List.sum_singleton]
    dsimp only
    omega

/-- The last chunk is prefilled by the last stage. -/
theorem Prefilling.prefilled (h : Prefilling c created r first m k (m + 1))
    (hrunning : r.terminated = false) (hk : k = c.PP_prefill) (hremain : r.remain_prefill_lens = 0)
    (next_wid : Option Int) :
    Prefilled c created (r.prefilled now next_wid) ∧
      wids_of (r.prefilled now next_wid).log .do_decode = [] ∧
      (r.prefilled now next_wid).counter = 0 := by
  unfold Request.prefilled Request.wait_decode
  refine ⟨⟨?_, ?_, ?_⟩, ?_, ?_⟩
  · refine ⟨first, h.head, ?_⟩
    rw [wids_of_log_event, Request.log_event_chunks]
    · exact (h.full hk).visited.trans (congrArg (visits _ · 0) h.cut.symm)
    · exact nofun
  · have hsizes := h.sizes
    rw [hremain, Nat.add_zero] at hsizes
    rw [Request.log_event_chunks, hsizes]
  · refine ⟨r.log, ⟨now, .wait_decode, next_wid⟩, [], ?_, rfl, h.undecoded⟩
    exact log_event_log hrunning
  · rw [wids_of_log_event]
    · exact h.undecoded
    · exact nofun
  · exact Request.log_event_counter ..

theorem Decoding.do_decode (h : Decoding c r first k) (hrunning : r.terminated = false)
    (hk : k < c.PP_decode) :
    Decoding c (r.do_decode now (some ((first + k : Nat) : Int))) first (k + 1) := by
  refine ⟨h.head, ?_⟩
  rw [Request.do_decode, wids_of_log_event_self hrunning, Request.log_event_counter, h.visited,
    visits_next]
  exact stages_get hk

/-- The first stage of a decode instance is the next one. -/
theorem decoding_starts (hhead : first ∈ c.decode_heads) (hcounter : r.counter = 0)
    (hundecoded : wids_of r.log .do_decode = []) : Decoding c r first 0 := by
  refine ⟨hhead, ?_⟩
  rw [hundecoded, hcounter]
  rfl

/-- The request is passed on to the next stage of its prefill. -/
theorem Visited.pass_prefill (hc : c.Wired) (h : Visited c created r (.prefill_batch wid))
    (on : c.prefills_on wid (c.after_prefill now wid r) = true) :
    Visited c created (c.after_prefill now wid r)
      (.prefill_queue (c.worker wid).next_worker) := by
  obtain ⟨first, m, k, hk, rfl, hvisited⟩ := h
  have hpipe := (hc.prefill first hvisited.head).1
  have hafter : Prefilling c created (c.after_prefill now (first + k) r) first m (k + 1)
      (m + 1) := by
    obtain ⟨chunk_id, size, -, heq⟩ := after_prefill_on on
    rw [heq]
    apply Prefilling.log_event
    · exact ⟨hvisited.head, hvisited.visited, hvisited.cut, hvisited.sizes, hvisited.undecoded⟩
    · exact nofun
    · exact nofun
  by_cases hlast : k + 1 = c.PP_prefill
  · refine ⟨first, m + 1, 0, hpipe.pos, ?_, hafter.full hlast⟩
    rw [hpipe.next k hk, if_pos hlast, Nat.add_zero]
  · refine ⟨first, m, k + 1, by omega, ?_, ?_⟩
    · rw [hpipe.next k hk, if_neg hlast, Nat.add_assoc]
    · rw [Nat.min_eq_right (by omega)]
      exact hafter

/-- The last stage of the prefill is visited for the last chunk. -/
theorem Visited.prefilled (hc : c.Wired) (h : Visited c created r (.prefill_batch wid))
    (hrunning : r.terminated = false)
    (done : c.prefills_on wid (c.after_prefill now wid r) = false) (next_wid : Option Int) :
    Prefilled c created (r.prefilled now next_wid) ∧
      wids_of (r.prefilled now next_wid).log .do_decode = [] ∧
      (r.prefilled now next_wid).counter = 0 := by
  obtain ⟨first, m, k, hk, rfl, hvisited⟩ := h
  obtain ⟨hlast, hremain, -⟩ := after_prefill_done done
  rw [(hc.prefill first hvisited.head).1.last k hk, decide_eq_true_eq] at hlast
  exact hvisited.prefilled hrunning hlast hremain next_wid

/-- The request is passed on to the next stage of its decoding. After the last stage it is
at the first one again. -/
theorem Visited.decoded (hc : c.Wired) (h : Visited c created r (.decode_batch wid))
    (hcount : 0 ≤ r.counter) (now : ℚ) (next_wid : Option Int) :
    Prefilled c created (r.decoded now (c.worker wid).is_last_in_pipeline next_wid) ∧
      ∃ first k, k < c.PP_decode ∧ (c.worker wid).next_worker = first + k ∧
        Decoding c (r.decoded now (c.worker wid).is_last_in_pipeline next_wid) first k ∧
        ((c.worker wid).is_last_in_pipeline = true → k = 0) := by
  obtain ⟨hprefilled, first, k, hk, rfl, hhead, hvisited⟩ := h
  have hpipe := (hc.decode first hhead).1
  unfold Request.decoded Request.wait_decode
  constructor
  · apply Prefilled.log_event
    · exact ⟨hprefilled.visited, hprefilled.sizes, hprefilled.waited⟩
    · exact nofun
  · rw [hpipe.next k hk, hpipe.last k hk]
    by_cases hlast : k + 1 = c.PP_decode
    · refine ⟨first, 0, hpipe.pos, ?_, ?_, fun _ => rfl⟩
      · rw [if_pos hlast, Nat.add_zero]
      · apply Decoding.log_event
        · refine ⟨hhead, ?_⟩
          have hcounter : (r.counter + 1).toNat = r.counter.toNat + 1 := by omega
          rw [hvisited, visits_full, decide_eq_true hlast, if_pos rfl, hcounter]
          rw [hlast, stages_length]
        · exact nofun
    · refine ⟨first, k + 1, by omega, ?_, ?_, ?_⟩
      · rw [if_neg hlast, Nat.add_assoc]
      · apply Decoding.log_event
        · refine ⟨hhead, ?_⟩
          rw [decide_eq_false hlast, if_neg Bool.false_ne_true]
          exact hvisited
        · exact nofun
      · intro h
        exact absurd (of_decide_eq_true h) hlast

end visits

/-! ## One transition -/

section lives

variable {c : Cluster} {now : ℚ} {created r r' : Request} {o o' : Where} {wid : Nat}

theorem going_init (hfresh : Fresh created) : Going now (created.init now).log := by
  rw [Request.init, log_event_log hfresh.running, hfresh.log]
  refine ⟨⟨_, [], rfl, rfl, by simp⟩, ?_, List.pairwise_singleton _ _, ?_⟩
  · intro e he
    rw [List.mem_singleton.mp he]
    simp
  · intro e he
    rw [List.mem_singleton.mp he]

theorem visited_init (hfresh : Fresh created) (hpos : 0 < c.PP_prefill)
    (hhead : wid ∈ c.prefill_heads) :
    Visited c created (created.init now) (.prefill_queue wid) := by
  have hvisits : ∀ event, wids_of created.log event = [] := by
    intro event
    rw [hfresh.log]
    rfl
  refine ⟨wid, 0, 0, hpos, rfl, hhead, ?_, ?_, ?_, ?_⟩
  · rw [Request.init, wids_of_log_event, hvisits]
    · rfl
    · simp
  · rw [Request.init, Request.log_event_chunks, hfresh.chunks]
    rfl
  · rw [Request.init, Request.log_event_chunks, Request.log_event_remain, hfresh.chunks,
      hfresh.remain, List.sum_nil, Nat.zero_add]
  · rw [Request.init, wids_of_log_event, hvisits]
    simp

theorem Going.prefilled (h : Going now r.log) (hrunning : r.terminated = false)
    (next_wid : Option Int) : Going now (r.prefilled now next_wid).log := by
  unfold Request.prefilled Request.wait_decode
  apply Going.log_event (r := { r with chunk_id := none, current_prefill_lens := 0, counter := 0 })
  · exact h
  · exact hrunning
  · exact nofun
  · exact nofun

theorem Going.decoded (h : Going now r.log) (hrunning : r.terminated = false) (last : Bool)
    (next_wid : Option Int) : Going now (r.decoded now last next_wid).log := by
  unfold Request.decoded Request.wait_decode
  apply Going.log_event (r := { r with counter := if last then r.counter + 1 else r.counter })
  · exact h
  · exact hrunning
  · exact nofun
  · exact nofun

/-- An exit after the last visit. -/
theorem Prefilled.exit_system (h : Prefilled c created r) :
    Prefilled c created (r.exit_system now) := by
  have hlog : Prefilled c created (r.log_event now .exit_system (some (-1))) := h.log_event nofun
  exact ⟨hlog.visited, hlog.sizes, hlog.waited⟩

theorem wids_of_exit_system {event : RequestEvent} (h : event ≠ .exit_system) :
    wids_of (r.exit_system now).log event = wids_of r.log event :=
  wids_of_log_event h.symm

/-- The request exits at the end of its prefill. It has no tokens to decode. -/
theorem Visited.exit_prefill (hc : c.Wired) (hs : Prefills created r) (hgoing : Going now r.log)
    (h : Visited c created r (.prefill_batch wid))
    (done : c.prefills_on wid (c.after_prefill now wid r) = false)
    (finish : (c.after_prefill now wid r).should_finish = true) :
    Logged c created now (c.after_prefill now wid r) .gone := by
  obtain ⟨hprefilled, hundecoded, hcounter⟩ := h.prefilled hc hs.running done
    (some ((c.worker wid).next_worker : Int))
  have hrunning := (hs.prefilled now (some ((c.worker wid).next_worker : Int))).1
  obtain ⟨-, -, heq⟩ := after_prefill_done done
  rw [heq] at finish ⊢
  split at finish
  · next hfinish =>
    rw [if_pos hfinish]
    unfold Request.should_finish at hfinish
    rw [decide_eq_true_eq, hcounter, hrunning.output_lens] at hfinish
    refine ⟨(hgoing.prefilled hs.running _).exit_system hrunning.running,
      hprefilled.exit_system, .inl ⟨by omega, ?_⟩⟩
    rw [wids_of_exit_system]
    · exact hundecoded
    · exact nofun
  · next hmore => exact absurd finish hmore

/-- The request stays in the cluster after its prefill. -/
theorem Visited.stays (hc : c.Wired) (hs : Prefills created r) (hgoing : Going now r.log)
    (h : Visited c created r (.prefill_batch wid))
    (done : c.prefills_on wid (c.after_prefill now wid r) = false)
    (more : (c.after_prefill now wid r).should_finish = false) :
    Going now (c.after_prefill now wid r).log ∧
      Prefilled c created (c.after_prefill now wid r) ∧
      wids_of (c.after_prefill now wid r).log .do_decode = [] ∧
      (c.after_prefill now wid r).counter = 0 := by
  rw [after_prefill_more done more]
  exact ⟨hgoing.prefilled hs.running _, h.prefilled hc hs.running done _⟩

/-- The request exits at the end of its decoding, with its last token. -/
theorem Visited.exit_decode (hc : c.Wired) (hs : Decodes created r) (hgoing : Going now r.log)
    (h : Visited c created r (.decode_batch wid))
    (finish : (c.after_decode now wid r).should_finish = true) :
    Logged c created now (c.after_decode now wid r) .gone := by
  obtain ⟨hprefilled, first, k, -, -, hdecoding, hfirst⟩ :=
    h.decoded hc hs.count now (some ((c.worker wid).next_worker : Int))
  have hgoing' := hgoing.decoded hs.running (c.worker wid).is_last_in_pipeline
    (some ((c.worker wid).next_worker : Int))
  rw [after_decode_eq] at finish ⊢
  split at finish
  · next hfinish =>
    rw [if_pos hfinish]
    unfold Request.should_finish at hfinish
    rw [decide_eq_true_eq] at hfinish
    have hmore := hs.more
    have houtput : r.output_lens = created.output_lens := hs.output_lens
    cases hlast : (c.worker wid).is_last_in_pipeline with
    | false =>
      rw [hlast] at hfinish
      simp only [Request.decoded, Request.wait_decode, Request.log_event_counter,
        Request.log_event_output_lens] at hfinish
      rw [if_neg Bool.false_ne_true] at hfinish
      omega
    | true =>
      rw [hlast] at hfinish hdecoding hgoing' hprefilled
      have hcounter : (r.decoded now true (some ((c.worker wid).next_worker : Int))).counter =
          r.counter + 1 := Request.log_event_counter ..
      have hlens : (r.decoded now true (some ((c.worker wid).next_worker : Int))).output_lens =
          r.output_lens := Request.log_event_output_lens ..
      rw [hcounter, hlens] at hfinish
      have htoNat : (r.counter + 1).toNat = created.output_lens := by omega
      refine ⟨hgoing'.exit_system ?_, hprefilled.exit_system, .inr ⟨first, hdecoding.head, ?_⟩⟩
      · exact (Request.log_event_terminated ..).trans hs.running
      · have hvisited := hdecoding.visited
        rw [hfirst hlast, hcounter, htoNat] at hvisited
        rw [wids_of_exit_system]
        · exact hvisited
        · simp
  · next hmore => exact absurd finish hmore

/-- A transition keeps what the log says of a request that is prefilled first. -/
theorem Life.logged (hc : c.Wired) (hfresh : Fresh created) (hcounter : created.counter < 0)
    (h : Life c now r o r' o') (hs : Stands c created r o) (hl : Logged c created now r o) :
    Logged c created now r' o' := by
  cases h with
  | arrive_prefill count head =>
    cases hs
    exact ⟨going_init hfresh, visited_init hfresh (hc.prefill _ head).1.pos head⟩
  | arrive_decode count more head =>
    cases hs
    exact absurd hcounter (not_lt.mpr count)
  | arrive_finished count finish =>
    cases hs
    exact absurd hcounter (not_lt.mpr count)
  | cut hfirst cuts =>
    obtain ⟨hgoing, first, m, k, hk, rfl, hvisited⟩ := hl
    rw [(hc.prefill first hvisited.head).1.rank k hk] at hfirst
    subst hfirst
    exact ⟨hgoing, first, m, 0, hk, rfl, hvisited.cut_chunk cuts⟩
  | regroup later =>
    obtain ⟨hgoing, first, m, k, hk, rfl, hvisited⟩ := hl
    rw [(hc.prefill first hvisited.head).1.rank k hk] at later
    rw [Nat.min_eq_right (by omega)] at hvisited
    exact ⟨hgoing, first, m, k, hk, rfl, hvisited⟩
  | start_prefill =>
    obtain ⟨hgoing, first, m, k, hk, rfl, hvisited⟩ := hl
    exact ⟨hgoing.log_event hs.2.running nofun nofun, first, m, k, hk, rfl,
      hvisited.do_prefill hs.2.running hk⟩
  | pass_prefill on =>
    refine ⟨?_, hl.2.pass_prefill hc on⟩
    obtain ⟨chunk_id, size, -, heq⟩ := after_prefill_on on
    rw [heq]
    apply Going.log_event
    · exact hl.1
    · exact hs.2.running
    · exact nofun
    · exact nofun
  | exit_prefill done finish => exact hl.2.exit_prefill hc hs.2 hl.1 done finish
  | stay done more stays =>
    obtain ⟨hgoing, hprefilled, hundecoded, hzero⟩ := hl.2.stays hc hs.2 hl.1 done more
    have hhead := hc.stays hs.1 (after_prefill_done done).1 stays
    exact ⟨hgoing, hprefilled, _, 0, (hc.decode _ hhead).1.pos, rfl,
      decoding_starts hhead hzero hundecoded⟩
  | hand_over done more leaves head =>
    obtain ⟨hgoing, hprefilled, hundecoded, hzero⟩ := hl.2.stays hc hs.2 hl.1 done more
    have hafter := hs.2.after_prefill_done done
    rw [if_neg (Bool.eq_false_iff.mp more)] at hafter
    exact ⟨hgoing.log_event hafter.running nofun nofun, hprefilled.log_event nofun, _, 0,
      (hc.decode _ head).1.pos, rfl, (decoding_starts head hzero hundecoded).log_event nofun⟩
  | pick_decode fits => exact hl
  | start_decode =>
    obtain ⟨hgoing, hprefilled, first, k, hk, rfl, hdecoding⟩ := hl
    exact ⟨hgoing.log_event hs.2.running nofun nofun, hprefilled.log_event nofun, first, k, hk,
      rfl, hdecoding.do_decode hs.2.running hk⟩
  | @finish_decode wid more =>
    obtain ⟨hprefilled, first, k, hk, hnext, hdecoding, -⟩ :=
      hl.2.decoded hc hs.2.count now (some ((c.worker wid).next_worker : Int))
    have hgoing := hl.1.decoded hs.2.running (c.worker wid).is_last_in_pipeline
      (some ((c.worker wid).next_worker : Int))
    rw [after_decode_more more]
    exact ⟨hgoing, hprefilled, first, k, hk, hnext, hdecoding⟩
  | exit_decode finish => exact hl.2.exit_decode hc hs.2 hl.1 finish
  | pass_decode => exact hl

theorem Lives.logged {t : ℚ} (hc : c.Wired) (hfresh : Fresh created)
    (hcounter : created.counter < 0) (h : Lives c created t r o) : Logged c created t r o := by
  induction h with
  | start => exact trivial
  | wait _ hle ih => exact ih.wait hle
  | step hlives hlife ih => exact hlife.logged hc hfresh hcounter (hlives.stands hc hfresh) ih

end lives

end simdistserve
