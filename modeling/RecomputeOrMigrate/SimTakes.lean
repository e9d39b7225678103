-- The iterations of the simulated workers go through and take requests, when the requests of
-- the workload can be served.
import Mathlib.Tactic.Positivity
import RecomputeOrMigrate.SimSteps
import RecomputeOrMigrate.SimWork

open calls places

namespace simdistserve

/-! ## Workloads that can be served -/

/-- A time that is estimated, and is not negative. -/
def Estimated (time : Except SimError ℚ) : Prop := ∃ delay, time = .ok delay ∧ 0 ≤ delay

/-- With parameters that are not negative the times of all batches are estimated. -/
theorem get_prefill_time_estimated {profiles : Profiles} {engine_type : EngineType}
    {model_type : String} {TP pp : Nat} {params : ProfileRow}
    (hrow : profiles.row engine_type model_type TP = .ok params) (hpp : 0 < pp)
    (ha : 0 ≤ params.prefill.1) (hb : 0 ≤ params.prefill.2.1) (hc : 0 ≤ params.prefill.2.2)
    (lens : List Nat) :
    Estimated (get_prefill_time profiles engine_type model_type TP pp lens) := by
  unfold get_prefill_time pp_factor
  rw [ok_bind hrow, if_neg hpp.ne']
  obtain ⟨⟨a, b, c⟩, threshold, smallbs, largebs⟩ := params
  dsimp only at ha hb hc
  refine ⟨(a + b * (lens.sum : Nat) + c * ((lens.map (· ^ 2)).sum : Nat)) * (1 / pp) + pp, rfl, ?_⟩
  positivity

theorem get_decode_time_estimated {profiles : Profiles} {engine_type : EngineType}
    {model_type : String} {TP pp : Nat} {params : ProfileRow}
    (hrow : profiles.row engine_type model_type TP = .ok params) (hpp : 0 < pp)
    (hsmall : 0 ≤ params.decoding_smallbs.1 ∧ 0 ≤ params.decoding_smallbs.2.1 ∧
      0 ≤ params.decoding_smallbs.2.2)
    (hlarge : 0 ≤ params.decoding_largebs.1 ∧ 0 ≤ params.decoding_largebs.2.1 ∧
      0 ≤ params.decoding_largebs.2.2) (batch_size : Nat) (lens : List Nat) :
    Estimated (get_decode_time profiles engine_type model_type TP pp batch_size lens) := by
  unfold get_decode_time pp_factor
  rw [ok_bind hrow, if_neg hpp.ne']
  dsimp only
  split
  · obtain ⟨ha, hb, hc⟩ := hsmall
    refine ⟨(params.decoding_smallbs.1 + params.decoding_smallbs.2.1 * (lens.sum : Nat) +
      params.decoding_smallbs.2.2 * batch_size) * (1 / pp), rfl, ?_⟩
    positivity
  · obtain ⟨ha, hb, hc⟩ := hlarge
    refine ⟨(params.decoding_largebs.1 + params.decoding_largebs.2.1 * (lens.sum : Nat) +
      params.decoding_largebs.2.2 * batch_size) * (1 / pp), rfl, ?_⟩
    positivity

/-- The limits of a cluster let a request through. A request starts with its prefill when its
counter is negative, and it is decoded when it is not finished then. -/
structure Cluster.Serves (c : Cluster) (a : Arrival) : Prop where
  prefill_instance : a.req_init_counter < 0 → c.prefill_heads ≠ []
  decode_instance : max a.req_init_counter 0 < a.output_lens → c.decode_heads ≠ []
  /-- A prompt that is not chunked fits into one batch. One that is chunked is not empty. -/
  prompt : a.req_init_counter < 0 →
    if c.config.enable_chunked_prefill then 0 < a.prefill_length
    else a.prefill_length ≤ c.config.max_prefill_tokens
  /-- The context fits into a batch up to the last token. -/
  context : max a.req_init_counter 0 < a.output_lens → a.prefill_length + a.output_lens ≤ 50000

/-- Some requests of the workload, none of them twice, of which this holds. -/
structure BatchOf (workload : Workload) (requests : List Nat) (holds : Nat → Arrival → Prop) :
    Prop where
  nonempty : requests ≠ []
  nodup : requests.Nodup
  holds : ∀ i ∈ requests, ∃ a, workload[i]? = some a ∧ holds i a

/-- A cluster that can serve a workload. The times of batches are asked for chunks that are not
longer than the prompts, and for contexts up to the last tokens. -/
structure Servable (c : Cluster) (workload : Workload) : Prop where
  requests : ∀ a ∈ workload, c.Serves a
  wake_times : ∀ i < workload.length, 0 ≤ wake_time workload i
  prefill_times : ∀ requests len, BatchOf workload requests (fun i a =>
    a.req_init_counter < 0 ∧ len i ≤ a.prefill_length) →
      Estimated (get_prefill_time c.profiles c.config.engine_type c.config.model_type
        c.config.tp_prefill c.PP_prefill (requests.map len))
  decode_times : ∀ requests len, BatchOf workload requests (fun i a =>
    max a.req_init_counter 0 < a.output_lens ∧ len i ≤ a.prefill_length + a.output_lens) →
      Estimated (get_decode_time c.profiles c.config.engine_type c.config.model_type
        c.config.tp_decode c.PP_decode requests.length (requests.map len))

namespace Sim

/-- The requests are where the lists of the workers say, when the processes hold `B`. -/
def Populated (c : Cluster) (workload : Workload) (s : Sim) (B : Batches) : Prop :=
  ∃ whereabouts, s.LocatedAt B whereabouts ∧
    (s.population whereabouts).Stands c (created workload) workload.length

/-- The worker took a request, and the other processes wait as before. -/
structure Starts (s : Sim) (wid : Nat) (s' : Sim) : Prop where
  takes : s'.Takes wid
  others : ∀ v, v ≠ wid → (s'.workers v).status = (s.workers v).status

variable {c : Cluster} {workload : Workload} {s s' s1 : Sim} {B B' : Batches} {b : Batch}
  {busy : Option Nat} {k i wid : Nat} {p : Place}

/-- A part of a step moves the requests, and they stand where they are. -/
theorem Follows.populated (hc : c.Wired) (h : Follows c 0 busy k s B s' B')
    (hs : Populated c workload s B) : Populated c workload s' B' := by
  obtain ⟨whereabouts, hloc, hstands⟩ := hs
  obtain ⟨n, whereabouts', hsteps, hloc', -⟩ := h.moves whereabouts hloc
  exact ⟨whereabouts', hloc',
    ((hsteps.mono (Nat.zero_le _)).lowers hc (created_fresh workload) hstands).1⟩

/-- A request at a place is one of the workload. -/
theorem Populated.stands (h : Populated c workload s B) (hi : i ∈ s.contents B p) :
    ∃ a, workload[i]? = some a ∧
      Stands c (Request.create a.req_init_counter a.prefill_length a.output_lens)
        (s.requests i) (.placed p) := by
  obtain ⟨whereabouts, hloc, hstands⟩ := h
  have hplace := Where.placed_of_place (Located.mem_iff hloc |>.mp hi)
  have hlt : i < workload.length := by
    apply hstands.lt
    rw [show (s.population whereabouts).whereabouts i = .placed p from hplace]
    exact nofun
  have hi := hstands.stands i
  rw [show (s.population whereabouts).whereabouts i = .placed p from hplace,
    created_eq (List.getElem?_eq_getElem hlt)] at hi
  exact ⟨workload[i], List.getElem?_eq_getElem hlt, hi⟩

/-- A batch has each of its requests once. -/
theorem Populated.nodup (h : Populated c workload s B) (p : Place) : (s.contents B p).Nodup :=
  h.choose_spec.1.nodup p

/-! ## The first request of a queue -/

/-- The first request of a prefill queue is taken by a first worker. -/
theorem first_prefill_fits {a : Arrival} {r : Request} (ha : c.Serves a)
    (hs : Stands c (Request.create a.req_init_counter a.prefill_length a.output_lens) r
      (.placed (.prefill_queue wid))) (first : (c.worker wid).pipe_rank = 0) :
    breaks c.config.enable_chunked_prefill
      (sched_size c.config.enable_chunked_prefill r.remain_prefill_lens
        c.config.max_prefill_tokens 0) c.config.max_prefill_tokens = false := by
  have hprompt := ha.prompt hs.2.1.starts
  have hremain : r.remain_prefill_lens = a.prefill_length ∨ 0 < r.remain_prefill_lens :=
    hs.2.2 first
  have hle : r.remain_prefill_lens ≤ a.prefill_length := hs.2.1.remain
  have hmax : 0 < c.config.max_prefill_tokens := positive_or_default_pos _
  unfold breaks sched_size
  cases hchunked : c.config.enable_chunked_prefill with
  | true =>
    rw [hchunked, if_pos rfl] at hprompt
    rw [if_pos rfl, if_pos rfl, decide_eq_false_iff_not]
    omega
  | false =>
    rw [hchunked, if_neg Bool.false_ne_true] at hprompt
    rw [if_neg Bool.false_ne_true, if_neg Bool.false_ne_true, decide_eq_false_iff_not]
    omega

/-- The first request of a decode queue is taken. -/
theorem first_decode_fits {a : Arrival} {r : Request} (ha : c.Serves a)
    (hs : Decodes (Request.create a.req_init_counter a.prefill_length a.output_lens) r) :
    r.current_context_len + 1 ≤ 50000 := by
  have hstarts : a.req_init_counter ≤ r.counter := hs.starts
  have hcount := hs.count
  have hmore : r.counter < a.output_lens := hs.more
  have hcontext := ha.context (by omega)
  have hlens : r.prefill_lens = a.prefill_length := hs.prefill_lens
  unfold Request.current_context_len
  omega

theorem take_chunk_takes {requests : Nat → Request} {rest : List Nat} {n : Nat} (hn : 0 < n) :
    (take_chunk requests (requests i).chunk_id n (i :: rest)).1 ≠ [] := by
  obtain ⟨n, rfl⟩ := Nat.exists_eq_add_one.mpr hn
  unfold take_chunk
  rw [if_neg (not_not.mpr rfl)]
  exact List.cons_ne_nil _ _

theorem cut_chunks_takes {chunked : Bool} {rest : List Nat} {chunk_id n chunk_size max : Nat}
    (hn : 0 < n) (hqueue : (s.workers wid).prefill_queue = i :: rest)
    (hfits : breaks chunked (sched_size chunked (s.requests i).remain_prefill_lens max chunk_size)
      max = false) :
    (cut_chunks chunked wid chunk_id n chunk_size max s).1 ≠ [] := by
  obtain ⟨n, rfl⟩ := Nat.exists_eq_add_one.mpr hn
  unfold cut_chunks
  rw [hqueue]
  dsimp only
  rw [hfits, if_neg Bool.false_ne_true]
  exact List.cons_ne_nil _ _

/-- A prefill takes a request out of a queue that is not empty. -/
theorem enter_prefill_takes (hw : Servable c workload) (hs : Populated c workload s B)
    (hqueue : (s.workers wid).prefill_queue ≠ []) : (enter_prefill c s wid).1 ≠ [] := by
  obtain ⟨i, rest, hcons⟩ := List.exists_cons_of_ne_nil hqueue
  have hsize : 0 < min c.config.max_prefill_batch (s.workers wid).prefill_queue.length :=
    lt_min (positive_or_default_pos _) (List.length_pos_of_ne_nil hqueue)
  unfold enter_prefill
  dsimp only
  split
  · rw [hcons] at hsize ⊢
    exact take_chunk_takes hsize
  · next first =>
    have hi : i ∈ (s.workers wid).prefill_queue := hcons ▸ List.mem_cons_self
    obtain ⟨a, ha, hstands⟩ := hs.stands (p := .prefill_queue wid) hi
    refine cut_chunks_takes (s := { s with drawn := s.drawn + 1 }) hsize hcons ?_
    exact first_prefill_fits (hw.requests a (List.mem_of_getElem? ha)) hstands (not_not.mp first)

/-- A decode takes a request out of a queue that is not empty. -/
theorem enter_decodes_takes (hw : Servable c workload) (hs : Populated c workload s B)
    (remaining : Nat) (hremaining : 0 < remaining) (hqueue : (s.workers wid).decode_queue ≠ []) :
    (enter_decodes s wid remaining).1 ≠ [] := by
  obtain ⟨i, rest, hcons⟩ := List.exists_cons_of_ne_nil hqueue
  have hi : i ∈ (s.workers wid).decode_queue := hcons ▸ List.mem_cons_self
  obtain ⟨a, ha, hstands⟩ := hs.stands (p := .decode_queue wid) hi
  have hfits := first_decode_fits (hw.requests a (List.mem_of_getElem? ha)) hstands.2
  obtain ⟨n, hn⟩ : ∃ n, min remaining (s.workers wid).decode_queue.length = n + 1 :=
    Nat.exists_eq_add_one.mpr (lt_min hremaining (List.length_pos_of_ne_nil hqueue))
  unfold enter_decodes
  dsimp only
  rw [hn, hcons]
  unfold take_decodes
  dsimp only
  rw [if_neg (by omega)]
  exact List.cons_ne_nil _ _

/-! ## The times of an iteration -/

/-- The overhead of a first worker is not negative. -/
theorem iteration_delay {p : Prop} [Decidable p] {delay : ℚ} (h : 0 ≤ delay) (num_tokens : Nat) :
    0 ≤ if p then delay + add_ray_overhead num_tokens else delay := by
  unfold add_ray_overhead
  split
  · positivity
  · exact h

theorem prefill_estimated (hw : Servable c workload) (hs : Populated c workload s B)
    {items : List Nat} (hitems : (B wid).items = items) (hsome : items ≠ []) :
    Estimated (get_prefill_time c.profiles c.config.engine_type c.config.model_type
      c.config.tp_prefill c.PP_prefill
      (items.map fun i => (s.requests i).current_prefill_lens)) := by
  apply hw.prefill_times
  subst hitems
  refine ⟨hsome, hs.nodup (.prefill_batch wid), fun i hi => ?_⟩
  obtain ⟨a, ha, hstands⟩ := hs.stands (p := .prefill_batch wid) hi
  exact ⟨a, ha, hstands.2.starts, hstands.2.current⟩

theorem decode_estimated (hw : Servable c workload) (hs : Populated c workload s B)
    {reqs : List Nat} (hreqs : (B wid).decode_reqs = reqs) (hsome : reqs ≠ []) :
    Estimated (get_decode_time c.profiles c.config.engine_type c.config.model_type
      c.config.tp_decode c.PP_decode reqs.length
      (reqs.map fun i => (s.requests i).current_context_len + 1)) := by
  apply hw.decode_times
  subst hreqs
  refine ⟨hsome, hs.nodup (.decode_batch wid), fun i hi => ?_⟩
  obtain ⟨a, ha, hstands⟩ := hs.stands (p := .decode_batch wid) hi
  have hstarts : a.req_init_counter ≤ (s.requests i).counter := hstands.2.starts
  have hcount := hstands.2.count
  have hmore : (s.requests i).counter < a.output_lens := hstands.2.more
  have hlens : (s.requests i).prefill_lens = a.prefill_length := hstands.2.prefill_lens
  refine ⟨a, ha, by omega, ?_⟩
  unfold Request.current_context_len
  omega

/-! ## The process of a worker -/

theorem iteration_starts {g : WorkerState → WorkerState} {delay : ℚ}
    (hstatus : ∀ v, (s1.workers v).status = (s.workers v).status) (hdelay : 0 ≤ delay)
    (htakes : (s1.modify_worker wid g).Takes wid) :
    ∃ s', (s1.modify_worker wid g).timeout (.iteration wid) delay = .ok s' ∧ Starts s wid s' := by
  unfold timeout
  rw [if_neg (not_lt.mpr hdelay)]
  refine ⟨_, rfl, htakes, ?_⟩
  intro v hv
  rw [schedule_workers, modify_worker_workers, Function.update_of_ne hv, hstatus]

theorem do_prefill_starts (hc : c.Wired) (hw : Servable c workload)
    (hs : Populated c workload s (Function.update s.batches wid .empty))
    (hqueue : (s.workers wid).prefill_queue ≠ []) :
    ∃ s', do_prefill c s wid = .ok s' ∧ Starts s wid s' := by
  have htakes := enter_prefill_takes hw hs hqueue
  have henter := enter_prefill_follows c 0 wid s s.batches
  unfold do_prefill
  generalize enter_prefill c s wid = entered at htakes henter ⊢
  obtain ⟨items, s1⟩ := entered
  dsimp only at htakes henter ⊢
  have hitems : (Function.update s.batches wid { Batch.empty with items := items } wid).items =
      items := by
    rw [Function.update_self]
  obtain ⟨delay, hdelay, hpos⟩ := prefill_estimated hw (henter.populated hc hs) hitems htakes
  split
  · have hdecode := enter_decodes_follows c 0 wid s1 s.batches
      (b := { Batch.empty with items := items }) (c.config.max_prefill_tokens -
        (items.map fun i => (s1.requests i).current_prefill_lens).sum) rfl rfl
    generalize enter_decodes s1 wid (c.config.max_prefill_tokens -
      (items.map fun i => (s1.requests i).current_prefill_lens).sum) = entered at hdecode ⊢
    obtain ⟨reqs, s2⟩ := entered
    dsimp only at hdecode ⊢
    rw [ok_bind hdelay]
    refine iteration_starts (henter.trans hdecode).frame.status (iteration_delay hpos _) ?_
    unfold Takes
    rw [modify_worker_workers, Function.update_self]
    exact htakes
  · rw [ok_bind hdelay]
    refine iteration_starts henter.frame.status (iteration_delay hpos _) ?_
    unfold Takes
    rw [modify_worker_workers, Function.update_self]
    exact htakes

theorem do_decode_starts (hc : c.Wired) (hw : Servable c workload)
    (hs : Populated c workload s (Function.update s.batches wid .empty))
    (hqueue : (s.workers wid).decode_queue ≠ []) :
    ∃ s', do_decode c s wid = .ok s' ∧ Starts s wid s' := by
  have htakes := enter_decodes_takes hw hs c.config.max_decode_tokens
    (positive_or_default_pos _) hqueue
  have henter := enter_decodes_follows c 0 wid s s.batches (b := .empty)
    c.config.max_decode_tokens rfl rfl
  unfold do_decode
  generalize enter_decodes s wid c.config.max_decode_tokens = entered at htakes henter ⊢
  obtain ⟨reqs, s1⟩ := entered
  dsimp only at htakes henter ⊢
  have hreqs : (Function.update s.batches wid { Batch.empty with decode_reqs := reqs }
      wid).decode_reqs = reqs := by
    rw [Function.update_self]
  obtain ⟨delay, hdelay, hpos⟩ := decode_estimated hw (henter.populated hc hs) hreqs htakes
  rw [← Function.comp_def (· + 1), ← List.map_map] at hdelay
  rw [ok_bind hdelay]
  refine iteration_starts henter.frame.status (iteration_delay hpos _) ?_
  unfold Takes
  rw [modify_worker_workers, Function.update_self]
  exact htakes

/-- An iteration takes a request when there is one in a queue. -/
theorem run_iteration_starts (hc : c.Wired) (hw : Servable c workload)
    (hs : Populated c workload s (Function.update s.batches wid .empty))
    (hqueue : (s.workers wid).prefill_queue ≠ [] ∨ (s.workers wid).decode_queue ≠ []) :
    ∃ s', run_iteration c s wid = .ok s' ∧ Starts s wid s' := by
  unfold run_iteration
  split
  · next hprefill => exact do_prefill_starts hc hw hs hprefill.1
  · next hdecode =>
    apply do_decode_starts hc hw hs
    intro hnil
    -- there is no back pressure without a request to decode
    have hpressure : has_back_pressure c s wid = false := by
      unfold has_back_pressure
      rw [hnil]
      rfl
    rw [hpressure] at hdecode
    exact hdecode ⟨hqueue.resolve_right (not_not.mpr hnil), rfl⟩

theorem run_loop_starts (hc : c.Wired) (hw : Servable c workload)
    (hs : Populated c workload s (Function.update s.batches wid .empty)) :
    ∃ s', run_loop c s wid = .ok s' ∧ Starts s wid s' := by
  unfold run_loop
  split
  · refine ⟨_, rfl, ?_, ?_⟩
    · unfold Takes
      rw [modify_worker_workers, Function.update_self]
      exact trivial
    · intro v hv
      rw [modify_worker_workers, Function.update_of_ne hv]
  · next hqueue =>
    apply run_iteration_starts hc hw hs
    by_cases hnil : (s.workers wid).prefill_queue = []
    · exact .inr fun h => hqueue ⟨hnil, h⟩
    · exact .inl hnil

end Sim

end simdistserve
