-- The loop that looks for dead decode workers and recovers their requests
-- (single_stage_engine.py). At each await the other loops of the engine may run.
import RecomputeOrMigrate.General.Runs
import RecomputeOrMigrate.Recovery
import RecomputeOrMigrate.RomCosts

open calls runs

namespace distserve

/-! ## The model -/

/-- What comes of `await handle.ping.remote()`. -/
inductive PingOutcome
  | returned
  /-- A `RayActorError`, with its text. -/
  | actor_died (text : String)
  /-- Any other exception. -/
  | failed
deriving DecidableEq

def PingOutcome.is_death : PingOutcome → Bool
  | .actor_died _ => true
  | _ => false

/-- Where `_failure_monitor_loop` is. -/
inductive MonitorPoint
  /-- Before the next worker of the round. When none is left, it is in the sleep. -/
  | pinging (rest : List Nat)
  /-- In `_handle_decode_worker_failure` for `worker`, before the next of the affected
  requests. -/
  | recovering (env : Surroundings) (worker : Nat) (affected : List RequestId) (rest : List Nat)

/-- The workers that the round has not come to. -/
def MonitorPoint.rest : MonitorPoint → List Nat
  | .pinging rest => rest
  | .recovering _ _ _ rest => rest

/-- One round over `list(self._worker_handles.items())`, with the pings that were made. -/
structure Round where
  handles : List Nat
  pings : List (Nat × PingOutcome)

/-- The workers that the round found dead, in the order in which it found them. -/
def Round.deaths (r : Round) : List Nat := (r.pings.filter (·.2.is_death)).map Prod.fst

def deaths (rounds : List Round) : List Nat := rounds.flatMap Round.deaths

/-- The engine and its monitor. The rounds are not in the source: they remember what was
pinged. -/
structure FailureMonitor where
  engine : RecoveryState
  point : MonitorPoint
  past : List Round
  round : Round

/-- `setdefault(worker, set())`. -/
def setdefault (worker_request_ids : List (Nat × Finset RequestId)) (worker : Nat) :
    List (Nat × Finset RequestId) :=
  if worker ∈ worker_request_ids.map Prod.fst then worker_request_ids
  else worker_request_ids ++ [(worker, ∅)]

/-- `_build_worker_index`. The list `workers` has the workers of each stage. -/
def RecoveryState.build_worker_index (workers : List (List Nat)) (s : RecoveryState) :
    RecoveryState :=
  let stages := (List.range workers.length).filter fun pp_rank => workers[pp_rank]?.any (· ≠ [])
  { s with
    worker_handles := stages
    worker_request_ids := stages.foldl setdefault s.worker_request_ids }

namespace FailureMonitor

def init : FailureMonitor where
  engine := ⟨[], [], ∅, [], [], []⟩
  point := .pinging []
  past := []
  round := ⟨[], []⟩

def rounds (m : FailureMonitor) : List Round := m.past ++ [m.round]

inductive Action
  | build_worker_index (workers : List (List Nat))
  /-- The other loops of the engine change which requests the workers have. -/
  | track (worker_request_ids : List (Nat × Finset RequestId))
  /-- The sleep ends. -/
  | wake
  /-- The turn of the next worker. What is given counts only as far as it is asked for. -/
  | ping (outcome : PingOutcome) (env : Surroundings)
  /-- The turn of the next affected request, or the return after the last one. -/
  | recover

/-- The ping of the next worker, and the turn after it. -/
def pinged (m : FailureMonitor) (worker : Nat) (outcome : PingOutcome) (rest : List Nat) :
    FailureMonitor :=
  { m with
    point := .pinging rest
    round := { m.round with pings := m.round.pings ++ [(worker, outcome)] } }

/-- The ping raised `RayActorError`, and the recovery begins. -/
def died (m : FailureMonitor) (env : Surroundings) (worker : Nat) (text : String)
    (rest : List Nat) : FailureMonitor :=
  { m.pinged worker (.actor_died text) rest with
    engine := m.engine.begun env worker text
    point := .recovering env worker (env.list (m.engine.affected worker)) rest }

def step (rom_config : ROMConfig) : Machine PyError FailureMonitor Action
  | m, .build_worker_index workers =>
    some (.ok { m with engine := m.engine.build_worker_index workers })
  | m, .track worker_request_ids =>
    some (.ok { m with engine := { m.engine with worker_request_ids } })
  | m, .wake =>
    match m.point with
    | .pinging [] => some (.ok { m with
        point := .pinging m.engine.worker_handles
        past := m.past ++ [m.round]
        round := ⟨m.engine.worker_handles, []⟩ })
    | _ => none
  | m, .ping outcome env =>
    match m.point with
    | .pinging (worker :: rest) =>
      if worker ∈ m.engine.dead_workers then some (.ok { m with point := .pinging rest })
      else match outcome with
        | .actor_died text => some (.ok (m.died env worker text rest))
        | outcome => some (.ok (m.pinged worker outcome rest))
    | _ => none
  | m, .recover =>
    match m.point with
    | .recovering env worker (r :: affected) rest =>
      match recover_one_request env rom_config worker env.target_worker_idx r m.engine with
      | .ok () engine => some (.ok { m with
          engine
          point := .recovering env worker affected rest })
      -- It ends the loop: the call is in the handler of the `RayActorError`.
      | .error exc _ => some (.error exc)
    | .recovering _ _ [] rest => some (.ok { m with point := .pinging rest })
    | _ => none

variable {env : Surroundings} {rom_config : ROMConfig} {worker : Nat} {r : RequestId}
  {s s' : RecoveryState} {m m' : FailureMonitor}

/-! ## One step -/

/-- What a step can do. -/
inductive Turn (rom_config : ROMConfig) (m : FailureMonitor) : FailureMonitor → Prop
  | build_worker_index (workers : List (List Nat)) :
    Turn rom_config m { m with engine := m.engine.build_worker_index workers }
  | track (worker_request_ids : List (Nat × Finset RequestId)) :
    Turn rom_config m { m with engine := { m.engine with worker_request_ids } }
  | wakes (hp : m.point = .pinging []) : Turn rom_config m { m with
      point := .pinging m.engine.worker_handles
      past := m.past ++ [m.round]
      round := ⟨m.engine.worker_handles, []⟩ }
  | skips {worker : Nat} {rest : List Nat} (hp : m.point = .pinging (worker :: rest))
    (hdead : worker ∈ m.engine.dead_workers) : Turn rom_config m { m with point := .pinging rest }
  | answers {worker : Nat} {rest : List Nat} {outcome : PingOutcome}
    (hp : m.point = .pinging (worker :: rest)) (halive : worker ∉ m.engine.dead_workers)
    (hno : outcome.is_death = false) : Turn rom_config m (m.pinged worker outcome rest)
  | dies {env : Surroundings} {worker : Nat} {text : String} {rest : List Nat}
    (hp : m.point = .pinging (worker :: rest)) (halive : worker ∉ m.engine.dead_workers) :
    Turn rom_config m (m.died env worker text rest)
  | recovers {env : Surroundings} {worker : Nat} {r : RequestId} {affected : List RequestId}
    {rest : List Nat} {decision : RomDecision} {s : RecoveryState}
    (hp : m.point = .recovering env worker (r :: affected) rest)
    (htried : Tried rom_config worker env.target_worker_idx r decision m.engine s) :
    Turn rom_config m { m with engine := s, point := .recovering env worker affected rest }
  | returns {env : Surroundings} {worker : Nat} {rest : List Nat}
    (hp : m.point = .recovering env worker [] rest) :
    Turn rom_config m { m with point := .pinging rest }

theorem step_turn {a : Action} (h : step rom_config m a = some (.ok m')) :
    Turn rom_config m m' := by
  cases a with
  | build_worker_index workers =>
    cases h
    exact .build_worker_index workers
  | track worker_request_ids =>
    cases h
    exact .track worker_request_ids
  | wake =>
    simp only [step] at h
    split at h
    · next hp =>
      cases h
      exact .wakes hp
    · cases h
  | ping outcome env =>
    simp only [step] at h
    split at h
    · next worker rest hp =>
      split at h
      · next hdead =>
        cases h
        exact .skips hp hdead
      · next halive =>
        cases outcome with
        | actor_died text =>
          cases h
          exact .dies hp halive
        | returned =>
          cases h
          exact .answers hp halive rfl
        | failed =>
          cases h
          exact .answers hp halive rfl
    · cases h
  | recover =>
    simp only [step] at h
    split at h
    · next env worker r affected rest hp =>
      rcases recover_one_request_cases env rom_config worker env.target_worker_idx r m.engine with
        ⟨exc, -, he⟩ | ⟨decision, costs, s, -, he, htried⟩
      · rw [he] at h
        cases h
      · rw [he] at h
        cases h
        exact .recovers hp htried
    · next env worker rest hp =>
      cases h
      exact .returns hp
    · cases h

theorem reaches_pinging {affected : List RequestId} {rest : List Nat}
    (hp : m.point = .recovering env worker affected rest)
    (h : affected.forM (recover_one_request env rom_config worker env.target_worker_idx) m.engine =
      .ok () s) :
    Reaches (step rom_config) m { m with engine := s, point := .pinging rest } := by
  induction affected generalizing m with
  | nil =>
    cases h
    apply (Reaches.refl _ m).tail (a := .recover)
    simp only [step, hp]
  | cons r affected ih =>
    change (recover_one_request env rom_config worker env.target_worker_idx r >>= fun _ =>
      affected.forM (recover_one_request env rom_config worker env.target_worker_idx)) m.engine =
        .ok () s at h
    rw [bind_apply] at h
    split at h
    · next s₁ h₁ =>
      have hstep : step rom_config m .recover = some (.ok { m with
          engine := s₁
          point := .recovering env worker affected rest }) := by
        simp only [step, hp, h₁]
      exact Relation.ReflTransGen.head ⟨_, hstep⟩ (ih rfl h)
    · cases h

/-- When nothing else runs in between, a death is handled as `_handle_decode_worker_failure`
does it. -/
theorem handles_death {text : String} {rest : List Nat}
    (hp : m.point = .pinging (worker :: rest)) (halive : worker ∉ m.engine.dead_workers)
    (h : handle_decode_worker_failure env rom_config worker text m.engine = .ok () s) :
    Reaches (step rom_config) m
      { m.pinged worker (.actor_died text) rest with engine := s } := by
  rw [handle_decode_worker_failure_eq] at h
  have hstep : step rom_config m (.ping (.actor_died text) env) =
      some (.ok (m.died env worker text rest)) := by
    simp only [step, hp, if_neg halive]
  exact Relation.ReflTransGen.head ⟨_, hstep⟩ (reaches_pinging rfl h)

theorem deaths_append (rounds rounds' : List Round) :
    deaths (rounds ++ rounds') = deaths rounds ++ deaths rounds' := List.flatMap_append

theorem deaths_rounds (m : FailureMonitor) :
    deaths m.rounds = deaths m.past ++ m.round.deaths := by
  simp [rounds, deaths]

/-- A round that begins has found no death. -/
theorem deaths_begun (m : FailureMonitor) (handles : List Nat) :
    deaths (m.past ++ [m.round] ++ [⟨handles, []⟩]) = deaths m.rounds := by
  rw [deaths_append]
  exact List.append_nil _

theorem deaths_subset (r : Round) : r.deaths ⊆ r.pings.map Prod.fst := by
  intro worker h
  obtain ⟨p, hp, rfl⟩ := List.mem_map.mp h
  exact List.mem_map_of_mem (List.mem_of_mem_filter hp)

end FailureMonitor

/-- The round pinged the workers that were not known to be dead, and no others. -/
def Round.Whole (dead : List Nat) (r : Round) : Prop :=
  r.pings.map Prod.fst = r.handles.filter (· ∉ dead)

/-- The workers of the calls of `log_worker_failure`. -/
def RecoveryState.failures (s : RecoveryState) : List Nat :=
  s.log.filterMap fun
    | .log_worker_failure worker_id _ _ => some worker_id
    | _ => none

theorem RecoveryState.build_worker_index_nodup (workers : List (List Nat)) (s : RecoveryState) :
    (s.build_worker_index workers).worker_handles.Nodup :=
  List.nodup_range.filter _

theorem Tried.failures {rom_config : ROMConfig} {worker : Nat} {target : Option Nat}
    {r : RequestId} {decision : RomDecision} {s s' : RecoveryState}
    (h : Tried rom_config worker target r decision s s') : s'.failures = s.failures := by
  obtain ⟨prompt_len, bw, c_mig, c_recomp, error, hlog⟩ := h.log
  simp [RecoveryState.failures, hlog]

namespace FailureMonitor

/-- The dead workers are those whose ping raised `RayActorError`, each found once, and the
rounds ping all others. -/
structure Watches (m : FailureMonitor) : Prop where
  handles_nodup : m.engine.worker_handles.Nodup
  dead : m.engine.dead_workers = (deaths m.rounds).toFinset
  nodup : (deaths m.rounds).Nodup
  failures : m.engine.failures = deaths m.rounds
  round_nodup : m.round.handles.Nodup
  round : ∃ before, m.round.handles = before ++ m.point.rest ∧
    m.round.pings.map Prod.fst = before.filter (· ∉ deaths m.past)
  past : ∀ before r after, m.past = before ++ r :: after → r.Whole (deaths before)

theorem watches_init : Watches init where
  handles_nodup := List.nodup_nil
  dead := rfl
  nodup := List.nodup_nil
  failures := rfl
  round_nodup := List.nodup_nil
  round := ⟨[], rfl, rfl⟩
  past before r after h := by simp [init] at h

/-- The worker of this turn was not pinged before in the round. -/
theorem Watches.notMem (h : Watches m) {rest : List Nat} (hrest : m.point.rest = worker :: rest) :
    worker ∉ m.round.pings.map Prod.fst := by
  obtain ⟨before, hhandles, hpings⟩ := h.round
  have hnodup := h.round_nodup
  rw [hhandles, hrest] at hnodup
  rw [hpings]
  intro hmem
  exact List.disjoint_of_nodup_append hnodup (List.mem_of_mem_filter hmem) List.mem_cons_self

/-- It is known to be dead when an earlier round found it dead. -/
theorem Watches.mem_dead_workers (h : Watches m) {rest : List Nat}
    (hrest : m.point.rest = worker :: rest) :
    worker ∈ m.engine.dead_workers ↔ worker ∈ deaths m.past := by
  rw [h.dead, List.mem_toFinset, deaths_rounds, List.mem_append]
  constructor
  · rintro (hpast | hround)
    · exact hpast
    · exact absurd (deaths_subset _ hround) (h.notMem hrest)
  · exact Or.inl

/-- The turn of a worker that is known to be dead. -/
theorem Watches.skipped (h : Watches m) {rest : List Nat}
    (hp : m.point = .pinging (worker :: rest)) (hdead : worker ∈ m.engine.dead_workers) :
    Watches { m with point := .pinging rest } := by
  have hrest : m.point.rest = worker :: rest := by rw [hp]; rfl
  obtain ⟨before, hhandles, hpings⟩ := h.round
  have hpast := (h.mem_dead_workers hrest).mp hdead
  refine { h with round := ⟨before ++ [worker], ?_, ?_⟩ }
  · rw [hhandles, hrest]
    simp [MonitorPoint.rest]
  · rw [hpings, List.filter_append]
    simp [hpast]

/-- The turn of a worker that is pinged. -/
theorem Watches.round_pinged (h : Watches m) {rest : List Nat}
    (hp : m.point = .pinging (worker :: rest)) (halive : worker ∉ m.engine.dead_workers)
    (outcome : PingOutcome) :
    ∃ before, (m.pinged worker outcome rest).round.handles = before ++ rest ∧
      (m.pinged worker outcome rest).round.pings.map Prod.fst =
        before.filter (· ∉ deaths m.past) := by
  have hrest : m.point.rest = worker :: rest := by rw [hp]; rfl
  obtain ⟨before, hhandles, hpings⟩ := h.round
  have hpast := (h.mem_dead_workers hrest).not.mp halive
  refine ⟨before ++ [worker], ?_, ?_⟩
  · change m.round.handles = _
    rw [hhandles, hrest]
    simp
  · rw [List.filter_append, ← hpings]
    simp [pinged, hpast]

theorem deaths_pinged (m : FailureMonitor) (worker : Nat) (outcome : PingOutcome)
    (rest : List Nat) : deaths (m.pinged worker outcome rest).rounds =
      deaths m.rounds ++ if outcome.is_death then [worker] else [] := by
  rw [deaths_rounds, deaths_rounds, List.append_assoc]
  congr 1
  change ((m.round.pings ++ [(worker, outcome)]).filter (·.2.is_death)).map Prod.fst = _
  rw [List.filter_append, List.map_append]
  congr 1
  cases outcome <;> rfl

theorem Turn.watches (h : Turn rom_config m m') (hm : Watches m) : Watches m' := by
  cases h with
  | build_worker_index workers =>
    exact { hm with handles_nodup := RecoveryState.build_worker_index_nodup workers _ }
  | track worker_request_ids => exact { hm with }
  | wakes hp =>
    obtain ⟨before, hhandles, hpings⟩ := hm.round
    have hall : before = m.round.handles := by rw [hhandles, hp]; simp [MonitorPoint.rest]
    have hrounds := deaths_begun m m.engine.worker_handles
    refine
      { handles_nodup := hm.handles_nodup
        dead := hm.dead.trans (congrArg List.toFinset hrounds.symm)
        nodup := hrounds ▸ hm.nodup
        failures := hm.failures.trans hrounds.symm
        round_nodup := hm.handles_nodup
        round := ⟨[], rfl, rfl⟩
        past := fun first r after heq => ?_ }
    rcases List.eq_nil_or_concat after with rfl | ⟨middle, last, rfl⟩
    · obtain ⟨rfl, hr⟩ := List.append_inj' heq rfl
      cases hr
      rw [hall] at hpings
      exact hpings
    · refine hm.past first r middle ?_
      rw [List.concat_eq_append, ← List.cons_append, ← List.append_assoc] at heq
      exact (List.append_inj' heq rfl).1
  | skips hp hdead => exact hm.skipped hp hdead
  | @answers worker rest outcome hp halive hno =>
    have hdeaths : deaths (m.pinged worker outcome rest).rounds = deaths m.rounds := by
      rw [deaths_pinged, hno]
      exact List.append_nil _
    exact
      { handles_nodup := hm.handles_nodup
        dead := hm.dead.trans (congrArg List.toFinset hdeaths.symm)
        nodup := hdeaths ▸ hm.nodup
        failures := hm.failures.trans hdeaths.symm
        round_nodup := hm.round_nodup
        round := hm.round_pinged hp halive outcome
        past := hm.past }
  | @dies env worker text rest hp halive =>
    have hdeaths : deaths (m.died env worker text rest).rounds = deaths m.rounds ++ [worker] :=
      deaths_pinged m worker (.actor_died text) rest
    refine
      { handles_nodup := hm.handles_nodup
        dead := ?_
        nodup := ?_
        failures := ?_
        round_nodup := hm.round_nodup
        round := hm.round_pinged hp halive (.actor_died text)
        past := hm.past }
    · rw [hdeaths, List.toFinset_append, ← hm.dead]
      ext w
      simp [died, RecoveryState.begun]
    · rw [hdeaths]
      refine List.nodup_append'.mpr ⟨hm.nodup, List.nodup_singleton _, ?_⟩
      rw [hm.dead, List.mem_toFinset] at halive
      exact List.disjoint_singleton.mpr halive
    · rw [hdeaths, ← hm.failures]
      simp [RecoveryState.failures, died, RecoveryState.begun]
  | recovers hp htried =>
    obtain ⟨before, hhandles, hpings⟩ := hm.round
    rw [hp] at hhandles
    exact
      { handles_nodup := by rw [htried.worker_handles]; exact hm.handles_nodup
        dead := htried.dead_workers.trans hm.dead
        nodup := hm.nodup
        failures := htried.failures.trans hm.failures
        round_nodup := hm.round_nodup
        round := ⟨before, hhandles, hpings⟩
        past := hm.past }
  | returns hp =>
    obtain ⟨before, hhandles, hpings⟩ := hm.round
    rw [hp] at hhandles
    exact { hm with round := ⟨before, hhandles, hpings⟩ }

theorem watches_of_reaches (h : Reaches (step rom_config) init m) : Watches m := by
  induction h with
  | refl => exact watches_init
  | tail _ hstep ih => exact (step_turn hstep.choose_spec).watches ih

/-- In each run, whatever the engine does in between, the death of a worker is found once and
handled once, a dead worker is not pinged again, and each round pings all other workers. -/
theorem each_death_is_handled_once (h : Reaches (step rom_config) init m) :
    (deaths m.rounds).Nodup ∧ m.engine.failures = deaths m.rounds ∧
      m.engine.dead_workers = (deaths m.rounds).toFinset ∧
      ∀ before r after, m.past = before ++ r :: after →
        r.pings.map Prod.fst = r.handles.filter (· ∉ deaths before) := by
  have hw := watches_of_reaches h
  exact ⟨hw.nodup, hw.failures, hw.dead, hw.past⟩

/-- Two workers with requests on both. The second one dies in the first round, and after its
recovery there is a round without it. -/
def secondDies : List Action :=
  [.build_worker_index [[0], [1]], .track [(0, {5}), (1, {5, 6})], .wake, .ping .failed allSucceed,
    .ping (.actor_died "died") allSucceed, .recover, .recover, .recover, .wake,
    .ping .returned allSucceed, .ping .returned allSucceed, .wake]

theorem the_second_worker_dies_once : ∃ m, Reaches (step alwaysRecompute) init m ∧
    deaths m.rounds = [1] ∧ m.past.map (·.handles) = [[], [0, 1], [0, 1]] ∧
    ((deaths m.rounds).Nodup ∧ m.engine.failures = deaths m.rounds ∧
      m.engine.dead_workers = (deaths m.rounds).toFinset ∧
      ∀ before r after, m.past = before ++ r :: after →
        r.pings.map Prod.fst = r.handles.filter (· ∉ deaths before)) := by
  obtain ⟨m, hr, hm⟩ := reaches_of_any (m := step alwaysRecompute) (s := init) secondDies
    (fun m => decide (deaths m.rounds = [1] ∧ m.past.map (·.handles) = [[], [0, 1], [0, 1]]))
    (by decide +kernel)
  obtain ⟨hdeaths, hhandles⟩ := of_decide_eq_true hm
  exact ⟨m, hr, hdeaths, hhandles, each_death_is_handled_once hr⟩

/-! ## What the log tells -/

end FailureMonitor

/-- A line of the log, without the costs and the texts. -/
inductive RomLogLine
  | worker_failure (worker_id : Nat) (affected_request_ids : List RequestId)
  | decision (worker_id : Nat) (request_id : RequestId) (decision : RomDecision)
  | recovery (request_id : RequestId) (decision : RomDecision) (success : Bool)
deriving DecidableEq

def RomLogCall.line : RomLogCall → RomLogLine
  | .log_worker_failure worker_id affected _ => .worker_failure worker_id affected
  | .log_decision request_id _ _ _ _ decision _ worker_id _ =>
    .decision worker_id request_id decision
  | .log_recovery request_id decision success _ => .recovery request_id decision success

/-- The failure of a worker, and the decision for each of its requests. -/
structure FailureReport where
  worker : Nat
  affected : List RequestId
  decisions : List (RequestId × RomDecision)

/-- Each request has its decision, and then that the action for it failed. -/
def FailureReport.lines (f : FailureReport) : List RomLogLine :=
  .worker_failure f.worker f.affected :: f.decisions.flatMap fun p =>
    [.decision f.worker p.1 p.2, .recovery p.1 p.2 false]

def FailureReport.add (f : FailureReport) (r : RequestId) (decision : RomDecision) :
    FailureReport :=
  { f with decisions := f.decisions ++ [(r, decision)] }

/-- The report has all affected requests but the last ones, in their order. -/
def FailureReport.Lacks (f : FailureReport) (affected : List RequestId) : Prop :=
  f.decisions.map Prod.fst ++ affected = f.affected

namespace FailureMonitor

/-- What the last report lacks while its requests are recovered. -/
def Open (point : MonitorPoint) (last : Option FailureReport) : Prop :=
  match point with
  | .pinging _ => last = none
  | .recovering _ worker affected _ => ∃ f, last = some f ∧ f.worker = worker ∧ f.Lacks affected

/-- The log consists of these reports, one for each death, and all but the one of the recovery
that goes on are complete. No recovery took effect. -/
structure Tells (m : FailureMonitor) (reports : List FailureReport)
    (last : Option FailureReport) : Prop where
  log : m.engine.log.map RomLogCall.line = (reports ++ last.toList).flatMap FailureReport.lines
  workers : (reports ++ last.toList).map (·.worker) = deaths m.rounds
  nodup : ∀ f ∈ reports ++ last.toList, f.affected.Nodup
  complete : ∀ f ∈ reports, f.Lacks []
  going_on : Open m.point last
  recovered : m.engine.recovered = []

variable {reports : List FailureReport} {last : Option FailureReport}

theorem Tells.last_eq_none (h : Tells m reports last) {rest : List Nat}
    (hp : m.point = .pinging rest) : last = none := by
  have := h.going_on
  rwa [hp] at this

/-- A turn of the loop in which nothing is logged. -/
theorem Tells.same (h : Tells m reports last) (hlog : m'.engine.log = m.engine.log)
    (hrecovered : m'.engine.recovered = m.engine.recovered)
    (hdeaths : deaths m'.rounds = deaths m.rounds) (hopen : Open m'.point last) :
    Tells m' reports last where
  log := by rw [hlog]; exact h.log
  workers := h.workers.trans hdeaths.symm
  nodup := h.nodup
  complete := h.complete
  going_on := hopen
  recovered := hrecovered.trans h.recovered

/-- A recovery begins with a report that has no decision yet. -/
theorem Tells.died (h : Tells m reports last) {rest : List Nat}
    (hp : m.point = .pinging (worker :: rest)) (env : Surroundings) (text : String) :
    Tells (m.died env worker text rest) reports
      (some ⟨worker, env.list (m.engine.affected worker), []⟩) := by
  obtain rfl := h.last_eq_none hp
  have hlog := h.log
  have hworkers := h.workers
  rw [Option.toList_none, List.append_nil] at hlog hworkers
  constructor
  · change (m.engine.log ++ [_]).map _ = _
    rw [List.map_append, hlog, List.flatMap_append]
    rfl
  · refine Eq.trans ?_ (deaths_pinged m worker (.actor_died text) rest).symm
    rw [List.map_append, hworkers]
    rfl
  · intro f hf
    rcases List.mem_append.mp hf with hf | hf
    · exact h.nodup f (List.mem_append_left _ hf)
    · obtain rfl := List.mem_singleton.mp hf
      exact env.list_nodup _
  · exact h.complete
  · exact ⟨_, rfl, rfl, rfl⟩
  · exact h.recovered

/-- After its last request the report is complete. -/
theorem Tells.returned (h : Tells m reports last) {rest : List Nat}
    (hp : m.point = .recovering env worker [] rest) :
    Tells { m with point := .pinging rest } (reports ++ last.toList) none := by
  have hgoing := h.going_on
  rw [hp] at hgoing
  obtain ⟨f, rfl, -, hlacks⟩ := hgoing
  constructor
  · rw [Option.toList_none, List.append_nil]
    exact h.log
  · rw [Option.toList_none, List.append_nil]
    exact h.workers
  · rw [Option.toList_none, List.append_nil]
    exact h.nodup
  · intro g hg
    rcases List.mem_append.mp hg with hg | hg
    · exact h.complete g hg
    · obtain rfl := List.mem_singleton.mp hg
      exact hlacks
  · rfl
  · exact h.recovered

end FailureMonitor

end distserve
