-- The actor that keeps the bandwidth and the queue lengths of the decode workers
-- (rom_local_scheduler.py), and when a worker that was removed is chosen again.
import RecomputeOrMigrate.General.Dicts
import RecomputeOrMigrate.General.Histories
import RecomputeOrMigrate.RomDecision

open dicts histories

namespace distserve

/-- `LocalScheduler`. A time is what `time.monotonic()` gives. -/
structure LocalScheduler where
  config : ROMConfig
  bandwidth_mbps : ℚ
  bw_alpha : ℚ
  /-- `none` stands for `-math.inf`. -/
  last_bw_update : Option ℚ
  queue_lengths : Dict Int Int
  bw_history : List ℚ

namespace LocalScheduler

/-- `_BW_STALENESS_THRESHOLD_S`. -/
def bw_staleness_threshold_s : ℚ := 60

def bw_history_max : Nat := 100

/-- `__init__`. -/
def create (rom_config : ROMConfig) : LocalScheduler where
  config := rom_config
  bandwidth_mbps := rom_config.sim_bandwidth_mbps
  bw_alpha := 1 / 5
  last_bw_update := none
  queue_lengths := .empty
  bw_history := []

/-- A measurement that is not positive is ignored. -/
def update_bandwidth (s : LocalScheduler) (bandwidth_mbps now : ℚ) : LocalScheduler :=
  if bandwidth_mbps ≤ 0 then s
  else
    let bw_history := s.bw_history ++ [bandwidth_mbps]
    { s with
      bandwidth_mbps := s.bw_alpha * bandwidth_mbps + (1 - s.bw_alpha) * s.bandwidth_mbps
      last_bw_update := some now
      bw_history := if bw_history_max < bw_history.length then bw_history.tail else bw_history }

/-- The fallback of the configuration when the last measurement is too old. -/
def get_bandwidth (s : LocalScheduler) (now : ℚ) : ℚ :=
  match s.last_bw_update with
  | none => s.config.sim_bandwidth_mbps
  | some t =>
    if bw_staleness_threshold_s < now - t then s.config.sim_bandwidth_mbps else s.bandwidth_mbps

def register_worker (s : LocalScheduler) (worker_id : Int) : LocalScheduler :=
  { s with queue_lengths := s.queue_lengths.setdefault worker_id 0 }

def deregister_worker (s : LocalScheduler) (worker_id : Int) : LocalScheduler :=
  { s with queue_lengths := s.queue_lengths.pop worker_id }

/-- A negative length counts as 0. The worker need not be registered. -/
def update_queue_length (s : LocalScheduler) (worker_id length : Int) : LocalScheduler :=
  { s with queue_lengths := s.queue_lengths.set worker_id (max 0 length) }

def get_queue_length (s : LocalScheduler) (worker_id : Int) : Int :=
  (s.queue_lengths.get? worker_id).getD 0

/-- `candidates` of `get_best_decode_worker`. -/
def candidates (s : LocalScheduler) (exclude : Option (List Int)) : List (Int × Int) :=
  s.queue_lengths.items.filter fun p => p.1 ∉ exclude.getD []

/-- The first of the shortest queues, as `min` takes it. -/
def get_best_decode_worker (s : LocalScheduler) (exclude : Option (List Int)) : Option Int :=
  ((s.candidates exclude).minOn? Prod.snd).map Prod.fst

def reset (s : LocalScheduler) : LocalScheduler :=
  { s with
    bandwidth_mbps := s.config.sim_bandwidth_mbps
    last_bw_update := none
    queue_lengths := .empty
    bw_history := [] }

/-- A remote call to the actor. -/
inductive Message
  | update_bandwidth (bandwidth_mbps now : ℚ)
  | register_worker (worker_id : Int)
  | deregister_worker (worker_id : Int)
  | update_queue_length (worker_id length : Int)
  | reset
deriving DecidableEq

def receive (s : LocalScheduler) : Message → LocalScheduler
  | .update_bandwidth bandwidth_mbps now => s.update_bandwidth bandwidth_mbps now
  | .register_worker worker_id => s.register_worker worker_id
  | .deregister_worker worker_id => s.deregister_worker worker_id
  | .update_queue_length worker_id length => s.update_queue_length worker_id length
  | .reset => s.reset

/-- The actor after these calls. It does one after the other. -/
def after (rom_config : ROMConfig) (heard : List Message) : LocalScheduler :=
  heard.foldl receive (create rom_config)

/-! ## What the calls say of a worker -/

/-- The call names the worker as one that is there. -/
def Message.Names (worker_id : Int) : Message → Prop
  | .register_worker w => w = worker_id
  | .update_queue_length w _ => w = worker_id
  | _ => False

/-- The call removes the worker. -/
def Message.Removes (worker_id : Int) (m : Message) : Prop :=
  m = .deregister_worker worker_id ∨ m = .reset

instance (worker_id : Int) : DecidablePred (Message.Removes worker_id) := fun m =>
  inferInstanceAs (Decidable (m = .deregister_worker worker_id ∨ m = .reset))

/-- The length that the call reports for the worker. -/
def Message.length_of (worker_id : Int) : Message → Option Int
  | .update_queue_length w length => if w = worker_id then some length else none
  | _ => none

/-- The worker was deregistered since its last `register_worker`. -/
def Deregistered (heard : List Message) (worker_id : Int) : Prop :=
  .deregister_worker worker_id ∈ sinceLast (· = .register_worker worker_id) heard

/-- The worker was registered or reported since the last reset, and it was not
deregistered since its last `register_worker`. -/
def Registered (heard : List Message) (worker_id : Int) : Prop :=
  (∃ m ∈ sinceLast (· = .reset) heard, m.Names worker_id) ∧ ¬ Deregistered heard worker_id

/-- The last reported length, clamped at 0. What was reported before the worker was
removed does not count, and a worker without a report has the length 0. -/
def last_length (heard : List Message) (worker_id : Int) : Int :=
  ((sinceLast (Message.Removes worker_id) heard).filterMap
    (Message.length_of worker_id)).getLast?.elim 0 (max 0)

/-- The answer of `get_best_decode_worker` as it should be: `None` when no worker outside
`exclude` is registered, else such a worker with a shortest queue. -/
def Chooses (heard : List Message) (exclude : Option (List Int)) (answer : Option Int) : Prop :=
  (answer = none ↔ ∀ w, Registered heard w → w ∈ exclude.getD []) ∧
    ∀ w, answer = some w → w ∉ exclude.getD [] ∧ Registered heard w ∧
      ∀ v, Registered heard v → v ∉ exclude.getD [] → last_length heard w ≤ last_length heard v

variable {heard : List Message} {m : Message} {w : Int}

/-! ## What the actor keeps -/

/-- The worker was named since it was removed, if it ever was. -/
def Entered (heard : List Message) (worker_id : Int) : Prop :=
  ∃ m ∈ sinceLast (Message.Removes worker_id) heard, m.Names worker_id

theorem not_entered_nil (w : Int) : ¬ Entered [] w := fun ⟨_, hm, _⟩ => List.not_mem_nil hm

theorem entered_append :
    Entered (heard ++ [m]) w ↔ ¬ m.Removes w ∧ (Entered heard w ∨ m.Names w) := by
  unfold Entered
  simp only [mem_sinceLast_append]
  constructor
  · rintro ⟨x, ⟨hr, hx | rfl⟩, hn⟩
    · exact ⟨hr, Or.inl ⟨x, hx, hn⟩⟩
    · exact ⟨hr, Or.inr hn⟩
  · rintro ⟨hr, ⟨x, hx, hn⟩ | hn⟩
    · exact ⟨x, ⟨hr, Or.inl hx⟩, hn⟩
    · exact ⟨m, ⟨hr, Or.inr rfl⟩, hn⟩

theorem last_length_append (heard : List Message) (m : Message) (w : Int) :
    last_length (heard ++ [m]) w =
      if m.Removes w then 0 else (m.length_of w).elim (last_length heard w) (max 0) := by
  unfold last_length
  rw [sinceLast_append]
  split
  · rfl
  · rw [List.filterMap_append]
    cases hl : m.length_of w with
    | none => simp [hl]
    | some n => simp [hl]

theorem deregistered_append :
    Deregistered (heard ++ [m]) w ↔
      m ≠ .register_worker w ∧ (Deregistered heard w ∨ m = .deregister_worker w) := by
  unfold Deregistered
  rw [mem_sinceLast_append, eq_comm (a := Message.deregister_worker w)]

theorem last_length_of_not_entered (h : ¬ Entered heard w) : last_length heard w = 0 := by
  unfold last_length
  have hnil : (sinceLast (Message.Removes w) heard).filterMap (Message.length_of w) = [] := by
    apply List.filterMap_eq_nil_iff.mpr
    intro m hm
    cases m with
    | update_queue_length v n => exact if_neg fun hv => h ⟨_, hm, hv⟩
    | _ => rfl
  rw [hnil]
  rfl

@[simp]
theorem update_bandwidth_queue_lengths (s : LocalScheduler) (bandwidth_mbps now : ℚ) :
    (s.update_bandwidth bandwidth_mbps now).queue_lengths = s.queue_lengths := by
  unfold update_bandwidth
  split <;> rfl

theorem after_append (rom_config : ROMConfig) (heard : List Message) (m : Message) :
    after rom_config (heard ++ [m]) = (after rom_config heard).receive m := by
  unfold after
  rw [List.foldl_append]
  rfl

/-- The entry of a worker is the last length that was reported since it was removed. -/
theorem get?_after (rom_config : ROMConfig) (heard : List Message) (w : Int) :
    (Entered heard w → (after rom_config heard).queue_lengths.get? w =
        some (last_length heard w)) ∧
      (¬ Entered heard w → (after rom_config heard).queue_lengths.get? w = none) := by
  induction heard using List.reverseRecOn with
  | nil => exact ⟨fun h => absurd h (not_entered_nil w), fun _ => rfl⟩
  | append_singleton heard m ih =>
    rw [entered_append, last_length_append, after_append]
    cases m with
    | update_bandwidth b now =>
      have hr : ¬ Message.Removes w (.update_bandwidth b now) := by simp [Message.Removes]
      simpa [receive, hr, Message.Names, Message.length_of] using ih
    | register_worker v =>
      have hr : ¬ Message.Removes w (.register_worker v) := by simp [Message.Removes]
      simp only [receive, register_worker, Dict.get?_setdefault, hr, not_false_eq_true, true_and,
        Message.Names, Message.length_of, if_false, Option.elim_none]
      by_cases hv : w = v
      · subst hv
        by_cases he : Entered heard w
        · have hmem : w ∈ (after rom_config heard).queue_lengths := by
            rw [Dict.mem_iff_isSome, ih.1 he]
            rfl
          simp [he, hmem, ih.1 he]
        · have hmem : w ∉ (after rom_config heard).queue_lengths :=
            Dict.get?_eq_none.mp (ih.2 he)
          simp [hmem, last_length_of_not_entered he]
      · simpa [hv, Ne.symm hv, eq_comm] using ih
    | deregister_worker v =>
      simp only [receive, deregister_worker, Dict.get?_pop]
      by_cases hv : w = v
      · subst hv
        simp [Message.Removes]
      · have hr : ¬ Message.Removes w (.deregister_worker v) := by
          simp [Message.Removes, Ne.symm hv]
        simpa [hv, hr, Message.Names, Message.length_of] using ih
    | update_queue_length v n =>
      have hr : ¬ Message.Removes w (.update_queue_length v n) := by simp [Message.Removes]
      simp only [receive, update_queue_length, Dict.get?_set, hr, not_false_eq_true, true_and,
        Message.Names, Message.length_of, if_false]
      by_cases hv : w = v
      · subst hv
        simp
      · simpa [hv, Ne.symm hv] using ih
    | reset =>
      have hr : Message.Removes w .reset := Or.inr rfl
      simp [receive, LocalScheduler.reset, hr]

/-- A worker has an entry when it is named and was not removed since. -/
theorem mem_after (rom_config : ROMConfig) (heard : List Message) (w : Int) :
    w ∈ (after rom_config heard).queue_lengths ↔ Entered heard w := by
  rw [Dict.mem_iff_isSome]
  by_cases he : Entered heard w
  · simp [he, (get?_after rom_config heard w).1 he]
  · simp [he, (get?_after rom_config heard w).2 he]

/-! ## Late reports -/

/-- Each report is about a worker that is not deregistered when the report arrives. -/
def NoLateReport (messages : List Message) : Prop :=
  ∀ heard w n, heard ++ [.update_queue_length w n] <+: messages → ¬ Deregistered heard w

theorem NoLateReport.of_start {messages : List Message} (h : NoLateReport messages)
    (hp : heard <+: messages) : NoLateReport heard :=
  fun _ _ _ hpre => h _ _ _ (hpre.trans hp)

theorem known_append : (∃ x ∈ sinceLast (· = .reset) (heard ++ [m]), x.Names w) ↔
    m ≠ .reset ∧ ((∃ x ∈ sinceLast (· = .reset) heard, x.Names w) ∨ m.Names w) := by
  simp only [mem_sinceLast_append]
  constructor
  · rintro ⟨x, ⟨hr, hx | rfl⟩, hn⟩
    · exact ⟨hr, Or.inl ⟨x, hx, hn⟩⟩
    · exact ⟨hr, Or.inr hn⟩
  · rintro ⟨hr, ⟨x, hx, hn⟩ | hn⟩
    · exact ⟨x, ⟨hr, Or.inl hx⟩, hn⟩
    · exact ⟨m, ⟨hr, Or.inr rfl⟩, hn⟩

/-- A registered worker has an entry, whatever the order of the calls was. -/
theorem Registered.entered (h : Registered heard w) : Entered heard w := by
  induction heard using List.reverseRecOn with
  | nil =>
    obtain ⟨_, hm, _⟩ := h.1
    cases hm
  | append_singleton heard m ih =>
    obtain ⟨hknown, hderegistered⟩ := h
    obtain ⟨hreset, hknown⟩ := known_append.mp hknown
    rw [deregistered_append, not_and_or, not_or, not_not] at hderegistered
    apply entered_append.mpr
    rcases hderegistered with rfl | ⟨hd, hm⟩
    · exact ⟨by simp [Message.Removes], Or.inr rfl⟩
    · exact ⟨not_or.mpr ⟨hm, hreset⟩, hknown.imp_left fun hk => ih ⟨hk, hd⟩⟩

theorem Entered.known (h : Entered heard w) :
    ∃ m ∈ sinceLast (· = .reset) heard, m.Names w := by
  induction heard using List.reverseRecOn with
  | nil => exact absurd h (not_entered_nil w)
  | append_singleton heard m ih =>
    obtain ⟨hr, h⟩ := entered_append.mp h
    exact known_append.mpr ⟨fun hm => hr (Or.inr hm), h.imp_left ih⟩

/-- Without late reports, the entries are those of the registered workers. -/
theorem Entered.registered (h : Entered heard w) (hlate : NoLateReport heard) :
    Registered heard w := by
  refine ⟨h.known, ?_⟩
  induction heard using List.reverseRecOn with
  | nil => exact List.not_mem_nil
  | append_singleton heard m ih =>
    intro hd
    obtain ⟨hr, h⟩ := entered_append.mp h
    obtain ⟨hm, hbefore⟩ := deregistered_append.mp hd
    have hd' : Deregistered heard w := hbefore.resolve_right fun hm => hr (Or.inl hm)
    rcases h with h | h
    · exact ih h (hlate.of_start (List.prefix_append _ _)) hd'
    · cases m with
      | register_worker v => exact hm (congrArg _ h)
      | update_queue_length v n =>
        obtain rfl : v = w := h
        exact hlate heard v n (List.prefix_refl _) hd'
      | update_bandwidth _ _ => exact h
      | deregister_worker _ => exact h
      | reset => exact h

/-! ## The choice -/

theorem mem_candidates {s : LocalScheduler} {exclude : Option (List Int)} {p : Int × Int} :
    p ∈ s.candidates exclude ↔ s.queue_lengths.get? p.1 = some p.2 ∧ p.1 ∉ exclude.getD [] := by
  unfold candidates
  rw [List.mem_filter, Dict.get?_eq_some, decide_eq_true_eq]

theorem get_best_decode_worker_eq_none {s : LocalScheduler} {exclude : Option (List Int)} :
    s.get_best_decode_worker exclude = none ↔
      ∀ w, w ∈ s.queue_lengths → w ∈ exclude.getD [] := by
  unfold get_best_decode_worker
  rw [Option.map_eq_none_iff, ← Option.not_isSome_iff_eq_none, List.isSome_minOn?_iff, not_not,
    List.eq_nil_iff_forall_not_mem]
  simp only [mem_candidates, not_and, not_not, Prod.forall, Dict.mem_iff_isSome,
    Option.isSome_iff_exists, forall_exists_index]

/-- The chosen worker is a candidate, and no candidate has a shorter queue. -/
theorem get_best_decode_worker_eq_some {s : LocalScheduler} {exclude : Option (List Int)} {w : Int}
    (h : s.get_best_decode_worker exclude = some w) :
    w ∉ exclude.getD [] ∧ ∃ n, s.queue_lengths.get? w = some n ∧
      ∀ v k, s.queue_lengths.get? v = some k → v ∉ exclude.getD [] → n ≤ k := by
  obtain ⟨⟨w', n⟩, hmin, rfl⟩ := Option.map_eq_some_iff.mp h
  obtain ⟨hget, hout⟩ := mem_candidates.mp (List.minOn?_mem hmin)
  refine ⟨hout, n, hget, fun v k hv hvout => ?_⟩
  have hle := List.apply_get_minOn?_le_of_mem (f := Prod.snd)
    (mem_candidates (p := (v, k)).mpr ⟨hv, hvout⟩)
  simpa only [hmin, Option.get_some] using hle

theorem chooses_of_no_late_report (rom_config : ROMConfig) (h : NoLateReport heard)
    (exclude : Option (List Int)) :
    Chooses heard exclude ((after rom_config heard).get_best_decode_worker exclude) := by
  have hmem : ∀ w, w ∈ (after rom_config heard).queue_lengths ↔ Registered heard w := fun w =>
    (mem_after rom_config heard w).trans ⟨fun he => he.registered h, Registered.entered⟩
  have hget : ∀ w, Registered heard w →
      (after rom_config heard).queue_lengths.get? w = some (last_length heard w) := fun w hw =>
    (get?_after rom_config heard w).1 hw.entered
  constructor
  · rw [get_best_decode_worker_eq_none]
    exact forall_congr' fun w => imp_congr_left (hmem w)
  · intro w hw
    obtain ⟨hout, n, hn, hmin⟩ := get_best_decode_worker_eq_some hw
    have hreg : Registered heard w := by
      rw [← hmem, Dict.mem_iff_isSome, hn]
      rfl
    obtain rfl : last_length heard w = n := Option.some.inj ((hget w hreg).symm.trans hn)
    exact ⟨hout, hreg, fun v hv hvout => hmin v _ (hget v hv) hvout⟩

/-- A report that comes late makes the worker an entry again. -/
theorem entered_of_late_report {n : Int} : Entered (heard ++ [.update_queue_length w n]) w :=
  entered_append.mpr ⟨by simp [Message.Removes], Or.inr rfl⟩

/-- In a run, the choice is always right exactly when no report comes late. -/
theorem a_removed_worker_is_never_chosen_iff_no_late_report (rom_config : ROMConfig)
    (messages : List Message) :
    (∀ heard, heard <+: messages → ∀ exclude,
        Chooses heard exclude ((after rom_config heard).get_best_decode_worker exclude)) ↔
      NoLateReport messages := by
  constructor
  · intro hchooses heard w n hp hd
    set heard' := heard ++ [Message.update_queue_length w n]
    have hd' : Deregistered heard' w := deregistered_append.mpr ⟨by simp, Or.inl hd⟩
    -- all other workers are excluded, so the removed one is the only candidate
    set others := (after rom_config heard').queue_lengths.keys.filter (· ≠ w)
    have hw : w ∉ others := fun hmem => by simpa using (List.mem_filter.mp hmem).2
    obtain ⟨hnone, hsome⟩ := hchooses heard' hp (some others)
    cases hbest : (after rom_config heard').get_best_decode_worker (some others) with
    | none =>
      have hin := get_best_decode_worker_eq_none.mp hbest w
        ((mem_after rom_config heard' w).mpr entered_of_late_report)
      exact hw hin
    | some v =>
      obtain ⟨hout, hreg, -⟩ := hsome v hbest
      have hv : v ∈ (after rom_config heard').queue_lengths :=
        (mem_after rom_config heard' v).mpr hreg.entered
      have hvw : v = w := by
        by_contra hne
        exact hout (List.mem_filter.mpr ⟨hv, by simpa using hne⟩)
      subst hvw
      exact hreg.2 hd'
  · intro hlate heard hp exclude
    exact chooses_of_no_late_report rom_config (hlate.of_start hp) exclude

/-- The worker 0 is removed, its report comes late, and it is chosen. -/
theorem a_late_report_brings_a_removed_worker_back :
    ¬ ∀ rom_config heard exclude,
      Chooses heard exclude ((after rom_config heard).get_best_decode_worker exclude) := by
  intro h
  have hbad := (h ⟨.rom, 10000, 32, 32, 128, 2, ∅⟩
    [.register_worker 0, .deregister_worker 0, .update_queue_length 0 2] none).2 0 (by decide)
  apply hbad.2.1.2
  unfold Deregistered
  decide

end LocalScheduler

end distserve
