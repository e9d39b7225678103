-- How often a model is converted: one call at a time, again only after a conversion that failed,
-- and never after one that ended well.
import Mathlib.Data.List.Induction
import RecomputeOrMigrate.DownloaderRun

open calls dicts runs tensors

namespace distserve.downloader

open converter

variable {α : Type} {host : Host α} {s s' : Cache α} {action : Action α} {p q : Nat}
  {c : ModelConfig} {model : String} {files files' : String → Option (Content α)}

/-- What happens to the weights of a model. -/
inductive EventKind
  /-- They are downloaded or read. -/
  | loads
  /-- Their conversion raises, or its process is killed. -/
  | fails
  /-- The file `done` is made. -/
  | completes
deriving DecidableEq

structure Event where
  model : String
  kind : EventKind
deriving DecidableEq

/-- The weights are read and the file `done` is not yet made. -/
def Phase.converting : Phase α → Bool
  | .saving _ | .writing _ _ => true
  | _ => false

/-- What a step of a call in this phase means for the weights. -/
def kind_of : Action α → Phase α → Option EventKind
  | .load _ _ _, .loading _ => some .loads
  | .save _, .saving [] => some .completes
  | .save _, .saving (.error _ :: _) => some .fails
  | .kill _, phase => if phase.converting then some .fails else none
  | _, _ => none

def events (s : Cache α) (action : Action α) : List Event :=
  match s.calls action.of with
  | some process => ((kind_of action process.phase).map (⟨process.model_config.model, ·⟩)).toList
  | none => []

/-- The calls of a machine, with the log of their conversions. -/
def logged_machine (host : Host α) : Machine Empty (Cache α × List Event) (Action α) :=
  beside (proper_machine host) fun s action log => log ++ events s action

/-! ## The weights of one model -/

/-- What has become of the weights of a model. -/
inductive Stage
  | absent
  | converting
  | complete
deriving DecidableEq

/-- They are converted again after a failure only. -/
def Stage.next : Stage → EventKind → Option Stage
  | .absent, .loads => some .converting
  | .converting, .fails => some .absent
  | .converting, .completes => some .complete
  | _, _ => none

/-- Some call converts the weights of the model. -/
def IsConverting (s : Cache α) (model : String) : Prop :=
  ∃ p c phase, s.calls p = some ⟨c, phase⟩ ∧ c.model = model ∧ phase.converting = true

/-- The stage that the calls and the disk show. -/
def AtStage (host : Host α) (s : Cache α) (model : String) : Stage → Prop
  | .absent => ¬ IsDone host s.files model ∧ ¬ IsConverting s model
  | .converting => IsConverting s model
  | .complete => IsDone host s.files model

/-- A call other than `p` converts them. -/
def OthersConvert (s : Cache α) (p : Nat) (model : String) : Prop :=
  ∃ q c phase, q ≠ p ∧ s.calls q = some ⟨c, phase⟩ ∧ c.model = model ∧ phase.converting = true

theorem Phase.inside_of_converting {phase : Phase α} (h : phase.converting = true) :
    phase.inside = true := by
  cases phase <;> first | rfl | cases h

theorem isConverting_set {phase : Phase α}
    (hcalls : s'.calls = Function.update s.calls p (some ⟨c, phase⟩)) :
    IsConverting s' model ↔ (c.model = model ∧ phase.converting = true) ∨
      OthersConvert s p model := by
  unfold IsConverting
  rw [hcalls]
  constructor
  · rintro ⟨q, c', phase', hq, hmodel, hconverting⟩
    by_cases hqp : q = p
    · rw [hqp, Function.update_self] at hq
      cases hq
      exact .inl ⟨hmodel, hconverting⟩
    · rw [Function.update_of_ne hqp] at hq
      exact .inr ⟨q, c', phase', hqp, hq, hmodel, hconverting⟩
  · rintro (⟨hmodel, hconverting⟩ | ⟨q, c', phase', hqp, hq, hmodel, hconverting⟩)
    · exact ⟨p, c, phase, Function.update_self _ _ _, hmodel, hconverting⟩
    · exact ⟨q, c', phase', (Function.update_of_ne hqp _ _).trans hq, hmodel, hconverting⟩

theorem isConverting_iff {phase : Phase α} (hp : s.calls p = some ⟨c, phase⟩) :
    IsConverting s model ↔ (c.model = model ∧ phase.converting = true) ∨
      OthersConvert s p model :=
  isConverting_set (Function.update_eq_self_iff.mpr hp.symm |>.symm)

/-- Whoever is inside for a model is the only one to convert it. -/
theorem Safe.others_do_not (hs : Safe host s) {phase : Phase α}
    (hp : s.calls p = some ⟨c, phase⟩) (hinside : phase.inside = true) :
    ¬ OthersConvert s p c.model := by
  rintro ⟨q, c', phase', hqp, hq, hmodel, hconverting⟩
  exact hqp (hs.alone hp hinside hq (Phase.inside_of_converting hconverting) (by rw [hmodel]))

/-- Who converts finds no file `done`. -/
theorem Safe.not_done (hs : Safe host s) (h : IsConverting s model) :
    ¬ IsDone host s.files model := by
  obtain ⟨p, c, phase, hp, rfl, hconverting⟩ := h
  have hknows := hs.knows p c phase hp
  cases phase with
  | saving steps => exact hknows.1
  | writing file steps => exact hknows.1
  | _ => cases hconverting

theorem AtStage.congr {stage : Stage} (h : AtStage host s model stage)
    (hdone : IsDone host s'.files model ↔ IsDone host s.files model)
    (hconverting : IsConverting s' model ↔ IsConverting s model) :
    AtStage host s' model stage := by
  cases stage with
  | absent => exact ⟨fun h' => h.1 (hdone.mp h'), fun h' => h.2 (hconverting.mp h')⟩
  | converting => exact hconverting.mpr h
  | complete => exact hdone.mpr h

/-- What the log says about a model. -/
def kinds (model : String) (log : List Event) : List EventKind :=
  (log.filter (·.model = model)).map (·.kind)

/-- The stage after the events of a log, if they can follow each other. -/
def stage_after (stage : Stage) (kinds : List EventKind) : Option Stage :=
  kinds.foldlM Stage.next stage

theorem kinds_events {phase : Phase α} (hp : s.calls action.of = some ⟨c, phase⟩) :
    kinds model (events s action) =
      if c.model = model then (kind_of action phase).toList else [] := by
  unfold kinds events
  rw [hp]
  dsimp only
  cases kind_of action phase with
  | none => simp
  | some kind => by_cases hmodel : c.model = model <;> simp [hmodel]

/-- The log and the stage go on together. -/
def GoesOn (host : Host α) (model : String) (s : Cache α) (action : Action α) (s' : Cache α) :
    Prop := ∀ stage, AtStage host s model stage →
  ∃ stage', stage_after stage (kinds model (events s action)) = some stage' ∧
    AtStage host s' model stage'

/-- A step that is not logged. -/
theorem goesOn_quiet {phase : Phase α} (phase' : Phase α) (hp : s.calls action.of = some ⟨c, phase⟩)
    (hcalls : s'.calls = Function.update s.calls action.of (some ⟨c, phase'⟩))
    (hkind : kind_of action phase = none) (hconverting : phase'.converting = phase.converting)
    (hdone : IsDone host s'.files model ↔ IsDone host s.files model) :
    GoesOn host model s action s' := by
  intro stage hstage
  refine ⟨stage, ?_, hstage.congr hdone ?_⟩
  · rw [kinds_events hp, hkind, Option.toList_none, ite_self]
    rfl
  · rw [isConverting_set hcalls, isConverting_iff hp, hconverting]

/-- A step that is logged leaves the other models alone. -/
theorem goesOn_logged {phase : Phase α} {kind : EventKind} (phase' : Phase α)
    (hp : s.calls action.of = some ⟨c, phase⟩)
    (hcalls : s'.calls = Function.update s.calls action.of (some ⟨c, phase'⟩))
    (hkind : kind_of action phase = some kind)
    (hothers : c.model ≠ model → (IsDone host s'.files model ↔ IsDone host s.files model))
    (hnext : c.model = model → ∀ stage, AtStage host s c.model stage →
      ∃ stage', stage.next kind = some stage' ∧ AtStage host s' c.model stage') :
    GoesOn host model s action s' := by
  intro stage hstage
  rw [kinds_events hp, hkind]
  by_cases hmodel : c.model = model
  · subst hmodel
    obtain ⟨stage', hstep, hstage'⟩ := hnext rfl stage hstage
    refine ⟨stage', ?_, hstage'⟩
    rw [if_pos rfl, stage_after, Option.toList_some, List.foldlM_cons, hstep]
    rfl
  · refine ⟨stage, by rw [if_neg hmodel]; rfl, hstage.congr (hothers hmodel) ?_⟩
    rw [isConverting_set hcalls, isConverting_iff hp]
    simp [hmodel]

/-- The stage of a model that a call converts. -/
theorem Safe.stage_converting (hs : Safe host s) (h : IsConverting s model) {stage : Stage}
    (hstage : AtStage host s model stage) : stage = .converting := by
  cases stage with
  | absent => exact absurd h hstage.2
  | converting => rfl
  | complete => exact absurd hstage (hs.not_done h)

theorem check_converting (files : String → Option (Content α)) (c : ModelConfig) :
    (check host files c).converting = false := by
  unfold check
  split
  · rfl
  · split_ifs <;> rfl

/-- A call stops to convert, and there is no file `done`. -/
theorem Safe.absent_after (hs : Safe host s) {phase phase' : Phase α}
    (hp : s.calls p = some ⟨c, phase⟩) (hconverting : phase.converting = true)
    (hcalls : s'.calls = Function.update s.calls p (some ⟨c, phase'⟩)) (hfiles : s'.files = s.files)
    (hconverting' : phase'.converting = false) : AtStage host s' c.model .absent := by
  have hinside := Phase.inside_of_converting hconverting
  refine ⟨?_, ?_⟩
  · rw [hfiles]
    exact hs.not_done ⟨p, c, phase, hp, rfl, hconverting⟩
  · rw [isConverting_set hcalls, hconverting']
    simpa using hs.others_do_not hp hinside

theorem Safe.goesOn_save (hs : Safe host s) (hplain : IsPlain model) {phase phase' : Phase α}
    (hp : s.calls p = some ⟨c, phase⟩) (h : Saves host c s.files phase phase' files') :
    GoesOn host model s (.save p)
      (({ s with files := files' } : Cache α).set_phase p c phase') := by
  have hknows := hs.knows p c phase hp
  have hothers : c.model ≠ model → (IsDone host files' model ↔ IsDone host s.files model) :=
    fun hne => (h.sameFolder hknows (hs.plain p c phase hp) hplain hne.symm).done_iff
  have hquiet : ¬ IsDone host files' c.model →
      (IsDone host files' model ↔ IsDone host s.files model) := by
    intro hdone
    by_cases hmodel : c.model = model
    · rw [← hmodel]
      exact iff_of_false hdone (h.not_done hknows)
    · exact hothers hmodel
  have hknows' := h.knows hknows
  cases h with
  | done =>
    refine goesOn_logged _ hp rfl rfl hothers fun _ stage hstage => ?_
    rw [hs.stage_converting ⟨p, c, _, hp, rfl, rfl⟩ hstage]
    exact ⟨.complete, rfl, hknows'.1.2⟩
  | raise =>
    refine goesOn_logged _ hp rfl rfl hothers fun _ stage hstage => ?_
    rw [hs.stage_converting ⟨p, c, _, hp, rfl, rfl⟩ hstage]
    exact ⟨.absent, rfl, hs.absent_after hp rfl rfl rfl rfl⟩
  | opens => exact goesOn_quiet _ hp rfl rfl rfl (hquiet hknows'.1.1)
  | closes => exact goesOn_quiet _ hp rfl rfl rfl (hquiet hknows'.1.1)

theorem Safe.goesOn_load (hs : Safe host s) {is_local : Bool} {listed : List (Listed α)}
    {dtype : Dtype} {steps : List (Except DownloadError (SavedFile α))}
    (hp : s.calls p = some ⟨c, .loading dtype⟩) :
    GoesOn host model s (.load p is_local listed) (s.set_phase p c (.saving steps)) := by
  refine goesOn_logged _ hp rfl rfl (fun _ => Iff.rfl) fun _ stage hstage => ?_
  refine ⟨.converting, ?_, p, c, .saving steps, Function.update_self _ _ _, rfl, rfl⟩
  have hnot : ¬ IsConverting s c.model := by
    rw [isConverting_iff hp]
    rintro (⟨-, hconverting⟩ | hothers)
    · cases hconverting
    · exact hs.others_do_not hp rfl hothers
  cases stage with
  | absent => rfl
  | converting => exact absurd hstage hnot
  | complete => exact absurd hstage (hs.knows p c _ hp).2

theorem Safe.goesOn_kill (hs : Safe host s) {phase : Phase α}
    (hp : s.calls p = some ⟨c, phase⟩) :
    GoesOn host model s (.kill p)
      ((s.set_holder (get_lock host c.model) none).set_phase p c .killed) := by
  cases hconverting : phase.converting with
  | true =>
    have hkind : kind_of (.kill p) phase = some .fails := by
      simp only [kind_of, hconverting, if_true]
    refine goesOn_logged .killed hp (by simp; rfl) hkind (by simp) fun _ stage hstage => ?_
    rw [hs.stage_converting ⟨p, c, phase, hp, rfl, hconverting⟩ hstage]
    exact ⟨.absent, rfl, hs.absent_after hp hconverting (by simp; rfl) (by simp) rfl⟩
  | false =>
    have hkind : kind_of (.kill p) phase = none := by
      simp only [kind_of, hconverting, Bool.false_eq_true, if_false]
    exact goesOn_quiet .killed hp (by simp; rfl) hkind hconverting.symm (by simp)

theorem Safe.goesOn (hs : Safe host s) (hplain : IsPlain model) (h : Moves host s action s') :
    GoesOn host model s action s' := by
  cases h with
  | @call p c hp =>
    intro stage hstage
    refine ⟨stage, ?_, hstage.congr Iff.rfl ?_⟩
    · rw [events, show s.calls (Action.of (.call p c)) = none from hp]
      rfl
    · rw [isConverting_set rfl]
      constructor
      · rintro (⟨-, hconverting⟩ | ⟨q, c', phase, -, hq, hmodel, hconverting⟩)
        · cases hconverting
        · exact ⟨q, c', phase, hq, hmodel, hconverting⟩
      · rintro ⟨q, c', phase, hq, hmodel, hconverting⟩
        refine .inr ⟨q, c', phase, ?_, hq, hmodel, hconverting⟩
        rintro rfl
        rw [hp] at hq
        cases hq
  | acquire hp hfree => exact goesOn_quiet .entered hp (by simp; rfl) rfl rfl (by simp)
  | check hp => exact goesOn_quiet _ hp rfl rfl (check_converting _ _) Iff.rfl
  | load hp => exact hs.goesOn_load hp
  | fail_download hp => exact goesOn_quiet _ hp rfl rfl rfl Iff.rfl
  | save hp hsaves => exact hs.goesOn_save hplain hp hsaves
  | @leave p c result hp => exact goesOn_quiet (.left result) hp (by simp; rfl) rfl rfl (by simp)
  | kill_inside hp hinside => exact hs.goesOn_kill hp
  | kill_waiting hp => exact goesOn_quiet _ hp rfl rfl rfl Iff.rfl

/-! ## Runs -/

theorem kinds_append (model : String) (log log' : List Event) :
    kinds model (log ++ log') = kinds model log ++ kinds model log' := by
  rw [kinds, List.filter_append, List.map_append]
  rfl

/-- The log of a run, and where it has come to. -/
theorem logged_reaches (hs : Safe host s) {log : List Event}
    (h : Reaches (logged_machine host) (s, []) (s', log)) :
    Safe host s' ∧ ∀ model, IsPlain model → ∀ stage, AtStage host s model stage →
      ∃ stage', stage_after stage (kinds model log) = some stage' ∧
        AtStage host s' model stage' := by
  generalize hx : (s', log) = x at h
  induction h generalizing s' log with
  | refl =>
    cases hx
    exact ⟨hs, fun model _ stage hstage => ⟨stage, rfl, hstage⟩⟩
  | @tail x y _ hstep ih =>
    subst hx
    obtain ⟨action, haction⟩ := hstep
    obtain ⟨s₁, log₁⟩ := x
    obtain ⟨hmove, rfl⟩ := beside_eq_ok.mp haction
    obtain ⟨hproper, hstep⟩ := proper_machine_eq_ok.mp hmove
    have hmove := moves_of_step hstep
    obtain ⟨hs₁, hlog⟩ := ih rfl
    refine ⟨hs₁.step hproper hmove, fun model hplain stage hstage => ?_⟩
    obtain ⟨stage₁, hafter, hstage₁⟩ := hlog model hplain stage hstage
    obtain ⟨stage', hnext, hstage'⟩ := hs₁.goesOn hplain hmove stage₁ hstage₁
    refine ⟨stage', ?_, hstage'⟩
    rw [stage_after, kinds_append, List.foldlM_append]
    exact (congrArg (· >>= _) hafter).trans hnext

theorem counts_of_stage_after {log : List EventKind} {stage : Stage}
    (h : stage_after .absent log = some stage) :
    log.count .loads = log.count .fails + (if stage = .absent then 0 else 1) ∧
      log.count .completes = if stage = .complete then 1 else 0 := by
  induction log using List.reverseRecOn generalizing stage with
  | nil =>
    obtain rfl : Stage.absent = stage := Option.some.inj h
    exact ⟨rfl, rfl⟩
  | append_singleton log kind ih =>
    rw [stage_after, List.foldlM_append] at h
    obtain ⟨before, hbefore, hkind⟩ := Option.bind_eq_some_iff.mp h
    obtain ⟨hloads, hcompletes⟩ := ih hbefore
    simp only [List.count_append]
    cases before <;> cases kind <;> cases hkind <;> simp_all

/-- Whatever the order of the steps: at most one call is inside for a model, the conversions of a
model are logged one after the other, each but the last has failed, and the stage after the log is
the one that the disk and the calls show. -/
theorem a_model_is_converted_once (hfresh : Fresh host files) {log : List Event}
    (h : Reaches (logged_machine host) (Cache.init files, []) (s, log)) (hplain : IsPlain model) :
    (∀ p q c c' phase phase', s.calls p = some ⟨c, phase⟩ → s.calls q = some ⟨c', phase'⟩ →
      c.model = model → c'.model = model → phase.inside = true → phase'.inside = true → p = q) ∧
    (∃ stage, stage_after .absent (kinds model log) = some stage ∧ AtStage host s model stage) ∧
    (kinds model log).count .loads ≤ (kinds model log).count .fails + 1 ∧
    (kinds model log).count .completes ≤ 1 := by
  obtain ⟨hs, hlog⟩ := logged_reaches (safe_init hfresh) h
  have hinit : AtStage host (Cache.init files) model .absent := by
    refine ⟨hfresh model hplain, ?_⟩
    rintro ⟨p, c, phase, hp, -⟩
    cases hp
  obtain ⟨stage, hafter, hstage⟩ := hlog model hplain .absent hinit
  obtain ⟨hloads, hcompletes⟩ := counts_of_stage_after hafter
  refine ⟨?_, ⟨stage, hafter, hstage⟩, ?_, ?_⟩
  · intro p q c c' phase phase' hp hq hmodel hmodel' hinside hinside'
    exact hs.alone hq hinside' hp hinside (by rw [hmodel, hmodel'])
  · rw [hloads]
    split <;> omega
  · rw [hcompletes]
    split <;> omega

theorem a_killed_conversion_has_failed : ∃ s log,
    kinds "gpt2" log = [.loads, .fails] ∧
    (∃ stage, stage_after .absent (kinds "gpt2" log) = some stage ∧
      AtStage small_host s "gpt2" stage) := by
  obtain ⟨⟨s, log⟩, hreaches, hlog⟩ := reaches_of_any (m := logged_machine small_host)
    (s := (Cache.init empty_disk, [])) killed_actions
    (fun x => kinds "gpt2" x.2 = [.loads, .fails]) (by decide)
  exact ⟨s, log, of_decide_eq_true hlog,
    (a_model_is_converted_once empty_disk_fresh hreaches (by decide)).2.1⟩

end distserve.downloader
