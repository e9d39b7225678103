-- Every run of the calls on a machine: who is inside the lock of a model is the only one to write
-- in its folder, a folder with the file `done` holds a whole conversion, and it stays as it is.
import RecomputeOrMigrate.DownloaderFiles

open calls dicts runs tensors

namespace distserve.downloader

open converter

variable {α : Type} {host : Host α} {s s' : Cache α}

/-! ## What a step does -/

/-- The next step of a conversion, and what it does to the disk. -/
inductive Saves (host : Host α) (c : ModelConfig) (files : String → Option (Content α)) :
    Phase α → Phase α → (String → Option (Content α)) → Prop
  | done : Saves host c files (.saving []) (.leaving (.ok (storage_folder host c.model)))
      (Function.update files (done_file host c.model) (some .empty))
  | raise {e : DownloadError} {steps : List (Except DownloadError (SavedFile α))} :
      Saves host c files (.saving (.error e :: steps)) (.leaving (.error e)) files
  | opens {file : SavedFile α} {steps : List (Except DownloadError (SavedFile α))} :
      Saves host c files (.saving (.ok file :: steps)) (.writing file steps)
        (Function.update files file.filename (some .part))
  | closes {file : SavedFile α} {steps : List (Except DownloadError (SavedFile α))} :
      Saves host c files (.writing file steps) (.saving steps)
        (Function.update files file.filename (some (.tensor file)))

/-- A step of one call. -/
inductive Moves (host : Host α) (s : Cache α) : Action α → Cache α → Prop
  | call {p : Nat} {c : ModelConfig} (hp : s.calls p = none) :
      Moves host s (.call p c) (s.set_phase p c .waiting)
  | acquire {p : Nat} {c : ModelConfig} (hp : s.calls p = some ⟨c, .waiting⟩)
      (hfree : s.holder (get_lock host c.model) = none) :
      Moves host s (.acquire p)
        ((s.set_holder (get_lock host c.model) (some p)).set_phase p c .entered)
  | check {p : Nat} {c : ModelConfig} (hp : s.calls p = some ⟨c, .entered⟩) :
      Moves host s (.check p) (s.set_phase p c (check host s.files c))
  | load {p : Nat} {c : ModelConfig} {is_local : Bool} {listed : List (Listed α)} {dtype : Dtype}
      (hp : s.calls p = some ⟨c, .loading dtype⟩) :
      Moves host s (.load p is_local listed) (s.set_phase p c (.saving (convert_steps host
        (storage_folder host c.model) (bin_files is_local listed) dtype c.model_type)))
  | fail_download {p : Nat} {c : ModelConfig} {dtype : Dtype} {text : String}
      (hp : s.calls p = some ⟨c, .loading dtype⟩) :
      Moves host s (.fail_download p text)
        (s.set_phase p c (.leaving (.error (.download text))))
  | save {p : Nat} {c : ModelConfig} {phase phase' : Phase α}
      {files' : String → Option (Content α)} (hp : s.calls p = some ⟨c, phase⟩)
      (h : Saves host c s.files phase phase' files') :
      Moves host s (.save p) (({ s with files := files' } : Cache α).set_phase p c phase')
  | leave {p : Nat} {c : ModelConfig} {result : Except DownloadError String}
      (hp : s.calls p = some ⟨c, .leaving result⟩) :
      Moves host s (.leave p)
        ((s.set_holder (get_lock host c.model) none).set_phase p c (.left result))
  | kill_inside {p : Nat} {c : ModelConfig} {phase : Phase α} (hp : s.calls p = some ⟨c, phase⟩)
      (h : phase.inside = true) :
      Moves host s (.kill p) ((s.set_holder (get_lock host c.model) none).set_phase p c .killed)
  | kill_waiting {p : Nat} {c : ModelConfig} (hp : s.calls p = some ⟨c, .waiting⟩) :
      Moves host s (.kill p) (s.set_phase p c .killed)

variable {action : Action α} {p q : Nat} {c : ModelConfig} {model path : String}
  {files files' : String → Option (Content α)}

theorem saves_of_step {phase : Phase α} (hp : s.calls p = some ⟨c, phase⟩)
    (h : save_step host s p c phase = some s') : Moves host s (.save p) s' := by
  unfold save_step at h
  split at h
  · cases h
    exact .save hp .done
  · cases h
    exact .save hp .raise
  · cases h
    exact .save hp .opens
  · cases h
    exact .save hp .closes
  · cases h

/-- A call that has begun makes no step other than the one of its phase, or is killed. -/
theorem moves_of_call_step {phase : Phase α} (hp : s.calls action.of = some ⟨c, phase⟩)
    (h : call_step host s action.of ⟨c, phase⟩ action = some s') : Moves host s action s' := by
  unfold call_step at h
  cases action with
  | call p c' => cases phase <;> cases h
  | acquire p =>
    cases phase with
    | waiting =>
      dsimp only at h
      split at h
      · next hfree =>
        cases h
        exact .acquire hp hfree
      · cases h
    | _ => cases h
  | check p =>
    cases phase with
    | entered =>
      cases h
      exact .check hp
    | _ => cases h
  | load p is_local listed =>
    cases phase with
    | loading dtype =>
      cases h
      exact .load hp
    | _ => cases h
  | fail_download p text =>
    cases phase with
    | loading dtype =>
      cases h
      exact .fail_download hp
    | _ => cases h
  | save p =>
    apply saves_of_step hp
    cases phase <;> exact h
  | leave p =>
    cases phase with
    | leaving result =>
      cases h
      exact .leave hp
    | _ => cases h
  | kill p =>
    cases phase with
    | waiting =>
      cases h
      exact .kill_waiting hp
    | left result => cases h
    | killed => cases h
    | _ =>
      cases h
      exact .kill_inside hp rfl

theorem moves_of_step (h : step host s action = some s') : Moves host s action s' := by
  unfold step at h
  cases hp : s.calls action.of with
  | some process =>
    rw [hp] at h
    exact moves_of_call_step hp h
  | none =>
    rw [hp] at h
    cases action with
    | call p c =>
      cases h
      exact .call hp
    | _ => cases h

/-! ## What a call knows -/

/-- What was saved last under a path. -/
def last_saved (written : List (SavedFile α)) (path : String) : Option (SavedFile α) :=
  written.reverse.find? fun file => file.filename = path

/-- The path leads to what was saved last under it. -/
def HasLast (files : String → Option (Content α)) (written : List (SavedFile α)) (path : String) :
    Prop := files path = (last_saved written path).map .tensor

/-- The files of a conversion are complete. -/
def Saved (files : String → Option (Content α)) (written : List (SavedFile α)) : Prop :=
  ∀ file ∈ written, HasLast files written file.filename

/-- The steps of a conversion for these arguments, of what the folder of the model held. -/
def IsPlan (host : Host α) (c : ModelConfig)
    (steps : List (Except DownloadError (SavedFile α))) : Prop :=
  ∃ dtype is_local listed, torch_dtype.lookup c.dtype = some dtype ∧
    host.holds c.model is_local listed = true ∧ AllFlat (bin_files is_local listed) ∧
    steps = convert_steps host (storage_folder host c.model) (bin_files is_local listed) dtype
      c.model_type

/-- The folder of the model has the file `done`. -/
def IsDone (host : Host α) (files : String → Option (Content α)) (model : String) : Prop :=
  files (done_file host model) ≠ none

/-- What a call in this phase can rely on. -/
def Knows (host : Host α) (files : String → Option (Content α)) (c : ModelConfig) : Phase α → Prop
  | .loading dtype => torch_dtype.lookup c.dtype = some dtype ∧ ¬ IsDone host files c.model
  | .saving steps => ¬ IsDone host files c.model ∧
      ∃ written, IsPlan host c (written.map .ok ++ steps) ∧ Saved files written
  | .writing file steps => ¬ IsDone host files c.model ∧
      ∃ written, IsPlan host c (written.map .ok ++ .ok file :: steps) ∧
        ∀ file' ∈ written, file'.filename ≠ file.filename →
          HasLast files written file'.filename
  | .leaving (.ok folder) | .left (.ok folder) =>
    folder = storage_folder host c.model ∧ IsDone host files c.model
  | _ => True

/-- A conversion of the model that ends well leaves these files, with the dtype of the call that
converts, out of what the folder of the model held. -/
def Converts (host : Host α) (model : String) (written : List (SavedFile α)) : Prop :=
  ∃ (c : ModelConfig) (dtype : Dtype) (is_local : Bool) (listed : List (Listed α)),
    c.model = model ∧ torch_dtype.lookup c.dtype = some dtype ∧
    host.holds model is_local listed = true ∧ AllFlat (bin_files is_local listed) ∧
    convert_weights host (storage_folder host model) (bin_files is_local listed) dtype
      c.model_type = .ok written

/-- The folder of the model holds all files of a conversion. -/
def Whole (host : Host α) (files : String → Option (Content α)) (model : String) : Prop :=
  ∃ written, Converts host model written ∧ Saved files written

theorem last_saved_snoc (written : List (SavedFile α)) (file : SavedFile α) (path : String) :
    last_saved (written ++ [file]) path =
      if file.filename = path then some file else last_saved written path := by
  unfold last_saved
  rw [List.reverse_append, List.reverse_singleton, List.singleton_append, List.find?_cons]
  by_cases h : file.filename = path <;> simp [h]

theorem HasLast.of_eq {written : List (SavedFile α)} (h : HasLast files written path)
    (heq : files' path = files path) : HasLast files' written path := heq.trans h

/-- The file that was open is complete. -/
theorem saved_snoc {written : List (SavedFile α)} {file : SavedFile α}
    (h : ∀ file' ∈ written, file'.filename ≠ file.filename →
      HasLast files written file'.filename) :
    Saved (Function.update files file.filename (some (.tensor file))) (written ++ [file]) := by
  intro file' hfile'
  unfold HasLast
  rw [last_saved_snoc]
  by_cases heq : file'.filename = file.filename
  · rw [heq, Function.update_self, if_pos rfl]
    rfl
  · rw [Function.update_of_ne heq, if_neg (Ne.symm heq)]
    rcases List.mem_append.mp hfile' with hold | hnew
    · exact h file' hold heq
    · exact absurd (congrArg SavedFile.filename (List.mem_singleton.mp hnew)) heq

theorem mapM_id_eq_ok {ε β : Type} {xs : List (Except ε β)} {ys : List β} :
    xs.mapM id = .ok ys ↔ xs = ys.map .ok := by
  induction xs generalizing ys with
  | nil => cases ys <;> simp [pure, Except.pure]
  | cons x xs ih =>
    rw [List.mapM_cons, bind_eq_ok]
    constructor
    · rintro ⟨y, rfl, h⟩
      obtain ⟨rest, hrest, h⟩ := bind_eq_ok.mp h
      rw [← Except.ok.inj h, ih.mp hrest, List.map_cons]
    · intro h
      cases ys with
      | nil => cases h
      | cons y ys =>
        obtain ⟨rfl, hxs⟩ := List.cons.inj h
        exact ⟨y, rfl, bind_eq_ok.mpr ⟨ys, ih.mpr hxs, rfl⟩⟩

theorem IsPlan.isWeight {steps : List (Except DownloadError (SavedFile α))}
    (h : IsPlan host c steps) {file : SavedFile α} (hfile : .ok file ∈ steps) :
    IsWeight host c.model file.filename := by
  obtain ⟨dtype, is_local, listed, -, -, hflat, rfl⟩ := h
  exact convert_steps_isWeight hflat hfile

theorem IsPlan.isWeight_written {written : List (SavedFile α)}
    {steps : List (Except DownloadError (SavedFile α))}
    (h : IsPlan host c (written.map .ok ++ steps)) {file : SavedFile α} (hfile : file ∈ written) :
    IsWeight host c.model file.filename :=
  h.isWeight (List.mem_append_left _ (List.mem_map_of_mem hfile))

theorem IsPlan.isWeight_next {written : List (SavedFile α)}
    {steps : List (Except DownloadError (SavedFile α))} {file : SavedFile α}
    (h : IsPlan host c (written.map .ok ++ .ok file :: steps)) :
    IsWeight host c.model file.filename :=
  h.isWeight (List.mem_append_right _ List.mem_cons_self)

/-- The last step is done. -/
theorem IsPlan.whole {written : List (SavedFile α)} (h : IsPlan host c (written.map .ok))
    (hsaved : Saved files written) : Whole host files c.model := by
  obtain ⟨dtype, is_local, listed, hdtype, hholds, hflat, hsteps⟩ := h
  refine ⟨written, ⟨c, dtype, is_local, listed, rfl, hdtype, hholds, hflat, ?_⟩, hsaved⟩
  rw [convert_weights_eq, mapM_id_eq_ok, hsteps]

/-! ## Steps in other folders -/

/-- The folder of the model is the same. -/
def SameFolder (host : Host α) (files files' : String → Option (Content α)) (model : String) :
    Prop := ∀ path, InFolder host model path → files' path = files path

theorem SameFolder.done_iff (h : SameFolder host files files' model) :
    IsDone host files' model ↔ IsDone host files model := by
  unfold IsDone
  rw [h _ (done_file_inFolder host model)]

theorem SameFolder.saved {written : List (SavedFile α)}
    (h : SameFolder host files files' model)
    (hweights : ∀ file ∈ written, IsWeight host model file.filename)
    (hsaved : Saved files written) : Saved files' written :=
  fun file hfile => (hsaved file hfile).of_eq (h _ (hweights file hfile).inFolder)

theorem Converts.isWeight {written : List (SavedFile α)} (h : Converts host model written) :
    ∀ file ∈ written, IsWeight host model file.filename := by
  obtain ⟨c, dtype, is_local, listed, rfl, -, -, hflat, hconvert⟩ := h
  intro file hfile
  rw [convert_weights_eq, mapM_id_eq_ok] at hconvert
  exact convert_steps_isWeight hflat (hconvert ▸ List.mem_map_of_mem hfile)

theorem SameFolder.whole (h : SameFolder host files files' model)
    (hwhole : Whole host files model) : Whole host files' model := by
  obtain ⟨written, hconverts, hsaved⟩ := hwhole
  exact ⟨written, hconverts, h.saved hconverts.isWeight hsaved⟩

theorem SameFolder.knows (h : SameFolder host files files' c.model) {phase : Phase α}
    (hknows : Knows host files c phase) : Knows host files' c phase := by
  cases phase with
  | loading dtype => exact ⟨hknows.1, fun hdone => hknows.2 (h.done_iff.mp hdone)⟩
  | saving steps =>
    obtain ⟨hdone, written, hplan, hsaved⟩ := hknows
    exact ⟨fun hdone' => hdone (h.done_iff.mp hdone'), written, hplan,
      h.saved (fun _ hfile => hplan.isWeight_written hfile) hsaved⟩
  | writing file steps =>
    obtain ⟨hdone, written, hplan, hsaved⟩ := hknows
    refine ⟨fun hdone' => hdone (h.done_iff.mp hdone'), written, hplan, ?_⟩
    exact fun file' hfile' hne => (hsaved file' hfile' hne).of_eq
      (h _ (hplan.isWeight_written hfile').inFolder)
  | leaving result =>
    cases result with
    | error e => exact trivial
    | ok folder => exact ⟨hknows.1, h.done_iff.mpr hknows.2⟩
  | left result =>
    cases result with
    | error e => exact trivial
    | ok folder => exact ⟨hknows.1, h.done_iff.mpr hknows.2⟩
  | _ => exact trivial

/-! ## Each step keeps the caches safe -/

/-- The calls ask for plain names, what is read is what the folder of the model may hold, and no
weight in it has a `/` in its name. -/
def Proper (host : Host α) (s : Cache α) : Action α → Prop
  | .call _ c => IsPlain c.model
  | .load p is_local listed =>
    (s.calls p).all (fun process => host.holds process.model_config.model is_local listed) = true ∧
      ∀ file ∈ listed, ∀ loaded ∈ file.state_dict, Flat loaded
  | _ => True

/-- Who is inside holds the lock and no one else does, and every folder with the file `done` is
whole. -/
structure Safe (host : Host α) (s : Cache α) : Prop where
  plain : ∀ p c phase, s.calls p = some ⟨c, phase⟩ → IsPlain c.model
  holds : ∀ p c phase, s.calls p = some ⟨c, phase⟩ → phase.inside = true →
    s.holder (get_lock host c.model) = some p
  held : ∀ lock p, s.holder lock = some p → ∃ c phase, s.calls p = some ⟨c, phase⟩ ∧
    phase.inside = true ∧ get_lock host c.model = lock
  knows : ∀ p c phase, s.calls p = some ⟨c, phase⟩ → Knows host s.files c phase
  whole : ∀ model, IsPlain model → IsDone host s.files model → Whole host s.files model

theorem glob_flat {listed : List (Listed α)}
    (h : ∀ file ∈ listed, ∀ loaded ∈ file.state_dict, Flat loaded) (parts : Nat) :
    AllFlat (glob parts listed) := by
  intro content hcontent loaded hloaded
  obtain ⟨file, hfile, heq⟩ := List.mem_filterMap.mp hcontent
  split_ifs at heq with hmatches hparts
  · exact h file hfile loaded (Option.some.inj heq ▸ hloaded)
  · rw [← Option.some.inj heq] at hloaded
    cases hloaded

/-- No one else is inside for the model. -/
theorem Safe.alone (hs : Safe host s) {c' : ModelConfig} {phase phase' : Phase α}
    (hp : s.calls p = some ⟨c, phase⟩) (hinside : phase.inside = true)
    (hq : s.calls q = some ⟨c', phase'⟩) (hinside' : phase'.inside = true)
    (hlock : get_lock host c'.model = get_lock host c.model) : q = p := by
  have hholds := hs.holds q c' phase' hq hinside'
  rw [hlock, hs.holds p c phase hp hinside] at hholds
  exact (Option.some.inj hholds).symm

/-- The lock that a call holds is the one of its model. -/
theorem Safe.held_by (hs : Safe host s) {phase : Phase α} (hp : s.calls p = some ⟨c, phase⟩)
    {lock : String} (hlock : s.holder lock = some p) :
    phase.inside = true ∧ lock = get_lock host c.model := by
  obtain ⟨c', phase', hp', hinside, hlock'⟩ := hs.held lock p hlock
  rw [hp] at hp'
  cases hp'
  exact ⟨hinside, hlock'.symm⟩

/-- A call moves on: what the others hold and know has to stay. -/
theorem Safe.moved (hs : Safe host s) (files' : String → Option (Content α))
    (holder' : String → Option Nat) {phase' : Phase α} (hplain : IsPlain c.model)
    (hothers : ∀ q c' phase, q ≠ p → s.calls q = some ⟨c', phase⟩ →
      (phase.inside = true → holder' (get_lock host c'.model) = some q) ∧
        Knows host files' c' phase)
    (hholds : phase'.inside = true → holder' (get_lock host c.model) = some p)
    (hheld : ∀ lock q, holder' lock = some q →
      (q ≠ p ∧ s.holder lock = some q) ∨
        (q = p ∧ phase'.inside = true ∧ lock = get_lock host c.model))
    (hknows : Knows host files' c phase')
    (hwhole : ∀ model, IsPlain model → IsDone host files' model → Whole host files' model) :
    Safe host ⟨files', holder', Function.update s.calls p (some ⟨c, phase'⟩)⟩ := by
  have hcalls : ∀ q c' phase, Function.update s.calls p (some ⟨c, phase'⟩) q = some ⟨c', phase⟩ →
      (c = c' ∧ phase' = phase ∧ q = p) ∨ (q ≠ p ∧ s.calls q = some ⟨c', phase⟩) := by
    intro q c' phase hq
    by_cases hqp : q = p
    · rw [hqp, Function.update_self] at hq
      cases hq
      exact .inl ⟨rfl, rfl, hqp⟩
    · rw [Function.update_of_ne hqp] at hq
      exact .inr ⟨hqp, hq⟩
  constructor
  · intro q c' phase hq
    rcases hcalls q c' phase hq with ⟨rfl, -⟩ | ⟨-, hq⟩
    · exact hplain
    · exact hs.plain q c' phase hq
  · intro q c' phase hq hinside
    rcases hcalls q c' phase hq with ⟨rfl, rfl, rfl⟩ | ⟨hqp, hq⟩
    · exact hholds hinside
    · exact (hothers q c' phase hqp hq).1 hinside
  · intro lock q hlock
    rcases hheld lock q hlock with ⟨hqp, hlock⟩ | ⟨rfl, hinside, rfl⟩
    · obtain ⟨c', phase, hq, hinside, heq⟩ := hs.held lock q hlock
      exact ⟨c', phase, (Function.update_of_ne hqp _ _).trans hq, hinside, heq⟩
    · exact ⟨c, phase', Function.update_self _ _ _, hinside, rfl⟩
  · intro q c' phase hq
    rcases hcalls q c' phase hq with ⟨rfl, rfl, -⟩ | ⟨hqp, hq⟩
    · exact hknows
    · exact (hothers q c' phase hqp hq).2
  · exact hwhole

/-- The disk and the locks stay. -/
theorem Safe.set_phase (hs : Safe host s) {phase' : Phase α} (hplain : IsPlain c.model)
    (hholds : phase'.inside = true → s.holder (get_lock host c.model) = some p)
    (hheld : ∀ lock, s.holder lock = some p →
      phase'.inside = true ∧ lock = get_lock host c.model)
    (hknows : Knows host s.files c phase') : Safe host (s.set_phase p c phase') := by
  refine hs.moved s.files s.holder hplain
    (fun q c' phase _ hq => ⟨hs.holds q c' phase hq, hs.knows q c' phase hq⟩) hholds ?_ hknows
    hs.whole
  intro lock q hlock
  by_cases hqp : q = p
  · exact .inr ⟨hqp, hheld lock (hqp ▸ hlock)⟩
  · exact .inl ⟨hqp, hlock⟩

theorem Safe.acquire (hs : Safe host s) (hp : s.calls p = some ⟨c, .waiting⟩)
    (hfree : s.holder (get_lock host c.model) = none) :
    Safe host ((s.set_holder (get_lock host c.model) (some p)).set_phase p c .entered) := by
  let holder' := Function.update s.holder (get_lock host c.model) (some p)
  have hholds : holder' (get_lock host c.model) = some p := Function.update_self _ _ _
  have hothers : ∀ q c' phase, q ≠ p → s.calls q = some ⟨c', phase⟩ →
      (phase.inside = true → holder' (get_lock host c'.model) = some q) ∧
        Knows host s.files c' phase := by
    intro q c' phase _ hq
    refine ⟨fun hinside => ?_, hs.knows q c' phase hq⟩
    have hholds := hs.holds q c' phase hq hinside
    have hlock : get_lock host c'.model ≠ get_lock host c.model := by
      intro hlock
      rw [hlock, hfree] at hholds
      cases hholds
    exact (Function.update_of_ne hlock _ _).trans hholds
  refine hs.moved s.files holder' (hs.plain p c _ hp) hothers (fun _ => hholds) ?_ trivial hs.whole
  intro lock q hlock
  by_cases heq : lock = get_lock host c.model
  · rw [heq, hholds] at hlock
    exact .inr ⟨(Option.some.inj hlock).symm, rfl, heq⟩
  · rw [show holder' lock = s.holder lock from Function.update_of_ne heq _ _] at hlock
    refine .inl ⟨?_, hlock⟩
    rintro rfl
    exact absurd (hs.held_by hp hlock).1 Bool.false_ne_true

/-- The lock is released, by the call at its end or by the death of its process. -/
theorem Safe.release (hs : Safe host s) {phase phase' : Phase α}
    (hp : s.calls p = some ⟨c, phase⟩) (hinside : phase.inside = true)
    (hphase' : phase'.inside = false) (hknows : Knows host s.files c phase') :
    Safe host ((s.set_holder (get_lock host c.model) none).set_phase p c phase') := by
  let holder' := Function.update s.holder (get_lock host c.model) none
  have hothers : ∀ q c' phase, q ≠ p → s.calls q = some ⟨c', phase⟩ →
      (phase.inside = true → holder' (get_lock host c'.model) = some q) ∧
        Knows host s.files c' phase := by
    intro q c' phase hqp hq
    refine ⟨fun hinside' => ?_, hs.knows q c' phase hq⟩
    have hlock : get_lock host c'.model ≠ get_lock host c.model :=
      fun hlock => hqp (hs.alone hp hinside hq hinside' hlock)
    exact (Function.update_of_ne hlock _ _).trans (hs.holds q c' phase hq hinside')
  refine hs.moved s.files holder' (hs.plain p c _ hp) hothers (fun hinside' => ?_) ?_ hknows
    hs.whole
  · rw [hphase'] at hinside'
    cases hinside'
  · intro lock q hlock
    by_cases heq : lock = get_lock host c.model
    · rw [heq, show holder' (get_lock host c.model) = none from Function.update_self _ _ _] at hlock
      cases hlock
    · rw [show holder' lock = s.holder lock from Function.update_of_ne heq _ _] at hlock
      refine .inl ⟨?_, hlock⟩
      rintro rfl
      exact heq (hs.held_by hp hlock).2

theorem check_knows (files : String → Option (Content α)) (c : ModelConfig) :
    Knows host files c (check host files c) := by
  unfold check
  split
  · exact trivial
  · next dtype hdtype =>
    split_ifs with hmodel hdone
    · exact ⟨rfl, Option.isSome_iff_ne_none.mp hdone⟩
    · exact ⟨hdtype, fun h => hdone (Option.isSome_iff_ne_none.mpr h)⟩
    · exact trivial

theorem check_inside (files : String → Option (Content α)) (c : ModelConfig) :
    (check host files c).inside = true := by
  unfold check
  split
  · rfl
  · split_ifs <;> rfl

/-! ### The conversion -/

theorem Saves.inside {phase phase' : Phase α} (h : Saves host c files phase phase' files') :
    phase.inside = true ∧ phase'.inside = true := by
  cases h <;> exact ⟨rfl, rfl⟩

theorem Saves.not_done {phase phase' : Phase α} (h : Saves host c files phase phase' files')
    (hknows : Knows host files c phase) : ¬ IsDone host files c.model := by
  cases h <;> exact hknows.1

/-- A conversion changes no file outside the folder of its model. -/
theorem Saves.frame {phase phase' : Phase α} (h : Saves host c files phase phase' files')
    (hknows : Knows host files c phase) (hpath : ¬ InFolder host c.model path) :
    files' path = files path := by
  cases h with
  | done =>
    refine Function.update_of_ne ?_ _ _
    rintro rfl
    exact hpath (done_file_inFolder host c.model)
  | raise => rfl
  | opens =>
    obtain ⟨-, written, hplan, -⟩ := hknows
    refine Function.update_of_ne ?_ _ _
    rintro rfl
    exact hpath hplan.isWeight_next.inFolder
  | closes =>
    obtain ⟨-, written, hplan, -⟩ := hknows
    refine Function.update_of_ne ?_ _ _
    rintro rfl
    exact hpath hplan.isWeight_next.inFolder

theorem not_done_update {file : SavedFile α} (content : Content α)
    (hdone : ¬ IsDone host files model) (hfile : IsWeight host model file.filename) :
    ¬ IsDone host (Function.update files file.filename (some content)) model := by
  unfold IsDone at *
  rwa [Function.update_of_ne (hfile.ne_done model).symm]

/-- What the conversion relies on after a step, and when it is the last one, the folder is whole. -/
theorem Saves.knows {phase phase' : Phase α} (h : Saves host c files phase phase' files')
    (hknows : Knows host files c phase) :
    Knows host files' c phase' ∧ (IsDone host files' c.model → Whole host files' c.model) := by
  cases h with
  | done =>
    obtain ⟨-, written, hplan, hsaved⟩ := hknows
    rw [List.append_nil] at hplan
    refine ⟨⟨rfl, ?_⟩, fun _ => hplan.whole fun file hfile => (hsaved file hfile).of_eq ?_⟩
    · unfold IsDone
      rw [Function.update_self]
      exact Option.some_ne_none _
    · exact Function.update_of_ne ((hplan.isWeight (List.mem_map_of_mem hfile)).ne_done _) _ _
  | raise => exact ⟨trivial, fun hdone => absurd hdone hknows.1⟩
  | opens =>
    obtain ⟨hdone, written, hplan, hsaved⟩ := hknows
    have hdone := not_done_update .part hdone hplan.isWeight_next
    refine ⟨⟨hdone, written, hplan, fun file' hfile' hne => ?_⟩, fun h => absurd h hdone⟩
    exact (hsaved file' hfile').of_eq (Function.update_of_ne hne _ _)
  | @closes file steps =>
    obtain ⟨hdone, written, hplan, hsaved⟩ := hknows
    have hdone := not_done_update (.tensor file) hdone hplan.isWeight_next
    refine ⟨⟨hdone, written ++ [file], ?_, saved_snoc hsaved⟩, fun h => absurd h hdone⟩
    rwa [List.map_append, List.map_singleton, List.append_assoc, List.singleton_append]

theorem Saves.sameFolder {phase phase' : Phase α} (h : Saves host c files phase phase' files')
    (hknows : Knows host files c phase) (hplain : IsPlain c.model) (hplain' : IsPlain model)
    (hne : model ≠ c.model) : SameFolder host files files' model := fun _ hpath =>
  h.frame hknows fun hpath' => hne (hpath.inj hplain' hplain hpath')

/-- A call that is not inside relies on the file `done` at most. -/
theorem Knows.of_outside {phase : Phase α} (h : Knows host files c phase)
    (hinside : phase.inside = false) (hdone : ¬ IsDone host files c.model) :
    Knows host files' c phase := by
  cases phase with
  | waiting => exact trivial
  | killed => exact trivial
  | left result =>
    cases result with
    | error e => exact trivial
    | ok folder => exact absurd h.2 hdone
  | _ => cases hinside

theorem Safe.save (hs : Safe host s) {phase phase' : Phase α}
    (hp : s.calls p = some ⟨c, phase⟩) (h : Saves host c s.files phase phase' files') :
    Safe host (({ s with files := files' } : Cache α).set_phase p c phase') := by
  have hplain := hs.plain p c phase hp
  have hknows := hs.knows p c phase hp
  have hothers : ∀ q c' phase₂, q ≠ p → s.calls q = some ⟨c', phase₂⟩ →
      (phase₂.inside = true → s.holder (get_lock host c'.model) = some q) ∧
        Knows host files' c' phase₂ := by
    intro q c' phase₂ hqp hq
    refine ⟨hs.holds q c' phase₂ hq, ?_⟩
    by_cases hmodel : c'.model = c.model
    · -- The lock keeps everyone else who asks for the model outside.
      refine (hs.knows q c' phase₂ hq).of_outside ?_ (hmodel ▸ h.not_done hknows)
      by_contra hinside
      exact hqp (hs.alone hp h.inside.1 hq (Bool.of_not_eq_false hinside) (by rw [hmodel]))
    · exact (h.sameFolder hknows hplain (hs.plain q c' phase₂ hq) hmodel).knows
        (hs.knows q c' phase₂ hq)
  have hwhole : ∀ model, IsPlain model → IsDone host files' model → Whole host files' model := by
    intro model hplain' hdone
    by_cases hmodel : model = c.model
    · rw [hmodel] at hdone ⊢
      exact (h.knows hknows).2 hdone
    · have hsame := h.sameFolder hknows hplain hplain' hmodel
      exact hsame.whole (hs.whole model hplain' (hsame.done_iff.mp hdone))
  refine hs.moved files' s.holder hplain hothers (fun _ => hs.holds p c phase hp h.inside.1) ?_
    (h.knows hknows).1 hwhole
  intro lock q hlock
  by_cases hqp : q = p
  · exact .inr ⟨hqp, h.inside.2, (hs.held_by hp (hqp ▸ hlock)).2⟩
  · exact .inl ⟨hqp, hlock⟩

/-- The lock, the disk and the arguments stay. -/
theorem Safe.goes_on (hs : Safe host s) {phase phase' : Phase α}
    (hp : s.calls p = some ⟨c, phase⟩) (hinside : phase.inside = true)
    (hinside' : phase'.inside = true) (hknows : Knows host s.files c phase') :
    Safe host (s.set_phase p c phase') :=
  hs.set_phase (hs.plain p c _ hp) (fun _ => hs.holds p c _ hp hinside)
    (fun _ hlock => ⟨hinside', (hs.held_by hp hlock).2⟩) hknows

/-- A call that does not hold a lock is set to a phase outside. -/
theorem Safe.stays_outside (hs : Safe host s) {phase' : Phase α} (hplain : IsPlain c.model)
    (hnot : ∀ lock, s.holder lock ≠ some p) (hinside' : phase'.inside = false)
    (hknows : Knows host s.files c phase') : Safe host (s.set_phase p c phase') :=
  hs.set_phase hplain (fun hinside => absurd hinside (by rw [hinside']; exact Bool.false_ne_true))
    (fun lock hlock => absurd hlock (hnot lock)) hknows

/-- A step lemma for all actions. -/
theorem Safe.step (hs : Safe host s) (hproper : Proper host s action)
    (h : Moves host s action s') : Safe host s' := by
  cases h with
  | @call p c hp =>
    refine hs.stays_outside hproper (fun lock hlock => ?_) rfl trivial
    obtain ⟨c', phase, hp', -⟩ := hs.held lock p hlock
    rw [hp] at hp'
    cases hp'
  | acquire hp hfree => exact hs.acquire hp hfree
  | @check p c hp => exact hs.goes_on hp rfl (check_inside _ c) (check_knows _ c)
  | @load p c is_local listed dtype hp =>
    obtain ⟨hdtype, hdone⟩ := hs.knows p c _ hp
    obtain ⟨hholds, hflat⟩ := hproper
    rw [hp] at hholds
    refine hs.goes_on hp rfl rfl ⟨hdone, [], ?_, fun file hfile => absurd hfile List.not_mem_nil⟩
    exact ⟨dtype, is_local, listed, hdtype, hholds, glob_flat hflat _, rfl⟩
  | fail_download hp => exact hs.goes_on hp rfl rfl trivial
  | save hp hsaves => exact hs.save hp hsaves
  | @leave p c result hp =>
    refine hs.release hp rfl rfl ?_
    have hknows := hs.knows p c _ hp
    cases result with
    | error e => exact trivial
    | ok folder => exact hknows
  | kill_inside hp hinside => exact hs.release hp hinside rfl trivial
  | @kill_waiting p c hp =>
    refine hs.stays_outside (hs.plain p c _ hp) (fun lock hlock => ?_) rfl trivial
    exact absurd (hs.held_by hp hlock).1 Bool.false_ne_true

/-- A folder with the file `done` stays as it is. -/
theorem Safe.done_stays (hs : Safe host s) (h : Moves host s action s') (hplain : IsPlain model)
    (hdone : IsDone host s.files model) : SameFolder host s.files s'.files model := by
  cases h with
  | @save p c phase phase' files' hp hsaves =>
    have hknows := hs.knows p c phase hp
    refine hsaves.sameFolder hknows (hs.plain p c phase hp) hplain ?_
    rintro rfl
    exact hsaves.not_done hknows hdone
  | _ => exact fun _ _ => rfl

/-! ## Runs -/

instance : DecidablePred IsPlain := fun model =>
  inferInstanceAs (Decidable (List.IsChain _ model.toList))

instance : DecidablePred (Flat (α := α)) := fun d =>
  inferInstanceAs (Decidable (∀ key ∈ d.items.map Prod.fst, '/' ∉ key.toList))

instance (s : Cache α) (action : Action α) : Decidable (Proper host s action) :=
  match action with
  | .call _ c => inferInstanceAs (Decidable (IsPlain c.model))
  | .load p is_local listed => inferInstanceAs (Decidable ((s.calls p).all
      (fun process => host.holds process.model_config.model is_local listed) = true ∧
        ∀ file ∈ listed, ∀ loaded ∈ file.state_dict, Flat loaded))
  | .acquire _ | .check _ | .fail_download _ _ | .save _ | .leave _ | .kill _ => .isTrue trivial

/-- The calls of a machine, with proper names only. -/
def proper_machine (host : Host α) : Machine Empty (Cache α) (Action α) :=
  restrict (machine host) (Proper host)

theorem proper_machine_eq_ok : proper_machine host s action = some (.ok s') ↔
    Proper host s action ∧ step host s action = some s' := by
  rw [proper_machine, restrict_eq_some, machine, Option.map_eq_some_iff]
  constructor
  · rintro ⟨hproper, s'', hstep, heq⟩
    exact ⟨hproper, Except.ok.inj heq ▸ hstep⟩
  · rintro ⟨hproper, hstep⟩
    exact ⟨hproper, s', hstep, rfl⟩

/-- No folder has the file `done` yet. What else is on the disk may be left from processes that
were killed. -/
def Fresh (host : Host α) (files : String → Option (Content α)) : Prop :=
  ∀ model, IsPlain model → ¬ IsDone host files model

/-- A machine with tensors without values. -/
def small_host : Host Unit := ⟨"/cache", "/cache", fun _ t => t, fun _ _ _ => true⟩

def empty_disk : String → Option (Content Unit) := fun _ => none

theorem empty_disk_fresh : Fresh small_host empty_disk := fun _ _ hdone => hdone rfl

/-- A GPT-2 in a local folder. -/
def small_config : ModelConfig := ⟨"gpt2", "fp16", "gpt2"⟩

/-- A call that is killed when it begins to convert, while another one waits. -/
def killed_actions : List (Action Unit) := [.call 0 small_config, .call 1 small_config, .acquire 0,
  .check 0, .load 0 true [], .kill 0]

theorem safe_init (hfresh : Fresh host files) : Safe host (Cache.init files) where
  plain _ _ _ hp := by cases hp
  holds _ _ _ hp := by cases hp
  held _ _ hlock := by cases hlock
  knows _ _ _ hp := by cases hp
  whole model hplain hdone := absurd hdone (hfresh model hplain)

theorem Safe.reaches (hs : Safe host s) (h : Reaches (proper_machine host) s s') :
    Safe host s' := by
  induction h with
  | refl => exact hs
  | tail _ hstep ih =>
    obtain ⟨action, haction⟩ := hstep
    obtain ⟨hproper, hstep⟩ := proper_machine_eq_ok.mp haction
    exact ih.step hproper (moves_of_step hstep)

theorem Safe.done_stays_on (hs : Safe host s) (h : Reaches (proper_machine host) s s')
    (hplain : IsPlain model) (hdone : IsDone host s.files model) :
    SameFolder host s.files s'.files model := by
  induction h with
  | refl => exact fun _ _ => rfl
  | tail hreaches hstep ih =>
    obtain ⟨action, haction⟩ := hstep
    obtain ⟨hproper, hstep⟩ := proper_machine_eq_ok.mp haction
    have hsame := (hs.reaches hreaches).done_stays (moves_of_step hstep) hplain
      (ih.done_iff.mpr hdone)
    exact fun path hpath => (hsame path hpath).trans (ih path hpath)

end distserve.downloader
