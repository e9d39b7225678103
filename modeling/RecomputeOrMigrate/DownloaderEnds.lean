-- No call waits in vain: without another process being killed it can come to its end. A model of
-- the hub ends in an exit, since the path of its files gets a second pattern.
import RecomputeOrMigrate.DownloaderRun

open calls dicts regex runs tensors

namespace distserve.downloader

open converter

/-- What the folder of a model holds, and whether it is a local one. -/
abbrev Found (α : Type) := String → Bool × List (Listed α)

variable {α : Type} {host : Host α} {s s' : Cache α} {p q : Nat} {c : ModelConfig}
  {files : String → Option (Content α)} {found : Found α}

/-! ## The way to the end -/

/-- The folders may hold what is found, and no weight in it has a `/` in its name. -/
def ProperFound (host : Host α) (found : Found α) : Prop :=
  ∀ model, host.holds model (found model).1 (found model).2 = true ∧
    ∀ file ∈ (found model).2, ∀ loaded ∈ file.state_dict, Flat loaded

/-- A step of a call that has begun, other than its death. It reads what is found, and a download
succeeds. -/
def Willing (found : Found α) (s : Cache α) : Action α → Prop
  | .call _ _ | .fail_download _ _ | .kill _ => False
  | .load p is_local listed =>
    ∀ process ∈ s.calls p, (is_local, listed) = found process.model_config.model
  | _ => True

/-- No call begins and no process is killed. -/
def Willingly (host : Host α) (found : Found α) : Cache α → Cache α → Prop :=
  Relation.ReflTransGen fun s s' =>
    ∃ action, Willing found s action ∧ proper_machine host s action = some (.ok s')

/-- The call `p` has left with this result and released its lock. -/
structure Leaves (host : Host α) (found : Found α) (s : Cache α) (p : Nat) (c : ModelConfig)
    (result : Except DownloadError String) (s' : Cache α) : Prop where
  reaches : Willingly host found s s'
  calls_eq : s'.calls = Function.update s.calls p (some ⟨c, .left result⟩)
  holder_eq : s'.holder = Function.update s.holder (get_lock host c.model) none

theorem reaches_head {action : Action α} {s'' : Cache α} (hproper : Proper host s action)
    (hwilling : Willing found s action) (hstep : step host s action = some s')
    (h : Willingly host found s' s'') : Willingly host found s s'' :=
  Relation.ReflTransGen.head ⟨action, hwilling, proper_machine_eq_ok.mpr ⟨hproper, hstep⟩⟩ h

/-- After a step of the call `p` that keeps the locks. -/
theorem Leaves.head {action : Action α} {phase : Phase α} {result : Except DownloadError String}
    {s'' : Cache α} (hproper : Proper host s action) (hwilling : Willing found s action)
    (hstep : step host s action = some s')
    (hcalls : s'.calls = Function.update s.calls p (some ⟨c, phase⟩))
    (hholder : s'.holder = s.holder) (h : Leaves host found s' p c result s'') :
    Leaves host found s p c result s'' where
  reaches := reaches_head hproper hwilling hstep h.reaches
  calls_eq := by rw [h.calls_eq, hcalls, Function.update_idem]
  holder_eq := by rw [h.holder_eq, hholder]

variable (host) (found)

theorem step_eq (action : Action α) {phase : Phase α} (hp : s.calls action.of = some ⟨c, phase⟩) :
    step host s action = call_step host s action.of ⟨c, phase⟩ action := by
  unfold step
  rw [hp]

theorem leaves_of_leaving {result : Except DownloadError String}
    (hp : s.calls p = some ⟨c, .leaving result⟩) : ∃ s', Leaves host found s p c result s' := by
  let action : Action α := .leave p
  have hstep : step host s action =
      some ((s.set_holder (get_lock host c.model) none).set_phase p c (.left result)) :=
    (step_eq host action hp).trans rfl
  have hproper : Proper host s action := trivial
  exact ⟨_, reaches_head hproper trivial hstep .refl, rfl, rfl⟩

theorem step_save {phase : Phase α} (hp : s.calls p = some ⟨c, phase⟩) :
    step host s (.save p) = save_step host s p c phase := by
  refine (step_eq host (.save p) hp).trans ?_
  cases phase <;> rfl

/-- After a step of the conversion. -/
theorem Leaves.after_save {phase phase' : Phase α} {result : Except DownloadError String}
    {s'' : Cache α} (hp : s.calls p = some ⟨c, phase⟩)
    (hsave : save_step host s p c phase = some s')
    (hcalls : s'.calls = Function.update s.calls p (some ⟨c, phase'⟩))
    (hholder : s'.holder = s.holder) (h : Leaves host found s' p c result s'') :
    Leaves host found s p c result s'' := by
  let action : Action α := .save p
  have hproper : Proper host s action := trivial
  exact h.head hproper trivial ((step_save host hp).trans hsave) hcalls hholder

/-- A conversion goes on up to its end or its first exception. -/
theorem leaves_of_saving (steps : List (Except DownloadError (SavedFile α)))
    (hp : s.calls p = some ⟨c, .saving steps⟩) : ∃ s', Leaves host found s p c
      ((fun _ => storage_folder host c.model) <$> steps.mapM id) s' := by
  induction steps generalizing s with
  | nil =>
    let s₁ := (s.set_file (done_file host c.model) .empty).set_phase p c
      (.leaving (.ok (storage_folder host c.model)))
    have hp₁ : s₁.calls p = some ⟨c, _⟩ := Function.update_self _ _ _
    obtain ⟨s', h⟩ := leaves_of_leaving host found hp₁
    exact ⟨s', h.after_save host found hp rfl rfl rfl⟩
  | cons first steps ih =>
    cases first with
    | error e =>
      let s₁ := s.set_phase p c (.leaving (.error e))
      have hp₁ : s₁.calls p = some ⟨c, _⟩ := Function.update_self _ _ _
      obtain ⟨s', h⟩ := leaves_of_leaving host found hp₁
      exact ⟨s', h.after_save host found hp rfl rfl rfl⟩
    | ok file =>
      let s₁ := (s.set_file file.filename .part).set_phase p c (.writing file steps)
      let s₂ := (s₁.set_file file.filename (.tensor file)).set_phase p c (.saving steps)
      have hp₁ : s₁.calls p = some ⟨c, _⟩ := Function.update_self _ _ _
      have hp₂ : s₂.calls p = some ⟨c, _⟩ := Function.update_self _ _ _
      obtain ⟨s', h⟩ := ih hp₂
      have hresult : (fun _ => storage_folder host c.model) <$> (.ok file :: steps).mapM id =
          (fun _ => storage_folder host c.model) <$> steps.mapM id := by
        rw [List.mapM_cons]
        cases steps.mapM id <;> rfl
      rw [hresult]
      exact ⟨s', (h.after_save host found hp₁ rfl rfl rfl).after_save host found hp rfl rfl rfl⟩

/-- The result of a call that enters now. -/
def result_of (s : Cache α) (c : ModelConfig) : Except DownloadError String :=
  match check host s.files c with
  | .leaving result => result
  | .loading dtype => (fun _ => storage_folder host c.model) <$> convert_weights host
      (storage_folder host c.model) (bin_files (found c.model).1 (found c.model).2) dtype
      c.model_type
  | _ => .ok (storage_folder host c.model)

theorem leaves_of_loading (hfound : ProperFound host found) {dtype : Dtype}
    (hp : s.calls p = some ⟨c, .loading dtype⟩) : ∃ s', Leaves host found s p c
      ((fun _ => storage_folder host c.model) <$> convert_weights host
        (storage_folder host c.model) (bin_files (found c.model).1 (found c.model).2) dtype
        c.model_type) s' := by
  let action : Action α := .load p (found c.model).1 (found c.model).2
  let steps := convert_steps host (storage_folder host c.model)
    (bin_files (found c.model).1 (found c.model).2) dtype c.model_type
  let s₁ := s.set_phase p c (.saving steps)
  have hp₁ : s₁.calls p = some ⟨c, _⟩ := Function.update_self _ _ _
  have hstep : step host s action = some s₁ :=
    (step_eq host action hp).trans rfl
  have hproper : Proper host s action := by
    refine ⟨?_, (hfound c.model).2⟩
    rw [hp]
    exact (hfound c.model).1
  have hwilling : Willing found s action := by
    intro process hprocess
    rw [hp] at hprocess
    cases hprocess
    rfl
  obtain ⟨s', h⟩ := leaves_of_saving host found steps hp₁
  rw [convert_weights_eq]
  exact ⟨s', h.head hproper hwilling hstep rfl rfl⟩

theorem leaves_of_entered (hfound : ProperFound host found)
    (hp : s.calls p = some ⟨c, .entered⟩) :
    ∃ s', Leaves host found s p c (result_of host found s c) s' := by
  let action : Action α := .check p
  let s₁ := s.set_phase p c (check host s.files c)
  have hstep : step host s action = some s₁ :=
    (step_eq host action hp).trans rfl
  have hproper : Proper host s action := trivial
  have hleaves : ∃ s', Leaves host found s₁ p c (result_of host found s c) s' := by
    have hp₁ : s₁.calls p = some ⟨c, check host s.files c⟩ := Function.update_self _ _ _
    unfold result_of
    cases hcheck : check host s.files c with
    | leaving result => exact leaves_of_leaving host found (hcheck ▸ hp₁)
    | loading dtype => exact leaves_of_loading host found hfound (hcheck ▸ hp₁)
    | _ =>
      unfold check at hcheck
      split at hcheck
      · cases hcheck
      · split_ifs at hcheck
  obtain ⟨s', h⟩ := hleaves
  exact ⟨s', h.head hproper trivial hstep rfl rfl⟩

theorem leaves_of_waiting (hfound : ProperFound host found)
    (hp : s.calls p = some ⟨c, .waiting⟩) (hfree : s.holder (get_lock host c.model) = none) :
    ∃ s', Leaves host found s p c (result_of host found s c) s' := by
  let action : Action α := .acquire p
  let s₁ := (s.set_holder (get_lock host c.model) (some p)).set_phase p c .entered
  have hstep : step host s action = some s₁ :=
    (step_eq host action hp).trans (if_pos hfree)
  have hproper : Proper host s action := trivial
  have hp₁ : s₁.calls p = some ⟨c, .entered⟩ := Function.update_self _ _ _
  obtain ⟨s', h⟩ := leaves_of_entered host found hfound hp₁
  have hresult : result_of host found s₁ c = result_of host found s c := by
    simp only [result_of, s₁, Cache.set_phase_files, Cache.set_holder_files]
  rw [hresult] at h
  refine ⟨s', reaches_head hproper trivial hstep h.reaches, ?_, ?_⟩
  · rw [h.calls_eq, Cache.set_phase_calls, Function.update_idem, Cache.set_holder_calls]
  · rw [h.holder_eq, Cache.set_phase_holder, Cache.set_holder_holder, Function.update_idem]

/-- Whoever is inside gets out. -/
theorem leaves_of_inside (hfound : ProperFound host found) {phase : Phase α}
    (hp : s.calls p = some ⟨c, phase⟩) (hinside : phase.inside = true) :
    ∃ s' result, Leaves host found s p c result s' := by
  cases phase with
  | entered =>
    obtain ⟨s', h⟩ := leaves_of_entered host found hfound hp
    exact ⟨s', _, h⟩
  | loading dtype =>
    obtain ⟨s', h⟩ := leaves_of_loading host found hfound hp
    exact ⟨s', _, h⟩
  | saving steps =>
    obtain ⟨s', h⟩ := leaves_of_saving host found steps hp
    exact ⟨s', _, h⟩
  | writing file steps =>
    let s₁ := (s.set_file file.filename (.tensor file)).set_phase p c (.saving steps)
    have hp₁ : s₁.calls p = some ⟨c, _⟩ := Function.update_self _ _ _
    obtain ⟨s', h⟩ := leaves_of_saving host found steps hp₁
    exact ⟨s', _, h.after_save host found hp rfl rfl rfl⟩
  | leaving result =>
    obtain ⟨s', h⟩ := leaves_of_leaving host found hp
    exact ⟨s', _, h⟩
  | _ => cases hinside

theorem Leaves.call_eq {result : Except DownloadError String}
    (h : Leaves host found s p c result s') : s'.calls p = some ⟨c, .left result⟩ := by
  rw [h.calls_eq, Function.update_self]

variable {host} {found}

/-- A call that waits gets in once the call that holds the lock has come to its end. -/
theorem Safe.waits_out (hs : Safe host s) (hfound : ProperFound host found)
    (hp : s.calls p = some ⟨c, .waiting⟩) : ∃ s₁ s', Willingly host found s s' ∧
      s'.calls p = some ⟨c, .left (result_of host found s₁ c)⟩ := by
  cases hholder : s.holder (get_lock host c.model) with
  | none =>
    obtain ⟨s', hleaves⟩ := leaves_of_waiting host found hfound hp hholder
    exact ⟨s, s', hleaves.reaches, hleaves.call_eq⟩
  | some q =>
    obtain ⟨c', phase', hq, hinside', hlock⟩ := hs.held _ q hholder
    obtain ⟨s₁, result₁, hleaves₁⟩ := leaves_of_inside host found hfound hq hinside'
    have hpq : p ≠ q := by
      rintro rfl
      rw [hp] at hq
      cases hq
      cases hinside'
    have hp₁ : s₁.calls p = some ⟨c, .waiting⟩ := by
      rw [hleaves₁.calls_eq, Function.update_of_ne hpq, hp]
    have hfree : s₁.holder (get_lock host c.model) = none := by
      rw [hleaves₁.holder_eq, hlock, Function.update_self]
    obtain ⟨s', hleaves⟩ := leaves_of_waiting host found hfound hp₁ hfree
    exact ⟨s₁, s', hleaves₁.reaches.trans hleaves.reaches, hleaves.call_eq⟩

/-- In no state that the calls and the deaths of processes lead to is a call stuck: from there it
can come to its end, whatever the folders hold, and no process has to be killed for it. -/
theorem every_call_can_end (hfresh : Fresh host files) (hfound : ProperFound host found)
    (h : Reaches (proper_machine host) (Cache.init files) s) {phase : Phase α}
    (hp : s.calls p = some ⟨c, phase⟩) (halive : phase ≠ .killed) :
    ∃ s' result, Willingly host found s s' ∧ s'.calls p = some ⟨c, .left result⟩ := by
  cases hinside : phase.inside with
  | true =>
    obtain ⟨s', result, hleaves⟩ := leaves_of_inside host found hfound hp hinside
    exact ⟨s', result, hleaves.reaches, hleaves.call_eq⟩
  | false =>
    cases phase with
    | waiting =>
      obtain ⟨s₁, s', hreaches, hp'⟩ := ((safe_init hfresh).reaches h).waits_out hfound hp
      exact ⟨s', _, hreaches, hp'⟩
    | left result => exact ⟨s, result, .refl, hp⟩
    | killed => exact absurd rfl halive
    | _ => cases hinside

/-- The call has begun and has not got the lock. -/
def waits (s : Cache Unit) (p : Nat) : Bool :=
  match s.calls p with
  | some ⟨c, .waiting⟩ => decide (c = small_config)
  | _ => false

/-- The call that held the lock was killed when it began to convert, and another one waits. -/
theorem a_call_waits_after_a_death : ∃ s : Cache Unit,
    Reaches (proper_machine small_host) (Cache.init empty_disk) s ∧
      s.calls 1 = some ⟨small_config, .waiting⟩ := by
  obtain ⟨s, hreaches, hwaits⟩ := reaches_of_any (m := proper_machine small_host)
    (s := Cache.init empty_disk) killed_actions (waits · 1) (by decide)
  refine ⟨s, hreaches, ?_⟩
  unfold waits at hwaits
  split at hwaits
  · next c hp =>
    rw [hp, of_decide_eq_true hwaits]
  · cases hwaits

theorem a_call_after_a_death_ends : ∃ s s' result,
    Reaches (proper_machine small_host) (Cache.init empty_disk) s ∧
      s.calls 1 = some ⟨small_config, .waiting⟩ ∧
      Willingly small_host (fun _ => (true, [])) s s' ∧
      s'.calls 1 = some ⟨small_config, .left result⟩ := by
  obtain ⟨s, hreaches, hp⟩ := a_call_waits_after_a_death
  have hphase : (Phase.waiting : Phase Unit) ≠ .killed := by
    intro h
    cases h
  have hfound : ProperFound small_host fun _ => (true, []) :=
    fun _ => ⟨rfl, fun _ hfile => absurd hfile List.not_mem_nil⟩
  obtain ⟨s', result, hends⟩ := every_call_can_end empty_disk_fresh hfound hreaches hp hphase
  exact ⟨s, s', result, hreaches, hp, hends⟩

/-- A call that has just begun. -/
def small_start : Cache Unit := (Cache.init empty_disk).set_phase 0 small_config .waiting

theorem small_start_calls : small_start.calls 0 = some ⟨small_config, .waiting⟩ := rfl

theorem small_start_reached :
    Reaches (proper_machine small_host) (Cache.init empty_disk) small_start := by
  have hcall : proper_machine small_host (Cache.init empty_disk) (.call 0 small_config) =
      some (.ok small_start) := proper_machine_eq_ok.mpr ⟨by decide, rfl⟩
  exact (Reaches.refl _ _).tail hcall

/-! ## Local checkpoints -/

/-- `hf_config.model_type`. -/
def model_type_of : Checkpoint → String
  | .opt _ => "opt"
  | .llama _ => "llama"
  | .gpt2 => "gpt2"

section

variable {checkpoint : Checkpoint} {sizes : Sizes} {n : Nat} {d : TensorDict α} {dtype : Dtype}

theorem get?_change_dtype (key : String) :
    (change_dtype host dtype d).get? key = (d.get? key).map (host.cast dtype) :=
  Dict.get?_foldl_items (fun _ => true) (host.cast dtype) d key

theorem get?_update_empty (key : String) : (update Dict.empty d).get? key = d.get? key := by
  refine (Dict.get?_foldl_set d.nodup (fun _ => true) id Dict.empty key).trans ?_
  change (d.get? key).elim none some = d.get? key
  cases d.get? key <;> rfl

/-- What is loaded and cast is a state dict of the same checkpoint. -/
theorem state_dict_loaded (hcast : ∀ t, (host.cast dtype t).shape = t.shape)
    (hd : StateDict checkpoint sizes n d) :
    StateDict checkpoint sizes n (change_dtype host dtype (update Dict.empty d)) where
  has_weights w hw i hi := by
    obtain ⟨t, ht, hshape⟩ := hd.has_weights w hw i hi
    refine ⟨host.cast dtype t, ?_, (hcast t).trans hshape⟩
    rw [get?_change_dtype, get?_update_empty, ht]
    rfl
  has_no_others key hkey := by
    refine hd.has_no_others key (Dict.mem_iff_isSome.mpr ?_)
    rw [Dict.mem_iff_isSome, get?_change_dtype, get?_update_empty] at hkey
    simpa using hkey

/-- The weights of a checkpoint have names without a `/`. -/
theorem checkpoint_flat (checkpoint : Checkpoint) :
    ∀ w ∈ checkpoint.weights.map Prod.fst ++ checkpoint.ignored, FlatTemplate w := by
  rcases checkpoint with model | model | -
  · cases model <;>
    · simp only [Checkpoint.weights, Checkpoint.ignored, prefix_of, with_bias, Template.plain,
        Template.numbered, String.toList_append, Template.toList_literal, if_true, if_false,
        Bool.false_eq_true]
      decide +kernel
  · cases model <;>
    · simp only [Checkpoint.weights, Checkpoint.ignored, prefix_of, Template.plain,
        Template.numbered, String.toList_append, Template.toList_literal, if_true, if_false,
        Bool.false_eq_true]
      decide +kernel
  · simp only [Checkpoint.weights, Checkpoint.ignored, with_bias, Template.plain,
      Template.numbered, String.toList_append, Template.toList_literal]
    decide +kernel

theorem state_dict_flat (hd : StateDict checkpoint sizes n d) : Flat d := by
  intro key hkey
  rcases hd.has_no_others key hkey with ⟨w, hw, i, -, rfl⟩ | ⟨w, hw, i, -, rfl⟩
  · exact name_flat (checkpoint_flat checkpoint w.1
      (List.mem_append_left _ (List.mem_map_of_mem hw))) i
  · exact name_flat (checkpoint_flat checkpoint w (List.mem_append_right _ hw)) i

theorem select_preprocessor (checkpoint : Checkpoint) :
    select (PREPROCESSOR (α := α)) (model_type_of checkpoint) = .ok checkpoint.preprocess := by
  cases checkpoint <;> rfl

theorem select_translator (checkpoint : Checkpoint) :
    select NAME_TRANSLATOR (model_type_of checkpoint) = .ok checkpoint.translator := by
  cases checkpoint <;> rfl

/-- The conversion of a checkpoint of one of the families ends well. -/
theorem convert_checkpoint (hcast : ∀ t, (host.cast dtype t).shape = t.shape)
    (hsizes : checkpoint.HasSizes sizes) (hn : 1 ≤ n) (hd : StateDict checkpoint sizes n d)
    (output : String) : ∃ written, convert_weights host output [some d] dtype
      (model_type_of checkpoint) = .ok written := by
  obtain ⟨d', hpreprocess, hremains⟩ := preprocess_ok hsizes hn (state_dict_loaded hcast hd)
  have hprepare : prepare host [some d] dtype (model_type_of checkpoint) =
      .ok (d', checkpoint.translator, sizes.num_q_heads, sizes.head_dim) := by
    have hload : load [some d] = .ok (update Dict.empty d) := rfl
    rw [prepare, List.isEmpty_cons, if_neg Bool.false_ne_true, ok_bind hload]
    dsimp only
    rw [select_preprocessor, select_translator]
    change (checkpoint.preprocess _).mapError DownloadError.conversion >>= _ = _
    rw [hpreprocess]
    rfl
  choose! g hg using fun (item : String × Tensor α) hitem => hremains.saves hsizes output hitem
  have hfiles : (d'.items.mapM fun x => saveTranslated output checkpoint.translator
      sizes.num_q_heads sizes.head_dim x.1 x.2) = .ok (d'.items.map g) :=
    mapM_ok fun item hitem => (hg item hitem).1
  refine ⟨(d'.items.map g).flatten, ?_⟩
  rw [convert_weights, ok_bind hprepare]
  dsimp only
  rw [divideWeightAndSave, ok_bind hfiles]
  rfl

/-- What a call for a local folder with a checkpoint in one file gets, whatever is on the disk. -/
theorem result_of_local (host : Host α) (found : Found α) (s : Cache α)
    (hdtype : torch_dtype.lookup c.dtype = some dtype)
    (hmodel_type : c.model_type = model_type_of checkpoint)
    (hcast : ∀ t, (host.cast dtype t).shape = t.shape) (hsizes : checkpoint.HasSizes sizes)
    (hn : 1 ≤ n) (hd : StateDict checkpoint sizes n d) {name : String} (hname : is_bin name = true)
    (hlocal : found c.model = (true, [⟨[name], some d⟩])) :
    result_of host found s c = .ok (storage_folder host c.model) := by
  have hglob : bin_files (found c.model).1 (found c.model).2 = [some d] := by
    rw [hlocal]
    simp [bin_files, glob, hname]
  have hregistry : model_type_of checkpoint ∈ MODEL_REGISTRY := by
    cases checkpoint <;> simp [model_type_of, MODEL_REGISTRY]
  obtain ⟨written, hconvert⟩ :=
    convert_checkpoint hcast hsizes hn hd (storage_folder host c.model)
  rw [result_of, check, hdtype]
  dsimp only
  rw [hmodel_type, if_neg (not_not_intro hregistry)]
  split_ifs
  · rfl
  · dsimp only
    rw [hglob, hconvert]
    rfl

end

/-- A folder with a GPT-2 of two layers. -/
def small_found : Found Unit := fun _ =>
  (true, [⟨["pytorch_model.bin"], some (blank .gpt2 one_head 2)⟩])

theorem one_head_has_sizes : Checkpoint.gpt2.HasSizes one_head :=
  ⟨by decide, by decide, by decide, by decide, rfl, rfl, rfl, rfl⟩

theorem small_found_proper : ProperFound small_host small_found := by
  refine fun model => ⟨rfl, fun file hfile loaded hloaded => ?_⟩
  rw [List.mem_singleton.mp hfile] at hloaded
  rw [← Option.some.inj hloaded]
  exact state_dict_flat (blank_state_dict .gpt2 one_head 2)

/-- Whatever the calls, the order of their steps and the processes that are killed on the way: the
folder that a call returns has all files of one conversion of its model, and keeps them. -/
theorem the_returned_weights_are_whole (hfresh : Fresh host files)
    (h : Reaches (proper_machine host) (Cache.init files) s) {folder : String}
    (hp : s.calls p = some ⟨c, .left (.ok folder)⟩) :
    folder = storage_folder host c.model ∧ ∃ written, Converts host c.model written ∧
      ∀ s', Reaches (proper_machine host) s s' → Saved s'.files written := by
  have hs := (safe_init hfresh).reaches h
  have hplain := hs.plain p c _ hp
  obtain ⟨hfolder, hdone⟩ := hs.knows p c _ hp
  obtain ⟨written, hconverts, hsaved⟩ := hs.whole c.model hplain hdone
  refine ⟨hfolder, written, hconverts, fun s' h' => ?_⟩
  exact (hs.done_stays_on h' hplain hdone).saved hconverts.isWeight hsaved

theorem Willingly.reaches (h : Willingly host found s s') : Reaches (proper_machine host) s s' :=
  Relation.ReflTransGen.mono (fun _ _ hstep => hstep.imp fun _ h => h.2) _ _ h

theorem the_two_layers_stay : ∃ s folder written,
    s.calls 0 = some ⟨small_config, .left (.ok folder)⟩ ∧
    Converts small_host small_config.model written ∧
    ∀ s', Reaches (proper_machine small_host) s s' → Saved s'.files written := by
  have hdtype : torch_dtype.lookup small_config.dtype = some .float16 := rfl
  have hmodel_type : small_config.model_type = model_type_of .gpt2 := rfl
  obtain ⟨s, hleaves⟩ :=
    leaves_of_waiting small_host small_found small_found_proper small_start_calls rfl
  have hresult := result_of_local small_host small_found small_start hdtype hmodel_type
    (fun _ => rfl) one_head_has_sizes (by decide) (blank_state_dict .gpt2 one_head 2)
    (by decide) rfl
  have hp := hleaves.call_eq
  rw [hresult] at hp
  obtain ⟨hfolder, written, hconverts, hstays⟩ := the_returned_weights_are_whole empty_disk_fresh
    (small_start_reached.trans hleaves.reaches.reaches) hp
  exact ⟨s, _, written, hp, hconverts, hstays⟩

/-! ## Models of the hub -/

/-- The weights of a model of the hub, in a snapshot without a folder whose name ends in `.bin`. -/
def Action.FromHub : Action α → Prop
  | .load _ is_local listed => is_local = false ∧ ∀ file ∈ listed, file.path.length = 1 ∨
      file.path.head?.any is_bin = false
  | _ => True

instance (action : Action α) : Decidable action.FromHub :=
  match action with
  | .load _ is_local listed => inferInstanceAs (Decidable (is_local = false ∧
      ∀ file ∈ listed, file.path.length = 1 ∨ file.path.head?.any is_bin = false))
  | .call _ _ | .acquire _ | .check _ | .fail_download _ _ | .save _ | .leave _ | .kill _ =>
    .isTrue trivial

/-- The calls of a machine for models of the hub. -/
def hub_machine (host : Host α) : Machine Empty (Cache α) (Action α) :=
  restrict (proper_machine host) fun _ action => action.FromHub

theorem glob_of_hub {listed : List (Listed α)} (h : ∀ file ∈ listed, file.path.length = 1 ∨
    file.path.head?.any is_bin = false) : glob 2 listed = [] := by
  unfold glob
  rw [List.filterMap_eq_nil_iff]
  intro file hfile
  rw [if_neg]
  intro hmatches
  rw [Bool.and_eq_true, decide_eq_true_eq] at hmatches
  obtain ⟨hlength, hall⟩ := hmatches
  rcases h file hfile with hone | hother
  · omega
  · obtain ⟨first, rest, hpath⟩ := List.exists_cons_of_length_pos
      (show 0 < file.path.length by omega)
    rw [hpath] at hall hother
    rw [List.take_succ_cons, List.all_cons, Bool.and_eq_true] at hall
    rw [List.head?_cons, Option.any_some, hall.1] at hother
    cases hother

/-- The call asks for a dtype and a family of models that there are. -/
def Supported (c : ModelConfig) : Prop :=
  (torch_dtype.lookup c.dtype).isSome ∧ c.model_type ∈ MODEL_REGISTRY

/-- The call raises, and for what is supported it exits or its download raises. -/
def Fails (c : ModelConfig) (result : Except DownloadError String) : Prop :=
  ∃ e, result = .error e ∧ (Supported c → e = .system_exit 1 ∨ ∃ text, e = .download text)

/-- What can become of a call for a model of the hub. -/
def Doomed (c : ModelConfig) : Phase α → Prop
  | .saving steps => steps = [.error (.system_exit 1)]
  | .writing _ _ => False
  | .leaving result | .left result => Fails c result
  | _ => True

/-- Nothing is written, and no call succeeds. -/
structure Unserved (files : String → Option (Content α)) (s : Cache α) : Prop where
  files_eq : s.files = files
  plain : ∀ p c phase, s.calls p = some ⟨c, phase⟩ → IsPlain c.model
  doomed : ∀ p c phase, s.calls p = some ⟨c, phase⟩ → Doomed c phase

theorem Unserved.moved (hs : Unserved files s) (holder' : String → Option Nat) {phase : Phase α}
    (hplain : IsPlain c.model) (hdoomed : Doomed c phase) :
    Unserved files ⟨s.files, holder', Function.update s.calls p (some ⟨c, phase⟩)⟩ := by
  have hcalls : ∀ q c' phase', Function.update s.calls p (some ⟨c, phase⟩) q = some ⟨c', phase'⟩ →
      (c = c' ∧ phase = phase') ∨ s.calls q = some ⟨c', phase'⟩ := by
    intro q c' phase' hq
    by_cases hqp : q = p
    · rw [hqp, Function.update_self] at hq
      cases hq
      exact .inl ⟨rfl, rfl⟩
    · rw [Function.update_of_ne hqp] at hq
      exact .inr hq
  refine ⟨hs.files_eq, fun q c' phase' hq => ?_, fun q c' phase' hq => ?_⟩
  · rcases hcalls q c' phase' hq with ⟨rfl, -⟩ | hq
    · exact hplain
    · exact hs.plain q c' phase' hq
  · rcases hcalls q c' phase' hq with ⟨rfl, rfl⟩ | hq
    · exact hdoomed
    · exact hs.doomed q c' phase' hq

theorem check_doomed (c : ModelConfig) (hdone : ¬ IsDone host files c.model) :
    Doomed c (check host files c) := by
  unfold check
  cases hdtype : torch_dtype.lookup c.dtype with
  | none =>
    refine ⟨_, rfl, fun hsupported => ?_⟩
    rw [Supported, hdtype] at hsupported
    cases hsupported.1
  | some dtype =>
    dsimp only
    split_ifs with hmodel hfile
    · exact absurd (Option.isSome_iff_ne_none.mp hfile) hdone
    · exact trivial
    · exact ⟨_, rfl, fun hsupported => absurd hsupported.2 hmodel⟩

theorem Unserved.step {action : Action α} (hfresh : Fresh host files) (hs : Unserved files s)
    (hproper : Proper host s action) (hhub : action.FromHub) (h : Moves host s action s') :
    Unserved files s' := by
  cases h with
  | call hp => exact hs.moved s.holder hproper trivial
  | acquire hp hfree => exact hs.moved _ (hs.plain _ _ _ hp) trivial
  | @check p c hp =>
    have hplain := hs.plain p c _ hp
    refine hs.moved s.holder hplain (check_doomed c ?_)
    rw [hs.files_eq]
    exact hfresh c.model hplain
  | @load p c is_local listed dtype hp =>
    obtain ⟨rfl, hlisted⟩ := hhub
    refine hs.moved s.holder (hs.plain p c _ hp) ?_
    rw [bin_files, if_neg Bool.false_ne_true, glob_of_hub hlisted]
    rfl
  | @fail_download p c dtype text hp =>
    exact hs.moved s.holder (hs.plain p c _ hp) ⟨_, rfl, fun _ => .inr ⟨text, rfl⟩⟩
  | @save p c phase phase' files' hp hsaves =>
    have hdoomed := hs.doomed p c phase hp
    cases hsaves with
    | done => cases hdoomed
    | @raise e steps =>
      have he : e = .system_exit 1 := Except.error.inj (List.cons.inj hdoomed).1
      exact hs.moved s.holder (hs.plain p c _ hp) ⟨e, rfl, fun _ => .inl he⟩
    | opens => cases hdoomed
    | closes => exact hdoomed.elim
  | @leave p c result hp =>
    have hfails : Fails c result := hs.doomed p c _ hp
    exact hs.moved _ (hs.plain p c _ hp) hfails
  | kill_inside hp hinside => exact hs.moved _ (hs.plain _ _ _ hp) trivial
  | kill_waiting hp => exact hs.moved s.holder (hs.plain _ _ _ hp) trivial

theorem unserved_reaches (hfresh : Fresh host files)
    (h : Reaches (hub_machine host) (Cache.init files) s) : Unserved files s := by
  induction h with
  | refl =>
    exact ⟨rfl, fun _ _ _ hp => absurd hp (Option.some_ne_none _).symm,
      fun _ _ _ hp => absurd hp (Option.some_ne_none _).symm⟩
  | tail _ hstep ih =>
    obtain ⟨action, haction⟩ := hstep
    obtain ⟨hhub, hmove⟩ := restrict_eq_some.mp haction
    obtain ⟨hproper, hstep⟩ := proper_machine_eq_ok.mp hmove
    exact ih.step hfresh hproper hhub (moves_of_step hstep)

/-- A call for a model of the hub never returns, unless the model has been converted from a local
folder before: it exits after the download, without a weight or a file `done`. -/
theorem a_model_of_the_hub_is_never_served (hfresh : Fresh host files)
    (h : Reaches (hub_machine host) (Cache.init files) s) {result : Except DownloadError String}
    (hp : s.calls p = some ⟨c, .left result⟩) : Fails c result ∧ s.files = files := by
  have hs := unserved_reaches hfresh h
  exact ⟨hs.doomed p c _ hp, hs.files_eq⟩

theorem hub_machine_eq_ok {action : Action α} : hub_machine host s action = some (.ok s') ↔
    action.FromHub ∧ proper_machine host s action = some (.ok s') := restrict_eq_some

theorem Willingly.hub (hfound : ∀ model, (found model).1 = false ∧ ∀ file ∈ (found model).2,
    file.path.length = 1 ∨ file.path.head?.any is_bin = false)
    (h : Willingly host found s s') : Reaches (hub_machine host) s s' := by
  refine Relation.ReflTransGen.mono (fun s s' hstep => ?_) _ _ h
  obtain ⟨action, hwilling, hmove⟩ := hstep
  refine ⟨action, hub_machine_eq_ok.mpr ⟨?_, hmove⟩⟩
  cases action with
  | load p is_local listed =>
    cases hp : s.calls p with
    | none =>
      have hstep := (proper_machine_eq_ok.mp hmove).2
      unfold step at hstep
      rw [show s.calls (Action.of (.load p is_local listed)) = none from hp] at hstep
      cases hstep
    | some process =>
      have hlisted : (is_local, listed) = found process.model_config.model := hwilling process hp
      obtain ⟨hlocal, hfiles⟩ := hfound process.model_config.model
      rw [← hlisted] at hlocal hfiles
      exact ⟨hlocal, hfiles⟩
  | _ => exact trivial

/-- The snapshot of a model of the hub. -/
def hub_found : Found Unit := fun _ => (false, [⟨["pytorch_model.bin"], none⟩])

theorem a_download_ends_in_an_exit : ∃ (s : Cache Unit) (result : Except DownloadError String),
    s.calls 0 = some ⟨small_config, .left result⟩ ∧ Fails small_config result ∧
      s.files = empty_disk := by
  have hproper : ProperFound small_host hub_found := by
    refine fun model => ⟨rfl, fun file hfile loaded hloaded => ?_⟩
    rw [List.mem_singleton.mp hfile] at hloaded
    cases hloaded
  have hcall : hub_machine small_host (Cache.init empty_disk) (.call 0 small_config) =
      some (.ok small_start) :=
    hub_machine_eq_ok.mpr ⟨trivial, proper_machine_eq_ok.mpr ⟨by decide, rfl⟩⟩
  obtain ⟨s, hleaves⟩ := leaves_of_waiting small_host hub_found hproper small_start_calls rfl
  have hreaches : Reaches (hub_machine small_host) small_start s :=
    hleaves.reaches.hub fun _ => ⟨rfl, fun _ hfile => .inl (by
      rw [List.mem_singleton.mp hfile]
      rfl)⟩
  exact ⟨s, _, hleaves.call_eq, a_model_of_the_hub_is_never_served empty_disk_fresh
    (((Reaches.refl _ _).tail hcall).trans hreaches) hleaves.call_eq⟩

end distserve.downloader
