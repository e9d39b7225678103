-- Where the files of a conversion are: each model has a folder of its own, and each weight that is
-- saved is a file of it, other than the file `done`.
import RecomputeOrMigrate.Conversion
import RecomputeOrMigrate.Downloader
import RecomputeOrMigrate.General.Separators

open calls dicts regex separators tensors

namespace distserve.downloader

open converter

variable {α : Type} {host : Host α} {model model' base base' path : String}

/-! ## Folders -/

/-- A name in which no `-` stands before another one or before a `/`, such as those of the hub. -/
def IsPlain (model : String) : Prop := Plain '/' '-' model.toList

theorem repo_folder_name_eq (model : String) :
    (repo_folder_name model "model").toList =
      "models--".toList ++ doubled '/' '-' model.toList := by
  have hparts : "--".toList.intercalate (model.toList.splitOn '/') =
      doubled '/' '-' model.toList := intercalate_splitOn "--".toList '/' model.toList
  rw [repo_folder_name, String.toList_ofList, REPO_ID_SEPARATOR,
    List.intercalate_cons_of_ne_nil (List.splitOn_ne_nil _ _), hparts]
  simp

theorem repo_folder_name_inj (h : IsPlain model) (h' : IsPlain model')
    (heq : repo_folder_name model "model" = repo_folder_name model' "model") : model = model' := by
  have hlist := congrArg String.toList heq
  rw [repo_folder_name_eq, repo_folder_name_eq] at hlist
  exact String.toList_injective (doubled_inj h h' (List.append_cancel_left hlist))

/-- A name that is no path from the root goes behind the `/` of a folder. -/
theorem join_slash (dir : String) (h : base.toList.head? ≠ some '/') :
    join (dir ++ "/") base = dir ++ "/" ++ base := by
  have hrelative : base.startsWith "/" = false := by
    rw [String.startsWith_string_eq_false_iff]
    rintro ⟨rest, hrest⟩
    exact h (by rw [← hrest]; rfl)
  have hends : (dir ++ "/").endsWith "/" = true := by
    rw [← String.endsWith_toSlice, String.Slice.endsWith_string_iff, String.copy_toSlice,
      String.toList_append]
    exact List.suffix_append _ _
  rw [join, hrelative, hends]
  simp

theorem head_ne_of_not_mem (h : '/' ∉ base.toList) : base.toList.head? ≠ some '/' :=
  fun hhead => h (List.mem_of_mem_head? hhead)

theorem storage_folder_inj (h : IsPlain model) (h' : IsPlain model')
    (heq : storage_folder host model = storage_folder host model') : model = model' := by
  have hfolder : ∀ model, (repo_folder_name model "model").toList.head? ≠ some '/' := by
    intro model
    rw [repo_folder_name_eq, List.head?_append]
    simp
  exact repo_folder_name_inj h h'
    (join_inj (hfolder model) (hfolder model') (String.append_left_inj _ |>.mp heq))

/-! ## Files -/

/-- The path of a file in the folder of a model. -/
def InFolder (host : Host α) (model path : String) : Prop :=
  ∃ base, '/' ∉ base.toList ∧ path = storage_folder host model ++ base

theorem file_inj (hbase : '/' ∉ base.toList) (hbase' : '/' ∉ base'.toList)
    (h : storage_folder host model ++ base = storage_folder host model' ++ base') :
    storage_folder host model = storage_folder host model' ∧ base = base' := by
  have hlist := congrArg String.toList h
  simp only [storage_folder, String.toList_append, List.append_assoc] at hlist
  obtain ⟨hdir, hlast⟩ := last_part_inj hbase hbase' hlist
  exact ⟨congrArg (· ++ "/") (String.toList_injective hdir), String.toList_injective hlast⟩

theorem InFolder.inj (hplain : IsPlain model) (hplain' : IsPlain model')
    (h : InFolder host model path) (h' : InFolder host model' path) : model = model' := by
  obtain ⟨base, hbase, rfl⟩ := h
  obtain ⟨base', hbase', heq⟩ := h'
  exact storage_folder_inj hplain hplain' (file_inj hbase hbase' heq).1

theorem done_file_eq (host : Host α) (model : String) :
    done_file host model = storage_folder host model ++ "done" := join_slash _ (by decide)

theorem done_file_inFolder (host : Host α) (model : String) :
    InFolder host model (done_file host model) := ⟨"done", by decide, done_file_eq host model⟩

/-- The path of a weight in the folder of a model. -/
def IsWeight (host : Host α) (model path : String) : Prop :=
  ∃ stem, '/' ∉ stem.toList ∧ path = storage_folder host model ++ (stem ++ ".pt")

theorem not_mem_pt {stem : String} (h : '/' ∉ stem.toList) : '/' ∉ (stem ++ ".pt").toList := by
  rw [String.toList_append, List.mem_append, not_or]
  exact ⟨h, by decide⟩

theorem IsWeight.inFolder (h : IsWeight host model path) : InFolder host model path := by
  obtain ⟨stem, hstem, rfl⟩ := h
  exact ⟨stem ++ ".pt", not_mem_pt hstem, rfl⟩

theorem IsWeight.ne_done (h : IsWeight host model path) (model' : String) :
    path ≠ done_file host model' := by
  obtain ⟨stem, hstem, rfl⟩ := h
  rw [done_file_eq]
  intro heq
  have hname := congrArg String.toList (file_inj (not_mem_pt hstem) (by decide) heq).2
  rw [String.toList_append] at hname
  have hlast := congrArg List.getLast? hname
  rw [List.getLast?_append_of_ne_nil _ (by decide)] at hlast
  exact absurd hlast (by decide)

theorem isWeight_join {stem : String} (h : '/' ∉ stem.toList) :
    IsWeight host model (join (storage_folder host model) (stem ++ ".pt")) :=
  ⟨stem, h, join_slash _ (head_ne_of_not_mem (not_mem_pt h))⟩

/-! ## The steps of a conversion -/

section

variable (output_dir key : String) (tensor : Tensor α) (num_q_heads head_dim : Nat)

theorem storeQKVKernelOrBias_eq (split_dim : Nat) :
    storeQKVKernelOrBias output_dir key tensor split_dim head_dim num_q_heads =
      (List.range 8).mapM
        (storeQKVShard output_dir key tensor split_dim head_dim num_q_heads) := by
  refine .trans ?_ (mapM_bind _ _ 7).symm
  refine bind_congr fun qkvs => .trans ?_ (mapM_bind _ _ 7).symm
  refine bind_congr fun n => .trans ?_ (mapM_bind _ _ 7).symm
  refine bind_congr fun q => .trans ?_ (mapM_bind _ _ 7).symm
  refine bind_congr fun qs => .trans ?_ (mapM_bind _ _ 7).symm
  refine bind_congr fun k => .trans ?_ (mapM_bind _ _ 7).symm
  refine bind_congr fun ks => .trans ?_ (mapM_bind _ _ 7).symm
  refine bind_congr fun v => .trans ?_ (mapM_bind _ _ 7).symm
  rfl

theorem save_eq : save output_dir key tensor num_q_heads head_dim =
    (save_steps output_dir key tensor num_q_heads head_dim).mapM id := by
  unfold save_steps
  split
  · next split_dim hdivision =>
    rw [save, hdivision, List.mapM_map]
    exact storeQKVKernelOrBias_eq output_dir key tensor num_q_heads head_dim split_dim
  · rw [mapM_each]

theorem saveTranslated_eq (translator : Translator) :
    saveTranslated output_dir translator num_q_heads head_dim key tensor =
      (translated_steps output_dir translator num_q_heads head_dim key tensor).mapM id := by
  unfold saveTranslated translated_steps
  cases translator.translate key with
  | error e => rfl
  | ok translated =>
    cases translated with
    | none => rfl
    | some new_key => exact save_eq output_dir new_key tensor num_q_heads head_dim

end

/-- A conversion leaves the files of all its steps. -/
theorem convert_weights_eq (host : Host α) (output : String)
    (bin_files : List (Option (TensorDict α))) (dtype : Dtype) (model : String) :
    convert_weights host output bin_files dtype model =
      (convert_steps host output bin_files dtype model).mapM id := by
  unfold convert_weights convert_steps
  cases prepare host bin_files dtype model with
  | error e => rfl
  | ok prepared =>
    obtain ⟨tensor_dict, name_translator, num_q_heads, head_dim⟩ := prepared
    change (divideWeightAndSave output tensor_dict name_translator num_q_heads head_dim).mapError
      DownloadError.conversion = _
    dsimp only
    rw [← List.map_flatMap, mapM_mapError, mapM_flatMap]
    congr 1
    unfold divideWeightAndSave
    simp only [saveTranslated_eq]
    rfl

/-! ## The paths of the files -/

/-- The file of a key. -/
def IsFileOf (output_dir key filename : String) : Prop :=
  filename = whole_filename output_dir key ∨ ∃ i, filename = shard_filename output_dir key i

theorem storeQKVShard_filename {output_dir key : String} {qkvs : Tensor α}
    {split_dim head_dim num_q_heads i : Nat} {file : SavedFile α}
    (h : storeQKVShard output_dir key qkvs split_dim head_dim num_q_heads i = .ok file) :
    file.filename = shard_filename output_dir key i := by
  unfold storeQKVShard at h
  simp only [bind_eq_ok] at h
  obtain ⟨_, -, _, -, _, -, _, -, _, -, _, -, _, -, _, -, _, -, _, -, _, -, _, -, h⟩ := h
  exact congrArg SavedFile.filename (Except.ok.inj h).symm

theorem divideTensorAndStore_filename {output_dir key : String} {value : Tensor α} {dim : Nat}
    {files : List (SavedFile α)} (h : divideTensorAndStore output_dir key value dim = .ok files)
    {file : SavedFile α} (hfile : file ∈ files) :
    ∃ i, file.filename = shard_filename output_dir key i := by
  unfold divideTensorAndStore at h
  obtain ⟨n, -, h⟩ := bind_eq_ok.mp h
  split at h
  · cases h
  · obtain ⟨pieces, -, h⟩ := bind_eq_ok.mp h
    rw [← Except.ok.inj h] at hfile
    obtain ⟨x, -, rfl⟩ := List.mem_map.mp hfile
    exact ⟨x.2, rfl⟩

theorem each_mem {ε β : Type} {x : Except ε (List β)} {b : β} (h : .ok b ∈ each x) :
    ∃ bs, x = .ok bs ∧ b ∈ bs := by
  cases x with
  | error e => cases List.mem_singleton.mp h
  | ok bs =>
    obtain ⟨b', hb', heq⟩ := List.mem_map.mp h
    exact ⟨bs, rfl, Except.ok.inj heq ▸ hb'⟩

theorem save_steps_filename {output_dir key : String} {tensor : Tensor α}
    {num_q_heads head_dim : Nat} {file : SavedFile α}
    (h : .ok file ∈ save_steps output_dir key tensor num_q_heads head_dim) :
    IsFileOf output_dir key file.filename := by
  unfold save_steps at h
  split at h
  · obtain ⟨i, -, hfile⟩ := List.mem_map.mp h
    exact .inr ⟨i, storeQKVShard_filename hfile⟩
  · next hother =>
    obtain ⟨files, hfiles, hfile⟩ := each_mem h
    unfold save at hfiles
    cases hdivision : division_of key with
    | none =>
      rw [hdivision] at hfiles
      cases hfiles
    | some division =>
      rw [hdivision] at hfiles
      cases division with
      | qkv split_dim => exact absurd hdivision (hother split_dim)
      | divided dim => exact .inr (divideTensorAndStore_filename hfiles hfile)
      | replicated =>
        rw [← Except.ok.inj hfiles] at hfile
        rw [List.mem_singleton.mp hfile]
        exact .inl rfl

theorem isFileOf_isWeight {key : String} (hkey : '/' ∉ key.toList)
    (h : IsFileOf (storage_folder host model) key path) : IsWeight host model path := by
  have hwhole : s!"{key}.pt" = key ++ ".pt" :=
    String.toList_injective (by rw [toList_whole, String.toList_append])
  have hshard : ∀ i : Nat, s!"{key}.tp_{i}.pt" =
      (key ++ String.ofList (shard_mark i)) ++ ".pt" := by
    intro i
    apply String.toList_injective
    rw [toList_shard]
    simp only [String.toList_append, String.toList_ofList]
  rcases h with rfl | ⟨i, rfl⟩
  · rw [whole_filename, hwhole]
    exact isWeight_join hkey
  · rw [shard_filename, hshard]
    refine isWeight_join ?_
    rw [String.toList_append, String.toList_ofList, shard_mark, List.mem_append, List.mem_append,
      not_or, not_or]
    refine ⟨hkey, by decide, fun hdigit => ?_⟩
    exact absurd (Nat.isDigit_of_mem_toDigits (by omega) (le_refl 10) hdigit) (by decide)

/-! ## Keys without a slash -/

/-- No key has a `/` in it. -/
def Flat (d : TensorDict α) : Prop := ∀ key ∈ d, '/' ∉ key.toList

variable {d : TensorDict α} {key : String} {tensor : Tensor α}

theorem flat_set (hd : Flat d) (key : String) (hkey : '/' ∉ key.toList) (tensor : Tensor α) :
    Flat (d.set key tensor) := by
  intro k hk
  rw [Dict.mem_iff_isSome, Dict.get?_set] at hk
  split at hk
  · next h => exact h ▸ hkey
  · exact hd k (Dict.mem_iff_isSome.mpr hk)

theorem flat_foldl_set {items : List (String × Tensor α)} (p : String → Bool)
    (f : Tensor α → Tensor α) (hd : Flat d) (h : ∀ x ∈ items, '/' ∉ x.1.toList) :
    Flat (items.foldl (fun d x => if p x.1 then d.set x.1 (f x.2) else d) d) := by
  induction items generalizing d with
  | nil => exact hd
  | cons x items ih =>
    refine ih ?_ fun y hy => h y (List.mem_cons_of_mem x hy)
    dsimp only
    split
    · exact flat_set hd x.1 (h x List.mem_cons_self) _
    · exact hd

theorem Flat.item (hd : Flat d) : ∀ x ∈ d.items, '/' ∉ x.1.toList :=
  fun _ hx => hd _ (Dict.mem_def.mpr (List.mem_map_of_mem hx))

theorem flat_pop (hd : Flat d) (key : String) : Flat (d.pop key) := by
  intro k hk
  rw [Dict.mem_iff_isSome, Dict.get?_pop] at hk
  split at hk
  · cases hk
  · exact hd k (Dict.mem_iff_isSome.mpr hk)

/-- A call that gives a state dict whose keys have no `/`. -/
abbrev GivesFlat (x : Except ConvertError (TensorDict α)) : Prop := Gives x Flat fun _ => True

theorem del_flat (hd : Flat d) (key : String) : GivesFlat (del d key) := by
  unfold del
  split
  · exact flat_pop hd key
  · exact trivial

theorem get_flat (hd : Flat d) (key : String) :
    Gives (converter.get d key) (fun _ => '/' ∉ key.toList) fun _ => True := by
  unfold converter.get
  cases hget : d.get? key with
  | none => exact trivial
  | some tensor => exact hd key (Dict.mem_iff_isSome.mpr (by rw [hget]; rfl))

theorem merge_flat (hd : Flat d) {merged : String} (hmerged : '/' ∉ merged.toList)
    (q k v : String) (dim : Nat) (f : Tensor α → Tensor α) :
    GivesFlat (merge d merged q k v dim f) := by
  unfold merge
  refine gives_bind (gives_any _) fun _ _ => gives_bind (gives_any _) fun _ _ => ?_
  refine gives_bind (gives_any _) fun _ _ => gives_bind (gives_any _) fun tensor _ => ?_
  refine gives_bind (del_flat (flat_set hd merged hmerged tensor) q) fun d hd => ?_
  exact gives_bind (del_flat hd k) fun d hd => del_flat hd v

theorem transpose_flat (hd : Flat d) (key : String) : GivesFlat (transpose d key) := by
  unfold transpose
  exact gives_bind (get_flat hd key) fun tensor hkey => flat_set hd key hkey tensor.T

/-- The text of a name has no `/`. -/
def FlatTemplate : Template → Prop
  | .whole name => '/' ∉ name
  | .around before after => '/' ∉ before ++ after

instance : DecidablePred FlatTemplate
  | .whole name => inferInstanceAs (Decidable ('/' ∉ name))
  | .around before after => inferInstanceAs (Decidable ('/' ∉ before ++ after))

theorem name_flat {template : Template} (h : FlatTemplate template) (i : Nat) :
    '/' ∉ (template.name i).toList := by
  have hdigits : '/' ∉ Nat.toDigits 10 i := fun hdigit =>
    absurd (Nat.isDigit_of_mem_toDigits (by omega) (le_refl 10) hdigit) (by decide)
  cases template with
  | whole name => rwa [Template.name, String.toList_ofList]
  | around before after =>
    simp only [FlatTemplate, Template.name, String.toList_ofList, List.mem_append, not_or] at h ⊢
    exact ⟨⟨h.1, hdigits⟩, h.2⟩

/-- What a preprocessor gives. -/
abbrev GivesPreprocessed (x : Except ConvertError (TensorDict α × Nat × Nat)) : Prop :=
  Gives x (fun prepared => Flat prepared.1) fun _ => True

theorem preprocessed_flat (hd : Flat d) (num_q_heads head_dim : Nat) :
    GivesPreprocessed (preprocessed d num_q_heads head_dim) := by
  unfold preprocessed
  split
  · exact hd
  · exact trivial

theorem preprocess_opt_flat (hd : Flat d) : GivesPreprocessed (preprocess_opt d) := by
  unfold preprocess_opt
  refine gives_bind (gives_any _) fun num_layers _ => gives_bind (gives_any _) fun _ _ => ?_
  refine gives_bind (gives_any _) fun _ _ => gives_bind (gives_any _) fun _ _ => ?_
  refine gives_bind (gives_any _) fun _ _ => gives_bind (get_flat hd _) fun _ hpositions => ?_
  refine gives_bind (gives_any _) fun positions _ => ?_
  have hd := flat_set hd _ hpositions positions
  refine gives_bind (gives_any _) fun embed_tokens _ => ?_
  have hd := flat_set hd "decoder.output_projection.weight" (by decide) embed_tokens
  refine gives_bind (gives_foldlM _ hd fun d hd i _ => ?_) fun d hd => preprocessed_flat hd _ _
  unfold preprocess_opt_layer
  refine gives_bind (transpose_flat hd _) fun d hd => ?_
  refine gives_bind (merge_flat hd (name_flat (by decide) i) _ _ _ _ _) fun d hd => ?_
  exact merge_flat hd (name_flat (by decide) i) _ _ _ _ _

theorem preprocess_llama2_flat (hd : Flat d) : GivesPreprocessed (preprocess_llama2 d) := by
  unfold preprocess_llama2
  refine gives_bind (gives_any _) fun num_layers _ => gives_bind (gives_any _) fun _ _ => ?_
  refine gives_bind (gives_any _) fun _ _ => ?_
  refine gives_bind (gives_foldlM _ hd fun d hd i _ => ?_) fun d hd => ?_
  · exact merge_flat hd (name_flat (by decide) i) _ _ _ _ _
  · refine gives_bind (gives_foldlM _ hd fun d hd i _ => transpose_flat hd _) fun d hd => ?_
    exact preprocessed_flat hd _ _

theorem preprocess_gpt2_flat (hd : Flat d) : GivesPreprocessed (preprocess_gpt2 d) := by
  unfold preprocess_gpt2
  refine gives_bind (gives_any _) fun _ _ => gives_bind (gives_any _) fun _ _ => ?_
  refine gives_bind (gives_any _) fun _ _ => gives_bind (gives_any _) fun _ _ => ?_
  refine gives_bind (gives_any _) fun _ _ => gives_bind (gives_any _) fun wte _ => ?_
  have hd := flat_set hd "decoder.output_projection.weight" (by decide) wte
  have htransposed :=
    flat_foldl_set (fun key => (matchAt gpt2_mlp_weight key.toList).isSome) Tensor.T hd hd.item
  exact preprocessed_flat htransposed _ _

/-- The weights that `torch.load` can read have no key with a `/` in it. -/
def AllFlat (bin_files : List (Option (TensorDict α))) : Prop :=
  ∀ file ∈ bin_files, ∀ loaded ∈ file, Flat loaded

theorem load_flat {bin_files : List (Option (TensorDict α))} (h : AllFlat bin_files) :
    Gives (load bin_files) Flat fun _ => True := by
  refine gives_foldlM _ (fun key hkey => absurd hkey (Dict.not_mem_empty key)) ?_
  intro d hd file hfile
  cases file with
  | none => exact trivial
  | some loaded =>
    exact flat_foldl_set (fun _ => true) id hd (h _ hfile loaded rfl).item

theorem select_meets {β : Type} {table : List (String × β)} {q : β → Prop}
    (h : ∀ row ∈ table, q row.2) (model : String) :
    Gives (select table model) q fun _ => True := by
  unfold select
  cases hentry : table.lookup model with
  | none => exact trivial
  | some entry =>
    obtain ⟨before, after, rfl, -⟩ := List.lookup_eq_some_iff.mp hentry
    exact h _ (List.mem_append_right before List.mem_cons_self)

/-- A preprocessor that makes no key with a `/`. -/
def FlatPreprocessor
    (preprocessor : TensorDict α → Except ConvertError (TensorDict α × Nat × Nat)) : Prop :=
  ∀ d, Flat d → GivesPreprocessed (preprocessor d)

theorem preprocessors_flat :
    ∀ row ∈ (PREPROCESSOR : List (String × (TensorDict α → _))), FlatPreprocessor row.2 := by
  intro row hrow d hd
  simp only [PREPROCESSOR, List.mem_cons, List.not_mem_nil, or_false] at hrow
  rcases hrow with rfl | rfl | rfl
  · exact preprocess_opt_flat hd
  · exact preprocess_llama2_flat hd
  · exact preprocess_gpt2_flat hd

def FlatTranslator (translator : Translator) : Prop :=
  ∀ entry ∈ translator.name_mapping_table, FlatTemplate entry.2

theorem translators_flat : ∀ row ∈ NAME_TRANSLATOR, FlatTranslator row.2 := by
  unfold FlatTranslator
  intro row hrow
  simp only [NAME_TRANSLATOR, List.mem_cons, List.not_mem_nil, or_false] at hrow
  rcases hrow with rfl | rfl | rfl
  · simp only [optNameTranslator, Template.plain, Template.toList_literal]
    decide +kernel
  · simp only [llama2NameTranslator, decoder_layer, Template.plain, Template.numbered,
      Template.toList_literal]
    decide +kernel
  · simp only [gpt2NameTranslator, decoder_layer, Template.plain, Template.numbered,
      Template.toList_literal]
    decide +kernel

theorem format_flat {newname : Template} (h : FlatTemplate newname) {groups : List (List Char)}
    (hgroups : ∀ g ∈ groups, '/' ∉ g) :
    Gives (format newname groups) (fun name => '/' ∉ name.toList) fun _ => True := by
  unfold format
  cases newname with
  | whole name =>
    change '/' ∉ (String.ofList name).toList
    rwa [String.toList_ofList]
  | around before after =>
    dsimp only
    cases hlayer : groups.head? with
    | none => exact trivial
    | some layer =>
      simp only [FlatTemplate, List.mem_append, not_or] at h
      change '/' ∉ (String.ofList (before ++ layer ++ after)).toList
      simp only [String.toList_ofList, List.mem_append, not_or]
      exact ⟨⟨h.1, hgroups layer (List.mem_of_mem_head? hlayer)⟩, h.2⟩

theorem translate_flat {translator : Translator} (htable : FlatTranslator translator)
    (hkey : '/' ∉ key.toList) {new_key : String}
    (h : translator.translate key = .ok (some new_key)) : '/' ∉ new_key.toList := by
  unfold Translator.translate at h
  split at h
  · cases h
  · dsimp only at h
    generalize hname : (if translator.cuts_model then cut_model key.toList else key.toList) = name
      at h
    have hname : '/' ∉ name := by
      rw [← hname, cut_model]
      split
      · split
        · exact fun hmem => hkey (List.mem_of_mem_drop hmem)
        · exact hkey
      · exact hkey
    cases hfound : translator.name_mapping_table.findSome? fun row =>
        (matchAt row.1 name).map fun groups => (format row.2 groups).map some with
    | none =>
      rw [hfound, Option.getD_none] at h
      split at h
      · obtain rfl := Option.some.inj (Except.ok.inj h)
        rwa [String.toList_ofList]
      · cases h
    | some result =>
      rw [hfound, Option.getD_some] at h
      obtain ⟨row, hrow, hmatch⟩ := List.exists_of_findSome?_eq_some hfound
      obtain ⟨groups, hgroups, rfl⟩ := Option.map_eq_some_iff.mp hmatch
      have hformat := format_flat (htable row hrow) fun g hg hmem =>
        hname (matchAt_subset hgroups hg hmem)
      cases hnew : format row.2 groups with
      | error e =>
        rw [hnew] at h
        cases h
      | ok new =>
        rw [hnew] at h hformat
        obtain rfl := Option.some.inj (Except.ok.inj h)
        exact hformat

theorem prepare_flat (host : Host α) {bin_files : List (Option (TensorDict α))}
    (h : AllFlat bin_files) (dtype : Dtype) (model : String) :
    Gives (prepare host bin_files dtype model)
      (fun prepared => Flat prepared.1 ∧ FlatTranslator prepared.2.1) fun _ => True := by
  unfold prepare
  split
  · exact trivial
  · refine gives_bind (load_flat h) fun state_dict hd => ?_
    have hd : Flat (change_dtype host dtype state_dict) :=
      flat_foldl_set (fun _ => true) (host.cast dtype) hd hd.item
    refine gives_bind (gives_mapError (select_meets preprocessors_flat model)) ?_
    intro preprocessor hpreprocessor
    refine gives_bind (gives_mapError (hpreprocessor _ hd)) fun prepared hprepared => ?_
    refine gives_bind (gives_mapError (select_meets translators_flat model)) ?_
    exact fun translator htranslator => ⟨hprepared, htranslator⟩

/-- A conversion whose weights have no `/` in their keys writes weights of its folder only. -/
theorem convert_steps_isWeight {bin_files : List (Option (TensorDict α))} (h : AllFlat bin_files)
    {dtype : Dtype} {model_type : String} {file : SavedFile α}
    (hfile : .ok file ∈ convert_steps host (storage_folder host model) bin_files dtype model_type) :
    IsWeight host model file.filename := by
  have hprepare := prepare_flat host h dtype model_type
  unfold convert_steps at hfile
  cases hprepared : prepare host bin_files dtype model_type with
  | error e =>
    rw [hprepared] at hfile
    cases List.mem_singleton.mp hfile
  | ok prepared =>
    rw [hprepared] at hfile hprepare
    obtain ⟨x, hx, hmem⟩ := List.mem_flatMap.mp hfile
    obtain ⟨step, hstep, heq⟩ := List.mem_map.mp hmem
    cases step with
    | error e => cases heq
    | ok saved =>
      obtain rfl : saved = file := Except.ok.inj heq
      unfold translated_steps at hstep
      cases htranslate : prepared.2.1.translate x.1 with
      | error e =>
        rw [htranslate] at hstep
        cases List.mem_singleton.mp hstep
      | ok translated =>
        rw [htranslate] at hstep
        cases translated with
        | none => cases hstep
        | some new_key =>
          exact isFileOf_isWeight
            (translate_flat hprepare.2 (hprepare.1.item x hx) htranslate)
            (save_steps_filename hstep)

end distserve.downloader
