-- Every weight of a checkpoint is saved under a name of its own and with its intended division.
import RecomputeOrMigrate.Preprocessors
import RecomputeOrMigrate.Resharding

open calls dicts regex tensors

namespace distserve.converter

/-! ## File names -/

/-- What stands between the key and `.pt`. -/
def shard_mark (i : Nat) : List Char := ".tp_".toList ++ Nat.toDigits 10 i

/-- The key of a weight: it is no path from the root, and no number is at its end. -/
structure IsKey (key : List Char) : Prop where
  first_eq : key.head? = some 'd'
  last_ne : key.getLast?.any Char.isDigit = false

theorem IsKey.ne_shard {key key' : List Char} (hkey : IsKey key) {i : Nat} (hi : i < 8) :
    key ≠ key' ++ shard_mark i := by
  rintro rfl
  have hlast : ∀ i < 8, (shard_mark i).getLast?.any Char.isDigit = true ∧ shard_mark i ≠ [] := by
    decide
  obtain ⟨hdigit, hne⟩ := hlast i hi
  have hkey := hkey.last_ne
  rw [List.getLast?_append_of_ne_nil _ hne, hdigit] at hkey
  cases hkey

theorem shard_mark_inj {key key' : List Char} {i j : Nat} (hi : i < 8) (hj : j < 8)
    (h : key ++ shard_mark i = key' ++ shard_mark j) : key = key' ∧ i = j := by
  have hlen : ∀ i < 8, (shard_mark i).length = 5 := by decide
  have hinj : ∀ i < 8, ∀ j < 8, shard_mark i = shard_mark j → i = j := by decide
  obtain ⟨hkey, hmark⟩ := List.append_inj' h ((hlen i hi).trans (hlen j hj).symm)
  exact ⟨hkey, hinj i hi j hj hmark⟩

theorem join_inj {dir a b : String} (ha : a.toList.head? ≠ some '/')
    (hb : b.toList.head? ≠ some '/') (h : join dir a = join dir b) : a = b := by
  have hrelative : ∀ {name : String}, name.toList.head? ≠ some '/' →
      name.startsWith "/" = false := by
    intro name hname
    rw [String.startsWith_string_eq_false_iff]
    rintro ⟨rest, hrest⟩
    exact hname (by rw [← hrest]; rfl)
  unfold join at h
  rw [hrelative ha, hrelative hb] at h
  simp only [Bool.false_eq_true, if_false] at h
  split_ifs at h
  · exact String.append_right_inj _ |>.mp h
  · exact String.append_right_inj _ |>.mp h

/-- The file of a weight that is not divided. -/
def whole_filename (output_dir key : String) : String := join output_dir s!"{key}.pt"

/-- The files that a division writes. -/
def Division.filenames (output_dir key : String) : Division → List String
  | .replicated => [whole_filename output_dir key]
  | _ => (List.range 8).map (shard_filename output_dir key)

section

variable {output_dir key key' filename : String} {i j : Nat}

theorem toList_shard (key : String) (i : Nat) :
    (s!"{key}.tp_{i}.pt").toList = key.toList ++ shard_mark i ++ ".pt".toList := by
  simp [shard_mark, toString, Nat.repr]

theorem toList_whole (key : String) : (s!"{key}.pt").toList = key.toList ++ ".pt".toList := by
  simp [toString]

theorem IsKey.head_ne {rest : List Char} (hkey : IsKey key.toList) :
    (key.toList ++ rest).head? ≠ some '/' := by
  rw [List.head?_append, hkey.first_eq, Option.some_or]
  decide

theorem shard_filename_inj (hkey : IsKey key.toList) (hkey' : IsKey key'.toList) (hi : i < 8)
    (hj : j < 8) (h : shard_filename output_dir key i = shard_filename output_dir key' j) :
    key = key' ∧ i = j := by
  have hname := congrArg String.toList (join_inj
    (by rw [toList_shard, List.append_assoc]; exact hkey.head_ne)
    (by rw [toList_shard, List.append_assoc]; exact hkey'.head_ne) h)
  rw [toList_shard, toList_shard] at hname
  obtain ⟨hlist, hindex⟩ := shard_mark_inj hi hj (List.append_cancel_right hname)
  exact ⟨String.toList_injective hlist, hindex⟩

theorem whole_filename_inj (hkey : IsKey key.toList) (hkey' : IsKey key'.toList)
    (h : whole_filename output_dir key = whole_filename output_dir key') : key = key' := by
  have hname := congrArg String.toList (join_inj (by rw [toList_whole]; exact hkey.head_ne)
    (by rw [toList_whole]; exact hkey'.head_ne) h)
  rw [toList_whole, toList_whole] at hname
  exact String.toList_injective (List.append_cancel_right hname)

theorem whole_filename_ne (hkey : IsKey key.toList) (hkey' : IsKey key'.toList) (hi : i < 8) :
    whole_filename output_dir key ≠ shard_filename output_dir key' i := by
  intro h
  have hname := congrArg String.toList (join_inj (by rw [toList_whole]; exact hkey.head_ne)
    (by rw [toList_shard, List.append_assoc]; exact hkey'.head_ne) h)
  rw [toList_whole, toList_shard] at hname
  exact hkey.ne_shard hi (List.append_cancel_right hname)

theorem mem_filenames {division : Division} (h : filename ∈ division.filenames output_dir key) :
    filename = whole_filename output_dir key ∨
      ∃ i < 8, filename = shard_filename output_dir key i := by
  have hshard : filename ∈ (List.range 8).map (shard_filename output_dir key) →
      ∃ i < 8, filename = shard_filename output_dir key i := by
    intro h
    obtain ⟨i, hi, heq⟩ := List.mem_map.mp h
    exact ⟨i, List.mem_range.mp hi, heq.symm⟩
  cases division with
  | qkv split_dim => exact .inr (hshard h)
  | divided dim => exact .inr (hshard h)
  | replicated => exact .inl (List.mem_singleton.mp h)

/-- No two keys share a file. -/
theorem filenames_inj {division division' : Division} (hkey : IsKey key.toList)
    (hkey' : IsKey key'.toList) (h : filename ∈ division.filenames output_dir key)
    (h' : filename ∈ division'.filenames output_dir key') : key = key' := by
  rcases mem_filenames h with rfl | ⟨i, hi, rfl⟩ <;> rcases mem_filenames h' with h' | ⟨j, hj, h'⟩
  · exact whole_filename_inj hkey hkey' h'
  · exact absurd h' (whole_filename_ne hkey hkey' hj)
  · exact absurd h'.symm (whole_filename_ne hkey' hkey hi)
  · exact (shard_filename_inj hkey hkey' hi hj h').1

theorem filenames_nodup (division : Division) (hkey : IsKey key.toList) :
    (division.filenames output_dir key).Nodup := by
  have hshards : ((List.range 8).map (shard_filename output_dir key)).Nodup :=
    List.nodup_range.map_on fun i hi j hj h =>
      (shard_filename_inj hkey hkey (List.mem_range.mp hi) (List.mem_range.mp hj) h).2
  cases division with
  | qkv split_dim => exact hshards
  | divided dim => exact hshards
  | replicated => exact List.nodup_singleton _

end

/-! ## The weights and their targets -/

/-- The sizes that the eight shards divide, besides those of all heads. -/
def Checkpoint.divisible : Checkpoint → List Dim
  | .llama _ => [.q, .ffn]
  | _ => [.hidden, .ffn]

/-- A weight of this shape can be divided so. -/
def Division.fits (divisible : List Dim) (shape : Shape) : Division → Bool
  | .qkv 1 => shape = [.hidden, .qkv]
  | .qkv 0 => shape = [.qkv]
  | .qkv _ => false
  | .divided dim => shape[dim]?.any (divisible.contains ·)
  | .replicated => true

/-- All names with these letters are keys. -/
def key_letters (name : List Letter) : Bool :=
  name.head? == some (.char 'd') && name.getLast?.any fun l =>
    match l with
    | .char c => !c.isDigit
    | .number => false

/-- Each weight that is left is translated to its target, which has the intended division, and the
ignored ones are ignored. -/
def Checkpoint.translates (c : Checkpoint) : Bool :=
  c.preprocessed.length == c.targets.length &&
    ((c.preprocessed.zip c.targets).all fun x =>
      in_layers x.1.1 == in_layers x.2.1 && key_letters x.2.1.letters &&
        c.translator.known x.1.1.letters == some (some x.2.1.letters) &&
        divisionKnown x.2.1.letters == some (some x.2.2) && x.2.2.fits c.divisible x.1.2.1) &&
    c.ignored.all fun w => c.translator.known w.letters == some none

theorem Checkpoint.translates_eq_true (c : Checkpoint) : c.translates = true := by
  rcases c with model | model | -
  · cases model <;>
    · simp only [translates, preprocessed, targets, targets_with_biases, ignored, prefix_of,
        with_bias, opt_layer, decoder_layer, translator, optNameTranslator, divisionKnown, dispatch,
        to_divide_by_dim0_regex, to_divide_by_dim1_regex, to_replicate_regex, weight_or_bias,
        Test.contains, text, layered, Template.plain, Template.numbered, String.toList_append,
        Template.toList_literal, if_true, if_false, Bool.false_eq_true]
      decide +kernel
  · cases model <;>
    · simp only [translates, preprocessed, targets, ignored, prefix_of, llama_layer, decoder_layer,
        translator, llama2NameTranslator, divisionKnown, dispatch, to_divide_by_dim0_regex,
        to_divide_by_dim1_regex, to_replicate_regex, weight_or_bias, Test.contains, text, layered,
        Template.plain, Template.numbered, String.toList_append, Template.toList_literal, if_true,
        if_false, Bool.false_eq_true]
      decide +kernel
  · simp only [translates, preprocessed, targets, targets_with_biases, ignored, with_bias,
      decoder_layer, translator, gpt2NameTranslator, divisionKnown, dispatch,
      to_divide_by_dim0_regex, to_divide_by_dim1_regex, to_replicate_regex, weight_or_bias,
      Test.contains, text, layered, Template.plain, Template.numbered, String.toList_append,
      Template.toList_literal]
    decide +kernel

theorem Checkpoint.targets_distinct (c : Checkpoint) : Distinct (c.targets.map Prod.fst) := by
  unfold Distinct
  have hbiases : (targets_with_biases.map Prod.fst).Pairwise fun w w' =>
      Template.apart w.letters w'.letters = true := by
    simp only [targets_with_biases, decoder_layer, Template.plain, Template.numbered,
      Template.toList_literal]
    decide +kernel
  rcases c with - | - | -
  · exact hbiases
  · simp only [targets, decoder_layer, Template.plain, Template.numbered, Template.toList_literal]
    decide +kernel
  · exact hbiases

/-! ## The files of one weight -/

variable {α : Type} {c : Checkpoint} {s : Sizes} {n : Nat} {d d' : TensorDict α}
  {output_dir key : String} {division : Division} {shape : Shape} {t : Tensor α}

/-- The saver writes the files of a division. -/
def Saves (output_dir key : String) (t : Tensor α) (s : Sizes) (division : Division)
    (files : List (SavedFile α)) : Prop :=
  save output_dir key t s.num_q_heads s.head_dim = .ok files ∧ (∀ file ∈ files, file.key = key) ∧
    files.map (·.filename) = division.filenames output_dir key

theorem reshards_saves {split_dim : Nat} (hdiv : division_of key = some (.qkv split_dim))
    (h : Reshards output_dir key t split_dim s.head_dim s.num_q_heads s.num_kv_heads) :
    ∃ files, Saves output_dir key t s (.qkv split_dim) files := by
  obtain ⟨shards, hshards, -⟩ := h
  have hsave : save output_dir key t s.num_q_heads s.head_dim =
      storeQKVKernelOrBias output_dir key t split_dim s.head_dim s.num_q_heads := by
    rw [save, hdiv]
  refine ⟨_, hsave.trans hshards, ?_, ?_⟩
  · intro file hfile
    obtain ⟨i, -, rfl⟩ := List.mem_map.mp hfile
    rfl
  · rw [List.map_map]
    rfl

theorem divides_saves {dim : Nat} (hdiv : division_of key = some (.divided dim))
    (h : Divides output_dir key t dim) (hpos : 0 < t.size dim) :
    ∃ files, Saves output_dir key t s (.divided dim) files := by
  obtain ⟨pieces, hpieces, -, hlen⟩ := h
  have hsave : save output_dir key t s.num_q_heads s.head_dim =
      divideTensorAndStore output_dir key t dim := by
    rw [save, hdiv]
  refine ⟨_, hsave.trans hpieces, ?_, ?_⟩
  · intro file hfile
    obtain ⟨x, -, rfl⟩ := List.mem_map.mp hfile
    rfl
  · have hindices : pieces.zipIdx.map Prod.snd = List.range 8 := by
      rw [List.zipIdx_map_snd, hlen hpos, ← List.range_eq_range']
    have hfilenames : (Division.divided dim).filenames output_dir key =
        (List.range 8).map (shard_filename output_dir key) := rfl
    rw [hfilenames, ← hindices, List.map_map, List.map_map]
    rfl

theorem Checkpoint.HasSizes.head_dim_divided (hs : c.HasSizes s) :
    0 < s.head_dim ∧ s.head_dim % 8 = 0 := by
  have hcomputed : ∀ n, 0 < head_dim_of n ∧ head_dim_of n % 8 = 0 := by
    intro n
    unfold head_dim_of
    split_ifs <;> decide
  cases c with
  | opt model =>
    rw [hs.heads.1]
    exact hcomputed s.ffn
  | llama model =>
    have hdim : s.head_dim = 128 := hs.heads
    rw [hdim]
    decide
  | gpt2 =>
    rw [hs.heads.1]
    exact hcomputed s.ffn

theorem Checkpoint.HasSizes.divisible (hs : c.HasSizes s) {x : Dim} (hx : x ∈ c.divisible) :
    0 < s.of x ∧ s.of x % 8 = 0 := by
  obtain ⟨hhead, hmod⟩ := hs.head_dim_divided
  have hffn : 0 < s.of .ffn ∧ s.of .ffn % 8 = 0 := ⟨hs.ffn_pos, hs.ffn_divided⟩
  have hheads : 0 < s.of .q ∧ s.of .q % 8 = 0 :=
    ⟨Nat.mul_pos hs.num_q_heads_pos hhead, Nat.mod_eq_zero_of_dvd
      (Nat.dvd_mul_left_of_dvd (Nat.dvd_of_mod_eq_zero hmod) s.num_q_heads)⟩
  have hhidden : s.hidden = s.num_q_heads * s.head_dim → 0 < s.of .hidden ∧ s.of .hidden % 8 = 0 :=
    fun h => by rwa [Sizes.of, h]
  cases c with
  | opt model =>
    rcases List.mem_pair.mp hx with rfl | rfl
    · exact hhidden hs.heads.2.2
    · exact hffn
  | llama model =>
    rcases List.mem_pair.mp hx with rfl | rfl
    · exact hheads
    · exact hffn
  | gpt2 =>
    rcases List.mem_pair.mp hx with rfl | rfl
    · exact hhidden hs.heads.2.2
    · exact hffn

theorem fits_saves (output_dir : String) (hs : c.HasSizes s)
    (hdiv : division_of key = some division) (hfits : division.fits c.divisible shape = true)
    (ht : t.shape = shape.map s.of) :
    ∃ files, Saves output_dir key t s division files := by
  have hdim := hs.head_dim_divided.1
  rcases division with (- | - | k) | dim | -
  · obtain rfl : shape = [.qkv] := of_decide_eq_true hfits
    exact reshards_saves hdiv (bias_reshards hdim hs.num_q_heads_pos hs.num_kv_heads_pos ht)
  · obtain rfl : shape = [.hidden, .qkv] := of_decide_eq_true hfits
    exact reshards_saves hdiv
      (weight_reshards hs.hidden_pos hdim hs.num_q_heads_pos hs.num_kv_heads_pos ht)
  · cases hfits
  · rw [Division.fits, Option.any_eq_true] at hfits
    obtain ⟨x, hx, hmem⟩ := hfits
    obtain ⟨hpos, hmod⟩ := hs.divisible (List.contains_iff_mem.mp hmem)
    have hsize : t.shape[dim]? = some (s.of x) := by
      rw [ht, List.getElem?_map, hx]
      rfl
    have hsize' : t.size dim = s.of x := by
      rw [Tensor.size, List.getD_eq_getElem?_getD, hsize, Option.getD_some]
    obtain ⟨hlt, -⟩ := List.getElem?_eq_some_iff.mp hsize
    exact divides_saves hdiv (division_divides hlt (hsize' ▸ hmod)) (hsize' ▸ hpos)
  · have hsave : save output_dir key t s.num_q_heads s.head_dim =
        .ok [saveTensorToFile (whole_filename output_dir key) key t] := by
      rw [save, hdiv]
      rfl
    exact ⟨_, hsave, List.forall_mem_singleton.mpr rfl, rfl⟩

/-! ## The keys of a preprocessed state dict -/

/-- The weights that are left, each with its target. -/
def Checkpoint.pairs (c : Checkpoint) : List ((Template × Entry) × (Template × Division)) :=
  c.preprocessed.zip c.targets

structure Pair (c : Checkpoint) (x : (Template × Entry) × (Template × Division)) : Prop where
  in_layers_eq : in_layers x.1.1 = in_layers x.2.1
  key : key_letters x.2.1.letters = true
  known : c.translator.known x.1.1.letters = some (some x.2.1.letters)
  division : divisionKnown x.2.1.letters = some (some x.2.2)
  fits : x.2.2.fits c.divisible x.1.2.1 = true

theorem isKey_name {w : Template} (h : key_letters w.letters = true) (i : Nat) :
    IsKey (w.name i).toList := by
  rw [w.toList_name]
  simp only [key_letters, Bool.and_eq_true, beq_iff_eq, Option.any_eq_true] at h
  obtain ⟨hhead, l, hlast, hdigit⟩ := h
  constructor
  · obtain ⟨rest, hrest⟩ := List.head?_eq_some_iff.mp hhead
    rw [hrest, spell]
    rfl
  · cases l with
    | number => cases hdigit
    | char c =>
      obtain ⟨start, hstart⟩ := List.getLast?_eq_some_iff.mp hlast
      rw [hstart, Template.spell_append, spell, spell, List.getLast?_concat, Option.any_some]
      simpa using hdigit

theorem pairs_spec (c : Checkpoint) : c.preprocessed.length = c.targets.length ∧
    (∀ x ∈ c.pairs, Pair c x) ∧ ∀ w ∈ c.ignored, c.translator.known w.letters = some none := by
  have htranslates := c.translates_eq_true
  simp only [Checkpoint.translates, Bool.and_eq_true, beq_iff_eq, List.all_eq_true] at htranslates
  obtain ⟨⟨hlen, hpairs⟩, hignored⟩ := htranslates
  refine ⟨hlen, fun x hx => ?_, hignored⟩
  obtain ⟨⟨⟨⟨hlayers, hkey⟩, hknown⟩, hdivision⟩, hfits⟩ := hpairs x hx
  exact ⟨hlayers, hkey, hknown, hdivision, hfits⟩

theorem pair_of_weight {w : Template × Entry} (hw : w ∈ c.preprocessed) :
    ∃ target, (w, target) ∈ c.pairs := by
  rw [← List.map_fst_zip (pairs_spec c).1.le] at hw
  obtain ⟨⟨w, target⟩, hx, rfl⟩ := List.mem_map.mp hw
  exact ⟨target, hx⟩

theorem pair_of_target {target : Template × Division} (htarget : target ∈ c.targets) :
    ∃ w, (w, target) ∈ c.pairs := by
  rw [← List.map_snd_zip (pairs_spec c).1.ge] at htarget
  obtain ⟨⟨w, target⟩, hx, rfl⟩ := List.mem_map.mp htarget
  exact ⟨w, hx⟩

section

variable {x x' : (Template × Entry) × (Template × Division)} {i j : Nat}

theorem Pair.translate_name (h : Pair c x) (i : Nat) :
    c.translator.translate (x.1.1.name i) = .ok (some (x.2.1.name i)) := by
  have hknown : c.translator.known x.1.1.letters = some ((some x.2.1).map Template.letters) :=
    h.known
  exact converter.translate_name hknown i

theorem ignored_name {w : Template} (hw : w ∈ c.ignored) (i : Nat) :
    c.translator.translate (w.name i) = .ok none := by
  have hknown : c.translator.known w.letters = some (none.map Template.letters) :=
    (pairs_spec c).2.2 w hw
  exact converter.translate_name hknown i

theorem pairs_inj (hx : x ∈ c.pairs) (hx' : x' ∈ c.pairs) (hi : i ∈ numbers n x.2.1)
    (hj : j ∈ numbers n x'.2.1) (h : x.2.1.name i = x'.2.1.name j) : x = x' ∧ i = j := by
  have hmem : ∀ {x}, x ∈ c.pairs → x.2 ∈ c.targets := fun hx => (List.of_mem_zip hx).2
  obtain ⟨hname, hij⟩ := c.targets_distinct.name_inj (List.mem_map_of_mem (hmem hx))
    (List.mem_map_of_mem (hmem hx')) hi hj h
  have hnodup : (c.pairs.map fun x => x.2.1).Nodup := by
    have hmap : (c.pairs.map fun x => x.2.1) = c.targets.map Prod.fst := by
      rw [← List.map_snd_zip (pairs_spec c).1.ge, List.map_map]
      rfl
    rw [hmap]
    exact c.targets_distinct.nodup
  exact ⟨List.inj_on_of_nodup_map hnodup hx hx' hname, hij⟩

/-- A key of a preprocessed state dict belongs to a pair or is ignored. -/
theorem Remains.key_cases (h : Remains c s n d d') (hget : d'.get? key = some t) :
    (∃ x ∈ c.pairs, ∃ i ∈ numbers n x.2.1, key = x.1.1.name i ∧ x.1.2.Fits d s i t) ∨
    ((∃ w ∈ c.ignored, ∃ i ∈ numbers n w, key = w.name i) ∧
      c.translator.translate key = .ok none) := by
  have hkey : key ∈ d' := Dict.mem_iff_isSome.mpr (hget ▸ rfl)
  rcases h.has_no_others key hkey with ⟨w, hw, i, hi, rfl⟩ | ⟨w, hw, i, hi, rfl⟩
  · obtain ⟨target, hx⟩ := pair_of_weight hw
    obtain ⟨t', ht', hfits⟩ := h.has_weights w hw i hi
    obtain rfl : t' = t := Option.some.inj (ht'.symm.trans hget)
    rw [numbers_congr ((pairs_spec c).2.1 _ hx).in_layers_eq] at hi
    exact .inl ⟨_, hx, i, hi, rfl, hfits⟩
  · exact .inr ⟨⟨w, hw, i, hi, rfl⟩, ignored_name hw i⟩

theorem Remains.of_translate (h : Remains c s n d d') (hkey : key ∈ d') {new_key : String}
    (htranslate : c.translator.translate key = .ok (some new_key)) :
    ∃ x ∈ c.pairs, ∃ i ∈ numbers n x.2.1, key = x.1.1.name i ∧ new_key = x.2.1.name i := by
  obtain ⟨t, hget⟩ := Option.isSome_iff_exists.mp (Dict.mem_iff_isSome.mp hkey)
  rcases h.key_cases hget with ⟨x, hx, i, hi, rfl, -⟩ | ⟨-, hignored⟩
  · refine ⟨x, hx, i, hi, rfl, ?_⟩
    rw [((pairs_spec c).2.1 x hx).translate_name] at htranslate
    cases htranslate
    rfl
  · rw [hignored] at htranslate
    cases htranslate

theorem Remains.of_target (h : Remains c s n d d') {target : Template × Division}
    (htarget : target ∈ c.targets) (hi : i ∈ numbers n target.1) :
    ∃ w t, (w, target) ∈ c.pairs ∧ d'.get? (w.1.name i) = some t := by
  obtain ⟨w, hx⟩ := pair_of_target htarget
  rw [← numbers_congr ((pairs_spec c).2.1 _ hx).in_layers_eq] at hi
  obtain ⟨t, ht, -⟩ := h.has_weights w (List.of_mem_zip hx).1 i hi
  exact ⟨w, t, hx, ht⟩

end

/-! ## A whole conversion -/

/-- The conversion of the state dict `d`, which the preprocessor makes to `d'`, loses no weight and
mixes none up. -/
structure Converted (c : Checkpoint) (output_dir : String) (n : Nat) (d d' : TensorDict α)
    (files : List (SavedFile α)) : Prop where
  /-- Each canonical weight is used for a tensor that is not dropped. -/
  used : ∀ w ∈ c.weights, ∀ i ∈ numbers n w.1, ∃ key t new_key, ∃ o : Origin, d'.get? key = some t ∧
    o.eval d i = some t ∧ w.1 ∈ o.weights ∧ c.translator.translate key = .ok (some new_key)
  dropped_iff : ∀ key ∈ d', c.translator.translate key = .ok none ↔
    ∃ w ∈ c.ignored, ∃ i ∈ numbers n w, key = w.name i
  distinct : ∀ key ∈ d', ∀ key' ∈ d', ∀ new_key, c.translator.translate key = .ok (some new_key) →
    c.translator.translate key' = .ok (some new_key) → key = key'
  produced_iff : ∀ new_key division, (∃ key ∈ d', c.translator.translate key = .ok (some new_key) ∧
      division_of new_key = some division) ↔
    ∃ w ∈ c.targets, ∃ i ∈ numbers n w.1, new_key = w.1.name i ∧ division = w.2
  saved_iff : ∀ key filename, (∃ file ∈ files, file.key = key ∧ file.filename = filename) ↔
    ∃ w ∈ c.targets, ∃ i ∈ numbers n w.1, key = w.1.name i ∧
      filename ∈ w.2.filenames output_dir key
  filenames_nodup : (files.map (·.filename)).Nodup

/-- The files of one key. -/
structure Written (c : Checkpoint) (output_dir : String) (n : Nat) (key : String)
    (x : (Template × Entry) × (Template × Division)) (i : Nat) (files : List (SavedFile α)) :
    Prop where
  mem : x ∈ c.pairs
  number : i ∈ numbers n x.2.1
  key_eq : key = x.1.1.name i
  keys : ∀ file ∈ files, file.key = x.2.1.name i
  filenames : files.map (·.filename) = x.2.2.filenames output_dir (x.2.1.name i)

theorem Written.isKey {files : List (SavedFile α)} {x : (Template × Entry) × (Template × Division)}
    {i : Nat} (h : Written c output_dir n key x i files) : IsKey (x.2.1.name i).toList :=
  isKey_name ((pairs_spec c).2.1 x h.mem).key i

theorem Remains.saves (h : Remains c s n d d') (hs : c.HasSizes s) (output_dir : String)
    {item : String × Tensor α} (hitem : item ∈ d'.items) :
    ∃ files, saveTranslated output_dir c.translator s.num_q_heads s.head_dim item.1 item.2 =
        .ok files ∧
      ((∃ x i, Written c output_dir n item.1 x i files) ∨
        c.translator.translate item.1 = .ok none ∧ files = []) := by
  rcases h.key_cases (Dict.get?_eq_some.mpr hitem) with ⟨x, hx, i, hi, hkey, hfits⟩ | ⟨-, hignored⟩
  · have hpair := (pairs_spec c).2.1 x hx
    have hdivision := division_of_name hpair.division i
    obtain ⟨files, hsave, hkeys, hnames⟩ :=
      fits_saves output_dir hs hdivision hpair.fits hfits.shape_eq
    refine ⟨files, ?_, .inl ⟨x, i, hx, hi, hkey, hkeys, hnames⟩⟩
    rw [saveTranslated, hkey, ok_bind (hpair.translate_name i)]
    exact hsave
  · refine ⟨[], ?_, .inr ⟨hignored, rfl⟩⟩
    rw [saveTranslated, ok_bind hignored]
    rfl

theorem Remains.used (h : Remains c s n d d') {w : Template × Shape} (hw : w ∈ c.weights) {i : Nat}
    (hi : i ∈ numbers n w.1) : ∃ key t new_key, ∃ o : Origin, d'.get? key = some t ∧
      o.eval d i = some t ∧ w.1 ∈ o.weights ∧
      c.translator.translate key = .ok (some new_key) := by
  have hleaves := c.leaves_family_eq_true
  simp only [Checkpoint.leaves_family, Bool.and_eq_true, List.all_eq_true, List.any_eq_true,
    List.contains_iff_mem, beq_iff_eq] at hleaves
  obtain ⟨x, hx, hmem, hlayers⟩ := hleaves.2 _ (List.mem_map_of_mem hw)
  rw [numbers_congr hlayers] at hi
  obtain ⟨t, ht, hfits⟩ := h.has_weights x hx i hi
  obtain ⟨target, hpair⟩ := pair_of_weight hx
  exact ⟨_, t, _, x.2.2, ht, hfits.eval_eq, hmem,
    ((pairs_spec c).2.1 _ hpair).translate_name i⟩

theorem Remains.converted (h : Remains c s n d d') {g : String × Tensor α → List (SavedFile α)}
    (hg : ∀ item ∈ d'.items, (∃ x i, Written c output_dir n item.1 x i (g item)) ∨
      c.translator.translate item.1 = .ok none ∧ g item = []) :
    Converted c output_dir n d d' (d'.items.map g).flatten where
  used w hw i hi := h.used hw hi
  dropped_iff key hkey := by
    constructor
    · intro hdropped
      obtain ⟨t, hget⟩ := Option.isSome_iff_exists.mp (Dict.mem_iff_isSome.mp hkey)
      rcases h.key_cases hget with ⟨x, hx, i, -, rfl, -⟩ | ⟨hignored, -⟩
      · rw [((pairs_spec c).2.1 x hx).translate_name] at hdropped
        cases hdropped
      · exact hignored
    · rintro ⟨w, hw, i, -, rfl⟩
      exact ignored_name hw i
  distinct key hkey key' hkey' new_key hnew hnew' := by
    obtain ⟨x, hx, i, hi, rfl, rfl⟩ := h.of_translate hkey hnew
    obtain ⟨x', hx', j, hj, rfl, heq⟩ := h.of_translate hkey' hnew'
    obtain ⟨rfl, rfl⟩ := pairs_inj hx hx' hi hj heq
    rfl
  produced_iff new_key division := by
    constructor
    · rintro ⟨key, hkey, hnew, hdivision⟩
      obtain ⟨x, hx, i, hi, rfl, rfl⟩ := h.of_translate hkey hnew
      rw [division_of_name ((pairs_spec c).2.1 x hx).division] at hdivision
      exact ⟨x.2, (List.of_mem_zip hx).2, i, hi, rfl, (Option.some.inj hdivision).symm⟩
    · rintro ⟨target, htarget, i, hi, rfl, rfl⟩
      obtain ⟨w, t, hx, hget⟩ := h.of_target htarget hi
      have hpair := (pairs_spec c).2.1 _ hx
      exact ⟨w.1.name i, Dict.mem_iff_isSome.mpr (hget ▸ rfl), hpair.translate_name i,
        division_of_name hpair.division i⟩
  saved_iff key filename := by
    constructor
    · rintro ⟨file, hfile, rfl, rfl⟩
      obtain ⟨files, hfiles, hfile⟩ := List.mem_flatten.mp hfile
      obtain ⟨item, hitem, rfl⟩ := List.mem_map.mp hfiles
      rcases hg item hitem with ⟨x, i, hwritten⟩ | ⟨-, hnil⟩
      · have hkey := hwritten.keys file hfile
        refine ⟨x.2, (List.of_mem_zip hwritten.mem).2, i, hwritten.number, hkey, ?_⟩
        rw [hkey, ← hwritten.filenames]
        exact List.mem_map_of_mem hfile
      · rw [hnil] at hfile
        cases hfile
    · rintro ⟨target, htarget, i, hi, rfl, hname⟩
      obtain ⟨w, t, hx, hget⟩ := h.of_target htarget hi
      have hitem := Dict.get?_eq_some.mp hget
      have htranslate := ((pairs_spec c).2.1 _ hx).translate_name i
      rcases hg _ hitem with ⟨x, j, hwritten⟩ | ⟨hignored, -⟩
      · have hsame : x.2.1.name j = target.1.name i := by
          have hnew := ((pairs_spec c).2.1 x hwritten.mem).translate_name j
          rw [← hwritten.key_eq, htranslate] at hnew
          exact (Option.some.inj (Except.ok.inj hnew)).symm
        obtain ⟨rfl, rfl⟩ := pairs_inj hwritten.mem hx hwritten.number hi hsame
        rw [← hwritten.filenames] at hname
        obtain ⟨file, hfile, rfl⟩ := List.mem_map.mp hname
        exact ⟨file, List.mem_flatten.mpr ⟨_, List.mem_map_of_mem hitem, hfile⟩,
          hwritten.keys file hfile, rfl⟩
      · rw [hignored] at htranslate
        cases htranslate
  filenames_nodup := by
    have hpairwise : d'.items.Pairwise fun a b => a.1 ≠ b.1 := List.pairwise_map.mp d'.nodup
    rw [List.map_flatten, List.map_map, ← List.flatMap_def, List.nodup_flatMap]
    constructor
    · intro item hitem
      rcases hg item hitem with ⟨x, i, hwritten⟩ | ⟨-, hnil⟩
      · rw [Function.comp_apply, hwritten.filenames]
        exact filenames_nodup _ (hwritten.isKey)
      · rw [Function.comp_apply, hnil]
        exact List.nodup_nil
    · refine hpairwise.imp_of_mem fun {a b} ha hb hne filename hfa hfb => hne ?_
      rcases hg a ha with ⟨x, i, hwritten⟩ | ⟨-, hnil⟩
      · rcases hg b hb with ⟨x', j, hwritten'⟩ | ⟨-, hnil⟩
        · rw [Function.comp_apply, hwritten.filenames] at hfa
          rw [Function.comp_apply, hwritten'.filenames] at hfb
          obtain ⟨rfl, rfl⟩ := pairs_inj hwritten.mem hwritten'.mem hwritten.number
            hwritten'.number (filenames_inj hwritten.isKey hwritten'.isKey hfa hfb)
          rw [hwritten.key_eq, hwritten'.key_eq]
        · rw [Function.comp_apply, hnil] at hfb
          cases hfb
      · rw [Function.comp_apply, hnil] at hfa
        cases hfa

/-- For every family, every number of layers and every state dict of it, the conversion raises no
error. -/
theorem every_weight_is_converted (output_dir : String) (hs : c.HasSizes s) (hn : 1 ≤ n)
    (h : StateDict c s n d) :
    ∃ d' files, c.preprocess d = .ok (d', s.num_q_heads, s.head_dim) ∧
      divideWeightAndSave output_dir d' c.translator s.num_q_heads s.head_dim = .ok files ∧
      Converted c output_dir n d d' files := by
  obtain ⟨d', hpreprocess, hremains⟩ := preprocess_ok hs hn h
  choose! g hg using fun (item : String × Tensor α) hitem => hremains.saves hs output_dir hitem
  have hfiles : (d'.items.mapM fun x => saveTranslated output_dir c.translator s.num_q_heads
      s.head_dim x.1 x.2) = .ok (d'.items.map g) := mapM_ok fun item hitem => (hg item hitem).1
  refine ⟨d', (d'.items.map g).flatten, hpreprocess, ?_,
    hremains.converted fun item hitem => (hg item hitem).2⟩
  rw [divideWeightAndSave, ok_bind hfiles]
  rfl

/-! ## Blank checkpoints -/

/-- A tensor of this shape without values. -/
def blank_tensor (shape : List Nat) : Tensor Unit where
  shape := shape
  data := List.replicate shape.prod ()
  length_data := List.length_replicate

def blank_items (c : Checkpoint) (s : Sizes) (n : Nat) : List (String × Tensor Unit) :=
  c.weights.flatMap fun w => (numbers n w.1).map fun i =>
    (w.1.name i, blank_tensor (w.2.map s.of))

theorem numbers_nodup (n : Nat) (w : Template) : (numbers n w).Nodup := by
  cases w with
  | whole name => exact List.nodup_singleton 0
  | around before after => exact List.nodup_range

theorem blank_nodup (c : Checkpoint) (s : Sizes) (n : Nat) :
    ((blank_items c s n).map Prod.fst).Nodup := by
  have hdistinct : Distinct (c.weights.map Prod.fst) := c.names_distinct.sublist
    ((List.sublist_append_left _ _).trans (List.sublist_append_left _ _))
  have hpairwise : c.weights.Pairwise fun w w' => w.1 ≠ w'.1 :=
    List.pairwise_map.mp c.weights_nodup
  rw [blank_items, List.map_flatMap, List.nodup_flatMap]
  constructor
  · intro w hw
    rw [List.map_map]
    exact (numbers_nodup n w.1).map_on fun i hi j hj h =>
      (hdistinct.name_inj (List.mem_map_of_mem hw) (List.mem_map_of_mem hw) hi hj h).2
  · refine hpairwise.imp_of_mem fun {w w'} hw hw' hne key hkey hkey' => hne ?_
    simp only [List.map_map] at hkey hkey'
    obtain ⟨i, hi, rfl⟩ := List.mem_map.mp hkey
    obtain ⟨j, hj, heq⟩ := List.mem_map.mp hkey'
    exact (hdistinct.name_inj (List.mem_map_of_mem hw) (List.mem_map_of_mem hw') hi hj heq.symm).1

/-- A checkpoint without values. -/
def blank (c : Checkpoint) (s : Sizes) (n : Nat) : TensorDict Unit :=
  ⟨blank_items c s n, blank_nodup c s n⟩

theorem blank_state_dict (c : Checkpoint) (s : Sizes) (n : Nat) :
    StateDict c s n (blank c s n) where
  has_weights w hw i hi := by
    refine ⟨blank_tensor (w.2.map s.of), Dict.get?_eq_some.mpr ?_, rfl⟩
    exact List.mem_flatMap.mpr ⟨w, hw, List.mem_map_of_mem hi⟩
  has_no_others key hkey := by
    obtain ⟨x, hx, rfl⟩ := List.mem_map.mp (Dict.mem_def.mp hkey)
    obtain ⟨w, hw, hx⟩ := List.mem_flatMap.mp hx
    obtain ⟨i, hi, rfl⟩ := List.mem_map.mp hx
    exact .inl ⟨w, hw, i, hi, rfl⟩

/-- The sizes of a GPT-2 with one head. -/
def one_head : Sizes where
  vocab := 5
  positions := 7
  hidden := 64
  ffn := 8
  head_dim := 64
  num_q_heads := 1
  num_kv_heads := 1

theorem two_layers_are_converted : ∃ d' files,
    Checkpoint.gpt2.preprocess (blank .gpt2 one_head 2) = .ok (d', 1, 64) ∧
    divideWeightAndSave "weights" d' gpt2NameTranslator 1 64 = .ok files ∧
    Converted .gpt2 "weights" 2 (blank .gpt2 one_head 2) d' files := by
  have hs : Checkpoint.gpt2.HasSizes one_head :=
    ⟨by decide, by decide, by decide, by decide, rfl, rfl, rfl, rfl⟩
  exact every_weight_is_converted "weights" hs (by decide) (blank_state_dict .gpt2 one_head 2)

/-- The sizes of a GPT-2 with two heads of 16, where the converter takes heads of 64. -/
def tiny_gpt2 : Sizes where
  vocab := 5
  positions := 7
  hidden := 32
  ffn := 128
  head_dim := 16
  num_q_heads := 2
  num_kv_heads := 2

/-- The exception of a call. -/
def raised {β : Type} : Except ConvertError β → Option ConvertError
  | .ok _ => none
  | .error e => some e

/-- It has all weights of a GPT-2 and no others. -/
theorem a_tiny_gpt2_is_rejected :
    StateDict .gpt2 tiny_gpt2 1 (blank .gpt2 tiny_gpt2 1) ∧
    ¬ ∃ d' num_q_heads head_dim, Checkpoint.gpt2.preprocess (blank .gpt2 tiny_gpt2 1) =
      .ok (d', num_q_heads, head_dim) := by
  refine ⟨blank_state_dict .gpt2 tiny_gpt2 1, ?_⟩
  have hraised : raised (Checkpoint.gpt2.preprocess (blank .gpt2 tiny_gpt2 1)) =
      some (.assertion "num_q_heads must be greater than 0") := by decide +kernel
  rintro ⟨d', num_q_heads, head_dim, hok⟩
  rw [hok] at hraised
  cases hraised

end distserve.converter
