-- What the preprocessors leave of a state dict.
import RecomputeOrMigrate.WeightStages

open calls dicts regex tensors

namespace distserve.converter

/-! ## The weights after the preprocessor -/

/-- The weights that a preprocessor brings in. -/
def Checkpoint.added : Checkpoint → List Template
  | .opt _ => [.plain "decoder.output_projection.weight",
    opt_layer "" ".self_attn.qkv_proj.weight", opt_layer "" ".self_attn.qkv_proj.bias"]
  | .llama _ => [llama_layer "" ".attention.wqkv.weight"]
  | .gpt2 => [.plain "decoder.output_projection.weight"]

def Checkpoint.family (c : Checkpoint) : List Template := c.weights.map Prod.fst ++ c.added

/-- The weights that are left besides the ignored ones, in the order of their targets, and where
they come from. -/
def Checkpoint.preprocessed : Checkpoint → List (Template × Entry)
  | .opt model =>
    let decoder := prefix_of model ++ "decoder."
    let layers := prefix_of model ++ "decoder.layers."
    let embed_tokens := .plain (decoder ++ "embed_tokens.weight")
    let embed_positions := .plain (decoder ++ "embed_positions.weight")
    [kept (embed_tokens, [.vocab, .hidden]),
      (embed_positions, [.positions, .hidden], .sliced 2 (.weight embed_positions)),
      (.plain "decoder.output_projection.weight", [.vocab, .hidden], .weight embed_tokens),
      kept (.plain (decoder ++ "final_layer_norm.weight"), [.hidden]),
      kept (.plain (decoder ++ "final_layer_norm.bias"), [.hidden]),
      (opt_layer "" ".self_attn.qkv_proj.weight", [.hidden, .qkv],
        .merged 1 (.transposed (.weight (.numbered layers ".self_attn.q_proj.weight")))
          (.transposed (.weight (.numbered layers ".self_attn.k_proj.weight")))
          (.transposed (.weight (.numbered layers ".self_attn.v_proj.weight")))),
      (opt_layer "" ".self_attn.qkv_proj.bias", [.qkv],
        .merged 0 (.weight (.numbered layers ".self_attn.q_proj.bias"))
          (.weight (.numbered layers ".self_attn.k_proj.bias"))
          (.weight (.numbered layers ".self_attn.v_proj.bias"))),
      (.numbered layers ".self_attn.out_proj.weight", [.hidden, .hidden],
        .transposed (.weight (.numbered layers ".self_attn.out_proj.weight"))),
      kept (.numbered layers ".self_attn.out_proj.bias", [.hidden])] ++
    (with_bias layers ".self_attn_layer_norm" [.hidden] [.hidden] ++
      with_bias layers ".fc1" [.ffn, .hidden] [.ffn] ++
      with_bias layers ".fc2" [.hidden, .ffn] [.hidden] ++
      with_bias layers ".final_layer_norm" [.hidden] [.hidden]).map kept
  | .llama model =>
    let layers := prefix_of model ++ "layers."
    [kept (.plain (prefix_of model ++ "embed_tokens.weight"), [.vocab, .hidden]),
      kept (.plain "lm_head.weight", [.vocab, .hidden]),
      kept (.plain (prefix_of model ++ "norm.weight"), [.hidden]),
      (llama_layer "" ".attention.wqkv.weight", [.hidden, .qkv],
        .merged 1 (.transposed (.weight (.numbered layers ".self_attn.q_proj.weight")))
          (.transposed (.weight (.numbered layers ".self_attn.k_proj.weight")))
          (.transposed (.weight (.numbered layers ".self_attn.v_proj.weight")))),
      (.numbered layers ".self_attn.o_proj.weight", [.q, .hidden],
        .transposed (.weight (.numbered layers ".self_attn.o_proj.weight"))),
      kept (.numbered layers ".mlp.gate_proj.weight", [.ffn, .hidden]),
      kept (.numbered layers ".mlp.down_proj.weight", [.hidden, .ffn]),
      kept (.numbered layers ".mlp.up_proj.weight", [.ffn, .hidden]),
      kept (.numbered layers ".input_layernorm.weight", [.hidden]),
      kept (.numbered layers ".post_attention_layernorm.weight", [.hidden])]
  | .gpt2 =>
    let transposed (name : Template) (shape : Shape) : Template × Entry :=
      (name, shape, .transposed (.weight name))
    [kept (.plain "wte.weight", [.vocab, .hidden]),
      kept (.plain "wpe.weight", [.positions, .hidden]),
      (.plain "decoder.output_projection.weight", [.vocab, .hidden],
        .weight (.plain "wte.weight")),
      kept (.plain "ln_f.weight", [.hidden]), kept (.plain "ln_f.bias", [.hidden])] ++
    (with_bias "h." ".attn.c_attn" [.hidden, .qkv] [.qkv] ++
      with_bias "h." ".attn.c_proj" [.hidden, .hidden] [.hidden] ++
      with_bias "h." ".ln_1" [.hidden] [.hidden]).map kept ++
    [transposed (.numbered "h." ".mlp.c_fc.weight") [.ffn, .hidden],
      kept (.numbered "h." ".mlp.c_fc.bias", [.ffn]),
      transposed (.numbered "h." ".mlp.c_proj.weight") [.hidden, .ffn],
      kept (.numbered "h." ".mlp.c_proj.bias", [.hidden])] ++
    (with_bias "h." ".ln_2" [.hidden] [.hidden]).map kept

theorem Checkpoint.names_distinct (c : Checkpoint) : Distinct (c.family ++ c.ignored) := by
  unfold Distinct
  rcases c with model | model | -
  · cases model <;>
    · simp only [family, weights, added, ignored, prefix_of, with_bias, opt_layer, Template.plain,
        Template.numbered, String.toList_append, Template.toList_literal, if_true, if_false,
        Bool.false_eq_true]
      decide +kernel
  · cases model <;>
    · simp only [family, weights, added, ignored, prefix_of, llama_layer, Template.plain,
        Template.numbered, String.toList_append, Template.toList_literal, if_true, if_false,
        Bool.false_eq_true]
      decide +kernel
  · simp only [family, weights, added, ignored, with_bias, Template.plain, Template.numbered,
      String.toList_append, Template.toList_literal]
    decide +kernel

/-- The weights that are left belong to the family, none of them occurs twice, and each canonical
weight is used for one of them. -/
def Checkpoint.leaves_family (c : Checkpoint) : Bool :=
  (c.preprocessed.map Prod.fst).all (c.family.contains ·) &&
    (c.preprocessed.map Prod.fst).Nodup &&
    (c.weights.map Prod.fst).all fun w => c.preprocessed.any fun x =>
      x.2.2.weights.contains w && in_layers w == in_layers x.1

theorem Checkpoint.leaves_family_eq_true (c : Checkpoint) : c.leaves_family = true := by
  rcases c with model | model | -
  · cases model <;>
    · simp only [leaves_family, preprocessed, family, weights, added, prefix_of, with_bias, kept,
        opt_layer, Template.plain, Template.numbered, String.toList_append, Template.toList_literal,
        if_true, if_false, Bool.false_eq_true]
      decide +kernel
  · cases model <;>
    · simp only [leaves_family, preprocessed, family, weights, added, prefix_of, llama_layer,
        Template.plain, Template.numbered, String.toList_append, Template.toList_literal, if_true,
        if_false, Bool.false_eq_true]
      decide +kernel
  · simp only [leaves_family, preprocessed, family, weights, added, with_bias, Template.plain,
      Template.numbered, String.toList_append, Template.toList_literal]
    decide +kernel

/-! ## The state dict at the start -/

variable {α : Type} {c : Checkpoint} {s : Sizes} {n : Nat} {d : TensorDict α}

theorem Checkpoint.weights_nodup (c : Checkpoint) : (c.weights.map Prod.fst).Nodup :=
  (c.names_distinct.nodup.of_append_left).of_append_left

theorem StateDict.not_mem (h : StateDict c s n d) {w : Template}
    (hw : w ∈ c.family) (hadded : w ∉ c.weights.map Prod.fst) {i : Nat} (hi : i ∈ numbers n w) :
    w.name i ∉ d := by
  intro hkey
  have hmem := List.mem_append_left c.ignored hw
  rcases h.has_no_others _ hkey with ⟨w', hw', j, hj, heq⟩ | ⟨w', hw', j, hj, heq⟩
  · have hmem' := List.mem_map_of_mem (f := Prod.fst) hw'
    obtain ⟨hsame, -⟩ := c.names_distinct.name_inj hmem
      (List.mem_append_left _ (List.mem_append_left _ hmem')) hi hj heq
    exact hadded (hsame ▸ hmem')
  · obtain ⟨rfl, -⟩ := c.names_distinct.name_inj hmem (List.mem_append_right _ hw') hi hj heq
    exact List.disjoint_of_nodup_append c.names_distinct.nodup hw hw'

theorem lookup_weights {weights : List (Template × Entry)} (hnodup : (weights.map Prod.fst).Nodup)
    {w : Template × Entry} (hw : w ∈ weights) : column weights w.1 = some w.2 :=
  (Dict.lookup_eq_some hnodup).mpr hw

/-- What is known of the weights at the start. -/
def Checkpoint.entries (c : Checkpoint) : List (Template × Entry) := c.weights.map kept

theorem Checkpoint.entries_names (c : Checkpoint) :
    c.entries.map Prod.fst = c.weights.map Prod.fst := by
  rw [entries, List.map_map]
  rfl

theorem Checkpoint.lookup_entries {w : Template × Shape} (hw : w ∈ c.weights) :
    column c.entries w.1 = some (w.2, .weight w.1) :=
  lookup_weights (c.entries_names ▸ c.weights_nodup) (List.mem_map_of_mem hw)

theorem StateDict.holds (h : StateDict c s n d) (post : Column) :
    Holds c.family c.ignored n s d (column c.entries) post 0 [] d where
  fits w hw i hi := by
    rw [stage_start]
    by_cases hmem : w ∈ c.weights.map Prod.fst
    · obtain ⟨x, hx, rfl⟩ := List.mem_map.mp hmem
      obtain ⟨t, ht, hts⟩ := h.has_weights x hx i hi
      rw [Checkpoint.lookup_entries hx, ht]
      exact .some ⟨hts, ht⟩
    · have hnone : column c.entries w = none := by
        refine List.lookup_eq_none_iff.mpr fun x hx => bne_iff_ne.mpr ?_
        rintro rfl
        exact hmem (c.entries_names ▸ List.mem_map_of_mem hx)
      rw [hnone, Dict.get?_eq_none.mpr (h.not_mem hw hmem hi)]
      exact .none
  has_no_others key hkey := by
    rcases h.has_no_others key hkey with ⟨w, hw, i, hi, rfl⟩ | hignored
    · exact .inl ⟨w.1, List.mem_append_left _ (List.mem_map_of_mem hw), i, hi, rfl⟩
    · exact .inr hignored

/-- What a preprocessor leaves of the state dict `d`. -/
structure Remains (c : Checkpoint) (s : Sizes) (n : Nat) (d d' : TensorDict α) : Prop where
  has_weights : ∀ w ∈ c.preprocessed, ∀ i ∈ numbers n w.1,
    ∃ t, d'.get? (w.1.name i) = some t ∧ w.2.Fits d s i t
  has_no_others : ∀ key ∈ d', (∃ w ∈ c.preprocessed, ∃ i ∈ numbers n w.1, key = w.1.name i) ∨
    ∃ w ∈ c.ignored, ∃ i ∈ numbers n w, key = w.name i

theorem Holds.remains {d' : TensorDict α} {post : Column}
    (h : Holds c.family c.ignored n s d (column c.preprocessed) post 0 [] d') :
    Remains c s n d d' := by
  have hleaves := c.leaves_family_eq_true
  simp only [Checkpoint.leaves_family, Bool.and_eq_true, List.all_eq_true, List.contains_iff_mem,
    decide_eq_true_eq] at hleaves
  obtain ⟨⟨hfamily, hnodup⟩, -⟩ := hleaves
  constructor
  · intro w hw i hi
    have hfits := h.fits w.1 (hfamily _ (List.mem_map_of_mem hw)) i hi
    rw [stage_start, lookup_weights hnodup hw] at hfits
    generalize d'.get? (w.1.name i) = x at hfits ⊢
    cases hfits with
    | some hfits => exact ⟨_, rfl, hfits⟩
  · intro key hkey
    rcases h.has_no_others key hkey with ⟨w, hw, i, hi, rfl⟩ | hignored
    · refine .inl ?_
      have hfits := h.fits w hw i hi
      rw [stage_start] at hfits
      cases hlookup : column c.preprocessed w with
      | some e => exact ⟨(w, e), (Dict.lookup_eq_some hnodup).mp hlookup, i, hi, rfl⟩
      | none =>
        rw [hlookup] at hfits
        rw [Dict.mem_iff_isSome] at hkey
        generalize d'.get? (w.name i) = x at hfits hkey
        cases hfits
        cases hkey
    · exact .inr hignored

/-! ## What is read at the start -/

theorem StateDict.get (h : StateDict c s n d) {w : Template × Shape} (hw : w ∈ c.weights) {i : Nat}
    (hi : i ∈ numbers n w.1) :
    ∃ t, converter.get d (w.1.name i) = .ok t ∧ (kept w).2.Fits d s i t := by
  obtain ⟨t, ht, hts⟩ := h.has_weights w hw i hi
  refine ⟨t, ?_, hts, ht⟩
  rw [converter.get, ht]

theorem size_first {t : Tensor α} {x : Dim} {shape : Shape} (ht : t.shape = (x :: shape).map s.of) :
    size t 0 = .ok (s.of x) := by
  rw [size, Tensor.size, ht]
  rfl

/-- The prefix is detected by a weight of no layer. -/
theorem StateDict.detects (h : StateDict c s n d) {model : Bool} {w : Template}
    (hw : if model then ∀ w' ∈ c.weights.map Prod.fst ++ c.ignored,
      Template.apart w.letters w'.letters = true else w ∈ c.weights.map Prod.fst)
    (hplain : 0 ∈ numbers n w) :
    (if w.name 0 ∈ d then "" else "model.") = prefix_of model := by
  cases model with
  | false =>
    obtain ⟨x, hx, rfl⟩ := List.mem_map.mp hw
    obtain ⟨t, ht, -⟩ := h.has_weights x hx 0 hplain
    rw [if_pos (Dict.mem_iff_isSome.mpr (ht ▸ rfl))]
    rfl
  | true =>
    refine if_neg fun hkey => ?_
    rcases h.has_no_others _ hkey with ⟨w', hw', i, -, heq⟩ | ⟨w', hw', i, -, heq⟩
    · exact Template.name_ne (hw _ (List.mem_append_left _ (List.mem_map_of_mem hw'))) 0 i heq
    · exact Template.name_ne (hw _ (List.mem_append_right _ hw')) 0 i heq

/-! ## The number of layers -/

theorem int_of_toDigits (i : Nat) : int_of [Nat.toDigits 10 i] = i :=
  Nat.ofDigitChars_ten_toDigits

theorem max_plus_one_eq {numbers : List Nat} (hn : 1 ≤ n) (hmem : n - 1 ∈ numbers)
    (hlt : ∀ i ∈ numbers, i < n) : max_plus_one numbers = .ok n := by
  have hmax : numbers.max? = some (n - 1) :=
    List.max?_eq_some_iff.mpr ⟨hmem, fun i hi => by have := hlt i hi; omega⟩
  rw [max_plus_one, hmax]
  exact congrArg Except.ok (Nat.sub_add_cancel hn)

/-- A regular expression finds the weight `w` of each layer with its number, and no other. -/
structure Counts (regex : Pattern) (c : Checkpoint) (w : Template) : Prop where
  mem : w ∈ c.weights.map Prod.fst
  numbers_eq : ∀ n, numbers n w = List.range n
  found : ∀ w' ∈ c.weights.map Prod.fst ++ c.ignored,
    searchName regex w'.letters = some (if w' = w then some [[.number]] else none)

section

variable {regex : Pattern} {w : Template}

/-- The key of a state dict, with the weight that it belongs to. -/
theorem StateDict.key_cases (h : StateDict c s n d) {key : String}
    (hkey : key ∈ d) :
    ∃ w ∈ c.weights.map Prod.fst ++ c.ignored, ∃ i ∈ numbers n w, key = w.name i := by
  rcases h.has_no_others key hkey with ⟨w, hw, i, hi, heq⟩ | ⟨w, hw, i, hi, heq⟩
  · exact ⟨w.1, List.mem_append_left _ (List.mem_map_of_mem hw), i, hi, heq⟩
  · exact ⟨w, List.mem_append_right _ hw, i, hi, heq⟩

theorem Counts.search_name (hc : Counts regex c w) {w' : Template}
    (hw' : w' ∈ c.weights.map Prod.fst ++ c.ignored) (i : Nat) :
    search regex (w'.name i).toList = if w' = w then some [Nat.toDigits 10 i] else none := by
  rw [w'.toList_name, search_spell (digits_toDigits i) (hc.found w' hw')]
  split_ifs
  · rw [Option.map_some, List.map_singleton, spell, spell, List.append_nil]
  · rfl

theorem Counts.name_mem (hc : Counts regex c w) (h : StateDict c s n d) {i : Nat}
    (hi : i < n) : w.name i ∈ d := by
  obtain ⟨x, hx, hxw⟩ := List.mem_map.mp hc.mem
  have hnumber : i ∈ numbers n x.1 := by
    rw [hxw, hc.numbers_eq]
    exact List.mem_range.mpr hi
  obtain ⟨t, ht, -⟩ := h.has_weights x hx i hnumber
  rw [← hxw, Dict.mem_iff_isSome, ht]
  rfl

theorem Counts.of_search (hc : Counts regex c w) (h : StateDict c s n d)
    {key : String} (hkey : key ∈ d) {groups : List (List Char)}
    (hsearch : search regex key.toList = some groups) : int_of groups < n := by
  obtain ⟨w', hw', i, hi, rfl⟩ := h.key_cases hkey
  rw [hc.search_name hw'] at hsearch
  split_ifs at hsearch with hsame
  cases hsearch
  rw [hsame, hc.numbers_eq] at hi
  rw [int_of_toDigits]
  exact List.mem_range.mp hi

theorem num_layers_found (hc : Counts regex c w) (h : StateDict c s n d)
    (hn : 1 ≤ n) :
    max_plus_one ((d.keys.filterMap fun x => search regex x.toList).map int_of) = .ok n := by
  refine max_plus_one_eq hn ?_ ?_
  · have hkey := hc.name_mem h (show n - 1 < n by omega)
    refine List.mem_map.mpr ⟨[Nat.toDigits 10 (n - 1)], List.mem_filterMap.mpr ⟨_, hkey, ?_⟩,
      int_of_toDigits _⟩
    rw [hc.search_name (List.mem_append_left _ hc.mem), if_pos rfl]
  · intro i hi
    obtain ⟨groups, hgroups, rfl⟩ := List.mem_map.mp hi
    obtain ⟨key, hkey, hsearch⟩ := List.mem_filterMap.mp hgroups
    exact hc.of_search h hkey hsearch

theorem num_layers_of_eq (hc : Counts regex c w) (h : StateDict c s n d)
    (hn : 1 ≤ n)
    (hmatched : ∀ w' ∈ c.weights.map Prod.fst ++ c.ignored,
      matchName regex w'.letters = some (if w' = w then some [[.number]] else none)) :
    num_layers_of regex d = .ok n := by
  have hmatch : ∀ w' ∈ c.weights.map Prod.fst ++ c.ignored, ∀ i,
      (matchAt regex (w'.name i).toList).isSome = decide (w' = w) := by
    intro w' hw' i
    rw [w'.toList_name, matchAt_spell (digits_toDigits i) (hmatched w' hw'), Option.isSome_map]
    split_ifs with hsame <;> simp [hsame]
  refine max_plus_one_eq hn ?_ ?_
  · have hkey := hc.name_mem h (show n - 1 < n by omega)
    have hw := List.mem_append_left c.ignored hc.mem
    refine List.mem_map.mpr ⟨w.name (n - 1), List.mem_filter.mpr ⟨hkey, ?_⟩, ?_⟩
    · rw [hmatch w hw, decide_eq_true rfl]
    · rw [hc.search_name hw, if_pos rfl, Option.getD_some, int_of_toDigits]
  · intro i hi
    obtain ⟨key, hkey, rfl⟩ := List.mem_map.mp hi
    obtain ⟨hkey, hsome⟩ := List.mem_filter.mp hkey
    obtain ⟨w', hw', j, -, rfl⟩ := h.key_cases hkey
    rw [hmatch w' hw', decide_eq_true_eq] at hsome
    have hsearch := hc.search_name hw' j
    rw [if_pos hsome] at hsearch
    rw [hsearch]
    exact hc.of_search h hkey hsearch

end

end distserve.converter
