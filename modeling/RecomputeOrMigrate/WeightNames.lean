-- The translation and the division of a weight are decided on its name with the layer left open.
import RecomputeOrMigrate.Converter

open calls regex

namespace distserve.converter

/-! ## Translated names -/

/-- What is left after `n` characters, if no number is among them. -/
def dropKnown : Nat → List Letter → Option (List Letter)
  | 0, name => some name
  | _ + 1, [] => some []
  | n + 1, .char _ :: name => dropKnown n name
  | _ + 1, .number :: _ => none

def cutKnown (name : List Letter) : Option (List Letter) :=
  (matchName (text "model") name).bind fun found =>
    if found.isSome then dropKnown 6 name else some name

def fillName : Template → List (List Letter) → Option (List Letter)
  | .whole name, _ => some (name.map .char)
  | .around before after, groups => groups.head?.map fun layer =>
    before.map .char ++ layer ++ after.map .char

def Translator.cutKnown (translator : Translator) (name : List Letter) : Option (List Letter) :=
  if translator.cuts_model then converter.cutKnown name else some name

/-- The new name that the table gives. -/
def tableKnown (table : List (Pattern × Template)) (name : List Letter) :
    Option (Option (List Letter)) :=
  firstKnown (table.map fun row => (matchName row.1 name).bind fun found =>
    found.elim (some none) fun groups => (fillName row.2 groups).map some)

/-- The translation of a name, if it does not depend on the number. -/
def Translator.known (translator : Translator) (name : List Letter) :
    Option (Option (List Letter)) :=
  (translator.ignored.known name).bind fun ignored =>
    if ignored then some none
    else (translator.cutKnown name).bind fun name =>
      (tableKnown translator.name_mapping_table name).bind fun found =>
        found.elim (if translator.keeps_others then some (some name) else none) fun name =>
          some (some name)

section

variable {ds : List Char} {name rest : List Letter} {translator : Translator}

theorem drop_spell {n : Nat} (h : dropKnown n name = some rest) :
    (spell ds name).drop n = spell ds rest := by
  induction n generalizing name with
  | zero =>
    cases h
    rfl
  | succ n ih =>
    rcases name with - | ⟨c | -, name⟩
    · cases h
      rfl
    · exact ih h
    · cases h

theorem cut_model_spell (hds : Digits ds) (h : cutKnown name = some rest) :
    cut_model (spell ds name) = spell ds rest := by
  obtain ⟨found, hfound, h⟩ := Option.bind_eq_some_iff.mp h
  rw [cut_model, matchAt_spell hds hfound, Option.isSome_map]
  split_ifs at h ⊢
  · exact drop_spell h
  · cases h
    rfl

theorem format_spell {newname : Template} {groups : List (List Letter)}
    (h : fillName newname groups = some name) :
    format newname (groups.map (spell ds)) = .ok (String.ofList (spell ds name)) := by
  cases newname with
  | whole newname =>
    cases h
    rw [format, spell_map_char]
  | around before after =>
    obtain ⟨layer, hlayer, rfl⟩ := Option.map_eq_some_iff.mp h
    rw [format, List.head?_map, hlayer]
    apply congrArg Except.ok
    rw [Template.spell_append, Template.spell_append, spell_map_char, spell_map_char]

theorem table_spell (hds : Digits ds) {table : List (Pattern × Template)}
    {found : Option (List Letter)} (h : tableKnown table name = some found) :
    (table.findSome? fun row => (matchAt row.1 (spell ds name)).map fun groups =>
      (format row.2 groups).map some) =
      found.map fun name => .ok (some (String.ofList (spell ds name))) := by
  refine firstKnown_findSome (fun row _ z hz => ?_) h
  obtain ⟨x, hx, hz⟩ := Option.bind_eq_some_iff.mp hz
  rw [matchAt_spell hds hx]
  cases x with
  | none =>
    cases hz
    rfl
  | some groups =>
    obtain ⟨filled, hfilled, rfl⟩ := Option.map_eq_some_iff.mp hz
    rw [Option.map_some, Option.map_some, Option.map_some, format_spell hfilled]
    rfl

/-- A translation that is decided with the number left open holds for every number. -/
theorem translate_spell (hds : Digits ds) {s : String} (hs : s.toList = spell ds name)
    {y : Option (List Letter)} (h : translator.known name = some y) :
    translator.translate s = .ok (y.map fun name => String.ofList (spell ds name)) := by
  obtain ⟨ignored, hignored, h⟩ := Option.bind_eq_some_iff.mp h
  rw [Translator.translate, hs, Test.run_spell hds hignored]
  cases ignored with
  | true =>
    cases h
    rfl
  | false =>
    obtain ⟨cut, hcut, h⟩ := Option.bind_eq_some_iff.mp h
    obtain ⟨found, hfound, h⟩ := Option.bind_eq_some_iff.mp h
    have hname : (if translator.cuts_model then cut_model (spell ds name) else spell ds name) =
        spell ds cut := by
      unfold Translator.cutKnown at hcut
      split_ifs at hcut ⊢
      · exact cut_model_spell hds hcut
      · cases hcut
        rfl
    rw [if_neg Bool.false_ne_true]
    dsimp only
    rw [hname, table_spell hds hfound]
    cases found with
    | some found =>
      cases h
      rfl
    | none =>
      rw [Option.elim_none] at h
      split_ifs at h with hkeeps
      cases h
      rw [if_pos hkeeps]
      rfl

/-- A weight is translated to `target`, or ignored if there is none. -/
theorem translate_name {t : Template} {target : Option Template}
    (h : translator.known t.letters = some (target.map Template.letters)) (i : Nat) :
    translator.translate (t.name i) = .ok (target.map (·.name i)) := by
  rw [translate_spell (digits_toDigits i) (t.toList_name i) h]
  cases target with
  | none => rfl
  | some target =>
    rw [Option.map_some, Option.map_some, Option.map_some, ← Template.toList_name,
      String.ofList_toList]

/-! ## Divisions -/

def anyKnown : List Test → List Letter → Option Bool
  | [], _ => some false
  | test :: tests, name =>
    (test.known name).bind fun b => if b then some true else anyKnown tests name

/-- The division of a name, if it does not depend on the number. -/
def divisionKnown (name : List Letter) : Option (Option Division) :=
  firstKnown (dispatch.map fun row =>
    (anyKnown row.1 name).map fun b => if b then some row.2 else none)

theorem any_spell (hds : Digits ds) {tests : List Test} {b : Bool}
    (h : anyKnown tests name = some b) : tests.any (·.run (spell ds name)) = b := by
  induction tests with
  | nil =>
    cases h
    rfl
  | cons test tests ih =>
    obtain ⟨first, hfirst, h⟩ := Option.bind_eq_some_iff.mp h
    rw [List.any_cons, Test.run_spell hds hfirst]
    cases first with
    | true =>
      cases h
      rfl
    | false => exact ih h

theorem division_of_name {t : Template} {division : Option Division}
    (h : divisionKnown t.letters = some division) (i : Nat) :
    division_of (t.name i) = division := by
  rw [division_of, t.toList_name]
  have hfound := firstKnown_findSome (f := id) (g := fun row =>
    if row.1.any (·.run (spell (Nat.toDigits 10 i) t.letters)) then some row.2 else none)
    (fun row _ z hz => ?_) h
  · rw [hfound, Option.map_id, id]
  · obtain ⟨b, hb, rfl⟩ := Option.map_eq_some_iff.mp hz
    rw [any_spell (digits_toDigits i) hb, Option.map_id, id]

end

/-! ## The checkpoints of the families -/

/-- The sizes that occur in the shapes of the weights. -/
inductive Dim
  | vocab
  | positions
  /-- The rows of the position embedding of OPT, of which the first two are cut off. -/
  | all_positions
  | hidden
  | ffn
  /-- All heads of the queries, of the keys or the values, and of the three together. -/
  | q
  | kv
  | qkv
deriving DecidableEq

abbrev Shape := List Dim

structure Sizes where
  vocab : Nat
  positions : Nat
  hidden : Nat
  ffn : Nat
  head_dim : Nat
  num_q_heads : Nat
  num_kv_heads : Nat

def Sizes.of (s : Sizes) : Dim → Nat
  | .vocab => s.vocab
  | .positions => s.positions
  | .all_positions => s.positions + 2
  | .hidden => s.hidden
  | .ffn => s.ffn
  | .q => s.num_q_heads * s.head_dim
  | .kv => s.num_kv_heads * s.head_dim
  | .qkv => (s.num_q_heads + 2 * s.num_kv_heads) * s.head_dim

/-- A family, with or without `model.` in front of its names. -/
inductive Checkpoint
  | opt (model : Bool)
  | llama (model : Bool)
  | gpt2

def prefix_of (model : Bool) : String := if model then "model." else ""

/-- A weight and its bias. -/
def with_bias (before after : String) (weight bias : Shape) : List (Template × Shape) :=
  [(.numbered before (after ++ ".weight"), weight), (.numbered before (after ++ ".bias"), bias)]

/-- The canonical weights that are not ignored. -/
def Checkpoint.weights : Checkpoint → List (Template × Shape)
  | .opt model =>
    let decoder := prefix_of model ++ "decoder."
    let layers := prefix_of model ++ "decoder.layers."
    [(.plain (decoder ++ "embed_tokens.weight"), [.vocab, .hidden]),
      (.plain (decoder ++ "embed_positions.weight"), [.all_positions, .hidden]),
      (.plain (decoder ++ "final_layer_norm.weight"), [.hidden]),
      (.plain (decoder ++ "final_layer_norm.bias"), [.hidden])] ++
    with_bias layers ".self_attn.q_proj" [.hidden, .hidden] [.hidden] ++
    with_bias layers ".self_attn.k_proj" [.hidden, .hidden] [.hidden] ++
    with_bias layers ".self_attn.v_proj" [.hidden, .hidden] [.hidden] ++
    with_bias layers ".self_attn.out_proj" [.hidden, .hidden] [.hidden] ++
    with_bias layers ".self_attn_layer_norm" [.hidden] [.hidden] ++
    with_bias layers ".fc1" [.ffn, .hidden] [.ffn] ++
    with_bias layers ".fc2" [.hidden, .ffn] [.hidden] ++
    with_bias layers ".final_layer_norm" [.hidden] [.hidden]
  | .llama model =>
    let layers := prefix_of model ++ "layers."
    [(.plain (prefix_of model ++ "embed_tokens.weight"), [.vocab, .hidden]),
      (.plain (prefix_of model ++ "norm.weight"), [.hidden]),
      (.plain "lm_head.weight", [.vocab, .hidden]),
      (.numbered layers ".self_attn.q_proj.weight", [.q, .hidden]),
      (.numbered layers ".self_attn.k_proj.weight", [.kv, .hidden]),
      (.numbered layers ".self_attn.v_proj.weight", [.kv, .hidden]),
      (.numbered layers ".self_attn.o_proj.weight", [.hidden, .q]),
      (.numbered layers ".mlp.gate_proj.weight", [.ffn, .hidden]),
      (.numbered layers ".mlp.up_proj.weight", [.ffn, .hidden]),
      (.numbered layers ".mlp.down_proj.weight", [.hidden, .ffn]),
      (.numbered layers ".input_layernorm.weight", [.hidden]),
      (.numbered layers ".post_attention_layernorm.weight", [.hidden])]
  | .gpt2 =>
    [(.plain "wte.weight", [.vocab, .hidden]), (.plain "wpe.weight", [.positions, .hidden]),
      (.plain "ln_f.weight", [.hidden]), (.plain "ln_f.bias", [.hidden])] ++
    with_bias "h." ".attn.c_attn" [.hidden, .qkv] [.qkv] ++
    with_bias "h." ".attn.c_proj" [.hidden, .hidden] [.hidden] ++
    with_bias "h." ".ln_1" [.hidden] [.hidden] ++
    with_bias "h." ".mlp.c_fc" [.hidden, .ffn] [.ffn] ++
    with_bias "h." ".mlp.c_proj" [.ffn, .hidden] [.hidden] ++
    with_bias "h." ".ln_2" [.hidden] [.hidden]

/-- The weights that are named as ignored: the head of OPT, which is the embedding of its tokens,
the frequencies of the rotary embedding and the mask of the attention. -/
def Checkpoint.ignored : Checkpoint → List Template
  | .opt _ => [.plain "lm_head.weight"]
  | .llama model => [.numbered (prefix_of model ++ "layers.") ".self_attn.rotary_emb.inv_freq"]
  | .gpt2 => [.numbered "h." ".attn.bias"]

def Checkpoint.preprocess {α : Type} : Checkpoint → TensorDict α →
    Except ConvertError (TensorDict α × Nat × Nat)
  | .opt _ => preprocess_opt
  | .llama _ => preprocess_llama2
  | .gpt2 => preprocess_gpt2

def Checkpoint.translator : Checkpoint → Translator
  | .opt _ => optNameTranslator
  | .llama _ => llama2NameTranslator
  | .gpt2 => gpt2NameTranslator

/-- The sizes are those of a checkpoint of the family. OPT and GPT-2 have one head of the keys and
values for each of the queries, and the size of a head is the one that the preprocessors take from
`ffn`, which eight shards divide. -/
structure Checkpoint.HasSizes (c : Checkpoint) (s : Sizes) : Prop where
  num_q_heads_pos : 0 < s.num_q_heads
  num_kv_heads_pos : 0 < s.num_kv_heads
  hidden_pos : 0 < s.hidden
  ffn_pos : 0 < s.ffn
  ffn_divided : s.ffn % 8 = 0
  heads : match c with
    | .llama _ => s.head_dim = 128
    | _ => s.head_dim = head_dim_of s.ffn ∧ s.num_kv_heads = s.num_q_heads ∧
      s.hidden = s.num_q_heads * s.head_dim

/-- The target weights of OPT and GPT-2. -/
def targets_with_biases : List (Template × Division) := [
  (.plain "decoder.embed_tokens.weight", .replicated),
  (.plain "decoder.embed_positions.weight", .replicated),
  (.plain "decoder.output_projection.weight", .replicated),
  (.plain "decoder.layer_norm.weight", .replicated),
  (.plain "decoder.layer_norm.bias", .replicated),
  (decoder_layer ".self_attn.qkv_proj.weight", .qkv 1),
  (decoder_layer ".self_attn.qkv_proj.bias", .qkv 0),
  (decoder_layer ".self_attn.out_proj.weight", .divided 0),
  (decoder_layer ".self_attn.out_proj.bias", .replicated),
  (decoder_layer ".self_attn_layer_norm.weight", .replicated),
  (decoder_layer ".self_attn_layer_norm.bias", .replicated),
  (decoder_layer ".fc1.weight", .divided 0),
  (decoder_layer ".fc1.bias", .divided 0),
  (decoder_layer ".fc2.weight", .divided 1),
  (decoder_layer ".fc2.bias", .replicated),
  (decoder_layer ".final_layer_norm.weight", .replicated),
  (decoder_layer ".final_layer_norm.bias", .replicated)]

/-- The target weights of a family with their intended divisions. -/
def Checkpoint.targets : Checkpoint → List (Template × Division)
  | .opt _ => targets_with_biases
  | .llama _ => [
    (.plain "decoder.embed_tokens.weight", .replicated),
    (.plain "decoder.output_projection.weight", .replicated),
    (.plain "decoder.layer_norm.weight", .replicated),
    (decoder_layer ".self_attn.qkv_proj.weight", .qkv 1),
    (decoder_layer ".self_attn.out_proj.weight", .divided 0),
    (decoder_layer ".fc1.weight", .divided 0),
    (decoder_layer ".fc2.weight", .divided 1),
    (decoder_layer ".fc3.weight", .divided 0),
    (decoder_layer ".self_attn_layer_norm.weight", .replicated),
    (decoder_layer ".final_layer_norm.weight", .replicated)]
  | .gpt2 => targets_with_biases

/-- The numbers with which a name occurs in a checkpoint of `n` layers. -/
def numbers (n : Nat) : Template → List Nat
  | .whole _ => [0]
  | .around _ _ => List.range n

/-- The state dict of a checkpoint of `n` layers: exactly the canonical weights, and any of those
that are ignored. -/
structure StateDict {α : Type} (c : Checkpoint) (s : Sizes) (n : Nat) (d : TensorDict α) :
    Prop where
  has_weights : ∀ w ∈ c.weights, ∀ i ∈ numbers n w.1,
    ∃ t, d.get? (w.1.name i) = some t ∧ t.shape = w.2.map s.of
  has_no_others : ∀ key ∈ d, (∃ w ∈ c.weights, ∃ i ∈ numbers n w.1, key = w.1.name i) ∨
    ∃ w ∈ c.ignored, ∃ i ∈ numbers n w, key = w.name i

end distserve.converter
