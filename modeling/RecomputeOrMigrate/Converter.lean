-- The conversion of the weights of a model: the preprocessors of the three families of models, the
-- translators of their names, and the saver that divides each weight among eight shards.
import RecomputeOrMigrate.General.Calls
import RecomputeOrMigrate.General.Dicts
import RecomputeOrMigrate.General.Regex
import RecomputeOrMigrate.General.Tensors

open calls dicts regex tensors

namespace distserve.converter

/-- An exception of the conversion. -/
inductive ConvertError
  | assertion (text : String)
  /-- An operation of `torch` that refuses its arguments. -/
  | runtime_error (operation : String)
  | index_error
  | key_error (key : String)
  /-- `max()` of no values. -/
  | value_error
deriving DecidableEq

/-- A call of `torch`. -/
def torch {α : Type} (operation : String) : Option α → Except ConvertError α
  | some a => .ok a
  | none => .error (.runtime_error operation)

abbrev TensorDict (α : Type) := Dict String (Tensor α)

/-- `r"before(\d+)after"`, with or without the name `layer` for its group. -/
def layered (before after : String) : Pattern := text before ++ .digits :: text after

section

variable {α : Type}

/-- `tensor_dict[key]`. -/
def get (tensor_dict : TensorDict α) (key : String) : Except ConvertError (Tensor α) :=
  match tensor_dict.get? key with
  | some tensor => .ok tensor
  | none => .error (.key_error key)

/-- `del tensor_dict[key]`. -/
def del (tensor_dict : TensorDict α) (key : String) : Except ConvertError (TensorDict α) :=
  if key ∈ tensor_dict then .ok (tensor_dict.pop key) else .error (.key_error key)

/-- `tensor.size(dim)`. -/
def size (tensor : Tensor α) (dim : Nat) : Except ConvertError Nat :=
  if dim < tensor.shape.length then .ok (tensor.size dim) else .error .index_error

/-! ## Preprocessors -/

/-- `int(groups[0])`. -/
def int_of (groups : List (List Char)) : Nat := Nat.ofDigitChars 10 (groups.headD []) 0

/-- `max(numbers) + 1`. -/
def max_plus_one (numbers : List Nat) : Except ConvertError Nat :=
  match numbers.max? with
  | some n => .ok (n + 1)
  | none => .error .value_error

/-- `max(int(regex.findall(x)[0]) for x in filter(regex.match, tensor_dict)) + 1`. -/
def num_layers_of (regex : Pattern) (tensor_dict : TensorDict α) : Except ConvertError Nat :=
  max_plus_one ((tensor_dict.keys.filter fun x => (matchAt regex x.toList).isSome).map fun x =>
    int_of ((search regex x.toList).getD []))

/-- The `head_dim` of OPT and GPT-2. -/
def head_dim_of (ffn_inter_dim : Nat) : Nat :=
  if ffn_inter_dim ≤ 8192 then 64 else if ffn_inter_dim = 10240 then 80 else 128

/-- The last lines of a preprocessor. -/
def preprocessed (tensor_dict : TensorDict α) (num_q_heads head_dim : Nat) :
    Except ConvertError (TensorDict α × Nat × Nat) :=
  if 0 < num_q_heads then .ok (tensor_dict, num_q_heads, head_dim)
  else .error (.assertion "num_q_heads must be greater than 0")

/-- The concatenation of three weights takes their place. -/
def merge (tensor_dict : TensorDict α) (merged q k v : String) (dim : Nat)
    (f : Tensor α → Tensor α) : Except ConvertError (TensorDict α) := do
  let q_tensor ← get tensor_dict q
  let k_tensor ← get tensor_dict k
  let v_tensor ← get tensor_dict v
  let tensor ← torch "cat" (Tensor.cat dim [f q_tensor, f k_tensor, f v_tensor])
  let tensor_dict ← del (tensor_dict.set merged tensor) q
  let tensor_dict ← del tensor_dict k
  del tensor_dict v

/-- `tensor_dict[key] = tensor_dict[key].T.contiguous()`. -/
def transpose (tensor_dict : TensorDict α) (key : String) : Except ConvertError (TensorDict α) := do
  let tensor ← get tensor_dict key
  pure (tensor_dict.set key tensor.T)

/-- A weight of layer `i` of OPT. -/
def opt_layer (PREFIX after : String) : Template := .numbered (PREFIX ++ "decoder.layers.") after

/-- One turn of the loop of `preprocess_opt`. -/
def preprocess_opt_layer (PREFIX : String) (tensor_dict : TensorDict α) (i : Nat) :
    Except ConvertError (TensorDict α) := do
  let OUT_PROJ := opt_layer PREFIX ".self_attn.out_proj.weight"
  let Q_WEIGHT := opt_layer PREFIX ".self_attn.q_proj.weight"
  let K_WEIGHT := opt_layer PREFIX ".self_attn.k_proj.weight"
  let V_WEIGHT := opt_layer PREFIX ".self_attn.v_proj.weight"
  let Q_BIAS := opt_layer PREFIX ".self_attn.q_proj.bias"
  let K_BIAS := opt_layer PREFIX ".self_attn.k_proj.bias"
  let V_BIAS := opt_layer PREFIX ".self_attn.v_proj.bias"
  let tensor_dict ← transpose tensor_dict (OUT_PROJ.name i)
  let tensor_dict ← merge tensor_dict ((opt_layer "" ".self_attn.qkv_proj.weight").name i)
    (Q_WEIGHT.name i) (K_WEIGHT.name i) (V_WEIGHT.name i) 1 Tensor.T
  merge tensor_dict ((opt_layer "" ".self_attn.qkv_proj.bias").name i)
    (Q_BIAS.name i) (K_BIAS.name i) (V_BIAS.name i) 0 id

def preprocess_opt (tensor_dict : TensorDict α) :
    Except ConvertError (TensorDict α × Nat × Nat) := do
  let PREFIX := if "decoder.embed_tokens.weight" ∈ tensor_dict then "" else "model."
  let FC1_BIAS := (opt_layer PREFIX ".fc1.bias").name 0
  let LAYER_NORM := PREFIX ++ "decoder.final_layer_norm.weight"
  let EMBED_TOKENS := PREFIX ++ "decoder.embed_tokens.weight"
  let EMBED_POSITIONS := PREFIX ++ "decoder.embed_positions.weight"
  let num_layers ← num_layers_of (layered (PREFIX ++ "decoder.layers.") ".fc1.weight") tensor_dict
  let fc1_bias ← get tensor_dict FC1_BIAS
  let ffn_inter_dim ← size fc1_bias 0
  let head_dim := head_dim_of ffn_inter_dim
  let layer_norm ← get tensor_dict LAYER_NORM
  let n ← size layer_norm 0
  let num_q_heads := n / head_dim
  let embed_positions ← get tensor_dict EMBED_POSITIONS
  let positions ← torch "slice" (embed_positions.slice_from 2)
  let tensor_dict := tensor_dict.set EMBED_POSITIONS positions
  let embed_tokens ← get tensor_dict EMBED_TOKENS
  let tensor_dict := tensor_dict.set "decoder.output_projection.weight" embed_tokens
  let tensor_dict ← (List.range num_layers).foldlM (preprocess_opt_layer PREFIX) tensor_dict
  preprocessed tensor_dict num_q_heads head_dim

/-- A weight of layer `i` of LLaMA. -/
def llama_layer (PREFIX after : String) : Template := .numbered (PREFIX ++ "layers.") after

def preprocess_llama2 (tensor_dict : TensorDict α) :
    Except ConvertError (TensorDict α × Nat × Nat) := do
  let PREFIX := if "embed_tokens.weight" ∈ tensor_dict then "" else "model."
  let Q_WEIGHT := llama_layer PREFIX ".self_attn.q_proj.weight"
  let K_WEIGHT := llama_layer PREFIX ".self_attn.k_proj.weight"
  let V_WEIGHT := llama_layer PREFIX ".self_attn.v_proj.weight"
  let O_WEIGHT := llama_layer PREFIX ".self_attn.o_proj.weight"
  let num_layers ← num_layers_of (layered (PREFIX ++ "layers.") ".self_attn.q_proj.weight")
    tensor_dict
  let head_dim := 128
  let q_weight ← get tensor_dict (Q_WEIGHT.name 0)
  let n ← size q_weight 0
  let num_q_heads := n / head_dim
  let tensor_dict ← (List.range num_layers).foldlM (fun tensor_dict i =>
    merge tensor_dict ((llama_layer "" ".attention.wqkv.weight").name i) (Q_WEIGHT.name i)
      (K_WEIGHT.name i) (V_WEIGHT.name i) 1 Tensor.T) tensor_dict
  let tensor_dict ← (List.range num_layers).foldlM (fun tensor_dict i =>
    transpose tensor_dict (O_WEIGHT.name i)) tensor_dict
  preprocessed tensor_dict num_q_heads head_dim

/-- `r"h.(\d+).mlp.(c_fc|c_proj).weight"`. -/
def gpt2_mlp_weight : Pattern :=
  layered "h." ".mlp." ++ .words ["c_fc".toList, "c_proj".toList] :: text ".weight"

def preprocess_gpt2 (tensor_dict : TensorDict α) :
    Except ConvertError (TensorDict α × Nat × Nat) := do
  let num_layers_regex := layered "h." ".attn.c_attn.weight"
  let _num_layers ← max_plus_one
    ((tensor_dict.keys.filterMap fun x => search num_layers_regex x.toList).map int_of)
  let c_fc_bias ← get tensor_dict ((Template.numbered "h." ".mlp.c_fc.bias").name 0)
  let ffn_inter_dim ← size c_fc_bias 0
  let head_dim := head_dim_of ffn_inter_dim
  let ln_f ← get tensor_dict "ln_f.weight"
  let n ← size ln_f 0
  let num_q_heads := n / head_dim
  let wte ← get tensor_dict "wte.weight"
  let tensor_dict := tensor_dict.set "decoder.output_projection.weight" wte
  let tensor_dict := tensor_dict.items.foldl (fun d x =>
    if (matchAt gpt2_mlp_weight x.1.toList).isSome then d.set x.1 x.2.T else d) tensor_dict
  preprocessed tensor_dict num_q_heads head_dim

end

/-! ## Name translators -/

/-- What the name translators differ in. -/
structure Translator where
  ignored : Test
  /-- Whether `model.` is cut off. -/
  cuts_model : Bool
  name_mapping_table : List (Pattern × Template)
  /-- Whether a name without a match stays as it is. -/
  keeps_others : Bool

/-- `newname.format(**match.groupdict())`. -/
def format (newname : Template) (groups : List (List Char)) : Except ConvertError String :=
  match newname with
  | .whole name => .ok (String.ofList name)
  | .around before after =>
    match groups.head? with
    | some layer => .ok (String.ofList (before ++ layer ++ after))
    | none => .error (.key_error "layer")

/-- `name[6:]` for a name that starts with `model`. -/
def cut_model (name : List Char) : List Char :=
  if (matchAt (text "model") name).isSome then name.drop 6 else name

/-- The new name, or `none` if the weight is ignored. -/
def Translator.translate (translator : Translator) (name : String) :
    Except ConvertError (Option String) :=
  if translator.ignored.run name.toList then .ok none
  else
    let name := if translator.cuts_model then cut_model name.toList else name.toList
    let found := translator.name_mapping_table.findSome? fun row =>
      (matchAt row.1 name).map fun groups => (format row.2 groups).map some
    found.getD (if translator.keeps_others then .ok (some (String.ofList name))
      else .error (.assertion
        s!"Cannot find a match for {String.ofList name} when translating name"))

def optNameTranslator : Translator where
  ignored := .equals "lm_head.weight".toList
  cuts_model := true
  name_mapping_table := [
    (text "decoder.final_layer_norm.weight", .plain "decoder.layer_norm.weight"),
    (text "decoder.final_layer_norm.bias", .plain "decoder.layer_norm.bias")]
  keeps_others := true

/-- `"decoder.layers.{layer}after"`. -/
def decoder_layer (after : String) : Template := .numbered "decoder.layers." after

def llama2NameTranslator : Translator where
  ignored := .finds (text "self_attn.rotary_emb.inv_freq")
  cuts_model := true
  name_mapping_table := [
    (layered "layers." ".self_attn.o_proj.weight", decoder_layer ".self_attn.out_proj.weight"),
    (layered "layers." ".mlp.gate_proj.weight", decoder_layer ".fc1.weight"),
    (layered "layers." ".mlp.down_proj.weight", decoder_layer ".fc2.weight"),
    (layered "layers." ".mlp.up_proj.weight", decoder_layer ".fc3.weight"),
    (layered "layers." ".input_layernorm.weight", decoder_layer ".self_attn_layer_norm.weight"),
    (layered "layers." ".post_attention_layernorm.weight",
      decoder_layer ".final_layer_norm.weight"),
    (layered "layers." ".attention.wqkv.weight", decoder_layer ".self_attn.qkv_proj.weight"),
    (text "embed_tokens.weight", .plain "decoder.embed_tokens.weight"),
    (text "lm_head.weight", .plain "decoder.output_projection.weight"),
    (text "norm.weight", .plain "decoder.layer_norm.weight")]
  keeps_others := false

def gpt2NameTranslator : Translator where
  ignored := .starts (layered "h." ".attn.bias")
  cuts_model := false
  name_mapping_table := [
    (layered "h." ".attn.c_proj.weight", decoder_layer ".self_attn.out_proj.weight"),
    (layered "h." ".attn.c_proj.bias", decoder_layer ".self_attn.out_proj.bias"),
    (layered "h." ".ln_1.weight", decoder_layer ".self_attn_layer_norm.weight"),
    (layered "h." ".ln_1.bias", decoder_layer ".self_attn_layer_norm.bias"),
    (layered "h." ".mlp.c_fc.weight", decoder_layer ".fc1.weight"),
    (layered "h." ".mlp.c_fc.bias", decoder_layer ".fc1.bias"),
    (layered "h." ".mlp.c_proj.weight", decoder_layer ".fc2.weight"),
    (layered "h." ".mlp.c_proj.bias", decoder_layer ".fc2.bias"),
    (layered "h." ".ln_2.weight", decoder_layer ".final_layer_norm.weight"),
    (layered "h." ".ln_2.bias", decoder_layer ".final_layer_norm.bias"),
    (layered "h." ".attn.c_attn.weight", decoder_layer ".self_attn.qkv_proj.weight"),
    (layered "h." ".attn.c_attn.bias", decoder_layer ".self_attn.qkv_proj.bias"),
    (text "wte.weight", .plain "decoder.embed_tokens.weight"),
    (text "wpe.weight", .plain "decoder.embed_positions.weight"),
    (text "ln_f.weight", .plain "decoder.layer_norm.weight"),
    (text "ln_f.bias", .plain "decoder.layer_norm.bias"),
    (text "decoder.output_projection.weight", .plain "decoder.output_projection.weight")]
  keeps_others := false

/-! ## Saver -/

/-- A file with a single tensor, whose key is `key`. -/
structure SavedFile (α : Type) where
  filename : String
  key : String
  tensor : Tensor α
deriving DecidableEq

/-- `os.path.join`. -/
def join (dir name : String) : String :=
  if name.startsWith "/" then name
  else if dir.isEmpty || dir.endsWith "/" then dir ++ name
  else dir ++ "/" ++ name

/-- The file of one of the eight shards. -/
def shard_filename (output_dir key : String) (i : Nat) : String :=
  join output_dir s!"{key}.tp_{i}.pt"

section

variable {α : Type}

def saveTensorToFile (filename key : String) (tensor : Tensor α) : SavedFile α :=
  ⟨filename, key, tensor⟩

/-- `tensors[i]`. -/
def item (tensors : List (Tensor α)) (i : Nat) : Except ConvertError (Tensor α) :=
  match tensors[i]? with
  | some tensor => .ok tensor
  | none => .error .index_error

def divideTensorAndStore (output_dir new_key : String) (value : Tensor α) (dim : Nat) :
    Except ConvertError (List (SavedFile α)) := do
  let n ← size value dim
  if n % 8 ≠ 0 then
    .error (.assertion (s!"Cannot divide {new_key} along dim={dim} because the size of the " ++
      "dimension is not divisible by 8"))
  else
    let pieces ← torch "split" (value.split dim (.every (n / 8)))
    pure (pieces.zipIdx.map fun x =>
      saveTensorToFile (shard_filename output_dir new_key x.2) new_key x.1)

/-- `q_heads_in_each_tensor` and `kv_heads_in_each_tensor`. -/
def heads_in_each_tensor (num_heads : Nat) : Tensor.SplitSize :=
  if num_heads % 8 = 0 then .every (num_heads / 8)
  else .sizes (List.replicate 7 (num_heads / 8) ++ [num_heads - num_heads / 8 * 7])

/-- The heads as a dimension of their own. -/
def qkvs_view (qkvs : Tensor α) (split_dim head_dim : Nat) : Except ConvertError (Tensor α) :=
  if split_dim = 1 then do
    let hidden_size ← size qkvs 0
    torch "view" (qkvs.view [some hidden_size, none, some head_dim])
  else torch "view" (qkvs.view [none, some head_dim])

/-- A tensor with fewer heads than `num_q_heads`, for which `num_kv_heads` of the source is
negative, is refused by the first `narrow`. -/
def storeQKVKernelOrBias (output_dir key : String) (qkvs : Tensor α)
    (split_dim head_dim num_q_heads : Nat) : Except ConvertError (List (SavedFile α)) := do
  let qkvs ← qkvs_view qkvs split_dim head_dim
  let n ← size qkvs split_dim
  let num_kv_heads := (n - num_q_heads) / 2
  let q_heads_in_each_tensor := heads_in_each_tensor num_q_heads
  let kv_heads_in_each_tensor := heads_in_each_tensor num_kv_heads
  let q ← torch "narrow" (qkvs.narrow split_dim 0 num_q_heads)
  let qs ← torch "split" (q.split split_dim q_heads_in_each_tensor)
  let k ← torch "narrow" (qkvs.narrow split_dim num_q_heads num_kv_heads)
  let ks ← torch "split" (k.split split_dim kv_heads_in_each_tensor)
  let v ← torch "narrow" (qkvs.narrow split_dim (num_q_heads + num_kv_heads) num_kv_heads)
  let vs ← torch "split" (v.split split_dim kv_heads_in_each_tensor)
  (List.range 8).mapM fun i => do
    let q ← item qs i
    let k ← item ks i
    let v ← item vs i
    let shard ← torch "cat" (Tensor.cat split_dim [q, k, v])
    pure (saveTensorToFile (shard_filename output_dir key i) key shard)

/-- How a weight is divided. -/
inductive Division
  | qkv (split_dim : Nat)
  | divided (dim : Nat)
  | replicated
deriving DecidableEq

def to_divide_by_dim0_regex : List Pattern := [
  layered "decoder.layers." ".fc1.weight",
  layered "decoder.layers." ".fc1.bias",
  layered "decoder.layers." ".fc3.weight",
  layered "decoder.layers." ".self_attn.out_proj.weight",
  layered "decoder.layers." ".self_attn.qkv_proj.bias"]

def to_divide_by_dim1_regex : List Pattern := [layered "decoder.layers." ".fc2.weight"]

def weight_or_bias : Piece := .words ["weight".toList, "bias".toList]

def to_replicate_regex : List Pattern := [
  text "decoder.embed_tokens.weight",
  text "decoder.embed_positions.weight",
  text "decoder.output_projection.weight",
  text "decoder.layer_norm." ++ [weight_or_bias],
  layered "decoder.layers." ".self_attn_layer_norm." ++ [weight_or_bias],
  layered "decoder.layers." ".final_layer_norm." ++ [weight_or_bias],
  layered "decoder.layers." ".self_attn.out_proj.bias",
  layered "decoder.layers." ".fc2.bias"]

/-- The tests of the loop of `divideWeightAndSave`, in their order. A regular expression is found
if one of its alternatives is. -/
def dispatch : List (List Test × Division) := [
  ([.contains "self_attn.qkv_proj.weight"], .qkv 1),
  ([.contains "self_attn.qkv_proj.bias"], .qkv 0),
  (to_divide_by_dim0_regex.map .finds, .divided 0),
  (to_divide_by_dim1_regex.map .finds, .divided 1),
  (to_replicate_regex.map .finds, .replicated)]

def division_of (new_key : String) : Option Division :=
  dispatch.findSome? fun row => if row.1.any (·.run new_key.toList) then some row.2 else none

/-- The files of one weight. -/
def save (output_dir new_key : String) (tensor : Tensor α) (num_q_heads head_dim : Nat) :
    Except ConvertError (List (SavedFile α)) :=
  match division_of new_key with
  | some (.qkv split_dim) =>
    storeQKVKernelOrBias output_dir new_key tensor split_dim head_dim num_q_heads
  | some (.divided dim) => divideTensorAndStore output_dir new_key tensor dim
  | some .replicated =>
    .ok [saveTensorToFile (join output_dir s!"{new_key}.pt") new_key tensor]
  | none =>
    .error (.assertion s!"Cannot find a match for {new_key} when dispatching tensors")

/-- One turn of the loop. -/
def saveTranslated (output_dir : String) (translator : Translator) (num_q_heads head_dim : Nat)
    (key : String) (tensor : Tensor α) : Except ConvertError (List (SavedFile α)) := do
  let new_key ← translator.translate key
  match new_key with
  | none => pure []
  | some new_key => save output_dir new_key tensor num_q_heads head_dim

def divideWeightAndSave (output_dir : String) (tensor_dict : TensorDict α)
    (name_translator : Translator) (num_q_heads head_dim : Nat) :
    Except ConvertError (List (SavedFile α)) := do
  let files ← tensor_dict.items.mapM fun x =>
    saveTranslated output_dir name_translator num_q_heads head_dim x.1 x.2
  pure files.flatten

end

end distserve.converter
