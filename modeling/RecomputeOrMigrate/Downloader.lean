-- The cache of converted weights. Each worker asks for the weights of its model when it starts.
-- The workers of a machine share the folders on its disk, where one of them converts the weights
-- under a file lock, and may be killed at any time.
import RecomputeOrMigrate.Converter
import RecomputeOrMigrate.General.Runs

open calls dicts runs tensors

namespace distserve.downloader

open converter

/-! ## Names -/

def REPO_ID_SEPARATOR : String := "--"

def MODEL_REGISTRY : List String := ["opt", "llama", "gpt2"]

def repo_folder_name (repo_id : String) (repo_type : String) : String :=
  let parts := (repo_type.toList ++ ['s']) :: repo_id.toList.splitOn '/'
  String.ofList (REPO_ID_SEPARATOR.toList.intercalate parts)

/-- `model.replace("/", "-") + ".lock"`. -/
def lock_file_name (model : String) : String :=
  String.ofList (model.toList.map fun c => if c = '/' then '-' else c) ++ ".lock"

/-! ## One conversion -/

/-- A `torch.dtype`. -/
inductive Dtype
  | float16
  | float32
deriving DecidableEq

structure ModelConfig where
  /-- A name of the hub or a local folder. -/
  model : String
  dtype : String
  /-- `hf_config.model_type`. -/
  model_type : String
deriving DecidableEq

inductive DownloadError
  | assertion (text : String)
  /-- A variable without a value. -/
  | unbound_local (name : String)
  | system_exit (code : Nat)
  | conversion (e : ConvertError)
  /-- An exception of `snapshot_download`. -/
  | download (text : String)
deriving DecidableEq

/-- A file below a folder: the parts of its path, and the weights that `torch.load` reads from
it. -/
structure Listed (α : Type) where
  path : List String
  state_dict : Option (TensorDict α)

/-- What a machine has: its cache folders, the casts of its `torch`, and what the local folder
(`true`) or the snapshot (`false`) of a model may hold when it is read. -/
structure Host (α : Type) where
  default_cache : String
  DISTSERVE_CACHE : String
  /-- `tensor.to(dtype)`. -/
  cast : Dtype → Tensor α → Tensor α
  holds : String → Bool → List (Listed α) → Bool

section

variable {α : Type}

/-- A name that `*.bin` matches. -/
def is_bin (name : String) : Bool :=
  ".bin".toList.isSuffixOf name.toList && name.toList.head? != some '.'

/-- `glob` of the folder followed by this number of parts `*.bin`, and what `torch.load` reads from
each result: nothing if it is a folder. -/
def glob (parts : Nat) (files : List (Listed α)) : List (Option (TensorDict α)) :=
  files.filterMap fun file =>
    if parts ≤ file.path.length && (file.path.take parts).all is_bin then
      some (if file.path.length = parts then file.state_dict else none)
    else none

/-- The results of `glob` in `convert_weights`. The path of a model of the hub ends in `*.bin`
before `convert_weights` appends `*.bin` to it. -/
def bin_files (is_local : Bool) (files : List (Listed α)) : List (Option (TensorDict α)) :=
  glob (if is_local then 1 else 2) files

/-- `state_dict.update(loaded)`. -/
def update (state_dict loaded : TensorDict α) : TensorDict α :=
  loaded.items.foldl (fun d x => d.set x.1 x.2) state_dict

/-- The loop over the files. -/
def load (bin_files : List (Option (TensorDict α))) : Except DownloadError (TensorDict α) :=
  bin_files.foldlM (fun state_dict file =>
    match file with
    | some loaded => .ok (update state_dict loaded)
    | none => .error (.conversion (.runtime_error "load"))) Dict.empty

/-- The loop that changes the dtype. -/
def change_dtype (host : Host α) (dtype : Dtype) (state_dict : TensorDict α) : TensorDict α :=
  state_dict.items.foldl (fun d x => d.set x.1 (host.cast dtype x.2)) state_dict

def PREPROCESSOR :
    List (String × (TensorDict α → Except ConvertError (TensorDict α × Nat × Nat))) :=
  [("opt", preprocess_opt), ("llama", preprocess_llama2), ("gpt2", preprocess_gpt2)]

def NAME_TRANSLATOR : List (String × Translator) :=
  [("opt", optNameTranslator), ("llama", llama2NameTranslator), ("gpt2", gpt2NameTranslator)]

/-- `table[model]`. -/
def select {β : Type} (table : List (String × β)) (model : String) : Except ConvertError β :=
  match table.lookup model with
  | some entry => .ok entry
  | none => .error (.key_error model)

/-- `convert_weights` as far as the saver, with the arguments of it. -/
def prepare (host : Host α) (bin_files : List (Option (TensorDict α))) (dtype : Dtype)
    (model : String) : Except DownloadError (TensorDict α × Translator × Nat × Nat) := do
  if bin_files.isEmpty then .error (.system_exit 1)
  else
    let state_dict ← load bin_files
    let state_dict := change_dtype host dtype state_dict
    let preprocessor ← (select PREPROCESSOR model).mapError .conversion
    let (tensor_dict, num_q_heads, head_dim) ← (preprocessor state_dict).mapError .conversion
    let name_translator ← (select NAME_TRANSLATOR model).mapError .conversion
    pure (tensor_dict, name_translator, num_q_heads, head_dim)

/-- The files that a conversion leaves. -/
def convert_weights (host : Host α) (output : String) (bin_files : List (Option (TensorDict α)))
    (dtype : Dtype) (model : String) : Except DownloadError (List (SavedFile α)) := do
  let (tensor_dict, name_translator, num_q_heads, head_dim) ← prepare host bin_files dtype model
  (divideWeightAndSave output tensor_dict name_translator num_q_heads head_dim).mapError .conversion

/-! ## The conversion, file by file -/

/-- One of the eight files of `storeQKVKernelOrBias`, after what is the same for all of them. -/
def storeQKVShard (output_dir key : String) (qkvs : Tensor α) (split_dim head_dim num_q_heads : Nat)
    (i : Nat) : Except ConvertError (SavedFile α) := do
  let qkvs ← qkvs_view qkvs split_dim head_dim
  let n ← size qkvs split_dim
  let num_kv_heads := (n - num_q_heads) / 2
  let q_heads_in_each_tensor := heads_in_each_tensor num_q_heads
  let kv_heads_in_each_tensor := heads_in_each_tensor num_kv_heads
  let q ← torch "narrow" (qkvs.narrow split_dim 0 num_q_heads)
  let qs ← torch "split" (q.split split_dim q_heads_in_each_tensor)
  let k ← torch "narrow" (qkvs.narrow split_dim num_q_heads num_kv_heads)
  let ks ← torch "split" (k.split split_dim kv_heads_in_each_tensor)
  let v ← torch "narrow" (qkvs.narrow split_dim (num_q_heads + num_kv_heads) num_kv_heads)
  let vs ← torch "split" (v.split split_dim kv_heads_in_each_tensor)
  let q ← item qs i
  let k ← item ks i
  let v ← item vs i
  let shard ← torch "cat" (Tensor.cat split_dim [q, k, v])
  pure (saveTensorToFile (shard_filename output_dir key i) key shard)

/-- The files of one weight, up to the first exception. -/
def save_steps (output_dir new_key : String) (tensor : Tensor α) (num_q_heads head_dim : Nat) :
    List (Except ConvertError (SavedFile α)) :=
  match division_of new_key with
  | some (.qkv split_dim) => (List.range 8).map
      (storeQKVShard output_dir new_key tensor split_dim head_dim num_q_heads)
  | _ => each (save output_dir new_key tensor num_q_heads head_dim)

/-- One turn of the loop of `divideWeightAndSave`. -/
def translated_steps (output_dir : String) (translator : Translator) (num_q_heads head_dim : Nat)
    (key : String) (tensor : Tensor α) : List (Except ConvertError (SavedFile α)) :=
  match translator.translate key with
  | .error e => [.error e]
  | .ok none => []
  | .ok (some new_key) => save_steps output_dir new_key tensor num_q_heads head_dim

/-- What `convert_weights` does on the disk: it saves these files one after the other, up to the
first exception. -/
def convert_steps (host : Host α) (output : String) (bin_files : List (Option (TensorDict α)))
    (dtype : Dtype) (model : String) : List (Except DownloadError (SavedFile α)) :=
  match prepare host bin_files dtype model with
  | .error e => [.error e]
  | .ok (tensor_dict, name_translator, num_q_heads, head_dim) =>
    tensor_dict.items.flatMap fun x =>
      (translated_steps output name_translator num_q_heads head_dim x.1 x.2).map
        (·.mapError .conversion)

end

/-! ## The calls of a machine -/

/-- What a path leads to: a file that is being written, one with a tensor, or an empty one. -/
inductive Content (α : Type)
  | part
  | tensor (file : SavedFile α)
  | empty

/-- Where a call of `download_and_convert_weights` is. -/
inductive Phase (α : Type)
  /-- In `get_lock`. -/
  | waiting
  | entered
  /-- There is no file `done`. -/
  | loading (dtype : Dtype)
  /-- These steps of the conversion are left. -/
  | saving (steps : List (Except DownloadError (SavedFile α)))
  /-- The file is open. -/
  | writing (file : SavedFile α) (steps : List (Except DownloadError (SavedFile α)))
  /-- At the end of the `with`. -/
  | leaving (result : Except DownloadError String)
  | left (result : Except DownloadError String)
  /-- The process was killed. -/
  | killed

/-- The call is inside the `with`. -/
def Phase.inside {α : Type} : Phase α → Bool
  | .waiting | .left _ | .killed => false
  | _ => true

structure Process (α : Type) where
  model_config : ModelConfig
  phase : Phase α

/-- The disk, the file locks and the calls. Of the disk, `files` has the converted weights and the
files `done`: the folders themselves, the files of the locks and the snapshots are left out. -/
structure Cache (α : Type) where
  files : String → Option (Content α)
  holder : String → Option Nat
  calls : Nat → Option (Process α)

/-- A call that starts, or the next step of one. -/
inductive Action (α : Type)
  | call (p : Nat) (model_config : ModelConfig)
  | acquire (p : Nat)
  /-- The checks up to the one for the file `done`. -/
  | check (p : Nat)
  /-- The weights are read. What the folder holds is chosen by the environment. -/
  | load (p : Nat) (is_local : Bool) (files : List (Listed α))
  /-- `snapshot_download` raises. -/
  | fail_download (p : Nat) (text : String)
  /-- The next step of the conversion, or the file `done` after the last one. -/
  | save (p : Nat)
  | leave (p : Nat)
  /-- The process is killed, which releases its lock. -/
  | kill (p : Nat)

section

variable {α : Type} (host : Host α)

/-- The path of the lock of `get_lock`. -/
@[irreducible]
def get_lock (model : String) : String := join host.default_cache (lock_file_name model)

def storage_folder (model : String) : String :=
  join host.DISTSERVE_CACHE (repo_folder_name model "model") ++ "/"

def done_file (model : String) : String := join (storage_folder host model) "done"

def torch_dtype : List (String × Dtype) := [("fp16", .float16), ("fp32", .float32)]

/-- The checks of the `with`. The text of the exception for a dtype names `dtype`, which has no
value then, and the one for a model ends with the registry, in any order. -/
def check (files : String → Option (Content α)) (model_config : ModelConfig) : Phase α :=
  match torch_dtype.lookup model_config.dtype with
  | none => .leaving (.error (.unbound_local "dtype"))
  | some dtype =>
    if model_config.model_type ∉ MODEL_REGISTRY then
      .leaving (.error (.assertion s!"Unknown model {model_config.model_type}, expected one of"))
    else if (files (done_file host model_config.model)).isSome then
      .leaving (.ok (storage_folder host model_config.model))
    else .loading dtype

def Cache.set_phase (s : Cache α) (p : Nat) (model_config : ModelConfig) (phase : Phase α) :
    Cache α :=
  { s with calls := Function.update s.calls p (some ⟨model_config, phase⟩) }

def Cache.set_file (s : Cache α) (path : String) (content : Content α) : Cache α :=
  { s with files := Function.update s.files path (some content) }

def Cache.set_holder (s : Cache α) (lock : String) (p : Option Nat) : Cache α :=
  { s with holder := Function.update s.holder lock p }

section

variable (s : Cache α) (p : Nat) (model_config : ModelConfig) (phase : Phase α) (lock : String)
  (holder : Option Nat)

@[simp] theorem Cache.set_phase_files : (s.set_phase p model_config phase).files = s.files := rfl

@[simp] theorem Cache.set_phase_holder : (s.set_phase p model_config phase).holder = s.holder := rfl

@[simp] theorem Cache.set_phase_calls : (s.set_phase p model_config phase).calls =
    Function.update s.calls p (some ⟨model_config, phase⟩) := rfl

@[simp] theorem Cache.set_holder_files : (s.set_holder lock holder).files = s.files := rfl

@[simp] theorem Cache.set_holder_holder : (s.set_holder lock holder).holder =
    Function.update s.holder lock holder := rfl

@[simp] theorem Cache.set_holder_calls : (s.set_holder lock holder).calls = s.calls := rfl

end

/-- One step of the call `p`, which has these arguments and is in this phase. -/
def save_step (s : Cache α) (p : Nat) (model_config : ModelConfig) : Phase α → Option (Cache α)
  | .saving [] => some ((s.set_file (done_file host model_config.model) .empty).set_phase p
      model_config (.leaving (.ok (storage_folder host model_config.model))))
  | .saving (.error e :: _) => some (s.set_phase p model_config (.leaving (.error e)))
  | .saving (.ok file :: steps) =>
    some ((s.set_file file.filename .part).set_phase p model_config (.writing file steps))
  | .writing file steps =>
    some ((s.set_file file.filename (.tensor file)).set_phase p model_config (.saving steps))
  | _ => none

def call_step (s : Cache α) (p : Nat) (process : Process α) (action : Action α) :
    Option (Cache α) :=
  let model_config := process.model_config
  let lock := get_lock host model_config.model
  match action, process.phase with
  | .acquire _, .waiting =>
    if s.holder lock = none then
      some ((s.set_holder lock (some p)).set_phase p model_config .entered)
    else none
  | .check _, .entered => some (s.set_phase p model_config (check host s.files model_config))
  | .load _ is_local files, .loading dtype =>
    some (s.set_phase p model_config (.saving (convert_steps host
      (storage_folder host model_config.model) (bin_files is_local files) dtype
      model_config.model_type)))
  | .fail_download _ text, .loading _ =>
    some (s.set_phase p model_config (.leaving (.error (.download text))))
  | .save _, phase => save_step host s p model_config phase
  | .leave _, .leaving result =>
    some ((s.set_holder lock none).set_phase p model_config (.left result))
  | .kill _, .left _ => none
  | .kill _, .killed => none
  | .kill _, phase =>
    some ((if phase.inside then s.set_holder lock none else s).set_phase p model_config .killed)
  | _, _ => none

/-- The call that an action is about. -/
def Action.of : Action α → Nat
  | .call p _ | .acquire p | .check p | .load p _ _ | .fail_download p _ | .save p | .leave p
  | .kill p => p

def step (s : Cache α) (action : Action α) : Option (Cache α) :=
  match s.calls action.of, action with
  | none, .call p model_config => some (s.set_phase p model_config .waiting)
  | some process, action => call_step host s action.of process action
  | none, _ => none

/-- The disk of a machine on which nothing runs. -/
def Cache.init (files : String → Option (Content α)) : Cache α where
  files := files
  holder _ := none
  calls _ := none

/-- The calls of a machine in any order. -/
def machine : Machine Empty (Cache α) (Action α) := fun s action => (step host s action).map .ok

end

end distserve.downloader
