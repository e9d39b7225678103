-- Each preprocessor leaves the weights of its family that the name translator knows.
import Mathlib.Tactic.Ring
import RecomputeOrMigrate.Preprocessing

open calls dicts regex tensors

namespace distserve.converter

variable {α : Type} {c : Checkpoint} {s : Sizes} {n : Nat} {d₀ d : TensorDict α}

theorem Checkpoint.family_distinct (c : Checkpoint) : Distinct c.family :=
  c.names_distinct.sublist (List.sublist_append_left _ _)

/-- What the preprocessor of a family returns. -/
def Preprocesses (c : Checkpoint) (s : Sizes) (n : Nat) (d : TensorDict α) : Prop :=
  ∃ d', c.preprocess d = .ok (d', s.num_q_heads, s.head_dim) ∧
    Remains c s n d d'

theorem preprocessed_eq {num_q_heads head_dim : Nat} (h : 0 < num_q_heads) :
    preprocessed d num_q_heads head_dim = .ok (d, num_q_heads, head_dim) := by
  rw [preprocessed, if_pos h]

/-! ## OPT -/

/-- The edits of `preprocess_opt` before its loop. -/
def opt_plain_edits (model : Bool) : List (Template × Option Entry) := [
  (.plain (prefix_of model ++ "decoder.embed_positions.weight"), some ([.positions, .hidden],
    .sliced 2 (.weight (.plain (prefix_of model ++ "decoder.embed_positions.weight"))))),
  (.plain "decoder.output_projection.weight", some ([.vocab, .hidden],
    .weight (.plain (prefix_of model ++ "decoder.embed_tokens.weight"))))]

/-- The weights that its loop begins with. -/
def opt_column (model : Bool) : Column :=
  edited (opt_plain_edits model) (column (Checkpoint.opt model).entries)

/-- The edits of one turn of its loop. -/
def opt_layer_edits (model : Bool) : List (Template × Option Entry) := [
  (opt_layer (prefix_of model) ".self_attn.out_proj.weight", some ([.hidden, .hidden],
    .transposed (.weight (opt_layer (prefix_of model) ".self_attn.out_proj.weight")))),
  (opt_layer "" ".self_attn.qkv_proj.weight", some ([.hidden, .qkv],
    .merged 1 (.transposed (.weight (opt_layer (prefix_of model) ".self_attn.q_proj.weight")))
      (.transposed (.weight (opt_layer (prefix_of model) ".self_attn.k_proj.weight")))
      (.transposed (.weight (opt_layer (prefix_of model) ".self_attn.v_proj.weight"))))),
  (opt_layer (prefix_of model) ".self_attn.q_proj.weight", none),
  (opt_layer (prefix_of model) ".self_attn.k_proj.weight", none),
  (opt_layer (prefix_of model) ".self_attn.v_proj.weight", none),
  (opt_layer "" ".self_attn.qkv_proj.bias", some ([.qkv],
    .merged 0 (.weight (opt_layer (prefix_of model) ".self_attn.q_proj.bias"))
      (.weight (opt_layer (prefix_of model) ".self_attn.k_proj.bias"))
      (.weight (opt_layer (prefix_of model) ".self_attn.v_proj.bias")))),
  (opt_layer (prefix_of model) ".self_attn.q_proj.bias", none),
  (opt_layer (prefix_of model) ".self_attn.k_proj.bias", none),
  (opt_layer (prefix_of model) ".self_attn.v_proj.bias", none)]

/-- What a turn of the loop reads, after the first of the edits. -/
def opt_layer_reads (model : Bool) : List (Nat × Template × Shape) := [
  (0, opt_layer (prefix_of model) ".self_attn.out_proj.weight", [.hidden, .hidden]),
  (1, opt_layer (prefix_of model) ".self_attn.q_proj.weight", [.hidden, .hidden]),
  (1, opt_layer (prefix_of model) ".self_attn.k_proj.weight", [.hidden, .hidden]),
  (1, opt_layer (prefix_of model) ".self_attn.v_proj.weight", [.hidden, .hidden]),
  (5, opt_layer (prefix_of model) ".self_attn.q_proj.bias", [.hidden]),
  (5, opt_layer (prefix_of model) ".self_attn.k_proj.bias", [.hidden]),
  (5, opt_layer (prefix_of model) ".self_attn.v_proj.bias", [.hidden])]

/-- What is read before the loop. -/
def opt_plain_reads (model : Bool) : List (Template × Shape) := [
  (opt_layer (prefix_of model) ".fc1.bias", [.ffn]),
  (.plain (prefix_of model ++ "decoder.final_layer_norm.weight"), [.hidden]),
  (.plain (prefix_of model ++ "decoder.embed_positions.weight"), [.all_positions, .hidden])]

/-- What is decided on the names of OPT. -/
structure OptFacts (model : Bool) : Prop where
  found : ∀ w ∈ (Checkpoint.opt model).weights.map Prod.fst ++ (Checkpoint.opt model).ignored,
    searchName (layered (prefix_of model ++ "decoder.layers.") ".fc1.weight") w.letters =
      some (if w = opt_layer (prefix_of model) ".fc1.weight" then some [[.number]] else none)
  matched : ∀ w ∈ (Checkpoint.opt model).weights.map Prod.fst ++ (Checkpoint.opt model).ignored,
    matchName (layered (prefix_of model ++ "decoder.layers.") ".fc1.weight") w.letters =
      some (if w = opt_layer (prefix_of model) ".fc1.weight" then some [[.number]] else none)
  detected : if model then
    ∀ w ∈ (Checkpoint.opt model).weights.map Prod.fst ++ (Checkpoint.opt model).ignored,
      Template.apart (Template.plain "decoder.embed_tokens.weight").letters w.letters = true
    else .plain "decoder.embed_tokens.weight" ∈ (Checkpoint.opt model).weights.map Prod.fst
  plain_mem : ∀ w ∈ (opt_plain_edits model).map Prod.fst,
    w ∈ (Checkpoint.opt model).family ∧ in_layers w = false
  layer_mem : ∀ w ∈ (opt_layer_edits model).map Prod.fst,
    w ∈ (Checkpoint.opt model).family ∧ in_layers w = true
  layer_nodup : ((opt_layer_edits model).map Prod.fst).Nodup
  plain_reads : ∀ read ∈ opt_plain_reads model, read ∈ (Checkpoint.opt model).weights
  tokens_mem : .plain (prefix_of model ++ "decoder.embed_tokens.weight") ∈
    (Checkpoint.opt model).family
  tokens_eq : edited ((opt_plain_edits model).take 1) (column (Checkpoint.opt model).entries)
    (.plain (prefix_of model ++ "decoder.embed_tokens.weight")) = some (kept
      (.plain (prefix_of model ++ "decoder.embed_tokens.weight"), [.vocab, .hidden])).2
  layer_reads : ∀ read ∈ opt_layer_reads model,
    edited ((opt_layer_edits model).take read.1) (opt_column model) read.2.1 =
      some (kept read.2).2
  edited_eq : ∀ w ∈ (Checkpoint.opt model).family,
    edited (opt_layer_edits model) (opt_column model) w =
      column (Checkpoint.opt model).preprocessed w

theorem opt_facts (model : Bool) : OptFacts model := by
  cases model <;> constructor <;>
  · simp only [Checkpoint.family, Checkpoint.weights, Checkpoint.added, Checkpoint.ignored,
      Checkpoint.entries, Checkpoint.preprocessed, opt_plain_edits, opt_column, opt_layer_edits,
      opt_plain_reads, opt_layer_reads, prefix_of, with_bias, opt_layer, layered, text,
      Template.plain, Template.numbered, String.toList_append, Template.toList_literal, if_true,
      if_false, Bool.false_eq_true]
    decide +kernel

theorem opt_counts (model : Bool) :
    Counts (layered (prefix_of model ++ "decoder.layers.") ".fc1.weight") (.opt model)
      (opt_layer (prefix_of model) ".fc1.weight") where
  mem := by
    cases model <;> simp [Checkpoint.weights, with_bias, prefix_of, opt_layer]
  numbers_eq _ := rfl
  found := (opt_facts model).found

theorem opt_sizes {model : Bool} (hs : (Checkpoint.opt model).HasSizes s) :
    s.of .hidden + s.of .hidden + s.of .hidden = s.of .qkv := by
  obtain ⟨-, hkv, hhidden⟩ := hs.heads
  simp only [Sizes.of]
  rw [hkv, hhidden]
  ring

theorem opt_layer_holds {model : Bool} (hs : (Checkpoint.opt model).HasSizes s) {m : Nat}
    (hm : m < n)
    (h : Holds (Checkpoint.opt model).family (Checkpoint.opt model).ignored n s d₀
      (opt_column model) (column (Checkpoint.opt model).preprocessed) m [] d) :
    ∃ d', preprocess_opt_layer (prefix_of model) d m = .ok d' ∧
      Holds (Checkpoint.opt model).family (Checkpoint.opt model).ignored n s d₀ (opt_column model)
        (column (Checkpoint.opt model).preprocessed) m (opt_layer_edits model) d' := by
  have hfamily := (Checkpoint.opt model).family_distinct
  have hreads := (opt_facts model).layer_reads
  simp only [opt_layer_reads, List.forall_mem_cons] at hreads
  obtain ⟨hout, hq, hk, hv, hqb, hkb, hvb, -⟩ := hreads
  have hlayer := (opt_facts model).layer_mem
  have hnodup := (opt_facts model).layer_nodup
  have hmem : ∀ w ∈ (opt_layer_edits model).map Prod.fst,
      w ∈ (Checkpoint.opt model).family ∧ m ∈ numbers n w := fun w hw =>
    ⟨(hlayer w hw).1, mem_numbers (hlayer w hw).2 hm⟩
  have hweight := (List.take_sublist 4 _).trans
    (List.drop_sublist 1 ((opt_layer_edits model).map Prod.fst))
  have hbias := List.drop_sublist 5 ((opt_layer_edits model).map Prod.fst)
  have hsizes := opt_sizes hs
  obtain ⟨d₁, hd₁, h₁⟩ := h.transpose hfamily (hmem _ (List.mem_cons_self ..)).1
    (List.mem_range.mpr hm) hout
  obtain ⟨d₂, hd₂, h₂⟩ := h₁.merge (opt_layer "" ".self_attn.qkv_proj.weight") [.hidden, .qkv] 1
    Tensor.T .transposed hfamily
    (fun w hw => hmem w (hweight.subset hw)) (hnodup.sublist hweight) hq hk hv (fun _ => rfl)
    fun tq tk tv htq htk htv => by
      rw [List.map_cons, List.map_singleton, ← hsizes]
      exact cat_transposed htq htk htv
  obtain ⟨d₃, hd₃, h₃⟩ := h₂.merge (opt_layer "" ".self_attn.qkv_proj.bias") [.qkv] 0 id id hfamily
    (fun w hw => hmem w (hbias.subset hw)) (hnodup.sublist hbias) hqb hkb hvb
    (fun _ => Option.map_id'.symm) fun tq tk tv htq htk htv => by
      rw [List.map_singleton, ← hsizes]
      exact cat_three [0] Nat.one_pos htq htk htv
  refine ⟨d₃, ?_, h₃⟩
  rw [preprocess_opt_layer, ok_bind hd₁, ok_bind hd₂, hd₃]

theorem head_dim_pos (n : Nat) : 0 < head_dim_of n := by
  unfold head_dim_of
  split_ifs <;> decide

theorem hidden_div_head_dim (hdim : s.head_dim = head_dim_of s.ffn)
    (hhidden : s.hidden = s.num_q_heads * s.head_dim) :
    s.of .hidden / s.head_dim = s.num_q_heads := by
  rw [Sizes.of, hhidden]
  exact Nat.mul_div_cancel _ (hdim ▸ head_dim_pos s.ffn)

theorem opt_preprocesses {model : Bool} (hs : (Checkpoint.opt model).HasSizes s) (hn : 1 ≤ n)
    (h : StateDict (.opt model) s n d) :
    Preprocesses (.opt model) s n d := by
  have hfamily := (Checkpoint.opt model).family_distinct
  have hreads := (opt_facts model).plain_reads
  simp only [opt_plain_reads, List.forall_mem_cons] at hreads
  obtain ⟨hfc1, hnorm, hpositions, -⟩ := hreads
  have hplain := (opt_facts model).plain_mem
  simp only [opt_plain_edits, List.map_cons, List.forall_mem_cons] at hplain
  obtain ⟨fc1_bias, hget₁, hfc1⟩ := h.get hfc1 (mem_numbers rfl hn)
  obtain ⟨layer_norm, hget₂, hnorm⟩ := h.get hnorm (zero_mem_numbers rfl)
  obtain ⟨embed_positions, hget₃, hpositions⟩ := h.get hpositions (zero_mem_numbers rfl)
  obtain ⟨positions, hslice, hsliced⟩ := Tensor.slice_from_of_shape hpositions.shape_eq
  have hfits : Entry.Fits d s 0 ([.positions, .hidden], .sliced 2 (.weight
      (.plain (prefix_of model ++ "decoder.embed_positions.weight")))) positions := by
    refine ⟨hsliced, ?_⟩
    have heval := hpositions.eval_eq
    rw [kept] at heval
    rw [Origin.eval, heval]
    exact hslice
  have h₁ := (h.holds (column (Checkpoint.opt model).preprocessed)).set hfamily hplain.1.1
    (zero_mem_numbers hplain.1.2) hfits
  obtain ⟨embed_tokens, hget₄, htokens⟩ := h₁.get (opt_facts model).tokens_mem
    (zero_mem_numbers rfl) (opt_facts model).tokens_eq
  have h₂ := h₁.set hfamily hplain.2.1.1 (zero_mem_numbers hplain.2.1.2) htokens
  have h₃ := h₂.plain (column (Checkpoint.opt model).preprocessed) fun w hw =>
    ((opt_facts model).plain_mem w hw).2
  obtain ⟨d', hloop, h'⟩ := h₃.loop (opt_facts model).edited_eq fun m hm d hd =>
    opt_layer_holds hs hm hd
  refine ⟨d', ?_, (h'.again (column []) hn).remains⟩
  have hdetects := h.detects (opt_facts model).detected (zero_mem_numbers rfl)
  simp only [Template.name_plain] at hget₂ hget₃ hget₄ hloop hdetects
  have hdim : head_dim_of (s.of .ffn) = s.head_dim := hs.heads.1.symm
  have hheads : s.of .hidden / s.head_dim = s.num_q_heads :=
    hidden_div_head_dim hs.heads.1 hs.heads.2.2
  rw [Checkpoint.preprocess, preprocess_opt]
  dsimp only
  rw [hdetects, ok_bind (num_layers_of_eq (opt_counts model) h hn (opt_facts model).matched),
    ok_bind hget₁, ok_bind (size_first hfc1.shape_eq), hdim, ok_bind hget₂,
    ok_bind (size_first hnorm.shape_eq), hheads, ok_bind hget₃, hslice, torch, ok_bind rfl,
    ok_bind hget₄, ok_bind hloop,
    preprocessed_eq hs.num_q_heads_pos]

/-! ## LLaMA -/

/-- The edits of one turn of the first loop of `preprocess_llama2`. -/
def llama_merge_edits (model : Bool) : List (Template × Option Entry) := [
  (llama_layer "" ".attention.wqkv.weight", some ([.hidden, .qkv],
    .merged 1 (.transposed (.weight (llama_layer (prefix_of model) ".self_attn.q_proj.weight")))
      (.transposed (.weight (llama_layer (prefix_of model) ".self_attn.k_proj.weight")))
      (.transposed (.weight (llama_layer (prefix_of model) ".self_attn.v_proj.weight"))))),
  (llama_layer (prefix_of model) ".self_attn.q_proj.weight", none),
  (llama_layer (prefix_of model) ".self_attn.k_proj.weight", none),
  (llama_layer (prefix_of model) ".self_attn.v_proj.weight", none)]

/-- The edit of one turn of its second loop. -/
def llama_transpose_edits (model : Bool) : List (Template × Option Entry) := [
  (llama_layer (prefix_of model) ".self_attn.o_proj.weight", some ([.q, .hidden],
    .transposed (.weight (llama_layer (prefix_of model) ".self_attn.o_proj.weight"))))]

/-- The weights that its second loop begins with. -/
def llama_column (model : Bool) : Column :=
  edited (llama_merge_edits model) (column (Checkpoint.llama model).entries)

/-- What is decided on the names of LLaMA. -/
structure LlamaFacts (model : Bool) : Prop where
  found : ∀ w ∈ (Checkpoint.llama model).weights.map Prod.fst ++ (Checkpoint.llama model).ignored,
    searchName (layered (prefix_of model ++ "layers.") ".self_attn.q_proj.weight") w.letters =
      some (if w = llama_layer (prefix_of model) ".self_attn.q_proj.weight" then
        some [[.number]] else none)
  matched : ∀ w ∈ (Checkpoint.llama model).weights.map Prod.fst ++ (Checkpoint.llama model).ignored,
    matchName (layered (prefix_of model ++ "layers.") ".self_attn.q_proj.weight") w.letters =
      some (if w = llama_layer (prefix_of model) ".self_attn.q_proj.weight" then
        some [[.number]] else none)
  detected : if model then
    ∀ w ∈ (Checkpoint.llama model).weights.map Prod.fst ++ (Checkpoint.llama model).ignored,
      Template.apart (Template.plain "embed_tokens.weight").letters w.letters = true
    else .plain "embed_tokens.weight" ∈ (Checkpoint.llama model).weights.map Prod.fst
  merge_mem : ∀ w ∈ (llama_merge_edits model).map Prod.fst,
    w ∈ (Checkpoint.llama model).family ∧ in_layers w = true
  merge_nodup : ((llama_merge_edits model).map Prod.fst).Nodup
  out_mem : llama_layer (prefix_of model) ".self_attn.o_proj.weight" ∈
    (Checkpoint.llama model).family
  out_eq : edited [] (llama_column model)
    (llama_layer (prefix_of model) ".self_attn.o_proj.weight") = some (kept
      (llama_layer (prefix_of model) ".self_attn.o_proj.weight", [.hidden, .q])).2
  edited_eq : ∀ w ∈ (Checkpoint.llama model).family,
    edited (llama_transpose_edits model) (llama_column model) w =
      column (Checkpoint.llama model).preprocessed w

theorem llama_facts (model : Bool) : LlamaFacts model := by
  cases model <;> constructor <;>
  · simp only [Checkpoint.family, Checkpoint.weights, Checkpoint.added, Checkpoint.ignored,
      Checkpoint.entries, Checkpoint.preprocessed, llama_merge_edits, llama_column,
      llama_transpose_edits, prefix_of, llama_layer, layered, text, Template.plain,
      Template.numbered, String.toList_append, Template.toList_literal, if_true, if_false,
      Bool.false_eq_true]
    decide +kernel

theorem llama_counts (model : Bool) :
    Counts (layered (prefix_of model ++ "layers.") ".self_attn.q_proj.weight") (.llama model)
      (llama_layer (prefix_of model) ".self_attn.q_proj.weight") where
  mem := by
    cases model <;> simp [Checkpoint.weights, prefix_of, llama_layer]
  numbers_eq _ := rfl
  found := (llama_facts model).found

theorem llama_reads (model : Bool) :
    (llama_layer (prefix_of model) ".self_attn.q_proj.weight", [.q, .hidden]) ∈
      (Checkpoint.llama model).weights ∧
    (llama_layer (prefix_of model) ".self_attn.k_proj.weight", [.kv, .hidden]) ∈
      (Checkpoint.llama model).weights ∧
    (llama_layer (prefix_of model) ".self_attn.v_proj.weight", [.kv, .hidden]) ∈
      (Checkpoint.llama model).weights := by
  simp [Checkpoint.weights, llama_layer]

theorem llama_sizes (s : Sizes) : s.of .q + s.of .kv + s.of .kv = s.of .qkv := by
  simp only [Sizes.of]
  ring

theorem llama_merge_holds {model : Bool} {m : Nat} (hm : m < n)
    (h : Holds (Checkpoint.llama model).family (Checkpoint.llama model).ignored n s d₀
      (column (Checkpoint.llama model).entries) (llama_column model) m [] d) :
    ∃ d', merge d ((llama_layer "" ".attention.wqkv.weight").name m)
        ((llama_layer (prefix_of model) ".self_attn.q_proj.weight").name m)
        ((llama_layer (prefix_of model) ".self_attn.k_proj.weight").name m)
        ((llama_layer (prefix_of model) ".self_attn.v_proj.weight").name m) 1 Tensor.T = .ok d' ∧
      Holds (Checkpoint.llama model).family (Checkpoint.llama model).ignored n s d₀
        (column (Checkpoint.llama model).entries) (llama_column model) m
        (llama_merge_edits model) d' := by
  obtain ⟨hq, hk, hv⟩ := llama_reads model
  have hlayer := (llama_facts model).merge_mem
  refine h.merge _ [.hidden, .qkv] 1 Tensor.T .transposed (Checkpoint.llama model).family_distinct
    (fun w hw => ⟨(hlayer w hw).1, mem_numbers (hlayer w hw).2 hm⟩)
    (llama_facts model).merge_nodup
    (Checkpoint.lookup_entries hq) (Checkpoint.lookup_entries hk) (Checkpoint.lookup_entries hv)
    (fun _ => rfl) fun tq tk tv htq htk htv => ?_
  rw [List.map_cons, List.map_singleton, ← llama_sizes s]
  exact cat_transposed htq htk htv

theorem llama_transpose_holds {model : Bool} {m : Nat} (hm : m < n)
    (h : Holds (Checkpoint.llama model).family (Checkpoint.llama model).ignored n s d₀
      (llama_column model) (column (Checkpoint.llama model).preprocessed) m [] d) :
    ∃ d', transpose d ((llama_layer (prefix_of model) ".self_attn.o_proj.weight").name m) = .ok d' ∧
      Holds (Checkpoint.llama model).family (Checkpoint.llama model).ignored n s d₀
        (llama_column model) (column (Checkpoint.llama model).preprocessed) m
        (llama_transpose_edits model) d' :=
  h.transpose (Checkpoint.llama model).family_distinct (llama_facts model).out_mem
    (mem_numbers rfl hm) (llama_facts model).out_eq

theorem llama_preprocesses {model : Bool} (hs : (Checkpoint.llama model).HasSizes s) (hn : 1 ≤ n)
    (h : StateDict (.llama model) s n d) :
    Preprocesses (.llama model) s n d := by
  obtain ⟨hreads, -, -⟩ := llama_reads model
  obtain ⟨q_weight, hget, hq⟩ := h.get hreads (mem_numbers rfl hn)
  obtain ⟨d₁, hloop₁, h₁⟩ := (h.holds (llama_column model)).loop (fun w hw => rfl)
    fun m hm d hd => llama_merge_holds hm hd
  have h₂ := h₁.again (column (Checkpoint.llama model).preprocessed) hn
  obtain ⟨d₂, hloop₂, h₃⟩ := h₂.loop (llama_facts model).edited_eq
    fun m hm d hd => llama_transpose_holds hm hd
  refine ⟨d₂, ?_, (h₃.again (column []) hn).remains⟩
  have hdetects := h.detects (llama_facts model).detected (zero_mem_numbers rfl)
  rw [Template.name_plain] at hdetects
  have hdim : s.head_dim = 128 := hs.heads
  have hdiv : s.of .q / 128 = s.num_q_heads := by
    rw [Sizes.of, hdim]
    exact Nat.mul_div_cancel _ (by decide)
  rw [Checkpoint.preprocess, preprocess_llama2]
  dsimp only
  rw [hdetects, ok_bind (num_layers_of_eq (llama_counts model) h hn (llama_facts model).matched),
    ok_bind hget, ok_bind (size_first hq.shape_eq), hdiv, ok_bind hloop₁, ok_bind hloop₂,
    preprocessed_eq hs.num_q_heads_pos, hdim]

/-! ## GPT-2 -/

/-- The weights that `preprocess_gpt2` transposes. -/
def gpt2_transposed : List Template :=
  [.numbered "h." ".mlp.c_fc.weight", .numbered "h." ".mlp.c_proj.weight"]

/-- The edit of `preprocess_gpt2` before its loop. -/
def gpt2_edits : List (Template × Option Entry) := [
  (.plain "decoder.output_projection.weight", some (kept
    (.plain "wte.weight", [.vocab, .hidden])).2)]

def gpt2_column : Column := edited gpt2_edits (column Checkpoint.gpt2.entries)

/-- What is decided on the names of GPT-2. -/
structure Gpt2Facts : Prop where
  found : ∀ w ∈ Checkpoint.gpt2.weights.map Prod.fst ++ Checkpoint.gpt2.ignored,
    searchName (layered "h." ".attn.c_attn.weight") w.letters =
      some (if w = .numbered "h." ".attn.c_attn.weight" then some [[.number]] else none)
  matched : ∀ w ∈ Checkpoint.gpt2.family,
    (matchName gpt2_mlp_weight w.letters).map Option.isSome = some (gpt2_transposed.contains w)
  output_mem : .plain "decoder.output_projection.weight" ∈ Checkpoint.gpt2.family
  edited_eq : ∀ w ∈ Checkpoint.gpt2.family, column Checkpoint.gpt2.preprocessed w =
    if gpt2_transposed.contains w then (gpt2_column w).map Entry.transposed else gpt2_column w

theorem gpt2_facts : Gpt2Facts := by
  constructor <;>
  · simp only [Checkpoint.family, Checkpoint.weights, Checkpoint.added, Checkpoint.ignored,
      Checkpoint.entries, Checkpoint.preprocessed, gpt2_transposed, gpt2_column, gpt2_edits,
      gpt2_mlp_weight, with_bias, layered, text, Template.plain, Template.numbered,
      String.toList_append, Template.toList_literal]
    decide +kernel

theorem gpt2_counts : Counts (layered "h." ".attn.c_attn.weight") .gpt2
    (.numbered "h." ".attn.c_attn.weight") where
  mem := by simp [Checkpoint.weights, with_bias]
  numbers_eq _ := rfl
  found := gpt2_facts.found

theorem gpt2_reads : (.numbered "h." ".mlp.c_fc.bias", [.ffn]) ∈ Checkpoint.gpt2.weights ∧
    (.plain "ln_f.weight", [.hidden]) ∈ Checkpoint.gpt2.weights ∧
    (.plain "wte.weight", [.vocab, .hidden]) ∈ Checkpoint.gpt2.weights := by
  simp [Checkpoint.weights, with_bias]

theorem gpt2_preprocesses (hs : Checkpoint.gpt2.HasSizes s) (hn : 1 ≤ n)
    (h : StateDict .gpt2 s n d) :
    Preprocesses .gpt2 s n d := by
  obtain ⟨hfc, hln, hwte⟩ := gpt2_reads
  obtain ⟨c_fc_bias, hget₁, hfc⟩ := h.get hfc (mem_numbers rfl hn)
  obtain ⟨ln_f, hget₂, hln⟩ := h.get hln (zero_mem_numbers rfl)
  obtain ⟨wte, hget₃, hwte⟩ := h.get hwte (zero_mem_numbers rfl)
  have h₁ := (h.holds (column [])).set Checkpoint.gpt2.family_distinct gpt2_facts.output_mem
    (zero_mem_numbers rfl) hwte
  have h₂ := h₁.plain (column []) fun w hw => by
    rw [List.mem_singleton.mp hw]
    rfl
  have h₃ := h₂.transpose_matching gpt2_facts.matched gpt2_facts.edited_eq (column [])
  refine ⟨_, ?_, h₃.remains⟩
  have hheads : s.of .hidden / s.head_dim = s.num_q_heads :=
    hidden_div_head_dim hs.heads.1 hs.heads.2.2
  have hdim : head_dim_of (s.of .ffn) = s.head_dim := hs.heads.1.symm
  simp only [Template.name_plain] at hget₂ hget₃
  rw [Checkpoint.preprocess, preprocess_gpt2]
  dsimp only
  rw [ok_bind (num_layers_found gpt2_counts h hn), ok_bind hget₁,
    ok_bind (size_first hfc.shape_eq), hdim, ok_bind hget₂, ok_bind (size_first hln.shape_eq),
    hheads, ok_bind hget₃, preprocessed_eq hs.num_q_heads_pos, Template.name_plain]

theorem preprocess_ok (hs : c.HasSizes s) (hn : 1 ≤ n)
    (h : StateDict c s n d) : Preprocesses c s n d :=
  match c with
  | .opt _ => opt_preprocesses hs hn h
  | .llama _ => llama_preprocesses hs hn h
  | .gpt2 => gpt2_preprocesses hs hn h

end distserve.converter
