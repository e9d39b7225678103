-- The shards of a weight, side by side, are the weight that was divided, and each head of it is in
-- exactly one shard.
import Mathlib.Tactic.Ring
import RecomputeOrMigrate.Converter

open calls tensors

namespace distserve.converter

/-! ## The heads of a shard -/

/-- The number of heads that shard `i` gets. -/
def heads_in_shard (num_heads i : Nat) : Nat :=
  match heads_in_each_tensor num_heads with
  | .every n => n
  | .sizes ns => ns.getD i 0

theorem heads_in_each_tensor_pieces {n : Nat} (h : 1 ≤ n) :
    (heads_in_each_tensor n).pieces n = some ((List.range 8).map (heads_in_shard n)) := by
  by_cases hn : n % 8 = 0
  · obtain ⟨m, rfl⟩ := Nat.dvd_of_mod_eq_zero hn
    have hm : m ≠ 0 := by omega
    have hdiv : 8 * m / m = 8 := Nat.mul_div_cancel 8 (Nat.pos_of_ne_zero hm)
    have heach : heads_in_each_tensor (8 * m) = .every m := by
      rw [heads_in_each_tensor, if_pos hn, Nat.mul_div_cancel_left m (by decide)]
    have hshard : heads_in_shard (8 * m) = fun _ => m := by
      funext i
      rw [heads_in_shard, heach]
    rw [heach, hshard, Tensor.SplitSize.pieces, if_neg (by omega), if_neg hm, hdiv,
      Nat.mul_mod_left, if_pos rfl]
    rfl
  · have heach : heads_in_each_tensor n =
        .sizes (List.replicate 7 (n / 8) ++ [n - n / 8 * 7]) := by
      rw [heads_in_each_tensor, if_neg hn]
    have hsum : (List.replicate 7 (n / 8) ++ [n - n / 8 * 7]).sum = n := by
      rw [List.sum_append, List.sum_replicate_nat, List.sum_singleton]
      omega
    have hshard : heads_in_shard n =
        ((List.replicate 7 (n / 8) ++ [n - n / 8 * 7]).getD · 0) := by
      funext i
      rw [heads_in_shard, heach]
    rw [heach, hshard, Tensor.SplitSize.pieces, if_pos hsum]
    rfl

variable {α : Type} {t whole p : Tensor α} {dim start n : Nat}

/-- The parts of the eight shards for the queries, the keys or the values. These are `n` heads
from `start` on, and `heads i` are those of shard `i`. -/
structure Parts (whole : Tensor α) (dim start n : Nat) (parts : Nat → Tensor α)
    (heads : Nat → List Nat) : Prop where
  pieces : whole.Pieces dim start ((List.range 8).map parts)
  total_eq : Tensor.total dim ((List.range 8).map parts) = n
  size_eq : ∀ i < 8, (parts i).size dim = heads_in_shard n i
  selects : ∀ i < 8, whole.Selects dim (heads i) (parts i)
  flatMap_heads : (List.range 8).flatMap heads = List.range' start n

theorem eq_map_range {β : Type} {xs : List β} {n : Nat} (h : xs.length = n) (d : β) :
    xs = (List.range n).map (xs.getD · d) := by
  refine List.ext_getElem (by simp [h]) fun i hi _ => ?_
  simp [List.getElem?_eq_getElem hi]

theorem parts_of_heads (hdim : dim < whole.shape.length) (hfits : start + n ≤ whole.size dim)
    (hn : 1 ≤ n) : ∃ p parts heads, whole.narrow dim start n = some p ∧
      p.split dim (heads_in_each_tensor n) = some ((List.range 8).map parts) ∧
      Parts whole dim start n parts heads := by
  obtain ⟨p, hp, hslice, hsize⟩ := Tensor.narrow_of_fits hdim hfits
  have hsizes : (heads_in_each_tensor n).pieces (p.size dim) =
      some ((List.range 8).map (heads_in_shard n)) := by
    rw [hsize, heads_in_each_tensor_pieces hn]
  obtain ⟨ps, hps, hpieces, hmap⟩ :=
    Tensor.split_of_pieces (hslice.beside.rank ▸ hdim) hsizes
  have hlen : ps.length = 8 := by
    simpa using congrArg List.length hmap
  have hwhole := hpieces.trans hslice
  rw [Nat.add_zero] at hwhole
  have hselects := hwhole.selects
  have hspans : (Tensor.spans start (ps.map (Tensor.size · dim))).length = 8 := by
    rw [hselects.length_eq, hlen]
  obtain ⟨parts, rfl⟩ : ∃ parts, ps = (List.range 8).map parts := ⟨_, eq_map_range hlen p⟩
  obtain ⟨heads, hheads⟩ : ∃ heads, Tensor.spans start (((List.range 8).map parts).map
      (Tensor.size · dim)) = (List.range 8).map heads := ⟨_, eq_map_range hspans []⟩
  have hsum := Tensor.SplitSize.sum_pieces hsizes
  rw [hsize] at hsum
  refine ⟨p, parts, heads, hp, hps, hwhole, (congrArg List.sum hmap).trans hsum, ?_, ?_, ?_⟩
  · intro i hi
    rw [List.map_map] at hmap
    exact List.map_inj_left.mp hmap i (List.mem_range.mpr hi)
  · intro i hi
    rw [hheads, List.forall₂_map_left_iff, List.forall₂_map_right_iff,
      List.forall₂_same] at hselects
    exact hselects i (List.mem_range.mpr hi)
  · rw [List.flatMap_def, ← hheads, Tensor.flatten_spans, hmap, hsum]

theorem item_map_range {parts : Nat → Tensor α} {i : Nat} (hi : i < 8) :
    item ((List.range 8).map parts) i = .ok (parts i) := by
  rw [item, List.getElem?_map, List.getElem?_range hi]
  rfl

/-! ## Resharding -/

/-- The shards are split into the parts of their heads, and all parts for the queries, then those
for the keys and then those for the values are concatenated to `whole`, which is `t` with its heads
as a dimension of their own. The heads of shard `i` are `heads i`. -/
structure Regrouped (t : Tensor α) (split_dim num_q_heads num_kv_heads : Nat)
    (shards qs ks vs : Nat → Tensor α) (whole : Tensor α) (heads : Nat → List Nat) : Prop where
  split_eq : ∀ i < 8, (shards i).split split_dim (.sizes [heads_in_shard num_q_heads i,
    heads_in_shard num_kv_heads i, heads_in_shard num_kv_heads i]) = some [qs i, ks i, vs i]
  cat_eq : Tensor.cat split_dim
    ((List.range 8).map qs ++ (List.range 8).map ks ++ (List.range 8).map vs) = some whole
  view_eq : whole.view (t.shape.map some) = some t
  selects : ∀ i < 8, whole.Selects split_dim (heads i) (shards i)
  heads_perm : ((List.range 8).flatMap heads).Perm (List.range (num_q_heads + 2 * num_kv_heads))

/-- The eight shards lose nothing of `t`. -/
def LosesNothing (t : Tensor α) (split_dim num_q_heads num_kv_heads : Nat)
    (shards : Nat → Tensor α) : Prop :=
  ∃ qs ks vs whole heads,
    Regrouped t split_dim num_q_heads num_kv_heads shards qs ks vs whole heads

/-- What the conversion of a QKV weight or bias writes loses nothing. -/
def Reshards (output_dir key : String) (t : Tensor α)
    (split_dim head_dim num_q_heads num_kv_heads : Nat) : Prop :=
  ∃ shards, storeQKVKernelOrBias output_dir key t split_dim head_dim num_q_heads =
      .ok ((List.range 8).map fun i =>
        saveTensorToFile (shard_filename output_dir key i) key (shards i)) ∧
    LosesNothing t split_dim num_q_heads num_kv_heads shards

section

variable {output_dir key : String} {split_dim head_dim num_q_heads num_kv_heads : Nat}
  {qs ks vs shards : Nat → Tensor α} {qheads kheads vheads : Nat → List Nat}

theorem Parts.beside {parts : Nat → Tensor α} {heads : Nat → List Nat} {i : Nat}
    (h : Parts whole dim start n parts heads) (hi : i < 8) : whole.Beside dim (parts i) :=
  h.pieces.beside _ (List.mem_map_of_mem (List.mem_range.mpr hi))

/-- The parts of one shard are concatenated. -/
theorem cat_parts {i : Nat} (hdim : split_dim < whole.shape.length)
    (hqs : Parts whole split_dim 0 num_q_heads qs qheads)
    (hks : Parts whole split_dim num_q_heads num_kv_heads ks kheads)
    (hvs : Parts whole split_dim (num_q_heads + num_kv_heads) num_kv_heads vs vheads) (hi : i < 8) :
    ∃ c, Tensor.cat split_dim [qs i, ks i, vs i] = some c ∧
      Tensor.IsCat split_dim [qs i, ks i, vs i] c := by
  have hbeside : ∀ p ∈ [qs i, ks i, vs i], whole.Beside split_dim p :=
    List.forall_mem_cons.mpr ⟨hqs.beside hi, List.forall_mem_cons.mpr
      ⟨hks.beside hi, List.forall_mem_singleton.mpr (hvs.beside hi)⟩⟩
  obtain ⟨c, hc, -, hcat⟩ := Tensor.cat_of_beside (List.cons_ne_nil _ _) hdim hbeside
  exact ⟨c, hc, hcat⟩

theorem regrouped_of_parts (hsize : whole.size split_dim = num_q_heads + 2 * num_kv_heads)
    (hview : whole.view (t.shape.map some) = some t)
    (hqs : Parts whole split_dim 0 num_q_heads qs qheads)
    (hks : Parts whole split_dim num_q_heads num_kv_heads ks kheads)
    (hvs : Parts whole split_dim (num_q_heads + num_kv_heads) num_kv_heads vs vheads)
    (hshards : ∀ i < 8, Tensor.IsCat split_dim [qs i, ks i, vs i] (shards i)) :
    Regrouped t split_dim num_q_heads num_kv_heads shards qs ks vs whole
      fun i => qheads i ++ (kheads i ++ vheads i) where
  split_eq i hi := by
    have hsplit := (hshards i hi).split
    rwa [List.map_cons, List.map_cons, List.map_singleton, hqs.size_eq i hi, hks.size_eq i hi,
      hvs.size_eq i hi] at hsplit
  cat_eq := by
    have hpieces : whole.Pieces split_dim 0
        ((List.range 8).map qs ++ (List.range 8).map ks ++ (List.range 8).map vs) := by
      rw [Tensor.pieces_append, Tensor.pieces_append, Tensor.total_append, hqs.total_eq,
        hks.total_eq, Nat.zero_add, Nat.zero_add]
      exact ⟨⟨hqs.pieces, hks.pieces⟩, hvs.pieces⟩
    refine hpieces.cat_whole (by simp) ?_
    rw [Tensor.total_append, Tensor.total_append, hqs.total_eq, hks.total_eq, hvs.total_eq, hsize]
    omega
  view_eq := hview
  selects i hi := by
    have hselects := (hshards i hi).selects
      (.cons (hqs.selects i hi) (.cons (hks.selects i hi) (.cons (hvs.selects i hi) .nil)))
    rwa [List.flatten_cons, List.flatten_cons, List.flatten_singleton] at hselects
  heads_perm := by
    have hq := @List.range'_append_1 0 num_q_heads (2 * num_kv_heads)
    rw [Nat.zero_add] at hq
    have hall : (List.range 8).flatMap qheads ++
        ((List.range 8).flatMap kheads ++ (List.range 8).flatMap vheads) =
        List.range (num_q_heads + 2 * num_kv_heads) := by
      rw [hqs.flatMap_heads, hks.flatMap_heads, hvs.flatMap_heads, List.range'_append_1,
        ← Nat.two_mul, hq, List.range_eq_range']
    rw [← hall]
    exact (List.flatMap_append_perm _ _ _).symm.trans
      ((List.flatMap_append_perm _ _ _).symm.append_left _)

/-- A tensor whose view has its heads along `split_dim` is divided without loss. -/
theorem reshards_of_view (hview : qkvs_view t split_dim head_dim = .ok whole)
    (hdata : whole.data = t.data) (hdim : split_dim < whole.shape.length)
    (hsize : whole.size split_dim = num_q_heads + 2 * num_kv_heads)
    (hq : 1 ≤ num_q_heads) (hkv : 1 ≤ num_kv_heads) :
    Reshards output_dir key t split_dim head_dim num_q_heads num_kv_heads := by
  obtain ⟨q, qs, qheads, hnq, hsq, hqs⟩ := parts_of_heads hdim
    (show 0 + num_q_heads ≤ whole.size split_dim by omega) hq
  obtain ⟨k, ks, kheads, hnk, hsk, hks⟩ := parts_of_heads hdim
    (show num_q_heads + num_kv_heads ≤ whole.size split_dim by omega) hkv
  obtain ⟨v, vs, vheads, hnv, hsv, hvs⟩ := parts_of_heads hdim
    (show num_q_heads + num_kv_heads + num_kv_heads ≤ whole.size split_dim by omega) hkv
  have hshards : ∀ i, ∃ c, i < 8 → Tensor.cat split_dim [qs i, ks i, vs i] = some c ∧
      Tensor.IsCat split_dim [qs i, ks i, vs i] c := fun i =>
    (em (i < 8)).elim (fun hi => (cat_parts hdim hqs hks hvs hi).imp fun _ h _ => h)
      fun hi => ⟨whole, fun h => absurd h hi⟩
  choose shards hshards using hshards
  refine ⟨shards, ?_, qs, ks, vs, whole, _, regrouped_of_parts hsize (Tensor.view_back hdata) hqs
    hks hvs fun i hi => (hshards i hi).2⟩
  have hnum : (whole.size split_dim - num_q_heads) / 2 = num_kv_heads := by omega
  have hwhole : size whole split_dim = .ok (whole.size split_dim) := by
    rw [size, if_pos hdim]
  rw [storeQKVKernelOrBias, ok_bind hview, ok_bind hwhole]
  dsimp only
  rw [hnum, hnq, torch, ok_bind rfl, hsq, torch, ok_bind rfl, hnk, torch, ok_bind rfl, hsk, torch,
    ok_bind rfl, hnv, torch, ok_bind rfl, hsv, torch, ok_bind rfl]
  refine mapM_ok fun i hi => ?_
  have hi := List.mem_range.mp hi
  rw [ok_bind (item_map_range hi), ok_bind (item_map_range hi), ok_bind (item_map_range hi),
    (hshards i hi).1]
  rfl

end

/-! ## The weights and biases -/

variable {output_dir key : String} {hidden_size head_dim num_q_heads num_kv_heads : Nat}

theorem weight_reshards (hhidden : 1 ≤ hidden_size) (hd : 1 ≤ head_dim) (hq : 1 ≤ num_q_heads)
    (hkv : 1 ≤ num_kv_heads)
    (ht : t.shape = [hidden_size, (num_q_heads + 2 * num_kv_heads) * head_dim]) :
    Reshards output_dir key t 1 head_dim num_q_heads num_kv_heads := by
  generalize hn : num_q_heads + 2 * num_kv_heads = n at ht
  have hdata : t.data.length = hidden_size * (n * head_dim) := by
    rw [t.length_data, ht]
    simp
  have hknown : Tensor.known [some hidden_size, none, some head_dim] = hidden_size * head_dim := by
    simp [Tensor.known]
  have hpos : hidden_size * head_dim ≠ 0 := (Nat.mul_pos hhidden hd).ne'
  obtain ⟨whole, hview, hshape, hwhole⟩ : ∃ whole,
      t.view [some hidden_size, none, some head_dim] = some whole ∧
      whole.shape = [hidden_size, n, head_dim] ∧ whole.data = t.data :=
    Tensor.view_inferred (by simp) (by rwa [hknown]) (by rw [hknown, hdata]; ring)
      (by rw [hdata]; simp)
  have hsize : size t 0 = .ok hidden_size := by
    rw [size, Tensor.size, ht]
    rfl
  refine reshards_of_view ?_ hwhole (by simp [hshape]) ?_ hq hkv
  · rw [qkvs_view, if_pos rfl, ok_bind hsize, hview]
    rfl
  · rw [Tensor.size, hshape, hn]
    rfl

theorem bias_reshards (hd : 1 ≤ head_dim) (hq : 1 ≤ num_q_heads) (hkv : 1 ≤ num_kv_heads)
    (ht : t.shape = [(num_q_heads + 2 * num_kv_heads) * head_dim]) :
    Reshards output_dir key t 0 head_dim num_q_heads num_kv_heads := by
  generalize hn : num_q_heads + 2 * num_kv_heads = n at ht
  have hdata : t.data.length = n * head_dim := by
    rw [t.length_data, ht]
    simp
  have hknown : Tensor.known [none, some head_dim] = head_dim := by simp [Tensor.known]
  obtain ⟨whole, hview, hshape, hwhole⟩ : ∃ whole, t.view [none, some head_dim] = some whole ∧
      whole.shape = [n, head_dim] ∧ whole.data = t.data :=
    Tensor.view_inferred (by simp) (by rw [hknown]; omega) (by rw [hknown, hdata])
      (by rw [hdata]; simp)
  refine reshards_of_view ?_ hwhole (by simp [hshape]) ?_ hq hkv
  · rw [qkvs_view, if_neg (by decide), hview]
    rfl
  · rw [Tensor.size, hshape, hn]
    rfl

/-- The pieces that `divideTensorAndStore` writes are concatenated to the tensor. There are eight
of them, unless the size along `dim` is 0. -/
def Divides (output_dir new_key : String) (t : Tensor α) (dim : Nat) : Prop :=
  ∃ pieces, divideTensorAndStore output_dir new_key t dim =
      .ok (pieces.zipIdx.map fun x =>
        saveTensorToFile (shard_filename output_dir new_key x.2) new_key x.1) ∧
    Tensor.cat dim pieces = some t ∧ (0 < t.size dim → pieces.length = 8)

theorem division_divides (hdim : dim < t.shape.length) (hsize : t.size dim % 8 = 0) :
    Divides output_dir key t dim := by
  obtain ⟨n, hn⟩ := Nat.dvd_of_mod_eq_zero hsize
  have hdiv : t.size dim / 8 = n := by omega
  obtain ⟨ns, hns, hne, hlen⟩ : ∃ ns, (Tensor.SplitSize.every n).pieces (t.size dim) = some ns ∧
      ns ≠ [] ∧ (0 < t.size dim → ns.length = 8) := by
    rcases Nat.eq_zero_or_pos n with rfl | hpos
    · rw [hn]
      exact ⟨[0], rfl, List.cons_ne_nil _ _, fun h => absurd h (by omega)⟩
    · refine ⟨List.replicate 8 n, ?_, by simp, fun _ => List.length_replicate⟩
      rw [hn, Tensor.SplitSize.pieces, if_neg (by omega), if_neg hpos.ne',
        Nat.mul_div_cancel _ hpos, Nat.mul_mod_left, if_pos rfl, List.append_nil]
  obtain ⟨pieces, hsplit, hpieces, rfl⟩ := Tensor.split_of_pieces hdim hns
  refine ⟨pieces, ?_, hpieces.cat_whole (by simpa using hne) (Tensor.SplitSize.sum_pieces hns),
    by simpa using hlen⟩
  have hsize' : size t dim = .ok (t.size dim) := by
    rw [size, if_pos hdim]
  rw [divideTensorAndStore, ok_bind hsize', if_neg (not_not.mpr hsize), hdiv, hsplit]
  rfl

/-- For every hidden size from 1 on, the shards of a QKV weight or bias lose nothing. -/
theorem the_shards_lose_nothing (output_dir key : String) (hhidden : 1 ≤ hidden_size)
    (hd : 1 ≤ head_dim) (hq : 1 ≤ num_q_heads) (hkv : 1 ≤ num_kv_heads) :
    (∀ t : Tensor α, t.shape = [hidden_size, (num_q_heads + 2 * num_kv_heads) * head_dim] →
      Reshards output_dir key t 1 head_dim num_q_heads num_kv_heads) ∧
    (∀ t : Tensor α, t.shape = [(num_q_heads + 2 * num_kv_heads) * head_dim] →
      Reshards output_dir key t 0 head_dim num_q_heads num_kv_heads) ∧
    ∀ (t : Tensor α) (dim : Nat), dim < t.shape.length → t.size dim % 8 = 0 →
      Divides output_dir key t dim :=
  ⟨fun _ => weight_reshards hhidden hd hq hkv, fun _ => bias_reshards hd hq hkv,
    fun _ _ => division_divides⟩

/-- Two heads of the queries and one each of the keys and values. -/
theorem four_heads_lose_nothing :
    Reshards "weights" "qkv" (⟨[1, 8], [1, 2, 3, 4, 5, 6, 7, 8], rfl⟩ : Tensor Nat) 1 2 2 1 :=
  (the_shards_lose_nothing "weights" "qkv" (Nat.le_refl 1) (by decide) (by decide) (by decide)).1 _
    rfl

/-- No size is inferred for the heads of a weight without elements. -/
theorem an_empty_weight_is_refused :
    ¬ ∀ hidden_size head_dim num_q_heads num_kv_heads : Nat, 1 ≤ head_dim → 1 ≤ num_q_heads →
      1 ≤ num_kv_heads → ∀ t : Tensor Nat,
      t.shape = [hidden_size, (num_q_heads + 2 * num_kv_heads) * head_dim] →
      Reshards "weights" "qkv" t 1 head_dim num_q_heads num_kv_heads := by
  intro h
  obtain ⟨shards, hshards, -⟩ := h 0 1 1 1 (by decide) (by decide) (by decide) ⟨[0, 3], [], rfl⟩ rfl
  have hrefused : storeQKVKernelOrBias "weights" "qkv" (⟨[0, 3], [], rfl⟩ : Tensor Nat) 1 1 1 =
      .error (.runtime_error "view") := rfl
  rw [hrefused] at hshards
  cases hshards

end distserve.converter
