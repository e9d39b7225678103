-- What a preprocessor does to a state dict: each turn of a loop edits the weights of one layer.
import Mathlib.Data.List.Pairwise
import RecomputeOrMigrate.WeightNames

open calls dicts regex tensors

namespace distserve.converter

variable {α : Type}

/-! ## Columns -/

/-- Where a tensor comes from. -/
inductive Origin
  | weight (w : Template)
  | transposed (o : Origin)
  | sliced (k : Nat) (o : Origin)
  | merged (dim : Nat) (q k v : Origin)
deriving DecidableEq

/-- The tensor that a preprocessor makes of the weights of layer `i`. -/
def Origin.eval (d : TensorDict α) (i : Nat) : Origin → Option (Tensor α)
  | .weight w => d.get? (w.name i)
  | .transposed o => (o.eval d i).map Tensor.T
  | .sliced k o => (o.eval d i).bind (·.slice_from k)
  | .merged dim q k v => (q.eval d i).bind fun q => (k.eval d i).bind fun k =>
    (v.eval d i).bind fun v => Tensor.cat dim [q, k, v]

def Origin.weights : Origin → List Template
  | .weight w => [w]
  | .transposed o => o.weights
  | .sliced _ o => o.weights
  | .merged _ q k v => q.weights ++ k.weights ++ v.weights

/-- What is known of a tensor. -/
abbrev Entry := Shape × Origin

def Entry.transposed (e : Entry) : Entry := (e.1.reverse, .transposed e.2)

structure Entry.Fits (d₀ : TensorDict α) (s : Sizes) (i : Nat) (e : Entry) (t : Tensor α) :
    Prop where
  shape_eq : t.shape = e.1.map s.of
  eval_eq : e.2.eval d₀ i = some t

/-- The weights of one layer and those of no layer. -/
abbrev Column := Template → Option Entry

def column (weights : List (Template × Entry)) : Column := fun w => weights.lookup w

def kept (w : Template × Shape) : Template × Entry := (w.1, w.2, .weight w.1)

/-- The column after the edits, each of which replaces a weight or deletes it. -/
def edited (edits : List (Template × Option Entry)) (col : Column) : Column :=
  edits.foldl (fun col e => Function.update col e.1 e.2) col

theorem edited_append (edits : List (Template × Option Entry)) (w : Template)
    (e : Option Entry) (col : Column) :
    edited (edits ++ [(w, e)]) col = Function.update (edited edits col) w e := by
  rw [edited, List.foldl_append]
  rfl

variable {family ignored : List Template} {n m i : Nat} {s : Sizes} {pre post : Column}
  {edits : List (Template × Option Entry)} {d₀ d : TensorDict α} {w : Template} {e : Entry}

/-- What is known of a weight while the loop is at layer `m`: those before are done, and `edits` is
what is done of `m`. -/
def stage (pre post : Column) (m : Nat) (edits : List (Template × Option Entry)) (w : Template)
    (i : Nat) : Option Entry :=
  if i < m then post w else if i = m then edited edits pre w else pre w

/-- The state dict holds the weights of a stage, and else only ignored ones. -/
structure Holds (family ignored : List Template) (n : Nat) (s : Sizes) (d₀ : TensorDict α)
    (pre post : Column) (m : Nat) (edits : List (Template × Option Entry)) (d : TensorDict α) :
    Prop where
  fits : ∀ w ∈ family, ∀ i ∈ numbers n w,
    Option.Rel (Entry.Fits d₀ s i) (stage pre post m edits w i) (d.get? (w.name i))
  has_no_others : ∀ key ∈ d, (∃ w ∈ family, ∃ i ∈ numbers n w, key = w.name i) ∨
    ∃ w ∈ ignored, ∃ i ∈ numbers n w, key = w.name i

def in_layers : Template → Bool
  | .whole _ => false
  | .around _ _ => true

theorem mem_numbers (h : in_layers w = true) (hi : i < n) : i ∈ numbers n w := by
  cases w with
  | whole name => cases h
  | around before after => exact List.mem_range.mpr hi

theorem zero_mem_numbers (h : in_layers w = false) : 0 ∈ numbers n w := by
  cases w with
  | whole name => exact List.mem_singleton_self 0
  | around before after => cases h

theorem numbers_congr {w w' : Template} (h : in_layers w = in_layers w') :
    numbers n w = numbers n w' := by
  cases w <;> cases w' <;> first | rfl | cases h

/-- All names of the family differ. -/
def Distinct (family : List Template) : Prop :=
  family.Pairwise fun w w' => Template.apart w.letters w'.letters = true

theorem Distinct.name_inj (hfamily : Distinct family) {w w' : Template} (hw : w ∈ family)
    (hw' : w' ∈ family) {j : Nat} (hi : i ∈ numbers n w) (hj : j ∈ numbers n w')
    (h : w.name i = w'.name j) : w = w' ∧ i = j := by
  have hpair : family.Pairwise fun w w' => ∀ i j, w.name i ≠ w'.name j :=
    hfamily.imp fun h => Template.name_ne h
  have hsymm : Std.Symm fun w w' : Template => ∀ i j, w.name i ≠ w'.name j :=
    ⟨fun _ _ h i j heq => h j i heq.symm⟩
  have hsame : w = w' := by
    by_contra hne
    exact hpair.forall hw hw' hne i j h
  subst hsame
  refine ⟨rfl, ?_⟩
  cases w with
  | whole name => rw [List.mem_singleton.mp hi, List.mem_singleton.mp hj]
  | around before after => exact Template.around_inj h

theorem Distinct.nodup (hfamily : Distinct family) : family.Nodup := by
  refine List.Pairwise.imp ?_ hfamily
  rintro w w' h rfl
  exact Template.name_ne h 0 0 rfl

/-! ## One edit -/

theorem stage_start : stage pre post 0 [] w i = pre w := by
  unfold stage
  rw [if_neg (Nat.not_lt_zero i)]
  split_ifs <;> rfl

theorem stage_here : stage pre post m edits w m = edited edits pre w := by
  rw [stage, if_neg (Nat.lt_irrefl m), if_pos rfl]

theorem stage_append (e : Option Entry) (w' : Template) :
    stage pre post m (edits ++ [(w, e)]) w' i =
      if w' = w ∧ i = m then e else stage pre post m edits w' i := by
  unfold stage
  rw [edited_append, Function.update_apply]
  split_ifs <;> simp_all

/-- Three tensors that differ in one size are concatenated along it. -/
theorem cat_three {dim x y z : Nat} {a b c : Tensor α} (base : List Nat) (hdim : dim < base.length)
    (ha : a.shape = base.set dim x) (hb : b.shape = base.set dim y)
    (hc : c.shape = base.set dim z) :
    ∃ t, Tensor.cat dim [a, b, c] = some t ∧ t.shape = base.set dim (x + y + z) := by
  have hlen : ∀ n, dim < (base.set dim n).length := fun n => by rwa [List.length_set]
  have hsize : ∀ {t : Tensor α} {n : Nat}, t.shape = base.set dim n → t.size dim = n := by
    intro t n ht
    rw [Tensor.size, ht, List.getD_eq_getElem?_getD, List.getElem?_set_self hdim, Option.getD_some]
  have hbeside : ∀ {t : Tensor α} {n : Nat}, t.shape = base.set dim n → a.Beside dim t := by
    intro t n ht
    rw [Tensor.Beside, hsize ht, ha, List.set_set, ht]
  obtain ⟨t, ht, hbe, hcat⟩ := Tensor.cat_of_beside (List.cons_ne_nil a [b, c]) (ha ▸ hlen x)
    (List.forall_mem_cons.mpr ⟨hbeside ha, List.forall_mem_cons.mpr
      ⟨hbeside hb, List.forall_mem_singleton.mpr (hbeside hc)⟩⟩)
  refine ⟨t, ht, ?_⟩
  rw [hbe, hcat.size_eq, Tensor.total_cons, Tensor.total_cons, Tensor.total_cons, hsize ha,
    hsize hb, hsize hc, ha, List.set_set, ← Nat.add_assoc]
  rfl

/-- Three transposed tensors of the same width are concatenated side by side. -/
theorem cat_transposed {x y z width : Nat} {a b c : Tensor α} (ha : a.shape = [x, width])
    (hb : b.shape = [y, width]) (hc : c.shape = [z, width]) :
    ∃ t, Tensor.cat 1 [a.T, b.T, c.T] = some t ∧ t.shape = [width, x + y + z] := by
  have hT : ∀ {t : Tensor α} {n : Nat}, t.shape = [n, width] → t.T.shape = [width, 0].set 1 n := by
    intro t n ht
    rw [Tensor.shape_T, ht]
    rfl
  exact cat_three [width, 0] (Nat.lt_succ_self 1) (hT ha) (hT hb) (hT hc)

theorem edited_of_not_mem {col : Column} (h : w ∉ edits.map Prod.fst) :
    edited edits col w = col w := by
  induction edits generalizing col with
  | nil => rfl
  | cons e edits ih =>
    rw [List.map_cons, List.mem_cons, not_or] at h
    exact (ih h.2).trans (Function.update_of_ne h.1 _ _)

theorem Entry.Fits.transposed {t : Tensor α} (h : e.Fits d₀ s i t) :
    e.transposed.Fits d₀ s i t.T where
  shape_eq := by
    rw [Tensor.shape_T, h.shape_eq, Entry.transposed, List.map_reverse]
  eval_eq := by
    rw [Entry.transposed, Origin.eval, h.eval_eq, Option.map_some]

namespace Holds

theorem get (h : Holds family ignored n s d₀ pre post m edits d) (hw : w ∈ family)
    (hm : m ∈ numbers n w) (he : edited edits pre w = some e) :
    ∃ t, converter.get d (w.name m) = .ok t ∧ e.Fits d₀ s m t := by
  have hfits := h.fits w hw m hm
  rw [stage_here, he] at hfits
  unfold converter.get
  generalize d.get? (w.name m) = x at hfits ⊢
  cases hfits with
  | some hfits => exact ⟨_, rfl, hfits⟩

theorem set (h : Holds family ignored n s d₀ pre post m edits d) (hfamily : Distinct family)
    (hw : w ∈ family) (hm : m ∈ numbers n w) {t : Tensor α} (ht : e.Fits d₀ s m t) :
    Holds family ignored n s d₀ pre post m (edits ++ [(w, some e)]) (d.set (w.name m) t) where
  fits w' hw' i hi := by
    rw [Dict.get?_set, stage_append]
    by_cases hsame : w' = w ∧ i = m
    · rw [if_pos hsame, hsame.1, hsame.2, if_pos rfl]
      exact .some ht
    · rw [if_neg hsame, if_neg fun heq => hsame (hfamily.name_inj hw' hw hi hm heq)]
      exact h.fits w' hw' i hi
  has_no_others key hkey := by
    rw [Dict.mem_iff_isSome, Dict.get?_set] at hkey
    split_ifs at hkey with heq
    · exact .inl ⟨w, hw, m, hm, heq⟩
    · exact h.has_no_others key (Dict.mem_iff_isSome.mpr hkey)

theorem del (h : Holds family ignored n s d₀ pre post m edits d) (hfamily : Distinct family)
    (hw : w ∈ family) (hm : m ∈ numbers n w) (he : edited edits pre w = some e) :
    ∃ d', converter.del d (w.name m) = .ok d' ∧
      Holds family ignored n s d₀ pre post m (edits ++ [(w, none)]) d' := by
  have hmem : w.name m ∈ d := by
    have hfits := h.fits w hw m hm
    rw [stage_here, he] at hfits
    rw [Dict.mem_iff_isSome]
    generalize d.get? (w.name m) = x at hfits ⊢
    cases hfits
    rfl
  refine ⟨d.pop (w.name m), by rw [converter.del, if_pos hmem], ?_, ?_⟩
  · intro w' hw' i hi
    rw [Dict.get?_pop, stage_append]
    by_cases hsame : w' = w ∧ i = m
    · rw [if_pos hsame, hsame.1, hsame.2, if_pos rfl]
      exact .none
    · rw [if_neg hsame, if_neg fun heq => hsame (hfamily.name_inj hw' hw hi hm heq)]
      exact h.fits w' hw' i hi
  · intro key hkey
    rw [Dict.mem_iff_isSome, Dict.get?_pop] at hkey
    split_ifs at hkey with heq
    · cases hkey
    · exact h.has_no_others key (Dict.mem_iff_isSome.mpr hkey)

/-! ## The steps of the preprocessors -/

theorem transpose (h : Holds family ignored n s d₀ pre post m edits d) (hfamily : Distinct family)
    (hw : w ∈ family) (hm : m ∈ numbers n w) (he : edited edits pre w = some e) :
    ∃ d', converter.transpose d (w.name m) = .ok d' ∧
      Holds family ignored n s d₀ pre post m (edits ++ [(w, some e.transposed)]) d' := by
  obtain ⟨t, ht, hfits⟩ := h.get hw hm he
  refine ⟨d.set (w.name m) t.T, by rw [converter.transpose, ok_bind ht]; rfl, ?_⟩
  exact h.set hfamily hw hm hfits.transposed

theorem merge {q k v : Template} {eq ek ev : Entry} (merged : Template) (sizes : Shape) (dim : Nat)
    (f : Tensor α → Tensor α) (o : Origin → Origin)
    (h : Holds family ignored n s d₀ pre post m edits d) (hfamily : Distinct family)
    (hmem : ∀ w ∈ [merged, q, k, v], w ∈ family ∧ m ∈ numbers n w)
    (hne : [merged, q, k, v].Nodup) (hq : edited edits pre q = some eq)
    (hk : edited edits pre k = some ek) (hv : edited edits pre v = some ev)
    (ho : ∀ origin, (o origin).eval d₀ m = (origin.eval d₀ m).map f)
    (hcat : ∀ tq tk tv : Tensor α, tq.shape = eq.1.map s.of → tk.shape = ek.1.map s.of →
      tv.shape = ev.1.map s.of → ∃ t, Tensor.cat dim [f tq, f tk, f tv] = some t ∧
        t.shape = sizes.map s.of) :
    ∃ d', converter.merge d (merged.name m) (q.name m) (k.name m) (v.name m) dim f = .ok d' ∧
      Holds family ignored n s d₀ pre post m
        (edits ++ [(merged, some (sizes, .merged dim (o eq.2) (o ek.2) (o ev.2)))] ++ [(q, none)] ++
          [(k, none)] ++ [(v, none)]) d' := by
  simp only [List.mem_cons, List.not_mem_nil, or_false, forall_eq_or_imp, forall_eq] at hmem
  obtain ⟨hmerged, hqm, hkm, hvm⟩ := hmem
  simp only [List.nodup_cons, List.mem_cons, List.not_mem_nil, or_false, not_or] at hne
  obtain ⟨⟨hmq, hmk, hmv⟩, ⟨hqk, hqv⟩, hkv, -⟩ := hne
  obtain ⟨tq, htq, hsq⟩ := h.get hqm.1 hqm.2 hq
  obtain ⟨tk, htk, hsk⟩ := h.get hkm.1 hkm.2 hk
  obtain ⟨tv, htv, hsv⟩ := h.get hvm.1 hvm.2 hv
  obtain ⟨t, hcat, hts⟩ := hcat tq tk tv hsq.shape_eq hsk.shape_eq hsv.shape_eq
  have hfits : Entry.Fits d₀ s m (sizes, .merged dim (o eq.2) (o ek.2) (o ev.2)) t := by
    refine ⟨hts, ?_⟩
    rw [Origin.eval, ho, ho, ho, hsq.eval_eq, hsk.eval_eq, hsv.eval_eq]
    exact hcat
  have h₁ := h.set hfamily hmerged.1 hmerged.2 hfits
  obtain ⟨d₂, hd₂, h₂⟩ := h₁.del hfamily hqm.1 hqm.2
    (by rw [edited_append, Function.update_of_ne (Ne.symm hmq), hq])
  obtain ⟨d₃, hd₃, h₃⟩ := h₂.del hfamily hkm.1 hkm.2
    (by rw [edited_append, Function.update_of_ne (Ne.symm hqk), edited_append,
      Function.update_of_ne (Ne.symm hmk), hk])
  obtain ⟨d₄, hd₄, h₄⟩ := h₃.del hfamily hvm.1 hvm.2
    (by rw [edited_append, Function.update_of_ne (Ne.symm hkv), edited_append,
      Function.update_of_ne (Ne.symm hqv), edited_append, Function.update_of_ne (Ne.symm hmv), hv])
  refine ⟨d₄, ?_, h₄⟩
  rw [converter.merge, ok_bind htq, ok_bind htk, ok_bind htv, hcat, torch, ok_bind rfl,
    ok_bind hd₂, ok_bind hd₃, hd₄]

/-! ## Whole loops -/

theorem congr {pre' post' : Column} {m' : Nat} {edits' : List (Template × Option Entry)}
    (h : Holds family ignored n s d₀ pre post m edits d)
    (hstage : ∀ w ∈ family, ∀ i ∈ numbers n w,
      stage pre' post' m' edits' w i = stage pre post m edits w i) :
    Holds family ignored n s d₀ pre' post' m' edits' d where
  fits w hw i hi := by
    rw [hstage w hw i hi]
    exact h.fits w hw i hi
  has_no_others := h.has_no_others

/-- After the edits of a layer the loop is at the next one. -/
theorem next (h : Holds family ignored n s d₀ pre post m edits d)
    (hedited : ∀ w ∈ family, edited edits pre w = post w) :
    Holds family ignored n s d₀ pre post (m + 1) [] d := by
  refine h.congr fun w hw i _ => ?_
  unfold stage
  rcases Nat.lt_trichotomy i m with hlt | rfl | hgt
  · rw [if_pos hlt, if_pos (Nat.lt_succ_of_lt hlt)]
  · rw [if_neg (Nat.lt_irrefl i), if_pos rfl, if_pos (Nat.lt_succ_self i), hedited w hw]
  · have hafter : ¬ i < m + 1 := by omega
    have hbefore : ¬ i < m := by omega
    have hne : i ≠ m := by omega
    rw [if_neg hafter, if_neg hbefore, if_neg hne]
    split_ifs <;> rfl

/-- Edits of weights of no layer are those of the column. -/
theorem plain (post' : Column) (h : Holds family ignored n s d₀ pre post 0 edits d)
    (hplain : ∀ w ∈ edits.map Prod.fst, in_layers w = false) :
    Holds family ignored n s d₀ (edited edits pre) post' 0 [] d := by
  refine h.congr fun w _ i hi => ?_
  rw [stage_start, stage, if_neg (Nat.not_lt_zero i)]
  split_ifs with hzero
  · rfl
  · refine edited_of_not_mem fun hw => hzero ?_
    cases w with
    | whole name => exact List.mem_singleton.mp hi
    | around before after => cases hplain _ hw

/-- A loop over the layers leads from one column to another. -/
theorem loop {body : TensorDict α → Nat → Except ConvertError (TensorDict α)}
    {edits : List (Template × Option Entry)} (hedited : ∀ w ∈ family, edited edits pre w = post w)
    (hbody : ∀ m < n, ∀ d, Holds family ignored n s d₀ pre post m [] d →
      ∃ d', body d m = .ok d' ∧ Holds family ignored n s d₀ pre post m edits d')
    (h : Holds family ignored n s d₀ pre post 0 [] d) :
    ∃ d', (List.range n).foldlM body d = .ok d' ∧ Holds family ignored n s d₀ pre post n [] d' := by
  have hgo : ∀ k ≤ n, ∃ d', (List.range k).foldlM body d = .ok d' ∧
      Holds family ignored n s d₀ pre post k [] d' := by
    intro k hk
    induction k with
    | zero => exact ⟨d, rfl, h⟩
    | succ k ih =>
      obtain ⟨d', hrun, hd'⟩ := ih (Nat.le_of_succ_le hk)
      obtain ⟨d'', hstep, hd''⟩ := hbody k hk d' hd'
      refine ⟨d'', ?_, hd''.next hedited⟩
      rw [List.range_succ, List.foldlM_append, ok_bind hrun, List.foldlM_cons, ok_bind hstep]
      rfl
  exact hgo n (Nat.le_refl n)

/-- After the last layer the next loop begins. -/
theorem again (post' : Column) (hn : 1 ≤ n) (h : Holds family ignored n s d₀ pre post n [] d) :
    Holds family ignored n s d₀ post post' 0 [] d := by
  refine h.congr fun w _ i hi => ?_
  have hlt : i < n := by
    cases w with
    | whole name => rwa [List.mem_singleton.mp hi]
    | around before after => exact List.mem_range.mp hi
  rw [stage_start, stage, if_pos hlt]

/-- A loop over the items transposes the weights that a regular expression matches. -/
theorem transpose_matching {regex : Pattern} {p : Template → Bool} {mid : Column}
    (h : Holds family ignored n s d₀ pre mid 0 [] d)
    (hmatch : ∀ w ∈ family, (matchName regex w.letters).map Option.isSome = some (p w))
    (hpost : ∀ w ∈ family, post w = if p w then (pre w).map Entry.transposed else pre w)
    (post' : Column) :
    Holds family ignored n s d₀ post post' 0 [] (d.items.foldl (fun d x =>
      if (matchAt regex x.1.toList).isSome then d.set x.1 x.2.T else d) d) := by
  have hget := d.get?_foldl_items (fun key => (matchAt regex key.toList).isSome) Tensor.T
  constructor
  · intro w hw i hi
    have hmatches : (matchAt regex (w.name i).toList).isSome = p w := by
      obtain ⟨found, hfound, heq⟩ := Option.map_eq_some_iff.mp (hmatch w hw)
      rw [w.toList_name, matchAt_spell (digits_toDigits i) hfound, Option.isSome_map, heq]
    have hfits := h.fits w hw i hi
    rw [stage_start] at hfits
    rw [hget, hmatches, stage_start, hpost w hw]
    generalize pre w = x, d.get? (w.name i) = y at hfits ⊢
    cases p w with
    | true =>
      cases hfits with
      | none => exact .none
      | some hfits => exact .some hfits.transposed
    | false => simpa using hfits
  · intro key hkey
    rw [Dict.mem_iff_isSome, hget, Option.isSome_map] at hkey
    exact h.has_no_others key (Dict.mem_iff_isSome.mpr hkey)

end Holds

end distserve.converter
