-- Tensors in row-major order: their views, their slices along one dimension, and the law that
-- the slices side by side are concatenated to what they were cut from.
import Mathlib.Algebra.BigOperators.Group.List.Basic
import Mathlib.Algebra.GroupWithZero.Nat
import Mathlib.Data.List.Basic

namespace tensors

/-! ## Blocks of a list -/

section blocks

variable {α : Type} {xs : List α} {w b n : Nat}

/-- The `b`-th of the blocks of `w` elements. -/
def block (w b : Nat) (xs : List α) : List α := (xs.drop (b * w)).take w

theorem flatMap_block_take (w n : Nat) (xs : List α) :
    (List.range n).flatMap (block w · xs) = xs.take (n * w) := by
  induction n with
  | zero => simp
  | succ n ih =>
    rw [List.range_succ, List.flatMap_append, ih, List.flatMap_singleton, block, Nat.succ_mul,
      List.take_add]

/-- The blocks of a list give the list back. -/
theorem flatMap_block (h : xs.length = n * w) : (List.range n).flatMap (block w · xs) = xs := by
  rw [flatMap_block_take, ← h, List.take_length]

theorem length_flatMap_range {f : Nat → List α} (h : ∀ b < n, (f b).length = w) :
    ((List.range n).flatMap f).length = n * w := by
  induction n with
  | zero => simp
  | succ n ih =>
    rw [List.range_succ, List.flatMap_append, List.length_append, List.flatMap_singleton,
      ih fun b hb => h b (Nat.lt_succ_of_lt hb), h n n.lt_succ_self, Nat.succ_mul]

theorem block_flatMap {f : Nat → List α} (h : ∀ b < n, (f b).length = w) (hb : b < n) :
    block w b ((List.range n).flatMap f) = f b := by
  induction n with
  | zero => omega
  | succ n ih =>
    have hinit : ∀ b < n, (f b).length = w := fun b hb => h b (Nat.lt_succ_of_lt hb)
    have hlen := length_flatMap_range hinit
    rw [List.range_succ, List.flatMap_append, List.flatMap_singleton]
    rcases Nat.lt_succ_iff_lt_or_eq.mp hb with hlt | rfl
    · have hfits : (b + 1) * w ≤ n * w := Nat.mul_le_mul_right w hlt
      rw [Nat.succ_mul] at hfits
      rw [← ih hinit hlt, block, block, List.drop_append_of_le_length (by omega),
        List.take_append_of_le_length (by rw [List.length_drop]; omega)]
    · rw [block, List.drop_left' hlen, List.take_of_length_le (Nat.le_of_eq (h b hb))]

theorem length_block (h : xs.length = n * w) (hb : b < n) : (block w b xs).length = w := by
  have hfits : (b + 1) * w ≤ n * w := Nat.mul_le_mul_right w hb
  rw [Nat.succ_mul] at hfits
  rw [block, List.length_take, List.length_drop]
  omega

end blocks

/-! ## Tensors -/

/-- The sizes of a tensor and its elements in row-major order. -/
structure Tensor (α : Type) where
  shape : List Nat
  data : List α
  length_data : data.length = shape.prod
deriving DecidableEq

namespace Tensor

variable {α : Type} {t p q c : Tensor α} {ps ps' : List (Tensor α)} {ns : List Nat}
  {dim start start' len b : Nat}

/-- The size along `dim`. -/
def size (t : Tensor α) (dim : Nat) : Nat := t.shape.getD dim 0

/-- The number of rows along `dim`, one for each index of the dimensions before it. -/
def outer (t : Tensor α) (dim : Nat) : Nat := (t.shape.take dim).prod

/-- The number of elements at one index of `dim` in a row. -/
def inner (t : Tensor α) (dim : Nat) : Nat := (t.shape.drop (dim + 1)).prod

def row (t : Tensor α) (dim b : Nat) : List α := block (t.size dim * t.inner dim) b t.data

theorem prod_shape (h : dim < t.shape.length) :
    t.shape.prod = t.outer dim * (t.size dim * t.inner dim) := by
  rw [outer, inner, size, ← List.prod_take_mul_prod_drop t.shape dim, List.drop_eq_getElem_cons h,
    List.prod_cons, List.getD_eq_getElem?_getD, List.getElem?_eq_getElem h, Option.getD_some]

theorem length_eq (h : dim < t.shape.length) :
    t.data.length = t.outer dim * (t.size dim * t.inner dim) := by
  rw [t.length_data, prod_shape h]

theorem flatMap_row (h : dim < t.shape.length) :
    (List.range (t.outer dim)).flatMap (t.row dim) = t.data := flatMap_block (length_eq h)

theorem length_row (h : dim < t.shape.length) (hb : b < t.outer dim) :
    (t.row dim b).length = t.size dim * t.inner dim := length_block (length_eq h) hb

theorem ext_data (hshape : p.shape = q.shape) (hdata : p.data = q.data) : p = q := by
  cases p
  cases q
  obtain rfl : _ = _ := hshape
  obtain rfl : _ = _ := hdata
  rfl

/-- Two tensors of one shape with the same rows are the same. -/
theorem ext_rows (h : dim < p.shape.length) (hshape : p.shape = q.shape)
    (hrows : ∀ b < p.outer dim, p.row dim b = q.row dim b) : p = q := by
  have houter : p.outer dim = q.outer dim := by rw [outer, outer, hshape]
  refine ext_data hshape ?_
  rw [← flatMap_row h, ← flatMap_row (hshape ▸ h), ← houter]
  exact List.flatMap_congr fun b hb => hrows b (List.mem_range.mp hb)

/-! ## Other rows along one dimension -/

/-- The other sizes of `p` are those of `t`. -/
def Beside (t : Tensor α) (dim : Nat) (p : Tensor α) : Prop :=
  p.shape = t.shape.set dim (p.size dim)

instance (t p : Tensor α) (dim : Nat) : Decidable (t.Beside dim p) :=
  inferInstanceAs (Decidable (p.shape = t.shape.set dim (p.size dim)))

theorem size_of_set {n : Nat} (h : dim < t.shape.length) (hp : p.shape = t.shape.set dim n) :
    p.size dim = n := by
  rw [size, hp, List.getD_eq_getElem?_getD, List.getElem?_set_self h, Option.getD_some]

theorem beside_of_set {n : Nat} (h : dim < t.shape.length) (hp : p.shape = t.shape.set dim n) :
    t.Beside dim p := by
  rw [Beside, size_of_set h hp, hp]

theorem Beside.refl (h : dim < t.shape.length) : t.Beside dim t := by
  rw [Beside, size, List.getD_eq_getElem?_getD, List.getElem?_eq_getElem h, Option.getD_some,
    List.set_getElem_self]

theorem Beside.rank (h : t.Beside dim p) : p.shape.length = t.shape.length := by
  rw [h, List.length_set]

theorem Beside.outer (h : t.Beside dim p) : p.outer dim = t.outer dim := by
  rw [Tensor.outer, Tensor.outer, h, List.take_set_of_le (Nat.le_refl dim)]

theorem Beside.inner (h : t.Beside dim p) : p.inner dim = t.inner dim := by
  rw [Tensor.inner, Tensor.inner, h, List.drop_set_of_lt (Nat.lt_succ_self dim)]

theorem Beside.trans (h : t.Beside dim p) (h' : p.Beside dim q) : t.Beside dim q := by
  rw [Beside, h', h, List.set_set]

theorem Beside.shape_eq (h : t.Beside dim p) (h' : t.Beside dim q)
    (hsize : p.size dim = q.size dim) : p.shape = q.shape := by
  rw [h, h', hsize]

/-- The tensor beside `t` with the given rows of `n` indices. -/
def with_rows (t : Tensor α) (dim n : Nat) (rows : Nat → List α)
    (h : dim < t.shape.length ∧ ∀ b < t.outer dim, (rows b).length = n * t.inner dim) :
    Tensor α where
  shape := t.shape.set dim n
  data := (List.range (t.outer dim)).flatMap rows
  length_data := by
    rw [length_flatMap_range h.2, List.prod_set, if_pos h.1, Tensor.outer, Tensor.inner, mul_assoc]

section with_rows

variable {n : Nat} {rows : Nat → List α}
  (h : dim < t.shape.length ∧ ∀ b < t.outer dim, (rows b).length = n * t.inner dim)

theorem size_with_rows : (t.with_rows dim n rows h).size dim = n := size_of_set h.1 rfl

theorem beside_with_rows : t.Beside dim (t.with_rows dim n rows h) := beside_of_set h.1 rfl

theorem row_with_rows (hb : b < t.outer dim) : (t.with_rows dim n rows h).row dim b = rows b := by
  rw [row, size_with_rows, (beside_with_rows h).inner]
  exact block_flatMap h.2 hb

end with_rows

/-! ## Slices along one dimension -/

/-- What a row holds at `len` indices of `dim` from `start` on. -/
def row_slice (t : Tensor α) (dim start len b : Nat) : List α :=
  ((t.row dim b).drop (start * t.inner dim)).take (len * t.inner dim)

theorem length_row_slice (h : dim < t.shape.length) (hfits : start + len ≤ t.size dim)
    (hb : b < t.outer dim) : (t.row_slice dim start len b).length = len * t.inner dim := by
  have hle : (start + len) * t.inner dim ≤ t.size dim * t.inner dim :=
    Nat.mul_le_mul_right _ hfits
  rw [Nat.add_mul] at hle
  rw [row_slice, List.length_take, List.length_drop, length_row h hb]
  omega

/-- `narrow(dim, start, len)`: it fails beyond the end. -/
def narrow (t : Tensor α) (dim start len : Nat) : Option (Tensor α) :=
  if h : dim < t.shape.length ∧ start + len ≤ t.size dim then
    some (t.with_rows dim len (t.row_slice dim start len)
      ⟨h.1, fun _ hb => length_row_slice h.1 h.2 hb⟩)
  else none

/-- `p` is what `t` holds along `dim` from the index `start` on. -/
structure IsSlice (t : Tensor α) (dim start : Nat) (p : Tensor α) : Prop where
  dim_lt : dim < t.shape.length
  fits : start + p.size dim ≤ t.size dim
  beside : t.Beside dim p
  row_eq : ∀ b < t.outer dim, p.row dim b = t.row_slice dim start (p.size dim) b

theorem narrow_of_fits (h : dim < t.shape.length) (hfits : start + len ≤ t.size dim) :
    ∃ p, t.narrow dim start len = some p ∧ t.IsSlice dim start p ∧ p.size dim = len := by
  have hrows : dim < t.shape.length ∧ ∀ b < t.outer dim,
      (t.row_slice dim start len b).length = len * t.inner dim :=
    ⟨h, fun b hb => length_row_slice h hfits hb⟩
  have hsize := size_with_rows hrows
  refine ⟨t.with_rows dim len _ hrows, by rw [narrow, dif_pos ⟨h, hfits⟩], ⟨h, ?_,
    beside_with_rows hrows, fun b hb => ?_⟩, hsize⟩
  · rwa [hsize]
  · rw [row_with_rows hrows hb, hsize]

/-- A slice is given by where it starts and how long it is. -/
theorem IsSlice.unique (hp : t.IsSlice dim start p) (hq : t.IsSlice dim start q)
    (hsize : p.size dim = q.size dim) : p = q := by
  refine ext_rows (hp.beside.rank ▸ hp.dim_lt) (hp.beside.shape_eq hq.beside hsize) fun b hb => ?_
  rw [hp.beside.outer] at hb
  rw [hp.row_eq b hb, hq.row_eq b hb, hsize]

theorem narrow_eq_some :
    t.narrow dim start len = some p ↔ t.IsSlice dim start p ∧ p.size dim = len := by
  constructor
  · intro h
    by_cases hfits : dim < t.shape.length ∧ start + len ≤ t.size dim
    · obtain ⟨q, hq, hslice⟩ := narrow_of_fits hfits.1 hfits.2
      obtain rfl : q = p := Option.some.inj (hq.symm.trans h)
      exact hslice
    · rw [narrow, dif_neg hfits] at h
      cases h
  · rintro ⟨hp, rfl⟩
    obtain ⟨q, hq, hslice, hsize⟩ := narrow_of_fits hp.dim_lt hp.fits
    rw [hq, hslice.unique hp hsize]

theorem IsSlice.refl (h : dim < t.shape.length) : t.IsSlice dim 0 t where
  dim_lt := h
  fits := Nat.le_of_eq (Nat.zero_add _)
  beside := .refl h
  row_eq b hb := by
    rw [row_slice, Nat.zero_mul, List.drop_zero,
      List.take_of_length_le (Nat.le_of_eq (length_row h hb))]

/-- A slice as long as the tensor is the tensor. -/
theorem IsSlice.eq_whole (h : t.IsSlice dim 0 p) (hsize : p.size dim = t.size dim) : p = t :=
  h.unique (.refl h.dim_lt) hsize

/-- A slice of a slice is a slice. -/
theorem IsSlice.trans (hp : t.IsSlice dim start p) (hq : p.IsSlice dim start' q) :
    t.IsSlice dim (start + start') q where
  dim_lt := hp.dim_lt
  fits := by
    have := hp.fits
    have := hq.fits
    omega
  beside := hp.beside.trans hq.beside
  row_eq b hb := by
    have hfits : (start' + q.size dim) * t.inner dim ≤ p.size dim * t.inner dim :=
      Nat.mul_le_mul_right _ hq.fits
    rw [Nat.add_mul] at hfits
    rw [hq.row_eq b (by rwa [hp.beside.outer]), row_slice, hp.row_eq b hb, hp.beside.inner,
      row_slice, row_slice, List.drop_take, List.take_take, List.drop_drop, Nat.add_mul,
      Nat.min_eq_left (by omega)]

/-- The part of a tensor that another slice of it covers is a slice of that slice. -/
theorem IsSlice.within (hp : t.IsSlice dim start p) (hq : t.IsSlice dim (start + start') q)
    (hfits : start' + q.size dim ≤ p.size dim) : p.IsSlice dim start' q := by
  have hrank : dim < p.shape.length := hp.beside.rank ▸ hp.dim_lt
  obtain ⟨r, -, hr, hsize⟩ := narrow_of_fits hrank hfits
  rwa [← (hp.trans hr).unique hq hsize]

/-! ## Slices side by side -/

/-- The tensors lie side by side in `t`, the first of them at `start`. -/
inductive Pieces (t : Tensor α) (dim : Nat) : Nat → List (Tensor α) → Prop
  | nil (start : Nat) : Pieces t dim start []
  | cons {start : Nat} {p : Tensor α} {ps : List (Tensor α)} (h : t.IsSlice dim start p)
      (hs : Pieces t dim (start + p.size dim) ps) : Pieces t dim start (p :: ps)

def total (dim : Nat) (ps : List (Tensor α)) : Nat := (ps.map (size · dim)).sum

theorem total_cons (dim : Nat) (p : Tensor α) (ps : List (Tensor α)) :
    total dim (p :: ps) = p.size dim + total dim ps := by
  simp [total]

theorem total_append (dim : Nat) (ps ps' : List (Tensor α)) :
    total dim (ps ++ ps') = total dim ps + total dim ps' := by
  simp [total]

theorem pieces_append :
    t.Pieces dim start (ps ++ ps') ↔
      t.Pieces dim start ps ∧ t.Pieces dim (start + total dim ps) ps' := by
  induction ps generalizing start with
  | nil => exact ⟨fun h => ⟨.nil start, h⟩, fun h => h.2⟩
  | cons p ps ih =>
    rw [List.cons_append, total_cons, ← Nat.add_assoc]
    constructor
    · intro h
      cases h with
      | cons h hs => exact ⟨.cons h (ih.mp hs).1, (ih.mp hs).2⟩
    · rintro ⟨h, hs'⟩
      cases h with
      | cons h hs => exact .cons h (ih.mpr ⟨hs, hs'⟩)

/-- The pieces of a slice are pieces of the tensor. -/
theorem Pieces.trans (hp : t.IsSlice dim start p) (h : p.Pieces dim start' ps) :
    t.Pieces dim (start + start') ps := by
  induction h with
  | nil => exact .nil _
  | cons h hs ih =>
    rw [← Nat.add_assoc] at ih
    exact .cons (hp.trans h) ih

/-- `n` pieces of the sizes `ns`, cut one after another. -/
def pieces (t : Tensor α) (dim : Nat) : Nat → List Nat → Option (List (Tensor α))
  | _, [] => some []
  | start, n :: ns => do
    let p ← t.narrow dim start n
    let ps ← t.pieces dim (start + n) ns
    pure (p :: ps)

theorem pieces_of_fits (h : dim < t.shape.length) (hfits : start + ns.sum ≤ t.size dim) :
    ∃ ps, t.pieces dim start ns = some ps ∧ t.Pieces dim start ps ∧ ps.map (size · dim) = ns := by
  induction ns generalizing start with
  | nil => exact ⟨[], rfl, .nil start, rfl⟩
  | cons n ns ih =>
    rw [List.sum_cons, ← Nat.add_assoc] at hfits
    obtain ⟨p, hp, hslice, rfl⟩ := narrow_of_fits h (Nat.le_trans (Nat.le_add_right _ _) hfits)
    obtain ⟨ps, hps, hpieces, rfl⟩ := ih hfits
    refine ⟨p :: ps, ?_, .cons hslice hpieces, rfl⟩
    rw [pieces, hp, Option.bind_eq_bind, Option.bind_some, hps]
    rfl

/-- Pieces are cut again by their sizes. -/
theorem Pieces.pieces_eq (h : t.Pieces dim start ps) :
    t.pieces dim start (ps.map (size · dim)) = some ps := by
  induction h with
  | nil => rfl
  | cons h hs ih =>
    rw [List.map_cons, pieces, narrow_eq_some.mpr ⟨h, rfl⟩, Option.bind_eq_bind, Option.bind_some,
      ih]
    rfl

theorem Pieces.beside (h : t.Pieces dim start ps) : ∀ p ∈ ps, t.Beside dim p := by
  induction h with
  | nil => simp
  | cons h hs ih => exact List.forall_mem_cons.mpr ⟨h.beside, ih⟩

theorem Pieces.fits (h : t.Pieces dim start ps) (hne : ps ≠ []) :
    start + total dim ps ≤ t.size dim := by
  induction h with
  | nil => contradiction
  | @cons start p ps h hs ih =>
    rw [total_cons, ← Nat.add_assoc]
    rcases eq_or_ne ps [] with rfl | hps
    · exact h.fits
    · exact ih hps

/-- A row of the pieces side by side is a row of what they cover. -/
theorem Pieces.rows (h : t.Pieces dim start ps) (hb : b < t.outer dim) :
    ps.flatMap (row · dim b) = t.row_slice dim start (total dim ps) b := by
  induction h with
  | nil => simp [total, row_slice]
  | cons h hs ih =>
    rw [List.flatMap_cons, h.row_eq b hb, ih, total_cons, row_slice, row_slice, row_slice,
      Nat.add_mul, Nat.add_mul, List.take_add, List.drop_drop]

/-! ## Concatenation -/

theorem length_rows (h : ∀ p ∈ ps, t.Beside dim p) (hdim : dim < t.shape.length)
    (hb : b < t.outer dim) : (ps.flatMap (row · dim b)).length = total dim ps * t.inner dim := by
  induction ps with
  | nil => simp [total]
  | cons p ps ih =>
    obtain ⟨hp, hps⟩ := List.forall_mem_cons.mp h
    rw [List.flatMap_cons, List.length_append, ih hps, total_cons, Nat.add_mul,
      length_row (hp.rank ▸ hdim) (by rwa [hp.outer]), hp.inner]

/-- `cat(ps, dim)`: the tensors side by side along `dim`, if the other sizes agree. -/
def cat (dim : Nat) : List (Tensor α) → Option (Tensor α)
  | [] => none
  | t :: ps =>
    if h : dim < t.shape.length ∧ ∀ p ∈ t :: ps, t.Beside dim p then
      some (t.with_rows dim (total dim (t :: ps)) (fun b => (t :: ps).flatMap (row · dim b))
        ⟨h.1, fun _ hb => length_rows h.2 h.1 hb⟩)
    else none

/-- The rows of a concatenation are the rows of its parts side by side. -/
structure IsCat (dim : Nat) (ps : List (Tensor α)) (c : Tensor α) : Prop where
  dim_lt : dim < c.shape.length
  beside : ∀ p ∈ ps, c.Beside dim p
  size_eq : c.size dim = total dim ps
  row_eq : ∀ b < c.outer dim, c.row dim b = ps.flatMap (row · dim b)

theorem Beside.symm (hdim : dim < t.shape.length) (h : t.Beside dim p) : p.Beside dim t := by
  rw [Beside, h, List.set_set]
  exact Beside.refl hdim

theorem cat_of_beside (hne : ps ≠ []) (hdim : dim < t.shape.length)
    (h : ∀ p ∈ ps, t.Beside dim p) :
    ∃ c, cat dim ps = some c ∧ t.Beside dim c ∧ IsCat dim ps c := by
  cases ps with
  | nil => contradiction
  | cons p ps =>
    have hp := h p List.mem_cons_self
    have hpdim : dim < p.shape.length := hp.rank ▸ hdim
    have hbeside : ∀ q ∈ p :: ps, p.Beside dim q := fun q hq => (hp.symm hdim).trans (h q hq)
    have hrows : dim < p.shape.length ∧ ∀ b < p.outer dim,
        ((p :: ps).flatMap (row · dim b)).length = total dim (p :: ps) * p.inner dim :=
      ⟨hpdim, fun b hb => length_rows hbeside hpdim hb⟩
    have hc := beside_with_rows hrows
    refine ⟨p.with_rows dim (total dim (p :: ps)) _ hrows, by rw [cat, dif_pos ⟨hpdim, hbeside⟩],
      hp.trans hc, hc.rank ▸ hpdim, fun q hq => (hc.symm hpdim).trans (hbeside q hq),
      size_with_rows hrows, fun b hb => ?_⟩
    rw [hc.outer] at hb
    exact row_with_rows hrows hb

/-- Pieces that lie side by side are concatenated to the slice they cover. -/
theorem Pieces.cat (h : t.Pieces dim start ps) (hne : ps ≠ []) :
    ∃ c, Tensor.cat dim ps = some c ∧ t.IsSlice dim start c ∧ c.size dim = total dim ps := by
  have hdim : dim < t.shape.length := by
    cases h with
    | nil => contradiction
    | cons h hs => exact h.dim_lt
  obtain ⟨c, hc, hbeside, hcat⟩ := cat_of_beside hne hdim h.beside
  refine ⟨c, hc, ⟨hdim, ?_, hbeside, fun b hb => ?_⟩, hcat.size_eq⟩
  · rw [hcat.size_eq]
    exact h.fits hne
  · rw [hcat.row_eq b (by rwa [hbeside.outer]), h.rows hb, hcat.size_eq]

/-- The parts of a concatenation lie side by side in it. -/
theorem IsCat.pieces (h : IsCat dim ps c) : c.Pieces dim 0 ps := by
  -- the parts in front of the first one that is looked at
  have hgo : ∀ front rest : List (Tensor α), ps = front ++ rest →
      c.Pieces dim (total dim front) rest := by
    intro front rest
    induction rest generalizing front with
    | nil => exact fun _ => .nil _
    | cons p rest ih =>
      intro heq
      have hp : p ∈ ps := by simp [heq]
      have hfront : ∀ q ∈ front, c.Beside dim q := fun q hq => h.beside q (by simp [heq, hq])
      refine .cons ⟨h.dim_lt, ?_, h.beside p hp, fun b hb => ?_⟩ ?_
      · rw [h.size_eq, heq, total_append, total_cons]
        omega
      · have hlen := length_row ((h.beside p hp).rank ▸ h.dim_lt) (b := b)
          (by rwa [(h.beside p hp).outer])
        rw [(h.beside p hp).inner] at hlen
        rw [row_slice, h.row_eq b hb, heq, List.flatMap_append, List.flatMap_cons,
          List.drop_left' (length_rows hfront h.dim_lt hb), List.take_left' hlen]
      · have hnext := ih (front ++ [p]) (by rw [heq, List.append_assoc]; rfl)
        rwa [total_append, total_cons] at hnext
  exact hgo [] ps rfl

/-! ## Splitting -/

/-- The second argument of `split`: the size of each piece, or the sizes of all. -/
inductive SplitSize
  | every (n : Nat)
  | sizes (ns : List Nat)
deriving DecidableEq

/-- The sizes of the pieces of a dimension of `size`. A last piece may be smaller than the others,
a dimension of size 0 is one piece, and no other dimension is cut into pieces of size 0. -/
def SplitSize.pieces (size : Nat) : SplitSize → Option (List Nat)
  | .every n =>
    if size = 0 then some [0]
    else if n = 0 then none
    else some (List.replicate (size / n) n ++ (if size % n = 0 then [] else [size % n]))
  | .sizes ns => if ns.sum = size then some ns else none

def split (t : Tensor α) (dim : Nat) (s : SplitSize) : Option (List (Tensor α)) :=
  if dim < t.shape.length then do
    let ns ← s.pieces (t.size dim)
    t.pieces dim 0 ns
  else none

theorem SplitSize.sum_pieces {size : Nat} {s : SplitSize} (h : s.pieces size = some ns) :
    ns.sum = size := by
  cases s with
  | every n =>
    by_cases hsize : size = 0
    · rw [SplitSize.pieces, if_pos hsize] at h
      rw [← Option.some.inj h, hsize]
      rfl
    · by_cases hn : n = 0
      · rw [SplitSize.pieces, if_neg hsize, if_pos hn] at h
        cases h
      · rw [SplitSize.pieces, if_neg hsize, if_neg hn] at h
        rw [← Option.some.inj h, List.sum_append, List.sum_replicate_nat]
        have hdiv := Nat.div_add_mod' size n
        by_cases hmod : size % n = 0
        · rw [if_pos hmod, List.sum_nil]
          omega
        · rw [if_neg hmod, List.sum_singleton]
          omega
  | sizes ms =>
    by_cases hsum : ms.sum = size
    · rw [SplitSize.pieces, if_pos hsum] at h
      rw [← Option.some.inj h, hsum]
    · rw [SplitSize.pieces, if_neg hsum] at h
      cases h

theorem split_of_pieces {s : SplitSize} (hdim : dim < t.shape.length)
    (h : s.pieces (t.size dim) = some ns) :
    ∃ ps, t.split dim s = some ps ∧ t.Pieces dim 0 ps ∧ ps.map (Tensor.size · dim) = ns := by
  have hfits : 0 + ns.sum ≤ t.size dim := by
    rw [SplitSize.sum_pieces h]
    omega
  obtain ⟨ps, hps, hpieces, hns⟩ := pieces_of_fits hdim hfits
  refine ⟨ps, ?_, hpieces, hns⟩
  rw [split, if_pos hdim, h, Option.bind_eq_bind, Option.bind_some, hps]

/-- A concatenation is split into its parts by their sizes. -/
theorem IsCat.split (h : IsCat dim ps c) :
    c.split dim (.sizes (ps.map (Tensor.size · dim))) = some ps := by
  have hsum : (ps.map (Tensor.size · dim)).sum = c.size dim := h.size_eq.symm
  rw [Tensor.split, if_pos h.dim_lt, SplitSize.pieces, if_pos hsum, Option.bind_eq_bind,
    Option.bind_some, h.pieces.pieces_eq]

/-- The pieces of a split are concatenated to the tensor. -/
theorem Pieces.cat_whole (h : t.Pieces dim 0 ps) (hne : ps ≠ [])
    (htotal : total dim ps = t.size dim) : Tensor.cat dim ps = some t := by
  obtain ⟨c, hc, hslice, hsize⟩ := h.cat hne
  rw [hc, hslice.eq_whole (hsize.trans htotal)]

/-! ## The indices of a slice -/

/-- The indices of `dim` of `p` are the indices `js` of `t`, in this order. -/
structure Selects (t : Tensor α) (dim : Nat) (js : List Nat) (p : Tensor α) : Prop where
  size_eq : p.size dim = js.length
  index_eq : ∀ i j, js[i]? = some j → p.narrow dim i 1 = t.narrow dim j 1

theorem IsSlice.narrow_eq {i : Nat} (h : t.IsSlice dim start p) (hi : i < p.size dim) :
    p.narrow dim i 1 = t.narrow dim (start + i) 1 := by
  have hfits : i + 1 ≤ p.size dim := hi
  obtain ⟨q, hq, hslice, hsize⟩ := narrow_of_fits (h.beside.rank ▸ h.dim_lt) hfits
  rw [hq, narrow_eq_some.mpr ⟨h.trans hslice, hsize⟩]

theorem IsSlice.selects (h : t.IsSlice dim start p) :
    t.Selects dim (List.range' start (p.size dim)) p where
  size_eq := List.length_range'.symm
  index_eq i j hj := by
    obtain ⟨hi, rfl⟩ := List.getElem?_eq_some_iff.mp hj
    rw [List.length_range'] at hi
    rw [List.getElem_range', Nat.one_mul, h.narrow_eq hi]

/-- The indices of pieces of the sizes `ns` that lie side by side. -/
def spans : Nat → List Nat → List (List Nat)
  | _, [] => []
  | start, n :: ns => List.range' start n :: spans (start + n) ns

theorem flatten_spans (start : Nat) (ns : List Nat) :
    (spans start ns).flatten = List.range' start ns.sum := by
  induction ns generalizing start with
  | nil => rfl
  | cons n ns ih =>
    rw [spans, List.flatten_cons, ih, List.sum_cons, ← List.range'_append_1]

theorem Pieces.selects (h : t.Pieces dim start ps) :
    List.Forall₂ (t.Selects dim) (spans start (ps.map (Tensor.size · dim))) ps := by
  induction h with
  | nil => exact .nil
  | cons h hs ih => exact .cons h.selects ih

/-- A concatenation has the indices of its parts, one part after another. -/
theorem IsCat.selects {jss : List (List Nat)} (h : IsCat dim ps c)
    (hjs : List.Forall₂ (t.Selects dim) jss ps) : t.Selects dim jss.flatten c := by
  have hgo : ∀ start ps, c.Pieces dim start ps → ∀ jss, List.Forall₂ (t.Selects dim) jss ps →
      ∀ i j, jss.flatten[i]? = some j → c.narrow dim (start + i) 1 = t.narrow dim j 1 := by
    intro start ps hps
    induction hps with
    | nil =>
      intro jss hjs i j hj
      cases hjs
      cases hj
    | @cons start p ps hp hs ih =>
      intro jss hjs i j hj
      cases hjs with
      | @cons js _ jss _ hsel hrest =>
        rw [List.flatten_cons] at hj
        rcases Nat.lt_or_ge i js.length with hi | hi
        · rw [List.getElem?_append_left hi] at hj
          rw [← hp.narrow_eq (hsel.size_eq ▸ hi), hsel.index_eq i j hj]
        · rw [List.getElem?_append_right hi] at hj
          rw [← ih jss hrest _ j hj, hsel.size_eq]
          congr 1
          omega
  have hlen : total dim ps = jss.flatten.length := by
    clear hgo h
    induction hjs with
    | nil => rfl
    | cons hsel _ ih => rw [total_cons, List.flatten_cons, List.length_append, hsel.size_eq, ih]
  refine ⟨h.size_eq.trans hlen, fun i j hj => ?_⟩
  rw [← hgo 0 ps h.pieces jss hjs i j hj, Nat.zero_add]

/-! ## Transposition -/

/-- The indices of the elements, in row-major order. -/
def indices : List Nat → List (List Nat)
  | [] => [[]]
  | n :: ns => (List.range n).flatMap fun i => (indices ns).map (i :: ·)

/-- The place of the element with an index. -/
def offset : List Nat → List Nat → Nat
  | _ :: ns, i :: is => i * ns.prod + offset ns is
  | _, _ => 0

theorem mem_indices {ns is : List Nat} : is ∈ indices ns ↔ List.Forall₂ (· < ·) is ns := by
  induction ns generalizing is with
  | nil => simp [indices]
  | cons n ns ih =>
    rw [indices, List.mem_flatMap]
    constructor
    · rintro ⟨i, hi, hmem⟩
      obtain ⟨is, his, rfl⟩ := List.mem_map.mp hmem
      exact .cons (List.mem_range.mp hi) (ih.mp his)
    · intro h
      cases h with
      | cons hi his =>
        exact ⟨_, List.mem_range.mpr hi, List.mem_map.mpr ⟨_, ih.mpr his, rfl⟩⟩

theorem length_indices (ns : List Nat) : (indices ns).length = ns.prod := by
  induction ns with
  | nil => rfl
  | cons n ns ih =>
    rw [indices, length_flatMap_range fun i _ => by rw [List.length_map, ih], List.prod_cons]

theorem offset_lt {ns is : List Nat} (h : List.Forall₂ (· < ·) is ns) : offset ns is < ns.prod := by
  induction h with
  | nil => exact Nat.zero_lt_one
  | @cons i n is ns hi _ ih =>
    rw [offset, List.prod_cons]
    calc i * ns.prod + offset ns is < i * ns.prod + ns.prod := Nat.add_lt_add_left ih _
      _ = (i + 1) * ns.prod := (Nat.succ_mul i _).symm
      _ ≤ n * ns.prod := Nat.mul_le_mul_right _ hi

theorem length_flatMap_of_one {β γ : Type} {f : β → List γ} {xs : List β}
    (h : ∀ x ∈ xs, (f x).length = 1) : (xs.flatMap f).length = xs.length := by
  induction xs with
  | nil => rfl
  | cons x xs ih =>
    obtain ⟨hx, hxs⟩ := List.forall_mem_cons.mp h
    rw [List.flatMap_cons, List.length_append, hx, ih hxs, List.length_cons, Nat.add_comm]

/-- `t.T`: the dimensions in the other order. -/
def T (t : Tensor α) : Tensor α where
  shape := t.shape.reverse
  data := (indices t.shape.reverse).flatMap fun is => block 1 (offset t.shape is.reverse) t.data
  length_data := by
    rw [length_flatMap_of_one, length_indices]
    intro is his
    have hlt := offset_lt (List.rel_reverse (mem_indices.mp his))
    rw [List.reverse_reverse] at hlt
    exact length_block (t.length_data.trans (Nat.mul_one _).symm) hlt

@[simp]
theorem shape_T (t : Tensor α) : t.T.shape = t.shape.reverse := rfl

example : (T ⟨[2, 3], [1, 2, 3, 4, 5, 6], rfl⟩ : Tensor Nat).data = [1, 4, 2, 5, 3, 6] := by decide

/-- `t[k:]`. -/
def slice_from (t : Tensor α) (k : Nat) : Option (Tensor α) :=
  t.narrow 0 (min k (t.size 0)) (t.size 0 - min k (t.size 0))

theorem slice_from_of_shape {n k : Nat} {shape : List Nat} (ht : t.shape = (n + k) :: shape) :
    ∃ p, t.slice_from k = some p ∧ p.shape = n :: shape := by
  have hsize : t.size 0 = n + k := by
    rw [size, ht]
    rfl
  obtain ⟨p, hp, hslice, hn⟩ := narrow_of_fits (show 0 < t.shape.length by simp [ht])
    (show k + n ≤ t.size 0 by omega)
  refine ⟨p, ?_, ?_⟩
  · rw [slice_from, hsize, Nat.min_eq_left (Nat.le_add_left k n), Nat.add_sub_cancel, hp]
  · rw [hslice.beside, hn, ht]
    rfl

/-! ## Views -/

/-- The product of the sizes that are given, `none` being `-1`. -/
def known (dims : List (Option Nat)) : Nat := (dims.filterMap id).prod

/-- `view(dims)`: the same elements under other sizes, of which at most one is inferred from the
others. An empty tensor whose other sizes are 0 leaves it open and is refused. -/
def view (t : Tensor α) (dims : List (Option Nat)) : Option (Tensor α) :=
  if h : dims.count none ≤ 1 ∧ (none ∈ dims → known dims ≠ 0) ∧
      (dims.map (·.getD (t.data.length / known dims))).prod = t.data.length then
    some ⟨dims.map (·.getD (t.data.length / known dims)), t.data, h.2.2.symm⟩
  else none

/-- A view with one size to infer, which is `n`. -/
theorem view_inferred {dims : List (Option Nat)} {n : Nat} (hcount : dims.count none ≤ 1)
    (hknown : known dims ≠ 0) (hdata : t.data.length = n * known dims)
    (hprod : (dims.map (·.getD n)).prod = t.data.length) :
    ∃ w, t.view dims = some w ∧ w.shape = dims.map (·.getD n) ∧ w.data = t.data := by
  have hn : t.data.length / known dims = n := by
    rw [hdata, Nat.mul_div_cancel _ (Nat.pos_of_ne_zero hknown)]
  refine ⟨⟨dims.map (·.getD n), t.data, hprod.symm⟩, ?_, rfl, rfl⟩
  rw [view, dif_pos ⟨hcount, fun _ => hknown, by rwa [hn]⟩]
  exact congrArg some (ext_data (congrArg (fun m => dims.map (·.getD m)) hn) rfl)

/-- A view is undone by a view with the sizes of before. -/
theorem view_back {w : Tensor α} (h : w.data = t.data) : w.view (t.shape.map some) = some t := by
  have hshape : ∀ n, (t.shape.map some).map (·.getD n) = t.shape := fun n => by
    rw [List.map_map]
    exact List.map_id t.shape
  have hprod : ((t.shape.map some).map (·.getD (w.data.length / known (t.shape.map some)))).prod =
      w.data.length := by
    rw [hshape, h, t.length_data]
  have hnone : none ∉ t.shape.map some := by simp
  rw [view, dif_pos ⟨by rw [List.count_eq_zero_of_not_mem hnone]; omega,
    fun hmem => absurd hmem hnone, hprod⟩]
  exact congrArg some (ext_data (hshape _) h)

end Tensor

end tensors
