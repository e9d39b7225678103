-- A list of values in a memory of blocks. A table names the blocks of one list, and
-- each block has the same number of slots.
import Mathlib.Data.List.GetD
import Mathlib.Data.List.Nodup
import Mathlib.Logic.Function.Basic
import RecomputeOrMigrate.General.Copies

open copies

namespace pages

variable {κ : Type}

/-- The contents of the slots of each block. -/
abbrev Memory (κ : Type) := Nat → Nat → κ

/-- What stands at a position of the list. -/
def cell (size : Nat) (mem : Memory κ) (table : List Nat) (position : Nat) : Option κ :=
  table[position / size]?.map fun block => mem block (position % size)

/-- The first `n` values of the list. -/
def read (size : Nat) (mem : Memory κ) (table : List Nat) (n : Nat) : List κ :=
  (List.range n).filterMap (cell size mem table)

/-- The memory with another value at a position of the list. -/
def put (size : Nat) (mem : Memory κ) (table : List Nat) (position : Nat) (v : κ) : Memory κ :=
  match table[position / size]? with
  | none => mem
  | some block => Function.update mem block (Function.update (mem block) (position % size) v)

/-- The memory with other values from a position on. -/
def write (size : Nat) (mem : Memory κ) (table : List Nat) : Nat → List κ → Memory κ
  | _, [] => mem
  | position, v :: vs => write size (put size mem table position v) table (position + 1) vs

/-- The list begins with these values. -/
def Holds (size : Nat) (mem : Memory κ) (table : List Nat) (values : List κ) : Prop :=
  ∀ p (h : p < values.length), cell size mem table p = some values[p]

variable {size : Nat} {mem mem' : Memory κ} {table other : List Nat} {values : List κ}

theorem Holds.read (h : Holds size mem table values) :
    pages.read size mem table values.length = values := by
  have hmap : (List.range values.length).map (cell size mem table) = values.map some := by
    apply List.ext_getElem
    · rw [List.length_map, List.length_map, List.length_range]
    · intro p hp hp'
      rw [List.getElem_map, List.getElem_map, List.getElem_range]
      exact h p (by simpa using hp')
  have hid := List.filterMap_map (f := cell size mem table) (g := id)
    (l := List.range values.length)
  rw [hmap, List.filterMap_map] at hid
  exact hid.symm.trans List.filterMap_some

/-- Other contents of the blocks outside the table do not matter. -/
theorem Holds.congr (h : Holds size mem table values) (hmem : ∀ b ∈ table, mem' b = mem b) :
    Holds size mem' table values := by
  intro p hp
  rw [← h p hp]
  unfold cell
  cases hb : table[p / size]? with
  | none => rfl
  | some b => rw [Option.map_some, Option.map_some, hmem b (List.mem_of_getElem? hb)]

/-- The same contents under another table of the same length. -/
theorem Holds.move (h : Holds size mem table values) (hlen : other.length = table.length)
    (hmem : ∀ i (hi : i < table.length) (hi' : i < other.length), mem' other[i] = mem table[i]) :
    Holds size mem' other values := by
  intro p hp
  rw [← h p hp]
  unfold cell
  by_cases hi : p / size < table.length
  · rw [List.getElem?_eq_getElem hi, List.getElem?_eq_getElem (hlen ▸ hi), Option.map_some,
      Option.map_some, hmem _ hi (hlen ▸ hi)]
  · rw [List.getElem?_eq_none (by omega), List.getElem?_eq_none (by omega)]
    rfl

/-- The copy of each block of one table to the block of another one. -/
theorem Holds.copyAll {source : Memory κ} (h : Holds size source table values)
    (hlen : other.length = table.length) (hnd : other.Nodup) :
    Holds size (copyAll source mem (table.zip other)) other values := by
  refine h.move hlen fun i hi _ => ?_
  apply copyAll_of_mem
  · rw [List.map_snd_zip (by omega)]
    exact hnd
  · have := List.getElem_mem (l := table.zip other) (n := i)
      (by rw [List.length_zip]; omega)
    rwa [List.getElem_zip] at this

/-! ## Writes -/

theorem put_of_notMem {b : Nat} (h : b ∉ table) (p : Nat) (v : κ) :
    put size mem table p v b = mem b := by
  unfold put
  cases hb : table[p / size]? with
  | none => rfl
  | some block =>
    refine Function.update_of_ne ?_ _ _
    rintro rfl
    exact h (List.mem_of_getElem? hb)

theorem write_of_notMem {b : Nat} (h : b ∉ table) (p : Nat) (vs : List κ) :
    write size mem table p vs b = mem b := by
  induction vs generalizing mem p with
  | nil => rfl
  | cons v vs ih => rw [write, ih, put_of_notMem h]

/-- A value in a slot of the table. The other positions keep what they have. -/
theorem holds_put (hsize : 0 < size) (hnd : table.Nodup) (h : Holds size mem table values)
    (hroom : values.length < table.length * size) (v : κ) :
    Holds size (put size mem table values.length v) table (values ++ [v]) := by
  have hb : values.length / size < table.length :=
    (Nat.div_lt_iff_lt_mul hsize).mpr hroom
  intro p hp
  unfold cell put
  rw [List.getElem?_eq_getElem hb]
  rw [List.length_append, List.length_singleton] at hp
  rcases Nat.lt_succ_iff_lt_or_eq.mp hp with hlt | rfl
  · rw [List.getElem_append_left hlt, ← h p hlt, cell]
    have hpb : p / size < table.length :=
      Nat.lt_of_le_of_lt (Nat.div_le_div_right (Nat.le_of_lt hlt)) hb
    rw [List.getElem?_eq_getElem hpb, Option.map_some, Option.map_some]
    by_cases hsame : p / size = values.length / size
    · have hslot : p % size ≠ values.length % size := fun hc => by
        have h1 := Nat.div_add_mod p size
        have h2 := Nat.div_add_mod values.length size
        rw [hsame, hc] at h1
        omega
      simp only [hsame, Function.update_self, Function.update_of_ne hslot]
    · have hne : table[p / size] ≠ table[values.length / size] := fun hc =>
        hsame ((List.Nodup.getElem_inj_iff hnd).mp hc)
      simp only [Function.update_of_ne hne]
  · rw [List.getElem?_eq_getElem hb, Option.map_some]
    simp [Function.update_self]

/-- Values after those that are there. -/
theorem holds_write (hsize : 0 < size) (hnd : table.Nodup) (h : Holds size mem table values)
    (vs : List κ) (hroom : values.length + vs.length ≤ table.length * size) :
    Holds size (write size mem table values.length vs) table (values ++ vs) := by
  induction vs generalizing mem values with
  | nil => simpa [write] using h
  | cons v vs ih =>
    rw [List.length_cons] at hroom
    have hput := holds_put hsize hnd h (by omega) v
    have hlen : (values ++ [v]).length = values.length + 1 := by simp
    have := ih hput (by rw [hlen]; omega)
    rw [hlen, List.append_assoc] at this
    exact this

end pages
