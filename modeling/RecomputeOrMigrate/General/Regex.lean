-- Regular expressions without repetition other than runs of digits, and names with a number in
-- them: a match that is decided on the name with the number left open holds for every number.
import Mathlib.Data.List.Basic
import Mathlib.Data.List.TakeWhile

namespace regex

/-! ## Regular expressions -/

/-- A part of a regular expression. -/
inductive Piece
  | char (c : Char)
  /-- `.` -/
  | any
  /-- `(\d+)`, for names of ASCII characters. -/
  | digits
  /-- `(one|other)` -/
  | words (ws : List (List Char))

abbrev Pattern := List Piece

/-- A text with dots in it, each of which stands for any character. -/
def text (s : String) : Pattern := s.toList.map fun c => if c = '.' then .any else .char c

/-- A match at the start, with the groups. Of the runs of digits the longest is tried first. -/
def matchAt : Pattern → List Char → Option (List (List Char))
  | [], _ => some []
  | .char _ :: _, [] => none
  | .char c :: r, d :: s => if d = c then matchAt r s else none
  | .any :: _, [] => none
  | .any :: r, d :: s => if d = '\n' then none else matchAt r s
  | .digits :: r, s =>
    (List.range (s.takeWhile Char.isDigit).length).reverse.findSome? fun n =>
      (matchAt r (s.drop (n + 1))).map (s.take (n + 1) :: ·)
  | .words ws :: r, s => ws.findSome? fun w =>
      if w.isPrefixOf s then (matchAt r (s.drop w.length)).map (w :: ·) else none

/-- The first match anywhere. -/
def search (r : Pattern) : List Char → Option (List (List Char))
  | [] => matchAt r []
  | c :: s => (matchAt r (c :: s)).or (search r s)

section

variable {r : Pattern} {c d : Char} {s ds : List Char}

theorem matchAt_char_none (h : ∀ x, s.head? = some x → x ≠ c) :
    matchAt (.char c :: r) s = none := by
  cases s with
  | nil => rfl
  | cons x s => rw [matchAt, if_neg (h x rfl)]

/-- The groups of a match are parts of the name. -/
theorem matchAt_subset {groups : List (List Char)} {g : List Char} {x : Char}
    (h : matchAt r s = some groups) (hg : g ∈ groups) (hx : x ∈ g) : x ∈ s := by
  induction r generalizing s groups with
  | nil =>
    obtain rfl : [] = groups := Option.some.inj h
    cases hg
  | cons piece r ih =>
    -- A group that takes the first characters of the name, and the groups of the rest.
    have htake : ∀ {n : Nat} {taken : List Char}, (∀ c ∈ taken, c ∈ s) →
        (matchAt r (s.drop n)).map (taken :: ·) = some groups → x ∈ s := by
      intro n taken htaken hmatch
      obtain ⟨rest, hrest, rfl⟩ := Option.map_eq_some_iff.mp hmatch
      rcases List.mem_cons.mp hg with rfl | hg
      · exact htaken x hx
      · exact List.mem_of_mem_drop (ih hrest hg)
    cases piece with
    | char c =>
      cases s with
      | nil => cases h
      | cons d s =>
        rw [matchAt] at h
        split at h
        · exact List.mem_cons_of_mem d (ih h hg)
        · cases h
    | any =>
      cases s with
      | nil => cases h
      | cons d s =>
        rw [matchAt] at h
        split at h
        · cases h
        · exact List.mem_cons_of_mem d (ih h hg)
    | digits =>
      rw [matchAt] at h
      obtain ⟨n, -, hmatch⟩ := List.exists_of_findSome?_eq_some h
      exact htake (fun c hc => List.mem_of_mem_take hc) hmatch
    | words ws =>
      rw [matchAt] at h
      obtain ⟨w, -, hmatch⟩ := List.exists_of_findSome?_eq_some h
      split at hmatch
      · next hw =>
        exact htake (fun c hc => (List.isPrefixOf_iff_prefix.mp hw).subset hc) hmatch
      · cases hmatch
theorem isDigit_ne (hd : d.isDigit = true) (hc : c.isDigit = false) : d ≠ c := by
  rintro rfl
  rw [hd] at hc
  cases hc

/-- A run of digits, the character after it and one that stands for itself: a shorter run is of no
use, since a digit or the character after them would have to stand for itself. -/
theorem matchAt_digits (hne : ds ≠ []) (hds : ∀ x ∈ ds, x.isDigit = true) (hc : c.isDigit = false)
    (hd : d.isDigit = false) (hdc : d ≠ c) :
    matchAt (.digits :: .any :: .char c :: r) (ds ++ d :: s) =
      (matchAt (.any :: .char c :: r) (d :: s)).map (ds :: ·) := by
  have htake : (ds ++ d :: s).takeWhile Char.isDigit = ds := by
    rw [List.takeWhile_append_of_pos hds, List.takeWhile_cons_of_neg (by simp [hd]),
      List.append_nil]
  obtain ⟨n, hn⟩ : ∃ n, ds.length = n + 1 :=
    Nat.exists_eq_succ_of_ne_zero (by simpa using hne)
  conv_lhs => rw [matchAt, htake, hn, List.range_succ, List.reverse_append,
    List.reverse_singleton, List.singleton_append, List.findSome?_cons, ← hn, List.drop_left,
    List.take_left]
  cases hmatch : matchAt (.any :: .char c :: r) (d :: s) with
  | some groups => rfl
  | none =>
    rw [Option.map_none, List.findSome?_eq_none_iff]
    intro m hm
    have hm : m + 1 < ds.length := by
      rw [List.mem_reverse, List.mem_range] at hm
      omega
    obtain ⟨x, rest, hrest⟩ := List.exists_cons_of_length_pos
      (show 0 < (ds.drop (m + 1)).length by rw [List.length_drop]; omega)
    have hdigit : ∀ y ∈ x :: rest, y.isDigit = true := fun y hy =>
      hds y (List.mem_of_mem_drop (hrest ▸ hy))
    have hhead : ∀ y, (rest ++ d :: s).head? = some y → y ≠ c := by
      intro y hy
      cases rest with
      | nil =>
        obtain rfl : d = y := Option.some.inj hy
        exact hdc
      | cons z rest =>
        obtain rfl : z = y := Option.some.inj hy
        exact isDigit_ne (hdigit z (by simp)) hc
    rw [List.drop_append_of_le_length hm.le, hrest, List.cons_append, matchAt,
      matchAt_char_none hhead, ite_self, Option.map_none]

/-! ## Names with a number left open -/

/-- A character of a name, or a number. -/
inductive Letter
  | char (c : Char)
  | number
deriving DecidableEq

/-- The name with the digits `ds` for each number. -/
def spell (ds : List Char) : List Letter → List Char
  | [] => []
  | .char c :: s => c :: spell ds s
  | .number :: s => ds ++ spell ds s

/-- The digits of a number. -/
structure Digits (ds : List Char) : Prop where
  ne_nil : ds ≠ []
  isDigit : ∀ d ∈ ds, d.isDigit = true

theorem digits_toDigits (n : Nat) : Digits (Nat.toDigits 10 n) where
  ne_nil := Nat.toDigits_ne_nil
  isDigit _ hd := Nat.isDigit_of_mem_toDigits (by omega) (le_refl 10) hd

/-- What a word leaves of a name, if this does not depend on the number. -/
def strip : List Char → List Letter → Option (Option (List Letter))
  | [], s => some (some s)
  | _ :: _, [] => some none
  | c :: w, .char d :: s => if d = c then strip w s else some none
  | c :: _, .number :: _ => if c.isDigit then none else some none

/-- The first of the results that is not `none`, if all before it are known. -/
def firstKnown {β : Type} : List (Option (Option β)) → Option (Option β)
  | [] => some none
  | none :: _ => none
  | some none :: xs => firstKnown xs
  | some (some b) :: _ => some (some b)

/-- The number is matched as a whole: what follows it in the name is no digit, and what has to
follow it stands for one character and then for itself. -/
def wholeNumber : Pattern → List Letter → Bool
  | .any :: .char c :: _, .char d :: _ => !c.isDigit && !d.isDigit && d != c
  | _, _ => false

/-- The match of a name, if it does not depend on the number. -/
def matchName : Pattern → List Letter → Option (Option (List (List Letter)))
  | [], _ => some (some [])
  | .char _ :: _, [] => some none
  | .char c :: r, .char d :: s => if d = c then matchName r s else some none
  | .char c :: _, .number :: _ => if c.isDigit then none else some none
  | .any :: _, [] => some none
  | .any :: r, .char d :: s => if d = '\n' then some none else matchName r s
  | .any :: _, .number :: _ => none
  | .digits :: _, [] => some none
  | .digits :: _, .char d :: _ => if d.isDigit then none else some none
  | .digits :: r, .number :: s =>
    if wholeNumber r s then (matchName r s).map (Option.map ([.number] :: ·)) else none
  | .words ws :: r, s => firstKnown (ws.map fun w =>
      (strip w s).bind fun rest => rest.elim (some none) fun s' =>
        (matchName r s').map (Option.map (w.map .char :: ·)))

/-- A match does not start with `d`. -/
def cannotStart : Pattern → Char → Bool
  | .char c :: _, d => d != c
  | _, _ => false

/-- The first match anywhere, if it does not depend on the number. -/
def searchName (r : Pattern) : List Letter → Option (Option (List (List Letter)))
  | [] => matchName r []
  | .char c :: s =>
    if cannotStart r c then searchName r s
    else firstKnown [matchName r (.char c :: s), searchName r s]
  | .number :: s =>
    if .number ∈ s then none else firstKnown [matchName r (.number :: s), searchName r s]

variable {ws : List (List Char)} {w : List Char} {name rest : List Letter}

theorem Digits.spell_number (h : Digits ds) (name : List Letter) :
    ∃ d s, d.isDigit = true ∧ spell ds (.number :: name) = d :: s := by
  obtain ⟨d, ds, rfl⟩ := List.exists_cons_of_ne_nil h.ne_nil
  exact ⟨d, _, h.isDigit d List.mem_cons_self, rfl⟩

theorem strip_spell (h : strip w name = some (some rest)) :
    spell ds name = w ++ spell ds rest := by
  induction w generalizing name with
  | nil =>
    rw [strip] at h
    cases h
    rfl
  | cons c w ih =>
    cases name with
    | nil => cases h
    | cons l name =>
      cases l with
      | char d =>
        rw [strip] at h
        by_cases hd : d = c
        · rw [if_pos hd] at h
          rw [spell, ih h, hd, List.cons_append]
        · rw [if_neg hd] at h
          cases h
      | number =>
        rw [strip] at h
        split_ifs at h
        cases h

theorem strip_none (hds : Digits ds) (h : strip w name = some none) :
    ¬ w <+: spell ds name := by
  induction w generalizing name with
  | nil => cases h
  | cons c w ih =>
    cases name with
    | nil => simp [spell]
    | cons l name =>
      cases l with
      | char d =>
        rw [strip] at h
        rw [spell, List.cons_prefix_cons]
        by_cases hd : d = c
        · rw [if_pos hd] at h
          exact fun hp => ih h hp.2
        · exact fun hp => hd hp.1.symm
      | number =>
        obtain ⟨d, s, hd, hspell⟩ := hds.spell_number name
        rw [strip] at h
        rw [hspell, List.cons_prefix_cons]
        split_ifs at h with hc
        exact fun hp => hc (hp.1 ▸ hd)

theorem firstKnown_findSome {β γ κ : Type} {f : β → γ} {g : κ → Option γ}
    {known : κ → Option (Option β)} {ks : List κ} {y : Option β}
    (hsound : ∀ k ∈ ks, ∀ z, known k = some z → g k = z.map f)
    (h : firstKnown (ks.map known) = some y) : ks.findSome? g = y.map f := by
  induction ks with
  | nil =>
    cases h
    rfl
  | cons k ks ih =>
    obtain ⟨hk, hks⟩ := List.forall_mem_cons.mp hsound
    rw [List.map_cons] at h
    cases hknown : known k with
    | none =>
      rw [hknown] at h
      cases h
    | some z =>
      rw [hknown] at h
      rw [List.findSome?_cons, hk z hknown]
      cases z with
      | none => exact ih hks h
      | some b =>
        cases h
        rfl

@[simp]
theorem spell_map_char (ds w : List Char) : spell ds (w.map .char) = w := by
  induction w with
  | nil => rfl
  | cons c w ih => rw [List.map_cons, spell, ih]

theorem wholeNumber_eq_true (h : wholeNumber r name = true) :
    ∃ c r' d name', r = .any :: .char c :: r' ∧ name = .char d :: name' ∧ c.isDigit = false ∧
      d.isDigit = false ∧ d ≠ c := by
  unfold wholeNumber at h
  split at h
  · simp only [Bool.and_eq_true, Bool.not_eq_true', bne_iff_ne] at h
    exact ⟨_, _, _, _, rfl, rfl, h.1.1, h.1.2, h.2⟩
  · cases h

/-- A match that is decided with the number left open holds for every number. -/
theorem matchAt_spell (hds : Digits ds) {y : Option (List (List Letter))}
    (h : matchName r name = some y) :
    matchAt r (spell ds name) = y.map (List.map (spell ds)) := by
  induction r generalizing name y with
  | nil =>
    rw [matchName] at h
    cases h
    rfl
  | cons p r ih =>
    cases p with
    | char c =>
      cases name with
      | nil =>
        cases h
        rfl
      | cons l name =>
        cases l with
        | char d =>
          rw [matchName] at h
          rw [spell, matchAt]
          split_ifs at h ⊢
          · exact ih h
          · cases h
            rfl
        | number =>
          obtain ⟨d, s, hd, hspell⟩ := hds.spell_number name
          rw [matchName] at h
          split_ifs at h with hc
          cases h
          rw [hspell, matchAt, if_neg (isDigit_ne hd (Bool.eq_false_iff.mpr hc))]
          rfl
    | any =>
      cases name with
      | nil =>
        cases h
        rfl
      | cons l name =>
        cases l with
        | char d =>
          rw [matchName] at h
          rw [spell, matchAt]
          split_ifs at h ⊢
          · cases h
            rfl
          · exact ih h
        | number => cases h
    | digits =>
      cases name with
      | nil =>
        cases h
        rfl
      | cons l name =>
        cases l with
        | char d =>
          rw [matchName] at h
          split_ifs at h with hd
          cases h
          rw [spell, matchAt, List.takeWhile_cons_of_neg hd]
          rfl
        | number =>
          rw [matchName] at h
          split_ifs at h with hwhole
          obtain ⟨c, r, d, name, rfl, rfl, hc, hd, hdc⟩ := wholeNumber_eq_true hwhole
          obtain ⟨x, hx, rfl⟩ := Option.map_eq_some_iff.mp h
          have hmatch := ih hx
          rw [spell] at hmatch
          rw [spell, spell, matchAt_digits hds.ne_nil hds.isDigit hc hd hdc, hmatch]
          cases x with
          | none => rfl
          | some groups =>
            rw [Option.map_some, Option.map_some, Option.map_some, Option.map_some, List.map_cons,
              spell, spell, List.append_nil]
    | words ws =>
      rw [matchName] at h
      rw [matchAt]
      refine firstKnown_findSome (fun w _ z hz => ?_) h
      obtain ⟨stripped, hstrip, hz⟩ := Option.bind_eq_some_iff.mp hz
      cases stripped with
      | none =>
        cases hz
        rw [if_neg]
        · rfl
        · rw [List.isPrefixOf_iff_prefix]
          exact strip_none hds hstrip
      | some rest =>
        obtain ⟨x, hx, rfl⟩ := Option.map_eq_some_iff.mp hz
        have hspell := @strip_spell ds _ _ _ hstrip
        rw [if_pos, hspell, List.drop_left, ih hx]
        · cases x with
          | none => rfl
          | some groups =>
            rw [Option.map_some, Option.map_some, Option.map_some, Option.map_some, List.map_cons,
              spell_map_char]
        · rw [List.isPrefixOf_iff_prefix]
          exact ⟨_, hspell.symm⟩

theorem spell_of_no_number {ds' : List Char} (h : .number ∉ name) :
    spell ds name = spell ds' name := by
  induction name with
  | nil => rfl
  | cons l name ih =>
    rw [List.mem_cons, not_or] at h
    cases l with
    | char c => rw [spell, spell, ih h.2]
    | number => exact absurd rfl h.1

theorem search_digits (h : ∀ ds, Digits ds → matchAt r (ds ++ s) = none)
    (hds : ∀ d ∈ ds, d.isDigit = true) : search r (ds ++ s) = search r s := by
  induction ds with
  | nil => rfl
  | cons d ds ih =>
    have hnone := h (d :: ds) ⟨List.cons_ne_nil d ds, hds⟩
    rw [List.cons_append] at hnone
    rw [List.cons_append, search, hnone, Option.none_or]
    exact ih fun x hx => hds x (List.mem_cons_of_mem d hx)

theorem matchAt_cannotStart (h : cannotStart r d = true) : matchAt r (d :: s) = none := by
  rcases r with - | ⟨c | - | - | ws, r⟩
  · cases h
  · exact matchAt_char_none fun x hx => Option.some.inj hx ▸ bne_iff_ne.mp h
  all_goals cases h

theorem firstKnown_pair {β : Type} {a b : Option (Option β)} {y : Option β}
    (h : firstKnown [a, b] = some y) :
    (∃ groups, a = some (some groups) ∧ y = some groups) ∨ a = some none ∧ b = some y := by
  rcases a with - | - | groups
  · cases h
  · right
    rcases b with - | - | groups
    · cases h
    · exact ⟨rfl, h⟩
    · exact ⟨rfl, h⟩
  · cases h
    exact .inl ⟨groups, rfl, rfl⟩

/-- So does a search. -/
theorem search_spell (hds : Digits ds) {y : Option (List (List Letter))}
    (h : searchName r name = some y) :
    search r (spell ds name) = y.map (List.map (spell ds)) := by
  induction name generalizing y with
  | nil => exact matchAt_spell hds h
  | cons l name ih =>
    cases l with
    | char c =>
      rw [searchName] at h
      rw [spell, search]
      by_cases hstart : cannotStart r c = true
      · rw [if_pos hstart] at h
        rw [matchAt_cannotStart hstart, Option.none_or]
        exact ih h
      rw [if_neg hstart] at h
      rcases firstKnown_pair h with ⟨groups, hmatch, rfl⟩ | ⟨hmatch, hrest⟩
      · have hat := matchAt_spell hds hmatch
        rw [spell] at hat
        rw [hat]
        rfl
      · have hat := matchAt_spell hds hmatch
        rw [spell] at hat
        rw [hat, Option.map_none, Option.none_or]
        exact ih hrest
    | number =>
      rw [searchName] at h
      split_ifs at h with hnumber
      rcases firstKnown_pair h with ⟨groups, hmatch, rfl⟩ | ⟨hmatch, hrest⟩
      · have hat := matchAt_spell hds hmatch
        obtain ⟨d, s, -, hspell⟩ := hds.spell_number name
        rw [hspell] at hat ⊢
        rw [search, hat]
        rfl
      · have hnone : ∀ ds', Digits ds' → matchAt r (ds' ++ spell ds name) = none := by
          intro ds' hds'
          have hat := matchAt_spell hds' hmatch
          rwa [spell, spell_of_no_number hnumber] at hat
        rw [spell, search_digits hnone hds.isDigit]
        exact ih hrest

/-! ## Tests of a name -/

/-- `name == text`, `re.match(r, name)` and `re.search(r, name)`. -/
inductive Test
  | equals (text : List Char)
  | starts (r : Pattern)
  | finds (r : Pattern)

/-- `text in name`. -/
def Test.contains (text : String) : Test := .finds (text.toList.map .char)

def Test.run : Test → List Char → Bool
  | .equals text, s => s = text
  | .starts r, s => (matchAt r s).isSome
  | .finds r, s => (search r s).isSome

/-- The result of a test, if it does not depend on the number. -/
def Test.known : Test → List Letter → Option Bool
  | .equals text, name => (strip text name).map (· = some [])
  | .starts r, name => (matchName r name).map Option.isSome
  | .finds r, name => (searchName r name).map Option.isSome

theorem spell_eq_nil (hds : Digits ds) : spell ds name = [] ↔ name = [] := by
  constructor
  · intro h
    rcases name with - | ⟨c | -, name⟩
    · rfl
    · cases h
    · obtain ⟨d, s, -, hspell⟩ := hds.spell_number name
      rw [hspell] at h
      cases h
  · rintro rfl
    rfl

theorem Test.run_spell (hds : Digits ds) {t : Test} {b : Bool} (h : t.known name = some b) :
    t.run (spell ds name) = b := by
  cases t with
  | equals text =>
    obtain ⟨stripped, hstrip, rfl⟩ := Option.map_eq_some_iff.mp h
    cases stripped with
    | none =>
      have hne : spell ds name ≠ text := fun heq => strip_none hds hstrip (heq ▸ List.prefix_refl _)
      simp [Test.run, hne]
    | some rest =>
      have heq : text ++ spell ds rest = text ↔ rest = [] := by
        rw [List.append_right_eq_self, spell_eq_nil hds]
      simp [Test.run, @strip_spell ds _ _ _ hstrip, heq]
  | starts r =>
    obtain ⟨y, hy, rfl⟩ := Option.map_eq_some_iff.mp h
    rw [Test.run, matchAt_spell hds hy, Option.isSome_map]
  | finds r =>
    obtain ⟨y, hy, rfl⟩ := Option.map_eq_some_iff.mp h
    rw [Test.run, search_spell hds hy, Option.isSome_map]

end

/-! ## Numbered names -/

/-- A name, or the names with a number between two texts. -/
inductive Template
  | whole (name : List Char)
  | around (before after : List Char)
deriving DecidableEq

namespace Template

def plain (name : String) : Template := .whole name.toList

def numbered (before after : String) : Template := .around before.toList after.toList

/-- The name with the number `i`. -/
def name : Template → Nat → String
  | .whole name, _ => String.ofList name
  | .around before after, i => String.ofList (before ++ Nat.toDigits 10 i ++ after)

def letters : Template → List Letter
  | .whole name => name.map .char
  | .around before after => before.map .char ++ .number :: after.map .char

theorem name_plain (name : String) (i : Nat) : (plain name).name i = name :=
  String.ofList_toList

theorem spell_append (ds : List Char) (name rest : List Letter) :
    spell ds (name ++ rest) = spell ds name ++ spell ds rest := by
  induction name with
  | nil => rfl
  | cons l name ih =>
    cases l with
    | char c => rw [List.cons_append, spell, spell, ih, List.cons_append]
    | number => rw [List.cons_append, spell, spell, ih, List.append_assoc]

theorem toList_name (t : Template) (i : Nat) :
    (t.name i).toList = spell (Nat.toDigits 10 i) t.letters := by
  cases t with
  | whole name => rw [letters, spell_map_char, Template.name, String.toList_ofList]
  | around before after =>
    rw [letters, spell_append, spell, spell_map_char, spell_map_char, Template.name,
      String.toList_ofList, List.append_assoc]

/-- The characters of a literal, for `simp`. -/
theorem toList_literal (cs : List Char) : (no_index (String.ofList cs)).toList = cs :=
  String.toList_ofList

/-- What follows a number does not go on with a digit. -/
def ends_number : List Letter → Bool
  | [] => true
  | .char c :: _ => !c.isDigit
  | .number :: _ => false

/-- Two names differ whatever their numbers are. -/
def apart : List Letter → List Letter → Bool
  | [], [] => false
  | [], _ :: _ => true
  | _ :: _, [] => true
  | .char c :: s, .char d :: s' => c != d || apart s s'
  | .char c :: _, .number :: _ => !c.isDigit
  | .number :: _, .char d :: _ => !d.isDigit
  | .number :: s, .number :: s' => ends_number s && ends_number s' && apart s s'

theorem takeWhile_spell {ds : List Char} {rest : List Letter} (hds : Digits ds)
    (h : ends_number rest = true) : (ds ++ spell ds rest).takeWhile Char.isDigit = ds := by
  rw [List.takeWhile_append_of_pos hds.isDigit]
  rcases rest with - | ⟨c | -, rest⟩
  · rw [spell, List.takeWhile_nil, List.append_nil]
  · rw [spell, List.takeWhile_cons_of_neg (by simpa [ends_number] using h), List.append_nil]
  · cases h

theorem spell_ne {ds ds' : List Char} (hds : Digits ds) (hds' : Digits ds') {s s' : List Letter}
    (h : apart s s' = true) : spell ds s ≠ spell ds' s' := by
  fun_induction apart s s' with
  | case1 => cases h
  | case2 l s' => exact fun heq => List.cons_ne_nil l s' ((spell_eq_nil hds').mp heq.symm)
  | case3 l s => exact fun heq => List.cons_ne_nil l s ((spell_eq_nil hds).mp heq)
  | case4 c s d s' ih =>
    intro heq
    obtain ⟨rfl, htail⟩ := List.cons_eq_cons.mp heq
    rw [bne_self_eq_false, Bool.false_or] at h
    exact ih h htail
  | case5 c s s' =>
    obtain ⟨d, t, hd, hspell⟩ := hds'.spell_number s'
    rw [hspell]
    rintro ⟨⟩
    rw [hd] at h
    cases h
  | case6 s d s' =>
    obtain ⟨c, t, hc, hspell⟩ := hds.spell_number s
    rw [hspell]
    rintro ⟨⟩
    rw [hc] at h
    cases h
  | case7 s s' ih =>
    simp only [Bool.and_eq_true] at h
    intro heq
    have hsame : ds = ds' := by
      rw [← takeWhile_spell hds h.1.1, ← takeWhile_spell hds' h.1.2]
      exact congrArg (List.takeWhile Char.isDigit) heq
    subst hsame
    exact ih h.2 (List.append_cancel_left heq)

theorem name_ne {t t' : Template} (h : apart t.letters t'.letters = true) (i j : Nat) :
    t.name i ≠ t'.name j := fun heq => by
  have hspell := congrArg String.toList heq
  rw [toList_name, toList_name] at hspell
  exact spell_ne (digits_toDigits i) (digits_toDigits j) h hspell

theorem around_inj {before after : List Char} {i j : Nat}
    (h : (around before after).name i = (around before after).name j) : i = j := by
  have hlist := String.ofList_injective h
  have hdigits := List.append_cancel_left (List.append_cancel_right hlist)
  rw [← @Nat.ofDigitChars_ten_toDigits i, hdigits, Nat.ofDigitChars_ten_toDigits]

end Template

end regex
