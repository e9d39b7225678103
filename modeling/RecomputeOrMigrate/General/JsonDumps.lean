-- The text that `json.dumps` makes of a flat dictionary, and when it is the text of a JSON object.
import RecomputeOrMigrate.General.Binary64
import RecomputeOrMigrate.General.Json

open binary64 decimals

namespace json

/-! ## Numbers -/

theorem integer_of_digits {c : Char} {rest : List Char} (hne : c ≠ '0')
    (h : ∀ d ∈ c :: rest, d.isDigit = true) : Integer (c :: rest) :=
  .positive hne ⟨List.cons_ne_nil c rest, h⟩

theorem integer_toDigits (n : Nat) : Integer (Nat.toDigits 10 n) := by
  rcases Nat.eq_zero_or_pos n with rfl | hpos
  · exact .zero
  · have hhead := toDigits_head_ne_zero hpos
    obtain ⟨c, rest, hdigits⟩ := List.exists_cons_of_ne_nil (@Nat.toDigits_ne_nil n 10)
    rw [hdigits] at hhead ⊢
    apply integer_of_digits
    · rintro rfl
      exact hhead rfl
    · intro d hd
      exact isDigit_of_mem_toDigits (hdigits ▸ hd)

theorem isDigit_of_mem_zeros {n : Nat} {c : Char} (h : c ∈ List.replicate n '0') :
    c.isDigit = true := by
  rw [List.eq_of_mem_replicate h]
  rfl

section number

variable {c : Char} {rest : List Char} {point exp : Int}

theorem number_of_parts {sign int frac exp : List Char} (hsign : sign ∈ [[], ['-']])
    (hint : Integer int) (hfrac : Fraction frac) (hexp : Exponent exp) :
    Number (sign ++ (int ++ frac ++ exp)) := by
  rw [← List.append_assoc, ← List.append_assoc]
  exact .mk hsign hint hfrac hexp

/-- A number whose digits do not end with the point. -/
theorem fixed_number (hne : c ≠ '0') (h : ∀ d ∈ c :: rest, d.isDigit = true) {sign : List Char}
    (hsign : sign ∈ [[], ['-']]) : Number (sign ++ fixed (c :: rest) point) := by
  have hparts : ∃ int frac, Integer int ∧ Fraction frac ∧
      fixed (c :: rest) point = int ++ frac := by
    unfold fixed
    split_ifs with hzero hlen
    · refine ⟨['0'], '.' :: (List.replicate (-point).toNat '0' ++ c :: rest), .zero, .some ⟨?_, ?_⟩,
        rfl⟩
      · exact List.append_ne_nil_of_right_ne_nil _ (List.cons_ne_nil c rest)
      · intro d hd
        rcases List.mem_append.mp hd with hd | hd
        · exact isDigit_of_mem_zeros hd
        · exact h d hd
    · refine ⟨c :: (rest ++ List.replicate (point - (c :: rest).length).toNat '0'), ".0".toList,
        integer_of_digits hne ?_, .some ⟨by decide, List.all_eq_true.mp (by decide)⟩, rfl⟩
      intro d hd
      rw [← List.cons_append] at hd
      rcases List.mem_append.mp hd with hd | hd
      · exact h d hd
      · exact isDigit_of_mem_zeros hd
    · -- the point stands between two of the digits
      obtain ⟨k, rfl⟩ : ∃ k : Nat, point = k + 1 := ⟨(point - 1).toNat, by omega⟩
      rw [show ((k : Int) + 1).toNat = k + 1 from by omega]
      refine ⟨c :: rest.take k, '.' :: rest.drop k, integer_of_digits hne ?_, .some ⟨?_, ?_⟩, rfl⟩
      · exact fun d hd => h d (List.take_subset (k + 1) (c :: rest) hd)
      · rw [List.length_cons] at hlen
        exact List.ne_nil_of_length_pos (by rw [List.length_drop]; omega)
      · exact fun d hd => h d (List.drop_subset (k + 1) (c :: rest) hd)
  obtain ⟨int, frac, hint, hfrac, heq⟩ := hparts
  rw [heq, ← List.append_nil (int ++ frac)]
  exact number_of_parts hsign hint hfrac .none

theorem scientific_number (hne : c ≠ '0') (h : ∀ d ∈ c :: rest, d.isDigit = true)
    {sign : List Char} (hsign : sign ∈ [[], ['-']]) :
    Number (sign ++ scientific (c :: rest) exp) := by
  have hfrac : Fraction (if (c :: rest).length ≤ 1 then [] else '.' :: (c :: rest).drop 1) := by
    split_ifs with hlen
    · exact .none
    · refine .some ⟨?_, fun d hd => h d (List.mem_cons_of_mem c hd)⟩
      exact List.ne_nil_of_length_pos (by simpa [List.length_pos_iff] using hlen)
  have hexp : Exponent ('e' :: ([if exp < 0 then '-' else '+'] ++
      ((if (Nat.toDigits 10 exp.natAbs).length < 2 then ['0'] else []) ++
        Nat.toDigits 10 exp.natAbs))) := by
    refine .some (by decide) ?_ ⟨?_, ?_⟩
    · split_ifs <;> decide
    · exact List.append_ne_nil_of_right_ne_nil _ Nat.toDigits_ne_nil
    · intro d hd
      rcases List.mem_append.mp hd with hd | hd
      · split_ifs at hd with hlen
        · rw [List.mem_singleton.mp hd]
          rfl
        · cases hd
      · exact isDigit_of_mem_toDigits hd
  have hint : Integer [c] := integer_of_digits hne fun d hd => h d (by
    rw [List.mem_singleton.mp hd]
    exact List.mem_cons_self)
  exact number_of_parts hsign hint hfrac hexp

end number

theorem minus_mem (negative : Bool) : minus negative ∈ [[], ['-']] := by
  unfold minus
  split_ifs <;> decide

theorem float_repr_number (negative : Bool) (d : Decimal) : Number (float_repr negative d) := by
  unfold float_repr
  dsimp only
  split_ifs with hzero hpoint
  · have hfrac : Fraction ".0".toList := .some ⟨by decide, List.all_eq_true.mp (by decide)⟩
    exact number_of_parts (minus_mem negative) .zero hfrac .none
  · obtain ⟨c, rest, hsig, hne, hdigits⟩ := significant_digits (Nat.pos_of_ne_zero hzero)
    rw [hsig]
    exact fixed_number hne hdigits (minus_mem negative)
  · obtain ⟨c, rest, hsig, hne, hdigits⟩ := significant_digits (Nat.pos_of_ne_zero hzero)
    rw [hsig]
    exact scientific_number hne hdigits (minus_mem negative)

theorem int_repr_number (n : Int) : Number (int_repr n) := by
  have h := number_of_parts (minus_mem (n < 0)) (integer_toDigits n.natAbs) .none .none
  rw [List.append_nil, List.append_nil] at h
  exact h

/-! ## Strings -/

/-- Four hexadecimal digits, in lower case. -/
def unicode (n : Nat) : List Char :=
  backslash :: 'u' :: [n / 4096 % 16, n / 256 % 16, n / 16 % 16, n % 16].map Nat.digitChar

/-- One character in ASCII. Beyond 16 bits there are two surrogates. -/
def escape (c : Char) : List Char :=
  if c = quote then [backslash, quote]
  else if c = backslash then [backslash, backslash]
  else if c = '\n' then [backslash, 'n']
  else if c = '\r' then [backslash, 'r']
  else if c = '\t' then [backslash, 't']
  else if c = '\x08' then [backslash, 'b']
  else if c = '\x0c' then [backslash, 'f']
  else if 32 ≤ c.toNat ∧ c.toNat ≤ 126 then [c]
  else if c.toNat < 0x10000 then unicode c.toNat
  else unicode (0xd800 + (c.toNat - 0x10000) / 1024) ++
    unicode (0xdc00 + (c.toNat - 0x10000) % 1024)

def dumps_str (s : String) : List Char := quote :: (s.toList.flatMap escape ++ [quote])

theorem chars_unicode (n : Nat) {cs : List Char} (h : Chars cs) : Chars (unicode n ++ cs) := by
  have hhex : ∀ d < 16, IsHex (Nat.digitChar d) := by
    unfold IsHex
    decide
  have hlt : ∀ m : Nat, IsHex (Nat.digitChar (m % 16)) := fun m =>
    hhex _ (Nat.mod_lt m (by omega))
  exact .unicode (hlt _) (hlt _) (hlt _) (hlt _) h

theorem chars_escape (c : Char) {cs : List Char} (h : Chars cs) : Chars (escape c ++ cs) := by
  have hescape : ∀ d ∈ [quote, backslash, '/', 'b', 'f', 'n', 'r', 't'],
      Chars ([backslash, d] ++ cs) := fun d hd => .escape hd h
  unfold escape
  split_ifs with hquote hback _ _ _ _ _ hplain
  · exact hescape _ (by decide)
  · exact hescape _ (by decide)
  · exact hescape _ (by decide)
  · exact hescape _ (by decide)
  · exact hescape _ (by decide)
  · exact hescape _ (by decide)
  · exact hescape _ (by decide)
  · exact .plain hquote hback hplain.1 h
  · exact chars_unicode _ h
  · rw [List.append_assoc]
    exact chars_unicode _ (chars_unicode _ h)

theorem chars_flatMap_escape (cs : List Char) : Chars (cs.flatMap escape) := by
  induction cs with
  | nil => exact .nil
  | cons c cs ih =>
    rw [List.flatMap_cons]
    exact chars_escape c ih

/-! ## Dictionaries -/

inductive Value
  | none
  | int (n : Int)
  | float (x : Binary64)
  | str (s : String)
deriving DecidableEq

/-- The floats that are no numbers have names of their own. -/
def dumps_float : Binary64 → List Char
  | .nan => "NaN".toList
  | .infinite negative => minus negative ++ "Infinity".toList
  | .finite x => x.repr

def Value.dumps : Value → List Char
  | .none => "null".toList
  | .int n => int_repr n
  | .float x => dumps_float x
  | .str s => dumps_str s

/-- JSON has a text for the value: it is not a float that is `nan` or infinite. -/
def Value.IsStandard : Value → Prop
  | .float x => x.IsFinite
  | _ => True

def dumps_item (item : String × Value) : List Char :=
  dumps_str item.1 ++ ": ".toList ++ item.2.dumps

def dumps_items : List (String × Value) → List Char
  | [] => []
  | [item] => dumps_item item
  | item :: item' :: items => dumps_item item ++ ", ".toList ++ dumps_items (item' :: items)

/-- `json.dumps` of a dictionary with these items. -/
def dumps (items : List (String × Value)) : List Char := '\x7b' :: (dumps_items items ++ ['\x7d'])

theorem text_of_value {v : Value} (h : v.IsStandard) : Text .value v.dumps := by
  cases v with
  | none => exact .null
  | int n => exact .number (int_repr_number n)
  | float x =>
    obtain ⟨y, rfl⟩ := h
    exact .number (float_repr_number _ _)
  | str s => exact .string (chars_flatMap_escape _)

theorem space_nil : Space [] := fun _ h => by cases h

theorem space_single : Space [' '] := fun _ h => by
  rw [List.mem_singleton.mp h]
  exact List.mem_cons_self

/-- An item after some white space. -/
theorem text_of_item {w : List Char} (hw : Space w) {item : String × Value}
    (h : item.2.IsStandard) : Text .members (w ++ dumps_item item) := by
  have hmember := Text.member hw (chars_flatMap_escape item.1.toList) space_nil space_single
    (text_of_value h) space_nil
  rw [List.append_nil, List.append_nil, List.append_assoc] at hmember
  unfold dumps_item dumps_str
  rw [List.append_assoc]
  exact hmember

theorem text_of_items {w : List Char} (hw : Space w) {item : String × Value}
    {items : List (String × Value)} (h : ∀ i ∈ item :: items, i.2.IsStandard) :
    Text .members (w ++ dumps_items (item :: items)) := by
  induction items generalizing item w with
  | nil => exact text_of_item hw (h item List.mem_cons_self)
  | cons item' items ih =>
    have hrest := ih space_single fun i hi => h i (List.mem_cons_of_mem item hi)
    have hmore := Text.more_members (text_of_item hw (h item List.mem_cons_self)) hrest
    rw [List.append_assoc] at hmore
    unfold dumps_items
    rw [List.append_assoc]
    exact hmore

theorem scan_item {item : String × Value} (h : item.2.IsStandard) :
    scan .outside (dumps_item item) = some .outside :=
  scan_text (text_of_item space_nil h)

/-- The scan stops in the name of a float. -/
theorem scan_name {x : Binary64} (h : ¬ x.IsFinite) : ∃ before c after,
    dumps_float x = before ++ c :: after ∧ scan .outside before = some .outside ∧ c ≠ quote ∧
      c ∉ plain_chars := by
  cases x with
  | nan => exact ⟨[], 'N', "aN".toList, rfl, rfl, by decide, by decide⟩
  | infinite negative =>
    refine ⟨minus negative, 'I', "nfinity".toList, rfl, ?_, by decide, by decide⟩
    cases negative <;> rfl
  | finite y => exact absurd ⟨y, rfl⟩ h

theorem scan_not_standard {key : String} {v : Value} (h : ¬ v.IsStandard) {rest : List Char} :
    scan .outside (dumps_item (key, v) ++ rest) = none := by
  have hkey : scan .outside (dumps_str key ++ ": ".toList) = some .outside := by
    unfold dumps_str
    rw [scan_append (scan_string (chars_flatMap_escape _))]
    rfl
  cases v with
  | float x =>
    obtain ⟨before, c, after, htext, hbefore, hquote, hc⟩ := scan_name h
    unfold dumps_item Value.dumps
    dsimp only
    rw [htext, List.append_assoc, scan_append hkey, List.append_assoc, List.cons_append]
    exact scan_stuck hbefore hquote hc
  | _ => exact absurd trivial h

theorem scan_items {items : List (String × Value)} (h : ∃ i ∈ items, ¬ i.2.IsStandard)
    (rest : List Char) : scan .outside (dumps_items items ++ rest) = none := by
  induction items with
  | nil =>
    obtain ⟨i, hi, -⟩ := h
    cases hi
  | cons item items ih =>
    obtain ⟨key, v⟩ := item
    obtain ⟨i, hi, hname⟩ := h
    by_cases hv : v.IsStandard
    · rcases List.mem_cons.mp hi with rfl | hi
      · exact absurd hv hname
      · cases items with
        | nil => cases hi
        | cons item' items =>
          unfold dumps_items
          rw [List.append_assoc, List.append_assoc, scan_append (scan_item hv),
            scan_append (m := .outside) rfl]
          exact ih ⟨i, hi, hname⟩
    · cases items with
      | nil => exact scan_not_standard hv
      | cons item' items =>
        unfold dumps_items
        rw [List.append_assoc, List.append_assoc]
        exact scan_not_standard hv

/-- The text is a JSON object if and only if JSON has a text for each value. -/
theorem dumps_isObject {items : List (String × Value)} :
    IsObject (dumps items) ↔ ∀ i ∈ items, i.2.IsStandard := by
  constructor
  · rintro ⟨htext, -⟩ i hi
    by_contra hname
    have hscan := scan_text htext
    unfold dumps at hscan
    rw [scan_cons (m := .outside) rfl, scan_items ⟨i, hi, hname⟩] at hscan
    cases hscan
  · intro h
    refine ⟨?_, rfl⟩
    cases items with
    | nil => exact .empty_object space_nil
    | cons item items => exact .object (text_of_items space_nil h)

end json
