-- The texts of JSON, as a grammar over lists of characters, and a scan that each of them passes.
import Mathlib.Data.List.Basic

namespace json

/-! ## The grammar -/

def quote : Char := '\x22'

def backslash : Char := '\x5c'

/-- The characters between two parts of a text. -/
def Space (cs : List Char) : Prop := ∀ c ∈ cs, c ∈ [' ', '\t', '\n', '\r']

def Digits (cs : List Char) : Prop := cs ≠ [] ∧ ∀ c ∈ cs, c.isDigit = true

/-- Zero, or digits without a zero in front. -/
inductive Integer : List Char → Prop
  | zero : Integer ['0']
  | positive {c : Char} {cs : List Char} (hne : c ≠ '0') (h : Digits (c :: cs)) : Integer (c :: cs)

inductive Fraction : List Char → Prop
  | none : Fraction []
  | some {cs : List Char} (h : Digits cs) : Fraction ('.' :: cs)

inductive Exponent : List Char → Prop
  | none : Exponent []
  | some {e : Char} {sign cs : List Char} (he : e ∈ ['e', 'E'])
      (hsign : sign ∈ [[], ['+'], ['-']]) (h : Digits cs) : Exponent (e :: (sign ++ cs))

inductive Number : List Char → Prop
  | mk {sign int frac exp : List Char} (hsign : sign ∈ [[], ['-']]) (hint : Integer int)
      (hfrac : Fraction frac) (hexp : Exponent exp) : Number (sign ++ int ++ frac ++ exp)

def IsHex (c : Char) : Prop := c ∈ "0123456789abcdefABCDEF".toList

/-- What stands between the quotes of a string. -/
inductive Chars : List Char → Prop
  | nil : Chars []
  | plain {c : Char} {cs : List Char} (hquote : c ≠ quote) (hback : c ≠ backslash)
      (hcontrol : 32 ≤ c.toNat) (h : Chars cs) : Chars (c :: cs)
  | escape {c : Char} {cs : List Char}
      (hc : c ∈ [quote, backslash, '/', 'b', 'f', 'n', 'r', 't']) (h : Chars cs) :
      Chars (backslash :: c :: cs)
  | unicode {a b c d : Char} {cs : List Char} (ha : IsHex a) (hb : IsHex b) (hc : IsHex c)
      (hd : IsHex d) (h : Chars cs) : Chars (backslash :: 'u' :: a :: b :: c :: d :: cs)

inductive Node
  | value
  | elements
  | members

/-- The texts of the values, of the inside of an array and of the inside of an object. -/
inductive Text : Node → List Char → Prop
  | null : Text .value "null".toList
  | true : Text .value "true".toList
  | false : Text .value "false".toList
  | number {cs : List Char} (h : Number cs) : Text .value cs
  | string {cs : List Char} (h : Chars cs) : Text .value (quote :: (cs ++ [quote]))
  | empty_array {w : List Char} (hw : Space w) : Text .value ('[' :: (w ++ [']']))
  | array {cs : List Char} (h : Text .elements cs) : Text .value ('[' :: (cs ++ [']']))
  | empty_object {w : List Char} (hw : Space w) : Text .value ('\x7b' :: (w ++ ['\x7d']))
  | object {cs : List Char} (h : Text .members cs) : Text .value ('\x7b' :: (cs ++ ['\x7d']))
  | element {w v w' : List Char} (hw : Space w) (hv : Text .value v) (hw' : Space w') :
    Text .elements (w ++ v ++ w')
  | more_elements {es es' : List Char} (h : Text .elements es) (h' : Text .elements es') :
    Text .elements (es ++ ',' :: es')
  | member {w k w' w₁ v w₂ : List Char} (hw : Space w) (hk : Chars k) (hw' : Space w')
      (hw₁ : Space w₁) (hv : Text .value v) (hw₂ : Space w₂) :
    Text .members (w ++ (quote :: (k ++ [quote])) ++ w' ++ ':' :: (w₁ ++ v ++ w₂))
  | more_members {ms ms' : List Char} (h : Text .members ms) (h' : Text .members ms') :
    Text .members (ms ++ ',' :: ms')

/-- The text of an object. -/
def IsObject (cs : List Char) : Prop := Text .value cs ∧ cs.head? = some '\x7b'

/-! ## The scan -/

/-- Where the scan is: outside of the strings, inside one, or after a backslash in one. -/
inductive Lex
  | outside
  | inside
  | escaped
deriving DecidableEq

/-- The characters that stand outside of strings. -/
def plain_chars : List Char :=
  "[]:,-+.0123456789eEtrufalsn \t\n\r".toList ++ ['\x7b', '\x7d']

def Lex.next : Lex → Char → Option Lex
  | .outside, c =>
    if c = quote then some .inside else if c ∈ plain_chars then some .outside else none
  | .inside, c =>
    if c = quote then some .outside else if c = backslash then some .escaped else some .inside
  | .escaped, _ => some .inside

def scan (l : Lex) (cs : List Char) : Option Lex := cs.foldlM Lex.next l

variable {l m : Lex} {c : Char} {cs cs' : List Char}

theorem next_plain (h : c ∈ plain_chars) : Lex.outside.next c = some .outside := by
  have hquote : c ≠ quote := by
    rintro rfl
    exact absurd h (by decide)
  simp [Lex.next, hquote, h]

theorem next_stuck (hquote : c ≠ quote) (h : c ∉ plain_chars) : Lex.outside.next c = none := by
  simp [Lex.next, hquote, h]

theorem next_inside (hquote : c ≠ quote) (hback : c ≠ backslash) :
    Lex.inside.next c = some .inside := by
  simp [Lex.next, hquote, hback]

theorem scan_cons (h : l.next c = some m) : scan l (c :: cs) = scan m cs := by
  unfold scan
  rw [List.foldlM_cons, h]
  rfl

theorem scan_append (h : scan l cs = some m) : scan l (cs ++ cs') = scan m cs' := by
  unfold scan at h ⊢
  rw [List.foldlM_append, h]
  rfl

/-- The scan stops at a character that may not stand outside. -/
theorem scan_stuck (h : scan l cs = some .outside) (hquote : c ≠ quote) (hc : c ∉ plain_chars) :
    scan l (cs ++ c :: cs') = none := by
  rw [scan_append h]
  unfold scan
  rw [List.foldlM_cons, next_stuck hquote hc]
  rfl

theorem scan_plain (h : ∀ c ∈ cs, c ∈ plain_chars) : scan .outside cs = some .outside := by
  induction cs with
  | nil => rfl
  | cons c cs ih =>
    rw [scan_cons (next_plain (h c List.mem_cons_self))]
    exact ih fun d hd => h d (List.mem_cons_of_mem _ hd)

theorem scan_space (h : Space cs) : scan .outside cs = some .outside := by
  have hspace : [' ', '\t', '\n', '\r'].all (plain_chars.contains ·) = true := by decide
  exact scan_plain fun c hc => List.contains_iff_mem.mp (List.all_eq_true.mp hspace c (h c hc))

/-- A string leads back to where it began. -/
theorem scan_chars (h : Chars cs) : scan .inside cs = some .inside := by
  induction h with
  | nil => rfl
  | plain hquote hback _ _ ih => rw [scan_cons (next_inside hquote hback), ih]
  | escape _ _ ih => rw [scan_cons (m := .escaped) rfl, scan_cons (m := .inside) rfl, ih]
  | unicode ha hb hc hd _ ih =>
    have hnext : "0123456789abcdefABCDEF".toList.all (Lex.inside.next · = some .inside) = true := by
      decide
    have hhex : ∀ c, IsHex c → Lex.inside.next c = some .inside := fun c hc =>
      of_decide_eq_true (List.all_eq_true.mp hnext c hc)
    rw [scan_cons (m := .escaped) rfl, scan_cons (m := .inside) rfl, scan_cons (hhex _ ha),
      scan_cons (hhex _ hb), scan_cons (hhex _ hc), scan_cons (hhex _ hd), ih]

theorem scan_string (h : Chars cs) : scan .outside (quote :: (cs ++ [quote])) = some .outside := by
  rw [scan_cons (m := .inside) rfl, scan_append (scan_chars h)]
  rfl

theorem digit_plain (h : c.isDigit = true) : c ∈ plain_chars := by
  have hdigits : ∀ d < 10, Char.ofNat (48 + d) ∈ plain_chars := by decide
  obtain ⟨hle, hge⟩ := Char.isDigit_iff_toNat.mp h
  rw [show '0'.toNat = 48 from rfl] at hle
  rw [show '9'.toNat = 57 from rfl] at hge
  have hdigit := hdigits (c.toNat - 48) (by omega)
  rw [Nat.add_sub_cancel' hle, Char.ofNat_toNat] at hdigit
  exact hdigit

theorem scan_digits (h : ∀ c ∈ cs, c.isDigit = true) : scan .outside cs = some .outside :=
  scan_plain fun c hc => digit_plain (h c hc)

theorem scan_sign {sign : List Char} (h : sign ∈ [[], ['+'], ['-']]) :
    scan .outside sign = some .outside := by
  have hsigns : ∀ sign ∈ [[], ['+'], ['-']], scan .outside sign = some .outside := by decide
  exact hsigns sign h

theorem scan_number (h : Number cs) : scan .outside cs = some .outside := by
  obtain ⟨hsign, hint, hfrac, hexp⟩ := h
  have hminus : ∀ sign ∈ [[], ['-']], scan .outside sign = some .outside := by decide
  rw [List.append_assoc, List.append_assoc, scan_append (hminus _ hsign)]
  have hint' : ∀ {cs}, Integer cs → scan .outside cs = some .outside := by
    intro cs h
    cases h with
    | zero => rfl
    | positive hne h => exact scan_digits h.2
  have hfrac' : ∀ {cs}, Fraction cs → scan .outside cs = some .outside := by
    intro cs h
    cases h with
    | none => rfl
    | some h => rw [scan_cons (m := .outside) rfl, scan_digits h.2]
  rw [scan_append (hint' hint), scan_append (hfrac' hfrac)]
  cases hexp with
  | none => rfl
  | @some e sign cs he hsign h =>
    have he' : ['e', 'E'].all (plain_chars.contains ·) = true := by decide
    rw [scan_cons (next_plain (List.contains_iff_mem.mp (List.all_eq_true.mp he' e he))),
      scan_append (scan_sign hsign), scan_digits h.2]

/-- The scan of a text ends outside of the strings. -/
theorem scan_text {n : Node} (h : Text n cs) : scan .outside cs = some .outside := by
  induction h with
  | null => rfl
  | true => rfl
  | false => rfl
  | number h => exact scan_number h
  | string h => exact scan_string h
  | empty_array hw =>
    rw [scan_cons (m := .outside) rfl, scan_append (scan_space hw)]
    rfl
  | array _ ih =>
    rw [scan_cons (m := .outside) rfl, scan_append ih]
    rfl
  | empty_object hw =>
    rw [scan_cons (m := .outside) rfl, scan_append (scan_space hw)]
    rfl
  | object _ ih =>
    rw [scan_cons (m := .outside) rfl, scan_append ih]
    rfl
  | element hw _ hw' ih =>
    rw [List.append_assoc, scan_append (scan_space hw), scan_append ih, scan_space hw']
  | more_elements _ _ ih ih' => rw [scan_append ih, scan_cons (m := .outside) rfl, ih']
  | member hw hk hw' hw₁ _ hw₂ ih =>
    rw [List.append_assoc, List.append_assoc, scan_append (scan_space hw),
      scan_append (scan_string hk), scan_append (scan_space hw'), scan_cons (m := .outside) rfl,
      List.append_assoc, scan_append (scan_space hw₁), scan_append ih, scan_space hw₂]
  | more_members _ _ ih ih' => rw [scan_append ih, scan_cons (m := .outside) rfl, ih']

end json
