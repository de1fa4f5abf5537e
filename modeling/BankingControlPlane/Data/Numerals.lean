import BankingControlPlane.Data.Decimal
import BankingControlPlane.Text.Replace

/-!
# The decimal a text writes

* `Numeral` : what `Decimal(text)` can be, a finite decimal, an infinity or no number;
* `asciiText` : spaces at the ends and underscores dropped, other alphabets' digits rewritten;
* `Decimal.ofText?` : `Decimal(text)`, or nothing where it raises `InvalidOperation`;
* `ofText?_digits`, `ofText?_point`, `ofText?_points` : digits, with one point, with two of them;
* `ofText?_str` : what `str` writes is read back.

Exponents are of any size here.
-/

/-- What a text can write. -/
inductive Numeral where
  | finite (d : Decimal)
  | infinity (negative : Bool)
  | nan
deriving DecidableEq, Repr

namespace Decimal

/-- The zeros of the decimal digits; nine more digits follow each. -/
def digitZeros : List Nat :=
  [0x0030, 0x0660, 0x06F0, 0x07C0, 0x0966, 0x09E6, 0x0A66, 0x0AE6, 0x0B66, 0x0BE6, 0x0C66, 0x0CE6,
    0x0D66, 0x0DE6, 0x0E50, 0x0ED0, 0x0F20, 0x1040, 0x1090, 0x17E0, 0x1810, 0x1946, 0x19D0, 0x1A80,
    0x1A90, 0x1B50, 0x1BB0, 0x1C40, 0x1C50, 0xA620, 0xA8D0, 0xA900, 0xA9D0, 0xA9F0, 0xAA50, 0xABF0,
    0xFF10, 0x104A0, 0x10D30, 0x11066, 0x110F0, 0x11136, 0x111D0, 0x112F0, 0x11450, 0x114D0, 0x11650,
    0x116C0, 0x11730, 0x118E0, 0x11950, 0x11C50, 0x11D50, 0x11DA0, 0x11F50, 0x16A60, 0x16AC0, 0x16B50,
    0x1D7CE, 0x1D7D8, 0x1D7E2, 0x1D7EC, 0x1D7F6, 0x1E140, 0x1E2F0, 0x1E4F0, 0x1E950, 0x1FBF0]

/-- A character as ASCII: a space for any space, `0` to `9` for any decimal digit. -/
def asciiChar (c : Char) : Option Char :=
  if 0 < c.toNat ∧ c.toNat < 128 then some c
  else if Text.isSpace c then some ' '
  else (digitZeros.find? fun z => z ≤ c.toNat && c.toNat < z + 10).map fun z =>
    Nat.digitChar (c.toNat - z)

def asciiText (text : List Char) : Option (List Char) :=
  ((Text.strip text).filter fun c => c ≠ '_').mapM asciiChar

/-- Digits, at least one. -/
def isNumber (ds : List Char) : Bool := !ds.isEmpty && ds.all Char.isDigit

/-- `e`, an optional sign and digits; or nothing at all. -/
def exponent? : List Char → Option Int
  | [] => some 0
  | c :: rest =>
    if c ≠ 'e' ∧ c ≠ 'E' then none
    else match rest with
      | '-' :: ds => if isNumber ds then some (-(Nat.ofDigitChars 10 ds 0 : Int)) else none
      | '+' :: ds => if isNumber ds then some (Nat.ofDigitChars 10 ds 0) else none
      | ds => if isNumber ds then some (Nat.ofDigitChars 10 ds 0) else none

/-- The digits after the point, and what follows them. -/
def fraction? : List Char → List Char × List Char
  | '.' :: rest => (rest.takeWhile Char.isDigit, rest.dropWhile Char.isDigit)
  | rest => ([], rest)

/-- A number without its sign. -/
def unsigned? (negative : Bool) (text : List Char) : Option Decimal :=
  let int := text.takeWhile Char.isDigit
  let (frac, rest) := fraction? (text.dropWhile Char.isDigit)
  if int ++ frac = [] then none
  else (exponent? rest).map fun e =>
    ⟨negative, Nat.ofDigitChars 10 (int ++ frac) 0, e - frac.length⟩

/-- `inf`, `infinity`, and `nan` or `snan` with digits, in any case. -/
def special? (negative : Bool) (text : List Char) : Option Numeral :=
  let lower := text.map Char.toLower
  if lower = ['i', 'n', 'f'] ∨ lower = ['i', 'n', 'f', 'i', 'n', 'i', 't', 'y'] then
    some (.infinity negative)
  else match lower with
    | 'n' :: 'a' :: 'n' :: payload => if payload.all Char.isDigit then some .nan else none
    | 's' :: 'n' :: 'a' :: 'n' :: payload => if payload.all Char.isDigit then some .nan else none
    | _ => none

def signed? (negative : Bool) (text : List Char) : Option Numeral :=
  (special? negative text).or ((unsigned? negative text).map .finite)

/-- `Decimal(text)`; nothing where it raises `InvalidOperation`. -/
def ofText? (text : List Char) : Option Numeral :=
  match asciiText text with
  | none => none
  | some ('-' :: rest) => signed? true rest
  | some ('+' :: rest) => signed? false rest
  | some rest => signed? false rest

/-! ## Plain numerals -/

/-- What is neither space nor underscore, nor needs rewriting. -/
def isPrinted (c : Char) : Prop := 33 ≤ c.toNat ∧ c.toNat ≤ 126 ∧ c ≠ '_'

instance (c : Char) : Decidable (isPrinted c) := inferInstanceAs (Decidable (_ ∧ _ ∧ _))

theorem not_isSpace_of_printed {c : Char} (h : isPrinted c) : Text.isSpace c = false := by
  obtain ⟨hlow, hhigh, -⟩ := h
  simp only [Text.isSpace, Bool.or_eq_false_iff, Bool.and_eq_false_iff, decide_eq_false_iff_not]
  omega

theorem asciiText_printed {text : List Char} (h : ∀ c ∈ text, isPrinted c) :
    asciiText text = some text := by
  have hfilter : text.filter (fun c => c ≠ '_') = text := by
    rw [List.filter_eq_self]
    intro c hc
    rw [decide_eq_true_eq]
    exact (h c hc).2.2
  have hmap : text.mapM asciiChar = some text := by
    clear hfilter
    induction text with
    | nil => rfl
    | cons c text ih =>
      obtain ⟨⟨hlow, hhigh, -⟩, htext⟩ := List.forall_mem_cons.mp h
      have hc : asciiChar c = some c := by
        unfold asciiChar
        rw [if_pos (by omega)]
      rw [List.mapM_cons, hc, ih htext]
      rfl
  rw [asciiText, Text.strip_of_no_space fun c hc => not_isSpace_of_printed (h c hc), hfilter, hmap]

/-- A digit or a point. -/
def isPlain (c : Char) : Prop := c.isDigit = true ∨ c = '.'

theorem isPlain_bounds {c : Char} (h : isPlain c) : 46 ≤ c.toNat ∧ c.toNat ≤ 57 := by
  rcases h with h | rfl
  · have hdigit := Char.isDigit_iff_toNat.mp h
    simp only [show '0'.toNat = 48 from rfl, show '9'.toNat = 57 from rfl] at hdigit
    omega
  · decide

theorem isPrinted_of_plain {c : Char} (h : isPlain c) : isPrinted c := by
  have hbounds := isPlain_bounds h
  refine ⟨by omega, by omega, ?_⟩
  rintro rfl
  exact absurd hbounds (by decide)

theorem AllDigits.plain {cs : List Char} (h : AllDigits cs) : ∀ c ∈ cs, isPlain c :=
  fun c hc => Or.inl (h c hc)

theorem plain_append {xs ys : List Char} (hx : ∀ c ∈ xs, isPlain c) (hy : ∀ c ∈ ys, isPlain c) :
    ∀ c ∈ xs ++ ys, isPlain c :=
  fun c hc => (List.mem_append.mp hc).elim (hx c) (hy c)

theorem plain_point {cs : List Char} (h : ∀ c ∈ cs, isPlain c) : ∀ c ∈ '.' :: cs, isPlain c :=
  List.forall_mem_cons.mpr ⟨Or.inr rfl, h⟩

theorem toLower_digit {c : Char} (h : c.isDigit = true) : c.toLower = c := by
  have hbounds := isPlain_bounds (Or.inl h)
  unfold Char.toLower
  rw [dif_neg]
  rintro ⟨hlow, -⟩
  have : 65 ≤ c.toNat := hlow
  omega

/-- What starts with a digit is no name. -/
theorem special?_digit {c : Char} (hc : c.isDigit = true) (negative : Bool) (text : List Char) :
    special? negative (c :: text) = none := by
  have hne : ∀ x : Char, x.isDigit = false → c ≠ x := by
    rintro x hx rfl
    rw [hc] at hx
    cases hx
  unfold special?
  rw [List.map_cons, toLower_digit hc]
  dsimp only
  split_ifs with hinf
  · rcases hinf with hinf | hinf
    · exact absurd (List.cons.inj hinf).1 (hne 'i' (by decide))
    · exact absurd (List.cons.inj hinf).1 (hne 'i' (by decide))
  · split
    · next heq => exact absurd (List.cons.inj heq).1 (hne 'n' (by decide))
    · next heq => exact absurd (List.cons.inj heq).1 (hne 's' (by decide))
    · rfl

/-- What starts with a digit has no sign. -/
theorem ofText?_of_digit {c : Char} {text : List Char} (hc : c.isDigit = true)
    (h : ∀ x ∈ c :: text, isPrinted x) :
    ofText? (c :: text) = (unsigned? false (c :: text)).map .finite := by
  have hsigns : c ≠ '-' ∧ c ≠ '+' := by
    constructor
    · rintro rfl
      cases hc
    · rintro rfl
      cases hc
  unfold ofText?
  rw [asciiText_printed h]
  split
  · next heq => cases heq
  · next heq => exact absurd (List.cons.inj (Option.some.inj heq)).1 hsigns.1
  · next heq => exact absurd (List.cons.inj (Option.some.inj heq)).1 hsigns.2
  · next heq => rw [← Option.some.inj heq, signed?, special?_digit hc, Option.none_or]

/-- What starts with a digit and goes on with digits and points is a number without a sign. -/
theorem ofText?_plain {int : List Char} (hi : AllDigits int) (hne : int ≠ []) (rest : List Char)
    (hrest : ∀ c ∈ rest, isPlain c) :
    ofText? (int ++ rest) = (unsigned? false (int ++ rest)).map .finite := by
  cases int with
  | nil => exact absurd rfl hne
  | cons c int =>
    exact ofText?_of_digit (hi c (List.mem_cons_self ..)) fun x hx =>
      isPrinted_of_plain (plain_append hi.plain hrest x hx)

/-- The digits of a whole part, cut off what does not go on with a digit. -/
theorem takeWhile_digits {int : List Char} (hi : AllDigits int) (rest : List Char)
    (hrest : ∀ c, rest.head? = some c → c.isDigit = false) :
    (int ++ rest).takeWhile Char.isDigit = int ∧ (int ++ rest).dropWhile Char.isDigit = rest := by
  rw [List.takeWhile_append_of_pos hi, List.dropWhile_append_of_pos hi]
  cases rest with
  | nil => simp
  | cons c rest =>
    have hc := hrest c rfl
    simp [hc]

theorem unsigned?_digits {int : List Char} (hi : AllDigits int) (hne : int ≠ []) :
    unsigned? false int = some ⟨false, Nat.ofDigitChars 10 int 0, 0⟩ := by
  have hcut := takeWhile_digits hi [] (by simp)
  rw [List.append_nil] at hcut
  simp [unsigned?, hcut.1, hcut.2, fraction?, hne, exponent?]

theorem unsigned?_point {int frac : List Char} (hi : AllDigits int) (hne : int ≠ [])
    (hf : AllDigits frac) (rest : List Char) (hrest : ∀ c, rest.head? = some c → c.isDigit = false) :
    unsigned? false (int ++ '.' :: (frac ++ rest)) =
      (exponent? rest).map fun e =>
        ⟨false, Nat.ofDigitChars 10 (int ++ frac) 0, e - frac.length⟩ := by
  have hcut := takeWhile_digits hi ('.' :: (frac ++ rest)) (by simp)
  have hcut' := takeWhile_digits hf rest hrest
  simp [unsigned?, hcut.1, hcut.2, fraction?, hcut'.1, hcut'.2, hne]

/-- **Digits alone are the number they write.** -/
theorem ofText?_digits {int : List Char} (hi : AllDigits int) (hne : int ≠ []) :
    ofText? int = some (.finite ⟨false, Nat.ofDigitChars 10 int 0, 0⟩) := by
  have hplain := ofText?_plain hi hne [] (by simp)
  rw [List.append_nil] at hplain
  rw [hplain, unsigned?_digits hi hne]
  rfl

/-- **Digits around one point are the number they write.** -/
theorem ofText?_point {int frac : List Char} (hi : AllDigits int) (hne : int ≠ [])
    (hf : AllDigits frac) :
    ofText? (int ++ '.' :: frac) =
      some (.finite ⟨false, Nat.ofDigitChars 10 (int ++ frac) 0, -frac.length⟩) := by
  have hpoint := unsigned?_point hi hne hf [] (by simp)
  rw [List.append_nil] at hpoint
  rw [ofText?_plain hi hne _ (plain_point hf.plain), hpoint]
  simp [exponent?]

/-- **A second point is refused.** -/
theorem ofText?_points {int frac rest : List Char} (hi : AllDigits int) (hne : int ≠ [])
    (hf : AllDigits frac) (hrest : ∀ c ∈ rest, isPlain c) :
    ofText? (int ++ '.' :: (frac ++ '.' :: rest)) = none := by
  have hplain : ∀ c ∈ '.' :: (frac ++ '.' :: rest), isPlain c :=
    plain_point (plain_append hf.plain (plain_point hrest))
  rw [ofText?_plain hi hne _ hplain,
    unsigned?_point hi hne hf _ (by rintro c ⟨⟩; rfl)]
  rfl

/-! ## What `str` writes -/

theorem isNumber_toDigits (n : Nat) : isNumber (Nat.toDigits 10 n) = true := by
  have hne : Nat.toDigits 10 n ≠ [] := Nat.toDigits_ne_nil
  simp only [isNumber, Bool.and_eq_true, Bool.not_eq_true', List.isEmpty_eq_false_iff]
  exact ⟨hne, List.all_eq_true.mpr (allDigits_toDigits n)⟩

theorem exponent?_expChars (e : Option Int) : exponent? (expChars e) = some (e.getD 0) := by
  cases e with
  | none => rfl
  | some e =>
    have hdigits := isNumber_toDigits e.natAbs
    by_cases he : e < 0
    · rw [expChars, if_pos he]
      change (if isNumber (Nat.toDigits 10 e.natAbs) = true then
        some (-(Nat.ofDigitChars 10 (Nat.toDigits 10 e.natAbs) 0 : Int)) else none) = some e
      rw [if_pos hdigits, Nat.ofDigitChars_ten_toDigits, Option.some.injEq]
      omega
    · rw [expChars, if_neg he]
      change (if isNumber (Nat.toDigits 10 e.natAbs) = true then
        some (Nat.ofDigitChars 10 (Nat.toDigits 10 e.natAbs) 0 : Int) else none) = some e
      rw [if_pos hdigits, Nat.ofDigitChars_ten_toDigits, Option.some.injEq]
      omega

theorem not_digit_expChars {e : Option Int} {c : Char} (h : (expChars e).head? = some c) :
    c.isDigit = false := by
  cases e with
  | none => cases h
  | some e =>
    cases h
    rfl

theorem unsigned?_written {int frac : List Char} (hi : AllDigits int) (hne : int ≠ [])
    (hf : AllDigits frac) (negative : Bool) (e : Option Int) :
    unsigned? negative (int ++ fracChars frac ++ expChars e) =
      some ⟨negative, Nat.ofDigitChars 10 (int ++ frac) 0, e.getD 0 - frac.length⟩ := by
  have hfrac : fraction? (fracChars frac ++ expChars e) = (frac, expChars e) := by
    cases frac with
    | nil =>
      cases e with
      | none => rfl
      | some e => rfl
    | cons c frac =>
      have hcut := takeWhile_digits hf (expChars e) fun _ h => not_digit_expChars h
      simp only [fracChars, List.cons_append, fraction?]
      rw [← List.cons_append, hcut.1, hcut.2]
  have hrest : ∀ c, (fracChars frac ++ expChars e).head? = some c → c.isDigit = false := by
    intro c hc
    cases frac with
    | nil => exact not_digit_expChars (e := e) hc
    | cons d frac =>
      cases hc
      rfl
  have hcut := takeWhile_digits hi _ hrest
  have hsome : int ++ frac ≠ [] := List.append_ne_nil_of_left_ne_nil hne frac
  unfold unsigned?
  rw [List.append_assoc, hcut.1, hcut.2, hfrac]
  dsimp only
  rw [if_neg hsome, exponent?_expChars]
  rfl

theorem printed_toDigits (n : Nat) : ∀ c ∈ Nat.toDigits 10 n, isPrinted c :=
  fun c hc => isPrinted_of_plain (Or.inl (allDigits_toDigits n c hc))

theorem printed_expChars (e : Option Int) : ∀ c ∈ expChars e, isPrinted c := by
  cases e with
  | none => simp [expChars]
  | some e =>
    rw [expChars, List.forall_mem_cons, List.forall_mem_cons]
    refine ⟨by decide, ?_, printed_toDigits _⟩
    split_ifs
    · decide
    · decide

theorem printed_body {int frac : List Char} (hi : AllDigits int) (hf : AllDigits frac)
    (e : Option Int) : ∀ c ∈ int ++ fracChars frac ++ expChars e, isPrinted c := by
  intro c hc
  rcases List.mem_append.mp hc with hc | hc
  · apply isPrinted_of_plain
    rcases List.mem_append.mp hc with hc | hc
    · exact hi.plain c hc
    · cases frac with
      | nil => cases hc
      | cons d frac => exact plain_point hf.plain c hc
  · exact printed_expChars e c hc

/-- **Any decimal is read back from what `str` writes of it.** -/
theorem ofText?_str (d : Decimal) : ofText? d.str.toList = some (.finite d) := by
  obtain ⟨int, frac, exp, hi, hne, hf, hchars, hdigits, hexp⟩ := d.chars_parts
  have hbody := fun negative => unsigned?_written hi hne hf negative exp
  have hprinted := printed_body hi hf exp
  rw [hdigits, hexp] at hbody
  rw [str, String.toList_ofList, hchars]
  cases int with
  | nil => exact absurd rfl hne
  | cons c int =>
    have hc : c.isDigit = true := hi c (List.mem_cons_self ..)
    simp only [List.cons_append] at hbody hprinted ⊢
    cases hn : d.negative with
    | true =>
      rw [if_pos rfl, List.singleton_append, ofText?,
        asciiText_printed (List.forall_mem_cons.mpr ⟨by decide, hprinted⟩)]
      change signed? true (c :: (int ++ fracChars frac ++ expChars exp)) = _
      rw [signed?, special?_digit hc, Option.none_or, hbody, ← hn]
      rfl
    | false =>
      rw [if_neg (by decide), List.nil_append, ofText?_of_digit hc hprinted, hbody, ← hn]
      rfl

example : [ofText? " +1_000.5e-3 ".toList, ofText? "Infinity".toList, ofText? "1.2.3".toList] =
    [some (.finite ⟨false, 10005, -4⟩), some (.infinity false), none] := by decide

end Decimal
