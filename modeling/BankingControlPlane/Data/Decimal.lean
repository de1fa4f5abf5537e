import Mathlib.Algebra.Group.Int.Defs
import Mathlib.Algebra.Group.Nat.Defs
import Mathlib.Data.Int.Order.Basic
import Mathlib.Data.List.Basic

/-!
# Finite decimals, as the language has them

A decimal is a sign, a coefficient and an exponent; `1.5` and `1.50` are different decimals of one
value.

* `Decimal.lt`, `Decimal.le` : the order of the values, decided on integers at a common exponent;
* `Decimal.sub`, `Decimal.fraction` : exact difference, and the remainder modulo one;
* `Decimal.str` : `str(d)`, in plain or scientific form; `Decimal.ofStr` reads it back
  (`ofStr_str`), so different decimals have different texts (`str_injective`);
* `Decimal.roundCents` : `:.2f`, half to even.
-/

structure Decimal where
  negative : Bool
  digits : Nat
  exponent : Int
deriving DecidableEq, Repr

namespace Decimal

/-- A non-negative amount of hundredths. -/
def cents (n : Nat) : Decimal := ⟨false, n, -2⟩

def ofNat (n : Nat) : Decimal := ⟨false, n, 0⟩

def ofInt (z e : Int) : Decimal := ⟨decide (z < 0), z.natAbs, e⟩

/-! ## Order and arithmetic -/

/-- The value in units of `10 ^ m`, for `m` at most the exponent. -/
def scaled (d : Decimal) (m : Int) : Int :=
  (if d.negative then -(d.digits : Int) else d.digits) * 10 ^ (d.exponent - m).toNat

def le (a b : Decimal) : Prop :=
  a.scaled (min a.exponent b.exponent) ≤ b.scaled (min a.exponent b.exponent)

def lt (a b : Decimal) : Prop :=
  a.scaled (min a.exponent b.exponent) < b.scaled (min a.exponent b.exponent)

instance : LE Decimal := ⟨le⟩
instance : LT Decimal := ⟨lt⟩

instance (a b : Decimal) : Decidable (a ≤ b) :=
  inferInstanceAs (Decidable (a.scaled (min a.exponent b.exponent) ≤ b.scaled _))

instance (a b : Decimal) : Decidable (a < b) :=
  inferInstanceAs (Decidable (a.scaled (min a.exponent b.exponent) < b.scaled _))

theorem not_lt {a b : Decimal} : ¬ a < b ↔ b ≤ a := by
  change ¬ a.scaled (min a.exponent b.exponent) < b.scaled (min a.exponent b.exponent) ↔
    b.scaled (min b.exponent a.exponent) ≤ a.scaled (min b.exponent a.exponent)
  rw [min_comm b.exponent]
  exact Int.not_lt

/-- `a - b`, exact. -/
def sub (a b : Decimal) : Decimal :=
  ofInt (a.scaled (min a.exponent b.exponent) - b.scaled (min a.exponent b.exponent))
    (min a.exponent b.exponent)

/-- `d % 1`: what is left after the whole units, with the sign of `d`. -/
def fraction (d : Decimal) : Decimal :=
  if 0 ≤ d.exponent then ⟨d.negative, 0, 0⟩
  else ⟨d.negative, d.digits % 10 ^ (-d.exponent).toNat, d.exponent⟩

/-- Equality of values. -/
def equals (a b : Decimal) : Bool :=
  a.scaled (min a.exponent b.exponent) = b.scaled (min a.exponent b.exponent)

/-- The number of hundredths in a non-negative decimal that is a whole number of them. -/
def wholeCents? (d : Decimal) : Option Nat :=
  if d.negative ∧ d.digits ≠ 0 then none
  else if -2 ≤ d.exponent then some (d.digits * 10 ^ (d.exponent + 2).toNat)
  else if d.digits % 10 ^ (-2 - d.exponent).toNat = 0
    then some (d.digits / 10 ^ (-2 - d.exponent).toNat)
  else none

/-- The hundredths of the absolute value, half to even. -/
def roundCents (d : Decimal) : Nat :=
  if -2 ≤ d.exponent then d.digits * 10 ^ (d.exponent + 2).toNat
  else
    let unit := 10 ^ (-2 - d.exponent).toNat
    let low := d.digits / unit
    let rest := d.digits % unit
    if 2 * rest < unit then low
    else if unit < 2 * rest then low + 1
    else low + low % 2

/-! ## Text -/

/-- The digits around a point `dotplace` digits from their start. -/
def place (int : List Char) (dotplace : Int) : List Char × List Char :=
  if dotplace ≤ 0 then (['0'], List.replicate (-dotplace).toNat '0' ++ int)
  else if (int.length : Int) ≤ dotplace then
    (int ++ List.replicate (dotplace - int.length).toNat '0', [])
  else (int.take dotplace.toNat, int.drop dotplace.toNat)

def leftdigits (d : Decimal) : Int := d.exponent + (Nat.toDigits 10 d.digits).length

/-- Plain notation for moderate exponents, one digit before the point otherwise. -/
def dotplace (d : Decimal) : Int :=
  if d.exponent ≤ 0 ∧ -6 < d.leftdigits then d.leftdigits else 1

def expChars : Option Int → List Char
  | none => []
  | some e => 'E' :: (if e < 0 then '-' else '+') :: Nat.toDigits 10 e.natAbs

def fracChars : List Char → List Char
  | [] => []
  | frac => '.' :: frac

def chars (d : Decimal) : List Char :=
  let mantissa := place (Nat.toDigits 10 d.digits) d.dotplace
  let exp := if d.leftdigits = d.dotplace then none else some (d.leftdigits - d.dotplace)
  (if d.negative then ['-'] else []) ++ (mantissa.1 ++ fracChars mantissa.2 ++ expChars exp)

/-- `str(d)`. -/
def str (d : Decimal) : String := String.ofList d.chars

/-- The exponent written after the mantissa. -/
def readExp : List Char → Int
  | 'E' :: '-' :: ds => -(Nat.ofDigitChars 10 ds 0 : Int)
  | 'E' :: '+' :: ds => Nat.ofDigitChars 10 ds 0
  | _ => 0

def readBody (negative : Bool) (cs : List Char) : Decimal :=
  let mantissa := cs.takeWhile (· ≠ 'E')
  let int := mantissa.takeWhile (· ≠ '.')
  let frac := (mantissa.dropWhile (· ≠ '.')).drop 1
  ⟨negative, Nat.ofDigitChars 10 (int ++ frac) 0, readExp (cs.dropWhile (· ≠ 'E')) - frac.length⟩

def readChars : List Char → Decimal
  | '-' :: cs => readBody true cs
  | cs => readBody false cs

/-- `Decimal(s)`, on the texts that `str` writes. -/
def ofStr (s : String) : Decimal := readChars s.toList

/-! ## Reading back -/

def AllDigits (cs : List Char) : Prop := ∀ c ∈ cs, c.isDigit = true

theorem AllDigits.ne {cs : List Char} (h : AllDigits cs) {c : Char} (hc : c.isDigit = false) :
    ∀ x ∈ cs, (decide (x ≠ c)) = true := by
  intro x hx
  have hd := h x hx
  simp only [decide_eq_true_eq]
  rintro rfl
  rw [hc] at hd
  cases hd

theorem allDigits_toDigits (n : Nat) : AllDigits (Nat.toDigits 10 n) :=
  fun _ hc => Nat.isDigit_of_mem_toDigits (by decide) (by decide) hc

theorem allDigits_zeros (n : Nat) : AllDigits (List.replicate n '0') := by
  intro c hc
  rw [List.eq_of_mem_replicate hc]
  decide

theorem AllDigits.append {xs ys : List Char} (hx : AllDigits xs) (hy : AllDigits ys) :
    AllDigits (xs ++ ys) := by
  intro c hc
  exact (List.mem_append.mp hc).elim (hx c) (hy c)

theorem readExp_expChars (e : Option Int) : readExp (expChars e) = e.getD 0 := by
  cases e with
  | none => rfl
  | some e =>
    by_cases he : e < 0
    · simp only [expChars, he, if_true, readExp, Nat.ofDigitChars_ten_toDigits, Option.getD_some]
      omega
    · simp only [expChars, he, if_false, readExp, Nat.ofDigitChars_ten_toDigits, Option.getD_some]
      omega

/-- What is read from an integer part, a fraction and an exponent. -/
theorem readBody_append {int frac : List Char} (hi : AllDigits int) (hf : AllDigits frac)
    (negative : Bool) (e : Option Int) :
    readBody negative (int ++ fracChars frac ++ expChars e) =
      ⟨negative, Nat.ofDigitChars 10 (int ++ frac) 0, e.getD 0 - frac.length⟩ := by
  have hm : ∀ x ∈ int ++ fracChars frac, (decide (x ≠ 'E')) = true := by
    intro x hx
    rcases List.mem_append.mp hx with hx | hx
    · exact hi.ne (by decide) x hx
    · cases frac with
      | nil => cases hx
      | cons c cs =>
        rcases List.mem_cons.mp hx with rfl | hx
        · decide
        · exact hf.ne (by decide) x hx
  have hE : (expChars e).takeWhile (fun c => decide (c ≠ 'E')) = [] ∧
      (expChars e).dropWhile (fun c => decide (c ≠ 'E')) = expChars e := by
    cases e <;> simp [expChars]
  have hdot : (fracChars frac).takeWhile (fun c => decide (c ≠ '.')) = [] ∧
      ((fracChars frac).dropWhile (fun c => decide (c ≠ '.'))).drop 1 = frac := by
    cases frac <;> simp [fracChars]
  simp only [readBody, List.takeWhile_append_of_pos hm, List.dropWhile_append_of_pos hm, hE.1, hE.2,
    List.append_nil, List.takeWhile_append_of_pos (hi.ne (by decide : Char.isDigit '.' = false)),
    List.dropWhile_append_of_pos (hi.ne (by decide : Char.isDigit '.' = false)), hdot.1, hdot.2,
    readExp_expChars]

theorem ofDigitChars_zeros_append (n : Nat) (cs : List Char) :
    Nat.ofDigitChars 10 (List.replicate n '0' ++ cs) 0 = Nat.ofDigitChars 10 cs 0 := by
  rw [Nat.ofDigitChars_append, Nat.ofDigitChars_replicate_zero, Nat.mul_zero]

theorem place_allDigits {int : List Char} (h : AllDigits int) (dotplace : Int) :
    AllDigits (place int dotplace).1 ∧ AllDigits (place int dotplace).2 := by
  unfold place
  split_ifs
  · exact ⟨allDigits_zeros 1, (allDigits_zeros _).append h⟩
  · exact ⟨h.append (allDigits_zeros _), by simp [AllDigits]⟩
  · exact ⟨fun c hc => h c (List.mem_of_mem_take hc), fun c hc => h c (List.mem_of_mem_drop hc)⟩

/-- The point moves no digit: the number written is the same, and so many digits follow it. -/
theorem place_value {int : List Char} {dotplace : Int} (h : dotplace ≤ int.length) :
    Nat.ofDigitChars 10 ((place int dotplace).1 ++ (place int dotplace).2) 0 =
        Nat.ofDigitChars 10 int 0 ∧
      ((place int dotplace).2.length : Int) = int.length - dotplace := by
  unfold place
  split_ifs with h0 h1
  · refine ⟨ofDigitChars_zeros_append 1 _ |>.trans (ofDigitChars_zeros_append _ _), ?_⟩
    simp only [List.length_append, List.length_replicate]
    omega
  · have heq : dotplace = int.length := by omega
    simp [heq]
  · refine ⟨by rw [List.take_append_drop], ?_⟩
    simp only [List.length_drop]
    omega

theorem dotplace_le (d : Decimal) : d.dotplace ≤ (Nat.toDigits 10 d.digits).length := by
  have hpos : 0 < (Nat.toDigits 10 d.digits).length := Nat.length_toDigits_pos
  unfold dotplace leftdigits
  split_ifs with h
  · omega
  · omega

theorem readChars_minus (cs : List Char) : readChars ('-' :: cs) = readBody true cs := rfl

theorem readChars_digits {int rest : List Char} (h : AllDigits int) (hne : int ≠ []) :
    readChars (int ++ rest) = readBody false (int ++ rest) := by
  cases int with
  | nil => exact absurd rfl hne
  | cons c cs =>
    have hc : c ≠ '-' := by simpa using h.ne (by decide : Char.isDigit '-' = false) c (by simp)
    simp only [List.cons_append]
    unfold readChars
    split
    · next heq => exact absurd (List.cons.inj heq).1 hc
    · rfl

theorem place_ne_nil {int : List Char} (h : int ≠ []) (dotplace : Int) :
    (place int dotplace).1 ≠ [] := by
  unfold place
  split_ifs with h0 h1
  · simp
  · simp [h]
  · have hpos : 0 < dotplace := by omega
    simp [h, hpos]

/-- What `str` writes: digits, perhaps a point and digits, perhaps an exponent; together they are the
coefficient and the exponent. -/
theorem chars_parts (d : Decimal) : ∃ int frac exp,
    AllDigits int ∧ int ≠ [] ∧ AllDigits frac ∧
    d.chars = (if d.negative then ['-'] else []) ++ (int ++ fracChars frac ++ expChars exp) ∧
    Nat.ofDigitChars 10 (int ++ frac) 0 = d.digits ∧ exp.getD 0 - frac.length = d.exponent := by
  obtain ⟨hi, hf⟩ := place_allDigits (allDigits_toDigits d.digits) d.dotplace
  obtain ⟨hval, hlen⟩ := place_value d.dotplace_le
  refine ⟨_, _, if d.leftdigits = d.dotplace then none else some (d.leftdigits - d.dotplace), hi,
    place_ne_nil (Nat.toDigits_ne_nil (n := d.digits) (b := 10)) d.dotplace, hf, rfl, ?_, ?_⟩
  · rw [hval, Nat.ofDigitChars_ten_toDigits]
  · rw [hlen]
    unfold leftdigits
    split_ifs with h
    · rw [Option.getD_none]
      omega
    · rw [Option.getD_some]
      omega

theorem readChars_chars (d : Decimal) : readChars d.chars = d := by
  obtain ⟨int, frac, exp, hi, hne, hf, hchars, hdigits, hexp⟩ := d.chars_parts
  have hbody := fun negative => readBody_append hi hf negative exp
  rw [hdigits, hexp] at hbody
  rw [hchars]
  cases hn : d.negative with
  | true =>
    rw [if_pos rfl, List.singleton_append, readChars_minus, hbody, ← hn]
  | false =>
    rw [if_neg (by decide), List.nil_append, List.append_assoc, readChars_digits hi hne,
      ← List.append_assoc, hbody, ← hn]

/-- **Reading what `str` wrote gives the decimal back, sign, coefficient and exponent.** -/
theorem ofStr_str (d : Decimal) : ofStr d.str = d := by
  rw [ofStr, str, String.toList_ofList, readChars_chars]

theorem str_injective : Function.Injective str :=
  Function.LeftInverse.injective ofStr_str

example : [str ⟨false, 12345, -2⟩, str ⟨true, 5, -8⟩, str ⟨false, 1, 3⟩, str ⟨false, 0, -2⟩] =
    ["123.45", "-5E-8", "1E+3", "0.00"] := by decide

end Decimal
