import BankingControlPlane.Data.Values
import BankingControlPlane.Plane.Sample
import BankingControlPlane.Tools.Amounts
import Mathlib.Tactic.Ring

/-!
# Amounts, read and shown

* `Stated` : an amount in Brazilian form, with `Stated.text` and the value it denotes;
* `Stated.read` : what the tool reads, by the separators in the text (`amount_written`);
* `Stated.DotForPoint` : three digits after the only dot, which are taken for decimals;
* `never_misread` : a proposal has the amount written, except in that case;
* `amount_brl`, `display_round_trip` : what the customer is shown is read back as the same amount.
-/

namespace BankingControlPlane
open Text Decimal

/-! ## Digits -/

abbrev Digit := Fin 10

def digitChars (ds : List Digit) : List Char := ds.map fun d : Digit => Nat.digitChar d.val

/-- The number some digits write. -/
def digitsValue (ds : List Digit) : Nat := ds.foldl (fun n (d : Digit) => 10 * n + d.val) 0

theorem isDigit_digitChar (d : Digit) : (Nat.digitChar d.val).isDigit = true := by
  revert d
  decide

theorem allDigits_digitChars (ds : List Digit) : AllDigits (digitChars ds) := by
  intro c hc
  obtain ⟨d, -, rfl⟩ := List.mem_map.mp hc
  exact isDigit_digitChar d

theorem ofDigitChars_digitChars (ds : List Digit) (n : Nat) :
    Nat.ofDigitChars 10 (digitChars ds) n =
      ds.foldl (fun n (d : Digit) => 10 * n + d.val) n := by
  induction ds generalizing n with
  | nil => rfl
  | cons d ds ih =>
    rw [digitChars, List.map_cons, Nat.ofDigitChars_cons_digitChar_of_lt_ten d.isLt]
    exact ih _

theorem digitChars_append (xs ys : List Digit) :
    digitChars (xs ++ ys) = digitChars xs ++ digitChars ys := List.map_append

@[simp] theorem length_digitChars (ds : List Digit) : (digitChars ds).length = ds.length :=
  List.length_map _

theorem digitsValue_append (xs ys : List Digit) :
    digitsValue (xs ++ ys) = 10 ^ ys.length * digitsValue xs + digitsValue ys := by
  unfold digitsValue
  rw [← ofDigitChars_digitChars, digitChars_append, Nat.ofDigitChars_append,
    Nat.ofDigitChars_eq_ofDigitChars_zero, ofDigitChars_digitChars, ofDigitChars_digitChars,
    length_digitChars]

/-! ## Brazilian form -/

/-- Three digits after a dot. -/
structure Group where
  hundreds : Digit
  tens : Digit
  units : Digit
deriving DecidableEq, Repr

def Group.digits (g : Group) : List Digit := [g.hundreds, g.tens, g.units]

/-- The digits before the first dot. -/
structure Head where
  digits : List Digit
  some : digits ≠ []
  few : digits.length ≤ 3
deriving DecidableEq, Repr

inductive Whole where
  | plain (first : Digit) (rest : List Digit)
  | grouped (head : Head) (first : Group) (groups : List Group)
deriving DecidableEq, Repr

def Whole.digits : Whole → List Digit
  | .plain first rest => first :: rest
  | .grouped head first groups => head.digits ++ (first :: groups).flatMap Group.digits

def Whole.chars : Whole → List Char
  | .plain first rest => digitChars (first :: rest)
  | .grouped head first groups =>
    digitChars head.digits ++ (first :: groups).flatMap fun g => '.' :: digitChars g.digits

/-- One digit of cents, or two. -/
structure Cents where
  tens : Digit
  units : Option Digit
deriving DecidableEq, Repr

def Cents.digits (c : Cents) : List Digit := c.tens :: c.units.toList

def Cents.count (c : Cents) : Nat := 10 * c.tens + (c.units.map Fin.val).getD 0

/-- An amount as a customer writes it: spaces and `R$` or not, an integer part, and cents or not. -/
structure Stated where
  before : Nat := 0
  currency : Bool := false
  between : Nat := 0
  whole : Whole
  cents : Option Cents := none
  after : Nat := 0
deriving DecidableEq, Repr

namespace Stated

def numeral (w : Stated) : List Char :=
  w.whole.chars ++ match w.cents with
    | none => []
    | some c => ',' :: digitChars c.digits

def text (w : Stated) : String :=
  String.ofList (currencyText w.before w.currency w.between ++ w.numeral ++
    List.replicate w.after ' ')

/-- The amount denoted, in cents. -/
def inCents (w : Stated) : Nat :=
  100 * digitsValue w.whole.digits + (w.cents.map Cents.count).getD 0

def value (w : Stated) : ℚ := w.inCents / 100

/-- What `_amount` makes of it: without a comma, a dot is a decimal point. -/
def read (w : Stated) : Option Decimal :=
  match w.cents, w.whole with
  | some c, whole => some ⟨false, digitsValue (whole.digits ++ c.digits), -c.digits.length⟩
  | none, .plain first rest => some ⟨false, digitsValue (first :: rest), 0⟩
  | none, .grouped head first [] => some ⟨false, digitsValue (head.digits ++ first.digits), -3⟩
  | none, .grouped _ _ (_ :: _) => none

end Stated

/-! ## What is read -/

theorem Whole.digits_ne_nil (whole : Whole) : whole.digits ≠ [] := by
  cases whole with
  | plain first rest => exact List.cons_ne_nil _ _
  | grouped head first groups => exact List.append_ne_nil_of_left_ne_nil head.some _

theorem digitChars_ne_nil {ds : List Digit} (h : ds ≠ []) : digitChars ds ≠ [] := by
  rw [digitChars, Ne, List.map_eq_nil_iff]
  exact h

theorem filter_digitChars (ds : List Digit) :
    (digitChars ds).filter (fun c => c ≠ '.') = digitChars ds := by
  rw [List.filter_eq_self]
  intro c hc
  rw [decide_eq_true_eq]
  rintro rfl
  exact dot_not_in_digits (allDigits_digitChars ds) hc

/-- Without its dots an integer part is its digits. -/
theorem Whole.filter_chars (whole : Whole) :
    whole.chars.filter (fun c => c ≠ '.') = digitChars whole.digits := by
  cases whole with
  | plain first rest => exact filter_digitChars _
  | grouped head first groups =>
    have hgroups : ∀ gs : List Group,
        (gs.flatMap fun g => '.' :: digitChars g.digits).filter (fun c => c ≠ '.') =
          digitChars (gs.flatMap Group.digits) := by
      intro gs
      induction gs with
      | nil => rfl
      | cons g gs ih =>
        rw [List.flatMap_cons, List.filter_append, ih, List.filter_cons, if_neg (by decide),
          filter_digitChars, List.flatMap_cons, digitChars_append]
    rw [Whole.chars, List.filter_append, hgroups, filter_digitChars, Whole.digits,
      digitChars_append]

/-- An integer part has digits and dots. -/
theorem Whole.plain_chars (whole : Whole) : ∀ c ∈ whole.chars, isPlain c := by
  cases whole with
  | plain first rest => exact (allDigits_digitChars _).plain
  | grouped head first groups =>
    apply plain_append (allDigits_digitChars _).plain
    intro c hc
    obtain ⟨g, -, hg⟩ := List.mem_flatMap.mp hc
    exact plain_point (allDigits_digitChars _).plain c hg

theorem comma_not_plain : ¬ isPlain ',' := by
  rintro (h | h)
  · cases h
  · cases h

theorem clean_of_plain {text : List Char} (h : ∀ c ∈ text, isPlain c) : Cleaned text := by
  intro c hc
  have hbounds := isPlain_bounds (h c hc)
  constructor
  · rintro rfl
    exact absurd hbounds (by decide)
  · rintro rfl
    exact absurd hbounds (by decide)

theorem Stated.clean_numeral (w : Stated) : Cleaned w.numeral := by
  intro c hc
  rcases List.mem_append.mp hc with hwhole | hcents
  · exact clean_of_plain w.whole.plain_chars c hwhole
  · cases hw : w.cents with
    | none =>
      rw [hw] at hcents
      cases hcents
    | some cents =>
      rw [hw] at hcents
      rcases List.mem_cons.mp hcents with rfl | hdigits
      · decide
      · exact clean_of_digits (allDigits_digitChars _) c hdigits

theorem ofText?_digitChars {int : List Digit} (h : int ≠ []) :
    Decimal.ofText? (digitChars int) = some (.finite ⟨false, digitsValue int, 0⟩) := by
  rw [ofText?_digits (allDigits_digitChars int) (digitChars_ne_nil h), ofDigitChars_digitChars]
  rfl

theorem ofText?_point_digitChars {int : List Digit} (h : int ≠ []) (frac : List Digit) :
    Decimal.ofText? (digitChars int ++ '.' :: digitChars frac) =
      some (.finite ⟨false, digitsValue (int ++ frac), -frac.length⟩) := by
  rw [ofText?_point (allDigits_digitChars int) (digitChars_ne_nil h) (allDigits_digitChars frac),
    ← digitChars_append, ofDigitChars_digitChars, length_digitChars]
  rfl

/-- **What `_amount` reads in an amount of Brazilian form.** -/
theorem amount_written (w : Stated) : Tool.amount w.text = w.read.map .finite := by
  obtain ⟨before, currency, between, whole, cents, after⟩ := w
  have hclean := Stated.clean_numeral ⟨before, currency, between, whole, cents, after⟩
  have hcomma : ',' ∉ whole.chars := fun h => comma_not_plain (whole.plain_chars _ h)
  unfold Tool.amount Stated.text
  rw [String.toList_ofList, cleaned_text before currency between hclean after]
  cases cents with
  | some c =>
    change Decimal.ofText? (pointForComma (whole.chars ++ ',' :: digitChars c.digits)) = _
    rw [pointForComma_comma hcomma (allDigits_digitChars _), Whole.filter_chars,
      ofText?_point_digitChars whole.digits_ne_nil]
    rfl
  | none =>
    change Decimal.ofText? (pointForComma (whole.chars ++ [])) = _
    rw [List.append_nil, pointForComma_none hcomma]
    cases whole with
    | plain first rest => exact ofText?_digitChars (List.cons_ne_nil _ _)
    | grouped head first groups =>
      cases groups with
      | nil =>
        change Decimal.ofText? (digitChars head.digits ++ '.' :: (digitChars first.digits ++ [])) = _
        rw [List.append_nil, ofText?_point_digitChars head.some]
        rfl
      | cons g groups =>
        have hrest := Whole.plain_chars (.grouped head g groups)
        change Decimal.ofText? (digitChars head.digits ++ '.' :: (digitChars first.digits ++
          '.' :: (digitChars g.digits ++ groups.flatMap fun g => '.' :: digitChars g.digits))) = _
        rw [ofText?_points (allDigits_digitChars _) (digitChars_ne_nil head.some)
          (allDigits_digitChars _)]
        · rfl
        · intro c hc
          exact hrest c (List.mem_append_right _ (List.mem_cons_of_mem _ hc))

/-! ## What it is worth -/

theorem digitsValue_lt (ds : List Digit) : digitsValue ds < 10 ^ ds.length := by
  induction ds using List.reverseRecOn with
  | nil => decide
  | append_singleton ds d ih =>
    have hd := d.isLt
    rw [digitsValue_append, List.length_append, List.length_singleton, pow_succ]
    change 10 ^ 1 * digitsValue ds + (10 * 0 + d.val) < _
    omega

theorem Group.digitsValue_eq (g : Group) :
    digitsValue g.digits = 100 * g.hundreds.val + 10 * g.tens.val + g.units.val := by
  change 10 * (10 * (10 * 0 + g.hundreds.val) + g.tens.val) + g.units.val = _
  omega

/-- One digit of cents is tens of them. -/
theorem Cents.count_eq (c : Cents) :
    (c.count : ℚ) / 100 = digitsValue c.digits * (10 : ℚ) ^ (-(c.digits.length : Int)) := by
  obtain ⟨tens, units⟩ := c
  cases units with
  | none =>
    change ((10 * tens.val + 0 : Nat) : ℚ) / 100 = ((10 * 0 + tens.val : Nat) : ℚ) * _
    push_cast
    rw [show (10 : ℚ) ^ (-((Cents.digits ⟨tens, none⟩).length : Int)) = 1 / 10 by norm_num [Cents.digits]]
    ring
  | some units =>
    change ((10 * tens.val + units.val : Nat) : ℚ) / 100 =
      ((10 * (10 * 0 + tens.val) + units.val : Nat) : ℚ) * _
    push_cast
    rw [show (10 : ℚ) ^ (-((Cents.digits ⟨tens, some units⟩).length : Int)) = 1 / 100 by
      norm_num [Cents.digits]]
    ring

namespace Stated

/-- Without cents, the integer part is the value. -/
theorem value_of_no_cents {w : Stated} (h : w.cents = none) :
    w.value = digitsValue w.whole.digits := by
  rw [value, inCents, h]
  push_cast
  rw [Option.map_none, Option.getD_none, Nat.cast_zero, add_zero,
    mul_div_cancel_left₀ _ (by norm_num : (100 : ℚ) ≠ 0)]

theorem value_of_cents {w : Stated} {c : Cents} (h : w.cents = some c) :
    Decimal.value ⟨false, digitsValue (w.whole.digits ++ c.digits), -c.digits.length⟩ = w.value := by
  have hpow : (10 : ℚ) ^ c.digits.length * (10 : ℚ) ^ (-(c.digits.length : Int)) = 1 := by
    rw [zpow_neg, zpow_natCast]
    exact mul_inv_cancel₀ (by positivity)
  rw [value_of_pos, digitsValue_append, Stated.value, inCents, h]
  push_cast
  rw [add_mul, mul_right_comm, hpow, one_mul, ← c.count_eq]
  simp only [Option.map_some, Option.getD_some]
  ring

/-- A single dot and no comma, with a last digit that does not show as a decimal: the dot of thousands
is taken for the decimal point. -/
def DotForPoint (w : Stated) : Prop :=
  match w.cents, w.whole with
  | none, .grouped _ first [] => first.units.val = 0 ∧ w.inCents ≠ 0
  | _, _ => False

end Stated

/-- Thousandths are money when they are whole cents. -/
theorem isMoney_thousandths {n : Nat} (h : n < 10 ^ 6) :
    isMoney ⟨false, n, -3⟩ = true ↔ n % 10 = 0 ∧ n ≠ 0 := by
  have hcents : Decimal.wholeCents? ⟨false, n, -3⟩ = if n % 10 = 0 then some (n / 10) else none := by
    rfl
  unfold isMoney
  rw [hcents]
  by_cases hmod : n % 10 = 0
  · rw [if_pos hmod]
    simp only [Bool.and_eq_true, decide_eq_true_eq]
    omega
  · simp [hmod]

/-- The two readings of a text with one dot and no comma. -/
theorem Stated.read_one_dot {w : Stated} {head : Head} {first : Group} (hcents : w.cents = none)
    (hwhole : w.whole = .grouped head first []) :
    ∃ n < 10 ^ 6, w.read = some ⟨false, n, -3⟩ ∧ w.value = n ∧ w.inCents = 100 * n ∧
      n % 10 = first.units.val := by
  have hdigits : w.whole.digits = head.digits ++ first.digits := by
    rw [hwhole]
    exact congrArg _ (List.append_nil _)
  have hlt := digitsValue_lt (head.digits ++ first.digits)
  have hlen : (head.digits ++ first.digits).length ≤ 6 := by
    have := head.few
    rw [List.length_append]
    change head.digits.length + 3 ≤ 6
    omega
  refine ⟨digitsValue (head.digits ++ first.digits), ?_, ?_, ?_, ?_, ?_⟩
  · exact lt_of_lt_of_le hlt (Nat.pow_le_pow_right (by decide) hlen)
  · rw [Stated.read, hcents, hwhole]
  · rw [Stated.value_of_no_cents hcents, hdigits]
  · rw [Stated.inCents, hcents, hdigits]
    rfl
  · have hunits := first.units.isLt
    rw [digitsValue_append, first.digitsValue_eq]
    change (10 ^ 3 * _ + _) % 10 = _
    omega

theorem Stated.DotForPoint.read {w : Stated} (h : w.DotForPoint) :
    ∃ d, w.read = some d ∧ isMoney d = true ∧ d.value ≠ w.value := by
  unfold Stated.DotForPoint at h
  split at h
  · next hcents hwhole =>
    obtain ⟨n, hlt, hread, hvalue, hin, hmod⟩ := Stated.read_one_dot hcents hwhole
    have hn : n ≠ 0 := by
      rintro rfl
      exact h.2 hin
    refine ⟨_, hread, (isMoney_thousandths hlt).mpr ⟨by omega, hn⟩, ?_⟩
    rw [value_of_pos, hvalue, zpow_neg]
    intro heq
    have hq : (0 : ℚ) < n := by exact_mod_cast Nat.pos_of_ne_zero hn
    norm_num at heq
    linarith
  · exact absurd h id

theorem Stated.read_value {w : Stated} (h : ¬ w.DotForPoint) {d : Decimal} (hread : w.read = some d)
    (hmoney : isMoney d = true) : d.value = w.value := by
  unfold Stated.read at hread
  split at hread
  · next c hcents =>
    rw [← Option.some.inj hread, Stated.value_of_cents hcents]
  · next first rest hcents hwhole =>
    rw [← Option.some.inj hread, Stated.value_of_no_cents hcents, hwhole, value_of_pos, zpow_zero,
      mul_one]
    rfl
  · next head first hcents hwhole =>
    obtain ⟨n, hlt, hread', -, hin, hmod⟩ := Stated.read_one_dot hcents hwhole
    have hd : some d = some ⟨false, n, -3⟩ := by
      rw [← hread', Stated.read, hcents, hwhole]
      exact hread.symm
    rw [Option.some.inj hd] at hmoney
    obtain ⟨hzero, hne⟩ := (isMoney_thousandths hlt).mp hmoney
    refine absurd ?_ h
    unfold Stated.DotForPoint
    rw [hcents, hwhole]
    exact ⟨by omega, by omega⟩
  · cases hread

/-- The tool asks again, or it proposes exactly the amount written. -/
def ReadsRight (env : Env) (recipient : String) (w : Stated) : Prop :=
  ∀ ctx,
    (∃ outcome, (Tool.proposing env recipient w.text).op ctx = .error outcome ∧
      outcome.status = .decision .requireMoreInfo) ∨
    ∃ d proposed, Tool.amount w.text = some (.finite d) ∧ d.value = w.value ∧
      (Tool.proposing env recipient w.text).op ctx =
        .ok (.propose ctx proposed (recipient ++ " " ++ w.text)) ∧
      proposed.amount.val = d

theorem Stated.DotForPoint.misread {w : Stated} (h : w.DotForPoint) {env : Env}
    {recipient : String} (hnamed : recipient ≠ "") : ¬ ReadsRight env recipient w := by
  intro hright
  obtain ⟨d, hread, hmoney, hne⟩ := h.read
  have hamount : Tool.amount w.text = some (.finite d) := by
    rw [amount_written, hread]
    rfl
  have hop := proposing_money env session hamount hmoney hnamed
  rcases hright session with ⟨outcome, herror, -⟩ | ⟨d', proposed, hamount', hvalue, -⟩
  · rw [hop] at herror
    cases herror
  · rw [hamount] at hamount'
    cases hamount'
    exact hne hvalue

theorem Stated.reads_right {w : Stated} (h : ¬ w.DotForPoint) (env : Env) (recipient : String) :
    ReadsRight env recipient w := by
  intro ctx
  cases hop : (Tool.proposing env recipient w.text).op ctx with
  | error outcome => exact Or.inl ⟨outcome, rfl, proposing_asks hop⟩
  | ok op =>
    obtain ⟨proposed, rfl, hamount, -⟩ := proposing_op hop
    have hread : w.read = some proposed.amount.val := by
      rw [amount_written] at hamount
      cases hr : w.read with
      | none =>
        rw [hr] at hamount
        cases hamount
      | some d =>
        rw [hr] at hamount
        cases hamount
        rfl
    exact Or.inr ⟨_, proposed, hamount, Stated.read_value h hread proposed.amount.valid, rfl, rfl⟩

theorem reads_right_unnamed (env : Env) (w : Stated) : ReadsRight env "" w := by
  intro ctx
  cases hop : (Tool.proposing env "" w.text).op ctx with
  | error outcome => exact Or.inl ⟨outcome, rfl, proposing_asks hop⟩
  | ok op =>
    obtain ⟨proposed, -, -, hrecipient⟩ := proposing_op hop
    exact absurd hrecipient proposed.named

/-- **An amount in Brazilian form is proposed as written, or not at all, unless its one dot is taken
for a decimal point.** -/
theorem never_misread (env : Env) (recipient : String) (w : Stated) :
    ReadsRight env recipient w ↔ recipient = "" ∨ ¬ w.DotForPoint := by
  constructor
  · intro h
    by_contra hnot
    obtain ⟨hnamed, hdot⟩ := not_or.mp hnot
    exact (not_not.mp hdot).misread hnamed h
  · rintro (rfl | hdot)
    · exact reads_right_unnamed env w
    · exact Stated.reads_right hdot env recipient

/-- Twelve hundred reais, without cents. -/
def twelveHundred : Stated := { whole := .grouped ⟨[1], by decide, by decide⟩ ⟨2, 0, 0⟩ [] }

/-- `1.200` is proposed as one real and twenty cents. -/
theorem twelve_hundred_misread :
    twelveHundred.text = "1.200" ∧ twelveHundred.inCents = 120000 ∧
      Tool.amount twelveHundred.text = some (.finite ⟨false, 1200, -3⟩) ∧
      ¬ ReadsRight (sampleEnv noon) "Renata" twelveHundred :=
  ⟨by decide, by decide, amount_written twelveHundred,
    Stated.DotForPoint.misread (w := twelveHundred) ⟨rfl, by decide⟩ (by decide)⟩

/-! ## Shown and read back -/

theorem filter_groupThrees {cs : List Char} (h : '.' ∉ cs) :
    (groupThrees cs).filter (fun c => c ≠ '.') = cs := by
  have hkept : ∀ xs : List Char, '.' ∉ xs → xs.filter (fun c => c ≠ '.') = xs := by
    intro xs hxs
    rw [List.filter_eq_self]
    intro c hc
    rw [decide_eq_true_eq]
    rintro rfl
    exact hxs hc
  induction cs using groupThrees.induct with
  | case1 a b c d rest ih =>
    have hrest : '.' ∉ d :: rest := fun hmem => h (by simp [hmem])
    have hthree : '.' ∉ [a, b, c] := fun hmem => h (List.mem_append_left (d :: rest) hmem)
    rw [groupThrees, show a :: b :: c :: '.' :: groupThrees (d :: rest) =
      [a, b, c] ++ '.' :: groupThrees (d :: rest) from rfl, List.filter_append, hkept _ hthree,
      List.filter_cons, if_neg (by decide), ih hrest]
    rfl
  | case2 cs hshort =>
    rw [groupThrees]
    · exact hkept cs h
    · exact hshort

theorem plain_groupThrees {cs : List Char} (h : AllDigits cs) : ∀ c ∈ groupThrees cs, isPlain c := by
  intro c hc
  by_cases hdot : c = '.'
  · exact Or.inr hdot
  · have hkept : c ∈ (groupThrees cs).filter fun c => c ≠ '.' := by
      rw [List.mem_filter, decide_eq_true_eq]
      exact ⟨hc, hdot⟩
    rw [filter_groupThrees (dot_not_in_digits h)] at hkept
    exact Or.inl (h c hkept)

theorem toDigits_of_lt_ten {n : Nat} (h : n < 10) : (Nat.toDigits 10 n).length = 1 := by
  rw [Nat.toDigits_of_lt_base h]
  rfl

/-- The digits of a number under a hundred, two of them. -/
theorem pad2_digits {n : Nat} (h : n < 100) :
    AllDigits (pad2 n).toList ∧ (pad2 n).toList.length = 2 ∧
      Nat.ofDigitChars 10 (pad2 n).toList 0 = n := by
  unfold pad2
  by_cases hten : n < 10
  · simp only [if_pos hten, String.toList_append, Nat.toString_eq_ofList_toDigits,
      String.toList_ofList]
    refine ⟨(allDigits_zeros 1).append (allDigits_toDigits n), ?_, ?_⟩
    · rw [List.length_append, toDigits_of_lt_ten hten]
      rfl
    · exact (ofDigitChars_zeros_append 1 _).trans Nat.ofDigitChars_ten_toDigits
  · rw [if_neg hten, Nat.toString_eq_ofList_toDigits, String.toList_ofList]
    refine ⟨allDigits_toDigits n, ?_, Nat.ofDigitChars_ten_toDigits⟩
    have hlow : ¬ (Nat.toDigits 10 n).length ≤ 1 := by
      rw [Nat.length_toDigits_le_iff (by decide) (by decide)]
      omega
    have hhigh : (Nat.toDigits 10 n).length ≤ 2 := by
      rw [Nat.length_toDigits_le_iff (by decide) (by decide)]
      omega
    omega

/-- The integer part shown for an amount. -/
def shownWhole (n : Nat) : List Char := (groupThrees (Nat.toDigits 10 n).reverse).reverse

theorem plain_shownWhole (n : Nat) : ∀ c ∈ shownWhole n, isPlain c := by
  intro c hc
  refine plain_groupThrees ?_ c (List.mem_reverse.mp hc)
  intro d hd
  exact allDigits_toDigits n d (List.mem_reverse.mp hd)

theorem filter_shownWhole (n : Nat) :
    (shownWhole n).filter (fun c => c ≠ '.') = Nat.toDigits 10 n := by
  rw [shownWhole, List.filter_reverse, filter_groupThrees, List.reverse_reverse]
  intro h
  exact dot_not_in_digits (allDigits_toDigits n) (List.mem_reverse.mp h)

/-- The text shown for an amount of so many cents. -/
theorem brl_toList {x : Decimal} {n : Nat} (h : x.wholeCents? = some n) :
    (brl x).toList = currencyText 0 true 1 ++
      (shownWhole (n / 100) ++ ',' :: (pad2 (n % 100)).toList) ++ List.replicate 0 ' ' := by
  have hsign : ¬ (x.negative = true ∧ n / 100 ≠ 0) := by
    rintro ⟨hnegative, hwhole⟩
    rw [not_negative_of_wholeCents h (by rintro rfl; exact hwhole rfl)] at hnegative
    cases hnegative
  unfold brl
  simp only [roundCents_of_wholeCents h, if_neg hsign, String.toList_append, String.toList_ofList]
  simp [currencyText, shownWhole]

/-- **What is shown of an amount is read back as the same cents.** -/
theorem amount_brl {x : Decimal} {n : Nat} (h : x.wholeCents? = some n) :
    Tool.amount (brl x) = some (.finite (.cents n)) := by
  obtain ⟨hpad, hlen, hvalue⟩ := pad2_digits (Nat.mod_lt n (by decide : 0 < 100))
  have hcomma : ',' ∉ shownWhole (n / 100) := fun hc => comma_not_plain (plain_shownWhole _ _ hc)
  have hclean : Cleaned (shownWhole (n / 100) ++ ',' :: (pad2 (n % 100)).toList) := by
    intro c hc
    rcases List.mem_append.mp hc with hwhole | hcents
    · exact clean_of_plain (plain_shownWhole _) c hwhole
    · rcases List.mem_cons.mp hcents with rfl | hdigits
      · decide
      · exact clean_of_digits hpad c hdigits
  have hsum : Nat.ofDigitChars 10 (Nat.toDigits 10 (n / 100) ++ (pad2 (n % 100)).toList) 0 = n := by
    rw [Nat.ofDigitChars_append, Nat.ofDigitChars_eq_ofDigitChars_zero,
      Nat.ofDigitChars_ten_toDigits, hvalue, hlen]
    omega
  rw [Tool.amount, brl_toList h, cleaned_text 0 true 1 hclean 0, pointForComma_comma hcomma hpad,
    filter_shownWhole, ofText?_point (allDigits_toDigits _) Nat.toDigits_ne_nil hpad, hsum, hlen]
  rfl

/-- Worth nothing or more, and a whole number of hundredths. -/
def TwoPlaces (x : Decimal) : Prop := 0 ≤ x.value ∧ ∃ z : ℤ, x.value * 100 = z

theorem TwoPlaces.wholeCents {x : Decimal} (h : TwoPlaces x) : ∃ n, x.wholeCents? = some n := by
  obtain ⟨hpos, z, hz⟩ := h
  have hnonneg : 0 ≤ z := by
    have : (0 : ℚ) ≤ z := by
      rw [← hz]
      positivity
    exact_mod_cast this
  obtain ⟨n, rfl⟩ := Int.eq_ofNat_of_zero_le hnonneg
  refine ⟨n, wholeCents_of_value ?_⟩
  rw [eq_div_iff (by norm_num : (100 : ℚ) ≠ 0), hz]
  rfl

/-- **The amount shown is read back as itself, and no other amount is shown the same way.** -/
theorem display_round_trip (x : Decimal) (hx : TwoPlaces x) :
    (∃ d, Tool.amount (brl x) = some (.finite d) ∧ d.equals x = true) ∧
      ∀ y, TwoPlaces y → brl x = brl y → x.equals y = true := by
  obtain ⟨n, hn⟩ := hx.wholeCents
  constructor
  · refine ⟨_, amount_brl hn, ?_⟩
    rw [equals_iff_value, value_cents, value_of_wholeCents hn]
  · intro y hy hshown
    obtain ⟨m, hm⟩ := hy.wholeCents
    have hsame := amount_brl hn
    rw [hshown, amount_brl hm] at hsame
    obtain rfl : m = n := congrArg Decimal.digits (Numeral.finite.inj (Option.some.inj hsame))
    rw [equals_iff_value, value_of_wholeCents hn, value_of_wholeCents hm]

theorem display_round_trip_sample :
    (∃ d, Tool.amount (brl ⟨false, 123456700, -3⟩) = some (.finite d) ∧
        d.equals ⟨false, 123456700, -3⟩ = true) ∧
      ∀ y, TwoPlaces y → brl ⟨false, 123456700, -3⟩ = brl y →
        Decimal.equals ⟨false, 123456700, -3⟩ y = true :=
  display_round_trip ⟨false, 123456700, -3⟩ (by
    refine ⟨?_, 12345670, ?_⟩
    · rw [value_of_pos]
      positivity
    · rw [value_of_pos]
      norm_num)

example : (brl ⟨false, 123456700, -3⟩, Tool.amount "R$ 123.456,70") =
    ("R$ 123.456,70", some (.finite (.cents 12345670))) := by decide

end BankingControlPlane
