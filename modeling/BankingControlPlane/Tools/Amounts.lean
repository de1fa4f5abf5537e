import BankingControlPlane.Data.Numerals
import BankingControlPlane.Tools.Scopes

/-!
# Amounts as the customer states them

* `Tool.amount` : `_amount`, the decimal of a text with its currency sign and spaces dropped;
* `proposedPix` : the validation of a name and an amount; `Tool.proposing` : the tool `propose_pix`;
* `cleaned_text` : what is left of a text once it is cleaned; `pointForComma_comma`, `pointForComma_none` : what
  is read of it, with and without a comma.
-/

namespace BankingControlPlane
open Text

/-- A comma makes the dots separators of thousands; without one they stay. -/
def pointForComma (cleaned : List Char) : List Char :=
  if ',' ∈ cleaned then replace [','] ['.'] (replace ['.'] [] cleaned) else cleaned

/-- `_amount(text)`. -/
def Tool.amount (text : String) : Option Numeral :=
  Decimal.ofText? (pointForComma (replace [' '] [] (replace ['R', '$'] [] text.toList)))

/-- The first line of the error of a validation that found so many mistakes. -/
def validationError (mistakes : Nat) : String :=
  if mistakes = 1 then "1 validation error for ProposedPix"
  else toString mistakes ++ " validation errors for ProposedPix"

/-- `ProposedPix(recipient=recipient, amount=value)`. -/
def proposedPix (recipient : String) : Numeral → Except String ProposedPix
  | .finite d =>
    if hmoney : isMoney d = true then
      if hnamed : recipient ≠ "" then .ok { recipient, amount := ⟨d, hmoney⟩, named := hnamed }
      else .error (validationError 1)
    else .error (validationError (if recipient = "" then 2 else 1))
  | _ => .error (validationError (if recipient = "" then 2 else 1))

/-- `propose_pix(recipient, amount)`: what the two texts become, or the reason to ask again. -/
def Tool.proposing (env : Env) (recipient amount : String) : Tool :=
  .proposePix recipient amount <|
    match Tool.amount amount with
    | none => .error ("invalid amount: " ++ env.repr amount)
    | some value => proposedPix recipient value

theorem proposedPix_ok {recipient : String} {value : Numeral} {proposed : ProposedPix}
    (h : proposedPix recipient value = .ok proposed) :
    value = .finite proposed.amount.val ∧ proposed.recipient = recipient := by
  cases value with
  | finite d =>
    by_cases hmoney : isMoney d = true
    · by_cases hnamed : recipient ≠ ""
      · rw [proposedPix, dif_pos hmoney, dif_pos hnamed] at h
        cases h
        exact ⟨rfl, rfl⟩
      · rw [proposedPix, dif_pos hmoney, dif_neg hnamed] at h
        cases h
    · rw [proposedPix, dif_neg hmoney] at h
      cases h
  | infinity negative => cases h
  | nan => cases h

/-- A proposal reaches the plane with the amount that was read, and with no other. -/
theorem proposing_op {env : Env} {ctx : Context} {recipient amount : String} {op : Op}
    (h : (Tool.proposing env recipient amount).op ctx = .ok op) :
    ∃ proposed, op = .propose ctx proposed (recipient ++ " " ++ amount) ∧
      Tool.amount amount = some (.finite proposed.amount.val) ∧ proposed.recipient = recipient := by
  unfold Tool.proposing at h
  cases hamount : Tool.amount amount with
  | none =>
    rw [hamount] at h
    cases h
  | some value =>
    rw [hamount] at h
    dsimp only at h
    cases hproposed : proposedPix recipient value with
    | error message =>
      rw [hproposed] at h
      cases h
    | ok proposed =>
      rw [hproposed] at h
      cases h
      obtain ⟨hvalue, hrecipient⟩ := proposedPix_ok hproposed
      exact ⟨proposed, rfl, by rw [hvalue], hrecipient⟩

/-- A name and an amount of money are proposed. -/
theorem proposing_money (env : Env) (ctx : Context) {recipient amount : String} {d : Decimal}
    (hread : Tool.amount amount = some (.finite d)) (hmoney : isMoney d = true)
    (hnamed : recipient ≠ "") :
    (Tool.proposing env recipient amount).op ctx =
      .ok (.propose ctx { recipient, amount := ⟨d, hmoney⟩, named := hnamed }
        (recipient ++ " " ++ amount)) := by
  rw [Tool.proposing, hread]
  dsimp only
  rw [proposedPix, dif_pos hmoney, dif_pos hnamed]
  rfl

/-- What does not reach the plane is answered with a question. -/
theorem proposing_asks {env : Env} {ctx : Context} {recipient amount : String} {outcome : Outcome}
    (h : (Tool.proposing env recipient amount).op ctx = .error outcome) :
    outcome.status = .decision .requireMoreInfo := by
  unfold Tool.proposing Tool.op at h
  split at h
  all_goals first | (cases h; rfl) | cases h

/-! ## What is read -/

/-- Spaces, the currency sign or not, and spaces again. -/
def currencyText (before : Nat) (currency : Bool) (between : Nat) : List Char :=
  List.replicate before ' ' ++ (if currency then ['R', '$'] else []) ++ List.replicate between ' '

/-- A text with nothing in it that cleaning drops. -/
def Cleaned (text : List Char) : Prop := ∀ c ∈ text, c ≠ 'R' ∧ c ≠ ' '

theorem filter_spaces (n : Nat) : (List.replicate n ' ').filter (fun c => c ≠ ' ') = [] := by
  rw [List.filter_eq_nil_iff]
  intro c hc
  simp [List.eq_of_mem_replicate hc]

theorem no_R_in_spaces (n : Nat) : 'R' ∉ List.replicate n ' ' := by
  intro h
  exact absurd (List.eq_of_mem_replicate h) (by decide)

theorem cleaned_text (before : Nat) (currency : Bool) (between : Nat) {numeral : List Char}
    (h : Cleaned numeral) (after : Nat) :
    replace [' '] [] (replace ['R', '$'] []
      (currencyText before currency between ++ numeral ++ List.replicate after ' ')) = numeral := by
  have hnumeral : numeral.filter (fun c => c ≠ ' ') = numeral := by
    rw [List.filter_eq_self]
    intro c hc
    rw [decide_eq_true_eq]
    exact (h c hc).2
  have hR : 'R' ∉ numeral ++ List.replicate after ' ' := by
    intro hmem
    rcases List.mem_append.mp hmem with hmem | hmem
    · exact (h 'R' hmem).1 rfl
    · exact no_R_in_spaces after hmem
  have hrest : 'R' ∉ List.replicate between ' ' ++ (numeral ++ List.replicate after ' ') := by
    intro hmem
    rcases List.mem_append.mp hmem with hmem | hmem
    · exact no_R_in_spaces between hmem
    · exact hR hmem
  have hsign : replace ['R', '$'] []
      (currencyText before currency between ++ numeral ++ List.replicate after ' ') =
      List.replicate before ' ' ++
        (List.replicate between ' ' ++ (numeral ++ List.replicate after ' ')) := by
    rw [currencyText, List.append_assoc, List.append_assoc, List.append_assoc,
      replace_append (no_R_in_spaces before)]
    cases currency with
    | false => rw [if_neg (by decide), List.nil_append, replace_absent hrest]
    | true =>
      rw [if_pos rfl, show ['R', '$'] = 'R' :: ['$'] from rfl, replace_found, List.nil_append,
        replace_absent hrest]
  rw [hsign, replace_char_nil]
  simp only [List.filter_append, filter_spaces, hnumeral, List.nil_append, List.append_nil]

theorem replace_dots (whole : List Char) :
    replace ['.'] [] whole = whole.filter fun c => c ≠ '.' :=
  replace_char_nil '.' whole

theorem clean_of_digits {ds : List Char} (h : Decimal.AllDigits ds) : Cleaned ds := by
  intro c hc
  constructor
  · rintro rfl
    exact absurd (h _ hc) (by decide)
  · rintro rfl
    exact absurd (h _ hc) (by decide)

theorem comma_not_in_digits {ds : List Char} (h : Decimal.AllDigits ds) : ',' ∉ ds :=
  fun hc => absurd (h _ hc) (by decide)

theorem dot_not_in_digits {ds : List Char} (h : Decimal.AllDigits ds) : '.' ∉ ds :=
  fun hc => absurd (h _ hc) (by decide)

/-- With a comma, the dots go and the comma becomes the point. -/
theorem pointForComma_comma {whole cents : List Char} (hw : ',' ∉ whole)
    (hc : Decimal.AllDigits cents) :
    pointForComma (whole ++ ',' :: cents) = whole.filter (fun c => c ≠ '.') ++ '.' :: cents := by
  have hdots : cents.filter (fun c => c ≠ '.') = cents := by
    rw [List.filter_eq_self]
    intro c hmem
    rw [decide_eq_true_eq]
    rintro rfl
    exact dot_not_in_digits hc hmem
  have hkept : ',' ∉ whole.filter fun c => c ≠ '.' := fun hmem => hw (List.mem_of_mem_filter hmem)
  rw [pointForComma, if_pos (by simp), replace_dots, List.filter_append, List.filter_cons,
    if_pos (by decide), hdots, show [','] = ',' :: [] from rfl, replace_append hkept]
  exact congrArg _ ((replace_found ',' [] ['.'] cents).trans
    (congrArg _ (replace_absent (comma_not_in_digits hc) [] ['.'])))

theorem pointForComma_none {numeral : List Char} (h : ',' ∉ numeral) :
    pointForComma numeral = numeral := if_neg h

end BankingControlPlane
