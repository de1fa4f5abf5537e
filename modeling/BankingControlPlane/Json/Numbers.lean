import BankingControlPlane.Json.Scan

/-!
# The text of numbers

* `Ends` : no character of a number comes next;
* `scanNumber_read` : the text of a number is read whole where the number ends;
* `scanNumber_sound` : and nothing else is read;
* `readInt_intText` : integers are what their text says.
-/

namespace Json

variable {F : Type} {fl : Floats F} {text rest digits : List Char}

def NoDigit (rest : List Char) : Prop := ∀ c ∈ rest.head?, c.isDigit = false

/-- A number that comes before is over. -/
def Ends (rest : List Char) : Prop := ∀ c ∈ rest.head?, c.isDigit = false ∧ c ≠ '.' ∧ c ≠ 'e' ∧ c ≠ 'E'

theorem Ends.noDigit (h : Ends rest) : NoDigit rest := fun c hc => (h c hc).1

theorem noDigit_cons {c : Char} (hc : c.isDigit = false) : NoDigit (c :: rest) := by
  intro d hd
  rw [List.head?_cons, Option.mem_some] at hd
  exact hd ▸ hc

theorem ends_nil : Ends [] := fun _ h => by cases h

/-! ## Digits -/

theorem scanDigits_read (hdigits : Digits digits) (hrest : NoDigit rest) :
    scanDigits (digits ++ rest) = some (digits, rest) := by
  have htake : rest.takeWhile Char.isDigit = [] ∧ rest.dropWhile Char.isDigit = rest := by
    cases rest with
    | nil => exact ⟨rfl, rfl⟩
    | cons c rest => simp [hrest c rfl]
  unfold scanDigits
  rw [List.takeWhile_append_of_pos hdigits.2, List.dropWhile_append_of_pos hdigits.2, htake.1, htake.2,
    List.append_nil, if_neg hdigits.1]

theorem scanDigits_sound (h : scanDigits text = some (digits, rest)) :
    text = digits ++ rest ∧ Digits digits ∧ NoDigit rest := by
  unfold scanDigits at h
  dsimp only at h
  split_ifs at h with hnone
  obtain ⟨rfl, rfl⟩ := Prod.mk.inj (Option.some.inj h)
  refine ⟨(List.takeWhile_append_dropWhile).symm, ⟨hnone, fun c hc => List.all_eq_true.mp List.all_takeWhile c hc⟩, fun c hc => ?_⟩
  have hhead := List.head?_dropWhile_not Char.isDigit text
  rw [Option.mem_def.mp hc] at hhead
  simpa using hhead

theorem digit_ne {c d : Char} (hc : c.isDigit = true) (hd : d.isDigit = false) : c ≠ d := fun h => by
  rw [h, hd] at hc
  cases hc

/-! ## The integer part -/

theorem scanNatural_read (hdigits : Digits digits) (hzero : digits.head? = some '0' → digits = ['0'])
    (hrest : NoDigit rest) : scanNatural (digits ++ rest) = some (digits, rest) := by
  by_cases hhead : digits.head? = some '0'
  · rw [hzero hhead]
    rfl
  · obtain ⟨c, more, rfl⟩ := List.exists_cons_of_ne_nil hdigits.1
    rw [List.cons_append, scanNatural, ← List.cons_append, scanDigits_read hdigits hrest]
    exact fun more' h => hhead (congrArg some (List.cons.inj h).1)

theorem scanNatural_sound (h : scanNatural text = some (digits, rest)) :
    text = digits ++ rest ∧ Digits digits ∧ (digits.head? = some '0' → digits = ['0']) := by
  unfold scanNatural at h
  split at h
  · obtain ⟨rfl, rfl⟩ := Prod.mk.inj (Option.some.inj h)
    exact ⟨rfl, ⟨by simp, by simp⟩, fun _ => rfl⟩
  · rename_i hhead
    obtain ⟨rfl, hdigits, -⟩ := scanDigits_sound h
    refine ⟨rfl, hdigits, fun hzero => ?_⟩
    obtain ⟨c, more, rfl⟩ := List.exists_cons_of_ne_nil hdigits.1
    cases hzero
    exact absurd rfl (hhead (more ++ rest))

theorem scanWhole_read {whole : List Char} (hwhole : WholeText whole) (hrest : NoDigit rest) :
    scanWhole (whole ++ rest) = some (whole, rest) := by
  obtain ⟨digits, hdigits, hzero, rfl | rfl⟩ := hwhole
  · obtain ⟨c, more, rfl⟩ := List.exists_cons_of_ne_nil hdigits.1
    rw [List.cons_append, scanWhole, ← List.cons_append, scanNatural_read hdigits hzero hrest]
    have hdigit := hdigits.2 c List.mem_cons_self
    exact fun more' h => digit_ne hdigit (by decide : '-'.isDigit = false) (List.cons.inj h).1
  · rw [List.cons_append, scanWhole, scanNatural_read hdigits hzero hrest]
    rfl

theorem scanWhole_sound {whole : List Char} (h : scanWhole text = some (whole, rest)) :
    text = whole ++ rest ∧ WholeText whole := by
  unfold scanWhole at h
  split at h
  · obtain ⟨⟨digits, rest'⟩, hscan, heq⟩ := Option.map_eq_some_iff.mp h
    obtain ⟨rfl, rfl⟩ := Prod.mk.inj heq
    obtain ⟨rfl, hdigits, hzero⟩ := scanNatural_sound hscan
    exact ⟨rfl, digits, hdigits, hzero, Or.inr rfl⟩
  · obtain ⟨rfl, hdigits, hzero⟩ := scanNatural_sound h
    exact ⟨rfl, whole, hdigits, hzero, Or.inl rfl⟩

/-! ## Fraction and exponent -/

theorem scanFrac_read {frac : List Char} (hfrac : FracText frac) (hrest : NoDigit rest)
    (hdot : frac = [] → rest.head? ≠ some '.') : scanFrac (frac ++ rest) = (frac, rest) := by
  rcases hfrac with rfl | ⟨digits, hdigits, rfl⟩
  · rw [List.nil_append]
    cases rest with
    | nil => rfl
    | cons c rest =>
      unfold scanFrac
      split
      · rename_i heq
        exact absurd (by rw [(List.cons.inj heq).1]; rfl) (hdot rfl)
      · rfl
  · rw [List.cons_append, scanFrac, scanDigits_read hdigits hrest]
    rfl

theorem scanFrac_sound {frac : List Char} (h : scanFrac text = (frac, rest)) :
    text = frac ++ rest ∧ FracText frac := by
  unfold scanFrac at h
  split at h
  · rename_i after
    cases hscan : scanDigits after with
    | none =>
      rw [hscan] at h
      obtain ⟨rfl, rfl⟩ := Prod.mk.inj h
      exact ⟨rfl, Or.inl rfl⟩
    | some scanned =>
      rw [hscan] at h
      obtain ⟨rfl, rfl⟩ := Prod.mk.inj h
      obtain ⟨rfl, hdigits, -⟩ := scanDigits_sound hscan
      exact ⟨rfl, Or.inr ⟨_, hdigits, rfl⟩⟩
  · obtain ⟨rfl, rfl⟩ := Prod.mk.inj h
    exact ⟨rfl, Or.inl rfl⟩

theorem scanSign_read {sign : List Char} (hsign : sign = [] ∨ sign = ['+'] ∨ sign = ['-'])
    (hdigits : Digits digits) : scanSign (sign ++ (digits ++ rest)) = (sign, digits ++ rest) := by
  rcases hsign with rfl | rfl | rfl
  · obtain ⟨c, more, rfl⟩ := List.exists_cons_of_ne_nil hdigits.1
    have hdigit := hdigits.2 c List.mem_cons_self
    rw [List.nil_append, List.cons_append, scanSign]
    · exact fun more' h => digit_ne hdigit (by decide : '+'.isDigit = false) (List.cons.inj h).1
    · exact fun more' h => digit_ne hdigit (by decide : '-'.isDigit = false) (List.cons.inj h).1
  · rfl
  · rfl

theorem scanSign_sound {sign : List Char} (h : scanSign text = (sign, rest)) :
    text = sign ++ rest ∧ (sign = [] ∨ sign = ['+'] ∨ sign = ['-']) := by
  unfold scanSign at h
  split at h
  all_goals
    obtain ⟨rfl, rfl⟩ := Prod.mk.inj h
    exact ⟨rfl, by simp⟩

theorem scanExp_read {exp : List Char} (hexp : ExpText exp) (hrest : Ends rest) :
    scanExp (exp ++ rest) = (exp, rest) := by
  rcases hexp with rfl | ⟨mark, sign, digits, hmark, hsign, hdigits, rfl⟩
  · rw [List.nil_append]
    cases rest with
    | nil => rfl
    | cons c rest =>
      obtain ⟨-, -, he, hE⟩ := hrest c rfl
      rw [scanExp, if_neg (by simp [he, hE])]
  · have hshape : mark :: sign ++ digits ++ rest = mark :: (sign ++ (digits ++ rest)) := by simp
    rw [hshape, scanExp, if_pos hmark, scanSign_read hsign hdigits]
    dsimp only
    rw [scanDigits_read hdigits hrest.noDigit]
    rfl

theorem scanExp_sound {exp : List Char} (h : scanExp text = (exp, rest)) : text = exp ++ rest ∧ ExpText exp := by
  unfold scanExp at h
  split at h
  · obtain ⟨rfl, rfl⟩ := Prod.mk.inj h
    exact ⟨rfl, Or.inl rfl⟩
  · rename_i mark after
    by_cases hmark : mark = 'e' ∨ mark = 'E'
    · rw [if_pos hmark] at h
      cases hscanned : scanSign after with
      | mk sign after' =>
        obtain ⟨rfl, hsign⟩ := scanSign_sound hscanned
        rw [hscanned] at h
        dsimp only at h
        cases hscan : scanDigits after' with
        | none =>
          rw [hscan] at h
          obtain ⟨rfl, rfl⟩ := Prod.mk.inj h
          exact ⟨rfl, Or.inl rfl⟩
        | some scanned =>
          rw [hscan] at h
          obtain ⟨rfl, rfl⟩ := Prod.mk.inj h
          obtain ⟨rfl, hdigits, -⟩ := scanDigits_sound hscan
          exact ⟨by simp, Or.inr ⟨mark, sign, _, hmark, hsign, hdigits, rfl⟩⟩
    · rw [if_neg hmark] at h
      obtain ⟨rfl, rfl⟩ := Prod.mk.inj h
      exact ⟨rfl, Or.inl rfl⟩

/-! ## Numbers -/

theorem noDigit_exp {exp : List Char} (hexp : ExpText exp) (hrest : Ends rest) :
    NoDigit (exp ++ rest) ∧ (exp ++ rest).head? ≠ some '.' := by
  rcases hexp with rfl | ⟨mark, sign, digits, hmark, -, -, rfl⟩
  · exact ⟨hrest.noDigit, fun h => (hrest '.' h).2.1 rfl⟩
  · rcases hmark with rfl | rfl
    · exact ⟨noDigit_cons (by decide), by simp⟩
    · exact ⟨noDigit_cons (by decide), by simp⟩

theorem scanNumber_read {whole frac exp : List Char} (hwhole : WholeText whole) (hfrac : FracText frac)
    (hexp : ExpText exp) (hrest : Ends rest) :
    scanNumber fl (whole ++ (frac ++ (exp ++ rest))) = (number fl whole frac exp).map fun v => (v, rest) := by
  obtain ⟨hdigit, hdot⟩ := noDigit_exp hexp hrest
  have hafter : NoDigit (frac ++ (exp ++ rest)) := by
    rcases hfrac with rfl | ⟨digits, -, rfl⟩
    · exact hdigit
    · exact noDigit_cons (by decide)
  unfold scanNumber
  rw [scanWhole_read hwhole hafter, Option.bind_some]
  dsimp only
  rw [scanFrac_read hfrac hdigit fun _ => hdot]
  dsimp only
  rw [scanExp_read hexp hrest]

theorem scanNumber_sound {v : Value F} (h : scanNumber fl text = some (v, rest)) :
    ∃ whole frac exp, WholeText whole ∧ FracText frac ∧ ExpText exp ∧ text = whole ++ (frac ++ (exp ++ rest)) ∧
      number fl whole frac exp = some v := by
  obtain ⟨⟨whole, afterWhole⟩, hwhole, h⟩ := Option.bind_eq_some_iff.mp h
  cases hfrac : scanFrac afterWhole with
  | mk frac afterFrac =>
    cases hexp : scanExp afterFrac with
    | mk exp afterExp =>
      dsimp only at h
      rw [hfrac] at h
      dsimp only at h
      rw [hexp] at h
      obtain ⟨v', hnumber, heq⟩ := Option.map_eq_some_iff.mp h
      obtain ⟨rfl, rfl⟩ := Prod.mk.inj heq
      obtain ⟨rfl, hwholeText⟩ := scanWhole_sound hwhole
      obtain ⟨rfl, hfracText⟩ := scanFrac_sound hfrac
      obtain ⟨rfl, hexpText⟩ := scanExp_sound hexp
      exact ⟨whole, frac, exp, hwholeText, hfracText, hexpText, rfl, hnumber⟩

/-! ## Integers -/

theorem digits_natText (n : Nat) : Digits (natText n) :=
  ⟨Nat.toDigits_ne_nil, fun _ hc => Nat.isDigit_of_mem_toDigits (by decide) (by decide) hc⟩

theorem natText_head (n : Nat) : (natText n).head? = some '0' → natText n = ['0'] := by
  induction n using Nat.strongRecOn with
  | ind n ih =>
    unfold natText at ih ⊢
    intro hhead
    rw [Nat.toDigits_eq_if (by decide)] at hhead ⊢
    by_cases hlt : n < 10
    · rw [if_pos hlt] at hhead ⊢
      exact congrArg (· :: []) (Option.some.inj hhead)
    · have hne : Nat.toDigits 10 (n / 10) ≠ [] := Nat.toDigits_ne_nil
      rw [if_neg hlt, List.head?_append_of_ne_nil _ hne] at hhead
      have hzero := ih (n / 10) (by omega) hhead
      have hvalue := Nat.ofDigitChars_toDigits (b := 10) (n := n / 10) (by decide) (by decide)
      rw [hzero] at hvalue
      have hnone : n / 10 = 0 := hvalue.symm
      omega

theorem wholeText_int (i : Int) : WholeText (intText i) := by
  refine ⟨natText i.natAbs, digits_natText _, natText_head _, ?_⟩
  unfold intText
  by_cases hneg : i < 0
  · exact Or.inr (if_pos hneg)
  · exact Or.inl (if_neg hneg)

theorem readNat_natText (n : Nat) : readNat (natText n) = n :=
  Nat.ofDigitChars_toDigits (by decide) (by decide)

theorem readInt_intText {i : Int} (hi : (natText i.natAbs).length ≤ maxStrDigits) :
    readInt (intText i) = some i := by
  unfold intText
  by_cases hneg : i < 0
  · rw [if_pos hneg, readInt, if_pos hi, readNat_natText]
    exact congrArg some (by omega)
  · rw [if_neg hneg]
    obtain ⟨c, more, heq⟩ := List.exists_cons_of_ne_nil (digits_natText i.natAbs).1
    have hdigit := (digits_natText i.natAbs).2 c (heq ▸ List.mem_cons_self)
    rw [heq, readInt, ← heq, if_pos hi, readNat_natText]
    · exact congrArg some (by omega)
    · exact fun more' h => digit_ne hdigit (by decide : '-'.isDigit = false) (List.cons.inj h).1

theorem scanNumber_int {i : Int} (hi : (natText i.natAbs).length ≤ maxStrDigits) (hrest : Ends rest) :
    scanNumber fl (intText i ++ rest) = some (.int i, rest) := by
  have hread := @scanNumber_read F fl _ _ [] [] (wholeText_int i) (Or.inl rfl) (Or.inl rfl) hrest
  rw [List.nil_append, List.nil_append] at hread
  rw [hread, number, if_pos (List.append_nil []), readInt_intText hi]
  rfl

theorem scanNumber_float (hfl : fl.Lawful) {f : F} (hf : fl.Finite f) (hrest : Ends rest) :
    scanNumber fl (fl.text f ++ rest) = some (.float f, rest) := by
  obtain ⟨whole, frac, exp, htext, hwhole, hfrac, hexp, hfloat⟩ := hfl.number f hf
  have hread := @scanNumber_read F fl _ _ _ _ hwhole hfrac hexp hrest
  rw [← List.append_assoc, ← List.append_assoc, ← htext] at hread
  rw [hread, number, if_neg hfloat, ← htext, hfl.read_text f hf]
  rfl

end Json
