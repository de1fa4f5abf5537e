import BankingControlPlane.Text.Strings

/-!
# Replacing one text by another

* `replace` : `str.replace`, each occurrence from the left, for a text that is not empty;
* `replace_found`, `replace_append` : what happens at an occurrence, and before the next one;
* `replace_char` : replacing a single character; `replace_char_nil` drops it.
-/

namespace Text

/-- The text after `skip` characters, of an occurrence that has been replaced. -/
def replaceFrom (old new : List Char) : Nat → List Char → List Char
  | _, [] => []
  | skip + 1, _ :: text => replaceFrom old new skip text
  | 0, c :: text =>
    if old <+: c :: text then new ++ replaceFrom old new (old.length - 1) text
    else c :: replaceFrom old new 0 text

/-- `text.replace(old, new)`. -/
def replace (old new text : List Char) : List Char := replaceFrom old new 0 text

@[simp] theorem replace_nil (old new : List Char) : replace old new [] = [] := rfl

theorem replaceFrom_skip (old new skipped text : List Char) :
    replaceFrom old new skipped.length (skipped ++ text) = replace old new text := by
  induction skipped with
  | nil => rfl
  | cons c skipped ih => exact ih

theorem replace_found (first : Char) (old new text : List Char) :
    replace (first :: old) new (first :: old ++ text) = new ++ replace (first :: old) new text := by
  change (if first :: old <+: first :: old ++ text then _ else _) = _
  rw [if_pos (List.prefix_append _ _)]
  exact congrArg (new ++ ·) (replaceFrom_skip (first :: old) new old text)

theorem replace_cons {first c : Char} (h : c ≠ first) (old new text : List Char) :
    replace (first :: old) new (c :: text) = c :: replace (first :: old) new text := by
  change (if first :: old <+: c :: text then _ else _) = _
  rw [if_neg]
  · rfl
  · rintro ⟨rest, hrest⟩
    exact h (List.cons.inj hrest).1.symm

/-- Nothing changes before the first character of an occurrence. -/
theorem replace_append {first : Char} {before : List Char} (h : first ∉ before)
    (old new text : List Char) :
    replace (first :: old) new (before ++ text) = before ++ replace (first :: old) new text := by
  induction before with
  | nil => rfl
  | cons c before ih =>
    obtain ⟨hc, hbefore⟩ := not_or.mp (mt List.mem_cons.mpr h)
    rw [List.cons_append, replace_cons (Ne.symm hc), ih hbefore]
    rfl

theorem replace_absent {first : Char} {text : List Char} (h : first ∉ text) (old new : List Char) :
    replace (first :: old) new text = text := by
  have := replace_append h old new []
  rwa [List.append_nil, replace_nil, List.append_nil] at this

theorem replace_char (c : Char) (new text : List Char) :
    replace [c] new text = text.flatMap fun x => if x = c then new else [x] := by
  induction text with
  | nil => rfl
  | cons x text ih =>
    rw [List.flatMap_cons, ← ih]
    by_cases hx : x = c
    · subst hx
      rw [if_pos rfl]
      exact replace_found x [] new text
    · rw [if_neg hx, replace_cons hx]
      rfl

theorem replace_char_nil (c : Char) (text : List Char) :
    replace [c] [] text = text.filter fun x => x ≠ c := by
  rw [replace_char]
  induction text with
  | nil => rfl
  | cons x text ih =>
    rw [List.flatMap_cons, ih]
    by_cases hx : x = c
    · simp [hx]
    · simp [hx]

/-! ## Nothing to strip -/

theorem dropWhile_of_no_space {text : List Char} (h : ∀ c ∈ text, isSpace c = false) :
    text.dropWhile isSpace = text := by
  cases text with
  | nil => rfl
  | cons c text => exact dropWhile_space (h c (List.mem_cons_self ..)) text

theorem strip_of_no_space {text : List Char} (h : ∀ c ∈ text, isSpace c = false) :
    strip text = text := by
  have hreverse : ∀ c ∈ text.reverse, isSpace c = false :=
    fun c hc => h c (List.mem_reverse.mp hc)
  rw [strip, dropWhile_of_no_space h, rstrip, dropWhile_of_no_space hreverse, List.reverse_reverse]

end Text
