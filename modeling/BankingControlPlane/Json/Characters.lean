import BankingControlPlane.Json.Cut

/-!
# The characters of a text

* `Value.Strings` : what holds of the characters of a string, or of an object's keys;
* `encode_all` : what holds of every visible ASCII character holds of the whole text exactly when it holds of the
  characters in the strings that are not controls.
-/

namespace Json

variable {F : Type} {fl : Floats F}

def Value.Strings (Q : Char → Prop) : Value F → Prop
  | .str s => ∀ c ∈ s.toList, Q c
  | .obj fields => ∀ field ∈ fields, ∀ c ∈ field.1.toList, Q c
  | _ => True

instance (Q : Char → Prop) [DecidablePred Q] : DecidablePred (Value.Strings (F := F) Q)
  | .str s => List.decidableBAll Q s.toList
  | .obj fields =>
    have (field : String × Value F) : Decidable (∀ c ∈ field.1.toList, Q c) := List.decidableBAll Q field.1.toList
    List.decidableBAll (fun field : String × Value F => ∀ c ∈ field.1.toList, Q c) fields
  | .null | .bool _ | .int _ | .float _ | .arr _ => isTrue trivial

theorem Value.Every.mono {P Q : Value F → Prop} (h : ∀ v, P v → Q v) {v : Value F} (hv : v.Every P) : v.Every Q :=
  fun part hpart => h part (hv part hpart)

theorem Value.Strings.mono {P Q : Char → Prop} (h : ∀ c, P c → Q c) : ∀ v : Value F, v.Strings P → v.Strings Q
  | .str _, hv => fun c hc => h c (hv c hc)
  | .obj _, hv => fun field hfield c hc => h c (hv field hfield c hc)
  | .null, _ | .bool _, _ | .int _, _ | .float _, _ | .arr _, _ => trivial

theorem Value.Strings.all {Q : Char → Prop} (h : ∀ c, Q c) : ∀ v : Value F, v.Strings Q
  | .str _ => fun c _ => h c
  | .obj _ => fun _ _ c _ => h c
  | .null | .bool _ | .int _ | .float _ | .arr _ => trivial

section All
variable {Q : Char → Prop} (hascii : ∀ c : Char, 32 ≤ c.toNat → c.toNat < 127 → Q c)
include hascii

theorem digit_all {c : Char} (h : c.isDigit = true) : Q c := by
  have hvisible := Visible.digit h
  exact hascii c (Nat.le_of_lt hvisible.1) hvisible.2

theorem hexDigit_all {n : Nat} (hn : n < 16) : Q (hexDigit n) := by
  have hrange : ∀ n < 16, 32 ≤ (hexDigit n).toNat ∧ (hexDigit n).toNat < 127 := by decide
  exact hascii _ (hrange n hn).1 (hrange n hn).2

theorem escapeChar_all (c : Char) : (∀ d ∈ escapeChar c, Q d) ↔ c.toNat < 32 ∨ Q c := by
  have hself : 32 ≤ c.toNat → c.toNat < 127 → c.toNat < 32 ∨ Q c := fun hlow hhigh => Or.inr (hascii c hlow hhigh)
  have hback : Q '\\' := hascii _ (by decide) (by decide)
  have hzero : Q '0' := hascii _ (by decide) (by decide)
  unfold escapeChar
  split_ifs with hquote hslash hline hreturn htab hbell hfeed hcontrol
  · rw [hquote] at hself ⊢
    exact iff_of_true (by simpa using ⟨hback, hascii _ (by decide) (by decide)⟩) (hself (by decide) (by decide))
  · rw [hslash] at hself ⊢
    exact iff_of_true (by simpa using hback) (hself (by decide) (by decide))
  · rw [hline]
    exact iff_of_true (by simpa using ⟨hback, hascii _ (by decide) (by decide)⟩) (Or.inl (by decide))
  · rw [hreturn]
    exact iff_of_true (by simpa using ⟨hback, hascii _ (by decide) (by decide)⟩) (Or.inl (by decide))
  · rw [htab]
    exact iff_of_true (by simpa using ⟨hback, hascii _ (by decide) (by decide)⟩) (Or.inl (by decide))
  · exact iff_of_true (by simpa using ⟨hback, hascii _ (by decide) (by decide)⟩) (Or.inl (by omega))
  · exact iff_of_true (by simpa using ⟨hback, hascii _ (by decide) (by decide)⟩) (Or.inl (by omega))
  · refine iff_of_true ?_ (Or.inl hcontrol)
    simp only [List.forall_mem_cons, List.not_mem_nil, false_imp_iff, implies_true, and_true]
    exact ⟨hback, hascii _ (by decide) (by decide), hzero, hzero, hexDigit_all hascii (by omega),
      hexDigit_all hascii (by omega)⟩
  · simp [hcontrol]

theorem quote_all (s : String) : (∀ d ∈ quote s, Q d) ↔ ∀ c ∈ s.toList, c.toNat < 32 ∨ Q c := by
  have hquote : Q '"' := hascii _ (by decide) (by decide)
  unfold quote
  simp only [List.cons_append, List.forall_mem_cons, List.forall_mem_append, List.forall_mem_flatMap,
    escapeChar_all hascii, List.not_mem_nil, false_imp_iff, implies_true, and_true, hquote, true_and]

theorem listedMore_all {close : Char} (hclose : Closes close) (texts : List (List Char)) :
    (∀ d ∈ listedMore close texts, Q d) ↔ ∀ text ∈ texts, ∀ d ∈ text, Q d := by
  have hbracket : Q close := by rcases hclose with rfl | rfl <;> exact hascii _ (by decide) (by decide)
  have hcomma : Q ',' := hascii _ (by decide) (by decide)
  induction texts with
  | nil => simp [listedMore, hbracket]
  | cons text texts ih =>
    rw [listedMore, List.forall_mem_cons, List.forall_mem_append, List.forall_mem_cons]
    exact (and_iff_right hcomma).trans (and_congr_right fun _ => ih)

theorem listed_all {opening close : Char} (hopening : Opens opening) (hclose : Closes close)
    (texts : List (List Char)) :
    (∀ d ∈ listed opening close texts, Q d) ↔ ∀ text ∈ texts, ∀ d ∈ text, Q d := by
  have hbracket : Q opening := by rcases hopening with rfl | rfl | rfl <;> exact hascii _ (by decide) (by decide)
  cases texts with
  | nil =>
    have hmore := listedMore_all hascii hclose []
    rw [listed, List.forall_mem_cons]
    rw [listedMore] at hmore
    rw [hmore]
    exact and_iff_right hbracket
  | cons text texts =>
    rw [listed, List.forall_mem_cons, List.forall_mem_append, listedMore_all hascii hclose, List.forall_mem_cons]
    exact and_iff_right hbracket

theorem digits_all {text : List Char} (h : Digits text) : ∀ d ∈ text, Q d :=
  fun d hd => digit_all hascii (h.2 d hd)

theorem whole_all {text : List Char} (h : WholeText text) : ∀ d ∈ text, Q d := by
  obtain ⟨digits, hdigits, -, rfl | rfl⟩ := h
  · exact digits_all hascii hdigits
  · exact List.forall_mem_cons.mpr ⟨hascii _ (by decide) (by decide), digits_all hascii hdigits⟩

theorem float_all (hfl : fl.Lawful) {f : F} (hf : fl.Finite f) : ∀ d ∈ fl.text f, Q d := by
  obtain ⟨whole, frac, exp, htext, hwhole, hfrac, hexp, -⟩ := hfl.number f hf
  have hfrac : ∀ d ∈ frac, Q d := by
    rcases hfrac with rfl | ⟨digits, hdigits, rfl⟩
    · exact fun d hd => (List.not_mem_nil hd).elim
    · exact List.forall_mem_cons.mpr ⟨hascii _ (by decide) (by decide), digits_all hascii hdigits⟩
  have hexp : ∀ d ∈ exp, Q d := by
    rcases hexp with rfl | ⟨mark, sign, digits, hmark, hsign, hdigits, rfl⟩
    · exact fun d hd => (List.not_mem_nil hd).elim
    · have hmark : Q mark := by rcases hmark with rfl | rfl <;> exact hascii _ (by decide) (by decide)
      have hsign : ∀ d ∈ sign, Q d := by
        rcases hsign with rfl | rfl | rfl
        · exact fun d hd => (List.not_mem_nil hd).elim
        · exact List.forall_mem_singleton.mpr (hascii _ (by decide) (by decide))
        · exact List.forall_mem_singleton.mpr (hascii _ (by decide) (by decide))
      exact List.forall_mem_cons.mpr ⟨hmark, List.forall_mem_append.mpr ⟨hsign, digits_all hascii hdigits⟩⟩
  rw [htext]
  exact List.forall_mem_append.mpr ⟨List.forall_mem_append.mpr ⟨whole_all hascii hwhole, hfrac⟩, hexp⟩

/-- **The characters of a text** are ASCII but for what is in its strings. -/
theorem encode_all (hfl : fl.Lawful) (v : Value F) : v.Every (Value.WellFormed fl) →
    ((∀ d ∈ encode fl v, Q d) ↔ v.Every (Value.Strings fun c => c.toNat < 32 ∨ Q c)) := by
  have hvisible : ∀ text : List Char, (text.all fun c => 32 ≤ c.toNat && c.toNat < 127) = true →
      ∀ c ∈ text, Q c := by
    intro text h c hc
    have hrange := List.all_eq_true.mp h c hc
    rw [Bool.and_eq_true, decide_eq_true_eq, decide_eq_true_eq] at hrange
    exact hascii c hrange.1 hrange.2
  induction v using Value.induct with
  | null =>
    exact fun _ => iff_of_true (hvisible _ rfl) (by simp [Value.Every, Value.parts, Value.Strings])
  | bool b =>
    intro _
    have htext : ((encode fl (.bool b)).all fun c => 32 ≤ c.toNat && c.toNat < 127) = true := by
      cases b <;> rfl
    exact iff_of_true (hvisible _ htext) (by simp [Value.Every, Value.parts, Value.Strings])
  | int i =>
    exact fun _ => iff_of_true (whole_all hascii (wholeText_int i))
      (by simp [Value.Every, Value.parts, Value.Strings])
  | float f =>
    exact fun hwf => iff_of_true (float_all hascii hfl hwf.self) (by simp [Value.Every, Value.parts, Value.Strings])
  | str s =>
    intro _
    rw [encode, quote_all hascii]
    simp [Value.Every, Value.parts, Value.Strings]
  | arr items ih =>
    intro hwf
    obtain ⟨-, hwf⟩ := Value.every_arr.mp hwf
    rw [encode, encodeItems_eq, listed_all hascii (Or.inr (Or.inl rfl)) (Or.inl rfl), List.forall_mem_map,
      Value.every_arr]
    constructor
    · exact fun h => ⟨trivial, fun v hv => (ih v hv (hwf v hv)).mp (h v hv)⟩
    · exact fun h v hv => (ih v hv (hwf v hv)).mpr (h.2 v hv)
  | obj fields ih =>
    intro hwf
    obtain ⟨-, hwf⟩ := Value.every_obj.mp hwf
    have hcolon : Q ':' := hascii _ (by decide) (by decide)
    rw [encode, encodeFields_eq, listed_all hascii (Or.inr (Or.inr rfl)) (Or.inr rfl), List.forall_mem_map,
      Value.every_obj]
    simp only [List.forall_mem_append, List.forall_mem_cons, quote_all hascii, hcolon, true_and]
    constructor
    · exact fun h => ⟨fun field hf => (h field hf).1, fun field hf => (ih field hf (hwf field hf)).mp (h field hf).2⟩
    · exact fun h field hf => ⟨h.1 field hf, (ih field hf (hwf field hf)).mpr (h.2 field hf)⟩

end All

/-! ## The last character -/

/-- The text ends in a visible character. -/
def EndsVisible (text : List Char) : Prop := ∃ before c, text = before ++ [c] ∧ Visible c

theorem EndsVisible.append {text : List Char} (h : EndsVisible text) (before : List Char) : EndsVisible (before ++ text) := by
  obtain ⟨more, c, rfl, hc⟩ := h
  exact ⟨before ++ more, c, (List.append_assoc _ _ _).symm, hc⟩

theorem endsVisible_digits {text : List Char} (h : Digits text) : EndsVisible text := by
  obtain ⟨before, c, rfl⟩ := List.eq_nil_or_concat' text |>.resolve_left h.1
  exact ⟨before, c, rfl, Visible.digit (h.2 c (by simp))⟩

theorem endsVisible_whole {text : List Char} (h : WholeText text) : EndsVisible text := by
  obtain ⟨digits, hdigits, -, rfl | rfl⟩ := h
  · exact endsVisible_digits hdigits
  · exact (endsVisible_digits hdigits).append ['-']

theorem endsVisible_listedMore {close : Char} (hclose : Closes close) (texts : List (List Char)) :
    EndsVisible (listedMore close texts) := by
  induction texts with
  | nil => exact ⟨[], close, rfl, by rcases hclose with rfl | rfl <;> exact ⟨by decide, by decide⟩⟩
  | cons text texts ih => exact ih.append (',' :: text)

theorem endsVisible_listed {opening close : Char} (hclose : Closes close) (texts : List (List Char)) :
    EndsVisible (listed opening close texts) := by
  cases texts with
  | nil => exact (endsVisible_listedMore hclose []).append [opening]
  | cons text texts => exact (endsVisible_listedMore hclose texts).append (opening :: text)

theorem encode_endsVisible (hfl : fl.Lawful) {v : Value F} (hwf : v.WellFormed fl) : EndsVisible (encode fl v) := by
  cases v with
  | null => exact ⟨['n', 'u', 'l'], 'l', rfl, by decide, by decide⟩
  | bool b =>
    cases b
    · exact ⟨['f', 'a', 'l', 's'], 'e', rfl, by decide, by decide⟩
    · exact ⟨['t', 'r', 'u'], 'e', rfl, by decide, by decide⟩
  | int i => exact endsVisible_whole (wholeText_int i)
  | float f =>
    obtain ⟨whole, frac, exp, htext, hwhole, hfrac, hexp, -⟩ := hfl.number f hwf
    have hmantissa : EndsVisible (whole ++ frac) := by
      rcases hfrac with rfl | ⟨digits, hdigits, rfl⟩
      · rw [List.append_nil]
        exact endsVisible_whole hwhole
      · exact ((endsVisible_digits hdigits).append ['.']).append whole
    rw [encode, htext]
    rcases hexp with rfl | ⟨mark, sign, digits, -, -, hdigits, rfl⟩
    · rw [List.append_nil]
      exact hmantissa
    · exact ((endsVisible_digits hdigits).append (mark :: sign)).append (whole ++ frac)
  | str s => exact ⟨'"' :: s.toList.flatMap escapeChar, '"', rfl, by decide, by decide⟩
  | arr items => exact endsVisible_listed (Or.inl rfl) _
  | obj fields => exact endsVisible_listed (Or.inr rfl) _

end Json
