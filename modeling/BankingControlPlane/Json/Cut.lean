import BankingControlPlane.Json.RoundTrip

/-!
# A text that is cut off

* `Extends` : what a reader takes, another takes whatever comes after, when the number before is over;
* `scan_extends` : so it is with values, and more depth;
* `loads_cut` : the text of a string, a list or an object that misses its end is not read.
-/

namespace Json

variable {F α : Type} {fl : Floats F} {text rest : List Char}

/-- Something comes next, and it is no part of a number. -/
def Stops (rest : List Char) : Prop := rest ≠ [] ∧ Ends rest

theorem Stops.append (h : Stops rest) (more : List Char) : Ends (rest ++ more) := by
  obtain ⟨hne, hends⟩ := h
  intro c hc
  rw [List.head?_append_of_ne_nil _ hne] at hc
  exact hends c hc

def Extends (read read' : Reader α) : Prop :=
  ∀ text a rest, read text = some (a, rest) → Stops rest → ∀ more, read' (text ++ more) = some (a, rest ++ more)

/-! ## Tokens -/

theorem skip_append {c : Char} (h : skip text = c :: rest) (more : List Char) :
    skip (text ++ more) = c :: (rest ++ more) := by
  unfold skip at h ⊢
  have hne : text.dropWhile isBlank ≠ [] := by rw [h]; exact List.cons_ne_nil _ _
  rw [List.dropWhile_append, if_neg (by simpa using hne), h, List.cons_append]

/-- What comes after whitespace decides what a number before it is over by. -/
theorem stops_of_skip {c : Char} (h : skip text = c :: rest) (hc : Ends [c]) : Stops text := by
  cases text with
  | nil => cases h
  | cons first more =>
    refine ⟨List.cons_ne_nil _ _, fun d hd => ?_⟩
    cases hd
    by_cases hblank : isBlank first = true
    · unfold isBlank at hblank
      simp only [Bool.or_eq_true, decide_eq_true_eq] at hblank
      rcases hblank with ((rfl | rfl) | rfl) | rfl <;> decide
    · rw [skip_cons (by simpa using hblank)] at h
      exact hc first (congrArg some (List.cons.inj h).1.symm)

theorem scanUnits_append (more : List Char) : ∀ text units rest, scanUnits text = some (units, rest) →
    scanUnits (text ++ more) = some (units, rest ++ more) := by
  intro text
  fun_induction scanUnits text with
  | case1 => intro units rest h; cases h
  | case2 after =>
    intro units rest h
    obtain ⟨rfl, rfl⟩ := Prod.mk.inj (Option.some.inj h)
    rfl
  | case3 a b c d after ih =>
    intro units rest h
    obtain ⟨unit, hunit, h⟩ := Option.bind_eq_some_iff.mp h
    obtain ⟨⟨units', rest'⟩, hafter, heq⟩ := Option.map_eq_some_iff.mp h
    obtain ⟨rfl, rfl⟩ := Prod.mk.inj heq
    simp only [List.cons_append, scanUnits, hunit, Option.bind_some, ih _ _ hafter, Option.map_some]
  | case4 c after hshort ih =>
    intro units rest h
    obtain ⟨unit, hunit, h⟩ := Option.bind_eq_some_iff.mp h
    obtain ⟨⟨units', rest'⟩, hafter, heq⟩ := Option.map_eq_some_iff.mp h
    obtain ⟨rfl, rfl⟩ := Prod.mk.inj heq
    have hother : c ≠ 'u' := fun hc => by rw [hc] at hunit; cases hunit
    rw [List.cons_append, List.cons_append, scanUnits, hunit, Option.bind_some, ih _ _ hafter, Option.map_some]
    exact fun _ _ _ _ _ hc => absurd hc hother
  | case5 c after hquote hu hback hstop =>
    intro units rest h
    cases h
  | case6 c after hquote hu hback hstop ih =>
    intro units rest h
    obtain ⟨⟨units', rest'⟩, hafter, heq⟩ := Option.map_eq_some_iff.mp h
    obtain ⟨rfl, rfl⟩ := Prod.mk.inj heq
    have hplain : c ≠ '\\' := fun hc => hstop (Or.inr hc)
    rw [List.cons_append, scanUnits, if_neg hstop, ih _ _ hafter, Option.map_some]
    · exact hquote
    · exact fun _ _ _ _ _ hc => absurd hc hplain
    · exact fun _ _ hc => absurd hc hplain

theorem scanString_append {s : String} (h : scanString text = some (s, rest)) (more : List Char) :
    scanString (text ++ more) = some (s, rest ++ more) := by
  obtain ⟨⟨units, rest'⟩, hunits, h⟩ := Option.bind_eq_some_iff.mp h
  obtain ⟨chars, hchars, heq⟩ := Option.map_eq_some_iff.mp h
  obtain ⟨rfl, rfl⟩ := Prod.mk.inj heq
  rw [scanString, scanUnits_append more _ _ _ hunits, Option.bind_some]
  dsimp only
  rw [hchars, Option.map_some]

theorem literal_append {word : List Char} {v v' : Value F} (h : literal word v text = some (v', rest))
    (more : List Char) : literal word v (text ++ more) = some (v', rest ++ more) := by
  unfold literal at h ⊢
  split_ifs at h with hword
  obtain ⟨after, rfl⟩ := hword
  obtain ⟨rfl, rfl⟩ := Prod.mk.inj (Option.some.inj h)
  rw [List.append_assoc, if_pos (List.prefix_append _ _), List.drop_left, List.drop_left]

/-! ## Brackets -/

section Listing
variable {close : Char} {item item' : Reader α} (hclose : Closes close)
include hclose

theorem listingMore_stops {n : Nat} {xs : List α} (h : listingMore close item n text = some (xs, rest)) :
    Stops text := by
  cases n with
  | zero => cases h
  | succ n =>
    rw [listingMore] at h
    cases hskip : skip text with
    | nil => rw [hskip] at h; cases h
    | cons c after =>
      rw [hskip] at h
      dsimp only at h
      by_cases hc : c = close
      · exact stops_of_skip hskip (ends_cons (Or.inr (hc ▸ hclose)))
      · rw [if_neg hc] at h
        by_cases hcomma : c = ','
        · exact stops_of_skip hskip (ends_cons (Or.inl hcomma))
        · rw [if_neg hcomma] at h
          cases h

variable (hitem : Extends item item') (hnil : item [] = none)
include hitem hnil

theorem listingMore_append : ∀ {n m : Nat}, n ≤ m → ∀ {text xs rest},
    listingMore close item n text = some (xs, rest) → ∀ more,
      listingMore close item' m (text ++ more) = some (xs, rest ++ more) := by
  intro n
  induction n with
  | zero => intro m _ text xs rest h; cases h
  | succ n ih =>
    intro m hnm text xs rest h more
    obtain ⟨m, rfl⟩ := Nat.exists_eq_add_of_le' (Nat.lt_of_lt_of_le (Nat.zero_lt_succ n) hnm)
    rw [listingMore] at h ⊢
    cases hskip : skip text with
    | nil => rw [hskip] at h; cases h
    | cons c after =>
      rw [hskip] at h
      rw [skip_append hskip]
      dsimp only at h ⊢
      by_cases hc : c = close
      · rw [if_pos hc] at h ⊢
        obtain ⟨rfl, rfl⟩ := Prod.mk.inj (Option.some.inj h)
        rfl
      · rw [if_neg hc] at h ⊢
        by_cases hcomma : c = ','
        · rw [if_pos hcomma] at h ⊢
          obtain ⟨⟨x, afterItem⟩, hfirst, h⟩ := Option.bind_eq_some_iff.mp h
          obtain ⟨⟨xs', rest'⟩, hrest, heq⟩ := Option.map_eq_some_iff.mp h
          obtain ⟨rfl, rfl⟩ := Prod.mk.inj heq
          have hskipped : skip (after ++ more) = skip after ++ more := by
            cases hafter : skip after with
            | nil => rw [hafter, hnil] at hfirst; cases hfirst
            | cons d further => exact skip_append hafter more
          rw [hskipped, hitem _ _ _ hfirst (listingMore_stops hclose hrest) more, Option.bind_some]
          dsimp only
          rw [ih (Nat.le_of_succ_le_succ hnm) hrest more, Option.map_some]
        · rw [if_neg hcomma] at h
          cases h

theorem listing_append {n m : Nat} (hnm : n ≤ m) {xs : List α} (h : listing close item n text = some (xs, rest))
    (more : List Char) : listing close item' m (text ++ more) = some (xs, rest ++ more) := by
  rw [listing] at h ⊢
  cases hskip : skip text with
  | nil => rw [hskip] at h; cases h
  | cons c after =>
    rw [hskip] at h
    rw [skip_append hskip]
    dsimp only at h ⊢
    by_cases hc : c = close
    · rw [if_pos hc] at h ⊢
      obtain ⟨rfl, rfl⟩ := Prod.mk.inj (Option.some.inj h)
      rfl
    · rw [if_neg hc] at h ⊢
      obtain ⟨⟨x, afterItem⟩, hfirst, h⟩ := Option.bind_eq_some_iff.mp h
      obtain ⟨⟨xs', rest'⟩, hrest, heq⟩ := Option.map_eq_some_iff.mp h
      obtain ⟨rfl, rfl⟩ := Prod.mk.inj heq
      have hread := hitem _ _ _ hfirst (listingMore_stops hclose hrest) more
      rw [List.cons_append] at hread
      rw [hread, Option.bind_some]
      dsimp only
      rw [listingMore_append hclose hitem hnil hnm hrest more, Option.map_some]

end Listing

theorem member_extends {item item' : Reader α} (hitem : Extends item item') (hnil : item [] = none) :
    Extends (member item) (member item') := by
  intro text field rest h hstops more
  unfold member at h
  split at h
  · rename_i text
    obtain ⟨⟨key, afterKey⟩, hkey, h⟩ := Option.bind_eq_some_iff.mp h
    dsimp only at h
    split at h
    · rename_i after hskip
      obtain ⟨⟨v, rest'⟩, hv, heq⟩ := Option.map_eq_some_iff.mp h
      obtain ⟨rfl, rfl⟩ := Prod.mk.inj heq
      have hskipped : skip (after ++ more) = skip after ++ more := by
        cases hafter : skip after with
        | nil => rw [hafter, hnil] at hv; cases hv
        | cons d further => exact skip_append hafter more
      rw [List.cons_append, member, scanString_append hkey, Option.bind_some]
      dsimp only
      rw [skip_append hskip]
      change ((item' (skip (after ++ more))).map fun p => ((key, p.1), p.2)) = _
      rw [hskipped, hitem _ _ _ hv hstops more, Option.map_some]
    · cases h
  · cases h

/-! ## Values -/

/-- A value that begins with one of these ends by itself. -/
def Opens (c : Char) : Prop := c = '"' ∨ c = '[' ∨ c = '{'

theorem scan_nil (n : Nat) : scan fl n [] = none := by cases n <;> rfl

theorem scan_opening {n m : Nat} (hnm : n ≤ m) (hitem : Extends (scan fl n) (scan fl m)) {c : Char}
    (hc : Opens c) {v : Value F} (h : scan fl (n + 1) (c :: text) = some (v, rest)) (more : List Char) :
    scan fl (m + 1) (c :: text ++ more) = some (v, rest ++ more) := by
  rw [scan] at h
  rw [List.cons_append, scan]
  rcases hc with rfl | rfl | rfl
  · rw [if_pos rfl] at h ⊢
    obtain ⟨⟨s, rest'⟩, hs, heq⟩ := Option.map_eq_some_iff.mp h
    obtain ⟨rfl, rfl⟩ := Prod.mk.inj heq
    rw [scanString_append hs, Option.map_some]
  · rw [if_neg (by decide), if_pos rfl] at h ⊢
    obtain ⟨⟨items, rest'⟩, hitems, heq⟩ := Option.map_eq_some_iff.mp h
    obtain ⟨rfl, rfl⟩ := Prod.mk.inj heq
    rw [listing_append (Or.inl rfl) hitem (scan_nil n) hnm hitems, Option.map_some]
  · rw [if_neg (by decide), if_neg (by decide), if_pos rfl] at h ⊢
    obtain ⟨⟨fields, rest'⟩, hfields, heq⟩ := Option.map_eq_some_iff.mp h
    obtain ⟨rfl, rfl⟩ := Prod.mk.inj heq
    rw [listing_append (Or.inr rfl) (member_extends hitem (scan_nil n)) rfl hnm hfields, Option.map_some]

theorem scan_extends : ∀ {n m : Nat}, n ≤ m → Extends (scan fl n) (scan fl m) := by
  intro n
  induction n with
  | zero => intro m _ text v rest h; cases h
  | succ n ih =>
    intro m hnm text v rest h hstops more
    obtain ⟨m, rfl⟩ := Nat.exists_eq_add_of_le' (Nat.lt_of_lt_of_le (Nat.zero_lt_succ n) hnm)
    have hnm := Nat.le_of_succ_le_succ hnm
    cases text with
    | nil => rw [scan_nil] at h; cases h
    | cons c text =>
      by_cases hopening : Opens c
      · exact scan_opening hnm (ih hnm) hopening h more
      · simp only [Opens, not_or] at hopening
        obtain ⟨hquote, hsquare, hcurly⟩ := hopening
        rw [scan, if_neg hquote, if_neg hsquare, if_neg hcurly] at h
        by_cases hnumber : scanNumber fl (c :: text) = some (v, rest)
        · -- a number goes on only where it did before
          obtain ⟨whole, frac, exp, hwhole, hfrac, hexp, heq, hvalue⟩ := scanNumber_sound hnumber
          have hmore : c :: text ++ more = whole ++ (frac ++ (exp ++ (rest ++ more))) := by
            rw [heq, List.append_assoc, List.append_assoc, List.append_assoc]
          rw [hmore, scan_number hwhole, scanNumber_read hwhole hfrac hexp (hstops.append more), hvalue]
          rfl
        · rw [List.cons_append, scan, if_neg hquote, if_neg hsquare, if_neg hcurly]
          split_ifs at h ⊢ with _ _ _ _ _ hminus hshort hshort
          · exact literal_append h more
          · exact literal_append h more
          · exact literal_append h more
          · exact literal_append h more
          · exact literal_append h more
          · exact literal_append h more
          · exact absurd h hnumber
          · refine absurd ⟨hshort.1, ?_⟩ hminus
            rw [List.head?_append, hshort.2]
            rfl
          · exact absurd h hnumber

/-- **The text of a string, a list or an object that misses its end** is not read. -/
theorem loads_cut (hfl : fl.Lawful) {v : Value F} (hwf : v.Every (Value.WellFormed fl))
    (hprintable : v.Every Value.Printable) {c : Char} (hc : Opens c) {whole : List Char}
    (hencode : encode fl v = c :: whole) {cut missing : List Char} (hcut : encode fl v = cut ++ missing)
    (hmissing : missing ≠ []) : loads fl cut = none := by
  have hnone : scan fl cut.length (skip cut) = none := by
    cases cut with
    | nil => rfl
    | cons first cut =>
      rw [hencode, List.cons_append] at hcut
      obtain ⟨rfl, rfl⟩ := List.cons.inj hcut
      have hblank : isBlank c = false := by rcases hc with rfl | rfl | rfl <;> rfl
      rw [skip_cons hblank]
      cases hscan : scan fl (c :: cut).length (c :: cut) with
      | none => rfl
      | some read =>
        obtain ⟨v', rest⟩ := read
        have hdepth : cut.length ≤ (c :: cut ++ missing).length := by simp; omega
        have hmore := scan_opening hdepth (scan_extends hdepth) hc hscan missing
        have hwhole := scan_encode hfl v ((c :: cut ++ missing).length + 1) (by rw [hencode]; simp) hwf hprintable []
          ends_nil
        rw [List.append_nil, hencode, ← List.cons_append, hmore] at hwhole
        have hend := congrArg Prod.snd (Option.some.inj hwhole)
        exact absurd (List.append_eq_nil_iff.mp hend).2 hmissing
  rw [loads, hnone]
  rfl

end Json
