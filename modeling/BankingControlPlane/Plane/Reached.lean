import BankingControlPlane.Plane.Specs

/-!
# What holds in every world a run reaches

* `Good` : the invariant of permitted calls, and table and dict in agreement;
* `Step.Sound` : another writer may put any action, digest and time over an intent's own, and any token
  the plane has saved; only a process over a durable store is cut short;
* `Preserved I` : what to show of each permitted call for `I` to hold after every operation and every
  cut (`Preserved.op`, `Preserved.cut`).
-/

namespace BankingControlPlane
open Effects

variable {env : Env} {kind : StoreKind} {w : World}

structure Good (env : Env) (kind : StoreKind) (w : World) : Prop where
  inv : Inv env w
  mirror : Mirror kind w

/-- The step runs this operation, whole or cut short. -/
def Step.Does (op : Op) (s : Step) : Prop := s = .op op ∨ ∃ n, s = .cut op n

/-- The step runs an operation, or writes no history. -/
theorem Step.does_or (env : Env) (kind : StoreKind) (w : World) (s : Step) :
    (∃ op, s.Does op) ∨ (s.next env kind w).history = w.history := by
  cases s with
  | op op => exact Or.inl ⟨op, Or.inl rfl⟩
  | cut op n => exact Or.inl ⟨op, Or.inr ⟨n, rfl⟩⟩
  | splice id columns => exact Or.inr rfl
  | bank b => exact Or.inr rfl

def Step.Sound (kind : StoreKind) (w : World) : Step → Prop
  | .op _ => True
  | .cut _ _ => kind = .postgres
  | .splice _ columns => ∀ t, columns.confirmationId = some (some t) →
      ∃ j, .stored j ∈ w.history ∧ j.confirmationId = some t
  | .bank _ => True

theorem Inv.note (h : Inv env w) (op : Op) : Inv env (w.note (.began op)) :=
  h.later rfl h.nodupObjects rfl (Nat.le_refl _) (Or.inr ⟨.began op, trivial, rfl⟩)

theorem Good.note (h : Good env kind w) (op : Op) : Good env kind (w.note (.began op)) :=
  ⟨h.inv.note op, h.mirror⟩

/-- Every call of an operation is permitted, and a good world is left. -/
theorem Good.permitted (h : Good env kind w) (op : Op) :
    (op.prog env).wp ((handler env kind).under (Permitted env)) (fun _ => Good env kind)
      (w.note (.began op)) :=
  Prog.wp_mono (Handler.under_mono _ _) _ (fun _ _ ht => ⟨ht.2, ht.1⟩)
    (Prog.wp_given (fun _ _ hc hi => hi.serve kind hc) (keeps_op h.mirror op) (h.inv.note op))

theorem Good.exec (h : Good env kind w) (op : Op) : Good env kind (exec env kind op w).2 :=
  Prog.run_post (h.permitted op)

theorem Good.cut (h : Good env kind w) (hk : kind = .postgres) (op : Op) (n : Nat) :
    Good env kind (cut env kind op n w) :=
  ⟨Prog.cut_keeps (fun _ _ hc hi => hi.serve kind hc) (h.permitted op) (h.inv.note op) n,
    fun hm => by rw [hk] at hm; cases hm⟩

/-- The operation under way, as its history shows it. -/
theorem during_serve {op : Op} (h : ∃ seg, During w.history op seg) {β : Type} (c : PlaneCall β) :
    ∃ seg, During (serve env kind c w).2.history op seg := by
  obtain ⟨seg, hseg⟩ := h
  cases c with
  | put i => exact ⟨_, hseg.snoc (y := .stored (w.saved i)) fun hb => hb⟩
  | append id e => exact ⟨_, hseg.snoc (y := .appended ⟨id, e⟩) fun hb => hb⟩
  | clock use => exact ⟨_, hseg.snoc (y := .read use (env.clock w.ticks)) fun hb => hb⟩
  | createPix o => exact ⟨_, hseg.snoc (y := .asked o) fun hb => hb⟩
  | _ => exact ⟨seg, hseg⟩

/-- What the calls of an operation keep holds wherever it ends. -/
theorem Step.Does.keeps {op : Op} {s : Step} (hs : s.Does op)
    {A : {β : Type} → PlaneCall β → World → Prop} {Q : Except Exn Reply → World → Prop}
    (hop : (op.prog env).wp ((handler env kind).under A) Q (w.note (.began op))) {I : World → Prop}
    (hI : ∀ {β : Type} (c : PlaneCall β) (w : World), A c w → I w → I (serve env kind c w).2)
    (hw : I (w.note (.began op))) : I (s.next env kind w) := by
  rcases hs with rfl | ⟨n, rfl⟩
  · exact Prog.run_keeps hI hop hw
  · exact Prog.cut_keeps hI hop hw n

/-- What every permitted call of this operation keeps holds after it, if its calls also meet `A`. -/
theorem Good.keeps (h : Good env kind w) {op : Op} {A : {β : Type} → PlaneCall β → World → Prop}
    (hA : (op.prog env).wp ((handler env kind).under A) (fun _ _ => True) (w.note (.began op)))
    {I : World → Prop} (hI : ∀ {β : Type} (c : PlaneCall β) (w' : World) (seg : List Obs),
      Permitted env c w' → A c w' → During w'.history op seg → I w' → I (serve env kind c w').2)
    (hw : I (w.note (.began op))) : I (BankingControlPlane.exec env kind op w).2 := by
  have hstart : ∃ seg, During (w.note (.began op)).history op seg :=
    ⟨[], History.Since.start _ trivial⟩
  have hcall : ∀ {β : Type} (c : PlaneCall β) (w' : World), Permitted env c w' ∧ A c w' →
      (∃ seg, During w'.history op seg) ∧ I w' →
      (∃ seg, During (serve env kind c w').2.history op seg) ∧ I (serve env kind c w').2 := by
    rintro β c w' ⟨hc, ha⟩ ⟨⟨seg, hseg⟩, hi⟩
    exact ⟨during_serve ⟨seg, hseg⟩ c, hI c w' seg hc ha hseg hi⟩
  exact (Prog.run_keeps (I := fun w' => (∃ seg, During w'.history op seg) ∧ I w') hcall
    (Prog.wp_and (h.permitted op) hA) ⟨hstart, hw⟩).2

/-! ## Other writers -/

theorem Alike.write {c r : Intent} (h : Alike c r) (columns : Columns) :
    Alike (columns.write c) (columns.write r) := by
  rcases h with rfl | ⟨hd, heq⟩
  · exact Or.inl rfl
  · exact Or.inr ⟨hd, by rw [heq]; rfl⟩

theorem Mirror.splice (h : Mirror kind w) (id : String) (columns : Columns) :
    Mirror kind (w.edit id columns.write) := by
  intro hk k
  have hagree := h hk k
  rw [World.object_splice, World.row_splice]
  cases ho : w.object k with
  | none =>
    rw [ho] at hagree
    cases hr : w.row k with
    | none => trivial
    | some r => rw [hr] at hagree; exact hagree.elim
  | some c =>
    rw [ho] at hagree
    cases hr : w.row k with
    | none => rw [hr] at hagree; exact hagree.elim
    | some r =>
      rw [hr] at hagree
      simp only [Option.map_some]
      split_ifs
      · exact Alike.write hagree columns
      · exact hagree

/-- What a splice leaves of a row. -/
theorem row_splice_some {id : String} {columns : Columns} {k : String} {r : Intent}
    (h : (w.edit id columns.write).row k = some r) :
    ∃ r₀, w.row k = some r₀ ∧ (r = r₀ ∨ (k = id ∧ r = columns.write r₀)) := by
  rw [World.row_splice] at h
  obtain ⟨r₀, hr₀, heq⟩ := Option.map_eq_some_iff.mp h
  refine ⟨r₀, hr₀, ?_⟩
  split_ifs at heq with hk
  · exact Or.inr ⟨hk, heq.symm⟩
  · exact Or.inl heq.symm

theorem Inv.splice (h : Inv env w) {id : String} {columns : Columns}
    (hs : (Step.splice id columns).Sound kind w) : Inv env (w.edit id columns.write) := by
  have hobjects : (w.edit id columns.write).objects.map Intent.id = w.objects.map Intent.id := by
    simp only [World.edit, List.map_map]
    refine List.map_congr_left fun i _ => ?_
    simp only [Function.comp]
    split_ifs <;> rfl
  refine ⟨by rw [World.ids_splice]; exact h.nodup, by rw [hobjects]; exact h.nodupObjects,
    fun k r hr => ?_, h.tokens, fun k r t hr ht => ?_, fun i hi => ?_, h.known, fun k r hr => ?_,
    fun o ho => ?_, h.ledger⟩
  · obtain ⟨r₀, hr₀, -⟩ := row_splice_some hr
    exact h.ids k r₀ hr₀
  · obtain ⟨r₀, hr₀, rfl | ⟨-, rfl⟩⟩ := row_splice_some hr
    · exact h.rowTokens k r t hr₀ ht
    · cases hc : columns.confirmationId with
      | none => exact h.rowTokens k r₀ t hr₀ (by simpa [Columns.write, hc] using ht)
      | some v =>
        obtain rfl : v = some t := by simpa [Columns.write, hc] using ht
        obtain ⟨j, hj, htoken⟩ := hs t hc
        exact issueOf_of_stored hj htoken
  · obtain ⟨r, hr⟩ := h.written i hi
    rw [World.row_splice, hr]
    exact ⟨_, rfl⟩
  · obtain ⟨r₀, hr₀, rfl | ⟨-, rfl⟩⟩ := row_splice_some hr
    · exact h.principals k r hr₀
    · exact h.principals k r₀ hr₀
  · obtain ⟨r, hr, hl⟩ := h.asked o ho
    rw [World.row_splice, hr]
    refine ⟨_, rfl, ?_⟩
    split_ifs <;> exact hl

theorem Good.step (h : Good env kind w) {s : Step} (hs : s.Sound kind w) :
    Good env kind (s.next env kind w) := by
  cases s with
  | op op => exact h.exec op
  | cut op n => exact h.cut hs op n
  | splice id columns => exact ⟨h.inv.splice hs, h.mirror.splice id columns⟩
  | bank b => exact ⟨h.inv.later rfl h.inv.nodupObjects rfl (Nat.le_refl _) (Or.inl rfl), h.mirror⟩

theorem Good.start (bank : MockBank) : Good env kind { bank := bank } := by
  refine ⟨⟨List.nodup_nil, List.nodup_nil, ?_, ?_, ?_, ?_, ?_, ?_, ?_, rfl⟩, fun _ _ => trivial⟩
  all_goals intros; simp_all [World.row]

/-- **Every world a sound run reaches is good.** -/
theorem Reach.good {opening : MockBank → Prop} {admissible : World → Step → Prop}
    (hsound : ∀ w s, admissible w s → s.Sound kind w) (hw : Reach env kind opening admissible w) :
    Good env kind w :=
  hw.invariant (fun bank _ => Good.start bank) fun w s h hs => h.step (hsound w s hs)

/-! ## Invariants of every permitted call -/

/-- What every permitted call keeps, and the beginning of an operation too. -/
structure Preserved (env : Env) (kind : StoreKind) (I : World → Prop) : Prop where
  call : ∀ {β : Type} (c : PlaneCall β) (w : World), Permitted env c w → Inv env w → I w →
    I (serve env kind c w).2
  began : ∀ w op, Inv env w → I w → I (w.note (.began op))

namespace Preserved
variable {I : World → Prop}

theorem both (hI : Preserved env kind I) {β : Type} (c : PlaneCall β) (w : World)
    (hc : Permitted env c w) (h : Inv env w ∧ I w) :
    Inv env (serve env kind c w).2 ∧ I (serve env kind c w).2 :=
  ⟨h.1.serve kind hc, hI.call c w hc h.1 h.2⟩

theorem op (hI : Preserved env kind I) (h : Good env kind w) (hw : I w) (op : Op) :
    I (exec env kind op w).2 :=
  (Prog.run_keeps (I := fun w => Inv env w ∧ I w) (fun c s => hI.both c s) (h.permitted op)
    ⟨h.inv.note op, hI.began w op h.inv hw⟩).2

theorem cut (hI : Preserved env kind I) (h : Good env kind w) (hw : I w) (op : Op) (n : Nat) :
    I (BankingControlPlane.cut env kind op n w) :=
  (Prog.cut_keeps (I := fun w => Inv env w ∧ I w) (fun c s => hI.both c s) (h.permitted op)
    ⟨h.inv.note op, hI.began w op h.inv hw⟩ n).2

/-- Wherever the operation ends, the invariant holds. -/
theorem does (hI : Preserved env kind I) (h : Good env kind w) (hw : I w) {op : Op} {s : Step}
    (hs : s.Does op) : I (s.next env kind w) := by
  rcases hs with rfl | ⟨n, rfl⟩
  · exact hI.op h hw op
  · exact hI.cut h hw op n

end Preserved

/-- **What permitted calls and other writers keep holds in every world a sound run reaches.** -/
theorem Reach.preserved {I : World → Prop} {opening : MockBank → Prop}
    {admissible : World → Step → Prop} (hw : Reach env kind opening admissible w)
    (hsound : ∀ w s, admissible w s → s.Sound kind w) (hI : Preserved env kind I)
    (hstart : ∀ bank, opening bank → I { bank := bank })
    (hsplice : ∀ w id columns, admissible w (.splice id columns) → I w →
      I (w.edit id columns.write))
    (hbank : ∀ w b, admissible w (.bank b) → I w → I { w with bank := b }) :
    Good env kind w ∧ I w := by
  induction hw with
  | start bank hb => exact ⟨Good.start bank, hstart bank hb⟩
  | step s _ hs ih =>
    refine ⟨ih.1.step (hsound _ _ hs), ?_⟩
    cases s with
    | op op => exact hI.op ih.1 ih.2 op
    | cut op n => exact hI.cut ih.1 ih.2 op n
    | splice id columns => exact hsplice _ id columns hs ih.2
    | bank b => exact hbank _ b hs ih.2

/-- A fact about every row and the history so far: what is noted of others leaves it, and every save
establishes it. -/
theorem preserved_rows {J : List Obs → Intent → Prop}
    (hmono : ∀ h o r, o.version r.id = none → J h r → J (h ++ [o]) r)
    (hnew : ∀ w i, Inv env w → w.row i.id = none → Saves env w none i → J (w.history ++ [.stored i]) i)
    (hsave : ∀ w r i, Inv env w → w.row i.id = some r → Saves env w (some r) i → J w.history r →
      J (w.history ++ [.stored i]) i) :
    Preserved env kind fun w => ∀ k r, w.row k = some r → J w.history r := by
  refine ⟨fun c w hc hi hI => ?_, fun w op _ hI k r hr => hmono _ _ _ rfl (hI k r hr)⟩
  cases c with
  | put i =>
    intro k r hr
    have hs : Saves env w (w.row i.id) i := hc
    simp only [serve, World.row_put, hs.saved] at hr
    simp only [serve, World.put, hs.saved]
    split_ifs at hr with hk
    · obtain rfl := Option.some.inj hr
      cases hrow : w.row i.id with
      | none => exact hnew w i hi hrow (hrow ▸ hs)
      | some r => exact hsave w r i hi hrow (hrow ▸ hs) (hI _ r hrow)
    · have hne : ¬ i.id = r.id := by
        rw [key_of_row hr]
        exact hk
      exact hmono _ _ _ (if_neg hne) (hI k r hr)
  | append id e => exact fun k r hr => hmono _ _ _ rfl (hI k r hr)
  | clock use => exact fun k r hr => hmono _ _ _ rfl (hI k r hr)
  | createPix o => exact fun k r hr => hmono _ _ _ rfl (hI k r hr)
  | _ => exact hI

/-- A fact about every note and the history before it. -/
theorem preserved_past {I : World → Prop} (hI : Preserved env kind I) {P : List Obs → Obs → Prop}
    (hstored : ∀ w i, Inv env w → I w → Saves env w (w.row i.id) i → P w.history (.stored i))
    (hasked : ∀ w o, Inv env w → I w → Authorised env w o → P w.history (.asked o))
    (happended : ∀ h e, P h (.appended e)) (hsilent : ∀ h o, o.Silent → P h o) :
    Preserved env kind fun w => I w ∧ History.Past P w.history := by
  refine ⟨fun c w hc hi h => ⟨hI.call c w hc hi h.1, ?_⟩, fun w op hi h => ⟨hI.began w op hi h.1, ?_⟩⟩
  · cases c with
    | put i =>
      have hs : Saves env w (w.row i.id) i := hc
      simp only [serve, World.put, hs.saved]
      exact History.past_snoc.mpr ⟨h.2, hstored w i hi h.1 hs⟩
    | append id e => exact History.past_snoc.mpr ⟨h.2, happended _ _⟩
    | clock use => exact History.past_snoc.mpr ⟨h.2, hsilent _ _ trivial⟩
    | createPix o => exact History.past_snoc.mpr ⟨h.2, hasked w o hi h.1 hc⟩
    | _ => exact h.2
  · exact History.past_snoc.mpr ⟨h.2, hsilent _ _ trivial⟩

end BankingControlPlane
