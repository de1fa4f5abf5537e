import BankingControlPlane.Plane.Reached

/-!
# What a sweep does

* `Sweeps ids` : the calls a sweep makes, all of them about the intents it found in `SUBMITTED`;
* `Swept` : what they leave alone, wherever the sweep is cut (`swept_exec`, `swept_cut`);
* `sweep_sweep` : a sweep leaves the next one nothing to do.
-/

namespace BankingControlPlane
open Effects

variable {env : Env} {kind : StoreKind} {ids : List String}

/-- The intents a sweep finds. -/
def World.stranded (w : World) (kind : StoreKind) : List Intent := w.unsettled kind [.submitted]

/-- A call about one of these intents, which are saved as `UNKNOWN`. -/
def Sweeps (ids : List String) : {β : Type} → PlaneCall β → World → Prop
  | _, .put i, _ => i.id ∈ ids ∧ i.state = .unknown
  | _, .append id _, _ => id ∈ ids
  | _, .createPix _, _ => False
  | _, _, _ => True

/-- The intent is stored as `UNKNOWN`. -/
def Resolved (w : World) (id : String) : Prop := ∃ r, w.row id = some r ∧ r.state = .unknown

/-- Only these intents have changed, to `UNKNOWN`, and nothing in the bank. -/
structure Swept (ids : List String) (w₀ w : World) : Prop where
  bank : w.bank = w₀.bank
  rows : ∀ k, w.row k = w₀.row k ∨ k ∈ ids ∧ Resolved w k
  events : ∀ k, k ∉ ids → w.events k = w₀.events k

theorem World.resolved_put {w : World} {i : Intent} (hi : i.state = .unknown) {k : String}
    (hk : Resolved w k ∨ i.id = k) : Resolved (w.put i) k := by
  unfold Resolved
  rw [World.row_put]
  split_ifs with hid
  · exact ⟨_, rfl, by rw [World.saved_state, hi]⟩
  · exact hk.resolve_right hid

theorem Swept.serve {w₀ w : World} (h : Swept ids w₀ w) {β : Type} (c : PlaneCall β)
    (hc : Sweeps ids c w) : Swept ids w₀ (serve env kind c w).2 := by
  cases c with
  | put i =>
    obtain ⟨hid, hstate⟩ := hc
    refine ⟨h.bank, fun k => ?_, h.events⟩
    by_cases hk : i.id = k
    · exact Or.inr ⟨hk ▸ hid, World.resolved_put hstate (Or.inr hk)⟩
    · have hrow : (w.put i).row k = w.row k := by rw [World.row_put, if_neg hk]
      rcases h.rows k with heq | ⟨hmem, hres⟩
      · exact Or.inl (hrow.trans heq)
      · exact Or.inr ⟨hmem, World.resolved_put hstate (Or.inl hres)⟩
  | append id e =>
    refine ⟨h.bank, h.rows, fun k hk => ?_⟩
    have hne : id ≠ k := fun heq => hk (heq ▸ hc)
    have happ := World.events_append w id e k
    rw [if_neg hne, List.append_nil] at happ
    exact happ.trans (h.events k hk)
  | createPix o => exact hc.elim
  | _ => exact ⟨h.bank, h.rows, h.events⟩

/-- The body of the sweep's loop: two ledger rows and two saves. -/
theorem wp_sweepEach {found : List Intent} (hfound : ∀ i ∈ found, i.id ∈ ids ∧ i.state = .submitted)
    (w : World) :
    (sweepEach found).wp ((handler env kind).under (Sweeps ids)) (fun x t => x = .ok () ∧
      (∀ i ∈ found, Resolved t i.id) ∧ ∀ k, Resolved w k → Resolved t k) w := by
  induction found generalizing w with
  | nil => exact ⟨rfl, by simp, fun _ h => h⟩
  | cons i rest ih =>
    obtain ⟨hid, hstate⟩ := hfound i List.mem_cons_self
    have hrest := fun j hj => hfound j (List.mem_cons_of_mem _ hj)
    have hedge : TRANSITIONS i.state .timeout = some .unknown := by rw [hstate]; rfl
    simp only [sweepEach, move, transition, hedge, saveReason, assign, Prog.bind_eq, Prog.pure_eq,
      Prog.perform_bind, Prog.call_bind, Prog.ret_bind, Prog.wp_call, Handler.under_iff]
    refine ⟨hid, hid, trivial, ⟨hid, rfl⟩, trivial, ⟨hid, rfl⟩, ?_⟩
    refine Prog.wp_mono (Handler.under_mono _ _) _ ?_ (ih hrest _)
    rintro x t ⟨hx, hres, hold⟩
    refine ⟨hx, fun j hj => ?_, fun k hk => hold k ?_⟩
    · rcases List.mem_cons.mp hj with rfl | hj
      · exact hold _ (World.resolved_put rfl (Or.inr rfl))
      · exact hres j hj
    · exact World.resolved_put rfl (Or.inl (World.resolved_put rfl (Or.inl hk)))

theorem World.mem_unsettled {w : World} {states : List State} {i : Intent} :
    i ∈ w.unsettled .postgres states ↔ i ∈ w.rows ∧ i.state ∈ states := by
  simp only [unsettled, intents, List.mem_insertionSort, List.mem_filter, decide_eq_true_eq]

theorem World.mem_stranded {w : World} {i : Intent} :
    i ∈ w.stranded .postgres ↔ i ∈ w.rows ∧ i.state = .submitted := by
  simp only [stranded, mem_unsettled, List.mem_singleton]

theorem wp_sweep (w : World) :
    (Op.sweep.prog env).wp ((handler env .postgres).under
      (Sweeps ((w.stranded .postgres).map Intent.id)))
      (fun _ t => ∀ i ∈ w.stranded .postgres, Resolved t i.id) (w.note (.began .sweep)) := by
  simp only [Op.prog, replying, sweep, Prog.bind_eq, Prog.pure_eq, Prog.perform_bind, Prog.call_bind,
    Prog.wp_call, Prog.wp_bind, Handler.under_iff]
  refine ⟨trivial, ?_⟩
  have hfound : ∀ i ∈ w.stranded .postgres,
      i.id ∈ (w.stranded .postgres).map Intent.id ∧ i.state = .submitted :=
    fun i hi => ⟨List.mem_map_of_mem hi, (World.mem_stranded.mp hi).2⟩
  refine Prog.wp_mono (Handler.under_mono _ _) _ ?_ (wp_sweepEach hfound (w.note (.began .sweep)))
  rintro x t ⟨rfl, hres, -⟩
  exact hres

theorem swept_refl (w : World) (op : Op) : Swept ids w (w.note (.began op)) :=
  ⟨rfl, fun _ => Or.inl rfl, fun _ _ => rfl⟩

/-- Wherever a sweep is cut, only what it found has changed. -/
theorem swept_cut (w : World) (n : Nat) :
    Swept ((w.stranded .postgres).map Intent.id) w (cut env .postgres .sweep n w) :=
  Prog.cut_keeps (I := Swept ((w.stranded .postgres).map Intent.id) w)
    (fun c _ hc hs => hs.serve c hc) (wp_sweep w) (swept_refl w .sweep) n

theorem swept_exec (env : Env) (w : World) :
    Swept ((w.stranded .postgres).map Intent.id) w (exec env .postgres .sweep w).2 ∧
      ∀ i ∈ w.stranded .postgres, Resolved (exec env .postgres .sweep w).2 i.id :=
  ⟨Prog.run_keeps (I := Swept ((w.stranded .postgres).map Intent.id) w)
    (fun c _ hc hs => hs.serve c hc) (wp_sweep w) (swept_refl w .sweep), Prog.run_post (wp_sweep w)⟩

/-- A sweep leaves nothing in `SUBMITTED`. -/
theorem stranded_sweep {w : World} (h : Good env .postgres w) :
    (exec env .postgres .sweep w).2.stranded .postgres = [] := by
  obtain ⟨hswept, hres⟩ := swept_exec env w
  refine List.eq_nil_iff_forall_not_mem.mpr fun i hi => ?_
  obtain ⟨hmem, hstate⟩ := World.mem_stranded.mp hi
  have hrow := Keyed.find_of_mem Intent.id (h.exec .sweep).inv.nodup hmem
  have hnot : ¬ Resolved (exec env .postgres .sweep w).2 i.id := by
    rintro ⟨r, hr, hun⟩
    obtain rfl := Option.some.inj (hrow.symm.trans hr)
    rw [hstate] at hun
    cases hun
  rcases hswept.rows i.id with heq | ⟨-, h'⟩
  · have hbefore : i ∈ w.rows := Keyed.mem_of_find Intent.id (heq.symm.trans hrow)
    exact hnot (hres i (World.mem_stranded.mpr ⟨hbefore, hstate⟩))
  · exact hnot h'

/-- A sweep that finds nothing does nothing. -/
theorem sweep_nothing {w : World} (h : w.stranded kind = []) :
    (exec env kind .sweep w).2 = w.note (.began .sweep) := by
  have hfound : (w.note (.began .sweep)).unsettled kind [.submitted] = [] := h
  simp only [exec, Op.prog, replying, sweep, Prog.bind_eq, Prog.pure_eq, Prog.perform_bind,
    Prog.call_bind, Prog.run_call, handler, serve, hfound, sweepEach, Prog.ret_bind, Prog.run_ret]

/-- **A second sweep changes nothing.** -/
theorem sweep_sweep {w : World} (h : Good env .postgres w) :
    (exec env .postgres .sweep (exec env .postgres .sweep w).2).2 =
      (exec env .postgres .sweep w).2.note (.began .sweep) :=
  sweep_nothing (stranded_sweep h)

end BankingControlPlane
