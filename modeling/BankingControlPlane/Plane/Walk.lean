import BankingControlPlane.Plane.Permitted

/-!
# Walking through an operation

While an operation holds an intent, the table has a row for it and the dict, if it answers the reads,
has the held object itself.

* `Alike`, `Mirror` : table and dict agree, but for the reason of an intent no operation writes again;
* `At` : an operation under way, what it has done, the intent it holds and its row;
* one rule for each call an operation makes of the intent it holds (`At.walk_append`, `At.walk_assign`,
  `At.walk_put`), and for the composite ones (`At.walk_move`, `At.walk_saveReason`, `walk_summary`).
-/

namespace BankingControlPlane
open Effects

/-- The intent the dict has is the row, but for the reason of a dead one. -/
def Alike (c r : Intent) : Prop := c = r ∨ (dead r.state = true ∧ c = { r with reason := c.reason })

def Agree : Option Intent → Option Intent → Prop
  | none, none => True
  | some c, some r => Alike c r
  | _, _ => False

/-- What a dict that answers the reads has in common with the table. -/
def Mirror (kind : StoreKind) (w : World) : Prop :=
  kind = .memory → ∀ k, Agree (w.object k) (w.row k)

/-- An operation is under way since `pre` and has done `seg`; it holds `c`, whose row is `r`. -/
structure At (kind : StoreKind) (pre : List Obs) (op : Op) (w : World) (seg : List Obs)
    (c r : Intent) : Prop where
  hist : w.history = pre ++ .began op :: seg
  quiet : ∀ o ∈ seg, ¬ o.IsBegan
  row : w.row c.id = some r
  created : c.createdAt = r.createdAt
  object : kind = .memory → w.object c.id = some c
  others : kind = .memory → ∀ k, k ≠ c.id → Agree (w.object k) (w.row k)

/-- Nothing has changed but the intent `id`, and that not in the bank. -/
structure Beside (kind : StoreKind) (id : String) (w w' : World) : Prop where
  bank : w'.bank = w.bank
  others : ∀ k, k ≠ id →
    Keyed.find Intent.id (w'.intents kind) k = Keyed.find Intent.id (w.intents kind) k

/-- Walking a program: every call is permitted, given the invariant. -/
abbrev walk (env : Env) (kind : StoreKind) : Prog.Meaning World PlaneCall :=
  (handler env kind).given (Inv env) (Permitted env)

theorem Agree.refl (o : Option Intent) : Agree o o := by
  cases o with
  | none => trivial
  | some i => exact Or.inl rfl

theorem Alike.live {c r : Intent} (h : Alike c r) (hc : dead c.state = false) : c = r := by
  rcases h with h | ⟨hd, h⟩
  · exact h
  · rw [h, hd] at hc
    cases hc

theorem Beside.trans {kind : StoreKind} {id : String} {w₁ w₂ w₃ : World}
    (h : Beside kind id w₁ w₂) (h' : Beside kind id w₂ w₃) : Beside kind id w₁ w₃ :=
  ⟨h'.bank.trans h.bank, fun k hk => (h'.others k hk).trans (h.others k hk)⟩

theorem beside_append (kind : StoreKind) (w : World) (id : String) (e : Entry) :
    Beside kind id w (w.append id e) :=
  ⟨rfl, fun _ _ => by cases kind <;> rfl⟩

theorem beside_assign (kind : StoreKind) (w : World) (c : Intent) :
    Beside kind c.id w (w.assign c) := by
  refine ⟨rfl, fun k hk => ?_⟩
  cases kind with
  | postgres => rfl
  | memory =>
    change (w.assign c).object k = w.object k
    rw [World.object_assign, if_neg fun h => hk h.2.symm]

theorem beside_put (kind : StoreKind) (w : World) (c : Intent) : Beside kind c.id w (w.put c) := by
  refine ⟨rfl, fun k hk => ?_⟩
  cases kind with
  | postgres =>
    change (w.put c).row k = w.row k
    rw [World.row_put, if_neg hk.symm]
  | memory =>
    change (w.put c).object k = w.object k
    rw [World.object_put, if_neg hk.symm]

section At
variable {env : Env} {kind : StoreKind} {pre : List Obs} {op : Op} {w : World} {seg : List Obs}
  {c r : Intent}

namespace At

theorem during (h : At kind pre op w seg c r) : During w.history op seg :=
  ⟨trivial, h.quiet, pre, h.hist⟩

theorem known (h : At kind pre op w seg c r) (hi : Inv env w) : Known env w.drawn c.id := by
  obtain ⟨n, hn, heq⟩ := hi.ids _ _ h.row
  exact ⟨n, hn, Or.inl heq⟩

/-- The operation has noted one more thing, and left the intents alone. -/
theorem noted (h : At kind pre op w seg c r) {w' : World} {o : Obs} (ho : ¬ o.IsBegan)
    (hhist : w'.history = w.history ++ [o]) (hrows : w'.rows = w.rows)
    (hobjects : w'.objects = w.objects) : At kind pre op w' (seg ++ [o]) c r := by
  have hrow : w'.row = w.row := by funext k; simp only [World.row, hrows]
  have hobject : w'.object = w.object := by funext k; simp only [World.object, hobjects]
  refine ⟨by rw [hhist, h.hist]; simp, fun x hx => ?_, by rw [hrow]; exact h.row, h.created,
    by rw [hobject]; exact h.object, by rw [hrow, hobject]; exact h.others⟩
  rcases List.mem_append.mp hx with hx | hx
  · exact h.quiet x hx
  · rw [List.mem_singleton.mp hx]
    exact ho

theorem append (h : At kind pre op w seg c r) (e : Entry) :
    At kind pre op (w.append c.id e) (seg ++ [.appended ⟨c.id, e⟩]) c r :=
  h.noted (fun hb => hb) rfl rfl rfl

theorem clock (h : At kind pre op w seg c r) (use : Reading) :
    At kind pre op (serve env kind (.clock use) w).2 (seg ++ [.read use (env.clock w.ticks)]) c r :=
  h.noted (fun hb => hb) rfl rfl rfl

theorem asked (h : At kind pre op w seg c r) (env : Env) (o : Order) :
    At kind pre op (serve env kind (.createPix o) w).2 (seg ++ [.asked o]) c r :=
  h.noted (fun hb => hb) rfl rfl rfl

/-- The operation has changed neither the intents nor the history. -/
theorem same (h : At kind pre op w seg c r) {w' : World} (hhist : w'.history = w.history)
    (hrows : w'.rows = w.rows) (hobjects : w'.objects = w.objects) : At kind pre op w' seg c r := by
  have hrow : w'.row = w.row := by funext k; simp only [World.row, hrows]
  have hobject : w'.object = w.object := by funext k; simp only [World.object, hobjects]
  exact ⟨hhist ▸ h.hist, h.quiet, by rw [hrow]; exact h.row, h.created, by rw [hobject]; exact h.object,
    by rw [hrow, hobject]; exact h.others⟩

theorem now (h : At kind pre op w seg c r) (env : Env) :
    At kind pre op (serve env kind .now w).2 seg c r := h.same rfl rfl rfl

theorem newId (h : At kind pre op w seg c r) (env : Env) (stem : String) :
    At kind pre op (serve env kind (.newId stem) w).2 seg c r := h.same rfl rfl rfl

theorem assign (h : At kind pre op w seg c r) {c' : Intent} (hid : c'.id = c.id)
    (hc : c'.createdAt = c.createdAt) : At kind pre op (w.assign c') seg c' r := by
  refine ⟨h.hist, h.quiet, by rw [hid]; exact h.row, by rw [hc]; exact h.created, fun hk => ?_,
    fun hk k hne => ?_⟩
  · rw [World.object_assign, hid, h.object hk]
    simp
  · rw [World.object_assign, if_neg (fun hx => hne hx.2.symm)]
    exact h.others hk k (hid ▸ hne)

theorem put (h : At kind pre op w seg c r) :
    At kind pre op (w.put c) (seg ++ [.stored c]) c c := by
  have hsaved : w.saved c = c := World.saved_eq h.row h.created
  refine ⟨by simp [World.put, h.hist, hsaved], fun x hx => ?_, by rw [World.row_put, if_pos rfl, hsaved],
    rfl, fun _ => by rw [World.object_put, if_pos rfl], fun hk k hne => ?_⟩
  · rcases List.mem_append.mp hx with hx | hx
    · exact h.quiet x hx
    · rw [List.mem_singleton.mp hx]
      exact fun hb => hb
  · rw [World.object_put, World.row_put, if_neg (Ne.symm hne), if_neg (Ne.symm hne)]
    exact h.others hk k hne

/-- Where the held intent is like its row, table and dict agree. -/
theorem mirror (h : At kind pre op w seg c r) (ha : Alike c r) : Mirror kind w := by
  intro hk k
  by_cases hne : k = c.id
  · rw [hne, h.object hk, h.row]
    exact ha
  · exact h.others hk k hne

end At

/-- An intent that a read found is held, and is like its row. -/
theorem At.found (hm : Mirror kind w) (hhist : w.history = pre ++ .began op :: seg)
    (hquiet : ∀ o ∈ seg, ¬ o.IsBegan) (hf : Keyed.find Intent.id (w.intents kind) c.id = some c) :
    ∃ r, At kind pre op w seg c r ∧ Alike c r := by
  cases kind with
  | postgres =>
    have hrow : w.row c.id = some c := hf
    have hne : StoreKind.postgres = .memory → False := fun hk => by cases hk
    exact ⟨c, ⟨hhist, hquiet, hrow, rfl, fun hk => (hne hk).elim, fun hk => (hne hk).elim⟩, Or.inl rfl⟩
  | memory =>
    have hobject : w.object c.id = some c := hf
    have hagree := hm rfl c.id
    rw [hobject] at hagree
    cases hr : w.row c.id with
    | none => rw [hr] at hagree; exact hagree.elim
    | some r =>
      rw [hr] at hagree
      have hcreated : c.createdAt = r.createdAt := by
        rcases hagree with heq | ⟨-, heq⟩
        · rw [heq]
        · rw [heq]
      exact ⟨r, ⟨hhist, hquiet, hr, hcreated, fun _ => hobject, fun hk k _ => hm hk k⟩, hagree⟩

/-! ## Rules for the programs every operation is made of -/

variable {α β : Type} {Q : Except Exn α → World → Prop}

/-- A call with nothing to show. -/
theorem walk_call {pc : PlaneCall β} {k : β → Plane α} (hp : Permitted env pc w)
    (hk : (k (serve env kind pc w).1).wp (walk env kind) Q (serve env kind pc w).2) :
    (Prog.call pc k).wp (walk env kind) Q w :=
  fun _ => ⟨hp, hk⟩

/-- The invariant is at hand before any call. -/
theorem walk_given {pc : PlaneCall β} {k : β → Plane α}
    (h : Inv env w → (Prog.call pc k).wp (walk env kind) Q w) :
    (Prog.call pc k).wp (walk env kind) Q w :=
  fun hi => h hi hi

theorem walk_summary {i : Intent} {f : Summary → Plane α}
    (hk : ∀ s, (f s).wp (walk env kind) Q w) : ((summary i).bind f).wp (walk env kind) Q w := by
  simp only [summary, Prog.bind_eq, Prog.pure_eq, Prog.perform_bind, Prog.call_bind, Prog.ret_bind]
  exact walk_call trivial (hk _)

namespace At

theorem walk_append (h : At kind pre op w seg c r) {e : Entry} {k : Unit → Plane α}
    (he : Inv env w → Records w c.id e)
    (hk : At kind pre op (w.append c.id e) (seg ++ [.appended ⟨c.id, e⟩]) c r →
      (k ()).wp (walk env kind) Q (w.append c.id e)) :
    (Prog.call (.append c.id e) k).wp (walk env kind) Q w :=
  fun hi => ⟨⟨h.known hi, he hi⟩, hk (h.append e)⟩

theorem walk_assign (h : At kind pre op w seg c r) {c' : Intent} {f : Intent → Plane α}
    (hid : c'.id = c.id) (hc : c'.createdAt = c.createdAt)
    (hk : At kind pre op (w.assign c') seg c' r → (f c').wp (walk env kind) Q (w.assign c')) :
    ((BankingControlPlane.assign c').bind f).wp (walk env kind) Q w := by
  simp only [BankingControlPlane.assign, Prog.bind_eq, Prog.pure_eq, Prog.perform_bind, Prog.call_bind,
    Prog.ret_bind]
  exact walk_call trivial (hk (h.assign hid hc))

theorem walk_put (h : At kind pre op w seg c r) {k : Unit → Plane α}
    (hs : Inv env w → Saves env w (some r) c)
    (hk : At kind pre op (w.put c) (seg ++ [.stored c]) c c →
      (k ()).wp (walk env kind) Q (w.put c)) :
    (Prog.call (.put c) k).wp (walk env kind) Q w := by
  intro hi
  refine ⟨?_, hk h.put⟩
  change Saves env w (w.row c.id) c
  rw [h.row]
  exact hs hi

theorem walk_clock (h : At kind pre op w seg c r) {use : Reading} {k : Instant → Plane α}
    (hk : At kind pre op (serve env kind (.clock use) w).2 (seg ++ [.read use (env.clock w.ticks)]) c r →
      (k (env.clock w.ticks)).wp (walk env kind) Q (serve env kind (.clock use) w).2) :
    (Prog.call (.clock use) k).wp (walk env kind) Q w :=
  walk_call trivial (hk (h.clock use))

/-- **One hop, then saved.** -/
theorem walk_move (h : At kind pre op w seg c r) {event : Hop} {target : State} {detail : Detail}
    {f : Intent → Plane α} (hstate : r.state = c.state)
    (edge : TRANSITIONS c.state event = some target)
    (hs : ∀ w', At kind pre op w' (seg ++ [.appended ⟨c.id, .transition c.state event target detail⟩])
      { c with state := target } r → w'.bank = w.bank → w'.drawn = w.drawn → Inv env w' →
      Saves env w' (some r) { c with state := target })
    (hk : ∀ w', At kind pre op w' (seg ++ [.appended ⟨c.id, .transition c.state event target detail⟩] ++
        [.stored { c with state := target }]) { c with state := target } { c with state := target } →
      Beside kind c.id w w' → (f { c with state := target }).wp (walk env kind) Q w') :
    ((move c event detail).bind f).wp (walk env kind) Q w := by
  simp only [move, transition, edge, Prog.bind_eq, Prog.pure_eq,
    Prog.perform_bind, Prog.call_bind, Prog.bind_assoc, Prog.ret_bind]
  refine h.walk_append (fun _ => ⟨r, h.row, hstate, edge⟩) fun h₁ => ?_
  refine h₁.walk_assign rfl rfl fun h₂ => ?_
  refine h₂.walk_put (fun hi => hs _ h₂ rfl rfl hi) fun h₃ => ?_
  exact hk _ h₃ (((beside_append kind w c.id _).trans
    (beside_assign kind _ { c with state := target })).trans
    (beside_put kind _ { c with state := target }))

theorem walk_saveReason (h : At kind pre op w seg c c) {reason : String} {f : Intent → Plane α}
    (hstate : dead c.state = true ∨ c.state = .unknown)
    (hk : ∀ w', At kind pre op w' (seg ++ [.stored { c with reason := reason }])
      { c with reason := reason } { c with reason := reason } → Beside kind c.id w w' →
      (f { c with reason := reason }).wp (walk env kind) Q w') :
    ((saveReason c reason).bind f).wp (walk env kind) Q w := by
  simp only [saveReason, Prog.bind_eq, Prog.pure_eq, Prog.perform_bind,
    Prog.call_bind, Prog.bind_assoc, Prog.ret_bind]
  refine h.walk_assign rfl rfl fun h₁ => ?_
  refine h₁.walk_put (fun _ => .noted hstate) fun h₂ => ?_
  exact hk _ h₂ ((beside_assign kind w { c with reason := reason }).trans
    (beside_put kind _ { c with reason := reason }))

end At

end At

end BankingControlPlane
