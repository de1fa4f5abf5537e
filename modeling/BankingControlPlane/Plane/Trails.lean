import BankingControlPlane.Plane.Lookups

/-!
# In what order an operation writes

* `Docket` : the state each intent is stored in, who opened each trail, the hop noted and not yet saved,
  whether a hop was refused and whether an intent has been written;
* `writes` : the order of writes every operation keeps to, whatever its calls answer. A trail begins with
  its request; a hop is noted from the stored state and then saved; nothing is written after a refusal;
* `writes_op` : every operation keeps to it, and ends with no hop left to save.
-/

namespace BankingControlPlane
open Effects

variable {env : Env} {α β : Type} {who : Option (String × String)}

structure Docket where
  state : String → Option State
  opener : String → Option (String × String)
  pending : Option (String × State) := none
  refused : Bool := false
  touched : Bool := false

/-- An entry that opens no trail, notes no hop and refuses none. -/
def Entry.plain : Entry → Bool
  | .request .. | .transition .. | .transitionRefused .. => false
  | _ => true

namespace Docket

/-- When a row of the ledger may be written. -/
def Records (who : Option (String × String)) (s : Docket) (id : String) : Entry → Prop
  | .request customer session _ _ => who = some (customer, session) ∧ s.opener id = none
  | .transition fromState event target _ => s.pending = none ∧ (s.opener id).isSome ∧
      s.state id = some fromState ∧ TRANSITIONS fromState event = some target
  | .transitionRefused .. => s.pending = none ∧ (s.opener id).isSome ∧ s.touched = false
  | _ => (s.opener id).isSome

def recorded (s : Docket) (id : String) : Entry → Docket
  | .request customer session _ _ =>
    { s with opener := Function.update s.opener id (some (customer, session)) }
  | .transition _ _ target _ => { s with pending := some (id, target) }
  | .transitionRefused .. => { s with refused := true }
  | _ => s

/-- When an intent may be saved: the hop just noted, no hop, or a new intent. -/
def Saves (s : Docket) (i : Intent) : Prop :=
  s.pending = some (i.id, i.state) ∨
    (s.pending = none ∧ (s.state i.id = some i.state ∨ (s.state i.id = none ∧ i.state = .created)))

def saved (s : Docket) (i : Intent) : Docket :=
  { s with state := Function.update s.state i.id (some i.state), pending := none, touched := true }

/-- What a read may find. -/
def Finds (s : Docket) (i : Intent) : Prop :=
  s.state i.id = some i.state ∧ s.opener i.id = some (i.context.customerId, i.context.sessionId)

end Docket

/-- The order of writes; `who` is the principal in whose name a trail is opened. -/
def writes (who : Option (String × String)) : Prog.Meaning Docket PlaneCall
  | _, .get id, K, s => s.touched = false ∧ ∀ r : Option Intent,
      (∀ i ∈ r, i.id = id ∧ s.Finds i) → K r s
  | _, .byConfirmation _, K, s => s.touched = false ∧ ∀ r : Option Intent,
      (∀ i ∈ r, s.Finds i) → K r s
  | _, .unsettled states, K, s => s.touched = false ∧ ∀ found : List Intent,
      (∀ i ∈ found, s.Finds i ∧ i.state ∈ states) → (found.map Intent.id).Nodup → K found s
  | _, .newId stem, K, s => ∀ id, (stem = "pix" ∨ stem = "read" → s.state id = none ∧ s.opener id = none) →
      K id s
  | _, .append id e, K, s => s.Records who id e ∧ K () (s.recorded id e)
  | _, .put i, K, s => s.refused = false ∧ s.Saves i ∧ K () (s.saved i)
  | _, .assign _, K, s => s.refused = false ∧ K () { s with touched := true }
  | _, _, K, s => ∀ r, K r s

theorem writes_mono (who : Option (String × String)) : Prog.Meaning.Mono (writes who) := by
  intro β c K K' s hK hc
  cases c with
  | get id => exact ⟨hc.1, fun r hr => hK _ _ (hc.2 r hr)⟩
  | byConfirmation token => exact ⟨hc.1, fun r hr => hK _ _ (hc.2 r hr)⟩
  | unsettled states => exact ⟨hc.1, fun rs hrs hn => hK _ _ (hc.2 rs hrs hn)⟩
  | newId stem => exact fun id hid => hK _ _ (hc id hid)
  | append id e => exact ⟨hc.1, hK _ _ hc.2⟩
  | put i => exact ⟨hc.1, hc.2.1, hK _ _ hc.2.2⟩
  | assign i => exact ⟨hc.1, hK _ _ hc.2⟩
  | _ => exact fun r => hK _ _ (hc r)

/-- No hop is left to save, and an illegal transition has been refused. -/
structure Closed (x : Except Exn α) (s : Docket) : Prop where
  pending : s.pending = none
  refused : ∀ id state event, x = .error (.illegalTransition id state event) → s.refused = true

/-- Whatever the calls answer, the program keeps to the order of writes and closes the docket. -/
abbrev Orderly (who : Option (String × String)) (p : Plane α) (s : Docket) : Prop :=
  p.wp (writes who) Closed s

/-- The operation holds an intent as it is stored, and no hop is open. -/
structure Docket.Holds (s : Docket) (c : Intent) : Prop where
  state : s.state c.id = some c.state
  opener : (s.opener c.id).isSome
  pending : s.pending = none
  allowed : s.refused = false

/-! ## Rules -/

section Rules
variable {Q : Except Exn α → Docket → Prop} {s : Docket} {c : Intent}

/-- A call that reads nothing the docket keeps. -/
def Entry.Idle : {β : Type} → PlaneCall β → Prop
  | _, .get _ | _, .byConfirmation _ | _, .unsettled _ | _, .newId _ | _, .append _ _ | _, .put _
  | _, .assign _ => False
  | _, _ => True

theorem writes_idle {pc : PlaneCall β} {k : β → Plane α} (hpc : Entry.Idle pc)
    (hk : ∀ r, (k r).wp (writes who) Q s) : (Prog.call pc k).wp (writes who) Q s := by
  cases pc <;> first | exact hk | exact hpc.elim

theorem closed_ok {a : α} (h : s.pending = none) : Closed (.ok a) s := ⟨h, fun _ _ _ hx => by cases hx⟩

theorem closed_ret {a : α} (h : s.pending = none) : Orderly who (.ret a) s := closed_ok h

/-- A new intent is saved, and held. -/
theorem writes_opened (hnew : s.state c.id = none) (ho : (s.opener c.id).isSome) (hp : s.pending = none)
    (hr : s.refused = false) (hc : c.state = .created) {k : Unit → Plane α}
    (hk : ∀ s' : Docket, s'.Holds c → (k ()).wp (writes who) Q s') :
    (Prog.call (.put c) k).wp (writes who) Q s :=
  ⟨hr, Or.inr ⟨hp, Or.inr ⟨hnew, hc⟩⟩, hk _ ⟨Function.update_self _ _ _, ho, rfl, hr⟩⟩

theorem writes_plain {id : String} {e : Entry} {k : Unit → Plane α} (he : e.plain = true)
    (ho : (s.opener id).isSome) (hk : (k ()).wp (writes who) Q s) :
    (Prog.call (.append id e) k).wp (writes who) Q s := by
  cases e <;> first | exact ⟨ho, hk⟩ | cases he

namespace Docket.Holds

theorem writes_append (h : s.Holds c) {e : Entry} {k : Unit → Plane α} (he : e.plain = true)
    (hk : (k ()).wp (writes who) Q s) : (Prog.call (.append c.id e) k).wp (writes who) Q s :=
  writes_plain he h.opener hk

theorem writes_assign (h : s.Holds c) {c' : Intent} {f : Intent → Plane α} (hid : c'.id = c.id)
    (hstate : c'.state = c.state)
    (hk : ∀ s' : Docket, s'.Holds c' → (f c').wp (writes who) Q s') :
    ((assign c').bind f).wp (writes who) Q s := by
  simp only [assign, Prog.bind_eq, Prog.pure_eq, Prog.perform_bind, Prog.call_bind, Prog.ret_bind]
  refine ⟨h.allowed, hk _ ⟨?_, ?_, h.pending, h.allowed⟩⟩
  · rw [hid, hstate]
    exact h.state
  · rw [hid]
    exact h.opener

theorem writes_put (h : s.Holds c) {k : Unit → Plane α}
    (hk : ∀ s' : Docket, s'.Holds c → (k ()).wp (writes who) Q s') :
    (Prog.call (.put c) k).wp (writes who) Q s := by
  refine ⟨h.allowed, Or.inr ⟨h.pending, Or.inl h.state⟩, hk _ ⟨?_, h.opener, rfl, h.allowed⟩⟩
  exact Function.update_self _ _ _

theorem writes_move (h : s.Holds c) {event : Hop} {target : State} {detail : Detail}
    {f : Intent → Plane α} (edge : TRANSITIONS c.state event = some target)
    (hk : ∀ s' : Docket, s'.Holds { c with state := target } →
      (f { c with state := target }).wp (writes who) Q s') :
    ((move c event detail).bind f).wp (writes who) Q s := by
  simp only [move, transition, edge, assign, Prog.bind_eq, Prog.pure_eq, Prog.perform_bind,
    Prog.call_bind, Prog.ret_bind]
  refine ⟨⟨h.pending, h.opener, h.state, edge⟩, h.allowed, h.allowed, Or.inl rfl, ?_⟩
  exact hk _ ⟨Function.update_self _ _ _, h.opener, rfl, h.allowed⟩

theorem writes_saveReason (h : s.Holds c) {reason : String} {f : Intent → Plane α}
    (hk : ∀ s' : Docket, s'.Holds { c with reason := reason } →
      (f { c with reason := reason }).wp (writes who) Q s') :
    ((saveReason c reason).bind f).wp (writes who) Q s := by
  simp only [saveReason, Prog.bind_eq, Prog.perform_bind, Prog.call_bind, Prog.bind_assoc,
    Prog.pure_eq, Prog.ret_bind]
  exact h.writes_assign rfl rfl fun s₁ h₁ => h₁.writes_put hk

end Docket.Holds

theorem orderly_statusOf (h : s.pending = none) {i : Intent} {message : String} {status : Option Status} :
    Orderly who (statusOf i message status) s := by
  simp only [statusOf, summary, Prog.bind_eq, Prog.pure_eq, Prog.perform_bind, Prog.call_bind,
    Prog.ret_bind]
  exact fun _ => closed_ret h

theorem writes_summary {i : Intent} {f : Summary → Plane α} (hf : ∀ x, (f x).wp (writes who) Q s) :
    ((summary i).bind f).wp (writes who) Q s := by
  simp only [summary, Prog.bind_eq, Prog.pure_eq, Prog.perform_bind, Prog.call_bind, Prog.ret_bind]
  exact fun _ => hf _

end Rules

/-! ## The programs an operation is made of -/

section Programs
variable {s : Docket} {c : Intent}

theorem orderly_reject (h : s.Holds c) (hstate : c.state = .validated) {detail : Detail}
    {reason message : String} :
    Orderly who ((move c .reject detail).bind fun i =>
      (saveReason i reason).bind fun i => statusOf i message (some .deny)) s := by
  have edge : TRANSITIONS c.state .reject = some .cancelled := by rw [hstate]; rfl
  exact h.writes_move edge fun s₁ h₁ => h₁.writes_saveReason fun s₂ h₂ => orderly_statusOf h₂.pending

theorem orderly_decideOn (h : s.Holds c) (hstate : c.state = .validated) :
    Orderly who (decideOn env c) s := by
  have edge : ∀ event, TRANSITIONS c.state event = TRANSITIONS .validated event :=
    fun _ => by rw [hstate]
  simp only [decideOn, Prog.bind_eq, Prog.perform_bind]
  refine writes_idle trivial fun paid => h.writes_append rfl ?_
  refine writes_idle trivial fun moment => h.writes_append rfl ?_
  generalize assessRisk c.action c.context paid = risk
  unfold applyVerdict
  split
  · exact orderly_reject h hstate
  · simp only [Prog.bind_eq, Prog.pure_eq]
    exact h.writes_move (edge .requireStepUp) fun s₁ h₁ => writes_summary fun _ => closed_ret h₁.pending
  · simp only [Prog.bind_eq, Prog.pure_eq, Prog.perform_bind]
    refine fun token _ => writes_idle trivial fun issuedAt => ?_
    refine h.writes_assign rfl rfl fun s₁ h₁ => h₁.writes_move (edge .awaitConfirmation) fun s₂ h₂ => ?_
    exact writes_summary fun _ => closed_ret h₂.pending
  all_goals exact orderly_reject h hstate

theorem orderly_executeAnswer (h : s.Holds c) (hstate : c.state = .submitted)
    (answer : Except BankExn Receipt) : Orderly who (executeAnswer c answer) s := by
  have edge : ∀ event, TRANSITIONS c.state event = TRANSITIONS .submitted event :=
    fun _ => by rw [hstate]
  cases answer with
  | ok receipt =>
    simp only [executeAnswer, Prog.bind_eq, Prog.perform_bind]
    refine h.writes_assign rfl rfl fun s₁ h₁ => h₁.writes_append rfl ?_
    exact h₁.writes_move (edge .complete) fun s₂ h₂ => orderly_statusOf h₂.pending
  | error e =>
    cases e with
    | timeout message =>
      simp only [executeAnswer, Prog.bind_eq, Prog.perform_bind]
      refine h.writes_append rfl (h.writes_move (edge .timeout) fun s₁ h₁ => ?_)
      exact orderly_statusOf h₁.pending
    | error message =>
      simp only [executeAnswer, Prog.bind_eq, Prog.perform_bind]
      refine h.writes_append rfl (h.writes_move (edge .fail) fun s₁ h₁ => ?_)
      exact h₁.writes_assign rfl rfl fun s₂ h₂ => orderly_statusOf h₂.pending

theorem orderly_execute (h : s.Holds c) (hstate : c.state = .authorized) :
    Orderly who (execute c) s := by
  have edge : TRANSITIONS c.state .submit = some .submitted := by rw [hstate]; rfl
  simp only [execute, Prog.bind_eq, Prog.perform_bind]
  refine h.writes_move edge fun s₁ h₁ => h₁.writes_append rfl (writes_idle trivial fun answer => ?_)
  exact orderly_executeAnswer h₁ rfl answer

theorem orderly_confirmAuthorized (h : s.Holds c) (hstate : c.state = .awaitingConfirmation)
    (ctx : Context) (token : String) : Orderly who (confirmAuthorized ctx token c) s := by
  have edge : TRANSITIONS c.state .confirm = some .authorized := by rw [hstate]; rfl
  simp only [confirmAuthorized, Prog.bind_eq, Prog.perform_bind]
  refine writes_idle trivial fun confirmedAt => h.writes_assign rfl rfl fun s₁ h₁ => ?_
  refine h₁.writes_put fun s₂ h₂ => h₂.writes_append rfl ?_
  refine h₂.writes_move edge fun s₃ h₃ => h₃.writes_append rfl ?_
  exact orderly_execute h₃ rfl

theorem orderly_confirmExpired (h : s.Holds c) (hstate : c.state = .awaitingConfirmation) :
    Orderly who (confirmExpired c) s := by
  have edge : TRANSITIONS c.state .cancel = some .cancelled := by rw [hstate]; rfl
  simp only [confirmExpired, Prog.bind_eq, Prog.perform_bind]
  refine h.writes_append rfl (h.writes_move edge fun s₁ h₁ => ?_)
  exact h₁.writes_saveReason fun s₂ h₂ => orderly_statusOf h₂.pending

end Programs

/-! ## The operations about one intent -/

section Held
variable {s : Docket} {c : Intent}

theorem orderly_confirmHeld (h : s.Holds c) (ctx : Context) (token : String) :
    Orderly who (confirmHeld env ctx token c) s := by
  unfold confirmHeld
  by_cases hdone : alreadyExecuted c.state = true
  · rw [if_pos hdone]
    exact h.writes_append rfl (orderly_statusOf h.pending)
  rw [if_neg hdone]
  by_cases hstate : c.state = .awaitingConfirmation
  · rw [if_neg (not_not.mpr hstate)]
    have htail : ∀ late, Orderly who (if late = true then confirmExpired c
        else if actionDigest env c.action ≠ c.actionDigest.getD "" then do
          call (.append c.id (.digestMismatch c.actionDigest (actionDigest env c.action)))
          statusOf c "a ação mudou depois da confirmação; nada foi executado" (some .deny)
        else confirmAuthorized ctx token c) s := by
      intro late
      split_ifs
      · exact orderly_confirmExpired h hstate
      · exact h.writes_append rfl (orderly_statusOf h.pending)
      · exact orderly_confirmAuthorized h hstate ctx token
    unfold expired
    cases c.confirmationIssuedAt with
    | none => exact htail false
    | some issuedAt => exact fun instant => htail _
  · rw [if_pos hstate]
    exact orderly_statusOf h.pending

theorem orderly_cancelHeld (h : s.Holds c) (ht : s.touched = false) (ctx : Context) :
    Orderly who (cancelHeld ctx c) s := by
  simp only [cancelHeld, Prog.bind_eq]
  cases edge : TRANSITIONS c.state .cancel with
  | none =>
    rw [attempt_move_none edge]
    exact ⟨⟨h.pending, h.opener, ht⟩, orderly_statusOf (s := { s with refused := true }) h.pending⟩
  | some target =>
    rw [attempt_move_some edge]
    refine h.writes_move edge fun s₁ h₁ => h₁.writes_saveReason fun s₂ h₂ => ?_
    exact orderly_statusOf h₂.pending

theorem orderly_stepUpHeld (h : s.Holds c) : Orderly who (stepUpHeld env c) s := by
  unfold stepUpHeld
  by_cases hstate : c.state = .awaitingStepUp
  · have edge : TRANSITIONS c.state .stepUp = some .validated := by rw [hstate]; rfl
    rw [if_neg (not_not.mpr hstate)]
    simp only [Prog.bind_eq, Prog.perform_bind]
    refine h.writes_assign rfl rfl fun s₁ h₁ => h₁.writes_put fun s₂ h₂ => ?_
    refine writes_idle trivial fun instant => h₂.writes_append rfl ?_
    exact h₂.writes_move edge fun s₃ h₃ => orderly_decideOn h₃ rfl
  · rw [if_pos hstate]
    exact orderly_statusOf h.pending

theorem orderly_reconcileHeld (h : s.Holds c) : Orderly who (reconcileHeld c) s := by
  unfold reconcileHeld
  by_cases hstate : c.state = .unknown
  · have edge : ∀ event, TRANSITIONS c.state event = TRANSITIONS .unknown event :=
      fun _ => by rw [hstate]
    rw [if_neg (not_not.mpr hstate)]
    simp only [Prog.bind_eq, Prog.perform_bind]
    refine writes_idle trivial fun receipt => h.writes_append rfl ?_
    cases receipt with
    | none =>
      refine h.writes_move (edge .fail) fun s₁ h₁ => h₁.writes_saveReason fun s₂ h₂ => ?_
      exact orderly_statusOf h₂.pending
    | some receipt =>
      refine h.writes_assign rfl rfl fun s₁ h₁ => h₁.writes_move (edge .complete) fun s₂ h₂ => ?_
      exact orderly_statusOf h₂.pending
  · rw [if_pos hstate]
    exact orderly_statusOf h.pending

end Held

/-! ## The other operations -/

section Ops
variable {s : Docket}

theorem orderly_sweepEach {found : List Intent} (hn : (found.map Intent.id).Nodup)
    (hheld : ∀ i ∈ found, i.state = .submitted ∧ s.state i.id = some i.state ∧ (s.opener i.id).isSome)
    (hp : s.pending = none) (hr : s.refused = false) : Orderly who (sweepEach found) s := by
  induction found generalizing s with
  | nil => exact closed_ret hp
  | cons i rest ih =>
    obtain ⟨hstate, hi, ho⟩ := hheld i (by simp)
    have h : s.Holds i := ⟨hi, ho, hp, hr⟩
    have edge : TRANSITIONS i.state .timeout = some .unknown := by rw [hstate]; rfl
    rw [List.map_cons, List.nodup_cons] at hn
    simp only [sweepEach, move, transition, edge, saveReason, assign, Prog.bind_eq, Prog.pure_eq,
      Prog.perform_bind, Prog.call_bind, Prog.ret_bind]
    refine h.writes_append rfl ⟨⟨hp, ho, hi, edge⟩, hr, hr, Or.inl rfl, hr, hr, ?_, ?_⟩
    · exact Or.inr ⟨rfl, Or.inl (Function.update_self _ _ _)⟩
    · refine ih hn.2 (fun j hj => ?_) rfl hr
      obtain ⟨hjstate, hj', hjo⟩ := hheld j (List.mem_cons_of_mem _ hj)
      have hne : j.id ≠ i.id := fun heq => hn.1 (heq ▸ List.mem_map_of_mem hj)
      refine ⟨hjstate, ?_, hjo⟩
      simpa [Docket.saved, Docket.recorded, Function.update_of_ne hne] using hj'

theorem orderly_replying {p : Plane α} {f : α → Reply} (hp : Orderly who p s) :
    Orderly who (replying f p) s := by
  simp only [replying, Prog.bind_eq, Prog.pure_eq, Orderly, Prog.wp_bind]
  refine Prog.wp_mono (writes_mono who) p (fun x t ht => ?_) hp
  cases x with
  | ok a => exact closed_ok ht.pending
  | error e =>
    refine ⟨ht.pending, fun id state event hx => ht.refused id state event ?_⟩
    rw [Except.error.inj hx]

theorem orderly_proposeTo {ctx : Context} {proposed : ProposedPix} {id : String} {recipient : Contact}
    (hnew : s.state id = none) (ho : (s.opener id).isSome) (hp : s.pending = none)
    (hr : s.refused = false) : Orderly who (proposeTo env ctx proposed id recipient) s := by
  simp only [proposeTo, Prog.bind_eq, Prog.pure_eq, Prog.perform_bind]
  refine writes_idle trivial fun createdAt => writes_opened hnew ho hp hr rfl fun s₁ h => ?_
  refine h.writes_append rfl ?_
  simp only [missingPreconditions, Prog.bind_eq, Prog.pure_eq, Prog.perform_bind, Prog.call_bind,
    Prog.ret_bind]
  refine writes_idle trivial fun balance => writes_idle trivial fun contact => ?_
  generalize (_ ++ _ : List String) = missing
  by_cases hmissing : missing ≠ []
  · rw [if_pos hmissing]
    refine h.writes_move rfl fun s₂ h₂ => h₂.writes_assign rfl rfl fun s₃ h₃ => ?_
    exact closed_ret h₃.pending
  · rw [if_neg hmissing]
    exact h.writes_move rfl fun s₂ h₂ => orderly_decideOn h₂ rfl

theorem orderly_propose (ctx : Context) (proposed : ProposedPix) (text : String)
    (hp : s.pending = none) (hr : s.refused = false) :
    Orderly (some (ctx.customerId, ctx.sessionId)) (propose env ctx proposed text) s := by
  simp only [propose, Prog.bind_eq, Prog.pure_eq, Prog.perform_bind]
  intro id hid
  obtain ⟨hnew, hunopened⟩ := hid (Or.inl rfl)
  refine ⟨⟨rfl, hunopened⟩, ?_⟩
  have ho : ((s.recorded id (.request ctx.customerId ctx.sessionId ctx.channel
      (.text text))).opener id).isSome := by
    simp [Docket.recorded]
  refine writes_plain rfl ho (writes_idle trivial fun found => writes_plain rfl ho ?_)
  rcases found with _ | ⟨recipient, _ | ⟨_, _⟩⟩
  · exact closed_ret hp
  · exact orderly_proposeTo hnew ho hp hr
  · exact closed_ret hp

theorem orderly_query (ctx : Context) (action : ReadAction) (hp : s.pending = none) :
    Orderly (some (ctx.customerId, ctx.sessionId)) (query ctx action) s := by
  simp only [query, Prog.bind_eq, Prog.pure_eq, Prog.perform_bind]
  intro id hid
  refine ⟨⟨rfl, (hid (Or.inr rfl)).2⟩, ?_⟩
  have ho : ((s.recorded id (.request ctx.customerId ctx.sessionId ctx.channel
      (.read action))).opener id).isSome := by
    simp [Docket.recorded]
  split_ifs
  · exact writes_plain rfl ho (closed_ret hp)
  · cases action with
    | getBalance accountId =>
      simp only [readAnswer, Prog.bind_eq, Prog.pure_eq, Prog.perform_bind, Prog.call_bind]
      intro balance
      cases balance with
      | error message => exact ⟨hp, fun _ _ _ hx => by cases hx⟩
      | ok amount => exact writes_plain rfl ho (closed_ret hp)
    | getCardTransactions days =>
      simp only [readAnswer, Prog.bind_eq, Prog.pure_eq, Prog.perform_bind, Prog.call_bind,
        Prog.ret_bind]
      exact fun rows => writes_plain rfl ho (closed_ret hp)

/-- Nothing has been written since the operation began. -/
structure Docket.Fresh (s : Docket) : Prop where
  pending : s.pending = none
  refused : s.refused = false
  touched : s.touched = false

theorem Docket.Fresh.holds (h : s.Fresh) {c : Intent} (hc : s.Finds c) : s.Holds c :=
  ⟨hc.1, by rw [hc.2]; rfl, h.pending, h.refused⟩

theorem orderly_seeking {op : Op} {sk : Seeking} (hsk : op.seeking env = some sk) (h : s.Fresh)
    (hheld : ∀ c, s.Holds c → Orderly who (sk.held c) s) : Orderly who (op.prog env) s := by
  rw [Op.prog_seeking hsk]
  refine orderly_replying ?_
  have hanswer : ∀ r : Option Intent, (∀ i ∈ r, s.Finds i) →
      Orderly who (sk.answer (r.filter sk.mine)) s := by
    intro r hr
    cases hf : r.filter sk.mine with
    | none => exact closed_ret h.pending
    | some c => exact hheld c (h.holds (hr c (Option.filter_eq_some_iff.mp hf).1))
  obtain ⟨ref, mine, held⟩ := sk
  cases ref with
  | intent id => exact ⟨h.touched, fun r hr => hanswer r fun i hi => (hr i hi).2⟩
  | token token => exact ⟨h.touched, hanswer⟩

/-- The principal in whose name an operation opens a trail. -/
def Op.opener : Op → Option (String × String)
  | .propose ctx _ _ => some (ctx.customerId, ctx.sessionId)
  | .query ctx _ => some (ctx.customerId, ctx.sessionId)
  | _ => none

/-- **Every operation keeps to the order of writes.** -/
theorem writes_op (op : Op) (h : s.Fresh) : Orderly op.opener (op.prog env) s := by
  cases op with
  | query ctx action => exact orderly_replying (orderly_query ctx action h.pending)
  | propose ctx proposed text =>
    exact orderly_replying (orderly_propose ctx proposed text h.pending h.refused)
  | stepUp ctx id => exact orderly_seeking rfl h fun c hc => orderly_stepUpHeld hc
  | confirm ctx token => exact orderly_seeking rfl h fun c hc => orderly_confirmHeld hc ctx token
  | cancel ctx token => exact orderly_seeking rfl h fun c hc => orderly_cancelHeld hc h.touched ctx
  | reconcile ctx id => exact orderly_seeking rfl h fun c hc => orderly_reconcileHeld hc
  | status ctx id => exact orderly_seeking rfl h fun c _ => orderly_statusOf h.pending
  | sweep =>
    refine orderly_replying ?_
    simp only [sweep, Prog.bind_eq, Prog.pure_eq, Prog.perform_bind]
    refine ⟨h.touched, fun found hfound hn => ?_⟩
    simp only [Prog.wp_bind]
    refine Prog.wp_mono (writes_mono _) _ (fun x t ht => ?_)
      (orderly_sweepEach hn (fun i hi => ?_) h.pending h.refused)
    · cases x with
      | ok _ => exact closed_ok ht.pending
      | error e => exact ⟨ht.pending, fun id state event hx => ht.refused id state event (by
          rw [Except.error.inj hx])⟩
    · obtain ⟨hf, hstate⟩ := hfound i hi
      exact ⟨List.mem_singleton.mp hstate, hf.1, by rw [hf.2]; rfl⟩
  | explain ctx id =>
    refine orderly_replying ?_
    simp only [explain, Prog.bind_eq, Prog.pure_eq, Prog.perform_bind]
    exact fun events => closed_ret h.pending

end Ops

end BankingControlPlane
