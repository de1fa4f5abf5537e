import BankingControlPlane.Plane.Writes
import BankingControlPlane.Plane.Trails

/-!
# An operation keeps to the intent it holds

* `Of`, `Local` : once it holds an intent, an operation reads no other and writes to no other
  (`calls_held`);
* `Spares` : a call that saves no intent of a given kind (`exec_spares`, `propose_spares`).
-/

namespace BankingControlPlane
open Effects

variable {env : Env} {kind : StoreKind} {w : World}

/-- A version of the intent held. -/
def Of (c i : Intent) : Prop := i.id = c.id ∧ i.context.customerId = c.context.customerId

/-- An entry that opens no trail; it notes that the digests differ only if they may. -/
def Entry.Allowed (differ : Prop) : Entry → Prop
  | .request .. => False
  | .digestMismatch .. => differ
  | _ => True

theorem Entry.Allowed.principal {differ : Prop} {e : Entry} (h : e.Allowed differ) :
    e.principal = none := by
  cases e <;> first | rfl | exact h.elim

/-- A call that reads no intent, writes versions of this one, and adds to its trail what is allowed. -/
def Local (differ : Prop) (c : Intent) : {β : Type} → PlaneCall β → Prop
  | _, .get _ | _, .byConfirmation _ | _, .unsettled _ | _, .eventsFor _ => False
  | _, .put i => Of c i
  | _, .assign i => Of c i
  | _, .append id e => id = c.id ∧ e.Allowed differ
  | _, _ => True

section Local
variable {differ : Prop} {c i : Intent} {α β : Type}

theorem calls_append (hi : Of c i) {e : Entry} {k : Unit → Plane α} (he : e.Allowed differ)
    (hk : (k ()).calls (Local differ c)) : (Prog.call (.append i.id e) k).calls (Local differ c) :=
  ⟨⟨hi.1, he⟩, fun _ => hk⟩

theorem calls_assign {f : Intent → Plane α} (hi : Of c i) (hf : (f i).calls (Local differ c)) :
    ((assign i).bind f).calls (Local differ c) := by
  simp only [assign, Prog.bind_eq, Prog.pure_eq, Prog.perform_bind, Prog.call_bind, Prog.ret_bind]
  exact ⟨hi, fun _ => hf⟩

theorem calls_transition {event : Hop} {detail : Detail} {f : Intent → Plane α} (hi : Of c i)
    (hf : ∀ j, Of c j → (f j).calls (Local differ c)) :
    ((transition i event detail).bind f).calls (Local differ c) := by
  simp only [transition]
  cases TRANSITIONS i.state event with
  | none =>
    simp only [Prog.bind_eq, Prog.perform_bind, Prog.call_bind, Prog.raise_bind]
    exact ⟨⟨hi.1, trivial⟩, fun _ => trivial⟩
  | some target =>
    simp only [Prog.bind_eq, Prog.perform_bind, Prog.call_bind]
    refine ⟨⟨hi.1, trivial⟩, fun _ => ?_⟩
    exact calls_assign (i := { i with state := target }) hi (hf _ hi)

theorem calls_move {event : Hop} {detail : Detail} {f : Intent → Plane α} (hi : Of c i)
    (hf : ∀ j, Of c j → (f j).calls (Local differ c)) : ((move i event detail).bind f).calls (Local differ c) := by
  simp only [move, Prog.bind_eq, Prog.bind_assoc, Prog.perform_bind, Prog.call_bind, Prog.pure_eq,
    Prog.ret_bind]
  exact calls_transition hi fun j hj => ⟨hj, fun _ => hf j hj⟩

theorem calls_saveReason {reason : String} {f : Intent → Plane α} (hi : Of c i)
    (hf : ∀ j, Of c j → (f j).calls (Local differ c)) : ((saveReason i reason).bind f).calls (Local differ c) := by
  simp only [saveReason, Prog.bind_eq, Prog.bind_assoc, Prog.perform_bind, Prog.call_bind, Prog.pure_eq,
    Prog.ret_bind]
  exact calls_assign (i := { i with reason := reason }) hi ⟨hi, fun _ => hf _ hi⟩

theorem calls_summary {f : Summary → Plane α} (hf : ∀ x, (f x).calls (Local differ c)) :
    ((summary i).bind f).calls (Local differ c) := by
  simp only [summary, Prog.bind_eq, Prog.pure_eq, Prog.perform_bind, Prog.call_bind, Prog.ret_bind]
  exact ⟨trivial, fun _ => hf _⟩

theorem calls_statusOf {message : String} {status : Option Status} :
    (statusOf i message status).calls (Local differ c) := by
  simp only [statusOf, Prog.bind_eq, Prog.pure_eq]
  exact calls_summary fun _ => trivial

theorem calls_reject {detail : Detail} {reason message : String} (hi : Of c i) :
    ((move i .reject detail).bind fun i =>
      (saveReason i reason).bind fun i => statusOf i message (some .deny)).calls (Local differ c) :=
  calls_move hi fun _ hj => calls_saveReason hj fun _ _ => calls_statusOf

theorem calls_decideOn (hi : Of c i) : (decideOn env i).calls (Local differ c) := by
  simp only [decideOn, Prog.bind_eq, Prog.perform_bind]
  refine ⟨trivial, fun paid => calls_append hi trivial ⟨trivial, fun moment => calls_append hi trivial ?_⟩⟩
  generalize assessRisk i.action i.context paid = risk
  unfold applyVerdict
  split
  · exact calls_reject hi
  · simp only [Prog.bind_eq, Prog.pure_eq]
    exact calls_move hi fun j hj => calls_summary fun _ => trivial
  · simp only [Prog.bind_eq, Prog.pure_eq, Prog.perform_bind]
    refine ⟨trivial, fun token => ⟨trivial, fun issuedAt => calls_assign hi ?_⟩⟩
    exact calls_move hi fun j hj => calls_summary fun _ => trivial
  all_goals exact calls_reject hi

theorem calls_execute (hi : Of c i) : (execute i).calls (Local differ c) := by
  simp only [execute, Prog.bind_eq, Prog.perform_bind]
  refine calls_move hi fun j hj => calls_append hj trivial ⟨trivial, fun answer => ?_⟩
  cases answer with
  | ok receipt =>
    simp only [executeAnswer, Prog.bind_eq, Prog.perform_bind]
    refine calls_assign hj (calls_append (i := { j with receipt := some receipt }) hj trivial ?_)
    exact calls_move hj fun _ _ => calls_statusOf
  | error e =>
    cases e with
    | timeout message =>
      simp only [executeAnswer, Prog.bind_eq, Prog.perform_bind]
      exact calls_append hj trivial (calls_move hj fun _ _ => calls_statusOf)
    | error message =>
      simp only [executeAnswer, Prog.bind_eq, Prog.perform_bind]
      exact calls_append hj trivial (calls_move hj fun _ hk => calls_assign hk calls_statusOf)

/-- The calls of a `confirm`, once it holds the intent: those of what follows each of its tests. -/
theorem confirmHeld_calls {A : {β : Type} → PlaneCall β → Prop} {ctx : Context} {token : String}
    (hstatus : ∀ message status, (statusOf c message status).calls A) (hclock : A (.clock .expiry))
    (hduplicate : A (.append c.id (.duplicateConfirmation c.state)))
    (hmismatch : actionDigest env c.action ≠ c.actionDigest.getD "" →
      A (.append c.id (.digestMismatch c.actionDigest (actionDigest env c.action))))
    (hexpired : (confirmExpired c).calls A) (hauthorized : (confirmAuthorized ctx token c).calls A) :
    (confirmHeld env ctx token c).calls A := by
  have htail : ∀ late, (if late = true then confirmExpired c
      else if actionDigest env c.action ≠ c.actionDigest.getD "" then do
        call (.append c.id (.digestMismatch c.actionDigest (actionDigest env c.action)))
        statusOf c "a ação mudou depois da confirmação; nada foi executado" (some .deny)
      else confirmAuthorized ctx token c).calls A := by
    intro late
    split_ifs with hlate hdigest
    · exact hexpired
    · exact ⟨hmismatch hdigest, fun _ => hstatus _ _⟩
    · exact hauthorized
  unfold confirmHeld
  by_cases hdone : alreadyExecuted c.state = true
  · rw [if_pos hdone]
    exact ⟨hduplicate, fun _ => hstatus _ _⟩
  rw [if_neg hdone]
  by_cases hstate : c.state = .awaitingConfirmation
  · rw [if_neg (not_not.mpr hstate)]
    unfold expired
    cases c.confirmationIssuedAt with
    | none => exact htail false
    | some issuedAt => exact ⟨hclock, fun instant => htail _⟩
  · rw [if_pos hstate]
    exact hstatus _ _

theorem calls_confirmHeld (ctx : Context) (token : String) (c : Intent)
    (hdiffer : actionDigest env c.action ≠ c.actionDigest.getD "" → differ) :
    (confirmHeld env ctx token c).calls (Local differ c) := by
  have hc : Of c c := ⟨rfl, rfl⟩
  have hauthorized : (confirmAuthorized ctx token c).calls (Local differ c) := by
    simp only [confirmAuthorized, Prog.bind_eq, Prog.perform_bind]
    refine ⟨trivial, fun confirmedAt => calls_assign hc ⟨hc, fun _ => ?_⟩⟩
    refine ⟨⟨rfl, trivial⟩, fun _ => calls_move hc fun j hj => ?_⟩
    exact calls_append hj trivial (calls_execute hj)
  have hexpired : (confirmExpired c).calls (Local differ c) := by
    simp only [confirmExpired, Prog.bind_eq, Prog.perform_bind]
    exact calls_append hc trivial (calls_move hc fun j hj => calls_saveReason hj fun _ _ => calls_statusOf)
  exact confirmHeld_calls (fun _ _ => calls_statusOf) trivial ⟨rfl, trivial⟩ (fun hdigest => ⟨rfl, hdiffer hdigest⟩)
    hexpired hauthorized

theorem calls_cancelHeld (ctx : Context) (c : Intent) : (cancelHeld ctx c).calls (Local differ c) := by
  have hc : Of c c := ⟨rfl, rfl⟩
  simp only [cancelHeld, Prog.bind_eq]
  cases edge : TRANSITIONS c.state .cancel with
  | none =>
    rw [attempt_move_none edge]
    exact calls_append hc trivial calls_statusOf
  | some target =>
    rw [attempt_move_some edge]
    exact calls_move hc fun j hj => calls_saveReason hj fun _ _ => calls_statusOf

theorem calls_stepUpHeld (c : Intent) : (stepUpHeld env c).calls (Local differ c) := by
  have hc : Of c c := ⟨rfl, rfl⟩
  unfold stepUpHeld
  split_ifs
  · exact calls_statusOf
  · simp only [Prog.bind_eq, Prog.perform_bind]
    refine calls_assign hc ⟨hc, fun _ => ⟨trivial, fun instant => ?_⟩⟩
    exact calls_append hc trivial (calls_move hc fun j hj => calls_decideOn hj)

theorem calls_reconcileHeld (c : Intent) : (reconcileHeld c).calls (Local differ c) := by
  have hc : Of c c := ⟨rfl, rfl⟩
  unfold reconcileHeld
  split_ifs
  · exact calls_statusOf
  · simp only [Prog.bind_eq, Prog.perform_bind]
    refine ⟨trivial, fun receipt => calls_append hc trivial ?_⟩
    cases receipt with
    | none => exact calls_move hc fun j hj => calls_saveReason hj fun _ _ => calls_statusOf
    | some receipt => exact calls_assign hc (calls_move hc fun _ _ => calls_statusOf)

/-- Whatever an operation does with the intent it holds, it keeps to it. -/
theorem calls_held {op : Op} {sk : Seeking} (h : op.seeking env = some sk) (c : Intent) :
    (sk.held c).calls (Local True c) := by
  cases op <;> simp only [Op.seeking, Option.some.injEq, reduceCtorEq] at h <;> subst h
  · exact calls_stepUpHeld c
  · exact calls_confirmHeld _ _ c fun _ => trivial
  · exact calls_cancelHeld _ c
  · exact calls_reconcileHeld c
  · exact calls_statusOf

end Local

/-! ## Intents an operation spares -/

/-- A call that saves no intent with such an id. -/
def Spares (E : String → Prop) : {β : Type} → PlaneCall β → Prop
  | _, .put i => ¬ E i.id
  | _, _ => True

section Spares
variable {E : String → Prop} {α : Type}

theorem calls_replying {A : {β : Type} → PlaneCall β → Prop} {p : Plane α} {f : α → Reply}
    (hp : p.calls A) : (replying f p).calls A :=
  Prog.calls_bind hp fun _ => trivial

/-- A program that saves one intent spares the others. -/
theorem spares_of_ends {id : String} {Q : Except Exn α → Option Intent → Prop} {p : Plane α}
    {s : Option Intent} (hE : ¬ E id) (hp : p.wp (tracks id) Q s) : p.calls (Spares E) := by
  induction p generalizing s with
  | ret a => trivial
  | raise e => trivial
  | call c k ih =>
    refine ⟨?_, fun r => ih r (hp.2 r)⟩
    cases c with
    | put i =>
      have hid : i.id = id := hp.1
      exact fun h => hE (hid ▸ h)
    | _ => trivial

theorem spares_of_local {differ : Prop} {c : Intent} (hE : ¬ E c.id) {β : Type} {pc : PlaneCall β}
    (hpc : Local differ c pc) :
    Spares E pc := by
  cases pc with
  | put i => exact fun h => hE (hpc.1 ▸ h)
  | _ => trivial

/-- Whatever is done with the intent held, the others are spared. -/
theorem held_spares {op : Op} {sk : Seeking} (h : op.seeking env = some sk) {c : Intent} (hE : ¬ E c.id) :
    (sk.held c).calls (Spares E) :=
  Prog.calls_mono (fun _ => spares_of_local hE) (calls_held h c)

/-- An operation about one intent makes no other calls than its look-up and those of what it does with the
intent it holds. -/
theorem exec_calls {op : Op} {sk : Seeking} (h : op.seeking env = some sk)
    {A : {β : Type} → PlaneCall β → Prop} (href : A sk.ref.call)
    (hA : ∀ c, w.named kind sk.ref = some c → sk.mine c = true → (sk.held c).calls A) :
    (op.prog env).wp ((handler env kind).under fun c _ => A c) (fun _ _ => True)
      (w.note (.began op)) := by
  have hserve : (handler env kind).on sk.ref.call (w.note (.began op)) =
      (w.named kind sk.ref, w.note (.began op)) := by
    rw [← World.named_note w (.began op)]
    exact serve_ref env kind sk.ref _
  have htail : (replying .outcome (sk.answer ((w.named kind sk.ref).filter sk.mine))).calls A := by
    refine calls_replying ?_
    cases hc : (w.named kind sk.ref).filter sk.mine with
    | none => trivial
    | some c =>
      obtain ⟨hnamed, hm⟩ := Option.filter_eq_some_iff.mp hc
      exact hA c hnamed hm
  rw [Op.prog_seeking h]
  refine ⟨href, ?_⟩
  rw [hserve]
  exact Prog.wp_of_calls htail _

/-- An operation about one intent spares what it spares once it holds it. -/
theorem exec_spares {op : Op} {sk : Seeking} (h : op.seeking env = some sk)
    (hE : ∀ c, w.named kind sk.ref = some c → sk.mine c = true → (sk.held c).calls (Spares E)) :
    (op.prog env).wp ((handler env kind).under fun c _ => Spares E c) (fun _ _ => True)
      (w.note (.began op)) := by
  refine exec_calls h ?_ hE
  cases sk.ref <;> trivial

/-- A proposal spares what was there before. -/
theorem propose_spares (hE : ¬ E (newIdAt env "pix" w.drawn)) (ctx : Context) (proposed : ProposedPix)
    (text : String) :
    ((Op.propose ctx proposed text).prog env).wp ((handler env kind).under fun c _ => Spares E c)
      (fun _ _ => True) (w.note (.began (.propose ctx proposed text))) := by
  simp only [Op.prog, replying, propose, Prog.bind_eq, Prog.pure_eq, Prog.perform_bind, Prog.call_bind]
  refine ⟨trivial, Prog.wp_of_calls ?_ _⟩
  refine spares_of_ends (Q := fun _ _ => True) (s := none) hE ?_
  refine ends_call trivial fun _ => ends_call trivial fun _ => ends_call trivial fun found => ?_
  refine ends_call trivial fun _ => ?_
  rcases found with _ | ⟨recipient, _ | ⟨_, _⟩⟩
  · trivial
  · exact ends_replying (ends_proposeTo fun _ _ => trivial)
  · trivial

end Spares

end BankingControlPlane
