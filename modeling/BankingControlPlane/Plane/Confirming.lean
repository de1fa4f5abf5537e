import BankingControlPlane.Plane.Lookups

/-!
# When a confirm asks the bank to pay

* `Ready` : the intent a token finds, its owner, state, age and digest, as the confirm finds them;
* `Asking` : what a call to the bank has in common with the world the confirm began in;
* `confirm_asks` : every call a confirm makes to the bank is of this kind;
* `mem_confirmed` : which orders a confirm passes to the bank, told from the world it begins in;
* `Reach.asked` : what holds of every call to the bank along a run.
-/

namespace BankingControlPlane
open Effects

variable {env : Env} {kind : StoreKind} {w : World}

/-- The token has outlived its TTL at this instant. No issue time means no expiry. -/
def Intent.expiredAt (i : Intent) (instant : Instant) : Bool :=
  match i.confirmationIssuedAt with
  | none => false
  | some issuedAt => confirmationTtl < instant - issuedAt

/-- A confirm of `r` by `ctx`, begun in `w`, goes on to the bank. -/
structure Ready (env : Env) (w : World) (ctx : Context) (r : Intent) : Prop where
  principal : samePrincipal r ctx
  state : r.state = .awaitingConfirmation
  young : r.expiredAt (env.clock w.ticks) = false
  digest : actionDigest env r.action = r.actionDigest.getD ""

instance (env : Env) (w : World) (ctx : Context) (r : Intent) : Decidable (Ready env w ctx r) :=
  decidable_of_iff (samePrincipal r ctx ∧ r.state = .awaitingConfirmation ∧
      r.expiredAt (env.clock w.ticks) = false ∧ actionDigest env r.action = r.actionDigest.getD "")
    ⟨fun h => ⟨h.1, h.2.1, h.2.2.1, h.2.2.2⟩, fun h => ⟨h.principal, h.state, h.young, h.digest⟩⟩

/-- The clock readings of a confirm of `r` that goes through. -/
def confirmReadings (env : Env) (w : World) (r : Intent) : List Obs :=
  match r.confirmationIssuedAt with
  | none => [.read .confirmed (env.clock w.ticks)]
  | some _ => [.read .expiry (env.clock w.ticks), .read .confirmed (env.clock (w.ticks + 1))]

theorem read_of_confirmReadings {r : Intent} {x : Obs} (hx : x ∈ confirmReadings env w r) :
    ∃ use n, w.ticks ≤ n ∧ x = .read use (env.clock n) := by
  unfold confirmReadings at hx
  cases hissued : r.confirmationIssuedAt with
  | none =>
    simp only [hissued, List.mem_singleton] at hx
    exact ⟨_, _, Nat.le_refl _, hx⟩
  | some issuedAt =>
    simp only [hissued, List.mem_cons, List.not_mem_nil, or_false] at hx
    rcases hx with hx | hx
    · exact ⟨_, _, Nat.le_refl _, hx⟩
    · exact ⟨_, _, Nat.le_succ _, hx⟩

/-- A note of something written. -/
def Obs.IsWrite : Obs → Prop
  | .appended _ | .stored _ => True
  | _ => False

/-- Since the history was `h`, only writes. -/
def Written (h : List Obs) (w : World) : Prop := ∃ rest, (∀ x ∈ rest, x.IsWrite) ∧ w.history = h ++ rest

theorem Written.snoc {h : List Obs} (hw : Written h w) {w' : World} {o : Obs} (ho : o.IsWrite)
    (hh : w'.history = w.history ++ [o]) : Written h w' := by
  obtain ⟨rest, hrest, heq⟩ := hw
  refine ⟨rest ++ [o], fun x hx => ?_, by rw [hh, heq, List.append_assoc]⟩
  rcases List.mem_append.mp hx with hx | hx
  · exact hrest x hx
  · rw [List.mem_singleton.mp hx]
    exact ho

theorem Written.append {h : List Obs} (hw : Written h w) (id : String) (e : Entry) :
    Written h (w.append id e) := hw.snoc (o := .appended ⟨id, e⟩) trivial rfl

theorem Written.put {h : List Obs} (hw : Written h w) (i : Intent) : Written h (w.put i) :=
  hw.snoc (o := .stored (w.saved i)) trivial rfl

/-- A confirm begun in `w` asks the bank to pay `o` for the intent `r`, after the history `h`. -/
structure Asking (env : Env) (kind : StoreKind) (w : World) (ctx : Context) (token : String)
    (o : Order) (h : List Obs) (r : Intent) : Prop where
  found : w.holder kind token = some r
  ready : Ready env w ctx r
  order : o = r.order
  history : ∃ rest, (∀ x ∈ rest, x.IsWrite) ∧
    h = w.history ++ .began (.confirm ctx token) :: (confirmReadings env w r ++ rest)

theorem Asking.during {ctx : Context} {token : String} {o : Order} {h : List Obs} {r : Intent}
    (ha : Asking env kind w ctx token o h r) : ∃ rest, (∀ x ∈ rest, x.IsWrite) ∧
      During h (.confirm ctx token) (confirmReadings env w r ++ rest) := by
  obtain ⟨rest, hrest, heq⟩ := ha.history
  refine ⟨rest, hrest, trivial, fun x hx hbegan => ?_, w.history, heq⟩
  rcases List.mem_append.mp hx with hx | hx
  · obtain ⟨use, n, -, rfl⟩ := read_of_confirmReadings hx
    exact hbegan
  · have hwrite := hrest x hx
    cases x <;> first | exact hwrite | exact hbegan

def Asks (env : Env) (kind : StoreKind) (w : World) (ctx : Context) (token : String) :
    {β : Type} → PlaneCall β → World → Prop
  | _, .createPix o, w' => ∃ r, Asking env kind w ctx token o w'.history r
  | _, _, _ => True

/-- Walking a confirm begun in `w`. -/
abbrev asking (env : Env) (kind : StoreKind) (w : World) (ctx : Context) (token : String) :
    Prog.Meaning World PlaneCall :=
  (handler env kind).under (Asks env kind w ctx token)

section Rules
variable {α : Type} {ctx : Context} {token : String} {w' : World} {c : Intent}

/-- A program that finds its intent by token, under any rule for its calls. -/
theorem wp_byConfirmation {A : {β : Type} → PlaneCall β → World → Prop}
    {Q : Except Exn α → World → Prop} {f : Option Intent → Plane α} :
    ((byConfirmation ctx token).bind f).wp ((handler env kind).under A) Q w ↔
      A (.byConfirmation token) w ∧
        (f ((w.holder kind token).filter fun i => samePrincipal i ctx)).wp
          ((handler env kind).under A) Q w := Iff.rfl

theorem asks_statusOf {message : String} {status : Option Status} :
    (statusOf c message status).wp (asking env kind w ctx token) (fun _ _ => True) w' := by
  simp only [statusOf, summary, Prog.bind_eq, Prog.pure_eq, Prog.perform_bind, Prog.call_bind,
    Prog.ret_bind]
  exact ⟨trivial, trivial⟩

theorem asks_move {event : Hop} {detail : Detail} {f : Intent → Plane α} {h : List Obs}
    (hw : Written h w') (hf : ∀ target w'', Written h w'' →
      (f { c with state := target }).wp (asking env kind w ctx token) (fun _ _ => True) w'') :
    ((move c event detail).bind f).wp (asking env kind w ctx token) (fun _ _ => True) w' := by
  simp only [move, transition]
  cases edge : TRANSITIONS c.state event with
  | none => exact ⟨trivial, trivial⟩
  | some target => exact ⟨trivial, trivial, trivial, hf target _ ((hw.append _ _).put _)⟩

theorem written_refl : Written w'.history w' := ⟨[], by simp, by simp⟩

theorem asks_confirmExpired :
    (confirmExpired c).wp (asking env kind w ctx token) (fun _ _ => True) w' := by
  simp only [confirmExpired, Prog.bind_eq, Prog.perform_bind]
  refine ⟨trivial, asks_move written_refl fun target _ _ => ?_⟩
  simp only [saveReason, assign, Prog.bind_eq, Prog.pure_eq, Prog.perform_bind, Prog.call_bind,
    Prog.ret_bind]
  exact ⟨trivial, trivial, asks_statusOf⟩

theorem asks_executeAnswer (answer : Except BankExn Receipt) :
    (executeAnswer c answer).wp (asking env kind w ctx token) (fun _ _ => True) w' := by
  cases answer with
  | ok receipt =>
    simp only [executeAnswer, assign, Prog.bind_eq, Prog.pure_eq, Prog.perform_bind, Prog.call_bind,
      Prog.ret_bind]
    exact ⟨trivial, trivial, asks_move written_refl fun _ _ _ => asks_statusOf⟩
  | error e =>
    cases e with
    | timeout message =>
      simp only [executeAnswer, Prog.bind_eq, Prog.perform_bind]
      exact ⟨trivial, asks_move written_refl fun _ _ _ => asks_statusOf⟩
    | error message =>
      simp only [executeAnswer, Prog.bind_eq, Prog.perform_bind]
      refine ⟨trivial, asks_move written_refl fun _ _ _ => ?_⟩
      simp only [assign, Prog.bind_eq, Prog.pure_eq, Prog.perform_bind, Prog.call_bind,
        Prog.ret_bind]
      exact ⟨trivial, asks_statusOf⟩

/-- The history at the call to the bank: since the confirm began, its readings, then writes. -/
theorem asks_confirmAuthorized {reads : List Obs} (hfound : w.holder kind token = some c)
    (hready : Ready env w ctx c)
    (hreads : reads ++ [.read .confirmed (env.clock w'.ticks)] = confirmReadings env w c)
    (hhist : w'.history = w.history ++ .began (.confirm ctx token) :: reads) :
    (confirmAuthorized ctx token c).wp (asking env kind w ctx token) (fun _ _ => True) w' := by
  simp only [confirmAuthorized, assign, execute, Prog.bind_eq, Prog.pure_eq, Prog.perform_bind,
    Prog.call_bind, Prog.ret_bind]
  have hbegin : Written (w.history ++ .began (.confirm ctx token) :: confirmReadings env w c)
      (serve env kind (.clock .confirmed) w').2 :=
    ⟨[], by simp, by simp [serve, World.note, hhist, ← hreads]⟩
  refine ⟨trivial, trivial, trivial, trivial, ?_⟩
  refine asks_move ((hbegin.put _).append _ _) fun _ w₁ h₁ => ⟨trivial, ?_⟩
  refine asks_move (h₁.append _ _) fun _ w₂ h₂ => ⟨trivial, ?_, asks_executeAnswer _⟩
  obtain ⟨rest, hrest, heq⟩ := h₂.append c.id (.executionRequest c.id)
  exact ⟨c, hfound, hready, rfl, rest, hrest, heq.trans (by simp)⟩

/-- The two checks between a confirm's look-up and its payment. -/
theorem asks_checked (hfound : w.holder kind token = some c) (hp : samePrincipal c ctx)
    (hstate : c.state = .awaitingConfirmation)
    (hhist : w'.history = w.history ++ [.began (.confirm ctx token)]) (hticks : w'.ticks = w.ticks) :
    ((expired c).bind fun late =>
      if late = true then confirmExpired c
      else if actionDigest env c.action ≠ c.actionDigest.getD "" then do
        call (.append c.id (.digestMismatch c.actionDigest (actionDigest env c.action)))
        statusOf c "a ação mudou depois da confirmação; nada foi executado" (some .deny)
      else confirmAuthorized ctx token c).wp (asking env kind w ctx token) (fun _ _ => True) w' := by
  have hrest : ∀ {w'' : World} {reads : List Obs}, c.expiredAt (env.clock w.ticks) = false →
      reads ++ [.read .confirmed (env.clock w''.ticks)] = confirmReadings env w c →
      w''.history = w.history ++ .began (.confirm ctx token) :: reads →
      (if actionDigest env c.action ≠ c.actionDigest.getD "" then do
          call (.append c.id (.digestMismatch c.actionDigest (actionDigest env c.action)))
          statusOf c "a ação mudou depois da confirmação; nada foi executado" (some .deny)
        else confirmAuthorized ctx token c).wp (asking env kind w ctx token) (fun _ _ => True) w'' := by
    intro w'' reads hyoung hreads hhist
    by_cases hdigest : actionDigest env c.action = c.actionDigest.getD ""
    · rw [if_neg (not_not.mpr hdigest)]
      exact asks_confirmAuthorized hfound ⟨hp, hstate, hyoung, hdigest⟩ hreads hhist
    · rw [if_pos hdigest]
      exact ⟨trivial, asks_statusOf⟩
  unfold expired
  cases hissued : c.confirmationIssuedAt with
  | none =>
    refine hrest (by simp [Intent.expiredAt, hissued]) ?_ (hhist.trans rfl)
    simp [confirmReadings, hissued, hticks]
  | some issuedAt =>
    simp only [Prog.bind_eq, Prog.pure_eq, Prog.perform_bind, Prog.call_bind, Prog.ret_bind]
    refine ⟨trivial, ?_⟩
    simp only [handler, serve, hticks]
    by_cases hlate : confirmationTtl < env.clock w.ticks - issuedAt
    · simp only [hlate, decide_true, if_true]
      exact asks_confirmExpired
    · simp only [hlate, decide_false, Bool.false_eq_true, if_false]
      have hreads : [.read .expiry (env.clock w.ticks)] ++
          [.read .confirmed (env.clock (w.ticks + 1))] = confirmReadings env w c := by
        simp [confirmReadings, hissued]
      exact hrest (by simp [Intent.expiredAt, hissued, hlate]) hreads (by simp [World.note, hhist])

end Rules

/-- **Every call a confirm makes to the bank is for the intent its token found, as it found it.** -/
theorem confirm_asks (env : Env) (kind : StoreKind) (w : World) (ctx : Context) (token : String) :
    ((Op.confirm ctx token).prog env).wp (asking env kind w ctx token) (fun _ _ => True)
      (w.note (.began (.confirm ctx token))) := by
  have hreply : ∀ {p : Plane Outcome} {w' : World},
      p.wp (asking env kind w ctx token) (fun _ _ => True) w' →
      (replying Reply.outcome p).wp (asking env kind w ctx token) (fun _ _ => True) w' := by
    intro p w' hp
    simp only [replying, Prog.bind_eq, Prog.pure_eq, Prog.wp_bind]
    refine Prog.wp_mono (Handler.under_mono _ _) p (fun x t _ => ?_) hp
    cases x <;> trivial
  refine hreply ?_
  simp only [confirm, Prog.bind_eq, Prog.pure_eq, Prog.perform_bind]
  refine wp_byConfirmation.mpr ⟨trivial, ?_⟩
  rw [World.holder_note]
  cases hfound : w.holder kind token with
  | none => trivial
  | some r =>
    by_cases hp : samePrincipal r ctx
    · simp only [Option.filter, hp, decide_true, if_true]
      by_cases hdone : alreadyExecuted r.state = true
      · rw [if_pos hdone]
        exact ⟨trivial, asks_statusOf⟩
      rw [if_neg hdone]
      by_cases hstate : r.state = .awaitingConfirmation
      · rw [if_neg (not_not.mpr hstate)]
        exact asks_checked hfound hp hstate rfl rfl
      · rw [if_pos hstate]
        exact asks_statusOf
    · simp only [Option.filter, hp, decide_false]
      trivial

/-! ## The orders of one confirm -/

theorem history_serve (env : Env) (kind : StoreKind) {β : Type} (c : PlaneCall β) (w : World) :
    w.history <+: (serve env kind c w).2.history := by
  cases c with
  | put i => exact List.prefix_append _ [Obs.stored (w.saved i)]
  | append id e => exact List.prefix_append _ [Obs.appended ⟨id, e⟩]
  | clock use => exact List.prefix_append _ [Obs.read use (env.clock w.ticks)]
  | createPix o => exact List.prefix_append _ [Obs.asked o]
  | _ => exact List.prefix_rfl

def Obs.order : Obs → Option Order
  | .asked o => some o
  | _ => none

/-- The orders a confirm passes to the bank. -/
def confirmed (env : Env) (kind : StoreKind) (ctx : Context) (token : String) (w : World) :
    List Order :=
  ((exec env kind (.confirm ctx token) w).2.history.drop w.history.length).filterMap Obs.order

/-- The bank has been asked to pay `o` since the history was `h`. -/
def Sought (h : List Obs) (o : Order) (w : World) : Prop := ∃ seg, w.history = h ++ seg ∧ .asked o ∈ seg

theorem Sought.serve {h : List Obs} {o : Order} (hw : Sought h o w) {β : Type} (c : PlaneCall β) :
    Sought h o (serve env kind c w).2 := by
  obtain ⟨seg, heq, ho⟩ := hw
  obtain ⟨more, hmore⟩ := history_serve env kind c w
  exact ⟨seg ++ more, by rw [← hmore, heq, List.append_assoc], List.mem_append_left _ ho⟩

section Seeking
variable {α : Type} {ctx : Context} {token : String} {w' : World} {c : Intent} {h : List Obs} {o : Order}

/-- The program asks the bank to pay `o`. -/
abbrev Seeks (env : Env) (kind : StoreKind) (h : List Obs) (o : Order) (p : Plane α) (w : World) : Prop :=
  p.wp (handler env kind).free (fun _ => Sought h o) w

theorem Sought.seeks (hw : Sought h o w) (p : Plane α) : Seeks env kind h o p w :=
  (Prog.wp_free p w).mpr (Prog.run_keeps (A := fun _ _ => True) (fun c _ _ hs => hs.serve c)
    ((Prog.wp_free (Q := fun _ _ => True) p w).mpr trivial) hw)

theorem seeks_call {β : Type} {pc : PlaneCall β} {k : β → Plane α} (hh : h <+: w.history)
    (hk : ∀ r w', h <+: w'.history → Seeks env kind h o (k r) w') :
    Seeks env kind h o (Prog.call pc k) w :=
  ⟨trivial, hk _ _ (hh.trans (history_serve env kind pc w))⟩

theorem seeks_move {event : Hop} {target : State} {detail : Detail} {f : Intent → Plane α}
    (edge : TRANSITIONS c.state event = some target) (hh : h <+: w.history)
    (hf : ∀ w', h <+: w'.history → Seeks env kind h o (f { c with state := target }) w') :
    Seeks env kind h o ((move c event detail).bind f) w := by
  simp only [move, transition, edge, assign, Prog.bind_eq, Prog.pure_eq, Prog.perform_bind,
    Prog.call_bind, Prog.ret_bind]
  refine seeks_call hh fun _ _ hh => seeks_call hh fun _ _ hh => seeks_call hh fun _ w' hh => ?_
  exact hf w' hh

theorem seeks_execute (hstate : c.state = .authorized) (ho : c.order = o) (hh : h <+: w.history) :
    Seeks env kind h o (execute c) w := by
  have edge : TRANSITIONS c.state .submit = some .submitted := by rw [hstate]; rfl
  simp only [execute, Prog.bind_eq, Prog.perform_bind]
  refine seeks_move edge hh fun _ hh => seeks_call hh fun _ w' hh => ⟨trivial, ?_⟩
  obtain ⟨seg, hseg⟩ := hh
  refine Sought.seeks ⟨seg ++ [.asked o], ?_, by simp⟩ _
  rw [← List.append_assoc, hseg, ← ho]
  rfl

theorem seeks_confirmAuthorized (hstate : c.state = .awaitingConfirmation) (hh : h <+: w.history) :
    Seeks env kind h c.order (confirmAuthorized ctx token c) w := by
  have edge : TRANSITIONS c.state .confirm = some .authorized := by rw [hstate]; rfl
  simp only [confirmAuthorized, assign, Prog.bind_eq, Prog.pure_eq, Prog.perform_bind, Prog.call_bind,
    Prog.ret_bind]
  refine seeks_call hh fun _ _ hh => seeks_call hh fun _ _ hh => seeks_call hh fun _ _ hh => ?_
  refine seeks_call hh fun _ _ hh => seeks_move edge hh fun _ hh => seeks_call hh fun _ w' hh => ?_
  exact seeks_execute rfl rfl hh

/-- A confirm that finds an intent ready for it asks the bank to pay for it. -/
theorem confirm_seeks {r : Intent} (hfound : w.holder kind token = some r) (hready : Ready env w ctx r) :
    Sought w.history r.order (exec env kind (.confirm ctx token) w).2 := by
  have hnotdone : ¬ alreadyExecuted r.state = true := by rw [hready.state]; decide
  have hh : w.history <+: (w.note (.began (.confirm ctx token))).history :=
    List.prefix_append w.history [Obs.began (.confirm ctx token)]
  rw [exec, Op.prog, run_replying]
  change Sought w.history r.order ((confirm env ctx token).run (handler env kind) _).2
  refine (Prog.wp_free (Q := fun _ => Sought w.history r.order) _ _).mp ?_
  simp only [confirm, Prog.bind_eq, Prog.pure_eq, Prog.perform_bind]
  refine wp_byConfirmation.mpr ⟨trivial, ?_⟩
  rw [World.holder_note]
  simp only [hfound, Option.filter, hready.principal, decide_true, if_true]
  rw [if_neg hnotdone, if_neg (not_not.mpr hready.state)]
  have hyoung := hready.young
  unfold Intent.expiredAt at hyoung
  unfold expired
  cases hissued : r.confirmationIssuedAt with
  | none =>
    change Seeks env kind _ _ (if actionDigest env r.action ≠ r.actionDigest.getD "" then _ else _) _
    rw [if_neg (not_not.mpr hready.digest)]
    exact seeks_confirmAuthorized hready.state hh
  | some issuedAt =>
    rw [hissued] at hyoung
    refine ⟨trivial, ?_⟩
    change Seeks env kind _ _ (if decide (confirmationTtl < env.clock w.ticks - issuedAt) = true then _
      else if actionDigest env r.action ≠ r.actionDigest.getD "" then _ else _) _
    dsimp only at hyoung
    rw [hyoung, if_neg Bool.false_ne_true, if_neg (not_not.mpr hready.digest)]
    exact seeks_confirmAuthorized hready.state (hh.trans (history_serve env kind (.clock .expiry) _))

end Seeking

/-- Every call to the bank in the history of a confirm is made on the intent the confirm found. -/
theorem asking_of_split {ctx : Context} {token : String} {o : Order} {pre post : List Obs}
    (heq : (exec env kind (.confirm ctx token) w).2.history = pre ++ .asked o :: post)
    (hlen : w.history.length ≤ pre.length) : ∃ r, Asking env kind w ctx token o pre r := by
  let P : List Obs → Obs → Prop := fun pre x => w.history.length ≤ pre.length →
    ∀ o, x = .asked o → ∃ r, Asking env kind w ctx token o pre r
  have hcall : ∀ {β : Type} (c : PlaneCall β) (w' : World), Asks env kind w ctx token c w' →
      History.Past P w'.history → History.Past P (serve env kind c w').2.history := by
    intro β c w' hc hp
    cases c with
    | put i => exact History.past_snoc.mpr ⟨hp, fun _ _ hx => by cases hx⟩
    | append id e => exact History.past_snoc.mpr ⟨hp, fun _ _ hx => by cases hx⟩
    | clock use => exact History.past_snoc.mpr ⟨hp, fun _ _ hx => by cases hx⟩
    | createPix o =>
      refine History.past_snoc.mpr ⟨hp, fun _ o' hx => ?_⟩
      obtain rfl := Obs.asked.inj hx
      exact hc
    | _ => exact hp
  have hstart : History.Past P (w.note (.began (.confirm ctx token))).history := by
    refine History.past_snoc.mpr ⟨fun pre x post hsplit hlen => ?_, fun _ _ hx => by cases hx⟩
    rw [hsplit, List.length_append, List.length_cons] at hlen
    omega
  exact Prog.run_keeps (I := fun w' => History.Past P w'.history) hcall
    (confirm_asks env kind w ctx token) hstart pre _ post heq hlen o rfl

/-- **A confirm passes one order to the bank, of the intent its token finds, when that is ready.** -/
theorem mem_confirmed {ctx : Context} {token : String} {o : Order} :
    o ∈ confirmed env kind ctx token w ↔
      ∃ r, w.holder kind token = some r ∧ Ready env w ctx r ∧ o = r.order := by
  constructor
  · intro ho
    obtain ⟨x, hx, heq⟩ := List.mem_filterMap.mp ho
    have hx : .asked o ∈ (exec env kind (.confirm ctx token) w).2.history.drop w.history.length := by
      cases x <;> cases heq
      exact hx
    obtain ⟨a, b, hdrop⟩ := List.append_of_mem hx
    have hlong : w.history.length ≤ (exec env kind (.confirm ctx token) w).2.history.length := by
      have hpos := List.length_pos_of_mem hx
      rw [List.length_drop] at hpos
      omega
    have hsplit : (exec env kind (.confirm ctx token) w).2.history =
        ((exec env kind (.confirm ctx token) w).2.history.take w.history.length ++ a) ++
          .asked o :: b := by
      rw [List.append_assoc, ← hdrop, List.take_append_drop]
    obtain ⟨r, hasking⟩ := asking_of_split hsplit (by
      rw [List.length_append, List.length_take]
      omega)
    exact ⟨r, hasking.found, hasking.ready, hasking.order⟩
  · rintro ⟨r, hfound, hready, rfl⟩
    obtain ⟨seg, heq, ho⟩ := confirm_seeks hfound hready
    rw [confirmed, heq, List.drop_left]
    exact List.mem_filterMap.mpr ⟨_, ho, rfl⟩

/-! ## Along a run -/

/-- A note that is no call to the bank. -/
def Obs.IsAsked : Obs → Prop
  | .asked _ => True
  | _ => False

/-- What every confirm keeps of its calls to the bank holds after a step. -/
theorem Good.askedStep {P : List Obs → Obs → Prop} (hquiet : ∀ h x, ¬ x.IsAsked → P h x)
    (hgood : Good env kind w) (hpast : History.Past P w.history) {op : Op} {s : Step} (hs : s.Does op)
    (hasked : ∀ ctx token o h r, op = .confirm ctx token → Asking env kind w ctx token o h r →
      P h (.asked o)) : History.Past P (s.next env kind w).history := by
  -- Every call is permitted, and one to the bank is of the confirm that is under way.
  have hmeets : (op.prog env).wp ((handler env kind).under fun c w' => Permitted env c w' ∧
      ∀ ctx token, op = .confirm ctx token → Asks env kind w ctx token c w')
      (fun _ _ => True) (w.note (.began op)) := by
    by_cases hop : ∃ ctx token, op = .confirm ctx token
    · obtain ⟨ctx, token, rfl⟩ := hop
      refine Prog.wp_under_mono (fun c w' h => ⟨h.1, fun _ _ heq => ?_⟩) (fun _ _ _ => trivial)
        (Prog.wp_and (hgood.permitted (.confirm ctx token)) (confirm_asks env kind w ctx token))
      obtain ⟨rfl, rfl⟩ := Op.confirm.inj heq
      exact h.2
    · exact Prog.wp_under_mono (fun c w' h => ⟨h, fun ctx token heq => absurd ⟨ctx, token, heq⟩ hop⟩)
        (fun _ _ _ => trivial) (hgood.permitted op)
  let I : World → Prop := fun w' => (∃ seg, During w'.history op seg) ∧ History.Past P w'.history
  have hstart : I (w.note (.began op)) := by
    refine ⟨⟨[], History.Since.start _ trivial⟩, ?_⟩
    exact History.past_snoc.mpr ⟨hpast, hquiet _ _ fun h => h⟩
  have hcall : ∀ {β : Type} (c : PlaneCall β) (w' : World), (Permitted env c w' ∧
      ∀ ctx token, op = .confirm ctx token → Asks env kind w ctx token c w') → I w' →
      I (serve env kind c w').2 := by
    rintro β c w' ⟨hc, hconfirm⟩ ⟨hduring, hp⟩
    refine ⟨during_serve hduring c, ?_⟩
    cases c with
    | put i => exact History.past_snoc.mpr ⟨hp, hquiet _ _ fun h => h⟩
    | append id e => exact History.past_snoc.mpr ⟨hp, hquiet _ _ fun h => h⟩
    | clock use => exact History.past_snoc.mpr ⟨hp, hquiet _ _ fun h => h⟩
    | createPix o =>
      refine History.past_snoc.mpr ⟨hp, ?_⟩
      obtain ⟨r, ctx, token, seg, hauth⟩ := id hc
      obtain ⟨seg', hseg'⟩ := hduring
      obtain ⟨hop, -⟩ := hseg'.unique hauth.during
      have hop : op = .confirm ctx token := Obs.began.inj hop
      obtain ⟨r', hasking⟩ := hconfirm ctx token hop
      exact hasked ctx token o w'.history r' hop hasking
    | _ => exact hp
  rcases hs with rfl | ⟨n, rfl⟩
  · exact (Prog.run_keeps (I := I) hcall hmeets hstart).2
  · exact (Prog.cut_keeps (I := I) hcall hmeets hstart n).2

/-- **What every confirm keeps of its calls to the bank, from the world it begins in, holds of every call
of a run.** -/
theorem Reach.asked {opening : MockBank → Prop} {admissible : World → Step → Prop}
    {P : List Obs → Obs → Prop} (hsound : ∀ w s, admissible w s → s.Sound kind w)
    (hquiet : ∀ h x, ¬ x.IsAsked → P h x)
    (hasked : ∀ w s ctx token o h r, Reach env kind opening admissible w → admissible w s →
      s.Does (.confirm ctx token) → Asking env kind w ctx token o h r → P h (.asked o))
    (hw : Reach env kind opening admissible w) : History.Past P w.history := by
  induction hw with
  | start bank hb => exact History.past_nil _
  | @step w s hw hs ih =>
    rcases s.does_or env kind w with ⟨op, hdoes⟩ | hsame
    · refine (hw.good hsound).askedStep hquiet ih hdoes fun ctx token o h r hop hasking => ?_
      exact hasked w s ctx token o h r hw hs (hop ▸ hdoes) hasking
    · rw [hsame]
      exact ih

end BankingControlPlane
