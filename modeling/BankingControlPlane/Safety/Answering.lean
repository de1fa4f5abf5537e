import BankingControlPlane.Safety.Readers
import BankingControlPlane.Ui.View

/-!
# Answers on the page

* `during_turn` : while a turn is on its way its frames are read as they come, and the page is what it is turned to;
* `answer_in_place` : its answer stands where it was asked, unless another conversation is opened meanwhile;
* `Tells`, `read_served` : what the entry of a turn tells of what the service sent;
* `turn_on_page` : what the service did in a turn is what the page shows of it.
-/

namespace BankingControlPlane.Browser
open Json History

/-! ## The answer of a turn -/

/-- The frames of a turn, as its events bring them. -/
def framesOf (k : Nat) (events : List Event) : List TurnStreamEvent :=
  events.filterMap fun
    | .frame j frame => if j = k then some frame else none
    | _ => none

/-- The event is the end of this turn. -/
def Event.Ends (k : Nat) : Event → Prop
  | .ended j _ => j = k
  | _ => False

/-- A message of a conversation, of which no frame has come. -/
def Sending.start (threadId message : String) : Sending := { threadId, message }

/-- What is left of a turn when its stream is over, or broke off. -/
def Sending.closed (x : Sending) : Option Thrown → Sending
  | none => x
  | some error => x.broken error

/-- A conversation as it is shown. -/
structure Page where
  thread : Option StartThreadResponse
  shown : List Shown

/-- The page after these events, where nothing is added to it: another conversation, if one was opened or resumed. -/
def Page.along (p : Page) (s : App) : List Event → Page
  | [] => p
  | e :: rest =>
    match s.act e with
    | .turned thread shown => Page.along ⟨thread, shown⟩ (s.step e) rest
    | _ => Page.along p (s.step e) rest

/-- The page is shown, apart from a turn that is on its way. -/
structure OnPage (v : View) (p : Page) : Prop where
  thread : v.thread = p.thread
  shown : (withoutLive v.entries).map Entry.shown = p.shown

section Reading
variable {x : Sending}

/-- The frames so far are those of a rail, whatever else. -/
def Sending.Railed (x : Sending) : Prop := ∃ seen, x.acc.Shows (totals seen)

theorem railed_start (threadId message : String) : (Sending.start threadId message).Railed :=
  ⟨[], rfl, rfl, rfl⟩

theorem Sending.Railed.read (h : x.Railed) (frame : TurnStreamEvent) :
    ∃ next, x.read frame = some next ∧ next.Railed := by
  cases frame with
  | stage event =>
    obtain ⟨seen, hseen⟩ := h
    obtain ⟨acc, hacc, hshows, -⟩ := accumulate_step hseen event
    exact ⟨{ x with acc }, by rw [Sending.read, hacc]; rfl, _, hshows⟩
  | turn event => exact ⟨_, rfl, h⟩
  | error status detail => exact ⟨_, rfl, h⟩
  | trace traceUrl => exact ⟨_, rfl, h⟩

end Reading

theorem page_shown (page : List Shown) (v : View) :
    (page.foldl View.add v).entries.map Entry.shown = v.entries.map Entry.shown ++ page := by
  induction page generalizing v with
  | nil => simp
  | cons shown page ih =>
    rw [List.foldl_cons, ih]
    simp [View.add]

theorem page_thread (page : List Shown) (v : View) : (page.foldl View.add v).thread = v.thread := by
  induction page generalizing v with
  | nil => rfl
  | cons shown page ih => exact ih (v.add shown)

section During
variable {s : App} {k : Nat} {x : Sending} {p : Page}

/-- What happens while a turn is on its way, its own frames and its end apart. -/
theorem act_aside (hs : s.view.Sound) (hk : s.turnAt k = some x) {e : Event} (hframe : framesOf k [e] = [])
    (hend : ¬ e.Ends k) : s.act e = .nothing ∨ ∃ thread page, s.act e = .turned thread page := by
  have hbusy : s.busy = true := hs.busy hk
  have halone : ∀ {j : Nat} {y : Sending}, s.inFlight j = some (.streamTurn y) → j = k :=
    fun hj => hs.one (turnAt_streamTurn hj) hk
  cases e with
  | submit text =>
    left
    simp only [App.act, hbusy]
    simp
  | opened j result =>
    cases result with
    | ok opened =>
      simp only [App.act]
      split
      · exact Or.inr ⟨_, _, rfl⟩
      · exact Or.inl rfl
    | error error => exact Or.inl rfl
  | fetched j result =>
    cases result with
    | ok past =>
      simp only [App.act]
      split
      · exact Or.inr ⟨_, _, rfl⟩
      · exact Or.inl rfl
    | error error => exact Or.inl rfl
  | frame j frame =>
    simp only [App.act]
    split
    · next y hj => simp [framesOf, halone hj] at hframe
    · exact Or.inl rfl
  | ended j thrown =>
    simp only [App.act]
    split
    · next y hj => exact absurd (halone hj) hend
    · exact Or.inl rfl
  | _ => exact Or.inl rfl

theorem along_nothing {e : Event} (h : s.act e = .nothing) (rest : List Event) :
    p.along s (e :: rest) = p.along (s.step e) rest := by
  rw [Page.along, h]

theorem along_turned {e : Event} {thread : Option StartThreadResponse} {page : List Shown}
    (h : s.act e = .turned thread page) (rest : List Event) :
    p.along s (e :: rest) = Page.along ⟨thread, page⟩ (s.step e) rest := by
  rw [Page.along, h]

/-- **While a turn is on its way** its frames are read as they come, and the page is what it is turned to. -/
theorem during_turn (hs : s.view.Sound) (hk : s.turnAt k = some x) (hrailed : x.Railed) (hpage : OnPage s.view p)
    (during : List Event) (hopen : ∀ e ∈ during, ¬ e.Ends k) :
    ∃ y, (framesOf k during).foldlM Sending.read x = some y ∧ (s.after during).turnAt k = some y ∧
      OnPage (s.after during).view (p.along s during) := by
  induction during generalizing s x p with
  | nil => exact ⟨x, rfl, hk, hpage⟩
  | cons e rest ih =>
    obtain ⟨hend, hrest⟩ := List.forall_mem_cons.mp hopen
    have hnext := App.sound_step hs e
    have hview := App.view_step s e
    by_cases hframe : framesOf k [e] = []
    · have hframes : framesOf k (e :: rest) = framesOf k rest := by
        rw [← List.singleton_append, framesOf, List.filterMap_append]
        exact congrArg (· ++ framesOf k rest) hframe
      rw [hframes]
      rcases act_aside hs hk hframe hend with hact | ⟨thread, page, hact⟩
      · rw [hact] at hview
        rw [along_nothing hact]
        refine ih hnext ?_ hrailed ?_ hrest
        · exact (congrFun (congrArg View.turns hview) k).trans hk
        · rw [hview]
          exact hpage
      · rw [hact] at hview
        rw [along_turned hact]
        have hturns := View.page_turns page { s.view with thread, entries := [] }
        have hnumbered := View.numbered_page page { s.view with thread, entries := [] } (.nil _)
        refine ih hnext ?_ hrailed ⟨?_, ?_⟩ hrest
        · exact ((congrFun (congrArg View.turns hview) k).trans (congrFun hturns k)).trans hk
        · rw [hview]
          exact page_thread page _
        · rw [hview]
          show (withoutLive (page.foldl View.add _).entries).map Entry.shown = page
          rw [hnumbered.settled, page_shown]
          rfl
    · cases e with
      | frame j frame =>
        obtain rfl : j = k := by
          by_contra hne
          exact hframe (by simp [framesOf, hne])
        obtain ⟨next, hread, hrailed'⟩ := hrailed.read frame
        have hact := act_frame hk hread
        rw [hact] at hview
        have hframes : framesOf j (.frame j frame :: rest) = frame :: framesOf j rest := by
          simp [framesOf]
        have halong : p.along s (.frame j frame :: rest) = p.along (s.step (.frame j frame)) rest := by
          rw [Page.along, hact]
        rw [hframes, halong, List.foldlM_cons, hread, Option.bind_eq_bind, Option.bind_some]
        refine ih hnext ?_ hrailed' ⟨?_, ?_⟩ hrest
        · refine (congrFun (congrArg View.turns hview) j).trans ?_
          exact Function.update_self _ _ _
        · rw [hview]
          exact hpage.thread
        · rw [hview]
          cases hstaged : frame.staged with
          | false => exact hpage.shown
          | true =>
            show (withoutLive (withLiveRail s.entries next.acc)).map Entry.shown = p.shown
            rw [withLiveRail, withoutLive_live]
            exact hpage.shown
      | _ => exact absurd rfl hframe

end During

/-- A message can be sent of this conversation. -/
structure Ready (s : App) (thread : StartThreadResponse) (text : String) : Prop where
  session : s.session = true
  thread : s.thread = some thread
  idle : s.busy = false
  text : trim text ≠ ""

/-- The page with the message that is sent. -/
def App.asking (s : App) (thread : StartThreadResponse) (text : String) : Page :=
  ⟨some thread, s.entries.map Entry.shown ++ [.user (trim text)]⟩

/-- The turn has landed on the page, the composer is open again, and nothing is on its way. -/
structure Landed (s : App) (p : Page) (outcome : Shown) : Prop where
  thread : s.thread = p.thread
  shown : s.entries.map Entry.shown = p.shown ++ [outcome]
  idle : s.busy = false
  turns : ∀ k, s.turnAt k = none

section Answers
variable {s : App} {k : Nat} {x : Sending} {p : Page} {thread : StartThreadResponse} {text : String}

theorem act_submit (h : Ready s thread text) :
    s.act (.submit text) = .asked s.calls.length (.start thread.threadId (trim text)) := by
  simp only [App.act, h.session, h.idle, ne_eq, h.text, not_false_eq_true, and_self, if_true]
  exact App.asks_some h.thread _

/-- A message is sent. -/
theorem submitted (hs : s.view.Sound) (h : Ready s thread text) :
    (s.step (.submit text)).turnAt s.calls.length = some (.start thread.threadId (trim text)) ∧
      OnPage (s.step (.submit text)).view (s.asking thread text) := by
  have hview := App.view_step s (.submit text)
  rw [act_submit h] at hview
  have hsettled : withoutLive s.entries = s.entries := by
    rcases hs.live with hlive | ⟨hrunning, -⟩
    · exact hlive.symm
    · have hidle : s.view.busy = false := h.idle
      rw [hidle] at hrunning
      cases hrunning
  have hmore : Numbered (s.counter + 1) (s.entries ++ [⟨nextId s.counter, .user (trim text)⟩]) := by
    have hnumbered : Numbered s.counter (withoutLive s.entries) := hs.numbered
    rw [hsettled] at hnumbered
    exact hnumbered.add _
  refine ⟨(congrFun (congrArg View.turns hview) _).trans (Function.update_self _ _ _), ?_, ?_⟩
  · rw [hview]
    exact h.thread
  · rw [hview]
    show (withoutLive (s.entries ++ [⟨nextId s.counter, .user (trim text)⟩])).map Entry.shown = _
    rw [hmore.settled, List.map_append]
    rfl

/-- A turn lands. -/
theorem landed (hs : s.view.Sound) (hk : s.turnAt k = some x) (hpage : OnPage s.view p) {thrown : Option Thrown}
    (hsession : thrown.any Thrown.unauthorized = false) :
    Landed (s.step (.ended k thrown)) p (x.closed thrown).outcome := by
  have hact : s.act (.ended k thrown) = .landed k (x.closed thrown) := by
    rw [act_ended hk]
    cases thrown with
    | none => rfl
    | some error =>
      rw [Option.any_some] at hsession
      rw [App.endsAs, hsession]
      rfl
  have hview := App.view_step s (.ended k thrown)
  rw [hact] at hview
  constructor
  · exact (congrArg View.thread hview).trans hpage.thread
  · refine (congrArg (fun v : View => v.entries.map Entry.shown) hview).trans ?_
    show (withoutLive s.entries ++ [Entry.mk _ (x.closed thrown).outcome]).map Entry.shown = _
    rw [List.map_append]
    exact congrArg (· ++ _) hpage.shown
  · exact congrArg View.busy hview
  · intro j
    refine (congrFun (congrArg View.turns hview) j).trans ?_
    show Function.update s.turnAt k none j = none
    by_cases hj : j = k
    · rw [hj, Function.update_self]
    · rw [Function.update_of_ne hj]
      cases hturn : s.turnAt j with
      | none => rfl
      | some y => exact absurd (hs.one hturn hk) hj

/-- The event opens a conversation, or another one again. -/
def Event.Turns : Event → Prop
  | .opened _ (.ok _) | .fetched _ (.ok _) => True
  | _ => False

/-- A page that is turned to no other is the same. -/
theorem along_unturned {during : List Event} (h : ∀ e ∈ during, ¬ e.Turns) : p.along s during = p := by
  induction during generalizing s with
  | nil => rfl
  | cons e rest ih =>
    obtain ⟨he, hrest⟩ := List.forall_mem_cons.mp h
    rw [Page.along]
    split
    · next thread page hact =>
      exfalso
      cases e with
      | opened j result =>
        cases result with
        | ok opened => exact he trivial
        | error error => cases hact
      | fetched j result =>
        cases result with
        | ok past => exact he trivial
        | error error => cases hact
      | submit text =>
        simp only [App.act] at hact
        split_ifs at hact
        unfold App.asks at hact
        split at hact <;> cases hact
      | frame j frame =>
        simp only [App.act] at hact
        split at hact
        · split at hact <;> cases hact
        · cases hact
      | ended j thrown =>
        simp only [App.act] at hact
        split at hact
        · unfold App.endsAs at hact
          split at hact
          · cases hact
          · split_ifs at hact
        · cases hact
      | _ => cases hact
    · exact ih hrest

end Answers

/-- The page of a message that is sent, and of what is opened while its turn is on its way. -/
def pageOf (before : List Event) (thread : StartThreadResponse) (text : String) (during : List Event) : Page :=
  ((App.reached before).asking thread text).along (App.reached (before ++ [.submit text])) during

theorem reached_during (before during : List Event) (text : String) :
    App.reached (before ++ .submit text :: during) = ((App.reached before).step (.submit text)).after during := by
  rw [App.reached, App.after_append]
  rfl

section InPlace
variable {text : String} {thread : StartThreadResponse} (before during : List Event)

/-- A turn that is on its way after a message was sent, and the page it is on. -/
theorem under_way (hready : Ready (App.reached before) thread text)
    (hopen : ∀ e ∈ during, ¬ e.Ends (App.reached before).calls.length) :
    ∃ x, (framesOf (App.reached before).calls.length during).foldlM Sending.read
        (.start thread.threadId (trim text)) = some x ∧
      (App.reached (before ++ .submit text :: during)).turnAt (App.reached before).calls.length = some x ∧
      OnPage (App.reached (before ++ .submit text :: during)).view (pageOf before thread text during) := by
  have hs := App.sound_reached before
  obtain ⟨hturn, hpage⟩ := submitted hs hready
  have hasked := App.sound_step hs (.submit text)
  obtain ⟨x, hread, hk, hon⟩ := during_turn hasked hturn (railed_start _ _) hpage during hopen
  have hpageOf : pageOf before thread text during =
      ((App.reached before).asking thread text).along ((App.reached before).step (.submit text)) during := by
    rw [pageOf, App.reached_snoc]
  rw [← hpageOf, ← reached_during] at hon
  rw [← reached_during] at hk
  exact ⟨x, hread, hk, hon⟩

/-- And how it lands. -/
theorem landing (hready : Ready (App.reached before) thread text)
    (hopen : ∀ e ∈ during, ¬ e.Ends (App.reached before).calls.length) :
    ∃ x, (framesOf (App.reached before).calls.length during).foldlM Sending.read
        (.start thread.threadId (trim text)) = some x ∧
      ∀ thrown : Option Thrown, thrown.any Thrown.unauthorized = false →
        Landed (App.reached (before ++ .submit text :: during ++ [.ended (App.reached before).calls.length thrown]))
          (pageOf before thread text during) (x.closed thrown).outcome := by
  obtain ⟨x, hread, hk, hon⟩ := under_way before during hready hopen
  refine ⟨x, hread, fun thrown hsession => ?_⟩
  rw [App.reached_snoc]
  exact landed (App.sound_reached _) hk hon hsession

end InPlace

/-- **An answer stands where it was asked**, after its message, unless another conversation is opened meanwhile: then
it stands there. It is made of all the frames of its turn and of no others, whatever else happens on the way. -/
theorem answer_in_place (before during : List Event) {text : String} {thread : StartThreadResponse}
    (hready : Ready (App.reached before) thread text)
    (hopen : ∀ e ∈ during, ¬ e.Ends (App.reached before).calls.length) :
    ((∀ e ∈ during, ¬ e.Turns) → pageOf before thread text during = (App.reached before).asking thread text) ∧
      ∃ x, (framesOf (App.reached before).calls.length during).foldlM Sending.read
          (.start thread.threadId (trim text)) = some x ∧
        (App.reached (before ++ .submit text :: during)).turnAt (App.reached before).calls.length = some x ∧
        OnPage (App.reached (before ++ .submit text :: during)).view (pageOf before thread text during) ∧
        ∀ thrown : Option Thrown, thrown.any Thrown.unauthorized = false →
          Landed (App.reached (before ++ .submit text :: during ++ [.ended (App.reached before).calls.length thrown]))
            (pageOf before thread text during) (x.closed thrown).outcome := by
  obtain ⟨x, hread, hk, hon⟩ := under_way before during hready hopen
  obtain ⟨y, hread', hlanded⟩ := landing before during hready hopen
  rw [hread] at hread'
  obtain rfl := Option.some.inj hread'
  exact ⟨along_unturned, x, hread, hk, hon, hlanded⟩

/-- A customer's page, with another conversation in the list. -/
def openedOne : List Event :=
  [.signIn, .opened 0 (.ok ⟨"t1", "banking", "", "both"⟩), .listed 1 (.ok ([⟨"t2", "ontem", 1, "", ""⟩], true))]

/-- The other conversation is opened. -/
def openedOther : List Event := [.select "t2", .fetched 3 (.ok [⟨.user, "ontem"⟩])]

theorem openedOne_ready : Ready (App.reached openedOne) ⟨"t1", "banking", "", "both"⟩ "saldo" :=
  ⟨rfl, rfl, rfl, by decide⟩

/-- What was asked in one conversation is answered in another. -/
theorem answered_elsewhere : ∃ outcome, Landed
    (App.reached (openedOne ++ .submit "saldo" :: openedOther ++ [.ended (App.reached openedOne).calls.length none]))
    ⟨some ⟨"t2", "banking", "", "both"⟩, [.user "ontem"]⟩ outcome := by
  obtain ⟨-, x, -, -, -, hlanded⟩ := answer_in_place openedOne openedOther openedOne_ready (by
    simp [openedOther, Event.Ends])
  exact ⟨_, hlanded none rfl⟩

/-! ## What an answer tells -/

/-- The violations that a blocked stage has. -/
def found (e : StageEvent ℚ) : List Violation :=
  match e.status, e.detail with
  | .blocked, some (.violations vs) => vs
  | _, _ => []

/-- A completed model call that says what it used. -/
def Measured (e : StageEvent ℚ) : Prop := e.kind = .model ∧ e.status = .done ∧ e.detail.isSome

/-- What the accumulator keeps of the stages themselves. -/
structure Keeps (acc : TurnAccumulator) (events : List (StageEvent ℚ)) : Prop where
  rail : acc.rail = (settled events).map StageEvent.payload
  violations : acc.violations = (events.flatMap found).map Violation.payload
  sawUsage : acc.sawUsage = true ↔ ∃ e ∈ events, Measured e

section Accumulating
variable {acc next : TurnAccumulator}

theorem add_fields {detail : List (String × Value ℚ)} (h : acc.add detail = some next) :
    next.rail = acc.rail ∧ next.violations = acc.violations ∧ next.sawUsage = true := by
  unfold TurnAccumulator.add at h
  simp only [Option.bind_eq_bind, Option.bind_eq_some_iff] at h
  obtain ⟨_, _, _, _, hnext⟩ := h
  cases hnext
  exact ⟨rfl, rfl, rfl⟩

theorem count_fields {e : StageEvent ℚ} (h : acc.count e.payload (e.detail.map StageDetail.payload) = some next) :
    next.rail = acc.rail ∧ next.violations = acc.violations ∧
      (next.sawUsage = true ↔ acc.sawUsage = true ∨ Measured e) := by
  unfold Measured
  cases hdetail : e.detail with
  | none =>
    rw [hdetail] at h
    cases h
    exact ⟨rfl, rfl, by simp⟩
  | some detail =>
    rw [hdetail, Option.map_some, TurnAccumulator.count, isText_call] at h
    by_cases hdone : e.kind = .model ∧ e.status = .done
    · rw [if_pos (decide_eq_true hdone)] at h
      obtain ⟨hrail, hviolations, hsaw⟩ := add_fields h
      exact ⟨hrail, hviolations, by simp [hsaw, hdone]⟩
    · rw [if_neg (by simpa using hdone)] at h
      cases h
      refine ⟨rfl, rfl, ?_⟩
      rw [or_iff_left]
      exact fun hmeasured => hdone ⟨hmeasured.1, hmeasured.2.1⟩

theorem block_fields {e : StageEvent ℚ} (hblocked : e.status = .blocked)
    (h : acc.block (e.detail.map StageDetail.payload) = some next) :
    next.rail = acc.rail ∧ next.violations = acc.violations ++ (found e).map Violation.payload ∧
      next.sawUsage = acc.sawUsage := by
  unfold found
  rw [hblocked]
  cases hdetail : e.detail with
  | none =>
    rw [hdetail] at h
    cases h
    exact ⟨rfl, (List.append_nil _).symm, rfl⟩
  | some detail =>
    rw [hdetail] at h
    cases detail with
    | violations vs =>
      cases h
      exact ⟨rfl, rfl, rfl⟩
    | usage u =>
      cases h
      exact ⟨rfl, (List.append_nil _).symm, rfl⟩
    | error type message =>
      cases message <;> cases h <;> exact ⟨rfl, (List.append_nil _).symm, rfl⟩

theorem Keeps.snoc {seen : List (StageEvent ℚ)} {e : StageEvent ℚ} (hkeeps : Keeps acc seen)
    (h : accumulateStage acc e.payload = some next) : Keeps next (seen ++ [e]) := by
  unfold accumulateStage at h
  rw [get_status, isText_start, isText_blocked, detailOf_payload] at h
  have hsettled := settled_snoc seen e
  by_cases hstart : e.status = .start
  · rw [if_pos (decide_eq_true hstart)] at h
    cases h
    have hfound : found e = [] := by unfold found; rw [hstart]
    have hmeasured : ¬ Measured e := by
      rintro ⟨-, hdone, -⟩
      rw [hstart] at hdone
      cases hdone
    constructor
    · rw [hsettled, if_pos hstart]
      exact hkeeps.rail
    · rw [List.flatMap_append, List.flatMap_singleton, hfound, List.append_nil]
      exact hkeeps.violations
    · rw [hkeeps.sawUsage]
      simp [or_and_right, exists_or, hmeasured]
  · rw [if_neg (by simpa using hstart), Option.bind_eq_bind, Option.bind_some, Option.bind_eq_bind,
      Option.bind_eq_some_iff] at h
    obtain ⟨counted, hcount, h⟩ := h
    obtain ⟨hrail, hviolations, hsaw⟩ := count_fields hcount
    have hkept : next.rail = counted.rail ∧
        next.violations = counted.violations ++ (found e).map Violation.payload ∧
        next.sawUsage = counted.sawUsage := by
      by_cases hblocked : e.status = .blocked
      · rw [if_pos (by simpa using hblocked)] at h
        exact block_fields hblocked h
      · rw [if_neg (by simpa using hblocked)] at h
        cases h
        have hfound : found e = [] := by
          unfold found
          split
          · next hstatus _ => exact absurd hstatus hblocked
          · rfl
        rw [hfound]
        exact ⟨rfl, (List.append_nil _).symm, rfl⟩
    constructor
    · rw [hkept.1, hrail, hkeeps.rail, hsettled, if_neg hstart, List.map_append]
      rfl
    · rw [hkept.2.1, hviolations, hkeeps.violations, List.flatMap_append, List.flatMap_singleton, List.map_append]
    · rw [hkept.2.2, hsaw, hkeeps.sawUsage]
      simp [or_and_right, exists_or]

/-- The accumulator of a rail. -/
theorem accumulate_keeps (events : List (StageEvent ℚ)) :
    ∃ acc, (events.map StageEvent.payload).foldlM accumulateStage {} = some acc ∧ acc.Shows (totals events) ∧
      Keeps acc events ∧ (acc.blocked = true ↔ ∃ e ∈ events, e.status = .blocked) := by
  rw [List.foldlM_map]
  refine foldlM_keeps (fun seen (acc : TurnAccumulator) => acc.Shows (totals seen) ∧ Keeps acc seen ∧
    (acc.blocked = true ↔ ∃ e ∈ seen, e.status = .blocked)) ⟨⟨rfl, rfl, rfl⟩, ⟨rfl, rfl, by simp⟩, by simp⟩ ?_ events
  rintro seen e acc ⟨hshows, hkeeps, hblocked⟩
  obtain ⟨next, hnext, hnextShows, hnextBlocked⟩ := accumulate_step hshows e
  refine ⟨next, hnext, hnextShows, hkeeps.snoc hnext, ?_⟩
  rw [hnextBlocked, hblocked]
  simp [or_and_right, exists_or]

end Accumulating

instance (e : StageEvent ℚ) : Decidable (Measured e) := inferInstanceAs (Decidable (_ ∧ _))

/-- The frames of a turn that came to an answer, as the service sends them. -/
def served (events : List (StageEvent ℚ)) (turn : TurnEvent) (traceUrl : Option String) : List TurnStreamEvent :=
  events.map .stage ++ [.turn turn, .trace traceUrl]

/-- The answer tells what the stages and the turn say, and no more. -/
structure Tells (a : Answer) (events : List (StageEvent ℚ)) (turn : TurnEvent) (traceUrl : Option String) : Prop where
  text : a.text = turn.text
  rail : a.rail = (settled events).map StageEvent.payload
  violations : a.violations = (events.flatMap found).map Violation.payload
  blocked : a.blocked = true ↔ ∃ e ∈ events, e.status = .blocked
  ns : a.metrics.ns = turn.ns
  tokensIn : a.metrics.tokensIn = if ∃ e ∈ events, Measured e then some ((totals events).tokensIn : ℚ) else none
  tokensOut : a.metrics.tokensOut = if ∃ e ∈ events, Measured e then some ((totals events).tokensOut : ℚ) else none
  costUsd : a.metrics.costUsd = (totals events).cost
  traceUrl : a.metrics.traceUrl = traceUrl

theorem read_stages (x : Sending) {events : List (StageEvent ℚ)} {acc : TurnAccumulator}
    (h : (events.map StageEvent.payload).foldlM accumulateStage x.acc = some acc) :
    (events.map TurnStreamEvent.stage).foldlM Sending.read x = some { x with acc } := by
  induction events generalizing x with
  | nil =>
    cases h
    rfl
  | cons e rest ih =>
    rw [List.map_cons, List.foldlM_cons, Option.bind_eq_bind, Option.bind_eq_some_iff] at h
    obtain ⟨next, hnext, h⟩ := h
    rw [List.map_cons, List.foldlM_cons, Sending.read, hnext, Option.map_some, Option.bind_eq_bind, Option.bind_some]
    exact ih { x with acc := next } h

/-- What is read of a turn that came to an answer tells what the service sent. -/
theorem read_served (threadId message : String) (events : List (StageEvent ℚ)) (turn : TurnEvent)
    (traceUrl : Option String) :
    ∃ x a, (served events turn traceUrl).foldlM Sending.read (.start threadId message) = some x ∧
      x.outcome = .agent a ∧ Tells a events turn traceUrl := by
  obtain ⟨acc, hacc, hshows, hkeeps, hblocked⟩ := accumulate_keeps events
  have hstages := read_stages (.start threadId message) hacc
  refine ⟨{ Sending.start threadId message with acc, turn := some turn, traceUrl }, _, ?_, rfl, ?_⟩
  · rw [served, List.foldlM_append, hstages]
    rfl
  · have hsaw := hkeeps.sawUsage
    constructor
    case text | ns | traceUrl => rfl
    case rail => exact hkeeps.rail
    case violations => exact hkeeps.violations
    case blocked => exact hblocked
    case costUsd => exact hshows.costUsd
    case tokensIn =>
      show (if acc.sawUsage then some acc.tokensIn else none) = _
      simp only [hsaw, hshows.tokensIn]
    case tokensOut =>
      show (if acc.sawUsage then some acc.tokensOut else none) = _
      simp only [hsaw, hshows.tokensOut]

/-- The frames of a turn that failed. -/
def failed (events : List (StageEvent ℚ)) (status : Nat) (detail : String) (traceUrl : Option String) :
    List TurnStreamEvent :=
  events.map .stage ++ [.error status detail, .trace traceUrl]

theorem read_failed (threadId message : String) (events : List (StageEvent ℚ)) (status : Nat) (detail : String)
    (traceUrl : Option String) :
    ∃ x, (failed events status detail traceUrl).foldlM Sending.read (.start threadId message) = some x ∧
      x.outcome = .error status detail traceUrl := by
  obtain ⟨acc, hacc, -⟩ := accumulate_keeps events
  have hstages := read_stages (.start threadId message) hacc
  refine ⟨{ Sending.start threadId message with acc, failure := some (status, detail), traceUrl }, ?_, rfl⟩
  rw [failed, List.foldlM_append, hstages]
  rfl

section Served
variable {spec : GuardSpec} {mode : Mode} {history : List Message} {n : Narrated ℚ}

/-- Of a turn that comes to an answer only a gate's cell is blocked. -/
theorem run_blocked {content : Content} {call : ModelCall ℚ} (hending : n.ending = .answers content call) :
    (∃ e ∈ (n.run spec mode history).1, e.status = .blocked) ↔ Refused spec mode n.turn ∨
      ¬ Refused spec mode n.turn ∧ .guardOut ∈ mode.mounts ∧
        ¬ Passes spec.outputCheck content.text := by
  by_cases hrefused : Refused spec mode n.turn
  · rw [run_refused hrefused]
    exact iff_of_true ⟨_, List.mem_cons_self, rfl⟩ (Or.inl hrefused)
  · rw [run_through hrefused hending, or_iff_right hrefused, and_iff_right hrefused]
    have hopen := (@openCell_kind ℚ mode (n.gateNs .guardIn)).2.2
    rw [← @closeCell_blocked ℚ spec mode content.text (n.gateNs .guardOut)]
    constructor
    · rintro ⟨e, he, hblocked⟩
      rcases List.mem_append.mp he with he | he
      · rcases List.mem_cons.mp he with rfl | he
        · exact absurd hblocked hopen
        · exact absurd hblocked (loopFrames_unblocked hending e he)
      · rcases List.mem_cons.mp he with rfl | he
        · exact hblocked
        · obtain rfl := List.mem_singleton.mp he
          cases hblocked
    · intro hblocked
      exact ⟨_, List.mem_append_right _ List.mem_cons_self, hblocked⟩

/-- A turn that comes to an answer has one. -/
theorem run_answer {content : Content} {call : ModelCall ℚ} (hending : n.ending = .answers content call) :
    (runTurn spec mode history n.turn).answer = some (finalText (n.run spec mode history).2) := by
  have hfailed : (runTurn spec mode history n.turn).failed = false := by
    by_cases hrefused : Refused spec mode n.turn
    · rw [runTurn_refused hrefused]
    · rw [(runTurn_through hrefused).failed]
      show n.ending.ending.failed = false
      rw [hending]
      rfl
  rw [TurnRun.answer, hfailed, run_messages]
  rfl

end Served

/-- The events that bring these frames. -/
def bringing (k : Nat) (frames : List TurnStreamEvent) : List Event := frames.map (.frame k)

theorem framesOf_bringing (k : Nat) (frames : List TurnStreamEvent) : framesOf k (bringing k frames) = frames := by
  simp [framesOf, bringing, List.filterMap_map]

theorem bringing_open {k : Nat} {frames : List TurnStreamEvent} : ∀ e ∈ bringing k frames, ¬ e.Ends k := by
  simp [bringing, Event.Ends]

/-- A turn with one model call. -/
def balanceTurn : Narrated ℚ where
  message := "saldo"
  gateNs _ := 1600
  ending := .answers (.str "R$ 10") ⟨1470000000, ⟨1400, 60, none⟩⟩

def balanceFrames : List TurnStreamEvent :=
  served (balanceTurn.run {} .both []).1 ⟨"t1", finalText (balanceTurn.run {} .both []).2, some 1480000000⟩ none

end BankingControlPlane.Browser
