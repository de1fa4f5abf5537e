import BankingControlPlane.Ui.App

/-!
# The page, seen as a conversation

* `View`, `Act`, `View.act` : the entries, the composer and the turns on their way, and what is done to them;
* `App.view_step` : every event does to the view what its act says, and nothing else;
* `View.Sound`, `App.sound_reached` : one turn at a time, ids of their own, the running turn last.
-/

namespace BankingControlPlane.Browser
open Json

/-! ## Calls -/

/-- The turn a call is. -/
def Call.turn? : Call → Option Sending
  | .streamTurn x => some x
  | _ => none

/-- The turn that is being streamed under this number. -/
def App.turnAt (s : App) (k : Nat) : Option Sending := (s.inFlight k).bind Call.turn?

section Calls
variable {s : App} {k : Nat} {c : Call} {x : Sending}

theorem inFlight_lt (h : s.inFlight k = some c) : k < s.calls.length := by
  by_contra hlong
  rw [App.inFlight, List.getElem?_eq_none (Nat.le_of_not_lt hlong)] at h
  cases h

theorem turnAt_eq (h : s.turnAt k = some x) : s.inFlight k = some (.streamTurn x) := by
  obtain ⟨c, hc, hturn⟩ := Option.bind_eq_some_iff.mp h
  cases c <;> cases hturn
  exact hc

theorem turnAt_streamTurn (h : s.inFlight k = some (.streamTurn x)) : s.turnAt k = some x := by
  rw [App.turnAt, h]
  rfl

theorem turnAt_other (h : s.inFlight k = some c) (hc : c.turn? = none) : s.turnAt k = none := by
  rw [App.turnAt, h]
  exact hc

theorem turnAt_fresh (s : App) : s.turnAt s.calls.length = none := by
  rw [App.turnAt, App.inFlight, List.getElem?_eq_none (Nat.le_refl _)]
  rfl

theorem turnAt_call (s : App) (c : Call) :
    (s.call c).turnAt = Function.update s.turnAt s.calls.length c.turn? := by
  funext j
  unfold App.turnAt App.inFlight App.call
  rcases Nat.lt_trichotomy j s.calls.length with hlt | rfl | hgt
  · rw [Function.update_of_ne (Nat.ne_of_lt hlt), List.getElem?_append_left hlt]
  · rw [Function.update_self, List.getElem?_append_right (Nat.le_refl _), Nat.sub_self]
    rfl
  · rw [Function.update_of_ne (Nat.ne_of_gt hgt), List.getElem?_eq_none (Nat.le_of_lt hgt),
      List.getElem?_eq_none (by simpa using Nat.succ_le_of_lt hgt)]

theorem turnAt_set (hk : k < s.calls.length) (c : Option Call) :
    { s with calls := s.calls.set k c }.turnAt = Function.update s.turnAt k (c.bind Call.turn?) := by
  funext j
  unfold App.turnAt App.inFlight
  by_cases hj : j = k
  · rw [hj, Function.update_self, List.getElem?_set_self hk]
    rfl
  · rw [Function.update_of_ne hj, List.getElem?_set_ne (Ne.symm hj)]

end Calls

/-! ## The conversation, and the turns on their way

What of the page has to do with them, and what is done to it. -/

structure View where
  turns : Nat → Option Sending
  thread : Option StartThreadResponse
  entries : List Entry
  counter : Nat
  busy : Bool

inductive Act where
  | nothing
  | turned (thread : Option StartThreadResponse) (page : List Shown)
  | asked (k : Nat) (x : Sending)
  | read (k : Nat) (next : Sending) (staged : Bool)
  | landed (k : Nat) (x : Sending)
  | refused (k : Nat)

namespace View

/-- One entry more. -/
def add (v : View) (shown : Shown) : View :=
  { v with entries := v.entries ++ [⟨nextId v.counter, shown⟩], counter := v.counter + 1 }

def put (v : View) (k : Nat) (x : Option Sending) : View := { v with turns := Function.update v.turns k x }

def act (v : View) : Act → View
  | .nothing => v
  | .turned thread page => page.foldl add { v with thread, entries := [] }
  | .asked k x => ({ v with busy := true }.add (.user x.message)).put k (some x)
  | .read k next staged =>
    { v with entries := if staged then withLiveRail v.entries next.acc else v.entries }.put k (some next)
  | .landed k x => ({ v with entries := withoutLive v.entries, busy := false }.add x.outcome).put k none
  | .refused k => v.put k none

end View

/-- A frame that is shown at once. -/
def TurnStreamEvent.staged : TurnStreamEvent → Bool
  | .stage _ => true
  | _ => false

namespace App

def view (s : App) : View :=
  { turns := s.turnAt, thread := s.thread, entries := s.entries, counter := s.counter, busy := s.busy }

/-- How the end of a turn is taken. -/
def endsAs (k : Nat) (x : Sending) : Option Thrown → Act
  | none => .landed k x
  | some error => if error.unauthorized then .refused k else .landed k (x.broken error)

/-- How a message is sent: of the conversation that is open. -/
def asks (s : App) (message : String) : Act :=
  match s.thread with
  | none => .nothing
  | some thread => .asked s.calls.length { threadId := thread.threadId, message }

/-- What an event does to the view. -/
def act (s : App) : Event → Act
  | .submit text =>
    if s.session ∧ trim text ≠ "" ∧ s.busy = false then s.asks (trim text) else .nothing
  | .opened k (.ok opened) =>
    match s.inFlight k with
    | some .startThread => .turned (some opened) opened.page
    | _ => .nothing
  | .fetched k (.ok past) =>
    match s.inFlight k with
    | some (.fetchThread threadId) =>
      .turned (s.thread.map (StartThreadResponse.renamed threadId)) (past.map PastMessage.shown)
    | _ => .nothing
  | .frame k frame =>
    match s.inFlight k with
    | some (.streamTurn x) =>
      match x.read frame with
      | none => endsAs k x (some .other)
      | some next => .read k next frame.staged
    | _ => .nothing
  | .ended k thrown =>
    match s.inFlight k with
    | some (.streamTurn x) => endsAs k x thrown
    | _ => .nothing
  | _ => .nothing

section View
variable {s : App} {k : Nat} {c : Call} {x : Sending}

@[simp] theorem view_call (hc : c.turn? = none) : (s.call c).view = s.view := by
  have hturns : (s.call c).turnAt = s.turnAt := by
    rw [turnAt_call, hc, ← turnAt_fresh s, Function.update_eq_self]
  unfold view
  rw [hturns]
  rfl

theorem view_returned (hk : s.inFlight k = some c) : (s.returned k).view = s.view.put k none := by
  have hturns : (s.returned k).turnAt = Function.update s.turnAt k none := turnAt_set (inFlight_lt hk) none
  unfold view
  rw [hturns]
  rfl

theorem view_other (hk : s.inFlight k = some c) (hc : c.turn? = none) : (s.returned k).view = s.view := by
  rw [view_returned hk, View.put]
  show { s.view with turns := Function.update s.turnAt k none } = s.view
  rw [← turnAt_other hk hc, Function.update_eq_self]
  rfl

@[simp] theorem view_add (s : App) (shown : Shown) : (s.add shown).view = s.view.add shown := rfl

@[simp] theorem view_clearSession (s : App) : s.clearSession.view = s.view := rfl

theorem view_setEntries (s : App) (page : List Shown) :
    (s.setEntries page).view = page.foldl View.add { s.view with entries := [] } := by
  have hfold : ∀ s : App, (page.foldl add s).view = page.foldl View.add s.view := by
    induction page with
    | nil => exact fun s => rfl
    | cons shown page ih => exact fun s => ih (s.add shown)
  exact hfold _

theorem view_unauthorized (s t : App) (error : Thrown) :
    ((s.handleUnauthorized error).getD t).view = if error.unauthorized then s.view else t.view := by
  unfold handleUnauthorized
  split_ifs <;> rfl

theorem view_land (s : App) (x : Sending) :
    (s.land x).view = { s.view with entries := withoutLive s.entries, busy := false }.add x.outcome :=
  view_call rfl

theorem view_turnEnded (hk : s.inFlight k = some (.streamTurn x)) (thrown : Option Thrown) :
    ((s.returned k).turnEnded x thrown).view = s.view.act (endsAs k x thrown) := by
  cases thrown with
  | none =>
    rw [turnEnded, view_land, view_returned hk]
    rfl
  | some error =>
    rw [turnEnded, view_unauthorized, view_land, view_returned hk, endsAs]
    split_ifs <;> rfl

theorem view_frameRead (hk : s.inFlight k = some (.streamTurn x)) (frame : TurnStreamEvent) {next : Sending}
    (hnext : x.read frame = some next) :
    (s.frameRead k x frame).view = s.view.act (.read k next frame.staged) := by
  have hturns : { s with calls := s.calls.set k (some (.streamTurn next)) }.turnAt =
      Function.update s.turnAt k (some next) := turnAt_set (inFlight_lt hk) _
  unfold frameRead
  rw [hnext]
  cases frame with
  | stage event =>
    show View.mk _ _ _ _ _ = View.mk _ _ _ _ _
    exact congrArg (View.mk · s.thread (withLiveRail s.entries next.acc) s.counter s.busy) hturns
  | _ => exact congrArg (View.mk · s.thread s.entries s.counter s.busy) hturns

theorem view_streamTurn (s : App) (x : Sending) :
    (s.call (.streamTurn x)).view = s.view.put s.calls.length (some x) := by
  unfold view
  rw [turnAt_call]
  rfl

theorem asks_some {thread : StartThreadResponse} (h : s.thread = some thread) (message : String) :
    s.asks message = .asked s.calls.length { threadId := thread.threadId, message } := by
  rw [asks, h]

theorem view_send (s : App) (message : String) : (s.send message).view = s.view.act (s.asks message) := by
  unfold send
  split
  · next hthread => rw [asks, hthread, View.act]
  · next thread hthread =>
    rw [asks_some hthread, view_streamTurn]
    rfl

theorem view_threadOpened (hk : s.inFlight k = some .startThread) (result : Except Thrown StartThreadResponse) :
    ((s.returned k).threadOpened result).view = s.view.act (s.act (.opened k result)) := by
  have hview := view_other hk rfl
  cases result with
  | ok opened =>
    show (refreshThreads _).view = _
    rw [refreshThreads, view_call rfl, view_setEntries]
    simp only [act, hk, View.act]
    rw [← hview]
    rfl
  | error error =>
    show ((App.handleUnauthorized _ _).getD _).view = _
    rw [view_unauthorized]
    split_ifs
    · exact hview
    · exact hview

theorem view_threadFetched {threadId : String} (hk : s.inFlight k = some (.fetchThread threadId))
    (result : Except Thrown (List PastMessage)) :
    ((s.returned k).threadFetched threadId result).view = s.view.act (s.act (.fetched k result)) := by
  have hview := view_other hk rfl
  cases result with
  | ok past =>
    rw [threadFetched, view_setEntries]
    simp only [act, hk, View.act]
    rw [← hview]
    rfl
  | error error =>
    rw [threadFetched, view_unauthorized]
    split_ifs
    · exact hview
    · exact hview

theorem view_threadsFetched (hk : s.inFlight k = some .fetchThreads)
    (result : Except Thrown (List ThreadSummary × Bool)) :
    ((s.returned k).threadsFetched result).view = s.view := by
  cases result with
  | ok listed => exact view_other hk rfl
  | error error =>
    rw [threadsFetched, view_unauthorized, ite_self]
    exact view_other hk rfl

/-- **The page does to the view what its acts say**, and nothing else. -/
theorem view_step (s : App) (e : Event) : (s.step e).view = s.view.act (s.act e) := by
  cases e with
  | signIn =>
    simp only [step, act, View.act]
    split_ifs
    · rfl
    · unfold signIn
      split_ifs
      · rfl
      · exact view_call rfl
  | submit text =>
    simp only [step, act]
    split_ifs
    · exact view_send s (trim text)
    · rfl
  | new =>
    simp only [step, act, View.act]
    split_ifs
    · exact view_call rfl
    · rfl
  | select threadId =>
    simp only [step, act, View.act]
    split_ifs
    · exact view_call rfl
    · rfl
  | delete threadId =>
    simp only [step, act, View.act]
    split_ifs
    · exact view_call rfl
    · rfl
  | opened k result =>
    rcases hk : s.inFlight k with _ | c
    · cases result <;> simp only [step, act, hk] <;> rfl
    cases c with
    | startThread =>
      rw [← view_threadOpened hk]
      simp only [step, hk]
    | _ => cases result <;> simp only [step, act, hk] <;> rfl
  | fetched k result =>
    rcases hk : s.inFlight k with _ | c
    · cases result <;> simp only [step, act, hk] <;> rfl
    cases c with
    | fetchThread threadId =>
      rw [← view_threadFetched hk]
      simp only [step, hk]
    | _ => cases result <;> simp only [step, act, hk] <;> rfl
  | listed k result =>
    rcases hk : s.inFlight k with _ | c
    · simp only [step, act, hk, View.act]
    cases c with
    | fetchThreads =>
      simp only [step, act, hk, View.act]
      exact view_threadsFetched hk result
    | _ => simp only [step, act, hk, View.act]
  | deleted k =>
    rcases hk : s.inFlight k with _ | c
    · simp only [step, act, hk, View.act]
    cases c with
    | deleteThread threadId =>
      simp only [step, act, hk, View.act]
      rw [refreshThreads, view_call rfl]
      exact view_other hk rfl
    | _ => simp only [step, act, hk, View.act]
  | frame k frame =>
    rcases hk : s.inFlight k with _ | c
    · simp only [step, act, hk, View.act]
    cases c with
    | streamTurn x =>
      simp only [step, act, hk]
      cases hnext : x.read frame with
      | none =>
        unfold frameRead
        rw [hnext]
        exact view_turnEnded hk _
      | some next => exact view_frameRead hk frame hnext
    | _ => simp only [step, act, hk, View.act]
  | ended k thrown =>
    rcases hk : s.inFlight k with _ | c
    · simp only [step, act, hk, View.act]
    cases c with
    | streamTurn x =>
      simp only [step, act, hk]
      exact view_turnEnded hk thrown
    | _ => simp only [step, act, hk, View.act]

end View

end App

/-! ## One turn at a time -/

theorem nextId_injective : Function.Injective nextId := by
  intro m n h
  have htext : (toString (m + 1)).toList = (toString (n + 1)).toList := by
    have hlist := congrArg String.toList h
    simp only [nextId, String.toList_append] at hlist
    exact List.append_cancel_left hlist
  have hdigits : Nat.toDigits 10 (m + 1) = Nat.toDigits 10 (n + 1) := by
    simpa [Nat.toString_eq_ofList_toDigits] using htext
  have hsame := congrArg (fun digits => Nat.ofDigitChars 10 digits 0) hdigits
  simp only [Nat.ofDigitChars_ten_toDigits] at hsame
  exact Nat.succ_injective hsame

theorem nextId_ne_live (n : Nat) : nextId n ≠ liveId := by
  intro h
  have hlist := congrArg (fun id => id.toList.head?) h
  simp [nextId, liveId] at hlist

/-- What an act rests on. -/
def View.Fits (v : View) : Act → Prop
  | .nothing | .turned _ _ => True
  | .asked k x => v.turns k = none ∧ v.busy = false ∧
      ∃ thread, v.thread = some thread ∧ x = { threadId := thread.threadId, message := x.message }
  | .read k _ _ | .landed k _ | .refused k => (v.turns k).isSome

theorem fits_endsAs {v : View} {k : Nat} {x : Sending} (h : v.turns k = some x) (thrown : Option Thrown) :
    v.Fits (App.endsAs k x thrown) := by
  have hsome : (v.turns k).isSome := by rw [h]; rfl
  cases thrown with
  | none => exact hsome
  | some error =>
    rw [App.endsAs]
    split_ifs
    · exact hsome
    · exact hsome

theorem act_fits (s : App) (e : Event) : s.view.Fits (s.act e) := by
  cases e with
  | submit text =>
    simp only [App.act]
    split_ifs with h
    · cases hthread : s.thread with
      | none => simp only [App.asks, hthread, View.Fits]
      | some thread =>
        rw [App.asks_some hthread]
        exact ⟨turnAt_fresh s, h.2.2, thread, hthread, rfl⟩
    · trivial
  | opened k result =>
    cases result with
    | ok opened => simp only [App.act]; split <;> trivial
    | error error => trivial
  | fetched k result =>
    cases result with
    | ok past => simp only [App.act]; split <;> trivial
    | error error => trivial
  | frame k frame =>
    simp only [App.act]
    split
    · next x hk =>
      have hturn : s.view.turns k = some x := turnAt_streamTurn hk
      split
      · exact fits_endsAs hturn _
      · show (s.view.turns k).isSome = true
        rw [hturn]
        rfl
    · trivial
  | ended k thrown =>
    simp only [App.act]
    split
    · next x hk => exact fits_endsAs (turnAt_streamTurn hk) _
    · trivial
  | _ => trivial

/-- The entries have ids of their own, all of them given already. -/
structure Numbered (counter : Nat) (entries : List Entry) : Prop where
  nodup : (entries.map Entry.id).Nodup
  given : ∀ e ∈ entries, ∃ n < counter, e.id = nextId n

theorem Numbered.nil (counter : Nat) : Numbered counter [] := ⟨List.nodup_nil, fun _ h => by cases h⟩

theorem Numbered.add {counter : Nat} {entries : List Entry} (h : Numbered counter entries) (shown : Shown) :
    Numbered (counter + 1) (entries ++ [⟨nextId counter, shown⟩]) := by
  constructor
  · rw [List.map_append, List.map_singleton, ← List.concat_eq_append, List.nodup_concat]
    refine ⟨fun hmem => ?_, h.nodup⟩
    obtain ⟨e, he, hid⟩ := List.mem_map.mp hmem
    obtain ⟨n, hn, hgiven⟩ := h.given e he
    exact absurd (nextId_injective (hgiven.symm.trans hid)) (Nat.ne_of_lt hn)
  · intro e he
    rcases List.mem_append.mp he with he | he
    · obtain ⟨n, hn, hid⟩ := h.given e he
      exact ⟨n, Nat.lt_succ_of_lt hn, hid⟩
    · rw [List.mem_singleton.mp he]
      exact ⟨counter, Nat.lt_succ_self counter, rfl⟩

theorem Numbered.settled {counter : Nat} {entries : List Entry} (h : Numbered counter entries) :
    withoutLive entries = entries := by
  refine List.filter_eq_self.mpr fun e he => ?_
  obtain ⟨n, -, hid⟩ := h.given e he
  rw [hid]
  exact decide_eq_true (nextId_ne_live n)

theorem withoutLive_live (entries : List Entry) (shown : Shown) :
    withoutLive (withoutLive entries ++ [⟨liveId, shown⟩]) = withoutLive entries := by
  simp [withoutLive]

/-- The entry of a turn that is on its way is the last, and there is one at most. -/
def LiveLast (entries : List Entry) (running : Prop) : Prop :=
  entries = withoutLive entries ∨
    running ∧ ∃ rail, entries = withoutLive entries ++ [⟨liveId, .agent { text := "", rail }⟩]

theorem Numbered.liveLast {counter : Nat} {entries : List Entry} (h : Numbered counter entries) (running : Prop) :
    LiveLast entries running :=
  Or.inl h.settled.symm

namespace View

/-- One turn at a time; every entry has its own id; and nothing is shown of a turn that is not on its way. -/
structure Sound (v : View) : Prop where
  one : ∀ {j k x y}, v.turns j = some x → v.turns k = some y → j = k
  busy : ∀ {k x}, v.turns k = some x → v.busy = true
  numbered : Numbered v.counter (withoutLive v.entries)
  live : LiveLast v.entries (v.busy = true)

variable {v : View}

theorem numbered_page (page : List Shown) (v : View) (h : Numbered v.counter v.entries) :
    Numbered (page.foldl add v).counter (page.foldl add v).entries := by
  induction page generalizing v with
  | nil => exact h
  | cons shown page ih => exact ih (v.add shown) (h.add shown)

theorem page_turns (page : List Shown) (v : View) : (page.foldl add v).turns = v.turns := by
  induction page generalizing v with
  | nil => rfl
  | cons shown page ih => exact ih (v.add shown)

theorem page_busy (page : List Shown) (v : View) : (page.foldl add v).busy = v.busy := by
  induction page generalizing v with
  | nil => rfl
  | cons shown page ih => exact ih (v.add shown)

/-- A turn more or less is one at a time, where it is the only one. -/
theorem one_put {k : Nat} (x : Option Sending) (h : ∀ {j y}, v.turns j = some y → j = k) {i j : Nat} {y z : Sending}
    (hi : (v.put k x).turns i = some y) (hj : (v.put k x).turns j = some z) : i = j := by
  have honly : ∀ {i : Nat} {y : Sending}, (v.put k x).turns i = some y → i = k := by
    intro i y hi
    by_contra hne
    have hput : Function.update v.turns k x i = some y := hi
    rw [Function.update_of_ne hne] at hput
    exact hne (h hput)
  rw [honly hi, honly hj]

theorem Sound.act (h : v.Sound) {a : Act} (hfits : v.Fits a) : (v.act a).Sound := by
  have hlone : ∀ {k : Nat}, (v.turns k).isSome → ∀ {j y}, v.turns j = some y → j = k := by
    intro k hk j y hj
    obtain ⟨x, hx⟩ := Option.isSome_iff_exists.mp hk
    exact h.one hj hx
  cases a with
  | nothing => exact h
  | turned thread page =>
    have hpage := numbered_page page { v with thread, entries := [] } (.nil _)
    have hturns := page_turns page { v with thread, entries := [] }
    have hbusy := page_busy page { v with thread, entries := [] }
    constructor
    · intro j k x y hj hk
      rw [View.act, hturns] at hj hk
      exact h.one hj hk
    · intro k x hk
      rw [View.act, hturns] at hk
      rw [View.act, hbusy]
      exact h.busy hk
    · rw [View.act, hpage.settled]
      exact hpage
    · exact hpage.liveLast _
  | asked k x =>
    obtain ⟨hnone, hidle, -⟩ := hfits
    have hnoturn : ∀ {j y}, v.turns j = some y → j = k := by
      intro j y hj
      have hb := h.busy hj
      rw [hidle] at hb
      cases hb
    have hsettled : v.entries = withoutLive v.entries := by
      rcases h.live with hlive | ⟨hrunning, -⟩
      · exact hlive
      · rw [hidle] at hrunning
        cases hrunning
    have hmore : Numbered (v.counter + 1) (v.entries ++ [⟨nextId v.counter, .user x.message⟩]) := by
      rw [hsettled]
      exact h.numbered.add _
    constructor
    · intro i j y z hi hj
      exact one_put (some x) hnoturn hi hj
    · intro j y _
      rfl
    · show Numbered (v.counter + 1) (withoutLive (v.entries ++ _))
      rw [hmore.settled]
      exact hmore
    · exact hmore.liveLast _
  | read k next staged =>
    constructor
    · intro i j y z hi hj
      exact one_put (some next) (hlone hfits) hi hj
    · intro j y _
      obtain ⟨x, hx⟩ := Option.isSome_iff_exists.mp hfits
      exact h.busy hx
    · cases staged with
      | false => exact h.numbered
      | true =>
        show Numbered v.counter (withoutLive (withLiveRail v.entries next.acc))
        rw [withLiveRail, withoutLive_live]
        exact h.numbered
    · cases staged with
      | false => exact h.live
      | true =>
        obtain ⟨x, hx⟩ := Option.isSome_iff_exists.mp hfits
        refine Or.inr ⟨h.busy hx, next.acc.rail, ?_⟩
        show withLiveRail v.entries next.acc = withoutLive (withLiveRail v.entries next.acc) ++ _
        rw [withLiveRail, withoutLive_live]
  | landed k x =>
    have hmore := h.numbered.add x.outcome
    have hgone : ∀ {j : Nat} {y : Sending}, (v.act (.landed k x)).turns j = some y → False := by
      intro j y hj
      have hput : Function.update v.turns k none j = some y := hj
      by_cases hjk : j = k
      · rw [hjk, Function.update_self] at hput
        cases hput
      · rw [Function.update_of_ne hjk] at hput
        exact hjk (hlone hfits hput)
    constructor
    · intro i j y z hi _
      exact (hgone hi).elim
    · intro j y hj
      exact (hgone hj).elim
    · show Numbered (v.counter + 1) (withoutLive (withoutLive v.entries ++ _))
      rw [hmore.settled]
      exact hmore
    · exact hmore.liveLast _
  | refused k =>
    constructor
    · intro i j y z hi hj
      exact one_put none (hlone hfits) hi hj
    · intro j y _
      obtain ⟨x, hx⟩ := Option.isSome_iff_exists.mp hfits
      exact h.busy hx
    · exact h.numbered
    · exact h.live

end View

namespace App

theorem after_append (s : App) (es fs : List Event) : s.after (es ++ fs) = (s.after es).after fs :=
  List.foldl_append

theorem reached_snoc (es : List Event) (e : Event) : reached (es ++ [e]) = (reached es).step e :=
  after_append {} es [e]

theorem sound_step {s : App} (h : s.view.Sound) (e : Event) : (s.step e).view.Sound := by
  rw [view_step]
  exact h.act (act_fits s e)

theorem sound_start : ({} : App).view.Sound where
  one h := by cases h
  busy h := by cases h
  numbered := .nil _
  live := Or.inl rfl

theorem sound_after {s : App} (h : s.view.Sound) (es : List Event) : (s.after es).view.Sound := by
  induction es generalizing s with
  | nil => exact h
  | cons e es ih => exact ih (sound_step h e)

theorem sound_reached (es : List Event) : (reached es).view.Sound := sound_after sound_start es

end App

/-- The ids of a list that ends with the live entry, if it has one, are its own. -/
theorem LiveLast.nodup {counter : Nat} {entries : List Entry} {running : Prop} (h : LiveLast entries running)
    (hnumbered : Numbered counter (withoutLive entries)) : (entries.map Entry.id).Nodup := by
  rcases h with h | ⟨-, rail, h⟩
  · rw [h]
    exact hnumbered.nodup
  · rw [h, List.map_append, List.map_singleton, ← List.concat_eq_append, List.nodup_concat]
    refine ⟨fun hmem => ?_, hnumbered.nodup⟩
    obtain ⟨e, he, hid⟩ := List.mem_map.mp hmem
    exact absurd hid (of_decide_eq_true (List.mem_filter.mp he).2)

/-! ## What events act as -/

section Acts
variable {s : App} {e : Event} {k : Nat} {x next : Sending}

theorem endsAs_refused {j : Nat} {thrown : Option Thrown} (h : App.endsAs j x thrown = .refused k) :
    j = k ∧ ∃ message, thrown = some (.api 401 message) := by
  cases thrown with
  | none => cases h
  | some error =>
    rw [App.endsAs] at h
    split_ifs at h with hunauthorized
    cases error with
    | other => cases hunauthorized
    | api status message =>
      obtain rfl : status = 401 := of_decide_eq_true hunauthorized
      cases h
      exact ⟨rfl, message, rfl⟩

/-- Only the service refuses a turn, and only one that is on its way. -/
theorem act_refused (h : s.act e = .refused k) :
    ∃ message, e = .ended k (some (.api 401 message)) ∧ (s.turnAt k).isSome := by
  cases e with
  | frame j frame =>
    simp only [App.act] at h
    split at h
    · split at h
      · obtain ⟨-, message, hother⟩ := endsAs_refused h
        cases hother
      · cases h
    · cases h
  | ended j thrown =>
    simp only [App.act] at h
    split at h
    · next y hj =>
      obtain ⟨rfl, message, rfl⟩ := endsAs_refused h
      exact ⟨message, rfl, by rw [turnAt_streamTurn hj]; rfl⟩
    · cases h
  | submit text =>
    simp only [App.act] at h
    split_ifs at h
    unfold App.asks at h
    split at h <;> cases h
  | opened j result =>
    cases result with
    | ok opened => simp only [App.act] at h; split at h <;> cases h
    | error error => cases h
  | fetched j result =>
    cases result with
    | ok past => simp only [App.act] at h; split at h <;> cases h
    | error error => cases h
  | _ => cases h

theorem act_ended {thrown : Option Thrown} (hk : s.turnAt k = some x) :
    s.act (.ended k thrown) = App.endsAs k x thrown := by
  simp only [App.act, turnAt_eq hk]

theorem act_frame {frame : TurnStreamEvent} (hk : s.turnAt k = some x) (hnext : x.read frame = some next) :
    s.act (.frame k frame) = .read k next frame.staged := by
  simp only [App.act, turnAt_eq hk, hnext]

end Acts

end BankingControlPlane.Browser
