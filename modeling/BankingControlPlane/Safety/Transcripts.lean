import BankingControlPlane.Runtime.Service

/-!
# Conversations of different customers

* `Only` : all that a thread has, in the index, in the checkpointer and under way, is one customer's;
* `Kept` : every thread is one customer's, and so were every reply and the start of every run;
* `Undisputed` : a turn on a thread without an owner finds nobody else's messages there, and nobody else busy;
* `transcripts_isolated` : along runs in which every step is undisputed, nobody is told or shown what was said
  to another.
-/

namespace BankingControlPlane.Http
open Keyed

variable {s s' : Service} {c customer : Customer} {t thread : ThreadId} {job : Job} {id : Nat}
  {outside : Outside} {message : String} {streamed : Bool} {phase : Phase} {messages : List (By Message)}

/-! ## Threads of one customer -/

def Row.Of (c : Customer) (row : Row) : Prop := row.owner = some c ∧ row.title.author = c

def Phase.Of (c : Customer) : Phase → Prop
  | .noted seen => ∀ row ∈ seen, row.Of c
  | .loaded messages | .running messages => ∀ m ∈ messages, m.author = c
  | .admitted | .recorded | .answered => True

/-- The job is the customer's, unless it deletes, which shows nothing. -/
def Job.Of (c : Customer) (job : Job) : Prop :=
  match job.doing with
  | .turn _ _ phase => job.customer = c ∧ phase.Of c
  | .reading => job.customer = c
  | .deleting => True

/-- All that the thread has is the customer's. -/
structure Only (s : Service) (t : ThreadId) (c : Customer) : Prop where
  rows : ∀ row ∈ s.index, row.thread = t → row.Of c
  said : ∀ m ∈ s.checkpoints t, m.author = c
  jobs : ∀ job ∈ s.jobs, job.thread = t → job.Of c

theorem Only.reply (h : Only s t c) (r : Reply) : Only (s.reply customer r) t c :=
  ⟨h.rows, h.said, h.jobs⟩

theorem Only.put (h : Only s t c) (hjob : job.thread = t → job.Of c) : Only (s.put job) t c := by
  refine ⟨h.rows, h.said, fun other hother hthread => ?_⟩
  rcases mem_upsert _ hother with rfl | hother
  · exact hjob hthread
  · exact h.jobs other hother hthread

theorem Only.close (h : Only s t c) : Only (s.close job) t c :=
  ⟨h.rows, h.said, fun other hother => h.jobs other (List.mem_of_mem_filter hother)⟩

theorem Only.save (h : Only s t c) (hmessages : t = thread → ∀ m ∈ messages, m.author = c) :
    Only (s.save thread messages) t c := by
  refine ⟨h.rows, fun m hm => ?_, h.jobs⟩
  simp only [Service.save] at hm
  split_ifs at hm with ht
  · exact hmessages ht m hm
  · exact h.said m hm

theorem Only.index (h : Only s t c) {index : List Row}
    (hindex : ∀ row ∈ index, row.thread = t → row ∈ s.index ∨ row.Of c) : Only { s with index := index } t c := by
  refine ⟨fun row hrow hthread => ?_, h.said, h.jobs⟩
  rcases hindex row hrow hthread with hold | hnew
  · exact h.rows row hold hthread
  · exact hnew

/-- The owner the index names. -/
theorem Only.owner (h : Only s t c) {owner : Customer} (howner : ownerOf s.index t = some owner) : owner = c := by
  unfold ownerOf at howner
  cases hfind : find Row.thread s.index t with
  | none => rw [hfind] at howner; cases howner
  | some row =>
    rw [hfind] at howner
    have hrow := (h.rows row (mem_of_find _ hfind) (key_of_find _ hfind)).1
    exact Option.some.inj (howner.symm.trans hrow)

theorem Only.visible (h : Only s t c) (hvisible : visibleTo s.index t customer = true) : customer = c := by
  obtain ⟨row, hrow, hthread, howner⟩ := visibleTo_row hvisible
  exact Option.some.inj (howner.symm.trans (h.rows row hrow hthread).1)

/-! ## What every step keeps -/

/-- The texts of the reply are from turns of the one it goes to. -/
def Own (told : Customer × Reply) : Prop := ∀ a ∈ told.2.authors, a = told.1

/-- The run starts from messages of turns of its customer. -/
def OwnStart (run : Customer × List (By Message)) : Prop := ∀ m ∈ run.2, m.author = run.1

/-- Nobody was told what another customer's turn said, and no run for anybody started from it. -/
structure Isolated (s : Service) : Prop where
  replies : ∀ told ∈ s.replies, Own told
  runs : ∀ run ∈ s.runs, OwnStart run

/-- Every thread is one customer's, and what was answered so far was. -/
structure Kept (s : Service) : Prop extends Isolated s where
  apart : ∀ t, ∃ c, Only s t c

/-- A step that leaves every thread with its customer. -/
theorem Kept.of_only (h : Kept s) (honly : ∀ t c, Only s t c → Only s' t c)
    (hreplies : ∀ told ∈ s'.replies, told ∈ s.replies ∨ Own told)
    (hruns : ∀ run ∈ s'.runs, run ∈ s.runs ∨ OwnStart run) : Kept s' where
  replies told htold := (hreplies told htold).elim (h.replies told) fun hown => hown
  runs run hrun := (hruns run hrun).elim (h.runs run) fun hown => hown
  apart t := (h.apart t).imp fun c hc => honly t c hc

/-- A step that answers nothing and starts no run. -/
theorem Kept.of_apart (h : Kept s) (hreplies : s'.replies = s.replies) (hruns : s'.runs = s.runs)
    (hapart : ∀ t, ∃ c, Only s' t c) : Kept s' where
  replies := hreplies ▸ h.replies
  runs := hruns ▸ h.runs
  apart := hapart

theorem Kept.reply (h : Kept s) {r : Reply} (hown : ∀ a ∈ r.authors, a = customer) :
    Kept (s.reply customer r) := by
  refine h.of_only (fun t c hc => hc.reply r) (fun told htold => ?_) fun run hrun => Or.inl hrun
  rcases List.mem_append.mp htold with htold | htold
  · exact Or.inl htold
  · rw [List.mem_singleton.mp htold]
    exact Or.inr hown

theorem Kept.put (h : Kept s) (hjob : ∀ c, Only s job.thread c → job.Of c) : Kept (s.put job) :=
  h.of_only (fun _ _ hc => hc.put fun ht => hjob _ (ht ▸ hc)) (fun _ h => Or.inl h) fun _ h => Or.inl h

theorem Kept.close (h : Kept s) : Kept (s.close job) :=
  h.of_only (fun _ _ hc => hc.close) (fun _ h => Or.inl h) fun _ h => Or.inl h

theorem Kept.save (h : Kept s) (hmessages : ∀ c, Only s thread c → ∀ m ∈ messages, m.author = c) :
    Kept (s.save thread messages) :=
  h.of_only (fun _ _ hc => hc.save fun ht => hmessages _ (ht ▸ hc)) (fun _ h => Or.inl h) fun _ h => Or.inl h

theorem Kept.index (h : Kept s) {index : List Row}
    (hindex : ∀ t c, Only s t c → ∀ row ∈ index, row.thread = t → row ∈ s.index ∨ row.Of c) :
    Kept { s with index := index } :=
  h.of_only (fun t c hc => hc.index (hindex t c hc)) (fun _ h => Or.inl h) fun _ h => Or.inl h

/-- The job is a turn of the customer whose thread it is. -/
theorem Only.turn (h : Only s job.thread c) (hjob : job ∈ s.jobs) (hdoing : job.doing = .turn message streamed phase) :
    job.customer = c ∧ phase.Of c := by
  have hof := h.jobs job hjob rfl
  rwa [Job.Of, hdoing] at hof

section Turn
variable (h : Kept s) (hcustomer : ∀ c, Only s job.thread c → job.customer = c)
include h hcustomer

theorem Kept.load : Kept (s.load job message streamed) := by
  obtain ⟨owner, howner⟩ := h.apart job.thread
  have hput : Kept (s.put (job.at message streamed (.loaded (s.checkpoints job.thread)))) :=
    h.put fun c hc => ⟨hcustomer c hc, hc.said⟩
  refine hput.of_only (fun t c hc => ⟨hc.rows, hc.said, hc.jobs⟩) (fun _ h => Or.inl h) fun run hrun => ?_
  rcases List.mem_append.mp hrun with hrun | hrun
  · exact Or.inl hrun
  · rw [List.mem_singleton.mp hrun]
    exact Or.inr fun m hm => (howner.said m hm).trans (hcustomer owner howner).symm

theorem Kept.note : Kept (s.note job message streamed) :=
  h.put fun c hc => ⟨hcustomer c hc, fun row hrow =>
    hc.rows row (mem_of_find _ hrow) (key_of_find _ hrow)⟩

theorem Kept.record (message : String) (outside : Outside) {seen : Option Row} (hseen : ∀ c, Only s job.thread c → ∀ row ∈ seen, row.Of c) :
    Kept (s.record job message outside seen) ∧
      (s.record job message outside seen).jobs = s.jobs ∧
      ∀ c, Only (s.record job message outside seen) job.thread c → job.customer = c := by
  unfold Service.record
  cases hrow : recordTurn seen job.thread message job.customer outside.now outside.later with
  | none => exact ⟨h, rfl, hcustomer⟩
  | some row =>
    obtain ⟨owner, howner⟩ := h.apart job.thread
    have hown := hcustomer owner howner
    obtain ⟨hthread, hrowner, hauthor⟩ := recordTurn_owned hrow fun old hold => by
      rw [hown]
      exact (hseen owner howner old hold).2
    refine ⟨h.index fun t c hc other hother ht => ?_, rfl, fun c hc => ?_⟩
    · rcases mem_upsert _ hother with rfl | hother
      · rw [hthread] at ht
        subst ht
        have hc := hcustomer c hc
        exact Or.inr ⟨hc ▸ hrowner, hc ▸ hauthor⟩
      · exact Or.inl hother
    · -- the row that was written names its owner
      have hmem : row ∈ upsert Row.thread s.index row := mem_of_find _ (find_upsert_self _ _ row)
      exact Option.some.inj (hrowner.symm.trans (hc.rows row hmem hthread).1)

theorem Kept.say (messages : List (By Message)) (m : Message)
    (hmessages : ∀ c, Only s job.thread c → ∀ m ∈ messages, m.author = c) :
    Kept ((s.put (job.at message streamed (.running (messages ++ [⟨job.customer, m⟩])))).save job.thread
      (messages ++ [⟨job.customer, m⟩])) := by
  have hall : ∀ c, Only s job.thread c → ∀ m' ∈ messages ++ [⟨job.customer, m⟩], m'.author = c := by
    intro c hc m' hm'
    rcases List.mem_append.mp hm' with hm' | hm'
    · exact hmessages c hc m' hm'
    · rw [List.mem_singleton.mp hm']
      exact hcustomer c hc
  have hput : ∀ t c, Only s t c →
      Only (s.put (job.at message streamed (.running (messages ++ [⟨job.customer, m⟩])))) t c :=
    fun t c hc => hc.put fun ht => ⟨hcustomer c (ht ▸ hc), hall c (ht ▸ hc)⟩
  exact h.of_only (fun t c hc => (hput t c hc).save fun ht => hall c (ht ▸ hc)) (fun _ h => Or.inl h)
    fun _ h => Or.inl h

theorem Kept.ended : Kept (s.ended job message streamed) := by
  unfold Service.ended
  by_cases hstreamed : streamed = true
  · rw [if_pos hstreamed]
    exact h.put fun c hc => ⟨hcustomer c hc, trivial⟩
  · rw [if_neg hstreamed]
    exact h.close

end Turn

/-- A turn goes on. -/
theorem Kept.goTurn (h : Kept s) (hjob : job ∈ s.jobs) (hdoing : job.doing = .turn message streamed phase)
    (hstep : s.goTurn job outside message streamed phase = some s') : Kept s' := by
  have hof : ∀ c, Only s job.thread c → job.customer = c ∧ phase.Of c := fun c hc => hc.turn hjob hdoing
  have hcustomer : ∀ c, Only s job.thread c → job.customer = c := fun c hc => (hof c hc).1
  unfold Service.goTurn at hstep
  cases phase with
  | admitted =>
    dsimp only at hstep
    split_ifs at hstep
    · exact Option.some.inj hstep ▸ h.load hcustomer
    · exact Option.some.inj hstep ▸ h.note hcustomer
  | noted seen =>
    obtain ⟨hrecord, -, hstill⟩ := h.record hcustomer message outside
      fun c hc => (hof c hc).2
    dsimp only at hstep
    split_ifs at hstep
    · exact Option.some.inj hstep ▸ hrecord.close
    · exact Option.some.inj hstep ▸ hrecord.put fun c hc => ⟨hstill c hc, trivial⟩
  | recorded =>
    dsimp only at hstep
    split_ifs at hstep
    exact Option.some.inj hstep ▸ h.load hcustomer
  | loaded messages => exact Option.some.inj hstep ▸ h.say hcustomer messages _ fun c hc => (hof c hc).2
  | running messages => cases hstep
  | answered =>
    dsimp only at hstep
    split_ifs at hstep
    exact Option.some.inj hstep ▸ h.note hcustomer

/-- A transcript is as much one customer's as the messages are. -/
theorem transcript_author (hmessages : ∀ m ∈ messages, m.author = c) :
    ∀ m ∈ transcript messages, m.author = c := by
  intro m hm
  obtain ⟨source, hsource, hreadable⟩ := List.mem_filterMap.mp hm
  obtain ⟨readable, -, rfl⟩ := Option.map_eq_some_iff.mp hreadable
  exact hmessages source hsource

theorem Kept.goJob (h : Kept s) (hjob : job ∈ s.jobs) (hstep : s.goJob job outside = some s') : Kept s' := by
  unfold Service.goJob at hstep
  cases hdoing : job.doing with
  | turn message streamed phase =>
    rw [hdoing] at hstep
    exact h.goTurn hjob hdoing hstep
  | reading =>
    rw [hdoing] at hstep
    obtain ⟨owner, howner⟩ := h.apart job.thread
    have hof := howner.jobs job hjob rfl
    rw [Job.Of, hdoing] at hof
    refine Option.some.inj hstep ▸ h.close.reply fun a ha => ?_
    obtain ⟨m, hm, rfl⟩ := List.mem_map.mp ha
    exact (transcript_author howner.said m hm).trans hof.symm
  | deleting =>
    rw [hdoing] at hstep
    have hclosed : Kept (s.close job) := h.close
    have hforgotten : Kept { s.close job with index := forget s.index job.thread } :=
      hclosed.index fun _ _ _ row hrow _ => Or.inl (List.mem_of_mem_filter hrow)
    exact Option.some.inj hstep ▸ hforgotten.reply fun a ha => by cases ha

/-! ## Admission -/

/-- The customer has messages on the thread, or a turn or a transcript request under way on it. -/
def Present (s : Service) (t : ThreadId) (c : Customer) : Prop :=
  (∃ m ∈ s.checkpoints t, m.author = c) ∨
    ∃ job ∈ s.jobs, job.thread = t ∧ job.customer = c ∧ job.doing ≠ .deleting

/-- A turn on a thread that the index names no owner for finds nobody else there. -/
def Undisputed (s : Service) : Action → Prop
  | .ask _ customer request _ => ∀ thread message streamed, request.op = .ok (.turn thread message streamed) →
      ownerOf s.index thread = none → ∀ c, Present s thread c → c = customer
  | _ => True

/-- A thread that names no owner goes to whoever is alone on it. -/
theorem Only.claimed (h : Only s t c) (howner : ownerOf s.index t = none)
    (hpresent : ∀ c, Present s t c → c = customer) : Only s t customer := by
  have hrows : ∀ row ∈ s.index, row.thread ≠ t := by
    intro row hrow hthread
    unfold ownerOf at howner
    cases hfind : find Row.thread s.index t with
    | none => exact (find_eq_none _).mp hfind row hrow hthread
    | some first =>
      rw [hfind] at howner
      have hfirst := (h.rows first (mem_of_find _ hfind) (key_of_find _ hfind)).1
      exact absurd (howner.symm.trans hfirst) (by simp)
  refine ⟨fun row hrow hthread => absurd hthread (hrows row hrow),
    fun m hm => hpresent _ (Or.inl ⟨m, hm, rfl⟩), fun job hjob hthread => ?_⟩
  have hof := h.jobs job hjob hthread
  unfold Job.Of at hof ⊢
  cases hdoing : job.doing with
  | turn message streamed phase =>
    rw [hdoing] at hof
    have hcustomer : job.customer = customer :=
      hpresent _ (Or.inr ⟨job, hjob, hthread, rfl, fun h => by rw [hdoing] at h; cases h⟩)
    have hc : c = customer := hof.1.symm.trans hcustomer
    exact hc ▸ hof
  | reading => exact hpresent _ (Or.inr ⟨job, hjob, hthread, rfl, fun h => by rw [hdoing] at h; cases h⟩)
  | deleting => trivial

theorem Kept.admit (h : Kept s) (hpresent : ownerOf s.index thread = none → ∀ c, Present s thread c → c = customer)
    (howner : ∀ owner ∈ ownerOf s.index thread, owner = customer) :
    Kept (s.put ⟨id, customer, thread, .turn message streamed .admitted⟩) := by
  obtain ⟨c, hc⟩ := h.apart thread
  have hcustomer : Only s thread customer := by
    cases hfind : ownerOf s.index thread with
    | none => exact hc.claimed hfind (hpresent hfind)
    | some owner => exact howner owner hfind ▸ hc.owner hfind ▸ hc
  have hadmitted : Only (s.put ⟨id, customer, thread, .turn message streamed .admitted⟩) thread customer :=
    hcustomer.put fun _ => ⟨rfl, trivial⟩
  refine h.of_apart rfl rfl fun t => ?_
  by_cases ht : t = thread
  · exact ⟨customer, ht ▸ hadmitted⟩
  · obtain ⟨c', hc'⟩ := h.apart t
    exact ⟨c', hc'.put fun hthread => absurd hthread.symm ht⟩

/-- A thread with a new id is whose it was opened for. -/
theorem Kept.opened (h : Kept s) (hfresh : s.Fresh thread) (now : String) :
    Kept { s with index := openThread s.index thread customer now } := by
  have hother : ∀ row ∈ openThread s.index thread customer now, row ∈ s.index ∨
      row.thread = thread ∧ row.Of customer := by
    intro row hrow
    rcases mem_upsert _ hrow with rfl | hrow
    · exact Or.inr ⟨rfl, rfl, rfl⟩
    · exact Or.inl hrow
  refine h.of_apart rfl rfl fun t => ?_
  by_cases ht : t = thread
  · subst ht
    obtain ⟨hrows, hsaid, hjobs⟩ := hfresh
    refine ⟨customer, fun row hrow hthread => ?_, fun m hm => ?_, fun job hjob hthread =>
      absurd hthread (hjobs job hjob)⟩
    · exact (hother row hrow).elim (fun hold => absurd hthread (hrows row hold)) And.right
    · rw [show s.checkpoints t = [] from hsaid] at hm
      cases hm
  · obtain ⟨c', hc'⟩ := h.apart t
    refine ⟨c', hc'.index fun row hrow hthread => ?_⟩
    exact (hother row hrow).elim Or.inl fun hnew => absurd (hthread.symm.trans hnew.1) ht

theorem Kept.begin (h : Kept s) {op : Op} (hop : ∀ thread message streamed, op = .turn thread message streamed →
    ownerOf s.index thread = none → ∀ c, Present s thread c → c = customer)
    (hstep : s.begin id customer outside op = some s') : Kept s' := by
  unfold Service.begin at hstep
  cases op with
  | start =>
    dsimp only at hstep
    split_ifs at hstep with hfresh
    exact Option.some.inj hstep ▸ (h.opened hfresh _).reply fun a ha => by cases ha
  | turn thread message streamed =>
    dsimp only at hstep
    have hpresent := hop thread message streamed rfl
    cases howner : ownerOf s.index thread with
    | none =>
      rw [howner] at hstep
      refine Option.some.inj hstep ▸ h.admit hpresent fun owner hmem => ?_
      rw [howner] at hmem
      cases hmem
    | some owner =>
      rw [howner] at hstep
      dsimp only at hstep
      split_ifs at hstep with hother
      · exact Option.some.inj hstep ▸ h.reply fun a ha => by cases ha
      · refine Option.some.inj hstep ▸ h.admit hpresent fun other hmem => ?_
        rw [howner] at hmem
        cases hmem
        exact not_not.mp hother
  | list limit offset =>
    dsimp only at hstep
    split_ifs at hstep with hfound
    refine Option.some.inj hstep ▸ h.reply fun a ha => ?_
    obtain ⟨summary, hsummary, rfl⟩ := List.mem_map.mp ha
    obtain ⟨row, hrow, howner, rfl⟩ := mem_listThreads hsummary
    -- the row names the customer, and its title is from its owner's turn
    obtain ⟨c, hc⟩ := h.apart row.thread
    obtain ⟨hrowner, hauthor⟩ := hc.rows row (hfound.2 row hrow) rfl
    exact hauthor.trans (Option.some.inj (hrowner.symm.trans howner))
  | read thread =>
    dsimp only at hstep
    split_ifs at hstep with hvisible
    · exact Option.some.inj hstep ▸ h.put fun c hc => hc.visible hvisible
    · exact Option.some.inj hstep ▸ h.reply fun a ha => by cases ha
  | delete thread =>
    dsimp only at hstep
    split_ifs at hstep with hvisible
    · exact Option.some.inj hstep ▸ h.put fun c hc => trivial
    · exact Option.some.inj hstep ▸ h.reply fun a ha => by cases ha

/-- A job for which an agent runs. -/
theorem running_job (h : s.running id = some (job, message, streamed, messages)) :
    job ∈ s.jobs ∧ job.doing = .turn message streamed (.running messages) := by
  unfold Service.running at h
  cases hfind : find Job.id s.jobs id with
  | none => rw [hfind] at h; cases h
  | some other =>
    rw [hfind] at h
    dsimp only at h
    split at h
    · rename_i hdoing
      cases h
      exact ⟨mem_of_find _ hfind, hdoing⟩
    · cases h

theorem Kept.step (h : Kept s) {a : Action} (ha : Undisputed s a) (hstep : step s a = some s') : Kept s' := by
  have hrunning : ∀ {id job message streamed messages},
      s.running id = some (job, message, streamed, messages) →
      ∀ c, Only s job.thread c → job.customer = c ∧ ∀ m ∈ messages, m.author = c := by
    intro id job message streamed messages hjob c hc
    obtain ⟨hmem, hdoing⟩ := running_job hjob
    exact hc.turn hmem hdoing
  have hshown : ∀ {id job message streamed messages},
      s.running id = some (job, message, streamed, messages) → ∀ m ∈ messages, m.author = job.customer := by
    intro id job message streamed messages hjob m hm
    obtain ⟨c, hc⟩ := h.apart job.thread
    obtain ⟨hcustomer, hauthors⟩ := hrunning hjob c hc
    exact (hauthors m hm).trans hcustomer.symm
  unfold Http.step at hstep
  cases a with
  | ask id customer request outside =>
    dsimp only at hstep
    split_ifs at hstep
    cases hop : request.op with
    | error detail =>
      rw [hop] at hstep
      exact Option.some.inj hstep ▸ h.reply fun a ha => by cases ha
    | ok op =>
      rw [hop] at hstep
      refine h.begin (fun thread message streamed heq => ha thread message streamed ?_) hstep
      rw [hop, heq]
  | go id outside =>
    obtain ⟨job, hfind, hgo⟩ := Option.bind_eq_some_iff.mp hstep
    exact h.goJob (mem_of_find _ hfind) hgo
  | say id said =>
    obtain ⟨⟨job, message, streamed, messages⟩, hjob, rfl⟩ := Option.map_eq_some_iff.mp hstep
    exact h.say (fun c hc => (hrunning hjob c hc).1) messages said fun c hc => (hrunning hjob c hc).2
  | frame id about =>
    obtain ⟨⟨job, message, streamed, messages⟩, hjob, hframe⟩ := Option.bind_eq_some_iff.mp hstep
    dsimp only at hframe
    split_ifs at hframe with habout
    refine Option.some.inj hframe ▸ h.reply fun a ha => ?_
    obtain ⟨m, hm, rfl⟩ := List.mem_map.mp ha
    exact hshown hjob m (habout.2 m hm)
  | finish id =>
    obtain ⟨⟨job, message, streamed, messages⟩, hjob, rfl⟩ := Option.map_eq_some_iff.mp hstep
    refine (h.ended fun c hc => (hrunning hjob c hc).1).reply fun a ha => ?_
    obtain ⟨m, hm, rfl⟩ := Option.map_eq_some_iff.mp (Option.mem_toList.mp ha)
    exact hshown hjob m (List.mem_reverse.mp (List.mem_of_find?_eq_some hm))
  | fail id about =>
    obtain ⟨⟨job, message, streamed, messages⟩, hjob, hfail⟩ := Option.bind_eq_some_iff.mp hstep
    dsimp only at hfail
    split_ifs at hfail with habout
    refine Option.some.inj hfail ▸ (h.ended fun c hc => (hrunning hjob c hc).1).reply fun a ha => ?_
    obtain ⟨m, hm, rfl⟩ := List.mem_map.mp ha
    exact hshown hjob m (habout m hm)
  | abandon id =>
    obtain ⟨job, -, rfl⟩ := Option.map_eq_some_iff.mp hstep
    exact h.close

/-! ## Runs -/

/-- What the service can come to, by steps that are all admitted. -/
inductive Serves (admits : Service → Action → Prop) : Service → Prop
  | start : Serves admits {}
  | step {s s' : Service} {a : Action} (h : Serves admits s) (ha : admits s a) (hstep : step s a = some s') :
      Serves admits s'

/-- **Transcript isolation** along runs in which every admitted turn is undisputed. -/
theorem transcripts_isolated (h : Serves Undisputed s) : Isolated s := by
  have hkept : Kept s := by
    induction h with
    | start =>
      have hnone : Isolated {} := ⟨fun told h => (List.not_mem_nil h).elim, fun run h => (List.not_mem_nil h).elim⟩
      exact ⟨hnone, fun t => ⟨"", fun row h => (List.not_mem_nil h).elim, fun m h => (List.not_mem_nil h).elim,
        fun job h => (List.not_mem_nil h).elim⟩⟩
    | step _ ha hstep ih => exact ih.step ha hstep
  exact hkept.toIsolated

/-- Steps that are admitted wherever they are taken. -/
theorem serves_along {admits : Service → Action → Prop} (h : Serves admits s) {actions : List Action}
    (hadmits : ∀ a ∈ actions, ∀ s, admits s a) (hrun : actions.foldlM step s = some s') : Serves admits s' := by
  induction actions generalizing s with
  | nil => exact Option.some.inj hrun ▸ h
  | cons a rest ih =>
    obtain ⟨ha, hrest⟩ := List.forall_mem_cons.mp hadmits
    rw [List.foldlM_cons] at hrun
    obtain ⟨next, hstep, hrun⟩ := Option.bind_eq_some_iff.mp hrun
    exact ih (h.step (ha s) hstep) hrest hrun

instance (told : Customer × Reply) : Decidable (Own told) := inferInstanceAs (Decidable (∀ _ ∈ _, _ = _))

instance (run : Customer × List (By Message)) : Decidable (OwnStart run) :=
  inferInstanceAs (Decidable (∀ _ ∈ _, _ = _))

/-- A buffered turn. -/
def spoken (id : Nat) (customer : Customer) (thread : ThreadId) (text : String) (reply : Message) : List Action :=
  [.ask id customer (.submitTurn thread text) {}, .go id {}, .go id {}, .go id {}, .go id {}, .say id reply,
    .finish id]

theorem transcripts_isolated_sample : ∃ s,
    (spoken 0 "ana" "t" "oi" (.ai (.str "olá"))).foldlM step {} = some s ∧ Isolated s := by
  have hask : Undisputed {} (.ask 0 "ana" (.submitTurn "t" "oi") {}) := by
    rintro thread message streamed - - c (⟨m, hm, -⟩ | ⟨job, hjob, -⟩)
    · cases hm
    · cases hjob
  have hrest : ∀ a ∈ (spoken 0 "ana" "t" "oi" (.ai (.str "olá"))).tail, ∀ s, Undisputed s a := by
    intro a ha s
    cases a with
    | ask id customer request outside => simp [spoken] at ha
    | _ => trivial
  exact ⟨_, rfl, transcripts_isolated (serves_along (Serves.start.step hask rfl) hrest rfl)⟩

/-- A thread is spoken to, deleted, and claimed by another customer. -/
def reclaimed : List Action :=
  spoken 0 "ana" "t" "oi" (.ai (.str "olá")) ++
    [.ask 0 "ana" (.deleteThread "t") {}, .go 0 {}] ++ spoken 0 "bia" "t" "oi" (.ai (.str "olá")) ++
    [.ask 0 "bia" (.getThread "t") {}, .go 0 {}]

theorem reclaimed_discloses : ∃ s, Serves (fun _ _ => True) s ∧ (∃ told ∈ s.replies, ¬ Own told) ∧
    ∃ run ∈ s.runs, ¬ OwnStart run := by
  refine ⟨_, serves_along .start (fun a (_ : a ∈ reclaimed) _ => trivial) rfl, ?_, ?_⟩
  · decide
  · decide

end BankingControlPlane.Http
