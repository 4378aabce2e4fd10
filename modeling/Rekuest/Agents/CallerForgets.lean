import Rekuest.Agents.CallerStreams

/-!
# What finished calls leave with the agent's postman

`handle_response` and `handle_execution_event` make entries for whatever task a message names; the
`finally` of a call takes out those of its own request, reference and task. Nothing is left behind
where every message is about a task that some call in flight is answered with, and no call ends
while the tables know of such a task that it never registered.
-/

namespace Rekuest

open Runs

/-- The call has not ended. -/
def Call.InFlight (c : Call) : Prop :=
  ∀ outcome, c.phase ≠ .ended outcome

theorem Call.inFlight_of_holds {c : Call} {t : String} {q : ℕ}
    (h : c.phase.holds = some (t, q)) : c.InFlight := by
  intro outcome hphase
  rw [hphase] at h
  cases h

namespace AgentPostman

variable {p p' : AgentPostman} {task t : String}

/-- One of the tables kept by task has an entry of `task`. -/
def HasEntries (p : AgentPostman) (task : String) : Prop :=
  p.taskQueues.get? task ≠ none ∨ p.orphanByTask.get? task ≠ none ∨ p.lastSeq.get? task ≠ none

/-- The tables of calls are empty. -/
structure Empty (p : AgentPostman) : Prop where
  pendingResponses : p.pendingResponses = ∅
  taskQueues : p.taskQueues = ∅
  orphanByTask : p.orphanByTask = ∅
  lastSeq : p.lastSeq = ∅
  referenceToTask : p.referenceToTask = ∅

/-- The tables are the same, whatever the queues hold. -/
structure SameTables (p p' : AgentPostman) : Prop where
  pendingResponses : p'.pendingResponses = p.pendingResponses
  taskQueues : p'.taskQueues = p.taskQueues
  orphanByTask : p'.orphanByTask = p.orphanByTask
  lastSeq : p'.lastSeq = p.lastSeq
  referenceToTask : p'.referenceToTask = p.referenceToTask

theorem SameTables.refl (p : AgentPostman) : SameTables p p :=
  ⟨rfl, rfl, rfl, rfl, rfl⟩

theorem SameTables.hasEntries (h : SameTables p p') (ht : p'.HasEntries t) : p.HasEntries t := by
  rwa [HasEntries, h.taskQueues, h.orphanByTask, h.lastSeq] at ht

/-! ## Where entries come from -/

theorem hasEntries_ensureQueue (ht : (p.ensureQueue task).2.HasEntries t) :
    p.HasEntries t ∨ t = task := by
  by_cases htask : t = task
  · exact Or.inr htask
  · left
    simp only [ensureQueue, makeQueue, put] at ht
    split at ht <;> simpa [HasEntries, htask] using ht

theorem ensureQueue_tables (p : AgentPostman) (task : String) :
    (p.ensureQueue task).2.pendingResponses = p.pendingResponses ∧
      (p.ensureQueue task).2.referenceToTask = p.referenceToTask := by
  simp only [ensureQueue, makeQueue, put]
  split <;> exact ⟨rfl, rfl⟩

theorem hasEntries_registerTask {reference : String}
    (ht : (p.registerTask reference task).2.HasEntries t) : p.HasEntries t ∨ t = task :=
  (hasEntries_ensureQueue ht).imp_left id

theorem hasEntries_resolve {response : CallResponse} (ht : (p.resolve response).HasEntries t) :
    p.HasEntries t := by
  rw [resolve] at ht
  split at ht <;> exact ht

theorem referenceToTask_resolve (p : AgentPostman) (response : CallResponse) :
    (p.resolve response).referenceToTask = p.referenceToTask := by
  rw [resolve]
  split <;> rfl

/-- A response makes entries of the task it names. -/
theorem hasEntries_handleResponse {response : CallResponse}
    (ht : (p.handleResponse response).HasEntries t) :
    p.HasEntries t ∨ response.named = some t := by
  rw [handleResponse] at ht
  split at ht
  · rename_i task hnamed
    refine (hasEntries_ensureQueue (hasEntries_resolve ht)).imp_right fun htask => ?_
    rw [hnamed, htask]
  · exact Or.inl (hasEntries_resolve ht)

theorem referenceToTask_handleResponse (p : AgentPostman) (response : CallResponse) :
    (p.handleResponse response).referenceToTask = p.referenceToTask := by
  rw [handleResponse]
  split
  · exact (referenceToTask_resolve _ _).trans (ensureQueue_tables _ _).2
  · exact referenceToTask_resolve _ _

/-- A mirror makes entries of its task. -/
theorem hasEntries_handleExecutionEvent {event : ExecutionEvent}
    (ht : (p.handleExecutionEvent event).HasEntries t) : p.HasEntries t ∨ t = event.task := by
  by_cases htask : t = event.task
  · exact Or.inr htask
  · left
    simp only [handleExecutionEvent] at ht
    split at ht <;> simpa [HasEntries, put, htask] using ht

theorem handleExecutionEvent_tables (p : AgentPostman) (event : ExecutionEvent) :
    (p.handleExecutionEvent event).pendingResponses = p.pendingResponses ∧
      (p.handleExecutionEvent event).referenceToTask = p.referenceToTask := by
  rw [handleExecutionEvent]
  split <;> exact ⟨rfl, rfl⟩

/-- The `finally` of a call makes no entries, and takes out those of its task. -/
theorem hasEntries_cleanup {request reference : String} {owned : Option String}
    (ht : (p.cleanup request reference owned).HasEntries t) : p.HasEntries t ∧ owned ≠ some t := by
  cases owned with
  | none => exact ⟨ht, by rintro ⟨⟩⟩
  | some task =>
    by_cases htask : t = task
    · subst htask
      simp [HasEntries, cleanup] at ht
    · refine ⟨?_, fun heq => htask (Option.some.inj heq).symm⟩
      simpa [HasEntries, cleanup, htask] using ht

theorem cleanup_tables (p : AgentPostman) (request reference : String) (owned : Option String) :
    (p.cleanup request reference owned).pendingResponses = p.pendingResponses.erase request ∧
      (p.cleanup request reference owned).referenceToTask = p.referenceToTask.erase reference := by
  cases owned <;> exact ⟨rfl, rfl⟩

end AgentPostman

namespace CallerWorld

open AgentPostman

/-! ## What an event does to the tables -/

/-- What an event does to the calls and the tables: it makes a call, a message is handled, a call
goes on with the tables as they were, or registers its task, or ends. -/
inductive Affects (w : CallerWorld) : CallerAct → CallerWorld → Prop
  | starts {r reference : String} {escalate : Bool} (unused : w.calls.get? r = none) :
    Affects w (.start r reference escalate) ({ w with postman := { w.postman with
        pendingResponses := w.postman.pendingResponses.set r none } }.setCall r
      ⟨reference, escalate, .sending, [], [], [], none, none⟩)
  | receives (response : CallResponse) : Affects w (.response response) (w.receive response)
  | mirrored (event : ExecutionEvent) : Affects w (.mirror event) { w with
      postman := w.postman.handleExecutionEvent event, arrived := w.arrived ++ [event] }
  | goesOn {act : CallerAct} {u : CallerWorld} {r : String} {c c' : Call}
      (call : w.calls.get? r = some c) (calls : u.calls = w.calls)
      (tables : SameTables w.postman u.postman) (reference : c'.reference = c.reference)
      (after : c'.InFlight) : Affects w act (u.setCall r c')
  | registers {r t : String} {c : Call} {response : CallResponse} (call : w.calls.get? r = some c)
      (pending : w.postman.pendingResponses.get? r = some (some response))
      (named : response.named = some t) : Affects w (.resume r)
        ({ w with postman := (w.postman.registerTask c.reference t).2 }.setCall r { c with
          phase := .streaming t (w.postman.registerTask c.reference t).1
          registration := some ⟨t, (w.postman.registerTask c.reference t).2.queues
            (w.postman.registerTask c.reference t).1, (w.arrivedOf t).length⟩ })
  | ends {act : CallerAct} {u : CallerWorld} {r : String} {c c' : Call} {owned : Option String}
      {outcome : CallOutcome} (call : w.calls.get? r = some c) (before : c.InFlight)
      (calls : u.calls = w.calls) (tables : SameTables w.postman u.postman)
      (reference : c'.reference = c.reference)
      (task : ∀ t q, c.phase.holds = some (t, q) → owned = some t) :
      Affects w act (u.finish r c' owned outcome)

variable {terminal : ExecutionEvent → Bool} {owns : String → String → Prop}
  {w w' u : CallerWorld} {act : CallerAct} {r t : String} {c c' : Call} {q : ℕ}

theorem sameTables_pop {e : ExecutionEvent} (h : w.pop q = some (e, u)) :
    u.calls = w.calls ∧ SameTables w.postman u.postman := by
  obtain ⟨events, -, rfl⟩ := pop_spec h
  exact ⟨rfl, rfl, rfl, rfl, rfl, rfl⟩

/-- A call that ends on the task it holds. -/
theorem Affects.endsOwn (hr : w.calls.get? r = some c) (hholds : c.phase.holds = some (t, q))
    (hcalls : u.calls = w.calls) (htables : SameTables w.postman u.postman)
    (href : c'.reference = c.reference) (outcome : CallOutcome) :
    Affects w act (u.finish r c' (some t) outcome) := by
  refine .ends hr (Call.inFlight_of_holds hholds) hcalls htables href fun t' q' hq' => ?_
  rw [hholds] at hq'
  cases hq'
  rfl

/-- A call that ends before it has a task. -/
theorem Affects.endsEarly (hr : w.calls.get? r = some c)
    (hphase : c.phase = .sending ∨ c.phase = .awaiting) (owned : Option String)
    (outcome : CallOutcome) : Affects w act (w.finish r c owned outcome) := by
  refine .ends hr (fun outcome => ?_) rfl (.refl _) rfl fun t q hq => ?_
  · obtain hphase | hphase := hphase <;> rw [hphase] <;> rintro ⟨⟩
  · obtain hphase | hphase := hphase <;> rw [hphase] at hq <;> cases hq

theorem affects_resume (hs : step terminal w (.resume r) = some w') :
    Affects w (.resume r) w' := by
  obtain ⟨c, hr, hs⟩ := Option.bind_eq_some_iff.mp hs
  split at hs
  · rename_i response hphase hpending
    obtain rfl := Option.some.inj hs
    rw [resumed]
    split
    · exact .endsEarly hr (Or.inr hphase) _ _
    · split
      · exact .endsEarly hr (Or.inr hphase) _ _
      · rename_i t hnamed
        exact .registers hr hpending hnamed
  · cases hs

theorem affects_take (hs : step terminal w (.take r) = some w') : Affects w (.take r) w' := by
  obtain ⟨c, hr, hs⟩ := Option.bind_eq_some_iff.mp hs
  cases hphase : c.phase <;> simp only [hphase, reduceCtorEq] at hs
  case streaming t q =>
    obtain ⟨⟨e, u⟩, hpop, rfl⟩ := Option.map_eq_some_iff.mp hs
    have hholds : c.phase.holds = some (t, q) := by rw [hphase]; rfl
    have hlive := Call.inFlight_of_holds hholds
    obtain ⟨hcalls, htables⟩ := sameTables_pop hpop
    simp only [took]
    split
    · exact .goesOn hr hcalls htables rfl (by exact hlive)
    · split
      · exact .goesOn hr hcalls htables rfl (by rintro outcome ⟨⟩)
      · split
        · exact .endsOwn hr hholds hcalls htables (by rfl) _
        · exact .goesOn hr hcalls htables rfl (by exact hlive)

theorem affects_next (hs : step terminal w (.next r) = some w') : Affects w (.next r) w' := by
  obtain ⟨c, hr, hs⟩ := Option.bind_eq_some_iff.mp hs
  cases hphase : c.phase <;> simp only [hphase, reduceCtorEq] at hs
  case suspended t q last =>
    have hholds : c.phase.holds = some (t, q) := by rw [hphase]; rfl
    cases last with
    | true =>
      obtain rfl := Option.some.inj hs
      exact .endsOwn hr hholds rfl (.refl _) rfl _
    | false =>
      obtain rfl := Option.some.inj hs
      exact .goesOn hr rfl (.refl _) rfl (by rintro outcome ⟨⟩)

theorem affects_cancel (hs : step terminal w (.cancel r) = some w') :
    Affects w (.cancel r) w' := by
  obtain ⟨c, hr, hs⟩ := Option.bind_eq_some_iff.mp hs
  cases hphase : c.phase <;> simp only [hphase, reduceCtorEq, Option.some.injEq] at hs <;> subst hs
  case sending => exact .endsEarly hr (Or.inl hphase) _ _
  case awaiting => exact .endsEarly hr (Or.inr hphase) _ _
  case streaming t q => exact .goesOn hr rfl (.refl _) rfl (by rintro outcome ⟨⟩)
  case confirming t q escalated =>
    exact .endsOwn hr (by rw [hphase]; rfl) rfl (.refl _) rfl _

theorem affects_confirm (hs : step terminal w (.confirm r) = some w') :
    Affects w (.confirm r) w' := by
  obtain ⟨c, hr, hs⟩ := Option.bind_eq_some_iff.mp hs
  cases hphase : c.phase <;> simp only [hphase, reduceCtorEq] at hs
  case confirming t q escalated =>
    obtain ⟨⟨e, u⟩, hpop, rfl⟩ := Option.map_eq_some_iff.mp hs
    have hholds : c.phase.holds = some (t, q) := by rw [hphase]; rfl
    obtain ⟨hcalls, htables⟩ := sameTables_pop hpop
    simp only
    split
    · exact .endsOwn hr hholds hcalls htables rfl _
    · -- the mirror is dropped, and the call stays as it is
      have hsame : u = u.setCall r c := by
        rw [setCall, Dict.set_of_get?_eq_some (hcalls ▸ hr)]
      rw [hsame]
      exact .goesOn hr hcalls htables rfl (Call.inFlight_of_holds hholds)

theorem affects_timeout (hs : step terminal w (.timeout r) = some w') :
    Affects w (.timeout r) w' := by
  obtain ⟨c, hr, hs⟩ := Option.bind_eq_some_iff.mp hs
  cases hphase : c.phase <;> simp only [hphase, reduceCtorEq] at hs
  case confirming t q escalated =>
    have hholds : c.phase.holds = some (t, q) := by rw [hphase]; rfl
    cases escalated with
    | true =>
      obtain rfl := Option.some.inj hs
      exact .endsOwn hr hholds rfl (.refl _) rfl _
    | false =>
      simp only at hs
      split at hs <;> obtain rfl := Option.some.inj hs
      · exact .goesOn hr rfl (.refl _) rfl (by rintro outcome ⟨⟩)
      · exact .endsOwn hr hholds rfl (.refl _) rfl _

/-- Every event does one of these. -/
theorem affects_step (hs : step terminal w act = some w') : Affects w act w' := by
  cases act with
  | start r reference escalate =>
    simp only [step] at hs
    split at hs
    · cases hs
    · rename_i hr
      obtain rfl := Option.some.inj hs
      exact .starts hr
  | send r =>
    obtain ⟨c, hr, hs⟩ := Option.bind_eq_some_iff.mp hs
    cases hphase : c.phase <;> simp only [hphase, reduceCtorEq, Option.some.injEq] at hs
    subst hs
    exact .goesOn hr rfl (.refl _) rfl (by rintro outcome ⟨⟩)
  | response response =>
    obtain rfl := Option.some.inj hs
    exact .receives response
  | mirror event =>
    obtain rfl := Option.some.inj hs
    exact .mirrored event
  | resume r => exact affects_resume hs
  | take r => exact affects_take hs
  | next r => exact affects_next hs
  | cancel r => exact affects_cancel hs
  | close r =>
    obtain ⟨c, hr, hs⟩ := Option.bind_eq_some_iff.mp hs
    cases hphase : c.phase <;> simp only [hphase, reduceCtorEq, Option.some.injEq] at hs
    case suspended t q last =>
      subst hs
      have hholds : c.phase.holds = some (t, q) := by rw [hphase]; rfl
      exact .endsOwn (u := w.asend (.cancelRequest t)) hr hholds rfl (.refl _) rfl _
  | confirm r => exact affects_confirm hs
  | timeout r => exact affects_timeout hs

/-! ## Entries of calls in flight

An entry about a task belongs to a call in flight that is answered with it. The `finally` of that
call takes it out, if the call registered the task.
-/

/-- A call in flight is answered with the task. -/
def Serves (owns : String → String → Prop) (w : CallerWorld) (t : String) : Prop :=
  ∃ r c, w.calls.get? r = some c ∧ c.InFlight ∧ owns r t

/-- The event ends the call. -/
def Ends (terminal : ExecutionEvent → Bool) (w : CallerWorld) (act : CallerAct) (r : String)
    (c : Call) : Prop :=
  w.calls.get? r = some c ∧ c.InFlight ∧
    ∃ w' c', step terminal w act = some w' ∧ w'.calls.get? r = some c' ∧ ¬ c'.InFlight

/-- `owns` says which tasks the backend answers a request with. A mirror arrives while a call that
owns its task is in flight, and so does a response that names one; a response that a call waits for
names a task the call owns. And a call that ends leaves no entries of a task of its own other than
the one it holds, unless another call in flight owns it. -/
structure Timely (terminal : ExecutionEvent → Bool) (owns : String → String → Prop)
    (w : CallerWorld) (act : CallerAct) : Prop where
  mirror : ∀ event, act = .mirror event → Serves owns w event.task
  response : ∀ response t, act = .response response → response.named = some t → Serves owns w t ∧
    (w.postman.pendingResponses.get? response.request = some none → owns response.request t)
  ends : ∀ r c, Ends terminal w act r c → ∀ t, owns r t → w.postman.HasEntries t →
    (∃ q, c.phase.holds = some (t, q)) ∨
      ∃ r' c', r' ≠ r ∧ w.calls.get? r' = some c' ∧ c'.InFlight ∧ owns r' t

/-- Every entry of the tables is of a call in flight. -/
structure Owned (owns : String → String → Prop) (w : CallerWorld) : Prop where
  pending : ∀ r future, w.postman.pendingResponses.get? r = some future →
    ∃ c, w.calls.get? r = some c ∧ c.InFlight
  answered : ∀ r response t, w.postman.pendingResponses.get? r = some (some response) →
    response.named = some t → owns r t
  references : ∀ reference t, w.postman.referenceToTask.get? reference = some t →
    ∃ r c, w.calls.get? r = some c ∧ c.InFlight ∧ c.reference = reference
  entries : ∀ t, w.postman.HasEntries t → Serves owns w t

theorem owned_start : Owned owns start where
  pending := by rintro r future ⟨⟩
  answered := by rintro r response t ⟨⟩
  references := by rintro reference t ⟨⟩
  entries := by rintro t (h | h | h) <;> exact absurd rfl h

/-- Every call in flight stays so, under its reference. -/
def StaysInFlight (w w' : CallerWorld) : Prop :=
  ∀ r c, w.calls.get? r = some c → c.InFlight →
    ∃ c', w'.calls.get? r = some c' ∧ c'.InFlight ∧ c'.reference = c.reference

theorem Serves.stays (h : Serves owns w t) (hstays : StaysInFlight w w') : Serves owns w' t := by
  obtain ⟨r, c, hr, hlive, howns⟩ := h
  obtain ⟨c', hr', hlive', -⟩ := hstays r c hr hlive
  exact ⟨r, c', hr', hlive', howns⟩

/-- Entries stay those of calls in flight where all of these stay, and every new entry is of one. -/
theorem Owned.stays (h : Owned owns w) (hstays : StaysInFlight w w')
    (hpending : ∀ r future, w'.postman.pendingResponses.get? r = some future →
      (∃ future, w.postman.pendingResponses.get? r = some future) ∨
        ∃ c, w'.calls.get? r = some c ∧ c.InFlight)
    (hanswered : ∀ r response t, w'.postman.pendingResponses.get? r = some (some response) →
      response.named = some t →
      w.postman.pendingResponses.get? r = some (some response) ∨ owns r t)
    (hreferences : ∀ reference t, w'.postman.referenceToTask.get? reference = some t →
      w.postman.referenceToTask.get? reference = some t ∨
        ∃ r c, w'.calls.get? r = some c ∧ c.InFlight ∧ c.reference = reference)
    (hentries : ∀ t, w'.postman.HasEntries t → w.postman.HasEntries t ∨ Serves owns w' t) :
    Owned owns w' where
  pending r future hr := by
    obtain ⟨future, hold⟩ | hnew := hpending r future hr
    · obtain ⟨c, hc, hlive⟩ := h.pending r future hold
      obtain ⟨c', hc', hlive', -⟩ := hstays r c hc hlive
      exact ⟨c', hc', hlive'⟩
    · exact hnew
  answered r response t hr hnamed :=
    (hanswered r response t hr hnamed).elim (fun hold => h.answered r response t hold hnamed) id
  references reference t ht := by
    obtain hold | hnew := hreferences reference t ht
    · obtain ⟨r, c, hc, hlive, href⟩ := h.references reference t hold
      obtain ⟨c', hc', hlive', href'⟩ := hstays r c hc hlive
      exact ⟨r, c', hc', hlive', href'.trans href⟩
    · exact hnew
  entries t ht := (hentries t ht).elim (fun hold => (h.entries t hold).stays hstays) id

/-- Setting a call that goes on keeps every call in flight. -/
theorem staysInFlight_setCall (hr : w.calls.get? r = some c) (hcalls : u.calls = w.calls)
    (href : c'.reference = c.reference) (hlive : c'.InFlight) :
    StaysInFlight w (u.setCall r c') := by
  intro r₀ c₀ hr₀ hlive₀
  by_cases hrr : r₀ = r
  · subst hrr
    obtain rfl := Option.some.inj (hr.symm.trans hr₀)
    exact ⟨c', by simp [setCall], hlive, href⟩
  · exact ⟨c₀, by simpa [setCall, hrr, hcalls] using hr₀, hlive₀, rfl⟩

theorem Owned.goesOn (h : Owned owns w) (hr : w.calls.get? r = some c) (hcalls : u.calls = w.calls)
    (htables : SameTables w.postman u.postman) (href : c'.reference = c.reference)
    (hlive : c'.InFlight) : Owned owns (u.setCall r c') := by
  refine h.stays (staysInFlight_setCall hr hcalls href hlive) ?_ ?_ ?_ ?_
  · intro r future hfuture
    exact Or.inl ⟨future, htables.pendingResponses ▸ hfuture⟩
  · intro r response t hresponse _
    exact Or.inl (htables.pendingResponses ▸ hresponse)
  · intro reference t ht
    exact Or.inl (htables.referenceToTask ▸ ht)
  · intro t ht
    exact Or.inl (htables.hasEntries ht)

theorem Owned.starts (h : Owned owns w) {reference : String} {escalate : Bool}
    (hr : w.calls.get? r = none) : Owned owns ({ w with postman := { w.postman with
        pendingResponses := w.postman.pendingResponses.set r none } }.setCall r
      ⟨reference, escalate, .sending, [], [], [], none, none⟩) := by
  refine h.stays ?_ ?_ ?_ (fun _ _ ht => Or.inl ht) (fun _ ht => Or.inl ht)
  · intro r₀ c₀ hr₀ hlive₀
    have hne : r₀ ≠ r := by
      rintro rfl
      rw [hr] at hr₀
      cases hr₀
    exact ⟨c₀, by simpa [setCall, hne] using hr₀, hlive₀, rfl⟩
  · intro r₀ future hfuture
    obtain ⟨rfl, -⟩ | ⟨-, hold⟩ := Dict.get?_set_eq_some.mp hfuture
    · exact Or.inr ⟨_, Dict.get?_set_eq_some.mpr (Or.inl ⟨rfl, rfl⟩), by rintro outcome ⟨⟩⟩
    · exact Or.inl ⟨future, hold⟩
  · intro r₀ response t hresponse _
    obtain ⟨-, ⟨⟩⟩ | ⟨-, hold⟩ := Dict.get?_set_eq_some.mp hresponse
    exact Or.inl hold

theorem Owned.receives (h : Owned owns w) {response : CallResponse}
    (ht : Timely terminal owns w (.response response)) : Owned owns (w.receive response) := by
  obtain ⟨hpostman, -, -, hcalls⟩ := receive_calls w response
  have hstays : StaysInFlight w (w.receive response) := by
    intro r c hr hlive
    rw [hcalls, hr]
    split
    · exact ⟨_, rfl, hlive, rfl⟩
    · exact ⟨c, rfl, hlive, rfl⟩
  refine h.stays hstays ?_ ?_ ?_ ?_
  · intro r future hfuture
    rw [get?_pendingResponses_receive] at hfuture
    split at hfuture
    · rename_i hwaits
      exact Or.inl ⟨none, hwaits.2⟩
    · exact Or.inl ⟨future, hfuture⟩
  · intro r response' t hresponse hnamed
    rw [get?_pendingResponses_receive] at hresponse
    split at hresponse
    · rename_i hwaits
      obtain ⟨rfl, hnone⟩ := hwaits
      cases hresponse
      exact Or.inr ((ht.response response t rfl hnamed).2 hnone)
    · exact Or.inl hresponse
  · intro reference t hreference
    rw [hpostman, referenceToTask_handleResponse] at hreference
    exact Or.inl hreference
  · intro t hentries
    rw [hpostman] at hentries
    exact (hasEntries_handleResponse hentries).imp_right fun hnamed =>
      (ht.response response t rfl hnamed).1.stays hstays

theorem Owned.mirrored (h : Owned owns w) {event : ExecutionEvent}
    (ht : Timely terminal owns w (.mirror event)) : Owned owns { w with
      postman := w.postman.handleExecutionEvent event, arrived := w.arrived ++ [event] } := by
  obtain ⟨hpending, hreferences⟩ := handleExecutionEvent_tables w.postman event
  refine h.stays (fun r c hr hlive => ⟨c, hr, hlive, rfl⟩) ?_ ?_ ?_ ?_
  · intro r future hfuture
    exact Or.inl ⟨future, hpending ▸ hfuture⟩
  · intro r response t hresponse _
    exact Or.inl (hpending ▸ hresponse)
  · intro reference t hreference
    exact Or.inl (hreferences ▸ hreference)
  · intro t hentries
    refine (hasEntries_handleExecutionEvent hentries).imp_right fun htask => ?_
    rw [htask]
    exact ht.mirror event rfl

theorem Owned.registers (h : Owned owns w) {response : CallResponse}
    (hr : w.calls.get? r = some c)
    (hpending : w.postman.pendingResponses.get? r = some (some response))
    (hnamed : response.named = some t) {registration : Option Registration} :
    Owned owns ({ w with postman := (w.postman.registerTask c.reference t).2 }.setCall r { c with
      phase := .streaming t (w.postman.registerTask c.reference t).1
      registration := registration }) := by
  obtain ⟨hsame, hreferences⟩ := ensureQueue_tables
    { w.postman with referenceToTask := w.postman.referenceToTask.set c.reference t } t
  refine h.stays (staysInFlight_setCall hr rfl rfl (by rintro outcome ⟨⟩)) ?_ ?_ ?_ ?_
  · intro r₀ future hfuture
    exact Or.inl ⟨future, hsame ▸ hfuture⟩
  · intro r₀ response' t' hresponse _
    exact Or.inl (hsame ▸ hresponse)
  · intro reference t' hreference
    change (w.postman.registerTask c.reference t).2.referenceToTask.get? reference = _ at hreference
    rw [registerTask, hreferences] at hreference
    obtain ⟨rfl, -⟩ | ⟨-, hold⟩ := Dict.get?_set_eq_some.mp hreference
    · exact Or.inr ⟨r, _, Dict.get?_set_eq_some.mpr (Or.inl ⟨rfl, rfl⟩), by rintro outcome ⟨⟩, rfl⟩
    · exact Or.inl hold
  · intro t' hentries
    refine (hasEntries_registerTask hentries).imp_right fun htask => ?_
    rw [htask]
    exact ⟨r, _, Dict.get?_set_eq_some.mpr (Or.inl ⟨rfl, rfl⟩), by rintro outcome ⟨⟩,
      h.answered r response t hpending hnamed⟩

/-- The `finally` of a call that ends takes out what the tables hold of it: its request, its
reference, and its task, which leaves none of its own. -/
theorem Owned.ends (h : Owned owns w) {owned : Option String} {outcome : CallOutcome}
    (hr : w.calls.get? r = some c) (hcalls : u.calls = w.calls)
    (htables : SameTables w.postman u.postman) (href : c'.reference = c.reference)
    (htask : ∀ t q, c.phase.holds = some (t, q) → owned = some t)
    (hleft : ∀ t, owns r t → w.postman.HasEntries t → (∃ q, c.phase.holds = some (t, q)) ∨
      ∃ r' c', r' ≠ r ∧ w.calls.get? r' = some c' ∧ c'.InFlight ∧ owns r' t) :
    Owned owns (u.finish r c' owned outcome) := by
  obtain ⟨hpending, hreferences⟩ := cleanup_tables u.postman r c'.reference owned
  rw [htables.pendingResponses] at hpending
  rw [htables.referenceToTask] at hreferences
  have hothers : ∀ r₀ c₀, r₀ ≠ r → w.calls.get? r₀ = some c₀ →
      (u.finish r c' owned outcome).calls.get? r₀ = some c₀ := by
    intro r₀ c₀ hne hr₀
    simpa [finish, setCall, hne, hcalls] using hr₀
  have hkept : ∀ r₀ future, (u.finish r c' owned outcome).postman.pendingResponses.get? r₀
      = some future → r₀ ≠ r ∧ w.postman.pendingResponses.get? r₀ = some future := by
    intro r₀ future hfuture
    change (u.postman.cleanup r c'.reference owned).pendingResponses.get? r₀ = _ at hfuture
    rw [hpending] at hfuture
    exact Dict.get?_erase_eq_some.mp hfuture
  refine ⟨?_, ?_, ?_, ?_⟩
  · intro r₀ future hfuture
    obtain ⟨hne, hold⟩ := hkept r₀ future hfuture
    obtain ⟨c₀, hc₀, hlive₀⟩ := h.pending r₀ future hold
    exact ⟨c₀, hothers r₀ c₀ hne hc₀, hlive₀⟩
  · intro r₀ response t hresponse hnamed
    exact h.answered r₀ response t (hkept r₀ _ hresponse).2 hnamed
  · intro reference t hreference
    change (u.postman.cleanup r c'.reference owned).referenceToTask.get? reference = _ at hreference
    rw [hreferences] at hreference
    obtain ⟨hne, hold⟩ := Dict.get?_erase_eq_some.mp hreference
    obtain ⟨r₀, c₀, hc₀, hlive₀, href₀⟩ := h.references reference t hold
    have hrr : r₀ ≠ r := by
      rintro rfl
      obtain rfl := Option.some.inj (hr.symm.trans hc₀)
      exact hne (href₀.symm.trans href.symm)
    exact ⟨r₀, c₀, hothers r₀ c₀ hrr hc₀, hlive₀, href₀⟩
  · intro t hentries
    obtain ⟨hbefore, hnot⟩ := hasEntries_cleanup hentries
    have hold := htables.hasEntries hbefore
    obtain ⟨r₀, c₀, hc₀, hlive₀, howns⟩ := h.entries t hold
    by_cases hrr : r₀ = r
    · subst hrr
      -- the entries are of the task the call holds, or of a task another call owns
      obtain ⟨q, hq⟩ | ⟨r₁, c₁, hne, hc₁, hlive₁, howns₁⟩ := hleft t howns hold
      · exact absurd (htask t q hq) hnot
      · exact ⟨r₁, c₁, hothers r₁ c₁ hne hc₁, hlive₁, howns₁⟩
    · exact ⟨r₀, c₀, hothers r₀ c₀ hrr hc₀, hlive₀, howns⟩

/-- Every timely event leaves the entries to calls in flight. -/
theorem owned_step (h : Owned owns w) (ht : Timely terminal owns w act)
    (hs : step terminal w act = some w') : Owned owns w' := by
  cases affects_step hs with
  | starts unused => exact h.starts unused
  | receives response => exact h.receives ht
  | mirrored event => exact h.mirrored ht
  | goesOn call calls tables reference after => exact h.goesOn call calls tables reference after
  | registers call pending named => exact h.registers call pending named
  | @ends _ u r c c' owned outcome call before calls tables reference task =>
    refine h.ends call calls tables reference task (ht.ends r c ⟨call, before, _,
      { c' with phase := .ended outcome }, hs, ?_, fun hlive => hlive outcome rfl⟩)
    exact Dict.get?_set_eq_some.mpr (Or.inl ⟨rfl, rfl⟩)

theorem Owned.empty (h : Owned owns w)
    (hidle : ∀ r c, w.calls.get? r = some c → ¬ c.InFlight) : w.postman.Empty := by
  have hentries : ∀ t, ¬ w.postman.HasEntries t := by
    intro t ht
    obtain ⟨r, c, hc, hlive, -⟩ := h.entries t ht
    exact hidle r c hc hlive
  refine ⟨?_, ?_, ?_, ?_, ?_⟩ <;> refine Dict.eq_empty_of_get? fun k => ?_
  · refine Option.eq_none_iff_forall_not_mem.mpr fun future hfuture => ?_
    obtain ⟨c, hc, hlive⟩ := h.pending k future hfuture
    exact hidle k c hc hlive
  · exact Classical.not_not.mp fun hne => hentries k (Or.inl hne)
  · exact Classical.not_not.mp fun hne => hentries k (Or.inr (Or.inl hne))
  · exact Classical.not_not.mp fun hne => hentries k (Or.inr (Or.inr hne))
  · refine Option.eq_none_iff_forall_not_mem.mpr fun t ht => ?_
    obtain ⟨r, c, hc, hlive, -⟩ := h.references k t ht
    exact hidle r c hc hlive

/-- In every run of timely events, the tables are empty whenever no call is in flight. -/
theorem finished_calls_leave_no_entries (terminal : ExecutionEvent → Bool)
    (owns : String → String → Prop) (acts : List CallerAct) (w : CallerWorld)
    (hmeets : Meets (step terminal) (Timely terminal owns) start acts)
    (hrun : exec (step terminal) start acts = some w)
    (hidle : ∀ r c, w.calls.get? r = some c → ¬ c.InFlight) : w.postman.Empty :=
  (exec_invariant_of_meets owned_start (fun _ _ _ h ht hs => owned_step h ht hs) hmeets hrun).empty
    hidle

/-- A call whose task completes before the response to it arrives. -/
def mirroredEarly : List CallerAct :=
  [.start "r1" "a" false, .send "r1", .mirror ⟨"t", 1, .completed⟩,
    .response (.assign "r1" (some "t") none), .resume "r1", .take "r1", .next "r1"]

/-- The backend answers the call with one task. -/
def answersOne (request task : String) : Prop :=
  request = "r1" ∧ task = "t"

theorem finished_calls_leave_no_entries_mirroredEarly :
    ∃ w, exec (step endsTask) start mirroredEarly = some w ∧ w.postman.Empty := by
  have hgoesOn : ∀ {w w' : CallerWorld} {act : CallerAct} {c' : Call},
      step endsTask w act = some w' → w'.calls.entries = [("r1", c')] → c'.InFlight →
      (∀ event, act = .mirror event → Serves answersOne w event.task) →
      (∀ response t, act = .response response → response.named = some t →
        Serves answersOne w t ∧ answersOne response.request t) →
      Timely endsTask answersOne w act := by
    intro w w' act c' hs hcalls hlive hmirror hresponse
    refine ⟨hmirror, fun response t hact hnamed =>
      (hresponse response t hact hnamed).imp_right fun howns _ => howns, ?_⟩
    rintro r c ⟨-, -, w'', c'', hs', hc'', hnot⟩
    obtain rfl := Option.some.inj (hs.symm.trans hs')
    have hmem := Dict.get?_eq_some.mp hc''
    rw [hcalls] at hmem
    obtain ⟨-, rfl⟩ := Prod.mk.inj (List.mem_singleton.mp hmem)
    exact absurd hlive hnot
  have hmeets : Meets (step endsTask) (Timely endsTask answersOne) start mirroredEarly := by
    iterate 6
      refine meets_cons (hgoesOn rfl rfl (by rintro outcome ⟨⟩) ?_ ?_) ?_
      · first
          | (rintro event ⟨⟩; done)
          | (rintro event ⟨⟩; exact ⟨"r1", _, rfl, by rintro outcome ⟨⟩, rfl, rfl⟩)
      · first
          | (rintro response t ⟨⟩; done)
          | (rintro response t ⟨⟩ ⟨⟩
             exact ⟨⟨"r1", _, rfl, by rintro outcome ⟨⟩, rfl, rfl⟩, rfl, rfl⟩)
      rintro w ⟨⟩
    refine meets_cons ⟨by rintro event ⟨⟩, by rintro response t ⟨⟩, ?_⟩ fun w _ => meets_nil w
    -- the call ends on the only task it owns
    rintro r c ⟨hc, -⟩ t ⟨-, rfl⟩ -
    obtain ⟨-, rfl⟩ := Prod.mk.inj (List.mem_singleton.mp (Dict.get?_eq_some.mp hc))
    exact Or.inl ⟨_, rfl⟩
  obtain ⟨w, hw⟩ : ∃ w, exec (step endsTask) start mirroredEarly = some w := ⟨_, rfl⟩
  refine ⟨w, hw, finished_calls_leave_no_entries endsTask _ _ w hmeets hw ?_⟩
  obtain rfl := Option.some.inj hw
  intro r c hc hlive
  obtain ⟨-, rfl⟩ := Prod.mk.inj (List.mem_singleton.mp (Dict.get?_eq_some.mp hc))
  exact hlive _ rfl

/-- A call that is cancelled in its stream, and gets its confirmation; then `late` arrives. -/
def confirmedThen (late : List CallerAct) : List CallerAct :=
  [.start "r1" "a" false, .send "r1", .response (.assign "r1" (some "t") none), .resume "r1",
    .cancel "r1", .mirror ⟨"t", 1, .cancelled⟩, .confirm "r1"] ++ late

/-- A call that is cancelled while it waits for its response, which then arrives. -/
def answeredLate : List CallerAct :=
  [.start "r1" "a" false, .send "r1", .cancel "r1", .response (.assign "r1" (some "t") none)]

/-- No call is in flight, and the tables still have entries of the task. -/
def LeavesEntries (w : CallerWorld) (t : String) : Prop :=
  (∀ r c, w.calls.get? r = some c → ¬ c.InFlight) ∧ w.postman.HasEntries t ∧ ¬ w.postman.Empty

theorem leavesEntries_of_entries {c : Call} (hcalls : w.calls.entries = [(r, c)])
    (hended : ¬ c.InFlight) (ht : w.postman.HasEntries t) : LeavesEntries w t := by
  refine ⟨fun r' c' hc' => ?_, ht, fun hempty => ?_⟩
  · have hmem := Dict.get?_eq_some.mp hc'
    rw [hcalls] at hmem
    obtain ⟨-, rfl⟩ := Prod.mk.inj (List.mem_singleton.mp hmem)
    exact hended
  · rw [AgentPostman.HasEntries, hempty.taskQueues, hempty.orphanByTask, hempty.lastSeq] at ht
    simp at ht

/-- A mirror or a second response that comes after the call ended makes entries that stay, and so
does the response to a call that was cancelled while it waited. -/
theorem late_messages_leave_entries :
    (∃ w, exec (step endsTask) start (confirmedThen [.mirror ⟨"t", 2, .completed⟩]) = some w ∧
      LeavesEntries w "t") ∧
    (∃ w, exec (step endsTask) start
        (confirmedThen [.response (.assign "r1" (some "t") none)]) = some w ∧
      LeavesEntries w "t") ∧
    ∃ w, exec (step endsTask) start answeredLate = some w ∧ LeavesEntries w "t" := by
  refine ⟨⟨_, rfl, ?_⟩, ⟨_, rfl, ?_⟩, ⟨_, rfl, ?_⟩⟩ <;>
    refine leavesEntries_of_entries rfl (fun hlive => hlive _ rfl) ?_
  · exact Or.inr (Or.inr (by rintro ⟨⟩))
  · exact Or.inl (by rintro ⟨⟩)
  · exact Or.inl (by rintro ⟨⟩)

end CallerWorld

end Rekuest
