import Rekuest.Client.Isolation

/-!
# What a call leaves behind

`_cleanup_reference` finds the task of a call through the reference the call was registered under.
It drops what the tables hold of the call, and of nothing else, where the two tables that bind tasks
to references agree on it. A second cancellation that arrives before the assign is answered ends the
call without it.
-/

namespace Rekuest

open Runs GraphQLPostman

namespace GraphQLPostman

variable {p : GraphQLPostman} {task reference : String}

/-! ## The tables of the reading tasks -/

@[simp] theorem catchUpTasks_bind (p : GraphQLPostman) (task reference : String) :
    (p.bind task reference).catchUpTasks = p.catchUpTasks := by
  rw [bind]
  split <;> rfl

@[simp] theorem catchUpTasks_route (p : GraphQLPostman) (event : TaskEventChange) :
    (p.route event).catchUpTasks = p.catchUpTasks := by
  rw [route]
  split
  · rfl
  · simp only
    split <;> rfl

@[simp] theorem catchUpTasks_catchUp (p : GraphQLPostman) (task : String)
    (history : List TaskEventChange) : (p.catchUp task history).catchUpTasks = p.catchUpTasks := by
  rw [catchUp]
  split <;> rfl

@[simp] theorem catchUpTasks_failPending (p : GraphQLPostman) (reason : String) :
    (p.failPending reason).catchUpTasks = p.catchUpTasks := by
  have hfold : ∀ (l : List ℕ) (p : GraphQLPostman),
      (l.foldl (fun p queue => p.put queue [.feedLost reason]) p).catchUpTasks
        = p.catchUpTasks := by
    intro l
    induction l with
    | nil => exact fun p => rfl
    | cons queue l ih => exact fun p => ih (p.put queue [.feedLost reason])
  exact hfold _ _

@[simp] theorem catchUpTasks_handle (p : GraphQLPostman) (change : TaskChangeEvent) :
    (p.handle change).catchUpTasks = p.catchUpTasks := by
  have hcreate : (p.handleCreate change.create).catchUpTasks = p.catchUpTasks := by
    rw [handleCreate.eq_def]
    split
    · split
      · rfl
      · exact catchUpTasks_bind p _ _
    · rfl
    · rfl
  rw [handle, ← hcreate]
  cases change.event with
  | some event => exact catchUpTasks_route _ event
  | none => rfl

/-! ## Events on record -/

/-- Events of a task are on record. -/
def HasEvents (p : GraphQLPostman) (task : String) : Prop :=
  p.orphanEventsByTask.get? task ≠ none ∨ p.routedEventIds.get? task ≠ none

/-- From `p` to `p'` tasks stay bound, and events come on record of tasks that are bound or that
`shown` has. -/
structure Carries (p : GraphQLPostman) (shown : String → Prop) (p' : GraphQLPostman) : Prop where
  bound : ∀ t, p.taskToReference.get? t ≠ none → p'.taskToReference.get? t ≠ none
  events : ∀ t, p'.HasEvents t → p.HasEvents t ∨ p'.taskToReference.get? t ≠ none ∨ shown t

variable {p' p'' : GraphQLPostman} {shown : String → Prop}

theorem Carries.of_eq (htasks : p'.taskToReference = p.taskToReference)
    (horphans : p'.orphanEventsByTask = p.orphanEventsByTask)
    (hrouted : p'.routedEventIds = p.routedEventIds) : p.Carries shown p' where
  bound t ht := by rwa [htasks]
  events t ht := by
    rw [HasEvents, horphans, hrouted] at ht
    exact Or.inl ht

theorem Carries.trans (h : p.Carries shown p') (h' : p'.Carries shown p'') :
    p.Carries shown p'' where
  bound t ht := h'.bound t (h.bound t ht)
  events t ht := by
    obtain ht | hnew := h'.events t ht
    · exact (h.events t ht).imp_right fun hnew => hnew.imp_left (h'.bound t)
    · exact Or.inr hnew

theorem carries_bind (p : GraphQLPostman) (task reference : String) :
    p.Carries shown (p.bind task reference) := by
  refine ⟨fun t ht => ?_, fun t ht => Or.inl ?_⟩
  · rw [(bind_tables p task reference).taskToReference, Dict.get?_set]
    split
    · rintro ⟨⟩
    · exact ht
  · refine ht.imp (fun horphans hnone => horphans ?_) fun hrouted hnone => hrouted ?_
    · rw [bind]
      split <;> simp [hnone, put]
    · rw [bind]
      split <;> exact hnone

theorem carries_route {event : TaskEventChange} (hshown : shown event.task) :
    p.Carries shown (p.route event) := by
  refine ⟨fun t ht => ?_, fun t ht => ?_⟩
  · rwa [(route_tables p event).taskToReference]
  · by_cases htask : t = event.task
    · rw [htask]
      exact Or.inr (Or.inr hshown)
    · left
      rw [route] at ht
      split at ht
      · exact ht
      · simp only at ht
        split at ht <;> simpa [HasEvents, htask, put] using ht

theorem carries_catchUp (p : GraphQLPostman) (task : String) (history : List TaskEventChange) :
    p.Carries shown (p.catchUp task history) := by
  refine ⟨fun t ht => ?_, fun t ht => ?_⟩
  · rwa [(catchUp_tables p task history).taskToReference]
  · cases hqueue : p.queueOf task with
    | none =>
      rw [catchUp_of_none hqueue] at ht
      exact Or.inl ht
    | some queue =>
      by_cases htask : t = task
      · obtain ⟨r, hr, -⟩ := Option.bind_eq_some_iff.mp hqueue
        rw [(catchUp_tables p task history).taskToReference, htask, hr]
        exact Or.inr (Or.inl (by rintro ⟨⟩))
      · left
        simpa [HasEvents, catchUp, hqueue, htask] using ht

theorem carries_handle (p : GraphQLPostman) {change : TaskChangeEvent}
    (hshown : ∀ event, change.event = some event → shown event.task) :
    p.Carries shown (p.handle change) := by
  have hcreate : p.Carries shown (p.handleCreate change.create) := by
    rw [handleCreate.eq_def]
    split
    · split
      · exact .of_eq rfl rfl rfl
      · exact carries_bind p _ _
    · exact .of_eq rfl rfl rfl
    · exact .of_eq rfl rfl rfl
  refine hcreate.trans ?_
  rw [handle]
  cases hevent : change.event with
  | some event => exact carries_route (hshown event hevent)
  | none => exact .of_eq rfl rfl rfl

theorem carries_failPending (p : GraphQLPostman) (reason : String) :
    p.Carries shown (p.failPending reason) := by
  have hfold : ∀ (l : List ℕ) (p : GraphQLPostman),
      p.Carries shown (l.foldl (fun p queue => p.put queue [.feedLost reason]) p) := by
    intro l
    induction l with
    | nil => exact fun p => .of_eq rfl rfl rfl
    | cons queue l ih =>
      intro p
      have hput : p.Carries shown (p.put queue [.feedLost reason]) := .of_eq rfl rfl rfl
      exact hput.trans (ih _)
  have hflags : p.Carries shown { p with watching := false, feedLive := false } :=
    .of_eq rfl rfl rfl
  exact hflags.trans (hfold _ _)

/-! ## What a clean-up drops

`_cleanup_reference` is given a reference only. The task on record for it goes with it if that task
is bound to the reference, as `Recorded` keeps it.
-/

/-- The postman has no entry about a task. -/
structure Forgot (p : GraphQLPostman) (task : String) : Prop where
  unbound : p.taskToReference.get? task = none
  back : ∀ r, p.referenceToTask.get? r ≠ some task
  orphans : p.orphanEventsByTask.get? task = none
  routed : p.routedEventIds.get? task = none

/-- A clean-up drops the entries of the reference, and of the task on record for it. -/
theorem get?_cleanupReference (p : GraphQLPostman) (reference : String) :
    (∀ r, (p.cleanupReference reference).assUpdateQueues.get? r
      = if r = reference then none else p.assUpdateQueues.get? r) ∧
    (∀ r, (p.cleanupReference reference).referenceToTask.get? r
      = if r = reference then none else p.referenceToTask.get? r) ∧
    (∀ r, (p.cleanupReference reference).catchUpTasks.get? r
      = if r = reference then none else p.catchUpTasks.get? r) ∧
    (∀ t, (p.cleanupReference reference).taskToReference.get? t
      = if p.referenceToTask.get? reference = some t then none else p.taskToReference.get? t) ∧
    (∀ t, (p.cleanupReference reference).orphanEventsByTask.get? t
      = if p.referenceToTask.get? reference = some t then none
        else p.orphanEventsByTask.get? t) ∧
    ∀ t, (p.cleanupReference reference).routedEventIds.get? t
      = if p.referenceToTask.get? reference = some t then none else p.routedEventIds.get? t := by
  rw [cleanupReference]
  cases hr : p.referenceToTask.get? reference with
  | none =>
    refine ⟨by simp, fun r => ?_, by simp, by simp, by simp, by simp⟩
    by_cases h : r = reference
    · simp [h, hr]
    · simp [h]
  | some tid => simp [eq_comm]

/-- Each task on record for a reference is bound to it. -/
def Recorded (p : GraphQLPostman) : Prop :=
  ∀ r t, p.referenceToTask.get? r = some t → p.taskToReference.get? t = some r

theorem Recorded.bind (h : p.Recorded)
    (hsame : ∀ r, p.taskToReference.get? task = some r → r = reference) :
    (p.bind task reference).Recorded := by
  obtain ⟨-, -, -, htasks, hreferences⟩ := bind_tables p task reference
  intro r t ht
  rw [hreferences] at ht
  rw [htasks]
  obtain ⟨rfl, rfl⟩ | ⟨hne, ht⟩ := Dict.get?_set_eq_some.mp ht
  · simp
  · have hbound := h r t ht
    have htask : t ≠ task := fun heq => hne (hsame r (heq ▸ hbound))
    simpa [htask] using hbound

theorem Recorded.of_same (h : p.Recorded) {p' : GraphQLPostman} (hsame : SameTables p p') :
    p'.Recorded := by
  rw [Recorded, hsame.taskToReference, hsame.referenceToTask]
  exact h

theorem Recorded.cleanupReference (h : p.Recorded) :
    (p.cleanupReference reference).Recorded := by
  obtain ⟨-, hreferences, -, htasks, -, -⟩ := get?_cleanupReference p reference
  intro r t ht
  rw [hreferences, Option.ite_none_left_eq_some] at ht
  obtain ⟨hne, ht⟩ := ht
  rw [htasks, if_neg]
  · exact h r t ht
  · exact fun htid => hne (Option.some.inj ((h r t ht).symm.trans (h reference t htid)))

/-- The task that is on record for a reference and bound to it is forgotten with it. -/
theorem Recorded.forgot (h : p.Recorded) (htask : p.taskToReference.get? task = some reference)
    (htid : p.referenceToTask.get? reference = some task) :
    (p.cleanupReference reference).Forgot task := by
  obtain ⟨-, hreferences, -, htasks, horphans, hrouted⟩ := get?_cleanupReference p reference
  refine ⟨by rw [htasks, if_pos htid], fun r hr => ?_, by rw [horphans, if_pos htid],
    by rw [hrouted, if_pos htid]⟩
  rw [hreferences, Option.ite_none_left_eq_some] at hr
  obtain ⟨hne, hr⟩ := hr
  exact hne (Option.some.inj ((h r task hr).symm.trans htask))

/-- A clean-up brings nothing back about a task. -/
theorem Forgot.cleanupReference (h : p.Forgot task) :
    (p.cleanupReference reference).Forgot task := by
  obtain ⟨-, hreferences, -, htasks, horphans, hrouted⟩ := get?_cleanupReference p reference
  refine ⟨?_, fun r hr => ?_, ?_, ?_⟩
  · rw [htasks, h.unbound, ite_self]
  · rw [hreferences, Option.ite_none_left_eq_some] at hr
    exact h.back r hr.2
  · rw [horphans, h.orphans, ite_self]
  · rw [hrouted, h.routed, ite_self]

end GraphQLPostman

namespace PostmanWorld

variable {w w' u u' : PostmanWorld} {act : PostmanAct} {id : ℕ} {c : AssignCall}

/-! ## How an event ends a call

Most events end none, and each call goes on under its reference. A call ends by a clean-up, except
where it is cancelled a second time before its assign is answered.
-/

/-- The call that a reading task reads for, which was told its task. -/
def ReadsFor (calls : Dict ℕ AssignCall) (reference : String) (id : ℕ) : Prop :=
  ∃ c, calls.get? id = some c ∧ c.Live ∧ c.reference = reference ∧ c.phase.task.isSome

/-- The event hands on an event of the task. -/
def Shows (w : PostmanWorld) (act : PostmanAct) (task : String) : Prop :=
  ∃ change event, w.handling act = some change ∧ change.event = some event ∧ event.task = task

/-- What an event that ends no call keeps of the tables and of the tasks that were created. -/
structure Keeps (w : PostmanWorld) (act : PostmanAct) (w' : PostmanWorld) : Prop where
  carries : w.postman.Carries (w.Shows act) w'.postman
  created : ∀ t entry, w.server.created.get? t = some entry →
    w'.server.created.get? t = some entry

theorem Keeps.of_eq (htasks : w'.postman.taskToReference = w.postman.taskToReference)
    (horphans : w'.postman.orphanEventsByTask = w.postman.orphanEventsByTask)
    (hrouted : w'.postman.routedEventIds = w.postman.routedEventIds)
    (hcreated : w'.server.created = w.server.created) : w.Keeps act w' :=
  ⟨.of_eq htasks horphans hrouted, fun _ _ h => hcreated ▸ h⟩

/-- No call ends in an event: each goes on under its reference, and so do the reading tasks, but for
those that are done, and one that is set for its call. -/
structure GoesOn (w : PostmanWorld) (act : PostmanAct) (w' : PostmanWorld) : Prop
    extends w.Keeps act w' where
  ended : ∀ id c, w'.calls.get? id = some c → c.Live ∨ w.calls.get? id = some c
  live : ∀ id c, w.calls.get? id = some c → c.Live → ∃ c', w'.calls.get? id = some c' ∧ c'.Live ∧
    c'.reference = c.reference ∧ (c.phase.task.isSome → c'.phase.task.isSome)
  set : ∀ r q, w'.postman.catchUpTasks.get? r = some q →
    w.postman.catchUpTasks.get? r = some q ∨ ReadsFor w'.calls r q
  kept : ∀ r q, w.postman.catchUpTasks.get? r = some q →
    w'.postman.catchUpTasks.get? r = some q ∨
      ∃ q', ReadsFor w'.calls r q' ∧ w'.postman.catchUpTasks.get? r = some q'
  polls : ∀ id poll, w'.polls.get? id = some poll → (∃ poll', w.polls.get? id = some poll') ∨
    ∃ r, ReadsFor w'.calls r id ∧ w'.postman.catchUpTasks.get? r = some id

/-- How calls end in an event. -/
inductive Concludes (w : PostmanWorld) (act : PostmanAct) : PostmanWorld → Prop
  | goesOn {w' : PostmanWorld} (h : w.GoesOn act w') : Concludes w act w'
  /-- A second cancellation. -/
  | abandoned {id : ℕ} {c : AssignCall} (is : act = .cancel id) (call : w.calls.get? id = some c)
    (phase : c.phase = .assignedDespiteCancel) :
    Concludes w act (w.setCall id { c with phase := .ended .cancelled })
  /-- A call ends, and is cleaned up after; it may have taken an item. -/
  | finished {id : ℕ} {c : AssignCall} {outcome : AssignOutcome} {queues : ℕ → List QueueItem}
    (call : w.calls.get? id = some c) (live : c.Live)
    (others : ∀ q, q ≠ id → queues q = w.postman.queues q) :
    Concludes w act
      ({ w with postman := { w.postman with queues := queues } }.finish id c outcome)

/-- The calls and the reading tasks stay. -/
theorem GoesOn.of_same (hcalls : w'.calls = w.calls)
    (hkeeps : w.Keeps act w')
    (htasks : w'.postman.catchUpTasks = w.postman.catchUpTasks)
    (hpolls : ∀ id poll, w'.polls.get? id = some poll → ∃ poll', w.polls.get? id = some poll') :
    w.GoesOn act w' where
  toKeeps := hkeeps
  ended _ _ hc := Or.inr (hcalls ▸ hc)
  live _ c hc hlive := ⟨c, hcalls ▸ hc, hlive, rfl, fun htold => htold⟩
  set _ _ hq := Or.inl (htasks ▸ hq)
  kept _ _ hq := Or.inl (htasks ▸ hq)
  polls id poll hpoll := Or.inl (hpolls id poll hpoll)

/-- The postman or the server changes, and the tables of the reading tasks do not. -/
theorem GoesOn.of_tables (hcalls : w'.calls = w.calls)
    (hkeeps : w.Keeps act w')
    (htasks : w'.postman.catchUpTasks = w.postman.catchUpTasks) (hpolls : w'.polls = w.polls) :
    w.GoesOn act w' :=
  .of_same hcalls hkeeps htasks fun _ poll hpoll => ⟨poll, hpolls ▸ hpoll⟩

/-- A call is set that is new, or goes on. -/
theorem GoesOn.of_call {c' : AssignCall} (hcalls : w'.calls = w.calls.set id c')
    (hlive : c'.Live) (hc : ∀ c, w.calls.get? id = some c → c'.reference = c.reference ∧
      (c.phase.task.isSome → c'.phase.task.isSome))
    (hkeeps : w.Keeps act w')
    (htasks : w'.postman.catchUpTasks = w.postman.catchUpTasks) (hpolls : w'.polls = w.polls) :
    w.GoesOn act w' where
  toKeeps := hkeeps
  ended id' c₀ h₀ := by
    rw [hcalls] at h₀
    obtain ⟨-, rfl⟩ | ⟨-, h₀⟩ := Dict.get?_set_eq_some.mp h₀
    · exact Or.inl hlive
    · exact Or.inr h₀
  live id' c₀ h₀ hlive₀ := by
    rw [hcalls]
    by_cases hid : id' = id
    · subst hid
      exact ⟨c', by simp, hlive, (hc c₀ h₀).1, (hc c₀ h₀).2⟩
    · exact ⟨c₀, by simpa [hid] using h₀, hlive₀, rfl, fun htold => htold⟩
  set _ _ hq := Or.inl (htasks ▸ hq)
  kept _ _ hq := Or.inl (htasks ▸ hq)
  polls _ poll hpoll := Or.inl ⟨poll, hpolls ▸ hpoll⟩

/-- A live call goes to another phase. -/
theorem GoesOn.of_phase {phase phase' : AssignPhase} (hc : w.calls.get? id = some c)
    (hphase : c.phase = phase) {c' : AssignCall} (hcalls : w'.calls = w.calls.set id c')
    (href : c'.reference = c.reference) (hphase' : c'.phase = phase')
    (hlive : ∀ outcome, phase' ≠ .ended outcome) (htold : phase.task.isSome → phase'.task.isSome)
    (hkeeps : w.Keeps act w')
    (htasks : w'.postman.catchUpTasks = w.postman.catchUpTasks) (hpolls : w'.polls = w.polls) :
    w.GoesOn act w' := by
  refine .of_call hcalls (live_of_phase hphase' hlive) (fun c₀ h₀ => ?_) hkeeps htasks hpolls
  obtain rfl := Option.some.inj (hc.symm.trans h₀)
  rw [hphase, hphase']
  exact ⟨href, htold⟩

/-- A live call goes to another phase; it may have taken an item. -/
theorem GoesOn.of_setCall {phase phase' : AssignPhase} {queues : ℕ → List QueueItem}
    (hc : w.calls.get? id = some c) (hphase : c.phase = phase)
    (hlive : ∀ outcome, phase' ≠ .ended outcome)
    (htold : phase.task.isSome → phase'.task.isSome) :
    w.GoesOn act ({ w with postman := { w.postman with queues := queues } }.setCall id
      { c with phase := phase' }) :=
  .of_phase hc hphase rfl rfl rfl hlive htold (.of_eq rfl rfl rfl rfl) rfl rfl

theorem concludes_finish (hc : w.calls.get? id = some c) (hlive : c.Live)
    (outcome : AssignOutcome) : w.Concludes act (w.finish id c outcome) := by
  have hothers : ∀ q, q ≠ id → w.postman.queues q = w.postman.queues q := fun _ _ => rfl
  exact .finished hc hlive hothers

theorem concludes_control (queues : ℕ → List QueueItem) (hc : w.calls.get? id = some c)
    (task : String) (request : TaskControl) (wait : Confirmation) :
    w.Concludes act
      ({ w with postman := { w.postman with queues := queues } }.control id c task request wait) :=
  .goesOn (.of_phase hc rfl rfl rfl rfl (by rintro _ ⟨⟩) (fun _ => rfl) (.of_eq rfl rfl rfl rfl)
        rfl rfl)

/-- A call that waits for a confirmation escalates or ends. -/
theorem concludes_unconfirmed {queues : ℕ → List QueueItem} (hc : w.calls.get? id = some c)
    (hlive : c.Live) (hothers : ∀ q, q ≠ id → queues q = w.postman.queues q) (task : String)
    (wait : Confirmation) :
    w.Concludes act
      ({ w with postman := { w.postman with queues := queues } }.unconfirmed id c task wait) := by
  rw [unconfirmed]
  split
  · exact concludes_control queues hc task _ _
  · exact .finished hc hlive hothers

theorem concludes_assign {reference : String} {escalate : Bool}
    (hs : step w (.assign id reference escalate) = some w') :
    w.Concludes (.assign id reference escalate) w' := by
  simp only [step] at hs
  split at hs
  · cases hs
  · rename_i hnew
    obtain rfl := Option.some.inj hs
    have hfresh : ∀ c : AssignCall, w.calls.get? id ≠ some c := by
      rw [hnew]
      rintro c ⟨⟩
    refine .goesOn ?_
    rw [startWatching]
    split
    · exact .of_call rfl (by rintro _ ⟨⟩) (fun c hc => absurd hc (hfresh c))
        (.of_eq rfl rfl rfl rfl) rfl rfl
    · exact .of_call rfl (by rintro _ ⟨⟩) (fun c hc => absurd hc (hfresh c))
        (.of_eq rfl rfl rfl rfl) rfl rfl

theorem concludes_cancelled (hc : w.calls.get? id = some c) (hs : w.cancelled id c = some w') :
    w.Concludes (.cancel id) w' := by
  cases hphase : c.phase <;>
    simp only [cancelled, hphase, Option.some.injEq, reduceCtorEq] at hs <;> subst hs
  case assigning =>
    exact .goesOn (.of_setCall hc hphase (by rintro _ ⟨⟩) (by rintro ⟨⟩))
  case assignedDespiteCancel => exact .abandoned rfl hc hphase
  case confirming => exact concludes_finish hc (live_of_phase hphase (by rintro _ ⟨⟩)) _
  all_goals exact concludes_control w.postman.queues hc _ _ _

theorem concludes_answered {task : String} (hc : w.calls.get? id = some c)
    (hs : w.answered id c task = some w') : w.Concludes (.answer id task) w' := by
  cases hphase : c.phase <;>
    simp only [answered, hphase, Option.some.injEq, reduceCtorEq] at hs <;> subst hs
  case assigning =>
    refine .goesOn (.of_phase hc hphase rfl rfl rfl ?_ (by rintro ⟨⟩)
      ⟨carries_bind _ _ _, fun _ _ h => h⟩ (catchUpTasks_bind _ _ _) rfl)
    intro outcome
    split <;> rintro ⟨⟩
  case assignedDespiteCancel =>
    exact .goesOn (.of_phase hc hphase rfl rfl rfl (by rintro _ ⟨⟩) (by rintro ⟨⟩)
      ⟨carries_bind _ _ _, fun _ _ h => h⟩ (catchUpTasks_bind _ _ _) rfl)

/-- The postman goes on, and a reading task is set for a call that is told its task. -/
theorem concludes_caughtUp {task : String} {read : Option TaskEvents} {p : GraphQLPostman}
    (hc : w.calls.get? id = some c) (hphase : c.phase = .catchingUp task read)
    (hcarries : w.postman.Carries (w.Shows act) p)
    (htasks : p.catchUpTasks = w.postman.catchUpTasks) :
    w.Concludes act ({ w with postman := p }.caughtUp id c task) := by
  rw [caughtUp]
  split
  · exact .goesOn (.of_phase hc hphase rfl rfl rfl (by rintro _ ⟨⟩) (fun _ => rfl)
      ⟨hcarries.trans (.of_eq rfl rfl rfl), fun _ _ h => h⟩ htasks rfl)
  · have hstream : GoesOn w act (w.setCall id { c with phase := .streaming task }) :=
      .of_setCall hc hphase (by rintro _ ⟨⟩) fun _ => rfl
    have hreads : ReadsFor (w.calls.set id { c with phase := .streaming task }) c.reference id :=
      ⟨_, Dict.get?_set_eq_some.mpr (Or.inl ⟨rfl, rfl⟩), by rintro _ ⟨⟩, rfl, rfl⟩
    refine .goesOn ⟨⟨hcarries.trans (.of_eq rfl rfl rfl), fun _ _ h => h⟩, hstream.ended,
      hstream.live, fun r q hq => ?_, fun r q hq => ?_, fun id' poll hpoll => ?_⟩
    · obtain ⟨rfl, rfl⟩ | ⟨-, hq⟩ := Dict.get?_set_eq_some.mp hq
      · exact Or.inr hreads
      · exact Or.inl (htasks ▸ hq)
    · by_cases hr : r = c.reference
      · subst hr
        exact Or.inr ⟨id, hreads, Dict.get?_set_eq_some.mpr (Or.inl ⟨rfl, rfl⟩)⟩
      · exact Or.inl (Dict.get?_set_eq_some.mpr (Or.inr ⟨hr, htasks.symm ▸ hq⟩))
    · obtain ⟨rfl, rfl⟩ | ⟨-, hpoll⟩ := Dict.get?_set_eq_some.mp hpoll
      · exact Or.inr ⟨c.reference, hreads, Dict.get?_set_eq_some.mpr (Or.inl ⟨rfl, rfl⟩)⟩
      · exact Or.inl ⟨poll, hpoll⟩

/-- What a read leaves: the world with the tables caught up, or as it was. -/
theorem afterRead_eq {task : String} {read : Option TaskEvents} {succeeds : Bool}
    (hs : w.afterRead task read succeeds = some u) :
    ∃ p, u = { w with postman := p } ∧ (∀ shown, w.postman.Carries shown p) ∧
      p.catchUpTasks = w.postman.catchUpTasks := by
  cases succeeds with
  | false =>
    obtain rfl := Option.some.inj hs
    exact ⟨w.postman, rfl, fun _ => .of_eq rfl rfl rfl, rfl⟩
  | true =>
    obtain ⟨r, -, rfl⟩ := Option.map_eq_some_iff.mp hs
    exact ⟨_, rfl, fun _ => carries_catchUp _ _ _, catchUpTasks_catchUp _ _ _⟩

/-- A reading task goes on, or is done. -/
theorem polls_of_change {polls : Dict ℕ Poll} {poll poll' : Poll} (live : Bool)
    (hpoll : polls.get? id = some poll) (id' : ℕ) (poll₀ : Poll)
    (h : (if live then polls.erase id else polls.set id poll').get? id' = some poll₀) :
    ∃ poll, polls.get? id' = some poll := by
  split at h
  · exact ⟨poll₀, (Dict.get?_erase_eq_some.mp h).2⟩
  · obtain ⟨rfl, -⟩ | ⟨-, h⟩ := Dict.get?_set_eq_some.mp h
    · exact ⟨poll, hpoll⟩
    · exact ⟨poll₀, h⟩

/-- The task that watches the feed reads for the next call, or handles the change it holds. -/
theorem goesOn_watchOn {p : GraphQLPostman} {server : TaskServer} {todo : List String}
    {change : TaskChangeEvent} (hhandling : todo = [] → w.handling act = some change)
    (hcarries : w.postman.Carries (w.Shows act) p)
    (htasks : p.catchUpTasks = w.postman.catchUpTasks)
    (hcreated : server.created = w.server.created) :
    w.GoesOn act ({ w with postman := p, server := server }.watchOn todo change) := by
  rw [watchOn.eq_def]
  split
  · refine .of_tables rfl ⟨hcarries.trans (carries_handle p fun event hevent => ?_),
      fun _ _ h => hcreated ▸ h⟩ ((catchUpTasks_handle _ _).trans htasks) rfl
    exact ⟨change, event, hhandling rfl, hevent, rfl⟩
  · exact .of_tables rfl ⟨hcarries, fun _ _ h => hcreated ▸ h⟩ htasks rfl

theorem concludes_readDone {reader : Reader} {succeeds : Bool}
    (hs : w.readDone succeeds reader = some w') : w.Concludes (.readDone reader succeeds) w' := by
  cases reader with
  | call id =>
    obtain ⟨c, hc, hs⟩ := Option.bind_eq_some_iff.mp hs
    split at hs
    · rename_i task read hphase
      obtain ⟨u, hu, rfl⟩ := Option.map_eq_some_iff.mp hs
      obtain ⟨p, rfl, hcarries, htasks⟩ := afterRead_eq hu
      exact concludes_caughtUp hc hphase (hcarries _) htasks
    · cases hs
  | poll id =>
    simp only [readDone] at hs
    split at hs
    · rename_i task read hpoll
      obtain ⟨u, hu, rfl⟩ := Option.map_eq_some_iff.mp hs
      obtain ⟨p, rfl, hcarries, htasks⟩ := afterRead_eq hu
      exact .goesOn (.of_same rfl ⟨hcarries _, fun _ _ h => h⟩ htasks (polls_of_change _ hpoll))
    · cases hs
  | watch =>
    simp only [readDone] at hs
    split at hs
    · rename_i task todo read change hwatch
      obtain ⟨u, hu, rfl⟩ := Option.map_eq_some_iff.mp hs
      obtain ⟨p, rfl, hcarries, htasks⟩ := afterRead_eq hu
      refine .goesOn (goesOn_watchOn ?_ (hcarries _) htasks rfl)
      rintro rfl
      simp [handling, hwatch]
    · cases hs

theorem concludes_read {reader : Reader} (hs : w.read reader = some w') :
    w.Concludes (.read reader) w' := by
  cases reader with
  | call id =>
    obtain ⟨c, hc, hs⟩ := Option.bind_eq_some_iff.mp hs
    split at hs
    · rename_i task hphase
      obtain rfl := Option.some.inj hs
      exact .goesOn (.of_setCall hc hphase (by rintro _ ⟨⟩) fun _ => rfl)
    · cases hs
  | poll id =>
    simp only [read] at hs
    split at hs
    · rename_i task hpoll
      obtain rfl := Option.some.inj hs
      exact .goesOn (.of_same rfl (.of_eq rfl rfl rfl rfl) rfl (polls_of_change false hpoll))
    · cases hs
  | watch =>
    simp only [read] at hs
    split at hs
    · obtain rfl := Option.some.inj hs
      exact .goesOn (.of_tables rfl (.of_eq rfl rfl rfl rfl) rfl rfl)
    · cases hs

/-- Taking an item changes the own queue. -/
theorem pop_eq {item : QueueItem} (hpop : w.pop id = some (item, u)) :
    ∃ queues, u = { w with postman := { w.postman with queues := queues } } ∧
      ∀ q, q ≠ id → queues q = w.postman.queues q := by
  obtain ⟨items, -, rfl⟩ := pop_eq_some hpop
  exact ⟨_, rfl, fun q hq => Function.update_of_ne hq _ _⟩

theorem concludes_take (hs : step w (.take id) = some w') : w.Concludes (.take id) w' := by
  obtain ⟨c, hc, hs⟩ := Option.bind_eq_some_iff.mp hs
  split at hs
  · rename_i task hphase
    obtain ⟨⟨item, u⟩, hpop, rfl⟩ := Option.map_eq_some_iff.mp hs
    obtain ⟨queues, rfl, hothers⟩ := pop_eq hpop
    cases item with
    | event event =>
      exact .goesOn (.of_phase hc hphase rfl rfl rfl (by rintro _ ⟨⟩) (fun _ => rfl)
        (.of_eq rfl rfl rfl rfl) rfl rfl)
    | feedLost reason => exact .finished hc (live_of_phase hphase (by rintro _ ⟨⟩)) hothers
  · cases hs

theorem concludes_confirm (hs : step w (.confirm id) = some w') : w.Concludes (.confirm id) w' := by
  obtain ⟨c, hc, hs⟩ := Option.bind_eq_some_iff.mp hs
  have htook : ∀ {task : String} {wait : Confirmation} {item : QueueItem} {u : PostmanWorld},
      c.phase.task = some task → w.pop id = some (item, u) →
      w.Concludes (.confirm id) (u.confirmed id c task wait item) := by
    intro task wait item u htask hpop
    obtain ⟨queues, rfl, hothers⟩ := pop_eq hpop
    cases item with
    | event event =>
      rw [confirmed]
      split
      · exact .finished hc (live_of_task htask) hothers
      · exact .goesOn (.of_tables rfl (.of_eq rfl rfl rfl rfl) rfl rfl)
    | feedLost reason => exact concludes_unconfirmed hc (live_of_task htask) hothers _ _
  split at hs
  · rename_i task hphase
    obtain ⟨⟨item, u⟩, hpop, rfl⟩ := Option.map_eq_some_iff.mp hs
    exact htook (by rw [hphase]; rfl) hpop
  · rename_i task hphase
    obtain ⟨⟨item, u⟩, hpop, rfl⟩ := Option.map_eq_some_iff.mp hs
    exact htook (by rw [hphase]; rfl) hpop
  · cases hs

theorem concludes_timeout (hs : step w (.timeout id) = some w') : w.Concludes (.timeout id) w' := by
  obtain ⟨c, hc, hs⟩ := Option.bind_eq_some_iff.mp hs
  split at hs
  · rename_i hphase
    obtain rfl := Option.some.inj hs
    exact concludes_finish hc (live_of_phase hphase (by rintro _ ⟨⟩)) _
  · rename_i task hphase
    obtain rfl := Option.some.inj hs
    exact concludes_unconfirmed hc (live_of_phase hphase (by rintro _ ⟨⟩)) (fun _ _ => rfl) _ _
  · rename_i task hphase
    obtain rfl := Option.some.inj hs
    exact concludes_unconfirmed hc (live_of_phase hphase (by rintro _ ⟨⟩)) (fun _ _ => rfl) _ _
  · cases hs

theorem concludes_deliver (hs : step w .deliver = some w') : w.Concludes .deliver w' := by
  simp only [step] at hs
  split at hs
  · rename_i change feed hwatch hfeed
    split at hs
    · rename_i hlive
      obtain rfl := Option.some.inj hs
      refine .goesOn (goesOn_watchOn (fun _ => ?_) (.of_eq rfl rfl rfl) rfl rfl)
      have hlive' : w.postman.feedLive := hlive
      simp [handling, hwatch, hfeed, hlive']
    · obtain rfl := Option.some.inj hs
      refine .goesOn (goesOn_watchOn (fun hkeys => ?_) (.of_eq rfl rfl rfl) rfl rfl)
      have hkeys' : w.postman.taskToReference.keys = [] := hkeys
      simp [handling, hwatch, hfeed, hkeys']
  · cases hs

/-- Every event concludes: no call ends, or one does, by a clean-up or by a second cancellation. -/
theorem concludes_step (hs : step w act = some w') : w.Concludes act w' := by
  cases act with
  | assign id reference escalate => exact concludes_assign hs
  | create id task =>
    simp only [step] at hs
    split at hs
    · rename_i hnew
      rw [Option.ite_none_right_eq_some, Option.some.injEq] at hs
      obtain ⟨-, rfl⟩ := hs
      exact .goesOn (.of_tables rfl ⟨.of_eq rfl rfl rfl, fun _ _ => Dict.get?_set_of_new hnew _⟩
        rfl rfl)
    · cases hs
  | createForeign task reference =>
    simp only [step] at hs
    split at hs
    · rename_i hnew
      obtain rfl := Option.some.inj hs
      exact .goesOn (.of_tables rfl ⟨.of_eq rfl rfl rfl, fun _ _ => Dict.get?_set_of_new hnew _⟩
        rfl rfl)
    · cases hs
  | report event =>
    simp only [step, Option.ite_none_right_eq_some, Option.some.injEq] at hs
    obtain ⟨-, rfl⟩ := hs
    exact .goesOn (.of_tables rfl (.of_eq rfl rfl rfl rfl) rfl rfl)
  | subscribe =>
    simp only [step] at hs
    split at hs
    · cases hs
    · cases hs
    · obtain rfl := Option.some.inj hs
      exact .goesOn (.of_tables rfl (.of_eq rfl rfl rfl rfl) rfl rfl)
  | deliver => exact concludes_deliver hs
  | feedEnds reason =>
    simp only [step] at hs
    split at hs
    · obtain rfl := Option.some.inj hs
      exact .goesOn (.of_tables rfl ⟨carries_failPending _ _, fun _ _ h => h⟩
        (catchUpTasks_failPending _ _) rfl)
    · cases hs
  | read reader => exact concludes_read hs
  | readDone reader succeeds => exact concludes_readDone hs
  | wake id =>
    simp only [step] at hs
    split at hs
    · rename_i task hpoll
      obtain rfl := Option.some.inj hs
      exact .goesOn (.of_same rfl (.of_eq rfl rfl rfl rfl) rfl (polls_of_change _ hpoll))
    · cases hs
  | answer id task =>
    obtain ⟨c, hc, hs⟩ := Option.bind_eq_some_iff.mp hs
    exact concludes_answered hc hs
  | assignFails id error =>
    obtain ⟨c, hc, hs⟩ := Option.bind_eq_some_iff.mp hs
    split at hs
    · rename_i hphase
      obtain rfl := Option.some.inj hs
      exact concludes_finish hc (live_of_phase hphase (by rintro _ ⟨⟩)) _
    · rename_i hphase
      obtain rfl := Option.some.inj hs
      exact concludes_finish hc (live_of_phase hphase (by rintro _ ⟨⟩)) _
    · cases hs
  | take id => exact concludes_take hs
  | next id =>
    obtain ⟨c, hc, hs⟩ := Option.bind_eq_some_iff.mp hs
    split at hs
    · rename_i task hphase
      obtain rfl := Option.some.inj hs
      exact .goesOn (.of_setCall hc hphase (by rintro _ ⟨⟩) fun _ => rfl)
    · cases hs
  | close id =>
    obtain ⟨c, hc, hs⟩ := Option.bind_eq_some_iff.mp hs
    split at hs
    · rename_i task hphase
      obtain rfl := Option.some.inj hs
      exact concludes_finish hc (live_of_phase hphase (by rintro _ ⟨⟩)) _
    · cases hs
  | cancel id =>
    obtain ⟨c, hc, hs⟩ := Option.bind_eq_some_iff.mp hs
    exact concludes_cancelled hc hs
  | controlSent id =>
    obtain ⟨c, hc, hs⟩ := Option.bind_eq_some_iff.mp hs
    split at hs
    · rename_i task hphase
      obtain rfl := Option.some.inj hs
      exact .goesOn (.of_setCall hc hphase (by rintro _ ⟨⟩) fun _ => rfl)
    · rename_i task hphase
      obtain rfl := Option.some.inj hs
      exact .goesOn (.of_setCall hc hphase (by rintro _ ⟨⟩) fun _ => rfl)
    · cases hs
  | confirm id => exact concludes_confirm hs
  | timeout id => exact concludes_timeout hs

/-! ## The reading tasks -/

theorem ReadsFor.unique {reference : String} {id' : ℕ} (hregistered : w.Registered)
    (h : ReadsFor w.calls reference id) (h' : ReadsFor w.calls reference id') : id = id' := by
  obtain ⟨c, hc, hlive, rfl, -⟩ := h
  obtain ⟨c', hc', hlive', href, -⟩ := h'
  exact hregistered.unique hc hlive hc' hlive' href.symm

/-- A reading task is on record for a live call that was told its task, and each that runs is on
record. -/
structure Readers (w : PostmanWorld) : Prop where
  recorded : ∀ r q, w.postman.catchUpTasks.get? r = some q → ReadsFor w.calls r q
  polls : ∀ id poll, w.polls.get? id = some poll →
    ∃ r, w.postman.catchUpTasks.get? r = some id

theorem GoesOn.readsFor (h : w.GoesOn act w') {reference : String}
    (hreads : ReadsFor w.calls reference id) : ReadsFor w'.calls reference id := by
  obtain ⟨c, hc, hlive, rfl, htold⟩ := hreads
  obtain ⟨c', hc', hlive', href, htold'⟩ := h.live id c hc hlive
  exact ⟨c', hc', hlive', href, htold' htold⟩

theorem Readers.goesOn (h : w.Readers) (hgoes : w.GoesOn act w') (hregistered : w'.Registered) :
    w'.Readers where
  recorded r q hq :=
    (hgoes.set r q hq).elim (fun hq => hgoes.readsFor (h.recorded r q hq)) fun hreads => hreads
  polls id poll hpoll := by
    obtain ⟨poll', hpoll⟩ | ⟨r, -, hr⟩ := hgoes.polls id poll hpoll
    · obtain ⟨r, hr⟩ := h.polls id poll' hpoll
      obtain hr' | ⟨q, hreads, hq⟩ := hgoes.kept r id hr
      · exact ⟨r, hr'⟩
      · rw [← hreads.unique hregistered (hgoes.readsFor (h.recorded r id hr))]
        exact ⟨r, hq⟩
    · exact ⟨r, hr⟩

theorem ReadsFor.set_of_ne {calls : Dict ℕ AssignCall} {reference : String} {id' : ℕ}
    {c' : AssignCall} (h : ReadsFor calls reference id') (hne : id' ≠ id) :
    ReadsFor (calls.set id c') reference id' := by
  obtain ⟨c₀, h₀, hrest⟩ := h
  exact ⟨c₀, by simpa [hne] using h₀, hrest⟩

/-- The reading task of a call that is cleaned up after is cancelled, and the others go on. -/
theorem Readers.finish (h : w.Readers) {queues : ℕ → List QueueItem} {outcome : AssignOutcome}
    (hc : w.calls.get? id = some c) :
    Readers ({ w with postman := { w.postman with queues := queues } }.finish id c outcome) := by
  obtain ⟨-, -, htasks, -⟩ :=
    get?_cleanupReference { w.postman with queues := queues } c.reference
  refine ⟨fun r q hq => ?_, fun id' poll hpoll => ?_⟩
  · obtain ⟨hr, hq⟩ := Option.ite_none_left_eq_some.mp ((htasks r).symm.trans hq)
    have hreads := h.recorded r q hq
    refine hreads.set_of_ne ?_
    rintro rfl
    obtain ⟨c₀, h₀, -, rfl, -⟩ := hreads
    obtain rfl := Option.some.inj (hc.symm.trans h₀)
    exact hr rfl
  · have hpoll' : w.polls.get? id' = some poll ∧
        w.postman.catchUpTasks.get? c.reference ≠ some id' := by
      cases hreading : w.postman.catchUpTasks.get? c.reference with
      | none =>
        simp only [PostmanWorld.finish, PostmanWorld.cleanupReference, hreading] at hpoll
        exact ⟨hpoll, by rintro ⟨⟩⟩
      | some q =>
        simp only [PostmanWorld.finish, PostmanWorld.cleanupReference, hreading] at hpoll
        obtain ⟨hne, hpoll⟩ := Dict.get?_erase_eq_some.mp hpoll
        exact ⟨hpoll, fun hq => hne (Option.some.inj hq).symm⟩
    obtain ⟨r, hr⟩ := h.polls id' poll hpoll'.1
    have hne : r ≠ c.reference := by
      rintro rfl
      exact hpoll'.2 hr
    exact ⟨r, (htasks r).trans (by rw [if_neg hne]; exact hr)⟩

theorem Readers.step (h : w.Readers) (hregistered : w.Registered) (hfresh : w.FreshReference act)
    (hs : step w act = some w') : w'.Readers := by
  have hregistered' := hregistered.step hfresh hs
  cases concludes_step hs with
  | goesOn hgoes => exact h.goesOn hgoes hregistered'
  | @abandoned id c is call phase =>
    refine ⟨fun r q hq => ?_, h.polls⟩
    have hreads := h.recorded r q hq
    refine hreads.set_of_ne ?_
    rintro rfl
    obtain ⟨c₀, h₀, -, -, htold⟩ := hreads
    obtain rfl := Option.some.inj (call.symm.trans h₀)
    rw [phase] at htold
    cases htold
  | finished call live others => exact h.finish call

/-! ## Calls that can be traced

What a call leaves is found from its reference when it ends. `Traceable` is the condition on what is
registered and bound in an event, `Traced` what the tables keep under it.
-/

/-- What a call leaves can be traced from its reference. A call is registered under a reference that
no live call has and that no task is bound to but the one on record for it; a task is bound to a
reference only if it is bound to no other one, and no other task is bound to that of a live call. -/
structure Traceable (w : PostmanWorld) (act : PostmanAct) : Prop where
  fresh : w.FreshReference act
  recorded : ∀ id reference escalate task, act = .assign id reference escalate →
    w.postman.taskToReference.get? task = some reference →
    w.postman.referenceToTask.get? reference = some task
  only : ∀ task reference, w.binding act = some (task, reference) → ∀ id o t,
    Holds w.calls id reference o → w.postman.taskToReference.get? t = some reference → t = task
  same : ∀ task reference, w.binding act = some (task, reference) → ∀ r,
    w.postman.taskToReference.get? task = some r → r = reference

/-- What registers no call and binds no task can be traced. -/
theorem Traceable.of_unbound (hbinding : w.binding act = none)
    (hassign : ∀ id reference escalate, act ≠ .assign id reference escalate) :
    w.Traceable act := by
  refine ⟨?_, fun id reference escalate task is => absurd is (hassign _ _ _), ?_, ?_⟩
  · cases act with
    | assign id reference escalate => exact absurd rfl (hassign id reference escalate)
    | _ => trivial
  · rw [hbinding]
    rintro task reference ⟨⟩
  · rw [hbinding]
    rintro task reference ⟨⟩

/-- What runs keep whose calls can be traced. -/
structure Traced (w : PostmanWorld) : Prop where
  kept : w.KeptApart
  recorded : w.postman.Recorded
  bound : ∀ id r o t, Holds w.calls id r o → w.postman.taskToReference.get? t = some r →
    w.postman.referenceToTask.get? r = some t

theorem Traceable.keepsApart (h : w.Traceable act) (hrecorded : w.postman.Recorded) :
    w.KeepsApart act where
  fresh := h.fresh
  recorded _ reference _ task _ ht := hrecorded reference task ht
  only := h.only
  same task reference hbinding _ r _ _ := h.same task reference hbinding r

theorem recorded_alters (h : u.postman.Recorded) (htrace : w.Traceable act)
    (ha : w.Alters act u u') : u'.postman.Recorded := by
  cases ha with
  | @bind u task reference is calls same =>
    refine h.bind ?_
    rw [same]
    exact htrace.same task reference is
  | @answer id c task phase is call live untold told reads =>
    refine h.bind (htrace.same task c.reference ?_)
    rw [is]
    simp [binding, call]
  | route event => exact h.of_same (route_tables _ _)
  | catchUp reading => exact h.of_same (catchUp_tables _ _ _)
  | fail is =>
    have hflags : GraphQLPostman.Recorded { w.postman with watching := false, feedLive := false } :=
      h
    exact hflags.of_same (failPending_tables _ _).1
  | finish call live => exact h.cleanupReference
  | _ => exact h

/-- After a bind to a reference that no other task is bound to, the task on record for each live
call's reference is the one bound to it. -/
theorem Traced.bound_bind (h : u.Traced) {task reference : String}
    (honly : ∀ id o t, Holds u.calls id reference o →
      u.postman.taskToReference.get? t = some reference → t = task)
    {r t : String} {o : Option String} (ho : Holds u.calls id r o)
    (ht : (u.postman.bind task reference).taskToReference.get? t = some r) :
    (u.postman.bind task reference).referenceToTask.get? r = some t := by
  obtain ⟨-, -, -, htasks, hreferences⟩ := bind_tables u.postman task reference
  rw [htasks] at ht
  rw [hreferences]
  obtain ⟨rfl, rfl⟩ | ⟨hne, hold⟩ := Dict.get?_set_eq_some.mp ht
  · simp
  · have hr : r ≠ reference := by
      rintro rfl
      exact hne (honly id o t ho hold)
    simpa [hr] using h.bound id r o t ho hold

theorem Traced.bound_alters (h : u.Traced) (htrace : w.Traceable act) (ha : w.Alters act u u')
    {r t : String} {o : Option String} (ho : Holds u'.calls id r o)
    (ht : u'.postman.taskToReference.get? t = some r) :
    u'.postman.referenceToTask.get? r = some t := by
  cases ha with
  | @register id' reference escalate is new =>
    obtain ⟨c, hc, hlive, rfl, rfl⟩ := ho
    obtain ⟨rfl, rfl⟩ | ⟨-, hc⟩ := Dict.get?_set_eq_some.mp hc
    · exact htrace.recorded id reference escalate t is ht
    · exact h.bound id _ _ t ⟨c, hc, hlive, rfl, rfl⟩ ht
  | @bind u task reference is calls same =>
    refine h.bound_bind ?_ ho ht
    rw [calls, same]
    exact htrace.only task reference is
  | @answer id' c task phase is call live untold told reads =>
    have hbinding : w.binding act = some (task, c.reference) := by
      rw [is]
      simp [binding, call]
    obtain ⟨c₀, h₀, hlive₀, rfl, rfl⟩ := ho
    obtain ⟨rfl, rfl⟩ | ⟨-, h₀⟩ := Dict.get?_set_eq_some.mp h₀
    · exact h.bound_bind (htrace.only _ _ hbinding) ⟨c, call, live, rfl, rfl⟩ ht
    · exact h.bound_bind (htrace.only _ _ hbinding) ⟨c₀, h₀, hlive₀, rfl, rfl⟩ ht
  | route event =>
    rw [(route_tables _ _).taskToReference] at ht
    rw [(route_tables _ _).referenceToTask]
    exact h.bound id r o t ho ht
  | catchUp reading =>
    rw [(catchUp_tables _ _ _).taskToReference] at ht
    rw [(catchUp_tables _ _ _).referenceToTask]
    exact h.bound id r o t ho ht
  | fail is =>
    rw [(failPending_tables _ _).1.taskToReference] at ht
    rw [(failPending_tables _ _).1.referenceToTask]
    exact h.bound id r o t ho ht
  | hand is call phase queue =>
    exact h.bound id r o t
      (holds_set call (live_of_phase phase (by rintro _ ⟨⟩)) (by rfl) (by rfl) ho) ht
  | phase call live same reads =>
    exact h.bound id r o t (holds_set call live (by rfl) (by rfl) ho) ht
  | @finish u id' c outcome call live =>
    obtain ⟨-, hreferences, -, htasks, -, -⟩ := get?_cleanupReference u.postman c.reference
    obtain ⟨c₀, h₀, hlive₀, rfl, rfl⟩ := ho
    obtain ⟨rfl, rfl⟩ | ⟨hne, h₀⟩ := Dict.get?_set_eq_some.mp h₀
    · exact absurd rfl (hlive₀ outcome)
    · have hholds : Holds u.calls id c₀.reference c₀.task := ⟨c₀, h₀, hlive₀, rfl, rfl⟩
      have hother : c₀.reference ≠ c.reference := fun href =>
        hne (h.kept.apart.unique hholds ⟨c, call, live, href.symm, rfl⟩)
      rw [htasks, Option.ite_none_left_eq_some] at ht
      rw [hreferences, if_neg hother]
      exact h.bound id _ _ t hholds ht.2
  | _ => exact h.bound id r o t ho ht

theorem Traced.step (h : w.Traced) (htrace : w.Traceable act) (hs : step w act = some w') :
    w'.Traced :=
  invariant_of_step h hs fun _ _ hu ha =>
    { kept := ⟨hu.kept.grounded.alters ha,
        hu.kept.apart_alters h.kept.grounded (htrace.keepsApart h.recorded) ha,
        hu.kept.handed_alters ha⟩
      recorded := recorded_alters hu.recorded htrace ha
      bound := fun _ _ _ _ => hu.bound_alters htrace ha }

/-! ## What is left when a call has ended -/

/-- The event ends the call. -/
def Ends (w : PostmanWorld) (act : PostmanAct) (id : ℕ) (c : AssignCall) : Prop :=
  w.calls.get? id = some c ∧ c.Live ∧
    ∃ w' c', w.step act = some w' ∧ w'.calls.get? id = some c' ∧ ¬ c'.Live

/-- The tables hold nothing of the call: nothing under its reference, nothing about the task it was
told or its assign created. Its reading task is cancelled. -/
structure Dropped (w : PostmanWorld) (id : ℕ) (c : AssignCall) : Prop where
  queue : w.postman.assUpdateQueues.get? c.reference = none
  reference : w.postman.referenceToTask.get? c.reference = none
  unbound : ∀ t, w.postman.taskToReference.get? t ≠ some c.reference
  tasks : ∀ t, c.task = some t ∨ w.server.Own id t → w.postman.Forgot t
  catchUpTask : w.postman.catchUpTasks.get? c.reference = none
  poll : w.polls.get? id = none

/-- What is not of the call `id` and its reference is in `w'` as it was in `w`. -/
structure OthersKept (w w' : PostmanWorld) (id : ℕ) (reference : String) : Prop where
  calls : ∀ id', id' ≠ id → w'.calls.get? id' = w.calls.get? id'
  assUpdateQueues : ∀ r, r ≠ reference →
    w'.postman.assUpdateQueues.get? r = w.postman.assUpdateQueues.get? r
  referenceToTask : ∀ r, r ≠ reference →
    w'.postman.referenceToTask.get? r = w.postman.referenceToTask.get? r
  catchUpTasks : ∀ r, r ≠ reference →
    w'.postman.catchUpTasks.get? r = w.postman.catchUpTasks.get? r
  tasks : ∀ t, w.postman.taskToReference.get? t ≠ some reference →
    w'.postman.taskToReference.get? t = w.postman.taskToReference.get? t ∧
    w'.postman.orphanEventsByTask.get? t = w.postman.orphanEventsByTask.get? t ∧
    w'.postman.routedEventIds.get? t = w.postman.routedEventIds.get? t
  queues : ∀ q, q ≠ id → w'.postman.queues q = w.postman.queues q
  polls : ∀ q, q ≠ id → w'.polls.get? q = w.polls.get? q

/-- What the tables hold about the task its assign created is reached from the call's reference. -/
def Known (w : PostmanWorld) (id : ℕ) (c : AssignCall) : Prop :=
  ∀ t, w.server.Own id t →
    w.postman.taskToReference.get? t = some c.reference ∨ w.postman.Forgot t

/-- What is held about the one task there is, the assign of call `i` created, is reached from the
call's reference. -/
theorem known_of_created (i : ℕ) (task r : String)
    (hcreated : w.server.created = (∅ : Dict _ _).set task ⟨r, some i⟩)
    (href : ∀ c, w.calls.get? i = some c → c.reference = r)
    (ht : w.postman.taskToReference.get? task = some r) (id : ℕ) (c : AssignCall)
    (hends : w.Ends act id c) : w.Known id c := by
  rintro t ⟨reference, hentry⟩
  rw [hcreated] at hentry
  obtain ⟨rfl, heq⟩ | ⟨-, ⟨⟩⟩ := Dict.get?_set_eq_some.mp hentry
  obtain rfl : id = i := Option.some.inj (CreatedTask.mk.inj heq).2
  rw [href c hends.1]
  exact Or.inl ht

/-- A call that ends in the event was not cancelled a second time before its assign was answered,
and what the tables hold about its task is reached from its reference. -/
structure EndsTidily (w : PostmanWorld) (act : PostmanAct) : Prop extends w.Traceable act where
  once : ∀ id c, act = .cancel id → w.calls.get? id = some c → c.phase ≠ .assignedDespiteCancel
  known : ∀ id c, w.Ends act id c → w.Known id c

/-- The reading task that a clean-up finds is that of the call. -/
theorem Readers.catchUpTask (h : w.Readers) (hregistered : w.Registered)
    (hc : w.calls.get? id = some c) (hlive : c.Live) {q : ℕ}
    (hq : w.postman.catchUpTasks.get? c.reference = some q) : q = id := by
  obtain ⟨c₀, h₀, hlive₀, href, -⟩ := h.recorded c.reference q hq
  exact hregistered.unique h₀ hlive₀ hc hlive href

theorem Readers.polls_finish (h : w.Readers) (hregistered : w.Registered)
    (queues : ℕ → List QueueItem) (outcome : AssignOutcome) (hc : w.calls.get? id = some c)
    (hlive : c.Live) (q : ℕ) :
    ({ w with postman := { w.postman with queues := queues } }.finish id c outcome).polls.get? q
      = if q = id then none else w.polls.get? q := by
  cases hreading : w.postman.catchUpTasks.get? c.reference with
  | some q' =>
    obtain rfl := h.catchUpTask hregistered hc hlive hreading
    simp only [PostmanWorld.finish, PostmanWorld.cleanupReference, hreading, setCall,
      Dict.get?_erase]
  | none =>
    simp only [PostmanWorld.finish, PostmanWorld.cleanupReference, hreading, setCall]
    split
    · rename_i hq
      rw [hq]
      cases hpoll : w.polls.get? id with
      | none => rfl
      | some poll =>
        -- a reading task is on record under the reference of the call it reads for
        obtain ⟨r, hr⟩ := h.polls id poll hpoll
        obtain ⟨c₀, h₀, -, rfl, -⟩ := h.recorded r id hr
        obtain rfl := Option.some.inj (hc.symm.trans h₀)
        rw [hreading] at hr
        cases hr
    · rfl

/-- A clean-up drops what is of the call and keeps the rest. -/
theorem Traced.finish (h : w.Traced) (hreaders : w.Readers) (hregistered : w.Registered)
    {queues : ℕ → List QueueItem} {outcome : AssignOutcome} (hc : w.calls.get? id = some c)
    (hlive : c.Live) (hothers : ∀ q, q ≠ id → queues q = w.postman.queues q)
    (hknown : w.Known id c) :
    Dropped ({ w with postman := { w.postman with queues := queues } }.finish id c outcome) id c ∧
      w.OthersKept ({ w with postman := { w.postman with queues := queues } }.finish id c outcome)
        id c.reference := by
  obtain ⟨hqueue, hreferences, hcatchUp, htasks, horphans, hrouted⟩ :=
    get?_cleanupReference { w.postman with queues := queues } c.reference
  obtain ⟨-, -, hqueues, -, -⟩ :=
    cleanupReference_spec { w.postman with queues := queues } c.reference
  have hholds : Holds w.calls id c.reference c.task := ⟨c, hc, hlive, rfl, rfl⟩
  have hbound := h.bound id c.reference c.task
  have hrecorded : GraphQLPostman.Recorded { w.postman with queues := queues } := h.recorded
  have hpolls := hreaders.polls_finish hregistered queues outcome hc hlive
  constructor
  · refine ⟨(hqueue _).trans (if_pos rfl), (hreferences _).trans (if_pos rfl), fun t ht => ?_,
      fun t ht => ?_, (hcatchUp _).trans (if_pos rfl), (hpolls id).trans (if_pos rfl)⟩
    · obtain ⟨htid, ht⟩ := Option.ite_none_left_eq_some.mp ((htasks t).symm.trans ht)
      exact htid (hbound t hholds ht)
    · have htraced : w.postman.taskToReference.get? t = some c.reference ∨ w.postman.Forgot t := by
        obtain htold | hown := ht
        · exact Or.inl (h.kept.apart.bound id c.reference t ⟨c, hc, hlive, rfl, htold⟩)
        · exact hknown t hown
      obtain ht | hforgot := htraced
      · exact hrecorded.forgot ht (hbound t hholds ht)
      · have hforgot' : GraphQLPostman.Forgot { w.postman with queues := queues } t :=
          ⟨hforgot.unbound, hforgot.back, hforgot.orphans, hforgot.routed⟩
        exact hforgot'.cleanupReference
  · refine ⟨fun id' hne => Dict.get?_set _ _ _ _ |>.trans (if_neg hne), fun r hr => ?_,
      fun r hr => ?_, fun r hr => ?_, fun t ht => ?_, fun q hq => ?_, fun q hq => ?_⟩
    · exact (hqueue r).trans (if_neg hr)
    · exact (hreferences r).trans (if_neg hr)
    · exact (hcatchUp r).trans (if_neg hr)
    · -- the task on record for the reference is bound to it
      have htid : w.postman.referenceToTask.get? c.reference ≠ some t := fun htid =>
        ht (h.recorded _ _ htid)
      exact ⟨(htasks t).trans (if_neg htid), (horphans t).trans (if_neg htid),
        (hrouted t).trans (if_neg htid)⟩
    · exact (congrFun hqueues q).trans (hothers q hq)
    · exact (hpolls q).trans (if_neg hq)

theorem traced_start : start.Traced where
  kept := keptApart_start
  recorded := by rintro r t ⟨⟩
  bound := by rintro id r o t ⟨c, ⟨⟩, -⟩

/-- What runs keep whose calls can be traced, with their reading tasks. -/
structure Followed (w : PostmanWorld) : Prop where
  traced : w.Traced
  readers : w.Readers
  registered : w.Registered

theorem followed_start : start.Followed where
  traced := traced_start
  readers := ⟨by rintro r q ⟨⟩, by rintro id poll ⟨⟩⟩
  registered := by rintro id c ⟨⟩

theorem Followed.step (h : w.Followed) (htrace : w.Traceable act)
    (hs : PostmanWorld.step w act = some w') : w'.Followed where
  traced := h.traced.step htrace hs
  readers := h.readers.step h.registered htrace.fresh hs
  registered := h.registered.step htrace.fresh hs

/-- An event that ends a call drops what is of the call and keeps the rest, unless it is a second
cancellation before the assign is answered. -/
theorem Followed.ends (h : w.Followed) (hends : w.Ends act id c) (hknown : w.Known id c)
    (honce : act = .cancel id → w.calls.get? id = some c → c.phase ≠ .assignedDespiteCancel)
    (hs : PostmanWorld.step w act = some w') :
    w'.Dropped id c ∧ w.OthersKept w' id c.reference := by
  obtain ⟨hc, hlive, w'', c', hs', hc', hended⟩ := hends
  obtain rfl := Option.some.inj (hs.symm.trans hs')
  have hsame : w'.calls.get? id ≠ some c := by
    intro hsame
    obtain rfl := Option.some.inj (hsame.symm.trans hc')
    exact hended hlive
  cases concludes_step hs with
  | goesOn hgoes =>
    obtain hlive' | hold := hgoes.ended id c' hc'
    · exact absurd hlive' hended
    · obtain rfl := Option.some.inj (hc.symm.trans hold)
      exact absurd hlive hended
  | @abandoned id₀ c₀ is call phase =>
    by_cases hid : id = id₀
    · subst hid
      obtain rfl := Option.some.inj (hc.symm.trans call)
      exact absurd phase (honce is call)
    · exact absurd ((Dict.get?_set _ _ _ _).trans ((if_neg hid).trans hc)) hsame
  | @finished id₀ c₀ outcome queues call live others =>
    by_cases hid : id = id₀
    · subst hid
      obtain rfl := Option.some.inj (hc.symm.trans call)
      exact h.traced.finish h.readers h.registered hc hlive others hknown
    · exact absurd ((Dict.get?_set _ _ _ _).trans ((if_neg hid).trans hc)) hsame

/-- In every run whose events end calls tidily, an event that ends a call drops all of the call's
state, and nothing of the others'. -/
theorem ended_calls_leave_nothing {acts : List PostmanAct}
    (hmeets : Meets step EndsTidily start (acts ++ [act])) (hrun : exec step start acts = some w)
    (hs : w.step act = some w') (id : ℕ) (c : AssignCall) (hends : w.Ends act id c) :
    w'.Dropped id c ∧ w.OthersKept w' id c.reference := by
  obtain ⟨hacts, hlast⟩ := meets_concat hmeets
  have hfollowed : w.Followed := exec_invariant_of_meets followed_start
    (fun _ _ _ h htidily hs => h.step htidily.toTraceable hs) hacts hrun
  have htidily := hlast w hrun
  exact hfollowed.ends hends (htidily.known id c hends) (htidily.once id c) hs

/-- Of two calls, the first is cancelled, and told its task. -/
def cancelledOnce : List PostmanAct :=
  [.assign 0 "r0" false, .assign 1 "r1" false, .create 0 "t", .answer 0 "t", .read (.call 0),
    .cancel 0]

theorem ended_calls_leave_nothing_cancelledOnce :
    ∃ w w' c, exec step start cancelledOnce = some w ∧ w.step (.cancel 0) = some w' ∧
      w.Ends (.cancel 0) 0 c ∧ c.task = some "t" ∧ w'.Dropped 0 c ∧
      w.OthersKept w' 0 c.reference := by
  have hmeets : Meets step EndsTidily start (cancelledOnce ++ [.cancel 0]) := by
    refine meets_cons ⟨⟨by rintro _ _ ⟨⟩, ?_, ?_, ?_⟩, by rintro _ _ ⟨⟩, ?_⟩ ?_
    · rintro _ _ _ _ ⟨⟩ ⟨⟩
    · rintro _ _ ⟨⟩
    · rintro _ _ ⟨⟩
    · rintro id c - t ⟨_, ⟨⟩⟩
    rintro w ⟨⟩
    refine meets_cons ⟨⟨fun id c hc _ => ?_, ?_, ?_, ?_⟩, by rintro _ _ ⟨⟩, ?_⟩ ?_
    · obtain ⟨-, rfl⟩ | ⟨-, ⟨⟩⟩ := Dict.get?_set_eq_some.mp hc
      exact (by decide : "r0" ≠ "r1")
    · rintro _ _ _ _ ⟨⟩ ⟨⟩
    · rintro _ _ ⟨⟩
    · rintro _ _ ⟨⟩
    · rintro id c - t ⟨_, ⟨⟩⟩
    rintro w ⟨⟩
    refine meets_cons ⟨.of_unbound rfl (by rintro _ _ _ ⟨⟩), by rintro _ _ ⟨⟩, ?_⟩ ?_
    · rintro id c - t ⟨_, ⟨⟩⟩
    rintro w ⟨⟩
    refine meets_cons ⟨⟨trivial, by rintro _ _ _ _ ⟨⟩, ?_, ?_⟩, by rintro _ _ ⟨⟩, ?_⟩ ?_
    · rintro task reference hbinding id o t ho ⟨⟩
    · rintro task reference hbinding r ⟨⟩
    · -- the task is not bound yet
      rintro id c - t hown'
      exact Or.inr ⟨rfl, by rintro r ⟨⟩, rfl, rfl⟩
    rintro w ⟨⟩
    refine meets_cons ⟨.of_unbound rfl (by rintro _ _ _ ⟨⟩), by rintro _ _ ⟨⟩,
      known_of_created 0 "t" "r0" rfl (by rintro c ⟨⟩; rfl) rfl⟩ ?_
    rintro w ⟨⟩
    iterate 2
      refine meets_cons ⟨.of_unbound rfl (by rintro _ _ _ ⟨⟩), by rintro _ c ⟨⟩ ⟨⟩ ⟨⟩,
        known_of_created 0 "t" "r0" rfl (by rintro c ⟨⟩; rfl) rfl⟩ ?_
      rintro w ⟨⟩
    exact meets_nil _
  obtain ⟨w, hw⟩ : ∃ w, exec step start cancelledOnce = some w := ⟨_, rfl⟩
  obtain ⟨w', hw'⟩ : ∃ w', w.step (.cancel 0) = some w' := by
    obtain rfl := Option.some.inj hw
    exact ⟨_, rfl⟩
  have hends : ∃ c, w.Ends (.cancel 0) 0 c ∧ c.task = some "t" := by
    obtain rfl := Option.some.inj hw
    exact ⟨_, ⟨rfl, by rintro _ ⟨⟩, _, _, rfl, rfl, fun hlive => hlive _ rfl⟩, rfl⟩
  obtain ⟨c, hends, htask⟩ := hends
  obtain ⟨hdropped, hkept⟩ := ended_calls_leave_nothing hmeets hw hw' 0 c hends
  exact ⟨w, w', c, hw, hw', hends, htask, hdropped, hkept⟩

/-- Before its assign is answered, a call is cancelled a second time. -/
def cancelledTwice : List PostmanAct := [.assign 0 "r" false, .cancel 0]

/-- The second cancellation ends the call, and its queue stays on record. -/
theorem second_cancellation_leaves_queue :
    ∃ w w' c, exec step start cancelledTwice = some w ∧ w.step (.cancel 0) = some w' ∧
      w.Ends (.cancel 0) 0 c ∧ w'.postman.assUpdateQueues.get? c.reference = some 0 ∧
      ¬ (w'.Dropped 0 c ∧ w.OthersKept w' 0 c.reference) := by
  refine ⟨_, _, _, rfl, rfl, ⟨rfl, by rintro _ ⟨⟩, _, _, rfl, rfl, fun hlive => hlive _ rfl⟩, rfl,
    fun hleft => ?_⟩
  have hqueue := hleft.1.queue
  cases hqueue

end PostmanWorld

end Rekuest
