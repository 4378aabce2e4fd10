import Rekuest.Client.Endings

/-!
# Finished calls are forgotten

Binding and routing make entries for whatever task the feed mentions, and only the clean-up of a
call takes entries out again. Nothing stays behind when no call is in flight as long as every entry
can be laid to a live call.
-/

namespace Rekuest

open Runs GraphQLPostman

namespace GraphQLPostman

/-- The postman's tables of calls and their tasks are empty. -/
structure Empty (p : GraphQLPostman) : Prop where
  assUpdateQueues : p.assUpdateQueues = ∅
  taskToReference : p.taskToReference = ∅
  referenceToTask : p.referenceToTask = ∅
  orphanEventsByTask : p.orphanEventsByTask = ∅
  routedEventIds : p.routedEventIds = ∅
  catchUpTasks : p.catchUpTasks = ∅

end GraphQLPostman

namespace PostmanWorld

variable {w w' u u' : PostmanWorld} {act : PostmanAct} {id : ℕ} {c : AssignCall}

/-! ## Where entries come from -/

/-- A queue comes on record when its call is registered. -/
theorem queue_before (hs : step w act = some w') {reference : String}
    (hq : w'.postman.assUpdateQueues.get? reference = some id) :
    w.postman.assUpdateQueues.get? reference = some id ∨
      ∃ escalate, act = .assign id reference escalate := by
  refine invariant_of_step (I := fun u => ∀ r q, u.postman.assUpdateQueues.get? r = some q →
    w.postman.assUpdateQueues.get? r = some q ∨ ∃ escalate, act = .assign q r escalate)
    (fun _ _ hq => Or.inl hq) hs ?_ reference id hq
  intro u u' h ha r q hq
  cases ha with
  | @register id reference escalate is new =>
    obtain ⟨rfl, rfl⟩ | ⟨-, hq⟩ := Dict.get?_set_eq_some.mp hq
    · exact Or.inr ⟨escalate, is⟩
    · exact h r q hq
  | bind is calls same => exact h r q ((bind_tables _ _ _).assUpdateQueues ▸ hq)
  | route event => exact h r q ((route_tables _ _).assUpdateQueues ▸ hq)
  | catchUp reading => exact h r q ((catchUp_tables _ _ _).assUpdateQueues ▸ hq)
  | fail is => exact h r q ((failPending_tables _ _).1.assUpdateQueues ▸ hq)
  | answer is call live untold told reads =>
    exact h r q ((bind_tables _ _ _).assUpdateQueues ▸ hq)
  | finish call live => exact h r q ((cleanupReference_sub _ _).2.2.1 r q hq)
  | _ => exact h r q hq

/-- A task that is bound after an event was bound before, or is by it. -/
theorem bound_before (hs : step w act = some w') {task reference : String}
    (ht : w'.postman.taskToReference.get? task = some reference) :
    w.postman.taskToReference.get? task = some reference ∨
      w.binding act = some (task, reference) := by
  refine invariant_of_step (I := fun u => ∀ t r, u.postman.taskToReference.get? t = some r →
    w.postman.taskToReference.get? t = some r ∨ w.binding act = some (t, r))
    (fun _ _ ht => Or.inl ht) hs ?_ task reference ht
  intro u u' h ha t r ht
  have hbind : ∀ (p : GraphQLPostman) (task reference : String),
      (∀ t r, p.taskToReference.get? t = some r →
        w.postman.taskToReference.get? t = some r ∨ w.binding act = some (t, r)) →
      w.binding act = some (task, reference) →
      (p.bind task reference).taskToReference.get? t = some r →
      w.postman.taskToReference.get? t = some r ∨ w.binding act = some (t, r) := by
    intro p task reference h hbinding ht
    rw [(bind_tables p task reference).taskToReference] at ht
    obtain ⟨rfl, rfl⟩ | ⟨-, ht⟩ := Dict.get?_set_eq_some.mp ht
    · exact Or.inr hbinding
    · exact h t r ht
  cases ha with
  | bind is calls same => exact hbind _ _ _ h is ht
  | @answer id c task phase is call live untold told reads =>
    refine hbind w.postman _ c.reference h ?_ ht
    rw [is]
    simp [binding, call]
  | route event => exact h t r ((route_tables _ _).taskToReference ▸ ht)
  | catchUp reading => exact h t r ((catchUp_tables _ _ _).taskToReference ▸ ht)
  | fail is => exact h t r ((failPending_tables _ _).1.taskToReference ▸ ht)
  | finish call live => exact h t r ((cleanupReference_sub _ _).1 t r ht)
  | _ => exact h t r ht

/-! ## Entries of live calls -/

/-- The task is bound, or the assign of a live call created it. -/
def Belongs (w : PostmanWorld) (task : String) : Prop :=
  w.postman.taskToReference.get? task ≠ none ∨
    ∃ id r o, Holds w.calls id r o ∧ w.server.Own id task

/-- Every entry of the tables is of a live call. -/
structure Owned (w : PostmanWorld) : Prop where
  followed : w.Followed
  queues : ∀ r q, w.postman.assUpdateQueues.get? r = some q → ∃ o, Holds w.calls q r o
  tasks : ∀ t r, w.postman.taskToReference.get? t = some r → ∃ id o, Holds w.calls id r o
  events : ∀ t, w.postman.HasEvents t → w.Belongs t

/-- Every entry the event makes can be laid to a live call, and a call that ends takes its own away.
A call registers under a reference that no live call has; a task is bound to the reference of a live
call, which no other task is bound to, and to no other reference; the feed carries events of tasks
that are bound or that the assign of a live call created; and a call ends tidily. -/
structure Forgets (w : PostmanWorld) (act : PostmanAct) : Prop where
  fresh : w.FreshReference act
  live : ∀ task reference, w.binding act = some (task, reference) →
    ∃ id o, Holds w.calls id reference o
  only : ∀ task reference, w.binding act = some (task, reference) → ∀ t,
    w.postman.taskToReference.get? t = some reference → t = task
  same : ∀ task reference, w.binding act = some (task, reference) → ∀ r,
    w.postman.taskToReference.get? task = some r → r = reference
  shown : ∀ task, w.Shows act task → w.Belongs task
  once : ∀ id c, act = .cancel id → w.calls.get? id = some c → c.phase ≠ .assignedDespiteCancel
  known : ∀ id c, w.Ends act id c → w.Known id c

theorem Forgets.traceable (h : w.Forgets act) (howned : w.Owned) : w.Traceable act where
  fresh := h.fresh
  recorded id reference escalate task is ht := by
    obtain ⟨id', o, c, hc, hlive, href, -⟩ := howned.tasks task reference ht
    have hfresh := h.fresh
    rw [is] at hfresh
    exact absurd href (hfresh id' c hc hlive)
  only task reference hbinding _ _ t _ := h.only task reference hbinding t
  same := h.same

theorem GoesOn.holds (h : w.GoesOn act w') {r : String} {o : Option String}
    (ho : Holds w.calls id r o) : ∃ o, Holds w'.calls id r o := by
  obtain ⟨c, hc, hlive, rfl, -⟩ := ho
  obtain ⟨c', hc', hlive', href, -⟩ := h.live id c hc hlive
  exact ⟨c'.task, c', hc', hlive', href, rfl⟩

theorem Owned.goesOn (h : w.Owned) (hforgets : w.Forgets act) (hs : step w act = some w')
    (hgoes : w.GoesOn act w') : w'.Owned := by
  have hfollowed := h.followed.step (hforgets.traceable h) hs
  have hbelongs : ∀ t, w.Belongs t → w'.Belongs t := by
    rintro t (hbound | ⟨id, r, o, ho, reference, hown⟩)
    · exact Or.inl (hgoes.carries.bound t hbound)
    · obtain ⟨o', ho'⟩ := hgoes.holds ho
      exact Or.inr ⟨id, r, o', ho', reference, hgoes.created _ _ hown⟩
  refine ⟨hfollowed, fun r q hq => ?_, fun t r ht => ?_, fun t ht => ?_⟩
  · obtain hq | ⟨escalate, rfl⟩ := queue_before hs hq
    · obtain ⟨o, ho⟩ := h.queues r q hq
      exact hgoes.holds ho
    · obtain ⟨c, hc, href⟩ := hfollowed.traced.kept.grounded.owner r q hq
      obtain hlive | hold := hgoes.ended q c hc
      · exact ⟨c.task, c, hc, hlive, href, rfl⟩
      · -- a new call was not there before
        simp [step, hold] at hs
  · have hholds : ∃ id o, Holds w.calls id r o := by
      obtain ht | hbinding := bound_before hs ht
      · exact h.tasks t r ht
      · exact hforgets.live t r hbinding
    obtain ⟨id, o, ho⟩ := hholds
    exact ⟨id, hgoes.holds ho⟩
  · obtain hold | hbound | hshown := hgoes.carries.events t ht
    · exact hbelongs t (h.events t hold)
    · exact Or.inl hbound
    · exact hbelongs t (hforgets.shown t hshown)

/-- A clean-up takes the entries of its call away. -/
theorem Owned.finish (h : w.Owned) {queues : ℕ → List QueueItem} {outcome : AssignOutcome}
    (hc : w.calls.get? id = some c) (hlive : c.Live) (hknown : w.Known id c)
    (hfollowed : ({ w with postman := { w.postman with queues } }.finish id c outcome).Followed) :
    ({ w with postman := { w.postman with queues } }.finish id c outcome).Owned := by
  obtain ⟨hqueues, -, -, htasks, horphans, hrouted⟩ :=
    get?_cleanupReference { w.postman with queues } c.reference
  have hholds : ∀ {id' : ℕ} {r : String} {o : Option String}, Holds w.calls id' r o → id' ≠ id →
      Holds (w.calls.set id { c with phase := .ended outcome }) id' r o := by
    rintro id' r o ⟨c', hc', hrest⟩ hne
    exact ⟨c', by simpa [hne] using hc', hrest⟩
  have hother : ∀ {id' : ℕ} {r : String} {o : Option String}, Holds w.calls id' r o →
      r ≠ c.reference → id' ≠ id := by
    rintro id' r o ⟨c', hc', -, rfl, -⟩ hne rfl
    obtain rfl := Option.some.inj (hc.symm.trans hc')
    exact hne rfl
  -- what is bound to the call's reference is on record for it
  have hbound : ∀ t, w.postman.taskToReference.get? t = some c.reference →
      w.postman.referenceToTask.get? c.reference = some t := fun t =>
    h.followed.traced.bound id c.reference c.task t ⟨c, hc, hlive, rfl, rfl⟩
  refine ⟨hfollowed, fun r q hq => ?_, fun t r ht => ?_, fun t ht => ?_⟩
  · obtain ⟨hne, hq⟩ := Option.ite_none_left_eq_some.mp ((hqueues r).symm.trans hq)
    obtain ⟨o, ho⟩ := h.queues r q hq
    exact ⟨o, hholds ho (hother ho hne)⟩
  · obtain ⟨htid, ht⟩ := Option.ite_none_left_eq_some.mp ((htasks t).symm.trans ht)
    obtain ⟨id', o, ho⟩ := h.tasks t r ht
    refine ⟨id', o, hholds ho (hother ho ?_)⟩
    rintro rfl
    exact htid (hbound t ht)
  · have htid : w.postman.referenceToTask.get? c.reference ≠ some t := by
      intro htid
      exact ht.elim (fun ht => ht ((horphans t).trans (if_pos htid)))
        fun ht => ht ((hrouted t).trans (if_pos htid))
    have hold : w.postman.HasEvents t := ht.imp
      (fun ht hnone => ht ((horphans t).trans ((if_neg htid).trans hnone)))
      fun ht hnone => ht ((hrouted t).trans ((if_neg htid).trans hnone))
    obtain hbelongs | ⟨id', r, o, ho, hown⟩ := h.events t hold
    · exact Or.inl fun hnone => hbelongs (((htasks t).trans (if_neg htid)).symm.trans hnone)
    · refine Or.inr ⟨id', r, o, hholds ho ?_, hown⟩
      rintro rfl
      obtain ht | hforgot := hknown t hown
      · exact htid (hbound t ht)
      · exact hold.elim (fun ht => ht hforgot.orphans) fun ht => ht hforgot.routed

theorem ends_of_finish {queues : ℕ → List QueueItem} {outcome : AssignOutcome}
    (hc : w.calls.get? id = some c) (hlive : c.Live)
    (hs : step w act = some ({ w with postman := { w.postman with queues } }.finish id c outcome)) :
    w.Ends act id c :=
  ⟨hc, hlive, _, { c with phase := .ended outcome }, hs,
    Dict.get?_set_eq_some.mpr (Or.inl ⟨rfl, rfl⟩), fun hlive => hlive outcome rfl⟩

theorem Owned.step (h : w.Owned) (hforgets : w.Forgets act)
    (hs : PostmanWorld.step w act = some w') : w'.Owned := by
  have hfollowed := h.followed.step (hforgets.traceable h) hs
  cases concludes_step hs with
  | goesOn hgoes => exact h.goesOn hforgets hs hgoes
  | abandoned is call phase => exact absurd phase (hforgets.once _ _ is call)
  | @finished id c outcome queues call live others =>
    exact h.finish call live (hforgets.known id c (ends_of_finish call live hs)) hfollowed

theorem owned_start : start.Owned where
  followed := followed_start
  queues := by rintro r q ⟨⟩
  tasks := by rintro t r ⟨⟩
  events := by rintro t (h | h) <;> exact absurd rfl h

/-- With no call in flight there is no entry. -/
theorem Owned.empty (h : w.Owned) (hidle : ∀ id c, w.calls.get? id = some c → ¬ c.Live) :
    w.postman.Empty := by
  have hnone : ∀ {id r o}, ¬ Holds w.calls id r o := by
    rintro id r o ⟨c, hc, hlive, -⟩
    exact hidle id c hc hlive
  have htasks : ∀ t, w.postman.taskToReference.get? t = none := by
    refine fun t => Option.eq_none_iff_forall_not_mem.mpr fun r ht => ?_
    obtain ⟨id, o, ho⟩ := h.tasks t r ht
    exact hnone ho
  have hevents : ∀ t, ¬ w.postman.HasEvents t := by
    intro t ht
    obtain hbound | ⟨id, r, o, ho, -⟩ := h.events t ht
    · exact hbound (htasks t)
    · exact hnone ho
  refine ⟨Dict.eq_empty_of_get? fun r => ?_, Dict.eq_empty_of_get? htasks,
    Dict.eq_empty_of_get? fun r => ?_, Dict.eq_empty_of_get? fun t => ?_,
    Dict.eq_empty_of_get? fun t => ?_, Dict.eq_empty_of_get? fun r => ?_⟩
  · refine Option.eq_none_iff_forall_not_mem.mpr fun q hq => ?_
    obtain ⟨o, ho⟩ := h.queues r q hq
    exact hnone ho
  · refine Option.eq_none_iff_forall_not_mem.mpr fun t ht => ?_
    have hbound := h.followed.traced.recorded r t ht
    rw [htasks] at hbound
    cases hbound
  · exact Classical.not_not.mp fun hne => hevents t (Or.inl hne)
  · exact Classical.not_not.mp fun hne => hevents t (Or.inr hne)
  · refine Option.eq_none_iff_forall_not_mem.mpr fun q hq => ?_
    obtain ⟨c, hc, hlive, -⟩ := h.followed.readers.recorded r q hq
    exact hidle q c hc hlive

/-- In every run whose entries can all be laid to live calls, the tables are empty whenever no call
is in flight. -/
theorem finished_calls_forgotten {acts : List PostmanAct} (hmeets : Meets step Forgets start acts)
    (hrun : exec step start acts = some w)
    (hidle : ∀ id c, w.calls.get? id = some c → ¬ c.Live) : w.postman.Empty :=
  (exec_invariant_of_meets owned_start (fun _ _ _ h hforgets hs => h.step hforgets hs) hmeets
    hrun).empty hidle

/-- A call is told its task, the feed carries an event of it, and the call is cancelled. -/
def fedThenCancelled : List PostmanAct :=
  [.assign 0 "r" false, .create 0 "t", .answer 0 "t", .subscribe, .report (eventOf "e1"), .deliver,
    .read .watch, .readDone .watch true, .cancel 0, .cancel 0]

theorem finished_calls_forgotten_fedThenCancelled :
    ∃ w, exec step start fedThenCancelled = some w ∧ w.postman.Empty := by
  -- what neither registers a call, nor binds a task, nor hands on an event
  have hquiet : ∀ {w : PostmanWorld} {act : PostmanAct}, w.binding act = none →
      w.FreshReference act → (∀ task, w.Shows act task → w.Belongs task) →
      (∀ id c, act = .cancel id → w.calls.get? id = some c → c.phase ≠ .assignedDespiteCancel) →
      (∀ id c, w.Ends act id c → w.Known id c) → w.Forgets act := by
    intro w act hbinding hfresh hshown honce hknown
    refine ⟨hfresh, ?_, ?_, ?_, hshown, honce, hknown⟩ <;>
      · rw [hbinding]
        rintro task reference ⟨⟩
  have hmeets : Meets step Forgets start fedThenCancelled := by
    refine meets_cons (hquiet rfl (by rintro _ _ ⟨⟩) (by rintro _ ⟨_, _, ⟨⟩, -⟩)
      (by rintro _ _ ⟨⟩) ?_) ?_
    · rintro id c - t ⟨_, ⟨⟩⟩
    rintro w ⟨⟩
    refine meets_cons (hquiet rfl trivial (by rintro _ ⟨_, _, ⟨⟩, -⟩) (by rintro _ _ ⟨⟩) ?_) ?_
    · rintro id c - t ⟨_, ⟨⟩⟩
    rintro w ⟨⟩
    refine meets_cons ⟨trivial, ?_, ?_, ?_, by rintro _ ⟨_, _, ⟨⟩, -⟩, by rintro _ _ ⟨⟩, ?_⟩ ?_
    · rintro task reference ⟨⟩
      exact ⟨0, none, _, rfl, by rintro _ ⟨⟩, rfl, rfl⟩
    · rintro task reference - t ⟨⟩
    · rintro task reference - r ⟨⟩
    · -- the task is not bound yet
      exact fun id c _ t _ => Or.inr ⟨rfl, by rintro r ⟨⟩, rfl, rfl⟩
    rintro w ⟨⟩
    iterate 4
      refine meets_cons (hquiet rfl trivial (by rintro _ ⟨_, _, ⟨⟩, -⟩) (by rintro _ _ ⟨⟩)
        (known_of_created 0 "t" "r" rfl (by rintro c ⟨⟩; rfl) rfl)) ?_
      rintro w ⟨⟩
    refine meets_cons (hquiet rfl trivial ?_ (by rintro _ _ ⟨⟩)
      (known_of_created 0 "t" "r" rfl (by rintro c ⟨⟩; rfl) rfl)) ?_
    · rintro task ⟨_, _, ⟨⟩, ⟨⟩, rfl⟩
      exact Or.inl (by rintro ⟨⟩)
    rintro w ⟨⟩
    iterate 2
      refine meets_cons (hquiet rfl trivial (by rintro _ ⟨_, _, ⟨⟩, -⟩)
        (by rintro _ c ⟨⟩ ⟨⟩ ⟨⟩) (known_of_created 0 "t" "r" rfl (by rintro c ⟨⟩; rfl) rfl)) ?_
      rintro w ⟨⟩
    exact meets_nil _
  obtain ⟨w, hw⟩ : ∃ w, exec step start fedThenCancelled = some w := ⟨_, rfl⟩
  refine ⟨w, hw, finished_calls_forgotten hmeets hw ?_⟩
  obtain rfl := Option.some.inj hw
  intro id c hc hlive
  obtain ⟨-, rfl⟩ := Prod.mk.inj (List.mem_singleton.mp (Dict.get?_eq_some.mp hc))
  exact hlive _ rfl

/-- The task of a call that was cancelled reports an event. -/
def cancelledThenFed : List PostmanAct :=
  [.assign 0 "r" false, .create 0 "t", .answer 0 "t", .cancel 0, .cancel 0, .subscribe,
    .report (eventOf "e1"), .deliver]

/-- The event stays buffered, though no call is in flight. -/
theorem late_event_stays :
    ∃ w, exec step start cancelledThenFed = some w ∧
      (∀ id c, w.calls.get? id = some c → ¬ c.Live) ∧
      w.postman.orphanEventsByTask.get? "t" = some [eventOf "e1"] ∧ ¬ w.postman.Empty := by
  obtain ⟨w, hw⟩ : ∃ w, exec step start cancelledThenFed = some w := ⟨_, rfl⟩
  obtain rfl := Option.some.inj hw
  refine ⟨_, hw, fun id c hc hlive => ?_, rfl, fun hempty => ?_⟩
  · obtain ⟨-, rfl⟩ := Prod.mk.inj (List.mem_singleton.mp (Dict.get?_eq_some.mp hc))
    exact hlive _ rfl
  · have horphans := congrArg (fun d => d.get? "t") hempty.orphanEventsByTask
    cases horphans

end PostmanWorld

end Rekuest
