import Mathlib.Logic.Relation
import Rekuest.Client.Kept

/-!
# What an event alters

Every event of the postman's world comes down to a few alterations, one after the other: of the
tables, of one call, of the task that watches the feed or of those that read for a call. An
invariant is kept by every event once each kind of alteration keeps it.
-/

namespace Rekuest

open GraphQLPostman

/-- A call that has not ended. -/
def AssignCall.Live (c : AssignCall) : Prop := ∀ outcome, c.phase ≠ .ended outcome

/-- The event is call `id` taking the first item of its queue. -/
def PostmanAct.Takes (id : ℕ) : PostmanAct → Prop
  | .take id' | .confirm id' => id' = id
  | _ => False

namespace PostmanWorld

/-- The change that `watch_tasks` comes to handle in an event. -/
def handling (w : PostmanWorld) : PostmanAct → Option TaskChangeEvent
  | .deliver =>
    match w.watch, w.server.feed with
    | .idle, change :: _ =>
      -- the first delivery catches up the bound tasks before it handles the change
      if w.postman.feedLive ∨ w.postman.taskToReference.keys = [] then some change else none
    | _, _ => none
  | .readDone .watch _ =>
    match w.watch with
    | .catchingUp _ [] _ change => some change
    | _ => none
  | _ => none

/-- The task and the reference that handling a change binds. -/
def creates (change : TaskChangeEvent) : Option (String × String) :=
  match change.create with
  | some ⟨id, some reference⟩ => if reference = "" then none else some (id, reference)
  | _ => none

/-- The task and the reference that an event binds. -/
def binding (w : PostmanWorld) : PostmanAct → Option (String × String)
  | .answer id task => (w.calls.get? id).map fun c => (task, c.reference)
  | act => (w.handling act).bind creates

/-- A read of `task` that was answered with `read` is under way. -/
inductive Reading (w : PostmanWorld) (task : String) (read : TaskEvents) : Prop
  | call {id : ℕ} {c : AssignCall} (call : w.calls.get? id = some c)
    (phase : c.phase = .catchingUp task (some read))
  | poll {id : ℕ} (poll : w.polls.get? id = some (.reading task (some read)))
  | watch {todo : List String} {change : TaskChangeEvent}
    (watch : w.watch = .catchingUp task todo (some read) change)

/-- One alteration that the event `act` makes from the world `w`. -/
inductive Alters (w : PostmanWorld) (act : PostmanAct) : PostmanWorld → PostmanWorld → Prop
  /-- A call is registered, and the feed watched from now on. -/
  | register {id : ℕ} {reference : String} {escalate : Bool}
    (is : act = .assign id reference escalate) (new : w.calls.get? id = none) :
    Alters w act w { w with
      postman := { w.postman with
        watching := true
        assUpdateQueues := w.postman.assUpdateQueues.set reference id
        queues := Function.update w.postman.queues id [] }
      calls := w.calls.set id ⟨reference, escalate, w.postman.feedLive, .assigning, none, []⟩
      watch := if w.postman.watching then w.watch else .idle }
  /-- The feed comes alive, or a reading task is set. -/
  | note {u : PostmanWorld} (feedLive : Bool) (catchUpTasks : Dict String ℕ) :
    Alters w act u { u with postman := { u.postman with feedLive, catchUpTasks } }
  /-- The task that watches the feed goes on. -/
  | watches {u : PostmanWorld} {watch : Watch} (before : u.watch ≠ .off) (after : watch ≠ .off)
    (reads : ∀ task todo read change, watch = .catchingUp task todo (some read) change →
      read.id = task) : Alters w act u { u with watch }
  /-- A task that reads for a call goes on. -/
  | polls {u : PostmanWorld} {polls : Dict ℕ Poll}
    (reads : ∀ id task read, polls.get? id = some (.reading task (some read)) →
      u.polls.get? id = some (.reading task (some read)) ∨ read.id = task) :
    Alters w act u { u with polls }
  /-- Something happens on the server, or is asked of it. -/
  | serves {u : PostmanWorld} (server : TaskServer) (controls : List TaskControl) :
    Alters w act u { u with server, controls }
  /-- The feed shows which task was created under a reference. -/
  | bind {u : PostmanWorld} {task reference : String}
    (is : w.binding act = some (task, reference)) (calls : u.calls = w.calls)
    (same : u.postman.taskToReference = w.postman.taskToReference) :
    Alters w act u { u with postman := u.postman.bind task reference }
  /-- The feed carries an event. -/
  | route {u : PostmanWorld} (event : TaskEventChange) :
    Alters w act u { u with postman := u.postman.route event }
  /-- A task's history was read. -/
  | catchUp {u : PostmanWorld} {task : String} {read : TaskEvents} (reading : w.Reading task read) :
    Alters w act u { u with postman := u.postman.catchUp task read.areadEvents }
  /-- The feed died. -/
  | fail {reason : String} (is : act = .feedEnds reason) :
    Alters w act w { w with postman := w.postman.failPending reason, watch := .off }
  /-- A call's assign is answered. -/
  | answer {id : ℕ} {c : AssignCall} {task : String} {phase : AssignPhase}
    (is : act = .answer id task) (call : w.calls.get? id = some c) (live : c.Live)
    (untold : c.phase.task = none) (told : phase.task = some task)
    (reads : ∀ read, phase ≠ .catchingUp task (some read)) :
    Alters w act w { w with
      postman := w.postman.bind task c.reference
      calls := w.calls.set id { c with task := some task, phase := phase } }
  /-- A call takes an item from its queue. -/
  | pop {u : PostmanWorld} {id : ℕ} {item : QueueItem} {items : List QueueItem}
    (is : act.Takes id) (queue : u.postman.queues id = item :: items) :
    Alters w act u { u with postman := { u.postman with
      queues := Function.update u.postman.queues id items } }
  /-- A call hands over the event it takes. -/
  | hand {u : PostmanWorld} {id : ℕ} {c : AssignCall} {task : String} {event : TaskEventChange}
    {items : List QueueItem} (is : act.Takes id) (call : u.calls.get? id = some c)
    (phase : c.phase = .streaming task) (queue : u.postman.queues id = .event event :: items) :
    Alters w act u { u with
      postman := { u.postman with queues := Function.update u.postman.queues id items }
      calls := u.calls.set id
        { c with handed := c.handed ++ [event], phase := .suspended task } }
  /-- A call goes on, or ends without a clean-up. -/
  | phase {u : PostmanWorld} {id : ℕ} {c : AssignCall} {phase : AssignPhase}
    (call : u.calls.get? id = some c) (live : c.Live)
    (same : phase.task = c.phase.task ∨ ∃ outcome, phase = .ended outcome)
    (reads : ∀ task read, phase = .catchingUp task (some read) → read.id = task) :
    Alters w act u { u with calls := u.calls.set id { c with phase := phase } }
  /-- A call ends, and is cleaned up after. -/
  | finish {u : PostmanWorld} {id : ℕ} {c : AssignCall} {outcome : AssignOutcome}
    (call : u.calls.get? id = some c) (live : c.Live) :
    Alters w act u { u with
      postman := u.postman.cleanupReference c.reference
      calls := u.calls.set id { c with phase := .ended outcome } }

/-- The alterations an event makes, one after the other. -/
def Altered (w : PostmanWorld) (act : PostmanAct) : PostmanWorld → PostmanWorld → Prop :=
  Relation.ReflTransGen (w.Alters act)

variable {w w' u u' : PostmanWorld} {act : PostmanAct} {id : ℕ} {c : AssignCall}

theorem altered_handle {change : TaskChangeEvent}
    (hbinding : ∀ b, creates change = some b → w.binding act = some b) (hcalls : u.calls = w.calls)
    (hsame : u.postman.taskToReference = w.postman.taskToReference) :
    w.Altered act u { u with postman := u.postman.handle change } := by
  have hcreate : w.Altered act u { u with postman := u.postman.handleCreate change.create } := by
    rw [creates.eq_def] at hbinding
    rw [handleCreate.eq_def]
    split
    · rename_i task reference hchange
      simp only [hchange] at hbinding
      split
      · exact .refl
      · rename_i hne
        rw [if_neg hne] at hbinding
        exact .single (.bind (hbinding _ rfl) hcalls hsame)
    · exact .refl
    · exact .refl
  refine hcreate.trans ?_
  rw [handle, handleEvent.eq_def]
  split
  · exact .single (.route _)
  · exact .refl

theorem live_of_phase {phase : AssignPhase} (h : c.phase = phase)
    (hphase : ∀ outcome, phase ≠ .ended outcome) : c.Live := by
  rw [AssignCall.Live, h]
  exact hphase

/-- A call that knows its task has not ended. -/
theorem live_of_task {task : String} (h : c.phase.task = some task) : c.Live := by
  rintro outcome hphase
  rw [hphase] at h
  cases h

/-- A call that goes on, its task the same, and not with a read that was answered. -/
theorem altered_phase {phase phase' : AssignPhase} (hc : u.calls.get? id = some c)
    (hphase : c.phase = phase) (hsame : phase'.task = phase.task)
    (hlive : ∀ outcome, phase ≠ .ended outcome)
    (hreads : ∀ task read, phase' ≠ .catchingUp task (some read)) :
    w.Altered act u (u.setCall id { c with phase := phase' }) := by
  refine .single (.phase hc (live_of_phase hphase hlive) (Or.inl ?_) fun task read hread => ?_)
  · rw [hphase]
    exact hsame
  · exact absurd hread (hreads task read)

theorem altered_finish (hc : u.calls.get? id = some c) (hlive : c.Live) (outcome : AssignOutcome) :
    w.Altered act u (u.finish id c outcome) := by
  refine .tail (.single (.finish hc hlive)) (.polls fun id' task read hpoll => Or.inl ?_)
  cases hreading : u.postman.catchUpTasks.get? c.reference with
  | none => simpa only [cleanupReference, hreading] using hpoll
  | some poll =>
    simp only [cleanupReference, hreading] at hpoll
    exact (Dict.get?_erase_eq_some.mp hpoll).2

theorem altered_control (hc : u.calls.get? id = some c) (hlive : c.Live) {task : String}
    (htask : c.phase.task = some task) (request : TaskControl) (wait : Confirmation) :
    w.Altered act u (u.control id c task request wait) :=
  .tail (.single (.serves u.server (u.controls ++ [request])))
    (.phase hc hlive (Or.inl htask.symm) (by rintro _ _ ⟨⟩))

theorem altered_unconfirmed (hc : u.calls.get? id = some c) (hlive : c.Live) {task : String}
    (htask : c.phase.task = some task) (wait : Confirmation) :
    w.Altered act u (u.unconfirmed id c task wait) := by
  rw [unconfirmed]
  split
  · exact altered_control hc hlive htask _ _
  · exact altered_finish hc hlive _

theorem altered_cancelled (hc : w.calls.get? id = some c) (hs : w.cancelled id c = some w') :
    w.Altered act w w' := by
  cases hphase : c.phase <;>
    simp only [cancelled, hphase, Option.some.injEq, reduceCtorEq] at hs <;> subst hs
  case assigning =>
    exact altered_phase hc hphase rfl (by rintro _ ⟨⟩) (by rintro _ _ ⟨⟩)
  case assignedDespiteCancel =>
    exact .single (.phase hc (live_of_phase hphase (by rintro _ ⟨⟩))
      (Or.inr ⟨_, rfl⟩) (by rintro _ _ ⟨⟩))
  case confirming => exact altered_finish hc (live_of_phase hphase (by rintro _ ⟨⟩)) _
  all_goals
    exact altered_control hc (live_of_phase hphase (by rintro _ ⟨⟩)) (by rw [hphase]; rfl) _ _

theorem altered_answered {task : String} (hc : w.calls.get? id = some c)
    (hs : w.answered id c task = some w') : w.Altered (.answer id task) w w' := by
  cases hphase : c.phase <;>
    simp only [answered, hphase, Option.some.injEq, reduceCtorEq] at hs <;> subst hs
  case assigning =>
    refine .single (.answer rfl hc (live_of_phase hphase (by rintro _ ⟨⟩))
      (by rw [hphase]; rfl) ?_ ?_)
    · split <;> rfl
    · intro read
      split <;> rintro ⟨⟩
  case assignedDespiteCancel =>
    exact .tail (.single (.answer rfl hc (live_of_phase hphase (by rintro _ ⟨⟩))
      (by rw [hphase]; rfl) rfl (by rintro _ ⟨⟩)))
      (.serves w.server (w.controls ++ [.cancel task]))

/-- What a read leaves, once it is over: the tables caught up, or as they were. -/
theorem altered_afterRead {task : String} {read : Option TaskEvents} {succeeds : Bool}
    (hreading : ∀ r, read = some r → w.Reading task r)
    (hs : w.afterRead task read succeeds = some u) :
    w.Altered act w u ∧ u.calls = w.calls ∧ u.watch = w.watch
      ∧ u.postman.taskToReference = w.postman.taskToReference := by
  cases succeeds with
  | false =>
    obtain rfl := Option.some.inj hs
    exact ⟨.refl, rfl, rfl, rfl⟩
  | true =>
    obtain ⟨r, rfl, rfl⟩ := Option.map_eq_some_iff.mp hs
    exact ⟨.single (.catchUp (hreading r rfl)), rfl, rfl,
      (catchUp_tables w.postman task r.areadEvents).taskToReference⟩

/-- A reading task that does not wait for an answer can be set, or dropped. -/
theorem altered_polls {polls : Dict ℕ Poll} (hpolls : ∀ id' poll, polls.get? id' = some poll →
    u.polls.get? id' = some poll ∨ ∀ task read, poll ≠ .reading task (some read)) :
    w.Altered act u { u with polls } :=
  .single (.polls fun id' task read hpoll =>
    Or.inl ((hpolls id' _ hpoll).resolve_right fun hne => hne task read rfl))

theorem altered_sleeping (task : String) :
    w.Altered act u { u with polls := u.polls.set id (.sleeping task) } := by
  refine altered_polls fun id' poll hpoll => ?_
  obtain ⟨rfl, rfl⟩ | ⟨-, hpoll⟩ := Dict.get?_set_eq_some.mp hpoll
  · exact Or.inr (by rintro _ _ ⟨⟩)
  · exact Or.inl hpoll

theorem altered_stopped : w.Altered act u { u with polls := u.polls.erase id } :=
  altered_polls fun _ _ hpoll => Or.inl (Dict.get?_erase_eq_some.mp hpoll).2

theorem altered_idle (hrunning : u.watch ≠ .off) : w.Altered act u { u with watch := .idle } :=
  .single (.watches hrunning (by rintro ⟨⟩) (by rintro _ _ _ _ ⟨⟩))

theorem altered_readDone {reader : Reader} {succeeds : Bool}
    (hs : w.readDone succeeds reader = some w') :
    w.Altered (.readDone reader succeeds) w w' := by
  cases reader with
  | call id =>
    obtain ⟨c, hc, hs⟩ := Option.bind_eq_some_iff.mp hs
    split at hs
    · rename_i task read hphase
      obtain ⟨u, hu, rfl⟩ := Option.map_eq_some_iff.mp hs
      obtain ⟨halt, hcalls, -, -⟩ := altered_afterRead
        (fun r hr => .call hc (by rw [hphase, hr])) hu
      refine halt.trans ?_
      have hcu : u.calls.get? id = some c := by rw [hcalls]; exact hc
      have hstreaming : ∀ {v : PostmanWorld}, v.calls.get? id = some c →
          w.Altered (.readDone (.call id) succeeds) v
            (v.setCall id { c with phase := .streaming task }) := fun hcv =>
        altered_phase hcv hphase rfl (by rintro _ ⟨⟩) (by rintro _ _ ⟨⟩)
      rw [caughtUp]
      split
      · exact hstreaming hcu
      · refine .trans (.single (.note u.postman.feedLive
          (u.postman.catchUpTasks.set c.reference id))) ?_
        exact (altered_sleeping task).trans (hstreaming hcu)
    · cases hs
  | poll id =>
    simp only [readDone] at hs
    split at hs
    · rename_i task read hpoll
      obtain ⟨u, hu, rfl⟩ := Option.map_eq_some_iff.mp hs
      refine (altered_afterRead (fun r hr => .poll (by rw [hpoll, hr])) hu).1.trans ?_
      rw [polled]
      split
      · exact altered_stopped
      · exact altered_sleeping task
    · cases hs
  | watch =>
    simp only [readDone] at hs
    split at hs
    · rename_i task todo read change hwatch
      obtain ⟨u, hu, rfl⟩ := Option.map_eq_some_iff.mp hs
      obtain ⟨halt, hcalls, hwatch', htables⟩ := altered_afterRead
        (fun r hr => .watch (by rw [hwatch, hr])) hu
      have hrunning : u.watch ≠ .off := by
        rw [hwatch', hwatch]
        rintro ⟨⟩
      refine halt.trans ?_
      cases todo with
      | nil =>
        refine (altered_idle hrunning).trans ?_
        exact altered_handle (fun b hb => by simp [binding, handling, hwatch, hb]) hcalls htables
      | cons task todo =>
        exact .single (.watches hrunning (by rintro ⟨⟩) (by rintro _ _ _ _ ⟨⟩))
    · cases hs

theorem altered_deliver (hs : step w .deliver = some w') : w.Altered .deliver w w' := by
  simp only [step] at hs
  split at hs
  · rename_i change feed hwatch hfeed
    have hrunning : w.watch ≠ .off := by
      rw [hwatch]
      rintro ⟨⟩
    have hidle : ∀ {u : PostmanWorld}, u.watch = w.watch → u.calls = w.calls →
        u.postman.taskToReference = w.postman.taskToReference →
        (∀ b, creates change = some b → w.binding .deliver = some b) →
        w.Altered .deliver u
          { u with postman := u.postman.handle change, watch := .idle } := by
      intro u hu hcalls hsame hbinding
      exact (altered_idle (hu.trans_ne hrunning)).trans (altered_handle hbinding hcalls hsame)
    have hserves : w.Altered .deliver w { w with server := { w.server with feed := feed } } :=
      .single (.serves _ w.controls)
    refine hserves.trans ?_
    split at hs
    · rename_i hlive
      obtain rfl := Option.some.inj hs
      exact hidle rfl rfl rfl
        fun b hb => by simp [binding, handling, hwatch, hfeed, (hlive : w.postman.feedLive), hb]
    · obtain rfl := Option.some.inj hs
      refine .trans (.single (.note true w.postman.catchUpTasks)) ?_
      cases hkeys : w.postman.taskToReference.keys with
      | nil =>
        exact hidle rfl rfl rfl
          fun b hb => by simp [binding, handling, hwatch, hfeed, hkeys, hb]
      | cons task todo =>
        exact .single (.watches hrunning (by rintro ⟨⟩) (by rintro _ _ _ _ ⟨⟩))
  · cases hs

theorem altered_take (hs : step w (.take id) = some w') : w.Altered (.take id) w w' := by
  obtain ⟨c, hc, hs⟩ := Option.bind_eq_some_iff.mp hs
  split at hs
  · rename_i task hphase
    obtain ⟨⟨item, u⟩, hpop, rfl⟩ := Option.map_eq_some_iff.mp hs
    obtain ⟨items, hqueue, hu⟩ := pop_eq_some hpop
    cases item with
    | event event =>
      rw [hu]
      exact .single (.hand rfl hc hphase hqueue)
    | feedLost reason =>
      have htaken : w.Altered (.take id) w u := by
        rw [hu]
        exact .single (.pop rfl hqueue)
      have hcu : u.calls.get? id = some c := by
        rw [hu]
        exact hc
      exact htaken.trans (altered_finish hcu (live_of_phase hphase (by rintro _ ⟨⟩)) _)
  · cases hs

/-- A cancelled call takes an item of its queue. -/
theorem altered_confirm (hs : step w (.confirm id) = some w') :
    w.Altered (.confirm id) w w' := by
  obtain ⟨c, hc, hs⟩ := Option.bind_eq_some_iff.mp hs
  have htook : ∀ {task : String} {wait : Confirmation} {item : QueueItem} {u : PostmanWorld},
      c.phase.task = some task → w.pop id = some (item, u) →
      w.Altered (.confirm id) w (u.confirmed id c task wait item) := by
    intro task wait item u htask hpop
    obtain ⟨items, hqueue, hu⟩ := pop_eq_some hpop
    have htaken : w.Altered (.confirm id) w u := by
      rw [hu]
      exact .single (.pop rfl hqueue)
    have hcu : u.calls.get? id = some c := by
      rw [hu]
      exact hc
    refine htaken.trans ?_
    cases item with
    | event event =>
      rw [confirmed]
      split
      · exact altered_finish hcu (live_of_task htask) _
      · exact .refl
    | feedLost reason => exact altered_unconfirmed hcu (live_of_task htask) htask _
  split at hs
  · rename_i task hphase
    obtain ⟨⟨item, u⟩, hpop, rfl⟩ := Option.map_eq_some_iff.mp hs
    exact htook (by rw [hphase]; rfl) hpop
  · rename_i task hphase
    obtain ⟨⟨item, u⟩, hpop, rfl⟩ := Option.map_eq_some_iff.mp hs
    exact htook (by rw [hphase]; rfl) hpop
  · cases hs

/-- The server answers a read with the events of the task it was asked about. -/
theorem altered_read {reader : Reader} (hs : w.read reader = some w') :
    w.Altered (.read reader) w w' := by
  cases reader with
  | call id =>
    obtain ⟨c, hc, hs⟩ := Option.bind_eq_some_iff.mp hs
    split at hs
    · rename_i task hphase
      obtain rfl := Option.some.inj hs
      refine .single (.phase hc (live_of_phase hphase (by rintro _ ⟨⟩))
        (Or.inl (by rw [hphase]; rfl)) ?_)
      rintro _ _ ⟨⟩
      rfl
    · cases hs
  | poll id =>
    simp only [read] at hs
    split at hs
    · obtain rfl := Option.some.inj hs
      refine .single (.polls fun id' task' read' hpoll => ?_)
      obtain ⟨-, hpoll⟩ | ⟨-, hpoll⟩ := Dict.get?_set_eq_some.mp hpoll
      · cases hpoll
        exact Or.inr rfl
      · exact Or.inl hpoll
    · cases hs
  | watch =>
    simp only [read] at hs
    split at hs
    · rename_i hwatch
      obtain rfl := Option.some.inj hs
      refine .single (.watches (by rw [hwatch]; rintro ⟨⟩) (by rintro ⟨⟩) ?_)
      rintro _ _ _ _ ⟨⟩
      rfl
    · cases hs

theorem altered_assign {reference : String} {escalate : Bool}
    (hs : step w (.assign id reference escalate) = some w') :
    w.Altered (.assign id reference escalate) w w' := by
  simp only [step] at hs
  split at hs
  · cases hs
  · rename_i hnew
    obtain rfl := Option.some.inj hs
    have hregister : w.Altered (.assign id reference escalate) w _ := .single (.register rfl hnew)
    rw [startWatching]
    split
    · rename_i hwatching
      rw [if_pos hwatching, ← hwatching] at hregister
      exact hregister
    · rename_i hnot
      rw [if_neg hnot] at hregister
      exact hregister.tail (.serves { w.server with subscribed := none, feed := [] } w.controls)

/-- Every event is a sequence of alterations. -/
theorem altered_step (hs : step w act = some w') : w.Altered act w w' := by
  cases act with
  | assign id reference escalate => exact altered_assign hs
  | create id task =>
    simp only [step] at hs
    split at hs
    · rw [Option.ite_none_right_eq_some, Option.some.injEq] at hs
      obtain ⟨-, rfl⟩ := hs
      exact .single (.serves _ w.controls)
    · cases hs
  | createForeign task reference =>
    simp only [step] at hs
    split at hs
    · obtain rfl := Option.some.inj hs
      exact .single (.serves _ w.controls)
    · cases hs
  | report event =>
    simp only [step, Option.ite_none_right_eq_some, Option.some.injEq] at hs
    obtain ⟨-, rfl⟩ := hs
    exact .single (.serves _ w.controls)
  | subscribe =>
    simp only [step] at hs
    split at hs
    · cases hs
    · cases hs
    · obtain rfl := Option.some.inj hs
      exact .single (.serves _ w.controls)
  | deliver => exact altered_deliver hs
  | feedEnds reason =>
    simp only [step] at hs
    split at hs
    · obtain rfl := Option.some.inj hs
      exact .single (.fail rfl)
    · cases hs
  | read reader => exact altered_read hs
  | readDone reader succeeds => exact altered_readDone hs
  | wake id =>
    simp only [step] at hs
    split at hs
    · obtain rfl := Option.some.inj hs
      refine altered_polls fun id' poll hpoll => ?_
      split at hpoll
      · exact Or.inl (Dict.get?_erase_eq_some.mp hpoll).2
      · obtain ⟨rfl, rfl⟩ | ⟨-, hpoll⟩ := Dict.get?_set_eq_some.mp hpoll
        · exact Or.inr (by rintro _ _ ⟨⟩)
        · exact Or.inl hpoll
    · cases hs
  | answer id task =>
    obtain ⟨c, hc, hs⟩ := Option.bind_eq_some_iff.mp hs
    exact altered_answered hc hs
  | assignFails id error =>
    obtain ⟨c, hc, hs⟩ := Option.bind_eq_some_iff.mp hs
    split at hs
    · rename_i hphase
      obtain rfl := Option.some.inj hs
      exact altered_finish hc (live_of_phase hphase (by rintro _ ⟨⟩)) _
    · rename_i hphase
      obtain rfl := Option.some.inj hs
      exact altered_finish hc (live_of_phase hphase (by rintro _ ⟨⟩)) _
    · cases hs
  | take id => exact altered_take hs
  | next id =>
    obtain ⟨c, hc, hs⟩ := Option.bind_eq_some_iff.mp hs
    split at hs
    · rename_i task hphase
      obtain rfl := Option.some.inj hs
      exact altered_phase hc hphase rfl (by rintro _ ⟨⟩) (by rintro _ _ ⟨⟩)
    · cases hs
  | close id =>
    obtain ⟨c, hc, hs⟩ := Option.bind_eq_some_iff.mp hs
    split at hs
    · rename_i task hphase
      obtain rfl := Option.some.inj hs
      exact altered_finish hc (live_of_phase hphase (by rintro _ ⟨⟩)) _
    · cases hs
  | cancel id =>
    obtain ⟨c, hc, hs⟩ := Option.bind_eq_some_iff.mp hs
    exact altered_cancelled hc hs
  | controlSent id =>
    obtain ⟨c, hc, hs⟩ := Option.bind_eq_some_iff.mp hs
    split at hs
    · rename_i task hphase
      obtain rfl := Option.some.inj hs
      exact altered_phase hc hphase rfl (by rintro _ ⟨⟩) (by rintro _ _ ⟨⟩)
    · rename_i task hphase
      obtain rfl := Option.some.inj hs
      exact altered_phase hc hphase rfl (by rintro _ ⟨⟩) (by rintro _ _ ⟨⟩)
    · cases hs
  | confirm id => exact altered_confirm hs
  | timeout id =>
    obtain ⟨c, hc, hs⟩ := Option.bind_eq_some_iff.mp hs
    split at hs
    · rename_i hphase
      obtain rfl := Option.some.inj hs
      exact altered_finish hc (live_of_phase hphase (by rintro _ ⟨⟩)) _
    · rename_i task hphase
      obtain rfl := Option.some.inj hs
      exact altered_unconfirmed hc (live_of_phase hphase (by rintro _ ⟨⟩)) (by rw [hphase]; rfl) _
    · rename_i task hphase
      obtain rfl := Option.some.inj hs
      exact altered_unconfirmed hc (live_of_phase hphase (by rintro _ ⟨⟩)) (by rw [hphase]; rfl) _
    · cases hs

/-- What every alteration keeps, an event keeps. -/
theorem invariant_of_step {I : PostmanWorld → Prop} (h : I w) (hs : step w act = some w')
    (halters : ∀ u u', I u → w.Alters act u u' → I u') : I w' := by
  have hinv : ∀ u, w.Altered act w u → I u := by
    intro u haltered
    induction haltered with
    | refl => exact h
    | tail _ ha ih => exact halters _ _ ih ha
  exact hinv _ (altered_step hs)

/-! ## Queues -/

/-- What holds between a queue and a longer one, and between a queue and what a catch-up makes of
it, holds across every event in which the call takes nothing. -/
theorem queue_step {R : List QueueItem → List QueueItem → Prop}
    (htrans : ∀ a b c, R a b → R b c → R a c) (hlonger : ∀ a b, a <+: b → R a b)
    (hcatchUp : ∀ (p : GraphQLPostman) task history,
      R (p.queues id) ((p.catchUp task history).queues id))
    (hc : w.calls.get? id = some c) (htakes : ¬ act.Takes id) (hs : step w act = some w') :
    R (w.postman.queues id) (w'.postman.queues id) := by
  refine (invariant_of_step (I := fun u => (∃ c, u.calls.get? id = some c)
    ∧ R (w.postman.queues id) (u.postman.queues id))
    ⟨⟨c, hc⟩, hlonger _ _ (List.prefix_refl _)⟩ hs ?_).2
  rintro u u' ⟨⟨c', hc'⟩, hqueue⟩ ha
  have hset : ∀ {calls : Dict ℕ AssignCall} (id' : ℕ) (c₀ : AssignCall),
      (∃ c, calls.get? id = some c) → ∃ c, (calls.set id' c₀).get? id = some c := by
    rintro calls id' c₀ ⟨c, hc⟩
    by_cases hid : id = id' <;> simp [hid]
    exact ⟨c, by simpa [hid] using hc⟩
  have happend : ∀ {items : List QueueItem}, u.postman.queues id <+: items →
      R (w.postman.queues id) items := fun hpre => htrans _ _ _ hqueue (hlonger _ _ hpre)
  cases ha with
  | @register id' reference escalate is new =>
    have hne : id ≠ id' := by
      rintro rfl
      rw [hc] at new
      cases new
    refine ⟨hset _ _ ⟨c', hc'⟩, ?_⟩
    simpa [hne] using hqueue
  | bind is calls same => exact ⟨⟨c', hc'⟩, happend (queues_bind _ _ _ id)⟩
  | route event => exact ⟨⟨c', hc'⟩, happend (queues_route _ _ id)⟩
  | catchUp reading => exact ⟨⟨c', hc'⟩, htrans _ _ _ hqueue (hcatchUp _ _ _)⟩
  | fail is =>
    obtain ⟨n, hlost, -⟩ := queues_failPending w.postman _ id
    exact ⟨⟨c', hc'⟩, happend (hlost ▸ List.prefix_append _ _)⟩
  | answer is call live untold told reads =>
    exact ⟨hset _ _ ⟨c', hc'⟩, happend (queues_bind _ _ _ id)⟩
  | @pop _ id' item items is queue =>
    have hne : id ≠ id' := by
      rintro rfl
      exact htakes is
    refine ⟨⟨c', hc'⟩, ?_⟩
    simpa [hne] using hqueue
  | @hand _ id' c₀ task event items is call phase queue =>
    have hne : id ≠ id' := by
      rintro rfl
      exact htakes is
    refine ⟨hset _ _ ⟨c', hc'⟩, ?_⟩
    simpa [hne] using hqueue
  | phase call live same reads => exact ⟨hset _ _ ⟨c', hc'⟩, hqueue⟩
  | @finish _ id' c₀ outcome call live =>
    refine ⟨hset _ _ ⟨c', hc'⟩, ?_⟩
    exact (cleanupReference_spec u.postman c₀.reference).2.2.1 ▸ hqueue
  | _ => exact ⟨⟨c', hc'⟩, hqueue⟩

/-! ## Registered calls -/

/-- Every live call's reference leads to its own queue. -/
def Registered (w : PostmanWorld) : Prop :=
  ∀ id c, w.calls.get? id = some c → c.Live → w.postman.assUpdateQueues.get? c.reference = some id

/-- A call registers only under a reference that no live call has. -/
def FreshReference (w : PostmanWorld) : PostmanAct → Prop
  | .assign _ reference _ =>
    ∀ id c, w.calls.get? id = some c → c.Live → c.reference ≠ reference
  | _ => True

/-- Live calls have references of their own. -/
theorem Registered.unique (h : Registered u) {id id' : ℕ} {c c' : AssignCall}
    (hc : u.calls.get? id = some c) (hlive : c.Live) (hc' : u.calls.get? id' = some c')
    (hlive' : c'.Live) (href : c.reference = c'.reference) : id = id' :=
  Option.some.inj ((h id c hc hlive).symm.trans (href ▸ h id' c' hc' hlive'))

/-- An alteration that leaves the calls, and under which reference each queue is. -/
theorem Registered.of_tables (h : Registered u) (hcalls : u'.calls = u.calls)
    (hqueues : u'.postman.assUpdateQueues = u.postman.assUpdateQueues) : Registered u' := by
  rw [Registered, hcalls, hqueues]
  exact h

/-- An alteration that leaves the queues' table, and of the calls changes at most one live one. -/
theorem Registered.of_call (h : Registered u)
    (hqueues : u'.postman.assUpdateQueues = u.postman.assUpdateQueues)
    (hc : u.calls.get? id = some c) (hlive : c.Live) {c' : AssignCall}
    (hcalls : u'.calls = u.calls.set id c') (href : c'.reference = c.reference) :
    Registered u' := by
  intro id' c₀ h₀ hlive₀
  rw [hcalls] at h₀
  rw [hqueues]
  obtain ⟨rfl, rfl⟩ | ⟨-, h₀⟩ := Dict.get?_set_eq_some.mp h₀
  · rw [href]
    exact h id' c hc hlive
  · exact h id' c₀ h₀ hlive₀

theorem Registered.alters (h : Registered u) (hfresh : w.FreshReference act)
    (ha : w.Alters act u u') : Registered u' := by
  cases ha with
  | @register id reference escalate is new =>
    subst is
    intro id' c₀ h₀ hlive₀
    obtain ⟨rfl, rfl⟩ | ⟨-, h₀⟩ := Dict.get?_set_eq_some.mp h₀
    · simp
    · have hne := hfresh id' c₀ h₀ hlive₀
      simpa [hne] using h id' c₀ h₀ hlive₀
  | note feedLive catchUpTasks => exact h
  | watches before after reads => exact h
  | polls reads => exact h
  | serves server controls => exact h
  | bind is calls same => exact h.of_tables rfl (bind_tables _ _ _).assUpdateQueues
  | route event => exact h.of_tables rfl (route_tables _ _).assUpdateQueues
  | catchUp reading => exact h.of_tables rfl (catchUp_tables _ _ _).assUpdateQueues
  | fail is => exact h.of_tables rfl (failPending_tables _ _).1.assUpdateQueues
  | answer is call live untold told reads =>
    exact h.of_call (bind_tables _ _ _).assUpdateQueues call live rfl rfl
  | pop is queue => exact h
  | hand is call phase queue =>
    exact h.of_call rfl call (live_of_phase phase (by rintro _ ⟨⟩)) rfl rfl
  | phase call live same reads => exact h.of_call rfl call live rfl rfl
  | @finish _ id c outcome call live =>
    intro id' c₀ h₀ hlive₀
    obtain ⟨rfl, rfl⟩ | ⟨hne, h₀⟩ := Dict.get?_set_eq_some.mp h₀
    · exact absurd rfl (hlive₀ outcome)
    · obtain ⟨-, -, -, hkept, -⟩ := cleanupReference_spec u.postman c.reference
      have hother : c₀.reference ≠ c.reference := fun href =>
        hne (h.unique h₀ hlive₀ call live href)
      exact (hkept _ hother).trans (h id' c₀ h₀ hlive₀)

theorem Registered.step (h : Registered w) (hfresh : w.FreshReference act)
    (hs : step w act = some w') : Registered w' :=
  invariant_of_step h hs fun _ _ hs ha => hs.alters hfresh ha

end PostmanWorld

end Rekuest
