import Mathlib.Data.Finset.Basic
import Mathlib.Logic.Function.Basic
import Rekuest.Lib.Dict
import Rekuest.Lib.Runs
import Rekuest.Messages

/-!
# Calls over GraphQL

`GraphQLPostman` of `rekuest/client/postman.py`: the tables that route a task's events to the call
that waits on them, the generator `aassign` as the points it can wait at, the task that watches
the change feed, and the catch-up reads of both.
-/

namespace Rekuest

/-! ## Events, and what a queue holds -/

/-- `TaskEventKind`, as far as a cancelled call tells the kinds apart. -/
inductive TaskEventKind
  | cancelled
  | interrupted
  | other (kind : String)
deriving DecidableEq

/-- `TaskEvent`: an event in the list of its task. -/
structure TaskEvent where
  id : String
  kind : TaskEventKind
  returns : Option Json := none
  message : Option String := none
  progress : Option ℤ := none
  value : Option Json := none
  createdAt : String := ""

/-- `TaskEventChange`: an event as the feed carries it. -/
structure TaskEventChange extends TaskEvent where
  task : String

/-- `TaskEventsQueryTask`: the answer to a read of a task's events, oldest first. -/
structure TaskEvents where
  id : String
  events : List TaskEvent

/-- `_aread_events`: the events that were read, as the feed would carry them. -/
def TaskEvents.areadEvents (task : TaskEvents) : List TaskEventChange :=
  task.events.map fun event => { event with task := task.id }

/-- `TaskChange`: a task that was created, with the reference it was assigned under. -/
structure TaskChange where
  id : String
  reference : Option String

/-- `TaskChangeEvent`: what the feed delivers. -/
structure TaskChangeEvent where
  create : Option TaskChange := none
  event : Option TaskEventChange := none

/-- What a call's queue holds: events, and `_FeedLost` once the feed died. -/
inductive QueueItem
  | event (change : TaskEventChange)
  | feedLost (reason : String)

/-- The event of an item, if it is one. -/
def QueueItem.event? : QueueItem → Option TaskEventChange
  | .event change => some change
  | .feedLost _ => none

/-- The ids of the events among some items. -/
def eventIds (items : List QueueItem) : List String :=
  (items.filterMap QueueItem.event?).map fun event => event.id

/-! ## The tables

The postman's dicts map references, tasks and calls to one another. A queue is an object of its own,
which a call keeps when the tables have dropped it.
-/

/-- The state of `GraphQLPostman`, and the queues it refers to. A queue has the number of the call
that made it, as has the task that keeps reading for a call. -/
structure GraphQLPostman where
  watching : Bool
  feedLive : Bool
  /-- `_ass_update_queues`, by reference. -/
  assUpdateQueues : Dict String ℕ
  taskToReference : Dict String String
  referenceToTask : Dict String String
  orphanEventsByTask : Dict String (List TaskEventChange)
  routedEventIds : Dict String (Finset String)
  /-- `_catch_up_tasks`, by reference. -/
  catchUpTasks : Dict String ℕ
  /-- The contents of the queues. -/
  queues : ℕ → List QueueItem

namespace GraphQLPostman

/-- A postman nothing happened to. -/
def new : GraphQLPostman := ⟨false, false, ∅, ∅, ∅, ∅, ∅, ∅, fun _ => []⟩

/-- Put items into a queue. -/
def put (p : GraphQLPostman) (queue : ℕ) (items : List QueueItem) : GraphQLPostman :=
  { p with queues := Function.update p.queues queue (p.queues queue ++ items) }

/-- `_bind`. -/
def bind (p : GraphQLPostman) (taskId reference : String) : GraphQLPostman :=
  let orphans := (p.orphanEventsByTask.get? taskId).getD []
  let p := { p with
    taskToReference := p.taskToReference.set taskId reference
    referenceToTask := p.referenceToTask.set reference taskId
    orphanEventsByTask := p.orphanEventsByTask.erase taskId }
  match p.assUpdateQueues.get? reference with
  | some queue => p.put queue (orphans.map .event)
  | none => p

/-- The queue of the call a task is bound to, if that call is there. -/
def queueOf (p : GraphQLPostman) (taskId : String) : Option ℕ :=
  (p.taskToReference.get? taskId).bind p.assUpdateQueues.get?

/-- `_routed_event_ids.setdefault(task, set())`. -/
def routed (p : GraphQLPostman) (taskId : String) : Finset String :=
  (p.routedEventIds.get? taskId).getD ∅

/-- `_route`. -/
def route (p : GraphQLPostman) (event : TaskEventChange) : GraphQLPostman :=
  if event.id ∈ p.routed event.task then p
  else
    let p := { p with
      routedEventIds := p.routedEventIds.set event.task (insert event.id (p.routed event.task)) }
    match p.queueOf event.task with
    | some queue => p.put queue [.event event]
    | none => { p with
        orphanEventsByTask := p.orphanEventsByTask.set event.task
          ((p.orphanEventsByTask.get? event.task).getD [] ++ [event]) }

/-- The events a history has that were not taken from the queue. -/
def missing (routed : Finset String) (waiting : List QueueItem) (history : List TaskEventChange) :
    List TaskEventChange :=
  let taken := routed \ (eventIds waiting).toFinset
  history.filter fun event => event.id ∉ taken

/-- Whether a waiting item stays behind the history: a `_FeedLost` does, and a newer event. -/
def staysBehind (history : List TaskEventChange) : QueueItem → Bool
  | .feedLost _ => true
  | .event event => event.id ∉ history.map fun event => event.id

/-- `_acatch_up`, from the answer to the read on. -/
def catchUp (p : GraphQLPostman) (taskId : String) (history : List TaskEventChange) :
    GraphQLPostman :=
  match p.queueOf taskId with
  | none => p
  | some queue =>
    let waiting := p.queues queue
    let missing := missing (p.routed taskId) waiting history
    { p with
      routedEventIds := p.routedEventIds.set taskId
        (p.routed taskId ∪ (missing.map fun event => event.id).toFinset)
      queues := Function.update p.queues queue
        (missing.map .event ++ waiting.filter (staysBehind history)) }

/-- `_cleanup_reference`, but for the cancellation of the reading task. -/
def cleanupReference (p : GraphQLPostman) (reference : String) : GraphQLPostman :=
  let p := match p.referenceToTask.get? reference with
    | none => p
    | some tid => { p with
        referenceToTask := p.referenceToTask.erase reference
        taskToReference := p.taskToReference.erase tid
        orphanEventsByTask := p.orphanEventsByTask.erase tid
        routedEventIds := p.routedEventIds.erase tid }
  { p with
    assUpdateQueues := p.assUpdateQueues.erase reference
    catchUpTasks := p.catchUpTasks.erase reference }

/-- `_fail_pending`. -/
def failPending (p : GraphQLPostman) (reason : String) : GraphQLPostman :=
  p.assUpdateQueues.values.foldl (fun p queue => p.put queue [.feedLost reason])
    { p with watching := false, feedLive := false }

/-- `watch_tasks` binds a task that was created under a reference. -/
def handleCreate (p : GraphQLPostman) : Option TaskChange → GraphQLPostman
  | some ⟨id, some reference⟩ => if reference = "" then p else p.bind id reference
  | some ⟨_, none⟩ | none => p

/-- `watch_tasks` routes an event. -/
def handleEvent (p : GraphQLPostman) : Option TaskEventChange → GraphQLPostman
  | some event => p.route event
  | none => p

/-- What `watch_tasks` does with a change. -/
def handle (p : GraphQLPostman) (change : TaskChangeEvent) : GraphQLPostman :=
  (p.handleCreate change.create).handleEvent change.event

end GraphQLPostman

/-! ## The calls and the tasks that read for them

Each waits at one of a few places, and whatever else happens does so between two of them.
-/

/-- What `aassign` waits for once it was cancelled, in `_confirm_cancellation`. -/
inductive Confirmation
  /-- For `_send_cancel`. -/
  | cancel
  /-- For a `CANCELLED` event. -/
  | cancelled
  /-- For `_send_interrupt`. -/
  | interrupt
  /-- For an `INTERRUPTED` or a `CANCELLED` event. -/
  | interrupted
deriving DecidableEq

/-- The kinds of event a wait is over with. -/
def Confirmation.kinds : Confirmation → List TaskEventKind
  | .cancelled => [.cancelled]
  | .interrupted => [.interrupted, .cancelled]
  | .cancel | .interrupt => []

/-- How `aassign` ended. -/
inductive AssignOutcome
  /-- The consumer closed it. -/
  | closed
  | cancelled
  | postmanException (message : String)
deriving DecidableEq

/-- Where `aassign` waits; `read` is what the server answered to the read under way. -/
inductive AssignPhase
  /-- For the shielded assign. -/
  | assigning
  /-- In `_assigned_despite_cancel`. -/
  | assignedDespiteCancel
  /-- In the read before the first event. -/
  | catchingUp (task : String) (read : Option TaskEvents)
  /-- In `queue.get()`. -/
  | streaming (task : String)
  /-- At `yield`. -/
  | suspended (task : String)
  | confirming (task : String) (wait : Confirmation)
  | ended (outcome : AssignOutcome)

/-- One run of `aassign`. -/
structure AssignCall where
  reference : String
  escalateToInterrupt : Bool
  feedWasLive : Bool
  phase : AssignPhase
  /-- The task of the assign's answer. -/
  task : Option String
  /-- The events handed to the consumer. -/
  handed : List TaskEventChange

/-- Where `_acatch_up_until_live` waits. -/
inductive Poll
  | sleeping (task : String)
  | reading (task : String) (read : Option TaskEvents)

/-- Where `watch_tasks` waits. -/
inductive Watch
  /-- It does not run. -/
  | off
  /-- For the next change. -/
  | idle
  /-- For the events of `task`, with `todo` to catch up after it, before it handles `change`. -/
  | catchingUp (task : String) (todo : List String) (read : Option TaskEvents)
      (change : TaskChangeEvent)

/-! ## The server

What the calls see of it: the tasks it created, their events, and the changes a subscribed feed will
still deliver.
-/

/-- A task on the server: its reference, and the call whose assign created it, if one did. -/
structure CreatedTask where
  reference : Option String
  assign : Option ℕ

/-- What the calls see of the server. -/
structure TaskServer where
  created : Dict String CreatedTask
  /-- Every event of every task, oldest first. -/
  log : List TaskEventChange
  /-- How long the log was when the feed was subscribed, if it is. -/
  subscribed : Option ℕ
  /-- The changes the feed has not delivered yet. -/
  feed : List TaskChangeEvent

namespace TaskServer

/-- The events of a task. -/
def historyOf (s : TaskServer) (task : String) : List TaskEventChange :=
  s.log.filter fun event => event.task = task

/-- The answer to a read of a task's events. -/
def taskEvents (s : TaskServer) (task : String) : TaskEvents :=
  ⟨task, (s.historyOf task).map fun event => event.toTaskEvent⟩

/-- A change happens: a feed that is subscribed will deliver it. -/
def publish (s : TaskServer) (change : TaskChangeEvent) : TaskServer :=
  { s with feed := if s.subscribed.isSome then s.feed ++ [change] else s.feed }

/-- A task is created. -/
def create (s : TaskServer) (task : String) (entry : CreatedTask) : TaskServer :=
  { s with created := s.created.set task entry }.publish
    { create := some ⟨task, entry.reference⟩ }

/-- A task reports an event. -/
def report (s : TaskServer) (event : TaskEventChange) : TaskServer :=
  { s with log := s.log ++ [event] }.publish { event := some event }

end TaskServer

/-- The control requests of `_send_cancel` and `_send_interrupt`. -/
inductive TaskControl
  | cancel (task : String)
  | interrupt (task : String)
deriving DecidableEq

/-! ## The world

The server answers in its own time, a read may fail, and the feed may die and be started again, so
these are events of their own.
-/

/-- The postman with its calls, by number, the tasks that read for them, the one that watches the
feed, and the server. -/
structure PostmanWorld where
  postman : GraphQLPostman
  calls : Dict ℕ AssignCall
  polls : Dict ℕ Poll
  watch : Watch
  controls : List TaskControl
  server : TaskServer

/-- Who reads a task's events. -/
inductive Reader
  | call (call : ℕ)
  | poll (call : ℕ)
  | watch

/-- What can happen. -/
inductive PostmanAct
  | assign (call : ℕ) (reference : String) (escalateToInterrupt : Bool)
  /-- The server creates the task of a call's assign. -/
  | create (call : ℕ) (task : String)
  /-- The server creates a task for somebody else. -/
  | createForeign (task : String) (reference : Option String)
  /-- A task reports an event. -/
  | report (event : TaskEventChange)
  | subscribe
  /-- The feed delivers its next change. -/
  | deliver
  | feedEnds (reason : String)
  /-- The server answers a read with what the task has now. -/
  | read (reader : Reader)
  /-- The answer arrives, or the read fails. -/
  | readDone (reader : Reader) (succeeds : Bool)
  /-- A reading task has slept. -/
  | wake (call : ℕ)
  /-- The assign's answer arrives. -/
  | answer (call : ℕ) (task : String)
  | assignFails (call : ℕ) (error : String)
  /-- The call takes the next item from its queue. -/
  | take (call : ℕ)
  /-- The consumer asks for the next event. -/
  | next (call : ℕ)
  /-- The consumer closes the generator. -/
  | close (call : ℕ)
  | cancel (call : ℕ)
  /-- `_send_cancel` or `_send_interrupt` returns. -/
  | controlSent (call : ℕ)
  /-- `_await_kind` takes the next item. -/
  | confirm (call : ℕ)
  /-- A wait of a cancelled call runs out of time. -/
  | timeout (call : ℕ)

namespace PostmanWorld

/-- No call was made. -/
def start : PostmanWorld := ⟨GraphQLPostman.new, ∅, ∅, .off, [], ⟨∅, [], none, []⟩⟩

/-- The world with one call changed. -/
def setCall (w : PostmanWorld) (id : ℕ) (call : AssignCall) : PostmanWorld :=
  { w with calls := w.calls.set id call }

/-- `_cleanup_reference`. -/
def cleanupReference (w : PostmanWorld) (reference : String) : PostmanWorld :=
  { w with
    postman := w.postman.cleanupReference reference
    polls := match w.postman.catchUpTasks.get? reference with
      | none => w.polls
      | some poll => w.polls.erase poll }

/-- A call ends, and is cleaned up after. -/
def finish (w : PostmanWorld) (id : ℕ) (call : AssignCall) (outcome : AssignOutcome) :
    PostmanWorld :=
  (w.cleanupReference call.reference).setCall id { call with phase := .ended outcome }

/-- `start_watching`, unless the feed is watched. -/
def startWatching (w : PostmanWorld) : PostmanWorld :=
  if w.postman.watching then w
  else { w with
    postman := { w.postman with watching := true }
    watch := .idle
    server := { w.server with subscribed := none, feed := [] } }

/-- Ask the server to cancel or to interrupt a task, and wait for that. -/
def control (w : PostmanWorld) (id : ℕ) (call : AssignCall) (task : String) (request : TaskControl)
    (wait : Confirmation) : PostmanWorld :=
  { w with controls := w.controls ++ [request] }.setCall id
    { call with phase := .confirming task wait }

/-- No confirmation came: the call escalates, if it is to and did not, or ends. -/
def unconfirmed (w : PostmanWorld) (id : ℕ) (call : AssignCall) (task : String)
    (wait : Confirmation) : PostmanWorld :=
  if wait = .cancelled ∧ call.escalateToInterrupt then
    w.control id call task (.interrupt task) .interrupt
  else w.finish id call .cancelled

/-- `watch_tasks` goes on: with the next task to catch up, or with the change. -/
def watchOn (w : PostmanWorld) (todo : List String) (change : TaskChangeEvent) : PostmanWorld :=
  match todo with
  | [] => { w with postman := w.postman.handle change, watch := .idle }
  | task :: todo => { w with watch := .catchingUp task todo none change }

/-- The first item of a queue, and the world without it. -/
def pop (w : PostmanWorld) (queue : ℕ) : Option (QueueItem × PostmanWorld) :=
  match w.postman.queues queue with
  | [] => none
  | item :: items =>
    some (item, { w with postman :=
      { w.postman with queues := Function.update w.postman.queues queue items } })

/-- The world after a read that succeeded. -/
def catchUp (w : PostmanWorld) (task : String) (read : TaskEvents) : PostmanWorld :=
  { w with postman := w.postman.catchUp task read.areadEvents }

/-- A call goes on to its events once its task's history was read, or could not be; unless the feed
is live by now, a task keeps reading for it. -/
def caughtUp (w : PostmanWorld) (id : ℕ) (call : AssignCall) (task : String) : PostmanWorld :=
  let w := if w.postman.feedLive then w else { w with
    postman := { w.postman with catchUpTasks := w.postman.catchUpTasks.set call.reference id }
    polls := w.polls.set id (.sleeping task) }
  w.setCall id { call with phase := .streaming task }

/-- A reading task sleeps again, unless the feed is live by now. -/
def polled (w : PostmanWorld) (id : ℕ) (task : String) : PostmanWorld :=
  { w with polls := if w.postman.feedLive then w.polls.erase id
      else w.polls.set id (.sleeping task) }

/-- The assign's answer arrives. -/
def answered (w : PostmanWorld) (id : ℕ) (call : AssignCall) (task : String) :
    Option PostmanWorld :=
  let bound := { w with postman := w.postman.bind task call.reference }
  let call := { call with task := some task }
  match call.phase with
  | .assigning => some (bound.setCall id { call with
      phase := if call.feedWasLive then .streaming task else .catchingUp task none })
  | .assignedDespiteCancel => some (bound.control id call task (.cancel task) .cancel)
  | _ => none

/-- The server answers a read. -/
def read (w : PostmanWorld) : Reader → Option PostmanWorld
  | .call id =>
    (w.calls.get? id).bind fun call =>
      match call.phase with
      | .catchingUp task none => some (w.setCall id
          { call with phase := .catchingUp task (some (w.server.taskEvents task)) })
      | _ => none
  | .poll id =>
    match w.polls.get? id with
    | some (.reading task none) => some { w with
        polls := w.polls.set id (.reading task (some (w.server.taskEvents task))) }
    | _ => none
  | .watch =>
    match w.watch with
    | .catchingUp task todo none change => some { w with
        watch := .catchingUp task todo (some (w.server.taskEvents task)) change }
    | _ => none

/-- The world a reader goes on in: caught up, or as it was if the read failed. -/
def afterRead (w : PostmanWorld) (task : String) (read : Option TaskEvents) (succeeds : Bool) :
    Option PostmanWorld :=
  if succeeds then read.map (w.catchUp task) else some w

/-- A read is over. -/
def readDone (w : PostmanWorld) (succeeds : Bool) : Reader → Option PostmanWorld
  | .call id =>
    (w.calls.get? id).bind fun call =>
      match call.phase with
      | .catchingUp task read =>
        (w.afterRead task read succeeds).map fun w => w.caughtUp id call task
      | _ => none
  | .poll id =>
    match w.polls.get? id with
    | some (.reading task read) => (w.afterRead task read succeeds).map fun w => w.polled id task
    | _ => none
  | .watch =>
    match w.watch with
    | .catchingUp task todo read change =>
      (w.afterRead task read succeeds).map fun w => w.watchOn todo change
    | _ => none

/-- The call takes an item: it hands over an event, and fails on a lost feed. -/
def took (w : PostmanWorld) (id : ℕ) (call : AssignCall) (task : String) : QueueItem → PostmanWorld
  | .event event => w.setCall id
      { call with handed := call.handed ++ [event], phase := .suspended task }
  | .feedLost reason => w.finish id call (.postmanException
      ("Lost the task event feed while waiting for task " ++ task ++ ": " ++ reason))

/-- A cancelled call takes an item: it ends on a confirmation, and stops waiting on a lost feed. -/
def confirmed (w : PostmanWorld) (id : ℕ) (call : AssignCall) (task : String)
    (wait : Confirmation) : QueueItem → PostmanWorld
  | .event event => if event.kind ∈ wait.kinds then w.finish id call .cancelled else w
  | .feedLost _ => w.unconfirmed id call task wait

/-- A call is cancelled. -/
def cancelled (w : PostmanWorld) (id : ℕ) (call : AssignCall) : Option PostmanWorld :=
  match call.phase with
  | .assigning => some (w.setCall id { call with phase := .assignedDespiteCancel })
  -- a second cancellation goes past the clean-up here, unlike in `_confirm_cancellation`
  | .assignedDespiteCancel => some (w.setCall id { call with phase := .ended .cancelled })
  | .catchingUp task _ | .streaming task => some (w.control id call task (.cancel task) .cancel)
  | .confirming _ _ => some (w.finish id call .cancelled)
  | .suspended _ | .ended _ => none

/-- One event. -/
def step (w : PostmanWorld) : PostmanAct → Option PostmanWorld
  | .assign id reference escalate =>
    match w.calls.get? id with
    | some _ => none
    | none =>
      let w := w.startWatching
      some ({ w with postman := { w.postman with
          assUpdateQueues := w.postman.assUpdateQueues.set reference id
          queues := Function.update w.postman.queues id [] } }.setCall id
        ⟨reference, escalate, w.postman.feedLive, .assigning, none, []⟩)
  | .create id task =>
    match w.calls.get? id, w.server.created.get? task with
    | some call, none =>
      -- an assign creates one task
      if w.server.created.values.all fun entry => entry.assign ≠ some id then
        some { w with server := w.server.create task ⟨some call.reference, some id⟩ }
      else none
    | _, _ => none
  | .createForeign task reference =>
    match w.server.created.get? task with
    | none => some { w with server := w.server.create task ⟨reference, none⟩ }
    | some _ => none
  | .report event =>
    -- events have ids of their own, within their task
    if (w.server.created.get? event.task).isSome ∧
        event.id ∉ (w.server.historyOf event.task).map fun event => event.id then
      some { w with server := w.server.report event }
    else none
  | .subscribe =>
    match w.watch, w.server.subscribed with
    | .off, _ | _, some _ => none
    | _, none => some { w with
        server := { w.server with subscribed := some w.server.log.length } }
  | .deliver =>
    match w.watch, w.server.feed with
    | .idle, change :: feed =>
      let w := { w with server := { w.server with feed := feed } }
      if w.postman.feedLive then some (w.watchOn [] change)
      else some ({ w with postman := { w.postman with feedLive := true } }.watchOn
        w.postman.taskToReference.keys change)
    | _, _ => none
  | .feedEnds reason =>
    match w.watch with
    | .idle => some { w with postman := w.postman.failPending reason, watch := .off }
    | _ => none
  | .read reader => w.read reader
  | .readDone reader succeeds => w.readDone succeeds reader
  | .wake id =>
    match w.polls.get? id with
    | some (.sleeping task) => some { w with
        polls := if w.postman.feedLive then w.polls.erase id
          else w.polls.set id (.reading task none) }
    | _ => none
  | .answer id task => (w.calls.get? id).bind fun call => w.answered id call task
  | .assignFails id error =>
    (w.calls.get? id).bind fun call =>
      match call.phase with
      | .assigning =>
        some (w.finish id call (.postmanException ("Cannot Assign: " ++ error)))
      | .assignedDespiteCancel => some (w.finish id call .cancelled)
      | _ => none
  | .take id =>
    (w.calls.get? id).bind fun call =>
      match call.phase with
      | .streaming task => (w.pop id).map fun (item, w) => w.took id call task item
      | _ => none
  | .next id =>
    (w.calls.get? id).bind fun call =>
      match call.phase with
      | .suspended task => some (w.setCall id { call with phase := .streaming task })
      | _ => none
  | .close id =>
    (w.calls.get? id).bind fun call =>
      match call.phase with
      | .suspended _ => some (w.finish id call .closed)
      | _ => none
  | .cancel id => (w.calls.get? id).bind fun call => w.cancelled id call
  | .controlSent id =>
    (w.calls.get? id).bind fun call =>
      match call.phase with
      | .confirming task .cancel =>
        some (w.setCall id { call with phase := .confirming task .cancelled })
      | .confirming task .interrupt =>
        some (w.setCall id { call with phase := .confirming task .interrupted })
      | _ => none
  | .confirm id =>
    (w.calls.get? id).bind fun call =>
      match call.phase with
      | .confirming task .cancelled =>
        (w.pop id).map fun (item, w) => w.confirmed id call task .cancelled item
      | .confirming task .interrupted =>
        (w.pop id).map fun (item, w) => w.confirmed id call task .interrupted item
      | _ => none
  | .timeout id =>
    (w.calls.get? id).bind fun call =>
      match call.phase with
      | .assignedDespiteCancel => some (w.finish id call .cancelled)
      | .confirming task .cancelled => some (w.unconfirmed id call task .cancelled)
      | .confirming task .interrupted => some (w.unconfirmed id call task .interrupted)
      | _ => none

end PostmanWorld

end Rekuest
