import Mathlib.Logic.Function.Basic
import Rekuest.Lib.Dict
import Rekuest.Lib.EventStream
import Rekuest.Lib.Runs
import Rekuest.Messages

/-!
# Calls over the agent's socket

`AgentPostman` of `rekuest/agents/caller.py`: the tables that route responses and mirrors, the
generator `_astream` as the points it can wait at, and any number of calls run against each other
and against what arrives.
-/

namespace Rekuest

/-! ## Mirrors, events and responses -/

/-- The mirrors of a task's reports, as far as `_adapt` tells them apart. -/
inductive Mirror
  | yield (returns : Json)
  | completed
  | failed (error code : Option String)
  | critical (error : Option String)
  | lost (started lastProgress effects : Json) (reason : Option String)
  | held (promptTitle : Option String)
  | denied (answer : Option String)
  | cancelled
  | interrupted
  /-- `BOUND`, `QUEUED`, `STARTED`, `PROGRESS`, …: consumed for bookkeeping only. -/
  | other (kind : String)

/-- `messages.ExecutionEvent`: a mirror of something that happened to a task. -/
structure ExecutionEvent where
  task : String
  seq : ℤ
  mirror : Mirror

/-- The kinds a `CallerTaskEvent` can have. -/
inductive CallerTaskEventKind
  | yield
  | completed
  | failed
  | critical
  | lost
  | held
  | denied

/-- `CallerTaskEvent`: what a call is handed. -/
structure CallerTaskEvent where
  kind : CallerTaskEventKind
  returns : Option Json := none
  message : Option String := none
  value : Option Json := none
  task : Option String := none

/-- A string or `None`, in a JSON object. -/
def Json.ofOption : Option String → Json
  | none => .null
  | some s => .str s

/-- `_adapt`: the event a mirror is surfaced as, if it is. -/
def adapt (event : ExecutionEvent) : Option CallerTaskEvent :=
  match event.mirror with
  | .yield returns => some { kind := .yield, returns := some returns }
  | .completed => some { kind := .completed }
  | .failed error code => some {
      kind := .failed
      message := error
      value := (code.filter (· ≠ "")).map fun code => .obj [("code", .str code)]
      task := some event.task }
  | .critical error => some { kind := .critical, message := error }
  | .lost started lastProgress effects reason => some {
      kind := .lost
      message := reason
      value := some (.obj [("started", started), ("last_progress", lastProgress),
        ("effects", effects), ("reason", Json.ofOption reason)]) }
  | .held promptTitle => some { kind := .held, message := promptTitle, task := some event.task }
  | .denied answer => some { kind := .denied, message := answer, task := some event.task }
  | .cancelled | .interrupted => some {
      kind := .critical
      message := some "The delegated task was cancelled or interrupted before completion." }
  | .other _ => none

/-- `AssignResponse` and `ProbeResponse`: the answer to a request, naming a task or a probe. -/
inductive CallResponse
  | assign (request : String) (task error : Option String)
  | probe (request : String) (id error : Option String)
deriving DecidableEq

namespace CallResponse

/-- The request answered. -/
def request : CallResponse → String
  | .assign request _ _ | .probe request _ _ => request

/-- The error, if the answer has one that is not empty. -/
def error : CallResponse → Option String
  | .assign _ _ error | .probe _ _ error => error.filter (· ≠ "")

/-- `_response_id`: the id the backend assigned, whichever kind of answer this is. -/
def responseId : CallResponse → Option String
  | .assign _ task _ => task
  | .probe _ id _ => id

/-- The task the answer names: an id that is not empty, without an error. -/
def named (response : CallResponse) : Option String :=
  match response.error with
  | some _ => none
  | none => response.responseId.filter (· ≠ "")

end CallResponse

/-! ## The tables

The postman's dicts are kept by request and by task. A queue is an object of its own, which a call
keeps reading when the table has dropped it.
-/

/-- What the postman sends: requests, by their id, and control requests. -/
inductive CallRequest
  | request (id : String)
  | cancelRequest (task : String)
  | interruptRequest (task : String)
deriving DecidableEq

/-- The tables of `AgentPostman`, and the queues they refer to. -/
structure AgentPostman where
  /-- `_pending_responses`: by request, the future, with its result once that is set. -/
  pendingResponses : Dict String (Option CallResponse)
  /-- `_task_queues`: by task, the queue of its mirrors. -/
  taskQueues : Dict String ℕ
  /-- `_orphan_by_task`: mirrors that arrived before their task's queue was made. -/
  orphanByTask : Dict String (List ExecutionEvent)
  referenceToTask : Dict String String
  lastSeq : Dict String ℤ
  /-- The contents of the queues made so far, which are numbered. -/
  queues : ℕ → List ExecutionEvent
  queueCount : ℕ

namespace AgentPostman

/-- A postman nothing happened to. -/
def new : AgentPostman := ⟨∅, ∅, ∅, ∅, ∅, fun _ => [], 0⟩

/-- Put an event into a queue. -/
def put (p : AgentPostman) (queue : ℕ) (events : List ExecutionEvent) : AgentPostman :=
  { p with queues := Function.update p.queues queue (p.queues queue ++ events) }

/-- `_task_queues.setdefault(task, asyncio.Queue())`. -/
def makeQueue (p : AgentPostman) (task : String) : ℕ × AgentPostman :=
  match p.taskQueues.get? task with
  | some queue => (queue, p)
  | none => (p.queueCount, { p with
      taskQueues := p.taskQueues.set task p.queueCount
      queues := Function.update p.queues p.queueCount []
      queueCount := p.queueCount + 1 })

/-- `_ensure_queue`: the task's queue, made if need be, with its orphans. -/
def ensureQueue (p : AgentPostman) (task : String) : ℕ × AgentPostman :=
  let (queue, p) := p.makeQueue task
  (queue, { p.put queue ((p.orphanByTask.get? task).getD []) with
    orphanByTask := p.orphanByTask.erase task })

/-- `_register_task`. -/
def registerTask (p : AgentPostman) (reference task : String) : ℕ × AgentPostman :=
  { p with referenceToTask := p.referenceToTask.set reference task }.ensureQueue task

/-- The future a response resolves: a pending one without a result. -/
def resolve (p : AgentPostman) (response : CallResponse) : AgentPostman :=
  match p.pendingResponses.get? response.request with
  | some none =>
    { p with pendingResponses := p.pendingResponses.set response.request (some response) }
  | _ => p

/-- `handle_response`. -/
def handleResponse (p : AgentPostman) (response : CallResponse) : AgentPostman :=
  match response.named with
  | some task => (p.ensureQueue task).2.resolve response
  | none => p.resolve response

/-- `handle_execution_event`. -/
def handleExecutionEvent (p : AgentPostman) (event : ExecutionEvent) : AgentPostman :=
  let p := { p with lastSeq := p.lastSeq.set event.task event.seq }
  match p.taskQueues.get? event.task with
  | some queue => p.put queue [event]
  | none => { p with
      orphanByTask := p.orphanByTask.set event.task
        ((p.orphanByTask.get? event.task).getD [] ++ [event]) }

/-- The `finally` of `_astream`. -/
def cleanup (p : AgentPostman) (request reference : String) (task : Option String) :
    AgentPostman :=
  let p := { p with
    pendingResponses := p.pendingResponses.erase request
    referenceToTask := p.referenceToTask.erase reference }
  match task with
  | none => p
  | some task => { p with
      taskQueues := p.taskQueues.erase task
      orphanByTask := p.orphanByTask.erase task
      lastSeq := p.lastSeq.erase task }

end AgentPostman

/-! ## The calls

`_astream` waits at one of a few places, and the agent receives responses and mirrors in between.
-/

/-- How a call ended. -/
inductive CallOutcome
  /-- It was handed a terminal event, and asked for another. -/
  | returned
  | cancelled
  /-- Its consumer closed it. -/
  | closed
  | assignException
  | nonDeterministicWorkflow
deriving DecidableEq

/-- Where `_astream` waits; from the first event on, with its task and queue. -/
inductive CallPhase
  /-- In `sink.asend(request)`. -/
  | sending
  /-- For the response. -/
  | awaiting
  /-- In `queue.get()`. -/
  | streaming (task : String) (queue : ℕ)
  /-- At `yield`, handing over an event; `last` if that is terminal. -/
  | suspended (task : String) (queue : ℕ) (last : Bool)
  /-- In `_await_terminal`, after a `CancelRequest` or, `escalated`, an `InterruptRequest`. -/
  | confirming (task : String) (queue : ℕ) (escalated : Bool)
  | ended (outcome : CallOutcome)

/-- When a call's task was registered: what was waiting in its queue then, and how many of its
mirrors had arrived. -/
structure Registration where
  task : String
  buffered : List ExecutionEvent
  since : ℕ

/-- One run of `_astream`. -/
structure Call where
  reference : String
  escalateToInterrupt : Bool
  phase : CallPhase
  /-- The seqs of the events taken so far. -/
  seen : List ℤ
  /-- The mirrors taken from the queue, other than to confirm a cancellation. -/
  taken : List ExecutionEvent
  /-- The events handed to the consumer. -/
  handed : List CallerTaskEvent
  registration : Option Registration
  /-- The task of the first response since the call began that names one. -/
  answer : Option String

/-- The postman with all its calls, by request, and a record of what was sent and what arrived. -/
structure CallerWorld where
  postman : AgentPostman
  calls : Dict String Call
  outbox : List CallRequest
  answers : List (String × String)
  arrived : List ExecutionEvent

/-- What can happen to the calls, each named by its request. -/
inductive CallerAct
  | start (request reference : String) (escalateToInterrupt : Bool)
  /-- `sink.asend(request)` returns. -/
  | send (request : String)
  | response (response : CallResponse)
  | mirror (event : ExecutionEvent)
  /-- The call goes on with its response. -/
  | resume (request : String)
  /-- The call takes the next event from its queue. -/
  | take (request : String)
  /-- The consumer asks for the next event. -/
  | next (request : String)
  | cancel (request : String)
  /-- The consumer closes the generator. -/
  | close (request : String)
  /-- `_await_terminal` takes the next event. -/
  | confirm (request : String)
  /-- `_await_terminal` runs out of time. -/
  | timeout (request : String)

namespace CallerWorld

/-- No call was made. -/
def start : CallerWorld := ⟨AgentPostman.new, ∅, [], [], []⟩

/-- The mirrors of `task` that arrived, in order. -/
def arrivedOf (w : CallerWorld) (task : String) : List ExecutionEvent :=
  w.arrived.filter fun event => event.task = task

/-- The world with one call changed. -/
def setCall (w : CallerWorld) (request : String) (call : Call) : CallerWorld :=
  { w with calls := w.calls.set request call }

/-- `sink.asend`. -/
def asend (w : CallerWorld) (message : CallRequest) : CallerWorld :=
  { w with outbox := w.outbox ++ [message] }

/-- A call ends: its `finally` runs, on the task the call has. -/
def finish (w : CallerWorld) (request : String) (call : Call) (task : Option String)
    (outcome : CallOutcome) : CallerWorld :=
  { w with postman := w.postman.cleanup request call.reference task }.setCall request
    { call with phase := .ended outcome }

/-- The call goes on with `response`. -/
def resumed (w : CallerWorld) (request : String) (call : Call) (response : CallResponse) :
    CallerWorld :=
  match response.error with
  | some error =>
    w.finish request call none
      (if error.startsWith "Nondeterministic workflow" then .nonDeterministicWorkflow
      else .assignException)
  | none =>
    match response.named with
    | none => w.finish request call response.responseId .assignException
    | some task =>
      let (queue, postman) := w.postman.registerTask call.reference task
      { w with postman := postman }.setCall request { call with
        phase := .streaming task queue
        registration := some ⟨task, postman.queues queue, (w.arrivedOf task).length⟩ }

/-- The first event of a queue, and the postman without it. -/
def pop (w : CallerWorld) (queue : ℕ) : Option (ExecutionEvent × CallerWorld) :=
  match w.postman.queues queue with
  | [] => none
  | event :: events =>
    some (event, { w with postman :=
      { w.postman with queues := Function.update w.postman.queues queue events } })

/-- The call takes `event`: it skips one it has seen, and hands over one that is surfaced. -/
def took (terminal : ExecutionEvent → Bool) (w : CallerWorld) (request : String) (call : Call)
    (task : String) (queue : ℕ) (event : ExecutionEvent) : CallerWorld :=
  let taking := { call with taken := call.taken ++ [event] }
  if event.seq ∈ call.seen then w.setCall request taking
  else
    let taking := { taking with seen := event.seq :: call.seen }
    match adapt event with
    | some adapted => w.setCall request { taking with
        handed := call.handed ++ [adapted]
        phase := .suspended task queue (terminal event) }
    | none =>
      if terminal event then w.finish request taking (some task) .returned
      else w.setCall request taking

/-- Whether `_await_terminal` waits for this mirror. -/
def confirms (escalated : Bool) (event : ExecutionEvent) : Bool :=
  match event.mirror with
  | .cancelled => true
  | .interrupted => escalated
  | _ => false

/-- The response is handled, and noted with the call it answers first. -/
def receive (w : CallerWorld) (response : CallResponse) : CallerWorld :=
  let w := { w with postman := w.postman.handleResponse response }
  match response.named with
  | none => w
  | some task =>
    let w := { w with answers := w.answers ++ [(response.request, task)] }
    match w.calls.get? response.request with
    | none => w
    | some call => w.setCall response.request { call with answer := call.answer.or (some task) }

/-- One event. -/
def step (terminal : ExecutionEvent → Bool) (w : CallerWorld) : CallerAct → Option CallerWorld
  | .start request reference escalate =>
    match w.calls.get? request with
    | some _ => none
    | none =>
      some ({ w with postman := { w.postman with
          pendingResponses := w.postman.pendingResponses.set request none } }.setCall request
        ⟨reference, escalate, .sending, [], [], [], none, none⟩)
  | .send request =>
    (w.calls.get? request).bind fun call =>
      match call.phase with
      | .sending => some ((w.asend (.request request)).setCall request
          { call with phase := .awaiting })
      | _ => none
  | .response response => some (w.receive response)
  | .mirror event => some { w with
      postman := w.postman.handleExecutionEvent event
      arrived := w.arrived ++ [event] }
  | .resume request =>
    (w.calls.get? request).bind fun call =>
      match call.phase, w.postman.pendingResponses.get? request with
      | .awaiting, some (some response) => some (w.resumed request call response)
      | _, _ => none
  | .take request =>
    (w.calls.get? request).bind fun call =>
      match call.phase with
      | .streaming task queue =>
        (w.pop queue).map fun (event, w) => w.took terminal request call task queue event
      | _ => none
  | .next request =>
    (w.calls.get? request).bind fun call =>
      match call.phase with
      | .suspended task _ true => some (w.finish request call (some task) .returned)
      | .suspended task queue false =>
        some (w.setCall request { call with phase := .streaming task queue })
      | _ => none
  | .cancel request =>
    (w.calls.get? request).bind fun call =>
      match call.phase with
      -- the response has not been looked at: there is no task to cancel yet
      | .sending | .awaiting => some (w.finish request call none .cancelled)
      | .streaming task queue =>
        some ((w.asend (.cancelRequest task)).setCall request
          { call with phase := .confirming task queue false })
      -- a second cancellation, while the first is being confirmed
      | .confirming task _ _ => some (w.finish request call (some task) .cancelled)
      | .suspended _ _ _ | .ended _ => none
  | .close request =>
    (w.calls.get? request).bind fun call =>
      match call.phase with
      | .suspended task _ _ =>
        some ((w.asend (.cancelRequest task)).finish request call
          (some task) .closed)
      | _ => none
  | .confirm request =>
    (w.calls.get? request).bind fun call =>
      match call.phase with
      | .confirming task queue escalated =>
        (w.pop queue).map fun (event, w) =>
          if confirms escalated event then w.finish request call (some task) .cancelled else w
      | _ => none
  | .timeout request =>
    (w.calls.get? request).bind fun call =>
      match call.phase with
      | .confirming task queue false =>
        if call.escalateToInterrupt then
          some ((w.asend (.interruptRequest task)).setCall request
            { call with phase := .confirming task queue true })
        else some (w.finish request call (some task) .cancelled)
      | .confirming task _ true => some (w.finish request call (some task) .cancelled)
      | _ => none

end CallerWorld

end Rekuest
