import Mathlib.Algebra.Order.Ring.Rat

/-!
# Protocol messages

What the modelled code reads of the agent protocol's messages: the frames an agent reports with,
the `Assign` that starts or resumes a task, and the JSON a frame is sent as.
-/

namespace Rekuest

/-- A decoded JSON value; an object is its fields, with distinct names. -/
inductive Json
  | null
  | bool (b : Bool)
  | num (n : ℚ)
  | str (s : String)
  | arr (items : List Json)
  | obj (fields : List (String × Json))

/-- `decoded.get(name)` of a JSON object. -/
def Json.field (fields : List (String × Json)) (name : String) : Option Json :=
  (fields.find? fun f => f.1 = name).map Prod.snd

/-- The reports that say only something about one task. -/
inductive TaskReport
  | started
  | lock
  | progress
  | log
  | shelve
  | yield
  | completed
  | unlock
  | failed
  | critical
  | cancelled
  | interrupted
  | paused
  | resumed
deriving DecidableEq

/-- A numbered frame's content, by its wire `type`. -/
inductive Report
  | sessionInit (sessionId : String)
  | task (kind : TaskReport) (task : String)
  | effect (task effect : String) (value : Json) (key : Option String)
  | statePatch (stateName : String) (taskId : Option String)
  | stateSnapshot
  | unshelve

/-- `messages.FromAgentMessage`: a frame an agent reports, with the step its task took for it. -/
structure FromAgentMessage where
  report : Report
  taskStep : Option ℕ

/-- `getattr(frame, "task", None)`: the frames about a task have a `task` field, all but
`STATE_PATCH`, which names its task in `task_id`. -/
def FromAgentMessage.task : FromAgentMessage → Option String
  | ⟨.task _ task, _⟩ => some task
  | ⟨.effect task _ _ _, _⟩ => some task
  | _ => none

/-- The task a frame belongs to, whichever field names it. -/
def FromAgentMessage.belongsTo (frame : FromAgentMessage) : Option String :=
  match frame.report with
  | .statePatch _ taskId => taskId
  | _ => frame.task

/-- `messages.RecordedEffect`: a value the task took, under its key. -/
structure RecordedEffect where
  key : String
  effect : String
  value : Json

/-- `Assign.resume`: what the server knows a workflow did before its agent died. -/
structure ResumeJournal where
  effects : List RecordedEffect
  lastStep : ℕ

/-- `messages.Assign`, as far as resuming reads it. -/
structure Assign where
  task : String
  resume : Option ResumeJournal

/-- `JournalEntry`: the session and position the journal numbered a frame with. -/
structure JournalEntry where
  sessionId : String
  pos : ℤ
deriving DecidableEq

end Rekuest
