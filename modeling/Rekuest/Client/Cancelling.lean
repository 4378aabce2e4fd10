import Rekuest.Client.Endings

/-!
# A cancelled call cancels its task

`aassign` treats a cancellation in a handler of its own at every point it can wait at: before the
assign is answered it still waits for the answer, later it asks for the task to be cancelled and
waits for that to be confirmed. Below each call's part of a run is noted: when it was cancelled,
what it requested and which confirmations it took.

A call's cancel timeout is positive, as its default is: with none left `asyncio.wait_for` gives up
before the control request is sent.
-/

namespace Rekuest

open Runs

/-- What is noted of a call. -/
inductive CancelNote
  /-- It is cancelled. -/
  | cancelled
  | requested (control : TaskControl)
  /-- It takes a `CANCELLED` event while it waits for one. -/
  | confirmed
deriving DecidableEq

/-- The item is a `CANCELLED` event. -/
def QueueItem.isCancelled : QueueItem → Bool
  | .event change => change.kind = .cancelled
  | .feedLost _ => false

/-- The call an event is of. -/
def PostmanAct.call? : PostmanAct → Option ℕ
  | .assign id _ _ | .read (.call id) | .readDone (.call id) _ | .answer id _ | .assignFails id _
  | .take id | .next id | .close id | .cancel id | .controlSent id | .confirm id | .timeout id =>
    some id
  | .create _ _ | .createForeign _ _ | .report _ | .subscribe | .deliver | .feedEnds _
  | .read (.poll _) | .read .watch | .readDone (.poll _) _ | .readDone .watch _ | .wake _ => none

/-- The call was not cancelled, and has not ended. -/
def AssignPhase.Running : AssignPhase → Prop
  | .assigning | .catchingUp _ _ | .streaming _ | .suspended _ => True
  | .assignedDespiteCancel | .confirming _ _ | .ended _ => False

namespace PostmanWorld

/-- What an event shows of a call's cancellation, but for what it requests. -/
def observed (w : PostmanWorld) (id : ℕ) : PostmanAct → List CancelNote
  | .cancel id' => if id' = id then [.cancelled] else []
  | .confirm id' =>
    if id' = id ∧ (w.postman.queues id).head?.any QueueItem.isCancelled then [.confirmed] else []
  | _ => []

variable {w w' u : PostmanWorld} {act : PostmanAct} {id : ℕ} {c c' : AssignCall}

/-! ## How an event moves a call -/

/-- The ways an event moves call `id`, and what it requests. -/
inductive Move (w : PostmanWorld) (id : ℕ) (c : AssignCall) :
    PostmanAct → AssignCall → List TaskControl → Prop
  | goesOn {act : PostmanAct} {c' : AssignCall} (quiet : w.observed id act = [])
    (before : c.phase.Running) (after : c'.phase.Running) : Move w id c act c' []
  | ends {act : PostmanAct} {outcome : AssignOutcome} (quiet : w.observed id act = [])
    (before : c.phase.Running) : Move w id c act { c with phase := .ended outcome } []
  /-- Cancelled before the assign is answered. -/
  | cancelEarly (phase : c.phase = .assigning) :
    Move w id c (.cancel id) { c with phase := .assignedDespiteCancel } []
  | cancel {task : String} (before : c.phase.Running) (told : c.phase.task = some task) :
    Move w id c (.cancel id) { c with phase := .confirming task .cancel } [.cancel task]
  /-- Cancelled once more. -/
  | cancelAgain (phase : c.phase = .assignedDespiteCancel ∨ ∃ task wait,
      c.phase = .confirming task wait) :
    Move w id c (.cancel id) { c with phase := .ended .cancelled } []
  | answer {task : String} (phase : c.phase = .assignedDespiteCancel) :
    Move w id c (.answer id task)
      { c with task := some task, phase := .confirming task .cancel } [.cancel task]
  /-- No answer comes. -/
  | givesUp {act : PostmanAct} (quiet : w.observed id act = [])
    (phase : c.phase = .assignedDespiteCancel) :
    Move w id c act { c with phase := .ended .cancelled } []
  | cancelSent {task : String} (phase : c.phase = .confirming task .cancel) :
    Move w id c (.controlSent id) { c with phase := .confirming task .cancelled } []
  | interruptSent {task : String} (phase : c.phase = .confirming task .interrupt) :
    Move w id c (.controlSent id) { c with phase := .confirming task .interrupted } []
  | confirms {task : String} {wait : Confirmation} {event : TaskEventChange}
    (phase : c.phase = .confirming task wait)
    (queue : (w.postman.queues id).head? = some (.event event)) (kind : event.kind ∈ wait.kinds) :
    Move w id c (.confirm id) { c with phase := .ended .cancelled } []
  /-- An event that confirms nothing. -/
  | drains {task : String} {wait : Confirmation} {event : TaskEventChange}
    (phase : c.phase = .confirming task wait) (waits : wait = .cancelled ∨ wait = .interrupted)
    (queue : (w.postman.queues id).head? = some (.event event)) (kind : event.kind ∉ wait.kinds) :
    Move w id c (.confirm id) c []
  /-- No confirmation comes. -/
  | expires {act : PostmanAct} {task : String} {wait : Confirmation}
    (quiet : w.observed id act = []) (phase : c.phase = .confirming task wait) :
    Move w id c act { c with phase := .ended .cancelled } []
  | escalates {act : PostmanAct} {task : String} (quiet : w.observed id act = [])
    (phase : c.phase = .confirming task .cancelled) (escalate : c.escalateToInterrupt) :
    Move w id c act { c with phase := .confirming task .interrupt } [.interrupt task]

/-- What an event does to the calls and what it requests. -/
inductive Moves (w : PostmanWorld) (act : PostmanAct) (w' : PostmanWorld) : Prop
  | stays (is : act.call? = none) (calls : w'.calls = w.calls)
    (controls : w'.controls = w.controls)
  | registers {id : ℕ} {c : AssignCall} (is : act.call? = some id) (new : w.calls.get? id = none)
    (calls : w'.calls = w.calls.set id c) (phase : c.phase = .assigning)
    (quiet : w.observed id act = []) (controls : w'.controls = w.controls)
  | moves {id : ℕ} {c c' : AssignCall} {requests : List TaskControl} (is : act.call? = some id)
    (call : w.calls.get? id = some c) (calls : w'.calls = w.calls.set id c')
    (move : w.Move id c act c' requests) (controls : w'.controls = w.controls ++ requests)

theorem moves_setCall (is : act.call? = some id) (hc : w.calls.get? id = some c)
    {requests : List TaskControl} (hmove : w.Move id c act c' requests)
    (hcalls : u.calls = w.calls) (hcontrols : u.controls = w.controls ++ requests) :
    w.Moves act (u.setCall id c') :=
  .moves is hc (congrArg (fun calls => calls.set id c') hcalls) hmove hcontrols

theorem moves_finish (is : act.call? = some id) (hc : w.calls.get? id = some c)
    {outcome : AssignOutcome} (hmove : w.Move id c act { c with phase := .ended outcome } [])
    (hcalls : u.calls = w.calls) (hcontrols : u.controls = w.controls) :
    w.Moves act (u.finish id c outcome) :=
  .moves is hc (congrArg (fun calls => calls.set id { c with phase := .ended outcome }) hcalls)
    hmove (hcontrols.trans (List.append_nil _).symm)

theorem moves_control (is : act.call? = some id) (hc : w.calls.get? id = some c) {task : String}
    {request : TaskControl} {wait : Confirmation}
    (hmove : w.Move id c act { c with phase := .confirming task wait } [request])
    (hcalls : u.calls = w.calls) (hcontrols : u.controls = w.controls) :
    w.Moves act (u.control id c task request wait) :=
  .moves is hc
    (congrArg (fun calls => calls.set id { c with phase := .confirming task wait }) hcalls)
    hmove (congrArg (fun controls => controls ++ [request]) hcontrols)

/-- A wait that is over without a confirmation. -/
theorem moves_unconfirmed (is : act.call? = some id) (hc : w.calls.get? id = some c)
    (hquiet : w.observed id act = []) {task : String} {wait : Confirmation}
    (hphase : c.phase = .confirming task wait) (hcalls : u.calls = w.calls)
    (hcontrols : u.controls = w.controls) : w.Moves act (u.unconfirmed id c task wait) := by
  rw [unconfirmed]
  split
  · rename_i hescalates
    obtain ⟨rfl, hescalate⟩ := hescalates
    exact moves_control is hc (.escalates hquiet hphase hescalate) hcalls hcontrols
  · exact moves_finish is hc (.expires hquiet hphase) hcalls hcontrols

theorem moves_assign {reference : String} {escalate : Bool}
    (hs : step w (.assign id reference escalate) = some w') :
    w.Moves (.assign id reference escalate) w' := by
  simp only [step] at hs
  split at hs
  · cases hs
  · rename_i hnew
    obtain rfl := Option.some.inj hs
    rw [startWatching]
    split
    · exact .registers rfl hnew rfl rfl rfl rfl
    · exact .registers rfl hnew rfl rfl rfl rfl

theorem moves_cancel (hs : step w (.cancel id) = some w') : w.Moves (.cancel id) w' := by
  obtain ⟨c, hc, hs⟩ := Option.bind_eq_some_iff.mp hs
  cases hphase : c.phase <;>
    simp only [cancelled, hphase, Option.some.injEq, reduceCtorEq] at hs <;> subst hs
  case assigning =>
    exact moves_setCall rfl hc (.cancelEarly hphase) rfl (List.append_nil _).symm
  case assignedDespiteCancel =>
    exact moves_setCall rfl hc (.cancelAgain (Or.inl hphase)) rfl (List.append_nil _).symm
  case confirming task wait =>
    exact moves_finish rfl hc (.cancelAgain (Or.inr ⟨task, wait, hphase⟩)) rfl rfl
  all_goals
    exact moves_control rfl hc (.cancel (by rw [hphase]; trivial) (by rw [hphase]; rfl)) rfl rfl

theorem moves_answer {task : String} (hs : step w (.answer id task) = some w') :
    w.Moves (.answer id task) w' := by
  obtain ⟨c, hc, hs⟩ := Option.bind_eq_some_iff.mp hs
  cases hphase : c.phase <;>
    simp only [answered, hphase, Option.some.injEq, reduceCtorEq] at hs <;> subst hs
  case assigning =>
    refine moves_setCall rfl hc (.goesOn rfl (by rw [hphase]; trivial) ?_) rfl
      (List.append_nil _).symm
    change AssignPhase.Running (if c.feedWasLive then _ else _)
    split <;> trivial
  case assignedDespiteCancel => exact .moves rfl hc rfl (.answer hphase) rfl

theorem calls_caughtUp (u : PostmanWorld) (id : ℕ) (c : AssignCall) (task : String) :
    (u.caughtUp id c task).calls = u.calls.set id { c with phase := .streaming task } ∧
      (u.caughtUp id c task).controls = u.controls := by
  rw [caughtUp]
  split <;> exact ⟨rfl, rfl⟩

theorem calls_watchOn (u : PostmanWorld) (todo : List String) (change : TaskChangeEvent) :
    (u.watchOn todo change).calls = u.calls ∧ (u.watchOn todo change).controls = u.controls := by
  rw [watchOn.eq_def]
  split <;> exact ⟨rfl, rfl⟩

theorem moves_readDone {reader : Reader} {succeeds : Bool}
    (hs : w.readDone succeeds reader = some w') : w.Moves (.readDone reader succeeds) w' := by
  cases reader with
  | call id =>
    obtain ⟨c, hc, hs⟩ := Option.bind_eq_some_iff.mp hs
    split at hs
    · rename_i task read hphase
      obtain ⟨u, hu, rfl⟩ := Option.map_eq_some_iff.mp hs
      obtain ⟨p, rfl, -⟩ := afterRead_eq hu
      obtain ⟨hcalls, hcontrols⟩ := calls_caughtUp { w with postman := p } id c task
      exact .moves rfl hc hcalls (.goesOn rfl (by rw [hphase]; trivial) trivial)
        (hcontrols.trans (List.append_nil _).symm)
    · cases hs
  | poll id =>
    simp only [readDone] at hs
    split at hs
    · obtain ⟨u, hu, rfl⟩ := Option.map_eq_some_iff.mp hs
      obtain ⟨p, rfl, -⟩ := afterRead_eq hu
      exact .stays rfl rfl rfl
    · cases hs
  | watch =>
    simp only [readDone] at hs
    split at hs
    · obtain ⟨u, hu, rfl⟩ := Option.map_eq_some_iff.mp hs
      obtain ⟨p, rfl, -⟩ := afterRead_eq hu
      obtain ⟨hcalls, hcontrols⟩ := calls_watchOn { w with postman := p } _ _
      exact .stays rfl hcalls hcontrols
    · cases hs

theorem moves_read {reader : Reader} (hs : w.read reader = some w') :
    w.Moves (.read reader) w' := by
  cases reader with
  | call id =>
    obtain ⟨c, hc, hs⟩ := Option.bind_eq_some_iff.mp hs
    split at hs
    · rename_i task hphase
      obtain rfl := Option.some.inj hs
      exact moves_setCall rfl hc (.goesOn rfl (by rw [hphase]; trivial) trivial) rfl
        (List.append_nil _).symm
    · cases hs
  | poll id =>
    simp only [read] at hs
    split at hs
    · obtain rfl := Option.some.inj hs
      exact .stays rfl rfl rfl
    · cases hs
  | watch =>
    simp only [read] at hs
    split at hs
    · obtain rfl := Option.some.inj hs
      exact .stays rfl rfl rfl
    · cases hs

theorem moves_take (hs : step w (.take id) = some w') : w.Moves (.take id) w' := by
  obtain ⟨c, hc, hs⟩ := Option.bind_eq_some_iff.mp hs
  split at hs
  · rename_i task hphase
    obtain ⟨⟨item, u⟩, hpop, rfl⟩ := Option.map_eq_some_iff.mp hs
    obtain ⟨queues, rfl, -⟩ := pop_eq hpop
    cases item with
    | event event =>
      exact moves_setCall rfl hc (.goesOn rfl (by rw [hphase]; trivial) trivial) rfl
        (List.append_nil _).symm
    | feedLost reason => exact moves_finish rfl hc (.ends rfl (by rw [hphase]; trivial)) rfl rfl
  · cases hs

theorem moves_confirm (hs : step w (.confirm id) = some w') : w.Moves (.confirm id) w' := by
  obtain ⟨c, hc, hs⟩ := Option.bind_eq_some_iff.mp hs
  have htook : ∀ {task : String} {wait : Confirmation} {item : QueueItem} {u : PostmanWorld},
      c.phase = .confirming task wait → wait = .cancelled ∨ wait = .interrupted →
      w.pop id = some (item, u) → w.Moves (.confirm id) (u.confirmed id c task wait item) := by
    intro task wait item u hphase hwait hpop
    obtain ⟨items, hqueue, rfl⟩ := pop_eq_some hpop
    cases item with
    | event event =>
      rw [confirmed]
      split
      · rename_i hkind
        exact moves_finish rfl hc (.confirms hphase (by rw [hqueue]; rfl) hkind) rfl rfl
      · rename_i hkind
        exact .moves rfl hc (Dict.set_of_get?_eq_some hc).symm
          (.drains hphase hwait (by rw [hqueue]; rfl) hkind) (List.append_nil _).symm
    | feedLost reason =>
      refine moves_unconfirmed rfl hc ?_ hphase rfl rfl
      simp [observed, hqueue, QueueItem.isCancelled]
  split at hs
  · rename_i task hphase
    obtain ⟨⟨item, u⟩, hpop, rfl⟩ := Option.map_eq_some_iff.mp hs
    exact htook hphase (Or.inl rfl) hpop
  · rename_i task hphase
    obtain ⟨⟨item, u⟩, hpop, rfl⟩ := Option.map_eq_some_iff.mp hs
    exact htook hphase (Or.inr rfl) hpop
  · cases hs

theorem moves_timeout (hs : step w (.timeout id) = some w') : w.Moves (.timeout id) w' := by
  obtain ⟨c, hc, hs⟩ := Option.bind_eq_some_iff.mp hs
  split at hs
  · rename_i hphase
    obtain rfl := Option.some.inj hs
    exact moves_finish rfl hc (.givesUp rfl hphase) rfl rfl
  · rename_i task hphase
    obtain rfl := Option.some.inj hs
    exact moves_unconfirmed rfl hc rfl hphase rfl rfl
  · rename_i task hphase
    obtain rfl := Option.some.inj hs
    exact moves_unconfirmed rfl hc rfl hphase rfl rfl
  · cases hs

/-- Every event moves at most its own call, in one of the ways above. -/
theorem moves_step (hs : step w act = some w') : w.Moves act w' := by
  cases act with
  | assign id reference escalate => exact moves_assign hs
  | create id task =>
    simp only [step] at hs
    split at hs
    · rw [Option.ite_none_right_eq_some, Option.some.injEq] at hs
      obtain ⟨-, rfl⟩ := hs
      exact .stays rfl rfl rfl
    · cases hs
  | createForeign task reference =>
    simp only [step] at hs
    split at hs
    · obtain rfl := Option.some.inj hs
      exact .stays rfl rfl rfl
    · cases hs
  | report event =>
    simp only [step, Option.ite_none_right_eq_some, Option.some.injEq] at hs
    obtain ⟨-, rfl⟩ := hs
    exact .stays rfl rfl rfl
  | subscribe =>
    simp only [step] at hs
    split at hs
    · cases hs
    · cases hs
    · obtain rfl := Option.some.inj hs
      exact .stays rfl rfl rfl
  | deliver =>
    simp only [step] at hs
    split at hs
    · split at hs
      · obtain rfl := Option.some.inj hs
        exact .stays rfl (calls_watchOn _ _ _).1 (calls_watchOn _ _ _).2
      · obtain rfl := Option.some.inj hs
        exact .stays rfl (calls_watchOn _ _ _).1 (calls_watchOn _ _ _).2
    · cases hs
  | feedEnds reason =>
    simp only [step] at hs
    split at hs
    · obtain rfl := Option.some.inj hs
      exact .stays rfl rfl rfl
    · cases hs
  | read reader => exact moves_read hs
  | readDone reader succeeds => exact moves_readDone hs
  | wake id =>
    simp only [step] at hs
    split at hs
    · obtain rfl := Option.some.inj hs
      exact .stays rfl rfl rfl
    · cases hs
  | answer id task => exact moves_answer hs
  | assignFails id error =>
    obtain ⟨c, hc, hs⟩ := Option.bind_eq_some_iff.mp hs
    split at hs
    · rename_i hphase
      obtain rfl := Option.some.inj hs
      exact moves_finish rfl hc (.ends rfl (by rw [hphase]; trivial)) rfl rfl
    · rename_i hphase
      obtain rfl := Option.some.inj hs
      exact moves_finish rfl hc (.givesUp rfl hphase) rfl rfl
    · cases hs
  | take id => exact moves_take hs
  | next id =>
    obtain ⟨c, hc, hs⟩ := Option.bind_eq_some_iff.mp hs
    split at hs
    · rename_i task hphase
      obtain rfl := Option.some.inj hs
      exact moves_setCall rfl hc (.goesOn rfl (by rw [hphase]; trivial) trivial) rfl
        (List.append_nil _).symm
    · cases hs
  | close id =>
    obtain ⟨c, hc, hs⟩ := Option.bind_eq_some_iff.mp hs
    split at hs
    · rename_i task hphase
      obtain rfl := Option.some.inj hs
      exact moves_finish rfl hc (.ends rfl (by rw [hphase]; trivial)) rfl rfl
    · cases hs
  | cancel id => exact moves_cancel hs
  | controlSent id =>
    obtain ⟨c, hc, hs⟩ := Option.bind_eq_some_iff.mp hs
    split at hs
    · rename_i task hphase
      obtain rfl := Option.some.inj hs
      exact moves_setCall rfl hc (.cancelSent hphase) rfl (List.append_nil _).symm
    · rename_i task hphase
      obtain rfl := Option.some.inj hs
      exact moves_setCall rfl hc (.interruptSent hphase) rfl (List.append_nil _).symm
    · cases hs
  | confirm id => exact moves_confirm hs
  | timeout id => exact moves_timeout hs

/-! ## A cancelled call returns -/

/-- The waits of a cancelled call run out, and it ends. -/
def Returns (w : PostmanWorld) (id : ℕ) : Prop :=
  ∃ waits w' c, (∀ act ∈ waits, act = .controlSent id ∨ act = .timeout id) ∧
    exec step w waits = some w' ∧ w'.calls.get? id = some c ∧ c.phase = .ended .cancelled

theorem returns_finish (u : PostmanWorld) (act : PostmanAct) (c : AssignCall)
    (hs : step w act = some (u.finish id c .cancelled))
    (hact : act = .controlSent id ∨ act = .timeout id) : w.Returns id := by
  refine ⟨[act], u.finish id c .cancelled, { c with phase := .ended .cancelled },
    by simpa using hact, by simp [hs], ?_, rfl⟩
  exact Dict.get?_set_eq_some.mpr (Or.inl ⟨rfl, rfl⟩)

theorem Returns.cons (h : u.Returns id) (hact : act = .controlSent id ∨ act = .timeout id)
    (hs : step w act = some u) : w.Returns id := by
  obtain ⟨waits, w', c, hwaits, hrun, hc, hended⟩ := h
  refine ⟨act :: waits, w', c, fun a ha => ?_, by simp [hs, hrun], hc, hended⟩
  obtain rfl | ha := List.mem_cons.mp ha
  · exact hact
  · exact hwaits a ha

theorem get?_setCall (w : PostmanWorld) (id : ℕ) (c : AssignCall) :
    (w.setCall id c).calls.get? id = some c :=
  Dict.get?_set_eq_some.mpr (Or.inl ⟨rfl, rfl⟩)

theorem returns_interrupted {task : String} (hc : w.calls.get? id = some c)
    (hphase : c.phase = .confirming task .interrupted) : w.Returns id := by
  refine returns_finish w (.timeout id) c ?_ (Or.inr rfl)
  simp [step, hc, hphase, unconfirmed]

theorem returns_interrupt {task : String} (hc : w.calls.get? id = some c)
    (hphase : c.phase = .confirming task .interrupt) : w.Returns id := by
  refine .cons (returns_interrupted (c := { c with phase := .confirming task .interrupted })
    (get?_setCall w id _) rfl) (Or.inl rfl) ?_
  simp only [step, hc, Option.bind_some, hphase]

theorem returns_cancelled {task : String} (hc : w.calls.get? id = some c)
    (hphase : c.phase = .confirming task .cancelled) : w.Returns id := by
  by_cases hescalate : c.escalateToInterrupt
  · refine .cons (returns_interrupt (c := { c with phase := .confirming task .interrupt })
      (get?_setCall { w with controls := w.controls ++ [.interrupt task] } id _) rfl)
      (Or.inr rfl) ?_
    have hescalates : w.unconfirmed id c task .cancelled
        = w.control id c task (.interrupt task) .interrupt := if_pos ⟨rfl, hescalate⟩
    simp only [step, hc, Option.bind_some, hphase, hescalates]
    rfl
  · refine returns_finish w (.timeout id) c ?_ (Or.inr rfl)
    simp [step, hc, hphase, unconfirmed, hescalate]

theorem returns_cancel {task : String} (hc : w.calls.get? id = some c)
    (hphase : c.phase = .confirming task .cancel) : w.Returns id := by
  refine .cons (returns_cancelled (c := { c with phase := .confirming task .cancelled })
    (get?_setCall w id _) rfl) (Or.inl rfl) ?_
  simp only [step, hc, Option.bind_some, hphase]

/-- A call that was cancelled and has not ended returns. -/
theorem returns_of_cancelled (hc : w.calls.get? id = some c) (hlive : c.Live)
    (hcancelled : ¬ c.phase.Running) : w.Returns id := by
  cases hphase : c.phase with
  | assignedDespiteCancel =>
    refine returns_finish w (.timeout id) c ?_ (Or.inr rfl)
    simp [step, hc, hphase]
  | confirming task wait =>
    cases wait with
    | cancel => exact returns_cancel hc hphase
    | cancelled => exact returns_cancelled hc hphase
    | interrupt => exact returns_interrupt hc hphase
    | interrupted => exact returns_interrupted hc hphase
  | ended outcome => exact absurd hphase (hlive outcome)
  | _ =>
    rw [hphase] at hcancelled
    exact absurd trivial hcancelled

end PostmanWorld

/-! ## What is noted of a call

A call that was cancelled once makes its requests in one order: the cancel, and the interrupt if it
is to escalate and no confirmation came. Its notes are this exchange, as far as its phase is.
-/

/-- What is noted of a call that was cancelled once, of its task, if it learned that. -/
inductive Exchange (escalate : Bool) : Option String → List CancelNote → Prop
  | untold : Exchange escalate none [.cancelled]
  | unconfirmed (task : String) :
    Exchange escalate (some task) [.cancelled, .requested (.cancel task)]
  | confirmed (task : String) :
    Exchange escalate (some task) [.cancelled, .requested (.cancel task), .confirmed]
  | interrupted (task : String) (escalates : escalate) : Exchange escalate (some task)
      [.cancelled, .requested (.cancel task), .requested (.interrupt task)]
  /-- The cancel is confirmed after the interrupt was asked for. -/
  | confirmedLate (task : String) (escalates : escalate) : Exchange escalate (some task)
      [.cancelled, .requested (.cancel task), .requested (.interrupt task), .confirmed]

/-- The notes of a call, by its phase. -/
def Tally (notes : List CancelNote) (c : AssignCall) : Prop :=
  match c.phase with
  | .assigning | .catchingUp _ _ | .streaming _ | .suspended _ => notes = []
  | .assignedDespiteCancel => notes = [.cancelled]
  | .confirming task .cancel | .confirming task .cancelled =>
    notes = [.cancelled, .requested (.cancel task)]
  | .confirming task .interrupt | .confirming task .interrupted =>
    c.escalateToInterrupt ∧
      notes = [.cancelled, .requested (.cancel task), .requested (.interrupt task)]
  | .ended outcome => notes.count .cancelled = 1 →
    outcome = .cancelled ∧ Exchange c.escalateToInterrupt c.task notes

section Tally

variable {w : PostmanWorld} {act : PostmanAct} {id : ℕ} {c c' : AssignCall}
  {notes : List CancelNote} {requests : List TaskControl}

theorem tally_of_running (h : c.phase.Running) : Tally notes c ↔ notes = [] := by
  rw [Tally]
  cases hphase : c.phase <;> rw [hphase] at h <;> first | exact Iff.rfl | exact absurd h id

/-- What a wait that is over leaves noted, unless the cancel is confirmed. -/
theorem exchange_of_confirming {task : String} {wait : Confirmation} (h : Tally notes c)
    (hphase : c.phase = .confirming task wait) (htask : c.task = some task) :
    Exchange c.escalateToInterrupt c.task notes := by
  rw [Tally, hphase] at h
  rw [htask]
  cases wait with
  | cancel | cancelled =>
    obtain rfl : notes = _ := h
    exact .unconfirmed task
  | interrupt | interrupted =>
    obtain ⟨hescalate, rfl⟩ : _ ∧ notes = _ := h
    exact .interrupted task hescalate

/-- What is noted once the cancel is confirmed. -/
theorem exchange_of_confirmed {task : String} {wait : Confirmation} (h : Tally notes c)
    (hphase : c.phase = .confirming task wait) (htask : c.task = some task)
    (hkind : .cancelled ∈ wait.kinds) :
    Exchange c.escalateToInterrupt c.task (notes ++ [.confirmed]) := by
  rw [Tally, hphase] at h
  rw [htask]
  cases wait with
  | cancel | interrupt => cases hkind
  | cancelled =>
    obtain rfl : notes = _ := h
    exact .confirmed task
  | interrupted =>
    obtain ⟨hescalate, rfl⟩ : _ ∧ notes = _ := h
    exact .confirmedLate task hescalate

/-- A call that waits for an answer or a confirmation was cancelled before. -/
theorem Tally.count_cancelled (h : Tally notes c)
    (hphase : c.phase = .assignedDespiteCancel ∨ ∃ task wait, c.phase = .confirming task wait) :
    notes.count .cancelled = 1 := by
  rw [Tally] at h
  obtain hphase | ⟨task, wait, hphase⟩ := hphase
  · rw [hphase] at h
    obtain rfl : notes = _ := h
    rfl
  · rw [hphase] at h
    cases wait with
    | cancel | cancelled =>
      obtain rfl : notes = _ := h
      rfl
    | interrupt | interrupted =>
      obtain ⟨-, rfl⟩ : _ ∧ notes = _ := h
      rfl

/-- Every move keeps the notes of the call in line with its phase. -/
theorem Tally.move (h : Tally notes c) (htold : c.Live → c.phase.task = c.task)
    (hmove : w.Move id c act c' requests) :
    Tally (notes ++ (w.observed id act ++ requests.map .requested)) c' := by
  have htask : ∀ {task wait}, c.phase = .confirming task wait → c.task = some task := by
    intro task wait hphase
    rw [← htold (PostmanWorld.live_of_phase hphase (by rintro _ ⟨⟩)), hphase]
    rfl
  cases hmove with
  | goesOn quiet before after =>
    obtain rfl := (tally_of_running before).mp h
    rw [tally_of_running after, quiet]
    rfl
  | ends quiet before =>
    obtain rfl := (tally_of_running before).mp h
    rw [quiet]
    rintro ⟨⟩
  | cancelEarly phase =>
    obtain rfl := (tally_of_running (by rw [phase]; trivial)).mp h
    simp [Tally, PostmanWorld.observed]
  | cancel before told =>
    obtain rfl := (tally_of_running before).mp h
    simp [Tally, PostmanWorld.observed]
  | cancelAgain phase =>
    intro htwice
    simp [PostmanWorld.observed, List.count_append, h.count_cancelled phase] at htwice
  | answer phase =>
    rw [Tally, phase] at h
    obtain rfl : notes = _ := h
    simp [Tally, PostmanWorld.observed]
  | givesUp quiet phase =>
    have htask' : c.task = none := by
      rw [← htold (PostmanWorld.live_of_phase phase (by rintro _ ⟨⟩)), phase]
      rfl
    rw [Tally, phase] at h
    obtain rfl : notes = _ := h
    rw [quiet]
    refine fun _ => ⟨rfl, ?_⟩
    change Exchange c.escalateToInterrupt c.task _
    rw [htask']
    exact .untold
  | cancelSent phase =>
    rw [Tally, phase] at h
    simpa [Tally, PostmanWorld.observed] using h
  | interruptSent phase =>
    rw [Tally, phase] at h
    simpa [Tally, PostmanWorld.observed] using h
  | @confirms task wait event phase queue kind =>
    refine fun _ => ⟨rfl, ?_⟩
    change Exchange c.escalateToInterrupt c.task _
    by_cases hkind : event.kind = .cancelled
    · simpa [PostmanWorld.observed, queue, QueueItem.isCancelled, hkind] using
        exchange_of_confirmed h phase (htask phase) (hkind ▸ kind)
    · simpa [PostmanWorld.observed, queue, QueueItem.isCancelled, hkind] using
        exchange_of_confirming h phase (htask phase)
  | @drains task wait event phase waits queue kind =>
    have hkind : event.kind ≠ .cancelled := by
      rintro hkind
      rw [hkind] at kind
      obtain rfl | rfl := waits <;> simp [Confirmation.kinds] at kind
    simpa [PostmanWorld.observed, queue, QueueItem.isCancelled, hkind] using h
  | expires quiet phase =>
    rw [quiet]
    refine fun _ => ⟨rfl, ?_⟩
    simpa using exchange_of_confirming h phase (htask phase)
  | escalates quiet phase escalate =>
    rw [Tally, phase] at h
    obtain rfl : notes = _ := h
    rw [quiet]
    exact ⟨escalate, rfl⟩

end Tally

/-- The postman's world, with what was noted of each call. -/
structure CancelWatch where
  world : PostmanWorld
  notes : ℕ → List CancelNote

namespace CancelWatch

/-- Nothing was noted. -/
def new : CancelWatch := ⟨PostmanWorld.start, fun _ => []⟩

/-- What is noted of a call in an event that leads to `world`. -/
def noted (s : CancelWatch) (act : PostmanAct) (world : PostmanWorld) (id : ℕ) : List CancelNote :=
  s.world.observed id act ++
    if act.call? = some id then (world.controls.drop s.world.controls.length).map .requested else []

/-- One event of the world. -/
def step (s : CancelWatch) (act : PostmanAct) : Option CancelWatch :=
  (s.world.step act).map fun world => ⟨world, fun id => s.notes id ++ s.noted act world id⟩

/-- What every call's notes are. -/
structure Noted (s : CancelWatch) : Prop where
  tally : ∀ id c, s.world.calls.get? id = some c → Tally (s.notes id) c
  new : ∀ id, s.world.calls.get? id = none → s.notes id = []

variable {s t : CancelWatch} {act : PostmanAct} {id : ℕ} {c : AssignCall}

/-- An event of another call, or of none, shows nothing of this one. -/
theorem noted_of_ne (h : act.call? ≠ some id) (world : PostmanWorld) :
    s.noted act world id = [] := by
  have hobserved : s.world.observed id act = [] := by
    cases act with
    | cancel id' => exact if_neg fun heq => h (congrArg some heq)
    | confirm id' => exact if_neg fun heq => h (congrArg some heq.1)
    | _ => rfl
  rw [noted, hobserved, if_neg h]
  rfl

theorem noted_of_call (h : act.call? = some id) {world : PostmanWorld}
    {requests : List TaskControl} (hcontrols : world.controls = s.world.controls ++ requests) :
    s.noted act world id = s.world.observed id act ++ requests.map .requested := by
  rw [noted, if_pos h, hcontrols, List.drop_left]

theorem Noted.step (h : s.Noted) (hgrounded : s.world.Grounded)
    (hs : CancelWatch.step s act = some t) : t.Noted := by
  obtain ⟨world, hworld, rfl⟩ := Option.map_eq_some_iff.mp hs
  cases PostmanWorld.moves_step hworld with
  | stays is calls controls =>
    have hquiet : ∀ id, s.noted act world id = [] := fun id =>
      noted_of_ne (by rw [is]; rintro ⟨⟩) world
    refine ⟨fun id c hc => ?_, fun id hnone => ?_⟩
    · simp only [hquiet, List.append_nil]
      exact h.tally id c (calls ▸ hc)
    · simp only [hquiet, List.append_nil]
      exact h.new id (calls ▸ hnone)
  | @registers id₀ c₀ is new calls phase quiet controls =>
    have hquiet : ∀ id, s.noted act world id = [] := by
      intro id
      by_cases hid : act.call? = some id
      · obtain rfl := Option.some.inj (is.symm.trans hid)
        rw [noted_of_call hid (controls.trans (List.append_nil _).symm), quiet]
        rfl
      · exact noted_of_ne hid world
    refine ⟨fun id c hc => ?_, fun id hnone => ?_⟩
    · simp only [hquiet, List.append_nil]
      change world.calls.get? id = some c at hc
      rw [calls] at hc
      obtain ⟨rfl, rfl⟩ | ⟨-, hc⟩ := Dict.get?_set_eq_some.mp hc
      · rw [h.new id new, tally_of_running (by rw [phase]; trivial)]
      · exact h.tally id c hc
    · simp only [hquiet, List.append_nil]
      change world.calls.get? id = none at hnone
      rw [calls, Dict.get?_set] at hnone
      split at hnone
      · cases hnone
      · exact h.new id hnone
  | @moves id₀ c₀ c₁ requests is call calls move controls =>
    refine ⟨fun id c hc => ?_, fun id hnone => ?_⟩
    · change world.calls.get? id = some c at hc
      rw [calls] at hc
      obtain ⟨rfl, rfl⟩ | ⟨hne, hc⟩ := Dict.get?_set_eq_some.mp hc
      · simp only [noted_of_call is controls]
        exact (h.tally id c₀ call).move (hgrounded.told id c₀ call) move
      · simp only [noted_of_ne (s := s) (fun heq => hne (Option.some.inj (heq.symm.trans is))),
          List.append_nil]
        exact h.tally id c hc
    · change world.calls.get? id = none at hnone
      rw [calls, Dict.get?_set] at hnone
      split at hnone
      · cases hnone
      · rename_i hne
        simp only [noted_of_ne (s := s) (fun heq => hne (Option.some.inj (heq.symm.trans is))),
          List.append_nil]
        exact h.new id hnone

theorem noted_new : new.Noted where
  tally := by rintro id c ⟨⟩
  new _ _ := rfl

/-! ## Cancelling the task -/

/-- Each call's state can be traced from its reference, also that of the task its assign created if
the call ends in the event. -/
structure Follows (s : CancelWatch) (act : PostmanAct) : Prop extends s.world.Traceable act where
  known : ∀ id c, s.world.Ends act id c → s.world.Known id c

/-- What becomes of a call that was cancelled once. -/
structure CancelsTask (s : CancelWatch) (id : ℕ) (c : AssignCall) : Prop where
  returns : c.Live → s.world.Returns id
  cancelled : ¬ c.Live → c.phase = .ended .cancelled
  exchange : ¬ c.Live → Exchange c.escalateToInterrupt c.task (s.notes id)

theorem Noted.cancelsTask (h : s.Noted) (hc : s.world.calls.get? id = some c)
    (honce : (s.notes id).count .cancelled = 1) : s.CancelsTask id c := by
  have htally := h.tally id c hc
  have hended : ∀ outcome, c.phase = .ended outcome →
      outcome = .cancelled ∧ Exchange c.escalateToInterrupt c.task (s.notes id) := by
    intro outcome hphase
    rw [Tally, hphase] at htally
    exact htally honce
  refine ⟨fun hlive => PostmanWorld.returns_of_cancelled hc hlive fun hrunning => ?_,
    fun hnot => ?_, fun hnot => ?_⟩
  · rw [(tally_of_running hrunning).mp htally] at honce
    cases honce
  · obtain ⟨outcome, hphase⟩ := not_forall_not.mp hnot
    rw [hphase, (hended outcome hphase).1]
  · obtain ⟨outcome, hphase⟩ := not_forall_not.mp hnot
    exact (hended outcome hphase).2

theorem followed_step (h : s.world.Followed ∧ s.Noted) (hfollows : s.Follows act)
    (hs : step s act = some t) : t.world.Followed ∧ t.Noted := by
  have hnoted := h.2.step h.1.traced.kept.grounded hs
  obtain ⟨world, hworld, rfl⟩ := Option.map_eq_some_iff.mp hs
  exact ⟨h.1.step hfollows.toTraceable hworld, hnoted⟩

/-- In every run whose calls can be followed, a call that is cancelled once returns, asks for its
task to be cancelled exactly once if it learns of it, and for an interrupt only if it is to escalate
and the cancel was not confirmed; and nothing is left of it in the tables once it ended. -/
theorem cancelled_call_cancels_its_task {acts : List PostmanAct}
    (hmeets : Meets step Follows new (acts ++ [act])) (hrun : exec step new acts = some s)
    (hs : s.step act = some t) (id : ℕ) (honce : (t.notes id).count .cancelled = 1) :
    (∀ c, t.world.calls.get? id = some c → t.CancelsTask id c) ∧
      ∀ c, s.world.Ends act id c → t.world.Dropped id c := by
  obtain ⟨hacts, hlast⟩ := meets_concat hmeets
  have hkept := exec_invariant_of_meets (I := fun s => s.world.Followed ∧ s.Noted)
    ⟨PostmanWorld.followed_start, noted_new⟩ (fun _ _ _ => followed_step) hacts hrun
  have hfollows := hlast s hrun
  refine ⟨fun c hc => (followed_step hkept hfollows hs).2.cancelsTask hc honce, fun c hends => ?_⟩
  obtain ⟨world, hworld, rfl⟩ := Option.map_eq_some_iff.mp hs
  refine (hkept.1.ends hends (hfollows.known id c hends) ?_ hworld).1
  -- a cancellation that finds the call waiting for its answer is not the only one
  rintro rfl hc hphase
  have htally := hkept.2.tally id c hc
  rw [Tally, hphase] at htally
  have hnotes : s.notes id = [.cancelled] := htally
  change (s.notes id ++ s.noted (.cancel id) world id).count .cancelled = 1 at honce
  rw [hnotes] at honce
  simp [noted, PostmanWorld.observed] at honce

/-- A call that is to escalate is cancelled before its assign is answered; no confirmation comes. -/
def escalated : List PostmanAct :=
  [.assign 0 "r" true, .create 0 "t", .cancel 0, .answer 0 "t", .controlSent 0, .timeout 0,
    .controlSent 0]

theorem cancelled_call_cancels_its_task_escalated :
    ∃ s t c, exec step new escalated = some s ∧ s.step (.timeout 0) = some t ∧
      t.world.calls.get? 0 = some c ∧ c.task = some "t" ∧ t.CancelsTask 0 c ∧
      t.world.Dropped 0 c := by
  have hmeets : Meets step Follows new (escalated ++ [.timeout 0]) := by
    refine meets_cons ⟨⟨by rintro _ _ ⟨⟩, ?_, ?_, ?_⟩, ?_⟩ ?_
    · rintro _ _ _ _ ⟨⟩ ⟨⟩
    · rintro _ _ ⟨⟩
    · rintro _ _ ⟨⟩
    · rintro id c - t ⟨_, ⟨⟩⟩
    rintro w ⟨⟩
    refine meets_cons ⟨.of_unbound rfl (by rintro _ _ _ ⟨⟩), ?_⟩ ?_
    · rintro id c - t ⟨_, ⟨⟩⟩
    rintro w ⟨⟩
    refine meets_cons ⟨.of_unbound rfl (by rintro _ _ _ ⟨⟩), ?_⟩ ?_
    · -- the task is not bound yet
      exact fun id c _ t _ => Or.inr ⟨rfl, by rintro r ⟨⟩, rfl, rfl⟩
    rintro w ⟨⟩
    refine meets_cons ⟨⟨trivial, by rintro _ _ _ _ ⟨⟩, ?_, ?_⟩, ?_⟩ ?_
    · rintro task reference hbinding id o t ho ⟨⟩
    · rintro task reference hbinding r ⟨⟩
    · exact fun id c _ t _ => Or.inr ⟨rfl, by rintro r ⟨⟩, rfl, rfl⟩
    rintro w ⟨⟩
    iterate 4
      refine meets_cons ⟨.of_unbound rfl (by rintro _ _ _ ⟨⟩),
        PostmanWorld.known_of_created 0 "t" "r" rfl (by rintro c ⟨⟩; rfl) rfl⟩ ?_
      rintro w ⟨⟩
    exact meets_nil _
  obtain ⟨s, hs⟩ : ∃ s, exec step new escalated = some s := ⟨_, rfl⟩
  obtain ⟨t, ht⟩ : ∃ t, s.step (.timeout 0) = some t := by
    obtain rfl := Option.some.inj hs
    exact ⟨_, rfl⟩
  have honce : (t.notes 0).count .cancelled = 1 := by
    obtain rfl := Option.some.inj hs
    obtain rfl := Option.some.inj ht
    rfl
  have hends : ∃ c c', s.world.Ends (.timeout 0) 0 c ∧ t.world.calls.get? 0 = some c' ∧
      c'.task = some "t" ∧ c'.reference = c.reference ∧ c'.task = c.task := by
    obtain rfl := Option.some.inj hs
    obtain rfl := Option.some.inj ht
    exact ⟨_, _, ⟨rfl, by rintro _ ⟨⟩, _, _, rfl, rfl, fun hlive => hlive _ rfl⟩, rfl, rfl, rfl,
      rfl⟩
  obtain ⟨c, c', hends, hc', htask, href, htask'⟩ := hends
  obtain ⟨hcancels, hdropped⟩ := cancelled_call_cancels_its_task hmeets hs ht 0 honce
  obtain ⟨hqueue, hreference, hunbound, htasks, hcatchUp, hpoll⟩ := hdropped c hends
  refine ⟨s, t, c', hs, ht, hc', htask, hcancels c' hc', ?_⟩
  rw [← href] at hqueue hreference hunbound hcatchUp
  rw [← htask'] at htasks
  exact ⟨hqueue, hreference, hunbound, htasks, hcatchUp, hpoll⟩

/-- Two calls are given one reference, and the first is cancelled. -/
def sharedThenCancelled : List PostmanAct :=
  [.assign 0 "r" false, .assign 1 "r" false, .create 0 "t", .create 1 "t1", .answer 0 "t",
    .answer 1 "t1", .read (.call 0), .readDone (.call 0) true, .cancel 0, .controlSent 0]

/-- A call is cancelled whose assign does not answer, after its task reported an event. -/
def reportedThenCancelled : List PostmanAct :=
  [.assign 0 "r" false, .create 0 "t", .subscribe, .report (PostmanWorld.eventOf "e1"), .deliver,
    .cancel 0]

/-- In the first run the task of the call stays bound, in the second the event of its task stays
buffered. -/
theorem cancelled_call_leaves_entries :
    (∃ s t c, exec step new sharedThenCancelled = some s ∧ s.step (.timeout 0) = some t ∧
      (t.notes 0).count .cancelled = 1 ∧ s.world.Ends (.timeout 0) 0 c ∧ c.task = some "t" ∧
      t.world.postman.taskToReference.get? "t" = some c.reference ∧ ¬ t.world.Dropped 0 c) ∧
    ∃ s t c, exec step new reportedThenCancelled = some s ∧ s.step (.timeout 0) = some t ∧
      (t.notes 0).count .cancelled = 1 ∧ s.world.Ends (.timeout 0) 0 c ∧ s.world.server.Own 0 "t" ∧
      t.world.postman.orphanEventsByTask.get? "t" = some [PostmanWorld.eventOf "e1"] ∧
      ¬ t.world.Dropped 0 c := by
  constructor
  · obtain ⟨s, hs⟩ : ∃ s, exec step new sharedThenCancelled = some s := ⟨_, rfl⟩
    obtain rfl := Option.some.inj hs
    refine ⟨_, _, _, hs, rfl, rfl,
      ⟨rfl, by rintro _ ⟨⟩, _, _, rfl, rfl, fun hlive => hlive _ rfl⟩, rfl, rfl, fun hdropped => ?_⟩
    exact hdropped.unbound "t" rfl
  · obtain ⟨s, hs⟩ : ∃ s, exec step new reportedThenCancelled = some s := ⟨_, rfl⟩
    obtain rfl := Option.some.inj hs
    refine ⟨_, _, _, hs, rfl, rfl,
      ⟨rfl, by rintro _ ⟨⟩, _, _, rfl, rfl, fun hlive => hlive _ rfl⟩, ⟨_, rfl⟩, rfl,
      fun hdropped => ?_⟩
    have horphans := (hdropped.tasks "t" (Or.inr ⟨_, rfl⟩)).orphans
    cases horphans

end CancelWatch

end Rekuest
