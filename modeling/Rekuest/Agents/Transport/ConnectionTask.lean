import Mathlib.Data.Finset.Card
import Rekuest.Lib.Dict
import Rekuest.Lib.Runs

/-!
# The connection task of a transport

`aconnect` and `adisconnect` of `rekuest/agents/transport/websocket.py` over one session of a
transport. The task that owns the socket stands in `_connection_task`, which `adisconnect` clears
once it has waited for it. A wait that is cancelled, or one that goes on after another task took the
place, clears it from a task that is still alive, and the next `aconnect` starts a second one beside
it.
-/

namespace Rekuest

open Runs

/-! ## The session

`adisconnect` can be called many times, and each call waits for the connection task in two places: a
bounded wait until it stops by itself, and one for its end after it was cancelled. Other events
happen while it waits.
-/

/-- An item of `_in_queue`. -/
inductive InItem
  | message
  /-- The terminal failure of the connection task. -/
  | failure
  /-- `CLOSED`. -/
  | closed
deriving DecidableEq

/-- How `_aconnect_and_receive` ends. -/
inductive LoopEnd
  | returned
  | failed
  | cancelled
deriving DecidableEq

/-- What `_aconnection_loop` hands to the consumer at its end. -/
def LoopEnd.items : LoopEnd → List InItem
  | .returned | .cancelled => [.closed]
  | .failed => [.failure, .closed]

/-- Where a call of `adisconnect` stands. -/
inductive DisconnectPhase
  /-- In `aflush`. -/
  | flushing
  /-- In `client.close`. -/
  | closing
  /-- In the bounded wait for the shielded task. -/
  | waiting (task : ℕ)
  /-- In the wait for the task it cancelled. -/
  | cancelling (task : ℕ)
  /-- It returned; with the task it was stopping, if there was one. -/
  | returned (task : Option ℕ)
  /-- Its cancellation was raised. -/
  | cancelled
deriving DecidableEq

/-- The task a call is stopping. -/
def DisconnectPhase.stops : DisconnectPhase → Option ℕ
  | .waiting task | .cancelling task => some task
  | .flushing | .closing | .returned _ | .cancelled => none

/-- What happens to a transport. -/
inductive SessionAct
  | aconnect
  /-- A call of `adisconnect` starts. -/
  | adisconnect (id : ℕ)
  /-- The flush of the call is over, also by an error or in its time limit. -/
  | flushed (id : ℕ)
  /-- The client of the call is closed, or failed to. -/
  | closed (id : ℕ)
  /-- The task the call waits for ended, and the call goes on. -/
  | resume (id : ℕ)
  /-- `flush_timeout` is over in the bounded wait. -/
  | timeout (id : ℕ)
  /-- The call is cancelled. -/
  | cancel (id : ℕ)
  /-- The task sets `_client`. -/
  | opened (task : ℕ)
  /-- The task leaves an attempt, and resets `_client`. -/
  | dropped (task : ℕ)
  /-- The task queues a message. -/
  | received (task : ℕ)
  | ended (task : ℕ) (how : LoopEnd)
  /-- `areceive` takes an item. -/
  | areceive
deriving DecidableEq

/-- The call that goes on from an await. -/
def SessionAct.resumes : SessionAct → Option ℕ
  | .resume id | .timeout id | .cancel id => some id
  | _ => none

/-- A session of a transport; its connection tasks are numbered as they start. -/
structure TransportSession where
  closing : Bool
  /-- The task whose socket stands in `_client`. -/
  client : Option ℕ
  connectionTask : Option ℕ
  inQueue : List InItem
  /-- The number of tasks that were started. -/
  started : ℕ
  /-- The tasks that have not ended. -/
  alive : Finset ℕ
  calls : Dict ℕ DisconnectPhase

namespace TransportSession

/-- After `__aenter__`. -/
def start : TransportSession := ⟨false, none, none, [], 0, ∅, ∅⟩

/-- `self._connection_task is None or self._connection_task.done()`. -/
def NoTask (s : TransportSession) : Prop := ∀ t ∈ s.connectionTask, t ∉ s.alive

instance (s : TransportSession) : Decidable s.NoTask :=
  inferInstanceAs (Decidable (∀ t ∈ s.connectionTask, t ∉ s.alive))

def aconnect (s : TransportSession) : TransportSession :=
  if s.NoTask then
    { s with
      closing := false
      inQueue := []
      connectionTask := some s.started
      started := s.started + 1
      alive := insert s.started s.alive }
  else { s with closing := false }

def setCall (s : TransportSession) (id : ℕ) (phase : DisconnectPhase) : TransportSession :=
  { s with calls := s.calls.set id phase }

/-- The end of `adisconnect`: `self._connection_task = None`. -/
def clear (s : TransportSession) (id task : ℕ) : TransportSession :=
  { s with connectionTask := none, calls := s.calls.set id (.returned (some task)) }

/-- `adisconnect` once the client is closed. A task that ended is not waited for. -/
def stop (s : TransportSession) (id : ℕ) : TransportSession :=
  match s.connectionTask with
  | none => s.setCall id (.returned none)
  | some task => if task ∈ s.alive then s.setCall id (.waiting task) else s.clear id task

def adisconnect (s : TransportSession) (id : ℕ) : TransportSession :=
  match s.client with
  | some _ => { s with closing := true }.setCall id .flushing
  | none => { s with closing := true }.stop id

/-- `_aconnection_loop` ends. -/
def taskEnd (s : TransportSession) (task : ℕ) (how : LoopEnd) : TransportSession :=
  { s with alive := s.alive.erase task, inQueue := s.inQueue ++ how.items }

/-- The call goes on from its wait: it does so only when the task has ended. -/
def resume (s : TransportSession) (id : ℕ) : Option TransportSession :=
  match (s.calls.get? id).bind DisconnectPhase.stops with
  | some task => if task ∈ s.alive then none else some (s.clear id task)
  | none => none

/-- The bounded wait runs out of time: the task is cancelled, and waited for if it is alive. -/
def timeout (s : TransportSession) (id : ℕ) : Option TransportSession :=
  match s.calls.get? id with
  | some (.waiting task) =>
    some (if task ∈ s.alive then s.setCall id (.cancelling task) else s.clear id task)
  | _ => none

/-- `CancelledError` is raised at the await of the call. -/
def cancel (s : TransportSession) (id : ℕ) : Option TransportSession :=
  match s.calls.get? id with
  | some .flushing | some .closing => some (s.setCall id .cancelled)
  -- whose cancellation it is, is not asked
  | some (.waiting task) => some (s.clear id task)
  -- it is passed on to the task that is awaited
  | some (.cancelling task) => some (if task ∈ s.alive then s else s.clear id task)
  | _ => none

/-- One event. -/
def step (s : TransportSession) : SessionAct → Option TransportSession
  | .aconnect => some s.aconnect
  | .adisconnect id => if s.calls.get? id = none then some (s.adisconnect id) else none
  | .flushed id => if s.calls.get? id = some .flushing then some (s.setCall id .closing) else none
  | .closed id => if s.calls.get? id = some .closing then some (s.stop id) else none
  | .resume id => s.resume id
  | .timeout id => s.timeout id
  | .cancel id => s.cancel id
  | .opened task => if task ∈ s.alive then some { s with client := some task } else none
  | .dropped task => if task ∈ s.alive then some { s with client := none } else none
  | .received task =>
    if task ∈ s.alive then some { s with inQueue := s.inQueue ++ [.message] } else none
  | .ended task how =>
    if task ∈ s.alive ∧ s.client ≠ some task then some (s.taskEnd task how) else none
  | .areceive =>
    match s.inQueue with
    | _ :: rest => some { s with inQueue := rest }
    | [] => none

/-! ## The task that is alive

At most one task is alive as long as the one that is alive stands in `_connection_task`, which is
where `aconnect` looks. A call of `adisconnect` that clears the slot must not clear it under a task
that is still alive.
-/

/-- No call gives up a task that is alive: none is cancelled in the bounded wait for one, and where
one goes on from its wait no task started since stands in `_connection_task`. -/
structure Keeps (s : TransportSession) (act : SessionAct) : Prop where
  cancel : ∀ id t, act = .cancel id → s.calls.get? id = some (.waiting t) → t ∉ s.alive
  own : ∀ id t u, act.resumes = some id →
    (s.calls.get? id).bind DisconnectPhase.stops = some t →
      s.connectionTask = some u → u ∈ s.alive → u = t

/-- The task that is alive stands in `_connection_task`. -/
structure Owned (s : TransportSession) : Prop where
  slot : ∀ t ∈ s.alive, s.connectionTask = some t
  known : ∀ t, s.connectionTask = some t → t < s.started
  stopping : ∀ id phase t, s.calls.get? id = some phase → phase.stops = some t → t < s.started
  returned : ∀ id t, s.calls.get? id = some (.returned (some t)) → t < s.started ∧ t ∉ s.alive

variable {s s' : TransportSession} {act : SessionAct} {id t : ℕ} {phase : DisconnectPhase}

theorem owned_start : Owned start where
  slot := by rintro t ⟨⟩
  known := by rintro t ⟨⟩
  stopping := by rintro id phase t ⟨⟩
  returned := by rintro id t ⟨⟩

theorem Owned.alive_eq_empty (h : Owned s) (hnone : s.NoTask) : s.alive = ∅ :=
  Finset.eq_empty_of_forall_notMem fun t ht => hnone t (h.slot t ht) ht

/-- At most one task is alive. -/
theorem Owned.card_alive (h : Owned s) : s.alive.card ≤ 1 := by
  refine Finset.card_le_one.mpr fun t ht u hu => ?_
  exact Option.some.inj ((h.slot t ht).symm.trans (h.slot u hu))

theorem Owned.setClosing (h : Owned s) (b : Bool) : Owned { s with closing := b } :=
  ⟨h.slot, h.known, h.stopping, h.returned⟩

theorem Owned.setClient (h : Owned s) (client : Option ℕ) : Owned { s with client := client } :=
  ⟨h.slot, h.known, h.stopping, h.returned⟩

theorem Owned.setInQueue (h : Owned s) (inQueue : List InItem) :
    Owned { s with inQueue := inQueue } :=
  ⟨h.slot, h.known, h.stopping, h.returned⟩

theorem Owned.setCall (h : Owned s) (hstops : ∀ t, phase.stops = some t → t < s.started)
    (hreturned : ∀ t, phase = .returned (some t) → t < s.started ∧ t ∉ s.alive) :
    Owned (s.setCall id phase) where
  slot := h.slot
  known := h.known
  stopping id' phase' t hid ht := by
    rcases Dict.get?_set_eq_some.mp hid with ⟨rfl, rfl⟩ | ⟨-, hid⟩
    · exact hstops t ht
    · exact h.stopping id' phase' t hid ht
  returned id' t hid := by
    rcases Dict.get?_set_eq_some.mp hid with ⟨rfl, hphase⟩ | ⟨-, hid⟩
    · exact hreturned t (by simp [hphase])
    · exact h.returned id' t hid

/-- A call that returns clears the place of a task; no task is alive then. -/
theorem Owned.clear (h : Owned s) (ht : t < s.started) (hempty : s.alive = ∅) :
    Owned (s.clear id t) where
  slot u hu := by
    have hu : u ∈ s.alive := hu
    simp [hempty] at hu
  known := by rintro u ⟨⟩
  stopping id' phase' u hid hu := by
    rcases Dict.get?_set_eq_some.mp hid with ⟨-, rfl⟩ | ⟨-, hid⟩
    · cases hu
    · exact h.stopping id' phase' u hid hu
  returned id' u hid := by
    have hnot : u ∉ s.alive := by simp [hempty]
    rcases Dict.get?_set_eq_some.mp hid with ⟨-, heq⟩ | ⟨-, hid⟩
    · obtain rfl : u = t := by simpa using heq
      exact ⟨ht, hnot⟩
    · exact h.returned id' u hid

theorem Owned.aconnect (h : Owned s) : Owned s.aconnect := by
  unfold TransportSession.aconnect
  split
  case isFalse => exact h.setClosing false
  case isTrue hnone =>
    have hempty := h.alive_eq_empty hnone
    refine ⟨?_, ?_, ?_, ?_⟩
    · intro t ht
      obtain rfl : t = s.started := by simpa [hempty] using ht
      rfl
    · rintro t ⟨⟩
      exact Nat.lt_succ_self _
    · intro id phase t hid ht
      exact Nat.lt_succ_of_lt (h.stopping id phase t hid ht)
    · intro id t hid
      obtain ⟨hlt, -⟩ := h.returned id t hid
      -- the new task has a number of its own
      exact ⟨Nat.lt_succ_of_lt hlt, by simpa [hempty] using hlt.ne⟩

theorem Owned.stop (h : Owned s) : Owned (s.stop id) := by
  unfold TransportSession.stop
  split
  case h_1 => exact h.setCall (by rintro t ⟨⟩) (by rintro t ⟨⟩)
  case h_2 task htask =>
    have hlt := h.known task htask
    split
    · exact h.setCall (by rintro t ⟨⟩; exact hlt) (by rintro t ⟨⟩)
    · next hended =>
      refine h.clear hlt (h.alive_eq_empty fun t ht => ?_)
      obtain rfl : task = t := Option.some.inj (htask.symm.trans ht)
      exact hended

theorem Owned.adisconnect (h : Owned s) : Owned (s.adisconnect id) := by
  unfold TransportSession.adisconnect
  split
  · exact (h.setClosing true).setCall (by rintro t ⟨⟩) (by rintro t ⟨⟩)
  · exact (h.setClosing true).stop

theorem Owned.taskEnd (h : Owned s) (t : ℕ) (how : LoopEnd) : Owned (s.taskEnd t how) := by
  refine ⟨?_, h.known, h.stopping, ?_⟩
  · intro u hu
    exact h.slot u (Finset.mem_of_mem_erase hu)
  · intro id u hid
    obtain ⟨hlt, hnot⟩ := h.returned id u hid
    exact ⟨hlt, fun hu => hnot (Finset.mem_of_mem_erase hu)⟩

/-! ## Calls that go on from a wait -/

/-- A call that goes on from its wait, where its task has ended, leaves no task alive. -/
theorem Owned.clear_of_keeps (h : Owned s) (hkeeps : Keeps s act) (hact : act.resumes = some id)
    (hphase : s.calls.get? id = some phase) (hstops : phase.stops = some t)
    (hended : t ∉ s.alive) : Owned (s.clear id t) := by
  refine h.clear (h.stopping id phase t hphase hstops) (h.alive_eq_empty fun u hu halive => ?_)
  obtain rfl : u = t := hkeeps.own id t u hact (by simp [hphase, hstops]) hu halive
  exact hended halive

theorem Owned.resume (h : Owned s) (hkeeps : Keeps s (.resume id)) (hs : s.resume id = some s') :
    Owned s' := by
  unfold TransportSession.resume at hs
  split at hs
  case h_2 => cases hs
  case h_1 task hstops =>
    obtain ⟨phase, hphase, hstops⟩ := Option.bind_eq_some_iff.mp hstops
    split at hs
    · cases hs
    · next hended =>
      obtain rfl := Option.some.inj hs
      exact h.clear_of_keeps hkeeps rfl hphase hstops hended

theorem Owned.timeout (h : Owned s) (hkeeps : Keeps s (.timeout id))
    (hs : s.timeout id = some s') : Owned s' := by
  unfold TransportSession.timeout at hs
  split at hs
  case h_2 => cases hs
  case h_1 task hphase =>
    obtain rfl := Option.some.inj hs
    split
    · exact h.setCall (by rintro t ⟨⟩; exact h.stopping id _ task hphase rfl) (by rintro t ⟨⟩)
    · next hended => exact h.clear_of_keeps hkeeps rfl hphase rfl hended

theorem Owned.cancel (h : Owned s) (hkeeps : Keeps s (.cancel id)) (hs : s.cancel id = some s') :
    Owned s' := by
  unfold TransportSession.cancel at hs
  split at hs
  case h_1 | h_2 =>
    obtain rfl := Option.some.inj hs
    exact h.setCall (by rintro t ⟨⟩) (by rintro t ⟨⟩)
  case h_3 task hphase =>
    obtain rfl := Option.some.inj hs
    exact h.clear_of_keeps hkeeps rfl hphase rfl (hkeeps.cancel id task rfl hphase)
  case h_4 task hphase =>
    obtain rfl := Option.some.inj hs
    split
    · exact h
    · next hended => exact h.clear_of_keeps hkeeps rfl hphase rfl hended
  case h_5 => cases hs

theorem Owned.step (h : Owned s) (hkeeps : Keeps s act)
    (hs : TransportSession.step s act = some s') : Owned s' := by
  cases act with
  | aconnect =>
    obtain rfl := Option.some.inj hs
    exact h.aconnect
  | adisconnect id =>
    obtain ⟨-, rfl⟩ : _ ∧ s.adisconnect id = s' := by
      simpa [TransportSession.step] using hs
    exact h.adisconnect
  | flushed id =>
    obtain ⟨-, rfl⟩ : _ ∧ s.setCall id .closing = s' := by
      simpa [TransportSession.step] using hs
    exact h.setCall (by rintro t ⟨⟩) (by rintro t ⟨⟩)
  | closed id =>
    obtain ⟨-, rfl⟩ : _ ∧ s.stop id = s' := by
      simpa [TransportSession.step] using hs
    exact h.stop
  | resume id => exact h.resume hkeeps hs
  | timeout id => exact h.timeout hkeeps hs
  | cancel id => exact h.cancel hkeeps hs
  | opened task | dropped task =>
    simp only [TransportSession.step] at hs
    split at hs
    · obtain rfl := Option.some.inj hs
      exact h.setClient _
    · cases hs
  | received task =>
    simp only [TransportSession.step] at hs
    split at hs
    · obtain rfl := Option.some.inj hs
      exact h.setInQueue _
    · cases hs
  | ended task how =>
    simp only [TransportSession.step] at hs
    split at hs
    · obtain rfl := Option.some.inj hs
      exact h.taskEnd task how
    · cases hs
  | areceive =>
    simp only [TransportSession.step] at hs
    split at hs
    · obtain rfl := Option.some.inj hs
      exact h.setInQueue _
    · cases hs

/-! ## In every run -/

variable {acts : List SessionAct}

theorem owned_of_meets (hmeets : Meets step Keeps start acts)
    (hrun : exec step start acts = some s) : Owned s :=
  exec_invariant_of_meets owned_start (fun _ _ _ h hkeeps hs => h.step hkeeps hs) hmeets hrun

/-- Where no call gives up a live task, one connection task is alive at most, and a call that has
returned stopped its task. -/
theorem one_connection_task (acts : List SessionAct) (s : TransportSession)
    (hmeets : Meets step Keeps start acts) (hrun : exec step start acts = some s) :
    s.alive.card ≤ 1 ∧
      ∀ id t, s.calls.get? id = some (.returned (some t)) → t ∉ s.alive :=
  ⟨(owned_of_meets hmeets hrun).card_alive,
    fun id t hid => ((owned_of_meets hmeets hrun).returned id t hid).2⟩

/-- A connection that is stopped by force, and the one after it. -/
def stoppedThenConnected : List SessionAct :=
  [.aconnect, .adisconnect 0, .timeout 0, .cancel 0, .ended 0 .cancelled, .resume 0, .aconnect]

theorem one_connection_task_stoppedThenConnected :
    ∃ s, exec step start stoppedThenConnected = some s ∧ s.alive.card ≤ 1 ∧
      ∀ id t, s.calls.get? id = some (.returned (some t)) → t ∉ s.alive := by
  have hmeets : Meets step Keeps start stoppedThenConnected := by
    iterate 2
      refine meets_cons ⟨by rintro _ _ ⟨⟩, by rintro _ _ _ ⟨⟩⟩ ?_
      rintro s ⟨⟩
    refine meets_cons ⟨by rintro _ _ ⟨⟩, ?_⟩ ?_
    · rintro id t u ⟨⟩ ⟨⟩ ⟨⟩ -
      rfl
    rintro s ⟨⟩
    refine meets_cons ⟨?_, ?_⟩ ?_
    · rintro id t ⟨⟩ ⟨⟩
    · rintro id t u ⟨⟩ ⟨⟩ ⟨⟩ -
      rfl
    rintro s ⟨⟩
    refine meets_cons ⟨by rintro _ _ ⟨⟩, by rintro _ _ _ ⟨⟩⟩ ?_
    rintro s ⟨⟩
    refine meets_cons ⟨by rintro _ _ ⟨⟩, ?_⟩ ?_
    · rintro id t u ⟨⟩ ⟨⟩ ⟨⟩ -
      rfl
    rintro s ⟨⟩
    refine meets_cons ⟨by rintro _ _ ⟨⟩, by rintro _ _ _ ⟨⟩⟩ ?_
    rintro s ⟨⟩
    exact meets_nil _
  obtain ⟨s, hs⟩ : ∃ s, exec step start stoppedThenConnected = some s := ⟨_, rfl⟩
  exact ⟨s, hs, one_connection_task stoppedThenConnected s hmeets hs⟩

/-- A teardown is cancelled in its wait for the task, and the transport is connected again. -/
def cancelledThenConnected : List SessionAct :=
  [.aconnect, .adisconnect 0, .cancel 0, .aconnect]

/-- The transport is connected again, by the consumer that sees the end of the task, before the call
that stops it goes on; and then once more. -/
def connectedBeforeResumed : List SessionAct :=
  [.aconnect, .adisconnect 0, .ended 0 .returned, .areceive, .aconnect, .resume 0, .aconnect]

/-- Two connection tasks are alive. -/
theorem two_connection_tasks :
    (∃ s, exec step start cancelledThenConnected = some s ∧ s.alive = {0, 1} ∧
      s.calls.get? 0 = some (.returned (some 0))) ∧
    ∃ s, exec step start connectedBeforeResumed = some s ∧ s.alive = {1, 2} :=
  ⟨⟨_, rfl, by decide, by decide⟩, ⟨_, rfl, by decide⟩⟩

end TransportSession

end Rekuest
