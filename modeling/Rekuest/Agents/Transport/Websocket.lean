import Mathlib.Data.List.Range
import Rekuest.Lib.AsyncQueue
import Rekuest.Lib.Runs
import Rekuest.Messages

/-!
# The outbound line of the websocket transport

The held slot, the send queue and the sender task of `rekuest/agents/transport/websocket.py`, over
any number of connections. Every frame carries the index it was enqueued under, and the state
keeps what was enqueued, put on the wire, completed and discarded so far.
-/

namespace Rekuest

open Runs

/-- A frame in the outbound line. -/
structure Queued (φ : Type) where
  index : ℕ
  frame : φ

/-- The task `sending` of the current connection. -/
inductive Sender (φ : Type)
  /-- There is no connection, so no such task. -/
  | off
  /-- Waiting for the release. -/
  | parked
  /-- In its loop, between two frames. -/
  | looping
  /-- Inside `client.send`. -/
  | sending (frame : Queued φ)
  /-- Returned, after a send failed. -/
  | ended

/-- The outbound half of `WebsocketAgentTransport`. -/
structure Transport (φ : Type) where
  /-- `_held`: a frame taken off the queue whose send did not complete. -/
  held : Option (Queued φ)
  /-- `_send_queue`. -/
  sendQueue : AsyncQueue (Queued φ)
  /-- Whether `_released`, the event of the latest connection, is set. -/
  released : Bool
  sender : Sender φ
  /-- The number of connections so far, which names the current one. -/
  connection : ℕ
  /-- What the sockets accepted, `Register` apart, with the connection it went out on. -/
  wire : List (ℕ × Queued φ)
  enqueued : List (Queued φ)
  completed : List (Queued φ)
  discarded : List (Queued φ)

/-- What happens to the outbound line. -/
inductive TransportAct (φ : Type)
  | delayaction (frame : φ)
  /-- A connection sent its `Register`, and starts its sender. -/
  | connect (holdsSendsUntilInit : Bool)
  /-- The sender finds the event set. -/
  | wake
  /-- The sender takes the held frame, else the queue's first. -/
  | take
  /-- `client.send` returned. -/
  | sent
  /-- `client.send` raised; the socket may have accepted the frame. -/
  | failed (accepted : Bool)
  /-- The connection ended: its sender is cancelled, maybe inside `client.send`. -/
  | drop (accepted : Bool)
  | discardJournaled
  | releaseSends

namespace Transport

variable {φ : Type}

/-- A transport that never connected. -/
def start : Transport φ := ⟨none, AsyncQueue.empty, false, .off, 0, [], [], [], []⟩

/-- The frame inside `client.send`, if any. -/
def inFlight (t : Transport φ) : Option (Queued φ) :=
  match t.sender with
  | .sending frame => some frame
  | _ => none

/-- Every frame still to be sent, in order. -/
def line (t : Transport φ) : List (Queued φ) :=
  t.inFlight.toList ++ (t.held.toList ++ t.sendQueue.items)

/-- `delayaction`: put a frame in the queue. -/
def delayaction (t : Transport φ) (frame : φ) : Transport φ :=
  { t with
    sendQueue := t.sendQueue.put ⟨t.enqueued.length, frame⟩
    enqueued := t.enqueued ++ [⟨t.enqueued.length, frame⟩] }

/-- The record of a frame the socket may have accepted. -/
def wireAfter (t : Transport φ) (frame : Queued φ) (accepted : Bool) : List (ℕ × Queued φ) :=
  if accepted then t.wire ++ [(t.connection, frame)] else t.wire

/-- `requeue`: hold the frame in flight for the next connection. -/
def requeue (t : Transport φ) (frame : Queued φ) (accepted : Bool) : Transport φ :=
  { t with held := some frame, wire := t.wireAfter frame accepted }

section

variable (numbered : φ → Bool)

/-- The loop of `discard_journaled`: every queued frame is taken and reported done. Answers the
frames to keep, those dropped and the count that is left. -/
def drainJournaled : List (Queued φ) → Unfinished →
    Option (List (Queued φ) × List (Queued φ) × Unfinished)
  | [], tasks => some ([], [], tasks)
  | frame :: items, tasks => do
    let tasks ← tasks.taskDone
    let (kept, dropped, tasks) ← drainJournaled items tasks
    if numbered frame.frame then some (kept, frame :: dropped, tasks)
    else some (frame :: kept, dropped, tasks)

/-- The held frame's part of `discard_journaled`. -/
def dropHeld (t : Transport φ) :
    Option (Option (Queued φ) × List (Queued φ) × Unfinished) :=
  match t.held with
  | none => some (none, [], t.sendQueue.tasks)
  | some frame =>
    if numbered frame.frame then
      t.sendQueue.tasks.taskDone.map fun tasks => (none, [frame], tasks)
    else some (some frame, [], t.sendQueue.tasks)

/-- `discard_journaled`: drop the frames that carry a position, and put the others back. -/
def discardJournaled (t : Transport φ) : Option (Transport φ) := do
  let (held, droppedHeld, tasks) ← dropHeld numbered t
  let (kept, dropped, tasks) ← drainJournaled numbered t.sendQueue.items tasks
  some { t with
    held := held
    sendQueue := kept.foldl AsyncQueue.put ⟨[], tasks⟩
    discarded := t.discarded ++ (droppedHeld ++ dropped) }

/-- One event. Reporting a frame done raises where nothing is unfinished. -/
def step (t : Transport φ) : TransportAct φ → Option (Transport φ)
  | .delayaction frame => some (t.delayaction frame)
  | .connect holds =>
    match t.sender with
    | .off =>
      some { t with released := !holds, sender := .parked, connection := t.connection + 1 }
    | _ => none
  | .wake =>
    match t.sender with
    | .parked => if t.released then some { t with sender := .looping } else none
    | _ => none
  | .take =>
    match t.sender with
    | .looping =>
      match t.held with
      | some frame => some { t with held := none, sender := .sending frame }
      | none => t.sendQueue.getNowait.map fun (frame, queue) =>
          { t with sendQueue := queue, sender := .sending frame }
    | _ => none
  | .sent =>
    match t.sender with
    | .sending frame => t.sendQueue.taskDone.map fun queue =>
        { t with
          sendQueue := queue
          sender := .looping
          wire := t.wireAfter frame true
          completed := t.completed ++ [frame] }
    | _ => none
  | .failed accepted =>
    match t.sender with
    | .sending frame => some { t.requeue frame accepted with sender := .ended }
    | _ => none
  | .drop accepted =>
    match t.sender with
    | .off => none
    | .sending frame => some { t.requeue frame accepted with sender := .off }
    | _ => some { t with sender := .off }
  | .discardJournaled => t.discardJournaled numbered
  -- before the first connection there is no event, and connecting makes one that is not set
  | .releaseSends => some { t with released := true }

end

/-! ## Discarding -/

variable (numbered : φ → Bool)

/-- The drain splits the queue in order, and reports each of its frames done. -/
theorem drainJournaled_eq (items : List (Queued φ)) (tasks : Unfinished)
    (h : items.length ≤ tasks.count) :
    ∃ tasks', drainJournaled numbered items tasks
        = some (items.filter (fun f => !numbered f.frame), items.filter (fun f => numbered f.frame),
            tasks') ∧ tasks'.count + items.length = tasks.count := by
  induction items generalizing tasks with
  | nil => exact ⟨tasks, rfl, rfl⟩
  | cons f items ih =>
    rw [List.length_cons] at h
    obtain ⟨t₁, h₁⟩ := Unfinished.exists_taskDone (u := tasks) (by omega)
    have hc := Unfinished.taskDone_eq_some h₁
    obtain ⟨t₂, h₂, hc₂⟩ := ih t₁ (by omega)
    refine ⟨t₂, ?_, by rw [List.length_cons]; omega⟩
    cases hj : numbered f.frame <;> simp [drainJournaled, h₁, h₂, hj]

/-- What `discard_journaled` leaves: the line without its numbered frames that are not in flight,
and a count lower by as many. -/
structure Discarded (numbered : φ → Bool) (t t' : Transport φ) (dropped : List (Queued φ)) :
    Prop where
  kept : t'.held.toList ++ t'.sendQueue.items
    = (t.held.toList ++ t.sendQueue.items).filter fun f => !numbered f.frame
  dropped_eq : dropped
    = (t.held.toList ++ t.sendQueue.items).filter fun f => numbered f.frame
  held : ∀ f, t'.held = some f → t.held = some f
  count : t'.sendQueue.tasks.count + dropped.length = t.sendQueue.tasks.count
  frame : t' = { t with
    held := t'.held, sendQueue := t'.sendQueue, discarded := t.discarded ++ dropped }

theorem dropHeld_eq (t : Transport φ) (h : t.held.toList.length ≤ t.sendQueue.tasks.count) :
    ∃ tasks, dropHeld numbered t
        = some (t.held.filter (fun f => !numbered f.frame),
            t.held.toList.filter (fun f => numbered f.frame), tasks) ∧
      tasks.count + (t.held.toList.filter fun f => numbered f.frame).length
        = t.sendQueue.tasks.count := by
  rw [dropHeld]
  cases hh : t.held with
  | none => exact ⟨_, rfl, rfl⟩
  | some f =>
    simp only [hh, Option.toList_some, List.length_singleton] at h
    cases hj : numbered f.frame with
    | false => exact ⟨t.sendQueue.tasks, by simp [hj, Option.filter], by simp [hj]⟩
    | true =>
      obtain ⟨tasks, htasks⟩ := Unfinished.exists_taskDone h
      refine ⟨tasks, by simp [hj, htasks, Option.filter], ?_⟩
      simpa [hj] using (Unfinished.taskDone_eq_some htasks).symm

/-- Where the count covers the line, discarding does not raise. -/
theorem discardJournaled_eq (t : Transport φ)
    (h : (t.held.toList ++ t.sendQueue.items).length ≤ t.sendQueue.tasks.count) :
    ∃ t' dropped, t.discardJournaled numbered = some t' ∧ Discarded numbered t t' dropped := by
  rw [List.length_append] at h
  obtain ⟨t₁, h₁, hc₁⟩ := dropHeld_eq numbered t (by omega)
  have hle : (t.held.toList.filter fun f => numbered f.frame).length ≤ t.held.toList.length :=
    List.length_filter_le _ _
  obtain ⟨t₂, h₂, hc₂⟩ := drainJournaled_eq numbered t.sendQueue.items t₁ (by omega)
  have hput := AsyncQueue.foldl_put ⟨[], t₂⟩
    (t.sendQueue.items.filter fun f => !numbered f.frame)
  refine ⟨_, _,
    by rw [discardJournaled, h₁]; simp only [Option.bind_eq_bind, Option.bind_some, h₂]; rfl,
    ?_, ?_, ?_, ?_, rfl⟩
  · rw [List.filter_append, hput.1, List.nil_append, Option.toList_filter]
  · rw [List.filter_append]
  · intro f hf
    exact (Option.filter_eq_some_iff.mp hf).1
  · have hsplit := List.length_eq_length_filter_add (l := t.sendQueue.items)
      fun f => numbered f.frame
    have hkept := hput.2
    simp only [List.length_append] at hc₁ hc₂ hkept hsplit ⊢
    omega

/-- Discarding touches nothing but the held slot and the queue. -/
theorem discardJournaled_frame {numbered : φ → Bool} {t t' : Transport φ}
    (h : t.discardJournaled numbered = some t') :
    t'.sender = t.sender ∧ t'.released = t.released ∧ t'.connection = t.connection ∧
      t'.wire = t.wire := by
  simp only [discardJournaled, Option.bind_eq_bind, Option.bind_eq_some_iff, Prod.exists] at h
  obtain ⟨held, droppedHeld, tasks, -, kept, dropped, tasks', -, h⟩ := h
  obtain rfl := Option.some.inj h
  exact ⟨rfl, rfl, rfl, rfl⟩

end Transport

end Rekuest
