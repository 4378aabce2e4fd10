import Rekuest.Agents.Caller

/-!
# The tables of the agent's postman

Where the mirrors of a task wait, in its queue or among the orphans, and how each function of the
postman moves them.
-/

namespace Rekuest

namespace AgentPostman

/-- What every function keeps of the tables: every task has a queue of its own, and none once it
has a queue among the orphans. -/
structure Ok (p : AgentPostman) : Prop where
  made : ∀ t q, p.taskQueues.get? t = some q → q < p.queueCount
  own : ∀ t t' q, p.taskQueues.get? t = some q → p.taskQueues.get? t' = some q → t = t'
  orphans : ∀ t q, p.taskQueues.get? t = some q → p.orphanByTask.get? t = none

/-- The mirrors of `task` that wait to be taken, in its queue or for it to be made. -/
def waiting (p : AgentPostman) (task : String) : List ExecutionEvent :=
  match p.taskQueues.get? task with
  | some queue => p.queues queue
  | none => (p.orphanByTask.get? task).getD []

theorem waiting_of_queue {p : AgentPostman} {task : String} {queue : ℕ}
    (h : p.taskQueues.get? task = some queue) : p.waiting task = p.queues queue := by
  rw [waiting, h]

theorem waiting_of_none {p : AgentPostman} {task : String}
    (h : p.taskQueues.get? task = none) :
    p.waiting task = (p.orphanByTask.get? task).getD [] := by
  rw [waiting, h]

theorem ok_new : Ok new where
  made := by rintro t q ⟨⟩
  own := by rintro t t' q ⟨⟩
  orphans := by rintro t q ⟨⟩

/-- What `_ensure_queue` does: `task` has a queue, which holds what waited, and nothing else
changes for any task. -/
structure Ensured (p : AgentPostman) (task : String) (q : ℕ) (p' : AgentPostman) : Prop where
  ok : p'.Ok
  queue : p'.taskQueues.get? task = some q
  kept : ∀ t q', p.taskQueues.get? t = some q' → p'.taskQueues.get? t = some q'
  others : ∀ t, t ≠ task → p'.taskQueues.get? t = p.taskQueues.get? t
  waits : ∀ t, p'.waiting t = p.waiting t
  pending : p'.pendingResponses = p.pendingResponses

theorem ensureQueue_of_queue {p : AgentPostman} (h : p.Ok) {task : String} {q : ℕ}
    (hq : p.taskQueues.get? task = some q) :
    Ensured p task (p.ensureQueue task).1 (p.ensureQueue task).2 := by
  have ho := h.orphans task q hq
  have heq : p.ensureQueue task = (q, { p with orphanByTask := p.orphanByTask.erase task }) := by
    simp [ensureQueue, makeQueue, hq, ho, put]
  rw [heq]
  refine ⟨⟨h.made, h.own, ?_⟩, hq, fun _ _ ht => ht, fun _ _ => rfl, fun t => ?_, rfl⟩
  · intro t q' ht
    simp [h.orphans t q' ht]
  · by_cases ht : t = task
    · subst ht
      rw [waiting_of_queue hq, waiting_of_queue (by exact hq)]
    · simp [waiting, ht]

theorem ensureQueue_of_none {p : AgentPostman} (h : p.Ok) {task : String}
    (hq : p.taskQueues.get? task = none) :
    Ensured p task (p.ensureQueue task).1 (p.ensureQueue task).2 := by
  have heq : p.ensureQueue task = (p.queueCount, { p with
      taskQueues := p.taskQueues.set task p.queueCount
      orphanByTask := p.orphanByTask.erase task
      queues := Function.update p.queues p.queueCount ((p.orphanByTask.get? task).getD [])
      queueCount := p.queueCount + 1 }) := by
    simp [ensureQueue, makeQueue, hq, put]
  rw [heq]
  have hne : ∀ t q, p.taskQueues.get? t = some q → q ≠ p.queueCount :=
    fun t q ht => (h.made t q ht).ne
  refine ⟨⟨?_, ?_, ?_⟩, by simp, ?_, ?_, ?_, rfl⟩
  · intro t q ht
    rcases Dict.get?_set_eq_some.mp ht with ⟨-, rfl⟩ | ⟨-, hold⟩
    · exact Nat.lt_succ_self _
    · exact (h.made t q hold).trans (Nat.lt_succ_self _)
  · -- the new queue is numbered as no other is
    intro t t' q ht ht'
    rcases Dict.get?_set_eq_some.mp ht with ⟨rfl, rfl⟩ | ⟨-, hold⟩ <;>
      rcases Dict.get?_set_eq_some.mp ht' with ⟨rfl, hq'⟩ | ⟨-, hold'⟩
    · rfl
    · exact absurd rfl (hne t' _ hold')
    · exact absurd hq' (hne t _ hold)
    · exact h.own t t' q hold hold'
  · intro t q ht
    rcases Dict.get?_set_eq_some.mp ht with ⟨rfl, -⟩ | ⟨-, hold⟩
    · simp
    · simp [h.orphans t q hold]
  · intro t q ht
    have htask : t ≠ task := by
      rintro rfl
      rw [hq] at ht
      cases ht
    simpa [htask] using ht
  · intro t ht
    simp [ht]
  · intro t
    by_cases ht : t = task
    · subst ht
      -- the orphans of the task are the first items of its queue
      rw [waiting_of_none hq]
      simp [waiting]
    · cases hqt : p.taskQueues.get? t with
      | none => simp [waiting, ht, hqt]
      | some q => simp [waiting, ht, hqt, Function.update_of_ne (hne t q hqt)]

/-- `_ensure_queue` loses no mirror that waited. -/
theorem ensureQueue_spec {p : AgentPostman} (h : p.Ok) (task : String) :
    Ensured p task (p.ensureQueue task).1 (p.ensureQueue task).2 := by
  cases hq : p.taskQueues.get? task with
  | none => exact ensureQueue_of_none h hq
  | some q => exact ensureQueue_of_queue h hq

theorem resolve_tables (p : AgentPostman) (response : CallResponse) :
    (p.resolve response).taskQueues = p.taskQueues ∧
      (p.resolve response).orphanByTask = p.orphanByTask ∧
      (p.resolve response).queues = p.queues ∧
      (p.resolve response).queueCount = p.queueCount := by
  rw [resolve]
  split <;> exact ⟨rfl, rfl, rfl, rfl⟩

/-- Only tables and queues decide whether the tables are right, and what waits. -/
theorem Ok.congr {p p' : AgentPostman} (h : p.Ok) (hq : p'.taskQueues = p.taskQueues)
    (ho : p'.orphanByTask = p.orphanByTask) (hc : p'.queueCount = p.queueCount) : p'.Ok :=
  ⟨by rw [hq, hc]; exact h.made, by rw [hq]; exact h.own, by rw [hq, ho]; exact h.orphans⟩

theorem waiting_congr {p p' : AgentPostman} (hq : p'.taskQueues = p.taskQueues)
    (ho : p'.orphanByTask = p.orphanByTask) (hs : p'.queues = p.queues) (task : String) :
    p'.waiting task = p.waiting task := by
  rw [waiting, waiting, hq, ho, hs]

/-- The result of a future after a response: set if it was pending and is the one answered. -/
theorem get?_pendingResponses_resolve (p : AgentPostman) (response : CallResponse)
    (request : String) :
    (p.resolve response).pendingResponses.get? request
      = if request = response.request ∧ p.pendingResponses.get? request = some none
        then some (some response) else p.pendingResponses.get? request := by
  rw [resolve]
  split
  · rename_i hp
    by_cases hr : request = response.request
    · subst hr
      simp [hp]
    · simp [hr]
  · rename_i hp
    by_cases hr : request = response.request
    · subst hr
      rw [if_neg fun h => hp h.2]
    · rw [if_neg fun h => hr h.1]

/-- The result of a future after `handle_response`. -/
theorem get?_pendingResponses_handleResponse (p : AgentPostman) (response : CallResponse)
    (request : String) :
    (p.handleResponse response).pendingResponses.get? request
      = if request = response.request ∧ p.pendingResponses.get? request = some none
        then some (some response) else p.pendingResponses.get? request := by
  have hensure : ∀ task, (p.ensureQueue task).2.pendingResponses = p.pendingResponses := by
    intro task
    simp only [ensureQueue, makeQueue]
    split <;> rfl
  rw [handleResponse]
  split
  · rw [get?_pendingResponses_resolve, hensure]
  · exact get?_pendingResponses_resolve p response request

/-- `handle_response` moves no waiting mirror, and takes no queue away. -/
theorem handleResponse_spec {p : AgentPostman} (h : p.Ok) (response : CallResponse) :
    (p.handleResponse response).Ok ∧
      (∀ t q, p.taskQueues.get? t = some q →
        (p.handleResponse response).taskQueues.get? t = some q) ∧
      ∀ t, (p.handleResponse response).waiting t = p.waiting t := by
  rw [handleResponse]
  split
  · rename_i task _
    have he := ensureQueue_spec h task
    obtain ⟨hq, ho, hs, hc⟩ := resolve_tables (p.ensureQueue task).2 response
    refine ⟨he.ok.congr hq ho hc, ?_, ?_⟩
    · intro t q ht
      rw [hq]
      exact he.kept t q ht
    · intro t
      rw [waiting_congr hq ho hs, he.waits]
  · obtain ⟨hq, ho, hs, hc⟩ := resolve_tables p response
    refine ⟨h.congr hq ho hc, ?_, waiting_congr hq ho hs⟩
    intro t q ht
    rw [hq]
    exact ht

/-- `handle_execution_event` lets the mirror wait, behind those of its task, and moves no other. -/
theorem handleExecutionEvent_spec {p : AgentPostman} (h : p.Ok) (event : ExecutionEvent) :
    (p.handleExecutionEvent event).Ok ∧
      (p.handleExecutionEvent event).taskQueues = p.taskQueues ∧
      (p.handleExecutionEvent event).pendingResponses = p.pendingResponses ∧
      ∀ t, (p.handleExecutionEvent event).waiting t
        = p.waiting t ++ if event.task = t then [event] else [] := by
  cases hq : p.taskQueues.get? event.task with
  | some q =>
    have heq : p.handleExecutionEvent event = { p with
        lastSeq := p.lastSeq.set event.task event.seq
        queues := Function.update p.queues q (p.queues q ++ [event]) } := by
      simp [handleExecutionEvent, hq, put]
    rw [heq]
    refine ⟨h.congr rfl rfl rfl, rfl, rfl, fun t => ?_⟩
    by_cases ht : event.task = t
    · subst ht
      simp [waiting, hq]
    · cases hqt : p.taskQueues.get? t with
      | none => simp [waiting, hqt, ht]
      | some q' =>
        -- no two tasks have one queue
        have hne : q' ≠ q := fun heq => ht (h.own _ _ _ hq (heq ▸ hqt))
        simp [waiting, hqt, ht, Function.update_of_ne hne]
  | none =>
    have heq : p.handleExecutionEvent event = { p with
        lastSeq := p.lastSeq.set event.task event.seq
        orphanByTask := p.orphanByTask.set event.task
          ((p.orphanByTask.get? event.task).getD [] ++ [event]) } := by
      simp [handleExecutionEvent, hq]
    rw [heq]
    refine ⟨⟨h.made, h.own, fun t q ht => ?_⟩, rfl, rfl, fun t => ?_⟩
    · have hne : t ≠ event.task := by
        rintro rfl
        rw [hq] at ht
        cases ht
      simpa [hne] using h.orphans t q ht
    · by_cases ht : event.task = t
      · subst ht
        simp [waiting, hq]
      · simp [waiting, ht, Ne.symm ht]

/-- The `finally` of a call forgets its request, and its task if it has one; no other task's
queue or waiting mirrors change. -/
theorem cleanup_spec {p : AgentPostman} (h : p.Ok) (request reference : String)
    (task : Option String) :
    (p.cleanup request reference task).Ok ∧
      (∀ t, task ≠ some t →
        (p.cleanup request reference task).taskQueues.get? t = p.taskQueues.get? t ∧
        (p.cleanup request reference task).waiting t = p.waiting t) ∧
      (p.cleanup request reference task).pendingResponses = p.pendingResponses.erase request := by
  cases task with
  | none => exact ⟨h.congr rfl rfl rfl, fun t _ => ⟨rfl, rfl⟩, rfl⟩
  | some task =>
    refine ⟨⟨?_, ?_, ?_⟩, ?_, rfl⟩
    · intro t q ht
      exact h.made t q (Dict.get?_erase_eq_some.mp ht).2
    · intro t t' q ht ht'
      exact h.own t t' q (Dict.get?_erase_eq_some.mp ht).2 (Dict.get?_erase_eq_some.mp ht').2
    · intro t q ht
      simp [cleanup, h.orphans t q (Dict.get?_erase_eq_some.mp ht).2]
    · intro t ht
      have hne : t ≠ task := fun heq => ht (by rw [heq])
      simp [cleanup, waiting, hne]

end AgentPostman

end Rekuest
