import Rekuest.Client.Following

/-!
# The tables of the GraphQL postman

How each function of the postman moves the events of a task: those routed for it, those waiting in
the queue of its call, and those waiting for it to be bound.
-/

namespace Rekuest

open Backfill

namespace GraphQLPostman

/-- The events of a task that wait for it to be bound. -/
def orphans (p : GraphQLPostman) (task : String) : List TaskEventChange :=
  (p.orphanEventsByTask.get? task).getD []

/-- The events that wait in a queue. -/
def queued (p : GraphQLPostman) (queue : ℕ) : List TaskEventChange :=
  (p.queues queue).filterMap QueueItem.event?

variable {p : GraphQLPostman}

theorem queued_put (queue : ℕ) (items : List QueueItem) (q : ℕ) :
    (p.put queue items).queued q
      = p.queued q ++ if q = queue then items.filterMap QueueItem.event? else [] := by
  by_cases hq : q = queue
  · subst hq
    simp [queued, put, List.filterMap_append]
  · simp [queued, put, hq]

theorem queues_put (p : GraphQLPostman) (queue : ℕ) (items : List QueueItem) (q : ℕ) :
    p.queues q <+: (p.put queue items).queues q := by
  by_cases hq : q = queue
  · subst hq
    simp [put]
  · simp [put, hq]

theorem filterMap_event? (events : List TaskEventChange) :
    (events.map QueueItem.event).filterMap QueueItem.event? = events := by
  induction events with
  | nil => rfl
  | cons event events ih => simp [QueueItem.event?, ih]

/-- Two states of the tables that agree on everything but where events are. -/
structure SameTables (p p' : GraphQLPostman) : Prop where
  watching : p'.watching = p.watching
  feedLive : p'.feedLive = p.feedLive
  assUpdateQueues : p'.assUpdateQueues = p.assUpdateQueues
  taskToReference : p'.taskToReference = p.taskToReference
  referenceToTask : p'.referenceToTask = p.referenceToTask

theorem SameTables.refl (p : GraphQLPostman) : SameTables p p := ⟨rfl, rfl, rfl, rfl, rfl⟩

/-! ## Binding -/

theorem bind_tables (p : GraphQLPostman) (task reference : String) :
    SameTables { p with
      taskToReference := p.taskToReference.set task reference
      referenceToTask := p.referenceToTask.set reference task } (p.bind task reference) := by
  rw [bind]
  split <;> exact ⟨rfl, rfl, rfl, rfl, rfl⟩

@[simp] theorem routed_bind (p : GraphQLPostman) (task reference t : String) :
    (p.bind task reference).routed t = p.routed t := by
  rw [bind]
  split <;> rfl

theorem orphans_bind (p : GraphQLPostman) (task reference t : String) :
    (p.bind task reference).orphans t = if t = task then [] else p.orphans t := by
  have herase : ((p.orphanEventsByTask.erase task).get? t).getD []
      = if t = task then [] else p.orphans t := by
    rw [Dict.get?_erase]
    split <;> rfl
  rw [bind]
  split <;> exact herase

theorem queued_bind (p : GraphQLPostman) (task reference : String) (q : ℕ) :
    (p.bind task reference).queued q
      = p.queued q ++ if p.assUpdateQueues.get? reference = some q then p.orphans task else [] := by
  rw [bind]
  split
  · rename_i queue hqueue
    simp only at hqueue
    rw [queued_put, filterMap_event?, hqueue]
    by_cases hq : q = queue
    · subst hq
      rw [if_pos rfl, if_pos rfl]
      rfl
    · rw [if_neg hq, if_neg fun heq => hq (Option.some.inj heq).symm]
      rfl
  · rename_i hqueue
    simp only at hqueue
    rw [hqueue, if_neg (by simp), List.append_nil]
    rfl

theorem queues_bind (p : GraphQLPostman) (task reference : String) (q : ℕ) :
    p.queues q <+: (p.bind task reference).queues q := by
  rw [bind]
  split
  · exact queues_put _ _ _ q
  · exact List.prefix_refl _

/-! ## Routing -/

theorem route_of_mem {event : TaskEventChange} (h : event.id ∈ p.routed event.task) :
    p.route event = p := by
  rw [route, if_pos h]

theorem route_tables (p : GraphQLPostman) (event : TaskEventChange) :
    SameTables p (p.route event) := by
  rw [route]
  split
  · exact SameTables.refl p
  · simp only
    split <;> exact ⟨rfl, rfl, rfl, rfl, rfl⟩

theorem routed_route {event : TaskEventChange} (h : event.id ∉ p.routed event.task) (t : String) :
    (p.route event).routed t
      = if t = event.task then insert event.id (p.routed event.task) else p.routed t := by
  have hset :
      ((p.routedEventIds.set event.task (insert event.id (p.routed event.task))).get? t).getD ∅
        = if t = event.task then insert event.id (p.routed event.task) else p.routed t := by
    rw [Dict.get?_set]
    split <;> rfl
  rw [route, if_neg h]
  simp only
  split <;> exact hset

theorem queued_route {event : TaskEventChange} (h : event.id ∉ p.routed event.task) (q : ℕ) :
    (p.route event).queued q
      = p.queued q ++ if p.queueOf event.task = some q then [event] else [] := by
  have hsame : ∀ d, queueOf { p with routedEventIds := d } event.task = p.queueOf event.task :=
    fun _ => rfl
  rw [route, if_neg h]
  simp only [hsame]
  cases hqueue : p.queueOf event.task with
  | none => simp [queued]
  | some queue =>
    simp only
    rw [queued_put]
    by_cases hq : q = queue
    · subst hq
      simp [QueueItem.event?, queued]
    · rw [if_neg hq, if_neg fun heq => hq (Option.some.inj heq).symm]
      rfl

theorem orphans_route {event : TaskEventChange} (h : event.id ∉ p.routed event.task) (t : String) :
    (p.route event).orphans t
      = p.orphans t ++ if t = event.task ∧ p.queueOf event.task = none then [event] else [] := by
  have hsame : ∀ d, queueOf { p with routedEventIds := d } event.task = p.queueOf event.task :=
    fun _ => rfl
  rw [route, if_neg h]
  simp only [hsame]
  cases hqueue : p.queueOf event.task with
  | none =>
    simp only [orphans, Dict.get?_set]
    by_cases ht : t = event.task
    · subst ht
      simp
    · simp [ht]
  | some queue => simp [orphans, put]

theorem queues_route (p : GraphQLPostman) (event : TaskEventChange) (q : ℕ) :
    p.queues q <+: (p.route event).queues q := by
  rw [route]
  split
  · exact List.prefix_refl _
  · simp only
    split
    · exact queues_put _ _ _ q
    · exact List.prefix_refl _

theorem watching_handle (p : GraphQLPostman) (change : TaskChangeEvent) :
    (p.handle change).watching = p.watching := by
  have hcreate : (p.handleCreate change.create).watching = p.watching := by
    rw [handleCreate.eq_def]
    split
    · split
      · rfl
      · exact (bind_tables _ _ _).watching
    · rfl
    · rfl
  rw [handle, ← hcreate]
  cases change.event with
  | some event => exact (route_tables _ _).watching
  | none => rfl

/-! ## Catching up -/

theorem catchUp_of_none {task : String} (h : p.queueOf task = none)
    (history : List TaskEventChange) : p.catchUp task history = p := by
  rw [catchUp, h]

theorem catchUp_tables (p : GraphQLPostman) (task : String) (history : List TaskEventChange) :
    SameTables p (p.catchUp task history) := by
  rw [catchUp]
  split
  · exact SameTables.refl p
  · exact ⟨rfl, rfl, rfl, rfl, rfl⟩

@[simp] theorem orphans_catchUp (p : GraphQLPostman) (task : String)
    (history : List TaskEventChange) (t : String) :
    (p.catchUp task history).orphans t = p.orphans t := by
  rw [catchUp]
  split <;> rfl

theorem routed_catchUp_of_ne {task t : String} (h : t ≠ task) (history : List TaskEventChange) :
    (p.catchUp task history).routed t = p.routed t := by
  rw [catchUp]
  split
  · rfl
  · simp [routed, h]

theorem queued_catchUp_of_ne {task : String} {q : ℕ} (h : p.queueOf task ≠ some q)
    (history : List TaskEventChange) : (p.catchUp task history).queued q = p.queued q := by
  rw [catchUp]
  split
  · rfl
  · rename_i queue hqueue
    have hne : q ≠ queue := fun heq => h (hqueue.trans (congrArg some heq.symm))
    simp [queued, hne]

/-- What is missing in the queue is what was read and not handed over, if what was routed is what
was handed over and what waits. -/
theorem missing_eq {routed : Finset String} {waiting : List QueueItem}
    {handed : List TaskEventChange}
    (hnodup : ((handed ++ waiting.filterMap QueueItem.event?).map TaskEventChange.key).Nodup)
    (hrouted : ∀ k, k ∈ routed ↔
      k ∈ (handed ++ waiting.filterMap QueueItem.event?).map TaskEventChange.key)
    (history : List TaskEventChange) : missing routed waiting history
      = history.filter fun event => event.key ∉ handed.map TaskEventChange.key := by
  rw [List.map_append, List.nodup_append] at hnodup
  refine List.filter_congr fun event _ => decide_eq_decide.mpr (not_congr ?_)
  rw [Finset.mem_sdiff, hrouted, List.mem_toFinset, List.map_append, List.mem_append]
  change (event.key ∈ _ ∨ event.key ∈ _) ∧ event.key ∉ _ ↔ event.key ∈ _
  constructor
  · rintro ⟨hin | hin, hnot⟩
    · exact hin
    · exact absurd hin hnot
  · exact fun hin => ⟨Or.inl hin, fun hin' => hnodup.2.2 _ hin _ hin' rfl⟩

/-- Of the events that wait, those stay behind the history that it does not have. -/
theorem filterMap_staysBehind (history : List TaskEventChange) (waiting : List QueueItem) :
    (waiting.filter (staysBehind history)).filterMap QueueItem.event?
      = (waiting.filterMap QueueItem.event?).filter fun event =>
          event.key ∉ history.map TaskEventChange.key := by
  rw [List.filterMap_filter, List.filter_filterMap]
  apply List.filterMap_congr
  intro item _
  cases item with
  | feedLost reason => rfl
  | event event =>
    show (if decide (event.key ∉ history.map TaskEventChange.key) then some event else none)
      = (some event).filter fun event => event.key ∉ history.map TaskEventChange.key
    rw [Option.filter_some]

/-- `_acatch_up` puts the read in front of what waits for the call, if what was routed is what was
handed over and what waits. -/
theorem catchUp_spec {task : String} {q : ℕ} {handed : List TaskEventChange}
    (hqueue : p.queueOf task = some q)
    (hnodup : ((handed ++ p.queued q).map TaskEventChange.key).Nodup)
    (hrouted : ∀ k, k ∈ p.routed task ↔ k ∈ (handed ++ p.queued q).map TaskEventChange.key)
    (history : List TaskEventChange) :
    (p.catchUp task history).queued q
        = backfill TaskEventChange.key handed history (p.queued q) ∧
      (p.catchUp task history).routed task
        = p.routed task ∪ ((history.filter fun event =>
            event.key ∉ handed.map TaskEventChange.key).map TaskEventChange.key).toFinset := by
  have hmissing := missing_eq hnodup hrouted history
  rw [catchUp, hqueue]
  constructor
  · simp only [queued, Function.update_self, List.filterMap_append, filterMap_event?, hmissing,
      filterMap_staysBehind, backfill]
  · simp only [routed, Dict.get?_set, if_true, Option.getD_some]
    rw [show missing ((p.routedEventIds.get? task).getD ∅) (p.queues q) history = _ from hmissing]
    rfl

/-! ## A dying feed -/

/-- A feed that dies puts its marker behind every registered queue. -/
theorem queues_failPending (p : GraphQLPostman) (reason : String) (q : ℕ) :
    ∃ n, (p.failPending reason).queues q = p.queues q ++ List.replicate n (.feedLost reason)
      ∧ (q ∈ p.assUpdateQueues.values → 0 < n) := by
  have hfold : ∀ (l : List ℕ) (p : GraphQLPostman), ∃ n,
      (l.foldl (fun p queue => p.put queue [.feedLost reason]) p).queues q
        = p.queues q ++ List.replicate n (.feedLost reason) ∧ (q ∈ l → 0 < n) := by
    intro l
    induction l with
    | nil => exact fun p => ⟨0, by simp, by simp⟩
    | cons queue l ih =>
      intro p
      obtain ⟨n, hqueue, hpos⟩ := ih (p.put queue [.feedLost reason])
      rw [List.foldl_cons, hqueue]
      by_cases hq : q = queue
      · subst hq
        exact ⟨n + 1, by simp [put, List.replicate_succ], fun _ => Nat.succ_pos n⟩
      · exact ⟨n, by simp [put, hq], fun hmem => hpos ((List.mem_cons.mp hmem).resolve_left hq)⟩
  exact hfold _ _

/-- A feed that dies leaves the other tables. -/
theorem failPending_tables (p : GraphQLPostman) (reason : String) :
    SameTables { p with watching := false, feedLive := false } (p.failPending reason)
      ∧ (p.failPending reason).orphanEventsByTask = p.orphanEventsByTask := by
  have hfold : ∀ (l : List ℕ) (p : GraphQLPostman),
      SameTables p (l.foldl (fun p queue => p.put queue [.feedLost reason]) p)
        ∧ (l.foldl (fun p queue => p.put queue [.feedLost reason]) p).orphanEventsByTask
          = p.orphanEventsByTask := by
    intro l
    induction l with
    | nil => exact fun p => ⟨SameTables.refl p, rfl⟩
    | cons queue l ih =>
      intro p
      obtain ⟨⟨h₁, h₂, h₃, h₄, h₅⟩, horphans⟩ := ih (p.put queue [.feedLost reason])
      exact ⟨⟨h₁, h₂, h₃, h₄, h₅⟩, horphans⟩
  exact hfold _ _

/-! ## Cleaning up -/

/-- The clean-up of a reference leaves the other references and their tasks alone, and every
queue as it is. -/
theorem cleanupReference_spec (p : GraphQLPostman) (reference : String) :
    (p.cleanupReference reference).watching = p.watching ∧
      (p.cleanupReference reference).feedLive = p.feedLive ∧
      (p.cleanupReference reference).queues = p.queues ∧
      (∀ r, r ≠ reference →
        (p.cleanupReference reference).assUpdateQueues.get? r = p.assUpdateQueues.get? r) ∧
      (∀ t, p.referenceToTask.get? reference ≠ some t →
        (p.cleanupReference reference).taskToReference.get? t = p.taskToReference.get? t ∧
        (p.cleanupReference reference).routed t = p.routed t ∧
        (p.cleanupReference reference).orphans t = p.orphans t) := by
  rw [cleanupReference]
  cases hr : p.referenceToTask.get? reference with
  | none =>
    refine ⟨rfl, rfl, rfl, fun r hne => ?_, fun t _ => ⟨rfl, rfl, rfl⟩⟩
    simp [hne]
  | some tid =>
    refine ⟨rfl, rfl, rfl, fun r hne => ?_, fun t ht => ?_⟩
    · simp [hne]
    · have hne : t ≠ tid := fun heq => ht (congrArg some heq.symm)
      simp [routed, orphans, hne]

/-- What is left after a clean-up was there before. -/
theorem cleanupReference_sub (p : GraphQLPostman) (reference : String) :
    (∀ t r, (p.cleanupReference reference).taskToReference.get? t = some r →
        p.taskToReference.get? t = some r) ∧
      (∀ r t, (p.cleanupReference reference).referenceToTask.get? r = some t →
        p.referenceToTask.get? r = some t) ∧
      (∀ r q, (p.cleanupReference reference).assUpdateQueues.get? r = some q →
        p.assUpdateQueues.get? r = some q) ∧
      (∀ t, p.routed t = ∅ → (p.cleanupReference reference).routed t = ∅) ∧
      ∀ t, p.orphans t = [] → (p.cleanupReference reference).orphans t = [] := by
  rw [cleanupReference]
  cases hr : p.referenceToTask.get? reference with
  | none =>
    exact ⟨fun t r => id, fun r t => id, fun r q h => (Dict.get?_erase_eq_some.mp h).2,
      fun t => id, fun t => id⟩
  | some tid =>
    refine ⟨fun t r h => (Dict.get?_erase_eq_some.mp h).2,
      fun r t h => (Dict.get?_erase_eq_some.mp h).2, fun r q h => (Dict.get?_erase_eq_some.mp h).2,
      fun t ht => ?_, fun t ht => ?_⟩
    · by_cases hne : t = tid
      · simp [routed, hne]
      · simpa [routed, hne] using ht
    · by_cases hne : t = tid
      · simp [orphans, hne]
      · simpa [orphans, hne] using ht

end GraphQLPostman

end Rekuest
