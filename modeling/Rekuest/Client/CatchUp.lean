import Mathlib.Data.Finset.Lattice.Lemmas
import Rekuest.Client.CallStream
import Rekuest.Lib.StableMerge

/-!
# Catching up, loop by loop

`_acatch_up` empties the queue of a call and fills it again, from the history that was read and
from what waited. Its loops come to the tables that `catchUp` has at once, and what they leave in
the queue is the history merged into it: stable, without loss, and with nothing to add by a second
read of the same history, however much of the queue is taken in between.
-/

namespace Rekuest

open Runs StableMerge GraphQLPostman

/-- The key an item waits under: the id of its event. -/
def QueueItem.key? (item : QueueItem) : Option String := item.event?.map TaskEventChange.key

namespace GraphQLPostman

/-! ## The loops -/

/-- `while not queue.empty()`: the queue, and `waiting`. -/
def drain : List QueueItem → List QueueItem → List QueueItem × List QueueItem
  | [], waiting => ([], waiting)
  | item :: queue, waiting => drain queue (waiting ++ [item])

/-- `for event in history`: the routed ids and the queue, with an event that was not taken. -/
def handOn (taken : Finset String) (tables : Finset String × List QueueItem)
    (event : TaskEventChange) : Finset String × List QueueItem :=
  if event.id ∉ taken then (insert event.id tables.1, tables.2 ++ [.event event]) else tables

/-- `for item in waiting`: the queue, with a `_FeedLost` or an event that was not read. -/
def putBack (read : Finset String) (queue : List QueueItem) : QueueItem → List QueueItem
  | .feedLost reason => queue ++ [.feedLost reason]
  | .event event => if event.id ∉ read then queue ++ [.event event] else queue

/-- `_acatch_up`, from the answer to the read on. -/
def acatchUp (p : GraphQLPostman) (taskId : String) (history : List TaskEventChange) :
    GraphQLPostman :=
  match p.queueOf taskId with
  | none => p  -- the call ended while its history was read
  | some queue =>
    let drained := drain (p.queues queue) []
    let waiting := drained.2
    let waitingIds := (eventIds waiting).toFinset
    let routed := p.routed taskId
    let taken := routed \ waitingIds
    let read := (history.map fun event => event.id).toFinset
    let handed := history.foldl (handOn taken) (routed, drained.1)
    { p with
      routedEventIds := p.routedEventIds.set taskId handed.1
      queues := Function.update p.queues queue (waiting.foldl (putBack read) handed.2) }

/-- The postman once `n` items were taken from a queue. -/
def taken (p : GraphQLPostman) (queue n : ℕ) : GraphQLPostman :=
  { p with queues := Function.update p.queues queue ((p.queues queue).drop n) }

theorem drain_eq (queue waiting : List QueueItem) :
    drain queue waiting = ([], waiting ++ queue) := by
  induction queue generalizing waiting with
  | nil => rw [drain, List.append_nil]
  | cons item queue ih => rw [drain, ih, List.append_assoc, List.singleton_append]

theorem foldl_handOn (taken : Finset String) (history : List TaskEventChange)
    (routed : Finset String) (queue : List QueueItem) :
    history.foldl (handOn taken) (routed, queue)
      = (routed
          ∪ ((history.filter fun event => event.id ∉ taken).map fun event => event.id).toFinset,
        queue ++ (history.filter fun event => event.id ∉ taken).map .event) := by
  induction history generalizing routed queue with
  | nil => simp
  | cons event history ih =>
    rw [List.foldl_cons, handOn]
    by_cases htaken : event.id ∈ taken
    · rw [if_neg (not_not.mpr htaken), ih, List.filter_cons_of_neg (by simpa using htaken)]
    · rw [if_pos htaken, ih, List.filter_cons_of_pos (by simpa using htaken), List.map_cons,
        List.map_cons, List.toFinset_cons, Finset.union_insert, Finset.insert_union,
        List.append_assoc, List.singleton_append]

theorem foldl_putBack (history : List TaskEventChange) (waiting queue : List QueueItem) :
    waiting.foldl (putBack (history.map fun event => event.id).toFinset) queue
      = queue ++ waiting.filter (staysBehind history) := by
  induction waiting generalizing queue with
  | nil => simp
  | cons item waiting ih =>
    rw [List.foldl_cons, ih]
    cases item with
    | feedLost reason =>
      rw [putBack, List.filter_cons_of_pos rfl, List.append_assoc, List.singleton_append]
    | event event =>
      rw [putBack]
      by_cases hread : event.id ∈ history.map fun event => event.id
      · rw [if_neg (not_not.mpr (List.mem_toFinset.mpr hread)),
          List.filter_cons_of_neg (by simpa [staysBehind] using hread)]
      · rw [if_pos (mt List.mem_toFinset.mp hread),
          List.filter_cons_of_pos (by simpa [staysBehind] using hread), List.append_assoc,
          List.singleton_append]

/-- The loops of `_acatch_up` come to what `catchUp` says at once. -/
theorem acatchUp_eq_catchUp (p : GraphQLPostman) (taskId : String)
    (history : List TaskEventChange) : p.acatchUp taskId history = p.catchUp taskId history := by
  rw [acatchUp, catchUp]
  cases p.queueOf taskId with
  | none => rfl
  | some queue =>
    simp only [drain_eq, List.nil_append, foldl_handOn, foldl_putBack, missing]

/-! ## The queue as a merge -/

theorem eventIds_eq_keys (items : List QueueItem) : eventIds items = keys QueueItem.key? items := by
  unfold eventIds keys
  rw [List.map_filterMap]
  rfl

theorem key?_event (event : TaskEventChange) : (QueueItem.event event).key? = some event.key := rfl

theorem isNone_event? :
    (fun item : QueueItem => item.event?.isNone) = fun item => decide (item.key? = none) := by
  funext item
  cases item <;> rfl

/-- What waits and was not read, by the ids of the events. -/
theorem filter_unread_eq_behind (history : List TaskEventChange) (waiting : List QueueItem) :
    (waiting.filter fun item =>
        ∀ event ∈ item.event?, event.id ∉ history.map fun event => event.id)
      = behind TaskEventChange.key QueueItem.key? history waiting := by
  unfold behind
  apply List.filter_congr
  intro item _
  apply decide_eq_decide.mpr
  rw [QueueItem.key?, Option.forall_mem_map]
  rfl

/-- What is handed on, beside what was routed before, is as good as the whole history. -/
theorem union_missing (routed : Finset String) (waiting : List QueueItem)
    (history : List TaskEventChange) :
    routed ∪ ((missing routed waiting history).map fun event => event.id).toFinset
      = routed ∪ (history.map TaskEventChange.key).toFinset := by
  apply Finset.ext
  intro k
  rw [Finset.mem_union, Finset.mem_union, List.mem_toFinset, List.mem_toFinset]
  constructor
  · intro h
    refine h.imp_right fun hin => ?_
    exact (List.filter_sublist.map TaskEventChange.key).subset hin
  · intro h
    -- what was read and is not handed on was taken, so it is routed
    refine or_iff_not_imp_left.mpr fun hrouted => ?_
    obtain ⟨event, hevent, rfl⟩ := List.mem_map.mp (h.resolve_left hrouted)
    refine List.mem_map_of_mem (List.mem_filter.mpr ⟨hevent, decide_eq_true fun htaken => ?_⟩)
    exact hrouted (Finset.mem_sdiff.mp htaken).1

theorem missing_eq_fresh (routed : Finset String) (waiting : List QueueItem)
    (history : List TaskEventChange) : missing routed waiting history
      = fresh TaskEventChange.key QueueItem.key? routed waiting history := by
  unfold missing fresh
  apply List.filter_congr
  intro event _
  apply decide_eq_decide.mpr
  rw [Finset.mem_sdiff, List.mem_toFinset, eventIds_eq_keys, not_and_or, not_not, or_comm]
  rfl

theorem filter_staysBehind_eq_behind (history : List TaskEventChange) (waiting : List QueueItem) :
    waiting.filter (staysBehind history)
      = behind TaskEventChange.key QueueItem.key? history waiting := by
  rw [← filter_unread_eq_behind]
  congr 1
  funext item
  cases item with
  | feedLost reason => simp [staysBehind, QueueItem.event?]
  | event event => simp [staysBehind, QueueItem.event?]

variable {p : GraphQLPostman} {task : String} {queue : ℕ} {history : List TaskEventChange}

/-- `_acatch_up` merges the history into the queue, and its ids into those that are routed. -/
theorem catchUp_eq_merge (hqueue : p.queueOf task = some queue) (history : List TaskEventChange) :
    p.catchUp task history = { p with
      routedEventIds := p.routedEventIds.set task
        (p.routed task ∪ (history.map TaskEventChange.key).toFinset)
      queues := Function.update p.queues queue
        (merge TaskEventChange.key QueueItem.key? .event (p.routed task) (p.queues queue)
          history) } := by
  rw [catchUp, hqueue, merge, ← missing_eq_fresh, ← filter_staysBehind_eq_behind, ← union_missing]

/-- With a history that is routed and has nothing to add to the queue, nothing changes. -/
theorem catchUp_eq_self {ids : Finset String} (hqueue : p.queueOf task = some queue)
    (hids : p.routedEventIds.get? task = some ids)
    (hread : (history.map TaskEventChange.key).toFinset ⊆ ids)
    (hmerge : merge TaskEventChange.key QueueItem.key? .event ids (p.queues queue) history
      = p.queues queue) : p.catchUp task history = p := by
  have hrouted : p.routed task = ids := by
    rw [routed, hids, Option.getD_some]
  rw [catchUp_eq_merge hqueue, hrouted, hmerge, Finset.union_eq_left.mpr hread,
    Dict.set_of_get?_eq_some hids, Function.update_eq_self]

/-- However much of the queue was taken since, the same history changes nothing again. -/
theorem catchUp_taken (hqueue : p.queueOf task = some queue)
    (hhistory : (history.map TaskEventChange.key).Nodup) (n : ℕ) :
    ((p.catchUp task history).taken queue n).catchUp task history
      = (p.catchUp task history).taken queue n := by
  rw [catchUp_eq_merge hqueue, taken]
  set ids := p.routed task ∪ (history.map TaskEventChange.key).toFinset with hids
  have hget : (p.routedEventIds.set task ids).get? task = some ids := by
    rw [Dict.get?_set, if_pos rfl]
  refine catchUp_eq_self (hqueue : _ = some queue) hget Finset.subset_union_right ?_
  simp only [Function.update_self]
  apply merge_of_sublist key?_event hhistory
  · intro event hevent
    exact Finset.mem_union_right _ (List.mem_toFinset.mpr (List.mem_map_of_mem hevent))
  · exact List.drop_sublist _ _

/-- What `_acatch_up` makes of the routed ids of a task and of the queue of its call. -/
structure Merges (p p' : GraphQLPostman) (task : String) (queue : ℕ)
    (history : List TaskEventChange) : Prop where
  /-- The events that wait or were never routed, then what waits and was not read. -/
  merged : p'.queues queue
    = (history.filter fun event =>
        event.id ∈ eventIds (p.queues queue) ∨ event.id ∉ p.routed task).map .event
      ++ (p.queues queue).filter fun item =>
        ∀ event ∈ item.event?, event.id ∉ history.map fun event => event.id
  nodup : (eventIds (p'.queues queue)).Nodup
  /-- An item stays, or the event that was read under its id is there instead. -/
  kept : ∀ item ∈ p.queues queue, item ∈ p'.queues queue ∨
    ∃ event ∈ history, (item.event?.map fun event => event.id) = some event.id ∧
      .event event ∈ p'.queues queue
  /-- Every `_FeedLost` stays. -/
  lost : (p'.queues queue).filter (fun item => item.event?.isNone)
    = (p.queues queue).filter fun item => item.event?.isNone
  taken : ∀ id ∈ p.routed task, id ∉ eventIds (p.queues queue) → id ∉ eventIds (p'.queues queue)
  routed : p'.routed task = p.routed task ∪ (history.map fun event => event.id).toFinset
  again : ∀ n, (p'.taken queue n).acatchUp task history = p'.taken queue n

/-- Whatever waits in the queue of a call, was routed for its task and is read of it: `_acatch_up`
merges the history into the queue, stably and without loss, and has nothing to do a second time. -/
theorem acatchUp_merges (hqueue : p.queueOf task = some queue)
    (hwaiting : (eventIds (p.queues queue)).Nodup)
    (hhistory : (history.map fun event => event.id).Nodup) :
    Merges p (p.acatchUp task history) task queue history := by
  rw [eventIds_eq_keys] at hwaiting
  have hqueues : (p.acatchUp task history).queues queue
      = merge TaskEventChange.key QueueItem.key? .event (p.routed task) (p.queues queue)
        history := by
    rw [acatchUp_eq_catchUp, catchUp_eq_merge hqueue]
    exact Function.update_self _ _ _
  constructor
  case merged =>
    rw [hqueues, merge, fresh, ← eventIds_eq_keys, ← filter_unread_eq_behind]
    rfl
  case nodup =>
    rw [hqueues, eventIds_eq_keys]
    exact nodup_keys_merge key?_event hwaiting hhistory
  case kept =>
    intro item hitem
    rw [hqueues]
    exact mem_merge_of_mem hitem
  case lost =>
    rw [hqueues, isNone_event?]
    exact filter_unkeyed_merge key?_event
  case taken =>
    intro id hrouted hwaits
    rw [eventIds_eq_keys] at hwaits
    rw [hqueues, eventIds_eq_keys]
    exact not_mem_keys_merge key?_event hrouted hwaits
  case routed =>
    rw [acatchUp_eq_catchUp, catchUp_eq_merge hqueue]
    show ((p.routedEventIds.set _ _).get? task).getD ∅ = _
    rw [Dict.get?_set, if_pos rfl, Option.getD_some]
    rfl
  case again =>
    intro n
    rw [acatchUp_eq_catchUp, acatchUp_eq_catchUp]
    exact catchUp_taken hqueue hhistory n

/-- A call that took `e1`, with `e3`, the end of the feed and `e4` in its queue. -/
def tookFirst : GraphQLPostman := { new with
  assUpdateQueues := Dict.set ∅ "r" 0
  taskToReference := Dict.set ∅ "t" "r"
  referenceToTask := Dict.set ∅ "r" "t"
  routedEventIds := Dict.set ∅ "t" {"e1", "e3", "e4"}
  queues := Function.update (fun _ => []) 0
    [.event (PostmanWorld.eventOf "e3"), .feedLost "gone", .event (PostmanWorld.eventOf "e4")] }

/-- The history it reads, without `e4` as yet. -/
def staleHistory : List TaskEventChange := ["e1", "e2", "e3"].map PostmanWorld.eventOf

theorem acatchUp_merges_tookFirst :
    Merges tookFirst (tookFirst.acatchUp "t" staleHistory) "t" 0 staleHistory ∧
      eventIds ((tookFirst.acatchUp "t" staleHistory).queues 0) = ["e2", "e3", "e4"] :=
  ⟨acatchUp_merges rfl (by decide) (by decide), by decide⟩

end GraphQLPostman

namespace PostmanWorld

/-! ## In a run -/

/-- A read that succeeds is followed by the loops of `_acatch_up`. -/
theorem afterRead_eq_acatchUp (w : PostmanWorld) (task : String) (read : TaskEvents) :
    w.afterRead task (some read) true
      = some { w with postman := w.postman.acatchUp task read.areadEvents } := by
  rw [acatchUp_eq_catchUp]
  rfl

/-- A call that takes an item has the rest of its queue in front of it. -/
theorem postman_pop {w u : PostmanWorld} {queue : ℕ} {item : QueueItem}
    (h : w.pop queue = some (item, u)) : u.postman = w.postman.taken queue 1 := by
  obtain ⟨items, hitems, rfl⟩ := pop_eq_some h
  unfold taken
  rw [hitems, List.drop_one, List.tail_cons]

variable {p : GraphQLPostman} {calls : Dict ℕ AssignCall} {polls : Dict ℕ Poll} {s : TaskServer}
  {held : List TaskChangeEvent} {todo : List String} {id : ℕ} {c : AssignCall} {task : String}

/-- In the queue of a call that follows its task, events have distinct ids. -/
theorem KeptAt.waiting (h : KeptAt p calls polls s held todo) (hc : calls.get? id = some c)
    (hown : s.Own id task) (hstage : c.phase.stage.isSome) : (eventIds (p.queues id)).Nodup := by
  obtain ⟨stage, hstage⟩ := Option.isSome_iff_exists.mp hstage
  have hf := (h.call id c hc).follows task stage hown hstage
  have hqueued : (p.queued id).Sublist ((view p s held todo id task).known c.handed) := by
    unfold TaskView.known
    apply List.Sublist.trans (List.sublist_append_right c.handed _)
    exact List.sublist_append_left _ _
  exact (hf.nodup (h.server.ok id task)).sublist (hqueued.map TaskEventChange.key)

/-- In every run, a read that ends for a task whose call takes events merges what was read into
the call's queue, where the ids stay distinct; and the same read again, with an item taken in
between, changes nothing. -/
theorem read_merges {acts : List PostmanAct} {w : PostmanWorld}
    (hmeets : Meets step Assumed start acts) (hrun : exec step start acts = some w)
    (hc : w.calls.get? id = some c) (hstage : c.phase.stage.isSome)
    (hqueue : w.postman.queueOf task = some id) {read : TaskEvents}
    (hread : read.areadEvents <+: w.server.historyOf task) :
    ∃ u, w.afterRead task (some read) true = some u ∧
      u.postman.queues id = merge TaskEventChange.key QueueItem.key? .event (w.postman.routed task)
        (w.postman.queues id) read.areadEvents ∧
      (eventIds (u.postman.queues id)).Nodup ∧
      ∀ item v, u.pop id = some (item, v) → v.afterRead task (some read) true = some v := by
  have h := kept_of_run hmeets hrun
  have hdistinct := h.kept.waiting hc (h.kept.own_of_queueOf hqueue) hstage
  have hhistory : (read.areadEvents.map TaskEventChange.key).Nodup :=
    (h.kept.server.nodup task).sublist (hread.sublist.map TaskEventChange.key)
  have hqueues : (w.postman.catchUp task read.areadEvents).queues id
      = merge TaskEventChange.key QueueItem.key? .event (w.postman.routed task)
        (w.postman.queues id) read.areadEvents := by
    rw [catchUp_eq_merge hqueue]
    exact Function.update_self _ _ _
  refine ⟨_, afterRead_eq_acatchUp w task read, ?_, ?_, fun item v hpop => ?_⟩
  · rw [acatchUp_eq_catchUp]
    exact hqueues
  · rw [acatchUp_eq_catchUp, hqueues, eventIds_eq_keys]
    rw [eventIds_eq_keys] at hdistinct
    exact nodup_keys_merge key?_event hdistinct hhistory
  · have hv := postman_pop hpop
    rw [afterRead_eq_acatchUp, acatchUp_eq_catchUp, hv, acatchUp_eq_catchUp,
      catchUp_taken hqueue hhistory, ← acatchUp_eq_catchUp, ← hv]

end PostmanWorld

end Rekuest
