import Rekuest.Client.Tables

/-!
# What the GraphQL postman keeps

Every call that hands over events follows the task its assign created, whatever the feed delivers
and the reads return. The invariant is stated of a point in `watch_tasks`, with the change it holds
and the tasks it has yet to catch up, and kept by the events of the server, by `watch_tasks` and by
reads.
-/

namespace Rekuest

open Runs Backfill GraphQLPostman

/-- How far a call is that hands over events. -/
def AssignPhase.stage : AssignPhase → Option Stage
  | .assigning => some .assigning
  | .catchingUp _ read => some (.reading (read.map TaskEvents.areadEvents))
  | .streaming _ | .suspended _ => some .streaming
  | .assignedDespiteCancel | .confirming _ _ | .ended _ => none

/-- The task a call knows it has. -/
def AssignPhase.task : AssignPhase → Option String
  | .catchingUp task _ | .streaming task | .suspended task | .confirming task _ => some task
  | .assigning | .assignedDespiteCancel | .ended _ => none

/-- A call that hands over events knows its task, unless it still waits for it. -/
theorem AssignPhase.assigning_or_task {phase : AssignPhase} {stage : Stage}
    (h : phase.stage = some stage) : stage = .assigning ∨ ∃ t, phase.task = some t := by
  cases phase <;> cases h
  · exact Or.inl rfl
  all_goals exact Or.inr ⟨_, rfl⟩

/-- The task a reading task reads for. -/
def Poll.task : Poll → String
  | .sleeping task | .reading task _ => task

/-- The server's answer to the read under way. -/
def Poll.read : Poll → Option TaskEvents
  | .sleeping _ => none
  | .reading _ read => read

/-- The change `watch_tasks` took from the feed and did not handle yet. -/
def Watch.held : Watch → List TaskChangeEvent
  | .catchingUp _ _ _ change => [change]
  | .off | .idle => []

/-- The tasks `watch_tasks` has yet to catch up. -/
def Watch.todo : Watch → List String
  | .catchingUp task todo _ _ => task :: todo
  | .off | .idle => []

namespace TaskServer

/-- How many events a task reported before the feed was subscribed, so far if it is not. -/
def missed (s : TaskServer) (task : String) : ℕ :=
  ((s.log.take (s.subscribed.getD s.log.length)).filter fun event => event.task = task).length

/-- The events of a task that are still to be routed, with `held` taken from the feed. -/
def pending (s : TaskServer) (held : List TaskChangeEvent) (task : String) :
    List TaskEventChange :=
  ((held ++ s.feed).filterMap TaskChangeEvent.event).filter fun event => event.task = task

/-- The call's assign created the task. -/
def Own (s : TaskServer) (id : ℕ) (task : String) : Prop :=
  ∃ reference, s.created.get? task = some ⟨reference, some id⟩

/-- One assign created a task. -/
theorem Own.unique {s : TaskServer} {id id' : ℕ} {task : String} (h : s.Own id task)
    (h' : s.Own id' task) : id = id' := by
  obtain ⟨reference, hcreated⟩ := h
  obtain ⟨reference', hcreated'⟩ := h'
  have hentry := Option.some.inj (hcreated.symm.trans hcreated')
  exact Option.some.inj (congrArg CreatedTask.assign hentry)

/-- A read returns the events of the task. -/
theorem areadEvents_taskEvents (s : TaskServer) (task : String) :
    (s.taskEvents task).areadEvents = s.historyOf task := by
  simp only [TaskEvents.areadEvents, taskEvents, List.map_map]
  refine (List.map_congr_left fun event hevent => ?_).trans (List.map_id _)
  have htask : event.task = task := by simpa using (List.mem_filter.mp hevent).2
  subst htask
  rfl

/-- Publishing a change lets the feed deliver it, and changes nothing else. -/
theorem pending_publish (s : TaskServer) (change : TaskChangeEvent) (held : List TaskChangeEvent)
    (t : String) : (s.publish change).pending held t = s.pending held t ++
      if s.subscribed.isSome then change.event.toList.filter fun event => event.task = t
        else [] := by
  rw [publish, pending, pending]
  cases s.subscribed.isSome with
  | false => simp
  | true =>
    rw [if_pos rfl, if_pos rfl, ← List.append_assoc, List.filterMap_append, List.filter_append]
    cases hevent : change.event <;> simp [hevent]

/-- What the feed is to deliver was to be delivered before, or has just been published. -/
theorem mem_publish {s : TaskServer} {change published : TaskChangeEvent}
    {held : List TaskChangeEvent} (h : change ∈ held ++ (s.publish published).feed) :
    change ∈ held ++ s.feed ∨ change = published := by
  rcases List.mem_append.mp h with hheld | hfeed
  · exact Or.inl (List.mem_append_left _ hheld)
  · rw [publish] at hfeed
    split at hfeed
    · rcases List.mem_append.mp hfeed with hfeed | hnew
      · exact Or.inl (List.mem_append_right _ hfeed)
      · exact Or.inr (List.mem_singleton.mp hnew)
    · exact Or.inl (List.mem_append_right _ hfeed)

theorem feed_publish_of_unsubscribed {s : TaskServer} (h : s.subscribed = none)
    (change : TaskChangeEvent) : (s.publish change).feed = s.feed := by
  simp [publish, h]

theorem get?_created_create (s : TaskServer) (t : String) (entry : CreatedTask) (t' : String) :
    (s.create t entry).created.get? t' = if t' = t then some entry else s.created.get? t' := by
  rw [create, publish]
  exact Dict.get?_set _ _ _ _

/-- Creating a task lets the feed deliver nothing that is routed. -/
theorem pending_create (s : TaskServer) (t : String) (entry : CreatedTask)
    (held : List TaskChangeEvent) (t' : String) :
    (s.create t entry).pending held t' = s.pending held t' := by
  rw [create, pending_publish]
  simp [pending]

/-- A task that was created before stays what it is. -/
theorem created_create {s : TaskServer} {t : String} (hnew : s.created.get? t = none)
    (entry : CreatedTask) {t' : String} {entry' : CreatedTask}
    (h : s.created.get? t' = some entry') : (s.create t entry).created.get? t' = some entry' := by
  rw [create, publish]
  exact Dict.get?_set_of_new hnew entry h

theorem own_create {s : TaskServer} {t : String} (hnew : s.created.get? t = none)
    (r : Option String) (assign : Option ℕ) (id : ℕ) (t' : String) :
    (s.create t ⟨r, assign⟩).Own id t' ↔ s.Own id t' ∨ assign = some id ∧ t' = t := by
  simp only [Own, get?_created_create]
  by_cases ht : t' = t
  · subst ht
    simp [hnew]
  · simp [ht]

theorem historyOf_report (s : TaskServer) (event : TaskEventChange) (t : String) :
    (s.report event).historyOf t = s.historyOf t ++ if event.task = t then [event] else [] := by
  by_cases ht : event.task = t <;> simp [report, publish, historyOf, List.filter_append, ht]

theorem pending_report (s : TaskServer) (event : TaskEventChange) (held : List TaskChangeEvent)
    (t : String) : (s.report event).pending held t
      = s.pending held t ++ if s.subscribed.isSome ∧ event.task = t then [event] else [] := by
  rw [report, pending_publish]
  by_cases ht : event.task = t <;> by_cases hs : s.subscribed.isSome <;> simp [ht, hs, pending]

theorem missed_of_unsubscribed {s : TaskServer} (h : s.subscribed = none) (t : String) :
    s.missed t = (s.historyOf t).length := by
  simp [missed, h, historyOf]

theorem missed_report {s : TaskServer} (h : ∀ n, s.subscribed = some n → n ≤ s.log.length)
    (event : TaskEventChange) (t : String) : (s.report event).missed t
      = if s.subscribed.isSome then s.missed t else ((s.report event).historyOf t).length := by
  cases hs : s.subscribed with
  | none => exact missed_of_unsubscribed (s := s.report event) hs t
  | some n =>
    have hle := h n hs
    simp [missed, report, publish, hs, List.take_append_of_le_length hle]

end TaskServer

namespace PostmanWorld

/-- What the tables and the server are to a call. -/
def view (p : GraphQLPostman) (s : TaskServer) (held : List TaskChangeEvent) (todo : List String)
    (id : ℕ) (task : String) : TaskView where
  log := s.historyOf task
  missed := s.missed task
  delivered := (s.historyOf task).length - (s.pending held task).length
  live := p.feedLive
  behind := decide (task ∈ todo)
  bound := (p.taskToReference.get? task).isSome
  routed := p.routed task
  orphans := p.orphans task
  queued := p.queued id

/-- What holds of the server and its feed. -/
structure ServerKept (s : TaskServer) (live : Bool) (held : List TaskChangeEvent)
    (todo : List String) : Prop where
  nodup : ∀ t, ((s.historyOf t).map TaskEventChange.key).Nodup
  pending : ∀ t, s.pending held t <:+ s.historyOf t
  missed : ∀ t, s.missed t + (s.pending held t).length ≤ (s.historyOf t).length
  waits : live = false ∨ todo ≠ [] →
    ∀ t, s.missed t + (s.pending held t).length = (s.historyOf t).length
  subscribed : ∀ n, s.subscribed = some n → n ≤ s.log.length
  live : live = true → s.subscribed.isSome
  unsubscribed : s.subscribed = none → held = [] ∧ s.feed = []
  reported : ∀ t, s.created.get? t = none → s.historyOf t = []
  creates : ∀ change ∈ held ++ s.feed, ∀ t reference, change.create = some ⟨t, reference⟩ →
    ∃ assign, s.created.get? t = some ⟨reference, assign⟩

/-- What holds of the tables, whatever waits in the queues. -/
structure TablesKept (p : GraphQLPostman) (calls : Dict ℕ AssignCall) (s : TaskServer)
    (todo : List String) : Prop where
  bound : ∀ t r, p.taskToReference.get? t = some r →
    ∃ assign, s.created.get? t = some ⟨some r, assign⟩
  back : ∀ r t, p.referenceToTask.get? r = some t →
    ∃ assign, s.created.get? t = some ⟨some r, assign⟩
  queue : ∀ r q, p.assUpdateQueues.get? r = some q → ∃ c, calls.get? q = some c ∧ c.reference = r
  unknown : ∀ t, s.created.get? t = none → p.routed t = ∅ ∧ p.orphans t = [] ∧ t ∉ todo
  todo : todo.Nodup

/-- Calls and created tasks go by distinct references. -/
structure Referenced (calls : Dict ℕ AssignCall) (s : TaskServer) : Prop where
  assigned : ∀ t r id, s.created.get? t = some ⟨r, some id⟩ →
    ∃ c, calls.get? id = some c ∧ r = some c.reference
  once : ∀ t t' id, s.Own id t → s.Own id t' → t = t'
  references : ∀ id id' c c', calls.get? id = some c → calls.get? id' = some c' →
    c.reference = c'.reference → id = id'
  foreign : ∀ t assign id c, calls.get? id = some c →
    s.created.get? t = some ⟨some c.reference, assign⟩ → assign = some id

/-- What holds of a call: until it is cancelled or ends, it follows its task. -/
structure CallKept (p : GraphQLPostman) (s : TaskServer) (held : List TaskChangeEvent)
    (todo : List String) (id : ℕ) (c : AssignCall) : Prop where
  task : ∀ t, c.phase.task = some t ∨ c.task = some t → s.Own id t
  untold : c.task = none → c.phase.task = none ∧ c.handed = []
  unassigned : (∀ t, ¬ s.Own id t) → c.handed = [] ∧ p.queued id = []
  handed : ∀ t, s.Own id t → c.handed <+: s.historyOf t
  registered : c.phase.stage.isSome → p.assUpdateQueues.get? c.reference = some id
  follows : ∀ t stage, s.Own id t → c.phase.stage = some stage →
    (view p s held todo id t).Follows c.handed stage
  wasLive : c.feedWasLive = true → p.feedLive = true ∧ ∀ t, s.Own id t → s.missed t = 0

/-- What holds of a reading task: it reads for a call that takes events, if that call still does. -/
structure PollKept (calls : Dict ℕ AssignCall) (s : TaskServer) (id : ℕ) (poll : Poll) : Prop where
  own : s.Own id poll.task
  call : ∃ c, calls.get? id = some c ∧ ∀ stage, c.phase.stage = some stage → stage = .streaming
  read : ∀ r, poll.read = some r → r.areadEvents <+: s.historyOf poll.task

/-- What holds with `held` taken from the feed and `todo` to catch up. -/
structure KeptAt (p : GraphQLPostman) (calls : Dict ℕ AssignCall) (polls : Dict ℕ Poll)
    (s : TaskServer) (held : List TaskChangeEvent) (todo : List String) : Prop where
  server : ServerKept s p.feedLive held todo
  tables : TablesKept p calls s todo
  referenced : Referenced calls s
  call : ∀ id c, calls.get? id = some c → CallKept p s held todo id c
  poll : ∀ id poll, polls.get? id = some poll → PollKept calls s id poll

/-- What the postman keeps. -/
structure Kept (w : PostmanWorld) : Prop where
  kept : KeptAt w.postman w.calls w.polls w.server w.watch.held w.watch.todo
  live : w.watch.held ≠ [] → w.postman.feedLive = true
  off : w.postman.watching = false →
    w.watch = .off ∧ w.server.subscribed = none ∧ w.server.feed = []
  read : ∀ t todo r change, w.watch = .catchingUp t todo (some r) change →
    r.areadEvents <+: w.server.historyOf t ∧ w.server.missed t ≤ r.areadEvents.length

variable {p p' : GraphQLPostman} {calls calls' : Dict ℕ AssignCall} {polls polls' : Dict ℕ Poll}
  {s s' : TaskServer} {held held' : List TaskChangeEvent} {todo todo' : List String}
  {id : ℕ} {c : AssignCall} {t : String}

/-- The first item of a queue, and the world without it. -/
theorem pop_eq_some {w u : PostmanWorld} {id : ℕ} {item : QueueItem}
    (h : w.pop id = some (item, u)) :
    ∃ items, w.postman.queues id = item :: items ∧ u = { w with postman :=
      { w.postman with queues := Function.update w.postman.queues id items } } := by
  rw [pop.eq_def] at h
  split at h
  · cases h
  · rename_i item' items hqueue
    obtain ⟨rfl, rfl⟩ := Prod.mk.inj (Option.some.inj h)
    exact ⟨items, hqueue, rfl⟩

theorem ServerKept.ok (h : ServerKept s p.feedLive held todo) (id : ℕ) (t : String) :
    (view p s held todo id t).Ok where
  nodup := h.nodup t
  missed := by
    have := h.missed t
    simp only [view]
    omega
  delivered := Nat.sub_le _ _
  waits := by
    intro hwaits
    have := h.waits
      (hwaits.imp_right fun hbehind => List.ne_nil_of_mem (of_decide_eq_true hbehind)) t
    simp only [view]
    omega

/-- Of the server, only the created tasks decide whether the tables are right. -/
theorem TablesKept.of_created (h : TablesKept p calls s todo) (hcreated : s'.created = s.created) :
    TablesKept p calls s' todo :=
  ⟨by rw [hcreated]; exact h.bound, by rw [hcreated]; exact h.back, h.queue,
    by rw [hcreated]; exact h.unknown, h.todo⟩

/-- Of the tables, only what is routed and what waits for a bind may differ. -/
theorem TablesKept.of_same (h : TablesKept p calls s todo) (hsame : p.SameTables p')
    (hunknown : ∀ t, s.created.get? t = none → p'.routed t = ∅ ∧ p'.orphans t = [] ∧ t ∉ todo) :
    TablesKept p' calls s todo :=
  ⟨by rw [hsame.taskToReference]; exact h.bound, by rw [hsame.referenceToTask]; exact h.back,
    by rw [hsame.assUpdateQueues]; exact h.queue, hunknown, h.todo⟩

/-- Only created tasks are bound. -/
theorem TablesKept.unbound (h : TablesKept p calls s todo) (hnew : s.created.get? t = none) :
    p.taskToReference.get? t = none := by
  rw [Option.eq_none_iff_forall_ne_some]
  intro r hr
  obtain ⟨assign, hassign⟩ := h.bound t r hr
  rw [hnew] at hassign
  cases hassign

theorem Referenced.of_created (h : Referenced calls s) (hcreated : s'.created = s.created) :
    Referenced calls s' := by
  have hown : ∀ id t, s'.Own id t ↔ s.Own id t := fun id t => by
    rw [TaskServer.Own, hcreated, TaskServer.Own]
  refine ⟨by rw [hcreated]; exact h.assigned, fun t t' id ht ht' => ?_, h.references,
    by rw [hcreated]; exact h.foreign⟩
  exact h.once t t' id ((hown id t).mp ht) ((hown id t').mp ht')

/-- A feed that has something to deliver is subscribed. -/
theorem ServerKept.subscribed_of_feed {live : Bool} (h : ServerKept s live held todo)
    {change : TaskChangeEvent} {feed : List TaskChangeEvent} (hfeed : s.feed = change :: feed) :
    s.subscribed.isSome := by
  rw [Option.isSome_iff_ne_none]
  intro hnone
  have hnil := (h.unsubscribed hnone).2
  rw [hfeed] at hnil
  cases hnil

/-! ## Whose task it is -/

/-- A task that is bound to the reference of a call was created by its assign. -/
theorem KeptAt.own_of_bound (h : KeptAt p calls polls s held todo) (hc : calls.get? id = some c)
    (hbound : p.taskToReference.get? t = some c.reference) : s.Own id t := by
  obtain ⟨assign, hassign⟩ := h.tables.bound t _ hbound
  obtain rfl := h.referenced.foreign t assign id c hc hassign
  exact ⟨_, hassign⟩

/-- A task whose events go to the queue of a call was created by its assign. -/
theorem KeptAt.own_of_queueOf (h : KeptAt p calls polls s held todo)
    (hqueue : p.queueOf t = some id) : s.Own id t := by
  obtain ⟨r, hbound, hr⟩ := Option.bind_eq_some_iff.mp hqueue
  obtain ⟨c, hc, rfl⟩ := h.tables.queue r id hr
  exact h.own_of_bound hc hbound

/-- The events of a call's task go to its queue, once the task is bound. -/
theorem KeptAt.queueOf_own (h : KeptAt p calls polls s held todo) (hc : calls.get? id = some c)
    (hregistered : p.assUpdateQueues.get? c.reference = some id) (hown : s.Own id t) :
    p.queueOf t = if (p.taskToReference.get? t).isSome then some id else none := by
  cases hbound : p.taskToReference.get? t with
  | none => simp [queueOf, hbound]
  | some r =>
    obtain ⟨reference, hcreated⟩ := hown
    obtain ⟨assign, hassign⟩ := h.tables.bound t r hbound
    obtain ⟨c', hc', hreference⟩ := h.referenced.assigned t reference id hcreated
    obtain rfl := Option.some.inj (hc.symm.trans hc')
    have hentry := Option.some.inj (hassign.symm.trans hcreated)
    obtain rfl : r = c.reference := by
      have := congrArg CreatedTask.reference hentry
      simpa [hreference] using this
    simp [queueOf, hbound, hregistered]

/-! ## What a call is not concerned by -/

theorem view_congr (hlog : s'.historyOf t = s.historyOf t) (hmissed : s'.missed t = s.missed t)
    (hpending : s'.pending held' t = s.pending held t) (hlive : p'.feedLive = p.feedLive)
    (hbehind : t ∈ todo' ↔ t ∈ todo)
    (hbound : p'.taskToReference.get? t = p.taskToReference.get? t)
    (hrouted : p'.routed t = p.routed t) (horphans : p'.orphans t = p.orphans t)
    (hqueued : p'.queued id = p.queued id) :
    view p' s' held' todo' id t = view p s held todo id t := by
  simp only [view, hlog, hmissed, hpending, hlive, decide_eq_decide.mpr hbehind, hbound, hrouted,
    horphans, hqueued]

/-- A call stays as it is if it goes on following its task. -/
theorem CallKept.mono (h : CallKept p s held todo id c) (hown : ∀ t, s'.Own id t ↔ s.Own id t)
    (hhistory : ∀ t, s.historyOf t <+: s'.historyOf t)
    (hmissed : p.feedLive = true → ∀ t, s'.missed t = s.missed t)
    (hlive : p.feedLive = true → p'.feedLive = true)
    (hregistered : c.phase.stage.isSome →
      p'.assUpdateQueues.get? c.reference = p.assUpdateQueues.get? c.reference)
    (hunassigned : (∀ t, ¬ s.Own id t) → p'.queued id = p.queued id)
    (hfollows : ∀ t stage, s.Own id t → c.phase.stage = some stage →
      (view p s held todo id t).Follows c.handed stage →
      (view p' s' held' todo' id t).Follows c.handed stage) : CallKept p' s' held' todo' id c where
  task := fun t ht => (hown t).mpr (h.task t ht)
  untold := h.untold
  unassigned := by
    intro hnone
    have hnone' : ∀ t, ¬ s.Own id t := fun t ht => hnone t ((hown t).mpr ht)
    rw [hunassigned hnone']
    exact h.unassigned hnone'
  handed := fun t ht => (h.handed t ((hown t).mp ht)).trans (hhistory t)
  registered := fun hstage => (hregistered hstage).trans (h.registered hstage)
  follows := fun t stage ht hstage => hfollows t stage ((hown t).mp ht) hstage
    (h.follows t stage ((hown t).mp ht) hstage)
  wasLive := by
    intro hwas
    obtain ⟨hl, hzero⟩ := h.wasLive hwas
    exact ⟨hlive hl, fun t ht => (hmissed hl t).trans (hzero t ((hown t).mp ht))⟩

/-- The parts of the tables the invariant reads. -/
structure SameEvents (p p' : GraphQLPostman) : Prop where
  feedLive : p'.feedLive = p.feedLive
  assUpdateQueues : p'.assUpdateQueues = p.assUpdateQueues
  taskToReference : p'.taskToReference = p.taskToReference
  referenceToTask : p'.referenceToTask = p.referenceToTask
  routed : ∀ t, p'.routed t = p.routed t
  orphans : ∀ t, p'.orphans t = p.orphans t
  queued : ∀ q, p'.queued q = p.queued q

theorem KeptAt.congr (h : KeptAt p calls polls s held todo) (hsame : SameEvents p p') :
    KeptAt p' calls polls s held todo where
  server := hsame.feedLive ▸ h.server
  tables := {
    bound := by rw [hsame.taskToReference]; exact h.tables.bound
    back := by rw [hsame.referenceToTask]; exact h.tables.back
    queue := by rw [hsame.assUpdateQueues]; exact h.tables.queue
    unknown := fun t ht => by
      rw [hsame.routed, hsame.orphans]
      exact h.tables.unknown t ht
    todo := h.tables.todo }
  referenced := h.referenced
  call := by
    intro id c hc
    refine (h.call id c hc).mono (fun _ => Iff.rfl) (fun _ => List.prefix_refl _) (fun _ _ => rfl)
      (fun hl => hsame.feedLive.trans hl) (fun _ => by rw [hsame.assUpdateQueues])
      (fun _ => hsame.queued id) fun t stage _ _ hf => ?_
    rwa [view_congr rfl rfl rfl hsame.feedLive Iff.rfl (by rw [hsame.taskToReference])
      (hsame.routed t) (hsame.orphans t) (hsame.queued id)]
  poll := h.poll

/-! ## The server's events

A task that is created, or reports something, is a move of the one call that follows it.
-/

theorem ServerKept.create {live : Bool} (h : ServerKept s live held todo)
    (hnew : s.created.get? t = none) (entry : CreatedTask) :
    ServerKept (s.create t entry) live held todo where
  nodup := h.nodup
  pending := fun t' => by
    rw [TaskServer.pending_create]
    exact h.pending t'
  missed := fun t' => by
    rw [TaskServer.pending_create]
    exact h.missed t'
  waits := fun hwaits t' => by
    rw [TaskServer.pending_create]
    exact h.waits hwaits t'
  subscribed := h.subscribed
  live := h.live
  unsubscribed := fun hnone => by
    obtain ⟨hheld, hfeed⟩ := h.unsubscribed hnone
    refine ⟨hheld, ?_⟩
    rw [TaskServer.create, TaskServer.feed_publish_of_unsubscribed (by exact hnone)]
    exact hfeed
  reported := fun t' ht' => by
    rw [TaskServer.get?_created_create] at ht'
    split at ht'
    · cases ht'
    · exact h.reported t' ht'
  creates := fun change hchange t' reference hcreate => by
    rcases TaskServer.mem_publish hchange with hin | rfl
    · obtain ⟨by', hby⟩ := h.creates change hin t' reference hcreate
      exact ⟨by', TaskServer.created_create hnew entry hby⟩
    · obtain ⟨rfl, rfl⟩ := TaskChange.mk.inj (Option.some.inj hcreate)
      exact ⟨entry.assign, by rw [TaskServer.get?_created_create, if_pos rfl]⟩

theorem TablesKept.create (h : TablesKept p calls s todo) (hnew : s.created.get? t = none)
    (entry : CreatedTask) : TablesKept p calls (s.create t entry) todo := by
  refine ⟨fun t' r' hr' => ?_, fun r' t' ht' => ?_, h.queue, fun t' ht' => ?_, h.todo⟩
  · obtain ⟨by', hby⟩ := h.bound t' r' hr'
    exact ⟨by', TaskServer.created_create hnew entry hby⟩
  · obtain ⟨by', hby⟩ := h.back r' t' ht'
    exact ⟨by', TaskServer.created_create hnew entry hby⟩
  · rw [TaskServer.get?_created_create] at ht'
    split at ht'
    · cases ht'
    · exact h.unknown t' ht'

theorem Referenced.create (h : Referenced calls s) (hnew : s.created.get? t = none)
    {r : Option String} {assign : Option ℕ}
    (hassign : ∀ id, assign = some id → (∃ c, calls.get? id = some c ∧ r = some c.reference) ∧
      ∀ t, ¬ s.Own id t)
    (hforeign : ∀ id c, calls.get? id = some c → r = some c.reference → assign = some id) :
    Referenced calls (s.create t ⟨r, assign⟩) := by
  refine ⟨fun t' r' id ht' => ?_, fun t₁ t₂ id h₁ h₂ => ?_, h.references,
    fun t' by' id c hc ht' => ?_⟩
  · rw [TaskServer.get?_created_create] at ht'
    split at ht'
    · obtain ⟨rfl, rfl⟩ := CreatedTask.mk.inj (Option.some.inj ht')
      exact (hassign id rfl).1
    · exact h.assigned t' r' id ht'
  · -- of two tasks of one call, neither is new: the call that creates a task has none
    rcases (TaskServer.own_create hnew r assign id t₁).mp h₁ with hold₁ | ⟨hid₁, rfl⟩ <;>
      rcases (TaskServer.own_create hnew r assign id t₂).mp h₂ with hold₂ | ⟨hid₂, rfl⟩
    · exact h.once t₁ t₂ id hold₁ hold₂
    · exact absurd hold₁ ((hassign id hid₂).2 t₁)
    · exact absurd hold₂ ((hassign id hid₁).2 t₂)
    · rfl
  · rw [TaskServer.get?_created_create] at ht'
    split at ht'
    · obtain ⟨hr, rfl⟩ := CreatedTask.mk.inj (Option.some.inj ht')
      exact hforeign id c hc hr
    · exact h.foreign t' by' id c hc ht'

theorem view_create (p : GraphQLPostman) (s : TaskServer) (held : List TaskChangeEvent)
    (todo : List String) (t : String) (entry : CreatedTask) (id : ℕ) (t' : String) :
    view p (s.create t entry) held todo id t' = view p s held todo id t' :=
  view_congr rfl rfl (TaskServer.pending_create s t entry held t') rfl Iff.rfl rfl rfl rfl rfl

/-- No event of a task that is not created yet was missed. -/
theorem ServerKept.missed_new {live : Bool} (h : ServerKept s live held todo)
    (hnew : s.created.get? t = none) : s.missed t = 0 := by
  have hle := h.missed t
  rw [h.reported t hnew, List.length_nil] at hle
  omega

/-- To a call that took nothing yet, a task that is not created yet is a fresh one. -/
theorem KeptAt.view_new (h : KeptAt p calls polls s held todo) (hnew : s.created.get? t = none)
    (hqueued : p.queued id = []) : view p s held todo id t = TaskView.fresh p.feedLive := by
  obtain ⟨hrouted, horphans, htodo⟩ := h.tables.unknown t hnew
  simp only [view, TaskView.fresh, h.server.reported t hnew, h.server.missed_new hnew, hrouted,
    horphans, hqueued, h.tables.unbound hnew, htodo, decide_false, Option.isSome_none,
    List.length_nil, Nat.zero_sub]

/-- The call has its task from now on; it was still waiting for it. -/
theorem KeptAt.call_create (h : KeptAt p calls polls s held todo) (hc : calls.get? id = some c)
    (hnew : s.created.get? t = none) (r : Option String) (hnone : ∀ t, ¬ s.Own id t) :
    CallKept p (s.create t ⟨r, some id⟩) held todo id c := by
  have hk := h.call id c hc
  obtain ⟨hhanded, hqueued⟩ := hk.unassigned hnone
  have hown := TaskServer.own_create hnew r (some id) id
  have hmine : ∀ t', (s.create t ⟨r, some id⟩).Own id t' → t' = t := fun t' ht' =>
    ((hown t').mp ht').elim (fun hin => absurd hin (hnone t')) And.right
  refine ⟨fun t' ht' => absurd (hk.task t' ht') (hnone t'), hk.untold, fun hno => ?_,
    fun t' _ => ?_, hk.registered, fun t' stage ht' hstage => ?_, fun hwas => ?_⟩
  · exact absurd ((hown t).mpr (Or.inr ⟨rfl, rfl⟩)) (hno t)
  · rw [hhanded]
    exact List.nil_prefix
  · obtain rfl := hmine t' ht'
    rw [view_create, h.view_new hnew hqueued, hhanded]
    rcases AssignPhase.assigning_or_task hstage with rfl | ⟨t'', ht''⟩
    · exact TaskView.follows_fresh _
    · exact absurd (hk.task t'' (Or.inl ht'')) (hnone t'')
  · refine ⟨(hk.wasLive hwas).1, fun t' ht' => ?_⟩
    obtain rfl := hmine t' ht'
    exact h.server.missed_new hnew

theorem KeptAt.create (h : KeptAt p calls polls s held todo) {r : Option String}
    {assign : Option ℕ} (hnew : s.created.get? t = none)
    (hassign : ∀ id, assign = some id → (∃ c, calls.get? id = some c ∧ r = some c.reference) ∧
      ∀ t, ¬ s.Own id t)
    (hforeign : ∀ id c, calls.get? id = some c → r = some c.reference → assign = some id) :
    KeptAt p calls polls (s.create t ⟨r, assign⟩) held todo := by
  refine ⟨h.server.create hnew _, h.tables.create hnew _,
    h.referenced.create hnew hassign hforeign, fun id c hc => ?_, fun id poll hpoll => ?_⟩
  · by_cases hid : assign = some id
    · subst hid
      exact h.call_create hc hnew r (hassign id rfl).2
    · have hown := TaskServer.own_create hnew r assign id
      refine (h.call id c hc).mono (fun t' => (hown t').trans (by simp [hid]))
        (fun _ => List.prefix_refl _) (fun _ _ => rfl) (fun hl => hl) (fun _ => rfl) (fun _ => rfl)
        fun t' stage _ _ hf => ?_
      rwa [view_create]
  · have hk := h.poll id poll hpoll
    exact ⟨(TaskServer.own_create hnew r assign id _).mpr (Or.inl hk.own), hk.call, hk.read⟩

/-- Without a subscription there is nothing to deliver. -/
theorem ServerKept.pending_unsubscribed {live : Bool} (h : ServerKept s live held todo)
    (hs : s.subscribed.isSome = false) (t : String) : s.pending held t = [] := by
  obtain ⟨hheld, hfeed⟩ := h.unsubscribed (by simpa using hs)
  rw [TaskServer.pending, hheld, hfeed]
  rfl

/-- A report is a move of the task it is about, and of no other. -/
theorem ServerKept.view_report (h : ServerKept s p.feedLive held todo) (event : TaskEventChange)
    (id : ℕ) (t : String) : view p (s.report event) held todo id t
      = if event.task = t then (view p s held todo id t).report event s.subscribed.isSome
        else view p s held todo id t := by
  have hlog := s.historyOf_report event t
  have hpending := s.pending_report event held t
  have hmissed := TaskServer.missed_report h.subscribed event t
  by_cases ht : event.task = t
  · subst ht
    simp only [if_true, and_true] at hlog hpending ⊢
    cases hs : s.subscribed.isSome with
    | true =>
      -- the log and what is pending grow by the one event, so what was delivered stays
      simp only [hs, if_true] at hpending hmissed
      simp only [view, TaskView.report, hlog, hpending, hmissed, if_true, List.length_append,
        List.length_singleton]
      congr 1
      omega
    | false =>
      have hnone := h.pending_unsubscribed hs event.task
      simp only [hs, Bool.false_eq_true, if_false, List.append_nil, hnone] at hpending hmissed
      simp only [view, TaskView.report, hmissed, hlog, hpending, Bool.false_eq_true, if_false,
        List.length_append, List.length_singleton, List.length_nil, Nat.sub_zero]
  · rw [if_neg ht]
    refine view_congr (by rw [hlog, if_neg ht, List.append_nil]) ?_
      (by rw [hpending, if_neg fun h => ht h.2, List.append_nil]) rfl Iff.rfl rfl rfl rfl rfl
    rw [hmissed]
    split
    · rfl
    · rename_i hs
      rw [hlog, if_neg ht, List.append_nil,
        TaskServer.missed_of_unsubscribed (by simpa using hs)]

/-- A subscribed feed will deliver the event; without one it is missed. -/
theorem ServerKept.balance_report {live : Bool} (h : ServerKept s live held todo)
    (event : TaskEventChange) (t : String) :
    ((s.report event).historyOf t).length = (s.historyOf t).length +
        (if event.task = t then 1 else 0) ∧
      if s.subscribed.isSome then
        (s.report event).missed t = s.missed t ∧ ((s.report event).pending held t).length
          = (s.pending held t).length + if event.task = t then 1 else 0
      else (s.report event).missed t = ((s.report event).historyOf t).length ∧
        (s.report event).pending held t = [] := by
  have hpending := s.pending_report event held t
  have hmissed := TaskServer.missed_report h.subscribed event t
  refine ⟨?_, ?_⟩
  · rw [s.historyOf_report]
    split <;> simp
  · cases hs : s.subscribed.isSome with
    | true =>
      simp only [hs, if_true, true_and] at hpending hmissed ⊢
      refine ⟨hmissed, ?_⟩
      rw [hpending]
      split <;> simp
    | false =>
      simp only [hs, Bool.false_eq_true, if_false, false_and] at hpending hmissed ⊢
      exact ⟨hmissed, by rw [hpending, h.pending_unsubscribed hs, List.append_nil]⟩

theorem ServerKept.report {live : Bool} (h : ServerKept s live held todo) {event : TaskEventChange}
    (hcreated : (s.created.get? event.task).isSome)
    (hfresh : event.id ∉ (s.historyOf event.task).map fun event => event.id) :
    ServerKept (s.report event) live held todo where
  nodup := fun t => by
    rw [s.historyOf_report]
    split
    · rename_i ht
      subst ht
      rw [List.map_append, List.nodup_append]
      refine ⟨h.nodup _, by simp, ?_⟩
      rintro k hk k' hk' rfl
      obtain rfl : k = event.key := by simpa using hk'
      exact hfresh hk
    · rw [List.append_nil]
      exact h.nodup t
  pending := fun t => by
    rw [s.historyOf_report, s.pending_report]
    by_cases ht : event.task = t
    · cases hs : s.subscribed.isSome with
      | true =>
        simp only [ht, and_self, if_true]
        obtain ⟨done, hdone⟩ := h.pending t
        exact ⟨done, by rw [← hdone, List.append_assoc]⟩
      | false => simp [h.pending_unsubscribed hs t]
    · simpa [ht] using h.pending t
  missed := fun t => by
    obtain ⟨hlength, hbalance⟩ := h.balance_report event t
    have hm := h.missed t
    split at hbalance
    · omega
    · rw [hbalance.2, List.length_nil]
      omega
  waits := fun hwaits t => by
    obtain ⟨hlength, hbalance⟩ := h.balance_report event t
    have hm := h.waits hwaits t
    split at hbalance
    · omega
    · rw [hbalance.2, List.length_nil]
      omega
  subscribed := fun n hn => by
    have hle := h.subscribed n hn
    simp only [TaskServer.report, TaskServer.publish, List.length_append]
    omega
  live := h.live
  unsubscribed := fun hnone => by
    obtain ⟨hheld, hfeed⟩ := h.unsubscribed hnone
    refine ⟨hheld, ?_⟩
    rw [TaskServer.report, TaskServer.feed_publish_of_unsubscribed (by exact hnone)]
    exact hfeed
  reported := fun t ht => by
    have hne : event.task ≠ t := by
      rintro rfl
      have hnew : s.created.get? event.task = none := ht
      rw [hnew] at hcreated
      cases hcreated
    rw [s.historyOf_report, h.reported t ht, if_neg hne]
    rfl
  creates := fun change hchange t reference hcreate => by
    rcases TaskServer.mem_publish hchange with hin | rfl
    · exact h.creates change hin t reference hcreate
    · cases hcreate

theorem KeptAt.report (h : KeptAt p calls polls s held todo) {event : TaskEventChange}
    (hcreated : (s.created.get? event.task).isSome)
    (hfresh : event.id ∉ (s.historyOf event.task).map fun event => event.id) :
    KeptAt p calls polls (s.report event) held todo := by
  have hlog := s.historyOf_report event
  refine ⟨h.server.report hcreated hfresh, h.tables.of_created rfl, h.referenced.of_created rfl,
    fun id c hc => ?_, fun id poll hpoll => ?_⟩
  · refine (h.call id c hc).mono (fun _ => Iff.rfl) (fun t => ?_) (fun hl t => ?_) (fun hl => hl)
      (fun _ => rfl) (fun _ => rfl) fun t stage _ _ hf => ?_
    · rw [hlog]
      exact List.prefix_append _ _
    · rw [TaskServer.missed_report h.server.subscribed, if_pos (h.server.live hl)]
    · rw [h.server.view_report]
      split
      · exact hf.report (h.server.ok id t) event h.server.live
      · exact hf
  · have hk := h.poll id poll hpoll
    refine ⟨hk.own, hk.call, fun r hr => (hk.read r hr).trans ?_⟩
    rw [hlog]
    exact List.prefix_append _ _

theorem KeptAt.subscribe (h : KeptAt p calls polls s held todo) (hnone : s.subscribed = none) :
    KeptAt p calls polls { s with subscribed := some s.log.length } held todo := by
  have hmissed : ∀ t, TaskServer.missed { s with subscribed := some s.log.length } t
      = s.missed t := by
    intro t
    rw [TaskServer.missed_of_unsubscribed hnone]
    simp [TaskServer.missed, TaskServer.historyOf]
  refine ⟨⟨h.server.nodup, h.server.pending, ?_, ?_, ?_, fun _ => rfl, by rintro ⟨⟩,
    h.server.reported, h.server.creates⟩, h.tables.of_created rfl, h.referenced.of_created rfl, ?_,
    fun id poll hpoll => ?_⟩
  · intro t
    rw [hmissed]
    exact h.server.missed t
  · intro hwaits t
    rw [hmissed]
    exact h.server.waits hwaits t
  · rintro n ⟨⟩
    exact le_rfl
  · intro id c hc
    refine (h.call id c hc).mono (fun _ => Iff.rfl) (fun _ => List.prefix_refl _)
      (fun _ => hmissed) (fun hl => hl) (fun _ => rfl) (fun _ => rfl) fun t stage _ _ hf => ?_
    have hview : view p { s with subscribed := some s.log.length } held todo id t
        = view p s held todo id t := view_congr rfl (hmissed t) rfl rfl Iff.rfl rfl rfl rfl rfl
    rwa [hview]
  · have hk := h.poll id poll hpoll
    exact ⟨hk.own, hk.call, hk.read⟩

/-! ## What `watch_tasks` does

It takes a change from the feed, catches the waiting calls up if that is the first one, binds and
routes. The invariant is kept at each of these points, with the change that is held and the tasks
still to be caught up.
-/

theorem KeptAt.goLive (h : KeptAt p calls polls s held []) (hdead : p.feedLive = false)
    (hsubscribed : s.subscribed.isSome) :
    KeptAt { p with feedLive := true } calls polls s held p.taskToReference.keys := by
  have hbound : ∀ t, t ∈ p.taskToReference.keys ↔ (p.taskToReference.get? t).isSome := fun t => by
    rw [Dict.mem_keys, Option.isSome_iff_exists]
  refine ⟨?_, ⟨h.tables.bound, h.tables.back, h.tables.queue, fun t ht => ?_, Dict.nodup_keys _⟩,
    h.referenced, fun id c hc => ?_, h.poll⟩
  · exact ⟨h.server.nodup, h.server.pending, h.server.missed,
      fun _ => h.server.waits (Or.inl hdead), h.server.subscribed, fun _ => hsubscribed,
      h.server.unsubscribed, h.server.reported, h.server.creates⟩
  · obtain ⟨hrouted, horphans, -⟩ := h.tables.unknown t ht
    refine ⟨hrouted, horphans, fun hin => ?_⟩
    obtain ⟨r, hr⟩ := Dict.mem_keys.mp hin
    rw [h.tables.unbound ht] at hr
    cases hr
  · refine (h.call id c hc).mono (fun _ => Iff.rfl) (fun _ => List.prefix_refl _) (fun _ _ => rfl)
      (fun _ => rfl) (fun _ => rfl) (fun _ => rfl) fun t stage _ _ hf => ?_
    have hlive := hf.goLive hdead
    have hview : view { p with feedLive := true } s held p.taskToReference.keys id t
        = { view p s held [] id t with live := true, behind := (view p s held [] id t).bound } := by
      simp only [view, hbound, Bool.decide_eq_true]
      rfl
    rwa [hview]

/-- The queue a bind may flush to is that of the call whose assign created the task. -/
theorem KeptAt.own_of_reference (h : KeptAt p calls polls s held todo) {r : String}
    {assign : Option ℕ} (hcreated : s.created.get? t = some ⟨some r, assign⟩)
    (hqueue : p.assUpdateQueues.get? r = some id) : s.Own id t := by
  obtain ⟨c, hc, rfl⟩ := h.tables.queue r id hqueue
  obtain rfl := h.referenced.foreign t assign id c hc hcreated
  exact ⟨_, hcreated⟩

theorem KeptAt.tables_bind (h : KeptAt p calls polls s held todo) {r : String} {assign : Option ℕ}
    (hcreated : s.created.get? t = some ⟨some r, assign⟩) :
    TablesKept (p.bind t r) calls s todo := by
  have htables := bind_tables p t r
  refine ⟨fun t' r' ht' => ?_, fun r' t' hr' => ?_, ?_, fun t' ht' => ?_, h.tables.todo⟩
  · rw [htables.taskToReference] at ht'
    rcases Dict.get?_set_eq_some.mp ht' with ⟨rfl, rfl⟩ | ⟨-, hold⟩
    · exact ⟨assign, hcreated⟩
    · exact h.tables.bound t' r' hold
  · rw [htables.referenceToTask] at hr'
    rcases Dict.get?_set_eq_some.mp hr' with ⟨rfl, rfl⟩ | ⟨-, hold⟩
    · exact ⟨assign, hcreated⟩
    · exact h.tables.back r' t' hold
  · rw [htables.assUpdateQueues]
    exact h.tables.queue
  · obtain ⟨hrouted, horphans, htodo⟩ := h.tables.unknown t' ht'
    rw [routed_bind, orphans_bind, horphans]
    exact ⟨hrouted, by simp, htodo⟩

/-- Binding a task is a move of the call that has it, and of no other. -/
theorem KeptAt.view_bind (h : KeptAt p calls polls s held todo) {r : String} {assign : Option ℕ}
    (hcreated : s.created.get? t = some ⟨some r, assign⟩) (hc : calls.get? id = some c)
    (hregistered : p.assUpdateQueues.get? c.reference = some id) {t' : String}
    (hown : s.Own id t') : view (p.bind t r) s held todo id t'
      = if t' = t then (view p s held todo id t').bind else view p s held todo id t' := by
  have htables := bind_tables p t r
  by_cases ht : t' = t
  · subst ht
    obtain ⟨reference, hmine⟩ := hown
    obtain ⟨c', hc', hreference⟩ := h.referenced.assigned t' reference id hmine
    obtain rfl := Option.some.inj (hc.symm.trans hc')
    obtain ⟨hr, -⟩ := CreatedTask.mk.inj (Option.some.inj (hcreated.symm.trans hmine))
    obtain rfl : r = c.reference := Option.some.inj (hr.trans hreference)
    rw [if_pos rfl]
    simp only [view, TaskView.bind, htables.feedLive, htables.taskToReference, routed_bind,
      orphans_bind, queued_bind, hregistered, if_true, Dict.get?_set, Option.isSome_some]
  · rw [if_neg ht]
    have hother : p.assUpdateQueues.get? r ≠ some id := fun hq =>
      ht (h.referenced.once t' t id hown (h.own_of_reference hcreated hq))
    refine view_congr rfl rfl rfl htables.feedLive Iff.rfl ?_ (routed_bind _ _ _ _) ?_ ?_
    · rw [htables.taskToReference]
      simp [ht]
    · rw [orphans_bind, if_neg ht]
    · rw [queued_bind, if_neg hother, List.append_nil]

/-- A call without a task is not concerned by a bind. -/
theorem KeptAt.queued_bind (h : KeptAt p calls polls s held todo) {r : String} {assign : Option ℕ}
    (hcreated : s.created.get? t = some ⟨some r, assign⟩) (hnone : ∀ t, ¬ s.Own id t) :
    (p.bind t r).queued id = p.queued id := by
  rw [GraphQLPostman.queued_bind, if_neg, List.append_nil]
  exact fun hq => hnone t (h.own_of_reference hcreated hq)

theorem KeptAt.bind (h : KeptAt p calls polls s held todo) {r : String} {assign : Option ℕ}
    (hcreated : s.created.get? t = some ⟨some r, assign⟩) (hlive : p.feedLive = true) :
    KeptAt (p.bind t r) calls polls s held todo := by
  have htables := bind_tables p t r
  refine ⟨htables.feedLive ▸ h.server, h.tables_bind hcreated, h.referenced, fun id c hc => ?_,
    h.poll⟩
  have hk := h.call id c hc
  refine hk.mono (fun _ => Iff.rfl) (fun _ => List.prefix_refl _) (fun _ _ => rfl)
    (fun hl => htables.feedLive.trans hl) (fun _ => by rw [htables.assUpdateQueues])
    (fun hnone => h.queued_bind hcreated hnone) fun t' stage hown hstage hf => ?_
  rw [h.view_bind hcreated hc (hk.registered (by rw [hstage]; rfl)) hown]
  split
  · exact hf.bind hlive
  · exact hf

/-- What is pending before and after the feed's next event is routed. -/
theorem pending_cons (s : TaskServer) (change : TaskChangeEvent) (t : String) :
    s.pending [change] t
      = (change.event.toList.filter fun event => event.task = t) ++ s.pending [] t := by
  rw [TaskServer.pending, TaskServer.pending, List.filterMap_append, List.filter_append]
  cases hevent : change.event <;> simp [hevent]

/-- Routing an event is a move of the call that has its task, and of no other. -/
theorem KeptAt.view_route {change : TaskChangeEvent} {event : TaskEventChange}
    (h : KeptAt p calls polls s [change] []) (hevent : change.event = some event)
    (hc : calls.get? id = some c) (hregistered : p.assUpdateQueues.get? c.reference = some id)
    (hown : s.Own id t) : view (p.route event) s [] [] id t
      = if t = event.task then (view p s [change] [] id t).deliver event
        else view p s [change] [] id t := by
  have htables := route_tables p event
  have hpending := pending_cons s change t
  rw [hevent] at hpending
  by_cases ht : t = event.task
  · subst ht
    have hqueue := h.queueOf_own hc hregistered hown
    have hmissed := h.server.missed event.task
    have hdelivered : (s.historyOf event.task).length - (s.pending [] event.task).length
        = (s.historyOf event.task).length - (s.pending [change] event.task).length + 1 := by
      simp [hpending] at hmissed ⊢
      omega
    rw [if_pos rfl]
    by_cases hmem : event.id ∈ p.routed event.task
    · have hmem' : event.key ∈ (view p s [change] [] id event.task).routed := hmem
      rw [route_of_mem hmem, TaskView.deliver, if_pos hmem']
      simp only [view, hdelivered]
    · have hmem' : event.key ∉ (view p s [change] [] id event.task).routed := hmem
      rw [TaskView.deliver, if_neg hmem']
      simp only [view, hdelivered, htables.feedLive, htables.taskToReference, routed_route hmem,
        queued_route hmem, orphans_route hmem, hqueue, if_true, TaskEventChange.key, true_and]
      by_cases hbound : (p.taskToReference.get? event.task).isSome <;> simp [hbound]
  · rw [if_neg ht]
    have hother : p.queueOf event.task ≠ some id := fun hq =>
      ht (h.referenced.once t event.task id hown (h.own_of_queueOf hq))
    have hpending' : s.pending [] t = s.pending [change] t := by
      simp [hpending, Ne.symm ht]
    by_cases hmem : event.id ∈ p.routed event.task
    · rw [route_of_mem hmem]
      exact view_congr rfl rfl hpending' rfl Iff.rfl rfl rfl rfl rfl
    · exact view_congr rfl rfl hpending' htables.feedLive Iff.rfl (by rw [htables.taskToReference])
        (by rw [routed_route hmem, if_neg ht])
        (by rw [orphans_route hmem, if_neg fun h => ht h.1, List.append_nil])
        (by rw [queued_route hmem, if_neg hother, List.append_nil])

/-- The event the feed delivers next, as its task's log has it. -/
theorem ServerKept.next {change : TaskChangeEvent} {event : TaskEventChange}
    (h : ServerKept s p.feedLive [change] []) (hevent : change.event = some event) (id : ℕ) :
    (view p s [change] [] id event.task).Next event := by
  obtain ⟨done, hdone⟩ := h.pending event.task
  have hpending := pending_cons s change event.task
  rw [hevent] at hpending
  refine ⟨done, s.pending [] event.task, ?_, ?_⟩
  · rw [view, ← hdone, hpending]
    simp
  · simp only [view]
    rw [← hdone, List.length_append]
    omega

theorem ServerKept.handled {change : TaskChangeEvent} (h : ServerKept s p.feedLive [change] [])
    (hlive : p.feedLive = true) : ServerKept s p.feedLive [] [] := by
  have hpending := pending_cons s change
  refine ⟨h.nodup, fun t => ?_, fun t => ?_, fun hwaits => ?_, h.subscribed, h.live,
    fun hnone => ⟨rfl, (h.unsubscribed hnone).2⟩, h.reported, fun change' hin => ?_⟩
  · refine List.IsSuffix.trans ?_ (h.pending t)
    rw [hpending]
    exact List.suffix_append _ _
  · have hmissed := h.missed t
    rw [hpending, List.length_append] at hmissed
    omega
  · rw [hlive] at hwaits
    exact absurd hwaits (by simp)
  · exact h.creates change' (List.mem_append_right _ hin)

theorem KeptAt.route {change : TaskChangeEvent} {event : TaskEventChange}
    (h : KeptAt p calls polls s [change] []) (hevent : change.event = some event)
    (hlive : p.feedLive = true) : KeptAt (p.route event) calls polls s [] [] := by
  have htables := route_tables p event
  refine ⟨htables.feedLive ▸ h.server.handled hlive, h.tables.of_same htables fun t ht => ?_,
    h.referenced, fun id c hc => ?_, h.poll⟩
  · -- an event was reported by a task that is created
    have hother : t ≠ event.task := by
      rintro rfl
      obtain ⟨done, pending, hlog, -⟩ := h.server.next hevent 0
      have hempty := h.server.reported event.task ht
      simp only [view, hempty] at hlog
      simp at hlog
    obtain ⟨hrouted, horphans, htodo⟩ := h.tables.unknown t ht
    by_cases hmem : event.id ∈ p.routed event.task
    · rw [route_of_mem hmem]
      exact ⟨hrouted, horphans, htodo⟩
    · rw [routed_route hmem, orphans_route hmem, if_neg hother, if_neg fun h => hother h.1,
        List.append_nil]
      exact ⟨hrouted, horphans, htodo⟩
  · have hk := h.call id c hc
    refine hk.mono (fun _ => Iff.rfl) (fun _ => List.prefix_refl _) (fun _ _ => rfl)
      (fun hl => htables.feedLive.trans hl) (fun _ => by rw [htables.assUpdateQueues])
      (fun hnone => ?_) fun t stage hown hstage hf => ?_
    · by_cases hmem : event.id ∈ p.routed event.task
      · rw [route_of_mem hmem]
      · rw [queued_route hmem, if_neg, List.append_nil]
        exact fun hq => hnone _ (h.own_of_queueOf hq)
    · rw [h.view_route hevent hc (hk.registered (by rw [hstage]; rfl)) hown]
      split
      · rename_i ht
        subst ht
        exact hf.deliver (h.server.ok id _) (h.server.next hevent id) hlive rfl
      · exact hf

theorem KeptAt.handleCreate {change : TaskChangeEvent} (h : KeptAt p calls polls s [change] [])
    (hlive : p.feedLive = true) : KeptAt (p.handleCreate change.create) calls polls s [change] [] ∧
      (p.handleCreate change.create).feedLive = true := by
  have hcreates := h.server.creates change (List.mem_append_left _ (List.mem_singleton_self _))
  rw [handleCreate.eq_def]
  split
  · rename_i task reference hcreate
    obtain ⟨assign, hassign⟩ := hcreates _ _ hcreate
    split
    · exact ⟨h, hlive⟩
    · exact ⟨h.bind hassign hlive, (bind_tables p task reference).feedLive.trans hlive⟩
  · exact ⟨h, hlive⟩
  · exact ⟨h, hlive⟩

theorem KeptAt.handle {change : TaskChangeEvent} (h : KeptAt p calls polls s [change] [])
    (hlive : p.feedLive = true) : KeptAt (p.handle change) calls polls s [] [] := by
  obtain ⟨h, hlive⟩ := h.handleCreate hlive
  rw [GraphQLPostman.handle]
  cases hevent : change.event with
  | some event => exact h.route hevent hlive
  | none =>
    refine ⟨h.server.handled hlive, h.tables, h.referenced, fun id c hc => ?_, h.poll⟩
    refine (h.call id c hc).mono (fun _ => Iff.rfl) (fun _ => List.prefix_refl _)
      (fun _ _ => rfl) (fun hl => hl) (fun _ => rfl) (fun _ => rfl) fun t stage _ _ hf => ?_
    have hpending : s.pending [] t = s.pending [change] t := by
      rw [pending_cons s change t, hevent]
      rfl
    rwa [GraphQLPostman.handleEvent,
      view_congr rfl rfl hpending rfl Iff.rfl rfl rfl rfl rfl]

/-! ## Reads -/

/-- A read of a task's history is a move of the call that has it. -/
theorem KeptAt.view_catchUp (h : KeptAt p calls polls s held todo) (hc : calls.get? id = some c)
    (hregistered : p.assUpdateQueues.get? c.reference = some id) (hown : s.Own id t)
    {stage : Stage} (hf : (view p s held todo id t).Follows c.handed stage)
    (hbound : (view p s held todo id t).bound = true) (history : List TaskEventChange) :
    view (p.catchUp t history) s held todo id t
      = (view p s held todo id t).merge c.handed history := by
  have htables := catchUp_tables p t history
  have hqueue : p.queueOf t = some id :=
    (h.queueOf_own hc hregistered hown).trans (if_pos hbound)
  have hknown : (view p s held todo id t).known c.handed = c.handed ++ p.queued id := by
    have hflushed := hf.flushed hbound
    rw [TaskView.known, hflushed, List.append_nil]
    rfl
  have hnodup := hf.nodup (h.server.ok id t)
  have hrouted := hf.routed
  rw [hknown] at hnodup hrouted
  obtain ⟨hqueued', hrouted'⟩ := catchUp_spec hqueue hnodup hrouted history
  simp only [view, TaskView.merge, htables.feedLive, htables.taskToReference, hrouted', hqueued',
    orphans_catchUp]

/-- A read of a task's history is no move of the calls that have other tasks. -/
theorem KeptAt.view_catchUp_of_ne (h : KeptAt p calls polls s held todo) {task : String}
    (hown : s.Own id t) (hne : t ≠ task) (hbehind : t ∈ todo' ↔ t ∈ todo)
    (history : List TaskEventChange) :
    view (p.catchUp task history) s held todo' id t = view p s held todo id t := by
  have htables := catchUp_tables p task history
  have hother : p.queueOf task ≠ some id := fun hq =>
    hne (h.referenced.once t task id hown (h.own_of_queueOf hq))
  exact view_congr rfl rfl rfl htables.feedLive hbehind (by rw [htables.taskToReference])
    (routed_catchUp_of_ne hne history) (orphans_catchUp _ _ _ _)
    (queued_catchUp_of_ne hother history)

theorem KeptAt.tables_catchUp (h : KeptAt p calls polls s held todo) (task : String)
    (history : List TaskEventChange) : TablesKept (p.catchUp task history) calls s todo := by
  refine h.tables.of_same (catchUp_tables p task history) fun t ht => ?_
  obtain ⟨hrouted, horphans, htodo⟩ := h.tables.unknown t ht
  rw [orphans_catchUp]
  refine ⟨?_, horphans, htodo⟩
  by_cases hne : t = task
  · subst hne
    rw [catchUp_of_none (by rw [queueOf, h.tables.unbound ht]; rfl)]
    exact hrouted
  · rw [routed_catchUp_of_ne hne]
    exact hrouted

/-- A read leaves the calls that have other tasks, or none, as they are. -/
theorem KeptAt.call_catchUp (h : KeptAt p calls polls s held todo) {task : String}
    (hc : calls.get? id = some c) (hother : ¬ s.Own id task)
    (hbehind : ∀ t, t ≠ task → (t ∈ todo' ↔ t ∈ todo)) (history : List TaskEventChange) :
    CallKept (p.catchUp task history) s held todo' id c := by
  have htables := catchUp_tables p task history
  refine (h.call id c hc).mono (fun _ => Iff.rfl) (fun _ => List.prefix_refl _) (fun _ _ => rfl)
    (fun hl => htables.feedLive.trans hl) (fun _ => by rw [htables.assUpdateQueues])
    (fun hnone => ?_) fun t stage hown _ hf => ?_
  · exact queued_catchUp_of_ne (fun hq => hother (h.own_of_queueOf hq)) history
  · have hne : t ≠ task := fun heq => hother (heq ▸ hown)
    rwa [h.view_catchUp_of_ne hown hne (hbehind t hne)]

/-- `watch_tasks` catches the next task up, before the feed delivered anything. -/
theorem KeptAt.watchCaughtUp {task : String} (h : KeptAt p calls polls s held (task :: todo))
    {history : List TaskEventChange} (hread : history <+: s.historyOf task)
    (hmissed : s.missed task ≤ history.length) :
    KeptAt (p.catchUp task history) calls polls s held todo := by
  have htables := catchUp_tables p task history
  obtain ⟨hnot, hnodup⟩ := List.nodup_cons.mp h.tables.todo
  have hbehind : ∀ t, t ≠ task → (t ∈ todo ↔ t ∈ task :: todo) := fun t hne => by simp [hne]
  have htables' := h.tables_catchUp task history
  refine ⟨?_, ⟨htables'.bound, htables'.back, htables'.queue, fun t ht => ?_, hnodup⟩,
    h.referenced, fun id c hc => ?_, h.poll⟩
  · rw [htables.feedLive]
    exact ⟨h.server.nodup, h.server.pending, h.server.missed,
      fun hwaits => h.server.waits (hwaits.imp_right fun _ => List.cons_ne_nil _ _),
      h.server.subscribed, h.server.live, h.server.unsubscribed, h.server.reported,
      h.server.creates⟩
  · obtain ⟨hrouted, horphans, htodo⟩ := htables'.unknown t ht
    exact ⟨hrouted, horphans, fun hin => htodo (List.mem_cons_of_mem _ hin)⟩
  · by_cases hmine : s.Own id task
    swap
    · exact h.call_catchUp hc hmine hbehind history
    have hk := h.call id c hc
    refine hk.mono (fun _ => Iff.rfl) (fun _ => List.prefix_refl _) (fun _ _ => rfl)
      (fun hl => htables.feedLive.trans hl) (fun _ => by rw [htables.assUpdateQueues])
      (fun hnone => absurd hmine (hnone _)) fun t stage hown hstage hf => ?_
    obtain rfl := h.referenced.once t task id hown hmine
    have hregistered := hk.registered (by rw [hstage]; rfl)
    -- a task to be caught up was bound when the feed went live, and stays so
    have hlate : (view p s held (t :: todo) id t).behind = true := by simp [view]
    have hbound : (view p s held (t :: todo) id t).bound = true := by
      have hs := hf.stands
      cases stage with
      | assigning => exact absurd (hlate.symm.trans hs.2.1) (by simp)
      | reading read => exact hs.1
      | streaming => exact hs.1
    have hview : view (p.catchUp t history) s held todo id t
        = { (view p s held (t :: todo) id t).merge c.handed history with behind := false } := by
      rw [← h.view_catchUp hc hregistered hown hf hbound history]
      simp only [view, hnot, decide_false]
    rw [hview]
    exact hf.caughtUp (h.server.ok id t) hbound hlate hread hmissed

/-- A reading task puts what it read in order. -/
theorem KeptAt.polled {poll : Poll} (h : KeptAt p calls polls s held todo)
    (hpoll : PollKept calls s id poll) {read : TaskEvents} (hread : poll.read = some read) :
    KeptAt (p.catchUp poll.task read.areadEvents) calls polls s held todo := by
  have htables := catchUp_tables p poll.task read.areadEvents
  refine ⟨htables.feedLive ▸ h.server, h.tables_catchUp _ _, h.referenced, fun id' c hc => ?_,
    h.poll⟩
  by_cases hmine : s.Own id' poll.task
  swap
  · exact h.call_catchUp hc hmine (fun _ _ => Iff.rfl) _
  obtain rfl := hmine.unique hpoll.own
  have hk := h.call id' c hc
  refine hk.mono (fun _ => Iff.rfl) (fun _ => List.prefix_refl _) (fun _ _ => rfl)
    (fun hl => htables.feedLive.trans hl) (fun _ => by rw [htables.assUpdateQueues])
    (fun hnone => absurd hmine (hnone _)) fun t stage hown hstage hf => ?_
  obtain rfl := h.referenced.once t _ id' hown hmine
  -- only a call that takes events has a reading task
  obtain ⟨c', hc', hstreaming⟩ := hpoll.call
  obtain rfl := Option.some.inj (hc.symm.trans hc')
  obtain rfl := hstreaming stage hstage
  rw [h.view_catchUp hc (hk.registered (by rw [hstage]; rfl)) hown hf hf.stands.1]
  exact hf.polled (h.server.ok id' _) (hpoll.read read hread)

/-! ## What concerns one call -/

theorem PollKept.setCall {id' : ℕ} {poll : Poll} {c' : AssignCall} (h : PollKept calls s id' poll)
    (hc : calls.get? id = some c)
    (hstage : (∀ stage, c.phase.stage = some stage → stage = .streaming) →
      ∀ stage, c'.phase.stage = some stage → stage = .streaming) :
    PollKept (calls.set id c') s id' poll := by
  refine ⟨h.own, ?_, h.read⟩
  obtain ⟨c₀, hc₀, hstreaming⟩ := h.call
  rw [Dict.get?_set]
  split
  · rename_i heq
    subst heq
    obtain rfl := Option.some.inj (hc.symm.trans hc₀)
    exact ⟨c', rfl, hstage hstreaming⟩
  · exact ⟨c₀, hc₀, hstreaming⟩

/-- An event that concerns one call, and keeps its reference. -/
theorem KeptAt.concerns (h : KeptAt p calls polls s held todo) (hc : calls.get? id = some c)
    (c' : AssignCall) (hreference : c'.reference = c.reference) (hlive : p'.feedLive = p.feedLive)
    (htables : TablesKept p' calls s todo)
    (hothers : ∀ id' c₀, id' ≠ id → calls.get? id' = some c₀ → CallKept p' s held todo id' c₀)
    (hmine : CallKept p' s held todo id c')
    (hpolls : ∀ id' poll, polls'.get? id' = some poll → PollKept (calls.set id c') s id' poll) :
    KeptAt p' (calls.set id c') polls' s held todo := by
  have hget : ∀ id' c₀, (calls.set id c').get? id' = some c₀ →
      ∃ c₁, calls.get? id' = some c₁ ∧ c₁.reference = c₀.reference := by
    intro id' c₀ h₀
    rcases Dict.get?_set_eq_some.mp h₀ with ⟨rfl, rfl⟩ | ⟨-, hold⟩
    · exact ⟨c, hc, hreference.symm⟩
    · exact ⟨c₀, hold, rfl⟩
  have hset : ∀ id' c₀, calls.get? id' = some c₀ →
      ∃ c₁, (calls.set id c').get? id' = some c₁ ∧ c₁.reference = c₀.reference := by
    intro id' c₀ h₀
    rw [Dict.get?_set]
    split
    · rename_i heq
      subst heq
      obtain rfl := Option.some.inj (hc.symm.trans h₀)
      exact ⟨c', rfl, hreference⟩
    · exact ⟨c₀, h₀, rfl⟩
  refine ⟨hlive ▸ h.server, ⟨htables.bound, htables.back, fun r q hr => ?_, htables.unknown,
    htables.todo⟩, ⟨fun t r id' ht => ?_, h.referenced.once, fun id₁ id₂ c₁ c₂ h₁ h₂ heq => ?_,
    fun t assign id' c₀ h₀ ht => ?_⟩, fun id' c₀ h₀ => ?_, hpolls⟩
  · obtain ⟨c₀, h₀, rfl⟩ := htables.queue r q hr
    exact hset q c₀ h₀
  · obtain ⟨c₀, h₀, rfl⟩ := h.referenced.assigned t r id' ht
    obtain ⟨c₁, h₁, heq⟩ := hset id' c₀ h₀
    exact ⟨c₁, h₁, by rw [heq]⟩
  · obtain ⟨c₁', h₁', heq₁⟩ := hget id₁ c₁ h₁
    obtain ⟨c₂', h₂', heq₂⟩ := hget id₂ c₂ h₂
    exact h.referenced.references id₁ id₂ c₁' c₂' h₁' h₂' (heq₁.trans (heq.trans heq₂.symm))
  · obtain ⟨c₁, h₁, heq⟩ := hget id' c₀ h₀
    exact h.referenced.foreign t assign id' c₁ h₁ (heq ▸ ht)
  · rcases Dict.get?_set_eq_some.mp h₀ with ⟨rfl, rfl⟩ | ⟨hne, hold⟩
    · exact hmine
    · exact hothers id' c₀ hne hold

/-- A call goes on to another phase, where it follows its task if that is one that does. -/
theorem CallKept.setPhase (h : CallKept p s held todo id c) {phase : AssignPhase}
    (htask : ∀ t, phase.task = some t → c.phase.task = some t)
    (hstage : ∀ stage', phase.stage = some stage' → ∃ stage, c.phase.stage = some stage ∧
      ∀ t, s.Own id t → (view p s held todo id t).Follows c.handed stage →
        (view p s held todo id t).Follows c.handed stage') :
    CallKept p s held todo id { c with phase := phase } where
  task := fun t ht => h.task t (ht.imp_left (htask t))
  untold := by
    intro hnone
    obtain ⟨hphase, hhanded⟩ := h.untold hnone
    refine ⟨Option.eq_none_iff_forall_ne_some.mpr fun t ht => ?_, hhanded⟩
    rw [htask t ht] at hphase
    cases hphase
  unassigned := h.unassigned
  handed := h.handed
  registered := by
    intro hsome
    obtain ⟨stage', hstage'⟩ := Option.isSome_iff_exists.mp hsome
    obtain ⟨stage, hold, -⟩ := hstage stage' hstage'
    exact h.registered (by rw [hold]; rfl)
  follows := by
    intro t stage' hown hstage'
    obtain ⟨stage, hold, hkeeps⟩ := hstage stage' hstage'
    exact hkeeps t hown (h.follows t stage hown hold)
  wasLive := h.wasLive

/-- A call goes on to another phase, and nothing else happens. -/
theorem KeptAt.setPhase (h : KeptAt p calls polls s held todo) (hc : calls.get? id = some c)
    {phase : AssignPhase} (htask : ∀ t, phase.task = some t → c.phase.task = some t)
    (hstage : ∀ stage', phase.stage = some stage' → ∃ stage, c.phase.stage = some stage ∧
      (stage = .streaming → stage' = .streaming) ∧
      ∀ t, s.Own id t → (view p s held todo id t).Follows c.handed stage →
        (view p s held todo id t).Follows c.handed stage') :
    KeptAt p (calls.set id { c with phase := phase }) polls s held todo := by
  refine h.concerns hc { c with phase := phase } rfl rfl h.tables
    (fun id' c₀ _ h₀ => h.call id' c₀ h₀) ((h.call id c hc).setPhase htask fun stage' hs => ?_)
    fun id' poll hpoll => (h.poll id' poll hpoll).setCall hc fun hstreaming stage' hs => ?_
  · obtain ⟨stage, hold, -, hkeeps⟩ := hstage stage' hs
    exact ⟨stage, hold, hkeeps⟩
  · obtain ⟨stage, hold, hkeeps, -⟩ := hstage stage' hs
    exact hkeeps (hstreaming stage hold)

end PostmanWorld

end Rekuest
