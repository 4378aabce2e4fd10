import Rekuest.Client.Supplied

/-!
# GraphQL call streams are complete

Wherever a run leads, a call that was neither cancelled nor closed can be handed every event its
task has reported, without anything happening but what the call itself waits for, what the task
that reads for it does, and what `watch_tasks` does. While the feed has delivered nothing, the
reading task brings what is missing; from then on, the feed does.
-/

namespace Rekuest

open Runs GraphQLPostman

/-- The reader is the call, the task that reads for it, or `watch_tasks`. -/
def Reader.For (id : ℕ) : Reader → Prop
  | .call q | .poll q => q = id
  | .watch => True

/-- What the call `id` waits for, whose assign created the task `t`: the answer to the assign, what
the call and its reading task do, and what `watch_tasks` does. -/
def PostmanAct.Serves (id : ℕ) (t : String) : PostmanAct → Prop
  | .answer call task => call = id ∧ task = t
  | .read reader => reader.For id
  | .readDone reader succeeds => reader.For id ∧ succeeds = true
  | .wake call | .take call | .next call => call = id
  | .deliver => True
  | _ => False

namespace PostmanWorld

variable {w w' : PostmanWorld} {act : PostmanAct} {id : ℕ} {c c' : AssignCall} {t : String}

/-! ## What a call waits for

The server's answers, the reading task, `watch_tasks` and the consumer that takes the next event:
none of these touches the other calls, and none lets a task report anything.
-/

/-- The tasks and the other calls are what they were. -/
structure Spares (id : ℕ) (w w' : PostmanWorld) : Prop where
  log : w'.server.log = w.server.log
  created : w'.server.created = w.server.created
  calls : ∀ id', id' ≠ id → w'.calls.get? id' = w.calls.get? id'

theorem Spares.refl (id : ℕ) (w : PostmanWorld) : Spares id w w := ⟨rfl, rfl, fun _ _ => rfl⟩

theorem Spares.trans {u : PostmanWorld} (h : Spares id w u) (h' : Spares id u w') :
    Spares id w w' :=
  ⟨h'.log.trans h.log, h'.created.trans h.created,
    fun id' hne => (h'.calls id' hne).trans (h.calls id' hne)⟩

theorem Spares.of_same (hlog : w'.server.log = w.server.log)
    (hcreated : w'.server.created = w.server.created) (hcalls : w'.calls = w.calls) :
    Spares id w w' :=
  ⟨hlog, hcreated, fun _ _ => by rw [hcalls]⟩

theorem Spares.of_set (hserver : w'.server = w.server) (hcalls : w'.calls = w.calls.set id c') :
    Spares id w w' := by
  refine ⟨by rw [hserver], by rw [hserver], fun id' hne => ?_⟩
  rw [hcalls, Dict.get?_set, if_neg hne]

theorem Spares.watchOn (h : Spares id w w') (todo : List String) (change : TaskChangeEvent) :
    Spares id w (w'.watchOn todo change) := by
  cases todo with
  | nil => exact h.trans (.of_same rfl rfl rfl)
  | cons task todo => exact h.trans (.of_same rfl rfl rfl)

theorem spares_read {reader : Reader} (ha : reader.For id) (hs : w.read reader = some w') :
    Spares id w w' := by
  cases reader with
  | call q =>
    obtain rfl : q = id := ha
    obtain ⟨c, -, hs⟩ := Option.bind_eq_some_iff.mp hs
    split at hs
    · obtain rfl := Option.some.inj hs
      exact .of_set rfl rfl
    · cases hs
  | poll q =>
    simp only [read] at hs
    split at hs
    · obtain rfl := Option.some.inj hs
      exact .of_same rfl rfl rfl
    · cases hs
  | watch =>
    simp only [read] at hs
    split at hs
    · obtain rfl := Option.some.inj hs
      exact .of_same rfl rfl rfl
    · cases hs

theorem spares_afterRead {read : Option TaskEvents} {succeeds : Bool}
    (hs : w.afterRead t read succeeds = some w') : Spares id w w' := by
  rw [afterRead] at hs
  split at hs
  · obtain ⟨r, -, rfl⟩ := Option.map_eq_some_iff.mp hs
    exact .of_same rfl rfl rfl
  · obtain rfl := Option.some.inj hs
    exact .refl id _

theorem spares_readDone {reader : Reader} {succeeds : Bool} (ha : reader.For id)
    (hs : w.readDone succeeds reader = some w') : Spares id w w' := by
  cases reader with
  | call q =>
    obtain rfl : q = id := ha
    obtain ⟨c, -, hs⟩ := Option.bind_eq_some_iff.mp hs
    split at hs
    · obtain ⟨u, hu, rfl⟩ := Option.map_eq_some_iff.mp hs
      refine (spares_afterRead hu).trans ?_
      rw [caughtUp]
      split
      · exact .of_set rfl rfl
      · exact .of_set rfl rfl
    · cases hs
  | poll q =>
    simp only [readDone] at hs
    split at hs
    · obtain ⟨u, hu, rfl⟩ := Option.map_eq_some_iff.mp hs
      exact (spares_afterRead hu).trans (.of_same rfl rfl rfl)
    · cases hs
  | watch =>
    simp only [readDone] at hs
    split at hs
    · obtain ⟨u, hu, rfl⟩ := Option.map_eq_some_iff.mp hs
      exact (spares_afterRead hu).watchOn _ _
    · cases hs

/-- What a call waits for concerns no other call, and lets no task report anything. -/
theorem spares_step (ha : act.Serves id t) (hs : step w act = some w') : Spares id w w' := by
  cases act with
  | answer q task =>
    obtain ⟨rfl, rfl⟩ : q = id ∧ task = t := ha
    obtain ⟨c, -, hs⟩ := Option.bind_eq_some_iff.mp hs
    simp only [answered] at hs
    split at hs
    · obtain rfl := Option.some.inj hs
      exact .of_set rfl rfl
    · obtain rfl := Option.some.inj hs
      exact .of_set rfl rfl
    · cases hs
  | read reader => exact spares_read ha hs
  | readDone reader succeeds => exact spares_readDone ha.1 hs
  | wake q =>
    simp only [step] at hs
    split at hs
    · obtain rfl := Option.some.inj hs
      exact .of_same rfl rfl rfl
    · cases hs
  | deliver =>
    simp only [step] at hs
    split at hs
    · split at hs
      · obtain rfl := Option.some.inj hs
        refine Spares.watchOn ?_ _ _
        exact .of_same rfl rfl rfl
      · obtain rfl := Option.some.inj hs
        refine Spares.watchOn ?_ _ _
        exact .of_same rfl rfl rfl
    · cases hs
  | take q =>
    obtain rfl : q = id := ha
    obtain ⟨c, -, hs⟩ := Option.bind_eq_some_iff.mp hs
    split at hs
    · obtain ⟨⟨item, u⟩, hpop, rfl⟩ := Option.map_eq_some_iff.mp hs
      obtain ⟨items, -, rfl⟩ := pop_eq_some hpop
      cases item with
      | event event => exact .of_set rfl rfl
      | feedLost reason => exact .of_set rfl rfl
    · cases hs
  | next q =>
    obtain rfl : q = id := ha
    obtain ⟨c, -, hs⟩ := Option.bind_eq_some_iff.mp hs
    split at hs
    · obtain rfl := Option.some.inj hs
      exact .of_set rfl rfl
    · cases hs
  | _ => exact ha.elim

theorem assumed_of_serves (hown : w.server.Own id t) (ha : act.Serves id t) : Assumed w act := by
  cases act with
  | answer q task =>
    obtain ⟨rfl, rfl⟩ : q = id ∧ task = t := ha
    exact hown
  | readDone reader succeeds => exact ha.2
  | read reader => trivial
  | wake q => trivial
  | take q => trivial
  | next q => trivial
  | deliver => trivial
  | _ => exact ha.elim

theorem Supplied.reaches (h : w.Supplied) (hown : w.server.Own id t)
    (hr : Reaches step (PostmanAct.Serves id t) w w') : w'.Supplied ∧ Spares id w w' := by
  refine hr.invariant (I := fun u => u.Supplied ∧ Spares id w u) ⟨h, .refl id w⟩ ?_
  intro u act u' hu ha hs
  have hown' : u.server.Own id t := by
    rw [TaskServer.Own, hu.2.created]
    exact hown
  exact ⟨supplied_step hu.1 (assumed_of_serves hown' ha) hs, hu.2.trans (spares_step ha hs)⟩

/-! ## A call is told its task -/

/-- Call `id` takes the events of its task `t`. -/
structure Streams (w : PostmanWorld) (id : ℕ) (t : String) (c : AssignCall) : Prop where
  supplied : w.Supplied
  call : w.calls.get? id = some c
  own : w.server.Own id t
  stage : c.phase.stage = some .streaming

/-- What the call sees of its task. -/
def seenBy (w : PostmanWorld) (id : ℕ) (t : String) : TaskView :=
  view w.postman w.server w.watch.held w.watch.todo id t

theorem Streams.follows (h : Streams w id t c) : (w.seenBy id t).Follows c.handed .streaming :=
  (h.supplied.kept.kept.call id c h.call).follows t _ h.own h.stage

/-- What a call knows was handed over, or waits in its queue. -/
theorem Streams.known (h : Streams w id t c) :
    (w.seenBy id t).known c.handed = c.handed ++ w.postman.queued id := by
  rw [TaskView.known, h.follows.flushed h.follows.stands.1, List.append_nil]
  rfl

theorem Streams.phase (h : Streams w id t c) : c.phase = .streaming t ∨ c.phase = .suspended t := by
  have hstage := h.stage
  have htask : ∀ task, c.phase.task = some task → task = t := fun task htask =>
    h.supplied.kept.kept.referenced.once task t id
      ((h.supplied.kept.kept.call id c h.call).task task (Or.inl htask)) h.own
  cases hphase : c.phase <;> rw [hphase] at hstage htask
  case streaming task => exact Or.inl (by rw [htask task rfl])
  case suspended task => exact Or.inr (by rw [htask task rfl])
  all_goals cases hstage

theorem Streams.reaches (h : Streams w id t c)
    (hr : Reaches step (PostmanAct.Serves id t) w w') (hc : w'.calls.get? id = some c')
    (hstage : c'.phase.stage = some .streaming) : Streams w' id t c' := by
  obtain ⟨hsupplied, hspares⟩ := h.supplied.reaches h.own hr
  refine ⟨hsupplied, hc, ?_, hstage⟩
  rw [TaskServer.Own, hspares.created]
  exact h.own

/-- A call that reads its task's history comes to take events. -/
theorem reaches_readDone (t : String) {task : String} {read : Option TaskEvents}
    (hc : w.calls.get? id = some c) (hphase : c.phase = .catchingUp task read) :
    ∃ w' c', Reaches step (PostmanAct.Serves id t) w w' ∧ w'.calls.get? id = some c' ∧
      c'.phase.stage = some .streaming := by
  have hdone : ∀ {u : PostmanWorld} {c : AssignCall} {r : TaskEvents},
      u.calls.get? id = some c → c.phase = .catchingUp task (some r) →
      ∃ w' c', Reaches step (PostmanAct.Serves id t) u w' ∧ w'.calls.get? id = some c' ∧
        c'.phase.stage = some .streaming := by
    intro u c r hc hphase
    have hs : step u (.readDone (.call id) true) =
        some ((u.catchUp task r).caughtUp id c task) := by
      simp [step, readDone, hc, hphase, afterRead]
    refine ⟨_, { c with phase := .streaming task },
      .single (.readDone (.call id) true) ⟨rfl, rfl⟩ hs, ?_, rfl⟩
    rw [(calls_caughtUp _ id c task).1, Dict.get?_set, if_pos rfl]
  cases read with
  | some r => exact hdone hc hphase
  | none =>
    have hs : step w (.read (.call id)) = some (w.setCall id
        { c with phase := .catchingUp task (some (w.server.taskEvents task)) }) := by
      simp [step, PostmanWorld.read, hc, hphase]
    obtain ⟨w', c', hr, hc', hstage⟩ := hdone (get?_setCall w id
      { c with phase := .catchingUp task (some (w.server.taskEvents task)) }) rfl
    exact ⟨w', c', .trans (.single (.read (.call id)) rfl hs) hr, hc', hstage⟩

/-- Wherever a call is that was not cancelled or closed, it comes to take events. -/
theorem exists_streams (h : w.Supplied) (hc : w.calls.get? id = some c)
    (hown : w.server.Own id t) (hstage : c.phase.stage.isSome) :
    ∃ w' c', Reaches step (PostmanAct.Serves id t) w w' ∧ Streams w' id t c' := by
  have hreached : ∀ {w' : PostmanWorld} {c' : AssignCall},
      Reaches step (PostmanAct.Serves id t) w w' → w'.calls.get? id = some c' →
      c'.phase.stage = some .streaming →
      ∃ w' c', Reaches step (PostmanAct.Serves id t) w w' ∧ Streams w' id t c' := by
    intro w' c' hr hc' hstage'
    obtain ⟨hsupplied, hspares⟩ := h.reaches hown hr
    refine ⟨w', c', hr, hsupplied, hc', ?_, hstage'⟩
    rw [TaskServer.Own, hspares.created]
    exact hown
  cases hphase : c.phase with
  | assigning =>
    have hs : step w (.answer id t) = some
        ({ w with postman := w.postman.bind t c.reference }.setCall id { c with
          task := some t
          phase := if c.feedWasLive then .streaming t else .catchingUp t none }) := by
      simp [step, hc, answered, hphase]
    cases hwas : c.feedWasLive with
    | true =>
      refine hreached (.single (.answer id t) ⟨rfl, rfl⟩ hs) (get?_setCall _ id _) ?_
      rw [hwas]
      rfl
    | false =>
      rw [if_neg (by simp [hwas])] at hs
      obtain ⟨w', c', hr, hc', hstage'⟩ := reaches_readDone t (get?_setCall _ id
        { c with task := some t, phase := .catchingUp t none }) rfl
      exact hreached (.trans (.single (.answer id t) ⟨rfl, rfl⟩ hs) hr) hc' hstage'
  | catchingUp task read =>
    obtain ⟨w', c', hr, hc', hstage'⟩ := reaches_readDone t hc hphase
    exact hreached hr hc' hstage'
  | streaming task => exact hreached (.refl w) hc (by rw [hphase]; rfl)
  | suspended task => exact hreached (.refl w) hc (by rw [hphase]; rfl)
  | _ =>
    rw [hphase] at hstage
    cases hstage

/-! ## The queue is taken to the end -/

/-- The call takes the event that is first in its queue. -/
theorem Streams.take (h : Streams w id t c) {event : TaskEventChange} {items : List QueueItem}
    (hqueue : w.postman.queues id = .event event :: items) :
    ∃ w' c', Reaches step (PostmanAct.Serves id t) w w' ∧ Streams w' id t c' ∧
      c'.handed = c.handed ++ [event] ∧ w'.postman.queues id = items := by
  have htake : ∀ {u : PostmanWorld} {c : AssignCall}, Streams u id t c → c.phase = .streaming t →
      u.postman.queues id = .event event :: items →
      ∃ w' c', Reaches step (PostmanAct.Serves id t) u w' ∧ Streams w' id t c' ∧
        c'.handed = c.handed ++ [event] ∧ w'.postman.queues id = items := by
    intro u c h hphase hqueue
    have hs : step u (.take id) = some ({ u with postman := { u.postman with
        queues := Function.update u.postman.queues id items } }.setCall id
          { c with handed := c.handed ++ [event], phase := .suspended t }) := by
      simp [step, h.call, hphase, pop, hqueue, took]
    have hr := Reaches.single (A := PostmanAct.Serves id t) (.take id) rfl hs
    refine ⟨_, _, hr, h.reaches hr (get?_setCall _ id _) rfl, rfl, ?_⟩
    exact Function.update_self _ _ _
  obtain hphase | hphase := h.phase
  · exact htake h hphase hqueue
  · have hs : step w (.next id) = some (w.setCall id { c with phase := .streaming t }) := by
      simp [step, h.call, hphase]
    have hr := Reaches.single (A := PostmanAct.Serves id t) (.next id) rfl hs
    have hnext := h.reaches hr (get?_setCall w id _) rfl
    obtain ⟨w', c', hr', h', hhanded, hrest⟩ := htake hnext rfl hqueue
    exact ⟨w', c', hr.trans hr', h', hhanded, hrest⟩

/-- All that waits in the queue can be handed over. -/
theorem Streams.drain (h : Streams w id t c) :
    ∃ w' c', Reaches step (PostmanAct.Serves id t) w w' ∧ Streams w' id t c' ∧
      c'.handed = c.handed ++ w.postman.queued id := by
  induction hqueue : w.postman.queues id generalizing w c with
  | nil => exact ⟨w, c, .refl w, h, by simp [queued, hqueue]⟩
  | cons item items ih =>
    cases item with
    | feedLost reason =>
      have hnone := h.supplied.unmarked id
      simp [lost, hqueue, QueueItem.lost?] at hnone
    | event event =>
      obtain ⟨u, c₁, hr, hu, hhanded, hrest⟩ := h.take hqueue
      obtain ⟨w', c', hr', h', hall⟩ := ih hu hrest
      refine ⟨w', c', hr.trans hr', h', ?_⟩
      rw [hall, hhanded]
      simp [queued, hqueue, hrest, QueueItem.event?]

/-! ## While the feed has delivered nothing

The reading task of the call asks the server for what its task reported, and puts it in the queue.
-/

/-- The reading task of the call asks the server. -/
theorem exists_polling (t : String) {poll : Poll} (hpoll : w.polls.get? id = some poll)
    (hdead : w.postman.feedLive = false) :
    ∃ w', Reaches step (PostmanAct.Serves id t) w w' ∧ w'.calls = w.calls ∧
      w'.postman.feedLive = false ∧ w'.polls.get? id = some (.reading poll.task none) := by
  have hwake : ∀ {u : PostmanWorld} {task : String}, u.polls.get? id = some (.sleeping task) →
      u.postman.feedLive = false →
      ∃ w', Reaches step (PostmanAct.Serves id t) u w' ∧ w'.calls = u.calls ∧
        w'.postman.feedLive = false ∧ w'.polls.get? id = some (.reading task none) := by
    intro u task hpoll hdead
    have hs : step u (.wake id) = some
        { u with polls := u.polls.set id (.reading task none) } := by
      simp [step, hpoll, hdead]
    exact ⟨_, .single (.wake id) rfl hs, rfl, hdead, by rw [Dict.get?_set, if_pos rfl]⟩
  cases poll with
  | sleeping task => exact hwake hpoll hdead
  | reading task read =>
    cases read with
    | none => exact ⟨w, .refl w, rfl, hdead, hpoll⟩
    | some r =>
      have hlive := (catchUp_tables w.postman task r.areadEvents).feedLive
      have hs : step w (.readDone (.poll id) true) = some ((w.catchUp task r).polled id task) := by
        simp [step, readDone, hpoll, afterRead]
      have hasleep : ((w.catchUp task r).polled id task).polls.get? id = some (.sleeping task) := by
        have hdead' : (w.catchUp task r).postman.feedLive = false := hlive.trans hdead
        simp [PostmanWorld.polled, hdead']
      obtain ⟨w', hr, hcalls, hdead', hpoll'⟩ := hwake hasleep (hlive.trans hdead)
      exact ⟨w', .trans (.single (.readDone (.poll id) true) ⟨rfl, rfl⟩ hs) hr, hcalls, hdead',
        hpoll'⟩

/-- The reading task puts what the task has reported in the call's queue. -/
theorem Streams.polled (h : Streams w id t c) (hdead : w.postman.feedLive = false) :
    ∃ w', Reaches step (PostmanAct.Serves id t) w w' ∧ Streams w' id t c ∧
      (w'.seenBy id t).known c.handed = w'.server.historyOf t := by
  obtain ⟨poll, hpoll⟩ := Option.isSome_iff_exists.mp
    (h.supplied.reading id c h.call h.stage hdead)
  have htask : poll.task = t := h.supplied.kept.kept.referenced.once _ _ id
    (h.supplied.kept.kept.poll id poll hpoll).own h.own
  obtain ⟨u, hr, hcalls, hdead', hpoll'⟩ := exists_polling t hpoll hdead
  rw [htask] at hpoll'
  have hu : Streams u id t c := h.reaches hr (by rw [hcalls]; exact h.call) h.stage
  -- the server answers with all the task has reported
  have hread : step u (.read (.poll id)) = some { u with
      polls := u.polls.set id (.reading t (some (u.server.taskEvents t))) } := by
    simp [step, PostmanWorld.read, hpoll']
  have hdone : step { u with polls := u.polls.set id (.reading t (some (u.server.taskEvents t))) }
      (.readDone (.poll id) true) = some (PostmanWorld.polled
        ({ u with polls := u.polls.set id (.reading t (some (u.server.taskEvents t))) }.catchUp t
          (u.server.taskEvents t)) id t) := by
    simp [step, readDone, afterRead]
  have hr' := hr.trans (.trans (.single (.read (.poll id)) rfl hread)
    (.single (.readDone (.poll id) true) ⟨rfl, rfl⟩ hdone))
  refine ⟨_, hr', h.reaches hr' hu.call h.stage, ?_⟩
  have hf := hu.follows
  have hregistered := (hu.supplied.kept.kept.call id c hu.call).registered (by rw [hu.stage]; rfl)
  have hview := hu.supplied.kept.kept.view_catchUp hu.call hregistered hu.own hf hf.stands.1
    (u.server.historyOf t)
  obtain ⟨hpre, -, hle⟩ := TaskView.Ordered.merge (hu.supplied.kept.kept.server.ok id t)
    (hf.flushed hf.stands.1) hf.stands.2 (List.prefix_refl (u.server.historyOf t))
  show (view (u.postman.catchUp t (u.server.taskEvents t).areadEvents) u.server u.watch.held
    u.watch.todo id t).known c.handed = u.server.historyOf t
  rw [TaskServer.areadEvents_taskEvents, hview]
  exact hpre.eq_of_length_le hle

/-! ## Once the feed is live

Every event the task reported is routed already, or is still to be delivered. `watch_tasks` first
has to be through with the tasks it catches up.
-/

/-- `watch_tasks` goes on, once the read it waits for was answered. -/
theorem exists_watchOn (id : ℕ) (t : String) {task : String} {todo : List String}
    {read : Option TaskEvents} {change : TaskChangeEvent}
    (hwatch : w.watch = .catchingUp task todo read change) :
    ∃ u : PostmanWorld, Reaches step (PostmanAct.Serves id t) w (u.watchOn todo change) ∧
      u.calls = w.calls ∧ u.postman.feedLive = w.postman.feedLive := by
  have hdone : ∀ {v : PostmanWorld} {r : TaskEvents},
      v.watch = .catchingUp task todo (some r) change →
      step v (.readDone .watch true) = some ((v.catchUp task r).watchOn todo change) := by
    intro v r hwatch
    simp [step, readDone, hwatch, afterRead]
  have hlive : ∀ (v : PostmanWorld) (r : TaskEvents),
      (v.catchUp task r).postman.feedLive = v.postman.feedLive := fun v r =>
    (catchUp_tables v.postman task r.areadEvents).feedLive
  cases read with
  | some r =>
    exact ⟨w.catchUp task r, .single (.readDone .watch true) ⟨trivial, rfl⟩ (hdone hwatch), rfl,
      hlive w r⟩
  | none =>
    have hread : step w (.read .watch) = some { w with
        watch := .catchingUp task todo (some (w.server.taskEvents task)) change } := by
      simp [step, PostmanWorld.read, hwatch]
    refine ⟨_, .trans (.single (.read .watch) trivial hread)
      (.single (.readDone .watch true) ⟨trivial, rfl⟩ (hdone rfl)), rfl, hlive _ _⟩

/-- `watch_tasks` catches up the tasks it has to, and waits for the next change. -/
theorem exists_idle (id : ℕ) (t : String) {task : String} {todo : List String}
    {read : Option TaskEvents} {change : TaskChangeEvent}
    (hwatch : w.watch = .catchingUp task todo read change) :
    ∃ w', Reaches step (PostmanAct.Serves id t) w w' ∧ w'.calls = w.calls ∧
      w'.postman.feedLive = w.postman.feedLive ∧ w'.watch = .idle := by
  induction todo generalizing w task read with
  | nil =>
    obtain ⟨u, hr, hcalls, hlive⟩ := exists_watchOn id t hwatch
    exact ⟨_, hr, hcalls, (feedLive_watchOn u [] change).trans hlive, rfl⟩
  | cons next todo ih =>
    obtain ⟨u, hr, hcalls, hlive⟩ := exists_watchOn id t hwatch
    have hwatch' : (u.watchOn (next :: todo) change).watch = .catchingUp next todo none change :=
      rfl
    obtain ⟨w', hr', hcalls', hlive', hidle⟩ := ih hwatch'
    exact ⟨w', hr.trans hr', hcalls'.trans hcalls, hlive'.trans hlive, hidle⟩

/-- The feed delivers all it has to deliver. -/
theorem exists_delivered (id : ℕ) (t : String) (hidle : w.watch = .idle)
    (hlive : w.postman.feedLive = true) :
    ∃ w', Reaches step (PostmanAct.Serves id t) w w' ∧ w'.calls = w.calls ∧
      w'.postman.feedLive = true ∧ w'.watch = .idle ∧ w'.server.feed = [] := by
  induction hfeed : w.server.feed generalizing w with
  | nil => exact ⟨w, .refl w, rfl, hlive, hidle, hfeed⟩
  | cons change feed ih =>
    have hs : step w .deliver = some
        ({ w with server := { w.server with feed := feed } }.watchOn [] change) := by
      simp [step, hidle, hfeed, hlive]
    have hidle' : ({ w with server := { w.server with feed := feed } }.watchOn [] change).watch =
        .idle := rfl
    obtain ⟨w', hr, hcalls, hdone⟩ := ih hidle' ((feedLive_watchOn _ [] change).trans hlive) rfl
    exact ⟨w', .trans (.single .deliver trivial hs) hr, hcalls, hdone⟩

/-- Nothing is missing where the feed has nothing left to deliver. -/
theorem Streams.known_of_delivered (h : Streams w id t c) (hlive : w.postman.feedLive = true)
    (hidle : w.watch = .idle) (hfeed : w.server.feed = []) :
    (w.seenBy id t).known c.handed = w.server.historyOf t := by
  obtain ⟨hpre, hle⟩ := h.follows.stands.2
  refine hpre.eq_of_length_le ?_
  have hdelivered : (w.seenBy id t).delivered = (w.server.historyOf t).length := by
    simp [seenBy, view, TaskServer.pending, hidle, Watch.held, hfeed]
  have hbehind : (w.seenBy id t).behind = false := by
    simp [seenBy, view, hidle, Watch.todo]
  exact hdelivered ▸ hle hlive hbehind

/-- A live feed brings what is missing. -/
theorem Streams.delivered (h : Streams w id t c) (hlive : w.postman.feedLive = true) :
    ∃ w', Reaches step (PostmanAct.Serves id t) w w' ∧ Streams w' id t c ∧
      (w'.seenBy id t).known c.handed = w'.server.historyOf t := by
  have hidle : ∃ u, Reaches step (PostmanAct.Serves id t) w u ∧ u.calls = w.calls ∧
      u.postman.feedLive = true ∧ u.watch = .idle := by
    cases hwatch : w.watch with
    | idle => exact ⟨w, .refl w, rfl, hlive, hwatch⟩
    | catchingUp task todo read change =>
      obtain ⟨u, hr, hcalls, hlive', hidle⟩ := exists_idle id t hwatch
      exact ⟨u, hr, hcalls, hlive'.trans hlive, hidle⟩
    | off =>
      -- a feed that was subscribed is watched
      refine absurd hwatch (h.supplied.running.mp ?_)
      cases hwatching : w.postman.watching with
      | true => rfl
      | false =>
        have hsubscribed := h.supplied.kept.kept.server.live hlive
        rw [(h.supplied.kept.off hwatching).2.1] at hsubscribed
        cases hsubscribed
  obtain ⟨u, hr, hcalls, hlive', hidle⟩ := hidle
  obtain ⟨w', hr', hcalls', hlive'', hidle', hfeed⟩ := exists_delivered id t hidle hlive'
  have h' : Streams w' id t c :=
    h.reaches (hr.trans hr') (by rw [hcalls', hcalls]; exact h.call) h.stage
  exact ⟨w', hr.trans hr', h', h'.known_of_delivered hlive'' hidle' hfeed⟩

/-- In every run where no reference is used twice, an assign is answered with the task it created,
reads succeed and the feed stays: wherever it leads, a call that was not cancelled or closed can be
handed all that its task has reported, by what it waits for alone. No other call has to do anything
for it, and none is concerned by it. -/
theorem call_completes {acts : List PostmanAct} (hmeets : Meets step Assumed start acts)
    (hrun : exec step start acts = some w) (hc : w.calls.get? id = some c)
    (hown : w.server.Own id t) (hstage : c.phase.stage.isSome) :
    ∃ more w' c', (∀ act ∈ more, act.Serves id t) ∧ exec step w more = some w' ∧
      w'.calls.get? id = some c' ∧ c'.handed = w.server.historyOf t ∧
      w'.server.log = w.server.log ∧
      ∀ id', id' ≠ id → w'.calls.get? id' = w.calls.get? id' := by
  have hsupplied : w.Supplied :=
    exec_invariant_of_meets supplied_start (fun _ _ _ h ha hs => supplied_step h ha hs) hmeets hrun
  obtain ⟨u, c₁, hr, hu⟩ := exists_streams hsupplied hc hown hstage
  have hknown : ∃ v, Reaches step (PostmanAct.Serves id t) u v ∧ Streams v id t c₁ ∧
      (v.seenBy id t).known c₁.handed = v.server.historyOf t := by
    cases hlive : u.postman.feedLive with
    | true => exact hu.delivered hlive
    | false => exact hu.polled hlive
  obtain ⟨v, hr', hv, hall⟩ := hknown
  obtain ⟨w', c', hr'', h', hhanded⟩ := hv.drain
  have hvspares := (hsupplied.reaches hown (hr.trans hr')).2
  have hspares := (hsupplied.reaches hown ((hr.trans hr').trans hr'')).2
  have hcomplete : c'.handed = w.server.historyOf t := by
    rw [hhanded, ← hv.known, hall, TaskServer.historyOf, hvspares.log, TaskServer.historyOf]
  obtain ⟨more, hserves, hexec⟩ := (hr.trans hr').trans hr''
  exact ⟨more, w', c', hserves, hexec, h'.call, hcomplete, hspares.log, hspares.calls⟩

/-- The task reports its event after the call read its history, before the feed is subscribed. -/
def beforeTheFeed : List PostmanAct :=
  [.assign 0 "r" false, .create 0 "t", .answer 0 "t", .read (.call 0), .readDone (.call 0) true,
    .report (eventOf "e1")]

theorem call_completes_beforeTheFeed : ∃ w more w' c', exec step start beforeTheFeed = some w ∧
    exec step w more = some w' ∧ w'.calls.get? 0 = some c' ∧ c'.handed = [eventOf "e1"] := by
  have hmeets : Meets step Assumed start beforeTheFeed := by
    refine meets_cons ⟨by rintro id c ⟨⟩, by rintro t entry ⟨⟩⟩ ?_
    rintro w ⟨⟩
    iterate 5
      refine meets_cons ?_ ?_
      · first | trivial | exact rfl | exact ⟨_, rfl⟩
      rintro w ⟨⟩
    exact meets_nil _
  obtain ⟨w, hw⟩ : ∃ w, exec step start beforeTheFeed = some w := ⟨_, rfl⟩
  have hstands : ∃ c, w.calls.get? 0 = some c ∧ w.server.Own 0 "t" ∧ c.phase.stage.isSome ∧
      w.server.historyOf "t" = [eventOf "e1"] := by
    obtain rfl := Option.some.inj hw
    exact ⟨_, rfl, ⟨_, rfl⟩, rfl, rfl⟩
  obtain ⟨c, hc, hown, hstage, hhistory⟩ := hstands
  obtain ⟨more, w', c', -, hmore, hc', hhanded, -⟩ := call_completes hmeets hw hc hown hstage
  exact ⟨w, more, w', c', hw, hmore, hc', hhanded.trans hhistory⟩

end PostmanWorld

end Rekuest
