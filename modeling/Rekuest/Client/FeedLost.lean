import Rekuest.Client.Alterations
import Rekuest.Client.CatchUp

/-!
# No call waits on a dead feed

A feed that dies puts a marker behind every registered queue, and the next call starts a new one.
The runs below keep which feed each call was registered under and which markers it took, so that a
call that depends on a feed that is gone can be told from one that depends on its successor.
-/

namespace Rekuest

open Runs StableMerge GraphQLPostman

/-- The reason of a `_FeedLost`. -/
def QueueItem.lost? : QueueItem → Option String
  | .event _ => none
  | .feedLost reason => some reason

/-- The reference a call registers under. -/
def PostmanAct.reference : PostmanAct → Option String
  | .assign _ reference _ => some reference
  | _ => none

/-! ## The markers in a queue -/

namespace GraphQLPostman

/-- The markers that wait in a queue. -/
def lost (p : GraphQLPostman) (queue : ℕ) : List String :=
  (p.queues queue).filterMap QueueItem.lost?

variable (p : GraphQLPostman)

theorem lost_events (events : List TaskEventChange) :
    (events.map QueueItem.event).filterMap QueueItem.lost? = [] := by
  induction events with
  | nil => rfl
  | cons event events ih => simp [QueueItem.lost?]

/-- Behind what was read, the leftovers of a queue stay in their order. -/
theorem queues_catchUp {task : String} {queue : ℕ} (h : p.queueOf task = some queue)
    (history : List TaskEventChange) : ∃ (read : List TaskEventChange) (left : List QueueItem),
      (p.catchUp task history).queues queue = read.map QueueItem.event ++ left
        ∧ read.Sublist history ∧ left.Sublist (p.queues queue)
        ∧ left.filterMap QueueItem.lost? = p.lost queue := by
  refine ⟨fresh TaskEventChange.key QueueItem.key? (p.routed task) (p.queues queue) history,
    behind TaskEventChange.key QueueItem.key? history (p.queues queue), ?_,
    fresh_sublist _ _ _ _ _, behind_sublist _ _ _ _, ?_⟩
  · rw [catchUp_eq_merge h]
    exact Function.update_self _ _ _
  · apply filterMap_behind
    intro item k hkey
    cases item with
    | feedLost reason => cases hkey
    | event event => rfl

theorem lost_catchUp (task : String) (history : List TaskEventChange) (q : ℕ) :
    (p.catchUp task history).lost q = p.lost q := by
  cases h : p.queueOf task with
  | none => rw [catchUp_of_none h]
  | some queue =>
    by_cases hq : q = queue
    · subst hq
      obtain ⟨read, left, hqueue, -, -, hleft⟩ := p.queues_catchUp h history
      rw [lost, hqueue, List.filterMap_append, lost_events, List.nil_append, hleft]
    · simp [lost, catchUp, h, hq]

theorem lost_failPending (reason : String) {q : ℕ} (hq : q ∈ p.assUpdateQueues.values) :
    (p.failPending reason).lost q ≠ [] := by
  obtain ⟨n, hqueue, hpos⟩ := p.queues_failPending reason q
  obtain ⟨n, rfl⟩ := Nat.exists_eq_succ_of_ne_zero (hpos hq).ne'
  rw [lost, hqueue, List.replicate_succ, List.filterMap_append]
  simp [QueueItem.lost?]

end GraphQLPostman

/-! ## Events and markers

A feed that dies leaves a marker in every registered queue. Only the call itself takes it out of
there, and whatever is routed or caught up later stands behind what is in front of it.
-/

namespace PostmanWorld

variable {w w' : PostmanWorld} {act : PostmanAct} {id : ℕ} {c : AssignCall}

/-- No event but the call taking it removes a marker from its queue, or puts one in front. -/
theorem lost_step (hc : w.calls.get? id = some c) (htakes : ¬ act.Takes id)
    (hs : step w act = some w') : w.postman.lost id <+: w'.postman.lost id := by
  refine queue_step (R := fun a b => a.filterMap QueueItem.lost? <+: b.filterMap QueueItem.lost?)
    (fun _ _ _ => List.IsPrefix.trans) ?_ (fun p task history => ?_) hc htakes hs
  · rintro _ _ ⟨items, rfl⟩
    rw [List.filterMap_append]
    exact List.prefix_append _ _
  · change p.lost id <+: (p.catchUp task history).lost id
    rw [lost_catchUp]

/-- A call takes the first item of its queue, and no other. -/
theorem takes_step (htakes : act.Takes id) (hs : step w act = some w') :
    ∃ item, w.postman.queues id = item :: w'.postman.queues id := by
  have hfinish : ∀ (u : PostmanWorld) (c : AssignCall) outcome,
      (u.finish id c outcome).postman.queues = u.postman.queues := fun u c _ =>
    (cleanupReference_spec u.postman c.reference).2.2.1
  have hunconfirmed : ∀ (u : PostmanWorld) (c : AssignCall) task wait,
      (u.unconfirmed id c task wait).postman.queues = u.postman.queues := by
    intro u c task wait
    rw [unconfirmed]
    split
    · rfl
    · exact hfinish u c _
  cases act with
  | take id' =>
    obtain rfl : id' = id := htakes
    obtain ⟨c, hc, hs⟩ := Option.bind_eq_some_iff.mp hs
    split at hs
    · rename_i task hphase
      obtain ⟨⟨item, u⟩, hpop, rfl⟩ := Option.map_eq_some_iff.mp hs
      obtain ⟨items, hqueue, rfl⟩ := pop_eq_some hpop
      refine ⟨item, hqueue.trans ?_⟩
      cases item with
      | event event => simp [took, setCall]
      | feedLost reason => simp [took, hfinish]
    · cases hs
  | confirm id' =>
    obtain rfl : id' = id := htakes
    obtain ⟨c, hc, hs⟩ := Option.bind_eq_some_iff.mp hs
    have htook : ∀ {task : String} {wait : Confirmation} {item : QueueItem} {u : PostmanWorld},
        w.pop id' = some (item, u) → w.postman.queues id'
          = item :: (u.confirmed id' c task wait item).postman.queues id' := by
      intro task wait item u hpop
      obtain ⟨items, hqueue, hu⟩ := pop_eq_some hpop
      have htail : u.postman.queues id' = items := by simp [hu]
      rw [hqueue]
      cases item with
      | event event =>
        rw [confirmed]
        split
        · rw [hfinish, htail]
        · rw [htail]
      | feedLost reason => rw [confirmed, hunconfirmed, htail]
    split at hs
    · obtain ⟨⟨item, u⟩, hpop, rfl⟩ := Option.map_eq_some_iff.mp hs
      exact ⟨item, htook hpop⟩
    · obtain ⟨⟨item, u⟩, hpop, rfl⟩ := Option.map_eq_some_iff.mp hs
      exact ⟨item, htook hpop⟩
    · cases hs
  | _ => exact False.elim htakes

/-- A call that takes the marker while it streams ends with the loss. -/
theorem take_lost {task reason : String} {items : List QueueItem} (hc : w.calls.get? id = some c)
    (hphase : c.phase = .streaming task)
    (hqueue : w.postman.queues id = .feedLost reason :: items) :
    ∃ w', step w (.take id) = some w' ∧ w'.calls.get? id = some { c with
      phase := .ended (.postmanException
        ("Lost the task event feed while waiting for task " ++ task ++ ": " ++ reason)) } := by
  refine ⟨_, by
    simp only [step, hc, Option.bind_some, hphase, pop, hqueue, Option.map_some]
    rfl, ?_⟩
  exact Dict.get?_set_eq_some.mpr (Or.inl ⟨rfl, rfl⟩)

/-- A call registered after an event was registered before, or by it. -/
theorem registered_before (hs : step w act = some w') (hc : w'.calls.get? id = some c)
    (hqueue : w'.postman.assUpdateQueues.get? c.reference = some id) :
    (∃ c, w.calls.get? id = some c ∧ w.postman.assUpdateQueues.get? c.reference = some id)
      ∨ ∃ reference escalate, act = .assign id reference escalate := by
  refine invariant_of_step (I := fun s => ∀ c, s.calls.get? id = some c →
    s.postman.assUpdateQueues.get? c.reference = some id →
    (∃ c, w.calls.get? id = some c ∧ w.postman.assUpdateQueues.get? c.reference = some id)
      ∨ ∃ reference escalate, act = .assign id reference escalate)
    (fun c hc hqueue => Or.inl ⟨c, hc, hqueue⟩) hs ?_ c hc hqueue
  intro s s' h ha c' hc' hqueue'
  -- a call that only changed was there, under the same reference
  have hset : ∀ {id' : ℕ} {c₀ c₁ : AssignCall}, s.calls.get? id' = some c₀ →
      (s.calls.set id' c₁).get? id = some c' → c₁.reference = c₀.reference →
      ∃ c, s.calls.get? id = some c ∧ c.reference = c'.reference := by
    intro id' c₀ c₁ h₀ hget href
    obtain ⟨rfl, rfl⟩ | ⟨-, hget⟩ := Dict.get?_set_eq_some.mp hget
    · exact ⟨c₀, h₀, href.symm⟩
    · exact ⟨c', hget, rfl⟩
  cases ha with
  | @register id' reference escalate is new =>
    obtain ⟨rfl, rfl⟩ | ⟨hne, hc'⟩ := Dict.get?_set_eq_some.mp hc'
    · exact Or.inr ⟨reference, escalate, is⟩
    · obtain ⟨-, rfl⟩ | ⟨-, hqueue'⟩ := Dict.get?_set_eq_some.mp hqueue'
      · exact absurd rfl hne
      · exact h c' hc' hqueue'
  | note feedLive catchUpTasks => exact h c' hc' hqueue'
  | watches before after reads => exact h c' hc' hqueue'
  | polls reads => exact h c' hc' hqueue'
  | serves server controls => exact h c' hc' hqueue'
  | bind is calls same => exact h c' hc' ((bind_tables _ _ _).assUpdateQueues ▸ hqueue')
  | route event => exact h c' hc' ((route_tables _ _).assUpdateQueues ▸ hqueue')
  | catchUp reading => exact h c' hc' ((catchUp_tables _ _ _).assUpdateQueues ▸ hqueue')
  | fail is => exact h c' hc' ((failPending_tables _ _).1.assUpdateQueues ▸ hqueue')
  | answer is call live untold told reads =>
    obtain ⟨c₁, h₁, href⟩ := hset call hc' rfl
    exact h c₁ h₁ (href ▸ (bind_tables _ _ _).assUpdateQueues ▸ hqueue')
  | pop is queue => exact h c' hc' hqueue'
  | hand is call phase queue =>
    obtain ⟨c₁, h₁, href⟩ := hset call hc' rfl
    exact h c₁ h₁ (href ▸ hqueue')
  | phase call live same reads =>
    obtain ⟨c₁, h₁, href⟩ := hset call hc' rfl
    exact h c₁ h₁ (href ▸ hqueue')
  | finish call live =>
    obtain ⟨c₁, h₁, href⟩ := hset call hc' rfl
    exact h c₁ h₁ (href ▸ (cleanupReference_sub _ _).2.2.1 _ _ hqueue')

/-- Every call has the reference it was registered under. -/
theorem reference_before (hs : step w act = some w') (hc : w'.calls.get? id = some c) :
    (∃ c', w.calls.get? id = some c' ∧ c'.reference = c.reference)
      ∨ act.reference = some c.reference := by
  refine invariant_of_step (I := fun s => ∀ c, s.calls.get? id = some c →
    (∃ c', w.calls.get? id = some c' ∧ c'.reference = c.reference)
      ∨ act.reference = some c.reference) (fun c hc => Or.inl ⟨c, hc, rfl⟩) hs ?_ c hc
  intro s s' h ha c' hc'
  have hset : ∀ {id' : ℕ} {c₀ c₁ : AssignCall}, s.calls.get? id' = some c₀ →
      (s.calls.set id' c₁).get? id = some c' → c₁.reference = c₀.reference →
      (∃ c₂, w.calls.get? id = some c₂ ∧ c₂.reference = c'.reference)
        ∨ act.reference = some c'.reference := by
    intro id' c₀ c₁ h₀ hget href
    obtain ⟨rfl, rfl⟩ | ⟨-, hget⟩ := Dict.get?_set_eq_some.mp hget
    · rw [href]
      exact h c₀ h₀
    · exact h c' hget
  cases ha with
  | @register id' reference escalate is new =>
    obtain ⟨rfl, rfl⟩ | ⟨-, hc'⟩ := Dict.get?_set_eq_some.mp hc'
    · rw [is]
      exact Or.inr rfl
    · exact h c' hc'
  | answer is call live untold told reads => exact hset call hc' rfl
  | hand is call phase queue => exact hset call hc' rfl
  | phase call live same reads => exact hset call hc' rfl
  | finish call live => exact hset call hc' rfl
  | _ => exact h c' hc'

/-- Only a new call or a dying feed changes whether the feed is watched. -/
theorem watching_step (hassign : ∀ id reference escalate, act ≠ .assign id reference escalate)
    (hends : ∀ reason, act ≠ .feedEnds reason) (hs : step w act = some w') :
    w'.postman.watching = w.postman.watching := by
  refine invariant_of_step (I := fun s => s.postman.watching = w.postman.watching) rfl hs ?_
  intro s s' h ha
  cases ha with
  | register is new => exact absurd is (hassign _ _ _)
  | bind is calls same => exact (bind_tables _ _ _).watching.trans h
  | route event => exact (route_tables _ _).watching.trans h
  | catchUp reading => exact (catchUp_tables _ _ _).watching.trans h
  | fail is => exact absurd is (hends _)
  | answer is call live untold told reads => exact (bind_tables _ _ _).watching.trans h
  | finish call live => exact (cleanupReference_spec _ _).1.trans h
  | _ => exact h

/-- The flag and the task agree on whether the feed is watched. -/
theorem running_step (h : w.postman.watching = true ↔ w.watch ≠ .off) (hs : step w act = some w') :
    w'.postman.watching = true ↔ w'.watch ≠ .off := by
  refine invariant_of_step (I := fun s => s.postman.watching = true ↔ s.watch ≠ .off) h hs ?_
  intro s s' h ha
  have hkept : ∀ {t : PostmanWorld}, t.postman.watching = s.postman.watching → t.watch = s.watch →
      (t.postman.watching = true ↔ t.watch ≠ .off) := fun hwatching hwatch => by
    rw [hwatching, hwatch]
    exact h
  cases ha with
  | register is new =>
    refine iff_of_true rfl ?_
    split
    · rename_i hwatching
      exact h.mp hwatching
    · rintro ⟨⟩
  | watches before after reads => exact iff_of_true (h.mpr before) after
  | bind is calls same => exact hkept (bind_tables _ _ _).watching rfl
  | route event => exact hkept (route_tables _ _).watching rfl
  | catchUp reading => exact hkept (catchUp_tables _ _ _).watching rfl
  | fail is =>
    refine iff_of_false ?_ fun hoff => hoff rfl
    rw [(failPending_tables _ _).1.watching]
    simp
  | answer is call live untold told reads => exact hkept (bind_tables _ _ _).watching rfl
  | finish call live => exact hkept (cleanupReference_spec _ _).1 rfl
  | _ => exact h

/-- A new call leaves the feed watched. -/
theorem watching_assign {reference : String} {escalate : Bool}
    (hs : step w (.assign id reference escalate) = some w') :
    w.calls.get? id = none ∧ w'.postman.watching = true := by
  simp only [step] at hs
  split at hs
  · cases hs
  · rename_i hnew
    obtain rfl := Option.some.inj hs
    refine ⟨hnew, ?_⟩
    change w.startWatching.postman.watching = true
    rw [startWatching]
    split
    · assumption
    · rfl

/-- A feed that dies leaves a marker in every registered queue. -/
theorem lost_feedEnds {reason : String} (hs : step w (.feedEnds reason) = some w')
    {reference : String} (hqueue : w.postman.assUpdateQueues.get? reference = some id) :
    w'.postman.lost id ≠ [] := by
  simp only [step] at hs
  split at hs
  · obtain rfl := Option.some.inj hs
    exact lost_failPending _ _ (Dict.mem_values.mpr ⟨reference, hqueue⟩)
  · cases hs

end PostmanWorld

/-! ## Calls and the feed they depend on

Feeds are counted as they are started, and each call is noted with the feed it was registered under.
A call that depends on a feed that died has a marker waiting, or took one.
-/

/-- The postman's world, with how many feeds were started, the feed each call was registered under
and the markers each call took from its queue. -/
structure FeedWatch where
  world : PostmanWorld
  feeds : ℕ
  under : ℕ → ℕ
  taken : ℕ → List String

namespace FeedWatch

open PostmanWorld (start)

/-- No feed was started. -/
def new : FeedWatch := ⟨PostmanWorld.start, 0, fun _ => 0, fun _ => []⟩

/-- The marker a call finds first in its queue, if there is one. -/
def first (s : FeedWatch) (id : ℕ) : List String :=
  ((s.world.postman.queues id).head?.bind QueueItem.lost?).toList

/-- How many feeds were started once `world` is reached: a call starts one where none is watched. -/
def feedsAfter (s : FeedWatch) (world : PostmanWorld) : ℕ :=
  if world.postman.watching ∧ ¬ s.world.postman.watching then s.feeds + 1 else s.feeds

/-- One event of the world. -/
def step (s : FeedWatch) (act : PostmanAct) : Option FeedWatch :=
  (s.world.step act).map fun world =>
    { world := world
      feeds := s.feedsAfter world
      under := match act with
        | .assign id _ _ => Function.update s.under id (s.feedsAfter world)
        | _ => s.under
      taken := match act with
        | .take id | .confirm id => Function.update s.taken id (s.taken id ++ s.first id)
        | _ => s.taken }

/-- The feed a call was registered under is the one that runs. -/
def UnderRunning (s : FeedWatch) (id : ℕ) : Prop :=
  s.world.watch ≠ .off ∧ s.under id = s.feeds

/-- A call depends on the feed that runs, or finds a marker in its queue, or took one. -/
def Attended (s : FeedWatch) (id : ℕ) : Prop :=
  s.UnderRunning id ∨ s.world.postman.lost id ≠ [] ∨ s.taken id ≠ []

/-- What every run keeps. -/
structure Kept (s : FeedWatch) : Prop where
  registered : s.world.Registered
  running : s.world.postman.watching = true ↔ s.world.watch ≠ .off
  attended : ∀ id c, s.world.calls.get? id = some c →
    s.world.postman.assUpdateQueues.get? c.reference = some id → s.Attended id

variable {s t : FeedWatch} {act : PostmanAct} {id : ℕ}

theorem taken_of_takes (hs : step s act = some t) (htakes : act.Takes id) :
    t.taken id = s.taken id ++ s.first id := by
  obtain ⟨world, -, rfl⟩ := Option.map_eq_some_iff.mp hs
  cases act with
  | take id' =>
    obtain rfl : id' = id := htakes
    simp
  | confirm id' =>
    obtain rfl : id' = id := htakes
    simp
  | _ => exact False.elim htakes

theorem taken_of_not_takes (hs : step s act = some t) (htakes : ¬ act.Takes id) :
    t.taken id = s.taken id := by
  obtain ⟨world, -, rfl⟩ := Option.map_eq_some_iff.mp hs
  cases act with
  | take id' => exact Function.update_of_ne (fun heq => htakes heq.symm) _ _
  | confirm id' => exact Function.update_of_ne (fun heq => htakes heq.symm) _ _
  | _ => rfl

/-- A call depends on the feed that runs until that dies. -/
theorem UnderRunning.step (h : s.UnderRunning id) (hkept : s.Kept) (hs : step s act = some t)
    (hends : ∀ reason, act ≠ .feedEnds reason)
    (hassign : ∀ reference escalate, act ≠ .assign id reference escalate) : t.UnderRunning id := by
  obtain ⟨world, hworld, rfl⟩ := Option.map_eq_some_iff.mp hs
  have hwatching := hkept.running.mpr h.1
  have hfeeds : s.feedsAfter world = s.feeds := by
    rw [feedsAfter, if_neg fun hnot => hnot.2 hwatching]
  refine ⟨?_, ?_⟩
  · refine (PostmanWorld.running_step hkept.running hworld).mp ?_
    by_cases hnew : ∃ id reference escalate, act = .assign id reference escalate
    · obtain ⟨id', reference, escalate, rfl⟩ := hnew
      exact (PostmanWorld.watching_assign hworld).2
    · rw [PostmanWorld.watching_step (fun id' reference escalate heq => hnew ⟨_, _, _, heq⟩) hends
        hworld]
      exact hwatching
  · change _ = s.feedsAfter world
    rw [hfeeds, ← h.2]
    cases act with
    | assign id' reference escalate =>
      refine Function.update_of_ne ?_ _ _
      rintro rfl
      exact hassign _ _ rfl
    | _ => rfl

/-- A call is attended after an event if it was before. -/
theorem Attended.step (h : s.Attended id) (hkept : s.Kept) {c : AssignCall}
    (hc : s.world.calls.get? id = some c)
    (hqueue : s.world.postman.assUpdateQueues.get? c.reference = some id)
    (hs : FeedWatch.step s act = some t) : t.Attended id := by
  obtain ⟨world, hworld, ht⟩ := Option.map_eq_some_iff.mp hs
  have hw : t.world = world := by rw [← ht]
  have hassign : ∀ reference escalate, act ≠ .assign id reference escalate := by
    rintro reference escalate rfl
    rw [(PostmanWorld.watching_assign hworld).1] at hc
    cases hc
  by_cases htakes : act.Takes id
  · have htaken := taken_of_takes hs htakes
    obtain ⟨item, hitem⟩ := PostmanWorld.takes_step htakes hworld
    have hends : ∀ reason, act ≠ .feedEnds reason := by
      rintro reason rfl
      exact htakes
    cases item with
    | feedLost reason =>
      right; right
      rw [htaken]
      simp [first, hitem, QueueItem.lost?]
    | event event =>
      obtain hrunning | hlost | htook := h
      · exact Or.inl (hrunning.step hkept hs hends hassign)
      · right; left
        rw [hw]
        rwa [GraphQLPostman.lost, hitem, List.filterMap_cons_none rfl] at hlost
      · right; right
        rw [htaken]
        simp [htook]
  · have htaken := taken_of_not_takes hs htakes
    obtain hrunning | hlost | htook := h
    · by_cases hends : ∃ reason, act = .feedEnds reason
      · obtain ⟨reason, rfl⟩ := hends
        right; left
        rw [hw]
        exact PostmanWorld.lost_feedEnds hworld hqueue
      · exact Or.inl (hrunning.step hkept hs (fun reason heq => hends ⟨reason, heq⟩) hassign)
    · right; left
      rw [hw]
      intro hnil
      have hlost' := PostmanWorld.lost_step hc htakes hworld
      rw [hnil] at hlost'
      exact hlost (List.prefix_nil.mp hlost')
    · right; right
      rw [htaken]
      exact htook

/-- Every event keeps it, where a new call has a reference of its own. -/
theorem kept_step (h : s.Kept) (hfresh : s.world.FreshReference act) (hs : step s act = some t) :
    t.Kept := by
  obtain ⟨world, hworld, ht⟩ := Option.map_eq_some_iff.mp hs
  have hw : t.world = world := by rw [← ht]
  refine ⟨?_, ?_, fun id c hc hqueue => ?_⟩
  · rw [hw]
    exact h.registered.step hfresh hworld
  · rw [hw]
    exact PostmanWorld.running_step h.running hworld
  · rw [hw] at hc hqueue
    obtain ⟨c₀, hc₀, hqueue₀⟩ | ⟨reference, escalate, rfl⟩ :=
      PostmanWorld.registered_before hworld hc hqueue
    · exact (h.attended id c₀ hc₀ hqueue₀).step h hc₀ hqueue₀ hs
    · -- a new call is registered under the feed that runs from now on
      left
      rw [← ht]
      refine ⟨(PostmanWorld.running_step h.running hworld).mp
        (PostmanWorld.watching_assign hworld).2, ?_⟩
      exact Function.update_self _ _ _

/-! ## In every run -/

theorem kept_new : new.Kept where
  registered := by rintro id c ⟨⟩
  running := by simp [new, PostmanWorld.start, GraphQLPostman.new]
  attended := by rintro id c ⟨⟩

/-- Over a run with distinct references, every call has one of them, and the postman keeps what it
keeps. -/
theorem kept_of_run {acts : List PostmanAct}
    (hdistinct : (acts.filterMap PostmanAct.reference).Nodup) (hrun : exec step new acts = some s) :
    s.Kept := by
  refine (exec_induction (P := fun acts s => (acts.filterMap PostmanAct.reference).Nodup →
    s.Kept ∧ ∀ id c, s.world.calls.get? id = some c →
      c.reference ∈ acts.filterMap PostmanAct.reference)
    (fun _ => ⟨kept_new, by rintro id c ⟨⟩⟩) ?_ hrun hdistinct).1
  intro acts s act t _ ih hs hdistinct
  rw [List.filterMap_append] at hdistinct ⊢
  obtain ⟨hkept, hreferences⟩ := ih (List.nodup_append.mp hdistinct).1
  have hapart := (List.nodup_append.mp hdistinct).2.2
  refine ⟨kept_step hkept ?_ hs, fun id c hc => ?_⟩
  · cases act with
    | assign id reference escalate =>
      intro id' c hc _
      exact hapart _ (hreferences id' c hc) reference (by simp [PostmanAct.reference])
    | _ => trivial
  · obtain ⟨world, hworld, rfl⟩ := Option.map_eq_some_iff.mp hs
    obtain ⟨c', hc', href⟩ | href := PostmanWorld.reference_before hworld hc
    · exact List.mem_append_left _ (href ▸ hreferences id c' hc')
    · refine List.mem_append_right _ ?_
      simp [href]

/-- No call waits on a dead feed. In every run with distinct references: a live call is registered,
and a registered call depends on the feed that runs, or has a marker in its queue, or took one;
only the call's own takes remove a marker, and those one item at a time; a catch-up keeps the
markers behind what it read, in their order; and a call that takes one while it streams ends with
the loss. -/
theorem no_call_waits_on_a_dead_feed {acts : List PostmanAct}
    (hdistinct : (acts.filterMap PostmanAct.reference).Nodup) (hrun : exec step new acts = some s) :
    (∀ id c, s.world.calls.get? id = some c → c.Live →
        s.world.postman.assUpdateQueues.get? c.reference = some id)
      ∧ (∀ id c, s.world.calls.get? id = some c →
        s.world.postman.assUpdateQueues.get? c.reference = some id → s.Attended id)
      ∧ (∀ act t id c, step s act = some t → s.world.calls.get? id = some c →
        (¬ act.Takes id → s.world.postman.lost id <+: t.world.postman.lost id)
        ∧ (act.Takes id → ∃ item, s.world.postman.queues id = item :: t.world.postman.queues id))
      ∧ (∀ task queue history, s.world.postman.queueOf task = some queue →
        ∃ (read : List TaskEventChange) (left : List QueueItem),
          (s.world.postman.catchUp task history).queues queue = read.map .event ++ left
          ∧ read.Sublist history ∧ left.Sublist (s.world.postman.queues queue)
          ∧ left.filterMap QueueItem.lost? = s.world.postman.lost queue)
      ∧ ∀ id c task reason items, s.world.calls.get? id = some c → c.phase = .streaming task →
        s.world.postman.queues id = .feedLost reason :: items →
        ∃ t, step s (.take id) = some t ∧ t.world.calls.get? id = some { c with
          phase := .ended (.postmanException
            ("Lost the task event feed while waiting for task " ++ task ++ ": " ++ reason)) } := by
  have hkept := kept_of_run hdistinct hrun
  refine ⟨hkept.registered, hkept.attended, fun act t id c hs hc => ?_,
    fun task queue history hqueue => s.world.postman.queues_catchUp hqueue history,
    fun id c task reason items hc hphase hqueue => ?_⟩
  · obtain ⟨world, hworld, rfl⟩ := Option.map_eq_some_iff.mp hs
    exact ⟨fun htakes => PostmanWorld.lost_step hc htakes hworld,
      fun htakes => PostmanWorld.takes_step htakes hworld⟩
  · obtain ⟨world, hworld, hended⟩ := PostmanWorld.take_lost hc hphase hqueue
    exact ⟨_, by rw [step, hworld]; rfl, hended⟩

/-- The feed dies while a call reads its history; the next call starts another one. -/
def diesWhileReading : List PostmanAct :=
  [.assign 0 "r0" false, .create 0 "t", .report (PostmanWorld.eventOf "e1"), .subscribe,
    .answer 0 "t", .read (.call 0), .feedEnds "the subscription ended", .assign 1 "r1" false,
    .readDone (.call 0) true, .take 0, .next 0]

theorem no_call_waits_on_a_dead_feed_diesWhileReading :
    ∃ s t, exec step new diesWhileReading = some s ∧ s.feeds = 2
      ∧ s.world.postman.lost 0 = ["the subscription ended"] ∧ s.Attended 1
      ∧ step s (.take 0) = some t := by
  obtain ⟨s, hs⟩ : ∃ s, exec step new diesWhileReading = some s := ⟨_, rfl⟩
  obtain ⟨-, hattended, -, -, hends⟩ := no_call_waits_on_a_dead_feed
    (show (diesWhileReading.filterMap PostmanAct.reference).Nodup by decide) hs
  obtain rfl := Option.some.inj hs
  obtain ⟨t, ht, -⟩ := hends 0 _ "t" "the subscription ended" [] rfl rfl rfl
  exact ⟨_, t, hs, rfl, rfl, hattended 1 _ rfl rfl, ht⟩

end FeedWatch

end Rekuest
