import Rekuest.Client.Kept

/-!
# GraphQL call streams are exact

The events that concern one call keep what the postman keeps, and so does every event, where the
feed stays, reads succeed and references and tasks are the calls' own. What a call was handed is
then the beginning of its task's events, at every moment.
-/

namespace Rekuest

open Runs Backfill GraphQLPostman

namespace PostmanWorld

variable {p p' : GraphQLPostman} {calls calls' : Dict ℕ AssignCall} {polls polls' : Dict ℕ Poll}
  {s s' : TaskServer} {held held' : List TaskChangeEvent} {todo todo' : List String}
  {id : ℕ} {c : AssignCall} {t : String}

/-- A call ends, and is cleaned up after. -/
theorem KeptAt.finish (h : KeptAt p calls polls s held todo) (hc : calls.get? id = some c)
    (outcome : AssignOutcome)
    (hpolls : ∀ id' poll, polls'.get? id' = some poll → polls.get? id' = some poll) :
    KeptAt (p.cleanupReference c.reference) (calls.set id { c with phase := .ended outcome }) polls'
      s held todo := by
  obtain ⟨-, hlive, hqueues, hkept, hothers⟩ := cleanupReference_spec p c.reference
  obtain ⟨hbound, hback, hqueue, hrouted, horphans⟩ := cleanupReference_sub p c.reference
  have hqueued : ∀ q, (p.cleanupReference c.reference).queued q = p.queued q := fun q => by
    rw [queued, hqueues, queued]
  refine h.concerns hc { c with phase := .ended outcome } rfl hlive
    ⟨fun t r ht => h.tables.bound t r (hbound t r ht),
      fun r t hr => h.tables.back r t (hback r t hr),
      fun r q hr => h.tables.queue r q (hqueue r q hr), fun t ht => ?_, h.tables.todo⟩
    (fun id' c₀ hne h₀ => ?_) ?_ fun id' poll hpoll => ?_
  · obtain ⟨hr, ho, htodo⟩ := h.tables.unknown t ht
    exact ⟨hrouted t hr, horphans t ho, htodo⟩
  · refine (h.call id' c₀ h₀).mono (fun _ => Iff.rfl) (fun _ => List.prefix_refl _) (fun _ _ => rfl)
      (fun hl => hlive.trans hl) (fun _ => hkept _ fun heq => ?_) (fun _ => hqueued id')
      fun t stage hown _ hf => ?_
    · exact hne (h.referenced.references id' id c₀ c h₀ hc heq)
    · -- the reference leads to no task of another call
      have hback' : p.referenceToTask.get? c.reference ≠ some t := by
        intro heq
        obtain ⟨assign, hassign⟩ := h.tables.back _ _ heq
        obtain rfl := h.referenced.foreign t assign id c hc hassign
        exact hne (hown.unique ⟨_, hassign⟩)
      obtain ⟨hb, hr, ho⟩ := hothers t hback'
      rwa [view_congr rfl rfl rfl hlive Iff.rfl hb hr ho (hqueued id')]
  · have hk := h.call id c hc
    refine ⟨fun t ht => hk.task t (Or.inr (ht.elim (by rintro ⟨⟩) fun h => h)),
      fun hnone => ⟨rfl, (hk.untold hnone).2⟩, fun hnone => ?_, hk.handed,
      by rintro ⟨⟩, by rintro t stage _ ⟨⟩, fun hwas => ?_⟩
    · rw [hqueued]
      exact hk.unassigned hnone
    · rw [hlive]
      exact hk.wasLive hwas
  · exact (h.poll id' poll (hpolls id' poll hpoll)).setCall hc (by rintro - stage ⟨⟩)

/-- A call takes an item from its own queue. -/
theorem KeptAt.tables_pop (h : KeptAt p calls polls s held todo) (items : List QueueItem) :
    TablesKept { p with queues := Function.update p.queues id items } calls s todo :=
  ⟨h.tables.bound, h.tables.back, h.tables.queue, h.tables.unknown, h.tables.todo⟩

theorem KeptAt.call_pop (h : KeptAt p calls polls s held todo) {id' : ℕ} {c₀ : AssignCall}
    (h₀ : calls.get? id' = some c₀) (hne : id' ≠ id) (items : List QueueItem) :
    CallKept { p with queues := Function.update p.queues id items } s held todo id' c₀ := by
  have hqueued : queued { p with queues := Function.update p.queues id items } id'
      = p.queued id' := by
    simp [queued, hne]
  refine (h.call id' c₀ h₀).mono (fun _ => Iff.rfl) (fun _ => List.prefix_refl _) (fun _ _ => rfl)
    (fun hl => hl) (fun _ => rfl) (fun _ => hqueued) fun t stage _ _ hf => ?_
  have hview : view { p with queues := Function.update p.queues id items } s held todo id' t
      = view p s held todo id' t := view_congr rfl rfl rfl rfl Iff.rfl rfl rfl rfl hqueued
  rwa [hview]

/-- A call hands over the event it took. -/
theorem KeptAt.take (h : KeptAt p calls polls s held todo) (hc : calls.get? id = some c)
    (hphase : c.phase = .streaming t) {event : TaskEventChange} {items : List QueueItem}
    (hitems : p.queues id = .event event :: items) :
    KeptAt { p with queues := Function.update p.queues id items }
      (calls.set id { c with handed := c.handed ++ [event], phase := .suspended t }) polls s held
      todo := by
  have hk := h.call id c hc
  have hown : s.Own id t := hk.task t (Or.inl (by rw [hphase]; rfl))
  have hqueued : p.queued id = event :: items.filterMap QueueItem.event? := by
    rw [queued, hitems]
    rfl
  have hf := (hk.follows t .streaming hown (by rw [hphase]; rfl)).take hqueued
  have hview : view { p with queues := Function.update p.queues id items } s held todo id t
      = { view p s held todo id t with queued := items.filterMap QueueItem.event? } := by
    simp [view, queued, routed, orphans]
  rw [← hview] at hf
  refine h.concerns hc { c with handed := c.handed ++ [event], phase := .suspended t } rfl rfl
    (h.tables_pop items) (fun id' c₀ hne h₀ => h.call_pop h₀ hne items) ?_
    fun id' poll hpoll => (h.poll id' poll hpoll).setCall hc fun _ stage hstage => ?_
  · refine ⟨?_, fun hnone => ?_, fun hnone => absurd hown (hnone t), fun t' ht' => ?_, fun _ => ?_,
      ?_, hk.wasLive⟩
    · rintro t' (ht' | ht')
      · cases ht'
        exact hown
      · exact hk.task t' (Or.inr ht')
    · have hphase' := (hk.untold hnone).1
      rw [hphase] at hphase'
      cases hphase'
    · -- one assign creates one task
      obtain rfl := h.referenced.once t t' id hown ht'
      exact hf.handed_first
    · exact hk.registered (by rw [hphase]; rfl)
    · rintro t' stage ht' ⟨⟩
      obtain rfl := h.referenced.once t t' id hown ht'
      exact hf
  · cases hstage
    rfl

/-- An item is taken from the queue of a call that does not follow its task any more. -/
theorem KeptAt.drop (h : KeptAt p calls polls s held todo) (hc : calls.get? id = some c)
    (hstage : c.phase.stage = none) (htask : c.phase.task = some t) (items : List QueueItem) :
    KeptAt { p with queues := Function.update p.queues id items } calls polls s held todo := by
  refine ⟨h.server, h.tables_pop items, h.referenced, fun id' c₀ h₀ => ?_, h.poll⟩
  by_cases hne : id' = id
  · subst hne
    obtain rfl := Option.some.inj (hc.symm.trans h₀)
    have hk := h.call id' c hc
    refine hk.mono (fun _ => Iff.rfl) (fun _ => List.prefix_refl _) (fun _ _ => rfl)
      (fun hl => hl) (fun _ => rfl) (fun hnone => ?_) fun t stage _ hs _ => ?_
    · exact absurd (hk.task _ (Or.inl htask)) (hnone _)
    · rw [hstage] at hs
      cases hs
  · exact h.call_pop h₀ hne items

/-- A marker is no event: taking it changes nothing a call follows. -/
theorem sameEvents_dropLost {reason : String} {items : List QueueItem}
    (hitems : p.queues id = .feedLost reason :: items) :
    SameEvents p { p with queues := Function.update p.queues id items } := by
  refine ⟨rfl, rfl, rfl, rfl, fun _ => rfl, fun _ => rfl, fun q => ?_⟩
  by_cases hq : q = id
  · subst hq
    simp only [queued, Function.update_self, hitems]
    rfl
  · simp [queued, hq]

/-- The assign's answer names the task the assign created: it is bound, and the call goes on. -/
theorem KeptAt.answer (h : KeptAt p calls polls s held todo) (hc : calls.get? id = some c)
    (hown : s.Own id t) {phase : AssignPhase} (htask : ∀ t', phase.task = some t' → t' = t)
    (hstage : ∀ stage', phase.stage = some stage' → c.phase.stage = some .assigning ∧
      ((view p s held todo id t).Follows c.handed .assigning →
        (view p s held todo id t).bind.Follows c.handed stage'))
    (hpolled : (∀ stage, c.phase.stage = some stage → stage = .streaming) →
      ∀ stage, phase.stage = some stage → stage = .streaming) :
    KeptAt (p.bind t c.reference) (calls.set id { c with task := some t, phase := phase }) polls s
      held todo := by
  obtain ⟨reference, hcreated⟩ := hown
  have hreference : reference = some c.reference := by
    obtain ⟨c', hc', heq⟩ := h.referenced.assigned t reference id hcreated
    obtain rfl := Option.some.inj (hc.symm.trans hc')
    exact heq
  subst hreference
  have hown : s.Own id t := ⟨_, hcreated⟩
  have htables := bind_tables p t c.reference
  have hk := h.call id c hc
  refine h.concerns hc { c with task := some t, phase := phase } rfl htables.feedLive
    (h.tables_bind hcreated) (fun id' c₀ hne h₀ => ?_) ?_
    fun id' poll hpoll => (h.poll id' poll hpoll).setCall hc hpolled
  · have hk₀ := h.call id' c₀ h₀
    refine hk₀.mono (fun _ => Iff.rfl) (fun _ => List.prefix_refl _) (fun _ _ => rfl)
      (fun hl => htables.feedLive.trans hl) (fun _ => by rw [htables.assUpdateQueues])
      (fun hnone => h.queued_bind hcreated hnone) fun t' stage hown' hs hf => ?_
    -- the bind is a move of the call answered, so of no other call's task
    have hother : t' ≠ t := by
      rintro rfl
      exact hne (hown'.unique hown)
    rw [h.view_bind hcreated h₀ (hk₀.registered (by rw [hs]; rfl)) hown', if_neg hother]
    exact hf
  · refine ⟨?_, by rintro ⟨⟩, fun hnone => absurd hown (hnone t), hk.handed, fun hsome => ?_,
      fun t' stage' hown' hs => ?_, fun hwas => ?_⟩
    · rintro t' (ht' | ht')
      · exact htask t' ht' ▸ hown
      · cases ht'
        exact hown
    · obtain ⟨stage', hs⟩ := Option.isSome_iff_exists.mp hsome
      rw [htables.assUpdateQueues]
      exact hk.registered (by rw [(hstage stage' hs).1]; rfl)
    · obtain ⟨hassigning, hkeeps⟩ := hstage stage' hs
      obtain rfl := h.referenced.once t' t id hown' hown
      rw [h.view_bind hcreated hc (hk.registered (by rw [hassigning]; rfl)) hown', if_pos rfl]
      exact hkeeps (hk.follows t' .assigning hown' hassigning)
    · rw [htables.feedLive]
      exact hk.wasLive hwas

/-- The read before the first event puts the events in order. -/
theorem KeptAt.readDone (h : KeptAt p calls polls s held todo) (hc : calls.get? id = some c)
    {read : TaskEvents} (hphase : c.phase = .catchingUp t (some read))
    (hpolls : ∀ id' poll, polls'.get? id' = some poll →
      polls.get? id' = some poll ∨ id' = id ∧ poll = .sleeping t) :
    KeptAt (p.catchUp t read.areadEvents) (calls.set id { c with phase := .streaming t }) polls' s
      held todo := by
  have hk := h.call id c hc
  have hown : s.Own id t := hk.task t (Or.inl (by rw [hphase]; rfl))
  have hstage : c.phase.stage = some (.reading (some read.areadEvents)) := by rw [hphase]; rfl
  have hregistered := hk.registered (by rw [hstage]; rfl)
  have htables := catchUp_tables p t read.areadEvents
  have hf := hk.follows t _ hown hstage
  refine h.concerns hc { c with phase := .streaming t } rfl htables.feedLive
    (h.tables_catchUp t _) (fun id' c₀ hne h₀ => ?_) ?_ fun id' poll hpoll => ?_
  · -- the history that was read is of the own task of the call
    exact h.call_catchUp h₀ (fun hother => hne (hother.unique hown)) (fun _ _ => Iff.rfl) _
  · refine ⟨?_, fun hnone => ?_, fun hnone => absurd hown (hnone t), hk.handed, fun _ => ?_, ?_,
      fun hwas => ?_⟩
    · rintro t' (ht' | ht')
      · cases ht'
        exact hown
      · exact hk.task t' (Or.inr ht')
    · have hphase' := (hk.untold hnone).1
      rw [hphase] at hphase'
      cases hphase'
    · rw [htables.assUpdateQueues]
      exact hregistered
    · rintro t' stage' hown' ⟨⟩
      obtain rfl := h.referenced.once t t' id hown hown'
      rw [h.view_catchUp hc hregistered hown hf hf.stands.1]
      exact hf.readDone (h.server.ok id t)
    · rw [htables.feedLive]
      exact hk.wasLive hwas
  · rcases hpolls id' poll hpoll with hold | ⟨rfl, rfl⟩
    · refine (h.poll id' poll hold).setCall hc fun _ stage hs => ?_
      cases hs
      rfl
    · refine ⟨hown, ⟨_, by rw [Dict.get?_set, if_pos rfl], ?_⟩, by rintro r ⟨⟩⟩
      rintro stage ⟨⟩
      rfl

theorem TablesKept.assign (h : TablesKept p calls s todo) (hnew : calls.get? id = none)
    (new : AssignCall) (items : List QueueItem) :
    TablesKept { p with
        assUpdateQueues := p.assUpdateQueues.set new.reference id
        queues := Function.update p.queues id items } (calls.set id new) s todo := by
  refine ⟨h.bound, h.back, fun r q hr => ?_, h.unknown, h.todo⟩
  rcases Dict.get?_set_eq_some.mp hr with ⟨rfl, rfl⟩ | ⟨-, hold⟩
  · exact ⟨new, Dict.get?_set_eq_some.mpr (Or.inl ⟨rfl, rfl⟩), rfl⟩
  · obtain ⟨c₀, h₀, heq⟩ := h.queue r q hold
    exact ⟨c₀, Dict.get?_set_of_new hnew new h₀, heq⟩

theorem Referenced.assign (h : Referenced calls s) (hnew : calls.get? id = none)
    {new : AssignCall} (hcalls : ∀ id c, calls.get? id = some c → c.reference ≠ new.reference)
    (hcreated : ∀ t entry, s.created.get? t = some entry → entry.reference ≠ some new.reference) :
    Referenced (calls.set id new) s := by
  refine ⟨fun t r id' ht => ?_, h.once, fun id₁ id₂ c₁ c₂ h₁ h₂ heq => ?_,
    fun t assign id' c₀ h₀ ht => ?_⟩
  · obtain ⟨c₀, h₀, heq⟩ := h.assigned t r id' ht
    exact ⟨c₀, Dict.get?_set_of_new hnew new h₀, heq⟩
  · rcases Dict.get?_set_eq_some.mp h₁ with ⟨rfl, rfl⟩ | ⟨-, hold₁⟩ <;>
      rcases Dict.get?_set_eq_some.mp h₂ with ⟨rfl, hr₂⟩ | ⟨-, hold₂⟩
    · rfl
    · exact absurd heq.symm (hcalls id₂ c₂ hold₂)
    · exact absurd (heq.trans (congrArg AssignCall.reference hr₂)) (hcalls id₁ c₁ hold₁)
    · exact h.references id₁ id₂ c₁ c₂ hold₁ hold₂ heq
  · rcases Dict.get?_set_eq_some.mp h₀ with ⟨rfl, rfl⟩ | ⟨-, hold⟩
    · exact absurd rfl (hcreated t _ ht)
    · exact h.foreign t assign id' c₀ hold ht

/-- A call is made, under a reference nobody used. -/
theorem KeptAt.assign (h : KeptAt p calls polls s held todo) (hnew : calls.get? id = none)
    {reference : String} {escalate : Bool}
    (hcalls : ∀ id c, calls.get? id = some c → c.reference ≠ reference)
    (hcreated : ∀ t entry, s.created.get? t = some entry → entry.reference ≠ some reference) :
    KeptAt { p with
        assUpdateQueues := p.assUpdateQueues.set reference id
        queues := Function.update p.queues id [] }
      (calls.set id ⟨reference, escalate, p.feedLive, .assigning, none, []⟩) polls s held todo := by
  -- a task the call created would have a call of that number on record
  have hunowned : ∀ t, ¬ s.Own id t := by
    rintro t ⟨r, ht⟩
    obtain ⟨c, hc, -⟩ := h.referenced.assigned t r id ht
    rw [hnew] at hc
    cases hc
  have htables := h.tables.assign hnew ⟨reference, escalate, p.feedLive, .assigning, none, []⟩ []
  refine ⟨h.server, htables, h.referenced.assign hnew hcalls hcreated,
    fun id' c₀ h₀ => ?_, fun id' poll hpoll => ?_⟩
  · rcases Dict.get?_set_eq_some.mp h₀ with ⟨rfl, rfl⟩ | ⟨hne, hold⟩
    · -- the new call has no task, so nothing is asked of the events it hands over
      refine ⟨by rintro t (⟨⟨⟩⟩ | ⟨⟨⟩⟩), fun _ => ⟨rfl, rfl⟩, fun _ => ⟨rfl, by simp [queued]⟩,
        fun t ht => absurd ht (hunowned t), fun _ => by simp,
        fun t _ ht => absurd ht (hunowned t), fun hwas => ⟨hwas, fun t ht => ?_⟩⟩
      exact absurd ht (hunowned t)
    · have hqueued : queued { p with
          assUpdateQueues := p.assUpdateQueues.set reference id
          queues := Function.update p.queues id [] } id' = p.queued id' := by
        simp [queued, hne]
      refine (h.call id' c₀ hold).mono (fun _ => Iff.rfl) (fun _ => List.prefix_refl _)
        (fun _ _ => rfl) (fun hl => hl) (fun _ => ?_) (fun _ => hqueued) fun t stage _ _ hf => ?_
      · simp [hcalls id' c₀ hold]
      · have hview : view { p with
            assUpdateQueues := p.assUpdateQueues.set reference id
            queues := Function.update p.queues id [] } s held todo id' t
          = view p s held todo id' t :=
          view_congr rfl rfl rfl rfl Iff.rfl rfl rfl rfl hqueued
        rwa [hview]
  · have hk := h.poll id' poll hpoll
    obtain ⟨c₀, h₀, hstreaming⟩ := hk.call
    exact ⟨hk.own, ⟨c₀, Dict.get?_set_of_new hnew _ h₀, hstreaming⟩, hk.read⟩

/-- A reading task goes on, and nothing else happens. -/
theorem KeptAt.setPoll (h : KeptAt p calls polls s held todo)
    (hpolls : ∀ id' poll, polls'.get? id' = some poll →
      polls.get? id' = some poll ∨ PollKept calls s id' poll) :
    KeptAt p calls polls' s held todo :=
  ⟨h.server, h.tables, h.referenced, h.call, fun id' poll hpoll =>
    (hpolls id' poll hpoll).elim (h.poll id' poll) fun hk => hk⟩

theorem KeptAt.polling (h : KeptAt p calls polls s held todo) (poll : Poll)
    (hk : PollKept calls s id poll) : KeptAt p calls (polls.set id poll) s held todo := by
  refine h.setPoll fun id' poll' hpoll => ?_
  rcases Dict.get?_set_eq_some.mp hpoll with ⟨rfl, rfl⟩ | ⟨-, hold⟩
  · exact Or.inr hk
  · exact Or.inl hold

/-- A reading task ends once the feed is live, and goes on reading until then. -/
theorem KeptAt.pollOn (h : KeptAt p calls polls s held todo) (poll : Poll)
    (hk : PollKept calls s id poll) (live : Bool) :
    KeptAt p calls (if live then polls.erase id else polls.set id poll) s held todo := by
  split
  · exact h.setPoll fun id' poll' hpoll => Or.inl (Dict.get?_erase_eq_some.mp hpoll).2
  · exact h.polling poll hk

/-! ## Every event -/

/-- What callers and the server do: no reference is used twice, an assign is answered with the task
it created, reads succeed, and the feed stays. -/
def Assumed (w : PostmanWorld) : PostmanAct → Prop
  | .assign _ reference _ => (∀ id c, w.calls.get? id = some c → c.reference ≠ reference) ∧
      ∀ t entry, w.server.created.get? t = some entry → entry.reference ≠ some reference
  | .createForeign _ reference => ∀ id c, w.calls.get? id = some c → reference ≠ some c.reference
  | .answer id task => w.server.Own id task
  | .readDone _ succeeds => succeeds = true
  | .feedEnds _ => False
  | _ => True

theorem kept_start : Kept start where
  kept := by
    refine ⟨⟨fun t => List.nodup_nil, fun t => List.suffix_refl _, fun t => le_rfl,
      fun _ t => rfl, by rintro n ⟨⟩, by rintro ⟨⟩, fun _ => ⟨rfl, rfl⟩, fun t _ => rfl, ?_⟩,
      ⟨by rintro t r ⟨⟩, by rintro r t ⟨⟩, by rintro r q ⟨⟩, fun t _ => ⟨rfl, rfl, ?_⟩,
        List.nodup_nil⟩, ⟨by rintro t r id ⟨⟩, ?_, by rintro id id' c c' ⟨⟩,
        by rintro t assign id c ⟨⟩⟩, by rintro id c ⟨⟩, by rintro id poll ⟨⟩⟩
    · rintro change ⟨⟩
    · rintro ⟨⟩
    · rintro t t' id ⟨r, ⟨⟩⟩
  live := fun h => absurd rfl h
  off := fun _ => ⟨rfl, rfl, rfl⟩
  read := by rintro t todo r change ⟨⟩

/-- An event that leaves the watch and the server alone. -/
theorem Kept.of_calls {w w' : PostmanWorld} (h : Kept w) (hwatch : w'.watch = w.watch)
    (hserver : w'.server = w.server) (hlive : w'.postman.feedLive = w.postman.feedLive)
    (hwatching : w'.postman.watching = w.postman.watching)
    (hkept : KeptAt w'.postman w'.calls w'.polls w.server w.watch.held w.watch.todo) : Kept w' where
  kept := by rw [hserver, hwatch]; exact hkept
  live := by rw [hwatch, hlive]; exact h.live
  off := by rw [hwatching, hwatch, hserver]; exact h.off
  read := by rw [hwatch, hserver]; exact h.read

variable {w w' : PostmanWorld}

theorem kept_startWatching (h : Kept w) : Kept w.startWatching ∧ w.startWatching.calls = w.calls ∧
    w.startWatching.polls = w.polls ∧ w.startWatching.server = w.server := by
  rw [startWatching]
  split
  · exact ⟨h, rfl, rfl, rfl⟩
  · rename_i hnot
    obtain ⟨hwatch, hsubscribed, hfeed⟩ := h.off (by simpa using hnot)
    have hserver : { w.server with subscribed := none, feed := [] } = w.server := by
      rw [← hsubscribed, ← hfeed]
    have hkept := h.kept
    rw [hwatch] at hkept
    simp only [hserver, and_true]
    exact ⟨hkept.congr ⟨rfl, rfl, rfl, rfl, fun _ => rfl, fun _ => rfl, fun _ => rfl⟩,
      fun hheld => absurd rfl hheld, by rintro ⟨⟩, by rintro t todo r change ⟨⟩⟩

theorem kept_assign (h : Kept w) {reference : String} {escalate : Bool}
    (ha : Assumed w (.assign id reference escalate))
    (hs : step w (.assign id reference escalate) = some w') : Kept w' := by
  simp only [step] at hs
  split at hs
  · cases hs
  · rename_i hnew
    obtain rfl := Option.some.inj hs
    obtain ⟨hstart, hcalls, hpolls, hserver⟩ := kept_startWatching h
    refine hstart.of_calls rfl rfl rfl rfl ?_
    refine hstart.kept.assign (by rw [hcalls]; exact hnew) ?_ ?_
    · rw [hcalls]
      exact ha.1
    · rw [hserver]
      exact ha.2

/-- A server event that leaves the calls and the watch alone. -/
theorem Kept.of_server (h : Kept w)
    (hkept : KeptAt w.postman w.calls w.polls s w.watch.held w.watch.todo)
    (hoff : w.server.subscribed = none → w.server.feed = [] → w.watch = .off →
      s.subscribed = none ∧ s.feed = [])
    (hhistory : ∀ t, w.server.historyOf t <+: s.historyOf t)
    (hmissed : w.postman.feedLive = true → ∀ t, s.missed t = w.server.missed t) :
    Kept { w with server := s } where
  kept := hkept
  live := h.live
  off := by
    intro hwatching
    obtain ⟨hwatch, hsubscribed, hfeed⟩ := h.off hwatching
    exact ⟨hwatch, hoff hsubscribed hfeed hwatch⟩
  read := by
    intro t todo r change hwatch
    have hwatch' : w.watch = .catchingUp t todo (some r) change := hwatch
    obtain ⟨hread, hle⟩ := h.read t todo r change hwatch'
    have hlive := h.live (by rw [hwatch']; exact List.cons_ne_nil _ _)
    exact ⟨hread.trans (hhistory t), (hmissed hlive t).trans_le hle⟩

theorem kept_created (h : Kept w) {r : Option String} {assign : Option ℕ}
    (hkept : KeptAt w.postman w.calls w.polls (w.server.create t ⟨r, assign⟩) w.watch.held
      w.watch.todo) : Kept { w with server := w.server.create t ⟨r, assign⟩ } := by
  refine h.of_server hkept (fun hnone hfeed _ => ?_) (fun _ => List.prefix_refl _) fun _ _ => rfl
  exact ⟨hnone, by simp [TaskServer.create, TaskServer.publish, hnone, hfeed]⟩

theorem kept_create (h : Kept w) (hs : step w (.create id t) = some w') : Kept w' := by
  simp only [step] at hs
  split at hs
  · rename_i c hc hnew
    split at hs
    · rename_i hfirst
      obtain rfl := Option.some.inj hs
      refine kept_created h (h.kept.create hnew ?_ fun id' c' hc' heq => ?_)
      · rintro id' ⟨⟩
        refine ⟨⟨c, hc, rfl⟩, fun t' hown => ?_⟩
        obtain ⟨reference, ht'⟩ := hown
        have hentry := List.all_eq_true.mp hfirst _ (Dict.mem_values.mpr ⟨t', ht'⟩)
        simp at hentry
      · have hsame := h.kept.referenced.references id id' c c' hc hc' (Option.some.inj heq)
        rw [hsame]
    · cases hs
  · cases hs

theorem kept_createForeign (h : Kept w) {reference : Option String}
    (ha : Assumed w (.createForeign t reference))
    (hs : step w (.createForeign t reference) = some w') : Kept w' := by
  simp only [step] at hs
  split at hs
  · rename_i hnew
    obtain rfl := Option.some.inj hs
    exact kept_created h (h.kept.create hnew (by rintro id ⟨⟩) fun id c hc heq =>
      absurd heq (ha id c hc))
  · cases hs

theorem kept_report (h : Kept w) {event : TaskEventChange}
    (hs : step w (.report event) = some w') : Kept w' := by
  simp only [step] at hs
  split at hs
  · rename_i hguard
    obtain rfl := Option.some.inj hs
    refine h.of_server (h.kept.report hguard.1 hguard.2) (fun hnone hfeed _ => ?_) (fun t => ?_)
      fun hlive t => ?_
    · exact ⟨hnone, by simp [TaskServer.report, TaskServer.publish, hnone, hfeed]⟩
    · rw [TaskServer.historyOf_report]
      exact List.prefix_append _ _
    · rw [TaskServer.missed_report h.kept.server.subscribed,
        if_pos (h.kept.server.live hlive)]
  · cases hs

theorem kept_subscribe (h : Kept w) (hs : step w .subscribe = some w') : Kept w' := by
  simp only [step] at hs
  split at hs
  · cases hs
  · cases hs
  · rename_i hnone hrunning
    obtain rfl := Option.some.inj hs
    refine h.of_server (h.kept.subscribe hnone) (fun _ _ hoff => absurd hoff ?_)
      (fun _ => List.prefix_refl _) fun _ t => ?_
    · exact fun hoff => hrunning hoff
    · rw [TaskServer.missed_of_unsubscribed hnone]
      simp [TaskServer.missed, TaskServer.historyOf]

/-- `watch_tasks` goes on. -/
theorem kept_watchOn {change : TaskChangeEvent} {todo : List String}
    (h : KeptAt w.postman w.calls w.polls w.server [change] todo)
    (hlive : w.postman.feedLive = true) (hwatching : w.postman.watching = true) :
    Kept (w.watchOn todo change) := by
  cases todo with
  | nil =>
    have hstill := (watching_handle w.postman change).trans hwatching
    refine ⟨h.handle hlive, fun hheld => absurd rfl hheld, fun hnot => ?_,
      by rintro t todo r change ⟨⟩⟩
    exact absurd (hstill.symm.trans hnot) (by simp)
  | cons task todo =>
    refine ⟨h, fun _ => hlive, fun hnot => ?_, by rintro t todo r change ⟨⟩⟩
    exact absurd (hwatching.symm.trans hnot) (by simp)

/-- The next change is taken from the feed. -/
theorem KeptAt.hold {change : TaskChangeEvent} {feed : List TaskChangeEvent}
    (h : KeptAt p calls polls s [] []) (hfeed : s.feed = change :: feed) :
    KeptAt p calls polls { s with feed := feed } [change] [] := by
  have hsubscribed := Option.isSome_iff_ne_none.mp (h.server.subscribed_of_feed hfeed)
  have hpending : ∀ t, TaskServer.pending { s with feed := feed } [change] t = s.pending [] t := by
    intro t
    simp only [TaskServer.pending, hfeed, List.nil_append, List.singleton_append]
  refine ⟨⟨h.server.nodup, fun t => ?_, fun t => ?_, fun hwaits t => ?_, h.server.subscribed,
    h.server.live, fun hnone => absurd hnone hsubscribed, h.server.reported, fun change' hin => ?_⟩,
    h.tables.of_created rfl, h.referenced.of_created rfl, fun id c hc => ?_,
      fun id poll hpoll => ?_⟩
  · rw [hpending]
    exact h.server.pending t
  · rw [hpending]
    exact h.server.missed t
  · rw [hpending]
    exact h.server.waits hwaits t
  · refine h.server.creates change' ?_
    rw [hfeed]
    exact hin
  · refine (h.call id c hc).mono (fun _ => Iff.rfl) (fun _ => List.prefix_refl _) (fun _ _ => rfl)
      (fun hl => hl) (fun _ => rfl) (fun _ => rfl) fun t stage _ _ hf => ?_
    have hview : view p { s with feed := feed } [change] [] id t = view p s [] [] id t :=
      view_congr rfl rfl (hpending t) rfl Iff.rfl rfl rfl rfl rfl
    rwa [hview]
  · have hk := h.poll id poll hpoll
    exact ⟨hk.own, hk.call, hk.read⟩

theorem Kept.watching (h : Kept w) (hwatch : w.watch ≠ .off) : w.postman.watching = true := by
  cases hw : w.postman.watching with
  | true => rfl
  | false => exact absurd (h.off hw).1 hwatch

theorem kept_deliver (h : Kept w) (hs : step w .deliver = some w') : Kept w' := by
  simp only [step] at hs
  split at hs
  · rename_i change feed hwatch hfeed
    have hwatching := h.watching (by rw [hwatch]; rintro ⟨⟩)
    have hkept := h.kept
    rw [hwatch] at hkept
    have hhold := hkept.hold hfeed
    split at hs
    · rename_i hlive
      obtain rfl := Option.some.inj hs
      exact kept_watchOn hhold hlive hwatching
    · -- the first delivery: every bound task is to be caught up before the change is handled
      rename_i hdead
      obtain rfl := Option.some.inj hs
      have hsubscribed := hkept.server.subscribed_of_feed hfeed
      exact kept_watchOn (hhold.goLive (by simpa using hdead) hsubscribed) rfl hwatching
  · cases hs

theorem kept_read (h : Kept w) {reader : Reader} (hs : step w (.read reader) = some w') :
    Kept w' := by
  cases reader with
  | call id =>
    obtain ⟨c, hc, hs⟩ := Option.bind_eq_some_iff.mp hs
    split at hs
    · rename_i t hphase
      obtain rfl := Option.some.inj hs
      refine h.of_calls rfl rfl rfl rfl (h.kept.setPhase hc ?_ ?_)
      · rintro t' ⟨⟩
        rw [hphase]
        rfl
      · rintro stage' ⟨⟩
        refine ⟨.reading none, by rw [hphase]; rfl, by rintro ⟨⟩, fun t' hown hf => ?_⟩
        have hmine := (h.kept.call id c hc).task t (Or.inl (by rw [hphase]; rfl))
        obtain rfl := h.kept.referenced.once t t' id hmine hown
        rw [Option.map_some, TaskServer.areadEvents_taskEvents]
        exact hf.read (h.kept.server.ok id t)
    · cases hs
  | poll id =>
    simp only [step, read] at hs
    split at hs
    · rename_i task hpoll
      obtain rfl := Option.some.inj hs
      have hk := h.kept.poll id _ hpoll
      refine h.of_calls rfl rfl rfl rfl (h.kept.polling _ ⟨hk.own, hk.call, ?_⟩)
      rintro r ⟨⟩
      rw [TaskServer.areadEvents_taskEvents]
      exact List.prefix_refl _
    · cases hs
  | watch =>
    simp only [step, read] at hs
    split at hs
    · rename_i task todo change hwatch
      obtain rfl := Option.some.inj hs
      have hkept := h.kept
      have hlive := h.live
      rw [hwatch] at hkept hlive
      refine ⟨hkept, hlive, fun hnot => ?_, ?_⟩
      · have hoff := (h.off hnot).1
        rw [hwatch] at hoff
        cases hoff
      · rintro t todo' r change' ⟨⟩
        rw [TaskServer.areadEvents_taskEvents]
        exact ⟨List.prefix_refl _, (Nat.le_add_right _ _).trans (hkept.server.missed task)⟩
    · cases hs

theorem kept_readDone (h : Kept w) {reader : Reader}
    (hs : step w (.readDone reader true) = some w') : Kept w' := by
  cases reader with
  | call id =>
    obtain ⟨c, hc, hs⟩ := Option.bind_eq_some_iff.mp hs
    split at hs
    · rename_i t read hphase
      obtain ⟨u, hu, rfl⟩ := Option.map_eq_some_iff.mp hs
      obtain ⟨r, rfl, rfl⟩ := Option.map_eq_some_iff.mp hu
      have htables := catchUp_tables w.postman t r.areadEvents
      rw [caughtUp]
      split
      · exact h.of_calls rfl rfl htables.feedLive htables.watching
          (h.kept.readDone hc hphase fun _ _ hpoll => Or.inl hpoll)
      · refine h.of_calls rfl rfl htables.feedLive htables.watching
          (KeptAt.congr (h.kept.readDone hc hphase fun id' poll hpoll => ?_)
            ⟨rfl, rfl, rfl, rfl, fun _ => rfl, fun _ => rfl, fun _ => rfl⟩)
        exact (Dict.get?_set_eq_some.mp hpoll).symm.imp_left And.right
    · cases hs
  | poll id =>
    simp only [step, readDone] at hs
    split at hs
    · rename_i task read hpoll
      obtain ⟨u, hu, rfl⟩ := Option.map_eq_some_iff.mp hs
      obtain ⟨r, rfl, rfl⟩ := Option.map_eq_some_iff.mp hu
      have htables := catchUp_tables w.postman task r.areadEvents
      have hk := h.kept.poll id _ hpoll
      exact h.of_calls rfl rfl htables.feedLive htables.watching
        ((h.kept.polled hk rfl).pollOn (.sleeping task) ⟨hk.own, hk.call, by rintro r ⟨⟩⟩ _)
    · cases hs
  | watch =>
    simp only [step, readDone] at hs
    split at hs
    · rename_i task todo read change hwatch
      obtain ⟨u, hu, rfl⟩ := Option.map_eq_some_iff.mp hs
      obtain ⟨r, rfl, rfl⟩ := Option.map_eq_some_iff.mp hu
      have htables := catchUp_tables w.postman task r.areadEvents
      have hlive := h.live (by rw [hwatch]; exact List.cons_ne_nil _ _)
      have hwatching := h.watching (by rw [hwatch]; rintro ⟨⟩)
      obtain ⟨hread, hmissed⟩ := h.read task todo r change hwatch
      have hkept := h.kept
      rw [hwatch] at hkept
      exact kept_watchOn (hkept.watchCaughtUp hread hmissed) (htables.feedLive.trans hlive)
        (htables.watching.trans hwatching)
    · cases hs

theorem kept_wake (h : Kept w) (hs : step w (.wake id) = some w') : Kept w' := by
  simp only [step] at hs
  split at hs
  · rename_i task hpoll
    obtain rfl := Option.some.inj hs
    have hk := h.kept.poll id _ hpoll
    exact h.of_calls rfl rfl rfl rfl
      (h.kept.pollOn (.reading task none) ⟨hk.own, hk.call, by rintro r ⟨⟩⟩ _)
  · cases hs

theorem kept_answer (h : Kept w) (ha : Assumed w (.answer id t))
    (hs : step w (.answer id t) = some w') : Kept w' := by
  obtain ⟨c, hc, hs⟩ := Option.bind_eq_some_iff.mp hs
  have hown : w.server.Own id t := ha
  have htables := bind_tables w.postman t c.reference
  simp only [answered] at hs
  split at hs
  · rename_i hphase
    obtain rfl := Option.some.inj hs
    refine h.of_calls rfl rfl htables.feedLive htables.watching (h.kept.answer hc hown ?_ ?_ ?_)
    · intro t' ht'
      split at ht' <;> cases ht' <;> rfl
    · intro stage' hstage
      refine ⟨by rw [hphase]; rfl, fun hf => ?_⟩
      split at hstage
      · rename_i hwas
        cases hstage
        exact hf.answerLive (((h.kept.call id c hc).wasLive hwas).2 t hown)
      · cases hstage
        exact hf.answer (h.kept.server.ok id t)
    · intro hstreaming
      have := hstreaming .assigning (by rw [hphase]; rfl)
      cases this
  · obtain rfl := Option.some.inj hs
    refine h.of_calls rfl rfl htables.feedLive htables.watching (h.kept.answer hc hown ?_ ?_ ?_)
    · rintro t' ⟨⟩
      rfl
    · rintro stage' ⟨⟩
    · rintro - stage ⟨⟩
  · cases hs

/-- A call ends, and is cleaned up after. -/
theorem kept_finish (h : Kept w) (hc : w.calls.get? id = some c) (outcome : AssignOutcome) :
    Kept (w.finish id c outcome) := by
  obtain ⟨hwatching, hlive, -⟩ := cleanupReference_spec w.postman c.reference
  refine h.of_calls rfl rfl hlive hwatching (h.kept.finish hc outcome fun id' poll hpoll => ?_)
  simp only [PostmanWorld.finish, PostmanWorld.cleanupReference, setCall] at hpoll
  split at hpoll
  · exact hpoll
  · exact (Dict.get?_erase_eq_some.mp hpoll).2

/-- A call that follows its task no more goes on to another phase. -/
theorem kept_setPhase (h : Kept w) (hc : w.calls.get? id = some c) {phase : AssignPhase}
    (htask : ∀ t, phase.task = some t → c.phase.task = some t) (hstage : phase.stage = none)
    (controls : List TaskControl) :
    Kept { w with controls := controls, calls := w.calls.set id { c with phase := phase } } := by
  refine h.of_calls rfl rfl rfl rfl (h.kept.setPhase hc htask fun stage' hs => ?_)
  rw [hstage] at hs
  cases hs

theorem kept_unconfirmed (h : Kept w) (hc : w.calls.get? id = some c)
    (htask : c.phase.task = some t) (wait : Confirmation) : Kept (w.unconfirmed id c t wait) := by
  rw [unconfirmed]
  split
  · refine kept_setPhase h hc ?_ rfl _
    rintro t' ⟨⟩
    exact htask
  · exact kept_finish h hc _

theorem kept_cancel (h : Kept w) (hs : step w (.cancel id) = some w') : Kept w' := by
  obtain ⟨c, hc, hs⟩ := Option.bind_eq_some_iff.mp hs
  rw [cancelled] at hs
  cases hphase : c.phase <;> simp only [hphase, reduceCtorEq, Option.some.injEq] at hs <;> subst hs
  case assigning | assignedDespiteCancel =>
    exact kept_setPhase h hc (by rintro t ⟨⟩) rfl w.controls
  case catchingUp t read | streaming t =>
    refine kept_setPhase h hc ?_ rfl _
    rintro t' ⟨⟩
    rw [hphase]
    rfl
  case confirming t wait => exact kept_finish h hc _

theorem kept_take (h : Kept w) (hs : step w (.take id) = some w') : Kept w' := by
  obtain ⟨c, hc, hs⟩ := Option.bind_eq_some_iff.mp hs
  cases hphase : c.phase <;> simp only [hphase, reduceCtorEq] at hs
  case streaming t =>
    obtain ⟨⟨item, u⟩, hpop, rfl⟩ := Option.map_eq_some_iff.mp hs
    obtain ⟨items, hitems, rfl⟩ := pop_eq_some hpop
    cases item with
    | event event =>
      exact h.of_calls rfl rfl rfl rfl (h.kept.take hc hphase hitems)
    | feedLost reason =>
      have hdrop : Kept { w with postman := { w.postman with
          queues := Function.update w.postman.queues id items } } :=
        h.of_calls rfl rfl rfl rfl (h.kept.congr (sameEvents_dropLost hitems))
      exact kept_finish hdrop hc _

theorem kept_confirm (h : Kept w) (hs : step w (.confirm id) = some w') : Kept w' := by
  obtain ⟨c, hc, hs⟩ := Option.bind_eq_some_iff.mp hs
  have hconfirmed : ∀ {t : String} {wait : Confirmation} {item : QueueItem} {u : PostmanWorld},
      c.phase.stage = none → c.phase.task = some t → w.pop id = some (item, u) →
      Kept (u.confirmed id c t wait item) := by
    intro t wait item u hstage htask hpop
    obtain ⟨items, -, rfl⟩ := pop_eq_some hpop
    have hdrop : Kept { w with postman := { w.postman with
        queues := Function.update w.postman.queues id items } } :=
      h.of_calls rfl rfl rfl rfl (h.kept.drop hc hstage htask items)
    cases item with
    | event event =>
      simp only [confirmed]
      split
      · exact kept_finish hdrop hc _
      · exact hdrop
    | feedLost reason => exact kept_unconfirmed hdrop hc htask wait
  split at hs
  · rename_i t hphase
    obtain ⟨⟨item, u⟩, hpop, rfl⟩ := Option.map_eq_some_iff.mp hs
    exact hconfirmed (by rw [hphase]; rfl) (by rw [hphase]; rfl) hpop
  · rename_i t hphase
    obtain ⟨⟨item, u⟩, hpop, rfl⟩ := Option.map_eq_some_iff.mp hs
    exact hconfirmed (by rw [hphase]; rfl) (by rw [hphase]; rfl) hpop
  · cases hs

/-- Every event keeps what the postman keeps, where callers and the server do as assumed. -/
theorem kept_step (h : Kept w) {act : PostmanAct} (ha : Assumed w act)
    (hs : step w act = some w') : Kept w' := by
  cases act with
  | assign id reference escalate => exact kept_assign h ha hs
  | create id task => exact kept_create h hs
  | createForeign task reference => exact kept_createForeign h ha hs
  | report event => exact kept_report h hs
  | subscribe => exact kept_subscribe h hs
  | deliver => exact kept_deliver h hs
  | feedEnds reason => exact absurd ha fun hno => hno
  | read reader => exact kept_read h hs
  | readDone reader succeeds =>
    -- a read that fails leaves a gap; the assumption rules it out
    obtain rfl : succeeds = true := ha
    exact kept_readDone h hs
  | wake id => exact kept_wake h hs
  | answer id task => exact kept_answer h ha hs
  | assignFails id error =>
    obtain ⟨c, hc, hs⟩ := Option.bind_eq_some_iff.mp hs
    split at hs
    · obtain rfl := Option.some.inj hs
      exact kept_finish h hc _
    · obtain rfl := Option.some.inj hs
      exact kept_finish h hc _
    · cases hs
  | take id => exact kept_take h hs
  | next id =>
    obtain ⟨c, hc, hs⟩ := Option.bind_eq_some_iff.mp hs
    split at hs
    · rename_i t hphase
      obtain rfl := Option.some.inj hs
      refine h.of_calls rfl rfl rfl rfl (h.kept.setPhase hc ?_ ?_)
      · rintro t' ⟨⟩
        rw [hphase]
        rfl
      · rintro stage' ⟨⟩
        exact ⟨.streaming, by rw [hphase]; rfl, fun _ => rfl, fun _ _ hf => hf⟩
    · cases hs
  | close id =>
    obtain ⟨c, hc, hs⟩ := Option.bind_eq_some_iff.mp hs
    split at hs
    · obtain rfl := Option.some.inj hs
      exact kept_finish h hc _
    · cases hs
  | cancel id => exact kept_cancel h hs
  | controlSent id =>
    obtain ⟨c, hc, hs⟩ := Option.bind_eq_some_iff.mp hs
    split at hs
    all_goals first | cases hs; done | skip
    all_goals
      rename_i t hphase
      obtain rfl := Option.some.inj hs
      refine kept_setPhase h hc ?_ rfl w.controls
      rintro t' ⟨⟩
      rw [hphase]
      rfl
  | confirm id => exact kept_confirm h hs
  | timeout id =>
    obtain ⟨c, hc, hs⟩ := Option.bind_eq_some_iff.mp hs
    split at hs
    · obtain rfl := Option.some.inj hs
      exact kept_finish h hc _
    · rename_i t hphase
      obtain rfl := Option.some.inj hs
      exact kept_unconfirmed h hc (by rw [hphase]; rfl) _
    · rename_i t hphase
      obtain rfl := Option.some.inj hs
      exact kept_unconfirmed h hc (by rw [hphase]; rfl) _
    · cases hs

/-- What the postman keeps, it keeps along every run. -/
theorem kept_of_run {acts : List PostmanAct} {w : PostmanWorld}
    (hmeets : Meets step Assumed start acts) (hrun : exec step start acts = some w) : Kept w :=
  exec_invariant_of_meets kept_start (fun _ _ _ h ha hs => kept_step h ha hs) hmeets hrun

/-- In every run, what a call was handed is at every moment the beginning of its task's events, as
the server has them; before it has a task, it was handed nothing. -/
theorem graphql_call_stream_exact (acts : List PostmanAct) (w : PostmanWorld)
    (hmeets : Meets step Assumed start acts) (hrun : exec step start acts = some w) :
    ∀ id c, w.calls.get? id = some c → (c.task = none → c.handed = []) ∧
      ∀ t, c.task = some t → w.server.Own id t ∧ c.handed <+: w.server.historyOf t := by
  have h := kept_of_run hmeets hrun
  intro id c hc
  have hk := h.kept.call id c hc
  refine ⟨fun hnone => (hk.untold hnone).2, fun t ht => ?_⟩
  have hown := hk.task t (Or.inr ht)
  exact ⟨hown, hk.handed t hown⟩

/-- An event of task `t`. -/
def eventOf (id : String) : TaskEventChange := { id := id, kind := .other "YIELD", task := "t" }

/-- The feed misses the first event, and comes alive while the call reads its history. -/
def lateFeed : List PostmanAct :=
  [.assign 0 "r" false, .create 0 "t", .report (eventOf "e1"), .subscribe, .report (eventOf "e2"),
    .answer 0 "t", .read (.call 0), .deliver, .readDone (.call 0) true, .take 0, .read .watch,
    .report (eventOf "e3"), .readDone .watch true, .next 0, .take 0, .deliver, .next 0, .take 0]

theorem graphql_call_stream_exact_lateFeed :
    ∃ w c, exec step start lateFeed = some w ∧ w.calls.get? 0 = some c ∧ c.handed.length = 3 ∧
      c.handed <+: w.server.historyOf "t" := by
  have hmeets : Meets step Assumed start lateFeed := by
    refine meets_cons ⟨by rintro id c ⟨⟩, by rintro t entry ⟨⟩⟩ ?_
    rintro w ⟨⟩
    iterate 17
      refine meets_cons ?_ ?_
      · first | trivial | exact rfl | exact ⟨_, rfl⟩
      rintro w ⟨⟩
    exact meets_nil _
  obtain ⟨w, hw⟩ : ∃ w, exec step start lateFeed = some w := ⟨_, rfl⟩
  have hexact := graphql_call_stream_exact lateFeed w hmeets hw
  obtain rfl := Option.some.inj hw
  exact ⟨_, _, rfl, rfl, rfl, ((hexact 0 _ rfl).2 "t" rfl).2⟩

end PostmanWorld

end Rekuest
