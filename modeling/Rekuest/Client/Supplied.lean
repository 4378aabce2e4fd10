import Rekuest.Client.CallStream
import Rekuest.Client.Cancelling
import Rekuest.Client.FeedLost

/-!
# Every call is supplied

While the feed has delivered nothing, a task reads for each call that takes events, and it is not
cancelled for any other call. Where the feed stays, no queue ever holds a marker.
-/

namespace Rekuest

open Runs GraphQLPostman

namespace GraphQLPostman

variable {p : GraphQLPostman}

/-- Events are no markers. -/
theorem lost_put (queue : ℕ) (events : List TaskEventChange) (q : ℕ) :
    (p.put queue (events.map .event)).lost q = p.lost q := by
  by_cases hq : q = queue
  · subst hq
    simp only [lost, put, Function.update_self, List.filterMap_append, lost_events,
      List.append_nil]
  · simp [lost, put, hq]

theorem lost_bind (task reference : String) (q : ℕ) :
    (p.bind task reference).lost q = p.lost q := by
  rw [bind]
  split
  · exact lost_put _ _ q
  · rfl

theorem lost_route (event : TaskEventChange) (q : ℕ) : (p.route event).lost q = p.lost q := by
  rw [route]
  split
  · rfl
  · simp only
    split
    · exact lost_put _ [event] q
    · rfl

theorem feedLive_handle (p : GraphQLPostman) (change : TaskChangeEvent) :
    (p.handle change).feedLive = p.feedLive := by
  have hcreate : (p.handleCreate change.create).feedLive = p.feedLive := by
    rw [handleCreate.eq_def]
    split
    · split
      · rfl
      · exact (bind_tables _ _ _).feedLive
    · rfl
    · rfl
  rw [handle, ← hcreate]
  cases change.event with
  | some event => exact (route_tables _ _).feedLive
  | none => rfl

end GraphQLPostman

namespace PostmanWorld

variable {w w' : PostmanWorld} {act : PostmanAct} {id : ℕ} {c c' : AssignCall} {t : String}

/-! ## What every run keeps -/

/-- A feed that stays leaves no marker in a queue. -/
theorem unmarked_step (h : ∀ q, w.postman.lost q = []) (hends : ∀ reason, act ≠ .feedEnds reason)
    (hs : step w act = some w') : ∀ q, w'.postman.lost q = [] := by
  refine invariant_of_step (I := fun u => ∀ q, u.postman.lost q = []) h hs fun u u' hu ha q => ?_
  -- the rest of a queue without markers has none
  have hrest : ∀ {q' : ℕ} {item : QueueItem} {items : List QueueItem},
      u.postman.queues q' = item :: items →
      (Function.update u.postman.queues q' items q).filterMap QueueItem.lost? = [] := by
    intro q' item items hqueue
    by_cases hq : q = q'
    · subst hq
      have hnone := hu q
      rw [lost, hqueue, List.filterMap_cons] at hnone
      rw [Function.update_self]
      split at hnone
      · exact hnone
      · cases hnone
    · rw [Function.update_of_ne hq]
      exact hu q
  cases ha with
  | @register id reference escalate is new =>
    show (Function.update w.postman.queues id [] q).filterMap QueueItem.lost? = []
    by_cases hq : q = id
    · rw [hq, Function.update_self]
      rfl
    · rw [Function.update_of_ne hq]
      exact hu q
  | bind is calls same => exact (lost_bind _ _ q).trans (hu q)
  | route event => exact (lost_route event q).trans (hu q)
  | catchUp reading => exact (lost_catchUp _ _ _ q).trans (hu q)
  | fail is => exact absurd is (hends _)
  | answer is call live untold told reads => exact (lost_bind _ _ q).trans (hu q)
  | pop is queue => exact hrest queue
  | hand is call phase queue => exact hrest queue
  | @finish _ id c outcome call live =>
    show ((u.postman.cleanupReference c.reference).queues q).filterMap QueueItem.lost? = []
    rw [(cleanupReference_spec u.postman c.reference).2.2.1]
    exact hu q
  | _ => exact hu q

/-- A task reads for each call that takes events, for as long as the feed has delivered nothing. -/
def KeepsReading (w : PostmanWorld) : Prop :=
  ∀ id c, w.calls.get? id = some c → c.phase.stage = some .streaming →
    w.postman.feedLive = false → (w.polls.get? id).isSome

theorem KeepsReading.of_live (hlive : w.postman.feedLive = true) : w.KeepsReading := by
  intro id c _ _ hdead
  rw [hlive] at hdead
  cases hdead

theorem KeepsReading.of_same (h : w.KeepsReading) (hcalls : w'.calls = w.calls)
    (hlive : w'.postman.feedLive = w.postman.feedLive)
    (hpolls : ∀ id, (w.polls.get? id).isSome → (w'.polls.get? id).isSome) : w'.KeepsReading := by
  intro id c hc hstage hdead
  rw [hcalls] at hc
  exact hpolls id (h id c hc hstage (hlive ▸ hdead))

/-- A call goes on; it took events before, if it does now. -/
theorem KeepsReading.setCall (h : w.KeepsReading) (hcalls : w'.calls = w.calls.set id c')
    (hstage : c'.phase.stage = some .streaming →
      ∃ c, w.calls.get? id = some c ∧ c.phase.stage = some .streaming)
    (hlive : w'.postman.feedLive = w.postman.feedLive) (hpolls : w'.polls = w.polls) :
    w'.KeepsReading := by
  intro id' c₀ h₀ hstage₀ hdead
  rw [hpolls]
  rw [hlive] at hdead
  rw [hcalls] at h₀
  obtain ⟨rfl, rfl⟩ | ⟨-, h₀⟩ := Dict.get?_set_eq_some.mp h₀
  · obtain ⟨c, hc, hstreaming⟩ := hstage hstage₀
    exact h id' c hc hstreaming hdead
  · exact h id' c₀ h₀ hstage₀ hdead

/-- Only the reading task of the call that ends is cancelled. -/
theorem KeepsReading.finish (h : w.KeepsReading) (hreaders : w.Readers)
    (hregistered : w.Registered) (queues : ℕ → List QueueItem) (outcome : AssignOutcome)
    (hc : w.calls.get? id = some c) (hlive : c.Live) :
    KeepsReading
      ({ w with postman := { w.postman with queues := queues } }.finish id c outcome) := by
  intro id' c₀ h₀ hstage hdead
  rw [hreaders.polls_finish hregistered queues outcome hc hlive]
  obtain ⟨-, rfl⟩ | ⟨hne, h₀⟩ := Dict.get?_set_eq_some.mp h₀
  · cases hstage
  · rw [if_neg hne]
    refine h id' c₀ h₀ hstage ?_
    rw [← hdead]
    exact (cleanupReference_spec { w.postman with queues := queues } c.reference).2.1.symm

/-- `watch_tasks` goes on, and the feed is as live as it was. -/
theorem feedLive_watchOn (w : PostmanWorld) (todo : List String) (change : TaskChangeEvent) :
    (w.watchOn todo change).postman.feedLive = w.postman.feedLive := by
  cases todo with
  | nil => exact feedLive_handle w.postman change
  | cons task todo => rfl

theorem keepsReading_readDone (h : w.KeepsReading) (hkept : Kept w) {reader : Reader}
    (hs : step w (.readDone reader true) = some w') : w'.KeepsReading := by
  cases reader with
  | call id =>
    obtain ⟨c, hc, hs⟩ := Option.bind_eq_some_iff.mp hs
    split at hs
    · rename_i task read hphase
      obtain ⟨u, hu, rfl⟩ := Option.map_eq_some_iff.mp hs
      obtain ⟨r, rfl, rfl⟩ := Option.map_eq_some_iff.mp hu
      have hlive := (catchUp_tables w.postman task r.areadEvents).feedLive
      rw [caughtUp]
      split
      · rename_i hnow
        exact KeepsReading.of_live hnow
      · -- the call takes events from now on, and a reading task is set for it
        intro id' c₀ h₀ hstage hdead
        show ((w.polls.set id (.sleeping task)).get? id').isSome = true
        obtain ⟨rfl, rfl⟩ | ⟨-, h₀⟩ := Dict.get?_set_eq_some.mp h₀
        · rw [Dict.get?_set, if_pos rfl]
          rfl
        · exact Dict.isSome_get?_set (h id' c₀ h₀ hstage (hlive ▸ hdead)) _
    · cases hs
  | poll id =>
    simp only [step, readDone] at hs
    split at hs
    · rename_i task read hpoll
      obtain ⟨u, hu, rfl⟩ := Option.map_eq_some_iff.mp hs
      obtain ⟨r, rfl, rfl⟩ := Option.map_eq_some_iff.mp hu
      have hlive := (catchUp_tables w.postman task r.areadEvents).feedLive
      cases hnow : w.postman.feedLive with
      | true => exact KeepsReading.of_live (hlive.trans hnow)
      | false =>
        refine h.of_same rfl hlive fun id' hpoll' => ?_
        have hdead : (w.catchUp task r).postman.feedLive = false := hlive.trans hnow
        rw [PostmanWorld.polled, hdead]
        exact Dict.isSome_get?_set hpoll' _
    · cases hs
  | watch =>
    simp only [step, readDone] at hs
    split at hs
    · rename_i task todo read change hwatch
      obtain ⟨u, hu, rfl⟩ := Option.map_eq_some_iff.mp hs
      obtain ⟨r, rfl, rfl⟩ := Option.map_eq_some_iff.mp hu
      have hlive := (catchUp_tables w.postman task r.areadEvents).feedLive
      have hnow := hkept.live (by rw [hwatch]; exact List.cons_ne_nil _ _)
      refine KeepsReading.of_live ?_
      rw [feedLive_watchOn]
      exact hlive.trans hnow
    · cases hs

/-- What runs keep, beyond what the postman keeps: no queue holds a marker, and while the feed has
delivered nothing, a task reads for each call that takes events. -/
structure Supplied (w : PostmanWorld) : Prop where
  kept : Kept w
  registered : w.Registered
  readers : w.Readers
  running : w.postman.watching = true ↔ w.watch ≠ .off
  unmarked : ∀ q, w.postman.lost q = []
  reading : w.KeepsReading

/-- A call ends, and the reading tasks of the others go on. -/
theorem Supplied.reading_finish (h : w.Supplied) (queues : ℕ → List QueueItem)
    (outcome : AssignOutcome) (hc : w.calls.get? id = some c) (hlive : c.Live) :
    KeepsReading ({ w with postman := { w.postman with queues := queues } }.finish id c outcome) :=
  h.reading.finish h.readers h.registered queues outcome hc hlive

theorem Supplied.reading_unconfirmed (h : w.Supplied) (queues : ℕ → List QueueItem)
    (hc : w.calls.get? id = some c) (hlive : c.Live) (task : String) (wait : Confirmation) :
    KeepsReading
      ({ w with postman := { w.postman with queues := queues } }.unconfirmed id c task wait) := by
  rw [unconfirmed]
  split
  · exact h.reading.setCall rfl (by rintro ⟨⟩) rfl rfl
  · exact h.reading_finish queues .cancelled hc hlive

theorem Supplied.reading_cancel (h : w.Supplied) (hs : step w (.cancel id) = some w') :
    w'.KeepsReading := by
  obtain ⟨c, hc, hs⟩ := Option.bind_eq_some_iff.mp hs
  rw [cancelled] at hs
  cases hphase : c.phase <;> simp only [hphase, reduceCtorEq, Option.some.injEq] at hs <;> subst hs
  case confirming task wait =>
    exact h.reading_finish w.postman.queues .cancelled hc (live_of_phase hphase (by rintro _ ⟨⟩))
  all_goals exact h.reading.setCall rfl (by rintro ⟨⟩) rfl rfl

theorem Supplied.reading_take (h : w.Supplied) (hs : step w (.take id) = some w') :
    w'.KeepsReading := by
  obtain ⟨c, hc, hs⟩ := Option.bind_eq_some_iff.mp hs
  cases hphase : c.phase <;> simp only [hphase, reduceCtorEq] at hs
  case streaming task =>
    obtain ⟨⟨item, u⟩, hpop, rfl⟩ := Option.map_eq_some_iff.mp hs
    obtain ⟨items, -, rfl⟩ := pop_eq_some hpop
    cases item with
    | event event =>
      exact h.reading.setCall rfl (fun _ => ⟨c, hc, by rw [hphase]; rfl⟩) rfl rfl
    | feedLost reason =>
      exact h.reading_finish _ _ hc (live_of_phase hphase (by rintro _ ⟨⟩))

theorem Supplied.reading_confirm (h : w.Supplied) (hs : step w (.confirm id) = some w') :
    w'.KeepsReading := by
  obtain ⟨c, hc, hs⟩ := Option.bind_eq_some_iff.mp hs
  have hconfirmed : ∀ {task : String} {wait : Confirmation} {item : QueueItem} {u : PostmanWorld},
      c.Live → w.pop id = some (item, u) → KeepsReading (u.confirmed id c task wait item) := by
    intro task wait item u hlive hpop
    obtain ⟨items, -, rfl⟩ := pop_eq_some hpop
    cases item with
    | event event =>
      rw [confirmed]
      split
      · exact h.reading_finish _ _ hc hlive
      · exact h.reading.of_same rfl rfl fun _ hpoll => hpoll
    | feedLost reason => exact h.reading_unconfirmed _ hc hlive task wait
  split at hs
  · rename_i task hphase
    obtain ⟨⟨item, u⟩, hpop, rfl⟩ := Option.map_eq_some_iff.mp hs
    exact hconfirmed (live_of_phase hphase (by rintro _ ⟨⟩)) hpop
  · rename_i task hphase
    obtain ⟨⟨item, u⟩, hpop, rfl⟩ := Option.map_eq_some_iff.mp hs
    exact hconfirmed (live_of_phase hphase (by rintro _ ⟨⟩)) hpop
  · cases hs

theorem Supplied.reading_answer (h : w.Supplied) (hs : step w (.answer id t) = some w') :
    w'.KeepsReading := by
  obtain ⟨c, hc, hs⟩ := Option.bind_eq_some_iff.mp hs
  have hlive := (bind_tables w.postman t c.reference).feedLive
  simp only [answered] at hs
  split at hs
  · obtain rfl := Option.some.inj hs
    -- a call that skips the read began on a live feed, which still is
    cases hwas : c.feedWasLive with
    | true => exact KeepsReading.of_live (hlive.trans ((h.kept.kept.call id c hc).wasLive hwas).1)
    | false => exact h.reading.setCall rfl (by rw [if_neg (by simp)]; rintro ⟨⟩) hlive rfl
  · obtain rfl := Option.some.inj hs
    exact h.reading.setCall rfl (by rintro ⟨⟩) hlive rfl
  · cases hs

theorem Supplied.reading_read (h : w.Supplied) {reader : Reader}
    (hs : step w (.read reader) = some w') : w'.KeepsReading := by
  cases reader with
  | call id =>
    obtain ⟨c, hc, hs⟩ := Option.bind_eq_some_iff.mp hs
    split at hs
    · obtain rfl := Option.some.inj hs
      exact h.reading.setCall rfl (by rintro ⟨⟩) rfl rfl
    · cases hs
  | poll id =>
    simp only [step, read] at hs
    split at hs
    · obtain rfl := Option.some.inj hs
      refine h.reading.of_same rfl rfl fun id' hpoll => ?_
      exact Dict.isSome_get?_set hpoll _
    · cases hs
  | watch =>
    simp only [step, read] at hs
    split at hs
    · obtain rfl := Option.some.inj hs
      exact h.reading.of_same rfl rfl fun _ hpoll => hpoll
    · cases hs

theorem keepsReading_deliver (hs : step w .deliver = some w') : w'.KeepsReading := by
  simp only [step] at hs
  split at hs
  · split at hs
    · rename_i hlive
      obtain rfl := Option.some.inj hs
      exact KeepsReading.of_live ((feedLive_watchOn _ _ _).trans hlive)
    · obtain rfl := Option.some.inj hs
      exact KeepsReading.of_live (feedLive_watchOn _ _ _)
  · cases hs

theorem Supplied.reading_timeout (h : w.Supplied) (hs : step w (.timeout id) = some w') :
    w'.KeepsReading := by
  obtain ⟨c, hc, hs⟩ := Option.bind_eq_some_iff.mp hs
  split at hs
  · rename_i hphase
    obtain rfl := Option.some.inj hs
    exact h.reading_finish w.postman.queues .cancelled hc (live_of_phase hphase (by rintro _ ⟨⟩))
  · rename_i task hphase
    obtain rfl := Option.some.inj hs
    exact h.reading_unconfirmed w.postman.queues hc (live_of_phase hphase (by rintro _ ⟨⟩)) _ _
  · rename_i task hphase
    obtain rfl := Option.some.inj hs
    exact h.reading_unconfirmed w.postman.queues hc (live_of_phase hphase (by rintro _ ⟨⟩)) _ _
  · cases hs

/-- Every event leaves a reading task for each call that takes events, or the feed live. -/
theorem Supplied.reading_step (h : w.Supplied) (ha : Assumed w act)
    (hs : step w act = some w') : w'.KeepsReading := by
  have hsame : ∀ server : TaskServer, KeepsReading { w with server := server } := fun _ =>
    h.reading.of_same rfl rfl fun _ hpoll => hpoll
  cases act with
  | assign id reference escalate =>
    simp only [step] at hs
    split at hs
    · cases hs
    · obtain rfl := Option.some.inj hs
      obtain ⟨-, hcalls, hpolls, -⟩ := kept_startWatching h.kept
      have hlive : w.startWatching.postman.feedLive = w.postman.feedLive := by
        rw [startWatching]
        split <;> rfl
      have hstart : KeepsReading w.startWatching :=
        h.reading.of_same hcalls hlive fun _ hpoll => by rwa [hpolls]
      exact hstart.setCall rfl (by rintro ⟨⟩) rfl rfl
  | create id task =>
    simp only [step] at hs
    split at hs
    · split at hs
      · obtain rfl := Option.some.inj hs
        exact hsame _
      · cases hs
    · cases hs
  | createForeign task reference =>
    simp only [step] at hs
    split at hs
    · obtain rfl := Option.some.inj hs
      exact hsame _
    · cases hs
  | report event =>
    simp only [step] at hs
    split at hs
    · obtain rfl := Option.some.inj hs
      exact hsame _
    · cases hs
  | subscribe =>
    simp only [step] at hs
    split at hs
    · cases hs
    · cases hs
    · obtain rfl := Option.some.inj hs
      exact hsame _
  | deliver => exact keepsReading_deliver hs
  | feedEnds reason => exact absurd ha fun hno => hno
  | read reader => exact h.reading_read hs
  | readDone reader succeeds =>
    obtain rfl : succeeds = true := ha
    exact keepsReading_readDone h.reading h.kept hs
  | wake id =>
    simp only [step] at hs
    split at hs
    · obtain rfl := Option.some.inj hs
      cases hlive : w.postman.feedLive with
      | true => exact KeepsReading.of_live hlive
      | false => exact h.reading.of_same rfl rfl fun _ hpoll => Dict.isSome_get?_set hpoll _
    · cases hs
  | answer id task => exact h.reading_answer hs
  | assignFails id error =>
    obtain ⟨c, hc, hs⟩ := Option.bind_eq_some_iff.mp hs
    split at hs
    · rename_i hphase
      obtain rfl := Option.some.inj hs
      exact h.reading_finish w.postman.queues _ hc (live_of_phase hphase (by rintro _ ⟨⟩))
    · rename_i hphase
      obtain rfl := Option.some.inj hs
      exact h.reading_finish w.postman.queues _ hc (live_of_phase hphase (by rintro _ ⟨⟩))
    · cases hs
  | take id => exact h.reading_take hs
  | next id =>
    obtain ⟨c, hc, hs⟩ := Option.bind_eq_some_iff.mp hs
    split at hs
    · rename_i task hphase
      obtain rfl := Option.some.inj hs
      exact h.reading.setCall rfl (fun _ => ⟨c, hc, by rw [hphase]; rfl⟩) rfl rfl
    · cases hs
  | close id =>
    obtain ⟨c, hc, hs⟩ := Option.bind_eq_some_iff.mp hs
    split at hs
    · rename_i task hphase
      obtain rfl := Option.some.inj hs
      exact h.reading_finish w.postman.queues _ hc (live_of_phase hphase (by rintro _ ⟨⟩))
    · cases hs
  | cancel id => exact h.reading_cancel hs
  | controlSent id =>
    obtain ⟨c, hc, hs⟩ := Option.bind_eq_some_iff.mp hs
    split at hs
    · obtain rfl := Option.some.inj hs
      exact h.reading.setCall rfl (by rintro ⟨⟩) rfl rfl
    · obtain rfl := Option.some.inj hs
      exact h.reading.setCall rfl (by rintro ⟨⟩) rfl rfl
    · cases hs
  | confirm id => exact h.reading_confirm hs
  | timeout id => exact h.reading_timeout hs

/-- A call that is made has a reference nobody used. -/
theorem fresh_of_assumed (ha : Assumed w act) : w.FreshReference act := by
  cases act with
  | assign id reference escalate => exact fun id c hc _ => ha.1 id c hc
  | _ => trivial

theorem supplied_step (h : w.Supplied) (ha : Assumed w act) (hs : step w act = some w') :
    w'.Supplied where
  kept := kept_step h.kept ha hs
  registered := h.registered.step (fresh_of_assumed ha) hs
  readers := h.readers.step h.registered (fresh_of_assumed ha) hs
  running := running_step h.running hs
  unmarked := by
    refine unmarked_step h.unmarked ?_ hs
    rintro reason rfl
    exact ha
  reading := h.reading_step ha hs

theorem supplied_start : start.Supplied where
  kept := kept_start
  registered := by rintro id c ⟨⟩
  readers := ⟨by rintro r q ⟨⟩, by rintro id poll ⟨⟩⟩
  running := by simp [start, new]
  unmarked := fun _ => rfl
  reading := by rintro id c ⟨⟩

end PostmanWorld

end Rekuest
