import Rekuest.Agents.CallerStreams

/-!
# Agent call streams are exact

Where the responses name distinct tasks, no mirror of a task is lost before its call registered
it: what was waiting then is everything that had arrived.
-/

namespace Rekuest

open Runs EventStream

namespace CallerWorld

variable {terminal : ExecutionEvent → Bool}

/-! ## Calls and the tasks they were named

A call learns its task from a future that only a response resolves, and registers it when it goes
on. As no two responses name one task, a task in use belongs to the call it was named to.
-/

/-- No two responses to different requests name one task. -/
def DistinctTasks (w : CallerWorld) : CallerAct → Prop
  | .response response =>
    ∀ t, response.named = some t → ∀ r, (r, t) ∈ w.answers → r = response.request
  | _ => True

/-- Every task in use was named by the response to its call, and until a call registers it all its
mirrors wait. -/
structure Traced (w : CallerWorld) : Prop where
  answered : ∀ r c t, w.calls.get? r = some c → w.answered r c = some t → (r, t) ∈ w.answers
  registered : ∀ r c g, w.calls.get? r = some c → c.registration = some g →
    (r, g.task) ∈ w.answers ∧ g.since ≤ (w.arrivedOf g.task).length ∧
      g.buffered = (w.arrivedOf g.task).take g.since
  unique : ∀ r r' t, (r, t) ∈ w.answers → (r', t) ∈ w.answers → r = r'
  waits : ∀ t, t ≠ "" → (∀ r c g, w.calls.get? r = some c → c.registration = some g → g.task ≠ t) →
    w.postman.waiting t = w.arrivedOf t

theorem traced_start : Traced start where
  answered := by rintro r c t ⟨⟩
  registered := by rintro r c g ⟨⟩
  unique := by rintro r r' t ⟨⟩
  waits := fun _ _ _ => rfl

/-! ## An event that concerns one call

All events but responses and mirrors change one call, and take from its queue alone.
-/

/-- What an event that concerns one call, `r`, can do to it and to the mirrors that wait. -/
structure Touches (w w' : CallerWorld) (r : String) (c' : Call) : Prop where
  calls : w'.calls = w.calls.set r c'
  arrived : w'.arrived = w.arrived
  answers : w'.answers = w.answers
  pending : ∀ r', r' ≠ r →
    w'.postman.pendingResponses.get? r' = w.postman.pendingResponses.get? r'
  waits : ∀ t, t ≠ "" → (∀ g, c'.registration = some g → g.task ≠ t) →
    w'.postman.waiting t = w.postman.waiting t
  answered : ∀ t, w'.answered r c' = some t →
    ∃ c, w.calls.get? r = some c ∧ w.answered r c = some t
  registration : c'.registration = (w.calls.get? r).bind Call.registration ∨
    ∃ c t, w.calls.get? r = some c ∧ c.registration = none ∧ w.answered r c = some t ∧ t ≠ "" ∧
      c'.registration = some ⟨t, w.postman.waiting t, (w.arrivedOf t).length⟩

/-- A call that ends, on no task, on the empty one or on the one it registered. -/
theorem touches_finish {w u : CallerWorld} {r : String} {c c' : Call} (hr : w.calls.get? r = some c)
    (hu : Near w u r c) (hanswers : u.answers = w.answers)
    (hregistration : c'.registration = c.registration)
    (hown : ∀ t, w.answered r c = some t → t ≠ "" → u.postman.waiting t ≠ w.postman.waiting t →
      ∃ g, c.registration = some g ∧ g.task = t)
    {task : Option String} (htask : ∀ t, task = some t → t ≠ "" →
      ∃ g, c.registration = some g ∧ g.task = t) (outcome : CallOutcome) :
    Touches w (u.finish r c' task outcome) r { c' with phase := .ended outcome } := by
  obtain ⟨-, hkept, hpending⟩ := AgentPostman.cleanup_spec hu.ok r c'.reference task
  refine ⟨by rw [← hu.calls]; rfl, hu.arrived, hanswers, ?_, ?_, by rintro t ⟨⟩, Or.inl ?_⟩
  · intro r' hne
    change (u.postman.cleanup r c'.reference task).pendingResponses.get? r' = _
    rw [hpending, Dict.get?_erase, if_neg hne, hu.pending]
  · intro t ht hg
    have hnot : task ≠ some t := by
      intro heq
      obtain ⟨g, hgr, hgt⟩ := htask t heq ht
      exact hg g (hregistration.trans hgr) hgt
    refine (hkept t hnot).2.trans ?_
    by_cases ha : w.answered r c = some t
    · by_contra hw
      obtain ⟨g, hgr, hgt⟩ := hown t ha ht hw
      exact hg g (hregistration.trans hgr) hgt
    · exact hu.waits t ha
  · rw [hr, Option.bind_some]
    exact hregistration

/-- A call that changes its phase alone. -/
theorem touches_setPhase {w w' : CallerWorld} {r : String} {c : Call}
    (hr : w.calls.get? r = some c) {phase : CallPhase}
    (hcalls : w'.calls = w.calls.set r { c with phase := phase })
    (harrived : w'.arrived = w.arrived) (hanswers : w'.answers = w.answers)
    (hpostman : w'.postman = w.postman)
    (hanswered : w.answered r { c with phase := phase } = w.answered r c) :
    Touches w w' r { c with phase := phase } := by
  refine ⟨hcalls, harrived, hanswers, fun _ _ => by rw [hpostman], fun _ _ _ => by rw [hpostman],
    fun t ht => ⟨c, hr, ?_⟩, Or.inl (by rw [hr, Option.bind_some])⟩
  rw [← hanswered, ← ht]
  simp only [answered, hpostman]

/-- A call that holds a task registered it. -/
theorem Served.registered_of_answered {w : CallerWorld} (h : Served terminal w) {r : String}
    {c : Call} {t t' : String} {q : ℕ} (hr : w.calls.get? r = some c)
    (hholds : c.phase.holds = some (t, q)) (ha : w.answered r c = some t') :
    ∃ g, c.registration = some g ∧ g.task = t' := by
  obtain rfl : t = t' := Option.some.inj ((answered_of_holds hholds).symm.trans ha)
  exact ((h.call r c hr).registered t q hholds).2

theorem answers_pop {w u : CallerWorld} {q : ℕ} {e : ExecutionEvent}
    (hpop : w.pop q = some (e, u)) : u.answers = w.answers := by
  obtain ⟨events, -, rfl⟩ := pop_spec hpop
  rfl

/-- A call that takes an event from its queue, and keeps its task. -/
theorem touches_pop {w u : CallerWorld} (h : Served terminal w) {r : String} {c c' : Call}
    {t : String} {q : ℕ} {e : ExecutionEvent} (hr : w.calls.get? r = some c)
    (hholds : c.phase.holds = some (t, q)) (hpop : w.pop q = some (e, u))
    (hregistration : c'.registration = c.registration) (hholds' : c'.phase.holds = some (t, q)) :
    Touches w (u.setCall r c') r c' := by
  obtain ⟨hu, -⟩ := near_pop h hr hholds hpop
  have hanswers := answers_pop hpop
  refine ⟨by rw [← hu.calls]; rfl, hu.arrived, hanswers, fun r' _ => ?_,
    fun t' _ hg => ?_, fun t' ht' => ⟨c, hr, ?_⟩,
    Or.inl (by rw [hr, Option.bind_some, hregistration])⟩
  · change u.postman.pendingResponses.get? r' = _
    rw [hu.pending]
  · refine hu.waits t' fun ha => ?_
    obtain ⟨g, hgr, hgt⟩ := h.registered_of_answered hr hholds ha
    exact hg g (hregistration.trans hgr) hgt
  · rw [answered_of_holds hholds, ← ht', answered_of_holds hholds']

/-- A call that takes an event from its queue, and ends. -/
theorem touches_pop_finish {w u : CallerWorld} (h : Served terminal w) {r : String} {c c' : Call}
    {t : String} {q : ℕ} {e : ExecutionEvent} (hr : w.calls.get? r = some c)
    (hholds : c.phase.holds = some (t, q)) (hpop : w.pop q = some (e, u))
    (hregistration : c'.registration = c.registration) (outcome : CallOutcome) :
    Touches w (u.finish r c' (some t) outcome) r { c' with phase := .ended outcome } := by
  refine touches_finish hr (near_pop h hr hholds hpop).1 (answers_pop hpop) hregistration
    (fun t' ha _ _ => h.registered_of_answered hr hholds ha) ?_ outcome
  rintro t' ⟨⟩ _
  exact h.registered_of_answered hr hholds (answered_of_holds hholds)

/-- A call that ends on the task it registered. -/
theorem touches_finishOwn {w u : CallerWorld} (h : Served terminal w) {r : String} {c : Call}
    {t : String} {q : ℕ} (hr : w.calls.get? r = some c) (hholds : c.phase.holds = some (t, q))
    (hpostman : u.postman = w.postman) (hcalls : u.calls = w.calls)
    (harrived : u.arrived = w.arrived) (hanswers : u.answers = w.answers) (outcome : CallOutcome) :
    Touches w (u.finish r c (some t) outcome) r { c with phase := .ended outcome } := by
  have hnear : Near w u r c := ⟨hcalls, harrived, by rw [hpostman]; exact h.ok, by rw [hpostman],
    by rw [hpostman], fun _ _ => by rw [hpostman]⟩
  refine touches_finish hr hnear hanswers rfl (fun _ _ _ hne => absurd (by rw [hpostman]) hne) ?_
    outcome
  rintro t' ⟨⟩ _
  exact h.registered_of_answered hr hholds (answered_of_holds hholds)

theorem touches_take {w w' : CallerWorld} (h : Served terminal w) {r : String}
    (hs : step terminal w (.take r) = some w') : ∃ c', Touches w w' r c' := by
  obtain ⟨c, hr, hs⟩ := Option.bind_eq_some_iff.mp hs
  cases hphase : c.phase <;> simp only [hphase, reduceCtorEq] at hs
  case streaming t q =>
    obtain ⟨⟨e, u⟩, hpop, rfl⟩ := Option.map_eq_some_iff.mp hs
    have hholds : c.phase.holds = some (t, q) := by rw [hphase]; rfl
    simp only [CallerWorld.took]
    split
    · exact ⟨_, touches_pop h hr hholds hpop (by rfl) hholds⟩
    · split
      · exact ⟨_, touches_pop h hr hholds hpop (by rfl) rfl⟩
      · split
        · exact ⟨_, touches_pop_finish h hr hholds hpop (by rfl) _⟩
        · exact ⟨_, touches_pop h hr hholds hpop (by rfl) hholds⟩

theorem touches_resume {w w' : CallerWorld} (h : Served terminal w) {r : String}
    (hs : step terminal w (.resume r) = some w') : ∃ c', Touches w w' r c' := by
  obtain ⟨c, hr, hs⟩ := Option.bind_eq_some_iff.mp hs
  split at hs
  · rename_i response hphase hpending
    obtain rfl := Option.some.inj hs
    have hnear := Near.refl h.ok r c
    have hsame : ∀ t, w.answered r c = some t → t ≠ "" → w.postman.waiting t ≠ w.postman.waiting t →
        ∃ g, c.registration = some g ∧ g.task = t := fun _ _ _ hne => absurd rfl hne
    simp only [resumed]
    split
    · exact ⟨_, touches_finish hr hnear rfl rfl hsame (by rintro t ⟨⟩) _⟩
    · rename_i herror
      split
      · rename_i hnamed
        refine ⟨_, touches_finish hr hnear rfl rfl hsame (fun t ht hne => ?_) _⟩
        rw [CallResponse.named, herror] at hnamed
        exact absurd (by simpa [ht, Option.filter] using hnamed) hne
      · rename_i t hnamed
        have hne : t ≠ "" := by
          rw [CallResponse.named, herror] at hnamed
          simpa using (Option.filter_eq_some_iff.mp hnamed).2
        have hanswered : w.answered r c = some t := by
          simp [answered, hphase, hpending, hnamed]
        have hok : AgentPostman.Ok { w.postman with
            referenceToTask := w.postman.referenceToTask.set c.reference t } :=
          h.ok.congr rfl rfl rfl
        have he := AgentPostman.ensureQueue_spec hok t
        -- registering moves what waits into the queue, and loses nothing
        have hwaiting : (w.postman.registerTask c.reference t).2.queues
            (w.postman.registerTask c.reference t).1 = w.postman.waiting t :=
          (AgentPostman.waiting_of_queue he.queue).symm.trans (he.waits t)
        refine ⟨_, ⟨rfl, rfl, rfl, fun r' _ => congrArg (fun d => d.get? r') he.pending,
          fun t' _ _ => he.waits t', ?_, Or.inr ⟨c, t, hr, ?_, hanswered, hne, ?_⟩⟩⟩
        · rintro t' ⟨⟩
          exact ⟨c, hr, hanswered⟩
        · exact (h.call r c hr).early (Or.inr hphase)
        · rw [← hwaiting]
  · cases hs

/-- Every event but a response and a mirror concerns one call. -/
theorem touches_step {w w' : CallerWorld} (h : Served terminal w) {act : CallerAct}
    (hresponse : ∀ response, act ≠ .response response) (hmirror : ∀ e, act ≠ .mirror e)
    (hs : step terminal w act = some w') : ∃ r c', Touches w w' r c' := by
  cases act with
  | response response => exact absurd rfl (hresponse response)
  | mirror e => exact absurd rfl (hmirror e)
  | take r =>
    obtain ⟨c', hc'⟩ := touches_take h hs
    exact ⟨r, c', hc'⟩
  | resume r =>
    obtain ⟨c', hc'⟩ := touches_resume h hs
    exact ⟨r, c', hc'⟩
  | start r reference escalate =>
    simp only [step] at hs
    split at hs
    · cases hs
    · rename_i hr
      obtain rfl := Option.some.inj hs
      refine ⟨r, ⟨reference, escalate, .sending, [], [], [], none, none⟩, ⟨rfl, rfl, rfl,
        fun r' hne => by simp [setCall, hne], fun _ _ _ => rfl, fun t ha => ?_, Or.inl ?_⟩⟩
      · simp [answered, setCall] at ha
      · rw [hr]
        rfl
  | send r =>
    obtain ⟨c, hr, hs⟩ := Option.bind_eq_some_iff.mp hs
    cases hphase : c.phase <;> simp only [hphase, reduceCtorEq, Option.some.injEq] at hs
    subst hs
    exact ⟨r, _, touches_setPhase hr rfl rfl rfl rfl (by simp [answered, hphase])⟩
  | next r =>
    obtain ⟨c, hr, hs⟩ := Option.bind_eq_some_iff.mp hs
    cases hphase : c.phase <;> simp only [hphase, reduceCtorEq] at hs
    case suspended t q last =>
      have hholds : c.phase.holds = some (t, q) := by rw [hphase]; rfl
      cases last with
      | true =>
        obtain rfl := Option.some.inj hs
        exact ⟨r, _, touches_finishOwn h hr hholds rfl rfl rfl rfl _⟩
      | false =>
        obtain rfl := Option.some.inj hs
        exact ⟨r, _, touches_setPhase hr rfl rfl rfl rfl (by simp [answered, hphase])⟩
  | cancel r =>
    obtain ⟨c, hr, hs⟩ := Option.bind_eq_some_iff.mp hs
    cases hphase : c.phase <;> simp only [hphase, reduceCtorEq, Option.some.injEq] at hs <;>
      subst hs
    case sending | awaiting =>
      exact ⟨r, _, touches_finish hr (Near.refl h.ok r c) rfl rfl
        (fun _ _ _ hne => absurd rfl hne) (by rintro t ⟨⟩) _⟩
    case streaming t q =>
      exact ⟨r, _, touches_setPhase hr rfl rfl rfl rfl (by simp [answered, hphase])⟩
    case confirming t q escalated =>
      have hholds : c.phase.holds = some (t, q) := by rw [hphase]; rfl
      exact ⟨r, _, touches_finishOwn h hr hholds rfl rfl rfl rfl _⟩
  | close r =>
    obtain ⟨c, hr, hs⟩ := Option.bind_eq_some_iff.mp hs
    cases hphase : c.phase <;> simp only [hphase, reduceCtorEq, Option.some.injEq] at hs
    case suspended t q last =>
      subst hs
      have hholds : c.phase.holds = some (t, q) := by rw [hphase]; rfl
      exact ⟨r, _, touches_finishOwn (u := w.asend (.cancelRequest t)) h hr hholds rfl rfl rfl
        rfl _⟩
  | confirm r =>
    obtain ⟨c, hr, hs⟩ := Option.bind_eq_some_iff.mp hs
    cases hphase : c.phase <;> simp only [hphase, reduceCtorEq] at hs
    case confirming t q escalated =>
      obtain ⟨⟨e, u⟩, hpop, rfl⟩ := Option.map_eq_some_iff.mp hs
      have hholds : c.phase.holds = some (t, q) := by rw [hphase]; rfl
      simp only
      split
      · exact ⟨r, _, touches_pop_finish h hr hholds hpop (by rfl) _⟩
      · -- any other event is dropped, and the call is what it was
        have hset := touches_pop h hr hholds hpop (by rfl) hholds
        have hcalls : u.calls = w.calls := (near_pop h hr hholds hpop).1.calls
        rw [setCall, hcalls, Dict.set_of_get?_eq_some hr, ← hcalls] at hset
        exact ⟨r, c, hset⟩
  | timeout r =>
    obtain ⟨c, hr, hs⟩ := Option.bind_eq_some_iff.mp hs
    cases hphase : c.phase <;> simp only [hphase, reduceCtorEq] at hs
    case confirming t q escalated =>
      have hholds : c.phase.holds = some (t, q) := by rw [hphase]; rfl
      have hfinish := touches_finishOwn h hr hholds rfl rfl rfl rfl .cancelled
      cases escalated with
      | true =>
        obtain rfl := Option.some.inj hs
        exact ⟨r, _, hfinish⟩
      | false =>
        simp only at hs
        split at hs
        · obtain rfl := Option.some.inj hs
          exact ⟨r, _, touches_setPhase hr rfl rfl rfl rfl (by simp [answered, hphase])⟩
        · obtain rfl := Option.some.inj hs
          exact ⟨r, _, hfinish⟩

/-! ## Each event keeps what a call is traced to -/

theorem Traced.touches {w w' : CallerWorld} (h : Traced w) {r : String} {c' : Call}
    (ht : Touches w w' r c') : Traced w' := by
  have hget : ∀ r' c₀, w'.calls.get? r' = some c₀ →
      r' = r ∧ c₀ = c' ∨ r' ≠ r ∧ w.calls.get? r' = some c₀ := by
    intro r' c₀ hr'
    rw [ht.calls] at hr'
    exact Dict.get?_set_eq_some.mp hr'
  have hset : ∀ r', w'.calls.get? r' = if r' = r then some c' else w.calls.get? r' := by
    intro r'
    rw [ht.calls, Dict.get?_set]
  have harrived : ∀ t, w'.arrivedOf t = w.arrivedOf t := fun t => by
    rw [arrivedOf, arrivedOf, ht.arrived]
  have hregistered : ∀ g, c'.registration = some g → (r, g.task) ∈ w.answers ∧
      g.since ≤ (w.arrivedOf g.task).length ∧ g.buffered = (w.arrivedOf g.task).take g.since := by
    intro g hg
    rcases ht.registration with hsame | ⟨c, t, hr, hnone, ha, hne, hnew⟩
    · rw [hg] at hsame
      obtain ⟨c, hr, hgc⟩ := Option.bind_eq_some_iff.mp hsame.symm
      exact h.registered r c g hr hgc
    · -- it is registered now: all that arrived waited, since no other call had the task
      obtain rfl := Option.some.inj (hg.symm.trans hnew)
      have hin := h.answered r c t hr ha
      refine ⟨hin, le_rfl, ?_⟩
      rw [List.take_length]
      refine h.waits t hne fun r' c₀ g' hr' hg' heq => ?_
      subst heq
      obtain rfl := h.unique r' r _ (h.registered r' c₀ g' hr' hg').1 hin
      rw [hr] at hr'
      obtain rfl := Option.some.inj hr'
      rw [hnone] at hg'
      cases hg'
  have hkept : ∀ c g, w.calls.get? r = some c → c.registration = some g →
      c'.registration = some g := by
    intro c g hr hg
    rcases ht.registration with hsame | ⟨c₀, t, hr₀, hnone, -⟩
    · rw [hsame, hr, Option.bind_some, hg]
    · rw [hr] at hr₀
      obtain rfl := Option.some.inj hr₀
      rw [hnone] at hg
      cases hg
  refine ⟨?_, ?_, by rw [ht.answers]; exact h.unique, ?_⟩
  · intro r' c₀ t hr' ha
    rw [ht.answers]
    rcases hget r' c₀ hr' with ⟨rfl, rfl⟩ | ⟨hne, hold⟩
    · obtain ⟨c, hr, ha'⟩ := ht.answered t ha
      exact h.answered r' c t hr ha'
    · refine h.answered r' c₀ t hold ?_
      rw [← ha]
      simp only [CallerWorld.answered, ht.pending r' hne]
  · intro r' c₀ g hr' hg
    rw [ht.answers, harrived]
    rcases hget r' c₀ hr' with ⟨rfl, rfl⟩ | ⟨-, hold⟩
    · exact hregistered g hg
    · exact h.registered r' c₀ g hold hg
  · intro t hne hfree
    have hmine : ∀ g, c'.registration = some g → g.task ≠ t := fun g hg =>
      hfree r c' g (by rw [hset, if_pos rfl]) hg
    rw [harrived, ht.waits t hne hmine]
    refine h.waits t hne fun r' c₀ g hr' hg => ?_
    by_cases heq : r' = r
    · subst heq
      exact hmine g (hkept c₀ g hr' hg)
    · exact hfree r' c₀ g (by rw [hset, if_neg heq]; exact hr') hg

theorem mem_answers_receive {w : CallerWorld} {response : CallResponse} {r t : String} :
    (r, t) ∈ (w.receive response).answers ↔
      (r, t) ∈ w.answers ∨ (r = response.request ∧ response.named = some t) := by
  rw [receive]
  cases hn : response.named with
  | none => simp
  | some t' =>
    cases hr : w.calls.get? response.request <;> simp [hr, setCall, eq_comm]

theorem traced_response {w : CallerWorld} (hok : w.postman.Ok) (h : Traced w)
    {response : CallResponse} (hd : DistinctTasks w (.response response)) :
    Traced (w.receive response) := by
  obtain ⟨hpostman, harrived, -, hcalls⟩ := receive_calls w response
  obtain ⟨-, -, hwaits⟩ := AgentPostman.handleResponse_spec hok response
  rw [← hpostman] at hwaits
  have hanswers : ∀ r t, (r, t) ∈ (w.receive response).answers ↔
      (r, t) ∈ w.answers ∨ (r = response.request ∧ response.named = some t) :=
    fun r t => mem_answers_receive
  have hnew : ∀ r c, w.calls.get? r = some c →
      ∃ c', (w.receive response).calls.get? r = some c' ∧ c'.registration = c.registration := by
    intro r c hr
    rw [hcalls, hr]
    split
    · exact ⟨_, rfl, rfl⟩
    · exact ⟨c, rfl, rfl⟩
  have harrivedOf : ∀ t, (w.receive response).arrivedOf t = w.arrivedOf t := fun t => by
    rw [arrivedOf, arrivedOf, harrived]
  refine ⟨?_, ?_, ?_, ?_⟩
  · intro r c' t hr ha
    obtain ⟨c, hc, rfl⟩ := get?_calls_receive hr
    rw [hanswers]
    exact (answered_receive ha).imp (h.answered r c t hc) fun hnow => ⟨hnow.1, hnow.2.1⟩
  · intro r c' g hr hg
    obtain ⟨c, hc, rfl⟩ := get?_calls_receive hr
    rw [hanswers, harrivedOf]
    obtain ⟨hin, hrest⟩ := h.registered r c g hc hg
    exact ⟨Or.inl hin, hrest⟩
  · intro r r' t hr hr'
    rw [hanswers] at hr hr'
    rcases hr with hr | ⟨rfl, hn⟩ <;> rcases hr' with hr' | ⟨rfl, hn'⟩
    · exact h.unique r r' t hr hr'
    · -- two requests would be answered with one task
      exact hd t hn' r hr
    · exact (hd t hn r' hr').symm
    · rfl
  · intro t hne hfree
    rw [harrivedOf, hwaits]
    refine h.waits t hne fun r c g hr hg => ?_
    obtain ⟨c', hr', hregistration⟩ := hnew r c hr
    exact hfree r c' g hr' (hregistration.trans hg)

theorem traced_mirror {w : CallerWorld} (hok : w.postman.Ok) (h : Traced w) (e : ExecutionEvent) :
    Traced { w with
      postman := w.postman.handleExecutionEvent e, arrived := w.arrived ++ [e] } := by
  obtain ⟨-, -, hpending, hwaits⟩ := AgentPostman.handleExecutionEvent_spec hok e
  refine ⟨?_, ?_, h.unique, ?_⟩
  · intro r c t hr ha
    refine h.answered r c t hr ?_
    rw [← ha]
    simp only [answered, hpending]
  · intro r c g hr hg
    obtain ⟨hin, hsince, hbuffered⟩ := h.registered r c g hr hg
    rw [arrivedOf_mirror, List.length_append, List.take_append_of_le_length hsince]
    exact ⟨hin, by omega, hbuffered⟩
  · intro t hne hfree
    rw [arrivedOf_mirror, ← h.waits t hne hfree]
    exact hwaits t

/-- Distinct tasks are never shared. -/
theorem Traced.notShared {w : CallerWorld} (h : Traced w) {act : CallerAct}
    (hd : DistinctTasks w act) : NotShared w act := by
  cases act with
  | response response =>
    intro t hnamed _ r c hne hr ha
    exact hne (hd t hnamed r (h.answered r c t hr ha))
  | _ => trivial

theorem traced_step {w w' : CallerWorld} (hs : Served terminal w) (h : Traced w) {act : CallerAct}
    (hd : DistinctTasks w act) (hstep : step terminal w act = some w') : Traced w' := by
  by_cases hresponse : ∃ response, act = .response response
  · obtain ⟨response, rfl⟩ := hresponse
    obtain rfl := Option.some.inj hstep
    exact traced_response hs.ok h hd
  · by_cases hmirror : ∃ e, act = .mirror e
    · obtain ⟨e, rfl⟩ := hmirror
      obtain rfl := Option.some.inj hstep
      exact traced_mirror hs.ok h e
    · obtain ⟨r, c', ht⟩ := touches_step hs (fun response heq => hresponse ⟨response, heq⟩)
        (fun e heq => hmirror ⟨e, heq⟩) hstep
      exact h.touches ht

/-! ## In every run -/

/-- In every run whose responses name distinct tasks: a call is registered with the task a response
to its own request named, and no other call with that task. What it took, followed by what waits
in its queue, is every mirror of its task that arrived; it was handed the stream of what it took,
and once it returned, of everything. -/
theorem call_stream_exact (terminal : ExecutionEvent → Bool) (acts : List CallerAct)
    (w : CallerWorld) (hmeets : Meets (step terminal) DistinctTasks start acts)
    (hrun : exec (step terminal) start acts = some w) :
    ∀ r c, w.calls.get? r = some c →
      c.handed = callStream terminal c.taken ∧
      (c.registration = none → c.taken = []) ∧
      ∀ g, c.registration = some g →
        (r, g.task) ∈ w.answers ∧
        (∀ r' c' g', w.calls.get? r' = some c' → c'.registration = some g' →
          g'.task = g.task → r' = r) ∧
        c.taken <+: w.arrivedOf g.task ∧
        (∀ t q, c.phase.holds = some (t, q) → t = g.task ∧ w.postman.taskQueues.get? t = some q) ∧
        (∀ t, c.phase.inStream = some t →
          c.taken ++ w.postman.waiting g.task = w.arrivedOf g.task) ∧
        (c.phase = .ended .returned → c.handed = callStream terminal (w.arrivedOf g.task)) := by
  have h : Served terminal w ∧ Traced w := by
    refine exec_invariant_of_meets (I := fun w => Served terminal w ∧ Traced w)
      ⟨served_start, traced_start⟩ ?_ hmeets hrun
    rintro s act s' ⟨hs, ht⟩ hd hstep
    exact ⟨served_step hs (ht.notShared hd) hstep, traced_step hs ht hd hstep⟩
  obtain ⟨hs, ht⟩ := h
  intro r c hr
  have hc := hs.call r c hr
  obtain ⟨hstreamed, hhanded⟩ := hs.handed hr
  refine ⟨hstreamed, hc.unregistered, fun g hg => ?_⟩
  obtain ⟨hholds, hin, hreturned⟩ := hhanded g hg
  obtain ⟨hanswered, -, hbuffered⟩ := ht.registered r c g hr hg
  have hall : g.buffered ++ (w.arrivedOf g.task).drop g.since = w.arrivedOf g.task := by
    rw [hbuffered, List.take_append_drop]
  have hown := hc.own g hg
  rw [hall] at hin hreturned hown
  refine ⟨hanswered, fun r' c' g' hr' hg' htask => ?_, hown, hholds, fun t htask => ?_, hreturned⟩
  · have hanswered' := (ht.registered r' c' g' hr' hg').1
    rw [htask] at hanswered'
    exact ht.unique r' r g.task hanswered' hanswered
  · obtain ⟨q, hq⟩ := CallPhase.holds_of_inStream htask
    obtain ⟨rfl, -⟩ := hholds t q hq
    exact hin _ htask

/-- What `DistinctTasks` asks of a response, of the answers there were. -/
theorem distinctTasks_of_answers {w : CallerWorld} {response : CallResponse}
    (h : ∀ p ∈ w.answers, response.named = some p.2 → p.1 = response.request) :
    DistinctTasks w (.response response) := by
  intro t hnamed r hr
  exact h (r, t) hr hnamed

/-- A call whose mirrors arrive before the response, between it and the registration, and again,
next to one that is answered with another task. -/
def racedMirrors : List CallerAct :=
  [.start "r1" "a" false, .send "r1", .mirror ⟨"t", 1, .yield .null⟩,
    .start "r2" "b" false, .send "r2", .response (.assign "r2" (some "u") none),
    .response (.assign "r1" (some "t") none), .mirror ⟨"t", 2, .other "PROGRESS"⟩,
    .resume "r1", .mirror ⟨"t", 1, .yield .null⟩, .mirror ⟨"t", 3, .completed⟩,
    .take "r1", .next "r1", .take "r1", .take "r1", .take "r1", .next "r1"]

theorem call_stream_exact_racedMirrors :
    ∃ w c, exec (step endsTask) start racedMirrors = some w ∧ w.calls.get? "r1" = some c ∧
      c.phase = .ended .returned ∧ c.handed.length = 2 ∧
      c.handed = callStream endsTask (w.arrivedOf "t") := by
  have hmeets : Meets (step endsTask) DistinctTasks start racedMirrors := by
    iterate 17
      refine meets_cons ?_ ?_
      · first | trivial | exact distinctTasks_of_answers (by decide)
      rintro w ⟨⟩
    exact meets_nil _
  obtain ⟨w, hw⟩ : ∃ w, exec (step endsTask) start racedMirrors = some w := ⟨_, rfl⟩
  have hexact := call_stream_exact endsTask racedMirrors w hmeets hw
  obtain rfl := Option.some.inj hw
  exact ⟨_, _, rfl, rfl, rfl, rfl, ((hexact "r1" _ rfl).2.2 _ rfl).2.2.2.2.2 rfl⟩

end CallerWorld

end Rekuest
