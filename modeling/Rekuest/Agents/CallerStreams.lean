import Rekuest.Agents.CallerTables

/-!
# What a call is handed

Every call in flight that was answered with a task of its own takes from that task's queue, which
holds what was waiting when the task was registered and every mirror since. The invariant is kept
by every event that does not answer two calls in flight with one task.
-/

namespace Rekuest

open Runs EventStream

/-- What a call is to be handed of the mirrors `events`: the first of each seq, up to the first
terminal one, as far as they are surfaced. -/
def callStream (terminal : ExecutionEvent → Bool) (events : List ExecutionEvent) :
    List CallerTaskEvent :=
  stream ExecutionEvent.seq terminal adapt events

/-- The task and queue a call has from its registration to its end. -/
def CallPhase.holds : CallPhase → Option (String × ℕ)
  | .streaming task queue | .suspended task queue _ | .confirming task queue _ =>
    some (task, queue)
  | .sending | .awaiting | .ended _ => none

/-- The task a call takes events of. -/
def CallPhase.inStream : CallPhase → Option String
  | .streaming task _ | .suspended task _ _ => some task
  | _ => none

theorem CallPhase.holds_of_inStream {phase : CallPhase} {task : String}
    (h : phase.inStream = some task) : ∃ queue, phase.holds = some (task, queue) := by
  cases phase <;> simp_all [inStream, holds]

namespace CallerWorld

/-- The task a call in flight has been answered with, whether or not it went on since. -/
def answered (w : CallerWorld) (request : String) (call : Call) : Option String :=
  match call.phase with
  | .sending | .awaiting => (w.postman.pendingResponses.get? request).join.bind CallResponse.named
  | .streaming task _ | .suspended task _ _ | .confirming task _ _ => some task
  | .ended _ => none

theorem answered_of_holds {w : CallerWorld} {request : String} {call : Call} {task : String}
    {queue : ℕ} (h : call.phase.holds = some (task, queue)) :
    w.answered request call = some task := by
  rw [answered]
  cases hp : call.phase <;> simp_all [CallPhase.holds]

/-- Whether the stream of what was taken has ended is what the phase says. -/
def EndKnown (terminal : ExecutionEvent → Bool) (call : Call) : Prop :=
  match call.phase with
  | .streaming _ _ => ended ExecutionEvent.seq terminal call.taken = false
  | .suspended _ _ last => ended ExecutionEvent.seq terminal call.taken = last
  | .ended .returned => ended ExecutionEvent.seq terminal call.taken = true
  | _ => True

/-- What one call has been handed, and what waits for it. -/
structure CallServed (terminal : ExecutionEvent → Bool) (w : CallerWorld) (call : Call) : Prop where
  streamed : call.handed = callStream terminal call.taken
  seen : ∀ k, k ∈ call.seen ↔ k ∈ call.taken.map ExecutionEvent.seq
  endKnown : EndKnown terminal call
  unregistered : call.registration = none → call.taken = []
  early : call.phase = .sending ∨ call.phase = .awaiting → call.registration = none
  registered : ∀ t q, call.phase.holds = some (t, q) →
    t ≠ "" ∧ ∃ g, call.registration = some g ∧ g.task = t
  since : ∀ g, call.registration = some g → g.since ≤ (w.arrivedOf g.task).length
  own : ∀ g, call.registration = some g →
    call.taken <+: g.buffered ++ (w.arrivedOf g.task).drop g.since
  complete : ∀ g t, call.registration = some g → call.phase.inStream = some t →
    call.taken ++ w.postman.waiting t = g.buffered ++ (w.arrivedOf t).drop g.since

/-- Every call in flight has its task's queue, and its task, to itself. -/
structure Served (terminal : ExecutionEvent → Bool) (w : CallerWorld) : Prop where
  ok : w.postman.Ok
  bound : ∀ r c t q, w.calls.get? r = some c → c.phase.holds = some (t, q) →
    w.postman.taskQueues.get? t = some q
  alone : ∀ r r' c c' t, r ≠ r' → w.calls.get? r = some c → w.calls.get? r' = some c' →
    w.answered r c = some t → w.answered r' c' ≠ some t
  call : ∀ r c, w.calls.get? r = some c → CallServed terminal w c

variable {terminal : ExecutionEvent → Bool}

theorem served_start : Served terminal start where
  ok := AgentPostman.ok_new
  bound := by rintro r c t q ⟨⟩
  alone := by rintro r r' c c' t _ ⟨⟩
  call := by rintro r c ⟨⟩

/-- A call sees the world through what arrived, and what waits for the task it takes from. -/
theorem CallServed.congr {w w' : CallerWorld} {c : Call} (h : CallServed terminal w c)
    (harrived : w'.arrived = w.arrived)
    (hwaits : ∀ t, c.phase.inStream = some t → w'.postman.waiting t = w.postman.waiting t) :
    CallServed terminal w' c where
  streamed := h.streamed
  seen := h.seen
  endKnown := h.endKnown
  unregistered := h.unregistered
  early := h.early
  registered := h.registered
  since := by simpa only [arrivedOf, harrived] using h.since
  own := by simpa only [arrivedOf, harrived] using h.own
  complete := by
    intro g t hg ht
    rw [hwaits t ht]
    simpa only [arrivedOf, harrived] using h.complete g t hg ht

/-- What an event that concerns one call, `r`, has to show. -/
structure Concerns (terminal : ExecutionEvent → Bool) (w w' : CallerWorld) (r : String) (c : Call) :
    Prop where
  calls : w'.calls = w.calls.set r c
  arrived : w'.arrived = w.arrived
  ok : w'.postman.Ok
  others : ∀ r' c', r' ≠ r → w.calls.get? r' = some c' → ∀ t q, c'.phase.holds = some (t, q) →
    w'.postman.taskQueues.get? t = w.postman.taskQueues.get? t ∧
      w'.postman.waiting t = w.postman.waiting t
  pending : ∀ r', r' ≠ r →
    w'.postman.pendingResponses.get? r' = w.postman.pendingResponses.get? r'
  bound : ∀ t q, c.phase.holds = some (t, q) → w'.postman.taskQueues.get? t = some q
  alone : ∀ t, w'.answered r c = some t → ∀ r' c', r' ≠ r → w.calls.get? r' = some c' →
    w.answered r' c' ≠ some t
  call : CallServed terminal w' c

/-- An event that concerns one call keeps all of them served. -/
theorem Served.concerns {w w' : CallerWorld} (h : Served terminal w) {r : String} {c : Call}
    (hc : Concerns terminal w w' r c) : Served terminal w' := by
  have hget : ∀ r' c', w'.calls.get? r' = some c' →
      r' = r ∧ c' = c ∨ r' ≠ r ∧ w.calls.get? r' = some c' := by
    intro r' c' hr'
    rw [hc.calls] at hr'
    exact Dict.get?_set_eq_some.mp hr'
  have hanswered : ∀ r' c', r' ≠ r → w'.answered r' c' = w.answered r' c' := by
    intro r' c' hr'
    simp only [answered, hc.pending r' hr']
  refine ⟨hc.ok, ?_, ?_, ?_⟩
  · intro r' c' t q hr' hq
    rcases hget r' c' hr' with ⟨rfl, rfl⟩ | ⟨hne, hold⟩
    · exact hc.bound t q hq
    · rw [(hc.others r' c' hne hold t q hq).1]
      exact h.bound r' c' t q hold hq
  · -- two other calls have the tasks they had; the call itself shares its task with none
    intro r₁ r₂ c₁ c₂ t hne h₁ h₂ ha₁ ha₂
    rcases hget r₁ c₁ h₁ with ⟨rfl, rfl⟩ | ⟨hr₁, hold₁⟩ <;>
      rcases hget r₂ c₂ h₂ with ⟨rfl, hc₂⟩ | ⟨hr₂, hold₂⟩
    · exact hne rfl
    · exact hc.alone t ha₁ r₂ c₂ hr₂ hold₂ ((hanswered r₂ c₂ hr₂) ▸ ha₂)
    · subst hc₂
      exact hc.alone t ha₂ r₁ c₁ hr₁ hold₁ ((hanswered r₁ c₁ hr₁) ▸ ha₁)
    · rw [hanswered r₁ c₁ hr₁] at ha₁
      rw [hanswered r₂ c₂ hr₂] at ha₂
      exact h.alone r₁ r₂ c₁ c₂ t hne hold₁ hold₂ ha₁ ha₂
  · intro r' c' hr'
    rcases hget r' c' hr' with ⟨rfl, rfl⟩ | ⟨hne, hold⟩
    · exact hc.call
    · refine (h.call r' c' hold).congr hc.arrived fun t ht => ?_
      obtain ⟨q, hq⟩ := CallPhase.holds_of_inStream ht
      exact (hc.others r' c' hne hold t q hq).2

/-! ## The events that change only one call

Such an event touches what waits for the task of its call at most, so that calls with other tasks
stay served as they are.
-/

/-- The other calls in flight have other tasks than `t`. -/
theorem Served.task_ne {w : CallerWorld} (h : Served terminal w) {r r' : String} {c c' : Call}
    {t t' : String} {q : ℕ} (hr : w.calls.get? r = some c) (hne : r' ≠ r)
    (hr' : w.calls.get? r' = some c') (ha : w.answered r c = some t)
    (hq : c'.phase.holds = some (t', q)) : t' ≠ t := by
  rintro rfl
  exact h.alone r r' c c' t' hne.symm hr hr' ha (answered_of_holds hq)

/-- A call in flight that changes only its phase, and keeps its task, stays served. -/
theorem Served.setPhase {w w' : CallerWorld} (h : Served terminal w) {r : String} {c : Call}
    (hr : w.calls.get? r = some c) {phase : CallPhase}
    (hcalls : w'.calls = w.calls.set r { c with phase := phase })
    (harrived : w'.arrived = w.arrived) (hpostman : w'.postman = w.postman)
    (hholds : phase.holds = c.phase.holds)
    (hanswered : w.answered r { c with phase := phase } = w.answered r c)
    (hin : ∀ t, phase.inStream = some t → c.phase.inStream = some t)
    (hearly : phase = .sending ∨ phase = .awaiting → c.phase = .sending ∨ c.phase = .awaiting)
    (hend : EndKnown terminal { c with phase := phase }) : Served terminal w' := by
  have hs := h.call r c hr
  refine h.concerns (r := r) (c := { c with phase := phase })
    ⟨hcalls, harrived, ?_, ?_, ?_, ?_, ?_, ?_⟩
  · rw [hpostman]; exact h.ok
  · intro r' c' _ _ t q _
    rw [hpostman]
    exact ⟨rfl, rfl⟩
  · intro r' _
    rw [hpostman]
  · intro t q hq
    rw [hpostman]
    exact h.bound r c t q hr (hholds ▸ hq)
  · intro t ha r' c' hne hr' ha'
    have hsame : w'.answered r { c with phase := phase } = w.answered r c := by
      rw [← hanswered]
      simp only [answered, hpostman]
    exact h.alone r r' c c' t hne.symm hr hr' (hsame ▸ ha) ha'
  · refine ⟨hs.streamed, hs.seen, hend, hs.unregistered,
      fun he => hs.early (hearly he), ?_, ?_, ?_, ?_⟩
    · intro t q hq
      exact hs.registered t q (hholds ▸ hq)
    · simpa only [arrivedOf, harrived] using hs.since
    · simpa only [arrivedOf, harrived] using hs.own
    · intro g t hg ht
      rw [hpostman]
      simpa only [arrivedOf, harrived] using hs.complete g t hg (hin t ht)

/-- A world that differs from `w` at most in what waits for the task of call `r`. -/
structure Near (w u : CallerWorld) (r : String) (c : Call) : Prop where
  calls : u.calls = w.calls
  arrived : u.arrived = w.arrived
  ok : u.postman.Ok
  taskQueues : u.postman.taskQueues = w.postman.taskQueues
  pending : u.postman.pendingResponses = w.postman.pendingResponses
  waits : ∀ t, w.answered r c ≠ some t → u.postman.waiting t = w.postman.waiting t

theorem Near.refl {w : CallerWorld} (h : w.postman.Ok) (r : String) (c : Call) : Near w w r c :=
  ⟨rfl, rfl, h, rfl, rfl, fun _ _ => rfl⟩

/-- A call that ends leaves the others served: it takes away no queue but that of its own task. -/
theorem Served.finish {w u : CallerWorld} (h : Served terminal w) {r : String} {c c' : Call}
    (hr : w.calls.get? r = some c) (hu : Near w u r c) {task : Option String}
    (htask : ∀ t, task = some t → t = "" ∨ w.answered r c = some t) {outcome : CallOutcome}
    (hcall : CallServed terminal u { c' with phase := .ended outcome }) :
    Served terminal (u.finish r c' task outcome) := by
  obtain ⟨hok, hkept, hpending⟩ := AgentPostman.cleanup_spec hu.ok r c'.reference task
  refine h.concerns (r := r) (c := { c' with phase := .ended outcome })
    ⟨?_, hu.arrived, hok, ?_, ?_, ?_, ?_, ?_⟩
  · rw [← hu.calls]
    rfl
  · intro r' c₀ hne hr' t q hq
    have hother : w.answered r c ≠ some t := fun ha => h.task_ne hr hne hr' ha hq rfl
    -- the empty task is no call's, and the call's own is held by no other
    have hmine : task ≠ some t := by
      intro heq
      rcases htask t heq with rfl | ha
      · exact ((h.call r' c₀ hr').registered _ q hq).1 rfl
      · exact hother ha
    obtain ⟨hq', hw'⟩ := hkept t hmine
    exact ⟨hq'.trans (by rw [hu.taskQueues]), hw'.trans (hu.waits t hother)⟩
  · intro r' hne
    change (u.postman.cleanup r c'.reference task).pendingResponses.get? r' = _
    rw [hpending, Dict.get?_erase, if_neg hne, hu.pending]
  · rintro t q ⟨⟩
  · rintro t ⟨⟩
  · exact hcall.congr rfl (by rintro t ⟨⟩)

/-- What a call was handed stays right when it ends; that it returned has to be shown. -/
theorem CallServed.ended {w : CallerWorld} {c : Call} (h : CallServed terminal w c)
    {outcome : CallOutcome} (hend : EndKnown terminal { c with phase := .ended outcome }) :
    CallServed terminal w { c with phase := .ended outcome } where
  streamed := h.streamed
  seen := h.seen
  endKnown := hend
  unregistered := h.unregistered
  early := by rintro (⟨⟨⟩⟩ | ⟨⟨⟩⟩)
  registered := by rintro t q ⟨⟩
  since := h.since
  own := h.own
  complete := by rintro g t _ ⟨⟩

/-! ## Taking an event -/

/-- The first mirror of a seq the call takes is surfaced, a repeated one is not. -/
theorem stream_took {c : Call} (hstreamed : c.handed = callStream terminal c.taken)
    (hseen : ∀ k, k ∈ c.seen ↔ k ∈ c.taken.map ExecutionEvent.seq)
    (hend : EventStream.ended ExecutionEvent.seq terminal c.taken = false) (e : ExecutionEvent) :
    (e.seq ∈ c.seen → callStream terminal (c.taken ++ [e]) = c.handed ∧
      EventStream.ended ExecutionEvent.seq terminal (c.taken ++ [e]) = false ∧
      ∀ k, k ∈ c.seen ↔ k ∈ (c.taken ++ [e]).map ExecutionEvent.seq) ∧
    (e.seq ∉ c.seen → callStream terminal (c.taken ++ [e]) = c.handed ++ (adapt e).toList ∧
      EventStream.ended ExecutionEvent.seq terminal (c.taken ++ [e]) = terminal e ∧
      ∀ k, k ∈ e.seq :: c.seen ↔ k ∈ (c.taken ++ [e]).map ExecutionEvent.seq) := by
  constructor
  · intro he
    have he' := (hseen _).mp he
    refine ⟨?_, ?_, fun k => ?_⟩
    · rw [callStream, stream_concat_of_seen he', hstreamed, callStream]
    · rw [ended_concat_of_seen he', hend]
    · rw [hseen, List.map_append, List.mem_append, List.map_singleton, List.mem_singleton]
      exact ⟨Or.inl, fun h => h.elim id fun h => h ▸ he'⟩
  · intro he
    have he' := fun h => he ((hseen _).mpr h)
    refine ⟨?_, ?_, fun k => ?_⟩
    · rw [callStream, stream_concat_of_new hend he', hstreamed, callStream]
    · rw [ended_concat_of_new he', hend, Bool.false_or]
    · rw [List.mem_cons, hseen, List.map_append, List.mem_append, List.map_singleton,
        List.mem_singleton, or_comm]

/-- Taking an event changes the queue it is taken from, and nothing else. -/
theorem pop_spec {w u : CallerWorld} {q : ℕ} {e : ExecutionEvent} (h : w.pop q = some (e, u)) :
    ∃ events, w.postman.queues q = e :: events ∧ u = { w with postman :=
      { w.postman with queues := Function.update w.postman.queues q events } } := by
  rw [pop] at h
  split at h
  · cases h
  · rename_i e' events hevents
    obtain ⟨rfl, rfl⟩ := Prod.mk.inj (Option.some.inj h)
    exact ⟨events, hevents, rfl⟩

/-- Taking the first event of a queue changes nothing that waits for another task. -/
theorem near_pop {w u : CallerWorld} (h : Served terminal w) {r : String} {c : Call} {t : String}
    {q : ℕ} {e : ExecutionEvent} (hr : w.calls.get? r = some c)
    (hq : c.phase.holds = some (t, q)) (hpop : w.pop q = some (e, u)) :
    Near w u r c ∧ w.postman.waiting t = e :: u.postman.waiting t := by
  have hbound := h.bound r c t q hr hq
  obtain ⟨events, hevents, rfl⟩ := pop_spec hpop
  refine ⟨⟨rfl, rfl, h.ok.congr rfl rfl rfl, rfl, rfl, fun t' ht' => ?_⟩, ?_⟩
  · have hne : t' ≠ t := by
      rintro rfl
      exact ht' (answered_of_holds hq)
    cases hq' : w.postman.taskQueues.get? t' with
    | none => simp [AgentPostman.waiting, hq']
    | some q' =>
      have hqne : q' ≠ q := fun heq => hne (h.ok.own _ _ _ (heq ▸ hq') hbound)
      simp [AgentPostman.waiting, hq', Function.update_of_ne hqne]
  · simp [AgentPostman.waiting, hbound, hevents]

/-- What is known of a call that took `e`, whatever it does next. -/
theorem CallServed.took {w u : CallerWorld} (h : Served terminal w) {r : String} {c : Call}
    {t : String} {q : ℕ} {e : ExecutionEvent} (hr : w.calls.get? r = some c)
    (hphase : c.phase = .streaming t q) (hu : Near w u r c)
    (hwaits : w.postman.waiting t = e :: u.postman.waiting t) {c' : Call}
    (htaken : c'.taken = c.taken ++ [e]) (hregistration : c'.registration = c.registration)
    (hstreamed : c'.handed = callStream terminal c'.taken)
    (hseen : ∀ k, k ∈ c'.seen ↔ k ∈ c'.taken.map ExecutionEvent.seq)
    (hend : EndKnown terminal c')
    (hnext : c'.phase = .streaming t q ∨ (∃ last, c'.phase = .suspended t q last) ∨
      ∃ outcome, c'.phase = .ended outcome) : CallServed terminal u c' := by
  have hs := h.call r c hr
  have hholds : c.phase.holds = some (t, q) := by rw [hphase]; rfl
  have hin : c.phase.inStream = some t := by rw [hphase]; rfl
  obtain ⟨hne, g, hg, hgt⟩ := hs.registered t q hholds
  -- what the call took and what waits for its task is all that arrived
  have hfull := hs.complete g t hg hin
  rw [hwaits] at hfull
  have harrived : ∀ t, u.arrivedOf t = w.arrivedOf t := fun t => by
    rw [arrivedOf, arrivedOf, hu.arrived]
  have hnow : ∀ t', c'.phase.inStream = some t' → t' = t := by
    intro t' ht'
    rcases hnext with hp | ⟨_, hp⟩ | ⟨_, hp⟩ <;> rw [hp] at ht' <;> cases ht' <;> rfl
  refine ⟨hstreamed, hseen, hend, ?_, ?_, ?_, ?_, ?_, ?_⟩
  · intro hnone
    rw [hregistration, hg] at hnone
    cases hnone
  · intro hearly
    rcases hnext with hp | ⟨_, hp⟩ | ⟨_, hp⟩ <;> rw [hp] at hearly <;> simp at hearly
  · intro t' q' hq'
    refine ⟨?_, g, hregistration.trans hg, ?_⟩
    all_goals
      rcases hnext with hp | ⟨_, hp⟩ | ⟨_, hp⟩ <;> rw [hp] at hq' <;> cases hq'
      assumption
      assumption
  · intro g' hg'
    rw [harrived]
    exact hs.since g' (hregistration ▸ hg')
  · -- what was taken, `e` and what still waits are what was buffered and what arrived since
    intro g' hg'
    obtain rfl : g = g' := Option.some.inj (hg.symm.trans (hregistration ▸ hg'))
    rw [harrived, hgt, ← hfull, htaken]
    exact ⟨u.postman.waiting t, by simp⟩
  · intro g' t' hg' ht'
    obtain rfl : g = g' := Option.some.inj (hg.symm.trans (hregistration ▸ hg'))
    obtain rfl := hnow t' ht'
    rw [harrived, ← hfull, htaken, List.append_assoc, List.singleton_append]

/-- A world in which only call `r` and what waits for its task differ keeps every call served. -/
theorem Served.setCall {w u : CallerWorld} (h : Served terminal w) {r : String} {c c' : Call}
    {t : String} {q : ℕ} (hr : w.calls.get? r = some c) (hu : Near w u r c)
    (hholds : c.phase.holds = some (t, q)) (hholds' : c'.phase.holds = some (t, q))
    (hcall : CallServed terminal u c') : Served terminal (u.setCall r c') := by
  refine h.concerns (r := r) (c := c') ⟨?_, hu.arrived, hu.ok, ?_, ?_, ?_, ?_, ?_⟩
  · rw [← hu.calls]
    rfl
  · intro r' c₀ hne hr' t' q' hq'
    have hother : w.answered r c ≠ some t' := fun ha => h.task_ne hr hne hr' ha hq' rfl
    refine ⟨?_, hu.waits t' hother⟩
    change u.postman.taskQueues.get? t' = _
    rw [hu.taskQueues]
  · intro r' _
    change u.postman.pendingResponses.get? r' = _
    rw [hu.pending]
  · intro t' q' hq'
    obtain ⟨rfl, rfl⟩ := Prod.mk.inj (Option.some.inj (hholds'.symm.trans hq'))
    change u.postman.taskQueues.get? t = _
    rw [hu.taskQueues]
    exact h.bound r c t q hr hholds
  · intro t' ha r' c₀ hne hr'
    obtain rfl : t = t' := Option.some.inj ((answered_of_holds hholds').symm.trans ha)
    exact h.alone r r' c c₀ t hne.symm hr hr' (answered_of_holds hholds)
  · exact hcall.congr rfl fun _ _ => rfl

theorem served_take {w w' : CallerWorld} (h : Served terminal w) {r : String}
    (hs : step terminal w (.take r) = some w') : Served terminal w' := by
  obtain ⟨c, hr, hs⟩ := Option.bind_eq_some_iff.mp hs
  cases hphase : c.phase <;> simp only [hphase, reduceCtorEq] at hs
  case streaming t q =>
    obtain ⟨⟨e, u⟩, hpop, rfl⟩ := Option.map_eq_some_iff.mp hs
    have hholds : c.phase.holds = some (t, q) := by rw [hphase]; rfl
    obtain ⟨hu, hwaits⟩ := near_pop h hr hholds hpop
    have hc := h.call r c hr
    -- a call that still streams has taken no terminal event
    have hopen : EventStream.ended ExecutionEvent.seq terminal c.taken = false := by
      have := hc.endKnown
      rwa [EndKnown, hphase] at this
    obtain ⟨hold, hnew⟩ := stream_took hc.streamed hc.seen hopen e
    simp only [CallerWorld.took]
    split
    · rename_i he
      obtain ⟨hstream, hend, hseen⟩ := hold he
      refine h.setCall hr hu hholds (by exact hholds) ?_
      refine CallServed.took h hr hphase hu hwaits rfl rfl hstream.symm hseen ?_ (Or.inl hphase)
      simpa only [EndKnown, hphase] using hend
    · rename_i he
      obtain ⟨hstream, hend, hseen⟩ := hnew he
      split
      · rename_i adapted hadapt
        refine h.setCall hr hu hholds rfl ?_
        refine CallServed.took h hr hphase hu hwaits rfl rfl ?_ hseen hend
          (Or.inr (Or.inl ⟨_, rfl⟩))
        rw [hstream, hadapt]
        rfl
      · rename_i hadapt
        -- the mirror is not surfaced, so what was handed over stays
        have hhanded : c.handed = callStream terminal (c.taken ++ [e]) := by
          rw [hstream, hadapt, Option.toList_none, List.append_nil]
        split
        · rename_i hterminal
          refine h.finish hr hu (fun t' ht' => Or.inr ?_) ?_
          · obtain rfl := Option.some.inj ht'
            exact answered_of_holds hholds
          · refine CallServed.took h hr hphase hu hwaits rfl rfl hhanded hseen ?_
              (Or.inr (Or.inr ⟨_, rfl⟩))
            exact hend.trans hterminal
        · rename_i hterminal
          refine h.setCall hr hu hholds (by exact hholds) ?_
          refine CallServed.took h hr hphase hu hwaits rfl rfl hhanded hseen ?_ (Or.inl hphase)
          simpa only [EndKnown, hphase, hterminal] using hend

/-! ## The other events

A response names a task to its call, a mirror waits for whichever call has its task. `NotShared`
keeps two calls in flight from having one.
-/

theorem served_begin {w w' : CallerWorld} (h : Served terminal w) {r reference : String}
    {escalate : Bool} (hs : step terminal w (.start r reference escalate) = some w') :
    Served terminal w' := by
  simp only [step] at hs
  split at hs
  · cases hs
  · obtain rfl := Option.some.inj hs
    refine h.concerns (r := r) (c := ⟨reference, escalate, .sending, [], [], [], none, none⟩)
      ⟨rfl, rfl, h.ok.congr rfl rfl rfl, fun _ _ _ _ _ _ _ => ⟨rfl, rfl⟩, ?_, ?_, ?_, ?_⟩
    · intro r' hne
      simp [setCall, hne]
    · rintro t q ⟨⟩
    · intro t ha
      simp [answered, setCall] at ha
    · exact ⟨rfl, by simp, trivial, fun _ => rfl, fun _ => rfl, by rintro t q ⟨⟩,
        by rintro g ⟨⟩, by rintro g ⟨⟩, by rintro g t ⟨⟩⟩

theorem served_send {w w' : CallerWorld} (h : Served terminal w) {r : String}
    (hs : step terminal w (.send r) = some w') : Served terminal w' := by
  obtain ⟨c, hr, hs⟩ := Option.bind_eq_some_iff.mp hs
  cases hphase : c.phase <;> simp only [hphase, reduceCtorEq, Option.some.injEq] at hs
  subst hs
  refine h.setPhase hr rfl rfl rfl ?_ ?_ ?_ ?_ trivial
  · rw [hphase]; rfl
  · simp [answered, hphase]
  · rintro t ⟨⟩
  · exact fun _ => Or.inl hphase

/-- No response names, for a call that waits for it, a task another call in flight has been
answered with. -/
def NotShared (w : CallerWorld) : CallerAct → Prop
  | .response response => ∀ t, response.named = some t →
      w.postman.pendingResponses.get? response.request = some none →
      ∀ r c, r ≠ response.request → w.calls.get? r = some c → w.answered r c ≠ some t
  | _ => True

/-- What a response does to the calls: at most it notes the task with the one it answers. -/
theorem receive_calls (w : CallerWorld) (response : CallResponse) :
    (w.receive response).postman = w.postman.handleResponse response ∧
      (w.receive response).arrived = w.arrived ∧
      (w.receive response).outbox = w.outbox ∧
      ∀ r, (w.receive response).calls.get? r
        = if r = response.request ∧ response.named.isSome
          then (w.calls.get? r).map fun c => { c with answer := c.answer.or response.named }
          else w.calls.get? r := by
  rw [receive]
  cases hn : response.named with
  | none => exact ⟨rfl, rfl, rfl, fun r => by simp⟩
  | some t =>
    cases hr : w.calls.get? response.request with
    | none =>
      refine ⟨by simp [hr], by simp [hr], by simp [hr], fun r => ?_⟩
      by_cases hrr : r = response.request
      · subst hrr
        simp [hr]
      · simp [hr, hrr]
    | some c =>
      refine ⟨by simp [hr, setCall], by simp [hr, setCall], by simp [hr, setCall], fun r => ?_⟩
      by_cases hrr : r = response.request
      · subst hrr
        simp [hr, setCall]
      · simp [hr, hrr, setCall]

/-- Only the call a response is for notes the task the response names, if it has none. -/
theorem get?_calls_receive {w : CallerWorld} {response : CallResponse} {r : String} {c' : Call}
    (hr : (w.receive response).calls.get? r = some c') :
    ∃ c, w.calls.get? r = some c ∧ c' = { c with
      answer := if r = response.request then c.answer.or response.named else c.answer } := by
  rw [(receive_calls w response).2.2.2] at hr
  cases hn : response.named with
  | none => exact ⟨c', by simpa [hn] using hr, by simp⟩
  | some t =>
    by_cases hrr : r = response.request
    · simp only [hrr, hn, Option.isSome_some, and_self, if_true, Option.map_eq_some_iff] at hr
      obtain ⟨c, hc, rfl⟩ := hr
      exact ⟨c, hrr ▸ hc, by simp [hrr]⟩
    · exact ⟨c', by simpa [hrr] using hr, by simp [hrr]⟩

theorem get?_pendingResponses_receive (w : CallerWorld) (response : CallResponse) (r : String) :
    (w.receive response).postman.pendingResponses.get? r
      = if r = response.request ∧ w.postman.pendingResponses.get? r = some none
        then some (some response) else w.postman.pendingResponses.get? r := by
  rw [(receive_calls w response).1]
  exact AgentPostman.get?_pendingResponses_handleResponse w.postman response r

/-- Only a call that awaits its response learns its task from it. -/
theorem answered_receive {w : CallerWorld} {response : CallResponse} {r t : String} {c : Call}
    (ha : (w.receive response).answered r c = some t) : w.answered r c = some t ∨
      (r = response.request ∧ response.named = some t ∧
        w.postman.pendingResponses.get? response.request = some none) := by
  simp only [answered, get?_pendingResponses_receive] at ha ⊢
  cases hp : c.phase with
  | sending | awaiting =>
    simp only [hp] at ha ⊢
    split at ha
    · rename_i hrr
      obtain ⟨rfl, hnone⟩ := hrr
      exact Or.inr ⟨rfl, by simpa using ha, hnone⟩
    · exact Or.inl ha
  | _ => simp only [hp] at ha ⊢; exact Or.inl ha

theorem served_response {w : CallerWorld} (h : Served terminal w) {response : CallResponse}
    (hn : NotShared w (.response response)) : Served terminal (w.receive response) := by
  obtain ⟨hpostman, harrived, -, -⟩ := receive_calls w response
  obtain ⟨hok, hkept, hwaits⟩ := AgentPostman.handleResponse_spec h.ok response
  rw [← hpostman] at hok hkept hwaits
  refine ⟨hok, ?_, ?_, ?_⟩
  · intro r c' t q hr hq
    obtain ⟨c, hc, rfl⟩ := get?_calls_receive hr
    exact hkept t q (h.bound r c t q hc hq)
  · intro r₁ r₂ c₁' c₂' t hne h₁ h₂ ha₁ ha₂
    obtain ⟨c₁, hc₁, rfl⟩ := get?_calls_receive h₁
    obtain ⟨c₂, hc₂, rfl⟩ := get?_calls_receive h₂
    rcases answered_receive ha₁ with ha₁ | ⟨rfl, hnamed, hwait⟩
    · rcases answered_receive ha₂ with ha₂ | ⟨rfl, hnamed, hwait⟩
      · exact h.alone r₁ r₂ c₁ c₂ t hne hc₁ hc₂ ha₁ ha₂
      · exact hn t hnamed hwait r₁ c₁ hne hc₁ ha₁
    · rcases answered_receive ha₂ with ha₂ | ⟨rfl, -, -⟩
      · exact hn t hnamed hwait r₂ c₂ hne.symm hc₂ ha₂
      · exact hne rfl
  · intro r c' hr
    obtain ⟨c, hc, rfl⟩ := get?_calls_receive hr
    have hs := (h.call r c hc).congr harrived fun t _ => hwaits t
    exact ⟨hs.streamed, hs.seen, hs.endKnown, hs.unregistered, hs.early, hs.registered, hs.since,
      hs.own, hs.complete⟩

theorem arrivedOf_mirror (w : CallerWorld) (p : AgentPostman) (e : ExecutionEvent) (t : String) :
    arrivedOf { w with postman := p, arrived := w.arrived ++ [e] } t
      = w.arrivedOf t ++ if e.task = t then [e] else [] := by
  by_cases ht : e.task = t <;> simp [arrivedOf, List.filter_append, ht]

theorem served_mirror {w : CallerWorld} (h : Served terminal w) (e : ExecutionEvent) :
    Served terminal { w with
      postman := w.postman.handleExecutionEvent e, arrived := w.arrived ++ [e] } := by
  obtain ⟨hok, htables, hpending, hwaits⟩ := AgentPostman.handleExecutionEvent_spec h.ok e
  refine ⟨hok, ?_, ?_, ?_⟩
  · intro r c t q hr hq
    change (w.postman.handleExecutionEvent e).taskQueues.get? t = _
    rw [htables]
    exact h.bound r c t q hr hq
  · intro r r' c c' t hne hr hr'
    simp only [answered, hpending]
    exact h.alone r r' c c' t hne hr hr'
  · intro r c hr
    have hs := h.call r c hr
    refine ⟨hs.streamed, hs.seen, hs.endKnown, hs.unregistered, hs.early, hs.registered, ?_, ?_, ?_⟩
    · intro g hg
      rw [arrivedOf_mirror, List.length_append]
      exact (hs.since g hg).trans (Nat.le_add_right _ _)
    · intro g hg
      rw [arrivedOf_mirror, List.drop_append_of_le_length (hs.since g hg), ← List.append_assoc]
      exact (hs.own g hg).trans (List.prefix_append _ _)
    · intro g t hg ht
      obtain ⟨q, hq⟩ := CallPhase.holds_of_inStream ht
      obtain ⟨-, g', hg', rfl⟩ := hs.registered t q hq
      obtain rfl := Option.some.inj (hg.symm.trans hg')
      rw [arrivedOf_mirror, List.drop_append_of_le_length (hs.since g hg), ← List.append_assoc,
        ← hs.complete g _ hg ht, List.append_assoc]
      exact congrArg _ (hwaits _)

theorem served_resume {w w' : CallerWorld} (h : Served terminal w) {r : String}
    (hs : step terminal w (.resume r) = some w') : Served terminal w' := by
  obtain ⟨c, hr, hs⟩ := Option.bind_eq_some_iff.mp hs
  split at hs
  · rename_i response hphase hpending
    obtain rfl := Option.some.inj hs
    have hc := h.call r c hr
    have hnone := hc.early (Or.inr hphase)
    have hnothing := hc.unregistered hnone
    simp only [resumed]
    split
    · -- the response is an error, and the call raises
      refine h.finish hr (Near.refl h.ok r c) (by rintro t ⟨⟩) (hc.ended ?_)
      split <;> trivial
    · rename_i herror
      split
      · rename_i hnamed
        -- it names no task
        refine h.finish hr (Near.refl h.ok r c) (fun t ht => Or.inl ?_) (hc.ended trivial)
        rw [CallResponse.named, herror] at hnamed
        simpa [ht, Option.filter] using hnamed
      · rename_i t hnamed
        have hne : t ≠ "" := by
          rw [CallResponse.named, herror] at hnamed
          simpa using (Option.filter_eq_some_iff.mp hnamed).2
        have hanswered : w.answered r c = some t := by
          simp [answered, hphase, hpending, hnamed]
        have hok : AgentPostman.Ok { w.postman with
            referenceToTask := w.postman.referenceToTask.set c.reference t } :=
          h.ok.congr rfl rfl rfl
        have he := AgentPostman.ensureQueue_spec hok t
        refine h.concerns (r := r) (c := { c with
            phase := .streaming t (w.postman.registerTask c.reference t).1
            registration := some ⟨t, (w.postman.registerTask c.reference t).2.queues
              (w.postman.registerTask c.reference t).1, (w.arrivedOf t).length⟩ })
          ⟨rfl, rfl, he.ok, ?_, ?_, ?_, ?_, ?_⟩
        · intro r' c' hne' hr' t' q' hq'
          exact ⟨he.others t' (h.task_ne hr hne' hr' hanswered hq'), he.waits t'⟩
        · intro r' _
          exact congrArg (fun d => d.get? r') he.pending
        · rintro t' q' ⟨⟩
          exact he.queue
        · rintro t' ⟨⟩ r' c' hne' hr'
          exact h.alone r r' c c' t hne'.symm hr hr' hanswered
        · -- nothing was taken before, and all that arrived for the task waits in its queue
          refine ⟨hc.streamed, hc.seen, ?_, ?_, ?_, ?_, ?_, ?_, ?_⟩
          · change EventStream.ended ExecutionEvent.seq terminal c.taken = false
            rw [hnothing]
            rfl
          · rintro ⟨⟩
          · rintro (⟨⟨⟩⟩ | ⟨⟨⟩⟩)
          · rintro t' q' ⟨⟩
            exact ⟨hne, _, rfl, rfl⟩
          · rintro g ⟨⟩
            exact le_rfl
          · rintro g ⟨⟩
            change c.taken <+: _
            rw [hnothing]
            exact List.nil_prefix
          · rintro g t' ⟨⟩ ⟨⟩
            change c.taken ++ AgentPostman.waiting _ t
              = _ ++ (w.arrivedOf t).drop (w.arrivedOf t).length
            rw [hnothing, List.nil_append, List.drop_length, List.append_nil]
            exact AgentPostman.waiting_of_queue he.queue
  · cases hs

/-- A call that holds `t` ends, on its own task. -/
theorem Served.finishOwn {w u : CallerWorld} (h : Served terminal w) {r : String} {c : Call}
    {t : String} {q : ℕ} (hr : w.calls.get? r = some c) (hu : Near w u r c)
    (hholds : c.phase.holds = some (t, q)) {outcome : CallOutcome}
    (hcall : CallServed terminal u { c with phase := .ended outcome }) :
    Served terminal (u.finish r c (some t) outcome) := by
  refine h.finish hr hu (fun t' ht' => Or.inr ?_) hcall
  obtain rfl := Option.some.inj ht'
  exact answered_of_holds hholds

theorem served_next {w w' : CallerWorld} (h : Served terminal w) {r : String}
    (hs : step terminal w (.next r) = some w') : Served terminal w' := by
  obtain ⟨c, hr, hs⟩ := Option.bind_eq_some_iff.mp hs
  cases hphase : c.phase <;> simp only [hphase, reduceCtorEq] at hs
  case suspended t q last =>
    have hc := h.call r c hr
    have hholds : c.phase.holds = some (t, q) := by rw [hphase]; rfl
    have hend := hc.endKnown
    rw [EndKnown, hphase] at hend
    cases last with
    | true =>
      obtain rfl := Option.some.inj hs
      exact h.finishOwn hr (Near.refl h.ok r c) hholds (hc.ended hend)
    | false =>
      obtain rfl := Option.some.inj hs
      refine h.setPhase hr rfl rfl rfl (by exact hholds.symm) ?_ ?_ ?_ hend
      · simp [answered, hphase]
      · intro t' ht'
        rw [hphase]
        exact ht'
      · rintro (⟨⟨⟩⟩ | ⟨⟨⟩⟩)

theorem served_cancel {w w' : CallerWorld} (h : Served terminal w) {r : String}
    (hs : step terminal w (.cancel r) = some w') : Served terminal w' := by
  obtain ⟨c, hr, hs⟩ := Option.bind_eq_some_iff.mp hs
  have hc := h.call r c hr
  cases hphase : c.phase <;> simp only [hphase, reduceCtorEq, Option.some.injEq] at hs <;> subst hs
  case sending | awaiting =>
    exact h.finish hr (Near.refl h.ok r c) (by rintro t ⟨⟩) (hc.ended trivial)
  case streaming t q =>
    refine h.setPhase hr rfl rfl rfl ?_ ?_ ?_ ?_ trivial
    · rw [hphase]; rfl
    · simp [answered, hphase]
    · rintro t' ⟨⟩
    · rintro (⟨⟨⟩⟩ | ⟨⟨⟩⟩)
  case confirming t q escalated =>
    exact h.finishOwn hr (Near.refl h.ok r c) (by rw [hphase]; rfl) (hc.ended trivial)

theorem served_close {w w' : CallerWorld} (h : Served terminal w) {r : String}
    (hs : step terminal w (.close r) = some w') : Served terminal w' := by
  obtain ⟨c, hr, hs⟩ := Option.bind_eq_some_iff.mp hs
  have hc := h.call r c hr
  cases hphase : c.phase <;> simp only [hphase, reduceCtorEq, Option.some.injEq] at hs
  case suspended t q last =>
    subst hs
    have hnear : Near w (w.asend (.cancelRequest t)) r c :=
      ⟨rfl, rfl, h.ok, rfl, rfl, fun _ _ => rfl⟩
    refine h.finishOwn hr hnear (by rw [hphase]; rfl)
      ((hc.congr ?_ fun _ _ => ?_).ended trivial) <;> rfl

theorem served_confirm {w w' : CallerWorld} (h : Served terminal w) {r : String}
    (hs : step terminal w (.confirm r) = some w') : Served terminal w' := by
  obtain ⟨c, hr, hs⟩ := Option.bind_eq_some_iff.mp hs
  have hc := h.call r c hr
  cases hphase : c.phase <;> simp only [hphase, reduceCtorEq] at hs
  case confirming t q escalated =>
    obtain ⟨⟨e, u⟩, hpop, rfl⟩ := Option.map_eq_some_iff.mp hs
    have hholds : c.phase.holds = some (t, q) := by rw [hphase]; rfl
    obtain ⟨hu, -⟩ := near_pop h hr hholds hpop
    have hcu : CallServed terminal u c :=
      hc.congr hu.arrived fun t' ht' => by rw [hphase] at ht'; cases ht'
    simp only
    split
    · exact h.finishOwn hr hu hholds (hcu.ended trivial)
    · have hsame := h.setCall hr hu hholds hholds hcu
      rwa [setCall, hu.calls, Dict.set_of_get?_eq_some hr, ← hu.calls] at hsame

theorem served_timeout {w w' : CallerWorld} (h : Served terminal w) {r : String}
    (hs : step terminal w (.timeout r) = some w') : Served terminal w' := by
  obtain ⟨c, hr, hs⟩ := Option.bind_eq_some_iff.mp hs
  have hc := h.call r c hr
  cases hphase : c.phase <;> simp only [hphase, reduceCtorEq] at hs
  case confirming t q escalated =>
    have hholds : c.phase.holds = some (t, q) := by rw [hphase]; rfl
    have hfinish : Served terminal (w.finish r c (some t) .cancelled) :=
      h.finishOwn hr (Near.refl h.ok r c) hholds (hc.ended trivial)
    cases escalated with
    | true =>
      obtain rfl := Option.some.inj hs
      exact hfinish
    | false =>
      simp only at hs
      split at hs
      · obtain rfl := Option.some.inj hs
        refine h.setPhase hr rfl rfl rfl (by exact hholds.symm) ?_ ?_ ?_ trivial
        · simp [answered, hphase]
        · rintro t' ⟨⟩
        · rintro (⟨⟨⟩⟩ | ⟨⟨⟩⟩)
      · obtain rfl := Option.some.inj hs
        exact hfinish

/-- Every event keeps the calls served that does not answer two in flight with one task. -/
theorem served_step {w w' : CallerWorld} (h : Served terminal w) {act : CallerAct}
    (hn : NotShared w act) (hs : step terminal w act = some w') : Served terminal w' := by
  cases act with
  | start r reference escalate => exact served_begin h hs
  | send r => exact served_send h hs
  | response response =>
    obtain rfl := Option.some.inj hs
    exact served_response h hn
  | mirror e =>
    obtain rfl := Option.some.inj hs
    exact served_mirror h e
  | resume r => exact served_resume h hs
  | take r => exact served_take h hs
  | next r => exact served_next h hs
  | cancel r => exact served_cancel h hs
  | close r => exact served_close h hs
  | confirm r => exact served_confirm h hs
  | timeout r => exact served_timeout h hs

/-! ## Concurrent calls do not collide -/

/-- The call is handed the events of its task from its registration on, up to and including the
terminal one: while it takes events, its queue is the task's, and holds what it did not take; once
it returned, it took the terminal one. -/
def HandedSinceRegistration (terminal : ExecutionEvent → Bool) (w : CallerWorld) (c : Call) :
    Prop :=
  c.handed = callStream terminal c.taken ∧
  ∀ g, c.registration = some g →
    (∀ t q, c.phase.holds = some (t, q) → t = g.task ∧ w.postman.taskQueues.get? t = some q) ∧
    (∀ t, c.phase.inStream = some t →
      c.taken ++ w.postman.waiting t = g.buffered ++ (w.arrivedOf g.task).drop g.since) ∧
    (c.phase = .ended .returned →
      c.handed = callStream terminal (g.buffered ++ (w.arrivedOf g.task).drop g.since))

theorem Served.handed {w : CallerWorld} (h : Served terminal w) {r : String} {c : Call}
    (hr : w.calls.get? r = some c) : HandedSinceRegistration terminal w c := by
  have hs := h.call r c hr
  refine ⟨hs.streamed, fun g hg => ⟨?_, ?_, ?_⟩⟩
  · intro t q hq
    obtain ⟨-, g', hg', rfl⟩ := hs.registered t q hq
    obtain rfl := Option.some.inj (hg.symm.trans hg')
    exact ⟨rfl, h.bound r c _ q hr hq⟩
  · intro t ht
    obtain ⟨q, hq⟩ := CallPhase.holds_of_inStream ht
    obtain ⟨-, g', hg', rfl⟩ := hs.registered t q hq
    obtain rfl := Option.some.inj (hg.symm.trans hg')
    exact hs.complete g _ hg ht
  · intro hp
    have hend := hs.endKnown
    rw [EndKnown, hp] at hend
    obtain ⟨rest, hrest⟩ := hs.own g hg
    rw [hs.streamed, ← hrest, callStream, callStream, stream_append_of_ended hend]

/-- In every run in which no response names, for a call that waits for it, a task another call in
flight has been answered with, every call is handed the events of its task. -/
theorem concurrent_calls_never_collide (terminal : ExecutionEvent → Bool) (acts : List CallerAct)
    (w : CallerWorld) (hmeets : Meets (step terminal) NotShared start acts)
    (hrun : exec (step terminal) start acts = some w) :
    ∀ r c, w.calls.get? r = some c → HandedSinceRegistration terminal w c := by
  have h : Served terminal w :=
    exec_invariant_of_meets served_start (fun _ _ _ h hn hs => served_step h hn hs) hmeets hrun
  exact fun r c hr => h.handed hr

/-- The mirrors after which nothing happens to a task. -/
def endsTask (event : ExecutionEvent) : Bool :=
  match event.mirror with
  | .completed | .failed _ _ | .critical _ | .lost _ _ _ _ | .denied _ | .cancelled
  | .interrupted => true
  | .yield _ | .held _ | .other _ => false

/-- Two calls in flight, the second answered with the task `task`. -/
def twoCalls (task : String) : List CallerAct :=
  [.start "r1" "a" false, .send "r1", .start "r2" "b" false, .send "r2",
    .response (.assign "r1" (some "t") none), .resume "r1",
    .response (.assign "r2" (some task) none), .resume "r2",
    .mirror ⟨"t", 1, .yield .null⟩, .take "r1"]

/-- What `NotShared` asks of a response, of the calls there are. -/
theorem notShared_of_entries {w : CallerWorld} {response : CallResponse}
    (h : ∀ e ∈ w.calls.entries, e.1 = response.request ∨ w.answered e.1 e.2 ≠ response.named) :
    NotShared w (.response response) := by
  intro t hnamed _ r c hne hr ha
  rcases h (r, c) (Dict.get?_eq_some.mp hr) with heq | hother
  · exact hne heq
  · exact hother (ha.trans hnamed.symm)

theorem concurrent_calls_never_collide_twoTasks :
    ∃ w, exec (step endsTask) start (twoCalls "u") = some w ∧
      ∀ r c, w.calls.get? r = some c → HandedSinceRegistration endsTask w c := by
  have hmeets : Meets (step endsTask) NotShared start (twoCalls "u") := by
    iterate 10
      refine meets_cons ?_ ?_
      · first | trivial | exact notShared_of_entries (by decide)
      rintro w ⟨⟩
    exact meets_nil _
  obtain ⟨w, hw⟩ : ∃ w, exec (step endsTask) start (twoCalls "u") = some w := ⟨_, rfl⟩
  exact ⟨w, hw, concurrent_calls_never_collide endsTask _ w hmeets hw⟩

/-- Answered with one task, the calls share a queue: what the first takes the second never gets. -/
theorem shared_task_collides :
    ∃ w c, exec (step endsTask) start (twoCalls "t") = some w ∧ w.calls.get? "r2" = some c ∧
      ¬ HandedSinceRegistration endsTask w c := by
  refine ⟨_, _, rfl, rfl, fun h => ?_⟩
  have hall := (h.2 _ rfl).2.1 "t" rfl
  exact absurd (congrArg List.length hall) (by decide)

end CallerWorld

end Rekuest
