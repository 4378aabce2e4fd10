import Rekuest.Agents.CallerStreams

/-!
# Control requests of calls over the agent's socket

`_astream` asks for its task to be cancelled when it is cancelled or closed, and
`_confirm_cancellation` asks for it to be interrupted when no confirmation comes in time. Below the
terminal mirrors are noted that calls take from their queues, and the control requests that are sent
for a task after one.
-/

namespace Rekuest

open Runs

/-! ## What a call takes and sends -/

/-- The task a control request is for. -/
def CallRequest.controlled : CallRequest → Option String
  | .request _ => none
  | .cancelRequest task | .interruptRequest task => some task

/-- The queue a call waits for. -/
def CallPhase.reads : CallPhase → Option ℕ
  | .streaming _ queue | .confirming _ queue _ => some queue
  | .sending | .awaiting | .suspended _ _ _ | .ended _ => none

/-- The call goes on, and its stream has not ended. -/
def CallPhase.Open : CallPhase → Prop
  | .sending | .awaiting | .streaming _ _ | .suspended _ _ false => True
  | .suspended _ _ true | .confirming _ _ _ | .ended _ => False

namespace CallerWorld

/-- What a call takes from its queue, with the call. -/
def taken (w : CallerWorld) : CallerAct → List (String × ExecutionEvent)
  | .take request | .confirm request =>
    match (w.calls.get? request).bind fun call => call.phase.reads with
    | some queue => (w.postman.queues queue).head?.toList.map fun event => (request, event)
    | none => []
  | _ => []

/-- What `_await_terminal` takes. -/
def drained (w : CallerWorld) : CallerAct → List (String × ExecutionEvent)
  | .confirm request => w.taken (.confirm request)
  | _ => []

end CallerWorld

/-- The calls, and what they took and sent. -/
structure ControlWatch where
  world : CallerWorld
  /-- The terminal mirrors taken from the queues, each with the call that took it. -/
  terminals : List (String × ExecutionEvent)
  /-- The mirrors taken while a cancellation was being confirmed. -/
  drained : List (String × ExecutionEvent)
  /-- The control requests for a task of which a terminal mirror had been taken. -/
  late : List CallRequest

namespace ControlWatch

def start : ControlWatch := ⟨CallerWorld.start, [], [], []⟩

/-- A terminal mirror of the task has been taken. -/
def Over (s : ControlWatch) (task : String) : Prop :=
  ∃ o ∈ s.terminals, o.2.task = task

instance (s : ControlWatch) (task : String) : Decidable (s.Over task) :=
  inferInstanceAs (Decidable (∃ o ∈ s.terminals, o.2.task = task))

/-- Note what was taken and sent. -/
def note (terminal : ExecutionEvent → Bool) (s : ControlWatch) (act : CallerAct)
    (world : CallerWorld) : ControlWatch where
  world := world
  terminals := s.terminals ++ (s.world.taken act).filter fun o => terminal o.2
  drained := s.drained ++ s.world.drained act
  late := s.late ++ (world.outbox.drop s.world.outbox.length).filter fun request =>
    ∃ task ∈ request.controlled, s.Over task

/-- One event. -/
def step (terminal : ExecutionEvent → Bool) (s : ControlWatch) (act : CallerAct) :
    Option ControlWatch :=
  (s.world.step terminal act).map (s.note terminal act)

/-- No other call took a terminal mirror of the task. -/
def Alone (s : ControlWatch) (r t : String) : Prop :=
  ∀ o ∈ s.terminals, o.2.task = t → o.1 = r

/-- No control request is due for a task that ended. A consumer does not close a call at its
terminal event; no cancellation that is to be escalated runs out of time after a terminal mirror was
drained; no terminal mirror is skipped because its seq was taken before; and no other call took a
terminal mirror of the task a control request is sent for. -/
structure Heeds (terminal : ExecutionEvent → Bool) (s : ControlWatch) (act : CallerAct) : Prop where
  close : ∀ r c t q last, act = .close r → s.world.calls.get? r = some c →
    c.phase = .suspended t q last → last = false ∧ s.Alone r t
  cancel : ∀ r c t q, act = .cancel r → s.world.calls.get? r = some c →
    c.phase = .streaming t q → s.Alone r t
  timeout : ∀ r c t q, act = .timeout r → s.world.calls.get? r = some c →
    c.phase = .confirming t q false → c.escalateToInterrupt →
      (∀ e, (r, e) ∈ s.drained → terminal e = false) ∧ s.Alone r t
  take : ∀ r c t q e, act = .take r → s.world.calls.get? r = some c →
    c.phase = .streaming t q → (s.world.postman.queues q).head? = some e → terminal e →
      e.seq ∉ c.seen

/-! ## Control requests in time

`Clear` is what a run keeps. An event concerns one call at most, so it is enough to show of that
call that it takes no terminal mirror while it goes on, and that what it sends controls no task that
is over.
-/

/-- No control request came late, and a call whose stream has not ended took no terminal mirror; one
that confirms its cancellation took none before. -/
structure Clear (terminal : ExecutionEvent → Bool) (s : ControlWatch) : Prop where
  late : s.late = []
  terminal : ∀ o ∈ s.terminals, terminal o.2
  unknown : ∀ r e, s.world.calls.get? r = none → (r, e) ∉ s.terminals
  going : ∀ r c e, s.world.calls.get? r = some c → c.phase.Open → (r, e) ∉ s.terminals
  confirming : ∀ r c t q e, s.world.calls.get? r = some c → c.phase = .confirming t q false →
    (r, e) ∈ s.terminals → (r, e) ∈ s.drained

variable {terminal : ExecutionEvent → Bool} {s s' : ControlWatch} {w' u : CallerWorld}
  {act : CallerAct} {r t : String} {c c' : Call} {q : ℕ}

theorem clear_start : Clear terminal start where
  late := rfl
  terminal := by rintro o ⟨⟩
  unknown := by rintro r e - ⟨⟩
  going := by rintro r c e ⟨⟩
  confirming := by rintro r c t q e ⟨⟩

/-- What was sent is in time if it controls no task that is over. -/
theorem late_note (sent : List CallRequest) (hsent : w'.outbox = s.world.outbox ++ sent)
    (htime : ∀ request ∈ sent, ∀ t ∈ request.controlled, ¬ s.Over t) :
    (s.note terminal act w').late = s.late := by
  have hnone : sent.filter (fun request => ∃ task ∈ request.controlled, s.Over task) = [] := by
    refine List.filter_eq_nil_iff.mpr fun request hrequest => ?_
    simpa using htime request hrequest
  rw [note, hsent, List.drop_left, hnone, List.append_nil]

/-- An event that changes neither phases nor what was sent, and takes nothing. -/
theorem Clear.quiet (h : Clear terminal s) (htaken : s.world.taken act = [])
    (houtbox : w'.outbox = s.world.outbox)
    (hcalls : ∀ r c', w'.calls.get? r = some c' →
      ∃ c, s.world.calls.get? r = some c ∧ c'.phase = c.phase)
    (hunknown : ∀ r, w'.calls.get? r = none → s.world.calls.get? r = none) :
    Clear terminal (s.note terminal act w') := by
  have hover : (s.note terminal act w').terminals = s.terminals := by simp [note, htaken]
  refine ⟨?_, ?_, ?_, ?_, ?_⟩
  · rw [late_note [] (by simp [houtbox]) (by rintro _ ⟨⟩)]
    exact h.late
  · rw [hover]
    exact h.terminal
  · intro r e hr
    rw [hover]
    exact h.unknown r e (hunknown r hr)
  · intro r c' e hr hopen
    obtain ⟨c, hc, hphase⟩ := hcalls r c' hr
    rw [hover]
    exact h.going r c e hc (hphase ▸ hopen)
  · intro r c' t q e hr hphase' ho
    obtain ⟨c, hc, hphase⟩ := hcalls r c' hr
    rw [hover] at ho
    exact List.mem_append_left _ (h.confirming r c t q e hc (hphase ▸ hphase') ho)

/-- An event that concerns call `r`: what it takes and sends, and where it leaves the call. -/
theorem Clear.concerns (h : Clear terminal s) (hcalls : w'.calls = s.world.calls.set r c')
    (sent : List CallRequest) (hsent : w'.outbox = s.world.outbox ++ sent)
    (htime : ∀ request ∈ sent, ∀ t ∈ request.controlled, ¬ s.Over t)
    (htaken : ∀ o ∈ s.world.taken act, o.1 = r)
    (hopen : c'.phase.Open → ∀ e, (r, e) ∉ s.terminals ∧
      ((r, e) ∈ s.world.taken act → terminal e = false))
    (hconfirming : ∀ t q, c'.phase = .confirming t q false → ∀ e,
      ((r, e) ∈ s.terminals → (r, e) ∈ s.drained) ∧
        ((r, e) ∈ s.world.taken act → (r, e) ∈ s.world.drained act)) :
    Clear terminal (s.note terminal act w') := by
  -- a terminal mirror taken is an old one, or call `r` takes it now
  have hover : ∀ r' e, (r', e) ∈ (s.note terminal act w').terminals →
      (r', e) ∈ s.terminals ∨ (r' = r ∧ (r, e) ∈ s.world.taken act ∧ terminal e) := by
    intro r' e ho
    refine (List.mem_append.mp ho).imp_right fun ho => ?_
    obtain ⟨hmem, hterminal⟩ := List.mem_filter.mp ho
    obtain rfl : r' = r := htaken _ hmem
    exact ⟨rfl, hmem, hterminal⟩
  refine ⟨?_, ?_, ?_, ?_, ?_⟩
  · rw [late_note sent hsent htime]
    exact h.late
  · rintro ⟨r', e⟩ ho
    obtain hold | ⟨-, -, hterminal⟩ := hover r' e ho
    · exact h.terminal _ hold
    · exact hterminal
  · intro r' e hr' ho
    change w'.calls.get? r' = none at hr'
    rw [hcalls, Dict.get?_set] at hr'
    split at hr'
    · cases hr'
    · rename_i hne
      obtain hold | ⟨heq, -⟩ := hover r' e ho
      · exact h.unknown r' e hr' hold
      · exact hne heq
  · intro r' c₀ e hr' hgoing ho
    obtain ⟨rfl, rfl⟩ | ⟨hne, hc₀⟩ := Dict.get?_set_eq_some.mp (hcalls ▸ hr')
    · obtain ⟨hnot, htakes⟩ := hopen hgoing e
      obtain hold | ⟨-, hmem, hterminal⟩ := hover _ e ho
      · exact hnot hold
      · rw [htakes hmem] at hterminal
        cases hterminal
    · obtain hold | ⟨heq, -⟩ := hover r' e ho
      · exact h.going r' c₀ e hc₀ hgoing hold
      · exact hne heq
  · intro r' c₀ t q e hr' hphase ho
    obtain ⟨rfl, rfl⟩ | ⟨hne, hc₀⟩ := Dict.get?_set_eq_some.mp (hcalls ▸ hr')
    · obtain ⟨hbefore, hnow⟩ := hconfirming t q hphase e
      obtain hold | ⟨-, hmem, -⟩ := hover _ e ho
      · exact List.mem_append_left _ (hbefore hold)
      · exact List.mem_append_right _ (hnow hmem)
    · obtain hold | ⟨heq, -⟩ := hover r' e ho
      · exact List.mem_append_left _ (h.confirming r' c₀ t q e hc₀ hphase hold)
      · exact absurd heq hne

/-- A call whose stream has not ended, and that shares its task with none whose stream has, does not
know of its task's end. -/
theorem Clear.not_over (h : Clear terminal s) (hr : s.world.calls.get? r = some c)
    (hopen : c.phase.Open) (halone : s.Alone r t) : ¬ s.Over t := by
  rintro ⟨⟨r', e⟩, ho, ht⟩
  obtain rfl : r' = r := halone _ ho ht
  exact h.going r' c e hr hopen ho

/-- A call that ends, or is at its last event, without having taken a terminal mirror. -/
theorem Clear.stops (h : Clear terminal s) (hcalls : w'.calls = s.world.calls.set r c')
    (sent : List CallRequest) (hsent : w'.outbox = s.world.outbox ++ sent)
    (htime : ∀ request ∈ sent, ∀ t ∈ request.controlled, ¬ s.Over t)
    (htaken : ∀ o ∈ s.world.taken act, o.1 = r) (hclosed : ¬ c'.phase.Open)
    (hnot : ∀ t q, c'.phase ≠ .confirming t q false) : Clear terminal (s.note terminal act w') :=
  h.concerns hcalls sent hsent htime htaken (fun hopen => absurd hopen hclosed)
    fun t q hphase => absurd hphase (hnot t q)

/-- A call whose stream goes on, and that takes nothing. -/
theorem Clear.goesOn (h : Clear terminal s) (hr : s.world.calls.get? r = some c)
    (hcalls : w'.calls = s.world.calls.set r c') (sent : List CallRequest)
    (hsent : w'.outbox = s.world.outbox ++ sent)
    (htime : ∀ request ∈ sent, ∀ t ∈ request.controlled, ¬ s.Over t)
    (htaken : s.world.taken act = []) (hopen : c.phase.Open) :
    Clear terminal (s.note terminal act w') := by
  refine h.concerns hcalls sent hsent htime (by rw [htaken]; rintro o ⟨⟩) (fun _ e => ⟨?_, ?_⟩)
    fun t q _ e => ⟨fun ho => absurd ho (h.going r c e hr hopen), ?_⟩
  · exact h.going r c e hr hopen
  · rw [htaken]
    rintro ⟨⟩
  · rw [htaken]
    rintro ⟨⟩

/-! ## Each event

An event that takes nothing from a queue leaves it to the phase of its call. Those that take a
mirror, and those that end a call with a request, are where `Heeds` is needed.
-/

theorem mem_taken {q : ℕ} {e : ExecutionEvent} {w u : CallerWorld} (hr : w.calls.get? r = some c)
    (hreads : c.phase.reads = some q) (hpop : w.pop q = some (e, u)) :
    w.taken (.take r) = [(r, e)] ∧ w.taken (.confirm r) = [(r, e)] ∧
      u.calls = w.calls ∧ u.outbox = w.outbox ∧ (w.postman.queues q).head? = some e := by
  obtain ⟨events, hevents, rfl⟩ := CallerWorld.pop_spec hpop
  simp [CallerWorld.taken, hr, hreads, hevents]

theorem clear_start_call (h : Clear terminal s) {reference : String} {escalate : Bool}
    (hs : s.world.step terminal (.start r reference escalate) = some w') :
    Clear terminal (s.note terminal (.start r reference escalate) w') := by
  simp only [CallerWorld.step] at hs
  split at hs
  · cases hs
  · rename_i hr
    obtain rfl := Option.some.inj hs
    refine h.concerns (r := r) rfl [] (List.append_nil _).symm (by rintro _ ⟨⟩)
      (by rintro _ ⟨⟩) (fun _ e => ⟨h.unknown r e hr, by rintro ⟨⟩⟩) ?_
    rintro t q ⟨⟩

theorem clear_send (h : Clear terminal s) (hs : s.world.step terminal (.send r) = some w') :
    Clear terminal (s.note terminal (.send r) w') := by
  obtain ⟨c, hr, hs⟩ := Option.bind_eq_some_iff.mp hs
  cases hphase : c.phase <;> simp only [hphase, reduceCtorEq, Option.some.injEq] at hs
  subst hs
  refine h.goesOn hr rfl [.request r] rfl ?_ rfl (by rw [hphase]; trivial)
  rintro _ hrequest t ht
  obtain rfl := List.mem_singleton.mp hrequest
  cases ht

theorem clear_resume (h : Clear terminal s) (hs : s.world.step terminal (.resume r) = some w') :
    Clear terminal (s.note terminal (.resume r) w') := by
  obtain ⟨c, hr, hs⟩ := Option.bind_eq_some_iff.mp hs
  split at hs
  · rename_i response hphase hpending
    obtain rfl := Option.some.inj hs
    have hends : ∀ owned outcome,
        Clear terminal (s.note terminal (.resume r) (s.world.finish r c owned outcome)) :=
      fun owned outcome => h.stops (r := r) rfl [] (List.append_nil _).symm
        (by rintro _ ⟨⟩) (by rintro _ ⟨⟩) id (by rintro t q ⟨⟩)
    rw [CallerWorld.resumed]
    split
    · exact hends _ _
    · split
      · exact hends _ _
      · exact h.goesOn hr rfl [] (List.append_nil _).symm (by rintro _ ⟨⟩) rfl
          (by rw [hphase]; trivial)
  · cases hs

theorem clear_take (h : Clear terminal s) (hheeds : Heeds terminal s (.take r))
    (hs : s.world.step terminal (.take r) = some w') :
    Clear terminal (s.note terminal (.take r) w') := by
  obtain ⟨c, hr, hs⟩ := Option.bind_eq_some_iff.mp hs
  cases hphase : c.phase <;> simp only [hphase, reduceCtorEq] at hs
  case streaming t q =>
    obtain ⟨⟨e, u⟩, hpop, rfl⟩ := Option.map_eq_some_iff.mp hs
    obtain ⟨htaken, -, hcalls, houtbox, hhead⟩ := mem_taken hr (by rw [hphase]; rfl) hpop
    have hmine : ∀ o ∈ s.world.taken (.take r), o.1 = r := by
      rw [htaken]
      rintro o ho
      rw [List.mem_singleton.mp ho]
    -- the call ends, or is at its terminal event, or what it took was not terminal
    have hturn : ∀ u' c', u'.calls = u.calls.set r c' → u'.outbox = u.outbox →
        (c'.phase.Open → terminal e = false) → (∀ t q, c'.phase ≠ .confirming t q false) →
        Clear terminal (s.note terminal (.take r) u') := by
      intro u' c' hcalls' houtbox' hopen hnot
      have hset : u'.calls = s.world.calls.set r c' := hcalls'.trans (by rw [hcalls])
      refine h.concerns hset [] ?_ (by rintro _ ⟨⟩) hmine (fun hgoing e' => ⟨?_, fun ho => ?_⟩)
        fun t q hphase' => absurd hphase' (hnot t q)
      · rw [List.append_nil, houtbox', houtbox]
      · exact h.going r c e' hr (by rw [hphase]; trivial)
      · rw [htaken] at ho
        obtain ⟨-, rfl⟩ := Prod.mk.inj (List.mem_singleton.mp ho)
        exact hopen hgoing
    simp only [CallerWorld.took]
    split
    · rename_i hseen
      refine hturn _ _ rfl rfl (fun _ => ?_) (by simp [hphase])
      by_contra hterminal
      exact hheeds.take r c t q e rfl hr hphase hhead (by simpa using hterminal) hseen
    · split
      · refine hturn _ _ rfl rfl (fun hgoing => ?_) (by rintro t q ⟨⟩)
        cases hterminal : terminal e with
        | false => rfl
        | true =>
          rw [hterminal] at hgoing
          exact hgoing.elim
      · split
        · exact hturn _ _ rfl rfl (fun hgoing => hgoing.elim) (by rintro t q ⟨⟩)
        · rename_i hterminal
          exact hturn _ _ rfl rfl (fun _ => by simpa using hterminal) (by simp [hphase])

theorem clear_next (h : Clear terminal s) (hs : s.world.step terminal (.next r) = some w') :
    Clear terminal (s.note terminal (.next r) w') := by
  obtain ⟨c, hr, hs⟩ := Option.bind_eq_some_iff.mp hs
  cases hphase : c.phase <;> simp only [hphase, reduceCtorEq] at hs
  case suspended t q last =>
    cases last with
    | true =>
      obtain rfl := Option.some.inj hs
      exact h.stops (r := r) rfl [] (List.append_nil _).symm (by rintro _ ⟨⟩)
        (by rintro _ ⟨⟩) id (by rintro t q ⟨⟩)
    | false =>
      obtain rfl := Option.some.inj hs
      exact h.goesOn hr rfl [] (List.append_nil _).symm (by rintro _ ⟨⟩) rfl
        (by rw [hphase]; trivial)

/-- The one request of a list controls `t`. -/
theorem inTime_singleton {request : CallRequest} (hcontrolled : request.controlled = some t)
    (ht : ¬ s.Over t) : ∀ request' ∈ [request], ∀ t' ∈ request'.controlled, ¬ s.Over t' := by
  intro request' hrequest t' ht'
  obtain rfl := List.mem_singleton.mp hrequest
  obtain rfl := Option.some.inj (hcontrolled.symm.trans ht')
  exact ht

theorem clear_cancel (h : Clear terminal s) (hheeds : Heeds terminal s (.cancel r))
    (hs : s.world.step terminal (.cancel r) = some w') :
    Clear terminal (s.note terminal (.cancel r) w') := by
  obtain ⟨c, hr, hs⟩ := Option.bind_eq_some_iff.mp hs
  have hends : ∀ owned outcome,
      Clear terminal (s.note terminal (.cancel r) (s.world.finish r c owned outcome)) :=
    fun owned outcome => h.stops (r := r) rfl [] (List.append_nil _).symm
      (by rintro _ ⟨⟩) (by rintro _ ⟨⟩) id (by rintro t q ⟨⟩)
  cases hphase : c.phase <;> simp only [hphase, reduceCtorEq, Option.some.injEq] at hs <;> subst hs
  case sending | awaiting => exact hends _ _
  case confirming t q escalated => exact hends _ _
  case streaming t q =>
    have hopen : c.phase.Open := by rw [hphase]; trivial
    refine h.goesOn hr rfl [.cancelRequest t] rfl (inTime_singleton rfl ?_) rfl hopen
    exact h.not_over hr hopen (hheeds.cancel r c t q rfl hr hphase)

theorem clear_close (h : Clear terminal s) (hheeds : Heeds terminal s (.close r))
    (hs : s.world.step terminal (.close r) = some w') :
    Clear terminal (s.note terminal (.close r) w') := by
  obtain ⟨c, hr, hs⟩ := Option.bind_eq_some_iff.mp hs
  cases hphase : c.phase <;> simp only [hphase, reduceCtorEq, Option.some.injEq] at hs
  case suspended t q last =>
    subst hs
    obtain ⟨rfl, halone⟩ := hheeds.close r c t q last rfl hr hphase
    refine h.stops (r := r) rfl [.cancelRequest t] rfl (inTime_singleton rfl ?_)
      (by rintro _ ⟨⟩) id (by rintro t q ⟨⟩)
    exact h.not_over hr (by rw [hphase]; trivial) halone

theorem clear_confirm (h : Clear terminal s) (hs : s.world.step terminal (.confirm r) = some w') :
    Clear terminal (s.note terminal (.confirm r) w') := by
  obtain ⟨c, hr, hs⟩ := Option.bind_eq_some_iff.mp hs
  cases hphase : c.phase <;> simp only [hphase, reduceCtorEq] at hs
  case confirming t q escalated =>
    obtain ⟨⟨e, u⟩, hpop, rfl⟩ := Option.map_eq_some_iff.mp hs
    obtain ⟨-, htaken, hcalls, houtbox, -⟩ := mem_taken hr (by rw [hphase]; rfl) hpop
    have hmine : ∀ o ∈ s.world.taken (.confirm r), o.1 = r := by
      rw [htaken]
      rintro o ho
      rw [List.mem_singleton.mp ho]
    simp only
    split
    · have hset : (u.setCall r { c with phase := .ended .cancelled }).calls
          = s.world.calls.set r { c with phase := .ended .cancelled } := by
        rw [← hcalls]
        rfl
      refine h.stops hset [] ?_ (by rintro _ ⟨⟩) hmine id (by rintro t q ⟨⟩)
      rw [List.append_nil, ← houtbox]
      rfl
    · -- what the call drained is noted with what it took
      have hset : u.calls = s.world.calls.set r c := by
        rw [hcalls, Dict.set_of_get?_eq_some hr]
      refine h.concerns hset [] ?_ (by rintro _ ⟨⟩) hmine (fun hopen => ?_)
        fun t q hphase' e' => ⟨h.confirming r c t q e' hr hphase', id⟩
      · rw [List.append_nil, houtbox]
      · rw [hphase] at hopen
        exact hopen.elim

theorem clear_timeout (h : Clear terminal s) (hheeds : Heeds terminal s (.timeout r))
    (hs : s.world.step terminal (.timeout r) = some w') :
    Clear terminal (s.note terminal (.timeout r) w') := by
  obtain ⟨c, hr, hs⟩ := Option.bind_eq_some_iff.mp hs
  have hends : ∀ owned outcome,
      Clear terminal (s.note terminal (.timeout r) (s.world.finish r c owned outcome)) :=
    fun owned outcome => h.stops (r := r) rfl [] (List.append_nil _).symm
      (by rintro _ ⟨⟩) (by rintro _ ⟨⟩) id (by rintro t q ⟨⟩)
  cases hphase : c.phase <;> simp only [hphase, reduceCtorEq] at hs
  case confirming t q escalated =>
    cases escalated with
    | true =>
      obtain rfl := Option.some.inj hs
      exact hends _ _
    | false =>
      simp only at hs
      split at hs
      · rename_i hescalate
        obtain rfl := Option.some.inj hs
        obtain ⟨hdrained, halone⟩ := hheeds.timeout r c t q rfl hr hphase hescalate
        refine h.stops (r := r) rfl [.interruptRequest t] rfl (inTime_singleton rfl ?_)
          (by rintro _ ⟨⟩) id (by rintro t q ⟨⟩)
        -- only what was drained could have told the call
        rintro ⟨⟨r', e⟩, ho, ht⟩
        obtain rfl : r' = r := halone _ ho ht
        have hnot := hdrained e (h.confirming r' c t q e hr hphase ho)
        rw [h.terminal _ ho] at hnot
        cases hnot
      · obtain rfl := Option.some.inj hs
        exact hends _ _

/-- No event that heeds the ends of tasks sends a control request late. -/
theorem clear_step (h : Clear terminal s) (hheeds : Heeds terminal s act)
    (hs : step terminal s act = some s') : Clear terminal s' := by
  obtain ⟨w', hw', rfl⟩ := Option.map_eq_some_iff.mp hs
  cases act with
  | start r reference escalate => exact clear_start_call h hw'
  | send r => exact clear_send h hw'
  | response response =>
    obtain rfl := Option.some.inj hw'
    obtain ⟨-, -, houtbox, hcalls⟩ := CallerWorld.receive_calls s.world response
    refine h.quiet rfl houtbox (fun r c' hr => ?_) fun r hr => ?_
    · obtain ⟨c, hc, rfl⟩ := CallerWorld.get?_calls_receive hr
      exact ⟨c, hc, rfl⟩
    · rw [hcalls] at hr
      split at hr
      · simpa using hr
      · exact hr
  | mirror event =>
    obtain rfl := Option.some.inj hw'
    exact h.quiet rfl rfl (fun r c hr => ⟨c, hr, rfl⟩) fun r hr => hr
  | resume r => exact clear_resume h hw'
  | take r => exact clear_take h hheeds hw'
  | next r => exact clear_next h hw'
  | cancel r => exact clear_cancel h hheeds hw'
  | close r => exact clear_close h hheeds hw'
  | confirm r => exact clear_confirm h hw'
  | timeout r => exact clear_timeout h hheeds hw'

/-! ## In every run -/

/-- In every run that heeds the ends of tasks, no control request is sent for a task after a
terminal mirror of it was taken. -/
theorem no_control_after_end (terminal : ExecutionEvent → Bool) (acts : List CallerAct)
    (s : ControlWatch) (hmeets : Meets (step terminal) (Heeds terminal) start acts)
    (hrun : exec (step terminal) start acts = some s) : s.late = [] :=
  (exec_invariant_of_meets clear_start (fun _ _ _ h hheeds hs => clear_step h hheeds hs) hmeets
    hrun).late

/-- A cancelled call that hears nothing in time, and asks for its task to be interrupted. -/
def interrupted : List CallerAct :=
  [.start "r1" "a" true, .send "r1", .response (.assign "r1" (some "t") none), .resume "r1",
    .cancel "r1", .timeout "r1", .mirror ⟨"t", 1, .interrupted⟩, .confirm "r1"]

theorem no_control_after_end_interrupted :
    ∃ s, exec (step CallerWorld.endsTask) start interrupted = some s ∧
      .interruptRequest "t" ∈ s.world.outbox ∧ s.late = [] := by
  have hmeets : Meets (step CallerWorld.endsTask) (Heeds CallerWorld.endsTask) start
      interrupted := by
    iterate 4
      refine meets_cons ⟨by rintro _ _ _ _ _ ⟨⟩, by rintro _ _ _ _ ⟨⟩, by rintro _ _ _ _ ⟨⟩,
        by rintro _ _ _ _ _ ⟨⟩⟩ ?_
      rintro s ⟨⟩
    refine meets_cons ⟨by rintro _ _ _ _ _ ⟨⟩, ?_, by rintro _ _ _ _ ⟨⟩,
      by rintro _ _ _ _ _ ⟨⟩⟩ ?_
    · rintro r c t q ⟨⟩ - - o ⟨⟩
    rintro s ⟨⟩
    refine meets_cons ⟨by rintro _ _ _ _ _ ⟨⟩, by rintro _ _ _ _ ⟨⟩, ?_,
      by rintro _ _ _ _ _ ⟨⟩⟩ ?_
    · rintro r c t q ⟨⟩ - - -
      exact ⟨by rintro e ⟨⟩, by rintro o ⟨⟩⟩
    rintro s ⟨⟩
    iterate 2
      refine meets_cons ⟨by rintro _ _ _ _ _ ⟨⟩, by rintro _ _ _ _ ⟨⟩, by rintro _ _ _ _ ⟨⟩,
        by rintro _ _ _ _ _ ⟨⟩⟩ ?_
      rintro s ⟨⟩
    exact meets_nil _
  obtain ⟨s, hs⟩ : ∃ s, exec (step CallerWorld.endsTask) start interrupted = some s := ⟨_, rfl⟩
  have hlate := no_control_after_end CallerWorld.endsTask interrupted s hmeets hs
  obtain rfl := Option.some.inj hs
  exact ⟨_, rfl, by decide, hlate⟩

/-- The consumer stops at the terminal event it is handed. -/
def closedAtEnd : List CallerAct :=
  [.start "r1" "a" false, .send "r1", .response (.assign "r1" (some "t") none), .resume "r1",
    .mirror ⟨"t", 1, .completed⟩, .take "r1", .close "r1"]

/-- The task completes while its cancellation is being confirmed, which runs out of time. -/
def completedThenEscalated : List CallerAct :=
  [.start "r1" "a" true, .send "r1", .response (.assign "r1" (some "t") none), .resume "r1",
    .cancel "r1", .mirror ⟨"t", 1, .completed⟩, .confirm "r1", .timeout "r1"]

/-- The completed task is asked to be cancelled, or interrupted. -/
theorem control_after_end :
    (∃ s, exec (step CallerWorld.endsTask) start closedAtEnd = some s ∧
      s.late = [.cancelRequest "t"]) ∧
    ∃ s, exec (step CallerWorld.endsTask) start completedThenEscalated = some s ∧
      s.late = [.interruptRequest "t"] :=
  ⟨⟨_, rfl, by decide⟩, ⟨_, rfl, by decide⟩⟩

end ControlWatch

end Rekuest
