import Rekuest.Agents.CallerExact

/-!
# Cancelling a call over the agent's socket

A cancelled call sends a `CancelRequest` once it knows its task. Between its request and the
moment it goes on with the response it does not know it, whatever the postman has received.
-/

namespace Rekuest

open Runs

namespace CallerWorld

variable {terminal : ExecutionEvent → Bool}

/-! ## What a call knows of its task -/

/-- A cancelled call whose request went out, and whose response named a task, took a terminal
mirror of that task or sent a `CancelRequest` for it. -/
def LeavesNothingRunning (terminal : ExecutionEvent → Bool) (w : CallerWorld) (r : String)
    (c : Call) : Prop :=
  c.phase = .ended .cancelled → .request r ∈ w.outbox → ∀ t, c.answer = some t →
    (∃ e ∈ c.taken, terminal e = true ∧ e.task = t) ∨ .cancelRequest t ∈ w.outbox

/-- No call is cancelled while it waits for a response that names a task, be it there already or
still to come. -/
def KnowsItsTask (w : CallerWorld) : CallerAct → Prop
  | .cancel r => ∀ c, w.calls.get? r = some c → c.phase = .awaiting → c.answer = none
  | .response response => ∀ t, response.named = some t → ∀ c,
      w.calls.get? response.request = some c → c.phase = .ended .cancelled →
      c.registration = none → .request response.request ∉ w.outbox
  | _ => True

/-- What one call knows of its task, and what it sent for it. -/
structure CallAccounted (w : CallerWorld) (r : String) (c : Call) : Prop where
  early : c.phase = .sending ∨ c.phase = .awaiting → c.registration = none ∧
    ∃ future, w.postman.pendingResponses.get? r = some future ∧
      (future = none → c.answer = none) ∧
      ∀ response t, future = some response → response.named = some t → c.answer = some t
  unsent : c.phase = .sending → .request r ∉ w.outbox
  registered : ∀ t q, c.phase.holds = some (t, q) →
    c.registration.isSome ∧ c.answer = some t
  confirming : ∀ t q escalated, c.phase = .confirming t q escalated → .cancelRequest t ∈ w.outbox
  cancelled : c.phase = .ended .cancelled → .request r ∉ w.outbox ∨
    (c.registration = none ∧ c.answer = none) ∨
    (c.registration.isSome ∧ ∃ t, c.answer = some t ∧ .cancelRequest t ∈ w.outbox)

/-- Every call is accounted for, and nothing was sent for one that does not exist. -/
structure Accounted (w : CallerWorld) : Prop where
  call : ∀ r c, w.calls.get? r = some c → CallAccounted w r c
  unknown : ∀ r, w.calls.get? r = none → .request r ∉ w.outbox

theorem accounted_start : Accounted start where
  call := by rintro r c ⟨⟩
  unknown := by rintro r _ ⟨⟩

/-! ## One call at a time

What is kept is said of each call apart, so an event has to be followed for the calls it touches
only: it ends one, keeps one in flight on its task, or resolves its future.
-/

/-- A call is accounted for by its own future and by what was sent. -/
theorem CallAccounted.congr {w w' : CallerWorld} {r : String} {c : Call}
    (h : CallAccounted w r c)
    (hpending : w'.postman.pendingResponses.get? r = w.postman.pendingResponses.get? r)
    (hsent : ∀ m ∈ w.outbox, m ∈ w'.outbox)
    (hrequest : .request r ∈ w'.outbox → .request r ∈ w.outbox) : CallAccounted w' r c where
  early := by rw [hpending]; exact h.early
  unsent := fun hp hm => h.unsent hp (hrequest hm)
  registered := h.registered
  confirming := fun t q escalated hp => hsent _ (h.confirming t q escalated hp)
  cancelled := by
    intro hp
    refine (h.cancelled hp).imp (fun hno hm => hno (hrequest hm)) (Or.imp_right ?_)
    rintro ⟨hg, t, ht, hm⟩
    exact ⟨hg, t, ht, hsent _ hm⟩

/-- An event that concerns one call leaves the others accounted for. -/
theorem Accounted.concerns {w w' : CallerWorld} (h : Accounted w) (r : String) (c' : Call)
    (hcalls : w'.calls = w.calls.set r c')
    (hpending : ∀ r', r' ≠ r →
      w'.postman.pendingResponses.get? r' = w.postman.pendingResponses.get? r')
    (hsent : ∀ m ∈ w.outbox, m ∈ w'.outbox)
    (hrequests : ∀ r', r' ≠ r → .request r' ∈ w'.outbox → .request r' ∈ w.outbox)
    (hcall : CallAccounted w' r c') : Accounted w' := by
  refine ⟨fun r' c hr' => ?_, fun r' hr' hm => ?_⟩
  · rw [hcalls] at hr'
    rcases Dict.get?_set_eq_some.mp hr' with ⟨rfl, rfl⟩ | ⟨hne, hold⟩
    · exact hcall
    · exact (h.call r' c hold).congr (hpending r' hne) hsent (hrequests r' hne)
  · rw [hcalls, Dict.get?_set] at hr'
    split at hr'
    · cases hr'
    · rename_i hne
      exact h.unknown r' hr' (hrequests r' hne hm)

/-- A call that ends: only how a cancelled one stands has to be shown. -/
theorem accounted_finish {w u : CallerWorld} (h : Accounted w) (r : String) (c' : Call)
    (hcalls : u.calls = w.calls)
    (hpending : u.postman.pendingResponses = w.postman.pendingResponses)
    (hsent : ∀ m ∈ w.outbox, m ∈ u.outbox)
    (hrequests : ∀ r', .request r' ∈ u.outbox → .request r' ∈ w.outbox)
    (task : Option String) (outcome : CallOutcome)
    (hcancelled : outcome = .cancelled → .request r ∉ u.outbox ∨
      (c'.registration = none ∧ c'.answer = none) ∨
      (c'.registration.isSome ∧ ∃ t, c'.answer = some t ∧ .cancelRequest t ∈ u.outbox)) :
    Accounted (u.finish r c' task outcome) := by
  refine h.concerns r { c' with phase := .ended outcome } (by rw [← hcalls]; rfl)
    (fun r' hne => ?_) hsent (fun r' _ => hrequests r') ⟨?_, ?_, ?_, ?_, ?_⟩
  · have hclean : (u.postman.cleanup r c'.reference task).pendingResponses
        = u.postman.pendingResponses.erase r := by
      cases task <;> rfl
    change (u.postman.cleanup r c'.reference task).pendingResponses.get? r' = _
    rw [hclean, Dict.get?_erase, if_neg hne, hpending]
  · rintro (⟨⟨⟩⟩ | ⟨⟨⟩⟩)
  · rintro ⟨⟩
  · rintro t q ⟨⟩
  · rintro t q escalated ⟨⟩
  · intro hp
    exact hcancelled (CallPhase.ended.inj hp)

/-- A call that stays in flight on the task it registered. -/
theorem accounted_holds {w u : CallerWorld} (h : Accounted w) {r : String} {c c' : Call}
    {t : String} {q : ℕ} (hr : w.calls.get? r = some c) (hcalls : u.calls = w.calls)
    (hpending : u.postman.pendingResponses = w.postman.pendingResponses)
    (hsent : ∀ m ∈ w.outbox, m ∈ u.outbox)
    (hrequests : ∀ r', .request r' ∈ u.outbox → .request r' ∈ w.outbox)
    (hholds : c.phase.holds = some (t, q)) (hholds' : c'.phase.holds = some (t, q))
    (hregistration : c'.registration = c.registration) (hanswer : c'.answer = c.answer)
    (hconfirming : ∀ escalated, c'.phase = .confirming t q escalated →
      .cancelRequest t ∈ u.outbox) : Accounted (u.setCall r c') := by
  obtain ⟨hg, ha⟩ := (h.call r c hr).registered t q hholds
  refine h.concerns r c' (by rw [← hcalls]; rfl) (fun r' _ => ?_) hsent
    (fun r' _ => hrequests r') ⟨?_, ?_, ?_, ?_, ?_⟩
  · change u.postman.pendingResponses.get? r' = _
    rw [hpending]
  · rintro (hp | hp) <;> rw [hp] at hholds' <;> cases hholds'
  · intro hp
    rw [hp] at hholds'
    cases hholds'
  · intro t' q' hq'
    obtain ⟨rfl, rfl⟩ := Prod.mk.inj (Option.some.inj (hholds'.symm.trans hq'))
    rw [hregistration, hanswer]
    exact ⟨hg, ha⟩
  · intro t' q' escalated hp
    rw [hp] at hholds'
    obtain ⟨rfl, rfl⟩ := Prod.mk.inj (Option.some.inj hholds')
    exact hconfirming escalated hp
  · intro hp
    rw [hp] at hholds'
    cases hholds'

/-- How a call that was confirming its cancellation stands when it ends. -/
theorem CallAccounted.confirmed {w : CallerWorld} {r : String} {c : Call} (h : CallAccounted w r c)
    {t : String} {q : ℕ} {escalated : Bool} (hphase : c.phase = .confirming t q escalated) :
    .request r ∉ w.outbox ∨ (c.registration = none ∧ c.answer = none) ∨
      (c.registration.isSome ∧ ∃ t, c.answer = some t ∧ .cancelRequest t ∈ w.outbox) := by
  obtain ⟨hg, ha⟩ := h.registered t q (by rw [hphase]; rfl)
  exact Or.inr (Or.inr ⟨hg, t, ha, h.confirming t q escalated hphase⟩)

theorem pop_frame {w u : CallerWorld} {q : ℕ} {e : ExecutionEvent} (h : w.pop q = some (e, u)) :
    u.calls = w.calls ∧ u.postman.pendingResponses = w.postman.pendingResponses ∧
      u.outbox = w.outbox := by
  obtain ⟨events, -, rfl⟩ := pop_spec h
  exact ⟨rfl, rfl, rfl⟩

/-- The call a response is for: the first one resolves its future, later ones change nothing. -/
theorem CallAccounted.response {w : CallerWorld} {response : CallResponse} {c : Call}
    (h : CallAccounted w response.request c) (hk : KnowsItsTask w (.response response))
    (hc : w.calls.get? response.request = some c) :
    CallAccounted (w.receive response) response.request
      { c with answer := c.answer.or response.named } := by
  have hpending := get?_pendingResponses_receive w response response.request
  obtain ⟨-, -, houtbox, -⟩ := receive_calls w response
  refine ⟨fun hp => ?_, ?_, fun t q hq => ?_, ?_, fun hp => ?_⟩
  · obtain ⟨hnone, future, hfuture, hunset, hset⟩ := h.early hp
    refine ⟨hnone, ?_⟩
    rw [hpending, hfuture]
    cases future with
    | none =>
      refine ⟨some response, by simp, by rintro ⟨⟩, ?_⟩
      rintro _ t ⟨⟩ ht
      simp [hunset rfl, ht]
    | some other =>
      refine ⟨some other, by simp, by rintro ⟨⟩, ?_⟩
      rintro _ t ⟨⟩ ht
      simp [hset other t rfl ht]
  · rw [houtbox]
    exact h.unsent
  · obtain ⟨hg, ha⟩ := h.registered t q hq
    exact ⟨hg, by simp [ha]⟩
  · rw [houtbox]
    exact h.confirming
  · -- a call cancelled before it knew its task sent no request, or no response names one
    rw [houtbox]
    rcases h.cancelled hp with hno | ⟨hnone, hanswer⟩ | ⟨hg, t, ht, hm⟩
    · exact Or.inl hno
    · cases hn : response.named with
      | none => exact Or.inr (Or.inl ⟨hnone, by simp [hanswer]⟩)
      | some t => exact Or.inl (hk t hn c hc hp hnone)
    · exact Or.inr (Or.inr ⟨hg, t, by simp [ht], hm⟩)

theorem accounted_response {w : CallerWorld} (h : Accounted w) {response : CallResponse}
    (hk : KnowsItsTask w (.response response)) : Accounted (w.receive response) := by
  obtain ⟨-, -, houtbox, hcalls⟩ := receive_calls w response
  refine ⟨fun r c' hr => ?_, fun r hr hm => ?_⟩
  · obtain ⟨c, hc, rfl⟩ := get?_calls_receive hr
    have hs := h.call r c hc
    by_cases hrr : r = response.request
    · subst hrr
      simpa only [if_true] using hs.response hk hc
    · simp only [hrr, if_false]
      refine hs.congr ?_ (by rw [houtbox]; exact fun _ hm => hm) (by rw [houtbox]; exact id)
      rw [get?_pendingResponses_receive, if_neg fun h => hrr h.1]
  · rw [houtbox] at hm
    refine h.unknown r ?_ hm
    rw [hcalls] at hr
    split at hr
    · simpa using hr
    · exact hr

/-! ## Each event -/

theorem accounted_mirror {w : CallerWorld} (h : Accounted w) (e : ExecutionEvent) :
    Accounted { w with
      postman := w.postman.handleExecutionEvent e, arrived := w.arrived ++ [e] } := by
  have hpending : (w.postman.handleExecutionEvent e).pendingResponses
      = w.postman.pendingResponses := by
    rw [AgentPostman.handleExecutionEvent]
    split <;> rfl
  refine ⟨fun r c hr => (h.call r c hr).congr ?_ (fun _ hm => hm) id, h.unknown⟩
  exact congrArg (fun d => d.get? r) hpending

theorem accounted_begin {w w' : CallerWorld} (h : Accounted w) {r reference : String}
    {escalate : Bool} (hs : step terminal w (.start r reference escalate) = some w') :
    Accounted w' := by
  simp only [step] at hs
  split at hs
  · cases hs
  · rename_i hr
    obtain rfl := Option.some.inj hs
    refine h.concerns r ⟨reference, escalate, .sending, [], [], [], none, none⟩ rfl
      (fun r' hne => by simp [setCall, hne]) (fun _ hm => hm) (fun _ _ => id) ⟨?_, ?_, ?_, ?_, ?_⟩
    · intro _
      exact ⟨rfl, none, by simp [setCall], fun _ => rfl, by rintro response t ⟨⟩⟩
    · exact fun _ => h.unknown r hr
    · rintro t q ⟨⟩
    · rintro t q escalated ⟨⟩
    · rintro ⟨⟩

theorem accounted_send {w w' : CallerWorld} (h : Accounted w) {r : String}
    (hs : step terminal w (.send r) = some w') : Accounted w' := by
  obtain ⟨c, hr, hs⟩ := Option.bind_eq_some_iff.mp hs
  cases hphase : c.phase <;> simp only [hphase, reduceCtorEq, Option.some.injEq] at hs
  subst hs
  refine h.concerns r { c with phase := .awaiting } rfl (fun _ _ => rfl)
    (fun m hm => List.mem_append_left _ hm) (fun r' hne hm => ?_) ⟨?_, ?_, ?_, ?_, ?_⟩
  · refine (List.mem_append.mp hm).elim id fun hm => ?_
    exact absurd (CallRequest.request.inj (List.mem_singleton.mp hm)) hne
  · exact fun _ => (h.call r c hr).early (Or.inl hphase)
  · rintro ⟨⟩
  · rintro t q ⟨⟩
  · rintro t q escalated ⟨⟩
  · rintro ⟨⟩

theorem accounted_resume {w w' : CallerWorld} (h : Accounted w) {r : String}
    (hs : step terminal w (.resume r) = some w') : Accounted w' := by
  obtain ⟨c, hr, hs⟩ := Option.bind_eq_some_iff.mp hs
  split at hs
  · rename_i response hphase hpending
    obtain rfl := Option.some.inj hs
    have hc := h.call r c hr
    have hsame := accounted_finish (u := w) h r c rfl rfl (fun _ hm => hm) (fun _ => id)
    simp only [resumed]
    split
    · refine hsame none _ fun hcancelled => ?_
      split at hcancelled <;> cases hcancelled
    · split
      · exact hsame _ _ (by rintro ⟨⟩)
      · rename_i t hnamed
        obtain ⟨-, future, hfuture, -, hset⟩ := hc.early (Or.inr hphase)
        obtain rfl : future = some response := Option.some.inj (hfuture.symm.trans hpending)
        -- the future was resolved with the answer that is on record
        have hanswer : c.answer = some t := hset response t rfl hnamed
        have hregister : (w.postman.registerTask c.reference t).2.pendingResponses
            = w.postman.pendingResponses := by
          simp only [AgentPostman.registerTask, AgentPostman.ensureQueue, AgentPostman.makeQueue]
          split <;> rfl
        refine h.concerns r { c with
            phase := .streaming t (w.postman.registerTask c.reference t).1
            registration := some ⟨t, (w.postman.registerTask c.reference t).2.queues
              (w.postman.registerTask c.reference t).1, (w.arrivedOf t).length⟩ } rfl
          (fun r' _ => congrArg (fun d => d.get? r') hregister) (fun _ hm => hm) (fun _ _ => id)
          ⟨?_, ?_, ?_, ?_, ?_⟩
        · rintro (⟨⟨⟩⟩ | ⟨⟨⟩⟩)
        · rintro ⟨⟩
        · rintro t' q' ⟨⟩
          exact ⟨rfl, hanswer⟩
        · rintro t' q' escalated ⟨⟩
        · rintro ⟨⟩
  · cases hs

theorem accounted_take {w w' : CallerWorld} (h : Accounted w) {r : String}
    (hs : step terminal w (.take r) = some w') : Accounted w' := by
  obtain ⟨c, hr, hs⟩ := Option.bind_eq_some_iff.mp hs
  cases hphase : c.phase <;> simp only [hphase, reduceCtorEq] at hs
  case streaming t q =>
    obtain ⟨⟨e, u⟩, hpop, rfl⟩ := Option.map_eq_some_iff.mp hs
    have hholds : c.phase.holds = some (t, q) := by rw [hphase]; rfl
    obtain ⟨hcalls, hpending, houtbox⟩ := pop_frame hpop
    have hsent : ∀ m ∈ w.outbox, m ∈ u.outbox := fun m hm => houtbox ▸ hm
    have hrequests : ∀ r', .request r' ∈ u.outbox → .request r' ∈ w.outbox :=
      fun r' hm => houtbox ▸ hm
    -- a call that takes an event goes on streaming, is suspended, or returns
    have hholds_of : ∀ c' : Call, c'.phase.holds = some (t, q) →
        c'.registration = c.registration → c'.answer = c.answer →
        (∀ escalated, c'.phase ≠ .confirming t q escalated) → Accounted (u.setCall r c') :=
      fun c' hq hg ha hnot => accounted_holds h hr hcalls hpending hsent hrequests hholds hq hg ha
        fun escalated hp => absurd hp (hnot escalated)
    simp only [CallerWorld.took]
    split
    · exact hholds_of _ hholds (by rfl) (by rfl) fun _ => by simp [hphase]
    · split
      · exact hholds_of _ rfl (by rfl) (by rfl) fun _ => by rintro ⟨⟩
      · split
        · exact accounted_finish h r _ hcalls hpending hsent hrequests _ _ (by rintro ⟨⟩)
        · exact hholds_of _ hholds (by rfl) (by rfl) fun _ => by simp [hphase]

theorem accounted_next {w w' : CallerWorld} (h : Accounted w) {r : String}
    (hs : step terminal w (.next r) = some w') : Accounted w' := by
  obtain ⟨c, hr, hs⟩ := Option.bind_eq_some_iff.mp hs
  cases hphase : c.phase <;> simp only [hphase, reduceCtorEq] at hs
  case suspended t q last =>
    cases last with
    | true =>
      obtain rfl := Option.some.inj hs
      exact accounted_finish (u := w) h r c rfl rfl (fun _ hm => hm) (fun _ => id) _ _
        (by rintro ⟨⟩)
    | false =>
      obtain rfl := Option.some.inj hs
      exact accounted_holds (u := w) h hr rfl rfl (fun _ hm => hm) (fun _ => id)
        (by rw [hphase]; rfl) rfl rfl rfl (by rintro escalated ⟨⟩)

theorem accounted_cancel {w w' : CallerWorld} (h : Accounted w) {r : String}
    (hk : KnowsItsTask w (.cancel r)) (hs : step terminal w (.cancel r) = some w') :
    Accounted w' := by
  obtain ⟨c, hr, hs⟩ := Option.bind_eq_some_iff.mp hs
  have hc := h.call r c hr
  have hsame := fun task =>
    accounted_finish (u := w) h r c rfl rfl (fun _ hm => hm) (fun _ => id) task .cancelled
  cases hphase : c.phase <;> simp only [hphase, reduceCtorEq, Option.some.injEq] at hs <;> subst hs
  case sending => exact hsame none fun _ => Or.inl (hc.unsent hphase)
  case awaiting =>
    have hnone := (hc.early (Or.inr hphase)).1
    exact hsame none fun _ => Or.inr (Or.inl ⟨hnone, hk c hr hphase⟩)
  case streaming t q =>
    refine accounted_holds (u := w.asend (.cancelRequest t)) h hr rfl rfl
      (fun m hm => List.mem_append_left _ hm) (fun r' hm => ?_) (by rw [hphase]; rfl) rfl rfl rfl
      fun _ _ => List.mem_append_right _ (List.mem_singleton_self _)
    exact (List.mem_append.mp hm).elim id fun hm => by cases List.mem_singleton.mp hm
  case confirming t q escalated => exact hsame (some t) fun _ => hc.confirmed hphase

theorem accounted_close {w w' : CallerWorld} (h : Accounted w) {r : String}
    (hs : step terminal w (.close r) = some w') : Accounted w' := by
  obtain ⟨c, hr, hs⟩ := Option.bind_eq_some_iff.mp hs
  cases hphase : c.phase <;> simp only [hphase, reduceCtorEq, Option.some.injEq] at hs
  case suspended t q last =>
    subst hs
    refine accounted_finish (u := w.asend (.cancelRequest t)) h r c rfl rfl
      (fun m hm => List.mem_append_left _ hm) (fun r' hm => ?_) _ _ (by rintro ⟨⟩)
    exact (List.mem_append.mp hm).elim id fun hm => by cases List.mem_singleton.mp hm

theorem accounted_confirm {w w' : CallerWorld} (h : Accounted w) {r : String}
    (hs : step terminal w (.confirm r) = some w') : Accounted w' := by
  obtain ⟨c, hr, hs⟩ := Option.bind_eq_some_iff.mp hs
  have hc := h.call r c hr
  cases hphase : c.phase <;> simp only [hphase, reduceCtorEq] at hs
  case confirming t q escalated =>
    obtain ⟨⟨e, u⟩, hpop, rfl⟩ := Option.map_eq_some_iff.mp hs
    have hholds : c.phase.holds = some (t, q) := by rw [hphase]; rfl
    obtain ⟨hcalls, hpending, houtbox⟩ := pop_frame hpop
    have hsent : ∀ m ∈ w.outbox, m ∈ u.outbox := fun m hm => houtbox ▸ hm
    have hrequests : ∀ r', .request r' ∈ u.outbox → .request r' ∈ w.outbox :=
      fun r' hm => houtbox ▸ hm
    simp only
    split
    · exact accounted_finish h r c hcalls hpending hsent hrequests _ _
        fun _ => houtbox ▸ hc.confirmed hphase
    · have hsame := accounted_holds h hr hcalls hpending hsent hrequests hholds hholds rfl rfl
        fun _ _ => hsent _ (hc.confirming t q escalated hphase)
      rwa [setCall, hcalls, Dict.set_of_get?_eq_some hr, ← hcalls] at hsame

theorem accounted_timeout {w w' : CallerWorld} (h : Accounted w) {r : String}
    (hs : step terminal w (.timeout r) = some w') : Accounted w' := by
  obtain ⟨c, hr, hs⟩ := Option.bind_eq_some_iff.mp hs
  have hc := h.call r c hr
  cases hphase : c.phase <;> simp only [hphase, reduceCtorEq] at hs
  case confirming t q escalated =>
    have hfinish : Accounted (w.finish r c (some t) .cancelled) :=
      accounted_finish (u := w) h r c rfl rfl (fun _ hm => hm) (fun _ => id) _ _
        fun _ => hc.confirmed hphase
    cases escalated with
    | true =>
      obtain rfl := Option.some.inj hs
      exact hfinish
    | false =>
      simp only at hs
      split at hs
      · obtain rfl := Option.some.inj hs
        refine accounted_holds (u := w.asend (.interruptRequest t)) h hr rfl rfl
          (fun m hm => List.mem_append_left _ hm) (fun r' hm => ?_) (by rw [hphase]; rfl) rfl rfl
          rfl fun _ _ => List.mem_append_left _ (hc.confirming t q false hphase)
        exact (List.mem_append.mp hm).elim id fun hm => by cases List.mem_singleton.mp hm
      · obtain rfl := Option.some.inj hs
        exact hfinish

/-- Every event keeps the calls accounted for that cancels none waiting for its task. -/
theorem accounted_step {w w' : CallerWorld} (h : Accounted w) {act : CallerAct}
    (hk : KnowsItsTask w act) (hs : step terminal w act = some w') : Accounted w' := by
  cases act with
  | start r reference escalate => exact accounted_begin h hs
  | send r => exact accounted_send h hs
  | response response =>
    obtain rfl := Option.some.inj hs
    exact accounted_response h hk
  | mirror e =>
    obtain rfl := Option.some.inj hs
    exact accounted_mirror h e
  | resume r => exact accounted_resume h hs
  | take r => exact accounted_take h hs
  | next r => exact accounted_next h hs
  | cancel r => exact accounted_cancel h hk hs
  | close r => exact accounted_close h hs
  | confirm r => exact accounted_confirm h hs
  | timeout r => exact accounted_timeout h hs

/-! ## In every run -/

/-- In every run in which no call is cancelled while it waits for a response that names a task, no
cancelled call leaves its work running. -/
theorem cancelled_leaves_nothing_running (terminal : ExecutionEvent → Bool) (acts : List CallerAct)
    (w : CallerWorld) (hmeets : Meets (step terminal) KnowsItsTask start acts)
    (hrun : exec (step terminal) start acts = some w) :
    ∀ r c, w.calls.get? r = some c → LeavesNothingRunning terminal w r c := by
  have h : Accounted w :=
    exec_invariant_of_meets accounted_start (fun _ _ _ h hk hs => accounted_step h hk hs) hmeets
      hrun
  intro r c hr hphase hsent t hanswer
  rcases (h.call r c hr).cancelled hphase with hno | ⟨-, hnone⟩ | ⟨-, t', ht', hm⟩
  · exact absurd hsent hno
  · rw [hnone] at hanswer
    cases hanswer
  · obtain rfl := Option.some.inj (ht'.symm.trans hanswer)
    exact Or.inr hm

/-- A call that is cancelled once it waits for events, and gets its confirmation. -/
def cancelledInStream : List CallerAct :=
  [.start "r1" "a" false, .send "r1", .response (.assign "r1" (some "t") none), .resume "r1",
    .cancel "r1", .mirror ⟨"t", 1, .cancelled⟩, .confirm "r1"]

theorem cancelled_leaves_nothing_running_cancelledInStream :
    ∃ w c, exec (step endsTask) start cancelledInStream = some w ∧ w.calls.get? "r1" = some c ∧
      c.phase = .ended .cancelled ∧ LeavesNothingRunning endsTask w "r1" c := by
  have hmeets : Meets (step endsTask) KnowsItsTask start cancelledInStream := by
    iterate 7
      refine meets_cons ?_ ?_
      · first
          | trivial
          | (rintro t ⟨⟩ c ⟨⟩ ⟨⟩)
          | (rintro c ⟨⟩ ⟨⟩)
      rintro w ⟨⟩
    exact meets_nil _
  obtain ⟨w, hw⟩ : ∃ w, exec (step endsTask) start cancelledInStream = some w := ⟨_, rfl⟩
  have hleaves := cancelled_leaves_nothing_running endsTask cancelledInStream w hmeets hw
  obtain rfl := Option.some.inj hw
  exact ⟨_, _, rfl, rfl, rfl, hleaves "r1" _ rfl⟩

/-- The call is cancelled between its request and the response. -/
def cancelledBeforeResponse : List CallerAct :=
  [.start "r1" "a" false, .send "r1", .cancel "r1", .response (.assign "r1" (some "t") none)]

/-- The response then starts a task nobody cancels. -/
theorem cancelled_leaves_work_running :
    ∃ w c, exec (step endsTask) start cancelledBeforeResponse = some w ∧
      w.calls.get? "r1" = some c ∧ ¬ LeavesNothingRunning endsTask w "r1" c := by
  refine ⟨_, _, rfl, rfl, fun h => ?_⟩
  rcases h rfl (by decide) "t" rfl with ⟨e, he, -⟩ | hm
  · cases he
  · exact absurd hm (by decide)

end CallerWorld

end Rekuest
