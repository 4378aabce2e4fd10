import Mathlib.Algebra.Order.Field.Rat
import Mathlib.Tactic.Linarith
import Rekuest.Client.Cancelling

/-!
# How long a cancelled call takes

Every wait of a cancelled call is bounded by its cancel timeout: for the answer to its assign, for
the cancel to be sent, for a confirmation, for the interrupt to be sent and for a confirmation of
that. The bound holds for each of them and not for the whole exchange, which may take five times as
long, and three times as long where the call is not to escalate.
-/

namespace Rekuest

open Runs

/-- The wait of a cancelled call: for the answer to its assign, or in `_confirm_cancellation`. -/
def AssignPhase.wait : AssignPhase → Option (Option Confirmation)
  | .assignedDespiteCancel => some none
  | .confirming _ wait => some (some wait)
  | .assigning | .catchingUp _ _ | .streaming _ | .suspended _ | .ended _ => none

/-- How many waits there can be before this one. -/
def waitsBefore : Option Confirmation → ℕ
  | none => 0
  | some .cancel => 1
  | some .cancelled => 2
  | some .interrupt => 3
  | some .interrupted => 4

theorem waitsBefore_le (wait : Option Confirmation) : waitsBefore wait ≤ 4 := by
  cases wait with
  | none => exact Nat.zero_le 4
  | some wait => cases wait <;> decide

namespace PostmanWorld

variable {w : PostmanWorld} {act : PostmanAct} {id : ℕ} {c c' : AssignCall}
  {requests : List TaskControl} {wait : Option Confirmation}

/-- The call is cancelled in the event. -/
def Cancels (w : PostmanWorld) (id : ℕ) (act : PostmanAct) : Prop :=
  w.observed id act = [.cancelled]

/-- How a call comes to wait: it is cancelled, or another wait is over, or the wait goes on. -/
inductive ComesToWait (w : PostmanWorld) (id : ℕ) (act : PostmanAct) (c : AssignCall)
    (wait : Option Confirmation) : Prop
  | cancelled (before : c.phase.Running) (cancels : w.Cancels id act) (first : waitsBefore wait ≤ 1)
  | goesOn (before : c.phase.wait = some wait) (quiet : ¬ w.Cancels id act)
  | next {wait' : Option Confirmation} (before : c.phase.wait = some wait')
    (quiet : ¬ w.Cancels id act) (later : waitsBefore wait = waitsBefore wait' + 1)
    (escalates : waitsBefore wait = 3 → c.escalateToInterrupt)

theorem not_cancels_of_quiet (h : w.observed id act = []) : ¬ w.Cancels id act := by
  rw [Cancels, h]
  rintro ⟨⟩

theorem Move.comesToWait (h : w.Move id c act c' requests) (hwait : c'.phase.wait = some wait) :
    w.ComesToWait id act c wait ∧ c'.escalateToInterrupt = c.escalateToInterrupt := by
  cases h with
  | goesOn quiet before after =>
    cases hphase : c'.phase <;> rw [hphase] at hwait after <;> cases hwait
    · exact after.elim
    · exact after.elim
  | cancelEarly phase =>
    obtain rfl := Option.some.inj hwait
    exact ⟨.cancelled (by rw [phase]; trivial) (if_pos rfl) (Nat.zero_le 1), rfl⟩
  | cancel before told =>
    obtain rfl := Option.some.inj hwait
    exact ⟨.cancelled before (if_pos rfl) le_rfl, rfl⟩
  | answer phase =>
    obtain rfl := Option.some.inj hwait
    exact ⟨.next (by rw [phase]; rfl) (not_cancels_of_quiet rfl) rfl (by rintro ⟨⟩), rfl⟩
  | cancelSent phase =>
    obtain rfl := Option.some.inj hwait
    exact ⟨.next (by rw [phase]; rfl) (not_cancels_of_quiet rfl) rfl (by rintro ⟨⟩), rfl⟩
  | interruptSent phase =>
    obtain rfl := Option.some.inj hwait
    exact ⟨.next (by rw [phase]; rfl) (not_cancels_of_quiet rfl) rfl (by rintro ⟨⟩), rfl⟩
  | drains phase waits queue kind =>
    refine ⟨.goesOn hwait ?_, rfl⟩
    rw [Cancels, observed]
    split
    · rintro ⟨⟩
    · rintro ⟨⟩
  | escalates quiet phase escalate =>
    obtain rfl := Option.some.inj hwait
    exact ⟨.next (by rw [phase]; rfl) (not_cancels_of_quiet quiet) rfl fun _ => escalate, rfl⟩
  | _ => cases hwait

/-- An event of another call, or of none, does not cancel this one. -/
theorem not_cancels_of_ne (h : act.call? ≠ some id) : ¬ w.Cancels id act := by
  cases act with
  | cancel id' =>
    refine not_cancels_of_quiet (if_neg fun heq => ?_)
    exact h (congrArg some heq)
  | confirm id' =>
    refine not_cancels_of_quiet (if_neg fun heq => ?_)
    exact h (congrArg some heq.1)
  | _ => exact not_cancels_of_quiet rfl

/-- A call that was cancelled hands over nothing any more. -/
theorem Move.running (h : w.Move id c act c' requests) (hrunning : c'.phase.Running) :
    c.phase.Running ∧ ¬ w.Cancels id act := by
  cases h with
  | goesOn quiet before after => exact ⟨before, not_cancels_of_quiet quiet⟩
  | drains phase waits queue kind =>
    rw [phase] at hrunning
    exact hrunning.elim
  | _ => exact hrunning.elim

end PostmanWorld

/-! ## With a clock -/

/-- The postman's world on a clock. -/
structure CancelClock where
  world : PostmanWorld
  /-- When the last event happened. -/
  now : ℚ
  /-- When each call's wait began. -/
  began : ℕ → ℚ
  /-- When each call was last cancelled. -/
  cancelled : ℕ → Option ℚ

namespace CancelClock

/-- Nothing happened yet. -/
def start : CancelClock := ⟨PostmanWorld.start, 0, fun _ => 0, fun _ => none⟩

/-- What a call waits for that was cancelled. -/
def waitOf (w : PostmanWorld) (id : ℕ) : Option (Option Confirmation) :=
  (w.calls.get? id).bind fun c => c.phase.wait

/-- An event, and when it happens. -/
def step (s : CancelClock) (event : ℚ × PostmanAct) : Option CancelClock :=
  (s.world.step event.2).map fun world =>
    { world := world
      now := event.1
      began := fun id => if waitOf world id = waitOf s.world id then s.began id else event.1
      cancelled := fun id =>
        if s.world.observed id event.2 = [.cancelled] then some event.1 else s.cancelled id }

/-- The clock does not go back, and every wait of a cancelled call is over once its timeout is. -/
structure Timely (timeout : ℕ → ℚ) (s : CancelClock) (event : ℚ × PostmanAct) : Prop where
  clock : s.now ≤ event.1
  waits : ∀ id c, s.world.calls.get? id = some c → c.phase.wait.isSome →
    event.1 ≤ s.began id + timeout id

variable {timeout : ℕ → ℚ} {s t : CancelClock} {event : ℚ × PostmanAct} {id : ℕ} {c : AssignCall}

/-- How a call stands that waits since it was cancelled. -/
structure Waits (timeout : ℕ → ℚ) (s : CancelClock) (id : ℕ) (c : AssignCall)
    (wait : Option Confirmation) : Prop where
  began : ∃ τ, s.cancelled id = some τ ∧ s.began id ≤ τ + waitsBefore wait * timeout id
  now : s.now ≤ s.began id + timeout id
  escalates : waitsBefore wait ≤ 2 ∨ c.escalateToInterrupt

/-- What holds of a call, and of a number that is none's yet. -/
structure InTime (timeout : ℕ → ℚ) (s : CancelClock) (id : ℕ) : Prop where
  waits : ∀ c wait, s.world.calls.get? id = some c → c.phase.wait = some wait →
    s.Waits timeout id c wait
  running : ∀ c, s.world.calls.get? id = some c → c.phase.Running → s.cancelled id = none
  new : s.world.calls.get? id = none → s.cancelled id = none

theorem waitOf_eq (hc : s.world.calls.get? id = some c) : waitOf s.world id = c.phase.wait := by
  rw [waitOf, hc]
  rfl

theorem inTime_start (timeout : ℕ → ℚ) (id : ℕ) : start.InTime timeout id :=
  ⟨by rintro c wait ⟨⟩, by rintro c ⟨⟩, fun _ => rfl⟩

/-- A wait that goes on is as it was, and not over yet. -/
theorem Waits.goesOn {wait : Option Confirmation} (h : s.Waits timeout id c wait)
    (hcancelled : t.cancelled id = s.cancelled id) (hbegan : t.began id = s.began id)
    (hnow : t.now ≤ s.began id + timeout id) : t.Waits timeout id c wait :=
  ⟨by rw [hcancelled, hbegan]; exact h.began, hbegan ▸ hnow, h.escalates⟩

/-- A wait that is over is followed by the next one, no later than its timeout. -/
theorem Waits.next {wait wait' : Option Confirmation} (h : s.Waits timeout id c wait')
    (htimeout : 0 ≤ timeout id) (hcancelled : t.cancelled id = s.cancelled id)
    (hbegan : t.began id = t.now) (hnow : t.now ≤ s.began id + timeout id)
    (hlater : waitsBefore wait = waitsBefore wait' + 1)
    (hescalates : waitsBefore wait = 3 → c.escalateToInterrupt) : t.Waits timeout id c wait := by
  obtain ⟨τ, hτ, hbefore⟩ := h.began
  refine ⟨⟨τ, hcancelled.trans hτ, ?_⟩, by linarith, ?_⟩
  · rw [hbegan, hlater, Nat.cast_add, Nat.cast_one]
    linarith
  · have hle := waitsBefore_le wait
    rcases h.escalates with hfew | hescalate
    · by_cases hthree : waitsBefore wait = 3
      · exact Or.inr (hescalates hthree)
      · exact Or.inl (by omega)
    · exact Or.inr hescalate

theorem began_of_step (hs : step s event = some t)
    (hwait : waitOf t.world id = waitOf s.world id) : t.began id = s.began id := by
  obtain ⟨world, -, rfl⟩ := Option.map_eq_some_iff.mp hs
  exact if_pos hwait

theorem began_of_changed (hs : step s event = some t)
    (hwait : waitOf t.world id ≠ waitOf s.world id) : t.began id = t.now := by
  obtain ⟨world, -, rfl⟩ := Option.map_eq_some_iff.mp hs
  exact if_neg hwait

theorem cancelled_of_not (hs : step s event = some t) (hnot : ¬ s.world.Cancels id event.2) :
    t.cancelled id = s.cancelled id := by
  obtain ⟨world, -, rfl⟩ := Option.map_eq_some_iff.mp hs
  exact if_neg hnot

theorem cancelled_of_cancels (hs : step s event = some t) (hcancels : s.world.Cancels id event.2) :
    t.cancelled id = some t.now := by
  obtain ⟨world, -, rfl⟩ := Option.map_eq_some_iff.mp hs
  exact if_pos hcancels

/-- A call is left in time by an event of another one. -/
theorem InTime.other (h : s.InTime timeout id) (htimely : s.Timely timeout event)
    (hs : step s event = some t) (hnow : t.now = event.1) (hne : event.2.call? ≠ some id)
    (hcall : t.world.calls.get? id = s.world.calls.get? id) : t.InTime timeout id := by
  have hcancelled := cancelled_of_not hs (PostmanWorld.not_cancels_of_ne hne)
  refine ⟨fun c wait hc hwait => ?_, fun c hc hrunning => ?_, fun hnone => ?_⟩
  · have hold : s.world.calls.get? id = some c := hcall.symm.trans hc
    refine (h.waits c wait hold hwait).goesOn hcancelled (began_of_step hs ?_) ?_
    · rw [waitOf, hcall, waitOf]
    · rw [hnow]
      exact htimely.waits id c hold (by rw [hwait]; rfl)
  · rw [hcancelled]
    exact h.running c (hcall.symm.trans hc) hrunning
  · rw [hcancelled]
    exact h.new (hcall.symm.trans hnone)

/-- A call is left in time by an event that moves it. -/
theorem InTime.move (htimeout : 0 ≤ timeout id) (h : s.InTime timeout id)
    (htimely : s.Timely timeout event) (hs : step s event = some t) (hnow : t.now = event.1)
    {c' : AssignCall} {requests : List TaskControl} (hc : s.world.calls.get? id = some c)
    (hc' : t.world.calls.get? id = some c') (hmove : s.world.Move id c event.2 c' requests) :
    t.InTime timeout id := by
  refine ⟨fun c₁ wait h₁ hwait => ?_, fun c₁ h₁ hrunning => ?_, fun hnone => ?_⟩
  · obtain rfl := Option.some.inj (hc'.symm.trans h₁)
    obtain ⟨hcomes, hescalate⟩ := hmove.comesToWait hwait
    have hafter := waitOf_eq hc'
    have hbefore := waitOf_eq hc
    rw [hwait] at hafter
    cases hcomes with
    | cancelled before cancels first =>
      have hnone : c.phase.wait = none := by
        cases hphase : c.phase <;> rw [hphase] at before <;> first | rfl | exact before.elim
      have hbegan : t.began id = t.now := by
        refine began_of_changed hs ?_
        rw [hafter, hbefore, hnone]
        rintro ⟨⟩
      refine ⟨⟨t.now, cancelled_of_cancels hs cancels, ?_⟩, by linarith, Or.inl (by omega)⟩
      have hspent : 0 ≤ (waitsBefore wait : ℚ) * timeout id :=
        mul_nonneg (Nat.cast_nonneg _) htimeout
      linarith
    | goesOn before quiet =>
      have hwaits := h.waits c wait hc before
      have hgoes := hwaits.goesOn (cancelled_of_not hs quiet)
        (began_of_step hs (by rw [hafter, hbefore, before]))
        (by rw [hnow]; exact htimely.waits id c hc (by rw [before]; rfl))
      exact ⟨hgoes.began, hgoes.now, hescalate.symm ▸ hgoes.escalates⟩
    | @next wait' before quiet later escalates =>
      have hbegan : t.began id = t.now := by
        refine began_of_changed hs ?_
        rw [hafter, hbefore, before]
        intro heq
        rw [Option.some.inj heq] at later
        omega
      have hnext := (h.waits c wait' hc before).next htimeout (cancelled_of_not hs quiet) hbegan
        (by rw [hnow]; exact htimely.waits id c hc (by rw [before]; rfl)) later escalates
      exact ⟨hnext.began, hnext.now, hescalate.symm ▸ hnext.escalates⟩
  · obtain rfl := Option.some.inj (hc'.symm.trans h₁)
    obtain ⟨before, quiet⟩ := hmove.running hrunning
    rw [cancelled_of_not hs quiet]
    exact h.running c hc before
  · rw [hc'] at hnone
    cases hnone

theorem inTime_step (htimeout : ∀ id, 0 ≤ timeout id) (h : ∀ id, s.InTime timeout id)
    (htimely : s.Timely timeout event) (hs : step s event = some t) (id : ℕ) :
    t.InTime timeout id := by
  obtain ⟨world, hworld, ht⟩ := Option.map_eq_some_iff.mp hs
  have hnow : t.now = event.1 := by rw [← ht]
  have hcalls : t.world.calls = world.calls := by rw [← ht]
  cases PostmanWorld.moves_step hworld with
  | stays is calls controls =>
    refine (h id).other htimely hs hnow (by rw [is]; rintro ⟨⟩) ?_
    rw [hcalls, calls]
  | @registers id₀ c₀ is new calls phase quiet controls =>
    by_cases hid : id = id₀
    · subst hid
      have hc' : t.world.calls.get? id = some c₀ := by
        rw [hcalls, calls, Dict.get?_set, if_pos rfl]
      have hnone : t.cancelled id = none :=
        (cancelled_of_not hs (PostmanWorld.not_cancels_of_quiet quiet)).trans ((h id).new new)
      refine ⟨fun c wait hc hwait => ?_, fun _ _ _ => hnone, fun _ => hnone⟩
      obtain rfl := Option.some.inj (hc'.symm.trans hc)
      rw [phase] at hwait
      cases hwait
    · refine (h id).other htimely hs hnow ?_ ?_
      · rw [is]
        exact fun heq => hid (Option.some.inj heq).symm
      · rw [hcalls, calls, Dict.get?_set, if_neg hid]
  | @moves id₀ c₀ c₁ requests is call calls move controls =>
    by_cases hid : id = id₀
    · subst hid
      refine (h id).move (htimeout id) htimely hs hnow call ?_ move
      rw [hcalls, calls, Dict.get?_set, if_pos rfl]
    · refine (h id).other htimely hs hnow ?_ ?_
      · rw [is]
        exact fun heq => hid (Option.some.inj heq).symm
      · rw [hcalls, calls, Dict.get?_set, if_neg hid]

/-- In every run on a clock that does not go back, in which each wait of a cancelled call is over
when its timeout is: a call that was cancelled and has not ended was cancelled no longer ago than
five times its timeout, and three times where it is not to escalate. -/
theorem cancelled_in_time {events : List (ℚ × PostmanAct)} {τ : ℚ}
    (htimeout : ∀ id, 0 ≤ timeout id) (hmeets : Meets step (Timely timeout) start events)
    (hrun : exec step start events = some s) (hc : s.world.calls.get? id = some c)
    (hcancelled : s.cancelled id = some τ) (hlive : c.Live) :
    s.now ≤ τ + (if c.escalateToInterrupt then 5 else 3) * timeout id := by
  have h : ∀ id, s.InTime timeout id := exec_invariant_of_meets (inTime_start timeout)
    (fun _ _ _ h htimely hs => inTime_step htimeout h htimely hs) hmeets hrun
  have hwait : ∃ wait, c.phase.wait = some wait := by
    have hstopped : ¬ c.phase.Running := fun hrunning => by
      rw [(h id).running c hc hrunning] at hcancelled
      cases hcancelled
    cases hphase : c.phase with
    | assignedDespiteCancel => exact ⟨_, rfl⟩
    | confirming task wait => exact ⟨_, rfl⟩
    | ended outcome => exact absurd hphase (hlive outcome)
    | _ =>
      rw [hphase] at hstopped
      exact absurd trivial hstopped
  obtain ⟨wait, hwait⟩ := hwait
  obtain ⟨⟨τ', hτ', hbegan⟩, hnow, hescalates⟩ := (h id).waits c wait hc hwait
  obtain rfl := Option.some.inj (hcancelled.symm.trans hτ')
  have hspent : ∀ n : ℕ, waitsBefore wait ≤ n →
      (waitsBefore wait : ℚ) * timeout id ≤ n * timeout id := fun n hle =>
    mul_le_mul_of_nonneg_right (Nat.cast_le.mpr hle) (htimeout id)
  split
  · have hfour := hspent 4 (waitsBefore_le wait)
    push_cast at hfour
    linarith
  · rename_i hnot
    have htwo := hspent 2 (hescalates.resolve_right hnot)
    push_cast at htwo
    linarith

/-- The calls on record decide whether an event is timely. -/
theorem timely_of_entries (hclock : s.now ≤ event.1)
    (hwaits : ∀ entry ∈ s.world.calls.entries, entry.2.phase.wait.isSome →
      event.1 ≤ s.began entry.1 + timeout entry.1) : s.Timely timeout event :=
  ⟨hclock, fun id c hc hwait => hwaits (id, c) (Dict.get?_eq_some.mp hc) hwait⟩

/-- A call is cancelled before its assign is answered, is to escalate, and every wait takes all of
its five seconds. -/
def slowest : List (ℚ × PostmanAct) :=
  [(0, .assign 0 "r" true), (0, .create 0 "t"), (0, .cancel 0), (5, .answer 0 "t"),
    (10, .controlSent 0), (15, .timeout 0), (20, .controlSent 0), (25, .createForeign "u" none)]

/-- The bound is reached. -/
theorem cancelled_in_time_slowest : ∃ s c, exec step start slowest = some s ∧
    s.world.calls.get? 0 = some c ∧ c.Live ∧ s.cancelled 0 = some 0 ∧ s.now = 25 ∧
    s.now ≤ 0 + (if c.escalateToInterrupt then 5 else 3) * (5 : ℚ) := by
  have hmeets : Meets step (Timely fun _ => 5) start slowest := by
    iterate 8
      refine meets_cons (timely_of_entries (by decide +kernel) (by decide +kernel)) ?_
      rintro w ⟨⟩
    exact meets_nil _
  have hrun : ∃ s c, exec step start slowest = some s ∧ s.world.calls.get? 0 = some c ∧
      c.phase = .confirming "t" .interrupted ∧ s.cancelled 0 = some 0 ∧ s.now = 25 :=
    ⟨_, _, rfl, rfl, rfl, rfl, rfl⟩
  obtain ⟨s, c, hs, hc, hphase, hcancelled, hnow⟩ := hrun
  have hlive : c.Live := PostmanWorld.live_of_phase hphase (by rintro _ ⟨⟩)
  exact ⟨s, c, hs, hc, hlive, hcancelled, hnow,
    cancelled_in_time (fun _ => by decide +kernel) hmeets hs hc hcancelled hlive⟩

end CancelClock

end Rekuest
