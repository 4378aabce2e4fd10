import Rekuest.Agents.Transport.Reconnect

/-!
# The flap guard

`_is_flapping` of `rekuest/agents/transport/websocket.py` drops the times that left its window
whenever it counts. On a clock that does not go back nothing is lost by that: the guard counts every
drop of the session that lies in its window, and it bounds the connections that fail in any window.
`_drop_times` lives as long as the session of the transport: a loop that `aconnect` starts counts
the drops of the loops before it.
-/

namespace Rekuest

open Runs

/-- When the links of a run dropped. -/
def drops (as : List Attempt) : List ℚ :=
  as.filterMap fun a => if a.up then some a.droppedAt else none

/-- The drops from a time on. -/
def dropsFrom (cutoff : ℚ) (as : List Attempt) : List ℚ := (drops as).filter fun t => cutoff ≤ t

/-- The clock does not go back. -/
structure Clocked (as : List Attempt) : Prop where
  within : ∀ a ∈ as, a.droppedAt ≤ a.checkedAt
  between : as.Pairwise fun a b => a.checkedAt ≤ b.droppedAt

theorem Clocked.of_concat {as : List Attempt} {a : Attempt} (h : Clocked (as ++ [a])) :
    Clocked as ∧ a.droppedAt ≤ a.checkedAt ∧ ∀ b ∈ as, b.checkedAt ≤ a.droppedAt := by
  obtain ⟨hbetween, -, hlast⟩ := List.pairwise_append.mp h.between
  exact ⟨⟨fun b hb => h.within b (List.mem_append_left _ hb), hbetween⟩, h.within a (by simp),
    fun b hb => hlast b hb a (by simp)⟩

/-- What happens to the loops of a session, of which one runs at a time. -/
inductive LoopAct
  | turn (a : Attempt)
  /-- The loop finds that a disconnect was requested, and returns. -/
  | stop
  /-- `aconnect`, once the loop ended. -/
  | aconnect

def LoopAct.attempt : LoopAct → Option Attempt
  | .turn a => some a
  | .stop | .aconnect => none

/-- What the loops of a session met, in order. -/
def attempts (acts : List LoopAct) : List Attempt := acts.filterMap LoopAct.attempt

theorem attempts_concat (acts : List LoopAct) (act : LoopAct) :
    attempts (acts ++ [act]) = attempts acts ++ act.attempt.toList := by
  unfold attempts
  rw [List.filterMap_append]
  cases act <;> rfl

theorem attempts_turns (as : List Attempt) : attempts (as.map LoopAct.turn) = as := by
  unfold attempts
  rw [List.filterMap_map]
  exact List.filterMap_some

theorem drops_concat (as : List Attempt) (a : Attempt) :
    drops (as ++ [a]) = drops as ++ if a.up then [a.droppedAt] else [] := by
  unfold drops
  rw [List.filterMap_append]
  cases hup : a.up <;> simp [hup]

namespace ConnectionLoop

/-- `_connection_task` starts anew, over the drops of the session. -/
def reopen (s : ConnectionLoop) : ConnectionLoop :=
  { s with retry := 0, closing := false, ended := false }

/-- One event of a session. -/
def sessionStep (policy : ConnectionPolicy) (s : ConnectionLoop) :
    LoopAct → Option ConnectionLoop
  | .turn a => if s.closing then none else step policy s a
  | .stop => if s.closing ∧ s.ended = false then some s.finish else none
  | .aconnect => if s.ended then some s.reopen else none

variable {policy : ConnectionPolicy}

/-! ## What is counted -/

/-- The loop keeps the drops of every window that ends after its last count. -/
def KeepsDrops (policy : ConnectionPolicy) (as : List Attempt) (s : ConnectionLoop) : Prop :=
  ∀ cutoff, (∀ a ∈ as, a.checkedAt - policy.flapWindow ≤ cutoff) →
    (s.dropTimes.filter fun t => cutoff ≤ t) = dropsFrom cutoff as

theorem keepsDrops_body {as : List Attempt} {s : ConnectionLoop} (h : s.KeepsDrops policy as)
    (a : Attempt) (cutoff : ℚ) (hcutoff : ∀ b ∈ as, b.checkedAt - policy.flapWindow ≤ cutoff) :
    ((s.body policy a).dropTimes.filter fun t => cutoff ≤ t) = dropsFrom cutoff (as ++ [a]) := by
  unfold dropsFrom
  rw [drops_concat, List.filter_append]
  have hold : (s.dropTimes.filter fun t => cutoff ≤ t) = (drops as).filter fun t => cutoff ≤ t :=
    h cutoff hcutoff
  rw [← hold]
  cases hup : a.up
  · simp [body, hup]
  · simp [body, hup, List.filter_append]

/-- A count drops what no later count would find in its window. -/
theorem filter_recentDrops (s : ConnectionLoop) {now cutoff : ℚ}
    (h : now - policy.flapWindow ≤ cutoff) : ((s.recentDrops policy now).filter fun t => cutoff ≤ t)
      = s.dropTimes.filter fun t => cutoff ≤ t := by
  unfold recentDrops
  cases policy.flapLimit with
  | none => rfl
  | some limit =>
    show ((s.dropTimes.filter fun t => now - policy.flapWindow ≤ t).filter fun t => cutoff ≤ t) = _
    rw [List.filter_filter]
    refine List.filter_congr fun t _ => ?_
    by_cases ht : cutoff ≤ t
    · have hnow : now - policy.flapWindow ≤ t := h.trans ht
      simp [ht, hnow]
    · simp [ht]

/-- The state in which the guard counts. -/
def counted (policy : ConnectionPolicy) (s : ConnectionLoop) (a : Attempt) : ConnectionLoop :=
  (s.body policy a).emit [.down]

/-- A failure that is to be recovered from, with retries left. -/
structure Counts (policy : ConnectionPolicy) (s : ConnectionLoop) (a : Attempt) : Prop where
  opened : s.closing = false
  raised : a.raised.map Raised.classify = some .correctable
  stays : a.closing = false
  retries : (s.body policy a).retry < policy.maxRetries

theorem turn_of_counts {s : ConnectionLoop} {a : Attempt} (h : s.Counts policy a) :
    s.turn policy a = if (s.counted policy a).isFlapping policy a.checkedAt then
        surface { s.counted policy a with
          dropTimes := (s.counted policy a).recentDrops policy a.checkedAt }
          ⟨.definiteConnectionFail, "Connection dropped "
            ++ toString ((s.counted policy a).recentDrops policy a.checkedAt).length
            ++ " times within " ++ policy.flapWindowText ++ "s"⟩
      else { s.counted policy a with
        dropTimes := (s.counted policy a).recentDrops policy a.checkedAt
        events := (s.counted policy a).events ++ [.sleep (s.body policy a).retry]
        retry := (s.body policy a).retry + 1
        closing := a.closingMeanwhile } := by
  have hclosing : (s.body policy a).closing = false := h.stays
  have hretries : ¬ policy.maxRetries ≤ ((s.body policy a).emit [.down]).retry :=
    Nat.not_le.mpr h.retries
  unfold turn
  rw [h.opened, h.raised]
  dsimp only
  rw [if_neg Bool.false_ne_true, recover, if_neg (by rw [hclosing]; exact Bool.false_ne_true)]
  dsimp only
  rw [if_neg hretries]
  rfl

theorem step_of_counts {s : ConnectionLoop} {a : Attempt} (hended : s.ended = false) :
    step policy s a = some (s.turn policy a) := by
  unfold step
  rw [if_neg (by rw [hended]; exact Bool.false_ne_true)]

theorem sessionStep_turn {s : ConnectionLoop} {a : Attempt} (hopen : s.closing = false)
    (hended : s.ended = false) : sessionStep policy s (.turn a) = some (s.turn policy a) := by
  rw [sessionStep, if_neg (by rw [hopen]; exact Bool.false_ne_true), step_of_counts hended]

/-- A turn notes a drop, and prunes the drops when it counts. -/
theorem dropTimes_turn {s : ConnectionLoop} (a : Attempt) (hopen : s.closing = false) :
    (s.turn policy a).dropTimes = (s.body policy a).dropTimes ∨
      (s.turn policy a).dropTimes = (s.counted policy a).recentDrops policy a.checkedAt := by
  rw [turn, if_neg (by rw [hopen]; exact Bool.false_ne_true)]
  dsimp only
  split
  · exact Or.inl rfl
  · unfold recover
    split
    · exact Or.inl rfl
    · dsimp only
      split
      · exact Or.inl rfl
      · split
        · exact Or.inr rfl
        · exact Or.inr rfl
  · exact Or.inl rfl
  · exact Or.inl rfl

theorem keepsDrops_turn {as : List Attempt} {s : ConnectionLoop} (h : s.KeepsDrops policy as)
    (hopen : s.closing = false) (a : Attempt) :
    (s.turn policy a).KeepsDrops policy (as ++ [a]) := by
  intro cutoff hcutoff
  have hbody := keepsDrops_body h a cutoff fun b hb => hcutoff b (List.mem_append_left _ hb)
  obtain hnoted | hpruned : (s.turn policy a).dropTimes = (s.body policy a).dropTimes ∨
      (s.turn policy a).dropTimes = (s.counted policy a).recentDrops policy a.checkedAt :=
    dropTimes_turn a hopen
  · rw [hnoted]
    exact hbody
  · rw [hpruned]
    exact (filter_recentDrops (s.counted policy a) (hcutoff a (by simp))).trans hbody

theorem keepsDrops_step {acts : List LoopAct} {s t : ConnectionLoop} {act : LoopAct}
    (h : s.KeepsDrops policy (attempts acts)) (hs : sessionStep policy s act = some t) :
    t.KeepsDrops policy (attempts (acts ++ [act])) := by
  rw [attempts_concat]
  cases act with
  | turn a =>
    simp only [sessionStep, Option.ite_none_left_eq_some] at hs
    obtain ⟨hopen, hs⟩ := hs
    simp only [step, Option.ite_none_left_eq_some, Option.some.injEq] at hs
    obtain ⟨-, rfl⟩ := hs
    exact keepsDrops_turn h (by simpa using hopen) a
  | stop =>
    simp only [sessionStep, Option.ite_none_right_eq_some, Option.some.injEq] at hs
    obtain ⟨-, rfl⟩ := hs
    rw [LoopAct.attempt, Option.toList_none, List.append_nil]
    exact h
  | aconnect =>
    simp only [sessionStep, Option.ite_none_right_eq_some, Option.some.injEq] at hs
    obtain ⟨-, rfl⟩ := hs
    rw [LoopAct.attempt, Option.toList_none, List.append_nil]
    exact h

theorem keepsDrops_run {acts : List LoopAct} {s : ConnectionLoop}
    (hrun : exec (sessionStep policy) start acts = some s) :
    s.KeepsDrops policy (attempts acts) :=
  exec_induction (P := fun acts s => s.KeepsDrops policy (attempts acts)) (fun _ _ => rfl)
    (fun _ _ _ _ _ ih hs => keepsDrops_step ih hs) hrun

/-- What the guard counts is every drop of the session in its window. -/
theorem recentDrops_counted {limit : ℕ} (hlimit : policy.flapLimit = some limit)
    {acts : List LoopAct} {s : ConnectionLoop} {a : Attempt}
    (hclock : Clocked (attempts acts ++ [a]))
    (hrun : exec (sessionStep policy) start acts = some s) :
    (s.counted policy a).recentDrops policy a.checkedAt
      = dropsFrom (a.checkedAt - policy.flapWindow) (attempts acts ++ [a]) := by
  obtain ⟨-, hdropped, hbefore⟩ := hclock.of_concat
  unfold recentDrops
  rw [hlimit]
  refine keepsDrops_body (keepsDrops_run hrun) a _ fun b hb => ?_
  exact sub_le_sub_right ((hbefore b hb).trans hdropped) _

theorem isFlapping_counted {limit : ℕ} (hlimit : policy.flapLimit = some limit)
    {acts : List LoopAct} {s : ConnectionLoop} {a : Attempt}
    (hclock : Clocked (attempts acts ++ [a]))
    (hrun : exec (sessionStep policy) start acts = some s) :
    (s.counted policy a).isFlapping policy a.checkedAt = decide (limit ≤
      (dropsFrom (a.checkedAt - policy.flapWindow) (attempts acts ++ [a])).length) := by
  unfold isFlapping
  rw [hlimit, recentDrops_counted hlimit hclock hrun]

/-- What the host and the consumer see of a connection that fails before the guard counts. -/
def failing (a : Attempt) : List LoopEvent :=
  (if a.up then [.attempt, .up] else [.attempt]) ++ [.down]

/-- In any run of the loops of a session, whenever the guard counts: the loop gives up for flapping
exactly if as many links of the whole session as its limit dropped within its window, and tells how
many these are; else it sleeps and goes on. -/
theorem flap_guard_exact {limit : ℕ} (hlimit : policy.flapLimit = some limit)
    {acts : List LoopAct} {s : ConnectionLoop} {a : Attempt}
    (hclock : Clocked (attempts acts ++ [a]))
    (hrun : exec (sessionStep policy) start acts = some s) (hended : s.ended = false)
    (hcounts : s.Counts policy a) : ∃ t, step policy s a = some t ∧
      (limit ≤ (dropsFrom (a.checkedAt - policy.flapWindow) (attempts acts ++ [a])).length →
        t.ended = true ∧ t.events = s.events ++ failing a ++
          [.surfaced ⟨.definiteConnectionFail, "Connection dropped "
            ++ toString
              (dropsFrom (a.checkedAt - policy.flapWindow) (attempts acts ++ [a])).length
            ++ " times within " ++ policy.flapWindowText ++ "s"⟩, .closed]) ∧
      ((dropsFrom (a.checkedAt - policy.flapWindow) (attempts acts ++ [a])).length < limit →
        t.ended = false ∧
          t.events = s.events ++ failing a ++ [.sleep (s.body policy a).retry]) := by
  refine ⟨s.turn policy a, step_of_counts hended, ?_⟩
  have hevents : (s.counted policy a).events = s.events ++ failing a := by
    simp [counted, emit, body, failing]
  rw [turn_of_counts hcounts, isFlapping_counted hlimit hclock hrun,
    recentDrops_counted hlimit hclock hrun]
  constructor
  · intro hmany
    rw [if_pos (decide_eq_true hmany)]
    refine ⟨rfl, ?_⟩
    simp only [surface, finish, emit, hevents, List.append_assoc]
    rfl
  · intro hfew
    rw [if_neg (by rw [decide_eq_true_iff]; omega)]
    exact ⟨hended, congrArg (· ++ [LoopEvent.sleep (s.body policy a).retry]) hevents⟩

/-- Two drops within a minute are too many. -/
def twoAMinute : ConnectionPolicy := ⟨10, 30, some 2, 60, "60.0"⟩

/-- A connection that stood for five seconds, and is bounced at `t`; `leaving` is whether a
disconnect is requested while the loop waits to retry. -/
def lossAt (t : ℚ) (leaving : Bool) : Attempt :=
  ⟨some 5, true, some .bounce, false, leaving, t, t, fun _ => rfl, fun _ => rfl⟩

/-- Two losses far apart, and the transport connects anew. -/
def lossesAcross : List LoopAct :=
  [.turn (lossAt 1 false), .turn (lossAt 100 true), .stop, .aconnect]

/-- The loop that `aconnect` starts there. -/
def afterLosses : ConnectionLoop :=
  ((start.turn twoAMinute (lossAt 1 false)).turn twoAMinute (lossAt 100 true)).finish.reopen

theorem open_firstLoss : (start.turn twoAMinute (lossAt 1 false)).closing = false ∧
    (start.turn twoAMinute (lossAt 1 false)).ended = false := by decide +kernel

theorem exec_lossesAcross :
    exec (sessionStep twoAMinute) start lossesAcross = some afterLosses := by
  have hsecond : ((start.turn twoAMinute (lossAt 1 false)).turn twoAMinute
        (lossAt 100 true)).closing = true ∧
      ((start.turn twoAMinute (lossAt 1 false)).turn twoAMinute
        (lossAt 100 true)).ended = false := by
    decide +kernel
  unfold lossesAcross
  rw [exec_cons, sessionStep_turn rfl rfl, Option.bind_some, exec_cons,
    sessionStep_turn open_firstLoss.1 open_firstLoss.2, Option.bind_some, exec_cons, sessionStep,
    if_pos hsecond]
  rfl

theorem clocked_lossesAcross : Clocked (attempts lossesAcross ++ [lossAt 120 false]) := by
  refine ⟨fun a ha => ?_, by decide +kernel⟩
  simp only [lossesAcross, attempts, LoopAct.attempt, List.filterMap_cons, List.filterMap_nil,
    List.cons_append, List.nil_append, List.mem_cons, List.not_mem_nil, or_false] at ha
  rcases ha with rfl | rfl | rfl
  all_goals exact le_refl _

/-- The loop that was started anew counts what the one before it lost. -/
theorem flap_guard_exact_acrossLoops : ∃ t,
    step twoAMinute afterLosses (lossAt 120 false) = some t ∧
    t.events = afterLosses.events ++ failing (lossAt 120 false) ++ [.surfaced
      ⟨.definiteConnectionFail, "Connection dropped 2 times within 60.0s"⟩, .closed] := by
  have hended : afterLosses.ended = false := rfl
  have hcounts : afterLosses.Counts twoAMinute (lossAt 120 false) :=
    ⟨rfl, rfl, rfl, by decide +kernel⟩
  have hdrops : dropsFrom ((lossAt 120 false).checkedAt - twoAMinute.flapWindow)
      (attempts lossesAcross ++ [lossAt 120 false]) = [100, 120] := by decide +kernel
  obtain ⟨t, ht, hmany, -⟩ :=
    flap_guard_exact rfl clocked_lossesAcross exec_lossesAcross hended hcounts
  have hevents := (hmany (by rw [hdrops]; decide)).2
  rw [hdrops] at hevents
  exact ⟨t, ht, hevents⟩

/-! ## How often the loop reconnects

A link that is lost is counted a moment after it dropped. The guard bounds the links that were lost
and counted within one window.
-/

/-- The link failed, to be recovered from; it dropped after `c`, and was counted before the window
that begins there was over. -/
def lost (policy : ConnectionPolicy) (c : ℚ) (a : Attempt) : Bool :=
  match a.raised.map Raised.classify with
  | some .correctable =>
    decide (a.up = true ∧ c ≤ a.droppedAt ∧ a.checkedAt ≤ c + policy.flapWindow)
  | _ => false

theorem lost_iff {c : ℚ} {a : Attempt} : lost policy c a = true ↔
    a.raised.map Raised.classify = some .correctable ∧ a.up = true ∧ c ≤ a.droppedAt ∧
      a.checkedAt ≤ c + policy.flapWindow := by
  unfold lost
  split
  · rename_i hraised
    rw [decide_eq_true_iff]
    exact ⟨fun h => ⟨hraised, h⟩, fun h => h.2⟩
  · rename_i hraised
    constructor
    · rintro ⟨⟩
    · intro h
      exact absurd h.1 hraised

/-- The links lost in a window are among the drops that are counted at its end. -/
theorem length_lost_le {c cutoff : ℚ} (hcutoff : cutoff ≤ c) (as : List Attempt) :
    (as.filter (lost policy c)).length ≤ (dropsFrom cutoff as).length := by
  induction as with
  | nil => exact le_refl 0
  | cons a as ih =>
    have hcons : dropsFrom cutoff (a :: as)
        = (if a.up = true ∧ cutoff ≤ a.droppedAt then [a.droppedAt] else [])
          ++ dropsFrom cutoff as := by
      unfold dropsFrom drops
      rw [List.filterMap_cons]
      cases hup : a.up
      · simp
      · by_cases hlate : cutoff ≤ a.droppedAt <;> simp [hlate]
    rw [hcons, List.length_append]
    by_cases hlost : lost policy c a = true
    · obtain ⟨-, hup, hlate, -⟩ := lost_iff.mp hlost
      rw [List.filter_cons_of_pos hlost, if_pos ⟨hup, hcutoff.trans hlate⟩]
      simp only [List.length_cons, List.length_nil]
      omega
    · rw [List.filter_cons_of_neg hlost]
      omega

/-- Where the loop goes on after a failure, the guard counted. -/
theorem counts_of_turn {s : ConnectionLoop} {a : Attempt} (hopen : s.closing = false)
    (ht : (s.turn policy a).ended = false)
    (hraised : a.raised.map Raised.classify = some .correctable) : s.Counts policy a := by
  have hturned : s.Turned policy a (s.turn policy a) := turned_turn s a
  generalize s.turn policy a = t at hturned ht
  cases hturned with
  | stopped hclosing => cases hopen.symm.trans hclosing
  | clean _ hclean =>
    rw [hclean] at hraised
    cases hraised
  | disconnected => cases ht
  | gaveUp => cases ht
  | retries _ _ _ hstays hretries => exact ⟨hopen, hraised, hstays, hretries⟩
  | failed => cases ht
  | cancelled => cases ht

/-- Where the loop goes on after a loss, what the guard counted is below its limit. -/
theorem length_dropsFrom_lt {limit : ℕ} (hlimit : policy.flapLimit = some limit)
    {acts : List LoopAct} {s : ConnectionLoop} {a : Attempt}
    (hclock : Clocked (attempts acts ++ [a]))
    (hrun : exec (sessionStep policy) start acts = some s) (hcounts : s.Counts policy a)
    (ht : (s.turn policy a).ended = false) :
    (dropsFrom (a.checkedAt - policy.flapWindow) (attempts acts ++ [a])).length < limit := by
  rw [turn_of_counts hcounts, isFlapping_counted hlimit hclock hrun] at ht
  split at ht
  · cases ht
  · rename_i hfew
    rw [decide_eq_true_iff] at hfew
    omega

/-- As long as a loop goes on, fewer of its links than the guard's limit were lost and counted in
any window of its length, wherever that begins and whatever the loops before it met. -/
theorem lost_lt_limit {limit : ℕ} (hlimit : policy.flapLimit = some limit) (hpos : 0 < limit)
    {before : List LoopAct} {as : List Attempt} {s : ConnectionLoop}
    (hclock : Clocked (attempts before ++ as))
    (hrun : exec (sessionStep policy) start (before ++ as.map .turn) = some s)
    (hgoes : s.ended = false) (c : ℚ) : (as.filter (lost policy c)).length < limit := by
  induction as using List.reverseRecOn generalizing s with
  | nil => exact hpos
  | append_singleton as a ih =>
    rw [List.map_append, List.map_singleton, ← List.append_assoc] at hrun
    rw [← List.append_assoc] at hclock
    obtain ⟨s₀, hbefore, hs⟩ := exec_concat_eq_some.mp hrun
    simp only [sessionStep, Option.ite_none_left_eq_some, Bool.not_eq_true] at hs
    obtain ⟨hopen, hs⟩ := hs
    obtain ⟨hended, -⟩ := turned_of_step hs
    obtain rfl := Option.some.inj ((step_of_counts hended).symm.trans hs)
    have hattempts : attempts (before ++ as.map .turn) = attempts before ++ as := by
      rw [attempts, List.filterMap_append]
      exact congrArg (attempts before ++ ·) (attempts_turns as)
    by_cases hlost : lost policy c a = true
    · obtain ⟨hraised, -, -, hchecked⟩ := lost_iff.mp hlost
      have hcounts := counts_of_turn hopen hgoes hraised
      rw [← hattempts] at hclock
      have hfew := length_dropsFrom_lt hlimit hclock hbefore hcounts hgoes
      have hcutoff : a.checkedAt - policy.flapWindow ≤ c := sub_le_iff_le_add.mpr hchecked
      have hcount := @length_lost_le policy c _ hcutoff (attempts before ++ as ++ [a])
      rw [hattempts] at hfew
      have hamong : ((as ++ [a]).filter (lost policy c)).length
          ≤ ((attempts before ++ as ++ [a]).filter (lost policy c)).length := by
        rw [List.append_assoc, List.filter_append (attempts before), List.length_append]
        exact Nat.le_add_left _ _
      omega
    · rw [List.filter_append, List.filter_cons_of_neg hlost, List.filter_nil, List.append_nil]
      exact ih hclock.of_concat.1 hbefore hended

theorem lost_lt_limit_twoLosses :
    (([lossAt 1 false, lossAt 100 false]).filter (lost twoAMinute 50)).length < 2 := by
  have hclock : Clocked (attempts [] ++ [lossAt 1 false, lossAt 100 false]) := by
    refine ⟨fun a ha => ?_, by decide +kernel⟩
    simp only [attempts, List.filterMap_nil, List.nil_append, List.mem_cons, List.not_mem_nil,
      or_false] at ha
    rcases ha with rfl | rfl
    all_goals exact le_refl _
  have hrun : exec (sessionStep twoAMinute) start
      ([] ++ [lossAt 1 false, lossAt 100 false].map .turn)
      = some ((start.turn twoAMinute (lossAt 1 false)).turn twoAMinute (lossAt 100 false)) := by
    rw [List.nil_append, List.map_cons, List.map_singleton, exec_cons, sessionStep_turn rfl rfl,
      Option.bind_some, exec_cons, sessionStep_turn open_firstLoss.1 open_firstLoss.2]
    rfl
  exact lost_lt_limit rfl (by decide) hclock hrun (by decide +kernel) 50

end ConnectionLoop

end Rekuest
