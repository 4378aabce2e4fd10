import Mathlib.Algebra.Order.Ring.Rat
import Mathlib.Data.List.Chain
import Rekuest.Lib.Runs

/-!
# The connection loop

`_aconnect_and_receive` of `rekuest/agents/transport/websocket.py`: connect, register, receive and
retry until a failure is definite or a disconnect was requested. One step is one turn of the loop;
what the turn met is given to it, and the state keeps what the loop did so far. A run of the loop
can be followed from what the host and the consumer of `areceive` see of it.
-/

namespace Rekuest

open Runs

/-- `ConnectionPolicy`. A delay is named by the retry `backoff.delay_for` is asked for. -/
structure ConnectionPolicy where
  maxRetries : ℕ
  resetAfter : ℚ
  flapLimit : Option ℕ
  flapWindow : ℚ
  /-- `flap_window`, as an f-string writes it. -/
  flapWindowText : String

/-- The classes of the failures handed to the consumer of `areceive`. -/
inductive ConnectionFailureKind
  | definiteConnectionFail
  | agentWasKicked
  | agentIsAlreadyBusy
  | agentWasBlocked
deriving DecidableEq

/-- A failure the loop does not recover from. -/
structure ConnectionFailure where
  kind : ConnectionFailureKind
  message : String
deriving DecidableEq

/-- What the body of an attempt raises. -/
inductive Raised
  | invalidHandshake
  | bounce
  | kick
  /-- `ConnectionClosedError`, with the close code received, if any. -/
  | connectionClosed (rcvd : Option ℕ)
  | cancelled
  | other (text : String)

/-- What the `except` arms of the body turn that into. -/
inductive Classified
  | correctable
  | definite (failure : ConnectionFailure)
  | cancelled

/-- `agent_error_codes`, with `agent_error_message`. -/
def agentErrorCodes : ℕ → Option ConnectionFailure
  | 4005 => some ⟨.agentWasKicked, "Agent was kicked by the server"⟩
  | 4004 => some ⟨.agentIsAlreadyBusy, "Agent can't connect as another instance is already " ++
      "connected. Please kick the other instance first"⟩
  | 4003 => some ⟨.agentWasBlocked, "Agent is currently blocked by the server. Unblock first!"⟩
  | 3002 => some ⟨.definiteConnectionFail,
      "The backend rejected a message from this agent as invalid JSON"⟩
  | 3003 => some ⟨.definiteConnectionFail,
      "The backend rejected a message from this agent as not matching its schema"⟩
  | _ => none

/-- `_classify_close`: a bounce and every code without a failure of its own are correctable. -/
def classifyClose (rcvd : Option ℕ) : Classified :=
  match agentErrorCodes (rcvd.getD 1006) with
  | some failure => .definite failure
  | none => .correctable

/-- The `except` arms around the body of an attempt. -/
def Raised.classify : Raised → Classified
  | .invalidHandshake | .bounce => .correctable
  | .kick => .definite ⟨.definiteConnectionFail, "Agent was kicked"⟩
  | .connectionClosed rcvd => classifyClose rcvd
  | .cancelled => .cancelled
  | .other text => .definite ⟨.definiteConnectionFail, text⟩

/-- What one turn of the loop meets. -/
structure Attempt where
  /-- How long the connection stood, if there was one. -/
  stood : Option ℚ
  /-- The connection was registered on, and announced. -/
  up : Bool
  /-- What the body raised; `none` where the server closed cleanly and the iteration ended. -/
  raised : Option Raised
  /-- A disconnect was requested by the time the body ended. -/
  closing : Bool
  /-- A disconnect was requested while the loop waited to retry. -/
  closingMeanwhile : Bool
  /-- The clock when the drop was noted. -/
  droppedAt : ℚ
  /-- The clock when the drops were counted. -/
  checkedAt : ℚ
  stood_of_up : up = true → stood.isSome
  up_of_clean : raised = none → up = true

/-- What the loop does, as far as the server, the host and the consumer see it. -/
inductive LoopEvent
  /-- It tries to connect. -/
  | attempt
  /-- `anotify_connection_change(True)`. -/
  | up
  /-- `anotify_connection_change(False)`. -/
  | down
  /-- It sleeps for `backoff.delay_for(retry)`. -/
  | sleep (retry : ℕ)
  /-- A failure is put in the inbound queue, for `areceive` to raise. -/
  | surfaced (failure : ConnectionFailure)
  /-- The sentinel `CLOSED` is put there. -/
  | closed
deriving DecidableEq

/-- The state between two turns of the loop. -/
structure ConnectionLoop where
  retry : ℕ
  /-- `_drop_times`. -/
  dropTimes : List ℚ
  closing : Bool
  ended : Bool
  events : List LoopEvent

namespace ConnectionLoop

/-- The loop before its first turn. -/
def start : ConnectionLoop := ⟨0, [], false, false, []⟩

/-- Append to what the loop did. -/
def emit (s : ConnectionLoop) (events : List LoopEvent) : ConnectionLoop :=
  { s with events := s.events ++ events }

/-- The loop ends; `_aconnection_loop` tells the consumer. -/
def finish (s : ConnectionLoop) : ConnectionLoop := { s.emit [.closed] with ended := true }

/-- The loop ends by raising. -/
def surface (s : ConnectionLoop) (failure : ConnectionFailure) : ConnectionLoop :=
  (s.emit [.surfaced failure]).finish

section

variable (policy : ConnectionPolicy)

/-- The drops `_is_flapping` keeps at a clock. -/
def recentDrops (s : ConnectionLoop) (now : ℚ) : List ℚ :=
  match policy.flapLimit with
  | none => s.dropTimes
  | some _ => s.dropTimes.filter fun t => now - policy.flapWindow ≤ t

/-- `_is_flapping`. -/
def isFlapping (s : ConnectionLoop) (now : ℚ) : Bool :=
  match policy.flapLimit with
  | none => false
  | some limit => decide (limit ≤ (s.recentDrops policy now).length)

/-- The arm of `CorrectableConnectionFail`. -/
def recover (s : ConnectionLoop) (a : Attempt) : ConnectionLoop :=
  if s.closing then s.finish
  else
    let s := s.emit [.down]
    if policy.maxRetries ≤ s.retry then
      s.surface ⟨.definiteConnectionFail, "Exceeded Number of Retries"⟩
    else
      let flapping := s.isFlapping policy a.checkedAt
      let s := { s with dropTimes := s.recentDrops policy a.checkedAt }
      if flapping then
        s.surface ⟨.definiteConnectionFail, "Connection dropped " ++ toString s.dropTimes.length
          ++ " times within " ++ policy.flapWindowText ++ "s"⟩
      else
        { s.emit [.sleep s.retry] with retry := s.retry + 1, closing := a.closingMeanwhile }

/-- The body of an attempt, and the `finally` after it. -/
def body (s : ConnectionLoop) (a : Attempt) : ConnectionLoop :=
  { s.emit (if a.up then [.attempt, .up] else [.attempt]) with
    closing := a.closing
    dropTimes := if a.up then s.dropTimes ++ [a.droppedAt] else s.dropTimes
    retry := if a.stood.any (policy.resetAfter ≤ ·) then 0 else s.retry }

/-- One turn of the loop. -/
def turn (s : ConnectionLoop) (a : Attempt) : ConnectionLoop :=
  if s.closing then s.finish
  else
    let s := s.body policy a
    match a.raised.map Raised.classify with
    -- the iteration ended: nothing was raised, and no arm is taken
    | none => s
    | some .correctable => s.recover policy a
    | some (.definite failure) => s.surface failure
    | some .cancelled => s.finish

/-- One turn, where the loop has not ended. -/
def step (s : ConnectionLoop) (a : Attempt) : Option ConnectionLoop :=
  if s.ended then none else some (s.turn policy a)

end

/-- The loop is about to connect again. -/
def GoesOn (s : ConnectionLoop) : Prop := s.ended = false ∧ s.closing = false

/-- What the host was told of the link, in order. -/
def notifications (s : ConnectionLoop) : List Bool :=
  s.events.filterMap fun
    | .up => some true
    | .down => some false
    | _ => none

end ConnectionLoop

/-- An attempt after which the loop is meant to connect again. -/
def Attempt.Recoverable (a : Attempt) : Prop :=
  a.raised.map Raised.classify = none ∨ a.raised.map Raised.classify = some .correctable

/-- The server closed the connection cleanly, with no disconnect requested by then. -/
def Attempt.ClosedCleanly (a : Attempt) : Prop := a.raised.isNone ∧ a.closing = false

namespace ConnectionLoop

variable {policy : ConnectionPolicy}

/-! ## What one turn does -/

/-- The ways a turn goes, with the state each leads to. -/
inductive Turned (policy : ConnectionPolicy) (s : ConnectionLoop) (a : Attempt) :
    ConnectionLoop → Prop
  | stopped : s.closing = true → Turned policy s a s.finish
  | clean : s.closing = false → a.raised = none → Turned policy s a (s.body policy a)
  | disconnected : s.closing = false → a.raised.map Raised.classify = some .correctable →
      a.closing = true → Turned policy s a (s.body policy a).finish
  | gaveUp (drops : List ℚ) (failure : ConnectionFailure) : s.closing = false →
      a.raised.map Raised.classify = some .correctable → a.closing = false →
      failure.kind = .definiteConnectionFail →
      (policy.flapLimit = none → policy.maxRetries ≤ (s.body policy a).retry) →
      Turned policy s a
        (surface { (s.body policy a).emit [.down] with dropTimes := drops } failure)
  | retries (drops : List ℚ) : s.closing = false →
      a.raised.map Raised.classify = some .correctable → a.closing = false →
      (s.body policy a).retry < policy.maxRetries →
      Turned policy s a { (s.body policy a).emit [.down, .sleep (s.body policy a).retry] with
        dropTimes := drops
        retry := (s.body policy a).retry + 1
        closing := a.closingMeanwhile }
  | failed (failure : ConnectionFailure) : s.closing = false →
      a.raised.map Raised.classify = some (.definite failure) →
      Turned policy s a ((s.body policy a).surface failure)
  | cancelled : s.closing = false → a.raised.map Raised.classify = some .cancelled →
      Turned policy s a (s.body policy a).finish

/-- The retry handler tells the host, and gives up or goes on, unless a disconnect was requested. -/
theorem turned_recover {s : ConnectionLoop} {a : Attempt} (hopen : s.closing = false)
    (hraised : a.raised.map Raised.classify = some .correctable) :
    Turned policy s a ((s.body policy a).recover policy a) := by
  rw [recover]
  split
  · rename_i hclosing
    exact .disconnected hopen hraised hclosing
  · rename_i hclosing
    have hclosing : a.closing = false := by simpa [body] using hclosing
    dsimp only
    split
    · rename_i hmax
      exact .gaveUp (s.body policy a).dropTimes _ hopen hraised hclosing rfl fun _ => hmax
    · rename_i hmax
      split
      · rename_i hflap
        refine .gaveUp _ _ hopen hraised hclosing rfl fun hlimit => ?_
        simp [isFlapping, hlimit] at hflap
      · have hlt : (s.body policy a).retry < policy.maxRetries := Nat.lt_of_not_le hmax
        simpa [emit] using Turned.retries (recentDrops policy ((s.body policy a).emit [.down])
          a.checkedAt) hopen hraised hclosing hlt

theorem turned_turn (s : ConnectionLoop) (a : Attempt) : Turned policy s a (s.turn policy a) := by
  rw [turn]
  split
  · rename_i hclosing
    exact .stopped hclosing
  · rename_i hclosing
    have hopen : s.closing = false := by simpa using hclosing
    cases hraised : a.raised.map Raised.classify with
    | none => exact .clean hopen (by simpa using hraised)
    | some classified =>
      cases classified with
      | correctable => exact turned_recover hopen hraised
      | definite failure => exact .failed failure hopen hraised
      | cancelled => exact .cancelled hopen hraised

/-- A step is a turn of a loop that has not ended. -/
theorem turned_of_step {s t : ConnectionLoop} {a : Attempt} (h : step policy s a = some t) :
    s.ended = false ∧ Turned policy s a t := by
  simp only [step, Option.ite_none_left_eq_some, Option.some.injEq] at h
  obtain ⟨hended, rfl⟩ := h
  exact ⟨by simpa using hended, turned_turn s a⟩

/-! ## What the host is told

The connection state is announced as the link comes up, and taken back by the retry handler. A clean
close reaches no handler, and so the loss of such a link is not announced.
-/

/-- What the body tells the host: that the link is up, where it came up. -/
def announced (a : Attempt) : List Bool := if a.up then [true] else []

theorem notifications_emit (s : ConnectionLoop) (events : List LoopEvent) :
    (s.emit events).notifications
      = s.notifications ++ notifications { start with events := events } := by
  simp [notifications, emit]

@[simp] theorem notifications_finish (s : ConnectionLoop) :
    s.finish.notifications = s.notifications := by
  simp [notifications, finish, emit]

@[simp] theorem notifications_surface (s : ConnectionLoop) (failure : ConnectionFailure) :
    (s.surface failure).notifications = s.notifications := by
  simp [notifications, surface, finish, emit]

theorem notifications_body (s : ConnectionLoop) (a : Attempt) :
    (s.body policy a).notifications = s.notifications ++ announced a := by
  cases hup : a.up <;> simp [body, notifications, emit, announced, hup]

/-- Losses are told: no link is announced twice without its loss in between, and none is still
announced when the loop goes on to connect. -/
structure TellsLosses (s : ConnectionLoop) : Prop where
  paired : s.notifications.IsChain fun x y => ¬ (x = true ∧ y = true)
  told : s.GoesOn → s.notifications.getLast? ≠ some true

theorem tellsLosses_start : TellsLosses start :=
  ⟨List.isChain_nil, fun _ => by simp [notifications, start]⟩

/-- Announcing a link after the loss of the one before was told. -/
theorem TellsLosses.announced {s : ConnectionLoop} (h : s.TellsLosses) (hs : s.GoesOn)
    (a : Attempt) :
    (s.notifications ++ ConnectionLoop.announced a).IsChain fun x y => ¬ (x = true ∧ y = true) := by
  rw [ConnectionLoop.announced]
  split
  · refine List.isChain_append.mpr ⟨h.paired, List.isChain_singleton _, fun x hx y hy hxy => ?_⟩
    exact h.told hs (by rw [← hxy.1]; exact hx)
  · simpa using h.paired

/-- A turn that starts with every loss told, and does not end with the server closing cleanly, ends
so. -/
theorem tellsLosses_step {s t : ConnectionLoop} {a : Attempt} (h : s.TellsLosses)
    (hclean : s.GoesOn → ¬ a.ClosedCleanly) (hstep : step policy s a = some t) :
    t.TellsLosses := by
  obtain ⟨hended, hturned⟩ := turned_of_step hstep
  have hchain : s.closing = false → _ := fun hopen => h.announced ⟨hended, hopen⟩ a
  have hdown : s.closing = false →
      (s.notifications ++ (ConnectionLoop.announced a ++ [false])).IsChain
        fun x y => ¬ (x = true ∧ y = true) := fun hopen => by
    rw [← List.append_assoc]
    exact List.isChain_append.mpr
      ⟨hchain hopen, List.isChain_singleton _, fun x _ y hy hxy => by simp_all⟩
  cases hturned with
  | stopped hclosing => exact ⟨by simpa using h.paired, fun hs => by simp [GoesOn, finish] at hs⟩
  | clean hopen hraised =>
    refine ⟨by rw [notifications_body]; exact hchain hopen, fun hs => ?_⟩
    exact absurd ⟨by simp [hraised], hs.2⟩ (hclean ⟨hended, hopen⟩)
  | disconnected hopen hraised hclosing =>
    refine ⟨?_, fun hs => by simp [GoesOn, finish] at hs⟩
    rw [notifications_finish, notifications_body]
    exact hchain hopen
  | gaveUp drops failure hopen =>
    refine ⟨?_, fun hs => by simp [GoesOn, surface, finish] at hs⟩
    rw [notifications_surface]
    change (notifications ((s.body policy a).emit [.down])).IsChain _
    rw [notifications_emit, notifications_body, List.append_assoc]
    exact hdown hopen
  | retries drops hopen =>
    have hnotified : notifications ((s.body policy a).emit [.down, .sleep (s.body policy a).retry])
        = s.notifications ++ (ConnectionLoop.announced a ++ [false]) := by
      rw [notifications_emit, notifications_body, List.append_assoc]
      rfl
    refine ⟨?_, fun _ => ?_⟩
    · change (notifications ((s.body policy a).emit _)).IsChain _
      rw [hnotified]
      exact hdown hopen
    · change (notifications ((s.body policy a).emit _)).getLast? ≠ some true
      rw [hnotified, ← List.append_assoc, List.getLast?_concat]
      simp
  | failed failure hopen hraised =>
    refine ⟨?_, fun hs => by simp [GoesOn, surface, finish] at hs⟩
    rw [notifications_surface, notifications_body]
    exact hchain hopen
  | cancelled hopen hraised =>
    refine ⟨?_, fun hs => by simp [GoesOn, finish] at hs⟩
    rw [notifications_finish, notifications_body]
    exact hchain hopen

/-- A turn that ends with the server closing cleanly leaves the loop to connect again with the link
announced. -/
theorem step_of_closedCleanly {s t : ConnectionLoop} {a : Attempt} (hs : s.GoesOn)
    (ha : a.ClosedCleanly) (hstep : step policy s a = some t) : t = s.body policy a := by
  obtain ⟨-, hturned⟩ := turned_of_step hstep
  obtain ⟨hraised, hclosing⟩ := ha
  obtain ⟨-, hopen⟩ := hs
  cases hturned <;> simp_all

/-- In a run of the loop the host is told of every loss exactly where no connection ends by the
server closing it cleanly while no disconnect was requested. -/
theorem tellsLosses_iff (policy : ConnectionPolicy) {as : List Attempt} {s : ConnectionLoop}
    (hrun : exec (step policy) start as = some s) :
    (∀ pre t, pre <+: as → exec (step policy) start pre = some t → t.TellsLosses)
      ↔ Meets (step policy) (fun s a => s.GoesOn → ¬ a.ClosedCleanly) start as := by
  refine forall_prefix_iff_meets (I := fun _ => True) trivial tellsLosses_start
    (fun _ _ _ _ _ => trivial) ?_ hrun
  intro s a t _ htells hstep
  refine ⟨fun h hs hclean => ?_, fun hc => tellsLosses_step htells hc hstep⟩
  have hup : a.up = true := a.up_of_clean (by simpa using hclean.1)
  have htold := h.told
  obtain rfl := step_of_closedCleanly hs hclean hstep
  refine htold ⟨hs.1, hclean.2⟩ ?_
  rw [notifications_body, ConnectionLoop.announced, if_pos hup, List.getLast?_concat]

/-- One retry, and no count of flaps. -/
def onceMore : ConnectionPolicy := ⟨1, 30, none, 60, "60.0"⟩

/-- A connection that came up and stood for a second. -/
def shortLink (raised : Option Raised) : Attempt :=
  ⟨some 1, true, raised, false, false, 0, 0, fun _ => rfl, fun _ => rfl⟩

/-- A bounce, and a connection that breaks. -/
def twoDrops : List Attempt :=
  [shortLink (some .bounce), shortLink (some (.connectionClosed none))]

theorem tellsLosses_iff_twoDrops :
    ∃ s, exec (step onceMore) start twoDrops = some s
      ∧ s.notifications = [true, false, true, false] ∧ s.TellsLosses := by
  have hrun : ∃ s, exec (step onceMore) start twoDrops = some s
      ∧ s.notifications = [true, false, true, false] := ⟨_, rfl, rfl⟩
  obtain ⟨s, hs, hnotified⟩ := hrun
  refine ⟨s, hs, hnotified, (tellsLosses_iff onceMore hs).mpr ?_ _ s (List.prefix_refl _) hs⟩
  refine meets_cons (fun _ h => absurd h.1 (by decide)) fun t _ => ?_
  exact meets_cons (fun _ h => absurd h.1 (by decide)) fun u _ => meets_nil u

/-- The server closes one connection cleanly, and the loop announces the next: the host is told
twice that the link is up. -/
theorem cleanClose_untold :
    ∃ s, exec (step onceMore) start [shortLink none, shortLink none] = some s
      ∧ s.notifications = [true, true] ∧ ¬ s.TellsLosses := by
  refine ⟨_, rfl, rfl, fun h => ?_⟩
  exact absurd h.paired (by decide)

/-! ## The retry budget

`retry` counts the attempts the retry handler dealt with since a connection last stood for
`reset_after`. An attempt that reaches no handler costs nothing.
-/

/-- A connection that stood for `reset_after` refunds the budget. -/
def refunds (policy : ConnectionPolicy) (a : Attempt) : Bool :=
  a.stood.any (policy.resetAfter ≤ ·)

/-- How many attempts in a row ended since the budget was last refunded. -/
def used (policy : ConnectionPolicy) (as : List Attempt) : ℕ :=
  as.foldl (fun n a => if refunds policy a then 1 else n + 1) 0

theorem used_concat (policy : ConnectionPolicy) (as : List Attempt) (a : Attempt) :
    used policy (as ++ [a]) = if refunds policy a then 1 else used policy as + 1 := by
  simp [used]

/-- Where no connection stood, every attempt counts. -/
theorem used_eq_length {as : List Attempt} (h : ∀ a ∈ as, refunds policy a = false) :
    used policy as = as.length := by
  induction as using List.reverseRecOn with
  | nil => rfl
  | append_singleton as a ih =>
    rw [used_concat, h a (by simp), ih fun b hb => h b (by simp [hb])]
    simp

/-- The loop keeps to its retry budget: after at most `max_retries + 1` attempts in a row it
surfaces a `DefiniteConnectionFail`; before, it goes on, after the backoff of this retry, and gives
up only where it counts flaps. -/
structure KeepsBudget (policy : ConnectionPolicy) (as : List Attempt) (s : ConnectionLoop) :
    Prop where
  bounded : used policy as ≤ policy.maxRetries + 1
  attempts : (∀ a ∈ as, refunds policy a = false) →
    s.events.count .attempt ≤ policy.maxRetries + 1
  exhausted : used policy as = policy.maxRetries + 1 → s.ended = true
  surfaced : s.ended = true → ∃ before failure, failure.kind = .definiteConnectionFail
    ∧ s.events = before ++ [.surfaced failure, .closed]
  waited : s.ended = false → ∃ before, s.events = before ++ [.sleep (used policy as - 1)]
  restored : policy.flapLimit = none → s.ended = true → used policy as = policy.maxRetries + 1

/-- What holds after the attempts `as` while none ended with the server closing cleanly. -/
structure Spent (policy : ConnectionPolicy) (as : List Attempt) (s : ConnectionLoop) : Prop where
  attempts : s.events.count .attempt = as.length
  retry : s.ended = false → s.retry = used policy as ∧ used policy as ≤ policy.maxRetries
  budget : as ≠ [] → KeepsBudget policy as s

theorem spent_start (policy : ConnectionPolicy) : Spent policy [] start :=
  ⟨rfl, fun _ => ⟨rfl, Nat.zero_le _⟩, fun h => absurd rfl h⟩

/-- The body counts the attempt, and refunds the budget where the connection stood. -/
theorem count_body (s : ConnectionLoop) (a : Attempt) :
    (s.body policy a).events.count .attempt = s.events.count .attempt + 1 := by
  cases hup : a.up <;> simp [body, emit, hup]

theorem retry_body {as : List Attempt} {s : ConnectionLoop} (h : s.retry = used policy as)
    (a : Attempt) : (s.body policy a).retry + 1 = used policy (as ++ [a]) := by
  rw [used_concat, body, refunds, h]
  cases a.stood.any (policy.resetAfter ≤ ·) <;> simp

/-- While no disconnect is requested, the loop is not closing. -/
theorem closing_of_run {as : List Attempt} {s : ConnectionLoop}
    (hclosing : ∀ a ∈ as, a.closing = false ∧ a.closingMeanwhile = false)
    (hrun : exec (step policy) start as = some s) : s.closing = false := by
  refine exec_induction (P := fun as s => (∀ a ∈ as, a.closing = false ∧ a.closingMeanwhile = false)
    → s.closing = false) (fun _ => rfl) ?_ hrun hclosing
  intro as s a t _ ih hstep hclosing
  have hopen := ih fun b hb => hclosing b (List.mem_append_left _ hb)
  obtain ⟨ha, hmeanwhile⟩ := hclosing a (by simp)
  obtain ⟨-, hturned⟩ := turned_of_step hstep
  cases hturned <;> first | exact hopen | exact ha | exact hmeanwhile

/-- A turn that does not end with the server closing cleanly keeps the count: it spends one retry
of the budget and waits, or the budget is spent. -/
theorem spent_step {as : List Attempt} {s t : ConnectionLoop} {a : Attempt}
    (h : Spent policy as s) (hopen : s.closing = false) (hrecoverable : a.Recoverable)
    (hclosing : a.closing = false) (hclean : a.raised ≠ none)
    (hstep : step policy s a = some t) : Spent policy (as ++ [a]) t := by
  obtain ⟨hended, hturned⟩ := turned_of_step hstep
  obtain ⟨hretry, hmax⟩ := h.retry hended
  have hused := retry_body hretry a
  have hbounded : used policy (as ++ [a]) ≤ policy.maxRetries + 1 := by
    rw [used_concat]
    split <;> omega
  have hcount : (s.body policy a).events.count .attempt = (as ++ [a]).length := by
    rw [count_body, h.attempts, List.length_append, List.length_singleton]
  have hattempts : ∀ n, n = (as ++ [a]).length → (∀ b ∈ as ++ [a], refunds policy b = false) →
      n ≤ policy.maxRetries + 1 := by
    rintro n rfl hstood
    rwa [← used_eq_length hstood]
  cases hturned with
  | stopped hs => simp [hopen] at hs
  | clean _ hraised => exact absurd hraised hclean
  | disconnected _ _ hs => simp [hclosing] at hs
  | gaveUp drops failure _ _ _ hkind hlimit =>
    have hcount' : List.count .attempt (surface { (s.body policy a).emit [.down] with
        dropTimes := drops } failure).events = (as ++ [a]).length := by
      simpa [surface, finish, emit] using hcount
    refine ⟨hcount', fun hs => by simp [surface, finish] at hs, fun _ =>
      ⟨hbounded, hattempts _ hcount', fun _ => rfl, fun _ =>
        ⟨(s.body policy a).events ++ [.down], failure, hkind, ?_⟩,
        fun hs => by simp [surface, finish] at hs, fun hflap _ => ?_⟩⟩
    · simp [surface, finish, emit]
    · have := hlimit hflap
      omega
  | retries drops _ _ _ hlt =>
    have hcount' : List.count .attempt ((s.body policy a).emit
        [.down, .sleep (s.body policy a).retry]).events = (as ++ [a]).length := by
      simpa [emit] using hcount
    have hnotEnded : (s.body policy a).ended = false := hended
    refine ⟨hcount', fun _ => ⟨hused, by omega⟩, fun _ =>
      ⟨hbounded, hattempts _ hcount', fun hs => by omega,
        fun hs => absurd (hnotEnded.symm.trans hs) Bool.false_ne_true, fun _ => ?_,
        fun _ hs => absurd (hnotEnded.symm.trans hs) Bool.false_ne_true⟩⟩
    refine ⟨(s.body policy a).events ++ [.down], ?_⟩
    rw [← hused, Nat.add_sub_cancel]
    simp [emit]
  | failed failure _ hraised => rcases hrecoverable with hr | hr <;> simp [hraised] at hr
  | cancelled _ hraised => rcases hrecoverable with hr | hr <;> simp [hraised] at hr

/-- Over attempts that are all recoverable, with no disconnect requested, the loop keeps to its
budget exactly where the server closes no connection cleanly. -/
theorem keepsBudget_iff (policy : ConnectionPolicy) {as : List Attempt} {s : ConnectionLoop}
    (hrecoverable : ∀ a ∈ as, a.Recoverable)
    (hclosing : ∀ a ∈ as, a.closing = false ∧ a.closingMeanwhile = false)
    (hrun : exec (step policy) start as = some s) :
    (∀ pre t, pre <+: as → pre ≠ [] → exec (step policy) start pre = some t →
        KeepsBudget policy pre t)
      ↔ ∀ a ∈ as, a.raised ≠ none := by
  constructor
  · intro h a ha hraised
    obtain ⟨pre, post, rfl⟩ := List.append_of_mem ha
    obtain ⟨t, u, ht, hstep, hu⟩ := exec_at hrun
    have hopen : t.closing = false :=
      closing_of_run (fun b hb => hclosing b (List.mem_append_left _ hb)) ht
    obtain ⟨hended, hturned⟩ := turned_of_step hstep
    have hbudget := h (pre ++ [a]) u ⟨post, by simp⟩ (by simp) hu
    cases hturned with
    | clean =>
      -- the loop goes on right after announcing the link
      obtain ⟨before, hbefore⟩ := hbudget.waited hended
      have hup : a.up = true := a.up_of_clean hraised
      have hlast := congrArg List.getLast? hbefore
      simp [body, emit, hup] at hlast
    | stopped hs => simp [hopen] at hs
    | disconnected _ hr => simp [hraised] at hr
    | gaveUp _ _ _ hr => simp [hraised] at hr
    | retries _ _ hr => simp [hraised] at hr
    | failed _ _ hr => simp [hraised] at hr
    | cancelled _ hr => simp [hraised] at hr
  · intro hclean pre t hpre hne ht
    have hspent : Spent policy pre t := by
      refine exec_induction
        (P := fun pre t => pre <+: as → Spent policy pre t) (fun _ => spent_start policy) ?_ ht hpre
      intro pre t a u ht ih hstep hpre
      have ha : a ∈ as := hpre.subset (by simp)
      have hopen : t.closing = false :=
        closing_of_run (fun b hb => hclosing b (hpre.subset (List.mem_append_left _ hb))) ht
      exact spent_step (ih ((List.prefix_append pre [a]).trans hpre)) hopen (hrecoverable a ha)
        (hclosing a ha).1 (hclean a ha) hstep
    exact hspent.budget hne

theorem keepsBudget_iff_twoDrops :
    ∃ s, exec (step onceMore) start twoDrops = some s ∧ s.ended = true
      ∧ KeepsBudget onceMore twoDrops s := by
  have hrun : ∃ s, exec (step onceMore) start twoDrops = some s ∧ s.ended = true := ⟨_, rfl, rfl⟩
  have hdrops : ∀ a ∈ twoDrops, a.Recoverable
      ∧ (a.closing = false ∧ a.closingMeanwhile = false) ∧ a.raised ≠ none := by
    intro a ha
    obtain rfl | ha := List.mem_cons.mp ha
    · exact ⟨Or.inr rfl, ⟨rfl, rfl⟩, by simp [shortLink]⟩
    · obtain rfl := List.mem_singleton.mp ha
      exact ⟨Or.inr rfl, ⟨rfl, rfl⟩, by simp [shortLink]⟩
  obtain ⟨s, hs, hended⟩ := hrun
  exact ⟨s, hs, hended, (keepsBudget_iff onceMore (fun a ha => (hdrops a ha).1)
    (fun a ha => (hdrops a ha).2.1) hs).mpr (fun a ha => (hdrops a ha).2.2) _ s
    (List.prefix_refl _) (by simp [twoDrops]) hs⟩

/-- The server closes each connection cleanly: with one retry allowed the loop has made three
attempts, waited before none, and goes on. -/
theorem cleanClose_unbounded :
    ∃ s, exec (step onceMore) start [shortLink none, shortLink none, shortLink none] = some s
      ∧ s.events = [.attempt, .up, .attempt, .up, .attempt, .up] ∧ s.GoesOn
      ∧ ¬ KeepsBudget onceMore [shortLink none, shortLink none, shortLink none] s := by
  refine ⟨_, rfl, rfl, ⟨rfl, rfl⟩, fun h => ?_⟩
  exact absurd h.bounded (by decide)

end ConnectionLoop

end Rekuest
