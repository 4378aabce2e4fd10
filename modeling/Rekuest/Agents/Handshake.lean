import Rekuest.Agents.AfterInit

/-!
# Between Register and Init

The connection task, the sender, callers that enqueue and the agent that takes each `Init` from
the transport's inbound queue at its own pace, over any number of connections. The release an
`Init` leads to goes to whichever connection is current when the agent has handled it.
-/

namespace Rekuest

open Runs Transport

/-- The transport, and the `Init`s on their way through the agent. -/
structure Link (φ : Type) where
  transport : Transport φ
  /-- The `Init`s in the inbound queue, each by the connection it was received on. -/
  inbound : List ℕ
  /-- The `Init` the agent is handling. -/
  handling : Option ℕ
  /-- The connections that received their `Init`. -/
  inits : List ℕ

/-- What happens on the link. -/
inductive LinkAct (φ : Type)
  /-- A caller, the connection task or the sender moves. -/
  | line (act : TransportAct φ)
  /-- The current connection receives its `Init`. -/
  | receiveInit
  /-- The agent takes the next `Init` from the inbound queue. -/
  | takeInit
  /-- The agent handles it: discard, re-send, release. -/
  | aafterInit (resent : List φ)

/-- The events of the line that are not the agent's, under a host that holds sends until `Init`. -/
def TransportAct.ofTransport {φ : Type} : TransportAct φ → Bool
  | .connect holds => holds
  | .discardJournaled | .releaseSends => false
  | _ => true

namespace Link

variable {φ : Type} {numbered : φ → Bool}

/-- No connection yet. -/
def start : Link φ := ⟨Transport.start, [], none, []⟩

/-- One event. -/
def step (numbered : φ → Bool) (k : Link φ) : LinkAct φ → Option (Link φ)
  | .line act =>
    if act.ofTransport then
      (k.transport.step numbered act).map fun transport => { k with transport := transport }
    else none
  | .receiveInit =>
    match k.transport.sender with
    | .off => none
    | _ => some { k with
        inbound := k.inbound ++ [k.transport.connection]
        inits := k.inits ++ [k.transport.connection] }
  | .takeInit =>
    match k.handling, k.inbound with
    | none, init :: inbound => some { k with inbound := inbound, handling := some init }
    | _, _ => none
  | .aafterInit resent =>
    k.handling.bind fun _ =>
      (exec (Transport.step numbered) k.transport (Rekuest.aafterInit resent)).map fun transport =>
        { k with transport := transport, handling := none }

/-- The `Init` under handling finds its release harmless: no connection is up, or the current one
has received its own `Init`. -/
def InitIsCurrent (k : Link φ) : LinkAct φ → Prop
  | .aafterInit _ => k.transport.sender = .off ∨ k.transport.connection ∈ k.inits
  | _ => True

/-- What holds while no stale `Init` releases: a sender that was let go belongs to a connection
that received its `Init`. -/
structure Quiet (k : Link φ) : Prop where
  wire : ∀ p ∈ k.transport.wire, p.1 ∈ k.inits
  sender : (∀ f, k.transport.sender ≠ .sending f) ∧ k.transport.sender ≠ .looping ∨
    k.transport.connection ∈ k.inits
  released : k.transport.sender = .off ∨ k.transport.released = false ∨
    k.transport.connection ∈ k.inits

theorem quiet_start : Quiet (start : Link φ) where
  wire := by rintro p ⟨⟩
  sender := Or.inl ⟨fun f => by rintro ⟨⟩, by rintro ⟨⟩⟩
  released := Or.inl rfl

/-- What the connection task, the sender and the callers do keeps the link quiet. -/
theorem quiet_line {k k' : Link φ} (h : k.Quiet) {act : TransportAct φ}
    (hs : k.step numbered (.line act) = some k') : k'.Quiet := by
  simp only [step, Option.ite_none_right_eq_some, Option.map_eq_some_iff] at hs
  obtain ⟨hown, t, ht, rfl⟩ := hs
  have hsent : ∀ f, k.transport.sender = .sending f → k.transport.connection ∈ k.inits := by
    intro f hf
    exact h.sender.resolve_left fun hno => hno.1 f hf
  have hwire : ∀ f accepted, k.transport.sender = .sending f →
      ∀ p ∈ k.transport.wireAfter f accepted, p.1 ∈ k.inits := by
    intro f accepted hf p hp
    rw [wireAfter] at hp
    split at hp
    · rcases List.mem_append.mp hp with hp | hp
      · exact h.wire p hp
      · obtain rfl := List.mem_singleton.mp hp
        exact hsent f hf
    · exact h.wire p hp
  cases act with
  | delayaction frame =>
    obtain rfl := Option.some.inj ht
    exact ⟨h.wire, h.sender, h.released⟩
  | connect holds =>
    obtain rfl : holds = true := hown
    cases hsender : k.transport.sender <;>
      simp only [Transport.step, hsender, reduceCtorEq, Option.some.injEq] at ht
    subst ht
    exact ⟨h.wire, Or.inl ⟨fun f => by rintro ⟨⟩, by rintro ⟨⟩⟩, Or.inr (Or.inl rfl)⟩
  | wake =>
    cases hsender : k.transport.sender <;>
      simp only [Transport.step, hsender, reduceCtorEq, Option.ite_none_right_eq_some,
        Option.some.injEq] at ht
    obtain ⟨hreleased, rfl⟩ := ht
    -- the event that lets the sender start is set only once an `Init` of this connection came
    have hinit : k.transport.connection ∈ k.inits := by
      rcases h.released with hoff | hunset | hinit
      · rw [hsender] at hoff; cases hoff
      · rw [hreleased] at hunset; cases hunset
      · exact hinit
    exact ⟨h.wire, Or.inr hinit, Or.inr (Or.inr hinit)⟩
  | take =>
    cases hsender : k.transport.sender <;>
      simp only [Transport.step, hsender, reduceCtorEq] at ht
    have hinit : k.transport.connection ∈ k.inits :=
      h.sender.resolve_left fun hno => hno.2 hsender
    cases hheld : k.transport.held with
    | some f =>
      simp only [hheld, Option.some.injEq] at ht
      subst ht
      exact ⟨h.wire, Or.inr hinit, Or.inr (Or.inr hinit)⟩
    | none =>
      simp only [hheld, Option.map_eq_some_iff] at ht
      obtain ⟨_, _, rfl⟩ := ht
      exact ⟨h.wire, Or.inr hinit, Or.inr (Or.inr hinit)⟩
  | sent =>
    cases hsender : k.transport.sender <;>
      simp only [Transport.step, hsender, reduceCtorEq] at ht
    obtain ⟨queue, -, rfl⟩ := Option.map_eq_some_iff.mp ht
    exact ⟨hwire _ true hsender, Or.inr (hsent _ hsender), Or.inr (Or.inr (hsent _ hsender))⟩
  | failed accepted =>
    cases hsender : k.transport.sender <;>
      simp only [Transport.step, hsender, reduceCtorEq, Option.some.injEq] at ht
    subst ht
    exact ⟨hwire _ accepted hsender, Or.inr (hsent _ hsender), Or.inr (Or.inr (hsent _ hsender))⟩
  | drop accepted =>
    have hoff : (∀ f, (Sender.off : Sender φ) ≠ .sending f) ∧ (Sender.off : Sender φ) ≠ .looping :=
      ⟨fun f => by rintro ⟨⟩, by rintro ⟨⟩⟩
    cases hsender : k.transport.sender <;>
      simp only [Transport.step, hsender, reduceCtorEq, Option.some.injEq] at ht
    case sending f =>
      subst ht
      exact ⟨hwire f accepted hsender, Or.inl hoff, Or.inl rfl⟩
    all_goals
      subst ht
      exact ⟨h.wire, Or.inl hoff, Or.inl rfl⟩
  | discardJournaled => cases hown
  | releaseSends => cases hown

/-- Every event keeps the link quiet, the handling of an `Init` where that is current. -/
theorem quiet_step {k k' : Link φ} (h : k.Quiet) {act : LinkAct φ} (hc : k.InitIsCurrent act)
    (hs : k.step numbered act = some k') : k'.Quiet := by
  cases act with
  | line act => exact quiet_line h hs
  | receiveInit =>
    have hmono : ∀ c, c ∈ k.inits → c ∈ k.inits ++ [k.transport.connection] :=
      fun c hc => List.mem_append_left _ hc
    have hnew : k.transport.connection ∈ k.inits ++ [k.transport.connection] :=
      List.mem_append_right _ (List.mem_singleton_self _)
    simp only [step] at hs
    split at hs
    · cases hs
    · obtain rfl := Option.some.inj hs
      exact ⟨fun p hp => hmono _ (h.wire p hp), Or.inr hnew, Or.inr (Or.inr hnew)⟩
  | takeInit =>
    simp only [step] at hs
    split at hs
    · obtain rfl := Option.some.inj hs
      exact ⟨h.wire, h.sender, h.released⟩
    · cases hs
  | aafterInit resent =>
    simp only [step, Option.bind_eq_some_iff, Option.map_eq_some_iff] at hs
    obtain ⟨init, -, t, ht, rfl⟩ := hs
    obtain ⟨hsender, -, hconnection, hwire⟩ := exec_aafterInit_frame ht
    refine ⟨fun p hp => h.wire p (hwire ▸ hp), ?_, ?_⟩
    · change (∀ f, t.sender ≠ .sending f) ∧ t.sender ≠ .looping ∨ t.connection ∈ k.inits
      rw [hsender, hconnection]
      exact h.sender
    · change t.sender = .off ∨ t.released = false ∨ t.connection ∈ k.inits
      rw [hsender, hconnection]
      exact hc.imp_right Or.inr

/-- In every run in which no `Init` is handled while the current connection still waits for its
own, no frame but the `Register` goes out on a connection that has not received its `Init`. -/
theorem nothing_before_own_init (numbered : φ → Bool) (acts : List (LinkAct φ)) (k : Link φ)
    (hmeets : Meets (step numbered) InitIsCurrent start acts)
    (hrun : exec (step numbered) start acts = some k) :
    ∀ p ∈ k.transport.wire, p.1 ∈ k.inits := by
  have h : k.Quiet :=
    exec_invariant_of_meets quiet_start (fun _ _ _ h hc hs => quiet_step h hc hs) hmeets hrun
  exact h.wire

/-- A connection whose `Init` is handled while it is up, and then sends. -/
def initHandled : List (LinkAct String) :=
  [.line (.connect true), .line (.delayaction "r"), .receiveInit, .takeInit, .aafterInit [],
    .line .wake, .line .take, .line .sent]

theorem nothing_before_own_init_initHandled :
    ∃ k, exec (step fun _ => false) start initHandled = some k ∧
      k.transport.wire.map (fun p => (p.1, p.2.frame)) = [(1, "r")] ∧
      ∀ p ∈ k.transport.wire, p.1 ∈ k.inits := by
  have hmeets : Meets (step fun _ => false) InitIsCurrent start initHandled := by
    iterate 8
      refine meets_cons ?_ ?_
      · first | trivial | exact Or.inr (by decide)
      rintro k ⟨⟩
    exact meets_nil _
  obtain ⟨k, hk⟩ : ∃ k, exec (step fun _ => false) start initHandled = some k := ⟨_, rfl⟩
  refine ⟨k, hk, ?_, nothing_before_own_init _ initHandled k hmeets hk⟩
  obtain rfl := Option.some.inj hk
  rfl

/-- The first connection drops before the agent handles its `Init`. -/
def staleInit : List (LinkAct String) :=
  [.line (.connect true), .receiveInit, .line (.drop false), .line (.connect true),
    .line (.delayaction "r"), .takeInit, .aafterInit [], .line .wake, .line .take, .line .sent]

/-- The second connection is then released, and sends, before its own `Init`. -/
theorem sends_before_own_init :
    ∃ k, exec (step fun _ => false) start staleInit = some k ∧
      ¬ ∀ p ∈ k.transport.wire, p.1 ∈ k.inits := by
  refine ⟨_, rfl, fun h => ?_⟩
  exact absurd (h (2, ⟨0, "r"⟩) (List.mem_singleton_self _)) (by decide)

end Link

end Rekuest
