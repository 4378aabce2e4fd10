import Rekuest.Agents.Delivered

/-!
# Inquiries

The server's `Init` asks about tasks it heard no end of, and the agent answers after it sent what
is retained again. The agent looks only at the reports that wait for an ack. That is enough: what
the server sends arrives in order, so no ack that an `Init` was sent before is heard when the
`Init`'s turn comes.
-/

namespace Rekuest

open Runs

/-- What the server sends an agent, as far as inquiries go. -/
inductive ServerMessage
  /-- `Init`, with the tasks its inquiries are about. -/
  | init (inquiries : List String)
  | journalAck (session : String) (pos : ℤ)

/-- What `_areport_task_liveness` dispatches about a task. -/
structure LivenessReport where
  task : String
  kind : TaskReport
  text : String
deriving DecidableEq

namespace LivenessReport

def noLongerManaged (task : String) : LivenessReport :=
  ⟨task, .critical,
    "After disconnect actor was no longer managed (probably the app was restarted)"⟩

def stillRunning (task : String) : LivenessReport := ⟨task, .progress, "Actor is still running"⟩

def notRunning (task : String) : LivenessReport :=
  ⟨task, .critical, "The assignment was not running anymore. But the actor was still managed. "
    ++ "This could lead to some race conditions"⟩

/-- The frame it is dispatched as. -/
def frame (r : LivenessReport) (taskStep : Option ℕ) : FromAgentMessage :=
  ⟨.task r.kind r.task, taskStep⟩

end LivenessReport

/-- How far the agent is with an `Init`. -/
inductive Handling
  /-- `_aafter_init` is to send what is retained again. -/
  | init (inquiries : List String)
  /-- `_areply_to_inquiries` is at the first of these. -/
  | inquiries (tasks : List String)
  /-- `acheck_task` runs for a task. -/
  | checking (task : String) (tasks : List String)

/-- The tasks the `Init` asks about that were not looked up yet. -/
def Handling.tasks : Handling → List String
  | .init tasks | .inquiries tasks | .checking _ tasks => tasks

/-- The rest of the inquiries; an `Init` without more is handled. -/
def Handling.next : List String → Option Handling
  | [] => none
  | tasks => some (.inquiries tasks)

/-- An agent name's processes and the server, with what the server sends. -/
structure Inquiring (S : ReportServer) where
  reporting : Reporting S
  /-- On its way to the agent on the current connection. -/
  downlink : List ServerMessage
  /-- Received and not taken yet. -/
  inbound : List ServerMessage
  handling : Option Handling
  /-- The answers dispatched so far, in every process. -/
  answers : List LivenessReport

/-- What happens. -/
inductive InquiringAct
  /-- What is not brought about by a message of the server. -/
  | reporting (act : ReportingAct)
  /-- The server answers a `Register`, asking about tasks it heard no end of. -/
  | serverInit (inquiries : List String)
  /-- The server sends one of its acks. -/
  | serverAck (session : String) (pos : ℤ)
  | receive
  | take
  | aafterInit
  /-- `_areport_task_liveness` of the next inquiry; `managed` is `task in managed_assignments`. -/
  | areportTaskLiveness (managed : Bool) (pos : ℤ) (taskStep : Option ℕ) (now : ℚ)
  /-- `acheck_task` answers. -/
  | checked (running : Bool) (pos : ℤ) (taskStep : Option ℕ) (now : ℚ)

/-- The events of the agent's processes and its server that are no message of the server's. -/
def ReportingAct.unprompted : ReportingAct → Bool
  | .journalAck .. | .receiveInit | .takeInit | .aafterInit => false
  | _ => true

/-- The connection ends, or a new one begins. -/
def ReportingAct.cutsConnection : ReportingAct → Bool
  | .line (.connect _) | .line (.drop _) | .exit => true
  | _ => false

/-- The process ends. -/
def ReportingAct.isExit : ReportingAct → Bool
  | .exit => true
  | _ => false

/-- The ack the agent hears. -/
def ReportingAct.heard : ReportingAct → List (String × ℤ)
  | .journalAck session pos => [(session, pos)]
  | _ => []

/-- A report of the task's end was emitted, in whichever process. -/
def Reporting.HasEnded {S : ReportServer} (terminal : TaskReport → Bool) (s : Reporting S)
    (task : String) : Prop :=
  ∃ session, ∃ f ∈ s.ledger.framesOf session, f.2.ends terminal task = true

/-- No call to the store begins to fail. -/
def InquiringAct.StoreWorks : InquiringAct → Prop
  | .reporting act => act.StoreWorks
  | _ => True

namespace Inquiring

variable {S : ReportServer}

def start (S : ReportServer) (db : JournalDb) : Inquiring S :=
  ⟨Reporting.start S db, [], [], none, []⟩

/-- A connection is up. -/
def connected (s : Inquiring S) : Bool :=
  match s.reporting.link.transport.sender with
  | .off => false
  | _ => true

section

variable (terminal : TaskReport → Bool) (codec : FrameCodec) (loads : String → Option Json)
  (name : String)

/-- Dispatch an answer. -/
def dispatch (s : Inquiring S) (r : LivenessReport) (pos : ℤ) (taskStep : Option ℕ) (now : ℚ) :
    Option (Inquiring S) :=
  (s.reporting.step terminal codec loads name (.emit pos (r.frame taskStep) now)).map
    fun reporting => { s with reporting := reporting, answers := s.answers ++ [r] }

/-- One event. -/
def step (s : Inquiring S) : InquiringAct → Option (Inquiring S)
  | .reporting act =>
    if act.unprompted then
      (s.reporting.step terminal codec loads name act).map fun reporting =>
        { s with
          reporting := reporting
          downlink := if act.cutsConnection then [] else s.downlink
          inbound := if act.isExit then [] else s.inbound
          handling := if act.isExit then none else s.handling }
    else none
  | .serverInit inquiries =>
    if s.connected && inquiries.all (S.asks s.reporting.server) then
      some { s with downlink := s.downlink ++ [.init inquiries] }
    else none
  | .serverAck session pos =>
    if s.connected && (S.acks s.reporting.server).any fun ack => ack = (session, pos) then
      some { s with downlink := s.downlink ++ [.journalAck session pos] }
    else none
  | .receive =>
    match s.downlink with
    | [] => none
    | .init inquiries :: downlink =>
      (s.reporting.step terminal codec loads name .receiveInit).map fun reporting =>
        { s with
          reporting := reporting
          downlink := downlink
          inbound := s.inbound ++ [.init inquiries] }
    | .journalAck session pos :: downlink =>
      some { s with downlink := downlink, inbound := s.inbound ++ [.journalAck session pos] }
  | .take =>
    match s.handling, s.inbound with
    | none, .init inquiries :: inbound =>
      (s.reporting.step terminal codec loads name .takeInit).map fun reporting =>
        { s with
          reporting := reporting
          inbound := inbound
          handling := some (.init inquiries) }
    | none, .journalAck session pos :: inbound =>
      (s.reporting.step terminal codec loads name (.journalAck session pos)).map fun reporting =>
        { s with reporting := reporting, inbound := inbound }
    | _, _ => none
  | .aafterInit =>
    match s.handling with
    | some (.init inquiries) =>
      (s.reporting.step terminal codec loads name .aafterInit).map fun reporting =>
        { s with reporting := reporting, handling := Handling.next inquiries }
    | _ => none
  | .areportTaskLiveness managed pos taskStep now =>
    match s.reporting.process.agent, s.handling with
    | some a, some (.inquiries (task :: tasks)) =>
      if a.hasRetainedTerminalReport terminal task then
        some { s with handling := Handling.next tasks }
      else if managed then
        some { s with handling := some (.checking task tasks) }
      else
        dispatch terminal codec loads name { s with handling := Handling.next tasks }
          (.noLongerManaged task) pos taskStep now
    | _, _ => none
  | .checked running pos taskStep now =>
    match s.handling with
    | some (.checking task tasks) =>
      dispatch terminal codec loads name { s with handling := Handling.next tasks }
        (if running then .stillRunning task else .notRunning task) pos taskStep now
    | _ => none

/-- What is emitted decodes again, and its text carries a position. -/
def Numbers : InquiringAct → Prop
  | .reporting act => Reporting.Numbers codec loads act
  | .areportTaskLiveness _ _ taskStep _ | .checked _ _ taskStep _ =>
    ∀ kind task, codec.RoundTrips ⟨.task kind task, taskStep⟩
      ∧ journaled loads (codec.dump ⟨.task kind task, taskStep⟩) = true
  | _ => True

end

/-- What the server sent and the agent has not done with, in order. -/
def pending (s : Inquiring S) : List ServerMessage :=
  (s.handling.map fun h => ServerMessage.init h.tasks).toList ++ s.inbound ++ s.downlink

/-- The acks among messages, in order. -/
def acksOf : List ServerMessage → List (String × ℤ)
  | [] => []
  | .init _ :: l => acksOf l
  | .journalAck session pos :: l => (session, pos) :: acksOf l

variable {terminal : TaskReport → Bool} {codec : FrameCodec} {loads : String → Option Json}
  {name : String}

end Inquiring

/-! ## What an event does to the ledger -/

namespace Reporting

variable {S : ReportServer} {terminal : TaskReport → Bool} {codec : FrameCodec}
  {loads : String → Option Json}
  {name : String}

/-- What an event adds to the ledger and to the server's acks. -/
structure Adds (act : ReportingAct) (s s' : Reporting S) : Prop where
  kept : ∀ session, s.ledger.framesOf session ⊆ s'.ledger.framesOf session
  emitted : ∀ session, ∀ f ∈ s'.ledger.framesOf session, f ∈ s.ledger.framesOf session ∨
    s.ledger.highest session < f.1 ∧ ∃ now, act = .emit f.1 f.2 now
  heard : s'.ledger.acks = s.ledger.acks ++ act.heard
  acked : S.acks s.server ⊆ S.acks s'.server

theorem Adds.of_ledger {act : ReportingAct} {s s' : Reporting S}
    (hframes : s'.ledger.framesOf = s.ledger.framesOf)
    (hheard : s'.ledger.acks = s.ledger.acks ++ act.heard)
    (hacks : S.acks s.server ⊆ S.acks s'.server) : Adds act s s' where
  kept session := by rw [hframes]; exact List.Subset.refl _
  emitted session f hf := by rw [hframes] at hf; exact Or.inl hf
  heard := hheard
  acked := hacks

theorem adds_emit {s s' : Reporting S} (h : s.Sustained codec loads name) {pos : ℤ}
    {message : FromAgentMessage} {now : ℚ}
    (hs : s.step terminal codec loads name (.emit pos message now) = some s') :
    Adds (.emit pos message now) s s' ∧ ∃ session, (pos, message) ∈ s'.ledger.framesOf session := by
  obtain ⟨a, ha, hs⟩ := Option.bind_eq_some_iff.mp hs
  obtain ⟨ledger, hledger, hs⟩ := Option.bind_eq_some_iff.mp hs
  obtain ⟨process, -, hs⟩ := Option.bind_eq_some_iff.mp hs
  obtain ⟨link, -, rfl⟩ := Option.map_eq_some_iff.mp hs
  have hw := h.refines.wellFormed
  obtain ⟨σ, -, hcurrent, hpos, hL⟩ := Ledger.emit_eq_some hledger
  have hσ : σ ∈ s.ledger.sessions := by simp [Ledger.sessions_of_current hcurrent]
  have hframes : ∀ {session f}, f ∈ ledger.framesOf session ↔
      f ∈ s.ledger.framesOf session ∨ (session = σ.id ∧ f = (pos, message)) :=
    Ledger.mem_framesOf_emit hw hcurrent hledger
  refine ⟨⟨fun session f hf => hframes.mpr (Or.inl hf), fun session f hf => ?_, ?_,
    List.Subset.refl _⟩, σ.id, hframes.mpr (Or.inr ⟨rfl, rfl⟩)⟩
  · obtain hf | ⟨rfl, rfl⟩ := hframes.mp hf
    · exact Or.inl hf
    · right
      rw [hw.highest_eq hσ]
      exact ⟨hpos, now, rfl⟩
  · show ledger.acks = s.ledger.acks ++ []
    rw [hL, List.append_nil]

/-- Every event: a frame that is new is above its session, and an ack that is heard is the
event's. -/
theorem adds_step (hserver : S.Contract) {s s' : Reporting S} (h : s.Sustained codec loads name)
    {act : ReportingAct}
    (hs : s.step terminal codec loads name act = some s') : Adds act s s' := by
  cases act with
  | emit pos message now => exact (adds_emit h hs).1
  | astart session created =>
    obtain ⟨ledger, hledger, hs⟩ := Option.bind_eq_some_iff.mp hs
    obtain ⟨process, -, rfl⟩ := Option.map_eq_some_iff.mp hs
    obtain ⟨-, -, hL, -⟩ := Ledger.sessions_astart hledger
    refine Adds.of_ledger (Ledger.framesOf_astart hledger) ?_ (List.Subset.refl _)
    show ledger.acks = s.ledger.acks ++ []
    rw [hL, List.append_nil]
  | exit =>
    obtain ⟨ledger, hledger, hs⟩ := Option.bind_eq_some_iff.mp hs
    obtain ⟨process, -, rfl⟩ := Option.map_eq_some_iff.mp hs
    simp only [Ledger.step, Option.ite_none_right_eq_some, Option.some.injEq] at hledger
    obtain ⟨-, rfl⟩ := hledger
    exact Adds.of_ledger rfl (List.append_nil _).symm (List.Subset.refl _)
  | journalAck session pos =>
    simp only [step, Option.ite_none_right_eq_some, Option.map_eq_some_iff] at hs
    obtain ⟨-, process, -, rfl⟩ := hs
    exact Adds.of_ledger rfl rfl (List.Subset.refl _)
  | serverReads lifetime connection =>
    obtain ⟨f, -, rfl⟩ := Option.map_eq_some_iff.mp hs
    exact Adds.of_ledger rfl (List.append_nil _).symm (hserver.receives s.server f).keeps
  | line act =>
    obtain ⟨a, -, hs⟩ := Option.bind_eq_some_iff.mp hs
    simp only [Option.ite_none_right_eq_some, Option.map_eq_some_iff] at hs
    obtain ⟨-, link, -, rfl⟩ := hs
    exact Adds.of_ledger rfl (List.append_nil _).symm (List.Subset.refl _)
  | storeFails faults =>
    obtain rfl := Option.some.inj hs
    exact Adds.of_ledger rfl (List.append_nil _).symm (List.Subset.refl _)
  | _ =>
    obtain ⟨a, -, hs⟩ := Option.bind_eq_some_iff.mp hs
    obtain ⟨link, -, rfl⟩ := Option.map_eq_some_iff.mp hs
    exact Adds.of_ledger rfl (List.append_nil _).symm (List.Subset.refl _)

/-! ## Reports of a task's end that no ack covers

What the server asks about is open to every ack it sent. The retained frames tell of an open task
whether a report of its end was emitted.
-/

/-- None of the acks covers a report of the task's end. -/
def Open (terminal : TaskReport → Bool) (s : Reporting S) (acks : List (String × ℤ))
    (task : String) : Prop :=
  ∀ session, ∀ f ∈ s.ledger.framesOf session, f.2.ends terminal task = true →
    ∀ a ∈ acks, a.1 = session → a.2 < f.1

/-- No ack the server sent is above what its session emitted. -/
theorem Sustained.ack_le_highest {s : Reporting S} (h : s.Sustained codec loads name)
    {a : String × ℤ} (ha : a ∈ S.acks s.server) : a.2 ≤ s.ledger.highest a.1 := by
  rw [Ledger.highest_eq_watermark]
  calc a.2 ≤ Delivery.watermark (S.projected s.server a.1) := h.sound.acked a ha
    _ ≤ Delivery.watermark ((s.view codec).emitted a.1) :=
      Delivery.watermark_le (h.sound.log a.1).subset
    _ = Delivery.watermark (s.ledger.framesOf a.1) :=
      Delivery.watermark_map codec.dump (s.ledger.framesOf a.1)

/-- A report that is new is above every ack the server sent. -/
theorem Open.step {s s' : Reporting S} {acks : List (String × ℤ)} {task : String}
    (hopen : s.Open terminal acks task) (h : s.Sustained codec loads name) {act : ReportingAct}
    (hadds : Adds act s s') (hacks : ∀ a ∈ acks, a ∈ S.acks s.server) :
    s'.Open terminal acks task := by
  intro session f hf hends a ha hid
  obtain hf | ⟨hnew, -⟩ := hadds.emitted session f hf
  · exact hopen session f hf hends a ha hid
  · have hle := h.ack_le_highest (hacks a ha)
    rw [hid] at hle
    omega

end Reporting

namespace Inquiring

open Reporting (Open Adds)

variable {S : ReportServer} {terminal : TaskReport → Bool} {codec : FrameCodec}
  {loads : String → Option Json}
  {name : String}

/-! ## What is under way

Acks and `Init`s reach the agent in the order in which they were sent. When the turn of an `Init`
comes, the acks sent before it were heard, and none that was sent after it.
-/

/-- Whenever an `Init`'s turn comes, after `acks` and those ahead of it, no report of the end of a
task it asks about is acked. -/
def InTurn (terminal : TaskReport → Bool) (s : Reporting S) :
    List (String × ℤ) → List ServerMessage → Prop
  | _, [] => True
  | acks, .init inquiries :: l =>
    (∀ task ∈ inquiries, s.Open terminal acks task) ∧ InTurn terminal s acks l
  | acks, .journalAck session pos :: l => InTurn terminal s (acks ++ [(session, pos)]) l

/-- What comes last is lost. -/
theorem InTurn.left {s : Reporting S} {acks : List (String × ℤ)} {l l' : List ServerMessage}
    (h : InTurn terminal s acks (l ++ l')) : InTurn terminal s acks l := by
  induction l generalizing acks with
  | nil => trivial
  | cons m l ih =>
    cases m with
    | init inquiries => exact ⟨h.1, ih h.2⟩
    | journalAck session pos => exact ih h

/-- What is emitted meanwhile is above every ack. -/
theorem InTurn.step {s s' : Reporting S} {acks : List (String × ℤ)} {l : List ServerMessage}
    (h : InTurn terminal s acks l) (hs : s.Sustained codec loads name) {act : ReportingAct}
    (hadds : Adds act s s') (hacks : ∀ a ∈ acks ++ acksOf l, a ∈ S.acks s.server) :
    InTurn terminal s' acks l := by
  induction l generalizing acks with
  | nil => trivial
  | cons m l ih =>
    cases m with
    | init inquiries =>
      refine ⟨fun task htask => (h.1 task htask).step hs hadds fun a ha => ?_, ih h.2 hacks⟩
      exact hacks a (List.mem_append_left _ ha)
    | journalAck session pos =>
      refine ih h fun a ha => hacks a ?_
      rw [List.append_assoc] at ha
      exact ha

/-! ## What every event keeps -/

/-- What every run keeps. -/
structure Heeded (terminal : TaskReport → Bool) (codec : FrameCodec)
    (loads : String → Option Json) (name : String) (s : Inquiring S) : Prop where
  sustained : s.reporting.Sustained codec loads name
  decodes : ∀ session, ∀ f ∈ s.reporting.ledger.framesOf session, codec.RoundTrips f.2
  sent : ∀ a ∈ acksOf s.pending, a ∈ S.acks s.reporting.server
  inTurn : InTurn terminal s.reporting s.reporting.ledger.acks s.pending
  ended : ∀ r ∈ s.answers, terminal r.kind = true → s.reporting.HasEnded terminal r.task
  once : ∀ task, s.answers.count (.noLongerManaged task) ≤ 1

theorem pending_eq (s : Inquiring S) : s.pending
    = (s.handling.map fun h => ServerMessage.init h.tasks).toList ++ (s.inbound ++ s.downlink) :=
  List.append_assoc _ _ _

/-- The processes or the server move; what is under way stays, or loses its end or its first. -/
theorem Heeded.move (hserver : S.Contract) {s s' : Inquiring S}
    (h : s.Heeded terminal codec loads name) {act : ReportingAct}
    (hc : Reporting.Numbers codec loads act) (hstore : act.StoreWorks)
    (hs : s.reporting.step terminal codec loads name act = some s'.reporting)
    (hanswers : s'.answers = s.answers)
    (hturn : InTurn terminal s.reporting (s.reporting.ledger.acks ++ act.heard) s'.pending)
    (hsent : ∀ a ∈ act.heard ++ acksOf s'.pending, a ∈ S.acks s.reporting.server) :
    s'.Heeded terminal codec loads name := by
  have hadds := Reporting.adds_step hserver h.sustained hs
  have hacks : ∀ a ∈ s.reporting.ledger.acks ++ act.heard ++ acksOf s'.pending,
      a ∈ S.acks s.reporting.server := by
    intro a ha
    rw [List.append_assoc] at ha
    exact (List.mem_append.mp ha).elim (h.sustained.acked a) (hsent a)
  refine ⟨Reporting.sustained_step hserver h.sustained hc hstore hs, fun session f hf => ?_,
    fun a ha => hadds.acked (hsent a (List.mem_append_right _ ha)), ?_, fun r hr hend => ?_,
    by rw [hanswers]; exact h.once⟩
  · obtain hf | ⟨-, now, rfl⟩ := hadds.emitted session f hf
    · exact h.decodes session f hf
    · exact hc.1
  · rw [hadds.heard]
    exact hturn.step h.sustained hadds hacks
  · rw [hanswers] at hr
    obtain ⟨session, f, hf, hends⟩ := h.ended r hr hend
    exact ⟨session, f, hadds.kept session hf, hends⟩

/-- Only what is under way changes. -/
theorem Heeded.pass {s s' : Inquiring S} (h : s.Heeded terminal codec loads name)
    (hreporting : s'.reporting = s.reporting) (hanswers : s'.answers = s.answers)
    (hturn : InTurn terminal s.reporting s.reporting.ledger.acks s'.pending)
    (hsent : ∀ a ∈ acksOf s'.pending, a ∈ S.acks s.reporting.server) :
    s'.Heeded terminal codec loads name := by
  refine ⟨?_, ?_, ?_, ?_, ?_, ?_⟩
  all_goals
    first | rw [hreporting] | skip
    first | rw [hanswers] | skip
  · exact h.sustained
  · exact h.decodes
  · exact hsent
  · exact hturn
  · exact h.ended
  · exact h.once

/-- An answer is dispatched; one that the task is lost, only about a task without an end. -/
theorem Heeded.dispatch (hserver : S.Contract) {s s' : Inquiring S}
    (h : s.Heeded terminal codec loads name)
    {r : LivenessReport} {pos : ℤ} {taskStep : Option ℕ} {now : ℚ}
    (hc : Reporting.Numbers codec loads (.emit pos (r.frame taskStep) now))
    (hs : dispatch terminal codec loads name s r pos taskStep now = some s')
    (hcritical : terminal .critical = true)
    (hnew : ∀ task, r = .noLongerManaged task → ¬ s.reporting.HasEnded terminal task) :
    s'.Heeded terminal codec loads name := by
  obtain ⟨reporting, hreporting, rfl⟩ := Option.map_eq_some_iff.mp hs
  have hmoved : Heeded terminal codec loads name { s with reporting := reporting } := by
    refine h.move hserver hc trivial hreporting rfl ?_ h.sent
    show InTurn terminal s.reporting (s.reporting.ledger.acks ++ []) s.pending
    rw [List.append_nil]
    exact h.inTurn
  obtain ⟨-, session, hmem⟩ := Reporting.adds_emit h.sustained hreporting
  refine ⟨hmoved.sustained, hmoved.decodes, hmoved.sent, hmoved.inTurn, fun r' hr' hend => ?_,
    fun task => ?_⟩
  · rcases List.mem_append.mp hr' with hr' | hr'
    · exact hmoved.ended r' hr' hend
    · obtain rfl := List.mem_singleton.mp hr'
      refine ⟨session, _, hmem, ?_⟩
      show (terminal r'.kind && r'.task == r'.task) = true
      rw [hend, beq_self_eq_true]
      rfl
  · rw [List.count_append]
    by_cases hr : r = .noLongerManaged task
    · -- an earlier answer of this kind would have ended the task
      have hzero : s.answers.count (.noLongerManaged task) = 0 := by
        rw [List.count_eq_zero]
        intro hearlier
        exact hnew task hr (h.ended _ hearlier hcritical)
      rw [hzero, hr, List.count_singleton_self]
    · rw [List.count_singleton]
      rw [if_neg (by simpa using hr), Nat.add_zero]
      exact h.once task

/-- The inquiries that are left are among those the `Init` came with. -/
theorem pending_next {tasks : List String} {l : List ServerMessage} {s : Reporting S}
    {acks : List (String × ℤ)} (hopen : ∀ task ∈ tasks, s.Open terminal acks task)
    (h : InTurn terminal s acks l) :
    InTurn terminal s acks
        (((Handling.next tasks).map fun h => ServerMessage.init h.tasks).toList ++ l) ∧
      acksOf (((Handling.next tasks).map fun h => ServerMessage.init h.tasks).toList ++ l)
        = acksOf l := by
  cases tasks with
  | nil => exact ⟨h, rfl⟩
  | cons task tasks => exact ⟨⟨hopen, h⟩, rfl⟩

/-- While an `Init` is handled, the tasks it asks about and that were not looked up are open. -/
theorem Heeded.handled {s : Inquiring S} (h : s.Heeded terminal codec loads name)
    {handling : Handling} (hhandling : s.handling = some handling) :
    (∀ task ∈ handling.tasks, s.reporting.Open terminal s.reporting.ledger.acks task) ∧
      InTurn terminal s.reporting s.reporting.ledger.acks (s.inbound ++ s.downlink) ∧
      ∀ a ∈ acksOf (s.inbound ++ s.downlink), a ∈ S.acks s.reporting.server := by
  have hturn := h.inTurn
  have hsent := h.sent
  rw [pending_eq, hhandling] at hturn hsent
  exact ⟨hturn.1, hturn.2, hsent⟩

/-- The `Init` goes on with fewer inquiries. -/
theorem Heeded.next {s : Inquiring S} (h : s.Heeded terminal codec loads name)
    {handling : Handling} (hhandling : s.handling = some handling) {tasks : List String}
    (htasks : tasks ⊆ handling.tasks) :
    Heeded terminal codec loads name { s with handling := Handling.next tasks } := by
  obtain ⟨hopen, hturn, hsent⟩ := h.handled hhandling
  obtain ⟨hnext, hacks⟩ := pending_next (fun task htask => hopen task (htasks htask)) hturn
  refine h.pass rfl rfl ?_ ?_
  · rw [pending_eq]
    exact hnext
  · rw [pending_eq]
    show ∀ a ∈ acksOf (_ ++ (s.inbound ++ s.downlink)), _
    rw [hacks]
    exact hsent

end Inquiring

end Rekuest
