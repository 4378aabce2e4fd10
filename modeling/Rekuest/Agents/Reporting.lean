import Rekuest.Agents.Restart
import Rekuest.Agents.ResendOrder
import Rekuest.Lib.Delivery

/-!
# Reporting to the server

The whole way of a numbered frame: emitted by one of an agent name's processes, retained in memory
and in the journal file, put in line, sent over one of the process's connections, read by the
server and acked. Processes end and start again, connections drop inside a send, `Init`s are
handled late, acks get lost, and the store may fail.
-/

namespace Rekuest

open Runs

/-! ## The frames of a session -/

/-- What a session emitted, nothing if there is none of that id. -/
def Ledger.framesOf {φ : Type*} (L : Ledger φ) (session : String) : List (ℤ × φ) :=
  ((L.sessions.find? fun σ => σ.id = session).map SessionLog.frames).getD []

namespace Ledger

variable {φ : Type*} {L L' : Ledger φ}

theorem WellFormed.framesOf_eq (h : L.WellFormed) {σ : SessionLog φ} (hσ : σ ∈ L.sessions) :
    L.framesOf σ.id = σ.frames := by
  rw [framesOf]
  obtain ⟨τ, hτ⟩ : ∃ τ, (L.sessions.find? fun τ => τ.id = σ.id) = some τ := by
    rw [← Option.isSome_iff_exists, List.find?_isSome]
    exact ⟨σ, hσ, by simp⟩
  have hid : τ.id = σ.id := by simpa using List.find?_some hτ
  rw [hτ, h.session_unique (List.mem_of_find?_eq_some hτ) hσ hid]
  rfl

/-- A frame is of a session that there is. -/
theorem exists_of_mem_framesOf {session : String} {f : ℤ × φ} (hf : f ∈ L.framesOf session) :
    ∃ σ ∈ L.sessions, σ.id = session ∧ f ∈ σ.frames := by
  rw [framesOf] at hf
  cases hfind : L.sessions.find? fun σ => σ.id = session with
  | none =>
    rw [hfind] at hf
    cases hf
  | some σ =>
    rw [hfind] at hf
    exact ⟨σ, List.mem_of_find?_eq_some hfind, by simpa using List.find?_some hfind, hf⟩

theorem highest_eq_watermark (session : String) :
    L.highest session = Delivery.watermark (L.framesOf session) := by
  rw [highest, framesOf]
  cases L.sessions.find? fun σ => σ.id = session <;> rfl

theorem framesOf_astart {session : String} {created : ℚ}
    (hs : L.step (.astart session created) = some L') : L'.framesOf = L.framesOf := by
  obtain ⟨-, hnew, -, hsessions⟩ := sessions_astart hs
  funext s
  rw [framesOf, framesOf, hsessions, List.find?_append]
  cases hfind : L.sessions.find? fun σ => σ.id = s with
  | some σ => rfl
  | none =>
    by_cases hid : session = s
    · simp [hid]
    · simp [hid]

theorem framesOf_emit (h : L.WellFormed) {pos : ℤ} {frame : φ} {now : ℚ} {σ : SessionLog φ}
    (hcurrent : L.current = some σ) (hs : L.step (.emit pos frame now) = some L') :
    L'.framesOf
      = Function.update L.framesOf σ.id (L.framesOf σ.id ++ [(pos, frame)]) := by
  obtain ⟨τ, -, hτ, -, hL'⟩ := emit_eq_some hs
  obtain rfl := Option.some.inj (hcurrent.symm.trans hτ)
  have hold := sessions_of_current hcurrent
  have hnew : L'.sessions = L.past ++ [{ σ with frames := σ.frames ++ [(pos, frame)] }] := by
    rw [hL']
    rfl
  have hw' := wellFormed_step h hs
  funext s
  by_cases hid : s = σ.id
  · subst hid
    rw [Function.update_self, h.framesOf_eq (σ := σ) (by rw [hold]; simp)]
    exact hw'.framesOf_eq (σ := { σ with frames := σ.frames ++ [(pos, frame)] })
      (by rw [hnew]; simp)
  · rw [Function.update_of_ne hid, framesOf, framesOf, hold, hnew, List.find?_append,
      List.find?_append]
    simp [Ne.symm hid]

/-- After an emit, a session's frames are those it had, and the new one if it is the running one. -/
theorem mem_framesOf_emit (h : L.WellFormed) {pos : ℤ} {frame : φ} {now : ℚ} {σ : SessionLog φ}
    (hcurrent : L.current = some σ) (hs : L.step (.emit pos frame now) = some L')
    {session : String} {f : ℤ × φ} :
    f ∈ L'.framesOf session ↔ f ∈ L.framesOf session ∨ (session = σ.id ∧ f = (pos, frame)) := by
  rw [framesOf_emit h hcurrent hs]
  by_cases hid : session = σ.id
  · subst hid
    rw [Function.update_self, List.mem_append, List.mem_singleton]
    simp
  · rw [Function.update_of_ne hid]
    simp [hid]

/-- An owed frame was emitted. -/
theorem WellFormed.mem_framesOf (h : L.WellFormed) {o : OwedFrame φ} (ho : o ∈ L.owed) :
    (o.pos, o.frame) ∈ L.framesOf o.session := by
  obtain ⟨σ, hσ, hid, -, hf, -⟩ := mem_owed.mp ho
  rw [← hid, h.framesOf_eq hσ]
  exact hf

/-- The largest ack of a session is below what every ack of it is below. -/
theorem largestAck_lt {session : String} {n : ℤ} (hn : 0 < n)
    (h : ∀ a ∈ L.acks, a.1 = session → a.2 < n) : L.largestAck session < n := by
  have hmem : ∀ a ∈ L.acks.filter fun a => a.1 = session, a.2 < n := by
    intro a ha
    obtain ⟨ha, hid⟩ := List.mem_filter.mp ha
    exact h a ha (by simpa using hid)
  unfold largestAck
  generalize (L.acks.filter fun a => a.1 = session) = l at hmem ⊢
  induction l with
  | nil => exact hn
  | cons a l ih =>
    exact max_lt (hmem a List.mem_cons_self) (ih fun b hb => hmem b (List.mem_cons_of_mem a hb))

/-- A frame of a session is owed, unless an ack covers it. -/
theorem WellFormed.owed_or_acked (h : L.WellFormed) {session : String} {f : ℤ × φ}
    (hf : f ∈ L.framesOf session) :
    (∃ o ∈ L.owed, o.session = session ∧ o.pos = f.1 ∧ o.frame = f.2)
      ∨ ∃ a ∈ L.acks, a.1 = session ∧ f.1 ≤ a.2 := by
  obtain ⟨σ, hσ, rfl, hmem⟩ := exists_of_mem_framesOf hf
  by_cases hack : L.largestAck σ.id < f.1
  · exact Or.inl ⟨⟨σ.id, σ.created, f.1, f.2⟩,
      mem_owed.mpr ⟨σ, hσ, rfl, rfl, hmem, hack⟩, rfl, rfl, rfl⟩
  · right
    by_contra hnone
    -- positions start at 1, so an ack that reaches this one was heard
    apply hack
    apply largestAck_lt (h.positive σ hσ f hmem)
    intro a ha hid
    by_contra hle
    exact hnone ⟨a, ha, hid, not_lt.mp hle⟩

end Ledger

/-! ## Terminal reports that wait for their ack -/

/-- The frame is one of `messages.TERMINAL_REPORTS`, about `task`. -/
def FromAgentMessage.ends (terminal : TaskReport → Bool) (task : String)
    (frame : FromAgentMessage) : Bool :=
  match frame.report with
  | .task kind t => terminal kind && t == task
  | _ => false

namespace RekuestAgent

variable (terminal : TaskReport → Bool) (codec : FrameCodec)

/-- `_retained_terminal_reports`. -/
def retainedTerminalReports (a : RekuestAgent) (task : String) : List FromAgentMessage :=
  a.retainedFrames.filter (FromAgentMessage.ends terminal task)

/-- `_has_retained_terminal_report`. -/
def hasRetainedTerminalReport (a : RekuestAgent) (task : String) : Bool :=
  !(a.retainedTerminalReports terminal task).isEmpty

/-- `_aresend_retained_report`: what it puts in line, with the keys of the frames. -/
def resendRetainedReport (a : RekuestAgent) (task : String) : List Outgoing :=
  a.resendOrder.filterMap fun key => ((a.retained.get? key).filter
    (FromAgentMessage.ends terminal task)).map fun frame => ⟨codec.dump frame, some key⟩

/-- The texts are those of the retained terminal reports. -/
theorem map_text_resendRetainedReport (a : RekuestAgent) (task : String) :
    (a.resendRetainedReport terminal codec task).map Outgoing.text
      = (a.retainedTerminalReports terminal task).map codec.dump := by
  unfold resendRetainedReport retainedTerminalReports retainedFrames
  rw [List.map_filterMap, List.filter_filterMap, List.map_filterMap]
  refine List.filterMap_congr fun key _ => ?_
  rw [Option.map_map]
  rfl

/-- A frame sent again carries a retained key and that frame's text. -/
theorem mem_resendRetainedReport {a : RekuestAgent} {task : String} {f : Outgoing}
    (hf : f ∈ a.resendRetainedReport terminal codec task) :
    ∃ key frame, a.retained.get? key = some frame ∧ f = ⟨codec.dump frame, some key⟩ := by
  obtain ⟨key, -, hframe⟩ := List.mem_filterMap.mp hf
  obtain ⟨frame, hget, rfl⟩ := Option.map_eq_some_iff.mp hframe
  exact ⟨key, frame, (Option.filter_eq_some_iff.mp hget).1, rfl⟩

end RekuestAgent

/-! ## The server

What reads the frames is no part of the repository, so it is a parameter. The agent relies on this
of it: it "skips what it has already projected, and acks again", and an ack of a position means
that everything of the session up to there is projected. -/

/-- A numbered frame as the server reads it: its session, its position and its text. -/
def Outgoing.item (f : Outgoing) : Option (String × ℤ × String) :=
  f.entry.map fun key => (key.1, key.2, f.text)

/-- A server, as far as an agent's reports go. -/
structure ReportServer where
  State : Type
  start : State
  /-- What was projected of each session, in order. -/
  projected : State → String → List (ℤ × String)
  /-- Every `JournalAck` sent. -/
  acks : State → List (String × ℤ)
  /-- Read a numbered frame. -/
  receive : State → String × ℤ × String → State
  /-- Whether an `Init` asks about a task. -/
  asks : State → String → Bool

/-- What the agent relies on. -/
structure ReportServer.Contract (S : ReportServer) : Prop where
  fresh : S.projected S.start = fun _ => []
  unsent : S.acks S.start = []
  receives : ∀ v f, Delivery.Receives (S.projected v) (S.acks v) f.1 f.2
    (S.projected (S.receive v f)) (S.acks (S.receive v f))

/-- One event of the ledger, done by the code with a store some of whose calls fail. -/
def Process.stepOn (codec : FrameCodec) (name : String) (faults : StoreFaults) (p : Process) :
    LedgerAct FromAgentMessage → Option Process
  | .astart session created =>
    match p.agent with
    | some _ => none
    | none =>
      match (RekuestAgent.new name session).astart codec faults session created p.db with
      | .ok (a, db) => some ⟨db, some a⟩
      | .error _ => none
  | .emit pos frame now =>
    p.agent.map fun a =>
      let (a, db) := a.retainEmitted codec faults frame (some ⟨a.currentSession, pos⟩) now p.db
      ⟨db, some a⟩
  | .ack session pos =>
    p.agent.map fun a =>
      let (a, db) := a.journalAck codec faults session pos p.db
      ⟨db, some a⟩
  | .exit => p.agent.map fun _ => ⟨p.db, none⟩

theorem Process.stepOn_none (codec : FrameCodec) (name : String) (p : Process)
    (act : LedgerAct FromAgentMessage) :
    p.stepOn codec name .none act = Process.step codec name p act := by
  cases act <;> rfl

/-- Everything between an agent name's processes and its server. A connection is named by the
lifetime of the agent it belongs to and its number in it. -/
structure Reporting (S : ReportServer) where
  /-- What happened so far. -/
  ledger : Ledger FromAgentMessage
  /-- Which calls to the store fail at the moment. -/
  store : StoreFaults
  /-- The journal file, and the process that runs. -/
  process : Process
  /-- The running process's link, a new one if none runs. -/
  link : Link Outgoing
  /-- What went out in each of the lifetimes that ended. -/
  past : List (List (ℕ × Queued Outgoing))
  server : S.State
  /-- How many numbered frames the server read from each connection. -/
  received : ℕ × ℕ → ℕ

/-- What happens between them. A process may end at any moment; one that ends inside a send is one
whose connection drops there first. -/
inductive ReportingAct
  | astart (session : String) (created : ℚ)
  | emit (pos : ℤ) (message : FromAgentMessage) (now : ℚ)
  /-- The agent enqueues a frame without a number. -/
  | enqueue (text : String)
  /-- A redelivered `Assign` gets the task's unconfirmed report again. -/
  | resendReport (task : String)
  /-- One of the acks the server sent arrives: any of them, in any order, any number of times. -/
  | journalAck (session : String) (pos : ℤ)
  /-- From now on these calls to the store fail. -/
  | storeFails (faults : StoreFaults)
  /-- The connection task or the sender moves. -/
  | line (act : TransportAct Outgoing)
  | receiveInit
  | takeInit
  | aafterInit
  | exit
  /-- The server reads the next numbered frame of a connection, maybe one long closed. -/
  | serverReads (lifetime connection : ℕ)

namespace Reporting

variable {S : ReportServer}

/-- Before the first process, over a journal file. -/
def start (S : ReportServer) (db : JournalDb) : Reporting S :=
  ⟨Ledger.empty, .none, ⟨db, none⟩, Link.start, [], S.start, fun _ => 0⟩

/-- What went out in a lifetime. -/
def wireOf (s : Reporting S) (lifetime : ℕ) : List (ℕ × Queued Outgoing) :=
  if lifetime = s.past.length then s.link.transport.wire else (s.past[lifetime]?).getD []

/-- The numbered frames that went out on a connection, in order. -/
def channel (s : Reporting S) (connection : ℕ × ℕ) : List (String × ℤ × String) :=
  (s.wireOf connection.1).filterMap fun p =>
    if p.1 = connection.2 then p.2.frame.item else none

section

variable (terminal : TaskReport → Bool) (codec : FrameCodec) (loads : String → Option Json)
  (name : String)

/-- One event. -/
def step (s : Reporting S) : ReportingAct → Option (Reporting S)
  | .astart session created =>
    (s.ledger.step (.astart session created)).bind fun ledger =>
      (s.process.stepOn codec name s.store (.astart session created)).map fun process =>
        { s with ledger := ledger, process := process }
  | .emit pos message now =>
    s.process.agent.bind fun a => (s.ledger.step (.emit pos message now)).bind fun ledger =>
      (s.process.stepOn codec name s.store (.emit pos message now)).bind fun process =>
        (s.link.step (Outbound.isJournaled loads)
          (.line (.delayaction ⟨codec.dump message, some (a.currentSession, pos)⟩))).map fun link =>
          { s with ledger := ledger, process := process, link := link }
  | .enqueue text =>
    s.process.agent.bind fun _ =>
      (s.link.step (Outbound.isJournaled loads) (.line (.delayaction ⟨text, none⟩))).map fun link =>
        { s with link := link }
  | .resendReport task =>
    s.process.agent.bind fun a =>
      (exec (Link.step (Outbound.isJournaled loads)) s.link
        ((a.resendRetainedReport terminal codec task).map fun f => .line (.delayaction f))).map
        fun link => { s with link := link }
  | .journalAck session pos =>
    if (session, pos) ∈ S.acks s.server then
      (s.process.stepOn codec name s.store (.ack session pos)).map fun process =>
        { s with
          ledger := { s.ledger with acks := s.ledger.acks ++ [(session, pos)] }
          process := process }
    else none
  | .storeFails faults => some { s with store := faults }
  | .line act =>
    s.process.agent.bind fun _ =>
      if act.ofConnection then
        (s.link.step (Outbound.isJournaled loads) (.line act)).map fun link =>
          { s with link := link }
      else none
  | .receiveInit =>
    s.process.agent.bind fun _ =>
      (s.link.step (Outbound.isJournaled loads) .receiveInit).map fun link =>
        { s with link := link }
  | .takeInit =>
    s.process.agent.bind fun _ =>
      (s.link.step (Outbound.isJournaled loads) .takeInit).map fun link => { s with link := link }
  | .aafterInit =>
    s.process.agent.bind fun a =>
      (s.link.step (Outbound.isJournaled loads) (.aafterInit (a.resent codec))).map fun link =>
        { s with link := link }
  | .exit =>
    (s.ledger.step .exit).bind fun ledger =>
      (s.process.stepOn codec name s.store .exit).map fun process =>
        { s with
          ledger := ledger
          process := process
          link := Link.start
          past := s.past ++ [s.link.transport.wire] }
  | .serverReads lifetime connection =>
    ((s.channel (lifetime, connection))[s.received (lifetime, connection)]?).map fun f =>
      { s with
        server := S.receive s.server f
        received := Function.update s.received (lifetime, connection)
          (s.received (lifetime, connection) + 1) }

/-- What is emitted decodes again, and its text carries a position. -/
def Numbers : ReportingAct → Prop
  | .emit _ message _ =>
    codec.RoundTrips message ∧ journaled loads (codec.dump message) = true
  | _ => True

end

end Reporting

/-- No call to the store begins to fail. -/
def ReportingAct.StoreWorks : ReportingAct → Prop
  | .storeFails faults => faults = .none
  | _ => True

end Rekuest
