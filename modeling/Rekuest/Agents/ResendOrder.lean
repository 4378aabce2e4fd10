import Rekuest.Agents.Transport.Ahead

/-!
# Resending and the frames in between

The agent retains the frames the journal numbered and sends them again after each `Init`; frames
without a number only wait in the transport. Both go through one line, so the order of a frame and
a report before it can be followed from the line to the wire.
-/

namespace Rekuest

open Runs

/-! ## The agent and its line -/

/-- A frame handed to the transport, with the session and position it was numbered with. -/
structure Outgoing where
  text : String
  entry : Option (String × ℤ)

/-- `_aresend_retained`, with the keys of the frames. -/
def RekuestAgent.resent (codec : FrameCodec) (a : RekuestAgent) : List Outgoing :=
  a.resendOrder.filterMap fun key => (a.retained.get? key).map fun frame =>
    ⟨codec.dump frame, some key⟩

/-- The texts are those that `_aresend_retained` enqueues. -/
theorem RekuestAgent.map_text_resent (codec : FrameCodec) (a : RekuestAgent) :
    (a.resent codec).map Outgoing.text = a.aresendRetained codec := by
  rw [resent, aresendRetained, List.map_filterMap]
  refine List.filterMap_congr fun key _ => ?_
  rw [Option.map_map]
  rfl

/-- Everything retained is re-sent, and nothing without a key. -/
theorem RekuestAgent.mem_resent (codec : FrameCodec) (a : RekuestAgent) :
    (∀ f ∈ a.resent codec, f.entry ≠ none)
      ∧ ∀ key ∈ a.retained.keys, ∃ f ∈ a.resent codec, f.entry = some key := by
  constructor
  · intro f hf
    obtain ⟨key, -, hframe⟩ := List.mem_filterMap.mp hf
    obtain ⟨frame, -, rfl⟩ := Option.map_eq_some_iff.mp hframe
    exact Option.some_ne_none key
  · intro key hkey
    obtain ⟨frame, hframe⟩ := Dict.mem_keys.mp hkey
    refine ⟨⟨codec.dump frame, some key⟩, List.mem_filterMap.mpr ⟨key, mem_orderBy.mpr hkey, ?_⟩,
      rfl⟩
    rw [hframe]
    rfl

/-- The agent, its link and its journal file. -/
structure Outbound where
  db : JournalDb
  agent : RekuestAgent
  link : Link Outgoing
  /-- The first index after each retained frame was enqueued; 0 for what an earlier run left. -/
  since : String × ℤ → ℕ

/-- What happens to the frames the agent hands out. -/
inductive OutboundAct
  /-- The agent emits a frame the journal numbered. -/
  | emit (pos : ℤ) (message : FromAgentMessage) (now : ℚ) (faults : StoreFaults)
  /-- The agent enqueues a frame without a number. -/
  | enqueue (text : String)
  /-- A `JournalAck` arrives. -/
  | journalAck (session : String) (pos : ℤ) (faults : StoreFaults)
  /-- The connection task or the sender moves. -/
  | line (act : TransportAct Outgoing)
  | receiveInit
  | takeInit
  /-- The agent handles the `Init` it took: `_aafter_init`. -/
  | aafterInit

namespace Outbound

/-- An agent that has started, before its first connection. -/
def start (db : JournalDb) (agent : RekuestAgent) : Outbound :=
  ⟨db, agent, Link.start, fun _ => 0⟩

section

variable (codec : FrameCodec) (loads : String → Option Json)

/-- What `discard_journaled` takes for a frame with a position. -/
def isJournaled (f : Outgoing) : Bool := journaled loads f.text

/-- One event. -/
def step (s : Outbound) : OutboundAct → Option Outbound
  | .emit pos message now faults =>
    let key := (s.agent.currentSession, pos)
    let retained := s.agent.retainEmitted codec faults message (some ⟨key.1, key.2⟩) now s.db
    (s.link.step (isJournaled loads) (.line (.delayaction ⟨codec.dump message, some key⟩))).map
      fun link => ⟨retained.2, retained.1, link,
        Function.update s.since key (s.link.transport.enqueued.length + 1)⟩
  | .enqueue text =>
    (s.link.step (isJournaled loads) (.line (.delayaction ⟨text, none⟩))).map
      fun link => { s with link := link }
  | .journalAck session pos faults =>
    let acked := s.agent.journalAck codec faults session pos s.db
    some { s with db := acked.2, agent := acked.1 }
  | .line act =>
    if act.ofConnection then
      (s.link.step (isJournaled loads) (.line act)).map fun link => { s with link := link }
    else none
  | .receiveInit =>
    (s.link.step (isJournaled loads) .receiveInit).map fun link => { s with link := link }
  | .takeInit => (s.link.step (isJournaled loads) .takeInit).map fun link => { s with link := link }
  | .aafterInit =>
    (s.link.step (isJournaled loads) (.aafterInit (s.agent.resent codec))).map
      fun link => { s with link := link }

/-- The `Init` under handling finds no frame without a number waiting that was enqueued after a
frame still retained which has not gone out on this connection; or no sender is there to send. -/
def NothingOvertakes (s : Outbound) : OutboundAct → Prop
  | .aafterInit =>
    let t := s.link.transport
    t.sender = .off ∨ t.sender = .ended
      ∨ ∀ u ∈ t.held.toList ++ t.sendQueue.items, u.frame.entry = none →
        journaled loads u.frame.text = false →
        ∀ key ∈ s.agent.retained.keys, s.since key ≤ u.index →
          t.WentOut Outgoing.entry key ∨ ∃ f, t.inFlight = some f ∧ f.frame.entry = some key
  | _ => True

/-- No frame without a number goes out on a connection before a retained frame that was enqueued
before it. -/
def KeepsOrder (s : Outbound) (act : OutboundAct) : Prop :=
  ∀ s' c u, s.step codec loads act = some s' →
    s'.link.transport.wire = s.link.transport.wire ++ [(c, u)] → u.frame.entry = none →
    ∀ key ∈ s.agent.retained.keys, s.since key ≤ u.index →
      ∃ q, (c, q) ∈ s.link.transport.wire ∧ q.frame.entry = some key

end

/-! ## In every run -/

variable {codec : FrameCodec} {loads : String → Option Json}

/-- A frame without a number that was enqueued after the retained frame of a key. -/
def Follows (since : String × ℤ → ℕ) (key : String × ℤ) (u : Queued Outgoing) : Prop :=
  u.frame.entry = none ∧ since key ≤ u.index

/-- What holds while nothing overtakes. -/
structure Led (s : Outbound) : Prop where
  storeOpen : s.agent.storeOpen = true
  inOrder : s.link.transport.InOrder
  ahead : s.link.transport.MaySend → s.link.transport.Ahead Outgoing.entry
    (· ∈ s.agent.retained.keys) (Follows s.since)

theorem led_start (db : JournalDb) {agent : RekuestAgent} (h : agent.storeOpen = true) :
    (start db agent).Led :=
  ⟨h, Transport.inOrder_start, fun hsend => by cases hsend⟩

/-- What an event does to the link. -/
theorem transport_of_line {k k' : Link Outgoing} {numbered : Outgoing → Bool}
    {act : TransportAct Outgoing} (hs : k.step numbered (.line act) = some k') :
    act.ofTransport = true ∧ k.transport.step numbered act = some k'.transport := by
  simp only [Link.step, Option.ite_none_right_eq_some, Option.map_eq_some_iff] at hs
  obtain ⟨hown, t, ht, rfl⟩ := hs
  exact ⟨hown, ht⟩

theorem transport_of_init {k k' : Link Outgoing} {numbered : Outgoing → Bool}
    {act : LinkAct Outgoing} (hact : act = .receiveInit ∨ act = .takeInit)
    (hs : k.step numbered act = some k') : k'.transport = k.transport := by
  rcases hact with rfl | rfl
  all_goals
    simp only [Link.step] at hs
    split at hs
    all_goals
      cases hs
      try rfl

theorem transport_of_aafterInit {k k' : Link Outgoing} {numbered : Outgoing → Bool}
    {resent : List Outgoing} (hs : k.step numbered (.aafterInit resent) = some k') :
    exec (Transport.step numbered) k.transport (Rekuest.aafterInit resent)
      = some k'.transport := by
  simp only [Link.step, Option.bind_eq_some_iff, Option.map_eq_some_iff] at hs
  obtain ⟨init, -, t, ht, rfl⟩ := hs
  exact ht

/-- Retaining a frame keeps the store open and adds its key. -/
theorem keys_retainEmitted (codec : FrameCodec) {a : RekuestAgent} (h : a.storeOpen = true)
    (faults : StoreFaults) (message : FromAgentMessage) (entry : JournalEntry) (now : ℚ)
    (db : JournalDb) :
    (a.retainEmitted codec faults message (some entry) now db).1.storeOpen = true
      ∧ ∀ key ∈ (a.retainEmitted codec faults message (some entry) now db).1.retained.keys,
        key = (entry.sessionId, entry.pos) ∨ key ∈ a.retained.keys := by
  obtain ⟨created, heq⟩ :=
    RekuestAgent.retainEmitted_of_open codec h faults message entry now db
  rw [heq]
  refine ⟨h, fun key hkey => ?_⟩
  obtain ⟨frame, hframe⟩ := Dict.mem_keys.mp hkey
  refine (Dict.get?_set_eq_some.mp hframe).imp And.left fun hold => ?_
  exact Dict.mem_keys.mpr ⟨frame, hold.2⟩

/-- An ack keeps the store open and adds no key. -/
theorem keys_journalAck (codec : FrameCodec) {a : RekuestAgent} (h : a.storeOpen = true)
    (faults : StoreFaults) (session : String) (pos : ℤ) (db : JournalDb) :
    (a.journalAck codec faults session pos db).1.storeOpen = true
      ∧ ∀ key ∈ (a.journalAck codec faults session pos db).1.retained.keys,
        key ∈ a.retained.keys := by
  rw [RekuestAgent.journalAck_of_open codec h faults session pos db]
  refine ⟨h, fun key hkey => ?_⟩
  obtain ⟨frame, hframe⟩ := Dict.mem_keys.mp hkey
  rw [Dict.get?_filterKeys] at hframe
  split at hframe
  · exact Dict.mem_keys.mpr ⟨frame, hframe⟩
  · cases hframe

/-- Handling an `Init` where nothing overtakes puts what is retained ahead. -/
theorem ahead_of_nothingOvertakes {s : Outbound} (h : s.Led)
    (hc : s.NothingOvertakes loads .aafterInit) {t : Transport Outgoing}
    (ht : exec (Transport.step (isJournaled loads)) s.link.transport
      (Rekuest.aafterInit (s.agent.resent codec)) = some t) (hsend : t.MaySend) :
    t.Ahead Outgoing.entry (· ∈ s.agent.retained.keys) (Follows s.since) := by
  obtain ⟨hsender, -⟩ := Transport.exec_aafterInit_frame ht
  obtain ⟨hkeyed, hall⟩ := RekuestAgent.mem_resent codec s.agent
  have hnone : ¬ (s.link.transport.sender = .off ∨ s.link.transport.sender = .ended) := by
    rw [← hsender]
    rintro (hoff | hended)
    · rw [Transport.MaySend, hoff] at hsend
      exact hsend
    · rw [Transport.MaySend, hended] at hsend
      exact hsend
  have hlate := (hc.resolve_left fun hoff => hnone (Or.inl hoff)).resolve_left fun hended =>
    hnone (Or.inr hended)
  refine Transport.ahead_aafterInit h.inOrder h.ahead ?_ hall ?_ ht
  · rintro u hu hplain key hkey ⟨hentry, hsince⟩
    exact hlate u hu hentry hplain key hkey hsince
  · -- what is re-sent has a number
    rintro new hframes - u hu key - ⟨hentry, -⟩
    exact absurd hentry (hkeyed u.frame (hframes ▸ List.mem_map_of_mem hu))

/-- A frame that is emitted comes after the frames in line. -/
theorem ahead_emit {s : Outbound} (h : s.Led) {frame : Outgoing} {key : String × ℤ}
    (hkey : frame.entry = some key) (hsend : s.link.transport.MaySend) :
    (s.link.transport.delayaction frame).Ahead Outgoing.entry
      (fun k => k = key ∨ k ∈ s.agent.retained.keys)
      (Follows (Function.update s.since key (s.link.transport.enqueued.length + 1))) := by
  refine (h.ahead hsend).emit h.inOrder hkey ?_ ?_
  · rintro k hk u ⟨hentry, hsince⟩
    rw [Function.update_of_ne hk] at hsince
    exact ⟨hentry, hsince⟩
  · rintro u hu ⟨hentry, hsince⟩
    rw [Function.update_self] at hsince
    rw [Transport.line_delayaction, List.mem_append, List.mem_singleton] at hu
    rcases hu with hu | rfl
    · have := h.inOrder.index_lt (h.inOrder.mem_enqueued hu)
      omega
    · rw [hkey] at hentry
      cases hentry

/-- Every event keeps what is retained ahead, where nothing overtakes. -/
theorem led_step {s s' : Outbound} (h : s.Led) {act : OutboundAct}
    (hc : s.NothingOvertakes loads act) (hs : s.step codec loads act = some s') : s'.Led := by
  cases act with
  | emit pos message now faults =>
    simp only [step, Option.map_eq_some_iff] at hs
    obtain ⟨k, hk, rfl⟩ := hs
    obtain ⟨-, ht⟩ := transport_of_line hk
    obtain ⟨hopen, hkeys⟩ := keys_retainEmitted codec h.storeOpen faults message
      ⟨s.agent.currentSession, pos⟩ now s.db
    refine ⟨hopen, Transport.inOrder_step h.inOrder ht, fun hsend => ?_⟩
    rw [← Option.some.inj ht] at hsend ⊢
    exact (ahead_emit h rfl hsend).mono hkeys
  | enqueue text =>
    simp only [step, Option.map_eq_some_iff] at hs
    obtain ⟨k, hk, rfl⟩ := hs
    obtain ⟨-, ht⟩ := transport_of_line hk
    refine ⟨h.storeOpen, Transport.inOrder_step h.inOrder ht, fun hsend => ?_⟩
    dsimp only at hsend ⊢
    rw [← Option.some.inj ht] at hsend ⊢
    exact (h.ahead hsend).enqueue h.inOrder _
  | journalAck session pos faults =>
    obtain rfl := Option.some.inj hs
    obtain ⟨hopen, hkeys⟩ := keys_journalAck codec h.storeOpen faults session pos s.db
    exact ⟨hopen, h.inOrder, fun hsend => (h.ahead hsend).mono hkeys⟩
  | line act =>
    simp only [step, Option.ite_none_right_eq_some, Option.map_eq_some_iff] at hs
    obtain ⟨hown, k, hk, rfl⟩ := hs
    obtain ⟨-, ht⟩ := transport_of_line hk
    exact ⟨h.storeOpen, Transport.inOrder_step h.inOrder ht, Transport.ahead_step h.ahead hown ht⟩
  | receiveInit =>
    simp only [step, Option.map_eq_some_iff] at hs
    obtain ⟨k, hk, rfl⟩ := hs
    have ht := transport_of_init (Or.inl rfl) hk
    exact ⟨h.storeOpen, by rw [ht]; exact h.inOrder, by rw [ht]; exact h.ahead⟩
  | takeInit =>
    simp only [step, Option.map_eq_some_iff] at hs
    obtain ⟨k, hk, rfl⟩ := hs
    have ht := transport_of_init (Or.inr rfl) hk
    exact ⟨h.storeOpen, by rw [ht]; exact h.inOrder, by rw [ht]; exact h.ahead⟩
  | aafterInit =>
    simp only [step, Option.map_eq_some_iff] at hs
    obtain ⟨k, hk, rfl⟩ := hs
    have ht := transport_of_aafterInit hk
    refine ⟨h.storeOpen, ?_, ahead_of_nothingOvertakes h hc ht⟩
    exact exec_invariant h.inOrder (fun _ _ _ h hs => Transport.inOrder_step h hs) ht

/-- Only the connection task and the sender put frames on the wire. -/
theorem wire_of_step {s s' : Outbound} {act : OutboundAct} (hs : s.step codec loads act = some s') :
    s'.link.transport.wire = s.link.transport.wire
      ∨ ∃ f, s.link.transport.sender = .sending f
        ∧ s'.link.transport.wire
          = s.link.transport.wire ++ [(s.link.transport.connection, f)] := by
  cases act with
  | emit pos message now faults =>
    simp only [step, Option.map_eq_some_iff] at hs
    obtain ⟨k, hk, rfl⟩ := hs
    exact Transport.step_wire (transport_of_line hk).2
  | enqueue text =>
    simp only [step, Option.map_eq_some_iff] at hs
    obtain ⟨k, hk, rfl⟩ := hs
    exact Transport.step_wire (transport_of_line hk).2
  | journalAck session pos faults =>
    obtain rfl := Option.some.inj hs
    exact Or.inl rfl
  | line act =>
    simp only [step, Option.ite_none_right_eq_some, Option.map_eq_some_iff] at hs
    obtain ⟨-, k, hk, rfl⟩ := hs
    exact Transport.step_wire (transport_of_line hk).2
  | receiveInit =>
    simp only [step, Option.map_eq_some_iff] at hs
    obtain ⟨k, hk, rfl⟩ := hs
    exact Or.inl (by rw [transport_of_init (Or.inl rfl) hk])
  | takeInit =>
    simp only [step, Option.map_eq_some_iff] at hs
    obtain ⟨k, hk, rfl⟩ := hs
    exact Or.inl (by rw [transport_of_init (Or.inr rfl) hk])
  | aafterInit =>
    simp only [step, Option.map_eq_some_iff] at hs
    obtain ⟨k, hk, rfl⟩ := hs
    exact Or.inl (Transport.exec_aafterInit_frame (transport_of_aafterInit hk)).2.2.2

/-- While what is retained is ahead, each event keeps the order. -/
theorem Led.keepsOrder {s : Outbound} (h : s.Led) (act : OutboundAct) :
    s.KeepsOrder codec loads act := by
  intro s' c u hs hwire hentry key hkey hsince
  obtain hsame | ⟨f, hf, hsent⟩ := wire_of_step hs
  · rw [hsame] at hwire
    exact absurd hwire (by simp)
  · obtain ⟨rfl, rfl⟩ : s.link.transport.connection = c ∧ f = u := by
      simpa using List.append_cancel_left (hsent.symm.trans hwire)
    have hmay : s.link.transport.MaySend := by rw [Transport.MaySend, hf]; trivial
    exact (h.ahead hmay).sending h.inOrder hf hkey ⟨hentry, hsince⟩

/-- In every run whose `Init`s are handled while nothing waits that was enqueued after a frame
still retained, no frame without a number goes out on a connection before a retained frame that
was enqueued before it. -/
theorem keepsOrder_of_nothingOvertakes (codec : FrameCodec) (loads : String → Option Json)
    (db : JournalDb) {agent : RekuestAgent} (hopen : agent.storeOpen = true)
    {acts : List OutboundAct}
    (hmeets : Meets (step codec loads) (NothingOvertakes loads) (start db agent) acts) :
    Meets (step codec loads) (KeepsOrder codec loads) (start db agent) acts := by
  rintro pre act post s rfl hs
  have h : s.Led := exec_invariant_of_meets (led_start db hopen)
    (fun _ _ _ h hc hstep => led_step h hc hstep) (hmeets.of_prefix ⟨act :: post, rfl⟩) hs
  exact h.keepsOrder act

/-- Every numbered frame is written with a position. -/
def onePos : FrameCodec := ⟨fun _ => "\x7b\"pos\":1\x7d", fun _ => none⟩

/-- A started agent with nothing retained. -/
def started : RekuestAgent := { RekuestAgent.new "app" "s1" with storeOpen := true }

/-- A request enqueued before a report; then the first connection. -/
def requestFirst : List OutboundAct :=
  [.enqueue "\x7b\x7d", .emit 1 ⟨.task .progress "t", none⟩ 0 .none, .line (.connect true),
    .receiveInit, .takeInit, .aafterInit, .line .wake, .line .take, .line .sent]

theorem keepsOrder_of_nothingOvertakes_requestFirst :
    Meets (step onePos Transport.decodePos) (KeepsOrder onePos Transport.decodePos)
      (start JournalDb.empty started) requestFirst := by
  refine keepsOrder_of_nothingOvertakes onePos Transport.decodePos JournalDb.empty rfl ?_
  iterate 5
    refine meets_cons trivial ?_
    rintro s ⟨⟩
  refine meets_cons (Or.inr (Or.inr ?_)) ?_
  · intro u hu hentry _ key hkey hsince
    obtain rfl : key = ("s1", 1) := List.mem_singleton.mp hkey
    obtain rfl | hu := List.mem_cons.mp hu
    · exact absurd hsince (by decide)
    · obtain rfl := List.mem_singleton.mp hu
      cases hentry
  · rintro s ⟨⟩
    iterate 3
      refine meets_cons trivial ?_
      rintro s ⟨⟩
    exact meets_nil _

/-- A report and then a request are enqueued, and the connection drops before either is sent. -/
def reportFirst : List OutboundAct :=
  [.line (.connect true), .receiveInit, .takeInit, .aafterInit, .line .wake,
    .emit 1 ⟨.task .progress "t", none⟩ 0 .none, .enqueue "\x7b\x7d", .line (.drop false),
    .line (.connect true), .receiveInit, .takeInit, .aafterInit, .line .wake, .line .take]

/-- On the next connection the request goes out first. -/
theorem request_overtakes_report :
    ∃ s s', exec (step onePos Transport.decodePos) (start JournalDb.empty started) reportFirst
        = some s
      ∧ s.agent.retained.keys = [("s1", 1)]
      ∧ exec (step onePos Transport.decodePos) s [.line .sent, .line .take, .line .sent] = some s'
      ∧ s'.link.transport.wire.map (fun p => (p.1, p.2.frame.text))
        = [(2, "\x7b\x7d"), (2, "\x7b\"pos\":1\x7d")]
      ∧ ¬ s.KeepsOrder onePos Transport.decodePos (.line .sent) := by
  refine ⟨_, _, rfl, rfl, rfl, rfl, fun h => ?_⟩
  obtain ⟨q, hq, -⟩ := h _ 2 ⟨1, ⟨"\x7b\x7d", none⟩⟩ rfl rfl rfl ("s1", 1) (by decide) (by decide)
  cases hq

end Outbound

end Rekuest
