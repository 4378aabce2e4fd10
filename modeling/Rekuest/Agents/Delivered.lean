import Rekuest.Agents.Reporting

/-!
# What the server projects

The agent's processes and the server refine cumulative delivery: a session is a stream, a
connection a channel. A retained frame is ahead of the later ones of its session on every
connection that may send, so what the server projected of a session is always the start of what
the session emitted, and what it did not project is still retained.
-/

namespace Rekuest

open Runs

namespace Reporting

variable {S : ReportServer}

/-- As cumulative delivery. -/
def view (codec : FrameCodec) (s : Reporting S) : Delivery.Net String (ℕ × ℕ) String where
  emitted session := (s.ledger.framesOf session).map fun f => (f.1, codec.dump f.2)
  channel := s.channel
  taken := s.received
  log := S.projected s.server
  acks := S.acks s.server

/-- The frame of a key is of the session of `f`, and comes first. -/
def Before (key : String × ℤ) (f : Outgoing) : Prop := ∃ n, f.entry = some (key.1, n) ∧ key.2 < n

/-- The frame of a key is owed. -/
def Owes (s : Reporting S) (key : String × ℤ) : Prop :=
  ∃ o ∈ s.ledger.owed, (o.session, o.pos) = key

/-- What every run keeps. -/
structure Sustained (codec : FrameCodec) (loads : String → Option Json) (name : String)
    (s : Reporting S) : Prop where
  refines : Refines codec name s.ledger s.process
  store : s.store = .none
  sound : Delivery.Sound (s.view codec)
  acked : ∀ a ∈ s.ledger.acks, a ∈ S.acks s.server
  idle : s.process.agent = none → s.link = Link.start
  numbered : ∀ session, ∀ f ∈ s.ledger.framesOf session, journaled loads (codec.dump f.2) = true
  inOrder : s.link.transport.InOrder
  inLine : ∀ q ∈ s.link.transport.line, ∀ key, q.frame.entry = some key →
    (key.2, q.frame.text) ∈ (s.view codec).emitted key.1 ∧ journaled loads q.frame.text = true
  ahead : s.link.transport.MaySend → s.link.transport.Ahead Outgoing.entry s.Owes fun key u =>
    Before key u.frame

variable {terminal : TaskReport → Bool} {codec : FrameCodec} {loads : String → Option Json}
  {name : String}

/-! ## The channels

A connection of a lifetime is a channel, and what went out on it, in this lifetime or an earlier
one, is what was put there.
-/

theorem channel_congr {s u : Reporting S} (hpast : u.past = s.past)
    (hwire : u.link.transport.wire = s.link.transport.wire) : u.channel = s.channel := by
  funext connection
  unfold channel wireOf
  rw [hpast, hwire]

/-- A lifetime that ends keeps what went out in it. -/
theorem channel_exit (s : Reporting S) (ledger : Ledger FromAgentMessage) (process : Process) :
    channel { s with
      ledger := ledger
      process := process
      link := Link.start
      past := s.past ++ [s.link.transport.wire] } = s.channel := by
  funext connection
  unfold channel wireOf
  congr 1
  dsimp only
  rw [List.length_append, List.length_singleton]
  rcases lt_trichotomy connection.1 s.past.length with hlt | heq | hgt
  · rw [if_neg (by omega), if_neg (by omega), List.getElem?_append_left hlt]
  · rw [if_neg (by omega), if_pos heq, heq, List.getElem?_concat_length]
    rfl
  · rw [if_neg (show ¬ connection.1 = s.past.length by omega),
      List.getElem?_eq_none (show s.past.length ≤ connection.1 by omega)]
    split
    · rfl
    · rw [List.getElem?_eq_none (by rw [List.length_append, List.length_singleton]; omega)]

/-- A frame that goes out joins the channel of its connection. -/
theorem channel_sent {s u : Reporting S} {c : ℕ} {q : Queued Outgoing} (hpast : u.past = s.past)
    (hwire : u.link.transport.wire = s.link.transport.wire ++ [(c, q)]) :
    u.channel = Function.update s.channel (s.past.length, c)
      (s.channel (s.past.length, c) ++ q.frame.item.toList) := by
  funext connection
  have hcurrent : ∀ c', u.channel (s.past.length, c')
      = s.channel (s.past.length, c')
        ++ (if c = c' then q.frame.item.toList else []) := by
    intro c'
    unfold channel wireOf
    rw [hpast, if_pos rfl, if_pos rfl, hwire, List.filterMap_append]
    congr 1
    by_cases hc : c = c'
    · cases hitem : q.frame.item <;> simp [hc, hitem]
    · simp [hc]
  by_cases hl : connection.1 = s.past.length
  · obtain ⟨l, c'⟩ := connection
    obtain rfl : l = s.past.length := hl
    rw [hcurrent]
    by_cases hc : c = c'
    · subst hc
      rw [Function.update_self, if_pos rfl]
    · rw [if_neg hc, List.append_nil, Function.update_of_ne fun h => hc (Prod.mk.inj h).2.symm]
  · rw [Function.update_of_ne fun h => hl (congrArg Prod.fst h)]
    unfold channel wireOf
    rw [hpast, if_neg hl, if_neg hl]

/-- What went out on the current connection is on its channel. -/
theorem mem_channel_of_wentOut {s : Reporting S} {key : String × ℤ}
    (h : s.link.transport.WentOut Outgoing.entry key) :
    ∃ g ∈ s.channel (s.past.length, s.link.transport.connection), g.1 = key.1 ∧ g.2.1 = key.2 := by
  obtain ⟨q, hq, hkey⟩ := h
  refine ⟨(key.1, key.2, q.frame.text), ?_, rfl, rfl⟩
  unfold channel wireOf
  rw [if_pos rfl, List.mem_filterMap]
  refine ⟨_, hq, ?_⟩
  rw [if_pos rfl, Outgoing.item, hkey]
  rfl

/-! ## What each event is to the server

Emitting a frame is a step of the protocol, as are a send that puts a numbered frame on the wire and
the server's reading of one. All other events leave it where it is.
-/

theorem view_congr {s u : Reporting S} (hframes : u.ledger.framesOf = s.ledger.framesOf)
    (hchannel : u.channel = s.channel) (hserver : u.server = s.server)
    (hreceived : u.received = s.received) : u.view codec = s.view codec := by
  unfold view
  rw [hframes, hchannel, hserver, hreceived]

/-- Everything below an emitted frame is acked or out on this connection, where the frame is being
sent. -/
theorem Sustained.covered {s : Reporting S} (h : s.Sustained codec loads name) {q : Queued Outgoing}
    (hq : s.link.transport.sender = .sending q) {key : String × ℤ}
    (hkey : q.frame.entry = some key) :
    (s.view codec).Covered (s.past.length, s.link.transport.connection) key.1 key.2 := by
  have hmay : s.link.transport.MaySend := by rw [Transport.MaySend, hq]; trivial
  intro f hf hlt
  obtain ⟨g, hg, rfl⟩ := List.mem_map.mp hf
  obtain ⟨o, ho, hsession, hpos, -⟩ | ⟨a, ha, hrest⟩ := h.refines.wellFormed.owed_or_acked hg
  · right
    have howed : s.Owes (key.1, g.1) := ⟨o, ho, by rw [hsession, hpos]⟩
    have hout := (h.ahead hmay).sending h.inOrder hq howed ⟨key.2, hkey, hlt⟩
    exact mem_channel_of_wentOut hout
  · exact Or.inl ⟨a, h.acked a ha, hrest⟩

/-- What the connection task and the sender do puts at most one covered frame on a channel. -/
theorem view_line {s : Reporting S} (h : s.Sustained codec loads name)
    {act : TransportAct Outgoing} {link : Link Outgoing}
    (hlink : s.link.step (Outbound.isJournaled loads) (.line act) = some link) :
    Relation.ReflGen Delivery.Step (s.view codec) (view codec { s with link := link }) := by
  obtain ⟨-, ht⟩ := Outbound.transport_of_line hlink
  obtain hsame | ⟨q, hq, hwire⟩ := Transport.step_wire ht
  · rw [view_congr (u := { s with link := link }) (s := s) rfl
      (channel_congr (u := { s with link := link }) (s := s) rfl hsame) rfl rfl]
  have hchannel := channel_sent (s := s) (u := { s with link := link }) rfl hwire
  cases hentry : q.frame.entry with
  | none =>
    have hitem : q.frame.item = none := by rw [Outgoing.item, hentry]; rfl
    rw [hitem, Option.toList_none, List.append_nil, Function.update_eq_self] at hchannel
    rw [view_congr (u := { s with link := link }) (s := s) rfl hchannel rfl rfl]
  | some key =>
    have hitem : q.frame.item = some (key.1, key.2, q.frame.text) := by
      rw [Outgoing.item, hentry]
      rfl
    have hmem : q ∈ s.link.transport.line := by
      rw [Transport.line, Transport.inFlight, hq]
      exact List.mem_append_left _ (List.mem_singleton_self q)
    have hstep := Delivery.Step.send (N := s.view codec)
      (s.past.length, s.link.transport.connection) key.1 (key.2, q.frame.text)
      (h.inLine q hmem key hentry).1 (h.covered hq hentry)
    rw [hitem, Option.toList_some] at hchannel
    have hview : view codec { s with link := link } = { s.view codec with
        channel := Function.update s.channel (s.past.length, s.link.transport.connection)
          (s.channel (s.past.length, s.link.transport.connection)
            ++ [(key.1, key.2, q.frame.text)]) } := by
      unfold view
      rw [hchannel]
    rw [hview]
    exact Relation.ReflGen.single hstep

/-- The server reads the next numbered frame of a connection. -/
theorem view_serverReads (hserver : S.Contract) {s : Reporting S} {connection : ℕ × ℕ}
    {f : String × ℤ × String}
    (hnext : (s.channel connection)[s.received connection]? = some f) :
    Relation.ReflGen Delivery.Step (s.view codec) (view codec { s with
      server := S.receive s.server f
      received := Function.update s.received connection (s.received connection + 1) }) :=
  Relation.ReflGen.single (Delivery.Step.take (N := s.view codec) connection f.1 f.2 hnext
    (S.projected (S.receive s.server f)) (S.acks (S.receive s.server f))
    (hserver.receives s.server f))

/-- The journal numbers a frame above all of its session. -/
theorem view_emit {s : Reporting S} (h : s.Sustained codec loads name)
    {ledger : Ledger FromAgentMessage} {pos : ℤ} {message : FromAgentMessage} {now : ℚ}
    {σ : SessionLog FromAgentMessage} (hcurrent : s.ledger.current = some σ)
    (hs : s.ledger.step (.emit pos message now) = some ledger) {u : Reporting S}
    (hledger : u.ledger = ledger) (hchannel : u.channel = s.channel)
    (hserver : u.server = s.server) (hreceived : u.received = s.received) :
    Relation.ReflGen Delivery.Step (s.view codec) (u.view codec) := by
  have hw := h.refines.wellFormed
  have hframes := Ledger.framesOf_emit hw hcurrent hs
  have hview : u.view codec = { s.view codec with
      emitted := Function.update (s.view codec).emitted σ.id
        ((s.view codec).emitted σ.id ++ [(pos, codec.dump message)]) } := by
    unfold view
    rw [hledger, hchannel, hserver, hreceived, hframes]
    congr 1
    funext session
    by_cases hid : session = σ.id
    · subst hid
      rw [Function.update_self, Function.update_self, List.map_append]
      rfl
    · rw [Function.update_of_ne hid, Function.update_of_ne hid]
  rw [hview]
  refine Relation.ReflGen.single (Delivery.Step.emit σ.id (pos, codec.dump message) ?_)
  obtain ⟨τ, -, hτ, hpos, -⟩ := Ledger.emit_eq_some hs
  obtain rfl := Option.some.inj (hcurrent.symm.trans hτ)
  show Delivery.watermark ((s.ledger.framesOf σ.id).map fun f => (f.1, codec.dump f.2)) < pos
  have hσ : σ ∈ s.ledger.sessions := by simp [Ledger.sessions_of_current hcurrent]
  rw [Delivery.watermark_map, hw.framesOf_eq hσ]
  exact hpos

/-! ## What each event keeps -/

/-- A change of the link only. -/
theorem Sustained.relink {s : Reporting S} (h : s.Sustained codec loads name)
    (hrun : s.process.agent ≠ none) {link : Link Outgoing}
    (hview : Relation.ReflGen Delivery.Step (s.view codec) (view codec { s with link := link }))
    (hord : link.transport.InOrder)
    (hline : ∀ q ∈ link.transport.line, ∀ key, q.frame.entry = some key →
      (key.2, q.frame.text) ∈ (s.view codec).emitted key.1 ∧ journaled loads q.frame.text = true)
    (hahead : link.transport.MaySend →
      link.transport.Ahead Outgoing.entry s.Owes fun key u => Before key u.frame) :
    Sustained codec loads name { s with link := link } where
  refines := h.refines
  store := h.store
  sound := h.sound.steps hview.to_reflTransGen
  acked := h.acked
  idle hnone := absurd hnone hrun
  numbered := h.numbered
  inOrder := hord
  inLine := hline
  ahead := hahead

theorem view_of_wire {s : Reporting S} {link : Link Outgoing}
    (hwire : link.transport.wire = s.link.transport.wire) :
    Relation.ReflGen Delivery.Step (s.view codec) (view codec { s with link := link }) := by
  rw [view_congr (u := { s with link := link }) (s := s) rfl
    (channel_congr (u := { s with link := link }) (s := s) rfl hwire) rfl rfl]

/-- A frame without a number, or one retained, joins the line. -/
theorem Sustained.enqueue {s : Reporting S} (h : s.Sustained codec loads name)
    (hrun : s.process.agent ≠ none) {f : Outgoing}
    (hf : ∀ key, f.entry = some key →
      (key.2, f.text) ∈ (s.view codec).emitted key.1 ∧ journaled loads f.text = true)
    {link : Link Outgoing}
    (hlink : s.link.step (Outbound.isJournaled loads) (.line (.delayaction f)) = some link) :
    Sustained codec loads name { s with link := link } := by
  obtain ⟨-, ht⟩ := Outbound.transport_of_line hlink
  have ht' : s.link.transport.delayaction f = link.transport := Option.some.inj ht
  refine h.relink hrun (view_of_wire (by rw [← ht']; rfl))
    (Transport.inOrder_step h.inOrder ht) (fun q hq => ?_) fun hsend => ?_
  · rw [← ht', Transport.line_delayaction, List.mem_append, List.mem_singleton] at hq
    rcases hq with hq | rfl
    · exact h.inLine q hq
    · exact hf
  · rw [← ht'] at hsend ⊢
    exact (h.ahead hsend).enqueue h.inOrder f

/-- Frames retained join the line one after the other. -/
theorem Sustained.enqueueAll {s : Reporting S} (h : s.Sustained codec loads name)
    (hrun : s.process.agent ≠ none) {frames : List Outgoing}
    (hframes : ∀ f ∈ frames, ∀ key, f.entry = some key →
      (key.2, f.text) ∈ (s.view codec).emitted key.1 ∧ journaled loads f.text = true)
    {link : Link Outgoing}
    (hlink : exec (Link.step (Outbound.isJournaled loads)) s.link
      (frames.map fun f => .line (.delayaction f)) = some link) :
    Sustained codec loads name { s with link := link } := by
  induction frames generalizing s with
  | nil =>
    obtain rfl := Option.some.inj hlink
    exact h
  | cons f frames ih =>
    rw [List.map_cons, exec_cons] at hlink
    obtain ⟨k, hk, hlink⟩ := Option.bind_eq_some_iff.mp hlink
    exact ih (s := { s with link := k }) (h.enqueue hrun (hframes f List.mem_cons_self) hk) hrun
      (fun g hg => hframes g (List.mem_cons_of_mem f hg)) hlink

/-- An `Init` that is received or taken leaves the line alone. -/
theorem Sustained.relinkInit {s : Reporting S} (h : s.Sustained codec loads name)
    (hrun : s.process.agent ≠ none) {link : Link Outgoing}
    (ht : link.transport = s.link.transport) :
    Sustained codec loads name { s with link := link } := by
  refine h.relink hrun (view_of_wire (by rw [ht])) ?_ ?_ ?_
  all_goals
    rw [ht]
  · exact h.inOrder
  · exact h.inLine
  · exact h.ahead

/-- An agent retains what is owed. -/
theorem Sustained.retained {s : Reporting S} (h : s.Sustained codec loads name) {a : RekuestAgent}
    (ha : s.process.agent = some a) {key : String × ℤ} {frame : FromAgentMessage}
    (hget : a.retained.get? key = some frame) :
    (key.2, codec.dump frame) ∈ (s.view codec).emitted key.1
      ∧ journaled loads (codec.dump frame) = true := by
  obtain ⟨created, ho⟩ := ((h.refines.inMemory a ha).retained key.1 key.2 frame).mp hget
  have hframe := h.refines.wellFormed.mem_framesOf ho
  exact ⟨List.mem_map.mpr ⟨_, hframe, rfl⟩, h.numbered key.1 _ hframe⟩

theorem Sustained.owes_iff {s : Reporting S} (h : s.Sustained codec loads name) {a : RekuestAgent}
    (ha : s.process.agent = some a) (key : String × ℤ) :
    s.Owes key ↔ key ∈ a.retained.keys := by
  have hm := h.refines.inMemory a ha
  rw [Dict.mem_keys]
  constructor
  · rintro ⟨o, ho, rfl⟩
    exact ⟨o.frame, (hm.retained o.session o.pos o.frame).mpr ⟨o.created, ho⟩⟩
  · rintro ⟨frame, hframe⟩
    obtain ⟨created, ho⟩ := (hm.retained key.1 key.2 frame).mp hframe
    exact ⟨_, ho, rfl⟩

/-- Of one session, what is sent again is by position. -/
theorem resent_pairwise (codec : FrameCodec) (a : RekuestAgent) :
    (a.resent codec).Pairwise fun f g => ∀ key, g.entry = some key → ¬ Before key f := by
  unfold RekuestAgent.resent RekuestAgent.resendOrder
  rw [List.pairwise_filterMap]
  refine (pairwise_orderBy a.resendKey a.retained.keys).imp fun {k k'} hle f hf g hg => ?_
  obtain ⟨frame, -, rfl⟩ := Option.map_eq_some_iff.mp hf
  obtain ⟨frame', -, rfl⟩ := Option.map_eq_some_iff.mp hg
  rintro key hkey ⟨n, hn, hlt⟩
  obtain rfl := Option.some.inj hkey
  obtain rfl := Option.some.inj hn
  -- the same session was created once, so its rank is by position
  have hrank : a.resendKey k' < a.resendKey (k'.1, n) := resendRank_lt_of_pos_lt hlt _ _
  exact not_lt.mpr hle hrank

theorem not_before_self (f : Outgoing) (key : String × ℤ) (hkey : f.entry = some key) :
    ¬ Before key f := by
  rintro ⟨n, hn, hlt⟩
  rw [hkey] at hn
  obtain rfl := congrArg Prod.snd (Option.some.inj hn)
  exact lt_irrefl _ hlt

/-- With a store that works, the process does what the ledger does. -/
theorem Sustained.refines_step {s : Reporting S} (h : s.Sustained codec loads name)
    {act : LedgerAct FromAgentMessage} (hc : Decodes codec act) {ledger : Ledger FromAgentMessage}
    (hledger : s.ledger.step act = some ledger) {process : Process}
    (hprocess : s.process.stepOn codec name s.store act = some process) :
    Refines codec name ledger process := by
  obtain ⟨p, hp, hrefines⟩ := Rekuest.refines_step h.refines hc hledger
  rw [h.store, Process.stepOn_none] at hprocess
  obtain rfl := Option.some.inj (hprocess.symm.trans hp)
  exact hrefines

/-- A process starts. -/
theorem sustained_astart {s s' : Reporting S} (h : s.Sustained codec loads name)
    {session : String} {created : ℚ}
    (hs : s.step terminal codec loads name (.astart session created) = some s') :
    s'.Sustained codec loads name := by
  obtain ⟨ledger, hledger, hs⟩ := Option.bind_eq_some_iff.mp hs
  obtain ⟨process, hprocess, rfl⟩ := Option.map_eq_some_iff.mp hs
  have hrefines := h.refines_step (show Decodes codec (.astart session created) from trivial)
    hledger hprocess
  have hframes := Ledger.framesOf_astart hledger
  obtain ⟨hstopped, -, hL, -⟩ := Ledger.sessions_astart hledger
  have hlink : s.link = Link.start := by
    refine h.idle ?_
    have hrunning := h.refines.running
    rw [hstopped] at hrunning
    exact Option.isSome_eq_false_iff.mp hrunning.symm |> Option.isNone_iff_eq_none.mp
  have hview : view codec { s with ledger := ledger, process := process } = s.view codec :=
    view_congr hframes rfl rfl rfl
  refine ⟨hrefines, h.store, by rw [hview]; exact h.sound, fun a ha => h.acked a ?_, fun _ => hlink,
    fun t f hf => h.numbered t f ?_, h.inOrder, by rw [hview]; exact h.inLine, fun hsend => ?_⟩
  · rw [hL] at ha
    exact ha
  · rw [hframes] at hf
    exact hf
  · dsimp only at hsend
    rw [hlink] at hsend
    cases hsend

/-- The agent emits a numbered frame. -/
theorem sustained_emit {s s' : Reporting S} (h : s.Sustained codec loads name)
    {pos : ℤ} {message : FromAgentMessage} {now : ℚ}
    (hc : Numbers codec loads (.emit pos message now))
    (hs : s.step terminal codec loads name (.emit pos message now) = some s') :
    s'.Sustained codec loads name := by
  obtain ⟨a, ha, hs⟩ := Option.bind_eq_some_iff.mp hs
  obtain ⟨ledger, hledger, hs⟩ := Option.bind_eq_some_iff.mp hs
  obtain ⟨process, hprocess, hs⟩ := Option.bind_eq_some_iff.mp hs
  obtain ⟨link, hlink, rfl⟩ := Option.map_eq_some_iff.mp hs
  have hrefines := h.refines_step (show Decodes codec (.emit pos message now) from hc.1)
    hledger hprocess
  have hw := h.refines.wellFormed
  obtain ⟨σ, hcurrent, hsession, -⟩ := (h.refines.inMemory a ha).current
  obtain ⟨τ, -, hτ, hpos, hL⟩ := Ledger.emit_eq_some hledger
  obtain rfl := Option.some.inj (hcurrent.symm.trans hτ)
  have hσ : σ ∈ s.ledger.sessions := by simp [Ledger.sessions_of_current hcurrent]
  have hframes : ∀ {session f}, f ∈ ledger.framesOf session ↔
      f ∈ s.ledger.framesOf session ∨ (session = σ.id ∧ f = (pos, message)) :=
    Ledger.mem_framesOf_emit hw hcurrent hledger
  obtain ⟨-, ht⟩ := Outbound.transport_of_line hlink
  have ht' : s.link.transport.delayaction ⟨codec.dump message, some (a.currentSession, pos)⟩
      = link.transport := Option.some.inj ht
  have hview := view_emit h hcurrent hledger
    (u := { s with ledger := ledger, process := process, link := link }) rfl
    (channel_congr rfl (by rw [← ht']; rfl)) rfl rfl
  have hgrown : ∀ session f, f ∈ (s.view codec).emitted session →
      f ∈ (view codec { s with ledger := ledger, process := process, link := link }).emitted
        session := by
    intro session f hf
    obtain ⟨g, hg, rfl⟩ := List.mem_map.mp hf
    exact List.mem_map.mpr ⟨g, hframes.mpr (Or.inl hg), rfl⟩
  refine ⟨hrefines, h.store, h.sound.steps hview.to_reflTransGen, fun b hb => h.acked b ?_,
    fun hnone => ?_, fun session f hf => ?_, Transport.inOrder_step h.inOrder ht,
    fun q hq key hkey => ?_, fun hsend => ?_⟩
  · rw [hL] at hb
    exact hb
  · have hrunning := hrefines.running
    dsimp only at hnone
    rw [hnone, hL] at hrunning
    have hr := h.refines.running
    rw [ha] at hr
    rw [show s.ledger.running = true from hr] at hrunning
    cases hrunning
  · obtain hold | ⟨-, rfl⟩ := hframes.mp hf
    · exact h.numbered session f hold
    · exact hc.2
  · dsimp only at hq
    rw [← ht', Transport.line_delayaction, List.mem_append, List.mem_singleton] at hq
    rcases hq with hq | rfl
    · obtain ⟨hemitted, hnumbered⟩ := h.inLine q hq key hkey
      exact ⟨hgrown _ _ hemitted, hnumbered⟩
    · obtain rfl := Option.some.inj hkey
      exact ⟨List.mem_map.mpr ⟨(pos, message), hframes.mpr (Or.inr ⟨hsession, rfl⟩), rfl⟩, hc.2⟩
  · dsimp only at hsend ⊢
    rw [← ht'] at hsend ⊢
    refine ((h.ahead hsend).emit h.inOrder rfl (fun _ _ _ hbefore => hbefore) ?_).mono ?_
    · -- what is in line was emitted before
      rintro u hu ⟨n, hn, hlt⟩
      rw [Transport.line_delayaction, List.mem_append, List.mem_singleton] at hu
      rcases hu with hu | rfl
      swap
      · exact not_before_self _ _ rfl ⟨n, hn, hlt⟩
      obtain ⟨f, hf, hfn⟩ := List.mem_map.mp (h.inLine u hu _ hn).1
      have hle := Delivery.le_watermark hf
      dsimp only at hle hlt
      rw [hsession, hw.framesOf_eq hσ] at hle
      have hn' : f.1 = n := congrArg Prod.fst hfn
      have : σ.highest = Delivery.watermark σ.frames := rfl
      omega
    · rintro key ⟨o, ho, rfl⟩
      rcases (Ledger.mem_owed_emit hw hledger hcurrent).mp ho with ho | rfl
      · exact Or.inr ⟨o, ho, rfl⟩
      · exact Or.inl (by rw [hsession])

/-- An ack the server sent arrives: its session got that far. -/
theorem sustained_journalAck {s s' : Reporting S} (h : s.Sustained codec loads name)
    {session : String} {pos : ℤ}
    (hs : s.step terminal codec loads name (.journalAck session pos) = some s') :
    s'.Sustained codec loads name := by
  simp only [step, Option.ite_none_right_eq_some, Option.map_eq_some_iff] at hs
  obtain ⟨hsent, process, hprocess, rfl⟩ := hs
  obtain ⟨a, ha, -⟩ := Option.map_eq_some_iff.mp hprocess
  have hrunning : s.ledger.running = true := by rw [h.refines.running, ha]; rfl
  have hledger : s.ledger.step (.ack session pos)
      = some { s.ledger with acks := s.ledger.acks ++ [(session, pos)] } := by
    have hhigh : pos ≤ s.ledger.highest session := by
      have hack := h.sound.acked (session, pos) hsent
      have hlog := Delivery.watermark_le (h.sound.log session).subset
      have hmark : Delivery.watermark ((s.view codec).emitted session)
          = s.ledger.highest session := by
        rw [Ledger.highest_eq_watermark]
        exact Delivery.watermark_map codec.dump (s.ledger.framesOf session)
      rw [hmark] at hlog
      exact hack.trans hlog
    exact if_pos ⟨hrunning, hhigh⟩
  have hrefines := h.refines_step (show Decodes codec (.ack session pos) from trivial)
    hledger hprocess
  refine ⟨hrefines, h.store, h.sound, fun b hb => ?_, fun hnone => ?_, h.numbered, h.inOrder,
    h.inLine, fun hsend => (h.ahead hsend).mono ?_⟩
  · rcases List.mem_append.mp hb with hb | hb
    · exact h.acked b hb
    · obtain rfl := List.mem_singleton.mp hb
      exact hsent
  · have hr := hrefines.running
    dsimp only at hnone
    rw [hnone] at hr
    exact absurd (hrunning.symm.trans hr) (by simp)
  · rintro key ⟨o, ho, rfl⟩
    exact ⟨o, ((Ledger.mem_owed_ack hledger).mp ho).1, rfl⟩

/-- The agent handles an `Init`. -/
theorem sustained_aafterInit {s s' : Reporting S} (h : s.Sustained codec loads name)
    (hs : s.step terminal codec loads name .aafterInit = some s') :
    s'.Sustained codec loads name := by
  obtain ⟨a, ha, hs⟩ := Option.bind_eq_some_iff.mp hs
  obtain ⟨link, hlink, rfl⟩ := Option.map_eq_some_iff.mp hs
  have ht := Outbound.transport_of_aafterInit hlink
  obtain ⟨new, hline, hnew⟩ := Transport.exec_aafterInit_line ht h.inOrder
  refine h.relink (by rw [ha]; exact Option.some_ne_none a)
    (view_of_wire (Transport.exec_aafterInit_frame ht).2.2.2)
    (exec_invariant h.inOrder (fun _ _ _ h hs => Transport.inOrder_step h hs) ht)
    (fun q hq key hkey => ?_) fun _ => ?_
  · rw [hline] at hq
    rcases List.mem_append.mp hq with hq | hq
    · exact h.inLine q (List.mem_append_left _ hq) key hkey
    rcases List.mem_append.mp hq with hq | hq
    · exact h.inLine q (List.mem_append_right _ (List.mem_filter.mp hq).1) key hkey
    · obtain ⟨k, -, hk⟩ := List.mem_filterMap.mp (hnew ▸ List.mem_map_of_mem hq)
      obtain ⟨frame, hget, hframe⟩ := Option.map_eq_some_iff.mp hk
      rw [← hframe] at hkey ⊢
      obtain rfl := Option.some.inj hkey
      exact h.retained ha hget
  · have hall : ∀ key, s.Owes key → ∃ f ∈ a.resent codec, f.entry = some key := fun key howed =>
      (RekuestAgent.mem_resent codec a).2 key ((h.owes_iff ha key).mp howed)
    refine Transport.ahead_aafterInit h.inOrder h.ahead ?_ hall ?_ ht
    · -- what was numbered is dropped
      rintro u hu hplain key - ⟨n, hn, -⟩
      have hnumbered : Outbound.isJournaled loads u.frame = true :=
        (h.inLine u (List.mem_append_right _ hu) _ hn).2
      rw [hnumbered] at hplain
      cases hplain
    · intro new hframes hsorted u hu key howed hbefore
      exact Transport.exists_in_front hall (resent_pairwise codec a) not_before_self hframes hsorted
        hu howed hbefore

/-- The process ends. -/
theorem sustained_exit {s s' : Reporting S} (h : s.Sustained codec loads name)
    (hs : s.step terminal codec loads name .exit = some s') : s'.Sustained codec loads name := by
  obtain ⟨ledger, hledger, hs⟩ := Option.bind_eq_some_iff.mp hs
  obtain ⟨process, hprocess, rfl⟩ := Option.map_eq_some_iff.mp hs
  have hrefines := h.refines_step (show Decodes codec .exit from trivial)
    hledger hprocess
  simp only [Ledger.step, Option.ite_none_right_eq_some, Option.some.injEq] at hledger
  obtain ⟨-, rfl⟩ := hledger
  have hview : view codec { s with
      ledger := { s.ledger with running := false }
      process := process
      link := Link.start
      past := s.past ++ [s.link.transport.wire] } = s.view codec :=
    view_congr rfl (channel_exit s _ process) rfl rfl
  refine ⟨hrefines, h.store, by rw [hview]; exact h.sound, h.acked, fun _ => rfl, h.numbered,
    Transport.inOrder_start, ?_, fun hsend => ?_⟩
  · rintro q ⟨⟩
  · cases hsend

/-- Every event keeps what is retained ahead, and the server's projection in order. -/
theorem sustained_step (hserver : S.Contract) {s s' : Reporting S}
    (h : s.Sustained codec loads name) {act : ReportingAct} (hc : Numbers codec loads act)
    (hstore : act.StoreWorks) (hs : s.step terminal codec loads name act = some s') :
    s'.Sustained codec loads name := by
  cases act with
  | astart session created => exact sustained_astart h hs
  | emit pos message now => exact sustained_emit h hc hs
  | enqueue text =>
    obtain ⟨a, ha, hs⟩ := Option.bind_eq_some_iff.mp hs
    obtain ⟨link, hlink, rfl⟩ := Option.map_eq_some_iff.mp hs
    exact h.enqueue (by rw [ha]; exact Option.some_ne_none a) (by rintro key ⟨⟩) hlink
  | resendReport task =>
    obtain ⟨a, ha, hs⟩ := Option.bind_eq_some_iff.mp hs
    obtain ⟨link, hlink, rfl⟩ := Option.map_eq_some_iff.mp hs
    have hrun : s.process.agent ≠ none := by rw [ha]; exact Option.some_ne_none a
    have hall : ∀ f ∈ a.resendRetainedReport terminal codec task, ∀ key, f.entry = some key →
        (key.2, f.text) ∈ (s.view codec).emitted key.1 ∧ journaled loads f.text = true := by
      intro f hf key hkey
      obtain ⟨k, frame, hget, rfl⟩ := RekuestAgent.mem_resendRetainedReport terminal codec hf
      obtain rfl := Option.some.inj hkey
      exact h.retained ha hget
    exact h.enqueueAll hrun hall hlink
  | journalAck session pos => exact sustained_journalAck h hs
  | storeFails faults =>
    obtain rfl := Option.some.inj hs
    obtain rfl := hstore
    exact ⟨h.refines, rfl, h.sound, h.acked, h.idle, h.numbered, h.inOrder, h.inLine, h.ahead⟩
  | line act =>
    obtain ⟨a, ha, hs⟩ := Option.bind_eq_some_iff.mp hs
    simp only [Option.ite_none_right_eq_some, Option.map_eq_some_iff] at hs
    obtain ⟨hown, link, hlink, rfl⟩ := hs
    obtain ⟨-, ht⟩ := Outbound.transport_of_line hlink
    refine h.relink (by rw [ha]; exact Option.some_ne_none a) (view_line h hlink)
      (Transport.inOrder_step h.inOrder ht) (fun q hq => ?_) (Transport.ahead_step h.ahead hown ht)
    exact h.inLine q (Transport.line_of_connection hown ht q hq)
  | receiveInit =>
    obtain ⟨a, ha, hs⟩ := Option.bind_eq_some_iff.mp hs
    obtain ⟨link, hlink, rfl⟩ := Option.map_eq_some_iff.mp hs
    exact h.relinkInit (by rw [ha]; exact Option.some_ne_none a)
      (Outbound.transport_of_init (Or.inl rfl) hlink)
  | takeInit =>
    obtain ⟨a, ha, hs⟩ := Option.bind_eq_some_iff.mp hs
    obtain ⟨link, hlink, rfl⟩ := Option.map_eq_some_iff.mp hs
    exact h.relinkInit (by rw [ha]; exact Option.some_ne_none a)
      (Outbound.transport_of_init (Or.inr rfl) hlink)
  | aafterInit => exact sustained_aafterInit h hs
  | exit => exact sustained_exit h hs
  | serverReads lifetime connection =>
    obtain ⟨f, hnext, rfl⟩ := Option.map_eq_some_iff.mp hs
    exact ⟨h.refines, h.store, h.sound.steps (view_serverReads hserver hnext).to_reflTransGen,
      fun a ha => (hserver.receives s.server f).keeps (h.acked a ha), h.idle, h.numbered, h.inOrder,
      h.inLine, h.ahead⟩

theorem sustained_run (hserver : S.Contract) {s s' : Reporting S}
    (h : s.Sustained codec loads name) {acts : List ReportingAct}
    (hc : ∀ act ∈ acts, Numbers codec loads act) (hstore : ∀ act ∈ acts, act.StoreWorks)
    (hrun : exec (step terminal codec loads name) s acts = some s') :
    s'.Sustained codec loads name :=
  exec_invariant_of_meets (C := fun _ act => Numbers codec loads act ∧ act.StoreWorks) h
    (fun _ _ _ h hc hs => sustained_step hserver h hc.1 hc.2 hs)
    (meets_of_forall fun act hact _ => ⟨hc act hact, hstore act hact⟩) hrun

/-! ## In every run -/

end Reporting

end Rekuest
