import Rekuest.Agents.Agent
import Rekuest.Agents.Ledger
import Rekuest.Lib.Runs

/-!
# Retention across restarts

Processes of one agent name run one after the other over one journal file. What the running agent
retains in memory, and what a new process would load from the file, is what the ledger owes.
-/

namespace Rekuest

open Runs

/-- A journal file and the process using it, if one runs. -/
structure Process where
  db : JournalDb
  agent : Option RekuestAgent

namespace Process

/-- One event of the ledger, done by the code with a store that works. -/
def step (codec : FrameCodec) (name : String) (p : Process) :
    LedgerAct FromAgentMessage → Option Process
  | .astart session created =>
    match p.agent with
    | some _ => none
    | none =>
      match (RekuestAgent.new name session).astart codec .none session created p.db with
      | .ok (a, db) => some ⟨db, some a⟩
      | .error _ => none
  | .emit pos frame now =>
    p.agent.map fun a =>
      let (a, db) := a.retainEmitted codec .none frame (some ⟨a.currentSession, pos⟩) now p.db
      ⟨db, some a⟩
  | .ack session pos =>
    p.agent.map fun a =>
      let (a, db) := a.journalAck codec .none session pos p.db
      ⟨db, some a⟩
  | .exit => p.agent.map fun _ => ⟨p.db, none⟩

end Process

/-- The row a frame owed under `name` has on disk. -/
def OwedFrame.row (codec : FrameCodec) (name : String) (o : OwedFrame FromAgentMessage) :
    JournalRow :=
  ⟨name, o.session, o.pos, codec.dump o.frame⟩

/-- A frame owed, as `load` reads it. -/
def OwedFrame.stored (codec : FrameCodec) (o : OwedFrame FromAgentMessage) : StoredFrame :=
  ⟨o.session, o.created, o.pos, codec.dump o.frame⟩

/-- The file holds what the ledger owes under `name`: the frames themselves, and for every
session that owes one its creation time and watermark. -/
structure OnDisk (codec : FrameCodec) (name : String) (L : Ledger FromAgentMessage)
    (db : JournalDb) : Prop where
  journal : ∀ j, j ∈ db.journal.rows ∧ j.agent = name ↔ ∃ o ∈ L.owed, o.row codec name = j
  sync : ∀ r ∈ db.journalSync.rows, r.agent = name →
    (∃ σ ∈ L.sessions, σ.id = r.sessionId ∧ σ.created = r.createdAt) ∧
      r.ackedPos = L.largestAck r.sessionId
  known : ∀ o ∈ L.owed, ∃ r ∈ db.journalSync.rows, r.agent = name ∧ r.sessionId = o.session

/-- The agent retains what the ledger owes, knows the sessions' creation times and keeps its own
session on disk. -/
structure InMemory (name : String) (L : Ledger FromAgentMessage) (db : JournalDb)
    (a : RekuestAgent) : Prop where
  name_eq : a.name = name
  storeOpen : a.storeOpen = true
  retained : ∀ session pos frame, a.retained.get? (session, pos) = some frame ↔
    ∃ created, ⟨session, created, pos, frame⟩ ∈ L.owed
  created : ∀ o ∈ L.owed, a.sessionCreated.get? o.session = some o.created
  current : ∃ σ, L.current = some σ ∧ a.currentSession = σ.id ∧
    a.sessionCreated.get? σ.id = some σ.created ∧
    ∃ r ∈ db.journalSync.rows, r.agent = name ∧ r.sessionId = σ.id

/-- File and process agree with the ledger. -/
structure Refines (codec : FrameCodec) (name : String) (L : Ledger FromAgentMessage)
    (p : Process) : Prop where
  wellFormed : L.WellFormed
  onDisk : OnDisk codec name L p.db
  running : L.running = p.agent.isSome
  decodes : ∀ o ∈ L.owed, codec.RoundTrips o.frame
  inMemory : ∀ a, p.agent = some a → InMemory name L p.db a

/-! ## What agreement says

The file agrees with the ledger if its rows are the sessions and frames the ledger has, as far as
they are still needed. What a new process loads is then what is owed, in order.
-/

section

variable {codec : FrameCodec} {name : String} {L : Ledger FromAgentMessage} {db : JournalDb}

/-- A row of the file joins with its session's creation time and watermark. -/
theorem OnDisk.syncOf (h : OnDisk codec name L db) {o : OwedFrame FromAgentMessage}
    (hw : L.WellFormed) (ho : o ∈ L.owed) :
    RetainedFrames.createdAt db (o.row codec name) = o.created ∧
      RetainedFrames.ackedPos db (o.row codec name) = L.largestAck o.session := by
  obtain ⟨r, hr, hagent, hsession⟩ := h.known o ho
  obtain ⟨⟨σ, hσ, hid, hc⟩, hack⟩ := h.sync r hr hagent
  obtain ⟨τ, hτ, hid', hc', -, -⟩ := Ledger.mem_owed.mp ho
  have hστ := hw.session_unique hσ hτ (by rw [hid, hid', hsession])
  have hrow : db.journalSync.row? (name, o.session) = some r :=
    Table.row?_eq_some.mpr ⟨hr, by rw [SyncRow.key, hagent, hsession]⟩
  constructor
  · simp [RetainedFrames.createdAt, RetainedFrames.syncOf, OwedFrame.row, hrow, ← hc, ← hc', hστ]
  · simp [RetainedFrames.ackedPos, RetainedFrames.syncOf, OwedFrame.row, hrow, hack, hsession]

/-- What a new process loads is what is owed, in order. -/
theorem OnDisk.load_eq (h : OnDisk codec name L db) (hw : L.WellFormed) :
    RetainedFrames.load db name = L.owed.map (OwedFrame.stored codec) := by
  refine RetainedFrames.load_eq (List.pairwise_map.mpr hw.owed_pairwise) fun f => ?_
  rw [RetainedFrames.mem_load, List.mem_map]
  constructor
  · rintro ⟨j, hj, hagent, -, rfl⟩
    obtain ⟨o, ho, rfl⟩ := (h.journal j).mp ⟨hj, hagent⟩
    refine ⟨o, ho, ?_⟩
    rw [RetainedFrames.stored, (h.syncOf hw ho).1]
    rfl
  · rintro ⟨o, ho, rfl⟩
    obtain ⟨hj, hagent⟩ := (h.journal _).mpr ⟨o, ho, rfl⟩
    refine ⟨_, hj, hagent, ?_, ?_⟩
    · obtain ⟨σ, -, -, -, -, hlt⟩ := Ledger.mem_owed.mp ho
      rw [(h.syncOf hw ho).2]
      exact hlt
    · rw [RetainedFrames.stored, (h.syncOf hw ho).1]
      rfl

/-- `prune` forgets no session that owes a frame. -/
theorem OnDisk.prune (h : OnDisk codec name L db) (keep : Option String) :
    OnDisk codec name L (RetainedFrames.prune db name keep) where
  journal := h.journal
  sync := by
    intro r hr
    exact h.sync r (Table.mem_deleteWhere.mp hr).1
  known := by
    intro o ho
    obtain ⟨r, hr, hagent, hsession⟩ := h.known o ho
    refine ⟨r, Table.mem_deleteWhere.mpr ⟨hr, ?_⟩, hagent, hsession⟩
    have hj := (h.journal _).mpr ⟨o, ho, rfl⟩
    simp only [decide_eq_false_iff_not, not_and, not_not]
    exact fun _ _ => ⟨_, hj.1, hj.2.trans hagent.symm, hsession.symm⟩

/-- The agent re-sends what is owed, in order. -/
theorem InMemory.resendOrder_eq {a : RekuestAgent} (h : InMemory name L db a)
    (hw : L.WellFormed) : a.resendOrder = L.owed.map fun o => (o.session, o.pos) := by
  have hrank : ∀ o ∈ L.owed,
      a.resendKey (o.session, o.pos) = resendRank o.created o.session o.pos := by
    intro o ho
    simp [RekuestAgent.resendKey, h.created o ho]
  have hsorted : (L.owed.map fun o => (o.session, o.pos)).Pairwise
      fun k k' => a.resendKey k < a.resendKey k' := by
    rw [List.pairwise_map]
    refine hw.owed_pairwise.imp_of_mem fun ho ho' hlt => ?_
    rwa [hrank _ ho, hrank _ ho']
  refine orderBy_eq_of_perm ?_ hsorted
  rw [List.perm_ext_iff_of_nodup a.retained.nodup_keys
    (hsorted.imp fun hlt => by rintro rfl; exact lt_irrefl _ hlt)]
  rintro ⟨session, pos⟩
  rw [Dict.mem_keys, List.mem_map]
  constructor
  · rintro ⟨frame, hframe⟩
    obtain ⟨created, ho⟩ := (h.retained session pos frame).mp hframe
    exact ⟨_, ho, rfl⟩
  · rintro ⟨o, ho, hkey⟩
    obtain ⟨rfl, rfl⟩ := Prod.mk.inj hkey
    exact ⟨o.frame, (h.retained _ _ _).mpr ⟨o.created, ho⟩⟩

/-- The agent retains what is owed, in order and with its content. -/
theorem InMemory.retainedFrames_eq {a : RekuestAgent} (h : InMemory name L db a)
    (hw : L.WellFormed) : a.retainedFrames = L.owed.map OwedFrame.frame := by
  rw [RekuestAgent.retainedFrames, h.resendOrder_eq hw, List.filterMap_map]
  have hget : ∀ o ∈ L.owed, (a.retained.get? ∘ fun o => (o.session, o.pos)) o
      = (some ∘ OwedFrame.frame) o :=
    fun o ho => (h.retained _ _ _).mpr ⟨o.created, ho⟩
  rw [List.filterMap_congr hget, List.filterMap_eq_map]

end

/-! ## One event

Starting, emitting, acking and exiting each keep the file and the running agent in agreement with
the ledger. Starting is the one that sees the rows earlier processes left.
-/

section

variable {codec : FrameCodec} {name : String} {L L' : Ledger FromAgentMessage}

/-- Under a session id no row has yet, `open_session` adds one and answers its time. -/
theorem openSession_of_new {db : JournalDb} {session : String} (created now : ℚ)
    (hnew : ∀ r ∈ db.journalSync.rows, r.agent = name → r.sessionId ≠ session) :
    ∃ db', RetainedFrames.openSession db name session (some created) now = (created, db') ∧
      db'.journal = db.journal ∧
      ∀ r, r ∈ db'.journalSync.rows ↔
        r ∈ db.journalSync.rows ∨ r = ⟨name, session, created, 0⟩ := by
  have hnone : db.journalSync.row? (name, session) = none := by
    rw [Table.row?_eq_none]
    rintro r hr hkey
    obtain ⟨hagent, hsession⟩ := Prod.mk.inj hkey
    exact hnew r hr hagent hsession
  have hmem : ∀ r, r ∈ (db.journalSync.insertOrIgnore ⟨name, session, created, 0⟩).rows ↔
      r ∈ db.journalSync.rows ∨ r = ⟨name, session, created, 0⟩ := by
    intro r
    rw [Table.mem_insertOrIgnore]
    simp [SyncRow.key, hnone]
  have hrow : (db.journalSync.insertOrIgnore ⟨name, session, created, 0⟩).row? (name, session)
      = some ⟨name, session, created, 0⟩ :=
    Table.row?_eq_some.mpr ⟨(hmem _).mpr (Or.inr rfl), rfl⟩
  refine ⟨⟨db.journal, db.journalSync.insertOrIgnore ⟨name, session, created, 0⟩⟩, ?_, rfl, hmem⟩
  simp [RetainedFrames.openSession, hrow]

/-- A search whose hits all agree finds their common value. -/
theorem findSome?_eq_some_iff_of_agree {α β : Type*} {g : α → Option β} {l : List α}
    (h : ∀ a ∈ l, ∀ a' ∈ l, ∀ b b', g a = some b → g a' = some b' → b = b') {b : β} :
    l.findSome? g = some b ↔ ∃ a ∈ l, g a = some b := by
  constructor
  · exact List.exists_of_findSome?_eq_some
  · rintro ⟨a, ha, hb⟩
    obtain ⟨b', hb'⟩ : ∃ b', l.findSome? g = some b' := by
      rw [← Option.isSome_iff_exists, List.findSome?_isSome_iff]
      exact ⟨a, ha, by rw [hb]; rfl⟩
    obtain ⟨a', ha', hab⟩ := List.exists_of_findSome?_eq_some hb'
    rw [hb', h a ha a' ha' b b' hb hab]

/-- A new process retains what the last one left owed. -/
theorem retained_openStore_new (hc : ∀ o ∈ L.owed, codec.RoundTrips o.frame) (hw : L.WellFormed)
    {db : JournalDb} (hd : OnDisk codec name L db) (session s : String) (pos : ℤ)
    (frame : FromAgentMessage) :
    ((RekuestAgent.new name session).openStore codec db).retained.get? (s, pos) = some frame ↔
      ∃ created, ⟨s, created, pos, frame⟩ ∈ L.owed := by
  rw [RekuestAgent.openStore, if_neg (by simp [RekuestAgent.new]),
    RekuestAgent.get?_retained_foldl_loadFrame]
  have hload : RetainedFrames.load db (RekuestAgent.new name session).name
      = L.owed.map (OwedFrame.stored codec) := hd.load_eq hw
  have hhit : ∀ o ∈ L.owed, ∀ frame,
      (if (o.session, o.pos) = (s, pos) then codec.validate (codec.dump o.frame) else none)
        = some frame ↔ o.session = s ∧ o.pos = pos ∧ o.frame = frame := by
    intro o ho frame
    rw [show codec.validate (codec.dump o.frame) = some o.frame from hc o ho]
    by_cases hk : o.session = s ∧ o.pos = pos
    · simp [hk]
    · rw [if_neg fun h => hk (Prod.mk.inj h)]
      simp only [reduceCtorEq, false_iff]
      exact fun h => hk ⟨h.1, h.2.1⟩
  rw [hload, List.findSome?_map]
  simp only [RekuestAgent.new, Dict.get?_empty, Option.none_or]
  refine (findSome?_eq_some_iff_of_agree ?_).trans ?_
  · intro o ho o' ho' f f' hf hf'
    obtain ⟨hs, hp, rfl⟩ := (hhit o ho f).mp hf
    obtain ⟨hs', hp', rfl⟩ := (hhit o' ho' f').mp hf'
    rw [hw.owed_unique ho ho' (hs.trans hs'.symm) (hp.trans hp'.symm)]
  · constructor
    · rintro ⟨o, ho, hf⟩
      obtain ⟨rfl, rfl, rfl⟩ := (hhit o ho frame).mp hf
      exact ⟨o.created, ho⟩
    · rintro ⟨created, ho⟩
      exact ⟨_, ho, (hhit _ ho frame).mpr ⟨rfl, rfl, rfl⟩⟩

/-- A new process knows the creation times of the sessions something is owed in, and no other. -/
theorem sessionCreated_openStore_new (hc : ∀ o ∈ L.owed, codec.RoundTrips o.frame)
    (hw : L.WellFormed) {db : JournalDb} (hd : OnDisk codec name L db) (session s : String) (created : ℚ) :
    ((RekuestAgent.new name session).openStore codec db).sessionCreated.get? s = some created ↔
      ∃ o ∈ L.owed, o.session = s ∧ o.created = created := by
  rw [RekuestAgent.openStore, if_neg (by simp [RekuestAgent.new]),
    RekuestAgent.get?_sessionCreated_foldl_loadFrame]
  have hload : RetainedFrames.load db (RekuestAgent.new name session).name
      = L.owed.map (OwedFrame.stored codec) := hd.load_eq hw
  have hhit : ∀ o ∈ L.owed, ∀ created,
      (if o.session = s ∧ (codec.validate (codec.dump o.frame)).isSome then some o.created
        else none) = some created ↔ o.session = s ∧ o.created = created := by
    intro o ho created
    rw [show codec.validate (codec.dump o.frame) = some o.frame from hc o ho]
    by_cases hk : o.session = s <;> simp [hk]
  rw [hload, List.findSome?_map]
  simp only [RekuestAgent.new, Dict.get?_empty, Option.none_or]
  refine (findSome?_eq_some_iff_of_agree ?_).trans ?_
  · intro o ho o' ho' c c' hc hc'
    obtain ⟨hs, rfl⟩ := (hhit o ho c).mp hc
    obtain ⟨hs', rfl⟩ := (hhit o' ho' c').mp hc'
    exact hw.owed_created_eq ho ho' (hs.trans hs'.symm)
  · exact exists_congr fun o => and_congr_right fun ho => hhit o ho created

/-- No row of the file is of a session that is yet to start. -/
theorem OnDisk.fresh {db : JournalDb} (h : OnDisk codec name L db) {session : String}
    (hnew : ∀ σ ∈ L.sessions, σ.id ≠ session) :
    ∀ r ∈ db.journalSync.rows, r.agent = name → r.sessionId ≠ session := by
  rintro r hrow hname rfl
  obtain ⟨⟨σ, hσ, hid, -⟩, -⟩ := h.sync r hrow hname
  exact hnew σ hσ hid

/-- Opening a session adds its row, with its creation time and nothing acked. -/
theorem OnDisk.astart {db db' : JournalDb} (h : OnDisk codec name L db) (hw : L.WellFormed)
    {session : String} {created : ℚ} (hs : L.step (.astart session created) = some L')
    (hjournal : db'.journal = db.journal)
    (hsync : ∀ r, r ∈ db'.journalSync.rows ↔
      r ∈ db.journalSync.rows ∨ r = ⟨name, session, created, 0⟩) : OnDisk codec name L' db' := by
  obtain ⟨-, hnew, hL', hse⟩ := Ledger.sessions_astart hs
  have howed : ∀ o, o ∈ L'.owed ↔ o ∈ L.owed := fun o => Ledger.mem_owed_astart hs
  have hack : ∀ s, L'.largestAck s = L.largestAck s := fun s => by
    rw [Ledger.largestAck, Ledger.largestAck, hL']
  refine ⟨fun j => ?_, fun r hrow hname => ?_, fun o ho => ?_⟩
  · simp only [hjournal, howed]
    exact h.journal j
  · rw [hse, hack]
    rcases (hsync r).mp hrow with hrow | rfl
    · obtain ⟨⟨σ, hσ, hid, hcr⟩, hpos⟩ := h.sync r hrow hname
      exact ⟨⟨σ, List.mem_append_left _ hσ, hid, hcr⟩, hpos⟩
    · refine ⟨⟨_, List.mem_append_right _ (List.mem_singleton_self _), rfl, rfl⟩, ?_⟩
      exact (hw.unknown _ fun σ hσ => (hnew σ hσ).1).symm
  · obtain ⟨r, hrow, hname, hid⟩ := h.known o ((howed o).mp ho)
    exact ⟨r, (hsync r).mpr (Or.inl hrow), hname, hid⟩

theorem refines_astart {p : Process} (h : Refines codec name L p)
    {session : String} {created : ℚ} (hs : L.step (.astart session created) = some L') :
    ∃ p', Process.step codec name p (.astart session created) = some p' ∧
      Refines codec name L' p' := by
  obtain ⟨hr, hnew, hL', -⟩ := Ledger.sessions_astart hs
  have hw := h.wellFormed
  have hc := h.decodes
  have hagent : p.agent = none := by simpa [hr] using h.running
  obtain ⟨db, hopen, hjournal, hsync⟩ :=
    openSession_of_new created created (h.onDisk.fresh fun σ hσ => (hnew σ hσ).1)
  have howed : ∀ o, o ∈ L'.owed ↔ o ∈ L.owed := fun o => Ledger.mem_owed_astart hs
  -- the process loads the old frames first; no frame is owed in the new session
  let a := (RekuestAgent.new name session).openStore codec p.db
  have hunknown : a.sessionCreated.get? session = none := by
    rw [Option.eq_none_iff_forall_ne_some]
    intro c hc'
    obtain ⟨o, ho, rfl, -⟩ := (sessionCreated_openStore_new hc hw h.onDisk session _ c).mp hc'
    obtain ⟨σ, hσ, hid, -⟩ := Ledger.mem_owed.mp ho
    exact (hnew σ hσ).1 hid
  have hstart : (RekuestAgent.new name session).astart codec .none session created p.db
      = .ok ({ a with sessionCreated := a.sessionCreated.set session created }, db) := by
    have ha : (RekuestAgent.new name session).openStore codec p.db = a := rfl
    have hname : a.name = name := RekuestAgent.openStore_name _ _
    have hagain : a.openStore codec p.db = a :=
      RekuestAgent.openStore_of_open (RekuestAgent.openStore_storeOpen _ _) _
    simp only [RekuestAgent.astart, RekuestAgent.knowSession, StoreFaults.none]
    rw [show { RekuestAgent.new name session with currentSession := session }
      = RekuestAgent.new name session from rfl, ha, hunknown, hagain, hname, hopen]
    rfl
  refine ⟨⟨db, some { a with sessionCreated := a.sessionCreated.set session created }⟩, ?_, ?_⟩
  · simp only [Process.step, hagent, hstart]
  refine ⟨Ledger.wellFormed_step hw hs, h.onDisk.astart hw hs hjournal hsync, by rw [hL']; rfl,
    fun o ho => hc o ((howed o).mp ho), ?_⟩
  rintro _ ⟨⟩
  refine ⟨RekuestAgent.openStore_name _ _, RekuestAgent.openStore_storeOpen _ _, ?_, ?_, ?_⟩
  · intro s pos frame
    simp only [howed]
    exact retained_openStore_new hc hw h.onDisk session s pos frame
  · intro o ho
    obtain ⟨σ, hσ, hid, -⟩ := Ledger.mem_owed.mp ((howed o).mp ho)
    simp only [Dict.get?_set]
    rw [if_neg (by rw [← hid]; exact (hnew σ hσ).1)]
    exact (sessionCreated_openStore_new hc hw h.onDisk session _ _).mpr
      ⟨o, (howed o).mp ho, rfl, rfl⟩
  · refine ⟨⟨session, created, []⟩, by rw [hL'], RekuestAgent.openStore_currentSession _ _, ?_,
      _, (hsync _).mpr (Or.inr rfl), rfl, rfl⟩
    simp

/-- A frame of the running session goes into memory and on disk under its key. -/
theorem retainEmitted_of_known (codec : FrameCodec) {a : RekuestAgent} (db : JournalDb)
    (hopen : a.storeOpen = true)
    {created : ℚ} (hknown : a.sessionCreated.get? a.currentSession = some created)
    (frame : FromAgentMessage) (pos : ℤ) (now : ℚ) :
    a.retainEmitted codec .none frame (some ⟨a.currentSession, pos⟩) now db
      = ({ a with retained := a.retained.set (a.currentSession, pos) frame },
          RetainedFrames.add db a.name a.currentSession pos (codec.dump frame)) := by
  simp [RekuestAgent.retainEmitted, RekuestAgent.persistEmitted, RekuestAgent.knowSession, hknown,
    RekuestAgent.openStore, hopen, StoreFaults.none]

/-- An emitted frame has a key of its own. -/
theorem not_owed_of_emit (hw : L.WellFormed) {σ : SessionLog FromAgentMessage} (hσ : σ ∈ L.sessions)
    {pos : ℤ} (hhigh : σ.highest < pos) : ∀ o ∈ L.owed, ¬ (o.session = σ.id ∧ o.pos = pos) := by
  rintro o ho ⟨hid, rfl⟩
  obtain ⟨τ, hτ, hid', -, hf, -⟩ := Ledger.mem_owed.mp ho
  obtain rfl := hw.session_unique hτ hσ (hid'.trans hid)
  exact absurd (Ledger.pos_le_highest hf) (not_le.mpr hhigh)

/-- Emitting adds the row of the frame. -/
theorem OnDisk.emit {db : JournalDb} (h : OnDisk codec name L db) (hw : L.WellFormed)
    {pos : ℤ} {frame : FromAgentMessage} {now : ℚ} (hs : L.step (.emit pos frame now) = some L')
    {σ : SessionLog FromAgentMessage} (hcur : L.current = some σ)
    (hrow : ∃ r ∈ db.journalSync.rows, r.agent = name ∧ r.sessionId = σ.id) :
    OnDisk codec name L' (RetainedFrames.add db name σ.id pos (codec.dump frame)) := by
  obtain ⟨τ, -, hτ, hhigh, hL'⟩ := Ledger.emit_eq_some hs
  obtain rfl := Option.some.inj (hcur.symm.trans hτ)
  have howed := fun o => Ledger.mem_owed_emit (o := o) hw hs hcur
  have hold := not_owed_of_emit hw (by simp [Ledger.sessions_of_current hcur]) hhigh
  refine ⟨fun j => ?_, fun r hr hname => ?_, fun o ho => ?_⟩
  · simp only [RetainedFrames.add, Table.mem_insertOrReplace, howed]
    constructor
    · rintro ⟨rfl | ⟨hj, -⟩, hname⟩
      · exact ⟨_, Or.inr rfl, rfl⟩
      · obtain ⟨o, ho, rfl⟩ := (h.journal j).mp ⟨hj, hname⟩
        exact ⟨o, Or.inl ho, rfl⟩
    · rintro ⟨o, ho | rfl, rfl⟩
      · -- the row stays: the new one replaces rows of its own key only
        obtain ⟨hj, hname⟩ := (h.journal _).mpr ⟨o, ho, rfl⟩
        refine ⟨Or.inr ⟨hj, fun hkey => hold o ho ?_⟩, hname⟩
        simp only [JournalRow.key, OwedFrame.row, Prod.mk.injEq] at hkey
        exact hkey.2
      · exact ⟨Or.inl rfl, rfl⟩
  · obtain ⟨⟨τ, hτ, hid, hc⟩, hpos⟩ := h.sync r hr hname
    obtain ⟨τ', hτ', hid', hc'⟩ := Ledger.sessions_kept_emit hs hτ
    refine ⟨⟨τ', hτ', hid'.trans hid, hc'.trans hc⟩, ?_⟩
    rw [hpos, Ledger.largestAck, Ledger.largestAck, hL']
  · rcases (howed o).mp ho with ho | rfl
    · exact h.known o ho
    · exact hrow

/-- The agent retains the frame it emits. -/
theorem InMemory.emit {db : JournalDb} {a : RekuestAgent} (hm : InMemory name L db a)
    (hw : L.WellFormed) {pos : ℤ} {frame : FromAgentMessage} {now : ℚ}
    (hs : L.step (.emit pos frame now) = some L') {σ : SessionLog FromAgentMessage}
    (hcur : L.current = some σ) :
    InMemory name L' (RetainedFrames.add db name σ.id pos (codec.dump frame))
      { a with retained := a.retained.set (σ.id, pos) frame } := by
  obtain ⟨τ, -, hτ, hhigh, hL'⟩ := Ledger.emit_eq_some hs
  obtain rfl := Option.some.inj (hcur.symm.trans hτ)
  obtain ⟨τ, hτ, hsession, hcreated, hrow⟩ := hm.current
  obtain rfl := Option.some.inj (hcur.symm.trans hτ)
  have howed := fun o => Ledger.mem_owed_emit (o := o) hw hs hcur
  have hold := not_owed_of_emit hw (by simp [Ledger.sessions_of_current hcur]) hhigh
  refine ⟨hm.name_eq, hm.storeOpen, fun s q f => ?_, fun o ho => ?_, ?_⟩
  · simp only [Dict.get?_set, howed]
    by_cases hk : (s, q) = (σ.id, pos)
    · obtain ⟨rfl, rfl⟩ := Prod.mk.inj hk
      rw [if_pos rfl]
      constructor
      · rintro ⟨⟩
        exact ⟨σ.created, Or.inr rfl⟩
      · rintro ⟨c, ho | ho⟩
        · exact absurd ⟨rfl, rfl⟩ (hold _ ho)
        · rw [OwedFrame.mk.injEq] at ho
          rw [ho.2.2.2]
    · rw [if_neg hk, hm.retained]
      refine exists_congr fun c => ⟨Or.inl, ?_⟩
      rintro (ho | ho)
      · exact ho
      · rw [OwedFrame.mk.injEq] at ho
        exact absurd (by rw [ho.1, ho.2.2.1]) hk
  · rcases (howed o).mp ho with ho | rfl
    · exact hm.created o ho
    · exact hcreated
  · exact ⟨⟨σ.id, σ.created, σ.frames ++ [(pos, frame)]⟩, by rw [hL'], hsession, hcreated, hrow⟩

theorem refines_emit {p : Process} (h : Refines codec name L p) {pos : ℤ}
    {frame : FromAgentMessage} {now : ℚ} (hc : codec.RoundTrips frame)
    (hs : L.step (.emit pos frame now) = some L') :
    ∃ p', Process.step codec name p (.emit pos frame now) = some p' ∧
      Refines codec name L' p' := by
  have hw := h.wellFormed
  obtain ⟨σ, hr, hcur, -, hL'⟩ := Ledger.emit_eq_some hs
  obtain ⟨a, ha⟩ := Option.isSome_iff_exists.mp (h.running.symm.trans hr)
  have hm := h.inMemory a ha
  obtain ⟨τ, hτ, hsession, hcreated, hrow⟩ := hm.current
  obtain rfl := Option.some.inj (hcur.symm.trans hτ)
  refine ⟨⟨RetainedFrames.add p.db name σ.id pos (codec.dump frame),
    some { a with retained := a.retained.set (σ.id, pos) frame }⟩, ?_, ?_⟩
  · have hret := retainEmitted_of_known codec p.db hm.storeOpen
      (hsession ▸ hcreated) frame pos now
    rw [Process.step, ha, Option.map_some, hret, hm.name_eq, hsession]
  refine ⟨Ledger.wellFormed_step hw hs, h.onDisk.emit hw hs hcur hrow, by rw [hL']; exact hr,
    fun o ho => ?_, ?_⟩
  · rcases (Ledger.mem_owed_emit hw hs hcur).mp ho with ho | rfl
    · exact h.decodes o ho
    · exact hc
  · rintro _ ⟨⟩
    exact hm.emit hw hs hcur

/-- Acking on disk drops the acked rows and raises the watermark. -/
theorem OnDisk.ack {db : JournalDb} (h : OnDisk codec name L db) {session : String} {pos : ℤ}
    (hs : L.step (.ack session pos) = some L') :
    OnDisk codec name L' (RetainedFrames.ack db name session pos) := by
  have howed : ∀ o, o ∈ L'.owed ↔ o ∈ L.owed ∧ ¬ (o.session = session ∧ o.pos ≤ pos) :=
    fun o => Ledger.mem_owed_ack hs
  simp only [Ledger.step, Option.ite_none_right_eq_some, Option.some.injEq] at hs
  obtain ⟨-, rfl⟩ := hs
  refine ⟨?_, ?_, ?_⟩
  · intro j
    simp only [RetainedFrames.ack, Table.mem_deleteWhere, howed]
    constructor
    · rintro ⟨⟨hj, hgone⟩, hname⟩
      obtain ⟨o, ho, rfl⟩ := (h.journal j).mp ⟨hj, hname⟩
      refine ⟨o, ⟨ho, fun hacked => ?_⟩, rfl⟩
      simp [OwedFrame.row, hacked] at hgone
    · rintro ⟨o, ⟨ho, hacked⟩, rfl⟩
      obtain ⟨hj, hname⟩ := (h.journal _).mpr ⟨o, ho, rfl⟩
      exact ⟨⟨hj, decide_eq_false fun hgone => hacked hgone.2⟩, hname⟩
  · intro r hr hname
    obtain ⟨r', hr', rfl⟩ := RetainedFrames.mem_sync_ack.mp hr
    have hname' : r'.agent = name := by
      split at hname <;> exact hname
    obtain ⟨hσ, hpos⟩ := h.sync r' hr' hname'
    by_cases hk : r'.sessionId = session
    · rw [if_pos ⟨hname', hk⟩]
      exact ⟨hσ, by rw [Ledger.largestAck_append, if_pos hk, ← hpos]⟩
    · rw [if_neg fun h => hk h.2]
      exact ⟨hσ, by rw [Ledger.largestAck_append, if_neg hk, hpos]⟩
  · intro o ho
    obtain ⟨r, hr, hname, hid⟩ := h.known o ((howed o).mp ho).1
    obtain ⟨r', hr', hname', hid'⟩ := RetainedFrames.exists_sync_ack hr name session pos
    exact ⟨r', hr', hname'.trans hname, hid'.trans hid⟩

/-- The file after `_journal_ack`: acked, and pruned if nothing of the session is left. -/
theorem journalAck_eq (codec : FrameCodec) {a : RekuestAgent} (db : JournalDb)
    (hopen : a.storeOpen = true)
    (session : String) (pos : ℤ) :
    ∃ db', a.journalAck codec .none session pos db
        = ({ a with retained :=
              a.retained.filterKeys fun key => ¬ (key.1 = session ∧ key.2 ≤ pos) }, db') ∧
      (db' = RetainedFrames.ack db a.name session pos ∨
        db' = RetainedFrames.prune (RetainedFrames.ack db a.name session pos) a.name
          (some a.currentSession)) := by
  have hstore : ∀ retained, RekuestAgent.openStore codec db { a with retained := retained }
      = { a with retained := retained } :=
    fun _ => if_pos hopen
  simp only [RekuestAgent.journalAck, hstore, StoreFaults.none, Bool.false_eq_true, if_false]
  split
  · exact ⟨_, rfl, Or.inl rfl⟩
  · exact ⟨_, rfl, Or.inr rfl⟩

/-- Acking and pruning keep the row of the session kept. -/
theorem currentRow_journalAck {db db' : JournalDb} {session current : String} {pos : ℤ}
    (hdb : db' = RetainedFrames.ack db name session pos ∨
      db' = RetainedFrames.prune (RetainedFrames.ack db name session pos) name (some current))
    (h : ∃ r ∈ db.journalSync.rows, r.agent = name ∧ r.sessionId = current) :
    ∃ r ∈ db'.journalSync.rows, r.agent = name ∧ r.sessionId = current := by
  obtain ⟨r, hr, hname, hid⟩ := h
  obtain ⟨r', hr', hname', hid'⟩ := RetainedFrames.exists_sync_ack hr name session pos
  have hcur := hid'.trans hid
  rcases hdb with rfl | rfl
  · exact ⟨r', hr', hname'.trans hname, hcur⟩
  · exact ⟨r', Table.mem_deleteWhere.mpr ⟨hr', by simp [hcur]⟩, hname'.trans hname, hcur⟩

/-- The agent drops the acked frames of the session. -/
theorem InMemory.ack {db db' : JournalDb} {a : RekuestAgent} (hm : InMemory name L db a)
    {session : String} {pos : ℤ} (hs : L.step (.ack session pos) = some L')
    (hdb : db' = RetainedFrames.ack db name session pos ∨
      db' = RetainedFrames.prune (RetainedFrames.ack db name session pos) name
        (some a.currentSession)) :
    InMemory name L' db' { a with
      retained := a.retained.filterKeys fun key => ¬ (key.1 = session ∧ key.2 ≤ pos) } := by
  refine ⟨hm.name_eq, hm.storeOpen, fun s q frame => ?_, fun o ho => ?_, ?_⟩
  · rw [Dict.get?_filterKeys]
    simp only [Ledger.mem_owed_ack hs]
    by_cases hk : s = session ∧ q ≤ pos
    · simp [hk]
    · rw [if_pos (decide_eq_true hk), hm.retained]
      exact exists_congr fun c => (and_iff_left hk).symm
  · exact hm.created o ((Ledger.mem_owed_ack hs).mp ho).1
  · obtain ⟨σ, hcur, hsession, hcreated, hrow⟩ := hm.current
    simp only [Ledger.step, Option.ite_none_right_eq_some, Option.some.injEq] at hs
    obtain ⟨-, rfl⟩ := hs
    rw [hsession] at hdb
    exact ⟨σ, hcur, hsession, hcreated, currentRow_journalAck hdb hrow⟩

theorem refines_ack {p : Process} (h : Refines codec name L p) {session : String} {pos : ℤ}
    (hs : L.step (.ack session pos) = some L') :
    ∃ p', Process.step codec name p (.ack session pos) = some p' ∧ Refines codec name L' p' := by
  have hs' := hs
  simp only [Ledger.step, Option.ite_none_right_eq_some, Option.some.injEq] at hs'
  obtain ⟨⟨hr, -⟩, hL'⟩ := hs'
  obtain ⟨a, ha⟩ := Option.isSome_iff_exists.mp (h.running.symm.trans hr)
  have hm := h.inMemory a ha
  obtain ⟨db, hret, hdb⟩ := journalAck_eq codec p.db hm.storeOpen session pos
  rw [hm.name_eq] at hdb
  refine ⟨⟨db, some _⟩, by rw [Process.step, ha, Option.map_some, hret], ?_⟩
  have hdisk : OnDisk codec name L' (RetainedFrames.ack p.db name session pos) := h.onDisk.ack hs
  refine ⟨Ledger.wellFormed_step h.wellFormed hs, ?_, by rw [← hL']; exact hr,
    fun o ho => h.decodes o ((Ledger.mem_owed_ack hs).mp ho).1, ?_⟩
  · rcases hdb with rfl | rfl
    · exact hdisk
    · exact hdisk.prune _
  · rintro _ ⟨⟩
    exact hm.ack hs hdb

/-- What is emitted decodes again. -/
def Decodes (codec : FrameCodec) : LedgerAct FromAgentMessage → Prop
  | .emit _ frame _ => codec.RoundTrips frame
  | _ => True

/-- Every event of the ledger is done by the code, which stays in agreement. -/
theorem refines_step {p : Process} (h : Refines codec name L p)
    {act : LedgerAct FromAgentMessage} (hc : Decodes codec act) (hs : L.step act = some L') :
    ∃ p', Process.step codec name p act = some p' ∧ Refines codec name L' p' := by
  cases act with
  | astart session created => exact refines_astart h hs
  | emit pos frame now => exact refines_emit h hc hs
  | ack session pos => exact refines_ack h hs
  | exit =>
    have hw := Ledger.wellFormed_step h.wellFormed hs
    simp only [Ledger.step, Option.ite_none_right_eq_some, Option.some.injEq] at hs
    obtain ⟨hr, rfl⟩ := hs
    obtain ⟨a, ha⟩ := Option.isSome_iff_exists.mp (h.running.symm.trans hr)
    refine ⟨⟨p.db, none⟩, by rw [Process.step, ha, Option.map_some], hw, ?_, rfl, h.decodes, ?_⟩
    · exact ⟨h.onDisk.journal, h.onDisk.sync, h.onDisk.known⟩
    · rintro _ ⟨⟩

end

/-! ## Every run -/

/-- The file has no rows under `name`. -/
def JournalDb.Unused (db : JournalDb) (name : String) : Prop :=
  (∀ j ∈ db.journal.rows, j.agent ≠ name) ∧ ∀ r ∈ db.journalSync.rows, r.agent ≠ name

theorem refines_empty (codec : FrameCodec) {name : String} {db : JournalDb}
    (h : db.Unused name) : Refines codec name Ledger.empty ⟨db, none⟩ where
  wellFormed := Ledger.wellFormed_empty
  onDisk :=
    { journal := fun j => by
        simp only [Ledger.mem_owed, Ledger.sessions, Ledger.empty]
        simp
        exact h.1 j
      sync := fun r hr hname => absurd hname (h.2 r hr)
      known := fun o ho => by simp [Ledger.mem_owed, Ledger.sessions, Ledger.empty] at ho }
  running := rfl
  decodes := fun o ho => by simp [Ledger.mem_owed, Ledger.sessions, Ledger.empty] at ho
  inMemory := by rintro _ ⟨⟩

/-- After every run of every number of processes, the file and the running agent both hold
exactly what the ledger owes, in resend order, and no pruning changes that. -/
theorem retained_across_restarts (codec : FrameCodec) (name : String) (db : JournalDb)
    (hdb : db.Unused name) (acts : List (LedgerAct FromAgentMessage))
    (hc : ∀ act ∈ acts, Decodes codec act) (L : Ledger FromAgentMessage)
    (hrun : exec Ledger.step Ledger.empty acts = some L) :
    ∃ p, exec (Process.step codec name) ⟨db, none⟩ acts = some p ∧
      p.agent.isSome = L.running ∧
      RetainedFrames.load p.db name = L.owed.map (OwedFrame.stored codec) ∧
      (∀ a, p.agent = some a →
        a.resendOrder = L.owed.map (fun o => (o.session, o.pos)) ∧
        a.retainedFrames = L.owed.map OwedFrame.frame) ∧
      (L.owed.Pairwise fun o o' =>
        o.created < o'.created ∨ (o.session = o'.session ∧ o.pos < o'.pos)) ∧
      ∀ keep, RetainedFrames.load (RetainedFrames.prune p.db name keep) name
        = RetainedFrames.load p.db name := by
  have hsim : ∃ p, exec (Process.step codec name) ⟨db, none⟩ acts = some p ∧
      Refines codec name L p := by
    refine exec_simulation ?_ (refines_empty codec hdb) hc hrun
    intro L p act L' hc h hs
    exact refines_step h hc hs
  obtain ⟨p, hp, h⟩ := hsim
  refine ⟨p, hp, h.running.symm, h.onDisk.load_eq h.wellFormed, ?_, ?_, ?_⟩
  · intro a ha
    have hm := h.inMemory a ha
    exact ⟨hm.resendOrder_eq h.wellFormed, hm.retainedFrames_eq h.wellFormed⟩
  · exact h.wellFormed.owed_pairwise_created
  · intro keep
    rw [(h.onDisk.prune keep).load_eq h.wellFormed, h.onDisk.load_eq h.wellFormed]

/-- The stored JSON of `STARTED` reports of task `t`, as far as it is read back. -/
def startedCodec : FrameCodec where
  dump _ := "\x7b\"type\":\"STARTED\",\"task\":\"t\"\x7d"
  validate text :=
    if text = "\x7b\"type\":\"STARTED\",\"task\":\"t\"\x7d" then some ⟨.task .started "t", none⟩
    else none

/-- Two lifetimes; the second acks a frame of the first. -/
def twoLifetimes : List (LedgerAct FromAgentMessage) :=
  [.astart "s1" 1, .emit 1 ⟨.task .started "t", none⟩ 1, .emit 2 ⟨.task .started "t", none⟩ 1,
    .exit, .astart "s2" 2, .emit 1 ⟨.task .started "t", none⟩ 2, .ack "s1" 1]

theorem retained_across_restarts_twoLifetimes :
    ∃ p, exec (Process.step startedCodec "app") ⟨JournalDb.empty, none⟩ twoLifetimes = some p ∧
      (RetainedFrames.load p.db "app").map (fun f => (f.sessionId, f.pos))
        = [("s1", 2), ("s2", 1)] := by
  have hunused : JournalDb.empty.Unused "app" := ⟨by simp [JournalDb.empty, Table.empty],
    by simp [JournalDb.empty, Table.empty]⟩
  have hdecodes : ∀ act ∈ twoLifetimes, Decodes startedCodec act := by
    simp [twoLifetimes, Decodes, FrameCodec.RoundTrips, startedCodec]
  obtain ⟨L, hL⟩ : ∃ L, exec Ledger.step Ledger.empty twoLifetimes = some L := ⟨_, rfl⟩
  obtain ⟨p, hp, -, hload, -⟩ :=
    retained_across_restarts startedCodec "app" _ hunused twoLifetimes hdecodes L hL
  refine ⟨p, hp, ?_⟩
  obtain rfl := Option.some.inj hL
  rw [hload]
  decide

end Rekuest
