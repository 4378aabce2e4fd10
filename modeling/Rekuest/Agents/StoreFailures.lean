import Rekuest.Agents.Restart

/-!
# A store that fails

One life of an agent whose store may fail at any call, each leaving the file as it was. The agent
retains in memory what it would with a store that works; what the file would give a new process
can be told from the frames that were written and the acks that were recorded.
-/

namespace Rekuest

open Runs

/-! ## What the file gives a new process

A process loads the frames of a session that are above the session's watermark. Every call of the
store is therefore described by what it does to frames and watermarks, and with that by what is
loaded after it.
-/

namespace RetainedFrames

/-- How far a session is acknowledged on disk, 0 where it is not known. -/
def watermark (db : JournalDb) (agent session : String) : ℤ :=
  ((db.journalSync.row? (agent, session)).map SyncRow.ackedPos).getD 0

/-- A new process of `agent` loads the frame `text` at `pos` of `session`. -/
def Loads (db : JournalDb) (agent session : String) (pos : ℤ) (text : String) : Prop :=
  ∃ f ∈ load db agent, f.sessionId = session ∧ f.pos = pos ∧ f.frame = text

variable {db : JournalDb} {agent session : String} {pos : ℤ} {text : String}

theorem loads_iff : Loads db agent session pos text
    ↔ ⟨agent, session, pos, text⟩ ∈ db.journal.rows ∧ watermark db agent session < pos := by
  constructor
  · rintro ⟨f, hf, rfl, rfl, rfl⟩
    obtain ⟨j, hj, rfl, hpos, rfl⟩ := mem_load.mp hf
    exact ⟨hj, hpos⟩
  · rintro ⟨hj, hpos⟩
    exact ⟨_, mem_load.mpr ⟨_, hj, rfl, hpos, rfl⟩, rfl, rfl, rfl⟩

/-- A frame added is loaded if it is above the watermark, in place of one under its key. -/
theorem loads_add {session' text' : String} {pos' : ℤ} :
    Loads (add db agent session' pos' text') agent session pos text
      ↔ (session = session' ∧ pos = pos' ∧ text = text' ∧ watermark db agent session < pos)
        ∨ Loads db agent session pos text ∧ ¬ (session = session' ∧ pos = pos') := by
  rw [loads_iff, loads_iff, add, Table.mem_insertOrReplace]
  change (_ ∨ _) ∧ watermark db agent session < pos ↔ _
  simp only [JournalRow.mk.injEq, true_and, JournalRow.key, ne_eq, Prod.mk.injEq]
  tauto

/-- A lookup in the sync table after an ack: the acked session's watermark raised. -/
theorem row?_ack (db : JournalDb) (agent session : String) (pos : ℤ) (k : String × String) :
    (ack db agent session pos).journalSync.row? k = (db.journalSync.row? k).map fun r =>
      if decide (r.agent = agent ∧ r.sessionId = session) then
        { r with ackedPos := max r.ackedPos pos } else r :=
  Table.row?_updateWhere db.journalSync _ (fun r => { r with ackedPos := max r.ackedPos pos })
    (fun _ => rfl) k

/-- An ack raises the watermark of its own session, where that is known. -/
theorem watermark_ack (db : JournalDb) (agent session session' : String) (pos' : ℤ) :
    watermark (ack db agent session' pos') agent session
      = if session = session' ∧ (db.journalSync.row? (agent, session)).isSome then
          max (watermark db agent session) pos' else watermark db agent session := by
  rw [watermark, watermark, row?_ack]
  cases hrow : db.journalSync.row? (agent, session) with
  | none => simp
  | some r =>
    have hkey := (Table.row?_eq_some.mp hrow).2
    simp only [SyncRow.key, Prod.mk.injEq] at hkey
    by_cases hs : session = session' <;> simp [hkey, hs]

/-- An ack drops what it covers, and hides nothing else. -/
theorem loads_ack {session' : String} {pos' : ℤ} :
    Loads (ack db agent session' pos') agent session pos text
      ↔ Loads db agent session pos text ∧ ¬ (session = session' ∧ pos ≤ pos') := by
  rw [loads_iff, loads_iff, watermark_ack]
  simp only [ack, Table.mem_deleteWhere, decide_eq_false_iff_not, true_and]
  by_cases hs : session = session'
  · split
    · simp only [hs, true_and, max_lt_iff, not_le]
      tauto
    · tauto
  · rw [if_neg fun h => hs h.1]
    tauto

/-- Pruning leaves the row of the session kept, and of one with a frame on disk. -/
theorem row?_prune {keep : Option String} (h : session = keep.getD ""
      ∨ ∃ j ∈ db.journal.rows, j.agent = agent ∧ j.sessionId = session) :
    (prune db agent keep).journalSync.row? (agent, session)
      = db.journalSync.row? (agent, session) := by
  rw [prune, Table.row?_deleteWhere]
  cases hrow : db.journalSync.row? (agent, session) with
  | none => rfl
  | some r =>
    have hkey := (Table.row?_eq_some.mp hrow).2
    simp only [SyncRow.key, Prod.mk.injEq] at hkey
    obtain ⟨rfl, rfl⟩ := hkey
    rw [Option.filter_some, if_pos]
    simp only [true_and, Bool.not_eq_true', decide_eq_false_iff_not]
    rintro ⟨hne, hnone⟩
    exact h.elim hne hnone

/-- Pruning leaves the watermark of the session kept. -/
theorem watermark_prune_keep (db : JournalDb) (agent session : String) :
    watermark (prune db agent (some session)) agent session = watermark db agent session := by
  have hrow : (prune db agent (some session)).journalSync.row? (agent, session)
      = db.journalSync.row? (agent, session) := row?_prune (Or.inl rfl)
  rw [watermark, watermark, hrow]

/-- Pruning hides nothing. -/
theorem loads_prune {keep : Option String} :
    Loads (prune db agent keep) agent session pos text ↔ Loads db agent session pos text := by
  rw [loads_iff, loads_iff]
  change (_ ∈ db.journal.rows ∧ _) ↔ _
  refine and_congr_right fun hj => ?_
  rw [watermark, watermark, row?_prune (Or.inr ⟨_, hj, rfl, rfl⟩)]

/-- Knowing a session leaves the rows of the others. -/
theorem row?_openSession_of_ne {session' : String} {created now : ℚ} (h : session ≠ session') :
    (openSession db agent session' (some created) now).2.journalSync.row? (agent, session)
      = db.journalSync.row? (agent, session) :=
  Table.row?_insertOrIgnore_of_ne _ fun hkey => h (Prod.mk.inj hkey).2

/-- Knowing a session nothing is retained of changes nothing that is loaded. -/
theorem loads_openSession {session' : String} {created now : ℚ}
    (hnew : ∀ j ∈ db.journal.rows, j.agent = agent → j.sessionId ≠ session') :
    Loads (openSession db agent session' (some created) now).2 agent session pos text
      ↔ Loads db agent session pos text := by
  rw [loads_iff, loads_iff]
  change (_ ∈ db.journal.rows ∧ _) ↔ _
  refine and_congr_right fun hj => ?_
  rw [watermark, watermark, row?_openSession_of_ne (hnew _ hj rfl)]

/-- A session without a row is acknowledged up to 0 once it is known. -/
theorem watermark_openSession {created now : ℚ}
    (hnew : ∀ r ∈ db.journalSync.rows, r.agent = agent → r.sessionId ≠ session) :
    watermark (openSession db agent session (some created) now).2 agent session = 0 := by
  have hrow : (openSession db agent session (some created) now).2.journalSync.row?
      (agent, session) = some ⟨agent, session, created, 0⟩ := by
    refine Table.row?_eq_some.mpr ⟨Table.mem_insertOrIgnore.mpr (Or.inr ⟨rfl, ?_⟩), rfl⟩
    refine Table.row?_eq_none.mpr fun r hr hkey => ?_
    exact hnew r hr (Prod.mk.inj hkey).1 (Prod.mk.inj hkey).2
  rw [watermark, hrow]
  rfl

end RetainedFrames

/-! ## What the agent's store calls leave

`_retain_emitted` and `_journal_ack` log a call that fails and go on, so that memory changes in any
case and the file by the calls that went through.
-/

namespace RekuestAgent

variable (codec : FrameCodec)

/-- With the store open and the session on record, only the frame's own `add` can fail. -/
theorem retainEmitted_of_recorded {a : RekuestAgent} (hopen : a.storeOpen = true)
    (entry : JournalEntry) (hknown : (a.sessionCreated.get? entry.sessionId).isSome)
    (faults : StoreFaults) (message : FromAgentMessage) (now : ℚ) (db : JournalDb) :
    retainEmitted codec faults message (some entry) now a db
      = ({ a with retained := a.retained.set (entry.sessionId, entry.pos) message },
          if faults.add then db
          else RetainedFrames.add db a.name entry.sessionId entry.pos (codec.dump message)) := by
  rw [retainEmitted, persistEmitted, knowSession, if_pos hknown]
  simp only [openStore, hopen, if_true]
  split <;> rfl

/-- With the store open, an ack leaves the file as it was, acked, or acked and pruned. -/
theorem journalAck_db {a : RekuestAgent} (hopen : a.storeOpen = true) (faults : StoreFaults)
    (session : String) (pos : ℤ) (db : JournalDb) :
    (journalAck codec faults session pos a db).2 = db ∧ faults.ack = true
      ∨ faults.ack = false ∧
        ((journalAck codec faults session pos a db).2
            = RetainedFrames.ack db a.name session pos
          ∨ (journalAck codec faults session pos a db).2
            = RetainedFrames.prune (RetainedFrames.ack db a.name session pos) a.name
                (some a.currentSession)) := by
  rw [journalAck]
  simp only [openStore, hopen, if_true]
  cases faults.ack with
  | true => exact Or.inl ⟨rfl, rfl⟩
  | false =>
    refine Or.inr ⟨rfl, ?_⟩
    simp only [Bool.false_eq_true, if_false]
    split
    · exact Or.inl rfl
    · split
      · exact Or.inl rfl
      · exact Or.inr rfl

/-- What a start leaves: the store open, the session on record, and the file as it was but for the
session's row. -/
theorem astart_ok {codec : FrameCodec} {faults : StoreFaults} {session : String} {now : ℚ}
    {a a' : RekuestAgent} {db db' : JournalDb}
    (h : astart codec faults session now a db = .ok (a', db')) :
    a'.name = a.name ∧ a'.currentSession = session ∧ a'.storeOpen = true
      ∧ (a'.sessionCreated.get? session).isSome
      ∧ (db' = db ∨ db' = (RetainedFrames.openSession db a.name session (some now) now).2) := by
  rw [astart, knowSession] at h
  split at h
  · rename_i hknown
    simp only [Except.ok.injEq, Prod.mk.injEq] at h
    obtain ⟨rfl, rfl⟩ := h
    exact ⟨by simp, by simp, by simp, hknown, Or.inl rfl⟩
  · split at h
    · simp at h
    · simp only [Except.ok.injEq, Prod.mk.injEq] at h
      obtain ⟨rfl, rfl⟩ := h
      refine ⟨by simp, by simp, by simp, by simp, Or.inr ?_⟩
      simp

end RekuestAgent

/-! ## One life of an agent

A life begins with a start that went through and then emits frames and hears acks. Each call of the
store may fail, in any pattern; what the life put on disk is noted.
-/

/-- One life of an agent on a store that may fail: its memory, the file, the frames it emitted in
its session, each with whether its `add` succeeded, and the acks it heard, each with whether it was
recorded. -/
structure FaultyRun where
  agent : RekuestAgent
  db : JournalDb
  log : SessionLog (FromAgentMessage × Bool)
  acks : List (String × ℤ × Bool)

/-- What the agent does with its store, and which of the calls fail. -/
inductive FaultyAct
  | retainEmitted (pos : ℤ) (message : FromAgentMessage) (now : ℚ) (faults : StoreFaults)
  | journalAck (session : String) (pos : ℤ) (faults : StoreFaults)

/-- The same, with no call failing. -/
def FaultyAct.succeeding : FaultyAct → FaultyAct
  | .retainEmitted pos message now _ => .retainEmitted pos message now .none
  | .journalAck session pos _ => .journalAck session pos .none

namespace FaultyRun

open RekuestAgent (new astart)

variable (codec : FrameCodec)

/-- A start that went through: the session is on record. -/
def start (faults : StoreFaults) (name built session : String) (now : ℚ) (db : JournalDb) :
    Option FaultyRun :=
  match astart codec faults session now (new name built) db with
  | .ok (agent, db) => some ⟨agent, db, ⟨session, now, []⟩, []⟩
  | .error _ => none

/-- One step: positions increase within the session, and no ack of it is above the highest. -/
def step (s : FaultyRun) : FaultyAct → Option FaultyRun
  | .retainEmitted pos message now faults =>
    if s.log.highest < pos then
      let (agent, db) := s.agent.retainEmitted codec faults message
        (some ⟨s.agent.currentSession, pos⟩) now s.db
      some { s with
        agent, db
        log := { s.log with frames := s.log.frames ++ [(pos, message, !faults.add)] } }
    else none
  | .journalAck session pos faults =>
    if session = s.agent.currentSession → pos ≤ s.log.highest then
      let (agent, db) := s.agent.journalAck codec faults session pos s.db
      some { s with agent, db, acks := s.acks ++ [(session, pos, !faults.ack)] }
    else none

/-- A frame this life put on disk. -/
def Added (s : FaultyRun) (session : String) (pos : ℤ) (text : String) : Prop :=
  session = s.agent.currentSession
    ∧ ∃ message, (pos, message, true) ∈ s.log.frames ∧ codec.dump message = text

/-- An ack this life recorded covers the position. -/
def Covered (s : FaultyRun) (session : String) (pos : ℤ) : Prop :=
  ∃ p, (session, p, true) ∈ s.acks ∧ pos ≤ p

/-- What every step keeps: the session stays on record, nothing is acked above its highest
position, and the file loads what was there or was added, but for what a recorded ack covers. -/
structure Kept (name session : String) (db₀ : JournalDb) (s : FaultyRun) : Prop where
  named : s.agent.name = name
  running : s.agent.currentSession = session
  opened : s.agent.storeOpen = true
  recorded : (s.agent.sessionCreated.get? session).isSome
  watermark : RetainedFrames.watermark s.db name session ≤ s.log.highest
  acked : ∀ p recorded, (session, p, recorded) ∈ s.acks → p ≤ s.log.highest
  loads : ∀ session' pos text, RetainedFrames.Loads s.db name session' pos text ↔
    (RetainedFrames.Loads db₀ name session' pos text ∨ s.Added codec session' pos text)
      ∧ ¬ s.Covered session' pos

end FaultyRun

/-- Nothing in the file is of this session. -/
def JournalDb.Lacks (db : JournalDb) (name session : String) : Prop :=
  (∀ j ∈ db.journal.rows, j.agent = name → j.sessionId ≠ session)
    ∧ ∀ r ∈ db.journalSync.rows, r.agent = name → r.sessionId ≠ session

namespace FaultyRun

open RekuestAgent (new astart)

variable {codec : FrameCodec} {name session : String} {db₀ : JournalDb}

theorem watermark_of_lacks (h : db₀.Lacks name session) :
    RetainedFrames.watermark db₀ name session = 0 := by
  have hrow : db₀.journalSync.row? (name, session) = none :=
    Table.row?_eq_none.mpr fun r hr hkey =>
      h.2 r hr (Prod.mk.inj hkey).1 (Prod.mk.inj hkey).2
  rw [RetainedFrames.watermark, hrow]
  rfl

theorem kept_start (hlacks : db₀.Lacks name session) {faults : StoreFaults} {built : String}
    {now : ℚ} {s : FaultyRun} (h : start codec faults name built session now db₀ = some s) :
    s.Kept codec name session db₀ := by
  rw [start] at h
  split at h
  · rename_i agent db hstart
    obtain ⟨hname, hsession, hopened, hrecorded, hdb⟩ := RekuestAgent.astart_ok hstart
    obtain rfl := Option.some.inj h
    refine ⟨hname, hsession, hopened, hrecorded, ?_, by simp, fun session' pos text => ?_⟩
    · rcases hdb with rfl | rfl
      · exact (watermark_of_lacks hlacks).le
      · exact (RetainedFrames.watermark_openSession hlacks.2).le
    · have hadded : ¬ Added codec ⟨agent, db, ⟨session, now, []⟩, []⟩ session' pos text := by
        rintro ⟨-, message, hmem, -⟩
        simp at hmem
      have hcovered : ¬ Covered ⟨agent, db, ⟨session, now, []⟩, []⟩ session' pos := by
        rintro ⟨p, hmem, -⟩
        simp at hmem
      simp only [hadded, hcovered, or_false, not_false_eq_true, and_true]
      rcases hdb with rfl | rfl
      · rfl
      · exact RetainedFrames.loads_openSession hlacks.1
  · simp at h

/-! ## What a frame emitted and an ack heard keep

Nothing is loaded above the highest position of the session, so a frame emitted there stands in the
way of no other.
-/

/-- Retaining a frame: in memory always, on disk if `add` goes through. -/
theorem step_retainEmitted {s t : FaultyRun} (h : s.Kept codec name session db₀) {pos : ℤ}
    {message : FromAgentMessage} {now : ℚ} {faults : StoreFaults} :
    step codec s (.retainEmitted pos message now faults) = some t ↔ s.log.highest < pos
      ∧ t = ⟨{ s.agent with retained := s.agent.retained.set (session, pos) message },
          if faults.add then s.db
          else RetainedFrames.add s.db s.agent.name session pos (codec.dump message),
          { s.log with frames := s.log.frames ++ [(pos, message, !faults.add)] }, s.acks⟩ := by
  have hretain := RekuestAgent.retainEmitted_of_recorded codec h.opened ⟨session, pos⟩ h.recorded
    faults message now s.db
  rw [step, h.running, hretain, Option.ite_none_right_eq_some, Option.some.injEq]
  exact and_congr_right fun _ => eq_comm

/-- Nothing is loaded above the highest position of the session. -/
theorem Kept.not_loads {s : FaultyRun} (h : s.Kept codec name session db₀)
    (hlacks : db₀.Lacks name session) {pos : ℤ} (hpos : s.log.highest < pos) (text : String) :
    ¬ RetainedFrames.Loads s.db name session pos text := by
  rw [h.loads]
  rintro ⟨hloads | ⟨-, message, hmem, -⟩, -⟩
  · exact hlacks.1 _ (RetainedFrames.loads_iff.mp hloads).1 rfl rfl
  · exact absurd (Ledger.pos_le_highest hmem) (not_le.mpr hpos)

/-- A frame emitted above the highest position is loaded if its `add` went through; nothing else
changes. -/
theorem Kept.retainEmitted {s t : FaultyRun} (h : s.Kept codec name session db₀)
    (hlacks : db₀.Lacks name session) {pos : ℤ} {message : FromAgentMessage} {now : ℚ}
    {faults : StoreFaults} (ht : step codec s (.retainEmitted pos message now faults) = some t) :
    t.Kept codec name session db₀ := by
  obtain ⟨hpos, ht⟩ := (step_retainEmitted h).mp ht
  have hhigh : t.log.highest = max s.log.highest pos := by
    rw [ht]
    exact Ledger.highest_append s.log pos (message, !faults.add)
  have hloads : ∀ session' pos' text, RetainedFrames.Loads t.db name session' pos' text ↔
      RetainedFrames.Loads s.db name session' pos' text
        ∨ faults.add = false ∧ session' = session ∧ pos' = pos ∧ text = codec.dump message := by
    intro session' pos' text
    rw [ht]
    cases faults.add with
    | true => simp
    | false =>
      simp only [Bool.false_eq_true, if_false, h.named, RetainedFrames.loads_add, true_and]
      constructor
      · rintro (⟨rfl, rfl, rfl, -⟩ | ⟨hl, -⟩)
        · exact Or.inr ⟨rfl, rfl, rfl⟩
        · exact Or.inl hl
      · rintro (hl | ⟨rfl, rfl, rfl⟩)
        · refine Or.inr ⟨hl, ?_⟩
          rintro ⟨rfl, rfl⟩
          exact h.not_loads hlacks hpos _ hl
        · exact Or.inl ⟨rfl, rfl, rfl, h.watermark.trans_lt hpos⟩
  -- the frame is noted as added exactly where its `add` went through
  have hadded : ∀ session' pos' text, t.Added codec session' pos' text ↔
      s.Added codec session' pos' text
        ∨ faults.add = false ∧ session' = session ∧ pos' = pos ∧ text = codec.dump message := by
    intro session' pos' text
    rw [ht]
    simp only [Added, h.running, List.mem_append, List.mem_singleton, Prod.mk.injEq]
    constructor
    · rintro ⟨rfl, m, hm | ⟨rfl, rfl, hadd⟩, rfl⟩
      · exact Or.inl ⟨rfl, m, hm, rfl⟩
      · exact Or.inr ⟨by simpa using hadd.symm, rfl, rfl, rfl⟩
    · rintro (⟨rfl, m, hm, rfl⟩ | ⟨hadd, rfl, rfl, rfl⟩)
      · exact ⟨rfl, m, Or.inl hm, rfl⟩
      · exact ⟨rfl, message, Or.inr ⟨rfl, rfl, by simp [hadd]⟩, rfl⟩
  have hcovered : ∀ session' pos', t.Covered session' pos' ↔ s.Covered session' pos' := by
    intro session' pos'
    rw [ht]
    rfl
  refine ⟨by rw [ht]; exact h.named, by rw [ht]; exact h.running, by rw [ht]; exact h.opened,
    by rw [ht]; exact h.recorded, ?_, fun p recorded hp => ?_, fun session' pos' text => ?_⟩
  · rw [hhigh, ht]
    refine le_trans ?_ (h.watermark.trans (le_max_left _ _))
    dsimp only
    split <;> exact le_refl _
  · rw [ht] at hp
    rw [hhigh]
    exact (h.acked p recorded hp).trans (le_max_left _ _)
  · rw [hloads, h.loads, hadded, hcovered]
    constructor
    · rintro (⟨hl | ha, hc⟩ | ⟨hadd, rfl, rfl, rfl⟩)
      · exact ⟨Or.inl hl, hc⟩
      · exact ⟨Or.inr (Or.inl ha), hc⟩
      · refine ⟨Or.inr (Or.inr ⟨hadd, rfl, rfl, rfl⟩), ?_⟩
        -- an ack that covers the new frame would be above all positions so far
        rintro ⟨p, hp, hle⟩
        exact absurd (hle.trans (h.acked p true hp)) (not_le.mpr hpos)
    · rintro ⟨hl | ha | hnew, hc⟩
      · exact Or.inl ⟨Or.inl hl, hc⟩
      · exact Or.inl ⟨Or.inr ha, hc⟩
      · exact Or.inr hnew

/-- Hearing an ack: in memory always, on disk if the store takes it. -/
theorem step_journalAck {s t : FaultyRun} (h : s.Kept codec name session db₀) {session' : String}
    {pos : ℤ} {faults : StoreFaults} :
    step codec s (.journalAck session' pos faults) = some t ↔
      (session' = session → pos ≤ s.log.highest)
      ∧ t = ⟨{ s.agent with retained := s.agent.retained.filterKeys fun key =>
            ¬ (key.1 = session' ∧ key.2 ≤ pos) },
          (s.agent.journalAck codec faults session' pos s.db).2, s.log,
          s.acks ++ [(session', pos, !faults.ack)]⟩ := by
  simp only [step, h.running, Option.ite_none_right_eq_some, Option.some.injEq,
    RekuestAgent.journalAck_of_open codec h.opened]
  exact and_congr_right fun _ => eq_comm

/-- An ack drops what it covers if it was recorded; nothing else changes. -/
theorem Kept.journalAck {s t : FaultyRun} (h : s.Kept codec name session db₀)
    {session' : String} {pos : ℤ} {faults : StoreFaults}
    (ht : step codec s (.journalAck session' pos faults) = some t) :
    t.Kept codec name session db₀ := by
  obtain ⟨hpos, ht⟩ := (step_journalAck h).mp ht
  have hdb := RekuestAgent.journalAck_db codec h.opened faults session' pos s.db
  rw [h.named, h.running] at hdb
  -- pruning hides nothing, so both ways an ack is recorded load the same
  have hloads : ∀ k p text, RetainedFrames.Loads t.db name k p text ↔
      RetainedFrames.Loads s.db name k p text
        ∧ ¬ (faults.ack = false ∧ k = session' ∧ p ≤ pos) := by
    intro k p text
    rw [ht]
    obtain ⟨hdb, hack⟩ | ⟨hack, hdb | hdb⟩ := hdb
    · simp [hdb, hack]
    · simp only [hdb, hack, RetainedFrames.loads_ack, true_and]
    · simp only [hdb, hack, RetainedFrames.loads_prune, RetainedFrames.loads_ack, true_and]
  have hcovered : ∀ k p, t.Covered k p ↔
      s.Covered k p ∨ faults.ack = false ∧ k = session' ∧ p ≤ pos := by
    intro k p
    rw [ht]
    simp only [Covered, List.mem_append, List.mem_singleton, Prod.mk.injEq]
    constructor
    · rintro ⟨q, hq | ⟨rfl, rfl, hack⟩, hle⟩
      · exact Or.inl ⟨q, hq, hle⟩
      · exact Or.inr ⟨by simpa using hack.symm, rfl, hle⟩
    · rintro (⟨q, hq, hle⟩ | ⟨hack, rfl, hle⟩)
      · exact ⟨q, Or.inl hq, hle⟩
      · exact ⟨pos, Or.inr ⟨rfl, rfl, by simp [hack]⟩, hle⟩
  have hadded : ∀ k p text, t.Added codec k p text ↔ s.Added codec k p text := by
    intro k p text
    rw [ht]
    rfl
  have hmark : RetainedFrames.watermark (RetainedFrames.ack s.db name session' pos) name session
      ≤ s.log.highest := by
    rw [RetainedFrames.watermark_ack]
    split
    · rename_i hsame
      exact max_le h.watermark (hpos hsame.1.symm)
    · exact h.watermark
  refine ⟨by rw [ht]; exact h.named, by rw [ht]; exact h.running, by rw [ht]; exact h.opened,
    by rw [ht]; exact h.recorded, ?_, fun p recorded hp => ?_, fun k p text => ?_⟩
  · rw [ht]
    obtain ⟨hdb, -⟩ | ⟨-, hdb | hdb⟩ := hdb
    · rw [hdb]
      exact h.watermark
    · rw [hdb]
      exact hmark
    · -- the prune keeps the running session's row
      rw [hdb, RetainedFrames.watermark_prune_keep]
      exact hmark
  · rw [ht] at hp ⊢
    rcases List.mem_append.mp hp with hp | hp
    · exact h.acked p recorded hp
    · obtain ⟨rfl, rfl, -⟩ := by simpa using hp
      exact hpos rfl
  · rw [hloads, h.loads, hadded, hcovered, not_or, and_assoc]

/-- Every step keeps it. -/
theorem Kept.step (hlacks : db₀.Lacks name session) {s t : FaultyRun}
    (h : s.Kept codec name session db₀) {act : FaultyAct} (ht : step codec s act = some t) :
    t.Kept codec name session db₀ := by
  cases act with
  | retainEmitted pos message now faults => exact h.retainEmitted hlacks ht
  | journalAck session' pos faults => exact h.journalAck ht

/-! ## A life on a store that does not fail

The same acts are taken with no call failing. Memory is the same at every point of both runs.
-/

/-- Two lives with the same memory, at the same position. -/
structure Alike (s t : FaultyRun) : Prop where
  agent : s.agent = t.agent
  highest : s.log.highest = t.log.highest

/-- A step has the same effect on memory whichever calls fail, and can be taken all the same. -/
theorem Alike.step {s t : FaultyRun} (h : Alike s t) (hs : s.Kept codec name session db₀)
    (ht : t.Kept codec name session db₀) (act : FaultyAct) :
    (∀ s', step codec s act = some s' → ∃ t', step codec t act.succeeding = some t' ∧ Alike s' t')
      ∧ ∀ t', step codec t act.succeeding = some t' → ∃ s', step codec s act = some s' := by
  cases act with
  | retainEmitted pos message now faults =>
    refine ⟨fun s' hs' => ?_, fun t' ht' => ?_⟩
    · obtain ⟨hpos, rfl⟩ := (step_retainEmitted hs).mp hs'
      refine ⟨_, (step_retainEmitted ht).mpr ⟨h.highest ▸ hpos, rfl⟩, by simp only [h.agent], ?_⟩
      exact (Ledger.highest_append _ _ _).trans
        ((congrArg (max · pos) h.highest).trans (Ledger.highest_append _ _ _).symm)
    · obtain ⟨hpos, -⟩ := (step_retainEmitted ht).mp ht'
      exact ⟨_, (step_retainEmitted hs).mpr ⟨h.highest ▸ hpos, rfl⟩⟩
  | journalAck session' pos faults =>
    refine ⟨fun s' hs' => ?_, fun t' ht' => ?_⟩
    · obtain ⟨hpos, rfl⟩ := (step_journalAck hs).mp hs'
      exact ⟨_, (step_journalAck ht).mpr ⟨h.highest ▸ hpos, rfl⟩, by simp only [h.agent],
        h.highest⟩
    · obtain ⟨hpos, -⟩ := (step_journalAck ht).mp ht'
      exact ⟨_, (step_journalAck hs).mpr ⟨h.highest ▸ hpos, rfl⟩⟩

/-- A run has the same effect on memory whichever calls fail. -/
theorem Alike.run (hlacks : db₀.Lacks name session) (acts : List FaultyAct) {s t : FaultyRun}
    (h : Alike s t) (hs : s.Kept codec name session db₀) (ht : t.Kept codec name session db₀) :
    (exec (FaultyRun.step codec) s acts).map FaultyRun.agent
      = (exec (FaultyRun.step codec) t (acts.map FaultyAct.succeeding)).map FaultyRun.agent := by
  induction acts generalizing s t with
  | nil => simp [h.agent]
  | cons act acts ih =>
    obtain ⟨hforth, hback⟩ := h.step hs ht act
    rw [List.map_cons, exec_cons, exec_cons]
    cases hs' : FaultyRun.step codec s act with
    | none =>
      cases ht' : FaultyRun.step codec t act.succeeding with
      | none => rfl
      | some t' =>
        obtain ⟨s', hs''⟩ := hback t' ht'
        rw [hs''] at hs'
        cases hs'
    | some s' =>
      obtain ⟨t', ht', halike⟩ := hforth s' hs'
      rw [ht']
      exact ih halike (hs.step hlacks hs') (ht.step hlacks ht')

/-! ## In every run -/

/-- A new process has in memory every frame its file loads, where it decodes to itself. -/
theorem retained_openStore_of_loads {db : JournalDb} {pos : ℤ} {message : FromAgentMessage}
    (hloads : RetainedFrames.Loads db name session pos (codec.dump message))
    (hround : codec.RoundTrips message) (built : String) :
    ((new name built).openStore codec db).retained.get? (session, pos) = some message := by
  rw [RekuestAgent.openStore, if_neg (by simp [new]),
    RekuestAgent.get?_retained_foldl_loadFrame]
  simp only [new, Dict.get?_empty, Option.none_or]
  obtain ⟨f, hf, hsession, hpos, hframe⟩ := hloads
  refine (findSome?_eq_some_iff_of_agree ?_).mpr ⟨f, hf, ?_⟩
  · intro g hg g' hg' m m' hm hm'
    obtain ⟨hk, hv⟩ := (Option.ite_none_right_eq_some.mp hm)
    obtain ⟨hk', hv'⟩ := (Option.ite_none_right_eq_some.mp hm')
    -- the primary key leaves one row under the key
    obtain ⟨j, hj, hja, -, rfl⟩ := RetainedFrames.mem_load.mp hg
    obtain ⟨j', hj', hja', -, rfl⟩ := RetainedFrames.mem_load.mp hg'
    have hjj : j = j' := db.journal.eq_of_key_eq hj hj' (by
      have hkk := Prod.mk.inj (hk.trans hk'.symm)
      simp only [RetainedFrames.stored] at hkk
      simp [JournalRow.key, hja, hja', hkk])
    subst hjj
    exact Option.some.inj (hv.symm.trans hv')
  · rw [if_pos (by rw [hsession, hpos]), hframe]
    exact hround

/-- A store that fails loses nothing. Whichever calls fail, memory is as if none had. A new process
loads what was in the file or was added since, but for what a recorded ack covers: an emitted frame
whose `add` went through and which no ack covers is in its memory again. -/
theorem store_failures_lose_nothing {faults : StoreFaults} {built : String} {now : ℚ}
    {s₀ : FaultyRun} (hlacks : db₀.Lacks name session)
    (hstart : start codec faults name built session now db₀ = some s₀) (acts : List FaultyAct) :
    ((exec (step codec) s₀ acts).map fun s => (s.agent.retained, s.agent.resendOrder))
        = ((exec (step codec) s₀ (acts.map FaultyAct.succeeding)).map fun s =>
          (s.agent.retained, s.agent.resendOrder))
      ∧ ∀ s, exec (step codec) s₀ acts = some s →
        (∀ session' pos text, RetainedFrames.Loads s.db name session' pos text ↔
          (RetainedFrames.Loads db₀ name session' pos text ∨ s.Added codec session' pos text)
            ∧ ¬ s.Covered session' pos)
        ∧ ∀ pos message, (pos, message, true) ∈ s.log.frames →
          (∀ p recorded, (session, p, recorded) ∈ s.acks → p < pos) →
          RetainedFrames.Loads s.db name session pos (codec.dump message)
            ∧ (codec.RoundTrips message → ∀ built',
              ((new name built').openStore codec s.db).retained.get? (session, pos)
                = some message) := by
  have hkept := kept_start hlacks hstart
  refine ⟨?_, fun s hs => ?_⟩
  · have hagent := Alike.run hlacks acts ⟨rfl, rfl⟩ hkept hkept
    have hmap := congrArg
      (Option.map fun a : RekuestAgent => (a.retained, a.resendOrder)) hagent
    rwa [Option.map_map, Option.map_map] at hmap
  · have hend : s.Kept codec name session db₀ :=
      exec_invariant hkept (fun _ _ _ hk ht => hk.step hlacks ht) hs
    refine ⟨hend.loads, fun pos message hmem hacks => ?_⟩
    have hloads : RetainedFrames.Loads s.db name session pos (codec.dump message) := by
      refine (hend.loads _ _ _).mpr ⟨Or.inr ⟨hend.running.symm, message, hmem, rfl⟩, ?_⟩
      rintro ⟨p, hp, hle⟩
      exact absurd (hacks p true hp) (not_lt.mpr hle)
    exact ⟨hloads, fun hround built' => retained_openStore_of_loads hloads hround built'⟩

/-- The add of the first frame fails, then the ack of it. -/
def failingActs : List FaultyAct :=
  [.retainEmitted 1 ⟨.task .started "t", none⟩ 1 ⟨false, true, false, false⟩,
    .retainEmitted 2 ⟨.task .started "t", none⟩ 1 .none,
    .journalAck "s" 1 ⟨false, false, true, false⟩]

theorem store_failures_lose_nothing_failingActs :
    ∃ s, (start startedCodec .none "app" "" "s" 1 JournalDb.empty).bind
        (fun s₀ => exec (step startedCodec) s₀ failingActs) = some s
      ∧ ((new "app" "").openStore startedCodec s.db).retained.get? ("s", 2)
        = some ⟨.task .started "t", none⟩ := by
  have hlacks : JournalDb.empty.Lacks "app" "s" := by
    simp [JournalDb.Lacks, JournalDb.empty, Table.empty]
  obtain ⟨s₀, s, hs₀, hs, hframes, hacks⟩ : ∃ s₀ s,
      start startedCodec .none "app" "" "s" 1 JournalDb.empty = some s₀
        ∧ exec (step startedCodec) s₀ failingActs = some s
        ∧ s.log.frames = [(1, ⟨.task .started "t", none⟩, false),
          (2, ⟨.task .started "t", none⟩, true)]
        ∧ s.acks = [("s", 1, false)] := ⟨_, _, rfl, rfl, rfl, rfl⟩
  obtain ⟨-, hdisk⟩ := store_failures_lose_nothing hlacks hs₀ failingActs
  refine ⟨s, by rw [hs₀]; exact hs, ?_⟩
  refine ((hdisk s hs).2 2 ⟨.task .started "t", none⟩ ?_ ?_).2 ?_ ""
  · simp [hframes]
  · rw [hacks]
    intro p recorded hp
    obtain ⟨rfl, -⟩ := by simpa using hp
    decide
  · simp [FrameCodec.RoundTrips, startedCodec]

end FaultyRun

end Rekuest
