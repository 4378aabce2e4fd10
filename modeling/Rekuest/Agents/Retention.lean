import Mathlib.Data.Prod.Lex
import Mathlib.Data.String.Basic
import Mathlib.Algebra.Order.Ring.Rat
import Rekuest.Lib.OrderBy
import Rekuest.Lib.Table

/-!
# The retained frames on disk

The SQLite file of `rekuest/agents/retention.py`: the tables `journal` and `journal_sync`, and the
statements `RetainedFrames` runs on them for one agent name.
-/

namespace Rekuest

/-- A row of `journal`: a retained frame, as sent. -/
structure JournalRow where
  agent : String
  sessionId : String
  pos : ℤ
  frame : String
deriving DecidableEq

/-- `PRIMARY KEY (agent, session_id, pos)`. -/
def JournalRow.key (r : JournalRow) : String × String × ℤ := (r.agent, r.sessionId, r.pos)

/-- A row of `journal_sync`: when a session was created and how far the server acknowledged it. -/
structure SyncRow where
  agent : String
  sessionId : String
  createdAt : ℚ
  ackedPos : ℤ
deriving DecidableEq

/-- `PRIMARY KEY (agent, session_id)`. -/
def SyncRow.key (r : SyncRow) : String × String := (r.agent, r.sessionId)

/-- The journal file. -/
structure JournalDb where
  journal : Table JournalRow.key
  journalSync : Table SyncRow.key

/-- A file no agent wrote to yet. -/
def JournalDb.empty : JournalDb := ⟨Table.empty, Table.empty⟩

/-- `StoredFrame`: one retained frame, as `load` reads it. -/
structure StoredFrame where
  sessionId : String
  createdAt : ℚ
  pos : ℤ
  frame : String
deriving DecidableEq

/-- The order frames are sent again in: by session creation, session and position. -/
abbrev ResendRank := ℚ ×ₗ (String ×ₗ ℤ)

/-- The rank of position `pos` of a session created at `created`. -/
def resendRank (created : ℚ) (session : String) (pos : ℤ) : ResendRank :=
  toLex (created, toLex (session, pos))

theorem resendRank_lt_of_created_lt {c c' : ℚ} (h : c < c') (s s' : String) (p p' : ℤ) :
    resendRank c s p < resendRank c' s' p' :=
  Prod.Lex.toLex_lt_toLex.mpr (Or.inl h)

theorem resendRank_lt_of_pos_lt {p p' : ℤ} (h : p < p') (c : ℚ) (s : String) :
    resendRank c s p < resendRank c s p' :=
  Prod.Lex.toLex_lt_toLex.mpr (Or.inr ⟨rfl, Prod.Lex.toLex_lt_toLex.mpr (Or.inr ⟨rfl, h⟩)⟩)

namespace RetainedFrames

variable (db : JournalDb) (agent : String)

/-- `open_session`: know a session; answers the creation time on record, which an earlier call
may have set. -/
def openSession (session : String) (createdAt : Option ℚ) (now : ℚ) : ℚ × JournalDb :=
  let created := createdAt.getD now
  let sync := db.journalSync.insertOrIgnore ⟨agent, session, created, 0⟩
  -- the row is there after the insert, so the default is never used
  (((sync.row? (agent, session)).map SyncRow.createdAt).getD created,
    { db with journalSync := sync })

/-- `add`: retain a frame; a re-sent one replaces itself. -/
def add (session : String) (pos : ℤ) (frame : String) : JournalDb :=
  { db with journal := db.journal.insertOrReplace ⟨agent, session, pos, frame⟩ }

/-- `ack`: drop everything of `session` up to `pos`, and raise its watermark. -/
def ack (session : String) (pos : ℤ) : JournalDb where
  journal := db.journal.deleteWhere fun r =>
    r.agent = agent ∧ r.sessionId = session ∧ r.pos ≤ pos
  journalSync := db.journalSync.updateWhere
    (fun r => r.agent = agent ∧ r.sessionId = session)
    (fun r => { r with ackedPos := max r.ackedPos pos }) fun _ => rfl

/-- `prune`: forget the sessions with nothing left to send, but `keep`. -/
def prune (keep : Option String) : JournalDb :=
  { db with
    journalSync := db.journalSync.deleteWhere fun r =>
      r.agent = agent ∧ r.sessionId ≠ keep.getD "" ∧
        ¬ ∃ j ∈ db.journal.rows, j.agent = r.agent ∧ j.sessionId = r.sessionId }

/-- The `journal_sync` row a `journal` row joins with. -/
def syncOf (j : JournalRow) : Option SyncRow := db.journalSync.row? (j.agent, j.sessionId)

/-- `COALESCE(s.acked_pos, 0)`. -/
def ackedPos (j : JournalRow) : ℤ := ((syncOf db j).map SyncRow.ackedPos).getD 0

/-- `COALESCE(s.created_at, 0)`. -/
def createdAt (j : JournalRow) : ℚ := ((syncOf db j).map SyncRow.createdAt).getD 0

/-- A joined row, as `load` yields it. -/
def stored (j : JournalRow) : StoredFrame := ⟨j.sessionId, createdAt db j, j.pos, j.frame⟩

/-- `load`: every retained frame above its session's watermark, in resend order. -/
def load : List StoredFrame :=
  orderBy (fun f => resendRank f.createdAt f.sessionId f.pos)
    ((db.journal.rows.filter fun j => j.agent = agent ∧ ackedPos db j < j.pos).map (stored db))

variable {db agent}

theorem mem_load {f : StoredFrame} :
    f ∈ load db agent ↔
      ∃ j ∈ db.journal.rows, j.agent = agent ∧ ackedPos db j < j.pos ∧ stored db j = f := by
  simp only [load, mem_orderBy, List.mem_map, List.mem_filter, decide_eq_true_eq]
  constructor
  · rintro ⟨j, ⟨hj, ha, hp⟩, rfl⟩
    exact ⟨j, hj, ha, hp, rfl⟩
  · rintro ⟨j, hj, ha, hp, rfl⟩
    exact ⟨j, ⟨hj, ha, hp⟩, rfl⟩

/-- The sync rows after an ack: the acked session's watermark raised, the others as before. -/
theorem mem_sync_ack {session : String} {pos : ℤ} {r : SyncRow} :
    r ∈ (ack db agent session pos).journalSync.rows ↔ ∃ r' ∈ db.journalSync.rows,
      (if r'.agent = agent ∧ r'.sessionId = session then
        { r' with ackedPos := max r'.ackedPos pos } else r') = r := by
  refine (Table.mem_updateWhere (by intro _; rfl)).trans ?_
  simp

/-- An ack leaves every session known. -/
theorem exists_sync_ack {r : SyncRow} (hr : r ∈ db.journalSync.rows) (agent session : String)
    (pos : ℤ) : ∃ r' ∈ (ack db agent session pos).journalSync.rows,
      r'.agent = r.agent ∧ r'.sessionId = r.sessionId := by
  refine ⟨_, mem_sync_ack.mpr ⟨r, hr, rfl⟩, ?_⟩
  split <;> exact ⟨rfl, rfl⟩

/-- `load` is a given list as soon as that list is strictly in resend order and has the same
frames: the primary key leaves no frame twice. -/
theorem load_eq {l : List StoredFrame}
    (hs : l.Pairwise fun f g =>
      resendRank f.createdAt f.sessionId f.pos < resendRank g.createdAt g.sessionId g.pos)
    (hmem : ∀ f, f ∈ load db agent ↔ f ∈ l) : load db agent = l := by
  refine orderBy_eq_of_perm ?_ hs
  have hinj : ∀ j ∈ db.journal.rows.filter
        (fun j => decide (j.agent = agent ∧ ackedPos db j < j.pos)),
      ∀ k ∈ db.journal.rows.filter
        (fun j => decide (j.agent = agent ∧ ackedPos db j < j.pos)),
      stored db j = stored db k → j = k := by
    intro j hj k hk hjk
    simp only [List.mem_filter, decide_eq_true_eq] at hj hk
    simp only [stored, StoredFrame.mk.injEq] at hjk
    refine db.journal.eq_of_key_eq hj.1 hk.1 ?_
    simp [JournalRow.key, hj.2.1, hk.2.1, hjk.1, hjk.2.2.1]
  rw [List.perm_ext_iff_of_nodup ((db.journal.nodup_rows.filter _).map_on hinj)
    (hs.imp fun h => by rintro rfl; exact lt_irrefl _ h)]
  intro f
  rw [← hmem f, load, mem_orderBy]

end RetainedFrames

end Rekuest
