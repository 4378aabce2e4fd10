import Rekuest.Agents.Retention
import Rekuest.Lib.Unwinding

/-!
# Agents that share a journal file

Every statement `RetainedFrames` runs names its agent: it reads and writes that agent's rows alone.
So agents of different names can use one file, whatever sessions and positions they use.
-/

namespace Rekuest

open RetainedFrames

/-- A call of `RetainedFrames`, with the time it is made at where that is read. -/
inductive JournalCall
  | openSession (session : String) (createdAt : Option ℚ) (now : ℚ)
  | add (session : String) (pos : ℤ) (frame : String)
  | ack (session : String) (pos : ℤ)
  | prune (keep : Option String)
  | load

/-- What a call returns. -/
inductive JournalAnswer
  | created (createdAt : ℚ)
  | none
  | frames (frames : List StoredFrame)
deriving DecidableEq

/-- One call by the agent of a name: what it returns, and the file after it. -/
def JournalDb.call (db : JournalDb) (agent : String) : JournalCall → JournalAnswer × JournalDb
  | .openSession session createdAt now =>
    let (created, db) := openSession db agent session createdAt now
    (.created created, db)
  | .add session pos frame => (.none, add db agent session pos frame)
  | .ack session pos => (.none, ack db agent session pos)
  | .prune keep => (.none, prune db agent keep)
  | .load => (.frames (load db agent), db)

namespace SharedJournal

/-- The rows of an agent. -/
def rowsOf (agent : String) (db : JournalDb) : JournalDb where
  journal := db.journal.scope fun r => r.agent = agent
  journalSync := db.journalSync.scope fun r => r.agent = agent

variable {db : JournalDb} {agent other : String}

/-! ## An agent's own calls -/

theorem row?_rowsOf (db : JournalDb) (agent session : String) :
    (rowsOf agent db).journalSync.row? (agent, session)
      = db.journalSync.row? (agent, session) :=
  Table.row?_scope fun r hr => by simpa using (Prod.mk.inj hr).1

theorem openSession_rowsOf (db : JournalDb) (agent session : String) (createdAt : Option ℚ)
    (now : ℚ) : openSession (rowsOf agent db) agent session createdAt now
      = ((openSession db agent session createdAt now).1,
        rowsOf agent (openSession db agent session createdAt now).2) := by
  have hsync := Table.scope_insertOrIgnore (t := db.journalSync) (p := fun r => r.agent = agent)
    (r := ⟨agent, session, createdAt.getD now, 0⟩) fun r hr => by simpa using (Prod.mk.inj hr).1
  have hrow := row?_rowsOf (openSession db agent session createdAt now).2 agent session
  simp only [openSession, rowsOf] at hrow ⊢
  rw [hsync] at hrow ⊢
  rw [hrow]

theorem add_rowsOf (db : JournalDb) (agent session : String) (pos : ℤ) (frame : String) :
    add (rowsOf agent db) agent session pos frame
      = rowsOf agent (add db agent session pos frame) := by
  simp only [add, rowsOf]
  rw [Table.scope_insertOrReplace (by simp)]

theorem ack_rowsOf (db : JournalDb) (agent session : String) (pos : ℤ) :
    ack (rowsOf agent db) agent session pos = rowsOf agent (ack db agent session pos) := by
  refine congrArg₂ JournalDb.mk (Table.scope_deleteWhere _ _ _).symm
    (Table.scope_updateWhere _ ?_).symm
  exact fun _ => rfl

theorem prune_rowsOf (db : JournalDb) (agent : String) (keep : Option String) :
    prune (rowsOf agent db) agent keep = rowsOf agent (prune db agent keep) := by
  simp only [prune, rowsOf]
  rw [Table.scope_deleteWhere]
  refine congrArg (JournalDb.mk _) (Table.deleteWhere_congr fun r hr => ?_)
  -- the subquery is about rows of the agent that `r` is of
  have hagent : r.agent = agent := by simpa using (Table.mem_scope.mp hr).2
  have hframes : (∃ j ∈ (db.journal.scope fun r => r.agent = agent).rows,
      j.agent = r.agent ∧ j.sessionId = r.sessionId) ↔
      ∃ j ∈ db.journal.rows, j.agent = r.agent ∧ j.sessionId = r.sessionId := by
    refine exists_congr fun j => ?_
    rw [Table.mem_scope]
    constructor
    · rintro ⟨⟨hj, -⟩, hsame⟩
      exact ⟨hj, hsame⟩
    · rintro ⟨hj, hsame⟩
      exact ⟨⟨hj, by simpa using hsame.1.trans hagent⟩, hsame⟩
  simp only [hframes]

theorem load_rowsOf (db : JournalDb) (agent : String) :
    load (rowsOf agent db) agent = load db agent := by
  have hsync : ∀ j : JournalRow, j.agent = agent → syncOf (rowsOf agent db) j = syncOf db j := by
    rintro j rfl
    exact row?_rowsOf db j.agent j.sessionId
  refine congrArg (orderBy _) ?_
  change List.map _ (List.filter _ (List.filter _ _)) = _
  rw [List.filter_filter]
  have hfilter : (db.journal.rows.filter fun j =>
      decide (j.agent = agent ∧ ackedPos (rowsOf agent db) j < j.pos) && decide (j.agent = agent))
      = db.journal.rows.filter fun j => j.agent = agent ∧ ackedPos db j < j.pos := by
    refine List.filter_congr fun j _ => ?_
    by_cases hj : j.agent = agent <;> simp [hj, ackedPos, hsync]
  rw [hfilter]
  refine List.map_congr_left fun j hj => ?_
  have hagent : j.agent = agent := (of_decide_eq_true (List.mem_filter.mp hj).2).1
  simp only [stored, createdAt, hsync j hagent]

/-- An agent's call reads and writes its own rows alone. -/
theorem call_rowsOf (db : JournalDb) (agent : String) (call : JournalCall) :
    (rowsOf agent db).call agent call
      = ((db.call agent call).1, rowsOf agent (db.call agent call).2) := by
  cases call with
  | openSession session createdAt now =>
    simp only [JournalDb.call, openSession_rowsOf]
  | add session pos frame => exact congrArg _ (add_rowsOf db agent session pos frame)
  | ack session pos => exact congrArg _ (ack_rowsOf db agent session pos)
  | prune keep => exact congrArg _ (prune_rowsOf db agent keep)
  | load => simp only [JournalDb.call, load_rowsOf]

/-! ## The calls of others -/

/-- A call leaves the rows of every other agent. -/
theorem rowsOf_call_of_ne (db : JournalDb) (h : other ≠ agent) (call : JournalCall) :
    rowsOf agent (db.call other call).2 = rowsOf agent db := by
  cases call with
  | openSession session createdAt now =>
    exact congrArg (JournalDb.mk _) (Table.scope_insertOrIgnore_of_not (by simpa using h))
  | add session pos frame =>
    refine congrArg (JournalDb.mk · _) (Table.scope_insertOrReplace_of_not (fun r hr heq => ?_)
      (by simpa using h))
    exact h ((Prod.mk.inj heq).1.symm.trans (of_decide_eq_true hr))
  | ack session pos =>
    have hother : ∀ agent', agent' = agent → agent' ≠ other := by
      rintro _ rfl
      exact h.symm
    refine congrArg₂ JournalDb.mk (Table.scope_deleteWhere_of_not fun r hr => ?_)
      (Table.scope_updateWhere_of_not (by intro _; rfl) (fun _ => rfl) fun r hr => ?_)
    · simp [hother r.agent (of_decide_eq_true hr)]
    · simp [hother r.agent (of_decide_eq_true hr)]
  | prune keep =>
    refine congrArg (JournalDb.mk _) (Table.scope_deleteWhere_of_not fun r hr => ?_)
    have hagent : r.agent ≠ other := by
      rw [of_decide_eq_true hr]
      exact h.symm
    simp [hagent]
  | load => rfl

/-- In every interleaving of the calls of any agents on one file, whatever it held before, each
agent is answered as if the others had made no calls. -/
theorem answers_of_one (db : JournalDb) (history : List (String × JournalCall)) (agent : String) :
    (Unwinding.answers JournalDb.call db history).filter (fun answer => answer.1 = agent)
      = Unwinding.answers JournalDb.call db (history.filter fun entry => entry.1 = agent) := by
  refine Unwinding.filter_answers (R := fun db db' => rowsOf agent db = rowsOf agent db')
    (fun db db' other call hne h => (rowsOf_call_of_ne db hne call).trans h) ?_ rfl history
  intro db db' call h
  have hcall : ((db.call agent call).1, rowsOf agent (db.call agent call).2)
      = ((db'.call agent call).1, rowsOf agent (db'.call agent call).2) := by
    rw [← call_rowsOf, ← call_rowsOf, h]
  exact Prod.mk.inj hcall

end SharedJournal

end Rekuest
