import Rekuest.Agents.Retention
import Rekuest.Lib.Dict
import Rekuest.Messages

/-!
# The retaining half of the agent

What `RekuestAgent` keeps of the frames no `JournalAck` covered yet: in memory, keyed by session
and position, and through its store on disk. A call to the store may raise; the agent catches it
where the source does and goes on from the state reached.
-/

namespace Rekuest

/-- How a frame is written to and read back from the journal: `model_dump_json` and
`_FRAME.validate_json`, `none` where that raises. -/
structure FrameCodec where
  dump : FromAgentMessage → String
  validate : String → Option FromAgentMessage

/-- `frame` decodes from its stored JSON to itself. -/
def FrameCodec.RoundTrips (codec : FrameCodec) (frame : FromAgentMessage) : Prop :=
  codec.validate (codec.dump frame) = some frame

/-- Which calls to the store raise, each leaving the file as it was. -/
structure StoreFaults where
  openSession : Bool
  add : Bool
  ack : Bool
  prune : Bool

/-- Every call to the store succeeds. -/
def StoreFaults.none : StoreFaults := ⟨false, false, false, false⟩

/-- The retention state of `RekuestAgent`. -/
structure RekuestAgent where
  /-- `self.name or ""`, which scopes the agent's rows. -/
  name : String
  currentSession : String
  /-- `_retained`: numbered frames no `JournalAck` covered yet, every session's. -/
  retained : Dict (String × ℤ) FromAgentMessage
  /-- `_session_created`: when each session with retained frames was created. -/
  sessionCreated : Dict String ℚ
  /-- `_store is not None`. -/
  storeOpen : Bool

namespace RekuestAgent

/-- An agent that has not opened its store; `session` is the one it was built with. -/
def new (name session : String) : RekuestAgent := ⟨name, session, ∅, ∅, false⟩

/-- The rank of a retained frame; a session of unknown creation time counts as created at 0. -/
def resendKey (a : RekuestAgent) (key : String × ℤ) : ResendRank :=
  resendRank ((a.sessionCreated.get? key.1).getD 0) key.1 key.2

/-- `_resend_order`. -/
def resendOrder (a : RekuestAgent) : List (String × ℤ) := orderBy a.resendKey a.retained.keys

/-- The property `retained`: the frames no `JournalAck` covered yet, in the order they are
re-sent. -/
def retainedFrames (a : RekuestAgent) : List FromAgentMessage :=
  a.resendOrder.filterMap a.retained.get?

section

variable (codec : FrameCodec) (faults : StoreFaults)

/-- One frame read by `_open_store`: kept unless it is unreadable, or already in memory. -/
def loadFrame (a : RekuestAgent) (stored : StoredFrame) : RekuestAgent :=
  match codec.validate stored.frame with
  | none => a
  | some frame =>
    { a with
      sessionCreated := a.sessionCreated.setdefault stored.sessionId stored.createdAt
      retained := a.retained.setdefault (stored.sessionId, stored.pos) frame }

/-- `_open_store`: on first use, load what earlier runs left. -/
def openStore (db : JournalDb) (a : RekuestAgent) : RekuestAgent :=
  if a.storeOpen then a
  else (RetainedFrames.load db a.name).foldl (loadFrame codec) { a with storeOpen := true }

/-- `_know_session`; the error is the state in which `open_session` raised. -/
def knowSession (session : String) (now : ℚ) (a : RekuestAgent) (db : JournalDb) :
    Except (RekuestAgent × JournalDb) (RekuestAgent × JournalDb) :=
  if (a.sessionCreated.get? session).isSome then .ok (a, db)
  else
    let a := openStore codec db a
    if faults.openSession then .error (a, db)
    else
      let (created, db) := RetainedFrames.openSession db a.name session (some now) now
      .ok ({ a with sessionCreated := a.sessionCreated.set session created }, db)

/-- `astart`, from the session `super().astart` minted on. -/
def astart (session : String) (now : ℚ) (a : RekuestAgent) (db : JournalDb) :
    Except (RekuestAgent × JournalDb) (RekuestAgent × JournalDb) :=
  knowSession codec faults session now (openStore codec db { a with currentSession := session }) db

/-- The `try` of `_retain_emitted`: know the frame's session, and put the frame on disk. -/
def persistEmitted (message : FromAgentMessage) (entry : JournalEntry) (now : ℚ)
    (a : RekuestAgent) (db : JournalDb) : RekuestAgent × JournalDb :=
  match knowSession codec faults entry.sessionId now a db with
  | .error state => state
  | .ok (a, db) =>
    let a := openStore codec db a
    if faults.add then (a, db)
    else (a, RetainedFrames.add db a.name entry.sessionId entry.pos (codec.dump message))

/-- `_retain_emitted`: keep a numbered frame until a `JournalAck` covers it, on disk too. -/
def retainEmitted (message : FromAgentMessage) (entry : Option JournalEntry) (now : ℚ)
    (a : RekuestAgent) (db : JournalDb) : RekuestAgent × JournalDb :=
  match entry with
  | none => (a, db)
  | some entry =>
    persistEmitted codec faults message entry now
      { a with retained := a.retained.set (entry.sessionId, entry.pos) message } db

/-- `_journal_ack`: everything of `session` up to `pos` is projected by the server. -/
def journalAck (session : String) (pos : ℤ) (a : RekuestAgent) (db : JournalDb) :
    RekuestAgent × JournalDb :=
  let a := openStore codec db
    { a with retained := a.retained.filterKeys fun key => ¬ (key.1 = session ∧ key.2 ≤ pos) }
  if faults.ack then (a, db)
  else
    let db := RetainedFrames.ack db a.name session pos
    if a.retained.keys.any fun key => key.1 = session then (a, db)
    else if faults.prune then (a, db)
    else (a, RetainedFrames.prune db a.name (some a.currentSession))

end

/-- What is re-sent is what is retained. -/
theorem mem_retainedFrames {a : RekuestAgent} {frame : FromAgentMessage} :
    frame ∈ a.retainedFrames ↔ frame ∈ a.retained.values := by
  rw [retainedFrames, List.mem_filterMap, Dict.mem_values]
  constructor
  · rintro ⟨key, -, hget⟩
    exact ⟨key, hget⟩
  · rintro ⟨key, hget⟩
    exact ⟨key, mem_orderBy.mpr (Dict.mem_keys.mpr ⟨frame, hget⟩), hget⟩

/-! ## Opening the store -/

variable {codec : FrameCodec}

theorem openStore_of_open {a : RekuestAgent} (h : a.storeOpen = true) (db : JournalDb) :
    openStore codec db a = a := by
  rw [openStore, if_pos h]

/-- Loading touches only what is retained and when its sessions were created. -/
theorem loadFrame_fields (codec : FrameCodec) (a : RekuestAgent) (stored : StoredFrame) :
    (loadFrame codec a stored).name = a.name ∧
      (loadFrame codec a stored).currentSession = a.currentSession ∧
      (loadFrame codec a stored).storeOpen = a.storeOpen := by
  rw [loadFrame]
  split <;> exact ⟨rfl, rfl, rfl⟩

theorem foldl_loadFrame_fields (l : List StoredFrame) (a : RekuestAgent) :
    (l.foldl (loadFrame codec) a).name = a.name ∧
      (l.foldl (loadFrame codec) a).currentSession = a.currentSession ∧
      (l.foldl (loadFrame codec) a).storeOpen = a.storeOpen := by
  induction l generalizing a with
  | nil => exact ⟨rfl, rfl, rfl⟩
  | cons stored l ih =>
    obtain ⟨h₁, h₂, h₃⟩ := ih (loadFrame codec a stored)
    obtain ⟨g₁, g₂, g₃⟩ := loadFrame_fields codec a stored
    exact ⟨h₁.trans g₁, h₂.trans g₂, h₃.trans g₃⟩

@[simp] theorem openStore_name (db : JournalDb) (a : RekuestAgent) :
    (openStore codec db a).name = a.name := by
  rw [openStore]
  split
  · rfl
  · exact (foldl_loadFrame_fields _ _).1

@[simp] theorem openStore_currentSession (db : JournalDb) (a : RekuestAgent) :
    (openStore codec db a).currentSession = a.currentSession := by
  rw [openStore]
  split
  · rfl
  · exact (foldl_loadFrame_fields _ _).2.1

@[simp] theorem openStore_storeOpen (db : JournalDb) (a : RekuestAgent) :
    (openStore codec db a).storeOpen = true := by
  rw [openStore]
  split
  · assumption
  · exact (foldl_loadFrame_fields _ _).2.2

/-- Loading a list of frames into an agent that retains none of them yet keeps, under each
frame's key, the first frame that decodes. -/
theorem get?_retained_foldl_loadFrame (l : List StoredFrame) (a : RekuestAgent)
    (key : String × ℤ) :
    (l.foldl (loadFrame codec) a).retained.get? key
      = ((a.retained.get? key).or
          (l.findSome? fun f =>
            if (f.sessionId, f.pos) = key then codec.validate f.frame else none)) := by
  induction l generalizing a with
  | nil => simp
  | cons f l ih =>
    rw [List.foldl_cons, ih, List.findSome?_cons, loadFrame]
    cases hv : codec.validate f.frame with
    | none => simp
    | some frame =>
      by_cases hk : (f.sessionId, f.pos) = key
      · subst hk
        cases h : a.retained.get? (f.sessionId, f.pos) <;> simp [h]
      · simp [hk, Ne.symm hk]

/-- Loading records, for each session, the creation time its first readable frame carries. -/
theorem get?_sessionCreated_foldl_loadFrame (l : List StoredFrame) (a : RekuestAgent)
    (session : String) :
    (l.foldl (loadFrame codec) a).sessionCreated.get? session
      = ((a.sessionCreated.get? session).or
          (l.findSome? fun f =>
            if f.sessionId = session ∧ (codec.validate f.frame).isSome then some f.createdAt
            else none)) := by
  induction l generalizing a with
  | nil => simp
  | cons f l ih =>
    rw [List.foldl_cons, ih, List.findSome?_cons, loadFrame]
    cases hv : codec.validate f.frame with
    | none => simp
    | some frame =>
      by_cases hk : f.sessionId = session
      · subst hk
        cases h : a.sessionCreated.get? f.sessionId <;> simp [h]
      · simp [hk, Ne.symm hk]

/-! ## With the store open -/

/-- With the store open, knowing a session changes only when sessions were created. -/
theorem knowSession_of_open {a : RekuestAgent} (h : a.storeOpen = true)
    (faults : StoreFaults) (session : String) (now : ℚ) (db : JournalDb) :
    knowSession codec faults session now a db = .error (a, db) ∨
      ∃ created db', knowSession codec faults session now a db
        = .ok ({ a with sessionCreated := created }, db') := by
  rw [knowSession, openStore_of_open h]
  split
  · exact Or.inr ⟨a.sessionCreated, db, rfl⟩
  · split
    · exact Or.inl rfl
    · exact Or.inr ⟨_, _, rfl⟩

/-- With the store open, putting a frame on disk changes only when sessions were created, whether
or not the store fails. -/
theorem persistEmitted_of_open {a : RekuestAgent} (h : a.storeOpen = true)
    (faults : StoreFaults) (message : FromAgentMessage) (entry : JournalEntry) (now : ℚ)
    (db : JournalDb) :
    ∃ created, (persistEmitted codec faults message entry now a db).1
      = { a with sessionCreated := created } := by
  rw [persistEmitted]
  obtain hknow | ⟨created, db', hknow⟩ := knowSession_of_open h faults entry.sessionId now db
  · exact ⟨a.sessionCreated, by rw [hknow]⟩
  · refine ⟨created, ?_⟩
    rw [hknow]
    have hopen : openStore codec db' { a with sessionCreated := created }
        = { a with sessionCreated := created } :=
      openStore_of_open (a := { a with sessionCreated := created }) h db'
    simp only [hopen]
    split <;> rfl

/-- With the store open, a numbered frame is retained in memory whether or not the store fails. -/
theorem retainEmitted_of_open (codec : FrameCodec) {a : RekuestAgent} (h : a.storeOpen = true)
    (faults : StoreFaults) (message : FromAgentMessage) (entry : JournalEntry) (now : ℚ)
    (db : JournalDb) :
    ∃ created, (retainEmitted codec faults message (some entry) now a db).1
      = { a with
          retained := a.retained.set (entry.sessionId, entry.pos) message
          sessionCreated := created } :=
  persistEmitted_of_open
    (a := { a with retained := a.retained.set (entry.sessionId, entry.pos) message })
    h faults message entry now db

/-- With the store open, an ack is applied in memory whether or not the store fails. -/
theorem journalAck_of_open (codec : FrameCodec) {a : RekuestAgent} (h : a.storeOpen = true)
    (faults : StoreFaults) (session : String) (pos : ℤ) (db : JournalDb) :
    (journalAck codec faults session pos a db).1
      = { a with retained := a.retained.filterKeys fun key =>
          ¬ (key.1 = session ∧ key.2 ≤ pos) } := by
  have hopen : ∀ b : RekuestAgent, b.storeOpen = true → openStore codec db b = b :=
    fun b hb => openStore_of_open hb db
  rw [journalAck, hopen { a with retained := a.retained.filterKeys fun key =>
    ¬ (key.1 = session ∧ key.2 ≤ pos) } h]
  dsimp only
  split
  · rfl
  · split
    · rfl
    · split <;> rfl

end RekuestAgent

end Rekuest
