import Mathlib.Algebra.Order.Ring.Rat
import Mathlib.Data.Finset.Basic
import Rekuest.Lib.Dict
import Rekuest.Lib.Runs
import Rekuest.Lib.Table
import Rekuest.Messages

/-!
# Persisted states

The states an app declared `persist` for, in `rekuest/agents/agent.py` and
`rekuest/agents/persisted_state.py`: a change marks its state dirty, a synchronous one is written
at once and a periodic one by its flusher, whose writes run off the loop.
-/

namespace Rekuest

open Runs

/-- `persist`: on every change, or at most once per period. -/
inductive PersistPolicy
  | synchronous
  | every (period : ℚ)

/-- `StoredState`: one state's last persisted value, its shrunk JSON as text. -/
structure StoredState where
  stateName : String
  schemaHash : String
  sessionId : String
  globalRev : ℤ
  value : String

/-- A row of `last_state`. -/
structure LastStateRow where
  agent : String
  state : StoredState

/-- `PRIMARY KEY (agent, state_name)`. -/
def LastStateRow.key (r : LastStateRow) : String × String := (r.agent, r.state.stateName)

/-- `PersistedStates.put`: keep a state's value, in place of the one before. -/
def PersistedStates.put (db : Table LastStateRow.key) (agent : String) (state : StoredState) :
    Table LastStateRow.key :=
  db.insertOrReplace ⟨agent, state⟩

/-- The task `_aflush_state_loop` of one state. -/
inductive Flusher
  /-- Created, before its first look at the stop. -/
  | starting
  /-- Inside `wait_for`. -/
  | waiting
  /-- Its thread writes a value. -/
  | writing (state : StoredState)
  /-- Returned, or never created. -/
  | ended

/-- The persisting half of `RekuestAgent`, its state store open. -/
structure PersistingAgent where
  /-- `self.name or ""`, which scopes the agent's rows. -/
  name : String
  currentSession : String
  globalRevision : ℤ
  statePolicies : Dict String PersistPolicy
  /-- `_state_hashes`, which has every state with a policy. -/
  stateHashes : String → String
  currentShrunkStates : Dict String Json
  dirtyStates : Finset String
  /-- `_state_flush_stop.is_set()`. -/
  flushStop : Bool
  /-- `_state_flushers`, by state. -/
  flushers : String → Flusher
  db : Table LastStateRow.key
  /-- The states that changed so far. -/
  changed : Finset String

/-- What happens to the persisted states. -/
inductive PersistAct
  /-- A state takes a new value, and its `StatePatch` is noted. -/
  | statePatch (stateName : String) (shrunk : Json) (revision : ℤ) (putFails : Bool)
  /-- A `SessionInit` is noted. -/
  | sessionInit (putFails : Bool)
  /-- A flusher looks at the stop for the first time, or wakes on its period or on the stop. -/
  | wake (stateName : String)
  /-- The thread of a flusher is done. -/
  | written (stateName : String) (putFails : Bool)
  /-- `_aclose_state_store` sets the stop. -/
  | close

/-- No write fails in this event. -/
def PersistAct.Succeeds : PersistAct → Prop
  | .statePatch _ _ _ putFails => putFails = false
  | .sessionInit putFails => putFails = false
  | .written _ putFails => putFails = false
  | _ => True

/-- No state changes in this event. -/
def PersistAct.Quiet : PersistAct → Prop
  | .statePatch _ _ _ _ | .sessionInit _ => False
  | _ => True

namespace PersistingAgent

section

variable (dumps : Json → String)

/-- `_write_state`. A store that fails keeps what it had. -/
def writeState (s : PersistingAgent) (state : StoredState) (putFails : Bool) : PersistingAgent :=
  if putFails then s else { s with db := PersistedStates.put s.db s.name state }

/-- `_take_dirty_state`: a state's value to write, if it changed. -/
def takeDirtyState (s : PersistingAgent) (stateName : String) :
    Option StoredState × PersistingAgent :=
  if stateName ∈ s.dirtyStates then
    ((s.currentShrunkStates.get? stateName).map fun shrunk => {
        stateName := stateName
        schemaHash := s.stateHashes stateName
        sessionId := s.currentSession
        globalRev := s.globalRevision
        value := dumps shrunk },
      { s with dirtyStates := s.dirtyStates.erase stateName })
  else (none, s)

/-- Take a state's value, if it changed, and write it. -/
def writeDirtyState (s : PersistingAgent) (stateName : String) (putFails : Bool) :
    PersistingAgent :=
  match s.takeDirtyState dumps stateName with
  | (some state, s) => s.writeState state putFails
  | (none, s) => s

/-- One state noted by `_note_state_change`. -/
def noteState (s : PersistingAgent) (stateName : String) (putFails : Bool) : PersistingAgent :=
  match s.statePolicies.get? stateName with
  | none => s
  | some policy =>
    let s := { s with
      dirtyStates := insert stateName s.dirtyStates
      changed := if (s.currentShrunkStates.get? stateName).isSome then insert stateName s.changed
        else s.changed }
    match policy with
    | .synchronous => s.writeDirtyState dumps stateName putFails
    | .every _ => s

/-- `_note_state_change`, of the states a frame says changed. -/
def noteStateChange (s : PersistingAgent) (changed : List String) (putFails : Bool) :
    PersistingAgent :=
  changed.foldl (fun s stateName => s.noteState dumps stateName putFails) s

def setFlusher (s : PersistingAgent) (stateName : String) (flusher : Flusher) : PersistingAgent :=
  { s with flushers := Function.update s.flushers stateName flusher }

/-- The head of the loop of `_aflush_state_loop`. -/
def loopHead (s : PersistingAgent) (stateName : String) : PersistingAgent :=
  s.setFlusher stateName (if s.flushStop then .ended else .waiting)

/-- One event. -/
def step (s : PersistingAgent) : PersistAct → Option PersistingAgent
  | .statePatch stateName shrunk revision putFails =>
    let s := { s with
      currentShrunkStates := s.currentShrunkStates.set stateName shrunk
      globalRevision := revision }
    some (s.noteStateChange dumps [stateName] putFails)
  | .sessionInit putFails => some (s.noteStateChange dumps s.statePolicies.keys putFails)
  | .wake stateName =>
    match s.flushers stateName with
    | .starting => some (s.loopHead stateName)
    | .waiting =>
      match s.takeDirtyState dumps stateName with
      | (some state, s) => some (s.setFlusher stateName (.writing state))
      | (none, s) => some (s.loopHead stateName)
    | _ => none
  | .written stateName putFails =>
    match s.flushers stateName with
    | .writing state => some ((s.writeState state putFails).loopHead stateName)
    | _ => none
  | .close => some { s with flushStop := true }

end

/-- An agent whose state store was just opened: nothing is dirty, and every periodic state has a
flusher. -/
def start (name session : String) (policies : Dict String PersistPolicy)
    (hashes : String → String) (shrunk : Dict String Json) (db : Table LastStateRow.key) :
    PersistingAgent where
  name := name
  currentSession := session
  globalRevision := 0
  statePolicies := policies
  stateHashes := hashes
  currentShrunkStates := shrunk
  dirtyStates := ∅
  flushStop := false
  flushers := fun stateName =>
    match policies.get? stateName with
    | some (.every _) => .starting
    | _ => .ended
  db := db
  changed := ∅

/-- The state has a periodic policy. -/
def Periodic (s : PersistingAgent) (stateName : String) : Prop :=
  ∃ period, s.statePolicies.get? stateName = some (.every period)

/-- The value on disk. -/
def stored? (s : PersistingAgent) (stateName : String) : Option String :=
  (s.db.row? (s.name, stateName)).map fun row => row.state.value

/-- The value a state has now, as it is written. -/
def current? (dumps : Json → String) (s : PersistingAgent) (stateName : String) : Option String :=
  (s.currentShrunkStates.get? stateName).map dumps

/-- The value on disk once a write under way is done. -/
def pending? (s : PersistingAgent) (stateName : String) : Option String :=
  match s.flushers stateName with
  | .writing state => some state.value
  | _ => s.stored? stateName

variable {dumps : Json → String}

/-! ## What one operation does -/

/-- A row is written under the name of its state only. -/
theorem stored?_writeState (s : PersistingAgent) (state : StoredState) (stateName : String) :
    (s.writeState state false).stored? stateName
      = if stateName = state.stateName then some state.value else s.stored? stateName := by
  have hkey : (s.name, stateName) = LastStateRow.key ⟨s.name, state⟩
      ↔ stateName = state.stateName := by simp [LastStateRow.key]
  simp only [stored?, writeState, Bool.false_eq_true, if_false, PersistedStates.put,
    Table.row?_insertOrReplace, hkey]
  split <;> rfl

/-- A write touches the rows only. -/
theorem writeState_eq (s : PersistingAgent) (state : StoredState) (putFails : Bool) :
    ∃ db, s.writeState state putFails = { s with db := db } := by
  rw [writeState]
  split
  · exact ⟨s.db, rfl⟩
  · exact ⟨_, rfl⟩

theorem pending?_of_stored {s s' : PersistingAgent} {stateName : String}
    (hflusher : s'.flushers stateName = s.flushers stateName)
    (hstored : s'.stored? stateName = s.stored? stateName) :
    s'.pending? stateName = s.pending? stateName := by
  rw [pending?, pending?, hflusher, hstored]

/-- A flusher that waits or ended writes nothing. -/
theorem pending?_loopHead (s : PersistingAgent) (stateName : String) :
    (s.loopHead stateName).pending? stateName = s.stored? stateName := by
  cases hstop : s.flushStop <;> simp [pending?, loopHead, setFlusher, hstop] <;> rfl

theorem pending?_setFlusher_of_ne {s : PersistingAgent} {i j : String} (h : j ≠ i)
    (flusher : Flusher) : (s.setFlusher i flusher).pending? j = s.pending? j :=
  pending?_of_stored (by simp [setFlusher, h]) rfl

/-- Taking a state that changed and has a value answers it; else there is nothing to write. -/
theorem takeDirtyState_cases (dumps : Json → String) (s : PersistingAgent) (stateName : String) :
    (∃ shrunk state, s.currentShrunkStates.get? stateName = some shrunk
        ∧ state.stateName = stateName ∧ state.value = dumps shrunk
        ∧ s.takeDirtyState dumps stateName
          = (some state, { s with dirtyStates := s.dirtyStates.erase stateName }))
      ∨ (stateName ∉ s.dirtyStates ∧ s.takeDirtyState dumps stateName = (none, s))
      ∨ (s.currentShrunkStates.get? stateName = none ∧ s.takeDirtyState dumps stateName
          = (none, { s with dirtyStates := s.dirtyStates.erase stateName })) := by
  rw [takeDirtyState]
  split
  · cases hshrunk : s.currentShrunkStates.get? stateName with
    | none => exact Or.inr (Or.inr ⟨rfl, rfl⟩)
    | some shrunk => exact Or.inl ⟨shrunk, _, rfl, rfl, rfl, rfl⟩
  · rename_i hdirty
    exact Or.inr (Or.inl ⟨hdirty, rfl⟩)

/-- Writing a state at once touches its own row and mark. -/
theorem writeDirtyState_eq (dumps : Json → String) (s : PersistingAgent) (stateName : String) :
    ∃ dirty db, s.writeDirtyState dumps stateName false
        = { s with dirtyStates := dirty, db := db }
      ∧ (∀ i, i ≠ stateName →
        stored? { s with dirtyStates := dirty, db := db } i = s.stored? i)
      ∧ ∀ i, i ≠ stateName → (i ∈ dirty ↔ i ∈ s.dirtyStates) := by
  have herase : ∀ i, i ≠ stateName → (i ∈ s.dirtyStates.erase stateName ↔ i ∈ s.dirtyStates) :=
    fun i hi => by simp [hi]
  rw [writeDirtyState]
  obtain ⟨shrunk, state, -, hname, -, htake⟩ | ⟨-, htake⟩ | ⟨-, htake⟩ :=
    takeDirtyState_cases dumps s stateName
  · rw [htake]
    refine ⟨s.dirtyStates.erase stateName, PersistedStates.put s.db s.name state, rfl,
      fun i hi => ?_, herase⟩
    have hstored := stored?_writeState
      { s with dirtyStates := s.dirtyStates.erase stateName } state i
    rwa [if_neg (by rw [hname]; exact hi)] at hstored
  · rw [htake]
    exact ⟨s.dirtyStates, s.db, rfl, fun _ _ => rfl, fun _ _ => Iff.rfl⟩
  · rw [htake]
    exact ⟨s.dirtyStates.erase stateName, s.db, rfl, fun _ _ => rfl, herase⟩

/-- What noting `noted` leaves of the states with a periodic policy: `noted` is dirty, and nothing
else is touched. -/
structure Noted (noted : String) (s s' : PersistingAgent) : Prop where
  flushers : s'.flushers = s.flushers
  policies : s'.statePolicies = s.statePolicies
  shrunk : s'.currentShrunkStates = s.currentShrunkStates
  stop : s'.flushStop = s.flushStop
  stored : ∀ i, s.Periodic i → s'.stored? i = s.stored? i
  changed : ∀ i ∈ s'.changed, i ∈ s.changed ∨ i = noted
    ∧ (s.currentShrunkStates.get? noted).isSome
  dirty : ∀ i, s.Periodic i → i ∉ s'.dirtyStates → i ∉ s.dirtyStates ∧ i ≠ noted

theorem noted_noteState (s : PersistingAgent) (stateName : String) :
    Noted stateName s (s.noteState dumps stateName false) := by
  rw [noteState]
  split
  · rename_i hpolicy
    refine ⟨rfl, rfl, rfl, rfl, fun _ _ => rfl, fun i hi => Or.inl hi,
      fun i hi hdirty => ⟨hdirty, ?_⟩⟩
    rintro rfl
    obtain ⟨period, hperiod⟩ := hi
    rw [hpolicy] at hperiod
    cases hperiod
  · rename_i policy hpolicy
    have hchanged : ∀ i ∈ (if (s.currentShrunkStates.get? stateName).isSome then
          insert stateName s.changed else s.changed),
        i ∈ s.changed ∨ i = stateName ∧ (s.currentShrunkStates.get? stateName).isSome := by
      intro i hi
      split at hi
      · rename_i hsome
        exact (Finset.mem_insert.mp hi).symm.imp_right fun h => ⟨h, hsome⟩
      · exact Or.inl hi
    cases policy with
    | synchronous =>
      have hne : ∀ i, s.Periodic i → i ≠ stateName := by
        rintro i ⟨period, hperiod⟩ rfl
        rw [hpolicy] at hperiod
        cases hperiod
      obtain ⟨dirty, db, hwritten, hstored, hdirty⟩ := writeDirtyState_eq dumps
        { s with
          dirtyStates := insert stateName s.dirtyStates
          changed := if (s.currentShrunkStates.get? stateName).isSome then
            insert stateName s.changed else s.changed } stateName
      dsimp only
      rw [hwritten]
      refine ⟨rfl, rfl, rfl, rfl, fun i hi => hstored i (hne i hi), hchanged, fun i hi h => ?_⟩
      have hnot := mt (hdirty i (hne i hi)).mpr h
      exact ⟨fun hmem => hnot (Finset.mem_insert_of_mem hmem), hne i hi⟩
    | every period =>
      refine ⟨rfl, rfl, rfl, rfl, fun _ _ => rfl, hchanged, fun i _ hdirty => ?_⟩
      exact ⟨fun h => hdirty (Finset.mem_insert_of_mem h),
        fun h => hdirty (h ▸ Finset.mem_insert_self _ _)⟩

/-! ## What a run keeps

A state that changed is dirty, or on disk, or its current value is being written. Each operation
moves it from one of these to another.
-/

/-- A changed state that is not dirty is on disk, or its current value is being written. -/
structure Tracks (dumps : Json → String) (s : PersistingAgent) : Prop where
  own : ∀ i state, s.flushers i = .writing state → state.stateName = i
  periodic : ∀ i, s.flushers i ≠ .ended → s.Periodic i
  known : ∀ i ∈ s.changed, (s.currentShrunkStates.get? i).isSome
  settled : ∀ i ∈ s.changed, s.Periodic i → i ∉ s.dirtyStates →
    s.pending? i = s.current? dumps i

theorem tracks_start (name session : String) (policies : Dict String PersistPolicy)
    (hashes : String → String) (shrunk : Dict String Json) (db : Table LastStateRow.key) :
    (start name session policies hashes shrunk db).Tracks dumps where
  own := by
    intro i state h
    simp only [start] at h
    split at h <;> cases h
  periodic := by
    intro i h
    simp only [start] at h
    split at h
    · rename_i period hpolicy
      exact ⟨period, hpolicy⟩
    · exact absurd rfl h
  known := by rintro i ⟨⟩
  settled := by rintro i ⟨⟩

theorem Noted.periodic_iff {noted : String} {s s' : PersistingAgent} (h : Noted noted s s')
    (i : String) : s'.Periodic i ↔ s.Periodic i := by
  rw [Periodic, Periodic, h.policies]

/-- Noting a state keeps track of the others. -/
theorem Noted.tracks {noted : String} {s s' : PersistingAgent} (h : Noted noted s s')
    (hown : ∀ i state, s.flushers i = .writing state → state.stateName = i)
    (hperiodic : ∀ i, s.flushers i ≠ .ended → s.Periodic i)
    (hknown : ∀ i ∈ s.changed, (s.currentShrunkStates.get? i).isSome)
    (hsettled : ∀ i, i ≠ noted → i ∈ s.changed → s.Periodic i → i ∉ s.dirtyStates →
      s.pending? i = s.current? dumps i) : s'.Tracks dumps where
  own := by rw [h.flushers]; exact hown
  periodic := by
    intro i hi
    rw [h.flushers] at hi
    exact (h.periodic_iff i).mpr (hperiodic i hi)
  known := by
    intro i hi
    rw [h.shrunk]
    rcases h.changed i hi with hi | ⟨rfl, hsome⟩
    · exact hknown i hi
    · exact hsome
  settled := by
    intro i hi hp hdirty
    rw [h.periodic_iff] at hp
    obtain ⟨hclean, hne⟩ := h.dirty i hp hdirty
    have hold := (h.changed i hi).resolve_right fun hi => hne hi.1
    rw [pending?_of_stored (by rw [h.flushers]) (h.stored i hp), current?, h.shrunk]
    exact hsettled i hne hold hp hclean

theorem tracks_noteStateChange (l : List String) {s : PersistingAgent} (h : s.Tracks dumps) :
    (s.noteStateChange dumps l false).Tracks dumps := by
  induction l generalizing s with
  | nil => exact h
  | cons i l ih =>
    exact ih ((noted_noteState s i).tracks h.own h.periodic h.known fun j _ => h.settled j)

/-- A flusher goes on to its next wait, or ends, with nothing left to write. -/
theorem tracks_loopHead {s : PersistingAgent} (h : s.Tracks dumps) {i : String}
    (hi : s.flushers i ≠ .ended) (hidle : s.pending? i = s.stored? i) :
    (s.loopHead i).Tracks dumps where
  own := by
    intro j state hj
    by_cases hji : j = i
    · subst hji
      simp only [loopHead, setFlusher, Function.update_self] at hj
      split at hj <;> cases hj
    · simp only [loopHead, setFlusher, Function.update_of_ne hji] at hj
      exact h.own j state hj
  periodic := by
    intro j hj
    by_cases hji : j = i
    · exact hji ▸ h.periodic i hi
    · simp only [loopHead, setFlusher, Function.update_of_ne hji] at hj
      exact h.periodic j hj
  known := h.known
  settled := by
    intro j hj hp hdirty
    refine Eq.trans ?_ (h.settled j hj hp hdirty)
    by_cases hji : j = i
    · subst hji
      rw [hidle, pending?_loopHead]
    · exact pending?_setFlusher_of_ne hji _

/-- A flusher starts to write the value its state has. -/
theorem tracks_writing {s : PersistingAgent} (h : s.Tracks dumps) {i : String} {shrunk : Json}
    {state : StoredState} (hi : s.flushers i ≠ .ended)
    (hshrunk : s.currentShrunkStates.get? i = some shrunk) (hname : state.stateName = i)
    (hvalue : state.value = dumps shrunk) :
    Tracks dumps (setFlusher { s with dirtyStates := s.dirtyStates.erase i } i
      (.writing state)) where
  own := by
    intro j state' hj
    by_cases hji : j = i
    · subst hji
      simp only [setFlusher, Function.update_self, Flusher.writing.injEq] at hj
      rw [← hj, hname]
    · simp only [setFlusher, Function.update_of_ne hji] at hj
      exact h.own j state' hj
  periodic := by
    intro j hj
    by_cases hji : j = i
    · exact hji ▸ h.periodic i hi
    · simp only [setFlusher, Function.update_of_ne hji] at hj
      exact h.periodic j hj
  known := h.known
  settled := by
    intro j hj hp hdirty
    by_cases hji : j = i
    · subst hji
      simp [pending?, setFlusher, current?, hshrunk, hvalue]
    · have hclean : j ∉ s.dirtyStates := fun hmem => hdirty (Finset.mem_erase.mpr ⟨hji, hmem⟩)
      rw [pending?_setFlusher_of_ne hji]
      exact h.settled j hj hp hclean

/-- A write done is as a write under way. -/
theorem tracks_writeState {s : PersistingAgent} (h : s.Tracks dumps) {i : String}
    {state : StoredState} (hi : s.flushers i = .writing state) :
    (s.writeState state false).Tracks dumps
      ∧ (s.writeState state false).flushers = s.flushers
      ∧ (∀ j, (s.writeState state false).pending? j = s.pending? j)
      ∧ (s.writeState state false).stored? i = some state.value := by
  have hname := h.own i state hi
  obtain ⟨db, hdb⟩ := writeState_eq s state false
  have hflushers : (s.writeState state false).flushers = s.flushers := by rw [hdb]
  have hpending : ∀ j, (s.writeState state false).pending? j = s.pending? j := by
    intro j
    by_cases hj : j = i
    · subst hj
      rw [pending?, pending?, hflushers, hi]
    · refine pending?_of_stored (by rw [hflushers]) ?_
      rw [stored?_writeState, if_neg (by rw [hname]; exact hj)]
  refine ⟨?_, hflushers, hpending, by rw [stored?_writeState, if_pos hname.symm]⟩
  have hsettled : ∀ j ∈ s.changed, s.Periodic j → j ∉ s.dirtyStates →
      (s.writeState state false).pending? j = s.current? dumps j := fun j hj hp hdirty =>
    (hpending j).trans (h.settled j hj hp hdirty)
  rw [hdb] at hsettled ⊢
  exact ⟨h.own, h.periodic, h.known, hsettled⟩

/-- Where no write fails, every event keeps track. -/
theorem tracks_step {s s' : PersistingAgent} (h : s.Tracks dumps) {act : PersistAct}
    (hsucceeds : act.Succeeds) (hs : s.step dumps act = some s') : s'.Tracks dumps := by
  cases act with
  | statePatch i shrunk revision putFails =>
    obtain rfl : putFails = false := hsucceeds
    obtain rfl := Option.some.inj hs
    -- the new value is known before the state is marked
    refine (noted_noteState { s with
      currentShrunkStates := s.currentShrunkStates.set i shrunk
      globalRevision := revision } i).tracks h.own h.periodic ?_ ?_
    · intro j hj
      by_cases hji : j = i
      · simp [hji]
      · simpa [hji] using h.known j hj
    · intro j hji hj hp hdirty
      refine Eq.trans (h.settled j hj hp hdirty) ?_
      simp [current?, hji]
  | sessionInit putFails =>
    obtain rfl : putFails = false := hsucceeds
    obtain rfl := Option.some.inj hs
    exact tracks_noteStateChange _ h
  | wake i =>
    simp only [step] at hs
    cases hi : s.flushers i with
    | starting =>
      simp only [hi, Option.some.injEq] at hs
      subst hs
      exact tracks_loopHead h (by rw [hi]; simp) (by rw [pending?, hi])
    | waiting =>
      simp only [hi] at hs
      have hended : s.flushers i ≠ .ended := by rw [hi]; simp
      obtain ⟨shrunk, state, hshrunk, hname, hvalue, htake⟩ | ⟨-, htake⟩ | ⟨hnone, htake⟩ :=
        takeDirtyState_cases dumps s i
      · rw [htake] at hs
        obtain rfl := Option.some.inj hs
        exact tracks_writing h hended hshrunk hname hvalue
      · rw [htake] at hs
        obtain rfl := Option.some.inj hs
        exact tracks_loopHead h hended (by rw [pending?, hi])
      · rw [htake] at hs
        obtain rfl := Option.some.inj hs
        have herased : Tracks dumps { s with dirtyStates := s.dirtyStates.erase i } := by
          refine ⟨h.own, h.periodic, h.known, fun j hj hp hdirty => ?_⟩
          -- a state without a value never changed
          have hji : j ≠ i := by
            rintro rfl
            have hsome := h.known j hj
            rw [hnone] at hsome
            cases hsome
          exact h.settled j hj hp fun hmem => hdirty (Finset.mem_erase.mpr ⟨hji, hmem⟩)
        exact tracks_loopHead herased hended (by rw [pending?]; simp only [hi])
    | writing state => simp [hi] at hs
    | ended => simp [hi] at hs
  | written i putFails =>
    obtain rfl : putFails = false := hsucceeds
    simp only [step] at hs
    cases hi : s.flushers i with
    | writing state =>
      simp only [hi, Option.some.injEq] at hs
      subst hs
      obtain ⟨htracks, hflushers, hpending, hstored⟩ := tracks_writeState h hi
      refine tracks_loopHead htracks (by rw [hflushers, hi]; simp) ?_
      rw [hpending, hstored, pending?, hi]
    | starting => simp [hi] at hs
    | waiting => simp [hi] at hs
    | ended => simp [hi] at hs
  | close =>
    obtain rfl := Option.some.inj hs
    exact ⟨h.own, h.periodic, h.known, h.settled⟩

/-! ## After the stop

A flusher that waits takes what is dirty once more, writes it and ends. One that is writing ends
with that write, and a change made meanwhile stays dirty.
-/

/-- What a move of the flusher of `j` does once the stop is set. -/
structure Moves (j : String) (s s' : PersistingAgent) : Prop where
  flushers : ∃ flusher, flusher ≠ .waiting ∧ s'.flushers = Function.update s.flushers j flusher
  stored : ∀ i, i ≠ j → s'.stored? i = s.stored? i
  pending : s.flushers j ≠ .waiting → s'.pending? j = s.pending? j
  taken : s.flushers j = .waiting → j ∉ s'.dirtyStates ∨ s.currentShrunkStates.get? j = none
  stop : s'.flushStop = s.flushStop
  changed : s'.changed = s.changed
  policies : s'.statePolicies = s.statePolicies
  shrunk : s'.currentShrunkStates = s.currentShrunkStates

theorem moves_loopHead {s : PersistingAgent} (hstop : s.flushStop = true) {j : String}
    (hidle : s.flushers j ≠ .waiting → s.pending? j = s.stored? j)
    (hclean : s.flushers j = .waiting → j ∉ s.dirtyStates) : Moves j s (s.loopHead j) where
  flushers := ⟨.ended, by simp, by simp [loopHead, setFlusher, hstop]⟩
  stored := fun _ _ => rfl
  pending := fun hj => (pending?_loopHead s j).trans (hidle hj).symm
  taken := fun hj => Or.inl (hclean hj)
  stop := rfl
  changed := rfl
  policies := rfl
  shrunk := rfl

theorem moves_wake {s s' : PersistingAgent} (hstop : s.flushStop = true) {j : String}
    (hs : s.step dumps (.wake j) = some s') : Moves j s s' := by
  simp only [step] at hs
  cases hj : s.flushers j with
  | starting =>
    simp only [hj, Option.some.injEq] at hs
    subst hs
    exact moves_loopHead hstop (fun _ => by rw [pending?, hj]) fun hw =>
      absurd (hj.symm.trans hw) (by simp)
  | waiting =>
    simp only [hj] at hs
    obtain ⟨shrunk, state, -, -, -, htake⟩ | ⟨hclean, htake⟩ | ⟨hnone, htake⟩ :=
      takeDirtyState_cases dumps s j
    · rw [htake] at hs
      obtain rfl := Option.some.inj hs
      exact ⟨⟨.writing state, by simp, rfl⟩, fun _ _ => rfl, fun h => absurd hj h,
        fun _ => Or.inl (Finset.notMem_erase j s.dirtyStates), rfl, rfl, rfl, rfl⟩
    · rw [htake] at hs
      obtain rfl := Option.some.inj hs
      exact moves_loopHead hstop (fun h => absurd hj h) fun _ => hclean
    · rw [htake] at hs
      obtain rfl := Option.some.inj hs
      exact ⟨⟨.ended, by simp, by simp [loopHead, setFlusher, hstop]⟩, fun _ _ => rfl,
        fun h => absurd hj h, fun _ => Or.inr hnone, rfl, rfl, rfl, rfl⟩
  | writing state => simp [hj] at hs
  | ended => simp [hj] at hs

theorem moves_written {s s' : PersistingAgent} (h : s.Tracks dumps) (hstop : s.flushStop = true)
    {j : String} (hs : s.step dumps (.written j false) = some s') : Moves j s s' := by
  simp only [step] at hs
  cases hj : s.flushers j with
  | writing state =>
    simp only [hj, Option.some.injEq] at hs
    subst hs
    obtain ⟨-, hflushers, -, hstored⟩ := tracks_writeState h hj
    obtain ⟨db, hdb⟩ := writeState_eq s state false
    refine ⟨⟨.ended, by simp, ?_⟩, fun i hi => ?_, fun _ => ?_,
      fun hw => absurd (hj.symm.trans hw) (by simp), ?_, ?_, ?_, ?_⟩
    · rw [hdb]
      simp [loopHead, setFlusher, hstop]
    · change (s.writeState state false).stored? i = s.stored? i
      rw [stored?_writeState, if_neg (by rw [h.own j state hj]; exact hi)]
    · rw [pending?_loopHead, hstored, pending?, hj]
    all_goals rw [hdb]; rfl
  | starting => simp [hj] at hs
  | waiting => simp [hj] at hs
  | ended => simp [hj] at hs

/-- What the flushers do between the stop, set in `s₀`, and their end. One that was not waiting
writes nothing more than it had taken; one that was takes the value its state has. -/
structure Closing (dumps : Json → String) (s₀ s : PersistingAgent) : Prop where
  tracks : s.Tracks dumps
  stop : s.flushStop = true
  changed : s.changed = s₀.changed
  policies : s.statePolicies = s₀.statePolicies
  shrunk : s.currentShrunkStates = s₀.currentShrunkStates
  busy : ∀ i, s₀.flushers i ≠ .waiting → s.flushers i ≠ .waiting ∧ s.pending? i = s₀.pending? i
  waited : ∀ i ∈ s₀.changed, s₀.Periodic i → s₀.flushers i = .waiting →
    s.flushers i ≠ .waiting → s.pending? i = s₀.current? dumps i

theorem closing_start {s : PersistingAgent} (h : s.Tracks dumps) (hstop : s.flushStop = true) :
    Closing dumps s s :=
  ⟨h, hstop, rfl, rfl, rfl, fun _ hi => ⟨hi, rfl⟩, fun _ _ _ hi hi' => absurd hi hi'⟩

/-- A move of one flusher. -/
theorem Closing.moves {s₀ s s' : PersistingAgent} (h : Closing dumps s₀ s)
    (htracks : s'.Tracks dumps) {j : String} (hm : Moves j s s') : Closing dumps s₀ s' := by
  obtain ⟨flusher, hflusher, hflushers⟩ := hm.flushers
  have hother : ∀ i, i ≠ j → s'.flushers i = s.flushers i ∧ s'.pending? i = s.pending? i := by
    intro i hi
    have hsame : s'.flushers i = s.flushers i := by rw [hflushers, Function.update_of_ne hi]
    exact ⟨hsame, pending?_of_stored hsame (hm.stored i hi)⟩
  -- no move leads back to the wait once the stop is set
  have hmoved : s'.flushers j ≠ .waiting := by
    rw [hflushers, Function.update_self]
    exact hflusher
  refine ⟨htracks, hm.stop.trans h.stop, hm.changed.trans h.changed,
    hm.policies.trans h.policies, hm.shrunk.trans h.shrunk, fun i hi => ?_,
    fun i hi hp hwaiting hwoke => ?_⟩
  · obtain ⟨hbusy, hpending⟩ := h.busy i hi
    by_cases hij : i = j
    · subst hij
      exact ⟨hmoved, (hm.pending hbusy).trans hpending⟩
    · obtain ⟨hsame, hpending'⟩ := hother i hij
      exact ⟨by rw [hsame]; exact hbusy, hpending'.trans hpending⟩
  · by_cases hij : i = j
    · subst hij
      by_cases hstill : s.flushers i = .waiting
      · -- woken now: its state was taken, if it was dirty
        have hi' : i ∈ s'.changed := by rw [hm.changed, h.changed]; exact hi
        have hp' : s'.Periodic i := by rw [Periodic, hm.policies, h.policies]; exact hp
        rcases hm.taken hstill with hclean | hnone
        · refine (htracks.settled i hi' hp' hclean).trans ?_
          rw [current?, current?, hm.shrunk, h.shrunk]
        · have hsome := htracks.known i hi'
          rw [hm.shrunk, hnone] at hsome
          cases hsome
      · exact (hm.pending hstill).trans (h.waited i hi hp hwaiting hstill)
    · obtain ⟨hsame, hpending⟩ := hother i hij
      rw [hsame] at hwoke
      exact hpending.trans (h.waited i hi hp hwaiting hwoke)

theorem closing_step {s₀ s s' : PersistingAgent} (h : Closing dumps s₀ s) {act : PersistAct}
    (hquiet : act.Quiet) (hsucceeds : act.Succeeds) (hs : s.step dumps act = some s') :
    Closing dumps s₀ s' := by
  have htracks := tracks_step h.tracks hsucceeds hs
  cases act with
  | statePatch => cases hquiet
  | sessionInit => cases hquiet
  | wake j => exact h.moves htracks (moves_wake h.stop hs)
  | written j putFails =>
    obtain rfl : putFails = false := hsucceeds
    exact h.moves htracks (moves_written h.tracks h.stop hs)
  | close =>
    obtain rfl := Option.some.inj hs
    exact ⟨htracks, rfl, h.changed, h.policies, h.shrunk, h.busy, h.waited⟩

/-- A thread that writes ends its flusher once the stop is set. -/
theorem exec_written {s : PersistingAgent} (hstop : s.flushStop = true) {j : String}
    {state : StoredState} (hj : s.flushers j = .writing state) :
    ∃ t, exec (step dumps) s [.written j false] = some t ∧ t.flushStop = true
      ∧ t.flushers = Function.update s.flushers j .ended := by
  obtain ⟨db, hdb⟩ := writeState_eq s state false
  refine ⟨(s.writeState state false).loopHead j, by simp [step, hj], ?_, ?_⟩
  · rw [hdb]
    exact hstop
  · rw [hdb]
    simp [loopHead, setFlusher, hstop]

/-- Once the stop is set, a flusher can end. -/
theorem exists_ended (dumps : Json → String) {s : PersistingAgent} (hstop : s.flushStop = true)
    (j : String) :
    ∃ acts t, (∀ a ∈ acts, a.Quiet ∧ a.Succeeds) ∧ exec (step dumps) s acts = some t
      ∧ t.flushStop = true ∧ t.flushers = Function.update s.flushers j .ended := by
  have hwake : ∀ a ∈ [PersistAct.wake j], a.Quiet ∧ a.Succeeds := by
    intro a ha
    obtain rfl := List.mem_singleton.mp ha
    exact ⟨trivial, trivial⟩
  have hwritten : ∀ a ∈ [PersistAct.written j false], a.Quiet ∧ a.Succeeds := by
    intro a ha
    obtain rfl := List.mem_singleton.mp ha
    exact ⟨trivial, rfl⟩
  have hhead : ∀ u : PersistingAgent, u.flushStop = true → (u.loopHead j).flushers
      = Function.update u.flushers j .ended := fun u hu => by simp [loopHead, setFlusher, hu]
  have hrun : ∀ u, s.step dumps (.wake j) = some u → exec (step dumps) s [.wake j] = some u :=
    fun u hu => by rw [exec_cons, hu]; rfl
  cases hj : s.flushers j with
  | starting =>
    -- it finds the stop set, and does not enter its loop
    exact ⟨[.wake j], s.loopHead j, hwake, hrun _ (by simp only [step, hj]), hstop, hhead s hstop⟩
  | waiting =>
    obtain ⟨shrunk, state, -, -, -, htake⟩ | ⟨-, htake⟩ | ⟨-, htake⟩ :=
      takeDirtyState_cases dumps s j
    · -- one last write
      have hwriting : (setFlusher { s with dirtyStates := s.dirtyStates.erase j } j
          (.writing state)).flushers j = .writing state := by simp [setFlusher]
      obtain ⟨t, ht, hstop', hflushers⟩ := exec_written
        (s := setFlusher { s with dirtyStates := s.dirtyStates.erase j } j (.writing state))
        hstop hwriting
      refine ⟨.wake j :: [.written j false], t, ?_, ?_, hstop', ?_⟩
      · intro a ha
        rcases List.mem_cons.mp ha with rfl | ha
        · exact ⟨trivial, trivial⟩
        · exact hwritten a ha
      · rw [exec_cons, step]
        simp only [hj, htake, Option.bind_some]
        exact ht
      · simpa [setFlusher] using hflushers
    · exact ⟨[.wake j], s.loopHead j, hwake, hrun _ (by simp only [step, hj, htake]), hstop,
        hhead s hstop⟩
    · exact ⟨[.wake j], loopHead { s with dirtyStates := s.dirtyStates.erase j } j, hwake,
        hrun _ (by simp only [step, hj, htake]), hstop,
        hhead { s with dirtyStates := s.dirtyStates.erase j } hstop⟩
  | writing state =>
    obtain ⟨t, ht, hstop', hflushers⟩ := exec_written hstop hj
    exact ⟨[.written j false], t, hwritten, ht, hstop', hflushers⟩
  | ended =>
    exact ⟨[], s, by simp, rfl, hstop, by rw [← hj, Function.update_eq_self]⟩

/-- Once the stop is set, all flushers can end. -/
theorem exists_allEnded (dumps : Json → String) (l : List String) {s : PersistingAgent}
    (hstop : s.flushStop = true) (hl : ∀ i, s.flushers i ≠ .ended → i ∈ l) :
    ∃ acts t, (∀ a ∈ acts, a.Quiet ∧ a.Succeeds) ∧ exec (step dumps) s acts = some t
      ∧ ∀ i, t.flushers i = .ended := by
  induction l generalizing s with
  | nil => exact ⟨[], s, by simp, rfl, fun i => by_contra fun hi => by simpa using hl i hi⟩
  | cons j l ih =>
    obtain ⟨acts, u, hacts, hu, hstop', hflushers⟩ := exists_ended dumps hstop j
    obtain ⟨acts', t, hacts', ht, hended⟩ := ih hstop' fun i hi => by
      rw [hflushers] at hi
      by_cases hij : i = j
      · exact absurd (by rw [hij, Function.update_self]) hi
      · rw [Function.update_of_ne hij] at hi
        exact (List.mem_cons.mp (hl i hi)).resolve_left hij
    refine ⟨acts ++ acts', t, fun a ha => ?_, by rw [exec_append, hu]; exact ht, hended⟩
    exact (List.mem_append.mp ha).elim (hacts a) (hacts' a)

/-- The value a state has is what its flusher will leave on disk when the stop comes now: it waits,
and takes what its state has, or this value is on disk or being written already. -/
def WillFlush (dumps : Json → String) (s : PersistingAgent) (stateName : String) : Prop :=
  s.flushers stateName = .waiting ∨ s.pending? stateName = s.current? dumps stateName

/-- What a run after the stop leaves. -/
theorem Tracks.closing {s t : PersistingAgent} (h : s.Tracks dumps) {after : List PersistAct}
    (hafter : ∀ a ∈ after, a.Quiet ∧ a.Succeeds)
    (ht : exec (step dumps) s (.close :: after) = some t) :
    Closing dumps { s with flushStop := true } t := by
  have hstopped : Tracks dumps { s with flushStop := true } :=
    ⟨h.own, h.periodic, h.known, h.settled⟩
  rw [exec_cons] at ht
  refine exec_invariant_of_meets (C := fun _ a => a.Quiet ∧ a.Succeeds)
    (closing_start hstopped rfl) (fun _ _ _ h hc hs => closing_step h hc.1 hc.2 hs) ?_ ht
  exact fun pre a post u has _ => hafter a (by simp [has])

/-- A clean exit leaves the last value of a state that will be flushed. -/
theorem Tracks.stored_of_willFlush {s t : PersistingAgent} (h : s.Tracks dumps)
    {after : List PersistAct} (hafter : ∀ a ∈ after, a.Quiet ∧ a.Succeeds)
    (ht : exec (step dumps) s (.close :: after) = some t) (hall : ∀ i, t.flushers i = .ended)
    {i : String} (hi : i ∈ s.changed) (hp : s.Periodic i) (hwill : s.WillFlush dumps i) :
    t.stored? i = s.current? dumps i := by
  have hclosing := h.closing hafter ht
  have hended : t.pending? i = t.stored? i := by rw [pending?, hall i]
  rw [← hended]
  by_cases hwaiting : s.flushers i = .waiting
  · exact hclosing.waited i hi hp hwaiting (by rw [hall i]; simp)
  · exact (hclosing.busy i hwaiting).2.trans (hwill.resolve_left hwaiting)

/-- A clean exit keeps the last value of every changed state with a periodic policy, whatever the
flushers do after the stop, exactly where at the stop each such state's flusher waits or what it
writes, or has written, is the value the state has. -/
theorem cleanExit_iff (dumps : Json → String) (name session : String)
    (policies : Dict String PersistPolicy) (hashes : String → String) (shrunk : Dict String Json)
    (db : Table LastStateRow.key) {before : List PersistAct} {s : PersistingAgent}
    (hsucceeds : ∀ a ∈ before, a.Succeeds)
    (hrun : exec (step dumps) (start name session policies hashes shrunk db) before = some s) :
    (∀ after t, (∀ a ∈ after, a.Quiet ∧ a.Succeeds) →
        exec (step dumps) s (.close :: after) = some t → (∀ i, t.flushers i = .ended) →
        ∀ i ∈ s.changed, s.Periodic i → t.stored? i = s.current? dumps i)
      ↔ ∀ i ∈ s.changed, s.Periodic i → s.WillFlush dumps i := by
  have htracks : s.Tracks dumps := by
    refine exec_invariant_of_meets (C := fun _ a => a.Succeeds)
      (tracks_start name session policies hashes shrunk db)
      (fun _ _ _ h hc hs => tracks_step h hc hs) ?_ hrun
    exact fun pre a post t has _ => hsucceeds a (by simp [has])
  constructor
  · intro h i hi hp
    by_cases hwaiting : s.flushers i = .waiting
    · exact Or.inl hwaiting
    · obtain ⟨acts, t, hacts, ht, hall⟩ := exists_allEnded dumps s.statePolicies.keys
        (s := { s with flushStop := true }) rfl fun j hj => by
          obtain ⟨period, hperiod⟩ := htracks.periodic j hj
          exact Dict.mem_keys.mpr ⟨_, hperiod⟩
      have hclosing := htracks.closing hacts ht
      have hended : t.pending? i = t.stored? i := by rw [pending?, hall i]
      refine Or.inr ((hclosing.busy i hwaiting).2.symm.trans ?_)
      rw [hended]
      exact h acts t hacts ht hall i hi hp
  · intro h after t hafter ht hall i hi hp
    exact htracks.stored_of_willFlush hafter ht hall hi hp (h i hi hp)

/-- Numbers as JSON writes them. -/
def dumpsNumber : Json → String
  | .num n => if n = 1 then "1" else "2"
  | _ => "null"

/-- An agent with one state, written once a second at most. -/
def oneCamera : PersistingAgent :=
  start "app" "s1" (Dict.set ∅ "camera" (.every 1)) (fun _ => "h") ∅ Table.empty

/-- A run that moves only the one flusher there is ends it for good. -/
theorem allEnded_oneCamera {t : PersistingAgent} {f g : Flusher}
    (h : t.flushers = Function.update (Function.update (Function.update oneCamera.flushers
      "camera" f) "camera" g) "camera" .ended) (i : String) : t.flushers i = .ended := by
  rw [h]
  by_cases hi : i = "camera"
  · rw [hi, Function.update_self]
  · have hnone : (Dict.set ∅ "camera" (PersistPolicy.every 1)).get? i = none := by simp [hi]
    simp only [Function.update_of_ne hi, oneCamera, start, hnone]

/-- The state changes while its flusher waits. -/
def changeThenStop : List PersistAct := [.wake "camera", .statePatch "camera" (.num 1) 1 false]

theorem cleanExit_iff_changeThenStop :
    ∃ s t, exec (step dumpsNumber) oneCamera changeThenStop = some s
      ∧ exec (step dumpsNumber) s [.close, .wake "camera", .written "camera" false] = some t
      ∧ t.stored? "camera" = some "1" := by
  have hruns : ∃ s t, exec (step dumpsNumber) oneCamera changeThenStop = some s
      ∧ exec (step dumpsNumber) s [.close, .wake "camera", .written "camera" false] = some t
      ∧ t.flushers = Function.update (Function.update (Function.update oneCamera.flushers
          "camera" .waiting) "camera" (.writing ⟨"camera", "h", "s1", 1, "1"⟩)) "camera" .ended
      ∧ s.flushers "camera" = .waiting ∧ s.changed = {"camera"} ∧ s.Periodic "camera"
      ∧ s.current? dumpsNumber "camera" = some "1" :=
    ⟨_, _, rfl, rfl, rfl, rfl, rfl, ⟨1, rfl⟩, rfl⟩
  obtain ⟨s, t, hs, ht, hended, hwaiting, hchanged, hperiodic, hcurrent⟩ := hruns
  refine ⟨s, t, hs, ht, ?_⟩
  rw [← hcurrent]
  refine (cleanExit_iff dumpsNumber "app" "s1" _ _ _ _ (fun a ha => ?_) hs).mpr ?_ _ t
    (fun a ha => ?_) ht (allEnded_oneCamera hended) "camera" (by simp [hchanged]) hperiodic
  · rcases List.mem_cons.mp ha with rfl | ha
    · trivial
    · obtain rfl := List.mem_singleton.mp ha
      rfl
  · intro i hi _
    obtain rfl : i = "camera" := by simpa [hchanged] using hi
    exact Or.inl hwaiting
  · rcases List.mem_cons.mp ha with rfl | ha
    · exact ⟨trivial, trivial⟩
    · obtain rfl := List.mem_singleton.mp ha
      exact ⟨trivial, rfl⟩

/-- The state changes again while its value is being written, and the stop comes before the write
is done: the flusher ends without the last value. -/
theorem change_during_last_write :
    ∃ s t, exec (step dumpsNumber) oneCamera [.wake "camera",
        .statePatch "camera" (.num 1) 1 false, .wake "camera",
        .statePatch "camera" (.num 2) 2 false] = some s
      ∧ exec (step dumpsNumber) s [.close, .written "camera" false] = some t
      ∧ (∀ i, t.flushers i = .ended) ∧ "camera" ∈ s.changed ∧ s.Periodic "camera"
      ∧ t.stored? "camera" = some "1" ∧ s.current? dumpsNumber "camera" = some "2" := by
  have hruns : ∃ s t, exec (step dumpsNumber) oneCamera [.wake "camera",
        .statePatch "camera" (.num 1) 1 false, .wake "camera",
        .statePatch "camera" (.num 2) 2 false] = some s
      ∧ exec (step dumpsNumber) s [.close, .written "camera" false] = some t
      ∧ t.flushers = Function.update (Function.update (Function.update oneCamera.flushers
          "camera" .waiting) "camera" (.writing ⟨"camera", "h", "s1", 1, "1"⟩)) "camera" .ended
      ∧ "camera" ∈ s.changed ∧ s.Periodic "camera"
      ∧ t.stored? "camera" = some "1" ∧ s.current? dumpsNumber "camera" = some "2" :=
    ⟨_, _, rfl, rfl, rfl, by decide, ⟨1, rfl⟩, rfl, rfl⟩
  obtain ⟨s, t, hs, ht, hended, hrest⟩ := hruns
  exact ⟨s, t, hs, ht, allEnded_oneCamera hended, hrest⟩

end PersistingAgent

end Rekuest
