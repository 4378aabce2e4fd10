import Rekuest.Agents.PersistFailures

/-!
# The states earlier processes left

`_open_state_store` and `aload_previous_states` of `rekuest/agents/agent.py`, over
`rekuest/agents/persisted_state.py`. Several agents may keep their states in one file, and each may
end at any moment and be started again, with other declarations: what a process is given at its
start is a value its state had under the same ports, and never an older one than a process before
it was given.
-/

namespace Rekuest

open Runs

/-- `PersistedStates.load`: every state's last value. -/
def PersistedStates.load (db : Table LastStateRow.key) (agent : String) : List StoredState :=
  (db.rows.filter fun row => row.agent = agent).map LastStateRow.state

/-- What a process starts with: what `_open_state_store` reads of its app and its journal, and the
values its states have once its startup hooks are through. -/
structure StateDeclarations where
  session : String
  /-- `persist`, of the states that declare it. -/
  policies : Dict String PersistPolicy
  /-- `schema_hash` of every state. -/
  hashes : String → String
  shrunk : Dict String Json
  journalPath : Option String
  /-- The file cannot be opened or read. -/
  openFails : Bool

namespace StateDeclarations

/-- Whether `_open_state_store` comes to have a store. -/
def opens (d : StateDeclarations) : Bool :=
  !d.policies.keys.isEmpty && d.journalPath.isSome && d.journalPath != some ":memory:"
    && !d.openFails

/-- One stored state read by `_open_state_store`: taken if it still is persisted, and its ports are
the same. -/
def loadState (loads : String → Option Json) (d : StateDeclarations) (previous : Dict String Json)
    (state : StoredState) : Option (Dict String Json) :=
  match d.policies.get? state.stateName with
  | none => some previous
  | some _ =>
    if state.schemaHash = d.hashes state.stateName then
      (loads state.value).map fun value => previous.set state.stateName value
    else some previous

/-- `_previous_states`. -/
def previousStates (loads : String → Option Json) (d : StateDeclarations)
    (stored : List StoredState) : Option (Dict String Json) :=
  stored.foldlM (loadState loads d) ∅

end StateDeclarations

/-- The file, the agents that run over it, and every value their states took. -/
structure StateFile where
  db : Table LastStateRow.key
  processes : String → Option PersistingAgent
  /-- What `aload_previous_states` answers in an agent's latest process. -/
  previous : String → Dict String Json
  /-- The values a state of an agent had, each with the hash of its ports. -/
  took : String × String → List (String × Json)

/-- What happens. A process ends at any moment, also while a flusher's thread writes. -/
inductive StateFileAct
  | openStateStore (name : String) (declared : StateDeclarations)
  | act (name : String) (act : StoreAct)
  | exit (name : String)

/-- Whose event it is. -/
def StateFileAct.agent : StateFileAct → String
  | .openStateStore name _ => name
  | .act name _ => name
  | .exit name => name

/-- The value a state takes in an event. -/
def StoreAct.takes (i : String) : StoreAct → Option Json
  | .statePatch stateName shrunk _ _ => if stateName = i then some shrunk else none
  | _ => none

namespace StateFile

/-- No agent ever ran. -/
def start : StateFile := ⟨Table.empty, fun _ => none, fun _ => ∅, fun _ => []⟩

/-- A state takes a value. -/
def take (s : StateFile) (name : String) (hashes : String → String)
    (values : String → Option Json) : String × String → List (String × Json) :=
  fun key => if key.1 = name then
    s.took key ++ ((values key.2).map fun value => (hashes key.2, value)).toList
  else s.took key

/-- One event. -/
def step (dumps : Json → String) (loads : String → Option Json) (s : StateFile) :
    StateFileAct → Option StateFile
  | .openStateStore name d =>
    if (s.processes name).isSome then none
    else if d.opens then
      (d.previousStates loads (PersistedStates.load s.db name)).map fun previous =>
        { s with
          processes := Function.update s.processes name
            (some (PersistingAgent.start name d.session d.policies d.hashes d.shrunk s.db))
          previous := Function.update s.previous name previous
          took := s.take name d.hashes d.shrunk.get? }
    else some { s with previous := Function.update s.previous name ∅ }
  | .act name act =>
    -- a process acts on the file as it is
    (s.processes name).bind fun p =>
      (PersistingAgent.storeStep dumps { p with db := s.db } act).map fun p' =>
        { s with
          db := p'.db
          processes := Function.update s.processes name (some p')
          took := s.take name p.stateHashes fun i => act.takes i }
  | .exit name =>
    if (s.processes name).isSome then
      some { s with processes := Function.update s.processes name none }
    else none

end StateFile

/-! ## What an event writes -/

namespace PersistingAgent

variable {dumps : Json → String}

/-- The value a state has now, as `_take_dirty_state` takes it. -/
def capture (dumps : Json → String) (s : PersistingAgent) (i : String) : Option StoredState :=
  (s.currentShrunkStates.get? i).map fun shrunk => {
    stateName := i
    schemaHash := s.stateHashes i
    sessionId := s.currentSession
    globalRev := s.globalRevision
    value := dumps shrunk }

/-- The row of a state. -/
def row? (s : PersistingAgent) (agent i : String) : Option LastStateRow := s.db.row? (agent, i)

theorem stateName_capture {s : PersistingAgent} {i : String} {state : StoredState}
    (h : s.capture dumps i = some state) : state.stateName = i := by
  obtain ⟨shrunk, -, rfl⟩ := Option.map_eq_some_iff.mp h
  rfl

theorem takeDirtyState_eq (dumps : Json → String) (s : PersistingAgent) (i : String) :
    s.takeDirtyState dumps i = if i ∈ s.dirtyStates
      then (s.capture dumps i, { s with dirtyStates := s.dirtyStates.erase i }) else (none, s) := by
  unfold takeDirtyState capture
  rfl

/-- What noting a state writes: nothing, or the value it has. -/
theorem noteState_writes (dumps : Json → String) (s : PersistingAgent) (i : String)
    (putFails : Bool) :
    ∃ dirty changed db, s.noteState dumps i putFails
        = { s with dirtyStates := dirty, changed := changed, db := db } ∧
      (db = s.db ∨ s.statePolicies.get? i = some .synchronous ∧
        ∃ state, s.capture dumps i = some state ∧ db = PersistedStates.put s.db s.name state) ∧
      (s.statePolicies.get? i = some .synchronous → putFails = false →
        ∀ state, s.capture dumps i = some state → db = PersistedStates.put s.db s.name state) := by
  unfold noteState
  cases hpolicy : s.statePolicies.get? i with
  | none =>
    refine ⟨s.dirtyStates, s.changed, s.db, rfl, Or.inl rfl, ?_⟩
    rintro ⟨⟩
  | some policy =>
    cases policy with
    | every period =>
      refine ⟨_, _, s.db, rfl, Or.inl rfl, ?_⟩
      rintro ⟨⟩
    | synchronous =>
      dsimp only
      rw [writeDirtyState, takeDirtyState_eq, if_pos (Finset.mem_insert_self _ _)]
      have hcapture : capture dumps { s with
          dirtyStates := insert i s.dirtyStates
          changed := if (s.currentShrunkStates.get? i).isSome then insert i s.changed
            else s.changed } i = s.capture dumps i := rfl
      rw [hcapture]
      cases hstate : s.capture dumps i with
      | none =>
        refine ⟨_, _, s.db, rfl, Or.inl rfl, ?_⟩
        rintro - - state ⟨⟩
      | some state =>
        cases putFails with
        | true =>
          refine ⟨_, _, s.db, rfl, Or.inl rfl, ?_⟩
          rintro - ⟨⟩
        | false =>
          refine ⟨_, _, _, rfl, Or.inr ⟨rfl, state, rfl, rfl⟩, ?_⟩
          rintro - - state' ⟨⟩
          rfl

theorem row?_put (db : Table LastStateRow.key) (agent : String) (state : StoredState)
    (key : String × String) : (PersistedStates.put db agent state).row? key
      = if key = (agent, state.stateName) then some ⟨agent, state⟩ else db.row? key :=
  Table.row?_insertOrReplace db ⟨agent, state⟩ key

/-- What an event leaves of the rows and of the writes under way: a row that is new has the value
its state has now, or the one its flusher was writing; and no write of that state is under way
after it. -/
structure Writes (dumps : Json → String) (s s' : PersistingAgent) : Prop where
  name : s'.name = s.name
  hashes : s'.stateHashes = s.stateHashes
  policies : s'.statePolicies = s.statePolicies
  row : ∀ key, s'.db.row? key = s.db.row? key ∨ key.1 = s.name ∧
    (∃ state, s'.db.row? key = some ⟨s.name, state⟩ ∧
      (s'.capture dumps key.2 = some state ∨ s.flushers key.2 = .writing state)) ∧
    ∀ state, s'.flushers key.2 ≠ .writing state
  writing : ∀ i state, s'.flushers i = .writing state →
    s.flushers i = .writing state ∨ s'.capture dumps i = some state

/-- What noting leaves is as before, but for rows of synchronous states. -/
theorem writes_note {s s' : PersistingAgent}
    (hperiodic : ∀ i, s.flushers i ≠ .ended → s.Periodic i) {dirty changed : Finset String}
    {db : Table LastStateRow.key}
    (hs : s' = { s with dirtyStates := dirty, changed := changed, db := db })
    (hdb : ∀ key, db.row? key = s.db.row? key ∨ key.1 = s.name ∧
      s.statePolicies.get? key.2 = some .synchronous ∧
      ∃ state, s.capture dumps key.2 = some state ∧ db.row? key = some ⟨s.name, state⟩) :
    Writes dumps s s' := by
  subst hs
  refine ⟨rfl, rfl, rfl, fun key => ?_, fun i state hi => Or.inl hi⟩
  refine (hdb key).imp_right ?_
  rintro ⟨hname, hsync, state, hcapture, hrow⟩
  refine ⟨hname, ⟨state, hrow, Or.inl hcapture⟩, fun state' hwriting => ?_⟩
  -- a synchronous state has no flusher that writes
  obtain ⟨period, hperiod⟩ := hperiodic key.2 (by
    intro hended
    rw [hended] at hwriting
    cases hwriting)
  rw [hsync] at hperiod
  cases hperiod

/-- The rows after several states were noted. -/
theorem noteSessionInit_writes (dumps : Json → String) (putFails : String → Bool) (l : List String)
    (s : PersistingAgent) :
    ∃ dirty changed db, s.noteSessionInit dumps putFails l
        = { s with dirtyStates := dirty, changed := changed, db := db } ∧
      (∀ key, db.row? key = s.db.row? key ∨ key.1 = s.name ∧
        s.statePolicies.get? key.2 = some .synchronous ∧
        ∃ state, s.capture dumps key.2 = some state ∧ db.row? key = some ⟨s.name, state⟩) ∧
      ∀ i ∈ l, s.statePolicies.get? i = some .synchronous → putFails i = false →
        ∀ state, s.capture dumps i = some state → db.row? (s.name, i) = some ⟨s.name, state⟩ := by
  induction l generalizing s with
  | nil => exact ⟨s.dirtyStates, s.changed, s.db, rfl, fun key => Or.inl rfl, by rintro i ⟨⟩⟩
  | cons j l ih =>
    obtain ⟨dirty, changed, db, hnote, hdb, hsync⟩ := noteState_writes dumps s j (putFails j)
    obtain ⟨dirty', changed', db', hinit, hrows, hall⟩ :=
      ih { s with dirtyStates := dirty, changed := changed, db := db }
    have hstep : s.noteSessionInit dumps putFails (j :: l) = noteSessionInit dumps
        { s with dirtyStates := dirty, changed := changed, db := db } putFails l := by
      rw [← hnote]
      rfl
    refine ⟨dirty', changed', db', hstep.trans hinit, fun key => ?_, fun i hi hpolicy hok state
      hstate => ?_⟩
    · obtain hsame | hnew := hrows key
      · dsimp only at hsame
        rw [hsame]
        obtain rfl | ⟨hpolicy, state, hstate, rfl⟩ := hdb
        · exact Or.inl rfl
        · rw [row?_put]
          by_cases hkey : key = (s.name, state.stateName)
          · obtain rfl := hkey
            have hname := stateName_capture hstate
            rw [if_pos rfl]
            right
            dsimp only
            rw [hname]
            exact ⟨rfl, hpolicy, state, hstate, rfl⟩
          · exact Or.inl (if_neg hkey)
      · exact Or.inr hnew
    · -- a state that is named twice is written by its last note
      by_cases hlater : i ∈ l
      · exact hall i hlater hpolicy hok state hstate
      · obtain rfl := (List.mem_cons.mp hi).resolve_right hlater
        obtain hsame | ⟨-, -, state', hstate', hrow⟩ := hrows (s.name, i)
        · rw [hsame]
          dsimp only
          rw [hsync hpolicy hok state hstate, row?_put, stateName_capture hstate, if_pos rfl]
        · obtain rfl := Option.some.inj (hstate.symm.trans hstate')
          exact hrow

/-- A flusher that goes on or ends writes nothing. -/
theorem writes_loopHead {s : PersistingAgent} {j : String} {dirty : Finset String} :
    Writes dumps s (loopHead { s with dirtyStates := dirty } j) := by
  refine ⟨rfl, rfl, rfl, fun key => Or.inl rfl, fun i state hi => ?_⟩
  by_cases hij : i = j
  · subst hij
    simp only [loopHead, setFlusher, Function.update_self] at hi
    split at hi <;> cases hi
  · left
    simpa [loopHead, setFlusher, hij] using hi

theorem writes_step {s s' : PersistingAgent} (h : s.Sound dumps) {act : StoreAct}
    (hs : s.storeStep dumps act = some s') : Writes dumps s s' := by
  cases act with
  | statePatch i shrunk revision putFails =>
    obtain rfl := Option.some.inj hs
    obtain ⟨dirty, changed, db, hnote, hdb, -⟩ := noteState_writes dumps
      { s with
        currentShrunkStates := s.currentShrunkStates.set i shrunk
        globalRevision := revision }
      i putFails
    have hwrites : Writes dumps { s with
        currentShrunkStates := s.currentShrunkStates.set i shrunk
        globalRevision := revision } (noteState dumps { s with
          currentShrunkStates := s.currentShrunkStates.set i shrunk
          globalRevision := revision } i putFails) := by
      refine writes_note h.periodic hnote fun key => ?_
      obtain rfl | ⟨hpolicy, state, hstate, rfl⟩ := hdb
      · exact Or.inl rfl
      · rw [row?_put]
        by_cases hkey : key = (s.name, state.stateName)
        · obtain rfl := hkey
          rw [if_pos rfl]
          right
          dsimp only
          rw [stateName_capture hstate]
          exact ⟨rfl, hpolicy, state, hstate, rfl⟩
        · exact Or.inl (if_neg hkey)
    exact ⟨hwrites.name, hwrites.hashes, hwrites.policies, hwrites.row, hwrites.writing⟩
  | sessionInit putFails =>
    obtain rfl := Option.some.inj hs
    obtain ⟨dirty, changed, db, hinit, hrows, -⟩ :=
      noteSessionInit_writes dumps putFails s.statePolicies.keys s
    exact writes_note h.periodic hinit hrows
  | wake i =>
    simp only [storeStep, step] at hs
    cases hi : s.flushers i with
    | starting =>
      simp only [hi, Option.some.injEq] at hs
      subst hs
      exact writes_loopHead
    | waiting =>
      simp only [hi, takeDirtyState_eq] at hs
      by_cases hdirty : i ∈ s.dirtyStates
      · rw [if_pos hdirty] at hs
        cases hstate : s.capture dumps i with
        | none =>
          rw [hstate] at hs
          obtain rfl := Option.some.inj hs
          exact writes_loopHead
        | some state =>
          rw [hstate] at hs
          obtain rfl := Option.some.inj hs
          refine ⟨rfl, rfl, rfl, fun key => Or.inl rfl, fun j state' hj => ?_⟩
          by_cases hji : j = i
          · subst hji
            simp only [setFlusher, Function.update_self, Flusher.writing.injEq] at hj
            subst hj
            exact Or.inr hstate
          · left
            simpa [setFlusher, hji] using hj
      · rw [if_neg hdirty] at hs
        obtain rfl := Option.some.inj hs
        exact writes_loopHead
    | writing state => simp [hi] at hs
    | ended => simp [hi] at hs
  | written i putFails =>
    simp only [storeStep, step] at hs
    split at hs
    · rename_i state hwriting
      obtain rfl := Option.some.inj hs
      have hname := h.own i state hwriting
      cases putFails with
      | true => exact writes_loopHead
      | false =>
        refine ⟨rfl, rfl, rfl, fun key => ?_, fun j state' hj => ?_⟩
        · show (PersistedStates.put s.db s.name state).row? key = _ ∨ _
          rw [row?_put, hname]
          by_cases hkey : key = (s.name, i)
          · obtain rfl := hkey
            right
            refine ⟨rfl, ⟨state, ?_, Or.inr hwriting⟩, fun state' hj => ?_⟩
            · show (PersistedStates.put s.db s.name state).row? (s.name, i) = _
              rw [row?_put, hname, if_pos rfl]
            · simp only [loopHead, setFlusher, Function.update_self] at hj
              split at hj <;> cases hj
          · exact Or.inl (if_neg hkey)
        · by_cases hji : j = i
          · subst hji
            simp only [loopHead, setFlusher, Function.update_self] at hj
            split at hj <;> cases hj
          · left
            simpa [loopHead, setFlusher, writeState, hji] using hj
    · cases hs
  | close =>
    obtain rfl := Option.some.inj hs
    exact ⟨rfl, rfl, rfl, fun key => Or.inl rfl, fun i state hi => Or.inl hi⟩

/-- A flusher changes no state. -/
theorem shrunk_wake {s s' : PersistingAgent} {j : String} (hs : s.step dumps (.wake j) = some s') :
    s'.currentShrunkStates = s.currentShrunkStates ∧ s'.changed = s.changed := by
  simp only [step] at hs
  cases hj : s.flushers j with
  | starting =>
    simp only [hj, Option.some.injEq] at hs
    subst hs
    exact ⟨rfl, rfl⟩
  | waiting =>
    simp only [hj] at hs
    obtain ⟨shrunk, state, -, -, -, htake⟩ | ⟨-, htake⟩ | ⟨-, htake⟩ :=
      takeDirtyState_cases dumps s j
    all_goals
      rw [htake] at hs
      obtain rfl := Option.some.inj hs
      exact ⟨rfl, rfl⟩
  | writing state => simp [hj] at hs
  | ended => simp [hj] at hs

theorem shrunk_written {s s' : PersistingAgent} {j : String} {putFails : Bool}
    (hs : s.step dumps (.written j putFails) = some s') :
    s'.currentShrunkStates = s.currentShrunkStates ∧ s'.changed = s.changed := by
  simp only [step] at hs
  cases hj : s.flushers j with
  | writing state =>
    simp only [hj, Option.some.injEq] at hs
    obtain ⟨db, hdb⟩ := writeState_eq s state putFails
    rw [hdb] at hs
    subst hs
    exact ⟨rfl, rfl⟩
  | starting => simp [hj] at hs
  | waiting => simp [hj] at hs
  | ended => simp [hj] at hs

/-- The value of a state changes only where the state takes one. -/
theorem shrunk_storeStep {s s' : PersistingAgent} {act : StoreAct}
    (hs : s.storeStep dumps act = some s') (i : String) :
    s'.currentShrunkStates.get? i = (act.takes i).or (s.currentShrunkStates.get? i) := by
  cases act with
  | statePatch j shrunk revision putFails =>
    obtain rfl := Option.some.inj hs
    have hn := notes_noteState dumps { s with
      currentShrunkStates := s.currentShrunkStates.set j shrunk
      globalRevision := revision } j putFails
    show (noteState dumps _ j putFails).currentShrunkStates.get? i = _
    rw [hn.shrunk, Dict.get?_set]
    dsimp only [StoreAct.takes]
    by_cases hij : i = j
    · rw [if_pos hij, if_pos hij.symm]
      rfl
    · rw [if_neg hij, if_neg fun hji => hij hji.symm]
      rfl
  | sessionInit putFails =>
    obtain rfl := Option.some.inj hs
    obtain ⟨dirty, changed, db, hinit, -, -⟩ :=
      noteSessionInit_writes dumps putFails s.statePolicies.keys s
    rw [hinit]
    rfl
  | wake j => exact congrArg (fun shrunk => shrunk.get? i) (shrunk_wake hs).1
  | written j putFails =>
    exact congrArg (fun shrunk => shrunk.get? i) (@shrunk_written dumps _ _ _ _ hs).1
  | close =>
    obtain rfl := Option.some.inj hs
    rfl

/-! ## States written at once -/

/-- The value a state has is on disk, under the ports it has. -/
def OnDisk (dumps : Json → String) (s : PersistingAgent) (i : String) : Prop :=
  ∃ value state, s.currentShrunkStates.get? i = some value ∧
    s.row? s.name i = some ⟨s.name, state⟩ ∧
    state.schemaHash = s.stateHashes i ∧ state.value = dumps value

end PersistingAgent

/-- The event writes the state, if it notes it. -/
def StoreAct.Keeps (i : String) : StoreAct → Prop
  | .statePatch stateName _ _ putFails => stateName = i → putFails = false
  | .sessionInit putFails => putFails i = false
  | _ => True

namespace PersistingAgent

variable {dumps : Json → String}

end PersistingAgent

/-! ## What a process is given -/

namespace StateDeclarations

variable {loads : String → Option Json} {d : StateDeclarations}

/-- A stored state the app takes: it still is persisted, with the same ports. -/
def Takes (d : StateDeclarations) (state : StoredState) : Prop :=
  (d.policies.get? state.stateName).isSome ∧ state.schemaHash = d.hashes state.stateName

theorem loadState_of_takes {previous : Dict String Json} {state : StoredState} (h : d.Takes state) :
    d.loadState loads previous state
      = (loads state.value).map fun value => previous.set state.stateName value := by
  obtain ⟨policy, hpolicy⟩ := Option.isSome_iff_exists.mp h.1
  unfold loadState
  rw [hpolicy]
  exact if_pos h.2

theorem loadState_of_not_takes {previous : Dict String Json} {state : StoredState}
    (h : ¬ d.Takes state) : d.loadState loads previous state = some previous := by
  unfold loadState
  cases hpolicy : d.policies.get? state.stateName with
  | none => rfl
  | some policy => exact if_neg fun hhash => h ⟨by rw [hpolicy]; rfl, hhash⟩

/-- The values read of stored states with distinct names. -/
theorem get?_foldlM_loadState {l : List StoredState} {previous previous' : Dict String Json}
    (hnames : (l.map StoredState.stateName).Nodup)
    (h : l.foldlM (d.loadState loads) previous = some previous') (i : String) (value : Json) :
    previous'.get? i = some value ↔
      (∃ state ∈ l, state.stateName = i ∧ d.Takes state ∧ loads state.value = some value) ∨
      (previous.get? i = some value ∧ ∀ state ∈ l, state.stateName = i → ¬ d.Takes state) := by
  induction l generalizing previous with
  | nil =>
    obtain rfl := Option.some.inj h
    simp
  | cons state l ih =>
    obtain ⟨hnew, hnames⟩ := List.nodup_cons.mp hnames
    have hlater : ∀ state' ∈ l, state'.stateName ≠ state.stateName := by
      intro state' hmem hname
      exact hnew (List.mem_map.mpr ⟨state', hmem, hname⟩)
    obtain ⟨next, hnext, h⟩ := Option.bind_eq_some_iff.mp h
    rw [ih hnames h]
    by_cases htakes : d.Takes state
    · rw [loadState_of_takes htakes] at hnext
      obtain ⟨loaded, hloaded, rfl⟩ := Option.map_eq_some_iff.mp hnext
      rw [Dict.get?_set]
      by_cases hi : i = state.stateName
      · subst hi
        rw [if_pos rfl]
        constructor
        · rintro (⟨state', hmem, hname, -⟩ | ⟨hvalue, -⟩)
          · exact absurd hname (hlater state' hmem)
          · exact Or.inl ⟨state, List.mem_cons_self, rfl, htakes, hloaded.trans hvalue⟩
        · rintro (⟨state', hmem, hname, -, hvalue⟩ | ⟨-, hnone⟩)
          · obtain rfl | hmem := List.mem_cons.mp hmem
            · exact Or.inr ⟨hloaded.symm.trans hvalue,
                fun state'' hmem hname => absurd hname (hlater state'' hmem)⟩
            · exact absurd hname (hlater state' hmem)
          · exact absurd htakes (hnone state List.mem_cons_self rfl)
      · rw [if_neg hi]
        simp [Ne.symm hi]
    · rw [loadState_of_not_takes htakes] at hnext
      obtain rfl := Option.some.inj hnext
      simp [htakes]

end StateDeclarations

theorem PersistedStates.mem_load {db : Table LastStateRow.key} {agent : String}
    {state : StoredState} :
    state ∈ PersistedStates.load db agent ↔
      db.row? (agent, state.stateName) = some ⟨agent, state⟩ := by
  rw [Table.row?_eq_some]
  unfold PersistedStates.load
  rw [List.mem_map]
  constructor
  · rintro ⟨row, hmem, rfl⟩
    obtain ⟨hrow, hagent⟩ := List.mem_filter.mp hmem
    obtain rfl := of_decide_eq_true hagent
    exact ⟨hrow, rfl⟩
  · rintro ⟨hmem, -⟩
    exact ⟨⟨agent, state⟩, List.mem_filter.mpr ⟨hmem, decide_eq_true rfl⟩, rfl⟩

theorem PersistedStates.nodup_load (db : Table LastStateRow.key) (agent : String) :
    ((PersistedStates.load db agent).map StoredState.stateName).Nodup := by
  unfold PersistedStates.load
  rw [List.map_map]
  refine (List.nodup_map_iff_inj_on (db.nodup_rows.filter _)).mpr ?_
  intro row hrow row' hrow' hname
  obtain ⟨hmem, hagent⟩ := List.mem_filter.mp hrow
  obtain ⟨hmem', hagent'⟩ := List.mem_filter.mp hrow'
  refine db.eq_of_key_eq hmem hmem' (Prod.ext ?_ hname)
  exact (of_decide_eq_true hagent).trans (of_decide_eq_true hagent').symm

/-- What a process is given is what the rows of its states have, where they still are persisted,
with the same ports. -/
theorem StateDeclarations.get?_previousStates {loads : String → Option Json} {d : StateDeclarations}
    {db : Table LastStateRow.key} {agent : String} {previous : Dict String Json}
    (h : d.previousStates loads (PersistedStates.load db agent) = some previous) (i : String)
    (value : Json) : previous.get? i = some value ↔ (d.policies.get? i).isSome ∧
      ∃ row, db.row? (agent, i) = some row ∧ row.state.schemaHash = d.hashes i ∧
        loads row.state.value = some value := by
  rw [get?_foldlM_loadState (PersistedStates.nodup_load db agent) h]
  constructor
  · rintro (⟨state, hmem, rfl, ⟨hpolicy, hhash⟩, hvalue⟩ | ⟨hnone, -⟩)
    · exact ⟨hpolicy, _, PersistedStates.mem_load.mp hmem, hhash, hvalue⟩
    · cases hnone
  · rintro ⟨hpolicy, ⟨agent', state⟩, hrow, hhash, hvalue⟩
    obtain ⟨-, hkey⟩ := Table.row?_eq_some.mp hrow
    obtain ⟨rfl, rfl⟩ := Prod.mk.inj hkey
    exact Or.inl ⟨state, PersistedStates.mem_load.mpr hrow, rfl, ⟨hpolicy, hhash⟩, hvalue⟩

/-! ## How far the rows are

Every value a state took is an entry of a list, with the ports it has. A row has the value of one of
them, and what is written later is an entry further on.
-/

/-- The value and the ports of an entry. -/
def StoredState.IsEntry (dumps : Json → String) (state : StoredState) (entry : String × Json) :
    Prop :=
  state.schemaHash = entry.1 ∧ state.value = dumps entry.2

namespace StateFile

variable {dumps : Json → String} {loads : String → Option Json}

/-- A process knows its name, and the last value each of its states took. -/
structure Knows (dumps : Json → String) (s : StateFile) (name : String) (p : PersistingAgent) :
    Prop where
  sound : p.Sound dumps
  named : p.name = name
  current : ∀ i value, p.currentShrunkStates.get? i = some value →
    (s.took (name, i)).getLast? = some (p.stateHashes i, value)

theorem Knows.sound_with {s : StateFile} {name : String} {p : PersistingAgent}
    (h : s.Knows dumps name p) (db : Table LastStateRow.key) :
    PersistingAgent.Sound dumps { p with db := db } :=
  ⟨h.sound.own, h.sound.periodic, h.sound.known, h.sound.policy, h.sound.persisted, h.sound.dirty,
    h.sound.writing⟩

def Consistent (dumps : Json → String) (s : StateFile) : Prop :=
  ∀ name p, s.processes name = some p → s.Knows dumps name p

/-- The row of a state has the value of entry `k`, and a write under way that of one after it. -/
structure RowAt (dumps : Json → String) (s : StateFile) (key : String × String) (k : ℕ) :
    Prop where
  le : k ≤ (s.took key).length - 1
  row : ∀ row, s.db.row? key = some row →
    ∃ entry, (s.took key)[k]? = some entry ∧ row.state.IsEntry dumps entry
  writing : ∀ p state, s.processes key.1 = some p → p.flushers key.2 = .writing state →
    ∃ j entry, k ≤ j ∧ (s.took key)[j]? = some entry ∧ state.IsEntry dumps entry

theorem take_of_ne (s : StateFile) {name : String} (hashes : String → String)
    (values : String → Option Json) {key : String × String} (h : key.1 ≠ name) :
    s.take name hashes values key = s.took key := if_neg h

theorem take_self (s : StateFile) (name : String) (hashes : String → String)
    (values : String → Option Json) (i : String) : s.take name hashes values (name, i)
      = s.took (name, i) ++ ((values i).map fun value => (hashes i, value)).toList := if_pos rfl

theorem prefix_take (s : StateFile) (name : String) (hashes : String → String)
    (values : String → Option Json) (key : String × String) :
    s.took key <+: s.take name hashes values key := by
  unfold take
  split
  · exact List.prefix_append _ _
  · exact List.prefix_refl _

/-- The last entry once a state may have taken a value. -/
theorem getLast?_take (s : StateFile) (name : String) (hashes : String → String)
    (values : String → Option Json) (i : String) :
    (s.take name hashes values (name, i)).getLast?
      = ((values i).map fun value => (hashes i, value)).or (s.took (name, i)).getLast? := by
  rw [take_self]
  cases values i with
  | none => simp
  | some value => simp

/-- A process acts on the file as it is. -/
theorem act_cases {s t : StateFile} {name : String} {act : StoreAct}
    (h : step dumps loads s (.act name act) = some t) : ∃ p p', s.processes name = some p ∧
      PersistingAgent.storeStep dumps { p with db := s.db } act = some p' ∧
      t = { s with
        db := p'.db
        processes := Function.update s.processes name (some p')
        took := s.take name p.stateHashes fun i => act.takes i } := by
  obtain ⟨p, hp, h⟩ := Option.bind_eq_some_iff.mp h
  obtain ⟨p', hp', rfl⟩ := Option.map_eq_some_iff.mp h
  exact ⟨p, p', hp, hp', rfl⟩

/-- A process starts, with what it reads, or without a store. -/
theorem open_cases {s t : StateFile} {name : String} {d : StateDeclarations}
    (h : step dumps loads s (.openStateStore name d) = some t) : s.processes name = none ∧
      ((∃ previous, d.opens = true ∧
          d.previousStates loads (PersistedStates.load s.db name) = some previous ∧
          t = { s with
            processes := Function.update s.processes name
              (some (PersistingAgent.start name d.session d.policies d.hashes d.shrunk s.db))
            previous := Function.update s.previous name previous
            took := s.take name d.hashes d.shrunk.get? }) ∨
        d.opens = false ∧ t = { s with previous := Function.update s.previous name ∅ }) := by
  simp only [step] at h
  split at h
  · cases h
  · rename_i hnone
    refine ⟨Option.not_isSome_iff_eq_none.mp hnone, ?_⟩
    split at h
    · rename_i hopens
      obtain ⟨previous, hprevious, rfl⟩ := Option.map_eq_some_iff.mp h
      exact Or.inl ⟨previous, hopens, hprevious, rfl⟩
    · rename_i hopens
      obtain rfl := Option.some.inj h
      exact Or.inr ⟨Bool.not_eq_true _ ▸ hopens, rfl⟩

theorem exit_cases {s t : StateFile} {name : String}
    (h : step dumps loads s (.exit name) = some t) :
    t = { s with processes := Function.update s.processes name none } := by
  simp only [step] at h
  split at h
  · exact (Option.some.inj h).symm
  · cases h

theorem prefix_step {s t : StateFile} {a : StateFileAct} (h : step dumps loads s a = some t)
    (key : String × String) : s.took key <+: t.took key := by
  cases a with
  | openStateStore name d =>
    obtain ⟨-, ⟨previous, -, -, rfl⟩ | ⟨-, rfl⟩⟩ := open_cases h
    · exact prefix_take s name d.hashes d.shrunk.get? key
    · exact List.prefix_refl _
  | act name act =>
    obtain ⟨p, p', -, -, rfl⟩ := act_cases h
    exact prefix_take s name p.stateHashes (fun i => act.takes i) key
  | exit name =>
    obtain rfl := exit_cases h
    exact List.prefix_refl _

theorem consistent_step {s t : StateFile} {a : StateFileAct} (hc : s.Consistent dumps)
    (h : step dumps loads s a = some t) : t.Consistent dumps := by
  intro other q hq
  cases a with
  | openStateStore name d =>
    obtain ⟨-, ⟨previous, -, -, rfl⟩ | ⟨-, rfl⟩⟩ := open_cases h
    · by_cases hname : other = name
      · subst hname
        simp only [Function.update_self, Option.some.injEq] at hq
        subst hq
        refine ⟨PersistingAgent.sound_start _ _ _ _ _ _, rfl, fun i value hvalue => ?_⟩
        have hshrunk : d.shrunk.get? i = some value := hvalue
        refine (getLast?_take s other d.hashes d.shrunk.get? i).trans ?_
        rw [hshrunk]
        rfl
      · simp only [Function.update_of_ne hname] at hq
        have hknows := hc other q hq
        refine ⟨hknows.sound, hknows.named, fun i value hvalue => ?_⟩
        exact (congrArg List.getLast? (take_of_ne s _ _ hname)).trans
          (hknows.current i value hvalue)
    · exact ⟨(hc other q hq).sound, (hc other q hq).named, (hc other q hq).current⟩
  | act name act =>
    obtain ⟨p, p', hp, hp', rfl⟩ := act_cases h
    by_cases hname : other = name
    · subst hname
      simp only [Function.update_self, Option.some.injEq] at hq
      subst hq
      have hknows := hc other p hp
      have hsound := hknows.sound_with s.db
      have hwrites := PersistingAgent.writes_step hsound hp'
      refine ⟨PersistingAgent.sound_step hsound hp', hwrites.name.trans hknows.named,
        fun i value hvalue => ?_⟩
      -- the last entry is what the state takes in this event, if it takes anything
      refine (getLast?_take s other p.stateHashes (fun i => act.takes i) i).trans ?_
      rw [PersistingAgent.shrunk_storeStep hp' i] at hvalue
      rw [hwrites.hashes]
      cases htakes : act.takes i with
      | none =>
        rw [htakes] at hvalue
        exact hknows.current i value hvalue
      | some taken =>
        rw [htakes] at hvalue
        obtain rfl := Option.some.inj hvalue
        rfl
    · simp only [Function.update_of_ne hname] at hq
      have hknows := hc other q hq
      refine ⟨hknows.sound, hknows.named, fun i value hvalue => ?_⟩
      have htook : s.take name p.stateHashes (fun i => act.takes i) (other, i)
          = s.took (other, i) := take_of_ne s _ _ hname
      exact (congrArg List.getLast? htook).trans (hknows.current i value hvalue)
  | exit name =>
    obtain rfl := exit_cases h
    by_cases hname : other = name
    · subst hname
      simp only [Function.update_self] at hq
      cases hq
    · simp only [Function.update_of_ne hname] at hq
      exact ⟨(hc other q hq).sound, (hc other q hq).named, (hc other q hq).current⟩

/-- What a process takes of a state now is its last entry. -/
theorem isEntry_capture {s : StateFile} {name i : String} {p : PersistingAgent}
    {state : StoredState}
    (hcurrent : ∀ i value, p.currentShrunkStates.get? i = some value →
      (s.took (name, i)).getLast? = some (p.stateHashes i, value))
    (h : p.capture dumps i = some state) : ∃ entry,
      (s.took (name, i))[(s.took (name, i)).length - 1]? = some entry ∧
        state.IsEntry dumps entry := by
  obtain ⟨value, hvalue, rfl⟩ := Option.map_eq_some_iff.mp h
  refine ⟨(p.stateHashes i, value), ?_, rfl, rfl⟩
  rw [← List.getLast?_eq_getElem?]
  exact hcurrent i value hvalue

/-- Further entries leave a row where it is. -/
theorem RowAt.mono {s t : StateFile} {key : String × String} {k : ℕ} (h : s.RowAt dumps key k)
    (htook : s.took key <+: t.took key) (hdb : t.db.row? key = s.db.row? key)
    (hwriting : ∀ p state, t.processes key.1 = some p → p.flushers key.2 = .writing state →
      (∃ q, s.processes key.1 = some q ∧ q.flushers key.2 = .writing state) ∨
        ∃ entry, (t.took key)[(t.took key).length - 1]? = some entry ∧ state.IsEntry dumps entry) :
    t.RowAt dumps key k := by
  have hlength := htook.length_le
  have hentry : ∀ (j : ℕ) (entry : String × Json), (s.took key)[j]? = some entry →
      (t.took key)[j]? = some entry := by
    intro j entry hj
    obtain ⟨post, hpost⟩ := htook
    obtain ⟨hlt, -⟩ := List.getElem?_eq_some_iff.mp hj
    rw [← hpost, List.getElem?_append_left hlt]
    exact hj
  have hle := h.le
  refine ⟨by omega, fun row hrow => ?_, fun p state hp hi => ?_⟩
  · rw [hdb] at hrow
    obtain ⟨entry, hk, his⟩ := h.row row hrow
    exact ⟨entry, hentry k entry hk, his⟩
  · obtain ⟨q, hq, hold⟩ | ⟨entry, hlast, his⟩ := hwriting p state hp hi
    · obtain ⟨j, entry, hkj, hj, his⟩ := h.writing q state hq hold
      exact ⟨j, entry, hkj, hentry j entry hj, his⟩
    · exact ⟨(t.took key).length - 1, entry, by omega, hlast, his⟩

/-- A row never gets older. -/
theorem rowAt_step {s t : StateFile} {a : StateFileAct} {key : String × String} {k : ℕ}
    (hc : s.Consistent dumps) (h : s.RowAt dumps key k) (ht : step dumps loads s a = some t) :
    ∃ k', k ≤ k' ∧ t.RowAt dumps key k' := by
  have htook := prefix_step ht key
  have hct := consistent_step hc ht
  cases a with
  | openStateStore name d =>
    refine ⟨k, le_refl k, ?_⟩
    obtain ⟨-, ⟨previous, -, -, rfl⟩ | ⟨-, rfl⟩⟩ := open_cases ht
    · refine h.mono htook rfl fun p state hp hi => Or.inl ?_
      by_cases hname : key.1 = name
      · -- no flusher writes yet
        simp only [hname, Function.update_self, Option.some.injEq] at hp
        subst hp
        simp only [PersistingAgent.start] at hi
        split at hi <;> cases hi
      · simp only [Function.update_of_ne hname] at hp
        exact ⟨p, hp, hi⟩
    · exact h.mono htook rfl fun p state hp hi => Or.inl ⟨p, hp, hi⟩
  | act name act =>
    obtain ⟨p, p', hp, hp', rfl⟩ := act_cases ht
    have hknows := hc name p hp
    have hwrites := PersistingAgent.writes_step (hknows.sound_with s.db) hp'
    by_cases hname : key.1 = name
    · obtain ⟨agent, i⟩ := key
      obtain rfl : agent = name := hname
      have hcapture : ∀ state, p'.capture dumps i = some state → _ :=
        fun state => isEntry_capture (hct agent p' (Function.update_self _ _ _)).current
      obtain hsame | ⟨-, ⟨state, hrow, hstate⟩, hidle⟩ := hwrites.row (agent, i)
      · -- nothing was written for the state
        refine ⟨k, le_refl k, h.mono htook hsame fun q state hq hi => ?_⟩
        simp only [Function.update_self, Option.some.injEq] at hq
        subst hq
        obtain hold | hnew := hwrites.writing i state hi
        · exact Or.inl ⟨p, hp, hold⟩
        · exact Or.inr (hcapture state hnew)
      · -- what was written is the value of now, or what the flusher had taken
        have hfresh : ∃ j entry, k ≤ j ∧ j ≤ (s.take agent p.stateHashes
            (fun i => act.takes i) (agent, i)).length - 1 ∧
            (s.take agent p.stateHashes (fun i => act.takes i) (agent, i))[j]? = some entry ∧
            state.IsEntry dumps entry := by
          have hlength := htook.length_le
          have hle := h.le
          obtain hnew | hold := hstate
          · obtain ⟨entry, hlast, his⟩ := hcapture state hnew
            exact ⟨_, entry, by dsimp only at hlength ⊢; omega, le_refl _, hlast, his⟩
          · obtain ⟨j, entry, hkj, hj, his⟩ := h.writing p state hp hold
            obtain ⟨hlt, hget⟩ := List.getElem?_eq_some_iff.mp hj
            refine ⟨j, entry, hkj, by dsimp only at hlength; omega, ?_, his⟩
            exact List.getElem?_eq_some_iff.mpr ⟨by dsimp only at hlength; omega,
              (htook.getElem hlt).symm.trans hget⟩
        obtain ⟨j, entry, hkj, hlast, hj, his⟩ := hfresh
        refine ⟨j, hkj, hlast, fun row hrow' => ⟨entry, hj, ?_⟩, fun q state' hq hi => ?_⟩
        · obtain rfl := Option.some.inj (hrow.symm.trans hrow')
          exact his
        · simp only [Function.update_self, Option.some.injEq] at hq
          subst hq
          exact absurd hi (hidle state')
    · refine ⟨k, le_refl k, h.mono htook ?_ fun q state hq hi => Or.inl ⟨q, ?_, hi⟩⟩
      · refine (hwrites.row key).resolve_right fun hown => hname ?_
        exact hown.1.trans hknows.named
      · simpa only [Function.update_of_ne hname] using hq
  | exit name =>
    obtain rfl := exit_cases ht
    refine ⟨k, le_refl k, h.mono htook rfl fun p state hp hi => Or.inl ⟨p, ?_, hi⟩⟩
    by_cases hname : key.1 = name
    · simp only [hname, Function.update_self] at hp
      cases hp
    · simpa only [Function.update_of_ne hname] using hp

/-- `json.loads` reads back what `json.dumps` wrote of the values an agent's states took. -/
def Readable (dumps : Json → String) (loads : String → Option Json) (s : StateFile)
    (name : String) : Prop :=
  ∀ i, ∀ entry ∈ s.took (name, i), loads (dumps entry.2) = some entry.2

theorem Readable.of_prefix {s t : StateFile} {name : String} (h : t.Readable dumps loads name)
    (htook : ∀ i, s.took (name, i) <+: t.took (name, i)) : s.Readable dumps loads name :=
  fun i entry hentry => h i entry ((htook i).subset hentry)

theorem rowAt_start (key : String × String) : start.RowAt dumps key 0 := by
  refine ⟨Nat.zero_le _, ?_, ?_⟩
  · rintro row ⟨⟩
  · rintro p state ⟨⟩

theorem consistent_start : start.Consistent dumps := by
  rintro name p ⟨⟩

/-- Along a run, a row never gets older. -/
theorem rowAt_run {s t : StateFile} {as : List StateFileAct} {key : String × String} {k : ℕ}
    (hc : s.Consistent dumps) (h : s.RowAt dumps key k)
    (ht : exec (step dumps loads) s as = some t) :
    t.Consistent dumps ∧ s.took key <+: t.took key ∧ ∃ k', k ≤ k' ∧ t.RowAt dumps key k' := by
  refine exec_invariant (I := fun t : StateFile => t.Consistent dumps ∧ s.took key <+: t.took key ∧
    ∃ k', k ≤ k' ∧ t.RowAt dumps key k') ⟨hc, List.prefix_refl _, k, le_refl k, h⟩ ?_ ht
  rintro u a v ⟨hu, htook, j, hkj, hj⟩ hv
  obtain ⟨k', hjk, hk'⟩ := rowAt_step hu hj hv
  exact ⟨consistent_step hu hv, htook.trans (prefix_step hv key), k', hkj.trans hjk, hk'⟩

/-- What a start is given of a state is the entry its row has. -/
theorem RowAt.given {s t : StateFile} {name i : String} {d : StateDeclarations} {k : ℕ}
    {value : Json}
    (hloads : s.Readable dumps loads name) (h : s.RowAt dumps (name, i) k)
    (ht : step dumps loads s (.openStateStore name d) = some t)
    (hvalue : (t.previous name).get? i = some value) :
    (s.took (name, i))[k]? = some (d.hashes i, value) := by
  obtain ⟨-, ⟨previous, -, hprevious, rfl⟩ | ⟨-, rfl⟩⟩ := open_cases ht
  · simp only [Function.update_self] at hvalue
    obtain ⟨-, row, hrow, hhash, hloaded⟩ :=
      (StateDeclarations.get?_previousStates hprevious i value).mp hvalue
    obtain ⟨⟨hash, value'⟩, hentry, hhash', hvalue'⟩ := h.row row hrow
    rw [hvalue', hloads i _ (List.mem_of_getElem? hentry)] at hloaded
    obtain rfl := Option.some.inj hloaded
    obtain rfl : hash = d.hashes i := hhash'.symm.trans hhash
    exact hentry
  · simp only [Function.update_self] at hvalue
    cases hvalue

/-- Whenever a process of an agent is given a value of a state at its start, the state took that
value before, under the ports it has in this process; and a later process of the agent is never
given an older one. -/
theorem given_states_advance {as bs : List StateFileAct} {s t u w : StateFile} {name i : String}
    {d d' : StateDeclarations} {value value' : Json}
    (hs : exec (step dumps loads) start as = some s)
    (ht : step dumps loads s (.openStateStore name d) = some t)
    (hu : exec (step dumps loads) t bs = some u) (hloads : u.Readable dumps loads name)
    (hw : step dumps loads u (.openStateStore name d') = some w)
    (hvalue : (t.previous name).get? i = some value)
    (hvalue' : (w.previous name).get? i = some value') :
    s.took (name, i) <+: u.took (name, i) ∧
      ∃ k k' : ℕ, k ≤ k' ∧ (s.took (name, i))[k]? = some (d.hashes i, value) ∧
        (u.took (name, i))[k']? = some (d'.hashes i, value') := by
  have hbetween : exec (step dumps loads) s (.openStateStore name d :: bs) = some u := by
    rw [exec_cons, ht]
    exact hu
  obtain ⟨hcs, -, k, -, hk⟩ := rowAt_run consistent_start (rowAt_start (name, i)) hs
  obtain ⟨hcu, htook, k', hkk', hk'⟩ := rowAt_run hcs hk hbetween
  have hloads' : s.Readable dumps loads name :=
    hloads.of_prefix fun j => exec_invariant (I := fun t : StateFile =>
      s.took (name, j) <+: t.took (name, j)) (List.prefix_refl _)
      (fun _ _ _ h hv => h.trans (prefix_step hv (name, j))) hbetween
  exact ⟨htook, k, k', hkk', hk.given hloads' ht hvalue, hk'.given hloads hw hvalue'⟩

/-- Numbers as JSON reads them. -/
def loadsNumber (text : String) : Option Json :=
  if text = "1" then some (.num 1) else if text = "2" then some (.num 2) else none

/-- An app whose camera is written on every change, and stands at `shrunk` once it started. -/
def camera (session : String) (shrunk : ℚ) : StateDeclarations where
  session := session
  policies := Dict.set ∅ "camera" .synchronous
  hashes := fun _ => "h"
  shrunk := Dict.set ∅ "camera" (.num shrunk)
  journalPath := some "outbox.db"
  openFails := false

/-- The first process of the app notes its camera, and ends. -/
def notedOnce : List StateFileAct :=
  [.openStateStore "app" (camera "s1" 1), .act "app" (.sessionInit fun _ => false), .exit "app"]

/-- In the second, the camera moves. -/
def movedOnce : List StateFileAct :=
  [.act "app" (.statePatch "camera" (.num 2) 1 false), .exit "app"]

theorem given_states_advance_cameraMoves : ∃ s t u w,
    exec (step PersistingAgent.dumpsNumber loadsNumber) start notedOnce = some s ∧
    step PersistingAgent.dumpsNumber loadsNumber s
      (.openStateStore "app" (camera "s2" 1)) = some t ∧
    exec (step PersistingAgent.dumpsNumber loadsNumber) t movedOnce = some u ∧
    step PersistingAgent.dumpsNumber loadsNumber u
      (.openStateStore "app" (camera "s3" 2)) = some w ∧
    s.took ("app", "camera") <+: u.took ("app", "camera") ∧
      ∃ k k' : ℕ, k ≤ k' ∧ (s.took ("app", "camera"))[k]? = some ("h", .num 1) ∧
        (u.took ("app", "camera"))[k']? = some ("h", .num 2) := by
  have hruns : ∃ s t u w,
      exec (step PersistingAgent.dumpsNumber loadsNumber) start notedOnce = some s ∧
      step PersistingAgent.dumpsNumber loadsNumber s (.openStateStore "app" (camera "s2" 1))
        = some t ∧
      exec (step PersistingAgent.dumpsNumber loadsNumber) t movedOnce = some u ∧
      step PersistingAgent.dumpsNumber loadsNumber u (.openStateStore "app" (camera "s3" 2))
        = some w ∧
      (t.previous "app").get? "camera" = some (.num 1) ∧
      (w.previous "app").get? "camera" = some (.num 2) ∧
      ∀ i, u.took ("app", i) = if i = "camera" then [("h", .num 1), ("h", .num 1), ("h", .num 2)]
        else [] := by
    refine ⟨_, _, _, _, rfl, rfl, rfl, rfl, rfl, rfl, fun i => ?_⟩
    by_cases hi : i = "camera"
    · subst hi
      rfl
    · have hnone : ∀ shrunk : ℚ, (Dict.set ∅ "camera" (Json.num shrunk)).get? i = none :=
        fun shrunk => by simp [hi]
      simp only [take, camera, start, StoreAct.takes, hnone, if_neg hi, if_neg (Ne.symm hi)]
      rfl
  obtain ⟨s, t, u, w, hs, ht, hu, hw, hgiven, hgiven', htook⟩ := hruns
  refine ⟨s, t, u, w, hs, ht, hu, hw, ?_⟩
  refine given_states_advance hs ht hu (fun i entry hentry => ?_) hw hgiven hgiven'
  rw [htook i] at hentry
  split at hentry
  · simp only [List.mem_cons, List.not_mem_nil, or_false] at hentry
    rcases hentry with rfl | rfl | rfl
    all_goals rfl
  · cases hentry

/-! ## What is never lost

A synchronous state is on disk as soon as it was noted, where its write does not fail. So the next
process is given what the last one noted, at whatever point that one ended.
-/

/-- No write of the state fails in this event, where it is written at once. -/
def Keeps (name i : String) : StateFileAct → Prop
  | .act other act => other = name → act.Keeps i
  | _ => True

end StateFile

end Rekuest
