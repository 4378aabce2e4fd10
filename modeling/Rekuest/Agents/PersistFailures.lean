import Rekuest.Agents.StateFlush

/-!
# Writes of persisted states that fail

`_take_dirty_state` clears the mark of a state before its value is written, and `_write_state` only
logs a write that fails. So the value is on disk or the mark is set as long as no write fails that
the mark would have to make up for.
-/

namespace Rekuest

open Runs

/-- What happens to the persisted states; of a `SessionInit`, for each state whether its write
fails. -/
inductive StoreAct
  | statePatch (stateName : String) (shrunk : Json) (revision : ℤ) (putFails : Bool)
  | sessionInit (putFails : String → Bool)
  | wake (stateName : String)
  | written (stateName : String) (putFails : Bool)
  | close

namespace PersistingAgent

/-- `_note_state_change` of a `SessionInit`. -/
def noteSessionInit (dumps : Json → String) (s : PersistingAgent) (putFails : String → Bool)
    (stateNames : List String) : PersistingAgent :=
  stateNames.foldl (fun s stateName => s.noteState dumps stateName (putFails stateName)) s

/-- One event. -/
def storeStep (dumps : Json → String) (s : PersistingAgent) : StoreAct → Option PersistingAgent
  | .statePatch stateName shrunk revision putFails =>
    s.step dumps (.statePatch stateName shrunk revision putFails)
  | .sessionInit putFails => some (s.noteSessionInit dumps putFails s.statePolicies.keys)
  | .wake stateName => s.step dumps (.wake stateName)
  | .written stateName putFails => s.step dumps (.written stateName putFails)
  | .close => s.step dumps .close

/-- A state that changed, and whose value on disk is not the one it has now, is dirty, unless it is
being written. -/
def MarkedAt (dumps : Json → String) (s : PersistingAgent) (i : String) : Prop :=
  i ∈ s.changed → (∀ state, s.flushers i ≠ .writing state) →
    s.stored? i ≠ s.current? dumps i → i ∈ s.dirtyStates

/-- No value that is missing on disk is forgotten. -/
def Marked (dumps : Json → String) (s : PersistingAgent) : Prop :=
  ∀ i, s.MarkedAt dumps i

/-- Where the write of a synchronous state fails, its value is on disk already. -/
def PutHarmless (dumps : Json → String) (s : PersistingAgent) (i : String) (shrunk : Option Json)
    (putFails : Bool) : Prop :=
  s.statePolicies.get? i = some .synchronous → putFails = true →
    ∀ value ∈ shrunk, s.stored? i = some (dumps value)

/-- No write fails in this event, but of a state that is dirty again by then, or of a value that is
on disk already. -/
def Harmless (dumps : Json → String) (s : PersistingAgent) : StoreAct → Prop
  | .statePatch i shrunk _ putFails => s.PutHarmless dumps i (some shrunk) putFails
  | .sessionInit putFails =>
    ∀ i, s.PutHarmless dumps i (s.currentShrunkStates.get? i) (putFails i)
  | .written i putFails =>
    putFails = true → i ∈ s.dirtyStates ∨ s.stored? i = s.current? dumps i
  | .wake _ | .close => True

/-- What holds whether or not writes fail. -/
structure Sound (dumps : Json → String) (s : PersistingAgent) : Prop where
  own : ∀ i state, s.flushers i = .writing state → state.stateName = i
  periodic : ∀ i, s.flushers i ≠ .ended → s.Periodic i
  known : ∀ i ∈ s.changed, (s.currentShrunkStates.get? i).isSome
  policy : ∀ i ∈ s.changed, s.statePolicies.get? i ≠ none
  persisted : ∀ i ∈ s.dirtyStates, s.statePolicies.get? i ≠ none
  /-- A dirty state with a value has changed. -/
  dirty : ∀ i ∈ s.dirtyStates, (s.currentShrunkStates.get? i).isSome → i ∈ s.changed
  /-- What is being written is the current value of a state that changed, unless it has changed
  again since. -/
  writing : ∀ i state, s.flushers i = .writing state →
    i ∈ s.changed ∧ (i ∉ s.dirtyStates → s.current? dumps i = some state.value)

variable {dumps : Json → String} {s s' : PersistingAgent} {i j : String}

theorem sound_start (name session : String) (policies : Dict String PersistPolicy)
    (hashes : String → String) (shrunk : Dict String Json) (db : Table LastStateRow.key) :
    (start name session policies hashes shrunk db).Sound dumps := by
  have htracks : (start name session policies hashes shrunk db).Tracks dumps :=
    tracks_start name session policies hashes shrunk db
  refine ⟨htracks.own, htracks.periodic, htracks.known, by rintro i ⟨⟩, by rintro i ⟨⟩,
    by rintro i ⟨⟩, ?_⟩
  intro i state h
  simp only [start] at h
  split at h <;> cases h

/-- A sound agent that marks what is missing on disk tracks its states. -/
theorem Sound.tracks (h : s.Sound dumps) (hmarked : s.Marked dumps) : s.Tracks dumps where
  own := h.own
  periodic := h.periodic
  known := h.known
  settled i hi _ hdirty := by
    cases hf : s.flushers i with
    | writing state =>
      rw [pending?, hf]
      exact ((h.writing i state hf).2 hdirty).symm
    | starting | waiting | ended =>
      rw [pending?, hf]
      by_contra hne
      exact hdirty (hmarked i hi (by rw [hf]; rintro state ⟨⟩) hne)

/-! ## Noting a state -/

/-- What noting `noted` does: it is dirty, or is written at once. -/
structure Notes (dumps : Json → String) (noted : String) (putFails : Bool)
    (s s' : PersistingAgent) : Prop where
  flushers : s'.flushers = s.flushers
  policies : s'.statePolicies = s.statePolicies
  shrunk : s'.currentShrunkStates = s.currentShrunkStates
  stored : ∀ i, i ≠ noted → s'.stored? i = s.stored? i
  changed : ∀ i, i ∈ s'.changed ↔ i ∈ s.changed ∨
    i = noted ∧ s.statePolicies.get? noted ≠ none ∧ (s.currentShrunkStates.get? noted).isSome
  dirty : ∀ i, i ≠ noted → (i ∈ s'.dirtyStates ↔ i ∈ s.dirtyStates)
  unpersisted : s.statePolicies.get? noted = none →
    s'.stored? noted = s.stored? noted ∧ (noted ∈ s'.dirtyStates ↔ noted ∈ s.dirtyStates)
  every : s.Periodic noted → noted ∈ s'.dirtyStates
  synchronous : s.statePolicies.get? noted = some .synchronous → noted ∉ s'.dirtyStates ∧
    s'.stored? noted = if putFails then s.stored? noted
      else (s.current? dumps noted).or (s.stored? noted)

theorem mem_changed_noteState (s : PersistingAgent) (noted i : String) :
    i ∈ (if (s.currentShrunkStates.get? noted).isSome then insert noted s.changed else s.changed)
      ↔ i ∈ s.changed ∨ i = noted ∧ (s.currentShrunkStates.get? noted).isSome := by
  split
  · rename_i hsome
    simp [hsome, or_comm]
  · rename_i hnone
    simp [hnone]

/-- The write of a synchronous state. -/
theorem writeDirtyState_of_dirty (dumps : Json → String) {noted : String}
    (hdirty : noted ∈ s.dirtyStates) (putFails : Bool) : ∃ db,
      s.writeDirtyState dumps noted putFails
        = { s with dirtyStates := s.dirtyStates.erase noted, db := db } ∧
      (∀ i, i ≠ noted → stored? { s with db := db } i = s.stored? i) ∧
      stored? { s with db := db } noted = if putFails then s.stored? noted
        else (s.current? dumps noted).or (s.stored? noted) := by
  rw [writeDirtyState, takeDirtyState, if_pos hdirty]
  cases hshrunk : s.currentShrunkStates.get? noted with
  | none =>
    refine ⟨s.db, rfl, fun _ _ => rfl, ?_⟩
    simp [current?, hshrunk]
  | some shrunk =>
    cases putFails with
    | true => exact ⟨s.db, rfl, fun _ _ => rfl, rfl⟩
    | false =>
      have hstored := stored?_writeState { s with dirtyStates := s.dirtyStates.erase noted }
        { stateName := noted, schemaHash := s.stateHashes noted, sessionId := s.currentSession,
          globalRev := s.globalRevision, value := dumps shrunk }
      refine ⟨_, rfl, fun i hi => (hstored i).trans (if_neg hi), (hstored noted).trans ?_⟩
      simp [current?, hshrunk]

theorem notes_noteState (dumps : Json → String) (s : PersistingAgent) (noted : String)
    (putFails : Bool) : Notes dumps noted putFails s (s.noteState dumps noted putFails) := by
  cases hpolicy : s.statePolicies.get? noted with
  | none =>
    rw [noteState, hpolicy]
    refine ⟨rfl, rfl, rfl, fun _ _ => rfl, fun i => by simp [hpolicy], fun _ _ => Iff.rfl,
      fun _ => ⟨rfl, Iff.rfl⟩, ?_, ?_⟩
    · rintro ⟨period, hperiod⟩
      rw [hpolicy] at hperiod
      cases hperiod
    · rw [hpolicy]
      rintro ⟨⟩
  | some policy =>
    have hchanged : ∀ i, i ∈ s.changed ∨ i = noted ∧ s.statePolicies.get? noted ≠ none ∧
        (s.currentShrunkStates.get? noted).isSome ↔
        i ∈ s.changed ∨ i = noted ∧ (s.currentShrunkStates.get? noted).isSome := by
      simp [hpolicy]
    have hsome : s.statePolicies.get? noted ≠ none := by simp [hpolicy]
    rw [noteState, hpolicy]
    cases policy with
    | every period =>
      refine ⟨rfl, rfl, rfl, fun _ _ => rfl, fun i => ?_, fun i hi => by simp [hi],
        fun hnone => absurd hnone hsome, fun _ => Finset.mem_insert_self _ _, ?_⟩
      · rw [hchanged]
        exact mem_changed_noteState s noted i
      · rw [hpolicy]
        rintro ⟨⟩
    | synchronous =>
      obtain ⟨db, heq, hothers, hown⟩ := writeDirtyState_of_dirty dumps
        (s := { s with
          dirtyStates := insert noted s.dirtyStates
          changed := if (s.currentShrunkStates.get? noted).isSome then
            insert noted s.changed else s.changed })
        (Finset.mem_insert_self _ _) putFails
      dsimp only
      rw [heq]
      refine ⟨rfl, rfl, rfl, hothers, fun i => ?_, fun i hi => by simp [hi],
        fun hnone => absurd hnone hsome, ?_, fun _ => ⟨Finset.notMem_erase _ _, hown⟩⟩
      · rw [hchanged]
        exact mem_changed_noteState s noted i
      · rintro ⟨period, hperiod⟩
        rw [hpolicy] at hperiod
        cases hperiod

/-- Noting a state keeps an agent sound whose other states are. -/
theorem Notes.sound {noted : String} {putFails : Bool} (h : Notes dumps noted putFails s s')
    (hown : ∀ i state, s.flushers i = .writing state → state.stateName = i)
    (hperiodic : ∀ i, s.flushers i ≠ .ended → s.Periodic i)
    (hknown : ∀ i ∈ s.changed, (s.currentShrunkStates.get? i).isSome)
    (hpolicy : ∀ i ∈ s.changed, s.statePolicies.get? i ≠ none)
    (hpersisted : ∀ i ∈ s.dirtyStates, s.statePolicies.get? i ≠ none)
    (hdirty : ∀ i, i ≠ noted → i ∈ s.dirtyStates → (s.currentShrunkStates.get? i).isSome →
      i ∈ s.changed)
    (hwriting : ∀ i state, s.flushers i = .writing state → i ∈ s.changed ∧ (i ≠ noted →
      i ∉ s.dirtyStates → s.current? dumps i = some state.value)) : s'.Sound dumps where
  own := by rw [h.flushers]; exact hown
  periodic := by
    rw [h.flushers]
    intro i hi
    rw [Periodic, h.policies]
    exact hperiodic i hi
  known := by
    intro i hi
    rw [h.shrunk]
    obtain hi | ⟨rfl, -, hsome⟩ := (h.changed i).mp hi
    · exact hknown i hi
    · exact hsome
  policy := by
    intro i hi
    rw [h.policies]
    obtain hi | ⟨rfl, hpolicy, -⟩ := (h.changed i).mp hi
    · exact hpolicy i hi
    · exact hpolicy
  persisted := by
    intro i hi
    rw [h.policies]
    by_cases hne : i = noted
    · subst hne
      intro hnone
      exact hpersisted i ((h.unpersisted hnone).2.mp hi) hnone
    · exact hpersisted i ((h.dirty i hne).mp hi)
  dirty := by
    intro i hi hsome
    rw [h.shrunk] at hsome
    by_cases hne : i = noted
    · subst hne
      refine (h.changed i).mpr (Or.inr ⟨rfl, fun hnone => ?_, hsome⟩)
      exact hpersisted i ((h.unpersisted hnone).2.mp hi) hnone
    · exact (h.changed i).mpr (Or.inl (hdirty i hne ((h.dirty i hne).mp hi) hsome))
  writing := by
    intro i state hi
    rw [h.flushers] at hi
    obtain ⟨hchanged, hvalue⟩ := hwriting i state hi
    refine ⟨(h.changed i).mpr (Or.inl hchanged), fun hclean => ?_⟩
    rw [current?, h.shrunk]
    by_cases hne : i = noted
    · -- a state that is written by a flusher is dirty once it is noted
      subst hne
      exact absurd (h.every (hperiodic i (by rw [hi]; rintro ⟨⟩))) hclean
    · exact hvalue hne fun hdirty => hclean ((h.dirty i hne).mpr hdirty)

/-- Noting a state changes what is marked for no other state. -/
theorem Notes.markedAt_of_ne {noted : String} {putFails : Bool}
    (h : Notes dumps noted putFails s s') (hne : i ≠ noted) :
    s'.MarkedAt dumps i ↔ s.MarkedAt dumps i := by
  have hchanged : i ∈ s'.changed ↔ i ∈ s.changed := by
    rw [h.changed]
    exact or_iff_left fun heq => hne heq.1
  rw [MarkedAt, MarkedAt, hchanged, h.flushers, h.stored i hne, current?, current?, h.shrunk,
    h.dirty i hne]

/-- A state that is noted is marked, or on disk: unless it is written at once, and that fails. -/
theorem Notes.markedAt_self {noted : String} {putFails : Bool}
    (h : Notes dumps noted putFails s s')
    (hperiodic : ∀ i, s.flushers i ≠ .ended → s.Periodic i)
    (hknown : ∀ i ∈ s.changed, (s.currentShrunkStates.get? i).isSome)
    (hpolicy : ∀ i ∈ s.changed, s.statePolicies.get? i ≠ none) :
    s'.MarkedAt dumps noted
      ↔ s.PutHarmless dumps noted (s.currentShrunkStates.get? noted) putFails := by
  cases hp : s.statePolicies.get? noted with
  | none =>
    refine iff_of_true (fun hchanged => ?_) (by rw [PutHarmless, hp]; rintro ⟨⟩)
    obtain hold | ⟨-, hsome, -⟩ := (h.changed noted).mp hchanged
    · exact absurd hp (hpolicy noted hold)
    · exact absurd hp hsome
  | some policy =>
    cases policy with
    | every period =>
      exact iff_of_true (fun _ _ _ => h.every ⟨period, hp⟩) (by rw [PutHarmless, hp]; rintro ⟨⟩)
    | synchronous =>
      obtain ⟨hclean, hstored⟩ := h.synchronous hp
      -- no flusher would make up for the write of a synchronous state
      have hended : s'.flushers noted = .ended := by
        rw [h.flushers]
        by_contra hne
        obtain ⟨period, hperiod⟩ := hperiodic noted hne
        rw [hp] at hperiod
        cases hperiod
      cases hshrunk : s.currentShrunkStates.get? noted with
      | none =>
        refine iff_of_true (fun hchanged => ?_) (by rintro _ _ value ⟨⟩)
        have hsome : (s.currentShrunkStates.get? noted).isSome :=
          ((h.changed noted).mp hchanged).elim (hknown noted) fun hnew => hnew.2.2
        rw [hshrunk] at hsome
        cases hsome
      | some shrunk =>
        have hcurrent : s.current? dumps noted = some (dumps shrunk) := by
          rw [current?, hshrunk]
          rfl
        have hcurrent' : s'.current? dumps noted = some (dumps shrunk) := by
          rw [current?, h.shrunk, hshrunk]
          rfl
        have hchanged : noted ∈ s'.changed :=
          (h.changed noted).mpr (Or.inr ⟨rfl, by simp [hp], by simp [hshrunk]⟩)
        rw [hcurrent] at hstored
        constructor
        · rintro hmarked - rfl _ ⟨⟩
          by_contra hne
          refine hclean (hmarked hchanged (by rw [hended]; rintro state ⟨⟩) ?_)
          rwa [hstored, hcurrent']
        · rintro hharmless - - hne
          rw [hstored, hcurrent'] at hne
          cases putFails with
          | true => exact absurd (hharmless hp rfl shrunk rfl) hne
          | false => exact absurd rfl hne

/-- What a `SessionInit` leaves marked. -/
theorem markedAt_noteSessionInit (putFails : String → Bool) {l : List String} (hl : l.Nodup)
    (h : s.Sound dumps) : (s.noteSessionInit dumps putFails l).Sound dumps ∧
      ∀ i, (s.noteSessionInit dumps putFails l).MarkedAt dumps i ↔
        if i ∈ l then s.PutHarmless dumps i (s.currentShrunkStates.get? i) (putFails i)
        else s.MarkedAt dumps i := by
  induction l generalizing s with
  | nil => exact ⟨h, fun i => by simp [noteSessionInit]⟩
  | cons j l ih =>
    obtain ⟨hj, hl⟩ := List.nodup_cons.mp hl
    have hn := notes_noteState dumps s j (putFails j)
    obtain ⟨hsound, hmarked⟩ := ih hl (hn.sound h.own h.periodic h.known h.policy h.persisted
      (fun i _ => h.dirty i) fun i state hi => (h.writing i state hi).imp_right fun hv _ => hv)
    refine ⟨hsound, fun i => (hmarked i).trans ?_⟩
    by_cases hij : i = j
    · subst hij
      rw [if_neg hj, if_pos List.mem_cons_self]
      exact hn.markedAt_self h.periodic h.known h.policy
    · simp only [List.mem_cons, hij, false_or]
      split
      · rw [PutHarmless, PutHarmless, hn.policies, hn.stored i hij, hn.shrunk]
      · exact hn.markedAt_of_ne hij

/-! ## The flushers

The write of a flusher runs off the loop: its state may change again while it is under way, and it
may fail after that.
-/

theorem sound_loopHead (h : s.Sound dumps) (hi : s.Periodic i) : (s.loopHead i).Sound dumps := by
  have hidle : ∀ j state, (s.loopHead i).flushers j = .writing state →
      s.flushers j = .writing state := by
    intro j state hj
    by_cases hji : j = i
    · subst hji
      simp only [loopHead, setFlusher, Function.update_self] at hj
      split at hj <;> cases hj
    · simpa only [loopHead, setFlusher, Function.update_of_ne hji] using hj
  refine ⟨fun j state hj => h.own j state (hidle j state hj), fun j hj => ?_, h.known, h.policy,
    h.persisted, h.dirty, fun j state hj => h.writing j state (hidle j state hj)⟩
  by_cases hji : j = i
  · rw [hji]
    exact hi
  · simp only [loopHead, setFlusher, Function.update_of_ne hji] at hj
    exact h.periodic j hj

/-- A flusher that writes nothing, and goes to the head of its loop. -/
theorem markedAt_loopHead (hi : ∀ state, s.flushers i ≠ .writing state) :
    (s.loopHead i).MarkedAt dumps j ↔ s.MarkedAt dumps j := by
  have hsame : (∀ state, (s.loopHead i).flushers j ≠ .writing state) ↔
      ∀ state, s.flushers j ≠ .writing state := by
    by_cases hji : j = i
    · subst hji
      refine iff_of_true (fun state hj => ?_) hi
      simp only [loopHead, setFlusher, Function.update_self] at hj
      split at hj <;> cases hj
    · simp only [loopHead, setFlusher, Function.update_of_ne hji]
  exact imp_congr_right fun _ => imp_congr hsame Iff.rfl

theorem mem_dirtyStates_of_take {state : StoredState}
    (h : (s.takeDirtyState dumps i).1 = some state) : i ∈ s.dirtyStates := by
  by_contra hclean
  rw [takeDirtyState, if_neg hclean] at h
  cases h

/-- A flusher starts to write. -/
theorem wake_writing (h : s.Sound dumps) {shrunk : Json} {state : StoredState}
    (hi : s.Periodic i) (hdirty : i ∈ s.dirtyStates)
    (hshrunk : s.currentShrunkStates.get? i = some shrunk) (hname : state.stateName = i)
    (hvalue : state.value = dumps shrunk) :
    (setFlusher { s with dirtyStates := s.dirtyStates.erase i } i (.writing state)).Sound dumps ∧
      (s.Marked dumps →
        (setFlusher { s with dirtyStates := s.dirtyStates.erase i } i
          (.writing state)).Marked dumps) := by
  have hother : ∀ j, j ≠ i → Function.update s.flushers i (.writing state) j = s.flushers j :=
    fun j hji => Function.update_of_ne hji _ _
  have hself : Function.update s.flushers i (.writing state) i = .writing state :=
    Function.update_self _ _ _
  refine ⟨⟨?_, ?_, h.known, h.policy, ?_, ?_, ?_⟩, ?_⟩
  · intro j state' hj
    by_cases hji : j = i
    · subst hji
      obtain rfl := Flusher.writing.inj (hself.symm.trans hj)
      exact hname
    · exact h.own j state' ((hother j hji).symm.trans hj)
  · intro j hj
    by_cases hji : j = i
    · rw [hji]
      exact hi
    · exact h.periodic j fun hended => hj ((hother j hji).trans hended)
  · exact fun j hj => h.persisted j (Finset.mem_of_mem_erase hj)
  · exact fun j hj => h.dirty j (Finset.mem_of_mem_erase hj)
  · intro j state' hj
    by_cases hji : j = i
    · subst hji
      obtain rfl := Flusher.writing.inj (hself.symm.trans hj)
      -- the value being written is the one the state has now
      refine ⟨h.dirty j hdirty (by rw [hshrunk]; rfl), fun _ => ?_⟩
      change (s.currentShrunkStates.get? j).map dumps = _
      rw [hshrunk, hvalue]
      rfl
    · obtain ⟨hchanged, hcurrent⟩ := h.writing j state' ((hother j hji).symm.trans hj)
      exact ⟨hchanged, fun hclean => hcurrent fun hmem =>
        hclean (Finset.mem_erase.mpr ⟨hji, hmem⟩)⟩
  · intro hmarked j hchanged hidle hmissing
    by_cases hji : j = i
    · subst hji
      exact absurd hself (hidle state)
    · refine Finset.mem_erase.mpr ⟨hji, hmarked j hchanged (fun state' hj => ?_) hmissing⟩
      exact hidle state' ((hother j hji).trans hj)

theorem wake_step (h : s.Sound dumps) (hs : s.step dumps (.wake i) = some s') :
    s'.Sound dumps ∧ (s.Marked dumps → s'.Marked dumps) := by
  have hhead : ∀ {u : PersistingAgent}, u.Sound dumps → u.Periodic i →
      (∀ state, u.flushers i ≠ .writing state) →
      (u.loopHead i).Sound dumps ∧ (u.Marked dumps → (u.loopHead i).Marked dumps) :=
    fun hu hperiodic hidle => ⟨sound_loopHead hu hperiodic,
      fun hmarked j => (markedAt_loopHead hidle).mpr (hmarked j)⟩
  simp only [step] at hs
  cases hi : s.flushers i with
  | starting =>
    simp only [hi, Option.some.injEq] at hs
    subst hs
    exact hhead h (h.periodic i (by rw [hi]; rintro ⟨⟩)) (by rw [hi]; rintro state ⟨⟩)
  | waiting =>
    simp only [hi] at hs
    have hperiodic := h.periodic i (by rw [hi]; rintro ⟨⟩)
    have hidle : ∀ state, s.flushers i ≠ .writing state := by
      rw [hi]
      rintro state ⟨⟩
    obtain ⟨shrunk, state, hshrunk, hname, hvalue, htake⟩ | ⟨-, htake⟩ | ⟨hnone, htake⟩ :=
      takeDirtyState_cases dumps s i
    · have hdirty := mem_dirtyStates_of_take (congrArg Prod.fst htake)
      rw [htake] at hs
      obtain rfl := Option.some.inj hs
      exact wake_writing h hperiodic hdirty hshrunk hname hvalue
    · rw [htake] at hs
      obtain rfl := Option.some.inj hs
      exact hhead h hperiodic hidle
    · rw [htake] at hs
      obtain rfl := Option.some.inj hs
      -- a state without a value has not changed, so its mark is not missed
      have hunchanged : i ∉ s.changed := by
        intro hmem
        have hsome := h.known i hmem
        rw [hnone] at hsome
        cases hsome
      have herased : Sound dumps { s with dirtyStates := s.dirtyStates.erase i } := by
        refine ⟨h.own, h.periodic, h.known, h.policy,
          fun j hj => h.persisted j (Finset.mem_of_mem_erase hj),
          fun j hj => h.dirty j (Finset.mem_of_mem_erase hj), fun j state hj => ?_⟩
        obtain ⟨hchanged, hcurrent⟩ := h.writing j state hj
        refine ⟨hchanged, fun hclean => hcurrent fun hmem => ?_⟩
        refine hclean (Finset.mem_erase.mpr ⟨?_, hmem⟩)
        rintro rfl
        exact hunchanged hchanged
      refine (hhead herased hperiodic hidle).imp_right fun hmarks hmarked => hmarks ?_
      intro j hchanged hidle' hmissing
      refine Finset.mem_erase.mpr ⟨?_, hmarked j hchanged hidle' hmissing⟩
      rintro rfl
      exact hunchanged hchanged
  | writing state => simp [hi] at hs
  | ended => simp [hi] at hs

/-- The thread of a flusher is done: its state is forgotten if the write failed, the state has not
changed since, and another value is on disk. -/
theorem written_step (h : s.Sound dumps) {putFails : Bool}
    (hs : s.step dumps (.written i putFails) = some s') :
    s'.Sound dumps ∧ (s.Marked dumps → (s'.Marked dumps ↔
      (putFails = true → i ∈ s.dirtyStates ∨ s.stored? i = s.current? dumps i))) := by
  simp only [step] at hs
  cases hi : s.flushers i with
  | writing state =>
    simp only [hi, Option.some.injEq] at hs
    subst hs
    have hname := h.own i state hi
    obtain ⟨hchanged, hcurrent⟩ := h.writing i state hi
    obtain ⟨db, hdb⟩ := writeState_eq s state putFails
    have hsound : (s.writeState state putFails).Sound dumps := by
      rw [hdb]
      exact ⟨h.own, h.periodic, h.known, h.policy, h.persisted, h.dirty, h.writing⟩
    have hperiodic : (s.writeState state putFails).Periodic i := by
      rw [hdb]
      exact h.periodic i (by rw [hi]; rintro ⟨⟩)
    have hstored : ∀ j, (s.writeState state putFails).stored? j
        = if putFails = false ∧ j = i then some state.value else s.stored? j := by
      intro j
      cases putFails with
      | true => rfl
      | false =>
        rw [stored?_writeState, hname]
        simp
    have hat : ∀ j, ((s.writeState state putFails).loopHead i).MarkedAt dumps j ↔
        (j ∈ s.changed → (j ≠ i → ∀ state, s.flushers j ≠ .writing state) →
          (if putFails = false ∧ j = i then some state.value else s.stored? j)
            ≠ s.current? dumps j →
          j ∈ s.dirtyStates) := by
      intro j
      -- the flusher of `i` is at the head of its loop, the others are where they were
      have hidle : (∀ state', ((s.writeState state putFails).loopHead i).flushers j
          ≠ .writing state') ↔ (j ≠ i → ∀ state, s.flushers j ≠ .writing state) := by
        by_cases hji : j = i
        · subst hji
          refine iff_of_true (fun state' hj => ?_) fun hne => absurd rfl hne
          simp only [loopHead, setFlusher, Function.update_self] at hj
          split at hj <;> cases hj
        · simp only [loopHead, setFlusher, Function.update_of_ne hji, ne_eq, hji, not_false_eq_true,
            true_implies]
          rw [hdb]
      have hsame : ((s.writeState state putFails).loopHead i).stored? j
          = (s.writeState state putFails).stored? j := rfl
      rw [MarkedAt, hidle, hsame, hstored]
      simp only [loopHead, setFlusher, current?, hdb]
    refine ⟨sound_loopHead hsound hperiodic, fun hmarked => ⟨fun hmarks hfails => ?_, ?_⟩⟩
    · -- a write that failed, with the mark taken off and another value on disk
      by_contra hforgotten
      obtain ⟨hclean, hmissing⟩ := not_or.mp hforgotten
      refine hclean ((hat i).mp (hmarks i) hchanged (fun hne => absurd rfl hne) ?_)
      rwa [if_neg (by rw [hfails]; rintro ⟨⟨⟩, -⟩)]
    · intro hharmless j
      refine (hat j).mpr fun hj hidle hmissing => ?_
      by_cases hji : j = i
      · subst hji
        cases putFails with
        | true =>
          refine (hharmless rfl).resolve_right fun hsame => hmissing ?_
          rw [if_neg (by rintro ⟨⟨⟩, -⟩), hsame]
        | false =>
          by_contra hclean
          exact hmissing ((if_pos ⟨rfl, rfl⟩).trans (hcurrent hclean).symm)
      · rw [if_neg fun hboth => hji hboth.2] at hmissing
        exact hmarked j hj (hidle hji) hmissing
  | starting => simp [hi] at hs
  | waiting => simp [hi] at hs
  | ended => simp [hi] at hs

/-- A state takes a new value. -/
theorem statePatch_step (h : s.Sound dumps) {shrunk : Json} {revision : ℤ} {putFails : Bool}
    (hs : s.step dumps (.statePatch i shrunk revision putFails) = some s') :
    s'.Sound dumps ∧ (s.Marked dumps → (s'.Marked dumps ↔
      s.PutHarmless dumps i (some shrunk) putFails)) := by
  obtain rfl := Option.some.inj hs
  have hn := notes_noteState dumps { s with
    currentShrunkStates := s.currentShrunkStates.set i shrunk
    globalRevision := revision } i putFails
  have hknown : ∀ j ∈ s.changed, ((s.currentShrunkStates.set i shrunk).get? j).isSome := by
    intro j hj
    by_cases hji : j = i
    · simp [hji]
    · simpa [hji] using h.known j hj
  refine ⟨hn.sound h.own h.periodic hknown h.policy h.persisted (fun j hne hj hsome => ?_)
    (fun j state hj => (h.writing j state hj).imp_right fun hv hne hclean => ?_), fun hmarked => ?_⟩
  · exact h.dirty j hj (by simpa [hne] using hsome)
  · simpa [current?, hne] using hv hclean
  · have hself := hn.markedAt_self h.periodic hknown h.policy
    rw [Dict.get?_set, if_pos rfl] at hself
    refine ⟨fun hmarks => hself.mp (hmarks i), fun hharmless j => ?_⟩
    by_cases hji : j = i
    · rw [hji]
      exact hself.mpr hharmless
    · refine (hn.markedAt_of_ne hji).mpr fun hj hidle hmissing =>
        hmarked j hj hidle fun hsame => hmissing (hsame.trans ?_)
      simp [current?, hji]

theorem sound_step (h : s.Sound dumps) {act : StoreAct}
    (hs : s.storeStep dumps act = some s') : s'.Sound dumps := by
  cases act with
  | statePatch i shrunk revision putFails => exact (statePatch_step h hs).1
  | sessionInit putFails =>
    obtain rfl := Option.some.inj hs
    exact (markedAt_noteSessionInit putFails s.statePolicies.nodup_keys h).1
  | wake i => exact (wake_step h hs).1
  | written i putFails => exact (written_step h hs).1
  | close =>
    obtain rfl := Option.some.inj hs
    exact ⟨h.own, h.periodic, h.known, h.policy, h.persisted, h.dirty, h.writing⟩

/-- An event forgets a value exactly where a write fails in it that does harm. -/
theorem marked_step_iff (h : s.Sound dumps) (hmarked : s.Marked dumps) {act : StoreAct}
    (hs : s.storeStep dumps act = some s') : s'.Marked dumps ↔ s.Harmless dumps act := by
  cases act with
  | statePatch i shrunk revision putFails => exact (statePatch_step h hs).2 hmarked
  | sessionInit putFails =>
    obtain rfl := Option.some.inj hs
    have hat := (markedAt_noteSessionInit putFails s.statePolicies.nodup_keys h).2
    refine forall_congr' fun i => (hat i).trans ?_
    split
    · exact Iff.rfl
    · rename_i hi
      refine iff_of_true (hmarked i) fun hpolicy => ?_
      exact absurd (Dict.mem_keys.mpr ⟨_, hpolicy⟩) hi
  | wake i => exact iff_of_true ((wake_step h hs).2 hmarked) trivial
  | written i putFails => exact (written_step h hs).2 hmarked
  | close =>
    obtain rfl := Option.some.inj hs
    exact iff_of_true hmarked trivial

/-! ## What a mark is good for -/

/-- No value that is missing on disk is forgotten, and a flusher that wakes writes the current value
of its state if that is dirty. -/
structure Remembers (dumps : Json → String) (s : PersistingAgent) : Prop where
  marked : s.Marked dumps
  woken : ∀ i ∈ s.dirtyStates, (s.currentShrunkStates.get? i).isSome → s.flushers i = .waiting →
    ∃ u t, s.step dumps (.wake i) = some u ∧ u.step dumps (.written i false) = some t ∧
      t.stored? i = s.current? dumps i

theorem remembers_iff : s.Remembers dumps ↔ s.Marked dumps := by
  refine ⟨Remembers.marked, fun hmarked => ⟨hmarked, fun i hdirty hsome hwaiting => ?_⟩⟩
  obtain ⟨shrunk, state, hshrunk, hname, hvalue, htake⟩ | ⟨hclean, -⟩ | ⟨hnone, -⟩ :=
    takeDirtyState_cases dumps s i
  · have hwriting : (setFlusher { s with dirtyStates := s.dirtyStates.erase i } i
        (.writing state)).flushers i = .writing state := Function.update_self _ _ _
    have hstored := stored?_writeState (setFlusher { s with dirtyStates := s.dirtyStates.erase i } i
      (.writing state)) state i
    rw [if_pos hname.symm, hvalue] at hstored
    refine ⟨setFlusher { s with dirtyStates := s.dirtyStates.erase i } i (.writing state),
      (writeState (setFlusher { s with dirtyStates := s.dirtyStates.erase i } i
        (.writing state)) state false).loopHead i,
      by simp only [step, hwaiting, htake], by simp only [step, hwriting], ?_⟩
    refine hstored.trans ?_
    rw [current?, hshrunk]
    rfl
  · exact absurd hdirty hclean
  · rw [hnone] at hsome
    cases hsome

/-- A run forgets no value exactly where no write fails in it that does harm. Then a clean exit with
a store that works leaves on disk the last value of every state whose flusher waits at the stop, or
that needs no further write. -/
theorem failedPut_remembered_iff (dumps : Json → String) (name session : String)
    (policies : Dict String PersistPolicy) (hashes : String → String) (shrunk : Dict String Json)
    (db : Table LastStateRow.key) {acts : List StoreAct} {s : PersistingAgent}
    (hrun : exec (storeStep dumps) (start name session policies hashes shrunk db) acts = some s) :
    ((∀ pre u, pre <+: acts →
        exec (storeStep dumps) (start name session policies hashes shrunk db) pre = some u →
        u.Remembers dumps)
      ↔ Meets (storeStep dumps) (Harmless dumps) (start name session policies hashes shrunk db)
        acts) ∧
    (Meets (storeStep dumps) (Harmless dumps) (start name session policies hashes shrunk db) acts →
      ∀ after t, (∀ a ∈ after, a.Quiet ∧ a.Succeeds) →
        exec (step dumps) s (.close :: after) = some t → (∀ i, t.flushers i = .ended) →
        ∀ i ∈ s.changed, s.Periodic i → s.WillFlush dumps i →
          t.stored? i = s.current? dumps i) := by
  have hsound : (start name session policies hashes shrunk db).Sound dumps :=
    sound_start name session policies hashes shrunk db
  have hmarked : (start name session policies hashes shrunk db).Marked dumps := by rintro i ⟨⟩
  have hiff := forall_prefix_iff_meets hsound hmarked (fun _ _ _ h hs => sound_step h hs)
    (fun _ _ _ h hm hs => marked_step_iff h hm hs) hrun
  refine ⟨by simpa only [remembers_iff] using hiff, ?_⟩
  intro hmeets after t hafter ht hall i hi hp hw
  have hs := exec_invariant hsound (fun _ _ _ h hs => sound_step h hs) hrun
  have htracks := hs.tracks (hiff.mpr hmeets acts s (List.prefix_refl _) hrun)
  exact htracks.stored_of_willFlush hafter ht hall hi hp hw

/-- The write of a value fails after the state changed again; the next value is written. -/
def failsThenWrites : List StoreAct :=
  [.wake "camera", .statePatch "camera" (.num 1) 1 false, .wake "camera",
    .statePatch "camera" (.num 2) 2 false, .written "camera" true, .wake "camera",
    .written "camera" false]

theorem failedPut_remembered_iff_failsThenWrites :
    ∃ s, exec (storeStep dumpsNumber) oneCamera failsThenWrites = some s ∧
      s.Remembers dumpsNumber ∧ s.stored? "camera" = some "2" := by
  have hmeets : Meets (storeStep dumpsNumber) (Harmless dumpsNumber) oneCamera failsThenWrites := by
    refine meets_cons trivial ?_
    rintro s ⟨⟩
    refine meets_cons (by rintro - ⟨⟩) ?_
    rintro s ⟨⟩
    refine meets_cons trivial ?_
    rintro s ⟨⟩
    refine meets_cons (by rintro - ⟨⟩) ?_
    rintro s ⟨⟩
    refine meets_cons (fun _ => Or.inl (by decide)) ?_
    rintro s ⟨⟩
    refine meets_cons trivial ?_
    rintro s ⟨⟩
    exact meets_cons (by rintro ⟨⟩) fun s _ => meets_nil s
  have hrun : ∃ s, exec (storeStep dumpsNumber) oneCamera failsThenWrites = some s ∧
      s.stored? "camera" = some "2" := ⟨_, rfl, rfl⟩
  obtain ⟨s, hs, hstored⟩ := hrun
  refine ⟨s, hs, ?_, hstored⟩
  exact (failedPut_remembered_iff dumpsNumber "app" "s1" _ _ _ _ hs).1.mpr hmeets _ s
    (List.prefix_refl _) hs

/-- The one write of a value fails, and the agent exits cleanly. -/
theorem failed_put_is_forgotten :
    ∃ s t, exec (storeStep dumpsNumber) oneCamera [.wake "camera",
        .statePatch "camera" (.num 1) 1 false, .wake "camera", .written "camera" true] = some s
      ∧ ¬ s.Remembers dumpsNumber
      ∧ exec (step dumpsNumber) s [.close, .wake "camera"] = some t
      ∧ t.flushers "camera" = .ended ∧ t.stored? "camera" = none
      ∧ s.current? dumpsNumber "camera" = some "1" := by
  refine ⟨_, _, rfl, fun h => ?_, rfl, rfl, rfl, rfl⟩
  have hdirty := h.marked "camera" (by decide) (by rintro state ⟨⟩) (by rintro ⟨⟩)
  exact absurd hdirty (by decide)

end PersistingAgent

end Rekuest
