import Rekuest.Agents.Agent

/-!
# Resuming a workflow

`_complete_resume` adds what a dead process took but never sent to the journal the server resumes
a task with: the task's unsent effects, and their steps.
-/

namespace Rekuest

/-- The value an `EFFECT` frame of `task` recorded under its key; a frame with no key or an empty
one records none. -/
def FromAgentMessage.effectOf (task : String) (frame : FromAgentMessage) : Option RecordedEffect :=
  match frame.report with
  | .effect t effect value (some key) =>
    if t = task ∧ key ≠ "" then some ⟨key, effect, value⟩ else none
  | _ => none

/-- The step a frame took that names `task` in its `task` field; step 0 counts as none. -/
def FromAgentMessage.stepOf (task : String) (frame : FromAgentMessage) : Option ℕ :=
  if frame.task = some task then frame.taskStep.filter (· ≠ 0) else none

namespace RekuestAgent

variable (codec : FrameCodec) (db : JournalDb)

/-- `_complete_resume`, on an `Assign` with a resume journal; without one it raises. -/
def completeResume (a : RekuestAgent) (message : Assign) : Option (RekuestAgent × Assign) :=
  message.resume.map fun resume =>
    let a := openStore codec db a
    let known := resume.effects.map RecordedEffect.key
    let held := (a.retained.values.filterMap (FromAgentMessage.effectOf message.task)).filter
      fun effect => effect.key ∉ known
    let steps := a.retained.values.filterMap (FromAgentMessage.stepOf message.task)
    if held.isEmpty ∧ steps.isEmpty then (a, message)
    else
      (a, { message with
        resume := some ⟨resume.effects ++ held, steps.foldl max resume.lastStep⟩ })

/-- The journal a task is resumed with. -/
def resumedJournal (a : RekuestAgent) (message : Assign) : Option ResumeJournal :=
  (completeResume codec db a message).bind fun completed => completed.2.resume

/-- The effects of `task` the agent still holds unsent, as its dictionary has them. -/
def heldEffects (a : RekuestAgent) (task : String) : List RecordedEffect :=
  a.retained.values.filterMap (FromAgentMessage.effectOf task)

/-- The held effects under keys the server does not have. -/
def unknownEffects (a : RekuestAgent) (task : String) (resume : ResumeJournal) :
    List RecordedEffect :=
  (a.heldEffects task).filter fun effect => effect.key ∉ resume.effects.map RecordedEffect.key

/-- The steps of `task` the agent still holds unsent. -/
def heldSteps (a : RekuestAgent) (task : String) : List ℕ :=
  a.retained.values.filterMap (FromAgentMessage.stepOf task)

/-- The retained frames that belong to `task`, whichever field names it. -/
def framesOf (a : RekuestAgent) (task : String) : List FromAgentMessage :=
  a.retained.values.filter fun frame => frame.belongsTo = some task

/-- The journal `_complete_resume` writes. -/
def completed (a : RekuestAgent) (task : String) (resume : ResumeJournal) : ResumeJournal :=
  ⟨resume.effects ++ a.unknownEffects task resume, (a.heldSteps task).foldl max resume.lastStep⟩

variable {codec db}

/-- Returning the message as it came is no special case. -/
theorem completeResume_eq (a : RekuestAgent) (task : String) (resume : ResumeJournal) :
    completeResume codec db a ⟨task, some resume⟩
      = some (openStore codec db a,
          ⟨task, some ((openStore codec db a).completed task resume)⟩) := by
  simp only [completeResume, Option.map_some]
  split
  · rename_i h
    obtain ⟨heffects, hsteps⟩ := h
    rw [List.isEmpty_iff] at heffects hsteps
    have hu : (openStore codec db a).unknownEffects task resume = [] := heffects
    have hs : (openStore codec db a).heldSteps task = [] := hsteps
    simp [completed, hu, hs]
  · rfl

theorem resumedJournal_eq (a : RekuestAgent) (task : String) (resume : ResumeJournal) :
    resumedJournal codec db a ⟨task, some resume⟩
      = some ((openStore codec db a).completed task resume) := by
  rw [resumedJournal, completeResume_eq]
  rfl

/-! ## Steps

The last step is looked up over the retained frames with a `task` field; a `STATE_PATCH` names its
task in another field.
-/

/-- A frame that names a task in its `task` field belongs to it. -/
theorem belongsTo_of_task {frame : FromAgentMessage} {task : String}
    (h : frame.task = some task) : frame.belongsTo = some task := by
  obtain ⟨report, taskStep⟩ := frame
  cases report <;> first | exact h | cases h

/-- Only a `STATE_PATCH` belongs to a task its `task` field does not name. -/
theorem belongsTo_iff {frame : FromAgentMessage} {task : String} :
    frame.belongsTo = some task ↔
      frame.task = some task ∨ ∃ state, frame.report = .statePatch state (some task) := by
  obtain ⟨report, taskStep⟩ := frame
  cases report <;> simp [FromAgentMessage.belongsTo, FromAgentMessage.task]

theorem effectOf_eq_some {frame : FromAgentMessage} {task : String} {e : RecordedEffect}
    (h : frame.effectOf task = some e) : frame.task = some task := by
  obtain ⟨report, taskStep⟩ := frame
  rw [FromAgentMessage.effectOf] at h
  split at h
  · rename_i hreport
    obtain rfl : report = _ := hreport
    simp only [Option.ite_none_right_eq_some] at h
    rw [FromAgentMessage.task, h.1.1]
  · cases h

theorem stepOf_eq_some {frame : FromAgentMessage} {task : String} {n : ℕ} :
    frame.stepOf task = some n ↔ frame.task = some task ∧ frame.taskStep = some n ∧ n ≠ 0 := by
  by_cases h : frame.task = some task <;>
    simp [FromAgentMessage.stepOf, h, Option.filter_eq_some_iff]

/-- What is added to a journal is read off the frames of its task alone. -/
theorem completed_eq_of_framesOf_eq {a b : RekuestAgent} {task : String}
    (h : b.framesOf task = a.framesOf task) (resume : ResumeJournal) :
    b.completed task resume = a.completed task resume := by
  have hread : ∀ {β : Type} (read : FromAgentMessage → Option β),
      (∀ frame v, read frame = some v → frame.task = some task) → ∀ c : RekuestAgent,
        c.retained.values.filterMap read = (c.framesOf task).filterMap read := by
    intro β read hread c
    rw [framesOf, List.filterMap_filter]
    refine List.filterMap_congr fun frame _ => ?_
    cases hf : read frame with
    | none => simp
    | some v => simp [belongsTo_of_task (hread frame v hf)]
  have heffects : b.heldEffects task = a.heldEffects task := by
    simp only [heldEffects, hread _ fun _ _ => effectOf_eq_some, h]
  have hsteps : b.heldSteps task = a.heldSteps task := by
    simp only [heldSteps, hread _ fun _ _ hs => (stepOf_eq_some.mp hs).1, h]
  rw [completed, completed, unknownEffects, unknownEffects, heffects, hsteps]

/-- The last step of a completed journal is the largest of the server's and the held ones. -/
theorem le_foldl_max {l : List ℕ} {m n : ℕ} :
    n ≤ l.foldl max m ↔ n ≤ m ∨ ∃ s ∈ l, n ≤ s := by
  induction l generalizing m with
  | nil => simp
  | cons s l ih => simp [ih, or_assoc]

/-- The journal a task is resumed with has a last step no report of the task is above, and no
frame of another task had a part in it. -/
def NoStepReused (codec : FrameCodec) (db : JournalDb) (a : RekuestAgent) (task : String)
    (resume : ResumeJournal) : Prop :=
  ∃ journal, resumedJournal codec db a ⟨task, some resume⟩ = some journal ∧
    resume.lastStep ≤ journal.lastStep ∧
    (∀ frame ∈ (openStore codec db a).retained.values, frame.belongsTo = some task →
      ∀ step, frame.taskStep = some step → step ≤ journal.lastStep) ∧
    ∀ b : RekuestAgent, b.storeOpen = true →
      b.framesOf task = (openStore codec db a).framesOf task →
      resumedJournal codec db b ⟨task, some resume⟩ = some journal

/-- No `STATE_PATCH` of `task` carries a step above the server's last step and above every step
of the frames that name `task` in their `task` field. -/
def PatchStepsCovered (frames : List FromAgentMessage) (task : String) (resume : ResumeJournal) :
    Prop :=
  ∀ frame ∈ frames, (∃ state, frame.report = .statePatch state (some task)) →
    ∀ step, frame.taskStep = some step →
      step ≤ resume.lastStep ∨
        ∃ other ∈ frames, other.task = some task ∧ ∃ s, other.taskStep = some s ∧ step ≤ s

/-- A resumed workflow reuses no step exactly where its state patches' steps are covered by
others: `_complete_resume` does not count a patch's own. -/
theorem noStepReused_iff (codec : FrameCodec) (db : JournalDb) (a : RekuestAgent) (task : String)
    (resume : ResumeJournal) :
    NoStepReused codec db a task resume ↔
      PatchStepsCovered (openStore codec db a).retained.values task resume := by
  have hlast : ∀ n, n ≤ ((openStore codec db a).completed task resume).lastStep ↔
      n ≤ resume.lastStep ∨ ∃ other ∈ (openStore codec db a).retained.values,
        other.task = some task ∧ ∃ s, other.taskStep = some s ∧ n ≤ s := by
    intro n
    rw [completed, le_foldl_max]
    refine or_congr_right' fun hn => ?_
    simp only [heldSteps, List.mem_filterMap, stepOf_eq_some]
    constructor
    · rintro ⟨s, ⟨other, hother, htask, hs, -⟩, hle⟩
      exact ⟨other, hother, htask, s, hs, hle⟩
    · rintro ⟨other, hother, htask, s, hs, hle⟩
      exact ⟨s, ⟨other, hother, htask, hs, by omega⟩, hle⟩
  constructor
  · rintro ⟨journal, hjournal, -, hheld, -⟩ frame hframe hpatch step hstep
    rw [resumedJournal_eq, Option.some.injEq] at hjournal
    subst hjournal
    exact (hlast step).mp (hheld frame hframe (belongsTo_iff.mpr (Or.inr hpatch)) step hstep)
  · intro hcov
    refine ⟨_, resumedJournal_eq a task resume, (hlast _).mpr (Or.inl le_rfl), ?_, ?_⟩
    · intro frame hframe hbelongs step hstep
      rcases belongsTo_iff.mp hbelongs with htask | hpatch
      · exact (hlast _).mpr (Or.inr ⟨frame, hframe, htask, step, hstep, le_rfl⟩)
      · exact (hlast _).mpr (hcov frame hframe hpatch step hstep)
    · intro b hopen hframes
      rw [resumedJournal_eq, openStore_of_open hopen, completed_eq_of_framesOf_eq hframes]

/-- A codec that reads nothing back; the stores of the agents below are open already. -/
def unreadable : FrameCodec := ⟨fun _ => "", fun _ => none⟩

/-- Task 42's only unsent frame is a `STATE_PATCH` its ninth step went to. -/
def patched : RekuestAgent :=
  { new "app" "s2" with
    retained := Dict.set ∅ ("s1", 9) ⟨.statePatch "counter" (some "42"), some 9⟩
    storeOpen := true }

/-- The server knows of eight steps, and the resumed run takes the ninth again. -/
theorem not_noStepReused_patched :
    ¬ NoStepReused unreadable JournalDb.empty patched "42" ⟨[], 8⟩ := by
  rintro ⟨journal, hjournal, -, hheld, -⟩
  obtain rfl : (⟨[], 8⟩ : ResumeJournal) = journal := Option.some.inj hjournal
  have hle : (9 : ℕ) ≤ 8 :=
    hheld ⟨.statePatch "counter" (some "42"), some 9⟩ (List.mem_singleton_self _) rfl 9 rfl
  omega

/-! ## Effects

Held effects are left out if the server's journal has their key. They are not compared with one
another.
-/

/-- The journal a task is resumed with has one value per key: the server's, first and in its
order, and then for every other key the value of the first frame that will be re-sent with it.
Completing it again changes nothing. -/
def OneValuePerKey (codec : FrameCodec) (db : JournalDb) (a : RekuestAgent) (task : String)
    (resume : ResumeJournal) : Prop :=
  ∃ a' journal, completeResume codec db a ⟨task, some resume⟩ = some (a', ⟨task, some journal⟩) ∧
    (journal.effects.map RecordedEffect.key).Nodup ∧
    resume.effects <+: journal.effects ∧
    (∀ key effect, key ∉ resume.effects.map RecordedEffect.key →
      ((a'.retainedFrames.filterMap (FromAgentMessage.effectOf task)).find? fun e => e.key = key)
        = some effect → effect ∈ journal.effects) ∧
    (∀ effect ∈ journal.effects, effect ∈ resume.effects ∨
      ∃ frame ∈ a'.retainedFrames, frame.effectOf task = some effect) ∧
    ∃ a'', completeResume codec db a' ⟨task, some journal⟩ = some (a'', ⟨task, some journal⟩)

theorem mem_unknownEffects {a : RekuestAgent} {task : String} {resume : ResumeJournal}
    {effect : RecordedEffect} :
    effect ∈ a.unknownEffects task resume ↔
      (∃ frame ∈ a.retainedFrames, frame.effectOf task = some effect) ∧
        effect.key ∉ resume.effects.map RecordedEffect.key := by
  simp only [unknownEffects, heldEffects, List.mem_filter, List.mem_filterMap, mem_retainedFrames,
    decide_eq_true_eq]

/-- Completing a completed journal adds nothing. -/
theorem completed_completed (a : RekuestAgent) (task : String) (resume : ResumeJournal) :
    a.completed task (a.completed task resume) = a.completed task resume := by
  have hnone : a.unknownEffects task (a.completed task resume) = [] := by
    rw [List.eq_nil_iff_forall_not_mem]
    intro effect heffect
    obtain ⟨hheld, hnew⟩ := mem_unknownEffects.mp heffect
    have hold : effect.key ∉ resume.effects.map RecordedEffect.key := fun h =>
      hnew (by rw [completed, List.map_append]; exact List.mem_append_left _ h)
    exact hnew (List.mem_map.mpr ⟨effect,
      List.mem_append_right _ (mem_unknownEffects.mpr ⟨hheld, hold⟩), rfl⟩)
  have hmax : ∀ l : List ℕ, ∀ m, l.foldl max (l.foldl max m) = l.foldl max m := by
    intro l m
    refine le_antisymm (le_of_forall_le fun n hn => ?_) (le_foldl_max.mpr (Or.inl le_rfl))
    rcases le_foldl_max.mp hn with hn | hn
    · exact hn
    · exact le_foldl_max.mpr (Or.inr hn)
  rw [completed, hnone, List.append_nil, completed, hmax]

/-- No two of the frames record an effect of `task` under one key, unless the server has it. -/
def KeysDistinct (frames : List FromAgentMessage) (task : String) (resume : ResumeJournal) : Prop :=
  frames.Pairwise fun frame frame' => ∀ effect effect', frame.effectOf task = some effect →
    frame'.effectOf task = some effect' → effect.key = effect'.key →
    effect.key ∈ resume.effects.map RecordedEffect.key

theorem nodup_unknownEffects_iff (a : RekuestAgent) (task : String) (resume : ResumeJournal) :
    ((a.unknownEffects task resume).map RecordedEffect.key).Nodup ↔
      KeysDistinct a.retained.values task resume := by
  rw [List.Nodup, List.pairwise_map, unknownEffects, heldEffects, List.pairwise_filter,
    List.pairwise_filterMap, KeysDistinct]
  refine List.Pairwise.iff fun frame frame' => ?_
  constructor
  · intro h effect effect' he he' hkey
    by_contra hnew
    exact h effect he effect' he' (decide_eq_true hnew) (decide_eq_true (hkey ▸ hnew)) hkey
  · intro h effect he effect' he' hnew _ hkey
    exact of_decide_eq_true hnew (h effect effect' he he' hkey)

/-- A resumed workflow has one value per key exactly where no key the server does not have was
recorded twice: the held effects are not checked against each other. -/
theorem oneValuePerKey_iff (codec : FrameCodec) (db : JournalDb) (a : RekuestAgent)
    (task : String) (resume : ResumeJournal)
    (hserver : (resume.effects.map RecordedEffect.key).Nodup) :
    OneValuePerKey codec db a task resume ↔
      KeysDistinct (openStore codec db a).retained.values task resume := by
  have hnodup : (((openStore codec db a).completed task resume).effects.map
        RecordedEffect.key).Nodup ↔
      KeysDistinct (openStore codec db a).retained.values task resume := by
    rw [← nodup_unknownEffects_iff, completed, List.map_append, List.nodup_append]
    refine ⟨fun h => h.2.1, fun h => ⟨hserver, h, ?_⟩⟩
    rintro key hkey key' hkey' rfl
    obtain ⟨effect, heffect, rfl⟩ := List.mem_map.mp hkey'
    exact (mem_unknownEffects.mp heffect).2 hkey
  constructor
  · rintro ⟨a', journal, hjournal, hkeys, -⟩
    rw [completeResume_eq] at hjournal
    simp only [Option.some.injEq, Prod.mk.injEq, Assign.mk.injEq, true_and] at hjournal
    obtain ⟨rfl, rfl⟩ := hjournal
    exact hnodup.mp hkeys
  · intro h
    refine ⟨_, _, completeResume_eq a task resume, hnodup.mpr h, List.prefix_append _ _, ?_, ?_, ?_⟩
    · intro key effect hnew hfirst
      have hkey : effect.key = key := by simpa using List.find?_some hfirst
      obtain ⟨frame, hframe, heffect⟩ :=
        List.mem_filterMap.mp (List.mem_of_find?_eq_some hfirst)
      refine List.mem_append_right _ (mem_unknownEffects.mpr ⟨⟨frame, hframe, heffect⟩, ?_⟩)
      rwa [hkey]
    · intro effect heffect
      rcases List.mem_append.mp heffect with hold | hheld
      · exact Or.inl hold
      · exact Or.inr (mem_unknownEffects.mp hheld).1
    · refine ⟨openStore codec db a, ?_⟩
      rw [completeResume_eq, openStore_of_open (openStore_storeOpen db a), completed_completed]

/-- Two dead sessions each took the time for task 42 under `NOW:1`. -/
def twiceTaken : RekuestAgent :=
  { new "app" "s3" with
    retained := Dict.set (Dict.set ∅ ("s1", 2) ⟨.effect "42" "NOW" (.num 1) (some "NOW:1"), some 2⟩)
      ("s2", 2) ⟨.effect "42" "NOW" (.num 5) (some "NOW:1"), some 2⟩
    sessionCreated := Dict.set (Dict.set ∅ "s1" 1) "s2" 2
    storeOpen := true }

theorem oneValuePerKey_iff_twiceTaken :
    OneValuePerKey unreadable JournalDb.empty twiceTaken "42" ⟨[], 0⟩ ↔
      KeysDistinct (openStore unreadable JournalDb.empty twiceTaken).retained.values "42" ⟨[], 0⟩ :=
  oneValuePerKey_iff unreadable _ _ _ _ List.nodup_nil

/-- The journal then has the key twice. -/
theorem not_oneValuePerKey_twiceTaken :
    ¬ OneValuePerKey unreadable JournalDb.empty twiceTaken "42" ⟨[], 0⟩ := by
  rintro ⟨a', journal, hjournal, hkeys, -⟩
  rw [completeResume_eq] at hjournal
  simp only [Option.some.injEq, Prod.mk.injEq, Assign.mk.injEq, true_and] at hjournal
  obtain ⟨-, rfl⟩ := hjournal
  have htwice :
      (((openStore unreadable JournalDb.empty twiceTaken).completed "42" ⟨[], 0⟩).effects.map
        RecordedEffect.key) = ["NOW:1", "NOW:1"] := by
    rw [openStore_of_open rfl]
    decide
  rw [htwice] at hkeys
  exact absurd hkeys (by decide)

end RekuestAgent

end Rekuest
