import Rekuest.Client.Assets
import Rekuest.Lib.Runs

/-!
# What follows a registration

`_aafter_init`, `_arun_after_registration` and `atear_down` of `rekuest/agents/agent.py`, over
`_asset_upload` of `rekuest/arkitekt.py`: each `Init` starts the follow-up if none was started since
the last that failed, and a follow-up that failed starts over. Files may change at any time, and
other clients ask what they want of the server.
-/

namespace Rekuest

open Runs

variable {S : AssetServer}

variable (S) in
/-- What a follow-up awaits: that its client opens, a call of its pass over the assets, or that its
client closes after what the pass raised, if it did. -/
inductive FollowUpStage
  | opening
  | uploading (pass : AssetPass S)
  | closing (log : List AssetLog) (error : Option String)

variable (S) in
/-- A task that runs the follow-up. -/
inductive FollowUp
  /-- It waits; `cancelling` once its cancellation was asked for. -/
  | running (stage : FollowUpStage S) (cancelling : Bool)
  | returned (log : List AssetLog)
  /-- It raised, and `_arun_after_registration` logged that. -/
  | failed (log : List AssetLog) (text : String)
  | cancelled

/-- How what a follow-up awaits ends; opening and closing the client may raise. -/
inductive StageEnd
  | opened (error : Option String)
  | call (callEnd : CallEnd)
  | closed (error : Option String)

/-- A follow-up, by where its pass over the assets is. -/
def FollowUp.ofPass : PassState S → FollowUp S
  | .uploading pass => .running (.uploading pass) false
  | .returned log => .running (.closing log none) false
  | .raised log text => .running (.closing log (some text)) false

/-- `follow_up.cancel()`. -/
def FollowUp.cancel : FollowUp S → FollowUp S
  | .running stage _ => .running stage true
  | ended => ended

variable (S) in
/-- An agent's follow-ups, with the server and the files they work on. -/
structure FollowUps where
  world : AssetWorld S
  /-- What reading a file gives now, or the text of its `OSError`. -/
  files : String → Except String (List UInt8)
  /-- Every follow-up that was created. -/
  tasks : List (FollowUp S)
  /-- `_after_registration_task`. -/
  task : Option ℕ
  /-- `atear_down` began. -/
  torn : Bool

variable (S) in
/-- What happens. -/
inductive FollowUpAct
  | init
  /-- What a follow-up waits for ends. -/
  | ends (i : ℕ) (stageEnd : StageEnd)
  | tearDown
  /-- A follow-up that is cancelled ends. -/
  | cancelled (i : ℕ)
  /-- A file changes. -/
  | write (path : String) (content : Except String (List UInt8))
  /-- The server handles one of the requests on their way. -/
  | handle (k : ℕ)
  /-- One of them is lost. -/
  | lose (k : ℕ)
  | elsewhere (request : S.Request)

namespace FollowUps

section

variable (sha256 : List UInt8 → String) (endpointUrl : String) (assets : List AssetDeclaration)

/-- `upload`: what a follow-up waits for ends. -/
def stageStep (files : String → Except String (List UInt8)) (world : AssetWorld S) :
    FollowUpStage S → StageEnd → Option (AssetWorld S × FollowUp S)
  | .opening, .opened none => some (world, .ofPass (nextAsset world.server [] assets))
  | .opening, .opened (some text) => some (world, .failed [] text)
  | .uploading pass, .call callEnd =>
    (pass.step sha256 endpointUrl files world callEnd).map fun (world, state) =>
      (world, .ofPass state)
  | .closing log none, .closed none => some (world, .returned log)
  | .closing log (some text), .closed none => some (world, .failed log text)
  | .closing log _, .closed (some text) => some (world, .failed log text)
  | _, _ => none

/-- One event. -/
def step (s : FollowUps S) : FollowUpAct S → Option (FollowUps S)
  | .init =>
    match s.task with
    | none => some { s with
        tasks := s.tasks ++ [.running .opening false]
        task := some s.tasks.length }
    | some _ => some s
  | .ends i stageEnd =>
    match s.tasks[i]? with
    | some (.running stage false) =>
      (stageStep sha256 endpointUrl assets s.files s.world stage stageEnd).map fun (world, f) =>
        { s with
          world := world
          tasks := s.tasks.set i f
          -- `_arun_after_registration` lets a failure be tried again
          task := match f with
            | .failed _ _ => none
            | _ => s.task }
    | _ => none
  | .tearDown => some { s with
      task := none
      torn := true
      tasks := match s.task with
        | none => s.tasks
        | some i => s.tasks.modify i FollowUp.cancel }
  | .cancelled i =>
    match s.tasks[i]? with
    | some (.running _ true) => some { s with tasks := s.tasks.set i .cancelled }
    | _ => none
  | .write path content => some { s with files := Function.update s.files path content }
  | .handle k => some { s with world := s.world.handle k }
  | .lose k => some { s with world := s.world.lose k }
  | .elsewhere request => some { s with world := s.world.elsewhere request }

end

/-- An agent that was never connected, on a server that had nothing from it. -/
def start (server : S.State) (files : String → Except String (List UInt8)) : FollowUps S where
  world := ⟨server, [], [], [], []⟩
  files := files
  tasks := []
  task := none
  torn := false

end FollowUps

/-! ## One at a time

The agent forgets a follow-up only when it failed, or to cancel it, so at most one of those it
created can do anything.
-/

/-- It runs, or is through: nothing is to follow the registration again. -/
def FollowUp.Live : FollowUp S → Prop
  | .running _ _ | .returned _ => True
  | _ => False

namespace FollowUps

/-- A follow-up that runs. -/
def Running (s : FollowUps S) (i : ℕ) (stage : FollowUpStage S) (cancelling : Bool) : Prop :=
  s.tasks[i]? = some (FollowUp.running stage cancelling)

/-- Only the last follow-up that was created is live, and the agent knows of it until it tears
down; then it is being cancelled. -/
structure Single (s : FollowUps S) : Prop where
  last : ∀ i f, s.tasks[i]? = some f → f.Live → i + 1 = s.tasks.length
  known : s.torn = false → ∀ i f, s.tasks[i]? = some f → f.Live → s.task = some i
  torn : s.torn = true → s.task = none
  cancelling : ∀ i stage cancelling, s.Running i stage cancelling → cancelling = s.torn

/-- What the follow-ups know of the server. -/
structure Uploads (s : FollowUps S) : Prop where
  clean : s.world.Clean
  ready : ∀ i pass cancelling, s.Running i (.uploading pass) cancelling → pass.Ready s.world

variable {sha256 : List UInt8 → String} {endpointUrl : String} {assets : List AssetDeclaration}
  {s t : FollowUps S}

/-- No `Init` is handled once the agent began to tear down. -/
def InTime (s : FollowUps S) (a : FollowUpAct S) : Prop := a = .init → s.torn = false

/-- When the app asks whether the server holds an asset, what it asked the server to record for it
before was handled, or is lost. -/
def InOrder (s : FollowUps S) (_ : FollowUpAct S) : Prop :=
  ∀ i pass cancelling, s.Running i (.uploading pass) cancelling → ¬ pass.Overtaken s.world

theorem single_start (server : S.State) (files : String → Except String (List UInt8)) :
    (start server files).Single := by
  refine ⟨?_, ?_, ?_, ?_⟩
  · rintro i f ⟨⟩
  · rintro - i f ⟨⟩
  · rintro ⟨⟩
  · rintro i stage cancelling ⟨⟩

theorem uploads_start (server : S.State) (files : String → Except String (List UInt8)) :
    (start server files).Uploads := by
  refine ⟨⟨List.nodup_nil, ?_, ?_⟩, ?_⟩
  · rintro ref store ⟨⟩
  · rintro ref store ⟨⟩
  · rintro i pass cancelling ⟨⟩

/-- What a follow-up waits for ends. -/
theorem ends_cases {i : ℕ} {stageEnd : StageEnd}
    (h : step sha256 endpointUrl assets s (.ends i stageEnd) = some t) :
    ∃ stage world f, s.Running i stage false ∧
      stageStep sha256 endpointUrl assets s.files s.world stage stageEnd = some (world, f) ∧
      t.world = world ∧ t.tasks = s.tasks.set i f ∧ t.torn = s.torn ∧
      (¬ f.Live ∨ t.task = s.task) := by
  simp only [step] at h
  split at h
  · rename_i stage hrunning
    obtain ⟨⟨world, f⟩, hstage, rfl⟩ := Option.map_eq_some_iff.mp h
    refine ⟨stage, world, f, hrunning, hstage, rfl, rfl, rfl, ?_⟩
    cases f with
    | running stage cancelling => exact Or.inr rfl
    | returned log => exact Or.inr rfl
    | failed log text => exact Or.inl fun hlive => hlive
    | cancelled => exact Or.inr rfl
  · cases h

/-- An `Init` starts a follow-up where the agent knows of none. -/
theorem init_cases (h : step sha256 endpointUrl assets s .init = some t) :
    t = s ∨ s.task = none ∧ t.world = s.world ∧ t.torn = s.torn ∧
      t.task = some s.tasks.length ∧ t.tasks.length = s.tasks.length + 1 ∧
      ∀ i f, t.tasks[i]? = some f →
        s.tasks[i]? = some f ∨ (i = s.tasks.length ∧ f = .running .opening false) := by
  simp only [step] at h
  split at h
  · rename_i hnone
    obtain rfl := Option.some.inj h
    refine Or.inr ⟨hnone, rfl, rfl, rfl, List.length_append, fun i f hi => ?_⟩
    rw [List.getElem?_append] at hi
    split at hi
    · exact Or.inl hi
    · obtain ⟨hlt, hget⟩ := List.getElem?_eq_some_iff.mp hi
      rw [List.length_singleton] at hlt
      refine Or.inr ⟨by omega, ?_⟩
      rw [← hget, List.getElem_singleton]
  · exact Or.inl (Option.some.inj h).symm

/-- Tearing down cancels the follow-up the agent knows of, and no other. -/
theorem tearDown_cases (h : step sha256 endpointUrl assets s .tearDown = some t) :
    t.world = s.world ∧ t.torn = true ∧ t.task = none ∧ t.tasks.length = s.tasks.length ∧
      ∀ i g, t.tasks[i]? = some g →
        (s.task ≠ some i ∧ s.tasks[i]? = some g) ∨
          s.task = some i ∧ ∃ f, s.tasks[i]? = some f ∧ g = f.cancel := by
  obtain rfl := Option.some.inj h
  cases htask : s.task with
  | none => exact ⟨rfl, rfl, rfl, rfl, fun i g hi => Or.inl ⟨by rintro ⟨⟩, hi⟩⟩
  | some k =>
    refine ⟨rfl, rfl, rfl, List.length_modify _ _ _, fun i g hi => ?_⟩
    have hentry : (s.tasks.modify k FollowUp.cancel)[i]? = some g := hi
    rw [List.getElem?_modify] at hentry
    obtain ⟨f, hf, hfg⟩ := Option.map_eq_some_iff.mp hentry
    split at hfg
    · rename_i hki
      exact Or.inr ⟨congrArg some hki, f, hf, hfg.symm⟩
    · rename_i hki
      obtain rfl := hfg
      exact Or.inl ⟨fun hsame => hki (Option.some.inj hsame), hf⟩

/-- A follow-up that is being cancelled ends. -/
theorem cancelled_cases {i : ℕ}
    (h : step sha256 endpointUrl assets s (.cancelled i) = some t) :
    t = { s with tasks := s.tasks.set i .cancelled } := by
  simp only [step] at h
  split at h
  · exact (Option.some.inj h).symm
  · cases h

/-- What is at a place of a list in which one entry was set. -/
theorem getElem?_set_cases {l : List (FollowUp S)} {i j : ℕ} {f g : FollowUp S}
    (h : (l.set i f)[j]? = some g) : (j = i ∧ g = f) ∨ (j ≠ i ∧ l[j]? = some g) := by
  rw [List.getElem?_set] at h
  split at h
  · rename_i hij
    split at h
    · exact Or.inl ⟨hij.symm, (Option.some.inj h).symm⟩
    · cases h
  · rename_i hij
    exact Or.inr ⟨Ne.symm hij, h⟩

theorem running_cancel {f : FollowUp S} {stage : FollowUpStage S} {cancelling : Bool}
    (h : f.cancel = .running stage cancelling) :
    cancelling = true ∧ ∃ before, f = .running stage before := by
  cases f with
  | running stage' before =>
    obtain ⟨rfl, rfl⟩ := FollowUp.running.inj h
    exact ⟨rfl, before, rfl⟩
  | returned log => cases h
  | failed log text => cases h
  | cancelled => cases h

theorem live_cancel {f : FollowUp S} (h : f.cancel.Live) : f.Live := by
  cases f with
  | running stage cancelling => exact trivial
  | returned log => exact trivial
  | failed log text => exact h
  | cancelled => exact h

theorem running_ofPass {state : PassState S} {stage : FollowUpStage S} {cancelling : Bool}
    (h : FollowUp.ofPass state = .running stage cancelling) :
    cancelling = false ∧ ∀ pass, stage = .uploading pass → state = .uploading pass := by
  cases state with
  | uploading pass' =>
    obtain ⟨rfl, rfl⟩ := FollowUp.running.inj h
    exact ⟨rfl, fun pass hpass => congrArg PassState.uploading (FollowUpStage.uploading.inj hpass)⟩
  | returned log =>
    obtain ⟨rfl, rfl⟩ := FollowUp.running.inj h
    exact ⟨rfl, by rintro pass ⟨⟩⟩
  | raised log text =>
    obtain ⟨rfl, rfl⟩ := FollowUp.running.inj h
    exact ⟨rfl, by rintro pass ⟨⟩⟩

/-- What a follow-up is once what it waited for ended: it goes on with its pass, or is over. -/
theorem stageStep_cases {files : String → Except String (List UInt8)} {world world' : AssetWorld S}
    {stage : FollowUpStage S} {stageEnd : StageEnd} {f : FollowUp S}
    (h : stageStep sha256 endpointUrl assets files world stage stageEnd = some (world', f)) :
    (stage = .opening ∧ world' = world ∧ f = .ofPass (nextAsset world.server [] assets)) ∨
      (∃ pass callEnd state, stage = .uploading pass ∧
        pass.step sha256 endpointUrl files world callEnd = some (world', state) ∧
        f = .ofPass state) ∨
      (∃ log, stage = .closing log none ∧ world' = world ∧ f = .returned log) ∨
      (∃ log text, world' = world ∧ f = .failed log text) := by
  unfold stageStep at h
  split at h
  · obtain ⟨rfl, rfl⟩ := Prod.mk.inj (Option.some.inj h)
    exact Or.inl ⟨rfl, rfl, rfl⟩
  · obtain ⟨rfl, rfl⟩ := Prod.mk.inj (Option.some.inj h)
    exact Or.inr (Or.inr (Or.inr ⟨_, _, rfl, rfl⟩))
  · obtain ⟨⟨world'', state⟩, hpass, heq⟩ := Option.map_eq_some_iff.mp h
    obtain ⟨rfl, rfl⟩ := Prod.mk.inj heq
    exact Or.inr (Or.inl ⟨_, _, state, rfl, hpass, rfl⟩)
  · obtain ⟨rfl, rfl⟩ := Prod.mk.inj (Option.some.inj h)
    exact Or.inr (Or.inr (Or.inl ⟨_, rfl, rfl, rfl⟩))
  · obtain ⟨rfl, rfl⟩ := Prod.mk.inj (Option.some.inj h)
    exact Or.inr (Or.inr (Or.inr ⟨_, _, rfl, rfl⟩))
  · obtain ⟨rfl, rfl⟩ := Prod.mk.inj (Option.some.inj h)
    exact Or.inr (Or.inr (Or.inr ⟨_, _, rfl, rfl⟩))
  · cases h

/-- A follow-up that runs on is not being cancelled. -/
theorem running_stageStep {files : String → Except String (List UInt8)}
    {world world' : AssetWorld S} {stage stage' : FollowUpStage S} {stageEnd : StageEnd}
    {cancelling : Bool} (h : stageStep sha256 endpointUrl assets files world stage stageEnd
      = some (world', .running stage' cancelling)) : cancelling = false := by
  obtain ⟨-, -, hf⟩ | ⟨-, -, state, -, -, hf⟩ | ⟨log, -, -, hf⟩ | ⟨log, text, -, hf⟩ :=
    stageStep_cases h
  · exact (running_ofPass hf.symm).1
  · exact (running_ofPass hf.symm).1
  · cases hf
  · cases hf

/-- A follow-up that starts is the only one that is live: the agent forgot a live one only to tear
down. -/
theorem single_init (h : s.Single) (hopen : s.torn = false)
    (hs : step sha256 endpointUrl assets s .init = some t) : t.Single := by
  obtain rfl | ⟨hnone, -, htorn, htask, hlength, htasks⟩ := init_cases hs
  · exact h
  · have hnew : ∀ (i : ℕ) (f : FollowUp S), t.tasks[i]? = some f → f.Live →
        i = s.tasks.length ∧ f = .running .opening false := by
      intro i f hi hlive
      obtain hold | hnew := htasks i f hi
      · cases hnone.symm.trans (h.known hopen i f hold hlive)
      · exact hnew
    refine ⟨fun i f hi hlive => ?_, fun _ i f hi hlive => ?_, fun hclosed => ?_,
      fun i stage cancelling hi => ?_⟩
    · rw [(hnew i f hi hlive).1, hlength]
    · rw [(hnew i f hi hlive).1, htask]
    · cases hopen.symm.trans (htorn.symm.trans hclosed)
    · obtain ⟨-, hf⟩ := hnew i _ hi trivial
      rw [(FollowUp.running.inj hf).2, htorn, hopen]

/-- Whatever a follow-up goes on to, no other one is live. -/
theorem single_ends (h : s.Single) {i : ℕ} {stageEnd : StageEnd}
    (hs : step sha256 endpointUrl assets s (.ends i stageEnd) = some t) : t.Single := by
  obtain ⟨stage, world, f, hrunning, hstage, -, htasks, htorn, htask⟩ := ends_cases hs
  have hopen : s.torn = false := (h.cancelling i stage false hrunning).symm
  have hlast := h.last i _ hrunning trivial
  have hknown := h.known hopen i _ hrunning trivial
  have hlive : ∀ (j : ℕ) (g : FollowUp S), t.tasks[j]? = some g → g.Live → j = i ∧ g = f := by
    intro j g hj hlive
    rw [htasks] at hj
    obtain hsame | ⟨hne, hold⟩ := getElem?_set_cases hj
    · exact hsame
    · have hlast' := h.last j g hold hlive
      omega
  refine ⟨fun j g hj hg => ?_, fun _ j g hj hg => ?_, fun hclosed => ?_,
    fun j stage' cancelling hj => ?_⟩
  · obtain ⟨rfl, -⟩ := hlive j g hj hg
    rw [htasks, List.length_set]
    exact hlast
  · obtain ⟨rfl, rfl⟩ := hlive j g hj hg
    obtain hdead | hsame := htask
    · exact absurd hg hdead
    · exact hsame.trans hknown
  · rw [htorn, hopen] at hclosed
    cases hclosed
  · obtain ⟨-, rfl⟩ := hlive j _ hj trivial
    rw [htorn, hopen]
    exact running_stageStep hstage

/-- The follow-up that is live once the agent tears down is the one it cancelled. -/
theorem single_tearDown (h : s.Single)
    (hs : step sha256 endpointUrl assets s .tearDown = some t) : t.Single := by
  obtain ⟨-, htorn, htask, hlength, htasks⟩ := tearDown_cases hs
  refine ⟨fun i f hi hf => ?_, fun hopen => ?_, fun _ => htask, fun i stage cancelling hi => ?_⟩
  · rw [hlength]
    obtain ⟨-, hold⟩ | ⟨-, g, hg, rfl⟩ := htasks i f hi
    · exact h.last i f hold hf
    · exact h.last i g hg (live_cancel hf)
  · cases htorn.symm.trans hopen
  · rw [htorn]
    obtain ⟨hother, hold⟩ | ⟨-, g, hg, hcancel⟩ := htasks i _ hi
    · -- one the agent does not know of was being cancelled already
      refine (h.cancelling i stage cancelling hold).trans ?_
      rw [← Bool.not_eq_false]
      exact fun hopen => hother (h.known hopen i _ hold trivial)
    · exact (running_cancel hcancel.symm).1

theorem single_cancelled (h : s.Single) {i : ℕ}
    (hs : step sha256 endpointUrl assets s (.cancelled i) = some t) : t.Single := by
  obtain rfl := cancelled_cases hs
  have hlive : ∀ (j : ℕ) (f : FollowUp S), (s.tasks.set i .cancelled)[j]? = some f →
      f.Live → s.tasks[j]? = some f := by
    intro j f hj hf
    obtain ⟨-, rfl⟩ | ⟨-, hold⟩ := getElem?_set_cases hj
    · cases hf
    · exact hold
  refine ⟨fun j f hj hf => ?_, fun hopen j f hj hf => h.known hopen j f (hlive j f hj hf) hf,
    h.torn,
    fun j stage cancelling hj => h.cancelling j stage cancelling (hlive j _ hj trivial)⟩
  rw [List.length_set]
  exact h.last j f (hlive j f hj hf) hf

theorem single_step (h : s.Single) {a : FollowUpAct S} (hintime : s.InTime a)
    (hs : step sha256 endpointUrl assets s a = some t) : t.Single := by
  cases a with
  | init => exact single_init h (hintime rfl) hs
  | ends i stageEnd => exact single_ends h hs
  | tearDown => exact single_tearDown h hs
  | cancelled i => exact single_cancelled h hs
  | write path content =>
    obtain rfl := Option.some.inj hs
    exact ⟨h.last, h.known, h.torn, h.cancelling⟩
  | handle k =>
    obtain rfl := Option.some.inj hs
    exact ⟨h.last, h.known, h.torn, h.cancelling⟩
  | lose k =>
    obtain rfl := Option.some.inj hs
    exact ⟨h.last, h.known, h.torn, h.cancelling⟩
  | elsewhere request =>
    obtain rfl := Option.some.inj hs
    exact ⟨h.last, h.known, h.torn, h.cancelling⟩

/-! ## What is recorded

The app asks for a record of an asset when the server told it that it holds none. An earlier request
of the app that is still on its way could be handled behind that answer; `InOrder` rules this out.
-/

/-- The follow-up that goes on makes the requests, and no other one runs. -/
theorem uploads_ends (hsingle : s.Single) (h : s.Uploads) {i : ℕ} {stageEnd : StageEnd}
    (horder : s.InOrder (.ends i stageEnd))
    (hs : step sha256 endpointUrl assets s (.ends i stageEnd) = some t) : t.Uploads := by
  obtain ⟨stage, world, f, hrunning, hstage, hworld, htasks, -, -⟩ := ends_cases hs
  have hafter : t.world.Clean ∧ ∀ pass cancelling, f = .running (.uploading pass) cancelling →
      pass.Ready t.world := by
    rw [hworld]
    obtain ⟨-, rfl, rfl⟩ | ⟨pass, callEnd, state, rfl, hpass, rfl⟩ | ⟨log, -, rfl, rfl⟩ |
      ⟨log, text, rfl, rfl⟩ := stageStep_cases hstage
    · refine ⟨h.clean, fun pass cancelling hf => ?_⟩
      have hready := ready_nextAsset h.clean [] assets
      rw [(running_ofPass hf).2 pass rfl] at hready
      exact hready
    · obtain ⟨hclean, hready⟩ := AssetPass.clean_step h.clean (h.ready i pass false hrunning)
        (horder i pass false hrunning) hpass
      refine ⟨hclean, fun pass' cancelling hf => ?_⟩
      rw [(running_ofPass hf).2 pass' rfl] at hready
      exact hready
    · exact ⟨h.clean, by rintro pass cancelling ⟨⟩⟩
    · exact ⟨h.clean, by rintro pass cancelling ⟨⟩⟩
  refine ⟨hafter.1, fun j pass cancelling hj => ?_⟩
  have hentry : t.tasks[j]? = some (FollowUp.running (.uploading pass) cancelling) := hj
  rw [htasks] at hentry
  obtain ⟨-, hnew⟩ | ⟨hne, hold⟩ := getElem?_set_cases hentry
  · exact hafter.2 pass cancelling hnew.symm
  · have hlast := hsingle.last i _ hrunning trivial
    have hlast' := hsingle.last j _ hold trivial
    omega

theorem uploads_step (hserver : S.Contract) (hsingle : s.Single) (h : s.Uploads)
    {a : FollowUpAct S} (horder : s.InOrder a)
    (hs : step sha256 endpointUrl assets s a = some t) : t.Uploads := by
  cases a with
  | init =>
    obtain rfl | ⟨-, hworld, -, -, -, htasks⟩ := init_cases hs
    · exact h
    · refine ⟨hworld ▸ h.clean, fun i pass cancelling hi => ?_⟩
      rw [hworld]
      obtain hold | ⟨-, hnew⟩ := htasks i _ hi
      · exact h.ready i pass cancelling hold
      · cases hnew
  | ends i stageEnd => exact uploads_ends hsingle h horder hs
  | tearDown =>
    obtain ⟨hworld, -, -, -, htasks⟩ := tearDown_cases hs
    refine ⟨hworld ▸ h.clean, fun i pass cancelling hi => ?_⟩
    rw [hworld]
    obtain ⟨-, hold⟩ | ⟨-, f, hf, hcancel⟩ := htasks i _ hi
    · exact h.ready i pass cancelling hold
    · obtain ⟨-, before, rfl⟩ := running_cancel hcancel.symm
      exact h.ready i pass before hf
  | cancelled i =>
    obtain rfl := cancelled_cases hs
    refine ⟨h.clean, fun j pass cancelling hj => ?_⟩
    obtain ⟨-, hnew⟩ | ⟨-, hold⟩ := getElem?_set_cases hj
    · cases hnew
    · exact h.ready j pass cancelling hold
  | write path content =>
    obtain rfl := Option.some.inj hs
    exact ⟨h.clean, h.ready⟩
  | handle k =>
    obtain rfl := Option.some.inj hs
    exact ⟨h.clean.handle hserver k, fun i pass cancelling hi =>
      AssetPass.ready_handle (h.ready i pass cancelling hi) (horder i pass cancelling hi) k⟩
  | lose k =>
    obtain rfl := Option.some.inj hs
    exact ⟨h.clean.lose k, fun i pass cancelling hi =>
      AssetPass.ready_lose (h.ready i pass cancelling hi) k⟩
  | elsewhere request =>
    obtain rfl := Option.some.inj hs
    exact ⟨h.clean.elsewhere hserver request, h.ready⟩

/-- Over any server that holds what it created and forgets nothing, in any run that handles no
`Init` once it tears down and in which what the app asked the server to record is handled in order,
or lost: at most one follow-up runs, and none does once one returned; the app records each asset at
most once, however often follow-ups failed and answers were lost, and only with a store that was
granted for it and filled. -/
theorem recorded_once (hserver : S.Contract) {server : S.State}
    {files : String → Except String (List UInt8)} {acts : List (FollowUpAct S)}
    (hrun : exec (step sha256 endpointUrl assets) (start server files) acts = some s)
    (hintime : Meets (step sha256 endpointUrl assets) InTime (start server files) acts)
    (horder : Meets (step sha256 endpointUrl assets) InOrder (start server files) acts) :
    s.world.Clean ∧ ∀ (i j : ℕ) (f g : FollowUp S), s.tasks[i]? = some f → s.tasks[j]? = some g →
      f.Live → g.Live → i = j := by
  have hboth : Meets (step sha256 endpointUrl assets) (fun s a => InTime s a ∧ InOrder s a)
      (start server files) acts := by
    intro pre a post t hacts ht
    exact ⟨hintime pre a post t hacts ht, horder pre a post t hacts ht⟩
  have hsound : s.Single ∧ s.Uploads := by
    refine exec_invariant_of_meets (I := fun s : FollowUps S => s.Single ∧ s.Uploads)
      ⟨single_start server files, uploads_start server files⟩ ?_ hboth hrun
    rintro s a t ⟨hsingle, huploads⟩ ⟨htime, hord⟩ ht
    exact ⟨single_step hsingle htime ht, uploads_step hserver hsingle huploads hord ht⟩
  refine ⟨hsound.2.clean, fun i j f g hi hj hf hg => ?_⟩
  have hlast := hsound.1.last i f hi hf
  have hlast' := hsound.1.last j g hj hg
  omega

/-- A server that keeps the references of what was created. -/
def listingServer : AssetServer where
  State := List String
  Request := String
  holds held ref := held.contains ref
  createAsset held ref _ := held ++ [ref]
  other held ref := held ++ [ref]

theorem contract_listingServer : listingServer.Contract := by
  refine ⟨fun held ref _ => ?_, fun held _ _ ref h => ?_, fun held _ ref h => ?_⟩
  · exact List.contains_iff_mem.mpr (List.mem_append_right _ (List.mem_singleton_self ref))
  · exact List.contains_iff_mem.mpr (List.mem_append_left _ (List.contains_iff_mem.mp h))
  · exact List.contains_iff_mem.mpr (List.mem_append_left _ (List.contains_iff_mem.mp h))

/-- One registered picture. -/
def logo : AssetDeclaration :=
  ⟨"logo", "image", "sha256:aa", some ⟨"/app/logo.png", "logo.png"⟩, ""⟩

/-- The answer to the `CreateAsset` cannot be read, and the next follow-up finds the asset held. -/
def answerLost : List (FollowUpAct listingServer) :=
  [.init, .ends 0 (.opened none), .ends 0 (.call (.found false)),
    .ends 0 (.call (.granted ⟨"media", "key", "store"⟩)), .ends 0 (.call .stored), .handle 0,
    .ends 0 (.call (.failed (.other "not JSON"))), .ends 0 (.closed none),
    .init, .ends 1 (.opened none), .ends 1 (.call (.found true)), .ends 1 (.closed none)]

theorem torn_step {a : FollowUpAct S} (hne : a ≠ .tearDown)
    (hs : step sha256 endpointUrl assets s a = some t) : t.torn = s.torn := by
  cases a with
  | init =>
    simp only [step] at hs
    split at hs
    all_goals
      obtain rfl := Option.some.inj hs
      rfl
  | ends i stageEnd =>
    obtain ⟨-, -, -, -, -, -, -, htorn, -⟩ := ends_cases hs
    exact htorn
  | tearDown => exact absurd rfl hne
  | cancelled i =>
    obtain rfl := cancelled_cases hs
    rfl
  | write | handle | lose | elsewhere =>
    obtain rfl := Option.some.inj hs
    rfl

/-- An agent that does not tear down handles every `Init` in time. -/
theorem meets_inTime {server : S.State} {files : String → Except String (List UInt8)}
    {acts : List (FollowUpAct S)} (hacts : ∀ a ∈ acts, a ≠ .tearDown) :
    Meets (step sha256 endpointUrl assets) InTime (start server files) acts := by
  rintro pre a post t rfl ht -
  refine exec_invariant_of_meets (C := fun _ a => a ≠ .tearDown)
    (I := fun t : FollowUps S => t.torn = false) rfl
    (fun s a t hs ha ht => (torn_step ha ht).trans hs) (meets_of_forall fun b hb _ => ?_) ht
  exact hacts b (List.mem_append_left _ hb)

/-- Nothing is overtaken while no request is on its way. -/
theorem inOrder_of_requests (a : FollowUpAct S) (h : s.world.requests = []) : s.InOrder a := by
  rintro i pass cancelling - ⟨-, hmem⟩
  rw [h] at hmem
  cases hmem

theorem recorded_once_answerLost : ∃ s,
    exec (step (fun _ => "aa") "http://minio" [logo]) (start [] fun _ => .ok [1]) answerLost
      = some s ∧ s.world.created = [("sha256:aa", "store")] ∧ s.world.Clean := by
  have hrun : ∃ s,
      exec (step (fun _ => "aa") "http://minio" [logo]) (start [] fun _ => .ok [1]) answerLost
        = some s ∧ s.world.created = [("sha256:aa", "store")] := ⟨_, rfl, rfl⟩
  obtain ⟨s, hs, hcreated⟩ := hrun
  refine ⟨s, hs, hcreated,
    (recorded_once contract_listingServer hs (meets_inTime fun a ha => ?_) ?_).1⟩
  · simp only [answerLost, List.mem_cons, List.not_mem_nil, or_false] at ha
    rcases ha with rfl | rfl | rfl | rfl | rfl | rfl | rfl | rfl | rfl | rfl | rfl | rfl
    all_goals
      rintro ⟨⟩
  · unfold answerLost
    iterate 5
      refine meets_cons (inOrder_of_requests _ rfl) fun t ht => ?_
      obtain rfl := Option.some.inj ht
    -- the request is on its way while the app waits for its answer
    refine meets_cons ?_ fun t ht => ?_
    · rintro i pass cancelling hi ⟨⟨since, hphase⟩, -⟩
      cases i with
      | zero =>
        cases hi
        cases hphase
      | succ i => cases hi
    obtain rfl := Option.some.inj ht
    iterate 6
      refine meets_cons (inOrder_of_requests _ rfl) fun t ht => ?_
      obtain rfl := Option.some.inj ht
    exact meets_nil _

end FollowUps

/-! ## Each on its own

An asset is settled when a pass leaves it, whatever came of it, and what happens later does not
unsettle it. A pass that returns went over all assets.
-/

/-- The assets a follow-up is through with are settled. -/
def FollowUp.Through (assets : List AssetDeclaration) (world : AssetWorld S) : FollowUp S → Prop
  | .running (.uploading pass) _ => (PassState.uploading pass).Through assets world
  | .running (.closing log none) _ => ∀ asset ∈ assets, Settled world log asset
  | .returned log => ∀ asset ∈ assets, Settled world log asset
  | _ => True

namespace FollowUps

variable {sha256 : List UInt8 → String} {endpointUrl : String} {assets : List AssetDeclaration}
  {s t : FollowUps S}

theorem through_mono {world world' : AssetWorld S} {f : FollowUp S} (h : f.Through assets world)
    (hworld : world.Grows world') : f.Through assets world' := by
  have hsettled : ∀ {log}, (∀ asset ∈ assets, Settled world log asset) →
      ∀ asset ∈ assets, Settled world' log asset :=
    fun h asset hasset => (h asset hasset).mono hworld fun _ hentry => hentry
  cases f with
  | running stage cancelling =>
    cases stage with
    | opening => exact trivial
    | uploading pass => exact AssetPass.through_stay h hworld rfl rfl rfl
    | closing log error =>
      cases error with
      | none => exact hsettled h
      | some text => exact trivial
  | returned log => exact hsettled h
  | failed log text => exact trivial
  | cancelled => exact trivial

theorem through_ofPass {world : AssetWorld S} {state : PassState S}
    (h : state.Through assets world) : (FollowUp.ofPass state).Through assets world := by
  cases state with
  | uploading pass => exact h
  | returned log => exact h
  | raised log text => exact trivial

theorem through_cancel {world : AssetWorld S} {f : FollowUp S} (h : f.Through assets world) :
    f.cancel.Through assets world := by
  cases f with
  | running stage cancelling =>
    cases stage with
    | opening => exact trivial
    | uploading pass => exact h
    | closing log error =>
      cases error with
      | none => exact h
      | some text => exact trivial
  | returned log => exact h
  | failed log text => exact trivial
  | cancelled => exact trivial

/-- What each follow-up is through with is settled, and what was created is held. -/
structure Tried (assets : List AssetDeclaration) (s : FollowUps S) : Prop where
  held : ∀ ref store, (ref, store) ∈ s.world.created → S.holds s.world.server ref
  through : ∀ (i : ℕ) (f : FollowUp S), s.tasks[i]? = some f → f.Through assets s.world

theorem tried_ends (h : s.Tried assets) {i : ℕ} {stageEnd : StageEnd}
    (hs : step sha256 endpointUrl assets s (.ends i stageEnd) = some t) : t.Tried assets := by
  obtain ⟨stage, world, f, hrunning, hstage, hworld, htasks, -, -⟩ := ends_cases hs
  have hafter : world.server = s.world.server ∧ world.created = s.world.created ∧
      f.Through assets world := by
    obtain ⟨-, rfl, rfl⟩ | ⟨pass, callEnd, state, rfl, hpass, rfl⟩ | ⟨log, rfl, rfl, rfl⟩ |
      ⟨log, text, rfl, rfl⟩ := stageStep_cases hstage
    · refine ⟨rfl, rfl, through_ofPass (through_nextAsset (List.nil_append assets).symm ?_)⟩
      rintro asset ⟨⟩
    · obtain ⟨hserver, hcreated, hthrough⟩ :=
        AssetPass.through_step h.held (h.through i _ hrunning) hpass
      exact ⟨hserver, hcreated, through_ofPass hthrough⟩
    · have hclosing := h.through i _ hrunning
      exact ⟨rfl, rfl, hclosing⟩
    · exact ⟨rfl, rfl, trivial⟩
  obtain ⟨hserver, hcreated, hthrough⟩ := hafter
  subst hworld
  refine ⟨fun ref store hmem => ?_, fun j g hj => ?_⟩
  · rw [hserver]
    rw [hcreated] at hmem
    exact h.held ref store hmem
  · rw [htasks] at hj
    obtain ⟨-, rfl⟩ | ⟨-, hold⟩ := getElem?_set_cases hj
    · exact hthrough
    · exact through_mono (h.through j g hold) (AssetWorld.grows_of_eq hserver)

theorem tried_step (hserver : S.Contract) (h : s.Tried assets) {a : FollowUpAct S}
    (hs : step sha256 endpointUrl assets s a = some t) : t.Tried assets := by
  cases a with
  | init =>
    obtain rfl | ⟨-, hworld, -, -, -, htasks⟩ := init_cases hs
    · exact h
    · refine ⟨hworld ▸ h.held, fun i f hi => ?_⟩
      rw [hworld]
      obtain hold | ⟨-, rfl⟩ := htasks i f hi
      · exact h.through i f hold
      · exact trivial
  | ends i stageEnd => exact tried_ends h hs
  | tearDown =>
    obtain ⟨hworld, -, -, -, htasks⟩ := tearDown_cases hs
    refine ⟨hworld ▸ h.held, fun i f hi => ?_⟩
    rw [hworld]
    obtain ⟨-, hold⟩ | ⟨-, g, hg, rfl⟩ := htasks i f hi
    · exact h.through i f hold
    · exact through_cancel (h.through i g hg)
  | cancelled i =>
    obtain rfl := cancelled_cases hs
    refine ⟨h.held, fun j f hj => ?_⟩
    obtain ⟨-, rfl⟩ | ⟨-, hold⟩ := getElem?_set_cases hj
    · exact trivial
    · exact h.through j f hold
  | write path content =>
    obtain rfl := Option.some.inj hs
    exact ⟨h.held, h.through⟩
  | handle k =>
    obtain rfl := Option.some.inj hs
    have hgrows := AssetWorld.grows_handle hserver s.world k
    exact ⟨AssetWorld.held_handle hserver h.held k, fun i f hi =>
      through_mono (h.through i f hi) hgrows⟩
  | lose k =>
    obtain rfl := Option.some.inj hs
    exact ⟨h.held, fun i f hi => through_mono (h.through i f hi) (AssetWorld.grows_of_eq rfl)⟩
  | elsewhere request =>
    obtain rfl := Option.some.inj hs
    have hgrows := AssetWorld.grows_elsewhere hserver s.world request
    exact ⟨fun ref store hmem => hgrows ref (h.held ref store hmem), fun i f hi =>
      through_mono (h.through i f hi) hgrows⟩

/-- Over any server that holds what it created and forgets nothing, in every run, whatever calls
fail, requests are late or lost, files change and tasks are cancelled: once a follow-up returned,
the server holds every asset that has a file, or the follow-up logged why not, each for itself. -/
theorem settled_of_returned (hserver : S.Contract) {server : S.State}
    {files : String → Except String (List UInt8)} {acts : List (FollowUpAct S)} {i : ℕ}
    {log : List AssetLog}
    (hrun : exec (step sha256 endpointUrl assets) (start server files) acts = some s)
    (hreturned : s.tasks[i]? = some (.returned log)) :
    ∀ asset ∈ assets, Settled s.world log asset := by
  have htried : s.Tried assets := by
    refine exec_invariant (I := Tried assets) ⟨?_, ?_⟩ (fun _ _ _ h ht => tried_step hserver h ht)
      hrun
    · rintro ref store ⟨⟩
    · rintro i f ⟨⟩
  exact htried.through i _ hreturned

/-- A picture that is not the file it was. -/
def changed : AssetDeclaration :=
  ⟨"icon", "image", "sha256:bb", some ⟨"/app/icon.png", "icon.png"⟩, ""⟩

/-- The connection is reset while the first is asked about, and the second goes. -/
theorem settled_of_returned_changedFile : ∃ s log,
    exec (step (S := listingServer) (fun _ => "aa") "http://minio" [changed, logo, changed])
      (start [] fun _ => .ok [1])
      [.init, .ends 0 (.opened none), .ends 0 (.call (.failed (.osError "connection reset"))),
        .ends 0 (.call (.found false)), .ends 0 (.call (.granted ⟨"media", "key", "store"⟩)),
        .ends 0 (.call .stored), .handle 0, .ends 0 (.call .created),
        .ends 0 (.call (.found false)), .ends 0 (.closed none)] = some s ∧
    s.tasks[0]? = some (.returned log) ∧ Settled s.world log changed ∧
    Settled s.world log logo := by
  have hrun : ∃ s log,
      exec (step (S := listingServer) (fun _ => "aa") "http://minio" [changed, logo, changed])
        (start [] fun _ => .ok [1])
        [.init, .ends 0 (.opened none), .ends 0 (.call (.failed (.osError "connection reset"))),
          .ends 0 (.call (.found false)), .ends 0 (.call (.granted ⟨"media", "key", "store"⟩)),
          .ends 0 (.call .stored), .handle 0, .ends 0 (.call .created),
          .ends 0 (.call (.found false)), .ends 0 (.closed none)] = some s ∧
      s.tasks[0]? = some (.returned log) := ⟨_, _, rfl, rfl⟩
  obtain ⟨s, log, hs, hreturned⟩ := hrun
  have hsettled := settled_of_returned contract_listingServer hs hreturned
  exact ⟨s, log, hs, hreturned, hsettled changed (by simp), hsettled logo (by simp)⟩

end FollowUps

end Rekuest
