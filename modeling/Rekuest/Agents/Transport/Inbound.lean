import Rekuest.Agents.Transport.Reconnect

/-!
# Inbound frames

`_ahandle_inbound` of `rekuest/agents/transport/websocket.py` over the text frames of one
connection. No frame ends the receive loop but a `Bounce`, a `Kick` and one it cannot answer: the
task of an unreadable `Assign` goes into the `Critical` as it was read, and JSON escapes can spell
strings that have no UTF-8 form to send.
-/

namespace Rekuest

/-- A character of a Python string: any code point, also half of a surrogate pair. -/
abbrev CodePoint := Fin 0x110000

/-- A Python string. -/
abbrev PyStr := List CodePoint

/-- Half of a surrogate pair. -/
def CodePoint.IsSurrogate (c : CodePoint) : Prop := 0xD800 ≤ c.val ∧ c.val < 0xE000

instance (c : CodePoint) : Decidable c.IsSurrogate :=
  inferInstanceAs (Decidable (_ ∧ _))

/-- The string has a UTF-8 form. -/
def PyStr.Encodable (s : PyStr) : Prop := ∀ c ∈ s, ¬ CodePoint.IsSurrogate c

instance (s : PyStr) : Decidable (PyStr.Encodable s) :=
  List.decidableBAll (fun c => ¬ CodePoint.IsSurrogate c) s

theorem toNat_lt_codePoints (c : Char) : c.toNat < 0x110000 := by
  have hvalid := c.valid
  simp only [UInt32.isValidChar, Nat.isValidChar] at hvalid
  change c.val.toNat < 0x110000
  omega

/-- A literal of the source. -/
def pyStr (s : String) : PyStr := s.toList.map fun c => ⟨c.toNat, toNat_lt_codePoints c⟩

/-- What `json.loads` returns; an object is its fields, with distinct names, and a number is kept
as it was written. -/
inductive PyJson
  | null
  | bool (b : Bool)
  | num (text : String)
  | str (s : PyStr)
  | arr (items : List PyJson)
  | obj (fields : List (PyStr × PyJson))

namespace PyJson

/-- `isinstance(raw, str)`. -/
def asStr : PyJson → Option PyStr
  | .str s => some s
  | _ => none

/-- `raw.get(name)`, of an object. -/
def get (fields : List (PyStr × PyJson)) (name : String) : Option PyJson :=
  (fields.find? fun field => field.1 = pyStr name).map Prod.snd

/-- The task of a JSON object of type `ASSIGN` whose task is a string. -/
def assignTask : PyJson → Option PyStr
  | .obj fields =>
    if (get fields "type").bind asStr = some (pyStr "ASSIGN") then (get fields "task").bind asStr
    else none
  | _ => none

end PyJson

/-- `messages.ToAgentMessage`, as the receive loop tells its members apart. -/
inductive ToAgentMessage (μ : Type)
  | heartbeat
  | bounce
  | kick
  | other (message : μ)

/-- What the receive loop answers a frame with. -/
inductive InboundAnswer
  /-- `messages.HeartbeatEvent()`. -/
  | heartbeatEvent
  /-- `messages.Critical(task=task, error=error)`. -/
  | critical (task : PyStr) (error : String)
deriving DecidableEq

/-- Every string of the answer has a UTF-8 form. -/
def InboundAnswer.Encodable : InboundAnswer → Prop
  | .heartbeatEvent => True
  | .critical task _ => task.Encodable

/-- The libraries the receive loop reads and writes frames with. -/
structure FrameLibrary (μ : Type) where
  /-- `json.loads`; `none` where it raises a `ValueError`. -/
  loads : String → Option PyJson
  /-- `InMessagePayload(message=raw)`; the number of errors where it raises a `ValidationError`. -/
  validate : PyJson → Except ℕ (ToAgentMessage μ)
  /-- `model_dump_json()`; the text of the exception where it raises one. -/
  dumps : InboundAnswer → Except String String

/-- What the loop relies on. -/
structure FrameLibrary.Documented {μ : Type} (lib : FrameLibrary μ) : Prop where
  /-- The payload is discriminated by `type`: of that of an `Assign` it is an `Assign`. -/
  assign : ∀ raw message, lib.validate raw = .ok message → raw.assignTask ≠ none →
    ∃ assign, message = .other assign
  /-- A message is written as UTF-8. -/
  dumps : ∀ answer, (∃ text, lib.dumps answer = .ok text) ↔ answer.Encodable

/-- The two queues of a connection: `_in_queue`, and what is appended to `_send_queue`. -/
structure Receiver (μ : Type) where
  inQueue : List μ
  sendQueue : List String

namespace Receiver

variable {μ : Type} (lib : FrameLibrary μ)

/-- `asend`. -/
def asend (r : Receiver μ) (answer : InboundAnswer) : Except Raised (Receiver μ) :=
  match lib.dumps answer with
  | .ok text => .ok { r with sendQueue := r.sendQueue ++ [text] }
  | .error text => .error (.other text)

/-- The error of the `Critical` for an unreadable `Assign`. -/
def unreadable (errorCount : ℕ) : String :=
  "The agent could not read this Assign (protocol mismatch?): " ++ toString errorCount
    ++ " validation error(s)"

/-- `_arefuse_unreadable_assign`. -/
def arefuseUnreadableAssign (r : Receiver μ) (raw : PyJson) (errorCount : ℕ) :
    Except Raised (Receiver μ) :=
  match raw with
  | .obj fields =>
    match PyJson.get fields "type", PyJson.get fields "task" with
    | some (.str type), some (.str task) =>
      if type = pyStr "ASSIGN" then asend lib r (.critical task (unreadable errorCount))
      else .ok r
    | _, _ => .ok r
  | _ => .ok r

/-- `_ahandle_inbound`. -/
def ahandleInbound (r : Receiver μ) (frame : String) : Except Raised (Receiver μ) :=
  match lib.loads frame with
  | none => .ok r
  | some raw =>
    match lib.validate raw with
    | .error errorCount => arefuseUnreadableAssign lib r raw errorCount
    | .ok .heartbeat => asend lib r .heartbeatEvent
    | .ok .bounce => .error .bounce
    | .ok .kick => .error .kick
    | .ok (.other message) => .ok { r with inQueue := r.inQueue ++ [message] }

/-- `async for message in client`, until a frame raises. -/
def receiveLoop (r : Receiver μ) : List String → Receiver μ × Option Raised
  | [] => (r, none)
  | frame :: frames =>
    match ahandleInbound lib r frame with
    | .ok r => receiveLoop r frames
    | .error raised => (r, some raised)

/-! ## What the frames ask for -/

/-- The frame conforms to the schema, as `message`. -/
def Conforms (frame : String) (message : ToAgentMessage μ) : Prop :=
  ∃ raw, lib.loads frame = some raw ∧ lib.validate raw = .ok message

/-- The message of a conforming frame that is for the agent. -/
def handedOn (frame : String) : Option μ :=
  (lib.loads frame).bind fun raw =>
    match lib.validate raw with
    | .ok (.other message) => some message
    | _ => none

/-- The answer to a heartbeat, and to an `Assign` with a task that does not conform. -/
def answerTo (frame : String) : Option InboundAnswer :=
  (lib.loads frame).bind fun raw =>
    match lib.validate raw with
    | .ok .heartbeat => some .heartbeatEvent
    | .ok _ => none
    | .error errorCount =>
      raw.assignTask.map fun task => .critical task (unreadable errorCount)

/-- The frame is a JSON object of type `ASSIGN`, with `task` a string. -/
def IsAssign (frame : String) (task : PyStr) : Prop :=
  ∃ raw, lib.loads frame = some raw ∧ raw.assignTask = some task

/-- All frames are processed: the messages for the agent are handed on, once each and in order,
every heartbeat is answered once, and so is every `Assign` that is not handed on, by a `Critical`
for its task; nothing else is. -/
structure HandlesAll (r : Receiver μ) (frames : List String) : Prop where
  all : (receiveLoop lib r frames).2 = none
  handed : (receiveLoop lib r frames).1.inQueue = r.inQueue ++ frames.filterMap (handedOn lib)
  answered : ∃ texts, (receiveLoop lib r frames).1.sendQueue = r.sendQueue ++ texts ∧
    (frames.filterMap (answerTo lib)).map lib.dumps = texts.map .ok
  heartbeat : ∀ frame ∈ frames, answerTo lib frame = some .heartbeatEvent
    ↔ Conforms lib frame .heartbeat
  assign : ∀ frame ∈ frames, ∀ task, IsAssign lib frame task →
    ((handedOn lib frame).isSome ∧ answerTo lib frame = none) ∨
      (handedOn lib frame = none ∧ ∃ error, answerTo lib frame = some (.critical task error))
  critical : ∀ frame ∈ frames, ∀ task error,
    answerTo lib frame = some (.critical task error) → IsAssign lib frame task

variable {lib} {r : Receiver μ} {frame : String} {frames : List String} {answer : InboundAnswer}

/-! ## One frame -/

theorem arefuseUnreadableAssign_of_none {raw : PyJson} {errorCount : ℕ}
    (h : raw.assignTask = none) : arefuseUnreadableAssign lib r raw errorCount = .ok r := by
  rw [arefuseUnreadableAssign.eq_def]
  split
  · split
    · rename_i fields _ _ type task htype htask
      rw [if_neg]
      rintro rfl
      simp [PyJson.assignTask, htype, htask, PyJson.asStr] at h
    · rfl
  · rfl

theorem arefuseUnreadableAssign_of_some {raw : PyJson} {errorCount : ℕ} {task : PyStr}
    (h : raw.assignTask = some task) : arefuseUnreadableAssign lib r raw errorCount
      = asend lib r (.critical task (unreadable errorCount)) := by
  cases raw with
  | obj fields =>
    rw [PyJson.assignTask] at h
    split at h
    · rename_i htype
      obtain ⟨type, hget, htype⟩ := Option.bind_eq_some_iff.mp htype
      obtain ⟨value, hget', htask⟩ := Option.bind_eq_some_iff.mp h
      cases type <;> cases htype
      cases value <;> cases htask
      simp [arefuseUnreadableAssign, hget, hget']
    · cases h
  | _ => cases h

/-- A frame that asks for no answer hands on its message, if it has one. -/
theorem ahandleInbound_of_none (hbounce : ¬ Conforms lib frame .bounce)
    (hkick : ¬ Conforms lib frame .kick) (h : answerTo lib frame = none) :
    ahandleInbound lib r frame
      = .ok { r with inQueue := r.inQueue ++ (handedOn lib frame).toList } := by
  rw [ahandleInbound]
  cases hloads : lib.loads frame with
  | none => simp [handedOn, hloads]
  | some raw =>
    simp only
    cases hvalid : lib.validate raw with
    | error errorCount =>
      have hnone : raw.assignTask = none := by simpa [answerTo, hloads, hvalid] using h
      simp [handedOn, hloads, hvalid, arefuseUnreadableAssign_of_none hnone]
    | ok message =>
      cases message with
      | heartbeat => simp [answerTo, hloads, hvalid] at h
      | bounce => exact absurd ⟨raw, hloads, hvalid⟩ hbounce
      | kick => exact absurd ⟨raw, hloads, hvalid⟩ hkick
      | other message => simp [handedOn, hloads, hvalid]

/-- A frame that asks for an answer is not handed on; its answer is sent. -/
theorem ahandleInbound_of_answer (h : answerTo lib frame = some answer) :
    ahandleInbound lib r frame = asend lib r answer ∧ handedOn lib frame = none := by
  obtain ⟨raw, hloads, h⟩ := Option.bind_eq_some_iff.mp h
  rw [ahandleInbound, handedOn, hloads]
  simp only [Option.bind_some]
  cases hvalid : lib.validate raw with
  | error errorCount =>
    rw [hvalid] at h
    obtain ⟨task, htask, rfl⟩ := Option.map_eq_some_iff.mp h
    exact ⟨arefuseUnreadableAssign_of_some htask, rfl⟩
  | ok message =>
    rw [hvalid] at h
    cases message with
    | heartbeat =>
      obtain rfl := Option.some.inj h
      exact ⟨rfl, rfl⟩
    | bounce => cases h
    | kick => cases h
    | other message => cases h

/-! ## The loop

The loop goes on from frame to frame until one asks it to end, or an answer cannot be written.
-/

/-- The loop goes through frames whose answers can all be written. -/
theorem receiveLoop_eq (hquiet : ∀ frame ∈ frames,
      ¬ Conforms lib frame .bounce ∧ ¬ Conforms lib frame .kick)
    (hwritten : ∀ frame ∈ frames, ∀ answer, answerTo lib frame = some answer →
      ∃ text, lib.dumps answer = .ok text) :
    ∃ texts, (frames.filterMap (answerTo lib)).map lib.dumps = texts.map .ok ∧
      receiveLoop lib r frames = (⟨r.inQueue ++ frames.filterMap (handedOn lib),
        r.sendQueue ++ texts⟩, none) := by
  induction frames generalizing r with
  | nil => exact ⟨[], rfl, by simp [receiveLoop]⟩
  | cons frame frames ih =>
    obtain ⟨hbounce, hkick⟩ := hquiet frame List.mem_cons_self
    have ih := fun r => ih (r := r) (fun f hf => hquiet f (List.mem_cons_of_mem _ hf))
      fun f hf => hwritten f (List.mem_cons_of_mem _ hf)
    cases hanswer : answerTo lib frame with
    | none =>
      obtain ⟨texts, htexts, hloop⟩ :=
        ih { r with inQueue := r.inQueue ++ (handedOn lib frame).toList }
      refine ⟨texts, by simpa [hanswer] using htexts, ?_⟩
      rw [receiveLoop, ahandleInbound_of_none hbounce hkick hanswer]
      refine hloop.trans ?_
      cases hhanded : handedOn lib frame <;> simp [hhanded]
    | some answer =>
      obtain ⟨text, htext⟩ := hwritten frame List.mem_cons_self answer hanswer
      obtain ⟨hhandles, hhanded⟩ := ahandleInbound_of_answer (r := r) hanswer
      obtain ⟨texts, htexts, hloop⟩ := ih { r with sendQueue := r.sendQueue ++ [text] }
      refine ⟨text :: texts, by simpa [hanswer, htext] using htexts, ?_⟩
      rw [receiveLoop, hhandles, asend, htext]
      refine hloop.trans ?_
      simp [hhanded]

/-- Where the loop goes through all frames, every answer was written. -/
theorem written_of_all (hall : (receiveLoop lib r frames).2 = none) :
    ∀ frame ∈ frames, ∀ answer, answerTo lib frame = some answer →
      ∃ text, lib.dumps answer = .ok text := by
  induction frames generalizing r with
  | nil => rintro frame ⟨⟩
  | cons frame frames ih =>
    rw [receiveLoop] at hall
    split at hall
    · rename_i r' hr'
      intro f hf answer hanswer
      rcases List.mem_cons.mp hf with rfl | hf
      · rw [(ahandleInbound_of_answer hanswer).1, asend] at hr'
        cases hdumps : lib.dumps answer with
        | ok text => exact ⟨text, rfl⟩
        | error text =>
          rw [hdumps] at hr'
          cases hr'
      · exact ih hall f hf answer hanswer
    · cases hall

/-- What a frame asks for, told from the frame. -/
theorem answerTo_cases (hdocumented : lib.Documented) (frame : String) :
    (answerTo lib frame = some .heartbeatEvent ↔ Conforms lib frame .heartbeat) ∧
    (∀ task, IsAssign lib frame task →
      ((handedOn lib frame).isSome ∧ answerTo lib frame = none) ∨
        (handedOn lib frame = none ∧ ∃ error, answerTo lib frame = some (.critical task error))) ∧
    ∀ task error, answerTo lib frame = some (.critical task error) → IsAssign lib frame task := by
  cases hloads : lib.loads frame with
  | none => simp [answerTo, Conforms, IsAssign, hloads]
  | some raw =>
    cases hvalid : lib.validate raw with
    | error errorCount =>
      have hanswer : answerTo lib frame
          = raw.assignTask.map fun task => .critical task (unreadable errorCount) := by
        simp [answerTo, hloads, hvalid]
      have hhanded : handedOn lib frame = none := by simp [handedOn, hloads, hvalid]
      rw [hanswer, hhanded]
      refine ⟨?_, ?_, ?_⟩
      · simp [Conforms, hloads, hvalid]
      · rintro task ⟨raw', hraw', htask⟩
        obtain rfl := Option.some.inj (hloads.symm.trans hraw')
        exact Or.inr ⟨rfl, _, by rw [htask]; rfl⟩
      · intro task error hcritical
        obtain ⟨task', htask', heq⟩ := Option.map_eq_some_iff.mp hcritical
        obtain ⟨rfl, -⟩ := InboundAnswer.critical.inj heq
        exact ⟨raw, hloads, htask'⟩
    | ok message =>
      refine ⟨?_, ?_, ?_⟩
      · cases message <;> simp [answerTo, Conforms, hloads, hvalid]
      · rintro task ⟨raw', hraw', htask⟩
        obtain rfl := Option.some.inj (hloads.symm.trans hraw')
        obtain ⟨assign, rfl⟩ := hdocumented.assign raw message hvalid (by rw [htask]; rintro ⟨⟩)
        exact Or.inl ⟨by simp [handedOn, hloads, hvalid], by simp [answerTo, hloads, hvalid]⟩
      · intro task error hcritical
        cases message <;> simp [answerTo, hloads, hvalid] at hcritical

/-- Frames without a `Bounce` or a `Kick` are all handled, exactly where no `Assign` among them that
cannot be read names a task that has no UTF-8 form. -/
theorem handlesAll_iff (lib : FrameLibrary μ) (hdocumented : lib.Documented) (r : Receiver μ)
    (frames : List String) (hquiet : ∀ frame ∈ frames,
      ¬ Conforms lib frame .bounce ∧ ¬ Conforms lib frame .kick) :
    HandlesAll lib r frames ↔ ∀ frame ∈ frames, ∀ raw errorCount task,
      lib.loads frame = some raw → lib.validate raw = .error errorCount →
        raw.assignTask = some task → task.Encodable := by
  constructor
  · intro h frame hframe raw errorCount task hloads hvalid htask
    have hanswer : answerTo lib frame = some (.critical task (unreadable errorCount)) := by
      simp [answerTo, hloads, hvalid, htask]
    exact (hdocumented.dumps _).mp (written_of_all h.all frame hframe _ hanswer)
  · intro h
    have hwritten : ∀ frame ∈ frames, ∀ answer, answerTo lib frame = some answer →
        ∃ text, lib.dumps answer = .ok text := by
      intro frame hframe answer hanswer
      refine (hdocumented.dumps answer).mpr ?_
      obtain ⟨raw, hloads, hanswer⟩ := Option.bind_eq_some_iff.mp hanswer
      cases hvalid : lib.validate raw with
      | error errorCount =>
        rw [hvalid] at hanswer
        obtain ⟨task, htask, rfl⟩ := Option.map_eq_some_iff.mp hanswer
        exact h frame hframe raw errorCount task hloads hvalid htask
      | ok message =>
        rw [hvalid] at hanswer
        cases message <;> cases hanswer
        trivial
    obtain ⟨texts, htexts, hloop⟩ := receiveLoop_eq (r := r) hquiet hwritten
    refine ⟨by rw [hloop], by rw [hloop], ⟨texts, by rw [hloop], htexts⟩, ?_, ?_, ?_⟩
    · exact fun frame _ => (answerTo_cases hdocumented frame).1
    · exact fun frame _ => (answerTo_cases hdocumented frame).2.1
    · exact fun frame _ => (answerTo_cases hdocumented frame).2.2

/-! ## A library that reads a few frames -/

def heartbeatFrame : String := "\x7b\"type\": \"HEARTBEAT\"\x7d"

def initFrame : String := "\x7b\"type\": \"INIT\", \"agent\": \"a\"\x7d"

/-- An `Assign` without its other fields. -/
def bareAssignFrame : String := "\x7b\"type\": \"ASSIGN\", \"task\": \"t\"\x7d"

/-- The same, for a task spelled as half of a surrogate pair. -/
def loneSurrogateFrame : String := "\x7b\"type\": \"ASSIGN\", \"task\": \"\\ud800\"\x7d"

/-- The fields a frame has its `type` and one more string in. -/
def typed (type name : String) (value : PyStr) : PyJson :=
  .obj [(pyStr "type", .str (pyStr type)), (pyStr name, .str value)]

/-- The characters of a string that has a UTF-8 form. -/
def PyStr.chars (s : PyStr) : String := String.ofList (s.map fun c => Char.ofNat c.val)

/-- What an `Assign` requires besides its type and its task. -/
def assignFields : List String :=
  ["interface", "args", "user", "org", "action", "implementation"]

/-- What `model_dump_json` raises of a task that is half of a surrogate pair. -/
def surrogateError : String := "Error serializing to JSON: UnicodeEncodeError: 'utf-8' codec " ++
  "can't encode character '\\ud800' in position 0: surrogates not allowed"

/-- `json.loads`, the schema and `model_dump_json`, as far as these frames need them; every message
gets the same id. -/
def fewFrames : FrameLibrary String where
  loads frame :=
    if frame = heartbeatFrame then some (.obj [(pyStr "type", .str (pyStr "HEARTBEAT"))])
    else if frame = initFrame then some (typed "INIT" "agent" (pyStr "a"))
    else if frame = bareAssignFrame then some (typed "ASSIGN" "task" (pyStr "t"))
    else if frame = loneSurrogateFrame then some (typed "ASSIGN" "task" [0xD800])
    else none
  validate
    | .obj fields =>
      let type := (PyJson.get fields "type").bind PyJson.asStr
      if type = some (pyStr "HEARTBEAT") then .ok .heartbeat
      else if type = some (pyStr "INIT") then .ok (.other "INIT")
      else if type = some (pyStr "ASSIGN") then
        match assignFields.countP fun name => (PyJson.get fields name).isNone with
        | 0 => .ok (.other "ASSIGN")
        | missing => .error missing
      else .error 1
    | _ => .error 1
  dumps
    | .heartbeatEvent => .ok "\x7b\"type\":\"HEARTBEAT_ANSWER\",\"id\":\"f-1\"\x7d"
    | .critical task error =>
      if task.Encodable then
        .ok ("\x7b\"type\":\"CRITICAL\",\"id\":\"f-1\",\"task\":\"" ++ PyStr.chars task
          ++ "\",\"error\":\"" ++ error ++ "\",\"pos\":null,\"journal_session\":null,"
          ++ "\"agent_ts\":null,\"task_step\":null\x7d")
      else .error surrogateError

theorem fewFrames_documented : fewFrames.Documented where
  assign := by
    intro raw message hvalid htask
    cases raw with
    | obj fields =>
      have htype : (PyJson.get fields "type").bind PyJson.asStr = some (pyStr "ASSIGN") := by
        by_contra hne
        exact htask (by rw [PyJson.assignTask, if_neg hne])
      simp only [fewFrames, htype] at hvalid
      rw [if_neg (by decide), if_neg (by decide), if_pos trivial] at hvalid
      split at hvalid
      · exact ⟨"ASSIGN", (Except.ok.inj hvalid).symm⟩
      · cases hvalid
    | _ => cases hvalid
  dumps := by
    rintro (_ | ⟨task, error⟩)
    · exact iff_of_true ⟨_, rfl⟩ trivial
    · simp only [fewFrames, InboundAnswer.Encodable]
      split
      · rename_i hencodable
        exact iff_of_true ⟨_, rfl⟩ hencodable
      · rename_i hencodable
        exact iff_of_false (by rintro ⟨text, ⟨⟩⟩) hencodable

theorem fewFrames_quiet (frame : String) :
    ¬ Conforms fewFrames frame .bounce ∧ ¬ Conforms fewFrames frame .kick := by
  have hnever : ∀ raw,
      fewFrames.validate raw ≠ .ok .bounce ∧ fewFrames.validate raw ≠ .ok .kick := by
    intro raw
    cases raw with
    | obj fields =>
      simp only [fewFrames]
      split
      · exact ⟨by rintro ⟨⟩, by rintro ⟨⟩⟩
      · split
        · exact ⟨by rintro ⟨⟩, by rintro ⟨⟩⟩
        · split
          · split
            · exact ⟨by rintro ⟨⟩, by rintro ⟨⟩⟩
            · exact ⟨by rintro ⟨⟩, by rintro ⟨⟩⟩
          · exact ⟨by rintro ⟨⟩, by rintro ⟨⟩⟩
    | _ => exact ⟨by rintro ⟨⟩, by rintro ⟨⟩⟩
  constructor <;> rintro ⟨raw, -, h⟩
  · exact (hnever raw).1 h
  · exact (hnever raw).2 h

/-- What the library reads in the frames. -/
theorem fewFrames_loads : fewFrames.loads "not json" = none ∧
    fewFrames.loads heartbeatFrame = some (.obj [(pyStr "type", .str (pyStr "HEARTBEAT"))]) ∧
    fewFrames.loads initFrame = some (typed "INIT" "agent" (pyStr "a")) ∧
    fewFrames.loads bareAssignFrame = some (typed "ASSIGN" "task" (pyStr "t")) ∧
    fewFrames.loads loneSurrogateFrame = some (typed "ASSIGN" "task" [0xD800]) := by
  simp [fewFrames, heartbeatFrame, initFrame, bareAssignFrame, loneSurrogateFrame]

theorem handlesAll_iff_bareAssign :
    HandlesAll fewFrames ⟨[], []⟩ ["not json", heartbeatFrame, bareAssignFrame, initFrame] := by
  refine (handlesAll_iff fewFrames fewFrames_documented _ _
    fun frame _ => fewFrames_quiet frame).mpr ?_
  obtain ⟨hgarbled, hheartbeat, hinit, hassign, -⟩ := fewFrames_loads
  intro frame hframe raw errorCount task hloads _ htask
  have htext : task = pyStr "t" := by
    simp only [List.mem_cons, List.not_mem_nil, or_false] at hframe
    obtain rfl | rfl | rfl | rfl := hframe
    · rw [hgarbled] at hloads
      cases hloads
    · rw [hheartbeat] at hloads
      cases hloads
      cases htask
    · rw [hassign] at hloads
      cases hloads
      cases htask
      rfl
    · rw [hinit] at hloads
      cases hloads
      cases htask
  rw [htext]
  decide

/-- The frame after an `Assign` for a task without a UTF-8 form is not received: the failure is
definite. -/
theorem lone_surrogate_is_fatal :
    ∃ raised, receiveLoop fewFrames ⟨[], []⟩ [loneSurrogateFrame, initFrame]
        = (⟨[], []⟩, some raised) ∧
      raised.classify = .definite ⟨.definiteConnectionFail, surrogateError⟩ ∧
      ¬ HandlesAll fewFrames ⟨[], []⟩ [loneSurrogateFrame, initFrame] := by
  have htask : (typed "ASSIGN" "task" [0xD800]).assignTask = some [0xD800] := rfl
  have hanswer : answerTo fewFrames loneSurrogateFrame
      = some (.critical [0xD800] (unreadable 6)) := by
    rw [answerTo, fewFrames_loads.2.2.2.2]
    rfl
  have hdumps : fewFrames.dumps (.critical [0xD800] (unreadable 6))
      = .error surrogateError := by
    have hencodable : ¬ PyStr.Encodable [0xD800] := by decide
    simp only [fewFrames, if_neg hencodable]
  have hloop : receiveLoop fewFrames ⟨[], []⟩ [loneSurrogateFrame, initFrame]
      = (⟨[], []⟩, some (.other surrogateError)) := by
    rw [receiveLoop, (ahandleInbound_of_answer hanswer).1, asend, hdumps]
  refine ⟨_, hloop, rfl, fun h => ?_⟩
  have hall := h.all
  rw [hloop] at hall
  cases hall

end Receiver

end Rekuest
