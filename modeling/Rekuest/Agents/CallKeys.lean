import Rekuest.Lib.Dict
import Rekuest.Lib.Occurrences

/-!
# Derived call keys

What `AgentPostman` of `rekuest/agents/caller.py` calls a child its parent gave no key: the target,
a digest of the args, and how often the parent has made that call. A resumed workflow finds its
children again by these keys.
-/

namespace Rekuest

/-- How args are digested: `json.dumps(args, sort_keys=True, default=str)`, and the hex digest of
`hashlib.sha256`, which has 64 digits. -/
structure CallHash (Args : Type*) where
  dumps : Args → String
  sha256 : String → String
  length_sha256 : ∀ text, (sha256 text).toList.length = 64

/-- `_occurrences`: by parent and call, how often the parent has made that call. -/
abbrev CallOccurrences := Dict (String × String) ℕ

/-- The first eight digits of the digest. -/
def CallHash.digest {Args : Type*} (hash : CallHash Args) (args : Args) : String :=
  String.ofList ((hash.sha256 (hash.dumps args)).toList.take 8)

/-- The call a key is derived for: its target and the digest of its args. -/
def callBase {Args : Type*} (hash : CallHash Args) (call : String × Args) : String :=
  call.1 ++ ":" ++ hash.digest call.2

theorem CallHash.length_digest {Args : Type*} (hash : CallHash Args) (args : Args) :
    (hash.digest args).toList.length = 8 := by
  simp [digest, hash.length_sha256]

/-- Digests have one length, so the target and the digest can be read back from a base. -/
theorem callBase_inj {Args : Type*} {hash : CallHash Args} {call call' : String × Args} :
    callBase hash call = callBase hash call'
      ↔ call.1 = call'.1 ∧ hash.digest call.2 = hash.digest call'.2 := by
  refine ⟨fun h => ?_, fun h => by rw [callBase, callBase, h.1, h.2]⟩
  have hlist := congrArg String.toList h
  simp only [callBase, String.toList_append] at hlist
  obtain ⟨htarget, hdigest⟩ := List.append_inj' hlist (by simp only [CallHash.length_digest])
  exact ⟨String.toList_injective (List.append_cancel_right htarget),
    String.toList_injective hdigest⟩

/-- Bases tell the calls of a run apart, where digests tell their args apart. -/
theorem injOn_callBase {Args : Type*} {hash : CallHash Args} {calls : List (String × Args)}
    (hdigest : Set.InjOn hash.digest {args | ∃ call ∈ calls, call.2 = args}) :
    Set.InjOn (callBase hash) {call | call ∈ calls} := by
  intro call hcall call' hcall' h
  obtain ⟨htarget, hargs⟩ := callBase_inj.mp h
  exact Prod.ext htarget (hdigest ⟨call, hcall, rfl⟩ ⟨call', hcall', rfl⟩ hargs)

/-- Args that are numbers by name, already sorted, with the digests of `\x7b\x7d` and of
`\x7b"x": 1\x7d`. -/
def numberArgsHash : CallHash (List (String × ℕ)) where
  dumps args := "\x7b" ++ ", ".intercalate (args.map fun e => "\"" ++ e.1 ++ "\": " ++ toString e.2)
    ++ "\x7d"
  sha256 text :=
    if text = "\x7b\"x\": 1\x7d" then
      "613fe5aa65343dbb1b9abe6abac6773f5c91bd60d3f2ffb7e2eae69e1db8b227"
    else "44136fa355b3678a1146ad16f7e8649e94fb4fc21fe77e8310c060f61caaff8a"
  length_sha256 text := by split <;> rfl

section

variable {Args : Type*} [EmptyCollection Args] (hash : CallHash Args)

/-- `forget_parent`. -/
def CallOccurrences.forgetParent (o : CallOccurrences) (parent : String) : CallOccurrences :=
  o.filterKeys fun key => key.1 ≠ parent

/-- `_derive_call_key`: the key, and the occurrences counted on. -/
def CallOccurrences.deriveCallKey (o : CallOccurrences) (parent target : String)
    (args : Option Args) : String × CallOccurrences :=
  let base := callBase hash (target, args.getD ∅)
  let occurrence := (o.get? (parent, base)).getD 0 + 1
  (Occurrences.numbered base occurrence, o.set (parent, base) occurrence)

/-! ## Runs -/

/-- What happens to the occurrences: a parent makes a child call, or a parent ended. -/
inductive CallKeyAct (Args : Type*)
  | call (parent target : String) (args : Option Args)
  | forgetParent (parent : String)

/-- A key derived, with the parent and the call it was derived for. -/
structure DerivedKey (Args : Type*) where
  parent : String
  call : String × Args
  key : String

/-- The keys derived in a run, in order. -/
def derivedKeys : CallOccurrences → List (CallKeyAct Args) → List (DerivedKey Args)
  | _, [] => []
  | o, .call parent target args :: acts =>
    let derived := o.deriveCallKey hash parent target args
    ⟨parent, (target, args.getD ∅), derived.1⟩ :: derivedKeys derived.2 acts
  | o, .forgetParent parent :: acts => derivedKeys (o.forgetParent parent) acts

/-- The occurrences at the end of a run. -/
def afterCalls : CallOccurrences → List (CallKeyAct Args) → CallOccurrences
  | o, [] => o
  | o, .call parent target args :: acts =>
    afterCalls (o.deriveCallKey hash parent target args).2 acts
  | o, .forgetParent parent :: acts => afterCalls (o.forgetParent parent) acts

/-- The keys a parent's calls were given in a run. -/
def keysOf (parent : String) (o : CallOccurrences) (acts : List (CallKeyAct Args)) :
    List ((String × Args) × String) :=
  (derivedKeys hash o acts).filterMap fun derived =>
    if derived.parent = parent then some (derived.call, derived.key) else none

/-- The calls a parent makes in a run. -/
def callsOf (parent : String) (acts : List (CallKeyAct Args)) : List (String × Args) :=
  acts.filterMap fun
    | .call parent' target args => if parent' = parent then some (target, args.getD ∅) else none
    | .forgetParent _ => none

/-- How often a parent has made a call. -/
def CallOccurrences.countOf (o : CallOccurrences) (parent base : String) : ℕ :=
  (o.get? (parent, base)).getD 0

/-- Nothing is counted for a parent: it made no call, or was forgotten since. -/
def CallOccurrences.Fresh (o : CallOccurrences) (parent : String) : Prop :=
  ∀ base, o.get? (parent, base) = none

end

variable {Args : Type*} [EmptyCollection Args] {hash : CallHash Args}

/-! ## What one act does -/

@[simp] theorem CallOccurrences.get?_forgetParent (o : CallOccurrences) (parent : String)
    (key : String × String) :
    (o.forgetParent parent).get? key = if key.1 = parent then none else o.get? key := by
  by_cases h : key.1 = parent <;> simp [forgetParent, h]

theorem CallOccurrences.fresh_forgetParent (o : CallOccurrences) (parent : String) :
    (o.forgetParent parent).Fresh parent := fun base => by simp

theorem CallOccurrences.fresh_empty (parent : String) : Fresh ∅ parent := fun _ => rfl

theorem CallOccurrences.Fresh.countOf {o : CallOccurrences} {parent : String}
    (h : o.Fresh parent) : o.countOf parent = fun _ => 0 := by
  funext base
  rw [CallOccurrences.countOf, h base, Option.getD_none]

/-- Counting a call of one parent raises that count and no other. -/
theorem CallOccurrences.countOf_deriveCallKey (o : CallOccurrences) (parent target : String)
    (args : Option Args) (p : String) :
    (o.deriveCallKey hash parent target args).2.countOf p
      = if parent = p then
          Function.update (o.countOf p) (callBase hash (target, args.getD ∅))
            (o.countOf p (callBase hash (target, args.getD ∅)) + 1)
        else o.countOf p := by
  funext base
  by_cases hp : parent = p
  · subst hp
    by_cases hb : base = callBase hash (target, args.getD ∅)
    · subst hb
      simp [deriveCallKey, countOf]
    · simp [deriveCallKey, countOf, hb]
  · simp [deriveCallKey, countOf, hp, Ne.symm hp]

theorem CallOccurrences.countOf_forgetParent (o : CallOccurrences) {parent p : String}
    (h : parent ≠ p) : (o.forgetParent parent).countOf p = o.countOf p := by
  funext base
  simp [countOf, Ne.symm h]

theorem keysOf_call (p parent target : String) (args : Option Args) (o : CallOccurrences)
    (acts : List (CallKeyAct Args)) :
    keysOf hash p o (.call parent target args :: acts)
      = if parent = p then
          ((target, args.getD ∅), (o.deriveCallKey hash parent target args).1)
            :: keysOf hash p (o.deriveCallKey hash parent target args).2 acts
        else keysOf hash p (o.deriveCallKey hash parent target args).2 acts := by
  by_cases hp : parent = p <;> simp [keysOf, derivedKeys, hp]

theorem keysOf_forgetParent (p parent : String) (o : CallOccurrences)
    (acts : List (CallKeyAct Args)) :
    keysOf hash p o (.forgetParent parent :: acts) = keysOf hash p (o.forgetParent parent) acts :=
  rfl

/-! ## The keys of one parent -/

/-- Within one life of a parent its keys number its calls by their occurrence, whatever other
parents do meanwhile. -/
theorem keysOf_eq_number (p : String) {acts : List (CallKeyAct Args)}
    (hlife : CallKeyAct.forgetParent p ∉ acts) (o : CallOccurrences) :
    keysOf hash p o acts
      = (Occurrences.number (callBase hash) (o.countOf p) (callsOf p acts)).map fun e =>
          (e.1, Occurrences.numbered (callBase hash e.1) e.2) := by
  induction acts generalizing o with
  | nil => rfl
  | cons act acts ih =>
    obtain ⟨hne, hrest⟩ := not_or.mp (mt List.mem_cons.mpr hlife)
    cases act with
    | call parent target args =>
      rw [keysOf_call, ih hrest, CallOccurrences.countOf_deriveCallKey]
      by_cases hp : parent = p
      · subst hp
        simp [callsOf, CallOccurrences.deriveCallKey, CallOccurrences.countOf]
      · simp [callsOf, hp]
    | forgetParent parent =>
      have hp : parent ≠ p := fun h => hne (by rw [h])
      rw [keysOf_forgetParent, ih hrest, CallOccurrences.countOf_forgetParent o hp]
      rfl

/-- A parent's keys depend on its own counts only. -/
theorem keysOf_congr (p : String) (acts : List (CallKeyAct Args)) {o o' : CallOccurrences}
    (h : o.countOf p = o'.countOf p) : keysOf hash p o acts = keysOf hash p o' acts := by
  induction acts generalizing o o' with
  | nil => rfl
  | cons act acts ih =>
    cases act with
    | call parent target args =>
      have hnext : (o.deriveCallKey hash parent target args).2.countOf p
          = (o'.deriveCallKey hash parent target args).2.countOf p := by
        rw [CallOccurrences.countOf_deriveCallKey, CallOccurrences.countOf_deriveCallKey, h]
      rw [keysOf_call, keysOf_call, ih hnext]
      by_cases hp : parent = p
      · subst hp
        have hkey := congrFun h (callBase hash (target, args.getD ∅))
        simp only [CallOccurrences.countOf] at hkey
        simp [CallOccurrences.deriveCallKey, hkey]
      · simp [hp]
    | forgetParent parent =>
      rw [keysOf_forgetParent, keysOf_forgetParent]
      refine ih ?_
      by_cases hp : parent = p
      · subst hp
        rw [(o.fresh_forgetParent parent).countOf, (o'.fresh_forgetParent parent).countOf]
      · rw [o.countOf_forgetParent hp, o'.countOf_forgetParent hp, h]

/-- A parent's keys are its numbered bases, written out. -/
theorem map_snd_keysOf (p : String) {acts : List (CallKeyAct Args)}
    (hlife : CallKeyAct.forgetParent p ∉ acts) (o : CallOccurrences) :
    (keysOf hash p o acts).map Prod.snd
      = ((Occurrences.number (callBase hash) (o.countOf p) (callsOf p acts)).map fun e =>
          (callBase hash e.1, e.2)).map fun e => Occurrences.numbered e.1 e.2 := by
  rw [keysOf_eq_number p hlife, List.map_map, List.map_map]
  rfl

/-- Within one life no key of a parent is given twice. -/
theorem nodup_keysOf (p : String) {acts : List (CallKeyAct Args)}
    (hlife : CallKeyAct.forgetParent p ∉ acts) (o : CallOccurrences) :
    ((keysOf hash p o acts).map Prod.snd).Nodup := by
  rw [map_snd_keysOf p hlife]
  refine (Occurrences.nodup_labels_number _ _ _).map_on fun e _ e' _ h => ?_
  obtain ⟨hbase, hn⟩ := Occurrences.numbered_inj.mp h
  exact Prod.ext hbase hn

/-! ## Order

Occurrences are counted for each parent and each base apart, so that neither other parents nor the
order of calls that differ decide a key.
-/

/-- Derived call keys do not depend on order. Two runs in which a parent makes the same calls, from
anywhere it has made none, give it the same keys, and give each call the same ones; no key is given
twice. Once the parent is forgotten its keys start over as in a fresh process, and what is counted
for other parents stays. -/
theorem callKeys_order_independent (p : String) {o o' : CallOccurrences}
    {acts acts' : List (CallKeyAct Args)} (hfresh : o.Fresh p) (hfresh' : o'.Fresh p)
    (hlife : CallKeyAct.forgetParent p ∉ acts) (hlife' : CallKeyAct.forgetParent p ∉ acts')
    (hcalls : (callsOf p acts).Perm (callsOf p acts'))
    (hdigest : Set.InjOn hash.digest {args | ∃ call ∈ callsOf p acts, call.2 = args}) :
    ((keysOf hash p o acts).map Prod.snd).Perm ((keysOf hash p o' acts').map Prod.snd)
      ∧ (∀ call key, (call, key) ∈ keysOf hash p o acts ↔ (call, key) ∈ keysOf hash p o' acts')
      ∧ ((keysOf hash p o acts).map Prod.snd).Nodup
      ∧ (∀ again, keysOf hash p ((afterCalls hash o acts).forgetParent p) again
          = keysOf hash p ∅ again)
      ∧ ∀ q base, q ≠ p → ((afterCalls hash o acts).forgetParent p).get? (q, base)
          = (afterCalls hash o acts).get? (q, base) := by
  refine ⟨?_, fun call key => ?_, nodup_keysOf p hlife o, fun again => keysOf_congr p again ?_,
    fun q base hq => by simp [hq]⟩
  · rw [map_snd_keysOf p hlife, map_snd_keysOf p hlife', hfresh.countOf, hfresh'.countOf]
    exact (Occurrences.labels_number_perm _ hcalls).map _
  · rw [keysOf_eq_number p hlife, keysOf_eq_number p hlife', hfresh.countOf, hfresh'.countOf,
      List.mem_map, List.mem_map]
    simp only [Occurrences.mem_number_perm (injOn_callBase hdigest) hcalls]
  · rw [((afterCalls hash o acts).fresh_forgetParent p).countOf,
      (CallOccurrences.fresh_empty p).countOf]

/-- The digests of no args and of one arg differ. -/
theorem injOn_digest_numberArgsHash :
    Set.InjOn numberArgsHash.digest {[], [("x", 1)]} := by
  rw [Set.injOn_pair]
  decide

/-- Two orders of three calls, with another parent's call and end in between. -/
theorem callKeys_order_independent_three :
    ((keysOf numberArgsHash "p" ∅ [.call "p" "a" none, .call "p" "a:b" (some [("x", 1)]),
        .call "q" "a" none, .call "p" "a" none]).map Prod.snd).Perm
      ((keysOf numberArgsHash "p" ∅ [.call "p" "a" none, .forgetParent "q", .call "p" "a" none,
        .call "p" "a:b" (some [("x", 1)])]).map Prod.snd) :=
  (callKeys_order_independent "p" (CallOccurrences.fresh_empty "p")
    (CallOccurrences.fresh_empty "p") (by simp) (by simp)
    (by simpa [callsOf] using List.Perm.swap _ _ [])
    (injOn_digest_numberArgsHash.mono (by
      rintro args ⟨call, hcall, rfl⟩
      simp only [callsOf, List.filterMap_cons, List.filterMap_nil] at hcall
      revert call
      decide))).1

/-! ## What a call is called

Four fields name the target of a call, and one string is made of the one that is given. Which field
it was is not part of the key.
-/

/-- The description of a child call, as far as `aassign` makes a key of it. -/
structure CallDescription (Args : Type*) where
  parent : Option String
  callKey : Option String
  action : Option String
  actionHash : Option String
  implementation : Option String
  agent : Option String
  interface : Option String
  dependency : Option String
  method : Option String
  args : Option Args

/-- An optional string that names something: `None` and `""` do not. -/
def given (s : Option String) : Option String := s.filter (· ≠ "")

/-- A string or `None`, in an f-string. -/
def formatted (s : Option String) : String := s.getD "None"

/-- What a description names first, in the order `aassign` looks. -/
inductive CallName
  | action (id : String)
  | actionHash (hash : String)
  | implementation (id : String)
  | method (dependency : String) (method : Option String)
  | interface (interface : String) (agent : Option String)
  | unnamed

namespace CallDescription

variable {Args : Type*}

/-- The target `aassign` derives the key of a child from. -/
def target (d : CallDescription Args) : String :=
  ((given d.action).or <| (given d.actionHash).or <| (given d.implementation).or <|
    match given d.dependency with
    | some dependency => some (dependency ++ "." ++ formatted d.method)
    | none => given d.interface).getD "call"

variable [EmptyCollection Args]

/-- The call a description is counted as. -/
def call (d : CallDescription Args) : String × Args := (d.target, d.args.getD ∅)

/-- The call key `aassign` sends: derived for a child without one, else as given. -/
def aassignCallKey (hash : CallHash Args) (d : CallDescription Args) (o : CallOccurrences) :
    Option String × CallOccurrences :=
  match d.parent, d.callKey with
  | some parent, none =>
    let derived := o.deriveCallKey hash parent d.target d.args
    (some derived.1, derived.2)
  | _, callKey => (callKey, o)

/-- The work two descriptions name differs: they name other actions, action hashes or
implementations, other methods of dependencies, other interfaces or interfaces of other agents, or
pass other args. -/
def DifferentWork (d d' : CallDescription Args) : Prop :=
  given d.action ≠ given d'.action
    ∨ given d.actionHash ≠ given d'.actionHash
    ∨ given d.implementation ≠ given d'.implementation
    ∨ (given d.dependency).map (·, d.method) ≠ (given d'.dependency).map (·, d'.method)
    ∨ (given d.interface).map (·, d.agent) ≠ (given d'.interface).map (·, d'.agent)
    ∨ d.args.getD ∅ ≠ d'.args.getD ∅

/-- Two calls of one parent never share a key: their bases differ, neither's key depends on whether
the other was made before it, and no run gives one of them a key another run gives the other. -/
structure KeyedApart (hash : CallHash Args) (d d' : CallDescription Args) : Prop where
  base : callBase hash d.call ≠ callBase hash d'.call
  left : ∀ o, (d.aassignCallKey hash (d'.aassignCallKey hash o).2).1 = (d.aassignCallKey hash o).1
  right : ∀ o, (d'.aassignCallKey hash (d.aassignCallKey hash o).2).1
    = (d'.aassignCallKey hash o).1
  recorded : ∀ o o', (d.aassignCallKey hash o).1 ≠ (d'.aassignCallKey hash o').1

theorem aassignCallKey_of_keyless {hash : CallHash Args} {d : CallDescription Args} {p : String}
    (hparent : d.parent = some p) (hkeyless : d.callKey = none) (o : CallOccurrences) :
    d.aassignCallKey hash o = (some (Occurrences.numbered (callBase hash d.call)
      (o.countOf p (callBase hash d.call) + 1)), (o.deriveCallKey hash p d.target d.args).2) := by
  rw [aassignCallKey, hparent, hkeyless]
  rfl

/-- Counting a call of another base leaves the key of a call alone. -/
theorem aassignCallKey_of_base_ne {hash : CallHash Args} {d d' : CallDescription Args} {p : String}
    (hparent : d.parent = some p) (hparent' : d'.parent = some p) (hkeyless : d.callKey = none)
    (hkeyless' : d'.callKey = none) (hbase : callBase hash d.call ≠ callBase hash d'.call)
    (o : CallOccurrences) :
    (d.aassignCallKey hash (d'.aassignCallKey hash o).2).1 = (d.aassignCallKey hash o).1 := by
  have hcount : (o.deriveCallKey hash p d'.target d'.args).2.countOf p (callBase hash d.call)
      = o.countOf p (callBase hash d.call) := by
    rw [CallOccurrences.countOf_deriveCallKey, if_pos rfl]
    exact Function.update_of_ne hbase _ _
  simp only [aassignCallKey_of_keyless hparent hkeyless, aassignCallKey_of_keyless hparent'
    hkeyless', hcount]

/-- Keyless calls of one parent are kept apart by their bases. -/
theorem keyedApart_iff {hash : CallHash Args} {d d' : CallDescription Args} {p : String}
    (hparent : d.parent = some p) (hparent' : d'.parent = some p) (hkeyless : d.callKey = none)
    (hkeyless' : d'.callKey = none) :
    KeyedApart hash d d' ↔ callBase hash d.call ≠ callBase hash d'.call := by
  refine ⟨KeyedApart.base, fun hbase => ⟨hbase, ?_, ?_, fun o o' h => hbase ?_⟩⟩
  · exact aassignCallKey_of_base_ne hparent hparent' hkeyless hkeyless' hbase
  · exact aassignCallKey_of_base_ne hparent' hparent hkeyless' hkeyless (Ne.symm hbase)
  · rw [aassignCallKey_of_keyless hparent hkeyless, aassignCallKey_of_keyless hparent' hkeyless']
      at h
    exact (Occurrences.numbered_inj.mp (Option.some.inj h)).1

/-- What a description names first. -/
def name (d : CallDescription Args) : CallName :=
  match given d.action, given d.actionHash, given d.implementation, given d.dependency,
    given d.interface with
  | some action, _, _, _, _ => .action action
  | none, some actionHash, _, _, _ => .actionHash actionHash
  | none, none, some implementation, _, _ => .implementation implementation
  | none, none, none, some dependency, _ => .method dependency d.method
  | none, none, none, none, some interface => .interface interface d.agent
  | none, none, none, none, none => .unnamed

end CallDescription

namespace CallName

/-- A name other than a dependency's method, as the target has it: without its kind or agent. -/
def plain : CallName → Option String
  | .action id => some id
  | .actionHash hash => some hash
  | .implementation id => some id
  | .method _ _ => none
  | .interface name _ => some name
  | .unnamed => some "call"

/-- Two names that cannot be told apart once their kind and agent are left out and a dependency is
joined to its method by a dot. -/
inductive ReadAlike : CallName → CallName → Prop
  | plain {n n' : CallName} {text : String} : n.plain = some text → n'.plain = some text →
      ReadAlike n n'
  | dotted {n : CallName} {dependency : String} {method : Option String} :
      n.plain = some (dependency ++ "." ++ formatted method) →
        ReadAlike (.method dependency method) n
  | dotted' {n : CallName} {dependency : String} {method : Option String} :
      n.plain = some (dependency ++ "." ++ formatted method) →
        ReadAlike n (.method dependency method)
  | method {dependency : String} {method method' : Option String} :
      formatted method = formatted method' →
      ReadAlike (.method dependency method) (.method dependency method')
  | shifted {dependency middle : String} {method method' : Option String} :
      formatted method = middle ++ "." ++ formatted method' →
      ReadAlike (.method dependency method) (.method (dependency ++ "." ++ middle) method')
  | shifted' {dependency middle : String} {method method' : Option String} :
      formatted method' = middle ++ "." ++ formatted method →
      ReadAlike (.method (dependency ++ "." ++ middle) method) (.method dependency method')

/-- A name as the target has it. -/
def text : CallName → String
  | .action id => id
  | .actionHash hash => hash
  | .implementation id => id
  | .method dependency name => dependency ++ "." ++ formatted name
  | .interface name _ => name
  | .unnamed => "call"

theorem text_of_plain {n : CallName} {text : String} (h : n.plain = some text) :
    n.text = text := by
  cases n <;> first | exact Option.some.inj h | cases h

/-- The target is the text of the name. -/
theorem target_eq_text {Args : Type*} (d : CallDescription Args) : d.target = d.name.text := by
  rw [CallDescription.target, CallDescription.name]
  cases given d.action <;> cases given d.actionHash <;> cases given d.implementation <;>
    cases given d.dependency <;> cases given d.interface <;> rfl

/-- One text split at a dot in two ways. -/
theorem readAlike_of_dotted {dependency dependency' : String} {method method' : Option String}
    (h : dependency ++ "." ++ formatted method = dependency' ++ "." ++ formatted method') :
    ReadAlike (.method dependency method) (.method dependency' method') := by
  have hlist := congrArg String.toList h
  have hsplit : ∀ s t : String, (s ++ "." ++ t).toList = s.toList ++ '.' :: t.toList :=
    fun s t => by simp [String.toList_append]
  rw [hsplit, hsplit] at hlist
  obtain ⟨hdependency, hmethod⟩ | ⟨w, hdependency, hmethod⟩ | ⟨w, hdependency, hmethod⟩ :=
    Occurrences.append_cons_eq_append_cons hlist
  · obtain rfl := String.toList_injective hdependency
    exact .method (String.toList_injective hmethod)
  · obtain rfl : dependency' = dependency ++ "." ++ String.ofList w :=
      String.toList_injective (by rw [hdependency, hsplit, String.toList_ofList])
    exact .shifted (String.toList_injective (by rw [hmethod, hsplit, String.toList_ofList]))
  · obtain rfl : dependency = dependency' ++ "." ++ String.ofList w :=
      String.toList_injective (by rw [hdependency, hsplit, String.toList_ofList])
    exact .shifted' (String.toList_injective (by rw [hmethod, hsplit, String.toList_ofList]))

/-- Names read alike exactly where the target has the same text for them. -/
theorem readAlike_iff {n n' : CallName} : ReadAlike n n' ↔ n.text = n'.text := by
  constructor
  · intro h
    cases h with
    | plain h h' => rw [text_of_plain h, text_of_plain h']
    | dotted h => exact (text_of_plain h).symm
    | dotted' h => exact text_of_plain h
    | method h => simp only [text, h]
    | shifted h => simp only [text, h, String.append_assoc]
    | shifted' h => simp only [text, h, String.append_assoc]
  · intro h
    have hplain : ∀ n : CallName, (∃ dependency name, n = .method dependency name)
        ∨ n.plain = some n.text := by
      intro n
      cases n <;> first | exact Or.inr rfl | exact Or.inl ⟨_, _, rfl⟩
    obtain ⟨dependency, name, rfl⟩ | hn := hplain n
    · obtain ⟨dependency', name', rfl⟩ | hn' := hplain n'
      · exact readAlike_of_dotted h
      · exact .dotted (by rw [hn', ← h]; rfl)
    · obtain ⟨dependency', name', rfl⟩ | hn' := hplain n'
      · exact .dotted' (by rw [hn, h]; rfl)
      · exact .plain hn (by rw [hn', h])

end CallName

section

variable {Args : Type*} [EmptyCollection Args]

/-- Calls naming different work are kept apart exactly where they pass other args, or the names
they give first do not read alike. -/
theorem keyedApart_of_differentWork_iff (hash : CallHash Args) {d d' : CallDescription Args}
    {p : String} (hparent : d.parent = some p) (hparent' : d'.parent = some p)
    (hkeyless : d.callKey = none) (hkeyless' : d'.callKey = none)
    (hdigest : Set.InjOn hash.digest {d.args.getD ∅, d'.args.getD ∅}) :
    (d.DifferentWork d' → d.KeyedApart hash d')
      ↔ (d.DifferentWork d' → d.args.getD ∅ ≠ d'.args.getD ∅ ∨ ¬ d.name.ReadAlike d'.name) := by
  have hbase : callBase hash d.call ≠ callBase hash d'.call
      ↔ d.args.getD ∅ ≠ d'.args.getD ∅ ∨ ¬ d.name.ReadAlike d'.name := by
    have hargs : hash.digest d.call.2 = hash.digest d'.call.2 ↔ d.args.getD ∅ = d'.args.getD ∅ :=
      hdigest.eq_iff (Or.inl rfl) (Or.inr rfl)
    rw [CallName.readAlike_iff, ← CallName.target_eq_text, ← CallName.target_eq_text, Ne,
      callBase_inj, hargs, not_and_or, or_comm]
    rfl
  rw [CallDescription.keyedApart_iff hparent hparent' hkeyless hkeyless', hbase]

end

/-- A call without args, of task `p`. -/
def CallDescription.plain : CallDescription (List (String × ℕ)) :=
  ⟨some "p", none, none, none, none, none, none, none, none, some []⟩

/-- Two actions are kept apart. -/
theorem keyedApart_of_differentWork_iff_two :
    CallDescription.KeyedApart numberArgsHash { CallDescription.plain with action := some "5" }
      { CallDescription.plain with action := some "6" } :=
  (keyedApart_of_differentWork_iff numberArgsHash rfl rfl rfl rfl (by simp)).mpr
    (fun _ => Or.inr (by rw [CallName.readAlike_iff]; decide)) (Or.inl (by decide))

/-- Action `5` and implementation `5` have one base: the keys of the two calls depend on which is
made first, and each gets the other's when the order changes. -/
theorem action_and_implementation_share_keys :
    let d := { CallDescription.plain with action := some "5" }
    let d' := { CallDescription.plain with implementation := some "5" }
    d.DifferentWork d'
      ∧ (d.aassignCallKey numberArgsHash ∅).1 = some "5:44136fa3:1"
      ∧ (d'.aassignCallKey numberArgsHash (d.aassignCallKey numberArgsHash ∅).2).1
        = some "5:44136fa3:2"
      ∧ (d'.aassignCallKey numberArgsHash ∅).1 = some "5:44136fa3:1"
      ∧ ¬ d.KeyedApart numberArgsHash d' := by
  refine ⟨Or.inl (by decide), by decide, by decide, by decide, fun h => h.base (by decide)⟩

end Rekuest
