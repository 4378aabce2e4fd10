import Mathlib.Data.List.Perm.Basic
import Rekuest.Client.Upload

/-!
# Uploading the assets of an app

`rekuest/client/upload/assets.py`: of the files an app registered, each the server does not hold is
put into the datalayer with a grant issued for it, and recorded. A step is the end of one call to
the server or to the datalayer. The server is not part of the repository, so it is a parameter, and
what is relied on of it is `AssetServer.Contract`.
-/

namespace Rekuest

/-- A local file: its path, and the last component of it. -/
structure AssetPath where
  path : String
  name : String

/-- `AssetDeclaration`: a file an app registered, or names a source for. -/
structure AssetDeclaration where
  name : String
  kindLabel : String
  /-- `sha256:` and the hash of its bytes. -/
  ref : String
  path : Option AssetPath
  source : String

/-- `GraphQLException`, with what each of its errors carries as its code. -/
structure GraphQLException where
  message : String
  codes : List (Option String)

/-- `_refusal_code`. -/
def refusalCode (error : GraphQLException) : Option String :=
  error.codes.reduceOption.find? fun code => code ≠ ""

/-- What a call to the server or to the datalayer raises. -/
inductive CallFailure
  | graphQL (error : GraphQLException)
  /-- An `UploadError` or an `OSError`, as of a connection that is refused or reset. -/
  | osError (text : String)
  | other (text : String)

/-- What `aupload_assets` logs. -/
inductive AssetLog
  | fetched (asset : AssetDeclaration)
  | refused (asset : AssetDeclaration) (path : AssetPath) (error : GraphQLException)
  | couldNot (asset : AssetDeclaration) (path : AssetPath) (error : String)
  | uploaded (asset : AssetDeclaration) (path : AssetPath)

/-- `what`. -/
def AssetDeclaration.what (asset : AssetDeclaration) (path : AssetPath) : String :=
  s!"{asset.kindLabel} '{asset.name}' ({path.name})"

/-- The line that is logged. -/
def AssetLog.text : AssetLog → String
  | .fetched asset =>
    s!"The {asset.kindLabel} '{asset.name}' is fetched from {asset.source}, not uploaded by the app"
  | .refused asset path error => "The server refused the " ++ asset.what path ++ " (" ++
      (refusalCode error).getD "no code" ++ "): " ++ error.message
  | .couldNot asset path error => "Could not upload the " ++ asset.what path ++ ": " ++ error
  | .uploaded asset path => "Uploaded the " ++ asset.what path

/-! ## The server

What it holds changes with the `CreateAsset` requests of this app, and with what other clients ask
of it. A request goes its own way: it may be handled after the call it was made by is over, or be
lost.
-/

/-- What the asset operations do at the server. -/
structure AssetServer where
  State : Type
  /-- What another client asks. -/
  Request : Type
  /-- Whether `StoredAsset` finds the asset. -/
  holds : State → String → Bool
  /-- `CreateAsset`, of a reference and a store. -/
  createAsset : State → String → String → State
  other : State → Request → State

/-- What is created is held, and what is held stays. -/
structure AssetServer.Contract (S : AssetServer) : Prop where
  creates : ∀ s ref store, S.holds (S.createAsset s ref store) ref
  keeps : ∀ s ref store held, S.holds s held → S.holds (S.createAsset s ref store) held
  others : ∀ s request held, S.holds s held → S.holds (S.other s request) held

/-- The server, what the app has it do, and the datalayer behind it. -/
structure AssetWorld (S : AssetServer) where
  server : S.State
  /-- The `CreateAsset` requests on their way. -/
  requests : List (String × String)
  /-- Those the server handled. -/
  created : List (String × String)
  /-- The grants issued, each for one reference. -/
  grants : List (String × MediaUploadGrant)
  /-- Where the app put something: the bucket, and the key in it. -/
  objects : List (String × String)

variable {S : AssetServer}

namespace AssetWorld

/-- The server handles the request at a place, if there is one. -/
def handle (world : AssetWorld S) (k : ℕ) : AssetWorld S :=
  match world.requests[k]? with
  | none => world
  | some request => { world with
      server := S.createAsset world.server request.1 request.2
      requests := world.requests.eraseIdx k
      created := world.created ++ [request] }

/-- The request at a place is lost. -/
def lose (world : AssetWorld S) (k : ℕ) : AssetWorld S :=
  { world with requests := world.requests.eraseIdx k }

/-- Another client asks something of the server. -/
def elsewhere (world : AssetWorld S) (request : S.Request) : AssetWorld S :=
  { world with server := S.other world.server request }

/-- A grant is issued. -/
def grant (world : AssetWorld S) (ref : String) (grant : MediaUploadGrant) : AssetWorld S :=
  { world with grants := world.grants ++ [(ref, grant)] }

/-- Something is put where the grant says, and the request to record it made. -/
def put (world : AssetWorld S) (ref : String) (grant : MediaUploadGrant) : AssetWorld S :=
  { world with
    objects := world.objects ++ [(grant.bucket, grant.key)]
    requests := world.requests ++ [(ref, grant.store)] }

end AssetWorld

/-! ## A pass over the assets

`aupload_assets` goes through the assets in order and waits for one call at a time. What it catches
around an asset is logged, and the next asset follows.
-/

variable (S) in
/-- The call under way for an asset. -/
inductive UploadPhase
  /-- Whether it is held, of a server that was as given when it was asked. -/
  | asking (since : S.State)
  | requesting
  | putting (grant : MediaUploadGrant)
  | creating (store : String)

variable (S) in
/-- `aupload_assets` while it waits for a call. -/
structure AssetPass where
  asset : AssetDeclaration
  path : AssetPath
  phase : UploadPhase S
  todo : List AssetDeclaration
  log : List AssetLog

variable (S) in
/-- Where `aupload_assets` is. -/
inductive PassState
  | uploading (pass : AssetPass S)
  | returned (log : List AssetLog)
  | raised (log : List AssetLog) (text : String)

/-- How a call ends. -/
inductive CallEnd
  /-- `StoredAsset` found an asset, or did not. -/
  | found (held : Bool)
  | granted (grant : MediaUploadGrant)
  | stored
  | created
  | failed (failure : CallFailure)
  /-- The put raises. -/
  | putFailed

/-- The head of the loop of `aupload_assets`. -/
def nextAsset (server : S.State) (log : List AssetLog) : List AssetDeclaration → PassState S
  | [] => .returned log
  | asset :: todo =>
    match asset.path with
    | none => nextAsset server (log ++ [.fetched asset]) todo
    | some path => .uploading ⟨asset, path, .asking server, todo, log⟩

namespace AssetPass

/-- The loop goes on with another line in the log. -/
def logged (pass : AssetPass S) (server : S.State) (entry : AssetLog) : PassState S :=
  nextAsset server (pass.log ++ [entry]) pass.todo

/-- A call raised: what neither arm catches ends the loop. -/
def failed (pass : AssetPass S) (server : S.State) : CallFailure → PassState S
  | .graphQL error => pass.logged server (.refused pass.asset pass.path error)
  | .osError text => pass.logged server (.couldNot pass.asset pass.path text)
  | .other text => .raised pass.log text

section

variable (sha256 : List UInt8 → String) (endpointUrl : String)
  (files : String → Except String (List UInt8))

/-- The server does not hold the asset: its file is read, and compared with what was registered. -/
def check (pass : AssetPass S) (server : S.State) : PassState S :=
  match files pass.path.path with
  | .error text => pass.failed server (.osError text)
  | .ok data =>
    if "sha256:" ++ sha256 data = pass.asset.ref then .uploading { pass with phase := .requesting }
    else pass.failed server (.osError
      s!"{pass.path.path} changed since it was registered as '{pass.asset.name}'")

/-- `_aupload` of one asset, and the arms around it: a call ends. -/
def step (world : AssetWorld S) (pass : AssetPass S) (callEnd : CallEnd) :
    Option (AssetWorld S × PassState S) :=
  match pass.phase, callEnd with
  -- the answer is as old as the moment the server gave it
  | .asking since, .found held =>
    if held then
      if S.holds world.server pass.asset.ref then
        some (world, nextAsset world.server pass.log pass.todo)
      else none
    else if S.holds since pass.asset.ref then none
    else some (world, pass.check sha256 files world.server)
  | .requesting, .granted grant =>
    some (world.grant pass.asset.ref grant,
      match files pass.path.path with
      | .error text => pass.failed world.server (.osError text)
      | .ok _ => .uploading { pass with phase := .putting grant })
  | .putting grant, .stored =>
    some (world.put pass.asset.ref grant,
      .uploading { pass with phase := .creating grant.store })
  | .putting grant, .putFailed =>
    some (world, pass.failed world.server (.osError
      s!"Error while uploading to s3://{grant.bucket}/{grant.key} on {endpointUrl}"))
  | .creating store, .created =>
    if world.created.any fun request => request.1 = pass.asset.ref ∧ request.2 = store then
      some (world, pass.logged world.server (.uploaded pass.asset pass.path))
    else none
  | _, .failed failure => some (world, pass.failed world.server failure)
  | _, _ => none

end

end AssetPass

namespace AssetPass

variable {sha256 : List UInt8 → String} {endpointUrl : String}
  {files : String → Except String (List UInt8)} {world world' : AssetWorld S} {pass : AssetPass S}
  {callEnd : CallEnd} {state : PassState S}

/-- What the end of a call can lead to. -/
inductive Ends (world : AssetWorld S) (pass : AssetPass S) : AssetWorld S → PassState S → Prop
  | held (h : S.holds world.server pass.asset.ref) :
    Ends world pass world (nextAsset world.server pass.log pass.todo)
  | missing (since : S.State) (hphase : pass.phase = .asking since)
    (h : ¬ S.holds since pass.asset.ref) :
    Ends world pass world (.uploading { pass with phase := .requesting })
  | granted (grant : MediaUploadGrant) (hphase : pass.phase = .requesting) :
    Ends world pass (world.grant pass.asset.ref grant)
      (.uploading { pass with phase := .putting grant })
  | unreadable (grant : MediaUploadGrant) (text : String) :
    Ends world pass (world.grant pass.asset.ref grant) (pass.failed world.server (.osError text))
  | stored (grant : MediaUploadGrant) (hphase : pass.phase = .putting grant) :
    Ends world pass (world.put pass.asset.ref grant)
      (.uploading { pass with phase := .creating grant.store })
  | created (store : String) (h : (pass.asset.ref, store) ∈ world.created) :
    Ends world pass world (pass.logged world.server (.uploaded pass.asset pass.path))
  | failed (failure : CallFailure) : Ends world pass world (pass.failed world.server failure)

theorem ends_of_check {since : S.State} (hphase : pass.phase = .asking since)
    (h : ¬ S.holds since pass.asset.ref) :
    Ends world pass world (pass.check sha256 files world.server) := by
  unfold check
  cases files pass.path.path with
  | error text => exact Ends.failed _
  | ok data =>
    dsimp only
    split
    · exact Ends.missing since hphase h
    · exact Ends.failed _

theorem ends_of_step
    (hs : pass.step sha256 endpointUrl files world callEnd = some (world', state)) :
    Ends world pass world' state := by
  unfold step at hs
  split at hs
  · rename_i since held hphase
    split at hs
    · split at hs
      · rename_i hheld
        obtain ⟨rfl, rfl⟩ := Prod.mk.inj (Option.some.inj hs)
        exact Ends.held hheld
      · cases hs
    · split at hs
      · cases hs
      · rename_i hmissing
        obtain ⟨rfl, rfl⟩ := Prod.mk.inj (Option.some.inj hs)
        exact ends_of_check hphase hmissing
  · rename_i grant hphase
    obtain ⟨rfl, rfl⟩ := Prod.mk.inj (Option.some.inj hs)
    split
    · exact Ends.unreadable grant _
    · exact Ends.granted grant hphase
  · rename_i grant hphase
    obtain ⟨rfl, rfl⟩ := Prod.mk.inj (Option.some.inj hs)
    exact Ends.stored grant hphase
  · obtain ⟨rfl, rfl⟩ := Prod.mk.inj (Option.some.inj hs)
    exact Ends.failed _
  · rename_i store hphase
    split at hs
    · rename_i hany
      obtain ⟨rfl, rfl⟩ := Prod.mk.inj (Option.some.inj hs)
      obtain ⟨⟨ref, store'⟩, hmem, hsame⟩ := List.any_eq_true.mp hany
      obtain ⟨rfl, rfl⟩ := of_decide_eq_true hsame
      exact Ends.created store' hmem
    · cases hs
  · obtain ⟨rfl, rfl⟩ := Prod.mk.inj (Option.some.inj hs)
    exact Ends.failed _
  · cases hs

end AssetPass

/-! ## What is recorded

The app makes a request for an asset when none of its requests for it was handled, and none is on
its way: the server did not hold the asset when the app asked, and what the app had made requests
for before was either held by then or lost.
-/

namespace AssetWorld

/-- A store that was granted for the asset, and that something was put in. -/
def Backed (world : AssetWorld S) (ref store : String) : Prop :=
  ∃ grant, (ref, grant) ∈ world.grants ∧ grant.store = store ∧
    (grant.bucket, grant.key) ∈ world.objects

/-- The requests the app made that are handled, or may yet be. -/
def made (world : AssetWorld S) : List (String × String) := world.created ++ world.requests

/-- The app made at most one request for each asset that is not lost, and with a store that was
granted for it and filled; and those that were handled are held. -/
structure Clean (world : AssetWorld S) : Prop where
  once : (world.made.map Prod.fst).Nodup
  held : ∀ ref store, (ref, store) ∈ world.created → S.holds world.server ref
  backed : ∀ ref store, (ref, store) ∈ world.made → world.Backed ref store

/-- The app has not recorded the asset, and is not about to. -/
def Fresh (world : AssetWorld S) (ref : String) : Prop := ref ∉ world.made.map Prod.fst

variable {world : AssetWorld S} {ref store : String}

/-- A request that is handled stays one the app made. -/
theorem perm_handle (world : AssetWorld S) (k : ℕ) : (world.handle k).made.Perm world.made := by
  unfold handle made
  split
  · exact List.Perm.refl _
  · rename_i request hrequest
    obtain ⟨hk, rfl⟩ := List.getElem?_eq_some_iff.mp hrequest
    dsimp only
    rw [List.append_assoc]
    exact (List.getElem_cons_eraseIdx_perm hk).append_left world.created

theorem mem_created_handle {k : ℕ} (h : (ref, store) ∈ (world.handle k).created) :
    (ref, store) ∈ world.created ∨ (ref, store) ∈ world.requests ∧
      (world.handle k).server = S.createAsset world.server ref store := by
  unfold handle at h ⊢
  cases hrequest : world.requests[k]? with
  | none =>
    rw [hrequest] at h
    exact Or.inl h
  | some request =>
    rw [hrequest] at h
    refine (List.mem_append.mp h).imp_right fun hnew => ?_
    obtain rfl := List.mem_singleton.mp hnew
    exact ⟨List.mem_of_getElem? hrequest, rfl⟩

theorem sublist_lose (world : AssetWorld S) (k : ℕ) : (world.lose k).made.Sublist world.made :=
  (List.Sublist.refl world.created).append (List.eraseIdx_sublist world.requests k)

theorem made_put (world : AssetWorld S) (ref : String) (grant : MediaUploadGrant) :
    (world.put ref grant).made = world.made ++ [(ref, grant.store)] :=
  (List.append_assoc world.created world.requests [(ref, grant.store)]).symm

theorem Fresh.of_subset {world' : AssetWorld S} (h : world.Fresh ref)
    (hmade : world'.made ⊆ world.made) : world'.Fresh ref := fun hmem =>
  h (List.map_subset Prod.fst hmade hmem)

theorem Fresh.handle (h : world.Fresh ref) (k : ℕ) : (world.handle k).Fresh ref :=
  h.of_subset (perm_handle world k).subset

theorem Fresh.lose (h : world.Fresh ref) (k : ℕ) : (world.lose k).Fresh ref :=
  h.of_subset (sublist_lose world k).subset

theorem Backed.put (h : world.Backed ref store) (ref' : String) (grant : MediaUploadGrant) :
    (world.put ref' grant).Backed ref store := by
  obtain ⟨issued, hissued, hstore, hput⟩ := h
  exact ⟨issued, hissued, hstore, List.mem_append_left _ hput⟩

theorem Backed.grant (h : world.Backed ref store) (ref' : String) (grant : MediaUploadGrant) :
    (world.grant ref' grant).Backed ref store := by
  obtain ⟨issued, hissued, hstore, hput⟩ := h
  exact ⟨issued, List.mem_append_left _ hissued, hstore, hput⟩

theorem Backed.handle (h : world.Backed ref store) (k : ℕ) :
    (world.handle k).Backed ref store := by
  unfold AssetWorld.handle
  split
  · exact h
  · exact h

theorem Clean.grant (h : world.Clean) (ref' : String) (grant : MediaUploadGrant) :
    (world.grant ref' grant).Clean where
  once := h.once
  held := h.held
  backed ref store hmem := (h.backed ref store hmem).grant ref' grant

theorem Clean.put {grant : MediaUploadGrant} (h : world.Clean) (hfresh : world.Fresh ref)
    (hgrant : (ref, grant) ∈ world.grants) : (world.put ref grant).Clean where
  once := by
    rw [made_put, List.map_append, List.nodup_append]
    refine ⟨h.once, List.nodup_singleton _, fun other hother new hnew => ?_⟩
    rintro rfl
    obtain rfl := List.mem_singleton.mp hnew
    exact hfresh hother
  held := h.held
  backed := by
    intro ref' store' hmem
    rw [made_put] at hmem
    obtain hold | hnew := List.mem_append.mp hmem
    · exact (h.backed ref' store' hold).put ref grant
    · obtain ⟨rfl, rfl⟩ := Prod.mk.inj (List.mem_singleton.mp hnew)
      exact ⟨grant, hgrant, rfl, List.mem_append_right _ (List.mem_singleton_self _)⟩

theorem Clean.lose (h : world.Clean) (k : ℕ) : (world.lose k).Clean where
  once := h.once.sublist ((sublist_lose world k).map Prod.fst)
  held := h.held
  backed ref store hmem := h.backed ref store ((sublist_lose world k).subset hmem)

/-- The server holds what it held. -/
def Grows (world world' : AssetWorld S) : Prop :=
  ∀ ref, S.holds world.server ref → S.holds world'.server ref

theorem grows_of_eq {world' : AssetWorld S} (h : world'.server = world.server) :
    world.Grows world' := by
  intro ref hheld
  rw [h]
  exact hheld

variable (hserver : S.Contract)

include hserver

theorem grows_handle (world : AssetWorld S) (k : ℕ) : world.Grows (world.handle k) := by
  intro ref hheld
  unfold handle
  split
  · exact hheld
  · exact hserver.keeps _ _ _ _ hheld

theorem grows_elsewhere (world : AssetWorld S) (request : S.Request) :
    world.Grows (world.elsewhere request) := fun _ hheld => hserver.others _ _ _ hheld

theorem held_handle (h : ∀ ref store, (ref, store) ∈ world.created → S.holds world.server ref)
    (k : ℕ) : ∀ ref store, (ref, store) ∈ (world.handle k).created →
      S.holds (world.handle k).server ref := by
  intro ref store hmem
  obtain hold | ⟨-, hhandled⟩ := mem_created_handle hmem
  · exact grows_handle hserver world k ref (h ref store hold)
  · rw [hhandled]
    exact hserver.creates _ _ _

theorem Clean.handle (h : world.Clean) (k : ℕ) : (world.handle k).Clean where
  once := ((perm_handle world k).map Prod.fst).nodup_iff.mpr h.once
  held := held_handle hserver h.held k
  backed ref store hmem := (h.backed ref store ((perm_handle world k).subset hmem)).handle k

theorem Clean.elsewhere (h : world.Clean) (request : S.Request) :
    (world.elsewhere request).Clean where
  once := h.once
  held ref store hmem := hserver.others _ _ _ (h.held ref store hmem)
  backed := h.backed

end AssetWorld

namespace AssetPass

/-- What was asked and answered for the asset so far. -/
def Ready (world : AssetWorld S) (pass : AssetPass S) : Prop :=
  match pass.phase with
  | .asking since => pass.asset.ref ∈ world.created.map Prod.fst → S.holds since pass.asset.ref
  | .requesting => world.Fresh pass.asset.ref
  | .putting grant => world.Fresh pass.asset.ref ∧ (pass.asset.ref, grant) ∈ world.grants
  | .creating _ => True

/-- The app asks about the asset, and a request to record it is on its way. -/
def Overtaken (world : AssetWorld S) (pass : AssetPass S) : Prop :=
  (∃ since, pass.phase = .asking since) ∧ pass.asset.ref ∈ world.requests.map Prod.fst

end AssetPass

/-- A pass that goes on knows what it needs of its asset. -/
def PassState.Ready (world : AssetWorld S) : PassState S → Prop
  | .uploading pass => pass.Ready world
  | _ => True

theorem ready_nextAsset {world : AssetWorld S} (h : world.Clean) (log : List AssetLog)
    (todo : List AssetDeclaration) : (nextAsset world.server log todo).Ready world := by
  induction todo generalizing log with
  | nil => exact trivial
  | cons asset todo ih =>
    unfold nextAsset
    cases asset.path with
    | none => exact ih _
    | some path =>
      intro hmem
      obtain ⟨⟨ref, store⟩, hcreated, href⟩ := List.mem_map.mp hmem
      show S.holds world.server asset.ref
      rw [← href]
      exact h.held ref store hcreated

namespace AssetPass

variable {sha256 : List UInt8 → String} {endpointUrl : String}
  {files : String → Except String (List UInt8)} {world world' : AssetWorld S} {pass : AssetPass S}
  {callEnd : CallEnd} {state : PassState S}

theorem ready_failed (h : world.Clean) (pass : AssetPass S) (failure : CallFailure) :
    (pass.failed world.server failure).Ready world := by
  cases failure with
  | graphQL error => exact ready_nextAsset h _ _
  | osError text => exact ready_nextAsset h _ _
  | other text => exact trivial

/-- A call that ends makes a request only for an asset there is none for. -/
theorem clean_step (h : world.Clean) (hready : pass.Ready world) (hover : ¬ pass.Overtaken world)
    (hs : pass.step sha256 endpointUrl files world callEnd = some (world', state)) :
    world'.Clean ∧ state.Ready world' := by
  cases ends_of_step hs with
  | held _ => exact ⟨h, ready_nextAsset h _ _⟩
  | missing since hphase hmissing =>
    refine ⟨h, fun hmem => ?_⟩
    simp only [Ready, hphase] at hready
    rw [AssetWorld.made, List.map_append] at hmem
    obtain hcreated | hrequested := List.mem_append.mp hmem
    · exact hmissing (hready hcreated)
    · exact hover ⟨⟨since, hphase⟩, hrequested⟩
  | granted grant hphase =>
    simp only [Ready, hphase] at hready
    exact ⟨h.grant _ _, hready, List.mem_append_right _ (List.mem_singleton_self _)⟩
  | unreadable grant text =>
    exact ⟨h.grant _ _, ready_failed (h.grant pass.asset.ref grant) pass (.osError text)⟩
  | stored grant hphase =>
    simp only [Ready, hphase] at hready
    exact ⟨h.put hready.1 hready.2, trivial⟩
  | created store _ => exact ⟨h, ready_nextAsset h _ _⟩
  | failed failure => exact ⟨h, ready_failed h pass failure⟩

/-- What a pass knows stays true where no request is handled for an asset it asks about. -/
theorem ready_handle (hready : pass.Ready world) (hover : ¬ pass.Overtaken world) (k : ℕ) :
    pass.Ready (world.handle k) := by
  unfold Ready at hready ⊢
  cases hphase : pass.phase with
  | asking since =>
    simp only [hphase] at hready ⊢
    intro hmem
    obtain ⟨⟨ref, store⟩, hcreated, href⟩ := List.mem_map.mp hmem
    obtain hold | ⟨hrequest, -⟩ := AssetWorld.mem_created_handle hcreated
    · exact hready (List.mem_map.mpr ⟨_, hold, href⟩)
    · exact absurd ⟨⟨since, hphase⟩, List.mem_map.mpr ⟨_, hrequest, href⟩⟩ hover
  | requesting =>
    simp only [hphase] at hready
    exact hready.handle k
  | putting grant =>
    simp only [hphase] at hready
    refine ⟨hready.1.handle k, ?_⟩
    unfold AssetWorld.handle
    split
    · exact hready.2
    · exact hready.2
  | creating store => exact trivial

theorem ready_lose (hready : pass.Ready world) (k : ℕ) : pass.Ready (world.lose k) := by
  unfold Ready at hready ⊢
  cases hphase : pass.phase with
  | asking since =>
    simp only [hphase] at hready ⊢
    exact hready
  | requesting =>
    simp only [hphase] at hready
    exact hready.lose k
  | putting grant =>
    simp only [hphase] at hready
    exact ⟨hready.1.lose k, hready.2⟩
  | creating store => exact trivial

end AssetPass

/-! ## What is tried

Each asset is tried on its own, so those a pass is through with are settled, whatever became of
them.
-/

/-- The app is through with an asset: it has no file to upload, the server holds the asset, or why
not was logged. -/
def Settled (world : AssetWorld S) (log : List AssetLog) (asset : AssetDeclaration) : Prop :=
  asset.path = none ∨ S.holds world.server asset.ref ∨
    (∃ path error, .refused asset path error ∈ log) ∨ ∃ path error, .couldNot asset path error ∈ log

theorem Settled.mono {world world' : AssetWorld S} {log log' : List AssetLog}
    {asset : AssetDeclaration} (h : Settled world log asset) (hserver : world.Grows world')
    (hlog : ∀ entry ∈ log, entry ∈ log') : Settled world' log' asset := by
  obtain hpath | hheld | ⟨path, error, hentry⟩ | ⟨path, error, hentry⟩ := h
  · exact Or.inl hpath
  · exact Or.inr (Or.inl (hserver asset.ref hheld))
  · exact Or.inr (Or.inr (Or.inl ⟨path, error, hlog _ hentry⟩))
  · exact Or.inr (Or.inr (Or.inr ⟨path, error, hlog _ hentry⟩))

/-- The assets before the one a pass is at are settled, and all are once it returned. -/
def PassState.Through (assets : List AssetDeclaration) (world : AssetWorld S) : PassState S → Prop
  | .uploading pass => ∃ tried, assets = tried ++ pass.asset :: pass.todo ∧
      ∀ asset ∈ tried, Settled world pass.log asset
  | .returned log => ∀ asset ∈ assets, Settled world log asset
  | .raised _ _ => True

theorem through_nextAsset {world : AssetWorld S} {server : S.State} {log : List AssetLog}
    {assets tried todo : List AssetDeclaration} (hassets : assets = tried ++ todo)
    (htried : ∀ asset ∈ tried, Settled world log asset) :
    (nextAsset server log todo).Through assets world := by
  induction todo generalizing log tried with
  | nil =>
    rw [List.append_nil] at hassets
    subst hassets
    exact htried
  | cons asset todo ih =>
    unfold nextAsset
    cases hpath : asset.path with
    | none =>
      have hmoved : assets = (tried ++ [asset]) ++ todo := by simp [hassets]
      refine ih hmoved fun other hother => ?_
      obtain hold | hnew := List.mem_append.mp hother
      · exact (htried other hold).mono (AssetWorld.grows_of_eq rfl)
          fun entry hentry => List.mem_append_left _ hentry
      · obtain rfl := List.mem_singleton.mp hnew
        exact Or.inl hpath
    | some path => exact ⟨tried, hassets, htried⟩

namespace AssetPass

variable {sha256 : List UInt8 → String} {endpointUrl : String}
  {files : String → Except String (List UInt8)} {world world' : AssetWorld S} {pass : AssetPass S}
  {callEnd : CallEnd} {state : PassState S} {assets : List AssetDeclaration}

/-- A pass goes on to the next asset once this one is settled. -/
theorem through_next {server : S.State} {log : List AssetLog}
    (h : (PassState.uploading pass).Through assets world) (hserver : world.Grows world')
    (hlog : ∀ entry ∈ pass.log, entry ∈ log) (hsettled : Settled world' log pass.asset) :
    (nextAsset server log pass.todo).Through assets world' := by
  obtain ⟨tried, hassets, htried⟩ := h
  have hmoved : assets = (tried ++ [pass.asset]) ++ pass.todo := by simp [hassets]
  refine through_nextAsset hmoved fun asset hasset => ?_
  obtain hold | hnew := List.mem_append.mp hasset
  · exact (htried asset hold).mono hserver hlog
  · obtain rfl := List.mem_singleton.mp hnew
    exact hsettled

theorem through_failed {server : S.State} (h : (PassState.uploading pass).Through assets world)
    (hserver : world.Grows world') (failure : CallFailure) :
    (pass.failed server failure).Through assets world' := by
  have hlog : ∀ new, ∀ entry ∈ pass.log, entry ∈ pass.log ++ [new] :=
    fun new entry hentry => List.mem_append_left _ hentry
  cases failure with
  | graphQL error =>
    refine through_next h hserver (hlog _) (Or.inr (Or.inr (Or.inl ⟨pass.path, error, ?_⟩)))
    exact List.mem_append_right _ (List.mem_singleton_self _)
  | osError text =>
    refine through_next h hserver (hlog _) (Or.inr (Or.inr (Or.inr ⟨pass.path, text, ?_⟩)))
    exact List.mem_append_right _ (List.mem_singleton_self _)
  | other text => exact trivial

/-- The asset stays the one a pass is at. -/
theorem through_stay {pass' : AssetPass S} (h : (PassState.uploading pass).Through assets world)
    (hserver : world.Grows world') (hasset : pass'.asset = pass.asset)
    (htodo : pass'.todo = pass.todo) (hlog : pass'.log = pass.log) :
    (PassState.uploading pass').Through assets world' := by
  obtain ⟨tried, hassets, htried⟩ := h
  refine ⟨tried, by rw [hasset, htodo]; exact hassets, fun asset hmem => ?_⟩
  rw [hlog]
  exact (htried asset hmem).mono hserver fun _ hentry => hentry

/-- Whatever becomes of the asset a pass is at, those before it stay settled. -/
theorem through_step (hheld : ∀ ref store, (ref, store) ∈ world.created →
      S.holds world.server ref) (h : (PassState.uploading pass).Through assets world)
    (hs : pass.step sha256 endpointUrl files world callEnd = some (world', state)) :
    world'.server = world.server ∧ world'.created = world.created ∧
      state.Through assets world' := by
  have hsame : world.Grows world := AssetWorld.grows_of_eq rfl
  cases ends_of_step hs with
  | held hholds =>
    exact ⟨rfl, rfl, through_next h hsame (fun _ hentry => hentry) (Or.inr (Or.inl hholds))⟩
  | missing since _ _ => exact ⟨rfl, rfl, through_stay h hsame rfl rfl rfl⟩
  | granted grant _ => exact ⟨rfl, rfl, through_stay h (AssetWorld.grows_of_eq rfl) rfl rfl rfl⟩
  | unreadable grant text =>
    exact ⟨rfl, rfl, through_failed h (AssetWorld.grows_of_eq rfl) _⟩
  | stored grant _ => exact ⟨rfl, rfl, through_stay h (AssetWorld.grows_of_eq rfl) rfl rfl rfl⟩
  | created store hcreated =>
    refine ⟨rfl, rfl, through_next h hsame (fun entry hentry => List.mem_append_left _ hentry) ?_⟩
    exact Or.inr (Or.inl (hheld _ store hcreated))
  | failed failure => exact ⟨rfl, rfl, through_failed h hsame failure⟩

end AssetPass

end Rekuest
