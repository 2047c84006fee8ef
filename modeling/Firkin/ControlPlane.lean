import Firkin.Lifecycle
import Firkin.LossyUtf8

/-! # The HTTP control plane

`handle_http_request` and what it dispatches to. Every arm of the dispatcher first reads all it
needs from the request and only then touches the registries, so an arm is written in two parts:
a route, which gives an operation or refuses the request, and the operation itself. How JSON
bodies are read is a parameter. -/
namespace ControlPlane

open Ext4Types DecimalText E2bTypes SortedTable FaultMonad LocalBackend Lifecycle
open PodRegistry (PodCreateRequest PodContainerCreateRequest PodContainerInfo PodContainerOutput
  PodInfo)
open VolumeRegistry (VolumeAndToken VolumeInfo VolumeEntryStat VolumeMetadataRequest
  VolumeWriteOptions LocalVolumeRegistry)

inductive ControlPlaneError where
  | badRequest (reason : Str)
  | notFound (what : Str)
  | methodNotAllowed
  | backend (error : BackendError)
  | json (error : Str)
  | stateStore (error : Str)

abbrev Result := Except ControlPlaneError

inductive ControlPlaneMethod where
  | get
  | post
  | patch
  | put
  | delete
  deriving DecidableEq

namespace ControlPlaneMethod

def fromStr (s : Str) : Result ControlPlaneMethod :=
  if s = str "GET" then .ok .get
  else if s = str "POST" then .ok .post
  else if s = str "PATCH" then .ok .patch
  else if s = str "PUT" then .ok .put
  else if s = str "DELETE" then .ok .delete
  else .error .methodNotAllowed

def mutatesState (self : ControlPlaneMethod) : Bool := self ≠ .get

end ControlPlaneMethod

structure ControlPlaneRequest where
  method : ControlPlaneMethod
  path : Str
  body : Option (List UInt8)
  origin : Option Str

/-- What a request brings along. Header values that are no text count as absent. -/
structure HttpRequest where
  apiKey : Option Str := none
  method : Str
  host : Option Str := none
  pathAndQuery : Option Str
  body : Except Str (List UInt8) := .ok []

def convertHttpRequest (request : HttpRequest) : Result ControlPlaneRequest := do
  let method ← ControlPlaneMethod.fromStr request.method
  let bytes ← request.body.mapError fun e =>
    .badRequest (str "failed to read request body: " ++ e)
  pure {
    method, path := request.pathAndQuery.getD (str "/")
    body := if bytes.isEmpty then none else some bytes
    origin := request.host.map (str "http://" ++ ·) }

def splitOnce (separator : UInt8) (s : Str) : Option (Str × Str) :=
  if separator ∈ s then some (s.takeWhile (· ≠ separator), (s.dropWhile (· ≠ separator)).tail)
  else none

def splitPathQuery (path : Str) : Str × Option Str :=
  match splitOnce 63 path with
  | some (path, query) => (path, some query)
  | none => (path, none)

/-- Pairs are separated by ampersands; one without an equals sign is passed over. -/
def queryValue (query : Option Str) (key : Str) : Option Str := do
  let query ← query
  (query.splitOn 38).findSome? fun pair => do
    let (candidate, value) ← splitOnce 61 pair
    if candidate = key then some value else none

def hexValue (byte : UInt8) : Option UInt8 :=
  if 48 ≤ byte ∧ byte ≤ 57 then some (byte - 48)
  else if 97 ≤ byte ∧ byte ≤ 102 then some (byte - 97 + 10)
  else if 65 ≤ byte ∧ byte ≤ 70 then some (byte - 65 + 10)
  else none

def unescape : List UInt8 → Option (List UInt8)
  | [] => some []
  | byte :: rest =>
    if byte ≠ 37 then (unescape rest).map (byte :: ·)
    else
      match rest with
      | high :: low :: rest => do
        let high ← hexValue high
        let low ← hexValue low
        let bytes ← unescape rest
        pure ((high <<< 4 ||| low) :: bytes)
      | _ => none

def decodePathSegment (segment : Str) : Result Str :=
  match unescape segment with
  | none => .error (.badRequest (str "invalid percent escape in `" ++ segment ++ str "`"))
  | some bytes =>
    if LossyUtf8.lossy bytes = bytes then .ok bytes
    else .error (.badRequest (str "invalid UTF-8 in `" ++ segment ++ str "`"))

def decodeQueryComponent (component : Str) : Result Str :=
  decodePathSegment (component.map fun byte => if byte = 43 then 32 else byte)

def queryValueDecoded (query : Option Str) (key : Str) : Result Str :=
  match queryValue query key with
  | none => .error (.badRequest (str "missing " ++ key))
  | some value => decodeQueryComponent value

def queryU32 (query : Option Str) (key : Str) : Option UInt32 := do
  let value ← queryValue query key
  (parse 32 value).map UInt32.ofNat

def queryBool (query : Option Str) (key : Str) : Option Bool := do
  let value ← queryValue query key
  if value = str "true" then some true
  else if value = str "false" then some false
  else none

def volumeWriteOptions (query : Option Str) : VolumeWriteOptions :=
  { uid := queryU32 query (str "uid"), gid := queryU32 query (str "gid")
    mode := queryU32 query (str "mode"), force := queryBool query (str "force") }

def pathSegments (path : Str) : Result (List Str) :=
  let trimmed := (path.dropWhile (· = slash)).rdropWhile (· = slash)
  ((trimmed.splitOn slash).filter (· ≠ [])).mapM decodePathSegment

structure Decoders where
  sandboxCreate : List UInt8 → Except Str SandboxCreateRequest
  followupCreate : List UInt8 → Except Str FollowupSandboxCreateRequest
  connect : List UInt8 → Except Str ConnectRequest
  timeout : List UInt8 → Except Str TimeoutRequest
  refresh : List UInt8 → Except Str RefreshRequest
  createSnapshot : List UInt8 → Except Str CreateSnapshotRequest
  podCreate : List UInt8 → Except Str PodCreateRequest
  podContainer : List UInt8 → Except Str PodContainerCreateRequest
  templateBuild : List UInt8 → Except Str TemplateBuildRequest
  templateStart : List UInt8 → Except Str TemplateBuildStart
  templateUpdate : List UInt8 → Except Str TemplateUpdateRequest
  assignTags : List UInt8 → Except Str AssignTemplateTags
  removeTags : List UInt8 → Except Str RemoveTemplateTags
  /-- The name of the volume. -/
  volumeCreate : List UInt8 → Except Str Str
  volumeMetadata : List UInt8 → Except Str VolumeMetadataRequest

def Decoders.refusing : Decoders where
  sandboxCreate _ := .error []
  followupCreate _ := .error []
  connect _ := .error []
  timeout _ := .error []
  refresh _ := .error []
  createSnapshot _ := .error []
  podCreate _ := .error []
  podContainer _ := .error []
  templateBuild _ := .error []
  templateStart _ := .error []
  templateUpdate _ := .error []
  assignTags _ := .error []
  removeTags _ := .error []
  volumeCreate _ := .error []
  volumeMetadata _ := .error []

def decodeRequestBody {α : Type} (decode : List UInt8 → Except Str α)
    (request : ControlPlaneRequest) : Result α :=
  match request.body with
  | none => .error (.badRequest (str "missing JSON body"))
  | some body => (decode body).mapError .json

inductive Operation where
  | createPod (body : PodCreateRequest)
  | listPods
  | getPod (podId : Str)
  | deletePod (podId : Str)
  | addPodContainer (podId : Str) (body : PodContainerCreateRequest)
  | waitPodContainer (podId containerName : Str)
  | deletePodContainer (podId containerName : Str)
  | create (body : SandboxCreateRequest)
  | createFollowup (body : FollowupSandboxCreateRequest)
  | createDetached (body : SandboxCreateRequest)
  | createFollowupDetached (body : FollowupSandboxCreateRequest)
  | listSandboxes
  | metricsMany (sandboxIds : List Str)
  | listSnapshots (sandboxId : Option Str)
  | getSandbox (sandboxId : Str)
  | deleteSandbox (sandboxId : Str)
  | connect (sandboxId : Str) (body : ConnectRequest)
  | pause (sandboxId : Str)
  | setTimeout (sandboxId : Str) (body : TimeoutRequest)
  | refresh (sandboxId : Str) (body : RefreshRequest)
  | refreshMetrics (sandboxId : Str)
  | refreshLogs (sandboxId : Str)
  | createSnapshot (sandboxId : Str) (body : CreateSnapshotRequest)
  | removeTags (body : RemoveTemplateTags)
  | deleteTemplate (id : Str)
  | requestTemplateBuild (body : TemplateBuildRequest)
  | listTemplates
  | getTemplate (templateId : Str)
  | updateTemplate (templateId : Str) (body : TemplateUpdateRequest)
  | fileUpload (templateId hash : Str) (origin : Option Str)
  | uploadFile (templateId hash : Str) (bytes : List UInt8)
  | startTemplateBuild (templateId buildId : Str) (body : TemplateBuildStart)
  | buildStatus (templateId buildId : Str)
  | buildLogs (templateId buildId : Str)
  | lookupAlias (name : Str)
  | assignTags (body : AssignTemplateTags)
  | tags (templateId : Str)
  | createVolume (name : Str)
  | listVolumes
  | getVolume (volumeId : Str)
  | deleteVolume (volumeId : Str)
  | listDir (volumeId path : Str)
  | makeDir (volumeId path : Str) (options : VolumeWriteOptions)
  | pathInfo (volumeId path : Str)
  | updateMetadata (volumeId path : Str) (body : VolumeMetadataRequest)
  | removePath (volumeId path : Str)
  | readFile (volumeId path : Str)
  | writeFile (volumeId path : Str) (bytes : List UInt8) (options : VolumeWriteOptions)

section
variable (d : Decoders) (request : ControlPlaneRequest)

def unrouted : Result Operation := .error (.notFound request.path)

/-- `handle_pod_control_plane`; the first segment is `pods`. -/
def podRoute (segments : List Str) : Result Operation :=
  match request.method, segments with
  | .post, [_] => do
    let body ← decodeRequestBody d.podCreate request
    body.validate.mapError .badRequest
    pure (.createPod body)
  | .get, [_] => pure .listPods
  | .get, [_, podId] => pure (.getPod podId)
  | .delete, [_, podId] => pure (.deletePod podId)
  | .post, [_, podId, word] =>
    if word = str "containers" then do
      let body ← decodeRequestBody d.podContainer request
      pure (.addPodContainer podId body)
    else unrouted request
  | .post, [_, podId, word, containerName, last] =>
    if word = str "containers" ∧ last = str "wait" then
      pure (.waitPodContainer podId containerName)
    else unrouted request
  | .delete, [_, podId, word, containerName] =>
    if word = str "containers" then pure (.deletePodContainer podId containerName)
    else unrouted request
  | _, _ => unrouted request

def metricsRoute (query : Option Str) : Result Operation :=
  match queryValue query (str "sandbox_ids") with
  | none => .error (.badRequest (str "missing sandbox_ids"))
  | some ids => pure (.metricsMany ((ids.splitOn 44).filter (· ≠ [])))

def sandboxAction (sandboxId action : Str) : Result Operation :=
  if action = str "connect" ∨ action = str "resume" then do
    let body ← decodeRequestBody d.connect request
    pure (.connect sandboxId body)
  else if action = str "pause" then pure (.pause sandboxId)
  else if action = str "timeout" then do
    let body ← decodeRequestBody d.timeout request
    pure (.setTimeout sandboxId body)
  else if action = str "refreshes" then do
    let body ← decodeRequestBody d.refresh request
    pure (.refresh sandboxId body)
  else if action = str "snapshots" then do
    let body ← decodeRequestBody d.createSnapshot request
    pure (.createSnapshot sandboxId body)
  else unrouted request

/-- `handle_sandbox_control_plane`. -/
def sandboxRoute (query : Option Str) (segments : List Str) : Result Operation :=
  match request.method, segments with
  | .post, [first] =>
    if first = str "sandboxes" then do
      let body ← decodeRequestBody d.sandboxCreate request
      pure (.create body)
    else unrouted request
  | .post, [first, second] =>
    if first = str "sandboxes" ∧ second = str "followups" then do
      let body ← decodeRequestBody d.followupCreate request
      pure (.createFollowup body)
    else unrouted request
  | .get, [first, second] =>
    if first = str "v2" ∧ second = str "sandboxes" then pure .listSandboxes
    else if first ≠ str "sandboxes" then unrouted request
    else if second = str "metrics" then metricsRoute query
    else pure (.getSandbox second)
  | .get, [first] =>
    if first = str "snapshots" then pure (.listSnapshots (queryValue query (str "sandboxID")))
    else unrouted request
  | .delete, [first, sandboxId] =>
    if first = str "sandboxes" then pure (.deleteSandbox sandboxId) else unrouted request
  | .post, [first, sandboxId, action] =>
    if first = str "sandboxes" then sandboxAction d request sandboxId action
    else unrouted request
  | .get, [first, sandboxId, last] =>
    if first = str "sandboxes" ∧ last = str "metrics" then pure (.refreshMetrics sandboxId)
    else unrouted request
  | .get, [first, second, sandboxId, last] =>
    if first = str "v2" ∧ second = str "sandboxes" ∧ last = str "logs" then
      pure (.refreshLogs sandboxId)
    else unrouted request
  | _, _ => unrouted request

/-- `handle_template_control_plane`. -/
def templateRoute (segments : List Str) : Result Operation :=
  match request.method, segments with
  | .delete, [first, id] =>
    if first ≠ str "templates" then unrouted request
    else if id = str "tags" then do
      let body ← decodeRequestBody d.removeTags request
      pure (.removeTags body)
    else pure (.deleteTemplate id)
  | .post, [first, second] =>
    if first = str "v3" ∧ second = str "templates" then do
      let body ← decodeRequestBody d.templateBuild request
      pure (.requestTemplateBuild body)
    else if first = str "templates" ∧ second = str "tags" then do
      let body ← decodeRequestBody d.assignTags request
      pure (.assignTags body)
    else unrouted request
  | .get, [first] => if first = str "templates" then pure .listTemplates else unrouted request
  | .get, [first, templateId] =>
    if first = str "templates" then pure (.getTemplate templateId) else unrouted request
  | .patch, [first, second, templateId] =>
    if first = str "v2" ∧ second = str "templates" then do
      let body ← decodeRequestBody d.templateUpdate request
      pure (.updateTemplate templateId body)
    else unrouted request
  | .get, [first, templateId, word, hash] =>
    if first = str "templates" ∧ word = str "files" then
      pure (.fileUpload templateId hash request.origin)
    else unrouted request
  | .put, [first, templateId, word, hash, last] =>
    if first = str "templates" ∧ word = str "files" ∧ last = str "upload" then
      pure (.uploadFile templateId hash (request.body.getD []))
    else unrouted request
  | .post, [first, second, templateId, word, buildId] =>
    if first = str "v2" ∧ second = str "templates" ∧ word = str "builds" then do
      let body ← decodeRequestBody d.templateStart request
      pure (.startTemplateBuild templateId buildId body)
    else unrouted request
  | .get, [first, templateId, word, buildId, last] =>
    if first ≠ str "templates" ∨ word ≠ str "builds" then unrouted request
    else if last = str "status" then pure (.buildStatus templateId buildId)
    else if last = str "logs" then pure (.buildLogs templateId buildId)
    else unrouted request
  | .get, [first, second, third] =>
    if first ≠ str "templates" then unrouted request
    else if second = str "aliases" then pure (.lookupAlias third)
    else if third = str "tags" then pure (.tags second)
    else unrouted request
  | _, _ => unrouted request

def contentRoute (volumeId word : Str) : Result Operation :=
  let query := (splitPathQuery request.path).2
  match request.method with
  | .get =>
    if word = str "dir" then do
      pure (.listDir volumeId (← queryValueDecoded query (str "path")))
    else if word = str "path" then do
      pure (.pathInfo volumeId (← queryValueDecoded query (str "path")))
    else if word = str "file" then do
      pure (.readFile volumeId (← queryValueDecoded query (str "path")))
    else unrouted request
  | .post =>
    if word = str "dir" then do
      let path ← queryValueDecoded query (str "path")
      pure (.makeDir volumeId path (volumeWriteOptions query))
    else unrouted request
  | .patch =>
    if word = str "path" then do
      let path ← queryValueDecoded query (str "path")
      let body ← decodeRequestBody d.volumeMetadata request
      pure (.updateMetadata volumeId path body)
    else unrouted request
  | .delete =>
    if word = str "path" then do
      pure (.removePath volumeId (← queryValueDecoded query (str "path")))
    else unrouted request
  | .put =>
    if word = str "file" then do
      let path ← queryValueDecoded query (str "path")
      pure (.writeFile volumeId path (request.body.getD []) (volumeWriteOptions query))
    else unrouted request

/-- `handle_volume_control_plane`. -/
def volumeRoute (segments : List Str) : Result Operation :=
  match request.method, segments with
  | .post, [first] =>
    if first = str "volumes" then do
      let name ← decodeRequestBody d.volumeCreate request
      pure (.createVolume name)
    else unrouted request
  | .get, [first] => if first = str "volumes" then pure .listVolumes else unrouted request
  | .get, [first, volumeId] =>
    if first = str "volumes" then pure (.getVolume volumeId) else unrouted request
  | .delete, [first, volumeId] =>
    if first = str "volumes" then pure (.deleteVolume volumeId) else unrouted request
  | _, [first, volumeId, word] =>
    if first = str "volumecontent" then contentRoute d request volumeId word
    else unrouted request
  | _, _ => unrouted request

def isPodRoute (segments : List Str) : Bool := segments.head? = some (str "pods")

def isSandboxRoute (segments : List Str) : Bool :=
  segments.head? = some (str "sandboxes") || segments = [str "snapshots"] ||
    [str "v2", str "sandboxes"].isPrefixOf segments

def isTemplateRoute (segments : List Str) : Bool :=
  segments.head? = some (str "templates") || [str "v2", str "templates"].isPrefixOf segments ||
    segments = [str "v3", str "templates"]

def isVolumeRoute (segments : List Str) : Bool :=
  segments.head? = some (str "volumes") || segments.head? = some (str "volumecontent")

/-- The way through `handle_control_plane` to an arm. -/
def route : Result Operation := do
  let (path, query) := splitPathQuery request.path
  let segments ← pathSegments path
  if isPodRoute segments then podRoute d request segments
  else if isSandboxRoute segments then sandboxRoute d request query segments
  else if isTemplateRoute segments then templateRoute d request segments
  else if isVolumeRoute segments then volumeRoute d request segments
  else if segments.isEmpty then .error (.notFound (str "/"))
  else .error (.notFound path)

/-- `handle_concurrent_control_plane_create`: two requests that are not made to wait for each
other. Only paths spelled exactly so go this way. -/
def concurrentCreate : Option (Result Operation) :=
  let path := (splitPathQuery request.path).1
  if request.method = .post ∧ path = str "/sandboxes" then
    some ((decodeRequestBody d.sandboxCreate request).map .createDetached)
  else if request.method = .post ∧ path = str "/sandboxes/followups" then
    some ((decodeRequestBody d.followupCreate request).map .createFollowupDetached)
  else none

def dispatch : Result Operation := (concurrentCreate d request).getD (route d request)
end

/-- Operations asked for by a `GET`. -/
def Operation.reads : Operation → Bool
  | .listPods | .getPod _ | .listSandboxes | .metricsMany _ | .listSnapshots _ | .getSandbox _
  | .refreshMetrics _ | .refreshLogs _ | .listTemplates | .getTemplate _ | .fileUpload _ _ _
  | .buildStatus _ _ | .buildLogs _ _ | .lookupAlias _ | .tags _ | .listVolumes | .getVolume _
  | .listDir _ _ | .pathInfo _ _ | .readFile _ _ => true
  | _ => false

def Fits (method : ControlPlaneMethod) (result : Result Operation) : Prop :=
  ∀ operation, result = .ok operation → operation.reads = !method.mutatesState

section
variable {α : Type} {method : ControlPlaneMethod} {d : Decoders} {request : ControlPlaneRequest}

theorem fits_error : Fits method (.error e) := by
  intro operation h
  cases h

theorem fits_pure (hm : method = method')
    (h : operation.reads = !method'.mutatesState) : Fits method (pure operation) := by
  intro operation' heq
  cases heq
  rw [hm, h]

theorem fits_bind (hk : ∀ a, Fits method (k a)) : Fits method (result >>= k) := by
  intro operation h
  obtain ⟨a, -, ha⟩ := except_bind_eq_ok.mp h
  exact hk a operation ha

theorem fits_ite [Decidable p] (hx : Fits method x)
    (hy : Fits method y) : Fits method (if p then x else y) := by
  split
  · exact hx
  · exact hy

theorem fits_podRoute (segments : List Str) :
    Fits request.method (podRoute d request segments) := by
  unfold podRoute
  split
  · exact fits_bind fun _ => fits_bind fun _ => fits_pure ‹_› rfl
  · exact fits_pure ‹_› rfl
  · exact fits_pure ‹_› rfl
  · exact fits_pure ‹_› rfl
  · exact fits_ite (fits_bind fun _ => fits_pure ‹_› rfl) fits_error
  · exact fits_ite (fits_pure ‹_› rfl) fits_error
  · exact fits_ite (fits_pure ‹_› rfl) fits_error
  · exact fits_error

theorem fits_when [Decidable p] (hm : method = method')
    (h : operation.reads = !method'.mutatesState) :
    Fits method (if p then pure operation else .error e) :=
  fits_ite (fits_pure hm h) fits_error

theorem fits_decoded [Decidable p] {f : α → Operation} (hm : method = method')
    (h : ∀ a, (f a).reads = !method'.mutatesState) :
    Fits method (if p then result >>= fun a => pure (f a) else .error e) :=
  fits_ite (fits_bind fun a => fits_pure hm (h a)) fits_error

theorem fits_metricsRoute (hm : method = .get) (query : Option Str) :
    Fits method (metricsRoute query) := by
  unfold metricsRoute
  split
  · exact fits_error
  · exact fits_pure hm rfl

theorem fits_sandboxAction (hm : method = .post) {sandboxId action : Str} :
    Fits method (sandboxAction d request sandboxId action) := by
  refine fits_ite (fits_bind fun _ => fits_pure hm rfl) (fits_ite (fits_pure hm rfl) ?_)
  refine fits_ite (fits_bind fun _ => fits_pure hm rfl) ?_
  refine fits_ite (fits_bind fun _ => fits_pure hm rfl) ?_
  exact fits_decoded hm fun _ => rfl

theorem fits_sandboxRoute (segments : List Str) :
    Fits request.method (sandboxRoute d request query segments) := by
  unfold sandboxRoute
  split
  · exact fits_decoded ‹_› fun _ => rfl
  · exact fits_decoded ‹_› fun _ => rfl
  · refine fits_ite (fits_pure ‹_› rfl) (fits_ite fits_error ?_)
    exact fits_ite (fits_metricsRoute ‹_› query) (fits_pure ‹_› rfl)
  · exact fits_when ‹_› rfl
  · exact fits_when ‹_› rfl
  · exact fits_ite (fits_sandboxAction ‹_›) fits_error
  · exact fits_when ‹_› rfl
  · exact fits_when ‹_› rfl
  · exact fits_error

theorem fits_templateRoute (segments : List Str) :
    Fits request.method (templateRoute d request segments) := by
  unfold templateRoute
  split
  · refine fits_ite fits_error ?_
    exact fits_ite (fits_bind fun _ => fits_pure ‹_› rfl) (fits_pure ‹_› rfl)
  · refine fits_ite (fits_bind fun _ => fits_pure ‹_› rfl) ?_
    exact fits_decoded ‹_› fun _ => rfl
  · exact fits_when ‹_› rfl
  · exact fits_when ‹_› rfl
  · exact fits_decoded ‹_› fun _ => rfl
  · exact fits_when ‹_› rfl
  · exact fits_when ‹_› rfl
  · exact fits_decoded ‹_› fun _ => rfl
  · refine fits_ite fits_error (fits_ite (fits_pure ‹_› rfl) ?_)
    exact fits_when ‹_› rfl
  · refine fits_ite fits_error (fits_ite (fits_pure ‹_› rfl) ?_)
    exact fits_when ‹_› rfl
  · exact fits_error

theorem fits_contentRoute : Fits request.method (contentRoute d request volumeId word) := by
  unfold contentRoute
  split
  · refine fits_ite (fits_bind fun _ => fits_pure ‹_› rfl) ?_
    refine fits_ite (fits_bind fun _ => fits_pure ‹_› rfl) ?_
    exact fits_decoded ‹_› fun _ => rfl
  · exact fits_decoded ‹_› fun _ => rfl
  · exact fits_ite (fits_bind fun _ => fits_bind fun _ => fits_pure ‹_› rfl) fits_error
  · exact fits_decoded ‹_› fun _ => rfl
  · exact fits_decoded ‹_› fun _ => rfl

theorem fits_volumeRoute (segments : List Str) :
    Fits request.method (volumeRoute d request segments) := by
  unfold volumeRoute
  split
  · exact fits_decoded ‹_› fun _ => rfl
  · exact fits_when ‹_› rfl
  · exact fits_when ‹_› rfl
  · exact fits_when ‹_› rfl
  · exact fits_ite fits_contentRoute fits_error
  · exact fits_error

theorem fits_route : Fits request.method (route d request) := by
  refine fits_bind fun segments => ?_
  refine fits_ite (fits_podRoute segments) (fits_ite (fits_sandboxRoute segments) ?_)
  refine fits_ite (fits_templateRoute segments) (fits_ite (fits_volumeRoute segments) ?_)
  exact fits_ite fits_error fits_error

theorem fits_dispatch : Fits request.method (dispatch d request) := by
  unfold dispatch concurrentCreate
  dsimp only
  split
  · next h => exact fits_bind fun _ => fits_pure h.1 rfl
  · split
    · next h => exact fits_bind fun _ => fits_pure h.1 rfl
    · exact fits_route
end

/-- What a response carries: nothing, a file, or the JSON text of a value. -/
inductive Payload where
  | empty
  | bytes (data : List UInt8)
  | pod (info : PodInfo)
  | pods (infos : List PodInfo)
  | container (info : PodContainerInfo)
  | output (output : PodContainerOutput)
  | connected (sandbox : ConnectedSandbox)
  | sandbox (info : SandboxInfo)
  | sandboxes (infos : List SandboxInfo)
  | metricsBySandbox (samples : Table Str SandboxMetric)
  | metrics (samples : List SandboxMetric)
  | logs (logs : SandboxLogs)
  | snapshot (info : SnapshotInfo)
  | snapshots (infos : List SnapshotInfo)
  | buildRequest (info : TemplateBuildRequestInfo)
  | template (info : TemplateWithBuilds)
  | templates (infos : List TemplateInfo)
  | names (names : List Str)
  | upload (info : TemplateFileUpload)
  | build (info : TemplateBuildInfo)
  | buildLogs (logs : List BuildLogEntry)
  | aliasInfo (info : TemplateAliasInfo)
  | assignedTags (tags : AssignedTemplateTags)
  | tags (tags : List TemplateTag)
  | volume (info : VolumeAndToken)
  | volumes (infos : List VolumeInfo)
  | entry (stat : VolumeEntryStat)
  | entries (stats : List VolumeEntryStat)

structure ControlPlaneResponse where
  status : Nat
  payload : Payload

abbrev Handler := EStateM ControlPlaneError LocalRuntimeBackend

def viaBackend {α : Type} (method : Api α) : Handler α := fun s =>
  match method s with
  | .ok a t => .ok a t
  | .error e t => .error (.backend e) t

def jsonResponse {α : Type} (payload : α → Payload) (method : Api α) :
    Handler ControlPlaneResponse := do
  let a ← viaBackend method
  pure ⟨200, payload a⟩

def noContent : ControlPlaneResponse := ⟨204, .empty⟩

def emptyResponse (method : Api Unit) : Handler ControlPlaneResponse := do
  viaBackend method
  pure noContent

/-- The answer to a method that says whether there was something to do. -/
def confirmed (method : Api Bool) (error : ControlPlaneError) : Handler ControlPlaneResponse := do
  if ← viaBackend method then pure noContent else throw error

def look {α : Type} (read : LocalRuntimeState → LocalBackend.Result α) : Api α := do
  MonadExcept.ofExcept (read (← get).toLocalRuntimeState)

def onTemplateRegistry {α : Type} (method : TemplateRegistry.LocalTemplateRegistry →
    LocalBackend.Result (α × TemplateRegistry.LocalTemplateRegistry)) : Api α :=
  onTemplates (TemplateRegistry.attempt method)

def onVolumes {α : Type}
    (method : LocalVolumeRegistry → LocalBackend.Result (α × LocalVolumeRegistry)) : Api α :=
  fun s =>
  match method s.volumes with
  | .ok (a, volumes) => .ok a { s with volumes }
  | .error e => .error e s

def createVolume (name : Str) : Api VolumeAndToken := fun s =>
  match s.volumes.create name with
  | (.ok volume, volumes) => .ok volume { s with volumes }
  | (.error e, volumes) => .error e { s with volumes }

def deleteVolume (volumeId : Str) : Api Bool := modifyGet fun s =>
  let (existed, volumes) := s.volumes.delete volumeId
  (existed, { s with volumes })

def keepEndAt (sandboxId : Str)
    (method : SandboxRegistry.LocalSandboxRegistry → Str →
      LocalBackend.Result (Unit × SandboxRegistry.LocalSandboxRegistry)) : Api Unit := do
  let info ← look (·.sandboxes.get sandboxId)
  onSandboxes (method · info.endAt)

/-- The arm for `DELETE templates/id`: the id may be that of a snapshot. -/
def deleteTemplate (a : RuntimeAdapter) (id : Str) : Handler ControlPlaneResponse := do
  let (existed, templates) := (← get).templates.delete id
  modify fun s => { s with templates }
  if existed then pure noContent
  else if ((← get).sandboxes.snapshotPreparedTemplate id).isSome then
    viaBackend (MonadExcept.ofExcept (a.deleteSnapshot id))
    modify fun s => { s with sandboxes := (s.sandboxes.deleteSnapshot id).2 }
    pure noContent
  else throw (.notFound id)

def lookupAlias (name : Str) : Handler ControlPlaneResponse := do
  match (← get).templates.lookupAlias name with
  | some info => pure ⟨200, .aliasInfo info⟩
  | none => throw (.notFound name)

def perform (a : RuntimeAdapter) : Operation → Handler ControlPlaneResponse
  | .createPod body => jsonResponse .pod (createPod a body)
  | .listPods => jsonResponse .pods (look fun s => .ok s.pods.list)
  | .getPod podId => jsonResponse .pod (look (·.pods.get podId))
  | .deletePod podId => confirmed (deletePod a podId) (.notFound podId)
  | .addPodContainer podId body => jsonResponse .container (addPodContainer a podId body)
  | .waitPodContainer podId containerName =>
    jsonResponse .output (waitPodContainer a podId containerName)
  | .deletePodContainer podId containerName =>
    emptyResponse (deletePodContainer a podId containerName)
  | .create body => jsonResponse .connected (create a body)
  | .createFollowup body => jsonResponse .connected (createFollowup a body)
  | .createDetached body => jsonResponse .connected (createWithDetachedRuntimeStart a body)
  | .createFollowupDetached body =>
    jsonResponse .connected (createFollowupWithDetachedRuntimeStart a body)
  | .listSandboxes => jsonResponse .sandboxes (look fun s => .ok s.sandboxes.list)
  | .metricsMany sandboxIds =>
    jsonResponse .metricsBySandbox (look (·.sandboxes.metricsMany sandboxIds))
  | .listSnapshots sandboxId =>
    jsonResponse .snapshots (look fun s => .ok (s.sandboxes.listSnapshots sandboxId))
  | .getSandbox sandboxId => jsonResponse .sandbox (look (·.sandboxes.get sandboxId))
  | .deleteSandbox sandboxId => confirmed (delete a sandboxId) (.notFound sandboxId)
  | .connect sandboxId body => jsonResponse .connected (connect a sandboxId body)
  | .pause sandboxId => confirmed (pause a sandboxId) (.backend (.alreadyExists sandboxId))
  | .setTimeout sandboxId body =>
    emptyResponse (keepEndAt sandboxId (·.setTimeout sandboxId body ·))
  | .refresh sandboxId body => emptyResponse (keepEndAt sandboxId (·.refresh sandboxId body ·))
  | .refreshMetrics sandboxId => jsonResponse .metrics (refreshMetrics a sandboxId)
  | .refreshLogs sandboxId => jsonResponse .logs (refreshLogs a sandboxId)
  | .createSnapshot sandboxId body => jsonResponse .snapshot (createSnapshot a sandboxId body)
  | .removeTags body => emptyResponse (onTemplateRegistry (·.removeTags body))
  | .deleteTemplate id => deleteTemplate a id
  | .requestTemplateBuild body => jsonResponse .buildRequest
      (onTemplates (TemplateRegistry.requestTemplateBuild a.prepareTemplate body))
  | .listTemplates => jsonResponse .templates (look fun s => .ok s.templates.list)
  | .getTemplate templateId => jsonResponse .template (look (·.templates.get templateId))
  | .updateTemplate templateId body =>
    jsonResponse .names (onTemplateRegistry (·.update templateId body))
  | .fileUpload templateId hash origin =>
    jsonResponse .upload (look (·.templates.fileUpload templateId hash origin))
  | .uploadFile templateId hash bytes =>
    emptyResponse (onTemplateRegistry (·.uploadFile templateId hash bytes))
  | .startTemplateBuild templateId buildId body => emptyResponse
      (onTemplates (TemplateRegistry.startTemplateBuild a.buildTemplate templateId buildId body))
  | .buildStatus templateId buildId =>
    jsonResponse .build (look (·.templates.buildStatus templateId buildId))
  | .buildLogs templateId buildId =>
    jsonResponse .buildLogs (look (·.templates.buildLogs templateId buildId))
  | .lookupAlias name => lookupAlias name
  | .assignTags body => jsonResponse .assignedTags (onTemplateRegistry (·.assignTags body))
  | .tags templateId => jsonResponse .tags (look (·.templates.tags templateId))
  | .createVolume name => jsonResponse .volume (createVolume name)
  | .listVolumes => jsonResponse .volumes (look fun s => .ok s.volumes.list)
  | .getVolume volumeId => jsonResponse .volume (look (·.volumes.get volumeId))
  | .deleteVolume volumeId => confirmed (deleteVolume volumeId) (.notFound volumeId)
  | .listDir volumeId path => jsonResponse .entries (look (·.volumes.listDir volumeId path))
  | .makeDir volumeId path options =>
    jsonResponse .entry (onVolumes (·.makeDir volumeId path options))
  | .pathInfo volumeId path => jsonResponse .entry (look (·.volumes.pathInfo volumeId path))
  | .updateMetadata volumeId path body =>
    jsonResponse .entry (onVolumes (·.updateMetadata volumeId path body))
  | .removePath volumeId path => emptyResponse (onVolumes (·.removePath volumeId path))
  | .readFile volumeId path => jsonResponse .bytes (look (·.volumes.readFile volumeId path))
  | .writeFile volumeId path bytes options =>
    jsonResponse .entry (onVolumes (·.writeFile volumeId path bytes options))

inductive HttpAnswer where
  | unauthorized
  | answered (result : Result ControlPlaneResponse)

variable {φ : Type}

def authorized (apiKey : Option Str) (request : HttpRequest) : Bool :=
  apiKey.all fun key => request.apiKey = some key

/-- The state is saved after a request that succeeded and was not a `GET`. -/
def handleRequest (d : Decoders) (store : Store φ) (a : RuntimeAdapter)
    (request : ControlPlaneRequest) (s : Server φ) : Result ControlPlaneResponse × Server φ :=
  match dispatch d request with
  | .error e => (.error e, s)
  | .ok operation =>
    match perform a operation s.backend with
    | .error e backend => (.error e, { s with backend })
    | .ok response backend =>
      if request.method.mutatesState then
        match saveStateJson store { s with backend } with
        | .ok s => (.ok response, s)
        | .error e => (.error (.stateStore e), { s with backend })
      else (.ok response, { s with backend })

def handleHttpRequest (d : Decoders) (apiKey : Option Str) (store : Store φ) (a : RuntimeAdapter)
    (request : HttpRequest) (s : Server φ) : HttpAnswer × Server φ :=
  if authorized apiKey request then
    match convertHttpRequest request with
    | .error e => (.answered (.error e), s)
    | .ok request =>
      let (result, s) := handleRequest d store a request s
      (.answered result, s)
  else (.unauthorized, s)

end ControlPlane
