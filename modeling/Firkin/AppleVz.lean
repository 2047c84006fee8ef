import Firkin.SingleNode
import Mathlib.Data.List.DropRight

/-! # The Apple/VZ sandbox backend

The sandbox API over the single-node backend: a registry of prepared templates, pools of warm
sandboxes, and a counter from which sandbox ids are made. `hosts i j` is what the `j`-th call
into the inner backend meets, for the `i`-th target of `maintain` and with `i = 0` elsewhere,
when the call is for the given sandbox. The counter is 64 bits wide and wraps. -/
namespace AppleVz

open Ext4Types DecimalText SingleNode QueueMap FaultMonad Std Relation.ReflTransGen

inductive ResourceKind where
  | template
  | sandbox
  | snapshot
  | warmPool

inductive RetryClass where
  | retryable
  | unknown

inductive InvalidId where
  | empty (kind : Str)
  | tooLong (kind value : Str) (max : Nat)
  | forbiddenChars (kind value : Str)
  deriving DecidableEq

inductive TemplatePrepareFailure where
  | envdMissing (reference : Option Str)
  | unsupportedImageConfig (reason : Str)

inductive ApiError where
  | unsupportedCapability (operation detail : Str)
  | invalidCommand (operation reason : Str)
  | invalidId (error : InvalidId)
  | notFound (operation : Str) (resource : ResourceKind) (id : Str)
  | alreadyExists (operation : Str) (resource : ResourceKind) (id : Str)
  | capacityRejected (operation reason : Str) (retry : RetryClass)
  | templatePrepare (failure : TemplatePrepareFailure)
  | backendFailure (operation reason : Str)

def errorText : Error → Str
  | .invalidRequest text => str "invalid single-node runtime request: " ++ text
  | .unsupportedCapability text => str "unsupported single-node runtime capability: " ++ text
  | .capacityRejected text => str "single-node runtime capacity rejected operation: " ++ text
  | .diskPressure text => str "single-node runtime disk pressure: " ++ text
  | .sandboxNotFound text => str "single-node sandbox not found: " ++ text
  | .snapshotNotFound text => str "single-node snapshot not found: " ++ text
  | .conflict text => str "single-node runtime conflict: " ++ text
  | .templateBuildFailed text => str "single-node template build failed: " ++ text
  | .runtimeLaunchFailed text => str "single-node runtime launch failed: " ++ text
  | .runtimeCommandFailed text => str "single-node runtime command failed: " ++ text
  | .statePersistenceFailed text => str "single-node runtime state persistence failed: " ++ text
  | .protocolFailure text => str "single-node runtime protocol failure: " ++ text

def mapError (operation : Str) : Error → ApiError
  | .unsupportedCapability reason => .unsupportedCapability operation reason
  | .sandboxNotFound id => .notFound operation .sandbox id
  | .snapshotNotFound id => .notFound operation .snapshot id
  | .capacityRejected reason => .capacityRejected operation reason .unknown
  | .diskPressure reason => .capacityRejected operation reason .retryable
  | .conflict id => .alreadyExists operation .sandbox id
  | other => .backendFailure operation (errorText other)

def isIdByte (b : UInt8) : Bool :=
  97 ≤ b ∧ b ≤ 122 ∨ 65 ≤ b ∧ b ≤ 90 ∨ 48 ≤ b ∧ b ≤ 57 ∨ b = 95 ∨ b = 46 ∨ b = 45

/-- The ids that pass have ASCII bytes only, so bytes are counted for characters. -/
def validateId (kind value : Str) : Except InvalidId Str :=
  if value = [] then .error (.empty kind)
  else if value.length > 128 then .error (.tooLong kind value 128)
  else if value.all isIdByte then .ok value
  else .error (.forbiddenChars kind value)

def underscore : UInt8 := 95

def sanitizeIdValue (raw : Str) : Str :=
  let cleaned := raw.map fun b => if isIdByte b then b else underscore
  ((cleaned.dropWhile (· = underscore)).rdropWhile (· = underscore)).take 64

def sandboxName (n : Nat) : Str := str "sbx_firkin_" ++ render n

inductive TemplateSource where
  | oci (reference : Str)
  | git (url : Str)
  | local (path : Str)
  deriving DecidableEq

inductive DataPlaneSpec where
  | none
  | envd (inject : Bool)

structure TemplateSpec where
  id : Option Str := none
  source : TemplateSource
  dataPlane : DataPlaneSpec := .none

structure PreparedTemplate where
  id : Str
  source : TemplateSource
  deriving DecidableEq

/-- A create or restore made in the inner backend, and whether the id was active then. -/
structure Launch where
  sandboxId : Str
  taken : Bool
  deriving DecidableEq

/-- `allocated` and `launches` are the model's own record. -/
structure AppleVzBackend where
  inner : Backend
  templates : TreeMap Str PreparedTemplate := ∅
  warmPools : TreeMap Str (List Str) := ∅
  nextSandbox : UInt64 := 0
  allocated : Nat := 0
  launches : List Launch := []

def fromSingleNode (inner : Backend) : AppleVzBackend := { inner }
abbrev Api := EStateM ApiError AppleVzBackend

def raise {α : Type} : Except InvalidId α → Api α
  | .ok a => pure a
  | .error e => throw (.invalidId e)

/-- A call into the inner backend; what it changed there stays when it fails. -/
def onInner {α : Type} (operation : Str) (action : Action α) : Api α := fun s =>
  match action s.inner with
  | .ok a inner => .ok a { s with inner }
  | .error e inner => .error (mapError operation e) { s with inner }

def noteLaunch (sandboxId : Str) : Api Unit :=
  modify fun s =>
    { s with launches := s.launches ++ [⟨sandboxId, (lookup sandboxId s.inner.active).isSome⟩] }

def nextSandboxId : Api Str := do
  modify fun s => { s with nextSandbox := s.nextSandbox + 1, allocated := s.allocated + 1 }
  raise (validateId (str "sandbox id") (sandboxName (← get).nextSandbox.toNat))

def sourceReference : TemplateSource → Str
  | .oci reference => reference
  | .git url => url
  | .local path => path

def templateIdFromSource (source : TemplateSource) : Str :=
  sanitizeIdValue (sourceReference source)

/-- The generated id has to be valid even where an explicit one is used. -/
def prepareTemplate (spec : TemplateSpec) : Api PreparedTemplate := do
  match spec.dataPlane with
  | .none => pure ()
  | .envd true => throw (.templatePrepare (.envdMissing (some (sourceReference spec.source))))
  | .envd false =>
    throw (.templatePrepare (.unsupportedImageConfig
      (str "single-node Apple/VZ adapter cannot verify preinstalled envd yet")))
  let generated ← raise (validateId (str "template id") (templateIdFromSource spec.source))
  let id := spec.id.getD generated
  let prepared : PreparedTemplate := ⟨id, spec.source⟩
  modify fun s => { s with templates := s.templates.insert id prepared }
  pure prepared

def deleteTemplate (id : Str) : Api Unit :=
  modify fun s => { s with templates := s.templates.erase id }

def runtimeTemplateId (templateId : Str) : Api Str := do
  match (← get).templates[templateId]? with
  | none => throw (.notFound (str "resolve runtime template") .template templateId)
  | some template =>
    match template.source with
    | .oci reference => pure reference
    | .git url =>
      throw (.templatePrepare (.unsupportedImageConfig
        (str "single-node Apple/VZ adapter cannot create Git template source `" ++ url ++ str "`")))
    | .local path =>
      throw (.templatePrepare (.unsupportedImageConfig
        (str "single-node Apple/VZ adapter cannot create local template source `" ++ path ++
          str "`")))

def publicTemplateIdForRuntime (runtimeTemplate : Str) : Api Str := do
  match (← get).templates.toList.find? fun p => p.2.source = .oci runtimeTemplate with
  | some (id, _) => pure id
  | none => raise (validateId (str "template id") (sanitizeIdValue runtimeTemplate))

inductive SandboxDeadline where
  | timeout (seconds : UInt64)
  | at (time : Int64)

inductive SandboxSpec where
  | template (templateId : Str) (resources : Option SandboxResources)
      (deadline : Option SandboxDeadline)
  | snapshot (snapshotId : Str)

structure SandboxInfo where
  id : Str
  templateId : Str
  resources : SandboxResources

def defaultResources : SandboxResources := ⟨2, 8 * 1024 * 1024 * 1024⟩

def requestTimeout : Option SandboxDeadline → Option UInt64
  | some (.timeout seconds) => some seconds
  | _ => none

def createRequestFromSpec (sandboxId : Str) : SandboxSpec → Api SingleNodeCreateRequest
  | .template templateId resources deadline => do
    let runtimeTemplate ← runtimeTemplateId templateId
    pure {
      sandboxId, templateId := runtimeTemplate, resources := resources.getD defaultResources
      timeout := requestTimeout deadline }
  | .snapshot snapshotId =>
    throw (.invalidCommand (str "create sandbox") (str "use restore for snapshot " ++ snapshotId))

def activeToInfo (record : ActiveSessionRecord) : Api SandboxInfo := do
  let id ← raise (validateId (str "sandbox id") record.sandboxId)
  let templateId ← publicTemplateIdForRuntime record.templateId
  pure ⟨id, templateId, record.resources⟩

def inspectSandbox (id : Str) : Api SandboxInfo := do
  match lookup id (← get).inner.active with
  | some record => activeToInfo record
  | none => throw (.notFound (str "inspect sandbox") .sandbox id)

def createSandbox (host : Str → Host) (spec : SandboxSpec) : Api SandboxInfo := do
  let sandboxId ← nextSandboxId
  let request ← createRequestFromSpec sandboxId spec
  noteLaunch sandboxId
  let _ ← onInner (str "create sandbox") (create (host sandboxId) request)
  inspectSandbox sandboxId

def findSnapshot (id : Str) : Api SnapshotRecord := do
  match (← get).inner.snapshots.find? (·.snapshotId = id) with
  | some record => pure record
  | none => throw (.notFound (str "find snapshot") .snapshot id)

def restoreSandbox (host : Str → Host) (snapshotId : Str) : Api SandboxInfo := do
  let sandboxId ← nextSandboxId
  let record ← findSnapshot snapshotId
  noteLaunch sandboxId
  let _ ← onInner (str "restore sandbox") (restore (host sandboxId)
    { sandboxId, templateId := record.startCommand.getD (str "snapshot"),
      resources := defaultResources })
  inspectSandbox sandboxId

def stopSandbox (host : Str → Host) (id : Str) : Api Unit :=
  onInner (str "stop sandbox") (delete (host id) id)

def killSandbox (host : Str → Host) (id : Str) : Api Unit := stopSandbox host id

def deleteSandbox (host : Str → Host) (id : Str) : Api Unit :=
  onInner (str "delete sandbox") (delete (host id) id)

structure WarmMaintainReport where
  created : Nat := 0
  evicted : Nat := 0
  ready : Nat := 0

structure WarmLease where
  key : Str
  sandboxId : Str

inductive WarmLeasePolicy where
  | requireReady
  | createIfEmpty
  deriving DecidableEq

def warmPoolKey (templateId : Str) : Except InvalidId Str :=
  validateId (str "warm-pool key") (str "template-" ++ templateId)

def warmReadyCount (key : Str) : Api Nat := return (queue (← get).warmPools key).length

def recordWarmSandbox (key sandboxId : Str) : Api Unit :=
  modify fun s =>
    { s with warmPools := s.warmPools.insert key (queue s.warmPools key ++ [sandboxId]) }

def createWarmSandbox (host : Str → Host) (templateId : Str) : Api Str := do
  let sandboxId ← nextSandboxId
  let runtimeTemplate ← runtimeTemplateId templateId
  noteLaunch sandboxId
  let _ ← onInner (str "prewarm sandbox") (create (host sandboxId)
    { sandboxId, templateId := runtimeTemplate, resources := defaultResources })
  pure sandboxId

/-- The loop of `prewarm` and `maintain`; the first failure ends it. -/
def fill (hosts : Nat → Str → Host) (key templateId : Str) : Nat → Nat → Api Unit
  | _, 0 => pure ()
  | j, needed + 1 => do
    let sandboxId ← createWarmSandbox (hosts j) templateId
    recordWarmSandbox key sandboxId
    fill hosts key templateId (j + 1) needed

def prewarm (hosts : Nat → Str → Host) (templateId : Str) (depth : Nat) :
    Api WarmMaintainReport := do
  let key ← raise (warmPoolKey templateId)
  let needed := depth - (← warmReadyCount key)
  fill hosts key templateId 0 needed
  pure { created := needed, ready := ← warmReadyCount key }

def maintain (hosts : Nat → Nat → Str → Host) : Nat → List (Str × Nat) → WarmMaintainReport →
    Api WarmMaintainReport
  | _, [], report => pure report
  | i, (templateId, depth) :: targets, report => do
    let target ← prewarm (hosts i) templateId depth
    maintain hosts (i + 1) targets
      { report with
        created := report.created + target.created, ready := report.ready + target.ready }

/-- The sandbox that `checkout` makes when it may and there is none. -/
def createIfEmpty (host : Str → Host) (key templateId : Str) (policy : WarmLeasePolicy) :
    Api Unit := do
  if policy = .createIfEmpty ∧ (← warmReadyCount key) = 0 then
    let sandboxId ← createWarmSandbox host templateId
    recordWarmSandbox key sandboxId

def popWarmSandbox (key : Str) : Api Str := do
  let ids := queue (← get).warmPools key
  match ids.getLast? with
  | some sandboxId =>
    modify fun s => { s with warmPools := s.warmPools.insert key ids.dropLast }
    pure sandboxId
  | none => throw (.notFound (str "checkout warm sandbox") .warmPool key)

def checkout (host : Str → Host) (templateId : Str) (policy : WarmLeasePolicy) : Api WarmLease := do
  let key ← raise (warmPoolKey templateId)
  createIfEmpty host key templateId policy
  let sandboxId ← popWarmSandbox key
  pure ⟨key, sandboxId⟩

def deleteAll (hosts : Nat → Str → Host) : Nat → List Str → Api Unit
  | _, [] => pure ()
  | j, sandboxId :: rest => do
    onInner (str "evict warm sandboxes") (delete (hosts j sandboxId) sandboxId)
    deleteAll hosts (j + 1) rest

/-- How many sandboxes an eviction of `count` leaves in a pool. -/
def keptCount (sandboxes : List Str) (count : Nat) : Nat :=
  sandboxes.length - min count sandboxes.length

/-- The sandboxes are out of the pool before the first of them is deleted. -/
def evict (hosts : Nat → Str → Host) (key : Str) (count : Nat) : Api WarmMaintainReport := do
  let sandboxes := queue (← get).warmPools key
  let kept := keptCount sandboxes count
  modify fun s => { s with warmPools := s.warmPools.insert key (sandboxes.take kept) }
  let evicted := sandboxes.drop kept
  deleteAll hosts 0 evicted
  pure { evicted := evicted.length, ready := ← warmReadyCount key }

inductive Operation where
  | prepareTemplate (spec : TemplateSpec)
  | deleteTemplate (id : Str)
  | createSandbox (spec : SandboxSpec)
  | restoreSandbox (snapshotId : Str)
  | stopSandbox (id : Str)
  | killSandbox (id : Str)
  | deleteSandbox (id : Str)
  | prewarm (templateId : Str) (depth : Nat)
  | maintain (targets : List (Str × Nat))
  | checkout (templateId : Str) (policy : WarmLeasePolicy)
  | evict (key : Str) (count : Nat)

inductive Response where
  | template (prepared : PreparedTemplate)
  | sandbox (info : SandboxInfo)
  | report (report : WarmMaintainReport)
  | lease (lease : WarmLease)
  | done

structure Event where
  operation : Operation
  hosts : Nat → Nat → Str → Host

def perform (e : Event) : Api Response :=
  let host := e.hosts 0 0
  match e.operation with
  | .prepareTemplate spec => return .template (← prepareTemplate spec)
  | .deleteTemplate id => do
    deleteTemplate id
    pure .done
  | .createSandbox spec => return .sandbox (← createSandbox host spec)
  | .restoreSandbox snapshotId => return .sandbox (← restoreSandbox host snapshotId)
  | .stopSandbox id => do
    stopSandbox host id
    pure .done
  | .killSandbox id => do
    killSandbox host id
    pure .done
  | .deleteSandbox id => do
    deleteSandbox host id
    pure .done
  | .prewarm templateId depth => return .report (← prewarm (e.hosts 0) templateId depth)
  | .maintain targets => return .report (← maintain e.hosts 0 targets {})
  | .checkout templateId policy => return .lease (← checkout host templateId policy)
  | .evict key count => return .report (← evict (e.hosts 0) key count)

def after (s : AppleVzBackend) (e : Event) : AppleVzBackend := left (perform e s)
def runAll (s : AppleVzBackend) (es : List Event) : AppleVzBackend := es.foldl after s

def echoesId (host : Str → Host) : Prop :=
  ∀ id created, (host id).created = .ok created → created.sandboxId = id

def Echoes (e : Event) : Prop := ∀ i j, echoesId (e.hosts i j)

def obliging (sandboxId : Str) : Host :=
  { available := .ok (UInt64.ofNat (2 ^ 64 - 1)), created := .ok ⟨sandboxId, str "client", none⟩
    deleted := .ok (), persisted := .ok (), now := 0 }

theorem obliging_echoes : echoesId obliging := by
  rintro id created ⟨⟩
  rfl

def base : Str := str "base"

def prepareBase (hosts : Nat → Nat → Str → Host) : Event :=
  ⟨.prepareTemplate { source := .oci base }, hosts⟩

/-! ### Moves

What the calls do to the backend, short of changing templates and deleting sandboxes. -/

namespace AppleVzBackend

def number (s : AppleVzBackend) : AppleVzBackend :=
  { s with nextSandbox := s.nextSandbox + 1, allocated := s.allocated + 1 }

def currentId (s : AppleVzBackend) : Str := sandboxName s.nextSandbox.toNat

def launching (s : AppleVzBackend) : AppleVzBackend :=
  { s.number with launches := s.launches ++
      [⟨s.number.currentId, (lookup s.number.currentId s.inner.active).isSome⟩] }

def push (s : AppleVzBackend) (key sandboxId : Str) : AppleVzBackend :=
  { s with warmPools := s.warmPools.insert key (queue s.warmPools key ++ [sandboxId]) }

end AppleVzBackend

def Launches (s t : AppleVzBackend) : Prop :=
  ∃ host operation request created inner, echoesId host ∧
    request.sandboxId = s.number.currentId ∧
    Launched s.inner (host request.sandboxId) operation request (.ok created inner) ∧
    t = { s.launching with inner }

inductive Move (s : AppleVzBackend) : AppleVzBackend → Prop
  | number : Move s s.number
  | failed {host operation request e inner} : request.sandboxId = s.number.currentId →
      Launched s.inner host operation request (.error e inner) →
      Move s { s.launching with inner }
  | launched {t : AppleVzBackend} : Launches s t → Move s t
  | warmed {t : AppleVzBackend} (key : Str) : Launches s t → Move s (t.push key s.number.currentId)
  | taken {key : Str} {ids : List Str} {id : Str} : queue s.warmPools key = ids ++ [id] →
      Move s { s with warmPools := s.warmPools.insert key ids }

abbrev Moves := Relation.ReflTransGen Move

section
variable {s t : AppleVzBackend} {host : Str → Host} {templateId : Str}

theorem reads_raise {α : Type} {r : Except InvalidId α} : Reads (raise r) := by
  cases r with
  | ok a => exact reads_pure a
  | error e => exact reads_throw _

theorem reads_runtimeTemplateId (templateId : Str) : Reads (runtimeTemplateId templateId) := by
  refine reads_get.bind fun s => ?_
  split
  · exact reads_throw _
  · split
    · exact reads_pure _
    · exact reads_throw _
    · exact reads_throw _

/-- What a template resolves to is the reference registered under its id. -/
theorem runtimeTemplateId_oci {id reference : Str}
    (h : s.templates[templateId]? = some ⟨id, .oci reference⟩) :
    runtimeTemplateId templateId s = .ok reference s := by
  unfold runtimeTemplateId
  rw [bind_of_ok (run_get s), h]
  rfl

theorem createRequestFromSpec_template {reference : Str} (resources : Option SandboxResources)
    (deadline : Option SandboxDeadline) (h : runtimeTemplateId templateId s = .ok reference s) :
    createRequestFromSpec sandboxId (.template templateId resources deadline) s =
      .ok ⟨sandboxId, reference, resources.getD defaultResources, requestTimeout deadline⟩ s :=
  bind_of_ok h

theorem reads_createRequestFromSpec {sandboxId : Str} (spec : SandboxSpec) :
    Reads (createRequestFromSpec sandboxId spec) := by
  cases spec with
  | template templateId resources deadline =>
    exact (reads_runtimeTemplateId templateId).bind fun _ => reads_pure _
  | snapshot snapshotId => exact reads_throw _

theorem reads_inspectSandbox {sandboxId : Str} : Reads (inspectSandbox sandboxId) := by
  refine reads_get.bind fun s => ?_
  split
  · refine reads_raise.bind fun _ => ?_
    refine Reads.bind ?_ fun _ => reads_pure _
    refine reads_get.bind fun s => ?_
    split
    · exact reads_pure _
    · exact reads_raise
  · exact reads_throw _

theorem reads_findSnapshot (snapshotId : Str) : Reads (findSnapshot snapshotId) := by
  refine reads_get.bind fun s => ?_
  split
  · exact reads_pure _
  · exact reads_throw _

theorem reads_warmReadyCount (key : Str) : Reads (warmReadyCount key) :=
  reads_get.bind fun _ => reads_pure _

theorem sandboxName_injective (h : sandboxName m = sandboxName n) : m = n := by
  have hrender := List.append_cancel_left h
  have hvalue := (value_render m).symm.trans ((congrArg value hrender).trans (value_render n))
  exact Option.some.inj hvalue

theorem isIdByte_of_isDigit (h : isDigit b = true) : isIdByte b = true := by
  unfold isDigit at h
  unfold isIdByte
  simp only [decide_eq_true_eq] at h ⊢
  exact .inr (.inr (.inl h))

theorem validateId_sandboxName (kind : Str) (hn : n < 2 ^ 64) :
    validateId kind (sandboxName n) = .ok (sandboxName n) := by
  have hlength : (sandboxName n).length ≤ 128 := by
    have hr := render_length (show n < 10 ^ 20 by omega) (by decide)
    have hp : (str "sbx_firkin_").length = 11 := by decide
    rw [sandboxName, List.length_append]
    omega
  have hbytes : (sandboxName n).all isIdByte = true := by
    rw [sandboxName, List.all_append, Bool.and_eq_true]
    refine ⟨by decide, List.all_eq_true.mpr fun b hb => ?_⟩
    exact isIdByte_of_isDigit (render_digits hb)
  have hne : sandboxName n ≠ [] := by simp [sandboxName, render_ne_nil]
  rw [validateId, if_neg hne, if_neg (by omega), if_pos hbytes]

theorem nextSandboxId_eq : nextSandboxId s = .ok s.number.currentId s.number := by
  have hvalid := validateId_sandboxName (str "sandbox id") s.number.nextSandbox.toNat_lt
  unfold nextSandboxId
  rw [bind_of_ok (run_modify s)]
  change (get >>= fun t : AppleVzBackend =>
    raise (validateId (str "sandbox id") (sandboxName t.nextSandbox.toNat))) s.number = _
  rw [bind_of_ok (run_get _), hvalid]
  rfl

theorem number_currentId (hc : s.nextSandbox.toNat = s.allocated) (hn : s.allocated + 1 < 2 ^ 64) :
    s.number.nextSandbox.toNat = s.allocated + 1 ∧
      s.number.currentId = sandboxName (s.allocated + 1) := by
  have hnext : s.number.nextSandbox.toNat = s.allocated + 1 := by
    change (s.nextSandbox + 1).toNat = _
    rw [UInt64.toNat_add, hc]
    exact Nat.mod_eq_of_lt hn
  exact ⟨hnext, by rw [AppleVzBackend.currentId, hnext]⟩

/-- The part that `create_sandbox`, `restore_sandbox` and the warm pool share. -/
theorem settles_launch {label : Str} {α : Type} {k : RuntimeCreatedSandbox → Api α}
    {P : α → AppleVzBackend → Prop} (he : echoesId host)
    (hid : request.sandboxId = s.number.currentId)
    (hk : ∀ created t, Launches s t → Settles (k created) t P (Moves s)) :
    Settles (noteLaunch s.number.currentId >>= fun _ =>
        onInner label (launch operation (host s.number.currentId) request) >>= k) s.number P
      (Moves s) := by
  have hnote : noteLaunch s.number.currentId s.number = .ok ⟨⟩ s.launching := rfl
  have hspec := launch_spec s.inner (host request.sandboxId) operation request
  have hinner : s.launching.inner = s.inner := rfl
  rw [settles_bind_ok hnote, settles_bind, ← hid]
  unfold Settles onInner
  rw [hinner]
  cases hrun : launch operation (host request.sandboxId) request s.inner with
  | ok created inner =>
    rw [hrun] at hspec
    exact hk created _ ⟨host, operation, request, created, inner, he, hid, hspec, rfl⟩
  | error e inner =>
    rw [hrun] at hspec
    exact .single (.failed hid hspec)

theorem Launches.settles_read (h : Launches s t) {α : Type} {m : Api α} (hm : Reads m) :
    Settles m t (fun _ => Moves s) (Moves s) := by
  refine hm.settles.mono ?_ ?_
  · rintro a u ⟨rfl, -⟩
    exact .single (.launched h)
  · rintro u rfl
    exact .single (.launched h)

theorem createRequestFromSpec_id (h : createRequestFromSpec sandboxId spec s = .ok request t) :
    request.sandboxId = sandboxId := by
  cases spec with
  | template templateId resources deadline =>
    obtain ⟨runtimeTemplate, u, -, hpure⟩ := bind_eq_ok.mp h
    cases hpure
    rfl
  | snapshot snapshotId => cases h

section
variable (he : echoesId host)
include he

theorem createSandbox_moves (spec : SandboxSpec) :
    Settles (createSandbox host spec) s (fun _ => Moves s) (Moves s) := by
  refine (settles_bind_ok nextSandboxId_eq).mpr ?_
  refine (reads_createRequestFromSpec spec).settles_bind (.single .number) fun request hr => ?_
  exact settles_launch he (createRequestFromSpec_id hr) fun _ t ht =>
    ht.settles_read reads_inspectSandbox

theorem restoreSandbox_moves (snapshotId : Str) :
    Settles (restoreSandbox host snapshotId) s (fun _ => Moves s) (Moves s) := by
  refine (settles_bind_ok nextSandboxId_eq).mpr ?_
  refine (reads_findSnapshot snapshotId).settles_bind (.single .number) fun record _ => ?_
  exact settles_launch he rfl fun _ t ht => ht.settles_read reads_inspectSandbox

theorem createWarmSandbox_moves (templateId : Str) : Settles (createWarmSandbox host templateId) s
      (fun id t => id = s.number.currentId ∧ Launches s t) (Moves s) := by
  refine (settles_bind_ok nextSandboxId_eq).mpr ?_
  refine (reads_runtimeTemplateId templateId).settles_bind (.single .number) fun _ _ => ?_
  exact settles_launch he rfl fun _ t ht => ⟨rfl, ht⟩

theorem warm_moves {α : Type} {k : Api α} {P} (hk : ∀ t, Moves s t → Settles k t P (Moves s)) :
    Settles (createWarmSandbox host templateId >>= fun id =>
        recordWarmSandbox key id >>= fun _ => k)
      s P (Moves s) := by
  refine (createWarmSandbox_moves he templateId).bind ?_
  rintro id t ⟨rfl, ht⟩
  exact hk _ (.single (.warmed key ht))
end

theorem fill_moves (he : ∀ j, echoesId (hosts j)) (j needed : Nat) :
    Settles (fill hosts key templateId j needed) s (fun _ => Moves s) (Moves s) := by
  induction needed generalizing s j with
  | zero => exact refl
  | succ needed ih =>
    refine warm_moves (he j) fun t ht => ?_
    exact (ih (j + 1)).mono (fun _ u hu => ht.trans hu) fun u hu => ht.trans hu

theorem prewarm_moves (he : ∀ j, echoesId (hosts j)) (depth : Nat) :
    Settles (prewarm hosts templateId depth) s (fun _ => Moves s) (Moves s) := by
  refine reads_raise.settles_bind .refl fun key _ => ?_
  refine (reads_warmReadyCount key).settles_bind .refl fun count _ => ?_
  refine (fill_moves he 0 _).bind fun _ t ht => ?_
  exact (reads_warmReadyCount key).settles_bind ht fun _ _ => ht

theorem maintain_moves (he : ∀ i j, echoesId (hosts i j)) (i : Nat)
    (targets : List (Str × Nat)) (report : WarmMaintainReport) :
    Settles (maintain hosts i targets report) s (fun _ => Moves s) (Moves s) := by
  induction targets generalizing s i report with
  | nil => exact refl
  | cons target targets ih =>
    refine (prewarm_moves (he i) target.2).bind fun _ t ht => ?_
    exact (ih (i + 1) _).mono (fun _ u hu => ht.trans hu) fun u hu => ht.trans hu

/-- A lease is the last sandbox of a pool, in a state reached by moves. -/
def Leases (s : AppleVzBackend) (lease : WarmLease) (t : AppleVzBackend) : Prop :=
  ∃ u ids, Moves s u ∧ queue u.warmPools lease.key = ids ++ [lease.sandboxId] ∧
    t = { u with warmPools := u.warmPools.insert lease.key ids }

theorem Leases.moves (h : Leases s lease t) : Moves s t := by
  obtain ⟨u, ids, hsu, hq, rfl⟩ := h
  exact hsu.tail (.taken hq)

theorem checkout_moves (he : echoesId host) (policy : WarmLeasePolicy) :
    Settles (checkout host templateId policy) s (fun lease t => Leases s lease t) (Moves s) := by
  refine reads_raise.settles_bind .refl fun key _ => ?_
  have hcreate : Settles (createIfEmpty host key templateId policy) s (fun _ => Moves s)
    (Moves s) := by
    refine (reads_warmReadyCount key).settles_bind .refl fun count _ => ?_
    split
    · refine (createWarmSandbox_moves he templateId).bind ?_
      rintro id t ⟨rfl, ht⟩
      exact single (.warmed key ht)
    · exact refl
  refine hcreate.bind fun _ t ht => ?_
  rw [settles_bind]
  refine reads_get.settles_bind ht ?_
  rintro _ ⟨⟩
  dsimp only
  split
  · next id hlast => exact ⟨t, _, ht, (List.dropLast_append_getLast? id hlast).symm, rfl⟩
  · exact ht
end

inductive Step (s : AppleVzBackend) : AppleVzBackend → Prop
  | move {t : AppleVzBackend} : Move s t → Step s t
  | templates (m : TreeMap Str PreparedTemplate) : Step s { s with templates := m }
  | warmPools (m : TreeMap Str (List Str)) : Step s { s with warmPools := m }
  | delete {host : Host} {id : Str} {r : EStateM.Result Error Backend Unit} :
      Deleted s.inner host id r → Step s { s with inner := left r }

abbrev Steps := Relation.ReflTransGen Step

section
variable {s t : AppleVzBackend} {e : Event}

theorem Moves.steps (h : Moves s t) : Steps s t :=
  mono (fun _ _ => .move) s t h

theorem Launches.allocated (h : Launches s t) : t.allocated = s.allocated + 1 := by
  obtain ⟨_, _, _, _, _, _, _, _, rfl⟩ := h
  rfl

theorem Step.allocated_le (h : Step s t) : s.allocated ≤ t.allocated := by
  cases h with
  | move h =>
    cases h with
    | number | failed => exact Nat.le_succ _
    | launched h => exact (Launches.allocated h).symm ▸ Nat.le_succ _
    | warmed key h => exact (Launches.allocated h).symm ▸ Nat.le_succ _
    | taken => exact Nat.le_refl _
  | templates | warmPools | delete => exact Nat.le_refl _

theorem Steps.allocated_le (h : Steps s t) : s.allocated ≤ t.allocated := by
  induction h with
  | refl => exact Nat.le_refl _
  | tail _ hstep ih => exact ih.trans (Step.allocated_le hstep)

theorem onInner_left {α : Type} (operation : Str) (action : Action α) (s : AppleVzBackend) :
    left (onInner operation action s) = { s with inner := left (action s.inner) } := by
  unfold onInner
  cases action s.inner <;> rfl

theorem settles_onInner {α : Type} {operation : Str} {action : Action α} :
    Settles (onInner operation action) s (fun _ t => ∃ inner, t = { s with inner })
      (fun t => ∃ inner, t = { s with inner }) := by
  unfold Settles onInner
  cases action s.inner <;> exact ⟨_, rfl⟩

theorem delete_step (operation : Str) (host : Host) (id : Str) (s : AppleVzBackend) :
    Step s (left (onInner operation (delete host id) s)) := by
  rw [onInner_left]
  exact .delete (delete_spec s.inner host id)

theorem prepareTemplate_templates (spec : TemplateSpec) (s : AppleVzBackend) :
    ∃ m, left (prepareTemplate spec s) = { s with templates := m } := by
  unfold prepareTemplate
  cases spec.dataPlane with
  | none =>
    dsimp only
    cases validateId (str "template id") (templateIdFromSource spec.source) with
    | ok generated => exact ⟨_, rfl⟩
    | error e => exact ⟨s.templates, rfl⟩
  | envd inject => cases inject <;> exact ⟨s.templates, rfl⟩

theorem deleteAll_steps (j : Nat) (s : AppleVzBackend) :
    Steps s (left (deleteAll hosts j ids s)) := by
  induction ids generalizing s j with
  | nil => exact .refl
  | cons id ids ih =>
    have hstep := delete_step (str "evict warm sandboxes") (hosts j id) id s
    rw [deleteAll, run_bind]
    cases hrun : onInner (str "evict warm sandboxes") (delete (hosts j id) id) s with
    | ok u t =>
      rw [hrun] at hstep
      exact .head hstep (ih (j + 1) t)
    | error e t =>
      rw [hrun] at hstep
      exact .single hstep

theorem deleteAll_inner (hosts : Nat → Str → Host) (j : Nat) (ids : List Str) (s : AppleVzBackend) :
    ∃ inner, left (deleteAll hosts j ids s) = { s with inner } := by
  induction ids generalizing s j with
  | nil => exact ⟨s.inner, rfl⟩
  | cons id ids ih =>
    refine Settles.left (R := fun t => ∃ inner, t = { s with inner }) ?_
    refine settles_onInner.bind ?_
    rintro _ t ⟨inner, rfl⟩
    obtain ⟨inner', hrest⟩ := ih (j + 1) { s with inner }
    unfold Settles
    split <;> next hrun => exact ⟨inner', by rw [hrun] at hrest; exact hrest⟩

def cut (s : AppleVzBackend) (key : Str) (count : Nat) : AppleVzBackend :=
  let sandboxes := queue s.warmPools key
  { s with warmPools := s.warmPools.insert key (sandboxes.take (keptCount sandboxes count)) }

def evictees (s : AppleVzBackend) (key : Str) (count : Nat) : List Str :=
  (queue s.warmPools key).drop (keptCount (queue s.warmPools key) count)

theorem evict_left (key : Str) (count : Nat) :
    left (evict hosts key count s) =
      left (deleteAll hosts 0 (evictees s key count) (cut s key count)) := by
  change left ((deleteAll hosts 0 (evictees s key count) >>= fun _ =>
    warmReadyCount key >>= fun ready =>
    pure (⟨0, (evictees s key count).length, ready⟩ : WarmMaintainReport)) (cut s key count)) = _
  rw [run_bind]
  cases deleteAll hosts 0 (evictees s key count) (cut s key count) <;> rfl

def quiet : Operation → Bool
  | .createSandbox _ | .restoreSandbox _ | .prewarm _ _ | .maintain _ | .checkout _ _ => true
  | _ => false

theorem after_moves (he : Echoes e) (hq : quiet e.operation = true) : Moves s (after s e) := by
  obtain ⟨operation, hosts⟩ := e
  unfold after perform
  cases operation with
  | createSandbox spec =>
    rw [left_map]
    exact (createSandbox_moves (he 0 0) spec).left
  | restoreSandbox snapshotId =>
    rw [left_map]
    exact (restoreSandbox_moves (he 0 0) snapshotId).left
  | prewarm templateId depth =>
    rw [left_map]
    exact (prewarm_moves (he 0) depth).left
  | maintain targets =>
    rw [left_map]
    exact (maintain_moves he 0 targets {}).left
  | checkout templateId policy =>
    rw [left_map]
    have h := (@checkout_moves s _ templateId (he 0 0) policy).mono
      (fun _ _ hl => hl.moves) fun _ h => h
    exact h.left
  | _ => cases hq

def target : Operation → Option Str
  | .stopSandbox id | .killSandbox id | .deleteSandbox id => some id
  | _ => none

theorem after_delete {id : Str} (h : target e.operation = some id) :
    ∃ label, after s e = left (onInner label (delete (e.hosts 0 0 id) id) s) := by
  obtain ⟨operation, hosts⟩ := e
  cases operation <;> cases h <;> exact ⟨_, left_map fun _ => Response.done⟩

theorem after_evict (key : Str) (count : Nat) (hosts : Nat → Nat → Str → Host) :
    after s ⟨.evict key count, hosts⟩ =
      left (deleteAll (hosts 0) 0 (evictees s key count) (cut s key count)) := by
  change left ((evict (hosts 0) key count >>= fun r => pure (Response.report r)) s) = _
  rw [left_map, evict_left]

theorem after_prepareTemplate (spec : TemplateSpec) (hosts : Nat → Nat → Str → Host) :
    ∃ m, after s ⟨.prepareTemplate spec, hosts⟩ = { s with templates := m } := by
  obtain ⟨m, hm⟩ := prepareTemplate_templates spec s
  exact ⟨m, (left_map _).trans hm⟩

theorem Move.templates (h : Move s t) : t.templates = s.templates := by
  cases h with
  | number => rfl
  | failed => rfl
  | launched h =>
    obtain ⟨_, _, _, _, _, _, _, _, rfl⟩ := h
    rfl
  | warmed key h =>
    obtain ⟨_, _, _, _, _, _, _, _, rfl⟩ := h
    rfl
  | taken => rfl

theorem Moves.templates (h : Moves s t) : t.templates = s.templates := by
  induction h with
  | refl => rfl
  | tail _ hmove ih => exact hmove.templates.trans ih

def registers : Operation → Bool
  | .prepareTemplate _ | .deleteTemplate _ => true
  | _ => false

theorem after_templates (he : Echoes e) (hr : registers e.operation = false) :
    (after s e).templates = s.templates := by
  have hdelete : ∀ {id}, target e.operation = some id → (after s e).templates = s.templates := by
    intro id hid
    obtain ⟨label, hafter⟩ := @after_delete s e id hid
    rw [hafter, onInner_left]
  obtain ⟨operation, hosts⟩ := e
  cases operation with
  | prepareTemplate spec => cases hr
  | deleteTemplate id => cases hr
  | stopSandbox | killSandbox | deleteSandbox => exact hdelete rfl
  | evict key count =>
    obtain ⟨inner, hinner⟩ := deleteAll_inner (hosts 0) 0 (evictees s key count) (cut s key count)
    rw [after_evict, hinner]
    rfl
  | _ => exact (after_moves he rfl).templates

theorem after_steps (he : Echoes e) : Steps s (after s e) := by
  have hdelete : ∀ {id}, target e.operation = some id → Steps s (after s e) := by
    intro id hid
    obtain ⟨label, hafter⟩ := @after_delete s e id hid
    rw [hafter]
    exact .single (delete_step label _ id s)
  obtain ⟨operation, hosts⟩ := e
  cases operation with
  | prepareTemplate spec =>
    obtain ⟨m, hm⟩ := @after_prepareTemplate s spec hosts
    rw [hm]
    exact .single (.templates m)
  | deleteTemplate id => exact .single (.templates _)
  | stopSandbox | killSandbox | deleteSandbox => exact hdelete rfl
  | evict key count =>
    rw [after_evict]
    exact .head (.warmPools _) (deleteAll_steps 0 (cut s key count))
  | _ => exact Moves.steps (after_moves he rfl)

theorem runAll_steps (he : ∀ e ∈ es, Echoes e) : Steps s (runAll s es) := by
  induction es generalizing s with
  | nil => exact .refl
  | cons e es ih =>
    exact (after_steps (he e List.mem_cons_self)).trans
      (ih fun e' h => he e' (List.mem_cons_of_mem e h))
end

end AppleVz
