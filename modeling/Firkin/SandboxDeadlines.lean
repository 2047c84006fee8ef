import Firkin.ControlPlane
import Firkin.GuardedRun
import Firkin.SandboxCreation

/-! # Deadlines of sandboxes

A timeout or refresh request that succeeds promises the sandbox more time. The routes look the
deadline up and store it again, so what a tick compares with the clock is the text the adapter
gave at the start. -/
namespace SandboxDeadlines

open Ext4Types E2bTypes SortedTable FaultMonad GuardedRun LocalBackend Lifecycle ControlPlane
open SandboxRegistry (LocalSandboxRegistry SandboxRecord)

def deadlines (s : LocalRuntimeState) (id : Str) : Option Str :=
  s.sandboxes.sandboxes[id]?.map (·.info.endAt)

abbrev deadlinesPart (s : LocalRuntimeBackend) : Str → Option Str :=
  deadlines s.toLocalRuntimeState

/-- Whoever is registered before and afterwards has the same deadline. -/
def Follows (s t : LocalRuntimeBackend) : Prop :=
  ∀ id e e', deadlinesPart s id = some e → deadlinesPart t id = some e' → e' = e

def Stays {ε α : Type} (m : EStateM ε LocalRuntimeBackend α) : Prop := ∀ s, Follows s (left (m s))

section
variable {ε α β : Type}

theorem follows_of_eq (h : deadlinesPart t = deadlinesPart s) : Follows s t := by
  intro id e e' hs ht
  rw [h] at ht
  exact Option.some.inj (ht.symm.trans hs)

theorem stays_of_keeps (h : Keeps deadlinesPart m) : Stays m := fun s => follows_of_eq (h s)

theorem stays_after (hm : Keeps deadlinesPart m) (hk : ∀ a, Stays (k a)) : Stays (m >>= k) := by
  intro s
  have h := hm s
  rw [run_bind]
  cases hs : m s with
  | error e t =>
    rw [hs] at h
    exact follows_of_eq h
  | ok a t =>
    rw [hs] at h
    intro id e e' hbefore hafter
    exact hk a t id e e' (by rw [← hbefore]; exact congrFun h id) hafter

theorem stays_podsOnly {m : Api α} (h : PodsOnly m) : Stays m :=
  stays_of_keeps (h.keeps fun _ _ => rfl)

theorem keeps_onTemplates : Keeps deadlinesPart (onTemplates method) := by
  intro s
  unfold onTemplates
  cases method s.templates <;> rfl

theorem keeps_onVolumes {method : VolumeRegistry.LocalVolumeRegistry →
    LocalBackend.Result (α × VolumeRegistry.LocalVolumeRegistry)} :
    Keeps deadlinesPart (onVolumes method) := by
  intro s
  unfold onVolumes
  cases method s.volumes <;> rfl

theorem keeps_createVolume (name : Str) : Keeps deadlinesPart (createVolume name) := by
  intro s
  unfold createVolume
  rcases s.volumes.create name with ⟨result, volumes⟩
  cases result <;> rfl

variable (a : RuntimeAdapter)

theorem keeps_deletePod (podId : Str) : Keeps deadlinesPart (deletePod a podId) :=
  (keeps_ask deadlines).bind fun _ => keeps_modifyGet fun _ => rfl

theorem deadlines_put {id : Str}
    (h : s.sandboxes.sandboxes[id]? = some record) (hend : record'.info.endAt = record.info.endAt) :
    deadlines { s.toLocalRuntimeState with sandboxes := s.sandboxes.put id record' } =
      deadlinesPart s := by
  funext id'
  change (s.sandboxes.sandboxes.insert id record')[id']?.map _ = s.sandboxes.sandboxes[id']?.map _
  rw [get_insert]
  by_cases hid : id = id'
  · rw [if_pos hid, ← hid, h]
    exact congrArg some hend
  · rw [if_neg hid]

/-- A call that looks a record up, and if it changes it leaves the deadline. -/
theorem keeps_edit {id : Str} {k : LocalSandboxRegistry → SandboxRecord →
      LocalBackend.Result (α × LocalSandboxRegistry)}
    (hk : ∀ sandboxes record x sandboxes', k sandboxes record = .ok (x, sandboxes') →
      sandboxes'.sandboxes = sandboxes.sandboxes ∨
      ∃ record', sandboxes' = sandboxes.put id record' ∧ record'.info.endAt = record.info.endAt) :
    Keeps deadlinesPart (onSandboxes fun sandboxes => sandboxes.record id >>= k sandboxes) := by
  intro s
  unfold onSandboxes
  dsimp only
  cases hrun : s.sandboxes.record id >>= k s.sandboxes with
  | error e => rfl
  | ok p =>
    obtain ⟨x, sandboxes'⟩ := p
    obtain ⟨record, hrecord, hk'⟩ := except_bind_eq_ok.mp hrun
    rw [LocalSandboxRegistry.record_eq_ok] at hrecord
    rcases hk s.sandboxes record x sandboxes' hk' with hsame | ⟨record', rfl, hend⟩
    · funext id'
      exact congrArg (fun t : Table Str SandboxRecord => t[id']?.map (·.info.endAt)) hsame
    · exact deadlines_put hrecord hend

section
variable (sandboxId : Str)
include sandboxId

theorem keeps_connect (body : ConnectRequest) : Keeps deadlinesPart (connect a sandboxId body) := by
  refine (reads_ofExcept _).keeps.bind fun _ => keeps_edit fun _ record _ _ h => ?_
  cases h
  exact .inr ⟨_, rfl, rfl⟩

theorem keeps_pause : Keeps deadlinesPart (pause a sandboxId) := by
  refine (keeps_ask deadlines).bind fun _ => keeps_edit fun _ record _ _ h => ?_
  split at h
  · cases h
    exact .inl rfl
  · cases h
    exact .inr ⟨_, rfl, rfl⟩

theorem keeps_createSnapshot (body : CreateSnapshotRequest) :
    Keeps deadlinesPart (createSnapshot a sandboxId body) := by
  refine (reads_ofExcept _).keeps.bind fun _ => keeps_edit fun _ record _ _ h => ?_
  split at h
  · cases h
  · cases h
    exact .inl rfl

theorem keeps_refreshMetrics : Keeps deadlinesPart (refreshMetrics a sandboxId) := by
  refine (reads_ofExcept _).keeps.bind fun samples => ?_
  cases samples.getLast? with
  | none => exact (reads_pure _).keeps
  | some metric =>
    refine Keeps.bind (keeps_edit fun _ record _ _ h => ?_) fun _ => (reads_pure _).keeps
    cases h
    exact .inr ⟨_, rfl, rfl⟩

theorem keeps_refreshLogs : Keeps deadlinesPart (refreshLogs a sandboxId) := by
  refine (reads_ofExcept _).keeps.bind fun logs => ?_
  refine (keeps_forM fun log => ?_).bind fun _ => (reads_pure _).keeps
  refine keeps_edit fun _ record _ _ h => ?_
  cases h
  exact .inr ⟨_, rfl, rfl⟩

/-- Storing the deadline that was just looked up changes nothing. -/
theorem reads_keepEndAt : Reads (keepEndAt sandboxId (·.setEndAt sandboxId ·)) := by
  intro s
  unfold keepEndAt look
  rw [run_bind, bind_of_ok (run_get s)]
  cases hrecord : s.sandboxes.sandboxes[sandboxId]? with
  | none =>
    have hget : s.sandboxes.get sandboxId = .error (.notFound sandboxId) := by
      rw [LocalSandboxRegistry.get, LocalSandboxRegistry.record, hrecord]
      rfl
    rw [ofExcept_fail hget]
    rfl
  | some record =>
    have hget : s.sandboxes.get sandboxId = .ok record.info := by
      rw [LocalSandboxRegistry.get, LocalSandboxRegistry.record, hrecord]
      rfl
    have hset : s.sandboxes.setEndAt sandboxId record.info.endAt = .ok ((), s.sandboxes) := by
      rw [LocalSandboxRegistry.setEndAt, LocalSandboxRegistry.record, hrecord]
      change Except.ok ((), s.sandboxes.put sandboxId record) = _
      rw [LocalSandboxRegistry.put, insert_get hrecord]
    rw [ofExcept_run hget]
    dsimp only
    rw [onSandboxes, hset]
    rfl

theorem stays_deleteRecord : Stays (deleteRecord sandboxId) := by
  intro s id e e' hbefore hafter
  change (s.sandboxes.sandboxes.erase sandboxId)[id]?.map _ = some e' at hafter
  rw [get_erase] at hafter
  split at hafter
  · cases hafter
  · exact Option.some.inj (hafter.symm.trans hbefore)

theorem stays_delete : Stays (delete a sandboxId) :=
  stays_after (keeps_ask deadlines) fun _ => stays_deleteRecord sandboxId
end

theorem keeps_deleteTemplate (id : Str) :
    Keeps deadlinesPart (ControlPlane.deleteTemplate a id) := by
  refine reads_get.keeps.bind fun s => ?_
  rcases s.templates.delete id with ⟨existed, templates⟩
  refine Keeps.bind ?_ fun _ => ?_
  · exact keeps_modify fun _ => rfl
  split
  · exact (reads_pure _).keeps
  · refine reads_get.keeps.bind fun s => ?_
    split
    · refine Keeps.bind (fun t => ?_) fun _ => ?_
      · cases a.deleteSnapshot id <;> rfl
      · refine Keeps.bind ?_ fun _ => (reads_pure _).keeps
        exact keeps_modify fun _ => rfl
    · exact (reads_throw _).keeps

section
theorem stays_registers {m} (hm : SandboxCreation.Registers request runtime m) : Stays m := by
  intro s
  refine Settles.left (R := Follows s) ((hm s).mono (fun _ t ht => ?_) fun t ht => ?_)
  · obtain ⟨hfresh, ht⟩ := ht
    intro id e e' hbefore hafter
    have hne : runtime.sandboxId ≠ id := by
      rintro rfl
      rw [deadlinesPart, deadlines, Std.ExtTreeMap.getElem?_eq_none hfresh] at hbefore
      cases hbefore
    rw [deadlinesPart, ht] at hafter
    change (s.sandboxes.sandboxes.insert runtime.sandboxId _)[id]?.map _ = some e' at hafter
    rw [get_insert_ne hne] at hafter
    exact Option.some.inj (hafter.symm.trans hbefore)
  · exact follows_of_eq (congrArg deadlines ht)

theorem keeps_startSandbox (request : SandboxCreateRequest) :
    Keeps deadlinesPart (startSandbox a request) :=
  reads_get.keeps.bind fun _ => (reads_ofExcept _).keeps.bind fun _ => keeps_ask deadlines

theorem keeps_startFollowupSandbox (request : FollowupSandboxCreateRequest) :
    Keeps deadlinesPart (startFollowupSandbox a request) :=
  reads_get.keeps.bind fun _ => (reads_ofExcept _).keeps.bind fun _ =>
    (keeps_ask deadlines).bind fun _ => (reads_pure _).keeps
end

end

section
variable {α : Type}

theorem left_viaBackend (s : LocalRuntimeBackend) : left (viaBackend m s) = left (m s) := by
  unfold viaBackend
  cases m s <;> rfl

theorem stays_jsonResponse (h : Stays m) : Stays (jsonResponse payload m) := by
  intro s
  have hleft : left (jsonResponse payload m s) = left (m s) :=
    (left_map _).trans (left_viaBackend s)
  rw [hleft]
  exact h s

theorem stays_emptyResponse {m} (h : Stays m) : Stays (emptyResponse m) := by
  intro s
  have hleft : left (emptyResponse m s) = left (m s) := (left_map _).trans (left_viaBackend s)
  rw [hleft]
  exact h s

theorem stays_confirmed {m} (h : Stays m) {error} : Stays (confirmed m error) := by
  intro s
  have hleft : left (confirmed m error s) = left (m s) := by
    rw [← left_viaBackend (m := m) s, confirmed, run_bind]
    cases viaBackend m s with
    | error e t => rfl
    | ok existed t => cases existed <;> rfl
  rw [hleft]
  exact h s

theorem stays_look {read : LocalRuntimeState → LocalBackend.Result α} : Stays (look read) :=
  stays_of_keeps (Reads.keeps (reads_get.bind fun _ => reads_ofExcept _))

theorem perform_stays (a : RuntimeAdapter) (operation : Operation) :
    Stays (perform a operation) := by
  cases operation with
  | listPods | getPod | listSandboxes | metricsMany | listSnapshots | getSandbox | listTemplates
  | getTemplate | fileUpload | buildStatus | buildLogs | tags | listVolumes | getVolume | listDir
  | pathInfo | readFile => exact stays_jsonResponse stays_look
  | lookupAlias name =>
    refine stays_of_keeps (Reads.keeps (reads_get.bind fun s => ?_))
    split
    · exact reads_pure _
    · exact reads_throw _
  | createPod body => exact stays_jsonResponse (stays_podsOnly (podsOnly_createPod a body))
  | deletePod podId => exact stays_confirmed (stays_of_keeps (keeps_deletePod a podId))
  | addPodContainer podId body =>
    exact stays_jsonResponse (stays_podsOnly (podsOnly_addPodContainer a podId body))
  | waitPodContainer podId name =>
    exact stays_jsonResponse (stays_podsOnly (podsOnly_waitPodContainer a podId name))
  | deletePodContainer podId name =>
    exact stays_emptyResponse (stays_podsOnly (podsOnly_deletePodContainer a podId name))
  | create body =>
    exact stays_jsonResponse (stays_after (keeps_startSandbox a body) fun runtime =>
      stays_registers (SandboxCreation.registers_registerThenApply a body runtime.config))
  | createDetached body =>
    exact stays_jsonResponse (stays_after (keeps_startSandbox a body) fun runtime =>
      stays_registers (SandboxCreation.registers_applyThenRegister a body runtime.config))
  | createFollowup body =>
    exact stays_jsonResponse (stays_after (keeps_startFollowupSandbox a body) fun p =>
      stays_registers (SandboxCreation.registers_registerThenApply a p.1 p.2.config))
  | createFollowupDetached body =>
    exact stays_jsonResponse (stays_after (keeps_startFollowupSandbox a body) fun p =>
      stays_registers (SandboxCreation.registers_applyThenRegister a p.1 p.2.config))
  | deleteSandbox sandboxId => exact stays_confirmed (stays_delete a sandboxId)
  | connect sandboxId body =>
    exact stays_jsonResponse (stays_of_keeps (keeps_connect a sandboxId body))
  | pause sandboxId => exact stays_confirmed (stays_of_keeps (keeps_pause a sandboxId))
  | setTimeout sandboxId body =>
    exact stays_emptyResponse (stays_of_keeps (reads_keepEndAt sandboxId).keeps)
  | refresh sandboxId body =>
    exact stays_emptyResponse (stays_of_keeps (reads_keepEndAt sandboxId).keeps)
  | refreshMetrics sandboxId =>
    exact stays_jsonResponse (stays_of_keeps (keeps_refreshMetrics a sandboxId))
  | refreshLogs sandboxId =>
    exact stays_jsonResponse (stays_of_keeps (keeps_refreshLogs a sandboxId))
  | createSnapshot sandboxId body =>
    exact stays_jsonResponse (stays_of_keeps (keeps_createSnapshot a sandboxId body))
  | deleteTemplate id => exact stays_of_keeps (keeps_deleteTemplate a id)
  | requestTemplateBuild | updateTemplate | assignTags =>
    exact stays_jsonResponse (stays_of_keeps keeps_onTemplates)
  | uploadFile | startTemplateBuild | removeTags =>
    exact stays_emptyResponse (stays_of_keeps keeps_onTemplates)
  | createVolume name => exact stays_jsonResponse (stays_of_keeps (keeps_createVolume name))
  | deleteVolume volumeId =>
    exact stays_confirmed (stays_of_keeps (keeps_modifyGet fun _ => rfl))
  | makeDir | updateMetadata | writeFile =>
    exact stays_jsonResponse (stays_of_keeps keeps_onVolumes)
  | removePath => exact stays_emptyResponse (stays_of_keeps keeps_onVolumes)
end

def Shrinks (s t : LocalRuntimeBackend) : Prop :=
  ∀ id e, deadlinesPart t id = some e → deadlinesPart s id = some e

section
variable {s : LocalRuntimeBackend} (a : RuntimeAdapter)

theorem Shrinks.trans (h : Shrinks s t) (h' : Shrinks t u) : Shrinks s u :=
  fun id e hu => h id e (h' id e hu)

theorem shrinks_of_eq (h : deadlinesPart t = deadlinesPart s) : Shrinks s t :=
  fun id _ ht => (congrFun h id).symm.trans ht

theorem shrinks_deleteRecord (id : Str) : Shrinks s (left (deleteRecord id s)) := by
  intro id' e hafter
  change (s.sandboxes.sandboxes.erase id)[id']?.map _ = some e at hafter
  rw [get_erase] at hafter
  split at hafter
  · cases hafter
  · exact hafter

theorem shrinks_delete (id : Str) : Shrinks s (left (delete a id s)) := by
  cases hstop : a.stop id with
  | error e =>
    rw [delete_failed hstop]
    exact shrinks_of_eq rfl
  | ok u =>
    rw [delete_stopped hstop]
    exact shrinks_deleteRecord id

theorem shrinks_expireSandbox (id : Str) : Shrinks s (left (expireSandbox a id s)) := by
  unfold expireSandbox
  rw [bind_of_ok (run_get s)]
  cases s.sandboxes.autoPauseEnabled id with
  | error e => exact shrinks_of_eq rfl
  | ok auto =>
    cases auto with
    | true =>
      change Shrinks s (left ((pause a id >>= fun _ => pure (⟨id, .paused⟩ : SandboxExpiration)) s))
      rw [left_map]
      exact shrinks_of_eq (keeps_pause a id s)
    | false =>
      change Shrinks s
        (left ((delete a id >>= fun _ => pure (⟨id, .deleted⟩ : SandboxExpiration)) s))
      rw [left_map]
      exact shrinks_delete a id

theorem shrinks_expireDueSandboxes (now : Str) : Shrinks s (left (expireDueSandboxes a now s)) := by
  refine Settles.left (R := Shrinks s) (reads_get.settles_bind (shrinks_of_eq rfl) fun _ _ => ?_)
  refine settles_mapM (fun _ t => Shrinks s t) (fun id _ t ht => ?_) (shrinks_of_eq rfl)
  have hleft := ht.trans (shrinks_expireSandbox a id)
  unfold Settles
  cases hrun : expireSandbox a id t with
  | ok | error => rwa [hrun] at hleft
end

/-- A server and the latest instant each sandbox was promised to live to. -/
structure Promised (φ : Type) where
  server : Server φ
  granted : Str → Nat

inductive Event where
  | request (a : RuntimeAdapter) (now : Nat) (request : HttpRequest)
  | tick (a : RuntimeAdapter) (now : Nat)

section
variable {φ : Type} (d : Decoders) (apiKey : Option Str) (store : Store φ)
-- How the clock writes an instant, and how far a refresh extends what was granted, at what
-- instant and by how much.
variable (text : Nat → Str) (extend : Nat → Nat → Option UInt64 → Nat)

def operationOf (request : HttpRequest) : Option Operation :=
  if authorized apiKey request then
    match convertHttpRequest request with
    | .error _ => none
    | .ok converted => (dispatch d converted).toOption
  else none

def promise (now : Nat) (granted : Str → Nat) : Operation → Option (Str × Nat)
  | .setTimeout sandboxId body =>
    some (sandboxId, max (granted sandboxId) (now + body.timeout.toNat * 1000000000))
  | .refresh sandboxId body => some (sandboxId, extend (granted sandboxId) now body.duration)
  | _ => none

def succeeded : HttpAnswer → Bool
  | .answered (.ok _) => true
  | _ => false

def forgotten (s : LocalRuntimeBackend) (granted : Str → Nat) : Str → Nat := fun id =>
  if id ∈ s.sandboxes.sandboxes then granted id else 0

def granting (granted : Str → Nat) : Option (Str × Nat) → Str → Nat
  | some (sandboxId, instant) => Function.update granted sandboxId instant
  | none => granted

def step (p : Promised φ) : Event → Promised φ
  | .request a now request =>
    let (answer, server) := handleHttpRequest d apiKey store a request p.server
    let promised := if succeeded answer then
      (operationOf d apiKey request).bind (promise extend now p.granted) else none
    ⟨server, forgotten p.server.backend (granting p.granted promised)⟩
  | .tick a now => ⟨left (tick a store (text now) p.server), p.granted⟩

def Covers (endAt : Str) (instant : Nat) : Prop :=
  ∀ now, (compare endAt (text now)).isLE = true → instant ≤ now

/-- A request promises a registered sandbox no more time than its deadline leaves it. -/
def Careful (p : Promised φ) : Event → Prop
  | .request _ now request => ∀ operation sandboxId instant endAt,
    operationOf d apiKey request = some operation →
    promise extend now p.granted operation = some (sandboxId, instant) →
    deadlinesPart p.server.backend sandboxId = some endAt → Covers text endAt instant
  | .tick _ _ => True

/-- The tick asks the adapter to end no sandbox that was promised to live on. -/
def Honoured (p : Promised φ) (a : RuntimeAdapter) (now : Nat) : Prop :=
  ∀ id record, p.server.backend.sandboxes.sandboxes[id]? = some record →
    action record id ∈ tickCalls a store (text now) p.server → p.granted id ≤ now

def Covered (p : Promised φ) : Prop :=
  ∀ id endAt, deadlinesPart p.server.backend id = some endAt → Covers text endAt (p.granted id)

variable {d apiKey store text extend}

theorem Covered.honoured (h : Covered text p) (a : RuntimeAdapter) (now : Nat) :
    Honoured store text p a now := by
  intro id record hrecord hcall
  rw [tickCalls_eq] at hcall
  obtain ⟨q, hq, hsame⟩ := List.mem_map.mp hcall
  obtain ⟨hget, hdue⟩ := mem_dueRecords.mp (attempts_subset q hq)
  have hid := action_id hsame
  rw [hid] at hget
  cases hrecord.symm.trans hget
  refine h id q.2.info.endAt ?_ now ?_
  · rw [deadlinesPart, deadlines, hrecord]
    rfl
  · exact (Bool.and_eq_true_iff.mp hdue).2

variable (d store) in
theorem left_handleRequest (a : RuntimeAdapter) (request : ControlPlaneRequest) (s : Server φ) :
    (handleRequest d store a request s).2.backend = s.backend ∨
      ∃ operation, (handleRequest d store a request s).2.backend =
        left (perform a operation s.backend) := by
  unfold handleRequest
  cases dispatch d request with
  | error e => exact .inl rfl
  | ok operation =>
    refine .inr ⟨operation, ?_⟩
    dsimp only
    cases perform a operation s.backend with
    | error e t => rfl
    | ok response t =>
      dsimp only
      split
      · cases hsave : saveStateJson store { s with backend := t } with
        | ok u => exact saveStateJson_backend hsave
        | error e => rfl
      · rfl

theorem follows_handleHttpRequest (a : RuntimeAdapter) (request : HttpRequest) (s : Server φ) :
    Follows s.backend (handleHttpRequest d apiKey store a request s).2.backend := by
  unfold handleHttpRequest
  split
  · cases convertHttpRequest request with
    | error e => exact follows_of_eq rfl
    | ok converted =>
      rcases left_handleRequest d store a converted s with h | ⟨operation, h⟩
      · rw [h]
        exact follows_of_eq rfl
      · rw [h]
        exact perform_stays a operation s.backend
  · exact follows_of_eq rfl

theorem covers_granting {now : Nat} {id endAt : Str}
    {b : Bool} (h : Covered text p) (hend : deadlinesPart p.server.backend id = some endAt)
    (hc : Careful d apiKey text extend p (.request a now request)) :
    Covers text endAt (granting p.granted (if b then
      (operationOf d apiKey request).bind (promise extend now p.granted) else none) id) := by
  cases hpromised : (if b then (operationOf d apiKey request).bind
      (promise extend now p.granted) else none) with
  | none => exact h id endAt hend
  | some promised =>
    obtain ⟨sandboxId, instant⟩ := promised
    rw [granting]
    by_cases hid : id = sandboxId
    · subst hid
      rw [Function.update_self]
      split at hpromised
      · obtain ⟨operation, hoperation, hpromise⟩ := Option.bind_eq_some_iff.mp hpromised
        exact hc operation id instant endAt hoperation hpromise hend
      · cases hpromised
    · rw [Function.update_of_ne hid]
      exact h id endAt hend

theorem covered_step (h : Covered text p) (hc : Careful d apiKey text extend p event) :
    Covered text (step d apiKey store text extend p event) := by
  cases event with
  | tick a now =>
    intro id endAt hend
    have hbackend : (step d apiKey store text extend p (.tick a now)).server.backend =
        left (expireDueSandboxes a (text now) p.server.backend) := left_tick a store p.server
    rw [hbackend] at hend
    exact h id endAt (shrinks_expireDueSandboxes a (text now) id endAt hend)
  | request a now request =>
    intro id endAt hend
    have hfollows : Follows p.server.backend
        (step d apiKey store text extend p (.request a now request)).server.backend :=
      follows_handleHttpRequest a request p.server
    change Covers text endAt (forgotten p.server.backend _ id)
    by_cases hm : id ∈ p.server.backend.sandboxes.sandboxes
    · obtain ⟨before, hbefore⟩ : ∃ before, deadlinesPart p.server.backend id = some before :=
        ⟨_, by rw [deadlinesPart, deadlines, Std.ExtTreeMap.getElem?_eq_some_getElem hm]; rfl⟩
      obtain rfl := hfollows id before endAt hbefore hend
      rw [forgotten, if_pos hm]
      exact covers_granting h hbefore hc
    · rw [forgotten, if_neg hm]
      exact fun now _ => Nat.zero_le now

/-- As long as every request promises only what the deadlines leave, no tick ends a sandbox
before the latest instant it was promised to live to. -/
theorem no_tick_before_granted (d : Decoders) (apiKey : Option Str) (store : Store φ)
    (text : Nat → Str) (extend : Nat → Nat → Option UInt64 → Nat) (p₀ : Promised φ)
    (h₀ : Covered text p₀) (events : List Event)
    (h : Meets (step d apiKey store text extend) (Careful d apiKey text extend) p₀ events)
    (before rest : List Event) (a : RuntimeAdapter) (now : Nat)
    (hsplit : events = before ++ .tick a now :: rest) :
    Honoured store text (run (step d apiKey store text extend) p₀ before) a now := by
  rw [hsplit, meets_append] at h
  have hcovered : Covered text (run (step d apiKey store text extend) p₀ before) :=
    h.1.keeps (fun p event hp hc => covered_step hp hc) h₀
  exact hcovered.honoured a now
end

def slowClock (now : Nat) : Str :=
  if now < 300000000000 then str "2026-05-08T00:00:00Z" else str "2026-05-08T00:05:00Z"

def shortLived : SandboxRecord :=
  SandboxRegistry.newRecord {} ⟨str "sbx_1", [], [], none, none, [],
    str "2026-05-08T00:05:00Z", 1, 512⟩

def fiveMinutes : Promised Unit :=
  let sandboxes : Table Str SandboxRecord := Std.ExtTreeMap.insert ∅ (str "sbx_1") shortLived
  { server := { backend := { templates := .new [], sandboxes := { sandboxes } }, file := () }
    granted := fun _ => 300000000000 }

def timeoutBody (seconds : UInt64) : Decoders :=
  { Decoders.refusing with timeout := fun _ => .ok ⟨seconds⟩ }

def postTimeout : HttpRequest :=
  { method := str "POST", pathAndQuery := some (str "/sandboxes/sbx_1/timeout")
    body := .ok [123, 125] }

def stopping : RuntimeAdapter := { RuntimeAdapter.refusing with stop := fun _ => .ok () }

def afterTimeout (seconds : UInt64) : Promised Unit :=
  run (step (timeoutBody seconds) none none slowClock fun granted _ _ => granted) fiveMinutes
    [.request .refusing 0 postTimeout]

theorem slowClock_covers (h : instant ≤ 300000000000) :
    Covers slowClock (str "2026-05-08T00:05:00Z") instant := by
  intro now hle
  unfold slowClock at hle
  split at hle
  · have hlate : (compare (str "2026-05-08T00:05:00Z") (str "2026-05-08T00:00:00Z")).isLE =
        false := by
      decide +kernel
    cases hlate.symm.trans hle
  · omega

theorem fiveMinutes_deadline {id endAt : Str}
    (h : deadlinesPart fiveMinutes.server.backend id = some endAt) :
    endAt = str "2026-05-08T00:05:00Z" := by
  change ((∅ : Table Str SandboxRecord).insert (str "sbx_1") _)[id]?.map _ = some endAt at h
  rw [get_insert] at h
  split at h
  · exact (Option.some.inj h).symm
  · cases h

/-- A minute at most is asked for, and the sandbox is stopped after five. -/
theorem no_tick_before_granted_minute :
    Honoured none slowClock (afterTimeout 60) stopping 300000000000 := by
  refine no_tick_before_granted (timeoutBody 60) none none slowClock (fun granted _ _ => granted)
    fiveMinutes (fun id endAt h => ?_) [.request .refusing 0 postTimeout, .tick stopping _]
    ⟨fun operation id instant endAt hoperation hpromise h => ?_, trivial, trivial⟩
    [.request .refusing 0 postTimeout] [] stopping 300000000000 rfl
  · rw [fiveMinutes_deadline h]
    exact slowClock_covers le_rfl
  · rw [fiveMinutes_deadline h]
    have hroute : operationOf (timeoutBody 60) none postTimeout =
        some (.setTimeout (str "sbx_1") ⟨60⟩) := by rfl
    cases hroute.symm.trans hoperation
    cases hpromise
    exact slowClock_covers (by decide)

/-- An hour is granted, and the sandbox is stopped after five minutes. -/
theorem hour_granted_not_honoured :
    ¬Honoured none slowClock (afterTimeout 3600) stopping 300000000000 := by
  intro h
  have hrecord : (afterTimeout 3600).server.backend.sandboxes.sandboxes[str "sbx_1"]? =
      some shortLived := by decide +kernel
  have hstopped : action shortLived (str "sbx_1") ∈
      tickCalls stopping none (slowClock 300000000000) (afterTimeout 3600).server := by
    decide +kernel
  have hgranted := h (str "sbx_1") shortLived hrecord hstopped
  revert hgranted
  decide +kernel

end SandboxDeadlines
