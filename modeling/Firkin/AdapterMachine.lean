import Firkin.Interleaving
import Firkin.EndTimes

/-! # The runtime adapter as a machine of calls

`start`, `start_followup`, `prewarm_template`, `maintain_warm_templates` and `stop` of the
runtime adapter, cut at their await points. Every section under the state lock is one step;
`stop`, and a prewarm whose session cannot be retained, keep the lock across an await. The
`Bool` of a step is how the awaited work turned out: the checks, the launcher, the readiness
probe, the servers and the heartbeat, or `stop_session`. A sandbox is named by the number in
its id, a session by the order of its launch. -/
namespace AdapterMachine

open Ext4Types Admission QueueMap Interleaving Std

structure Config where
  capacity : ResourceBudget
  budget : ResourceBudget
  activeQueuePolicy : ActiveQueuePolicy
  /-- The clock as it is read for the configuration that comes after `n` others. -/
  clock : Nat → HostAdapter.Clock := fun _ => {}

structure ActiveSessionReservation where
  budget : ResourceBudget
  released : Bool
  deriving DecidableEq

namespace ActiveSessionReservation

def new (budget : ResourceBudget) : ActiveSessionReservation := ⟨budget, false⟩

def releaseInto (self : ActiveSessionReservation) (ledger : CapacityLedger) :
    Option ResourceBudget × ActiveSessionReservation × CapacityLedger :=
  if self.released then (none, self, ledger)
  else (some self.budget, { self with released := true }, ledger.releaseActive self.budget)

end ActiveSessionReservation

structure FirkinRuntimeSession where
  session : Nat
  reservation : ActiveSessionReservation

structure WarmPoolMaintenanceReport where
  session : Nat
  entry : WarmPoolEntry

/-- What has to be given back: a session that runs, a reservation in the ledger, a sandbox
name. A reservation that was given back leaves `spent`. -/
inductive Token where
  | session (session : Nat)
  | reservation (budget : ResourceBudget)
  | spent
  | name (sandbox : UInt64)

def ActiveSessionReservation.token (self : ActiveSessionReservation) : Token :=
  if self.released then .spent else .reservation self.budget

def FirkinRuntimeSession.tokens (sandbox : UInt64) (self : FirkinRuntimeSession) : List Token :=
  [.name sandbox, .session self.session, self.reservation.token]

inductive Failure where
  | check
  | panic
  | capacity (error : CapacityError)
  | entryDisappeared (template : Str)
  | missingRetainedSession (template : Str)
  | noRetainedSession (template : Str)
  /-- `again` tells whether the call had been accepted into the queue before. -/
  | rejected (again : Bool) (rejection : Option BackpressureRejection)
  | launch
  | probe
  | spawn
  | notFound
  | stop
  | cleanup

inductive Outcome where
  | started (sandbox : UInt64)
  | prewarmed (restored : Bool)
  | maintained (maintained skippedAlreadyWarm : List Str)
  | stopped
  | failed (why : Failure)

/-- A pass of `maintain_warm_templates`: the targets left, how often each key was wanted so
far, and the report. -/
structure MaintainPass where
  targets : List Str
  desired : TreeMap WarmPoolKey Nat := ∅
  maintained : List Str := []
  skippedAlreadyWarm : List Str := []

/-- One `prewarm_template_entry`, on its own or for a maintenance pass. -/
structure PrewarmJob where
  template : Str
  allowExisting : Bool
  pass : Option MaintainPass

inductive Server where
  | envd
  | codeInterpreter

inductive Phase where
  | arrived (template : Str) (timeout : Option UInt64)
  | requesting (template : Str) (timeout : Option UInt64)
  | checking (timeout : Option UInt64)
  | planning (timeout : Option UInt64) (again : Bool)
  | unpolled (timeout : Option UInt64)
  | waiting (timeout : Option UInt64)
  | resumed (timeout : Option UInt64)
  | admitted (timeout : Option UInt64) (evicted : List Nat)
  | restoring (sandbox : UInt64) (evicted : List Nat)
  | probing (sandbox : UInt64) (held : FirkinRuntimeSession)
  | spawning (server : Server) (sandbox : UInt64) (held : FirkinRuntimeSession)
  | registering (sandbox : UInt64) (held : FirkinRuntimeSession)
  | abandoning (held : FirkinRuntimeSession) (why : Failure)
  | releasing (reservation : ActiveSessionReservation) (why : Failure)
  | notifying (why : Failure)
  | prewarmAsked (template : Str)
  | prewarmChecking (job : PrewarmJob)
  | prewarmReady (job : PrewarmJob)
  | prewarmRestoring (job : PrewarmJob)
  | prewarmProbing (job : PrewarmJob) (session : Nat)
  | prewarmStopping (session : Nat)
  | prewarmRetaining (job : PrewarmJob) (session : Nat)
  | prewarmDropping (job : PrewarmJob) (session : Nat) (why : Option CapacityError)
  | maintaining (pass : MaintainPass)
  | stopping (sandbox : UInt64)
  | ending (sandbox : UInt64) (removed : FirkinRuntimeSession)
  | cleaning (reservation : ActiveSessionReservation)
  | done (outcome : Outcome)
  | cancelled

def Phase.owns (cfg : Config) : Phase → List Token
  | .admitted _ evicted => .reservation cfg.budget :: evicted.map .session
  | .restoring sandbox evicted =>
    .name sandbox :: .reservation cfg.budget :: evicted.map .session
  | .probing sandbox held | .spawning _ sandbox held | .registering sandbox held
  | .ending sandbox held => held.tokens sandbox
  | .abandoning held _ => [.session held.session, held.reservation.token]
  | .releasing reservation _ | .cleaning reservation => [reservation.token]
  | .prewarmProbing _ session | .prewarmStopping session | .prewarmRetaining _ session
  | .prewarmDropping _ session _ => [.session session]
  | _ => []

def Phase.needsLock : Phase → Bool
  | .requesting .. | .planning .. | .admitted .. | .registering .. | .releasing .. | .prewarmAsked _
  | .prewarmReady _ | .prewarmRetaining .. | .stopping _ => true
  | .maintaining pass => !pass.targets.isEmpty
  | _ => false

/-- Whether the call is suspended at an await, where its future can be dropped. -/
def Phase.awaits : Phase → Bool
  | .arrived .. | .checking _ | .unpolled _ | .resumed _ | .notifying _ | .prewarmChecking _
  | .done _ | .cancelled => false
  | .maintaining pass => !pass.targets.isEmpty
  | _ => true

/-- The queue counter and the `Notify` of the adapter. `waiters` were polled and wait for a
notification, `notified` have one and were not polled since. -/
structure RestoreQueue where
  pending : Nat := 0
  permit : Bool := false
  waiters : List Nat := []
  notified : List Nat := []

namespace RestoreQueue

def notifyOne (self : RestoreQueue) : RestoreQueue :=
  match self.waiters with
  | [] => { self with permit := true }
  | call :: waiters => { self with waiters, notified := self.notified ++ [call] }

/-- Dropping a waiting future hands a notification it did not see to the next waiter. -/
def forget (self : RestoreQueue) (call : Nat) : RestoreQueue :=
  let self := { self with pending := self.pending - 1 }
  if call ∈ self.notified then
    notifyOne { self with notified := self.notified.erase call }
  else { self with waiters := self.waiters.erase call }

end RestoreQueue

/-- `issued`, `launched`, `running` and `lost` are the model's own record: ids and sessions
handed out so far, the sessions launched and not stopped, and what no one can give back any
more. -/
structure Shared where
  ledger : CapacityLedger
  nextSandbox : UInt64 := 0
  active : TreeMap UInt64 FirkinRuntimeSession := ∅
  warmPool : WarmPoolLedger := {}
  warmSessions : TreeMap WarmPoolKey (List WarmPoolMaintenanceReport) := ∅
  lock : Option Nat := none
  queue : RestoreQueue := {}
  issued : Nat := 0
  launched : Nat := 0
  running : List Nat := []
  lost : List Token := []

def warmPoolKey (templateId : Str) : WarmPoolKey :=
  ⟨templateId, str "base-template", str "apple-vz-arm64"⟩

namespace Shared

def nextId (self : Shared) : Shared :=
  { self with
    nextSandbox := max (saturatingAdd64 self.nextSandbox 1) 1
    issued := self.issued + 1 }

def launch (self : Shared) : Shared :=
  { self with launched := self.launched + 1, running := self.launched :: self.running }

def ended (self : Shared) (session : Nat) : Shared :=
  { self with running := self.running.erase session }

/-- `let _ = session.stop_session().await`: a session that does not stop is dropped. -/
def stopIgnored (self : Shared) (session : Nat) (good : Bool) : Shared :=
  if good then self.ended session else { self with lost := .session session :: self.lost }

/-- Whether `next_config` panics: the end of the sandbox is no date. -/
def configPanics (cfg : Config) (self : Shared) (timeout : Option UInt64) : Bool :=
  (EndTimes.nextConfigTimes (cfg.clock self.issued) timeout).isNone

/-- The warm half of `start`. -/
def requestWarm (cfg : Config) (self : Shared) (template : Str) (timeout : Option UInt64) :
    Shared × Phase :=
  let key := warmPoolKey template
  if !self.warmPool.contains key then (self, .checking timeout)
  else if self.configPanics cfg timeout then (self.nextId, .done (.failed .panic))
  else
    let self := self.nextId
    match self.warmPool.checkout key self.ledger with
    | (warmPool, .error error) => ({ self with warmPool }, .done (.failed (.capacity error)))
    | (warmPool, .ok (none, ledger)) =>
      ({ self with warmPool, ledger }, .done (.failed (.entryDisappeared template)))
    | (warmPool, .ok (some entry, ledger)) =>
      match self.warmSessions[key]? with
      | none =>
        ({ self with warmPool, ledger := ledger.releaseActive entry.budget },
          .done (.failed (.missingRetainedSession template)))
      | some [] =>
        ({ self with
            warmPool, ledger := ledger.releaseActive entry.budget
            warmSessions := self.warmSessions.erase key },
          .done (.failed (.noRetainedSession template)))
      | some (report :: reports) =>
        ({ self with warmPool, ledger, warmSessions := settle self.warmSessions key reports },
          .spawning .envd self.nextSandbox ⟨report.session, .new entry.budget⟩)

/-- Expire one entry per key; the sessions retained for them are handed to the caller. -/
def evict (self : Shared) : List WarmPoolKey → Shared × List Nat
  | [] => (self, [])
  | key :: keys =>
    match self.warmPool.expire key self.ledger with
    | (none, _, _) => self.evict keys
    | (some _, warmPool, ledger) =>
      match self.warmSessions[key]? with
      | none => { self with warmPool, ledger }.evict keys
      | some [] =>
        { self with warmPool, ledger, warmSessions := self.warmSessions.erase key }.evict keys
      | some (report :: reports) =>
        let (self, evicted) :=
          { self with
            warmPool, ledger
            warmSessions := settle self.warmSessions key reports }.evict keys
        (self, report.session :: evicted)

def tryAcquire (pending : Nat) (policy : ActiveQueuePolicy) : Option Nat :=
  if pending ≥ policy.maxPending then none else some (pending + 1)

/-- One turn of the loop in `reserve_active_restore_capacity`, up to its await. -/
def reserveActiveRestoreCapacity (cfg : Config) (timeout : Option UInt64) (again : Bool)
    (self : Shared) : Shared × Phase :=
  let plan := ActiveBackpressurePlan.fromWarmPool cfg.budget self.warmPool self.ledger
    self.queue.pending cfg.activeQueuePolicy
  match plan.decision with
  | .admitNow =>
    let (self, evicted) := self.evict (plan.evictions.map (·.key))
    match self.ledger.reserveActive cfg.budget with
    | .error error =>
      ({ self with lost := evicted.map .session ++ self.lost }, .done (.failed (.capacity error)))
    | .ok ledger => ({ self with ledger }, .admitted timeout evicted)
  | .queue =>
    match tryAcquire self.queue.pending cfg.activeQueuePolicy with
    | none =>
      (self, .done (.failed (.rejected again
        (some (.queueFull cfg.activeQueuePolicy.maxPending self.queue.pending)))))
    | some pending => ({ self with queue := { self.queue with pending } }, .unpolled timeout)
  | .reject => (self, .done (.failed (.rejected again plan.rejection)))

def overwritten (self : Shared) (sandbox : UInt64) : List Token :=
  match self.active[sandbox]? with
  | some old => old.tokens sandbox
  | none => []

/-- `active.insert`. -/
def register (self : Shared) (sandbox : UInt64) (session : FirkinRuntimeSession) : Shared :=
  { self with
    active := self.active.insert sandbox session
    lost := self.overwritten sandbox ++ self.lost }

end Shared

/-- Where the result of `prewarm_template_entry` goes. -/
def PrewarmJob.finish (job : PrewarmJob) (result : Except Failure Bool) : Phase :=
  match job.pass, result with
  | _, .error why => .done (.failed why)
  | none, .ok restored => .done (.prewarmed restored)
  | some pass, .ok true =>
    .maintaining { pass with maintained := pass.maintained ++ [job.template] }
  | some pass, .ok false =>
    .maintaining { pass with skippedAlreadyWarm := pass.skippedAlreadyWarm ++ [job.template] }

def MaintainPass.turn (pass : MaintainPass) (warmPool : WarmPoolLedger) : Phase :=
  match pass.targets with
  | [] => .done (.maintained pass.maintained pass.skippedAlreadyWarm)
  | template :: targets =>
    let key := warmPoolKey template
    let desiredDepth := pass.desired.getD key 0 + 1
    let pass := { pass with targets, desired := pass.desired.insert key desiredDepth }
    if warmPool.count key < desiredDepth then
      .prewarmChecking { template, allowExisting := true, pass := some pass }
    else .maintaining { pass with skippedAlreadyWarm := pass.skippedAlreadyWarm ++ [template] }

def blocked (shared : Shared) (call : Nat) : Phase → Bool
  | .waiting _ => call ∉ shared.queue.notified
  | .done _ | .cancelled => true
  | phase => phase.needsLock && shared.lock.isSome

def perform (cfg : Config) (s : Shared) (call : Nat) (good : Bool) : Phase → Shared × Phase
  | .arrived template timeout =>
    (s, if good then .requesting template timeout else .done (.failed .check))
  | .requesting template timeout => s.requestWarm cfg template timeout
  | .checking timeout => (s, if good then .planning timeout false else .done (.failed .check))
  | .planning timeout again => s.reserveActiveRestoreCapacity cfg timeout again
  | .unpolled timeout =>
    if s.queue.permit then ({ s with queue := { s.queue with permit := false } }, .resumed timeout)
    else ({ s with queue := { s.queue with waiters := s.queue.waiters ++ [call] } },
      .waiting timeout)
  | .waiting timeout =>
    ({ s with queue := { s.queue with notified := s.queue.notified.erase call } }, .resumed timeout)
  | .resumed timeout =>
    ({ s with queue := { s.queue with pending := s.queue.pending - 1 } }, .planning timeout true)
  | .admitted timeout evicted =>
    -- A panic takes what the call holds with it and frees the lock.
    if s.configPanics cfg timeout then
      ({ s.nextId with lost := .reservation cfg.budget :: (evicted.map .session ++ s.lost) },
        .done (.failed .panic))
    else (s.nextId, .restoring s.nextId.nextSandbox evicted)
  | .restoring sandbox (session :: evicted) =>
    (s.stopIgnored session good, .restoring sandbox evicted)
  | .restoring sandbox [] =>
    if good then (s.launch, .probing sandbox ⟨s.launched, .new cfg.budget⟩)
    else (s, .releasing (.new cfg.budget) .launch)
  | .probing sandbox held =>
    (s, if good then .spawning .envd sandbox held else .abandoning held .probe)
  | .spawning .envd sandbox held =>
    (s, if good then .spawning .codeInterpreter sandbox held else .abandoning held .spawn)
  | .spawning .codeInterpreter sandbox held =>
    (s, if good then .registering sandbox held else .abandoning held .spawn)
  | .registering sandbox held => (s.register sandbox held, .done (.started sandbox))
  | .abandoning held why => (s.stopIgnored held.session good, .releasing held.reservation why)
  | .releasing reservation why =>
    match reservation.releaseInto s.ledger with
    | (some _, _, ledger) => ({ s with ledger }, .notifying why)
    | (none, _, ledger) => ({ s with ledger }, .done (.failed why))
  | .notifying why => ({ s with queue := s.queue.notifyOne }, .done (.failed why))
  | .prewarmAsked template =>
    (s, if s.warmPool.contains (warmPoolKey template) then .done (.prewarmed false)
      else .prewarmChecking { template, allowExisting := false, pass := none })
  | .prewarmChecking job => (s, if good then .prewarmReady job else job.finish (.error .check))
  | .prewarmReady job =>
    (s, if !job.allowExisting && s.warmPool.contains (warmPoolKey job.template) then
      job.finish (.ok false) else .prewarmRestoring job)
  | .prewarmRestoring job =>
    if good then (s.launch, .prewarmProbing job s.launched) else (s, job.finish (.error .launch))
  | .prewarmProbing job session =>
    (s, if good then .prewarmRetaining job session else .prewarmStopping session)
  | .prewarmStopping session => (s.stopIgnored session good, .done (.failed .probe))
  | .prewarmRetaining job session =>
    let key := warmPoolKey job.template
    let entry : WarmPoolEntry := ⟨key, job.template, cfg.budget⟩
    if !job.allowExisting && s.warmPool.contains key then
      ({ s with lock := some call }, .prewarmDropping job session none)
    else
      match s.warmPool.maintain entry s.ledger with
      | .error error => ({ s with lock := some call }, .prewarmDropping job session (some error))
      | .ok (warmPool, ledger) =>
        ({ s with
            warmPool, ledger
            warmSessions := s.warmSessions.insert key
              (QueueMap.queue s.warmSessions key ++ [⟨session, entry⟩]) },
          job.finish (.ok true))
  | .prewarmDropping job session why =>
    ({ s.stopIgnored session good with lock := none },
      job.finish (match why with
        | some error => .error (.capacity error)
        | none => .ok false))
  | .maintaining pass => (s, pass.turn s.warmPool)
  | .stopping sandbox =>
    match s.active[sandbox]? with
    | none => (s, .done (.failed .notFound))
    | some removed =>
      ({ s with active := s.active.erase sandbox, lock := some call }, .ending sandbox removed)
  | .ending sandbox removed =>
    if good then (s.ended removed.session, .cleaning removed.reservation)
    else ({ s.register sandbox removed with lock := none }, .done (.failed .stop))
  | .cleaning reservation =>
    let outcome : Outcome := if good then .stopped else .failed .cleanup
    match reservation.releaseInto s.ledger with
    | (some _, _, ledger) =>
      ({ s with ledger, queue := s.queue.notifyOne, lock := none }, .done outcome)
    | (none, _, ledger) => ({ s with ledger, lock := none }, .done outcome)
  | .done outcome => (s, .done outcome)
  | .cancelled => (s, .cancelled)

def advance (cfg : Config) (s : Shared) (call : Nat) (good : Bool) (phase : Phase) :
    Option (Shared × Phase) :=
  if blocked s call phase then none else some (perform cfg s call good phase)

/-- Dropping a future gives back its queue slot and the lock, and nothing else. -/
def drop (cfg : Config) (s : Shared) (call : Nat) (phase : Phase) : Option (Shared × Phase) :=
  if phase.awaits then
    some ({ s with
        lost := phase.owns cfg ++ s.lost
        lock := if s.lock = some call then none else s.lock
        queue := match phase with
          | .waiting _ => s.queue.forget call
          | _ => s.queue }, .cancelled)
  else none

inductive Request where
  | start (template : Str) (timeout : Option UInt64 := none)
  | startFollowup (timeout : Option UInt64 := none)
  | prewarmTemplate (template : Str)
  | maintainWarmTemplates (templates : List Str)
  | stop (sandbox : UInt64)

def enter : Request → Phase
  | .start template timeout => .arrived template timeout
  | .startFollowup timeout => .checking timeout
  | .prewarmTemplate template => .prewarmAsked template
  | .maintainWarmTemplates templates => .maintaining { targets := templates }
  | .stop sandbox => .stopping sandbox

def machine (cfg : Config) : Machine Shared Phase Request Bool :=
  { enter, advance := advance cfg, drop := drop cfg }

abbrev Adapter := World Shared Phase
def initial (cfg : Config) : Adapter := { shared := { ledger := .new cfg.capacity } }

/-- A condition on the events of a run, each with the state it meets. -/
abbrev Condition := Adapter → Event Request Bool → Bool
def uncancelled : Condition := fun _ e => !e.isCancel
abbrev Meets (ok : Condition) (w : Adapter) (e : Event Request Bool) : Prop := ok w e = true

abbrev Reached (cfg : Config) (ok : Condition) (w : Adapter) : Prop :=
  Reachable (machine cfg) (Meets ok) (initial cfg) w

theorem reached_run (h : (run (machine cfg) ok (initial cfg) es).any check = true) :
    ∃ w, Reached cfg ok w ∧ check w = true :=
  reachable_run_any h

def unitBudget (capacity : ResourceBudget) (maxPending : Nat) : Config :=
  { capacity, budget := ⟨1, 1, 1⟩, activeQueuePolicy := ⟨maxPending⟩ }

def steps (call n : Nat) : List (Event Request Bool) := List.replicate n (.step call true)

end AdapterMachine
