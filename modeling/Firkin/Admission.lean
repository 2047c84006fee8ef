import Firkin.QueueMap
import Firkin.Ext4Types

/-! # Capacity admission

Budgets, the capacity ledger, the warm pool and the admission plans of the `admission`
crate. Budget arithmetic saturates in both directions. -/
namespace Admission

open Ext4Types QueueMap Std

structure ResourceBudget where
  cpus : UInt32
  memory : UInt64
  disk : UInt64
  deriving DecidableEq

def saturatingAdd32 (a b : UInt32) : UInt32 := UInt32.ofNat (min (a.toNat + b.toNat) (2 ^ 32 - 1))
def saturatingSub32 (a b : UInt32) : UInt32 := UInt32.ofNat (a.toNat - b.toNat)
def saturatingAdd64 (a b : UInt64) : UInt64 := UInt64.ofNat (min (a.toNat + b.toNat) (2 ^ 64 - 1))
def saturatingSub64 (a b : UInt64) : UInt64 := UInt64.ofNat (a.toNat - b.toNat)

instance : Add ResourceBudget where
  add a b :=
    { cpus := saturatingAdd32 a.cpus b.cpus
      memory := saturatingAdd64 a.memory b.memory
      disk := saturatingAdd64 a.disk b.disk }

instance : Sub ResourceBudget where
  sub a b :=
    { cpus := saturatingSub32 a.cpus b.cpus
      memory := saturatingSub64 a.memory b.memory
      disk := saturatingSub64 a.disk b.disk }

def ResourceBudget.zero : ResourceBudget := ⟨0, 0, 0⟩

inductive CapacityError where
  | cpu (requested available : UInt32)
  | memory (requested available : UInt64)
  | disk (requested available : UInt64)

def budgetFits (request available : ResourceBudget) : Bool :=
  request.cpus ≤ available.cpus && request.memory ≤ available.memory &&
    request.disk ≤ available.disk

/-- The first component in which a request exceeds what is available. -/
def capacityErrorForRequest (request available : ResourceBudget) : Option CapacityError :=
  if request.cpus > available.cpus then some (.cpu request.cpus available.cpus)
  else if request.memory > available.memory then some (.memory request.memory available.memory)
  else if request.disk > available.disk then some (.disk request.disk available.disk)
  else none

@[ext] structure CapacityLedger where
  capacity : ResourceBudget
  active : ResourceBudget
  warmPool : ResourceBudget

namespace CapacityLedger

def new (capacity : ResourceBudget) : CapacityLedger :=
  { capacity, active := .zero, warmPool := .zero }

def used (self : CapacityLedger) : ResourceBudget := self.active + self.warmPool
def available (self : CapacityLedger) : ResourceBudget := self.capacity - self.used

def checkAvailable (self : CapacityLedger) (request : ResourceBudget) : Except CapacityError Unit :=
  match capacityErrorForRequest request self.available with
  | some e => .error e
  | none => .ok ()

def reserveActive (self : CapacityLedger) (request : ResourceBudget) :
    Except CapacityError CapacityLedger := do
  self.checkAvailable request
  pure { self with active := self.active + request }

def reserveWarmPool (self : CapacityLedger) (request : ResourceBudget) :
    Except CapacityError CapacityLedger := do
  self.checkAvailable request
  pure { self with warmPool := self.warmPool + request }

def releaseActive (self : CapacityLedger) (budget : ResourceBudget) : CapacityLedger :=
  { self with active := self.active - budget }

def releaseWarmPool (self : CapacityLedger) (budget : ResourceBudget) : CapacityLedger :=
  { self with warmPool := self.warmPool - budget }

def promoteWarmPoolToActive (self : CapacityLedger) (budget : ResourceBudget) :
    Except CapacityError CapacityLedger :=
  match capacityErrorForRequest budget self.warmPool with
  | some e => .error e
  | none => .ok { self with warmPool := self.warmPool - budget, active := self.active + budget }

end CapacityLedger

structure WarmPoolKey where
  repo : Str
  template : Str
  runtimeProfile : Str
  deriving DecidableEq

instance : Ord WarmPoolKey where
  compare := compareLex (compareOn WarmPoolKey.repo)
    (compareLex (compareOn WarmPoolKey.template) (compareOn WarmPoolKey.runtimeProfile))

instance : TransOrd WarmPoolKey :=
  inferInstanceAs (TransCmp (compareLex (compareOn WarmPoolKey.repo)
    (compareLex (compareOn WarmPoolKey.template) (compareOn WarmPoolKey.runtimeProfile))))

instance : LawfulEqOrd WarmPoolKey where
  compare_self := ReflCmp.compare_self
  eq_of_compare {a b} h := by
    change (compareLex (compareOn WarmPoolKey.repo) (compareLex (compareOn WarmPoolKey.template)
      (compareOn WarmPoolKey.runtimeProfile))) a b = .eq at h
    simp only [compareLex, compareOn, Ordering.then_eq_eq, Std.compare_eq_iff_eq] at h
    obtain ⟨h1, h2, h3⟩ := h
    cases a
    cases b
    simp_all

structure WarmPoolEntry where
  key : WarmPoolKey
  snapshotId : Str
  budget : ResourceBudget

structure WarmPoolLedger where
  entries : TreeMap WarmPoolKey (List WarmPoolEntry) := ∅

namespace WarmPoolLedger

def maintain (self : WarmPoolLedger) (entry : WarmPoolEntry) (capacity : CapacityLedger) :
    Except CapacityError (WarmPoolLedger × CapacityLedger) := do
  let capacity ← capacity.reserveWarmPool entry.budget
  pure (⟨self.entries.insert entry.key (queue self.entries entry.key ++ [entry])⟩, capacity)

/-- The pool loses the entry even when its reservation cannot be promoted. -/
def checkout (self : WarmPoolLedger) (key : WarmPoolKey) (capacity : CapacityLedger) :
    WarmPoolLedger × Except CapacityError (Option WarmPoolEntry × CapacityLedger) :=
  match self.entries[key]? with
  | none => (self, .ok (none, capacity))
  | some [] => (⟨self.entries.erase key⟩, .ok (none, capacity))
  | some (entry :: rest) =>
    (⟨settle self.entries key rest⟩,
      (capacity.promoteWarmPoolToActive entry.budget).map fun capacity => (some entry, capacity))

def expire (self : WarmPoolLedger) (key : WarmPoolKey) (capacity : CapacityLedger) :
    Option WarmPoolEntry × WarmPoolLedger × CapacityLedger :=
  match self.entries[key]? with
  | none => (none, self, capacity)
  | some [] => (none, self, capacity)
  | some (entry :: rest) =>
    (some entry, ⟨settle self.entries key rest⟩, capacity.releaseWarmPool entry.budget)

def contains (self : WarmPoolLedger) (key : WarmPoolKey) : Bool :=
  match self.entries[key]? with
  | some entries => !entries.isEmpty
  | none => false

def count (self : WarmPoolLedger) (key : WarmPoolKey) : Nat :=
  match self.entries[key]? with
  | some entries => entries.length
  | none => 0

/-- Expire entries in key order until the request fits. A turn that finds nothing to expire
under the first key changes nothing; `none` is a loop that has not ended yet. -/
def evictUntilAvailable (request : ResourceBudget) :
    Nat → WarmPoolLedger → CapacityLedger →
      Option (List WarmPoolEntry × WarmPoolLedger × CapacityLedger)
  | 0, _, _ => none
  | fuel + 1, self, capacity =>
    if budgetFits request capacity.available then some ([], self, capacity)
    else
      match self.entries.minKey? with
      | none => some ([], self, capacity)
      | some key =>
        match self.expire key capacity with
        | (none, self, capacity) => evictUntilAvailable request fuel self capacity
        | (some entry, self, capacity) =>
          (evictUntilAvailable request fuel self capacity).map fun (evicted, rest) =>
            (entry :: evicted, rest)

end WarmPoolLedger

structure ActiveCapacityAdmissionPlan where
  request : ResourceBudget
  evictions : List WarmPoolEntry
  error : Option CapacityError

def reclaim (request : ResourceBudget) :
    List WarmPoolEntry → ResourceBudget → List WarmPoolEntry × ResourceBudget
  | [], available => ([], available)
  | entry :: entries, available =>
    let available := available + entry.budget
    if budgetFits request available then ([entry], available)
    else
      let (evictions, available) := reclaim request entries available
      (entry :: evictions, available)

def ActiveCapacityAdmissionPlan.fromWarmPool (request : ResourceBudget) (pool : WarmPoolLedger)
    (capacity : CapacityLedger) : ActiveCapacityAdmissionPlan :=
  let (evictions, available) :=
    if budgetFits request capacity.available then ([], capacity.available)
    else reclaim request (flat pool.entries) capacity.available
  { request, evictions, error := capacityErrorForRequest request available }

structure ActiveQueuePolicy where
  maxPending : Nat

inductive ActiveBackpressureDecision where
  | admitNow
  | queue
  | reject

inductive BackpressureRejection where
  | oversized (error : CapacityError)
  | queueFull (maxPending pending : Nat)

structure ActiveBackpressurePlan where
  request : ResourceBudget
  decision : ActiveBackpressureDecision
  evictions : List WarmPoolEntry := []
  queuePosition : Option Nat := none
  rejection : Option BackpressureRejection := none

def ActiveBackpressurePlan.fromWarmPool (request : ResourceBudget) (pool : WarmPoolLedger)
    (capacity : CapacityLedger) (pendingActive : Nat) (policy : ActiveQueuePolicy) :
    ActiveBackpressurePlan :=
  let admission := ActiveCapacityAdmissionPlan.fromWarmPool request pool capacity
  if admission.error.isNone then
    { request, decision := .admitNow, evictions := admission.evictions }
  else
    match capacityErrorForRequest request capacity.capacity with
    | some error => { request, decision := .reject, rejection := some (.oversized error) }
    | none =>
      if pendingActive ≥ policy.maxPending then
        { request, decision := .reject
          rejection := some (.queueFull policy.maxPending pendingActive) }
      else { request, decision := .queue, queuePosition := some (pendingActive + 1) }

end Admission
