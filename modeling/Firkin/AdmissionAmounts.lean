import Mathlib.Algebra.Order.Sub.Prod
import Firkin.Admission

/-! # What the ledger counts

`amount` reads a budget as a vector of naturals. As long as the reservations together fit
the capacity no addition saturates, so the ledger adds and subtracts exactly, and the plan
admits a request exactly when it fits what active sessions leave. -/
namespace AdmissionAmounts

open Admission QueueMap CapacityLedger ActiveCapacityAdmissionPlan

inductive Resource where
  | cpus
  | memory
  | disk

abbrev Load := Resource → ℕ

instance : DecidableLE Load := fun u v =>
  decidable_of_iff (u .cpus ≤ v .cpus ∧ u .memory ≤ v .memory ∧ u .disk ≤ v .disk)
    ⟨fun ⟨hc, hm, hd⟩ r => match r with
      | .cpus => hc
      | .memory => hm
      | .disk => hd, fun h => ⟨h .cpus, h .memory, h .disk⟩⟩

def amount (b : ResourceBudget) : Load
  | .cpus => b.cpus.toNat
  | .memory => b.memory.toNat
  | .disk => b.disk.toNat

variable {a b : ResourceBudget}

theorem saturatingAdd32_toNat {a b} :
    (saturatingAdd32 a b).toNat = min (a.toNat + b.toNat) (2 ^ 32 - 1) := by
  exact Nat.mod_eq_of_lt (by omega)

theorem saturatingSub32_toNat {a b} : (saturatingSub32 a b).toNat = a.toNat - b.toNat := by
  exact Nat.mod_eq_of_lt (by have := a.toNat_lt; omega)

theorem saturatingAdd64_toNat {a b} :
    (saturatingAdd64 a b).toNat = min (a.toNat + b.toNat) (2 ^ 64 - 1) := by
  exact Nat.mod_eq_of_lt (by omega)

theorem saturatingSub64_toNat {a b} : (saturatingSub64 a b).toNat = a.toNat - b.toNat := by
  exact Nat.mod_eq_of_lt (by have := a.toNat_lt; omega)

theorem amount_injective (h : amount a = amount b) : a = b := by
  obtain ⟨a1, a2, a3⟩ := a
  obtain ⟨b1, b2, b3⟩ := b
  have h1 : a1 = b1 := UInt32.toNat_inj.mp (congrFun h .cpus)
  have h2 : a2 = b2 := UInt64.toNat_inj.mp (congrFun h .memory)
  have h3 : a3 = b3 := UInt64.toNat_inj.mp (congrFun h .disk)
  rw [h1, h2, h3]

@[simp] theorem amount_zero : amount .zero = 0 := by
  funext r
  cases r <;> rfl

@[simp] theorem amount_sub : amount (a - b) = amount a - amount b := by
  funext r
  cases r with
  | cpus => exact saturatingSub32_toNat
  | memory | disk => exact saturatingSub64_toNat

theorem amount_add (h : amount a + amount b ≤ amount c) : amount (a + b) = amount a + amount b := by
  funext r
  have hr := h r
  cases r with
  | cpus =>
    refine saturatingAdd32_toNat.trans (min_eq_left ?_)
    exact Nat.le_sub_one_of_lt (lt_of_le_of_lt hr c.cpus.toNat_lt)
  | memory =>
    refine saturatingAdd64_toNat.trans (min_eq_left ?_)
    exact Nat.le_sub_one_of_lt (lt_of_le_of_lt hr c.memory.toNat_lt)
  | disk =>
    refine saturatingAdd64_toNat.trans (min_eq_left ?_)
    exact Nat.le_sub_one_of_lt (lt_of_le_of_lt hr c.disk.toNat_lt)

theorem le_iff : amount a ≤ amount b ↔ a.cpus ≤ b.cpus ∧ a.memory ≤ b.memory ∧ a.disk ≤ b.disk := by
  constructor
  · exact fun h => ⟨h .cpus, h .memory, h .disk⟩
  · rintro ⟨h1, h2, h3⟩ r
    cases r with
    | cpus => exact h1
    | memory => exact h2
    | disk => exact h3

theorem budgetFits_iff : budgetFits a b = true ↔ amount a ≤ amount b := by
  rw [le_iff, budgetFits]
  simp only [Bool.and_eq_true, decide_eq_true_eq, and_assoc]

theorem capacityErrorForRequest_none :
    capacityErrorForRequest a b = none ↔ amount a ≤ amount b := by
  rw [le_iff, capacityErrorForRequest]
  split
  · next h =>
    refine ⟨fun he => (by cases he), fun ⟨h', _⟩ => ?_⟩
    exact absurd h' (UInt32.not_le.mpr h)
  split
  · next h =>
    refine ⟨fun he => (by cases he), fun ⟨_, h', _⟩ => ?_⟩
    exact absurd h' (UInt64.not_le.mpr h)
  split
  · next h =>
    refine ⟨fun he => (by cases he), fun ⟨_, _, h'⟩ => ?_⟩
    exact absurd h' (UInt64.not_le.mpr h)
  · next h1 h2 h3 =>
    exact ⟨fun _ => ⟨UInt32.not_lt.mp h1, UInt64.not_lt.mp h2, UInt64.not_lt.mp h3⟩, fun _ => rfl⟩

def Solvent (l : CapacityLedger) : Prop :=
  amount l.active + amount l.warmPool ≤ amount l.capacity

/-- What active sessions leave: free capacity and what the warm pool could give back. -/
def slack (l : CapacityLedger) : Load := amount l.capacity - amount l.active

variable {l : CapacityLedger} {req : ResourceBudget}

theorem solvent_new (capacity : ResourceBudget) : Solvent (new capacity) := by
  intro r
  simp [new]

section
variable (h : Solvent l)
include h

theorem Solvent.used : amount l.used = amount l.active + amount l.warmPool :=
  amount_add h

theorem Solvent.available :
    amount l.available = amount l.capacity - (amount l.active + amount l.warmPool) := by
  rw [CapacityLedger.available, amount_sub, h.used]

theorem Solvent.slack : slack l = amount l.available + amount l.warmPool := by
  funext r
  have hr := h r
  simp only [AdmissionAmounts.slack, h.available, Pi.sub_apply, Pi.add_apply] at hr ⊢
  omega
end

theorem checkAvailable_ok : l.checkAvailable req = .ok () ↔ amount req ≤ amount l.available := by
  rw [checkAvailable, ← capacityErrorForRequest_none]
  cases capacityErrorForRequest req l.available <;> simp

section
variable (h : Solvent l)
include h

theorem Solvent.room (hfit : amount req ≤ amount l.available) :
    amount l.active + amount l.warmPool + amount req ≤ amount l.capacity := by
  intro r
  have h1 := h r
  have h2 := hfit r
  simp only [h.available, Pi.sub_apply, Pi.add_apply] at h1 h2 ⊢
  omega

/-- A reservation succeeds exactly when the request fits, and is then added. -/
theorem reserveActive_cases (req : ResourceBudget) :
    (amount req ≤ amount l.available ∧ ∃ l', l.reserveActive req = .ok l' ∧
      amount l'.active = amount l.active + amount req ∧ l'.warmPool = l.warmPool ∧
      l'.capacity = l.capacity ∧ Solvent l') ∨
    (¬ amount req ≤ amount l.available ∧ ∃ e, l.reserveActive req = .error e) := by
  by_cases hfit : amount req ≤ amount l.available
  · have hroom := h.room hfit
    rw [add_right_comm] at hroom
    have hsum := amount_add (le_self_add.trans hroom)
    refine .inl ⟨hfit, { l with active := l.active + req }, ?_, hsum, rfl, rfl, ?_⟩
    · rw [reserveActive, checkAvailable_ok.mpr hfit]
      rfl
    · rwa [Solvent, hsum]
  · refine .inr ⟨hfit, ?_⟩
    rw [reserveActive]
    cases hc : l.checkAvailable req with
    | ok _ => exact absurd (checkAvailable_ok.mp hc) hfit
    | error e => exact ⟨e, rfl⟩

theorem reserveWarmPool_ok (hr : l.reserveWarmPool req = .ok l') :
    amount l'.warmPool = amount l.warmPool + amount req ∧ l'.active = l.active ∧
      l'.capacity = l.capacity ∧ Solvent l' := by
  rw [reserveWarmPool] at hr
  cases hc : l.checkAvailable req with
  | error e => rw [hc] at hr; cases hr
  | ok u =>
    rw [hc] at hr
    cases hr
    have hroom := h.room (checkAvailable_ok.mp hc)
    rw [add_assoc] at hroom
    have hsum := amount_add (le_add_self.trans hroom)
    exact ⟨hsum, rfl, rfl, by rwa [Solvent, hsum]⟩

theorem Solvent.releaseActive (b : ResourceBudget) : Solvent (l.releaseActive b) := by
  intro r
  have hr := h r
  simp only [CapacityLedger.releaseActive, amount_sub, Pi.sub_apply, Pi.add_apply] at hr ⊢
  omega

theorem Solvent.releaseWarmPool (b : ResourceBudget) : Solvent (l.releaseWarmPool b) := by
  intro r
  have hr := h r
  simp only [CapacityLedger.releaseWarmPool, amount_sub, Pi.sub_apply, Pi.add_apply] at hr ⊢
  omega

/-- A reservation that is part of the warm pool's can be promoted. -/
theorem promote_ok (hb : amount b ≤ amount l.warmPool) :
    ∃ l', l.promoteWarmPoolToActive b = .ok l' ∧ amount l'.active = amount l.active + amount b ∧
      amount l'.warmPool = amount l.warmPool - amount b ∧ l'.capacity = l.capacity ∧
        Solvent l' := by
  have hsum : amount l.active + amount b ≤ amount l.capacity := (add_le_add_right hb _).trans h
  rw [promoteWarmPoolToActive, capacityErrorForRequest_none.mpr hb]
  refine ⟨_, rfl, amount_add hsum, amount_sub, rfl, fun r => ?_⟩
  have h1 := h r
  have h2 := hb r
  simp only [amount_add hsum, amount_sub, Pi.sub_apply, Pi.add_apply] at h1 h2 ⊢
  omega
end

def budgets (entries : List WarmPoolEntry) : Load := (entries.map fun e => amount e.budget).sum

variable {request available capacity : ResourceBudget} {entries : List WarmPoolEntry}

def planned (request : ResourceBudget) : List WarmPoolEntry → ResourceBudget → List WarmPoolEntry
  | [], _ => []
  | entry :: entries, available =>
    if budgetFits request available then []
    else entry :: planned request entries (available + entry.budget)

def raised (available : ResourceBudget) (entries : List WarmPoolEntry) : ResourceBudget :=
  entries.foldl (fun available e => available + e.budget) available

theorem planned_of_fits (h : budgetFits request available = true) :
    planned request entries available = [] := by
  cases entries with
  | nil => rfl
  | cons entry entries => rw [planned, if_pos h]

theorem reclaim_eq (h : ¬budgetFits request available = true) :
    reclaim request entries available =
      (planned request entries available,
        raised available (planned request entries available)) := by
  induction entries generalizing available with
  | nil => rfl
  | cons entry entries ih =>
    rw [reclaim, planned, if_neg h]
    by_cases hfit : budgetFits request (available + entry.budget) = true
    · rw [if_pos hfit, planned_of_fits hfit]
      rfl
    · rw [if_neg hfit, ih hfit]
      rfl

theorem plan_eq (request : ResourceBudget) (pool : WarmPoolLedger) (ledger : CapacityLedger) :
    fromWarmPool request pool ledger =
      let taken := planned request (flat pool.entries) ledger.available
      ⟨request, taken, capacityErrorForRequest request (raised ledger.available taken)⟩ := by
  unfold fromWarmPool
  by_cases hfit : budgetFits request ledger.available = true
  · rw [if_pos hfit, planned_of_fits hfit]
    rfl
  · rw [if_neg hfit, reclaim_eq hfit]

theorem budgets_mono (h : es <+: entries) : budgets es ≤ budgets entries := by
  obtain ⟨rest, rfl⟩ := h
  simp [budgets]

theorem planned_spec (h : amount available + budgets entries ≤ amount capacity) :
    planned request entries available <+: entries ∧
      amount (raised available (planned request entries available)) =
        amount available + budgets (planned request entries available) ∧
      (amount request ≤ amount (raised available (planned request entries available)) ∨
        planned request entries available = entries) := by
  induction entries generalizing available with
  | nil => exact ⟨List.prefix_rfl, by simp [planned, raised, budgets], .inr rfl⟩
  | cons e entries ih =>
    have hsplit : budgets (e :: entries) = amount e.budget + budgets entries := by
      simp [budgets]
    rw [hsplit, ← add_assoc] at h
    have hadd := amount_add (le_self_add.trans h)
    by_cases hfit : budgetFits request available = true
    · rw [planned_of_fits hfit]
      exact ⟨List.nil_prefix, by simp [raised, budgets], .inl (budgetFits_iff.mp hfit)⟩
    · obtain ⟨hpre, hav, hend⟩ := ih (hadd ▸ h)
      rw [planned, if_neg hfit]
      refine ⟨(List.prefix_cons_inj e).mpr hpre, ?_, hend.imp_right (congrArg (e :: ·))⟩
      refine hav.trans ?_
      simp [budgets, hadd, add_assoc]

section
variable {pool : WarmPoolLedger} (h : Solvent l)
variable (hpool : amount l.warmPool = total (fun e => amount e.budget) pool.entries)
include h hpool

/-- The plan takes entries from the front of the pool, and admits exactly the requests that
fit what active sessions leave. -/
theorem admission_spec (req : ResourceBudget) :
    let plan := fromWarmPool req pool l
    plan.evictions <+: flat pool.entries ∧ (plan.error = none ↔ amount req ≤ slack l) ∧
      (plan.error = none → amount req ≤ amount l.available + budgets plan.evictions) := by
  have htotal : amount l.warmPool = budgets (flat pool.entries) := hpool
  have hroom : amount l.available + budgets (flat pool.entries) ≤ amount l.capacity := by
    intro r
    have hr := h r
    simp only [h.available, ← htotal, Pi.sub_apply, Pi.add_apply] at hr ⊢
    omega
  have hslack : slack l = amount l.available + budgets (flat pool.entries) := by
    rw [h.slack, htotal]
  obtain ⟨hpre, hav, hend⟩ := @planned_spec req _ _ _ hroom
  rw [plan_eq]
  dsimp only
  rw [capacityErrorForRequest_none, hav, hslack]
  refine ⟨hpre, ⟨fun hle => hle.trans (add_le_add_right (budgets_mono hpre) _), fun hle => ?_⟩, id⟩
  rcases hend with hend | hend
  · exact hav ▸ hend
  · rwa [hend]

theorem backpressure_spec (req : ResourceBudget) (pending : Nat) (policy : ActiveQueuePolicy) :
    let plan := ActiveBackpressurePlan.fromWarmPool req pool l pending policy
    (plan.decision = .admitNow ∧ amount req ≤ slack l ∧ plan.evictions <+: flat pool.entries ∧
      amount req ≤ amount l.available + budgets plan.evictions) ∨
    (plan.decision = .queue ∧ ¬ amount req ≤ slack l ∧ pending < policy.maxPending) ∨
    (plan.decision = .reject ∧ ¬ amount req ≤ slack l ∧
      ((∃ e, plan.rejection = some (.oversized e)) ∨
        (plan.rejection = some (.queueFull policy.maxPending pending) ∧
          policy.maxPending ≤ pending))) := by
  obtain ⟨hpre, hiff, hle⟩ := admission_spec h hpool req
  intro plan
  by_cases hadm : (fromWarmPool req pool l).error = none
  · refine .inl ?_
    simp only [plan, ActiveBackpressurePlan.fromWarmPool, hadm, Option.isNone_none, if_true]
    exact ⟨trivial, hiff.mp hadm, hpre, hle hadm⟩
  · have hslack := fun hs => hadm (hiff.mpr hs)
    have hsome : (fromWarmPool req pool l).error.isNone = false :=
      Option.isNone_eq_false_iff.mpr (Option.isSome_iff_ne_none.mpr hadm)
    refine .inr ?_
    simp only [plan, ActiveBackpressurePlan.fromWarmPool, hsome, Bool.false_eq_true, if_false]
    cases hcap : capacityErrorForRequest req l.capacity with
    | some e => exact .inr ⟨rfl, hslack, .inl ⟨e, rfl⟩⟩
    | none =>
      by_cases hp : pending ≥ policy.maxPending
      · simp only [if_pos hp]
        exact .inr ⟨trivial, hslack, .inr ⟨trivial, hp⟩⟩
      · simp only [if_neg hp]
        exact .inl ⟨trivial, hslack, not_le.mp hp⟩
end

end AdmissionAmounts
