import Firkin.AdapterMachine

/-! # The warm pool under the adapter

`Sound` is what the ledger, the warm pool and the retained sessions have in common. Under it
every eviction the plan asks for finds its entry and its session, a checkout cannot fail, and
an admitted request is always reserved. -/
namespace AdapterWarmPool

open Ext4Types Admission AdmissionAmounts QueueMap AdapterMachine

structure Sound (cfg : Config) (s : Shared) : Prop where
  capacity : s.ledger.capacity = cfg.capacity
  solvent : Solvent s.ledger
  keyed : ∀ k, ∀ e ∈ queue s.warmPool.entries k, e.key = k ∧ e.budget = cfg.budget
  pooled : amount s.ledger.warmPool = total (fun e => amount e.budget) s.warmPool.entries
  retained : ∀ k, (queue s.warmSessions k).map (·.entry) = queue s.warmPool.entries k
  backed : amount s.ledger.warmPool = total (fun _ => amount cfg.budget) s.warmSessions

variable {cfg : Config} {s : Shared} {key : WarmPoolKey} {e : WarmPoolEntry}
  {rest : List WarmPoolEntry}

theorem sound_initial (cfg : Config) : Sound cfg (initial cfg).shared where
  capacity := rfl
  solvent := solvent_new cfg.capacity
  keyed k e he := by cases he
  pooled := amount_zero
  retained k := rfl
  backed := amount_zero

/-- Only the ledger, the pool and the retained sessions matter, and of the ledger not what
active sessions hold beyond solvency. -/
theorem Sound.of_eq (h : Sound cfg s) (hl : s'.ledger = s.ledger)
    (hp : s'.warmPool = s.warmPool) (hs : s'.warmSessions = s.warmSessions) : Sound cfg s' := by
  obtain ⟨h1, h2, h3, h4, h5, h6⟩ := h
  constructor <;> simp only [hl, hp, hs] <;> assumption

theorem Sound.releaseActive (h : Sound cfg s) (b : ResourceBudget) :
    Sound cfg { s with ledger := s.ledger.releaseActive b } :=
  ⟨h.capacity, h.solvent.releaseActive b, h.keyed, h.pooled, h.retained, h.backed⟩

theorem contains_iff {pool : WarmPoolLedger} :
    pool.contains key = true ↔ ∃ e rest, pool.entries[key]? = some (e :: rest) := by
  unfold WarmPoolLedger.contains
  cases pool.entries[key]? with
  | none => simp
  | some q => cases q <;> simp

section
section
variable (h : Sound cfg s) (hq : queue s.warmPool.entries key = e :: rest)
include h hq

theorem Sound.report : ∃ x reports, queue s.warmSessions key = ⟨x, e⟩ :: reports := by
  have hr := h.retained key
  rw [hq] at hr
  obtain ⟨⟨x, e'⟩, reports, hcons, rfl, _⟩ := List.map_eq_cons_iff.mp hr
  exact ⟨x, reports, hcons⟩

/-- One entry leaves the pool with its session; the ledger gives its budget back. -/
theorem Sound.pop (hr : queue s.warmSessions key = ⟨x, e⟩ :: reports)
    (hcap : ledger.capacity = s.ledger.capacity) (hsol : Solvent ledger)
    (hwarm : amount ledger.warmPool + amount e.budget = amount s.ledger.warmPool) :
    Sound cfg { s with
      ledger, warmPool := ⟨settle s.warmPool.entries key rest⟩
      warmSessions := settle s.warmSessions key reports } where
  capacity := hcap.trans h.capacity
  solvent := hsol
  keyed k e' he' := h.keyed k e' (mem_of_settle hq he')
  pooled := by
    refine add_right_cancel (hwarm.trans (h.pooled.trans ?_))
    exact (total_pop _ hq).symm
  retained k := by
    rw [queue_settle, queue_settle]
    split
    · have hboth := h.retained key
      rw [hq, hr] at hboth
      exact (List.cons.inj hboth).2
    · exact h.retained k
  backed := by
    have hbudget := (h.keyed key e (by rw [hq]; exact List.mem_cons_self)).2
    rw [hbudget] at hwarm
    refine add_right_cancel (hwarm.trans (h.backed.trans ?_))
    exact (total_pop (fun _ => amount cfg.budget) hr).symm

theorem Sound.entry_le : amount e.budget ≤ amount s.ledger.warmPool := by
  rw [h.pooled, ← total_pop _ hq]
  exact le_add_self
end

end

section
variable (h : Sound cfg s)
include h

/-- A warm start takes the first entry of its key, with its session and its reservation. -/
theorem requestWarm_spec (template : Str) (timeout : Option UInt64) :
    (s.warmPool.contains (warmPoolKey template) = false ∧
      s.requestWarm cfg template timeout = (s, .checking timeout)) ∨
    s.requestWarm cfg template timeout = (s.nextId, .done (.failed .panic)) ∨
    ∃ (x : Nat) (ledger : CapacityLedger) (rest : List WarmPoolEntry) (e : WarmPoolEntry)
      (reports : List WarmPoolMaintenanceReport),
      queue s.warmPool.entries (warmPoolKey template) = e :: rest ∧
      queue s.warmSessions (warmPoolKey template) = ⟨x, e⟩ :: reports ∧
      amount ledger.active = amount s.ledger.active + amount cfg.budget ∧
      s.requestWarm cfg template timeout =
        ({ s.nextId with
            ledger, warmPool := ⟨settle s.warmPool.entries (warmPoolKey template) rest⟩
            warmSessions := settle s.warmSessions (warmPoolKey template) reports },
          .spawning .envd s.nextId.nextSandbox ⟨x, .new cfg.budget⟩) ∧
      Sound cfg (s.requestWarm cfg template timeout).1 := by
  cases hc : s.warmPool.contains (warmPoolKey template) with
  | false =>
    refine .inl ⟨rfl, ?_⟩
    rw [Shared.requestWarm, hc]
    rfl
  | true =>
  refine .inr ?_
  cases hpanic : s.configPanics cfg timeout with
  | true =>
    refine .inl ?_
    simp [Shared.requestWarm, hc, hpanic]
  | false =>
    obtain ⟨e, rest, he⟩ := contains_iff.mp hc
    have hq := queue_some he
    obtain ⟨x, reports, hr⟩ := h.report hq
    obtain ⟨hkey, hbudget⟩ := h.keyed _ e (by rw [hq]; exact List.mem_cons_self)
    have hle := h.entry_le hq
    obtain ⟨ledger, hpromote, hactive, hwarm, hcap, hsol⟩ := promote_ok h.solvent hle
    have hresult : s.requestWarm cfg template timeout =
        ({ s.nextId with
            ledger, warmPool := ⟨settle s.warmPool.entries (warmPoolKey template) rest⟩
            warmSessions := settle s.warmSessions (warmPoolKey template) reports },
          .spawning .envd s.nextId.nextSandbox ⟨x, .new cfg.budget⟩) := by
      have hout : s.nextId.warmPool.checkout (warmPoolKey template) s.nextId.ledger =
          (⟨settle s.warmPool.entries (warmPoolKey template) rest⟩, .ok (some e, ledger)) := by
        change s.warmPool.checkout _ s.ledger = _
        rw [WarmPoolLedger.checkout, he]
        simp only [hpromote]
        rfl
      have hreports : s.nextId.warmSessions[warmPoolKey template]? = some (⟨x, e⟩ :: reports) :=
        queue_cons.mp hr
      simp only [Shared.requestWarm, hc, hpanic, hout, hreports, hbudget]
      rfl
    refine .inr ⟨x, ledger, rest, e, reports, hq, hr, hbudget ▸ hactive, hresult, ?_⟩
    rw [hresult]
    refine (h.pop hq hr hcap hsol ?_).of_eq rfl rfl rfl
    rw [hwarm]
    exact tsub_add_cancel_of_le hle

/-- What the evicted entries add up to is what the pool's reservations lose. -/
theorem evict_spec (hes : ∀ k, es.filter (fun e => e.key = k) <+: queue s.warmPool.entries k) :
    ∃ ledger warmPool warmSessions evicted,
      s.evict (es.map (·.key)) = ({ s with ledger, warmPool, warmSessions }, evicted) ∧
      Sound cfg { s with ledger, warmPool, warmSessions } ∧
      ledger.active = s.ledger.active ∧
      amount ledger.warmPool + budgets es = amount s.ledger.warmPool ∧
      ∀ (M : Type) [AddCancelCommMonoid M] (f : Nat → M),
        total (fun r => f r.session) warmSessions + (evicted.map f).sum =
          total (fun r => f r.session) s.warmSessions := by
  induction es generalizing s with
  | nil =>
    refine ⟨s.ledger, s.warmPool, s.warmSessions, [], rfl, h, rfl, ?_, fun M _ f => ?_⟩
    · exact add_zero _
    · simp
  | cons e es ih =>
    have hhead := hes e.key
    rw [List.filter_cons_of_pos (by simp)] at hhead
    obtain ⟨rest, hrest⟩ := hhead
    have hq : queue s.warmPool.entries e.key =
        e :: (es.filter (fun e' => e'.key = e.key) ++ rest) :=
      hrest.symm
    obtain ⟨x, reports, hr⟩ := h.report hq
    have hle := h.entry_le hq
    have hback : amount (s.ledger.releaseWarmPool e.budget).warmPool + amount e.budget =
        amount s.ledger.warmPool := by
      rw [CapacityLedger.releaseWarmPool, amount_sub]
      exact tsub_add_cancel_of_le hle
    have hcap : (s.ledger.releaseWarmPool e.budget).capacity = s.ledger.capacity := rfl
    have hpop := h.pop hq hr hcap (h.solvent.releaseWarmPool _) hback
    have htail : ∀ k, es.filter (fun e' => e'.key = k) <+:
        queue (settle s.warmPool.entries e.key
          (es.filter (fun e' => e'.key = e.key) ++ rest)) k := by
      intro k
      rw [queue_settle]
      split
      · next hk => exact ⟨rest, by rw [hk]⟩
      · next hk =>
        have := hes k
        rwa [List.filter_cons_of_neg (by simpa using hk)] at this
    obtain ⟨ledger, pool, sessions, evicted, hev, hsound, hactive, hwarm, htotal⟩ := ih hpop htail
    refine ⟨ledger, pool, sessions, x :: evicted, ?_, ⟨hsound.capacity, hsound.solvent,
      hsound.keyed, hsound.pooled, hsound.retained, hsound.backed⟩, hactive, ?_, fun M _ f => ?_⟩
    · have hexp : s.warmPool.expire e.key s.ledger = (some e,
          ⟨settle s.warmPool.entries e.key (es.filter (fun e' => e'.key = e.key) ++ rest)⟩,
          s.ledger.releaseWarmPool e.budget) := by
        rw [WarmPoolLedger.expire, queue_cons.mp hq]
      simp only [List.map_cons, Shared.evict, hexp, queue_cons.mp hr, hev]
    · have hsplit : budgets (e :: es) = budgets es + amount e.budget := by
        simp [budgets, add_comm]
      rw [hsplit, ← add_assoc, hwarm]
      exact hback
    · have hone := total_pop (fun r : WarmPoolMaintenanceReport => f r.session) hr
      rw [List.map_cons, List.sum_cons, add_comm (f x), ← add_assoc, htotal M f]
      exact hone

/-- The three ways a turn ends. The queue's slot is taken only where one is free. -/
theorem reserve_spec (timeout : Option UInt64) (again : Bool) :
    (∃ ledger warmPool warmSessions evicted,
      s.reserveActiveRestoreCapacity cfg timeout again =
        ({ s with ledger, warmPool, warmSessions }, .admitted timeout evicted) ∧
      Sound cfg { s with ledger, warmPool, warmSessions } ∧
      amount cfg.budget ≤ slack s.ledger ∧
      amount ledger.active = amount s.ledger.active + amount cfg.budget ∧
      ∀ (M : Type) [AddCancelCommMonoid M] (f : Nat → M),
        total (fun r => f r.session) warmSessions + (evicted.map f).sum =
          total (fun r => f r.session) s.warmSessions) ∨
    (¬ amount cfg.budget ≤ slack s.ledger ∧ s.queue.pending < cfg.activeQueuePolicy.maxPending ∧
      s.reserveActiveRestoreCapacity cfg timeout again =
        ({ s with queue := { s.queue with pending := s.queue.pending + 1 } }, .unpolled timeout)) ∨
    (¬ amount cfg.budget ≤ slack s.ledger ∧ ∃ rejection,
      s.reserveActiveRestoreCapacity cfg timeout again =
        (s, .done (.failed (.rejected again (some rejection)))) ∧
      ((∃ error, rejection = .oversized error) ∨
        (rejection = .queueFull cfg.activeQueuePolicy.maxPending s.queue.pending ∧
          cfg.activeQueuePolicy.maxPending ≤ s.queue.pending))) := by
  have hplan := backpressure_spec h.solvent h.pooled cfg.budget s.queue.pending
    cfg.activeQueuePolicy
  rcases hplan with ⟨hdec, hfit, hpre, hroom⟩ | ⟨hdec, hfit, hpend⟩ | ⟨hdec, hfit, hwhy⟩
  · refine .inl ?_
    have hes : ∀ k, (ActiveBackpressurePlan.fromWarmPool cfg.budget s.warmPool s.ledger
        s.queue.pending cfg.activeQueuePolicy).evictions.filter (fun e => e.key = k) <+:
          queue s.warmPool.entries k := by
      intro k
      have hflat := filter_flat (m := s.warmPool.entries) (fun k e he => (h.keyed k e he).1) k
      exact hflat ▸ hpre.filter _
    obtain ⟨ledger, pool, sessions, evicted, hev, hsound, hactive, hwarm, htotal⟩ :=
      evict_spec h hes
    have hav : amount cfg.budget ≤ amount ledger.available := by
      refine hroom.trans fun r => ?_
      have h1 := congrFun hwarm r
      have h2 := h.solvent r
      have h3 : ledger.capacity = s.ledger.capacity := hsound.capacity.trans h.capacity.symm
      simp only [h.solvent.available, hsound.solvent.available, hactive, h3, Pi.add_apply,
        Pi.sub_apply] at h1 h2 ⊢
      omega
    rcases reserveActive_cases hsound.solvent cfg.budget with
      ⟨_, l', hl', ha, hw, hc, hsol⟩ | ⟨hno, _⟩
    · refine ⟨l', pool, sessions, evicted, ?_, ⟨hc.trans hsound.capacity, hsol, hsound.keyed, ?_,
        hsound.retained, ?_⟩, hfit, by rw [ha, hactive], htotal⟩
      · simp only [Shared.reserveActiveRestoreCapacity, hdec, hev, hl']
      · rw [hw]
        exact hsound.pooled
      · rw [hw]
        exact hsound.backed
    · exact absurd hav hno
  · refine .inr (.inl ⟨hfit, hpend, ?_⟩)
    have hslot : Shared.tryAcquire s.queue.pending cfg.activeQueuePolicy =
        some (s.queue.pending + 1) := if_neg (not_le.mpr hpend)
    simp only [Shared.reserveActiveRestoreCapacity, hdec, hslot]
  · refine .inr (.inr ⟨hfit, ?_⟩)
    simp only [Shared.reserveActiveRestoreCapacity, hdec]
    rcases hwhy with ⟨error, hrej⟩ | ⟨hrej, hfull⟩
    · exact ⟨_, by rw [hrej], .inl ⟨error, rfl⟩⟩
    · exact ⟨_, by rw [hrej], .inr ⟨rfl, hfull⟩⟩

theorem maintain_spec {x : Nat}
    (hm : s.warmPool.maintain ⟨warmPoolKey template, template, cfg.budget⟩ s.ledger =
      .ok (pool, ledger)) :
    ledger.active = s.ledger.active ∧
    Sound cfg { s with
      warmPool := pool, ledger
      warmSessions := s.warmSessions.insert (warmPoolKey template)
        (queue s.warmSessions (warmPoolKey template) ++
          [⟨x, ⟨warmPoolKey template, template, cfg.budget⟩⟩]) } := by
  rw [WarmPoolLedger.maintain] at hm
  cases hl : s.ledger.reserveWarmPool cfg.budget with
  | error error => simp only [hl] at hm; cases hm
  | ok l' =>
    simp only [hl] at hm
    cases hm
    obtain ⟨hwarm, hactive, hcap, hsol⟩ := reserveWarmPool_ok h.solvent hl
    refine ⟨hactive, hcap.trans h.capacity, hsol, fun k e he => ?_, ?_, fun k => ?_, ?_⟩
    · rcases mem_of_push he with he | ⟨hk, rfl⟩
      · exact h.keyed k e he
      · exact ⟨hk, rfl⟩
    · refine hwarm.trans ?_
      rw [h.pooled]
      exact (total_push (fun e : WarmPoolEntry => amount e.budget) s.warmPool.entries
        (warmPoolKey template) ⟨warmPoolKey template, template, cfg.budget⟩).symm
    · change (queue (s.warmSessions.insert _ _) k).map _ = queue (s.warmPool.entries.insert _ _) k
      rw [queue_insert, queue_insert]
      split
      · rw [List.map_append, h.retained]
        rfl
      · exact h.retained k
    · refine hwarm.trans ?_
      rw [h.backed]
      exact (total_push (fun _ : WarmPoolMaintenanceReport => amount cfg.budget) _ _ _).symm
end

end AdapterWarmPool
