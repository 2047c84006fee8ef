import Firkin.AdmissionAmounts

/-! # The warm pool beside its ledger

One warm pool and one capacity ledger under any sequence of operations, releases of arbitrary
size among them. Reservations are made after a check, so what saturates is only a release that
asks for more than is held; the warm side stays the exact sum of the retained budgets. So the
eviction loop, which reads the ledger again after every entry, takes the entries that the
admission plan lists. -/
namespace WarmPoolExactness

open Admission AdmissionAmounts QueueMap Std WarmPoolLedger

structure Ledgers where
  pool : WarmPoolLedger
  ledger : CapacityLedger

inductive Operation where
  | maintain (entry : WarmPoolEntry)
  | checkout (key : WarmPoolKey)
  | expire (key : WarmPoolKey)
  | evictUntilAvailable (request : ResourceBudget)
  | reserveActive (request : ResourceBudget)
  | releaseActive (budget : ResourceBudget)

def empty (capacity : ResourceBudget) : Ledgers := ⟨{}, .new capacity⟩

/-- What an operation leaves. A refused reservation changes nothing; a checkout that cannot
promote has already taken its entry out of the pool. -/
def Performs (s : Ledgers) : Operation → Ledgers → Prop
  | .maintain entry, s' =>
    s' = match s.pool.maintain entry s.ledger with
      | .ok (pool, ledger) => ⟨pool, ledger⟩
      | .error _ => s
  | .checkout key, s' =>
    s' = match s.pool.checkout key s.ledger with
      | (pool, .ok (_, ledger)) => ⟨pool, ledger⟩
      | (pool, .error _) => ⟨pool, s.ledger⟩
  | .expire key, s' => s' = ⟨(s.pool.expire key s.ledger).2.1, (s.pool.expire key s.ledger).2.2⟩
  | .evictUntilAvailable request, s' =>
    ∃ fuel evicted, s.pool.evictUntilAvailable request fuel s.ledger =
      some (evicted, s'.pool, s'.ledger)
  | .reserveActive request, s' =>
    s' = match s.ledger.reserveActive request with
      | .ok ledger => ⟨s.pool, ledger⟩
      | .error _ => s
  | .releaseActive budget, s' => s' = ⟨s.pool, s.ledger.releaseActive budget⟩

inductive Run (s₀ : Ledgers) : List Operation → Ledgers → Prop where
  | nil : Run s₀ [] s₀
  | snoc {ops s op s'} : Run s₀ ops s → Performs s op s' → Run s₀ (ops ++ [op]) s'

/-- The warm reservation is the sum over the entries, everything fits, no queue is empty and
each entry stands under its key. -/
structure Exact (capacity : ResourceBudget) (s : Ledgers) : Prop where
  capacity : s.ledger.capacity = capacity
  pooled : amount s.ledger.warmPool = total (fun e => amount e.budget) s.pool.entries
  solvent : Solvent s.ledger
  settled : ∀ k : WarmPoolKey, s.pool.entries[k]? ≠ some []
  keyed : ∀ k, ∀ e ∈ queue s.pool.entries k, e.key = k

variable {capacity request : ResourceBudget} {s s' : Ledgers} {key : WarmPoolKey}
  {e : WarmPoolEntry} {rest entries taken : List WarmPoolEntry} {ledger : CapacityLedger}

theorem exact_empty (capacity : ResourceBudget) : Exact capacity (empty capacity) where
  capacity := rfl
  pooled := amount_zero
  solvent := solvent_new capacity
  settled k := by
    change (∅ : TreeMap WarmPoolKey (List WarmPoolEntry))[k]? ≠ some []
    exact (Option.some_ne_none _).symm
  keyed k e he := by cases he

theorem settled_settle
    (h : ∀ k : WarmPoolKey, m[k]? ≠ some []) (key : WarmPoolKey) (q : List WarmPoolEntry)
      (k : WarmPoolKey) :
    (settle m key q)[k]? ≠ some [] := by
  unfold settle
  split
  · rw [TreeMap.getElem?_erase]
    split
    · exact (Option.some_ne_none _).symm
    · exact h k
  · next hq =>
    rw [TreeMap.getElem?_insert]
    split
    · exact fun he => hq (by rw [Option.some.inj he]; rfl)
    · exact h k

section
variable (h : Exact capacity s)
include h

theorem Exact.entry_le (hq : queue s.pool.entries key = e :: rest) :
    amount e.budget ≤ amount s.ledger.warmPool := by
  rw [h.pooled, ← total_pop _ hq]
  exact le_add_self

/-- An entry leaves the pool, and the warm reservation shrinks by its budget. -/
theorem Exact.pop (hq : queue s.pool.entries key = e :: rest)
    (hwarm : amount ledger.warmPool = amount s.ledger.warmPool - amount e.budget)
    (hcap : ledger.capacity = s.ledger.capacity) (hsolvent : Solvent ledger) :
    Exact capacity ⟨⟨settle s.pool.entries key rest⟩, ledger⟩ where
  capacity := hcap.trans h.capacity
  pooled := by
    refine add_right_cancel ((congrArg (· + amount e.budget) hwarm).trans ?_)
    rw [tsub_add_cancel_of_le (h.entry_le hq), h.pooled]
    exact (total_pop _ hq).symm
  solvent := hsolvent
  settled := settled_settle h.settled key rest
  keyed k e he := h.keyed k e (mem_of_settle hq he)

theorem Exact.queue_cases (key : WarmPoolKey) :
    s.pool.entries[key]? = none ∨ ∃ e rest, s.pool.entries[key]? = some (e :: rest) := by
  cases hk : s.pool.entries[key]? with
  | none => exact .inl rfl
  | some q =>
    cases q with
    | nil => exact absurd hk (h.settled key)
    | cons e rest => exact .inr ⟨e, rest, rfl⟩

theorem Exact.maintain (hp : Performs s (.maintain e) s') : Exact capacity s' := by
  subst hp
  cases hr : s.ledger.reserveWarmPool e.budget with
  | error err =>
    rw [maintain, hr]
    exact h
  | ok ledger =>
    obtain ⟨hwarm, -, hcap, hsolvent⟩ := reserveWarmPool_ok h.solvent hr
    rw [maintain, hr]
    refine ⟨hcap.trans h.capacity, ?_, hsolvent, fun k => ?_, fun k e' he => ?_⟩
    · exact (hwarm.trans (congrArg (· + amount e.budget) h.pooled)).trans (total_push _ _ _ _).symm
    · change (s.pool.entries.insert e.key (queue s.pool.entries e.key ++ [e]))[k]? ≠ some []
      rw [TreeMap.getElem?_insert]
      split
      · exact fun he => List.append_ne_nil_of_right_ne_nil _ (List.cons_ne_nil e [])
          (Option.some.inj he)
      · exact h.settled k
    · rcases mem_of_push he with he | ⟨hk, rfl⟩
      · exact h.keyed k e' he
      · exact hk

/-- A checkout finds no entry, or takes the first one and moves exactly its budget. -/
theorem Exact.checkout_spec (key : WarmPoolKey) :
    (queue s.pool.entries key = [] ∧
      s.pool.checkout key s.ledger = (s.pool, .ok (none, s.ledger))) ∨
    ∃ e rest ledger, queue s.pool.entries key = e :: rest ∧
      s.pool.checkout key s.ledger = (⟨settle s.pool.entries key rest⟩, .ok (some e, ledger)) ∧
      amount ledger.warmPool + amount e.budget = amount s.ledger.warmPool ∧
      amount ledger.active = amount s.ledger.active + amount e.budget ∧
      ledger.capacity = s.ledger.capacity ∧
        Exact capacity ⟨⟨settle s.pool.entries key rest⟩, ledger⟩ := by
  rcases h.queue_cases key with hk | ⟨e, rest, hk⟩
  · exact .inl ⟨queue_none hk, by rw [checkout, hk]⟩
  · have hq := queue_some hk
    obtain ⟨ledger, hpromote, hactive, hwarm, hcap, hsolvent⟩ :=
      promote_ok h.solvent (h.entry_le hq)
    refine .inr ⟨e, rest, ledger, hq, ?_, ?_, hactive, hcap, h.pop hq hwarm hcap hsolvent⟩
    · rw [checkout, hk]
      dsimp only
      rw [hpromote]
      rfl
    · rw [hwarm, tsub_add_cancel_of_le (h.entry_le hq)]

theorem Exact.checkout (hp : Performs s (.checkout key) s') : Exact capacity s' := by
  subst hp
  rcases h.checkout_spec key with ⟨-, hc⟩ | ⟨e, rest, ledger, -, hc, -, -, -, hexact⟩
  · rw [hc]
    exact h
  · rw [hc]
    exact hexact

/-- Expiring changes nothing, or takes the first entry of the key. -/
theorem Exact.expire_spec (key : WarmPoolKey) :
    (s.pool.entries[key]? = none ∧ s.pool.expire key s.ledger = (none, s.pool, s.ledger)) ∨
    ∃ e rest, queue s.pool.entries key = e :: rest ∧
      s.pool.expire key s.ledger = (some e, ⟨settle s.pool.entries key rest⟩,
        s.ledger.releaseWarmPool e.budget) ∧
      Exact capacity ⟨⟨settle s.pool.entries key rest⟩, s.ledger.releaseWarmPool e.budget⟩ := by
  rcases h.queue_cases key with hk | ⟨e, rest, hk⟩
  · exact .inl ⟨hk, by rw [expire, hk]⟩
  · have hq := queue_some hk
    refine .inr ⟨e, rest, hq, by rw [expire, hk], ?_⟩
    exact h.pop hq amount_sub rfl (h.solvent.releaseWarmPool e.budget)

theorem Exact.expire (hp : Performs s (.expire key) s') : Exact capacity s' := by
  subst hp
  rcases h.expire_spec key with ⟨-, hx⟩ | ⟨e, rest, -, hx, hexact⟩
  · rw [hx]
    exact h
  · rw [hx]
    exact hexact

theorem Exact.available_release (he : amount e.budget ≤ amount s.ledger.warmPool) :
    (s.ledger.releaseWarmPool e.budget).available = s.ledger.available + e.budget := by
  have hfree : amount s.ledger.available + amount e.budget ≤ amount s.ledger.capacity := by
    intro r
    have h1 := h.solvent r
    have h2 := he r
    simp only [h.solvent.available, Pi.sub_apply, Pi.add_apply] at h1 h2 ⊢
    omega
  apply amount_injective
  rw [(h.solvent.releaseWarmPool e.budget).available, amount_add hfree, h.solvent.available]
  funext r
  have h1 := h.solvent r
  have h2 := he r
  simp only [CapacityLedger.releaseWarmPool, amount_sub, Pi.sub_apply, Pi.add_apply] at h1 h2 ⊢
  omega

/-- Either the pool is empty, or a turn of the loop expires the first of its entries. -/
theorem Exact.turn : (s.pool.entries.minKey? = none ∧ flat s.pool.entries = []) ∨
    ∃ key e pool, s.pool.entries.minKey? = some key ∧
      s.pool.expire key s.ledger = (some e, pool, s.ledger.releaseWarmPool e.budget) ∧
      flat s.pool.entries = e :: flat pool.entries ∧
      Exact capacity ⟨pool, s.ledger.releaseWarmPool e.budget⟩ ∧
      (s.ledger.releaseWarmPool e.budget).available = s.ledger.available + e.budget := by
  cases hmin : s.pool.entries.minKey? with
  | none =>
    have hnil := hmin
    rw [TreeMap.minKey?_eq_none_iff, ← TreeMap.isEmpty_toList, List.isEmpty_iff] at hnil
    exact .inl ⟨rfl, by rw [flat, hnil, List.flatMap_nil]⟩
  | some key =>
    rcases h.expire_spec key with ⟨hk, -⟩ | ⟨e, rest, hq, hx, hexact⟩
    · have hmem := TreeMap.contains_minKey? hmin
      rw [TreeMap.contains_eq_isSome_getElem?, hk] at hmem
      cases hmem
    · exact .inr ⟨key, e, _, rfl, hx, flat_settle_min hmin hq, hexact,
        h.available_release (h.entry_le hq)⟩
end

def released (ledger : CapacityLedger) (entries : List WarmPoolEntry) : CapacityLedger :=
  entries.foldl (fun ledger e => ledger.releaseWarmPool e.budget) ledger

def Frees (request : ResourceBudget) (ledger : CapacityLedger) (entries : List WarmPoolEntry) :
    Prop :=
  budgetFits request (released ledger entries).available = true

/-- The shortest of the prefixes whose release makes the request fit, or all entries if none
does. -/
structure Shortest (request : ResourceBudget) (ledger : CapacityLedger)
    (entries taken : List WarmPoolEntry) : Prop where
  first : taken <+: entries
  enough : Frees request ledger taken ∨ taken = entries
  least : ∀ l, l <+: entries → Frees request ledger l → taken.length ≤ l.length

theorem shortest_nil (h : budgetFits request ledger.available = true) :
    Shortest request ledger entries [] :=
  ⟨List.nil_prefix, .inl h, fun _ _ _ => Nat.zero_le _⟩

theorem Shortest.cons (hfit : ¬budgetFits request ledger.available = true)
    (h : Shortest request (ledger.releaseWarmPool e.budget) entries taken) :
    Shortest request ledger (e :: entries) (e :: taken) where
  first := (List.prefix_cons_inj e).mpr h.first
  enough := h.enough.imp id (congrArg (e :: ·))
  least l hl hfrees := by
    cases l with
    | nil => exact absurd hfrees hfit
    | cons e' l =>
      obtain ⟨rfl, hrest⟩ := List.cons_prefix_cons.mp hl
      exact Nat.succ_le_succ (h.least l hrest hfrees)

section
variable (h : Exact capacity s)
include h

theorem Exact.evict_planned (request : ResourceBudget) :
    let taken := planned request (flat s.pool.entries) s.ledger.available
    Shortest request s.ledger (flat s.pool.entries) taken ∧
    (released s.ledger taken).available = raised s.ledger.available taken ∧
    ∃ pool, ∀ fuel, (flat s.pool.entries).length < fuel →
      s.pool.evictUntilAvailable request fuel s.ledger =
        some (taken, pool, released s.ledger taken) := by
  -- on the entries that are left
  induction hentries : flat s.pool.entries generalizing s with
  | nil =>
    refine ⟨⟨List.prefix_rfl, .inr rfl, fun _ _ _ => Nat.zero_le _⟩, rfl, s.pool, ?_⟩
    intro fuel hfuel
    obtain ⟨fuel, rfl⟩ := Nat.exists_eq_succ_of_ne_zero (Nat.ne_zero_of_lt hfuel)
    rcases h.turn with ⟨hmin, -⟩ | ⟨key, e, pool, -, -, hflat, -⟩
    · rw [evictUntilAvailable, hmin, ite_self]
      rfl
    · cases hentries.symm.trans hflat
  | cons e entries ih =>
    by_cases hfit : budgetFits request s.ledger.available = true
    · rw [planned_of_fits hfit]
      refine ⟨shortest_nil hfit, rfl, s.pool, fun fuel hfuel => ?_⟩
      obtain ⟨fuel, rfl⟩ := Nat.exists_eq_succ_of_ne_zero (Nat.ne_zero_of_lt hfuel)
      rw [evictUntilAvailable, if_pos hfit]
      rfl
    rcases h.turn with ⟨-, hflat⟩ | ⟨key, e', pool, hmin, hx, hflat, hexact, havailable⟩
    · cases hentries.symm.trans hflat
    cases hentries.symm.trans hflat
    obtain ⟨hshortest, hreleased, pool', hrun⟩ := ih hexact rfl
    rw [havailable] at hshortest hreleased hrun
    rw [planned, if_neg hfit]
    refine ⟨hshortest.cons hfit, hreleased, pool', fun fuel hfuel => ?_⟩
    obtain ⟨fuel, rfl⟩ := Nat.exists_eq_succ_of_ne_zero (Nat.ne_zero_of_lt hfuel)
    rw [evictUntilAvailable, if_neg hfit, hmin]
    dsimp only
    rw [hx]
    dsimp only
    rw [hrun fuel (Nat.lt_of_succ_lt_succ hfuel)]
    rfl

theorem Exact.evict
    (hrun : s.pool.evictUntilAvailable request fuel s.ledger = some (evicted, pool, ledger)) :
    Exact capacity ⟨pool, ledger⟩ := by
  induction fuel generalizing s evicted with
  | zero => cases hrun
  | succ fuel ih =>
    rw [evictUntilAvailable] at hrun
    split at hrun
    · cases hrun
      exact h
    split at hrun
    · cases hrun
      exact h
    · next key _ =>
      rcases h.expire_spec key with ⟨-, hx⟩ | ⟨e, rest, -, hx, hexact⟩
      · rw [hx] at hrun
        exact ih h hrun
      · rw [hx] at hrun
        obtain ⟨⟨evicted', rest'⟩, hrec, he⟩ := Option.map_eq_some_iff.mp hrun
        cases he
        exact ih hexact hrec

theorem Exact.reserveActive (hp : Performs s (.reserveActive request) s') : Exact capacity s' := by
  subst hp
  rcases reserveActive_cases h.solvent request with
    ⟨-, ledger, hr, -, hwarm, hcap, hsolvent⟩ | ⟨-, err, hr⟩
  · rw [hr]
    exact ⟨hcap.trans h.capacity, (congrArg amount hwarm).trans h.pooled, hsolvent, h.settled,
      h.keyed⟩
  · rw [hr]
    exact h

theorem Exact.performs (hp : Performs s op s') : Exact capacity s' := by
  cases op with
  | maintain entry => exact h.maintain hp
  | checkout key => exact h.checkout hp
  | expire key => exact h.expire hp
  | evictUntilAvailable request =>
    obtain ⟨fuel, evicted, hrun⟩ := hp
    exact h.evict hrun
  | reserveActive request => exact h.reserveActive hp
  | releaseActive budget =>
    subst hp
    exact ⟨h.capacity, h.pooled, h.solvent.releaseActive budget, h.settled, h.keyed⟩

theorem Exact.returns (op : Operation) : ∃ s', Performs s op s' := by
  cases op with
  | evictUntilAvailable request =>
    obtain ⟨-, -, pool, hrun⟩ := h.evict_planned request
    exact ⟨⟨pool, _⟩, _, _, hrun _ (Nat.lt_succ_self _)⟩
  | _ => exact ⟨_, rfl⟩
end

theorem Run.exact (h : Run (empty capacity) ops s) : Exact capacity s := by
  induction h with
  | nil => exact exact_empty capacity
  | snoc _ hp ih => exact ih.performs hp

/-- After any operations the warm reservation is the exact sum of the retained budgets, active
and warm reservations fit the capacity, no key has an empty queue, a checkout does not fail
and moves exactly the budget of the entry it returns; and every operation returns. -/
theorem ledgers_stay_exact {ops : List Operation} (h : Run (empty capacity) ops s) :
    amount s.ledger.warmPool = total (fun e => amount e.budget) s.pool.entries ∧
    amount s.ledger.active + amount s.ledger.warmPool ≤ amount capacity ∧
    (∀ k : WarmPoolKey, s.pool.entries[k]? ≠ some []) ∧
    (∀ key e, (s.pool.checkout key s.ledger).2 ≠ .error e) ∧
    (∀ key pool e ledger, s.pool.checkout key s.ledger = (pool, .ok (some e, ledger)) →
      queue s.pool.entries key = e :: queue pool.entries key ∧
      amount ledger.warmPool + amount e.budget = amount s.ledger.warmPool ∧
      amount ledger.active = amount s.ledger.active + amount e.budget) ∧
    ∀ op, ∃ s', Performs s op s' := by
  have hexact := Run.exact h
  refine ⟨hexact.pooled, hexact.capacity ▸ hexact.solvent, hexact.settled, ?_, ?_, hexact.returns⟩
  · intro key e
    rcases hexact.checkout_spec key with ⟨-, hc⟩ | ⟨_, _, _, -, hc, -⟩ <;>
      · rw [hc]
        exact fun he => by cases he
  · intro key pool e ledger hout
    rcases hexact.checkout_spec key with ⟨-, hc⟩ | ⟨e', rest, ledger', hq, hc, hwarm, hactive, -⟩
    · cases hc.symm.trans hout
    · cases hc.symm.trans hout
      refine ⟨?_, hwarm, hactive⟩
      rw [queue_settle, if_pos rfl, hq]

def unkeyed (snapshot : Ext4Types.Str) (budget : ResourceBudget) : WarmPoolEntry :=
  ⟨⟨[], [], []⟩, snapshot, budget⟩

/-- Two entries are retained, one is checked out, more is released than is active. -/
theorem ledgers_stay_exact_overreleased :
    ∃ ops s, Run (empty ⟨4, 4, 4⟩) ops s ∧ ops.length = 4 ∧
      amount s.ledger.warmPool = total (fun e => amount e.budget) s.pool.entries ∧
      amount s.ledger.active + amount s.ledger.warmPool ≤ amount ⟨4, 4, 4⟩ := by
  have h₀ : Run (empty ⟨4, 4, 4⟩) [] (empty ⟨4, 4, 4⟩) := .nil
  have h₁ := @Run.snoc _ _ _ (.maintain (unkeyed [1] ⟨1, 2, 1⟩)) _ h₀ rfl
  have h₂ := @Run.snoc _ _ _ (.maintain (unkeyed [2] ⟨2, 1, 1⟩)) _ h₁ rfl
  have h₃ := @Run.snoc _ _ _ (.checkout ⟨[], [], []⟩) _ h₂ rfl
  have h₄ := @Run.snoc _ _ _ (.releaseActive ⟨3, 3, 3⟩) _ h₃ rfl
  exact ⟨_, _, h₄, rfl, (ledgers_stay_exact h₄).1, (ledgers_stay_exact h₄).2.1⟩

/-- In every reachable state the loop ends and evicts what the plan lists, which is the shortest
prefix of the entries that makes room; the plan admits a request exactly if it can be reserved
then, and such a request is neither queued nor rejected. -/
theorem eviction_follows_plan {ops : List Operation} (h : Run (empty capacity) ops s)
    (request : ResourceBudget) :
    let plan := ActiveCapacityAdmissionPlan.fromWarmPool request s.pool s.ledger
    Shortest request s.ledger (flat s.pool.entries) plan.evictions ∧
    ∃ pool ledger,
      (∀ fuel, (flat s.pool.entries).length < fuel →
        s.pool.evictUntilAvailable request fuel s.ledger = some (plan.evictions, pool, ledger)) ∧
      (plan.error = none ↔ ∃ after, ledger.reserveActive request = .ok after) ∧
      ∀ pending policy, (∃ after, ledger.reserveActive request = .ok after) →
        (ActiveBackpressurePlan.fromWarmPool request s.pool s.ledger pending policy).decision =
          .admitNow := by
  obtain ⟨hshortest, hreleased, pool, hrun⟩ := h.exact.evict_planned request
  have hplan := plan_eq request s.pool s.ledger
  have hadmits : (ActiveCapacityAdmissionPlan.fromWarmPool request s.pool s.ledger).error = none ↔
      ∃ after, (released s.ledger (planned request (flat s.pool.entries)
        s.ledger.available)).reserveActive request = .ok after := by
    rw [hplan, capacityErrorForRequest_none, ← hreleased, ← checkAvailable_ok,
      CapacityLedger.reserveActive]
    cases CapacityLedger.checkAvailable _ request with
    | error e => exact ⟨(by rintro ⟨⟩), (by rintro ⟨_, ⟨⟩⟩)⟩
    | ok u => exact ⟨fun _ => ⟨_, rfl⟩, fun _ => rfl⟩
  intro plan
  refine ⟨?_, pool, _, ?_, hadmits, fun pending policy hok => ?_⟩
  · simp only [plan, hplan]
    exact hshortest
  · simp only [plan, hplan]
    exact hrun
  · rw [ActiveBackpressurePlan.fromWarmPool, hadmits.mpr hok]
    rfl

theorem eviction_follows_plan_two : ∃ s : Ledgers, Shortest ⟨2, 2, 2⟩ s.ledger (flat s.pool.entries)
      (ActiveCapacityAdmissionPlan.fromWarmPool ⟨2, 2, 2⟩ s.pool s.ledger).evictions := by
  have h₀ : Run (empty ⟨4, 4, 4⟩) [] (empty ⟨4, 4, 4⟩) := .nil
  have h₁ := @Run.snoc _ _ _ (.maintain (unkeyed [1] ⟨1, 2, 1⟩)) _ h₀ rfl
  have h₂ := @Run.snoc _ _ _ (.maintain (unkeyed [2] ⟨2, 1, 1⟩)) _ h₁ rfl
  exact ⟨_, (eviction_follows_plan h₂ ⟨2, 2, 2⟩).1⟩

end WarmPoolExactness
