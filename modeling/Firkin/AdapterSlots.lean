import Firkin.AdapterQueue

/-! # Slots of the restore queue

The counter is the number of calls that hold a slot and never passes the limit. A woken call
gives its slot back before it plans again, so a newcomer can take both the capacity and the
slot, and the woken call is turned away although it had been accepted. -/
namespace AdapterSlots

open AdmissionAmounts Interleaving AdapterMachine AdapterAccounting AdapterQueue

def slot : Role → Nat
  | .unpolled | .waiting | .resumed => 1
  | _ => 0

def returning : Role → Nat
  | .replanning => 1
  | _ => 0

def queued (w : Adapter) : Nat := Interleaving.sum (fun p => slot (role p)) w.calls
def returned (w : Adapter) : Nat := Interleaving.sum (fun p => returning (role p)) w.calls

variable {cfg : Config} {w : Adapter} {c : Nat}

section
theorem notifyOne_pending (q : RestoreQueue) : q.notifyOne.pending = q.pending := by
  unfold RestoreQueue.notifyOne
  split <;> rfl

section
variable (h : Turn b limit c n q m r q' m' r')
include h

theorem Turn.pending (hr : slot r ≤ q.pending) : q'.pending + slot r = q.pending + slot r' := by
  cases h with
  | calm hr' _ => rcases hr' with rfl | rfl <;> rfl
  | admitted hr' _ => rcases hr' with rfl | rfl <;> rfl
  | queued hr' _ _ => rcases hr' with rfl | rfl <;> rfl
  | rejected hr' _ => rcases hr' with rfl | rfl <;> rfl
  | left => exact Nat.sub_add_cancel hr
  | notified | cleaned => exact congrArg (· + 0) (notifyOne_pending q)
  | _ => rfl

theorem Turn.pending_le (hq : q.pending ≤ limit) : q'.pending ≤ limit := by
  cases h with
  | queued _ _ hp => exact hp
  | left => exact (Nat.sub_le _ _).trans hq
  | notified | cleaned => rw [notifyOne_pending]; exact hq
  | _ => exact hq

/-- A slot and a returning call are exchanged for each other; only a newcomer adds to both. -/
theorem Turn.accepted : slot r' + returning r' ≤ slot r + returning r ∨
      (r = .planning ∧ r' = .unpolled ∧ ¬ b ≤ m ∧ q.pending < limit) := by
  cases h with
  | calm hr' _ => rcases hr' with rfl | rfl <;> exact .inl le_rfl
  | admitted | rejected => exact .inl (Nat.zero_le _)
  | queued hr' hfit hp =>
    rcases hr' with rfl | rfl
    · exact .inr ⟨rfl, rfl, hfit, hp⟩
    · exact .inl le_rfl
  | _ => exact .inl (by decide)
end
end

structure Slotted (cfg : Config) (w : Adapter) : Prop where
  pending : w.shared.queue.pending = queued w
  bounded : w.shared.queue.pending ≤ cfg.activeQueuePolicy.maxPending

theorem Slotted.call (h : Slotted cfg w) (r : Request) :
    Slotted cfg ⟨w.shared, w.calls ++ [enter r]⟩ := by
  have hzero : slot (role (enter r)) = 0 := by cases r <;> rfl
  refine ⟨?_, h.bounded⟩
  rw [queued, sum_append_one, hzero]
  exact h.pending

theorem Slotted.step (h : Slotted cfg w) (hacc : Accounted cfg w) (hp : w.calls[c]? = some p)
    (ha : advance cfg w.shared c good p = some (s', p')) :
    Slotted cfg ⟨s', w.calls.set c p'⟩ := by
  have hturn := turns_step hacc hp ha
  have hle : slot (role p) ≤ w.shared.queue.pending := by
    rw [h.pending]
    exact le_sum (fun p => slot (role p)) hp
  have hpend := Turn.pending hturn hle
  have hset := sum_set (fun p => slot (role p)) hp p'
  refine ⟨?_, Turn.pending_le hturn h.bounded⟩
  have hold := h.pending
  unfold queued at hold ⊢
  dsimp only at hpend hset ⊢
  omega

/-- A newcomer takes a slot only where every call that gave one back could take it again. -/
def spared (cfg : Config) : Condition := fun w e => match e with
  | .call _ => true
  | .cancel _ => false
  | .step c _ =>
    match w.calls[c]? with
    | some (.planning _ false) =>
      amount cfg.budget ≤ slack w.shared.ledger ||
        cfg.activeQueuePolicy.maxPending ≤ w.shared.queue.pending ||
        w.shared.queue.pending + returned w < cfg.activeQueuePolicy.maxPending
    | _ => true

theorem spared_planning (hok : Meets (spared cfg) w (.step c good))
    (hp : w.calls[c]? = some (.planning timeout false))
    (hfit : ¬ amount cfg.budget ≤ slack w.shared.ledger)
    (hslot : w.shared.queue.pending < cfg.activeQueuePolicy.maxPending) :
    w.shared.queue.pending + returned w < cfg.activeQueuePolicy.maxPending := by
  simp only [Meets, spared, hp, Bool.or_eq_true, decide_eq_true_eq] at hok
  rcases hok with (hok | hok) | hok
  · exact absurd hok hfit
  · omega
  · exact hok

theorem role_planning (h : role p = .planning) : ∃ timeout, p = .planning timeout false := by
  unfold role at h
  split at h
  · cases h
  · cases h
  · cases h
  · next timeout again =>
    cases again
    · exact ⟨timeout, rfl⟩
    · cases h
  · cases h
  · cases h

def Revoked (why : Failure) : Prop :=
  ∃ limit pending, why = .rejected true (some (.queueFull limit pending))

structure Kept (cfg : Config) (w : Adapter) : Prop where
  accounted : Accounted cfg w
  slotted : Slotted cfg w
  room : queued w + returned w ≤ cfg.activeQueuePolicy.maxPending
  unrevoked : ∀ (d : Nat) q why, w.calls[d]? = some q → failure q = some why → ¬ Revoked why

theorem kept_initial (cfg : Config) : Kept cfg (initial cfg) :=
  ⟨accounted_initial cfg, ⟨rfl, Nat.zero_le _⟩, Nat.zero_le _, fun d q why hq => by
    simp [initial] at hq⟩

theorem Kept.call (h : Kept cfg w) (r : Request) : Kept cfg ⟨w.shared, w.calls ++ [enter r]⟩ := by
  refine ⟨h.accounted.call r, h.slotted.call r, ?_, fun d q why hq hf => ?_⟩
  · have h1 : slot (role (enter r)) = 0 := by cases r <;> rfl
    have h2 : returning (role (enter r)) = 0 := by cases r <;> rfl
    rw [queued, returned, sum_append_one, sum_append_one, h1, h2]
    exact h.room
  · rcases getElem?_append_one hq with rfl | hq
    · cases r <;> cases hf
    · exact h.unrevoked d q why hq hf

theorem Kept.step (h : Kept cfg w) (hok : Meets (spared cfg) w (.step c good))
    (hp : w.calls[c]? = some p) (ha : advance cfg w.shared c good p = some (s', p')) :
    Kept cfg ⟨s', w.calls.set c p'⟩ := by
  have hturn := turns_step h.accounted hp ha
  have hslots := sum_set (fun p => slot (role p)) hp p'
  have hreturns := sum_set (fun p => returning (role p)) hp p'
  have hroom := h.room
  refine ⟨h.accounted.step hp ha, h.slotted.step h.accounted hp ha, ?_, fun d q why hq hf => ?_⟩
  · unfold queued returned at hroom ⊢
    dsimp only at hslots hreturns ⊢
    rcases Turn.accepted hturn with hle | ⟨hr, hr', hfit, hslot⟩
    · dsimp only at hle
      omega
    · obtain ⟨_, rfl⟩ := role_planning hr
      have hspare := spared_planning hok hp hfit hslot
      have hslot' : slot (role p') = 1 := congrArg slot hr'
      have hreturn' : returning (role p') = 0 := congrArg returning hr'
      rw [h.slotted.pending] at hspare
      unfold queued returned at hspare
      omega
  · rcases getElem?_set_some hq with ⟨rfl, rfl⟩ | ⟨_, hq⟩
    · have hperf : failure (perform cfg w.shared d good p).2 = some why := by
        rw [← (advance_some ha).2]
        exact hf
      rcases perform_failure h.accounted.sound hperf with
        hold | hplain | ⟨_, again, rej, rfl, rfl, hwhy⟩
      · exact h.unrevoked d p why hp hold
      · rintro ⟨limit, pending, rfl⟩
        cases hplain
      · rintro ⟨limit, pending, hrevoked⟩
        cases hrevoked
        rcases hwhy with ⟨_, hsize⟩ | ⟨_, hfull⟩
        · cases hsize
        · have hself : 1 ≤ returned w := le_sum (fun p => returning (role p)) hp
          rw [h.slotted.pending] at hfull
          omega
    · exact h.unrevoked d q why hq hf

/-- The queue never holds more calls than it has slots; and when newcomers leave room for the
calls that gave a slot back, no accepted call is turned away. -/
theorem admission_not_revoked (h : Reached cfg (spared cfg) w) :
    queued w ≤ cfg.activeQueuePolicy.maxPending ∧
      ∀ (c : Nat) limit pending,
        w.calls[c]? ≠ some (.done (.failed (.rejected true
          (some (.queueFull limit pending))))) := by
  have hkept : Kept cfg w := h.keeps (kept_initial cfg) (fun w r hw _ => hw.call r)
    (fun w c good p s' p' hw hok hp ha => hw.step hok hp ha)
    fun w c p s' p' _ hok => nomatch hok
  refine ⟨hkept.slotted.pending ▸ hkept.slotted.bounded, fun c limit pending hc => ?_⟩
  exact hkept.unrevoked c _ _ hc rfl ⟨limit, pending, rfl⟩

def oneSlotOnePending : Config := unitBudget ⟨1, 1, 1⟩ 1

/-- A call that is woken and alone plans again and is admitted. -/
theorem admission_not_revoked_alone : ∃ w, Reached oneSlotOnePending (spared oneSlotOnePending) w ∧
    returned w = 1 ∧ queued w ≤ 1 := by
  obtain ⟨w, hreach, hw⟩ := @reached_run oneSlotOnePending (spared oneSlotOnePending)
    (.call (.start [1]) :: steps 0 10 ++ .call (.start [1]) :: steps 1 5 ++
      .call (.stop 1) :: steps 2 3 ++ steps 1 2)
    (fun w => returned w = 1) (by decide +kernel)
  exact ⟨w, hreach, of_decide_eq_true hw, (admission_not_revoked hreach).1⟩

def turnedAway : Phase → Bool
  | .done (.failed (.rejected true (some (.queueFull _ _)))) => true
  | _ => false

theorem turnedAway_iff : turnedAway p = true ↔ ∃ limit pending,
    p = .done (.failed (.rejected true (some (.queueFull limit pending)))) := by
  refine ⟨fun h => ?_, fun ⟨_, _, hp⟩ => hp ▸ rfl⟩
  unfold turnedAway at h
  split at h
  · exact ⟨_, _, rfl⟩
  · cases h

/-- The woken call gives its slot back; one newcomer takes the capacity, another the slot. -/
theorem accepted_call_turned_away : ∃ (cfg : Config) (w : Adapter), Reached cfg uncancelled w ∧
    ∃ (c limit pending : Nat),
      w.calls[c]? = some (.done (.failed (.rejected true (some (.queueFull limit pending))))) := by
  obtain ⟨w, hreach, hw⟩ := @reached_run oneSlotOnePending uncancelled
    (.call (.start [1]) :: steps 0 10 ++ .call (.start [1]) :: steps 1 5 ++
      .call (.stop 1) :: steps 2 3 ++ steps 1 2 ++
      .call (.start [1]) :: steps 3 4 ++ .call (.start [1]) :: steps 4 4 ++ steps 1 1)
    (fun w => w.calls[1]?.any turnedAway) (by decide +kernel)
  obtain ⟨p, hp, haway⟩ := (Option.any_eq_true _ _).mp hw
  obtain ⟨limit, pending, rfl⟩ := turnedAway_iff.mp haway
  exact ⟨oneSlotOnePending, w, hreach, 1, limit, pending, hp⟩

end AdapterSlots
