import Firkin.AdapterQueue

/-! # Wakeups of the restore queue

The notification holds at most one permit. A wakeup is a permit, a notified call, a call on
its way back to planning, or a notification about to be given. As long as none is dropped,
free capacity never exceeds the wakeups on their way while a call is queued. Two releases
that fall between a call's taking its slot and its first poll collapse into one permit, and
one of two queued calls is then left behind. -/
namespace AdapterWakeups

open AdmissionAmounts QueueMap Interleaving AdapterMachine AdapterAccounting AdapterQueue List

section
variable {c : Nat} {b m : Load} {k : Nat} {q : RestoreQueue} {roles : List Role}

def credit : Role → Nat
  | .resumed | .replanning | .notifying => 1
  | _ => 0

def credits (q : RestoreQueue) (roles : List Role) : Nat :=
  (if q.permit then 1 else 0) + q.notified.length + Interleaving.sum credit roles

/-- Room for one session more than there are wakeups would be room nobody knows of. -/
def Short (b m : Load) (k : Nat) : Prop := ¬ (k + 1) • b ≤ m

theorem Short.mono (h : Short b m k) (hm : m' ≤ m) : Short b m' k :=
  fun hle => h (hle.trans hm)

theorem Short.take (h : Short b m (k + 1)) (hm : m' + b = m) : Short b m' k := by
  intro hle
  refine h ?_
  rw [succ_nsmul, ← hm]
  exact add_le_add_left hle b

theorem Short.give (h : Short b m k) (hm : m' ≤ m + b) : Short b m' (k + 1) := by
  intro hle
  refine h fun i => ?_
  have h1 := hle i
  have h2 := hm i
  simp only [succ_nsmul, Pi.add_apply] at h1 h2 ⊢
  omega

theorem short_of_not_fit (h : ¬ b ≤ m) : Short b m k := by
  intro hle
  refine h (le_trans ?_ hle)
  rw [succ_nsmul]
  exact le_add_self

structure Wakeups (b : Load) (q : RestoreQueue) (m : Load) (roles : List Role) : Prop where
  registered : ∀ c, roles[c]? = some .waiting ↔ c ∈ q.waiters ∨ c ∈ q.notified
  distinct : (q.waiters ++ q.notified).Nodup
  permit : q.permit = true → q.waiters = []
  enough : q.waiters ≠ [] ∨ Role.unpolled ∈ roles → Short b m (credits q roles)

/-- A turn of a call that neither was nor becomes registered. -/
theorem registered_set (h : ∀ d, roles[d]? = some .waiting ↔ d ∈ q.waiters ∨ d ∈ q.notified)
    (hc : roles[c]? = some r) (hr : r ≠ .waiting) (hr' : r' ≠ .waiting) (d : Nat) :
    (roles.set c r')[d]? = some .waiting ↔ d ∈ q.waiters ∨ d ∈ q.notified := by
  rw [← h d]
  by_cases hcd : c = d
  · subst hcd
    rw [hc, getElem?_set_at hc]
    simp [hr, hr']
  · rw [getElem?_set_ne hcd]

theorem mem_set_unpolled (hr' : r' ≠ .unpolled) (h : Role.unpolled ∈ roles.set c r') :
    Role.unpolled ∈ roles := by
  rcases mem_or_eq_of_mem_set h with h | h
  · exact h
  · exact absurd h.symm hr'

theorem notifyOne_cons (h : q.waiters = d :: ds) :
    q.notifyOne = { q with waiters := ds, notified := q.notified ++ [d] } := by
  rw [RestoreQueue.notifyOne, h]

theorem notifyOne_nil (h : q.waiters = []) : q.notifyOne = { q with permit := true } := by
  rw [RestoreQueue.notifyOne, h]

/-- A notification reaches a waiter or becomes the permit. It is lost only where there is a
permit already, which matters only to a call that has yet to poll. -/
theorem wakeups_notifyOne (hreg : ∀ c, roles[c]? = some .waiting ↔ c ∈ q.waiters ∨ c ∈ q.notified)
    (hdist : (q.waiters ++ q.notified).Nodup) (hpermit : q.permit = true → q.waiters = [])
    (henough : q.waiters ≠ [] ∨ Role.unpolled ∈ roles → Short b m (credits q roles + 1))
    (hok : q.permit = true → Role.unpolled ∉ roles) : Wakeups b q.notifyOne m roles := by
  cases hw : q.waiters with
  | nil =>
    rw [notifyOne_nil hw]
    refine ⟨hreg, hdist, fun _ => hw, fun he => ?_⟩
    rcases he with he | he
    · exact absurd hw he
    · cases hp : q.permit with
      | true => exact absurd he (hok hp)
      | false =>
        have hk : credits { q with permit := true } roles = credits q roles + 1 := by
          simp only [credits, hp, Bool.false_eq_true, if_true, if_false]
          omega
        rw [hk]
        exact henough (.inr he)
  | cons d ds =>
    rw [notifyOne_cons hw]
    have hperm : (ds ++ (q.notified ++ [d])).Perm (d :: ds ++ q.notified) := by
      rw [← append_assoc]
      exact perm_append_singleton d (ds ++ q.notified)
    refine ⟨fun e => ?_, hperm.nodup_iff.mpr (hw ▸ hdist), fun hp => ?_, fun he => ?_⟩
    · rw [hreg e, hw]
      simp only [mem_cons, mem_append, not_mem_nil, or_false]
      tauto
    · cases hw.symm.trans (hpermit hp)
    · have hk : credits { q with waiters := ds, notified := q.notified ++ [d] } roles =
          credits q roles + 1 := by
        simp only [credits, length_append, length_singleton]
        omega
      rw [hk]
      exact henough (.inl (by rw [hw]; exact cons_ne_nil d ds))

theorem credits_set (q : RestoreQueue) (hc : roles[c]? = some r) (r' : Role) :
    credits q (roles.set c r') + credit r = credits q roles + credit r' := by
  have hsum := sum_set credit hc r'
  simp only [credits]
  omega

/-- Every turn keeps the wakeups, as long as no notification falls on a stored permit while a
queued call has yet to poll. -/
theorem Wakeups.turn (h : Wakeups b q m roles) (hc : roles[c]? = some r)
    (ht : Turn b limit c n q m r q' m' r')
    (hok : n = true → q.permit = true → Role.unpolled ∉ roles) :
    Wakeups b q' m' (roles.set c r') := by
  have hk := credits_set q hc r'
  have hpoll : r' ≠ .unpolled → Role.unpolled ∈ roles.set c r' → Role.unpolled ∈ roles :=
    mem_set_unpolled
  have hshort : r' ≠ .unpolled → q.waiters ≠ [] ∨ Role.unpolled ∈ roles.set c r' →
      Short b m (credits q roles) := fun hne he => h.enough (he.imp_right (hpoll hne))
  cases ht with
  | calm hr hm =>
    have hne : r' ≠ .waiting := by rcases hr with rfl | rfl <;> nofun
    refine ⟨registered_set h.registered hc nofun hne, h.distinct, h.permit, fun he => ?_⟩
    have hsame : credits q (roles.set c r') = credits q roles := by
      rcases hr with rfl | rfl <;> exact Nat.add_right_cancel hk
    rw [hsame]
    exact (hshort (by rcases hr with rfl | rfl <;> nofun) he).mono hm
  | admitted hr hm =>
    have hne : r ≠ .waiting := by rcases hr with rfl | rfl <;> nofun
    refine ⟨registered_set h.registered hc hne nofun, h.distinct, h.permit, fun he => ?_⟩
    have hold := hshort nofun he
    rcases hr with rfl | rfl
    · rw [Nat.add_right_cancel hk]
      exact hold.mono (hm ▸ le_self_add)
    · rw [show credits q roles = credits q (roles.set c .plain) + 1 from hk.symm] at hold
      exact hold.take hm
  | queued hr hfit _ =>
    have hne : r ≠ .waiting := by rcases hr with rfl | rfl <;> nofun
    exact ⟨registered_set h.registered hc hne nofun, h.distinct, h.permit,
      fun _ => short_of_not_fit hfit⟩
  | rejected hr hfit =>
    have hne : r ≠ .waiting := by rcases hr with rfl | rfl <;> nofun
    exact ⟨registered_set h.registered hc hne nofun, h.distinct, h.permit,
      fun _ => short_of_not_fit hfit⟩
  | ready hp =>
    refine ⟨registered_set h.registered hc nofun nofun, h.distinct, nofun, fun he => ?_⟩
    have hsame : credits { q with permit := false } (roles.set c .resumed) = credits q roles := by
      simp only [credits, credit, hp, Bool.false_eq_true, if_true, if_false] at hk ⊢
      omega
    rw [hsame]
    exact hshort nofun he
  | parked hp =>
    have hnew : c ∉ q.waiters ++ q.notified := by
      rw [mem_append, ← h.registered c, hc]
      nofun
    refine ⟨fun d => ?_, ?_, fun hp' => ?_, fun _ => ?_⟩
    · by_cases hcd : c = d
      · subst hcd
        rw [getElem?_set_at hc]
        simp
      · have hdc : d ≠ c := fun he => hcd he.symm
        rw [getElem?_set_ne hcd, h.registered d]
        simp [hdc]
    · have hperm : (q.waiters ++ [c] ++ q.notified).Perm (c :: (q.waiters ++ q.notified)) := by
        rw [append_assoc]
        exact perm_middle
      exact hperm.nodup_iff.mpr (nodup_cons.mpr ⟨hnew, h.distinct⟩)
    · cases hp.symm.trans hp'
    · rw [show credits { q with waiters := q.waiters ++ [c] } (roles.set c .waiting) =
        credits q roles from Nat.add_right_cancel hk]
      exact h.enough (.inr (mem_of_getElem? hc))
  | woken hmem =>
    have hsplit := nodup_append.mp h.distinct
    refine ⟨fun d => ?_, ?_, h.permit, fun he => ?_⟩
    · by_cases hcd : c = d
      · subst hcd
        rw [getElem?_set_at hc]
        have hnot : c ∉ q.waiters := fun hw => hsplit.2.2 c hw c hmem rfl
        have hgone : c ∉ q.notified.erase c := hsplit.2.1.not_mem_erase
        simp [hnot, hgone]
      · have hdc : d ≠ c := fun he => hcd he.symm
        rw [getElem?_set_ne hcd, h.registered d, mem_erase_of_ne hdc]
    · exact h.distinct.sublist (List.Sublist.append (List.Sublist.refl _) erase_sublist)
    · have hlen := length_erase_of_mem hmem
      have hpos := length_pos_of_mem hmem
      have hsame : credits { q with notified := q.notified.erase c } (roles.set c .resumed) =
          credits q roles := by
        simp only [credits, credit] at hk ⊢
        omega
      rw [hsame]
      exact hshort nofun he
  | left =>
    refine ⟨registered_set h.registered hc nofun nofun, h.distinct, h.permit, fun he => ?_⟩
    rw [show credits { q with pending := q.pending - 1 } (roles.set c .replanning) =
      credits q roles from Nat.add_right_cancel hk]
    exact hshort nofun he
  | released hm =>
    refine ⟨registered_set h.registered hc nofun nofun, h.distinct, h.permit, fun he => ?_⟩
    rw [show credits q (roles.set c .notifying) = credits q roles + 1 from hk]
    exact (hshort nofun he).give hm
  | notified =>
    refine wakeups_notifyOne (registered_set h.registered hc nofun nofun) h.distinct h.permit
      (fun he => ?_) fun hp he => hok rfl hp (hpoll nofun he)
    rw [show credits q (roles.set c .plain) + 1 = credits q roles from hk]
    exact hshort nofun he
  | cleaned hm =>
    refine wakeups_notifyOne (registered_set h.registered hc nofun nofun) h.distinct h.permit
      (fun he => ?_) fun hp he => hok rfl hp (hpoll nofun he)
    rw [show credits q (roles.set c .plain) = credits q roles from Nat.add_right_cancel hk]
    exact (hshort nofun he).give hm
end

variable {cfg : Config} {w : Adapter}

def roles (w : Adapter) : List Role := w.calls.map role

/-- No notification is given while a permit is stored and a queued call has yet to poll. -/
def prompt : Condition := fun w e => match e with
  | .call _ => true
  | .cancel _ => false
  | .step c _ =>
    match w.calls[c]? with
    | some p => !(notifies p && w.shared.queue.permit && (roles w).contains .unpolled)
    | none => true

theorem wakeups (h : Reached cfg prompt w) :
    Accounted cfg w ∧
      Wakeups (amount cfg.budget) w.shared.queue (slack w.shared.ledger) (roles w) := by
  refine h.keeps (I := fun w => Accounted cfg w ∧
    Wakeups (amount cfg.budget) w.shared.queue (slack w.shared.ledger) (roles w))
    ⟨accounted_initial cfg, ?_⟩ ?_ ?_ fun w c p s' p' _ hok => Bool.noConfusion hok
  · exact ⟨fun c => by simp [roles, initial], nodup_nil, fun _ => rfl, fun he => by
      simp [roles, initial] at he⟩
  · rintro w r ⟨hacc, hwake⟩ _
    have hplain : role (enter r) = .plain := by cases r <;> rfl
    have hroles : roles ⟨w.shared, w.calls ++ [enter r]⟩ = roles w ++ [.plain] := by
      simp [roles, hplain]
    refine ⟨hacc.call r, ?_⟩
    change Wakeups _ _ _ (roles ⟨w.shared, w.calls ++ [enter r]⟩)
    rw [hroles]
    refine ⟨fun c => ?_, hwake.distinct, hwake.permit, fun he => ?_⟩
    · rw [← hwake.registered c]
      refine ⟨fun hc => ?_, fun hc => ?_⟩
      · rcases getElem?_append_one hc with hc | hc
        · cases hc
        · exact hc
      · rw [List.getElem?_append_left (List.getElem?_eq_some_iff.mp hc).1]
        exact hc
    · have hk : credits w.shared.queue (roles w ++ [.plain]) =
        credits w.shared.queue (roles w) := by
        simp [credits, credit]
      rw [hk]
      exact hwake.enough (he.imp_right fun hm => by simpa using hm)
  · rintro w c good p s' p' ⟨hacc, hwake⟩ hok hp ha
    refine ⟨hacc.step hp ha, ?_⟩
    have hroles : roles ⟨s', w.calls.set c p'⟩ = (roles w).set c (role p') := map_set
    have hc : (roles w)[c]? = some (role p) := by simp [roles, hp]
    rw [hroles]
    refine hwake.turn hc (turns_step hacc hp ha) fun hn hpermit hmem => ?_
    simp only [Meets, prompt, hp, hn, hpermit, Bool.true_and, Bool.not_eq_true'] at hok
    exact absurd (contains_iff_mem.mpr hmem) (Bool.eq_false_iff.mp hok)

/-- A finished call, or one that waits in the queue and was not notified. -/
def parkedOrFinished (w : Adapter) (c : Nat) : Phase → Bool
  | .done _ | .cancelled => true
  | .waiting _ => c ∉ w.shared.queue.notified
  | _ => false

theorem role_of_parked (h : parkedOrFinished w c p = true) :
    role p = .plain ∨ role p = .waiting ∧ c ∉ w.shared.queue.notified := by
  unfold parkedOrFinished at h
  split at h
  · exact .inl rfl
  · exact .inl rfl
  · exact .inr ⟨rfl, of_decide_eq_true h⟩
  · cases h

/-- Every call is parked or finished, and one is parked although it would fit. -/
def Stuck (cfg : Config) (w : Adapter) : Prop :=
  (∀ x ∈ w.calls.zipIdx, parkedOrFinished w x.2 x.1 = true) ∧
  Role.waiting ∈ roles w ∧
  amount cfg.budget ≤ amount w.shared.ledger.available + budgets (flat w.shared.warmPool.entries)

/-- No lost wakeup: a call that would fit is never left parked when all else has come to rest. -/
theorem no_lost_wakeup (h : Reached cfg prompt w) : ¬ Stuck cfg w := by
  rintro ⟨hrest, hwaits, hfits⟩
  obtain ⟨hacc, hwake⟩ := wakeups h
  have hparked : ∀ (c : Nat) p, w.calls[c]? = some p → parkedOrFinished w c p = true := by
    intro c p hp
    exact hrest (p, c) (mk_mem_zipIdx_iff_getElem?.mpr hp)
  have hslack : amount cfg.budget ≤ slack w.shared.ledger := by
    rw [hacc.sound.solvent.slack, hacc.sound.pooled]
    exact hfits
  have hnotified : w.shared.queue.notified = [] := by
    refine eq_nil_iff_forall_not_mem.mpr fun c hc => ?_
    have hrole := (hwake.registered c).mpr (.inr hc)
    rw [roles, getElem?_map, Option.map_eq_some_iff] at hrole
    obtain ⟨p, hp, hr⟩ := hrole
    rcases role_of_parked (hparked c p hp) with hplain | ⟨_, hnot⟩
    · cases hplain.symm.trans hr
    · exact hnot hc
  have hwaiters : w.shared.queue.waiters ≠ [] := by
    obtain ⟨c, hc⟩ := mem_iff_getElem?.mp hwaits
    rcases (hwake.registered c).mp hc with hc | hc
    · exact ne_nil_of_mem hc
    · rw [hnotified] at hc
      cases hc
  have hpermit : w.shared.queue.permit = false :=
    Bool.eq_false_iff.mpr fun hp => hwaiters (hwake.permit hp)
  have hcredit : Interleaving.sum credit (roles w) = 0 := by
    refine sum_eq_zero _ fun r hr => ?_
    obtain ⟨p, hp, rfl⟩ := mem_map.mp hr
    obtain ⟨c, hc⟩ := mem_iff_getElem?.mp hp
    rcases role_of_parked (hparked c p hc) with hr | ⟨hr, _⟩ <;> rw [hr] <;> rfl
  refine hwake.enough (.inl hwaiters) ?_
  rw [credits, hpermit, hnotified, hcredit]
  simpa using hslack

/-- A call that polled in time is woken by the release and gets its session. -/
theorem no_lost_wakeup_polled : ∃ w, Reached (unitBudget ⟨1, 1, 1⟩ 2) prompt w ∧
    w.shared.queue.notified = [1] ∧ ¬ Stuck (unitBudget ⟨1, 1, 1⟩ 2) w := by
  obtain ⟨w, hreach, hw⟩ := @reached_run (unitBudget ⟨1, 1, 1⟩ 2) prompt
    (.call (.start [1]) :: steps 0 10 ++ .call (.start [1]) :: steps 1 5 ++
      .call (.stop 1) :: steps 2 3)
    (fun w => w.shared.queue.notified = [1]) (by decide +kernel)
  exact ⟨w, hreach, of_decide_eq_true hw, no_lost_wakeup hreach⟩

/-- Two calls queue before either polls; both sessions are stopped; one permit is left. The
first call to poll takes it and gets a session, the other one waits although there is room. -/
theorem second_wakeup_lost : ∃ (cfg : Config) (w : Adapter),
    Reached cfg uncancelled w ∧ Stuck cfg w := by
  obtain ⟨w, hreach, hw⟩ := @reached_run (unitBudget ⟨2, 2, 2⟩ 2) uncancelled
    (.call (.start [1]) :: steps 0 10 ++ .call (.start [1]) :: steps 1 10 ++
      .call (.start [1]) :: steps 2 4 ++ .call (.start [1]) :: steps 3 4 ++
      .call (.stop 1) :: steps 4 3 ++ .call (.stop 2) :: steps 5 3 ++
      steps 2 1 ++ steps 3 1 ++ steps 2 8)
    (fun w => (w.calls.zipIdx.all fun x => parkedOrFinished w x.2 x.1) ∧
      Role.waiting ∈ roles w ∧ w.shared.ledger.available = ⟨1, 1, 1⟩) (by decide +kernel)
  simp only [decide_eq_true_eq, all_eq_true] at hw
  obtain ⟨hrest, hwaits, hroom⟩ := hw
  refine ⟨unitBudget ⟨2, 2, 2⟩ 2, w, hreach, hrest, hwaits, ?_⟩
  rw [hroom]
  exact le_self_add

end AdapterWakeups
