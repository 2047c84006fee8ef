import Firkin.AdapterCapacity

/-! # The active restore queue

A call that finds no room takes a slot of the queue, drops the lock and only then polls its
notification. `Turn` is the protocol in its own terms: the queue, what active sessions leave
free, and the role of one call. Every step of the adapter is one of its turns. -/
namespace AdapterQueue

open Admission AdmissionAmounts Interleaving AdapterMachine AdapterWarmPool AdapterTokens
  AdapterAccounting

inductive Role where
  | plain
  | planning
  | unpolled
  | waiting
  | resumed
  | replanning
  | notifying
  deriving DecidableEq

def role : Phase → Role
  | .unpolled _ => .unpolled
  | .waiting _ => .waiting
  | .resumed _ => .resumed
  | .planning _ again => if again then .replanning else .planning
  | .notifying _ => .notifying
  | _ => .plain

def notifies : Phase → Bool
  | .notifying _ => true
  | .cleaning reservation => !reservation.released
  | _ => false

/-- The turns of the call `c` when a session takes `b` and the queue has `limit` slots. The
`Bool` tells a turn that notifies. -/
inductive Turn (b : Load) (limit c : Nat) :
    Bool → RestoreQueue → Load → Role → RestoreQueue → Load → Role → Prop where
  | calm {q m m' r} : r = .plain ∨ r = .planning → m' ≤ m → Turn b limit c false q m .plain q m' r
  | admitted {q m m' r} : r = .planning ∨ r = .replanning → m' + b = m →
      Turn b limit c false q m r q m' .plain
  | queued {q m r} : r = .planning ∨ r = .replanning → ¬ b ≤ m → q.pending < limit →
      Turn b limit c false q m r { q with pending := q.pending + 1 } m .unpolled
  | rejected {q m r} : r = .planning ∨ r = .replanning → ¬ b ≤ m →
      Turn b limit c false q m r q m .plain
  | ready {q m} : q.permit = true →
      Turn b limit c false q m .unpolled { q with permit := false } m .resumed
  | parked {q m} : q.permit = false →
      Turn b limit c false q m .unpolled { q with waiters := q.waiters ++ [c] } m .waiting
  | woken {q m} : c ∈ q.notified →
      Turn b limit c false q m .waiting { q with notified := q.notified.erase c } m .resumed
  | left {q m} :
      Turn b limit c false q m .resumed { q with pending := q.pending - 1 } m .replanning
  | released {q m m'} : m' ≤ m + b → Turn b limit c false q m .plain q m' .notifying
  | notified {q m} : Turn b limit c true q m .notifying q.notifyOne m .plain
  | cleaned {q m m'} : m' ≤ m + b → Turn b limit c true q m .plain q.notifyOne m' .plain

variable {cfg : Config} {s : Shared} {p : Phase} {c : Nat}

abbrev Turns (cfg : Config) (c : Nat) (s : Shared) (p : Phase) (r : Shared × Phase) : Prop :=
  Turn (amount cfg.budget) cfg.activeQueuePolicy.maxPending c (notifies p) s.queue
    (slack s.ledger) (role p) r.1.queue (slack r.1.ledger) (role r.2)

theorem turns_calm (hq : s'.queue = s.queue) (hl : slack s'.ledger ≤ slack s.ledger)
    (hn : notifies p = false) (hp : role p = .plain) (hp' : role p' = .plain) :
    Turns cfg c s p (s', p') := by
  unfold Turns
  rw [hq, hn, hp, hp']
  exact .calm (.inl rfl) hl

theorem slack_release : slack (l.releaseActive b) ≤ slack l + amount b := by
  intro r
  simp only [slack, CapacityLedger.releaseActive, amount_sub, Pi.sub_apply, Pi.add_apply]
  omega

theorem slack_reserve
    (hcap : l'.capacity = l.capacity) (ha : amount l'.active = amount l.active + amount b)
    (hfit : amount b ≤ slack l) : slack l' + amount b = slack l := by
  funext r
  have hr := hfit r
  simp only [slack, hcap, ha, Pi.sub_apply, Pi.add_apply] at hr ⊢
  omega

/-- An unflawed reservation is the adapter's budget, not yet given back. -/
theorem reservation_eq {r : ActiveSessionReservation} (h : flaw cfg r.token = 0) :
    r = .new cfg.budget := by
  obtain ⟨b, released⟩ := r
  cases released with
  | true => cases h
  | false =>
    have hb : b = cfg.budget := by
      by_contra hne
      simp [ActiveSessionReservation.token, flaw, hne] at h
    rw [hb]
    rfl

theorem role_finish (job : PrewarmJob) (r : Except Failure Bool) :
    role (job.finish r) = .plain := by
  unfold PrewarmJob.finish
  split <;> rfl

theorem role_turn (pass : MaintainPass) : role (pass.turn pool) = .plain := by
  unfold MaintainPass.turn
  split
  · rfl
  · dsimp only
    split <;> rfl

theorem turns_requestWarm (hs : Sound cfg s) (template : Ext4Types.Str)
    (timeout : Option UInt64) :
    Turns cfg c s (.requesting template timeout) (s.requestWarm cfg template timeout) := by
  rcases requestWarm_spec hs template timeout with
    ⟨_, hr⟩ | hr | ⟨x, ledger, rest, e, reports, _, _, hactive, hr, hsound⟩
  · rw [hr]
    exact turns_calm rfl le_rfl rfl rfl rfl
  · rw [hr]
    exact turns_calm rfl le_rfl rfl rfl rfl
  · rw [hr] at hsound ⊢
    refine turns_calm rfl (fun r => ?_) rfl rfl rfl
    have hcap : ledger.capacity = s.ledger.capacity := hsound.capacity.trans hs.capacity.symm
    simp only [slack, hcap, hactive, Pi.sub_apply, Pi.add_apply]
    omega

theorem turns_reserve (hs : Sound cfg s) (timeout : Option UInt64) (again : Bool) :
    Turns cfg c s (.planning timeout again)
      (s.reserveActiveRestoreCapacity cfg timeout again) := by
  have hrole : role (.planning timeout again) = .planning ∨
      role (.planning timeout again) = .replanning := by
    cases again
    · exact .inl rfl
    · exact .inr rfl
  rcases reserve_spec hs timeout again with
    ⟨ledger, pool, warm, evicted, hr, hsound, hfit, hactive, _⟩ | ⟨hfit, hslot, hr⟩ |
      ⟨hfit, _, hr, _⟩
  · rw [hr]
    have hcap : ledger.capacity = s.ledger.capacity := hsound.capacity.trans hs.capacity.symm
    exact .admitted hrole (slack_reserve hcap hactive hfit)
  · rw [hr]
    exact .queued hrole hfit hslot
  · rw [hr]
    exact .rejected hrole hfit

theorem perform_turns (hs : Sound cfg s) (hflaw : weight (flaw cfg) (p.owns cfg) = 0)
    (hb : blocked s c p = false) : Turns cfg c s p (perform cfg s c good p) := by
  cases p with
  | requesting template timeout => exact turns_requestWarm hs template timeout
  | planning timeout again => exact turns_reserve hs timeout again
  | unpolled =>
    rw [perform]
    split
    · next h => exact .ready h
    · next h => exact .parked (Bool.eq_false_iff.mpr h)
  | waiting => exact .woken (by simpa [blocked] using hb)
  | resumed => exact .left
  | notifying why => exact .notified
  | releasing r why =>
    have hr : r = .new cfg.budget := reservation_eq (by simpa [Phase.owns] using hflaw)
    subst hr
    exact .released slack_release
  | cleaning r =>
    have hr : r = .new cfg.budget := reservation_eq (by simpa [Phase.owns] using hflaw)
    subst hr
    cases good <;> exact .cleaned slack_release
  | restoring sandbox evicted =>
    cases evicted <;> cases good <;> exact turns_calm rfl le_rfl rfl rfl rfl
  | spawning server sandbox held =>
    cases server <;> cases good <;> exact turns_calm rfl le_rfl rfl rfl rfl
  | checking =>
    cases good with
    | false => exact turns_calm rfl le_rfl rfl rfl rfl
    | true => exact .calm (.inr rfl) le_rfl
  | arrived _ _ | probing _ _ | abandoning _ _ | prewarmProbing _ _ | prewarmStopping _
  | ending _ _ =>
    cases good <;> exact turns_calm rfl le_rfl rfl rfl rfl
  | admitted _ _ | prewarmAsked _ | stopping _ =>
    rw [perform]
    split <;> exact turns_calm rfl le_rfl rfl rfl rfl
  | prewarmChecking job =>
    cases good with
    | false => exact turns_calm rfl le_rfl rfl rfl (role_finish job (.error .check))
    | true => exact turns_calm rfl le_rfl rfl rfl rfl
  | prewarmRestoring job =>
    cases good with
    | false => exact turns_calm rfl le_rfl rfl rfl (role_finish job (.error .launch))
    | true => exact turns_calm rfl le_rfl rfl rfl rfl
  | prewarmReady job =>
    rw [perform]
    split
    · exact turns_calm rfl le_rfl rfl rfl (role_finish job _)
    · exact turns_calm rfl le_rfl rfl rfl rfl
  | prewarmRetaining job x =>
    rw [perform]
    split
    · exact turns_calm rfl le_rfl rfl rfl rfl
    · split
      · exact turns_calm rfl le_rfl rfl rfl rfl
      · next hm =>
        obtain ⟨hactive, hsound⟩ := maintain_spec (x := x) hs hm
        refine turns_calm rfl (le_of_eq ?_) rfl rfl (role_finish job _)
        exact congrArg₂ (amount · - amount ·) (hsound.capacity.trans hs.capacity.symm) hactive
  | prewarmDropping job x why =>
    cases good <;> exact turns_calm rfl le_rfl rfl rfl (role_finish job _)
  | maintaining pass => exact turns_calm rfl le_rfl rfl rfl (role_turn pass)
  | _ => exact turns_calm rfl le_rfl rfl rfl rfl

theorem turns_step (h : Accounted cfg w) (hp : w.calls[c]? = some p)
    (ha : advance cfg w.shared c good p = some (s', p')) : Turns cfg c w.shared p (s', p') := by
  have hflaw : weight (flaw cfg) (p.owns cfg) = 0 :=
    Nat.le_zero.mp (h.unflawed ▸ owned_le (flaw cfg) hp)
  rw [(advance_some ha).2]
  exact perform_turns h.sound hflaw (advance_some ha).1

end AdapterQueue
