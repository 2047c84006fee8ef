import Firkin.AdapterAccounting

/-! # Capacity accounting of the adapter

What the ledger says in every state between sections under the lock, when no call is
dropped: the warm reservations are the pool's, the active ones belong to registered sessions
and to calls on their way to one, and every pooled entry has its session. A call whose timeout
makes `next_config` panic leaves its reservation behind. The id counter saturates; past its end
two sessions share a name and the registry forgets one of them. -/
namespace AdapterCapacity

open Admission AdmissionAmounts QueueMap Interleaving AdapterMachine AdapterWarmPool AdapterTokens
open AdapterAccounting

variable {cfg : Config} {w : Adapter} {s : Shared} {p : Phase} {c : Nat}

def inFlight : Phase → Nat
  | .admitted .. | .restoring .. | .probing .. | .spawning .. | .registering .. | .abandoning ..
  | .releasing .. => 1
  | _ => 0

/-- A `stop` inside its section, with the session out of the registry. -/
def underStop : Phase → Nat
  | .ending .. | .cleaning _ => 1
  | _ => 0

theorem weight_held_owns : weight held (p.owns cfg) = inFlight p + underStop p := by
  have htoken : ∀ r : ActiveSessionReservation, held r.token = 1 := by
    rintro ⟨b, _ | _⟩ <;> rfl
  have hsessions : ∀ xs : List Nat, weight held (xs.map .session) = 0 := by
    intro xs
    rw [weight_sessions]
    exact List.sum_eq_zero fun x hx => by
      obtain ⟨_, _, rfl⟩ := List.mem_map.mp hx
      rfl
  cases p <;> simp [Phase.owns, underStop, FirkinRuntimeSession.tokens, htoken, hsessions] <;> rfl

def holdsLock : Phase → Bool
  | .prewarmDropping .. | .ending .. | .cleaning _ => true
  | _ => false

theorem finish_unlocked {job : PrewarmJob} : holdsLock (job.finish r) = false := by
  unfold PrewarmJob.finish
  split <;> rfl

theorem turn_unlocked {pass : MaintainPass} : holdsLock (pass.turn pool) = false := by
  unfold MaintainPass.turn
  split
  · rfl
  · dsimp only
    split <;> rfl

theorem unlocked {P : Prop} (h : holdsLock p = false) (h' : holdsLock p = true) : P :=
  absurd h' (Bool.eq_false_iff.mp h)

/-- A step that ends inside a section holds the lock, and the lock changes only for a call
that takes it or has it. -/
theorem perform_lock (hs : Sound cfg s) (c : Nat) (good : Bool) :
    (holdsLock (perform cfg s c good p).2 = true →
      (perform cfg s c good p).1.lock = some c ∨
        (holdsLock p = true ∧ (perform cfg s c good p).1.lock = s.lock)) ∧
    ((perform cfg s c good p).1.lock = s.lock ∨ p.needsLock = true ∨ holdsLock p = true) := by
  cases p with
  | requesting template timeout =>
    rcases requestWarm_spec hs template timeout with
      ⟨_, hr⟩ | hr | ⟨_, _, _, _, _, _, _, _, hr, _⟩ <;>
    · rw [perform, hr]
      exact ⟨unlocked rfl, .inl rfl⟩
  | planning timeout again =>
    rcases reserve_spec hs timeout again with ⟨_, _, _, _, hr, _⟩ | ⟨_, _, hr⟩ | ⟨_, _, hr, _⟩ <;>
    · rw [perform, hr]
      exact ⟨unlocked rfl, .inl rfl⟩
  | restoring sandbox evicted =>
    cases evicted <;> cases good <;> exact ⟨unlocked rfl, .inl rfl⟩
  | spawning server sandbox held =>
    cases server <;> cases good <;> exact ⟨unlocked rfl, .inl rfl⟩
  | arrived _ _ | checking _ | probing _ _ | abandoning _ _ | prewarmProbing _ _
  | prewarmStopping _ =>
    cases good <;> exact ⟨unlocked rfl, .inl rfl⟩
  | unpolled _ | admitted _ _ | releasing _ _ | prewarmAsked _ =>
    rw [perform]
    split <;> exact ⟨unlocked rfl, .inl rfl⟩
  | prewarmChecking job | prewarmRestoring job =>
    cases good
    · exact ⟨unlocked (by simp [perform, finish_unlocked]), .inl rfl⟩
    · exact ⟨unlocked rfl, .inl rfl⟩
  | prewarmReady job =>
    rw [perform]
    split
    · exact ⟨unlocked finish_unlocked, .inl rfl⟩
    · exact ⟨unlocked rfl, .inl rfl⟩
  | prewarmRetaining job x =>
    rw [perform]
    split
    · exact ⟨fun _ => .inl rfl, .inr (.inl rfl)⟩
    · split
      · exact ⟨fun _ => .inl rfl, .inr (.inl rfl)⟩
      · exact ⟨unlocked finish_unlocked, .inl rfl⟩
  | prewarmDropping job x why =>
    exact ⟨unlocked finish_unlocked, .inr (.inr rfl)⟩
  | maintaining pass => exact ⟨unlocked turn_unlocked, .inl rfl⟩
  | stopping sandbox =>
    rw [perform]
    split
    · exact ⟨unlocked rfl, .inl rfl⟩
    · exact ⟨fun _ => .inl rfl, .inr (.inl rfl)⟩
  | ending sandbox removed =>
    cases good with
    | true => exact ⟨fun _ => .inr ⟨rfl, rfl⟩, .inr (.inr rfl)⟩
    | false => exact ⟨unlocked rfl, .inr (.inr rfl)⟩
  | cleaning r =>
    refine ⟨fun h => ?_, .inr (.inr rfl)⟩
    simp only [perform] at h
    split at h <;> cases h
  | _ => exact ⟨unlocked rfl, .inl rfl⟩

def Locked (w : Adapter) : Prop :=
  ∀ c p, w.calls[c]? = some p → holdsLock p = true → w.shared.lock = some c

theorem unblocked_lock (h : advance cfg s c good p = some r)
    (hn : p.needsLock = true) : s.lock = none := by
  have hb := (advance_some h).1
  cases hl : s.lock with
  | none => rfl
  | some d => cases p <;> simp_all [blocked, Phase.needsLock]

theorem locked (h : Reached cfg uncancelled w) : Locked w := by
  refine (h.keeps (I := fun w => Accounted cfg w ∧ Locked w)
    ⟨accounted_initial cfg, fun c p hp => by simp [initial] at hp⟩ ?_ ?_
    fun w c p s' p' _ hok => nomatch hok).2
  · intro w r ⟨hacc, hlock⟩ _
    refine ⟨hacc.call r, fun c p hp hl => ?_⟩
    rcases getElem?_append_one hp with rfl | hp
    · cases r <;> cases hl
    · exact hlock c p hp hl
  · intro w c good p s' p' ⟨hacc, hlock⟩ _ hp ha
    refine ⟨hacc.step hp ha, fun d q hq hl => ?_⟩
    obtain ⟨htake, hchange⟩ := perform_lock (p := p) hacc.sound c good
    rw [← (advance_some ha).2] at htake hchange
    rcases getElem?_set_some hq with ⟨rfl, rfl⟩ | ⟨hne, hq⟩
    · rcases htake hl with hl | ⟨hold, hsame⟩
      · exact hl
      · exact hsame.trans (hlock d p hp hold)
    · have hd := hlock d q hq hl
      rcases hchange with hsame | hneed | hold
      · exact hsame.trans hd
      · rw [unblocked_lock ha hneed] at hd
        cases hd
      · rw [hlock c p hp hold] at hd
        exact absurd (Option.some.inj hd).symm hne

theorem underStop_of_unlocked (h : Locked w) (hl : w.shared.lock = none) :
    sum underStop w.calls = 0 := by
  refine sum_eq_zero _ fun p hp => ?_
  obtain ⟨c, hc⟩ := List.mem_iff_getElem?.mp hp
  by_contra hne
  have hold : holdsLock p = true := by
    cases p <;> first | rfl | exact absurd rfl hne
  rw [h c p hc hold] at hl
  cases hl

theorem held_tokens (sandbox : UInt64) (session : FirkinRuntimeSession) :
    weight held (session.tokens sandbox) = 1 := by
  obtain ⟨x, b, _ | _⟩ := session <;> rfl

theorem total_held (s : Shared) :
    total (fun report : WarmPoolMaintenanceReport => held (.session report.session))
      s.warmSessions = 0 :=
  List.sum_eq_zero fun x hx => by
    obtain ⟨_, _, rfl⟩ := List.mem_map.mp hx
    rfl

/-- The reservations: one for each registered session and each call that holds one. -/
theorem tally_held (hlost : ∀ t ∈ w.shared.lost, ∃ x, t = .session x) :
    tally held cfg w = w.shared.active.size +
      (sum inFlight w.calls + sum underStop w.calls) := by
  have hzero : weight held w.shared.lost = 0 := weight_idle fun t ht => by
    obtain ⟨x, rfl⟩ := hlost t ht
    rfl
  have hcalls : sum (fun p => weight held (p.owns cfg)) w.calls =
      sum inFlight w.calls + sum underStop w.calls := by
    simp only [weight_held_owns]
    exact List.sum_map_add
  rw [tally, stored, sumOver_one held_tokens, total_held, hzero, hcalls, add_zero, add_zero]

theorem plain_failures (h : Reached cfg uncancelled w) :
    ∀ (c : Nat) p why, w.calls[c]? = some p → failure p = some why →
      Plain why = true ∨ ∃ again rejection, why = .rejected again rejection := by
  refine (h.keeps (I := fun w => Accounted cfg w ∧ ∀ (c : Nat) p why, w.calls[c]? = some p →
    failure p = some why → Plain why = true ∨ ∃ again rejection, why = .rejected again rejection)
    ⟨accounted_initial cfg, fun c p why hp => by simp [initial] at hp⟩ ?_ ?_
    fun w c p s' p' _ hok => nomatch hok).2
  · intro w r ⟨hacc, hplain⟩ _
    refine ⟨hacc.call r, fun c p why hp hf => ?_⟩
    rcases getElem?_append_one hp with rfl | hp
    · cases r <;> cases hf
    · exact hplain c p why hp hf
  · intro w c good p s' p' ⟨hacc, hplain⟩ _ hp ha
    refine ⟨hacc.step hp ha, fun d q why hq hf => ?_⟩
    rcases getElem?_set_some hq with ⟨rfl, rfl⟩ | ⟨_, hq⟩
    · have hperf : failure (perform cfg w.shared d good p).2 = some why := by
        rw [← (advance_some ha).2]
        exact hf
      rcases perform_failure hacc.sound hperf with hold | hplain' | ⟨_, again, rej, _, hwhy, _⟩
      · exact hplain d p why hp hold
      · exact .inl hplain'
      · exact .inr ⟨again, _, hwhy⟩
    · exact hplain d q why hq hf

def twoSlots : Config := unitBudget ⟨2, 2, 2⟩ 0

end AdapterCapacity
