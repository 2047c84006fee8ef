import Firkin.AdapterCapacity

/-! # Sessions that run

A cold start reserves before it launches. A prewarm launches first and reserves after the
probe, and an evicted session is stopped after its reservation was given away. So running
sessions can exceed the reservations by the sessions that have none. -/
namespace AdapterRunning

open Admission AdmissionAmounts QueueMap Interleaving AdapterMachine AdapterWarmPool AdapterTokens
  AdapterAccounting AdapterCapacity

variable {cfg : Config} {w : Adapter} {s : Shared} {p : Phase} {c : Nat} {good : Bool}

def surplus (cfg : Config) (p : Phase) : Nat :=
  weight alive (p.owns cfg) - weight held (p.owns cfg)

def unreserved (cfg : Config) (w : Adapter) : Nat :=
  Interleaving.sum (surplus cfg) w.calls + weight alive w.shared.lost

def used (w : Adapter) : Load :=
  amount w.shared.ledger.active + amount w.shared.ledger.warmPool

theorem alive_tokens (sandbox : UInt64) (session : FirkinRuntimeSession) :
    weight alive (session.tokens sandbox) = 1 := by
  obtain ⟨x, b, _ | _⟩ := session <;> rfl

theorem total_const {V M : Type} [AddCommMonoid M] (m : Std.TreeMap WarmPoolKey (List V)) (a : M) :
    total (fun _ => a) m = (flat m).length • a := by
  rw [total, List.map_const', List.sum_replicate]

theorem sum_le_surplus (calls : List Phase) :
    Interleaving.sum (fun p => weight alive (p.owns cfg)) calls ≤
      Interleaving.sum (fun p => weight held (p.owns cfg)) calls +
        Interleaving.sum (surplus cfg) calls := by
  induction calls with
  | nil => exact le_rfl
  | cons p calls ih =>
    simp only [Interleaving.sum, List.map_cons, List.sum_cons] at ih ⊢
    have hp : weight alive (p.owns cfg) ≤ weight held (p.owns cfg) + surplus cfg p :=
      le_add_tsub
    omega

/-- Running sessions are covered by the reservations, up to those that have none. -/
theorem running_le (h : Accounted cfg w) :
    w.shared.running.length • amount cfg.budget ≤
      used w + unreserved cfg w • amount cfg.budget := by
  have hwarm : total (fun report : WarmPoolMaintenanceReport => alive (.session report.session))
      w.shared.warmSessions = (flat w.shared.warmSessions).length := by
    refine (total_const w.shared.warmSessions 1).trans ?_
    rw [smul_eq_mul, mul_one]
  have hcount : w.shared.running.length ≤
      tally held cfg w + (flat w.shared.warmSessions).length + unreserved cfg w := by
    have hcalls := @sum_le_surplus cfg w.calls
    rw [h.alive]
    unfold tally stored unreserved
    rw [sumOver_one alive_tokens, sumOver_one held_tokens]
    omega
  have hused : used w =
      (tally held cfg w + (flat w.shared.warmSessions).length) • amount cfg.budget := by
    rw [used, h.counted, h.sound.backed, total_const, add_smul]
  rw [hused, ← add_smul]
  exact nsmul_le_nsmul_left (fun _ => Nat.zero_le _) hcount

def unbacked : Phase → Nat
  | .prewarmRestoring _ => 1
  | _ => 0

/-- Every launch finds room beside all reservations and all sessions that have none. -/
def roomy (cfg : Config) : Condition := fun w e => match e with
  | .step c good => match w.calls[c]? with
    | some p => !launches good p ||
        used w + (unreserved cfg w + unbacked p) • amount cfg.budget ≤ amount cfg.capacity
    | none => true
  | _ => true

theorem launch_effect (hl : launches good p = true) :
    (perform cfg s c good p).1.ledger = s.ledger ∧
      (perform cfg s c good p).1.lost = s.lost ∧
      surplus cfg (perform cfg s c good p).2 = surplus cfg p + unbacked p := by
  unfold launches at hl
  split at hl
  · subst hl
    exact ⟨rfl, rfl, rfl⟩
  · subst hl
    exact ⟨rfl, rfl, rfl⟩
  · cases hl

/-- With room at every launch, running sessions never exceed the capacity. -/
theorem running_within_capacity (h : Reached cfg (roomy cfg) w) :
    w.shared.running.length • amount cfg.budget ≤ amount cfg.capacity := by
  refine (h.keeps (I := fun w => Accounted cfg w ∧
    w.shared.running.length • amount cfg.budget ≤ amount cfg.capacity)
    ⟨accounted_initial cfg, ?_⟩ (fun w r hw _ => ⟨hw.1.call r, hw.2⟩) ?_ ?_).2
  · intro r
    simp [initial]
  · rintro w c good p s' p' ⟨hacc, hbound⟩ hok hp ha
    have hacc' := hacc.step hp ha
    refine ⟨hacc', ?_⟩
    cases hl : launches good p with
    | false =>
      have hle := (perform_effect (p := p) hacc.sound c good).2 hl
      rw [← (advance_some ha).2] at hle
      exact (nsmul_le_nsmul_left (fun _ => Nat.zero_le _) hle).trans hbound
    | true =>
      simp only [Meets, roomy, hp, hl, Bool.not_true, Bool.false_or, decide_eq_true_eq] at hok
      obtain ⟨hledger, hlost, hsurplus⟩ := @launch_effect cfg w.shared p c good hl
      rw [← (advance_some ha).2] at hledger hlost hsurplus
      have hset := sum_set (surplus cfg) hp p'
      have hsame : unreserved cfg ⟨s', w.calls.set c p'⟩ = unreserved cfg w + unbacked p := by
        unfold unreserved
        dsimp only at hlost hsurplus ⊢
        rw [hlost]
        omega
      refine (running_le hacc').trans ?_
      rw [hsame]
      refine le_trans (le_of_eq ?_) hok
      dsimp only at hledger
      rw [used, used, hledger]
  · rintro w c p s' p' ⟨hacc, hbound⟩ _ hp hd
    obtain ⟨hsound, used, made, hx⟩ := drop_accounts hacc.sound hd
    refine ⟨hacc.exchange hp hsound hx, ?_⟩
    change drop cfg w.shared c p = some (s', p') at hd
    unfold drop at hd
    split at hd
    · cases hd
      exact hbound
    · cases hd

/-- A start and a prewarm share the capacity of two sessions. -/
theorem running_within_capacity_shared : ∃ w, Reached twoSlots (roomy twoSlots) w ∧
    w.shared.running = [1, 0] ∧
    w.shared.running.length • amount twoSlots.budget ≤ amount twoSlots.capacity := by
  obtain ⟨w, hreach, hw⟩ := @reached_run twoSlots (roomy twoSlots)
    (.call (.start [1]) :: steps 0 10 ++ .call (.prewarmTemplate [2]) :: steps 1 6)
    (fun w => w.shared.running = [1, 0]) (by decide +kernel)
  exact ⟨w, hreach, of_decide_eq_true hw, running_within_capacity hreach⟩

/-- A prewarm launches beside the one session there is room for. -/
theorem prewarm_overcommits : ∃ (cfg : Config) (w : Adapter), Reached cfg uncancelled w ∧
    ¬ w.shared.running.length • amount cfg.budget ≤ amount cfg.capacity := by
  obtain ⟨w, hreach, hw⟩ := @reached_run (unitBudget ⟨1, 1, 1⟩ 0) uncancelled
    (.call (.start [1]) :: steps 0 10 ++ .call (.prewarmTemplate [2]) :: steps 1 4)
    (fun w => w.shared.running = [1, 0]) (by decide +kernel)
  refine ⟨_, w, hreach, fun hle => ?_⟩
  rw [of_decide_eq_true hw] at hle
  exact absurd (hle .cpus) (by decide)

end AdapterRunning
