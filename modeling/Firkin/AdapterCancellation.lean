import Firkin.AdapterQueue

/-! # Dropped futures

A call that is dropped between taking a reservation or a session and giving it back takes
both with it: nobody releases the reservation and nobody stops the session. Runs in which
only calls with empty hands are dropped, and every session the adapter stops and forgets does
stop, end with the accounts settled. -/
namespace AdapterCancellation

open AdmissionAmounts QueueMap Interleaving AdapterMachine AdapterTokens AdapterAccounting

variable {cfg : Config} {w : Adapter} {p : Phase} {c : Nat} {good : Bool}

/-- Awaits `stop_session` and ignores how it ends. -/
def ignoresStop : Phase → Bool
  | .restoring _ (_ :: _) | .abandoning .. | .prewarmStopping _ | .prewarmDropping .. => true
  | _ => false

/-- Only calls that hold neither a reservation nor a session are dropped, sessions that are
stopped on the way out do stop, and no timeout is too long. -/
def emptyHanded (cfg : Config) : Condition := fun w e => match e with
  | .call _ => true
  | .cancel c => match w.calls[c]? with
    | some p => (p.owns cfg).isEmpty
    | none => true
  | .step c good => match w.calls[c]? with
    | some p => (good || !ignoresStop p) && endsInTime cfg w.shared p
    | none => true

theorem discards_nil (h : Accounted cfg w) (hids : w.shared.issued ≤ idLimit)
    (hp : w.calls[c]? = some p) (hgood : (good || !ignoresStop p) = true)
    (hends : endsInTime cfg w.shared p = true) : discards cfg w.shared good p = [] := by
  unfold discards
  split
  · rw [configPanics_eq_false (of_decide_eq_true hends)]
    rfl
  · simp_all [ignoresStop]
  · simp_all [ignoresStop]
  · simp_all [ignoresStop]
  · simp_all [ignoresStop]
  · exact h.vacant hids hp rfl
  · split
    · rfl
    · exact h.vacant hids hp rfl
  · rfl

theorem nothing_lost (h : Reached cfg (emptyHanded cfg) w) (hids : w.shared.issued ≤ idLimit) :
    w.shared.lost = [] := by
  have hboth : Accounted cfg w ∧ (w.shared.issued ≤ idLimit → w.shared.lost = []) := by
    refine h.keeps
      (I := fun w => Accounted cfg w ∧ (w.shared.issued ≤ idLimit → w.shared.lost = []))
      ⟨accounted_initial cfg, fun _ => rfl⟩ (fun w r hw _ => ⟨hw.1.call r, hw.2⟩) ?_ ?_
    · intro w c good p s' p' ⟨hacc, hlost⟩ hok hp ha
      refine ⟨hacc.step hp ha, fun hle => ?_⟩
      obtain ⟨_, used, made, hx⟩ := hacc.accounts hp good
      have heq := (perform_effect (p := p) hacc.sound c good).1
      rw [← (advance_some ha).2] at hx heq
      have hids := (issued_le hx).trans hle
      simp only [Meets, emptyHanded, hp, Bool.and_eq_true_iff] at hok
      rw [heq, discards_nil hacc hids hp hok.1 hok.2, hlost hids]
      rfl
    · intro w c p s' p' ⟨hacc, hlost⟩ hok hp hd
      obtain ⟨hsound, used, made, hx⟩ := drop_accounts hacc.sound hd
      refine ⟨hacc.exchange hp hsound hx, fun hle => ?_⟩
      simp only [Meets, emptyHanded, hp, List.isEmpty_iff] at hok
      change drop cfg w.shared c p = some (s', p') at hd
      unfold drop at hd
      split at hd
      · cases hd
        rw [hok]
        exact hlost hle
      · cases hd
  exact hboth.2 hids

def finished : Phase → Bool
  | .done _ | .cancelled => true
  | _ => false

theorem owns_finished (h : finished p = true) : p.owns cfg = [] := by
  cases p <;> first | rfl | cases h

/-- With every call finished and nothing lost, all tokens are stored. -/
theorem tally_finished {M : Type} [AddCommMonoid M] (f : Token → M) (hlost : w.shared.lost = [])
    (hrest : ∀ p ∈ w.calls, finished p = true) :
    tally f cfg w =
      sumOver (fun sandbox session => weight f (session.tokens sandbox)) w.shared.active +
        total (fun report => f (.session report.session)) w.shared.warmSessions := by
  have hcalls : Interleaving.sum (fun p => weight f (p.owns cfg)) w.calls = 0 :=
    sum_eq_zero _ fun p hp => by rw [owns_finished (hrest p hp)]; rfl
  rw [tally, stored, hlost, hcalls, weight_nil, add_zero, add_zero]

theorem registered_reservation (h : Accounted cfg w) {sandbox : UInt64}
    (hs : w.shared.active[sandbox]? = some session) :
    session.reservation = .new cfg.budget := by
  have hle : weight (flaw cfg) (session.tokens sandbox) ≤ tally (flaw cfg) cfg w := by
    have hshare := le_sumOver (fun sandbox (session : FirkinRuntimeSession) =>
      weight (flaw cfg) (session.tokens sandbox)) hs
    unfold tally stored
    omega
  rw [h.unflawed] at hle
  refine AdapterQueue.reservation_eq ?_
  simp only [FirkinRuntimeSession.tokens, weight_cons] at hle
  omega

theorem mem_sum_map {α β : Type} {l : List α} {f : α → Multiset β} {x : β}
    (h : x ∈ (l.map f).sum) : ∃ a ∈ l, x ∈ f a := by
  induction l with
  | nil => exact absurd h (Multiset.notMem_zero x)
  | cons a l ih =>
    rw [List.map_cons, List.sum_cons, Multiset.mem_add] at h
    rcases h with h | h
    · exact ⟨a, List.mem_cons_self, h⟩
    · obtain ⟨a', ha', hx⟩ := ih h
      exact ⟨a', List.mem_cons_of_mem a ha', hx⟩

end AdapterCancellation
