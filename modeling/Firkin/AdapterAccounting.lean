import Firkin.AdapterTokens

/-! # Accounting over whole runs

`Accounted` holds of every state of every run, cancelled calls included: the active
reservations are the reservation tokens, the running sessions are the session tokens, and
names are distinct until the id counter saturates. -/
namespace AdapterAccounting

open Admission AdmissionAmounts QueueMap Interleaving AdapterMachine AdapterWarmPool AdapterTokens
open Multiset

variable {cfg : Config} {w : Adapter} {s s' : Shared} {p p' : Phase} {c : Nat}

/-- How many ids there are: the counter starts at zero and saturates. -/
def idLimit : Nat := 2 ^ 64 - 1

structure Accounted (cfg : Config) (w : Adapter) : Prop where
  sound : Sound cfg w.shared
  reserved : amount w.shared.ledger.active = tally load cfg w
  running : (w.shared.running : Multiset ℕ) = tally sessions cfg w
  unflawed : tally (flaw cfg) cfg w = 0
  counted : amount w.shared.ledger.active = tally held cfg w • amount cfg.budget
  alive : w.shared.running.length = tally alive cfg w
  counter : w.shared.nextSandbox.toNat = min w.shared.issued idLimit
  named : w.shared.issued ≤ idLimit →
    (tally names cfg w).Nodup ∧ ∀ x ∈ tally names cfg w, x.toNat ≤ w.shared.issued

theorem tally_initial {M : Type} [AddCommMonoid M] {f : Token → M} (cfg : Config) :
    tally f cfg (initial cfg) = 0 := by
  have hstored : stored f (initial cfg).shared = 0 + 0 + 0 := rfl
  rw [tally, hstored]
  exact (add_zero _).trans (by simp)

theorem accounted_initial (cfg : Config) : Accounted cfg (initial cfg) where
  sound := sound_initial cfg
  reserved := by
    rw [tally_initial]
    exact amount_zero
  running := by
    rfl
  unflawed := tally_initial cfg
  counted := by
    rw [tally_initial, zero_smul]
    exact amount_zero
  alive := (tally_initial cfg).symm
  counter := rfl
  named _ := by
    rw [tally_initial]
    exact ⟨nodup_zero, fun x hx => absurd hx (notMem_zero x)⟩

/-- Unflawed reservations are worth the adapter's budget each. -/
theorem weight_held (h : weight (flaw cfg) ts = 0) :
    weight load ts = weight held ts • amount cfg.budget := by
  induction ts with
  | nil => exact (zero_smul _ _).symm
  | cons t ts ih =>
    rw [weight_cons, Nat.add_eq_zero_iff] at h
    rw [weight_cons, weight_cons, add_smul, ih h.2]
    cases t with
    | reservation b =>
      have hb : b = cfg.budget := by
        by_contra hne
        simp [flaw, hne] at h
      rw [hb, held, one_smul]
      rfl
    | spent => simp [flaw] at h
    | session | name => simp [held, load]

theorem card_sessions : card (weight sessions ts) = weight AdapterTokens.alive ts := by
  induction ts with
  | nil => rfl
  | cons t ts ih =>
    rw [weight_cons, card_add, ih]
    cases t <;> rfl

theorem tally_exchange {M : Type} [AddCancelCommMonoid M] (f : Token → M)
    (hp : w.calls[c]? = some p) (hx : Exchange cfg w.shared p s' p' used made) :
    tally f cfg ⟨s', w.calls.set c p'⟩ + weight f used = tally f cfg w + weight f made := by
  have hset := sum_set (fun p => weight f (p.owns cfg)) hp p'
  have hbal := hx.balance M f
  refine add_right_cancel (b := weight f (p.owns cfg)) ?_
  unfold tally
  calc _ = stored f s' + (Interleaving.sum (fun p => weight f (p.owns cfg)) (w.calls.set c p') +
          weight f (p.owns cfg)) + weight f used := by abel
    _ = (stored f s' + weight f (p'.owns cfg) + weight f used) +
          Interleaving.sum (fun p => weight f (p.owns cfg)) w.calls := by rw [hset]; abel
    _ = _ := by rw [hbal]; abel

theorem owned_le {M : Type} [AddCommMonoid M] [PartialOrder M] [CanonicallyOrderedAdd M]
    (f : Token → M) (hp : w.calls[c]? = some p) : weight f (p.owns cfg) ≤ tally f cfg w :=
  (le_sum (fun p => weight f (p.owns cfg)) hp).trans le_add_self

theorem nextId_toNat (h : s.nextSandbox.toNat = min s.issued idLimit) :
    s.nextId.nextSandbox.toNat = min (s.issued + 1) idLimit := by
  have hsat : (saturatingAdd64 s.nextSandbox 1).toNat = min (s.issued + 1) idLimit := by
    rw [saturatingAdd64_toNat, h]
    change min (min s.issued idLimit + 1) idLimit = _
    omega
  have hpos : (1 : UInt64) ≤ saturatingAdd64 s.nextSandbox 1 := by
    rw [UInt64.le_iff_toNat_le, hsat]
    change 1 ≤ min (s.issued + 1) (2 ^ 64 - 1)
    omega
  have hmax : s.nextId.nextSandbox = if saturatingAdd64 s.nextSandbox 1 ≤ 1 then 1
      else saturatingAdd64 s.nextSandbox 1 := rfl
  rw [hmax, ← hsat]
  split
  · next hle => exact congrArg UInt64.toNat (UInt64.le_antisymm hpos hle)
  · rfl

theorem Accounted.exchange (h : Accounted cfg w) (hp : w.calls[c]? = some p) (hs : Sound cfg s')
    (hx : Exchange cfg w.shared p s' p' used made) : Accounted cfg ⟨s', w.calls.set c p'⟩ where
  sound := hs
  reserved := by
    refine add_right_cancel (b := weight load used) ?_
    rw [hx.reserved, h.reserved, tally_exchange load hp hx]
  running := by
    refine add_right_cancel (b := weight sessions used) ?_
    rw [hx.running, h.running, tally_exchange sessions hp hx]
  unflawed := by
    have := tally_exchange (flaw cfg) hp hx
    rw [h.unflawed, hx.unflawed] at this
    omega
  counted := by
    have hflaw := hx.balance ℕ (flaw cfg)
    have hzero : stored (flaw cfg) w.shared + weight (flaw cfg) (p.owns cfg) = 0 := by
      have h1 := h.unflawed
      have h2 : weight (flaw cfg) (p.owns cfg) ≤ tally (flaw cfg) cfg w := owned_le (flaw cfg) hp
      unfold tally at h1 h2
      omega
    have hused : weight (flaw cfg) used = 0 := by
      have := hx.unflawed
      omega
    have hheld := tally_exchange held hp hx
    refine add_right_cancel (b := weight load used) ?_
    rw [hx.reserved, h.counted, weight_held hused, weight_held hx.unflawed, ← add_smul, ← add_smul,
      hheld]
  alive := by
    have hcard := congrArg card hx.running
    simp only [card_add, coe_card, card_sessions] at hcard
    have htally := tally_exchange AdapterTokens.alive hp hx
    have hold := h.alive
    dsimp only
    omega
  counter := by
    rcases hx.numbered with ⟨hn, hi, _⟩ | ⟨hn, hi, _⟩
    · rw [hn, hi]
      exact h.counter
    · rw [hn, hi]
      exact nextId_toNat h.counter
  named hle := by
    have hx' := tally_exchange names hp hx
    have hsub : tally names cfg ⟨s', w.calls.set c p'⟩ ≤ tally names cfg w + weight names made := by
      rw [← hx']
      exact le_self_add
    rcases hx.numbered with ⟨hn, hi, hmade⟩ | ⟨hn, hi, hmade⟩
    · obtain ⟨hnodup, hbound⟩ := h.named (by simpa [hi] using hle)
      rw [hmade, add_zero] at hsub
      exact ⟨nodup_of_le hsub hnodup, fun x hx => by
        rw [hi]
        exact hbound x (mem_of_le hsub hx)⟩
    · have hroom : w.shared.issued + 1 ≤ idLimit := by simpa [hi] using hle
      obtain ⟨hnodup, hbound⟩ := h.named (by omega)
      have hnew : s'.nextSandbox.toNat = w.shared.issued + 1 := by
        rw [hn, nextId_toNat h.counter]
        exact min_eq_left hroom
      rw [hmade, add_comm, singleton_add] at hsub
      refine ⟨nodup_of_le hsub (nodup_cons.mpr ⟨fun hmem => ?_, hnodup⟩), ?_⟩
      · have := hbound _ hmem
        omega
      · intro x hx
        rw [hi]
        rcases mem_cons.mp (mem_of_le hsub hx) with rfl | hx
        · exact hnew.le
        · exact (hbound x hx).trans (Nat.le_succ _)

theorem advance_some (h : advance cfg s c good p = some r) :
    blocked s c p = false ∧ r = perform cfg s c good p := by
  unfold advance at h
  split at h
  · cases h
  · next hb => exact ⟨Bool.eq_false_iff.mpr hb, (Option.some.inj h).symm⟩

theorem Accounted.accounts (h : Accounted cfg w) (hp : w.calls[c]? = some p) (good : Bool) :
    Accounts cfg w.shared p (perform cfg w.shared c good p) :=
  perform_accounts h.sound (h.reserved ▸ owned_le load hp) (h.running ▸ owned_le sessions hp) c good

theorem Accounted.step (h : Accounted cfg w) (hp : w.calls[c]? = some p)
    (ha : advance cfg w.shared c good p = some (s', p')) :
    Accounted cfg ⟨s', w.calls.set c p'⟩ := by
  obtain ⟨hsound, used, made, hx⟩ := h.accounts hp good
  rw [← (advance_some ha).2] at hsound hx
  exact h.exchange hp hsound hx

theorem drop_accounts (hs : Sound cfg s) (hd : drop cfg s c p = some (s', p')) :
    Accounts cfg s p (s', p') := by
  unfold drop at hd
  split at hd
  · cases hd
    refine ⟨hs.of_eq rfl rfl rfl, [], [], fun M _ f => ?_, rfl, rfl, rfl, .inl ⟨rfl, rfl, rfl⟩⟩
    simp only [stored, Phase.owns, weight_append, weight_nil]
    abel
  · cases hd

theorem Accounted.call (h : Accounted cfg w) (r : Request) :
    Accounted cfg ⟨w.shared, w.calls ++ [enter r]⟩ := by
  have htally : ∀ (M : Type) [AddCommMonoid M] (f : Token → M),
      tally f cfg ⟨w.shared, w.calls ++ [enter r]⟩ = tally f cfg w := by
    have hnone : (enter r).owns cfg = [] := by cases r <;> rfl
    simp [tally, hnone]
  obtain ⟨h1, h2, h3, h4, h5, h6, h7, h8⟩ := h
  constructor <;> simp only [htally] <;> assumption

theorem accounted (h : Reached cfg ok w) : Accounted cfg w := by
  refine h.keeps (accounted_initial cfg) (fun w r hw _ => hw.call r) ?_ ?_
  · intro w c good p s' p' hw _ hp ha
    exact hw.step hp ha
  · intro w c p s' p' hw _ hp hd
    obtain ⟨hsound, used, made, hx⟩ := drop_accounts hw.sound hd
    exact hw.exchange hp hsound hx

/-- Whether the sandbox of a configuration that is made now ends in time to have a date. -/
def endsInTime (cfg : Config) (s : Shared) : Phase → Bool
  | .requesting _ timeout | .admitted timeout _ =>
    (cfg.clock s.issued).now + EndTimes.addedSeconds timeout ≤ HostAdapter.lastSecond
  | _ => true

/-- Every timeout is short enough when its configuration is made. -/
def dated (cfg : Config) : Condition := fun w e => match e with
  | .step c _ => (w.calls[c]?).all (endsInTime cfg w.shared)
  | _ => true

theorem configPanics_eq_false {timeout : Option UInt64}
    (h : (cfg.clock s.issued).now + EndTimes.addedSeconds timeout ≤ HostAdapter.lastSecond) :
    s.configPanics cfg timeout = false := by
  rw [Shared.configPanics, Option.isNone_eq_false_iff, Option.isSome_iff_ne_none]
  exact (EndTimes.runtime_iff _ _).mpr h

/-- What a step drops: a session that did not stop, what an id named before, or what a call
held that panics. -/
def discards (cfg : Config) (s : Shared) (good : Bool) : Phase → List Token
  | .admitted timeout evicted =>
    if s.configPanics cfg timeout then .reservation cfg.budget :: evicted.map .session else []
  | .restoring _ (x :: _) | .abandoning ⟨x, _⟩ _ | .prewarmStopping x | .prewarmDropping _ x _ =>
    if good then [] else [.session x]
  | .registering sandbox _ => s.overwritten sandbox
  | .ending sandbox _ => if good then [] else s.overwritten sandbox
  | _ => []

def launches (good : Bool) : Phase → Bool
  | .restoring _ [] | .prewarmRestoring _ => good
  | _ => false

theorem stopIgnored_effect (s : Shared) (x : Nat) (good : Bool) :
    (s.stopIgnored x good).lost = (if good then [] else [.session x]) ++ s.lost ∧
      (s.stopIgnored x good).running.length ≤ s.running.length := by
  cases good with
  | true => exact ⟨rfl, List.length_erase_le⟩
  | false => exact ⟨rfl, le_rfl⟩

/-- What a step drops is recorded as lost, and only a launch adds a running session. -/
theorem perform_effect (hs : Sound cfg s) (c : Nat) (good : Bool) :
    (perform cfg s c good p).1.lost = discards cfg s good p ++ s.lost ∧
      (launches good p = false →
        (perform cfg s c good p).1.running.length ≤ s.running.length) := by
  have hstop {q : Phase} (x : Nat) :=
    (stopIgnored_effect s x good).imp_right fun h (_ : launches good q = false) => h
  cases p with
  | requesting template timeout =>
    rcases requestWarm_spec hs template timeout with
      ⟨_, hr⟩ | hr | ⟨_, _, _, _, _, _, _, _, hr, _⟩ <;>
    · simp only [perform, hr]
      exact ⟨rfl, fun _ => le_rfl⟩
  | planning timeout again =>
    rcases reserve_spec hs timeout again with ⟨_, _, _, _, hr, _⟩ | ⟨_, _, hr⟩ | ⟨_, _, hr, _⟩ <;>
    · simp only [perform, hr]
      exact ⟨rfl, fun _ => le_rfl⟩
  | restoring sandbox evicted =>
    cases evicted with
    | nil =>
      cases good with
      | true => exact ⟨rfl, fun hl => Bool.noConfusion hl⟩
      | false => exact ⟨rfl, fun _ => le_rfl⟩
    | cons x evicted => exact hstop x
  | prewarmRestoring job =>
    cases good with
    | true => exact ⟨rfl, fun hl => Bool.noConfusion hl⟩
    | false => exact ⟨rfl, fun _ => le_rfl⟩
  | abandoning held why => exact hstop held.session
  | prewarmStopping x | prewarmDropping job x why => exact hstop x
  | ending sandbox removed =>
    cases good with
    | true => exact ⟨rfl, fun _ => List.length_erase_le⟩
    | false => exact ⟨rfl, fun _ => le_rfl⟩
  | admitted timeout evicted =>
    simp only [perform, discards]
    split <;> exact ⟨rfl, fun _ => le_rfl⟩
  | unpolled | releasing r why | stopping sandbox | cleaning r =>
    simp only [perform]
    split <;> exact ⟨rfl, fun _ => le_rfl⟩
  | prewarmRetaining job x =>
    simp only [perform]
    split
    · exact ⟨rfl, fun _ => le_rfl⟩
    · split <;> exact ⟨rfl, fun _ => le_rfl⟩
  | spawning server sandbox held => cases server <;> exact ⟨rfl, fun _ => le_rfl⟩
  | _ => exact ⟨rfl, fun _ => le_rfl⟩

section
variable (h : Accounted cfg w) (hids : w.shared.issued ≤ idLimit) (hp : w.calls[c]? = some p)
include h hids hp

/-- An id that a call holds names no registered session, as long as ids are not reused. -/
theorem Accounted.vacant {held : FirkinRuntimeSession} 
    (howns : p.owns cfg = held.tokens sandbox) : w.shared.overwritten sandbox = [] := by
  have hcall : ({sandbox} : Multiset UInt64) ≤
      Interleaving.sum (fun p => weight names (p.owns cfg)) w.calls := by
    refine le_trans ?_ (le_sum (fun p => weight names (p.owns cfg)) hp)
    simp only [howns]
    exact le_self_add
  unfold Shared.overwritten
  cases hold : w.shared.active[sandbox]? with
  | none => rfl
  | some old =>
    have hshare : ({sandbox} : Multiset UInt64) ≤
        sumOver (fun sandbox session => weight names (session.tokens sandbox)) w.shared.active := by
      refine le_trans ?_ (le_sumOver _ hold)
      exact le_self_add
    have htwice : ({sandbox} : Multiset UInt64) + {sandbox} ≤ tally names cfg w :=
      add_le_add ((hshare.trans le_self_add).trans le_self_add) hcall
    have hnodup := nodup_of_le htwice (h.named hids).1
    rw [singleton_add] at hnodup
    exact absurd (mem_singleton_self sandbox) (nodup_cons.mp hnodup).1

/-- Without reused ids and with short timeouts only sessions that did not stop are dropped. -/
theorem Accounted.discards (hends : endsInTime cfg w.shared p = true) :
    ∀ t ∈ discards cfg w.shared good p, good = false ∧ ∃ x, t = .session x := by
  have hone : ∀ x : Nat, ∀ t ∈ (if good then [] else [Token.session x]),
      good = false ∧ ∃ x, t = .session x := by
    intro x t ht
    cases good with
    | true => cases ht
    | false => exact ⟨rfl, x, List.mem_singleton.mp ht⟩
  intro t ht
  unfold AdapterAccounting.discards at ht
  split at ht
  · rw [configPanics_eq_false (of_decide_eq_true hends)] at ht
    cases ht
  · exact hone _ t ht
  · exact hone _ t ht
  · exact hone _ t ht
  · exact hone _ t ht
  · rw [h.vacant hids hp rfl] at ht
    cases ht
  · split at ht
    · cases ht
    · rw [h.vacant hids hp rfl] at ht
      cases ht
  · cases ht
end

theorem issued_le (hx : Exchange cfg s p s' p' used made) : s.issued ≤ s'.issued := by
  rcases hx.numbered with ⟨_, hi, _⟩ | ⟨_, hi, _⟩ <;> omega

/-- No call is dropped, by its caller or by a panic. -/
def undisturbed (cfg : Config) : Condition := fun w e => uncancelled w e && dated cfg w e

/-- Then nothing but sessions that did not stop is ever lost. -/
theorem lost_sessions (h : Reached cfg (undisturbed cfg) w) (hids : w.shared.issued ≤ idLimit) :
    ∀ t ∈ w.shared.lost, ∃ x, t = .session x := by
  have hboth : Accounted cfg w ∧
      (w.shared.issued ≤ idLimit → ∀ t ∈ w.shared.lost, ∃ x, t = .session x) := by
    refine h.keeps (I := fun w => Accounted cfg w ∧
      (w.shared.issued ≤ idLimit → ∀ t ∈ w.shared.lost, ∃ x, t = .session x))
      ⟨accounted_initial cfg, fun _ t ht => nomatch ht⟩
      (fun w r hw _ => ⟨hw.1.call r, hw.2⟩) ?_ fun w c p s' p' _ hok => nomatch hok
    intro w c good p s' p' ⟨hacc, hlost⟩ hok hp ha
    refine ⟨hacc.step hp ha, fun hle t ht => ?_⟩
    have hends := (Bool.and_eq_true_iff.mp hok).2
    simp only [dated, hp, Option.all_some] at hends
    obtain ⟨_, used, made, hx⟩ := hacc.accounts hp good
    rw [← (advance_some ha).2] at hx
    have hids := (issued_le hx).trans hle
    have heq := (perform_effect (p := p) hacc.sound c good).1
    rw [← (advance_some ha).2] at heq
    rcases List.mem_append.mp (heq ▸ ht) with ht | ht
    · exact (hacc.discards hids hp hends t ht).2
    · exact hlost hids t ht
  exact hboth.2 hids

def failure : Phase → Option Failure
  | .abandoning _ why | .releasing _ why | .notifying why | .done (.failed why) => some why
  | _ => none

def Plain : Failure → Bool
  | .entryDisappeared _ | .missingRetainedSession _ | .noRetainedSession _ | .rejected .. => false
  | _ => true

theorem finish_failure {job : PrewarmJob} {r why}
    (h : failure (job.finish r) = some why) : r = .error why := by
  unfold PrewarmJob.finish at h
  split at h
  · cases h; rfl
  · cases h
  · cases h
  · cases h

theorem turn_failure (pass : MaintainPass) (pool : WarmPoolLedger) :
    failure (pass.turn pool) = none := by
  unfold MaintainPass.turn
  split
  · rfl
  · dsimp only
    split <;> rfl

/-- A failure is inherited, plain, or the rejection of a plan. -/
theorem perform_failure (hs : Sound cfg s) (h : failure (perform cfg s c good p).2 = some why) :
    failure p = some why ∨ Plain why = true ∨
      ∃ timeout again rejection, p = .planning timeout again ∧
        why = .rejected again (some rejection) ∧
        ((∃ error, rejection = .oversized error) ∨
          (rejection = .queueFull cfg.activeQueuePolicy.maxPending s.queue.pending ∧
            cfg.activeQueuePolicy.maxPending ≤ s.queue.pending)) := by
  cases p with
  | requesting template timeout =>
    rcases requestWarm_spec hs template timeout with
      ⟨_, hr⟩ | hr | ⟨_, _, _, _, _, _, _, _, hr, _⟩ <;>
    simp only [perform, hr] at h <;> cases h
    exact .inr (.inl rfl)
  | planning timeout again =>
    rcases reserve_spec hs timeout again with
      ⟨_, _, _, _, hr, _⟩ | ⟨_, _, hr⟩ | ⟨_, rejection, hr, hwhy⟩ <;>
    simp only [perform, hr] at h <;> cases h
    exact .inr (.inr ⟨timeout, again, rejection, rfl, rfl, hwhy⟩)
  | arrived | checking | probing sandbox held | ending sandbox removed =>
    cases good <;> cases h
    exact .inr (.inl rfl)
  | spawning server sandbox held =>
    cases server <;> cases good <;> cases h
    · exact .inr (.inl rfl)
    · exact .inr (.inl rfl)
  | restoring sandbox evicted =>
    cases evicted with
    | nil =>
      cases good <;> cases h
      exact .inr (.inl rfl)
    | cons x evicted => cases h
  | abandoning | notifying => exact .inl h
  | releasing r why' =>
    simp only [perform] at h
    split at h <;> exact .inl h
  | unpolled | prewarmAsked =>
    simp only [perform] at h
    split at h <;> cases h
  | prewarmChecking job =>
    cases good with
    | true => cases h
    | false =>
      cases @finish_failure job (.error .check) why h
      exact .inr (.inl rfl)
  | prewarmReady job =>
    simp only [perform] at h
    split at h
    · cases finish_failure h
    · cases h
  | prewarmRestoring job =>
    cases good with
    | true => cases h
    | false =>
      cases @finish_failure job (.error .launch) why h
      exact .inr (.inl rfl)
  | prewarmProbing job x => cases good <;> cases h
  | prewarmStopping x =>
    cases h
    exact .inr (.inl rfl)
  | prewarmRetaining job x =>
    simp only [perform] at h
    split at h
    · cases h
    · split at h
      · cases h
      · cases finish_failure h
  | prewarmDropping job x why' =>
    have hw := finish_failure h
    cases why' with
    | none => cases hw
    | some error =>
      cases hw
      exact .inr (.inl rfl)
  | maintaining pass =>
    rw [perform, turn_failure] at h
    cases h
  | cleaning r =>
    simp only [perform] at h
    split at h <;> cases good <;> cases h <;> exact .inr (.inl rfl)
  | done outcome => exact .inl h
  | stopping _ | admitted _ _ =>
    simp only [perform] at h
    split at h <;> cases h
    exact .inr (.inl rfl)
  | waiting | resumed | registering _ _ | cancelled => cases h

end AdapterAccounting
