import Firkin.AdapterWarmPool
import Mathlib.Algebra.Order.Group.Multiset

/-! # Who holds what

Sessions, reservations and names are tokens. Every one of them is with a registered session,
with a retained one, with a call, or lost, and a step moves tokens between these places. It
makes or uses up tokens only where the ledger's active reservations or the set of running
sessions change with them. -/
namespace AdapterTokens

open Admission AdmissionAmounts QueueMap Interleaving AdapterMachine AdapterWarmPool

section
variable {M : Type} [AddCommMonoid M] (f : Token → M)

def weight (ts : List Token) : M := (ts.map f).sum

@[simp] theorem weight_nil : weight f [] = 0 := rfl

@[simp] theorem weight_cons : weight f (t :: ts) = f t + weight f ts := by
  simp [weight]

@[simp] theorem weight_append : weight f (ts ++ us) = weight f ts + weight f us := by
  simp [weight]

theorem weight_perm (h : ts.Perm us) : weight f ts = weight f us :=
  (h.map f).sum_eq

theorem weight_sessions (xs : List Nat) :
    weight f (xs.map .session) = (xs.map fun x => f (.session x)).sum := by
  rw [weight, List.map_map]
  rfl

def stored (s : Shared) : M :=
  sumOver (fun sandbox session => weight f (session.tokens sandbox)) s.active +
    total (fun report => f (.session report.session)) s.warmSessions + weight f s.lost

def tally (cfg : Config) (w : Adapter) : M :=
  stored f w.shared + Interleaving.sum (fun p => weight f (p.owns cfg)) w.calls
end

def load : Token → Load
  | .reservation b => amount b
  | _ => 0

def sessions : Token → Multiset ℕ
  | .session x => {x}
  | _ => 0

def names : Token → Multiset UInt64
  | .name x => {x}
  | _ => 0

def held : Token → ℕ
  | .reservation _ | .spent => 1
  | _ => 0

def alive : Token → ℕ
  | .session _ => 1
  | _ => 0

/-- A reservation that is not the adapter's budget, or is no longer one. -/
def flaw (cfg : Config) : Token → ℕ
  | .reservation b => if b = cfg.budget then 0 else 1
  | .spent => 1
  | _ => 0

/-- Tokens that come and go without the ledger or the running sessions. -/
def Token.Idle (t : Token) : Prop := load t = 0 ∧ sessions t = 0

theorem idle_name (x : UInt64) : Token.Idle (.name x) := ⟨rfl, rfl⟩

theorem idle_spent : Token.Idle .spent := ⟨rfl, rfl⟩

variable {cfg : Config} {s s' : Shared} {p p' : Phase} {used made : List Token}

theorem weight_idle {M : Type} [AddCommMonoid M] {f : Token → M} (h : ∀ t ∈ used, f t = 0) :
    weight f used = 0 :=
  List.sum_eq_zero fun x hx => by
    obtain ⟨t, ht, rfl⟩ := List.mem_map.mp hx
    exact h t ht

/-- What one step does to the tokens: it uses some up and makes some. -/
structure Exchange (cfg : Config) (s : Shared) (p : Phase) (s' : Shared) (p' : Phase)
    (used made : List Token) : Prop where
  balance : ∀ (M : Type) [AddCancelCommMonoid M] (f : Token → M),
    stored f s' + weight f (p'.owns cfg) + weight f used =
      stored f s + weight f (p.owns cfg) + weight f made
  reserved : amount s'.ledger.active + weight load used = amount s.ledger.active + weight load made
  running : (s'.running : Multiset ℕ) + weight sessions used =
    (s.running : Multiset ℕ) + weight sessions made
  unflawed : weight (flaw cfg) made = 0
  numbered : (s'.nextSandbox = s.nextSandbox ∧ s'.issued = s.issued ∧ weight names made = 0) ∨
    (s'.nextSandbox = s.nextId.nextSandbox ∧ s'.issued = s.issued + 1 ∧
      weight names made = {s'.nextSandbox})

/-- A step that leaves the accounts alone: only the lock and the queue may change. -/
structure Quiet (s s' : Shared) : Prop where
  ledger : s'.ledger = s.ledger
  active : s'.active = s.active
  warmPool : s'.warmPool = s.warmPool
  warmSessions : s'.warmSessions = s.warmSessions
  running : s'.running = s.running
  lost : s'.lost = s.lost
  nextSandbox : s'.nextSandbox = s.nextSandbox
  issued : s'.issued = s.issued

theorem Quiet.refl (s : Shared) : Quiet s s := ⟨rfl, rfl, rfl, rfl, rfl, rfl, rfl, rfl⟩

theorem Quiet.sound (h : Quiet s s') (hs : Sound cfg s) : Sound cfg s' :=
  hs.of_eq h.ledger h.warmPool h.warmSessions

theorem Quiet.stored {M : Type} [AddCommMonoid M] (h : Quiet s s') (f : Token → M) :
    stored f s' = stored f s := by
  unfold AdapterTokens.stored
  rw [h.active, h.warmSessions, h.lost]

/-- What a step does to the accounts, sound as they are before and after. -/
def Accounts (cfg : Config) (s : Shared) (p : Phase) (r : Shared × Phase) : Prop :=
  Sound cfg r.1 ∧ ∃ used made, Exchange cfg s p r.1 r.2 used made

theorem Accounts.then_quiet {s'' : Shared} (h : Accounts cfg s p (s', p')) (hq : Quiet s' s'') :
    Accounts cfg s p (s'', p') := by
  obtain ⟨hs, used, made, hx⟩ := h
  refine ⟨hq.sound hs, used, made, fun M _ f => ?_, ?_, ?_, hx.unflawed, ?_⟩
  · rw [hq.stored]
    exact hx.balance M f
  · rw [hq.ledger]
    exact hx.reserved
  · rw [hq.running]
    exact hx.running
  · rw [hq.nextSandbox, hq.issued]
    exact hx.numbered

section
variable (hs : Sound cfg s)
include hs

theorem accounts_quiet (h : Quiet s s') (hidle : ∀ t ∈ used, Token.Idle t)
    (howns : (p.owns cfg).Perm (used ++ p'.owns cfg)) : Accounts cfg s p (s', p') := by
  refine ⟨h.sound hs, used, [], fun M _ f => ?_, ?_, ?_, rfl, .inl ⟨h.nextSandbox, h.issued, rfl⟩⟩
  · rw [h.stored, weight_perm f howns, weight_append, weight_nil]
    abel
  · rw [h.ledger, weight_idle fun t ht => (hidle t ht).1, weight_nil]
  · rw [h.running, weight_idle fun t ht => (hidle t ht).2, weight_nil]

theorem accounts_goto (h : Quiet s s') (howns : p.owns cfg = p'.owns cfg) :
    Accounts cfg s p (s', p') :=
  @accounts_quiet cfg s s' p p' [] hs h (fun _ ht => nomatch ht) (by rw [howns]; rfl)

theorem accounts_unnamed (howns : p.owns cfg = .name x :: p'.owns cfg) : Accounts cfg s p (s, p') :=
  @accounts_quiet cfg s s p p' [.name x] hs (Quiet.refl s)
    (fun t ht => List.mem_singleton.mp ht ▸ idle_name x) (by rw [howns]; rfl)
end

theorem running_erase {x : Nat} {xs : List Nat} (h : x ∈ xs) :
    ((xs.erase x : List ℕ) : Multiset ℕ) + {x} = (xs : Multiset ℕ) := by
  rw [add_comm]
  exact Multiset.cons_erase (Multiset.mem_coe.mpr h)

theorem mem_running (hrun : weight sessions (p.owns cfg) ≤ (s.running : Multiset ℕ))
    (hx : Token.session x ∈ p.owns cfg) : x ∈ s.running := by
  have hmem : sessions (.session x) ≤ weight sessions (p.owns cfg) :=
    List.single_le_sum (fun _ _ => Multiset.zero_le _) _ (List.mem_map.mpr ⟨_, hx, rfl⟩)
  exact Multiset.mem_coe.mp (Multiset.singleton_le.mp (hmem.trans hrun))

theorem accounts_ended (hs : Sound cfg s) (hx : x ∈ s.running)
    (hidle : ∀ t ∈ used, Token.Idle t)
    (howns : (p.owns cfg).Perm (.session x :: used ++ p'.owns cfg)) :
    Accounts cfg s p (s.ended x, p') := by
  refine ⟨hs.of_eq rfl rfl rfl, .session x :: used, [], fun M _ f => ?_, ?_, ?_, rfl,
    .inl ⟨rfl, rfl, rfl⟩⟩
  · rw [weight_perm f howns, weight_append, weight_nil]
    change stored f s + _ + _ = _
    abel
  · rw [weight_cons, weight_idle fun t ht => (hidle t ht).1]
    rfl
  · rw [weight_cons, weight_idle fun t ht => (hidle t ht).2, weight_nil, add_zero, add_zero]
    exact running_erase hx

/-- A session that is stopped leaves; one that does not stop is lost. -/
theorem accounts_stopIgnored (hs : Sound cfg s) (hx : x ∈ s.running) (good : Bool)
    (howns : (p.owns cfg).Perm (.session x :: p'.owns cfg)) :
    Accounts cfg s p (s.stopIgnored x good, p') := by
  cases good with
  | true => exact @accounts_ended cfg s p p' [] x hs hx (fun _ ht => nomatch ht) howns
  | false =>
    refine ⟨hs.of_eq rfl rfl rfl, [], [], fun M _ f => ?_, rfl, rfl, rfl, .inl ⟨rfl, rfl, rfl⟩⟩
    rw [weight_perm f howns]
    simp only [stored, Shared.stopIgnored, Bool.false_eq_true, if_false, weight_cons]
    abel

theorem accounts_launch (hs : Sound cfg s)
    (howns : (p'.owns cfg).Perm (.session s.launched :: p.owns cfg)) :
    Accounts cfg s p (s.launch, p') := by
  refine ⟨hs.of_eq rfl rfl rfl, [], [.session s.launched], fun M _ f => ?_, rfl, ?_, rfl,
    .inl ⟨rfl, rfl, rfl⟩⟩
  · rw [weight_perm f howns]
    simp only [weight_cons, weight_nil, add_zero]
    change stored f s + _ = _
    abel
  · change ((s.launched :: s.running : List ℕ) : Multiset ℕ) + 0 = _
    rw [add_zero, ← Multiset.cons_coe, add_comm]
    rfl

theorem weight_overwritten {M : Type} [AddCommMonoid M] (f : Token → M) (s : Shared)
    (sandbox : UInt64) :
    weight f (s.overwritten sandbox) =
      share (fun sandbox session => weight f (session.tokens sandbox)) s.active sandbox := by
  unfold share Shared.overwritten
  cases s.active[sandbox]? <;> rfl

theorem stored_register {M : Type} [AddCancelCommMonoid M] (f : Token → M) (s : Shared)
    (sandbox : UInt64) (held : FirkinRuntimeSession) :
    stored f (s.register sandbox held) = stored f s + weight f (held.tokens sandbox) := by
  have hinsert := sumOver_insert
    (fun sandbox (session : FirkinRuntimeSession) => weight f (session.tokens sandbox))
  simp only [stored, Shared.register, weight_append, weight_overwritten]
  calc _ = (sumOver (fun sandbox (session : FirkinRuntimeSession) =>
            weight f (session.tokens sandbox)) (s.active.insert sandbox held) +
        share (fun sandbox session => weight f (session.tokens sandbox)) s.active sandbox) +
        total (fun report => f (.session report.session)) s.warmSessions +
          weight f s.lost := by abel
    _ = _ := by rw [hinsert]; abel

section
variable (hs : Sound cfg s)
include hs

theorem accounts_register {held : FirkinRuntimeSession}
    (howns : p.owns cfg = held.tokens sandbox) (howns' : p'.owns cfg = []) :
    Accounts cfg s p (s.register sandbox held, p') := by
  refine ⟨hs.of_eq rfl rfl rfl, [], [], fun M _ f => ?_, rfl, rfl, rfl, .inl ⟨rfl, rfl, rfl⟩⟩
  rw [stored_register, howns, howns']
  simp only [weight_nil, add_zero]

theorem accounts_remove {lock : Option Nat}
    (hr : s.active[sandbox]? = some removed) (howns : p.owns cfg = [])
    (howns' : p'.owns cfg = removed.tokens sandbox) :
    Accounts cfg s p ({ s with active := s.active.erase sandbox, lock }, p') := by
  refine ⟨hs.of_eq rfl rfl rfl, [], [], fun M _ f => ?_, rfl, rfl, rfl, .inl ⟨rfl, rfl, rfl⟩⟩
  have herase := sumOver_erase
    (fun sandbox (session : FirkinRuntimeSession) => weight f (session.tokens sandbox))
    s.active sandbox
  simp only [share, hr] at herase
  rw [howns, howns']
  simp only [stored, weight_nil]
  rw [← herase]
  abel

/-- Giving a reservation back; one given back before changes nothing. -/
theorem accounts_release {r : ActiveSessionReservation}
    (hload : weight load (p.owns cfg) ≤ amount s.ledger.active)
    (hr : r.releaseInto s.ledger = (out, r', ledger)) (howns : p.owns cfg = [r.token])
    (howns' : p'.owns cfg = []) : Accounts cfg s p ({ s with ledger }, p') := by
  obtain ⟨b, released⟩ := r
  cases released with
  | true =>
    cases hr
    exact @accounts_quiet cfg s s p p' [.spent] hs (Quiet.refl s)
      (fun t ht => List.mem_singleton.mp ht ▸ idle_spent) (by rw [howns, howns']; rfl)
  | false =>
    cases hr
    have hle : amount b ≤ amount s.ledger.active := by
      rw [howns] at hload
      simpa [ActiveSessionReservation.token, load] using hload
    refine ⟨hs.releaseActive b, [.reservation b], [], fun M _ f => ?_, ?_, rfl, rfl,
      .inl ⟨rfl, rfl, rfl⟩⟩
    · rw [howns, howns']
      simp only [weight_nil, add_zero]
      rfl
    · change amount (s.ledger.active - b) + (amount b + 0) = amount s.ledger.active + 0
      rw [amount_sub]
      exact tsub_add_cancel_of_le hle

/-- The id is gone, and what the call held is lost. -/
theorem accounts_panic (howns' : p'.owns cfg = []) :
    Accounts cfg s p ({ s.nextId with lost := p.owns cfg ++ s.lost }, p') := by
  refine ⟨hs.of_eq rfl rfl rfl, [.name s.nextId.nextSandbox], [.name s.nextId.nextSandbox],
    fun M _ f => ?_, rfl, rfl, rfl, .inr ⟨rfl, rfl, rfl⟩⟩
  simp only [howns', stored, Shared.nextId, weight_append, weight_nil]
  abel

theorem accounts_requestWarm (template : Ext4Types.Str) (timeout : Option UInt64) :
    Accounts cfg s (.requesting template timeout) (s.requestWarm cfg template timeout) := by
  rcases requestWarm_spec hs template timeout with
    ⟨_, hr⟩ | hr | ⟨x, ledger, rest, e, reports, _, hq, hactive, hr, hsound⟩
  · rw [hr]
    exact accounts_goto hs (Quiet.refl s) rfl
  · rw [hr]
    exact accounts_panic hs rfl
  · rw [hr] at hsound ⊢
    refine ⟨hsound, [], [.name s.nextId.nextSandbox, .reservation cfg.budget], fun M _ f => ?_, ?_,
      rfl, ?_, .inr ⟨rfl, rfl, ?_⟩⟩
    · have hpop := total_pop (fun r : WarmPoolMaintenanceReport => f (.session r.session)) hq
      simp only [stored, Phase.owns, FirkinRuntimeSession.tokens, ActiveSessionReservation.new,
        Shared.nextId, weight_cons, weight_nil]
      rw [← hpop]
      abel
    · simp only [hactive, weight_cons, load]
      abel
    · simp [flaw]
    · simp [names]

theorem accounts_reserve (timeout : Option UInt64) (again : Bool) :
    Accounts cfg s (.planning timeout again)
      (s.reserveActiveRestoreCapacity cfg timeout again) := by
  rcases reserve_spec hs timeout again with
    ⟨ledger, pool, warm, evicted, hr, hsound, _, hactive, htotal⟩ | ⟨_, _, hr⟩ | ⟨_, _, hr, _⟩
  · rw [hr]
    refine ⟨hsound, [], [.reservation cfg.budget], fun M _ f => ?_, ?_, rfl, ?_,
      .inl ⟨rfl, rfl, ?_⟩⟩
    · simp only [stored, Phase.owns, weight_cons, weight_nil, weight_sessions]
      rw [← htotal M fun x => f (.session x)]
      abel
    · simp only [hactive, weight_cons, weight_nil, load, add_zero]
    · simp [flaw]
    · simp [names]
  · rw [hr]
    exact accounts_goto hs ⟨rfl, rfl, rfl, rfl, rfl, rfl, rfl, rfl⟩ rfl
  · rw [hr]
    exact accounts_goto hs (Quiet.refl s) rfl
end

theorem finish_owns (job : PrewarmJob) (r : Except Failure Bool) :
    (job.finish r).owns cfg = [] := by
  unfold PrewarmJob.finish
  split <;> rfl

theorem turn_owns (pass : MaintainPass) : (pass.turn pool).owns cfg = [] := by
  unfold MaintainPass.turn
  split
  · rfl
  · dsimp only
    split <;> rfl

theorem accounts_retain (hs : Sound cfg s)
    (hm : s.warmPool.maintain ⟨warmPoolKey job.template, job.template, cfg.budget⟩ s.ledger =
      .ok (pool, ledger)) :
    Accounts cfg s (.prewarmRetaining job x)
      ({ s with
          warmPool := pool, ledger
          warmSessions := s.warmSessions.insert (warmPoolKey job.template)
            (queue s.warmSessions (warmPoolKey job.template) ++
              [⟨x, ⟨warmPoolKey job.template, job.template, cfg.budget⟩⟩]) },
        job.finish (.ok true)) := by
  obtain ⟨hactive, hsound⟩ := maintain_spec hs hm
  refine ⟨hsound, [], [], fun M _ f => ?_, by rw [hactive], rfl, rfl, .inl ⟨rfl, rfl, rfl⟩⟩
  have hone := total_push (fun r : WarmPoolMaintenanceReport => f (.session r.session))
    s.warmSessions (warmPoolKey job.template)
    ⟨x, ⟨warmPoolKey job.template, job.template, cfg.budget⟩⟩
  rw [finish_owns]
  simp only [stored, Phase.owns, weight_cons, hone]
  abel

theorem accounts_nextId (hs : Sound cfg s) (timeout : Option UInt64) (evicted : List Nat) :
    Accounts cfg s (.admitted timeout evicted)
      (s.nextId, .restoring s.nextId.nextSandbox evicted) := by
  refine ⟨hs.of_eq rfl rfl rfl, [], [.name s.nextId.nextSandbox], fun M _ f => ?_, rfl, rfl, rfl,
    .inr ⟨rfl, rfl, rfl⟩⟩
  simp only [Phase.owns, weight_cons, weight_nil, add_zero]
  change stored f s + _ = _
  abel

/-- Every step keeps the accounts sound and exchanges tokens. -/
theorem perform_accounts (hs : Sound cfg s)
    (hload : weight load (p.owns cfg) ≤ amount s.ledger.active)
    (hrun : weight sessions (p.owns cfg) ≤ (s.running : Multiset ℕ)) (call : Nat) (good : Bool) :
    Accounts cfg s p (perform cfg s call good p) := by
  have hq := Quiet.refl s
  have hfree : ∀ {s : Shared} {queue lock}, Quiet s { s with queue, lock } :=
    ⟨rfl, rfl, rfl, rfl, rfl, rfl, rfl, rfl⟩
  cases p with
  | arrived | checking | prewarmProbing => cases good <;> exact accounts_goto hs hq rfl
  | requesting template timeout => exact accounts_requestWarm hs template timeout
  | planning timeout again => exact accounts_reserve hs timeout again
  | unpolled =>
    simp only [perform]
    split <;> exact accounts_goto hs hfree rfl
  | waiting => exact accounts_goto hs hfree rfl
  | resumed => exact accounts_goto hs hfree rfl
  | admitted timeout evicted =>
    simp only [perform]
    split
    · exact accounts_panic hs rfl
    · exact accounts_nextId hs timeout evicted
  | restoring sandbox evicted =>
    cases evicted with
    | nil =>
      cases good with
      | true => exact accounts_launch hs (List.Perm.swap _ _ _)
      | false => exact accounts_unnamed hs rfl
    | cons x evicted =>
      have hperm := @List.perm_middle Token (.session x) [.name sandbox, .reservation cfg.budget]
        (evicted.map .session)
      exact accounts_stopIgnored hs (mem_running hrun (by simp [Phase.owns])) good hperm
  | probing sandbox held =>
    cases good with
    | true => exact accounts_goto hs hq rfl
    | false => exact accounts_unnamed hs rfl
  | spawning server sandbox held =>
    cases server <;> cases good
    · exact accounts_unnamed hs rfl
    · exact accounts_goto hs hq rfl
    · exact accounts_unnamed hs rfl
    · exact accounts_goto hs hq rfl
  | registering sandbox held => exact accounts_register hs rfl rfl
  | abandoning held why =>
    exact accounts_stopIgnored hs (mem_running hrun List.mem_cons_self) good (List.Perm.refl _)
  | releasing r why =>
    simp only [perform]
    split <;> next hr => exact accounts_release hs hload hr rfl rfl
  | notifying why => exact accounts_goto hs hfree rfl
  | prewarmAsked template =>
    simp only [perform]
    split <;> exact accounts_goto hs hq rfl
  | prewarmChecking job =>
    cases good with
    | true => exact accounts_goto hs hq rfl
    | false => exact accounts_goto hs hq (finish_owns job (.error .check)).symm
  | prewarmReady job =>
    simp only [perform]
    split
    · exact accounts_goto hs hq (finish_owns job _).symm
    · exact accounts_goto hs hq rfl
  | prewarmRestoring job =>
    cases good with
    | true => exact accounts_launch hs (List.Perm.refl _)
    | false => exact accounts_goto hs hq (finish_owns job (.error .launch)).symm
  | prewarmStopping x =>
    exact accounts_stopIgnored hs (mem_running hrun List.mem_cons_self) good (List.Perm.refl _)
  | prewarmRetaining job x =>
    simp only [perform]
    split
    · exact accounts_goto hs hfree rfl
    · split
      · exact accounts_goto hs hfree rfl
      · next hm => exact accounts_retain hs hm
  | prewarmDropping job x why =>
    refine (accounts_stopIgnored hs (mem_running hrun List.mem_cons_self) good ?_).then_quiet hfree
    rw [finish_owns]
    exact List.Perm.refl _
  | maintaining pass => exact accounts_goto hs hq (turn_owns pass).symm
  | stopping sandbox =>
    simp only [perform]
    split
    · exact accounts_goto hs hq rfl
    · next hr => exact accounts_remove hs hr rfl rfl
  | ending sandbox removed =>
    cases good with
    | true =>
      have hx : removed.session ∈ s.running :=
        mem_running hrun (List.mem_cons_of_mem _ List.mem_cons_self)
      exact @accounts_ended cfg s _ _ [.name sandbox] _ hs hx
        (fun t ht => List.mem_singleton.mp ht ▸ idle_name sandbox) (List.Perm.swap _ _ _)
    | false => exact (accounts_register hs rfl rfl).then_quiet hfree
  | cleaning r =>
    simp only [perform]
    split <;> next hr => exact (accounts_release hs hload hr rfl rfl).then_quiet hfree
  | done | cancelled => exact accounts_goto hs hq rfl

end AdapterTokens
