import Firkin.AdapterMachine
import Firkin.ProcessTable

/-! # Deleting a sandbox again and again

The backend forgets a sandbox once its adapter has stopped it. The runtime adapter forgets the
session as soon as the session is stopped, and can still fail after that, in the cleanup of the
staging directory or of the marker; from then on it answers that there is no such sandbox. -/
namespace SandboxDeletion

open Ext4Types E2bTypes SortedTable FaultMonad Admission
open AdapterMachine (ActiveSessionReservation)
open LocalBackend (LocalRuntimeBackend RuntimeAdapter)
open ProcessTable (ProcessKey)
open RestartRecovery (components)

/-- What `stop` reads of a session. -/
structure FirkinRuntimeSession where
  reservation : ActiveSessionReservation
  continuationSnapshotSaved : Bool
  deriving DecidableEq

structure FirkinRuntimeAdapterState where
  ledger : CapacityLedger
  active : Table Str FirkinRuntimeSession := ∅
  processes : List ProcessKey := []
  interactiveProcesses : List ProcessKey := []

inductive IoError where
  | notFound
  | other (text : Str)

/-- How the steps of one `stop` turn out; `removeMarker` is told whether the marker is a
directory. -/
structure Outcomes where
  stopSession : Except Str Unit := .ok ()
  cleanupUnsnapshottedStaging : Except Str Unit := .ok ()
  markerMetadata : Except IoError Bool := .ok true
  removeMarker : Bool → Except IoError Unit := fun _ => .ok ()

def validateMarkerId (id : Str) : Except Str Unit :=
  if id = [] then .error (str "runtime marker id for `active_vm` is empty")
  else
    match components id with
    | [.normal _] => .ok ()
    | _ => .error (str "runtime marker id `" ++ id ++
        str "` for `active_vm` is not a single path component")

/-- `active_vm_marker_path`; markers are kept only under a root. -/
def activeVmMarkerPath (markerRoot : Option Str) (sandboxId : Str) :
    Except BackendError (Option Str) :=
  match markerRoot with
  | none => .ok none
  | some root => do
    (validateMarkerId sandboxId).mapError .runtime
    pure (some (if root.getLast? = some slash then root ++ sandboxId
      else root ++ slash :: sandboxId))

/-- `remove_active_vm_marker`; a marker that is gone counts as removed. -/
def removeActiveVmMarker (markerRoot : Option Str) (o : Outcomes) (sandboxId : Str) :
    Except BackendError Unit := do
  match ← activeVmMarkerPath markerRoot sandboxId with
  | none => pure ()
  | some path =>
    match o.markerMetadata >>= o.removeMarker with
    | .ok () => pure ()
    | .error .notFound => pure ()
    | .error (.other source) =>
      throw (.runtime (str "Firkin active VM marker remove failed at `" ++ path ++ str "`: " ++
        source))

/-- What `stop` gives back of a stopped session. -/
def FirkinRuntimeAdapterState.release (self : FirkinRuntimeAdapterState) (sandboxId : Str)
    (session : FirkinRuntimeSession) : FirkinRuntimeAdapterState :=
  { self with
    ledger := (session.reservation.releaseInto self.ledger).2.2
    processes := self.processes.filter (·.sandboxId ≠ sandboxId)
    interactiveProcesses := self.interactiveProcesses.filter (·.sandboxId ≠ sandboxId) }

def stop (markerRoot : Option Str) (o : Outcomes) (sandboxId : Str) :
    EStateM BackendError FirkinRuntimeAdapterState Unit := do
  match (← get).active[sandboxId]? with
  | none => throw (.notFound sandboxId)
  | some session =>
    modify fun s => { s with active := s.active.erase sandboxId }
    match o.stopSession with
    | .error error =>
      modify fun s => { s with active := s.active.insert sandboxId session }
      throw (.runtime (str "Firkin session stop failed: " ++ error))
    | .ok () =>
      modify fun s => s.release sandboxId session
      -- the marker is removed before the outcome of the cleanup is looked at
      let markerResult := removeActiveVmMarker markerRoot o sandboxId
      match if session.continuationSnapshotSaved then .ok () else o.cleanupUnsnapshottedStaging with
      | .error error => throw (.runtime (str "Firkin restored staging cleanup failed: " ++ error))
      | .ok () => MonadExcept.ofExcept markerResult

structure Node where
  backend : LocalRuntimeBackend
  adapter : FirkinRuntimeAdapterState

variable (markerRoot : Option Str) (o : Nat → Outcomes) (sandboxId : Str)

def delete (o : Outcomes) (n : Node) : Node :=
  let stopped := stop markerRoot o sandboxId n.adapter
  let adapter := { RuntimeAdapter.refusing with stop := fun _ => answer stopped }
  ⟨left (LocalBackend.delete adapter sandboxId n.backend), left stopped⟩

def attempts (n : Node) : Nat → Node
  | 0 => n
  | k + 1 => delete markerRoot sandboxId (o k) (attempts n k)

def registered (n : Node) : Prop := sandboxId ∈ n.backend.sandboxes.sandboxes

/-- Each step of `stop` fails finitely often. -/
structure FailsFinitely : Prop where
  stopSession : ∃ n, ∀ k ≥ n, (o k).stopSession = .ok ()
  cleanup : ∃ n, ∀ k ≥ n, (o k).cleanupUnsnapshottedStaging = .ok ()
  marker : ∃ n, ∀ k ≥ n, removeActiveVmMarker markerRoot (o k) sandboxId = .ok ()

/-- After the session was stopped nothing fails: the staging directory needs no cleanup or is
cleaned up, and the marker goes. -/
def Clears (o : Outcomes) (session : FirkinRuntimeSession) : Prop :=
  (session.continuationSnapshotSaved = true ∨ o.cleanupUnsnapshottedStaging = .ok ()) ∧
    removeActiveVmMarker markerRoot o sandboxId = .ok ()

variable {o sandboxId} {n : Node} {session : FirkinRuntimeSession}

theorem stop_absent (out : Outcomes) (h : s.active[sandboxId]? = none) :
    stop markerRoot out sandboxId s = .error (.notFound sandboxId) s := by
  unfold stop
  rw [bind_of_ok (run_get s), h]
  rfl

theorem stop_kept (h : s.active[sandboxId]? = some session)
    (hstop : out.stopSession = .error error) :
    stop markerRoot out sandboxId s =
      .error (.runtime (str "Firkin session stop failed: " ++ error)) s := by
  have hback : (s.active.erase sandboxId).insert sandboxId session = s.active := by
    refine SortedTable.ext fun id => ?_
    rw [get_insert, get_erase]
    by_cases hid : sandboxId = id
    · rw [if_pos hid, ← hid, h]
    · rw [if_neg hid, if_neg hid]
  unfold stop
  rw [bind_of_ok (run_get s), h]
  dsimp only
  rw [bind_of_ok (run_modify s), hstop]
  dsimp only
  rw [bind_of_ok (run_modify _), hback]
  rfl

/-- A session that stops is forgotten, and the call succeeds if nothing fails after that. -/
theorem stop_gone (h : s.active[sandboxId]? = some session) (hstop : out.stopSession = .ok ()) :
    (left (stop markerRoot out sandboxId s)).active[sandboxId]? = none ∧
      (answer (stop markerRoot out sandboxId s) = .ok () ↔
        Clears markerRoot sandboxId out session) := by
  have hnone : (s.active.erase sandboxId)[sandboxId]? = none := by
    rw [get_erase, if_pos rfl]
  unfold stop Clears
  rw [bind_of_ok (run_get s), h]
  dsimp only
  rw [hstop]
  dsimp only
  cases hsaved : session.continuationSnapshotSaved with
  | true =>
    cases removeActiveVmMarker markerRoot out sandboxId with
    | ok u => exact ⟨hnone, iff_of_true rfl ⟨.inl rfl, rfl⟩⟩
    | error e => exact ⟨hnone, iff_of_false (fun he => by cases he) fun hc => by cases hc.2⟩
  | false =>
    cases out.cleanupUnsnapshottedStaging with
    | error error =>
      refine ⟨hnone, iff_of_false (fun he => by cases he) ?_⟩
      rintro ⟨hc | hc, -⟩ <;> cases hc
    | ok u =>
      cases removeActiveVmMarker markerRoot out sandboxId with
      | ok u => exact ⟨hnone, iff_of_true rfl ⟨.inr rfl, rfl⟩⟩
      | error e => exact ⟨hnone, iff_of_false (fun he => by cases he) fun hc => by cases hc.2⟩

theorem delete_registered : registered sandboxId (delete markerRoot sandboxId out n) ↔
    registered sandboxId n ∧ answer (stop markerRoot out sandboxId n.adapter) ≠ .ok () := by
  unfold registered delete
  cases stop markerRoot out sandboxId n.adapter with
  | ok a t =>
    dsimp only
    rw [LocalBackend.delete_stopped rfl]
    refine iff_of_false (fun hm => ?_) fun hne => hne.2 rfl
    exact absurd hm (by simp [left, SandboxRegistry.LocalSandboxRegistry.delete])
  | error e t =>
    dsimp only
    exact ⟨fun hm => ⟨hm, fun he => by cases he⟩, fun hm => hm.1⟩

theorem attempts_add (m k : Nat) : attempts markerRoot o sandboxId n (m + k) =
    attempts markerRoot (fun j => o (m + j)) sandboxId (attempts markerRoot o sandboxId n m) k := by
  induction k with
  | zero => rfl
  | succ k ih => rw [← Nat.add_assoc, attempts, ih, attempts]

/-- Attempts change nothing while the adapter does not know the sandbox or its session does
not stop. -/
theorem attempts_kept (hreg : registered sandboxId n)
    (h : ∀ session ∈ n.adapter.active[sandboxId]?, ∀ j < k, (o j).stopSession ≠ .ok ()) :
    registered sandboxId (attempts markerRoot o sandboxId n k) ∧
      (attempts markerRoot o sandboxId n k).adapter = n.adapter := by
  induction k with
  | zero => exact ⟨hreg, rfl⟩
  | succ k ih =>
    obtain ⟨hreg', hadapter⟩ := ih fun session hs j hj => h session hs j (Nat.lt_succ_of_lt hj)
    have hstop : ∃ e, stop markerRoot (o k) sandboxId n.adapter = .error e n.adapter := by
      cases hs : n.adapter.active[sandboxId]? with
      | none => exact ⟨_, stop_absent markerRoot (o k) hs⟩
      | some session =>
        cases herr : (o k).stopSession with
        | ok u => exact absurd herr (h session hs k (Nat.lt_succ_self k))
        | error error => exact ⟨_, stop_kept markerRoot hs herr⟩
    obtain ⟨e, hstop⟩ := hstop
    rw [← hadapter] at hstop
    refine ⟨(delete_registered markerRoot).mpr ⟨hreg', ?_⟩, ?_⟩
    · rw [hstop]
      exact fun he => by cases he
    · rw [attempts, delete, hstop]
      exact hadapter

theorem attempts_decided (hreg : registered sandboxId n)
    (h : n.adapter.active[sandboxId]? = some session)
    (hfail : ∀ j < k, (o j).stopSession ≠ .ok ()) (hstop : (o k).stopSession = .ok ()) :
    (∃ m, ¬registered sandboxId (attempts markerRoot o sandboxId n m)) ↔
      Clears markerRoot sandboxId (o k) session := by
  obtain ⟨hreg', hadapter⟩ := attempts_kept markerRoot hreg fun _ _ => hfail
  obtain ⟨hgone, hclears⟩ := stop_gone markerRoot (hadapter ▸ h) hstop
  constructor
  · rintro ⟨m, hm⟩
    by_contra hnot
    have hnext : registered sandboxId (attempts markerRoot o sandboxId n (k + 1)) :=
      (delete_registered markerRoot).mpr ⟨hreg', fun hok => hnot (hclears.mp hok)⟩
    rcases Nat.lt_or_ge m (k + 1) with hlt | hge
    · exact hm (attempts_kept markerRoot hreg fun _ _ j hj => hfail j (by omega)).1
    · obtain ⟨l, rfl⟩ := Nat.exists_eq_add_of_le hge
      rw [attempts_add] at hm
      exact hm (attempts_kept (k := l) markerRoot hnext (hgone ▸ fun _ hs => by cases hs)).1
  · intro hc
    exact ⟨k + 1, fun hr => ((delete_registered markerRoot).mp hr).2 (hclears.mpr hc)⟩

/-- Deletion gets through exactly when the adapter knows the sandbox and the first attempt that
stops its session meets no failure after that. -/
theorem deletion_converges_iff (o : Nat → Outcomes) (sandboxId : Str) (n : Node)
    (hreg : registered sandboxId n) :
    (∃ m, ¬registered sandboxId (attempts markerRoot o sandboxId n m)) ↔
      ∃ session k, n.adapter.active[sandboxId]? = some session ∧
        (∀ j < k, (o j).stopSession ≠ .ok ()) ∧ (o k).stopSession = .ok () ∧
        Clears markerRoot sandboxId (o k) session := by
  constructor
  · intro hex
    cases h : n.adapter.active[sandboxId]? with
    | none =>
      obtain ⟨m, hm⟩ := hex
      exact absurd (attempts_kept (k := m) markerRoot hreg (h ▸ fun _ hs => by cases hs)).1 hm
    | some session =>
      by_cases hstops : ∃ k, (o k).stopSession = .ok ()
      · have hfirst : ∀ j < Nat.find hstops, (o j).stopSession ≠ .ok () :=
          fun j hj => Nat.find_min hstops hj
        have hclears := (attempts_decided markerRoot hreg h hfirst (Nat.find_spec hstops)).mp hex
        exact ⟨session, _, rfl, hfirst, Nat.find_spec hstops, hclears⟩
      · obtain ⟨m, hm⟩ := hex
        have hwait := attempts_kept markerRoot (k := m) hreg fun _ _ j _ hj => hstops ⟨j, hj⟩
        exact absurd hwait.1 hm
  · rintro ⟨session, k, h, hfirst, hstop, hclears⟩
    exact (attempts_decided markerRoot hreg h hfirst hstop).mpr hclears

def sandbox : Str := str "sbx_1"
def unsaved : FirkinRuntimeSession := ⟨.new ⟨1, 512, 0⟩, false⟩

def running : Node :=
  let sandboxes : Table Str SandboxRegistry.SandboxRecord := Std.ExtTreeMap.insert ∅ sandbox
    (SandboxRegistry.newRecord {} ⟨sandbox, [], [], none, none, [], [], 1, 512⟩)
  { backend := { templates := .new [], sandboxes := { sandboxes } }
    adapter := { ledger := .new ⟨1, 512, 0⟩, active := Std.ExtTreeMap.insert ∅ sandbox unsaved } }

theorem running_registered : registered sandbox running := by
  unfold registered
  decide +kernel

theorem running_active : running.adapter.active[sandbox]? = some unsaved := by
  decide +kernel

/-- The session stops at the second attempt. -/
theorem deletion_converges_second : ∃ m, ¬registered sandbox (attempts none
    (fun k => { stopSession := if k = 0 then .error (str "busy") else .ok () })
    sandbox running m) := by
  refine (deletion_converges_iff none _ sandbox running running_registered).mpr
    ⟨unsaved, 1, running_active, fun j hj => ?_, rfl, .inr rfl, rfl⟩
  obtain rfl := Nat.lt_one_iff.mp hj
  exact fun h => by cases h

def onceDirty (k : Nat) : Outcomes :=
  { cleanupUnsnapshottedStaging := if k = 0 then .error (str "busy") else .ok () }

/-- The cleanup fails in the first attempt and nothing ever fails again; the record stays. -/
theorem sandbox_undeletable : registered sandbox running ∧ FailsFinitely none onceDirty sandbox ∧
    ∀ m, registered sandbox (attempts none onceDirty sandbox running m) := by
  refine ⟨running_registered, ⟨⟨0, fun _ _ => rfl⟩, ⟨1, fun k hk => if_neg (by omega)⟩,
    ⟨0, fun _ _ => rfl⟩⟩, fun m => ?_⟩
  have hnot : ¬Clears none sandbox (onceDirty 0) unsaved := by
    rintro ⟨h | h, -⟩ <;> cases h
  have hdecided := attempts_decided none running_registered running_active
    (o := onceDirty) (k := 0) (fun j hj => absurd hj (Nat.not_lt_zero j)) rfl
  by_contra hm
  exact hnot (hdecided.mp ⟨m, hm⟩)

end SandboxDeletion
