import Firkin.AdmissionAmounts
import Firkin.SingleNode

/-! # Scheduler and session records

The scheduler's reservations against the list of active records, over any sequence of
`create`, `restore` and `delete`. Admission of a known id is a no-op while the rollback of a
failed call releases whatever the id holds, so a repeated id is where the two part. -/
namespace SingleNodeAgreement

open Ext4Types AdmissionAmounts SingleNode Std KeyedList TreeMap Option
open FaultMonad (left)

inductive Call where
  | create (request : SingleNodeCreateRequest)
  | restore (request : SingleNodeCreateRequest) (snapshot : SnapshotRecord)
  | delete (sandboxId : Str)

structure Event where
  call : Call
  host : Host

def after (s : Backend) (e : Event) : Backend :=
  match e.call with
  | .create request => left (create e.host request s)
  | .restore request _ => left (restore e.host request s)
  | .delete sandboxId => left (delete e.host sandboxId s)

def trace (s : Backend) : List Event → List Backend
  | [] => []
  | e :: es => after s e :: trace (after s e) es

def echoesId (host : Host) (request : SingleNodeCreateRequest) : Prop :=
  ∀ created, host.created = .ok created → created.sandboxId = request.sandboxId

def Echoes (e : Event) : Prop :=
  match e.call with
  | .create request | .restore request _ => echoesId e.host request
  | .delete _ => True

def reserved (active : List ActiveSessionRecord) : Load :=
  (active.map fun session => amount session.resources.toBudget).sum

structure Agrees (s : Backend) : Prop where
  ids : ∀ id, s.scheduler.admitted.contains id = true ↔ ∃ session ∈ s.active, session.sandboxId = id
  sum : amount s.scheduler.ledger.active = reserved s.active

/-- Agreement record by record, as a new or a reconciled backend has it. -/
structure Matched (s : Backend) : Prop where
  solvent : Solvent s.scheduler.ledger
  held : ∀ id, s.scheduler.admitted[id]? = (lookup id s.active).map (·.resources)
  distinct : (s.active.map (·.sandboxId)).Nodup
  sum : amount s.scheduler.ledger.active = reserved s.active

/-- A known id is asked for with the resources it has and nothing fails, and a new id is only
admitted where there is a driver to create it. -/
def SafeLaunch (s : Backend) (host : Host) (operation : Str) (request : SingleNodeCreateRequest) :
    Prop :=
  (∃ e, s.checkDisk host operation = .error e) ∨
    match lookup request.sandboxId s.active with
    | some session =>
      s.driver = false ∨
        (host.created.isOk = true ∧ (s.persist host).isOk = true ∧
          session.resources = request.resources)
    | none =>
      s.driver = true ∨
        ∃ e, s.scheduler.admitSandbox s.config request.sandboxId request.resources = .error e

def Safe (s : Backend) (e : Event) : Prop :=
  match e.call with
  | .create request => SafeLaunch s e.host (str "sandbox create") request
  | .restore request _ => SafeLaunch s e.host (str "sandbox restore") request
  | .delete _ => True

def AllSafe (s : Backend) : List Event → Prop
  | [] => True
  | e :: es => Safe s e ∧ AllSafe (after s e) es

variable {s : Backend} {host : Host} {id : Str} {request : SingleNodeCreateRequest}
  {session : ActiveSessionRecord} {scheduler : SchedulerState}

theorem Matched.agrees (h : Matched s) : Agrees s where
  ids id := by
    rw [contains_eq_isSome_getElem?, h.held, isSome_map, find_isSome]
  sum := h.sum

theorem matched_new (driver files : Bool) : Matched (Backend.new config driver files) where
  solvent := solvent_new _
  held id := by
    exact getElem?_emptyc
  distinct := List.nodup_nil
  sum := amount_zero

section
variable (h : Matched s)
include h

theorem Matched.contains (id : Str) : s.scheduler.admitted.contains id =
    (lookup id s.active).isSome := by
  rw [contains_eq_isSome_getElem?, h.held, isSome_map]

theorem Matched.admit_known (hl : lookup id s.active = some session)
    (resources : SandboxResources) :
    s.scheduler.admitSandbox s.config id resources = .ok s.scheduler := by
  rw [SchedulerState.admitSandbox, if_pos (by rw [h.contains, hl]; rfl)]

section
variable (hl : lookup id s.active = none)
include hl

section
variable (ha : s.scheduler.admitSandbox s.config id resources = .ok scheduler)
include ha

theorem Matched.admit_new :
    scheduler.admitted = s.scheduler.admitted.insert id resources ∧ Solvent scheduler.ledger ∧
      amount scheduler.ledger.active =
        amount s.scheduler.ledger.active + amount resources.toBudget := by
  have hfresh : ¬s.scheduler.admitted.contains id = true := by
    rw [h.contains, hl]
    simp
  rw [SchedulerState.admitSandbox, if_neg hfresh] at ha
  split at ha
  · cases ha
  · rcases reserveActive_cases h.solvent resources.toBudget with
      ⟨-, ledger, hr, hactive, -, -, hsolvent⟩ | ⟨-, e, hr⟩
    · rw [hr] at ha
      cases ha
      exact ⟨rfl, hsolvent, hactive⟩
    · rw [hr] at ha
      cases ha

theorem Matched.rollback_new : Matched { s with scheduler := scheduler.release id } := by
  obtain ⟨hadmitted, hsolvent, hactive⟩ := h.admit_new hl ha
  have hget : scheduler.admitted[id]? = some resources := by
    rw [hadmitted, getElem?_insert_self]
  have hrelease : scheduler.release id =
      ⟨scheduler.admitted.erase id, scheduler.ledger.releaseActive resources.toBudget⟩ := by
    rw [SchedulerState.release, hget]
  rw [hrelease]
  refine ⟨hsolvent.releaseActive _, fun id' => ?_, h.distinct, ?_⟩
  · rw [getElem?_erase, hadmitted, getElem?_insert, h.held]
    split
    · next he => rw [← Std.compare_eq_iff_eq.mp he, hl, map_none]
    · rfl
  · change amount (scheduler.ledger.active - resources.toBudget) = reserved s.active
    rw [amount_sub, hactive, h.sum]
    exact add_tsub_cancel_right _ _
end

theorem Matched.launch_new
    (ha : s.scheduler.admitSandbox s.config id session.resources = .ok scheduler)
    (hid : session.sandboxId = id) :
    Matched { s with scheduler, active := upsert session s.active } := by
  obtain ⟨hadmitted, hsolvent, hactive⟩ := h.admit_new hl ha
  refine ⟨hsolvent, fun id' => ?_, nodup_put h.distinct session, ?_⟩
  · rw [hadmitted, getElem?_insert, lookup_upsert, h.held, hid]
    by_cases he : id = id'
    · rw [if_pos (Std.compare_eq_iff_eq.mpr he), if_pos he.symm, map_some]
    · rw [if_neg fun hc => he (Std.compare_eq_iff_eq.mp hc), if_neg fun hc => he hc.symm]
  · rw [hactive, h.sum]
    exact (sum_put_new _ (show lookup session.sandboxId _ = none by rw [hid, hl])).symm
end

theorem Matched.launch_known
    (hl : lookup session.sandboxId s.active = some old) (hr : old.resources = session.resources) :
    Matched { s with active := upsert session s.active } := by
  refine ⟨h.solvent, fun id' => ?_, nodup_put h.distinct session, ?_⟩
  · rw [lookup_upsert, h.held]
    split
    · next he => rw [he, hl, map_some, map_some, hr]
    · rfl
  · have hsum := sum_put_old (fun r => amount r.resources.toBudget) h.distinct hl
    rw [hr] at hsum
    exact h.sum.trans (add_right_cancel hsum).symm

theorem Matched.remove (hl : lookup id s.active = some session) :
    Matched { s with active := without id s.active, scheduler := s.scheduler.release id } := by
  have hget : s.scheduler.admitted[id]? = some session.resources := by rw [h.held, hl]; rfl
  have hrelease : s.scheduler.release id =
      ⟨s.scheduler.admitted.erase id,
        s.scheduler.ledger.releaseActive session.resources.toBudget⟩ := by
    rw [SchedulerState.release, hget]
  rw [hrelease]
  refine ⟨h.solvent.releaseActive _, fun id' => ?_, nodup_drop h.distinct id, ?_⟩
  · rw [getElem?_erase, lookup_without, h.held]
    by_cases he : id = id'
    · rw [if_pos (Std.compare_eq_iff_eq.mpr he), if_pos he.symm, map_none]
    · rw [if_neg fun hc => he (Std.compare_eq_iff_eq.mp hc), if_neg fun hc => he hc.symm]
  · change amount (s.scheduler.ledger.active - session.resources.toBudget) = _
    have hsum : reserved (without id s.active) + amount session.resources.toBudget =
        reserved s.active := sum_drop _ h.distinct hl
    rw [amount_sub, h.sum, ← hsum]
    exact add_tsub_cancel_right _ _
end

theorem toBudget_injective {r r' : SandboxResources} (h : amount r.toBudget = amount r'.toBudget) :
    r = r' := by
  have hb := amount_injective h
  cases r
  cases r'
  simpa [SandboxResources.toBudget] using hb

theorem admit_known_eq (h : Matched s) (hl : lookup request.sandboxId s.active = some session)
    (ha : s.scheduler.admitSandbox s.config request.sandboxId request.resources = .ok scheduler) :
    scheduler = s.scheduler :=
  (Except.ok.inj ((h.admit_known hl request.resources).symm.trans ha)).symm

/-- Releasing a known id leaves its record without a reservation. -/
theorem Matched.release_known (h : Matched s) (hl : lookup id s.active = some session) :
    ¬Agrees { s with scheduler := s.scheduler.release id } := by
  intro hagrees
  have hget : s.scheduler.admitted[id]? = some session.resources := by rw [h.held, hl]; rfl
  have hids := (hagrees.ids id).mpr ⟨session, find_some hl⟩
  simp [SchedulerState.release, hget] at hids

theorem Matched.admit_only (h : Matched s) (hl : lookup id s.active = none)
    (ha : s.scheduler.admitSandbox s.config id resources = .ok scheduler) :
    ¬Agrees { s with scheduler } := by
  intro hagrees
  have hadmitted := (h.admit_new hl ha).1
  have hmem : scheduler.admitted.contains id = true := by
    rw [hadmitted, contains_insert_self]
  obtain ⟨session, hs, hid⟩ := (hagrees.ids id).mp hmem
  exact find_none.mp hl session hs hid

theorem SafeLaunch.known (h : SafeLaunch s host operation request)
    (hc : s.checkDisk host operation = .ok ()) (hd : s.driver = true)
    (hl : lookup request.sandboxId s.active = some session) :
    host.created.isOk = true ∧ (s.persist host).isOk = true ∧
      session.resources = request.resources := by
  rw [SafeLaunch, hc, hl, hd] at h
  simpa using h

/-- A call keeps the match if it is safe, and otherwise ends the agreement at once. -/
theorem launched_iff (h : Matched s) (he : echoesId host request)
    (hr : Launched s host operation request r) :
    (SafeLaunch s host operation request → Matched (left r)) ∧
      (Agrees (left r) → SafeLaunch s host operation request) := by
  have hknown : ∀ {session}, lookup request.sandboxId s.active = some session →
      ∀ {e}, s.scheduler.admitSandbox s.config request.sandboxId request.resources ≠ .error e := by
    intro session hl e ha
    cases (h.admit_known hl request.resources).symm.trans ha
  cases hr with
  | pressed hc => exact ⟨fun _ => h, fun _ => .inl ⟨_, hc⟩⟩
  | refused hc ha =>
    refine ⟨fun _ => h, fun _ => .inr ?_⟩
    cases hl : lookup request.sandboxId s.active with
    | some session => exact absurd ha (hknown hl)
    | none => exact .inr ⟨_, ha⟩
  | undriven hc ha hd =>
    cases hl : lookup request.sandboxId s.active with
    | some session =>
      obtain rfl := admit_known_eq h hl ha
      exact ⟨fun _ => h, fun _ => .inr (by rw [hl]; exact .inl hd)⟩
    | none =>
      refine ⟨fun hsafe => ?_, fun hagrees => absurd hagrees (h.admit_only hl ha)⟩
      rw [SafeLaunch, hc, hl, hd, ha] at hsafe
      simp at hsafe
  | failed hc ha hd hcreated =>
    cases hl : lookup request.sandboxId s.active with
    | some session =>
      obtain rfl := admit_known_eq h hl ha
      refine ⟨fun hsafe => ?_, fun hagrees => absurd hagrees (h.release_known hl)⟩
      have hok := (hsafe.known hc hd hl).1
      rw [hcreated] at hok
      cases hok
    | none => exact ⟨fun _ => h.rollback_new hl ha, fun _ => .inr (by rw [hl]; exact .inl hd)⟩
  | unpersisted hc ha hd hcreated hp =>
    cases hl : lookup request.sandboxId s.active with
    | some session =>
      obtain rfl := admit_known_eq h hl ha
      refine ⟨fun hsafe => ?_, fun hagrees => absurd hagrees (h.release_known hl)⟩
      have hok := (hsafe.known hc hd hl).2.1
      rw [hp] at hok
      cases hok
    | none => exact ⟨fun _ => h.rollback_new hl ha, fun _ => .inr (by rw [hl]; exact .inl hd)⟩
  | @done scheduler created hc ha hd hcreated hp =>
    have hid : (record host request created).sandboxId = request.sandboxId := he created hcreated
    cases hl : lookup request.sandboxId s.active with
    | some session =>
      obtain rfl := admit_known_eq h hl ha
      refine ⟨fun hsafe => ?_, fun hagrees => .inr ?_⟩
      · exact h.launch_known (by rwa [hid]) (hsafe.known hc hd hl).2.2
      · rw [← hid] at hl
        have hsum := sum_put_old (fun r => amount r.resources.toBudget) h.distinct hl
        have hsame : reserved s.active = reserved (upsert (record host request created) s.active) :=
          h.sum.symm.trans hagrees.sum
        rw [← hid, hl, hcreated, hp]
        refine .inr ⟨rfl, rfl, toBudget_injective ?_⟩
        change reserved _ + _ = reserved _ + _ at hsum
        rw [← hsame] at hsum
        exact add_left_cancel hsum
    | none =>
      exact ⟨fun _ => h.launch_new hl ha hid, fun _ => .inr (by rw [hl]; exact .inl hd)⟩

theorem deleted_matched (h : Matched s) (hr : Deleted s host id r) : Matched (left r) := by
  cases hr with
  | unknown | undriven | failed | unpersisted => exact h
  | done hex =>
    obtain ⟨session, hl⟩ := isSome_iff_exists.mp (find_isSome.mpr hex)
    exact h.remove hl

theorem step_iff (h : Matched s) (he : Echoes e) :
    (Safe s e → Matched (after s e)) ∧ (Agrees (after s e) → Safe s e) := by
  obtain ⟨call, host⟩ := e
  cases call with
  | create request => exact launched_iff h he (launch_spec s host _ request)
  | restore request snapshot => exact launched_iff h he (launch_spec s host _ request)
  | delete sandboxId =>
    exact ⟨fun _ => deleted_matched h (delete_spec s host sandboxId), fun _ => trivial⟩

/-- Scheduler and records agree after every call exactly when every call is safe. -/
theorem records_agree_iff (h : Matched s) {es : List Event} (he : ∀ e ∈ es, Echoes e) :
    (∀ t ∈ trace s es, Agrees t) ↔ AllSafe s es := by
  induction es generalizing s with
  | nil => simp [trace, AllSafe]
  | cons e es ih =>
    have hstep := step_iff h (he e (by simp))
    have hrest : ∀ e' ∈ es, Echoes e' := fun e' he' => he e' (by simp [he'])
    simp only [trace, List.forall_mem_cons]
    constructor
    · rintro ⟨hagrees, htail⟩
      have hsafe := hstep.2 hagrees
      exact ⟨hsafe, (ih (hstep.1 hsafe) hrest).mp htail⟩
    · rintro ⟨hsafe, htail⟩
      have hmatched := hstep.1 hsafe
      exact ⟨hmatched.agrees, (ih hmatched hrest).mpr htail⟩

def sandboxA : SingleNodeCreateRequest := ⟨str "a", str "base", ⟨1, 1⟩, none⟩
def working : Host := ⟨.ok 0, .ok ⟨str "a", [], none⟩, .ok (), .ok (), 0⟩
def launchFails : Host := { working with created := .error (.runtimeLaunchFailed []) }
def node : Backend := .new ⟨2, ⟨4, 4⟩⟩ true true

/-- A launch that fails, one that succeeds, and the deletion. -/
theorem records_agree_once : ∃ es : List Event, es.length = 3 ∧ ∀ t ∈ trace node es, Agrees t := by
  have hechoes : ∀ e ∈ [Event.mk (.create sandboxA) launchFails, ⟨.create sandboxA, working⟩,
      ⟨.delete (str "a"), working⟩], Echoes e := by
    simp only [List.forall_mem_cons]
    refine ⟨fun created hc => ?_, fun created hc => ?_, trivial, by simp⟩
    · cases hc
    · cases hc
      rfl
  refine ⟨_, rfl, (records_agree_iff (matched_new true true) hechoes).mpr ?_⟩
  exact ⟨.inr (.inl rfl), .inr (.inl rfl), trivial, trivial⟩

/-- The same id is created again and the second launch fails: the live sandbox loses its
reservation. -/
theorem repeated_create_releases : ∃ es : List Event, (∀ e ∈ es, Echoes e) ∧
    ¬∀ t ∈ trace node es, Agrees t := by
  refine ⟨[⟨.create sandboxA, working⟩, ⟨.create sandboxA, launchFails⟩], ?_, fun hall => ?_⟩
  · simp only [List.forall_mem_cons]
    refine ⟨fun created hc => ?_, fun created hc => ?_, by simp⟩
    · cases hc
      rfl
    · cases hc
  · have hlast := hall (after (after node ⟨.create sandboxA, working⟩)
      ⟨.create sandboxA, launchFails⟩)
      (by simp [trace])
    have hids := (hlast.ids (str "a")).mpr
    revert hids
    decide +kernel

end SingleNodeAgreement
