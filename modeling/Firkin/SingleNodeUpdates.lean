import Firkin.CopyUpdate
import Firkin.SingleNode

/-! # Concurrent session updates

`create`, `delete` and `update_deadline` as interleaved calls: each step is one access to the
list of active records or to the scheduler, with what lies between two awaits or two locks.
`version` counts the writes to the list and is the model's own. -/
namespace SingleNodeUpdates

open Ext4Types SingleNode Interleaving CopyUpdate

inductive Operation where
  | create (request : SingleNodeCreateRequest)
  | delete (sandboxId : Str)
  | updateDeadline (sandboxId : Str) (timeoutFromNow : UInt64)

structure Request where
  operation : Operation
  host : Host

inductive Stage where
  | entered
  | driving
  | loading
  | saving (version : Nat) (original active : List ActiveSessionRecord)
  | persisting (version : Nat) (original : List ActiveSessionRecord)
  | restoring (version : Nat) (original : List ActiveSessionRecord) (e : Error)
  | undoing (e : Error)
  | releasing
  | done (result : Except Error Unit)

structure Call where
  request : Request
  stage : Stage

structure Shared where
  backend : Backend
  version : Nat := 0

def Request.update (self : Request) (active : List ActiveSessionRecord) :
    Except Error (List ActiveSessionRecord) :=
  match self.operation with
  | .create request => self.host.created.map fun created =>
      upsert (record self.host request created) active
  | .delete sandboxId =>
    if (without sandboxId active).length = active.length then .error (notFound sandboxId)
    else .ok (without sandboxId active)
  | .updateDeadline sandboxId timeoutFromNow =>
    if (lookup sandboxId active).isSome then
      .ok (extend sandboxId (deadline self.host.now timeoutFromNow) active)
    else .error (notFound sandboxId)

def Shared.release (s : Shared) (sandboxId : Str) : Shared :=
  { s with backend := { s.backend with scheduler := s.backend.scheduler.release sandboxId } }

def Shared.save (s : Shared) (active : List ActiveSessionRecord) : Shared :=
  ⟨{ s.backend with active }, s.version + 1⟩

/-- The first step: admission of a new sandbox, or the check that there is one to delete. -/
def enterStep (s : Shared) (r : Request) : Shared × Stage :=
  match r.operation with
  | .create request =>
    match s.backend.checkDisk r.host (str "sandbox create") with
    | .error e => (s, .done (.error e))
    | .ok _ =>
      match s.backend.scheduler.admitSandbox s.backend.config request.sandboxId
        request.resources with
      | .error e => (s, .done (.error e))
      | .ok scheduler =>
        ({ s with backend := { s.backend with scheduler } },
          if s.backend.driver then .driving else .done (.error noDriver))
  | .delete sandboxId =>
    match lookup sandboxId s.backend.active with
    | none => (s, .done (.error (notFound sandboxId)))
    | some _ => (s, if s.backend.driver then .driving else .done (.error noDriver))
  | .updateDeadline _ _ => (s, .loading)

def driveStep (s : Shared) (r : Request) : Shared × Stage :=
  match r.operation with
  | .create request =>
    match r.host.created with
    | .error e => (s.release request.sandboxId, .done (.error e))
    | .ok _ => (s, .loading)
  | .delete _ =>
    match r.host.deleted with
    | .error e => (s, .done (.error e))
    | .ok _ => (s, .loading)
  | .updateDeadline _ _ => (s, .loading)

def loadStep (s : Shared) (r : Request) : Shared × Stage :=
  match r.update s.backend.active with
  | .error e => (s, .done (.error e))
  | .ok active => (s, .saving s.version s.backend.active active)

def persistStep (s : Shared) (r : Request) (version : Nat)
    (original : List ActiveSessionRecord) : Shared × Stage :=
  match s.backend.persist r.host with
  | .error e => (s, .restoring version original e)
  | .ok _ =>
    match r.operation with
    | .delete _ => (s, .releasing)
    | _ => (s, .done (.ok ()))

def restoreStep (s : Shared) (r : Request) (original : List ActiveSessionRecord) (e : Error) :
    Shared × Stage :=
  match r.operation with
  | .create _ => (s.save original, .undoing e)
  | _ => (s.save original, .done (.error e))

/-- A create that could not be persisted: the driver's delete is not checked. -/
def undoStep (s : Shared) (r : Request) (e : Error) : Shared × Stage :=
  match r.operation with
  | .create request =>
    if s.backend.driver then (s.release request.sandboxId, .done (.error e))
    else (s, .done (.error noDriver))
  | _ => (s, .done (.error e))

def releaseStep (s : Shared) (r : Request) : Shared × Stage :=
  match r.operation with
  | .delete sandboxId => (s.release sandboxId, .done (.ok ()))
  | _ => (s, .done (.ok ()))

def stageStep (s : Shared) (r : Request) : Stage → Option (Shared × Stage)
  | .entered => some (enterStep s r)
  | .driving => some (driveStep s r)
  | .loading => some (loadStep s r)
  | .saving _ original active => some (s.save active, .persisting (s.version + 1) original)
  | .persisting version original => some (persistStep s r version original)
  | .restoring _ original e => some (restoreStep s r original e)
  | .undoing e => some (undoStep s r e)
  | .releasing => some (releaseStep s r)
  | .done _ => none

def advance (s : Shared) (call : Call) : Option (Shared × Call) :=
  (stageStep s call.request call.stage).map fun (s, stage) => (s, { call with stage })

def machine : Machine Shared Call Request Unit where
  enter r := ⟨r, .entered⟩
  advance s _ _ call := advance s call
  drop _ _ _ := none

def current (s : Shared) : Stage → Bool
  | .saving version _ _ | .restoring version _ _ => version = s.version
  | _ => true

def exclusive (w : World Shared Call) : Event Request Unit → Bool
  | .step c _ => w.calls[c]?.all fun call => current w.shared call.stage
  | _ => true

/-- The worlds of every interleaving from one backend whose events pass a check. -/
abbrev Reached (backend : Backend) (check : World Shared Call → Event Request Unit → Bool)
    (w : World Shared Call) : Prop :=
  Reachable machine (fun w e => check w e = true) ⟨⟨backend, 0⟩, []⟩ w

def Call.finished (self : Call) : Bool :=
  match self.stage with
  | .done _ => true
  | _ => false

def Call.succeeded (self : Call) : Bool :=
  match self.stage with
  | .done (.ok _) => true
  | _ => false

/-- The list is what the calls that succeeded make of the first one, in some order. -/
def Serialized (before : List ActiveSessionRecord) (w : World Shared Call) : Prop :=
  ∃ order : List Request,
    order.Perm ((w.calls.filter Call.succeeded).map Call.request) ∧
      order.foldlM (fun active r => r.update active) before = .ok w.shared.backend.active

def standingOf (r : Request) : Stage → Standing (List ActiveSessionRecord) Request
  | .saving version original _ => .loaded version original
  | .persisting version original | .restoring version original _ => .saved r version original
  | .releasing | .done (.ok _) => .kept r
  | _ => .out

def Call.standing (self : Call) : Standing (List ActiveSessionRecord) Request :=
  standingOf self.request self.stage

/-- The list has a serial history, and a call that is about to save has updated its copy. -/
structure Serialable (before : List ActiveSessionRecord) (w : World Shared Call) : Prop where
  serial : ∃ log, Serial Request.update before w.shared.backend.active w.shared.version
    (w.calls.map Call.standing) log
  updated : ∀ r version original active, ⟨r, .saving version original active⟩ ∈ w.calls →
    r.update original = .ok active

variable {before : List ActiveSessionRecord} {w : World Shared Call} {s s' : Shared}
  {r : Request} {stage' : Stage} {c : Nat} {calls : List Call}

theorem serialable_start (backend : Backend) : Serialable backend.active ⟨⟨backend, 0⟩, []⟩ :=
  ⟨⟨[], serial_start⟩, fun _ _ _ _ h => absurd h List.not_mem_nil⟩

theorem standing_get (hc : calls[c]? = some ⟨r, stage⟩) :
    (calls.map Call.standing)[c]? = some (standingOf r stage) := by
  rw [List.getElem?_map, hc]
  rfl

theorem Serialable.put (h : Serialable before ⟨s, calls⟩)
    (hserial : ∃ log, Serial Request.update before s'.backend.active s'.version
      ((calls.map Call.standing).set c (standingOf r stage')) log)
    (hsaving : ∀ version original active, stage' = .saving version original active →
      r.update original = .ok active) : Serialable before ⟨s', calls.set c ⟨r, stage'⟩⟩ where
  serial := by
    rw [List.map_set]
    exact hserial
  updated r' version original active hm := by
    rcases List.mem_or_eq_of_mem_set hm with hm | heq
    · exact h.updated r' version original active hm
    · cases heq
      exact hsaving version original active rfl

/-- A step that touches neither the list nor the call's standing. -/
theorem Serialable.aside (h : Serialable before ⟨s, calls⟩) (hc : calls[c]? = some ⟨r, stage⟩)
    (hs : s'.backend.active = s.backend.active ∧ s'.version = s.version)
    (hstanding : standingOf r stage' = standingOf r stage)
    (hsaving : ∀ version original active, stage' ≠ .saving version original active) :
    Serialable before ⟨s', calls.set c ⟨r, stage'⟩⟩ := by
  obtain ⟨log, hlog⟩ := h.serial
  refine h.put ⟨log, ?_⟩ fun version original active he => absurd he (hsaving _ _ _)
  rw [hs.1, hs.2, hstanding]
  exact hlog.stay (standing_get hc)

/-- What a step outside of the window between load and persist leaves. -/
def Aside (s s' : Shared) (stage' : Stage) : Prop :=
  (s'.backend.active = s.backend.active ∧ s'.version = s.version) ∧
    (stage' = .driving ∨ stage' = .loading ∨ ∃ e, stage' = .done (.error e))

theorem enterStep_aside (s : Shared) (r : Request) :
    Aside s (enterStep s r).1 (enterStep s r).2 := by
  unfold enterStep Aside
  split
  · split
    · exact ⟨⟨rfl, rfl⟩, .inr (.inr ⟨_, rfl⟩)⟩
    · split
      · exact ⟨⟨rfl, rfl⟩, .inr (.inr ⟨_, rfl⟩)⟩
      · refine ⟨⟨rfl, rfl⟩, ?_⟩
        cases s.backend.driver
        · exact .inr (.inr ⟨_, rfl⟩)
        · exact .inl rfl
  · split
    · exact ⟨⟨rfl, rfl⟩, .inr (.inr ⟨_, rfl⟩)⟩
    · refine ⟨⟨rfl, rfl⟩, ?_⟩
      cases s.backend.driver
      · exact .inr (.inr ⟨_, rfl⟩)
      · exact .inl rfl
  · exact ⟨⟨rfl, rfl⟩, .inr (.inl rfl)⟩

theorem driveStep_aside (s : Shared) (r : Request) :
    Aside s (driveStep s r).1 (driveStep s r).2 := by
  unfold driveStep Aside
  split
  · split
    · exact ⟨⟨rfl, rfl⟩, .inr (.inr ⟨_, rfl⟩)⟩
    · exact ⟨⟨rfl, rfl⟩, .inr (.inl rfl)⟩
  · split
    · exact ⟨⟨rfl, rfl⟩, .inr (.inr ⟨_, rfl⟩)⟩
    · exact ⟨⟨rfl, rfl⟩, .inr (.inl rfl)⟩
  · exact ⟨⟨rfl, rfl⟩, .inr (.inl rfl)⟩

theorem undoStep_aside (s : Shared) (r : Request) (e : Error) :
    Aside s (undoStep s r e).1 (undoStep s r e).2 := by
  unfold undoStep Aside
  split
  · split <;> exact ⟨⟨rfl, rfl⟩, .inr (.inr ⟨_, rfl⟩)⟩
  · exact ⟨⟨rfl, rfl⟩, .inr (.inr ⟨_, rfl⟩)⟩

theorem Aside.serialable (ha : Aside s s' stage') (h : Serialable before ⟨s, calls⟩)
    (hc : calls[c]? = some ⟨r, stage⟩) (hout : standingOf r stage = .out) :
    Serialable before ⟨s', calls.set c ⟨r, stage'⟩⟩ := by
  obtain ⟨hs, hstage⟩ := ha
  rcases hstage with rfl | rfl | ⟨e, rfl⟩
  · exact h.aside hc hs hout.symm fun _ _ _ he => by cases he
  · exact h.aside hc hs hout.symm fun _ _ _ he => by cases he
  · exact h.aside hc hs hout.symm fun _ _ _ he => by cases he

section
variable (h : Serialable before ⟨s, calls⟩)
include h

theorem Serialable.load (hc : calls[c]? = some ⟨r, .loading⟩) :
    Serialable before ⟨(loadStep s r).1, calls.set c ⟨r, (loadStep s r).2⟩⟩ := by
  unfold loadStep
  split
  · exact h.aside hc ⟨rfl, rfl⟩ rfl fun _ _ _ he => by cases he
  · next active hactive =>
    obtain ⟨log, hlog⟩ := h.serial
    refine h.put ⟨log, hlog.move (standing_get hc) rfl ?_ fun _ _ _ he => by cases he⟩ ?_
    · rintro v x ⟨⟩
      exact ⟨rfl, rfl⟩
    · rintro version original active ⟨⟩
      exact hactive

theorem Serialable.save (hc : calls[c]? = some ⟨r, .saving s.version original active⟩) :
    Serialable before ⟨s.save active, calls.set c ⟨r, .persisting (s.version + 1) original⟩⟩ := by
  obtain ⟨log, hlog⟩ := h.serial
  have hupdate := h.updated r s.version original active (List.mem_of_getElem? hc)
  exact h.put ⟨_, hlog.save (standing_get hc) hupdate⟩ fun _ _ _ he => by cases he

theorem Serialable.persist (hc : calls[c]? = some ⟨r, .persisting version original⟩) :
    Serialable before ⟨(persistStep s r version original).1,
      calls.set c ⟨r, (persistStep s r version original).2⟩⟩ := by
  obtain ⟨log, hlog⟩ := h.serial
  have hkept := hlog.keep (standing_get hc)
  unfold persistStep
  split
  · exact h.aside hc ⟨rfl, rfl⟩ rfl fun _ _ _ he => by cases he
  · split <;> exact h.put ⟨log, hkept⟩ fun _ _ _ he => by cases he

theorem Serialable.restore (hc : calls[c]? = some ⟨r, .restoring s.version original e⟩) :
    Serialable before ⟨(restoreStep s r original e).1,
      calls.set c ⟨r, (restoreStep s r original e).2⟩⟩ := by
  obtain ⟨log, hlog⟩ := h.serial
  obtain ⟨before', hundo⟩ := hlog.undo (standing_get hc)
  unfold restoreStep
  split <;> exact h.put ⟨before', hundo⟩ fun _ _ _ he => by cases he

theorem Serialable.step (hc : calls[c]? = some ⟨r, stage⟩)
    (hcurrent : current s stage = true) (ha : stageStep s r stage = some m) :
    Serialable before ⟨m.1, calls.set c ⟨r, m.2⟩⟩ := by
  cases stage with
  | entered =>
    cases ha
    exact (enterStep_aside s r).serialable h hc rfl
  | driving =>
    cases ha
    exact (driveStep_aside s r).serialable h hc rfl
  | loading =>
    cases ha
    exact h.load hc
  | saving version original active =>
    cases ha
    obtain rfl := of_decide_eq_true hcurrent
    exact h.save hc
  | persisting version original =>
    cases ha
    exact h.persist hc
  | restoring version original e =>
    cases ha
    obtain rfl := of_decide_eq_true hcurrent
    exact h.restore hc
  | undoing e =>
    cases ha
    exact (undoStep_aside s r e).serialable h hc rfl
  | releasing =>
    cases ha
    unfold releaseStep
    split <;> exact h.aside hc ⟨rfl, rfl⟩ rfl fun _ _ _ he => by cases he
  | done result => cases ha
end

theorem serialable_reached (h : Reached backend exclusive w) : Serialable backend.active w := by
  refine h.keeps (serialable_start backend) ?_ ?_ ?_
  · intro w r hw _
    obtain ⟨log, hlog⟩ := hw.serial
    refine ⟨⟨log, ?_⟩, fun r' version original active hm => ?_⟩
    · rw [List.map_append]
      exact hlog.enter
    · rcases List.mem_append.mp hm with hm | hm
      · exact hw.updated r' version original active hm
      · cases List.mem_singleton.mp hm
  · intro w c o call s' call' hw hok hc ha
    obtain ⟨m, hm, heq⟩ := Option.map_eq_some_iff.mp ha
    cases heq
    refine hw.step hc ?_ hm
    simpa [exclusive, hc] using hok
  · intro w c call s' call' _ _ _ ha
    cases ha

/-- Once all calls are over, those with an effect are those that succeeded. -/
theorem sum_effect_finished (h : ∀ call ∈ calls, call.finished = true) :
    sum effect (calls.map Call.standing) =
      ((calls.filter Call.succeeded).map Call.request : List Request) := by
  induction calls with
  | nil => rfl
  | cons call calls ih =>
    have ih := ih fun call' h' => h call' (List.mem_cons_of_mem call h')
    have hdone := h call List.mem_cons_self
    obtain ⟨r, stage⟩ := call
    cases stage with
    | done result =>
      change effect (standingOf r (.done result)) + sum effect (calls.map Call.standing) = _
      rw [ih]
      cases result with
      | error e => exact zero_add _
      | ok u => rfl
    | _ => cases hdone

theorem no_lost_update {backend : Backend} (h : Reached backend exclusive w)
    (hdone : ∀ call ∈ w.calls, call.finished = true) : Serialized backend.active w := by
  obtain ⟨log, hlog⟩ := (serialable_reached h).serial
  refine ⟨log, ?_, hlog.replayed⟩
  rw [← Multiset.coe_eq_coe, hlog.counted, sum_effect_finished hdone]

def node : Backend := .new ⟨2, ⟨4, 4⟩⟩ true true

def launching (sandboxId : Str) : Request :=
  ⟨.create { sandboxId, templateId := str "base", resources := ⟨1, 1⟩ },
    ⟨.ok 0, .ok ⟨sandboxId, [], none⟩, .ok (), .ok (), 0⟩⟩

def launched : List (Event Request Unit) :=
  [.call (launching (str "a")), .call (launching (str "b")),
    .step 0 (), .step 1 (), .step 0 (), .step 1 ()]

theorem no_lost_update_in_turn : ∃ w, Reached node exclusive w ∧
    w.calls.map Call.succeeded = [true, true] ∧ Serialized node.active w := by
  have hrun : (run machine exclusive ⟨⟨node, 0⟩, []⟩ (launched ++
      [.step 0 (), .step 0 (), .step 0 (), .step 1 (), .step 1 (), .step 1 ()])).any (fun w =>
        decide (w.calls.map Call.succeeded = [true, true] ∧
          ∀ call ∈ w.calls, call.finished = true)) = true := by decide +kernel
  obtain ⟨w, hw, htest⟩ := reachable_run_any hrun
  obtain ⟨hok, hdone⟩ := of_decide_eq_true htest
  exact ⟨w, hw, hok, no_lost_update hw hdone⟩

def crossed : List (Event Request Unit) :=
  launched ++ [.step 0 (), .step 1 (), .step 0 (), .step 1 (), .step 0 (), .step 1 ()]

/-- Both creates succeed and one of the sandboxes is lost. -/
theorem create_overwrites : ∃ w, Reached node (fun _ _ => true) w ∧
    (∀ call ∈ w.calls, call.finished = true) ∧ ¬Serialized node.active w := by
  have hrun : run machine (fun _ _ => true) ⟨⟨node, 0⟩, []⟩ crossed =
      some ⟨_, [⟨launching (str "a"), .done (.ok ())⟩,
        ⟨launching (str "b"), .done (.ok ())⟩]⟩ := rfl
  refine ⟨_, reachable_run hrun, by simp [Call.finished], ?_⟩
  rintro ⟨order, hperm, hreplay⟩
  rcases List.perm_pair.mp hperm with rfl | rfl <;> exact absurd hreplay (by decide +kernel)

end SingleNodeUpdates
