import Firkin.CoreTypes
import Firkin.FaultMonad
import Firkin.GuardedRun

/-! # Waiting for a container and stopping it

The exit status of the init process is stored before the clean-up that can fail, and a call that
finds it stored does nothing more. Signalling the init process comes before everything else. -/
namespace ContainerStop

open Ext4Types CoreTypes FaultMonad GuardedRun Keeps

/-- `vmStopped` and `initExited` are facts about the VM and the init process, not fields. -/
structure ContainerRuntime where
  exitStatus : Option ExitStatus := none
  socketProxyIds : List Str := []
  socketTasks : List Nat := []
  stopVmOnWait : Bool
  vmStopped : Bool := false
  initExited : Bool := false

/-- What the RPCs and the VM answer during one call. `terminate` and `kill` answer the two signals;
a VM may be down although stopping it failed. -/
structure Answers where
  waitProcess : Except Str Int32
  stopVm : Except Str Unit
  downAnyway : Bool := false
  terminate : Except Str Unit
  kill : Except Str Unit

abbrev Method := EStateM Error ContainerRuntime

def rpc {α : Type} (operation : Str) (answer : Except Str α) : Method α :=
  MonadExcept.ofExcept (answer.mapError (.runtimeOperation operation))

def reap (a : Answers) : Method ExitStatus := do
  let code ← rpc (str "wait process") a.waitProcess
  modify fun r => { r with exitStatus := some (.fromCode code), initExited := true }
  return .fromCode code

def stopSocketRelays : Method Unit :=
  modify fun r => { r with socketProxyIds := [], socketTasks := [] }

def stopVm (a : Answers) : Method Unit := do
  modify fun r => { r with vmStopped := r.vmStopped || a.stopVm.isOk || a.downAnyway }
  rpc (str "stop VM") a.stopVm

def wait (a : Answers) : Method ExitStatus := do
  match (← get).exitStatus with
  | some status => return status
  | none =>
    let status ← reap a
    stopSocketRelays
    if (← get).stopVmOnWait then stopVm a
    return status

inductive Cut where
  | waiting
  | cleaning
  | stopping (vmDown : Bool)

def waitUntil (a : Answers) (cut : Cut) : Method Unit := do
  match (← get).exitStatus, cut with
  | some _, _ | none, .waiting => return ()
  | none, .cleaning =>
    let _ ← reap a
    stopSocketRelays
  | none, .stopping vmDown =>
    let _ ← reap a
    stopSocketRelays
    modify fun r => { r with vmStopped := r.vmStopped || vmDown }

/-- The wait and the two captures are joined: the first failure drops the others. -/
def waitWithOutput (a : Answers) (captured : Except (Cut × Error) (List UInt8 × List UInt8)) :
    Method Output := do
  match captured with
  | .ok (stdout, stderr) =>
    let status ← wait a
    return ⟨status, stdout, stderr⟩
  | .error (cut, e) =>
    waitUntil a cut
    throw e

/-- The second signal is sent after the grace period, and its answer is ignored. -/
def stopWithGrace (a : Answers) : Method ExitStatus := do
  match (← get).exitStatus with
  | some status => return status
  | none =>
    rpc (str "kill process") a.terminate
    tryCatch (rpc (str "kill process") a.kill) fun _ => pure ()
    wait a

section
variable {a : Answers} {r : ContainerRuntime}

theorem wait_cached (h : r.exitStatus = some status) : wait a r = .ok status r := by
  unfold wait
  rw [bind_of_ok (run_get r), h]
  rfl

theorem keeps_rpc {α : Type} {operation : Str} {answer : Except Str α} :
    Keeps ContainerRuntime.stopVmOnWait (rpc operation answer) :=
  (reads_ofExcept _).keeps

theorem keeps_reap (a : Answers) : Keeps ContainerRuntime.stopVmOnWait (reap a) := by
  refine bind keeps_rpc fun code => ?_
  refine bind ?_ fun _ => (reads_pure _).keeps
  exact keeps_modify fun _ => rfl

theorem stopVm_ok (h : stopVm a r = .ok u t) : t.vmStopped = true := by
  cases hstop : a.stopVm with
  | error e =>
    rw [stopVm, hstop] at h
    cases h
  | ok _ =>
    rw [stopVm, hstop] at h
    cases h
    change (r.vmStopped || true || a.downAnyway) = true
    rw [Bool.or_true, Bool.true_or]

/-- A wait that succeeds without a stored status has stopped a VM of its own. -/
theorem wait_fresh (hfresh : r.exitStatus = none) (howns : r.stopVmOnWait = true)
    (h : wait a r = .ok status t) : t.vmStopped = true := by
  unfold wait at h
  rw [bind_of_ok (run_get r), hfresh] at h
  obtain ⟨status', u, hreap, h⟩ := bind_eq_ok.mp h
  obtain ⟨_, v, hrelays, h⟩ := bind_eq_ok.mp h
  cases hrelays
  have hflag : u.stopVmOnWait = true := ((keeps_reap a).of_ok hreap).trans howns
  rw [bind_of_ok (run_get _), if_pos hflag] at h
  obtain ⟨_, w, hvm, hpure⟩ := bind_eq_ok.mp h
  cases hpure
  exact stopVm_ok hvm

theorem stopWithGrace_cached (h : r.exitStatus = some status) :
    stopWithGrace a r = .ok status r := by
  unfold stopWithGrace
  rw [bind_of_ok (run_get r), h]
  rfl

theorem stopWithGrace_unsignalled (hfresh : r.exitStatus = none) (h : a.terminate = .error e) :
    stopWithGrace a r = .error (.runtimeOperation (str "kill process") e) r := by
  unfold stopWithGrace
  rw [bind_of_ok (run_get r), hfresh]
  exact bind_of_error (by rw [h]; rfl)

theorem stopWithGrace_signalled (hfresh : r.exitStatus = none) (h : a.terminate = .ok ()) :
    stopWithGrace a r = wait a r := by
  unfold stopWithGrace
  rw [bind_of_ok (run_get r), hfresh]
  have hkill : tryCatch (rpc (str "kill process") a.kill) (fun _ => pure ()) r = .ok () r := by
    cases hk : a.kill with
    | ok u => rfl
    | error e => rfl
  exact (bind_of_ok (by rw [h]; rfl)).trans (bind_of_ok hkill)
end

/-- `exits` is the init process coming to its end. -/
inductive Call where
  | exits
  | wait (a : Answers)
  | waitWithOutput (a : Answers) (captured : Except (Cut × Error) (List UInt8 × List UInt8))
  | stopWithGrace (a : Answers)

def step (r : ContainerRuntime) : Call → ContainerRuntime
  | .exits => { r with initExited := true }
  | .wait a => left (wait a r)
  | .waitWithOutput a captured => left (waitWithOutput a captured r)
  | .stopWithGrace a => left (stopWithGrace a r)

/-- An answer `Ok` comes with a stopped VM. -/
def Stopped {α : Type} (result : EStateM.Result Error ContainerRuntime α) : Prop :=
  ∀ x t, result = .ok x t → t.vmStopped = true

/-- The init process is gone and cannot be signalled, but it can be waited for and the VM can be
stopped. -/
def GoneBefore (r : ContainerRuntime) (a : Answers) : Prop :=
  r.initExited = true ∧ a.terminate.isOk = false ∧ a.waitProcess.isOk = true ∧ a.stopVm.isOk = true

def Right (r : ContainerRuntime) : Call → Prop
  | .exits => True
  | .wait a => Stopped (wait a r)
  | .waitWithOutput a captured => Stopped (waitWithOutput a captured r)
  | .stopWithGrace a =>
    Stopped (stopWithGrace a r) ∧ (GoneBefore r a → (left (stopWithGrace a r)).vmStopped = true)

/-- No exit status is stored beside a VM that runs, and a container whose init process is gone is
waited for before it is stopped. -/
def Careful (r : ContainerRuntime) : Call → Prop
  | .exits => True
  | .wait _ => r.exitStatus.isSome = true → r.vmStopped = true
  | .waitWithOutput _ captured =>
    captured.isOk = true → r.exitStatus.isSome = true → r.vmStopped = true
  | .stopWithGrace a =>
    (r.exitStatus.isSome = true → r.vmStopped = true) ∧
      (r.exitStatus.isSome = false → GoneBefore r a → r.vmStopped = true)

section
variable {r : ContainerRuntime}

theorem stopped_wait_iff (howns : r.stopVmOnWait = true) (a : Answers) :
    Stopped (wait a r) ↔ (r.exitStatus.isSome = true → r.vmStopped = true) := by
  cases hstatus : r.exitStatus with
  | none => exact iff_of_true (fun status t h => wait_fresh hstatus howns h) (fun h => by cases h)
  | some status =>
    rw [wait_cached hstatus]
    constructor
    · intro h _
      exact h status r rfl
    · rintro h x t ⟨⟩
      exact h rfl

theorem stopped_map_iff {α β : Type} {m : Method α} {f : α → β} :
    Stopped ((m >>= fun x => pure (f x)) r) ↔ Stopped (m r) := by
  cases hm : m r with
  | error e t =>
    rw [bind_of_error hm]
    constructor <;> rintro _ x t ⟨⟩
  | ok x t =>
    rw [bind_of_ok hm]
    constructor
    · rintro h x t ⟨⟩
      exact h (f x) t rfl
    · rintro h y t ⟨⟩
      exact h x t rfl

theorem stopped_waitUntil_throw (a : Answers) (cut : Cut) (e : Error) :
    Stopped ((waitUntil a cut >>= fun _ => (throw e : Method Output)) r) := by
  intro x t h
  obtain ⟨u, s, -, hthrow⟩ := bind_eq_ok.mp h
  cases hthrow

section
variable (howns : r.stopVmOnWait = true)
include howns

theorem stopped_waitWithOutput_iff (a : Answers)
    (captured : Except (Cut × Error) (List UInt8 × List UInt8)) :
    Stopped (waitWithOutput a captured r) ↔
      (captured.isOk = true → r.exitStatus.isSome = true → r.vmStopped = true) := by
  unfold waitWithOutput
  cases captured with
  | ok outputs =>
    rw [stopped_map_iff, stopped_wait_iff howns]
    exact ⟨fun h _ => h, fun h => h rfl⟩
  | error failure =>
    exact iff_of_true (stopped_waitUntil_throw a failure.1 failure.2) (fun h => by cases h)

theorem right_stopWithGrace_iff (a : Answers) :
    Right r (.stopWithGrace a) ↔ Careful r (.stopWithGrace a) := by
  rw [Right, Careful]
  cases hstatus : r.exitStatus with
  | some status =>
    rw [stopWithGrace_cached hstatus]
    constructor
    · intro h
      exact ⟨fun _ => h.1 status r rfl, fun hnone => by cases hnone⟩
    · intro h
      have hstopped := h.1 rfl
      refine ⟨?_, fun _ => hstopped⟩
      rintro x t ⟨⟩
      exact hstopped
  | none =>
    cases hterm : a.terminate with
    | error e =>
      rw [stopWithGrace_unsignalled hstatus hterm]
      constructor
      · intro h
        exact ⟨(by rintro ⟨⟩), fun _ => h.2⟩
      · intro h
        refine ⟨?_, h.2 rfl⟩
        rintro x t ⟨⟩
    | ok u =>
      have hnot : ¬GoneBefore r a := by
        rintro ⟨-, hfails, -⟩
        rw [hterm] at hfails
        cases hfails
      rw [stopWithGrace_signalled hstatus hterm]
      have hstops : Stopped (wait a r) := fun x t h => wait_fresh hstatus howns h
      exact iff_of_true ⟨hstops, fun h => absurd h hnot⟩ ⟨(by rintro ⟨⟩), fun _ h => absurd h hnot⟩

theorem right_iff (call : Call) : Right r call ↔ Careful r call := by
  cases call with
  | exits => exact Iff.rfl
  | wait a => exact stopped_wait_iff howns a
  | waitWithOutput a captured => exact stopped_waitWithOutput_iff howns a captured
  | stopWithGrace a => exact right_stopWithGrace_iff howns a
end

theorem keeps_stopSocketRelays : Keeps ContainerRuntime.stopVmOnWait stopSocketRelays :=
  keeps_modify fun _ => rfl

theorem keeps_wait (a : Answers) : Keeps ContainerRuntime.stopVmOnWait (wait a) := by
  refine bind reads_get.keeps fun r => ?_
  split
  · exact (reads_pure _).keeps
  · refine bind (keeps_reap a) fun status => ?_
    refine bind keeps_stopSocketRelays fun _ => ?_
    refine bind reads_get.keeps fun r => ?_
    split
    · refine bind ?_ fun _ => (reads_pure _).keeps
      refine bind ?_ fun _ => keeps_rpc
      exact keeps_modify fun _ => rfl
    · exact (reads_pure _).keeps

theorem keeps_waitUntil (a : Answers) (cut : Cut) :
    Keeps ContainerRuntime.stopVmOnWait (waitUntil a cut) := by
  refine bind reads_get.keeps fun r => ?_
  split
  · exact (reads_pure _).keeps
  · exact (reads_pure _).keeps
  · exact bind (keeps_reap a) fun _ => keeps_stopSocketRelays
  · refine bind (keeps_reap a) fun _ => bind keeps_stopSocketRelays fun _ => ?_
    exact keeps_modify fun _ => rfl

theorem keeps_stopWithGrace (a : Answers) :
    Keeps ContainerRuntime.stopVmOnWait (stopWithGrace a) := by
  refine bind reads_get.keeps fun r => ?_
  split
  · exact (reads_pure _).keeps
  · refine bind keeps_rpc fun _ => bind ?_ fun _ => keeps_wait a
    exact tryCatch keeps_rpc fun _ => (reads_pure _).keeps

theorem owns_step (howns : r.stopVmOnWait = true) (call : Call) :
    (step r call).stopVmOnWait = true := by
  cases call with
  | exits => exact howns
  | wait a => exact (keeps_wait a r).trans howns
  | waitWithOutput a captured =>
    refine Eq.trans ?_ howns
    change ContainerRuntime.stopVmOnWait (left (waitWithOutput a captured r)) = _
    cases captured with
    | ok outputs => exact bind (keeps_wait a) (fun _ => (reads_pure _).keeps) r
    | error failure =>
      exact bind (keeps_waitUntil a failure.1) (fun _ => (reads_throw _).keeps) r
  | stopWithGrace a => exact (keeps_stopWithGrace a r).trans howns
end

/-- For a container with a VM of its own, every call of a history is right exactly if no call
finds an exit status stored beside a running VM, and no stop finds the init process gone. -/
theorem right_along_history_iff (r₀ : ContainerRuntime) (howns : r₀.stopVmOnWait = true)
    (calls : List Call) :
    (∀ before call rest, calls = before ++ call :: rest → Right (run step r₀ before) call) ↔
      Meets step Careful r₀ calls := by
  have hsplit := @meets_iff_forall _ _ step Right r₀ calls
  rw [← hsplit]
  refine meets_congr (I := fun r => r.stopVmOnWait = true) howns
    (fun r call h => right_iff h call) ?_
  exact fun r call h _ => owns_step h call

def fine : Answers := ⟨.ok 0, .ok (), false, .ok (), .ok ()⟩
def vmStaysUp : Answers := { fine with stopVm := .error (str "busy") }

def noSuchProcess : Answers :=
  { fine with terminate := .error (str "not found"), kill := .error (str "not found") }

/-- A container that is waited for twice. -/
theorem right_along_two_waits :
    Right (run step { stopVmOnWait := true } [.exits, .wait fine]) (.wait fine) := by
  refine (right_along_history_iff { stopVmOnWait := true } rfl
    [.exits, .wait fine, .wait fine]).mpr ⟨trivial, fun h => ?_, fun _ => rfl, trivial⟩
    [.exits, .wait fine] (.wait fine) [] rfl
  cases h

/-- The second wait answers `Ok` with the VM up, and a stop after the exit leaves the VM up. -/
theorem vm_outlives_container :
    ¬Right (run step { stopVmOnWait := true } [.exits, .wait vmStaysUp]) (.wait fine) ∧
      ¬Right (run step { stopVmOnWait := true } [.exits]) (.stopWithGrace noSuchProcess) := by
  constructor
  · intro h
    have hup := h (.fromCode 0) _ rfl
    cases hup
  · intro h
    have hup := h.2 ⟨rfl, rfl, rfl, rfl⟩
    cases hup

end ContainerStop
