import Firkin.HostAdapter

/-! # Host starts that fail

`start` of the host adapter cleans up after itself by killing the start command of the template.
The listener tasks have no such cleanup: what fails after the first of them was spawned leaves
it behind, and the timeout is looked at when the sandbox is already entered. -/
namespace HostStart

open Ext4Types E2bTypes SortedTable FaultMonad HostAdapter

/-- Spawned between two states of the adapter and still running in the second. -/
def LeftRunning (h h' : Host) (task : Nat) : Prop :=
  h.spawned ≤ task ∧ task < h'.spawned ∧ task ∈ h'.running

/-- If the call returns an error, there is no entry under the id it was to give, and nothing it
has spawned is running. -/
def LeavesNothing (o : StartOutcomes) (domain : Str) (request : StartSandboxRequest) (h : Host) :
    Prop :=
  ∀ error h', start o domain request h = .error (.backend error) h' →
    h.nextSandboxId ∉ h'.sandboxes ∧ ∀ task, ¬LeftRunning h h' task

def Opens (o : StartOutcomes) (request : StartSandboxRequest) (sandboxId : Str) : Prop :=
  o.createRuntimeRoot = .ok () ∧
  ∃ metadata, templateMetadata o request.preparedTemplate = .ok metadata ∧
    (∀ command ∈ metadata.startCmd, o.spawnStart command = .ok ()) ∧
    runReady o metadata.readyCmd = .ok () ∧
    ∃ port, openEnvd o.envd sandboxId request.createRequest.volumeMounts = .ok port

def Listens (o : EnvdOutcomes) : Prop :=
  o.bindCodeInterpreter.isOk = true ∧ o.codeInterpreterAddress.isOk = true ∧
    o.bindMcp.isOk = true ∧ o.mcpAddress.isOk = true

def timeoutOf (request : StartSandboxRequest) : Nat :=
  (request.createRequest.timeout.getD 300).toNat

section
variable {α : Type} {h : Host}

theorem orKill_ok {children step} (hs : step h = .ok a t) : orKill children step h = .ok a t := by
  rw [orKill, run_tryCatch, hs]

theorem orKill_error {step : Adapter α} (hs : step h = .error (.backend e) t) :
    orKill children step h =
      .error (.backend e) { t with running := t.running.filter (· ∉ children) } := by
  rw [orKill, run_tryCatch, hs]
  rfl

theorem exists_of_isOk {ε : Type} {r : Except ε α} (hr : r.isOk = true) : ∃ a, r = .ok a := by
  cases r with
  | ok a => exact ⟨a, rfl⟩
  | error e => cases hr

variable {id : Str}

theorem startEnvd_unopened (ho : openEnvd o id mounts = .error e) :
    startEnvdForSandbox o id paused envs mounts children h = .error (.backend e) h := by
  unfold startEnvdForSandbox
  rw [ho]
  exact bind_of_error (lift_error e)

/-- The first task is spawned before the other listeners are bound. -/
theorem startEnvd_unheard (ho : openEnvd o id mounts = .ok port) (hl : ¬Listens o) :
    ∃ e t, startEnvdForSandbox o id paused envs mounts children h = .error (.backend e) t ∧
      h.spawned < t.spawned ∧ h.spawned ∈ t.running := by
  unfold startEnvdForSandbox
  rw [ho, bind_of_ok (lift_ok port), spawn, bind_of_ok (run_modifyGet h)]
  cases hbind : o.bindCodeInterpreter with
  | error e => exact ⟨_, _, bind_of_error (check_error e), by simp, by simp⟩
  | ok u =>
    rw [bind_of_ok (check_ok u)]
    cases haddr : o.codeInterpreterAddress with
    | error e => exact ⟨_, _, bind_of_error (check_error e), by simp, by simp⟩
    | ok codePort =>
      rw [bind_of_ok (check_ok codePort), bind_of_ok (run_modifyGet _)]
      cases hmcp : o.bindMcp with
      | error e => exact ⟨_, _, bind_of_error (check_error e), by simp, by simp⟩
      | ok v =>
        rw [bind_of_ok (check_ok v)]
        cases hmcpAddr : o.mcpAddress with
        | error e => exact ⟨_, _, bind_of_error (check_error e), by simp, by simp⟩
        | ok mcpPort =>
          exact absurd (by simp [Listens, hbind, haddr, hmcp, hmcpAddr, Except.toBool]) hl

theorem startEnvd_entered (ho : openEnvd o id mounts = .ok port) (hl : Listens o) :
    ∃ p t, startEnvdForSandbox o id paused envs mounts children h = .ok p t ∧
      id ∈ t.sandboxes := by
  obtain ⟨u, hbind⟩ := exists_of_isOk hl.1
  obtain ⟨codePort, haddr⟩ := exists_of_isOk hl.2.1
  obtain ⟨v, hmcp⟩ := exists_of_isOk hl.2.2.1
  obtain ⟨mcpPort, hmcpAddr⟩ := exists_of_isOk hl.2.2.2
  unfold startEnvdForSandbox
  rw [ho, bind_of_ok (lift_ok port), spawn, bind_of_ok (run_modifyGet h), hbind,
    bind_of_ok (check_ok u), haddr, bind_of_ok (check_ok codePort),
    bind_of_ok (run_modifyGet _), hmcp, bind_of_ok (check_ok v), hmcpAddr,
    bind_of_ok (check_ok mcpPort), bind_of_ok (run_modifyGet _), bind_of_ok (run_get _)]
  cases h.sandboxes[id]? with
  | none | some => exact ⟨_, _, rfl, Std.ExtTreeMap.mem_insert_self⟩
end

section
variable {o : StartOutcomes} (domain : Str) {id : Str} {request : StartSandboxRequest}
  {metadata : HostTemplateMetadata} (children : List Nat)

/-- The listeners are not reached: all that was spawned are the children, and they are killed. -/
theorem finish_closed (hfail : ¬(runReady o metadata.readyCmd = .ok () ∧
      ∃ port, openEnvd o.envd id request.createRequest.volumeMounts = .ok port)) :
    ∃ e, finishStart o domain request id metadata children h =
      .error (.backend e) { h with running := h.running.filter (· ∉ children) } := by
  unfold finishStart
  cases hready : runReady o metadata.readyCmd with
  | error e => exact ⟨e, bind_of_error (orKill_error (lift_error e))⟩
  | ok u =>
    cases hopen : openEnvd o.envd id request.createRequest.volumeMounts with
    | ok port => exact absurd ⟨hready, port, hopen⟩ hfail
    | error e =>
      refine ⟨e, (bind_of_ok (orKill_ok (lift_ok u))).trans ?_⟩
      exact bind_of_error (orKill_error (startEnvd_unopened hopen))

section
variable (hready : runReady o metadata.readyCmd = .ok ())
  (hopen : openEnvd o.envd id request.createRequest.volumeMounts = .ok port)
include hready hopen

/-- The first listener task survives the failure of another listener. -/
theorem finish_unheard (hl : ¬Listens o.envd) (hc : h.spawned ∉ children) :
    ∃ e t, finishStart o domain request id metadata children h = .error (.backend e) t ∧
      h.spawned < t.spawned ∧ h.spawned ∈ t.running := by
  unfold finishStart
  rw [hready]
  obtain ⟨e, t, hrun, hlt, hmem⟩ := startEnvd_unheard (h := h) hopen hl
  refine ⟨e, _, (bind_of_ok (orKill_ok (lift_ok ()))).trans (bind_of_error (orKill_error hrun)),
    hlt, List.mem_filter.mpr ⟨hmem, ?_⟩⟩
  exact decide_eq_true hc

theorem finish_timed (hl : Listens o.envd) : ∃ t, id ∈ t.sandboxes ∧
    finishStart o domain request id metadata children h =
      match timestamps o.clock (request.createRequest.timeout <|> some 300) with
      | .error e => .error e t
      | .ok times => .ok {
          config := {
            sandboxId := id, domain, envdVersion := str "host"
            envdAccessToken := some (str "host-envd-token")
            trafficAccessToken := some (str "host-traffic-token")
            startedAt := times.1, endAt := times.2, cpuCount := 1, memoryMb := 512 }
          exposedPorts := [49983, 49999, 50005] } t := by
  unfold finishStart
  rw [hready]
  obtain ⟨p, t, hrun, hmem⟩ := startEnvd_entered (h := h) hopen hl
  refine ⟨t, hmem, (bind_of_ok (orKill_ok (lift_ok ()))).trans ?_⟩
  refine (bind_of_ok (orKill_ok hrun)).trans ?_
  cases timestamps o.clock (request.createRequest.timeout <|> some 300) <;> rfl
end

end

theorem timestamps_cases (clock : Clock) (request : StartSandboxRequest) :
    (∃ e, timestamps clock (request.createRequest.timeout <|> some 300) = .error (.backend e)) ↔
      2 ^ 63 ≤ timeoutOf request := by
  have htimeout : (request.createRequest.timeout <|> some 300).getD 300 =
      request.createRequest.timeout.getD 300 := by
    cases request.createRequest.timeout <;> rfl
  unfold timestamps timeoutOf
  rw [htimeout]
  dsimp only
  split
  · next hbig => exact iff_of_true ⟨_, rfl⟩ hbig
  · next hsmall =>
    refine iff_of_false ?_ hsmall
    rintro ⟨e, he⟩
    split at he <;> cases he

section
variable {o : StartOutcomes} (domain : Str) {request : StartSandboxRequest} {h : Host}

def taken (h : Host) : Host := { h with nextSandbox := h.nextSandboxNumber }

theorem start_rooted (hroot : o.createRuntimeRoot = .ok ()) :
    start o domain request h = (do
      let metadata ← lift (templateMetadata o request.preparedTemplate)
      let children ← startChildren o metadata.startCmd
      finishStart o domain request h.nextSandboxId metadata children : Adapter RuntimeSandbox)
        (taken h) := by
  unfold start
  rw [hroot]
  rfl

/-- The children of a start: none, or the one command that could be spawned. -/
theorem startChildren_ok (hs : ∀ c ∈ command, o.spawnStart c = .ok ()) :
    ∃ children t, startChildren o command h = .ok children t ∧ t.sandboxes = h.sandboxes ∧
      h.spawned ≤ t.spawned ∧ t.spawned ∉ children ∧
      ∀ task, h.spawned ≤ task → task < t.spawned → task ∈ children := by
  cases command with
  | none => exact ⟨[], h, rfl, rfl, Nat.le_refl _, List.not_mem_nil, fun _ hle hlt => by omega⟩
  | some c =>
    simp only [startChildren, hs c rfl]
    refine ⟨[h.spawned], _, rfl, rfl, Nat.le_succ _, by simp, fun task hle hlt => ?_⟩
    exact List.mem_singleton.mpr (by dsimp only at hlt; omega)

theorem startChildren_error (hs : ¬∀ c ∈ command, o.spawnStart c = .ok ()) :
    ∃ e, startChildren o command h = .error (.backend e) h := by
  cases command with
  | none => exact absurd (fun _ hc => by cases hc) hs
  | some c =>
    cases hc : o.spawnStart c with
    | ok u => exact absurd (fun _ hm => by cases hm; exact hc) hs
    | error e =>
      simp only [startChildren, hc]
      exact ⟨.runtime e, rfl⟩

/-- A start that does not get to the first listener leaves all as it was. -/
theorem start_closed (hnot : ¬Opens o request h.nextSandboxId) :
    ∃ e t, start o domain request h = .error (.backend e) t ∧ t.sandboxes = h.sandboxes ∧
      ∀ task, ¬LeftRunning h t task := by
  have hnone : ∀ t : Host, t.spawned = h.spawned → ∀ task, ¬LeftRunning h t task := by
    rintro t ht task ⟨hle, hlt, -⟩
    omega
  cases hroot : o.createRuntimeRoot with
  | error e =>
    unfold start
    rw [hroot]
    exact ⟨_, h, bind_of_error (check_error e), rfl, hnone h rfl⟩
  | ok u =>
    rw [start_rooted domain hroot]
    cases hmeta : templateMetadata o request.preparedTemplate with
    | error e => exact ⟨e, taken h, bind_of_error (lift_error e), rfl, hnone _ rfl⟩
    | ok metadata =>
      rw [bind_of_ok (lift_ok metadata)]
      by_cases hs : ∀ c ∈ metadata.startCmd, o.spawnStart c = .ok ()
      · obtain ⟨children, t, hrun, hsame, -, -, hall⟩ := startChildren_ok (h := taken h) hs
        obtain ⟨e, hfinish⟩ := finish_closed (h := t) domain children
          fun hopen => hnot ⟨hroot, metadata, hmeta, hs, hopen⟩
        refine ⟨e, _, (bind_of_ok hrun).trans hfinish, hsame, ?_⟩
        rintro task ⟨hle, hlt, hmem⟩
        have hkept := of_decide_eq_true (List.mem_filter.mp hmem).2
        exact hkept (hall task hle hlt)
      · obtain ⟨e, hrun⟩ := startChildren_error (h := taken h) hs
        exact ⟨e, taken h, bind_of_error hrun, rfl, hnone _ rfl⟩

theorem start_open (hopens : Opens o request h.nextSandboxId) :
    ∃ metadata children t port, start o domain request h =
        finishStart o domain request h.nextSandboxId metadata children t ∧
      runReady o metadata.readyCmd = .ok () ∧
      openEnvd o.envd h.nextSandboxId request.createRequest.volumeMounts = .ok port ∧
      h.spawned ≤ t.spawned ∧ t.spawned ∉ children := by
  obtain ⟨hroot, metadata, hmeta, hs, hready, port, hport⟩ := hopens
  obtain ⟨children, t, hrun, -, hle, hfree, -⟩ := startChildren_ok (h := taken h) hs
  refine ⟨metadata, children, t, port, ?_, hready, hport, hle, hfree⟩
  rw [start_rooted domain hroot, hmeta, bind_of_ok (lift_ok metadata), bind_of_ok hrun]

/-- A failed start leaves nothing exactly when nothing fails once the first listener task is
spawned, and no older sandbox is entered under the id of a start that fails before. -/
theorem failed_start_leaves_nothing_iff (o : StartOutcomes) (domain : Str)
    (request : StartSandboxRequest) (h : Host) :
    LeavesNothing o domain request h ↔
      (Opens o request h.nextSandboxId → Listens o.envd ∧ timeoutOf request < 2 ^ 63) ∧
      (¬Opens o request h.nextSandboxId → h.nextSandboxId ∉ h.sandboxes) := by
  by_cases hopens : Opens o request h.nextSandboxId
  · rw [imp_iff_right hopens, and_iff_left (fun hno => absurd hopens hno)]
    obtain ⟨metadata, children, t, port, hstart, hready, hport, hle, hfree⟩ :=
      start_open domain hopens
    unfold LeavesNothing
    rw [hstart]
    by_cases hl : Listens o.envd
    · rw [and_iff_right hl]
      obtain ⟨u, hmem, hfinish⟩ := finish_timed (h := t) domain children hready hport hl
      rw [hfinish, ← not_le, ← timestamps_cases o.clock request]
      cases htimes : timestamps o.clock (request.createRequest.timeout <|> some 300) with
      | ok times => simp
      | error failure =>
        cases failure with
        | panic => simp
        | backend e =>
          refine iff_of_false (fun hleaves => ?_) fun hno => hno ⟨e, rfl⟩
          exact (hleaves e u rfl).1 hmem
    · refine iff_of_false (fun hleaves => ?_) fun hok => hl hok.1
      obtain ⟨e, u, hfinish, hlt, hmem⟩ := finish_unheard domain children hready hport hl hfree
      exact (hleaves e u hfinish).2 t.spawned ⟨hle, hlt, hmem⟩
  · rw [and_iff_right (fun ho => absurd ho hopens), imp_iff_right hopens]
    obtain ⟨e, t, hstart, hsame, hnone⟩ := start_closed domain hopens
    unfold LeavesNothing
    rw [hstart]
    constructor
    · intro hleaves
      rw [← hsame]
      exact (hleaves e t rfl).1
    · rintro hfree _ _ heq
      cases heq
      rw [hsame]
      exact ⟨hfree, hnone⟩
end

def endless : StartSandboxRequest := ⟨{ timeout := some 9223372036854775808 }, none⟩

/-- A timeout of 2^63 seconds is refused when the sandbox is entered and its listeners run. -/
theorem refused_timeout_leaves_sandbox : ¬LeavesNothing {} [] endless {} := by
  intro hleaves
  have hleft := (hleaves _ _ rfl).1
  revert hleft
  decide +kernel

end HostStart
