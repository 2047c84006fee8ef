import Firkin.Ext4Types

/-! # Staging retained for a continuation snapshot

`snapshot` marks the session as saved before it captures, and takes the mark back where the
capture or the sidecars fail. `stop` cleans the staging of a session without the mark up. -/
namespace SnapshotRetention

open Ext4Types

inductive BackendError where
  | alreadyExists (id : Str)
  | notFound (id : Str)
  | runtime (message : Str)

structure ArtifactIntegrity where
  sizeBytes : Nat
  sha256Hex : Str

structure SnapshotRef where
  snapshotId : Str
  location : Option Str
  artifactIntegrity : Option ArtifactIntegrity

structure FirkinRuntimeSession where
  continuationSnapshotSaved : Bool := false

structure Adapter where
  active : Str → Option FirkinRuntimeSession
  files : List Str := []

/-- One snapshot call, with the answers it gets from the host and the session. -/
structure Capture where
  sandboxId : Str
  name : Option Str
  createDir : Except Str Unit := .ok ()
  save : Except Str Unit := .ok ()
  writesFile : Bool := true
  integrity : Except Str ArtifactIntegrity
  sidecars : Except Str Unit := .ok ()

def Capture.snapshotId (c : Capture) : Str := c.name.getD (c.sandboxId ++ str "-continuation")

def Adapter.setSaved (a : Adapter) (id : Str) (saved : Bool) : Adapter :=
  { a with
    active := Function.update a.active id
      ((a.active id).map fun session => { session with continuationSnapshotSaved := saved }) }

def Adapter.written (a : Adapter) (c : Capture) (path : Str) : Adapter :=
  if c.writesFile then { a with files := path :: a.files } else a

/-- `path` is `runtime_continuation_snapshot_path`. -/
def snapshot (path : Str → Str) (a : Adapter) (c : Capture) :
    Adapter × Except BackendError SnapshotRef :=
  if path c.snapshotId ∈ a.files then (a, .error (.alreadyExists c.snapshotId))
  else
    match c.createDir with
    | .error error =>
      (a, .error (.runtime (str "create Firkin continuation snapshot dir: " ++ error)))
    | .ok _ =>
      if (a.active c.sandboxId).isNone then (a, .error (.notFound c.sandboxId))
      else
        let a := (a.setSaved c.sandboxId true).written c (path c.snapshotId)
        match c.save with
        | .error error =>
          (a.setSaved c.sandboxId false,
            .error (.runtime (str "Firkin continuation snapshot capture failed: " ++ error)))
        | .ok _ =>
          match c.integrity with
          | .error error =>
            (a, .error (.runtime (str "Firkin continuation snapshot integrity failed: " ++ error)))
          | .ok integrity =>
            match c.sidecars with
            | .error error =>
              (a.setSaved c.sandboxId false,
                .error (.runtime
                  (str "Firkin continuation snapshot sidecar write failed: " ++ error)))
            | .ok _ =>
              (a, .ok ⟨c.snapshotId, some (path c.snapshotId), some integrity⟩)

structure Stopped where
  adapter : Adapter
  /-- Whether `cleanup_unsnapshotted_staging` was called. -/
  cleaned : Bool
  result : Except BackendError Unit

def stop (a : Adapter) (id : Str) (stopSession cleanup : Except Str Unit) : Stopped :=
  match a.active id with
  | none => ⟨a, false, .error (.notFound id)⟩
  | some session =>
    match stopSession with
    | .error error => ⟨a, false, .error (.runtime (str "Firkin session stop failed: " ++ error))⟩
    | .ok _ =>
      let a := { a with active := Function.update a.active id none }
      if session.continuationSnapshotSaved then ⟨a, false, .ok ()⟩
      else
        match cleanup with
        | .error error =>
          ⟨a, true, .error (.runtime (str "Firkin restored staging cleanup failed: " ++ error))⟩
        | .ok _ => ⟨a, true, .ok ()⟩

/-- The calls one after the other, with the sandbox and the answer of each. -/
def run (path : Str → Str) (a : Adapter) :
    List Capture → Adapter × List (Str × Except BackendError SnapshotRef)
  | [] => (a, [])
  | c :: cs =>
    let (a', result) := snapshot path a c
    let (a'', results) := run path a' cs
    (a'', (c.sandboxId, result) :: results)

inductive Ending where
  | saveFailed
  | integrityFailed
  | sidecarsFailed
  | captured
  deriving DecidableEq

def Capture.ending (c : Capture) : Ending :=
  if !c.save.isOk then .saveFailed
  else if !c.integrity.isOk then .integrityFailed
  else if !c.sidecars.isOk then .sidecarsFailed
  else .captured

/-- An integrity failure leaves the mark in place, as a success does. -/
def Ending.retains : Ending → Bool
  | .saveFailed | .sidecarsFailed => false
  | .integrityFailed | .captured => true

def admits (path : Str → Str) (a : Adapter) (c : Capture) : Bool :=
  path c.snapshotId ∉ a.files && c.createDir.isOk && (a.active c.sandboxId).isSome

def endings (path : Str → Str) (a : Adapter) (id : Str) : List Capture → List Ending
  | [] => []
  | c :: cs =>
    let rest := endings path (snapshot path a c).1 id cs
    if c.sandboxId = id ∧ admits path a c = true then c.ending :: rest else rest

section
variable {path : Str → Str} {a : Adapter} {c : Capture} {id : Str}

@[simp] theorem written_active (a : Adapter) (c : Capture) (path : Str) :
    (a.written c path).active = a.active := by
  unfold Adapter.written
  split <;> rfl

@[simp] theorem setSaved_self (a : Adapter) (id : Str) (saved : Bool) :
    (a.setSaved id saved).active id = (a.active id).map fun _ => ⟨saved⟩ := by
  simp [Adapter.setSaved]

theorem setSaved_of_ne (h : other ≠ id) : (a.setSaved id saved).active other = a.active other := by
  simp [Adapter.setSaved, h]

theorem snapshot_refused (h : admits path a c = false) :
    (snapshot path a c).1 = a ∧ (snapshot path a c).2.isOk = false := by
  unfold snapshot
  split
  · exact ⟨rfl, rfl⟩
  · split
    · exact ⟨rfl, rfl⟩
    · split
      · exact ⟨rfl, rfl⟩
      · next hactive => simp_all [admits, Except.isOk, Except.toBool]

theorem snapshot_eq (h : admits path a c = true) :
    snapshot path a c =
      match c.save, c.integrity, c.sidecars with
      | .error error, _, _ =>
        (((a.setSaved c.sandboxId true).written c (path c.snapshotId)).setSaved c.sandboxId false,
          .error (.runtime (str "Firkin continuation snapshot capture failed: " ++ error)))
      | .ok _, .error error, _ =>
        ((a.setSaved c.sandboxId true).written c (path c.snapshotId),
          .error (.runtime (str "Firkin continuation snapshot integrity failed: " ++ error)))
      | .ok _, .ok _, .error error =>
        (((a.setSaved c.sandboxId true).written c (path c.snapshotId)).setSaved c.sandboxId false,
          .error (.runtime (str "Firkin continuation snapshot sidecar write failed: " ++ error)))
      | .ok _, .ok integrity, .ok _ =>
        ((a.setSaved c.sandboxId true).written c (path c.snapshotId),
          .ok ⟨c.snapshotId, some (path c.snapshotId), some integrity⟩) := by
  simp only [admits, Bool.and_eq_true, decide_eq_true_eq] at h
  obtain ⟨⟨hfile, hdir⟩, hactive⟩ := h
  have hnone : ¬(a.active c.sandboxId).isNone = true := by
    simpa [Option.isSome_iff_ne_none] using hactive
  rw [snapshot, if_neg hfile]
  cases hd : c.createDir with
  | error _ => simp [hd, Except.toBool] at hdir
  | ok _ =>
    simp only [if_neg hnone]
    cases c.save <;> cases c.integrity <;> cases c.sidecars <;> rfl

/-- One that does leaves the mark its ending says, and succeeds if it captured. -/
theorem snapshot_admitted (h : admits path a c = true) :
    (snapshot path a c).1.active c.sandboxId = some ⟨c.ending.retains⟩ ∧
      (∀ id, id ≠ c.sandboxId → (snapshot path a c).1.active id = a.active id) ∧
      ((snapshot path a c).2.isOk = true ↔ c.ending = .captured) := by
  obtain ⟨session, hsession⟩ : ∃ session, a.active c.sandboxId = some session := by
    simp only [admits, Bool.and_eq_true] at h
    exact Option.isSome_iff_exists.mp h.2
  rw [snapshot_eq h]
  cases hs : c.save <;> cases hi : c.integrity <;> cases hc : c.sidecars <;>
    simp +contextual [Capture.ending, Ending.retains, hs, hi, hc, hsession, setSaved_of_ne,
      Except.isOk, Except.toBool]

theorem snapshot_active (path : Str → Str) (c : Capture) (h : a.active id = some session) :
    (snapshot path a c).1.active id =
      if c.sandboxId = id ∧ admits path a c = true then some ⟨c.ending.retains⟩
      else some session := by
  cases hadmits : admits path a c with
  | false =>
    rw [(snapshot_refused hadmits).1, h]
    simp
  | true =>
    obtain ⟨hself, hother, _⟩ := snapshot_admitted hadmits
    split
    · next hid => rw [← hid.1, hself]
    · next hid =>
      rw [hother id fun he => hid ⟨he.symm, rfl⟩, h]
end

section
variable {path : Str → Str} {a : Adapter} {id : Str}

/-- The mark after a run is the one left by the last capture of the sandbox. -/
theorem run_active (cs : List Capture) (h : a.active id = some session) :
    (run path a cs).1.active id =
      some (((endings path a id cs).getLast?.map fun e => ⟨e.retains⟩).getD session) := by
  induction cs generalizing a session with
  | nil => exact h
  | cons c cs ih =>
    have hstep := snapshot_active path c h
    simp only [run, endings]
    split
    · next hid =>
      rw [if_pos hid] at hstep
      rw [ih hstep, List.getLast?_cons]
      cases (endings path (snapshot path a c).1 id cs).getLast? <;> rfl
    · next hid =>
      rw [if_neg hid] at hstep
      exact ih hstep

def returnedOk (id : Str) (results : List (Str × Except BackendError SnapshotRef)) : Bool :=
  results.any fun r => r.1 = id && r.2.isOk

theorem run_returnedOk :
    returnedOk id (run path a cs).2 = true ↔ .captured ∈ endings path a id cs := by
  induction cs generalizing a with
  | nil => simp [run, endings, returnedOk]
  | cons c cs ih =>
    simp only [run, endings, returnedOk, List.any_cons, Bool.or_eq_true, Bool.and_eq_true]
    simp only [returnedOk] at ih
    rw [ih]
    cases hadmits : admits path a c with
    | false => simp [(snapshot_refused hadmits).2]
    | true =>
      rw [(snapshot_admitted hadmits).2.2]
      by_cases hid : c.sandboxId = id <;> simp [hid, eq_comm]

theorem stop_cleaned (h : a.active id = some session) :
    (stop a id (.ok ()) cleanup).cleaned = !session.continuationSnapshotSaved := by
  simp only [stop, h]
  cases session.continuationSnapshotSaved with
  | true => rfl
  | false => cases cleanup <;> rfl

/-- After any sequence of snapshot calls, `stop` cleans the staging of a sandbox up exactly if
none of its calls succeeded, if and only if its last capture keeps the mark exactly when some
capture succeeded. -/
theorem cleanup_iff_none_captured (path : Str → Str) (a : Adapter) (id : Str)
    (cs : List Capture) (cleanup : Except Str Unit) (h : a.active id = some {}) :
    ((stop (run path a cs).1 id (.ok ()) cleanup).cleaned = true ↔
        returnedOk id (run path a cs).2 = false) ↔
      (.captured ∈ endings path a id cs ↔
        (endings path a id cs).getLast?.any Ending.retains = true) := by
  rw [stop_cleaned (run_active cs h), ← Bool.not_eq_true (returnedOk id _), run_returnedOk]
  cases (endings path a id cs).getLast? with
  | none => simp
  | some e => cases hr : e.retains <;> simp [hr]
end

def vz (snapshotId : Str) : Str := snapshotId ++ str ".vz"
def fresh : Adapter := ⟨fun _ => some {}, []⟩
def sandbox : Str := str "sbx_firkin_1"

def capture (name : String) (save : Except Str Unit) (integrity : Except Str ArtifactIntegrity) :
    Capture :=
  { sandboxId := sandbox, name := some (str name), save, integrity }

def saves : Capture := capture "first" (.ok ()) (.ok ⟨4096, str "c0de"⟩)
def fails : Capture := capture "second" (.error (str "busy")) (.ok ⟨4096, str "c0de"⟩)
def unread : Capture := capture "first" (.ok ()) (.error (str "unreadable"))

theorem cleanup_iff_none_captured_retried :
    (stop (run vz fresh [fails, saves, unread]).1 sandbox (.ok ()) (.ok ())).cleaned = true ↔
      returnedOk sandbox (run vz fresh [fails, saves, unread]).2 = false :=
  (cleanup_iff_none_captured vz fresh sandbox [fails, saves, unread] (.ok ()) rfl).mpr
    (by decide +kernel)

/-- A failed capture after a successful one has the staging of the saved snapshot removed; a
capture whose file cannot be read back leaves staging that no snapshot retains. -/
theorem cleanup_follows_last_capture :
    ((stop (run vz fresh [saves, fails]).1 sandbox (.ok ()) (.ok ())).cleaned = true ∧
        returnedOk sandbox (run vz fresh [saves, fails]).2 = true) ∧
      (stop (run vz fresh [unread]).1 sandbox (.ok ()) (.ok ())).cleaned = false ∧
        returnedOk sandbox (run vz fresh [unread]).2 = false := by
  decide +kernel

end SnapshotRetention
