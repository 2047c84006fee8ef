import Firkin.GuardedRun
import Firkin.LocalBackend

/-! # Snapshots of the adapter and of the registry

A snapshot is made by the adapter first and registered afterwards, and nothing takes it back when
the registration fails. -/
namespace SnapshotHolding

open Ext4Types E2bTypes SortedTable FaultMonad GuardedRun LocalBackend Std.ExtTreeMap
open SandboxRegistry (LocalSandboxRegistry SandboxRecord)

structure Node where
  backend : LocalRuntimeBackend
  held : Finset Str

inductive Call where
  | create (a : RuntimeAdapter) (sandboxId : Str) (request : CreateSnapshotRequest)
  | delete (a : RuntimeAdapter) (snapshotId : Str)

def making (answer : LocalBackend.Result SnapshotRef) (held : Finset Str) : Finset Str :=
  match answer with
  | .ok snapshot => insert snapshot.snapshotId held
  | .error _ => held

def removing (answer : LocalBackend.Result Unit) (snapshotId : Str) (held : Finset Str) :
    Finset Str :=
  match answer with
  | .ok () => held.erase snapshotId
  | .error _ => held

def registered (s : LocalRuntimeBackend) (snapshotId : Str) : Bool :=
  (s.sandboxes.snapshotPreparedTemplate snapshotId).isSome

def step (n : Node) : Call → Node
  | .create a sandboxId request =>
    ⟨left (createSnapshot a sandboxId request n.backend),
      making (a.snapshot sandboxId request.name) n.held⟩
  | .delete a snapshotId =>
    ⟨left (deleteSnapshot a snapshotId n.backend),
      if registered n.backend snapshotId then
        removing (a.deleteSnapshot snapshotId) snapshotId n.held
      else n.held⟩

def Matches (n : Node) : Prop := ∀ id, id ∈ n.held ↔ id ∈ n.backend.sandboxes.snapshots

/-- A snapshot that is made is of a registered sandbox, or has the id of one that exists. -/
def Careful (n : Node) : Call → Prop
  | .create a sandboxId request => ∀ snapshot, a.snapshot sandboxId request.name = .ok snapshot →
    sandboxId ∈ n.backend.sandboxes.sandboxes ∨ snapshot.snapshotId ∈ n.backend.sandboxes.snapshots
  | .delete _ _ => True

section
variable {a : RuntimeAdapter}
    {s : LocalRuntimeBackend}

theorem registered_iff : registered s snapshotId = true ↔ snapshotId ∈ s.sandboxes.snapshots := by
  rw [registered, LocalSandboxRegistry.snapshotPreparedTemplate, Option.isSome_map]
  exact mem_iff_isSome_getElem?.symm

theorem createSnapshot_ids (h : a.snapshot sandboxId request.name = .ok snapshot)
    (s : LocalRuntimeBackend) (id : Str) :
    id ∈ (left (createSnapshot a sandboxId request s)).sandboxes.snapshots ↔
      id ∈ s.sandboxes.snapshots ∨
        sandboxId ∈ s.sandboxes.sandboxes ∧ id = snapshot.snapshotId := by
  rw [createSnapshot, bind_of_ok (ofExcept_run h)]
  cases hrecord : s.sandboxes.sandboxes[sandboxId]? with
  | none =>
    have hm : sandboxId ∉ s.sandboxes.sandboxes := fun hm => by
      rw [getElem?_eq_some_getElem hm] at hrecord
      cases hrecord
    have hrun : s.sandboxes.createSnapshot sandboxId request snapshot =
        .error (.notFound sandboxId) := by
      rw [LocalSandboxRegistry.createSnapshot, LocalSandboxRegistry.record, hrecord]
      rfl
    rw [onSandboxes_error hrun]
    exact (or_iff_left fun h => hm h.1).symm
  | some record =>
    have hm : sandboxId ∈ s.sandboxes.sandboxes :=
      mem_iff_isSome_getElem?.mpr (by rw [hrecord]; rfl)
    rw [and_iff_right hm]
    by_cases htaken : snapshot.snapshotId ∈ s.sandboxes.snapshots
    · have hrun : s.sandboxes.createSnapshot sandboxId request snapshot =
          .error (.alreadyExists snapshot.snapshotId) := by
        rw [LocalSandboxRegistry.createSnapshot, LocalSandboxRegistry.record, hrecord]
        exact if_pos htaken
      rw [onSandboxes_error hrun]
      exact (or_iff_left_of_imp fun he => he ▸ htaken).symm
    · have hrun : s.sandboxes.createSnapshot sandboxId request snapshot =
          .ok (⟨snapshot.snapshotId⟩, { s.sandboxes with
            snapshots := s.sandboxes.snapshots.insert snapshot.snapshotId
              ⟨⟨snapshot.snapshotId⟩, sandboxId, request.name, snapshot.location,
                snapshot.artifactIntegrity⟩ }) := by
        rw [LocalSandboxRegistry.createSnapshot, LocalSandboxRegistry.record, hrecord]
        exact if_neg htaken
      rw [onSandboxes_ok hrun]
      change id ∈ s.sandboxes.snapshots.insert _ _ ↔ _
      rw [mem_insert, Std.compare_eq_iff_eq, or_comm, eq_comm]

theorem createSnapshot_failed (h : a.snapshot sandboxId request.name = .error e) :
    left (createSnapshot a sandboxId request s) = s := by
  rw [createSnapshot, bind_of_error (ofExcept_fail h)]
  rfl

theorem deleteSnapshot_unregistered
    (h : snapshotId ∉ s.sandboxes.snapshots) : left (deleteSnapshot a snapshotId s) = s := by
  have hnone : (s.sandboxes.snapshotPreparedTemplate snapshotId).isNone = true := by
    rw [LocalSandboxRegistry.snapshotPreparedTemplate, Std.ExtTreeMap.getElem?_eq_none h]
    rfl
  rw [deleteSnapshot, bind_of_ok (run_get s), if_pos hnone]
  rfl

theorem deleteSnapshot_registered
    (h : snapshotId ∈ s.sandboxes.snapshots) : left (deleteSnapshot a snapshotId s) =
      match a.deleteSnapshot snapshotId with
      | .ok () => { s with sandboxes := (s.sandboxes.deleteSnapshot snapshotId).2 }
      | .error _ => s := by
  have hsome : ¬(s.sandboxes.snapshotPreparedTemplate snapshotId).isNone = true := by
    rw [LocalSandboxRegistry.snapshotPreparedTemplate, getElem?_eq_some_getElem h]
    exact Bool.false_ne_true
  rw [deleteSnapshot, bind_of_ok (run_get s), if_neg hsome]
  cases a.deleteSnapshot snapshotId <;> rfl

theorem matches_delete (h : Matches n) : Matches (step n (.delete a snapshotId)) := by
  intro id
  by_cases hm : snapshotId ∈ n.backend.sandboxes.snapshots
  · rw [step, deleteSnapshot_registered hm, if_pos (registered_iff.mpr hm)]
    cases a.deleteSnapshot snapshotId with
    | error e => exact h id
    | ok u =>
      change id ∈ n.held.erase snapshotId ↔ id ∈ n.backend.sandboxes.snapshots.erase snapshotId
      rw [Finset.mem_erase, h id, mem_erase]
      refine and_congr_left' (not_congr ?_)
      rw [Std.compare_eq_iff_eq, eq_comm]
  · rw [step, deleteSnapshot_unregistered hm, if_neg fun hreg => hm (registered_iff.mp hreg)]
    exact h id

theorem matches_step_iff (h : Matches n) (call : Call) :
    Matches (step n call) ↔ Careful n call := by
  cases call with
  | delete a snapshotId => exact iff_of_true (matches_delete h) trivial
  | create a sandboxId request =>
    cases hanswer : a.snapshot sandboxId request.name with
    | error e =>
      refine iff_of_true (fun id => ?_) fun snapshot hok => ?_
      · rw [step, createSnapshot_failed hanswer, hanswer]
        exact h id
      · cases hanswer.symm.trans hok
    | ok snapshot =>
      have hheld : ∀ id, id ∈ (step n (.create a sandboxId request)).held ↔
          id = snapshot.snapshotId ∨ id ∈ n.backend.sandboxes.snapshots := by
        intro id
        rw [step, hanswer, making, Finset.mem_insert, h id]
      have hids := createSnapshot_ids hanswer n.backend
      constructor
      · intro hmatches snapshot' hok
        cases hanswer.symm.trans hok
        have hboth := (hmatches snapshot.snapshotId).mp ((hheld _).mpr (.inl rfl))
        exact ((hids _).mp hboth).symm.imp_left And.left
      · intro hcareful id
        rw [hheld, step, hids]
        rcases hcareful snapshot hanswer with hsandbox | hsnapshot
        · rw [and_iff_right hsandbox, or_comm]
        · constructor
          · rintro (rfl | hmem)
            · exact .inl hsnapshot
            · exact .inl hmem
          · rintro (hmem | ⟨-, rfl⟩)
            · exact .inr hmem
            · exact .inl rfl
end

/-- From a state in which they agree, the adapter's snapshots and the registered ones agree after
every call exactly if no snapshot is made of a sandbox that is not registered. -/
theorem matches_along_run_iff (n₀ : Node) (h₀ : Matches n₀) (calls : List Call) :
    (∀ before call rest, calls = before ++ call :: rest →
      Matches (step (run step n₀ before) call)) ↔ Meets step Careful n₀ calls := by
  have hsplit := @meets_iff_forall _ _ step (fun n call => Matches (step n call)) n₀ calls
  rw [← hsplit]
  refine meets_congr (I := Matches) h₀ (fun n call h => matches_step_iff h call) ?_
  exact fun n call h hcareful => (matches_step_iff h call).mpr hcareful

def snapshotting : RuntimeAdapter :=
  { RuntimeAdapter.refusing with
    snapshot := fun _ _ => .ok ⟨str "snap_1", none, none⟩, deleteSnapshot := fun _ => .ok () }

def noSandbox : Node := ⟨{ templates := .new [] }, ∅⟩

def oneSandbox : Node :=
  let record := SandboxRegistry.newRecord {} ⟨str "sbx_1", [], [], none, none, [], [], 1, 512⟩
  let sandboxes : Table Str SandboxRecord := Std.ExtTreeMap.insert ∅ (str "sbx_1") record
  ⟨{ templates := .new [], sandboxes := { sandboxes } }, ∅⟩

theorem matches_empty (h : s.sandboxes.snapshots = ∅) : Matches ⟨s, ∅⟩ := by
  intro id
  rw [h]
  exact iff_of_false (Finset.notMem_empty id) not_mem_empty

/-- A snapshot of a registered sandbox, made and deleted. -/
theorem matches_along_snapshot :
    Matches (step (run step oneSandbox [.create snapshotting (str "sbx_1") ⟨none⟩])
      (.delete snapshotting (str "snap_1"))) := by
  refine (matches_along_run_iff oneSandbox (matches_empty rfl)
    [.create snapshotting (str "sbx_1") ⟨none⟩, .delete snapshotting (str "snap_1")]).mpr
      ⟨fun snapshot _ => .inl ?_, trivial, trivial⟩ _ _ [] rfl
  decide +kernel

/-- The adapter made a snapshot of a sandbox nobody knows, and keeps it. -/
theorem orphan_snapshot :
    Matches noSandbox ∧ ¬Matches (step noSandbox (.create snapshotting (str "sbx_1") ⟨none⟩)) := by
  refine ⟨matches_empty rfl, fun h => ?_⟩
  have hheld := (h (str "snap_1")).mp (by decide +kernel)
  revert hheld
  decide +kernel

end SnapshotHolding
