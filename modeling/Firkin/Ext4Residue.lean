import Firkin.TwoRuns
import Firkin.Ext4WriterFrame

/-! # Calls do not see what a write recorded

A write records placements on the nodes of the builder. `clear` forgets them. No method of
the builder reads them, so two builders that are equal once cleared behave alike under
every call. -/
namespace Ext4Residue

open Ext4Types Ext4Builder Ext4WriterFrame FaultMonad TwoRuns

def clear (fs : FileSystemBuilder) : FileSystemBuilder :=
  { fs with nodes := fs.nodes.map unplaced }

def Alike (fs ft : FileSystemBuilder) : Prop := clear fs = clear ft

variable {α : Type}

/-- No more is read than a cleared builder has. -/
theorem tied_read (hk : ∀ fs, k (clear fs) = k fs)
    (h : ∀ fs, Tied Alike (k fs)) : Tied Alike (get >>= k) :=
  tied_get_bind (fun fs ft (ha : clear fs = clear ft) => by rw [← hk fs, ha, hk ft]) h

theorem tied_getNode_bind (hk : ∀ n, k n = k (unplaced n))
    (h : ∀ n, Tied Alike (k n)) : Tied Alike (getNode i >>= k) := by
  rw [getNode, bind_assoc]
  refine tied_read (fun fs => ?_) fun fs => ?_
  · rw [clear, List.getElem?_map]
    cases fs.nodes[i]? with
    | none => rfl
    | some n => exact (hk n).symm
  · cases fs.nodes[i]? with
    | none => exact tied_throw
    | some n => exact h n

theorem map_unplaced_modify (hf : ∀ n, unplaced (f n) = g (unplaced n)) (l : List Node) :
    (l.modify i f).map unplaced = (l.map unplaced).modify i g := by
  apply List.ext_getElem?
  intro k
  simp only [List.getElem?_map, List.getElem?_modify]
  cases l[k]? with
  | none => rfl
  | some n => by_cases hk : i = k <;> simp [hk, hf]

theorem tied_commuting
    (hf : ∀ fs, clear (f fs) = f (clear fs)) : Tied Alike (modify f : BuilderM PUnit) :=
  tied_modify fun fs ft h => by rw [Alike, hf, hf, show clear fs = clear ft from h]

theorem tied_modifyNode (hf : ∀ n, unplaced (f n) = f (unplaced n)) :
    Tied Alike (Ext4Builder.modifyNode i f) := by
  refine tied_getNode_bind (fun _ => rfl) fun _ => tied_commuting fun fs => ?_
  simp only [clear, FileSystemBuilder.updateNode, map_unplaced_modify hf]

theorem tied_pushNode (n : Node) : Tied Alike (pushNode n) := by
  intro fs ft h
  have hlen : fs.nodes.length = ft.nodes.length := by
    simpa [clear] using congrArg (List.length ∘ FileSystemBuilder.nodes) h
  have hpush (fs : FileSystemBuilder) : clear { fs with nodes := fs.nodes ++ [n] } =
      { clear fs with nodes := (clear fs).nodes ++ [unplaced n] } := by
    simp only [clear, List.map_append, List.map_cons, List.map_nil]
  refine ⟨hlen, ?_⟩
  rw [Alike, hpush, hpush, show clear fs = clear ft from h]

theorem tied_liftResult : Tied Alike (liftResult r) := by
  cases r with
  | ok a => exact tied_pure a
  | error e => exact tied_throw

theorem nodePathParts_unplaced (fuel : Nat) :
    nodePathParts (nodes.map unplaced) fuel o = nodePathParts nodes fuel o := by
  induction fuel generalizing o with
  | zero => cases o <;> rfl
  | succ fuel ih =>
    cases o with
    | none => rfl
    | some i =>
      simp only [nodePathParts, List.getElem?_map]
      cases nodes[i]? with
      | none => rfl
      | some n =>
        change (nodePathParts (nodes.map unplaced) fuel n.parent >>= _) = _
        rw [ih]
        rfl

theorem nodePath_unplaced (i : Nat) : nodePath (nodes.map unplaced) i = nodePath nodes i := by
  simp only [nodePath, nodePathParts_unplaced, List.length_map]

theorem tied_askNodePath (i : Nat) : Tied Alike (Ext4Builder.askNodePath i) := by
  refine tied_read (fun fs => by rw [clear, nodePath_unplaced]) fun fs => ?_
  split
  · exact tied_pure _
  · exact tied_throw

theorem tied_ensureParentWith {addDir} (h : ∀ p, Tied Alike (addDir p))
    (path : Str) : Tied Alike (ensureParentWith addDir path) := by
  refine tied_ite tied_throw (tied_ite tied_throw (tied_ite (tied_pure _) ?_))
  refine tied_read (fun _ => rfl) fun fs => ?_
  split
  · exact tied_getNode_bind (fun _ => rfl) fun n => tied_ite (tied_pure _) tied_throw
  · exact h _

theorem tied_checkedAdd (width a b : Nat) : Tied Alike (checkedAdd width a b) :=
  tied_ite (tied_pure _) tied_throw

theorem tied_attachNode : Tied Alike (attachNode parent node countLink key) := by
  refine (tied_pushNode node).bind fun idx => Tied.bind ?_ fun _ => ?_
  · exact tied_modifyNode fun _ => rfl
  have hend : Tied Alike (do
      modify (·.insertKey key idx)
      pure idx : BuilderM Nat) := Tied.bind (tied_commuting fun _ => rfl) fun _ => tied_pure idx
  cases countLink with
  | false => exact hend
  | true =>
    refine tied_getNode_bind (fun _ => rfl) fun n => ?_
    refine (tied_checkedAdd 16 _ 1).bind fun links => Tied.bind ?_ fun _ => hend
    exact tied_modifyNode fun _ => rfl

theorem tied_addDirInternal (path : Str) (mode : FileMode) (uid gid inode : Nat) :
    Tied Alike (addDirInternal fuel path mode uid gid inode) := by
  induction fuel generalizing path mode uid gid inode with
  | zero => exact tied_throw
  | succ fuel ih =>
    refine tied_read (fun _ => rfl) fun fs => ?_
    split
    · exact tied_getNode_bind (fun _ => rfl) fun n => tied_ite (tied_pure _) tied_throw
    · refine (tied_ensureParentWith (fun p => ih p _ 0 0 0) path).bind fun parent => ?_
      exact tied_liftResult.bind fun name => tied_attachNode

theorem tied_ensureParent (path : Str) : Tied Alike (ensureParent path) :=
  tied_ensureParentWith (fun p => tied_addDirInternal p _ 0 0 0) path

theorem tied_unlinkNode (idx : Nat) (node : Node) : Tied Alike (unlinkNode idx node) := by
  unfold unlinkNode
  split
  · exact tied_pure _
  · refine Tied.bind (tied_modifyNode fun _ => rfl) fun _ => ?_
    refine tied_getNode_bind (fun _ => rfl) fun p => tied_ite ?_ (tied_pure _)
    exact tied_modifyNode fun _ => rfl

theorem tied_deleteSubtree (fuel idx : Nat) (unlink : Bool) :
    Tied Alike (deleteSubtree fuel idx unlink) := by
  induction fuel generalizing idx unlink with
  | zero => exact tied_throw
  | succ fuel ih =>
    refine tied_getNode_bind (fun _ => rfl) fun n => tied_ite (tied_pure _) ?_
    refine Tied.bind (tied_modifyNode fun _ => rfl) fun _ => ?_
    refine (tied_forM fun child => ih child false).bind fun _ => ?_
    refine (tied_askNodePath idx).bind fun key => ?_
    refine Tied.bind (tied_commuting fun _ => rfl) fun _ => ?_
    refine Tied.bind (tied_modifyNode fun _ => rfl) fun _ => ?_
    exact tied_ite (tied_unlinkNode idx n) (tied_pure _)

theorem tied_runDeleteSubtree (idx : Nat) (unlink : Bool) :
    Tied Alike (runDeleteSubtree idx unlink) :=
  tied_read (fun fs => by rw [clear, List.length_map]) fun _ => tied_deleteSubtree _ idx unlink

theorem tied_insertLeaf : Tied Alike (insertLeaf path mode node) := by
  refine Tied.bind ?_ fun _ => (tied_ensureParent path).bind fun parent =>
    tied_liftResult.bind fun name => tied_attachNode.bind fun _ => tied_pure _
  refine tied_read (fun _ => rfl) fun fs => ?_
  split
  · exact tied_pure _
  · refine tied_getNode_bind (fun _ => rfl) fun n => tied_ite tied_throw ?_
    exact tied_runDeleteSubtree _ true

theorem tied_addHardlink (link target : Str) : Tied Alike (addHardlink link target) := by
  refine tied_read (fun _ => rfl) fun fs => ?_
  split
  · exact tied_throw
  · refine tied_getNode_bind (fun _ => rfl) fun n => tied_ite tied_throw ?_
    exact tied_insertLeaf

theorem tied_clearDir (path : Str) : Tied Alike (clearDir path) := by
  refine tied_read (fun _ => rfl) fun fs => ?_
  split
  · exact tied_pure _
  · refine tied_getNode_bind (fun _ => rfl) fun n => tied_ite ?_ tied_throw
    refine Tied.bind (tied_modifyNode fun _ => rfl) fun _ => ?_
    refine (tied_forM fun child => tied_runDeleteSubtree child false).bind fun _ => ?_
    exact tied_modifyNode fun _ => rfl

theorem tied_setXattr (path name : Str) (value : List UInt8) :
    Tied Alike (setXattr path name value) := by
  refine tied_read (fun _ => rfl) fun fs => ?_
  split
  · exact tied_throw
  · exact tied_modifyNode fun _ => rfl

theorem tied_removePath (path : Str) : Tied Alike (removePath path) := by
  refine tied_read (fun _ => rfl) fun fs => ?_
  split
  · exact tied_pure _
  · exact tied_runDeleteSubtree _ true

theorem tied_run (op : Op) : Tied Alike op.run := by
  cases op with
  | addDir path perm => exact (tied_addDirInternal path _ 0 0 0).bind fun _ => tied_pure _
  | addFile | addSymlink => exact tied_ite tied_throw tied_insertLeaf
  | addWhiteout path => exact tied_liftResult.bind fun _ => tied_insertLeaf
  | addOpaqueDir path => exact tied_insertLeaf
  | addHardlink link target => exact tied_addHardlink link target
  | setXattr path name value => exact tied_setXattr path name value
  | removePath path => exact tied_removePath path
  | clearDir path => exact tied_clearDir path
  | withMinSize | withUuid | withTimestamp => exact tied_commuting fun _ => rfl

end Ext4Residue
