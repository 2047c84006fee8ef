import Firkin.Ext4Residue
import Firkin.Ext4InodeTable

/-! # Writes leave no residue

No step of the writer reads a placement, the inode table apart. Two runs on builders that
differ only in what earlier writes recorded therefore go side by side up to there, and by
then both know the placements of every node with an inode: those of this run. -/
namespace Ext4WriterResidue

open Ext4Types Ext4Builder Ext4BuilderInvariant Ext4Layout Ext4Encoding Ext4Finalizer List
open FileSystemBuilder Ext4InodeAllocation Ext4WriterFrame Ext4Sizing Ext4NodeData Ext4DataRegion
open Ext4InodeTable Ext4Residue Ext4BuilderReachable FaultMonad TwoRuns

def cleared (s : Finalizer) : Finalizer := { s with fs := clear s.fs }

section
variable {α β : Type} (s : Finalizer) (i : Nat)

theorem index_map : index (l.map f) i = (index l i).map f := by
  rw [index, index, getElem?_map]
  cases l[i]? <;> rfl

theorem map_bind (r : Except Fault α) (f : α → β) {γ : Type} (k : β → Except Fault γ) :
    (r.map f >>= k) = r >>= fun a => k (f a) := by
  cases r <;> rfl

theorem ofExcept_map_bind {r : Except Fault α} (f : α → β) {γ : Type} (k : β → FinalizerM γ) :
    (ofExcept (r.map f) >>= k) = ofExcept r >>= fun a => k (f a) := by
  cases r <;> rfl

theorem node_cleared : node (cleared s) i = (node s i).map unplaced := index_map i

theorem node_bind_cleared {α : Type} (k : Node → Except Fault α) :
    (node (cleared s) i >>= k) = node s i >>= fun n => k (unplaced n) := by
  rw [node_cleared, map_bind]

theorem nodePathOf_cleared : nodePathOf (cleared s) i = nodePathOf s i := by
  simp only [nodePathOf, cleared, clear, nodePath_unplaced]

theorem visitChild_unplaced (nodes : List Node) (w : Walk) :
    visitChild (nodes.map unplaced) w i = visitChild nodes w i := by
  unfold visitChild
  rw [index_map, map_bind]
  rfl

theorem walkTree_unplaced {nodes} (fuel : Nat) {w} :
    walkTree (nodes.map unplaced) fuel w = walkTree nodes fuel w := by
  induction fuel generalizing w with
  | zero => rfl
  | succ fuel ih =>
    unfold walkTree
    split
    · rfl
    · have hvisit : visitChild (nodes.map unplaced) = visitChild nodes :=
        funext fun w => funext fun c => visitChild_unplaced c nodes w
      rw [index_map, map_bind, hvisit]
      simp only [ih]
      rfl

theorem fixedInodes_unplaced {nodes} : fixedInodes (nodes.map unplaced) = fixedInodes nodes := by
  apply ext_getElem?
  intro k
  simp only [fixedInodes, getElem?_mapIdx, getElem?_map]
  cases nodes[k]? <;> rfl

theorem sortedLiveChildren_cleared : sortedLiveChildren (cleared s) i = sortedLiveChildren s i := by
  simp only [sortedLiveChildren, node_bind_cleared]
  rfl

theorem directoryBlockCount_cleared :
    directoryBlockCount (cleared s) i = directoryBlockCount s i := by
  simp only [directoryBlockCount, node_bind_cleared, sortedLiveChildren_cleared]
  rfl

theorem estimateNode_cleared (blocks : Nat) (n : Node) :
    estimateNode (cleared s) blocks (unplaced n, i) = estimateNode s blocks (n, i) := by
  simp only [estimateNode, estimateContent, directoryBlockCount_cleared]
  rfl

theorem estimatePayloadBlocks_cleared :
    estimatePayloadBlocks (cleared s) = estimatePayloadBlocks s := by
  have hzip : (cleared s).fs.nodes.zipIdx = s.fs.nodes.zipIdx.map (Prod.map unplaced id) :=
    zipIdx_map
  rw [estimatePayloadBlocks, hzip, foldlM_map]
  congr 1
  funext blocks entry
  exact estimateNode_cleared s entry.2 blocks entry.1

theorem estimateBlockGroups_cleared (ipg : Nat) :
    estimateBlockGroups (cleared s) ipg = estimateBlockGroups s ipg := by
  simp only [estimateBlockGroups, estimatePayloadBlocks_cleared]
  rfl

theorem dirEntries_cleared : dirEntries (cleared s) i = dirEntries s i := by
  simp only [dirEntries, node_bind_cleared, sortedLiveChildren_cleared]
  rfl

theorem mapM_map_result {ι : Type} (f : ι → Except Fault α) (g : α → β) (l : List ι) :
    l.mapM (fun a => (f a).map g) = (l.mapM f).map (map g) := by
  induction l with
  | nil => rfl
  | cons a l ih =>
    rw [mapM_cons, mapM_cons, ih]
    cases f a with
    | error e => rfl
    | ok b => cases l.mapM f <;> rfl

/-- The pass of `liveInodes` over one node. -/
def liveEntry (s : Finalizer) (entry : Option Nat × Nat) : Except Fault (Option (Nat × Node)) := do
  let n ← node s entry.2
  pure (if n.deleted then none else entry.1.map fun ino => (ino, n))

theorem liveEntry_cleared : liveEntry (cleared s) =
    fun entry => (liveEntry s entry).map (Option.map (Prod.map id unplaced)) := by
  funext entry
  rw [liveEntry, node_bind_cleared, liveEntry]
  cases node s entry.2 with
  | error e => rfl
  | ok n =>
    refine congrArg Except.ok ?_
    change (if n.deleted then none else _) = Option.map _ (if n.deleted then none else _)
    split
    · rfl
    · cases entry.1 <;> rfl

theorem liveInodes_cleared :
    liveInodes (cleared s) = (liveInodes s).map (map (Prod.map id unplaced)) := by
  have hunfold : ∀ s, liveInodes s = s.inodes.zipIdx.mapM (liveEntry s) >>= fun found =>
      pure (found.filterMap id) := fun _ => rfl
  rw [hunfold, hunfold, liveEntry_cleared, mapM_map_result,
    show (cleared s).inodes = s.inodes from rfl]
  cases mapM (liveEntry s) s.inodes.zipIdx with
  | error e => rfl
  | ok l =>
    refine congrArg Except.ok ?_
    rw [filterMap_map, map_filterMap]
    rfl

theorem countInodes_unplaced :
    countInodes (cleared s) (live.map (Prod.map id unplaced)) = countInodes s live := by
  rw [countInodes, foldlM_map]
  rfl

theorem inodeBitmaps_unplaced :
    inodeBitmaps (cleared s) (live.map (Prod.map id unplaced)) = inodeBitmaps s live := by
  simp only [inodeBitmaps, foldl_map]
  rfl
end

/-- Two runs on the builder `ref`, up to what earlier writes recorded. -/
structure Resembles (ref : FileSystemBuilder) (s t : Finalizer) : Prop where
  frame : t = { s with fs := t.fs }
  left : clear s.fs = ref
  right : clear t.fs = ref

section
variable {ref : FileSystemBuilder} {s t : Finalizer} {i : Nat}

theorem Resembles.cleared (h : Resembles ref s t) :
    Ext4WriterResidue.cleared s = Ext4WriterResidue.cleared t := by
  rw [h.frame]
  simp only [Ext4WriterResidue.cleared]
  rw [h.left, h.right]

/-- The state is read, but nothing that earlier writes recorded. -/
theorem tied_read {α : Type} {k : Finalizer → FinalizerM α} (hk : ∀ s, k (cleared s) = k s)
    (h : ∀ s, Tied (Resembles ref) (k s)) : Tied (Resembles ref) (get >>= k) :=
  tied_get_bind (fun s t hst => by rw [← hk s, hst.cleared, hk t]) h

theorem tied_intro {α : Type} {m : FinalizerM α} (h : ∀ s ft, Resembles ref s { s with fs := ft } →
      Paired (Resembles ref) (m s) (m { s with fs := ft })) : Tied (Resembles ref) m := by
  intro s t hst
  have := h s t.fs
  rw [← hst.frame] at this
  exact this hst

theorem tied_seekAbsolute {off : Nat} : Tied (Resembles ref) (seekAbsolute off) := by
  refine tied_intro fun s ft h => ?_
  unfold seekAbsolute
  rw [run_bind, run_bind, run_get, run_get]
  dsimp only
  cases s.out.fate s.out.calls <;> exact ⟨rfl, rfl, h.left, h.right⟩

theorem tied_writeBytes (bytes : List UInt8) : Tied (Resembles ref) (writeBytes bytes) := by
  refine tied_intro fun s ft h => ?_
  unfold writeBytes
  rw [run_bind, run_bind, run_get, run_get]
  dsimp only
  cases s.out.fate s.out.calls <;> exact ⟨rfl, rfl, h.left, h.right⟩

theorem tied_flush : Tied (Resembles ref) flush := by
  refine tied_intro fun s ft h => ?_
  unfold flush
  rw [run_bind, run_bind, run_get, run_get]
  dsimp only
  cases s.out.fate s.out.calls <;> exact ⟨rfl, rfl, h.left, h.right⟩

theorem tied_seekToBlock (block : Nat) : Tied (Resembles ref) (seekToBlock block) :=
  tied_read (fun _ => rfl) fun _ => tied_seekAbsolute

theorem tied_padBlock {blockSize len : Nat} : Tied (Resembles ref) (padBlock blockSize len) :=
  tied_ite (tied_writeBytes _) (tied_pure _)

theorem tied_padRegion : Tied (Resembles ref) (padRegion consumed reserved) :=
  tied_ite (tied_writeBytes _) (tied_pure _)

theorem tied_ensureLen : Tied (Resembles ref) (ensureLen len) :=
  tied_ite (tied_pure _) (tied_seekAbsolute.bind fun _ => tied_writeBytes _)

theorem tied_setNextFree (next : Nat) : Tied (Resembles ref)
    (modify fun s => { s with nextFreeBlock := next } : FinalizerM PUnit) :=
  tied_intro fun _ _ h => ⟨rfl, rfl, h.left, h.right⟩

theorem tied_appendBlock (buf : Buf) : Tied (Resembles ref) (appendBlock buf) := by
  refine tied_read (fun _ => rfl) fun c => ?_
  refine (tied_seekToBlock _).bind fun _ => (tied_writeBytes buf).bind fun _ => ?_
  exact tied_ofExcept_bind tied_setNextFree

theorem tied_writeDirBlocks (entries : List DirEntrySpec) :
    Tied (Resembles ref) (writeDirBlocks fuel entries) := by
  induction fuel generalizing entries with
  | zero =>
    cases entries with
    | nil => exact tied_pure _
    | cons e es => exact tied_throw
  | succ fuel ih =>
    cases entries with
    | nil => exact tied_pure _
    | cons e es =>
      refine tied_read (fun _ => rfl) fun c => tied_ofExcept_bind fun r => ?_
      exact (tied_appendBlock r.1).bind fun _ => ih r.2

/-- A placement that is recorded is one that `clear` forgets. -/
theorem tied_record (hf : ∀ n, unplaced (f n) = unplaced n) :
    Tied (Resembles ref) (modifyNode i f) := by
  refine tied_read (fun s => by rw [node_cleared, ofExcept_map_bind]) fun c => ?_
  have hclear (fs : FileSystemBuilder) : clear (fs.updateNode i f) = clear fs := by
    simp only [clear, updateNode, @map_unplaced_modify f id i hf, modify_id]
  refine tied_ofExcept_bind fun _ => tied_intro fun s ft h => ⟨rfl, rfl, ?_, ?_⟩
  · exact (hclear s.fs).trans h.left
  · exact (hclear ft).trans h.right

theorem tied_writeDirectoryBlock : Tied (Resembles ref) (writeDirectoryBlock i) := by
  refine tied_read (fun s => by rw [dirEntries_cleared]; rfl) fun c => ?_
  refine tied_ofExcept_bind fun entries => (tied_writeDirBlocks _).bind fun _ => ?_
  exact tied_read (fun _ => rfl) fun d => tied_record fun _ => rfl

theorem tied_askNodePath {α : Type} {k : Str → FinalizerM α} (h : ∀ p, Tied (Resembles ref) (k p)) :
    Tied (Resembles ref) (Ext4Finalizer.askNodePath i >>= k) := by
  rw [Ext4Finalizer.askNodePath, bind_assoc]
  exact tied_read (fun s => by rw [nodePathOf_cleared]) fun _ => tied_ofExcept_bind h

theorem tied_writeFileBlocks : Tied (Resembles ref) (writeFileBlocks i content) := by
  refine tied_ite (tied_record fun _ => rfl) (tied_read (fun _ => rfl) fun c => ?_)
  refine (tied_seekToBlock _).bind fun _ => (tied_writeBytes _).bind fun _ => ?_
  refine tied_padBlock.bind fun _ => tied_ofExcept_bind fun stop => ?_
  refine (tied_setNextFree stop).bind fun _ => Tied.bind ?_ fun _ => ?_
  · exact tied_record fun _ => rfl
  refine tied_askNodePath fun path => tied_ofExcept_bind fun extents => tied_ite ?_ ?_
  · refine (tied_seekToBlock _).bind fun _ => tied_ofExcept_bind fun buf => ?_
    refine (tied_writeBytes _).bind fun _ => tied_ofExcept_bind fun next => ?_
    exact (tied_setNextFree next).bind fun _ => tied_record fun _ => rfl
  · exact tied_record fun _ => rfl

theorem tied_writeSymlinkBlocks {target : Str} :
    Tied (Resembles ref) (writeSymlinkBlocks i target) := by
  refine tied_ite (tied_record fun _ => rfl) (tied_read (fun _ => rfl) fun c => ?_)
  refine (tied_seekToBlock _).bind fun _ => tied_ofExcept_bind fun buf => ?_
  refine (tied_writeBytes _).bind fun _ => tied_ofExcept_bind fun stop => ?_
  exact (tied_setNextFree stop).bind fun _ => tied_record fun _ => rfl

theorem tied_writeNodeData : Tied (Resembles ref) (writeNodeData i) := by
  refine tied_read (fun s => by rw [node_cleared, ofExcept_map_bind]; rfl) fun c => ?_
  refine tied_ofExcept_bind fun n => tied_ite (tied_pure _) (tied_ofExcept_bind fun ino => ?_)
  refine tied_ite (tied_pure _) (tied_ite (tied_pure _) ?_)
  split
  · exact tied_writeDirectoryBlock
  · exact tied_writeFileBlocks
  · exact tied_writeSymlinkBlocks
  · exact tied_pure _
  · exact tied_pure _

theorem tied_writeNodeXattrs : Tied (Resembles ref) (writeNodeXattrs i) := by
  refine tied_read (fun s => by rw [node_cleared, ofExcept_map_bind]; rfl) fun c => ?_
  refine tied_ofExcept_bind fun n => tied_ite (tied_pure _) (tied_ofExcept_bind fun ino => ?_)
  refine tied_ite (tied_pure _) (tied_ite (tied_pure _) (tied_ofExcept_bind fun fits => ?_))
  refine tied_ite (tied_pure _) ((tied_seekToBlock _).bind fun _ => ?_)
  refine tied_ofExcept_bind fun buf => (tied_writeBytes _).bind fun _ => ?_
  refine tied_ofExcept_bind fun next => (tied_setNextFree next).bind fun _ => ?_
  exact tied_record fun _ => rfl

theorem tied_writeDataRegion : Tied (Resembles ref) writeDataRegion := by
  refine tied_read (fun s => ?_) fun c => ?_
  · simp only [nodesToProcess, cleared, clear, length_map]
  · exact (tied_forM fun _ => tied_writeNodeData).bind fun _ =>
      tied_forM fun _ => tied_writeNodeXattrs

theorem tied_allocateInodes : Tied (Resembles ref) allocateInodes := by
  refine tied_intro fun s ft h => ?_
  have hclear : clear ft = clear s.fs := h.right.trans h.left.symm
  have hnodes : ft.nodes.map unplaced = s.fs.nodes.map unplaced :=
    congrArg nodes hclear
  have hbs : ft.blockSize = s.fs.blockSize := (congrArg blockSize hclear :)
  have hlen : ft.nodes.length = s.fs.nodes.length := by simpa using congrArg length hnodes
  have hwalk : ∀ fuel w, walkTree ft.nodes fuel w = walkTree s.fs.nodes fuel w := by
    intro fuel w
    rw [← walkTree_unplaced, hnodes, walkTree_unplaced]
  have hfixed : fixedInodes ft.nodes = fixedInodes s.fs.nodes := by
    rw [← fixedInodes_unplaced, hnodes, fixedInodes_unplaced]
  have hgroups : ∀ (u : Finalizer) ipg, estimateBlockGroups { u with fs := ft } ipg =
      estimateBlockGroups { u with fs := s.fs } ipg := by
    intro u ipg
    rw [← estimateBlockGroups_cleared, ← estimateBlockGroups_cleared { u with fs := s.fs }]
    simp only [cleared, hclear]
  have hroot : ∀ k : FinalizerM Unit, (ofExcept (index ft.nodes 0) >>= fun _ => k) =
      ofExcept (index s.fs.nodes 0) >>= fun _ => k := by
    intro k
    rw [← ofExcept_map_bind unplaced fun _ => k, ← index_map, hnodes, index_map, ofExcept_map_bind]
  unfold allocateInodes
  rw [run_bind, run_bind, run_get, run_get]
  dsimp only
  rw [hroot, hwalk, hfixed, hlen, hbs]
  refine paired_ofExcept_bind h rfl fun _ => paired_ofExcept_bind h rfl fun w => ?_
  refine paired_ofExcept_bind h (hgroups { s with
    inodes := w.inodes
    inodesPerGroup := tableSize s.fs.blockSize w.next
    blocksPerGroup := s.fs.blockSize.bytes * 8 } _) fun groups => ?_
  exact ⟨rfl, rfl, h.left, h.right⟩

theorem tied_layoutHeader : Tied (Resembles ref) layoutHeader := by
  refine tied_intro fun s ft h => ?_
  have hbs : ft.blockSize = s.fs.blockSize :=
    (congrArg blockSize (h.right.trans h.left.symm) :)
  refine paired_ofExcept_bind h (congrArg (headerBlocksFor · s.blockGroups) hbs) fun header => ?_
  exact tied_seekToBlock header _ _ ⟨rfl, h.left, h.right⟩

theorem tied_writeInodeTables {tableBlocks : Nat} :
    Tied (Resembles ref) (writeInodeTables tableBlocks) := by
  refine tied_read (fun _ => rfl) fun c => (tied_seekToBlock _).bind fun _ => ?_
  refine (tied_writeBytes _).bind fun _ => tied_padRegion.bind fun _ => ?_
  exact tied_forM fun _ => tied_writeBytes _

theorem tied_reserveTables {tableBlocks : Nat} :
    Tied (Resembles ref) (reserveTables tableBlocks) := by
  refine tied_intro fun s ft h => ?_
  refine paired_ofExcept_bind h rfl fun tables => paired_ofExcept_bind h rfl fun blocks => ?_
  refine paired_ofExcept_bind h rfl fun nodes => paired_ofExcept_bind h rfl fun next => ?_
  exact ⟨rfl, rfl, h.left, h.right⟩

theorem tied_writeGdt : Tied (Resembles ref) (writeGdt descriptors) := by
  refine tied_read (fun _ => rfl) fun c => (tied_seekToBlock _).bind fun _ => ?_
  exact (tied_writeBytes _).bind fun _ => tied_ofExcept_bind fun reserved => tied_padRegion

theorem tied_writeBitmapsAndGdt : Tied (Resembles ref) writeBitmapsAndGdt := by
  refine tied_read (fun _ => rfl) fun c => tied_writeInodeTables.bind fun _ => ?_
  refine tied_reserveTables.bind fun tables => tied_read (fun _ => rfl) fun d => ?_
  refine tied_ofExcept_bind fun totalDisk => Tied.bind ?_ fun _ =>
    tied_read (fun s => ?_) fun e => ?_
  · exact tied_intro fun _ _ h => ⟨rfl, rfl, h.left, h.right⟩
  · simp only [liveInodes_cleared, ofExcept_map_bind, countInodes_unplaced, inodeBitmaps_unplaced]
    rfl
  refine tied_ofExcept_bind fun bitmaps => tied_ofExcept_bind fun live => ?_
  refine tied_ofExcept_bind fun count => (tied_seekToBlock _).bind fun _ => ?_
  refine (tied_forM fun _ => tied_writeBytes _).bind fun _ => (tied_seekToBlock _).bind fun _ => ?_
  refine (tied_forM tied_writeBytes).bind fun _ => tied_ofExcept_bind fun descriptors => ?_
  refine tied_writeGdt.bind fun _ => tied_ensureLen.bind fun _ => ?_
  exact tied_intro fun _ _ h => ⟨rfl, rfl, h.left, h.right⟩

theorem tied_writeSuperblock : Tied (Resembles ref) writeSuperblock := by
  refine tied_read (fun _ => rfl) fun c => tied_ofExcept_bind fun total => ?_
  refine tied_ofExcept_bind fun free => tied_seekAbsolute.bind fun _ => ?_
  exact tied_writeBytes _

theorem tied_countHardlink : Tied (Resembles ref) (countHardlink i) := by
  refine tied_read (fun s => by rw [node_cleared, ofExcept_map_bind]; rfl) fun c => ?_
  refine tied_ofExcept_bind fun n => tied_ite (tied_pure _) (tied_ofExcept_bind fun ino => ?_)
  refine tied_ite (tied_pure _) ?_
  split
  · exact tied_pure _
  · refine tied_ofExcept_bind fun o => tied_ofExcept_bind fun ino => tied_intro fun s ft h => ?_
    refine paired_ofExcept_bind h rfl fun old => paired_ofExcept_bind h rfl fun record => ?_
    exact ⟨rfl, rfl, h.left, h.right⟩

/-- What the inode table gets from node `i`. -/
def entry (s : Finalizer) (i : Nat) : Except Fault (Option (Nat × Inode256)) := do
  let n ← node s i
  if n.deleted then pure none
  else
    match ← inodeOf s i with
    | none => pure none
    | some ino =>
      if n.hardlinkTarget.isSome then pure none
      else
        let record ← buildInodeRecord s i
        pure (some (ino, record))

def putEntry : Option (Nat × Inode256) → FinalizerM Unit
  | none => pure ()
  | some (ino, record) => setInodeRecord (ino - 1) fun _ => pure record

theorem ofExcept_bind {α β : Type} (r : Except Fault α) (k : α → Except Fault β) :
    (ofExcept (r >>= k) : FinalizerM β) = ofExcept r >>= fun a => ofExcept (k a) := by
  cases r <;> rfl

theorem fillInodeRecord_eq (i : Nat) :
    fillInodeRecord i = get >>= fun s => ofExcept (entry s i) >>= putEntry := by
  refine congrArg (get >>= ·) (funext fun s => ?_)
  rw [entry, ofExcept_bind, bind_assoc]
  refine congrArg (ofExcept _ >>= ·) (funext fun n => ?_)
  split
  · rfl
  rw [ofExcept_bind, bind_assoc]
  refine congrArg (ofExcept _ >>= ·) (funext fun ino => ?_)
  cases ino with
  | none => rfl
  | some ino =>
    dsimp only
    split
    · rfl
    · rw [ofExcept_bind, bind_assoc]
      rfl

structure Prepared (ref : FileSystemBuilder) (s t : Finalizer) : Prop
    extends Resembles ref s t where
  entries : entry s = entry t

theorem tied_fillInodeRecord : Tied (Prepared ref) (fillInodeRecord i) := by
  rw [fillInodeRecord_eq]
  refine tied_get_bind (fun s t h => by rw [h.entries]) fun _ => tied_ofExcept_bind fun e => ?_
  cases e with
  | none => exact tied_pure _
  | some e =>
    intro s t h
    obtain ⟨ft, rfl⟩ : ∃ ft, t = { s with fs := ft } := ⟨_, h.frame⟩
    refine paired_ofExcept_bind h rfl fun old => paired_ofExcept_bind h rfl fun record => ?_
    exact ⟨rfl, ⟨rfl, h.left, h.right⟩, h.entries⟩

theorem finalizeInodeTable_paired (h : Prepared ref s t) :
    Paired (Resembles ref) (finalizeInodeTable s) (finalizeInodeTable t) := by
  have hlen : s.fs.nodes.length = t.fs.nodes.length := by
    simpa [clear] using congrArg (length ∘ nodes) (h.left.trans h.right.symm)
  change Paired _ (((range s.fs.nodes.length).forM fillInodeRecord >>= fun _ =>
    (range s.fs.nodes.length).forM countHardlink : FinalizerM Unit) s) _
  rw [hlen]
  refine Paired.bind ?_ fun _ u v _ _ huv => tied_forM (fun _ => tied_countHardlink) u v huv
  exact (tied_forM (fun _ => tied_fillInodeRecord) s t h).mono fun _ _ h => h.toResembles
end

section
variable {fs : FileSystemBuilder} {i : Nat}

theorem kids_unplaced {nodes} : kids (nodes.map unplaced) = kids nodes := by
  funext i
  simp only [kids, getElem?_map]
  cases nodes[i]? <;> rfl

theorem inodeNumber_unplaced {nodes} : inodeNumber (nodes.map unplaced) = inodeNumber nodes := by
  have hvisit : Numbering.visit (nodes.map unplaced) = Numbering.visit nodes := by
    funext w c
    simp only [Numbering.visit, getElem?_map]
    cases nodes[c]? <;> rfl
  funext i
  simp only [inodeNumber, numbering, levelOrder, kids_unplaced, length_map, hvisit,
    initialNumbering, fixedInodes_unplaced]

theorem entriesOf_unplaced {nodes} (i : Nat) :
    entriesOf (nodes.map unplaced) i = entriesOf nodes i := by
  have hup : parentOf (nodes.map unplaced) i = parentOf nodes i := by
    simp only [parentOf, getElem?_map]
    cases nodes[i]? <;> rfl
  simp only [entriesOf, listing, kids_unplaced, inodeNumber_unplaced, hup, nameOf, getElem?_map,
    Option.map_map]
  rfl

theorem nodeBlocks_clear : nodeBlocks (clear fs) i (unplaced n) = nodeBlocks fs i n := by
  simp only [nodeBlocks, clear, entriesOf_unplaced]
  rfl

theorem dirPacks_clear : dirPacks (clear fs) i = dirPacks fs i := by
  simp only [dirPacks, clear, entriesOf_unplaced]

theorem dataCost_clear : dataCost (clear fs) = dataCost fs := by
  funext i
  simp only [dataCost, clear, getElem?_map]
  cases fs.nodes[i]? with
  | none => rfl
  | some n => exact congrArg (ite _ 0) nodeBlocks_clear

theorem dataOrder_clear : dataOrder (clear fs) = dataOrder fs := by
  simp only [dataOrder, clear, length_map, inodeNumber_unplaced]

theorem dataStart_clear : dataStart (clear fs) g i = dataStart fs g i := by
  rw [dataStart, dataCost_clear, dataOrder_clear]
  rfl

theorem holdsAttrs_clear : holdsAttrs (clear fs) = holdsAttrs fs := by
  funext i
  simp only [holdsAttrs, clear, getElem?_map, inodeNumber_unplaced]
  cases fs.nodes[i]? <;> rfl

theorem attrCost_clear : attrCost (clear fs) = attrCost fs := by
  funext i
  rw [attrCost, attrCost, holdsAttrs_clear]

theorem attrStart_clear : attrStart (clear fs) g i = attrStart fs g i := by
  rw [attrStart, dataEnd, dataCost_clear, dataOrder_clear, attrCost_clear,
    show (clear fs).nodes.length = fs.nodes.length from length_map _]
  rfl

theorem recordFault_clear : recordFault (clear fs) i (unplaced n) = recordFault fs i n := by
  simp only [recordFault, extentFault, dirPacks_clear]
  rfl

theorem inodeRecord_clear (hskip : skipped n = false) :
    inodeRecord (clear fs) g i (unplaced n) = inodeRecord fs g i n := by
  have hmeta : inodeMetadata (clear fs) (placedNode (clear fs) g i (unplaced n)) =
      inodeMetadata fs (placedNode fs g i n) := by
    rw [placedNode_owner hskip, placedNode_owner (show skipped (unplaced n) = false from hskip)]
    simp only [place, dirPacks_clear, dataStart_clear,
      show (unplaced n).content = n.content from rfl]
    cases hc : n.content with
    | file | symlink =>
      dsimp only
      split <;> simp [hc, inodeMetadata, inodeFlags, willUseExtents, unplaced, clear]
    | directory | whiteout | hardlink =>
      simp [hc, inodeMetadata, inodeFlags, willUseExtents, unplaced, clear]
  have hblock : blockArea (clear fs) g i (unplaced n) = blockArea fs g i n := by
    simp only [blockArea, dirPacks_clear, dataStart_clear]
    rfl
  simp only [inodeRecord, inodeBody, hmeta, hblock, nodeBlocks_clear, attrCost_clear,
    holdsAttrs_clear, attrStart_clear]
  rfl

theorem index_eq_ok {α : Type} {l} {a : α} (h : index l i = .ok a) : l[i]? = some a := by
  unfold index at h
  cases hi : l[i]? with
  | none => rw [hi] at h; cases h
  | some b => rw [hi] at h; cases h; rfl

theorem entry_congr (h : Resembles ref s t)
    (hbuild : ∀ n, s.fs.nodes[i]? = some n → skipped n = false →
      buildInodeRecord s i = buildInodeRecord t i) : entry s i = entry t i := by
  have hnode : (node s i).map unplaced = (node t i).map unplaced := by
    rw [← node_cleared, ← node_cleared, h.cleared]
  have hino : inodeOf t i = inodeOf s i := by rw [inodeOf, inodeOf, h.frame]
  cases hn : node s i with
  | error e =>
    cases hm : node t i with
    | error e' =>
      rw [hn, hm] at hnode
      rw [entry, entry, hn, hm, Except.error.inj hnode]
      rfl
    | ok m => rw [hn, hm] at hnode; cases hnode
  | ok n =>
    cases hm : node t i with
    | error e => rw [hn, hm] at hnode; cases hnode
    | ok m =>
      rw [hn, hm] at hnode
      obtain ⟨-, -, -, -, -, -, -, hlink, hdel⟩ := unplaced_fields (Except.ok.inj hnode)
      rw [entry, entry, except_bind_ok hn, except_bind_ok hm, hino, ← hdel, ← hlink]
      split
      · rfl
      next hd =>
      refine congrArg (inodeOf s i >>= ·) (funext fun ino => ?_)
      cases ino with
      | none => rfl
      | some ino =>
        dsimp only
        split
        · rfl
        next hl =>
        rw [hbuild n (index_eq_ok hn) (by simp_all [skipped])]

section
variable (hs : Sound fs) (ht : Sound ft) (hc : clear fs = clear ft)
include hs ht hc

/-- Once the data region is written, both runs build the same records. -/
theorem prepared {u v : Finalizer}
    (hu : (prepare >>= fun _ => writeDataRegion) { fs, out } = .ok () u)
    (hv : (prepare >>= fun _ => writeDataRegion) { fs := ft, out } = .ok () v)
    (h : Resembles (clear fs) u v) : Prepared (clear fs) u v := by
  obtain ⟨_, s, hprep, hdata⟩ := bind_eq_ok.mp hu
  obtain ⟨g, hsized, -, o, p, rfl, -⟩ := written_region hs hprep hdata
  obtain ⟨_, t, hprep', hdata'⟩ := bind_eq_ok.mp hv
  obtain ⟨g', hsized', -, o', p', rfl, -⟩ := written_region ht hprep' hdata'
  obtain rfl : g' = g := congrArg Finalizer.blockGroups h.frame
  refine ⟨h, funext fun i => entry_congr h fun m hm hskip => ?_⟩
  have hlen : i < fs.nodes.length := by
    have := lt_of_get hm
    rwa [(@renders_finished fs g' o (blankTable fs) (tableStart fs g') p).length] at this
  have hn := getElem?_eq_getElem hlen
  generalize fs.nodes[i] = n at hn
  obtain ⟨n', hn', he⟩ : ∃ n', ft.nodes[i]? = some n' ∧ unplaced n' = unplaced n := by
    have hget := congrArg (fun fs => fs.nodes[i]?) hc
    simp only [clear, getElem?_map, hn] at hget
    exact Option.map_eq_some_iff.mp hget.symm
  have hown : skipped n = false := by
    cases (finished_get hn).symm.trans hm
    rwa [show skipped n = skipped (unplaced n) from rfl, ← unplaced_placedNode (g := g') i n,
      ← unplaced_attrNode (g := g') i]
  have hown' : skipped n' = false := by
    rw [show skipped n' = skipped (unplaced n') from rfl, he]
    exact hown
  rw [buildInodeRecord_eq hs hsized hn hown, buildInodeRecord_eq ht hsized' hn' hown',
    ← recordFault_clear, ← inodeRecord_clear hown, ← @recordFault_clear ft,
    ← inodeRecord_clear hown', hc, he]

theorem run_paired : Paired (Resembles (clear fs)) (run { fs, out }) (run { fs := ft, out }) := by
  have hrun : run = (prepare >>= fun _ => writeDataRegion) >>= fun _ =>
      finalizeInodeTable >>= fun _ => writeBitmapsAndGdt >>= fun _ => writeSuperblock >>= fun _ =>
      flush := by
    simp only [run, prepare, bind_assoc]
  have hregion : Tied (Resembles (clear fs)) (prepare >>= fun _ => writeDataRegion) :=
    (tied_allocateInodes.bind fun _ => tied_layoutHeader).bind fun _ => tied_writeDataRegion
  rw [hrun]
  refine (hregion _ _ ⟨rfl, rfl, hc.symm⟩).bind fun _ u v hu hv huv => ?_
  refine (finalizeInodeTable_paired (prepared hs ht hc hu hv huv)).bind fun _ u v _ _ huv => ?_
  exact (tied_writeBitmapsAndGdt.bind fun _ => tied_writeSuperblock.bind fun _ =>
    tied_flush) u v huv
end

theorem Sound.alike (h : Sound ft) (hc : clear fs = clear ft) : Sound fs := by
  have hget (i : Nat) : fs.nodes[i]?.map unplaced = ft.nodes[i]?.map unplaced := by
    simpa only [clear, getElem?_map] using congrArg (fun fs => fs.nodes[i]?) hc
  have hnode {i : Nat} {n : Node} (hn : fs.nodes[i]? = some n) :
      ∃ m, ft.nodes[i]? = some m ∧ unplaced m = unplaced n := by
    have := hget i
    rw [hn] at this
    exact Option.map_eq_some_iff.mp this.symm
  refine ⟨?_, ?_, ?_, ?_, ?_⟩
  · refine Ext4BuilderRuns.bare_wellFormed h.wf (fun i => ?_) (congrArg pathIndex hc :)
    have := congrArg (Option.map Ext4BuilderRuns.bare) (hget i)
    rw [Option.map_map, Option.map_map] at this
    exact this
  · intro i n hn
    obtain ⟨m, hm, he⟩ := hnode hn
    have : Ext4BuilderRuns.Typed (unplaced m) := h.typed i m hm
    rwa [he] at this
  · intro i n hn
    obtain ⟨m, hm, he⟩ := hnode hn
    have : (unplaced m).uid = 0 ∧ (unplaced m).gid = 0 := h.owner i m hm
    rwa [he] at this
  · intro i n hn
    obtain ⟨m, hm, he⟩ := hnode hn
    have : (unplaced m).inode = _ := h.fixed i m hm
    rwa [he] at this
  · obtain ⟨m, hm, hdir⟩ := h.lostFound
    have := hget 1
    rw [hm] at this
    obtain ⟨n, hn, he⟩ := Option.map_eq_some_iff.mp this
    exact ⟨n, hn, by rwa [(unplaced_fields he).2.2.2.2.1]⟩
end

inductive Call where
  | op (op : Op)
  | write (out : Sink)

def afterWrite : EStateM.Result Fault Finalizer Unit → FileSystemBuilder
  | .ok _ s => s.fs
  | .error _ s => s.fs

def runCalls : List Call → FileSystemBuilder → Option FileSystemBuilder
  | [], fs => some fs
  | .op op :: calls, fs => (afterCall (op.run fs)).bind (runCalls calls)
  | .write out :: calls, fs => runCalls calls (afterWrite (Ext4Finalizer.write fs out))

def opsOf : List Call → List Op
  | [] => []
  | .op op :: calls => op :: opsOf calls
  | .write _ :: calls => opsOf calls

/-- What the caller sees of a write: its result and the bytes in the sink. -/
def outcome : EStateM.Result Fault Finalizer Unit → Except Fault Unit × ByteImage.Image
  | .ok _ s => (.ok (), s.out.bytes)
  | .error e s => (.error e, s.out.bytes)

variable {fs : FileSystemBuilder}

theorem write_agree (ht : Sound ft) (h : Alike fs ft) (out : Sink) :
    outcome (write fs out) = outcome (write ft out) ∧ Alike (afterWrite (write fs out)) ft := by
  have hrun := @run_paired _ _ (Sound.alike ht h) ht h out
  rw [write, write]
  obtain ⟨_, u, v, hu, hv, huv⟩ | ⟨e, u, v, hu, hv, huv⟩ := hrun.cases
  · rw [hu, hv]
    exact ⟨by rw [outcome, outcome, huv.frame], huv.left.trans h⟩
  · rw [hu, hv]
    exact ⟨by rw [outcome, outcome, huv.frame], huv.left.trans h⟩

theorem afterCall_alike (h : Alike fs ft) (op : Op) :
    Option.Rel Alike (afterCall (op.run fs)) (afterCall (op.run ft)) := by
  obtain ⟨_, u, v, hu, hv, huv⟩ | ⟨e, u, v, hu, hv, huv⟩ := (tied_run op fs ft h).cases
  · rw [hu, hv]
    exact .some huv
  · rw [hu, hv]
    cases e with
    | err e => exact .some huv
    | panic p => exact .none

theorem runOps_append : runOps (as ++ bs) fs = (runOps as fs).bind (runOps bs) := by
  induction as generalizing fs with
  | nil => rfl
  | cons op as ih => simp only [cons_append, runOps, Option.bind_assoc, ih]

theorem Reached.afterCall (h : Reached fs) {op : Op} (hop : afterCall (op.run fs) = some ft) :
    Reached ft := by
  obtain ⟨bs, ops, hrun⟩ := h
  refine ⟨bs, ops ++ [op], ?_⟩
  rw [runOps_append, hrun, Option.bind_some, runOps, hop]
  rfl

theorem runCalls_alike (h : Alike fs ft) (hft : Reached ft) (calls : List Call) :
    Option.Rel (fun fs ft => Alike fs ft ∧ Reached ft) (runCalls calls fs)
      (runOps (opsOf calls) ft) := by
  induction calls generalizing fs ft with
  | nil => exact .some ⟨h, hft⟩
  | cons call calls ih =>
    cases call with
    | op op =>
      rw [runCalls, opsOf, runOps]
      have hcall := afterCall_alike h op
      have hreached := fun ft' => @Reached.afterCall ft ft' hft op
      generalize afterCall (op.run fs) = x at hcall ⊢
      generalize afterCall (op.run ft) = y at hcall hreached ⊢
      cases hcall with
      | none => exact .none
      | some huv => exact ih huv (hreached _ rfl)
    | write out => exact ih (write_agree (Reached.sound hft) h out).2 hft

/-- Writes leave no residue: the last write gives the same result and the same bytes
whether or not other writes came between the calls. -/
theorem write_leaves_no_residue (bs : BlockSize) (calls : List Call) (out : Sink) :
    (runCalls calls (FileSystemBuilder.new bs)).map (fun fs => outcome (write fs out)) =
      (runOps (opsOf calls) (FileSystemBuilder.new bs)).map fun fs => outcome (write fs out) := by
  have h := runCalls_alike (show Alike (new bs) _ from rfl) ⟨bs, [], rfl⟩ calls
  generalize runCalls calls (new bs) = x at h ⊢
  generalize runOps (opsOf calls) (new bs) = y at h ⊢
  cases h with
  | none => rfl
  | some huv => exact congrArg some (write_agree (Reached.sound huv.2) huv.1 out).1

end Ext4WriterResidue
