import Firkin.Ext4NodeData
import Firkin.Ext4Attributes
import Firkin.SerialLayout

/-! # The data region

The writer goes through the nodes by inode number and lays their data one after the
other behind the header; after that come the attribute blocks, by node index. Where
everything lies is therefore known beforehand: `dataStart` and `attrStart`. -/
namespace Ext4DataRegion

open Ext4Types Ext4Builder ByteImage Ext4Layout Ext4Encoding Ext4Finalizer Ext4InodeAllocation List
  Ext4WriterFrame Ext4Sizing Ext4SinkSteps Ext4NodeData Ext4Attributes SerialLayout FaultMonad

section
variable (fs : FileSystemBuilder) (g : Nat)

def dataOrder : List Nat :=
  (List.range fs.nodes.length).insertionSort fun a b =>
    (inodeNumber fs.nodes a).getD (2 ^ 32 - 1) ≤ (inodeNumber fs.nodes b).getD (2 ^ 32 - 1)

def dataCost (i : Nat) : Nat :=
  match fs.nodes[i]? with
  | some n => if skipped n then 0 else nodeBlocks fs i n
  | none => 0

def dataStart (i : Nat) : Nat :=
  headerOf fs.blockSize g + offset (dataCost fs) (dataOrder fs) i

def dataEnd : Nat := headerOf fs.blockSize g + total (dataCost fs) (dataOrder fs)

/-- The node gets an attribute block. A hard link that is kept can have one too. -/
def holdsAttrs (i : Nat) : Bool :=
  match fs.nodes[i]? with
  | some n => !n.deleted && (inodeNumber fs.nodes i).isSome && decide (n.xattrs ≠ []) &&
      decide (inodeInlineXattrSize < attrNeed n.xattrs)
  | none => false

def attrCost (i : Nat) : Nat := if holdsAttrs fs i then 1 else 0

/-- The attribute blocks of nodes with an inode of their own: those of the estimate. -/
def ownAttrCost (i : Nat) : Nat :=
  match fs.nodes[i]? with
  | some n => if skipped n then 0 else attrBlocks n
  | none => 0

def attrStart (i : Nat) : Nat :=
  dataEnd fs g + offset (attrCost fs) (List.range fs.nodes.length) i

def tableStart : Nat := dataEnd fs g + total (attrCost fs) (List.range fs.nodes.length)

def dataFault (i : Nat) : Option Fault :=
  match fs.nodes[i]? with
  | some n => if skipped n then none else nodeFault fs i n
  | none => none

def attrFault (i : Nat) : Option Fault :=
  match fs.nodes[i]? with
  | some n =>
    if n.deleted ∨ inodeNumber fs.nodes i = none ∨ n.xattrs = [] then none
    else if ¬ attrNeed n.xattrs < 2 ^ 32 then some overflow
    else if attrNeed n.xattrs ≤ inodeInlineXattrSize then none
    else
      (blockFault fs.blockSize n.xattrs).or
        (if attrStart fs g i + 1 < 2 ^ 32 then none else some overflow)
  | none => none

def dataFaults : List Fault := (dataOrder fs).filterMap (dataFault fs)
def attrFaults : List Fault := (List.range fs.nodes.length).filterMap (attrFault fs g)

def placedNode (i : Nat) (n : Node) : Node :=
  if skipped n then n else place fs (dataStart fs g i) i n

def attrNode (i : Nat) (n : Node) : Node :=
  if holdsAttrs fs i then { n with xattrBlock := some (attrStart fs g i) } else n
end

/-- The builder with `f` applied to the nodes `done`. -/
def decorate (fs : FileSystemBuilder) (f : Nat → Node → Node) (done : List Nat) :
    FileSystemBuilder :=
  { fs with nodes := fs.nodes.mapIdx fun i n => if i ∈ done then f i n else n }

variable {fs : FileSystemBuilder} {t : Finalizer} {i g : Nat} {n : Node}
  {f : Nat → Node → Node} {done : List Nat}

theorem decorate_get (hn : fs.nodes[i]? = some n) :
    (decorate fs f done).nodes[i]? = some (if i ∈ done then f i n else n) := by
  simp [decorate, hn]

theorem builder_ext {a b : FileSystemBuilder}
    (hrest : { a with nodes := [] } = { b with nodes := [] })
    (h : ∀ k : Nat, a.nodes[k]? = b.nodes[k]?) : a = b := by
  cases a
  cases b
  simp only [FileSystemBuilder.mk.injEq] at hrest ⊢
  simp only [hrest, and_true, true_and]
  exact ext_getElem? h

theorem decorate_nil : decorate fs f [] = fs := by
  refine builder_ext rfl fun k => ?_
  simp only [decorate, getElem?_mapIdx]
  cases fs.nodes[k]? <;> simp

theorem decorate_snoc (ha : a ∉ done) :
    decorate fs f (done ++ [a]) = (decorate fs f done).updateNode a (f a) := by
  refine builder_ext rfl fun k => ?_
  simp only [decorate, FileSystemBuilder.updateNode]
  rw [getElem?_mapIdx]
  by_cases hk : a = k
  · subst hk
    rw [getElem?_modify_eq, getElem?_mapIdx]
    cases fs.nodes[a]? <;> simp [ha]
  · rw [getElem?_modify_ne _ _ hk, getElem?_mapIdx]
    cases fs.nodes[k]? <;> simp [Ne.symm hk]

theorem decorate_same (h : ∀ n, fs.nodes[a]? = some n → f a n = n) :
    decorate fs f (done ++ [a]) = decorate fs f done := by
  refine builder_ext rfl fun k => ?_
  simp only [decorate, getElem?_mapIdx]
  cases hk : fs.nodes[k]? with
  | none => rfl
  | some n =>
    by_cases hka : k = a
    · subst hka
      simp [h n hk]
    · simp [hka]

theorem Renders.decorate (h : Renders fs s) (hfs : t.fs = decorate s.fs f done)
    (hino : t.inodes = s.inodes) (hf : ∀ i n, unplaced (f i n) = unplaced n) : Renders fs t where
  config := by rw [hfs]; exact h.config
  keys := by rw [hfs]; exact h.keys
  nodes := by
    rw [hfs, ← h.nodes]
    apply ext_getElem?
    intro k
    simp only [Ext4DataRegion.decorate, getElem?_map, getElem?_mapIdx]
    cases s.fs.nodes[k]? with
    | none => rfl
    | some n =>
      simp only [Option.map_some]
      split
      · rw [hf]
      · rfl
  inodes := hino.trans h.inodes

def stage (fs : FileSystemBuilder) (g : Nat) (cur : FileSystemBuilder) (table : List Inode256)
    (next : Nat) (out : Sink) (pos : Nat) : Finalizer :=
  { allocated fs out g with
    fs := cur, pos, inodeTable := table, nextFreeBlock := next
    headerBlocks := headerOf fs.blockSize g }

def blankTable (fs : FileSystemBuilder) : List Inode256 := List.replicate (slots fs) Inode256.zeroed

variable {out : Sink} {table : List Inode256} {next pos : Nat}

theorem renders_stage : Renders fs (stage fs g fs table next out pos) :=
  ⟨⟨rfl, rfl, rfl, rfl⟩, rfl, rfl, rfl⟩

theorem Sized.header_lt (h : Sized fs g) : headerOf fs.blockSize g + payload fs < 2 ^ 32 := by
  have := h.groups.small
  unfold blocksNeeded at this
  omega

theorem Sized.groups_lt (h : Sized fs g) : 66 * g < 2 ^ 32 := by
  have hsmall := h.groups.small
  obtain ⟨k, hk, _, _, htb, _⟩ := slots_spec h.inodes
  have hmul : g * 66 ≤ g * (tableBlocks fs + 2) := Nat.mul_le_mul_left g (by omega)
  unfold blocksNeeded at hsmall
  omega

theorem layoutHeader_ends (h : Sized fs g) (out : Sink) :
    Ends layoutHeader (allocated fs out g)
      (fun _ t => ∃ o p, t = stage fs g fs (blankTable fs) (headerOf fs.blockSize g) o p ∧
        o.fate = out.fate)
      (IoFault out) := by
  have hheader : headerBlocksFor fs.blockSize g = .ok (headerOf fs.blockSize g) := by
    have hlt := Sized.groups_lt h
    have hbs := blockSize_cases fs.blockSize
    rw [headerBlocksFor_eq, if_pos]
    unfold groupDescSize
    omega
  refine (ends_bind_ok (ofExcept_run hheader)).mpr ?_
  refine (seekToBlock_ends _ _).mono ?_ fun _ h => h
  rintro _ _ ⟨o, p, rfl, _, hf, _⟩
  exact ⟨o, p, rfl, hf⟩

theorem dataOrder_perm : (dataOrder fs).Perm (range fs.nodes.length) :=
  perm_insertionSort _ _

theorem mem_dataOrder : i ∈ dataOrder fs ↔ i < fs.nodes.length := by
  rw [dataOrder_perm.mem_iff, mem_range]

theorem dataOrder_nodup : (dataOrder fs).Nodup := dataOrder_perm.nodup_iff.mpr nodup_range

theorem nodesToProcess_eq (hs : Sound fs) (h : Renders fs s) : nodesToProcess s = dataOrder fs := by
  simp only [nodesToProcess, h.length, h.join hs]
  rfl

def DataHeld (fs : FileSystemBuilder) (g : Nat) (done : List Nat) (bytes : Image) : Prop :=
  ∀ i ∈ done, ∀ n, fs.nodes[i]? = some n → skipped n = false →
    Holds bytes (dataStart fs g i * fs.blockSize.bytes) (nodeData fs (dataStart fs g i) i n)

structure DataDone (fs : FileSystemBuilder) (g : Nat) (out : Sink) (done : List Nat)
    (u : Finalizer) : Prop where
  clean : done.filterMap (dataFault fs) = []
  state : ∃ o p, u = stage fs g (decorate fs (placedNode fs g) done) (blankTable fs)
      (headerOf fs.blockSize g + total (dataCost fs) done) o p ∧ o.fate = out.fate ∧
    DataHeld fs g done o.bytes

theorem unplaced_placedNode (i : Nat) (n : Node) : unplaced (placedNode fs g i n) = unplaced n := by
  unfold placedNode
  split
  · rfl
  · exact unplaced_place fs _ i n

theorem renders_placed :
    Renders fs (stage fs g (decorate fs (placedNode fs g) done) table next out pos) :=
  Renders.decorate (@renders_stage fs g out table next pos) rfl rfl unplaced_placedNode

theorem payload_eq : payload fs = total (dataCost fs) (range fs.nodes.length) +
    total (ownAttrCost fs) (range fs.nodes.length) := by
  rw [← total_add, payload]
  congr 1
  apply ext_getElem (by simp)
  intro k h1 h2
  simp only [length_map, length_zipIdx] at h1
  simp only [getElem_map, getElem_zipIdx, getElem_range, Nat.zero_add, nodePayload, dataCost,
    ownAttrCost, getElem?_eq_getElem h1]
  split <;> rfl

theorem dataEnd_lt (h : Sized fs g) : dataEnd fs g < 2 ^ 32 := by
  have hheader := Sized.header_lt h
  have hpay := @payload_eq fs
  rw [dataEnd, total_perm dataOrder_perm]
  omega

section
variable (hn : fs.nodes[i]? = some n) (hskip : skipped n = false)
include hn hskip

theorem dataCost_owner : dataCost fs i = nodeBlocks fs i n := by
  simp [dataCost, hn, hskip]

theorem dataFault_owner : dataFault fs i = nodeFault fs i n := by
  simp [dataFault, hn, hskip]
end

theorem filterMap_snoc {α β : Type} {f : α → Option β} {l : List α} {a : α}
    (hl : l.filterMap f = []) (ha : f a = none) : (l ++ [a]).filterMap f = [] := by
  simp [hl, ha]

theorem filterMap_head {α β : Type} {f} {pre post : List α} {a : α} {b : β}
    (hl : pre.filterMap f = []) (ha : f a = some b) :
    ((pre ++ a :: post).filterMap f).head? = some b := by
  simp [hl, ha]

theorem writeNodeData_step (hs : Sound fs) (hsized : Sized fs g)
    (horder : dataOrder fs = pre ++ a :: post) (hI : DataDone fs g out pre u) :
    Ends (writeNodeData a) u (fun _ v => DataDone fs g out (pre ++ [a]) v)
      (fun φ => IoFault out φ ∨ (dataFaults fs).head? = some φ) := by
  have hnd := @dataOrder_nodup fs
  rw [horder] at hnd
  have hpre : a ∉ pre := fun h => disjoint_of_nodup_append hnd h mem_cons_self
  have ha : a < fs.nodes.length := mem_dataOrder.mp (horder ▸ by simp)
  have hn := getElem?_eq_getElem ha
  generalize fs.nodes[a] = n at hn
  obtain ⟨o, p, rfl, hfate, hheld⟩ := hI.state
  have hstart : dataStart fs g a = headerOf fs.blockSize g + total (dataCost fs) pre := by
    rw [dataStart, horder, offset_mid hpre]
  have hrend := @renders_placed fs g pre o (blankTable fs)
    (headerOf fs.blockSize g + total (dataCost fs) pre) p
  have hend := dataEnd_lt hsized
  rw [dataEnd, horder, total_append, total_cons] at hend
  refine (writeNodeData_ends hs hrend hn hsized ?_).mono ?_ ?_
  · intro hskip
    rw [← dataCost_owner hn hskip]
    change headerOf fs.blockSize g + total (dataCost fs) pre + _ < _
    omega
  · intro _ v hv
    by_cases hskip : skipped n = true
    · rw [if_pos hskip] at hv
      subst hv
      have hzero : dataCost fs a = 0 := by simp [dataCost, hn, hskip]
      have hnone : dataFault fs a = none := by simp [dataFault, hn, hskip]
      refine ⟨filterMap_snoc hI.clean hnone, o, p, ?_, hfate, ?_⟩
      · rw [decorate_same, total_append, total_cons, hzero]
        · rfl
        · intro m hm
          cases hn.symm.trans hm
          exact if_pos hskip
      · intro i hi m hm hm'
        rcases mem_append.mp hi with hi | hi
        · exact hheld i hi m hm hm'
        · rw [mem_singleton.mp hi, hn] at hm
          cases hm
          cases hskip.symm.trans hm'
    · rw [if_neg hskip] at hv
      rw [Bool.not_eq_true] at hskip
      obtain ⟨hok, o', p', rfl, hb, hf⟩ := hv
      refine ⟨filterMap_snoc hI.clean ((dataFault_owner hn hskip).trans hok), o', p', ?_,
        hf.trans hfate, ?_⟩
      · have hget : (decorate fs (placedNode fs g) pre).nodes[a]? = some n := by
          rw [decorate_get hn, if_neg hpre]
        have hplace : (decorate fs (placedNode fs g) pre).updateNode a (placedNode fs g a) =
            (decorate fs (placedNode fs g) pre).updateNode a
              (place fs (headerOf fs.blockSize g + total (dataCost fs) pre) a) := by
          refine updateNode_congr hget ?_
          rw [placedNode, hskip, hstart]
          rfl
        rw [decorate_snoc hpre, hplace, total_append, total_cons, dataCost_owner hn hskip,
          ← Nat.add_assoc]
        rfl
      · rw [hb]
        change DataHeld fs g (pre ++ [a]) (overwrite o.bytes
          ((headerOf fs.blockSize g + total (dataCost fs) pre) * fs.blockSize.bytes)
          (nodeData fs (headerOf fs.blockSize g + total (dataCost fs) pre) a n))
        rw [← hstart]
        intro i hi m hm hm'
        rcases mem_append.mp hi with hi | hi
        · refine (hheld i hi m hm hm').overwrite (.inl ?_)
          have hbefore := @offset_before _ _ (dataCost fs) _ _ _ _ hnd hi
          have hclean : nodeFault fs i m = none := by
            rw [← dataFault_owner hm hm']
            exact filterMap_eq_nil_iff.mp hI.clean i hi
          rw [length_nodeData hm hm' hsized hclean, ← dataCost_owner hm hm', ← Nat.add_mul]
          refine Nat.mul_le_mul_right _ ?_
          rw [dataStart, dataStart, horder]
          omega
        · rw [mem_singleton.mp hi, hn] at hm
          cases hm
          rw [mem_singleton.mp hi]
          exact holds_overwrite
  · rintro φ (h | ⟨hskip, h⟩)
    · exact .inl (h.congr hfate)
    · refine .inr ?_
      rw [dataFaults, horder]
      exact filterMap_head hI.clean ((dataFault_owner hn hskip).trans h)

theorem data_le (hsized : Sized fs g) (hdata : dataFaults fs = []) (hn : fs.nodes[i]? = some n)
    (hskip : skipped n = false) :
    dataStart fs g i * fs.blockSize.bytes + (nodeData fs (dataStart fs g i) i n).length ≤
      dataEnd fs g * fs.blockSize.bytes := by
  have hi : i ∈ dataOrder fs := mem_dataOrder.mpr (lt_of_get hn)
  have hclean : nodeFault fs i n = none := by
    rw [← dataFault_owner hn hskip]
    exact filterMap_eq_nil_iff.mp hdata i hi
  have hle := @offset_add_le _ _ (dataCost fs) _ _ dataOrder_nodup hi
  rw [length_nodeData hn hskip hsized hclean, ← dataCost_owner hn hskip, ← Nat.add_mul]
  refine Nat.mul_le_mul_right _ ?_
  rw [dataStart, dataEnd]
  omega

theorem attrCost_holder (h : holdsAttrs fs i = true) : attrCost fs i = 1 := if_pos h

def AttrsHeld (fs : FileSystemBuilder) (g : Nat) (done : List Nat) (bytes : Image) : Prop :=
  ∀ i ∈ done, ∀ n buf, fs.nodes[i]? = some n → holdsAttrs fs i = true →
    writeXattrBlock n.xattrs (zeros fs.blockSize.bytes) = .ok buf →
    Holds bytes (attrStart fs g i * fs.blockSize.bytes) buf

def placedAll (fs : FileSystemBuilder) (g : Nat) : FileSystemBuilder :=
  decorate fs (placedNode fs g) (dataOrder fs)

structure AttrsDone (fs : FileSystemBuilder) (g : Nat) (out : Sink) (done : List Nat)
    (u : Finalizer) : Prop where
  clean : done.filterMap (attrFault fs g) = []
  state : ∃ o p, u = stage fs g (decorate (placedAll fs g) (attrNode fs g) done) (blankTable fs)
      (dataEnd fs g + total (attrCost fs) done) o p ∧ o.fate = out.fate ∧
    DataHeld fs g (dataOrder fs) o.bytes ∧ AttrsHeld fs g done o.bytes

theorem unplaced_attrNode (i : Nat) (n : Node) : unplaced (attrNode fs g i n) = unplaced n := by
  unfold attrNode
  split <;> rfl

theorem renders_attrs :
    Renders fs (stage fs g (decorate (placedAll fs g) (attrNode fs g) done) table next out pos) :=
  Renders.decorate (@renders_placed fs g (dataOrder fs) out table next pos) rfl rfl
    unplaced_attrNode

theorem attrFault_measured (hn : fs.nodes[i]? = some n) (hd : n.deleted = false)
    (hk : inodeNumber fs.nodes i ≠ none) (hx : n.xattrs ≠ []) : attrFault fs g i =
      if ¬ attrNeed n.xattrs < 2 ^ 32 then some overflow
      else if attrNeed n.xattrs ≤ inodeInlineXattrSize then none
      else (blockFault fs.blockSize n.xattrs).or
        (if attrStart fs g i + 1 < 2 ^ 32 then none else some overflow) := by
  rw [attrFault, hn]
  exact if_neg (by simp [hd, hk, hx])

theorem writeNodeXattrs_step (hsized : Sized fs g)
    (horder : range fs.nodes.length = pre ++ a :: post)
    (hdata : dataFaults fs = []) (hI : AttrsDone fs g out pre u) :
    Ends (writeNodeXattrs a) u (fun _ v => AttrsDone fs g out (pre ++ [a]) v)
      (fun φ => IoFault out φ ∨ (attrFaults fs g).head? = some φ) := by
  have hnd := @List.nodup_range fs.nodes.length
  rw [horder] at hnd
  have hpre : a ∉ pre := fun h => disjoint_of_nodup_append hnd h mem_cons_self
  have ha : a < fs.nodes.length := mem_range.mp (horder ▸ by simp)
  have hn := getElem?_eq_getElem ha
  generalize fs.nodes[a] = n at hn
  obtain ⟨o, p, rfl, hfate, hheld, hattrs⟩ := hI.state
  have hstart : attrStart fs g a = dataEnd fs g + total (attrCost fs) pre := by
    rw [attrStart, horder, offset_mid hpre]
  have hrend := @renders_attrs fs g pre o (blankTable fs) (dataEnd fs g + total (attrCost fs) pre) p
  obtain ⟨m, hm, hme⟩ := hrend.node hn
  obtain ⟨-, -, -, -, -, hxs, -, -, hdel⟩ := unplaced_fields hme
  have hino := hrend.inodeOf ha
  -- a node that takes no block and raises no fault leaves everything as it is
  have hskip (hno : holdsAttrs fs a = false) (hok : attrFault fs g a = none) :
      AttrsDone fs g out (pre ++ [a]) (stage fs g
        (decorate (placedAll fs g) (attrNode fs g) pre) (blankTable fs)
        (dataEnd fs g + total (attrCost fs) pre) o p) := by
    refine ⟨filterMap_snoc hI.clean hok, o, p, ?_, hfate, hheld, ?_⟩
    · have hzero : attrCost fs a = 0 := by simp [attrCost, hno]
      rw [decorate_same, total_append, total_cons, hzero]
      · rfl
      · simp [attrNode, hno]
    · intro i hi m buf hm hh hbuf
      rcases mem_append.mp hi with hi | hi
      · exact hattrs i hi m buf hm hh hbuf
      · rw [mem_singleton.mp hi, hno] at hh
        cases hh
  have hfault (φ : Fault) (h : attrFault fs g a = some φ) :
      IoFault out φ ∨ (attrFaults fs g).head? = some φ := by
    refine .inr ?_
    rw [attrFaults, horder]
    exact filterMap_head hI.clean h
  rw [writeNodeXattrs, ends_get_bind, ends_bind_ok (ofExcept_run hm), hdel, hxs]
  by_cases hdead : n.deleted = true
  · rw [if_pos hdead]
    exact hskip (by simp [holdsAttrs, hn, hdead]) (by simp [attrFault, hn, hdead])
  rw [if_neg hdead, ends_bind_ok (ofExcept_run hino)]
  by_cases hnum : inodeNumber fs.nodes a = none
  · rw [hnum, if_pos Option.isNone_none]
    exact hskip (by simp [holdsAttrs, hn, hnum]) (by simp [attrFault, hn, hnum])
  obtain ⟨k, hk⟩ := Option.ne_none_iff_exists'.mp hnum
  rw [hk, if_neg (by simp)]
  by_cases hnil : n.xattrs = []
  · rw [if_pos hnil]
    exact hskip (by simp [holdsAttrs, hn, hnil]) (by simp [attrFault, hn, hnil])
  rw [if_neg hnil]
  rw [Bool.not_eq_true] at hdead
  have hfits := xattrsFitInline_eq n.xattrs
  have hdef := @attrFault_measured fs a g n hn hdead hnum hnil
  by_cases hw : attrNeed n.xattrs < 2 ^ 32
  case neg =>
    rw [if_neg hw] at hfits
    rw [ends_bind_error (ofExcept_fail hfits)]
    exact hfault _ (hdef.trans (if_pos hw))
  rw [if_pos hw] at hfits
  rw [if_neg (not_not.mpr hw)] at hdef
  rw [ends_bind_ok (ofExcept_run hfits)]
  by_cases hin : attrNeed n.xattrs ≤ inodeInlineXattrSize
  · rw [if_pos (decide_eq_true hin)]
    exact hskip (by simp [holdsAttrs, hn, not_lt.mpr hin]) (hdef.trans (if_pos hin))
  rw [if_neg (by simpa using hin)]
  rw [if_neg hin] at hdef
  have hholds : holdsAttrs fs a = true := by
    simp [holdsAttrs, hn, hdead, hk, hnil, not_le.mp hin]
  refine (seekToBlock_ends _ _).andThen (fun _ h => .inl (h.congr hfate)) ?_
  rintro _ _ ⟨o1, p1, rfl, hb1, hf1, hc1⟩
  rcases writeXattrBlock_cases fs.blockSize n.xattrs with ⟨φ, hφ, herr⟩ | ⟨hnone, buf, hbuf, hlen⟩
  · refine (ends_bind_error (ofExcept_fail herr)).mpr (hfault φ ?_)
    rw [hdef, hφ]
    rfl
  refine (ends_bind_ok (ofExcept_run hbuf)).mpr ?_
  refine (writeBytes_ends _ _).andThen (fun _ h => .inl (h.congr (hf1.trans hfate))) ?_
  rintro _ _ ⟨o2, p2, rfl, hb2, hf2, -⟩
  rw [hnone, hstart] at hdef
  by_cases hfit : dataEnd fs g + total (attrCost fs) pre + 1 < 2 ^ 32
  case neg =>
    rw [if_neg hfit] at hdef
    exact (ends_bind_error (ofExcept_fail (u32Add_overflow hfit))).mpr (hfault _ hdef)
  rw [if_pos hfit] at hdef
  refine (ends_bind_ok (ofExcept_run (u32Add_ok hfit))).mpr ?_
  have hbytes : o2.bytes = overwrite o.bytes
      ((dataEnd fs g + total (attrCost fs) pre) * fs.blockSize.bytes) buf := by
    rw [hb2]
    simp only [hb1, hc1]
    rfl
  obtain ⟨m', hm', _⟩ := hrend.get hn
  refine modifyNode_ends hm' ⟨filterMap_snoc hI.clean hdef, o2, p2, ?_, hf2.trans (hf1.trans hfate),
    ?_, ?_⟩
  · have hnode : attrNode fs g a = fun n => { n with
        xattrBlock := some (dataEnd fs g + total (attrCost fs) pre) } := by
      funext n
      rw [attrNode, if_pos hholds, hstart]
    rw [decorate_snoc hpre, hnode, total_append, total_cons, attrCost_holder hholds]
    rfl
  · rw [hbytes]
    intro i hi m hm hm'
    refine (hheld i hi m hm hm').overwrite (.inl ?_)
    have := data_le hsized hdata hm hm'
    have := Nat.mul_le_mul_right fs.blockSize.bytes
      (Nat.le_add_right (dataEnd fs g) (total (attrCost fs) pre))
    omega
  · rw [hbytes]
    intro i hi m r hm hh hr
    rcases mem_append.mp hi with hi | hi
    · refine (hattrs i hi m r hm hh hr).overwrite (.inl ?_)
      have hbefore := @offset_before _ _ (attrCost fs) _ _ _ _ hnd hi
      rw [attrCost_holder hh] at hbefore
      rw [writeXattrBlock_length hr, ← hstart, ← Nat.succ_mul]
      refine Nat.mul_le_mul_right _ ?_
      rw [attrStart, attrStart, horder]
      omega
    · rw [mem_singleton.mp hi, hn] at hm
      cases hm
      cases hbuf.symm.trans hr
      rw [mem_singleton.mp hi, hstart]
      exact holds_overwrite

def finished (fs : FileSystemBuilder) (g : Nat) : FileSystemBuilder :=
  decorate (placedAll fs g) (attrNode fs g) (List.range fs.nodes.length)

theorem finished_get (hn : fs.nodes[i]? = some n) :
    (finished fs g).nodes[i]? = some (attrNode fs g i (placedNode fs g i n)) := by
  have hi := lt_of_get hn
  have h1 : (placedAll fs g).nodes[i]? = some (placedNode fs g i n) := by
    rw [placedAll, decorate_get hn, if_pos (mem_dataOrder.mpr hi)]
  rw [finished, decorate_get h1, if_pos (mem_range.mpr hi)]

theorem renders_finished : Renders fs (stage fs g (finished fs g) table next out pos) :=
  renders_attrs

/-- The data region as a whole: every node and every attribute block is where it belongs,
or the first fault in the order of the writer ended the run. -/
theorem writeDataRegion_ends (hs : Sound fs) (hsized : Sized fs g) (out : Sink) (pos : Nat) :
    Ends writeDataRegion
      (stage fs g fs (blankTable fs) (headerOf fs.blockSize g) out pos)
      (fun _ t => dataFaults fs = [] ∧ attrFaults fs g = [] ∧ ∃ o p,
        t = stage fs g (finished fs g) (blankTable fs) (tableStart fs g) o p ∧
          o.fate = out.fate ∧ DataHeld fs g (dataOrder fs) o.bytes ∧
          AttrsHeld fs g (range fs.nodes.length) o.bytes)
      (fun φ => IoFault out φ ∨ (dataFaults fs ++ attrFaults fs g).head? = some φ) := by
  have hstart : DataDone fs g out [] (stage fs g fs (blankTable fs) (headerOf fs.blockSize g)
      out pos) :=
    ⟨rfl, out, pos, by rw [decorate_nil]; rfl, rfl, by intro i hi; cases hi⟩
  have horder := nodesToProcess_eq hs
    (@renders_stage fs g out (blankTable fs) (headerOf fs.blockSize g) pos)
  rw [writeDataRegion, ends_get_bind, horder]
  refine (ends_forM (DataDone fs g out)
    (fun pre a post u h hI => writeNodeData_step hs hsized h hI) hstart).andThen ?_ ?_
  · rintro φ (h | h)
    · exact .inl h
    · exact .inr (by rw [head?_append, h]; rfl)
  · rintro _ u ⟨hdata, o, p, rfl, hfate, hheld⟩
    have hstart' : AttrsDone fs g out [] (stage fs g (placedAll fs g) (blankTable fs)
        (dataEnd fs g) o p) :=
      ⟨rfl, o, p, by rw [decorate_nil, total_nil]; rfl, hfate, hheld, by intro i hi; cases hi⟩
    refine (ends_forM (AttrsDone fs g out)
      (fun pre a post u h hI => writeNodeXattrs_step hsized h hdata hI) hstart').mono ?_ ?_
    · rintro _ t ⟨hattr, o', p', rfl, hrest⟩
      exact ⟨hdata, hattr, o', p', rfl, hrest⟩
    · rintro φ (h | h)
      · exact .inl h
      · exact .inr (by rw [show dataFaults fs = [] from hdata]; exact h)

/-- The steps of `run` before the data region. -/
def prepare : FinalizerM Unit := do
  allocateInodes
  layoutHeader

/-- The writer before and after the data region. -/
theorem written_region (h : Sound fs) (hs : prepare { fs, out } = .ok () s)
    (ht : writeDataRegion s = .ok () t) : ∃ g, Sized fs g ∧
      (∃ o p, s = stage fs g fs (blankTable fs) (headerOf fs.blockSize g) o p) ∧
      ∃ o p, t = stage fs g (finished fs g) (blankTable fs) (tableStart fs g) o p ∧
        DataHeld fs g (dataOrder fs) o.bytes := by
  have hprep : Ends prepare { fs, out } (fun _ s => ∃ g, Sized fs g ∧ ∃ o p,
      s = stage fs g fs (blankTable fs) (headerOf fs.blockSize g) o p) fun _ => True := by
    refine (allocateInodes_ends h out).andThen (fun _ _ => trivial) ?_
    rintro _ _ ⟨g, hsized, rfl⟩
    refine (layoutHeader_ends hsized out).mono ?_ fun _ _ => trivial
    rintro _ _ ⟨o, p, rfl, _⟩
    exact ⟨g, hsized, o, p, rfl⟩
  obtain ⟨g, hsized, o, p, rfl⟩ := hprep.of_ok hs
  obtain ⟨-, -, o', p', rfl, -, hheld, -⟩ := (writeDataRegion_ends h hsized o p).of_ok ht
  exact ⟨g, hsized, ⟨o, p, rfl⟩, o', p', rfl, hheld⟩

end Ext4DataRegion
