import Firkin.CoreTypes
import Firkin.FaultMonad
import Firkin.GuardedRun

/-! # Overlay directories of a pod's containers

An addition is begun and committed on the pod, and prepared and started outside of it. A container
that is waited for leaves the pod's registry at once, but keeps its overlay directory until it has
exited and was cleaned up. -/
namespace PodOverlays

open Ext4Types CoreTypes GuardedRun FaultMonad Function Finset

section
variable {υ δ : Type} {clash : δ → δ → Prop} {uses : υ → Option δ}

def Apart (clash : δ → δ → Prop) (uses : υ → Option δ) : Prop :=
  ∀ u v d d', uses u = some d → uses v = some d' → u ≠ v → ¬clash d d'

theorem Apart.shrinks (h : Apart clash uses) (hless : ∀ u d, uses' u = some d → uses u = some d) :
    Apart clash uses' := by
  intro u v d d' hu hv hne
  exact h u v d d' (hless u d hu) (hless v d' hv) hne

/-- What is used stays apart when one user hands over to another. -/
theorem Apart.handOver (h : Apart clash uses) {old new : υ}
    (hnew : ∀ d, uses' new = some d → uses old = some d) (hold : uses' old = none)
    (hothers : ∀ u, u ≠ new → ∀ d, uses' u = some d → uses u = some d) : Apart clash uses' := by
  have hgone : ∀ u d, uses' u = some d → u ≠ old := by
    rintro u d hu rfl
    cases hold.symm.trans hu
  intro u v d d' hu hv hne
  by_cases hun : u = new
  · subst hun
    exact h old v d d' (hnew d hu) (hothers v hne.symm d' hv) (hgone v d' hv).symm
  · have hu' := hothers u hun d hu
    by_cases hvn : v = new
    · subst hvn
      exact h u old d d' hu' (hnew d' hv) (hgone u d hu)
    · exact h u v d d' hu' (hothers v hvn d' hv) hne

theorem apart_enter_iff {u : υ} {d : δ} (hsymm : ∀ d d', clash d d' → clash d' d)
    (hself : uses' u = some d) (hfree : uses u = none) (hothers : ∀ v, v ≠ u → uses' v = uses v) :
    Apart clash uses' ↔ Apart clash uses ∧ ∀ v d', uses v = some d' → ¬clash d d' := by
  have hold : ∀ v d', uses v = some d' → v ≠ u ∧ uses' v = some d' := by
    intro v d' hv
    have hvu : v ≠ u := by
      rintro rfl
      cases hfree.symm.trans hv
    exact ⟨hvu, (hothers v hvu).trans hv⟩
  constructor
  · intro h
    constructor
    · intro v w d' d'' hv hw hne
      exact h v w d' d'' (hold v d' hv).2 (hold w d'' hw).2 hne
    · intro v d' hv
      exact h u v d d' hself (hold v d' hv).2 (hold v d' hv).1.symm
  · rintro ⟨h, hnew⟩ v w d' d'' hv hw hne
    by_cases hvu : v = u
    · subst hvu
      cases hself.symm.trans hv
      exact hnew w d'' ((hothers w hne.symm).symm.trans hw)
    · have hv' := (hothers v hvu).symm.trans hv
      by_cases hwu : w = u
      · subst hwu
        cases hself.symm.trans hw
        exact fun hclash => hnew v d' hv' (hsymm d' d hclash)
      · exact h v w d' d'' hv' ((hothers w hwu).symm.trans hw) hne
end

structure PodContainerLayout where
  base : GuestPath
  upper : GuestPath
  work : GuestPath
  merged : GuestPath

/-- `podPath` without the validation: the parts are joined by slashes. -/
def joined (mount podId : Str) (parts : List Str) : Str :=
  parts.foldl (fun path part => path ++ slash :: part) (mount ++ str "/pods/" ++ podId)

def podPath (mount podId : Str) (parts : List Str) : Except Error GuestPath :=
  GuestPath.new (joined mount podId parts)

def PodContainerLayout.new (mount podId : Str) (id : ContainerId) :
    Except Error PodContainerLayout := do
  let base ← podPath mount podId [str "containers", id.text]
  let upper ← podPath mount podId [str "containers", id.text, str "upper"]
  let work ← podPath mount podId [str "containers", id.text, str "work"]
  let merged ← podPath mount podId [str "containers", id.text, str "merged"]
  return ⟨base, upper, work, merged⟩

def Overlap (l l' : PodContainerLayout) : Prop :=
  resolve l.base.text <+: resolve l'.base.text ∨ resolve l'.base.text <+: resolve l.base.text

instance (l l' : PodContainerLayout) : Decidable (Overlap l l') :=
  inferInstanceAs (Decidable (_ ∨ _))

section
variable {mount podId : Str} {id : ContainerId} {l : PodContainerLayout}

section
variable (h : PodContainerLayout.new mount podId id = .ok l)
include h

theorem new_base : l.base.text = joined mount podId [str "containers", id.text] := by
  obtain ⟨base, hbase, h⟩ := except_bind_eq_ok.mp h
  obtain ⟨upper, -, h⟩ := except_bind_eq_ok.mp h
  obtain ⟨work, -, h⟩ := except_bind_eq_ok.mp h
  obtain ⟨merged, -, h⟩ := except_bind_eq_ok.mp h
  cases h
  exact GuestPath.new_text hbase

/-- The overlay directory of an id is one level below the others' common directory, except that a
dot is that directory. -/
theorem resolve_base : resolve l.base.text = resolve (joined mount podId [str "containers"]) ++
      if id.text = dot then [] else [id.text] := by
  rw [new_base h, ← resolve_component id.slash_not_mem id.text_ne_nil, ← resolve_append]
  rfl

theorem overlap_iff (h' : PodContainerLayout.new mount podId id' = .ok l') :
    Overlap l l' ↔ id = id' ∨ id.text = dot ∨ id'.text = dot := by
  unfold Overlap
  rw [resolve_base h, resolve_base h', List.prefix_append_right_inj]
  by_cases hdot : id.text = dot
  · simp [hdot]
  · by_cases hdot' : id'.text = dot
    · simp [hdot']
    · have htext : id = id' ↔ id.text = id'.text := ⟨fun h => h ▸ rfl, ContainerId.ext⟩
      simp [hdot, hdot', htext, eq_comm]
end

theorem overlap_symm (l l' : PodContainerLayout) (h : Overlap l l') : Overlap l' l := h.symm
end

inductive PodRootfsSource where
  | guestPath (path : GuestPath)
  | ext4Image (path : Str)
  | ociBundle

structure PodContainerSpec where
  id : ContainerId
  rootfs : PodRootfsSource

structure Pod where
  id : Str
  mount : Str
  containerLayouts : ContainerId → Option PodContainerLayout := fun _ => none
  containers : Finset ContainerId := ∅
  pendingContainers : Finset ContainerId := ∅

inductive Stage where
  | pending
  | prepared
  | started
  | detached
  deriving DecidableEq

/-- What an addition or a detached container holds on to outside the pod. -/
structure Handle where
  stage : Stage
  id : ContainerId
  overlayLower : Option GuestPath := none
  layout : Option PodContainerLayout

def alreadyExists (id : ContainerId) : Error :=
  .runtimeOperation (str "add pod container") (str "container " ++ id.text ++ str " already exists")

def notTracked (operation : Str) (id : ContainerId) (pod : Pod) : Error :=
  .runtimeOperation operation
    (str "container " ++ id.text ++ str " is not tracked by pod " ++ pod.id)

namespace Pod

variable (self : Pod)

/-- The lower directory and the layout of an overlay; `template` answers the materialization of
the bundle's template. -/
def overlay (spec : PodContainerSpec) (template : Except Error GuestPath) :
    Except Error (Option GuestPath × Option PodContainerLayout) :=
  match spec.rootfs with
  | .guestPath _ => .ok (none, none)
  | .ext4Image path =>
    .error (.runtimeOperation (str "materialize ext4 pod rootfs") (path ++ str (" requires a " ++
      "guest mount-and-copy helper; use an OCI bundle or GuestPath rootfs")))
  | .ociBundle => do
    let rootfs ← template
    let layout ← PodContainerLayout.new self.mount self.id spec.id
    return (some rootfs, some layout)

/-- `mounts` answers the checks of the volumes. -/
def beginContainerAdd (spec : PodContainerSpec) (mounts : Except Error Unit)
    (template : Except Error GuestPath) : Except Error (Pod × Handle) :=
  if spec.id ∈ self.containers ∨ spec.id ∈ self.pendingContainers then
    .error (alreadyExists spec.id)
  else do
    mounts
    let (overlayLower, layout) ← self.overlay spec template
    return ({ self with pendingContainers := insert spec.id self.pendingContainers },
      ⟨.pending, spec.id, overlayLower, layout⟩)

def commitContainerAdd (started : Handle) : Except Error Pod :=
  if started.id ∈ self.pendingContainers then
    .ok { self with
      pendingContainers := self.pendingContainers.erase started.id
      containerLayouts :=
        if started.layout.isSome then
          Function.update self.containerLayouts started.id started.layout
        else self.containerLayouts
      containers := insert started.id self.containers }
  else
    .error (.runtimeOperation (str "commit pod container add")
      (str "container " ++ started.id.text ++ str " is not pending on pod " ++ self.id))

def abortContainerAdd (id : ContainerId) : Pod :=
  { self with pendingContainers := self.pendingContainers.erase id }

def forget (id : ContainerId) : Pod :=
  { self with
    containers := self.containers.erase id
    containerLayouts := Function.update self.containerLayouts id none }

def detachContainerForWait (id : ContainerId) : Except Error (Pod × Handle) :=
  if id ∈ self.containers then
    .ok (self.forget id, ⟨.detached, id, none, self.containerLayouts id⟩)
  else .error (notTracked (str "detach pod container for wait") id self)

/-- `stop` answers stopping the container, `cleanup` the removal of its directory. -/
def removeContainer (id : ContainerId) (stop cleanup : Except Error Unit) : Except Error Pod :=
  if id ∈ self.containers then do
    stop
    if (self.containerLayouts id).isSome then cleanup
    return self.forget id
  else .error (notTracked (str "remove pod container") id self)

def shutdown : Pod := { self with containers := ∅, containerLayouts := fun _ => none }

end Pod

def Handle.prepare (self : Handle) (mkdirs mountOverlay : Except Error Unit) :
    Except Error Handle :=
  match self.layout with
  | none => .ok { self with stage := .prepared }
  | some _ => do
    mkdirs
    match self.overlayLower with
    | none => .error (.runtimeOperation (str "prepare pod container overlay")
        (str "container " ++ self.id.text ++ str " has overlay layout without lower rootfs"))
    | some _ =>
      mountOverlay
      return { self with stage := .prepared }

structure World where
  pod : Pod
  handles : Nat → Option Handle := fun _ => none

def World.put (w : World) (n : Nat) (h : Option Handle) : World :=
  { w with handles := Function.update w.handles n h }

/-- Handles are numbered. `drop` is a handle or its future being dropped. -/
inductive Action where
  | begin (n : Nat) (spec : PodContainerSpec) (mounts : Except Error Unit)
      (template : Except Error GuestPath)
  | prepare (n : Nat) (mkdirs mountOverlay : Except Error Unit)
  | start (n : Nat) (spawn : Except Error Unit)
  | commit (n : Nat)
  | abort (id : ContainerId)
  | drop (n : Nat)
  | detach (n : Nat) (id : ContainerId)
  | waitWithOutput (n : Nat) (output : Except Error Unit)
  | remove (id : ContainerId) (stop cleanup : Except Error Unit)
  | shutdown

def step (w : World) : Action → World
  | .begin n spec mounts template =>
    match w.handles n, w.pod.beginContainerAdd spec mounts template with
    | none, .ok (pod, h) => { w with pod }.put n (some h)
    | _, _ => w
  | .prepare n mkdirs mountOverlay =>
    match w.handles n with
    | some h =>
      if h.stage = .pending then w.put n (h.prepare mkdirs mountOverlay).toOption else w
    | none => w
  | .start n spawn =>
    match w.handles n with
    | some h =>
      if h.stage = .prepared then
        w.put n (if spawn.isOk then some { h with stage := .started } else none)
      else w
    | none => w
  | .commit n =>
    match w.handles n with
    | some h =>
      if h.stage = .started then
        match w.pod.commitContainerAdd h with
        | .ok pod => { w with pod }.put n none
        | .error _ => w.put n none
      else w
    | none => w
  | .abort id => { w with pod := w.pod.abortContainerAdd id }
  | .drop n => w.put n none
  | .detach n id =>
    match w.handles n, w.pod.detachContainerForWait id with
    | none, .ok (pod, h) => { w with pod }.put n (some h)
    | _, _ => w
  | .waitWithOutput n _ =>
    match w.handles n with
    | some h => if h.stage = .detached then w.put n none else w
    | none => w
  | .remove id stop cleanup =>
    match w.pod.removeContainer id stop cleanup with
    | .ok pod => { w with pod }
    | .error _ => w
  | .shutdown => { w with pod := w.pod.shutdown }

inductive User where
  | tracked (id : ContainerId)
  | handle (n : Nat)
  deriving DecidableEq

def uses (w : World) : User → Option PodContainerLayout
  | .tracked id => if id ∈ w.pod.containers then w.pod.containerLayouts id else none
  | .handle n => (w.handles n).bind Handle.layout

/-- The directories an action unmounts and removes, and whose they are. -/
inductive Cleans (w : World) : Action → User → PodContainerLayout → Prop where
  | prepare {n mkdirs mountOverlay h lower l} (hn : w.handles n = some h)
      (hstage : h.stage = .pending) (hlower : h.overlayLower = some lower)
      (hlayout : h.layout = some l) (hmkdirs : mkdirs.isOk = true)
      (hmount : mountOverlay.isOk = false) :
      Cleans w (.prepare n mkdirs mountOverlay) (.handle n) l
  | start {n spawn h l} (hn : w.handles n = some h) (hstage : h.stage = .prepared)
      (hlayout : h.layout = some l) (hspawn : spawn.isOk = false) :
      Cleans w (.start n spawn) (.handle n) l
  | waitWithOutput {n output h l} (hn : w.handles n = some h) (hstage : h.stage = .detached)
      (hlayout : h.layout = some l) (houtput : output.isOk = true) :
      Cleans w (.waitWithOutput n output) (.handle n) l
  | remove {id stop cleanup l} (hid : id ∈ w.pod.containers) (hstop : stop.isOk = true)
      (hlayout : w.pod.containerLayouts id = some l) :
      Cleans w (.remove id stop cleanup) (.tracked id) l
  | shutdown {id l} (hlayout : w.pod.containerLayouts id = some l) :
      Cleans w .shutdown (.tracked id) l

def Owned (w : World) : Prop := Apart Overlap (uses w)

def Harmless (w : World) (a : Action) : Prop :=
  ∀ u l, Cleans w a u l → ∀ v l', uses w v = some l' → u ≠ v → ¬Overlap l l'

/-- An addition with an overlay is not begun while a handle with an overlay has the same id, and
the dot is no id of a container with an overlay besides another. -/
def Careful (w : World) : Action → Prop
  | .begin n spec mounts template =>
    w.handles n = none → spec.rootfs = .ociBundle →
    spec.id ∉ w.pod.containers → spec.id ∉ w.pod.pendingContainers →
    mounts.isOk = true → template.isOk = true →
    (PodContainerLayout.new w.pod.mount w.pod.id spec.id).isOk = true →
    (∀ m h, w.handles m = some h → h.layout.isSome = true →
      h.id ≠ spec.id ∧ h.id.text ≠ dot ∧ spec.id.text ≠ dot) ∧
    ∀ id ∈ w.pod.containers, (w.pod.containerLayouts id).isSome = true →
      id.text ≠ dot ∧ spec.id.text ≠ dot
  | _ => True

section
variable {self : Pod} {spec : PodContainerSpec} {mounts : Except Error Unit}
variable {template : Except Error GuestPath} {pod : Pod} {h : Handle}

theorem uses_put_self {w : World} (n : Nat) (h : Option Handle) :
    uses (w.put n h) (.handle n) = h.bind Handle.layout := by
  rw [uses, World.put]
  simp

theorem uses_put_of_ne {u : User} (h : Option Handle) (hu : u ≠ .handle n) :
    uses (w.put n h) u = uses w u := by
  cases u with
  | tracked id => rfl
  | handle m =>
    have hm : m ≠ n := fun he => hu (congrArg User.handle he)
    rw [uses, uses, World.put]
    simp [hm]

theorem isOk_iff {α : Type} {r : Except Error α} : r.isOk = true ↔ ∃ x, r = .ok x := by
  cases r with
  | ok x => exact iff_of_true rfl ⟨x, rfl⟩
  | error e =>
    constructor
    · rintro ⟨⟩
    · rintro ⟨x, hx⟩
      cases hx

theorem overlay_ok (h : self.overlay spec template = .ok (lower, some l)) :
    spec.rootfs = .ociBundle ∧ template.isOk = true ∧
      PodContainerLayout.new self.mount self.id spec.id = .ok l ∧ lower.isSome := by
  unfold Pod.overlay at h
  split at h
  · cases h
  · cases h
  · next hrootfs =>
    obtain ⟨rootfs, htemplate, h⟩ := except_bind_eq_ok.mp h
    obtain ⟨layout, hnew, h⟩ := except_bind_eq_ok.mp h
    cases h
    exact ⟨hrootfs, isOk_iff.mpr ⟨_, htemplate⟩, hnew, rfl⟩

structure Begun (pod₀ : Pod) (spec : PodContainerSpec) (mounts : Except Error Unit)
    (template : Except Error GuestPath) (pod : Pod) (h : Handle) : Prop where
  untracked : spec.id ∉ pod₀.containers
  fresh : spec.id ∉ pod₀.pendingContainers
  mounted : mounts.isOk = true
  reserved : pod = { pod₀ with pendingContainers := insert spec.id pod₀.pendingContainers }
  named : h.id = spec.id
  pending : h.stage = .pending
  laidOut : ∀ l, h.layout = some l → spec.rootfs = .ociBundle ∧ template.isOk = true ∧
    PodContainerLayout.new pod₀.mount pod₀.id spec.id = .ok l ∧ h.overlayLower.isSome

theorem beginContainerAdd_ok (h₁ : self.beginContainerAdd spec mounts template = .ok (pod, h)) :
    Begun self spec mounts template pod h := by
  unfold Pod.beginContainerAdd at h₁
  split at h₁
  · cases h₁
  · next hknown =>
    obtain ⟨hcontainers, hpending⟩ := not_or.mp hknown
    obtain ⟨_, hmounts, h₁⟩ := except_bind_eq_ok.mp h₁
    obtain ⟨⟨lower, layout⟩, hoverlay, h₁⟩ := except_bind_eq_ok.mp h₁
    cases h₁
    refine ⟨hcontainers, hpending, isOk_iff.mpr ⟨_, hmounts⟩, rfl, rfl, rfl, fun l hl => ?_⟩
    change layout = some l at hl
    rw [hl] at hoverlay
    exact overlay_ok hoverlay

theorem beginContainerAdd_oci (hrootfs : spec.rootfs = .ociBundle)
    (hcontainers : spec.id ∉ self.containers) (hpending : spec.id ∉ self.pendingContainers)
    (hmounts : mounts.isOk = true) (htemplate : template.isOk = true)
    (hlayout : PodContainerLayout.new self.mount self.id spec.id = .ok l) :
    ∃ lower, self.beginContainerAdd spec mounts template =
      .ok ({ self with pendingContainers := insert spec.id self.pendingContainers },
        ⟨.pending, spec.id, some lower, some l⟩) := by
  obtain ⟨_, rfl⟩ := isOk_iff.mp hmounts
  obtain ⟨lower, rfl⟩ := isOk_iff.mp htemplate
  refine ⟨lower, ?_⟩
  have hoverlay : self.overlay spec (.ok lower) = .ok (some lower, some l) := by
    rw [Pod.overlay, hrootfs, hlayout]
    rfl
  rw [Pod.beginContainerAdd, if_neg (not_or.mpr ⟨hcontainers, hpending⟩), hoverlay]
  rfl
end

/-- Layouts are those of their ids, and nothing is both pending and tracked. -/
structure Books (w : World) : Prop where
  tracked : ∀ id l, w.pod.containerLayouts id = some l →
    id ∈ w.pod.containers ∧ PodContainerLayout.new w.pod.mount w.pod.id id = .ok l
  handles : ∀ n h l, w.handles n = some h → h.layout = some l →
    PodContainerLayout.new w.pod.mount w.pod.id h.id = .ok l
  disjoint : ∀ id ∈ w.pod.pendingContainers, id ∉ w.pod.containers

section
variable {w : World} {n : Nat}

theorem Books.put (hw : Books w) (hnew : ∀ h l, h' = some h → h.layout = some l →
      PodContainerLayout.new w.pod.mount w.pod.id h.id = .ok l) : Books (w.put n h') where
  tracked := hw.tracked
  handles m h l hm hl := by
    change update w.handles n h' m = some h at hm
    by_cases hmn : m = n
    · rw [hmn, update_self] at hm
      exact hnew h l hm hl
    · rw [update_of_ne hmn] at hm
      exact hw.handles m h l hm hl
  disjoint := hw.disjoint

theorem Books.drop (hw : Books w) : Books (w.put n none) :=
  hw.put fun _ _ hnone => by cases hnone

theorem Books.forget (hw : Books w) (id : ContainerId) :
    Books { w with pod := w.pod.forget id } where
  tracked id' l hl := by
    change update w.pod.containerLayouts id none id' = some l at hl
    by_cases hid : id' = id
    · rw [hid, update_self] at hl
      cases hl
    · rw [update_of_ne hid] at hl
      obtain ⟨hm, hnew⟩ := hw.tracked id' l hl
      exact ⟨mem_erase.mpr ⟨hid, hm⟩, hnew⟩
  handles := hw.handles
  disjoint id' hid' hm := hw.disjoint id' hid' (mem_of_mem_erase hm)

theorem prepare_some {h h' : Handle} {mkdirs mountOverlay}
    (hprepare : (h.prepare mkdirs mountOverlay).toOption = some h') :
    h' = { h with stage := .prepared } := by
  cases hr : h.prepare mkdirs mountOverlay with
  | error e =>
    rw [hr] at hprepare
    cases hprepare
  | ok _ =>
    rw [hr] at hprepare
    cases hprepare
    unfold Handle.prepare at hr
    split at hr
    · cases hr
      rfl
    · obtain ⟨_, -, hr⟩ := except_bind_eq_ok.mp hr
      split at hr
      · cases hr
      · obtain ⟨_, -, hr⟩ := except_bind_eq_ok.mp hr
        cases hr
        rfl

theorem Books.commit (hw : Books w) {pod : Pod} (hn : w.handles n = some h)
    (hcommit : w.pod.commitContainerAdd h = .ok pod) : Books { w with pod } := by
  unfold Pod.commitContainerAdd at hcommit
  split at hcommit
  · cases hcommit
    refine ⟨fun id l hl => ?_, hw.handles, fun id hid hm => ?_⟩
    · change (if h.layout.isSome then update w.pod.containerLayouts h.id h.layout
        else w.pod.containerLayouts) id = some l at hl
      by_cases hid : id = h.id ∧ h.layout.isSome = true
      · rw [if_pos hid.2, hid.1, update_self] at hl
        rw [hid.1]
        exact ⟨mem_insert_self _ _, hw.handles n h l hn hl⟩
      · have hold : w.pod.containerLayouts id = some l := by
          split at hl
          · next hsome => rwa [update_of_ne fun he => hid ⟨he, hsome⟩] at hl
          · exact hl
        obtain ⟨hm, hnew⟩ := hw.tracked id l hold
        exact ⟨mem_insert_of_mem hm, hnew⟩
    · obtain ⟨hne, hpending⟩ := mem_erase.mp hid
      rcases mem_insert.mp hm with he | hm
      · exact hne he
      · exact hw.disjoint id hpending hm
  · cases hcommit

theorem Books.begin (hw : Books w) {pod : Pod}
    (hbegun : Begun w.pod spec mounts template pod h) : Books ({ w with pod }.put n (some h)) := by
  have hpod : Books { w with pod } := by
    rw [hbegun.reserved]
    refine ⟨hw.tracked, hw.handles, fun id hid => ?_⟩
    rcases mem_insert.mp hid with he | hpending
    · rw [he]
      exact hbegun.untracked
    · exact hw.disjoint id hpending
  refine hpod.put fun h' l hh hl => ?_
  cases hh
  have hnew := (hbegun.laidOut l hl).2.2.1
  rw [hbegun.named, hbegun.reserved]
  exact hnew

theorem Books.detach (hw : Books w) {id} {pod : Pod}
    (hdetach : w.pod.detachContainerForWait id = .ok (pod, h)) :
    Books ({ w with pod }.put n (some h)) := by
  unfold Pod.detachContainerForWait at hdetach
  split at hdetach
  · cases hdetach
    refine (hw.forget id).put fun h l hh hl => ?_
    cases hh
    exact (hw.tracked id l hl).2
  · cases hdetach

theorem removeContainer_ok {self pod : Pod} {id stop cleanup}
    (h : self.removeContainer id stop cleanup = .ok pod) : pod = self.forget id := by
  unfold Pod.removeContainer at h
  split at h
  · obtain ⟨_, -, h⟩ := except_bind_eq_ok.mp h
    split at h
    · obtain ⟨_, -, h⟩ := except_bind_eq_ok.mp h
      cases h
      rfl
    · cases h
      rfl
  · cases h

theorem Books.step (hw : Books w) (a : Action) : Books (step w a) := by
  cases a with
  | begin n spec mounts template =>
    rw [PodOverlays.step]
    split
    · next hbegin => exact hw.begin (beginContainerAdd_ok hbegin)
    · exact hw
  | prepare n mkdirs mountOverlay =>
    rw [PodOverlays.step]
    split
    · next h hn =>
      split
      · refine hw.put fun h' l hh hl => ?_
        cases prepare_some hh
        exact hw.handles n h l hn hl
      · exact hw
    · exact hw
  | start n spawn =>
    rw [PodOverlays.step]
    split
    · next h hn =>
      split
      · refine hw.put fun h' l hh hl => ?_
        split at hh
        · cases hh
          exact hw.handles n h l hn hl
        · cases hh
      · exact hw
    · exact hw
  | commit n =>
    rw [PodOverlays.step]
    split
    · next h hn =>
      split
      · split
        · next pod hcommit => exact (hw.commit hn hcommit).drop
        · exact hw.drop
      · exact hw
    · exact hw
  | abort id =>
    exact ⟨hw.tracked, hw.handles, fun id' hid' => hw.disjoint id' (mem_of_mem_erase hid')⟩
  | drop n => exact hw.drop
  | detach n id =>
    rw [PodOverlays.step]
    split
    · next hdetach => exact hw.detach hdetach
    · exact hw
  | waitWithOutput n output =>
    rw [PodOverlays.step]
    split
    · split
      · exact hw.drop
      · exact hw
    · exact hw
  | remove id stop cleanup =>
    rw [PodOverlays.step]
    split
    · next pod hremove =>
      rw [removeContainer_ok hremove]
      exact hw.forget id
    · exact hw
  | shutdown =>
    refine ⟨fun id l hl => ?_, hw.handles, fun id _ hm => notMem_empty id hm⟩
    cases hl
end

section
variable {w : World} {n : Nat}

theorem Owned.put (hw : Owned w) {h' : Option Handle}
    (hless : ∀ l, h'.bind Handle.layout = some l → uses w (.handle n) = some l) :
    Owned (w.put n h') := by
  refine hw.shrinks fun u l hu => ?_
  by_cases hun : u = .handle n
  · rw [hun, uses_put_self] at hu
    rw [hun]
    exact hless l hu
  · rwa [uses_put_of_ne h' hun] at hu

theorem Owned.drop (hw : Owned w) : Owned (w.put n none) :=
  hw.put fun _ hnone => by cases hnone

theorem uses_forget {id : ContainerId} {u : User} {l : PodContainerLayout}
    (hu : uses { w with pod := w.pod.forget id } u = some l) : uses w u = some l := by
  cases u with
  | handle m => exact hu
  | tracked id' =>
    change (if id' ∈ w.pod.containers.erase id then
      update w.pod.containerLayouts id none id' else none) = some l at hu
    split at hu
    · next hm =>
      obtain ⟨hne, hm⟩ := mem_erase.mp hm
      rw [update_of_ne hne] at hu
      rw [uses, if_pos hm, hu]
    · cases hu

theorem Owned.commit (hw : Owned w) (hbooks : Books w) {pod : Pod}
    (hn : w.handles n = some h) (hcommit : w.pod.commitContainerAdd h = .ok pod) :
    Owned ({ w with pod }.put n none) := by
  unfold Pod.commitContainerAdd at hcommit
  split at hcommit
  · next hpending =>
    cases hcommit
    have hnone : w.pod.containerLayouts h.id = none := by
      cases hl : w.pod.containerLayouts h.id with
      | none => rfl
      | some l => exact absurd (hbooks.tracked h.id l hl).1 (hbooks.disjoint h.id hpending)
    refine @Apart.handOver _ _ _ _ _ hw (.handle n) (.tracked h.id) ?_ (uses_put_self n none) ?_
    · intro l hl
      change (if h.id ∈ insert h.id w.pod.containers then
        (if h.layout.isSome then update w.pod.containerLayouts h.id h.layout
          else w.pod.containerLayouts) h.id else none) = some l at hl
      rw [if_pos (mem_insert_self _ _)] at hl
      rw [uses, hn]
      split at hl
      · rwa [update_self] at hl
      · cases hnone.symm.trans hl
    · intro u hu l hl
      cases u with
      | handle m =>
        have hm : User.handle m ≠ .handle n := by
          intro he
          rw [he, uses_put_self] at hl
          cases hl
        exact (uses_put_of_ne none hm).symm.trans hl
      | tracked id =>
        have hid : id ≠ h.id := fun he => hu (congrArg User.tracked he)
        change (if id ∈ insert h.id w.pod.containers then
          (if h.layout.isSome then update w.pod.containerLayouts h.id h.layout
            else w.pod.containerLayouts) id else none) = some l at hl
        split at hl
        · next hm =>
          rw [uses, if_pos ((mem_insert.mp hm).resolve_left hid)]
          split at hl
          · rwa [update_of_ne hid] at hl
          · exact hl
        · cases hl
  · cases hcommit

theorem Owned.detach (hw : Owned w) {id}
    (hdetach : w.pod.detachContainerForWait id = .ok (pod, h)) :
    Owned ({ w with pod }.put n (some h)) := by
  unfold Pod.detachContainerForWait at hdetach
  split at hdetach
  · next hm =>
    cases hdetach
    refine @Apart.handOver _ _ _ _ _ hw (.tracked id) (.handle n) ?_ ?_ ?_
    · intro l hl
      rw [uses_put_self] at hl
      rw [uses, if_pos hm]
      exact hl
    · change (if id ∈ w.pod.containers.erase id then _ else none) = none
      rw [if_neg (notMem_erase id _)]
    · intro u hu l hl
      rw [uses_put_of_ne _ hu] at hl
      exact uses_forget hl
  · cases hdetach

theorem uses_of_cleans (hbooks : Books w) (h : Cleans w a u l) : uses w u = some l := by
  cases h with
  | prepare hn hstage hlower hlayout => rw [uses, hn]; exact hlayout
  | start hn hstage hlayout => rw [uses, hn]; exact hlayout
  | waitWithOutput hn hstage hlayout => rw [uses, hn]; exact hlayout
  | remove hid hstop hlayout => rw [uses, if_pos hid, hlayout]
  | shutdown hlayout => rw [uses, if_pos (hbooks.tracked _ l hlayout).1, hlayout]

theorem Owned.harmless (hw : Owned w) (hbooks : Books w) (a : Action) : Harmless w a := by
  intro u l hclean v l' hv hne
  exact hw u v l l' (uses_of_cleans hbooks hclean) hv hne

section
/-- An addition that gets an overlay is careful if it keeps away from all that is in use. -/
theorem careful_begin_iff (hbooks : Books w) (hn : w.handles n = none)
    (hbegun : Begun w.pod spec mounts template pod h) (hl : h.layout = some l) :
    Careful w (.begin n spec mounts template) ↔
      ∀ v l', uses w v = some l' → ¬Overlap l l' := by
  obtain ⟨hrootfs, htemplate, hnew, -⟩ := hbegun.laidOut l hl
  constructor
  · intro hcareful v l' hv hoverlap
    obtain ⟨hhandles, htracked⟩ := hcareful hn hrootfs hbegun.untracked hbegun.fresh hbegun.mounted
      htemplate (isOk_iff.mpr ⟨l, hnew⟩)
    cases v with
    | handle m =>
      obtain ⟨h', hm, hl'⟩ := Option.bind_eq_some_iff.mp hv
      obtain ⟨hid, hdot, hdot'⟩ := hhandles m h' hm (by rw [hl']; rfl)
      rcases (overlap_iff hnew (hbooks.handles m h' l' hm hl')).mp hoverlap with he | he | he
      · exact hid he.symm
      · exact hdot' he
      · exact hdot he
    | tracked id =>
      rw [uses] at hv
      split at hv
      · next hm =>
        obtain ⟨hdot, hdot'⟩ := htracked id hm (by rw [hv]; rfl)
        rcases (overlap_iff hnew (hbooks.tracked id l' hv).2).mp hoverlap with he | he | he
        · exact hbegun.untracked (he ▸ hm)
        · exact hdot' he
        · exact hdot he
      · cases hv
  · intro hapart _ _ _ _ _ _ _
    constructor
    · intro m h' hm hsome
      obtain ⟨l', hl'⟩ := Option.isSome_iff_exists.mp hsome
      have hv : uses w (.handle m) = some l' := by
        rw [uses, hm]
        exact hl'
      have hnot := mt (overlap_iff hnew (hbooks.handles m h' l' hm hl')).mpr (hapart _ l' hv)
      obtain ⟨hid, hdots⟩ := not_or.mp hnot
      obtain ⟨hdot, hdot'⟩ := not_or.mp hdots
      exact ⟨fun he => hid he.symm, hdot', hdot⟩
    · intro id hm hsome
      obtain ⟨l', hl'⟩ := Option.isSome_iff_exists.mp hsome
      have hv : uses w (.tracked id) = some l' := by rw [uses, if_pos hm, hl']
      have hnot := mt (overlap_iff hnew (hbooks.tracked id l' hl').2).mpr (hapart _ l' hv)
      obtain ⟨hdot, hdot'⟩ := not_or.mp (not_or.mp hnot).2
      exact ⟨hdot', hdot⟩

theorem careful_of_not_begun
    (hnot : ∀ l lower, w.handles n = none → w.pod.beginContainerAdd spec mounts template ≠
      .ok ({ w.pod with pendingContainers := insert spec.id w.pod.pendingContainers },
        ⟨.pending, spec.id, some lower, some l⟩)) :
    Careful w (.begin n spec mounts template) := by
  intro hn hrootfs huntracked hfresh hmounts htemplate hlayout
  obtain ⟨l, hl⟩ := isOk_iff.mp hlayout
  obtain ⟨lower, hok⟩ := beginContainerAdd_oci hrootfs huntracked hfresh hmounts htemplate hl
  exact absurd hok (hnot l lower hn)

theorem owned_begin_iff (hw : Owned w) (hbooks : Books w) :
    Owned (step w (.begin n spec mounts template)) ↔
      Careful w (.begin n spec mounts template) := by
  rw [step]
  split
  · next pod h hn hbegin =>
    have hbegun := beginContainerAdd_ok hbegin
    have hsame : uses { w with pod } = uses w := by
      rw [hbegun.reserved]
      funext u
      cases u with
      | tracked id => rfl
      | handle m => rfl
    have hothers : ∀ v, v ≠ User.handle n → uses ({ w with pod }.put n (some h)) v = uses w v := by
      intro v hv
      rw [uses_put_of_ne _ hv, hsame]
    cases hl : h.layout with
    | none =>
      refine iff_of_true ?_ (careful_of_not_begun fun l lower _ hok => ?_)
      · refine hw.shrinks fun u l hu => ?_
        by_cases hun : u = .handle n
        · rw [hun, uses_put_self] at hu
          cases hl.symm.trans hu
        · rwa [hothers u hun] at hu
      · cases hbegin.symm.trans hok
        cases hl
    | some l =>
      have hself : uses ({ w with pod }.put n (some h)) (.handle n) = some l := by
        rw [uses_put_self]
        exact hl
      have hfree : uses w (.handle n) = none := by
        rw [uses, hn]
        rfl
      rw [careful_begin_iff hbooks hn hbegun hl, Owned,
        apart_enter_iff overlap_symm hself hfree hothers]
      exact and_iff_right hw
  · next hnot =>
    refine iff_of_true hw (careful_of_not_begun fun l lower hn hok => ?_)
    exact hnot _ _ hn hok
end

theorem Owned.step (hw : Owned w) (hbooks : Books w) (hcareful : Careful w a) :
    Owned (step w a) := by
  cases a with
  | begin n spec mounts template => exact (owned_begin_iff hw hbooks).mpr hcareful
  | prepare n mkdirs mountOverlay =>
    rw [PodOverlays.step]
    split
    · next h hn =>
      split
      · refine hw.put fun l hl => ?_
        obtain ⟨h', hprepare, hl⟩ := Option.bind_eq_some_iff.mp hl
        cases prepare_some hprepare
        rw [uses, hn]
        exact hl
      · exact hw
    · exact hw
  | start n spawn =>
    rw [PodOverlays.step]
    split
    · next h hn =>
      split
      · refine hw.put fun l hl => ?_
        split at hl
        · rw [uses, hn]
          exact hl
        · cases hl
      · exact hw
    · exact hw
  | commit n =>
    rw [PodOverlays.step]
    split
    · next h hn =>
      split
      · split
        · next pod hcommit => exact hw.commit hbooks hn hcommit
        · exact hw.drop
      · exact hw
    · exact hw
  | abort id =>
    refine hw.shrinks fun u l hu => ?_
    cases u with
    | tracked id' => exact hu
    | handle m => exact hu
  | drop n => exact hw.drop
  | detach n id =>
    rw [PodOverlays.step]
    split
    · next hdetach => exact hw.detach hdetach
    · exact hw
  | waitWithOutput n output =>
    rw [PodOverlays.step]
    split
    · split
      · exact hw.drop
      · exact hw
    · exact hw
  | remove id stop cleanup =>
    rw [PodOverlays.step]
    split
    · next pod hremove =>
      rw [removeContainer_ok hremove]
      exact hw.shrinks fun u l hu => uses_forget hu
    · exact hw
  | shutdown =>
    refine hw.shrinks fun u l hu => ?_
    cases u with
    | tracked id =>
      rw [uses] at hu
      split at hu <;> cases hu
    | handle m => exact hu

/-- Only beginning an addition can make two users of one directory. -/
theorem owned_step_iff (hw : Owned w) (hbooks : Books w) (a : Action) :
    Owned (step w a) ↔ Careful w a := by
  refine ⟨fun h => ?_, hw.step hbooks⟩
  cases a with
  | begin n spec mounts template => exact (owned_begin_iff hw hbooks).mp h
  | _ => trivial
end

def fresh (mount podId : Str) : World := { pod := { id := podId, mount } }

theorem fresh_books (mount podId : Str) : Books (fresh mount podId) where
  tracked _ _ hl := by cases hl
  handles _ _ _ hn := by cases hn
  disjoint id hid := absurd hid (notMem_empty id)

theorem fresh_owned (mount podId : Str) : Owned (fresh mount podId) := by
  intro u v l l' hu
  cases u with
  | tracked id =>
    rw [uses] at hu
    split at hu <;> cases hu
  | handle n => cases hu

/-- In every run, careful or not, the recorded layouts are those of their ids and no container is
pending and tracked at once. -/
theorem books_along_run (mount podId : Str) (actions : List Action) :
    Books (run step (fresh mount podId) actions) := by
  induction actions using List.reverseRecOn with
  | nil => exact fresh_books mount podId
  | append_singleton actions a ih =>
    rw [run, List.foldl_append]
    exact ih.step a

/-- Along a run of a new pod every directory has one user, and no clean-up meets a directory of
somebody else, exactly if every addition is careful. -/
theorem owned_along_run_iff (mount podId : Str) (actions : List Action) :
    (∀ before a rest, actions = before ++ a :: rest →
      Owned (step (run step (fresh mount podId) before) a) ∧
        Harmless (run step (fresh mount podId) before) a) ↔
      Meets step Careful (fresh mount podId) actions := by
  have hsplit := @meets_iff_forall _ _ step (fun w a => Owned (step w a) ∧ Harmless w a)
    (fresh mount podId) actions
  rw [← hsplit]
  refine meets_congr (I := fun w => Owned w ∧ Books w)
    ⟨fresh_owned mount podId, fresh_books mount podId⟩ (fun w a h => ?_) fun w a h hcareful => ?_
  · rw [owned_step_iff h.1 h.2]
    exact and_iff_left (h.1.harmless h.2 a)
  · exact ⟨(owned_step_iff h.1 h.2 a).mpr hcareful, h.2.step a⟩

def web : PodContainerSpec := ⟨⟨str "web", by decide +kernel⟩, .ociBundle⟩
def lower : GuestPath := ⟨str "/run/store/lower", by decide +kernel⟩

def addedAgain : World :=
  run step (fresh (str "/run/store") (str "pod-1"))
    [.begin 0 web (.ok ()) (.ok lower), .prepare 0 (.ok ()) (.ok ()), .start 0 (.ok ()), .commit 0,
      .detach 1 web.id, .begin 0 web (.ok ()) (.ok lower)]

/-- The new container has the directory of the detached one, and loses it to its clean-up. -/
theorem overlay_of_two : ¬Owned addedAgain ∧ ¬Harmless addedAgain (.waitWithOutput 1 (.ok ())) := by
  have hboth : ((uses addedAgain (.handle 0)).bind fun l => (uses addedAgain (.handle 1)).map
      fun l' => decide (Overlap l' l)) = some true := by decide +kernel
  obtain ⟨l, hl, hmap⟩ := Option.bind_eq_some_iff.mp hboth
  obtain ⟨l', hl', hoverlap⟩ := Option.map_eq_some_iff.mp hmap
  have hne : User.handle 1 ≠ .handle 0 := by decide
  refine ⟨fun h => h _ _ l' l hl' hl hne (of_decide_eq_true hoverlap), fun h => ?_⟩
  have hbind : (addedAgain.handles 1).bind Handle.layout = some l' := hl'
  obtain ⟨h', hn, hlayout⟩ := Option.bind_eq_some_iff.mp hbind
  have hstage : (addedAgain.handles 1).map Handle.stage = some .detached := by decide +kernel
  rw [hn] at hstage
  refine h (.handle 1) l' (.waitWithOutput hn (Option.some.inj hstage) hlayout rfl) _ l hl hne ?_
  exact of_decide_eq_true hoverlap

end PodOverlays
