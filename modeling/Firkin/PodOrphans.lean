import Firkin.PodOverlays

/-! # Overlay directories left behind

An operation of a pod makes, mounts and removes the overlay directories of its containers in the
guest. A directory no container of the pod has any more stays for good. -/
namespace PodOrphans

open Ext4Types CoreTypes PodOverlays GuardedRun FaultMonad

/-- Overlay directories that exist in the guest. -/
abbrev Places := List (List Str)
def place (l : PodContainerLayout) : List Str := resolve l.base.text
abbrev Guest := EStateM Error Places

/-- Making one of its directories makes the overlay directory. -/
def mkdirGuestPath (l : PodContainerLayout) (answer : Except Error Unit) : Guest Unit := do
  MonadExcept.ofExcept answer
  modify (place l :: ·)

/-- The overlay is unmounted and its directory removed with all there is below. -/
def cleanupContainerLayout (l : PodContainerLayout) : Guest Unit :=
  modify (·.filter fun d => !(place l).isPrefixOf d)

/-- What the calls of an addition are answered. -/
structure Answers where
  mounts : Except Error Unit := .ok ()
  template : Except Error GuestPath
  upper : Except Error Unit := .ok ()
  work : Except Error Unit := .ok ()
  merged : Except Error Unit := .ok ()
  mount : Except Error Unit := .ok ()
  spawn : Except Error Unit := .ok ()

def prepareContainerOverlayLayout (l : PodContainerLayout) (o : Answers) : Guest Unit := do
  mkdirGuestPath l o.upper
  mkdirGuestPath l o.work
  mkdirGuestPath l o.merged

/-- A failed call is followed by a clean-up. -/
def orCleanup (l : PodContainerLayout) (answer : Except Error Unit) : Guest Unit :=
  match answer with
  | .ok () => pure ()
  | .error e => do
    cleanupContainerLayout l
    throw e

/-- `prepare` and `start` of a pending addition. -/
def startPending (pending : Handle) (o : Answers) : Guest Unit :=
  match pending.layout, pending.overlayLower with
  | none, _ => MonadExcept.ofExcept o.spawn
  | some l, none => do
    prepareContainerOverlayLayout l o
    throw (.runtimeOperation (str "prepare pod container overlay")
      (str "container " ++ pending.id.text ++ str " has overlay layout without lower rootfs"))
  | some l, some _ => do
    prepareContainerOverlayLayout l o
    orCleanup l o.mount
    orCleanup l o.spawn

structure World where
  pod : Pod
  places : Places := []

inductive Operation where
  | addContainer (spec : PodContainerSpec) (answers : Answers)
  | waitContainer (id : ContainerId) (output : Except Error Unit)
  | removeContainer (id : ContainerId) (stop : Except Error Unit)
  | shutdown

/-- The layouts of tracked containers are cleaned up one by one. -/
def cleaned (pod : Pod) (places : Places) : Places :=
  places.filter fun d => !decide (∃ id ∈ pod.containers,
    (pod.containerLayouts id).any fun l => (place l).isPrefixOf d)

def addContainer (w : World) (spec : PodContainerSpec) (o : Answers) : World :=
  match w.pod.beginContainerAdd spec o.mounts o.template with
  | .error _ => w
  | .ok (pod, pending) =>
    match startPending pending o w.places with
    | .error _ places => ⟨pod.abortContainerAdd spec.id, places⟩
    | .ok _ places =>
      match pod.commitContainerAdd { pending with stage := .started } with
      | .ok pod => ⟨pod, places⟩
      | .error _ => ⟨pod, places⟩

def cleanedUp (layout : Option PodContainerLayout) (places : Places) : Places :=
  match layout with
  | some l => left (cleanupContainerLayout l places)
  | none => places

/-- Operations of the pod, from the call to the return; the calls that clean up succeed. -/
def step (w : World) : Operation → World
  | .addContainer spec o => addContainer w spec o
  | .waitContainer id output =>
    match w.pod.detachContainerForWait id with
    | .error _ => w
    | .ok (pod, detached) =>
      ⟨pod, if output.isOk then cleanedUp detached.layout w.places else w.places⟩
  | .removeContainer id stop =>
    match w.pod.removeContainer id stop (.ok ()) with
    | .error _ => w
    | .ok pod => ⟨pod, cleanedUp (w.pod.containerLayouts id) w.places⟩
  | .shutdown => ⟨w.pod.shutdown, cleaned w.pod w.places⟩

/-- Every overlay directory is that of a tracked container; nothing is pending between
operations. -/
def NoOrphans (w : World) : Prop :=
  ∀ d ∈ w.places, ∃ id ∈ w.pod.containers, ∃ l, w.pod.containerLayouts id = some l ∧ place l = d

/-- Of the three directories of an overlay all or none can be made, and no wait for a container
with an overlay fails. -/
def Careful (w : World) : Operation → Prop
  | .addContainer _ o => o.upper.isOk → o.work.isOk ∧ o.merged.isOk
  | .waitContainer id output => output.isOk ∨ w.pod.containerLayouts id = none
  | _ => True

/-! ### One operation -/

section
variable {w : World} {places : Places}

theorem mem_cleanedUp (h : d ∈ cleanedUp layout places) :
    d ∈ places ∧ ∀ l, layout = some l → place l ≠ d := by
  cases layout with
  | none => exact ⟨h, by rintro _ ⟨⟩⟩
  | some l =>
    obtain ⟨hd, hkept⟩ := List.mem_filter.mp h
    refine ⟨hd, ?_⟩
    rintro _ ⟨⟩ rfl
    have hself : (place l).isPrefixOf (place l) = true :=
      List.isPrefixOf_iff_prefix.mpr List.prefix_rfl
    rw [hself] at hkept
    cases hkept

/-- An addition that gets past its start leaves its overlay directory, and one that fails
leaves nothing. -/
theorem startPending_settles (hcareful : o.upper.isOk → o.work.isOk ∧ o.merged.isOk)
    (hlower : ∀ l, pending.layout = some l → pending.overlayLower.isSome) :
    Settles (startPending pending o) places
      (fun _ after => ∀ d ∈ after, d ∈ places ∨ ∃ l, pending.layout = some l ∧ place l = d)
      (fun after => ∀ d ∈ after, d ∈ places) := by
  have hcleaned : ∀ l d, d ∈ cleanedUp (some l) (place l :: place l :: place l :: places) →
      d ∈ places := by
    intro l d hd
    obtain ⟨hd, hne⟩ := mem_cleanedUp hd
    simpa [(hne l rfl).symm] using hd
  unfold Settles startPending
  cases hlayout : pending.layout with
  | none =>
    cases o.spawn with
    | ok u => exact fun d hd => .inl hd
    | error e => exact fun d hd => hd
  | some l =>
    obtain ⟨lower, hl⟩ := Option.isSome_iff_exists.mp (hlower l hlayout)
    rw [hl]
    cases hupper : o.upper with
    | error e =>
      dsimp only [prepareContainerOverlayLayout]
      rw [hupper]
      exact fun d hd => hd
    | ok u =>
      obtain ⟨hwork, hmerged⟩ := hcareful (by rw [hupper]; rfl)
      obtain ⟨_, hwork⟩ := isOk_iff.mp hwork
      obtain ⟨_, hmerged⟩ := isOk_iff.mp hmerged
      dsimp only [prepareContainerOverlayLayout]
      rw [hupper, hwork, hmerged]
      cases o.mount with
      | error e => exact hcleaned l
      | ok u =>
        cases o.spawn with
        | error e => exact hcleaned l
        | ok u =>
          intro d hd
          have hmem : d = place l ∨ d ∈ places := by simpa using hd
          exact hmem.symm.imp_right fun h => ⟨l, rfl, h.symm⟩

theorem prepare_begun (hb : Begun pod₀ spec mounts template pod pending) :
    pending.prepare (.ok ()) (.ok ()) = .ok { pending with stage := .prepared } := by
  have hlower := fun l hl => (hb.laidOut l hl).2.2.2
  obtain ⟨stage, id, lower, layout⟩ := pending
  cases layout with
  | none => rfl
  | some l =>
    obtain ⟨_, rfl⟩ := Option.isSome_iff_exists.mp (hlower l rfl)
    rfl

theorem noOrphans_add (hw : NoOrphans w) (spec : PodContainerSpec)
    (hcareful : o.upper.isOk → o.work.isOk ∧ o.merged.isOk) :
    NoOrphans (addContainer w spec o) := by
  unfold addContainer
  cases hbegin : w.pod.beginContainerAdd spec o.mounts o.template with
  | error e => exact hw
  | ok begun =>
    obtain ⟨pod, pending⟩ := begun
    have hb := beginContainerAdd_ok hbegin
    have hsettles := @startPending_settles w.places pending o hcareful fun l hl =>
      (hb.laidOut l hl).2.2.2
    unfold Settles at hsettles
    dsimp only
    cases hstart : startPending pending o w.places with
    | error e after =>
      rw [hstart] at hsettles
      intro d hd
      rw [hb.reserved]
      exact hw d (hsettles d hd)
    | ok u after =>
      rw [hstart] at hsettles
      have hpending : pending.id ∈ pod.pendingContainers := by
        rw [hb.named, hb.reserved]
        exact Finset.mem_insert_self _ _
      dsimp only [Pod.commitContainerAdd]
      rw [if_pos hpending]
      intro d hd
      rcases hsettles d hd with hold | ⟨l, hl, hplace⟩
      · obtain ⟨id, hid, l, hl, hplace⟩ := hw d hold
        have hother : id ≠ pending.id := by
          rintro rfl
          exact hb.untracked (hb.named ▸ hid)
        refine ⟨id, Finset.mem_insert_of_mem (by rw [hb.reserved]; exact hid), l, ?_, hplace⟩
        dsimp only
        rw [hb.reserved]
        split
        · rw [Function.update_of_ne hother, hl]
        · exact hl
      · refine ⟨pending.id, Finset.mem_insert_self _ _, l, ?_, hplace⟩
        dsimp only
        rw [hl, if_pos (Option.isSome_some), Function.update_self]

/-- A container that is forgotten with its directory gone. -/
theorem noOrphans_forget (hw : NoOrphans w) {id}
    (hgone : ∀ d ∈ places, d ∈ w.places ∧ ∀ l, w.pod.containerLayouts id = some l → place l ≠ d) :
    NoOrphans ⟨w.pod.forget id, places⟩ := by
  intro d hd
  obtain ⟨hold, hne⟩ := hgone d hd
  obtain ⟨id', hid', l, hl, hplace⟩ := hw d hold
  have hother : id' ≠ id := by
    rintro rfl
    exact hne l hl hplace
  exact ⟨id', Finset.mem_erase.mpr ⟨hother, hid'⟩, l,
    (Function.update_of_ne hother _ _).trans hl, hplace⟩

theorem noOrphans_step (hw : NoOrphans w) (hcareful : Careful w op) : NoOrphans (step w op) := by
  cases op with
  | addContainer spec o => exact noOrphans_add hw spec hcareful
  | waitContainer id output =>
    rw [step, Pod.detachContainerForWait]
    by_cases hid : id ∈ w.pod.containers
    · rw [if_pos hid]
      refine noOrphans_forget hw fun d hd => ?_
      rcases hcareful with hok | hnone
      · rw [if_pos hok] at hd
        exact mem_cleanedUp hd
      · rw [hnone] at hd ⊢
        exact ⟨by simpa [cleanedUp] using hd, by rintro _ ⟨⟩⟩
    · rw [if_neg hid]
      exact hw
  | removeContainer id stop =>
    rw [step]
    cases hremove : w.pod.removeContainer id stop (.ok ()) with
    | error e => exact hw
    | ok pod =>
      obtain rfl := removeContainer_ok hremove
      exact noOrphans_forget hw fun d hd => mem_cleanedUp hd
  | shutdown =>
    intro d hd
    obtain ⟨hd, hkept⟩ := List.mem_filter.mp hd
    obtain ⟨id, hid, l, hl, rfl⟩ := hw d hd
    have hany : (w.pod.containerLayouts id).any (fun l' => (place l').isPrefixOf (place l)) := by
      rw [hl]
      exact List.isPrefixOf_iff_prefix.mpr List.prefix_rfl
    rw [decide_eq_true ⟨id, hid, hany⟩] at hkept
    cases hkept

/-- What an operation does to the pod, actions on a handle do. -/
theorem step_actions (w : World) (op : Operation) : ∃ actions,
    run PodOverlays.step ⟨w.pod, fun _ => none⟩ actions = ⟨(step w op).pod, fun _ => none⟩ := by
  cases op with
  | addContainer spec o =>
    rw [step, addContainer]
    cases hbegin : w.pod.beginContainerAdd spec o.mounts o.template with
    | error e => exact ⟨[], rfl⟩
    | ok begun =>
      have hb := beginContainerAdd_ok hbegin
      dsimp only
      cases startPending begun.2 o w.places with
      | error e after =>
        exact ⟨[.begin 0 spec o.mounts o.template, .drop 0, .abort spec.id], by
          simp [PodOverlays.step, hbegin, World.put]⟩
      | ok u after =>
        refine ⟨[.begin 0 spec o.mounts o.template, .prepare 0 (.ok ()) (.ok ()),
          .start 0 (.ok ()), .commit 0], ?_⟩
        simp only [List.foldl, PodOverlays.step, hbegin, World.put, Function.update_self,
          hb.pending, prepare_begun hb]
        cases hc : begun.1.commitContainerAdd { begun.2 with stage := .started } <;>
          simp [Except.toOption, Except.isOk, Except.toBool, hc]
  | waitContainer id output =>
    refine ⟨[.detach 0 id, .waitWithOutput 0 output], ?_⟩
    by_cases hid : id ∈ w.pod.containers <;>
      simp [step, Pod.detachContainerForWait, hid, PodOverlays.step, World.put]
  | removeContainer id stop =>
    refine ⟨[.remove id stop (.ok ())], ?_⟩
    cases h : w.pod.removeContainer id stop (.ok ()) <;> simp [step, PodOverlays.step, h]
  | shutdown => exact ⟨[.shutdown], rfl⟩
end

def newPod (mount podId : Str) : World := { pod := { id := podId, mount } }

/-- The pod of a run of operations is that of a run of actions. -/
theorem run_actions (mount podId : Str) (ops : List Operation) : ∃ actions,
    run PodOverlays.step (fresh mount podId) actions =
      ⟨(run step (newPod mount podId) ops).pod, fun _ => none⟩ := by
  induction ops using List.reverseRecOn with
  | nil => exact ⟨[], rfl⟩
  | append_singleton ops op ih =>
    obtain ⟨before, hbefore⟩ := ih
    obtain ⟨actions, hactions⟩ := step_actions (run step (newPod mount podId) ops) op
    exact ⟨before ++ actions, by simp_all [run]⟩

/-- After each of the operations on a new pod no overlay directory is left over, if all are
careful. -/
theorem no_orphans_along_run (mount podId : Str) (ops : List Operation)
    (h : Meets step Careful (newPod mount podId) ops) :
    ∀ before rest, ops = before ++ rest → NoOrphans (run step (newPod mount podId) before) := by
  rintro before rest rfl
  refine (meets_append.mp h).1.keeps (fun w op hw hop => noOrphans_step hw hop) ?_
  exact fun d hd => absurd hd List.not_mem_nil

theorem no_orphans_add_wait : NoOrphans (run step (newPod (str "/run/store") (str "pod-1"))
    [.addContainer web { template := .ok lower }, .waitContainer web.id (.ok ())]) :=
  no_orphans_along_run (str "/run/store") (str "pod-1")
    [.addContainer web { template := .ok lower }, .waitContainer web.id (.ok ())]
    ⟨fun _ => ⟨rfl, rfl⟩, .inl rfl, trivial⟩ _ [] (List.append_nil _).symm

/-- The second directory of an overlay cannot be made, and the first stays. -/
def halfMade : World := step (newPod (str "/run/store") (str "pod-1"))
  (.addContainer web { template := .ok lower, work := .error (.runtimeOperation [] []) })

theorem half_made_overlay_stays : ¬NoOrphans halfMade := by
  intro h
  have hplaces : halfMade.places = [[str "run", str "store", str "pods", str "pod-1",
    str "containers", str "web"]] := by decide +kernel
  obtain ⟨id, hid, -⟩ := h _ (by rw [hplaces]; exact List.mem_singleton_self _)
  have hnone : halfMade.pod.containers = ∅ := by decide +kernel
  rw [hnone] at hid
  exact Finset.notMem_empty id hid

end PodOrphans
