import Firkin.Admission
import Firkin.DecimalText
import Firkin.E2bTypes
import Firkin.GuardedRun

/-! # Process selectors of the host adapter

Processes stay in the table when they have finished, and so do their tags. A tag selects the first
process that has it, which is the one with the smallest pid. A signal needs the lock of the child,
and the task that waits for the child keeps that lock until the process has exited. -/
namespace HostProcesses

open Ext4Types E2bTypes DecimalText GuardedRun SortedTable

/-- `broken` when the task that writes the input has ended. -/
inductive Stdin where
  | closed
  | opened
  | broken
  deriving DecidableEq

/-- A child whose lock is free, is held by the task that waits for it, and is free again. -/
inductive Child where
  | none
  | spawned
  | awaited
  | reaped
  deriving DecidableEq

structure HostEnvdProcessRecord where
  tag : Option Str
  exited : Bool
  stdin : Stdin
  child : Child
  deriving DecidableEq

structure HostEnvdState where
  nextPid : UInt32 := 0
  processes : Table UInt32 HostEnvdProcessRecord := ∅
  deriving DecidableEq

inductive EnvdProcessSelector where
  | pid (pid : UInt32)
  | tag (tag : Str)

inductive EnvdProcessSignal where
  | unspecified
  | sigterm
  | sigkill
  | unknown (number : Int)
  deriving DecidableEq

/-- `kill` is how the operating system answers. -/
inductive Request where
  | input (bytes : List UInt8)
  | closeStdin
  | signal (signal : EnvdProcessSignal) (kill : Except Str Unit := .ok ())

/-- What is sent to a process. -/
inductive Deed where
  | input (pid : UInt32) (bytes : List UInt8)
  | kill (pid : UInt32)
  deriving DecidableEq

inductive Outcome where
  | returned (answer : Except BackendError Unit) (deed : Option Deed)
  /-- Until the process has exited. -/
  | waits
  deriving DecidableEq

def killed (pid : UInt32) (kill : Except Str Unit) : Except BackendError Unit :=
  kill.mapError fun error =>
    .runtime (str "kill process " ++ render pid.toNat ++ str ": " ++ error)

def signalChild (pid : UInt32) (signal : EnvdProcessSignal) (kill : Except Str Unit) :
    Child → Outcome
  | .none => .returned (.ok ()) none
  | .awaited => .waits
  | .spawned =>
    if signal = .unspecified then .returned (.ok ()) none
    else .returned (killed pid kill) (some (.kill pid))
  | .reaped =>
    if signal = .unspecified then .returned (.ok ()) none
    else .returned (killed pid (.error (str "invalid argument: can't kill an exited process"))) none

namespace HostEnvdState

variable (s : HostEnvdState)

def insertProcess (record : HostEnvdProcessRecord) : HostEnvdState :=
  let pid := max (Admission.saturatingAdd32 s.nextPid 1) 1
  ⟨pid, s.processes.insert pid record⟩

def update (pid : UInt32) (f : HostEnvdProcessRecord → HostEnvdProcessRecord) : HostEnvdState :=
  match s.processes[pid]? with
  | none => s
  | some record => { s with processes := s.processes.insert pid (f record) }

def finishProcess (pid : UInt32) : HostEnvdState :=
  s.update pid fun record => { record with exited := true, stdin := .closed, child := .none }

def requireProcess : EnvdProcessSelector → Except BackendError UInt32
  | .pid pid => if pid ∈ s.processes then .ok pid else .error (.notFound (render pid.toNat))
  | .tag tag =>
    match s.processes.toList.find? (·.2.tag = some tag) with
    | some (pid, _) => .ok pid
    | none => .error (.notFound tag)

def childOf (pid : UInt32) : Child := (s.processes[pid]?).elim .none (·.child)

/-- A full input channel only delays what is sent. -/
def perform (selector : EnvdProcessSelector) (request : Request) : Outcome × HostEnvdState :=
  match s.requireProcess selector with
  | .error e => (.returned (.error e) none, s)
  | .ok pid =>
    match request with
    | .input bytes =>
      (if s.processes[pid]?.any (·.stdin = .opened) then
        .returned (.ok ()) (some (.input pid bytes))
      else .returned (.error (.runtime
        (str "process " ++ render pid.toNat ++ str " stdin is closed"))) none, s)
    | .closeStdin =>
      (.returned (.ok ()) none, s.update pid fun record => { record with stdin := .closed })
    | .signal signal kill => (signalChild pid signal kill (s.childOf pid), s)

end HostEnvdState

/-- A process that is waited for starts and finishes at once. The task that waits for a child
takes the lock, gives it back when the process has exited, and then records the end. -/
inductive Event where
  | startProcess (tag : Option Str)
  | startProcessStream (tag : Option Str)
  | inputBreaks (pid : UInt32)
  | await (pid : UInt32)
  | exit (pid : UInt32)
  | finish (pid : UInt32)
  | request (selector : EnvdProcessSelector) (request : Request)

def step (s : HostEnvdState) : Event → HostEnvdState
  | .startProcess tag => s.insertProcess ⟨tag, true, .closed, .none⟩
  | .startProcessStream tag => s.insertProcess ⟨tag, false, .opened, .spawned⟩
  | .inputBreaks pid =>
    if s.processes[pid]?.any (·.stdin = .opened) then s.update pid ({ · with stdin := .broken })
    else s
  | .await pid =>
    if s.childOf pid = .spawned then s.update pid ({ · with child := .awaited }) else s
  | .exit pid => if s.childOf pid = .awaited then s.update pid ({ · with child := .reaped }) else s
  | .finish pid => if s.childOf pid = .reaped then s.finishProcess pid else s
  | .request selector request => (s.perform selector request).2

def HasTag (s : HostEnvdState) (tag : Str) (pid : UInt32) (exited : Bool) : Prop :=
  ∃ record, s.processes[pid]? = some record ∧ record.tag = some tag ∧ record.exited = exited

structure OnlyLive (s : HostEnvdState) (tag : Str) (pid : UInt32) : Prop where
  live : HasTag s tag pid false
  only : ∀ pid', HasTag s tag pid' false → pid' = pid

variable {s : HostEnvdState} {tag : Str} {pid : UInt32}

theorem hasTag_iff : HasTag s tag pid exited ↔ ∃ record, (pid, record) ∈ s.processes.toList ∧
    record.tag = some tag ∧ record.exited = exited := by
  simp only [HasTag, Std.ExtTreeMap.mem_toList_iff_getElem?_eq_some]

theorem requireProcess_tag (h : HasTag s tag pid exited) :
    ∃ first, s.requireProcess (.tag tag) = .ok first ∧ (∃ b, HasTag s tag first b) ∧
      ∀ pid' b, HasTag s tag pid' b → first ≤ pid' := by
  simp only [HostEnvdState.requireProcess]
  cases hfind : s.processes.toList.find? (·.2.tag = some tag) with
  | none =>
    obtain ⟨record, hm, htag, -⟩ := hasTag_iff.mp h
    exact absurd htag (by simpa using List.find?_eq_none.mp hfind _ hm)
  | some entry =>
    obtain ⟨htag, before, after, hsplit, hbefore⟩ := List.find?_eq_some_iff_append.mp hfind
    have hsorted := s.processes.ordered_keys_toList
    rw [hsplit, List.pairwise_append, List.pairwise_cons] at hsorted
    have hget : s.processes[entry.1]? = some entry.2 :=
      Std.ExtTreeMap.mem_toList_iff_getElem?_eq_some.mp (by rw [hsplit]; simp)
    refine ⟨entry.1, rfl, ⟨_, entry.2, hget, of_decide_eq_true htag, rfl⟩, fun pid' b h' => ?_⟩
    obtain ⟨record, hm, htag', -⟩ := hasTag_iff.mp h'
    rw [hsplit, List.mem_append, List.mem_cons] at hm
    rcases hm with hm | rfl | hm
    · exact absurd htag' (by simpa using hbefore _ hm)
    · exact UInt32.le_refl _
    · exact UInt32.le_of_lt (compareOfLessAndEq_eq_lt.mp (hsorted.2.1.1 _ hm))

/-- Only a process that has not finished has a child. -/
def Sound (s : HostEnvdState) : Prop :=
  Each (fun record => record.child = .none ↔ record.exited = true) s.processes

theorem Sound.update (h : Sound s) (hf : ∀ record, s.processes[pid]? = some record →
    ((f record).child = .none ↔ (f record).exited = true)) : Sound (s.update pid f) := by
  unfold HostEnvdState.update
  split
  · exact h
  · next record hget => exact h.insert (hf record hget)

/-- A child that is there is replaced by another one. -/
theorem Sound.setChild (h : Sound s) (hold : s.childOf pid ≠ .none) (hnew : child ≠ .none) :
    Sound (s.update pid ({ · with child })) := by
  refine h.update fun record hget => ?_
  have hchild : record.child ≠ .none := by simpa [HostEnvdState.childOf, hget] using hold
  have hlive := (h pid record hget).not.mp hchild
  simp [hnew, hlive]

theorem sound_step (h : Sound s) (e : Event) : Sound (step s e) := by
  cases e with
  | startProcess tag | startProcessStream tag => exact h.insert (by simp)
  | inputBreaks pid =>
    rw [step]
    split
    · exact h.update fun record hget => h pid record hget
    · exact h
  | await pid | exit pid =>
    rw [step]
    split
    · next hchild => exact h.setChild (by rw [hchild]; nofun) nofun
    · exact h
  | finish pid =>
    rw [step]
    split
    · exact h.update fun _ _ => ⟨fun _ => rfl, fun _ => rfl⟩
    · exact h
  | request selector request =>
    simp only [step, HostEnvdState.perform]
    split
    · exact h
    · next pid _ =>
      cases request with
      | input | signal => exact h
      | closeStdin => exact h.update fun record hget => h pid record hget

theorem sound_run (events : List Event) : Sound (run step {} events) := by
  induction events using List.reverseRecOn with
  | nil => exact each_empty
  | append_singleton events e ih =>
    rw [run, List.foldl_append]
    exact sound_step ih e

theorem requireProcess_pid (h : HasTag s tag pid exited) :
    s.requireProcess (.pid pid) = .ok pid := by
  obtain ⟨record, hget, -⟩ := h
  exact if_pos (Std.ExtTreeMap.mem_iff_isSome_getElem?.mpr (by rw [hget]; rfl))

theorem Sound.childOf_eq_none (hs : Sound s) (h : HasTag s tag pid exited) :
    s.childOf pid = .none ↔ exited = true := by
  obtain ⟨record, hget, -, rfl⟩ := h
  rw [HostEnvdState.childOf, hget]
  exact hs pid record hget

/-- The process a tag selects is its live one exactly if no finished one has a smaller pid. -/
theorem selects_live_iff (hlive : OnlyLive s tag pid) : ∃ first,
    s.requireProcess (.tag tag) = .ok first ∧ (first ≠ pid → HasTag s tag first true) ∧
      (first = pid ↔ ∀ pid' < pid, ¬HasTag s tag pid' true) := by
  obtain ⟨first, hfirst, ⟨b, hb⟩, hleast⟩ := requireProcess_tag hlive.live
  have hfinished : first ≠ pid → HasTag s tag first true := by
    intro hne
    cases b with
    | true => exact hb
    | false => exact absurd (hlive.only first hb) hne
  refine ⟨first, hfirst, hfinished, ?_, fun hnone => ?_⟩
  · rintro rfl pid' hlt htag
    exact UInt32.lt_irrefl _ (UInt32.lt_of_le_of_lt (hleast pid' _ htag) hlt)
  · by_contra hne
    exact hnone first (UInt32.lt_of_le_of_ne (hleast pid _ hlive.live) hne) (hfinished hne)

/-- Requests for a tag do what the same requests for its live process do exactly if no finished
process with a smaller pid has the tag. A signal kills the live process exactly if, besides, no
task waits for it yet. -/
theorem tag_finds_live_iff (events : List Event) (hlive : OnlyLive (run step {} events) tag pid) :
    ((∀ request, (run step {} events).perform (.tag tag) request =
      (run step {} events).perform (.pid pid) request) ↔
      ∀ pid' < pid, ¬HasTag (run step {} events) tag pid' true) ∧
    ∀ signal kill, signal ≠ .unspecified →
      (((run step {} events).perform (.tag tag) (.signal signal kill)).1 =
        .returned (killed pid kill) (some (.kill pid)) ↔
      (∀ pid' < pid, ¬HasTag (run step {} events) tag pid' true) ∧
        (run step {} events).childOf pid = .spawned) := by
  have hsound := sound_run events
  revert hsound hlive
  generalize run step {} events = s
  intro hlive hsound
  obtain ⟨first, hfirst, hfinished, hiff⟩ := selects_live_iff hlive
  have hpid := requireProcess_pid hlive.live
  rw [← hiff]
  refine ⟨⟨fun hsame => ?_, ?_⟩, fun signal kill hsignal => ⟨fun hkill => ?_, ?_⟩⟩
  · by_contra hne
    -- the process that is found has finished, so that a signal does nothing to it
    have hnone := (hsound.childOf_eq_none (hfinished hne)).mpr rfl
    have hchild : s.childOf pid ≠ .none :=
      fun h => Bool.noConfusion ((hsound.childOf_eq_none hlive.live).mp h)
    have hsignal := congrArg Prod.fst (hsame (.signal .sigkill))
    simp only [HostEnvdState.perform, hfirst, hpid, hnone] at hsignal
    cases hc : s.childOf pid with
    | none => exact hchild hc
    | spawned | awaited | reaped =>
      rw [hc] at hsignal
      cases hsignal
  · rintro rfl request
    rw [HostEnvdState.perform, HostEnvdState.perform, hfirst, hpid]
  · simp only [HostEnvdState.perform, hfirst] at hkill
    cases hc : s.childOf first with
    | none | awaited | reaped => simp [hc, signalChild, hsignal] at hkill
    | spawned =>
      rw [hc, signalChild, if_neg hsignal] at hkill
      obtain rfl : first = pid := by simpa using (Outcome.returned.inj hkill).2
      exact ⟨rfl, hc⟩
  · rintro ⟨rfl, hc⟩
    simp only [HostEnvdState.perform, hfirst, hc, signalChild, if_neg hsignal]

/-- A tag is given to a second process, which has finished. -/
def shared : List Event :=
  [.startProcessStream (some [97]), .startProcessStream (some [97]), .await 2, .exit 2, .finish 2]

theorem tag_finds_first_process : OnlyLive (run step {} shared) [97] 1 ∧
    HasTag (run step {} shared) [97] 2 true ∧
    ((run step {} shared).perform (.tag [97]) (.signal .sigkill)).1 =
      .returned (.ok ()) (some (.kill 1)) := by
  have hlist : (run step {} shared).processes.toList =
      [(1, ⟨some [97], false, .opened, .spawned⟩), (2, ⟨some [97], true, .closed, .none⟩)] := by
    decide +kernel
  have hrow {pid b} : HasTag (run step {} shared) [97] pid b ↔
      pid = 1 ∧ b = false ∨ pid = 2 ∧ b = true := by
    rw [hasTag_iff, hlist]
    simp [or_and_right, exists_or, eq_comm]
  have hlive : OnlyLive (run step {} shared) [97] 1 := ⟨hrow.mpr (by simp), by simp [hrow]⟩
  refine ⟨hlive, hrow.mpr (by simp), ?_⟩
  refine ((tag_finds_live_iff shared hlive).2 .sigkill (.ok ()) nofun).mpr
    ⟨fun pid' hlt h => ?_, ?_⟩
  · rcases hrow.mp h with ⟨-, ⟨⟩⟩ | ⟨rfl, -⟩
    exact absurd hlt (by decide)
  · decide +kernel

/-- The tag of a process that has finished is given to another one; and a process that is waited
for is not signalled before it has exited. -/
theorem reused_tag_finds_finished :
    (let s := run step {} [.startProcessStream (some [97]), .await 1, .exit 1, .finish 1,
      .startProcessStream (some [97])]
    s.processes.toList =
        [(1, ⟨some [97], true, .closed, .none⟩), (2, ⟨some [97], false, .opened, .spawned⟩)] ∧
      s.perform (.tag [97]) (.signal .sigkill) = (.returned (.ok ()) none, s) ∧
      s.perform (.pid 2) (.signal .sigkill) = (.returned (.ok ()) (some (.kill 2)), s)) ∧
    let s := run step {} [.startProcessStream (some [97]), .await 1]
    s.perform (.tag [97]) (.signal .sigkill) = (.waits, s) := by
  decide +kernel

end HostProcesses
