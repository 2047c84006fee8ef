import Firkin.DecimalText
import Firkin.Ext4Types
import Firkin.Interleaving

/-! # The process table

Process calls of the runtime adapter and sandbox stops as interleaved calls: a step is one
section under the state lock or one await outside of it. A plain stream call goes on as the
completion task that it has spawned. An interactive process is known by the number it got when
it started; `retained` is the model's own record of the interactive processes that were started
and not stopped with their sandbox. -/
namespace ProcessTable

open Ext4Types DecimalText Interleaving Std

structure ProcessKey where
  sandboxId : Str
  pid : UInt32
  deriving DecidableEq

instance : Ord ProcessKey where
  compare := compareLex (compareOn ProcessKey.sandboxId) (compareOn ProcessKey.pid)

instance : TransOrd ProcessKey :=
  inferInstanceAs (TransCmp (compareLex (compareOn ProcessKey.sandboxId)
    (compareOn ProcessKey.pid)))

instance : LawfulEqOrd ProcessKey where
  compare_self := ReflCmp.compare_self
  eq_of_compare {a b} h := by
    change (compareLex (compareOn ProcessKey.sandboxId) (compareOn ProcessKey.pid)) a b = .eq at h
    simp only [compareLex, compareOn, Ordering.then_eq_eq, Std.compare_eq_iff_eq] at h
    obtain ⟨h1, h2⟩ := h
    cases a
    cases b
    simp_all

structure ProcessOutput where
  pid : UInt32
  stdout : List UInt8 := []
  stderr : List UInt8 := []
  pty : List UInt8 := []
  exitCode : Int32 := 0
  exited : Bool := false
  status : Str := []
  error : Option Str := none
  deriving DecidableEq

structure ProcessRecord where
  pid : UInt32
  tag : Option Str
  output : ProcessOutput
  deriving DecidableEq

inductive BackendError where
  | notFound (text : Str)
  | runtime (text : Str)
  deriving DecidableEq

inductive ProcessSelector where
  | pid (pid : UInt32)
  | tag (tag : Str)
  deriving DecidableEq

/-- `stdin` and `pty` tell whether the request asks for them. -/
structure StartRequest where
  tag : Option Str := none
  stdin : Option Bool := none
  pty : Bool := false
  deriving DecidableEq

def StartRequest.interactive (self : StartRequest) : Bool := self.stdin = some true || self.pty

inductive Interaction where
  | sendInput
  | closeStdin
  | signal
  | connect
  | updatePty
  deriving DecidableEq

/-- `active` gives the session of a sandbox, `locked` the sessions whose lock is taken. -/
structure Shared where
  active : TreeMap Str Nat
  processes : TreeMap ProcessKey ProcessRecord := ∅
  interactiveProcesses : TreeMap ProcessKey Nat := ∅
  locked : List Nat := []
  handles : Nat := 0
  retained : TreeMap ProcessKey Nat := ∅

abbrev Answer := Except BackendError (Option ProcessOutput)

inductive Phase where
  | starting (stream : Bool) (sandbox : Option Str) (request : StartRequest)
  | tracing (stream : Bool) (sandboxId : Str) (session : Nat) (request : StartRequest)
  | locking (stream : Bool) (sandboxId : Str) (session : Nat) (request : StartRequest)
  | running (stream : Bool) (sandboxId : Str) (session : Nat) (request : StartRequest)
  | recording (stream : Bool) (sandboxId : Str) (request : StartRequest) (output : ProcessOutput)
      (handle : Option Nat)
  | completing (sandboxId : Str) (request : StartRequest)
  | storing (sandboxId : Str) (request : StartRequest) (output : ProcessOutput)
  | taking (kind : Interaction) (sandbox : Option Str) (selector : ProcessSelector)
  | holding (kind : Interaction) (key : ProcessKey) (handle : Nat)
  | returning (key : ProcessKey) (handle : Nat) (answer : Answer)
  | requiring (kind : Interaction) (sandbox : Option Str) (selector : ProcessSelector)
  | stopping (sandboxId : Str)
  | done (answer : Answer)
  deriving DecidableEq

inductive Request where
  | startProcess (sandbox : Option Str) (request : StartRequest)
  | startProcessStream (sandbox : Option Str) (request : StartRequest)
  | interact (kind : Interaction) (sandbox : Option Str) (selector : ProcessSelector)
  | stop (sandboxId : Str)

abbrev Outcome := Except Str ProcessOutput

def finiteProcessError (pid : UInt32) (detail : Str) : BackendError :=
  .runtime (str "Firkin RuntimeAdapter process " ++ render pid.toNat ++ str " is finite and " ++
    detail)

def ambiguousProcessError (selector value : Str) : BackendError :=
  .runtime (str "Firkin RuntimeAdapter process " ++ selector ++ str " `" ++ value ++
    str "` matches multiple active sandboxes")

def uniqueProcessMatch {α : Type} (missing ambiguous : BackendError) :
    List α → Except BackendError α
  | [] => .error missing
  | [a] => .ok a
  | _ => .error ambiguous

def inSandbox (sandbox : Option Str) (key : ProcessKey) : Bool :=
  match sandbox with
  | none => true
  | some sandboxId => key.sandboxId = sandboxId

def select (s : Shared) (sandbox : Option Str) : ProcessSelector →
    Except BackendError (ProcessKey × ProcessRecord)
  | .pid pid =>
    uniqueProcessMatch (.notFound (render pid.toNat))
      (ambiguousProcessError (str "pid") (render pid.toNat))
      (s.processes.toList.filter fun p => p.1.pid = pid && inSandbox sandbox p.1)
  | .tag tag =>
    uniqueProcessMatch (.notFound tag) (ambiguousProcessError (str "tag") tag)
      (s.processes.toList.filter fun p => inSandbox sandbox p.1 && p.2.tag = some tag)

/-- Take the interactive process that a selector picks out of the table. -/
def takeInteractiveProcess (s : Shared) (sandbox : Option Str) (selector : ProcessSelector) :
    Except BackendError (ProcessKey × Nat) := do
  let (key, _) ← select s sandbox selector
  match s.interactiveProcesses[key]? with
  | some handle => .ok (key, handle)
  | none =>
    .error (finiteProcessError key.pid
      (str "does not keep interactive stdin, signal, or PTY state"))

def processSessionFor (s : Shared) (sandbox : Option Str) (operation : Str) :
    Except BackendError (Str × Nat) :=
  match sandbox with
  | some sandboxId =>
    match s.active[sandboxId]? with
    | some session => .ok (sandboxId, session)
    | none => .error (.notFound sandboxId)
  | none =>
    match s.active.toList with
    | [entry] => .ok entry
    | entries =>
      .error (.runtime (str "Firkin RuntimeAdapter envd process " ++ operation ++
        str " requires exactly one active sandbox, found " ++ render entries.length))

def startFailed (stream interactive : Bool) (error : Str) : BackendError :=
  .runtime ((match stream, interactive with
    | false, false => str "Firkin command start failed: "
    | false, true => str "Firkin interactive process start failed: "
    | true, false => str "Firkin command stream start failed: "
    | true, true => str "Firkin interactive process stream start failed: ") ++ error)

def startStep (s : Shared) (stream : Bool) (sandbox : Option Str) (request : StartRequest) :
    Phase :=
  match processSessionFor s sandbox (if stream then str "start stream" else str "start") with
  | .error e => .done (.error e)
  | .ok (sandboxId, session) =>
    if request.interactive then .locking stream sandboxId session request
    else .tracing stream sandboxId session request

/-- `take_startup_event_trace` asks again whether the sandbox is there. -/
def traceStep (s : Shared) (stream : Bool) (sandboxId : Str) (session : Nat)
    (request : StartRequest) : Phase :=
  if s.active.contains sandboxId then .locking stream sandboxId session request
  else .done (.error (.notFound sandboxId))

/-- The command has started, or run to its end for a plain call without a stream. -/
def runStep (s : Shared) (stream : Bool) (sandboxId : Str) (session : Nat)
    (request : StartRequest) : Outcome → Shared × Phase
  | .error e =>
    ({ s with locked := s.locked.erase session },
      .done (.error (startFailed stream request.interactive e)))
  | .ok output =>
    if request.interactive then
      ({ s with locked := s.locked.erase session, handles := s.handles + 1 },
        .recording stream sandboxId request output (some s.handles))
    else
      ({ s with locked := s.locked.erase session }, .recording stream sandboxId request output none)

def Shared.record (s : Shared) (key : ProcessKey) (request : StartRequest)
    (output : ProcessOutput) : Shared :=
  { s with processes := s.processes.insert key ⟨key.pid, request.tag, output⟩ }

def Shared.retain (s : Shared) (key : ProcessKey) (handle : Nat) : Shared :=
  { s with
    interactiveProcesses := s.interactiveProcesses.insert key handle
    retained := s.retained.insert key handle }

def Shared.giveBack (s : Shared) (key : ProcessKey) (handle : Nat) : Shared :=
  { s with interactiveProcesses := s.interactiveProcesses.insert key handle }

/-- The record is made; a plain stream has one that says "running" until its task stores the
result. -/
def recordStep (s : Shared) (stream : Bool) (sandboxId : Str) (request : StartRequest)
    (output : ProcessOutput) : Option Nat → Shared × Phase
  | some handle =>
    ((s.record ⟨sandboxId, output.pid⟩ request output).retain ⟨sandboxId, output.pid⟩ handle,
      .done (.ok (if stream then none else some output)))
  | none =>
    if stream then
      (s.record ⟨sandboxId, output.pid⟩ request { pid := output.pid, status := str "running" },
        .completing sandboxId request)
    else (s.record ⟨sandboxId, output.pid⟩ request output, .done (.ok (some output)))

def takeStep (s : Shared) (kind : Interaction) (sandbox : Option Str)
    (selector : ProcessSelector) : Shared × Phase :=
  match takeInteractiveProcess s sandbox selector with
  | .ok (key, handle) =>
    ({ s with interactiveProcesses := s.interactiveProcesses.erase key }, .holding kind key handle)
  | .error (.runtime _) => (s, .requiring kind sandbox selector)
  | .error e => (s, .done (.error e))

/-- The process answers: `connect` with its output, the others without. -/
def answerOf (kind : Interaction) : Outcome → Answer
  | .ok output => .ok (if kind = .connect then some output else none)
  | .error e => .error (.runtime e)

def finiteDetail : Interaction → Str
  | .sendInput | .closeStdin => str "does not keep interactive stdin"
  | .signal => str "has already exited and cannot be signaled"
  | .updatePty => str "does not keep an interactive PTY"
  | .connect => []

/-- `connect` answers from the record, the others say that the process is finite. -/
def requireStep (s : Shared) (kind : Interaction) (sandbox : Option Str)
    (selector : ProcessSelector) : Answer :=
  match select s sandbox selector with
  | .error e => .error e
  | .ok (_, record) =>
    if kind = .connect then .ok (some record.output)
    else .error (finiteProcessError record.pid (finiteDetail kind))

def Shared.purge (s : Shared) (sandboxId : Str) : Shared :=
  { s with
    active := s.active.erase sandboxId
    processes := s.processes.filter fun key _ => key.sandboxId ≠ sandboxId
    interactiveProcesses := s.interactiveProcesses.filter fun key _ => key.sandboxId ≠ sandboxId
    retained := s.retained.filter fun key _ => key.sandboxId ≠ sandboxId }

def stopStep (s : Shared) (sandboxId : Str) : Outcome → Shared × Phase
  | .error e => (s, .done (.error (.runtime (str "Firkin session stop failed: " ++ e))))
  | .ok _ => (s.purge sandboxId, .done (.ok none))

def enter : Request → Phase
  | .startProcess sandbox request => .starting false sandbox request
  | .startProcessStream sandbox request => .starting true sandbox request
  | .interact kind sandbox selector => .taking kind sandbox selector
  | .stop sandboxId => .stopping sandboxId

/-- A session's lock is waited for; a completion that was dropped stores nothing. -/
def advance (s : Shared) (o : Outcome) : Phase → Option (Shared × Phase)
  | .starting stream sandbox request => some (s, startStep s stream sandbox request)
  | .tracing stream sandboxId session request =>
    some (s, traceStep s stream sandboxId session request)
  | .locking stream sandboxId session request =>
    if session ∈ s.locked then none
    else some ({ s with locked := session :: s.locked }, .running stream sandboxId session request)
  | .running stream sandboxId session request => some (runStep s stream sandboxId session request o)
  | .recording stream sandboxId request output handle =>
    some (recordStep s stream sandboxId request output handle)
  | .completing sandboxId request =>
    match o with
    | .ok output => some (s, .storing sandboxId request output)
    | .error _ => some (s, .done (.ok none))
  | .storing sandboxId request output =>
    some (s.record ⟨sandboxId, output.pid⟩ request output, .done (.ok none))
  | .taking kind sandbox selector => some (takeStep s kind sandbox selector)
  | .holding kind key handle => some (s, .returning key handle (answerOf kind o))
  | .returning key handle answer => some (s.giveBack key handle, .done answer)
  | .requiring kind sandbox selector => some (s, .done (requireStep s kind sandbox selector))
  | .stopping sandboxId =>
    match s.active[sandboxId]? with
    | none => some (s, .done (.error (.notFound sandboxId)))
    | some session => if session ∈ s.locked then none else some (stopStep s sandboxId o)
  | .done _ => none

def machine : Machine Shared Phase Request Outcome where
  enter := enter
  advance s _ o phase := advance s o phase
  drop _ _ _ := none

abbrev Table := World Shared Phase
def initial (active : TreeMap Str Nat) : Table := ⟨{ active }, []⟩
abbrev Condition := Table → Event Request Outcome → Bool

abbrev Reached (active : TreeMap Str Nat) (ok : Condition) (w : Table) : Prop :=
  Reachable machine (fun w e => ok w e = true) (initial active) w

theorem getElem?_put {α : Type} (t : TreeMap ProcessKey α) (k key : ProcessKey) (a : α) :
    (t.insert k a)[key]? = if k = key then some a else t[key]? := by
  rw [TreeMap.getElem?_insert]
  simp only [Std.compare_eq_iff_eq]

theorem getElem?_purge {α : Type} (t : TreeMap ProcessKey α) (sandboxId : Str) (key : ProcessKey) :
    (t.filter fun key _ => key.sandboxId ≠ sandboxId)[key]? =
      if key.sandboxId = sandboxId then none else t[key]? := by
  rw [TreeMap.getElem?_filter']
  split <;> next h => cases t[key]? <;> simp [h]

def Phase.pending : Phase → Option Str
  | .locking _ sandboxId _ _ | .running _ sandboxId _ _ | .recording _ sandboxId _ _ _
  | .completing sandboxId _ | .storing sandboxId _ _ => some sandboxId
  | .holding _ key _ | .returning key _ _ => some key.sandboxId
  | _ => none

def Phase.held : Phase → Option (ProcessKey × Nat)
  | .holding _ key handle | .returning key handle _ => some (key, handle)
  | _ => none

inductive Move (s : Shared) (o : Outcome) (p : Phase) : Shared → Phase → Prop where
  | pass {p' : Phase} (locked : List Nat) (handles : Nat)
      (hpending : ∀ id, p'.pending = some id → p.pending = some id ∨ id ∈ s.active)
      (hheld : p'.held = p.held) : Move s o p { s with locked, handles } p'
  | record {p' : Phase} (key : ProcessKey) (request : StartRequest) (output : ProcessOutput)
      (hkey : p.pending = some key.sandboxId) (hpending : ∀ id, p'.pending = some id →
        p.pending = some id) (hheld : p.held = none) (hheld' : p'.held = none) :
      Move s o p (s.record key request output) p'
  | retain (stream : Bool) (sandboxId : Str) (request : StartRequest) (output : ProcessOutput)
      (handle : Nat) (answer : Answer)
      (hp : p = .recording stream sandboxId request output (some handle)) :
      Move s o p ((s.record ⟨sandboxId, output.pid⟩ request output).retain
        ⟨sandboxId, output.pid⟩ handle) (.done answer)
  | take (kind : Interaction) (key : ProcessKey) (handle : Nat) (hp : p.held = none)
      (hkey : s.interactiveProcesses[key]? = some handle) :
      Move s o p { s with interactiveProcesses := s.interactiveProcesses.erase key }
        (.holding kind key handle)
  | giveBack (key : ProcessKey) (handle : Nat) (answer : Answer)
      (hp : p = .returning key handle answer) : Move s o p (s.giveBack key handle) (.done answer)
  | stop (sandboxId : Str) (output : ProcessOutput) (answer : Answer)
      (hp : p = .stopping sandboxId) (ho : o = .ok output) :
      Move s o p (s.purge sandboxId) (.done answer)

variable {s : Shared} {p : Phase} {o : Outcome}

theorem no_pending {P : Str → Prop} (h : p.pending = none) (id : Str) (hid : p.pending = some id) :
    P id := by
  cases h.symm.trans hid

theorem Move.stay (hpending : ∀ id, p'.pending = some id → p.pending = some id ∨ id ∈ s.active)
    (hheld : p'.held = p.held) : Move s o p s p' :=
  .pass s.locked s.handles hpending hheld

/-- A section that leaves the tables as they are and ends a call that holds nothing. -/
theorem Move.finish (answer : Answer) (hheld : p.held = none) : Move s o p s (.done answer) :=
  .stay (no_pending rfl) hheld.symm

theorem mem_active {id : Str} (h : s.active[id]? = some session) : id ∈ s.active :=
  TreeMap.mem_iff_isSome_getElem?.mpr (by rw [h]; rfl)

/-- The session of a process call is that of an active sandbox. -/
theorem processSessionFor_active {operation id : Str}
    (h : processSessionFor s sandbox operation = .ok (id, session)) :
    s.active[id]? = some session := by
  cases sandbox with
  | some sandboxId =>
    rw [processSessionFor] at h
    split at h
    · next ha =>
      cases h
      exact ha
    · cases h
  | none =>
    rw [processSessionFor] at h
    split at h
    · next entry he =>
      cases h
      exact TreeMap.mem_toList_iff_getElem?_eq_some.mp (by rw [he]; exact List.mem_singleton_self _)
    · cases h

theorem takeInteractiveProcess_select (h : select s sandbox selector = .ok (key, record)) :
    takeInteractiveProcess s sandbox selector =
      match s.interactiveProcesses[key]? with
      | some handle => .ok (key, handle)
      | none => .error (finiteProcessError key.pid
          (str "does not keep interactive stdin, signal, or PTY state")) := by
  rw [takeInteractiveProcess, h]
  rfl

theorem startStep_move (stream : Bool) (sandbox : Option Str) (request : StartRequest) :
    Move s o (.starting stream sandbox request) s (startStep s stream sandbox request) := by
  rw [startStep]
  split
  · exact .finish _ rfl
  · next id session hs =>
    have hactive : id ∈ s.active := mem_active (processSessionFor_active hs)
    split
    · refine .stay (fun id' hid => .inr ?_) rfl
      cases hid
      exact hactive
    · exact .stay (no_pending rfl) rfl

theorem traceStep_move (stream : Bool) (sandboxId : Str) (session : Nat) (request : StartRequest) :
    Move s o (.tracing stream sandboxId session request) s
      (traceStep s stream sandboxId session request) := by
  rw [traceStep]
  split
  · next hactive =>
    refine .stay (fun id hid => .inr ?_) rfl
    cases hid
    exact hactive
  · exact .finish _ rfl

theorem runStep_move (stream : Bool) (sandboxId : Str) (session : Nat) (request : StartRequest) :
    Move s o (.running stream sandboxId session request)
      (runStep s stream sandboxId session request o).1
      (runStep s stream sandboxId session request o).2 := by
  cases o with
  | error e => exact .pass _ s.handles (no_pending rfl) rfl
  | ok output =>
    rw [runStep]
    split
    · exact .pass _ _ (fun id hid => .inl hid) rfl
    · exact .pass _ s.handles (fun id hid => .inl hid) rfl

theorem recordStep_move (stream : Bool) (sandboxId : Str) (request : StartRequest)
    (output : ProcessOutput) (handle : Option Nat) :
    Move s o (.recording stream sandboxId request output handle)
      (recordStep s stream sandboxId request output handle).1
      (recordStep s stream sandboxId request output handle).2 := by
  cases handle with
  | some handle => exact .retain stream sandboxId request output handle _ rfl
  | none =>
    rw [recordStep]
    split
    · exact .record _ _ _ rfl (fun id hid => hid) rfl rfl
    · exact .record _ _ _ rfl (no_pending rfl) rfl rfl

theorem takeStep_move (kind : Interaction) (sandbox : Option Str) (selector : ProcessSelector) :
    Move s o (.taking kind sandbox selector) (takeStep s kind sandbox selector).1
      (takeStep s kind sandbox selector).2 := by
  rw [takeStep]
  split
  · next key handle ht =>
    refine .take kind key handle rfl ?_
    cases hsel : select s sandbox selector with
    | error e =>
      rw [takeInteractiveProcess, hsel] at ht
      cases ht
    | ok found =>
      rw [takeInteractiveProcess_select hsel] at ht
      split at ht
      · next hkey =>
        cases ht
        exact hkey
      · cases ht
  · exact .stay (no_pending rfl) rfl
  · exact .finish _ rfl

theorem stopStep_move (sandboxId : Str) :
    Move s o (.stopping sandboxId) (stopStep s sandboxId o).1 (stopStep s sandboxId o).2 := by
  cases o with
  | error e => exact .finish _ rfl
  | ok output => exact .stop sandboxId output _ rfl rfl

theorem advance_move (h : advance s o p = some (s', p')) : Move s o p s' p' := by
  cases p with
  | starting stream sandbox request =>
    cases h
    exact startStep_move stream sandbox request
  | tracing stream sandboxId session request =>
    cases h
    exact traceStep_move stream sandboxId session request
  | locking stream sandboxId session request =>
    rw [advance] at h
    split at h
    · cases h
    · cases h
      exact .pass _ s.handles (fun id hid => .inl hid) rfl
  | running stream sandboxId session request =>
    have hm := runStep_move (s := s) (o := o) stream sandboxId session request
    rw [advance, Option.some.injEq] at h
    rwa [h] at hm
  | recording stream sandboxId request output handle =>
    have hm := recordStep_move (s := s) (o := o) stream sandboxId request output handle
    rw [advance, Option.some.injEq] at h
    rwa [h] at hm
  | completing sandboxId request =>
    cases o with
    | ok output =>
      cases h
      exact .stay (fun id hid => .inl hid) rfl
    | error e =>
      cases h
      exact .finish _ rfl
  | storing sandboxId request output =>
    cases h
    exact .record _ _ _ rfl (no_pending rfl) rfl rfl
  | taking kind sandbox selector =>
    have hm := takeStep_move (s := s) (o := o) kind sandbox selector
    rw [advance, Option.some.injEq] at h
    rwa [h] at hm
  | holding kind key handle =>
    cases h
    exact .stay (fun id hid => .inl hid) rfl
  | returning key handle answer =>
    cases h
    exact .giveBack key handle answer rfl
  | requiring kind sandbox selector =>
    cases h
    exact .finish _ rfl
  | stopping sandboxId =>
    rw [advance] at h
    split at h
    · cases h
      exact .finish _ rfl
    · split at h
      · cases h
      · have hm := stopStep_move (s := s) (o := o) sandboxId
        rw [Option.some.injEq] at h
        rwa [h] at hm
  | done answer => cases h

def oneSandbox : TreeMap Str Nat := (∅ : TreeMap Str Nat).insert (str "sb") 0
def answered : Outcome := .ok { pid := 7 }

def interactiveStart : List (Event Request Outcome) :=
  [.call (.startProcess none { stdin := some true }), .step 0 answered, .step 0 answered,
    .step 0 answered, .step 0 answered]

end ProcessTable
