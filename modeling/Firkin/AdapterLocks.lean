import Firkin.FairLocks
import Firkin.Interleaving

/-! # Locks held across awaits

The adapter has one lock around its state and one around each session. A call is the script of
its lock operations and of what it does between them. `stop` and a vsock `connect_port_target`
take the session lock inside the state lock; the process calls take it alone, and
`start_process` keeps it until its command has ended. -/
namespace AdapterLocks

open Interleaving

inductive Lock where
  | state
  | session (sandbox : Nat)
  deriving DecidableEq

/-- What a call does when an operation fails: return at once, go on, return the capacity it
reserved, or stop the session it launched first. -/
inductive Recovery where
  | drop
  | ignore
  | giveBack
  | abandon
  deriving DecidableEq

/-- `attempt` is an operation that completes with an outcome of its own; `command` is a command
that ends only with its session. -/
inductive Instruction where
  | lock (lock : Lock)
  | unlock (lock : Lock)
  | lookup (sandbox : Nat)
  | remove (sandbox : Nat)
  | insert (sandbox : Nat)
  | reserve
  | awaitCapacity
  | release
  | attempt (recovery : Recovery)
  | stopSession (sandbox : Nat)
  | command (sandbox : Nat)
  deriving DecidableEq

open Instruction

inductive Request where
  | startProcess (sandbox : Nat) (endless : Bool)
  | startInteractiveProcess (sandbox : Nat)
  | startProcessStream (sandbox : Nat)
  | runFilesystemCommand (sandbox : Nat)
  | listProcesses
  | useProcess (interactive : Bool)
  | startWarm (sandbox : Nat)
  | startCold (sandbox evicted : Nat)
  | startFollowup (sandbox evicted : Nat)
  | stop (sandbox : Nat) (continuationSnapshotSaved : Bool)
  | portTarget (sandbox : Nat)
  | connectSocket
  | connectVsock (sandbox : Nat)
  deriving DecidableEq

def processSessionFor (i : Nat) : List Instruction :=
  [lock .state, lookup i, unlock .state]

/-- `take_startup_event_trace` looks the sandbox up once more. -/
def takeStartupEventTrace (i : Nat) : List Instruction :=
  [lock .state, lookup i, unlock .state]

def onSession (i : Nat) (body : Instruction) : List Instruction :=
  [lock (.session i), body, unlock (.session i)]

def record : List Instruction := [lock .state, unlock .state]
def reserveActiveRestoreCapacity : List Instruction := [lock .state, reserve, unlock .state]

def publish (i : Nat) : List Instruction :=
  [attempt .abandon, attempt .abandon, attempt .abandon, lock .state, insert i, unlock .state]

def restore (i evicted : Nat) : List Instruction :=
  attempt .drop :: reserveActiveRestoreCapacity ++ record ++
    List.replicate evicted (attempt .ignore) ++ [attempt .giveBack, attempt .abandon] ++ publish i

def Request.script : Request → List Instruction
  | .startProcess i endless =>
    processSessionFor i ++ takeStartupEventTrace i ++
      onSession i (if endless then command i else attempt .drop) ++ record
  | .startInteractiveProcess i => processSessionFor i ++ onSession i (attempt .drop) ++ record
  | .startProcessStream i =>
    processSessionFor i ++ takeStartupEventTrace i ++ onSession i (attempt .drop) ++ record
  | .runFilesystemCommand i => processSessionFor i ++ onSession i (attempt .drop) ++ record
  | .listProcesses => record
  | .useProcess true =>
    [lock .state, attempt .drop, unlock .state, attempt .ignore] ++ record
  | .useProcess false => record ++ [lock .state, attempt .drop, unlock .state]
  | .startWarm i =>
    [attempt .drop, lock .state, attempt .drop, unlock .state] ++ publish i
  | .startCold i evicted => attempt .drop :: record ++ restore i evicted
  | .startFollowup i evicted => restore i evicted
  | .stop i saved =>
    [lock .state, lookup i, remove i] ++ onSession i (stopSession i) ++
      (if saved then [] else onSession i (attempt .ignore)) ++ [release, unlock .state]
  | .portTarget i => [lock .state, lookup i, unlock .state]
  | .connectSocket => [attempt .drop]
  | .connectVsock i =>
    [lock .state, lookup i] ++ onSession i (attempt .ignore) ++ [unlock .state]

def Request.nested : Request → Bool
  | .stop .. | .connectVsock _ => true
  | _ => false

def Request.sandbox : Request → Option Nat
  | .startProcess i _ | .startInteractiveProcess i | .startProcessStream i
  | .runFilesystemCommand i | .stop i _ | .connectVsock i => some i
  | _ => none

structure Phase where
  request : Request
  held : List Lock
  script : List Instruction

def Phase.finished (p : Phase) : Bool := p.script.isEmpty

structure Shared where
  owner : Lock → Option Nat
  active : List Nat
  ended : List Nat
  available : Nat

def Shared.give (s : Shared) (l : Lock) (holder : Option Nat) : Shared :=
  { s with owner := Function.update s.owner l holder }

def Recovery.script (held : List Lock) (rest : List Instruction) : Recovery → List Instruction
  | .drop => held.map unlock
  | .ignore => rest
  | .giveBack => [lock .state, release, unlock .state]
  | .abandon => [attempt .ignore, lock .state, release, unlock .state]

def perform (s : Shared) (call : Nat) (good : Bool) (p : Phase) :
    Instruction → List Instruction → Option (Shared × Phase)
  | .lock l, rest =>
    if s.owner l = none then
      some (s.give l (some call), { p with held := l :: p.held, script := rest })
    else none
  | .unlock l, rest => some (s.give l none, { p with held := p.held.erase l, script := rest })
  | .lookup i, rest =>
    some (s, { p with script := if i ∈ s.active then rest else p.held.map unlock })
  | .remove i, rest => some ({ s with active := s.active.erase i }, { p with script := rest })
  | .insert i, rest => some ({ s with active := i :: s.active }, { p with script := rest })
  | .reserve, rest =>
    if 0 < s.available then
      some ({ s with available := s.available - 1 }, { p with script := rest })
    -- the outcome says whether the queue has room
    else if good then
      some (s, { p with
        script := unlock .state :: awaitCapacity :: lock .state :: reserve :: rest })
    else some (s, { p with script := p.held.map unlock })
  | .awaitCapacity, rest => if 0 < s.available then some (s, { p with script := rest }) else none
  | .release, rest => some ({ s with available := s.available + 1 }, { p with script := rest })
  | .attempt recovery, rest =>
    some (s, { p with script := if good then rest else recovery.script p.held rest })
  | .stopSession i, rest =>
    if good then some ({ s with ended := i :: s.ended }, { p with script := rest })
    else some (s, { p with script := [unlock (.session i), insert i, unlock .state] })
  | .command i, rest =>
    if i ∈ s.ended then some (s, { p with script := if good then rest else p.held.map unlock })
    else none

def advance (s : Shared) (call : Nat) (good : Bool) (p : Phase) : Option (Shared × Phase) :=
  match p.script with
  | [] => none
  | instruction :: rest => perform s call good p instruction rest

def drop (s : Shared) (_ : Nat) (p : Phase) : Option (Shared × Phase) :=
  if p.finished then none
  else some (p.held.foldl (fun s l => s.give l none) s, { p with held := [], script := [] })

def enter (request : Request) : Phase := ⟨request, [], request.script⟩
def machine : Machine Shared Phase Request Bool := ⟨enter, advance, drop⟩
abbrev Adapter := World Shared Phase

def initial (active : List Nat) (available : Nat) : Adapter :=
  ⟨⟨fun _ => none, active, [], available⟩, []⟩

/-- A `start_process` of an endless command on the sandbox is under way. -/
def Phase.runs (i : Nat) (p : Phase) : Bool :=
  p.request = .startProcess i true && !p.finished && p.script ≠ p.request.script

/-- No `stop` or vsock connection takes the state while an endless command runs on its sandbox,
and no start has to queue for capacity. -/
def unobstructed (w : Adapter) : Event Request Bool → Bool
  | .step c _ =>
    match w.calls[c]? with
    | some ⟨request, _, .lock .state :: _⟩ =>
      !request.nested || request.sandbox.all fun i => w.calls.all fun q => !q.runs i
    | some ⟨_, _, .reserve :: _⟩ => 0 < w.shared.available
    | _ => true
  | _ => true

def guards (nested : Bool) (held : List Lock) : Instruction → Bool
  | .lock .state => held = []
  | .lock (.session _) => held = if nested then [.state] else []
  | .unlock l => held.head? = some l
  | .stopSession i => held = [.session i, .state]
  | .command i => held = [.session i]
  | .awaitCapacity => held = []
  | .attempt .drop | .attempt .ignore => true
  | .attempt .giveBack | .attempt .abandon => held = []
  | .lookup _ | .remove _ | .insert _ | .reserve | .release => held = [.state]

def after (held : List Lock) : Instruction → List Lock
  | .lock l => l :: held
  | .unlock _ => held.tail
  | _ => held

/-- The locks are taken state first and given back in the opposite order, all of them. -/
def disciplined (nested : Bool) : List Lock → List Instruction → Bool
  | held, [] => held = []
  | held, instruction :: rest =>
    guards nested held instruction && disciplined nested (after held instruction) rest

theorem disciplined_cons :
    disciplined nested held (instruction :: rest) = true ↔
      guards nested held instruction = true ∧
        disciplined nested (after held instruction) rest = true := by
  rw [disciplined, Bool.and_eq_true]

theorem disciplined_unlock : disciplined nested held (held.map unlock) = true := by
  induction held with
  | nil => rfl
  | cons l held ih => exact disciplined_cons.mpr ⟨by simp [guards], ih⟩

theorem disciplined_replicate (n : Nat) (h : disciplined nested held rest = true) :
    disciplined nested held (List.replicate n (attempt .ignore) ++ rest) = true := by
  induction n with
  | zero => exact h
  | succ n ih => exact disciplined_cons.mpr ⟨rfl, ih⟩

theorem disciplined_restore (i evicted : Nat) :
    disciplined false [] (restore i evicted) = true := by
  simp only [restore, List.append_assoc]
  exact disciplined_replicate evicted rfl

/-- What may stand in the script of a call: the session it locks is its own, and it runs an
endless command only if that is what it was asked for. -/
def concerns (request : Request) : Instruction → Bool
  | .lock (.session i) => request.sandbox = some i
  | .command i => request = .startProcess i true
  | .awaitCapacity => false
  | _ => true

structure Phase.Scripted (p : Phase) : Prop where
  ordered : disciplined p.request.nested p.held p.script = true
  concerned : p.script.all (concerns p.request) = true

theorem concerned_restore (i evicted : Nat) :
    (restore i evicted).all (concerns request) = true := by
  simp only [restore]
  simp [concerns, reserveActiveRestoreCapacity, record, publish]

theorem scripted_enter (request : Request) : (enter request).Scripted := by
  cases request with
  | startCold i evicted => exact ⟨disciplined_restore i evicted, concerned_restore i evicted⟩
  | startFollowup i evicted => exact ⟨disciplined_restore i evicted, concerned_restore i evicted⟩
  | startProcess i endless =>
    cases endless <;> constructor <;>
      simp [enter, Request.script, Request.nested, Request.sandbox, processSessionFor,
        takeStartupEventTrace, onSession, record, disciplined, guards, after, concerns]
  | useProcess interactive => cases interactive <;> exact ⟨rfl, rfl⟩
  | stop i saved =>
    cases saved <;> constructor <;>
      simp [enter, Request.script, Request.nested, Request.sandbox, onSession, disciplined, guards,
        after, concerns]
  | _ =>
    constructor <;>
      simp [enter, Request.script, Request.nested, Request.sandbox, processSessionFor,
        takeStartupEventTrace, onSession, record, publish, disciplined, guards, after, concerns]

def cost : Instruction → Nat
  | .attempt .giveBack => 4
  | .attempt .abandon => 5
  | .stopSession _ => 2
  | _ => 1

theorem cost_pos (instruction : Instruction) : 0 < cost instruction := by
  unfold cost
  split <;> decide

def fuel (script : List Instruction) : Nat := (script.map cost).sum

@[simp] theorem fuel_cons : fuel (instruction :: rest) = cost instruction + fuel rest := by
  simp [fuel]

@[simp] theorem fuel_unlock (held : List Lock) : fuel (held.map unlock) = held.length := by
  induction held with
  | nil => rfl
  | cons l held ih => simp [ih, cost, Nat.add_comm]

/-- What is left of a script gives back at least the locks held. -/
theorem held_le_fuel (h : disciplined nested held script = true) : held.length ≤ fuel script := by
  induction script generalizing held with
  | nil =>
    obtain rfl : held = [] := by simpa [disciplined] using h
    rfl
  | cons instruction rest ih =>
    have hrest := ih (disciplined_cons.mp h).2
    have hafter : held.length ≤ (after held instruction).length + 1 := by
      cases instruction <;> simp [after] <;> omega
    have hcost := cost_pos instruction
    rw [fuel_cons]
    omega

/-- A call takes a free lock, or gives back some of the locks it took last. -/
inductive Moved (call : Nat) (s s' : Shared) (p p' : Phase) : Prop where
  | locked (l : Lock) (script : p.script = lock l :: p'.script) (free : s.owner l = none)
      (owner : s'.owner = Function.update s.owner l (some call)) (held : p'.held = l :: p.held)
  | freed (given : List Lock) (held : p.held = given ++ p'.held)
      (owner : ∀ l, s'.owner l = if l ∈ given then none else s.owner l)

section
variable {s s' : Shared} {call : Nat} {p p' : Phase}

theorem Moved.kept (hheld : p'.held = p.held) (howner : s'.owner = s.owner) :
    Moved call s s' p p' :=
  .freed [] (by simp [hheld]) (by simp [howner])

/-- One step of a call whose script is in order and which need not queue for capacity. -/
structure Stepped (call : Nat) (s s' : Shared) (p p' : Phase) : Prop where
  request : p'.request = p.request
  scripted : p'.Scripted
  moved : Moved call s s' p p'
  burns : fuel p'.script < fuel p.script

section
variable {instruction : Instruction} {rest : List Instruction}

section
variable (h : p.Scripted) (hscript : p.script = instruction :: rest)
include h hscript

theorem scripted_cons : guards p.request.nested p.held instruction = true ∧
      disciplined p.request.nested (after p.held instruction) rest = true ∧
      rest.all (concerns p.request) = true := by
  obtain ⟨hd, hc⟩ := h
  rw [hscript, disciplined_cons] at hd
  rw [hscript, List.all_cons, Bool.and_eq_true] at hc
  exact ⟨hd.1, hd.2, hc.2⟩

theorem stepped_on (hafter : after p.held instruction = p.held) (howner : s'.owner = s.owner) :
    Stepped call s s' p { p with script := rest } := by
  obtain ⟨_, hd, hc⟩ := scripted_cons h hscript
  rw [hafter] at hd
  refine ⟨rfl, ⟨hd, hc⟩, .kept rfl howner, ?_⟩
  rw [hscript]
  exact Nat.lt_add_of_pos_left (cost_pos instruction)

theorem stepped_unlocking (hafter : after p.held instruction = p.held) :
    Stepped call s s p { p with script := p.held.map unlock } := by
  obtain ⟨_, hd, _⟩ := scripted_cons h hscript
  rw [hafter] at hd
  refine ⟨rfl, ⟨disciplined_unlock, ?_⟩, .kept rfl rfl, ?_⟩
  · simp [concerns]
  · have hheld := held_le_fuel hd
    have hcost := cost_pos instruction
    rw [hscript, fuel_cons, fuel_unlock]
    omega
end

/-- With no lock held, a call that fails runs a script of its own. -/
theorem stepped_recovery (hscript : p.script = instruction :: rest) (hheld : p.held = [])
    (hd : disciplined p.request.nested [] script = true)
    (hc : script.all (concerns p.request) = true) (hfuel : fuel script < cost instruction) :
    Stepped call s s p { p with script } := by
  refine ⟨rfl, ⟨?_, hc⟩, .kept rfl rfl, ?_⟩
  · rw [hheld]
    exact hd
  · rw [hscript]
    exact Nat.lt_add_right _ hfuel

theorem perform_stepped (h : p.Scripted) (hscript : p.script = instruction :: rest)
    (hroom : instruction = .reserve → 0 < s.available)
    (hp : perform s call good p instruction rest = some (s', p')) :
    Stepped call s s' p p' := by
  obtain ⟨hguard, hd, hc⟩ := scripted_cons h hscript
  cases instruction with
  | lock l =>
    simp only [perform] at hp
    split at hp
    · next hfree =>
      cases hp
      exact ⟨rfl, ⟨hd, hc⟩, .locked l hscript hfree rfl rfl, by simp [hscript, cost]⟩
    · cases hp
  | unlock l =>
    cases hp
    obtain ⟨held, hheld⟩ : ∃ held, p.held = l :: held := by
      simpa [guards, List.head?_eq_some_iff] using hguard
    refine ⟨rfl, ⟨?_, hc⟩, .freed [l] (by simp [hheld]) fun l' => ?_, by simp [hscript, cost]⟩
    · simpa [after, hheld] using hd
    · simp [Shared.give, Function.update_apply]
  | lookup i =>
    cases hp
    split
    · exact stepped_on h hscript rfl rfl
    · exact stepped_unlocking h hscript rfl
  | remove i | insert i | release =>
    cases hp
    exact stepped_on h hscript rfl rfl
  | reserve =>
    rw [perform, if_pos (hroom rfl)] at hp
    cases hp
    exact stepped_on h hscript rfl rfl
  | awaitCapacity =>
    have := h.concerned
    simp [hscript, concerns] at this
  | attempt recovery =>
    cases hp
    cases good with
    | true => exact stepped_on h hscript rfl rfl
    | false =>
      cases recovery with
      | drop => exact stepped_unlocking h hscript rfl
      | ignore => exact stepped_on h hscript rfl rfl
      | giveBack | abandon =>
        exact stepped_recovery hscript (by simpa [guards] using hguard) rfl rfl
          (by simp [Recovery.script, fuel, cost])
  | stopSession i =>
    cases good with
    | true =>
      cases hp
      exact stepped_on h hscript rfl rfl
    | false =>
      cases hp
      have hheld : p.held = [.session i, .state] := by simpa [guards] using hguard
      have hfuel := held_le_fuel hd
      refine ⟨rfl, ⟨?_, rfl⟩, .kept rfl rfl, ?_⟩
      · simp [hheld, disciplined, guards, after]
      · simp only [after, hheld, List.length_cons] at hfuel
        simp only [hscript, fuel_cons, cost]
        simp only [fuel, List.map_nil, List.sum_nil] at hfuel ⊢
        omega
  | command i =>
    simp only [perform] at hp
    split at hp
    · cases hp
      split
      · exact stepped_on h hscript rfl rfl
      · exact stepped_unlocking h hscript rfl
    · cases hp
end

end

end AdapterLocks
