import Firkin.ProcessTable

/-! # Process streams

The tasks behind the event stream of one process. A plain process has a reader for each output
that sends to the client's channel, and a completion task that waits for the process, joins the
readers, reports and sends the end. An interactive process has capture tasks that send to an
inner channel, and a task that forwards from there. The process writes byte by byte and waits
while its output buffer is full; a read takes some of what is there. An output ends when the
process exits, never before: one that closes its stdout and goes on is not modelled. -/
namespace ProcessStream

open Ext4Types DecimalText Interleaving
open ProcessTable (BackendError ProcessOutput StartRequest)

inductive Output where
  | stdout
  | stderr
  | pty
  deriving DecidableEq

/-- `output` stands for `Stdout`, `Stderr` and `Pty`. -/
inductive StreamEvent where
  | start (pid : UInt32)
  | output (out : Output) (bytes : List UInt8)
  | ended (exitCode : Int32) (exited : Bool) (status : Str) (error : Option Str)

abbrev Item := Except BackendError StreamEvent

structure ExitStatus where
  code : Option Int32
  signal : Option Int32 := none

def ExitStatus.success (self : ExitStatus) : Bool := self.code = some 0 && self.signal.isNone
def renderInt (i : Int) : Str := if i < 0 then str "-" ++ render i.natAbs else render i.natAbs

def runtimeStreamExitStatus : Except Str ExitStatus → Int32 × Str × Option Str
  | .ok status =>
    let exitCode := status.code.getD 128
    (exitCode, if status.success then str "exited" else str "errored",
      if status.success then none else some (str "process exited " ++ renderInt exitCode.toInt))
  | .error e => (128, str "errored", some (str "wait failed: " ++ e))

def outputs (request : StartRequest) : List Output :=
  if request.pty then [.pty] else [.stdout, .stderr]

/-- A process: what it writes before it exits, what waiting for it gives, the sizes of its output
buffers, and after how many bytes reading an output fails, if it does. -/
structure Job where
  pid : UInt32
  request : StartRequest
  script : List (Output × UInt8)
  status : Except Str ExitStatus
  capacity : Output → Nat
  fault : Output → Option (Nat × Str) := fun _ => none
  script_outputs : ∀ b ∈ script, b.1 ∈ outputs request
  room : ∀ out, 0 < capacity out

inductive Reader where
  | reading
  | sending (chunk : List UInt8)
  | done (error : Option Str)

inductive Completion where
  | waiting
  | joiningStdout
  | joiningStderr
  | collectingStdout
  | collectingStderr
  | reporting
  | ending
  | done
  deriving DecidableEq

def Completion.next : Completion → Completion
  | .waiting => .joiningStdout
  | .joiningStdout => .joiningStderr
  | .joiningStderr => .collectingStdout
  | .collectingStdout => .collectingStderr
  | .collectingStderr => .reporting
  | .reporting => .ending
  | .ending | .done => .done

def Completion.joins : Completion → Option Output
  | .joiningStdout => some .stdout
  | .joiningStderr => some .stderr
  | _ => none

/-- `inner` and `forwarding` are the forwarding of interactive processes; `closed` tells that the
client has dropped its receiver. -/
structure State where
  script : List (Output × UInt8)
  exited : Bool := false
  pipe : Output → List UInt8 := fun _ => []
  captured : Output → List UInt8 := fun _ => []
  reader : Output → Reader
  inner : List Item := []
  forwarding : Option Item := none
  channel : List Item
  received : List Item := []
  closed : Bool := false
  completion : Completion
  report : Option ProcessOutput := none
  record : ProcessOutput
  stored : Bool := false

def running (pid : UInt32) : ProcessOutput := { pid, status := str "running" }

def start (job : Job) : State where
  script := job.script
  reader out := if out ∈ outputs job.request then .reading else .done none
  channel := [.ok (.start job.pid)]
  completion := if job.request.interactive then .done else .waiting
  record := running job.pid

def channelCapacity : Nat := 32
def readBuffer : Nat := 8192

namespace State

variable (job : Job) (s : State)

def setReader (out : Output) (r : Reader) : State :=
  { s with reader := Function.update s.reader out r }

def push (item : Item) : State := { s with channel := s.channel ++ [item] }
def pushInner (item : Item) : State := { s with inner := s.inner ++ [item] }
def finish : State := { s with completion := s.completion.next }

def collected (out : Output) : List UInt8 :=
  match s.reader out with
  | .done (some _) => []
  | _ => s.captured out

def completionOutput : ProcessOutput :=
  let (exitCode, status, error) := runtimeStreamExitStatus job.status
  { pid := job.pid, stdout := s.collected .stdout, stderr := s.collected .stderr
    exitCode, exited := true, status, error }

def processStep : Option State :=
  match s.script with
  | (out, byte) :: script =>
    if (s.pipe out).length < job.capacity out then
      some { s with script, pipe := Function.update s.pipe out (s.pipe out ++ [byte]) }
    else none
  | [] => if s.exited then none else some { s with exited := true }

def readError (out : Output) : Option Str :=
  match job.fault out with
  | some (count, e) => if count ≤ (s.captured out).length then some e else none
  | none => none

def readSize (out : Output) (n : Nat) : Nat :=
  match job.fault out with
  | some (count, _) => min (min (n + 1) readBuffer) (count - (s.captured out).length)
  | none => min (n + 1) readBuffer

def readChunk (out : Output) (size : Nat) : State :=
  { s with
    pipe := Function.update s.pipe out ((s.pipe out).drop size)
    captured := Function.update s.captured out (s.captured out ++ (s.pipe out).take size)
    reader := Function.update s.reader out (.sending ((s.pipe out).take size)) }

/-- The end of an output shows when the process has exited and its buffer is empty. -/
def readStep (out : Output) (n : Nat) : Option State :=
  match s.readError job out with
  | some e => some (s.setReader out (.done (some e)))
  | none =>
    if s.pipe out = [] then
      if s.exited then some (s.setReader out (.done none)) else none
    else some (s.readChunk out (s.readSize job out n))

/-- A reader gives up when the client is gone; a capture task sends to the inner channel. -/
def sendStep (out : Output) (chunk : List UInt8) : Option State :=
  if job.request.interactive then
    if s.inner.length < channelCapacity then
      some ((s.pushInner (.ok (.output out chunk))).setReader out .reading)
    else none
  else if s.closed then some (s.setReader out (.done none))
  else if s.channel.length < channelCapacity then
    some ((s.push (.ok (.output out chunk))).setReader out .reading)
  else none

def readerStep (out : Output) (n : Nat) : Option State :=
  match s.reader out with
  | .reading => s.readStep job out n
  | .sending chunk => s.sendStep job out chunk
  | .done _ => none

/-- The completion task sends and goes on; without a client it only goes on. -/
def sendAndFinish (item : Item) : Option State :=
  if s.closed then some s.finish
  else if s.channel.length < channelCapacity then some (s.push item).finish
  else none

def joinStep (out : Output) : Option State :=
  match s.reader out with
  | .done _ => some s.finish
  | _ => none

def collectStep (out : Output) : Option State :=
  match s.reader out with
  | .done (some e) => s.sendAndFinish (.error (.runtime (str "read process output: " ++ e)))
  | _ => some s.finish

def endEvent : StreamEvent :=
  let (exitCode, status, error) := runtimeStreamExitStatus job.status
  .ended exitCode true status error

def completionStep : Option State :=
  match s.completion with
  | .waiting => if s.exited then some s.finish else none
  | .joiningStdout => s.joinStep .stdout
  | .joiningStderr => s.joinStep .stderr
  | .collectingStdout => s.collectStep .stdout
  | .collectingStderr => s.collectStep .stderr
  | .reporting => some { s.finish with report := some (s.completionOutput job) }
  | .ending => s.sendAndFinish (.ok (endEvent job))
  | .done => none

def persistStep : Option State :=
  match s.report with
  | some report => if s.stored then none else some { s with record := report, stored := true }
  | none => none

def forwardStep : Option State :=
  match s.forwarding with
  | some item =>
    if s.closed then some { s with forwarding := none }
    else if s.channel.length < channelCapacity then some { s.push item with forwarding := none }
    else none
  | none =>
    match s.inner with
    | item :: inner => some { s with inner, forwarding := some item }
    | [] => none

def receiverStep : Option State :=
  if s.closed then none
  else
    match s.channel with
    | item :: channel => some { s with channel, received := s.received ++ [item] }
    | [] => none

def dropReceiver : State := { s with closed := true, channel := [] }

end State

inductive Task where
  | process
  | reader (out : Output)
  | completion
  | persist
  | forward
  | receiver
  deriving DecidableEq

def tasks : List Task :=
  [.process, .reader .stdout, .reader .stderr, .reader .pty, .completion, .persist, .forward,
    .receiver]

def step (job : Job) (s : State) (n : Nat) : Task → Option State
  | .process => s.processStep job
  | .reader out => s.readerStep job out n
  | .completion => s.completionStep job
  | .persist => s.persistStep
  | .forward => s.forwardStep
  | .receiver => s.receiverStep

def drop (s : State) (task : Task) : Option State :=
  if task = .receiver && !s.closed then some s.dropReceiver else none

def machine (job : Job) : Machine State Task Empty Nat where
  enter := Empty.elim
  advance s _ n task := (step job s n task).map fun s => (s, task)
  drop s _ task := (drop s task).map fun s => (s, task)

def world (s : State) : World State Task := ⟨s, tasks⟩

def reads (size : Nat → Bool) (_ : World State Task) : Event Empty Nat → Bool
  | .step _ n => size n
  | _ => false

abbrev attended : World State Task → Event Empty Nat → Bool := reads fun _ => true
def Job.Readable (job : Job) : Prop := ∀ out, job.fault out = none

inductive Change (job : Job) (s : State) (n : Nat) : State → Prop where
  | write (out : Output) (byte : UInt8) (script : List (Output × UInt8))
      (hscript : s.script = (out, byte) :: script)
      (hroom : (s.pipe out).length < job.capacity out) :
      Change job s n
        { s with script, pipe := Function.update s.pipe out (s.pipe out ++ [byte]) }
  | exit (hscript : s.script = []) (hexited : s.exited = false) :
      Change job s n { s with exited := true }
  | read (out : Output) (size : Nat) (hreader : s.reader out = .reading)
      (hpipe : s.pipe out ≠ []) (hsize : 0 < size) (hn : size ≤ n + 1) :
      Change job s n (s.readChunk out size)
  | eof (out : Output) (hreader : s.reader out = .reading) (hpipe : s.pipe out = [])
      (hexited : s.exited = true) : Change job s n (s.setReader out (.done none))
  | capture (out : Output) (chunk : List UInt8) (hreader : s.reader out = .sending chunk)
      (hinteractive : job.request.interactive = true) :
      Change job s n ((s.pushInner (.ok (.output out chunk))).setReader out .reading)
  | giveUp (out : Output) (chunk : List UInt8) (hreader : s.reader out = .sending chunk)
      (hplain : job.request.interactive = false) (hclosed : s.closed = true) :
      Change job s n (s.setReader out (.done none))
  | send (out : Output) (chunk : List UInt8) (hreader : s.reader out = .sending chunk)
      (hplain : job.request.interactive = false) (hopen : s.closed = false) :
      Change job s n ((s.push (.ok (.output out chunk))).setReader out .reading)
  | wait (hwaiting : s.completion = .waiting) (hexited : s.exited = true) : Change job s n s.finish
  | join (out : Output) (error : Option Str) (hjoins : s.completion.joins = some out)
      (hreader : s.reader out = .done error) : Change job s n s.finish
  | collect (hcollecting : s.completion = .collectingStdout ∨ s.completion = .collectingStderr) :
      Change job s n s.finish
  | collectError (out : Output) (e : Str)
      (hcollecting : s.completion = .collectingStdout ∨ s.completion = .collectingStderr)
      (hreader : s.reader out = .done (some e)) (hopen : s.closed = false) :
      Change job s n (s.push (.error (.runtime (str "read process output: " ++ e)))).finish
  | report (hreporting : s.completion = .reporting) :
      Change job s n { s.finish with report := some (s.completionOutput job) }
  | finish (hending : s.completion = .ending) (hclosed : s.closed = true) : Change job s n s.finish
  | sendEnd (hending : s.completion = .ending) (hopen : s.closed = false) :
      Change job s n (s.push (.ok (State.endEvent job))).finish
  | persist (report : ProcessOutput) (hreport : s.report = some report)
      (hstored : s.stored = false) : Change job s n { s with record := report, stored := true }
  | take (item : Item) (inner : List Item) (hinner : s.inner = item :: inner)
      (hforwarding : s.forwarding = none) :
      Change job s n { s with inner, forwarding := some item }
  | forward (item : Item) (hforwarding : s.forwarding = some item) (hopen : s.closed = false) :
      Change job s n { s.push item with forwarding := none }
  | discard (item : Item) (hforwarding : s.forwarding = some item) (hclosed : s.closed = true) :
      Change job s n { s with forwarding := none }
  | receive (item : Item) (channel : List Item) (hchannel : s.channel = item :: channel)
      (hopen : s.closed = false) :
      Change job s n { s with channel, received := s.received ++ [item] }

variable {job : Job} {s s' : State} {n : Nat}

theorem processStep_change (h : s.processStep job = some s') : Change job s n s' := by
  rw [State.processStep] at h
  split at h
  · next out byte script hscript =>
    split at h
    · next hroom =>
      cases h
      exact .write out byte script hscript hroom
    · cases h
  · next hscript =>
    split at h
    · cases h
    · next hexited =>
      cases h
      exact .exit hscript (Bool.eq_false_iff.mpr hexited)

theorem readerStep_change (hjob : job.Readable)
    (h : s.readerStep job out n = some s') : Change job s n s' := by
  rw [State.readerStep] at h
  split at h
  · next hreader =>
    rw [State.readStep, State.readError, hjob out] at h
    dsimp only at h
    split at h
    · next hpipe =>
      split at h
      · next hexited =>
        cases h
        exact .eof out hreader hpipe hexited
      · cases h
    · next hpipe =>
      cases h
      have hsize : s.readSize job out n = min (n + 1) readBuffer := by
        rw [State.readSize, hjob out]
      refine .read out _ hreader hpipe ?_ ?_
      · rw [hsize, readBuffer]
        omega
      · rw [hsize]
        exact Nat.min_le_left _ _
  · next chunk hreader =>
    rw [State.sendStep] at h
    split at h
    · next hinteractive =>
      split at h
      · cases h
        exact .capture out chunk hreader hinteractive
      · cases h
    · next hplain =>
      have hplain := Bool.eq_false_iff.mpr hplain
      split at h
      · next hclosed =>
        cases h
        exact .giveUp out chunk hreader hplain hclosed
      · next hopen =>
        split at h
        · cases h
          exact .send out chunk hreader hplain (Bool.eq_false_iff.mpr hopen)
        · cases h
  · cases h

theorem joinStep_change (hjoins : s.completion.joins = some out)
    (h : s.joinStep out = some s') : Change job s n s' := by
  rw [State.joinStep] at h
  split at h
  · next error hreader =>
    cases h
    exact .join out error hjoins hreader
  · cases h

theorem collectStep_change
    (hcollecting : s.completion = .collectingStdout ∨ s.completion = .collectingStderr)
    (h : s.collectStep out = some s') : Change job s n s' := by
  rw [State.collectStep] at h
  split at h
  · next e hreader =>
    rw [State.sendAndFinish] at h
    split at h
    · cases h
      exact .collect hcollecting
    · next hopen =>
      split at h
      · cases h
        exact .collectError out e hcollecting hreader (Bool.eq_false_iff.mpr hopen)
      · cases h
  · cases h
    exact .collect hcollecting

theorem completionStep_change (h : s.completionStep job = some s') : Change job s n s' := by
  rw [State.completionStep] at h
  split at h
  · next hwaiting =>
    split at h
    · next hexited =>
      cases h
      exact .wait hwaiting hexited
    · cases h
  · next hc => exact joinStep_change (by rw [hc]; rfl) h
  · next hc => exact joinStep_change (by rw [hc]; rfl) h
  · next hc => exact collectStep_change (.inl hc) h
  · next hc => exact collectStep_change (.inr hc) h
  · next hreporting =>
    cases h
    exact .report hreporting
  · next hending =>
    rw [State.sendAndFinish] at h
    split at h
    · next hclosed =>
      cases h
      exact .finish hending hclosed
    · next hopen =>
      split at h
      · cases h
        exact .sendEnd hending (Bool.eq_false_iff.mpr hopen)
      · cases h
  · cases h

theorem forwardStep_change (h : s.forwardStep = some s') : Change job s n s' := by
  rw [State.forwardStep] at h
  split at h
  · next item hforwarding =>
    split at h
    · next hclosed =>
      cases h
      exact .discard item hforwarding hclosed
    · next hopen =>
      split at h
      · cases h
        exact .forward item hforwarding (Bool.eq_false_iff.mpr hopen)
      · cases h
  · next hforwarding =>
    split at h
    · next item inner hinner =>
      cases h
      exact .take item inner hinner hforwarding
    · cases h

theorem step_change (hjob : job.Readable) (h : step job s n task = some s') :
    Change job s n s' := by
  cases task with
  | process => exact processStep_change h
  | reader out => exact readerStep_change hjob h
  | completion => exact completionStep_change h
  | persist =>
    rw [step, State.persistStep] at h
    split at h
    · next report hreport =>
      split at h
      · cases h
      · next hstored =>
        cases h
        exact .persist report hreport (Bool.eq_false_iff.mpr hstored)
    · cases h
  | forward => exact forwardStep_change h
  | receiver =>
    rw [step, State.receiverStep] at h
    split at h
    · cases h
    · next hopen =>
      split at h
      · next item channel hchannel =>
        cases h
        exact .receive item channel hchannel (Bool.eq_false_iff.mpr hopen)
      · cases h

end ProcessStream
