import Firkin.ProcessStream

/-! # Output of a command run in a container

The process writes byte by byte and waits while a buffer is full. `run_command` reads stdout to
its end, then stderr, and waits for the process last. An output ends when the process exits: one
that closes its stdout and goes on is not modelled. -/
namespace CommandOutput

open ProcessStream (ExitStatus runtimeStreamExitStatus)
open ProcessTable (ProcessOutput)
open Function

inductive Stream where
  | stdout
  | stderr
  deriving DecidableEq

/-- What the process writes before it exits, its exit status and the sizes of its buffers. -/
structure Command where
  pid : UInt32
  script : List (Stream × UInt8)
  status : ExitStatus
  capacity : Stream → Nat
  room : ∀ out, 0 < capacity out

inductive Phase where
  | reading (out : Stream)
  | wait
  | returned (output : ProcessOutput)

structure Pipe where
  buffered : List UInt8 := []
  captured : List UInt8 := []

def Pipe.take (self : Pipe) (size : Nat) : Pipe :=
  ⟨self.buffered.drop size, self.captured ++ self.buffered.take size⟩

def Pipe.put (self : Pipe) (byte : UInt8) : Pipe :=
  { self with buffered := self.buffered ++ [byte] }

structure State where
  script : List (Stream × UInt8)
  exited : Bool := false
  pipes : Stream → Pipe := fun _ => {}
  phase : Phase := .reading .stdout

def start (c : Command) : State := { script := c.script }

def report (c : Command) (captured : Stream → List UInt8) : ProcessOutput :=
  let (exitCode, status, error) := runtimeStreamExitStatus (.ok c.status)
  { pid := c.pid, stdout := captured .stdout, stderr := captured .stderr
    exitCode, exited := true, status, error }

def State.write (s : State) (c : Command) : Option State :=
  match s.script with
  | (out, byte) :: script =>
    if (s.pipes out).buffered.length < c.capacity out then
      some { s with script, pipes := update s.pipes out ((s.pipes out).put byte) }
    else none
  | [] => if s.exited then none else some { s with exited := true }

/-- A read takes some of what is there. The end of an output shows when the process has exited;
the read of the first byte of stdout differs from the later ones in its size only. -/
def State.read (s : State) (out : Stream) (size : Nat) (ended : Phase) : Option State :=
  if (s.pipes out).buffered = [] then
    if s.exited then some { s with phase := ended } else none
  else some { s with pipes := update s.pipes out ((s.pipes out).take size) }

def State.runCommand (s : State) (c : Command) (n : Nat) : Option State :=
  match s.phase with
  | .reading .stdout => s.read .stdout (n + 1) (.reading .stderr)
  | .reading .stderr => s.read .stderr (n + 1) .wait
  | .wait =>
    if s.exited then
      some { s with phase := .returned (report c fun out => (s.pipes out).captured) }
    else none
  | .returned _ => none

inductive Actor where
  | process
  | runner (n : Nat)

def step (c : Command) (s : State) : Actor → Option State
  | .process => s.write c
  | .runner n => s.runCommand c n

/-- The states after `n` steps of the process and of `run_command`, in any order. -/
inductive Reachable (c : Command) : Nat → State → Prop where
  | nil : Reachable c 0 (start c)
  | next {n s s' a} : Reachable c n s → step c s a = some s' → Reachable c (n + 1) s'

def written (script : List (Stream × UInt8)) (out : Stream) : List UInt8 :=
  (script.filter (·.1 = out)).map Prod.snd

/-- No run goes on for ever, and one that cannot go on has returned what the process wrote. -/
def Completes (c : Command) : Prop :=
  ∃ bound, ∀ n s, Reachable c n s → n ≤ bound ∧
    (s.phase = .returned (report c (written c.script)) ∨ ∃ a, (step c s a).isSome = true)

def Fits (c : Command) : Prop := (written c.script .stderr).length ≤ c.capacity .stderr

structure Kept (c : Command) (script : List (Stream × UInt8)) (out : Stream) (p : Pipe) : Prop where
  all : p.captured ++ (p.buffered ++ written script out) = written c.script out
  bounded : p.buffered.length ≤ c.capacity out

structure Sound (c : Command) (s : State) : Prop where
  kept : ∀ out, Kept c s.script out (s.pipes out)
  done : s.exited = true → s.script = []
  phase : match s.phase with
    | .reading .stdout => (s.pipes .stderr).captured = []
    | .reading .stderr => s.exited = true ∧ (s.pipes .stdout).buffered = [] ∧ Fits c
    | .wait => s.exited = true ∧ (∀ out, (s.pipes out).buffered = []) ∧ Fits c
    | .returned output => s.exited = true ∧ output = report c (written c.script) ∧ Fits c

def Phase.fuel : Phase → Nat
  | .reading .stdout => 3
  | .reading .stderr => 2
  | .wait => 1
  | .returned _ => 0

def fuel (s : State) : Nat :=
  2 * s.script.length + (s.pipes .stdout).buffered.length + (s.pipes .stderr).buffered.length +
    (if s.exited then 0 else 1) + s.phase.fuel

variable {c : Command} {s : State}

section
variable (hs : Sound c s)
include hs

theorem Sound.running (h : s.exited ≠ true) :
    s.phase = .reading .stdout ∧ (s.pipes .stderr).captured = [] := by
  have hphase := hs.phase
  split at hphase
  · next hp => exact ⟨hp, hphase⟩
  all_goals exact absurd hphase.1 h

theorem Sound.write (h : s.write c = some s') : Sound c s' ∧ fuel s' < fuel s := by
  unfold State.write at h
  split at h
  · next o byte script hscript =>
    obtain ⟨hroom, ⟨⟩⟩ := Option.ite_none_right_eq_some.mp h
    have hrunning : s.exited ≠ true := fun he => by cases hscript.symm.trans (hs.done he)
    obtain ⟨hp, hstderr⟩ := hs.running hrunning
    have hkept := hs.kept
    rw [hscript] at hkept
    refine ⟨⟨(forall_update_iff ..).mpr ⟨⟨?_, by simpa [Pipe.put] using hroom⟩, fun out hout => ?_⟩,
      fun he => absurd he hrunning, ?_⟩, ?_⟩
    · simpa [written, Pipe.put] using (hkept o).all
    · refine ⟨?_, (hkept out).bounded⟩
      simpa [written, hout.symm] using (hkept out).all
    · simp only [hp]
      cases o <;> simpa [Pipe.put] using hstderr
    · unfold fuel
      cases o <;> simp [hscript, Pipe.put] <;> omega
  · next hscript =>
    obtain ⟨hrunning, ⟨⟩⟩ := Option.ite_none_left_eq_some.mp h
    obtain ⟨hp, hstderr⟩ := hs.running hrunning
    refine ⟨⟨hs.kept, fun _ => hscript, ?_⟩, ?_⟩
    · simpa only [hp] using hstderr
    · simp [fuel, hrunning]

/-- At the end of stdout nothing of stderr was read, so all of it is in the buffer. -/
theorem Sound.fits (hp : s.phase = .reading .stdout) (he : s.exited = true) : Fits c := by
  obtain ⟨hall, hbounded⟩ := hs.kept .stderr
  have hphase := hs.phase
  simp only [hp] at hphase
  rw [hphase, hs.done he] at hall
  rw [Fits, ← hall]
  simpa [written] using hbounded

theorem Sound.read (hp : s.phase = .reading out)
    (h : s.read out (n + 1) ended = some s') (hended : ended.fuel < s.phase.fuel)
    (hnext : s.exited = true → (s.pipes out).buffered = [] → Sound c { s with phase := ended }) :
    Sound c s' ∧ fuel s' < fuel s := by
  unfold State.read at h
  split at h
  · next hempty =>
    obtain ⟨he, ⟨⟩⟩ := Option.ite_none_right_eq_some.mp h
    exact ⟨hnext he hempty, Nat.add_lt_add_left hended _⟩
  · next hne =>
    cases h
    obtain ⟨hall, hbounded⟩ := hs.kept out
    refine ⟨⟨(forall_update_iff ..).mpr ⟨⟨?_, ?_⟩, fun o _ => hs.kept o⟩, hs.done, ?_⟩, ?_⟩
    · rw [← hall]
      simp [Pipe.take, ← List.append_assoc (List.take ..)]
    · rw [Pipe.take, List.length_drop]
      omega
    · have hphase := hs.phase
      cases out <;> simpa [hp] using hphase
    · have hlen := List.length_pos_of_ne_nil hne
      unfold fuel
      cases out <;> simp [Pipe.take] <;> omega

theorem Sound.next (h : step c s a = some s') : Sound c s' ∧ fuel s' < fuel s := by
  cases a with
  | process => exact hs.write h
  | runner n =>
    rw [step, State.runCommand] at h
    have hphase := hs.phase
    split at h
    · next hp =>
      refine hs.read hp h (by rw [hp]; decide) fun he hempty => ⟨hs.kept, hs.done, ?_⟩
      exact ⟨he, hempty, hs.fits hp he⟩
    · next hp =>
      simp only [hp] at hphase
      refine hs.read hp h (by rw [hp]; decide) fun he hempty => ⟨hs.kept, hs.done, ?_⟩
      exact ⟨he, fun out => by cases out; exacts [hphase.2.1, hempty], hphase.2.2⟩
    · next hp =>
      simp only [hp] at hphase
      obtain ⟨he, ⟨⟩⟩ := Option.ite_none_right_eq_some.mp h
      have hall : (fun out => (s.pipes out).captured) = written c.script := by
        funext out
        rw [← (hs.kept out).all, hphase.2.1 out, hs.done he]
        simp [written]
      refine ⟨⟨hs.kept, hs.done, he, by rw [hall], hphase.2.2⟩, ?_⟩
      simp [fuel, hp, Phase.fuel]
    · cases h
end

theorem Reachable.sound (h : Reachable c n s) : Sound c s ∧ n + fuel s ≤ fuel (start c) := by
  induction h with
  | nil => exact ⟨⟨fun out => ⟨rfl, (c.room out).le⟩, (by cases ·), rfl⟩, by simp⟩
  | next _ hstep ih =>
    obtain ⟨hs, hfuel⟩ := ih.1.next hstep
    exact ⟨hs, by omega⟩

theorem Sound.can_step (hs : Sound c s) (hfits : Fits c) :
    s.phase = .returned (report c (written c.script)) ∨ ∃ a, (step c s a).isSome = true := by
  have hphase := hs.phase
  split at hphase
  · next hp =>
    right
    by_cases hempty : (s.pipes .stdout).buffered = []
    · cases he : s.exited with
      | true => exact ⟨.runner 0, by simp [step, State.runCommand, hp, State.read, hempty, he]⟩
      | false =>
        refine ⟨.process, ?_⟩
        have hall := (hs.kept .stderr).all
        rw [step, State.write]
        split
        · next o byte script hscript =>
          have hroom : (s.pipes o).buffered.length < c.capacity o := by
            cases o with
            | stdout => simpa [hempty] using c.room .stdout
            | stderr =>
              rw [hphase, hscript] at hall
              rw [Fits, ← hall] at hfits
              simp [written] at hfits
              omega
          simp [hroom]
        · simp [he]
    · exact ⟨.runner 0, by simp [step, State.runCommand, hp, State.read, hempty]⟩
  · next hp =>
    by_cases hempty : (s.pipes .stderr).buffered = []
    all_goals
        exact .inr ⟨.runner 0, by simp [step, State.runCommand, hp, State.read, hempty, hphase]⟩
  · next hp => exact .inr ⟨.runner 0, by simp [step, State.runCommand, hp, hphase]⟩
  · next hp => exact .inl (hp.trans (by rw [hphase.2.1]))

theorem Reachable.rests {n s} (h : Reachable c n s) :
    ∃ m t, Reachable c m t ∧ ∀ a, (step c t a).isSome ≠ true := by
  by_cases hstep : ∃ a, (step c s a).isSome = true
  · obtain ⟨a, hsome⟩ := hstep
    obtain ⟨s', hs'⟩ := Option.isSome_iff_exists.mp hsome
    have := (h.sound.1.next hs').2
    exact (h.next hs').rests
  · exact ⟨n, s, h, not_exists.mp hstep⟩
termination_by fuel s

/-- A command gets through exactly when its stderr fits into its buffer. -/
theorem completes_iff (c : Command) :
    Completes c ↔ (written c.script .stderr).length ≤ c.capacity .stderr := by
  constructor
  · rintro ⟨bound, hall⟩
    obtain ⟨m, t, ht, hrest⟩ := (@Reachable.nil c).rests
    rcases (hall m t ht).2 with hp | ⟨a, ha⟩
    · have hphase := ht.sound.1.phase
      simp only [hp] at hphase
      exact hphase.2.2
    · exact absurd ha (hrest a)
  · intro hfits
    refine ⟨fuel (start c), fun n s h => ⟨?_, h.sound.1.can_step hfits⟩⟩
    have := h.sound.2
    omega

def twoErrors : Command where
  pid := 7
  script := [(.stderr, 1), (.stderr, 2)]
  status := { code := some 0 }
  capacity _ := 1
  room _ := Nat.one_pos

theorem full_stderr_blocks : ∃ s, Reachable twoErrors 1 s ∧ s.phase = .reading .stdout ∧
    ∀ a, step twoErrors s a = none := by
  refine ⟨_, .next (a := .process) .nil rfl, rfl, fun a => ?_⟩
  cases a with
  | process => rfl
  | runner n => rfl

end CommandOutput
