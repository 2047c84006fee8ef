import Firkin.ProcessStream

/-! # Runs of a process stream

Every step uses up fuel, so that fair schedules come to rest; what the tasks of a stream keep
along every run; and what is over once nothing can step. -/
namespace ProcessStreamRuns

open Ext4Types Interleaving ProcessStream State Function Option
open ProcessTable (ProcessOutput)

variable {job : Job} {s s' : State} {n : Nat}

def readerFuel : Reader → Nat
  | .reading => 1
  | .sending _ => 6
  | .done _ => 0

def completionFuel : Completion → Nat
  | .waiting => 21
  | .joiningStdout => 18
  | .joiningStderr => 15
  | .collectingStdout => 12
  | .collectingStderr => 9
  | .reporting => 6
  | .ending => 3
  | .done => 0

def flagFuel : Bool → Nat
  | false => 1
  | true => 0

def outputFuel (pipe : Output → List UInt8) (reader : Output → Reader) (out : Output) : Nat :=
  6 * (pipe out).length + readerFuel (reader out)

def outputsFuel (pipe : Output → List UInt8) (reader : Output → Reader) : Nat :=
  outputFuel pipe reader .stdout + outputFuel pipe reader .stderr + outputFuel pipe reader .pty

def fuel (s : State) : Nat :=
  7 * s.script.length + flagFuel s.exited + outputsFuel s.pipe s.reader +
    4 * s.inner.length + 3 * s.forwarding.toList.length + 2 * s.channel.length +
    completionFuel s.completion + flagFuel s.stored

section
variable (pipe : Output → List UInt8) (reader : Output → Reader) (out : Output)
include pipe reader out

theorem outputsFuel_update (bytes : List UInt8) (r : Reader) :
    outputsFuel (update pipe out bytes) (update reader out r) +
        (6 * (pipe out).length + readerFuel (reader out)) =
      outputsFuel pipe reader + (6 * bytes.length + readerFuel r) := by
  cases out <;> simp [outputsFuel, outputFuel] <;> omega

theorem outputsFuel_reader (r : Reader) :
    outputsFuel pipe (update reader out r) + readerFuel (reader out) =
      outputsFuel pipe reader + readerFuel r := by
  have h := outputsFuel_update pipe reader out (pipe out) r
  rw [update_eq_self] at h
  omega

theorem outputsFuel_pipe (bytes : List UInt8) :
    outputsFuel (update pipe out bytes) reader + 6 * (pipe out).length =
      outputsFuel pipe reader + 6 * bytes.length := by
  have h := outputsFuel_update pipe reader out bytes (reader out)
  rw [update_eq_self] at h
  omega
end

theorem completionFuel_next (h : c ≠ .done) : completionFuel c.next + 3 = completionFuel c := by
  cases c with
  | done => exact absurd rfl h
  | _ => rfl

variable {out : Output}

theorem setReader_fuel
    (h : readerFuel r < readerFuel (s.reader out)) : fuel (s.setReader out r) < fuel s := by
  have ho := outputsFuel_reader s.pipe s.reader out r
  simp only [fuel, setReader]
  omega

theorem finish_fuel (h : s.completion ≠ .done) : fuel s.finish + 3 = fuel s := by
  have hc := completionFuel_next h
  simp only [fuel, finish]
  omega

theorem push_fuel : fuel (s.push item) = fuel s + 2 := by
  simp only [fuel, push, List.length_append, List.length_singleton]
  omega

theorem change_fuel (h : Change job s n s') : fuel s' < fuel s := by
  cases h with
  | write out byte script hscript hroom =>
    have ho := outputsFuel_pipe s.pipe s.reader out (s.pipe out ++ [byte])
    simp only [fuel, hscript, List.length_cons, List.length_append, List.length_nil] at ho ⊢
    omega
  | exit hscript hexited =>
    simp only [fuel, hexited, flagFuel]
    omega
  | read out size hreader hpipe hsize hn =>
    have ho := outputsFuel_update s.pipe s.reader out ((s.pipe out).drop size)
      (.sending ((s.pipe out).take size))
    have hlen : 0 < (s.pipe out).length := List.length_pos_iff.mpr hpipe
    simp only [fuel, readChunk, hreader, readerFuel, List.length_drop] at ho ⊢
    omega
  | eof out hreader hpipe hexited => exact setReader_fuel (by rw [hreader]; decide)
  | capture out chunk hreader hinteractive =>
    have ho := outputsFuel_reader s.pipe s.reader out .reading
    simp only [fuel, setReader, pushInner, hreader, readerFuel, List.length_append,
      List.length_singleton] at ho ⊢
    omega
  | giveUp out chunk hreader hplain hclosed =>
    exact setReader_fuel (by rw [hreader]; simp [readerFuel])
  | send out chunk hreader hplain hopen =>
    have ho := outputsFuel_reader s.pipe s.reader out .reading
    simp only [fuel, setReader, push, hreader, readerFuel, List.length_append,
      List.length_singleton] at ho ⊢
    omega
  | wait hwaiting hexited =>
    have hf := finish_fuel (s := s) (by rw [hwaiting]; decide)
    omega
  | join out error hjoins hreader =>
    have hf := finish_fuel (s := s) (fun h => by rw [h] at hjoins; cases hjoins)
    omega
  | collect hcollecting =>
    have hf := finish_fuel (s := s) (fun h => by simp [h] at hcollecting)
    omega
  | collectError out e hcollecting hreader hopen =>
    have hf := @finish_fuel (s.push (.error (.runtime (str "read process output: " ++ e))))
      (fun h => by simp [show s.completion = .done from h] at hcollecting)
    rw [push_fuel] at hf
    omega
  | report hreporting =>
    have hf := finish_fuel (s := s) (by rw [hreporting]; decide)
    have hsame : fuel { s.finish with report := some (s.completionOutput job) } =
        fuel s.finish := rfl
    omega
  | finish hending hclosed =>
    have hf := finish_fuel (s := s) (by rw [hending]; decide)
    omega
  | sendEnd hending hopen =>
    have hf := @finish_fuel (s.push (.ok (endEvent job)))
      (by rw [show (s.push _).completion = .ending from hending]; decide)
    rw [push_fuel] at hf
    omega
  | persist report hreport hstored =>
    simp only [fuel, hstored, flagFuel]
    omega
  | take item inner hinner hforwarding =>
    simp only [fuel, hinner, List.length_cons, toList_some, List.length_nil]
    omega
  | forward item hforwarding hopen =>
    simp only [fuel, push, hforwarding, List.length_append, List.length_cons, toList_some,
      toList_none, List.length_nil]
    omega
  | discard item hforwarding hclosed =>
    simp only [fuel, hforwarding, List.length_cons, toList_some, toList_none, List.length_nil]
    omega
  | receive item channel hchannel hopen =>
    simp only [fuel, hchannel, List.length_cons]
    omega

theorem advance_step (h : (machine job).advance s c n task = some (s', task')) :
    step job s n task = some s' ∧ task' = task := by
  obtain ⟨s₁, hs₁, he⟩ := map_eq_some_iff.mp h
  cases he
  exact ⟨hs₁, rfl⟩

variable {size : Nat → Bool}

theorem keeps {P : State → Prop} {s₀ : State} {w : World State Task} (hjob : job.Readable)
    (h : Reachable (machine job) (fun w e => reads size w e = true) (world s₀) w) (h₀ : P s₀)
    (hstep : ∀ s n s', size n = true → P s → Change job s n s' → P s') :
    ∃ s, w = world s ∧ P s := by
  have hkeeps : w.calls = tasks ∧ P w.shared := by
    refine h.keeps (I := fun w => w.calls = tasks ∧ P w.shared) ⟨rfl, h₀⟩ ?_ ?_ ?_
    · intro w r
      exact r.elim
    · intro w c n task s' task' hw hok hc ha
      obtain ⟨hs', rfl⟩ := advance_step ha
      have hset : w.calls.set c task' = w.calls := by
        obtain ⟨hlt, rfl⟩ := List.getElem?_eq_some_iff.mp hc
        exact List.set_getElem_self hlt
      exact ⟨hset.trans hw.1, hstep _ _ _ hok hw.2 (step_change hjob hs')⟩
    · intro w c task s' task' hw hok
      cases hok
  obtain ⟨s, calls⟩ := w
  obtain ⟨rfl, hP⟩ := hkeeps
  exact ⟨s, rfl, hP⟩

theorem next_fuel (hjob : job.Readable) (w : World State Task)
    (e : Event Empty Nat) {w'} (hok : reads size w e = true)
    (hn : next (machine job) w e = some w') : fuel w'.shared < fuel w.shared := by
  cases e with
  | call r => exact r.elim
  | step c n =>
    obtain ⟨task, s', task', hc, ha, rfl⟩ := bind_put.mp hn
    exact change_fuel (step_change hjob (advance_step ha).1)
  | cancel c => cases hok

def AtRest (job : Job) (s : State) : Prop := ∀ task n, step job s n task = none

theorem mem_tasks (task : Task) : task ∈ tasks := by
  cases task with
  | reader out => cases out <;> decide
  | _ => decide

theorem atRest_of_stuck (h : ∀ c, ¬CanStep (machine job) (world s) c) : AtRest job s := by
  intro task n
  obtain ⟨c, hc⟩ := List.mem_iff_getElem?.mp (mem_tasks task)
  by_contra hsome
  obtain ⟨s', hs'⟩ := ne_none_iff_exists'.mp hsome
  refine h c ⟨n, ?_⟩
  have hc : (world s).calls[c]? = some task := hc
  have ha : (machine job).advance (world s).shared c n task = some (s', task) := by
    show (step job s n task).map _ = _
    rw [hs']
    rfl
  rw [next, hc, bind_some, ha]
  rfl

/-- A fair schedule with its client attending comes to rest, and stays there. -/
theorem comes_to_rest {s₀ : State} {P : State → Prop} (hjob : job.Readable)
    (sch : Schedule (machine job) (world s₀)) (hfair : sch.Fair)
    (hmeets : sch.Meets fun w e => attended w e = true) (h₀ : P s₀)
    (hstep : ∀ s n s', P s → Change job s n s' → P s') :
    ∃ n s, P s ∧ AtRest job s ∧ ∀ k, n ≤ k → sch.world k = world s := by
  obtain ⟨n, hstuck, hrest⟩ := sch.settles hmeets hfair (next_fuel hjob)
  obtain ⟨s, hs, hP⟩ := keeps hjob (hmeets.reachable n) h₀ (fun s n s' _ => hstep s n s')
  rw [hs] at hstuck
  exact ⟨n, s, hP, atRest_of_stuck hstuck, fun k hk => (hrest k hk).trans hs⟩

/-- Whether a task can step does not depend on how much its read would take. -/
theorem step_isSome_zero (hjob : job.Readable) (h : (step job s n task).isSome) :
    (step job s 0 task).isSome := by
  cases task with
  | reader out =>
    rw [step, readerStep] at h ⊢
    split at h
    · rw [readStep, readError, hjob out] at h ⊢
      dsimp only at h ⊢
      split at h
      · next hpipe => rwa [if_pos hpipe]
      · next hpipe => rw [if_neg hpipe]; rfl
    · exact h
    · cases h
  | _ => exact h

/-- There is a fair schedule with its client attending, also with reads of one byte. -/
theorem exists_fair (hjob : job.Readable) (hsize : size 0 = true) (s : State) :
    ∃ sch : Schedule (machine job) (world s), sch.Fair ∧
      sch.Meets fun w e => reads size w e = true := by
  have hstep : ∀ w c, CanStep (machine job) w c →
      ∃ e, reads size w e = true ∧ (next (machine job) w e).isSome = true := by
    rintro w c ⟨n, hn⟩
    obtain ⟨w', hw'⟩ := isSome_iff_exists.mp hn
    obtain ⟨task, s', task', hc, ha, rfl⟩ := bind_put.mp hw'
    have hsome := step_isSome_zero hjob (isSome_of_eq_some (advance_step ha).1)
    refine ⟨.step c 0, hsize, ?_⟩
    obtain ⟨s₀, hs₀⟩ := isSome_iff_exists.mp hsome
    have hadv : (machine job).advance w.shared c 0 task = some (s₀, task) := by
      show (step job w.shared 0 task).map _ = _
      rw [hs₀]
      rfl
    rw [next, hc, bind_some, hadv]
    rfl
  obtain ⟨es, w', hrun, hstuck⟩ :=
    exists_settled_run (@next_fuel job size hjob) hstep (world s)
  obtain ⟨sch, hmeets, hfair, -⟩ := Schedule.of_run hrun hstuck
  exact ⟨sch, hfair, hmeets⟩

def bytesOf (out : Output) (script : List (Output × UInt8)) : List UInt8 :=
  script.filterMap fun b => if b.1 = out then some b.2 else none

def written (job : Job) (out : Output) : List UInt8 := bytesOf out job.script
def unread (s : State) (out : Output) : List UInt8 := s.pipe out ++ bytesOf out s.script

theorem bytesOf_cons {out o byte script} :
    bytesOf o ((out, byte) :: script) =
      if out = o then byte :: bytesOf o script else bytesOf o script := by
  by_cases h : out = o <;> simp [h, bytesOf]

def joined : Completion → Output → Bool
  | .waiting, _ | .joiningStdout, _ => false
  | .joiningStderr, out => out = .stdout
  | _, out => out ≠ .pty

def reported : Completion → Bool
  | .ending | .done => true
  | _ => false

theorem joined_next (h : joined c.next out = true) : joined c out = true ∨ c.joins = some out := by
  revert h
  cases c <;> cases out <;> decide

theorem joined_of_reported (h : reported c = true) (hout : out ≠ .pty) : joined c out = true := by
  cases c with
  | ending | done => exact decide_eq_true hout
  | _ => cases h

/-- The bookkeeping of a stream whose outputs can be read: no byte is lost between the process
and its readers, and the completion task of a plain process is where it should be. -/
structure Coherent (job : Job) (s : State) : Prop where
  conserved : ∀ out, s.captured out ++ unread s out = written job out
  exited : s.exited = true → s.script = []
  sound : ∀ out e, s.reader out = .done e → e = none
  absent : ∀ out, out ∉ outputs job.request → s.reader out = .done none
  waited : job.request.interactive = false → s.completion ≠ .waiting → s.exited = true
  joined : job.request.interactive = false → ∀ out, joined s.completion out = true →
    s.reader out = .done none
  reported : job.request.interactive = false → s.report =
    if reported s.completion = true then some (s.completionOutput job) else none
  stored : job.request.interactive = false → (s.stored = true → s.report = some s.record)

theorem coherent_start (job : Job) : Coherent job (start job) where
  conserved out := rfl
  exited h := by cases h
  sound out e h := by
    simp only [start] at h
    split at h
    · cases h
    · cases h
      rfl
  absent out h := if_neg h
  waited hplain h := by
    simp [start, hplain] at h
  joined hplain out h := by
    simp [start, hplain, ProcessStreamRuns.joined] at h
  reported hplain := by
    simp [start, hplain, ProcessStreamRuns.reported]
  stored _ h := absurd h Bool.false_ne_true

theorem unread_write {byte script} (hscript : s.script = (out, byte) :: script) (o : Output) :
    unread { s with script, pipe := update s.pipe out (s.pipe out ++ [byte]) } o =
      unread s o := by
  rw [unread, unread, hscript, bytesOf_cons]
  by_cases h : out = o
  · subst h
    simp
  · simp [h, update_of_ne (Ne.symm h)]

theorem unread_readChunk_of_ne (s : State) (size : Nat) (h : o ≠ out) :
    unread (s.readChunk out size) o = unread s o :=
  congrArg (· ++ bytesOf o s.script) (update_of_ne h _ _)

theorem unread_readChunk_self (s : State) (out : Output) (size : Nat) :
    unread (s.readChunk out size) out = (s.pipe out).drop size ++ bytesOf out s.script :=
  congrArg (· ++ bytesOf out s.script) (update_self _ _ _)

theorem captured_readChunk (s : State) (out : Output) (size : Nat) (o : Output) :
    (s.readChunk out size).captured o ++ unread (s.readChunk out size) o =
      s.captured o ++ unread s o := by
  by_cases h : o = out
  · subst h
    have hcaptured : (s.readChunk o size).captured o = s.captured o ++ (s.pipe o).take size :=
      update_self _ _ _
    rw [unread_readChunk_self, hcaptured, unread, List.append_assoc,
      ← List.append_assoc ((s.pipe o).take size), List.take_append_drop]
  · have hcaptured : (s.readChunk out size).captured o = s.captured o :=
      update_of_ne h _ _
    rw [unread_readChunk_of_ne s size h, hcaptured]

section
variable (h : Change job s n s')
include h

/-- A reader that is done stays done, and its output is not read any more. -/
theorem Change.done (hdone : s.reader out = .done e) :
    s'.reader out = .done e ∧ s'.captured out = s.captured out ∧ unread s' out = unread s out := by
  have hset : ∀ {o : Output} {r : Reader}, (∀ e, s.reader o ≠ .done e) →
      update s.reader o r out = .done e := by
    intro o r ho
    have hne : out ≠ o := by
      rintro rfl
      exact ho e hdone
    rw [update_of_ne hne, hdone]
  cases h with
  | write o byte script hscript => exact ⟨hdone, rfl, unread_write hscript out⟩
  | read o size hreader hpipe hsize hn =>
    have hne : out ≠ o := by
      rintro rfl
      cases hdone.symm.trans hreader
    refine ⟨hset (by simp [hreader]), update_of_ne hne _ _, ?_⟩
    exact unread_readChunk_of_ne s size hne
  | eof o hreader | capture o chunk hreader | giveUp o chunk hreader | send o chunk hreader =>
    exact ⟨hset (by simp [hreader]), rfl, rfl⟩
  | _ => exact ⟨hdone, rfl, rfl⟩

/-- The completion task moves on to where it goes next, or the step is of another task. -/
theorem Change.completion : s'.completion = s.completion ∨
    s'.completion = s.completion.next ∧ (s.completion = .waiting → s.exited = true) ∧
      ∀ out, s.completion.joins = some out → ∃ e, s.reader out = .done e := by
  cases h with
  | wait hwaiting hexited =>
    refine .inr ⟨rfl, fun _ => hexited, fun out hout => ?_⟩
    rw [hwaiting] at hout
    cases hout
  | join o error hjoins hreader =>
    refine .inr ⟨rfl, fun hw => ?_, fun out hout => ?_⟩
    · rw [hw] at hjoins
      cases hjoins
    · cases hjoins.symm.trans hout
      exact ⟨error, hreader⟩
  | collect hcollecting | collectError o e hcollecting =>
    refine .inr ⟨rfl, fun hw => ?_, fun out hout => ?_⟩
    · simp [hw] at hcollecting
    · rcases hcollecting with hc | hc <;> rw [hc] at hout <;> cases hout
  | report hc | finish hc | sendEnd hc =>
    refine .inr ⟨rfl, fun hw => ?_, fun out hout => ?_⟩
    · cases hw.symm.trans hc
    · rw [hc] at hout
      cases hout
  | _ => exact .inl rfl

theorem Change.exited (hexited : s.exited = true) : s'.exited = true := by
  cases h with
  | exit => rfl
  | _ => exact hexited

/-- The report is sent once, on the way from reporting to ending. -/
theorem Change.report : s'.report = s.report ∧ reported s'.completion = reported s.completion ∨
      s'.completion = .ending ∧ s'.report = some (s.completionOutput job) ∧
        s'.completionOutput job = s.completionOutput job := by
  cases h with
  | wait hc | finish hc | sendEnd hc =>
    refine .inl ⟨rfl, ?_⟩
    show reported s.completion.next = _
    rw [hc]
    rfl
  | join o error hjoins =>
    refine .inl ⟨rfl, ?_⟩
    show reported s.completion.next = _
    cases hc : s.completion with
    | joiningStdout | joiningStderr => rfl
    | _ =>
      rw [hc] at hjoins
      cases hjoins
  | collect hcollecting | collectError o e hcollecting =>
    refine .inl ⟨rfl, ?_⟩
    show reported s.completion.next = _
    rcases hcollecting with hc | hc
    · rw [hc]
      rfl
    · rw [hc]
      rfl
  | report hc =>
    refine .inr ⟨?_, rfl, rfl⟩
    show s.completion.next = _
    rw [hc]
    rfl
  | _ => exact .inl ⟨rfl, rfl⟩
end

section
variable (hs : Coherent job s) (h : Change job s n s')
include hs h

theorem Coherent.conserved_step (out : Output) :
    s'.captured out ++ unread s' out = written job out := by
  rw [← hs.conserved out]
  cases h with
  | write o byte script hscript hroom =>
    exact congrArg (s.captured out ++ ·) (unread_write hscript out)
  | read o size => exact captured_readChunk s o size out
  | _ => rfl

theorem Coherent.exited_step (hexited : s'.exited = true) : s'.script = [] := by
  cases h with
  | write o byte script hscript hroom =>
    rw [hs.exited hexited] at hscript
    cases hscript
  | exit hscript => exact hscript
  | _ => exact hs.exited hexited

theorem Coherent.sound_step (hdone : s'.reader out = .done e) : e = none := by
  have hset : ∀ {o : Output} {r : Reader}, update s.reader o r out = .done e →
      (r = .done e → e = none) → e = none := by
    intro o r hupdate hr
    by_cases ho : out = o
    · subst ho
      rw [update_self] at hupdate
      exact hr hupdate
    · rw [update_of_ne ho] at hupdate
      exact hs.sound out e hupdate
  cases h with
  | read o size => exact hset hdone (fun hr => by cases hr)
  | eof o | giveUp o => exact hset hdone (fun hr => by cases hr; rfl)
  | capture o | send o => exact hset hdone (fun hr => by cases hr)
  | _ => exact hs.sound out e hdone

section
variable (hplain : job.request.interactive = false)
include hplain

theorem Coherent.waited_step (hwaiting : s'.completion ≠ .waiting) : s'.exited = true := by
  refine Change.exited h ?_
  by_cases hw : s.completion = .waiting
  · rcases Change.completion h with hsame | ⟨-, hexited, -⟩
    · exact absurd (hsame.trans hw) hwaiting
    · exact hexited hw
  · exact hs.waited hplain hw

theorem Coherent.joined_step
    (hjoined : ProcessStreamRuns.joined s'.completion out = true) : s'.reader out = .done none := by
  have hdone : s.reader out = .done none := by
    rcases Change.completion h with hsame | ⟨hnext, -, hjoins⟩
    · exact hs.joined hplain out (hsame ▸ hjoined)
    · rcases joined_next (hnext ▸ hjoined) with hj | hj
      · exact hs.joined hplain out hj
      · obtain ⟨e, he⟩ := hjoins out hj
        rw [he, hs.sound out e he]
  exact (Change.done h hdone).1

/-- Once the report is out, its output does not change any more. -/
theorem Coherent.completionOutput_step
    (hreported : ProcessStreamRuns.reported s.completion = true) :
    s'.completionOutput job = s.completionOutput job := by
  have hcollected : ∀ out, out ≠ .pty → s'.collected out = s.collected out := by
    intro out hout
    have hdone := hs.joined hplain out (joined_of_reported hreported hout)
    obtain ⟨hdone', hcaptured, -⟩ := Change.done h hdone
    rw [collected, collected, hdone, hdone', hcaptured]
  rw [completionOutput, completionOutput, hcollected .stdout (by decide),
    hcollected .stderr (by decide)]

theorem Coherent.reported_step : s'.report =
      if ProcessStreamRuns.reported s'.completion = true then some (s'.completionOutput job)
      else none := by
  rcases Change.report h with ⟨hreport, hcompletion⟩ | ⟨hending, hreport, hsame⟩
  · rw [hreport, hs.reported hplain, hcompletion]
    split
    · next hr => rw [hs.completionOutput_step h hplain hr]
    · rfl
  · rw [hreport, hsame, hending]
    rfl

theorem Coherent.stored_step (hstored : s'.stored = true) : s'.report = some s'.record := by
  cases h with
  | report hc =>
    have hreport := hs.stored hplain hstored
    rw [hs.reported hplain, hc] at hreport
    cases hreport
  | persist report hreport => exact hreport
  | _ => exact hs.stored hplain hstored
end

theorem Coherent.step : Coherent job s' where
  conserved := hs.conserved_step h
  exited := hs.exited_step h
  sound _ _ := hs.sound_step h
  absent out hout := (Change.done h (hs.absent out hout)).1
  waited := hs.waited_step h
  joined hplain _ := hs.joined_step h hplain
  reported := hs.reported_step h
  stored := hs.stored_step h
end

structure Open (job : Job) (s : State) : Prop where
  coherent : Coherent job s
  opened : s.closed = false
  drained : ∀ out e, s.reader out = .done e → unread s out = []

theorem bytesOf_absent {script : List (Output × UInt8)} {outs : List Output}
    (h : ∀ b ∈ script, b.1 ∈ outs) (hout : out ∉ outs) : bytesOf out script = [] := by
  rw [bytesOf, List.filterMap_eq_nil_iff]
  intro b hb
  refine if_neg ?_
  rintro rfl
  exact hout (h b hb)

theorem open_start (job : Job) : Open job (start job) where
  coherent := coherent_start job
  opened := rfl
  drained out e h := by
    have hout : out ∉ outputs job.request := by
      intro hout
      rw [start] at h
      dsimp only at h
      rw [if_pos hout] at h
      cases h
    exact bytesOf_absent job.script_outputs hout

theorem Change.closed (h : Change job s n s') : s'.closed = s.closed := by
  cases h <;> rfl

/-- The end of an output: nothing is left in the buffer and the process has exited. -/
theorem unread_of_eof (hs : Coherent job s) (hpipe : s.pipe out = [])
    (hexited : s.exited = true) : unread s out = [] := by
  rw [unread, hpipe, hs.exited hexited]
  rfl

theorem Open.drained_step (hs : Open job s) (h : Change job s n s')
    (hdone : s'.reader out = .done e) : unread s' out = [] := by
  by_cases hbefore : ∃ e, s.reader out = .done e
  · obtain ⟨e', he'⟩ := hbefore
    rw [(Change.done h he').2.2]
    exact hs.drained out e' he'
  · have hset : ∀ {o : Output} {r : Reader}, update s.reader o r out = .done e →
        o = out ∧ r = .done e := by
      intro o r hupdate
      by_cases ho : out = o
      · subst ho
        rw [update_self] at hupdate
        exact ⟨rfl, hupdate⟩
      · rw [update_of_ne ho] at hupdate
        exact absurd ⟨e, hupdate⟩ hbefore
    cases h with
    | read o size =>
      cases (hset hdone).2
    | eof o hreader hpipe hexited =>
      obtain ⟨rfl, -⟩ := hset hdone
      exact (unread_of_eof hs.coherent hpipe hexited : unread s o = [])
    | capture o chunk | send o chunk => cases (hset hdone).2
    | giveUp o chunk hreader hplain hclosed =>
      rw [hs.opened] at hclosed
      cases hclosed
    | _ => exact absurd ⟨e, hdone⟩ hbefore

theorem Open.step (hs : Open job s) (h : Change job s n s') : Open job s' where
  coherent := hs.coherent.step h
  opened := (Change.closed h).trans hs.opened
  drained _ _ := hs.drained_step h

theorem pty_not_mem (hplain : job.request.interactive = false) :
    Output.pty ∉ outputs job.request := by
  have hpty : job.request.pty = false := (Bool.or_eq_false_iff.mp hplain).2
  rw [outputs, hpty]
  decide

namespace AtRest

variable (hrest : AtRest job s)

include hrest

/-- A process that has something to write has no room for it. -/
theorem full {out byte script}
    (hscript : s.script = (out, byte) :: script) : job.capacity out ≤ (s.pipe out).length := by
  have h := hrest .process 0
  rw [step, processStep, hscript] at h
  dsimp only at h
  by_contra hroom
  rw [if_pos (Nat.lt_of_not_le hroom)] at h
  cases h

theorem exited (hscript : s.script = []) : s.exited = true := by
  have h := hrest .process 0
  rw [step, processStep, hscript] at h
  by_contra hexited
  rw [if_neg hexited] at h
  cases h

theorem channel (hopen : s.closed = false) : s.channel = [] := by
  have h := hrest .receiver 0
  rw [step, receiverStep, hopen] at h
  cases hc : s.channel with
  | nil => rfl
  | cons item channel =>
    rw [hc] at h
    cases h

theorem stored {report} (hreport : s.report = some report) : s.stored = true := by
  have h := hrest .persist 0
  rw [step, persistStep, hreport] at h
  dsimp only at h
  by_contra hstored
  rw [if_neg hstored] at h
  cases h

/-- A reader waits for a process that has written nothing to read. -/
theorem reading (hjob : job.Readable) (hreader : s.reader out = .reading) :
    s.pipe out = [] ∧ s.exited = false := by
  have h := hrest (.reader out) 0
  rw [step, readerStep, hreader] at h
  rw [readStep, readError, hjob out] at h
  by_cases hpipe : s.pipe out = []
  · rw [if_pos hpipe] at h
    refine ⟨hpipe, Bool.eq_false_iff.mpr fun hexited => ?_⟩
    rw [if_pos hexited] at h
    cases h
  · rw [if_neg hpipe] at h
    cases h

/-- Nobody waits to send while the channel takes it or the client is gone. -/
theorem not_sending
    (hplain : job.request.interactive = false) (hroom : s.closed = true ∨ s.channel = []) :
    s.reader out ≠ .sending chunk := by
  intro hreader
  have h := hrest (.reader out) 0
  rw [step, readerStep, hreader] at h
  dsimp only at h
  rw [sendStep, hplain] at h
  rcases hroom with hclosed | hchannel
  · rw [hclosed] at h
    cases h
  · rw [hchannel] at h
    cases hclosed : s.closed <;> rw [hclosed] at h <;> cases h

theorem readers_done (hs : Coherent job s) (hjob : job.Readable)
    (hplain : job.request.interactive = false) (hroom : s.closed = true ∨ s.channel = [])
    (hexited : s.exited = true) (out : Output) : s.reader out = .done none := by
  cases hreader : s.reader out with
  | reading =>
    rw [(hrest.reading hjob hreader).2] at hexited
    cases hexited
  | sending chunk => exact absurd hreader (hrest.not_sending hplain hroom)
  | done e => rw [hs.sound out e hreader]

theorem completion_done (hdone : ∀ out, s.reader out = .done none)
    (hroom : s.closed = true ∨ s.channel = []) (hexited : s.exited = true) :
    s.completion = .done := by
  have h := hrest .completion 0
  have hsend : ∀ item, s.sendAndFinish item ≠ none := by
    intro item hnone
    rw [sendAndFinish] at hnone
    rcases hroom with hclosed | hchannel
    · rw [if_pos hclosed] at hnone
      cases hnone
    · rw [hchannel] at hnone
      cases hclosed : s.closed <;> rw [hclosed] at hnone <;> cases hnone
  rw [step, completionStep] at h
  cases hc : s.completion with
  | waiting =>
    rw [hc, hexited] at h
    cases h
  | joiningStdout | joiningStderr =>
    rw [hc] at h
    dsimp only at h
    rw [joinStep, hdone] at h
    cases h
  | collectingStdout | collectingStderr =>
    rw [hc] at h
    dsimp only at h
    rw [collectStep, hdone] at h
    cases h
  | reporting =>
    rw [hc] at h
    cases h
  | ending =>
    rw [hc] at h
    exact absurd h (hsend _)
  | done => rfl

end AtRest

/-- Once the process has exited and everything is at rest, the report is there with what the
readers have captured. -/
theorem AtRest.reported (hrest : AtRest job s) (hs : Coherent job s) (hjob : job.Readable)
    (hplain : job.request.interactive = false) (hroom : s.closed = true ∨ s.channel = [])
    (hexited : s.exited = true) :
    s.completion = .done ∧ (∀ out, s.reader out = .done none) ∧
      s.report = some (s.completionOutput job) := by
  have hdone := hrest.readers_done hs hjob hplain hroom hexited
  have hc := hrest.completion_done hdone hroom hexited
  refine ⟨hc, hdone, ?_⟩
  rw [hs.reported hplain, hc]
  rfl

end ProcessStreamRuns
