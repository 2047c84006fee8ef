import Firkin.ProcessStreamRuns

/-! # How a stream ends

The client of a plain stream gets the start, all the output and one end, and the record of the
process says so. The stream of an interactive process has no end, and its record keeps saying
that it runs. -/
namespace ProcessStreamEnd

open Interleaving ProcessStream ProcessStreamRuns List
open ProcessTable (ProcessOutput)

variable {job : Job} {s : State} {n : Nat}

abbrev Chunk := Output × List UInt8
def chunkItem (c : Chunk) : Item := .ok (.output c.1 c.2)

def carried (out : Output) (chunks : List Chunk) : List UInt8 :=
  chunks.flatMap fun c => if c.1 = out then c.2 else []

def exitedOutput (job : Job) : ProcessOutput :=
  let (exitCode, status, error) := runtimeStreamExitStatus job.status
  { pid := job.pid, stdout := written job .stdout, stderr := written job .stderr
    pty := written job .pty, exitCode, exited := true, status, error }

/-- The start, every byte of each output in order and one end have been received, and the record
has the output. -/
structure Ended (job : Job) (s : State) : Prop where
  received : ∃ chunks, s.received =
      .ok (.start job.pid) :: chunks.map chunkItem ++ [.ok (State.endEvent job)] ∧
    ∀ out, carried out chunks = written job out
  record : s.record = exitedOutput job

def inHand : Reader → List UInt8
  | .sending chunk => chunk
  | _ => []

def endItems (job : Job) : Completion → List Item
  | .done => [.ok (State.endEvent job)]
  | _ => []

/-- What has been sent: the start, what the readers have captured and, at last, the end. -/
structure Sent (job : Job) (chunks : List Chunk) (s : State) : Prop where
  items : s.received ++ s.channel =
    .ok (.start job.pid) :: chunks.map chunkItem ++ endItems job s.completion
  captured : ∀ out, s.captured out = carried out chunks ++ inHand (s.reader out)

structure Streaming (job : Job) (s : State) : Prop where
  opened : Open job s
  sent : ∃ chunks, Sent job chunks s
  inner : s.inner = []
  forwarding : s.forwarding = none

theorem carried_append_one :
    carried out (chunks ++ [c]) = carried out chunks ++ if c.1 = out then c.2 else [] := by
  simp [carried]

theorem inHand_start (job : Job) (out : Output) : inHand ((start job).reader out) = [] := by
  rw [start]
  dsimp only
  split <;> rfl

theorem streaming_start (hplain : job.request.interactive = false) : Streaming job (start job) where
  opened := open_start job
  sent := by
    refine ⟨[], ?_, fun out => (inHand_start job out).symm⟩
    simp [start, hplain, endItems]
  inner := rfl
  forwarding := rfl

/-- A step that sends nothing and leaves the readers what they have. -/
theorem Sent.same (hs : Sent job chunks s)
    (hitems : s'.received ++ s'.channel = s.received ++ s.channel)
    (hend : endItems job s'.completion = endItems job s.completion)
    (hcaptured : ∀ out, s'.captured out = s.captured out)
    (hhand : ∀ out, inHand (s'.reader out) = inHand (s.reader out)) : Sent job chunks s' where
  items := by rw [hitems, hs.items, hend]
  captured out := by rw [hcaptured, hs.captured, hhand]

theorem inHand_setReader (h : inHand r = inHand (s.reader out))
    (o : Output) : inHand (Function.update s.reader out r o) = inHand (s.reader o) := by
  by_cases ho : o = out
  · subst ho
    rwa [Function.update_self]
  · rw [Function.update_of_ne ho]

theorem Sent.read (hs : Sent job chunks s) (size : Nat)
    (hreader : s.reader out = .reading) : Sent job chunks (s.readChunk out size) where
  items := hs.items
  captured o := by
    rw [State.readChunk]
    dsimp only
    by_cases ho : o = out
    · subst ho
      rw [hs.captured, hreader]
      simp [inHand]
    · rw [Function.update_of_ne ho, Function.update_of_ne ho]
      exact hs.captured o

/-- A reader that sends has not been joined, so the end is still to come. -/
theorem Sent.send (hs : Sent job chunks s)
    (hreader : s.reader out = .sending chunk) (hend : endItems job s.completion = []) :
    Sent job (chunks ++ [(out, chunk)])
      ((s.push (.ok (.output out chunk))).setReader out .reading) where
  items := by
    show s.received ++ (s.channel ++ [.ok (.output out chunk)]) = _
    have hitems := hs.items
    rw [← append_assoc, hitems]
    show _ = _ ++ endItems job s.completion
    rw [hend]
    simp [chunkItem]
  captured o := by
    show s.captured o = _ ++ inHand (Function.update s.reader out .reading o)
    rw [carried_append_one, hs.captured o]
    by_cases ho : o = out
    · subst ho
      simp [hreader, inHand]
    · simp [ho, Ne.symm ho]

theorem endItems_of_ne_done (h : c ≠ .done) : endItems job c = [] := by
  cases c with
  | done => exact absurd rfl h
  | _ => rfl

theorem Sent.sendEnd (hs : Sent job chunks s) (hending : s.completion = .ending) :
    Sent job chunks (s.push (.ok (State.endEvent job))).finish where
  items := by
    show s.received ++ (s.channel ++ [.ok (State.endEvent job)]) =
      _ ++ endItems job s.completion.next
    have hitems := hs.items
    rw [hending] at hitems ⊢
    rw [← append_assoc, hitems]
    simp [endItems, Completion.next]
  captured := hs.captured

theorem Sent.finish (hs : Sent job chunks s) (hc : s.completion ≠ .done)
    (hnext : s.completion.next ≠ .done) : Sent job chunks s.finish :=
  hs.same rfl (by rw [endItems_of_ne_done hc]; exact endItems_of_ne_done hnext) (fun _ => rfl)
    (fun _ => rfl)

theorem Streaming.not_done (hs : Streaming job s)
    (hplain : job.request.interactive = false) (hreader : s.reader out = .sending chunk) :
    s.completion ≠ .done := by
  intro hc
  have hdone : s.reader out = .done none := by
    by_cases hout : out = .pty
    · exact hs.opened.coherent.absent out (hout ▸ pty_not_mem hplain)
    · exact hs.opened.coherent.joined hplain out (joined_of_reported (by rw [hc]; rfl) hout)
  cases hreader.symm.trans hdone

section
variable (hplain : job.request.interactive = false) (hs : Streaming job s) (h : Change job s n s')
include hplain hs h

theorem Streaming.sent_step : ∃ chunks, Sent job chunks s' := by
  obtain ⟨chunks, hsent⟩ := hs.sent
  cases h with
  | write | exit | persist =>
    exact ⟨chunks, hsent.same rfl rfl (fun _ => rfl) (fun _ => rfl)⟩
  | read out size hreader => exact ⟨chunks, hsent.read size hreader⟩
  | eof out hreader =>
    exact ⟨chunks, hsent.same rfl rfl (fun _ => rfl) (inHand_setReader (by rw [hreader]; rfl))⟩
  | capture out chunk hreader hinteractive =>
    cases hplain.symm.trans hinteractive
  | giveUp out chunk hreader hp hclosed | finish hc hclosed =>
    rw [hs.opened.opened] at hclosed
    cases hclosed
  | send out chunk hreader =>
    exact ⟨_, hsent.send hreader (endItems_of_ne_done (hs.not_done hplain hreader))⟩
  | wait hc =>
    exact ⟨chunks, hsent.finish (by rw [hc]; decide) (by rw [hc]; decide)⟩
  | join out error hjoins =>
    refine ⟨chunks, hsent.finish ?_ ?_⟩
    · intro hc
      rw [hc] at hjoins
      cases hjoins
    · cases hc : s.completion with
      | joiningStdout | joiningStderr => decide
      | _ =>
        rw [hc] at hjoins
        cases hjoins
  | collect hcollecting =>
    rcases hcollecting with hc | hc
    · exact ⟨chunks, hsent.finish (by rw [hc]; decide) (by rw [hc]; decide)⟩
    · exact ⟨chunks, hsent.finish (by rw [hc]; decide) (by rw [hc]; decide)⟩
  | collectError out e hcollecting hreader =>
    cases hs.opened.coherent.sound out _ hreader
  | report hc =>
    have hfinish := hsent.finish (by rw [hc]; decide) (by rw [hc]; decide)
    exact ⟨chunks, hfinish.same rfl rfl (fun _ => rfl) (fun _ => rfl)⟩
  | sendEnd hc => exact ⟨chunks, hsent.sendEnd hc⟩
  | take item inner hinner =>
    rw [hs.inner] at hinner
    cases hinner
  | forward item hforwarding | discard item hforwarding =>
    rw [hs.forwarding] at hforwarding
    cases hforwarding
  | receive item channel hchannel =>
    refine ⟨chunks, hsent.same ?_ rfl (fun _ => rfl) (fun _ => rfl)⟩
    rw [hchannel, append_assoc]
    rfl

theorem Streaming.step : Streaming job s' := by
  refine ⟨hs.opened.step h, hs.sent_step hplain h, ?_, ?_⟩
  · cases h with
    | capture out chunk hreader hinteractive =>
      cases hplain.symm.trans hinteractive
    | take item inner hinner =>
      rw [hs.inner] at hinner
      cases hinner
    | _ => exact hs.inner
  · cases h with
    | take item inner hinner =>
      rw [hs.inner] at hinner
      cases hinner
    | forward | discard => rfl
    | _ => exact hs.forwarding
end

/-- At rest, the process is over: what it has to write next is being read. -/
theorem script_nil_of_rest (hjob : job.Readable) (hplain : job.request.interactive = false)
    (hs : Open job s) (hrest : AtRest job s) : s.script = [] := by
  cases hscript : s.script with
  | nil => rfl
  | cons b script =>
    obtain ⟨out, byte⟩ := b
    have hfull := hrest.full hscript
    have hroom := job.room out
    have hpipe : s.pipe out ≠ [] := by
      intro hnil
      rw [hnil, length_nil] at hfull
      omega
    cases hreader : s.reader out with
    | reading => exact absurd (hrest.reading hjob hreader).1 hpipe
    | sending chunk =>
      exact absurd hreader (hrest.not_sending hplain (.inr (hrest.channel hs.opened)))
    | done e =>
      have hnil := hs.drained out e hreader
      exact absurd (append_eq_nil_iff.mp hnil).1 hpipe

theorem written_pty (hplain : job.request.interactive = false) : written job .pty = [] :=
  bytesOf_absent job.script_outputs (pty_not_mem hplain)

theorem ended_of_rest (hjob : job.Readable) (hplain : job.request.interactive = false)
    (hs : Streaming job s) (hrest : AtRest job s) : Ended job s := by
  have hchannel := hrest.channel hs.opened.opened
  have hexited := hrest.exited (script_nil_of_rest hjob hplain hs.opened hrest)
  obtain ⟨hc, hdone, hreport⟩ :=
    hrest.reported hs.opened.coherent hjob hplain (.inr hchannel) hexited
  have hall : ∀ out, s.captured out = written job out := by
    intro out
    have hconserved := hs.opened.coherent.conserved out
    rwa [hs.opened.drained out none (hdone out), append_nil] at hconserved
  obtain ⟨chunks, hsent⟩ := hs.sent
  refine ⟨⟨chunks, ?_, fun out => ?_⟩, ?_⟩
  · have hitems := hsent.items
    rwa [hchannel, append_nil, hc] at hitems
  · have hcaptured := hsent.captured out
    rw [hdone out, hall out] at hcaptured
    simpa [inHand] using hcaptured.symm
  · have hrecord := hs.opened.coherent.stored hplain (hrest.stored hreport)
    rw [hreport, Option.some.injEq] at hrecord
    rw [← hrecord, State.completionOutput, State.collected, State.collected, hdone, hdone, hall,
      hall, exitedOutput, written_pty hplain]

def isEnd : Item → Bool
  | .ok (.ended ..) => true
  | _ => false

structure Endless (s : State) : Prop where
  completion : s.completion = .done
  received : ∀ item ∈ s.received, isEnd item = false
  channel : ∀ item ∈ s.channel, isEnd item = false
  inner : ∀ item ∈ s.inner, isEnd item = false
  forwarding : ∀ item, s.forwarding = some item → isEnd item = false

theorem endless_start (hinteractive : job.request.interactive = true) : Endless (start job) where
  completion := if_pos hinteractive
  received _ h := absurd h not_mem_nil
  channel item h := by
    cases mem_singleton.mp h
    rfl
  inner _ h := absurd h not_mem_nil
  forwarding item h := by cases h

theorem mem_append_one {P : Item → Prop} {items : List Item} {new : Item}
    (h : ∀ item ∈ items, P item) (hnew : P new) : ∀ item ∈ items ++ [new], P item := by
  intro item hitem
  rcases mem_append.mp hitem with hi | hi
  · exact h item hi
  · cases mem_singleton.mp hi
    exact hnew

theorem Endless.step (hs : Endless s) (h : Change job s n s') : Endless s' := by
  obtain ⟨hc, hreceived, hchannel, hinner, hforwarding⟩ := hs
  cases h with
  | capture out chunk =>
    exact ⟨hc, hreceived, hchannel, mem_append_one hinner rfl, hforwarding⟩
  | send out chunk =>
    exact ⟨hc, hreceived, mem_append_one hchannel rfl, hinner, hforwarding⟩
  | wait h | report h | finish h | sendEnd h =>
    cases hc.symm.trans h
  | join out error h =>
    rw [hc] at h
    cases h
  | collect h | collectError out e h =>
    rw [hc] at h
    simp at h
  | take item inner hi =>
    rw [hi] at hinner
    refine ⟨hc, hreceived, hchannel, fun i h => hinner i (mem_cons_of_mem _ h), ?_⟩
    rintro i ⟨⟩
    exact hinner item mem_cons_self
  | forward item hf =>
    refine ⟨hc, hreceived, mem_append_one hchannel (hforwarding item hf), hinner, ?_⟩
    rintro i ⟨⟩
  | discard item hf =>
    refine ⟨hc, hreceived, hchannel, hinner, ?_⟩
    rintro i ⟨⟩
  | receive item channel hi =>
    rw [hi] at hchannel
    exact ⟨hc, mem_append_one hreceived (hchannel item mem_cons_self),
      fun i h => hchannel i (mem_cons_of_mem _ h), hinner, hforwarding⟩
  | _ => exact ⟨hc, hreceived, hchannel, hinner, hforwarding⟩

theorem not_ended_of_endless (hs : Endless s) : ¬Ended job s := by
  rintro ⟨⟨chunks, hreceived, -⟩, -⟩
  have hmem : .ok (State.endEvent job) ∈ s.received := by
    rw [hreceived]
    exact mem_append_right _ (mem_singleton_self _)
  cases hs.received _ hmem

/-- There are fair schedules of an interactive stream, and none of them ends. -/
theorem exists_endless (hjob : job.Readable) (hinteractive : job.request.interactive = true) :
    ∃ sch : Schedule (machine job) (world (start job)), sch.Fair ∧
      sch.Meets (fun w e => attended w e = true) ∧ ∀ n, ¬Ended job (sch.world n).shared := by
  obtain ⟨sch, hfair, hmeets⟩ := @exists_fair job (fun _ => true) hjob rfl (start job)
  refine ⟨sch, hfair, hmeets, fun n => ?_⟩
  obtain ⟨s, hs, hendless⟩ := keeps hjob (hmeets.reachable n) (endless_start hinteractive)
    (fun _ _ _ _ hs h => hs.step h)
  rw [hs]
  exact not_ended_of_endless hendless

/-- The streams that end properly in every fair schedule are the plain ones. -/
theorem ends_properly_iff (hjob : job.Readable) :
    (∀ sch : Schedule (machine job) (world (start job)), sch.Fair →
      sch.Meets (fun w e => attended w e = true) →
      ∃ n, ∀ k, n ≤ k → Ended job (sch.world k).shared) ↔
        job.request.interactive = false := by
  constructor
  · intro hends
    by_contra hplain
    obtain ⟨sch, hfair, hmeets, hnever⟩ :=
      exists_endless hjob (Bool.eq_true_of_not_eq_false hplain)
    obtain ⟨n, hn⟩ := hends sch hfair hmeets
    exact hnever n (hn n (Nat.le_refl n))
  · intro hplain sch hfair hmeets
    obtain ⟨n, s, hs, hrest, hstays⟩ := comes_to_rest hjob sch hfair hmeets
      (streaming_start hplain) (fun _ _ _ hs h => hs.step hplain h)
    refine ⟨n, fun k hk => ?_⟩
    rw [hstays k hk]
    exact ended_of_rest hjob hplain hs hrest

/-- A process that writes a byte to stdout and one to stderr and exits with code 3. -/
def twoBytes (stdin : Option Bool) : Job where
  pid := 7
  request := { stdin }
  script := [(.stdout, 1), (.stderr, 2)]
  status := .ok ⟨some 3, none⟩
  capacity := fun _ => 1
  script_outputs := by simp [outputs]
  room := fun _ => Nat.one_pos

theorem ends_properly_plain : (twoBytes none).Readable ∧
    ∀ sch : Schedule (machine (twoBytes none)) (world (start (twoBytes none))), sch.Fair →
      sch.Meets (fun w e => attended w e = true) →
      ∃ n, ∀ k, n ≤ k → Ended (twoBytes none) (sch.world k).shared :=
  ⟨fun _ => rfl, (ends_properly_iff fun _ => rfl).mpr rfl⟩

/-- With stdin, the same process has a stream without an end. -/
theorem stdin_never_ends : ∃ sch : Schedule (machine (twoBytes (some true)))
      (world (start (twoBytes (some true)))), sch.Fair ∧
    sch.Meets (fun w e => attended w e = true) ∧
    ∀ n, ¬Ended (twoBytes (some true)) (sch.world n).shared :=
  exists_endless (fun _ => rfl) rfl

/-- In every interleaving no output is lost, doubled or reordered on its way, and a report has
all of it. -/
theorem coherent_along_run (hjob : job.Readable) (h : Reachable (machine job)
      (fun w e => attended w e = true) (world (start job)) w) : Coherent job w.shared := by
  obtain ⟨s, rfl, hs⟩ := keeps hjob h (coherent_start job) fun _ _ _ _ hs hchange => hs.step hchange
  exact hs

/-- Each byte is read and sent, the process exits, and the completion task joins the readers and
reports; the tasks are numbered as in `tasks`. -/
theorem coherent_two_bytes : ∃ w, Reachable (machine (twoBytes none))
      (fun w e => attended w e = true) (world (start (twoBytes none))) w ∧
    (w.shared.record.stdout = [1] ∧ w.shared.record.stderr = [2] ∧ w.shared.stored = true) ∧
    Coherent (twoBytes none) w.shared := by
  obtain ⟨w, hw, hstored⟩ := @reachable_run_any _ _ _ _ (machine (twoBytes none)) _ attended
    ([0, 1, 1, 0, 2, 2, 7, 0, 1, 2, 4, 4, 4, 4, 4, 4, 5].map (.step · 0))
    (fun w => w.shared.record.stdout = [1] ∧ w.shared.record.stderr = [2] ∧ w.shared.stored = true)
    (by decide +kernel : (run _ _ (world (start (twoBytes none))) _).any _ = true)
  exact ⟨w, hw, of_decide_eq_true hstored, coherent_along_run (fun _ => rfl) hw⟩

end ProcessStreamEnd
