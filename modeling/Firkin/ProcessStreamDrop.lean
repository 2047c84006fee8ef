import Firkin.ProcessStreamRuns

/-! # A client that goes away

Once the client has dropped its receiver, a reader of a plain stream stops at its next send.
What is not read by then is lost, and a process that still has more to write than its buffer
takes never ends. -/
namespace ProcessStreamDrop

open Interleaving ProcessStream ProcessStreamRuns

variable {job : Job} {s : State} {n : Nat} {out : Output}

def Reported (job : Job) (s : State) : Prop :=
  ∃ report, s.report = some report ∧ report.stdout = written job .stdout ∧
    report.stderr = written job .stderr

def withinReach (s : State) (out : Output) : Bool :=
  match s.reader out with
  | .reading => (unread s out).length ≤ 1
  | .sending _ => (unread s out).isEmpty
  | .done _ => true

def drainable (s : State) : Bool := withinReach s .stdout && withinReach s .stderr

theorem coherent_dropReceiver (hs : Coherent job s) : Coherent job s.dropReceiver where
  conserved := hs.conserved
  exited := hs.exited
  sound := hs.sound
  absent := hs.absent
  waited := hs.waited
  joined := hs.joined
  reported := hs.reported
  stored := hs.stored

/-- What a reader has before it, while it reads and when it is about to stop. -/
def Before (few rest : List UInt8 → Prop) : Reader → List UInt8 → Prop
  | .reading, bytes => few bytes
  | .sending _, bytes | .done _, bytes => rest bytes

structure Gone (job : Job) (out : Output) (few rest : List UInt8 → Prop) (s : State) : Prop where
  coherent : Coherent job s
  closed : s.closed = true
  before : Before few rest (s.reader out) (unread s out)

/-- Once the client is gone, a reader leaves reading for good, by a read or at the end of its
output. -/
theorem Gone.step (hs : Gone job out few rest s)
    (hplain : job.request.interactive = false) (h : Change job s n s')
    (hread : ∀ pipe more size, few (pipe ++ more) → pipe ≠ [] → 0 < size → size ≤ n + 1 →
      rest (pipe.drop size ++ more))
    (heof : few [] → rest []) : Gone job out few rest s' := by
  refine ⟨hs.coherent.step h, (Change.closed h).trans hs.closed, ?_⟩
  have hbefore := hs.before
  have hother : ∀ {o : Output} {r : Reader}, out ≠ o →
      Before few rest (Function.update s.reader o r out) (unread s out) := by
    intro o r ho
    rwa [Function.update_of_ne ho]
  cases h with
  | write o byte script hscript =>
    rw [unread_write hscript]
    exact hbefore
  | read o size hreader hpipe hsize hn =>
    by_cases ho : out = o
    · subst ho
      rw [hreader] at hbefore
      have hreader' : (s.readChunk out size).reader out = .sending ((s.pipe out).take size) :=
        Function.update_self _ _ _
      rw [hreader', unread_readChunk_self]
      exact hread _ _ size hbefore hpipe hsize hn
    · rw [unread_readChunk_of_ne s size ho]
      exact hother ho
  | eof o hreader hpipe hexited =>
    by_cases ho : out = o
    · subst ho
      have hnil : unread s out = [] := unread_of_eof hs.coherent hpipe hexited
      have hreader' : (s.setReader out (.done none)).reader out = .done none :=
        Function.update_self _ _ _
      rw [hreader, hnil] at hbefore
      rw [hreader']
      exact hnil ▸ heof hbefore
    · exact hother ho
  | giveUp o chunk hreader =>
    by_cases ho : out = o
    · subst ho
      rw [hreader] at hbefore
      have hreader' : (s.setReader out (.done none)).reader out = .done none :=
        Function.update_self _ _ _
      rw [hreader']
      exact hbefore
    · exact hother ho
  | capture o chunk hreader hinteractive =>
    cases hplain.symm.trans hinteractive
  | send o chunk hreader hp hopen =>
    rw [hs.closed] at hopen
    cases hopen
  | _ => exact hbefore

/-- At most one byte to read, and none when the reader is about to stop. -/
abbrev Draining (job : Job) (out : Output) : State → Prop :=
  Gone job out (fun bytes => bytes.length ≤ 1) (fun bytes => bytes = [])

theorem Draining.step (hplain : job.request.interactive = false) (hs : Draining job out s)
    (h : Change job s n s') : Draining job out s' := by
  refine Gone.step hs hplain h ?_ (fun _ => rfl)
  intro pipe more size hfew hpipe hsize _
  have hlen : 0 < pipe.length := List.length_pos_iff.mpr hpipe
  rw [List.length_append] at hfew
  rw [List.append_eq_nil_iff, List.drop_eq_nil_iff, ← List.length_eq_zero_iff]
  omega

theorem Draining.length_le (hs : Draining job out s) : (unread s out).length ≤ 1 := by
  have hbefore := hs.before
  cases hreader : s.reader out with
  | reading =>
    rw [hreader] at hbefore
    exact hbefore
  | sending chunk | done e =>
    rw [hreader] at hbefore
    have hnil : unread s out = [] := hbefore
    rw [hnil]
    exact Nat.zero_le 1

theorem reported_of_draining (hjob : job.Readable) (hplain : job.request.interactive = false)
    (hs : ∀ out, Draining job out s) (hrest : AtRest job s) : Reported job s := by
  have hcoherent := (hs .stdout).coherent
  have hclosed := (hs .stdout).closed
  have hscript : s.script = [] := by
    cases hscript : s.script with
    | nil => rfl
    | cons b script =>
      obtain ⟨o, byte⟩ := b
      have hfull := hrest.full hscript
      have hroom := job.room o
      have hlen := (hs o).length_le
      rw [unread, hscript, bytesOf_cons, if_pos rfl, List.length_append, List.length_cons] at hlen
      omega
  obtain ⟨-, hdone, hreport⟩ :=
    hrest.reported hcoherent hjob hplain (.inl hclosed) (hrest.exited hscript)
  have hall : ∀ out, s.collected out = written job out := by
    intro out
    have hbefore := (hs out).before
    rw [hdone out] at hbefore
    have hnil : unread s out = [] := hbefore
    have hconserved := hcoherent.conserved out
    rw [hnil, List.append_nil] at hconserved
    rw [State.collected, hdone out]
    exact hconserved
  exact ⟨_, hreport, hall .stdout, hall .stderr⟩

/-- At least two bytes to read, and one when the reader is about to stop. -/
abbrev Losing (job : Job) (out : Output) : State → Prop :=
  Gone job out (fun bytes => 2 ≤ bytes.length) (fun bytes => bytes ≠ [])

theorem Losing.step (hplain : job.request.interactive = false) (hs : Losing job out s)
    (h : Change job s 0 s') : Losing job out s' := by
  refine Gone.step hs hplain h ?_ (fun hfew => absurd hfew (by decide))
  intro pipe more size hfew hpipe _ hsize
  rw [List.length_append] at hfew
  rw [← List.length_pos_iff, List.length_append, List.length_drop]
  omega

theorem not_reported_of_losing (hplain : job.request.interactive = false) (hout : out ≠ .pty)
    (hs : Losing job out s) : ¬Reported job s := by
  rintro ⟨report, hreport, hstdout, hstderr⟩
  rw [hs.coherent.reported hplain] at hreport
  split at hreport
  · next hr =>
    cases hreport
    have hdone := hs.coherent.joined hplain out (joined_of_reported hr hout)
    have hlost : unread s out ≠ [] := by
      have hbefore := hs.before
      rw [hdone] at hbefore
      exact hbefore
    have hcollected : s.collected out = written job out := by
      cases out with
      | stdout => exact hstdout
      | stderr => exact hstderr
      | pty => exact absurd rfl hout
    rw [State.collected, hdone, ← hs.coherent.conserved out] at hcollected
    exact hlost (List.self_eq_append_right.mp hcollected)
  · cases hreport

theorem exists_losing (hjob : job.Readable) (hplain : job.request.interactive = false)
    (hout : out ≠ .pty) (hs : Losing job out s) :
    ∃ sch : Schedule (machine job) (world s), sch.Fair ∧
      sch.Meets (fun w e => attended w e = true) ∧ ∀ n, ¬Reported job (sch.world n).shared := by
  obtain ⟨sch, hfair, hmeets⟩ := @exists_fair job (fun n => n = 0) hjob rfl s
  have hattended : sch.Meets fun w e => attended w e = true := by
    intro n e he
    have hone := hmeets n e he
    cases e with
    | step c n => rfl
    | call r => exact r.elim
    | cancel c => cases hone
  refine ⟨sch, hfair, hattended, fun n => ?_⟩
  obtain ⟨s', hs', hlosing⟩ := keeps hjob (hmeets.reachable n) hs (fun s n s' hn hs h => by
    cases of_decide_eq_true hn
    exact hs.step hplain h)
  rw [hs']
  exact not_reported_of_losing hplain hout hlosing

theorem draining_dropReceiver (hs : Open job s) (h : withinReach s out = true) :
    Draining job out s.dropReceiver := by
  refine ⟨coherent_dropReceiver hs.coherent, rfl, ?_⟩
  show Before _ _ (s.reader out) (unread s out)
  rw [withinReach] at h
  cases hreader : s.reader out with
  | reading =>
    rw [hreader] at h
    have hfew : (unread s out).length ≤ 1 := of_decide_eq_true h
    exact hfew
  | sending chunk =>
    rw [hreader] at h
    exact List.isEmpty_iff.mp h
  | done e => exact hs.drained out e hreader

theorem losing_dropReceiver (hs : Open job s) (h : withinReach s out = false) :
    Losing job out s.dropReceiver := by
  refine ⟨coherent_dropReceiver hs.coherent, rfl, ?_⟩
  show Before _ _ (s.reader out) (unread s out)
  rw [withinReach] at h
  cases hreader : s.reader out with
  | reading =>
    rw [hreader] at h
    exact Nat.lt_of_not_le (of_decide_eq_false h)
  | sending chunk =>
    rw [hreader] at h
    exact List.isEmpty_eq_false_iff.mp h
  | done e =>
    rw [hreader] at h
    cases h

theorem next_drop (hopen : s.closed = false) :
    next (machine job) (world s) (.cancel 7) = some (world s.dropReceiver) := by
  have hdrop : (machine job).drop s 7 .receiver = some (s.dropReceiver, .receiver) := by
    show (drop s .receiver).map _ = _
    rw [drop, hopen]
    rfl
  have hc : (world s).calls[7]? = some .receiver := rfl
  show ((machine job).drop s 7 .receiver).map _ = _
  rw [hdrop]
  rfl

/-- Whenever the client of a plain stream goes away, the report comes with all the output in
every fair schedule exactly if nothing is left to read where a reader is about to send, and at
most one byte where it is about to read. -/
theorem report_complete_iff {w w' : World State Task} (hjob : job.Readable)
    (hplain : job.request.interactive = false)
    (hw : Reachable (machine job) (fun w e => attended w e = true) (world (start job)) w)
    (hdrop : next (machine job) w (.cancel 7) = some w') :
    (∀ sch : Schedule (machine job) w', sch.Fair → sch.Meets (fun w e => attended w e = true) →
      ∃ n, Reported job (sch.world n).shared) ↔ drainable w.shared = true := by
  obtain ⟨s, rfl, hs⟩ := keeps hjob hw (open_start job) (fun _ _ _ _ hs h => hs.step h)
  rw [next_drop hs.opened] at hdrop
  cases hdrop
  constructor
  · intro hreport
    by_contra hdrain
    obtain ⟨out, hout, hreach⟩ : ∃ out, out ≠ .pty ∧ withinReach s out = false := by
      rw [Bool.not_eq_true, drainable, Bool.and_eq_false_iff] at hdrain
      rcases hdrain with h | h
      · exact ⟨.stdout, by decide, h⟩
      · exact ⟨.stderr, by decide, h⟩
    obtain ⟨sch, hfair, hmeets, hnever⟩ :=
      exists_losing hjob hplain hout (losing_dropReceiver hs hreach)
    obtain ⟨n, hn⟩ := hreport sch hfair hmeets
    exact hnever n hn
  · intro hdrain sch hfair hmeets
    obtain ⟨hstdout, hstderr⟩ := Bool.and_eq_true_iff.mp hdrain
    have hstart : ∀ out, Draining job out s.dropReceiver := by
      intro out
      cases out with
      | stdout => exact draining_dropReceiver hs hstdout
      | stderr => exact draining_dropReceiver hs hstderr
      | pty =>
        refine draining_dropReceiver hs ?_
        rw [withinReach, hs.coherent.absent .pty (pty_not_mem hplain)]
    obtain ⟨n, s', hs', hrest, hstays⟩ := @comes_to_rest job s.dropReceiver
      (fun s => ∀ out, Draining job out s) hjob sch hfair hmeets hstart
      (fun s n s' hs h out => (hs out).step hplain h)
    refine ⟨n, ?_⟩
    rw [hstays n (Nat.le_refl n)]
    exact reported_of_draining hjob hplain hs' hrest

/-- A plain process that writes to stdout and exits, with buffers of one byte. -/
def printing (bytes : List UInt8) : Job where
  pid := 7
  request := {}
  script := bytes.map fun byte => (.stdout, byte)
  status := .ok ⟨some 0, none⟩
  capacity := fun _ => 1
  script_outputs := by simp [outputs]
  room := fun _ => Nat.one_pos

/-- The client goes away when two bytes have been sent and one is left to read. -/
theorem report_complete_last_byte : ∃ w w', Reachable (machine (printing [1, 2, 3]))
      (fun w e => attended w e = true) (world (start (printing [1, 2, 3]))) w ∧
    w.shared.captured .stdout = [1, 2] ∧
    next (machine (printing [1, 2, 3])) w (.cancel 7) = some w' ∧
    ∀ sch : Schedule (machine (printing [1, 2, 3])) w', sch.Fair →
      sch.Meets (fun w e => attended w e = true) →
      ∃ n, Reported (printing [1, 2, 3]) (sch.world n).shared := by
  obtain ⟨w, hw, htest⟩ := @reachable_run_any _ _ _ _ (machine (printing [1, 2, 3])) _ attended
    ([0, 1, 1, 7, 0, 1, 1, 0].map (.step · 0))
    (fun w => w.shared.captured .stdout = [1, 2] ∧ drainable w.shared = true ∧
      (next (machine (printing [1, 2, 3])) w (.cancel 7)).isSome = true)
    (by decide +kernel : (run _ _ (world (start (printing [1, 2, 3]))) _).any _ = true)
  obtain ⟨hsent, hdrain, hdrop⟩ := of_decide_eq_true htest
  obtain ⟨w', hw'⟩ := Option.isSome_iff_exists.mp hdrop
  exact ⟨w, w', hw, hsent, hw', (report_complete_iff (fun _ => rfl) rfl hw hw').mpr hdrain⟩

/-- The client goes away before the first read, and the process is never over. -/
theorem report_lost : ∃ w', next (machine (printing [1, 2, 3]))
      (world (start (printing [1, 2, 3]))) (.cancel 7) = some w' ∧
    ∃ sch : Schedule (machine (printing [1, 2, 3])) w', sch.Fair ∧
      sch.Meets (fun w e => attended w e = true) ∧
      ∀ n, ¬Reported (printing [1, 2, 3]) (sch.world n).shared :=
  ⟨_, next_drop rfl, @exists_losing (printing [1, 2, 3]) _ .stdout (fun _ => rfl) rfl (by decide)
    (losing_dropReceiver (open_start _) (by decide))⟩

end ProcessStreamDrop
