import Firkin.Ext4Types
import Firkin.Interleaving

/-! # The trace recorder

Samples are pushed into a buffer of bounded size and drained from it. A push looks whether the
recorder is closed before it locks the buffer, and closing sets that flag before it drains. -/
namespace TraceRecorder

open Ext4Types Interleaving Multiset List

inductive BenchmarkMetricKind where
  | lifecycleLatency
  | firkinOverhead
  | workloadResource
  deriving DecidableEq

structure BenchmarkSample where
  metric : Str
  kind : BenchmarkMetricKind
  deriving DecidableEq

inductive SampleClass where
  | lifecycle
  | gauge
  deriving DecidableEq

def SampleClass.forSample (sample : BenchmarkSample) : SampleClass :=
  match sample.kind with
  | .lifecycleLatency => .lifecycle
  | .firkinOverhead | .workloadResource => .gauge

structure RecorderStats where
  overflowed : UInt64
  closedDrops : UInt64
  deriving DecidableEq

structure RecordedTrace where
  samples : List BenchmarkSample
  overflowed : UInt64
  stats : RecorderStats
  deriving DecidableEq

structure EnabledRecorder where
  samples : List BenchmarkSample := []
  sampleCap : UInt64
  closed : Bool := false
  overflow : UInt64 := 0
  closedDrops : UInt64 := 0

namespace EnabledRecorder

variable (self : EnabledRecorder)

def stats : RecorderStats := ⟨self.overflow, self.closedDrops⟩
def overflowing : EnabledRecorder := { self with overflow := self.overflow + 1 }

/-- The part of a push that holds the buffer's lock: a full buffer makes room for a lifecycle
sample if it has another one. -/
def pushLocked (sample : BenchmarkSample) : EnabledRecorder :=
  if self.samples.length < self.sampleCap.toNat then
    { self with samples := self.samples ++ [sample] }
  else if SampleClass.forSample sample = .lifecycle then
    match self.samples.findIdx? (SampleClass.forSample · ≠ .lifecycle) with
    | some index => { self.overflowing with samples := self.samples.eraseIdx index ++ [sample] }
    | none => self.overflowing
  else self.overflowing

end EnabledRecorder

inductive Request where
  | sample (sample : BenchmarkSample)
  | drain
  | closeAndDrain

/-- Where a call stands: a push before its check of the flag, before it counts its sample or
before its locked section, a closing call before it sets the flag or joins the samplers, a drain
before it takes the buffer or reads the counters. -/
inductive Phase where
  | checking (sample : BenchmarkSample)
  | dropping (sample : BenchmarkSample)
  | overflowing (sample : BenchmarkSample)
  | storing (sample : BenchmarkSample)
  | pushed
  | closing
  | joining
  | draining
  | reading (samples : List BenchmarkSample)
  | returned (trace : RecordedTrace)
  deriving DecidableEq

inductive Label where
  | check
  | count
  | store
  | close
  | join
  | take
  | read
  deriving DecidableEq

def enter : Request → Phase
  | .sample sample => .checking sample
  | .drain => .draining
  | .closeAndDrain => .closing

def advance (r : EnabledRecorder) : Label → Phase → Option (EnabledRecorder × Phase)
  | .check, .checking sample =>
    some (r, if r.closed then .dropping sample
      else if r.sampleCap = 0 then .overflowing sample else .storing sample)
  | .count, .dropping _ => some ({ r with closedDrops := r.closedDrops + 1 }, .pushed)
  | .count, .overflowing _ => some (r.overflowing, .pushed)
  | .store, .storing sample => some (r.pushLocked sample, .pushed)
  | .close, .closing => some ({ r with closed := true }, .joining)
  | .join, .joining => some (r, .draining)
  | .take, .draining => some ({ r with samples := [] }, .reading r.samples)
  | .read, .reading samples => some (r, .returned ⟨samples, r.overflow, r.stats⟩)
  | _, _ => none

def machine : Machine EnabledRecorder Phase Request Label where
  enter := enter
  advance r _ label p := advance r label p
  drop _ _ _ := none

abbrev Events := List (Event Request Label)
abbrev Worlds := World EnabledRecorder Phase
def start (cap : UInt64) : Worlds := ⟨{ sampleCap := cap }, []⟩
def always : Worlds → Event Request Label → Bool := fun _ _ => true

def submittedBy : Event Request Label → Multiset BenchmarkSample
  | .call (.sample sample) => {sample}
  | _ => 0

def submitted (es : Events) : Multiset BenchmarkSample := (es.map submittedBy).sum

def traced : Phase → Multiset BenchmarkSample
  | .returned trace => trace.samples
  | _ => 0

def returned (calls : List Phase) : Multiset BenchmarkSample := Interleaving.sum traced calls

def Phase.done : Phase → Bool
  | .pushed | .returned _ => true
  | _ => false

/-- Every submitted sample is in one returned trace or counted by one of the counters. -/
def Accounted (es : Events) (w : Worlds) : Prop :=
  ∃ overflowed dropped : Multiset BenchmarkSample,
    submitted es = returned w.calls + overflowed + dropped ∧
      w.shared.overflow = UInt64.ofNat overflowed.card ∧
      w.shared.closedDrops = UInt64.ofNat dropped.card

def Collected (es : Events) : Prop :=
  ∀ before c after, es = before ++ .step c .store :: after → ∃ d, .step d .take ∈ after

def inHand : Phase → Multiset BenchmarkSample
  | .checking sample | .dropping sample | .overflowing sample | .storing sample => {sample}
  | .reading samples => samples
  | .returned trace => trace.samples
  | .pushed | .closing | .joining | .draining => 0

structure Accounts (sub : Multiset BenchmarkSample) (w : Worlds) : Prop where
  split : ∃ overflowed dropped : Multiset BenchmarkSample,
    sub = Interleaving.sum inHand w.calls + w.shared.samples + overflowed + dropped ∧
      w.shared.overflow = UInt64.ofNat overflowed.card ∧
      w.shared.closedDrops = UInt64.ofNat dropped.card
  bounded : w.shared.samples.length ≤ w.shared.sampleCap.toNat
  room : ∀ sample, .storing sample ∈ w.calls → w.shared.sampleCap ≠ 0

/-- One step moves samples between the buffer, the hands and the counters. -/
structure Moves (r : EnabledRecorder) (p : Phase) (r' : EnabledRecorder) (p' : Phase) : Prop where
  split : ∃ overflowed dropped : Multiset BenchmarkSample,
    inHand p + r.samples = inHand p' + r'.samples + overflowed + dropped ∧
      r'.overflow = r.overflow + UInt64.ofNat overflowed.card ∧
      r'.closedDrops = r.closedDrops + UInt64.ofNat dropped.card
  cap : r'.sampleCap = r.sampleCap
  bounded : r.samples.length ≤ r.sampleCap.toNat → r'.samples.length ≤ r'.sampleCap.toNat
  room : ∀ sample, p' = .storing sample → r.sampleCap ≠ 0

section
variable {r : EnabledRecorder}

theorem Moves.quiet (hhand : inHand p + r.samples = inHand p' + r'.samples)
    (hoverflow : r'.overflow = r.overflow) (hdrops : r'.closedDrops = r.closedDrops)
    (hcap : r'.sampleCap = r.sampleCap)
    (hbounded : r.samples.length ≤ r.sampleCap.toNat → r'.samples.length ≤ r'.sampleCap.toNat)
    (hroom : ∀ sample, p' = .storing sample → r.sampleCap ≠ 0) : Moves r p r' p' := by
  refine ⟨⟨0, 0, ?_, ?_, ?_⟩, hcap, hbounded, hroom⟩
  · rw [add_zero, add_zero, hhand]
  · rw [hoverflow]
    simp
  · rw [hdrops]
    simp

theorem moves_overflowing (hp : inHand p = {sample}) : Moves r p r.overflowing .pushed := by
  refine ⟨⟨{sample}, 0, ?_, rfl, ?_⟩, rfl, fun h => h, by rintro _ ⟨⟩⟩
  · rw [hp, inHand, EnabledRecorder.overflowing, zero_add, add_zero, add_comm]
  · exact (UInt64.add_zero _).symm

theorem moves_pushLocked : Moves r (.storing sample) (r.pushLocked sample) .pushed := by
  unfold EnabledRecorder.pushLocked
  split
  · next hroom =>
    refine .quiet ?_ rfl rfl rfl (fun _ => ?_) (by rintro _ ⟨⟩)
    · change {sample} + (r.samples : Multiset BenchmarkSample) = 0 + ↑(r.samples ++ [sample])
      rw [zero_add, add_comm, ← coe_add, coe_singleton]
    · rw [length_append]
      exact hroom
  · split
    · split
      · next index hindex =>
        have hlt : index < r.samples.length := (findIdx?_eq_some_iff_getElem.mp hindex).1
        have hperm := getElem_cons_eraseIdx_perm hlt
        refine ⟨⟨{r.samples[index]}, 0, ?_, rfl, ?_⟩, rfl, fun hbounded => ?_, by rintro _ ⟨⟩⟩
        · change {sample} + (r.samples : Multiset BenchmarkSample) =
            0 + ↑(r.samples.eraseIdx index ++ [sample]) + {r.samples[index]} + 0
          rw [← coe_eq_coe.mpr hperm, ← coe_add, ← cons_coe, ← singleton_add, coe_singleton]
          abel
        · exact (UInt64.add_zero _).symm
        · change (r.samples.eraseIdx index ++ [sample]).length ≤ r.sampleCap.toNat
          rw [length_append, length_eraseIdx_of_lt hlt, length_singleton]
          omega
      · exact moves_overflowing rfl
    · exact moves_overflowing rfl

theorem moves_advance (h : advance r label p = some (r', p')) : Moves r p r' p' := by
  unfold advance at h
  split at h
  · cases h
    by_cases hclosed : r.closed = true
    · rw [if_pos hclosed]
      exact .quiet rfl rfl rfl rfl (fun h => h) (by rintro _ ⟨⟩)
    · rw [if_neg hclosed]
      by_cases hcap : r.sampleCap = 0
      · rw [if_pos hcap]
        exact .quiet rfl rfl rfl rfl (fun h => h) (by rintro _ ⟨⟩)
      · rw [if_neg hcap]
        exact .quiet rfl rfl rfl rfl (fun h => h) (fun _ _ => hcap)
  · next sample =>
    cases h
    refine ⟨⟨0, {sample}, ?_, ?_, rfl⟩, rfl, fun h => h, by rintro _ ⟨⟩⟩
    · rw [inHand, inHand, zero_add, add_zero, add_comm]
    · exact (UInt64.add_zero _).symm
  · cases h
    exact moves_overflowing rfl
  · cases h
    exact moves_pushLocked
  · cases h
    exact .quiet rfl rfl rfl rfl (fun h => h) (by rintro _ ⟨⟩)
  · cases h
    exact .quiet rfl rfl rfl rfl (fun h => h) (by rintro _ ⟨⟩)
  · cases h
    refine .quiet ?_ rfl rfl rfl (fun _ => Nat.zero_le _) (by rintro _ ⟨⟩)
    exact (add_zero _).symm
  · cases h
    exact .quiet rfl rfl rfl rfl (fun h => h) (by rintro _ ⟨⟩)
  · cases h

/-- A locked section of a push leaves something in the buffer. -/
theorem pushLocked_ne_nil (hcap : r.sampleCap ≠ 0) : (r.pushLocked sample).samples ≠ [] := by
  unfold EnabledRecorder.pushLocked
  split
  · simp
  · next hfull =>
    have hsamples : r.samples ≠ [] := by
      intro hnil
      have hzero : r.sampleCap.toNat = 0 := by
        rw [hnil] at hfull
        simpa using hfull
      exact hcap (UInt64.toNat_inj.mp hzero)
    split
    · split
      · simp
      · exact hsamples
    · exact hsamples
end

section
variable {w w' : Worlds}

theorem Accounts.next (h : Accounts sub w) (hn : next machine w e = some w') :
    Accounts (sub + submittedBy e) w' := by
  obtain ⟨⟨overflowed, dropped, hsub, hoverflow, hdrops⟩, hbounded, hroom⟩ := h
  cases e with
  | call request =>
    cases hn
    have hnew : inHand (enter request) = submittedBy (.call request) := by
      cases request with
      | sample sample => rfl
      | drain => rfl
      | closeAndDrain => rfl
    refine ⟨⟨overflowed, dropped, ?_, hoverflow, hdrops⟩, hbounded, fun sample hm => ?_⟩
    · rw [← hnew, hsub, sum_append_one]
      abel
    · rcases mem_append.mp hm with hm | hm
      · exact hroom sample hm
      · cases request with
        | sample | drain | closeAndDrain => cases List.mem_singleton.mp hm
  | step c label =>
    obtain ⟨p, r', p', hp, ha, rfl⟩ := bind_put.mp hn
    obtain ⟨⟨o, d, hhand, ho, hd⟩, hcap, hkeeps, hstoring⟩ := moves_advance ha
    have hsum := sum_set inHand hp p'
    refine ⟨⟨overflowed + o, dropped + d, ?_, ?_, ?_⟩, hkeeps hbounded, fun sample hm => ?_⟩
    · change sub + 0 = _
      rw [add_zero, hsub]
      apply add_right_cancel (b := inHand p)
      calc sum inHand w.calls + w.shared.samples + overflowed + dropped + inHand p
          = sum inHand w.calls + (inHand p + w.shared.samples) + overflowed +
              dropped := by abel
        _ = sum inHand w.calls + inHand p' + r'.samples + (overflowed + o) +
              (dropped + d) := by
          rw [hhand]
          abel
        _ = sum inHand (w.calls.set c p') + inHand p + r'.samples +
              (overflowed + o) + (dropped + d) := by rw [hsum]
        _ = sum inHand (w.calls.set c p') + r'.samples + (overflowed + o) +
              (dropped + d) + inHand p := by abel
    · rw [ho, hoverflow, card_add, UInt64.ofNat_add]
    · rw [hd, hdrops, card_add, UInt64.ofNat_add]
    · rw [hcap]
      rcases mem_or_eq_of_mem_set hm with hm | hm
      · exact hroom sample hm
      · exact hstoring sample hm.symm
  | cancel c =>
    obtain ⟨p, r', p', hp, ha, rfl⟩ := bind_put.mp hn
    cases ha

theorem accounts_start (cap : UInt64) : Accounts 0 (start cap) where
  split := ⟨0, 0, rfl, rfl, rfl⟩
  bounded := Nat.zero_le _
  room _ hm := absurd hm not_mem_nil

theorem run_cons (h : run machine always w (e :: es) = some w') :
    ∃ w₁, next machine w e = some w₁ ∧ run machine always w₁ es = some w' := by
  rw [run, foldlM_cons, Option.bind_eq_bind, Option.bind_eq_some_iff] at h
  exact h

theorem Accounts.run (h : Accounts sub w) (hrun : run machine always w es = some w') :
    Accounts (sub + submitted es) w' := by
  induction es generalizing w sub with
  | nil =>
    cases hrun
    rw [submitted, List.map_nil, List.sum_nil, add_zero]
    exact h
  | cons e es ih =>
    obtain ⟨w₁, hfirst, hrest⟩ := run_cons hrun
    have hall := ih (h.next hfirst) hrest
    rwa [add_assoc] at hall

theorem collected_nil : Collected [] := by
  intro before c after heq
  cases before with
  | nil | cons => cases heq

theorem collected_cons : Collected (e :: es) ↔
    ((∃ c, e = .step c .store) → ∃ d, .step d .take ∈ es) ∧ Collected es := by
  constructor
  · intro h
    constructor
    · rintro ⟨c, rfl⟩
      exact h [] c es rfl
    · intro before c after heq
      exact h (e :: before) c after (by rw [heq, cons_append])
  · rintro ⟨hfirst, hrest⟩ before c after heq
    cases before with
    | nil =>
      cases heq
      exact hfirst ⟨c, rfl⟩
    | cons e' before =>
      cases heq
      exact hrest before c after rfl

theorem samples_next (h : Accounts sub w) (hn : next machine w e = some w') :
    ((∃ c, e = .step c .store) → w'.shared.samples ≠ []) ∧
      ((∃ c, e = .step c .take) → w'.shared.samples = []) ∧
      ((∀ c, e ≠ .step c .store) → (∀ c, e ≠ .step c .take) →
        w'.shared.samples = w.shared.samples) := by
  cases e with
  | call request =>
    cases hn
    refine ⟨?_, ?_, fun _ _ => rfl⟩
    · rintro ⟨c, ⟨⟩⟩
    · rintro ⟨c, ⟨⟩⟩
  | cancel c =>
    obtain ⟨p, r', p', hp, ha, rfl⟩ := bind_put.mp hn
    cases ha
  | step c label =>
    obtain ⟨p, r', p', hp, ha, rfl⟩ := bind_put.mp hn
    refine ⟨?_, ?_, fun hstore htake => ?_⟩
    · rintro ⟨c', ⟨⟩⟩
      cases p with
      | storing sample =>
        cases ha
        exact pushLocked_ne_nil (h.room sample (mem_of_getElem? hp))
      | _ => cases ha
    · rintro ⟨c', ⟨⟩⟩
      cases p with
      | draining =>
        cases ha
        rfl
      | _ => cases ha
    · change advance w.shared label p = some (r', p') at ha
      unfold advance at ha
      split at ha
      · cases ha
        rfl
      · cases ha
        rfl
      · cases ha
        rfl
      · exact absurd rfl (hstore c)
      · cases ha
        rfl
      · cases ha
        rfl
      · exact absurd rfl (htake c)
      · cases ha
        rfl
      · cases ha

/-- The buffer is empty in the end if it was so at first or was drained, and every push was
followed by a drain. -/
theorem samples_run (h : Accounts sub w) (hrun : run machine always w es = some w') :
    w'.shared.samples = [] ↔
      (w.shared.samples = [] ∨ ∃ d, .step d .take ∈ es) ∧ Collected es := by
  induction es generalizing w sub with
  | nil =>
    cases hrun
    simp [collected_nil]
  | cons e es ih =>
    obtain ⟨w₁, hfirst, hrest⟩ := run_cons hrun
    obtain ⟨hstore, htake, hother⟩ := samples_next h hfirst
    rw [ih (h.next hfirst) hrest, collected_cons]
    by_cases hs : ∃ c, e = .step c .store
    · obtain ⟨c, rfl⟩ := hs
      have hfull := hstore ⟨c, rfl⟩
      simp [hfull]
      tauto
    · by_cases ht : ∃ c, e = .step c .take
      · obtain ⟨c, rfl⟩ := ht
        have hempty := htake ⟨c, rfl⟩
        simp [hempty]
      · have hsame := hother (fun c he => hs ⟨c, he⟩) (fun c he => ht ⟨c, he⟩)
        have hmem : (∃ d, Event.step d .take ∈ e :: es) ↔ ∃ d, Event.step d .take ∈ es := by
          constructor
          · rintro ⟨d, hd⟩
            rcases mem_cons.mp hd with he | hd
            · exact absurd ⟨d, he.symm⟩ ht
            · exact ⟨d, hd⟩
          · rintro ⟨d, hd⟩
            exact ⟨d, mem_cons_of_mem _ hd⟩
        rw [hsame, hmem]
        simp [hs]
end

theorem inHand_of_done (h : p.done = true) : inHand p = traced p := by
  cases p with
  | pushed => rfl
  | returned trace => rfl
  | _ => cases h

theorem returned_of_done (h : ∀ p ∈ calls, p.done = true) : sum inHand calls = returned calls := by
  exact congrArg List.sum (List.map_congr_left fun p hp => inHand_of_done (h p hp))

/-- With all calls returned, the samples are accounted for exactly if the buffer is empty: fewer
samples than the counters' range are in it. -/
theorem accounted_iff_empty (h : Accounts (submitted es) w)
    (hdone : ∀ p ∈ w.calls, p.done = true) : Accounted es w ↔ w.shared.samples = [] := by
  obtain ⟨⟨overflowed, dropped, hsub, hoverflow, hdrops⟩, hbounded, -⟩ := h
  rw [returned_of_done hdone] at hsub
  constructor
  · rintro ⟨overflowed', dropped', hsub', hoverflow', hdrops'⟩
    have hcards := congrArg card (hsub.symm.trans hsub')
    simp only [card_add, coe_card] at hcards
    have ho := UInt64.toNat_inj.mpr (hoverflow.symm.trans hoverflow')
    have hd := UInt64.toNat_inj.mpr (hdrops.symm.trans hdrops')
    rw [UInt64.toNat_ofNat', UInt64.toNat_ofNat'] at ho hd
    have hcap := w.shared.sampleCap.toNat_lt
    apply length_eq_zero_iff.mp
    omega
  · intro hempty
    refine ⟨overflowed, dropped, ?_, hoverflow, hdrops⟩
    rw [hsub, hempty]
    simp

/-- When all calls of a run have returned, every sample is in a returned trace or counted exactly
if no locked section of a push comes after the last one of a drain. -/
theorem accounted_iff (cap : UInt64) (es : Events) (w : Worlds)
    (hrun : run machine always (start cap) es = some w) (hdone : ∀ p ∈ w.calls, p.done = true) :
    Accounted es w ↔ Collected es := by
  have haccounts := (accounts_start cap).run hrun
  rw [zero_add] at haccounts
  have hsamples := samples_run (accounts_start cap) hrun
  rw [accounted_iff_empty haccounts hdone, hsamples]
  exact and_iff_right (.inl rfl)

def latency : BenchmarkSample := ⟨str "boot", .lifecycleLatency⟩

/-- A push, and closing after it or between its check and its section. -/
def pushThenClose : Events :=
  [.call (.sample latency), .call .closeAndDrain, .step 0 .check, .step 0 .store, .step 1 .close,
    .step 1 .join, .step 1 .take, .step 1 .read]

def closeDuringPush : Events :=
  [.call (.sample latency), .call .closeAndDrain, .step 0 .check, .step 1 .close, .step 1 .join,
    .step 1 .take, .step 1 .read, .step 0 .store]

def afterPushThenClose : Worlds :=
  ⟨{ sampleCap := 8, closed := true }, [.pushed, .returned ⟨[latency], 0, ⟨0, 0⟩⟩]⟩

def afterCloseDuringPush : Worlds :=
  ⟨{ samples := [latency], sampleCap := 8, closed := true }, [.pushed, .returned ⟨[], 0, ⟨0, 0⟩⟩]⟩

theorem accounted_push_then_close : Accounted pushThenClose afterPushThenClose := by
  refine (accounted_iff 8 pushThenClose afterPushThenClose rfl (by decide +kernel)).mpr ?_
  simp [pushThenClose, collected_cons, collected_nil]

/-- The sample of the push is neither returned nor counted. -/
theorem sample_vanishes :
    run machine always (start 8) closeDuringPush = some afterCloseDuringPush ∧
      (∀ p ∈ afterCloseDuringPush.calls, p.done = true) ∧
      ¬Accounted closeDuringPush afterCloseDuringPush := by
  have hrun : run machine always (start 8) closeDuringPush = some afterCloseDuringPush := rfl
  have hdone : ∀ p ∈ afterCloseDuringPush.calls, p.done = true := by decide +kernel
  have haccounts := (accounts_start 8).run hrun
  rw [zero_add] at haccounts
  refine ⟨hrun, hdone, ?_⟩
  rw [accounted_iff_empty haccounts hdone]
  exact cons_ne_nil _ _

section
namespace EnabledRecorder

variable (self : EnabledRecorder)

/-- A push that nothing else interleaves with. -/
def push (sample : BenchmarkSample) : EnabledRecorder :=
  if self.closed then { self with closedDrops := self.closedDrops + 1 }
  else if self.sampleCap = 0 then self.overflowing
  else self.pushLocked sample

def drain : RecordedTrace × EnabledRecorder :=
  (⟨self.samples, self.overflow, self.stats⟩, { self with samples := [] })

end EnabledRecorder

def isLifecycle (sample : BenchmarkSample) : Bool := SampleClass.forSample sample = .lifecycle

/-- What a buffer of `cap` samples keeps of `pushed`, and how often it overflows. -/
structure Retains (cap : Nat) (overflow : UInt64) (pushed samples : List BenchmarkSample)
    (overflowed : UInt64) : Prop where
  bounded : samples.length ≤ cap
  lifecycle : samples.filter isLifecycle = (pushed.filter isLifecycle).take cap
  gauges : ∀ sample ∈ samples, isLifecycle sample = false → (pushed.filter isLifecycle).length ≤ cap
  ordered : samples.Sublist pushed
  counted : overflowed = overflow + UInt64.ofNat (pushed.length - samples.length)

variable {r : EnabledRecorder}
  {pushed : List BenchmarkSample}

theorem counted_next (hle : m ≤ n) (h : r.overflow = overflow + UInt64.ofNat (n - m)) :
    r.overflowing.overflow = overflow + UInt64.ofNat (n + 1 - m) := by
  rw [EnabledRecorder.overflowing, h, Nat.sub_add_comm hle, UInt64.ofNat_add, UInt64.add_assoc]
  rfl

/-- The last sample is stored behind what is left of the others. -/
theorem Retains.store {samples rest count count'} (h : Retains cap overflow pushed samples count)
    (hrest : rest.Sublist samples) (hroom : rest.length < cap)
    (hkept : rest.filter isLifecycle = samples.filter isLifecycle)
    (hcounted : count' = overflow + UInt64.ofNat (pushed.length - rest.length)) :
    Retains cap overflow (pushed ++ [sample]) (rest ++ [sample]) count' := by
  have hle := rest.length_filter_le isLifecycle
  rw [hkept, h.lifecycle, length_take] at hle
  have hone : ([sample].filter isLifecycle).length ≤ 1 := length_filter_le _ _
  have hlen : ((pushed ++ [sample]).filter isLifecycle).length ≤ cap := by
    rw [filter_append, length_append]
    omega
  refine ⟨by simpa using hroom, ?_, fun _ _ _ => hlen,
    (hrest.trans h.ordered).append (List.Sublist.refl _), ?_⟩
  · rw [take_of_length_le hlen, filter_append, filter_append, hkept, h.lifecycle,
      take_of_length_le (by omega)]
  · rwa [length_append, length_append, Nat.add_sub_add_right]

theorem Retains.pushLocked (h : Retains r.sampleCap.toNat overflow pushed r.samples r.overflow) :
    Retains r.sampleCap.toNat overflow (pushed ++ [sample]) (r.pushLocked sample).samples
      (r.pushLocked sample).overflow := by
  have hsub := h.ordered.length_le
  have hbounded := h.bounded
  have hover := counted_next hsub h.counted
  unfold EnabledRecorder.pushLocked
  split
  · next hroom => exact h.store (List.Sublist.refl _) hroom rfl h.counted
  · next hfull =>
    split
    · next hsample =>
      split
      · next index hindex =>
        obtain ⟨hlt, hgauge, -⟩ := findIdx?_eq_some_iff_getElem.mp hindex
        have hlen := length_eraseIdx_of_lt hlt
        have hgauge : ¬isLifecycle r.samples[index] = true := by simpa [isLifecycle] using hgauge
        refine h.store (eraseIdx_sublist _ _) (by omega) ?_ ?_
        · have hsplit : r.samples.take index ++ r.samples[index] :: r.samples.drop (index + 1) =
            r.samples := by simp
          conv_rhs => rw [← hsplit]
          rw [eraseIdx_eq_take_drop_succ, filter_append, filter_append, filter_cons_of_neg hgauge]
        · rwa [hlen, show pushed.length - (r.samples.length - 1) =
            pushed.length + 1 - r.samples.length by omega]
      · next hnone =>
        have hall : ∀ s ∈ r.samples, isLifecycle s = true := by
          simpa [isLifecycle] using findIdx?_eq_none_iff.mp hnone
        have hcap : r.sampleCap.toNat ≤ (pushed.filter isLifecycle).length := by
          have hlife := congrArg length h.lifecycle
          rw [filter_eq_self.mpr hall, length_take] at hlife
          omega
        refine ⟨hbounded, ?_, fun s hs hg => ?_, h.ordered.trans (sublist_append_left _ _),
          by rwa [length_append]⟩
        · rw [filter_append, take_append_of_le_length hcap]
          exact h.lifecycle
        · rw [hall s hs] at hg
          cases hg
    · next hsample =>
      have hgauge : [sample].filter isLifecycle = [] :=
        filter_cons_of_neg (by simpa [isLifecycle] using hsample)
      refine ⟨hbounded, ?_, ?_, h.ordered.trans (sublist_append_left _ _), by rwa [length_append]⟩
      all_goals rw [filter_append, hgauge, append_nil]
      · exact h.lifecycle
      · exact h.gauges

theorem pushLocked_closed : (r.pushLocked sample).closed = r.closed := by
  unfold EnabledRecorder.pushLocked
  split
  · rfl
  · split
    · split <;> rfl
    · rfl

theorem push_open (hopen : r.closed = false) (h : r.samples.length ≤ r.sampleCap.toNat) :
    r.push sample = r.pushLocked sample := by
  rw [EnabledRecorder.push, if_neg (by simp [hopen])]
  by_cases hcap : r.sampleCap = 0
  · have hnil : r.samples = [] := by simpa [hcap] using h
    rw [if_pos hcap, EnabledRecorder.pushLocked, hnil]
    simp [hcap]
  · rw [if_neg hcap]

/-- Between two drains of a recorder that is not closed: the first lifecycle samples are kept, and
gauges only as long as all of them are. -/
theorem eviction_policy (r : EnabledRecorder) (pushed : List BenchmarkSample) :
    let trace := (pushed.foldl EnabledRecorder.push { r with closed := false }.drain.2).drain.1
    Retains r.sampleCap.toNat r.overflow pushed trace.samples trace.overflowed := by
  have hall : ∃ r', pushed.foldl EnabledRecorder.push { r with closed := false }.drain.2 = r' ∧
      r'.sampleCap = r.sampleCap ∧ r'.closed = false ∧
      Retains r.sampleCap.toNat r.overflow pushed r'.samples r'.overflow := by
    induction pushed using reverseRecOn with
    | nil => exact ⟨_, rfl, rfl, rfl, Nat.zero_le _, by simp [EnabledRecorder.drain],
        by simp [EnabledRecorder.drain], List.Sublist.refl _, (UInt64.add_zero _).symm⟩
    | append_singleton pushed sample ih =>
      obtain ⟨r', hfold, hcap, hopen, h⟩ := ih
      rw [← hcap] at h
      rw [List.foldl_append, hfold, List.foldl_cons, List.foldl_nil, push_open hopen h.bounded,
        ← hcap]
      exact ⟨_, rfl, moves_pushLocked.cap, pushLocked_closed.trans hopen, h.pushLocked⟩
  obtain ⟨r', hfold, -, -, h⟩ := hall
  rwa [hfold]
end

end TraceRecorder
