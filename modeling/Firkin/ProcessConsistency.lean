import Firkin.ProcessTable

/-! # Consistency of the process table

The keys of both process tables belong to active sandboxes as long as no sandbox is stopped
while a call may still insert for it. -/
namespace ProcessConsistency

open Ext4Types Interleaving ProcessTable Std TreeMap

structure Consistent (s : Shared) : Prop where
  processes : ∀ key ∈ s.processes, key.sandboxId ∈ s.active
  interactive : ∀ key ∈ s.interactiveProcesses, key.sandboxId ∈ s.active

def stopped (w : Table) : Event Request Outcome → Option Str
  | .step c (.ok _) =>
    match w.calls[c]? with
    | some (.stopping sandboxId) => some sandboxId
    | _ => none
  | _ => none

def quietStops : Condition := fun w e =>
  match stopped w e with
  | some sandboxId => w.calls.all fun p => p.pending ≠ some sandboxId
  | none => true

variable {s : Shared}

theorem Consistent.record (hs : Consistent s) (hkey : key.sandboxId ∈ s.active)
    (request : StartRequest) (output : ProcessOutput) :
    Consistent (s.record key request output) where
  processes k hk := by
    rcases mem_insert.mp hk with he | hk
    · exact Std.compare_eq_iff_eq.mp he ▸ hkey
    · exact hs.processes k hk
  interactive := hs.interactive

theorem Consistent.giveBack (hs : Consistent s)
    (hkey : key.sandboxId ∈ s.active) (handle : Nat) : Consistent (s.giveBack key handle) where
  processes := hs.processes
  interactive k hk := by
    rcases mem_insert.mp hk with he | hk
    · exact Std.compare_eq_iff_eq.mp he ▸ hkey
    · exact hs.interactive k hk

theorem Consistent.purge (hs : Consistent s) (sandboxId : Str) :
    Consistent (s.purge sandboxId) := by
  have hrest : ∀ {α : Type} (t : TreeMap ProcessKey α),
      (∀ key ∈ t, key.sandboxId ∈ s.active) →
      ∀ key ∈ t.filter fun key _ => key.sandboxId ≠ sandboxId,
        key.sandboxId ∈ s.active.erase sandboxId := by
    intro α t ht key hkey
    rw [mem_iff_isSome_getElem?, getElem?_purge] at hkey
    split at hkey
    · cases hkey
    · next hne =>
      refine mem_erase.mpr ⟨fun he => hne (Std.compare_eq_iff_eq.mp he).symm, ht key ?_⟩
      exact mem_iff_isSome_getElem?.mpr hkey
  exact ⟨hrest _ hs.processes, hrest _ hs.interactive⟩

/-- A step of a call whose sandbox is active keeps both the tables and that. -/
theorem Consistent.move (hs : Consistent s) (h : Move s o p s' p')
    (hp : ∀ id, p.pending = some id → id ∈ s.active) :
    Consistent s' ∧ ∀ id, p'.pending = some id → id ∈ s'.active := by
  cases h with
  | pass locked handles hpending hheld =>
    refine ⟨⟨hs.processes, hs.interactive⟩, fun id hid => ?_⟩
    exact (hpending id hid).elim (hp id) fun hactive => hactive
  | record key request output hkey hpending hheld hheld' =>
    exact ⟨hs.record (hp _ hkey) request output, fun id hid => hp id (hpending id hid)⟩
  | retain stream sandboxId request output handle answer hphase =>
    have hactive : sandboxId ∈ s.active := hp _ (by rw [hphase]; rfl)
    have hrecord : Consistent (s.record ⟨sandboxId, output.pid⟩ request output) :=
      hs.record hactive request output
    have hgive := @Consistent.giveBack _ ⟨sandboxId, output.pid⟩ hrecord hactive handle
    exact ⟨⟨hgive.processes, hgive.interactive⟩, no_pending rfl⟩
  | take kind key handle hheld hkey =>
    have hmem : key ∈ s.interactiveProcesses :=
      mem_iff_isSome_getElem?.mpr (by rw [hkey]; rfl)
    refine ⟨⟨hs.processes, fun k hk => hs.interactive k (mem_of_mem_erase hk)⟩, ?_⟩
    intro id hid
    cases hid
    exact hs.interactive key hmem
  | giveBack key handle answer hphase =>
    exact ⟨hs.giveBack (hp _ (by rw [hphase]; rfl)) handle, no_pending rfl⟩
  | stop sandboxId output answer hphase ho => exact ⟨hs.purge sandboxId, no_pending rfl⟩

theorem active_of_move {id : Str} (h : Move s o p s' p') (hid : id ∈ s.active) :
    id ∈ s'.active ∨ p = .stopping id ∧ ∃ output, o = .ok output := by
  cases h with
  | stop sandboxId output answer hphase ho =>
    by_cases he : sandboxId = id
    · exact .inr ⟨he ▸ hphase, output, ho⟩
    · exact .inl (mem_erase.mpr ⟨fun h => he (Std.compare_eq_iff_eq.mp h), hid⟩)
  | pass | record | retain | take | giveBack => exact .inl hid

structure Sound (w : Table) : Prop where
  tables : Consistent w.shared
  calls : ∀ (c : Nat) (p : Phase), w.calls[c]? = some p →
    ∀ id, p.pending = some id → id ∈ w.shared.active

theorem sound_initial (active : TreeMap Str Nat) : Sound (initial active) where
  tables := ⟨fun _ h => absurd h not_mem_emptyc, fun _ h => absurd h not_mem_emptyc⟩
  calls _ _ h := by cases h

theorem Sound.call (h : Sound w) (r : Request) :
    Sound ⟨w.shared, w.calls ++ [machine.enter r]⟩ where
  tables := h.tables
  calls c p hp := by
    rcases getElem?_append_one hp with rfl | hp
    · cases r <;> exact no_pending rfl
    · exact h.calls c p hp

/-- A stop that goes through has no call of its sandbox under way. -/
theorem quietStops_stop {c d : Nat} {sandboxId : Str}
    (hok : quietStops w (.step c (.ok output)) = true)
    (hc : w.calls[c]? = some (.stopping sandboxId)) (hd : w.calls[d]? = some p) :
    p.pending ≠ some sandboxId := by
  have hstop : stopped w (.step c (.ok output)) = some sandboxId := by
    rw [stopped, hc]
  rw [quietStops, hstop] at hok
  exact of_decide_eq_true (List.all_eq_true.mp hok p (List.mem_of_getElem? hd))

theorem Sound.step (h : Sound w) (hok : quietStops w (.step c o) = true)
    (hp : w.calls[c]? = some p) (ha : machine.advance w.shared c o p = some (s', p')) :
    Sound ⟨s', w.calls.set c p'⟩ := by
  have hmove : Move w.shared o p s' p' := advance_move ha
  obtain ⟨htables, hown⟩ := h.tables.move hmove (h.calls c p hp)
  refine ⟨htables, fun d q hq id hid => ?_⟩
  rcases getElem?_set_some hq with ⟨-, rfl⟩ | ⟨-, hq⟩
  · exact hown id hid
  · rcases active_of_move hmove (h.calls d q hq id hid) with hactive | ⟨rfl, output, rfl⟩
    · exact hactive
    · exact absurd hid (quietStops_stop hok hp hq)

theorem sound_of_reached (h : Reached active quietStops w) : Sound w :=
  h.keeps (sound_initial active) (fun _ r hw _ => hw.call r)
    (fun _ _ _ _ _ _ hw hok hp ha => hw.step hok hp ha) (fun _ _ _ _ _ _ _ _ ha => by cases ha)

/-- In every run in which no sandbox is stopped while a call may still insert for it, every
process in the tables belongs to an active sandbox. -/
theorem process_tables_consistent {active : TreeMap Str Nat} {w : Table}
    (h : Reached active quietStops w) : Consistent w.shared :=
  (sound_of_reached h).tables

/-- An interactive process is started and a connect takes it out of the table. -/
def connected : List (Event Request Outcome) :=
  interactiveStart ++ [.call (.interact .connect none (.pid 7)), .step 1 answered]

theorem process_tables_consistent_connected : ∃ w, Reached oneSandbox quietStops w ∧
    w.shared.interactiveProcesses.size = 1 ∧ Consistent w.shared := by
  have hrun : (run machine quietStops (initial oneSandbox) (connected ++
      [.step 1 answered, .step 1 answered])).any (fun w =>
        decide (w.shared.interactiveProcesses.size = 1)) = true := by decide +kernel
  obtain ⟨w, hw, htest⟩ := reachable_run_any hrun
  exact ⟨w, hw, of_decide_eq_true htest, process_tables_consistent hw⟩

/-- The sandbox is stopped while the connect waits; the process is then put back. -/
theorem connect_returns_after_stop : ∃ w, Reached oneSandbox (fun _ _ => true) w ∧
    ¬Consistent w.shared := by
  have hrun : (run machine (fun _ _ => true) (initial oneSandbox) (connected ++
      [.call (.stop (str "sb")), .step 2 answered, .step 1 answered, .step 1 answered])).any
        (fun w => decide ((⟨str "sb", 7⟩ : ProcessKey) ∈ w.shared.interactiveProcesses ∧
          str "sb" ∉ w.shared.active)) = true := by decide +kernel
  obtain ⟨w, hw, htest⟩ := reachable_run_any hrun
  obtain ⟨hkey, hactive⟩ := of_decide_eq_true htest
  exact ⟨w, hw, fun h => hactive (h.interactive _ hkey)⟩

end ProcessConsistency
