import Firkin.ProcessTable

/-! # Delivery to interactive processes

An interactive process is in the table or with the one call that has taken it out. While it is
out, other calls for it are told that the process is finite. -/
namespace ProcessDelivery

open Ext4Types Interleaving ProcessTable Std Multiset

def heldAt (key : ProcessKey) (p : Phase) : Multiset Nat :=
  match p.held with
  | some (k, handle) => if k = key then {handle} else 0
  | none => 0

def stored (s : Shared) (key : ProcessKey) : Multiset Nat :=
  match s.interactiveProcesses[key]? with
  | some handle => {handle}
  | none => 0

def custody (w : Table) (key : ProcessKey) : Multiset Nat :=
  stored w.shared key + sum (heldAt key) w.calls

def idle (w : Table) (key : ProcessKey) : Bool :=
  w.calls.all fun p => p.held.map Prod.fst ≠ some key

def retaining (w : Table) : Event Request Outcome → Option ProcessKey
  | .step c _ =>
    match w.calls[c]? with
    | some (.recording _ sandboxId _ output (some _)) => some ⟨sandboxId, output.pid⟩
    | _ => none
  | _ => none

/-- No interactive process is recorded under a key that a call has taken out of the table. -/
def freshKeys : Condition := fun w e =>
  match retaining w e with
  | some key => idle w key
  | none => true

variable {s s' : Shared} {p p' : Phase} {w : Table} {key : ProcessKey} {handle : Nat}

theorem heldAt_of_held_none (h : p.held = none) : heldAt key p = 0 := by
  rw [heldAt, h]

theorem heldAt_congr (h : p'.held = p.held) : heldAt key p' = heldAt key p := by
  rw [heldAt, heldAt, h]

theorem heldAt_eq_zero : heldAt key p = 0 ↔ p.held.map Prod.fst ≠ some key := by
  rw [heldAt]
  cases p.held with
  | none => simp
  | some held =>
    by_cases hk : held.1 = key <;> simp [hk]

theorem mem_stored : handle ∈ stored s key ↔ s.interactiveProcesses[key]? = some handle := by
  rw [stored]
  cases s.interactiveProcesses[key]? with
  | none => simp
  | some h => simp [eq_comm]

theorem idle_iff : idle w key = true ↔ sum (heldAt key) w.calls = 0 := by
  rw [idle, List.all_eq_true]
  constructor
  · intro h
    exact sum_eq_zero _ fun p hp => heldAt_eq_zero.mpr (of_decide_eq_true (h p hp))
  · intro h p hp
    obtain ⟨c, hc⟩ := List.mem_iff_getElem?.mp hp
    have hle : heldAt key p ≤ 0 := h ▸ le_sum (heldAt key) hc
    exact decide_eq_true (heldAt_eq_zero.mp (le_zero.mp hle))

def own (s : Shared) (p : Phase) (key : ProcessKey) : Multiset Nat := stored s key + heldAt key p

inductive Change (s : Shared) (p : Phase) (s' : Shared) (p' : Phase) (key : ProcessKey) : Prop where
  | keep (hown : own s' p' key = own s p key) (hretained : s'.retained[key]? = s.retained[key]?)
  | drop (hown : own s' p' key ≤ own s p key) (hretained : s'.retained[key]? = none)
  | place (stream : Bool) (request : StartRequest) (output : ProcessOutput) (handle : Nat)
      (hp : p = .recording stream key.sandboxId request output (some handle))
      (hkey : key.pid = output.pid) (hown : own s' p' key = {handle})
      (hretained : s'.retained[key]? = some handle)

theorem stored_insert (t : TreeMap ProcessKey Nat) (k : ProcessKey) (handle : Nat)
    (h : s'.interactiveProcesses = t.insert k handle) (hs : s.interactiveProcesses = t) :
    stored s' key = if k = key then {handle} else stored s key := by
  rw [stored, stored, h, hs, getElem?_put]
  by_cases hk : k = key
  · rw [if_pos hk, if_pos hk]
  · rw [if_neg hk, if_neg hk]

theorem giveBack_change (hone : (own s p key).card ≤ 1) (hp : p = .returning k handle answer) :
    Change s p (s.giveBack k handle) (.done answer) key := by
  subst hp
  refine .keep ?_ rfl
  have hdone : heldAt key (.done answer) = 0 := rfl
  rw [own, hdone, add_zero, stored_insert s.interactiveProcesses k handle rfl rfl]
  rw [own] at hone ⊢
  have hheld : heldAt key (.returning k handle answer) = if k = key then {handle} else 0 := rfl
  rw [hheld] at hone ⊢
  split
  · next hk =>
    rw [if_pos hk, card_add, card_singleton] at hone
    have hnone : stored s key = 0 := card_eq_zero.mp (by omega)
    rw [hnone, zero_add]
  · rw [add_zero]

theorem take_change (kind : Interaction) (hp : p.held = none)
    (hk : s.interactiveProcesses[k]? = some handle) :
    Change s p { s with interactiveProcesses := s.interactiveProcesses.erase k }
      (.holding kind k handle) key := by
  refine .keep ?_ rfl
  have hheld : heldAt key (.holding kind k handle) = if k = key then {handle} else 0 := rfl
  rw [own, own, heldAt_of_held_none hp, hheld, stored, stored, TreeMap.getElem?_erase]
  by_cases he : k = key
  · subst he
    simp [hk]
  · simp [he]

theorem retain_change (answer : Answer)
    (hp : p = .recording stream sandboxId request output (some handle)) :
    Change s p ((s.record ⟨sandboxId, output.pid⟩ request output).retain
      ⟨sandboxId, output.pid⟩ handle) (.done answer) key := by
  have hheld : heldAt key p = 0 := by rw [hp]; rfl
  have hstored := @stored_insert s ((s.record ⟨sandboxId, output.pid⟩ request output).retain
    ⟨sandboxId, output.pid⟩ handle) key s.interactiveProcesses ⟨sandboxId, output.pid⟩ handle
    rfl rfl
  have hretained : ((s.record ⟨sandboxId, output.pid⟩ request output).retain
      ⟨sandboxId, output.pid⟩ handle).retained[key]? =
      if (⟨sandboxId, output.pid⟩ : ProcessKey) = key then some handle else s.retained[key]? :=
    getElem?_put s.retained _ key handle
  have hdone : heldAt key (.done answer) = 0 := rfl
  by_cases hk : (⟨sandboxId, output.pid⟩ : ProcessKey) = key
  · subst hk
    rw [if_pos rfl] at hstored hretained
    exact .place stream request output handle hp rfl (by rw [own, hstored]; rfl) hretained
  · rw [if_neg hk] at hstored hretained
    exact .keep (by rw [own, own, hdone, hstored, hheld]) hretained

theorem purge_change (sandboxId : Str) (answer : Answer) (hp : p.held = none) :
    Change s p (s.purge sandboxId) (.done answer) key := by
  have hstored : stored (s.purge sandboxId) key =
      if key.sandboxId = sandboxId then 0 else stored s key := by
    rw [stored, stored, Shared.purge, getElem?_purge]
    by_cases hk : key.sandboxId = sandboxId
    · rw [if_pos hk, if_pos hk]
    · rw [if_neg hk, if_neg hk]
  have hretained : (s.purge sandboxId).retained[key]? =
      if key.sandboxId = sandboxId then none else s.retained[key]? :=
    getElem?_purge s.retained sandboxId key
  have hdone : heldAt key (.done answer) = 0 := rfl
  split at hretained
  · next h =>
    rw [if_pos h] at hstored
    exact .drop (by rw [own, hstored]; exact zero_le _) hretained
  · next h =>
    rw [if_neg h] at hstored
    exact .keep (by rw [own, own, hstored, hdone, heldAt_of_held_none hp]) hretained

theorem move_change (h : Move s o p s' p') (hone : (own s p key).card ≤ 1) :
    Change s p s' p' key := by
  cases h with
  | pass locked handles hpending hheld =>
    exact .keep (by rw [own, heldAt_congr hheld]; rfl) rfl
  | record k request output hkey hpending hheld hheld' =>
    refine .keep ?_ rfl
    rw [own, own, heldAt_of_held_none hheld, heldAt_of_held_none hheld']
    rfl
  | retain stream sandboxId request output handle answer hp =>
    exact retain_change answer hp
  | take kind k handle hp hk => exact take_change kind hp hk
  | giveBack k handle answer hp => exact giveBack_change hone hp
  | stop sandboxId output answer hp ho => exact purge_change sandboxId answer (by rw [hp]; rfl)

/-- At most one process of a key is about, and it is the one that was recorded last. -/
structure Kept (w : Table) (key : ProcessKey) : Prop where
  single : (custody w key).card ≤ 1
  retained : ∀ handle, w.shared.retained[key]? = some handle → handle ∈ custody w key

theorem kept_initial (active : TreeMap Str Nat) : Kept (initial active) key where
  single := by simp [custody, stored, initial, Interleaving.sum]
  retained handle h := by simp [initial] at h

theorem Kept.call (h : Kept w key) (r : Request) :
    Kept ⟨w.shared, w.calls ++ [machine.enter r]⟩ key := by
  have hsame : custody ⟨w.shared, w.calls ++ [machine.enter r]⟩ key = custody w key := by
    have hnew : heldAt key (machine.enter r) = 0 := by cases r <;> rfl
    rw [custody, custody, sum_append_one, hnew, add_zero]
  exact ⟨hsame ▸ h.single, fun handle hr => hsame ▸ h.retained handle hr⟩

/-- A step changes the custody of a key by what its call changes. -/
theorem custody_set (hp : w.calls[c]? = some p) (s' : Shared) (p' : Phase) :
    custody ⟨s', w.calls.set c p'⟩ key + own w.shared p key = custody w key + own s' p' key := by
  have hsum := sum_set (heldAt key) hp p'
  calc custody ⟨s', w.calls.set c p'⟩ key + own w.shared p key
      = stored s' key + stored w.shared key +
          (sum (heldAt key) (w.calls.set c p') + heldAt key p) := by
        simp only [custody, own]; abel
    _ = stored s' key + stored w.shared key + (sum (heldAt key) w.calls + heldAt key p') := by
        rw [hsum]
    _ = custody w key + own s' p' key := by simp only [custody, own]; abel

theorem own_le_custody {c : Nat} (hp : w.calls[c]? = some p) : own w.shared p key ≤ custody w key :=
  add_le_add_right (le_sum (heldAt key) hp) _

theorem freshKeys_idle (hok : freshKeys w (.step c o) = true)
    (hp : w.calls[c]? = some (.recording stream sandboxId request output (some handle))) :
    idle w ⟨sandboxId, output.pid⟩ = true := by
  have hretaining : retaining w (.step c o) = some ⟨sandboxId, output.pid⟩ := by
    rw [retaining, hp]
  rwa [freshKeys, hretaining] at hok

theorem Kept.step (h : Kept w key) (hok : freshKeys w (.step c o) = true)
    (hp : w.calls[c]? = some p) (ha : machine.advance w.shared c o p = some (s', p')) :
    Kept ⟨s', w.calls.set c p'⟩ key := by
  have hset := @custody_set p w key c hp s' p'
  have hle : (own w.shared p key).card ≤ 1 :=
    (card_le_card (own_le_custody hp)).trans h.single
  cases move_change (advance_move ha) hle with
  | keep hown hretained =>
    rw [hown] at hset
    have hsame := add_right_cancel hset
    exact ⟨hsame ▸ h.single, fun handle hr => hsame ▸ h.retained handle (hretained ▸ hr)⟩
  | drop hown hretained =>
    refine ⟨?_, fun handle hr => ?_⟩
    · have hcard := congrArg card hset
      have hless := card_le_card hown
      rw [card_add, card_add] at hcard
      have := h.single
      omega
    · cases hretained.symm.trans hr
  | place stream request output handle hphase hpid hown hretained =>
    -- nobody else has the key, so all of its custody was the call's own
    have hidle : sum (heldAt key) w.calls = 0 := by
      have hkey : (⟨key.sandboxId, output.pid⟩ : ProcessKey) = key := by rw [← hpid]
      exact idle_iff.mp (hkey ▸ freshKeys_idle hok (hphase ▸ hp))
    have hheld : heldAt key p = 0 := by rw [hphase]; rfl
    have hall : custody w key = own w.shared p key := by rw [custody, own, hidle, hheld]
    have hnew : custody ⟨s', w.calls.set c p'⟩ key = {handle} := by
      rw [hall, add_comm, hown] at hset
      exact add_left_cancel hset
    refine ⟨by rw [hnew]; simp, fun handle' hr => ?_⟩
    cases hretained.symm.trans hr
    rw [hnew]
    exact mem_singleton_self _

theorem kept_of_reached (h : Reached active freshKeys w) : Kept w key :=
  h.keeps (I := fun w => Kept w key) (kept_initial active) (fun _ r hw _ => hw.call r)
    (fun _ _ _ _ _ _ hw hok hp ha => hw.step hok hp ha) (fun _ _ _ _ _ _ _ _ ha => by cases ha)

def delivered (w : Table) (c : Nat) (kind : Interaction) (key : ProcessKey) (handle : Nat) : Prop :=
  ∀ o, ∃ w', next machine w (.step c o) = some w' ∧ w'.calls[c]? = some (.holding kind key handle)

theorem takeStep_stored {kind sandbox selector record}
    (hsel : select s sandbox selector = .ok (key, record)) :
    (takeStep s kind sandbox selector).2 = .holding kind key handle ↔
      s.interactiveProcesses[key]? = some handle := by
  rw [takeStep, takeInteractiveProcess_select hsel]
  cases s.interactiveProcesses[key]? with
  | none => simp [finiteProcessError]
  | some h => simp

theorem delivered_iff_stored {c : Nat} {kind sandbox selector record}
    (hc : w.calls[c]? = some (.taking kind sandbox selector))
    (hsel : select w.shared sandbox selector = .ok (key, record)) :
    delivered w c kind key handle ↔ w.shared.interactiveProcesses[key]? = some handle := by
  have hnext : ∀ o, next machine w (.step c o) =
      some (w.put c (takeStep w.shared kind sandbox selector)) := by
    intro o
    rw [next, hc]
    rfl
  have hcall : (w.put c (takeStep w.shared kind sandbox selector)).calls[c]? =
      some (takeStep w.shared kind sandbox selector).2 :=
    getElem?_set_at hc
  rw [← @takeStep_stored w.shared key handle kind _ _ _ hsel]
  constructor
  · intro h
    obtain ⟨w', hw', hholding⟩ := h (.error [])
    rw [hnext] at hw'
    cases hw'
    rw [hcall] at hholding
    exact Option.some.inj hholding
  · intro h o
    exact ⟨_, hnext o, hcall.trans (congrArg some h)⟩

/-- In every run that records no process under a key that a call has taken out, a call for a
retained process reaches it exactly when no other call has taken it out. -/
theorem delivered_iff {active : TreeMap Str Nat} {c : Nat} {kind : Interaction}
    {sandbox : Option Str} {selector : ProcessSelector} {record : ProcessRecord}
    (h : Reached active freshKeys w)
    (hc : w.calls[c]? = some (.taking kind sandbox selector))
    (hsel : select w.shared sandbox selector = .ok (key, record))
    (hretained : w.shared.retained[key]? = some handle) :
    delivered w c kind key handle ↔ idle w key = true := by
  have hkept : Kept w key := kept_of_reached h
  rw [delivered_iff_stored hc hsel, idle_iff, ← mem_stored]
  have hmem := hkept.retained handle hretained
  have hone := hkept.single
  rw [custody] at hmem hone
  constructor
  · intro hstored
    have hpos : 0 < (stored w.shared key).card := card_pos_iff_exists_mem.mpr ⟨_, hstored⟩
    rw [card_add] at hone
    exact card_eq_zero.mp (by omega)
  · intro hidle
    rwa [hidle, add_zero] at hmem

/-- An interactive process is started, and a connect and a signal for it come in. -/
def connectAndSignal : List (Event Request Outcome) :=
  interactiveStart ++
    [.call (.interact .connect none (.pid 7)), .call (.interact .signal none (.pid 7))]

def process : ProcessKey := ⟨str "sb", 7⟩

theorem delivered_signal :
    ∃ w, Reached oneSandbox freshKeys w ∧ delivered w 2 .signal process 0 := by
  have hrun : (run machine freshKeys (initial oneSandbox) connectAndSignal).any (fun w =>
      decide (w.calls[2]? = some (.taking .signal none (.pid 7)) ∧
        select w.shared none (.pid 7) = .ok (process, ⟨7, none, { pid := 7 }⟩) ∧
        w.shared.retained[process]? = some 0 ∧ idle w process = true)) = true := by decide +kernel
  obtain ⟨w, hw, htest⟩ := reachable_run_any hrun
  obtain ⟨hc, hsel, hretained, hidle⟩ := of_decide_eq_true htest
  exact ⟨w, hw, (delivered_iff hw hc hsel hretained).mpr hidle⟩

/-- The connect waits for the process and the signal is told that the process has exited. -/
theorem signal_lost_during_connect : ∃ w, Reached oneSandbox (fun _ _ => true) w ∧
    w.shared.retained[process]? = some 0 ∧ process.sandboxId ∈ w.shared.active ∧
    w.calls[1]? = some (.holding .connect process 0) ∧
    w.calls[2]? = some (.done (.error (.runtime (str ("Firkin RuntimeAdapter process 7 is finite" ++
      " and has already exited and cannot be signaled"))))) := by
  have hrun : (run machine (fun _ _ => true) (initial oneSandbox) (connectAndSignal ++
      [.step 1 answered, .step 2 answered, .step 2 answered])).any (fun w =>
        decide (w.shared.retained[process]? = some 0 ∧ process.sandboxId ∈ w.shared.active ∧
          w.calls[1]? = some (.holding .connect process 0) ∧
          w.calls[2]? = some (.done (.error (.runtime (str
            ("Firkin RuntimeAdapter process 7 is finite" ++
              " and has already exited and cannot be signaled"))))))) = true := by decide +kernel
  obtain ⟨w, hw, htest⟩ := reachable_run_any hrun
  exact ⟨w, hw, of_decide_eq_true htest⟩

end ProcessDelivery
