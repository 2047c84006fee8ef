import Firkin.LocalBackend

/-! # Expiry of sandboxes

`LifecycleScheduler::tick`: sandboxes past their deadline are paused or deleted one after the
other, in the order of their ids, and the state is saved when that succeeded. The first adapter
call that fails ends the pass. -/
namespace Lifecycle

open Ext4Types E2bTypes SortedTable FaultMonad LocalBackend List
open SandboxRegistry (LocalSandboxRegistry SandboxRecord)

/-- A backend and its state file, of which nothing is known here but how it is written. -/
structure Server (φ : Type) where
  backend : LocalRuntimeBackend
  file : φ

/-- What writing the state leaves in the file; there may be no state file. -/
abbrev Store (φ : Type) := Option (LocalRuntimeState → φ → Except Str φ)

variable {φ : Type}

def onBackend {α : Type} (method : Api α) : EStateM BackendError (Server φ) α := fun s =>
  match method s.backend with
  | .ok x backend => .ok x { s with backend }
  | .error e backend => .error e { s with backend }

/-- `save_state_json`. -/
def saveStateJson (store : Store φ) (s : Server φ) : Except Str (Server φ) :=
  match store with
  | none => .ok s
  | some write => do
    let file ← write s.backend.toLocalRuntimeState s.file
    pure { s with file }

def tick (a : RuntimeAdapter) (store : Store φ) (now : Str) :
    EStateM BackendError (Server φ) (List SandboxExpiration) := do
  let expired ← onBackend (expireDueSandboxes a now)
  if expired.isEmpty then pure expired
  else
    match saveStateJson store (← get) with
    | .ok s =>
      set s
      pure expired
    | .error e => throw (.runtime (str "save lifecycle state: " ++ e))

def autoPauses (record : SandboxRecord) : Bool := record.createRequest.autoPause.getD false

def action (record : SandboxRecord) (sandboxId : Str) : AdapterCall :=
  if autoPauses record then .pause sandboxId else .stop sandboxId

def succeeds (a : RuntimeAdapter) (record : SandboxRecord) (sandboxId : Str) : Bool :=
  if autoPauses record then (a.pause sandboxId).isOk else (a.stop sandboxId).isOk

theorem action_id {id id' : Str} (h : action record id = action record' id') : id = id' := by
  unfold action at h
  split at h <;> split at h <;> cases h <;> rfl

section
variable {a : RuntimeAdapter} {id : Str} {record : SandboxRecord} {s : LocalRuntimeBackend}

section
variable (h : s.sandboxes.sandboxes[id]? = some record)
include h

theorem autoPauseEnabled_eq : s.sandboxes.autoPauseEnabled id = .ok (autoPauses record) := by
  rw [LocalSandboxRegistry.autoPauseEnabled, LocalSandboxRegistry.record, h]
  rfl

theorem expireSandbox_eq : expireSandbox a id s =
      if autoPauses record then (pause a id >>= fun _ => pure ⟨id, .paused⟩) s
      else (delete a id >>= fun _ => pure ⟨id, .deleted⟩) s := by
  unfold expireSandbox
  rw [bind_of_ok (run_get s), autoPauseEnabled_eq h]
  cases autoPauses record <;> rfl

theorem pause_record : ∃ changed sandboxes, s.sandboxes.pause id = .ok (changed, sandboxes) ∧
      ∀ id', id' ≠ id → sandboxes.sandboxes[id']? = s.sandboxes.sandboxes[id']? := by
  unfold LocalSandboxRegistry.pause LocalSandboxRegistry.record
  rw [h]
  by_cases hp : record.info.state = .paused
  · exact ⟨false, s.sandboxes, if_pos hp, fun _ _ => rfl⟩
  · exact ⟨true, _, if_neg hp, fun id' hid => get_insert_ne (Ne.symm hid)⟩
end

theorem pause_ok (h : s.sandboxes.sandboxes[id]? = some record) (hp : a.pause id = .ok paused) :
    ∃ x t, pause a id s = .ok x t ∧ t.calls = s.calls ++ [.pause id] ∧
      ∀ id', id' ≠ id → t.sandboxes.sandboxes[id']? = s.sandboxes.sandboxes[id']? := by
  obtain ⟨changed, sandboxes, hchange, hother⟩ := pause_record h
  refine ⟨changed, { s with sandboxes, calls := s.calls ++ [.pause id] }, ?_, rfl, hother⟩
  unfold pause
  rw [bind_of_ok (ask_eq_ok.mpr ⟨hp, rfl⟩), onSandboxes]
  rw [hchange]

theorem delete_ok (hd : a.stop id = .ok ()) :
    ∃ x t, delete a id s = .ok x t ∧ t.calls = s.calls ++ [.stop id] ∧
      ∀ id', id' ≠ id → t.sandboxes.sandboxes[id']? = s.sandboxes.sandboxes[id']? := by
  refine ⟨_, _, delete_stopped hd, rfl, fun id' hid => ?_⟩
  exact (get_erase s.sandboxes.sandboxes id id').trans (if_neg (Ne.symm hid))

theorem expireSandbox_ok (h : s.sandboxes.sandboxes[id]? = some record)
    (hok : succeeds a record id = true) :
    ∃ x t, expireSandbox a id s = .ok x t ∧ t.calls = s.calls ++ [action record id] ∧
      ∀ id', id' ≠ id → t.sandboxes.sandboxes[id']? = s.sandboxes.sandboxes[id']? := by
  rw [expireSandbox_eq h]
  unfold succeeds at hok
  unfold action
  by_cases hp : autoPauses record = true
  · rw [if_pos hp] at hok ⊢
    rw [if_pos hp]
    cases hpause : a.pause id with
    | error e => rw [hpause] at hok; cases hok
    | ok paused =>
      obtain ⟨x, t, hrun, hrest⟩ := pause_ok h hpause
      exact ⟨_, t, bind_of_ok hrun, hrest⟩
  · rw [if_neg hp] at hok ⊢
    rw [if_neg hp]
    cases hstop : a.stop id with
    | error e => rw [hstop] at hok; cases hok
    | ok _ =>
      obtain ⟨x, t, hrun, hrest⟩ := delete_ok (s := s) hstop
      exact ⟨_, t, bind_of_ok hrun, hrest⟩

theorem expireSandbox_failed (h : s.sandboxes.sandboxes[id]? = some record)
    (hf : succeeds a record id = false) :
    ∃ e, expireSandbox a id s = .error e { s with calls := s.calls ++ [action record id] } := by
  rw [expireSandbox_eq h]
  unfold succeeds at hf
  unfold action
  by_cases hp : autoPauses record = true
  · rw [if_pos hp] at hf ⊢
    rw [if_pos hp]
    cases hpause : a.pause id with
    | ok paused => rw [hpause] at hf; cases hf
    | error e => exact ⟨e, bind_of_error (bind_of_error (by rw [ask_eq, hpause]))⟩
  · rw [if_neg hp] at hf ⊢
    rw [if_neg hp]
    cases hstop : a.stop id with
    | ok _ => rw [hstop] at hf; cases hf
    | error e => exact ⟨e, bind_of_error (delete_failed hstop)⟩
end

abbrev Due := Str × SandboxRecord

def dueRecords (sandboxes : LocalSandboxRegistry) (now : Str) : List Due :=
  sandboxes.sandboxes.toList.filter (LocalSandboxRegistry.isDue now ·.2)

theorem dueRunningSandboxes_eq (now : Str) :
    sandboxes.dueRunningSandboxes now = (dueRecords sandboxes now).map (·.1) := rfl

theorem mem_dueRecords :
    p ∈ dueRecords sandboxes now ↔
      sandboxes.sandboxes[p.1]? = some p.2 ∧ LocalSandboxRegistry.isDue now p.2 = true := by
  rw [dueRecords, mem_filter]
  exact and_congr_left' Std.ExtTreeMap.mem_toList_iff_getElem?_eq_some

theorem nodup_dueRecords (sandboxes : LocalSandboxRegistry) (now : Str) :
    ((dueRecords sandboxes now).map (·.1)).Nodup := by
  refine List.Nodup.sublist (filter_sublist.map _) ?_
  rw [Std.ExtTreeMap.map_fst_toList_eq_keys]
  exact Std.ExtTreeMap.nodup_keys

def attempts (a : RuntimeAdapter) : List Due → List Due
  | [] => []
  | p :: ps => p :: if succeeds a p.2 p.1 then attempts a ps else []

theorem expire_calls
    (hreg : ∀ p ∈ ps, s.sandboxes.sandboxes[p.1]? = some p.2) (hnd : (ps.map (·.1)).Nodup) :
    (left ((ps.map (·.1)).mapM (expireSandbox a) s)).calls =
      s.calls ++ (attempts a ps).map fun p => action p.2 p.1 := by
  induction ps generalizing s with
  | nil => simp [attempts, left]
  | cons p ps ih =>
    rw [map_cons, nodup_cons] at hnd
    rw [map_cons, mapM_cons]
    have hp := hreg p mem_cons_self
    cases hok : succeeds a p.2 p.1 with
    | true =>
      obtain ⟨x, t, hrun, hcalls, hother⟩ := expireSandbox_ok hp hok
      rw [bind_of_ok hrun, left_map, ih ?_ hnd.2, hcalls]
      · simp [attempts, hok]
      · intro q hq
        rw [hother q.1 fun he => hnd.1 (he ▸ mem_map_of_mem hq)]
        exact hreg q (mem_cons_of_mem p hq)
    | false =>
      obtain ⟨e, hrun⟩ := expireSandbox_failed hp hok
      rw [bind_of_error hrun]
      simp [attempts, hok, left]

theorem attempts_all_iff (hnd : ps.Nodup) :
    (∀ p ∈ ps, p ∈ attempts a ps) ↔ ∀ p ∈ ps.dropLast, succeeds a p.2 p.1 = true := by
  induction ps with
  | nil => simp
  | cons p ps ih =>
    rw [nodup_cons] at hnd
    cases ps with
    | nil => simp [attempts]
    | cons q qs =>
      have hne : ∀ x ∈ q :: qs, x ≠ p := fun x hx he => hnd.1 (he ▸ hx)
      have hsplit := forall_mem_cons (p := fun x : Due => succeeds a x.2 x.1 = true)
        (a := p) (l := (q :: qs).dropLast)
      rw [dropLast_cons_cons, hsplit, ← ih hnd.2, forall_mem_cons, attempts]
      cases hok : succeeds a p.2 p.1 with
      | true =>
        rw [if_pos rfl]
        refine and_congr (iff_of_true mem_cons_self rfl) (forall₂_congr fun x hx => ?_)
        rw [mem_cons, or_iff_right (hne x hx)]
      | false =>
        have hq := hne q mem_cons_self
        simp [hq]

/-- Distinct sandboxes get distinct calls, so a call in the log tells which sandbox it was for. -/
theorem action_mem_iff {ps qs : List Due} (hsub : ∀ q ∈ qs, q ∈ ps)
    (hnd : (ps.map (·.1)).Nodup) {p : Due} (hp : p ∈ ps) :
    action p.2 p.1 ∈ qs.map (fun q => action q.2 q.1) ↔ p ∈ qs := by
  refine ⟨fun h => ?_, fun h => mem_map_of_mem h⟩
  obtain ⟨q, hq, heq⟩ := mem_map.mp h
  have hid : q.1 = p.1 := action_id heq
  rwa [← inj_on_of_nodup_map hnd (hsub q hq) hp hid]

theorem attempts_subset : ∀ q ∈ attempts a ps, q ∈ ps := by
  induction ps with
  | nil => simp [attempts]
  | cons p ps ih =>
    intro q hq
    rw [attempts] at hq
    split at hq
    · exact mem_cons.mpr ((mem_cons.mp hq).imp_right (ih q))
    · exact mem_cons.mpr (.inl (mem_singleton.mp hq))

theorem left_onBackend {α : Type} (method : Api α) (s : Server φ) :
    (left (onBackend method s)).backend = left (method s.backend) := by
  unfold onBackend
  cases method s.backend <;> rfl

theorem saveStateJson_backend (h : saveStateJson store s = .ok t) : t.backend = s.backend := by
  cases store with
  | none => cases h; rfl
  | some write =>
    obtain ⟨file, -, hfile⟩ := except_bind_eq_ok.mp h
    cases hfile
    rfl

theorem left_tick (a : RuntimeAdapter) (store : Store φ) (s : Server φ) :
    (left (tick a store now s)).backend = left (expireDueSandboxes a now s.backend) := by
  rw [← left_onBackend, tick]
  cases hrun : onBackend (expireDueSandboxes a now) s with
  | error e t => rw [bind_of_error hrun]
  | ok expired t =>
    rw [bind_of_ok hrun]
    cases hempty : expired.isEmpty with
    | true => rfl
    | false =>
      rw [if_neg Bool.false_ne_true, bind_of_ok (run_get t)]
      cases hsave : saveStateJson store t with
      | ok u => exact saveStateJson_backend hsave
      | error e => rfl

def tickCalls (a : RuntimeAdapter) (store : Store φ) (now : Str) (s : Server φ) :
    List AdapterCall :=
  (left (tick a store now s)).backend.calls.drop s.backend.calls.length

theorem tickCalls_eq (a : RuntimeAdapter) (store : Store φ) (now : Str) (s : Server φ) :
    tickCalls a store now s =
      (attempts a (dueRecords s.backend.sandboxes now)).map fun p => action p.2 p.1 := by
  have hreg : ∀ p ∈ dueRecords s.backend.sandboxes now,
      s.backend.sandboxes.sandboxes[p.1]? = some p.2 := fun p hp => (mem_dueRecords.mp hp).1
  have hcalls := expire_calls (a := a) hreg (nodup_dueRecords _ _)
  rw [tickCalls, left_tick, expireDueSandboxes, bind_of_ok (run_get _), dueRunningSandboxes_eq,
    hcalls, drop_left]

/-- A tick attempts the expiry of every due sandbox exactly when no attempt before the last one
fails. -/
theorem tick_attempts_every_due_iff (a : RuntimeAdapter) (store : Store φ) (now : Str)
    (s : Server φ) :
    (∀ id record, s.backend.sandboxes.sandboxes[id]? = some record →
      LocalSandboxRegistry.isDue now record = true →
      action record id ∈ tickCalls a store now s) ↔
    ∀ p ∈ (dueRecords s.backend.sandboxes now).dropLast, succeeds a p.2 p.1 = true := by
  have hnd := nodup_dueRecords s.backend.sandboxes now
  rw [← attempts_all_iff (List.Nodup.of_map _ hnd), tickCalls_eq]
  constructor
  · intro h p hp
    have hdue := mem_dueRecords.mp hp
    exact (action_mem_iff attempts_subset hnd hp).mp (h p.1 p.2 hdue.1 hdue.2)
  · intro h id record hreg hdue
    have hp : (id, record) ∈ dueRecords s.backend.sandboxes now :=
      mem_dueRecords.mpr ⟨hreg, hdue⟩
    exact (action_mem_iff attempts_subset hnd hp).mpr (h _ hp)

def overdueRecord (id : Str) : SandboxRecord :=
  SandboxRegistry.newRecord {} ⟨id, [], [], none, none, [], [], 1, 512⟩

def twoOverdue : Server Unit :=
  let sandboxes : Table Str SandboxRecord :=
    (Std.ExtTreeMap.insert ∅ (str "sbx_1") (overdueRecord (str "sbx_1"))).insert
      (str "sbx_2") (overdueRecord (str "sbx_2"))
  { backend := { templates := .new [], sandboxes := { sandboxes } }, file := () }

def firstStuck : RuntimeAdapter :=
  { RuntimeAdapter.refusing with
    stop := fun id => if id = str "sbx_1" then .error (.runtime (str "busy")) else .ok () }

/-- The second sandbox is due and could be stopped; it is never asked to. -/
theorem stuck_sandbox_blocks_next :
    twoOverdue.backend.sandboxes.sandboxes[str "sbx_2"]? = some (overdueRecord (str "sbx_2")) ∧
      LocalSandboxRegistry.isDue [] (overdueRecord (str "sbx_2")) = true ∧
      action (overdueRecord (str "sbx_2")) (str "sbx_2") ∉
        tickCalls firstStuck none [] twoOverdue := by
  decide +kernel

end Lifecycle
