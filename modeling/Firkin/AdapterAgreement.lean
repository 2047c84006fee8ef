import Firkin.AdapterLocks
import Firkin.AdapterMachine
import Firkin.ProcessTable

/-! # One adapter in three machines

The capacity and the sessions of the adapter, its process tables and its locks are three machines,
and each of them has the sandboxes that are there and a `stop`. A `stop` that runs to its end takes
the sandbox out of all three or, when its session does not end, out of none. -/
namespace AdapterAgreement

open AdapterLocks (advance enter perform onSession Request.script Shared.give)
open Std.TreeMap (mem_iff_isSome_getElem?)

structure Adapter where
  machine : AdapterMachine.Shared
  table : ProcessTable.Shared
  locks : AdapterLocks.Shared

structure Stop where
  call : Nat
  sandbox : UInt64
  ends : Bool

variable (cfg : AdapterMachine.Config) (name : UInt64 → Ext4Types.Str)

/-- The steps of one `stop` in each machine; those after its last one change nothing. -/
def stop (w : Adapter) (e : Stop) : Adapter where
  machine :=
    ([true, e.ends, true].foldl (fun w good => AdapterMachine.perform cfg w.1 e.call good w.2)
      (w.machine, .stopping e.sandbox)).1
  table :=
    ((ProcessTable.advance w.table (if e.ends then .ok { pid := 0 } else .error [])
      (.stopping (name e.sandbox))).map (·.1)).getD w.table
  locks :=
    (([true, true, true, true, e.ends] ++ List.replicate 6 true).foldl
      (fun w good => (advance w.1 e.call good w.2).getD w)
      (w.locks, enter (.stop e.sandbox.toNat false))).1

/-- The same sandboxes in the three machines, and no call that holds a lock. -/
structure Agrees (w : Adapter) : Prop where
  table : ∀ x, name x ∈ w.table.active ↔ x ∈ w.machine.active
  locks : ∀ x : UInt64, x.toNat ∈ w.locks.active ↔ x ∈ w.machine.active
  nodup : w.locks.active.Nodup
  free : w.machine.lock = none ∧ w.table.locked = [] ∧ ∀ l, w.locks.owner l = none

section
variable {name} {w : Adapter} (h : Agrees name w) (e : Stop)
include h

theorem stop_machine :
    (∀ x, x ∈ (stop cfg name w e).machine.active ↔
      x ∈ w.machine.active ∧ (x = e.sandbox → e.ends = false)) ∧
    (stop cfg name w e).machine.lock = none := by
  obtain ⟨call, sandbox, ends⟩ := e
  cases hget : w.machine.active[sandbox]? with
  | none =>
    have hne : sandbox ∉ w.machine.active := by simp [mem_iff_isSome_getElem?, hget]
    simp [stop, AdapterMachine.perform, hget, h.free]
    grind
  | some removed =>
    have hmem : sandbox ∈ w.machine.active := by simp [mem_iff_isSome_getElem?, hget]
    cases ends with
    | false =>
      simp [stop, AdapterMachine.perform, hget, AdapterMachine.Shared.register]
      grind
    | true =>
      simp only [stop, List.foldl, AdapterMachine.perform, hget, AdapterMachine.Shared.ended,
        if_true]
      split <;> simp <;> grind

theorem stop_table :
    (∀ key, key ∈ (stop cfg name w e).table.active ↔
      key ∈ w.table.active ∧ (key = name e.sandbox → e.ends = false)) ∧
    (stop cfg name w e).table.locked = [] := by
  obtain ⟨call, sandbox, ends⟩ := e
  cases hget : w.table.active[name sandbox]? with
  | none =>
    have hne : name sandbox ∉ w.table.active := by simp [mem_iff_isSome_getElem?, hget]
    simp [stop, ProcessTable.advance, hget, h.free]
    grind
  | some session =>
    cases ends <;>
      simp [stop, ProcessTable.advance, hget, h.free, ProcessTable.stopStep,
        ProcessTable.Shared.purge]
    grind

theorem stop_locks :
    (∀ i, i ∈ (stop cfg name w e).locks.active ↔
      i ∈ w.locks.active ∧ (i = e.sandbox.toNat → e.ends = false)) ∧
    (stop cfg name w e).locks.active.Nodup ∧ ∀ l, (stop cfg name w e).locks.owner l = none := by
  obtain ⟨call, sandbox, ends⟩ := e
  have hn := h.nodup
  by_cases hmem : sandbox.toNat ∈ w.locks.active <;> cases ends <;>
    simp [stop, advance, perform, enter, Request.script, onSession, Shared.give, h.free, hmem, hn,
      hn.mem_erase_iff, hn.erase, List.replicate, Function.update_apply] <;> grind

theorem agrees_stop (hname : Function.Injective name) : Agrees name (stop cfg name w e) := by
  obtain ⟨hmachine, hm⟩ := stop_machine cfg h e
  obtain ⟨htable, ht⟩ := stop_table cfg h e
  obtain ⟨hlocks, hnodup, hl⟩ := stop_locks cfg h e
  refine ⟨fun x => ?_, fun x => ?_, hnodup, hm, ht, hl⟩
  · rw [htable, hmachine, h.table, hname.eq_iff]
  · rw [hlocks, hmachine, h.locks, UInt64.toNat_inj]

theorem agrees_stops (hname : Function.Injective name) (stops : List Stop) :
    Agrees name (stops.foldl (stop cfg name) w) := by
  induction stops generalizing w with
  | nil => exact h
  | cons e stops ih => exact ih (agrees_stop cfg h e hname)
end

end AdapterAgreement
