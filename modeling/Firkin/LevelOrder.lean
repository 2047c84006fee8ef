import Mathlib.Tactic

/-! # Breadth-first order

A walk that keeps a queue visits a forest level by level. `levels` is the order a
reader expects, `walk` the order in which a queue hands the nodes out; they agree as
soon as the walk is given one step for every node. -/
namespace LevelOrder

open List

variable {α : Type} (kids : α → List α)

/-- The nodes exactly `n` steps below those of `q`. -/
def level : Nat → List α → List α
  | 0, q => q
  | n + 1, q => level n (q.flatMap kids)

/-- The first `n` levels below `q`, `q` itself left out. -/
def levels : Nat → List α → List α
  | 0, _ => []
  | n + 1, q => q.flatMap kids ++ levels n (q.flatMap kids)

def walk : Nat → List α → List α
  | 0, _ => []
  | _ + 1, [] => []
  | fuel + 1, x :: queue => kids x ++ walk fuel (queue ++ kids x)

def Finishes : Nat → List α → Prop
  | _, [] => True
  | 0, _ :: _ => False
  | fuel + 1, x :: queue => Finishes fuel (queue ++ kids x)

/-- `a` comes before `b` in `l`. -/
def Precedes (l : List α) (a b : α) : Prop := ∃ pre post, l = pre ++ b :: post ∧ a ∈ pre

variable {kids}

theorem walk_append (q r : List α) (fuel : Nat) :
    walk kids (q.length + fuel) (q ++ r) =
      q.flatMap kids ++ walk kids fuel (r ++ q.flatMap kids) := by
  induction q generalizing r with
  | nil => simp
  | cons x q ih =>
    have hlen : (x :: q).length + fuel = q.length + fuel + 1 := by simp; omega
    rw [hlen, cons_append, walk, append_assoc, ih]
    simp [append_assoc]

theorem finishes_append (r : List α) (h : Finishes kids fuel (r ++ q.flatMap kids)) :
    Finishes kids (q.length + fuel) (q ++ r) := by
  induction q generalizing r with
  | nil => simpa using h
  | cons x q ih =>
    have hlen : (x :: q).length + fuel = q.length + fuel + 1 := by simp; omega
    rw [hlen, cons_append, Finishes, append_assoc]
    exact ih _ (by simpa [append_assoc] using h)

/-- With a step for every node the queue order is the level order. -/
theorem walk_eq_levels (hn : level kids n q = []) (fuel : Nat)
    (hf : (q ++ levels kids n q).length ≤ fuel) :
    walk kids fuel q = levels kids n q ∧ Finishes kids fuel q := by
  induction n generalizing q fuel with
  | zero =>
    obtain rfl : q = [] := hn
    cases fuel <;> exact ⟨rfl, trivial⟩
  | succ n ih =>
    simp only [levels, length_append] at hf
    obtain ⟨f, rfl⟩ : ∃ f, fuel = q.length + f := ⟨fuel - q.length, by omega⟩
    have hrest := ih hn f (by simp only [length_append]; omega)
    constructor
    · have hw := @walk_append α kids q [] f
      rw [append_nil, nil_append] at hw
      rw [hw, levels, hrest.1]
    · have hw := finishes_append [] (by simpa using hrest.2)
      rwa [append_nil] at hw

theorem level_succ (n : Nat) : level kids (n + 1) q = (level kids n q).flatMap kids := by
  induction n generalizing q with
  | zero => rfl
  | succ n ih => rw [level, ih, level]

theorem levels_eq (n : Nat) :
    levels kids n q = (range n).flatMap fun k => level kids (k + 1) q := by
  induction n generalizing q with
  | zero => rfl
  | succ n ih =>
    rw [levels, ih, range_succ_eq_map, flatMap_cons, flatMap_map]
    rfl

theorem mem_levels : c ∈ levels kids n q ↔ ∃ k < n, c ∈ level kids (k + 1) q := by
  simp [levels_eq]

section
variable {parent : α → Option α} {r : α} (hkid : ∀ p c, c ∈ kids p → parent c = some p)
  (hnd : ∀ p, (kids p).Nodup) (hr : parent r = none)
include hkid

theorem parent_of_level (h : c ∈ level kids (n + 1) [r]) :
    ∃ p ∈ level kids n [r], parent c = some p := by
  rw [level_succ] at h
  obtain ⟨p, hp, hc⟩ := mem_flatMap.mp h
  exact ⟨p, hp, hkid p c hc⟩

theorem level_nodup (hnd : ∀ p, (kids p).Nodup) (n : Nat) : (level kids n [r]).Nodup := by
  induction n with
  | zero => exact nodup_singleton r
  | succ n ih =>
    rw [level_succ, nodup_flatMap]
    refine ⟨fun p _ => hnd p, ih.imp fun hab c ha hb => hab ?_⟩
    exact Option.some.inj ((hkid _ c ha).symm.trans (hkid _ c hb))

include hr

theorem root_not_below : r ∉ level kids (n + 1) [r] := by
  intro h
  obtain ⟨p, _, hp⟩ := parent_of_level hkid h
  cases hr.symm.trans hp

theorem level_unique (hj : c ∈ level kids j [r]) (hk : c ∈ level kids k [r]) : j = k := by
  induction j generalizing k c with
  | zero =>
    cases k with
    | zero => rfl
    | succ k =>
      rw [level, mem_singleton] at hj
      exact absurd (hj ▸ hk) (root_not_below hkid hr)
  | succ j ih =>
    cases k with
    | zero =>
      rw [level, mem_singleton] at hk
      exact absurd (hk ▸ hj) (root_not_below hkid hr)
    | succ k =>
      obtain ⟨p, hpj, hp⟩ := parent_of_level hkid hj
      obtain ⟨p', hpk, hp'⟩ := parent_of_level hkid hk
      cases hp.symm.trans hp'
      rw [ih hpj hpk]

include hnd

theorem levels_nodup : (r :: levels kids n [r]).Nodup := by
  rw [nodup_cons, levels_eq, nodup_flatMap]
  refine ⟨fun h => ?_, fun k _ => level_nodup hkid hnd (k + 1), ?_⟩
  · obtain ⟨k, _, hk⟩ := mem_flatMap.mp h
    exact root_not_below hkid hr hk
  · refine (nodup_range (n := n)).imp fun hab c ha hb => hab ?_
    have := level_unique hkid hr ha hb
    omega
end

theorem Precedes.left (h : Precedes l a b) : a ∈ l := by
  obtain ⟨pre, post, rfl, hm⟩ := h
  exact mem_append_left _ hm

end LevelOrder
