import Mathlib.Algebra.BigOperators.Group.List.Basic
import Mathlib.Tactic

/-! # Lists of keyed records

A list in which a record is looked up, replaced and removed by its key. `put` takes the old
record of the key out and appends the new one; `amend` changes a record in its place. -/
namespace KeyedList

open List

variable {α κ : Type} [DecidableEq κ] (key : α → κ)

def find (k : κ) (l : List α) : Option α := l.find? (key · = k)
def drop (k : κ) (l : List α) : List α := l.filter (key · ≠ k)
def put (a : α) (l : List α) : List α := drop key (key a) l ++ [a]

def amend (k : κ) (f : α → α) : List α → List α
  | [] => []
  | a :: l => if key a = k then f a :: l else a :: amend k f l

section
variable {key} {k : κ} {a : α} {l : List α}

theorem find_some (h : find key k l = some a) : a ∈ l ∧ key a = k :=
  ⟨mem_of_find?_eq_some h, by simpa using find?_some h⟩

theorem find_none : find key k l = none ↔ ∀ a ∈ l, key a ≠ k := by
  simp [find]

theorem find_isSome : (find key k l).isSome = true ↔ ∃ a ∈ l, key a = k := by
  simp [find]

theorem drop_of_none (h : find key k l = none) : drop key k l = l :=
  filter_eq_self.mpr fun a ha => by simpa using find_none.mp h a ha

theorem mem_drop : a ∈ drop key k l ↔ a ∈ l ∧ key a ≠ k := by
  simp [drop]

theorem find_drop (k k' : κ) (l : List α) :
    find key k' (drop key k l) = if k' = k then none else find key k' l := by
  split
  · next h =>
    subst h
    exact find_none.mpr fun a ha => (mem_drop.mp ha).2
  · next h =>
    rw [find, drop, find?_filter]
    refine find?_congr fun a _ => ?_
    by_cases ha : key a = k' <;> simp [ha, h]

theorem find_put (a : α) (k : κ) (l : List α) :
    find key k (put key a l) = if k = key a then some a else find key k l := by
  have hlast : find key k [a] = if k = key a then some a else none := by
    by_cases h : k = key a
    · simp [find, h]
    · simp [find, h, Ne.symm h]
  rw [put, find, find?_append]
  change (find key k (drop key (key a) l)).or (find key k [a]) = _
  rw [find_drop, hlast]
  split
  · rfl
  · exact Option.or_none

theorem nodup_drop (h : (l.map key).Nodup) (k : κ) : ((drop key k l).map key).Nodup :=
  (filter_sublist.map key).nodup h

theorem nodup_put (h : (l.map key).Nodup) (a : α) : ((put key a l).map key).Nodup := by
  rw [put, map_append, nodup_append]
  refine ⟨nodup_drop h _, by simp, fun x hx y hy => ?_⟩
  obtain ⟨b, hb, rfl⟩ := mem_map.mp hx
  obtain rfl : y = key a := by simpa using hy
  exact (mem_drop.mp hb).2
end

section
variable {key} {M : Type} [AddCommMonoid M] (f : α → M)

/-- Taking the record of a key out takes its share out of the sum. -/
theorem sum_drop (hd : (l.map key).Nodup) (h : find key k l = some a) :
    ((drop key k l).map f).sum + f a = (l.map f).sum := by
  induction l with
  | nil => cases h
  | cons b l ih =>
    obtain ⟨hb, hd⟩ := nodup_cons.mp hd
    by_cases hk : key b = k
    · obtain rfl : b = a := by simpa [find, hk] using h
      have hrest : drop key k l = l := by
        refine drop_of_none (find_none.mpr fun c hc he => hb ?_)
        exact mem_map.mpr ⟨c, hc, he.trans hk.symm⟩
      have hcons : drop key k (b :: l) = l := by
        rw [← hrest]
        simp [drop, hk]
      rw [hcons, map_cons, sum_cons, add_comm]
    · have hcons : drop key k (b :: l) = b :: drop key k l := by simp [drop, hk]
      have ih := ih hd (by simpa [find, hk] using h)
      rw [hcons, map_cons, map_cons, sum_cons, sum_cons, add_assoc, ih]

theorem sum_put_new (h : find key (key a) l = none) :
    ((put key a l).map f).sum = (l.map f).sum + f a := by
  rw [put, drop_of_none h]
  simp

/-- Replacing a record changes the sum by what the two records differ in. -/
theorem sum_put_old (hd : (l.map key).Nodup) (h : find key (key a) l = some b) :
    ((put key a l).map f).sum + f b = (l.map f).sum + f a := by
  rw [← sum_drop f hd h, put, map_append, sum_append]
  simp only [map_cons, map_nil, sum_cons, sum_nil, add_zero]
  exact add_right_comm _ _ _
end

end KeyedList
