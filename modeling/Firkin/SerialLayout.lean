import Mathlib.Tactic

/-! # Items laid one after the other

Items of a list take consecutive stretches of a line, each as long as its cost. An item
starts where the items before it end, so stretches are disjoint and leave no gap. -/
namespace SerialLayout

section
variable {ι : Type} (cost : ι → Nat)

def total (l : List ι) : Nat := (l.map cost).sum

variable {cost}

@[simp] theorem total_nil : total cost [] = 0 := rfl

@[simp] theorem total_append : total cost (l ++ m) = total cost l + total cost m := by
  simp [total]

@[simp] theorem total_cons (a : ι) : total cost (a :: l) = cost a + total cost l := by
  simp [total]

theorem total_perm (h : l.Perm m) : total cost l = total cost m :=
  (h.map cost).sum_eq

theorem total_add (c d : ι → Nat) (l : List ι) :
    total (fun a => c a + d a) l = total c l + total d l :=
  List.sum_map_add
end

variable {ι : Type} [DecidableEq ι] (cost : ι → Nat)

def offset (l : List ι) (a : ι) : Nat := total cost (l.takeWhile (· ≠ a))

variable {cost}

theorem offset_mid (h : a ∉ pre) : offset cost (pre ++ a :: post) a = total cost pre := by
  have hall : ∀ x ∈ pre, decide (x ≠ a) = true := by
    intro x hx
    exact decide_eq_true fun he => h (he ▸ hx)
  rw [offset, List.takeWhile_append_of_pos hall]
  simp

theorem offset_split (hnd : l.Nodup) (ha : a ∈ l) :
    ∃ pre post, l = pre ++ a :: post ∧ offset cost l a = total cost pre := by
  obtain ⟨pre, post, rfl⟩ := List.append_of_mem ha
  exact ⟨pre, post, rfl, offset_mid fun h => List.disjoint_of_nodup_append hnd h List.mem_cons_self⟩

theorem offset_add_le (hnd : l.Nodup) (ha : a ∈ l) : offset cost l a + cost a ≤ total cost l := by
  obtain ⟨pre, post, rfl, h⟩ := @offset_split ι _ cost l a hnd ha
  rw [total_append, total_cons]
  omega

theorem offset_before (hnd : (pre ++ a :: post).Nodup) (hb : b ∈ pre) :
    offset cost (pre ++ a :: post) b + cost b ≤ offset cost (pre ++ a :: post) a := by
  have ha : a ∉ pre := fun h => List.disjoint_of_nodup_append hnd h List.mem_cons_self
  obtain ⟨p, q, rfl⟩ := List.append_of_mem hb
  have hbp : b ∉ p := fun h =>
    List.disjoint_of_nodup_append (List.nodup_append.mp hnd).1 h List.mem_cons_self
  have hsplit : p ++ b :: q ++ a :: post = p ++ b :: (q ++ a :: post) := by simp
  rw [offset_mid ha, hsplit, offset_mid hbp, total_append, total_cons]
  omega

end SerialLayout
