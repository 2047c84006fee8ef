import Mathlib.Tactic

/-! # Forests given by parent pointers

Nodes are natural numbers, a parent is older than its children, and the path of a
node is the list of names from its root. Nothing is assumed about which nodes are
in use, so the same facts serve a growing arena with tombstones. -/
namespace ParentForest

def Ordered (P : Nat → Option Nat) : Prop := ∀ i q, P i = some q → q < i

def path {α : Type} (P : Nat → Option Nat) (N : Nat → α) (i : Nat) : List α :=
  match P i with
  | none => []
  | some q => if q < i then path P N q ++ [N i] else []
termination_by i

inductive Below (P : Nat → Option Nat) (a : Nat) : Nat → Prop where
  | refl : Below P a a
  | step {i q} : P i = some q → Below P a q → Below P a i

variable {α : Type} {P : Nat → Option Nat} {N : Nat → α} {a i : Nat}

theorem path_root (N : Nat → α) (h : P i = none) : path P N i = [] := by
  rw [path, h]

theorem path_child (hP : Ordered P) (N : Nat → α) (h : P i = some q) :
    path P N i = path P N q ++ [N i] := by
  rw [path, h]
  simp [hP i q h]

theorem path_congr (h : ∀ j, j ≤ i → P j = P' j ∧ N j = N' j) : path P N i = path P' N' i := by
  induction i using Nat.strong_induction_on with
  | _ i ih =>
    rw [path, path, ← (h i le_rfl).1]
    cases hp : P i with
    | none => rfl
    | some q =>
      by_cases hq : q < i
      · simp only [← (h i le_rfl).2]
        rw [ih q hq (fun j hj => h j (by omega))]
      · simp [hq]

theorem Below.le (hP : Ordered P) (h : Below P a i) : a ≤ i := by
  induction h with
  | refl => exact le_rfl
  | step hq _ ih => exact ih.trans (Nat.le_of_lt (hP _ _ hq))

theorem Below.trans (h : Below P a b) (k : Below P b i) : Below P a i := by
  induction k with
  | refl => exact h
  | step hq _ ih => exact .step hq ih

theorem Below.cases_child (h : Below P a i) (hne : i ≠ a) : ∃ c, P c = some a ∧ Below P c i := by
  induction h with
  | refl => exact absurd rfl hne
  | @step i q hq hb ih =>
    by_cases hqa : q = a
    · subst hqa
      exact ⟨i, hq, .refl⟩
    · obtain ⟨c, hc, hcq⟩ := ih hqa
      exact ⟨c, hc, .step hq hcq⟩

theorem Below.parent (h : Below P a i) (hne : i ≠ a) (hq : P i = some q) : Below P a q := by
  cases h with
  | refl => exact absurd rfl hne
  | step hq' hb =>
    cases hq.symm.trans hq'
    exact hb

theorem Below.of_root (h : Below P a i) (hi : P i = none) : a = i := by
  cases h with
  | refl => rfl
  | step hq _ => rw [hi] at hq; cases hq

theorem Below.comparable (ha : Below P a i) (hb : Below P b i) : Below P a b ∨ Below P b a := by
  induction ha with
  | refl => exact .inr hb
  | @step i q hq hq' ih =>
    cases hb with
    | refl => exact .inl (.step hq hq')
    | step hr hr' =>
      cases hq.symm.trans hr
      exact ih hr'

theorem Below.siblings_disjoint (hP : Ordered P) (ha : P a = some p) (hb : P b = some p)
    (hne : a ≠ b) (hi : Below P a i) : ¬ Below P b i := by
  intro hj
  have key : ∀ x y, P x = some p → P y = some p → Below P x y → x = y := by
    intro x y hx hy hxy
    cases hxy with
    | refl => rfl
    | step hq hb' =>
      cases hy.symm.trans hq
      have h1 := hb'.le hP
      have h2 := hP _ _ hx
      omega
  rcases hi.comparable hj with h | h
  · exact hne (key a b ha hb h)
  · exact hne (key b a hb ha h).symm

theorem Below.prefix_path (hP : Ordered P) (N : Nat → α) (h : Below P a i) :
    path P N a <+: path P N i := by
  induction h with
  | refl => exact List.prefix_rfl
  | step hq _ ih => rw [path_child hP N hq]; exact ih.trans (List.prefix_append _ _)

/-- Every prefix of a path is the path of an ancestor, when roots have the empty path. -/
theorem exists_below_of_prefix (hP : Ordered P)
    (h : p <+: path P N i) : ∃ b, Below P b i ∧ path P N b = p := by
  induction i using Nat.strong_induction_on with
  | _ i ih =>
    cases hq : P i with
    | none =>
      rw [path_root N hq] at h
      exact ⟨i, .refl, by rw [path_root N hq, List.prefix_nil.mp h]⟩
    | some q =>
      rw [path_child hP N hq] at h
      rcases List.prefix_concat_iff.mp h with h | h
      · exact ⟨i, .refl, by rw [path_child hP N hq, h]⟩
      · obtain ⟨b, hb, hp⟩ := ih q (hP i q hq) h
        exact ⟨b, .step hq hb, hp⟩

end ParentForest
