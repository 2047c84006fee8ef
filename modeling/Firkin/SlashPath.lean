import Mathlib.Data.List.DropRight
import Mathlib.Tactic

/-! # Absolute paths as texts

A path begins with a separator. Its parent is what stands before the last separator, or the root,
which is a separator alone. -/
namespace SlashPath

open List

variable {α : Type} [DecidableEq α] (sep : α)

def childPrefix (dir : List α) : List α := if dir = [sep] then [sep] else dir ++ [sep]

def parent (path : List α) : List α :=
  let dir := path.rdropWhile (· ≠ sep)
  if dir = [sep] then [sep] else dir.dropLast

/-- One separator at the beginning and, but for the root, none at the end. -/
def Normal (path : List α) : Prop :=
  ∃ rest, path = sep :: rest ∧ rest.head? ≠ some sep ∧ rest.getLast? ≠ some sep

def Solid (words : List (List α)) (path : List α) : Prop :=
  ∀ w ∈ words, ¬w ++ [sep] <:+: path

variable {sep} {path front name : List α}

theorem rdropWhile_split (hname : sep ∉ name) :
    (front ++ sep :: name).rdropWhile (· ≠ sep) = front ++ [sep] := by
  induction name using reverseRecOn with
  | nil => exact rdropWhile_concat_neg _ _ _ (by simp)
  | append_singleton name a ih =>
    have ha : a ≠ sep := fun he => hname (by simp [he])
    have hsplit : front ++ sep :: (name ++ [a]) = (front ++ sep :: name) ++ [a] := by simp
    rw [hsplit, rdropWhile_concat_pos _ _ _ (by simpa using ha)]
    exact ih fun hm => hname (mem_append_left _ hm)

omit [DecidableEq α] in
theorem exists_split (h : sep ∈ path) : ∃ front name, path = front ++ sep :: name ∧ sep ∉ name := by
  obtain ⟨as, bs, heq, hnot⟩ := eq_append_cons_of_mem (mem_reverse.mpr h)
  refine ⟨bs.reverse, as.reverse, ?_, fun hm => hnot (mem_reverse.mp hm)⟩
  rw [← reverse_reverse path, heq]
  simp

theorem split_unique (hname : sep ∉ name) (hname' : sep ∉ name')
    (h : front ++ sep :: name = front' ++ sep :: name') : front = front' := by
  have hdrop := congrArg (rdropWhile (· ≠ sep)) h
  rw [rdropWhile_split hname, rdropWhile_split hname'] at hdrop
  exact append_cancel_right hdrop

theorem parent_split (hname : sep ∉ name) :
    parent sep (front ++ sep :: name) = if front = [] then [sep] else front := by
  unfold parent
  rw [rdropWhile_split hname]
  by_cases hfront : front = [] <;> simp [hfront]

theorem parent_child (hdir : dir ≠ []) (hname : sep ∉ name) :
    parent sep (childPrefix sep dir ++ name) = dir := by
  unfold childPrefix
  split
  · next hroot =>
    rw [hroot]
    exact @parent_split _ _ _ [] name hname
  · rw [append_assoc, singleton_append, parent_split hname, if_neg hdir]

omit [DecidableEq α] in
theorem normal_root : Normal sep [sep] := ⟨[], rfl, by simp, by simp⟩

section
variable (h : Normal sep path)
include h

omit [DecidableEq α] in
theorem Normal.ne_nil : path ≠ [] := by
  obtain ⟨rest, rfl, -, -⟩ := h
  exact cons_ne_nil _ _

omit [DecidableEq α] in
theorem Normal.mem : sep ∈ path := by
  obtain ⟨rest, rfl, -, -⟩ := h
  exact mem_cons_self

theorem Normal.child : ∃ name, path = childPrefix sep (parent sep path) ++ name ∧ sep ∉ name := by
  obtain ⟨front, name, hsplit, hname⟩ := exists_split h.mem
  refine ⟨name, ?_, hname⟩
  obtain ⟨rest, hrest, hhead, -⟩ := h
  rw [hsplit, parent_split hname]
  unfold childPrefix
  by_cases hfront : front = []
  · simp [hfront]
  · have hne : front ≠ [sep] := by
      rintro rfl
      cases hrest.symm.trans hsplit
      exact hhead rfl
    simp [hfront, hne]

theorem Normal.length_parent_lt (hne : path ≠ [sep]) : (parent sep path).length < path.length := by
  obtain ⟨front, name, rfl, hname⟩ := exists_split h.mem
  rw [parent_split hname]
  split
  · next hfront =>
    subst hfront
    have hpos : name ≠ [] := fun he => hne (by rw [he]; rfl)
    have hlen := length_pos_of_ne_nil hpos
    simpa using hlen
  · simp
end

theorem listed_iff (hp : Normal sep path) (hne : path ≠ [sep]) (hdir : dir ≠ []) :
    (path ≠ dir ∧ childPrefix sep dir <+: path ∧ sep ∉ path.drop (childPrefix sep dir).length) ↔
      parent sep path = dir := by
  constructor
  · rintro ⟨-, ⟨name, rfl⟩, hname⟩
    rw [drop_left] at hname
    exact parent_child hdir hname
  · rintro rfl
    obtain ⟨name, hchild, hname⟩ := hp.child
    refine ⟨fun he => ?_, ⟨name, hchild.symm⟩, ?_⟩
    · exact (hp.length_parent_lt hne).ne (congrArg length he).symm
    · rw [hchild, parent_child hdir hname, drop_left]
      exact hname

theorem root_not_listed (hdir : dir ≠ []) (hne : [sep] ≠ dir) : ¬childPrefix sep dir <+: [sep] := by
  intro h
  rw [childPrefix, if_neg (Ne.symm hne)] at h
  have hlen := h.length_le
  have hpos := length_pos_of_ne_nil hdir
  simp only [length_append] at hlen
  omega

theorem parent_below (hdir : dir ≠ []) (h : dir ++ [sep] <+: path) :
    parent sep path = dir ∨ dir ++ [sep] <+: parent sep path := by
  obtain ⟨rest, rfl⟩ := h
  rw [append_assoc, singleton_append]
  by_cases hrest : sep ∈ rest
  · obtain ⟨front, name, rfl, hname⟩ := exists_split hrest
    have hsplit : dir ++ sep :: (front ++ sep :: name) = (dir ++ sep :: front) ++ sep :: name := by
      simp
    rw [hsplit, parent_split hname]
    exact .inr ⟨front, by simp⟩
  · rw [parent_split hrest, if_neg hdir]
    exact .inl rfl

variable {words : List (List α)}

theorem solid_split (hname : sep ∉ name) :
    Solid sep words (front ++ sep :: name) ↔
      Solid sep words front ∧ ∀ w ∈ words, ¬w <:+ front := by
  constructor
  · intro h
    refine ⟨fun w hw hin => h w hw (hin.trans (prefix_append _ _).isInfix), ?_⟩
    rintro w hw ⟨s, rfl⟩
    exact h w hw ⟨s, name, by simp⟩
  · rintro ⟨hfront, hend⟩ w hw ⟨s, t, heq⟩
    by_cases ht : sep ∈ t
    · obtain ⟨t₁, t₂, rfl, ht₂⟩ := exists_split ht
      have hsplit : s ++ (w ++ [sep]) ++ (t₁ ++ sep :: t₂) =
          (s ++ (w ++ [sep]) ++ t₁) ++ sep :: t₂ := by simp
      rw [hsplit] at heq
      exact hfront w hw ⟨s, t₁, split_unique ht₂ hname heq⟩
    · have hsplit : s ++ (w ++ [sep]) ++ t = (s ++ w) ++ sep :: t := by simp
      rw [hsplit] at heq
      exact hend w hw ⟨s, split_unique ht hname heq⟩

section
variable (hne : ∀ w ∈ words, w ≠ [])
include hne

omit [DecidableEq α] in
theorem solid_root : Solid sep words [sep] := by
  intro w hw hin
  have hpos := length_pos_of_ne_nil (hne w hw)
  have hlen := hin.length_le
  simp only [length_append] at hlen
  omega

omit [DecidableEq α] in
theorem not_suffix_root (hsep : ∀ w ∈ words, sep ∉ w) (hw : w ∈ words) : ¬w <:+ [sep] := by
  intro h
  rcases suffix_cons_iff.mp h with rfl | hnil
  · exact hsep _ hw mem_cons_self
  · exact hne w hw (suffix_nil.mp hnil)

/-- Read off the parent, for words that are not empty and have no separator in them. -/
theorem Normal.solid_iff (hsep : ∀ w ∈ words, sep ∉ w) (h : Normal sep path) :
    Solid sep words path ↔
      Solid sep words (parent sep path) ∧ ∀ w ∈ words, ¬w <:+ parent sep path := by
  obtain ⟨front, name, rfl, hname⟩ := exists_split h.mem
  rw [solid_split hname, parent_split hname]
  by_cases hfront : front = []
  · rw [hfront]
    refine iff_of_true ⟨fun w _ hin => ?_, fun w hw hend => ?_⟩
      ⟨solid_root hne, fun w hw hend => not_suffix_root hne hsep hw hend⟩
    · simpa using infix_nil.mp hin
    · exact hne w hw (suffix_nil.mp hend)
  · rw [if_neg hfront]
end

omit [DecidableEq α] in
theorem Solid.mono (h : Solid sep words path) (hin : front <:+: path) :
    Solid sep words front := fun w hw hi => h w hw (hi.trans hin)

end SlashPath
