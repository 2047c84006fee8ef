import Mathlib.Tactic

/-! # Sorted tables

Maps with sorted keys, equal when they hold the same entries. Lookups after an update are
read off with equality of keys instead of their comparison. -/
namespace SortedTable

open Std Std.ExtTreeMap

abbrev Table (κ β : Type) [Ord κ] := ExtTreeMap κ β compare

variable {κ β : Type} [Ord κ] [TransOrd κ] [LawfulEqOrd κ] [DecidableEq κ] {t : Table κ β}

omit [DecidableEq κ] in
theorem ext (h : ∀ k : κ, t[k]? = t'[k]?) : t = t' := ExtTreeMap.ext_getElem? h

theorem get_insert (t : Table κ β) (k k' : κ) (v : β) :
    (t.insert k v)[k']? = if k = k' then some v else t[k']? := by
  rw [ExtTreeMap.getElem?_insert]
  by_cases h : k = k'
  · rw [if_pos h, if_pos (Std.compare_eq_iff_eq.mpr h)]
  · rw [if_neg h, if_neg fun he => h (Std.compare_eq_iff_eq.mp he)]

theorem get_insert_ne (h : k ≠ k') : (t.insert k v)[k']? = t[k']? := by
  rw [get_insert, if_neg h]

theorem get_erase (t : Table κ β) (k k' : κ) :
    (t.erase k)[k']? = if k = k' then none else t[k']? := by
  rw [ExtTreeMap.getElem?_erase]
  by_cases h : k = k'
  · rw [if_pos h, if_pos (Std.compare_eq_iff_eq.mpr h)]
  · rw [if_neg h, if_neg fun he => h (Std.compare_eq_iff_eq.mp he)]

variable {k : κ}

theorem get_eraseAll_of_not_mem (t : Table κ β) {ks : List κ} (h : k ∉ ks) :
    (ks.foldl (fun t k => t.erase k) t)[k]? = t[k]? := by
  induction ks generalizing t with
  | nil => rfl
  | cons k' ks ih =>
    obtain ⟨hk, hks⟩ := not_or.mp fun hm => h (List.mem_cons.mpr hm)
    rw [List.foldl_cons, ih _ hks, get_erase, if_neg (Ne.symm hk)]

theorem get_eraseAll_of_mem (t : Table κ β) {ks : List κ} (h : k ∈ ks) :
    (ks.foldl (fun t k => t.erase k) t)[k]? = none := by
  induction ks generalizing t with
  | nil => cases h
  | cons k' ks ih =>
    rw [List.foldl_cons]
    by_cases hks : k ∈ ks
    · exact ih _ hks
    · rw [get_eraseAll_of_not_mem _ hks, get_erase,
        if_pos ((List.mem_cons.mp h).resolve_right hks).symm]

/-- An entry put under a free key and taken away again leaves no trace. -/
theorem erase_insert (h : t[k]? = none) (v : β) : (t.insert k v).erase k = t := by
  refine ext fun k' => ?_
  rw [get_erase, get_insert]
  by_cases hk : k = k'
  · rw [if_pos hk, ← hk, h]
  · rw [if_neg hk, if_neg hk]

theorem insert_insert (t : Table κ β) (k : κ) (v v' : β) :
    (t.insert k v).insert k v' = t.insert k v' := by
  refine ext fun k' => ?_
  rw [get_insert, get_insert, get_insert]
  by_cases hk : k = k'
  · rw [if_pos hk, if_pos hk]
  · rw [if_neg hk, if_neg hk, if_neg hk]

theorem insert_get (h : t[k]? = some v) : t.insert k v = t := by
  refine ext fun k' => ?_
  rw [get_insert]
  by_cases hk : k = k'
  · rw [if_pos hk, ← hk, h]
  · rw [if_neg hk]

theorem erase_absent (h : k ∉ t) : t.erase k = t := by
  refine ext fun k' => ?_
  rw [get_erase]
  by_cases hk : k = k'
  · rw [if_pos hk, ← hk, ExtTreeMap.getElem?_eq_none h]
  · rw [if_neg hk]

def Each (P : β → Prop) (t : Table κ β) : Prop := ∀ (k : κ) (v : β), t[k]? = some v → P v

section
theorem Each.insert (h : Each P t) (hv : P v) : Each P (t.insert k v) := by
  intro k' v' hk
  rw [get_insert] at hk
  split at hk
  · cases hk
    exact hv
  · exact h k' v' hk

theorem Each.erase (h : Each P t) (k : κ) : Each P (t.erase k) := by
  intro k' v' hk
  rw [get_erase] at hk
  split at hk
  · cases hk
  · exact h k' v' hk

omit [LawfulEqOrd κ] [DecidableEq κ] in
theorem each_empty : Each P (∅ : Table κ β) := by
  intro k v hk
  cases hk
end

def values (t : Table κ β) : List β := t.toList.map Prod.snd

omit [DecidableEq κ] in
theorem mem_values : v ∈ values t ↔ ∃ k : κ, t[k]? = some v := by
  rw [values, List.mem_map]
  constructor
  · rintro ⟨⟨k, v⟩, hm, rfl⟩
    exact ⟨k, mem_toList_iff_getElem?_eq_some.mp hm⟩
  · rintro ⟨k, hk⟩
    exact ⟨(k, v), mem_toList_iff_getElem?_eq_some.mpr hk, rfl⟩

omit [LawfulEqOrd κ] [DecidableEq κ] in
theorem values_map {γ : Type} (t : Table κ β) (f : β → γ) :
    values (t.map fun _ v => f v) = (values t).map f := by
  rw [values, values, toList_map, List.map_map, List.map_map]
  rfl

theorem map_insert {γ : Type} (t : Table κ β) (k : κ) (v : β) (f : κ → β → γ) :
    (t.insert k v).map f = (t.map f).insert k (f k v) := by
  refine ext fun k' => ?_
  rw [get_insert, getElem?_map, getElem?_map, get_insert]
  by_cases hk : k = k'
  · rw [if_pos hk, if_pos hk, hk]
    rfl
  · rw [if_neg hk, if_neg hk]

theorem keys_insert (h : k ∈ t) (v : β) :
    (t.insert k v).toList.map Prod.fst = t.toList.map Prod.fst := by
  have hunit : (t.insert k v).map (fun _ _ => ()) = t.map fun _ _ => () := by
    rw [map_insert, insert_get]
    rw [getElem?_map, getElem?_eq_some_getElem h]
    rfl
  have hlist := congrArg (·.toList.map Prod.fst) hunit
  simpa [Function.comp_def] using hlist

/-- The values tell an insertion apart from no insertion, unless the entry was there. -/
theorem values_insert_iff : values (t.insert k v) = values t ↔ t[k]? = some v := by
  refine ⟨fun h => ?_, fun h => by rw [insert_get h]⟩
  have hmem : k ∈ t := by
    by_contra hk
    have hlen := congrArg List.length h
    have hc : t.contains k = false := Bool.eq_false_iff.mpr hk
    simp [values, size_insert, hc] at hlen
  have hlist := (List.zip_of_prod (keys_insert hmem v) h).trans (List.zip_of_prod rfl rfl).symm
  rw [← toList_inj.mp hlist, get_insert, if_pos rfl]

end SortedTable
