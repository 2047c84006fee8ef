import Mathlib.Algebra.BigOperators.Group.List.Basic
import Mathlib.Tactic

/-! # Ordered maps of queues

An ordered map whose values are queues, read through `queue` so that an absent key and an
empty queue look alike. `settle` puts a queue back and drops the key when nothing is left.
Totals over all entries change by what changes in one queue. -/
namespace QueueMap

open Std TreeMap

variable {K V M : Type} [Ord K]

section
variable [AddCommMonoid M]

/-- The sum of `f` over the bindings of a map. -/
def sumOver (f : K → V → M) (m : TreeMap K V) : M := (m.toList.map fun p => f p.1 p.2).sum

def share (f : K → V → M) (m : TreeMap K V) (k : K) : M :=
  match m[k]? with
  | some v => f k v
  | none => 0

theorem sumOver_one {f : K → V → Nat} (hf : ∀ k v, f k v = 1) (m : TreeMap K V) :
    sumOver f m = m.size := by
  simp only [sumOver, hf, List.map_const', List.sum_replicate, smul_eq_mul, mul_one]
  exact TreeMap.length_toList

variable [TransOrd K]

theorem nodup_toList (m : TreeMap K V) : m.toList.Nodup := by
  have h := m.nodup_keys
  rw [← map_fst_toList_eq_keys] at h
  exact List.Nodup.of_map _ h

open Classical in
noncomputable def others (m : TreeMap K V) (k : K) : List (K × V) :=
  m.toList.filter fun p => p.1 ≠ k

theorem nodup_others (m : TreeMap K V) (k : K) : (others m k).Nodup := by
  exact (nodup_toList m).filter _

variable [LawfulEqOrd K] {m : TreeMap K V}

theorem mem_others : p ∈ others m k ↔ m[p.1]? = some p.2 ∧ p.1 ≠ k := by
  classical
  rw [others, List.mem_filter, decide_eq_true_eq, ← mem_toList_iff_getElem?_eq_some]

theorem toList_perm_of_some (h : m[k]? = some v) : m.toList.Perm ((k, v) :: others m k) := by
  refine (List.perm_ext_iff_of_nodup (nodup_toList m) ?_).mpr ?_
  · exact List.nodup_cons.mpr ⟨fun hm => (mem_others.mp hm).2 rfl, nodup_others m k⟩
  · rintro ⟨a, b⟩
    rw [mem_toList_iff_getElem?_eq_some, List.mem_cons, mem_others, Prod.mk.injEq]
    constructor
    · intro hab
      by_cases ha : a = k
      · subst ha
        exact .inl ⟨rfl, Option.some.inj (hab.symm.trans h)⟩
      · exact .inr ⟨hab, ha⟩
    · rintro (⟨rfl, rfl⟩ | ⟨hab, _⟩)
      · exact h
      · exact hab

theorem toList_perm_of_none (h : m[k]? = none) : m.toList.Perm (others m k) := by
  refine (List.perm_ext_iff_of_nodup (nodup_toList m) (nodup_others m k)).mpr ?_
  rintro ⟨a, b⟩
  rw [mem_toList_iff_getElem?_eq_some, mem_others]
  refine ⟨fun hab => ⟨hab, ?_⟩, fun hab => hab.1⟩
  rintro rfl
  cases h.symm.trans hab

theorem others_congr {m' : TreeMap K V} (h : ∀ a ≠ k, m'[a]? = m[a]?) :
    (others m' k).Perm (others m k) := by
  refine (List.perm_ext_iff_of_nodup (nodup_others m' k) (nodup_others m k)).mpr ?_
  rintro ⟨a, b⟩
  rw [mem_others, mem_others]
  exact and_congr_left fun ha => by rw [h a ha]

theorem others_insert (m : TreeMap K V) (k : K) (v : V) :
    (others (m.insert k v) k).Perm (others m k) :=
  others_congr fun a ha => by
    rw [getElem?_insert, if_neg fun he => ha (Std.compare_eq_iff_eq.mp he).symm]

theorem others_erase (m : TreeMap K V) (k : K) : (others (m.erase k) k).Perm (others m k) :=
  others_congr fun a ha => by
    rw [getElem?_erase, if_neg fun he => ha (Std.compare_eq_iff_eq.mp he).symm]

theorem sumOver_split (f : K → V → M) (m : TreeMap K V) (k : K) :
    sumOver f m = share f m k + ((others m k).map fun p => f p.1 p.2).sum := by
  unfold share
  cases h : m[k]? with
  | some v => rw [sumOver, ((toList_perm_of_some h).map _).sum_eq, List.map_cons, List.sum_cons]
  | none => rw [sumOver, ((toList_perm_of_none h).map _).sum_eq, zero_add]

theorem sumOver_insert (f : K → V → M) (m : TreeMap K V) (k : K) (v : V) :
    sumOver f (m.insert k v) + share f m k = sumOver f m + f k v := by
  have hshare : share f (m.insert k v) k = f k v := by
    rw [share, getElem?_insert_self]
  rw [sumOver_split f (m.insert k v) k, sumOver_split f m k, hshare,
    ((others_insert m k v).map _).sum_eq]
  abel

theorem sumOver_erase (f : K → V → M) (m : TreeMap K V) (k : K) :
    sumOver f (m.erase k) + share f m k = sumOver f m := by
  have hshare : share f (m.erase k) k = 0 := by
    rw [share, getElem?_erase_self]
  rw [sumOver_split f (m.erase k) k, sumOver_split f m k, hshare, ((others_erase m k).map _).sum_eq]
  abel

theorem le_sumOver [PartialOrder M] [CanonicallyOrderedAdd M] (f : K → V → M)
    (h : m[k]? = some v) : f k v ≤ sumOver f m := by
  have hshare : share f m k = f k v := by rw [share, h]
  rw [sumOver_split f m k, hshare]
  exact le_self_add
end

def queue (m : TreeMap K (List V)) (k : K) : List V := m[k]?.getD []

def settle (m : TreeMap K (List V)) (k : K) (q : List V) : TreeMap K (List V) :=
  if q.isEmpty then m.erase k else m.insert k q

def flat (m : TreeMap K (List V)) : List V := m.toList.flatMap Prod.snd

/-- The sum of `g` over all entries. -/
def total [AddCommMonoid M] (g : V → M) (m : TreeMap K (List V)) : M := ((flat m).map g).sum

variable {m : TreeMap K (List V)} {k : K}

theorem queue_some (h : m[k]? = some q) : queue m k = q := by rw [queue, h, Option.getD_some]

theorem queue_none (h : m[k]? = none) : queue m k = [] := by
  rw [queue, h, Option.getD_none]

theorem queue_cons : queue m k = v :: q ↔ m[k]? = some (v :: q) := by
  constructor
  · intro h
    unfold queue at h
    cases hk : m[k]? with
    | none => rw [hk] at h; cases h
    | some q' => rw [hk] at h; exact congrArg some h
  · exact queue_some

variable [TransOrd K] [LawfulEqOrd K]

theorem queue_insert [DecidableEq K] (m : TreeMap K (List V)) (k k' : K) (q : List V) :
    queue (m.insert k q) k' = if k = k' then q else queue m k' := by
  rw [queue, getElem?_insert]
  by_cases h : k = k'
  · rw [if_pos (Std.compare_eq_iff_eq.mpr h), if_pos h, Option.getD_some]
  · rw [if_neg fun he => h (Std.compare_eq_iff_eq.mp he), if_neg h]
    rfl

theorem queue_erase [DecidableEq K] (m : TreeMap K (List V)) (k k' : K) :
    queue (m.erase k) k' = if k = k' then [] else queue m k' := by
  rw [queue, getElem?_erase]
  by_cases h : k = k'
  · rw [if_pos (Std.compare_eq_iff_eq.mpr h), if_pos h, Option.getD_none]
  · rw [if_neg fun he => h (Std.compare_eq_iff_eq.mp he), if_neg h]
    rfl

theorem queue_settle [DecidableEq K] (m : TreeMap K (List V)) (k k' : K) (q : List V) :
    queue (settle m k q) k' = if k = k' then q else queue m k' := by
  unfold settle
  split
  · next h => rw [queue_erase, List.isEmpty_iff.mp h]
  · rw [queue_insert]

theorem mem_of_settle [DecidableEq K] (hq : queue m k = v :: q)
    (h : w ∈ queue (settle m k q) k') : w ∈ queue m k' := by
  rw [queue_settle] at h
  split at h
  · next hk =>
    rw [← hk, hq]
    exact List.mem_cons_of_mem v h
  · exact h

theorem mem_of_push [DecidableEq K]
    (h : w ∈ queue (m.insert k (queue m k ++ [v])) k') : w ∈ queue m k' ∨ k = k' ∧ w = v := by
  rw [queue_insert] at h
  split at h
  · next hk =>
    rcases List.mem_append.mp h with h | h
    · exact .inl (hk ▸ h)
    · exact .inr ⟨hk, List.mem_singleton.mp h⟩
  · exact .inl h

section
variable [AddCommMonoid M] (g : V → M)

omit [TransOrd K] [LawfulEqOrd K] in
theorem total_eq_sumOver (m : TreeMap K (List V)) :
    total g m = sumOver (fun _ (q : List V) => (q.map g).sum) m := by
  rw [total, flat, List.map_flatMap, List.flatMap, List.sum_flatten, List.map_map]
  rfl

omit [TransOrd K] [LawfulEqOrd K] in
theorem share_queue (m : TreeMap K (List V)) (k : K) :
    share (fun _ (q : List V) => (q.map g).sum) m k = ((queue m k).map g).sum := by
  unfold share queue
  cases m[k]? <;> rfl

theorem total_insert (m : TreeMap K (List V)) (k : K) (q : List V) :
    total g (m.insert k q) + ((queue m k).map g).sum = total g m + (q.map g).sum := by
  rw [total_eq_sumOver, total_eq_sumOver, ← share_queue, sumOver_insert]

theorem total_settle (m : TreeMap K (List V)) (k : K) (q : List V) :
    total g (settle m k q) + ((queue m k).map g).sum = total g m + (q.map g).sum := by
  unfold settle
  split
  · next h =>
    rw [List.isEmpty_iff.mp h, total_eq_sumOver, total_eq_sumOver, ← share_queue, sumOver_erase]
    simp
  · exact total_insert g m k q

theorem total_pop {M : Type} [AddCancelCommMonoid M] (g : V → M) {k : K}
    {v : V} (hq : queue m k = v :: q) : total g (settle m k q) + g v = total g m := by
  have h := total_settle g m k q
  rw [hq, List.map_cons, List.sum_cons, ← add_assoc] at h
  exact add_right_cancel h

theorem total_push {M : Type} [AddCancelCommMonoid M] (g : V → M) (m : TreeMap K (List V)) (k : K)
    (v : V) : total g (m.insert k (queue m k ++ [v])) = total g m + g v := by
  have h := total_insert g m k (queue m k ++ [v])
  rw [List.map_append, List.sum_append, ← add_assoc, add_right_comm] at h
  simpa using add_right_cancel h

theorem flat_insert (m : TreeMap K (List V)) (k : K) (q : List V) :
    (flat (m.insert k q) : Multiset V) + (queue m k : Multiset V) =
      (flat m : Multiset V) + (q : Multiset V) := by
  have hsum : ∀ l : List V, (l.map fun v => ({v} : Multiset V)).sum = (l : Multiset V) := by
    intro l
    rw [← Multiset.sum_coe, ← Multiset.map_coe, Multiset.sum_map_singleton]
  have h := total_insert (fun v => ({v} : Multiset V)) m k q
  simpa only [total, hsum] using h

theorem flat_push :
    (flat (m.insert k (queue m k ++ [v])) : Multiset V) = v ::ₘ (flat m : Multiset V) := by
  have h := flat_insert m k (queue m k ++ [v])
  rw [← Multiset.coe_add, add_comm (queue m k : Multiset V), ← add_assoc] at h
  rw [add_right_cancel h, add_comm]
  rfl

theorem flat_cut (h : queue m k = q ++ out) :
    (flat m : Multiset V) = (flat (m.insert k q) : Multiset V) + (out : Multiset V) := by
  have hi := flat_insert m k q
  rw [h, ← Multiset.coe_add, add_comm (q : Multiset V), ← add_assoc] at hi
  exact (add_right_cancel hi).symm
end

theorem mem_flat : v ∈ flat m ↔ ∃ k, v ∈ queue m k := by
  rw [flat, List.mem_flatMap]
  constructor
  · rintro ⟨⟨k, q⟩, hp, hv⟩
    exact ⟨k, by rw [queue_some (mem_toList_iff_getElem?_eq_some.mp hp)]; exact hv⟩
  · rintro ⟨k, hv⟩
    cases hk : m[k]? with
    | none => rw [queue_none hk] at hv; cases hv
    | some q =>
      rw [queue_some hk] at hv
      exact ⟨(k, q), mem_toList_iff_getElem?_eq_some.mpr hk, hv⟩

omit [Ord K] [TransOrd K] [LawfulEqOrd K] in
theorem flatMap_key [DecidableEq K] {l : List (K × List V)} (hl : (l.map Prod.fst).Nodup)
    (hq : (k, q) ∈ l) : l.flatMap (fun p => if p.1 = k then p.2 else []) = q := by
  induction l with
  | nil => cases hq
  | cons p l ih =>
    obtain ⟨hp, hl⟩ := List.nodup_cons.mp hl
    rw [List.flatMap_cons]
    rcases List.mem_cons.mp hq with rfl | hq
    · have hrest : l.flatMap (fun p => if p.1 = k then p.2 else []) = [] := by
        refine List.flatMap_eq_nil_iff.mpr fun a ha => if_neg fun he => hp ?_
        exact List.mem_map.mpr ⟨a, ha, he⟩
      rw [if_pos rfl, hrest, List.append_nil]
    · have hne : p.1 ≠ k := fun he => hp (List.mem_map.mpr ⟨(k, q), hq, he.symm⟩)
      rw [if_neg hne, List.nil_append, ih hl hq]

/-- When every entry knows its key, the entries of one key are its queue. -/
theorem filter_flat [DecidableEq K] {key : V → K} (h : ∀ k, ∀ v ∈ queue m k, key v = k) (k : K) :
    (flat m).filter (fun v => key v = k) = queue m k := by
  have hpart : ∀ p ∈ m.toList, p.2.filter (fun v => key v = k) = if p.1 = k then p.2 else [] := by
    rintro ⟨a, q⟩ hp
    have hq := queue_some (mem_toList_iff_getElem?_eq_some.mp hp)
    split
    · next ha => exact List.filter_eq_self.mpr fun v hv => by simp [h a v (hq ▸ hv), ← ha]
    · next ha =>
      refine List.filter_eq_nil_iff.mpr fun v hv => ?_
      simpa [h a v (hq ▸ hv)] using ha
  have hfilter : (flat m).filter (fun v => key v = k) =
      m.toList.flatMap fun p => if p.1 = k then p.2 else [] := by
    rw [flat, List.filter_flatMap]
    exact List.flatMap_congr hpart
  rw [hfilter]
  cases hk : m[k]? with
  | none =>
    rw [queue_none hk]
    refine List.flatMap_eq_nil_iff.mpr fun p hp => if_neg ?_
    rintro rfl
    rw [mem_toList_iff_getElem?_eq_some.mp hp] at hk
    cases hk
  | some q =>
    rw [queue_some hk]
    refine flatMap_key ?_ (mem_toList_iff_getElem?_eq_some.mpr hk)
    rw [map_fst_toList_eq_keys]
    exact m.nodup_keys

def Sorted (l : List (K × V)) : Prop := l.Pairwise fun a b => compare a.1 b.1 = .lt

omit [LawfulEqOrd K] in
theorem eq_of_sorted {l l' : List (K × V)} (h : Sorted l) (h' : Sorted l') (hp : l.Perm l') :
    l = l' := by
  refine hp.eq_of_pairwise (fun a b _ _ hab hba => ?_) h h'
  rw [OrientedOrd.eq_swap, hab] at hba
  cases hba

omit [LawfulEqOrd K] in
theorem sorted_others (m : TreeMap K V) (k : K) : Sorted (others m k) := by
  exact m.ordered_keys_toList.filter _

theorem toList_of_minKey? (hk : m[k]? = some v)
    (hmin : ∀ p ∈ others m k, compare k p.1 = .lt) : m.toList = (k, v) :: others m k :=
  eq_of_sorted m.ordered_keys_toList (List.pairwise_cons.mpr ⟨hmin, sorted_others m k⟩)
    (toList_perm_of_some hk)

theorem before_others (h : m.minKey? = some k) : ∀ p ∈ others m k, compare k p.1 = .lt := by
  intro p hp
  obtain ⟨hget, hne⟩ := mem_others.mp hp
  have hmem : p.1 ∈ m := mem_iff_isSome_getElem?.mpr (by rw [hget]; rfl)
  have hle := (minKey?_eq_some_iff_mem_and_forall.mp h).2 p.1 hmem
  refine Ordering.isLE_iff_eq_lt_or_eq_eq.mp hle |>.resolve_right fun heq => hne ?_
  exact (Std.compare_eq_iff_eq.mp heq).symm

/-- Taking the first entry of the first key off takes the first of all entries off. -/
theorem flat_settle_min
    (hmin : m.minKey? = some k) (hq : queue m k = v :: q) : flat m = v :: flat (settle m k q) := by
  have hothers := before_others hmin
  have hrest : flat (settle m k q) = q ++ (others m k).flatMap Prod.snd := by
    unfold settle
    cases q with
    | nil =>
      have hlist : (m.erase k).toList = others m k :=
        eq_of_sorted ordered_keys_toList (sorted_others m k)
          ((toList_perm_of_none getElem?_erase_self).trans (others_erase m k))
      rw [List.isEmpty_nil, if_pos rfl, flat, hlist, List.nil_append]
    | cons w q =>
      have hsame : others (m.insert k (w :: q)) k = others m k :=
        eq_of_sorted (sorted_others _ k) (sorted_others m k) (others_insert m k _)
      rw [List.isEmpty_cons, if_neg Bool.false_ne_true, flat,
        toList_of_minKey? getElem?_insert_self (hsame ▸ hothers), hsame, List.flatMap_cons]
  rw [flat, toList_of_minKey? (queue_cons.mp hq) hothers, List.flatMap_cons, hrest,
    List.cons_append]

end QueueMap
