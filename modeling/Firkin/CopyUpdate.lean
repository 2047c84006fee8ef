import Firkin.Interleaving

/-! # Updates by copy

Concurrent calls that each copy a shared value, save a changed one, and may put their old copy
back. `version` counts the writes, and a call remembers the count of its last access. As long
as each call writes to the value it last saw, the value is that of the updates in effect, one
after the other. -/
namespace CopyUpdate

open Interleaving

variable {α υ ε : Type}

/-- Where a call stands: it has no part in the value, it holds a copy, it has saved its update
and still holds the copy, or its update is there to stay. -/
inductive Standing (α υ : Type) where
  | out
  | loaded (version : Nat) (copy : α)
  | saved (update : υ) (version : Nat) (copy : α)
  | kept (update : υ)

def effect : Standing α υ → Multiset υ
  | .out | .loaded _ _ => 0
  | .saved u _ _ | .kept u => {u}

def replay (apply : υ → α → Except ε α) (x₀ : α) (log : List υ) : Except ε α :=
  log.foldlM (fun x u => apply u x) x₀

theorem replay_snoc (h : replay apply x₀ log = .ok x) (hu : apply u x = .ok y) :
    replay apply x₀ (log ++ [u]) = .ok y := by
  unfold replay at h ⊢
  rw [List.foldlM_append, h]
  change (apply u x >>= pure) = _
  rw [hu]
  rfl

/-- The value is that of the updates in effect in the order of `log`, and a call that was the
last to access it knows what it was. -/
structure Serial (apply : υ → α → Except ε α) (x₀ value : α) (version : Nat)
    (calls : List (Standing α υ)) (log : List υ) : Prop where
  counted : (log : Multiset υ) = sum effect calls
  replayed : replay apply x₀ log = .ok value
  loaded : ∀ v x, .loaded v x ∈ calls → v ≤ version ∧ (v = version → x = value)
  saved : ∀ u v x, .saved u v x ∈ calls → v ≤ version ∧
    (v = version → ∃ before, log = before ++ [u] ∧ replay apply x₀ before = .ok x)

variable {apply : υ → α → Except ε α} {x₀ value x : α} {version c : Nat}
  {calls : List (Standing α υ)} {log : List υ} {u : υ}

theorem serial_start : Serial apply x₀ x₀ version [] [] where
  counted := rfl
  replayed := rfl
  loaded _ _ h := absurd h List.not_mem_nil
  saved _ _ _ h := absurd h List.not_mem_nil

section
variable (h : Serial apply x₀ value version calls log)
include h

theorem Serial.enter : Serial apply x₀ value version (calls ++ [.out]) log where
  counted := by rw [sum_append_one, h.counted]; simp [effect]
  replayed := h.replayed
  loaded v x hm := h.loaded v x (by simpa using hm)
  saved u v x hm := h.saved u v x (by simpa using hm)

theorem Serial.stay (hp : calls[c]? = some p) :
    Serial apply x₀ value version (calls.set c p) log := by
  obtain ⟨hc, rfl⟩ := List.getElem?_eq_some_iff.mp hp
  rwa [List.set_getElem_self hc]

theorem Serial.move (hp : calls[c]? = some p)
    (he : effect q = effect p) (hloaded : ∀ v x, q = .loaded v x → v = version ∧ x = value)
    (hsaved : ∀ u v x, q ≠ .saved u v x) : Serial apply x₀ value version (calls.set c q) log where
  counted := by
    have hsum := sum_set effect hp q
    rw [he] at hsum
    rw [add_right_cancel hsum, h.counted]
  replayed := h.replayed
  loaded v x hm := by
    rcases List.mem_or_eq_of_mem_set hm with hm | hq
    · exact h.loaded v x hm
    · obtain ⟨rfl, rfl⟩ := hloaded v x hq.symm
      exact ⟨le_rfl, fun _ => rfl⟩
  saved u v x hm := by
    rcases List.mem_or_eq_of_mem_set hm with hm | hq
    · exact h.saved u v x hm
    · exact absurd hq.symm (hsaved u v x)

theorem Serial.written {value' : α} {log' : List υ}
    (hcounted : (log' : Multiset υ) = sum effect (calls.set c q))
    (hreplayed : replay apply x₀ log' = .ok value') (hq : ∀ v x, q ≠ .loaded v x)
    (hsaved : ∀ u v x, q = .saved u v x → v = version + 1 ∧
      ∃ before, log' = before ++ [u] ∧ replay apply x₀ before = .ok x) :
    Serial apply x₀ value' (version + 1) (calls.set c q) log' where
  counted := hcounted
  replayed := hreplayed
  loaded v x hm := by
    rcases List.mem_or_eq_of_mem_set hm with hm | he
    · have hle := (h.loaded v x hm).1
      exact ⟨by omega, fun _ => by omega⟩
    · exact absurd he.symm (hq v x)
  saved u v x hm := by
    rcases List.mem_or_eq_of_mem_set hm with hm | he
    · have hle := (h.saved u v x hm).1
      exact ⟨by omega, fun _ => by omega⟩
    · obtain ⟨rfl, hlast⟩ := hsaved u v x he.symm
      exact ⟨le_rfl, fun _ => hlast⟩

theorem Serial.save (hp : calls[c]? = some (.loaded version x)) (hu : apply u x = .ok y) :
    Serial apply x₀ y (version + 1) (calls.set c (.saved u (version + 1) x)) (log ++ [u]) := by
  have hx : x = value := (h.loaded version x (List.mem_of_getElem? hp)).2 rfl
  subst hx
  refine h.written ?_ (replay_snoc h.replayed hu) (fun v x' he => by cases he) ?_
  · have hsum := sum_set effect hp (.saved u (version + 1) x)
    rw [← Multiset.coe_add, h.counted]
    simpa [effect] using hsum.symm
  · rintro u' v' x' ⟨⟩
    exact ⟨rfl, log, rfl, h.replayed⟩

theorem Serial.undo (hp : calls[c]? = some (.saved u version x)) :
    ∃ before, Serial apply x₀ x (version + 1) (calls.set c .out) before := by
  obtain ⟨before, rfl, hbefore⟩ := (h.saved u version x (List.mem_of_getElem? hp)).2 rfl
  refine ⟨before, h.written ?_ hbefore (fun v x' he => by cases he) fun u' v' x' he => by cases he⟩
  have hsum := sum_set effect hp (.out : Standing α υ)
  rw [← h.counted, ← Multiset.coe_add] at hsum
  have hcancel : (before : Multiset υ) + {u} = sum effect (calls.set c .out) + {u} := by
    simpa [effect] using hsum.symm
  exact add_right_cancel hcancel

theorem Serial.keep (hp : calls[c]? = some (.saved u v x)) :
    Serial apply x₀ value version (calls.set c (.kept u)) log :=
  h.move hp rfl (fun v x he => by cases he) fun u v x he => by cases he
end

end CopyUpdate
