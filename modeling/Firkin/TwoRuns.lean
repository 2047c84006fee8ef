import Firkin.FaultMonad

/-! # Two runs side by side

`R` relates two states. A computation is tied by `R` if its two runs from related states
return the same value or fail with the same error, and leave related states behind. -/
namespace TwoRuns

open FaultMonad

variable {ε σ α β ι : Type}

def Paired (R : σ → σ → Prop) : EStateM.Result ε σ α → EStateM.Result ε σ α → Prop
  | .ok a s, .ok b t => a = b ∧ R s t
  | .error e s, .error f t => e = f ∧ R s t
  | _, _ => False

def Tied (R : σ → σ → Prop) (m : EStateM ε σ α) : Prop := ∀ s t, R s t → Paired R (m s) (m t)

variable {R : σ → σ → Prop} {m m' : EStateM ε σ α} {k k' : α → EStateM ε σ β} {s t : σ}

theorem Paired.cases (h : Paired R r r') :
    (∃ a u v, r = .ok a u ∧ r' = .ok a v ∧ R u v) ∨
      ∃ e u v, r = .error e u ∧ r' = .error e v ∧ R u v := by
  cases r with
  | ok a u =>
    cases r' with
    | ok b v =>
      obtain ⟨rfl, h⟩ := h
      exact .inl ⟨a, u, v, rfl, rfl, h⟩
    | error f v => exact h.elim
  | error e u =>
    cases r' with
    | ok b v => exact h.elim
    | error f v =>
      obtain ⟨rfl, h⟩ := h
      exact .inr ⟨e, u, v, rfl, rfl, h⟩

theorem Paired.mono (h : Paired R r r') (hS : ∀ u v, R u v → S u v) : Paired S r r' := by
  obtain ⟨a, u, v, rfl, rfl, huv⟩ | ⟨e, u, v, rfl, rfl, huv⟩ := h.cases
  · exact ⟨rfl, hS u v huv⟩
  · exact ⟨rfl, hS u v huv⟩

theorem Paired.bind (h : Paired R (m s) (m' t))
    (hk : ∀ a u v, m s = .ok a u → m' t = .ok a v → R u v → Paired R (k a u) (k' a v)) :
    Paired R ((m >>= k) s) ((m' >>= k') t) := by
  obtain ⟨a, u, v, hu, hv, huv⟩ | ⟨e, u, v, hu, hv, huv⟩ := h.cases
  · rw [bind_of_ok hu, bind_of_ok hv]
    exact hk a u v hu hv huv
  · rw [bind_of_error hu, bind_of_error hv]
    exact ⟨rfl, huv⟩

/-- A value computed apart from the state, the same on both sides. -/
theorem paired_ofExcept_bind (h : R s t) (he : r' = r) (hk : ∀ a, Paired R (k a s) (k' a t)) :
    Paired R ((MonadExcept.ofExcept r >>= k) s) ((MonadExcept.ofExcept r' >>= k') t) := by
  subst he
  cases r' with
  | ok a => exact hk a
  | error e => exact ⟨rfl, h⟩

theorem Tied.bind (h : Tied R m) (hk : ∀ a, Tied R (k a)) : Tied R (m >>= k) :=
  fun s t hst => (h s t hst).bind fun a u v _ _ huv => hk a u v huv

theorem tied_pure (a : α) : Tied R (pure a : EStateM ε σ α) := fun _ _ h => ⟨rfl, h⟩

theorem tied_throw : Tied R (throw e : EStateM ε σ α) := fun _ _ h => ⟨rfl, h⟩

theorem tied_ite [Decidable c] (h : Tied R m) (h' : Tied R m') : Tied R (if c then m else m') := by
  split
  · exact h
  · exact h'

theorem tied_modify (h : ∀ s t, R s t → R (g s) (g t)) : Tied R (modify g : EStateM ε σ PUnit) :=
  fun s t hst => ⟨rfl, h s t hst⟩

theorem tied_ofExcept_bind (h : ∀ a, Tied R (k a)) : Tied R (MonadExcept.ofExcept r >>= k) :=
  fun s t hst => paired_ofExcept_bind hst rfl fun a => h a s t hst

/-- The state is read, but only what related states share. -/
theorem tied_get_bind {k : σ → EStateM ε σ β} (hk : ∀ s t, R s t → k s = k t)
    (h : ∀ s, Tied R (k s)) : Tied R (get >>= k) := by
  intro s t hst
  change Paired R (k s s) (k t t)
  rw [hk s t hst]
  exact h t s t hst

theorem tied_forM {as : List ι} {p : ι → EStateM ε σ PUnit} (h : ∀ a, Tied R (p a)) :
    Tied R (as.forM p) := by
  induction as with
  | nil => exact tied_pure _
  | cons a as ih => exact (h a).bind fun _ => ih

end TwoRuns
