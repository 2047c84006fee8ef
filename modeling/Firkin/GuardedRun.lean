import Mathlib.Tactic

/-! # Runs whose steps meet a condition

A run is a list of inputs fed to a step function. `Meets` asks every input for a condition on
itself and on the state it finds, and what such steps keep, such runs keep. -/
namespace GuardedRun

variable {σ α : Type} {step : σ → α → σ} {ok : σ → α → Prop} {s : σ} {as : List α}

abbrev run (step : σ → α → σ) (s : σ) (as : List α) : σ := as.foldl step s

def Meets (step : σ → α → σ) (ok : σ → α → Prop) : σ → List α → Prop
  | _, [] => True
  | s, a :: as => ok s a ∧ Meets step ok (step s a) as

instance [∀ s a, Decidable (ok s a)] : ∀ s as, Decidable (Meets step ok s as)
  | _, [] => .isTrue trivial
  | s, a :: as =>
    have : Decidable (Meets step ok (step s a) as) := instDecidableMeets (step s a) as
    inferInstanceAs (Decidable (ok s a ∧ Meets step ok (step s a) as))

theorem meets_append :
    Meets step ok s (as ++ bs) ↔ Meets step ok s as ∧ Meets step ok (run step s as) bs := by
  induction as generalizing s with
  | nil => simp [Meets]
  | cons a as ih => simp [Meets, ih, and_assoc]

/-- What every step that meets the condition keeps holds at the end of the run. -/
theorem Meets.keeps {I : σ → Prop} (h : Meets step ok s as)
    (hstep : ∀ s a, I s → ok s a → I (step s a)) (h₀ : I s) : I (run step s as) := by
  induction as generalizing s with
  | nil => exact h₀
  | cons a as ih => exact ih h.2 (hstep s a h₀ h.1)

theorem meets_iff_forall :
    Meets step ok s as ↔ ∀ before a rest, as = before ++ a :: rest → ok (run step s before) a := by
  induction as generalizing s with
  | nil => simp [Meets]
  | cons b as ih =>
    rw [Meets, ih]
    constructor
    · rintro ⟨hb, hrest⟩ before a rest heq
      cases before with
      | nil =>
        cases heq
        exact hb
      | cons c before =>
        cases heq
        exact hrest before a rest rfl
    · intro h
      exact ⟨h [] b as rfl, fun before a rest heq => h (b :: before) a rest (by rw [heq]; rfl)⟩

/-- Conditions that say the same wherever steps that meet them lead. -/
theorem meets_congr {I : σ → Prop} (h₀ : I s)
    (hok : ∀ s a, I s → (ok s a ↔ ok' s a)) (hstep : ∀ s a, I s → ok' s a → I (step s a)) :
    Meets step ok s as ↔ Meets step ok' s as := by
  induction as generalizing s with
  | nil => exact Iff.rfl
  | cons a as ih =>
    have ha := hok s a h₀
    constructor
    · rintro ⟨hfirst, hrest⟩
      exact ⟨ha.mp hfirst, (ih (hstep s a h₀ (ha.mp hfirst))).mp hrest⟩
    · rintro ⟨hfirst, hrest⟩
      exact ⟨ha.mpr hfirst, (ih (hstep s a h₀ hfirst)).mpr hrest⟩

end GuardedRun
