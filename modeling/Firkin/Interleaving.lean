import Mathlib.Algebra.BigOperators.Group.List.Basic
import Mathlib.Tactic

/-! # Interleaved calls

Calls run over a shared state, each at a phase of its own. A step moves one call and may
change the shared state; dropping a call may too. `Reachable` holds the worlds of every
interleaving whose events meet a condition. -/
namespace Interleaving

open Option

structure World (σ π : Type) where
  shared : σ
  calls : List π := []

inductive Event (ρ ω : Type) where
  | call (request : ρ)
  | step (call : Nat) (outcome : ω)
  | cancel (call : Nat)

def Event.isCancel {ρ ω : Type} : Event ρ ω → Bool
  | .cancel _ => true
  | _ => false

def Event.target {ρ ω : Type} : Event ρ ω → Option Nat
  | .call _ => none
  | .step c _ | .cancel c => some c

/-- `advance` and `drop` answer `none` where the call cannot move. -/
structure Machine (σ π ρ ω : Type) where
  enter : ρ → π
  advance : σ → Nat → ω → π → Option (σ × π)
  drop : σ → Nat → π → Option (σ × π)

variable {σ π ρ ω : Type}

def World.put (w : World σ π) (c : Nat) (m : σ × π) : World σ π := ⟨m.1, w.calls.set c m.2⟩

def next (m : Machine σ π ρ ω) (w : World σ π) : Event ρ ω → Option (World σ π)
  | .call r => some ⟨w.shared, w.calls ++ [m.enter r]⟩
  | .step c o => w.calls[c]?.bind fun p => (m.advance w.shared c o p).map (w.put c)
  | .cancel c => w.calls[c]?.bind fun p => (m.drop w.shared c p).map (w.put c)

inductive Reachable (m : Machine σ π ρ ω) (ok : World σ π → Event ρ ω → Prop) (w₀ : World σ π) :
    World σ π → Prop where
  | start : Reachable m ok w₀ w₀
  | tail {w w' e} : Reachable m ok w₀ w → ok w e → next m w e = some w' → Reachable m ok w₀ w'

section
variable {m : Machine σ π ρ ω} {w w' : World σ π}

theorem bind_put {c : Nat} {move : π → Option (σ × π)} :
    (w.calls[c]?.bind fun p => (move p).map (w.put c)) = some w' ↔
      ∃ p s p', w.calls[c]? = some p ∧ move p = some (s, p') ∧ w' = ⟨s, w.calls.set c p'⟩ := by
  simp only [bind_eq_some_iff, map_eq_some_iff, Prod.exists]
  constructor
  · rintro ⟨p, hp, s, p', ha, rfl⟩
    exact ⟨p, s, p', hp, ha, rfl⟩
  · rintro ⟨p, s, p', hp, ha, rfl⟩
    exact ⟨p, hp, s, p', ha, rfl⟩

/-- What holds at the start and is kept by every event holds of every reachable world. -/
theorem Reachable.keeps {I : World σ π → Prop} (h : Reachable m ok w₀ w) (h₀ : I w₀)
    (hcall : ∀ w r, I w → ok w (.call r) → I ⟨w.shared, w.calls ++ [m.enter r]⟩)
    (hstep : ∀ w c o p s p', I w → ok w (.step c o) → w.calls[c]? = some p →
      m.advance w.shared c o p = some (s, p') → I ⟨s, w.calls.set c p'⟩)
    (hcancel : ∀ w c p s p', I w → ok w (.cancel c) → w.calls[c]? = some p →
      m.drop w.shared c p = some (s, p') → I ⟨s, w.calls.set c p'⟩) : I w := by
  induction h with
  | start => exact h₀
  | @tail w w' e _ hok hn ih =>
    cases e with
    | call r =>
      cases hn
      exact hcall w r ih hok
    | step c o =>
      obtain ⟨p, s, p', hp, ha, rfl⟩ := bind_put.mp hn
      exact hstep w c o p s p' ih hok hp ha
    | cancel c =>
      obtain ⟨p, s, p', hp, ha, rfl⟩ := bind_put.mp hn
      exact hcancel w c p s p' ih hok hp ha

theorem Reachable.mono (h : Reachable m ok w₀ w)
    (hok : ∀ w e, ok w e → ok' w e) : Reachable m ok' w₀ w := by
  induction h with
  | start => exact .start
  | tail _ he hn ih => exact .tail ih (hok _ _ he) hn

theorem Reachable.trans (h : Reachable m ok w₀ w₁) (h' : Reachable m ok w₁ w) :
    Reachable m ok w₀ w := by
  induction h' with
  | start => exact h
  | tail _ he hn ih => exact .tail ih he hn

theorem getElem?_set_at {α : Type} {l : List α} {c a b} (h : l[c]? = some a) :
    (l.set c b)[c]? = some b :=
  List.getElem?_set_self (List.getElem?_eq_some_iff.mp h).1

theorem getElem?_set_some {α : Type} {l : List α} {c d : Nat} {a b : α}
    (h : (l.set c a)[d]? = some b) : (d = c ∧ b = a) ∨ (d ≠ c ∧ l[d]? = some b) := by
  rw [List.getElem?_set] at h
  split at h
  · next hcd =>
    split at h
    · exact .inl ⟨hcd.symm, (some.inj h).symm⟩
    · cases h
  · next hcd => exact .inr ⟨fun he => hcd he.symm, h⟩

theorem getElem?_append_one {α : Type} {l} {d : Nat} {a b : α}
    (h : (l ++ [a])[d]? = some b) : b = a ∨ l[d]? = some b := by
  rw [List.getElem?_append] at h
  split at h
  · exact .inr h
  · rw [List.getElem?_singleton] at h
    split at h
    · exact .inl (some.inj h).symm
    · cases h

theorem next_other (hn : next m w e = some w')
    (hp : w.calls[c]? = some p) (hc : e.target ≠ some c) : w'.calls[c]? = some p := by
  cases e with
  | call r =>
    cases hn
    exact (List.getElem?_append_left (List.getElem?_eq_some_iff.mp hp).1).trans hp
  | step d o | cancel d =>
    obtain ⟨q, s, q', hq, ha, rfl⟩ := bind_put.mp hn
    have hdc : d ≠ c := fun h => hc (congrArg some h)
    exact (List.getElem?_set_ne hdc).trans hp

theorem next_present (hn : next m w e = some w')
    (hc : c < w.calls.length) : c < w'.calls.length := by
  cases e with
  | call r =>
    cases hn
    simp only [List.length_append]
    omega
  | step d o | cancel d =>
    obtain ⟨q, s, q', hq, ha, rfl⟩ := bind_put.mp hn
    simpa using hc

/-- The world after a list of events, if each of them is possible and passes the check. -/
def run (m : Machine σ π ρ ω) (check : World σ π → Event ρ ω → Bool) (w : World σ π)
    (es : List (Event ρ ω)) : Option (World σ π) :=
  es.foldlM (fun w e => if check w e then next m w e else none) w

theorem reachable_run
    (h : run m check w es = some w') : Reachable m (fun w e => check w e = true) w w' := by
  induction es generalizing w with
  | nil =>
    cases h
    exact .start
  | cons e es ih =>
    rw [run, List.foldlM_cons, bind_eq_bind, bind_eq_some_iff] at h
    obtain ⟨w₁, h₁, h₂⟩ := h
    split at h₁
    · next hcheck =>
      have hstep : Reachable m (fun w e => check w e = true) w w₁ := .tail .start hcheck h₁
      exact hstep.trans (ih h₂)
    · cases h₁

theorem reachable_run_any (h : (run m check w es).any test = true) :
    ∃ w', Reachable m (fun w e => check w e = true) w w' ∧ test w' = true := by
  cases hw : run m check w es with
  | none => rw [hw] at h; cases h
  | some w' =>
    rw [hw] at h
    exact ⟨w', reachable_run hw, h⟩
end

/-- One infinite course of events; where no event happens the world stays as it is. -/
structure Schedule (m : Machine σ π ρ ω) (w₀ : World σ π) where
  world : ℕ → World σ π
  event : ℕ → Option (Event ρ ω)
  start : world 0 = w₀
  idle : ∀ n, event n = none → world (n + 1) = world n
  step : ∀ n e, event n = some e → next m (world n) e = some (world (n + 1))

def CanStep (m : Machine σ π ρ ω) (w : World σ π) (c : Nat) : Prop :=
  ∃ o, (next m w (.step c o)).isSome

namespace Schedule

variable {m : Machine σ π ρ ω} {ok : World σ π → Event ρ ω → Prop} {w₀ w : World σ π}

def Meets (s : Schedule m w₀) (ok : World σ π → Event ρ ω → Prop) : Prop :=
  ∀ n e, s.event n = some e → ok (s.world n) e

/-- Strong fairness: a call that can step again and again steps again and again. -/
def Fair (s : Schedule m w₀) : Prop :=
  ∀ c, (∀ n, ∃ k, n ≤ k ∧ CanStep m (s.world k) c) →
    ∀ n, ∃ k, n ≤ k ∧ ∃ o, s.event k = some (.step c o)

theorem Meets.reachable {s : Schedule m w₀} (h : s.Meets ok) (n : ℕ) :
    Reachable m ok w₀ (s.world n) := by
  induction n with
  | zero =>
    rw [s.start]
    exact .start
  | succ n ih =>
    cases he : s.event n with
    | none => exact s.idle n he ▸ ih
    | some e => exact ih.tail (h n e he) (s.step n e he)

theorem other (s : Schedule m w₀) (hp : (s.world n).calls[c]? = some p)
    (hc : (s.event n).bind Event.target ≠ some c) : (s.world (n + 1)).calls[c]? = some p := by
  cases he : s.event n with
  | none => rwa [s.idle n he]
  | some e => exact next_other (s.step n e he) hp (by simpa [he] using hc)

theorem present (s : Schedule m w₀) (hc : c < (s.world n).calls.length) :
    c < (s.world (n + 1)).calls.length := by
  cases he : s.event n with
  | none => rwa [s.idle n he]
  | some e => exact next_present (s.step n e he) hc

def rest (m : Machine σ π ρ ω) (w : World σ π) : Schedule m w where
  world := fun _ => w
  event := fun _ => none
  start := rfl
  idle := fun _ _ => rfl
  step := nofun

def cons {w₁ : World σ π} (e : Event ρ ω) (h : next m w e = some w₁) (s : Schedule m w₁) :
    Schedule m w where
  world
    | 0 => w
    | n + 1 => s.world n
  event
    | 0 => some e
    | n + 1 => s.event n
  start := rfl
  idle
    | 0, he => nomatch he
    | n + 1, he => s.idle n he
  step
    | 0, e', he => by
      cases he
      exact h.trans (congrArg some s.start.symm)
    | n + 1, e', he => s.step n e' he

theorem Fair.cons {w₁ : World σ π} {e : Event ρ ω} {h : next m w e = some w₁}
    {s : Schedule m w₁} (hs : s.Fair) : (s.cons e h).Fair := by
  intro c hoften n
  have htail : ∀ n, ∃ k, n ≤ k ∧ CanStep m (s.world k) c := by
    intro n
    obtain ⟨k, hk, hstep⟩ := hoften (n + 1)
    obtain ⟨k, rfl⟩ : ∃ j, k = j + 1 := ⟨k - 1, by omega⟩
    exact ⟨k, by omega, hstep⟩
  obtain ⟨k, hk, ho⟩ := hs c htail n
  exact ⟨k + 1, by omega, ho⟩

theorem Meets.cons {w₁ : World σ π} {e : Event ρ ω} {h : next m w e = some w₁}
    {s : Schedule m w₁} (hs : s.Meets ok) (he : ok w e) : (s.cons e h).Meets ok
  | 0, _, rfl => he
  | n + 1, e', he' => hs n e' he'

/-- A run to a world where no call can step is the beginning of a fair schedule that stays
there. -/
theorem of_run (h : run m check w es = some w') (hstuck : ∀ c, ¬CanStep m w' c) :
    ∃ s : Schedule m w, s.Meets (fun w e => check w e = true) ∧ s.Fair ∧
      ∀ n, es.length ≤ n → s.world n = w' := by
  induction es generalizing w with
  | nil =>
    cases h
    refine ⟨rest m w', nofun, fun c hoften => ?_, fun _ _ => rfl⟩
    obtain ⟨_, _, hstep⟩ := hoften 0
    exact absurd hstep (hstuck c)
  | cons e es ih =>
    rw [run, List.foldlM_cons, bind_eq_bind, bind_eq_some_iff] at h
    obtain ⟨w₁, h₁, h₂⟩ := h
    split at h₁
    · next hcheck =>
      obtain ⟨s, hmeets, hfair, hends⟩ := ih h₂
      refine ⟨s.cons e h₁, hmeets.cons hcheck, hfair.cons, fun n hn => ?_⟩
      obtain ⟨n, rfl⟩ : ∃ j, n = j + 1 := ⟨n - 1, by simp at hn; omega⟩
      exact hends n (by simpa using hn)
    · cases h₁

/-- Where every event uses up fuel, a fair schedule comes to rest in a world where no call can
step. -/
theorem settles (s : Schedule m w₀) {fuel : World σ π → ℕ} (hmeets : s.Meets ok) (hfair : s.Fair)
    (hfuel : ∀ w e w', ok w e → next m w e = some w' → fuel w' < fuel w) :
    ∃ n, (∀ c, ¬CanStep m (s.world n) c) ∧ ∀ k, n ≤ k → s.world k = s.world n := by
  obtain ⟨n, hmin⟩ : ∃ n, ∀ k, fuel (s.world n) ≤ fuel (s.world k) :=
    ⟨Function.argmin fun n => fuel (s.world n),
      fun k => Function.argmin_le (fun n => fuel (s.world n)) k⟩
  have hidle : ∀ k, s.world k = s.world n → s.event k = none := by
    intro k hk
    cases he : s.event k with
    | none => rfl
    | some e =>
      have hless := hfuel _ e _ (hmeets k e he) (s.step k e he)
      rw [hk] at hless
      exact absurd (hmin (k + 1)) (by omega)
  have hrest : ∀ k, n ≤ k → s.world k = s.world n := by
    intro k hk
    induction k, hk using Nat.le_induction with
    | base => rfl
    | succ k _ ih => exact (s.idle k (hidle k ih)).trans ih
  refine ⟨n, fun c hc => ?_, hrest⟩
  have hoften : ∀ j, ∃ k, j ≤ k ∧ CanStep m (s.world k) c :=
    fun j => ⟨n + j, by omega, (hrest (n + j) (by omega)).symm ▸ hc⟩
  obtain ⟨k, hk, o, he⟩ := hfair c hoften n
  rw [hidle k (hrest k hk)] at he
  cases he

end Schedule

/-- Where every event uses up fuel, every world has a run to one where no call can step. -/
theorem exists_settled_run {m : Machine σ π ρ ω} {check : World σ π → Event ρ ω → Bool}
    {fuel : World σ π → ℕ}
    (hfuel : ∀ w e w', check w e = true → next m w e = some w' → fuel w' < fuel w)
    (hstep : ∀ w c, CanStep m w c → ∃ e, check w e = true ∧ (next m w e).isSome = true)
    (w : World σ π) : ∃ es w', run m check w es = some w' ∧ ∀ c, ¬CanStep m w' c := by
  induction hn : fuel w using Nat.strong_induction_on generalizing w with
  | h n ih =>
    by_cases hc : ∃ c, CanStep m w c
    · obtain ⟨c, hc⟩ := hc
      obtain ⟨e, he, hsome⟩ := hstep w c hc
      obtain ⟨w₁, hw₁⟩ := isSome_iff_exists.mp hsome
      obtain ⟨es, w', hrun, hstuck⟩ := ih _ (hn ▸ hfuel w e w₁ he hw₁) w₁ rfl
      refine ⟨e :: es, w', ?_, hstuck⟩
      rw [run, List.foldlM_cons, he, hw₁]
      exact hrun
    · exact ⟨[], w, rfl, fun c h => hc ⟨c, h⟩⟩

section
variable {M : Type} [AddCommMonoid M] (f : π → M)

def sum (calls : List π) : M := (calls.map f).sum

@[simp] theorem sum_append_one (p : π) : sum f (calls ++ [p]) = sum f calls + f p := by
  simp [sum]

/-- Moving one call changes the sum by what that call changes. -/
theorem sum_set (h : calls[c]? = some p) (p' : π) :
    sum f (calls.set c p') + f p = sum f calls + f p' := by
  induction calls generalizing c with
  | nil => cases h
  | cons q calls ih =>
    cases c with
    | zero =>
      cases h
      simp only [sum, List.set_cons_zero, List.map_cons, List.sum_cons]
      abel
    | succ c =>
      have ih := ih (by simpa using h)
      simp only [sum, List.set_cons_succ, List.map_cons, List.sum_cons] at ih ⊢
      rw [add_assoc, ih, ← add_assoc]

theorem sum_eq_zero (h : ∀ p ∈ calls, f p = 0) : sum f calls = 0 :=
  List.sum_eq_zero fun x hx => by
    obtain ⟨p, hp, rfl⟩ := List.mem_map.mp hx
    exact h p hp

theorem le_sum [PartialOrder M] [CanonicallyOrderedAdd M] {c : Nat} {p : π}
    (h : calls[c]? = some p) : f p ≤ sum f calls := by
  induction calls generalizing c with
  | nil => cases h
  | cons q calls ih =>
    cases c with
    | zero =>
      cases h
      exact le_self_add
    | succ c => exact (ih (by simpa using h)).trans le_add_self
end

end Interleaving
