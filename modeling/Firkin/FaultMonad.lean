import Mathlib.Tactic

/-! # Stateful computations that may fault

`EStateM` keeps the state of a failed computation, which is what a method on a
mutable receiver does: an early return leaves behind whatever was written before it.
Nothing here fixes the error type or the state. -/
namespace FaultMonad

open List

variable {ε σ α β ι : Type}

@[simp] theorem run_pure (a : α) (s : σ) : (pure a : EStateM ε σ α) s = .ok a s := rfl

theorem run_throw (e : ε) (s : σ) : (throw e : EStateM ε σ α) s = .error e s := rfl

@[simp] theorem run_get (s : σ) : (get : EStateM ε σ σ) s = .ok s s := rfl

@[simp] theorem run_modify (s : σ) :
    (modify f : EStateM ε σ PUnit) s = .ok ⟨⟩ (f s) := rfl

theorem run_bind (x : EStateM ε σ α) (f : α → EStateM ε σ β) (s : σ) :
    (x >>= f) s = match x s with
      | .ok a t => f a t
      | .error e t => .error e t := rfl

@[simp] theorem run_modifyGet (s : σ) :
    (modifyGet f : EStateM ε σ α) s = .ok (f s).1 (f s).2 := rfl

@[simp] theorem run_ofExcept_ok :
    (MonadExcept.ofExcept (.ok a : Except ε α) : EStateM ε σ α) s = .ok a s := rfl

@[simp] theorem run_ofExcept_error (e : ε) :
    (MonadExcept.ofExcept (.error e : Except ε α) : EStateM ε σ α) s = .error e s := rfl

theorem run_ofExcept_eq_ok :
    (MonadExcept.ofExcept r : EStateM ε σ α) s = .ok a t ↔ r = .ok a ∧ t = s := by
  cases r <;> simp [eq_comm]

theorem run_tryCatch (x : EStateM ε σ α) (f : ε → EStateM ε σ α) (s : σ) :
    tryCatch x f s = match x s with
      | .ok a t => .ok a t
      | .error e t => f e t := by
  change EStateM.tryCatch x f s = _
  unfold EStateM.tryCatch
  cases x s <;> rfl

variable {f : α → EStateM ε σ β}

theorem bind_of_ok (h : x s = .ok a t) : (x >>= f) s = f a t := by rw [run_bind, h]

theorem bind_of_error (h : x s = .error e t) : (x >>= f) s = .error e t := by rw [run_bind, h]

theorem bind_eq_ok : (x >>= f) s = .ok b u ↔ ∃ a t, x s = .ok a t ∧ f a t = .ok b u := by
  rw [run_bind]
  cases h : x s with
  | ok a t => simp
  | error e t => simp

section
variable {f : ι → EStateM ε σ PUnit} {s t : σ}

theorem forM_nil_ok : ([] : List ι).forM f s = .ok ⟨⟩ t ↔ t = s := by
  simp [eq_comm]

theorem forM_cons_ok :
    (a :: as).forM f s = .ok ⟨⟩ t ↔ ∃ u, f a s = .ok ⟨⟩ u ∧ as.forM f u = .ok ⟨⟩ t := by
  change (f a >>= fun _ => as.forM f) s = _ ↔ _
  rw [bind_eq_ok]
  constructor
  · rintro ⟨_, u, h⟩
    exact ⟨u, h⟩
  · rintro ⟨u, h⟩
    exact ⟨⟨⟩, u, h⟩

theorem forM_append_ok {as bs : List ι} :
    (as ++ bs).forM f s = .ok ⟨⟩ t ↔ ∃ u, as.forM f s = .ok ⟨⟩ u ∧ bs.forM f u = .ok ⟨⟩ t := by
  induction as generalizing s with
  | nil => simp
  | cons a as ih =>
    rw [cons_append, forM_cons_ok]
    constructor
    · rintro ⟨u, h1, h2⟩
      obtain ⟨v, h3, h4⟩ := ih.mp h2
      exact ⟨v, forM_cons_ok.mpr ⟨u, h1, h3⟩, h4⟩
    · rintro ⟨v, h1, h4⟩
      obtain ⟨u, h2, h3⟩ := forM_cons_ok.mp h1
      exact ⟨u, h2, ih.mpr ⟨v, h3, h4⟩⟩

theorem forM_invariant {P : σ → Prop} {as : List ι}
    (hstep : ∀ a ∈ as, ∀ u v, P u → f a u = .ok ⟨⟩ v → P v) (h : as.forM f s = .ok ⟨⟩ t)
    (hP : P s) : P t := by
  induction as generalizing s with
  | nil => rwa [forM_nil_ok.mp h]
  | cons a as ih =>
    obtain ⟨u, h1, h2⟩ := forM_cons_ok.mp h
    exact ih (fun b hb => hstep b (mem_cons_of_mem a hb)) h2 (hstep a mem_cons_self s u hP h1)
end

/-- A traversal succeeds exactly with the results of its elements. -/
theorem mapM_eq_ok {f : α → Except ε β} {as : List α} {bs : List β} :
    as.mapM f = .ok bs ↔ List.Forall₂ (fun a b => f a = .ok b) as bs := by
  induction as generalizing bs with
  | nil => simp [pure, Except.pure]
  | cons a as ih =>
    rw [mapM_cons]
    cases ha : f a with
    | error e => simp [bind, Except.bind, ha, forall₂_cons_left_iff]
    | ok b =>
      cases has : as.mapM f with
      | error e =>
        have hnone : ∀ bs, ¬List.Forall₂ (fun a b => f a = .ok b) as bs := by
          intro bs hbs
          rw [ih.mpr hbs] at has
          cases has
        simp [bind, Except.bind, ha, forall₂_cons_left_iff, hnone]
      | ok bs' =>
        constructor
        · rintro ⟨⟩
          exact .cons ha (ih.mp has)
        · rintro (_ | ⟨hb, hbs⟩)
          cases ha.symm.trans hb
          cases has.symm.trans (ih.mpr hbs)
          rfl

def faultOf : EStateM.Result ε σ α → Option ε
  | .ok _ _ => none
  | .error φ _ => some φ

theorem faultOf_eq_some (h : faultOf r = some e) : ∃ s, r = .error e s := by
  cases r with
  | ok a s => cases h
  | error e s =>
    cases h
    exact ⟨s, rfl⟩

/-- The run succeeds, and its last state passes the check. -/
def endsIn (check : σ → Bool) : EStateM.Result ε σ α → Bool
  | .ok _ s => check s
  | .error _ _ => false

theorem endsIn_ok {r : EStateM.Result ε σ PUnit} (h : endsIn check r = true) :
    ∃ s, r = .ok () s ∧ check s = true := by
  cases r with
  | ok a s => exact ⟨s, rfl, h⟩
  | error e s => cases h

/-! ### Postconditions

`Ends m s Q E`: run from `s`, `m` either returns and `Q` holds of its value and state, or
fails and `E` holds of the error. -/

def Ends (m : EStateM ε σ α) (s : σ) (Q : α → σ → Prop) (E : ε → Prop) : Prop :=
  match m s with
  | .ok a t => Q a t
  | .error e _ => E e

section
variable {m : EStateM ε σ α} {k : α → EStateM ε σ β} {s t : σ} {Q : α → σ → Prop}
  {R : β → σ → Prop} {E : ε → Prop}

theorem Ends.of_ok (h : Ends m s Q E) (hm : m s = .ok a t) : Q a t := by
  rwa [Ends, hm] at h

theorem Ends.of_error (h : Ends m s Q E) (hm : m s = .error e t) : E e := by
  rwa [Ends, hm] at h

theorem ends_of_ok (hm : m s = .ok a t) (h : Q a t) : Ends m s Q E := by
  rwa [Ends, hm]

theorem ends_of_error (hm : m s = .error e t) (h : E e) : Ends m s Q E := by
  rwa [Ends, hm]

theorem Ends.mono (h : Ends m s Q E) (hQ : ∀ a t, Q a t → Q' a t) (hE : ∀ e, E e → E' e) :
    Ends m s Q' E' := by
  unfold Ends at h ⊢
  cases hm : m s with
  | ok a t => rw [hm] at h; exact hQ a t h
  | error e t => rw [hm] at h; exact hE e h

@[simp] theorem ends_pure : Ends (pure a) s Q E ↔ Q a s := Iff.rfl

@[simp] theorem ends_modify {f Q} :
    Ends (modify f) s Q E ↔ Q ⟨⟩ (f s) := Iff.rfl

theorem ends_bind : Ends (m >>= k) s R E ↔ Ends m s (fun a t => Ends (k a) t R E) E := by
  unfold Ends
  rw [run_bind]
  cases m s with
  | ok | error => exact Iff.rfl

theorem Ends.andThen (h : Ends m s Q E') (hE : ∀ e, E' e → E e)
    (hk : ∀ a t, Q a t → Ends (k a) t R E) : Ends (m >>= k) s R E :=
  ends_bind.mpr (h.mono hk hE)

theorem Ends.bind (h : Ends m s Q E) (hk : ∀ a t, Q a t → Ends (k a) t R E) :
    Ends (m >>= k) s R E := h.andThen (fun _ he => he) hk

theorem ends_get_bind {k} : Ends (get >>= k) s R E ↔ Ends (k s) s R E :=
  ends_bind

theorem ends_bind_ok (h : m s = .ok a t) : Ends (m >>= k) s R E ↔ Ends (k a) t R E := by
  rw [ends_bind, Ends, h]

theorem ends_bind_error (h : m s = .error e t) : Ends (m >>= k) s R E ↔ E e := by
  rw [ends_bind, Ends, h]

theorem ofExcept_run (h : r = .ok a) : (MonadExcept.ofExcept r : EStateM ε σ α) s = .ok a s := by
  rw [h]
  rfl

theorem ofExcept_fail (h : r = .error e) :
    (MonadExcept.ofExcept r : EStateM ε σ α) s = .error e s := by
  rw [h]
  rfl

theorem ends_forM {f as} (I : List ι → σ → Prop)
    (hstep : ∀ pre a post u, as = pre ++ a :: post → I pre u →
      Ends (f a) u (fun _ v => I (pre ++ [a]) v) E) (h : I [] s) :
    Ends (as.forM f) s (fun _ t => I as t) E := by
  suffices H : ∀ (post pre : List ι) (u : σ), as = pre ++ post → I pre u →
      Ends (post.forM f) u (fun _ t => I as t) E from H as [] s rfl h
  intro post
  induction post with
  | nil =>
    intro pre u he hI
    rw [append_nil] at he
    exact he ▸ hI
  | cons a post ih =>
    intro pre u he hI
    exact (hstep pre a post u he hI).bind fun _ v hv => ih (pre ++ [a]) v (by simp [he]) hv

/-- A traversal with an invariant about what is left to do and a fact about each result. -/
theorem ends_mapM {f} (I : List ι → σ → Prop) (P : ι → β → Prop)
    (hstep : ∀ i l s, I (i :: l) s → Ends (f i) s (fun b t => P i b ∧ I l t) E) {l}
    (h : I l s) : Ends (l.mapM f) s (fun bs t => List.Forall₂ P l bs ∧ I [] t) E := by
  induction l generalizing s with
  | nil =>
    exact ⟨.nil, h⟩
  | cons i l ih =>
    rw [mapM_cons]
    refine (hstep i l s h).bind fun b t ht => (ih ht.2).bind fun bs u hu => ?_
    exact ⟨.cons ht.1 hu.1, hu.2⟩

theorem ends_foldlM {f} (I : σ → Prop)
    (hstep : ∀ b i s, I s → Ends (f b i) s (fun _ => I) E) {l : List ι} {b : β} (h : I s) :
    Ends (l.foldlM f b) s (fun _ => I) E := by
  induction l generalizing s b with
  | nil => exact h
  | cons i l ih =>
    exact (hstep b i s h).bind fun _ t ht => ih ht

theorem Ends.tryCatch {f} (h : Ends m s Q E)
    (hf : ∀ e t, E e → Ends (f e) t Q E) : Ends (tryCatch m f) s Q E := by
  unfold Ends at h ⊢
  rw [run_tryCatch]
  cases hm : m s with
  | ok a t => rwa [hm] at h
  | error e t =>
    rw [hm] at h
    exact hf e t h

/-- A loop over numbers that fails with the first fault there is, or meets none. -/
theorem ends_forM_faults {f} {n : Nat} (fault : Nat → Option ε) (I : Nat → σ → Prop)
    (hstep : ∀ k u, k < n → I k u →
      Ends (f k) u (fun _ v => fault k = none ∧ I (k + 1) v) (fun e => fault k = some e))
    (h : I 0 s) :
    Ends ((range n).forM f) s (fun _ t => (range n).filterMap fault = [] ∧ I n t)
      (fun e => ((range n).filterMap fault).head? = some e) := by
  have hloop : Ends ((range n).forM f) s
      (fun _ t => (range n).filterMap fault = [] ∧ I (range n).length t)
      (fun e => ((range n).filterMap fault).head? = some e) := by
    refine ends_forM (fun pre u => pre.filterMap fault = [] ∧ I pre.length u) ?_ ⟨rfl, h⟩
    rintro pre a post u hsplit ⟨hclean, hI⟩
    have hlen := congrArg length hsplit
    simp only [length_range, length_append, length_cons] at hlen
    obtain rfl : a = pre.length := by
      have hget := congrArg (fun l => l[pre.length]?) hsplit
      simpa [getElem?_range (show pre.length < n by omega)] using hget.symm
    refine (hstep _ u (by omega) hI).mono (fun _ v hv => ?_) fun e he => ?_
    · rw [length_append]
      exact ⟨by simp [hclean, hv.1], hv.2⟩
    · simp [hsplit, hclean, he]
  simpa only [length_range] using hloop
end

/-! ### Where a computation ends

Facts about the state a computation leaves, whether it returned or failed. -/

def left : EStateM.Result ε σ α → σ
  | .ok _ s => s
  | .error _ s => s

def answer : EStateM.Result ε σ α → Except ε α
  | .ok a _ => .ok a
  | .error e _ => .error e

/-- `m` returns and `Q` holds of its value and state, or fails and `R` holds of the state. -/
def Settles (m : EStateM ε σ α) (s : σ) (Q : α → σ → Prop) (R : σ → Prop) : Prop :=
  match m s with
  | .ok a t => Q a t
  | .error _ t => R t

def Reads (m : EStateM ε σ α) : Prop := ∀ s, left (m s) = s

section
variable {m : EStateM ε σ α} {k : α → EStateM ε σ β} {s t : σ} {R : σ → Prop}

theorem settles_bind :
    Settles (m >>= k) s P R ↔ Settles m s (fun a t => Settles (k a) t P R) R := by
  unfold Settles
  rw [run_bind]
  cases m s with
  | ok | error => exact Iff.rfl

theorem settles_bind_ok (h : m s = .ok a t) : Settles (m >>= k) s P R ↔ Settles (k a) t P R := by
  rw [settles_bind, Settles, h]

theorem Settles.mono (h : Settles m s Q R) (hQ : ∀ a t, Q a t → Q' a t) (hR : ∀ t, R t → R' t) :
    Settles m s Q' R' := by
  unfold Settles at h ⊢
  cases hm : m s with
  | ok a t => rw [hm] at h; exact hQ a t h
  | error e t => rw [hm] at h; exact hR t h

theorem Settles.bind (h : Settles m s Q R) (hk : ∀ a t, Q a t → Settles (k a) t P R) :
    Settles (m >>= k) s P R :=
  settles_bind.mpr (h.mono hk fun _ hr => hr)

theorem Settles.of_ok (h : Settles m s Q R) (hm : m s = .ok a t) : Q a t := by
  rwa [Settles, hm] at h

theorem Settles.left (h : Settles m s (fun _ => R) R) : R (left (m s)) := by
  unfold Settles at h
  cases hm : m s with
  | ok | error => rwa [hm] at h

/-- What is computed from the result does not matter to the state. -/
theorem left_map (f : α → β) :
    FaultMonad.left ((m >>= fun a => pure (f a)) s) = FaultMonad.left (m s) := by
  rw [run_bind]
  cases m s <;> rfl

theorem reads_pure (a : α) : Reads (pure a : EStateM ε σ α) := fun _ => rfl

theorem reads_throw (e : ε) : Reads (throw e : EStateM ε σ α) := fun _ => rfl

theorem reads_get : Reads (get : EStateM ε σ σ) := fun _ => rfl

theorem reads_ofExcept (r : Except ε α) : Reads (MonadExcept.ofExcept r : EStateM ε σ α) :=
  fun _ => by cases r <;> rfl

theorem Reads.bind (hm : Reads m) (hk : ∀ a, Reads (k a)) : Reads (m >>= k) := by
  intro s
  have h := hm s
  rw [run_bind]
  cases hs : m s with
  | ok a t =>
    rw [hs] at h
    exact (hk a t).trans h
  | error e t =>
    rw [hs] at h
    exact h

theorem Reads.settles (hm : Reads m) : Settles m s (fun a t => t = s ∧ m s = .ok a s) (· = s) := by
  have h := hm s
  unfold Settles
  cases hs : m s with
  | ok a t =>
    rw [hs] at h
    exact ⟨h, h ▸ rfl⟩
  | error e t =>
    rw [hs] at h
    exact h

theorem Reads.settles_bind (hm : Reads m) (hR : R s)
    (hk : ∀ a, m s = .ok a s → Settles (k a) s P R) :
    Settles (m >>= k) s P R := by
  refine (hm.settles.mono (fun a t h => h) fun t h => h ▸ hR).bind fun a t h => ?_
  rw [h.1]
  exact hk a h.2

theorem settles_mapM {f : ι → EStateM ε σ β} (I : List ι → σ → Prop)
    (hstep : ∀ i l s, I (i :: l) s → Settles (f i) s (fun _ => I l) R) {l : List ι} (h : I l s) :
    Settles (l.mapM f) s (fun _ => I []) R := by
  induction l generalizing s with
  | nil => rwa [mapM_nil]
  | cons i l ih =>
    rw [mapM_cons]
    refine (hstep i l s h).bind fun b t ht => (ih ht).bind fun bs u hu => ?_
    exact hu

theorem settles_forM {f : ι → EStateM ε σ PUnit} (I : List ι → σ → Prop)
    (hstep : ∀ i l s, I (i :: l) s → Settles (f i) s (fun _ => I l) R) {l : List ι} (h : I l s) :
    Settles (l.forM f) s (fun _ => I []) R := by
  induction l generalizing s with
  | nil => exact h
  | cons i l ih => exact (hstep i l s h).bind fun _ t ht => ih ht
end

/-- What `f` reads of the state is the same afterwards, whatever the outcome. -/
def Keeps {δ : Type} (f : σ → δ) (m : EStateM ε σ α) : Prop := ∀ s, f (left (m s)) = f s

section
variable {δ : Type} {f : σ → δ} {m : EStateM ε σ α}

theorem Reads.keeps (h : Reads m) : Keeps f m := fun s => congrArg f (h s)

theorem keeps_modify (h : ∀ s, f (g s) = f s) : Keeps f (modify g : EStateM ε σ PUnit) :=
  h

theorem keeps_modifyGet (h : ∀ s, f (g s).2 = f s) : Keeps f (modifyGet g : EStateM ε σ α) := h

theorem Keeps.bind (hm : Keeps f m) (hk : ∀ a, Keeps f (k a)) : Keeps f (m >>= k) := by
  intro s
  have h := hm s
  rw [run_bind]
  cases hs : m s with
  | ok a t =>
    rw [hs] at h
    exact (hk a t).trans h
  | error e t =>
    rw [hs] at h
    exact h

theorem Keeps.tryCatch (hm : Keeps f m)
    (hh : ∀ e, Keeps f (handle e)) : Keeps f (tryCatch m handle) := by
  intro s
  have h := hm s
  rw [run_tryCatch]
  cases hs : m s with
  | ok a t =>
    rw [hs] at h
    exact h
  | error e t =>
    rw [hs] at h
    exact (hh e t).trans h

theorem keeps_forM {ι : Type} {g : ι → EStateM ε σ PUnit} (h : ∀ i, Keeps f (g i)) {l : List ι} :
    Keeps f (l.forM g) := by
  induction l with
  | nil => exact fun _ => rfl
  | cons i l ih => exact (h i).bind fun _ => ih

theorem foldlM_keeps {ι : Type} {g : β → ι → β} {step : β → ι → EStateM ε σ β}
    (hstep : ∀ b i s b' t, step b i s = .ok b' t → b' = g b i ∧ f t = f s) {l : List ι} {b b' : β}
    {s t : σ} (h : l.foldlM step b s = .ok b' t) : b' = l.foldl g b ∧ f t = f s := by
  induction l generalizing b s with
  | nil =>
    cases h
    exact ⟨rfl, rfl⟩
  | cons i l ih =>
    obtain ⟨c, u, hi, hl⟩ := bind_eq_ok.mp h
    obtain ⟨rfl, hu⟩ := hstep b i s c u hi
    obtain ⟨hb, ht⟩ := ih hl
    exact ⟨hb, ht.trans hu⟩

theorem Keeps.settles (h : Keeps f m) (s : σ) :
    Settles m s (fun _ t => f t = f s) (fun t => f t = f s) := by
  have hs := h s
  unfold Settles
  cases hm : m s with
  | ok | error => rwa [hm] at hs

theorem Keeps.of_ok (h : Keeps f m) (hm : m s = .ok a t) : f t = f s := by
  have hs := h s
  rwa [hm] at hs
end

section
variable {r : Except ε α} {k : α → Except ε β}

theorem except_bind_ok (h : r = .ok a) : (r >>= k) = k a := by
  rw [h]
  rfl

theorem except_bind_error (h : r = .error e) : (r >>= k) = .error e := by
  rw [h]
  rfl

theorem except_bind_eq_ok : (r >>= k) = .ok b ↔ ∃ a, r = .ok a ∧ k a = .ok b := by
  cases r with
  | ok a => exact ⟨fun h => ⟨a, rfl, h⟩, fun ⟨_, h, hk⟩ => by cases h; exact hk⟩
  | error e =>
    constructor
    · intro h
      cases h
    · rintro ⟨_, h, _⟩
      cases h

theorem mapM_ok {f : ι → Except ε β} {g : ι → β} {l : List ι} (h : ∀ a ∈ l, f a = .ok (g a)) :
    l.mapM f = .ok (l.map g) := by
  induction l with
  | nil => rfl
  | cons a l ih =>
    rw [mapM_cons, except_bind_ok (h a mem_cons_self),
      except_bind_ok (ih fun b hb => h b (mem_cons_of_mem a hb))]
    rfl

/-- A traversal whose elements all fail in the same way, if they fail. -/
theorem mapM_ite {f : ι → Except ε β} {p : ι → Prop} [DecidablePred p] {g : ι → β} {e : ε}
    {l : List ι} (h : ∀ a ∈ l, f a = if p a then .ok (g a) else .error e) :
    l.mapM f = if ∀ a ∈ l, p a then .ok (l.map g) else .error e := by
  induction l with
  | nil =>
    rfl
  | cons a l ih =>
    have ih := ih fun b hb => h b (mem_cons_of_mem a hb)
    rw [mapM_cons, h a mem_cons_self, ih]
    simp only [forall_mem_cons]
    by_cases ha : p a
    · by_cases hl : ∀ b ∈ l, p b
      · rw [if_pos ha, if_pos hl, if_pos ⟨ha, hl⟩]
        rfl
      · rw [if_pos ha, if_neg hl, if_neg fun hc => hl hc.2]
        rfl
    · rw [if_neg ha, if_neg (show ¬ (p a ∧ ∀ b ∈ l, p b) from fun hc => ha hc.1)]
      rfl

theorem filterM_ok {f : ι → Except ε Bool} {p : ι → Bool} {l : List ι}
    (h : ∀ a ∈ l, f a = .ok (p a)) : l.filterM f = .ok (l.filter p) := by
  suffices H : ∀ acc, filterAuxM f l acc = .ok ((l.filter p).reverse ++ acc) by
    rw [filterM, H [], except_bind_ok rfl]
    simp
    rfl
  induction l with
  | nil => exact fun acc => rfl
  | cons a l ih =>
    intro acc
    have ih := ih fun b hb => h b (mem_cons_of_mem a hb)
    rw [filterAuxM, except_bind_ok (h a mem_cons_self), ih]
    cases ha : p a <;> simp [ha]
end

end FaultMonad
