import Mathlib.Tactic

/-! # Progress under fair scheduling with ordered locks

Processes take locks in the order of a rank, and the scheduler is strongly fair. A process
that never finishes would wait for a lock whose holder never finishes either and waits for a
lock of higher rank: as ranks are bounded, every served process finishes. -/
namespace FairLocks

/-- One schedule, seen through its locks: what each process is at each time. -/
structure View (L : Type) where
  present : ℕ → ℕ → Prop
  finished : ℕ → ℕ → Prop
  hung : ℕ → ℕ → Prop
  wants : ℕ → ℕ → Option L
  holds : ℕ → ℕ → L → Prop
  fuel : ℕ → ℕ → ℕ
  moves : ℕ → ℕ → Prop

variable {L : Type}

/-- A process can move: it is neither finished nor hung, and the lock it wants is free. -/
def View.Able (v : View L) (n c : ℕ) : Prop :=
  v.present n c ∧ ¬v.finished n c ∧ ¬v.hung n c ∧ ∀ l, v.wants n c = some l → ∀ d, ¬v.holds n d l

structure Laws (v : View L) (rank : L → ℕ) (bound : ℕ) : Prop where
  stays : ∀ n c, v.present n c → v.present (n + 1) c
  still : ∀ n c, v.present n c → ¬v.moves n c →
    v.wants (n + 1) c = v.wants n c ∧ v.fuel (n + 1) c = v.fuel n c
  burns : ∀ n c, v.moves n c → v.fuel (n + 1) c < v.fuel n c
  handed : ∀ n c d l, v.holds n c l → v.holds (n + 1) d l → v.holds (n + 1) c l
  freed : ∀ n c l, v.holds n c l → ¬v.finished n c
  ordered : ∀ n c l l', v.holds n c l → v.wants n c = some l' → rank l < rank l'
  bounded : ∀ l, rank l ≤ bound
  fair : ∀ c, (∀ n, ∃ k, n ≤ k ∧ v.Able k c) → ∀ n, ∃ k, n ≤ k ∧ v.moves k c

/-- The served processes are not hung, and wait only for one another. -/
structure Served (v : View L) (served : ℕ → ℕ → Prop) : Prop where
  present : ∀ n c, served n c → v.present n c
  awake : ∀ n c, served n c → ¬v.hung n c
  closed : ∀ n c d l, served n c → v.wants n c = some l → v.holds n d l → served n d

section
variable {v : View L} {rank : L → ℕ} {bound : ℕ} {c N : ℕ}

section
variable (h : Laws v rank bound)
include h

theorem Laws.settles (hp : v.present N c) : ∃ k, N ≤ k ∧ ∀ n, k ≤ n → ¬v.moves n c := by
  induction hf : v.fuel N c using Nat.strong_induction_on generalizing N with
  | _ fuel ih =>
    by_contra hmoves
    push Not at hmoves
    obtain ⟨k, hk, hmove⟩ := hmoves N le_rfl
    have hrun : ∀ n, N ≤ n → v.present n c ∧ v.fuel n c ≤ fuel := by
      intro n hn
      induction n, hn using Nat.le_induction with
      | base => exact ⟨hp, hf.le⟩
      | succ n _ ihn =>
        refine ⟨h.stays n c ihn.1, ?_⟩
        by_cases hm : v.moves n c
        · exact (h.burns n c hm).le.trans ihn.2
        · exact ((h.still n c ihn.1 hm).2).le.trans ihn.2
    have hpk := hrun k hk
    obtain ⟨k', hk', hquiet⟩ := ih _ ((h.burns k c hmove).trans_le hpk.2) (h.stays k c hpk.1) rfl
    obtain ⟨n, hn, hm⟩ := hmoves k' (by omega)
    exact hquiet n hn hm

theorem Laws.wants_const (hp : v.present N c) (hquiet : ∀ n, N ≤ n → ¬v.moves n c) :
    ∀ n, N ≤ n → v.present n c ∧ v.wants n c = v.wants N c := by
  intro n hn
  induction n, hn using Nat.le_induction with
  | base => exact ⟨hp, rfl⟩
  | succ n hn ih => exact ⟨h.stays n c ih.1, ((h.still n c ih.1 (hquiet n hn)).1).trans ih.2⟩

/-- By fairness a process that no longer moves is unable to, from some time on. -/
theorem Laws.unable (hquiet : ∀ n, N ≤ n → ¬v.moves n c) :
    ∃ k, N ≤ k ∧ ∀ n, k ≤ n → ¬v.Able n c := by
  by_contra hno
  push Not at hno
  have hoften : ∀ n, ∃ k, n ≤ k ∧ v.Able k c := by
    intro n
    obtain ⟨k, hk, hable⟩ := hno (max n N) (le_max_right n N)
    exact ⟨k, (le_max_left n N).trans hk, hable⟩
  obtain ⟨k, hk, hm⟩ := h.fair c hoften N
  exact hquiet k hk hm

/-- A served process that never finishes ends up waiting for a lock that is never free, and so
for one holder that never finishes. -/
theorem Laws.waits (hs : Served v served) (hc : ∀ n, N ≤ n → served n c ∧ ¬v.finished n c) :
    ∃ l d k, N ≤ k ∧ ∀ n, k ≤ n → v.wants n c = some l ∧ v.holds n d l := by
  have hpres : ∀ n, N ≤ n → v.present n c := fun n hn => hs.present n c (hc n hn).1
  obtain ⟨k, hk, hquiet⟩ := h.settles (hpres N le_rfl)
  obtain ⟨k', hk', hunable⟩ := h.unable hquiet
  have hwants := h.wants_const (hpres k hk) hquiet
  have hheld : ∀ n, k' ≤ n → ∃ l, v.wants n c = some l ∧ ∃ d, v.holds n d l := by
    intro n hn
    have hno := hunable n hn
    obtain ⟨hserved, hfin⟩ := hc n (by omega)
    simp only [View.Able, hpres n (by omega), hfin, hs.awake n c hserved, not_false_eq_true,
      true_and, not_forall, not_not] at hno
    obtain ⟨l, hl, d, hd⟩ := hno
    exact ⟨l, hl, d, hd⟩
  obtain ⟨l, hl, d, hd⟩ := hheld k' le_rfl
  have hconst : ∀ n, k' ≤ n → v.wants n c = some l := fun n hn => by
    rw [(hwants n (by omega)).2, ← (hwants k' hk').2, hl]
  refine ⟨l, d, k', by omega, fun n hn => ⟨hconst n hn, ?_⟩⟩
  -- the lock is held at every time, and it only changes hands when it is free in between
  induction n, hn using Nat.le_induction with
  | base => exact hd
  | succ n hn ih =>
    obtain ⟨l', hl', d', hd'⟩ := hheld (n + 1) (by omega)
    obtain rfl : l' = l := Option.some.inj (hl'.symm.trans (hconst (n + 1) (by omega)))
    exact h.handed n d d' l' ih hd'

/-- Along the waiting chain the rank of the awaited lock grows. -/
theorem Laws.chain_absurd (hs : Served v served) :
    ∀ (room : ℕ) (c N : ℕ) (l : L), bound - rank l = room →
      (∀ n, N ≤ n → served n c ∧ v.holds n c l) → False := by
  intro room
  induction room using Nat.strong_induction_on with
  | _ room ih =>
    intro c N l hroom hc
    obtain ⟨l', d, k, hk, hwait⟩ :=
      h.waits hs fun n hn => ⟨(hc n hn).1, h.freed n c l (hc n hn).2⟩
    have hrank : rank l < rank l' := h.ordered k c l l' (hc k hk).2 (hwait k le_rfl).1
    have hbound := h.bounded l'
    refine ih (bound - rank l') (by omega) d k l' rfl fun n hn => ?_
    obtain ⟨hwant, hhold⟩ := hwait n hn
    exact ⟨hs.closed n c d l' (hc n (hk.trans hn)).1 hwant hhold, hhold⟩

/-- A process that is served as long as it is unfinished finishes. -/
theorem Laws.finishes (hs : Served v served)
    (hc : ∀ n, N ≤ n → ¬v.finished n c → served n c) : ∃ n, N ≤ n ∧ v.finished n c := by
  by_contra hnever
  push Not at hnever
  have hserved : ∀ n, N ≤ n → served n c ∧ ¬v.finished n c :=
    fun n hn => ⟨hc n hn (hnever n hn), hnever n hn⟩
  obtain ⟨l, d, k, hk, hwait⟩ := h.waits hs hserved
  refine h.chain_absurd hs (bound - rank l) d k l rfl fun n hn => ?_
  obtain ⟨hwant, hhold⟩ := hwait n hn
  exact ⟨hs.closed n c d l (hserved n (hk.trans hn)).1 hwant hhold, hhold⟩
end

end

end FairLocks
