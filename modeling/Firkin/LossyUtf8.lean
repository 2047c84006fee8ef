import Mathlib.Tactic

/-! # Lossy decoding of UTF-8

Every maximal invalid piece is replaced by U+FFFD, as `String::from_utf8_lossy` does.
The result is the UTF-8 of the decoded text. -/
namespace LossyUtf8

open List

def replacement : List UInt8 := [0xEF, 0xBF, 0xBD]

def charWidth (b : UInt8) : Nat :=
  if b < 0x80 then 1
  else if 0xC2 ≤ b ∧ b ≤ 0xDF then 2
  else if 0xE0 ≤ b ∧ b ≤ 0xEF then 3
  else if 0xF0 ≤ b ∧ b ≤ 0xF4 then 4
  else 0

def isCont (c : UInt8) : Bool := 0x80 ≤ c ∧ c ≤ 0xBF

/-- What may follow a leading byte: no overlong forms, no surrogates, nothing past U+10FFFF. -/
def secondOk (b c : UInt8) : Bool :=
  if b = 0xE0 then 0xA0 ≤ c ∧ c ≤ 0xBF
  else if b = 0xED then 0x80 ≤ c ∧ c ≤ 0x9F
  else if b = 0xF0 then 0x90 ≤ c ∧ c ≤ 0xBF
  else if b = 0xF4 then 0x80 ≤ c ∧ c ≤ 0x8F
  else isCont c

def takeCont : Nat → List UInt8 → List UInt8
  | 0, _ => []
  | _, [] => []
  | n + 1, c :: cs => if isCont c then c :: takeCont n cs else []

/-- The continuation bytes that still fit the leading byte `b`. -/
def tailOf (b : UInt8) (bs : List UInt8) : List UInt8 :=
  if charWidth b < 2 then []
  else match bs with
    | [] => []
    | c :: cs => if secondOk b c then c :: takeCont (charWidth b - 2) cs else []

def piece (b : UInt8) (bs : List UInt8) : List UInt8 :=
  if (tailOf b bs).length + 1 = charWidth b then b :: tailOf b bs else replacement

def lossyFrom : Nat → List UInt8 → List UInt8
  | 0, _ => []
  | _, [] => []
  | fuel + 1, b :: bs => piece b bs ++ lossyFrom fuel (bs.drop (tailOf b bs).length)

def lossy (bs : List UInt8) : List UInt8 := lossyFrom bs.length bs

variable {bs : List UInt8}

theorem mem_takeCont (h : c ∈ takeCont n bs) : c ∈ bs := by
  induction n generalizing bs with
  | zero => simp [takeCont] at h
  | succ n ih =>
    cases bs with
    | nil => simp [takeCont] at h
    | cons d ds =>
      simp only [takeCont] at h
      split at h
      · rcases mem_cons.mp h with rfl | h
        · exact mem_cons_self
        · exact mem_cons_of_mem _ (ih h)
      · cases h

theorem mem_tailOf (h : c ∈ tailOf b bs) : c ∈ bs := by
  unfold tailOf at h
  split at h
  · cases h
  · cases bs with
    | nil => cases h
    | cons d ds =>
      simp only at h
      split at h
      · rcases mem_cons.mp h with rfl | h
        · exact mem_cons_self
        · exact mem_cons_of_mem _ (mem_takeCont h)
      · cases h

theorem mem_piece (h : c ∈ piece b bs) : c ∈ b :: bs ∨ c ∈ replacement := by
  unfold piece at h
  split at h
  · rcases mem_cons.mp h with rfl | h
    · exact .inl mem_cons_self
    · exact .inl (mem_cons_of_mem _ (mem_tailOf h))
  · exact .inr h

theorem mem_lossyFrom (h : c ∈ lossyFrom fuel bs) : c ∈ bs ∨ c ∈ replacement := by
  induction fuel generalizing bs with
  | zero => simp [lossyFrom] at h
  | succ fuel ih =>
    cases bs with
    | nil => simp [lossyFrom] at h
    | cons b bs =>
      rcases mem_append.mp h with h | h
      · exact mem_piece h
      · rcases ih h with h | h
        · exact .inl (mem_cons_of_mem _ (mem_of_mem_drop h))
        · exact .inr h

theorem mem_lossy (h : c ∈ lossy bs) : c ∈ bs ∨ c ∈ replacement :=
  mem_lossyFrom h

theorem piece_ne_nil : piece b bs ≠ [] := by
  unfold piece
  split
  · simp
  · simp [replacement]

theorem lossy_eq_nil : lossy bs = [] ↔ bs = [] := by
  cases bs with
  | nil => simp [lossy, lossyFrom]
  | cons b bs => simp [lossy, lossyFrom, piece_ne_nil]

theorem piece_ascii (h : ∀ c ∈ piece b bs, c < 0x80) : piece b bs = [b] ∧ tailOf b bs = [] := by
  unfold piece at h ⊢
  split at h
  · have hb : b < 0x80 := h b mem_cons_self
    have ht : tailOf b bs = [] := by simp [tailOf, charWidth, hb]
    simp [ht, charWidth, hb]
  · exact absurd (h 0xEF mem_cons_self) (by decide)

theorem lossyFrom_ascii (hf : bs.length ≤ fuel)
    (h : ∀ c ∈ lossyFrom fuel bs, c < 0x80) : lossyFrom fuel bs = bs := by
  induction fuel generalizing bs with
  | zero => simp [lossyFrom, eq_nil_of_length_eq_zero (Nat.le_zero.mp hf)]
  | succ fuel ih =>
    cases bs with
    | nil => rfl
    | cons b bs =>
      obtain ⟨hp, ht⟩ := piece_ascii fun c hc => h c (mem_append_left _ hc)
      rw [lossyFrom, hp, ht, length_nil] at h ⊢
      rw [ih (by simpa using hf) fun c hc => h c (mem_append_right _ hc)]
      rfl

theorem lossy_ascii (h : ∀ c ∈ lossy bs, c < 0x80) : lossy bs = bs :=
  lossyFrom_ascii le_rfl h

example : lossy [0x61, 0xE2, 0x82, 0x41, 0xC3, 0xA9] =
    [0x61, 0xEF, 0xBF, 0xBD, 0x41, 0xC3, 0xA9] := by decide

end LossyUtf8
