import Mathlib.Tactic

/-! # Stripping words from the ends of a text

Words are stripped one after the other, as long as one is found. In UTF-8 no character's bytes
begin or end those of another, so the words may be the bytes of characters. -/
namespace TextTrim

open List

variable {α : Type} [DecidableEq α]

def stripStart (words : List (List α)) : Nat → List α → List α
  | 0, text => text
  | fuel + 1, text =>
    match words.find? (·.isPrefixOf text) with
    | some word => stripStart words fuel (text.drop word.length)
    | none => text

def trimStart (words : List (List α)) (text : List α) : List α :=
  stripStart words text.length text

def trimEnd (words : List (List α)) (text : List α) : List α :=
  (trimStart (words.map List.reverse) text.reverse).reverse

def trim (words : List (List α)) (text : List α) : List α := trimEnd words (trimStart words text)

/-- The UTF-8 texts of the characters with the property `White_Space`. -/
def whiteSpace : List (List UInt8) :=
  [[9], [10], [11], [12], [13], [32], [0xC2, 0x85], [0xC2, 0xA0], [0xE1, 0x9A, 0x80]] ++
    (List.range 11).map (fun i => [0xE2, 0x80, 0x80 + UInt8.ofNat i]) ++
    [[0xE2, 0x80, 0xA8], [0xE2, 0x80, 0xA9], [0xE2, 0x80, 0xAF], [0xE2, 0x81, 0x9F],
      [0xE3, 0x80, 0x80]]

variable {words : List (List α)} {text : List α}

theorem stripStart_split (words : List (List α)) (fuel : Nat) (text : List α) :
    ∃ taken, text = taken ++ stripStart words fuel text ∧ ∀ b ∈ taken, ∃ w ∈ words, b ∈ w := by
  induction fuel generalizing text with
  | zero => exact ⟨[], rfl, by simp⟩
  | succ fuel ih =>
    rw [stripStart]
    cases hfind : words.find? (·.isPrefixOf text) with
    | none => exact ⟨[], rfl, by simp⟩
    | some word =>
      have hword := find?_some (p := fun w : List α => w.isPrefixOf text) hfind
      obtain ⟨rest, rfl⟩ := isPrefixOf_iff_prefix.mp hword
      obtain ⟨taken, hsplit, htaken⟩ := ih rest
      refine ⟨word ++ taken, ?_, ?_⟩
      · dsimp only
        rw [drop_left, append_assoc, ← hsplit]
      · intro b hb
        rcases mem_append.mp hb with hw | ht
        · exact ⟨word, mem_of_find?_eq_some hfind, hw⟩
        · exact htaken b ht

theorem stripStart_not_prefix (hne : ∀ w ∈ words, w ≠ [])
    (hfuel : text.length ≤ fuel) (hw : w ∈ words) :
    ¬w <+: stripStart words fuel text := by
  induction fuel generalizing text with
  | zero =>
    intro h
    rw [eq_nil_of_length_eq_zero (Nat.le_zero.mp hfuel)] at h
    exact hne w hw (prefix_nil.mp h)
  | succ fuel ih =>
    rw [stripStart]
    cases hfind : words.find? (·.isPrefixOf text) with
    | none =>
      intro h
      exact find?_eq_none.mp hfind w hw (List.isPrefixOf_iff_prefix.mpr h)
    | some word =>
      refine ih ?_
      have hword := hne word (mem_of_find?_eq_some hfind)
      have hpos := length_pos_of_ne_nil hword
      rw [length_drop]
      omega

theorem stripStart_self (h : ∀ w ∈ words, ¬w <+: text) : stripStart words fuel text = text := by
  cases fuel with
  | zero => rfl
  | succ fuel =>
    have hnone : words.find? (·.isPrefixOf text) = none :=
      find?_eq_none.mpr fun w hw hp => h w hw (List.isPrefixOf_iff_prefix.mp hp)
    rw [stripStart, hnone]

theorem trimStart_self (h : ∀ w ∈ words, ¬w <+: text) : trimStart words text = text :=
  stripStart_self h

theorem trimEnd_split (words : List (List α)) (text : List α) :
    ∃ taken, text = trimEnd words text ++ taken ∧ ∀ b ∈ taken, ∃ w ∈ words, b ∈ w := by
  obtain ⟨taken, hsplit, htaken⟩ :=
    stripStart_split (words.map reverse) text.reverse.length text.reverse
  refine ⟨taken.reverse, ?_, ?_⟩
  · rw [trimEnd, trimStart, ← reverse_append, ← hsplit, reverse_reverse]
  · intro b hb
    obtain ⟨v, hv, hbw⟩ := htaken b (mem_reverse.mp hb)
    obtain ⟨w, hw, rfl⟩ := mem_map.mp hv
    exact ⟨w, hw, mem_reverse.mp hbw⟩

theorem trimEnd_not_suffix (hne : ∀ w ∈ words, w ≠ []) (hw : w ∈ words) :
    ¬w <:+ trimEnd words text := by
  intro h
  rw [← reverse_prefix, trimEnd, reverse_reverse] at h
  refine stripStart_not_prefix ?_ le_rfl (mem_map_of_mem hw) h
  intro v hv
  obtain ⟨w, hw, rfl⟩ := mem_map.mp hv
  exact reverse_ne_nil_iff.mpr (hne w hw)

theorem trimEnd_self (h : ∀ w ∈ words, ¬w <:+ text) : trimEnd words text = text := by
  rw [trimEnd, trimStart_self, reverse_reverse]
  intro v hv hp
  obtain ⟨w, hw, rfl⟩ := mem_map.mp hv
  exact h w hw (List.reverse_prefix.mp hp)

end TextTrim
