import Mathlib.Data.Nat.Digits.Lemmas
import Firkin.TextTrim

/-! # Numbers as decimal text

Unsigned numbers in ASCII, as they are printed and as they are parsed at a given width. -/
namespace DecimalText

open TextTrim (whiteSpace trimStart trimStart_self trimEnd)

abbrev Text := List UInt8
def isDigit (b : UInt8) : Bool := 48 ≤ b ∧ b ≤ 57
def digit (d : Nat) : UInt8 := UInt8.ofNat (48 + d)

def render (n : Nat) : Text :=
  if n = 0 then [digit 0] else (Nat.digits 10 n).reverse.map digit

def shift (value : Nat) (b : UInt8) : Option Nat :=
  if isDigit b then some (value * 10 + (b.toNat - 48)) else none

def value (text : Text) : Option Nat := text.foldlM shift 0

def parse (width : Nat) (text : Text) : Option Nat :=
  let digits := if text.head? = some 43 then text.tail else text
  if digits = [] then none
  else (value digits).filter (· < 2 ^ width)

def trim (text : Text) : Text := TextTrim.trim whiteSpace text

theorem digit_lt (h : d < 10) : isDigit (digit d) = true ∧ (digit d).toNat = 48 + d := by
  interval_cases d <;> decide

theorem shift_digit (h : d < 10) (v : Nat) : shift v (digit d) = some (v * 10 + d) := by
  obtain ⟨hd, hv⟩ := digit_lt h
  rw [shift, if_pos hd, hv, Nat.add_sub_cancel_left]

theorem foldlM_digits {ds : List Nat} (h : ∀ d ∈ ds, d < 10) (v : Nat) :
    (ds.map digit).foldlM shift v = some (ds.foldl (fun v d => v * 10 + d) v) := by
  induction ds generalizing v with
  | nil => rfl
  | cons d ds ih =>
    rw [List.map_cons, List.foldlM_cons, shift_digit (h d (by simp))]
    exact ih (fun e he => h e (by simp [he])) _

theorem value_render (n : Nat) : value (render n) = some n := by
  unfold value render
  split
  · next hn =>
    subst hn
    rfl
  · rw [foldlM_digits, List.foldl_reverse]
    · congr 1
      calc (Nat.digits 10 n).foldr (fun d v => v * 10 + d) 0
          = Nat.ofDigits 10 (Nat.digits 10 n) := by
            rw [Nat.ofDigits_eq_foldr]
            congr 1
            simp [Nat.mul_comm, Nat.add_comm]
        _ = n := Nat.ofDigits_digits 10 n
    · intro d hd
      exact Nat.digits_lt_base (by decide) (List.mem_reverse.mp hd)

theorem render_digits (hb : b ∈ render n) : isDigit b = true := by
  unfold render at hb
  split at hb
  · obtain rfl : b = digit 0 := by simpa using hb
    decide
  · obtain ⟨d, hd, rfl⟩ := List.mem_map.mp hb
    exact (digit_lt (Nat.digits_lt_base (by decide) (List.mem_reverse.mp hd))).1

theorem render_ne_nil (n : Nat) : render n ≠ [] := by
  unfold render
  split
  · simp
  · next hn => simpa [Nat.digits_eq_nil_iff_eq_zero] using hn

theorem render_length (h : n < 10 ^ d) (hd : 0 < d) : (render n).length ≤ d := by
  unfold render
  split
  · exact hd
  · rw [List.length_map, List.length_reverse]
    exact (Nat.digits_length_le_iff (by decide) n).mpr h

theorem parse_render (h : n < 2 ^ width) : parse width (render n) = some n := by
  have hplus : (render n).head? ≠ some 43 := by
    intro hhead
    exact absurd (render_digits (List.mem_of_mem_head? hhead)) (by decide)
  rw [parse, if_neg hplus, if_neg (render_ne_nil n), value_render]
  simp [h]

theorem parse_lt (h : parse width text = some n) : n < 2 ^ width := by
  unfold parse at h
  extract_lets digits at h
  split at h
  · cases h
  · exact of_decide_eq_true (Option.filter_eq_some_iff.mp h).2

def blank (word : Text) : Bool := word ≠ [] ∧ word.all (!isDigit ·)

theorem blank_whiteSpace : ∀ word ∈ whiteSpace, blank word = true := by
  decide

theorem blank_reverse : blank word.reverse = blank word := by
  simp [blank]

theorem blank_not_start (hw : blank word = true) (h : ∀ b ∈ text, isDigit b = true)
    (hne : text ≠ []) : ¬word <+: text ++ rest := by
  obtain ⟨hword, hblank⟩ := of_decide_eq_true hw
  obtain ⟨b, word, rfl⟩ := List.exists_cons_of_ne_nil hword
  obtain ⟨c, text, rfl⟩ := List.exists_cons_of_ne_nil hne
  intro hp
  rw [List.cons_append, List.cons_prefix_cons] at hp
  rw [List.all_cons, hp.1, h c (by simp)] at hblank
  cases hblank

/-- Digits followed by a newline are trimmed to the digits. -/
theorem trim_line (h : ∀ b ∈ text, isDigit b = true) (hne : text ≠ []) :
    trim (text ++ [10]) = text := by
  have hback : trimEnd whiteSpace (text ++ [10]) = text := by
    have hnewline (rest : Text) : trimStart (whiteSpace.map List.reverse) (10 :: rest) =
        trimStart (whiteSpace.map List.reverse) rest := rfl
    rw [trimEnd, List.reverse_append, List.reverse_singleton, List.singleton_append,
      hnewline, trimStart_self, List.reverse_reverse]
    intro word hword
    obtain ⟨w, hw, rfl⟩ := List.mem_map.mp hword
    simpa using @blank_not_start w.reverse text.reverse []
      (blank_reverse.trans (blank_whiteSpace w hw)) (by simpa using h) (by simpa using hne)
  rw [trim, TextTrim.trim, trimStart_self, hback]
  exact fun w hw => blank_not_start (blank_whiteSpace w hw) h hne

theorem parse_trim_line (h : n < 2 ^ width) : parse width (trim (render n ++ [10])) = some n := by
  rw [trim_line (fun b hb => render_digits hb) (render_ne_nil n), parse_render h]

end DecimalText
