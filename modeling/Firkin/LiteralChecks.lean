import Firkin.CoreTypes
import Firkin.DecimalText

/-! # Checks of literals and of runtime values

Ids and hostnames are checked by assertions over the bytes of a literal at compile time, and at
runtime by functions that return an error. -/
namespace LiteralChecks

open Ext4Types CoreTypes List
open DecimalText (isDigit)

inductive IdValidationError where
  | empty
  | tooLong
  | forbiddenChars

/-- Every byte of UTF-8 text but a continuation byte begins a character. -/
def charCount (s : Str) : Nat := s.countP fun b => !(128 ≤ b && b < 192)

def validateIdRuntime (s : Str) : Except IdValidationError Unit :=
  if s = [] then .error .empty
  else if charCount s > 64 then .error .tooLong
  else if !s.all isIdByte then .error .forbiddenChars
  else .ok ()

inductive InvalidHostname where
  | empty
  | tooLong (s : Str)
  | numericOnly (s : Str)
  | badLabel (label : Str)
  | forbiddenChars (s : Str)

def isLabelByte (b : UInt8) : Bool :=
  isDigit b || (65 ≤ b && b ≤ 90) || (97 ≤ b && b ≤ 122) || b = 45

def validateHostnameRuntime (s : Str) : Except InvalidHostname Unit :=
  if s = [] then .error .empty
  else if s.length > 253 then .error (.tooLong s)
  else if s.all isDigit then .error (.numericOnly s)
  else (s.splitOn 46).forM fun label =>
    if label = [] ∨ label.length > 63 then .error (.badLabel label)
    else if label.head? = some 45 ∨ label.getLast? = some 45 ∨ !label.all isLabelByte then
      .error (.forbiddenChars s)
    else .ok ()

/-- `assert!`: a literal that fails it does not compile. -/
def asserting (holds : Bool) (message : String) : Except Str Unit :=
  if holds then .ok () else .error (str message)

def validateIdLiteral (bytes : Str) : Except Str Unit := do
  asserting (bytes ≠ []) "id literal is empty"
  asserting (bytes.length ≤ 64) "id literal exceeds 64 bytes"
  bytes.forM fun b => asserting (isIdByte b) "id literal contains forbidden characters"

def labelEnd (bytes : Str) (i labelLen labelStart : Nat) : Except Str Unit := do
  asserting (!(labelLen = 0 || labelLen > 63))
    "hostname literal contains an empty or overlong label"
  asserting (!(bytes[labelStart]? = some 45 || bytes[i - 1]? = some 45))
    "hostname literal contains a label with forbidden characters"

/-- The loop from index `i` on, where `rest` are the bytes from there. -/
def labelLoop (bytes : Str) : (rest : Str) → (i labelLen labelStart : Nat) → Except Str Unit
  | [], i, labelLen, labelStart => labelEnd bytes i labelLen labelStart
  | b :: rest, i, labelLen, labelStart =>
    if b = 46 then do
      labelEnd bytes i labelLen labelStart
      labelLoop bytes rest (i + 1) 0 (i + 1)
    else do
      asserting (isLabelByte b) "hostname literal contains a label with forbidden characters"
      labelLoop bytes rest (i + 1) (labelLen + 1) labelStart

def validateHostnameLiteral (bytes : Str) : Except Str Unit := do
  asserting (bytes ≠ []) "hostname literal is empty"
  asserting (bytes.length ≤ 253) "hostname literal exceeds 253 bytes"
  asserting (!bytes.all isDigit) "hostname literal is purely numeric"
  labelLoop bytes bytes 0 0 0

theorem asserting_ok {holds} {message : String} :
    asserting holds message = .ok () ↔ holds = true := by
  cases holds <;> simp [asserting]

theorem seq_ok {ε : Type} {x y : Except ε Unit} :
    (x >>= fun _ => y) = .ok () ↔ x = .ok () ∧ y = .ok () := by
  cases x with
  | ok _ => exact (and_iff_right rfl).symm
  | error e => exact iff_of_false (by rintro ⟨⟩) (by rintro ⟨⟨⟩, _⟩)

theorem forM_ok {α ε : Type} {f : α → Except ε Unit} {l : List α} :
    l.forM f = .ok () ↔ ∀ a ∈ l, f a = .ok () := by
  induction l with
  | nil => exact iff_of_true rfl (by simp)
  | cons a l ih =>
    change (f a >>= fun _ => l.forM f) = _ ↔ _
    rw [seq_ok, ih, forall_mem_cons]

theorem refuse_ok {ε : Type} {p : Prop} [Decidable p] {e : ε} {x : Except ε Unit} :
    (if p then .error e else x) = .ok () ↔ ¬p ∧ x = .ok () := by
  split <;> simp [*]

def Label (l : Str) : Prop :=
  l ≠ [] ∧ l.length ≤ 63 ∧ l.head? ≠ some 45 ∧ l.getLast? ≠ some 45

theorem modifyHead_nil_append (ls : List Str) : ls.modifyHead ([] ++ ·) = ls := by
  cases ls <;> rfl

theorem labelEnd_ok (pre label rest : Str) :
    labelEnd (pre ++ (label ++ rest)) (pre.length + label.length) label.length pre.length = .ok () ↔
      Label label := by
  rw [labelEnd, seq_ok, asserting_ok, asserting_ok]
  by_cases hne : label = []
  · exact iff_of_false (by simp [hne]) fun h => h.1 hne
  · have hpos := length_pos_of_ne_nil hne
    have hhead : (pre ++ (label ++ rest))[pre.length]? = label.head? := by
      rw [getElem?_append_right le_rfl, Nat.sub_self, getElem?_append_left hpos, head?_eq_getElem?]
    have hlast : (pre ++ (label ++ rest))[pre.length + label.length - 1]? = label.getLast? := by
      rw [getElem?_append_right (by omega), getElem?_append_left (by omega), getLast?_eq_getElem?]
      congr 1
      omega
    rw [hhead, hlast]
    simp [Label, hne]

/-- The loop has read `label` of the current label, and the labels that are still to be checked
begin with it. -/
theorem labelLoop_ok {pre label rest : Str} (h : ∀ b ∈ label, isLabelByte b = true) :
    labelLoop (pre ++ (label ++ rest)) rest (pre.length + label.length) label.length pre.length =
        .ok () ↔
      ∀ l ∈ (rest.splitOn 46).modifyHead (label ++ ·), Label l ∧ ∀ b ∈ l, isLabelByte b = true := by
  induction rest generalizing pre label with
  | nil =>
    rw [labelLoop, labelEnd_ok]
    simpa using fun _ => h
  | cons b rest ih =>
    rw [labelLoop, splitOn, splitOnP_cons_eq_if_modifyHead]
    by_cases hdot : b = 46
    · subst hdot
      have hloop := @ih (pre ++ (label ++ [46])) [] (by simp)
      rw [modifyHead_nil_append] at hloop
      simp only [append_assoc, cons_append, nil_append, length_append, length_cons, length_nil,
        Nat.zero_add, Nat.add_zero, ← Nat.add_assoc] at hloop
      rw [if_pos rfl, seq_ok, labelEnd_ok, if_pos (by decide), modifyHead_cons, forall_mem_cons,
        append_nil, and_iff_left h]
      exact and_congr_right' hloop
    · rw [if_neg hdot, seq_ok, asserting_ok, if_neg (by simpa using hdot), modifyHead_modifyHead]
      by_cases hb : isLabelByte b = true
      · have hloop := @ih pre (label ++ [b]) (by simpa [or_imp, forall_and, hb] using h)
        simp only [append_assoc, cons_append, nil_append, length_append, length_cons, length_nil,
          Nat.zero_add, ← Nat.add_assoc] at hloop
        rw [and_iff_right hb]
        exact hloop
      · refine iff_of_false (fun hok => hb hok.1) fun hall => hb ?_
        obtain ⟨l, ls, hsplit⟩ := exists_cons_of_ne_nil (splitOnP_ne_nil (· == 46) rest)
        rw [hsplit, modifyHead_cons] at hall
        exact (hall _ mem_cons_self).2 b (by simp)

theorem charCount_ascii {s : Str} (h : s.all isIdByte = true) : charCount s = s.length := by
  rw [charCount, countP_eq_length]
  intro b hb
  have hid := all_eq_true.mp h b hb
  simp [isIdByte, UInt8.le_iff_toNat_le, UInt8.lt_iff_toNat_lt, ← UInt8.toNat_inj] at hid ⊢
  omega

/-- A literal compiles exactly when the runtime check accepts its text. -/
theorem literals_agree (s : Str) :
    (validateHostnameLiteral s = .ok () ↔ validateHostnameRuntime s = .ok ()) ∧
      (validateIdLiteral s = .ok () ↔ validateIdRuntime s = .ok ()) := by
  constructor
  · have hloop := @labelLoop_ok [] [] s (by simp)
    rw [modifyHead_nil_append] at hloop
    change labelLoop s s 0 0 0 = _ ↔ _ at hloop
    simp only [validateHostnameLiteral, validateHostnameRuntime, seq_ok, asserting_ok, refuse_ok,
      forM_ok, hloop]
    simp [Label, not_or, and_assoc]
  · simp only [validateIdLiteral, validateIdRuntime, seq_ok, asserting_ok, refuse_ok, forM_ok]
    by_cases hall : s.all isIdByte = true
    · simp [charCount_ascii hall]
    · simpa [hall] using fun _ _ => by simpa using hall

end LiteralChecks
