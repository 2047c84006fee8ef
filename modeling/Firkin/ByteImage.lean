import Mathlib.Tactic

/-! # Bytes at offsets

A random-access store is a map from offsets to bytes. `Holds img off bs` says that the
bytes `bs` stand at `off`; records are concatenations of little-endian fields, so a
record that stands somewhere is read back field by field with `holds_append`. -/
namespace ByteImage

open List

/-- The `k` low bytes of `n`, least significant first. -/
def leBytes : Nat → Nat → List UInt8
  | 0, _ => []
  | k + 1, n => UInt8.ofNat n :: leBytes k (n / 256)

@[simp] theorem length_leBytes (k n : Nat) : (leBytes k n).length = k := by
  induction k generalizing n with
  | zero => rfl
  | succ k ih => simp [leBytes, ih]

/-- Bit `k` is bit `k % 8` of byte `k / 8`. Setting a bit past the end does nothing. -/
def setBit (buf : List UInt8) (bit : Nat) : List UInt8 :=
  buf.modify (bit / 8) (· ||| (1 <<< UInt8.ofNat (bit % 8)))

/-- The number a run of bytes stands for, least significant byte first. -/
def leValue : List UInt8 → Nat
  | [] => 0
  | b :: bs => b.toNat + 256 * leValue bs

theorem leValue_leBytes (k n : Nat) : leValue (leBytes k n) = n % 256 ^ k := by
  induction k generalizing n with
  | zero => rw [Nat.pow_zero, Nat.mod_one]; rfl
  | succ k ih => rw [leBytes, leValue, ih, Nat.pow_succ', Nat.mod_mul, UInt8.toNat_ofNat']

theorem leBytes_leValue (bs : List UInt8) : leBytes bs.length (leValue bs) = bs := by
  induction bs with
  | nil => rfl
  | cons b bs ih =>
    have hb := b.toNat_lt
    have hlow : UInt8.ofNat (b.toNat + 256 * leValue bs) = b := by
      rw [← UInt8.toNat_inj, UInt8.toNat_ofNat']
      omega
    have hhigh : (b.toNat + 256 * leValue bs) / 256 = leValue bs := by omega
    rw [length_cons, leBytes, leValue, hlow, hhigh, ih]

/-- The number in the `size` bytes at `off`. -/
def field (bytes : List UInt8) (off size : Nat) : Nat := leValue ((bytes.drop off).take size)

theorem field_head (k n : Nat) : field (leBytes k n ++ r) 0 k = n % 256 ^ k := by
  rw [field, drop_zero, take_left' (length_leBytes k n), leValue_leBytes]

theorem field_skip (h : a.length ≤ off) (size : Nat) :
    field (a ++ b) off size = field b (off - a.length) size := by
  rw [field, drop_append, drop_eq_nil_of_le h, nil_append]
  rfl

def zeros (n : Nat) : List UInt8 := List.replicate n 0

@[simp] theorem length_zeros (n : Nat) : (zeros n).length = n := length_replicate

theorem field_zeros (n off size : Nat) : field (zeros n) off size = 0 := by
  have hvalue : ∀ k, leValue (replicate k 0) = 0 := by
    intro k
    induction k with
    | zero => rfl
    | succ k ih => rw [replicate_succ, leValue, ih]; rfl
  rw [field, zeros, drop_replicate, take_replicate, hvalue]

theorem zeros_add (m n : Nat) : zeros (m + n) = zeros m ++ zeros n :=
  (replicate_append_replicate).symm

@[simp] theorem zeros_zero : zeros 0 = [] := rfl

abbrev Image := Nat → UInt8

def overwrite (img : Image) (off : Nat) (bs : List UInt8) : Image := fun i =>
  if off ≤ i then (bs[i - off]?).getD (img i) else img i

def Holds (img : Image) (off : Nat) (bs : List UInt8) : Prop :=
  ∀ (k : Nat) (b : UInt8), bs[k]? = some b → img (off + k) = b

variable {img : Image} {off : Nat} {bs : List UInt8}

theorem Holds.congr (h : Holds img off bs)
    (heq : ∀ i, off ≤ i → i < off + bs.length → img' i = img i) : Holds img' off bs := by
  intro k b hb
  have hk := (List.getElem?_eq_some_iff.mp hb).1
  rw [heq (off + k) (by omega) (by omega)]
  exact h k b hb

theorem Holds.left (h : Holds img off (a ++ b)) : Holds img off a := by
  intro k x hx
  exact h k x ((List.getElem?_append_left (List.getElem?_eq_some_iff.mp hx).1).trans hx)

theorem Holds.right (h : Holds img off (a ++ b)) : Holds img (off + a.length) b := by
  intro k x hx
  rw [Nat.add_assoc]
  exact h _ x ((getElem?_append_right (by omega)).trans (by simpa using hx))

theorem overwrite_before (h : i < off) : overwrite img off bs i = img i :=
  if_neg (by omega)

theorem overwrite_after (h : off + bs.length ≤ i) : overwrite img off bs i = img i := by
  rw [overwrite, if_pos (by omega), getElem?_eq_none (by omega)]
  rfl

theorem overwrite_off (h : i < off ∨ off + bs.length ≤ i) : overwrite img off bs i = img i :=
  h.elim overwrite_before overwrite_after

theorem holds_overwrite : Holds (overwrite img off bs) off bs := by
  intro k b hb
  rw [overwrite, if_pos (by omega), show off + k - off = k by omega, hb]
  rfl

theorem Holds.overwrite (h : Holds img off bs)
    (hd : off + bs.length ≤ o ∨ o + l.length ≤ off) : Holds (overwrite img o l) off bs :=
  h.congr fun _ h1 h2 => overwrite_off (by omega)

theorem overwrite_append :
    ByteImage.overwrite img off (a ++ b) =
      ByteImage.overwrite (ByteImage.overwrite img off a) (off + a.length) b := by
  funext i
  simp only [ByteImage.overwrite]
  by_cases h1 : off ≤ i
  · by_cases h2 : off + a.length ≤ i
    · rw [if_pos h2, if_pos h1, getElem?_append_right (by omega),
        getElem?_eq_none (l := a) (by omega), Nat.sub_sub]
      simp
    · rw [if_pos h1, if_neg h2, if_pos h1, getElem?_append_left (by omega)]
  · rw [if_neg h1, if_neg (by omega), if_neg h1]

@[simp] theorem overwrite_nil : ByteImage.overwrite img off [] = img := by
  funext i
  simp [ByteImage.overwrite]

def applyAll (img : Image) (writes : List (Nat × List UInt8)) : Image :=
  writes.foldl (fun img w => ByteImage.overwrite img w.1 w.2) img

theorem applyAll_append : applyAll img (pre ++ post) = applyAll (applyAll img pre) post :=
  foldl_append

/-- A byte that none of the writes covers stays. -/
theorem applyAll_off {writes : List (Nat × List UInt8)}
    (h : ∀ w ∈ writes, i < w.1 ∨ w.1 + w.2.length ≤ i) : applyAll img writes i = img i := by
  induction writes generalizing img with
  | nil => rfl
  | cons w writes ih =>
    obtain ⟨hw, hwrites⟩ := forall_mem_cons.mp h
    exact (ih hwrites).trans (overwrite_off hw)

end ByteImage
