import Firkin.Ext4DirectoryBlocks

/-! # Extended attribute areas

Both encoders run the same loop: entries grow from the front of the area, values from its
end. Whether it goes through depends on the lengths alone: a value that no longer fits is
rejected, an entry that runs past the area or a name of 256 bytes and more is a panic. -/
namespace Ext4Attributes

open Ext4Types Ext4Builder ByteImage Ext4Layout Ext4Encoding Ext4Sizing FaultMonad

theorem copyFromSlice_length (h : copyFromSlice buf lo hi src = .ok r) : r.length = buf.length := by
  unfold copyFromSlice at h
  split at h
  · cases h
  · split at h
    · cases h
    · next hb hs =>
      cases h
      simp only [List.length_append, List.length_take, List.length_drop]
      omega

theorem copyFromSlice_fits {buf src : List UInt8} {lo hi : Nat} (h : hi ≤ buf.length)
    (hs : lo + src.length = hi) : ∃ r, copyFromSlice buf lo hi src = .ok r ∧
      r.length = buf.length := by
  have hok : copyFromSlice buf lo hi src = .ok (buf.take lo ++ src ++ buf.drop hi) := by
    rw [copyFromSlice, if_neg (by omega), if_neg (by omega)]
  exact ⟨_, hok, copyFromSlice_length hok⟩

def suffix (x : Xattr) : Str := (splitXattrName x.name).2

/-- The entry of an attribute whose value lies at `valueOffs`. -/
def entryOf (x : Xattr) (valueOffs : Nat) : XattrEntry :=
  { nameLen := (suffix x).length % 2 ^ 8, nameIndex := (splitXattrName x.name).1, valueOffs
    valueSize := x.value.length }

theorem align4_ge (n : Nat) : n ≤ align4 n := by
  unfold align4
  omega

theorem writeXattrEntries_cons (base : Nat)
    (off next : Nat) (buf : Buf) : writeXattrEntries base what (x :: xs) off next buf =
      if next < align4 x.value.length then .error (.err (.internal 0 what))
      else (do
        let buf ← copyFromSlice buf off (off + 16) (entryOf x (next - align4 x.value.length)).bytes
        let buf ← copyFromSlice buf (off + 16) (off + 16 + (suffix x).length % 2 ^ 8) (suffix x)
        let buf ← copyFromSlice buf (base + (next - align4 x.value.length))
          (base + (next - align4 x.value.length) + x.value.length) x.value
        writeXattrEntries base what xs (off + (16 + align4 ((suffix x).length % 2 ^ 8)))
          (next - align4 x.value.length) buf : Except Fault Buf) := by
  have hval : x.value.length + (align4 x.value.length - x.value.length) =
      align4 x.value.length := by
    have := align4_ge x.value.length
    omega
  have hname : 16 + (suffix x).length % 2 ^ 8 +
      (align4 ((suffix x).length % 2 ^ 8) - (suffix x).length % 2 ^ 8) =
      16 + align4 ((suffix x).length % 2 ^ 8) := by
    have := align4_ge ((suffix x).length % 2 ^ 8)
    omega
  rw [writeXattrEntries]
  simp only [hval, ← hname]
  rfl

/-- The fault of the encoding loop on an area of `size` bytes. -/
def entriesFault (size : Nat) (what : String) : List Xattr → Nat → Nat → Option Fault
  | [], _, _ => none
  | x :: xs, off, next =>
    if next < align4 x.value.length then some (.err (.internal 0 what))
    else if size < off + 16 + (suffix x).length % 2 ^ 8 then some (.panic .indexOutOfRange)
    else if 2 ^ 8 ≤ (suffix x).length then some (.panic .sliceMismatch)
    else entriesFault size what xs (off + (16 + align4 (suffix x).length))
      (next - align4 x.value.length)

theorem writeXattrEntries_cases {base : Nat} {size : Nat}
    {off next : Nat} {buf : Buf} (hlen : buf.length = size) (hnext : base + next ≤ size) :
    (∃ φ, entriesFault size what xs off next = some φ ∧
      writeXattrEntries base what xs off next buf = .error φ) ∨
    (entriesFault size what xs off next = none ∧
      ∃ r, writeXattrEntries base what xs off next buf = .ok r ∧ r.length = size) := by
  induction xs generalizing off next buf with
  | nil => exact .inr ⟨rfl, buf, rfl, hlen⟩
  | cons x xs ih =>
    rw [entriesFault, writeXattrEntries_cons]
    by_cases hfull : next < align4 x.value.length
    · rw [if_pos hfull, if_pos hfull]
      exact .inl ⟨_, rfl, rfl⟩
    rw [if_neg hfull, if_neg hfull]
    have hval := align4_ge x.value.length
    by_cases hentry : size < off + 16
    · have h1 : copyFromSlice buf off (off + 16)
          (entryOf x (next - align4 x.value.length)).bytes = .error (.panic .indexOutOfRange) :=
        if_pos (.inr (by omega))
      rw [if_pos (by omega), except_bind_error h1]
      exact .inl ⟨_, rfl, rfl⟩
    obtain ⟨b1, h1, hl1⟩ := @copyFromSlice_fits buf
      (entryOf x (next - align4 x.value.length)).bytes off (off + 16) (by omega) (by simp)
    rw [except_bind_ok h1]
    by_cases hroom : size < off + 16 + (suffix x).length % 2 ^ 8
    · have h2 : copyFromSlice b1 (off + 16) (off + 16 + (suffix x).length % 2 ^ 8) (suffix x) =
          .error (.panic .indexOutOfRange) := if_pos (.inr (by omega))
      rw [if_pos hroom, except_bind_error h2]
      exact .inl ⟨_, rfl, rfl⟩
    rw [if_neg hroom]
    by_cases hlong : 2 ^ 8 ≤ (suffix x).length
    · have h2 : copyFromSlice b1 (off + 16) (off + 16 + (suffix x).length % 2 ^ 8) (suffix x) =
          .error (.panic .sliceMismatch) := by
        rw [copyFromSlice, if_neg (by omega), if_pos (by omega)]
      rw [if_pos hlong, except_bind_error h2]
      exact .inl ⟨_, rfl, rfl⟩
    rw [if_neg hlong, Nat.mod_eq_of_lt (by omega)]
    obtain ⟨b2, h2, hl2⟩ := @copyFromSlice_fits b1 (suffix x) (off + 16)
      (off + 16 + (suffix x).length) (by omega) rfl
    obtain ⟨b3, h3, hl3⟩ := @copyFromSlice_fits b2 x.value
      (base + (next - align4 x.value.length))
      (base + (next - align4 x.value.length) + x.value.length) (by omega) rfl
    rw [except_bind_ok h2, except_bind_ok h3]
    exact ih (by omega) (by omega)

def blockFault (bs : BlockSize) (xs : List Xattr) : Option Fault :=
  entriesFault bs.bytes "block xattr value region overflow" xs 32 bs.bytes

def inlineFault (xs : List Xattr) : Option Fault :=
  entriesFault inodeInlineXattrSize "inline xattr value region overflow" xs 4
    (inodeInlineXattrSize - 4)

theorem writeXattrBlock_cases (bs : BlockSize) (xs : List Xattr) :
    (∃ φ, blockFault bs xs = some φ ∧ writeXattrBlock xs (zeros bs.bytes) = .error φ) ∨
    (blockFault bs xs = none ∧
      ∃ r, writeXattrBlock xs (zeros bs.bytes) = .ok r ∧ r.length = bs.bytes) := by
  have hbs := blockSize_cases bs
  obtain ⟨b1, h1, hl1⟩ := @copyFromSlice_fits (zeros bs.bytes) (le32 xattrMagic) 0 4
    (by simp; omega) (by simp)
  obtain ⟨b2, h2, hl2⟩ := @copyFromSlice_fits b1 (le32 1) 4 8 (by simp at hl1; omega) (by simp)
  obtain ⟨b3, h3, hl3⟩ := @copyFromSlice_fits b2 (le32 1) 8 12 (by simp at hl1; omega) (by simp)
  have hlen : b3.length = bs.bytes := by rw [hl3, hl2, hl1, length_zeros]
  rw [writeXattrBlock, except_bind_ok h1, except_bind_ok h2, except_bind_ok h3, hlen]
  exact writeXattrEntries_cases hlen (by omega)

theorem writeXattrBlock_length {bs : BlockSize} {r : Buf}
    (h : writeXattrBlock xs (zeros bs.bytes) = .ok r) : r.length = bs.bytes := by
  rcases writeXattrBlock_cases bs xs with ⟨φ, _, herr⟩ | ⟨_, r', hok, hlen⟩
  · cases h.symm.trans herr
  · cases h.symm.trans hok
    exact hlen

theorem writeXattrInline_cases (xs : List Xattr) :
    (∃ φ, inlineFault xs = some φ ∧ writeXattrInline xs (zeros inodeInlineXattrSize) = .error φ) ∨
    (inlineFault xs = none ∧ ∃ r, writeXattrInline xs (zeros inodeInlineXattrSize) = .ok r ∧
      r.length = inodeInlineXattrSize) := by
  obtain ⟨b1, h1, hl1⟩ := @copyFromSlice_fits (zeros inodeInlineXattrSize) (le32 xattrMagic) 0 4
    (by simp [inodeInlineXattrSize]) (by simp)
  have hlen : b1.length = inodeInlineXattrSize := by rw [hl1, length_zeros]
  rw [writeXattrInline, except_bind_ok h1, hlen]
  exact writeXattrEntries_cases hlen (by unfold inodeInlineXattrSize; omega)

end Ext4Attributes
