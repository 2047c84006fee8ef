import Mathlib.Tactic

/-! # Units, modes and errors of the ext4 writer

Strings are their UTF-8 bytes, so `len` is the byte length and every byte
string is covered. Fixed-width counters are naturals; the arithmetic on them is
checked, an overflow being a panic of its own kind. -/
namespace Ext4Types

abbrev Str := List UInt8

instance : LawfulBEq Str := inferInstance

def str (s : String) : Str := s.toUTF8.data.toList
def slash : UInt8 := 47

/-- The constructor is private in the source: only three sizes exist. -/
inductive BlockSize where
  | k1
  | k2
  | k4

def BlockSize.bytes : BlockSize → Nat
  | .k1 => 1024
  | .k2 => 2048
  | .k4 => 4096

def BlockSize.log : BlockSize → Nat
  | .k1 => 0
  | .k2 => 1
  | .k4 => 2

structure FileMode where
  bits : UInt16
  deriving DecidableEq

namespace FileMode

def ifdir : UInt16 := 0x4000
def ifchr : UInt16 := 0x2000
def ifreg : UInt16 := 0x8000
def iflnk : UInt16 := 0xA000
def typeMask : UInt16 := 0xF000
def dir (perm : UInt16) : FileMode := ⟨ifdir ||| (perm &&& 0o7777)⟩
def charDevice (perm : UInt16) : FileMode := ⟨ifchr ||| (perm &&& 0o7777)⟩
def regular (perm : UInt16) : FileMode := ⟨ifreg ||| (perm &&& 0o7777)⟩
def symlink (perm : UInt16) : FileMode := ⟨iflnk ||| (perm &&& 0o7777)⟩
def isDir (m : FileMode) : Bool := m.bits &&& typeMask == ifdir

/-- Directory-entry `file_type` byte. -/
def dirEntryType (m : FileMode) : UInt8 :=
  if m.bits &&& typeMask = ifreg then 1
  else if m.bits &&& typeMask = ifdir then 2
  else if m.bits &&& typeMask = ifchr then 3
  else if m.bits &&& typeMask = iflnk then 7
  else 0

theorem type_of_perm (t p : UInt16) (ht : t &&& typeMask = t) :
    (t ||| (p &&& 0o7777)) &&& typeMask = t := by
  have hp : (p &&& 0o7777) &&& typeMask = 0 := by
    rw [UInt16.and_assoc]
    have : (0o7777 : UInt16) &&& typeMask = 0 := by decide
    rw [this, UInt16.and_zero]
  have hd : (t ||| (p &&& 0o7777)) &&& typeMask =
      (t &&& typeMask) ||| ((p &&& 0o7777) &&& typeMask) := by
    apply UInt16.eq_of_toBitVec_eq
    simp only [UInt16.toBitVec_and, UInt16.toBitVec_or, BitVec.and_or_distrib_right]
  rw [hd, ht, hp, UInt16.or_zero]

@[simp] theorem isDir_dir (p : UInt16) : (dir p).isDir = true := by
  simp only [isDir, dir, type_of_perm ifdir p (by decide), beq_self_eq_true]

@[simp] theorem isDir_charDevice (p : UInt16) : (charDevice p).isDir = false := by
  simp only [isDir, charDevice, type_of_perm ifchr p (by decide)]
  decide

@[simp] theorem isDir_regular (p : UInt16) : (regular p).isDir = false := by
  simp only [isDir, regular, type_of_perm ifreg p (by decide)]
  decide

@[simp] theorem isDir_symlink (p : UInt16) : (symlink p).isDir = false := by
  simp only [isDir, symlink, type_of_perm iflnk p (by decide)]
  decide

end FileMode

/-- The sources of the wrapped `io::Error`s are opaque, so `write` and `control`
keep only the fields this crate fills in itself. -/
inductive Ext4Error where
  | unsupportedFeature (feature : Str)
  | fileTooLarge (bytes max : Nat)
  | extentDepthExceeded (path : Str) (maxDepth : Nat)
  | dirEntryOverflow (name : Str) (recLen : Nat)
  | pathConflict (path : Str)
  | invalidFilename (name : Str)
  | symlinkTargetTooLong (bytes max : Nat)
  | invalidHardlinkTarget (path : Str)
  | write (offset bytes : Nat)
  | control (what : String)
  | internal (block : Nat) (what : String)
  deriving DecidableEq

inductive Panic where
  | indexOutOfRange
  | sliceMismatch
  | unwrapNone
  | arithmeticOverflow
  | diverges
  deriving DecidableEq

/-- How a call ends when it does not return `Ok`. -/
inductive Fault where
  | err (e : Ext4Error)
  | panic (p : Panic)
  deriving DecidableEq

section
variable {σ : Type}

def checkedAdd (width a b : Nat) : EStateM Fault σ Nat :=
  if a + b < 2 ^ width then pure (a + b) else throw (.panic .arithmeticOverflow)

theorem checkedAdd_ok (h : a + b < 2 ^ width) : checkedAdd width a b s = .ok (a + b) s := by
  rw [checkedAdd, if_pos h]; rfl
end

theorem lt_of_get {α : Type} {l : List α} {i : Nat} {a : α} (h : l[i]? = some a) : i < l.length :=
  (List.getElem?_eq_some_iff.mp h).1

end Ext4Types
