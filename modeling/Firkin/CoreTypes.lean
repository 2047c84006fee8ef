import Firkin.Ext4Types

/-! # Ids, paths and errors of the container runtime -/
namespace CoreTypes

open Ext4Types

inductive Error where
  | invalidGuestPath (path reason : Str)
  | runtimeOperation (operation reason : Str)
  deriving DecidableEq

structure ExitStatus where
  code : Option Int32
  signal : Option Int32 := none

def ExitStatus.fromCode (code : Int32) : ExitStatus := ⟨some code, none⟩

structure Output where
  status : ExitStatus
  stdout : List UInt8
  stderr : List UInt8

/-- Letters, digits, `_`, `.` and `-`. -/
def isIdByte (b : UInt8) : Bool :=
  (48 ≤ b && b ≤ 57) || (65 ≤ b && b ≤ 90) || (97 ≤ b && b ≤ 122) || b = 95 || b = 46 || b = 45

def validId (s : Str) : Bool := !s.isEmpty && s.length ≤ 64 && s.all isIdByte

structure ContainerId where
  text : Str
  valid : validId text = true
  deriving DecidableEq

theorem ContainerId.ext {a b : ContainerId} (h : a.text = b.text) : a = b := by
  cases b
  cases h
  rfl

theorem ContainerId.slash_not_mem (id : ContainerId) : slash ∉ id.text := by
  intro hm
  have hall := (Bool.and_eq_true_iff.mp id.valid).2
  have hbyte := List.all_eq_true.mp hall slash hm
  revert hbyte
  decide

theorem ContainerId.text_ne_nil (id : ContainerId) : id.text ≠ [] := by
  intro h
  have hnonempty := (Bool.and_eq_true_iff.mp (Bool.and_eq_true_iff.mp id.valid).1).1
  rw [h] at hnonempty
  cases hnonempty

def dot : Str := str "."

def validateGuestPath (path : Str) : Except Error Unit :=
  if path.isEmpty then
    .error (.invalidGuestPath path (str "path cannot be empty"))
  else if path.contains 0 then
    .error (.invalidGuestPath path (str "path cannot contain NUL"))
  else if path = [slash] then
    .error (.invalidGuestPath path (str "path cannot be root"))
  else if path.head? ≠ some slash then
    .error (.invalidGuestPath path (str "path must be absolute"))
  else if ((path.splitOn slash).drop 1).any fun component =>
      component = str ".." || component.isEmpty then
    .error (.invalidGuestPath path (str "path must be normalized"))
  else .ok ()

structure GuestPath where
  text : Str
  valid : validateGuestPath text = .ok ()

def GuestPath.new (path : Str) : Except Error GuestPath :=
  match h : validateGuestPath path with
  | .ok () => .ok ⟨path, h⟩
  | .error e => .error e

theorem GuestPath.new_text (h : GuestPath.new path = .ok p) : p.text = path := by
  unfold GuestPath.new at h
  split at h
  · cases h
    rfl
  · cases h

def resolve (path : Str) : List Str :=
  (path.splitOn slash).filter fun component => component ≠ [] ∧ component ≠ dot

theorem resolve_append (path rest : Str) :
    resolve (path ++ slash :: rest) = resolve path ++ resolve rest := by
  unfold resolve
  rw [List.splitOn, List.splitOnP_append_cons _ _ (by decide), List.filter_append]
  rfl

theorem resolve_component (h : slash ∉ component) (hne : component ≠ []) :
    resolve component = if component = dot then [] else [component] := by
  have hsplit : component.splitOn slash = [component] := by
    have hone : ([slash].intercalate [component]).splitOn slash = [component] :=
      List.splitOn_intercalate slash (by simpa using h) (by simp)
    simpa using hone
  rw [resolve, hsplit]
  by_cases hdot : component = dot
  · simp [hdot]
  · simp [hdot, hne]

end CoreTypes
