import Firkin.DecimalText
import Firkin.Ext4Types
import Firkin.Interleaving
import Firkin.SortedTable

/-! # Saving the state file

`atomic_save_state_json` cut at its file-system operations, for any number of saves at the same
time. The save takes a lock file, writes a temporary file and renames it over the state file.
A kill ends a save between two operations and cleans up nothing; `create_new` and `rename` are
atomic. Files are what is in the directory of the state file, by name. -/
namespace StateFile

open Ext4Types DecimalText Interleaving SortedTable Std.ExtTreeMap

abbrev Files := Table Str Str

/-- `state_sidecar_path`, for a state file with the name `name`. -/
def stateSidecar (name suffix : Str) : Str := name ++ str "." ++ suffix
def lockName (name : Str) : Str := stateSidecar name (str "lock")

/-- A save: its process, the time at which it names its temporary file, and what it writes. -/
structure Save where
  pid : Nat
  nanos : Nat
  bytes : Str

def tmpName (name : Str) (save : Save) : Str :=
  stateSidecar name (str "tmp-" ++ render save.pid ++ str "-" ++ render save.nanos)

theorem lockName_ne (name : Str) : lockName name ≠ name := by
  intro h
  have hlen := congrArg List.length h
  simp [lockName, stateSidecar, str] at hlen

theorem tmpName_ne (name : Str) (save : Save) : tmpName name save ≠ name := by
  intro h
  have hlen := congrArg List.length h
  simp [tmpName, stateSidecar, str] at hlen

theorem tmpName_ne_lockName (name : Str) (save : Save) : tmpName name save ≠ lockName name := by
  intro h
  have hsuffix := List.append_cancel_left h
  cases hsuffix

inductive SaveError where
  | alreadyExists
  | wouldBlock (text : Str)
  | other
  deriving DecidableEq

inductive Phase where
  | makingParent
  | acquiring (tries : Nat)
  | writingLock
  | syncingLock
  | creatingTmp
  | writing (rest : Str)
  | syncing
  | moving
  | removingTmp (error : SaveError)
  | unlocking (result : Except SaveError Unit)
  | done (result : Except SaveError Unit)
  | killed
  deriving DecidableEq

/-- Whether the operation fails for a reason of its own, and how much a write writes. -/
structure Outcome where
  good : Bool
  count : Nat := 0

def busyText (name : Str) : Str := str "state lock " ++ lockName name ++ str " is busy"

/-- `write_all` writes until nothing is left. -/
def Phase.afterWrite (rest : Str) : Phase := if rest = [] then .syncing else .writing rest

def perform (name : Str) (save : Save) (files : Files) (o : Outcome) : Phase → Files × Phase
  | .makingParent => (files, if o.good then .acquiring 50 else .done (.error .other))
  | .acquiring 0 => (files, .done (.error (.wouldBlock (busyText name))))
  | .acquiring (tries + 1) =>
    if !o.good then (files, .done (.error .other))
    else if lockName name ∈ files then (files, .acquiring tries)
    else (files.insert (lockName name) [], .writingLock)
  -- an early return here is before the guard exists that would remove the lock file
  | .writingLock =>
    if o.good then
      (files.insert (lockName name) (str "pid=" ++ render save.pid ++ [10]), .syncingLock)
    else (files, .done (.error .other))
  | .syncingLock => (files, if o.good then .creatingTmp else .done (.error .other))
  | .creatingTmp =>
    if !o.good then (files, .removingTmp .other)
    else if tmpName name save ∈ files then (files, .removingTmp .alreadyExists)
    else (files.insert (tmpName name save) [], .afterWrite save.bytes)
  | .writing rest =>
    if o.good then
      let written := rest.take (o.count + 1)
      (files.insert (tmpName name save) (files[tmpName name save]?.getD [] ++ written),
        .afterWrite (rest.drop (o.count + 1)))
    else (files, .removingTmp .other)
  | .syncing => (files, if o.good then .moving else .removingTmp .other)
  | .moving =>
    match files[tmpName name save]? with
    | some bytes =>
      if o.good then ((files.erase (tmpName name save)).insert name bytes, .unlocking (.ok ()))
      else (files, .removingTmp .other)
    | none => (files, .removingTmp .other)
  | .removingTmp error =>
    (if o.good then files.erase (tmpName name save) else files, .unlocking (.error error))
  | .unlocking result => (if o.good then files.erase (lockName name) else files, .done result)
  | .done result => (files, .done result)
  | .killed => (files, .killed)

structure Call where
  save : Save
  phase : Phase

def Phase.over : Phase → Bool
  | .done _ | .killed => true
  | _ => false

def machine (name : Str) : Machine Files Call Save Outcome where
  enter save := ⟨save, .makingParent⟩
  advance files _ o call :=
    if call.phase.over then none
    else
      let (files, phase) := perform name call.save files o call.phase
      some (files, ⟨call.save, phase⟩)
  drop files _ call := if call.phase.over then none else some (files, ⟨call.save, .killed⟩)

abbrev Saves := World Files Call

def Phase.holds : Phase → Bool
  | .makingParent | .acquiring _ | .done _ | .killed => false
  | _ => true

def Written (name : Str) (save : Save) (files : Files) : Phase → Prop
  | .writing rest => ∃ written, files[tmpName name save]? = some written ∧
      written ++ rest = save.bytes
  | .syncing | .moving => files[tmpName name save]? = some save.bytes
  | _ => True

/-- The effect of one operation. Without the lock a save touches nothing but the lock file, and
that only if there is none. -/
structure Effect (name : Str) (save : Save) (files files' : Files) (p p' : Phase) : Prop where
  state : files'[name]? = files[name]? ∨ files'[name]? = some save.bytes
  written : Written name save files' p'
  locked : p'.holds = true → lockName name ∈ files'
  taken : p.holds = false → p'.holds = true → lockName name ∉ files
  apart : p.holds = false → ∀ other, other ≠ lockName name → files'[other]? = files[other]?
  kept : p.holds = false → lockName name ∈ files → lockName name ∈ files'

variable {name : Str} {save : Save} {files : Files} {p : Phase}

theorem Effect.same (hl : p.holds = true → lockName name ∈ files)
    (hp : p'.holds = true → p.holds = true) (hw : Written name save files p') :
    Effect name save files files p p' where
  state := .inl rfl
  written := hw
  locked h := hl (hp h)
  taken hfree h := by
    rw [hp h] at hfree
    cases hfree
  apart _ _ _ := rfl
  kept _ hlock := hlock

theorem Effect.held (hp : p.holds = true) (hw : Written name save files' p')
    (hs : files'[name]? = files[name]? ∨ files'[name]? = some save.bytes)
    (hl : p'.holds = true → lockName name ∈ files') : Effect name save files files' p p' where
  state := hs
  written := hw
  locked := hl
  taken hp' := by rw [hp] at hp'; cases hp'
  apart hp' := by rw [hp] at hp'; cases hp'
  kept hp' := by rw [hp] at hp'; cases hp'

theorem mem_insert_ne (h : k ∈ files) : k ∈ files.insert k' v :=
  mem_insert.mpr (.inr h)

theorem mem_erase_ne (hk : k' ≠ k) (h : k ∈ files) : k ∈ files.erase k' := by
  rw [mem_iff_isSome_getElem?, get_erase, if_neg hk]
  exact mem_iff_isSome_getElem?.mp h

theorem written_afterWrite (written : Str) (hf : files[tmpName name save]? = some written)
    (hb : written ++ rest = save.bytes) : Written name save files (.afterWrite rest) := by
  unfold Phase.afterWrite
  split
  · next hrest =>
    rw [hrest, List.append_nil] at hb
    exact hf.trans (congrArg some hb)
  · exact ⟨written, hf, hb⟩

theorem effect_perform (hl : p.holds = true → lockName name ∈ files)
    (hw : Written name save files p) :
    Effect name save files (perform name save files o p).1 p (perform name save files o p).2 := by
  cases p with
  | makingParent | syncingLock =>
    simp only [perform]
    split <;> exact .same hl (by simp [Phase.holds]) trivial
  | acquiring tries =>
    cases tries with
    | zero => exact .same hl id trivial
    | succ tries =>
      simp only [perform]
      split
      · exact .same hl id trivial
      · split
        · exact .same hl id trivial
        · next hfree =>
          refine ⟨.inl (get_insert_ne (lockName_ne name)), trivial,
            fun _ => mem_insert_self, fun _ _ => hfree,
            fun _ other hother => get_insert_ne hother.symm, fun _ hlock => absurd hlock hfree⟩
  | writingLock =>
    simp only [perform]
    split
    · exact .held rfl trivial (.inl (get_insert_ne (lockName_ne name))) fun _ => mem_insert_self
    · exact .same hl (fun _ => rfl) trivial
  | creatingTmp =>
    simp only [perform]
    split
    · exact .same hl id trivial
    · split
      · exact .same hl id trivial
      · refine .held rfl (written_afterWrite [] ?_ rfl)
          (.inl (get_insert_ne (tmpName_ne name save))) fun _ => mem_insert_ne (hl rfl)
        rw [get_insert, if_pos rfl]
  | writing rest =>
    obtain ⟨written, hf, hb⟩ := hw
    simp only [perform]
    split
    · refine .held rfl (written_afterWrite (written ++ rest.take (o.count + 1)) ?_ ?_)
        (.inl (get_insert_ne (tmpName_ne name save))) fun _ => mem_insert_ne (hl rfl)
      · rw [get_insert, if_pos rfl, hf]
        rfl
      · rw [List.append_assoc, List.take_append_drop, hb]
    · exact .same hl id trivial
  | syncing =>
    simp only [perform]
    split
    · exact .same hl id hw
    · exact .same hl id trivial
  | moving =>
    have hf : files[tmpName name save]? = some save.bytes := hw
    simp only [perform, hf]
    split
    · refine .held rfl trivial (.inr ?_) fun _ =>
        mem_insert_ne (mem_erase_ne (tmpName_ne_lockName name save) (hl rfl))
      rw [get_insert, if_pos rfl]
    · exact .same hl id trivial
  | removingTmp error =>
    simp only [perform]
    split
    · refine .held rfl trivial (.inl ?_) fun _ =>
        mem_erase_ne (tmpName_ne_lockName name save) (hl rfl)
      rw [get_erase, if_neg (tmpName_ne name save)]
    · exact .same hl id trivial
  | unlocking result =>
    simp only [perform]
    split
    · refine .held rfl trivial (.inl ?_) fun h => by cases h
      rw [get_erase, if_neg (lockName_ne name)]
    · exact .same hl (fun _ => rfl) trivial
  | done | killed => exact .same hl id trivial

/-- The bytes of the state file are the initial ones or all those of a save that began. -/
def Intact (name : Str) (files₀ : Files) (w : Saves) : Prop :=
  w.shared[name]? = files₀[name]? ∨ ∃ save ∈ w.calls.map (·.save), w.shared[name]? = some save.bytes

structure Safe (name : Str) (files₀ : Files) (w : Saves) : Prop where
  exclusive : ∀ (i j : Nat) (c d : Call), w.calls[i]? = some c → w.calls[j]? = some d →
    c.phase.holds = true → d.phase.holds = true → i = j
  locked : ∀ (i : Nat) (c : Call), w.calls[i]? = some c → c.phase.holds = true →
    lockName name ∈ w.shared
  written : ∀ (i : Nat) (c : Call), w.calls[i]? = some c → Written name c.save w.shared c.phase
  intact : Intact name files₀ w

theorem Written.congr (h : Written name save files p)
    (hsame : files'[tmpName name save]? = files[tmpName name save]?) :
    Written name save files' p := by
  cases p with
  | writing rest =>
    obtain ⟨written, hf, hb⟩ := h
    exact ⟨written, hsame.trans hf, hb⟩
  | syncing | moving => exact hsame.trans h
  | _ => trivial

theorem written_holds (h : p.holds = false) : Written name save files p := by
  cases p with
  | writing | syncing | moving => cases h
  | _ => trivial

section
theorem safe_initial (name : Str) (files₀ : Files) : Safe name files₀ ⟨files₀, []⟩ where
  exclusive := by simp
  locked := by simp
  written := by simp
  intact := .inl rfl

theorem Safe.call (h : Safe name files₀ w) (save : Save) :
    Safe name files₀ ⟨w.shared, w.calls ++ [(machine name).enter save]⟩ where
  exclusive i j c d hi hj hc hd := by
    rcases getElem?_append_one hi with rfl | hi
    · cases hc
    · rcases getElem?_append_one hj with rfl | hj
      · cases hd
      · exact h.exclusive i j c d hi hj hc hd
  locked i c hi hc := by
    rcases getElem?_append_one hi with rfl | hi
    · cases hc
    · exact h.locked i c hi hc
  written i c hi := by
    rcases getElem?_append_one hi with rfl | hi
    · trivial
    · exact h.written i c hi
  intact := by
    refine h.intact.imp_right ?_
    rintro ⟨earlier, hmem, hf⟩
    exact ⟨earlier, by rw [List.map_append]; exact List.mem_append_left _ hmem, hf⟩

theorem map_set_save {calls : List Call} {i : Nat} {c : Call} (hi : calls[i]? = some c)
    (phase : Phase) : (calls.set i ⟨c.save, phase⟩).map (·.save) = calls.map (·.save) := by
  obtain ⟨hlt, rfl⟩ := List.getElem?_eq_some_iff.mp hi
  have hlt' : i < (calls.map (·.save)).length := by rwa [List.length_map]
  have hget : (calls.map (·.save))[i] = calls[i].save := List.getElem_map _
  rw [List.map_set, ← hget]
  exact List.set_getElem_self hlt'

/-- What one save does under the invariant, whatever the others are at. -/
theorem Safe.move (h : Safe name files₀ w) (hi : w.calls[i]? = some c)
    (he : Effect name c.save w.shared files' c.phase phase) :
    Safe name files₀ ⟨files', w.calls.set i ⟨c.save, phase⟩⟩ := by
  -- another save that holds the lock keeps it, and then this one has not touched its files
  have hother : ∀ (j : Nat) (d : Call), j ≠ i → w.calls[j]? = some d → d.phase.holds = true →
      c.phase.holds = false ∧ phase.holds = false := by
    intro j d hji hj hd
    have hc : c.phase.holds = false := by
      by_contra hne
      exact hji (h.exclusive j i d c hj hi hd (Bool.not_eq_false _ ▸ hne))
    refine ⟨hc, ?_⟩
    by_contra hne
    exact he.taken hc (Bool.not_eq_false _ ▸ hne) (h.locked j d hj hd)
  refine ⟨?_, ?_, ?_, ?_⟩
  · intro j k d e hj hk hd hp
    rcases getElem?_set_some hj with ⟨hji, rfl⟩ | ⟨hji, hj'⟩ <;>
      rcases getElem?_set_some hk with ⟨hki, rfl⟩ | ⟨hki, hk'⟩
    · rw [hji, hki]
    · rw [(hother k e hki hk' hp).2] at hd
      cases hd
    · rw [(hother j d hji hj' hd).2] at hp
      cases hp
    · exact h.exclusive j k d e hj' hk' hd hp
  · intro j d hj hd
    rcases getElem?_set_some hj with ⟨rfl, rfl⟩ | ⟨hji, hj⟩
    · exact he.locked hd
    · exact he.kept (hother j d hji hj hd).1 (h.locked j d hj hd)
  · intro j d hj
    rcases getElem?_set_some hj with ⟨rfl, rfl⟩ | ⟨hji, hj⟩
    · exact he.written
    · cases hd : d.phase.holds with
      | false => exact written_holds hd
      | true =>
        refine (h.written j d hj).congr ?_
        exact he.apart (hother j d hji hj hd).1 _ (tmpName_ne_lockName name d.save)
  · have hsaves : (w.calls.set i ⟨c.save, phase⟩).map (·.save) = w.calls.map (·.save) :=
      map_set_save hi phase
    unfold Intact
    rw [hsaves]
    rcases he.state with hsame | hnew
    · rw [hsame]
      exact h.intact
    · exact .inr ⟨c.save, List.mem_map_of_mem (List.mem_of_getElem? hi), hnew⟩

theorem reachable_safe (h : Reachable (machine name) ok ⟨files₀, []⟩ w) : Safe name files₀ w := by
  refine h.keeps (safe_initial name files₀) (fun w save hs _ => hs.call save) ?_ ?_
  · intro w i o c files' c' hs _ hi ha
    simp only [machine] at ha
    split at ha
    · cases ha
    · cases ha
      exact hs.move hi (effect_perform (hs.locked i c hi) (hs.written i c hi))
  · intro w i c files' c' hs _ hi ha
    simp only [machine] at ha
    split at ha
    · cases ha
    · cases ha
      exact hs.move hi (.same (hs.locked i c hi) (by simp [Phase.holds]) trivial)
end

/-- A save of its own, `k` operations on; none of them fails by itself. -/
def solo (name : Str) (save : Save) (counts : Nat → Nat) (files : Files) : Nat → Files × Phase
  | 0 => (files, .makingParent)
  | k + 1 =>
    let (files, phase) := solo name save counts files k
    perform name save files ⟨true, counts k⟩ phase

/-- The world in which a new save has gone `k` operations and all others stand still. -/
def alone (name : Str) (save : Save) (counts : Nat → Nat) (w : Saves) : Nat → Saves
  | 0 => ⟨w.shared, w.calls ++ [(machine name).enter save]⟩
  | k + 1 =>
    let w' := alone name save counts w k
    (next (machine name) w' (.step w.calls.length ⟨true, counts k⟩)).getD w'

def Succeeds (name : Str) (save : Save) (counts : Nat → Nat) (w : Saves) : Prop :=
  ∃ k, (alone name save counts w k).calls[w.calls.length]? = some ⟨save, .done (.ok ())⟩

section
variable {counts : Nat → Nat}

theorem perform_over (h : p.over = true) : perform name save files o p = (files, p) := by
  cases p with
  | done | killed => rfl
  | _ => cases h

theorem next_last :
    (next (machine name) ⟨files, calls ++ [⟨save, p⟩]⟩ (.step calls.length o)).getD
        ⟨files, calls ++ [⟨save, p⟩]⟩ =
      ⟨(perform name save files o p).1, calls ++ [⟨save, (perform name save files o p).2⟩]⟩ := by
  cases hp : p.over with
  | true => simp [next, machine, hp, perform_over hp]
  | false => simp [next, machine, hp, World.put]

theorem alone_eq (k : Nat) : alone name save counts w k = ⟨(solo name save counts w.shared k).1,
      w.calls ++ [⟨save, (solo name save counts w.shared k).2⟩]⟩ := by
  induction k with
  | zero => rfl
  | succ k ih =>
    rw [alone, ih]
    exact next_last

theorem succeeds_iff : Succeeds name save counts w ↔
    ∃ k, (solo name save counts w.shared k).2 = .done (.ok ()) := by
  simp [Succeeds, alone_eq]

def Clear (name : Str) (save : Save) (files : Files) : Phase → Prop
  | .makingParent => lockName name ∉ files ∧ tmpName name save ∉ files
  | .acquiring tries => 0 < tries ∧ lockName name ∉ files ∧ tmpName name save ∉ files
  | .writingLock | .syncingLock | .creatingTmp => tmpName name save ∉ files
  | .writing _ | .syncing | .moving => tmpName name save ∈ files
  | .unlocking result | .done result => result = .ok ()
  | .removingTmp _ | .killed => False

/-- A lock file, or a file in the place of the temporary one, before the save gets there; or an
error on its way out. -/
def Doomed (name : Str) (save : Save) (files : Files) : Phase → Prop
  | .makingParent | .acquiring _ => lockName name ∈ files ∨ tmpName name save ∈ files
  | .writingLock | .syncingLock | .creatingTmp => tmpName name save ∈ files
  | .writing _ | .syncing | .moving => False
  | .unlocking result | .done result => result ≠ .ok ()
  | .removingTmp _ | .killed => True

def remaining (save : Save) : Phase → Nat
  | .makingParent => save.bytes.length + 9
  | .acquiring _ => save.bytes.length + 8
  | .writingLock => save.bytes.length + 7
  | .syncingLock => save.bytes.length + 6
  | .creatingTmp => save.bytes.length + 5
  | .writing rest => rest.length + 4
  | .syncing => 3
  | .moving => 2
  | .removingTmp _ => 2
  | .unlocking _ => 1
  | .done _ | .killed => 0

theorem clear_afterWrite (h : tmpName name save ∈ files) (hm : rest = [] ∨ rest.length < m) :
    Clear name save files (.afterWrite rest) ∧ remaining save (.afterWrite rest) < m + 4 := by
  unfold Phase.afterWrite
  split
  · exact ⟨h, by simp only [remaining]; omega⟩
  · next hne => exact ⟨h, Nat.add_lt_add_right (hm.resolve_left hne) 4⟩

theorem not_mem_insert (hk : k' ≠ k) (h : k ∉ files) : k ∉ files.insert k' v := by
  rw [mem_iff_isSome_getElem?] at h ⊢
  rwa [get_insert, if_neg hk]

/-- With nothing in its way a save goes on, and has less to do. -/
theorem clear_perform (h : Clear name save files p) (hp : p ≠ .done (.ok ())) :
    Clear name save (perform name save files ⟨true, n⟩ p).1
        (perform name save files ⟨true, n⟩ p).2 ∧
      remaining save (perform name save files ⟨true, n⟩ p).2 < remaining save p := by
  cases p with
  | makingParent => exact ⟨⟨Nat.succ_pos 49, h⟩, Nat.lt_succ_self _⟩
  | acquiring tries =>
    obtain ⟨htries, hlock, htmp⟩ := h
    obtain ⟨tries, rfl⟩ : ∃ t, tries = t + 1 := ⟨tries - 1, by omega⟩
    have hrun : perform name save files ⟨true, n⟩ (.acquiring (tries + 1)) =
        (files.insert (lockName name) [], .writingLock) := if_neg hlock
    rw [hrun]
    exact ⟨not_mem_insert (tmpName_ne_lockName name save).symm htmp, Nat.lt_succ_self _⟩
  | writingLock =>
    exact ⟨not_mem_insert (tmpName_ne_lockName name save).symm h, Nat.lt_succ_self _⟩
  | syncingLock | syncing | unlocking => exact ⟨h, Nat.lt_succ_self _⟩
  | creatingTmp =>
    have hrun : perform name save files ⟨true, n⟩ .creatingTmp =
        (files.insert (tmpName name save) [], .afterWrite save.bytes) := if_neg h
    rw [hrun]
    exact clear_afterWrite mem_insert_self (.inr (Nat.lt_succ_self _))
  | writing rest =>
    refine clear_afterWrite mem_insert_self ?_
    cases rest with
    | nil => exact .inl rfl
    | cons b rest =>
      rw [List.length_drop, List.length_cons]
      omega
  | moving =>
    obtain ⟨bytes, hf⟩ := Option.isSome_iff_exists.mp (mem_iff_isSome_getElem?.mp h)
    have hrun : perform name save files ⟨true, n⟩ .moving =
        ((files.erase (tmpName name save)).insert name bytes, .unlocking (.ok ())) := by
      simp [perform, hf]
    rw [hrun]
    exact ⟨rfl, Nat.lt_succ_self _⟩
  | done result => exact absurd (congrArg Phase.done h) hp
  | removingTmp error => cases h
  | killed => cases h

theorem doomed_perform (h : Doomed name save files p) :
    Doomed name save (perform name save files ⟨true, n⟩ p).1
      (perform name save files ⟨true, n⟩ p).2 := by
  cases p with
  | makingParent => exact h
  | acquiring tries =>
    cases tries with
    | zero => exact fun he => by cases he
    | succ tries =>
      by_cases hlock : lockName name ∈ files
      · have hrun : perform name save files ⟨true, n⟩ (.acquiring (tries + 1)) =
            (files, .acquiring tries) := if_pos hlock
        rw [hrun]
        exact h
      · have hrun : perform name save files ⟨true, n⟩ (.acquiring (tries + 1)) =
            (files.insert (lockName name) [], .writingLock) := if_neg hlock
        rw [hrun]
        exact mem_insert_ne (h.resolve_left hlock)
  | writingLock => exact mem_insert_ne h
  | syncingLock => exact h
  | creatingTmp =>
    have hrun : perform name save files ⟨true, n⟩ .creatingTmp =
        (files, .removingTmp .alreadyExists) := if_pos h
    rw [hrun]
    trivial
  | writing | syncing | moving => cases h
  | removingTmp error => exact fun he => by cases he
  | unlocking result => exact h
  | done result => exact h
  | killed => trivial

theorem clear_ends
    (h : Clear name save (solo name save counts files k).1 (solo name save counts files k).2) :
    ∃ k, (solo name save counts files k).2 = .done (.ok ()) := by
  induction hn : remaining save (solo name save counts files k).2 using
    Nat.strong_induction_on generalizing k with
  | h m ih =>
    by_cases hp : (solo name save counts files k).2 = .done (.ok ())
    · exact ⟨k, hp⟩
    · obtain ⟨hclear, hless⟩ := clear_perform (n := counts k) h hp
      exact ih _ (hn ▸ hless) (k := k + 1) hclear rfl

theorem doomed_solo (counts : Nat → Nat) (h : Doomed name save files .makingParent) (k : Nat) :
    Doomed name save (solo name save counts files k).1 (solo name save counts files k).2 := by
  induction k with
  | zero => exact h
  | succ k ih => exact doomed_perform ih

/-- The new save gets through exactly when no lock file is left and its temporary file is not
there yet. -/
theorem succeeds_alone_iff : Succeeds name save counts w ↔
    lockName name ∉ w.shared ∧ tmpName name save ∉ w.shared := by
  rw [succeeds_iff]
  constructor
  · rintro ⟨k, hk⟩
    by_contra hnot
    have hdoomed : Doomed name save w.shared .makingParent := by
      by_contra hno
      exact hnot (not_or.mp hno)
    have hend := doomed_solo counts hdoomed k
    rw [hk] at hend
    exact hend rfl
  · intro h
    exact clear_ends (k := 0) h
end

/-- Whatever is killed where, the state file is whole; and the next save of a process left alone
gets through exactly when neither a lock file nor its temporary file is left behind. -/
theorem saves_survive_kills (name : Str) (files₀ : Files) (w : Saves)
    (h : Reachable (machine name) (fun _ _ => True) ⟨files₀, []⟩ w) :
    Intact name files₀ w ∧ ∀ save counts, Succeeds name save counts w ↔
      lockName name ∉ w.shared ∧ tmpName name save ∉ w.shared :=
  ⟨(reachable_safe h).intact, fun _ _ => succeeds_alone_iff⟩

def state : Str := str "state.json"
def first : Save := ⟨7, 1, str "one"⟩
def second : Save := ⟨8, 2, str "two"⟩
def third : Save := ⟨9, 3, str "three"⟩

def after (events : List (Event Save Outcome)) : Option Saves :=
  run (machine state) (fun _ _ => true) ⟨∅, []⟩ events

/-- The second save is killed while the first one, which gets through, has the lock. -/
def killedEarly : List (Event Save Outcome) :=
  [.call first, .call second] ++ List.replicate 5 (.step 0 ⟨true, 1⟩) ++
    [.step 1 ⟨true, 0⟩, .step 1 ⟨true, 0⟩, .cancel 1] ++ List.replicate 5 (.step 0 ⟨true, 1⟩)

def killedLocked : List (Event Save Outcome) :=
  [.call first, .step 0 ⟨true, 0⟩, .step 0 ⟨true, 0⟩, .cancel 0]

theorem reachable_after
    (h : after events = some w) : Reachable (machine state) (fun _ _ => True) ⟨∅, []⟩ w :=
  (reachable_run h).mono fun _ _ _ => trivial

theorem saves_survive_early_kill : ∃ w, after killedEarly = some w ∧
    w.shared[state]? = some first.bytes ∧ Intact state ∅ w ∧
      Succeeds state third (fun _ => 0) w := by
  cases hw : after killedEarly with
  | none => exact absurd hw (by decide +kernel)
  | some w =>
    have hleft : (after killedEarly).all (fun w => w.shared[state]? = some first.bytes ∧
        lockName state ∉ w.shared ∧ tmpName state third ∉ w.shared) = true := by
      decide +kernel
    rw [hw] at hleft
    obtain ⟨hsaved, hfree⟩ := of_decide_eq_true hleft
    have h := saves_survive_kills state ∅ w (reachable_after hw)
    exact ⟨w, rfl, hsaved, h.1, (h.2 third _).mpr hfree⟩

/-- The killed save has left its lock file, and no save gets past it any more. -/
theorem stale_lock_blocks : ∃ w, after killedLocked = some w ∧
    (∀ c ∈ w.calls, c.phase = .killed) ∧ ∀ save counts, ¬Succeeds state save counts w := by
  cases hw : after killedLocked with
  | none => exact absurd hw (by decide +kernel)
  | some w =>
    have hleft : (after killedLocked).all (fun w =>
        w.calls.all (·.phase = .killed) && lockName state ∈ w.shared) = true := by
      decide +kernel
    rw [hw] at hleft
    simp only [Option.all_some, Bool.and_eq_true, List.all_eq_true, decide_eq_true_eq] at hleft
    exact ⟨w, rfl, hleft.1, fun save counts hs => (succeeds_alone_iff.mp hs).1 hleft.2⟩

def Phase.tidies : Phase → Bool
  | .writingLock | .syncingLock | .removingTmp _ | .unlocking _ => true
  | _ => false

/-- No save is killed while it holds the lock, and what would leave a file behind does not
fail. -/
def careful (w : Saves) : Event Save Outcome → Prop
  | .call _ => True
  | .step i o => ∀ c, w.calls[i]? = some c → c.phase.tidies = true → o.good = true
  | .cancel i => ∀ c, w.calls[i]? = some c → c.phase.holds = false

instance (w : Saves) (e : Event Save Outcome) : Decidable (careful w e) :=
  match e with
  | .call _ => .isTrue trivial
  | .step i o => inferInstanceAs (Decidable (∀ c ∈ w.calls[i]?, c.phase.tidies → o.good))
  | .cancel i => inferInstanceAs (Decidable (∀ c ∈ w.calls[i]?, c.phase.holds = false))

def owed (name : Str) (save : Save) : Phase → List Str
  | .writingLock | .syncingLock | .creatingTmp | .unlocking _ => [lockName name]
  | .writing _ | .syncing | .moving | .removingTmp _ => [lockName name, tmpName name save]
  | _ => []

def Tidy (name : Str) (files₀ : Files) (w : Saves) : Prop :=
  ∀ k ∈ w.shared, k ≠ name → k ∈ files₀ ∨
    ∃ (i : Nat) (c : Call), w.calls[i]? = some c ∧ k ∈ owed name c.save c.phase

theorem mem_of_mem_insert (h : k ∈ files.insert k' v) : k = k' ∨ k ∈ files := by
  rcases mem_insert.mp h with heq | hm
  · exact .inl (Std.compare_eq_iff_eq.mp heq).symm
  · exact .inr hm

theorem ne_of_mem_erase (h : k ∈ files.erase k') : k ≠ k' ∧ k ∈ files := by
  rw [mem_iff_isSome_getElem?, get_erase] at h
  split at h
  · cases h
  · next hne => exact ⟨Ne.symm hne, mem_iff_isSome_getElem?.mpr h⟩

theorem owed_afterWrite (rest : Str) :
    owed name save (.afterWrite rest) = [lockName name, tmpName name save] := by
  unfold Phase.afterWrite
  split <;> rfl

/-- A file that is there after an operation is still owed, or was there before and not owed. -/
theorem owed_perform (hgood : p.tidies = true → o.good = true) (hname : k ≠ name) :
    k ∈ (perform name save files o p).1 → k ∈ owed name save (perform name save files o p).2 ∨
      k ∈ files ∧ k ∉ owed name save p := by
  have hsame : ∀ p', (k ∈ owed name save p → k ∈ owed name save p') → k ∈ files →
      k ∈ owed name save p' ∨ k ∈ files ∧ k ∉ owed name save p := by
    intro p' hd hf
    by_cases hp : k ∈ owed name save p
    · exact .inl (hd hp)
    · exact .inr ⟨hf, hp⟩
  -- what is taken away was owed
  have hgone : ∀ k', k ∈ files.erase k' → (∀ p', (k ≠ k' → k ∈ owed name save p →
      k ∈ owed name save p') → k ∈ owed name save p' ∨ k ∈ files ∧ k ∉ owed name save p) := by
    intro k' hk p' hd
    obtain ⟨hne, hf⟩ := ne_of_mem_erase hk
    exact hsame p' (hd hne) hf
  cases p with
  | makingParent | done | killed => exact hsame _ (fun h => by cases h)
  | acquiring tries =>
    cases tries with
    | zero => exact hsame _ id
    | succ tries =>
      simp only [perform]
      split
      · exact hsame _ id
      · split
        · exact hsame _ id
        · exact fun hk => (mem_of_mem_insert hk).elim (fun h => .inl (List.mem_singleton.mpr h))
            (hsame .writingLock fun h => by cases h)
  | writingLock =>
    simp only [perform, hgood rfl]
    exact fun hk => (mem_of_mem_insert hk).elim (fun h => .inl (List.mem_singleton.mpr h))
      (hsame .syncingLock id)
  | syncingLock =>
    simp only [perform, hgood rfl]
    exact hsame _ id
  | creatingTmp =>
    have hmore := hsame (.writing []) (List.mem_append_left [tmpName name save])
    simp only [perform]
    split
    · exact hmore
    · split
      · exact hmore
      · rw [owed_afterWrite]
        exact fun hk => (mem_of_mem_insert hk).elim (fun h => .inl (by simp [h])) hmore
  | writing rest =>
    simp only [perform]
    split
    · rw [owed_afterWrite]
      exact fun hk => (mem_of_mem_insert hk).elim (fun h => .inl (by simp [h]))
        (hsame (.writing rest) id)
    · exact hsame _ id
  | syncing =>
    simp only [perform]
    split <;> exact hsame _ id
  | moving =>
    simp only [perform]
    split
    · split
      · -- the temporary file has become the state file
        exact fun hk => hgone _ ((mem_of_mem_insert hk).resolve_left hname) _
          fun hne hd => by simpa [owed, hne] using hd
      · exact hsame _ id
    · exact hsame _ id
  | removingTmp error =>
    simp only [perform, hgood rfl]
    exact fun hk => hgone _ hk _ fun hne hd => by simpa [owed, hne] using hd
  | unlocking result =>
    simp only [perform, hgood rfl]
    exact fun hk => hgone _ hk _ fun hne hd => absurd (List.mem_singleton.mp hd) hne

theorem Tidy.move (h : Tidy name files₀ w)
    (hi : w.calls[i]? = some c) (he : ∀ k ∈ files', k ≠ name →
      k ∈ owed name c.save p' ∨ k ∈ w.shared ∧ k ∉ owed name c.save c.phase) :
    Tidy name files₀ ⟨files', w.calls.set i ⟨c.save, p'⟩⟩ := by
  intro k hk hname
  have hlt := (List.getElem?_eq_some_iff.mp hi).1
  rcases he k hk hname with howed | ⟨hf, hnot⟩
  · exact .inr ⟨i, ⟨c.save, p'⟩, List.getElem?_set_self hlt, howed⟩
  · refine (h k hf hname).imp_right ?_
    rintro ⟨j, d, hj, hd⟩
    have hij : i ≠ j := by
      rintro rfl
      cases hi.symm.trans hj
      exact hnot hd
    exact ⟨j, d, (List.getElem?_set_ne hij).trans hj, hd⟩

theorem owed_free (h : p.holds = false) : owed name save p = [] := by
  cases p with
  | makingParent | acquiring | done | killed => rfl
  | _ => cases h

theorem careful_tidy (h : Reachable (machine name) careful ⟨files₀, []⟩ w) :
    Tidy name files₀ w := by
  refine h.keeps (fun k hk _ => .inl hk) ?_ ?_ ?_
  · intro w save ht _ k hk hname
    refine (ht k hk hname).imp_right ?_
    rintro ⟨i, c, hi, hc⟩
    exact ⟨i, c, (List.getElem?_append_left (List.getElem?_eq_some_iff.mp hi).1).trans hi, hc⟩
  · intro w i o c files' c' ht hok hi ha
    simp only [machine] at ha
    split at ha
    · cases ha
    · cases ha
      exact ht.move hi fun k hk hname => owed_perform (hok c hi) hname hk
  · intro w i c files' c' ht hok hi ha
    simp only [machine] at ha
    split at ha
    · cases ha
    · cases ha
      refine ht.move hi fun k hk _ => .inr ⟨hk, ?_⟩
      rw [owed_free (hok c hi)]
      exact List.not_mem_nil

/-- Once all saves of a careful run are over, the directory has nothing new but the state
file, and a new save gets through. -/
theorem careful_saves_succeed (h : Reachable (machine name) careful ⟨files₀, []⟩ w)
    (hover : ∀ c ∈ w.calls, c.phase.over = true)
    (hlock : lockName name ∉ files₀) (htmp : tmpName name save ∉ files₀) :
    Succeeds name save counts w := by
  have hfree : ∀ k ∈ w.shared, k ≠ name → k ∈ files₀ := by
    intro k hk hname
    refine (careful_tidy h k hk hname).resolve_right ?_
    rintro ⟨i, c, hi, hc⟩
    have hholds : c.phase.holds = false := by
      have hend := hover c (List.mem_of_getElem? hi)
      cases hp : c.phase with
      | done | killed => rfl
      | _ => rw [hp] at hend; cases hend
    rw [owed_free hholds] at hc
    cases hc
  exact succeeds_alone_iff.mpr ⟨fun hm => hlock (hfree _ hm (lockName_ne name)),
    fun hm => htmp (hfree _ hm (tmpName_ne name save))⟩

/-- A save that is killed before it has the lock is in nobody's way. -/
theorem careful_save_after_kill : ∃ w, Reachable (machine state) careful ⟨∅, []⟩ w ∧
    w.shared[state]? = some first.bytes ∧ Succeeds state third (fun _ => 0) w := by
  obtain ⟨w, hw, htest⟩ := @reachable_run_any _ _ _ _ (machine state) ⟨∅, []⟩
    (fun w e => careful w e) killedEarly
    (fun w => (∀ c ∈ w.calls, c.phase.over = true) ∧ w.shared[state]? = some first.bytes)
    (by decide +kernel)
  have h := hw.mono fun _ _ hok => of_decide_eq_true hok
  obtain ⟨hover, hsaved⟩ := of_decide_eq_true htest
  exact ⟨w, h, hsaved, careful_saves_succeed h hover (by simp) (by simp)⟩

end StateFile
