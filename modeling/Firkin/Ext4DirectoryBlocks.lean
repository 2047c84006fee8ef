import Firkin.Ext4Sizing

/-! # Packing directory entries

A directory is a run of blocks, each a chain of records whose last one is stretched to
the end of the block. `takeBlock` says which entries share a block, `blockBytes` what the
block looks like; the writer's buffers are exactly that, and the block count estimated
beforehand is the number of blocks the packing gives. -/
namespace Ext4DirectoryBlocks

open Ext4Types ByteImage Ext4Layout Ext4Encoding FaultMonad List

theorem copyFromSlice_mid (p mid q src : List UInt8) (h : src.length = mid.length) :
    copyFromSlice (p ++ mid ++ q) p.length (p.length + mid.length) src = .ok (p ++ src ++ q) := by
  rw [copyFromSlice, if_neg (by simp), if_neg (by omega)]
  have htake : (p ++ mid ++ q).take p.length = p := by simp
  have hdrop : (p ++ mid ++ q).drop (p.length + mid.length) = q := by
    rw [← length_append, drop_left]
  rw [htake, hdrop]

theorem copyFromSlice_zeros (p src : List UInt8) (hlo : p.length = lo)
    (hhi : lo + src.length = hi) (hk : src.length ≤ k) :
    copyFromSlice (p ++ zeros k) lo hi src = .ok (p ++ src ++ zeros (k - src.length)) := by
  have := copyFromSlice_mid p (zeros src.length) (zeros (k - src.length)) src (by simp)
  rw [append_assoc, ← zeros_add, length_zeros, hlo, hhi] at this
  rwa [show src.length + (k - src.length) = k by omega] at this

theorem copyFromSlice_start (src : List UInt8) (hhi : src.length = hi) (hk : hi ≤ k) :
    copyFromSlice (zeros k) 0 hi src = .ok (src ++ zeros (k - hi)) := by
  have := copyFromSlice_zeros [] src rfl (by simpa using hhi) (hhi ▸ hk)
  rwa [hhi] at this

def entryLen (e : DirEntrySpec) : Nat := dirEntryMinLen e.name

def nextFits (bs off : Nat) : List DirEntrySpec → Bool
  | [] => false
  | next :: _ => decide (off + entryLen next ≤ bs)

/-- The entries that go into a block from `off` on, and those that are left. -/
def takeBlock (bs : Nat) : List DirEntrySpec → Nat → List DirEntrySpec × List DirEntrySpec
  | [], _ => ([], [])
  | e :: rest, off =>
    if nextFits bs (off + entryLen e) rest then
      (e :: (takeBlock bs rest (off + entryLen e)).1, (takeBlock bs rest (off + entryLen e)).2)
    else ([e], rest)

def packBlocks (bs : Nat) : Nat → List DirEntrySpec → List (List DirEntrySpec)
  | 0, _ => []
  | _ + 1, [] => []
  | fuel + 1, e :: rest =>
    (takeBlock bs (e :: rest) 0).1 :: packBlocks bs fuel (takeBlock bs (e :: rest) 0).2

def recordBytes (e : DirEntrySpec) (recLen : Nat) : List UInt8 :=
  ({ inode := e.inode, recLen, nameLen := e.name.length, fileType := e.fileType } :
    DirEntryHeader).bytes ++ e.name ++ zeros (recLen - (8 + e.name.length))

def blockBytes (bs : Nat) : List DirEntrySpec → Nat → List UInt8
  | [], off => zeros (bs - off)
  | [e], off => recordBytes e (bs - off)
  | e :: e' :: rest, off =>
    recordBytes e (entryLen e) ++ blockBytes bs (e' :: rest) (off + entryLen e)

theorem takeBlock_append (bs : Nat) (entries : List DirEntrySpec) (off : Nat) :
    (takeBlock bs entries off).1 ++ (takeBlock bs entries off).2 = entries := by
  induction entries generalizing off with
  | nil => rfl
  | cons e rest ih =>
    rw [takeBlock]
    split
    · simp [ih]
    · rfl

theorem takeBlock_ne_nil (bs : Nat) (e : DirEntrySpec) (rest : List DirEntrySpec) (off : Nat) :
    ∃ taken, (takeBlock bs (e :: rest) off).1 = e :: taken := by
  rw [takeBlock]
  split <;> exact ⟨_, rfl⟩

theorem takeBlock_left_length (bs : Nat) (e : DirEntrySpec) (rest : List DirEntrySpec) (off : Nat) :
    (takeBlock bs (e :: rest) off).2.length ≤ rest.length := by
  have happ := congrArg length (takeBlock_append bs (e :: rest) off)
  obtain ⟨taken, ht⟩ := takeBlock_ne_nil bs e rest off
  rw [length_append, ht] at happ
  simp only [length_cons] at happ
  omega

theorem packBlocks_flatten
    (hf : entries.length ≤ fuel) : (packBlocks bs fuel entries).flatten = entries := by
  induction fuel generalizing entries with
  | zero =>
    rw [length_eq_zero_iff.mp (by omega : entries.length = 0)]
    rfl
  | succ fuel ih =>
    cases entries with
    | nil => rfl
    | cons e rest =>
      have := takeBlock_left_length bs e rest 0
      simp only [length_cons] at hf
      rw [packBlocks, flatten_cons, ih (by omega), takeBlock_append]

section
variable {bs off : Nat} {e : DirEntrySpec}

theorem entryLen_ge (e : DirEntrySpec) : 8 + e.name.length ≤ entryLen e := by
  unfold entryLen dirEntryMinLen align4
  omega

theorem length_recordBytes (h : 8 + e.name.length ≤ recLen) :
    (recordBytes e recLen).length = recLen := by
  simp only [recordBytes, length_append, length_dirEntryHeader, length_zeros]
  omega

theorem writeDirEntry_eq (hp : p.length = off) (hfit : off + entryLen e ≤ bs) (hbs : bs ≤ 65535)
    (last : Bool) (hrec : recLen = if last then bs - off else entryLen e) :
    writeDirEntry (p ++ zeros (bs - off)) off bs e last =
      .ok (p ++ recordBytes e recLen ++ zeros (bs - off - recLen), off + recLen) := by
  have hge := entryLen_ge e
  have hlen : entryLen e ≤ recLen ∧ off + recLen ≤ bs := by
    rw [hrec]
    split <;> omega
  have hchoice : dirRecLen last bs off (dirEntryMinLen e.name) = .ok recLen := by
    rw [hrec]
    cases last with
    | true =>
      have hsub : uintSub bs off = .ok (bs - off) := if_pos (by omega)
      exact hsub
    | false => rfl
  rw [writeDirEntry, except_bind_ok hchoice, if_neg (by omega)]
  have hhdr := length_dirEntryHeader
  rw [except_bind_ok (copyFromSlice_zeros _ _ hp (by rw [hhdr]) (by rw [hhdr]; omega)),
    except_bind_ok (copyFromSlice_zeros _ _ (by rw [length_append, hhdr, hp]) rfl
      (by rw [hhdr]; omega)), hhdr]
  have hz : bs - off - 8 - e.name.length =
      (recLen - (8 + e.name.length)) + (bs - off - recLen) := by omega
  rw [hz, zeros_add]
  simp only [recordBytes, append_assoc]
  rfl

theorem length_blockBytes (h : off + (taken.map entryLen).sum ≤ bs) :
    (blockBytes bs taken off).length = bs - off := by
  induction taken generalizing off with
  | nil => simp [blockBytes]
  | cons e rest ih =>
    have hge := entryLen_ge e
    rw [map_cons, sum_cons] at h
    cases rest with
    | nil =>
      rw [blockBytes, length_recordBytes]
      omega
    | cons e' rest =>
      rw [blockBytes, length_append, length_recordBytes hge, ih (by omega)]
      omega

theorem takeBlock_fits (hfit : off + entryLen e ≤ bs) :
    off + ((takeBlock bs (e :: rest) off).1.map entryLen).sum ≤ bs := by
  induction rest generalizing e off with
  | nil => simpa [takeBlock] using hfit
  | cons e' rest ih =>
    rw [takeBlock]
    by_cases hn : nextFits bs (off + entryLen e) (e' :: rest) = true
    · rw [if_pos hn]
      simp only [nextFits, decide_eq_true_eq] at hn
      have := ih hn
      simp only [map_cons, sum_cons]
      omega
    · rw [if_neg hn]
      simpa using hfit

theorem packBlocks_fits (hall : ∀ d ∈ entries, entryLen d ≤ bs)
    (h : pack ∈ packBlocks bs fuel entries) : pack ≠ [] ∧ (pack.map entryLen).sum ≤ bs := by
  induction fuel generalizing entries with
  | zero => cases entries <;> cases h
  | succ fuel ih =>
    cases entries with
    | nil => cases h
    | cons e rest =>
      rcases mem_cons.mp h with rfl | h
      · have := @takeBlock_fits bs 0 e rest (by simpa using hall e mem_cons_self)
        obtain ⟨taken, ht⟩ := takeBlock_ne_nil bs e rest 0
        exact ⟨by simp [ht], by omega⟩
      · refine ih (fun d hd => hall d ?_) h
        rw [← takeBlock_append bs (e :: rest) 0]
        exact mem_append_right _ hd

theorem fillDirBlock_eq (hp : p.length = off) (hfit : off + entryLen e ≤ bs) (hbs : bs ≤ 65535) :
    fillDirBlock bs (e :: rest) off (p ++ zeros (bs - off)) =
      .ok (p ++ blockBytes bs (takeBlock bs (e :: rest) off).1 off,
        (takeBlock bs (e :: rest) off).2) := by
  induction rest generalizing e off p with
  | nil =>
    have hstep := writeDirEntry_eq hp hfit hbs true rfl
    simp only [if_true, Nat.sub_self, zeros_zero, append_nil] at hstep
    rw [fillDirBlock]
    rw [if_neg (by unfold entryLen at hfit; omega)]
    simp only [Bool.not_false]
    rw [except_bind_ok hstep]
    rfl
  | cons e' rest ih =>
    have hge := entryLen_ge e
    rw [fillDirBlock]
    simp only
    rw [if_neg (by unfold entryLen at hfit; omega), takeBlock]
    by_cases hn : off + entryLen e + entryLen e' ≤ bs
    · have hstep := writeDirEntry_eq hp hfit hbs false rfl
      simp only [Bool.false_eq_true, if_false] at hstep
      have hnf : nextFits bs (off + entryLen e) (e' :: rest) = true := decide_eq_true hn
      have hdec : decide (off + dirEntryMinLen e.name + dirEntryMinLen e'.name ≤ bs) = true :=
        decide_eq_true hn
      have hrest : p ++ recordBytes e (entryLen e) ++ zeros (bs - off - entryLen e) =
          (p ++ recordBytes e (entryLen e)) ++ zeros (bs - (off + entryLen e)) := by
        rw [Nat.sub_sub]
      rw [hdec, Bool.not_true, except_bind_ok hstep, if_pos hnf]
      simp only [if_true]
      rw [hrest, ih (by rw [length_append, length_recordBytes hge, hp]) hn]
      obtain ⟨taken, ht⟩ := takeBlock_ne_nil bs e' rest (off + entryLen e)
      rw [ht, blockBytes, append_assoc]
    · have hstep := writeDirEntry_eq hp hfit hbs true rfl
      simp only [if_true, Nat.sub_self, zeros_zero, append_nil] at hstep
      have hnf : ¬ nextFits bs (off + entryLen e) (e' :: rest) = true := by
        simpa [nextFits] using hn
      have hdec : decide (off + dirEntryMinLen e.name + dirEntryMinLen e'.name ≤ bs) = false :=
        decide_eq_false hn
      rw [hdec, Bool.not_false, except_bind_ok hstep, if_neg hnf]
      rfl
end

/-- How often a new block is begun, with `off` bytes of the current one used. -/
def extraBlocks (bs : Nat) : List Str → Nat → Nat
  | [], _ => 0
  | name :: rest, off =>
    if off + dirEntryMinLen name > bs then 1 + extraBlocks bs rest (dirEntryMinLen name)
    else extraBlocks bs rest (off + dirEntryMinLen name)

theorem countDirBlocks_ok (hfit : ∀ name ∈ names, dirEntryMinLen name ≤ bs) (hb : b ≤ 2 ^ 32 - 1) :
    countDirBlocks bs names b off = .ok (min (b + extraBlocks bs names off) (2 ^ 32 - 1)) := by
  induction names generalizing b off with
  | nil =>
    rw [extraBlocks, Nat.add_zero, min_eq_left hb]
    rfl
  | cons name rest ih =>
    have hname := hfit name mem_cons_self
    have ih := fun {b off} => @ih b off (fun m hm => hfit m (mem_cons_of_mem name hm))
    rw [countDirBlocks, extraBlocks, if_neg (by omega)]
    by_cases hnew : off + dirEntryMinLen name > bs
    · rw [if_pos hnew, if_pos hnew, ih (by omega)]
      congr 1
      omega
    · rw [if_neg hnew, if_neg hnew, ih hb]

theorem countDirBlocks_error (h : ¬ ∀ name ∈ names, dirEntryMinLen name ≤ bs) :
    ∃ e, countDirBlocks bs names b off = .error e := by
  induction names generalizing b off with
  | nil => exact absurd (by simp) h
  | cons name rest ih =>
    rw [countDirBlocks]
    by_cases hname : dirEntryMinLen name > bs
    · rw [if_pos hname]
      exact ⟨_, rfl⟩
    · rw [if_neg hname]
      have hrest : ¬ ∀ m ∈ rest, dirEntryMinLen m ≤ bs := fun hr => h fun m hm => by
        rcases mem_cons.mp hm with rfl | hm
        · omega
        · exact hr m hm
      split <;> exact ih hrest

theorem extraBlocks_takeBlock (hfit : off + entryLen e ≤ bs) (hall : ∀ d ∈ rest, entryLen d ≤ bs) :
    extraBlocks bs ((e :: rest).map DirEntrySpec.name) off =
      if (takeBlock bs (e :: rest) off).2 = [] then 0
      else 1 + extraBlocks bs ((takeBlock bs (e :: rest) off).2.map DirEntrySpec.name) 0 := by
  induction rest generalizing e off with
  | nil =>
    unfold entryLen at hfit
    simp only [map_cons, map_nil, extraBlocks, takeBlock, nextFits, Bool.false_eq_true, if_false,
      if_true]
    rw [if_neg (by omega)]
  | cons e' rest ih =>
    have hfit' : ¬ off + dirEntryMinLen e.name > bs := by unfold entryLen at hfit; omega
    rw [map_cons, extraBlocks, if_neg hfit', takeBlock]
    by_cases hn : off + entryLen e + entryLen e' ≤ bs
    · have hnf : nextFits bs (off + entryLen e) (e' :: rest) = true := decide_eq_true hn
      rw [if_pos hnf]
      exact ih hn fun d hd => hall d (mem_cons_of_mem e' hd)
    · have hnf : ¬ nextFits bs (off + entryLen e) (e' :: rest) = true := by
        simpa [nextFits] using hn
      rw [if_neg hnf, if_neg (cons_ne_nil e' rest)]
      have he' := hall e' mem_cons_self
      unfold entryLen at hn he'
      rw [map_cons, extraBlocks, if_pos (by omega), extraBlocks, if_neg (by omega), Nat.zero_add]

theorem packBlocks_length
    (hall : ∀ d ∈ e :: rest, entryLen d ≤ bs) (hf : (e :: rest).length ≤ fuel) :
    (packBlocks bs fuel (e :: rest)).length =
      1 + extraBlocks bs ((e :: rest).map DirEntrySpec.name) 0 := by
  induction fuel generalizing e rest with
  | zero => simp at hf
  | succ fuel ih =>
    have hleft := takeBlock_left_length bs e rest 0
    rw [packBlocks, length_cons, extraBlocks_takeBlock (by simpa using hall e mem_cons_self)
        fun d hd => hall d (mem_cons_of_mem e hd)]
    cases hl : (takeBlock bs (e :: rest) 0).2 with
    | nil =>
      cases fuel <;> rfl
    | cons d left =>
      have hsub : ∀ x ∈ d :: left, x ∈ e :: rest := by
        intro x hx
        rw [← takeBlock_append bs (e :: rest) 0, hl]
        exact mem_append_right _ hx
      rw [hl] at hleft
      simp only [length_cons] at hf hleft
      rw [if_neg (by simp), ih (fun x hx => hall x (hsub x hx)) (by simp only [length_cons]; omega)]
      omega

end Ext4DirectoryBlocks
