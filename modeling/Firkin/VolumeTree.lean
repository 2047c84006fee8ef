import Firkin.GuardedRun
import Firkin.SlashPath
import Firkin.VolumeRegistry
import Firkin.FaultMonad

/-! # The tree in a volume

The entries of a volume stand in one table under their paths. They form a tree as long as the
callers see to it: neither of the writes looks at the parent, a forced write may put a file in the
place of a directory, and a removal takes one entry away. -/
namespace VolumeTree

open SortedTable GuardedRun FaultMonad VolumeRegistry SlashPath TextTrim LocalVolumeRegistry List
open Std.ExtTreeMap
open Ext4Types (Str str)

abbrev Entries := Table Str VolumeContentEntry

theorem whiteSpace_ne_nil : ∀ w ∈ whiteSpace, w ≠ [] := by decide

theorem slash_not_mem_whiteSpace : ∀ w ∈ whiteSpace, slash ∉ w := by decide

theorem normalize_eq (path : Str) : normalizeVolumePath path =
    slash :: (((trim whiteSpace path).dropWhile (· = slash)).rdropWhile (· = slash)) := by
  unfold normalizeVolumePath
  dsimp only
  split
  · next h =>
    rcases h with h | h
    · rw [h]
      rfl
    · rw [h]
      rfl
  · rfl

theorem head?_of_initial {α : Type} {l l'} {x : α} (h : l' <+: l) (hx : l'.head? = some x) :
    l.head? = some x := by
  obtain ⟨t, rfl⟩ := h
  rw [head?_append, hx]
  rfl

theorem normalize_normal (path : Str) : Normal slash (normalizeVolumePath path) := by
  rw [normalize_eq]
  refine ⟨_, rfl, fun hhead => ?_, fun hlast => ?_⟩
  · have hfirst := head?_of_initial (List.rdropWhile_prefix _ _) hhead
    have hnot := head?_dropWhile_not (· = slash) (trim whiteSpace path)
    rw [hfirst] at hnot
    simp at hnot
  · obtain ⟨hne, hlast⟩ := mem_getLast?_eq_getLast hlast
    have hnot := rdropWhile_last_not _ _ hne
    simp [← hlast] at hnot

section
variable {p : Str}

theorem rdropWhile_of_last {l : Str} (h : l.getLast? ≠ some slash) :
    l.rdropWhile (· = slash) = l := by
  rw [rdropWhile_eq_self_iff]
  intro hne hslash
  exact h (by rw [getLast?_eq_getLast_of_ne_nil hne]; simpa using hslash)

theorem not_prefix_slash (rest : Str) : ∀ w ∈ whiteSpace, ¬w <+: slash :: rest := by
  intro w hw hprefix
  cases w with
  | nil => exact whiteSpace_ne_nil _ hw rfl
  | cons b w =>
    have hhead : b = slash := (cons_prefix_cons.mp hprefix).1
    exact slash_not_mem_whiteSpace _ hw (by simp [hhead])

theorem not_suffix_slash : ∀ w ∈ whiteSpace, ¬w <:+ front ++ [slash] := by
  intro w hw hsuffix
  rcases suffix_concat_iff.mp hsuffix with rfl | ⟨w, rfl, -⟩
  · exact whiteSpace_ne_nil _ hw rfl
  · exact slash_not_mem_whiteSpace _ hw (by simp)

section
variable (hp : Normal slash p)
include hp

theorem trim_normal_eq : trim whiteSpace p = trimEnd whiteSpace p := by
  obtain ⟨rest, rfl, -, -⟩ := hp
  rw [trim, trimStart_self (not_prefix_slash rest)]

theorem trim_normal : ∃ rest, rest.head? ≠ some slash ∧
    trim whiteSpace p = slash :: rest ∧ slash :: rest <+: p ∧
    normalizeVolumePath p = slash :: rest.rdropWhile (· = slash) := by
  obtain ⟨taken, hsplit, htaken⟩ := trimEnd_split whiteSpace p
  have htrim := trim_normal_eq hp
  obtain ⟨name, rfl, hhead, -⟩ := hp
  cases hrest : trimEnd whiteSpace (slash :: name) with
  | nil =>
    rw [hrest, nil_append] at hsplit
    obtain ⟨w, hw, hmem⟩ := htaken slash (hsplit ▸ mem_cons_self)
    exact absurd hmem (slash_not_mem_whiteSpace w hw)
  | cons b rest =>
    rw [hrest] at hsplit
    cases hsplit
    have hfirst : rest.head? ≠ some slash := fun he =>
      hhead (head?_of_initial (prefix_append rest taken) he)
    refine ⟨rest, hfirst, htrim.trans hrest, prefix_append (slash :: rest) taken, ?_⟩
    rw [normalize_eq, htrim, hrest, dropWhile_cons_of_pos (by simp)]
    congr 2
    cases rest with
    | nil => rfl
    | cons b rest => exact dropWhile_cons_of_neg (by simpa using hfirst)

theorem normalize_self (hend : ∀ w ∈ whiteSpace, ¬w <:+ p) : normalizeVolumePath p = p := by
  obtain ⟨rest, -, htrim, -, heq⟩ := trim_normal hp
  rw [trim_normal_eq hp, trimEnd_self hend] at htrim
  obtain ⟨name, rfl, -, hlast⟩ := hp
  cases htrim
  rw [heq, rdropWhile_of_last hlast]

theorem normalize_closed : normalizeVolumePath (p ++ [slash]) = p := by
  obtain ⟨rest, rfl, hhead, hlast⟩ := hp
  have htrim : trim whiteSpace (slash :: rest ++ [slash]) = slash :: rest ++ [slash] := by
    rw [cons_append, trim, trimStart_self (not_prefix_slash _), ← cons_append,
      trimEnd_self not_suffix_slash]
  have hdrop : (rest ++ [slash]).dropWhile (· = slash) =
      if rest = [] then [] else rest ++ [slash] := by
    cases rest with
    | nil => rfl
    | cons b rest => exact dropWhile_cons_of_neg (by simpa using hhead)
  rw [normalize_eq, htrim, cons_append, dropWhile_cons_of_pos (by simp), hdrop]
  split
  · next hnil => rw [hnil, rdropWhile_nil]
  · rw [rdropWhile_concat_pos _ _ _ (by simp), rdropWhile_of_last hlast]

/-- A path with no blank before a slash loses only what is at its end. -/
theorem normalize_solid (hs : Solid slash whiteSpace p) :
    Solid slash whiteSpace (normalizeVolumePath p) ∧
      ∀ w ∈ whiteSpace, ¬w <:+ normalizeVolumePath p := by
  obtain ⟨rest, -, htrim, hprefix, heq⟩ := trim_normal hp
  have hback : rest.rdropWhile (· = slash) ++ rest.rtakeWhile (· = slash) = rest :=
    rdropWhile_append_rtakeWhile
  have hcut : slash :: rest.rdropWhile (· = slash) <+: slash :: rest :=
    cons_prefix_cons.mpr ⟨rfl, rdropWhile_prefix _ _⟩
  rw [heq]
  refine ⟨hs.mono (hcut.trans hprefix).isInfix, fun w hw hsuffix => ?_⟩
  cases hslashes : rest.rtakeWhile (· = slash) with
  | nil =>
    rw [hslashes, append_nil] at hback
    rw [hback, ← htrim] at hsuffix
    exact trimEnd_not_suffix whiteSpace_ne_nil hw hsuffix
  | cons b slashes =>
    have hb : b = slash := by
      have hmem : b ∈ rest.rtakeWhile (· = slash) := hslashes ▸ mem_cons_self
      simpa using mem_rtakeWhile_imp hmem
    obtain ⟨front, hfront⟩ := hsuffix
    refine hs w hw (List.IsInfix.trans ⟨front, slashes, ?_⟩ hprefix.isInfix)
    rw [← hback, hslashes, hb, ← cons_append, ← hfront]
    simp
end

end

def IsDir (entries : Entries) (p : Str) : Prop :=
  ∃ e, entries[p]? = some e ∧ e.stat.kind = .directory

structure Tree (entries : Entries) : Prop where
  root : IsDir entries [slash]
  parents : ∀ p e, entries[p]? = some e → p ≠ [slash] → IsDir entries (parent slash p)

/-- What a caller finds who starts at the root and goes on with the paths in the listings. -/
inductive Found (s : LocalVolumeRegistry) (volumeId : Str) : Str → Prop
  | root : Found s volumeId [slash]
  | down {path : Str} {stats : List VolumeEntryStat} {stat : VolumeEntryStat} :
      Found s volumeId path → s.listDir volumeId path = .ok stats → stat ∈ stats →
      Found s volumeId stat.path

structure WellFormed (s : LocalVolumeRegistry) : Prop where
  tree : ∀ (volumeId : Str) (record : VolumeRecord), s.volumes[volumeId]? = some record →
    Tree record.entries
  found : ∀ volumeId path data, s.readFile volumeId path = .ok data →
    Found s volumeId (normalizeVolumePath path)

def Below (p q : Str) : Prop := p ++ [slash] <+: q

def Gone (s : LocalVolumeRegistry) (volumeId path : Str) : Prop :=
  ∀ path' data, normalizeVolumePath path' = normalizeVolumePath path ∨
    Below (normalizeVolumePath path) (normalizeVolumePath path') →
    s.readFile volumeId path' ≠ .ok data

inductive Operation where
  | create (name : Str)
  | delete (volumeId : Str)
  | makeDir (volumeId path : Str) (opts : VolumeWriteOptions)
  | writeFile (volumeId path : Str) (data : List UInt8) (opts : VolumeWriteOptions)
  | updateMetadata (volumeId path : Str) (metadata : VolumeMetadataRequest)
  | removePath (volumeId path : Str)

def after {α : Type} (s : LocalVolumeRegistry) :
    VolumeRegistry.Result (α × LocalVolumeRegistry) → LocalVolumeRegistry
  | .ok (_, t) => t
  | .error _ => s

def step (s : LocalVolumeRegistry) : Operation → LocalVolumeRegistry
  | .create name => (s.create name).2
  | .delete volumeId => (s.delete volumeId).2
  | .makeDir volumeId path opts => after s (s.makeDir volumeId path opts)
  | .writeFile volumeId path data opts => after s (s.writeFile volumeId path data opts)
  | .updateMetadata volumeId path metadata => after s (s.updateMetadata volumeId path metadata)
  | .removePath volumeId path => after s (s.removePath volumeId path)

structure Right (s : LocalVolumeRegistry) (operation : Operation) : Prop where
  wellFormed : WellFormed (step s operation)
  gone : ∀ volumeId path t, operation = .removePath volumeId path →
    s.removePath volumeId path = .ok ((), t) → Gone t volumeId path

def Stores (s : LocalVolumeRegistry) (volumeId path : Str) (opts : VolumeWriteOptions)
    (record : VolumeRecord) : Prop :=
  s.volumes[volumeId]? = some record ∧
    (opts.force = some true ∨ normalizeVolumePath path ∉ record.entries)

def Bare (entries : Entries) (p : Str) : Prop := ∀ q ∈ entries, ¬Below p q

/-- A file goes where there is a directory for it and nothing below it, and no blank stands before
a slash in its path. -/
structure Placed (entries : Entries) (p : Str) : Prop where
  notRoot : p ≠ [slash]
  parent : IsDir entries (parent slash p)
  bare : Bare entries p
  solid : Solid slash whiteSpace p

def Careful (s : LocalVolumeRegistry) : Operation → Prop
  | .makeDir volumeId path opts => ∀ record, Stores s volumeId path opts record →
    normalizeVolumePath path = [slash] ∨
      IsDir record.entries (parent slash (normalizeVolumePath path))
  | .writeFile volumeId path _ opts => ∀ record, Stores s volumeId path opts record →
    Placed record.entries (normalizeVolumePath path)
  | .removePath volumeId path => ∀ record, s.volumes[volumeId]? = some record →
    normalizeVolumePath path ∈ record.entries → normalizeVolumePath path ≠ [slash] →
    Bare record.entries (normalizeVolumePath path)
  | _ => True

def Keyed (entries : Entries) : Prop :=
  ∀ p e, entries[p]? = some e → e.stat.path = p ∧ Normal slash p

structure Sound (entries : Entries) : Prop where
  tree : Tree entries
  files : ∀ p e, entries[p]? = some e → e.stat.kind = .file → Solid slash whiteSpace p

section
variable {entries : Entries} {p q : Str} {e : VolumeContentEntry}

theorem keyed_insert (hk : Keyed entries) (hpath : e.stat.path = p) (hp : Normal slash p) :
    Keyed (entries.insert p e) := by
  intro q e' hq
  rw [get_insert] at hq
  split at hq
  · next heq =>
    cases hq
    exact heq ▸ ⟨hpath, hp⟩
  · exact hk q e' hq

theorem keyed_erase (hk : Keyed entries) : Keyed (entries.erase p) := by
  intro q e hq
  rw [get_erase] at hq
  split at hq
  · cases hq
  · exact hk q e hq

theorem exists_child (htree : Tree entries) (hk : Keyed entries) (hp : Normal slash p)
    (hn : q.length ≤ n) (hq : q ∈ entries) (hbelow : Below p q) :
    ∃ q' ∈ entries, q' ≠ [slash] ∧ parent slash q' = p := by
  induction n generalizing q with
  | zero =>
    rw [eq_nil_of_length_eq_zero (Nat.le_zero.mp hn)] at hbelow
    simpa using prefix_nil.mp hbelow
  | succ n ih =>
    have hget := getElem?_eq_some_getElem hq
    have hne : q ≠ [slash] := by
      rintro rfl
      have hlen := hbelow.length_le
      have hpos := length_pos_of_ne_nil hp.ne_nil
      simp only [length_append, length_singleton] at hlen
      omega
    rcases parent_below hp.ne_nil hbelow with hparent | hparent
    · exact ⟨q, hq, hne, hparent⟩
    · obtain ⟨e', he', -⟩ := htree.parents q _ hget hne
      have hshort := (hk q _ hget).2.length_parent_lt hne
      exact ih (by omega) (mem_iff_isSome_getElem?.mpr (by rw [he']; rfl)) hparent

theorem isDir_insert_dir (he : e.stat.kind = .directory) (h : IsDir entries q) :
    IsDir (entries.insert p e) q := by
  obtain ⟨e', hget, hkind⟩ := h
  by_cases hpq : p = q
  · exact ⟨e, by rw [get_insert, if_pos hpq], he⟩
  · exact ⟨e', by rw [get_insert_ne hpq, hget], hkind⟩

theorem isDir_insert_ne (hpq : p ≠ q) : IsDir (entries.insert p e) q ↔ IsDir entries q := by
  unfold IsDir
  rw [get_insert_ne hpq]

theorem isDir_erase_ne (hpq : p ≠ q) : IsDir (entries.erase p) q ↔ IsDir entries q := by
  unfold IsDir
  rw [get_erase, if_neg hpq]

theorem below_of_parent (hq : Normal slash q) (hp : p ≠ [slash]) (h : parent slash q = p) :
    Below p q := by
  obtain ⟨name, hchild, -⟩ := hq.child
  rw [h, childPrefix, if_neg hp] at hchild
  exact ⟨name, hchild.symm⟩

theorem parent_ne (hp : Normal slash p) (hne : p ≠ [slash]) : p ≠ parent slash p :=
  fun he => (hp.length_parent_lt hne).ne (congrArg length he).symm

section
variable (hs : Sound entries)
include hs

theorem sound_insert_dir (hp : Normal slash p) (he : e.stat.kind = .directory) :
    Sound (entries.insert p e) ↔ p = [slash] ∨ IsDir entries (parent slash p) := by
  constructor
  · intro h
    by_cases hne : p = [slash]
    · exact .inl hne
    · have hself : (entries.insert p e)[p]? = some e := by rw [get_insert, if_pos rfl]
      exact .inr ((isDir_insert_ne (parent_ne hp hne)).mp (h.tree.parents p e hself hne))
  · intro hparent
    refine ⟨⟨isDir_insert_dir he hs.tree.root, fun q e' hq hne => ?_⟩, fun q e' hq hfile => ?_⟩
    · refine isDir_insert_dir he ?_
      by_cases hpq : p = q
      · subst hpq
        exact hparent.resolve_left hne
      · rw [get_insert_ne hpq] at hq
        exact hs.tree.parents q e' hq hne
    · by_cases hpq : p = q
      · rw [get_insert, if_pos hpq] at hq
        cases hq
        cases he.symm.trans hfile
      · rw [get_insert_ne hpq] at hq
        exact hs.files q e' hq hfile

section
variable (hk : Keyed entries) (hp : Normal slash p)
include hk hp

/-- Something below a path would be left hanging if the path were no directory any more. -/
theorem bare_of_sound (hs' : Sound entries') (hsame : ∀ q, p ≠ q → entries'[q]? = entries[q]?)
    (hdir : ¬IsDir entries' p) : Bare entries p := by
  intro q hq hbelow
  obtain ⟨q', hq', hne, hparent⟩ := exists_child hs.tree hk hp le_rfl hq hbelow
  have hget := getElem?_eq_some_getElem hq'
  have hother : p ≠ q' := by
    have h := parent_ne (hk q' _ hget).2 hne
    rw [hparent] at h
    exact h.symm
  exact hdir (hparent ▸ hs'.tree.parents q' _ ((hsame q' hother).trans hget) hne)

theorem sound_insert_file
    (he : e.stat.kind = .file) : Sound (entries.insert p e) ↔ Placed entries p := by
  have hself : (entries.insert p e)[p]? = some e := by rw [get_insert, if_pos rfl]
  have hfile : ¬IsDir (entries.insert p e) p := by
    rintro ⟨e', hget, hkind⟩
    cases hself.symm.trans hget
    cases he.symm.trans hkind
  constructor
  · intro h
    have hne : p ≠ [slash] := by
      rintro rfl
      exact hfile h.tree.root
    refine ⟨hne, (isDir_insert_ne (parent_ne hp hne)).mp (h.tree.parents p e hself hne), ?_,
      h.files p e hself he⟩
    exact bare_of_sound hs hk hp h (fun q hpq => get_insert_ne hpq) hfile
  · intro hplaced
    refine ⟨⟨(isDir_insert_ne hplaced.notRoot).mpr hs.tree.root, fun q e' hq hne => ?_⟩,
      fun q e' hq hkind => ?_⟩
    · by_cases hpq : p = q
      · subst hpq
        exact (isDir_insert_ne (parent_ne hp hne)).mpr hplaced.parent
      · rw [get_insert_ne hpq] at hq
        refine (isDir_insert_ne fun hparent => ?_).mpr (hs.tree.parents q e' hq hne)
        have hmem : q ∈ entries := mem_iff_isSome_getElem?.mpr (by rw [hq]; rfl)
        exact hplaced.bare q hmem (below_of_parent (hk q e' hq).2 hplaced.notRoot hparent.symm)
    · by_cases hpq : p = q
      · exact hpq ▸ hplaced.solid
      · rw [get_insert_ne hpq] at hq
        exact hs.files q e' hq hkind

theorem sound_erase (hroot : p ≠ [slash]) : Sound (entries.erase p) ↔ Bare entries p := by
  constructor
  · intro h
    refine bare_of_sound hs hk hp h (fun q hpq => by rw [get_erase, if_neg hpq]) ?_
    rintro ⟨e, hget, -⟩
    rw [get_erase, if_pos rfl] at hget
    cases hget
  · intro hbare
    have hget : ∀ q e, (entries.erase p)[q]? = some e → p ≠ q ∧ entries[q]? = some e := by
      intro q e hq
      rw [get_erase] at hq
      split at hq
      · cases hq
      · next hpq => exact ⟨hpq, hq⟩
    refine ⟨⟨(isDir_erase_ne hroot).mpr hs.tree.root, fun q e hq hne => ?_⟩, fun q e hq hkind => ?_⟩
    · obtain ⟨hpq, hq⟩ := hget q e hq
      refine (isDir_erase_ne fun hparent => ?_).mpr (hs.tree.parents q e hq hne)
      have hmem : q ∈ entries := mem_iff_isSome_getElem?.mpr (by rw [hq]; rfl)
      exact hbare q hmem (below_of_parent (hk q e hq).2 hroot hparent.symm)
    · exact hs.files q e (hget q e hq).2 hkind
end

theorem sound_update (hget : entries[p]? = some e)
    (hkind : e'.stat.kind = e.stat.kind) : Sound (entries.insert p e') := by
  have hdir : ∀ q, IsDir entries q → IsDir (entries.insert p e') q := by
    intro q hq
    by_cases hpq : p = q
    · obtain ⟨e'', hget', hdir⟩ := hq
      cases hget.symm.trans (hpq ▸ hget')
      exact ⟨e', by rw [get_insert, if_pos hpq], hkind.trans hdir⟩
    · exact (isDir_insert_ne hpq).mpr hq
  have hold : ∀ (q : Str) (x : VolumeContentEntry), (entries.insert p e')[q]? = some x →
      ∃ y : VolumeContentEntry, entries[q]? = some y ∧ x.stat.kind = y.stat.kind := by
    intro q x hq
    rw [get_insert] at hq
    split at hq
    · next hpq =>
      cases hq
      exact ⟨e, hpq ▸ hget, hkind⟩
    · exact ⟨x, hq, rfl⟩
  refine ⟨⟨hdir _ hs.tree.root, fun q x hq hne => ?_⟩, fun q x hq hfile => ?_⟩
  · obtain ⟨y, hy, -⟩ := hold q x hq
    exact hdir _ (hs.tree.parents q y hy hne)
  · obtain ⟨y, hy, hsame⟩ := hold q x hq
    exact hs.files q y hy (hsame.symm.trans hfile)
end

end

section
variable {s : LocalVolumeRegistry} {volumeId : Str} {record : VolumeRecord}

theorem volume_eq_ok : s.volume volumeId = .ok record ↔ s.volumes[volumeId]? = some record := by
  unfold volume
  cases s.volumes[volumeId]? <;> simp

theorem entry_eq_ok : s.entry volumeId p = .ok e ↔
    ∃ record, s.volumes[volumeId]? = some record ∧ record.entries[p]? = some e := by
  unfold entry
  rw [except_bind_eq_ok]
  refine exists_congr fun record => and_congr volume_eq_ok ?_
  cases record.entries[p]? with
  | none => simp
  | some e' => simp [pure, Except.pure]

theorem readFile_eq_ok : s.readFile volumeId path = .ok data ↔
    ∃ record e, s.volumes[volumeId]? = some record ∧
      record.entries[normalizeVolumePath path]? = some e ∧ e.stat.kind = .file ∧ e.data = data := by
  unfold readFile
  rw [except_bind_eq_ok]
  constructor
  · rintro ⟨e, he, h⟩
    obtain ⟨record, hrecord, hget⟩ := entry_eq_ok.mp he
    split at h
    · cases h
    · next hkind =>
      cases h
      exact ⟨record, e, hrecord, hget, not_not.mp hkind, rfl⟩
  · rintro ⟨record, e, hrecord, hget, hkind, rfl⟩
    exact ⟨e, entry_eq_ok.mpr ⟨record, hrecord, hget⟩, if_neg (not_not.mpr hkind)⟩

def listing (entries : Entries) (dir : Str) : List VolumeEntryStat :=
  (entries.toList.filter fun (candidate, _) =>
    candidate ≠ dir && (childPrefix slash dir).isPrefixOf candidate &&
      slash ∉ candidate.drop (childPrefix slash dir).length).map (·.2.stat)

theorem listDir_eq_ok : s.listDir volumeId path = .ok stats ↔
    ∃ record : VolumeRecord, s.volumes[volumeId]? = some record ∧
      IsDir record.entries (normalizeVolumePath path) ∧
      listing record.entries (normalizeVolumePath path) = stats := by
  unfold listDir
  rw [except_bind_eq_ok]
  constructor
  · rintro ⟨record, hrecord, h⟩
    rw [volume_eq_ok] at hrecord
    obtain ⟨e, he, h⟩ := except_bind_eq_ok.mp h
    obtain ⟨record', hrecord', hget⟩ := entry_eq_ok.mp he
    cases hrecord.symm.trans hrecord'
    split at h
    · cases h
    · next hkind =>
      cases h
      exact ⟨record, hrecord, ⟨e, hget, not_not.mp hkind⟩, rfl⟩
  · rintro ⟨record, hrecord, ⟨e, hget, hkind⟩, rfl⟩
    refine ⟨record, volume_eq_ok.mpr hrecord, ?_⟩
    rw [except_bind_ok (entry_eq_ok.mpr ⟨record, hrecord, hget⟩), if_neg (not_not.mpr hkind)]
    rfl

theorem mem_listing (hk : Keyed entries) (hdir : Normal slash dir) : stat ∈ listing entries dir ↔
      ∃ p e, entries[p]? = some e ∧ e.stat = stat ∧ p ≠ [slash] ∧ parent slash p = dir := by
  rw [listing, mem_map]
  constructor
  · rintro ⟨⟨p, e⟩, hmem, rfl⟩
    obtain ⟨hget, hlisted⟩ := mem_filter.mp hmem
    rw [mem_toList_iff_getElem?_eq_some] at hget
    simp only [Bool.and_eq_true, decide_eq_true_eq, isPrefixOf_iff_prefix] at hlisted
    have hne : p ≠ [slash] := by
      rintro rfl
      exact root_not_listed hdir.ne_nil hlisted.1.1 hlisted.1.2
    refine ⟨p, e, hget, rfl, hne, ?_⟩
    exact (listed_iff (hk p e hget).2 hne hdir.ne_nil).mp ⟨hlisted.1.1, hlisted.1.2, hlisted.2⟩
  · rintro ⟨p, e, hget, rfl, hne, hparent⟩
    have hlisted := (listed_iff (hk p e hget).2 hne hdir.ne_nil).mpr hparent
    refine ⟨(p, e), mem_filter.mpr ⟨?_, ?_⟩, rfl⟩
    · exact mem_toList_iff_getElem?_eq_some.mpr hget
    · simp only [Bool.and_eq_true, decide_eq_true_eq, isPrefixOf_iff_prefix]
      exact ⟨⟨hlisted.1, hlisted.2.1⟩, hlisted.2.2⟩

def EachVolume (P : Entries → Prop) (s : LocalVolumeRegistry) : Prop :=
  Each (fun record => P record.entries) s.volumes

theorem Found.solid (hk : EachVolume Keyed s) (h : Found s volumeId p) :
    Normal slash p ∧ Solid slash whiteSpace p := by
  induction h with
  | root => exact ⟨normal_root, solid_root whiteSpace_ne_nil⟩
  | down _ hlist hmem ih =>
    obtain ⟨record, hrecord, -, rfl⟩ := listDir_eq_ok.mp hlist
    have hkeyed := hk _ record hrecord
    obtain ⟨q, e, hget, rfl, -, hparent⟩ := (mem_listing hkeyed (normalize_normal _)).mp hmem
    obtain ⟨hpath, hnormal⟩ := hkeyed q e hget
    rw [hpath]
    refine ⟨hnormal, (hnormal.solid_iff whiteSpace_ne_nil slash_not_mem_whiteSpace).mpr ?_⟩
    rw [hparent]
    exact normalize_solid ih.1 ih.2

/-- By induction on the length of the path: the parent is found, and listed under its own path. -/
theorem found_of_solid (hk : Keyed record.entries) (hrecord : s.volumes[volumeId]? = some record)
    (htree : Tree record.entries) (hn : p.length ≤ n)
    (hget : record.entries[p]? = some e) (hs : Solid slash whiteSpace p) : Found s volumeId p := by
  induction n generalizing p e with
  | zero => exact absurd (eq_nil_of_length_eq_zero (Nat.le_zero.mp hn)) (hk p e hget).2.ne_nil
  | succ n ih =>
    by_cases hne : p = [slash]
    · exact hne ▸ .root
    · obtain ⟨hpath, hnormal⟩ := hk p e hget
      obtain ⟨hsolid, hend⟩ :=
        (hnormal.solid_iff whiteSpace_ne_nil slash_not_mem_whiteSpace).mp hs
      obtain ⟨e', hget', hdir⟩ := htree.parents p e hget hne
      have hshort := hnormal.length_parent_lt hne
      have hself := normalize_self (hk _ e' hget').2 hend
      have hfound := ih (by omega) hget' hsolid
      rw [← hpath]
      refine .down hfound (listDir_eq_ok.mpr ⟨record, hrecord, ?_, rfl⟩) ?_
      · rw [hself]
        exact ⟨e', hget', hdir⟩
      · rw [hself]
        exact (mem_listing hk (hk _ e' hget').2).mpr ⟨p, e, hget, rfl, hne, rfl⟩

theorem wellFormed_iff (hk : EachVolume Keyed s) : WellFormed s ↔ EachVolume Sound s := by
  constructor
  · intro h volumeId record hrecord
    refine ⟨h.tree volumeId record hrecord, fun p e hget hfile => ?_⟩
    have hself := normalize_closed (hk volumeId record hrecord p e hget).2
    have hread : s.readFile volumeId (p ++ [slash]) = .ok e.data :=
      readFile_eq_ok.mpr ⟨record, e, hrecord, hself.symm ▸ hget, hfile, rfl⟩
    exact hself ▸ ((h.found _ _ _ hread).solid hk).2
  · intro h
    refine ⟨fun volumeId record hrecord => (h volumeId record hrecord).tree, ?_⟩
    intro volumeId path data hread
    obtain ⟨record, e, hrecord, hget, hfile, -⟩ := readFile_eq_ok.mp hread
    have hsound := h volumeId record hrecord
    exact found_of_solid (hk volumeId record hrecord) hrecord hsound.tree le_rfl hget
      (hsound.files _ e hget hfile)
end

section
variable {s : LocalVolumeRegistry} {volumeId path : Str} {record : VolumeRecord}

theorem eachVolume_put (h : EachVolume P s) (volumeId : Str) :
    EachVolume P ⟨s.volumes.insert volumeId record, n⟩ ↔ P record.entries := by
  constructor
  · intro hput
    exact hput volumeId record (by rw [get_insert, if_pos rfl])
  · intro hp
    exact Each.insert h hp

/-- A write stores its entry in one volume, or leaves everything. -/
theorem after_store (s : LocalVolumeRegistry) (volumeId path : Str) (opts : VolumeWriteOptions)
    (entry : Str → VolumeContentEntry) :
    (∃ record, Stores s volumeId path opts record ∧
      after s (s.store volumeId path opts entry) = s.putEntry volumeId record
        (normalizeVolumePath path) (entry (normalizeVolumePath path))) ∨
    (∀ record, ¬Stores s volumeId path opts record) ∧
      after s (s.store volumeId path opts entry) = s := by
  unfold store volume
  cases hrecord : s.volumes[volumeId]? with
  | none =>
    refine .inr ⟨fun record h => ?_, rfl⟩
    cases hrecord.symm.trans h.1
  | some record =>
    rw [except_bind_ok rfl]
    by_cases hrefused : opts.force ≠ some true ∧ normalizeVolumePath path ∈ record.entries
    · rw [if_pos hrefused]
      refine .inr ⟨fun record' h => ?_, rfl⟩
      cases hrecord.symm.trans h.1
      exact h.2.elim hrefused.1 fun hfree => hfree hrefused.2
    · rw [if_neg hrefused]
      refine .inl ⟨record, ⟨hrecord, ?_⟩, rfl⟩
      rwa [not_and_or, not_not] at hrefused

theorem after_updateMetadata (s : LocalVolumeRegistry) (volumeId path : Str)
    (metadata : VolumeMetadataRequest) :
    (∃ (record : VolumeRecord) (e e' : VolumeContentEntry), s.volumes[volumeId]? = some record ∧
      record.entries[normalizeVolumePath path]? = some e ∧
      after s (s.updateMetadata volumeId path metadata) =
        s.putEntry volumeId record (normalizeVolumePath path) e' ∧
      e'.stat.kind = e.stat.kind ∧ e'.stat.path = e.stat.path) ∨
    after s (s.updateMetadata volumeId path metadata) = s := by
  cases hrun : s.updateMetadata volumeId path metadata with
  | error e => exact .inr rfl
  | ok r =>
    obtain ⟨record, hrecord, hrun⟩ := except_bind_eq_ok.mp hrun
    obtain ⟨e, he, hrun⟩ := except_bind_eq_ok.mp hrun
    rw [volume_eq_ok] at hrecord
    obtain ⟨record', hrecord', hget⟩ := entry_eq_ok.mp he
    cases hrecord.symm.trans hrecord'
    cases hrun
    exact .inl ⟨record, e, _, hrecord, hget, rfl, rfl, rfl⟩

structure Removes (s : LocalVolumeRegistry) (volumeId path : Str) (record : VolumeRecord) :
    Prop where
  volume : s.volumes[volumeId]? = some record
  entry : normalizeVolumePath path ∈ record.entries
  notRoot : normalizeVolumePath path ≠ [slash]

theorem after_removePath (s : LocalVolumeRegistry) (volumeId path : Str) :
    (∃ record, Removes s volumeId path record ∧
      s.removePath volumeId path = .ok ((), { s with
        volumes := s.volumes.insert volumeId
          { record with entries := record.entries.erase (normalizeVolumePath path) } })) ∨
    (∀ record, ¬Removes s volumeId path record) ∧ ∃ e, s.removePath volumeId path = .error e := by
  unfold removePath volume
  by_cases hroot : normalizeVolumePath path = [slash]
  · rw [if_pos hroot]
    exact .inr ⟨fun record h => h.notRoot hroot, _, rfl⟩
  · rw [if_neg hroot]
    cases hrecord : s.volumes[volumeId]? with
    | none =>
      refine .inr ⟨fun record h => ?_, _, rfl⟩
      cases hrecord.symm.trans h.volume
    | some record =>
      rw [except_bind_ok rfl]
      by_cases hmem : normalizeVolumePath path ∈ record.entries
      · rw [if_pos hmem]
        exact .inl ⟨record, ⟨hrecord, hmem, hroot⟩, rfl⟩
      · rw [if_neg hmem]
        refine .inr ⟨fun record' h => ?_, _, rfl⟩
        cases hrecord.symm.trans h.volume
        exact hmem h.entry

theorem sound_new : Sound ((∅ : Entries).insert [slash] rootVolumeEntry) := by
  have honly : ∀ (p : Str) (e : VolumeContentEntry),
      ((∅ : Entries).insert [slash] rootVolumeEntry)[p]? = some e →
      p = [slash] ∧ e = rootVolumeEntry := by
    intro p e hget
    rw [get_insert] at hget
    split at hget
    · next hp => exact ⟨hp.symm, (Option.some.inj hget).symm⟩
    · cases hget
  refine ⟨⟨⟨rootVolumeEntry, by rw [get_insert, if_pos rfl], rfl⟩, fun p e hget hne => ?_⟩,
    fun p e hget hfile => ?_⟩
  · exact absurd (honly p e hget).1 hne
  · rw [(honly p e hget).2] at hfile
    cases hfile

theorem keyed_new : Keyed ((∅ : Entries).insert [slash] rootVolumeEntry) := by
  refine keyed_insert (fun p e hget => ?_) rfl normal_root
  cases hget

theorem eachVolume_create (h : EachVolume P s)
    (hnew : P ((∅ : Entries).insert [slash] rootVolumeEntry)) (name : Str) :
    EachVolume P (s.create name).2 := by
  unfold create
  dsimp only
  split
  · exact h
  · exact Each.insert h hnew

theorem keyed_store (hk : EachVolume Keyed s) {opts entry} (hentry : ∀ p, (entry p).stat.path = p) :
    EachVolume Keyed (after s (s.store volumeId path opts entry)) := by
  rcases after_store s volumeId path opts entry with ⟨record, hstores, hafter⟩ | ⟨-, hafter⟩
  · rw [hafter]
    refine (eachVolume_put hk volumeId).mpr ?_
    exact keyed_insert (hk volumeId record hstores.1) (hentry _) (normalize_normal path)
  · rw [hafter]
    exact hk

theorem keyed_step (hk : EachVolume Keyed s) (operation : Operation) :
    EachVolume Keyed (step s operation) := by
  cases operation with
  | create name => exact eachVolume_create hk keyed_new name
  | delete volumeId => exact Each.erase hk volumeId
  | makeDir | writeFile => exact keyed_store hk fun _ => rfl
  | updateMetadata volumeId path metadata =>
    rcases after_updateMetadata s volumeId path metadata with
      ⟨record, e, e', hrecord, hget, hafter, -, hpath⟩ | hafter
    · rw [step, hafter]
      have hkeyed := hk volumeId record hrecord
      refine (eachVolume_put hk volumeId).mpr ?_
      exact keyed_insert hkeyed (hpath.trans (hkeyed _ e hget).1) (normalize_normal path)
    · rw [step, hafter]
      exact hk
  | removePath volumeId path =>
    rcases after_removePath s volumeId path with ⟨record, hremoves, hrun⟩ | ⟨-, e, hrun⟩
    · rw [step, hrun]
      refine (eachVolume_put hk volumeId).mpr ?_
      exact keyed_erase (hk volumeId record hremoves.volume)
    · rw [step, hrun]
      exact hk

/-- Whether the trees survive a write is up to the one volume it writes to. -/
theorem sound_store_iff (hs : EachVolume Sound s) {opts : VolumeWriteOptions}
    {entry : Str → VolumeContentEntry} {C : VolumeRecord → Prop}
    (hC : ∀ record, Stores s volumeId path opts record → (Sound (record.entries.insert
      (normalizeVolumePath path) (entry (normalizeVolumePath path))) ↔ C record)) :
    EachVolume Sound (after s (s.store volumeId path opts entry)) ↔
      ∀ record, Stores s volumeId path opts record → C record := by
  rcases after_store s volumeId path opts entry with ⟨record, hstores, hafter⟩ | ⟨hnone, hafter⟩
  · rw [hafter]
    refine (eachVolume_put hs volumeId).trans ((hC record hstores).trans ?_)
    constructor
    · intro h record' hstores'
      cases hstores.1.symm.trans hstores'.1
      exact h
    · intro h
      exact h record hstores
  · rw [hafter]
    exact iff_of_true hs fun record hstores => absurd hstores (hnone record)

theorem sound_step_iff (hk : EachVolume Keyed s) (hs : EachVolume Sound s)
    (operation : Operation) : EachVolume Sound (step s operation) ↔ Careful s operation := by
  cases operation with
  | create name => exact iff_of_true (eachVolume_create hs sound_new name) trivial
  | delete volumeId => exact iff_of_true (Each.erase hs volumeId) trivial
  | makeDir volumeId path opts =>
    refine sound_store_iff hs fun record hstores => ?_
    exact sound_insert_dir (hs volumeId record hstores.1) (normalize_normal path) rfl
  | writeFile volumeId path data opts =>
    refine sound_store_iff hs fun record hstores => ?_
    exact sound_insert_file (hs volumeId record hstores.1) (hk volumeId record hstores.1)
      (normalize_normal path) rfl
  | updateMetadata volumeId path metadata =>
    refine iff_of_true ?_ trivial
    rcases after_updateMetadata s volumeId path metadata with
      ⟨record, e, e', hrecord, hget, hafter, hkind, -⟩ | hafter
    · rw [step, hafter]
      refine (eachVolume_put hs volumeId).mpr ?_
      exact sound_update (hs volumeId record hrecord) hget hkind
    · rw [step, hafter]
      exact hs
  | removePath volumeId path =>
    rcases after_removePath s volumeId path with ⟨record, hremoves, hrun⟩ | ⟨hnone, e, hrun⟩
    · rw [step, hrun]
      refine (eachVolume_put hs volumeId).trans ((sound_erase (hs volumeId record
        hremoves.volume) (hk volumeId record hremoves.volume) (normalize_normal path)
        hremoves.notRoot).trans ?_)
      constructor
      · intro hbare record' hrecord' _ _
        cases hremoves.volume.symm.trans hrecord'
        exact hbare
      · intro h
        exact h record hremoves.volume hremoves.entry hremoves.notRoot
    · rw [step, hrun]
      refine iff_of_true hs fun record hrecord hmem hne => ?_
      exact absurd ⟨hrecord, hmem, hne⟩ (hnone record)

/-- Where there is nothing below what was removed, nothing can be read there any more. -/
theorem gone_of_bare (hcareful : Careful s (.removePath volumeId path))
    (hrun : s.removePath volumeId path = .ok ((), t)) : Gone t volumeId path := by
  rcases after_removePath s volumeId path with ⟨record, hremoves, hok⟩ | ⟨-, e, herror⟩
  · cases hrun.symm.trans hok
    have hbare := hcareful record hremoves.volume hremoves.entry hremoves.notRoot
    intro path' data hat hread
    obtain ⟨record', e, hrecord', hget, -, -⟩ := readFile_eq_ok.mp hread
    rw [get_insert, if_pos rfl] at hrecord'
    cases hrecord'
    rw [get_erase] at hget
    split at hget
    · cases hget
    · next hne =>
      refine hbare _ ?_ (hat.resolve_left (Ne.symm hne))
      exact mem_iff_isSome_getElem?.mpr (by rw [hget]; rfl)
  · cases hrun.symm.trans herror

theorem right_iff (hk : EachVolume Keyed s) (hs : EachVolume Sound s) (operation : Operation) :
    Right s operation ↔ Careful s operation := by
  constructor
  · intro h
    exact (sound_step_iff hk hs operation).mp ((wellFormed_iff (keyed_step hk operation)).mp
      h.wellFormed)
  · intro h
    refine ⟨(wellFormed_iff (keyed_step hk operation)).mpr ((sound_step_iff hk hs operation).mpr h),
      ?_⟩
    rintro volumeId path t rfl hrun
    exact gone_of_bare h hrun
end

theorem paths_along_run (operations : List Operation) :
    EachVolume Keyed (run step {} operations) := by
  induction operations using List.reverseRecOn with
  | nil => exact each_empty
  | append_singleton operations operation ih =>
    rw [run, List.foldl_append]
    exact keyed_step ih operation

/-- Along a run from the empty registry the property holds after every operation exactly as long
as every caller is careful. -/
theorem right_along_run_iff (operations : List Operation) :
    (∀ before operation rest, operations = before ++ operation :: rest →
      Right (run step {} before) operation) ↔ Meets step Careful {} operations := by
  rw [← meets_iff_forall]
  have hkeyed : EachVolume Keyed {} := each_empty
  have hsound : EachVolume Sound {} := each_empty
  refine meets_congr (I := fun s => EachVolume Keyed s ∧ EachVolume Sound s) ⟨hkeyed, hsound⟩
    (fun s operation h => right_iff h.1 h.2 operation) fun s operation h hcareful => ?_
  exact ⟨keyed_step h.1 operation, (sound_step_iff h.1 h.2 operation).mpr hcareful⟩

def oneFile : LocalVolumeRegistry := run step {}
  [.create (str "data"), .makeDir (str "vol_1") (str "/a") {},
    .writeFile (str "vol_1") (str "/a/b") [1] {}]

/-- The directory is removed, and the file in it can still be read. -/
theorem file_outlives_directory : ¬Right oneFile (.removePath (str "vol_1") (str "/a")) := by
  intro h
  have hread : (step oneFile (.removePath (str "vol_1") (str "/a"))).readFile (str "vol_1")
      (str "/a/b") = .ok [1] := by decide +kernel
  have hrun : oneFile.removePath (str "vol_1") (str "/a") =
      .ok ((), step oneFile (.removePath (str "vol_1") (str "/a"))) := by decide +kernel
  refine h.gone _ _ _ rfl hrun (str "/a/b") [1] (.inr ?_) hread
  have hbelow : normalizeVolumePath (str "/a") ++ [slash] ++ str "b" =
      normalizeVolumePath (str "/a/b") := by decide +kernel
  exact ⟨_, hbelow⟩

end VolumeTree
