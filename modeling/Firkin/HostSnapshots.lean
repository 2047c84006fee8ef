import Firkin.GuardedRun
import Firkin.HostAdapter

/-! # Host snapshots

A snapshot copies the tree of a sandbox to the path its name spells below `snapshots`. Paths
are taken from there. Of a call whose path leads to or through a file or a link nothing is
assumed: what it leaves is an input. -/
namespace HostSnapshots

open Ext4Types E2bTypes FaultMonad GuardedRun
open HostAdapter (Path rootedChildPath)

inductive Entry where
  | directory
  | file (content : Str)
  | link (target : Str)
  deriving DecidableEq

abbrev Entries := Path → Option Entry

structure Tree where
  entries : Entries
  root : entries [] = some .directory

/-- The tree of the sandbox, and for each operation that fails what it leaves: how many of the
directories on the way were made, what was copied, what is not yet removed. -/
structure Outcomes where
  sandbox : Option Tree := none
  create : Option Nat := none
  copy : Option Tree := none
  remove : Option Tree := none
  reason : Str := []
  astray : Entries × Except BackendError Unit := (fun _ => none, .ok ())

abbrev Disk := EStateM BackendError Entries

def hostSnapshotArtifactPath (snapshotId : Str) : Except BackendError Path :=
  rootedChildPath [] snapshotId "snapshot id"

def display (root : Str) (path : Path) : Str := root ++ path.flatMap (slash :: ·)

def graft (entries : Entries) (path : Path) (below : Entries) : Entries := fun q =>
  if path <+: q then below (q.drop path.length) else entries q

def createDirAll (o : Outcomes) (path : Path) : Disk Unit := do
  let made := (o.create.map path.take).getD path
  modify fun entries q => if q <+: made ∧ entries q = none then some .directory else entries q
  if o.create.isSome then throw (.runtime (str "create sandbox template root: " ++ o.reason))

def copyHostPath (o : Outcomes) (source : Tree) (destination : Path) : Disk Unit := do
  modify (graft · destination (o.copy.getD source).entries)
  if o.copy.isSome then throw (.runtime o.reason)

def copySandbox (o : Outcomes) (sandboxId snapshotId : Str) (path : Path) : Disk Unit := do
  if ((← get) path).isSome then throw (.alreadyExists snapshotId)
  else match o.sandbox with
    | none => throw (.notFound sandboxId)
    | some sandboxRoot =>
      createDirAll o path
      copyHostPath o sandboxRoot path

def removeDirAll (o : Outcomes) (path : Path) : Disk Unit := do
  if ((← get) path).isNone then return
  else
    modify (graft · path ((o.remove.map Tree.entries).getD fun _ => none))
    if o.remove.isSome then throw (.runtime (str "remove host snapshot: " ++ o.reason))

def leadsAstray (entries : Entries) (path : Path) : Bool :=
  path.inits.any fun q => (entries q).any (· ≠ .directory)

def reach (o : Outcomes) (path : Path) (act : Disk Unit) : Disk Unit := do
  if leadsAstray (← get) path then
    set o.astray.1
    MonadExcept.ofExcept o.astray.2
  else act

def idOf (sandboxId : Str) (name : Option Str) : Str :=
  name.getD (sandboxId ++ str "-host-snapshot")

def snapshot (root : Str) (o : Outcomes) (sandboxId : Str) (name : Option Str) :
    Disk SnapshotRef := do
  let snapshotRoot ← MonadExcept.ofExcept (hostSnapshotArtifactPath (idOf sandboxId name))
  reach o snapshotRoot (copySandbox o sandboxId (idOf sandboxId name) snapshotRoot)
  return ⟨idOf sandboxId name, some (display root snapshotRoot), none⟩

def deleteSnapshot (o : Outcomes) (snapshotId : Str) : Disk Unit := do
  let snapshotRoot ← MonadExcept.ofExcept (hostSnapshotArtifactPath snapshotId)
  reach o snapshotRoot (removeDirAll o snapshotRoot)

inductive Call where
  | snapshot (o : Outcomes) (sandboxId : Str) (name : Option Str)
  | deleteSnapshot (o : Outcomes) (snapshotId : Str)

def Call.id : Call → Str
  | .snapshot _ sandboxId name => idOf sandboxId name
  | .deleteSnapshot _ snapshotId => snapshotId

/-- The directory, the names of the calls so far, and for the name of each snapshot taken and
not deleted since the tree that was copied. -/
structure History where
  entries : Entries := fun _ => none
  used : List Str := []
  taken : Str → Option Tree := fun _ => none

def step (root : Str) (h : History) (call : Call) : History :=
  match call with
  | .snapshot o sandboxId name =>
    match snapshot root o sandboxId name h.entries with
    | .ok _ entries => ⟨entries, call.id :: h.used, Function.update h.taken call.id o.sandbox⟩
    | .error _ entries => ⟨entries, call.id :: h.used, h.taken⟩
  | .deleteSnapshot o snapshotId =>
    ⟨left (deleteSnapshot o snapshotId h.entries), call.id :: h.used,
      Function.update h.taken call.id none⟩

def apart (id id' : Str) : Bool :=
  match hostSnapshotArtifactPath id, hostSnapshotArtifactPath id' with
  | .ok p, .ok q => !p.isPrefixOf q && !q.isPrefixOf p
  | _, _ => true

/-- The path of the call's name neither is nor holds nor lies in that of another name used. -/
def Careful (h : History) (call : Call) : Prop := ∀ id ∈ h.used, id ≠ call.id → apart call.id id

instance (h : History) (call : Call) : Decidable (Careful h call) :=
  inferInstanceAs (Decidable (∀ id ∈ h.used, id ≠ call.id → apart call.id id))

/-- What a call on `path` does to the directory. -/
def Within (path : Path) (before after : Entries) : Prop :=
  ∀ q, after q = before q ∨ path <+: q ∧ (q = path → after q = none ∨ after q = some .directory) ∨
    q <+: path ∧ before q = none ∧ after q = some .directory

theorem Within.graft (h : Within path before entries)
    (hbelow : below [] = none ∨ below [] = some .directory) :
    Within path before (graft entries path below) := by
  intro q
  by_cases hq : path <+: q
  · refine .inr (.inl ⟨hq, ?_⟩)
    rintro rfl
    simpa [HostSnapshots.graft] using hbelow
  · simpa [HostSnapshots.graft, hq] using h q

section
variable (o : Outcomes) (path : Path) (entries : Entries)

theorem within_refl : Within path entries entries := fun _ => .inl rfl

theorem createDirAll_within :
    Settles (createDirAll o path) entries (fun _ => Within path entries) (Within path entries) := by
  have hmade : (o.create.map path.take).getD path <+: path := by
    cases o.create with
    | none => exact List.prefix_rfl
    | some n => exact List.take_prefix n path
  have hset : Within path entries fun q =>
      if q <+: (o.create.map path.take).getD path ∧ entries q = none then some .directory
      else entries q := by
    intro q
    by_cases hq : q <+: (o.create.map path.take).getD path ∧ entries q = none
    · exact .inr (.inr ⟨hq.1.trans hmade, hq.2, if_pos hq⟩)
    · exact .inl (if_neg hq)
  rw [createDirAll]
  split <;> exact hset

theorem copySandbox_within (sandboxId snapshotId : Str) :
    Settles (copySandbox o sandboxId snapshotId path) entries
      (fun _ after => Within path entries after ∧
        ∃ tree, o.sandbox = some tree ∧ ∀ r, after (path ++ r) = tree.entries r)
      (fun after => Within path entries after ∧ (entries path ≠ none → after = entries)) := by
  rw [copySandbox, settles_bind_ok (run_get entries)]
  split
  · exact ⟨within_refl path entries, fun _ => rfl⟩
  · rename_i hnone
    have hfresh : ∀ after : Entries, entries path ≠ none → after = entries :=
      fun _ h => absurd (Option.not_isSome_iff_eq_none.mp hnone) h
    cases o.sandbox with
    | none => exact ⟨within_refl path entries, hfresh _⟩
    | some tree =>
      refine settles_bind.mpr ((createDirAll_within o path entries).mono (fun _ made hmade => ?_)
        fun _ h => ⟨h, hfresh _⟩)
      rw [copyHostPath]
      cases o.copy with
      | none => exact ⟨hmade.graft (.inr tree.root), tree, rfl, fun r => by simp [graft]⟩
      | some part => exact ⟨hmade.graft (.inr part.root), hfresh _⟩

theorem removeDirAll_within : Within path entries (left (removeDirAll o path entries)) := by
  refine Settles.left (R := Within path entries) ?_
  rw [removeDirAll, settles_bind_ok (run_get entries)]
  split
  · exact within_refl path entries
  · cases o.remove with
    | none => exact (within_refl path entries).graft (.inl rfl)
    | some rest => exact (within_refl path entries).graft (.inr rest.root)
end

/-- Every entry but directories lies below the path of a name used, and the snapshots taken are
what was copied. -/
structure Kept (h : History) : Prop where
  placed : ∀ q e, h.entries q = some e → e ≠ .directory →
    ∃ id ∈ h.used, ∃ p, hostSnapshotArtifactPath id = .ok p ∧ p <+: q ∧ q ≠ p
  equal : ∀ id tree, h.taken id = some tree → id ∈ h.used ∧
    ∃ p, hostSnapshotArtifactPath id = .ok p ∧ ∀ r, h.entries (p ++ r) = tree.entries r

theorem not_within {id id' : Str} (hapart : apart id id')
    (hp : hostSnapshotArtifactPath id = .ok p) (hp' : hostSnapshotArtifactPath id' = .ok p')
    (hq : p' <+: q) : ¬p <+: q ∧ ¬q <+: p := by
  simp only [apart, hp, hp', Bool.and_eq_true, Bool.not_eq_true', ← Bool.not_eq_true,
    List.isPrefixOf_iff_prefix] at hapart
  refine ⟨fun h => ?_, fun h => hapart.2 (hq.trans h)⟩
  rcases List.prefix_or_prefix_of_prefix h hq with h | h
  · exact hapart.1 h
  · exact hapart.2 h

section
variable {h : History} {call : Call}

section
variable (hk : Kept h)
include hk

section
variable (hc : Careful h call) (hp : hostSnapshotArtifactPath call.id = .ok path)
include hc hp

theorem Kept.leadsAstray : leadsAstray h.entries path = false := by
  rw [HostSnapshots.leadsAstray, List.any_eq_false]
  intro q hq hany
  cases he : h.entries q with
  | none => simp [he] at hany
  | some e =>
    obtain ⟨id, hid, p, hpath, hbelow, hne⟩ := hk.placed q e he (by simpa [he] using hany)
    rw [List.mem_inits] at hq
    by_cases hsame : id = call.id
    · rw [hsame, hp] at hpath
      cases hpath
      exact hne (hbelow.eq_of_length (le_antisymm hbelow.length_le hq.length_le)).symm
    · exact (not_within (hc id hid hsame) hp hpath hbelow).2 hq

/-- A call that stays within its path changes no snapshot of another name. -/
theorem Kept.within
    (hw : Within path h.entries after) (hother : ∀ id, id ≠ call.id → taken id = h.taken id)
    (hown : ∀ tree, taken call.id = some tree → ∀ r, after (path ++ r) = tree.entries r) :
    Kept ⟨after, call.id :: h.used, taken⟩ := by
  constructor
  · intro q e hq he
    rcases hw q with hsame | ⟨hbelow, hat⟩ | ⟨-, -, hdirectory⟩
    · obtain ⟨id, hid, hrest⟩ := hk.placed q e (hsame ▸ hq) he
      exact ⟨id, List.mem_cons_of_mem _ hid, hrest⟩
    · refine ⟨call.id, List.mem_cons_self, path, hp, hbelow, fun heq => he ?_⟩
      rw [show after q = some e from hq] at hat
      simpa using hat heq
    · exact absurd (Option.some.inj (hq.symm.trans hdirectory)) he
  · intro id tree htaken
    by_cases hsame : id = call.id
    · subst hsame
      exact ⟨List.mem_cons_self, path, hp, hown tree htaken⟩
    · obtain ⟨hid, p, hpath, heq⟩ := hk.equal id tree (hother id hsame ▸ htaken)
      refine ⟨List.mem_cons_of_mem _ hid, p, hpath, fun r => ?_⟩
      have hout := not_within (hc id hid hsame) hp hpath (List.prefix_append p r)
      rcases hw (p ++ r) with h | h | h
      · exact h.trans (heq r)
      · exact absurd h.1 hout.1
      · exact absurd h.1 hout.2
end

theorem Kept.refused (hsub : ∀ id tree, taken id = some tree → h.taken id = some tree) :
    Kept ⟨h.entries, call.id :: h.used, taken⟩ where
  placed q e hq he := by
    obtain ⟨id, hid, hrest⟩ := hk.placed q e hq he
    exact ⟨id, List.mem_cons_of_mem _ hid, hrest⟩
  equal id tree htaken := by
    obtain ⟨hid, hrest⟩ := hk.equal id tree (hsub id tree htaken)
    exact ⟨List.mem_cons_of_mem _ hid, hrest⟩

theorem Kept.snapshot (hc : Careful h (.snapshot o sandboxId name)) :
    Kept (step root h (.snapshot o sandboxId name)) := by
  rw [step, HostSnapshots.snapshot]
  cases hp : hostSnapshotArtifactPath (idOf sandboxId name) with
  | error e => exact hk.refused fun _ _ htaken => htaken
  | ok path =>
    have hs := copySandbox_within o path h.entries sandboxId (idOf sandboxId name)
    rw [bind_of_ok run_ofExcept_ok, reach, run_bind, bind_of_ok (run_get _), hk.leadsAstray hc hp,
      if_neg Bool.false_ne_true]
    rw [Settles] at hs
    cases hcopy : copySandbox o sandboxId (idOf sandboxId name) path h.entries with
    | ok u after =>
      rw [hcopy] at hs
      obtain ⟨hw, tree, htree, heq⟩ := hs
      refine hk.within hc hp hw (fun id hid => Function.update_of_ne hid _ _) fun t ht => ?_
      rw [Function.update_self, htree] at ht
      cases ht
      exact heq
    | error e after =>
      rw [hcopy] at hs
      refine hk.within hc hp hs.1 (fun _ _ => rfl) fun tree ht r => ?_
      -- a snapshot that stands is at its path, so the call has changed nothing
      obtain ⟨-, p, hpath, heq⟩ := hk.equal _ tree ht
      cases hp.symm.trans hpath
      have hthere := heq []
      rw [List.append_nil, tree.root] at hthere
      rw [hs.2 (by rw [hthere]; simp), heq]

theorem Kept.deleteSnapshot (hc : Careful h (.deleteSnapshot o snapshotId)) :
    Kept (step root h (.deleteSnapshot o snapshotId)) := by
  have hgone : ∀ tree, Function.update h.taken snapshotId none snapshotId ≠ some tree := by simp
  rw [step, HostSnapshots.deleteSnapshot]
  cases hp : hostSnapshotArtifactPath snapshotId with
  | error e =>
    refine hk.refused fun id tree htaken => ?_
    by_cases hid : id = snapshotId
    · exact absurd (hid ▸ htaken) (hgone tree)
    · rwa [Call.id, Function.update_of_ne hid] at htaken
  | ok path =>
    rw [bind_of_ok run_ofExcept_ok, reach, bind_of_ok (run_get _), hk.leadsAstray hc hp]
    exact hk.within hc hp (removeDirAll_within o path h.entries)
      (fun id hid => Function.update_of_ne hid _ _) fun tree ht => absurd ht (hgone tree)

theorem Kept.step (hc : Careful h call) : Kept (step root h call) := by
  cases call with
  | snapshot o sandboxId name => exact hk.snapshot hc
  | deleteSnapshot o snapshotId => exact hk.deleteSnapshot hc
end
end

/-- While no name used is or lies inside another as a path, a snapshot that was taken and not
deleted holds the tree that was copied. -/
theorem snapshot_stays {root : Str} {before rest : List Call}
    (hcareful : Meets (step root) Careful {} (before ++ rest)) {id : Str} {tree : Tree}
    (htaken : (run (step root) {} before).taken id = some tree) :
    ∃ path, hostSnapshotArtifactPath id = .ok path ∧
      ∀ r, (run (step root) {} before).entries (path ++ r) = tree.entries r := by
  have hstart : Kept {} := ⟨fun _ _ h => (by cases h), fun _ _ h => (by cases h)⟩
  have hkept := (meets_append.mp hcareful).1.keeps (fun _ _ hk hc => hk.step hc) hstart
  exact (hkept.equal id tree htaken).2

def oneFile : Tree :=
  ⟨fun q => if q = [] then some .directory
    else if q = [str "f"] then some (.file (str "x")) else none, rfl⟩

def take (name : String) : Call := .snapshot { sandbox := some oneFile } (str "s") (some (str name))

/-- Two snapshots side by side, the second deleted. -/
theorem snapshot_stays_beside : ∃ path, hostSnapshotArtifactPath (str "a") = .ok path ∧
    ∀ r, (run (step []) {} [take "a", take "b", .deleteSnapshot {} (str "b")]).entries (path ++ r) =
      oneFile.entries r :=
  @snapshot_stays [] [take "a", take "b", .deleteSnapshot {} (str "b")] [] (by decide) _ _ rfl

/-- The second snapshot is copied into the first. -/
theorem snapshot_grows :
    (run (step []) {} [take "a", take "a/b"]).taken (str "a") = some oneFile ∧
    hostSnapshotArtifactPath (str "a") = .ok [str "a"] ∧ oneFile.entries [str "b"] = none ∧
    (run (step []) {} [take "a", take "a/b"]).entries [str "a", str "b"] = some .directory :=
  ⟨rfl, by decide, by decide, by decide⟩

end HostSnapshots
