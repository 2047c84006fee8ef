import Firkin.PodOverlays

/-! # Directories of a pod

Container and volume names are single path components, so their directories lie side by side,
except that a name may be a dot. -/
namespace PodPaths

open Ext4Types CoreTypes PodOverlays List

/-- Where a path leads. -/
def walk (path : Str) : List Str :=
  (path.splitOn slash).foldl (fun place component =>
    if component = [] ∨ component = dot then place
    else if component = str ".." then place.dropLast
    else place ++ [component]) []

def podEmptyDirPath (mount podId : Str) (name : ContainerId) : Except Error GuestPath :=
  podPath mount podId [str "emptydir", name.text]

def invalidReason (relativePath : Str) : Option Str :=
  if relativePath.isEmpty then some (str "path cannot be empty")
  else if relativePath.contains 0 then some (str "path cannot contain NUL")
  else if relativePath.head? = some slash then some (str "path must be relative")
  else if (relativePath.splitOn slash).any fun component =>
      component.isEmpty || component = dot || component = str ".." then
    some (str "path must be normalized")
  else none

def validateEmptyDirRelativePath (relativePath : Str) : Except Error Unit :=
  match invalidReason relativePath with
  | some reason => .error (.runtimeOperation (str "build pod emptyDir file path")
      (str "relative path `" ++ relativePath ++ str "` is invalid: " ++ reason))
  | none => .ok ()

def emptyDirFilePath (mount podId : Str) (name : ContainerId) (relativePath : Str) :
    Except Error GuestPath := do
  validateEmptyDirRelativePath relativePath
  let base ← podEmptyDirPath mount podId name
  GuestPath.new (base.text ++ slash :: relativePath)

/-- Neither equal nor one inside the other. -/
def Disjoint (p q : GuestPath) : Prop := ¬walk p.text <+: walk q.text ∧ ¬walk q.text <+: walk p.text

def Below (directory : Str) (p : GuestPath) : Prop :=
  walk directory <+: walk p.text ∧ walk directory ≠ walk p.text

/-- The directories of two containers and two volumes of a pod. -/
structure Isolated (mount podId : Str) (container container' volume volume' : GuestPath)
    (name : ContainerId) : Prop where
  disjoint : [container, container', volume, volume'].Pairwise Disjoint
  containers : ∀ p ∈ [container, container'], Below (joined mount podId [str "containers"]) p
  volumes : ∀ p ∈ [volume, volume'], Below (joined mount podId [str "emptydir"]) p
  files : ∀ relativePath p, emptyDirFilePath mount podId name relativePath = .ok p →
    Below volume.text p

/-! ### Where accepted paths lead -/

/-- Without `..` only dots are skipped. -/
theorem walk_eq_resolve (h : ∀ component ∈ path.splitOn slash, component ≠ str "..") :
    walk path = resolve path := by
  have hfold : ∀ (components place : List Str), (∀ component ∈ components, component ≠ str "..") →
      components.foldl (fun place component => if component = [] ∨ component = dot then place
        else if component = str ".." then place.dropLast else place ++ [component]) place =
      place ++ components.filter fun component => component ≠ [] ∧ component ≠ dot := by
    intro components
    induction components with
    | nil => simp
    | cons component components ih =>
      intro place hnone
      obtain ⟨hfirst, hrest⟩ := forall_mem_cons.mp hnone
      rw [foldl_cons, ih _ hrest, if_neg hfirst]
      by_cases hskip : component = [] ∨ component = dot
      · rw [if_pos hskip, filter_cons_of_neg (by simpa [or_iff_not_imp_left] using hskip)]
      · rw [if_neg hskip, filter_cons_of_pos (by simpa using not_or.mp hskip)]
        simp
  exact hfold _ [] h

theorem no_parent (p : GuestPath) : ∀ component ∈ p.text.splitOn slash, component ≠ str ".." := by
  have hvalid := p.valid
  unfold validateGuestPath at hvalid
  split_ifs at hvalid with _ _ _ habsolute hnormal
  rw [not_not] at habsolute
  obtain ⟨rest, hrest⟩ := head?_eq_some_iff.mp habsolute
  have hsplit : p.text.splitOn slash = [] :: rest.splitOn slash := by
    rw [hrest, splitOn, splitOnP_cons_eq_if_modifyHead]
    rfl
  rw [hsplit] at hnormal ⊢
  intro component hc
  rcases mem_cons.mp hc with rfl | hc
  · decide
  · rintro rfl
    exact hnormal (any_eq_true.mpr ⟨_, hc, by simp⟩)

/-- What stands before a component of an accepted path has no `..` either. -/
theorem walk_of_accepted {p : GuestPath} {path rest : Str} (h : p.text = path ++ slash :: rest) :
    walk p.text = resolve path ++ resolve rest ∧ walk path = resolve path := by
  have hnone := no_parent p
  refine ⟨by rw [walk_eq_resolve hnone, h, resolve_append], walk_eq_resolve fun c hc => ?_⟩
  rw [h, splitOn, splitOnP_append_cons _ _ (by decide)] at hnone
  exact hnone c (mem_append_left _ hc)

section
variable {mount podId : Str} {id : ContainerId} {p : GuestPath}

/-- The last component of a directory, unless it is a dot. -/
def last (id : ContainerId) : List Str := if id.text = dot then [] else [id.text]

theorem resolve_last {id} : resolve id.text = last id :=
  resolve_component id.slash_not_mem id.text_ne_nil

theorem below_iff (h : p.text = joined mount podId [part, id.text]) :
    Below (joined mount podId [part]) p ↔ id.text ≠ dot := by
  have hjoin : p.text = joined mount podId [part] ++ slash :: id.text := h
  obtain ⟨hp, hpart⟩ := walk_of_accepted hjoin
  rw [Below, hp, hpart, resolve_last, last]
  by_cases hdot : id.text = dot <;> simp [hdot]

theorem walk_directory (hpart : part = str "containers" ∨ part = str "emptydir")
    (h : p.text = joined mount podId [part, id.text]) :
    walk p.text = resolve (joined mount podId []) ++ part :: last id := by
  have hone : resolve part = [part] := by
    rcases hpart with rfl | rfl <;> decide
  rw [(walk_of_accepted h).1, resolve_last, append_cons, ← hone, ← resolve_append]
  rfl

/-- An accepted relative path leads somewhere. -/
theorem resolve_relative
    (h : validateEmptyDirRelativePath relativePath = .ok ()) : resolve relativePath ≠ [] := by
  have hnone : invalidReason relativePath = none := by
    unfold validateEmptyDirRelativePath at h
    split at h
    · cases h
    · assumption
  unfold invalidReason at hnone
  split_ifs at hnone with _ _ _ hnormal
  obtain ⟨first, hfirst⟩ := exists_mem_of_ne_nil _ (splitOn_ne_nil slash relativePath)
  have hgood : ¬(first.isEmpty || first = dot || first = str "..") = true :=
    fun hbad => hnormal (any_eq_true.mpr ⟨first, hfirst, hbad⟩)
  refine ne_nil_of_mem (mem_filter.mpr ⟨hfirst, ?_⟩)
  simp_all

/-- A file path goes on below its volume. -/
theorem below_of_file (hv : podEmptyDirPath mount podId id = .ok volume)
    (h : emptyDirFilePath mount podId id relativePath = .ok p) : Below volume.text p := by
  obtain ⟨_, hvalid, h⟩ := FaultMonad.except_bind_eq_ok.mp h
  rw [hv] at h
  obtain ⟨hp, hvolume⟩ := walk_of_accepted (GuestPath.new_text h)
  rw [Below, hp, hvolume]
  exact ⟨prefix_append _ _, by simpa using (resolve_relative hvalid).symm⟩
end

/-- The directories of two containers and two volumes of a pod are isolated exactly if no name is
a dot. -/
theorem isolated_iff {mount podId : Str} {c c' v v' : ContainerId} {l l' : PodContainerLayout}
    {e e' : GuestPath} (hc : c ≠ c') (hv : v ≠ v')
    (hl : PodContainerLayout.new mount podId c = .ok l)
    (hl' : PodContainerLayout.new mount podId c' = .ok l')
    (he : podEmptyDirPath mount podId v = .ok e) (he' : podEmptyDirPath mount podId v' = .ok e') :
    Isolated mount podId l.base l'.base e e' v ↔ ∀ id ∈ [c, c', v, v'], id.text ≠ dot := by
  have hbelow := below_iff (new_base hl)
  have hbelow' := below_iff (new_base hl')
  have hbelowE := below_iff (GuestPath.new_text he)
  have hbelowE' := below_iff (GuestPath.new_text he')
  constructor
  · intro h
    simp only [forall_mem_cons]
    exact ⟨hbelow.mp (h.containers _ (by simp)), hbelow'.mp (h.containers _ (by simp)),
      hbelowE.mp (h.volumes _ (by simp)), hbelowE'.mp (h.volumes _ (by simp)), by simp⟩
  · intro h
    simp only [forall_mem_cons] at h
    obtain ⟨h1, h2, h3, h4, -⟩ := h
    have htext : ∀ {a b : ContainerId}, a ≠ b → a.text ≠ b.text :=
      fun hne htext => hne (ContainerId.ext htext)
    have hcontainers : str "containers" ≠ str "emptydir" := by decide
    refine ⟨?_, ?_, ?_, fun relativePath p hp => below_of_file he hp⟩
    · simp [Disjoint, walk_directory (.inl rfl) (new_base hl),
        walk_directory (.inl rfl) (new_base hl'), walk_directory (.inr rfl) (GuestPath.new_text he),
        walk_directory (.inr rfl) (GuestPath.new_text he'), last, h1, h2, h3, h4, htext hc,
        htext hc.symm, htext hv, htext hv.symm, hcontainers, hcontainers.symm]
    · simpa using ⟨hbelow.mpr h1, hbelow'.mpr h2⟩
    · simpa using ⟨hbelowE.mpr h3, hbelowE'.mpr h4⟩

def dotId : ContainerId := ⟨dot, by decide +kernel⟩
def db : ContainerId := ⟨str "db", by decide +kernel⟩

/-- Names the constructors accept in a pod `pod-1`. -/
theorem accepted (id : ContainerId) (h : id ∈ [web.id, db, dotId]) :
    (∃ l, PodContainerLayout.new (str "/run/store") (str "pod-1") id = .ok l) ∧
      ∃ e, podEmptyDirPath (str "/run/store") (str "pod-1") id = .ok e := by
  rw [← isOk_iff, ← isOk_iff]
  revert id
  decide +kernel

theorem isolated_web_db : ∃ l l' e e',
    Isolated (str "/run/store") (str "pod-1") (PodContainerLayout.base l)
      (PodContainerLayout.base l') e e' web.id := by
  obtain ⟨⟨l, hl⟩, e, he⟩ := accepted web.id (by simp)
  obtain ⟨⟨l', hl'⟩, e', he'⟩ := accepted db (by simp)
  exact ⟨l, l', e, e', (isolated_iff (by decide) (by decide) hl hl' he he').mpr (by decide +kernel)⟩

/-- The directory of a container named by a dot is the one all others lie in. -/
theorem dot_not_isolated : ∃ l l' e e',
    PodContainerLayout.new (str "/run/store") (str "pod-1") dotId = .ok l ∧
    PodContainerLayout.new (str "/run/store") (str "pod-1") web.id = .ok l' ∧
    podEmptyDirPath (str "/run/store") (str "pod-1") web.id = .ok e ∧
    podEmptyDirPath (str "/run/store") (str "pod-1") db = .ok e' ∧
    ¬Isolated (str "/run/store") (str "pod-1") l.base l'.base e e' web.id := by
  obtain ⟨⟨l, hl⟩, -⟩ := accepted dotId (by simp)
  obtain ⟨⟨l', hl'⟩, e, he⟩ := accepted web.id (by simp)
  obtain ⟨-, e', he'⟩ := accepted db (by simp)
  refine ⟨l, l', e, e', hl, hl', he, he', fun h => ?_⟩
  exact (below_iff (new_base hl)).mp (h.containers _ (by simp)) rfl

end PodPaths
