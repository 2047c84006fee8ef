import Firkin.Ext4Types

/-! # Path normalisation

`normalize`, `split_parent` and `basename` work on strings. Every path names a
list of segments, and normalisation is exactly `keyOf` of that list, so the rest
of the development talks about segment lists. -/
namespace Ext4Path

open Ext4Types List

/-- The loop of `normalize`: collapse repeated slashes. -/
def collapseSlashes (out : Str) (prevSlash : Bool) : Str → Str
  | [] => out
  | ch :: rest =>
    if ch = slash then
      if prevSlash then collapseSlashes out prevSlash rest
      else collapseSlashes (out ++ [slash]) true rest
    else collapseSlashes (out ++ [ch]) false rest

def normalize (path : Str) : Str :=
  if path = [] then []
  else
    let out := collapseSlashes (if path.head? = some slash then [] else [slash]) false path
    let out := if out.length > 1 ∧ out.getLast? = some slash then out.dropLast else out
    if out = [slash] then [] else out

def splitParent (normalized : Str) : Str × Str :=
  let base := (normalized.reverse.takeWhile (· ≠ slash)).reverse
  if slash ∈ normalized then (normalized.take (normalized.length - base.length - 1), base)
  else ([], normalized)

def invalidBase (base : Str) : Bool := base = [] || base = str "." || base = str ".."

def basename (path : Str) : Except Ext4Error Str :=
  let base := (splitParent (normalize path)).2
  if invalidBase base then .error (.invalidFilename path) else .ok base

def whiteoutMarkerPath (path : Str) : Except Ext4Error Str :=
  let normalized := normalize path
  let (parent, base) := splitParent normalized
  if normalized = [] || invalidBase base then .error (.invalidFilename path)
  else if parent = [] then .ok (str "/.wh." ++ base)
  else .ok (parent ++ str "/.wh." ++ base)

def opaqueDirMarkerPath (path : Str) : Str :=
  let normalized := normalize path
  if normalized = [] then str "/.wh..wh..opq" else normalized ++ str "/.wh..wh..opq"

def splitSlash : Str → List Str
  | [] => [[]]
  | c :: cs =>
    if c = slash then [] :: splitSlash cs
    else match splitSlash cs with
      | [] => [[c]]
      | p :: ps => (c :: p) :: ps

def segments (path : Str) : List Str := (splitSlash path).filter (· ≠ [])

/-- The key of a segment list in `path_index`; the root's is empty. -/
def keyOf (segs : List Str) : Str := segs.flatMap (slash :: ·)
def Segment (s : Str) : Prop := s ≠ [] ∧ slash ∉ s
def ProperName (s : Str) : Prop := Segment s ∧ invalidBase s = false

@[simp] theorem keyOf_nil : keyOf [] = [] := rfl

@[simp] theorem keyOf_cons (s : Str) :
    keyOf (s :: segs) = slash :: s ++ keyOf segs := by simp [keyOf]

@[simp] theorem keyOf_append : keyOf (p ++ q) = keyOf p ++ keyOf q := by
  simp [keyOf]

theorem keyOf_eq_nil : keyOf p = [] ↔ p = [] := by
  cases p <;> simp

theorem splitSlash_ne_nil (p : Str) : splitSlash p ≠ [] := by
  cases p with
  | nil => simp [splitSlash]
  | cons c cs =>
    simp only [splitSlash]
    split
    · simp
    · split <;> simp

theorem mem_splitSlash (h : s ∈ splitSlash p) : slash ∉ s := by
  induction p generalizing s with
  | nil => simp only [splitSlash, mem_singleton] at h; subst h; simp
  | cons c cs ih =>
    simp only [splitSlash] at h
    split at h
    · rcases mem_cons.mp h with rfl | h
      · simp
      · exact ih h
    · next hc =>
      split at h
      · next he => exact absurd he (splitSlash_ne_nil cs)
      · next p ps he =>
        rcases mem_cons.mp h with rfl | h
        · have := ih (s := p) (by simp [he])
          simp only [mem_cons, not_or]
          exact ⟨fun h => hc h.symm, this⟩
        · exact ih (by simp [he, h])

theorem segments_segment (h : s ∈ segments p) : Segment s := by
  simp only [segments, mem_filter, decide_eq_true_eq] at h
  exact ⟨h.2, mem_splitSlash h.1⟩

theorem splitSlash_segment (h : slash ∉ s) (rest : Str) :
    splitSlash (s ++ slash :: rest) = s :: splitSlash rest := by
  induction s with
  | nil => simp [splitSlash]
  | cons c cs ih =>
    simp only [mem_cons, not_or] at h
    have hc : c ≠ slash := fun e => h.1 e.symm
    simp only [cons_append, splitSlash, if_neg hc, ih h.2]

theorem splitSlash_last (h : slash ∉ s) : splitSlash s = [s] := by
  induction s with
  | nil => rfl
  | cons c cs ih =>
    simp only [mem_cons, not_or] at h
    have hc : c ≠ slash := fun e => h.1 e.symm
    simp only [splitSlash, if_neg hc, ih h.2]

private theorem splitSlash_append_keyOf (h : ∀ s ∈ segs, slash ∉ s)
    (ht : slash ∉ t) : splitSlash (t ++ keyOf segs) = t :: segs := by
  induction segs generalizing t with
  | nil => simpa using splitSlash_last ht
  | cons s segs ih =>
    rw [keyOf_cons, cons_append, splitSlash_segment ht,
      ih (fun s hs => h s (by simp [hs])) (h s (by simp))]

theorem segments_keyOf_filter (h : ∀ s ∈ segs, slash ∉ s) :
    segments (keyOf segs) = segs.filter (· ≠ []) := by
  have hsplit := splitSlash_append_keyOf h (t := []) (by simp)
  rw [nil_append] at hsplit
  simp [segments, hsplit]

theorem segments_keyOf (h : ∀ s ∈ segs, Segment s) : segments (keyOf segs) = segs := by
  rw [segments_keyOf_filter fun s hs => (h s hs).2, filter_eq_self]
  exact fun s hs => decide_eq_true (h s hs).1

theorem keyOf_injective (hp : ∀ s ∈ p, Segment s) (hq : ∀ s ∈ q, Segment s)
    (h : keyOf p = keyOf q) : p = q := by
  rw [← segments_keyOf hp, h, segments_keyOf hq]

private def render (prevSlash : Bool) : Str → Str
  | [] => []
  | ch :: rest =>
    if ch = slash then
      if prevSlash then render prevSlash rest else slash :: render true rest
    else ch :: render false rest

private theorem collapseSlashes_eq (out : Str) (prev : Bool) (p : Str) :
    collapseSlashes out prev p = out ++ render prev p := by
  induction p generalizing out prev with
  | nil => simp [collapseSlashes, render]
  | cons c cs ih =>
    simp only [collapseSlashes, render]
    split
    · split
      · exact ih _ _
      · simp [ih]
    · simp [ih]

private def chop (out : Str) : Str :=
  if out.getLast? = some slash then out.dropLast else out

private theorem chop_cons (hc : c ≠ slash) (out : Str) : chop (c :: out) = c :: chop out := by
  cases out with
  | nil => simp [chop, hc]
  | cons d ds =>
    simp only [chop, getLast?_cons_cons]
    split <;> rfl

private theorem finish_eq_chop (out : Str) (h : out ≠ []) :
    (let o := if out.length > 1 ∧ out.getLast? = some slash then out.dropLast else out
      if o = [slash] then ([] : Str) else o) =
      if chop out = [slash] then [] else chop out := by
  match out, h with
  | [c], _ =>
    by_cases hc : c = slash <;> simp [chop, hc]
  | c :: d :: ds, _ => simp [chop]

private theorem chop_render (p : Str) :
    (∀ h t, splitSlash p = h :: t → chop (render false p) = h ++ keyOf (t.filter (· ≠ []))) ∧
    chop (slash :: render true p) = keyOf (segments p) := by
  induction p with
  | nil =>
    constructor
    · intro h t e
      obtain ⟨rfl, rfl⟩ := e
      simp [render, chop]
    · simp [render, chop, segments, splitSlash]
  | cons c cs ih =>
    by_cases hc : c = slash
    · subst hc
      have hk : keyOf (segments (slash :: cs)) = keyOf (segments cs) := by
        simp [segments, splitSlash]
      constructor
      · intro h t e
        obtain ⟨rfl, rfl⟩ := e
        simpa [render, segments] using ih.2
      · simpa [render, hk] using ih.2
    · obtain ⟨h', t', e'⟩ := exists_cons_of_ne_nil (splitSlash_ne_nil cs)
      have hr : ∀ b, chop (render b (c :: cs)) = c :: h' ++ keyOf (t'.filter (· ≠ [])) := by
        intro b
        simp only [render, if_neg hc, chop_cons hc, ih.1 h' t' e', cons_append]
      constructor
      · intro h t e
        simp only [splitSlash, if_neg hc, e'] at e
        obtain ⟨rfl, rfl⟩ := e
        exact hr false
      · have hne : render true (c :: cs) ≠ [] := by simp [render, hc]
        obtain ⟨d, ds, hd⟩ := exists_cons_of_ne_nil hne
        have hch : chop (slash :: render true (c :: cs)) =
          slash :: chop (render true (c :: cs)) := by
          rw [hd]
          simp only [chop, getLast?_cons_cons]
          split <;> rfl
        rw [hch, hr]
        simp [segments, splitSlash, hc, e']

theorem normalize_eq_keyOf (path : Str) : normalize path = keyOf (segments path) := by
  cases path with
  | nil => simp [normalize, segments, splitSlash]
  | cons c cs =>
    have hk := (chop_render (c :: cs)).2
    have hout : collapseSlashes (if (c :: cs).head? = some slash then [] else [slash]) false
        (c :: cs) = slash :: render true (c :: cs) := by
      rw [collapseSlashes_eq]
      by_cases hc : c = slash <;> simp [render, hc]
    simp only [normalize, hout]
    rw [finish_eq_chop _ (by simp), hk]
    by_cases he : keyOf (segments (c :: cs)) = [slash]
    · cases hs : segments (c :: cs) with
      | nil => simp [hs] at he
      | cons s ss =>
        have := segments_segment (p := c :: cs) (s := s) (by simp [hs])
        simp [hs, this.1] at he
    · simp [he]

theorem splitParent_keyOf (segs : List Str) (h : Segment s) :
    splitParent (keyOf (segs ++ [s])) = (keyOf segs, s) := by
  have hb : ((keyOf (segs ++ [s])).reverse.takeWhile (· ≠ slash)).reverse = s := by
    simp only [keyOf_append, keyOf_cons, keyOf_nil, append_nil, reverse_append, reverse_cons,
      append_assoc]
    rw [takeWhile_append_of_pos]
    · simp
    · intro a ha
      simp only [mem_reverse] at ha
      simp only [decide_not, Bool.not_eq_eq_eq_not, Bool.not_true, decide_eq_false_iff_not]
      exact fun e => h.2 (e ▸ ha)
  simp only [splitParent, hb]
  rw [if_pos (by simp)]
  have hl : (keyOf (segs ++ [s])).length - s.length - 1 = (keyOf segs).length := by
    simp only [keyOf_append, keyOf_cons, keyOf_nil, append_nil, length_append, length_cons]
    omega
  rw [hl, keyOf_append, take_left]

/-- The normal form of a path is that of its list of components. -/
theorem normalize_canonical (path other : Str) :
    normalize (normalize path) = normalize path ∧
    (∃ names, (∀ s ∈ names, Segment s) ∧ normalize path = keyOf names) ∧
    (normalize path = normalize other ↔ segments path = segments other) ∧
    (normalize path ≠ [] → ∃ parent base, segments path = segments parent ++ [base] ∧
      splitParent (normalize path) = (normalize parent, base)) := by
  have hpath : ∀ s ∈ segments path, Segment s := fun s hs => segments_segment hs
  have hother : ∀ s ∈ segments other, Segment s := fun s hs => segments_segment hs
  simp only [normalize_eq_keyOf]
  refine ⟨by rw [segments_keyOf hpath], ⟨_, hpath, rfl⟩,
    ⟨keyOf_injective hpath hother, congrArg keyOf⟩, fun hne => ?_⟩
  rcases eq_nil_or_concat' (segments path) with hnil | ⟨front, base, hsplit⟩
  · rw [hnil] at hne
    exact absurd keyOf_nil hne
  · rw [hsplit, forall_mem_append] at hpath
    rw [hsplit, splitParent_keyOf front (hpath.2 base mem_cons_self)]
    refine ⟨keyOf front, base, ?_, ?_⟩
    all_goals rw [segments_keyOf hpath.1]

end Ext4Path
