import Firkin.AppleVz

/-! # Template ids

The id generated for a template is a lossy rendering of its reference, and the registry is
keyed by it. Which references fall together is stated on the references themselves. -/
namespace AppleVzTemplates

open Ext4Types AppleVz FaultMonad

def plainByte (b : UInt8) : Bool :=
  97 ≤ b ∧ b ≤ 122 ∨ 65 ≤ b ∧ b ≤ 90 ∨ 48 ≤ b ∧ b ≤ 57 ∨ b = 46 ∨ b = 45

/-- What is left of a reference from its first to its last plain byte, up to 64 bytes. -/
def core (reference : Str) : Str :=
  ((reference.dropWhile (!plainByte ·)).rdropWhile (!plainByte ·)).take 64

def Alike (a b : Str) : Prop :=
  List.Forall₂ (fun x y => x = y ∨ plainByte x = false ∧ plainByte y = false) (core a) (core b)

def clean (b : UInt8) : UInt8 := if isIdByte b then b else underscore

theorem isIdByte_eq : isIdByte b = (plainByte b || decide (b = underscore)) := by
  rw [Bool.eq_iff_iff, Bool.or_eq_true, decide_eq_true_eq]
  simp only [isIdByte, plainByte, decide_eq_true_eq]
  tauto

theorem clean_plain (h : plainByte b = true) : clean b = b := by
  rw [clean, isIdByte_eq, h, Bool.true_or, if_pos rfl]

theorem clean_other (h : plainByte b = false) : clean b = underscore := by
  rw [clean, isIdByte_eq, h]
  split
  · next hb => exact of_decide_eq_true hb
  · rfl

theorem clean_eq_underscore (b : UInt8) : decide (clean b = underscore) = !plainByte b := by
  cases h : plainByte b with
  | false => simp [clean_other h]
  | true =>
    rw [clean_plain h]
    refine decide_eq_false ?_
    rintro rfl
    cases h

theorem plain_ne (hx : plainByte x = true) (hy : plainByte y = false) :
    clean x ≠ clean y ∧ x ≠ y := by
  rw [clean_plain hx, clean_other hy]
  refine ⟨?_, ?_⟩
  · rintro rfl
    cases hx
  · rintro rfl
    cases hx.symm.trans hy

theorem clean_eq_iff : clean x = clean y ↔ x = y ∨ plainByte x = false ∧ plainByte y = false := by
  cases hx : plainByte x with
  | true =>
    cases hy : plainByte y with
    | true => simp [clean_plain hx, clean_plain hy]
    | false => simp [plain_ne hx hy]
  | false =>
    cases hy : plainByte y with
    | true => simp [(plain_ne hy hx).1.symm, (plain_ne hy hx).2.symm]
    | false => simp [clean_other hx, clean_other hy]

theorem sanitizeIdValue_eq (raw : Str) : sanitizeIdValue raw = (core raw).map clean := by
  have hp : ((fun b => decide (b = underscore)) ∘ clean) = fun b => !plainByte b :=
    funext clean_eq_underscore
  unfold sanitizeIdValue core
  change (((raw.map clean).dropWhile _).rdropWhile _).take 64 = _
  rw [List.map_take, List.rdropWhile, List.rdropWhile, List.map_reverse, List.dropWhile_map,
    ← List.map_reverse, List.dropWhile_map, hp]

theorem sanitizeIdValue_eq_iff : sanitizeIdValue a = sanitizeIdValue b ↔ Alike a b := by
  rw [sanitizeIdValue_eq, sanitizeIdValue_eq, ← List.forall₂_eq_eq_eq, List.forall₂_map_left_iff,
    List.forall₂_map_right_iff]
  simp only [clean_eq_iff]
  rfl

instance (a b : Str) : Decidable (Alike a b) := decidable_of_iff _ sanitizeIdValue_eq_iff

/-- An id is generated for every reference with a plain byte. -/
theorem validate_sanitized (kind raw : Str) :
    validateId kind (sanitizeIdValue raw) =
      if core raw = [] then .error (.empty kind) else .ok (sanitizeIdValue raw) := by
  have hlength : (sanitizeIdValue raw).length ≤ 128 := by
    have h := List.length_take_le 64 ((raw.dropWhile (!plainByte ·)).rdropWhile (!plainByte ·))
    rw [sanitizeIdValue_eq, List.length_map, core]
    omega
  have hbytes : (sanitizeIdValue raw).all isIdByte = true := by
    rw [sanitizeIdValue_eq, List.all_map, List.all_eq_true]
    intro b _
    change isIdByte (clean b) = true
    cases h : plainByte b with
    | true => rw [clean_plain h, isIdByte_eq, h, Bool.true_or]
    | false =>
      rw [clean_other h]
      rfl
  have hnil : sanitizeIdValue raw = [] ↔ core raw = [] := by
    rw [sanitizeIdValue_eq, List.map_eq_nil_iff]
  unfold validateId
  by_cases h : core raw = []
  · rw [if_pos (hnil.mpr h), if_pos h]
  · rw [if_neg (fun he => h (hnil.mp he)), if_neg (by omega), if_pos hbytes, if_neg h]

/-- A template that is prepared comes from an image and gets a generated id. -/
def Generated (e : Event) : Prop :=
  match e.operation with
  | .prepareTemplate spec => spec.id = none ∧ ∃ reference, spec.source = .oci reference
  | .deleteTemplate _ => True
  | _ => Echoes e

/-- The templates handed out and not deleted since, after one more call. -/
def handedOut (s : AppleVzBackend) (e : Event) (live : List PreparedTemplate) :
    List PreparedTemplate :=
  match e.operation, perform e s with
  | .deleteTemplate id, _ => live.filter (·.id ≠ id)
  | _, .ok (.template prepared) _ => live ++ [prepared]
  | _, _ => live

def liveTemplates (s : AppleVzBackend) (live : List PreparedTemplate) :
    List Event → List PreparedTemplate
  | [] => live
  | e :: es => liveTemplates (after s e) (handedOut s e live) es

/-- A sandbox created from the template runs the image it was prepared from. -/
def Uses (s : AppleVzBackend) (p : PreparedTemplate) : Prop :=
  ∀ sandboxId resources deadline, ∃ request,
    createRequestFromSpec sandboxId (.template p.id resources deadline) s = .ok request s ∧
      p.source = .oci request.templateId

/-- Under the id of a live template the registry has a live template. -/
structure Registered (s : AppleVzBackend) (live : List PreparedTemplate) : Prop where
  found : ∀ p ∈ live, ∃ q ∈ live, s.templates[p.id]? = some q ∧ q.id = p.id
  generated : ∀ p ∈ live, ∃ reference, p.source = .oci reference ∧ p.id = sanitizeIdValue reference

variable {s : AppleVzBackend} {e : Event} {live : List PreparedTemplate} {p q : PreparedTemplate}

theorem uses_iff (hfound : s.templates[p.id]? = some q)
    (hq : q.source = .oci reference) : Uses s p ↔ p.source = .oci reference := by
  obtain ⟨id, source⟩ := q
  cases hq
  have hruntime : runtimeTemplateId p.id s = .ok reference s := runtimeTemplateId_oci hfound
  constructor
  · intro huses
    obtain ⟨request, hrun, hsource⟩ := huses [] none none
    rw [createRequestFromSpec_template none none hruntime] at hrun
    cases hrun
    exact hsource
  · intro hsource sandboxId resources deadline
    exact ⟨_, createRequestFromSpec_template resources deadline hruntime, hsource⟩

theorem Registered.uses_iff (h : Registered s live) :
    (∀ p ∈ live, Uses s p) ↔ ∀ p ∈ live, ∀ q ∈ live,
      Alike (sourceReference p.source) (sourceReference q.source) → p.source = q.source := by
  have hid : ∀ p ∈ live, p.id = sanitizeIdValue (sourceReference p.source) := by
    intro p hp
    obtain ⟨reference, hsource, hid⟩ := h.generated p hp
    rw [hsource]
    exact hid
  have huses : ∀ p ∈ live, ∀ q ∈ live, s.templates[p.id]? = some q →
      (Uses s p ↔ p.source = q.source) := by
    intro p hp q hq hfound
    obtain ⟨reference, hsource, -⟩ := h.generated q hq
    rw [AppleVzTemplates.uses_iff hfound hsource, hsource]
  constructor
  · intro hall p hp q hq halike
    have hsame : p.id = q.id := by
      rw [hid p hp, hid q hq]
      exact sanitizeIdValue_eq_iff.mpr halike
    obtain ⟨r, hr, hfound, -⟩ := h.found p hp
    have hp' := (huses p hp r hr hfound).mp (hall p hp)
    have hq' := (huses q hq r hr (hsame ▸ hfound)).mp (hall q hq)
    exact hp'.trans hq'.symm
  · intro halike p hp
    obtain ⟨q, hq, hfound, hqid⟩ := h.found p hp
    refine (huses p hp q hq hfound).mpr (halike p hp q hq ?_)
    rw [← sanitizeIdValue_eq_iff, ← hid p hp, ← hid q hq, hqid]

theorem registered_from (inner : SingleNode.Backend) : Registered (fromSingleNode inner) [] :=
  ⟨fun _ h => absurd h List.not_mem_nil, fun _ h => absurd h List.not_mem_nil⟩

def ofImage (reference : Str) : PreparedTemplate := ⟨sanitizeIdValue reference, .oci reference⟩

def register (s : AppleVzBackend) (reference : Str) : AppleVzBackend :=
  { s with templates := s.templates.insert (ofImage reference).id (ofImage reference) }

theorem prepareTemplate_generated (hid : spec.id = none) (hsource : spec.source = .oci reference) :
    (∃ error, prepareTemplate spec s = .error error s) ∨
      prepareTemplate spec s = .ok (ofImage reference) (register s reference) := by
  obtain ⟨id, source, dataPlane⟩ := spec
  cases hid
  cases hsource
  have hvalid := validate_sanitized (str "template id") reference
  cases dataPlane with
  | none =>
    change
    (∃ error, (raise (validateId (str "template id") (sanitizeIdValue reference)) >>= _) s = _) ∨
      (raise (validateId (str "template id") (sanitizeIdValue reference)) >>= _) s = _
    rw [hvalid]
    split
    · exact .inl ⟨_, rfl⟩
    · exact .inr rfl
  | envd inject =>
    left
    cases inject <;> exact ⟨_, rfl⟩

theorem Registered.prepare (h : Registered s live) (reference : Str) :
    Registered (register s reference) (live ++ [ofImage reference]) where
  found p hp := by
    by_cases he : p.id = (ofImage reference).id
    · refine ⟨_, List.mem_append_right _ List.mem_cons_self, ?_, he.symm⟩
      rw [he]
      exact Std.TreeMap.getElem?_insert_self
    · rcases List.mem_append.mp hp with hp | hp
      · obtain ⟨q, hq, hfound, hqid⟩ := h.found p hp
        refine ⟨q, List.mem_append_left _ hq, ?_, hqid⟩
        change (s.templates.insert _ _)[p.id]? = _
        rw [Std.TreeMap.getElem?_insert, if_neg fun hc => he (Std.compare_eq_iff_eq.mp hc).symm]
        exact hfound
      · rw [List.mem_singleton.mp hp] at he
        exact absurd rfl he
  generated p hp := by
    rcases List.mem_append.mp hp with hp | hp
    · exact h.generated p hp
    · rw [List.mem_singleton.mp hp]
      exact ⟨reference, rfl, rfl⟩

theorem Registered.delete (h : Registered s live) (id : Str) :
    Registered { s with templates := s.templates.erase id } (live.filter (·.id ≠ id)) where
  found p hp := by
    obtain ⟨hp, hne⟩ := List.mem_filter.mp hp
    have hne : p.id ≠ id := of_decide_eq_true hne
    obtain ⟨q, hq, hfound, hqid⟩ := h.found p hp
    refine ⟨q, List.mem_filter.mpr ⟨hq, decide_eq_true (hqid ▸ hne)⟩, ?_, hqid⟩
    rw [Std.TreeMap.getElem?_erase, if_neg fun hc => hne (Std.compare_eq_iff_eq.mp hc).symm]
    exact hfound
  generated p hp := h.generated p (List.mem_of_mem_filter hp)

theorem perform_template (h : perform e s = .ok (.template p) t) :
    registers e.operation = true := by
  obtain ⟨operation, hosts⟩ := e
  cases operation <;> obtain ⟨a, u, -, hpure⟩ := bind_eq_ok.mp h <;> cases hpure
  rfl

theorem handedOut_same (hr : registers e.operation = false) : handedOut s e live = live := by
  unfold handedOut
  split
  · next hop =>
    rw [hop] at hr
    cases hr
  · next hrun _ => cases hr.symm.trans (perform_template hrun)
  · rfl

theorem Registered.step (h : Registered s live) (he : Generated e) :
    Registered (after s e) (handedOut s e live) := by
  have hother : registers e.operation = false → Echoes e →
      Registered (after s e) (handedOut s e live) := by
    intro hr hechoes
    rw [handedOut_same hr]
    have htemplates := @after_templates s e hechoes hr
    exact ⟨fun p hp => by rw [htemplates]; exact h.found p hp, h.generated⟩
  obtain ⟨operation, hosts⟩ := e
  cases operation with
  | prepareTemplate spec =>
    obtain ⟨hid, reference, hsource⟩ := he
    rcases @prepareTemplate_generated s spec reference hid hsource with ⟨error, hrun⟩ | hrun
    · have hperform : perform ⟨.prepareTemplate spec, hosts⟩ s = .error error s :=
        bind_of_error hrun
      unfold after handedOut
      rw [hperform]
      exact h
    · have hperform := bind_of_ok (f := fun p => pure (Response.template p)) hrun
      change perform ⟨.prepareTemplate spec, hosts⟩ s = _ at hperform
      unfold after handedOut
      rw [hperform]
      exact h.prepare reference
  | deleteTemplate id => exact h.delete id
  | _ => exact hother rfl he

theorem Registered.run (h : Registered s live) (he : ∀ e ∈ es, Generated e) :
    Registered (runAll s es) (liveTemplates s live es) := by
  induction es generalizing s live with
  | nil => exact h
  | cons e es ih =>
    exact ih (h.step (he e List.mem_cons_self)) fun e' h' => he e' (List.mem_cons_of_mem e h')

theorem template_source_iff (inner : SingleNode.Backend) {es : List Event}
    (he : ∀ e ∈ es, Generated e) :
    (∀ p ∈ liveTemplates (fromSingleNode inner) [] es, Uses (runAll (fromSingleNode inner) es) p) ↔
      ∀ p ∈ liveTemplates (fromSingleNode inner) [] es,
        ∀ q ∈ liveTemplates (fromSingleNode inner) [] es,
          Alike (sourceReference p.source) (sourceReference q.source) → p.source = q.source :=
  ((registered_from inner).run he).uses_iff

def prepareAll (references : List Str) : List Event :=
  references.map fun reference => ⟨.prepareTemplate { source := .oci reference },
    fun _ _ => obliging⟩

theorem prepareAll_generated (h : e ∈ prepareAll references) : Generated e := by
  obtain ⟨reference, -, rfl⟩ := List.mem_map.mp h
  exact ⟨rfl, reference, rfl⟩

def empty : AppleVzBackend := fromSingleNode (.new ⟨4, ⟨8, 1099511627776⟩⟩ true true)

theorem template_source_tags :
    (liveTemplates empty [] (prepareAll [str "alpine:3.19", str "alpine:3.20"])).length = 2 ∧
      ∀ p ∈ liveTemplates empty [] (prepareAll [str "alpine:3.19", str "alpine:3.20"]),
        Uses (runAll empty (prepareAll [str "alpine:3.19", str "alpine:3.20"])) p := by
  refine ⟨by decide +kernel, (template_source_iff _ fun e => prepareAll_generated).mpr ?_⟩
  decide +kernel

/-- Two images under one id: a sandbox from the first template runs the second image. -/
theorem references_share_id :
    liveTemplates empty [] (prepareAll [str "a/b", str "a_b"]) =
        [⟨str "a_b", .oci (str "a/b")⟩, ⟨str "a_b", .oci (str "a_b")⟩] ∧
      (runAll empty (prepareAll [str "a/b", str "a_b"])).templates[str "a_b"]? =
        some ⟨str "a_b", .oci (str "a_b")⟩ ∧
      ¬Uses (runAll empty (prepareAll [str "a/b", str "a_b"])) ⟨str "a_b", .oci (str "a/b")⟩ := by
  have hfound : (runAll empty (prepareAll [str "a/b", str "a_b"])).templates[str "a_b"]? =
      some ⟨str "a_b", .oci (str "a_b")⟩ := by decide +kernel
  rw [uses_iff hfound rfl]
  decide

end AppleVzTemplates
