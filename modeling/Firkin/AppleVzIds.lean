import Firkin.AppleVz

/-! # Sandbox ids

Every wrapper counts from zero, while the backend it wraps may hold sessions from before. Ids
stay fresh exactly as long as no recovered session has one of the ids still to come. -/
namespace AppleVzIds

open Ext4Types SingleNode AppleVz FaultMonad AppleVzBackend

def Fresh (s : AppleVzBackend) : Prop := ∀ l ∈ s.launches, l.taken = false

structure Numbered (recovered : List ActiveSessionRecord) (s : AppleVzBackend) : Prop where
  counter : s.nextSandbox.toNat = s.allocated
  ids : ∀ session ∈ s.inner.active, (∃ old ∈ recovered, old.sandboxId = session.sandboxId) ∨
    ∃ n, 1 ≤ n ∧ n ≤ s.allocated ∧ session.sandboxId = sandboxName n
  fresh : Fresh s

variable {recovered : List ActiveSessionRecord} {s : AppleVzBackend} {k : Nat}

theorem numbered_from (inner : Backend) : Numbered inner.active (fromSingleNode inner) where
  counter := rfl
  ids session h := .inl ⟨session, h, rfl⟩
  fresh _ h := absurd h List.not_mem_nil

theorem Numbered.withInner (h : Numbered recovered s) {inner : Backend}
    (hids : ∀ session ∈ inner.active, session ∈ s.inner.active ∨
      ∃ n, 1 ≤ n ∧ n ≤ s.allocated ∧ session.sandboxId = sandboxName n) :
    Numbered recovered { s with inner } where
  counter := h.counter
  ids session hs := (hids session hs).elim (h.ids session) .inr
  fresh := h.fresh

section
variable (hfree : ∀ old ∈ recovered, ∀ n, 1 ≤ n → n ≤ k → old.sandboxId ≠ sandboxName n)
  (hk : k < 2 ^ 64)

include hfree hk

theorem Numbered.next_free (h : Numbered recovered s) (hn : s.allocated + 1 ≤ k) :
    lookup s.number.currentId s.inner.active = none := by
  refine KeyedList.find_none.mpr fun session hs he => ?_
  rw [(number_currentId h.counter (by omega)).2] at he
  rcases h.ids session hs with ⟨old, hold, hid⟩ | ⟨n, -, hle, hid⟩
  · exact hfree old hold _ (by omega) hn (hid.trans he)
  · have hsame := sandboxName_injective (hid.symm.trans he)
    omega

omit hfree in
theorem Numbered.number (h : Numbered recovered s) (hn : s.allocated + 1 ≤ k) :
    Numbered recovered s.number where
  counter := (number_currentId h.counter (by omega)).1
  ids session hs := (h.ids session hs).imp_right fun ⟨n, h1, hle, hid⟩ =>
    ⟨n, h1, Nat.le_succ_of_le hle, hid⟩
  fresh := h.fresh

section
variable (h : Numbered recovered s)
include h

theorem Numbered.launching (hn : s.allocated + 1 ≤ k) : Numbered recovered s.launching where
  counter := (h.number hk hn).counter
  ids := (h.number hk hn).ids
  fresh l hl := by
    rcases List.mem_append.mp hl with hl | hl
    · exact h.fresh l hl
    · rw [List.mem_singleton.mp hl, h.next_free hfree hk hn]
      rfl

theorem Numbered.launches (hl : Launches s t) (hn : t.allocated ≤ k) : Numbered recovered t := by
  have hn' : s.allocated + 1 ≤ k := (Launches.allocated hl) ▸ hn
  obtain ⟨host, operation, request, created, inner, he, hid, hrun, rfl⟩ := hl
  obtain ⟨hcreated, scheduler, rfl⟩ := hrun.of_ok
  refine (h.launching hfree hk hn').withInner fun session hs => ?_
  rcases List.mem_append.mp hs with hs | hs
  · exact .inl (KeyedList.mem_drop.mp hs).1
  · refine .inr ⟨s.allocated + 1, by omega, le_refl _, ?_⟩
    rw [List.mem_singleton.mp hs, ← (number_currentId h.counter (by omega)).2, ← hid]
    exact he _ created hcreated

theorem Numbered.step (hst : Step s t) (hn : t.allocated ≤ k) : Numbered recovered t := by
  cases hst with
  | move hm =>
    cases hm with
    | number => exact h.number hk hn
    | failed _ hrun =>
      obtain ⟨scheduler, rfl⟩ := hrun.of_error
      exact (h.launching hfree hk hn).withInner fun session hs => .inl hs
    | launched hl => exact h.launches hfree hk hl hn
    | warmed key hl =>
      have ht := h.launches hfree hk hl hn
      exact ⟨ht.counter, ht.ids, ht.fresh⟩
    | taken => exact ⟨h.counter, h.ids, h.fresh⟩
  | templates | warmPools => exact ⟨h.counter, h.ids, h.fresh⟩
  | delete hd =>
    refine h.withInner fun session hs => .inl ?_
    rcases hd.active with ha | ha
    · exact ha ▸ hs
    · rw [ha] at hs
      exact (KeyedList.mem_drop.mp hs).1

theorem Numbered.steps (hst : Steps s t) (hn : t.allocated ≤ k) : Numbered recovered t := by
  induction hst with
  | refl => exact h
  | tail _ hstep ih => exact (ih ((Step.allocated_le hstep).trans hn)).step hfree hk hstep hn
end
end

/-- A create that takes an id and fails: a snapshot has to be restored instead. -/
def wasted (hosts : Nat → Nat → Str → Host) : Event := ⟨.createSandbox (.snapshot []), hosts⟩

theorem after_wasted (hosts : Nat → Nat → Str → Host) : after s (wasted hosts) = s.number := by
  change left ((createSandbox (hosts 0 0) (.snapshot []) >>= fun info =>
    pure (Response.sandbox info)) s) = _
  rw [left_map, createSandbox, bind_of_ok nextSandboxId_eq]
  rfl

theorem runAll_wasted (hosts : Nat → Nat → Str → Host) (n : Nat) :
    runAll s (List.replicate n (wasted hosts)) = number^[n] s := by
  induction n generalizing s with
  | zero => rfl
  | succ n ih =>
    rw [Function.iterate_succ_apply, ← ih]
    exact congrArg (runAll · _) (after_wasted hosts)

theorem number_iterate (hc : s.nextSandbox.toNat = s.allocated) (hn : s.allocated + n < 2 ^ 64) :
    (number^[n] s).inner = s.inner ∧
      (number^[n] s).allocated = s.allocated + n ∧
      (number^[n] s).nextSandbox.toNat = s.allocated + n := by
  induction n with
  | zero => exact ⟨rfl, rfl, hc⟩
  | succ n ih =>
    obtain ⟨hinner, hallocated, hnext⟩ := ih (by omega)
    have hnumber := number_currentId (hnext.trans hallocated.symm) (by omega)
    rw [Function.iterate_succ_apply']
    refine ⟨hinner, congrArg (· + 1) hallocated, ?_⟩
    rw [hnumber.1, hallocated, Nat.add_assoc]

def createBase (hosts : Nat → Nat → Str → Host) : Event :=
  ⟨.createSandbox (.template base none none), hosts⟩

theorem after_prepareBase :
    after s (prepareBase hosts) =
      { s with templates := s.templates.insert base ⟨base, .oci base⟩ } := by
  have hvalid : validateId (str "template id") (templateIdFromSource (.oci base)) = .ok base := by
    decide
  change left ((prepareTemplate { source := .oci base } >>= fun p =>
    pure (Response.template p)) s) = _
  rw [prepareTemplate]
  rw [hvalid]
  rfl

/-- A create from a known template launches a sandbox under the next id. -/
theorem after_createBase (hosts : Nat → Nat → Str → Host)
    (ht : s.templates[base]? = some ⟨base, .oci base⟩) :
    ∃ inner, after s (createBase hosts) = { s.launching with inner } := by
  have hruntime : runtimeTemplateId base s.number = .ok base s.number := runtimeTemplateId_oci ht
  have hnote : noteLaunch s.number.currentId s.number = .ok ⟨⟩ s.launching := rfl
  change ∃ inner, left ((createSandbox (hosts 0 0) (.template base none none) >>= fun info =>
    pure (Response.sandbox info)) s) = _
  rw [left_map, createSandbox, bind_of_ok nextSandboxId_eq,
    bind_of_ok (createRequestFromSpec_template none none hruntime), bind_of_ok hnote]
  refine Settles.left (R := fun t => ∃ inner, t = { s.launching with inner }) ?_
  refine settles_onInner.bind ?_
  rintro created t ⟨inner, rfl⟩
  refine reads_inspectSandbox.settles.mono ?_ ?_
  · rintro info u ⟨rfl, -⟩
    exact ⟨inner, rfl⟩
  · rintro u rfl
    exact ⟨inner, rfl⟩

/-- The run that uses up `n` ids and launches a sandbox under the next one. -/
def collision (n : Nat) : List Event :=
  List.replicate n (wasted fun _ _ => obliging) ++
    [prepareBase fun _ _ => obliging, createBase fun _ _ => obliging]

theorem collision_echoes (h : e ∈ collision n) : Echoes e := by
  rcases List.mem_append.mp h with h | h
  · rw [List.eq_of_mem_replicate h]
    exact fun _ _ => obliging_echoes
  · rcases List.mem_pair.mp h with rfl | rfl <;> exact fun _ _ => obliging_echoes

theorem runAll_collision (inner : Backend) (hn : n + 1 < 2 ^ 64) :
    (runAll (fromSingleNode inner) (collision n)).allocated = n + 1 ∧
      ⟨sandboxName (n + 1), (lookup (sandboxName (n + 1)) inner.active).isSome⟩ ∈
        (runAll (fromSingleNode inner) (collision n)).launches := by
  obtain ⟨hinner, hallocated, hnext⟩ := @number_iterate (fromSingleNode inner) n rfl (by
    change 0 + n < 2 ^ 64
    omega)
  change _ = 0 + n at hallocated hnext
  rw [Nat.zero_add] at hallocated hnext
  have hsplit : runAll (fromSingleNode inner) (collision n) =
      after (after (number^[n] (fromSingleNode inner))
        (prepareBase fun _ _ => obliging)) (createBase fun _ _ => obliging) := by
    rw [← runAll_wasted fun _ _ => obliging, runAll, collision, List.foldl_append]
    rfl
  rw [hsplit, after_prepareBase]
  generalize number^[n] (fromSingleNode inner) = t at *
  obtain ⟨inner', hcreate⟩ :=
    @after_createBase { t with templates := t.templates.insert base ⟨base, .oci base⟩ }
      (fun _ _ => obliging) Std.TreeMap.getElem?_insert_self
  have hid := (number_currentId (hnext.trans hallocated.symm) (by omega)).2
  rw [hcreate]
  refine ⟨congrArg (· + 1) hallocated, List.mem_append_right _ (List.mem_singleton.mpr ?_)⟩
  change _ = (⟨t.number.currentId, (lookup t.number.currentId t.inner.active).isSome⟩ : Launch)
  rw [hid, hallocated, hinner]
  rfl

theorem fresh_ids_iff (inner : Backend) (hk : k < 2 ^ 64) :
    (∀ es, (∀ e ∈ es, Echoes e) → (runAll (fromSingleNode inner) es).allocated ≤ k →
        Fresh (runAll (fromSingleNode inner) es)) ↔
      ∀ session ∈ inner.active, ∀ n, 1 ≤ n → n ≤ k → session.sandboxId ≠ sandboxName n := by
  constructor
  · intro hfresh session hs n h1 hn hid
    obtain ⟨n, rfl⟩ := Nat.exists_eq_add_of_le' h1
    obtain ⟨hallocated, hlaunch⟩ := runAll_collision inner (show n + 1 < 2 ^ 64 by omega)
    have hfalse := hfresh (collision n) (fun e => collision_echoes) (hallocated ▸ hn) _ hlaunch
    have htaken : (lookup (sandboxName (n + 1)) inner.active).isSome = true :=
      KeyedList.find_isSome.mpr ⟨session, hs, hid⟩
    cases hfalse.symm.trans htaken
  · intro hfree es he hn
    exact ((numbered_from inner).steps hfree hk (runAll_steps he) hn).fresh

def restarted (sandboxId : Str) : Backend :=
  left (reconcileActiveState (obliging sandboxId) (fun _ => .ok true)
    { Backend.new ⟨4, ⟨8, 1099511627776⟩⟩ true true with
      active := [⟨sandboxId, str "old", str "client", none, 0, 60, ⟨1, 1073741824⟩, true⟩] })

theorem fresh_ids_renamed : 1000 < 2 ^ 64 ∧ ∀ es, (∀ e ∈ es, Echoes e) →
      (runAll (fromSingleNode (restarted (str "kept"))) es).allocated ≤ 1000 →
        Fresh (runAll (fromSingleNode (restarted (str "kept"))) es) := by
  refine ⟨by decide, (fresh_ids_iff (restarted (str "kept")) (by decide)).mpr ?_⟩
  intro session hs n _ _ he
  have hid : session.sandboxId = str "kept" := by
    have hall : ∀ session ∈ (restarted (str "kept")).active, session.sandboxId = str "kept" := by
      decide +kernel
    exact hall session hs
  have hk : (str "kept").head? = some 107 := by decide
  have hs : (str "sbx_firkin_").head? = some 115 := by decide
  have hhead := congrArg List.head? (hid.symm.trans he)
  cases hhead

/-- The first create after a restart takes over the record of a session that is still running. -/
theorem recovered_session_replaced :
    (restarted (sandboxName 1)).active.map (·.templateId) = [str "old"] ∧
    (runAll (fromSingleNode (restarted (sandboxName 1))) (collision 0)).launches =
      [⟨sandboxName 1, true⟩] ∧
    (runAll (fromSingleNode (restarted (sandboxName 1))) (collision 0)).inner.active.map
      (fun session => (session.sandboxId, session.templateId)) = [(sandboxName 1, base)] := by
  decide +kernel

end AppleVzIds
