import Firkin.AppleVz

/-! # Warm leases

The pools hold ids, the inner backend holds sessions, and nothing ties the two together. Pools
stay live exactly as long as no pooled sandbox is deleted behind the pool's back and every
delete of an eviction succeeds. -/
namespace AppleVzLeases

open Ext4Types SingleNode QueueMap AppleVz FaultMonad Multiset

def IsActive (s : AppleVzBackend) (id : Str) : Prop := (lookup id s.inner.active).isSome = true
def held (s : AppleVzBackend) : Multiset Str := flat s.warmPools

/-- What a call is to leave: pooled and leased sandboxes are active, and of those pooled before
an eviction each is still pooled or is gone. -/
structure Kept (s : AppleVzBackend) (e : Event) : Prop where
  live : ∀ id ∈ held (after s e), IsActive (after s e) id
  leased : ∀ lease t, perform e s = .ok (.lease lease) t → IsActive t lease.sandboxId
  evicted : ∀ key count, e.operation = .evict key count → ∀ id ∈ held s,
    id ∈ held (after s e) ∨ ¬IsActive (after s e) id

def AllKept (s : AppleVzBackend) : List Event → Prop
  | [] => True
  | e :: es => Kept s e ∧ AllKept (after s e) es

def Deletes (inner : Backend) (host : Host) : Prop :=
  inner.driver = true ∧ host.deleted = .ok () ∧ inner.persist host = .ok ()

def AllDelete (inner : Backend) (hosts : Nat → Str → Host) : Nat → List Str → Prop
  | _, [] => True
  | j, id :: ids => Deletes inner (hosts j id) ∧ AllDelete inner hosts (j + 1) ids

def Careful (s : AppleVzBackend) (e : Event) : Prop :=
  match e.operation with
  | .stopSandbox id | .killSandbox id | .deleteSandbox id =>
    id ∈ held s → ¬Deletes s.inner (e.hosts 0 0 id)
  | .evict key count => AllDelete s.inner (e.hosts 0) 0 (evictees s key count)
  | _ => True

def AllCareful (s : AppleVzBackend) : List Event → Prop
  | [] => True
  | e :: es => Careful s e ∧ AllCareful (after s e) es

instance (inner : Backend) (host : Host) : Decidable (Deletes inner host) :=
  inferInstanceAs (Decidable (_ ∧ _ ∧ _))

instance decidableAllDelete (inner : Backend) (hosts : Nat → Str → Host) :
    ∀ j ids, Decidable (AllDelete inner hosts j ids)
  | _, [] => .isTrue trivial
  | j, _ :: ids =>
    have := decidableAllDelete inner hosts (j + 1) ids
    inferInstanceAs (Decidable (_ ∧ _))

instance decidableCareful (s : AppleVzBackend) : (e : Event) → Decidable (Careful s e)
  | ⟨.stopSandbox id, hosts⟩ | ⟨.killSandbox id, hosts⟩ | ⟨.deleteSandbox id, hosts⟩ =>
    inferInstanceAs (Decidable (id ∈ held s → ¬Deletes s.inner (hosts 0 0 id)))
  | ⟨.evict key count, hosts⟩ => decidableAllDelete s.inner (hosts 0) 0 (evictees s key count)
  | ⟨.prepareTemplate _, _⟩ | ⟨.deleteTemplate _, _⟩ | ⟨.createSandbox _, _⟩
  | ⟨.restoreSandbox _, _⟩ | ⟨.prewarm _ _, _⟩ | ⟨.maintain _, _⟩ | ⟨.checkout _ _, _⟩ =>
    .isTrue trivial

instance decidableAllCareful : ∀ s es, Decidable (AllCareful s es)
  | _, [] => .isTrue trivial
  | s, e :: es =>
    have := decidableAllCareful (after s e) es
    inferInstanceAs (Decidable (_ ∧ _))

structure Pooled (s : AppleVzBackend) : Prop where
  counter : s.nextSandbox.toNat = s.allocated
  numbered : ∀ id ∈ held s, ∃ n, n ≤ s.allocated ∧ id = sandboxName n
  distinct : (held s).Nodup
  live : ∀ id ∈ held s, IsActive s id

variable {s : AppleVzBackend} {e : Event} {host : Host} {hosts : Nat → Str → Host} {id : Str}
  {inner : Backend}

theorem held_from (inner : Backend) : held (fromSingleNode inner) = 0 := rfl

theorem pooled_from (inner : Backend) : Pooled (fromSingleNode inner) where
  counter := rfl
  numbered id h := absurd (held_from inner ▸ h) (notMem_zero id)
  distinct := held_from inner ▸ nodup_zero
  live id h := absurd (held_from inner ▸ h) (notMem_zero id)

theorem Pooled.number (h : Pooled s) (hn : s.allocated + 1 < 2 ^ 64) : Pooled s.number where
  counter := (number_currentId h.counter hn).1
  numbered id hid := by
    obtain ⟨n, hle, he⟩ := h.numbered id hid
    exact ⟨n, Nat.le_succ_of_le hle, he⟩
  distinct := h.distinct
  live := h.live

theorem Pooled.withInner (h : Pooled s) (hlive : ∀ id ∈ held s, IsActive { s with inner } id) :
    Pooled { s with inner } :=
  ⟨h.counter, h.numbered, h.distinct, hlive⟩

theorem Pooled.launching (h : Pooled s) (hn : s.allocated + 1 < 2 ^ 64) : Pooled s.launching :=
  ⟨(h.number hn).counter, (h.number hn).numbered, h.distinct, h.live⟩

theorem isActive_upsert
    (h : (lookup id active).isSome = true) : (lookup id (upsert session active)).isSome = true := by
  rw [lookup_upsert]
  split
  · rfl
  · exact h

/-- A launch keeps the pools and makes its own sandbox active. -/
theorem Pooled.launches (h : Pooled s) (hl : Launches s t) (hn : t.allocated < 2 ^ 64) :
    Pooled t ∧ IsActive t s.number.currentId ∧ t.warmPools = s.warmPools := by
  have hn' : s.allocated + 1 < 2 ^ 64 := (Launches.allocated hl) ▸ hn
  obtain ⟨host, operation, request, created, inner, he, hid, hrun, rfl⟩ := hl
  obtain ⟨hcreated, scheduler, rfl⟩ := hrun.of_ok
  refine ⟨(h.launching hn').withInner fun id hid => isActive_upsert (h.live id hid), ?_, rfl⟩
  change (lookup s.number.currentId (upsert _ s.inner.active)).isSome = true
  have hsame : s.number.currentId = (record (host request.sandboxId) request created).sandboxId :=
    ((he _ created hcreated).trans hid).symm
  rw [lookup_upsert, if_pos hsame]
  rfl

theorem Pooled.shrink (h : Pooled s)
    (hm : (flat m : Multiset Str) ≤ held s) : Pooled { s with warmPools := m } where
  counter := h.counter
  numbered id hid := h.numbered id (mem_of_le hm hid)
  distinct := nodup_of_le hm h.distinct
  live id hid := h.live id (mem_of_le hm hid)

theorem Pooled.move (h : Pooled s) (hm : Move s t) (hn : t.allocated < 2 ^ 64) : Pooled t := by
  cases hm with
  | number => exact h.number hn
  | failed _ hrun =>
    obtain ⟨scheduler, rfl⟩ := hrun.of_error
    exact (h.launching hn).withInner h.live
  | launched hl => exact (h.launches hl hn).1
  | @warmed u key hl =>
    obtain ⟨hu, hactive, hpools⟩ := h.launches hl hn
    have hallocated : u.allocated = s.allocated + 1 := Launches.allocated hl
    have hname : s.number.currentId = sandboxName u.allocated := by
      rw [hallocated]
      exact (number_currentId h.counter (hallocated ▸ hn)).2
    have hnew : s.number.currentId ∉ held u := by
      intro hmem
      rw [held, hpools] at hmem
      obtain ⟨n, hle, he⟩ := h.numbered _ hmem
      have hsame := sandboxName_injective (hname.symm.trans he)
      omega
    have hheld : held (u.push key s.number.currentId) = s.number.currentId ::ₘ held u :=
      flat_push
    refine ⟨hu.counter, ?_, ?_, ?_⟩
    · rw [hheld]
      exact forall_mem_cons.mpr ⟨⟨_, Nat.le_refl _, hname⟩, hu.numbered⟩
    · rw [hheld]
      exact nodup_cons.mpr ⟨hnew, hu.distinct⟩
    · rw [hheld]
      exact forall_mem_cons.mpr ⟨hactive, hu.live⟩
  | taken hq => exact h.shrink ((le_add_right _ _).trans_eq (flat_cut hq).symm)

theorem Pooled.moves (h : Pooled s) (hm : Moves s t) (hn : t.allocated < 2 ^ 64) : Pooled t := by
  induction hm with
  | refl => exact h
  | tail _ hmove ih => exact (ih ((Step.allocated_le (.move hmove)).trans_lt hn)).move hmove hn

theorem delete_ok (ha : (lookup id inner.active).isSome = true) (hd : Deletes inner host) :
    delete host id inner = .ok () { inner with
      active := without id inner.active, scheduler := inner.scheduler.release id } := by
  have hex := KeyedList.find_isSome.mp ha
  have hspec := delete_spec inner host id
  generalize hr : delete host id inner = r at hspec
  cases hspec with
  | unknown hnone =>
    obtain ⟨session, hs, hid⟩ := hex
    exact absurd hid (hnone session hs)
  | undriven _ hdriver => cases hdriver.symm.trans hd.1
  | failed _ _ hdeleted => cases hdeleted.symm.trans hd.2.1
  | unpersisted _ _ _ hp => cases hp.symm.trans hd.2.2
  | done => rfl

theorem delete_error (hd : (lookup id inner.active).isSome = true → ¬Deletes inner host) :
    ∃ e, delete host id inner = .error e inner := by
  have hspec := delete_spec inner host id
  generalize hr : delete host id inner = r at hspec
  cases hspec with
  | done hex hdriver hdeleted hp =>
    exact absurd ⟨hdriver, hdeleted, hp⟩ (hd (KeyedList.find_isSome.mpr hex))
  | _ => exact ⟨_, rfl⟩

def removed (s : AppleVzBackend) (id : Str) : AppleVzBackend :=
  { s with inner := { s.inner with
      active := without id s.inner.active, scheduler := s.inner.scheduler.release id } }

theorem lookup_removed (id id' : Str) :
    lookup id' (removed s id).inner.active = if id' = id then none else lookup id' s.inner.active :=
  lookup_without id id' s.inner.active

theorem IsActive.removed (h : IsActive s id') (hne : id' ≠ id) : IsActive (removed s id) id' := by
  rw [IsActive, lookup_removed, if_neg hne]
  exact h

theorem onInner_delete_ok (operation : Str) (ha : IsActive s id) (hd : Deletes s.inner host) :
    onInner operation (delete host id) s = .ok () (removed s id) := by
  unfold onInner
  rw [delete_ok ha hd]
  rfl

theorem onInner_delete_error (operation : Str) (hd : IsActive s id → ¬Deletes s.inner host) :
    ∃ e, onInner operation (delete host id) s = .error e s := by
  obtain ⟨e, he⟩ := delete_error hd
  unfold onInner
  rw [he]
  exact ⟨_, rfl⟩

theorem allDelete_removed :
    AllDelete (removed s id).inner hosts j ids ↔ AllDelete s.inner hosts j ids := by
  induction ids generalizing j with
  | nil => exact Iff.rfl
  | cons id' ids ih => exact and_congr Iff.rfl ih

/-- An eviction whose deletes all go through takes exactly its sandboxes out; another one leaves
one of its sandboxes active. -/
theorem deleteAll_spec (hids : ids.Nodup) (hlive : ∀ id ∈ ids, IsActive s id) :
    (AllDelete s.inner hosts j ids → ∃ inner, left (deleteAll hosts j ids s) = { s with inner } ∧
      ∀ id, lookup id inner.active = if id ∈ ids then none else lookup id s.inner.active) ∧
    (¬AllDelete s.inner hosts j ids →
      ∃ id ∈ ids, IsActive (left (deleteAll hosts j ids s)) id) := by
  induction ids generalizing s j with
  | nil => exact ⟨fun _ => ⟨s.inner, rfl, fun id => by simp⟩, fun hnot => absurd trivial hnot⟩
  | cons id ids ih =>
    obtain ⟨hid, hids⟩ := List.nodup_cons.mp hids
    by_cases hhead : Deletes s.inner (hosts j id)
    · have hrest : ∀ id' ∈ ids, IsActive (removed s id) id' := fun id' hid' =>
        (hlive id' (List.mem_cons_of_mem id hid')).removed fun he => hid (he ▸ hid')
      rw [deleteAll, bind_of_ok (onInner_delete_ok _ (hlive id List.mem_cons_self) hhead)]
      refine ⟨fun hall => ?_, fun hnot => ?_⟩
      · obtain ⟨inner, hleft, hlookup⟩ := (ih hids hrest).1 (allDelete_removed.mpr hall.2)
        refine ⟨inner, hleft, fun id' => ?_⟩
        rw [hlookup, lookup_removed]
        by_cases he : id' = id <;> simp [he]
      · obtain ⟨id', hmem, hactive⟩ := (ih hids hrest).2 fun htail =>
          hnot ⟨hhead, allDelete_removed.mp htail⟩
        exact ⟨id', List.mem_cons_of_mem id hmem, hactive⟩
    · obtain ⟨e, he⟩ := @onInner_delete_error s _ id (str "evict warm sandboxes") fun _ => hhead
      rw [deleteAll, bind_of_error he]
      exact ⟨fun hall => absurd hall.1 hhead, fun _ =>
        ⟨id, List.mem_cons_self, hlive id List.mem_cons_self⟩⟩

theorem held_cut (s : AppleVzBackend) (key : Str) (count : Nat) :
    held s = held (cut s key count) + (evictees s key count : Multiset Str) :=
  flat_cut (List.take_append_drop _ _).symm

/-- The ids an eviction takes out are active, distinct, and held no more. -/
theorem Pooled.evictees (h : Pooled s) (key : Str) (count : Nat) :
    (evictees s key count).Nodup ∧
      ∀ id ∈ evictees s key count, IsActive s id ∧ id ∉ held (cut s key count) := by
  have hnodup := h.distinct
  rw [held_cut s key count, nodup_add] at hnodup
  refine ⟨coe_nodup.mp hnodup.2.1, fun id hid => ⟨h.live id ?_, fun hmem => ?_⟩⟩
  · rw [held_cut s key count]
    exact mem_add.mpr (.inr hid)
  · exact disjoint_left.mp hnodup.2.2 hmem hid

theorem perform_lease (h : perform e s = .ok (.lease lease) t) :
    ∃ templateId policy, e.operation = .checkout templateId policy ∧
      checkout (e.hosts 0 0) templateId policy s = .ok lease t := by
  obtain ⟨operation, hosts⟩ := e
  cases operation <;> obtain ⟨a, u, hrun, hpure⟩ := bind_eq_ok.mp h <;> cases hpure
  exact ⟨_, _, rfl, hrun⟩

theorem evict_kept (h : Pooled s) {key : Str} {count : Nat} {hosts}
    (hall : AllDelete s.inner (hosts 0) 0 (evictees s key count)) :
    Pooled (after s ⟨.evict key count, hosts⟩) ∧ Kept s ⟨.evict key count, hosts⟩ := by
  obtain ⟨hnodup, hout⟩ := h.evictees key count
  obtain ⟨inner, hleft, hlookup⟩ :=
    (@deleteAll_spec (cut s key count) _ _ 0 hnodup fun id hid => (hout id hid).1).1 hall
  have hafter := (after_evict key count hosts).trans hleft
  have hlive : ∀ id ∈ held (cut s key count), IsActive { cut s key count with inner } id := by
    intro id hid
    have hstays : id ∉ evictees s key count := fun hmem => (hout id hmem).2 hid
    rw [IsActive, hlookup, if_neg hstays]
    exact h.live id (by rw [held_cut s key count]; exact mem_add.mpr (.inl hid))
  have hcut : Pooled (cut s key count) :=
    h.shrink ((le_add_right _ _).trans_eq (held_cut s key count).symm)
  refine ⟨hafter ▸ hcut.withInner hlive, hafter ▸ hlive, ?_, ?_⟩
  · intro lease t hrun
    obtain ⟨_, _, hop, _⟩ := perform_lease hrun
    cases hop
  · rintro _ _ - id hid
    rw [hafter]
    rw [held_cut s key count] at hid
    rcases mem_add.mp hid with hid | hid
    · exact .inl hid
    · refine .inr ?_
      rw [IsActive, hlookup, if_pos (mem_coe.mp hid)]
      exact Bool.false_ne_true

theorem evict_careful (h : Pooled s) {key : Str} {count : Nat} {hosts}
    (hkept : Kept s ⟨.evict key count, hosts⟩) :
    AllDelete s.inner (hosts 0) 0 (evictees s key count) := by
  obtain ⟨hnodup, hout⟩ := h.evictees key count
  by_contra hall
  obtain ⟨id, hid, hactive⟩ :=
    (@deleteAll_spec (cut s key count) _ _ 0 hnodup fun id hid => (hout id hid).1).2 hall
  obtain ⟨inner, hleft⟩ := deleteAll_inner (hosts 0) 0 (evictees s key count) (cut s key count)
  have hmem : id ∈ held s := by
    rw [held_cut s key count]
    exact mem_add.mpr (.inr hid)
  have hgone := hkept.evicted key count rfl id hmem
  rw [after_evict] at hgone
  rcases hgone with hheld | hdead
  · rw [hleft] at hheld
    exact (hout id hid).2 hheld
  · exact hdead hactive

def ordinary : Operation → Bool
  | .checkout _ _ | .evict _ _ => false
  | _ => true

theorem kept_of_pooled (ho : ordinary e.operation = true) (hp : Pooled (after s e)) :
    Pooled (after s e) ∧ Kept s e := by
  refine ⟨hp, hp.live, ?_, ?_⟩
  · intro lease t hrun
    obtain ⟨templateId, policy, hop, -⟩ := perform_lease hrun
    rw [hop] at ho
    cases ho
  · intro key count hop
    rw [hop] at ho
    cases ho

section
variable (h : Pooled s)
include h

theorem delete_pooled (operation : Str) (hcareful : id ∈ held s → ¬Deletes s.inner host) :
    Pooled (left (onInner operation (delete host id) s)) := by
  by_cases hd : IsActive s id ∧ Deletes s.inner host
  · have hid : id ∉ held s := fun hmem => hcareful hmem hd.2
    rw [onInner_delete_ok operation hd.1 hd.2]
    exact h.withInner fun id' hid' => (h.live id' hid').removed fun he => hid (he ▸ hid')
  · obtain ⟨e, he⟩ := onInner_delete_error operation (not_and.mp hd)
    rw [he]
    exact h

theorem delete_careful (operation : Str)
    (hlive : ∀ id' ∈ held s, IsActive (left (onInner operation (delete host id) s)) id') :
    id ∈ held s → ¬Deletes s.inner host := by
  intro hid hd
  have hactive := hlive id hid
  rw [onInner_delete_ok operation (h.live id hid) hd] at hactive
  change (lookup id (removed s id).inner.active).isSome = true at hactive
  rw [lookup_removed, if_pos rfl] at hactive
  cases hactive

theorem delete_iff (ho : ordinary e.operation = true)
    (hafter : after s e = left (onInner operation (delete host id) s)) :
    ((id ∈ held s → ¬Deletes s.inner host) → Pooled (after s e) ∧ Kept s e) ∧
      (Kept s e → id ∈ held s → ¬Deletes s.inner host) := by
  refine ⟨fun hcareful => kept_of_pooled ho ?_, fun hkept => ?_⟩
  · rw [hafter]
    exact delete_pooled h operation hcareful
  · have hheld : held (after s e) = held s := by
      rw [hafter, onInner_left]
      rfl
    refine delete_careful h operation fun id' hid' => ?_
    have hlive := hkept.live id' (hheld ▸ hid')
    rwa [hafter] at hlive

theorem checkout_kept (he : Echoes e)
    (ho : e.operation = .checkout templateId policy) (hn : (after s e).allocated < 2 ^ 64) :
    Pooled (after s e) ∧ Kept s e := by
  have hp : Pooled (after s e) := h.moves (after_moves he (by rw [ho]; rfl)) hn
  refine ⟨hp, hp.live, ?_, ?_⟩
  · intro lease t hrun
    have ht : after s e = t := by
      unfold after
      rw [hrun]
      rfl
    obtain ⟨_, _, -, hcheckout⟩ := perform_lease hrun
    obtain ⟨u, ids, hsu, hq, rfl⟩ := (checkout_moves (he 0 0) _).of_ok hcheckout
    have hu : Pooled u := h.moves hsu (by rw [ht] at hn; exact hn)
    refine hu.live lease.sandboxId (mem_coe.mpr (mem_flat.mpr ⟨lease.key, ?_⟩))
    rw [hq]
    exact List.mem_append_right _ List.mem_cons_self
  · intro key count hop
    cases ho.symm.trans hop

/-- A call keeps the pools if it is careful, and otherwise spoils them at once. -/
theorem step_iff (he : Echoes e) (hn : (after s e).allocated < 2 ^ 64) :
    (Careful s e → Pooled (after s e) ∧ Kept s e) ∧ (Kept s e → Careful s e) := by
  have hquiet : ordinary e.operation = true → quiet e.operation = true →
      Pooled (after s e) ∧ Kept s e := fun ho hq =>
    kept_of_pooled ho (h.moves (after_moves he hq) hn)
  obtain ⟨operation, hosts⟩ := e
  cases operation with
  | prepareTemplate spec =>
    obtain ⟨m, hm⟩ := @after_prepareTemplate s spec hosts
    refine ⟨fun _ => kept_of_pooled rfl ?_, fun _ => trivial⟩
    rw [hm]
    exact ⟨h.counter, h.numbered, h.distinct, h.live⟩
  | deleteTemplate id =>
    exact ⟨fun _ => kept_of_pooled rfl ⟨h.counter, h.numbered, h.distinct, h.live⟩,
      fun _ => trivial⟩
  | stopSandbox | killSandbox | deleteSandbox =>
    exact delete_iff h rfl (left_map fun _ => Response.done)
  | checkout templateId policy => exact ⟨fun _ => checkout_kept h he rfl hn, fun _ => trivial⟩
  | evict key count => exact ⟨fun hall => evict_kept h hall, fun hkept => evict_careful h hkept⟩
  | _ => exact ⟨fun _ => hquiet rfl rfl, fun _ => trivial⟩
end

theorem leases_live_iff (inner : Backend) {es : List Event} (he : ∀ e ∈ es, Echoes e)
    (hn : (runAll (fromSingleNode inner) es).allocated < 2 ^ 64) :
    AllKept (fromSingleNode inner) es ↔ AllCareful (fromSingleNode inner) es := by
  have hp := pooled_from inner
  generalize fromSingleNode inner = s at hp hn
  induction es generalizing s with
  | nil => exact Iff.rfl
  | cons e es ih =>
    have hes : ∀ e' ∈ es, Echoes e' := fun e' h => he e' (List.mem_cons_of_mem e h)
    have hafter : (after s e).allocated < 2 ^ 64 :=
      (Steps.allocated_le (runAll_steps hes)).trans_lt hn
    obtain ⟨hkeeps, hcareful⟩ := step_iff hp (he e List.mem_cons_self) hafter
    constructor
    · rintro ⟨hkept, hrest⟩
      have hc := hcareful hkept
      exact ⟨hc, (ih hes (after s e) (hkeeps hc).1 hn).mp hrest⟩
    · rintro ⟨hc, hrest⟩
      exact ⟨(hkeeps hc).2, (ih hes (after s e) (hkeeps hc).1 hn).mpr hrest⟩

def empty : AppleVzBackend := fromSingleNode (.new ⟨4, ⟨8, 1099511627776⟩⟩ true true)

/-- Of three sandboxes that are made ready one is leased and stopped, and one is evicted. -/
def warmRun : List Event :=
  [prepareBase fun _ _ => obliging, ⟨.prewarm base 3, fun _ _ => obliging⟩,
    ⟨.checkout base .requireReady, fun _ _ => obliging⟩,
    ⟨.stopSandbox (sandboxName 3), fun _ _ => obliging⟩,
    ⟨.evict (str "template-base") 1, fun _ _ => obliging⟩]

theorem leases_live_warmRun :
    held (runAll empty warmRun) = {sandboxName 1} ∧
      (runAll empty warmRun).inner.active.map (·.sandboxId) = [sandboxName 1] ∧
      AllKept empty warmRun := by
  have hrun : held (runAll empty warmRun) = {sandboxName 1} ∧
      (runAll empty warmRun).inner.active.map (·.sandboxId) = [sandboxName 1] ∧
      (runAll empty warmRun).allocated < 2 ^ 64 := by decide +kernel
  have hechoes : ∀ e ∈ warmRun, Echoes e := by
    intro e he
    simp only [warmRun, List.mem_cons, List.not_mem_nil, or_false] at he
    rcases he with rfl | rfl | rfl | rfl | rfl <;> exact fun _ _ => obliging_echoes
  exact ⟨hrun.1, hrun.2.1, (leases_live_iff _ hechoes hrun.2.2).mpr (by decide +kernel)⟩

def meanwhile (operation : Operation) (host : Str → Host) : List Event :=
  [prepareBase fun _ _ => obliging, ⟨.prewarm base 1, fun _ _ => obliging⟩,
    ⟨operation, fun _ _ => host⟩]

def stopped : AppleVzBackend := runAll empty (meanwhile (.stopSandbox (sandboxName 1)) obliging)

def evictFailed : AppleVzBackend :=
  runAll empty (meanwhile (.evict (str "template-base") 1) fun id =>
    { obliging id with deleted := .error (.runtimeCommandFailed (str "busy")) })

/-- A pooled sandbox that is stopped stays in its pool, and an evicted one whose delete fails
is in no pool and still runs. -/
theorem pooled_sandbox_lost :
    (held stopped = {sandboxName 1} ∧ stopped.inner.active = []) ∧
      (held evictFailed = 0 ∧ evictFailed.inner.active.map (·.sandboxId) = [sandboxName 1]) := by
  decide +kernel

end AppleVzLeases
