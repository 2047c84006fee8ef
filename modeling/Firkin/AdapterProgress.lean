import Firkin.AdapterLocks

/-! # Every call completes

While no `stop` or vsock connection meets an endless command of its sandbox, whoever holds the
state lock is going to give it back, and every call but those that need the session of an
endless command completes in every fair schedule. -/
namespace AdapterProgress

open Interleaving AdapterLocks Option

abbrev Meets (w : Adapter) (e : Event Request Bool) : Prop := unobstructed w e = true

structure Orderly (w : Adapter) : Prop where
  owned : ∀ l c, w.shared.owner l = some c → ∃ p, w.calls[c]? = some p ∧ l ∈ p.held
  held : ∀ (c : Nat) p l, w.calls[c]? = some p → l ∈ p.held → w.shared.owner l = some c
  nodup : ∀ (c : Nat) p, w.calls[c]? = some p → p.held.Nodup
  scripted : ∀ (c : Nat) p, w.calls[c]? = some p → p.Scripted
  apart : ∀ (c d : Nat) p q i, w.calls[c]? = some p → w.calls[d]? = some q →
    p.request.nested = true → .state ∈ p.held → p.request.sandbox = some i → q.runs i = false

section
variable {w : Adapter} {s' : Shared} {c : Nat} {p p' : Phase}

theorem orderly_initial (active : List Nat) (available : Nat) :
    Orderly (initial active available) where
  owned := nofun
  held := nofun
  nodup := nofun
  scripted := nofun
  apart := nofun

theorem runs_enter (request : Request) (i : Nat) : (enter request).runs i = false := by
  simp [Phase.runs, enter]

theorem not_runs_of_nested (h : p.request.nested = true) (i : Nat) : p.runs i = false := by
  simp only [Phase.runs, Bool.and_eq_false_iff, decide_eq_false_iff_not]
  refine .inl (.inl fun hr => ?_)
  rw [hr] at h
  cases h

theorem Orderly.call (h : Orderly w) (request : Request) :
    Orderly ⟨w.shared, w.calls ++ [enter request]⟩ where
  owned l c hl := by
    obtain ⟨p, hp, hmem⟩ := h.owned l c hl
    exact ⟨p, List.getElem?_append_left (List.getElem?_eq_some_iff.mp hp).1 ▸ hp, hmem⟩
  held c p l hp hl := by
    rcases getElem?_append_one hp with rfl | hp
    · cases hl
    · exact h.held c p l hp hl
  nodup c p hp := by
    rcases getElem?_append_one hp with rfl | hp
    · exact .nil
    · exact h.nodup c p hp
  scripted c p hp := by
    rcases getElem?_append_one hp with rfl | hp
    · exact scripted_enter request
    · exact h.scripted c p hp
  apart c d p q i hp hq hn hs hi := by
    rcases getElem?_append_one hq with rfl | hq
    · exact runs_enter request i
    · rcases getElem?_append_one hp with rfl | hp
      · cases hs
      · exact h.apart c d p q i hp hq hn hs hi

section
variable (h : Orderly w) (hp : w.calls[c]? = some p) (hm : Moved c w.shared s' p p')
include h hp hm

theorem owned_moved (hl : s'.owner l = some d) :
    ∃ q, (w.calls.set c p')[d]? = some q ∧ l ∈ q.held := by
  have hself : (w.calls.set c p')[c]? = some p' :=
    getElem?_set_at hp
  -- a lock owned before the move is still held by its owner unless the move gave it back
  have hold : w.shared.owner l = some d → (l ∈ p.held → l ∈ p'.held) →
      ∃ q, (w.calls.set c p')[d]? = some q ∧ l ∈ q.held := by
    intro hl hkeep
    obtain ⟨q, hq, hmem⟩ := h.owned l d hl
    by_cases hdc : d = c
    · subst hdc
      cases hp.symm.trans hq
      exact ⟨p', hself, hkeep hmem⟩
    · exact ⟨q, by rw [List.getElem?_set_ne (Ne.symm hdc), hq], hmem⟩
  cases hm with
  | locked l' _ _ howner hheld =>
    rw [howner, Function.update_apply] at hl
    split at hl
    · next hll =>
      cases hl
      exact ⟨p', hself, by simp [hheld, hll]⟩
    · exact hold hl fun hmem => by simp [hheld, hmem]
  | freed given hheld howner =>
    rw [howner] at hl
    split at hl
    · cases hl
    · next hgiven =>
      refine hold hl fun hmem => ?_
      rw [hheld, List.mem_append] at hmem
      exact hmem.resolve_left hgiven

theorem held_moved
    (hq : (w.calls.set c p')[d]? = some q) (hl : l ∈ q.held) : s'.owner l = some d := by
  rcases getElem?_set_some hq with ⟨rfl, rfl⟩ | ⟨hdc, hq⟩
  · cases hm with
    | locked l' _ hfree howner hheld =>
      rw [howner, Function.update_apply]
      split
      · rfl
      · next hne =>
        have hmem : l ∈ p.held := by simpa [hheld, hne] using hl
        exact h.held d p l hp hmem
    | freed given hheld howner =>
      have hnodup := h.nodup d p hp
      rw [hheld, List.nodup_append] at hnodup
      have hgiven : l ∉ given := fun hmem => hnodup.2.2 l hmem l hl rfl
      rw [howner, if_neg hgiven]
      exact h.held d p l hp (by simp [hheld, hl])
  · have hown := h.held d q l hq hl
    cases hm with
    | locked l' _ hfree howner _ =>
      have hne : l ≠ l' := by
        rintro rfl
        cases hfree.symm.trans hown
      rw [howner, Function.update_of_ne hne, hown]
    | freed given hheld howner =>
      have hgiven : l ∉ given := by
        intro hmem
        have := h.held c p l hp (by simp [hheld, hmem])
        rw [hown] at this
        exact hdc (some.inj this)
      rw [howner, if_neg hgiven, hown]

theorem nodup_moved : p'.held.Nodup := by
  cases hm with
  | locked l _ hfree _ hheld =>
    rw [hheld, List.nodup_cons]
    refine ⟨fun hmem => ?_, h.nodup c p hp⟩
    rw [h.held c p l hp hmem] at hfree
    cases hfree
  | freed given hheld _ =>
    have hnodup := h.nodup c p hp
    rw [hheld] at hnodup
    exact hnodup.of_append_right
end

/-- A call enters the section of the state only by taking its lock. -/
theorem takes_state (hm : Moved c w.shared s' p p') (hs : .state ∈ p'.held)
    (hn : .state ∉ p.held) : p.script = .lock .state :: p'.script := by
  cases hm with
  | locked l hscript _ _ hheld =>
    rw [hheld, List.mem_cons] at hs
    obtain rfl := hs.resolve_right hn
    exact hscript
  | freed given hheld _ => exact absurd (by simp [hheld, hs]) hn

theorem Orderly.move (h : Orderly w) (hp : w.calls[c]? = some p)
    (hrequest : p'.request = p.request) (hscripted : p'.Scripted) (hm : Moved c w.shared s' p p')
    (hclear : ∀ i, .state ∈ p'.held → .state ∉ p.held → p.request.nested = true →
      p.request.sandbox = some i → ∀ (d : Nat) q, w.calls[d]? = some q → q.runs i = false)
    (hbegins : ∀ i, p'.runs i = true → p.runs i = false → w.shared.owner .state = none) :
    Orderly ⟨s', w.calls.set c p'⟩ where
  owned _ _ hl := owned_moved h hp hm hl
  held _ _ _ hq hl := held_moved h hp hm hq hl
  nodup d q hq := by
    rcases getElem?_set_some hq with ⟨rfl, rfl⟩ | ⟨_, hq⟩
    · exact nodup_moved h hp hm
    · exact h.nodup d q hq
  scripted d q hq := by
    rcases getElem?_set_some hq with ⟨rfl, rfl⟩ | ⟨_, hq⟩
    · exact hscripted
    · exact h.scripted d q hq
  apart d e q r i hq hr hn hs hi := by
    rcases getElem?_set_some hq with ⟨rfl, rfl⟩ | ⟨_, hq'⟩ <;>
      rcases getElem?_set_some hr with ⟨rfl, rfl⟩ | ⟨_, hr'⟩
    · exact not_runs_of_nested hn i
    · rw [hrequest] at hn hi
      by_cases hbefore : .state ∈ p.held
      · exact h.apart d e p r i hp hr' hn hbefore hi
      · exact hclear i hs hbefore hn hi e r hr'
    · -- the endless command would have begun with the state lock, which another call holds
      by_contra hruns
      have hbefore := h.apart d e q p i hq' hp hn hs hi
      have hfree := hbegins i (by simpa using hruns) hbefore
      rw [h.held d q .state hq' hs] at hfree
      cases hfree
    · exact h.apart d e q r i hq' hr' hn hs hi

theorem runs_iff : p.runs i = true ↔
    p.request = .startProcess i true ∧ p.script ≠ [] ∧ p.script ≠ p.request.script := by
  simp [Phase.runs, Phase.finished, and_assoc]

theorem head_lock_state (i : Nat) : ∃ rest,
    Request.script (.startProcess i true) = .lock .state :: rest := ⟨_, rfl⟩

theorem begins (ha : advance w.shared c good p = some (s', p'))
    (hrequest : p'.request = p.request) (i : Nat) (hr : p'.runs i = true)
    (hn : p.runs i = false) : w.shared.owner .state = none := by
  obtain ⟨hreq, -, -⟩ := runs_iff.mp hr
  rw [hrequest] at hreq
  have hscript : p.script ≠ [] := by
    intro hnil
    rw [advance, hnil] at ha
    cases ha
  have hstart : p.script = p.request.script := by
    by_contra hne
    rw [runs_iff.mpr ⟨hreq, hscript, hne⟩] at hn
    cases hn
  obtain ⟨rest, hrest⟩ := head_lock_state i
  rw [advance, hstart, hreq, hrest] at ha
  simp only [perform] at ha
  split at ha
  · assumption
  · cases ha

section
variable (h : Orderly w) (hp : w.calls[c]? = some p) (hok : Meets w (.step c good))
    (ha : advance w.shared c good p = some (s', p'))
include h hp hok ha

theorem stepped : Stepped c w.shared s' p p' := by
  obtain ⟨request, held, script⟩ := p
  cases script with
  | nil => cases ha
  | cons instruction rest =>
    refine perform_stepped (h.scripted c _ hp) rfl ?_ ha
    rintro rfl
    simpa [Meets, unobstructed, hp] using hok

theorem Orderly.step : Orderly ⟨s', w.calls.set c p'⟩ := by
  have hstep := stepped h hp hok ha
  refine h.move hp hstep.request hstep.scripted hstep.moved ?_ (begins ha hstep.request)
  intro i hs hbefore hn hi d q hq
  have hscript := takes_state hstep.moved hs hbefore
  obtain ⟨request, held, script⟩ := p
  obtain rfl : script = _ := hscript
  simp only [Meets, unobstructed, hp, hn, hi, Bool.not_true, Bool.false_or, all_some,
    List.all_eq_true, Bool.not_eq_true'] at hok
  exact hok q (List.mem_of_getElem? hq)
end

theorem foldl_give (held : List Lock) (s : Shared) (l : Lock) :
    (held.foldl (fun s l => s.give l none) s).owner l = if l ∈ held then none else s.owner l := by
  induction held generalizing s with
  | nil => simp
  | cons l' held ih =>
    rw [List.foldl_cons, ih]
    by_cases hl : l = l' <;> simp [Shared.give, hl]

theorem drop_some (hd : drop w.shared c p = some (s', p')) :
    p.script ≠ [] ∧ p' = { p with held := [], script := [] } ∧ Moved c w.shared s' p p' := by
  simp only [drop] at hd
  split at hd
  · cases hd
  · next hfin =>
    cases hd
    exact ⟨by simpa [Phase.finished] using hfin, rfl,
      .freed p.held (by simp) (foldl_give p.held w.shared)⟩

theorem Orderly.drop (h : Orderly w) (hp : w.calls[c]? = some p)
    (hd : drop w.shared c p = some (s', p')) : Orderly ⟨s', w.calls.set c p'⟩ := by
  obtain ⟨-, rfl, hm⟩ := drop_some hd
  refine h.move hp rfl ⟨rfl, rfl⟩ hm ?_ fun i hr => ?_
  · rintro i ⟨⟩
  · simp [Phase.runs, Phase.finished] at hr
end

def wants (p : Phase) : Option Lock :=
  match p.script with
  | .lock l :: _ => some l
  | _ => none

def halted (s : Shared) (p : Phase) : Bool :=
  match p.script with
  | .command i :: _ => i ∉ s.ended
  | .awaitCapacity :: _ => s.available = 0
  | _ => false

def rank : Lock → ℕ
  | .state => 0
  | .session _ => 1

section
variable {active : List Nat} {available : Nat}

def view (s : Schedule machine (initial active available)) : FairLocks.View Lock where
  present n c := c < (s.world n).calls.length
  finished n c := ∃ p, (s.world n).calls[c]? = some p ∧ p.script = []
  hung n c := ∃ p, (s.world n).calls[c]? = some p ∧ halted (s.world n).shared p = true
  wants n c := (s.world n).calls[c]?.bind wants
  holds n c l := (s.world n).shared.owner l = some c
  fuel n c := fuel (((s.world n).calls[c]?.map Phase.script).getD [])
  moves n c := (s.event n).bind Event.target = some c

variable {p : Phase}

theorem wants_some (h : wants p = some l) : ∃ rest, p.script = .lock l :: rest := by
  unfold wants at h
  split at h
  · next l' rest hscript =>
    cases h
    exact ⟨rest, hscript⟩
  · cases h

/-- A call waits for the state with no lock, and for a session with at most the state. -/
theorem held_wants (h : p.Scripted) (hl : l ∈ p.held)
    (hw : wants p = some l') : l = .state ∧ ∃ i, l' = .session i ∧ p.request.nested = true := by
  obtain ⟨rest, hscript⟩ := wants_some hw
  have hguard := (scripted_cons h hscript).1
  cases l' with
  | state =>
    obtain hheld : p.held = [] := by simpa [guards] using hguard
    simp [hheld] at hl
  | session i =>
    simp only [guards, decide_eq_true_eq] at hguard
    cases hn : p.request.nested with
    | false => simp [hguard, hn] at hl
    | true =>
      simp only [hguard, hn, if_true, List.mem_singleton] at hl
      exact ⟨hl, i, rfl, rfl⟩

theorem wants_session (h : p.Scripted) (hw : wants p = some (.session i)) :
    p.request.sandbox = some i ∧ (p.request.nested = true → .state ∈ p.held) := by
  obtain ⟨rest, hscript⟩ := wants_some hw
  have hguard := (scripted_cons h hscript).1
  have hcon := h.concerned
  rw [hscript, List.all_cons, Bool.and_eq_true] at hcon
  refine ⟨by simpa [concerns] using hcon.1, fun hn => ?_⟩
  simp only [guards, hn, decide_eq_true_eq] at hguard
  simp [hguard]

/-- A call that halts holds the session of its command at most. -/
theorem held_halted (h : p.Scripted) (hh : halted s p = true) :
    ∃ i rest, p.script = .command i :: rest ∧ p.held = [.session i] ∧
      p.request = .startProcess i true := by
  unfold halted at hh
  split at hh
  · next i rest hscript =>
    have hguard := (scripted_cons h hscript).1
    have hcon := h.concerned
    rw [hscript, List.all_cons, Bool.and_eq_true] at hcon
    exact ⟨i, rest, hscript, by simpa [guards] using hguard, by simpa [concerns] using hcon.1⟩
  · next rest hscript =>
    have hcon := h.concerned
    simp [hscript, concerns] at hcon
  · cases hh

theorem runs_of_halted (h : p.Scripted)
    (hh : halted s p = true) (hl : .session i ∈ p.held) : p.runs i = true := by
  obtain ⟨j, rest, hscript, hheld, hrequest⟩ := held_halted h hh
  obtain rfl : i = j := by simpa [hheld] using hl
  obtain ⟨rest', hstart⟩ := head_lock_state i
  refine runs_iff.mpr ⟨hrequest, by simp [hscript], ?_⟩
  rw [hscript, hrequest, hstart]
  simp

/-- A call that waits for no lock and does not halt can be stepped. -/
theorem advances (hscript : p.script ≠ [])
    (hh : halted s p = false) (hfree : ∀ l, wants p = some l → s.owner l = none) :
    (advance s c true p).isSome := by
  obtain ⟨request, held, script⟩ := p
  cases script with
  | nil => exact absurd rfl hscript
  | cons instruction rest =>
    cases instruction with
    | lock l => simp [advance, perform, hfree l rfl]
    | reserve =>
      simp only [advance, perform]
      split <;> simp
    | awaitCapacity =>
      have : 0 < s.available := by simpa [halted, Nat.pos_iff_ne_zero] using hh
      simp [advance, perform, this]
    | command i =>
      have : i ∈ s.ended := by simpa [halted] using hh
      simp [advance, perform, this]
    | _ => simp [advance, perform]

variable {s : Schedule machine (initial active available)}

theorem orderly (hok : s.Meets Meets) (n : ℕ) : Orderly (s.world n) :=
  (hok.reachable n).keeps (orderly_initial active available)
    (fun _ request h _ => h.call request)
    (fun _ _ _ _ _ _ h hok hp ha => h.step hp hok ha)
    (fun _ _ _ _ _ h _ hp hd => h.drop hp hd)

theorem moved (hok : s.Meets Meets) (hm : (view s).moves n c) :
    ∃ p p', (s.world n).calls[c]? = some p ∧
      Moved c (s.world n).shared (s.world (n + 1)).shared p p' ∧
      (s.world (n + 1)).calls = (s.world n).calls.set c p' ∧
      p'.request = p.request ∧ fuel p'.script < fuel p.script := by
  obtain ⟨e, he, htarget⟩ := bind_eq_some_iff.mp hm
  have hnext := s.step n e he
  have horder := orderly hok n
  cases e with
  | call _ => cases htarget
  | step d o =>
    cases htarget
    obtain ⟨p, s', p', hp, ha, hw⟩ := bind_put.mp hnext
    have hstep := stepped horder hp (hok n _ he) ha
    rw [hw]
    exact ⟨p, p', hp, hstep.moved, rfl, hstep.request, hstep.burns⟩
  | cancel d =>
    cases htarget
    obtain ⟨p, s', p', hp, hd, hw⟩ := bind_put.mp hnext
    obtain ⟨hscript, rfl, hmoved⟩ := drop_some hd
    rw [hw]
    refine ⟨p, _, hp, hmoved, rfl, rfl, ?_⟩
    obtain ⟨instruction, rest, hcons⟩ := List.exists_cons_of_ne_nil hscript
    rw [hcons, fuel_cons]
    exact Nat.add_pos_left (cost_pos instruction) _

theorem shared_still (h : (s.event n).bind Event.target = none) :
    (s.world (n + 1)).shared = (s.world n).shared := by
  cases he : s.event n with
  | none => rw [s.idle n he]
  | some e =>
    have hnext := s.step n e he
    cases e with
    | call r =>
      obtain hw := some.inj hnext
      rw [← hw]
    | step | cancel => simp [he, Event.target] at h

theorem owner_next (hok : s.Meets Meets) (hc : (view s).holds n c l)
    (hd : (view s).holds (n + 1) d l) : d = c := by
  simp only [view] at hc hd
  cases he : (s.event n).bind Event.target with
  | none =>
    rw [shared_still he, hc] at hd
    exact (some.inj hd).symm
  | some e =>
    obtain ⟨p, p', _, hm, _⟩ := moved hok he
    cases hm with
    | locked l' _ hfree howner _ =>
      have hne : l ≠ l' := by
        rintro rfl
        cases hfree.symm.trans hc
      rw [howner, Function.update_of_ne hne, hc] at hd
      exact (some.inj hd).symm
    | freed given _ howner =>
      rw [howner] at hd
      split at hd
      · cases hd
      · rw [hc] at hd
        exact (some.inj hd).symm

theorem laws (hok : s.Meets Meets) (hfair : s.Fair) : FairLocks.Laws (view s) rank 1 where
  stays _ _ hp := s.present hp
  still n c hp hm := by
    have hsame := s.other (List.getElem?_eq_getElem hp) hm
    have hnow := List.getElem?_eq_getElem hp
    simp only [view, hsame, hnow, and_self]
  burns n c hm := by
    obtain ⟨p, p', hp, _, hcalls, _, hfuel⟩ := moved hok hm
    have hnew : (s.world (n + 1)).calls[c]? = some p' := by
      rw [hcalls]
      exact getElem?_set_at hp
    simp only [view, hnew, hp]
    exact hfuel
  handed n c d l hc hd := owner_next hok hc hd ▸ hd
  freed n c l hl := by
    rintro ⟨p, hp, hfin⟩
    obtain ⟨q, hq, hmem⟩ := (orderly hok n).owned l c hl
    cases hp.symm.trans hq
    have hd := ((orderly hok n).scripted c p hp).ordered
    rw [hfin] at hd
    obtain hheld : p.held = [] := by simpa [disciplined] using hd
    simp [hheld] at hmem
  ordered n c l l' hl hw := by
    obtain ⟨p, hp, hmem⟩ := (orderly hok n).owned l c hl
    have hwants : wants p = some l' := by simpa [view, hp] using hw
    obtain ⟨rfl, i, rfl, _⟩ := held_wants ((orderly hok n).scripted c p hp) hmem hwants
    exact Nat.zero_lt_one
  bounded l := by cases l <;> simp [rank]
  fair c hoften := by
    have hcan : ∀ n, ∃ k, n ≤ k ∧ CanStep machine (s.world k) c := by
      intro n
      obtain ⟨k, hk, hpres, hfin, hhung, hfree⟩ := hoften n
      have hp := List.getElem?_eq_getElem hpres
      refine ⟨k, hk, true, ?_⟩
      have hadv : (advance (s.world k).shared c true (s.world k).calls[c]).isSome := by
        refine advances (fun hnil => hfin ⟨_, hp, hnil⟩) ?_ fun l hl => ?_
        · exact Bool.eq_false_iff.mpr fun hh => hhung ⟨_, hp, hh⟩
        · have := hfree l (by simpa [view, hp] using hl)
          exact eq_none_iff_forall_ne_some.mpr this
      simpa [next, machine, hp] using hadv
    intro n
    obtain ⟨k, hk, o, he⟩ := hfair c hcan n
    exact ⟨k, hk, by simp [view, he, Event.target]⟩

/-- A call that does not halt, and neither does the holder of the session it waits for. -/
def served (s : Schedule machine (initial active available)) (n c : ℕ) : Prop :=
  (view s).present n c ∧ ¬(view s).hung n c ∧ ∀ i d, (view s).wants n c = some (.session i) →
    (view s).holds n d (.session i) → ¬(view s).hung n d

/-- Whoever holds the state does not halt, and no session it waits for runs an endless
command. -/
theorem served_state (hok : s.Meets Meets) (hd : (view s).holds n d .state) : served s n d := by
  have horder := orderly hok n
  obtain ⟨p, hp, hmem⟩ := horder.owned .state d hd
  have hscripted := horder.scripted d p hp
  refine ⟨(List.getElem?_eq_some_iff.mp hp).1, ?_, ?_⟩
  · rintro ⟨q, hq, hh⟩
    cases hp.symm.trans hq
    obtain ⟨i, _, _, hheld, _⟩ := held_halted hscripted hh
    simp [hheld] at hmem
  · rintro i e hw he ⟨r, hr, hh⟩
    have hwants : wants p = some (.session i) := by simpa [view, hp] using hw
    obtain ⟨-, _, -, hn⟩ := held_wants hscripted hmem hwants
    have hsandbox := (wants_session hscripted hwants).1
    obtain ⟨r', hr', hsession⟩ := horder.owned (.session i) e he
    cases hr.symm.trans hr'
    have hruns := runs_of_halted (horder.scripted e r hr) hh hsession
    rw [horder.apart d e p r i hp hr hn hmem hsandbox] at hruns
    cases hruns

theorem served_closed (hok : s.Meets Meets) : FairLocks.Served (view s) (served s) where
  present _ _ h := h.1
  awake _ _ h := h.2.1
  closed n c d l hc hw hd := by
    cases l with
    | state => exact served_state hok hd
    | session i =>
      have horder := orderly hok n
      obtain ⟨p, hp, hmem⟩ := horder.owned (.session i) d hd
      refine ⟨(List.getElem?_eq_some_iff.mp hp).1, hc.2.2 i d hw hd, fun j e hwd _ => ?_⟩
      -- a call that holds a session waits for no lock
      have hwants : wants p = some (.session j) := by simpa [view, hp] using hwd
      cases (held_wants (horder.scripted d p hp) hmem hwants).1

theorem request_stays {n c : ℕ} (hok : s.Meets Meets)
    (hp : (s.world n).calls[c]? = some p) {k : ℕ} (hk : n ≤ k) :
    ∃ q, (s.world k).calls[c]? = some q ∧ q.request = p.request := by
  induction k, hk using Nat.le_induction with
  | base => exact ⟨p, hp, rfl⟩
  | succ k _ ih =>
    obtain ⟨q, hq, hrequest⟩ := ih
    by_cases hm : (view s).moves k c
    · obtain ⟨q', p', hq', _, hcalls, hsame, _⟩ := moved hok hm
      cases hq.symm.trans hq'
      refine ⟨p', ?_, hsame.trans hrequest⟩
      rw [hcalls]
      exact getElem?_set_at hq
    · exact ⟨q, s.other hq hm, hrequest⟩

/-- Some `start_process` of the schedule runs an endless command on the sandbox. -/
def Busy (s : Schedule machine (initial active available)) (i : Nat) : Prop :=
  ∃ (n c : ℕ) (p : Phase), (s.world n).calls[c]? = some p ∧ p.request = .startProcess i true

def session (request : Request) : Option Nat := if request.nested then none else request.sandbox

/-- A command that does not end blocks only the calls that need its session: every other call
completes (or is dropped) in every fair schedule. -/
theorem calls_complete (active : List Nat) (available : Nat)
    (s : Schedule machine (initial active available)) (hok : s.Meets Meets) (hfair : s.Fair)
    (n c : ℕ) (p : Phase) (hp : (s.world n).calls[c]? = some p)
    (hfree : ∀ i, session p.request = some i → ¬Busy s i) :
    ∃ k q, n ≤ k ∧ (s.world k).calls[c]? = some q ∧ q.finished = true := by
  have hserved : ∀ k, n ≤ k → ¬(view s).finished k c → served s k c := by
    intro k hk _
    have horder := orderly hok k
    obtain ⟨q, hq, hrequest⟩ := request_stays hok hp hk
    have hscripted := horder.scripted c q hq
    rw [← hrequest] at hfree
    by_cases hstate : .state ∈ q.held
    · exact served_state hok (horder.held c q .state hq hstate)
    · refine ⟨(List.getElem?_eq_some_iff.mp hq).1, ?_, ?_⟩
      · rintro ⟨q', hq', hh⟩
        cases hq.symm.trans hq'
        obtain ⟨i, _, _, _, hr⟩ := held_halted hscripted hh
        exact hfree i (by simp [session, hr, Request.nested, Request.sandbox]) ⟨k, c, q, hq, hr⟩
      · rintro i d hw hd ⟨r, hr, hh⟩
        have hwants : wants q = some (.session i) := by simpa [view, hq] using hw
        obtain ⟨hsandbox, hinside⟩ := wants_session hscripted hwants
        obtain ⟨r', hr', hsession⟩ := horder.owned (.session i) d hd
        cases hr.symm.trans hr'
        have hruns := runs_iff.mp (runs_of_halted (horder.scripted d r hr) hh hsession)
        have hnested : q.request.nested = false :=
          Bool.eq_false_iff.mpr fun hn => hstate (hinside hn)
        exact hfree i (by simp [session, hnested, hsandbox]) ⟨k, d, r, hr, hruns.1⟩
  obtain ⟨k, hk, q, hq, hscript⟩ := (laws hok hfair).finishes (served_closed hok) hserved
  exact ⟨k, q, hk, hq, by simp [Phase.finished, hscript]⟩
end

def stuck (w : Adapter) : Bool :=
  (List.range w.calls.length).all fun c =>
    [true, false].all fun good => (next machine w (.step c good)).isNone

theorem not_canStep (h : stuck w = true) (c : Nat) : ¬CanStep machine w c := by
  rintro ⟨good, hstep⟩
  by_cases hc : c < w.calls.length
  · have hall := List.all_eq_true.mp (List.all_eq_true.mp h c (List.mem_range.mpr hc)) good
      (by cases good <;> simp)
    rw [isNone_iff_eq_none.mp hall] at hstep
    cases hstep
  · rw [next, List.getElem?_eq_none (by omega)] at hstep
    cases hstep

theorem stuck_run {active : List Nat} {available : Nat}
    {check : Adapter → Event Request Bool → Bool}
    {final : Adapter → Bool} {es : List (Event Request Bool)}
    (h : (run machine check (initial active available) es).any
      (fun w => stuck w && final w) = true) :
    ∃ s : Schedule machine (initial active available), s.Meets (fun w e => check w e = true) ∧
      s.Fair ∧ ∀ k, es.length ≤ k → final (s.world k) = true := by
  cases hw : run machine check (initial active available) es with
  | none => simp [hw] at h
  | some w =>
    obtain ⟨hstuck, hfinal⟩ : stuck w = true ∧ final w = true := by simpa [hw] using h
    obtain ⟨s, hmeets, hfair, hends⟩ := Schedule.of_run hw (not_canStep hstuck)
    exact ⟨s, hmeets, hfair, fun k hk => hends k hk ▸ hfinal⟩

def steps (c n : Nat) : List (Event Request Bool) := List.replicate n (.step c true)
def commandRuns : List (Event Request Bool) := .call (.startProcess 1 true) :: steps 0 7

def progress (w : Adapter) : List (Request × Bool) :=
  w.calls.map fun p => (p.request, p.finished)

theorem calls_complete_beside_command :
    ∃ s : Schedule machine (initial [1, 2] 1), s.Meets Meets ∧ s.Fair ∧ Busy s 1 ∧
      ∃ k q, (s.world k).calls[1]? = some q ∧ q.finished = true := by
  obtain ⟨s, hmeets, hfair, hends⟩ := @stuck_run [1, 2] 1 unobstructed
    (fun w => (w.calls.map Phase.request) = [.startProcess 1 true, .stop 2 false])
    (commandRuns ++ .call (.stop 2 false) :: steps 1 11) (by decide +kernel)
  obtain ⟨p, rest, hcalls, hbusy, hrest⟩ :=
    List.map_eq_cons_iff.mp (of_decide_eq_true (hends 20 (by decide)))
  obtain ⟨q, _, rfl, hstop, _⟩ := List.map_eq_cons_iff.mp hrest
  have hp : (s.world 20).calls[0]? = some p := by rw [hcalls, List.getElem?_cons_zero]
  have hq : (s.world 20).calls[1]? = some q := by
    rw [hcalls, List.getElem?_cons_succ, List.getElem?_cons_zero]
  obtain ⟨k, r, _, hr, hfinished⟩ := calls_complete [1, 2] 1 s hmeets hfair 20 1 q hq
    (by simp [hstop, session, Request.nested])
  exact ⟨s, hmeets, hfair, ⟨20, 0, p, hp, hbusy⟩, k, r, hr, hfinished⟩

/-- `stop` waits for the session of the running command and keeps the state lock: from then on
no call of any sandbox can move. -/
theorem command_blocks_adapter :
    ∃ s : Schedule machine (initial [1, 2] 1), s.Fair ∧ ∃ n, ∀ k, n ≤ k →
      progress (s.world k) =
        [(.startProcess 1 true, false), (.stop 1 false, false), (.stop 2 false, false),
          (.startCold 3 0, false), (.startProcess 2 false, false), (.portTarget 2, false)] := by
  obtain ⟨s, -, hfair, hends⟩ := @stuck_run [1, 2] 1 (fun _ _ => true)
    (fun w => progress w =
      [(.startProcess 1 true, false), (.stop 1 false, false), (.stop 2 false, false),
        (.startCold 3 0, false), (.startProcess 2 false, false), (.portTarget 2, false)])
    (commandRuns ++ .call (.stop 1 false) :: steps 1 3 ++ [.call (.stop 2 false)] ++
      .call (.startCold 3 0) :: steps 3 1 ++
      [.call (.startProcess 2 false), .call (.portTarget 2)]) (by decide +kernel)
  exact ⟨s, hfair, _, fun k hk => of_decide_eq_true (hends k hk)⟩

end AdapterProgress
