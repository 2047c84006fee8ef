import Firkin.ByteImage
import Firkin.FaultMonad

/-! # Envelopes of the process API

A message of a streaming call travels in an envelope: a byte of flags, the length in four bytes
with the most significant first, and the message. -/
namespace EnvdFraming

open ByteImage

structure ConnectEnvelope where
  flags : UInt8
  data : List UInt8
  deriving DecidableEq

/-- `none` is the panic on a message whose length is no `u32`. -/
def encodeConnectEnvelope (flags : UInt8) (data : List UInt8) : Option (List UInt8) :=
  if data.length < 2 ^ 32 then some (flags :: (leBytes 4 data.length).reverse ++ data) else none

def decodeConnectEnvelopes (bytes : List UInt8) : Except String (List ConnectEnvelope) :=
  match bytes with
  | [] => .ok []
  | flags :: a :: b :: c :: d :: rest =>
    let len := leValue [d, c, b, a]
    if rest.length < len then .error "truncated Connect envelope body"
    else do
      let envelopes ← decodeConnectEnvelopes (rest.drop len)
      return ⟨flags, rest.take len⟩ :: envelopes
  | _ => .error "truncated Connect envelope header"
termination_by bytes.length
decreasing_by simp; omega

def encodeAll : List ConnectEnvelope → Option (List UInt8)
  | [] => some []
  | e :: es => do return (← encodeConnectEnvelope e.flags e.data) ++ (← encodeAll es)

theorem decode_encodeAll (h : ∀ e ∈ es, e.data.length < 2 ^ 32) :
    ∃ bytes, encodeAll es = some bytes ∧ decodeConnectEnvelopes bytes = .ok es := by
  induction es with
  | nil => exact ⟨[], rfl, by rw [decodeConnectEnvelopes]⟩
  | cons e es ih =>
    obtain ⟨hlen, h⟩ := List.forall_mem_cons.mp h
    obtain ⟨bytes, hbytes, hdecode⟩ := ih h
    have henc : encodeConnectEnvelope e.flags e.data = _ := if_pos hlen
    have hvalue := (leValue_leBytes 4 e.data.length).trans (Nat.mod_eq_of_lt hlen)
    simp only [leBytes] at henc hvalue
    refine ⟨_, by rw [encodeAll, henc, hbytes]; rfl, ?_⟩
    rw [List.append_assoc]
    dsimp only [List.reverse, List.reverseAux, List.cons_append]
    rw [decodeConnectEnvelopes, hvalue, if_neg (by simp), List.nil_append, List.drop_left,
      List.take_left, hdecode]
    rfl

theorem encodeAll_decode
    (h : decodeConnectEnvelopes bytes = .ok es) : encodeAll es = some bytes := by
  fun_induction decodeConnectEnvelopes bytes generalizing es with
  | case1 => cases h; rfl
  | case2 => cases h
  | case3 flags a b c d rest len hlong =>
    rename_i ih
    obtain ⟨envelopes, hrest, h⟩ := FaultMonad.except_bind_eq_ok.mp h
    cases h
    have hlen : (rest.take len).length = len := List.length_take_of_le (by omega)
    have hfits : len < 2 ^ 32 := by
      have ha := a.toNat_lt
      have hb := b.toNat_lt
      have hc := c.toNat_lt
      have hd := d.toNat_lt
      simp only [len, leValue]
      omega
    have henc : encodeConnectEnvelope flags (rest.take len) = some (flags :: a :: b :: c :: d ::
        rest.take len) := by
      rw [encodeConnectEnvelope, hlen, if_pos hfits]
      exact congrArg (some <| flags :: List.reverse · ++ _) (leBytes_leValue [d, c, b, a])
    rw [encodeAll, henc, ih hrest]
    simp
  | case4 => cases h

/-- Envelopes are read back from their encodings, and nothing else is accepted. -/
theorem framing_exact :
    (∀ es, (∀ e ∈ es, e.data.length < 2 ^ 32) →
      ∃ bytes, encodeAll es = some bytes ∧ decodeConnectEnvelopes bytes = .ok es) ∧
    ∀ bytes es, decodeConnectEnvelopes bytes = .ok es → encodeAll es = some bytes :=
  ⟨fun _ => decode_encodeAll, fun _ _ => encodeAll_decode⟩

end EnvdFraming
