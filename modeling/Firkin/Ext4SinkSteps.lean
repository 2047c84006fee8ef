import Firkin.Ext4Extents

/-! # Steps on the sink

What the primitive I/O calls do when they return, and that they fail only on a sink that
fails. `Placed` describes every step of the data region: bytes go to the sink, the next
free block moves on, a node is updated, and nothing else changes. -/
namespace Ext4SinkSteps

open Ext4Types Ext4Builder ByteImage Ext4Finalizer Ext4InodeAllocation Ext4Sizing FaultMonad

def Reliable (out : Sink) : Prop := ∀ k, out.fate k = none

def isIo : Fault → Bool
  | .err (.write _ _) => true
  | .err (.control _) => true
  | _ => false

def IoFault (out : Sink) (φ : Fault) : Prop := isIo φ = true ∧ ¬ Reliable out

variable {s t : Finalizer}

theorem not_reliable (h : out.fate k = some d) : ¬ Reliable out := by
  intro hr
  rw [hr k] at h
  cases h

theorem IoFault.congr (h : IoFault out φ) (hf : out.fate = out'.fate) : IoFault out' φ :=
  ⟨h.1, fun hr => h.2 fun k => by rw [hf]; exact hr k⟩

def Sought (s t : Finalizer) (off : Nat) : Prop :=
  ∃ out pos, t = { s with out, pos } ∧ out.bytes = s.out.bytes ∧ out.fate = s.out.fate ∧
    out.cursor = off

def Wrote (s t : Finalizer) (l : List UInt8) : Prop :=
  ∃ out pos, t = { s with out, pos } ∧ out.bytes = overwrite s.out.bytes s.out.cursor l ∧
    out.fate = s.out.fate ∧ out.cursor = s.out.cursor + l.length

theorem seekAbsolute_ends (s : Finalizer) :
    Ends (seekAbsolute off) s (fun _ t => Sought s t off) (IoFault s.out) := by
  rw [seekAbsolute, ends_get_bind]
  cases h : s.out.fate s.out.calls with
  | some d => exact ⟨rfl, not_reliable h⟩
  | none => exact ⟨_, _, rfl, rfl, rfl, rfl⟩

theorem writeBytes_ends (s : Finalizer) (l : List UInt8) :
    Ends (writeBytes l) s (fun _ t => Wrote s t l) (IoFault s.out) := by
  rw [writeBytes, ends_get_bind]
  cases h : s.out.fate s.out.calls with
  | some d => exact ⟨rfl, not_reliable h⟩
  | none => exact ⟨_, _, rfl, rfl, rfl, rfl⟩

theorem flush_ends : Ends flush s (fun _ t => Sought s t s.out.cursor) (IoFault s.out) := by
  rw [flush, ends_get_bind, ends_bind]
  cases h : s.out.fate s.out.calls with
  | some d => exact ⟨rfl, not_reliable h⟩
  | none => exact ⟨_, _, rfl, rfl, rfl, rfl⟩

theorem seekToBlock_ends (s : Finalizer) (block : Nat) :
    Ends (seekToBlock block) s (fun _ t => Sought s t (block * s.fs.blockSize.bytes))
      (IoFault s.out) := by
  exact seekAbsolute_ends s

theorem modifyNode_run (hn : s.fs.nodes[idx]? = some n) (f : Node → Node) :
    Ext4Finalizer.modifyNode idx f s = .ok () { s with fs := s.fs.updateNode idx f } := by
  have hnode : node s idx = .ok n := index_ok hn
  rw [Ext4Finalizer.modifyNode, bind_of_ok (run_get s), bind_of_ok (ofExcept_run hnode)]
  rfl

theorem modifyNode_ends {f : Node → Node} {E : Fault → Prop} (hn : s.fs.nodes[idx]? = some n)
    (hQ : Q () { s with fs := s.fs.updateNode idx f }) :
    Ends (Ext4Finalizer.modifyNode idx f) s Q E :=
  ends_of_ok (modifyNode_run hn f) hQ

def Placed (s t : Finalizer) (fs : FileSystemBuilder) (next : Nat) (bytes : Image) : Prop :=
  ∃ out pos, t = { s with fs, nextFreeBlock := next, out, pos } ∧ out.bytes = bytes ∧
    out.fate = s.out.fate

theorem Placed.refl (s : Finalizer) : Placed s s s.fs s.nextFreeBlock s.out.bytes :=
  ⟨_, _, rfl, rfl, rfl⟩

theorem appendBlock_ends (hfit : s.nextFreeBlock + 1 < 2 ^ 32) :
    Ends (appendBlock buf) s
      (fun _ t => Placed s t s.fs (s.nextFreeBlock + 1)
        (overwrite s.out.bytes (s.nextFreeBlock * s.fs.blockSize.bytes) buf))
      (IoFault s.out) := by
  rw [appendBlock, ends_get_bind]
  refine (seekToBlock_ends s _).bind ?_
  rintro _ _ ⟨out, pos, rfl, hb, hf, hc⟩
  refine (writeBytes_ends _ buf).andThen (fun _ h => h.congr hf) ?_
  rintro _ _ ⟨out', pos', rfl, hb', hf', -⟩
  rw [ends_bind_ok (ofExcept_run (u32Add_ok hfit))]
  refine ⟨out', pos', rfl, ?_, hf'.trans hf⟩
  simpa [hb, hc] using hb'

section
def Put (s t : Finalizer) (writes : List (Nat × List UInt8)) : Prop :=
  ∃ out pos, t = { s with out, pos } ∧ out.bytes = applyAll s.out.bytes writes ∧
    out.fate = s.out.fate

theorem Wrote.nil (s : Finalizer) : Wrote s s [] := ⟨_, _, rfl, by simp, rfl, rfl⟩

theorem Wrote.append (h : Wrote s t l) (h' : Wrote t u l') : Wrote s u (l ++ l') := by
  obtain ⟨o, p, rfl, hb, hf, hc⟩ := h
  obtain ⟨o', p', rfl, hb', hf', hc'⟩ := h'
  refine ⟨o', p', rfl, ?_, hf'.trans hf, ?_⟩
  · rw [hb', overwrite_append]
    simp only [hb, hc]
  · rw [hc', List.length_append]
    simp only [hc]
    omega

theorem Sought.wrote (h : Sought s t off) (h' : Wrote t u l) : Put s u [(off, l)] := by
  obtain ⟨o, p, rfl, hb, hf, hc⟩ := h
  obtain ⟨o', p', rfl, hb', hf', -⟩ := h'
  exact ⟨o', p', rfl, by rw [hb']; simp only [hb, hc]; rfl, hf'.trans hf⟩

theorem Wrote.fate (h : Wrote s t l) : t.out.fate = s.out.fate := by
  obtain ⟨o, p, rfl, -, hf, -⟩ := h
  exact hf

theorem Sought.fate (h : Sought s t off) : t.out.fate = s.out.fate := by
  obtain ⟨o, p, rfl, -, hf, -⟩ := h
  exact hf

theorem forM_writeBytes_ends {ι : Type} (f : ι → List UInt8) (as : List ι) (s : Finalizer) :
    Ends (as.forM fun a => writeBytes (f a)) s (fun _ t => Wrote s t (as.flatMap f))
      (IoFault s.out) := by
  refine ends_forM (fun pre t => Wrote s t (pre.flatMap f)) ?_ (Wrote.nil s)
  intro pre a post t _ ht
  refine (writeBytes_ends t (f a)).mono (fun _ u hu => ?_) fun _ h => h.congr ht.fate
  rw [List.flatMap_append, List.flatMap_singleton]
  exact ht.append hu

theorem padRegion_ends (s : Finalizer) :
    Ends (padRegion consumed reserved) s (fun _ t => Wrote s t (zeros (reserved - consumed)))
      (IoFault s.out) := by
  rw [padRegion]
  by_cases h : consumed < reserved
  · rw [if_pos h]
    exact writeBytes_ends s _
  · rw [if_neg h, show reserved - consumed = 0 by omega]
    exact Wrote.nil s

/-- Bytes at a block, written by any computation that appends them to the cursor. -/
theorem seekToBlock_put {β : Type} {m : FinalizerM Unit} {k : FinalizerM β}
    {Q : β → Finalizer → Prop} {E : Fault → Prop} {block : Nat}
    (hm : ∀ t, Ends m t (fun _ u => Wrote t u l) (IoFault t.out)) (hE : ∀ φ, IoFault s.out φ → E φ)
    (hk : ∀ t, Put s t [(block * s.fs.blockSize.bytes, l)] → Ends k t Q E) :
    Ends (do seekToBlock block; m; k) s Q E := by
  refine (seekToBlock_ends s block).andThen hE fun _ t ht => ?_
  refine (hm t).andThen (fun φ h => hE φ (h.congr ht.fate)) fun _ u hu => ?_
  exact hk u (ht.wrote hu)

theorem ensureLen_ends :
    Ends (ensureLen len) s
      (fun _ t => Put s t (if len = 0 then [] else [(len - 1, [0])])) (IoFault s.out) := by
  rw [ensureLen]
  by_cases h : len = 0
  · rw [if_pos h, if_pos h]
    exact ⟨_, _, rfl, rfl, rfl⟩
  · rw [if_neg h, if_neg h]
    refine (seekAbsolute_ends s).bind fun _ t ht => ?_
    exact (writeBytes_ends t _).mono (fun _ u hu => ht.wrote hu) fun _ h => h.congr ht.fate
end

end Ext4SinkSteps
