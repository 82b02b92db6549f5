import BoundaryTag.Heap.Coalesce
import BoundaryTag.Proofs.Access

/-!
Work that only rewrites.

The work on the main lists, and the merging of free blocks, is silent: it reports nothing to the journal. What
else it leaves alone is what any work leaves alone that writes only some bytes, so such a run changes nothing
but those bytes, the heads of the lists and the tracked last block.
-/

namespace BoundaryTag

open Heap

namespace Heap

/-- Work that writes only bytes of `S` and reports nothing. The heads and the tracked last block may change. -/
structure Rewrites (S : Nat → Prop) (h h' : Heap) : Prop extends Within S h h' where
  journal : h'.journal = h.journal

variable {h h' h'' : Heap} {S T : Nat → Prop}

lemma Rewrites.trans (s : Rewrites S h h') (t : Rewrites S h' h'') : Rewrites S h h'' :=
  ⟨s.toWithin.trans t.toWithin, t.journal.trans s.journal⟩

lemma Rewrites.mono (s : Rewrites S h h') (hst : ∀ x, S x → T x) : Rewrites T h h' :=
  ⟨s.toWithin.mono hst, s.journal⟩

end Heap

namespace HeapM

variable {α β : Type}

/-- Work that reports nothing, where it comes to an end. -/
def Silent (m : HeapM α) : Prop := ∀ ⦃h : Heap⦄ ⦃a : α⦄ ⦃h' : Heap⦄, m h = .ok (a, h') → h'.journal = h.journal

lemma Silent.bind {m : HeapM α} {f : α → HeapM β} (hm : Silent m) (hf : ∀ a, Silent (f a)) :
    Silent (m >>= f) := by
  intro h b h' e
  obtain ⟨a, h1, e1, e2⟩ := of_bind e
  exact (hf a e2).trans (hm e1)

lemma Silent.ite {c : Prop} [Decidable c] {m k : HeapM α} (hm : Silent m) (hk : Silent k) :
    Silent (if c then m else k) := by
  split
  · exact hm
  · exact hk

lemma silent_pure (a : α) : Silent (pure a) := by
  intro h b h' e
  cases e
  rfl

lemma silent_get : Silent get := by
  intro h b h' e
  cases e
  rfl

lemma silent_reading (f : Heap → Except Halt α) : Silent (reading f) := by
  intro h a h' e
  rw [of_reading e]

lemma silent_modify {f : Heap → Heap} (hf : ∀ h, (f h).journal = h.journal) : Silent (modify f) := by
  intro h a h' e
  cases e
  exact hf h

lemma silent_store (a : Nat) (w : UInt64) : Silent (store a w) := by
  intro h b h' e
  unfold store at e
  split at e <;> cases e
  rfl

/-! ### The lists -/

lemma silent_setNext (u v : Link) : Silent (setNext u v) := by
  cases u with
  | head c => exact silent_get.bind fun _ => silent_modify fun _ => rfl
  | block a => exact silent_store a v.word

lemma silent_setPrev (u v : Link) : Silent (setPrev u v) := by
  cases u with
  | head c => exact silent_get.bind fun _ => silent_modify fun _ => rfl
  | block a => exact silent_store (wrapAdd a wordSize) v.word

lemma silent_insertFree (block : Nat) : Silent (insertFree block) :=
  (silent_reading _).bind fun _ => (silent_reading _).bind fun _ => (silent_store _ _).bind fun _ =>
    (silent_store _ _).bind fun _ => (silent_setPrev _ _).bind fun _ => silent_setNext _ _

lemma silent_removeFree (block : Nat) : Silent (removeFree block) :=
  (silent_reading _).bind fun _ => (silent_reading _).bind fun _ =>
    (silent_setNext _ _).bind fun _ => silent_setPrev _ _

/-! ### Merging -/

lemma silent_setHeader (block : Nat) (t : Tag) : Silent (setHeader block t) :=
  silent_get.bind fun _ => silent_store _ _

lemma silent_setFooter (block : Nat) (t : Tag) : Silent (setFooter block t) :=
  (silent_reading _).bind fun _ => silent_get.bind fun _ => silent_store _ _

lemma silent_writeFree (block : Nat) (t : Tag) : Silent (writeFree block t) :=
  (silent_reading _).bind fun _ => (silent_setHeader _ _).bind fun _ => silent_setFooter _ _

lemma silent_noteLast (block size : Nat) : Silent (noteLast block size) :=
  (silent_reading _).bind fun _ => (silent_reading _).bind fun _ =>
    .ite (silent_modify fun _ => rfl) (silent_pure _)

lemma silent_freeSize? (next : Nat) : Silent (freeSize? next) :=
  (silent_reading _).bind fun _ =>
    .ite ((silent_reading _).bind fun _ => silent_pure _) (silent_pure _)

lemma silent_absorbNext (size next : Nat) (size? : Option Nat) : Silent (absorbNext size next size?) := by
  cases size? with
  | none => exact silent_pure size
  | some more => exact (silent_removeFree next).bind fun _ => silent_reading _

lemma silent_absorbPrev (block size next : Nat) (nextSize : Option Nat) :
    Silent (absorbPrev block size next nextSize) :=
  (silent_reading _).bind fun _ => (silent_reading _).bind fun _ => (silent_reading _).bind fun _ =>
    (silent_removeFree _).bind fun _ => (silent_absorbNext _ _ _).bind fun _ =>
      (silent_reading _).bind fun _ => silent_pure _

/-- **Merging reports nothing.** -/
lemma silent_coalesce (block : Nat) : Silent (coalesce block) := by
  have hrest : ∀ (t : Tag) (run : FreeRun), Silent (do
      if run.block ≠ block || run.size ≠ t.size then
        writeFree run.block (.make run.size false run.prevAllocated)
      noteLast run.block run.size
      return run.block) := fun t run => by
    have hend : Silent (noteLast run.block run.size >>= fun _ => pure run.block) :=
      (silent_noteLast _ _).bind fun _ => silent_pure _
    exact .ite ((silent_writeFree _ _).bind fun _ => hend) hend
  refine (silent_reading _).bind fun t => (silent_reading _).bind fun _ => (silent_reading _).bind fun next =>
    (silent_freeSize? next).bind fun nextSize => .ite ?_ ?_
  · exact (silent_absorbNext _ _ _).bind fun _ => hrest t _
  · exact (silent_absorbPrev _ _ _ _).bind fun _ => hrest t _

end HeapM

end BoundaryTag
