import BoundaryTag.Proofs.Ledger.Serving
import BoundaryTag.SizeClass.Lemmas

/-!
What fits.

A larger block is in no lower class, so a search that begins at the class of the size misses no block: it
fails only if no free block is large enough.
-/

namespace BoundaryTag

open Piece

namespace Ledger

/-- There is a free block of at least `need` bytes. -/
def Stocks (l : Ledger) (need : Nat) : Prop := ∃ b ∈ l.pieces, b.use = .free ∧ need ≤ b.size

/-- The quick list of the blocks of exactly `need` bytes, if they have one. -/
def quickFor (l : Ledger) (need : Nat) : List Nat := (quickClass? need).elim [] l.quick

variable {l : Ledger} {need p : Nat} {b : Piece}

lemma fit?_of_mem (hs : l.Sound) (hb : b ∈ l.pieces) (hu : b.use = .free) (hle : need ≤ b.size) :
    l.fit? need ≠ none := by
  intro hnone
  have hlist : mainClass b.size ∈ classesFor need :=
    List.mem_filter.mpr ⟨List.mem_finRange _, decide_eq_true (mainClass_mono hle)⟩
  have hmiss := List.findSome?_eq_none_iff.mp hnone _ hlist
  have hin : b.payload ∈ l.main (mainClass b.size) := (hs.filed.mem _ _).mpr ⟨b, hb, rfl, hu, rfl⟩
  refine List.find?_eq_none.mp hmiss _ hin ?_
  rw [hs.sizeAt_eq hb]
  exact decide_eq_true hle

/-- **A search fails only if there is nothing to find.** -/
lemma fit?_eq_none_iff (hs : l.Sound) : l.fit? need = none ↔ ¬ l.Stocks need := by
  constructor
  · rintro hnone ⟨b, hb, hu, hle⟩
    exact fit?_of_mem hs hb hu hle hnone
  · intro hnot
    rcases hf : l.fit? need with _ | p
    · rfl
    · obtain ⟨b, hb, -, hu, hle⟩ := fit?_eq_some hs hf
      exact absurd ⟨b, hb, hu, hle⟩ hnot

/-- A block from the main lists that have one is a free block, without a page more. -/
lemma serveGrowing_stocked (hs : l.Sound) (h : l.Stocks need) :
    ∃ b ∈ l.pieces, b.use = .free ∧ need ≤ b.size ∧
      l.serveGrowing need = (some b.payload, l.take b.payload need) := by
  obtain ⟨p, hf⟩ := Option.ne_none_iff_exists'.mp fun hnone => (fit?_eq_none_iff hs).mp hnone h
  obtain ⟨b, hb, rfl, hu, hle⟩ := fit?_eq_some hs hf
  exact ⟨b, hb, hu, hle, serveGrowing_some hf⟩

lemma serve_quick {ps : List Nat} (h : l.quickFor need = p :: ps) :
    ∃ c, need = quickSize c ∧ l.quick c = p :: ps ∧
      l.serve need = (some p, { l.mark p .live with quick := Function.update l.quick c ps }) := by
  unfold quickFor at h
  rcases hq : quickClass? need with _ | c <;> rw [hq] at h
  · cases h
  · have hlist : l.quick c = p :: ps := h
    refine ⟨c, quickClass?_eq_some.mp hq, hlist, ?_⟩
    rw [serve, hq]
    simp only [hlist]

lemma serve_of_quick_nil (h : l.quickFor need = []) : l.serve need = l.serveGrowing need := by
  unfold quickFor at h
  unfold serve
  split
  · rfl
  · next c hq =>
    rw [hq] at h
    rw [show l.quick c = [] from h]

end Ledger

end BoundaryTag
