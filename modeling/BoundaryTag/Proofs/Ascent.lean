import BoundaryTag.Proofs.Heap.Wandering

/-!
The walk over the blocks goes up.

Whatever memory holds, a walk over the heap reads headers of the region only, each at a higher address than
the one before, and so comes to an end. There is one exception: where a size leads past the last address,
the walk goes on below.
-/

namespace BoundaryTag

open Heap

/-- The walk over a heap sees these blocks, and reads nothing but their headers, which are in the region. Each
is at a higher address than the one before, and they are no more than there are words. -/
structure Heap.Ascends (h : Heap) (bs : List BlockInfo) : Prop where
  walked : h.blocks = .ok bs
  guarded : h.guarded.blocks = .ok bs
  ascending : bs.Pairwise fun b c => b.payload < c.payload
  length_le : bs.length ≤ (h.arena.stop - h.arena.start) / wordSize
  headers : ∀ b ∈ bs, h.arena.contains (b.payload - wordSize) wordSize ∧ b = h.seen b.payload

/-- A climb that no size leads past the last address is the walk. -/
lemma Heap.Situated.ascends {h : Heap} (w : h.Situated) (hr : h.ready = true)
    (hup : ∀ b ∈ h.climb, b.payload + b.size < addressSpace) : h.Ascends h.climb := by
  have hstart := walkStart_eq hr
  have hfirst : h.firstPayload ≤ h.walkStart := Nat.le_of_eq hstart.symm
  have hword := start_add_word_le hfirst
  have hfuel := w.length_climb_lt hfirst
  have hsame : h.guarded.climbFrom h.walkStart = h.climbFrom h.walkStart := climbFrom_guarded
  have hguarded : h.guarded.blocks = .ok h.climb := by
    unfold climb at hup ⊢
    rw [← hsame] at hup hfuel ⊢
    exact w.guarded.blocksFrom_eq hword hup hfuel
  refine ⟨w.blocksFrom_eq hword hup hfuel, hguarded, climbFrom_pairwise, ?_, fun b hb => ?_⟩
  · have hlen := length_climbFrom (h := h) (a := h.walkStart)
    show (h.climbFrom h.walkStart).length ≤ _
    unfold wordSize at *
    omega
  · obtain ⟨h1, h2, h3⟩ := mem_climbFrom hb
    exact ⟨contains_header (hstart ▸ h1) h2, h3⟩

/-- **The walk goes up**, if no block that it comes to has a size that leads past the last address: its
blocks are at ever higher addresses, no more than there are words in the region, and nothing but their
headers is read. If there is such a block, the walk goes down after it, or does not end. -/
theorem walk_ascends_iff {h : Heap} (w : h.Situated) (hr : h.ready = true) :
    h.guarded.Watchful ∧
      ((∃ bs, h.Ascends bs) ↔ ∀ b ∈ h.climb, b.payload + b.size < addressSpace) := by
  refine ⟨w.watchful, fun ⟨bs, hasc⟩ b hb => ?_, fun hup => ⟨_, w.ascends hr hup⟩⟩
  by_contra hwrap
  have hword := start_add_word_le (Nat.le_of_eq (walkStart_eq hr).symm)
  exact w.not_ascending hword ⟨b, hb, Nat.not_lt.mp hwrap⟩ hasc.walked hasc.ascending

/-- A size that takes the walk out of the region does no harm: it ends there. -/
theorem ascends_past_stop :
    ∃ h : Heap, h.Situated ∧ h.ready = true ∧ h.arena.stop = 8192 ∧
      h.Ascends [⟨4112, 112, true, true⟩, ⟨4224, 16384, true, true⟩] := by
  let h := (blank.forge 4112 (.make 112 true true)).forge 4224 (.make 16384 true true)
  obtain ⟨g, hr, hstop, hup, hblocks⟩ : h.Grounded ∧ h.ready = true ∧ h.arena.stop = 8192 ∧
      (∀ b ∈ h.climb, b.payload + b.size < addressSpace) ∧
      h.blocks = .ok [⟨4112, 112, true, true⟩, ⟨4224, 16384, true, true⟩] := by
    decide +kernel
  obtain ⟨bs, hasc⟩ := (walk_ascends_iff g.situated hr).2.mpr hup
  obtain rfl := Except.ok.inj (hasc.walked.symm.trans hblocks)
  exact ⟨h, g.situated, hr, hstop, hasc⟩

/-- But not every heap is walked upwards: here a forged size leads from the second block back into the first,
where another forged header is. -/
theorem walk_that_descends : ¬ ∀ h : Heap, h.Situated → h.ready = true → ∃ bs, h.Ascends bs := by
  intro hall
  let h := ((blank.forge 4112 (.make 112 true true)).forge 4160 (.make 8192 true true)).forge 4224
    (.make 18446744073709551552 true true)
  obtain ⟨g, hr, hblocks⟩ : h.Grounded ∧ h.ready = true ∧ h.blocks = .ok [⟨4112, 112, true, true⟩,
      ⟨4224, 18446744073709551552, true, true⟩, ⟨4160, 8192, true, true⟩] := by
    decide +kernel
  obtain ⟨bs, hasc⟩ := hall h g.situated hr
  obtain rfl := Except.ok.inj (hasc.walked.symm.trans hblocks)
  exact absurd hasc.ascending (by decide)

end BoundaryTag
