import BoundaryTag.Proofs.Heap.Verifying
import BoundaryTag.Proofs.Session

/-!
The integrity of a heap.

In every session that a run ends in, the blocks of the heap follow on each other from the first address to
the last, their tags agree, no two free ones are next to each other, and the lists hold what they should.
The verifier finds nothing to object to, and no request that clients may make gets stuck.
-/

namespace BoundaryTag

open Heap HeapM Piece

/-- The blocks that a walk over a heap sees cover its region, and their tags agree. -/
structure BlocksOrderly (h : Heap) (bs : List BlockInfo) : Prop where
  first : ∀ b ∈ bs.head?, b.payload = h.firstPayload ∧ b.prevAllocated = true
  sizes : ∀ b ∈ bs, minBlock ≤ b.size ∧ b.size % alignment = 0
  follow : bs.IsChain fun b c => c.payload = b.payload + b.size
  flags : bs.IsChain fun b c => c.prevAllocated = b.allocated
  coalesced : bs.IsChain fun b c => b.allocated ∨ c.allocated
  footers : ∀ b ∈ bs, b.allocated = false →
    ∃ t, h.tagAt b.payload = .ok t ∧ h.footerBefore (b.payload + b.size) = .ok t
  last : ∃ b ∈ bs.getLast?, b.payload + b.size = h.arena.stop ∧ h.last = b.payload

/-- The main lists are rings of the free blocks of their class, and the quick lists chains of allocated
blocks of their size, each as long as it counts. -/
structure ListsOrderly (h : Heap) (bs : List BlockInfo) : Prop where
  main : ∀ c, ∃ ps, h.mainList c = .ok ps ∧ h.freeListLen c = .ok ps.length ∧ ps.Nodup ∧
    Linked h.nextLink h.prevLink (.head c) (ps.map .block) (.head c) ∧
    ∀ p, p ∈ ps ↔ ∃ b ∈ bs, b.payload = p ∧ b.allocated = false ∧ mainClass b.size = c
  quick : ∀ c, ∃ ps, h.quickList c = .ok ps ∧ h.quickListLen c = ps.length ∧ ps.Nodup ∧
    ps.length ≤ quickDepth ∧
    ∀ p ∈ ps, ∃ b ∈ bs, b.payload = p ∧ b.allocated = true ∧ b.size = quickSize c

section Shown

variable {h : Heap} {l : Ledger}

lemma Shows.blocksOrderly (hs : l.Sound) (w : Shows h l) (h0 : l.arena.pages ≠ 0) :
    BlocksOrderly h (walk true l.pieces) := by
  obtain ⟨r, hlast⟩ := w.mirrors h0
  have ht := hs.tiles h0
  have hne := hs.pieces_ne_nil h0
  refine ⟨fun i hi => ?_, fun i hi => ?_, ?_, ?_, ?_, fun i hi hfree => ?_, ?_⟩
  · rw [w.first_eq h0]
    rcases hp : l.pieces with _ | ⟨b, rest⟩
    · exact absurd hp hne
    · rw [hp] at hi ht
      obtain rfl : _ = i := Option.some.inj hi
      exact ⟨ht.1, rfl⟩
  · obtain ⟨b, hb, -, hsize, -⟩ := mem_walk hi
    rw [hsize]
    exact (ht.bounds hb).2.2
  · exact isChain_walk ht.isChain fun b c g hbc => hbc
  · exact isChain_walk ht.isChain fun b c g _ => rfl
  · refine isChain_walk hs.coalesced fun b c g hbc => ?_
    simp only [Piece.isFree, Bool.not_eq_true', decide_eq_false_iff_not]
    exact not_and_or.mp hbc
  · obtain ⟨b, hb, hp, hz, hu⟩ := mem_walk hi
    rw [hp, hz]
    exact ⟨_, r.tagAt_eq hb, r.footerBefore_eq hb (by simpa [hfree] using hu)⟩
  · obtain ⟨b, hb⟩ : ∃ b, l.pieces.getLast? = some b := ⟨_, List.getLast?_eq_some_getLast hne⟩
    obtain ⟨i, hi, hp, hz⟩ := walk_getLast? (f := true) hb
    refine ⟨i, hi, ?_, ?_⟩
    · rw [hp, hz, w.stop_eq h0]
      exact ht.stop_last hb
    · rw [hlast b hb, hp]

lemma Shows.listsOrderly (hs : l.Sound) (w : Shows h l) : ListsOrderly h (walk true l.pieces) := by
  refine ⟨fun c => ⟨l.main c, w.mainList hs c, w.freeListLen hs c, hs.filed.nodup c, w.ringed.ring c,
    fun p => ⟨fun hp => ?_, ?_⟩⟩, fun c => ⟨l.quick c, w.quickList hs c, w.quickListLen c,
    hs.shelved.nodup c, hs.shelved.length_le c, fun p hp => ?_⟩⟩
  · obtain ⟨b, hb, rfl, hu, hclass⟩ := (hs.filed.mem c p).mp hp
    obtain ⟨i, hi, h1, h2, h3⟩ := walk_mem (f := true) hb
    refine ⟨i, hi, h1, ?_, h2 ▸ hclass⟩
    rw [h3, Piece.isFree, hu]
    rfl
  · rintro ⟨i, hi, rfl, hu, hclass⟩
    obtain ⟨b, hb, h1, h2, h3⟩ := mem_walk hi
    rw [hu] at h3
    exact (hs.filed.mem c _).mpr ⟨b, hb, h1.symm, by simpa [Piece.isFree] using h3, h2 ▸ hclass⟩
  · obtain ⟨b, hb, rfl, hu, hsize⟩ := (hs.shelved.mem c p).mp hp
    obtain ⟨i, hi, h1, h2, h3⟩ := walk_mem (f := true) hb
    refine ⟨i, hi, h1, ?_, h2.trans hsize⟩
    rw [h3, Piece.isFree, hu]
    rfl

end Shown

/-- **Every session that a run ends in has a sound heap.** The verifier accepts it, the blocks and the
lists obey all rules, a heap without pages has no block, and each request that clients may make next is
answered. -/
theorem integrity_of_reachable {s : Session} (hs : s.Reachable) :
    s.heap.verify.run = .ok (.ok ()) ∧
    (∃ bs, s.heap.blocks = .ok bs ∧ ListsOrderly s.heap bs ∧
      if s.heap.ready then BlocksOrderly s.heap bs else bs = []) ∧
    ∀ r, s.Allows r → ∃ a t, s.step r = .ok (a, t) := by
  obtain ⟨l, k⟩ := hs.has_ledger
  refine ⟨k.shows.verify k.sound, ⟨_, k.shows.blocks k.sound, k.shows.listsOrderly k.sound, ?_⟩,
    fun r hr => ?_⟩
  · by_cases h0 : l.arena.pages = 0
    · rw [if_neg (by rw [k.shows.ready]; exact not_not.mpr h0), k.sound.empty h0]
      rfl
    · rw [if_pos (k.shows.ready.mpr h0)]
      exact k.shows.blocksOrderly k.sound h0
  · obtain ⟨t, e, -⟩ := k.step hr
    exact ⟨_, t, e⟩

theorem integrity_after_release :
    ∃ s : Session, s.held = [⟨4144, 500⟩] ∧ s.heap.verify.run = .ok (.ok ()) := by
  have hheld : (Session.sample.serveAll [.allocate 24, .allocate 500, .release 4112]).map
      (·.2.held) = some [⟨4144, 500⟩] := by
    decide +kernel
  obtain ⟨⟨as, s⟩, hrun, hs⟩ := Option.map_eq_some_iff.mp hheld
  exact ⟨s, hs, (integrity_of_reachable (Session.sample_reachable hrun)).1⟩

end BoundaryTag
