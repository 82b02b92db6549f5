import BoundaryTag.Proofs.Ownership

/-!
What the check says of the blocks.

Of the blocks of a walk, the check lets those pass that a client holds, and refuses all others as not
allocated. It reads the header of the block, and then the chain of a quick list or the tags of the block
before, so what clients have written into their blocks does not matter to it.
-/

namespace BoundaryTag

open Heap Piece

/-- The check, and what is said of the size, are right about a block of the walk. -/
structure Session.Judged (s : Session) (b : BlockInfo) : Prop where
  passes : (s.heap.check b.payload).run = .ok (.ok ()) ↔ s.holds b.payload
  refused : ¬ s.holds b.payload →
    (s.heap.check b.payload).run = .ok (.error (.invalidPointer b.payload .notAllocated))
  free : b.allocated = false →
    (s.heap.check b.payload).run = .ok (.error (.invalidPointer b.payload .notAllocated))
  quick : ∀ c ps, s.heap.quickList c = .ok ps → b.payload ∈ ps →
    (s.heap.check b.payload).run = .ok (.error (.invalidPointer b.payload .notAllocated))
  usable : s.holds b.payload → (s.heap.usableSize b.payload).run = .ok (.ok (b.size - wordSize))

section Checks

variable {h : Heap} {l : Ledger} {b : Piece}

lemma Shows.check (hs : l.Sound) (w : Shows h l) (hb : b ∈ l.live) :
    (h.check b.payload).run = .ok (.ok ()) :=
  check_of_validate (w.validate hs hb)

lemma Shows.usableSize (hs : l.Sound) (w : Shows h l) (hb : b ∈ l.live) :
    (h.usableSize b.payload).run = .ok (.ok (b.size - wordSize)) := by
  have hread := w.legible hs hb.1
  have hsize := ((hs.tiled hb.1).bounds hb.1).2.2.1
  unfold Heap.usableSize
  rw [check_bind (w.check hs hb), check_bind (check_read hread.tag), hread.size,
    difference_eq (by unfold minBlock at hsize; unfold wordSize; omega)]
  rfl

end Checks

namespace Session

variable {s : Session} {l : Ledger}

/-- **The check is right about every block** of a session with a ledger. -/
lemma Has.judged (k : s.Has l) {i : BlockInfo} (hi : i ∈ walk true l.pieces) : s.Judged i := by
  obtain ⟨b, hb, hp, hz, hu⟩ := mem_walk hi
  have hs := k.sound
  have ht := hs.tiled hb
  have hlive : s.holds b.payload → b ∈ l.live := by
    intro hheld
    obtain ⟨d, hd, hdp, hdu⟩ := (k.holds_iff _).mp hheld
    obtain rfl := ht.eq_of_payload hd hb hdp
    exact ⟨hb, hdu⟩
  have hrefused : b.use ≠ .live →
      (s.heap.check b.payload).run = .ok (.error (.invalidPointer b.payload .notAllocated)) :=
    fun hne => (k.shows.refuses hs hb hne).check
  rw [← hp] at hlive hrefused
  refine ⟨⟨fun hpass => ?_, fun hheld => hp ▸ k.shows.check hs (hlive hheld)⟩, fun hnot => ?_,
    fun hfree => ?_, fun c ps hread hin => ?_,
    fun hheld => hp ▸ hz ▸ k.shows.usableSize hs (hlive hheld)⟩
  · by_cases huse : b.use = .live
    · exact (k.holds_iff _).mpr ⟨b, hb, hp.symm, huse⟩
    · rw [hrefused huse] at hpass
      cases hpass
  · exact hrefused fun huse => hnot ((k.holds_iff _).mpr ⟨b, hb, hp.symm, huse⟩)
  · refine hrefused fun huse => ?_
    rw [hu, isFree, huse] at hfree
    cases hfree
  · rw [k.shows.quickList hs c] at hread
    cases hread
    refine hrefused fun huse => ?_
    have := (hs.shelved.eq_of_mem ht hb (hp ▸ hin)).1
    rw [huse] at this
    cases this

end Session

/-- **The check is exact on the blocks.** In a session that a run ends in, it passes a block of the walk
if a client holds it, and refuses all others as not allocated. What clients hold is on the walk, so it
passes, and no release or resize of it ends the run. -/
theorem check_exact_of_reachable {s : Session} (hs : s.Reachable) :
    ∃ bs, s.heap.blocks = .ok bs ∧ (∀ b ∈ bs, s.Judged b) ∧
      ∀ p, s.holds p → p ∈ bs.map BlockInfo.payload ∧ (s.heap.check p).run = .ok (.ok ()) ∧
        (∃ t, s.step (.release p) = .ok (.ok none, t)) ∧
        ∀ n, ∃ a t, s.step (.resize p n) = .ok (a, t) := by
  obtain ⟨l, k⟩ := hs.has_ledger
  refine ⟨_, k.shows.blocks k.sound, fun b => k.judged, fun p hp => ?_⟩
  obtain ⟨b, hb, rfl, hu⟩ := (k.holds_iff p).mp hp
  obtain ⟨t, hrelease, -⟩ := k.step (r := .release b.payload) hp
  refine ⟨walk_payloads ▸ List.mem_map_of_mem hb, k.shows.check k.sound ⟨hb, hu⟩, ⟨t, hrelease⟩,
    fun n => ?_⟩
  obtain ⟨t, hresize, -⟩ := k.step (r := .resize b.payload n) hp
  exact ⟨_, t, hresize⟩

/-- Here a block is quick-listed, one is free, and one is held and says that the block before it is
free. -/
theorem check_exact_after_releases :
    ∃ s : Session, s.heap.blocks = .ok [⟨4112, 32, true, true⟩, ⟨4144, 512, false, true⟩,
        ⟨4656, 608, true, false⟩, ⟨5264, 2928, false, true⟩] ∧
      s.Judged ⟨4112, 32, true, true⟩ ∧ s.Judged ⟨4144, 512, false, true⟩ ∧
      s.Judged ⟨4656, 608, true, false⟩ := by
  have hend : (Session.sample.serveAll [.allocate 24, .allocate 500, .allocate 600, .release 4112,
      .release 4144]).map (fun x => x.2.heap.blocks) =
        some (.ok [⟨4112, 32, true, true⟩, ⟨4144, 512, false, true⟩, ⟨4656, 608, true, false⟩,
          ⟨5264, 2928, false, true⟩]) := by
    decide +kernel
  obtain ⟨⟨as, s⟩, hs, hblocks⟩ := Option.map_eq_some_iff.mp hend
  obtain ⟨bs, hbs, hjudged, -⟩ := check_exact_of_reachable (Session.sample_reachable hs)
  rw [hblocks] at hbs
  cases hbs
  exact ⟨s, hblocks, hjudged _ (by simp), hjudged _ (by simp), hjudged _ (by simp)⟩

end BoundaryTag
