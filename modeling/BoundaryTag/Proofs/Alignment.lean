import BoundaryTag.Proofs.Delivery
import BoundaryTag.Proofs.Heap.Cutting
import BoundaryTag.Proofs.Integrity
import BoundaryTag.Proofs.Safety

/-!
Aligned blocks.

A block at a multiple of a power of two is cut out of a block that was found for more bytes: as many more
as the alignment and the smallest block have. So there is room for a block in front of the multiple, and for
the one that was asked for behind it, wherever the block that was found begins.
-/

namespace BoundaryTag

open Heap HeapM Piece

/-- What a granted request for an aligned block leaves. -/
structure Session.Aligns (s t : Session) (size align p : Nat) : Prop where
  aligned : p % align = 0
  held : t.held = ⟨p, size⟩ :: s.held
  others : ∀ b ∈ s.held, b.ptr ≠ p ∧ s.Unharmed t [] b
  /-- The block is cut out of one that was found for more bytes. In front of it is nothing, or enough to be a
  block. Behind it is nothing but what was cut off, or too little to be one. -/
  cut : ∃ need padded b h, blockSize? size = some need ∧ blockSize? (size + align + minBlock) = some padded ∧
    HeapM.allocateBlock padded s.heap = .ok (some b.payload, h) ∧ CutOut b p need h t.heap ∧
    (p = b.payload ∨ b.payload + minBlock ≤ p ∧ p ≤ b.payload + align + alignment) ∧
    p + need ≤ b.stop ∧ Snug need (t.usable p + wordSize) ∧
    t.usable p + wordSize = (b.restFrom p).cutTo need
  verified : t.heap.verify.run = .ok (.ok ())
  orderly : ∃ bs, t.heap.blocks = .ok bs ∧ BlocksOrderly t.heap bs ∧ ListsOrderly t.heap bs
  /-- Under guard, where a sum or difference that wraps around ends the request, all goes the same way. -/
  exact : s.guarded.step (.allocateAligned size align) = .ok (.ok (some p), t.guarded)

namespace Ledger

variable {l l' : Ledger} {size align need padded p q : Nat} {b : Piece}

lemma allocateAligned_some (h : l.allocateAligned size align = (.ok (some q), l')) :
    align.isPowerOfTwo ∧ minBlock ≤ align ∧
      ∃ need padded p l1, blockSize? size = some need ∧ blockSize? (size + align + minBlock) = some padded ∧
        l.obtainBlock padded = (some p, l1) ∧ q = alignedFrom p align ∧ l' = (l1.skipTo p q).trim q need := by
  unfold allocateAligned at h
  split at h
  · cases h
  next halign =>
  obtain ⟨hpow, hle⟩ := accepted_of_not_refused halign
  split at h
  · cases h
  split at h
  · next need padded hneed hpad =>
    split at h <;> cases h
    next p l1 ho => exact ⟨hpow, hle, need, padded, p, l1, hneed, hpad, ho, rfl, rfl⟩
  · cases h

/-- **There is room** in the block that was found, wherever it begins. -/
lemma alignedFrom_room (hs : l.Sound) (hb : b ∈ l.live) (hpow : align.isPowerOfTwo) (hmin : minBlock ≤ align)
    (hneed : blockSize? size = some need) (hpad : blockSize? (size + align + minBlock) = some padded)
    (hsnug : Snug padded b.size) (hq : q = alignedFrom b.payload align) :
    q % align = 0 ∧ (q = b.payload ∨ b.payload + minBlock ≤ q ∧ q ≤ b.payload + align + alignment ∧
      (q - b.payload) % alignment = 0) ∧ q + need ≤ b.stop := by
  have hpm : b.payload % alignment = 0 := by
    refine (hs.tiled hb.1).payload_mod ?_ hb.1
    have := hs.aligned
    unfold first wordSize alignment at *
    omega
  have hpos : 0 < align := Nat.lt_of_lt_of_le (by decide) hmin
  obtain ⟨hmod, hlead⟩ := alignedFrom_bounds hpos (align_mod hpow hmin) hpm
  rw [← hq] at hmod hlead
  obtain ⟨hn1, hn2, hn3, hn4, -⟩ := blockSize?_some hneed
  obtain ⟨hp1, hp2, hp3, -⟩ := blockSize?_some hpad
  refine ⟨hmod, hlead, ?_⟩
  unfold Snug at hsnug
  unfold Piece.stop minBlock wordSize alignment at *
  omega

end Ledger

namespace Session

variable {s t : Session} {l : Ledger} {size align p : Nat}

/-- **A request for an aligned block that is granted.** -/
lemma Has.aligns (k : s.Has l) (e : s.step (.allocateAligned size align) = .ok (.ok (some p), t))
    (hexact : s.guarded.step (.allocateAligned size align) = .ok (.ok (some p), t.guarded)) :
    s.Aligns t size align p := by
  obtain ⟨hheld, -, hapart⟩ := k.delivered (r := .allocateAligned size align) trivial e
  obtain ⟨hans, k', -⟩ := k.of_step (r := .allocateAligned size align) trivial e
  rw [Ledger.answer] at hans k'
  obtain ⟨hpow, hmin, need, padded, q, l1, hneed, hpad, ho, hp, hl'⟩ :=
    Ledger.allocateAligned_some (Prod.ext hans.symm rfl)
  replace k' : t.Has ((l1.skipTo q p).trim p need) := by
    rw [← hl']
    exact k'
  obtain ⟨hn, hnmod, -⟩ := blockSize?_some hneed
  obtain ⟨hpd, hpdmod, -⟩ := blockSize?_some hpad
  obtain ⟨h, hrun, w, -⟩ := k.shows.allocateBlock hpd hpdmod k.sound
  have hserved := Ledger.served_obtainBlock hpd hpdmod k.sound
  rw [ho] at hrun w hserved
  obtain ⟨hs1, ⟨size', hsnug, hlive⟩, -⟩ := hserved
  set b : Piece := ⟨q, size', .live⟩ with hb
  have hbl : b ∈ l1.live := hlive ▸ .inl rfl
  obtain ⟨hmod, hlead, hroom⟩ := Ledger.alignedFrom_room hs1 hbl hpow hmin hneed hpad hsnug hp
  have hq : p = b.payload ∨ b.payload + minBlock ≤ p ∧ (p - b.payload) % alignment = 0 :=
    hlead.imp_right fun h => ⟨h.1, h.2.2⟩
  have hcut : CutOut b p need h t.heap :=
    w.cutOut hs1 hbl hq hn hnmod (by omega) k'.sound k'.shows
  obtain ⟨hmem, hsize⟩ := Ledger.mem_carve hs1 hbl hq hn hnmod (by omega)
  have husable : t.usable p + wordSize = (b.restFrom p).cutTo need := by
    have hword : wordSize ≤ (b.restFrom p).cutTo need := by
      unfold Snug at hsize
      unfold minBlock wordSize at *
      omega
    rw [k'.usable_eq hmem]
    exact Nat.sub_add_cancel hword
  refine ⟨hmod, ?_, fun c hc => ⟨hapart c hc (by simp [Request.returns]), ?_⟩, ?_, k'.shows.verify k'.sound,
    ⟨_, k'.shows.blocks k'.sound, k'.shows.blocksOrderly k'.sound (k'.sound.pages_ne hmem.1),
      k'.shows.listsOrderly k'.sound⟩, hexact⟩
  · rw [hheld, Request.filter_returns rfl]
    rfl
  · exact (k.unharmed_step (r := .allocateAligned size align) trivial e hc (by simp [Request.returns])).of_not_stores
      fun _ => id
  · exact ⟨need, padded, b, h, hneed, hpad, hrun, hcut, hlead.imp_right fun h => ⟨h.1, h.2.1⟩, hroom,
      husable ▸ hsize, husable⟩

end Session

/-- **An aligned block, from end to end.** In every session that a run ends in, an aligned request that is
answered with a block has it at a multiple of the alignment, with the size that its bytes need or sixteen
bytes more. What was in front of it in the block that was found for it, and what is left behind it, is free
again, in one block with the free ones next to it; and that is so wherever the block was found. The heap is
as orderly as before, all other blocks keep their bytes, and no sum or difference wraps around. -/
theorem aligned_from_end_to_end {s t : Session} {size align p : Nat} (hs : s.Reachable)
    (e : s.step (.allocateAligned size align) = .ok (.ok (some p), t)) : s.Aligns t size align p := by
  obtain ⟨l, k⟩ := hs.has_ledger
  exact k.aligns e (hs.step_guarded (r := .allocateAligned size align) trivial e)

/-- Here the block that was found comes from a quick list, and the one before it is free. It is cut where only
sixteen bytes more could be, and its 80 bytes in front join the 608 that were free. -/
theorem aligned_from_quick_list :
    ∃ s t : Session, s.step (.allocateAligned 24 64) = .ok (.ok (some 4800), t) ∧
      s.Aligns t 24 64 4800 ∧
      s.heap.blocks = .ok [⟨4112, 608, false, true⟩, ⟨4720, 128, true, false⟩, ⟨4848, 32, true, true⟩,
        ⟨4880, 3312, false, true⟩] ∧
      t.heap.blocks = .ok [⟨4112, 688, false, true⟩, ⟨4800, 48, true, false⟩, ⟨4848, 32, true, true⟩,
        ⟨4880, 3312, false, true⟩] := by
  obtain ⟨as, s, hs⟩ := Session.sample_serves
    [.allocate 600, .allocate 120, .allocate 24, .release 4112, .release 4720] (by decide +kernel)
  have hblocks : s.heap.blocks = .ok [⟨4112, 608, false, true⟩, ⟨4720, 128, true, false⟩, ⟨4848, 32, true, true⟩,
      ⟨4880, 3312, false, true⟩] :=
    Session.shown hs (by decide +kernel)
  have hanswer : (s.step (.allocateAligned 24 64)).map Prod.fst = .ok (.ok (some 4800)) :=
    Session.shown hs (by decide +kernel)
  have hafter : (s.step (.allocateAligned 24 64)).bind (·.2.heap.blocks) = .ok [⟨4112, 688, false, true⟩,
      ⟨4800, 48, true, false⟩, ⟨4848, 32, true, true⟩, ⟨4880, 3312, false, true⟩] :=
    Session.shown hs (by decide +kernel)
  obtain ⟨t, e⟩ := Session.step_of_answer hanswer
  rw [e] at hafter
  exact ⟨s, t, e, aligned_from_end_to_end (Session.sample_reachable hs) e, hblocks, hafter⟩

end BoundaryTag
