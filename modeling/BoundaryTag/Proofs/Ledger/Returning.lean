import BoundaryTag.Proofs.Ledger.Edits

/-!
Blocks that clients hand back.

A quick list is flushed block by block: its blocks first go to no list, and are then freed one after the
other. A block handed back leaves the blocks that clients have, and no other does.
-/

namespace BoundaryTag

open Piece

namespace Ledger

variable {l : Ledger} {b : Piece} {c : Fin quickLists}

lemma quick_foldl_free (ps : List Nat) : (ps.foldl free l).quick = l.quick := by
  induction ps generalizing l with
  | nil => rfl
  | cons p ps ih => rw [List.foldl_cons, ih, quick_free]

@[simp] lemma arena_foldl_free (ps : List Nat) : (ps.foldl free l).arena = l.arena := by
  induction ps generalizing l with
  | nil => rfl
  | cons p ps ih => rw [List.foldl_cons, ih, arena_free]

@[simp] lemma arena_release (p : Nat) : (l.release p).arena = l.arena := by
  unfold release
  split
  · exact arena_free l p
  · split
    · exact arena_foldl_free _
    · rfl

/-! ### Flushing -/

/-- The blocks of a quick list, with the clients again. -/
def shelf (l : Ledger) (c : Fin quickLists) : Set Piece :=
  {b | b.payload ∈ l.quick c ∧ b.size = quickSize c ∧ b.use = .live}

/-- What else clients have, they have after a block is freed. -/
lemma live_free_of_ne {d : Piece} (hs : l.Sound) (hb : b ∈ l.live) (hd : d ∈ l.live)
    (hne : d.payload ≠ b.payload) : d ∈ (l.free b.payload).live :=
  (sound_free hs hb).2 ▸ ⟨hd, fun he => hne (congrArg Piece.payload he)⟩

/-- Blocks freed one after the other. -/
lemma sound_foldl_free {ps : List Nat} (hs : l.Sound) (hnd : ps.Nodup)
    (hps : ∀ p ∈ ps, ∃ d ∈ l.live, d.payload = p) :
    (ps.foldl free l).Sound ∧ (ps.foldl free l).live = l.live \ {d | d.payload ∈ ps} := by
  induction ps generalizing l with
  | nil =>
    refine ⟨hs, ?_⟩
    ext d
    simp
  | cons p ps ih =>
    obtain ⟨b, hb, rfl⟩ := hps p List.mem_cons_self
    obtain ⟨hp, hrest⟩ := List.nodup_cons.mp hnd
    obtain ⟨hs1, hl1⟩ := sound_free hs hb
    obtain ⟨hs2, hl2⟩ := ih hs1 hrest fun q hq => by
      obtain ⟨d, hd, rfl⟩ := hps q (List.mem_cons_of_mem _ hq)
      exact ⟨d, live_free_of_ne hs hb hd fun he => hp (he ▸ hq), rfl⟩
    refine ⟨hs2, ?_⟩
    rw [List.foldl_cons, hl2, hl1]
    ext d
    simp only [Set.mem_sdiff, Set.mem_singleton_iff, Set.mem_ofPred_eq, List.mem_cons, not_or]
    constructor
    · rintro ⟨⟨hd, hne⟩, hnot⟩
      exact ⟨hd, fun he => hne ((hs.tiled hb.1).eq_of_payload hd.1 hb.1 he), hnot⟩
    · rintro ⟨hd, hne, hnot⟩
      exact ⟨⟨hd, fun he => hne (congrArg Piece.payload he)⟩, hnot⟩

/-- A block with its client again, if it is on the quick list. -/
def unshelve (l : Ledger) (c : Fin quickLists) (b : Piece) : Piece :=
  if b.payload ∈ l.quick c then { b with use := .live } else b

lemma unshelve_of_mem (h : b.payload ∈ l.quick c) : l.unshelve c b = { b with use := .live } := if_pos h

lemma unshelve_of_not_mem (h : b.payload ∉ l.quick c) : l.unshelve c b = b := if_neg h

/-- The blocks that are not with clients then are those that are not on the quick list. -/
lemma mem_map_unshelve (hu : b.use ≠ .live) :
    b ∈ l.pieces.map (l.unshelve c) ↔ b ∈ l.pieces ∧ b.payload ∉ l.quick c := by
  constructor
  · intro hb
    obtain ⟨d, hd, rfl⟩ := List.mem_map.mp hb
    by_cases hin : d.payload ∈ l.quick c
    · rw [unshelve_of_mem hin] at hu
      exact absurd rfl hu
    · rw [unshelve_of_not_mem hin]
      exact ⟨hd, hin⟩
  · rintro ⟨hb, hnot⟩
    exact List.mem_map.mpr ⟨b, hb, unshelve_of_not_mem hnot⟩

lemma Sound.not_mem_quick (hs : l.Sound) (hb : b ∈ l.pieces) (hu : b.use ≠ .quick) :
    b.payload ∉ l.quick c :=
  fun hin => hu (hs.shelved.eq_of_mem (hs.tiled hb) hb hin).1

/-- Free blocks are as far apart as before. -/
lemma coalesced_unshelve (hs : l.Sound) : Coalesced (l.pieces.map (l.unshelve c)) := by
  have hfree : ∀ d, (l.unshelve c d).use = .free → d.use = .free := by
    intro d hu
    by_cases hin : d.payload ∈ l.quick c
    · rw [unshelve_of_mem hin] at hu
      cases hu
    · rwa [unshelve_of_not_mem hin] at hu
  refine (List.isChain_map _).mpr (hs.coalesced.imp fun d e hde hfde => ?_)
  exact hde ⟨hfree d hfde.1, hfree e hfde.2⟩

lemma live_withdraw (hs : l.Sound) (c : Fin quickLists) :
    (l.withdraw c).live = l.live ∪ l.shelf c := by
  ext d
  simp only [mem_live, Set.mem_union]
  constructor
  · rintro ⟨hd, hu⟩
    obtain ⟨e, he, rfl⟩ := List.mem_map.mp hd
    by_cases hin : e.payload ∈ l.quick c
    · rw [if_pos hin]
      exact .inr ⟨hin, (hs.shelved.eq_of_mem (hs.tiled he) he hin).2, rfl⟩
    · rw [if_neg hin] at hu ⊢
      exact .inl ⟨he, hu⟩
  · rintro (⟨hd, hu⟩ | ⟨hin, hsize, hu⟩)
    · exact ⟨List.mem_map.mpr ⟨d, hd, if_neg (hs.not_mem_quick hd (by rw [hu]; decide))⟩, hu⟩
    · obtain ⟨e, he, hep, -, hes⟩ := (hs.shelved.mem _ _).mp hin
      refine ⟨List.mem_map.mpr ⟨e, he, (if_pos (hep ▸ hin)).trans ?_⟩, hu⟩
      rw [hep, hes, ← hsize, ← hu]

/-- A quick list taken apart leaves its blocks with the clients. -/
lemma sound_withdraw (hs : l.Sound) (c : Fin quickLists) : (l.withdraw c).Sound := by
  obtain ⟨a, z, ht⟩ := hs.exists_tiles
  refine ⟨hs.aligned, fun h0 => ?_, fun h0 => ?_, coalesced_unshelve hs, ?_, ?_⟩
  · show l.pieces.map (l.unshelve c) = []
    rw [hs.empty h0]
    rfl
  · refine (hs.tiles h0).map (l.unshelve c) fun d _ => ?_
    by_cases hin : d.payload ∈ l.quick c
    · rw [unshelve_of_mem hin]
      exact ⟨rfl, rfl⟩
    · rw [unshelve_of_not_mem hin]
      exact ⟨rfl, rfl⟩
  · refine hs.filed.congr fun d hd => (mem_map_unshelve (by rw [hd]; decide)).trans ?_
    exact ⟨fun h => h.1, fun h => ⟨h, hs.not_mem_quick h (by rw [hd]; decide)⟩⟩
  · refine hs.shelved.shrink ht (List.nil_sublist _) fun d hd => ?_
    refine (mem_map_unshelve (by rw [hd]; decide)).trans (and_congr_right fun _ => ?_)
    simp

lemma mem_live_withdraw (hs : l.Sound) {p : Nat} (hp : p ∈ l.quick c) :
    ⟨p, quickSize c, .live⟩ ∈ (l.withdraw c).live := by
  rw [live_withdraw hs c]
  exact .inr ⟨hp, rfl, rfl⟩

/-- **A quick list flushed** is empty, and clients keep what they have. -/
lemma sound_flush (hs : l.Sound) (c : Fin quickLists) :
    (l.flush c).Sound ∧ (l.flush c).live = l.live ∧
      (l.flush c).quick = Function.update l.quick c [] := by
  obtain ⟨hs1, hl1⟩ := sound_foldl_free (sound_withdraw hs c) (hs.shelved.nodup c) fun p hp =>
    ⟨_, mem_live_withdraw hs hp, rfl⟩
  refine ⟨hs1, ?_, quick_foldl_free _⟩
  rw [flush, hl1, live_withdraw hs c]
  ext d
  constructor
  · rintro ⟨hd | hd, hnot⟩
    · exact hd
    · exact absurd hd.1 hnot
  · intro hd
    exact ⟨.inl hd, hs.not_mem_quick hd.1 (by rw [hd.2]; decide)⟩

/-! ### Releasing -/

/-- **A block released** leaves the ledger sound, and all other blocks with their clients. -/
lemma sound_release (hs : l.Sound) (hb : b ∈ l.live) :
    (l.release b.payload).Sound ∧ (l.release b.payload).live = l.live \ {b} := by
  unfold release
  rw [hs.sizeAt_eq hb.1]
  rcases hq : quickClass? b.size with _ | c
  · exact sound_free hs hb
  · have hsize := quickClass?_eq_some.mp hq
    have hlen := hs.shelved.length_le c
    by_cases hfull : (l.quick c).length = quickDepth
    · simp only [if_pos hfull]
      obtain ⟨hs1, hl1, hq1⟩ := sound_flush hs c
      rw [← hl1] at hb ⊢
      exact sound_push hs1 hb hsize (by rw [hq1, Function.update_self]; decide)
    · simp only [if_neg hfull]
      exact sound_push hs hb hsize (by omega)

end Ledger

end BoundaryTag
