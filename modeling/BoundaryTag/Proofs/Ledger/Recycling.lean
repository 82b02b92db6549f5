import BoundaryTag.Proofs.Ledger.Fitting
import BoundaryTag.Proofs.Ledger.Returning

/-!
Blocks that come back.

A block that is freed is in a free block afterwards, and no free block gets smaller when another is freed. A
block that is released is on the quick list of its size, if that has one. What it leaves for a request of
another size is what was free before, and the blocks of this list if it was full.
-/

namespace BoundaryTag

open Piece

namespace Ledger

variable {l l' : Ledger} {need m n p : Nat} {b : Piece} {c : Fin quickLists}

/-! ### Freeing -/

lemma size_le_total {ps : List Piece} (hb : b ∈ ps) : b.size ≤ total ps := by
  obtain ⟨x, y, rfl⟩ := List.append_of_mem hb
  rw [total_append, total_cons]
  omega

/-- **A block that is freed** is in a free block, and no free block has got smaller. -/
lemma stocks_free (hs : l.Sound) (hb : b ∈ l.live) (h : n ≤ b.size ∨ l.Stocks n) :
    (l.free b.payload).Stocks n := by
  obtain ⟨hmem, hu⟩ := hb
  obtain ⟨before, after, hp⟩ := List.append_of_mem hmem
  obtain ⟨x, left, right, y, har, hj⟩ := join_eq l before b after
  have hwhole : ∀ c ∈ left ++ b :: right, c.size ≤ (merge left b right).size := by
    intro c hc
    have hle := size_le_total hc
    rw [total_append, total_cons, ← Nat.add_assoc] at hle
    exact hle
  rw [free_eq (hs.tiled hmem) hp, hj]
  have hjoined : ∀ c ∈ left ++ b :: right, n ≤ c.size → Stocks
      { l with
        pieces := x ++ merge left b right :: y
        main := (l.main.without (payloads (left ++ right))).add (merge left b right) } n :=
    fun c hc hle => ⟨_, by simp, rfl, hle.trans (hwhole c hc)⟩
  rcases h with hle | ⟨c, hc, hcu, hle⟩
  · exact hjoined b (by simp) hle
  · rw [hp, har.before_eq, har.after_eq] at hc
    simp only [List.mem_append, List.mem_cons] at hc
    rcases hc with (hc | hc) | rfl | hc | hc
    · exact ⟨c, by simp [hc], hcu, hle⟩
    · exact hjoined c (by simp [hc]) hle
    · exact hjoined c (by simp) hle
    · exact hjoined c (by simp [hc]) hle
    · exact ⟨c, by simp [hc], hcu, hle⟩

/-- The same for blocks of one size freed one after the other. -/
lemma stocks_foldl_free {ps : List Nat} (hs : l.Sound) (hnd : ps.Nodup)
    (hps : ∀ p ∈ ps, ⟨p, m, .live⟩ ∈ l.live) (h : l.Stocks n ∨ ps ≠ [] ∧ n ≤ m) :
    (ps.foldl free l).Stocks n := by
  induction ps generalizing l with
  | nil => exact h.resolve_right fun hne => hne.1 rfl
  | cons p ps ih =>
    obtain ⟨hp, hnd⟩ := List.nodup_cons.mp hnd
    have hb := hps p List.mem_cons_self
    refine ih (sound_free hs hb).1 hnd (fun q hq => ?_) (.inl (stocks_free hs hb ?_))
    · refine live_free_of_ne hs hb (hps q (List.mem_cons_of_mem _ hq)) ?_
      rintro rfl
      exact hp hq
    · exact h.symm.imp (fun hle => hle.2) id

lemma stocks_withdraw (c : Fin quickLists) (hs : l.Sound) (h : l.Stocks n) : (l.withdraw c).Stocks n := by
  obtain ⟨b, hb, hu, hle⟩ := h
  refine ⟨b, List.mem_map.mpr ⟨b, hb, if_neg ?_⟩, hu, hle⟩
  exact hs.not_mem_quick hb (by rw [hu]; decide)

/-- A quick list that is not empty leaves free blocks of its size when it is flushed. -/
lemma stocks_flush {c : Fin quickLists} (hs : l.Sound)
    (h : l.Stocks n ∨ l.quick c ≠ [] ∧ n ≤ quickSize c) : (l.flush c).Stocks n :=
  stocks_foldl_free (sound_withdraw hs c) (hs.shelved.nodup c) (fun _ hp => mem_live_withdraw hs hp)
    (h.imp_left (stocks_withdraw c hs))

/-- A block that goes on a quick list is no matter to the free ones. -/
lemma stocks_push {c : Fin quickLists} (hs : l.Sound) (hb : b ∈ l.live) :
    (l.push c b.payload).Stocks n ↔ l.Stocks n := by
  obtain ⟨hmem, hu⟩ := hb
  have ht := hs.tiled hmem
  obtain ⟨before, after, hp⟩ := List.append_of_mem hmem
  have hpieces : (l.push c b.payload).pieces = before ++ [{ b with use := .quick }] ++ after := by
    show (l.mark b.payload .quick).pieces = _
    rw [mark_eq ht hp .quick]
  have hmem : ∀ d : Piece, d.use = .free → (d ∈ (l.push c b.payload).pieces ↔ d ∈ l.pieces) := by
    intro d hd
    rw [hpieces, hp]
    exact mem_replace_of_use (hp ▸ ht) (by rw [hu, hd]; decide) (by simp [hd])
  constructor
  · rintro ⟨d, hd, hdu, hle⟩
    exact ⟨d, (hmem d hdu).mp hd, hdu, hle⟩
  · rintro ⟨d, hd, hdu, hle⟩
    exact ⟨d, (hmem d hdu).mpr hd, hdu, hle⟩

/-! ### Releasing -/

lemma quickClass?_eq_none (h1 : minBlock ≤ n) (h2 : n % alignment = 0) :
    quickClass? n = none ↔ maxQuickBlock < n := by
  unfold quickClass?
  split <;> simp only [reduceCtorEq, false_iff, true_iff] <;> omega

/-- A block released, by the quick list of its size. -/
lemma release_eq (hs : l.Sound) (hb : b ∈ l.live) : l.release b.payload =
    match quickClass? b.size with
    | none => l.free b.payload
    | some c => if (l.quick c).length = quickDepth then (l.flush c).push c b.payload
      else l.push c b.payload := by
  have hsize : l.sizeAt b.payload = b.size := hs.sizeAt_eq hb.1
  rcases hq : quickClass? b.size with _ | c <;> simp only [release, hsize, hq]

lemma quickFor_congr (h : l'.quick = l.quick) : l'.quickFor need = l.quickFor need := by
  rw [quickFor, quickFor, h]

lemma quickFor_quickSize : l.quickFor (quickSize c) = l.quick c := by
  rw [quickFor, quickClass?_quickSize]
  rfl

/-- The quick lists of other sizes stay as they are. -/
lemma quickFor_update {ps : List Nat} (h : l'.quick = Function.update l.quick c ps)
    (hne : need ≠ quickSize c) : l'.quickFor need = l.quickFor need := by
  rw [quickFor, quickFor, h]
  rcases hq : quickClass? need with _ | d
  · rfl
  · have hdc : d ≠ c := fun he => hne (he ▸ quickClass?_eq_some.mp hq)
    exact Function.update_of_ne hdc ..

/-- **A block released** goes in front of the quick list of its size, -/
lemma quickFor_release_self (hs : l.Sound) (hb : b ∈ l.live) (hq : quickClass? b.size = some c) :
    ∃ ps, (l.release b.payload).quickFor b.size = b.payload :: ps := by
  have hpush : ∀ m : Ledger, (m.push c b.payload).quickFor b.size = b.payload :: m.quick c := fun m => by
    rw [quickClass?_eq_some.mp hq, quickFor_quickSize]
    exact Function.update_self ..
  rw [release_eq hs hb, hq]
  dsimp only
  split
  · exact ⟨_, hpush _⟩
  · exact ⟨_, hpush _⟩

/-- and on no other, -/
lemma quickFor_release_of_ne (hs : l.Sound) (hb : b ∈ l.live) (hne : need ≠ b.size) :
    (l.release b.payload).quickFor need = l.quickFor need := by
  rw [release_eq hs hb]
  rcases hq : quickClass? b.size with _ | c
  · exact quickFor_congr (quick_free _)
  · have hsize := quickClass?_eq_some.mp hq
    dsimp only
    split
    · exact (quickFor_update rfl (hsize ▸ hne)).trans
        (quickFor_update (sound_flush hs c).2.2 (hsize ▸ hne))
    · exact quickFor_update rfl (hsize ▸ hne)

/-- and the blocks that were there are freed if the list was full. -/
lemma stocks_release (hs : l.Sound) (hb : b ∈ l.live) (hq : quickClass? b.size = some c) (hle : n ≤ b.size) :
    (l.release b.payload).Stocks n ↔ l.Stocks n ∨ (l.quick c).length = quickDepth := by
  rw [release_eq hs hb, hq]
  dsimp only
  split
  · next hfull =>
    obtain ⟨hs1, hl1, -⟩ := sound_flush hs c
    have hne : l.quick c ≠ [] := fun hnil => by
      rw [hnil] at hfull
      exact absurd hfull (by decide)
    rw [stocks_push hs1 (hl1.symm ▸ hb)]
    exact ⟨fun _ => .inr hfull, fun _ => stocks_flush hs (.inr ⟨hne, quickClass?_eq_some.mp hq ▸ hle⟩)⟩
  · next hroom =>
    rw [stocks_push hs hb]
    exact ⟨.inl, fun h => h.resolve_right hroom⟩

/-! ### Which list a block came from -/

lemma quick_take : (l.take p need).quick = l.quick := quick_trim p need

lemma quick_grow : l.grow.2.quick = l.quick := by
  unfold grow
  rcases l.arena.grow with ⟨_ | page, a⟩
  · rfl
  · exact quick_free _

lemma quick_setUp : l.setUp.2.quick = l.quick := by
  unfold setUp
  rcases l.arena.grow with ⟨_ | page, a⟩
  · rfl
  · exact quick_free _

/-- A heap without pages has empty quick lists, and so it has after the first one. -/
lemma quickFor_setUp (hs : l.Sound) (h0 : l.arena.pages = 0) : l.setUp.2.quickFor need = [] := by
  rw [quickFor_congr quick_setUp, quickFor]
  rcases quickClass? need with _ | c
  · rfl
  · exact (hs.lists_nil (hs.empty h0)).2 c

/-- A search in the main lists leaves the quick lists alone. -/
lemma quick_serveGrowing : (l.serveGrowing need).2.quick = l.quick := by
  -- on the pages that the arena has left
  induction hr : l.arena.room using Nat.strong_induction_on generalizing l with
  | h r ih =>
    rcases hf : l.fit? need with _ | p
    · have hquick := quick_grow (l := l)
      rcases hg : l.grow with ⟨_ | _, l'⟩ <;> rw [hg] at hquick
      · rw [serveGrowing_refused hf hg]
        exact hquick
      · rw [serveGrowing_granted hf hg]
        exact (ih _ (hr ▸ room_grow l hg) rfl).trans hquick
    · rw [serveGrowing_some hf]
      exact quick_take

/-- A block that was served is of the size that was needed, or it was on no quick list. -/
lemma exact_of_serve (hs : l.Sound) (e : l.serve need = (some p, l')) :
    ⟨p, need, .live⟩ ∈ l'.live ∨ l'.quickFor need = [] := by
  rcases hq : l.quickFor need with _ | ⟨q, ps⟩
  · rw [serve_of_quick_nil hq] at e
    refine .inr ((quickFor_congr ?_).trans hq)
    have hquick : (l.serveGrowing need).2.quick = l.quick := quick_serveGrowing
    rwa [e] at hquick
  · obtain ⟨c, rfl, hlist, hserve⟩ := serve_quick hq
    cases e.symm.trans hserve
    obtain ⟨-, hlive, -⟩ := sound_pop hs hlist
    exact .inl (hlive ▸ .inl rfl)

/-- **A block that is larger than needed** was on no quick list, so the list of the size that was needed is
empty. -/
lemma exact_or_quick_nil (hs : l.Sound) (e : l.obtainBlock need = (some p, l')) :
    ⟨p, need, .live⟩ ∈ l'.live ∨ l'.quickFor need = [] := by
  unfold obtainBlock at e
  split at e
  · next h0 =>
    obtain ⟨hs1, -, -⟩ := sound_setUp hs h0
    split at e
    · next l1 hup =>
      rw [hup] at hs1
      exact exact_of_serve hs1 e
    · cases e
  · exact exact_of_serve hs e

end Ledger

end BoundaryTag
