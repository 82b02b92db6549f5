import BoundaryTag.Proofs.Ledger.Returning
import BoundaryTag.Proofs.Ledger.Serving

/-!
Ledgers over arenas that are alike.

A ledger asks its arena for nothing but pages. Two ledgers with the same blocks and lists, over arenas that
answer all requests for pages alike, answer every request alike and stay so.
-/

namespace BoundaryTag

open Piece

namespace Arena

/-- The arena after `n` requests for a page. -/
def after (a : Arena) : Nat → Arena
  | 0 => a
  | n + 1 => a.grow.2.after n

/-- Arenas that have handed out as many pages, and will answer all requests for a page alike. So they
begin at the same address, if they ever hand out a page. -/
structure Alike (a b : Arena) : Prop where
  pages : b.pages = a.pages
  grants : ∀ n, (b.after n).grow.1 = (a.after n).grow.1

variable {a b : Arena}

lemma pages_grow (a : Arena) : a.grow.2.pages = a.pages + if a.grow.1.isSome then 1 else 0 := by
  rcases a.grow_cases with ⟨h, -⟩ | h <;> rw [h] <;> rfl

lemma Alike.grow (w : a.Alike b) : b.grow.1 = a.grow.1 ∧ a.grow.2.Alike b.grow.2 := by
  have hgrant : b.grow.1 = a.grow.1 := w.grants 0
  refine ⟨hgrant, ?_, fun n => w.grants (n + 1)⟩
  rw [pages_grow, pages_grow, hgrant, w.pages]

/-- Both arenas refuse a page, or both grant the same one. -/
lemma Alike.grow_cases (w : a.Alike b) : ∃ a' b' : Arena, a'.Alike b' ∧
    ((a.grow = (none, a') ∧ b.grow = (none, b')) ∨
      ∃ page, a.grow = (some page, a') ∧ b.grow = (some page, b')) := by
  obtain ⟨hgrant, hnext⟩ := w.grow
  refine ⟨_, _, hnext, ?_⟩
  rcases hpage : a.grow.1 with _ | page
  · exact .inl ⟨Prod.ext hpage rfl, Prod.ext (hgrant.trans hpage) rfl⟩
  · exact .inr ⟨page, Prod.ext hpage rfl, Prod.ext (hgrant.trans hpage) rfl⟩

end Arena

namespace Ledger

/-- The same blocks and lists over another arena. -/
def withArena (l : Ledger) (a : Arena) : Ledger := { l with arena := a }

/-- Ledgers that differ in their arenas only, and these are alike. -/
def Alike (l m : Ledger) : Prop := ∃ b, l.arena.Alike b ∧ m = l.withArena b

variable {l m : Ledger} {a : Arena}

/-! ### Edits -/

@[simp] lemma arena_withArena : (l.withArena a).arena = a := rfl

@[simp] lemma sizeAt_withArena (p : Nat) : (l.withArena a).sizeAt p = l.sizeAt p := rfl

@[simp] lemma split_withArena (p n : Nat) : (l.withArena a).split p n = (l.split p n).withArena a := rfl

@[simp] lemma push_withArena (c : Fin quickLists) (p : Nat) :
    (l.withArena a).push c p = (l.push c p).withArena a := rfl

@[simp] lemma free_withArena (p : Nat) : (l.withArena a).free p = (l.free p).withArena a := by
  unfold free withArena
  dsimp only
  split <;> rfl

@[simp] lemma foldl_free_withArena (ps : List Nat) :
    ps.foldl free (l.withArena a) = (ps.foldl free l).withArena a := by
  induction ps generalizing l with
  | nil => rfl
  | cons p ps ih => simp [ih]

@[simp] lemma flush_withArena (c : Fin quickLists) : (l.withArena a).flush c = (l.flush c).withArena a :=
  foldl_free_withArena (l := l.withdraw c) (l.quick c)

@[simp] lemma trim_withArena (p need : Nat) : (l.withArena a).trim p need = (l.trim p need).withArena a := by
  simp only [trim, sizeAt_withArena, split_withArena, free_withArena]
  split <;> rfl

@[simp] lemma take_withArena (p need : Nat) : (l.withArena a).take p need = (l.take p need).withArena a :=
  trim_withArena (l := mark { l with main := l.main.without [p] } p .live) p need

@[simp] lemma skipTo_withArena (p q : Nat) : (l.withArena a).skipTo p q = (l.skipTo p q).withArena a := by
  simp only [skipTo, split_withArena, free_withArena]
  split <;> rfl

@[simp] lemma release_withArena (p : Nat) : (l.withArena a).release p = (l.release p).withArena a := by
  unfold release
  rw [sizeAt_withArena]
  rcases quickClass? (l.sizeAt p) with _ | c
  · exact free_withArena p
  · show (if (l.quick c).length = quickDepth then ((l.withArena a).flush c).push c p
      else (l.withArena a).push c p) =
        withArena (if (l.quick c).length = quickDepth then (l.flush c).push c p else l.push c p) a
    rw [flush_withArena, push_withArena, push_withArena]
    split <;> rfl

@[simp] lemma arena_skipTo (p q : Nat) : (l.skipTo p q).arena = l.arena := by
  unfold skipTo
  split
  · rfl
  · rw [arena_free, arena_split]

/-! ### Pages and blocks -/

/-- The same answer, and ledgers that stay alike. -/
def Agree {α : Type} (x y : α × Ledger) : Prop := y.1 = x.1 ∧ x.2.Alike y.2

lemma Alike.pages (w : l.Alike m) : m.arena.pages = l.arena.pages := by
  obtain ⟨b, hab, rfl⟩ := w
  exact hab.pages

lemma Alike.grow (w : l.Alike m) : Agree l.grow m.grow := by
  obtain ⟨b, hab, rfl⟩ := w
  unfold Ledger.grow
  rw [arena_withArena]
  obtain ⟨a', b', hnext, ⟨ha, hb⟩ | ⟨page, ha, hb⟩⟩ := hab.grow_cases <;> rw [ha, hb]
  · exact ⟨rfl, b', hnext, rfl⟩
  · refine ⟨rfl, b', (arena_free ..).symm ▸ hnext, ?_⟩
    exact free_withArena (l := { l with arena := a', pieces := l.pieces ++ [⟨page, pageSize, .live⟩] }) page

lemma Alike.setUp (w : l.Alike m) : Agree l.setUp m.setUp := by
  obtain ⟨b, hab, rfl⟩ := w
  unfold Ledger.setUp
  rw [arena_withArena]
  obtain ⟨a', b', hnext, ⟨ha, hb⟩ | ⟨page, ha, hb⟩⟩ := hab.grow_cases <;> rw [ha, hb]
  · exact ⟨rfl, b', hnext, rfl⟩
  · refine ⟨rfl, b', (arena_free ..).symm ▸ hnext, ?_⟩
    exact free_withArena (l := { l with arena := a', pieces := [⟨page + 2 * wordSize, firstBlock, .live⟩] }) _

lemma Alike.serveGrowing (need : Nat) (w : l.Alike m) :
    Agree (l.serveGrowing need) (m.serveGrowing need) := by
  -- on the pages that the first arena has left
  induction hr : l.arena.room using Nat.strong_induction_on generalizing l m with
  | h r ih =>
    have hfit : m.fit? need = l.fit? need := by
      obtain ⟨b, -, rfl⟩ := w
      rfl
    rcases hf : l.fit? need with _ | p <;> rw [hf] at hfit
    · obtain ⟨hgrant, hnext⟩ := w.grow
      rcases hl : l.grow with ⟨_ | _, l'⟩ <;> rcases hm : m.grow with ⟨_ | _, m'⟩ <;>
        rw [hl, hm] at hgrant hnext <;> cases hgrant
      · rw [serveGrowing_refused hf hl, serveGrowing_refused hfit hm]
        exact ⟨rfl, hnext⟩
      · rw [serveGrowing_granted hf hl, serveGrowing_granted hfit hm]
        exact ih _ (hr ▸ room_grow l hl) hnext rfl
    · rw [serveGrowing_some hf, serveGrowing_some hfit]
      obtain ⟨b, hab, rfl⟩ := w
      exact ⟨rfl, b, (arena_take p need).symm ▸ hab, take_withArena p need⟩

lemma Alike.serve (need : Nat) (w : l.Alike m) : Agree (l.serve need) (m.serve need) := by
  have hquick : m.quick = l.quick := by
    obtain ⟨b, -, rfl⟩ := w
    rfl
  unfold Ledger.serve
  rw [hquick]
  split
  · exact w.serveGrowing need
  · split
    · exact w.serveGrowing need
    · obtain ⟨b, hab, rfl⟩ := w
      exact ⟨rfl, b, hab, rfl⟩

lemma Alike.obtainBlock (need : Nat) (w : l.Alike m) :
    Agree (l.obtainBlock need) (m.obtainBlock need) := by
  unfold Ledger.obtainBlock
  rw [w.pages]
  split
  · obtain ⟨hgrant, hnext⟩ := w.setUp
    rcases hl : l.setUp with ⟨_ | _, l'⟩ <;> rcases hm : m.setUp with ⟨_ | _, m'⟩ <;>
      rw [hl, hm] at hgrant hnext <;> cases hgrant
    · exact ⟨rfl, hnext⟩
    · exact hnext.serve need
  · exact w.serve need

/-! ### Requests -/

lemma Alike.allocate (size : Nat) (w : l.Alike m) : Agree (l.allocate size) (m.allocate size) := by
  unfold Ledger.allocate
  split
  · exact ⟨rfl, w⟩
  · split
    · exact ⟨rfl, w⟩
    · next need _ =>
      obtain ⟨hblock, hnext⟩ := w.obtainBlock need
      rcases hl : l.obtainBlock need with ⟨_ | p, l'⟩ <;> rcases hm : m.obtainBlock need with ⟨_ | q, m'⟩ <;>
        rw [hl, hm] at hblock hnext <;> cases hblock
      · exact ⟨rfl, hnext⟩
      · exact ⟨rfl, hnext⟩

lemma Alike.allocateAligned (size align : Nat) (w : l.Alike m) :
    Agree (l.allocateAligned size align) (m.allocateAligned size align) := by
  unfold Ledger.allocateAligned
  split
  · exact ⟨rfl, w⟩
  split
  · exact ⟨rfl, w⟩
  split
  · next need padded _ _ =>
    obtain ⟨hblock, hnext⟩ := w.obtainBlock padded
    rcases hl : l.obtainBlock padded with ⟨_ | p, l'⟩ <;>
      rcases hm : m.obtainBlock padded with ⟨_ | q, m'⟩ <;>
        rw [hl, hm] at hblock hnext <;> cases hblock
    · exact ⟨rfl, hnext⟩
    · obtain ⟨b, hab, rfl⟩ := hnext
      refine ⟨rfl, b, ?_, ?_⟩
      · rwa [arena_trim, arena_skipTo]
      · show (((l'.withArena b).skipTo p _).trim _ need) = _
        rw [skipTo_withArena, trim_withArena]
  · exact ⟨rfl, w⟩

lemma Alike.release (p : Nat) (w : l.Alike m) : (l.release p).Alike (m.release p) := by
  obtain ⟨b, hab, rfl⟩ := w
  exact ⟨b, (arena_release p).symm ▸ hab, release_withArena p⟩

lemma Alike.resize (p size : Nat) (w : l.Alike m) : Agree (l.resize p size) (m.resize p size) := by
  have hsize : m.sizeAt p = l.sizeAt p := by
    obtain ⟨b, -, rfl⟩ := w
    rfl
  unfold Ledger.resize
  split
  · exact ⟨rfl, w.release p⟩
  split
  · exact ⟨rfl, w⟩
  next need _ =>
  rw [hsize]
  split
  · obtain ⟨b, hab, rfl⟩ := w
    exact ⟨rfl, b, (arena_trim p need).symm ▸ hab, trim_withArena p need⟩
  · obtain ⟨hblock, hnext⟩ := w.obtainBlock need
    rcases hl : l.obtainBlock need with ⟨_ | q, l'⟩ <;> rcases hm : m.obtainBlock need with ⟨_ | q', m'⟩ <;>
      rw [hl, hm] at hblock hnext <;> cases hblock
    · exact ⟨rfl, hnext⟩
    · exact ⟨rfl, hnext.release p⟩

/-- **Every request is answered alike**, and the ledgers stay alike. -/
lemma Alike.answer (r : Request) (w : l.Alike m) : Agree (l.answer r) (m.answer r) := by
  cases r with
  | allocate size => exact w.allocate size
  | allocateZeroed size => exact w.allocate size
  | allocateAligned size align => exact w.allocateAligned size align
  | release p => exact ⟨rfl, w.release p⟩
  | resize p size => exact w.resize p size
  | write addr byte => exact ⟨rfl, w⟩

end Ledger

end BoundaryTag
