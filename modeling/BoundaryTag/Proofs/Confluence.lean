import BoundaryTag.Proofs.Heap.Recovering
import BoundaryTag.Proofs.Ledger.Fusing
import BoundaryTag.Proofs.Session

/-!
Blocks released in any order.

Blocks that are too large for the quick lists are freed when they are released. Whatever order they are
released in, and whichever of the free blocks around them are merged when, the heap has the same blocks in
the end: those before, with these marked free, and every run of free blocks next to each other put together.
-/

namespace BoundaryTag

open Heap Piece

namespace BlockInfo

/-- A block before others, put together with the first of them if both are free. Otherwise the first of them
tells whether the block is allocated. -/
def absorb (b : BlockInfo) : List BlockInfo → List BlockInfo
  | [] => [b]
  | c :: rest =>
    if !b.allocated && !c.allocated then { b with size := b.size + c.size } :: rest
    else b :: { c with prevAllocated := b.allocated } :: rest

/-- Every run of free blocks next to each other put together. -/
def fuse (bs : List BlockInfo) : List BlockInfo := bs.foldr absorb []

/-- The blocks at these addresses marked free. -/
def freed (ps : List Nat) (bs : List BlockInfo) : List BlockInfo :=
  bs.map fun b => if b.payload ∈ ps then { b with allocated := false } else b

end BlockInfo

open BlockInfo (freed)

section Walk

variable {f g : Bool} {b : Piece} {bs : List Piece}

/-- The walk sees blocks put together. What the first of them said of the block before it is no matter. -/
lemma walk_absorb (f g : Bool) (b : Piece) (bs : List Piece) :
    BlockInfo.absorb ⟨b.payload, b.size, !b.isFree, f⟩ (walk g bs) = walk f (absorb b bs) := by
  rcases bs with _ | ⟨c, bs⟩
  · rfl
  have hsize : ∀ n, ({ b with size := n } : Piece).isFree = b.isFree := fun _ => rfl
  rw [walk, BlockInfo.absorb, absorb]
  rcases hb : b.isFree with _ | _ <;> rcases hc : c.isFree with _ | _ <;>
    simp only [walk, hsize, hb, hc, Bool.not_true, Bool.not_false, Bool.and_true, Bool.and_false, Bool.and_self,
      Bool.false_eq_true, if_true, if_false]

/-- **The walk over blocks that are marked free and put together.** -/
lemma fuse_freed_walk (ps : List Nat) (f : Bool) (bs : List Piece) :
    BlockInfo.fuse (freed ps (walk f bs)) = walk f (fuse (marked ps bs)) := by
  induction bs generalizing f with
  | nil => rfl
  | cons b bs ih =>
    set c := if b.payload ∈ ps then { b with use := .free } else b with hc
    have hfirst : (if b.payload ∈ ps then (⟨b.payload, b.size, false, f⟩ : BlockInfo)
        else ⟨b.payload, b.size, !b.isFree, f⟩) = ⟨c.payload, c.size, !c.isFree, f⟩ := by
      rw [hc]
      split <;> rfl
    have hcons : BlockInfo.fuse (freed ps (walk f (b :: bs))) = BlockInfo.absorb
        (if b.payload ∈ ps then ⟨b.payload, b.size, false, f⟩ else ⟨b.payload, b.size, !b.isFree, f⟩)
        (BlockInfo.fuse (freed ps (walk (!b.isFree) bs))) := rfl
    rw [hcons, ih, hfirst, walk_absorb, marked_cons, fuse_cons]

end Walk

/-! ### Sessions -/

namespace Session

/-- The sessions have the same blocks in the same pages, the same last block and quick slots, and the same
blocks on each main list, in any order. -/
structure SameLayout (s t : Session) : Prop where
  arena : t.heap.arena = s.heap.arena
  blocks : t.heap.blocks = s.heap.blocks
  last : t.heap.last = s.heap.last
  quick : t.heap.quick = s.heap.quick
  main : ∀ c, ∃ xs ys, s.heap.mainList c = .ok xs ∧ t.heap.mainList c = .ok ys ∧ xs.Perm ys

variable {s t u : Session} {l l' : Ledger} {ps : List Nat}

/-- Large blocks released one after the other. -/
lemma Has.release_all (k : s.Has l) (hnd : ps.Nodup)
    (hps : ∀ p ∈ ps, ∃ d ∈ l.live, d.payload = p ∧ maxQuickBlock < d.size) :
    ∃ t, s.Run (ps.map .release) (ps.map fun _ => .ok none) t ∧ t.Has (ps.foldl Ledger.free l) := by
  induction ps generalizing s l with
  | nil => exact ⟨s, .nil s, k⟩
  | cons p ps ih =>
    obtain ⟨b, hb, rfl, hlarge⟩ := hps p List.mem_cons_self
    obtain ⟨hp, hrest⟩ := List.nodup_cons.mp hnd
    have hbs := (k.sound.tiled hb.1).bounds hb.1
    have hfree : l.release b.payload = l.free b.payload := by
      rw [Ledger.release_eq k.sound hb, (Ledger.quickClass?_eq_none hbs.2.2.1 hbs.2.2.2).mpr hlarge]
    obtain ⟨s1, e, k1, -⟩ := k.step (r := .release b.payload) (k.held b hb)
    rw [Ledger.answer, hfree] at k1
    obtain ⟨t, hrun, kt⟩ := ih k1 hrest fun q hq => by
      obtain ⟨d, hd, rfl, hsize⟩ := hps q (List.mem_cons_of_mem _ hq)
      exact ⟨d, Ledger.live_free_of_ne k.sound hb hd fun he => hp (he ▸ hq), rfl, hsize⟩
    exact ⟨t, .cons (k.held b hb) e hrun, kt⟩

/-- What the layout of a session depends on. -/
lemma Has.sameLayout (k : s.Has l) (k' : t.Has l') (harena : l'.arena = l.arena) (hpieces : l'.pieces = l.pieces)
    (hquick : l'.quick = l.quick) (hlast : t.heap.last = s.heap.last) : s.SameLayout t := by
  refine ⟨k.arena_eq k' harena, ?_, hlast, k.shows.shelves.unique (hquick ▸ k'.shows.shelves),
    fun c => ⟨_, _, k.shows.mainList k.sound c, k'.shows.mainList k'.sound c, ?_⟩⟩
  · rw [k.shows.blocks k.sound, k'.shows.blocks k'.sound, hpieces]
  · refine (List.perm_ext_iff_of_nodup (k.sound.filed.nodup c) (k'.sound.filed.nodup c)).mpr fun p => ?_
    rw [k.sound.filed.mem, k'.sound.filed.mem, hpieces]

end Session

/-- **The order of releases is no matter to the layout.** In every session that a run ends in, let clients hold
different blocks that are too large for the quick lists. Released in any two orders, they leave the same blocks,
pages, last block and quick slots, and the same blocks on each main list. The blocks are those before, with
these marked free, and every run of free blocks next to each other put together. -/
theorem release_order_irrelevant {s : Session} {ps qs : List Nat} (hs : s.Reachable) (hnd : ps.Nodup)
    (hlarge : ∀ p ∈ ps, s.holds p ∧ maxQuickBlock < s.usable p + wordSize) (hperm : ps.Perm qs) :
    ∃ t u bs, s.Run (ps.map .release) (ps.map fun _ => .ok none) t ∧
      s.Run (qs.map .release) (qs.map fun _ => .ok none) u ∧ t.SameLayout u ∧
      s.heap.blocks = .ok bs ∧ t.heap.blocks = .ok (BlockInfo.fuse (freed ps bs)) ∧
      t.heap.arena = s.heap.arena ∧ t.heap.quick = s.heap.quick := by
  obtain ⟨l, k⟩ := hs.has_ledger
  have hblocks : ∀ p ∈ ps, ∃ d ∈ l.live, d.payload = p ∧ maxQuickBlock < d.size := fun p hp => by
    obtain ⟨hheld, hsize⟩ := hlarge p hp
    obtain ⟨n, hn, husable, hmin⟩ := k.block hheld
    refine ⟨_, hn, rfl, ?_⟩
    unfold minBlock wordSize at *
    simp only
    omega
  have hlive : ∀ p ∈ ps, ∃ d ∈ l.live, d.payload = p := fun p hp =>
    (hblocks p hp).imp fun d hd => ⟨hd.1, hd.2.1⟩
  have hlive' : ∀ p ∈ qs, ∃ d ∈ l.live, d.payload = p := fun p hp => hlive p (hperm.mem_iff.mpr hp)
  obtain ⟨t, ht, kt⟩ := k.release_all hnd hblocks
  obtain ⟨u, hu, ku⟩ := k.release_all (hperm.nodup hnd) fun p hp => hblocks p (hperm.mem_iff.mpr hp)
  have hpt := Ledger.pieces_foldl_free k.sound hnd hlive
  have hpu := Ledger.pieces_foldl_free k.sound (hperm.nodup hnd) hlive'
  have hpieces : (qs.foldl Ledger.free l).pieces = (ps.foldl Ledger.free l).pieces := by
    rw [hpt, hpu, marked_perm hperm]
  refine ⟨t, u, _, ht, hu, kt.sameLayout ku ?_ hpieces ?_ ?_, k.shows.blocks k.sound, ?_, k.arena_eq kt (Ledger.arena_foldl_free ps),
    k.shows.shelves.unique (Ledger.quick_foldl_free (l := l) ps ▸ kt.shows.shelves)⟩
  · rw [Ledger.arena_foldl_free, Ledger.arena_foldl_free]
  · rw [Ledger.quick_foldl_free, Ledger.quick_foldl_free]
  · rcases ps with _ | ⟨p, ps⟩
    · obtain rfl := hperm.nil_eq
      cases ht
      cases hu
      rfl
    · -- there are blocks, and the last one is where it is
      obtain ⟨d, hd, -⟩ := hlive p List.mem_cons_self
      have h0 : ((p :: ps).foldl Ledger.free l).arena.pages ≠ 0 :=
        (Ledger.arena_foldl_free (l := l) (p :: ps)).symm ▸ k.sound.pages_ne hd.1
      obtain ⟨b, hb⟩ := List.exists_mem_of_ne_nil _ (kt.sound.pieces_ne_nil h0)
      exact kt.shows.last_unique kt.sound ku.sound ku.shows hb hpieces
  · rw [kt.shows.blocks kt.sound, hpt, fuse_freed_walk]

/-- Here the second of three blocks is released between the others, or before them. -/
theorem release_order_of_three :
    ∃ s t u : Session, s.Run ([4112, 4624, 5232].map .release) [.ok none, .ok none, .ok none] t ∧
      s.Run ([4624, 5232, 4112].map .release) [.ok none, .ok none, .ok none] u ∧ t.SameLayout u ∧
      s.heap.blocks = .ok [⟨4112, 512, true, true⟩, ⟨4624, 608, true, true⟩, ⟨5232, 720, true, true⟩,
        ⟨5952, 32, true, true⟩, ⟨5984, 2208, false, true⟩] ∧
      t.heap.blocks = .ok [⟨4112, 1840, false, true⟩, ⟨5952, 32, true, false⟩, ⟨5984, 2208, false, true⟩] := by
  obtain ⟨as, s, hs⟩ := Session.sample_serves
    [.allocate 500, .allocate 600, .allocate 700, .allocate 24] (by decide +kernel)
  have hblocks : s.heap.blocks = .ok [⟨4112, 512, true, true⟩, ⟨4624, 608, true, true⟩, ⟨5232, 720, true, true⟩,
      ⟨5952, 32, true, true⟩, ⟨5984, 2208, false, true⟩] :=
    Session.shown hs (by decide +kernel)
  have hlarge : ∀ p ∈ [4112, 4624, 5232], s.holds p ∧ maxQuickBlock < s.usable p + wordSize :=
    Session.shown hs (by decide +kernel)
  have hperm : List.Perm [4112, 4624, 5232] [4624, 5232, 4112] := by decide
  obtain ⟨t, u, bs, ht, hu, hsame, hbs, hbt, -⟩ :=
    release_order_irrelevant (Session.sample_reachable hs) (by decide) hlarge hperm
  obtain rfl := Except.ok.inj (hbs.symm.trans hblocks)
  exact ⟨s, t, u, ht, hu, hsame, hblocks, hbt⟩

end BoundaryTag
