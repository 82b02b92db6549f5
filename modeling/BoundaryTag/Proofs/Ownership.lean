import BoundaryTag.Proofs.Integrity

/-!
The owners of the blocks.

Each block of a heap is with a client, on a quick list or on a main list, and nowhere else; the lists hold
nothing that is no block. So what clients have handed back is on the quick lists or free, and if nothing is
on the quick lists either, all of the region is one free block.
-/

namespace BoundaryTag

open Heap Piece

/-- The blocks of all owners: of the clients, of the quick lists and of the main lists. -/
def owned (held : List Holding) (quick : Fin quickLists → List Nat) (main : MainLists) : List Nat :=
  held.map Holding.ptr ++
    ((List.finRange quickLists).flatMap quick ++ (List.finRange mainLists).flatMap main)

/-- Blocks and lists as they are read off the heap of a session, where each block has one owner: the blocks
of all owners are the blocks of the walk, each of them once. -/
structure Session.Divided (s : Session) (bs : List BlockInfo) (quick : Fin quickLists → List Nat)
    (main : MainLists) : Prop where
  blocks : s.heap.blocks = .ok bs
  onQuick : ∀ c, s.heap.quickList c = .ok (quick c)
  onMain : ∀ c, s.heap.mainList c = .ok (main c)
  distinct : (bs.map BlockInfo.payload).Nodup
  owners : (owned s.held quick main).Perm (bs.map BlockInfo.payload)
  live : ∀ b ∈ bs, s.holds b.payload → b.allocated = true
  shelved : ∀ c, ∀ b ∈ bs, b.payload ∈ quick c → b.allocated = true ∧ b.size = quickSize c
  depth : ∀ c, (quick c).length ≤ quickDepth
  filed : ∀ c, ∀ b ∈ bs, b.payload ∈ main c → b.allocated = false ∧ mainClass b.size = c
  total : s.heap.ready = true →
    (bs.map BlockInfo.size).sum + 2 * wordSize = s.heap.arena.pages * pageSize

namespace Session

variable {s : Session} {l : Ledger} {p : Nat}

lemma Has.mem_held (k : s.Has l) :
    p ∈ s.held.map Holding.ptr ↔ ∃ b ∈ l.pieces, b.payload = p ∧ b.use = .live :=
  List.mem_map.trans (k.holds_iff p)

/-- **Each block has one owner.** -/
lemma Has.owners (k : s.Has l) : (owned s.held l.quick l.main).Perm (payloads l.pieces) := by
  have hs := k.sound
  obtain ⟨a, z, ht⟩ := hs.exists_tiles
  -- a block with two owners would have two uses
  have hclash : ∀ {p : Nat} {u v : Use}, (∃ b ∈ l.pieces, b.payload = p ∧ b.use = u) →
      (∃ b ∈ l.pieces, b.payload = p ∧ b.use = v) → u = v := by
    rintro p u v ⟨b, hb, rfl, hu⟩ ⟨c, hc, hp, hv⟩
    obtain rfl := ht.eq_of_payload hc hb hp
    exact hu.symm.trans hv
  have hlists : ((List.finRange quickLists).flatMap l.quick ++
      (List.finRange mainLists).flatMap l.main).Nodup := by
    refine (hs.shelved.nodup_all ht).append (hs.filed.nodup_all ht) fun p hq hm => ?_
    cases hclash (hs.shelved.mem_all.mp hq) (hs.filed.mem_all.mp hm)
  have hall : (owned s.held l.quick l.main).Nodup := by
    refine k.nodup.append hlists fun p hl hp => ?_
    rcases List.mem_append.mp hp with hq | hm
    · cases hclash (k.mem_held.mp hl) (hs.shelved.mem_all.mp hq)
    · cases hclash (k.mem_held.mp hl) (hs.filed.mem_all.mp hm)
  refine (List.perm_ext_iff_of_nodup hall ht.nodup).mpr fun p => ?_
  rw [owned, List.mem_append, List.mem_append, k.mem_held, hs.shelved.mem_all, hs.filed.mem_all,
    payloads, List.mem_map]
  constructor
  · rintro (⟨b, hb, hp, -⟩ | ⟨b, hb, hp, -⟩ | ⟨b, hb, hp, -⟩) <;> exact ⟨b, hb, hp⟩
  · rintro ⟨b, hb, hp⟩
    rcases hu : b.use
    · exact .inl ⟨b, hb, hp, hu⟩
    · exact .inr (.inl ⟨b, hb, hp, hu⟩)
    · exact .inr (.inr ⟨b, hb, hp, hu⟩)

/-- **The blocks of a session divided** among their owners. -/
lemma Has.divided (k : s.Has l) : s.Divided (walk true l.pieces) l.quick l.main := by
  have hs := k.sound
  obtain ⟨a, z, ht⟩ := hs.exists_tiles
  refine ⟨k.shows.blocks hs, k.shows.quickList hs, k.shows.mainList hs, walk_payloads ▸ ht.nodup,
    walk_payloads ▸ k.owners, fun i hi hheld => ?_, fun c i hi hq => ?_, hs.shelved.length_le,
    fun c i hi hm => ?_, fun hready => ?_⟩
  · obtain ⟨b, hb, hp, -, hu⟩ := mem_walk hi
    obtain ⟨d, hd, hdp, huse⟩ := (k.holds_iff _).mp (hp ▸ hheld)
    obtain rfl := ht.eq_of_payload hb hd hdp.symm
    rw [hu, isFree, huse]
    rfl
  · obtain ⟨b, hb, hp, hz, hu⟩ := mem_walk hi
    obtain ⟨huse, hsize⟩ := hs.shelved.eq_of_mem ht hb (hp ▸ hq)
    rw [hu, hz, isFree, huse]
    exact ⟨rfl, hsize⟩
  · obtain ⟨b, hb, hp, hz, hu⟩ := mem_walk hi
    obtain ⟨huse, hclass⟩ := hs.filed.eq_of_mem ht hb (hp ▸ hm)
    rw [hu, hz, isFree, huse]
    exact ⟨rfl, hclass⟩
  · have h0 := k.shows.ready.mp hready
    have hend := (hs.tiles h0).stop_eq
    rw [walk_sizes, k.shows.arena]
    unfold Ledger.first Ledger.stop Piece.total at hend
    omega

section Divided

variable {bs : List BlockInfo} {quick : Fin quickLists → List Nat} {main : MainLists} {b : BlockInfo}

/-- A block is with a client, on a quick list or on a main list. -/
lemma Divided.owner (d : s.Divided bs quick main) (hb : b ∈ bs) :
    s.holds b.payload ∨ (∃ c, b.payload ∈ quick c) ∨ ∃ c, b.payload ∈ main c := by
  have hown := d.owners.mem_iff.mpr (List.mem_map_of_mem hb)
  rw [owned, List.mem_append, List.mem_append, mem_flatMap_finRange, mem_flatMap_finRange] at hown
  exact hown.imp_left List.mem_map.mp

/-- With nothing held, the allocated blocks are those on the quick lists. -/
lemma Divided.allocated_iff (d : s.Divided bs quick main) (hheld : s.held = []) (hb : b ∈ bs) :
    b.allocated = true ↔ ∃ c, b.payload ∈ quick c := by
  refine ⟨fun hu => ?_, fun ⟨c, hc⟩ => (d.shelved c b hb hc).1⟩
  rcases d.owner hb with ⟨x, hx, -⟩ | hq | ⟨c, hc⟩
  · exact absurd (hheld ▸ hx) List.not_mem_nil
  · exact hq
  · exact absurd ((d.filed c b hb hc).1.symm.trans hu) Bool.false_ne_true

/-- A free block is on the main list of its class. -/
lemma Divided.mem_main (d : s.Divided bs quick main) (hb : b ∈ bs) (hfree : b.allocated = false) :
    b.payload ∈ main (mainClass b.size) := by
  have hnot : b.allocated ≠ true := Bool.eq_false_iff.mp hfree
  rcases d.owner hb with hheld | ⟨c, hc⟩ | ⟨c, hc⟩
  · exact absurd (d.live b hb hheld) hnot
  · exact absurd (d.shelved c b hb hc).1 hnot
  · rwa [(d.filed c b hb hc).2]

end Divided

end Session

/-- A walk over free blocks only sees one block, which is all of the region. -/
lemma BlocksOrderly.eq_singleton {h : Heap} {bs : List BlockInfo} (o : BlocksOrderly h bs)
    (hfree : ∀ b ∈ bs, b.allocated = false) :
    ∃ n, bs = [⟨h.firstPayload, n, false, true⟩] := by
  obtain ⟨b, hb, -⟩ := o.last
  rcases bs with _ | ⟨c, _ | ⟨d, rest⟩⟩
  · cases hb
  · obtain ⟨hp, hprev⟩ := o.first c rfl
    have hu := hfree c List.mem_cons_self
    obtain ⟨payload, size, allocated, prevAllocated⟩ := c
    simp only at hp hprev hu
    exact ⟨size, by rw [hp, hprev, hu]⟩
  · -- two free blocks next to each other
    have hc := hfree c List.mem_cons_self
    have hd := hfree d (List.mem_cons_of_mem _ List.mem_cons_self)
    have hor := (List.isChain_cons_cons.mp o.coalesced).1
    simp [hc, hd] at hor

/-- **Every block has one owner** in a session that a run ends in: a client, the quick list of its size or
the main list of its class. If nothing is held, what is allocated is on the quick lists; if nothing is on
these either, all of the region is one free block. -/
theorem ownership_of_reachable {s : Session} (hs : s.Reachable) :
    ∃ bs quick main, s.Divided bs quick main ∧
      (s.held = [] → (∀ b ∈ bs, b.allocated = true ↔ ∃ c, b.payload ∈ quick c) ∧
        (s.heap.ready = true → (∀ c, quick c = []) →
          bs = [⟨s.heap.firstPayload, s.heap.arena.pages * pageSize - 2 * wordSize, false, true⟩])) := by
  obtain ⟨l, k⟩ := hs.has_ledger
  refine ⟨_, _, _, k.divided,
    fun hheld => ⟨fun b => k.divided.allocated_iff hheld, fun hready hquick => ?_⟩⟩
  have o := k.shows.blocksOrderly k.sound (k.shows.ready.mp hready)
  obtain ⟨n, hone⟩ := o.eq_singleton fun b hb => by
    refine Bool.eq_false_iff.mpr fun hu => ?_
    obtain ⟨c, hc⟩ := (k.divided.allocated_iff hheld hb).mp hu
    exact absurd (hquick c ▸ hc) List.not_mem_nil
  have htotal := k.divided.total hready
  rw [hone] at htotal ⊢
  rw [← htotal, Nat.add_sub_cancel]
  simp

theorem ownership_after_releases :
    ∃ s : Session, s.held = [] ∧ s.heap.blocks = .ok [⟨4112, 4080, false, true⟩] := by
  obtain ⟨as, s, hs⟩ := Session.sample_serves
    [.allocate 500, .allocate 600, .release 4112, .release 4624] (by decide +kernel)
  have hheld : s.held = [] := Session.shown hs (by decide +kernel)
  have hready : s.heap.ready = true := Session.shown hs (by decide +kernel)
  have hfirst : s.heap.firstPayload = 4112 := Session.shown hs (by decide +kernel)
  have hpages : s.heap.arena.pages = 1 := Session.shown hs (by decide +kernel)
  have hquick : ∀ c, s.heap.quickList c = .ok [] := Session.shown hs (by decide +kernel)
  obtain ⟨bs, quick, main, d, hone⟩ := ownership_of_reachable (Session.sample_reachable hs)
  have hnone : ∀ c, quick c = [] := fun c => Except.ok.inj ((d.onQuick c).symm.trans (hquick c))
  refine ⟨s, hheld, ?_⟩
  rw [d.blocks, (hone hheld).2 hready hnone, hfirst, hpages]
  rfl

end BoundaryTag
