import BoundaryTag.Proofs.Heap.Recovering
import BoundaryTag.Proofs.Reuse

/-!
Releases that undo allocations.

A block that was given and is released goes where the next request for as much finds it: if it has the size
that was needed, or is too large for the quick lists. That request gives it again, and the heap is as it was
after the first, in all but the bytes that the client has of the block.
-/

namespace BoundaryTag

open Heap HeapM Piece

/-- The heaps are the same, but for what a client has of the block at `p`, of which it uses `n` bytes. -/
structure Heap.SameBut (p n : Nat) (h h' : Heap) : Prop where
  setting : SameSetting h h'
  heads : h'.heads = h.heads
  quick : h'.quick = h.quick
  last : h'.last = h.last
  bytes : ∀ x, x < p ∨ p + n ≤ x → h'.memory.byte x = h.memory.byte x

namespace Session

variable {s t u : Session} {l l' : Ledger} {b : Piece} {n need p : Nat}

/-- **A block released**, which is not too many for its quick list: nothing is written off that block and the
places where the heap keeps account of its blocks. -/
lemma Has.release_one (k : s.Has l) (hb : b ∈ l.live)
    (hroom : ∀ c, quickClass? b.size = some c → (l.quick c).length < quickDepth) :
    ∃ t, s.step (.release b.payload) = .ok (.ok none, t) ∧ t.Has (l.release b.payload) ∧
      SameSetting s.heap t.heap ∧ SameOff (fun x => Booked l.pieces x ∨ b.usable x) s.heap t.heap := by
  obtain ⟨t, e, k', -⟩ := k.step (r := .release b.payload) (k.held _ hb)
  obtain ⟨h', hrun, -, hset, hoff⟩ := k.shows.releaseOne k.sound hb hroom
  have hserve : (Request.release b.payload).serve s.heap = .ok (.ok none, h') :=
    (bind_run ((bind_run (k.shows.demandValid k.sound hb)).trans hrun)).trans rfl
  have heq : t.heap = h' := congrArg Prod.snd (Except.ok.inj ((serve_of_step e).symm.trans hserve))
  exact ⟨t, e, k', heq ▸ hset, heq ▸ hoff⟩

/-- **A block given that is there**: nothing is written off the places where the heap keeps account of its
blocks. -/
lemma Has.allocate_one (k : s.Has l) (h0 : l.arena.pages ≠ 0) (hn : 0 < n) (hneed : blockSize? n = some need)
    (hthere : l.quickFor need ≠ [] ∨ ∃ q, l.fit? need = some q) (ho : l.obtainBlock need = (some p, l')) :
    ∃ t, s.step (.allocate n) = .ok (.ok (some p), t) ∧ t.Has l' ∧ SameSetting s.heap t.heap ∧
      SameOff (fun x => Booked l.pieces x ∨ Booked l'.pieces x) s.heap t.heap := by
  obtain ⟨hmin, hmod, -⟩ := blockSize?_some hneed
  have hans : l.allocate n = (.ok (some p), l') := by
    rw [Ledger.allocate, if_neg hn.ne', hneed]
    dsimp only
    rw [ho]
  obtain ⟨t, e, k', -⟩ := k.step (r := .allocate n) trivial
  rw [Ledger.answer, hans] at e k'
  obtain ⟨h', hrun, -, hset, hoff⟩ := k.shows.allocateOne k.sound h0 hmin hmod hthere
  rw [ho] at hrun hoff
  have hserve : (Request.allocate n).serve s.heap = .ok (.ok (some p), h') := by
    show (RequestM.allocate n).run s.heap = _
    unfold RequestM.allocate
    rw [if_neg hn.ne', hneed, RequestM.bind_run (orOutOfMemory_some need),
      RequestM.bind_run (RequestM.lift_run hrun)]
    exact RequestM.bind_run (orOutOfMemory_some p)
  have heq : t.heap = h' := congrArg Prod.snd (Except.ok.inj ((serve_of_step e).symm.trans hserve))
  exact ⟨t, e, k', heq ▸ hset, heq ▸ hoff⟩

lemma held_of_allocate (e : s.step (.allocate n) = .ok (.ok (some p), t)) : t.held = ⟨p, n⟩ :: s.held := by
  rw [held_of_step e, heldAfter]
  exact congrArg _ (List.filter_eq_self.mpr fun x _ => by simp [Request.returns])

/-- What was given and is released is no longer held, and nothing else. -/
lemma Has.held_of_release (k : t.Has l) (hheld : t.held = ⟨p, n⟩ :: s.held)
    (e : t.step (.release p) = .ok (.ok none, u)) : u.held = s.held := by
  have hnd := k.nodup
  rw [hheld, List.map_cons, List.nodup_cons] at hnd
  have hkeep : s.held.filter (fun x => (Request.release p).returns ≠ some x.ptr) = s.held :=
    List.filter_eq_self.mpr fun x hx => by
      have hne : p ≠ x.ptr := fun he => hnd.1 (List.mem_map.mpr ⟨x, hx, he.symm⟩)
      simpa [Request.returns] using hne
  rw [held_of_step e, Session.heldAfter, hheld, List.filter_cons_of_neg (by simp [Request.returns]), hkeep]

/-- Sessions with one ledger whose heaps differ where the ledger has its account, or in one block, differ in
that block only. -/
lemma Has.sameBut (k : s.Has l) (k' : t.Has l) (hb : b ∈ l.live) (hset : SameSetting s.heap t.heap)
    (hoff : SameOff (fun x => Booked l.pieces x ∨ b.usable x) s.heap t.heap) :
    SameBut b.payload (s.usable b.payload) s.heap t.heap := by
  have hbs := (k.sound.tiled hb.1).bounds hb.1
  obtain ⟨hheads, -⟩ := k.shows.ringed.unique k'.shows.ringed
  refine ⟨hset, hheads, k.shows.shelves.unique k'.shows.shelves,
    k.shows.last_unique k.sound k'.sound k'.shows hb.1 rfl, fun x hx => ?_⟩
  by_cases hbook : Booked l.pieces x
  · exact k.shows.booked_unique k.sound k'.shows hset.key hbook
  · refine hoff x (not_or.mpr ⟨hbook, fun hin => ?_⟩)
    obtain ⟨h1, h2⟩ := hin
    rw [k.usable_eq hb] at hx
    unfold Piece.stop minBlock wordSize at *
    omega

end Session

/-- **To release a block undoes that it was given.** In every session that a run ends in, let a block be given
for `n` bytes, of just the size that they need or too large for the quick lists. If it is released, the next
request for `n` bytes gives it again. Then the heap is as it was after the first: arena, list heads, quick
slots, the last block and all bytes but the usable ones of the block, so all tags and links; and so are the
blocks, the order of each list and what clients hold. -/
theorem release_undoes_allocate {s t : Session} {n p : Nat} (hs : s.Reachable)
    (e : s.step (.allocate n) = .ok (.ok (some p), t))
    (hsize : blockSize? n = some (t.usable p + wordSize) ∨ maxQuickBlock < t.usable p + wordSize) :
    ∃ u v, t.step (.release p) = .ok (.ok none, u) ∧ u.step (.allocate n) = .ok (.ok (some p), v) ∧
      SameBut p (t.usable p) t.heap v.heap ∧ v.held = t.held ∧ v.heap.blocks = t.heap.blocks ∧
      (∀ c, v.heap.mainList c = t.heap.mainList c) ∧ ∀ c, v.heap.quickList c = t.heap.quickList c := by
  obtain ⟨l, k⟩ := hs.has_ledger
  obtain ⟨need, l1, hn, hneed, ho, k1⟩ := k.given e
  obtain ⟨hmin, hmod, -⟩ := blockSize?_some hneed
  have hserved := Ledger.served_obtainBlock hmin hmod k.sound
  rw [ho] at hserved
  obtain ⟨hs1, ⟨size, hsnug, hlive⟩, hnew⟩ := hserved
  set b : Piece := ⟨p, size, .live⟩ with hbdef
  have hb : b ∈ l1.live := hlive ▸ .inl rfl
  have husable : t.usable p + wordSize = size := by
    have hbs := ((hs1.tiled hb.1).bounds hb.1).2.2.1
    have hu : t.usable p = b.size - wordSize := k1.usable_eq (b := b) hb
    rw [hu]
    unfold minBlock wordSize at *
    simp only [hbdef] at *
    omega
  rw [husable, hneed, Option.some_inj] at hsize
  obtain ⟨hroom, hthere, hagain⟩ :=
    Ledger.obtainBlock_release k.sound hmin hmod ho hb (hsize.imp_left Eq.symm)
  obtain ⟨u, eu, k2, hset, hoff⟩ := k1.release_one hb hroom
  have h0 : (l1.release p).arena.pages ≠ 0 := by
    rw [Ledger.arena_release]
    exact hs1.pages_ne hb.1
  obtain ⟨v, ev, k3, hset', hoff'⟩ := k2.allocate_one h0 hn hneed hthere hagain
  have hoff'' : SameOff (fun x => Booked l1.pieces x ∨ b.usable x) u.heap v.heap :=
    hoff'.mono fun x hx => hx.elim (booked_release hs1 hb hroom) .inl
  refine ⟨u, v, eu, ev, k1.sameBut k3 hb (hset.trans hset') (hoff.trans hoff''), ?_, ?_, fun c => ?_,
    fun c => ?_⟩
  · have hheld := Session.held_of_allocate e
    rw [Session.held_of_allocate ev, k1.held_of_release hheld eu, hheld]
  · rw [k1.shows.blocks hs1, k3.shows.blocks hs1]
  · rw [k1.shows.mainList hs1, k3.shows.mainList hs1]
  · rw [k1.shows.quickList hs1, k3.shows.quickList hs1]

/-- Here the first request takes a page, and the second finds what it left. -/
theorem release_undoes_growth :
    ∃ s t u v : Session, s.heap.pages = 1 ∧ s.step (.allocate 4500) = .ok (.ok (some 4720), t) ∧
      t.heap.pages = 2 ∧ t.step (.release 4720) = .ok (.ok none, u) ∧
      u.step (.allocate 4500) = .ok (.ok (some 4720), v) ∧ SameBut 4720 4504 t.heap v.heap := by
  obtain ⟨as, s, hs⟩ := Session.sample_serves [.allocate 600] (by decide +kernel)
  have hpages : s.heap.pages = 1 := Session.shown hs (by decide +kernel)
  have hanswer : (s.step (.allocate 4500)).map Prod.fst = .ok (.ok (some 4720)) :=
    Session.shown hs (by decide +kernel)
  have hafter : (s.step (.allocate 4500)).map (fun x => (x.2.heap.pages, x.2.usable 4720)) = .ok (2, 4504) :=
    Session.shown hs (by decide +kernel)
  obtain ⟨t, e⟩ := Session.step_of_answer hanswer
  rw [e] at hafter
  obtain ⟨hpages', husable⟩ := Prod.mk.inj (Except.ok.inj hafter)
  obtain ⟨u, v, eu, ev, hsame, -⟩ :=
    release_undoes_allocate (Session.sample_reachable hs) e (.inr (by rw [husable]; decide))
  exact ⟨s, t, u, v, hpages, e, hpages', eu, ev, husable ▸ hsame⟩

end BoundaryTag
