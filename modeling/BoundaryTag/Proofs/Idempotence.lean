import BoundaryTag.Proofs.Resizing
import BoundaryTag.Proofs.Restoring

/-!
Resizing twice.

A block that was resized has the size that was asked for, or sixteen bytes more, which cannot stand alone. So the
same resize again leaves it where it is with what it has. If it has more than is needed, its header is written
once more, the block after it told once more, and the last block noted; but all of that is there already, since
the ledger, which determines it, is the same.
-/

namespace BoundaryTag

open Heap HeapM Piece

/-- The heaps are the same: setting, list heads, quick slots, the tracked last block, and every byte. -/
structure Heap.Same (h h' : Heap) : Prop where
  setting : SameSetting h h'
  heads : h'.heads = h.heads
  quick : h'.quick = h.quick
  last : h'.last = h.last
  bytes : ∀ x, h'.memory.byte x = h.memory.byte x

section Fitting

variable {h : Heap} {l : Ledger} {b : Piece} {n need : Nat}

/-- **A block resized that fits already**: nothing is written but what keeps account of the blocks. -/
lemma Shows.resizeFitting (hs : l.Sound) (w : Shows h l) (hb : b ∈ l.live) (hn : 0 < n)
    (hneed : blockSize? n = some need) (hle : need ≤ b.size) (hrest : b.size - need < minBlock) :
    ∃ h', (RequestM.resize b.payload n).run h = .ok (.ok (some b.payload), h') ∧
      Within (Booked l.pieces) h h' := by
  obtain ⟨hmin, hmod, -⟩ := blockSize?_some hneed
  have hread := w.legible hs hb.1
  have htag : HeapM.tagAt b.payload h = .ok (h.header b.payload, h) := reading_run hread.tag
  unfold RequestM.resize
  rw [RequestM.bind_run (RequestM.lift_run (w.demandValid hs hb)), if_neg hn.ne', hneed,
    RequestM.bind_run (orOutOfMemory_some need), RequestM.bind_run (RequestM.lift_run htag), hread.size,
    if_neg (Nat.not_lt.mpr hle)]
  by_cases hcut : need < b.size
  · obtain ⟨before, after, hp⟩ := List.append_of_mem hb.1
    have hparts : before ++ b.parts need ++ after = l.pieces := by
      rw [parts, if_pos hrest, hp, List.append_assoc, List.singleton_append]
    obtain ⟨h', hrun, -, hw⟩ := w.placeLive hs hb hp hmin hmod hle
    rw [if_pos hcut]
    exact ⟨h', RequestM.bind_run (RequestM.lift_run hrun), hparts ▸ hw⟩
  · rw [if_neg hcut]
    exact ⟨h, rfl, .refl h⟩

end Fitting

namespace Session

variable {s t u : Session} {l : Ledger} {b : Piece} {n p q : Nat}

/-- Sessions with one ledger whose heaps differ where the ledger has its account do not differ. -/
lemma Has.same (k : s.Has l) (k' : t.Has l) (hb : b ∈ l.live) (w : Within (Booked l.pieces) s.heap t.heap) :
    Same s.heap t.heap := by
  obtain ⟨hset, hheads, hquick, hlast, -⟩ := k.sameBut k' hb w.setting (w.off.mono fun _ => .inl)
  refine ⟨hset, hheads, hquick, hlast, fun x => ?_⟩
  by_cases hbook : Booked l.pieces x
  · exact k.shows.booked_unique k.sound k'.shows w.setting.key hbook
  · exact w.off x hbook

/-- What a client was given by a resize, it holds, and for as much as it asked for. -/
lemma held_of_resize (e : s.step (.resize p n) = .ok (.ok (some q), t)) :
    t.held = ⟨q, n⟩ :: s.held.filter fun x => some p ≠ some x.ptr :=
  held_of_step e

/-- A block that is resized to what it is held for is held as before. -/
lemma Has.held_of_resize_again (k : t.Has l) (e : s.step (.resize p n) = .ok (.ok (some q), t))
    (e' : t.step (.resize q n) = .ok (.ok (some q), u)) : u.held = t.held := by
  have hnd := k.nodup
  rw [held_of_resize e, List.map_cons, List.nodup_cons] at hnd
  rw [held_of_resize e', held_of_resize e, List.filter_cons_of_neg (by simp)]
  refine congrArg _ (List.filter_eq_self.mpr fun x hx => ?_)
  have hne : q ≠ x.ptr := fun he => hnd.1 (List.mem_map.mpr ⟨x, hx, he.symm⟩)
  simpa using hne

end Session

/-- **To resize is idempotent.** In every session that a run ends in, let a client's block be resized to `n` bytes,
where it is or by a move, so that it is at `q` then. To resize it to `n` bytes again answers `q` again and changes
nothing: no byte of the arena, no list head, no quick slot, no page and not the tracked last block, and not what
clients hold either. -/
theorem resize_idempotent {s t : Session} {n p q : Nat} (hs : s.Reachable) (hp : s.holds p) (hn : 0 < n)
    (e : s.step (.resize p n) = .ok (.ok (some q), t)) :
    ∃ u, t.step (.resize q n) = .ok (.ok (some q), u) ∧ Same t.heap u.heap ∧ u.held = t.held := by
  obtain ⟨l0, k0⟩ := hs.has_ledger
  obtain ⟨-, k, -⟩ := k0.of_step (r := .resize p n) hp e
  generalize (l0.answer (.resize p n)).2 = l at k
  have hin : (⟨q, n⟩ : Holding) ∈ t.held := Session.held_of_resize e ▸ List.mem_cons_self
  -- the block has the size that is needed, or sixteen bytes more
  obtain ⟨need, hneed, hsnug⟩ := k.snug hin
  obtain ⟨m, hb, husable, hlen⟩ := k.block ⟨_, hin, rfl⟩
  rw [husable] at hsnug
  have hle : need ≤ m ∧ m - need < minBlock := by
    unfold Snug at hsnug
    unfold minBlock alignment wordSize at *
    omega
  have hans : l.answer (.resize q n) = (.ok (some q), l) := by
    have hkeep : l.trim q need = l := Ledger.trim_eq_self (b := ⟨q, m, .live⟩) k.sound hb.1 hle.2
    rw [Ledger.answer, Ledger.resize_in_place (b := ⟨q, m, .live⟩) k.sound hb hn hneed hle.1, hkeep]
  obtain ⟨u, e', k', -⟩ := k.step (r := .resize q n) ⟨_, hin, rfl⟩
  rw [hans] at e' k'
  obtain ⟨h', hrun, hw⟩ := k.shows.resizeFitting (b := ⟨q, m, .live⟩) k.sound hb hn hneed hle.1 hle.2
  have heq : u.heap = h' := congrArg Prod.snd (Except.ok.inj ((Session.serve_of_step e').symm.trans hrun))
  exact ⟨u, e', k.same k' hb (heq ▸ hw), k.held_of_resize_again e e'⟩

/-- Here the block is moved, to the end of the region, and has sixteen bytes more than are needed. -/
theorem resize_idempotent_after_move : ∃ s t u : Session, s.holds 4112 ∧
    s.step (.resize 4112 4020) = .ok (.ok (some 4144), t) ∧ t.heap.last = 4144 ∧ t.usable 4144 = 4040 ∧
    t.step (.resize 4144 4020) = .ok (.ok (some 4144), u) ∧ Same t.heap u.heap := by
  obtain ⟨as, s, hs⟩ := Session.sample_serves [.allocate 10] (by decide +kernel)
  have hp : s.Allows (.resize 4112 4020) := Session.shown hs (by decide +kernel)
  have hanswer : (s.step (.resize 4112 4020)).map Prod.fst = .ok (.ok (some 4144)) :=
    Session.shown hs (by decide +kernel)
  have hafter : (s.step (.resize 4112 4020)).map (fun x => (x.2.heap.last, x.2.usable 4144)) =
      .ok (4144, 4040) :=
    Session.shown hs (by decide +kernel)
  obtain ⟨t, e⟩ := Session.step_of_answer hanswer
  rw [e] at hafter
  obtain ⟨hlast, husable⟩ := Prod.mk.inj (Except.ok.inj hafter)
  obtain ⟨u, eu, hsame, -⟩ := resize_idempotent (Session.sample_reachable hs) hp (by decide) e
  exact ⟨s, t, u, hp, e, hlast, husable, eu, hsame⟩

end BoundaryTag
