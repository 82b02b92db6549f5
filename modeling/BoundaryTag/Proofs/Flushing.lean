import BoundaryTag.Proofs.Confluence
import BoundaryTag.Proofs.Isolation
import BoundaryTag.Proofs.Integrity

/-!
Releases that flush a quick list.

A block that is released while the quick list of its size is full goes there alone: the blocks that were on
the list are freed first, and put together with what is free around them. They may lie anywhere, next to each
other too.
-/

namespace BoundaryTag

open Heap Piece

open BlockInfo (freed)

namespace Ledger

variable {l : Ledger} {b : Piece} {c : Fin quickLists}

/-- A block that goes on a quick list looks the same in a walk. -/
lemma walk_push (hs : l.Sound) (hb : b ∈ l.live) :
    walk true (l.push c b.payload).pieces = walk true l.pieces := by
  rw [push, mark_eq_map]
  exact walk_map fun d hd => mark_same hs hb.1 (by rw [hb.2]; decide) (by decide) hd

end Ledger

namespace Session

variable {s t : Session} {l : Ledger} {b : Piece} {c : Fin quickLists}

/-- What a release leaves that flushes a quick list: the block alone on that list, all others as they were, and
the blocks of that list free and put together with what is free next to them. -/
structure Flushes (s t : Session) (c : Fin quickLists) (p : Nat) : Prop where
  arena : t.heap.arena = s.heap.arena
  slot : t.heap.quickListLen c = 1 ∧ t.heap.quickList c = .ok [p]
  others : ∀ d, d ≠ c → t.heap.quick.get d = s.heap.quick.get d ∧ t.heap.quickList d = s.heap.quickList d
  held : ∀ b ∈ s.held, b.ptr ≠ p → s.Unharmed t [] b
  blocks : ∃ qs bs, s.heap.quickList c = .ok qs ∧ qs.length = quickDepth ∧ s.heap.blocks = .ok bs ∧
    t.heap.blocks = .ok (BlockInfo.fuse (freed qs bs)) ∧ ListsOrderly t.heap (BlockInfo.fuse (freed qs bs))

/-- **A block released to a full quick list.** -/
lemma Has.flushes (k : s.Has l) (hb : b ∈ l.live) (hsize : b.size = quickSize c)
    (hfull : (l.quick c).length = quickDepth) :
    ∃ t, s.step (.release b.payload) = .ok (.ok none, t) ∧ s.Flushes t c b.payload := by
  have hs := k.sound
  obtain ⟨t, e, k', -⟩ := k.step (r := .release b.payload) (k.held b hb)
  have hrelease : l.release b.payload = (l.flush c).push c b.payload := by
    rw [Ledger.release_eq hs hb, hsize, quickClass?_quickSize]
    exact if_pos hfull
  rw [Ledger.answer, hrelease] at k'
  obtain ⟨hs1, hl1, hq1⟩ := Ledger.sound_flush hs c
  have hquick : ((l.flush c).push c b.payload).quick = Function.update l.quick c [b.payload] := by
    simp only [Ledger.push, hq1, Function.update_self, Function.update_idem]
  have hother : ∀ d, d ≠ c → ((l.flush c).push c b.payload).quick d = l.quick d := fun d hd => by
    rw [hquick, Function.update_of_ne hd]
  have hself : ((l.flush c).push c b.payload).quick c = [b.payload] := by
    rw [hquick, Function.update_self]
  have hwalk : walk true ((l.flush c).push c b.payload).pieces =
      BlockInfo.fuse (freed (l.quick c) (walk true l.pieces)) := by
    rw [Ledger.walk_push hs1 (hl1 ▸ hb), Ledger.pieces_flush hs, fuse_freed_walk]
  refine ⟨t, e, ⟨?_, ⟨?_, ?_⟩, fun d hd => ⟨?_, ?_⟩, fun x hx hne => ?_, ⟨_, _, k.shows.quickList hs c, hfull,
    k.shows.blocks hs, ?_, ?_⟩⟩⟩
  · exact k.arena_eq k' (hrelease ▸ Ledger.arena_release b.payload)
  · rw [k'.shows.quickListLen, hself]
    rfl
  · rw [k'.shows.quickList k'.sound, hself]
  · exact k.shows.shelves.slot_unique k'.shows.shelves (hother d hd)
  · rw [k.shows.quickList hs, k'.shows.quickList k'.sound, hother d hd]
  · exact (k.unharmed_step (r := .release b.payload) (k.held b hb) e hx
      fun he => hne (Option.some.inj he).symm).of_not_stores fun _ => id
  · rw [k'.shows.blocks k'.sound, hwalk]
  · exact hwalk ▸ k'.shows.listsOrderly k'.sound

end Session

/-- **A full quick list is flushed for the next block.** In every session that a run ends in, let a client
release a block of a size that has a quick list, which is full. Then the block is alone on that list, all other
quick lists and the blocks of clients are as they were, and the heap has the blocks that it had, with those of
the list marked free, and every run of free blocks next to each other put together. Each of the free blocks is
on the main list of its class, once, and on no other. -/
theorem release_flushes_full_list {s : Session} {p : Nat} {c : Fin quickLists} (hs : s.Reachable)
    (hp : s.holds p) (hsize : s.usable p + wordSize = quickSize c)
    (hfull : s.heap.quickListLen c = quickDepth) :
    ∃ t, s.step (.release p) = .ok (.ok none, t) ∧ s.Flushes t c p := by
  obtain ⟨l, k⟩ := hs.has_ledger
  obtain ⟨n, hn, husable, hmin⟩ := k.block hp
  refine k.flushes (b := ⟨p, n, .live⟩) hn ?_ (k.shows.quickListLen c ▸ hfull)
  show n = quickSize c
  unfold minBlock wordSize at *
  omega

/-- Here the block lies between the five, and the free block at the end of the heap behind them. -/
theorem release_flushes_on_both_sides :
    ∃ s t : Session, s.step (.release 4176) = .ok (.ok none, t) ∧ s.Flushes t ⟨0, by decide⟩ 4176 ∧
      s.heap.quickList ⟨0, by decide⟩ = .ok [4272, 4144, 4240, 4112, 4208] ∧
      t.heap.blocks = .ok [⟨4112, 64, false, true⟩, ⟨4176, 32, true, false⟩, ⟨4208, 3984, false, true⟩] := by
  obtain ⟨as, s, hs⟩ := Session.sample_serves
    (List.replicate 6 (.allocate 24) ++ [4208, 4112, 4240, 4144, 4272].map .release) (by decide +kernel)
  have hholds : s.holds 4176 := Session.shown hs (by decide +kernel)
  have husable : s.usable 4176 = 24 := Session.shown hs (by decide +kernel)
  have hlen : s.heap.quickListLen 0 = quickDepth := Session.shown hs (by decide +kernel)
  have hquick : s.heap.quickList ⟨0, by decide⟩ = .ok [4272, 4144, 4240, 4112, 4208] :=
    Session.shown hs (by decide +kernel)
  have hblocks : s.heap.blocks = .ok [⟨4112, 32, true, true⟩, ⟨4144, 32, true, true⟩, ⟨4176, 32, true, true⟩,
      ⟨4208, 32, true, true⟩, ⟨4240, 32, true, true⟩, ⟨4272, 32, true, true⟩, ⟨4304, 3888, false, true⟩] :=
    Session.shown hs (by decide +kernel)
  obtain ⟨t, e, hflush⟩ := release_flushes_full_list (c := ⟨0, by decide⟩) (Session.sample_reachable hs) hholds
    (by rw [husable]; decide) hlen
  obtain ⟨qs, bs, hqs, -, hbs, hbt, -⟩ := hflush.blocks
  obtain rfl := Except.ok.inj (hqs.symm.trans hquick)
  obtain rfl := Except.ok.inj (hbs.symm.trans hblocks)
  exact ⟨s, t, e, hflush, hquick, hbt⟩

end BoundaryTag
